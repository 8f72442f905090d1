import NuMakerMA35.Spinand
import NuMakerMA35.UartRx

namespace NuMakerMA35

def nandEio : Int := 5
def nandEinval : Int := 22
def nandEfbig : Int := 27
def nandErofs : Int := 30
def nandEbadmsg : Int := 74

/-- Parity bytes of a page: `g_i32ParityNum` at the page size and the BCH algorithm taken for it. -/
def nfiParityNum (pageShift : Nat) : Nat :=
  if pageShift = 11 then 60 else if pageShift = 12 then 184 else 360

/-- What `nand_scan_ident` finds out about a chip; MTD takes all sizes to be powers of two. The
page sizes are those `board_nand_init` accepts, and a row address has three bytes. -/
structure NfiGeometry where
  pageShift : Nat
  physEraseShift : Nat
  chipShift : Nat
  oobsize : Nat
  scan2ndpage : Bool
  scanlastpage : Bool
  page_supported : 11 ≤ pageShift ∧ pageShift ≤ 13
  pages_in_block : pageShift < physEraseShift
  erase_fits : physEraseShift < 31
  blocks_in_chip : physEraseShift ≤ chipShift
  row_fits : chipShift ≤ pageShift + 24
  spare_fits : 4 + nfiParityNum pageShift ≤ oobsize
  one_scan : scan2ndpage = true → scanlastpage = false

namespace NfiGeometry

variable (g : NfiGeometry)

def writesize : Nat := 2 ^ g.pageShift
def erasesize : Nat := 2 ^ g.physEraseShift
def size : Nat := 2 ^ g.chipShift

def pagesPerBlock : Nat := g.erasesize / g.writesize

def blocks : Nat := g.size / g.erasesize

def pagesOf (len : Nat) : Nat := (len + g.writesize - 1) / g.writesize

end NfiGeometry

inductive NfiTouch where
  | program (page : Nat)
  | programSpare (page : Nat)
  | erase (block : Nat)
deriving DecidableEq

/-- The chip and the stack: how commands turn out, given all that changed the chip so far.
`scrub` is the member of `instr` that `nand_erase` leaves unset; `parity` are the bytes the
controller puts behind the first spare bytes of a page. -/
structure NfiChip where
  wp : List NfiTouch → Bool
  readFails : List NfiTouch → Nat → Bool
  programFails : List NfiTouch → Bool
  eraseFails : List NfiTouch → Bool
  scrub : List NfiTouch → Bool
  parity : (Nat → Byte) → Nat → Byte

/-- The chip's pages and their spare bytes, by column; the bad block table; and the page last
read in part, kept in the data buffer. -/
structure NfiFlash where
  page : Nat → Nat → Byte
  spare : Nat → Nat → Byte
  bbt : Nat → Bool
  pagebuf : Option Nat
  databuf : Nat → Byte
  touched : List NfiTouch

def NfiFlash.touch (f : NfiFlash) (t : NfiTouch) : NfiFlash := { f with touched := f.touched ++ [t] }

/-- The data buffer is not to be taken for a page any more: `chip->pagebuf = -1`. -/
def NfiFlash.invalidate (f : NfiFlash) (stale : Nat → Bool) : NfiFlash :=
  if f.pagebuf.any stale then { f with pagebuf := none } else f

section Mtd

variable (g : NfiGeometry) (chip : NfiChip)

/-- The redundancy area that is programmed with a page: `oob_poi` is all ones, the two bytes that
tell a page as programmed are cleared, the parity follows. -/
def nfiWrittenSpare (bytes : Nat → Byte) (column : Nat) : Byte :=
  if column = 2 ∨ column = 3 then 0
  else if column < g.oobsize - nfiParityNum g.pageShift then 0xff
  else chip.parity bytes column

/-- `nand_write_page`; programming only clears bits, so that just an erased page holds what it was
given. -/
def nandWritePage (page : Nat) (bytes : Nat → Byte) (f : NfiFlash) : Int × NfiFlash :=
  let f := f.touch (.program page)
  if chip.programFails f.touched then (-nandEio, f)
  else (0, { f with
    page := Function.update f.page page fun column => f.page page column &&& bytes column
    spare := Function.update f.spare page fun column =>
      f.spare page column &&& nfiWrittenSpare g chip bytes column })

def nandWriteOobStd (page : Nat) (oob : Nat → Byte) (f : NfiFlash) : Int × NfiFlash :=
  let f := f.touch (.programSpare page)
  if chip.programFails f.touched then (-nandEio, f)
  else (0, { f with
    spare := Function.update f.spare page fun column => f.spare page column &&& oob column })

def singleErase (block : Nat) (f : NfiFlash) : Int × NfiFlash :=
  let f := f.touch (.erase block)
  if chip.eraseFails f.touched then (-nandEio, f)
  else (0, { f with
    page := fun x => if x / g.pagesPerBlock = block then fun _ => 0xff else f.page x
    spare := fun x => if x / g.pagesPerBlock = block then fun _ => 0xff else f.spare x })

def mtdBlockIsbad (bbt : Nat → Bool) (ofs : Nat) : Int :=
  if g.size < ofs then -nandEinval else if bbt (ofs / g.erasesize) then 1 else 0

def nandEraseNand (scrub : Bool) (addr : Nat) (f : NfiFlash) : Int × NfiFlash :=
  if addr % g.erasesize ≠ 0 then (-nandEinval, f)
  else if chip.wp f.touched then (-nandEio, f)
  else if !scrub && f.bbt (addr / g.erasesize) then (-nandEio, f)
  else
    let page := addr / g.writesize
    let f := f.invalidate fun cached => page ≤ cached && cached < page + g.pagesPerBlock
    singleErase g chip (addr / g.erasesize) f

def mtdErase (addr : Nat) (f : NfiFlash) : Int × NfiFlash :=
  if g.size < addr ∨ g.size - addr < g.erasesize then (-nandEinval, f)
  else nandEraseNand g chip (chip.scrub f.touched) addr f

/-- One turn of the loop of `nand_do_read_ops`: whether its ECC failed, and the bytes read. A part
of a page is read through the data buffer, which then keeps the page. -/
def nandReadTurn (realpage bytes : Nat) (f : NfiFlash) : Bool × List Byte × NfiFlash :=
  if f.pagebuf = some realpage then (false, (List.range bytes).map f.databuf, f)
  else
    let failed := chip.readFails f.touched realpage
    let buf := (List.range bytes).map (f.page realpage)
    if bytes = g.writesize then (failed, buf, f)
    else (failed, buf, { f with
      pagebuf := if failed then none else some realpage
      databuf := f.page realpage })

def nandDoReadOps : Nat → Nat → Nat → NfiFlash → Bool × List Byte × NfiFlash
  | 0, _, _, f => (false, [], f)
  | turns + 1, realpage, readlen, f =>
    let bytes := min g.writesize readlen
    let (failed, buf, f) := nandReadTurn g chip realpage bytes f
    let (failedLater, more, f) := nandDoReadOps turns (realpage + 1) (readlen - bytes) f
    (failed || failedLater, buf ++ more, f)

/-- `mtd_read`; corrected bit flips count as success for all callers. -/
def mtdRead (start len : Nat) (f : NfiFlash) : Int × List Byte × NfiFlash :=
  if g.size < start ∨ g.size - start < len then (-nandEinval, [], f)
  else if len = 0 then (0, [], f)
  else
    let (failed, buf, f) := nandDoReadOps g chip (g.pagesOf len) (start / g.writesize) len f
    (if failed then -nandEbadmsg else 0, buf, f)

/-- The bytes programmed to a page: a part of a page is filled up with ones. -/
def pageFill (buf : List Byte) (column : Nat) : Byte := (buf.take g.writesize).getD column 0xff

/-- The loop of `nand_do_write_ops`; a part of a page is filled up in the data buffer. -/
def nandDoWriteLoop : Nat → Nat → List Byte → NfiFlash → Int × NfiFlash
  | 0, _, _, f => (0, f)
  | turns + 1, realpage, buf, f =>
    let f := if buf.length < g.writesize then { f with pagebuf := none, databuf := pageFill g buf } else f
    let (ret, f) := nandWritePage g chip realpage (pageFill g buf) f
    if ret ≠ 0 then (ret, f)
    else nandDoWriteLoop turns (realpage + 1) (buf.drop g.writesize) f

def mtdWrite (start : Nat) (buf : List Byte) (f : NfiFlash) : Int × NfiFlash :=
  if g.size < start ∨ g.size - start < buf.length then (-nandEinval, f)
  else if buf = [] then (0, f)
  else if start % g.writesize ≠ 0 then (-nandEinval, f)
  else if chip.wp f.touched then (-nandEio, f)
  else
    let f := f.invalidate fun cached =>
      start ≤ cached * g.writesize && cached * g.writesize < start + buf.length
    nandDoWriteLoop g chip (g.pagesOf buf.length) (start / g.writesize) buf f

def nandDoWriteOob (start : Nat) (f : NfiFlash) : Int × NfiFlash :=
  if g.size ≤ start then (-nandEinval, f)
  else if chip.wp f.touched then (-nandErofs, f)
  else
    let page := start / g.writesize
    let f := f.invalidate fun cached => cached == page
    nandWriteOobStd chip page (fun column => if column = 0 then 0 else 0xff) f

/-- `nand_default_block_markbad`; the first result that is not zero counts. -/
def nandDefaultBlockMarkbad (ofs : Nat) (f : NfiFlash) : Int × NfiFlash :=
  let ofs := if g.scanlastpage then ofs + (g.erasesize - g.writesize) else ofs
  let (ret, f) := nandDoWriteOob g chip ofs f
  if g.scan2ndpage then
    let (res, f) := nandDoWriteOob g chip (ofs + g.writesize) f
    (if ret = 0 then res else ret, f)
  else (ret, f)

/-- `nand_block_markbad_lowlevel`; what the erasure returns is dropped. -/
def nandBlockMarkbadLowlevel (ofs : Nat) (f : NfiFlash) : Int × NfiFlash :=
  let (_, f) := nandEraseNand g chip false ofs f
  let (ret, f) := nandDefaultBlockMarkbad g chip ofs f
  (ret, { f with bbt := Function.update f.bbt (ofs / g.erasesize) true })

def mtdBlockMarkbad (ofs : Nat) (f : NfiFlash) : Int × NfiFlash :=
  if g.size < ofs then (-nandEinval, f)
  else if f.bbt (ofs / g.erasesize) then (0, f)
  else nandBlockMarkbadLowlevel g chip ofs f

end Mtd

section SkipBad

variable (g : NfiGeometry) (chip : NfiChip)

/-- The loop of `check_skip_len` with the bytes of good blocks so far, the result and `*used`. -/
def checkSkipLoop (bbt : Nat → Bool) (length : Nat) : Nat → Nat → Nat → Int → Nat → Int × Nat
  | 0, _, _, _, used => (-1, used)
  | turns + 1, offset, lenExclBad, ret, used =>
    if length ≤ lenExclBad then (ret, used - (lenExclBad - length))
    else if g.size ≤ offset then (-1, used)
    else
      let blockLen := g.erasesize - offset % g.erasesize
      if mtdBlockIsbad g bbt (offset - offset % g.erasesize) = 0 then
        checkSkipLoop bbt length turns (offset + blockLen) (lenExclBad + blockLen) ret (used + blockLen)
      else checkSkipLoop bbt length turns (offset + blockLen) lenExclBad 1 (used + blockLen)

/-- Every turn passes a block, so that the loop ends before the turns do. -/
def checkSkipLen (bbt : Nat → Bool) (offset length : Nat) : Int × Nat :=
  checkSkipLoop g bbt length (g.blocks + 2) offset 0 0 0

/-- `nand_block_isbad(mtd, offset & ~(mtd->erasesize - 1))`: the mask has 32 bits. -/
def skipsBlock (bbt : Nat → Bool) (offset : Nat) : Bool :=
  mtdBlockIsbad g bbt ((offset - offset % g.erasesize) % 2 ^ 32) ≠ 0

/-- Turns after which a loop that still runs runs for ever: it has then passed the chip and every
block that the mask can name. -/
def skipTurns : Nat := g.blocks + 2 ^ 32 / g.erasesize + 1

/-- The loop of `nand_write_skip_bad`; no result where it never ends. -/
def nandWriteSkipLoop : Nat → Nat → List Byte → NfiFlash → Option Int × NfiFlash
  | 0, _, buf, f => (if buf = [] then some 0 else none, f)
  | turns + 1, offset, buf, f =>
    if buf = [] then (some 0, f)
    else
      let blockOffset := offset % g.erasesize
      if skipsBlock g f.bbt offset then
        nandWriteSkipLoop turns (offset + (g.erasesize - blockOffset)) buf f
      else
        let writeSize := min buf.length (g.erasesize - blockOffset)
        let (rval, f) := mtdWrite g chip offset (buf.take writeSize) f
        if rval ≠ 0 then (some rval, f)
        else nandWriteSkipLoop turns (offset + writeSize) (buf.drop writeSize) f

/-- The driver's calls have no flags and the size of the chip as limit. -/
def nandWriteSkipBad (offset : Nat) (buf : List Byte) (f : NfiFlash) : Option Int × NfiFlash :=
  if offset % g.writesize ≠ 0 then (some (-nandEinval), f)
  else
    let (needSkip, used) := checkSkipLen g f.bbt offset buf.length
    if needSkip < 0 then (some (-nandEinval), f)
    else if g.size < used then (some (-nandEfbig), f)
    else if needSkip = 0 then
      let (rval, f) := mtdWrite g chip offset buf f
      (some rval, f)
    else nandWriteSkipLoop g chip (skipTurns g) offset buf f

def nandReadSkipLoop : Nat → Nat → Nat → NfiFlash → Option Int × List Byte × NfiFlash
  | 0, _, left, f => (if left = 0 then some 0 else none, [], f)
  | turns + 1, offset, left, f =>
    if left = 0 then (some 0, [], f)
    else
      let blockOffset := offset % g.erasesize
      if skipsBlock g f.bbt offset then
        nandReadSkipLoop turns (offset + (g.erasesize - blockOffset)) left f
      else
        let readLength := min left (g.erasesize - blockOffset)
        let (rval, buf, f) := mtdRead g chip offset readLength f
        if rval ≠ 0 then (some rval, buf, f)
        else
          let (result, more, f) := nandReadSkipLoop turns (offset + readLength) (left - readLength) f
          (result, buf ++ more, f)

def nandReadSkipBad (offset length : Nat) (f : NfiFlash) : Option Int × List Byte × NfiFlash :=
  if offset % g.writesize ≠ 0 then (some (-nandEinval), [], f)
  else
    let (needSkip, used) := checkSkipLen g f.bbt offset length
    if needSkip < 0 then (some (-nandEinval), [], f)
    else if g.size < used then (some (-nandEfbig), [], f)
    else if needSkip = 0 then
      let (rval, buf, f) := mtdRead g chip offset length f
      (some rval, buf, f)
    else nandReadSkipLoop g chip (skipTurns g) offset length f

end SkipBad

/-- A registered partition of the chip: its blocks are in order and on the chip. -/
structure NfiPartition (g : NfiGeometry) where
  blockStart : U32
  blockEnd : U32
  blockTotal : BitVec 16
  ordered : blockStart ≤ blockEnd
  onChip : blockEnd.toNat < g.blocks

namespace NfiPartition

variable {g : NfiGeometry} (dev : NfiPartition g) (chip : NfiChip)

/-- `page / device->pages_per_block > device->block_end`; the division is unsigned. -/
def pageBeyond (page : U32) : Bool := dev.blockEnd.toNat < page.toNat / g.pagesPerBlock

def blockBeyond (block : U32) : Bool := dev.blockEnd.toNat < block.toNat

/-- `NFI_MTD_INFO->writesize * page`, a product of 32 bits. -/
def pageOffset (_ : NfiPartition g) (page : U32) : Nat := g.writesize * page.toNat % 2 ^ 32

def blockOffset (_ : NfiPartition g) (block : U32) : Nat := g.erasesize * block.toNat % 2 ^ 32

def mtdResult (ret : Int) : Int := if ret = 0 then rtEok else -rtError

def readPage (page : U32) (dataLen : Nat) (f : NfiFlash) : Option Int × List Byte × NfiFlash :=
  if dev.pageBeyond page then (some (-rtMtdEio), [], f)
  else if dataLen = 0 then (some rtEok, [], f)
  else
    let (ret, data, f) := nandReadSkipBad g chip (dev.pageOffset page) dataLen f
    (ret.map mtdResult, data, f)

def writePage (page : U32) (data : List Byte) (f : NfiFlash) : Option Int × NfiFlash :=
  if dev.pageBeyond page then (some (-rtMtdEio), f)
  else if data = [] then (some rtEok, f)
  else
    let (ret, f) := nandWriteSkipBad g chip (dev.pageOffset page) data f
    (ret.map mtdResult, f)

def movePage (srcPage dstPage : U32) (f : NfiFlash) : Option Int × NfiFlash :=
  if dev.pageBeyond srcPage || dev.pageBeyond dstPage then (some (-rtMtdEio), f)
  else
    match nandReadSkipBad g chip (dev.pageOffset srcPage) g.writesize f with
    | (none, _, f) => (none, f)
    | (some ret, pageBuf, f) =>
      if ret ≠ 0 then (some (-rtError), f)
      else
        let (ret, f) := nandWriteSkipBad g chip (dev.pageOffset dstPage) pageBuf f
        (ret.map mtdResult, f)

/-- `nu_nfi_erase_block`; `nu_nfi_erase_block_force` has the same body. -/
def eraseBlock (block : U32) (f : NfiFlash) : Int × NfiFlash :=
  if dev.blockBeyond block then (-rtMtdEio, f)
  else
    let (ret, f) := mtdErase g chip (dev.blockOffset block) f
    (mtdResult ret, f)

def checkBlock (block : U32) (f : NfiFlash) : Int :=
  if dev.blockBeyond block then -rtMtdEio
  else if mtdBlockIsbad g f.bbt (dev.blockOffset block) = 0 then rtEok else -rtError

/-- A failure to mark is only printed. -/
def markBadblock (block : U32) (f : NfiFlash) : Int × NfiFlash :=
  if dev.blockBeyond block then (-rtMtdEio, f)
  else
    let (_, f) := mtdBlockMarkbad g chip (dev.blockOffset block) f
    (rtEok, f)

/-- `nfinerase_all` on an existing partition; the results of the erasures are dropped. -/
def nfineraseAll (f : NfiFlash) : NfiFlash :=
  (List.range dev.blockTotal.toNat).foldl
    (fun f index => (dev.eraseBlock chip (BitVec.ofNat 32 index) f).2) f

/-- The loop of `nfinerase_force` over `block`, which ends with the first failure. -/
def eraseForceLoop : List Nat → NfiFlash → NfiFlash
  | [], f => f
  | block :: rest, f =>
    let (ret, f) := dev.eraseBlock chip (BitVec.ofNat 32 block + dev.blockStart) f
    if ret ≠ rtEok then f else eraseForceLoop rest f

def nfineraseForce (f : NfiFlash) : NfiFlash :=
  dev.eraseForceLoop chip (List.range (dev.blockEnd.toNat + 1)) f

end NfiPartition

end NuMakerMA35
