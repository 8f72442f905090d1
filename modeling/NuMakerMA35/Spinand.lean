import NuMakerMA35.PdmaChannel
import NuMakerMA35.Logged

namespace NuMakerMA35

/-- What `struct nu_spinand_info` says about the geometry and the commands of a flash. -/
structure SpinandInfo where
  jedecId : U32
  pageSize : Nat
  oobSize : Nat
  quadReadCmdId : BitVec 8
  blockPerFlash : Nat
  pagePerBlock : Nat
  isDieSelect : Bool
  deriving DecidableEq, Repr

def gSpinandflashList : List SpinandInfo :=
  [⟨0xEFAA21, 2048, 64, 0x6b, 1024, 64, false⟩, ⟨0xEFBF22, 2048, 64, 0x6b, 2048, 64, false⟩,
    ⟨0xEFBA23, 2048, 64, 0x6b, 4096, 64, false⟩]

def SpinandFlash := { info : SpinandInfo // info ∈ gSpinandflashList }

/-- Commands on the bus. Page addresses go out in three bytes, column addresses in two. -/
inductive FlashCmd where
  | writeEnable
  | dieSelect (die : BitVec 8)
  | programLoad (addrH addrL : BitVec 8) (data spare : List (BitVec 8))
  | programExecute (addr2 addr1 addr0 : BitVec 8)
  | pageRead (addr2 addr1 addr0 : BitVec 8)
  | blockErase (addr2 addr1 addr0 : BitVec 8)
  | normalRead (addrH addrL : BitVec 8)
  | quadRead (cmdId addrH addrL : BitVec 8) (count : Nat)
  | pollStatus
  | readStatus (sel : Nat)
  deriving DecidableEq, Repr

/-- How the bus and the flash behind it answer, given all commands so far: whether the transfer
succeeds, the byte and the data read, and how often a wait may poll before it times out. -/
structure SpinandBus where
  ok : List FlashCmd → Bool
  byte : List FlashCmd → BitVec 8
  data : List FlashCmd → List (BitVec 8)
  polls : List FlashCmd → Nat

inductive SpinandFault where
  | assertion
  deriving DecidableEq, Repr

abbrev Spinand (α : Type) := Logged SpinandFault FlashCmd α

def rtMtdEecc : Int := 101
def rtMtdEio : Int := 103

section Commands

variable (bus : SpinandBus)

def transfer (c : FlashCmd) : Spinand (Int × BitVec 8) :=
  Logged.issue c fun log => (if bus.ok log then rtEok else -rtEio, bus.byte log)

def isbusyLoop : Nat → Spinand Bool
  | 0 => do
    let _ ← transfer bus .pollStatus
    return true
  | n + 1 => do
    let (result, sr) ← transfer bus .pollStatus
    if result ≠ rtEok then return true
    if sr &&& 0x1 = 0 then return false
    isbusyLoop n

def spinandIsbusy : Spinand Bool := fun log => isbusyLoop bus (bus.polls log) log

def spinandStatusRegisterRead (sel : Nat) : Spinand (BitVec 8) := do
  let (result, sr) ← transfer bus (.readStatus sel)
  if result ≠ rtEok then Logged.fail .assertion else return sr

def spinandDieSelect (die : BitVec 8) : Spinand Int := do
  let (result, _) ← transfer bus (.dieSelect die)
  return result

def spinandProgramDataload (addrH addrL : BitVec 8) (data spare : List (BitVec 8)) : Spinand Int := do
  let (result, _) ← transfer bus .writeEnable
  if result ≠ rtEok then return result
  let (result, _) ← transfer bus (.programLoad addrH addrL data spare)
  return result

def spinandProgramExecute (addr2 addr1 addr0 : BitVec 8) : Spinand Int := do
  let (result, _) ← transfer bus (.programExecute addr2 addr1 addr0)
  if result ≠ rtEok then return result
  if ← spinandIsbusy bus then return -rtMtdEio
  let sr ← spinandStatusRegisterRead bus 3
  return if (sr &&& 0x0C) >>> 2 = 1 then -rtMtdEio else result

def spinandReadDataload (addr2 addr1 addr0 : BitVec 8) : Spinand Int := do
  let (result, _) ← transfer bus (.pageRead addr2 addr1 addr0)
  if result ≠ rtEok then return result
  if ← spinandIsbusy bus then return -rtEio
  let sr ← spinandStatusRegisterRead bus 3
  let ecc := (sr &&& 0x30) >>> 4
  return if ecc ≠ 0 ∧ ecc ≠ 1 then -rtMtdEecc else result

def spinandNormalRead (addrH addrL : BitVec 8) : Spinand (Int × BitVec 8) :=
  transfer bus (.normalRead addrH addrL)

def spinandReadQuadoutput (flash : SpinandFlash) (addrH addrL : BitVec 8) (count : Nat) :
    Spinand (Int × List (BitVec 8)) :=
  Logged.issue (.quadRead flash.val.quadReadCmdId addrH addrL count) fun log =>
    (if bus.ok log then rtEok else -rtEio, (bus.data log).take count)

def addrByte2 (a : U32) : BitVec 8 := ((a >>> 16) &&& 0xff).setWidth 8
def addrByte1 (a : U32) : BitVec 8 := ((a >>> 8) &&& 0xff).setWidth 8
def addrByte0 (a : U32) : BitVec 8 := (a &&& 0xff).setWidth 8

def SpinandFlash.spareColumn (flash : SpinandFlash) : U32 := BitVec.ofNat 32 flash.val.pageSize

/-- Whether the mark on one page says that its block is bad. -/
def spinandPageIsbad (flash : SpinandFlash) (page : U32) : Spinand Bool := do
  let result ← spinandReadDataload bus (addrByte2 page) (addrByte1 page) (addrByte0 page)
  if result ≠ rtEok then Logged.fail .assertion
  else
    let (result, mark) ← spinandNormalRead bus (addrByte1 flash.spareColumn) (addrByte0 flash.spareColumn)
    if result ≠ rtEok then Logged.fail .assertion
    else return mark ≠ 0xff

/-- `spinand_block_isbad`; the jump back is taken once, as the next page is no multiple again. -/
def spinandBlockIsbad (flash : SpinandFlash) (page : U32) : Spinand Bool := do
  if ← spinandPageIsbad bus flash page then return true
  if page % BitVec.ofNat 32 (flash.val.pagePerBlock * flash.val.pageSize) = 0 then
    spinandPageIsbad bus flash (page + 1)
  else return false

def spinandBlockErase (page : U32) : Spinand Int := do
  let (result, _) ← transfer bus .writeEnable
  if result ≠ rtEok then return result
  let (result, _) ← transfer bus (.blockErase (addrByte2 page) (addrByte1 page) (addrByte0 page))
  if result ≠ rtEok then return result
  if ← spinandIsbusy bus then return -rtEio
  let sr ← spinandStatusRegisterRead bus 3
  return if (sr &&& 0x0C) >>> 2 ≠ 0 then -rtError else result

def spinandBlockMarkbad (flash : SpinandFlash) (page : U32) : Spinand Int := do
  let result ← spinandBlockErase bus page
  if result ≠ rtEok then return result
  let result ← spinandProgramDataload bus (addrByte1 flash.spareColumn) (addrByte0 flash.spareColumn) [0xF0] []
  if result ≠ rtEok then return result
  spinandProgramExecute bus (addrByte2 page) (addrByte1 page) (addrByte0 page)

end Commands

/-- A registered `struct rt_mtd_nand_device`: its blocks are in order and on the flash. -/
structure SpinandPartition (flash : SpinandFlash) where
  blockStart : U32
  blockEnd : U32
  blockTotal : BitVec 16
  ordered : blockStart ≤ blockEnd
  onFlash : blockEnd.toNat < flash.val.blockPerFlash

namespace SpinandPartition

variable (bus : SpinandBus) {flash : SpinandFlash} (dev : SpinandPartition flash)

def pagesPerBlock (_ : SpinandPartition flash) : U32 := BitVec.ofNat 32 flash.val.pagePerBlock

/-- `page / device->pages_per_block > device->block_end`; the division is unsigned. -/
def pageBeyond (page : U32) : Bool := dev.blockEnd < page / dev.pagesPerBlock

def readPart (flash : SpinandFlash) (addrH addrL : BitVec 8) (count : Nat) :
    Spinand (Int × List (BitVec 8)) :=
  if count = 0 then pure (rtEok, []) else spinandReadQuadoutput bus flash addrH addrL count

def readPage (page : U32) (dataLen spareLen : Nat) :
    Spinand (Int × List (BitVec 8) × List (BitVec 8)) :=
  if dev.pageBeyond page then pure (-rtMtdEio, [], [])
  else do
    let result ← spinandReadDataload bus (addrByte2 page) (addrByte1 page) (addrByte0 page)
    if result ≠ rtEok then return (result, [], [])
    let (result, data) ← readPart bus flash 0 0 dataLen
    if result ≠ rtEok then return (result, data, [])
    let (result, spare) ← readPart bus flash (addrByte1 flash.spareColumn) (addrByte0 flash.spareColumn) spareLen
    return (result, data, spare)

def selectDie (flash : SpinandFlash) : Spinand Int :=
  if flash.val.isDieSelect then spinandDieSelect bus 0 else pure rtEok

/-- Without data only the spare bytes are loaded. -/
def loadPage (flash : SpinandFlash) (data spare : List (BitVec 8)) : Spinand Int :=
  if data ≠ [] then spinandProgramDataload bus 0 0 data spare
  else spinandProgramDataload bus (addrByte1 flash.spareColumn) (addrByte0 flash.spareColumn) [] spare

def writePage (page : U32) (data spare : List (BitVec 8)) : Spinand Int :=
  if dev.pageBeyond page then pure (-rtMtdEio)
  else do
    let result ← selectDie bus flash
    if result ≠ rtEok then return result
    let result ← loadPage bus flash data spare
    if result ≠ rtEok then return result
    spinandProgramExecute bus (addrByte2 page) (addrByte1 page) (addrByte0 page)

def movePage (srcPage dstPage : U32) : Spinand Int :=
  if dev.pageBeyond srcPage || dev.pageBeyond dstPage then pure (-rtMtdEio)
  else do
    let result ← spinandReadDataload bus (addrByte2 srcPage) (addrByte1 srcPage) (addrByte0 srcPage)
    if result ≠ rtEok then return result
    let (result, _) ← transfer bus .writeEnable
    if result ≠ rtEok then return result
    spinandProgramExecute bus (addrByte2 dstPage) (addrByte1 dstPage) (addrByte0 dstPage)

def blockBeyond (block : U32) : Bool := dev.blockEnd < block

def eraseBlock (block : U32) : Spinand Int :=
  if dev.blockBeyond block then pure (-rtMtdEio)
  else do
    let page := block * dev.pagesPerBlock
    if ← spinandBlockIsbad bus flash page then return -rtError
    spinandBlockErase bus page

def checkBlock (block : U32) : Spinand Int :=
  if dev.blockBeyond block then pure (-rtMtdEio)
  else do
    let isbad ← spinandBlockIsbad bus flash (block * dev.pagesPerBlock)
    return if isbad then -rtError else rtEok

def markBadblock (block : U32) : Spinand Int :=
  if dev.blockBeyond block then pure (-rtMtdEio)
  else do
    let page := block * dev.pagesPerBlock
    if ← spinandBlockIsbad bus flash page then return rtEok
    spinandBlockMarkbad bus flash page

/-- `nerase_all` on an existing partition; the results of the erasures are dropped. -/
def neraseAll : Spinand Int := do
  Logged.each (fun index => do
      let _ ← dev.eraseBlock bus (BitVec.ofNat 32 index)
      return ()) (List.range dev.blockTotal.toNat)
  return 0

end SpinandPartition

end NuMakerMA35
