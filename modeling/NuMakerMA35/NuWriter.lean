import NuMakerMA35.PdmaChannel
import NuMakerMA35.Words

namespace NuMakerMA35

open Words

/-- The ways a run on a pack file goes wrong: a read that is not inside the buffer, and a child
stored behind the list that was allocated for it. -/
inductive PackFault
  | outside
  | listOverrun

structure PackBuf where
  mem : Mem
  base : Nat
  len : Nat
  inSpace : base + len ≤ 2 ^ 32

namespace PackBuf

variable (b : PackBuf)

def Inside (a n : Nat) : Prop := b.base ≤ a ∧ a + n ≤ b.base + b.len

instance (a n : Nat) : Decidable (b.Inside a n) := inferInstanceAs (Decidable (_ ∧ _))

def get32 (a : Nat) : U32 := read32 b.mem a
def get64 (a : Nat) : Nat := (b.get32 a).toNat + 2 ^ 32 * (b.get32 (a + 4)).toNat

def word32 (a : Nat) : Except PackFault U32 :=
  if b.Inside a 4 then .ok (b.get32 a) else .error .outside

def word64 (a : Nat) : Except PackFault Nat :=
  if b.Inside a 8 then .ok (b.get64 a) else .error .outside

def copyOut (a n : Nat) : Except PackFault Unit :=
  if n = 0 ∨ b.Inside a n then .ok () else .error .outside

end PackBuf

def nvtMarker : U32 := 0x4E565420
def imageBoundarySize : Nat := 16
def packHdrSize : Nat := 16
def packChildSize : Nat := 24

def packAlign (size : Nat) : Nat :=
  (size + (imageBoundarySize - 1)) % 2 ^ 64 &&& (2 ^ 64 - imageBoundarySize)

def crc32Tab : List U32 := [
  0x00000000, 0x77073096, 0xee0e612c, 0x990951ba, 0x076dc419, 0x706af48f, 0xe963a535, 0x9e6495a3,
  0x0edb8832, 0x79dcb8a4, 0xe0d5e91e, 0x97d2d988, 0x09b64c2b, 0x7eb17cbd, 0xe7b82d07, 0x90bf1d91,
  0x1db71064, 0x6ab020f2, 0xf3b97148, 0x84be41de, 0x1adad47d, 0x6ddde4eb, 0xf4d4b551, 0x83d385c7,
  0x136c9856, 0x646ba8c0, 0xfd62f97a, 0x8a65c9ec, 0x14015c4f, 0x63066cd9, 0xfa0f3d63, 0x8d080df5,
  0x3b6e20c8, 0x4c69105e, 0xd56041e4, 0xa2677172, 0x3c03e4d1, 0x4b04d447, 0xd20d85fd, 0xa50ab56b,
  0x35b5a8fa, 0x42b2986c, 0xdbbbc9d6, 0xacbcf940, 0x32d86ce3, 0x45df5c75, 0xdcd60dcf, 0xabd13d59,
  0x26d930ac, 0x51de003a, 0xc8d75180, 0xbfd06116, 0x21b4f4b5, 0x56b3c423, 0xcfba9599, 0xb8bda50f,
  0x2802b89e, 0x5f058808, 0xc60cd9b2, 0xb10be924, 0x2f6f7c87, 0x58684c11, 0xc1611dab, 0xb6662d3d,
  0x76dc4190, 0x01db7106, 0x98d220bc, 0xefd5102a, 0x71b18589, 0x06b6b51f, 0x9fbfe4a5, 0xe8b8d433,
  0x7807c9a2, 0x0f00f934, 0x9609a88e, 0xe10e9818, 0x7f6a0dbb, 0x086d3d2d, 0x91646c97, 0xe6635c01,
  0x6b6b51f4, 0x1c6c6162, 0x856530d8, 0xf262004e, 0x6c0695ed, 0x1b01a57b, 0x8208f4c1, 0xf50fc457,
  0x65b0d9c6, 0x12b7e950, 0x8bbeb8ea, 0xfcb9887c, 0x62dd1ddf, 0x15da2d49, 0x8cd37cf3, 0xfbd44c65,
  0x4db26158, 0x3ab551ce, 0xa3bc0074, 0xd4bb30e2, 0x4adfa541, 0x3dd895d7, 0xa4d1c46d, 0xd3d6f4fb,
  0x4369e96a, 0x346ed9fc, 0xad678846, 0xda60b8d0, 0x44042d73, 0x33031de5, 0xaa0a4c5f, 0xdd0d7cc9,
  0x5005713c, 0x270241aa, 0xbe0b1010, 0xc90c2086, 0x5768b525, 0x206f85b3, 0xb966d409, 0xce61e49f,
  0x5edef90e, 0x29d9c998, 0xb0d09822, 0xc7d7a8b4, 0x59b33d17, 0x2eb40d81, 0xb7bd5c3b, 0xc0ba6cad,
  0xedb88320, 0x9abfb3b6, 0x03b6e20c, 0x74b1d29a, 0xead54739, 0x9dd277af, 0x04db2615, 0x73dc1683,
  0xe3630b12, 0x94643b84, 0x0d6d6a3e, 0x7a6a5aa8, 0xe40ecf0b, 0x9309ff9d, 0x0a00ae27, 0x7d079eb1,
  0xf00f9344, 0x8708a3d2, 0x1e01f268, 0x6906c2fe, 0xf762575d, 0x806567cb, 0x196c3671, 0x6e6b06e7,
  0xfed41b76, 0x89d32be0, 0x10da7a5a, 0x67dd4acc, 0xf9b9df6f, 0x8ebeeff9, 0x17b7be43, 0x60b08ed5,
  0xd6d6a3e8, 0xa1d1937e, 0x38d8c2c4, 0x4fdff252, 0xd1bb67f1, 0xa6bc5767, 0x3fb506dd, 0x48b2364b,
  0xd80d2bda, 0xaf0a1b4c, 0x36034af6, 0x41047a60, 0xdf60efc3, 0xa867df55, 0x316e8eef, 0x4669be79,
  0xcb61b38c, 0xbc66831a, 0x256fd2a0, 0x5268e236, 0xcc0c7795, 0xbb0b4703, 0x220216b9, 0x5505262f,
  0xc5ba3bbe, 0xb2bd0b28, 0x2bb45a92, 0x5cb36a04, 0xc2d7ffa7, 0xb5d0cf31, 0x2cd99e8b, 0x5bdeae1d,
  0x9b64c2b0, 0xec63f226, 0x756aa39c, 0x026d930a, 0x9c0906a9, 0xeb0e363f, 0x72076785, 0x05005713,
  0x95bf4a82, 0xe2b87a14, 0x7bb12bae, 0x0cb61b38, 0x92d28e9b, 0xe5d5be0d, 0x7cdcefb7, 0x0bdbdf21,
  0x86d3d2d4, 0xf1d4e242, 0x68ddb3f8, 0x1fda836e, 0x81be16cd, 0xf6b9265b, 0x6fb077e1, 0x18b74777,
  0x88085ae6, 0xff0f6a70, 0x66063bca, 0x11010b5c, 0x8f659eff, 0xf862ae69, 0x616bffd3, 0x166ccf45,
  0xa00ae278, 0xd70dd2ee, 0x4e048354, 0x3903b3c2, 0xa7672661, 0xd06016f7, 0x4969474d, 0x3e6e77db,
  0xaed16a4a, 0xd9d65adc, 0x40df0b66, 0x37d83bf0, 0xa9bcae53, 0xdebb9ec5, 0x47b2cf7f, 0x30b5ffe9,
  0xbdbdf21c, 0xcabac28a, 0x53b39330, 0x24b4a3a6, 0xbad03605, 0xcdd70693, 0x54de5729, 0x23d967bf,
  0xb3667a2e, 0xc4614ab8, 0x5d681b02, 0x2a6f2b94, 0xb40bbe37, 0xc30c8ea1, 0x5a05df1b, 0x2d02ef8d]

def crcSeed : U32 := 0xFFFFFFFF

def crc32Byte (crc : U32) (data8 : BitVec 8) : U32 :=
  crc32Tab.getD ((crc ^^^ data8.setWidth 32) &&& 0xFF).toNat 0 ^^^ (crc >>> 8)

def crc32Word (crc data32 : U32) : U32 :=
  (List.range 4).foldl (fun crc i => crc32Byte crc (data32.extractLsb' (i * 8) 8)) crc

namespace PackBuf

variable (b : PackBuf)

def crc32Loop : Nat → Nat → U32 → Except PackFault U32
  | 0, _, crc => .ok crc
  | n + 1, ptr, crc => do
    let data32 ← b.word32 ptr
    crc32Loop n (ptr + 4) (crc32Word crc data32)

/-- `len` counts bytes; a word that is only partly counted is read whole. -/
def crc32 (ptr len : Nat) : Except PackFault U32 := do
  let crc ← b.crc32Loop ((len + 3) / 4) ptr crcSeed
  pure (crc ^^^ 0xFFFFFFFF)

def imageInfoSize : Nat := 80

def checkImageInfos (bootInfo : Nat) : Nat → Nat → Except PackFault Int
  | 0, _ => .ok 0
  | n + 1, i => do
    let type ← b.word32 (bootInfo + 40 + i * imageInfoSize + 12)
    if 4 < type.toNat then pure (-1) else checkImageInfos bootInfo n (i + 1)

def nuwriterCheckBootInfo (bootInfo length : Nat) : Except PackFault Int := do
  let marker ← b.word32 bootInfo
  if marker ≠ nvtMarker then pure (-1)
  else
    let sum ← b.crc32 (bootInfo + 8) length
    let checkSum ← b.word32 (bootInfo + 4)
    if sum ≠ checkSum then pure (-1)
    else
      let count ← b.word32 (bootInfo + 36)
      if 4 < count.toNat then pure (-1) else b.checkImageInfos bootInfo count.toNat 0

/-- The address after a child; sums are of 64 bits, the address keeps 32 of them. -/
def nextChild (child imageLength : Nat) : Nat :=
  packAlign ((child + packChildSize + imageLength) % 2 ^ 64) % 2 ^ 32

/-- What both walks check first: marker, reserve and checksum. -/
def packHeaderOk : Except PackFault Bool := do
  let marker ← b.word32 b.base
  if marker ≠ nvtMarker then pure false
  else
    let reserve ← b.word32 (b.base + 12)
    if reserve ≠ 0xFFFFFFFF then pure false
    else
      let sum ← b.crc32 (b.base + 8) ((b.len + 2 ^ 64 - 8) % 2 ^ 32)
      let checkSum ← b.word32 (b.base + 4)
      pure (sum = checkSum)

/-- Only the first child is checked, and what the check finds is not looked at. -/
def verifyChild (i child : Nat) : Except PackFault Unit :=
  if i = 0 then do
    let imageLength ← b.word64 child
    let _ ← b.nuwriterCheckBootInfo (child + packChildSize) ((imageLength + 2 ^ 64 - 8) % 2 ^ 32)
    pure ()
  else pure ()

def verifyChildren : Nat → Nat → Nat → Except PackFault Int
  | 0, _, _ => .ok 0
  | n + 1, i, child => do
    b.verifyChild i child
    if n = 0 then pure 0
    else
      let imageLength ← b.word64 child
      verifyChildren n (i + 1) (nextChild child imageLength)

def nuwriterPackVerify : Except PackFault Int := do
  if b.len = 0 then pure (-1)
  else
    let good ← b.packHeaderOk
    if !good then pure (-1)
    else
      let count ← b.word32 (b.base + 8)
      b.verifyChildren count.toNat 0 (b.base + packHdrSize)

def childWalk (size : Nat) : Nat → Nat → Nat → Except PackFault (List Nat)
  | 0, _, _ => .ok []
  | n + 1, i, child =>
    if size < 4 * i + 4 then .error .listOverrun
    else do
      let imageLength ← b.word64 child
      let rest ← childWalk size n (i + 1) (nextChild child imageLength)
      pure (child :: rest)

end PackBuf

/-- `RT_ALIGN` of a 64-bit size to a 32-bit boundary: the mask has no bits above 31. -/
def rtAlign (size align : Nat) : Nat := (size + align - 1) % 2 ^ 64 &&& (2 ^ 32 - align)

/-- What a device answers. A block device is asked with the child's place and the block, an MTD
device also with the number of blocks it has looked at. -/
inductive PackStorage
  | block (bytesPerSector : Option Nat) (writes : Nat → Nat → Bool)
  | mtd (pageShift blockShift : Nat) (inSpace : pageShift + blockShift < 32)
      (good erases : Nat → Nat → Bool) (writes : Nat → Nat → Nat → Bool) (looks : Nat)
  | other

structure PackDevice where
  listAllocated : Bool
  opens : Bool
  storage : PackStorage

namespace PackBuf

variable (b : PackBuf)

def copyBlocks (child bytesPerSector : Nat) (writes : Nat → Bool) :
    Nat → Nat → Nat → Except PackFault Bool
  | 0, _, _ => .ok true
  | n + 1, blkOff, remain => do
    let transferBytes := if bytesPerSector ≤ remain then bytesPerSector else remain
    b.copyOut (child + packChildSize + blkOff * bytesPerSector % 2 ^ 32) transferBytes
    let _ ← b.word64 (child + 8)
    if writes blkOff then copyBlocks child bytesPerSector writes n (blkOff + 1) (remain - transferBytes)
    else pure false

def programBlockChild (child bytesPerSector : Nat) (writes : Nat → Bool) :
    Except PackFault Bool := do
  let imageLength ← b.word64 child
  b.copyBlocks child bytesPerSector writes
    (rtAlign imageLength bytesPerSector / bytesPerSector % 2 ^ 32) 0 (imageLength % 2 ^ 32)

/-- One page after another of an erased block; `none` when a write fails. -/
def copyPages (image pageSize : Nat) (writes : Nat → Bool) :
    Nat → Nat → Nat → Except PackFault (Option Nat)
  | 0, _, remain => .ok (some remain)
  | n + 1, page, remain => do
    let transferBytes := if pageSize ≤ remain then pageSize else remain
    b.copyOut (image + page * pageSize % 2 ^ 32) transferBytes
    if writes page then copyPages image pageSize writes n (page + 1) (remain - transferBytes)
    else pure none

/-- The loop of `nuwriter_pack_program_mtd` over the blocks of a child; bad blocks are passed by.
The run is followed for `looks` blocks. -/
def mtdBlocks (image pageSize pagesPerBlock totalBlock : Nat) (good erases : Nat → Bool)
    (writes : Nat → Nat → Bool) : Nat → Nat → Nat → Nat → Except PackFault Bool
  | 0, _, _, _ => .ok false
  | looks + 1, blockOff, blockIdx, remain =>
    if totalBlock ≤ blockIdx then .ok true
    else if !good blockOff then
      mtdBlocks image pageSize pagesPerBlock totalBlock good erases writes looks (blockOff + 1)
        blockIdx remain
    else if !erases blockOff then .ok false
    else do
      let totalPage := if pagesPerBlock * pageSize ≤ remain then pagesPerBlock
        else rtAlign remain pageSize / pageSize
      let left ← b.copyPages image pageSize (writes blockOff) totalPage (blockIdx * pagesPerBlock)
        remain
      match left with
      | none => .ok false
      | some remain =>
        mtdBlocks image pageSize pagesPerBlock totalBlock good erases writes looks (blockOff + 1)
          (blockIdx + 1) remain

def programMtdChild (child pageSize pagesPerBlock : Nat) (good erases : Nat → Bool)
    (writes : Nat → Nat → Bool) (looks : Nat) : Except PackFault Bool := do
  let imageLength ← b.word64 child
  let flashAddress ← b.word64 (child + 8)
  let eraseSize := pagesPerBlock * pageSize
  if flashAddress ≠ rtAlign flashAddress eraseSize then pure false
  else
    b.mtdBlocks (child + packChildSize) pageSize pagesPerBlock
      (rtAlign (imageLength % 2 ^ 32) eraseSize / eraseSize) good erases writes looks
      (flashAddress / eraseSize % 2 ^ 32) 0 (imageLength % 2 ^ 32)

def programChildren (program : Nat → Nat → Except PackFault Bool) :
    Nat → List Nat → Except PackFault Bool
  | _, [] => .ok true
  | k, child :: children => do
    let done ← program k child
    if done then programChildren program (k + 1) children else pure false

/-- The last child is programmed first. An MTD device is never reported done. -/
def programStorage (children : List Nat) : PackStorage → Except PackFault Int
  | .block none _ => .ok (-1)
  | .block (some 0) _ => .ok (-1)
  | .block (some bytesPerSector) writes => do
    let done ← programChildren (fun k child => b.programBlockChild child bytesPerSector (writes k))
      0 children.reverse
    pure (if done then 0 else -1)
  | .mtd pageShift blockShift _ good erases writes looks => do
    let _ ← programChildren (fun k child => b.programMtdChild child (2 ^ pageShift) (2 ^ blockShift)
      (good k) (erases k) (writes k) looks) 0 children.reverse
    pure (-1)
  | .other => .ok (-1)

def nuwriterPackProgram (dev : PackDevice) : Except PackFault Int := do
  if b.len = 0 then pure (-1)
  else
    let good ← b.packHeaderOk
    if !good then pure (-1)
    else
      let count ← b.word32 (b.base + 8)
      if !dev.listAllocated then pure (-1)
      else
        let children ← b.childWalk (count.toNat * 4 % 2 ^ 32) count.toNat 0 (b.base + packHdrSize)
        if !dev.opens then pure (-1) else b.programStorage children dev.storage

/-- `nuwriter_exec` on the file in the buffer, with the device that was found, if programming was
asked for. -/
def nuwriterExec (dev : Option PackDevice) : Except PackFault Int := do
  let verified ← b.nuwriterPackVerify
  if verified < 0 then pure (-1)
  else match dev with
    | none => pure 0
    | some dev => do
      let programmed ← b.nuwriterPackProgram dev
      pure (if programmed < 0 then -1 else 0)

end PackBuf

end NuMakerMA35
