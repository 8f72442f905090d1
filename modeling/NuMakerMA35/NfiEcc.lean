import NuMakerMA35.Checked
import NuMakerMA35.UartRx
import NuMakerMA35.Words
import Mathlib.Data.List.Perm.Basic

namespace NuMakerMA35

open Words

inductive BchStrength where
  | t8
  | t12
  | t24
deriving DecidableEq

namespace BchStrength

def algoIdx : BchStrength → U32
  | t8 => 0x00100000
  | t12 => 0x00200000
  | t24 => 0x00040000

def fieldLen : BchStrength → Nat
  | t8 => 512
  | t12 => 512
  | t24 => 1024

def paddingLen : BchStrength → Nat
  | t8 => 32
  | t12 => 32
  | t24 => 64

def parityLen : BchStrength → Nat
  | t8 => 15
  | t12 => 23
  | t24 => 45

def corrects : BchStrength → Nat
  | t8 => 8
  | t12 => 12
  | t24 => 24

end BchStrength

inductive NfiPageSize where
  | k2
  | k4
  | k8
deriving DecidableEq

def NfiPageSize.mask : NfiPageSize → U32
  | k2 => 0x10000
  | k4 => 0x20000
  | k8 => 0x30000

def NfiPageSize.bytes : NfiPageSize → Nat
  | k2 => 2048
  | k4 => 4096
  | k8 => 8192

def bchtselMask : U32 := 0x007C0000
def psizeMask : U32 := 0x00030000
def nfiMaxEccRecords : Nat := 256

structure NfiControl where
  strength : BchStrength
  pageSize : NfiPageSize
  nandctl : U32
  nandractl : U32
  bchtsel : nandctl &&& bchtselMask = strength.algoIdx
  psize : nandctl &&& psizeMask = pageSize.mask

def NfiControl.writesize (c : NfiControl) : Nat := c.pageSize.bytes

/-- The registers of one look at the controller during a read: the flag of the ECC check, the
status of the fields, and the addresses and data of the errors. -/
structure EccReport where
  eccfldif : Bool
  ecces : Nat → U32
  eccea : Nat → U32
  ecced : Nat → U32

/-- A byte the correction can change: one of the page, of the redundancy area, or any other. -/
inductive NfiByte where
  | page (offset : Nat)
  | redundancy (index : Nat)
  | memory (address : U32)
deriving DecidableEq

/-- A page being read; `changed` lists what the driver has changed, and with which error data. -/
structure NfiRead where
  page : Nat → Byte
  ra : Nat → Byte
  mem : Mem
  records : List (Nat × Byte)
  changed : List (NfiByte × Byte)

namespace NfiRead

def byte (s : NfiRead) : NfiByte → Byte
  | .page offset => s.page offset
  | .redundancy index => s.ra index
  | .memory address => s.mem address.toNat

def xor (s : NfiRead) (b : NfiByte) (mask : Byte) : NfiRead :=
  let s := { s with changed := s.changed ++ [(b, mask)] }
  match b with
  | .page offset => { s with page := Function.update s.page offset (s.page offset ^^^ mask) }
  | .redundancy index => { s with ra := Function.update s.ra index (s.ra index ^^^ mask) }
  | .memory address =>
    { s with mem := Function.update s.mem address.toNat (s.mem address.toNat ^^^ mask) }

end NfiRead

def unpack (regs : Nat → U32) (per width : Nat) (mask : U32) (n : Nat) : List U32 :=
  (List.range n).flatMap fun ii => (List.range per).map fun k => regs ii >>> (width * k) &&& mask

section Correct

variable (c : NfiControl)

def correctError (bch : BchStrength) (totalFieldNum fieldIndex : Nat) (uaAddr uaData : U32)
    (s : NfiRead) : NfiRead :=
  let mask := uaData.setWidth 8
  if uaAddr.toNat < bch.fieldLen then
    if s.records.length < nfiMaxEccRecords then
      { s with records := s.records ++
        [(((fieldIndex - 1) * bch.fieldLen + uaAddr.toNat) % 2 ^ 16, mask)] }
    else s
  else if uaAddr.toNat < bch.fieldLen + 3 then
    s.xor (.redundancy (uaAddr.toNat - bch.fieldLen + bch.parityLen * (fieldIndex - 1))) mask
  else
    let uaAddr := uaAddr - BitVec.ofNat 32 (bch.fieldLen + bch.paddingLen - bch.parityLen)
    -- the value of a redundancy byte stands where its address should
    let smraIndex := (s.ra (c.nandractl &&& 0x1ff).toNat).setWidth 32 -
      BitVec.ofNat 32 (bch.parityLen * totalFieldNum)
    s.xor (.memory (smraIndex + BitVec.ofNat 32 (bch.parityLen * (fieldIndex - 1)) + uaAddr)) mask

def selectedStrength (nandctl : U32) : Option BchStrength :=
  if nandctl &&& bchtselMask = BchStrength.t24.algoIdx then some .t24
  else if nandctl &&& bchtselMask = BchStrength.t12.algoIdx then some .t12
  else if nandctl &&& bchtselMask = BchStrength.t8.algoIdx then some .t8
  else none

def selectedPageSize (nandctl : U32) : Option NfiPageSize :=
  if nandctl &&& psizeMask = NfiPageSize.k8.mask then some .k8
  else if nandctl &&& psizeMask = NfiPageSize.k4.mask then some .k4
  else if nandctl &&& psizeMask = NfiPageSize.k2.mask then some .k2
  else none

/-- No state where a slot of the local arrays is read that was not filled. -/
def fmiSMCorrectDataBCH (r : EccReport) (fieldIndex errorCnt : Nat) (s : NfiRead) : Option NfiRead :=
  match selectedStrength c.nandctl, selectedPageSize c.nandctl with
  | some bch, some pageSize =>
    let uaData := unpack r.ecced 4 8 0xff (min (errorCnt / 4 + 1) 6)
    let uaAddr := unpack r.eccea 2 16 0x7ff (min (errorCnt / 2 + 1) 12)
    (List.range errorCnt).foldlM (fun s ii => do
      let addr ← uaAddr[ii]?
      let data ← uaData[ii]?
      pure (correctError c bch (pageSize.bytes / bch.fieldLen) fieldIndex addr data s)) s
  | _, _ => some s

/-- The inner loop of `fmiSMCorrectData` over `n` more fields of a status register; no count where
an error cannot be corrected. -/
def correctFields (r : EccReport) : Nat → Nat → U32 → Nat → NfiRead → Option (Option Nat × NfiRead)
  | 0, _, _, errorCnt, s => some (some errorCnt, s)
  | n + 1, fieldIndex, status, errorCnt, s =>
    if status &&& 0x03 = 0 then
      correctFields r n (fieldIndex + 1) (status.sshiftRight 8) errorCnt s
    else if status &&& 0x03 = 0x01 then
      let errorCnt := (status.sshiftRight 2 &&& 0x1F).toNat
      match fmiSMCorrectDataBCH c r fieldIndex errorCnt s with
      | none => none
      | some s => correctFields r n (fieldIndex + 1) (status.sshiftRight 8) errorCnt s
    else some (none, s)

def correctRegisters (r : EccReport) : Nat → Nat → Nat → NfiRead → Option (Option Nat × NfiRead)
  | 0, _, errorCnt, s => some (some errorCnt, s)
  | n + 1, jj, errorCnt, s =>
    let status := r.ecces jj
    if status = 0 then correctRegisters r n (jj + 1) errorCnt s
    else
      match correctFields c r 4 (jj * 4 + 1) status errorCnt s with
      | none => none
      | some (none, s) => some (none, s)
      | some (some errorCnt, s) => correctRegisters r n (jj + 1) errorCnt s

def NfiControl.statusRegisters : Nat :=
  let fieldNum :=
    if c.nandctl &&& bchtselMask = BchStrength.t24.algoIdx then c.writesize / 1024
    else c.writesize / 512
  if fieldNum < 4 then 1 else fieldNum / 4

def fmiSMCorrectData (r : EccReport) (s : NfiRead) : Option (Int × NfiRead) :=
  if r.eccfldif then
    match correctRegisters c r c.statusRegisters 0 0 s with
    | none => none
    | some (none, s) => some (-1, s)
    | some (some errorCnt, s) => some (errorCnt, s)
  else some (0, s)

/-- The loop of `_nfi_nand_dma_transfer` that waits for the data, one report for each look. -/
def correctReports : List EccReport → NfiRead → Option (Bool × NfiRead)
  | [], s => some (false, s)
  | r :: rs, s =>
    match fmiSMCorrectData c r s with
    | none => none
    | some (stat, s) => if stat < 0 then some (true, s) else correctReports rs s

/-- The read part of `_nfi_nand_dma_transfer`, where `s.page` is what the DMA stores. -/
def nfiNandDmaTransfer (rs : List EccReport) (s : NfiRead) : Option (Int × NfiRead) :=
  match correctReports c rs { s with records := [], changed := [] } with
  | none => none
  | some (true, s) => some (-1, s)
  | some (false, s) => some (0, s.records.foldl (fun s record => s.xor (.page record.1) record.2) s)

end Correct

end NuMakerMA35
