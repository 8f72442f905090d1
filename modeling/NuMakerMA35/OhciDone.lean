import NuMakerMA35.Ohci

namespace NuMakerMA35

/-- The result of a packet: `td_done` stores its status, and its length unless it failed. -/
def Utr.storeIso (u : Utr) (idx : Nat) (psw : U32) : Utr :=
  let cc := ((psw >>> 12) &&& 0xf).toNat
  if cc = 0xf then { u with isoStatus := Function.update u.isoStatus idx usbhErrSchOverrun }
  else if cc ≠ ccNoError ∧ cc ≠ ccDataUnderrun then
    { u with isoStatus := Function.update u.isoStatus idx (usbhErrCcNoErr - cc) }
  else
    { u with
      isoStatus := Function.update u.isoStatus idx 0
      isoXlen := Function.update u.isoXlen idx ((psw &&& 0x7ff).setWidth 16) }

def Td.doneLen (d : Td) : U32 :=
  if d.cbp = 0 then d.be - d.buffStart + 1 else d.cbp - d.buffStart

/-- What `td_done` stores of a descriptor that is not isochronous. -/
def Utr.storeXfer (u : Utr) (d : Td) : Utr :=
  let cc := ((d.info >>> 28) &&& 0xf).toNat
  let u := if cc ≠ ccNoError ∧ cc ≠ ccDataUnderrun then
      { u with status := if cc = ccStall then usbhErrStall else usbhErrTransfer }
    else u
  if d.info &&& tdTypeMsk = tdTypeCtrl ∧ d.info &&& tdCtrlData = 0 then u
  else { u with xferLen := u.xferLen + d.doneLen }

namespace Ohci

/-- The packet `td_done` takes a descriptor for, if there is one. -/
def isoIndex (s : Ohci) (td : U32) : Option Nat :=
  let d := s.tds td
  let sf : BitVec 16 := d.info.setWidth 16
  let idx := (sf - (s.utrs d.utr).isoSf).toNat / getOhciInterval (s.eds d.ed).bInterval.toNat
  if idx < ifPerUtr then some idx else none

/-- One descriptor of a transfer is done; with the last the transfer is. -/
def countDown (s : Ohci) (utr : U32) (finish : Utr → Utr) : Ohci :=
  let s := s.setUtr utr fun u => { u with tdCnt := u.tdCnt - 1 }
  if (s.utrs utr).tdCnt = 0 then
    { s.setUtr utr fun u => { finish u with bIsTransferDone := true } with called := s.called ++ [utr] }
  else s

def tdDone (s : Ohci) (td : U32) : Ohci :=
  let d := s.tds td
  let s :=
    if d.info &&& tdTypeMsk = tdTypeIso then
      match s.isoIndex td with
      | some idx => s.setUtr d.utr fun u => u.storeIso idx d.psw
      | none => s
    else s.setUtr d.utr fun u => u.storeXfer d
  s.countDown d.utr id

/-- `OHCI_IRQHandler` reclaims the descriptors the controller is done with. -/
def reclaim (b : UnitBase) (s : Ohci) (done : List U32) : Ohci :=
  done.foldl (fun s td => (s.tdDone td).freeTd b td) s

end Ohci

end NuMakerMA35
