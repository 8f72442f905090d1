import NuMakerMA35.OhciDone

namespace NuMakerMA35

namespace Ohci

/-- A walk of `remove_ed` from `ed` on, for descriptors linked to the one that goes. The walks over
the control and the bulk list go on behind a hit. It gives nothing where the list does not end within
the turns. -/
def unlink (gone : U32) (goesOn : Bool) : Nat → U32 → Ohci → Option (Ohci × Bool)
  | 0, _, _ => none
  | turns + 1, ed, s =>
    if ed = 0 then some (s, false)
    else if (s.eds ed).nextED = gone then
      let s := s.setEd ed fun e => { e with nextED := (s.eds gone).nextED }
      if goesOn then (unlink gone goesOn turns (s.eds ed).nextED s).map fun r => (r.1, true)
      else some (s, true)
    else unlink gone goesOn turns (s.eds ed).nextED s

/-- The list an endpoint descriptor is taken out of is told by its `Info` and interval; with it goes
whether it was found. -/
def unlinkEd (turns : Nat) (s : Ohci) (ed : U32) : Option (Ohci × Bool) :=
  let e := s.eds ed
  if e.info &&& edEpAddrMsk = 0 then
    if s.hcControlHeadED = ed then some ({ s with hcControlHeadED := e.nextED }, true)
    else unlink ed true turns s.hcControlHeadED s
  else if e.bInterval.toNat > 0 then unlink ed false turns (s.intTreeHead e.bInterval.toNat) s
  else if s.hcBulkHeadED = ed then some ({ s with hcBulkHeadED := e.nextED }, true)
  else unlink ed true turns s.hcBulkHeadED s

def dropTd (b : UnitBase) (s : Ohci) (td : U32) : Ohci :=
  (s.freeTd b td).countDown (s.tds td).utr fun u => { u with status := usbhErrAbort }

/-- A turn of the loop of `remove_ed`, on the first descriptor of the list. -/
def removeTurn (b : UnitBase) (turns : Nat) (s : Ohci) (ed : U32) : Option Ohci := do
  let (s, found) ← s.unlinkEd turns ed
  let s := if found then (s.eds ed).tds.foldl (dropTd b) s else s
  some ({ s with edRemoveList := s.edRemoveList.tail }.freeEd b ed)

def addToEdRemoveList (s : Ohci) (ed : U32) : Ohci :=
  if ed ∈ s.edRemoveList then s
  else { s.setEd ed fun e => { e with info := e.info ||| edSkip } with
    edRemoveList := ed :: s.edRemoveList }

def quitPipe (s : Ohci) (ep : U32) : Ohci :=
  if (s.eps ep).hwPipe = 0 then s
  else (s.addToEdRemoveList (s.eps ep).hwPipe).setEp ep fun e => { e with hwPipe := 0 }

/-- `ohci_quit_xfer`, with zero for a `utr` or an `ep` that is `NULL`. -/
def ohciQuitXfer (s : Ohci) (utr ep : U32) : Ohci × Int :=
  if utr ≠ 0 ∧ ((s.utrs utr).ep = 0 ∨ (s.eps (s.utrs utr).ep).hwPipe = 0) then (s, usbhErrNotFound)
  else
    let s := if utr ≠ 0 then s.quitPipe (s.utrs utr).ep else s
    let s := if ep ≠ 0 then s.quitPipe ep else s
    (s, 0)

end Ohci

end NuMakerMA35
