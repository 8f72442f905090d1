import NuMakerMA35.Countdown
import NuMakerMA35.OhciCtrlXfer
import NuMakerMA35.OhciRemove
import NuMakerMA35.Runs

namespace NuMakerMA35

instance (b : UnitBase) (used : Nat → Bool) (a : U32) : Decidable (b.InUse used a) :=
  inferInstanceAs (Decidable (∃ i, i < memPoolUnitNum ∧ used i = true ∧ a = b.addr i))

def UnitBase.holds (b : UnitBase) (used : Nat → Bool) (a : U32) : Bool := decide (b.InUse used a)

/-- The endpoint descriptors the controller finds from `HcControlHeadED` on. -/
inductive Ohci.Listed (s : Ohci) : U32 → Prop
  | head : s.hcControlHeadED ≠ 0 → Listed s s.hcControlHeadED
  | next {ed : U32} : Listed s ed → (s.eds ed).nextED ≠ 0 → Listed s (s.eds ed).nextED

/-- A control transfer that was accepted, with its descriptors that were not given back yet; its
endpoint descriptor, and whether that was removed since. -/
structure CtrlXfer extends Countdown.Job U32 U32 where
  ed : U32
  removed : Bool

def CtrlXfer.settle (used : U32 → Bool) (x : CtrlXfer) : CtrlXfer :=
  { x with toJob := x.toJob.settle used }

def CtrlXfer.gone (ed : U32) (x : CtrlXfer) : CtrlXfer :=
  { x with removed := x.removed || decide (x.ed = ed) }

/-- The driver with the control transfers it has accepted, the endpoint descriptors in use for them,
and the descriptors the controller is done with, the first one first. -/
structure CtrlRun extends Ohci where
  done : List U32
  accepted : List CtrlXfer
  live : List U32

inductive CtrlEvent where
  | submit (utr : U32)
  | retire (ed info cbp headBits : U32)
  | reclaim
  | quit (utr ep : U32)
  | remove (turns : Nat)
  | other (o : Ohci)

namespace CtrlRun

section Steps

variable (b : UnitBase) (s : CtrlRun)

def accept (o : Ohci) (utr : U32) : CtrlRun where
  toOhci := o
  done := s.done
  accepted := s.accepted ++
    [⟨⟨utr, (o.eds o.hcControlHeadED).tds, s.called.length⟩, o.hcControlHeadED, false⟩]
  live := if o.hcControlHeadED ∈ s.live then s.live else o.hcControlHeadED :: s.live

/-- The controller is done with the first descriptor of an endpoint: it writes what became of it, and
the bits that it keeps beside `HeadP`. -/
def retire (ed info cbp headBits : U32) : CtrlRun :=
  match (s.eds ed).tds with
  | [] => s
  | td :: rest => { s with
      toOhci := (s.setEd ed fun e => { e with tds := rest, headBits := headBits }).setTd td
        fun d => { d with info := info, cbp := cbp }
      done := s.done ++ [td] }

/-- A turn of the loop of `OHCI_IRQHandler` that reclaims what the controller is done with. -/
def reclaim : CtrlRun :=
  match s.done with
  | [] => s
  | td :: rest =>
    let o := s.toOhci.reclaim b [td]
    { toOhci := o
      done := rest
      accepted := s.accepted.map (CtrlXfer.settle (b.holds o.pool.used))
      live := s.live }

/-- What the removal of an endpoint descriptor that left the driver in `o` is for the transfers. -/
def removal (ed : U32) (o : Ohci) : CtrlRun where
  toOhci := o
  done := s.done
  accepted := s.accepted.map fun x => (x.gone ed).settle (b.holds o.pool.used)
  live := s.live.filter fun e => e ≠ ed

/-- A turn of the loop of `remove_ed`. -/
def remove (turns : Nat) : CtrlRun :=
  match s.edRemoveList with
  | [] => s
  | ed :: _ =>
    match s.toOhci.removeTurn b turns ed with
    | none => s
    | some o => s.removal b ed o

def step : CtrlEvent → CtrlRun
  | .submit utr =>
    match s.toOhci.ctrlXfer b utr with
    | none => s
    | some (o, ret) => if ret = 0 then s.accept o utr else { s with toOhci := o }
  | .retire ed info cbp headBits => s.retire ed info cbp headBits
  | .reclaim => s.reclaim b
  | .quit utr ep => { s with toOhci := (s.toOhci.ohciQuitXfer utr ep).1 }
  | .remove turns => s.remove b turns
  | .other o => { s with toOhci := o }

def pipe (d : U32) : U32 := (s.eps (s.udevs d).ep0).hwPipe

def IsControl (ep : U32) : Prop := ∃ d, (s.udevs d).ep0 = ep

/-- What all else leaves alone: what control transfers own, the removals that are due, and the pipes
of control endpoints, which are only ever cleared. -/
structure Spares (o : Ohci) : Prop where
  head : o.hcControlHeadED = s.hcControlHeadED
  removing : o.edRemoveList = s.edRemoveList
  eds : ∀ ed ∈ s.live, o.eds ed = s.eds ed ∧ (b.InUse s.pool.used ed → b.InUse o.pool.used ed)
  tds : ∀ x ∈ s.accepted, ∀ td ∈ x.left, (o.tds td).utr = (s.tds td).utr ∧
    (b.InUse s.pool.used td → b.InUse o.pool.used td)
  counts : ∀ x ∈ s.accepted, x.left ≠ [] → (o.utrs x.id).tdCnt = (s.utrs x.id).tdCnt
  called : s.called <+: o.called
  pipes : ∀ d, (o.eps (o.udevs d).ep0).hwPipe ≠ 0 →
    (o.udevs d).ep0 = (s.udevs d).ep0 ∧ (o.eps (o.udevs d).ep0).hwPipe = s.pipe d

/-- What can happen. A device has an address of 7 bits, and a transfer that is not done is not
submitted again; the controller works on what it finds, and control endpoints are quit. -/
def Allowed : CtrlEvent → Prop
  | .submit utr => (s.udevs (s.utrs utr).udev).devNum.toNat < 128 ∧
      (∀ x ∈ s.accepted, x.left ≠ [] → x.id ≠ utr) ∧ (s.toOhci.ctrlXfer b utr).isSome
  | .retire ed _ _ _ => s.toOhci.Listed ed
  | .reclaim => True
  | .quit utr ep => (utr ≠ 0 → (s.utrs utr).ep ≠ 0 → s.IsControl (s.utrs utr).ep) ∧
      (ep ≠ 0 → s.IsControl ep)
  | .remove turns => ∀ ed ∈ s.edRemoveList.head?, (s.toOhci.removeTurn b turns ed).isSome
  | .other o => s.Spares b o

/-- Behind `ohci_init`: no control transfer was accepted, and there is no endpoint descriptor for
one. -/
structure Starts : Prop where
  head : s.hcControlHeadED = 0
  removing : s.edRemoveList = []
  pipes : ∀ d, s.pipe d = 0
  done : s.done = []
  accepted : s.accepted = []
  live : s.live = []

/-- What the controller is not done with it finds, as long as the endpoint descriptor is not removed;
from then on all was given back but what it was done with already. With the last descriptor the
transfer was reported. -/
structure Served (x : CtrlXfer) : Prop where
  listed : x.removed = false → ∀ td ∈ x.left, td ∉ s.done →
    s.toOhci.Listed x.ed ∧ td ∈ (s.eds x.ed).tds
  reclaimed : x.removed = true → ∀ td ∈ x.left, td ∈ s.done
  reported : x.left = [] → x.id ∈ s.called.drop x.before

def Safe : Prop :=
  (∀ x ∈ s.accepted, s.Served x) ∧
    ∀ ed ∈ s.edRemoveList.head?, ∃ turns, (s.toOhci.removeTurn b turns ed).isSome

def Idle : Prop := ∀ x ∈ s.accepted, ∀ td ∈ x.left, td ∈ s.done

/-- A transfer gets its descriptors only where the controller is done with all before. -/
def Meets : CtrlEvent → Prop
  | .submit utr => s.toOhci.CtrlGranted b utr → s.Idle
  | _ => True

end Steps

end CtrlRun

end NuMakerMA35
