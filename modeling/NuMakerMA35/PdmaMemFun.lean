import NuMakerMA35.PdmaTransfer
import NuMakerMA35.Threads

namespace NuMakerMA35

def nuPdmaMemfunActorMax : Nat := 4
def nuPdmaEventAbort : U32 := 1
def nuPdmaEventTransferDone : U32 := 2

/-- The loop of `nu_pdma_memfun_actor_init`: channels of the actors that could be had. -/
def memfunActors : Nat → PdmaState → Except PdmaFault (PdmaState × List Nat)
  | 0, s => .ok (s, [])
  | left + 1, s => do
    let (s, ch) ← nuPdmaChannelAllocate s pdmaMem
    if ch = -rtError then return (s, [])
    let (s, rest) ← memfunActors left s
    return (s, ch.toNat :: rest)

/-- Where a thread is in `nu_pdma_memfun` and in the functions it calls; the argument is the index
of its actor, and the value to be returned once it is known. -/
inductive MemFunPc where
  | outside
  | employ
  | hired
  | searching
  | found (idx : Nat)
  | missed
  | marked (idx : Nat)
  | employed (idx : Nat)
  | prepared (idx : Nat)
  | waiting (idx : Nat)
  | woken (idx : Nat)
  | leaving (idx : Nat) (ret : U32)
  | unmarking (idx : Nat) (ret : U32)
  | unmarked (ret : U32)
  | firing (ret : U32)
  deriving DecidableEq, Repr

/-- The variables `nu_pdma_memfun` shares between threads and the interrupt handler. A channel's
handler is the actor registered as its user data; `moving` names the thread whose transfer the
channel is carrying out. -/
structure MemFunState (T : Type) where
  actorMaxnum : Nat
  actorChannel : Nat → Nat
  actorResult : Nat → U32
  actorSem : Nat → Nat
  actorMask : U32
  poolSem : Option Nat
  poolLock : Option T
  handler : Nat → Option Nat
  moving : Nat → Option T
  transferCnt : T → U32
  pc : T → MemFunPc

/-- What `nu_pdma_memfun_actor_init` leaves for the threads; with no actor there is no pool. -/
def MemFunState.created {T : Type} (channels : List Nat) : MemFunState T where
  actorMaxnum := channels.length
  actorChannel := fun i => channels.getD i 0
  actorResult := fun _ => 0
  actorSem := fun _ => 0
  actorMask := if channels = [] then 0 else ~~~(((1 : U32) <<< channels.length) - 1)
  poolSem := if channels = [] then none else some channels.length
  poolLock := none
  handler := fun _ => none
  moving := fun _ => none
  transferCnt := fun _ => 0
  pc := fun _ => .outside

section Steps

variable {T : Type} [DecidableEq T]

def MemFunState.goto (s : MemFunState T) (t : T) (p : MemFunPc) : MemFunState T :=
  { s with pc := Function.update s.pc t p }

/-- `nu_pdma_memfun_cb`, called by the interrupt handler for the end of a transfer on channel `c`. -/
def nuPdmaMemfunCb (s : MemFunState T) (c : Nat) (events : U32) : MemFunState T :=
  let s := { s with moving := Function.update s.moving c none }
  match s.handler c with
  | none => s
  | some idx => { s with
      actorResult := Function.update s.actorResult idx events
      actorSem := Function.update s.actorSem idx (s.actorSem idx + 1) }

/-- The value `nu_pdma_memfun` returns; `left` is the count read from the channel. -/
def memfunRet (result transferCnt left : U32) : U32 :=
  if result &&& nuPdmaEventTransferDone ≠ 0 then transferCnt else transferCnt - left

inductive MemFunStep : MemFunState T → MemFunState T → Prop where
  | call (s : MemFunState T) (t : T) (cnt : U32) : s.pc t = .outside →
      MemFunStep s ({ s with transferCnt := Function.update s.transferCnt t cnt }.goto t .employ)
  | spin (s : MemFunState T) (t : T) : s.pc t = .employ → s.poolSem = none → MemFunStep s s
  | take (s : MemFunState T) (t : T) (n : Nat) : s.pc t = .employ → s.poolSem = some (n + 1) →
      MemFunStep s ({ s with poolSem := some n }.goto t .hired)
  | lock (s : MemFunState T) (t : T) : s.pc t = .hired → s.poolLock = none →
      MemFunStep s ({ s with poolLock := some t }.goto t .searching)
  | search (s : MemFunState T) (t : T) : s.pc t = .searching →
      MemFunStep s (s.goto t
        (if nuCto s.actorMask ≠ 32 then .found (nuCto s.actorMask) else .missed))
  | mark (s : MemFunState T) (t : T) (idx : Nat) : s.pc t = .found idx →
      MemFunStep s ({ s with actorMask := s.actorMask ||| (1 : U32) <<< idx }.goto t (.marked idx))
  | unlock (s : MemFunState T) (t : T) (idx : Nat) : s.pc t = .marked idx →
      MemFunStep s ({ s with poolLock := none }.goto t (.employed idx))
  | unlockMissed (s : MemFunState T) (t : T) : s.pc t = .missed →
      MemFunStep s ({ s with poolLock := none }.goto t .employ)
  | prepare (s : MemFunState T) (t : T) (idx : Nat) : s.pc t = .employed idx →
      MemFunStep s ({ s with
        handler := Function.update s.handler (s.actorChannel idx) (some idx)
        actorResult := Function.update s.actorResult idx 0 }.goto t (.prepared idx))
  | start (s : MemFunState T) (t : T) (idx : Nat) : s.pc t = .prepared idx →
      MemFunStep s ({ s with
        moving := Function.update s.moving (s.actorChannel idx) (some t) }.goto t (.waiting idx))
  | refused (s : MemFunState T) (t : T) (idx : Nat) : s.pc t = .prepared idx →
      MemFunStep s (s.goto t (.waiting idx))
  | interrupt (s : MemFunState T) (t : T) (c : Nat) (events : U32) : s.moving c = some t →
      MemFunStep s (nuPdmaMemfunCb s c events)
  | wake (s : MemFunState T) (t : T) (idx n : Nat) : s.pc t = .waiting idx →
      s.actorSem idx = n + 1 →
      MemFunStep s ({ s with actorSem := Function.update s.actorSem idx n }.goto t (.woken idx))
  | finish (s : MemFunState T) (t : T) (idx : Nat) (left : U32) : s.pc t = .woken idx →
      MemFunStep s (s.goto t (.leaving idx (memfunRet (s.actorResult idx) (s.transferCnt t) left)))
  | lockAgain (s : MemFunState T) (t : T) (idx : Nat) (ret : U32) : s.pc t = .leaving idx ret →
      s.poolLock = none →
      MemFunStep s ({ s with poolLock := some t }.goto t (.unmarking idx ret))
  | unmark (s : MemFunState T) (t : T) (idx : Nat) (ret : U32) : s.pc t = .unmarking idx ret →
      MemFunStep s ({ s with
        actorMask := s.actorMask &&& ~~~((1 : U32) <<< idx) }.goto t (.unmarked ret))
  | unlockAgain (s : MemFunState T) (t : T) (ret : U32) : s.pc t = .unmarked ret →
      MemFunStep s ({ s with poolLock := none }.goto t (.firing ret))
  | fire (s : MemFunState T) (t : T) (ret : U32) : s.pc t = .firing ret →
      MemFunStep s ({ s with poolSem := s.poolSem.map (· + 1) }.goto t .outside)

end Steps

/-- From taking the pool semaphore to releasing it a thread has an actor coming, or has it. -/
def MemFunPc.employs : MemFunPc → Bool
  | .outside | .employ => false
  | _ => true

def MemFunPc.holds : MemFunPc → Option Nat
  | .marked i | .employed i | .prepared i | .waiting i | .woken i => some i
  | .leaving i _ | .unmarking i _ => some i
  | _ => none

def MemFunPc.index : MemFunPc → Option Nat
  | .found i => some i
  | p => p.holds

def MemFunPc.critical : MemFunPc → Bool
  | .searching | .found _ | .missed | .marked _ | .unmarking .. | .unmarked _ => true
  | _ => false

/-- The actor whose callback the thread has registered and not been woken by. -/
def MemFunPc.registered : MemFunPc → Option Nat
  | .prepared i | .waiting i => some i
  | _ => none

def MemFunPc.waits : MemFunPc → Option Nat
  | .waiting i => some i
  | _ => none

def MemFunPc.lost : MemFunPc → Bool
  | .missed => true
  | _ => false

def MemFunState.resumable {T : Type} (s : MemFunState T) (t : T) : Prop :=
  ∃ idx, s.pc t = .waiting idx ∧ 0 < s.actorSem idx

end NuMakerMA35
