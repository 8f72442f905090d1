import NuMakerMA35.PdmaMemFun
import NuMakerMA35.PdmaOwnership

namespace NuMakerMA35

/-- The variables of the pool and of the driver below it, as one thread finds them. -/
structure MemFunPool where
  pdma : PdmaState
  actorChannel : Nat → Nat
  actorResult : Nat → U32
  actorMask : U32
  poolSem : Option Nat

/-- What a thread finds when it is woken: the events its callback noted, the control word of its
channel and what the other threads left of the mask and the semaphore; `moved` is the number of
data units the controller has carried over. -/
structure MemFunWoken where
  events : U32
  ctl : U32
  moved : Nat
  actorMask : U32
  poolSem : Nat
  deriving DecidableEq, Repr

/-- How a call of `nu_pdma_memfun` ends: it stops the system, it waits without end, or it returns. -/
inductive MemFunEnd where
  | fault (e : PdmaFault)
  | unhired
  | unwoken (s : MemFunPool)
  | returned (s : MemFunPool) (ret : U32)

/-- `nu_pdma_memfun_actor_init`; its loop ends with the first actor that gets no channel. -/
def nuPdmaMemfunActorInit (p : PdmaState) : Except PdmaFault MemFunPool := do
  let (p, channels) ← memfunActors nuPdmaMemfunActorMax (nuPdmaInit p)
  let created := MemFunState.created (T := Unit) channels
  return {
    pdma := p
    actorChannel := created.actorChannel
    actorResult := created.actorResult
    actorMask := created.actorMask
    poolSem := created.poolSem }

def memfunHire (s : MemFunPool) : Nat → Option (MemFunPool × Nat)
  | 0 => none
  | n + 1 =>
    let idx := nuCto s.actorMask
    if idx ≠ 32 then
      some ({ s with actorMask := s.actorMask ||| (1 : U32) <<< idx, poolSem := some n }, idx)
    else memfunHire s n

/-- The loop around `nu_pdma_memfun_employ`; without a result the thread spins, or waits for
another one to fire its actor. -/
def nuPdmaMemfunEmploy (s : MemFunPool) : Option (MemFunPool × Nat) :=
  s.poolSem.bind (memfunHire s)

/-- `nu_pdma_memfun` up to the transfer; the answer of `nu_pdma_channel_memctrl_set` is dropped. -/
def memfunArm (s : MemFunPool) (idx : Nat) (memCtl : MemCtrl) : Except PdmaFault MemFunPool := do
  let (p, _) ← nuPdmaChannelMemctrlSet s.pdma (s.actorChannel idx) memCtl
  return { s with pdma := p, actorResult := Function.update s.actorResult idx 0 }

/-- The state in which the thread goes on once its callback has released the semaphore. -/
def MemFunPool.wake (s : MemFunPool) (idx : Nat) (w : MemFunWoken) : MemFunPool :=
  let ch := s.actorChannel idx
  { s with
    pdma := { s.pdma with
      dsct := Function.update s.pdma.dsct ch { s.pdma.dsct ch with ctl := w.ctl } }
    actorResult := Function.update s.actorResult idx w.events
    actorMask := w.actorMask
    poolSem := some w.poolSem }

def MemFunPool.fireActor (s : MemFunPool) (idx : Nat) : MemFunPool :=
  { s with
    actorMask := s.actorMask &&& ~~~((1 : U32) <<< idx)
    poolSem := s.poolSem.map (· + 1) }

/-- `nu_pdma_memfun` from the end of its wait on. -/
def memfunFinish (s : MemFunPool) (idx : Nat) (transferCnt : U32) : MemFunEnd :=
  let ch := s.actorChannel idx
  let result := s.actorResult idx
  let ret := memfunRet result transferCnt (nuPdmaNonTransferCountGet s.pdma ch)
  if result &&& nuPdmaEventAbort ≠ 0 then
    match nuPdmaChannelTerminate s.pdma ch with
    | .error e => .fault e
    | .ok p => .returned ({ s with pdma := p }.fireActor idx) ret
  else .returned (s.fireActor idx) ret

/-- The answer of `nu_pdma_transfer` is dropped: refused or not, the thread waits for the callback,
which only a transfer that was started brings about. -/
def nuPdmaMemfun (s : MemFunPool) (dest src dataWidth transferCnt : U32) (memCtl : MemCtrl)
    (allocs : List (Option Addr)) (w : MemFunWoken) : MemFunEnd :=
  match nuPdmaMemfunEmploy s with
  | none => .unhired
  | some (s, idx) =>
    match memfunArm s idx memCtl with
    | .error e => .fault e
    | .ok s =>
      match nuPdmaTransfer s.pdma (s.actorChannel idx) dataWidth src dest transferCnt 0 allocs with
      | .error e => .fault e
      | .ok (p, ret) =>
        let s := { s with pdma := p }
        if ret = rtEok then memfunFinish (s.wake idx w) idx transferCnt else .unwoken s

/-- What the controller can have done with `transferCnt` units when it calls back: all of them, or
the descriptors before the aborted one and a part of that, of which the channel counts the rest. -/
def MemFunWoken.Of (w : MemFunWoken) (transferCnt : U32) : Prop :=
  if w.events &&& nuPdmaEventTransferDone ≠ 0 then w.moved = transferCnt.toNat
  else w.events &&& nuPdmaEventAbort ≠ 0 ∧
    ∃ k left, k * nuPdmaMaxTxcnt < transferCnt.toNat ∧ 1 ≤ left ∧
      left ≤ min nuPdmaMaxTxcnt (transferCnt.toNat - k * nuPdmaMaxTxcnt) ∧
      (w.ctl &&& pdmaDsctCtlTxcntMsk) >>> pdmaDsctCtlTxcntPos + 1 = BitVec.ofNat 32 left ∧
      w.moved = k * nuPdmaMaxTxcnt +
        (min nuPdmaMaxTxcnt (transferCnt.toNat - k * nuPdmaMaxTxcnt) - left)

/-- The call ends with its actor given back and the count of what was moved, a data unit counting
for `unit`. -/
def MemFunEnd.Sound (e : MemFunEnd) (idx : Nat) (w : MemFunWoken) (unit : Nat) : Prop :=
  match e with
  | .returned s ret => s.actorMask = w.actorMask &&& ~~~((1 : U32) <<< idx) ∧
      s.poolSem = some (w.poolSem + 1) ∧ ret.toNat = w.moved * unit
  | _ => False

/-- A request to `nu_pdma_memfun` by a thread that gets the actor `idx` in the state `t`: every
refusal of its transfer is negative, and whatever comes of the transfer the call is sound. -/
def MemFunSound (s t : MemFunPool) (idx : Nat) (dest src dataWidth transferCnt : U32)
    (memCtl : MemCtrl) (allocs : List (Option Addr)) (unit : Nat) : Prop :=
  (∀ armed p ret, memfunArm t idx memCtl = .ok armed →
    nuPdmaTransfer armed.pdma (t.actorChannel idx) dataWidth src dest transferCnt 0 allocs =
      .ok (p, ret) → ret ≠ rtEok → ret < 0) ∧
  ∀ w : MemFunWoken, w.Of transferCnt →
    (nuPdmaMemfun s dest src dataWidth transferCnt memCtl allocs w).Sound idx w unit

def Startable (p : PdmaState) (ch : Nat) (dataWidth addrSrc addrDst transferCnt : U32) : Prop :=
  p.allocated ch ∧ transferCnt ≠ 0 ∧ descAccepts (.reg ch) dataWidth addrSrc addrDst transferCnt

theorem nuPdmaTransfer_started {p : PdmaState} {ch : Nat}
    {dataWidth addrSrc addrDst transferCnt : U32}
    (able : Startable p ch dataWidth addrSrc addrDst transferCnt) (idleTimeoutUs : U32)
    (allocs : List (Option Addr)) :
    ∃ p', nuPdmaTransfer p ch dataWidth addrSrc addrDst transferCnt idleTimeoutUs allocs =
      .ok (p', rtEok) ∧ p'.chnMask = p.chnMask := by
  obtain ⟨alloc, some, accepts⟩ := able
  have small := accepts.2.2.2.2
  have alloc' : PdmaState.allocated { p with dsct := Function.update p.dsct ch (descOf
    (p.chn ch).memCtl ((p.chn ch).peripheral = pdmaMem) dataWidth addrSrc addrDst transferCnt 0
    false) } ch := alloc
  obtain ⟨p', start, -⟩ := nuPdmaTransferHead_safe alloc' (p.chn ch).peripheral idleTimeoutUs
    (.reg ch) rfl
  refine ⟨p', ?_, ?_⟩
  · unfold nuPdmaTransfer
    simp only [check_of_allocated alloc, bind, Except.bind, pure, Except.pure, Bool.false_eq_true,
      if_false, nuPdmaDescSetup_eq alloc, PdmaState.writeDesc, Except.map]
    rw [if_neg some, if_neg (by omega), if_pos accepts]
    simp only [ne_eq, not_true_eq_false, if_false, start]
    rfl
  · exact (nuPdmaTransferHead_keeps start).mask

theorem nuPdmaTransfer_unstarted {p : PdmaState} {ch : Nat}
    {dataWidth addrSrc addrDst transferCnt : U32}
    (unable : ¬Startable p ch dataWidth addrSrc addrDst transferCnt)
    (small : transferCnt.toNat ≤ nuPdmaMaxTxcnt) (idleTimeoutUs : U32)
    (allocs : List (Option Addr)) (p' : PdmaState) :
    nuPdmaTransfer p ch dataWidth addrSrc addrDst transferCnt idleTimeoutUs allocs ≠
      .ok (p', rtEok) := by
  intro started
  unfold nuPdmaTransfer at started
  rcases check_cases p ch with fault | free | alloc
  · rw [fault] at started
    cases started
  · rw [free] at started
    cases started
  · simp only [check_of_allocated alloc, bind, Except.bind, pure, Except.pure, Bool.false_eq_true,
      if_false, nuPdmaDescSetup_eq alloc] at started
    by_cases zero : transferCnt = 0
    · rw [if_pos zero] at started
      cases started
    · rw [if_neg zero, if_neg (by omega), if_neg (fun accepts => unable ⟨alloc, zero, accepts⟩)]
        at started
      cases started

theorem nuPdmaChannelMemctrlSet_mask {p p' : PdmaState} {ch : Nat} {memCtl : MemCtrl} {ret : Int}
    (set : nuPdmaChannelMemctrlSet p ch memCtl = .ok (p', ret)) : p'.chnMask = p.chnMask := by
  unfold nuPdmaChannelMemctrlSet at set
  obtain ⟨free, -, set⟩ := Runs.bind_ok_iff.mp set
  split at set
  · cases set
    rfl
  · split at set
    · cases set
      rfl
    · split at set <;> cases set <;> rfl

theorem nuPdmaChannelMemctrlSet_allocated {p : PdmaState} {ch : Nat} (alloc : p.allocated ch)
    (memCtl : MemCtrl) : ∃ p' ret, nuPdmaChannelMemctrlSet p ch memCtl = .ok (p', ret) := by
  unfold nuPdmaChannelMemctrlSet
  simp only [check_of_allocated alloc, bind, Except.bind, Bool.false_eq_true, if_false]
  split
  · exact ⟨_, _, rfl⟩
  · split <;> exact ⟨_, _, rfl⟩

theorem memfunArm_ok {s armed : MemFunPool} {idx : Nat} {memCtl : MemCtrl}
    (arm : memfunArm s idx memCtl = .ok armed) :
    armed.pdma.chnMask = s.pdma.chnMask ∧ armed.actorChannel = s.actorChannel := by
  obtain ⟨⟨p, ret⟩, set, arm⟩ := Runs.bind_ok_iff.mp arm
  cases arm
  exact ⟨nuPdmaChannelMemctrlSet_mask set, rfl⟩

theorem memfunArm_allocated {s : MemFunPool} {idx : Nat}
    (alloc : s.pdma.allocated (s.actorChannel idx)) (memCtl : MemCtrl) :
    ∃ armed, memfunArm s idx memCtl = .ok armed := by
  obtain ⟨p, ret, set⟩ := nuPdmaChannelMemctrlSet_allocated alloc memCtl
  exact ⟨_, Runs.bind_ok_iff.mpr ⟨_, set, rfl⟩⟩

theorem startable_congr {p p' : PdmaState} (mask : p'.chnMask = p.chnMask) {ch : Nat}
    {dataWidth addrSrc addrDst transferCnt : U32} :
    Startable p' ch dataWidth addrSrc addrDst transferCnt ↔
      Startable p ch dataWidth addrSrc addrDst transferCnt := by
  unfold Startable PdmaState.allocated
  rw [mask]

theorem wake_actorResult (s : MemFunPool) (idx : Nat) (w : MemFunWoken) :
    (s.wake idx w).actorResult idx = w.events := Function.update_self ..

theorem wake_left (s : MemFunPool) (idx : Nat) (w : MemFunWoken) :
    nuPdmaNonTransferCountGet (s.wake idx w).pdma (s.actorChannel idx) =
      (w.ctl &&& pdmaDsctCtlTxcntMsk) >>> pdmaDsctCtlTxcntPos + 1 := by
  simp [nuPdmaNonTransferCountGet, MemFunPool.wake]

theorem memfunFinish_returned {s : MemFunPool} {idx : Nat} {w : MemFunWoken}
    (alloc : s.pdma.allocated (s.actorChannel idx)) (transferCnt : U32) :
    ∃ s', memfunFinish (s.wake idx w) idx transferCnt = .returned s'
        (memfunRet w.events transferCnt
          ((w.ctl &&& pdmaDsctCtlTxcntMsk) >>> pdmaDsctCtlTxcntPos + 1)) ∧
      s'.actorMask = w.actorMask &&& ~~~((1 : U32) <<< idx) ∧
      s'.poolSem = some (w.poolSem + 1) := by
  have alloc' : (s.wake idx w).pdma.allocated (s.actorChannel idx) := alloc
  obtain ⟨p, stopped, -⟩ := nuPdmaChannelTerminate_allocated alloc'
  have channel : (s.wake idx w).actorChannel idx = s.actorChannel idx := rfl
  unfold memfunFinish
  simp only [channel, wake_actorResult, wake_left, stopped]
  split <;> exact ⟨_, rfl, rfl, rfl⟩

theorem memfunFinish_count {s : MemFunPool} {idx unit : Nat} {w : MemFunWoken} {transferCnt : U32}
    (sound : (memfunFinish (s.wake idx w) idx transferCnt).Sound idx w unit) :
    (memfunRet w.events transferCnt
      ((w.ctl &&& pdmaDsctCtlTxcntMsk) >>> pdmaDsctCtlTxcntPos + 1)).toNat = w.moved * unit := by
  have channel : (s.wake idx w).actorChannel idx = s.actorChannel idx := rfl
  unfold memfunFinish at sound
  simp only [channel, wake_actorResult, wake_left] at sound
  split at sound
  · split at sound
    · exact sound.elim
    · exact sound.2.2
  · exact sound.2.2

theorem nuPdmaMemfun_hired {s t : MemFunPool} {idx : Nat}
    (hired : nuPdmaMemfunEmploy s = some (t, idx)) (dest src dataWidth transferCnt : U32)
    (memCtl : MemCtrl) (allocs : List (Option Addr)) (w : MemFunWoken) {armed : MemFunPool}
    {p : PdmaState} {ret : Int} (arm : memfunArm t idx memCtl = .ok armed)
    (transfer : nuPdmaTransfer armed.pdma (t.actorChannel idx) dataWidth src dest transferCnt 0
      allocs = .ok (p, ret)) :
    nuPdmaMemfun s dest src dataWidth transferCnt memCtl allocs w =
      if ret = rtEok then memfunFinish ({ armed with pdma := p }.wake idx w) idx transferCnt
      else .unwoken { armed with pdma := p } := by
  rw [← (memfunArm_ok arm).2] at transfer
  unfold nuPdmaMemfun
  simp only [hired, arm, transfer]

theorem nuPdmaMemfun_sound_started {s t : MemFunPool} {idx : Nat}
    (hired : nuPdmaMemfunEmploy s = some (t, idx)) {dest src dataWidth transferCnt : U32}
    {memCtl : MemCtrl} {allocs : List (Option Addr)} {w : MemFunWoken} {unit : Nat}
    (sound : (nuPdmaMemfun s dest src dataWidth transferCnt memCtl allocs w).Sound idx w unit) :
    ∃ armed p, memfunArm t idx memCtl = .ok armed ∧
      nuPdmaTransfer armed.pdma (t.actorChannel idx) dataWidth src dest transferCnt 0 allocs =
        .ok (p, rtEok) := by
  unfold nuPdmaMemfun at sound
  rw [hired] at sound
  simp only at sound
  cases arm : memfunArm t idx memCtl with
  | error e =>
    rw [arm] at sound
    exact sound.elim
  | ok armed =>
    rw [arm] at sound
    simp only [(memfunArm_ok arm).2] at sound
    refine ⟨armed, ?_⟩
    cases transfer : nuPdmaTransfer armed.pdma (t.actorChannel idx) dataWidth src dest transferCnt
        0 allocs with
    | error e =>
      rw [transfer] at sound
      exact sound.elim
    | ok result =>
      obtain ⟨p, ret⟩ := result
      rw [transfer] at sound
      simp only at sound
      split at sound
      next started => exact ⟨p, rfl, by rw [started]⟩
      · exact sound.elim

theorem memfunRet_of_woken {w : MemFunWoken} {transferCnt : U32} (woken : w.Of transferCnt)
    (small : transferCnt.toNat ≤ nuPdmaMaxTxcnt) :
    (memfunRet w.events transferCnt
      ((w.ctl &&& pdmaDsctCtlTxcntMsk) >>> pdmaDsctCtlTxcntPos + 1)).toNat = w.moved := by
  unfold MemFunWoken.Of at woken
  unfold memfunRet
  split at woken
  next done =>
    rw [if_pos done, woken]
  next notDone =>
    obtain ⟨-, k, left, started, positive, most, count, moved⟩ := woken
    have first : k = 0 := by
      unfold nuPdmaMaxTxcnt at *
      omega
    subst first
    have most' : left ≤ transferCnt.toNat := by omega
    rw [if_neg notDone, count, moved, BitVec.toNat_sub_of_le, BitVec.toNat_ofNat]
    · rw [Nat.mod_eq_of_lt (by have := transferCnt.isLt; omega)]
      omega
    · rw [BitVec.le_def, BitVec.toNat_ofNat, Nat.mod_eq_of_lt (by have := transferCnt.isLt; omega)]
      exact most'

/-- The end of every transfer that was started and not aborted. -/
def MemFunWoken.done (transferCnt : U32) : MemFunWoken :=
  ⟨nuPdmaEventTransferDone, 0, transferCnt.toNat, 0, 0⟩

theorem done_events (transferCnt : U32) :
    (MemFunWoken.done transferCnt).events &&& nuPdmaEventTransferDone ≠ 0 := by
  change nuPdmaEventTransferDone &&& nuPdmaEventTransferDone ≠ 0
  decide

theorem done_of (transferCnt : U32) : (MemFunWoken.done transferCnt).Of transferCnt := by
  unfold MemFunWoken.Of
  rw [if_pos (done_events transferCnt)]
  rfl

/-- The first descriptor of a transfer is aborted with one unit left. -/
def MemFunWoken.aborted (transferCnt : U32) : MemFunWoken :=
  ⟨nuPdmaEventAbort, 0, min nuPdmaMaxTxcnt transferCnt.toNat - 1, 0, 0⟩

theorem aborted_events (transferCnt : U32) :
    ¬(MemFunWoken.aborted transferCnt).events &&& nuPdmaEventTransferDone ≠ 0 := by
  change ¬nuPdmaEventAbort &&& nuPdmaEventTransferDone ≠ 0
  decide

theorem aborted_left (transferCnt : U32) :
    ((MemFunWoken.aborted transferCnt).ctl &&& pdmaDsctCtlTxcntMsk) >>> pdmaDsctCtlTxcntPos + 1 =
      1 := by
  change ((0 : U32) &&& pdmaDsctCtlTxcntMsk) >>> pdmaDsctCtlTxcntPos + 1 = 1
  decide

theorem aborted_of {transferCnt : U32} (some : transferCnt ≠ 0) :
    (MemFunWoken.aborted transferCnt).Of transferCnt := by
  have positive : 0 < transferCnt.toNat := by
    rw [Nat.pos_iff_ne_zero]
    exact fun zero => some (BitVec.eq_of_toNat_eq zero)
  unfold MemFunWoken.Of
  rw [if_neg (aborted_events transferCnt)]
  refine ⟨show nuPdmaEventAbort &&& nuPdmaEventAbort ≠ 0 by decide, 0, 1, by omega, Nat.le_refl 1,
    ?_, aborted_left transferCnt, ?_⟩
  · unfold nuPdmaMaxTxcnt
    omega
  · simp [MemFunWoken.aborted]

theorem sound_of_startable {s t : MemFunPool} {idx : Nat}
    (hired : nuPdmaMemfunEmploy s = some (t, idx)) {dest src dataWidth transferCnt : U32}
    (able : Startable t.pdma (t.actorChannel idx) dataWidth src dest transferCnt)
    (memCtl : MemCtrl) (allocs : List (Option Addr)) :
    MemFunSound s t idx dest src dataWidth transferCnt memCtl allocs 1 := by
  obtain ⟨armed, arm⟩ := memfunArm_allocated able.1 memCtl
  obtain ⟨mask, channel⟩ := memfunArm_ok arm
  have able' := (startable_congr mask).mpr able
  obtain ⟨p, transfer, mask'⟩ := nuPdmaTransfer_started able' 0 allocs
  refine ⟨?_, ?_⟩
  · intro other p' ret arm' transfer' refused
    rw [arm] at arm'
    cases arm'
    rw [transfer] at transfer'
    cases transfer'
    exact absurd rfl refused
  · intro w woken
    have alloc : PdmaState.allocated ({ armed with pdma := p } : MemFunPool).pdma
        (({ armed with pdma := p } : MemFunPool).actorChannel idx) := by
      have := able'.1
      unfold PdmaState.allocated at *
      simp only [mask', channel]
      exact this
    obtain ⟨s', finish, given, sem⟩ := memfunFinish_returned (w := w) alloc transferCnt
    rw [nuPdmaMemfun_hired hired dest src dataWidth transferCnt memCtl allocs w arm transfer,
      if_pos rfl, finish]
    refine ⟨given, sem, ?_⟩
    rw [memfunRet_of_woken woken able.2.2.2.2.2.2, Nat.mul_one]

theorem nuPdmaTransfer_ok_some {p p' : PdmaState} {ch : Nat}
    {dataWidth addrSrc addrDst transferCnt idleTimeoutUs : U32} {allocs : List (Option Addr)}
    (started : nuPdmaTransfer p ch dataWidth addrSrc addrDst transferCnt idleTimeoutUs allocs =
      .ok (p', rtEok)) : transferCnt ≠ 0 := by
  rintro rfl
  unfold nuPdmaTransfer at started
  obtain ⟨free, -, started⟩ := Runs.bind_ok_iff.mp started
  split at started <;> cases started

theorem memfunSound_count {s t : MemFunPool} {idx : Nat}
    (hired : nuPdmaMemfunEmploy s = some (t, idx)) {dest src dataWidth transferCnt : U32}
    {memCtl : MemCtrl} {allocs : List (Option Addr)} {unit : Nat} {w : MemFunWoken}
    (sound : (nuPdmaMemfun s dest src dataWidth transferCnt memCtl allocs w).Sound idx w unit) :
    (memfunRet w.events transferCnt
      ((w.ctl &&& pdmaDsctCtlTxcntMsk) >>> pdmaDsctCtlTxcntPos + 1)).toNat = w.moved * unit := by
  obtain ⟨armed, p, arm, transfer⟩ := nuPdmaMemfun_sound_started hired sound
  rw [nuPdmaMemfun_hired hired dest src dataWidth transferCnt memCtl allocs w arm transfer,
    if_pos rfl] at sound
  exact memfunFinish_count sound

theorem startable_of_sound {s t : MemFunPool} {idx : Nat}
    (hired : nuPdmaMemfunEmploy s = some (t, idx)) {dest src dataWidth transferCnt : U32}
    {memCtl : MemCtrl} {allocs : List (Option Addr)} {unit : Nat}
    (sound : MemFunSound s t idx dest src dataWidth transferCnt memCtl allocs unit) :
    Startable t.pdma (t.actorChannel idx) dataWidth src dest transferCnt ∧ unit = 1 := by
  have finished := sound.2 _ (done_of transferCnt)
  obtain ⟨armed, p, arm, transfer⟩ := nuPdmaMemfun_sound_started hired finished
  obtain ⟨mask, channel⟩ := memfunArm_ok arm
  have some := nuPdmaTransfer_ok_some transfer
  have positive : 0 < transferCnt.toNat := by
    rw [Nat.pos_iff_ne_zero]
    exact fun zero => some (BitVec.eq_of_toNat_eq zero)
  have all : transferCnt.toNat = transferCnt.toNat * unit := by
    have count := memfunSound_count hired finished
    rwa [memfunRet, if_pos (done_events transferCnt)] at count
  have one : unit = 1 := Nat.eq_of_mul_eq_mul_left positive (by omega)
  have part : (transferCnt - 1).toNat = (min nuPdmaMaxTxcnt transferCnt.toNat - 1) * unit := by
    have count := memfunSound_count hired (sound.2 _ (aborted_of some))
    rwa [memfunRet, if_neg (aborted_events transferCnt), aborted_left] at count
  rw [one, Nat.mul_one, BitVec.toNat_sub_of_le (by rw [BitVec.le_def]; exact positive)] at part
  change transferCnt.toNat - 1 = min nuPdmaMaxTxcnt transferCnt.toNat - 1 at part
  have small : transferCnt.toNat ≤ nuPdmaMaxTxcnt := by
    unfold nuPdmaMaxTxcnt at *
    omega
  refine ⟨?_, one⟩
  by_contra unable
  exact nuPdmaTransfer_unstarted (fun able => unable ((startable_congr mask).mp able)) small 0
    allocs p transfer

theorem memFunSound_unit_iff {s t : MemFunPool} {idx : Nat}
    (hired : nuPdmaMemfunEmploy s = some (t, idx)) (dest src dataWidth transferCnt : U32)
    (memCtl : MemCtrl) (allocs : List (Option Addr)) (unit : Nat) :
    MemFunSound s t idx dest src dataWidth transferCnt memCtl allocs unit ↔
      Startable t.pdma (t.actorChannel idx) dataWidth src dest transferCnt ∧ unit = 1 := by
  constructor
  · exact startable_of_sound hired
  · rintro ⟨able, rfl⟩
    exact sound_of_startable hired able memCtl allocs

/-- Counting bytes, as a caller of bytes does, and counting data units. -/
theorem memfun_errors_iff {s t : MemFunPool} {idx : Nat}
    (hired : nuPdmaMemfunEmploy s = some (t, idx)) (dest src dataWidth transferCnt : U32)
    (memCtl : MemCtrl) (allocs : List (Option Addr)) :
    (MemFunSound s t idx dest src dataWidth transferCnt memCtl allocs (dataWidth.toNat / 8) ↔
      Startable t.pdma (t.actorChannel idx) dataWidth src dest transferCnt ∧ dataWidth = 8) ∧
    (MemFunSound s t idx dest src dataWidth transferCnt memCtl allocs 1 ↔
      Startable t.pdma (t.actorChannel idx) dataWidth src dest transferCnt) := by
  refine ⟨?_, ?_⟩
  · rw [memFunSound_unit_iff hired, and_congr_right_iff]
    intro able
    rcases able.2.2.2.1 with width | width | width <;> rw [width] <;> decide
  · rw [memFunSound_unit_iff hired]
    simp

theorem memfun_errors_fresh :
    ∃ s t, nuPdmaMemfunActorInit .powerOn = .ok s ∧ nuPdmaMemfunEmploy s = some (t, 0) ∧
      (MemFunSound s t 0 0x80001000 0x80000000 8 4 .srcIncDstInc [] 1 ↔
        Startable t.pdma (t.actorChannel 0) 8 0x80000000 0x80001000 4 ∧ (8 : U32) = 8) ∧
      (MemFunSound s t 0 0x80001000 0x80000000 8 4 .srcIncDstInc [] 1 ↔
        Startable t.pdma (t.actorChannel 0) 8 0x80000000 0x80001000 4) :=
  ⟨_, _, rfl, rfl, memfun_errors_iff rfl 0x80001000 0x80000000 8 4 .srcIncDstInc []⟩

/-- A misaligned source: the transfer is refused with a positive number and the thread waits. -/
theorem memfun_misaligned_waits :
    ∃ s t p p', nuPdmaMemfunActorInit .powerOn = .ok s ∧ nuPdmaMemfunEmploy s = some (t, 0) ∧
      nuPdmaTransfer t.pdma (t.actorChannel 0) 32 0x80000001 0x80001000 4 0 [] = .ok (p, 10) ∧
      (∀ w, nuPdmaMemfun s 0x80001000 0x80000001 32 4 .srcIncDstInc [] w = .unwoken p') ∧
      ∀ unit, ¬MemFunSound s t 0 0x80001000 0x80000001 32 4 .srcIncDstInc [] unit := by
  refine ⟨_, _, _, _, rfl, rfl, rfl, fun w => rfl, ?_⟩
  intro unit sound
  exact sound.2 _ (done_of 4)

end NuMakerMA35
