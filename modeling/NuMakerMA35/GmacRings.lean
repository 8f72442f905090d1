import NuMakerMA35.GmacRxRing
import NuMakerMA35.GmacTxRing

namespace NuMakerMA35

open Words NuMakerMA35.Ring

/-- How many descriptors of a ring were queued, and taken back, since it was set up or recovered. -/
structure RingPos where
  queued : Nat
  taken : Nat

/-- The position of a ring as `synopGMACdevice` keeps it three times: the pointers are those of the
indices, and the busy count is what is queued and not taken back, the distance between them. -/
structure RingPos.Agrees (p : RingPos) (size next busy nextDesc busyDesc : Nat) (count : U32) :
    Prop where
  nextDesc : nextDesc = next
  busyDesc : busyDesc = busy
  distance : (busy + count.toNat) % size = next
  counted : p.queued = p.taken + count.toNat
  bounded : count.toNat ≤ size

/-- The receive part of `nu_gmac_isr`, the call of `eth_rx_push` apart: after a fatal bus error the
DMA begins with the first descriptor again. -/
def GmacRx.nuGmacIsr (s : GmacRx) (dmaStatus : U32) : GmacRx :=
  if dmaStatus &&& dmaIntErrorMask ≠ 0 then
    { s with
      descs := fun i => synopGMACRxDescInitRing (i = receiveDescSize - 1)
      rxNext := 0
      rxBusy := 0
      dma := 0 }
  else s

structure GmacRings where
  tx : GmacTx
  rx : GmacRx
  txPos : RingPos
  rxPos : RingPos
  recovered : Bool

/-- The queue operations as the driver calls them, the DMA's steps and the interrupt. -/
inductive GmacEvent where
  | setTx (buffer1 length1 : U32)
  | getTx
  | done (d : TxDone)
  | setRx (buffer1 : U32)
  | getRx
  | receive (frame : RxFrame)
  | interrupt (dmaStatus : U32)

def RingPos.queue (p : RingPos) (status : Int) : RingPos :=
  if 0 ≤ status then { p with queued := p.queued + 1 } else p

def RingPos.take (p : RingPos) (done : Bool) : RingPos :=
  if done then { p with taken := p.taken + 1 } else p

namespace GmacRings

def setUp (txFrames rxFrames : FrameArea) (txMem rxMem : Mem) : GmacRings where
  tx := GmacTx.synopGMACSetupTxDescQueue txFrames txMem
  rx := GmacRx.synopGMACSetupRxDescQueue rxFrames rxMem
  txPos := ⟨0, 0⟩
  rxPos := ⟨0, 0⟩
  recovered := false

def step (s : GmacRings) : GmacEvent → GmacRings
  | .setTx buffer1 length1 =>
    match s.tx.synopGMACSetTxQptr buffer1 length1 1 0 with
    | (status, tx) => { s with tx := tx, txPos := s.txPos.queue status, recovered := false }
  | .getTx =>
    match s.tx.synopGMACGetTxQptr with
    | (status, tx) => { s with tx := tx, txPos := s.txPos.take (0 ≤ status), recovered := false }
  | .done d => { s with tx := s.tx.transmitDone d, recovered := false }
  | .setRx buffer1 =>
    match s.rx.synopGMACSetRxQptr buffer1 (BitVec.ofNat 32 pktFrameBufSize) with
    | (status, rx) => { s with rx := rx, rxPos := s.rxPos.queue status, recovered := false }
  | .getRx =>
    match s.rx.synopGMACGetRxQptr with
    | (taken, rx) => { s with rx := rx, rxPos := s.rxPos.take taken.isSome, recovered := false }
  | .receive frame => { s with rx := s.rx.receive frame, recovered := false }
  | .interrupt dmaStatus =>
    let error := dmaStatus &&& dmaIntErrorMask ≠ 0
    { tx := s.tx.nuGmacIsr dmaStatus
      rx := s.rx.nuGmacIsr dmaStatus
      txPos := if error then ⟨0, 0⟩ else s.txPos
      rxPos := if error then ⟨0, 0⟩ else s.rxPos
      recovered := error }

/-- Indices, pointers and counts say the same. After a recovery every receive descriptor waits for
the DMA with a buffer, and the next frame goes to the descriptor the DMA begins with. -/
structure Right (s : GmacRings) : Prop where
  tx : s.txPos.Agrees transmitDescSize s.tx.txNext s.tx.txBusy s.tx.txNextDesc s.tx.txBusyDesc
    s.tx.busyTxDesc
  rx : s.rxPos.Agrees receiveDescSize s.rx.rxNext s.rx.rxBusy s.rx.rxNextDesc s.rx.rxBusyDesc
    s.rx.busyRxDesc
  refilled : s.recovered = true → ∀ i, i < receiveDescSize →
    synopGMACIsDescOwnedByDma (s.rx.descs i) ∧ ¬synopGMACIsDescEmpty (s.rx.descs i)
  resumes : s.recovered = true → s.tx.txNextDesc = 0 ∧ synopGMACIsDescEmpty (s.tx.descs 0)

/-- No fatal bus error, and no frame queued where all descriptors are busy; that happens where the
first of them has a frame without length. -/
def Meets (s : GmacRings) : GmacEvent → Prop
  | .setTx _ _ => synopGMACIsDescEmpty (s.tx.descs s.tx.txNextDesc) →
    s.tx.busyTxDesc.toNat < transmitDescSize
  | .interrupt dmaStatus => dmaStatus &&& dmaIntErrorMask = 0
  | _ => True

end GmacRings

section Positions

variable {p : RingPos} {size next busy nextDesc busyDesc : Nat} {count : U32}

theorem count_succ (room : count.toNat < size) (small : size < 2 ^ 32) :
    (count + 1).toNat = count.toNat + 1 := by
  rw [BitVec.toNat_add]
  exact Nat.mod_eq_of_lt (show count.toNat + 1 < 2 ^ 32 by omega)

theorem count_pred (some_ : 0 < count.toNat) : (count - 1).toNat = count.toNat - 1 := by
  have one : (1 : U32).toNat = 1 := rfl
  rw [BitVec.toNat_sub_of_le (by rw [BitVec.le_def]; omega), one]

theorem RingPos.Agrees.push (agrees : p.Agrees size next busy nextDesc busyDesc count)
    (below : nextDesc < size) (room : count.toNat < size) (small : size < 2 ^ 32) :
    RingPos.Agrees { p with queued := p.queued + 1 } size
      (if nextDesc = size - 1 then 0 else next + 1) busy ((nextDesc + 1) % size) busyDesc
      (count + 1) := by
  obtain ⟨rfl, rfl, distance, counted, bounded⟩ := agrees
  have more := count_succ room small
  refine ⟨succ_mod below, rfl, ?_, ?_, ?_⟩
  · rw [more, ← Nat.add_assoc, ← Nat.mod_add_mod, distance]
    exact succ_mod below
  · change p.queued + 1 = p.taken + (count + 1).toNat
    omega
  · omega

theorem RingPos.Agrees.pop (agrees : p.Agrees size next busy nextDesc busyDesc count)
    (below : busyDesc < size) (some_ : 0 < count.toNat) :
    RingPos.Agrees { p with taken := p.taken + 1 } size next
      (if busyDesc = size - 1 then 0 else busy + 1) nextDesc ((busyDesc + 1) % size)
      (count - 1) := by
  obtain ⟨rfl, rfl, distance, counted, bounded⟩ := agrees
  have less := count_pred some_
  refine ⟨rfl, succ_mod below, ?_, ?_, ?_⟩
  · rw [← succ_mod below, less, Nat.mod_add_mod,
      show busyDesc + 1 + (count.toNat - 1) = busyDesc + count.toNat by omega]
    exact distance
  · change p.queued = p.taken + 1 + (count - 1).toNat
    omega
  · omega

end Positions

namespace GmacTx

def initDesc (i : Nat) : DmaDesc := synopGMACTxDescInitRing (i = transmitDescSize - 1)

/-- The transmit ring where no recovery was: descriptors that are not queued are as set up. -/
structure Kept (s : GmacTx) (p : RingPos) : Prop where
  agrees : p.Agrees transmitDescSize s.txNext s.txBusy s.txNextDesc s.txBusyDesc s.busyTxDesc
  ring : s.TxRing
  blank : Blank transmitDescSize initDesc s.descs s.txBusyDesc s.busyTxDesc.toNat

namespace Kept

variable {s : GmacTx} {p : RingPos}

theorem next (h : s.Kept p) :
    (s.txBusyDesc + s.busyTxDesc.toNat) % transmitDescSize = s.txNextDesc := by
  rw [h.agrees.busyDesc, h.agrees.distance, h.agrees.nextDesc]

theorem setUp (frames : FrameArea) (mem : Mem) : (synopGMACSetupTxDescQueue frames mem).Kept ⟨0, 0⟩ :=
  ⟨⟨rfl, rfl, rfl, rfl, Nat.zero_le _⟩, setup_ring frames mem, fun _ _ _ => rfl⟩

theorem done (h : s.Kept p) (d : TxDone) : (s.transmitDone d).Kept p := by
  by_cases owned : d.index < transmitDescSize ∧ synopGMACIsDescOwnedByDma (s.descs d.index)
  · have ring := h.ring.transmitDone d
    rw [transmitDone_owned owned.1 owned.2] at ring ⊢
    refine ⟨h.agrees, ring, h.blank.mono ?_⟩
    intro i _ same
    by_cases here : i = d.index
    · subst here
      exact absurd owned.2 (same ▸ txInit_not_owned _)
    · exact (Function.update_of_ne here _ _).trans same
  · rw [transmitDone_other owned]
    exact h

theorem stopped (h : s.Kept p) : s.synopGMACTakeDescOwnershipTx.Kept p := by
  refine ⟨h.agrees, h.ring.taken, h.blank.mono ?_⟩
  intro i _ same
  change takenDesc (s.descs i) = initDesc i
  rw [same, initDesc]
  cases decide (i = transmitDescSize - 1) <;> rfl

theorem queued (h : s.Kept p) (room : s.busyTxDesc.toNat < transmitDescSize)
    (buffer1 length1 : U32) :
    (s.queued buffer1 length1).Kept { p with queued := p.queued + 1 } := by
  refine ⟨h.agrees.push h.ring.next room (by decide), h.ring.queued buffer1 length1, ?_⟩
  have more := h.blank.push (GmacTx.queuedDesc (s.descs s.txNextDesc) buffer1 length1)
  rw [h.next, ← count_succ room (by decide)] at more
  exact more

theorem overfull (h : s.Kept p) (full : ¬s.busyTxDesc.toNat < transmitDescSize)
    (buffer1 length1 : U32) (p' : RingPos) :
    let t := s.queued buffer1 length1
    ¬p'.Agrees transmitDescSize t.txNext t.txBusy t.txNextDesc t.txBusyDesc t.busyTxDesc := by
  intro t agrees
  have before := h.agrees.bounded
  have more : (s.busyTxDesc + 1).toNat = transmitDescSize + 1 := by
    rw [BitVec.toNat_add, show s.busyTxDesc.toNat = transmitDescSize by omega]
    rfl
  have after : (s.busyTxDesc + 1).toNat ≤ transmitDescSize := agrees.bounded
  omega

theorem some_queued (h : s.Kept p) (full : ¬synopGMACIsDescEmpty (s.descs s.txBusyDesc)) :
    0 < s.busyTxDesc.toNat := by
  by_contra none
  have first := h.blank 0 (Nat.le_of_not_lt none) transmitDescSize_pos
  rw [Nat.add_zero, Nat.mod_eq_of_lt h.ring.busy] at first
  exact full (first ▸ txInit_empty _)

theorem reclaimed (h : s.Kept p) (full : ¬synopGMACIsDescEmpty (s.descs s.txBusyDesc)) :
    s.reclaimed.Kept { p with taken := p.taken + 1 } := by
  have some_ := h.some_queued full
  refine ⟨h.agrees.pop h.ring.busy some_, h.ring.reclaimed, ?_⟩
  have rest : Blank transmitDescSize initDesc s.descs s.txBusyDesc
      ((s.busyTxDesc - 1).toNat + 1) := by
    rw [count_pred some_, Nat.sub_add_cancel some_]
    exact h.blank
  exact rest.pop h.ring.busy

end Kept

end GmacTx

namespace GmacRx

def initDesc (i : Nat) : DmaDesc := synopGMACRxDescInitRing (i = receiveDescSize - 1)

/-- The receive ring where no recovery was: descriptors queued have a buffer, the others are as
set up. -/
structure Kept (s : GmacRx) (p : RingPos) : Prop where
  agrees : p.Agrees receiveDescSize s.rxNext s.rxBusy s.rxNextDesc s.rxBusyDesc s.busyRxDesc
  next : s.rxNextDesc < receiveDescSize
  busy : s.rxBusyDesc < receiveDescSize
  blank : Blank receiveDescSize initDesc s.descs s.rxBusyDesc s.busyRxDesc.toNat
  filled : Blank receiveDescSize rxFullLength (fun i => (s.descs i).length) s.rxNextDesc
    (receiveDescSize - s.busyRxDesc.toNat)

namespace Kept

variable {s : GmacRx} {p : RingPos}

theorem at_next (h : s.Kept p) :
    (s.rxBusyDesc + s.busyRxDesc.toNat) % receiveDescSize = s.rxNextDesc := by
  rw [h.agrees.busyDesc, h.agrees.distance, h.agrees.nextDesc]

theorem at_busy (h : s.Kept p) :
    (s.rxNextDesc + (receiveDescSize - s.busyRxDesc.toNat)) % receiveDescSize = s.rxBusyDesc := by
  have bounded := h.agrees.bounded
  rw [← h.at_next, Nat.mod_add_mod, show s.rxBusyDesc + s.busyRxDesc.toNat +
    (receiveDescSize - s.busyRxDesc.toNat) = s.rxBusyDesc + receiveDescSize by omega,
    Nat.add_mod_right, Nat.mod_eq_of_lt h.busy]

theorem setUp (frames : FrameArea) (mem : Mem) :
    (synopGMACSetupRxDescQueue frames mem).Kept ⟨0, 0⟩ := by
  refine ⟨⟨rfl, rfl, rfl, rfl, Nat.zero_le _⟩, receiveDescSize_pos, receiveDescSize_pos,
    fun _ _ _ => rfl, ?_⟩
  intro k beyond within
  exact absurd within (Nat.not_lt_of_le beyond)

theorem receive (h : s.Kept p) (frame : RxFrame) : (s.receive frame).Kept p := by
  unfold GmacRx.receive
  dsimp only
  by_cases owned : synopGMACIsDescOwnedByDma (s.descs s.dma)
  · rw [if_pos owned]
    refine ⟨h.agrees, h.next, h.busy, h.blank.mono ?_, h.filled.mono ?_⟩
    · intro i _ same
      by_cases here : i = s.dma
      · subst here
        exact absurd owned (same ▸ rxInit_not_owned _)
      · exact (Function.update_of_ne here _ _).trans same
    · intro i _ same
      by_cases here : i = s.dma
      · subst here
        dsimp only
        rw [Function.update_self]
        exact same
      · dsimp only
        rw [Function.update_of_ne here]
        exact same
  · rw [if_neg owned]
    exact h

theorem full_next (h : s.Kept p) (full : ¬s.busyRxDesc.toNat < receiveDescSize) :
    ¬synopGMACIsDescEmpty (s.descs s.rxNextDesc) := by
  have first := h.filled 0 (by omega) (by decide)
  rw [Nat.add_zero, Nat.mod_eq_of_lt h.next] at first
  exact rxFull_not_empty first

theorem setRx (h : s.Kept p) (buffer1 : U32) :
    let r := s.synopGMACSetRxQptr buffer1 (BitVec.ofNat 32 pktFrameBufSize)
    r.2.Kept (p.queue r.1) := by
  intro r
  by_cases room : s.busyRxDesc.toNat < receiveDescSize
  · have first := h.blank _ le_rfl room
    rw [h.at_next] at first
    have refills := setRxQptr_refills rfl h.next first buffer1
    have queue : p.queue r.1 = { p with queued := p.queued + 1 } := by
      rw [show r = _ from refills]
      exact if_pos (Int.natCast_nonneg _)
    rw [queue, show r = _ from refills]
    refine ⟨h.agrees.push h.next room (by decide), Nat.mod_lt _ (by decide), h.busy, ?_, ?_⟩
    · have more := h.blank.push ⟨descOwnByDma, rxFullLength s.rxNextDesc, buffer1⟩
      rw [h.at_next, ← count_succ room (by decide)] at more
      exact more
    · have rest : Blank receiveDescSize rxFullLength (fun i => (s.descs i).length) s.rxNextDesc
          (receiveDescSize - (s.busyRxDesc + 1).toNat + 1) := by
        rw [count_succ room (by decide), show receiveDescSize - (s.busyRxDesc.toNat + 1) + 1 =
          receiveDescSize - s.busyRxDesc.toNat by omega]
        exact h.filled
      refine (rest.pop h.next).congr ?_
      intro i
      exact Function.apply_update (fun _ d => DmaDesc.length d) s.descs s.rxNextDesc _ i
  · have refuses : r = (-1, s) := if_pos (h.full_next room)
    rw [refuses]
    exact h

theorem getRx (h : s.Kept p) :
    s.synopGMACGetRxQptr.2.Kept (p.take s.synopGMACGetRxQptr.1.isSome) := by
  by_cases owned : synopGMACIsDescOwnedByDma (s.descs s.rxBusyDesc)
  · rw [getRxQptr_waits owned]
    exact h
  by_cases some_ : 0 < s.busyRxDesc.toNat
  · have bounded := h.agrees.bounded
    have first := h.filled _ le_rfl (show receiveDescSize - s.busyRxDesc.toNat < _ by omega)
    rw [h.at_busy] at first
    rw [getRxQptr_given rfl h.busy owned first]
    refine ⟨h.agrees.pop h.busy some_, h.next, Nat.mod_lt _ receiveDescSize_pos, ?_, ?_⟩
    · have rest : Blank receiveDescSize initDesc s.descs s.rxBusyDesc
          ((s.busyRxDesc - 1).toNat + 1) := by
        rw [count_pred some_, Nat.sub_add_cancel some_]
        exact h.blank
      exact rest.pop h.busy
    · have more := h.filled.push (initDesc s.rxBusyDesc).length
      rw [h.at_busy, show receiveDescSize - s.busyRxDesc.toNat + 1 =
        receiveDescSize - (s.busyRxDesc.toNat - 1) by omega, ← count_pred some_] at more
      refine more.congr ?_
      intro i
      exact Function.apply_update (fun _ d => DmaDesc.length d) s.descs s.rxBusyDesc _ i
  · have first := h.blank 0 (Nat.le_of_not_lt some_) receiveDescSize_pos
    rw [Nat.add_zero, Nat.mod_eq_of_lt h.busy] at first
    have waits : s.synopGMACGetRxQptr = (none, s) := by
      unfold synopGMACGetRxQptr
      rw [if_neg owned, if_pos (first ▸ rxInit_empty _)]
    rw [waits]
    exact h

end Kept

end GmacRx

namespace GmacTx.Kept

variable {s : GmacTx} {p : RingPos}

theorem getTx (h : s.Kept p) :
    s.synopGMACGetTxQptr.2.Kept (p.take (0 ≤ s.synopGMACGetTxQptr.1)) := by
  by_cases waits : synopGMACIsDescOwnedByDma (s.descs s.txBusyDesc) ∨
      synopGMACIsDescEmpty (s.descs s.txBusyDesc)
  · rw [getTxQptr_waits waits]
    exact h
  · obtain ⟨given, full⟩ := not_or.mp waits
    rw [getTxQptr_takes h.ring given full]
    have take : p.take (0 ≤ (s.txBusy : Int)) = { p with taken := p.taken + 1 } :=
      if_pos (decide_eq_true (Int.natCast_nonneg _))
    dsimp only
    rw [take]
    exact h.reclaimed full

theorem setTx_iff (h : s.Kept p) (buffer1 length1 : U32) :
    let r := s.synopGMACSetTxQptr buffer1 length1 1 0
    let t := r.2
    ((p.queue r.1).Agrees transmitDescSize t.txNext t.txBusy t.txNextDesc t.txBusyDesc t.busyTxDesc ↔
      (synopGMACIsDescEmpty (s.descs s.txNextDesc) → s.busyTxDesc.toNat < transmitDescSize)) ∧
    ((synopGMACIsDescEmpty (s.descs s.txNextDesc) → s.busyTxDesc.toNat < transmitDescSize) →
      t.Kept (p.queue r.1)) := by
  intro r t
  by_cases empty : synopGMACIsDescEmpty (s.descs s.txNextDesc)
  · have fills : r = ((s.txNext : Int), s.queued buffer1 length1) := setTxQptr_fills h.ring empty
    have queue : p.queue (s.txNext : Int) = { p with queued := p.queued + 1 } :=
      if_pos (Int.natCast_nonneg _)
    rw [show t = r.2 from rfl, fills]
    dsimp only
    rw [queue]
    by_cases room : s.busyTxDesc.toNat < transmitDescSize
    · have next := h.queued room buffer1 length1
      exact ⟨iff_of_true next.agrees fun _ => room, fun _ => next⟩
    · exact ⟨iff_of_false (h.overfull room buffer1 length1 _) fun all => room (all empty),
        fun all => absurd (all empty) room⟩
  · have refuses : r = (-1, s) := setTxQptr_refuses empty
    rw [show t = r.2 from rfl, refuses]
    exact ⟨iff_of_true h.agrees fun e => absurd e empty, fun _ => h⟩

end GmacTx.Kept

namespace GmacRings

structure Kept (s : GmacRings) : Prop where
  tx : s.tx.Kept s.txPos
  rx : s.rx.Kept s.rxPos
  calm : s.recovered = false

theorem Kept.right {s : GmacRings} (h : s.Kept) : s.Right :=
  ⟨h.tx.agrees, h.rx.agrees, fun recovered => absurd (h.calm.symm.trans recovered) (by decide),
    fun recovered => absurd (h.calm.symm.trans recovered) (by decide)⟩

theorem setUp_kept (txFrames rxFrames : FrameArea) (txMem rxMem : Mem) :
    (setUp txFrames rxFrames txMem rxMem).Kept :=
  ⟨GmacTx.Kept.setUp _ _, GmacRx.Kept.setUp _ _, rfl⟩

theorem recovery_not_right {s : GmacRings} {dmaStatus : U32}
    (error : dmaStatus &&& dmaIntErrorMask ≠ 0) : ¬(s.step (.interrupt dmaStatus)).Right := by
  intro right
  have recovered : (s.step (.interrupt dmaStatus)).recovered = true := decide_eq_true error
  have first := (right.refilled recovered 0 receiveDescSize_pos).1
  have emptied : (s.step (.interrupt dmaStatus)).rx.descs 0 = synopGMACRxDescInitRing false := by
    change (s.rx.nuGmacIsr dmaStatus).descs 0 = _
    rw [GmacRx.nuGmacIsr, if_pos error]
    rfl
  rw [emptied] at first
  exact rxInit_not_owned _ first

theorem calm_kept {s : GmacRings} {dmaStatus : U32} (h : s.Kept)
    (calm : dmaStatus &&& dmaIntErrorMask = 0) : (s.step (.interrupt dmaStatus)).Kept := by
  have none : ¬dmaStatus &&& dmaIntErrorMask ≠ 0 := not_not.mpr calm
  have same : s.step (.interrupt dmaStatus) = { s with
      tx := if dmaStatus &&& dmaIntTxStoppedMask ≠ 0 then s.tx.synopGMACTakeDescOwnershipTx
        else s.tx
      recovered := false } := by
    simp only [step, GmacTx.nuGmacIsr, GmacRx.nuGmacIsr, if_neg none, decide_eq_false none]
  rw [same]
  refine ⟨?_, h.rx, rfl⟩
  dsimp only
  split_ifs
  · exact h.tx.stopped
  · exact h.tx

theorem step_kept {s : GmacRings} (h : s.Kept) (e : GmacEvent) :
    ((s.step e).Right ↔ s.Meets e) ∧ (s.Meets e → (s.step e).Kept) := by
  have always {t : GmacRings} (next : t.Kept) : (t.Right ↔ True) ∧ (True → t.Kept) :=
    ⟨iff_of_true next.right trivial, fun _ => next⟩
  cases e with
  | setTx buffer1 length1 =>
    obtain ⟨exact_, kept⟩ := h.tx.setTx_iff buffer1 length1
    have next (meets : s.Meets (.setTx buffer1 length1)) :
        (s.step (.setTx buffer1 length1)).Kept := ⟨kept meets, h.rx, rfl⟩
    exact ⟨⟨fun right => exact_.mp right.tx, fun meets => (next meets).right⟩, next⟩
  | getTx => exact always ⟨h.tx.getTx, h.rx, rfl⟩
  | done d => exact always ⟨h.tx.done d, h.rx, rfl⟩
  | setRx buffer1 => exact always ⟨h.tx, h.rx.setRx buffer1, rfl⟩
  | getRx => exact always ⟨h.tx, h.rx.getRx, rfl⟩
  | receive frame => exact always ⟨h.tx, h.rx.receive frame, rfl⟩
  | interrupt dmaStatus =>
    by_cases calm : dmaStatus &&& dmaIntErrorMask = 0
    · have next := calm_kept h calm
      exact ⟨iff_of_true next.right calm, fun _ => next⟩
    · exact ⟨iff_of_false (recovery_not_right calm) calm, fun meets => absurd meets calm⟩

/-- The rings are right throughout a run exactly where there is no fatal bus error and no frame
goes to a descriptor that is queued already. -/
theorem rings_right_iff (txFrames rxFrames : FrameArea) (txMem rxMem : Mem) (es : List GmacEvent) :
    (∀ pre, pre <+: es → (pre.foldl step (setUp txFrames rxFrames txMem rxMem)).Right) ↔
      Runs.StepsMeet step Meets (setUp txFrames rxFrames txMem rxMem) es :=
  Runs.prefixes_hold_iff Kept Right (fun _ h => h.right) (fun _ e h => (step_kept h e).1)
    (fun _ e h => (step_kept h e).2) (setUp_kept ..) es

/-- A frame of 60 bytes is queued and a fatal bus error follows: `synopGMAC_init_tx_rx_desc_queue`
sets the indices to the first descriptor and leaves the pointers at the second. -/
theorem recovered_pointers_differ :
    let s := [.setTx 0x80000000 60, .interrupt 0x2000].foldl step
      (setUp ⟨0x80000000, by decide⟩ ⟨0x80010000, by decide⟩ (fun _ => 0) fun _ => 0)
    s.tx.txNext = 0 ∧ s.tx.txNextDesc = 1 ∧ s.tx.busyTxDesc = 1 ∧ ¬s.Right := by
  refine ⟨?_, ?_, ?_, recovery_not_right (by decide)⟩
  all_goals decide

end GmacRings

end NuMakerMA35
