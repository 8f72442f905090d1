import NuMakerMA35.GmacTxRing

namespace NuMakerMA35

namespace GmacTx

open Words NuMakerMA35.Ring
open scoped List

def pendingAt (s : GmacTx) (i : Nat) : Option (List Byte) :=
  if synopGMACIsDescOwnedByDma (s.descs i) then some (frameOf s.mem (s.descs i)) else none

def pending (s : GmacTx) : List (List Byte) := (List.range transmitDescSize).filterMap s.pendingAt

/-- No copy went to a queued buffer or beyond its buffer, and each frame accepted was sent once or
waits, with its own bytes. -/
def BuffersSound (s : GmacTx) : Prop :=
  (∀ w ∈ s.writes, w.free = true ∧ w.len ≤ pktFrameBufSize) ∧
    s.accepted.Perm (s.sent ++ s.pending)

/-- A call copies a frame that fits to a free buffer and does not fill a descriptor of the DMA; an
interrupt that stops the DMA finds no frame waiting. -/
def StepSound (s : GmacTx) : TxEvent → Prop
  | .tx p _ => p.flatten.length ≤ pktFrameBufSize ∧ s.BufferFree s.txNext ∧
      ¬(synopGMACIsDescOwnedByDma (s.descs s.txNextDesc) ∧
        synopGMACIsDescEmpty (s.descs s.txNextDesc))
  | .done _ => True
  | .interrupt dmaStatus =>
      dmaStatus &&& dmaIntErrorMask ≠ 0 ∨ dmaStatus &&& dmaIntTxStoppedMask ≠ 0 →
        ∀ i, i < transmitDescSize → ¬synopGMACIsDescOwnedByDma (s.descs i)

section Pending

variable {s t : GmacTx}

theorem pending_congr (h : ∀ i, i < transmitDescSize → t.pendingAt i = s.pendingAt i) :
    t.pending = s.pending := by
  apply List.filterMap_congr
  intro i hi
  exact h i (List.mem_range.mp hi)

theorem pendingAt_owned {i : Nat} (owned : synopGMACIsDescOwnedByDma (s.descs i)) :
    s.pendingAt i = some (frameOf s.mem (s.descs i)) := if_pos owned

theorem pendingAt_other {i : Nat} (given : ¬synopGMACIsDescOwnedByDma (s.descs i)) :
    s.pendingAt i = none := if_neg given

theorem pendingAt_congr {i : Nat} (desc : t.descs i = s.descs i)
    (bytes : synopGMACIsDescOwnedByDma (s.descs i) →
      frameOf t.mem (s.descs i) = frameOf s.mem (s.descs i)) : t.pendingAt i = s.pendingAt i := by
  by_cases owned : synopGMACIsDescOwnedByDma (s.descs i)
  · rw [pendingAt_owned owned, pendingAt_owned (desc ▸ owned), desc, bytes owned]
  · rw [pendingAt_other owned, pendingAt_other (desc ▸ owned)]

theorem transmitDone_ledger (s : GmacTx) (d : TxDone) :
    ((s.transmitDone d).sent ++ (s.transmitDone d).pending).Perm (s.sent ++ s.pending) := by
  by_cases owned : d.index < transmitDescSize ∧ synopGMACIsDescOwnedByDma (s.descs d.index)
  · have now : (s.transmitDone d).pendingAt d.index = none := by
      apply pendingAt_other
      rw [transmitDone_owned owned.1 owned.2]
      dsimp only
      rw [Function.update_self]
      exact doneDesc_not_owned _ _
    have others (j : Nat) (_ : j < transmitDescSize) (other : j ≠ d.index) :
        s.pendingAt j = (s.transmitDone d).pendingAt j := by
      rw [transmitDone_owned owned.1 owned.2]
      symm
      exact pendingAt_congr (Function.update_of_ne other ..) fun _ => rfl
    have moved := filterMap_range_perm owned.1 others now (pendingAt_owned owned.2)
    have sent : (s.transmitDone d).sent = s.sent ++ [frameOf s.mem (s.descs d.index)] := by
      rw [transmitDone_owned owned.1 owned.2]
    rw [sent, List.append_assoc]
    exact moved.symm.append_left s.sent
  · rw [transmitDone_other owned]

theorem transmitDones_ledger (ds : List TxDone) (s : GmacTx) :
    ((ds.foldl transmitDone s).sent ++ (ds.foldl transmitDone s).pending).Perm
      (s.sent ++ s.pending) := by
  induction ds generalizing s with
  | nil => exact .refl _
  | cons d ds ih => exact (ih (s.transmitDone d)).trans (transmitDone_ledger s d)

theorem reclaimed_pending (given : ¬synopGMACIsDescOwnedByDma (s.descs s.txBusyDesc)) :
    s.reclaimed.pending = s.pending := by
  apply pending_congr
  intro i _
  by_cases here : i = s.txBusyDesc
  · subst here
    rw [pendingAt_other given]
    apply pendingAt_other
    rw [reclaimed]
    dsimp only
    rw [Function.update_self]
    exact txInit_not_owned _
  · exact pendingAt_congr (Function.update_of_ne here ..) fun _ => rfl

end Pending

def Placed (s : GmacTx) : Prop :=
  ∀ i, i < transmitDescSize → Queued (s.descs i) →
    (∃ j, j < transmitDescSize ∧ (s.descs i).buffer1 = s.frames.ptr j) ∧
      ((s.descs i).length &&& descSize1Mask).toNat ≤ pktFrameBufSize

section Steps

variable {s : GmacTx}

theorem Placed.done (h : s.Placed) (d : TxDone) : (s.transmitDone d).Placed := by
  by_cases owned : d.index < transmitDescSize ∧ synopGMACIsDescOwnedByDma (s.descs d.index)
  · rw [transmitDone_owned owned.1 owned.2]
    intro i hi queued
    dsimp only at queued ⊢
    by_cases here : i = d.index
    · subst here
      rw [Function.update_self]
      exact h d.index hi (.inl owned.2)
    · rw [Function.update_of_ne here] at queued ⊢
      exact h i hi queued
  · rw [transmitDone_other owned]
    exact h

theorem Placed.dones (ds : List TxDone) (h : s.Placed) : (ds.foldl transmitDone s).Placed := by
  induction ds generalizing s with
  | nil => exact h
  | cons d ds ih => exact ih (h.done d)

theorem Placed.reclaimed (h : s.Placed) : s.reclaimed.Placed := by
  intro i hi queued
  unfold GmacTx.reclaimed at queued ⊢
  dsimp only at queued ⊢
  by_cases here : i = s.txBusyDesc
  · subst here
    rw [Function.update_self] at queued
    rcases queued with owned | full
    · exact absurd owned (txInit_not_owned _)
    · exact absurd (txInit_empty _) full
  · rw [Function.update_of_ne here] at queued ⊢
    exact h i hi queued

theorem copied_mem (s : GmacTx) {p : List (List Byte)} (fits : p.flatten.length ≤ pktFrameBufSize) :
    (s.copied p).mem = blit s.mem (s.frames.addr s.txNext) p.flatten := by
  have short : ([] : List Byte).length + p.flatten.length < 2 ^ 32 := by
    unfold pktFrameBufSize at fits
    simp only [List.length_nil]
    omega
  have blank : blit s.mem (s.frames.addr s.txNext) [] = s.mem := by
    funext x
    exact blit_outside (by simp only [List.length_nil]; omega)
  have copy := copyPbufs_mem (s.frames.addr s.txNext) p s.mem short
  rw [blank] at copy
  exact copy

theorem copied_frameOf (h : s.Placed) {p : List (List Byte)}
    (fits : p.flatten.length ≤ pktFrameBufSize) (free : s.BufferFree s.txNext) {i : Nat}
    (hi : i < transmitDescSize) (queued : Queued (s.descs i)) :
    frameOf (s.copied p).mem (s.descs i) = frameOf s.mem (s.descs i) := by
  obtain ⟨⟨j, hj, buffer⟩, size⟩ := h i hi queued
  have other : j ≠ s.txNext := by
    rintro rfl
    exact free i hi queued buffer
  unfold frameOf
  rw [copied_mem s fits, buffer, s.frames.ptr_toNat hj]
  apply slice_blit_outside
  rcases Nat.lt_or_gt_of_ne other with below | above
  · have apart := s.frames.addr_apart below
    omega
  · have apart := s.frames.addr_apart above
    omega

end Steps

section Call

variable {s : GmacTx} {p : List (List Byte)}

theorem copied_pending (h : s.Placed) (fits : p.flatten.length ≤ pktFrameBufSize)
    (free : s.BufferFree s.txNext) : (s.copied p).pending = s.pending := by
  apply pending_congr
  intro i hi
  exact pendingAt_congr rfl fun owned => copied_frameOf h fits free hi (.inl owned)

theorem loaded_frame (r : s.TxRing) (fits : p.flatten.length ≤ pktFrameBufSize)
    (empty : synopGMACIsDescEmpty (s.descs s.txNextDesc)) :
    (s.loaded p).pendingAt s.txNextDesc = some p.flatten := by
  have here : (s.loaded p).descs s.txNextDesc =
      queuedDesc (s.descs s.txNextDesc) (s.frames.ptr s.txNext) (pktLen p) :=
    Function.update_self ..
  have memory : (s.loaded p).mem = blit s.mem (s.frames.addr s.txNext) p.flatten :=
    copied_mem s fits
  have index : s.txNext < transmitDescSize := Nat.lt_of_le_of_lt r.index r.next
  have bytes : p.flatten.length % 8192 = p.flatten.length := by
    unfold pktFrameBufSize at fits
    exact Nat.mod_eq_of_lt (by omega)
  rw [pendingAt_owned (here ▸ queuedDesc_owned _ _ _), here, memory]
  unfold frameOf
  rw [queuedDesc_size _ _ _ empty, pktLen_size, bytes]
  change some (slice _ (s.frames.ptr s.txNext).toNat _) = _
  rw [s.frames.ptr_toNat index, slice_blit]

theorem loaded_pending (r : s.TxRing) (h : s.Placed) (fits : p.flatten.length ≤ pktFrameBufSize)
    (free : s.BufferFree s.txNext) (empty : synopGMACIsDescEmpty (s.descs s.txNextDesc))
    (given : ¬synopGMACIsDescOwnedByDma (s.descs s.txNextDesc)) :
    (s.loaded p).pending.Perm (p.flatten :: s.pending) := by
  refine filterMap_range_perm r.next ?_ (pendingAt_other given) (loaded_frame r fits empty)
  intro j hj other
  have desc : (s.loaded p).descs j = s.descs j := Function.update_of_ne other ..
  exact pendingAt_congr desc fun owned => copied_frameOf h fits free hj (.inl owned)

theorem loaded_placed (r : s.TxRing) (h : s.Placed) (fits : p.flatten.length ≤ pktFrameBufSize)
    (empty : synopGMACIsDescEmpty (s.descs s.txNextDesc)) : (s.loaded p).Placed := by
  intro i hi queued
  by_cases here : i = s.txNextDesc
  · subst here
    have desc : (s.loaded p).descs s.txNextDesc =
      queuedDesc (s.descs s.txNextDesc) (s.frames.ptr s.txNext) (pktLen p) :=
      Function.update_self ..
    have index : s.txNext < transmitDescSize := Nat.lt_of_le_of_lt r.index r.next
    rw [desc, queuedDesc_size _ _ _ empty, pktLen_size]
    exact ⟨⟨s.txNext, index, rfl⟩, (Nat.mod_le _ _).trans fits⟩
  · have desc : (s.loaded p).descs i = s.descs i := Function.update_of_ne here ..
    rw [desc] at queued ⊢
    exact h i hi queued

theorem loaded_pending_length
    (owned : synopGMACIsDescOwnedByDma (s.descs s.txNextDesc)) :
    (s.loaded p).pending.length = s.pending.length := by
  unfold pending
  rw [List.length_filterMap_eq_countP, List.length_filterMap_eq_countP]
  apply List.countP_congr
  intro i _
  have some (t : GmacTx) : (t.pendingAt i).isSome = true ↔ synopGMACIsDescOwnedByDma (t.descs i) := by
    unfold pendingAt
    split_ifs with mine
    · exact iff_of_true rfl mine
    · exact iff_of_false (by simp) mine
  rw [some, some]
  by_cases here : i = s.txNextDesc
  · subst here
    have desc : (s.loaded p).descs s.txNextDesc =
      queuedDesc (s.descs s.txNextDesc) (s.frames.ptr s.txNext) (pktLen p) :=
      Function.update_self ..
    rw [desc]
    exact iff_of_true (queuedDesc_owned _ _ _) owned
  · have desc : (s.loaded p).descs i = s.descs i := Function.update_of_ne here ..
    rw [desc]

theorem over_ledger (looks : Nat → List TxDone) {t : GmacTx} (r : t.TxRing) :
    (t.synopHandleTransmitOver looks).accepted = t.accepted ∧
      ((t.synopHandleTransmitOver looks).sent ++ (t.synopHandleTransmitOver looks).pending).Perm
        (t.sent ++ t.pending) := by
  refine (over_invariant (fun u => u.accepted = t.accepted ∧
    (u.sent ++ u.pending).Perm (t.sent ++ t.pending)) ?_ ?_ r ⟨rfl, .refl _⟩).2
  · rintro u d - ⟨accepted, ledger⟩
    obtain ⟨-, -, -, -, -, same, -⟩ := transmitDone_keeps u d
    exact ⟨same.trans accepted, (transmitDone_ledger u d).trans ledger⟩
  · rintro u - ⟨accepted, ledger⟩ given
    refine ⟨accepted, ?_⟩
    rw [reclaimed_pending given]
    exact ledger

theorem over_placed {looks : Nat → List TxDone} {t : GmacTx} (r : t.TxRing) (h : t.Placed) :
    (t.synopHandleTransmitOver looks).Placed :=
  (over_invariant Placed (fun _ d _ placed => placed.done d) (fun _ _ placed _ => placed.reclaimed)
    r h).2

end Call

theorem pending_nil_iff (s : GmacTx) :
    s.pending = [] ↔ ∀ i, i < transmitDescSize → ¬synopGMACIsDescOwnedByDma (s.descs i) := by
  unfold pending
  rw [List.filterMap_eq_nil_iff]
  constructor
  · intro none i hi owned
    have here := none i (List.mem_range.mpr hi)
    rw [pendingAt_owned owned] at here
    cases here
  · intro given i hi
    exact pendingAt_other (given i (List.mem_range.mp hi))

theorem nuGmacTx_sound_iff {s : GmacTx} (r : s.TxRing) (h : s.Placed) (sound : s.BuffersSound)
    (p : List (List Byte)) (o : TxProgress) :
    ((s.nuGmacTx p o).2.BuffersSound ↔ s.StepSound (.tx p o)) ∧
      (s.StepSound (.tx p o) → (s.nuGmacTx p o).2.Placed) := by
  have last : (⟨s.txNext, p.flatten.length, s.BufferFree s.txNext⟩ : TxWrite) ∈
      (s.nuGmacTx p o).2.writes := by
    rw [nuGmacTx_writes p o r]
    simp
  have writes (fits : p.flatten.length ≤ pktFrameBufSize) (free : s.BufferFree s.txNext) :
      ∀ w ∈ (s.nuGmacTx p o).2.writes, w.free = true ∧ w.len ≤ pktFrameBufSize := by
    intro w hw
    rw [nuGmacTx_writes p o r] at hw
    rcases List.mem_append.mp hw with old | new
    · exact sound.1 w old
    · rw [List.mem_singleton.mp new]
      exact ⟨decide_eq_true free, fits⟩
  by_cases empty : synopGMACIsDescEmpty (s.descs s.txNextDesc)
  · have call := nuGmacTx_accepts p o r empty
    obtain ⟨accepted, ledger⟩ := over_ledger o.looks (r.loaded p)
    have nowAccepted : (s.nuGmacTx p o).2.accepted = s.accepted ++ [p.flatten] := by
      rw [call]
      exact accepted
    have nowLedger : ((s.nuGmacTx p o).2.sent ++ (s.nuGmacTx p o).2.pending).Perm
        (s.sent ++ (s.loaded p).pending) := by
      rw [call]
      exact ledger
    have placed (fits : p.flatten.length ≤ pktFrameBufSize) : (s.nuGmacTx p o).2.Placed := by
      rw [call]
      exact over_placed (r.loaded p) (loaded_placed r h fits empty)
    refine ⟨⟨?_, ?_⟩, fun good => placed good.1⟩
    · intro now
      obtain ⟨free, fits⟩ := now.1 _ last
      refine ⟨fits, of_decide_eq_true free, ?_⟩
      rintro ⟨owned, -⟩
      have more := now.2.length_eq
      rw [nowAccepted, List.length_append, nowLedger.length_eq, List.length_append,
        loaded_pending_length owned, sound.2.length_eq, List.length_append] at more
      simp at more
    · rintro ⟨fits, free, notOwned⟩
      refine ⟨writes fits free, ?_⟩
      have given : ¬synopGMACIsDescOwnedByDma (s.descs s.txNextDesc) :=
        fun owned => notOwned ⟨owned, empty⟩
      have added := loaded_pending r h fits free empty given
      rw [nowAccepted]
      calc s.accepted ++ [p.flatten]
          _ ~ s.sent ++ s.pending ++ [p.flatten] := sound.2.append_right _
          _ ~ s.sent ++ (p.flatten :: s.pending) := by
            rw [List.append_assoc]
            exact (List.perm_append_singleton _ _).append_left _
          _ ~ s.sent ++ (s.loaded p).pending := added.symm.append_left _
          _ ~ _ := nowLedger.symm
  · obtain ⟨ds, refused⟩ := nuGmacTx_refuses p o empty
    refine ⟨⟨?_, ?_⟩, ?_⟩
    · intro now
      obtain ⟨free, fits⟩ := now.1 _ last
      exact ⟨fits, of_decide_eq_true free, fun both => empty both.2⟩
    · rintro ⟨fits, free, -⟩
      refine ⟨writes fits free, ?_⟩
      rw [refused]
      have kept := (transmitDones_keep (s.copied p) ds).accepted
      dsimp only
      rw [kept]
      have same := copied_pending h fits free
      have ledger := transmitDones_ledger ds (s.copied p)
      rw [same] at ledger
      exact sound.2.trans ledger.symm
    · intro _
      rw [refused]
      exact Placed.dones ds (s := s.copied p) h

theorem isr_given (s : GmacTx) {dmaStatus : U32} (stops : dmaStatus &&& dmaIntErrorMask ≠ 0 ∨
    dmaStatus &&& dmaIntTxStoppedMask ≠ 0) (i : Nat) :
    ¬synopGMACIsDescOwnedByDma ((s.nuGmacIsr dmaStatus).descs i) := by
  unfold nuGmacIsr
  dsimp only
  split_ifs with stopped error error
  · exact takenDesc_not_owned _
  · exact takenDesc_not_owned _
  · exact txInit_not_owned _
  · exact absurd stops (not_or.mpr ⟨error, stopped⟩)

theorem isr_frames (s : GmacTx) (dmaStatus : U32) : (s.nuGmacIsr dmaStatus).sent = s.sent ∧
    (s.nuGmacIsr dmaStatus).accepted = s.accepted := by
  unfold nuGmacIsr
  dsimp only
  split_ifs <;> exact ⟨rfl, rfl⟩

theorem Placed.isr {s : GmacTx} (h : s.Placed) (dmaStatus : U32) :
    (s.nuGmacIsr dmaStatus).Placed := by
  have taken {t : GmacTx} (placed : t.Placed) : t.synopGMACTakeDescOwnershipTx.Placed := by
    intro i hi queued
    rcases queued with owned | full
    · exact absurd owned (takenDesc_not_owned _)
    · exact placed i hi (.inr full)
  have emptied (t : GmacTx) : t.synopGMACInitTxDescQueue.Placed := by
    intro i hi queued
    rcases queued with owned | full
    · exact absurd owned (txInit_not_owned _)
    · exact absurd (txInit_empty _) full
  unfold nuGmacIsr
  dsimp only
  split_ifs
  · exact taken (emptied _)
  · exact taken h
  · exact emptied _
  · exact h

theorem isr_sound_iff {s : GmacTx} (sound : s.BuffersSound) (dmaStatus : U32) :
    (s.nuGmacIsr dmaStatus).BuffersSound ↔ s.StepSound (.interrupt dmaStatus) := by
  obtain ⟨sent, accepted⟩ := isr_frames s dmaStatus
  by_cases stops : dmaStatus &&& dmaIntErrorMask ≠ 0 ∨ dmaStatus &&& dmaIntTxStoppedMask ≠ 0
  · have none := (pending_nil_iff (s.nuGmacIsr dmaStatus)).mpr fun i _ => isr_given s stops i
    have before : s.StepSound (.interrupt dmaStatus) ↔ s.pending = [] :=
      (forall_prop_of_true stops).trans (pending_nil_iff s).symm
    rw [before]
    unfold BuffersSound
    rw [(isr_keeps s dmaStatus).2, sent, accepted, none, List.append_nil]
    constructor
    · rintro ⟨-, all⟩
      have size := all.length_eq
      rw [sound.2.length_eq, List.length_append] at size
      exact List.eq_nil_of_length_eq_zero (by omega)
    · intro empty
      have all := sound.2
      rw [empty, List.append_nil] at all
      exact ⟨sound.1, all⟩
  · obtain ⟨error, stopped⟩ := not_or.mp stops
    have same : s.nuGmacIsr dmaStatus = s := by
      unfold nuGmacIsr
      rw [if_neg error, if_neg stopped]
    rw [same]
    exact iff_of_true sound fun now => absurd now stops

theorem done_sound {s : GmacTx} (sound : s.BuffersSound) (d : TxDone) :
    (s.transmitDone d).BuffersSound := by
  obtain ⟨-, -, -, -, -, accepted, writes⟩ := transmitDone_keeps s d
  unfold BuffersSound
  rw [accepted, writes]
  exact ⟨sound.1, sound.2.trans (transmitDone_ledger s d).symm⟩

theorem setup_sound (frames : FrameArea) (mem : Mem) :
    (synopGMACSetupTxDescQueue frames mem).Placed ∧
      (synopGMACSetupTxDescQueue frames mem).BuffersSound := by
  have given (i : Nat) : ¬synopGMACIsDescOwnedByDma ((synopGMACSetupTxDescQueue frames mem).descs i) :=
    txInit_not_owned _
  refine ⟨?_, ?_, ?_⟩
  · intro i hi queued
    rcases queued with owned | full
    · exact absurd owned (given i)
    · exact absurd (txInit_empty _) full
  · intro w hw
    cases hw
  · rw [(pending_nil_iff _).mpr fun i _ => given i]
    exact .refl _

/-- Frames are copied to free buffers and sent as they were accepted, throughout a run, exactly
where each step meets `StepSound`. -/
theorem tx_buffers_sound_iff (frames : FrameArea) (mem : Mem) (events : List TxEvent) :
    (∀ pre, pre <+: events →
      (pre.foldl step (synopGMACSetupTxDescQueue frames mem)).BuffersSound) ↔
      Runs.StepsMeet step StepSound (synopGMACSetupTxDescQueue frames mem) events := by
  obtain ⟨placed, sound⟩ := setup_sound frames mem
  refine Runs.prefixes_hold_iff (fun s => s.TxRing ∧ s.Placed ∧ s.BuffersSound) BuffersSound
    (fun _ h => h.2.2) ?_ ?_ ⟨setup_ring frames mem, placed, sound⟩ events
  · rintro s e ⟨r, placed, sound⟩
    cases e with
    | tx p o => exact (nuGmacTx_sound_iff r placed sound p o).1
    | done d => exact iff_of_true (done_sound sound d) trivial
    | interrupt dmaStatus => exact isr_sound_iff sound dmaStatus
  · rintro s e ⟨r, placed, sound⟩ good
    refine ⟨step_ring r e, ?_⟩
    cases e with
    | tx p o =>
      obtain ⟨exact_step, kept⟩ := nuGmacTx_sound_iff r placed sound p o
      exact ⟨kept good, exact_step.mpr good⟩
    | done d => exact ⟨placed.done d, done_sound sound d⟩
    | interrupt dmaStatus => exact ⟨placed.isr dmaStatus, (isr_sound_iff sound dmaStatus).mpr good⟩

theorem taken_buffer_unsound {s : GmacTx} (r : s.TxRing) (taken : ¬s.BufferFree s.txNext)
    (p : List (List Byte)) (o : TxProgress) : ¬(s.step (.tx p o)).BuffersSound := by
  change ¬(s.nuGmacTx p o).2.BuffersSound
  rintro ⟨writes, -⟩
  rw [nuGmacTx_writes p o r] at writes
  obtain ⟨free, -⟩ := writes _ (List.mem_append_right _ (List.mem_singleton_self _))
  exact taken (of_decide_eq_true free)

def byteTx (byte : Byte) : TxEvent := .tx [[byte]] ⟨fun _ => [], fun _ => []⟩

def fullRing : GmacTx := (List.replicate 32 (byteTx 1)).foldl step
  (synopGMACSetupTxDescQueue ⟨0x80000000, FrameArea.upperSpace_fits⟩ fun _ => 0)

/-- One frame more is refused, but has overwritten the oldest one, which is still waiting. -/
theorem refusedFrame_overwrites : ¬(fullRing.step (byteTx 2)).BuffersSound := by
  have ring (n : Nat) : ((List.replicate n (byteTx 1)).foldl step
      (synopGMACSetupTxDescQueue ⟨0x80000000, FrameArea.upperSpace_fits⟩ fun _ => 0)).TxRing := by
    induction n with
    | zero => exact setup_ring _ _
    | succ n ih =>
      rw [List.replicate_succ', List.foldl_append]
      exact step_ring ih (byteTx 1)
  have owned : synopGMACIsDescOwnedByDma (fullRing.descs 0) := by decide +kernel
  have first : (fullRing.descs 0).buffer1 = 0x80000000 := by decide +kernel
  have next : fullRing.txNext = 0 := by decide +kernel
  have base : fullRing.frames.base = 0x80000000 := by decide +kernel
  have buffer : (fullRing.descs 0).buffer1 = fullRing.frames.ptr fullRing.txNext := by
    rw [first, next, FrameArea.ptr, FrameArea.addr, base]
    rfl
  have here : fullRing.TxRing := ring 32
  have taken : ¬fullRing.BufferFree fullRing.txNext :=
    fun free => free 0 transmitDescSize_pos (.inl owned) buffer
  exact taken_buffer_unsound here taken [[2]] ⟨fun _ => [], fun _ => []⟩

end GmacTx

end NuMakerMA35
