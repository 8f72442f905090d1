import NuMakerMA35.GmacTx

namespace NuMakerMA35

open Words NuMakerMA35.Ring

section Words

variable {x y m e c : U32}

theorem and_mask (h : m &&& e = c) : x &&& m &&& e = x &&& c := by
  rw [BitVec.and_assoc, h]

theorem or_and_mask (h : m &&& e = 0) : (x ||| y &&& m) &&& e = x &&& e := by
  rw [BitVec.and_or_distrib_right, and_mask h]
  simp

end Words

namespace GmacTx

def doneDesc (desc : DmaDesc) (status : U32) : DmaDesc := { desc with
  status := desc.status &&& ~~~(descOwnByDma ||| txStatusMask) ||| (status &&& txStatusMask) }

def queuedDesc (desc : DmaDesc) (buffer1 length1 : U32) : DmaDesc where
  status := synopGMACTxChecksumOffload descTxCisTcpPseudoCs
    (synopGMACTxChecksumOffload descTxCisTcpOnlyCs
      (synopGMACTxChecksumOffload descTxCisIpv4HdrCs
        (desc.status ||| (descTxFirst ||| descTxLast ||| descTxIntEnable ||| 0)))) ||| descOwnByDma
  length := desc.length ||| (length1 &&& descSize1Mask)
  buffer1 := buffer1

def takenDesc (desc : DmaDesc) : DmaDesc := { desc with status := desc.status &&& ~~~descOwnByDma }

section Descriptors

variable (desc : DmaDesc) (status buffer1 length1 : U32) (last : Bool)

theorem doneDesc_not_owned : ¬synopGMACIsDescOwnedByDma (doneDesc desc status) := by
  unfold synopGMACIsDescOwnedByDma doneDesc
  rw [or_and_mask (by decide), and_mask (c := 0) (by decide)]
  simp [descOwnByDma]

theorem doneDesc_last :
    synopGMACIsLastTxDesc (doneDesc desc status) ↔ synopGMACIsLastTxDesc desc := by
  unfold synopGMACIsLastTxDesc doneDesc
  rw [or_and_mask (by decide), and_mask (c := txDescEndOfRing) (by decide)]

theorem takenDesc_not_owned : ¬synopGMACIsDescOwnedByDma (takenDesc desc) := by
  unfold synopGMACIsDescOwnedByDma takenDesc
  rw [and_mask (c := 0) (by decide)]
  simp [descOwnByDma]

theorem takenDesc_last : synopGMACIsLastTxDesc (takenDesc desc) ↔ synopGMACIsLastTxDesc desc := by
  unfold synopGMACIsLastTxDesc takenDesc
  rw [and_mask (c := txDescEndOfRing) (by decide)]

theorem queuedDesc_owned : synopGMACIsDescOwnedByDma (queuedDesc desc buffer1 length1) := by
  unfold synopGMACIsDescOwnedByDma queuedDesc
  rw [BitVec.and_or_distrib_right, BitVec.and_self]
  apply BitVec.eq_of_getLsbD_eq
  intro i hi
  simp only [BitVec.getLsbD_or, BitVec.getLsbD_and]
  cases descOwnByDma.getLsbD i <;> simp

theorem queuedDesc_last :
    synopGMACIsLastTxDesc (queuedDesc desc buffer1 length1) ↔ synopGMACIsLastTxDesc desc := by
  have offload (cis x : U32) (h : cis &&& txDescEndOfRing = 0) :
      synopGMACTxChecksumOffload cis x &&& txDescEndOfRing = x &&& txDescEndOfRing := by
    unfold synopGMACTxChecksumOffload
    rw [BitVec.and_or_distrib_right, h, and_mask (c := txDescEndOfRing) (by decide)]
    simp
  have more : (descTxFirst ||| descTxLast ||| descTxIntEnable ||| 0) &&& txDescEndOfRing = 0 := by
    decide
  have own : descOwnByDma &&& txDescEndOfRing = 0 := by decide
  unfold synopGMACIsLastTxDesc queuedDesc
  rw [BitVec.and_or_distrib_right, own, offload _ _ (by decide), offload _ _ (by decide),
    offload _ _ (by decide), BitVec.and_or_distrib_right, more]
  simp

theorem queuedDesc_empty (h : synopGMACIsDescEmpty desc) :
    synopGMACIsDescEmpty (queuedDesc desc buffer1 length1) ↔ length1 &&& descSize1Mask = 0 := by
  unfold synopGMACIsDescEmpty queuedDesc
  rw [BitVec.and_or_distrib_right, h.1, or_and_mask (by decide), h.2,
    and_mask (c := descSize1Mask) (by decide)]
  simp

theorem queuedDesc_size (h : synopGMACIsDescEmpty desc) :
    (queuedDesc desc buffer1 length1).length &&& descSize1Mask = length1 &&& descSize1Mask := by
  unfold queuedDesc
  rw [BitVec.and_or_distrib_right, h.1, and_mask (c := descSize1Mask) (by decide)]
  simp

theorem txInit_empty : synopGMACIsDescEmpty (synopGMACTxDescInitRing last) := by
  cases last <;> decide

theorem txInit_not_owned : ¬synopGMACIsDescOwnedByDma (synopGMACTxDescInitRing last) := by
  cases last <;> decide

theorem txInit_last : synopGMACIsLastTxDesc (synopGMACTxDescInitRing last) ↔ last = true := by
  cases last <;> decide

end Descriptors

structure TxRing (s : GmacTx) : Prop where
  next : s.txNextDesc < transmitDescSize
  busy : s.txBusyDesc < transmitDescSize
  index : s.txNext ≤ s.txNextDesc
  last : ∀ i, i < transmitDescSize →
    (synopGMACIsLastTxDesc (s.descs i) ↔ i = transmitDescSize - 1)

theorem transmitDescSize_pos : 0 < transmitDescSize := by decide

theorem round_lt (k : Nat) : k % transmitDescSize < transmitDescSize :=
  Nat.mod_lt _ transmitDescSize_pos

theorem TxRing.update {s : GmacTx} (r : s.TxRing) {j : Nat} {desc : DmaDesc}
    (same : synopGMACIsLastTxDesc desc ↔ synopGMACIsLastTxDesc (s.descs j)) :
    ∀ i, i < transmitDescSize →
      (synopGMACIsLastTxDesc (Function.update s.descs j desc i) ↔ i = transmitDescSize - 1) := by
  intro i hi
  by_cases here : i = j
  · subst here
    rw [Function.update_self, same]
    exact r.last i hi
  · rw [Function.update_of_ne here]
    exact r.last i hi

section Done

variable {s : GmacTx} {d : TxDone}

theorem transmitDone_owned (hi : d.index < transmitDescSize)
    (owned : synopGMACIsDescOwnedByDma (s.descs d.index)) : s.transmitDone d = { s with
      descs := Function.update s.descs d.index (doneDesc (s.descs d.index) d.status)
      sent := s.sent ++ [frameOf s.mem (s.descs d.index)] } := if_pos ⟨hi, owned⟩

theorem transmitDone_other
    (h : ¬(d.index < transmitDescSize ∧ synopGMACIsDescOwnedByDma (s.descs d.index))) :
    s.transmitDone d = s := if_neg h

theorem transmitDone_keeps (s : GmacTx) (d : TxDone) :
    (s.transmitDone d).frames = s.frames ∧ (s.transmitDone d).txNext = s.txNext ∧
      (s.transmitDone d).txNextDesc = s.txNextDesc ∧
      (s.transmitDone d).txBusyDesc = s.txBusyDesc ∧ (s.transmitDone d).mem = s.mem ∧
      (s.transmitDone d).accepted = s.accepted ∧ (s.transmitDone d).writes = s.writes := by
  unfold transmitDone
  dsimp only
  split_ifs <;> exact ⟨rfl, rfl, rfl, rfl, rfl, rfl, rfl⟩

theorem transmitDone_empty (s : GmacTx) (d : TxDone) (i : Nat) :
    synopGMACIsDescEmpty ((s.transmitDone d).descs i) ↔ synopGMACIsDescEmpty (s.descs i) := by
  by_cases owned : d.index < transmitDescSize ∧ synopGMACIsDescOwnedByDma (s.descs d.index)
  · rw [transmitDone_owned owned.1 owned.2]
    dsimp only
    by_cases here : i = d.index
    · subst here
      rw [Function.update_self]
      rfl
    · rw [Function.update_of_ne here]
  · rw [transmitDone_other owned]

theorem transmitDone_owns (s : GmacTx) (d : TxDone) {i : Nat} (hi : i < transmitDescSize) :
    synopGMACIsDescOwnedByDma ((s.transmitDone d).descs i) ↔
      synopGMACIsDescOwnedByDma (s.descs i) ∧ d.index ≠ i := by
  by_cases owned : d.index < transmitDescSize ∧ synopGMACIsDescOwnedByDma (s.descs d.index)
  · rw [transmitDone_owned owned.1 owned.2]
    dsimp only
    by_cases here : i = d.index
    · subst here
      rw [Function.update_self]
      exact iff_of_false (doneDesc_not_owned _ _) fun both => both.2 rfl
    · rw [Function.update_of_ne here]
      exact ⟨fun h => ⟨h, Ne.symm here⟩, fun h => h.1⟩
  · rw [transmitDone_other owned]
    refine ⟨fun h => ⟨h, ?_⟩, fun h => h.1⟩
    rintro rfl
    exact owned ⟨hi, h⟩

theorem TxRing.transmitDone (r : s.TxRing) (d : TxDone) : (s.transmitDone d).TxRing := by
  by_cases owned : d.index < transmitDescSize ∧ synopGMACIsDescOwnedByDma (s.descs d.index)
  · rw [transmitDone_owned owned.1 owned.2]
    exact ⟨r.next, r.busy, r.index, r.update (doneDesc_last _ _)⟩
  · rw [transmitDone_other owned]
    exact r

end Done

structure DoneKeeps (s t : GmacTx) : Prop where
  frames : t.frames = s.frames
  txNext : t.txNext = s.txNext
  next : t.txNextDesc = s.txNextDesc
  busy : t.txBusyDesc = s.txBusyDesc
  mem : t.mem = s.mem
  accepted : t.accepted = s.accepted
  writes : t.writes = s.writes
  empty : ∀ i, synopGMACIsDescEmpty (t.descs i) ↔ synopGMACIsDescEmpty (s.descs i)

theorem transmitDones_keep (s : GmacTx) (ds : List TxDone) :
    s.DoneKeeps (ds.foldl transmitDone s) := by
  induction ds generalizing s with
  | nil => exact ⟨rfl, rfl, rfl, rfl, rfl, rfl, rfl, fun _ => Iff.rfl⟩
  | cons d ds ih =>
    have later := ih (s.transmitDone d)
    obtain ⟨frames, txNext, next, busy, mem, accepted, writes⟩ := transmitDone_keeps s d
    exact ⟨later.frames.trans frames, later.txNext.trans txNext, later.next.trans next,
      later.busy.trans busy, later.mem.trans mem, later.accepted.trans accepted,
      later.writes.trans writes,
      fun i => (later.empty i).trans (transmitDone_empty s d i)⟩

theorem transmitDones_own (s : GmacTx) (ds : List TxDone) {i : Nat} (hi : i < transmitDescSize) :
    synopGMACIsDescOwnedByDma ((ds.foldl transmitDone s).descs i) ↔
      synopGMACIsDescOwnedByDma (s.descs i) ∧ i ∉ ds.map (·.index) := by
  induction ds generalizing s with
  | nil => simp
  | cons d ds ih =>
    rw [List.foldl_cons, ih, transmitDone_owns s d hi, List.map_cons, List.mem_cons, not_or,
      and_assoc]
    exact and_congr_right fun _ => and_congr_left fun _ => ne_comm

theorem TxRing.dones {s : GmacTx} (r : s.TxRing) (ds : List TxDone) :
    (ds.foldl GmacTx.transmitDone s).TxRing := by
  induction ds generalizing s with
  | nil => exact r
  | cons d ds ih => exact ih (r.transmitDone d)

theorem setTxQptr_refuses {s : GmacTx} {buffer1 length1 offload ts : U32}
    (full : ¬synopGMACIsDescEmpty (s.descs s.txNextDesc)) :
    s.synopGMACSetTxQptr buffer1 length1 offload ts = (-1, s) := if_pos full

def queued (s : GmacTx) (buffer1 length1 : U32) : GmacTx := { s with
  descs := Function.update s.descs s.txNextDesc
    (queuedDesc (s.descs s.txNextDesc) buffer1 length1)
  txNext := if s.txNextDesc = transmitDescSize - 1 then 0 else s.txNext + 1
  txNextDesc := (s.txNextDesc + 1) % transmitDescSize
  busyTxDesc := s.busyTxDesc + 1 }

theorem setTxQptr_fills {s : GmacTx} (r : s.TxRing) {buffer1 length1 : U32}
    (empty : synopGMACIsDescEmpty (s.descs s.txNextDesc)) :
    s.synopGMACSetTxQptr buffer1 length1 1 0 = ((s.txNext : Int), s.queued buffer1 length1) := by
  have last : synopGMACIsLastTxDesc (queuedDesc (s.descs s.txNextDesc) buffer1 length1) ↔
      s.txNextDesc = transmitDescSize - 1 :=
    (queuedDesc_last _ _ _).trans (r.last _ r.next)
  unfold synopGMACSetTxQptr
  rw [if_neg (not_not.mpr empty)]
  change ((s.txNext : Int), { s with
    descs := Function.update s.descs s.txNextDesc
      (queuedDesc (s.descs s.txNextDesc) buffer1 length1)
    txNext := if synopGMACIsLastTxDesc (queuedDesc (s.descs s.txNextDesc) buffer1 length1) then 0
      else s.txNext + 1
    txNextDesc := if synopGMACIsLastTxDesc (queuedDesc (s.descs s.txNextDesc) buffer1 length1) then 0
      else s.txNextDesc + 1
    busyTxDesc := s.busyTxDesc + 1 }) = _
  simp only [last, queued, succ_mod r.next]

theorem TxRing.queued {s : GmacTx} (r : s.TxRing) (buffer1 length1 : U32) :
    (s.queued buffer1 length1).TxRing := by
  refine ⟨round_lt _, r.busy, ?_, r.update (queuedDesc_last _ _ _)⟩
  have index := r.index
  unfold GmacTx.queued
  dsimp only
  rw [succ_mod r.next]
  split_ifs
  · exact le_rfl
  · omega

theorem getTxQptr_waits {s : GmacTx} (h : synopGMACIsDescOwnedByDma (s.descs s.txBusyDesc) ∨
    synopGMACIsDescEmpty (s.descs s.txBusyDesc)) : s.synopGMACGetTxQptr = (-1, s) := by
  by_cases owned : synopGMACIsDescOwnedByDma (s.descs s.txBusyDesc)
  · exact if_pos owned
  · unfold synopGMACGetTxQptr
    rw [if_neg owned, if_pos (h.resolve_left owned)]

def reclaimed (s : GmacTx) : GmacTx := { s with
  txBusy := if s.txBusyDesc = transmitDescSize - 1 then 0 else s.txBusy + 1
  txBusyDesc := (s.txBusyDesc + 1) % transmitDescSize
  descs := Function.update s.descs s.txBusyDesc
    (synopGMACTxDescInitRing (s.txBusyDesc = transmitDescSize - 1))
  busyTxDesc := s.busyTxDesc - 1 }

theorem getTxQptr_takes {s : GmacTx} (r : s.TxRing)
    (given : ¬synopGMACIsDescOwnedByDma (s.descs s.txBusyDesc))
    (full : ¬synopGMACIsDescEmpty (s.descs s.txBusyDesc)) :
    s.synopGMACGetTxQptr = ((s.txBusy : Int), s.reclaimed) := by
  unfold synopGMACGetTxQptr reclaimed
  rw [if_neg given, if_neg full]
  simp only [r.last _ r.busy, succ_mod r.busy]

theorem TxRing.reclaimed {s : GmacTx} (r : s.TxRing) : s.reclaimed.TxRing := by
  refine ⟨r.next, round_lt _, r.index, r.update ?_⟩
  rw [txInit_last, r.last _ r.busy, decide_eq_true_iff]

section Xmit

variable (pktData pktLen : U32) (waits : Nat → List TxDone)

theorem xmitFrames_fills {s : GmacTx} (r : s.TxRing)
    (empty : synopGMACIsDescEmpty (s.descs s.txNextDesc)) :
    s.synopGMACXmitFrames pktData pktLen 1 0 waits = (0, s.queued pktData pktLen) := by
  unfold synopGMACXmitFrames defaultLoopVariable xmitTries
  rw [setTxQptr_fills r empty]
  exact if_neg (by omega)

theorem xmitTries_refuses (n : Nat) : ∀ {s : GmacTx} (count : Nat),
    ¬synopGMACIsDescEmpty (s.descs s.txNextDesc) → ∃ ds : List TxDone,
      xmitTries pktData pktLen 1 0 waits n count s = (-1, ds.foldl transmitDone s) := by
  induction n with
  | zero =>
    intro s count _
    exact ⟨[], rfl⟩
  | succ n ih =>
    intro s count full
    have kept := transmitDones_keep s (waits count)
    have still : ¬synopGMACIsDescEmpty (((waits count).foldl transmitDone s).descs
        ((waits count).foldl transmitDone s).txNextDesc) := by
      rwa [kept.empty, kept.next]
    obtain ⟨ds, later⟩ := ih (count + 1) still
    refine ⟨waits count ++ ds, ?_⟩
    unfold xmitTries
    rw [setTxQptr_refuses full, List.foldl_append, ← later]
    rfl

end Xmit

section Copy

theorem copyPbufs_offset (pktData : Nat) (p : List (List Byte)) : ∀ {mem : Mem} {offset : Nat},
    offset < 2 ^ 32 → (copyPbufs pktData p mem offset).2 = (offset + p.flatten.length) % 2 ^ 32 := by
  induction p with
  | nil =>
    intro mem offset low
    exact (Nat.mod_eq_of_lt low).symm
  | cons q p ih =>
    intro mem offset low
    rw [copyPbufs, ih (Nat.mod_lt _ (by decide)), Nat.mod_add_mod, List.flatten_cons,
      List.length_append, Nat.add_assoc]

theorem copyPbufs_mem (pktData : Nat) (p : List (List Byte)) : ∀ (mem : Mem)
    {before : List Byte}, before.length + p.flatten.length < 2 ^ 32 →
      (copyPbufs pktData p (blit mem pktData before) before.length).1 =
        blit mem pktData (before ++ p.flatten) := by
  induction p with
  | nil =>
    intro mem before _
    simp [copyPbufs]
  | cons q p ih =>
    intro mem before fits
    rw [List.flatten_cons, List.length_append] at fits
    have next : (before.length + q.length) % 2 ^ 32 = (before ++ q).length := by
      rw [List.length_append]
      exact Nat.mod_eq_of_lt (by omega)
    rw [copyPbufs, blit_append, next, ih mem (by rw [List.length_append]; omega), List.flatten_cons,
      List.append_assoc]

end Copy

def copied (s : GmacTx) (p : List (List Byte)) : GmacTx := { s with
  mem := (copyPbufs (s.frames.addr s.txNext) p s.mem 0).1
  writes := s.writes ++ [⟨s.txNext, p.flatten.length, s.BufferFree s.txNext⟩] }

def pktLen (p : List (List Byte)) : U32 := BitVec.ofNat 32 p.flatten.length

theorem pktLen_size (p : List (List Byte)) :
    (pktLen p &&& descSize1Mask).toNat = p.flatten.length % 8192 := by
  have mask : descSize1Mask.toNat = 2 ^ 13 - 1 := by decide
  rw [BitVec.toNat_and, mask, Nat.and_two_pow_sub_one_eq_mod, pktLen, BitVec.toNat_ofNat]
  omega

/-- The state behind an accepted frame, before finished descriptors are taken back. -/
def loaded (s : GmacTx) (p : List (List Byte)) : GmacTx :=
  { (s.copied p).queued (s.frames.ptr s.txNext) (pktLen p) with
    accepted := s.accepted ++ [p.flatten] }

section Call

variable {s : GmacTx} (p : List (List Byte)) (o : TxProgress)

theorem TxRing.copied (r : s.TxRing) : (s.copied p).TxRing := ⟨r.next, r.busy, r.index, r.last⟩

theorem TxRing.loaded (r : s.TxRing) : (s.loaded p).TxRing := by
  have queued := (r.copied p).queued (s.frames.ptr s.txNext) (pktLen p)
  exact ⟨queued.next, queued.busy, queued.index, queued.last⟩

theorem offset_pktLen : BitVec.ofNat 32 (copyPbufs (s.frames.addr s.txNext) p s.mem 0).2 =
    pktLen p := by
  rw [copyPbufs_offset _ _ (by decide), Nat.zero_add, pktLen]
  apply BitVec.eq_of_toNat_eq
  simp

theorem nuGmacTx_eq {status : Int} {t : GmacTx}
    (tries : (s.copied p).synopGMACXmitFrames (s.frames.ptr s.txNext) (pktLen p) 1 0 o.waits =
      (status, t)) :
    s.nuGmacTx p o = if status ≠ 0 then (-rtError, t)
      else (rtEok, { t with accepted := t.accepted ++ [p.flatten] }.synopHandleTransmitOver
        o.looks) := by
  have offset := offset_pktLen (s := s) p
  unfold copied at tries
  unfold nuGmacTx
  rcases copy : copyPbufs (s.frames.addr s.txNext) p s.mem 0 with ⟨mem, length⟩
  rw [copy] at offset tries
  dsimp only at offset tries ⊢
  rw [copy, offset]
  dsimp only
  rw [tries]

theorem nuGmacTx_accepts (r : s.TxRing) (empty : synopGMACIsDescEmpty (s.descs s.txNextDesc)) :
    s.nuGmacTx p o = (rtEok, (s.loaded p).synopHandleTransmitOver o.looks) := by
  rw [nuGmacTx_eq p o (xmitFrames_fills _ _ o.waits (r.copied p) empty)]
  rfl

theorem nuGmacTx_refuses (full : ¬synopGMACIsDescEmpty (s.descs s.txNextDesc)) :
    ∃ ds : List TxDone, s.nuGmacTx p o = (-rtError, ds.foldl transmitDone (s.copied p)) := by
  obtain ⟨ds, tries⟩ := xmitTries_refuses (s.frames.ptr s.txNext) (pktLen p) o.waits
    defaultLoopVariable (s := s.copied p) 0 full
  refine ⟨ds, ?_⟩
  rw [nuGmacTx_eq p o tries]
  rfl

end Call

section Over

variable {looks : Nat → List TxDone}

theorem transmitOver_step {s : GmacTx} (r : s.TxRing) (n k : Nat) :
    let t := (looks k).foldl transmitDone s
    transmitOver looks (n + 1) k s =
      if synopGMACIsDescOwnedByDma (t.descs t.txBusyDesc) ∨
        synopGMACIsDescEmpty (t.descs t.txBusyDesc) then t
      else transmitOver looks n (k + 1) t.reclaimed := by
  intro t
  have ring : t.TxRing := r.dones (looks k)
  rw [transmitOver]
  split_ifs with waits
  · rw [getTxQptr_waits waits]
    rfl
  · obtain ⟨given, full⟩ := not_or.mp waits
    rw [getTxQptr_takes ring given full]
    exact if_pos (by omega)

theorem transmitOver_invariant (inv : GmacTx → Prop)
    (done : ∀ s d, s.TxRing → inv s → inv (s.transmitDone d))
    (take : ∀ s, s.TxRing → inv s → ¬synopGMACIsDescOwnedByDma (s.descs s.txBusyDesc) →
      inv s.reclaimed) (n : Nat) :
    ∀ {s : GmacTx} (k : Nat), s.TxRing → inv s →
      (transmitOver looks n k s).TxRing ∧ inv (transmitOver looks n k s) := by
  have dones (ds : List TxDone) : ∀ {s : GmacTx}, s.TxRing → inv s → inv (ds.foldl transmitDone s) := by
    induction ds with
    | nil =>
      intro s _ h
      exact h
    | cons d ds ih =>
      intro s r h
      exact ih (r.transmitDone d) (done s d r h)
  induction n with
  | zero =>
    intro s k r h
    exact ⟨r, h⟩
  | succ n ih =>
    intro s k r h
    have ring := r.dones (looks k)
    have met := dones (looks k) r h
    rw [transmitOver_step r n k]
    split_ifs with waits
    · exact ⟨ring, met⟩
    · exact ih (k + 1) ring.reclaimed (take _ ring met (not_or.mp waits).1)

theorem over_invariant (inv : GmacTx → Prop) {s : GmacTx}
    (done : ∀ s d, s.TxRing → inv s → inv (s.transmitDone d))
    (take : ∀ s, s.TxRing → inv s → ¬synopGMACIsDescOwnedByDma (s.descs s.txBusyDesc) →
      inv s.reclaimed) (r : s.TxRing) (start : inv s) :
    (s.synopHandleTransmitOver looks).TxRing ∧ inv (s.synopHandleTransmitOver looks) :=
  transmitOver_invariant inv done take (transmitDescSize + 1) 0 r start

theorem over_keeps {s : GmacTx} (r : s.TxRing) :
    (s.synopHandleTransmitOver looks).txNextDesc = s.txNextDesc ∧
      (s.synopHandleTransmitOver looks).writes = s.writes := by
  refine (over_invariant (fun t => t.txNextDesc = s.txNextDesc ∧ t.writes = s.writes)
    ?_ ?_ r ⟨rfl, rfl⟩).2
  · rintro t d - ⟨next, writes⟩
    obtain ⟨-, -, sameNext, -, -, -, sameWrites⟩ := transmitDone_keeps t d
    exact ⟨sameNext.trans next, sameWrites.trans writes⟩
  · rintro t - h -
    exact h

end Over

theorem setup_ring (frames : FrameArea) (mem : Words.Mem) :
    (synopGMACSetupTxDescQueue frames mem).TxRing := by
  refine ⟨transmitDescSize_pos, transmitDescSize_pos, le_rfl, ?_⟩
  intro i _
  exact (txInit_last _).trans decide_eq_true_iff

theorem TxRing.taken {s : GmacTx} (r : s.TxRing) : s.synopGMACTakeDescOwnershipTx.TxRing :=
  ⟨r.next, r.busy, r.index, fun i hi => (takenDesc_last _).trans (r.last i hi)⟩

theorem TxRing.emptied {s : GmacTx} (r : s.TxRing) : s.synopGMACInitTxDescQueue.TxRing :=
  ⟨r.next, r.busy, Nat.zero_le _, fun _ _ => (txInit_last _).trans decide_eq_true_iff⟩

theorem TxRing.isr {s : GmacTx} (r : s.TxRing) (dmaStatus : U32) : (s.nuGmacIsr dmaStatus).TxRing := by
  unfold nuGmacIsr
  dsimp only
  split_ifs
  · exact r.taken.emptied.taken
  · exact r.taken
  · exact r.taken.emptied
  · exact r

theorem isr_keeps (s : GmacTx) (dmaStatus : U32) :
    (s.nuGmacIsr dmaStatus).txNextDesc = s.txNextDesc ∧
      (s.nuGmacIsr dmaStatus).writes = s.writes := by
  unfold nuGmacIsr
  dsimp only
  split_ifs <;> exact ⟨rfl, rfl⟩

section Step

variable {s : GmacTx} (p : List (List Byte)) (o : TxProgress) (r : s.TxRing)

include r in
theorem nuGmacTx_ring : (s.nuGmacTx p o).2.TxRing := by
  by_cases empty : synopGMACIsDescEmpty (s.descs s.txNextDesc)
  · rw [nuGmacTx_accepts p o r empty]
    exact (over_invariant (fun _ => True) (fun _ _ _ _ => trivial) (fun _ _ _ _ => trivial)
      (r.loaded p) trivial).1
  · obtain ⟨ds, refused⟩ := nuGmacTx_refuses p o empty
    rw [refused]
    exact (r.copied p).dones ds

include r in
theorem nuGmacTx_writes : (s.nuGmacTx p o).2.writes =
    s.writes ++ [⟨s.txNext, p.flatten.length, s.BufferFree s.txNext⟩] := by
  by_cases empty : synopGMACIsDescEmpty (s.descs s.txNextDesc)
  · rw [nuGmacTx_accepts p o r empty]
    exact (over_keeps (r.loaded p)).2
  · obtain ⟨ds, refused⟩ := nuGmacTx_refuses p o empty
    rw [refused]
    exact (transmitDones_keep (s.copied p) ds).writes

include r in
theorem step_ring (e : TxEvent) : (s.step e).TxRing := by
  cases e with
  | tx p o => exact nuGmacTx_ring p o r
  | done d => exact r.transmitDone d
  | interrupt dmaStatus => exact r.isr dmaStatus

end Step

end GmacTx

end NuMakerMA35
