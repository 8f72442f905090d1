import NuMakerMA35.CanFd

namespace NuMakerMA35

open Words

structure RtCanFilterItem where
  id : BitVec 29
  ide : BitVec 1
  mode : BitVec 1
  mask : U32

def canfdFltrElemStoFifo0 : BitVec 3 := 1
def canfdFltrElemSetPriStoFifo0 : BitVec 3 := 5
def canfdSidFltrTypeClassic : BitVec 2 := 2
def canfdXidFltrTypeClassic : BitVec 2 := 2

def nuCanfdFec (item : RtCanFilterItem) : BitVec 3 :=
  if item.mode = 1 then canfdFltrElemSetPriStoFifo0 else canfdFltrElemStoFifo0

/-- `rsv` is what the uninitialised local held. -/
def nuCanfdStdFilter (item : RtCanFilterItem) (rsv : BitVec 5) : CanfdSidFilter where
  sfid2 := item.mask.setWidth 11
  rsv := rsv
  sfid1 := item.id.setWidth 11
  sfec := nuCanfdFec item
  sft := canfdSidFltrTypeClassic

def nuCanfdXidFilter (item : RtCanFilterItem) (rsv : BitVec 5) : CanfdXidFilter where
  efid1 := item.mask.setWidth 29
  efec := nuCanfdFec item
  efid2 := item.id
  rsv := rsv.setWidth 1
  eft := canfdXidFltrTypeClassic

/-- The loop of `RT_CAN_CMD_SET_FILTER` from index `i` on. -/
def nuCanfdSetFilter (stack : Nat → BitVec 5) : Canfd → Nat → List RtCanFilterItem → Int × Canfd
  | c, _, [] => (rtEok, c)
  | c, i, item :: items =>
    if item.ide = 0 then
      if canfdMax11BitFtrElems ≤ i then (-rtError, c)
      else nuCanfdSetFilter stack
        ((canfdTransferSid c (nuCanfdStdFilter item (stack i)) i).getD c) (i + 1) items
    else
      if canfdMax29BitFtrElems ≤ i then (-rtError, c)
      else nuCanfdSetFilter stack
        ((canfdTransferXid c (nuCanfdXidFilter item (stack i)) i).getD c) (i + 1) items

def fltrStores (fec : BitVec 3) : Prop := fec = 1 ∨ fec = 2 ∨ fec = 5 ∨ fec = 6

instance (fec : BitVec 3) : Decidable (fltrStores fec) :=
  inferInstanceAs (Decidable (_ ∨ _ ∨ _ ∨ _))

/-- How the controller reads a standard filter element. -/
def sidAccepts (w : U32) (x : BitVec 11) : Prop :=
  let sfid2 := bitField w 0 11
  let sfid1 := bitField w 16 11
  fltrStores (bitField w 27 3) ∧
    match (bitField w 30 2).toNat with
    | 0 => sfid1 ≤ x ∧ x ≤ sfid2
    | 1 => x = sfid1 ∨ x = sfid2
    | 2 => x &&& sfid2 = sfid1 &&& sfid2
    | _ => False

/-- How it reads an extended one, the mask of `XIDAM` left as after reset. -/
def xidAccepts (w0 w1 : U32) (x : BitVec 29) : Prop :=
  let efid1 := bitField w0 0 29
  let efid2 := bitField w1 0 29
  fltrStores (bitField w0 29 3) ∧
    match (bitField w1 30 2).toNat with
    | 1 => x = efid1 ∨ x = efid2
    | 2 => x &&& efid2 = efid1 &&& efid2
    | _ => efid1 ≤ x ∧ x ≤ efid2

def Canfd.sidWord (c : Canfd) (i : Nat) : U32 := read32 c.ram (c.sidAddr i)
def Canfd.xidWord0 (c : Canfd) (i : Nat) : U32 := read32 c.ram (c.xidAddr i)
def Canfd.xidWord1 (c : Canfd) (i : Nat) : U32 := read32 c.ram (c.xidAddr i + 4)

/-- The filter asked for: an identifier of the item's kind is accepted by element `i` when it
agrees with the item's in the bits of the mask. -/
def RtCanFilterItem.FilteredBy (item : RtCanFilterItem) (c : Canfd) (i : Nat) : Prop :=
  if item.ide = 0 then
    ∀ x : BitVec 11, sidAccepts (c.sidWord i) x ↔
      x.setWidth 32 &&& item.mask = item.id.setWidth 32 &&& item.mask
  else
    ∀ x : BitVec 29, xidAccepts (c.xidWord0 i) (c.xidWord1 i) x ↔
      x.setWidth 32 &&& item.mask = item.id.setWidth 32 &&& item.mask

/-- Where swapping identifier and mask of an extended item changes nothing, and where cutting a
standard item to eleven bits does not. -/
def RtCanFilterItem.Plain (item : RtCanFilterItem) : Prop :=
  if item.ide = 0 then (item.id.setWidth 32 &&& item.mask).toNat < 2 ^ 11
  else item.id = item.mask.setWidth 29

theorem nuCanfdFec_stores (item : RtCanFilterItem) : fltrStores (nuCanfdFec item) := by
  unfold nuCanfdFec
  split_ifs <;> decide

section Words

variable (f : CanfdSidFilter) (g : CanfdXidFilter)

theorem CanfdSidFilter.word_sfid2 : bitField f.word 0 11 = f.sfid2 :=
  BitVec.extractLsb'_append_eq_right

theorem CanfdSidFilter.word_sfid1 : bitField f.word 16 11 = f.sfid1 := by
  unfold bitField word
  rw [BitVec.extractLsb'_append_eq_of_le (by decide),
    BitVec.extractLsb'_append_eq_of_le (by decide)]
  exact BitVec.extractLsb'_append_eq_right

theorem CanfdSidFilter.word_sfec : bitField f.word 27 3 = f.sfec := by
  unfold bitField word
  rw [BitVec.extractLsb'_append_eq_of_le (by decide),
    BitVec.extractLsb'_append_eq_of_le (by decide), BitVec.extractLsb'_append_eq_of_le (by decide)]
  exact BitVec.extractLsb'_append_eq_right

theorem CanfdSidFilter.word_sft : bitField f.word 30 2 = f.sft := by
  unfold bitField word
  rw [BitVec.extractLsb'_append_eq_of_le (by decide),
    BitVec.extractLsb'_append_eq_of_le (by decide), BitVec.extractLsb'_append_eq_of_le (by decide)]
  exact BitVec.extractLsb'_append_eq_left

theorem CanfdXidFilter.word0_efid1 : bitField g.word0 0 29 = g.efid1 :=
  BitVec.extractLsb'_append_eq_right

theorem CanfdXidFilter.word0_efec : bitField g.word0 29 3 = g.efec :=
  BitVec.extractLsb'_append_eq_left

theorem CanfdXidFilter.word1_efid2 : bitField g.word1 0 29 = g.efid2 :=
  BitVec.extractLsb'_append_eq_right

theorem CanfdXidFilter.word1_eft : bitField g.word1 30 2 = g.eft := by
  unfold bitField word1
  rw [BitVec.extractLsb'_append_eq_of_le (by decide)]
  exact BitVec.extractLsb'_append_eq_left

end Words

theorem sidAccepts_stdFilter (item : RtCanFilterItem) (rsv : BitVec 5) (x : BitVec 11) :
    sidAccepts (nuCanfdStdFilter item rsv).word x ↔
      x &&& item.mask.setWidth 11 = item.id.setWidth 11 &&& item.mask.setWidth 11 := by
  simp only [sidAccepts, CanfdSidFilter.word_sfid2, CanfdSidFilter.word_sfid1,
    CanfdSidFilter.word_sfec, CanfdSidFilter.word_sft]
  exact and_iff_right (nuCanfdFec_stores item)

theorem xidAccepts_xidFilter (item : RtCanFilterItem) (rsv : BitVec 5) (x : BitVec 29) :
    xidAccepts (nuCanfdXidFilter item rsv).word0 (nuCanfdXidFilter item rsv).word1 x ↔
      x &&& item.id = item.mask.setWidth 29 &&& item.id := by
  simp only [xidAccepts, CanfdXidFilter.word0_efid1, CanfdXidFilter.word0_efec,
    CanfdXidFilter.word1_efid2, CanfdXidFilter.word1_eft]
  exact and_iff_right (nuCanfdFec_stores item)

section Masks

theorem setWidth_and_eq_iff {n : Nat} {a b : U32} (ha : a.toNat < 2 ^ n) (hb : b.toNat < 2 ^ n) :
    a.setWidth n = b.setWidth n ↔ a = b := by
  constructor
  · intro h
    have same := congrArg BitVec.toNat h
    rw [BitVec.toNat_setWidth, BitVec.toNat_setWidth, Nat.mod_eq_of_lt ha, Nat.mod_eq_of_lt hb]
      at same
    exact BitVec.eq_of_toNat_eq same
  · rintro rfl
    rfl

theorem masked_lt {n : Nat} (x : BitVec n) (mask : U32) :
    (x.setWidth 32 &&& mask).toNat < 2 ^ n := by
  rw [BitVec.toNat_and]
  apply lt_of_le_of_lt Nat.and_le_left
  rw [BitVec.toNat_setWidth]
  exact lt_of_le_of_lt (Nat.mod_le _ _) x.isLt

theorem setWidth_masked {n : Nat} (narrow : n ≤ 32) (x : BitVec n) (mask : U32) :
    (x.setWidth 32 &&& mask).setWidth n = x &&& mask.setWidth n := by
  rw [BitVec.setWidth_and, BitVec.setWidth_setWidth_of_le x narrow, BitVec.setWidth_eq]

theorem swapped_iff {n : Nat} {id mask : BitVec n} :
    (∀ x, x &&& id = mask &&& id ↔ x &&& mask = id &&& mask) ↔ id = mask := by
  constructor
  · intro h
    have ofId : id = mask &&& id := (BitVec.and_self).symm.trans ((h id).mpr rfl)
    have ofMask : mask = id &&& mask := (BitVec.and_self).symm.trans ((h mask).mp rfl)
    rw [ofId, BitVec.and_comm]
    exact ofMask.symm
  · rintro rfl x
    rfl

end Masks

theorem std_filtered_iff (item : RtCanFilterItem) :
    (∀ x : BitVec 11, (x &&& item.mask.setWidth 11 = item.id.setWidth 11 &&& item.mask.setWidth 11) ↔
      x.setWidth 32 &&& item.mask = item.id.setWidth 32 &&& item.mask) ↔
    (item.id.setWidth 32 &&& item.mask).toNat < 2 ^ 11 := by
  have cut : (item.id.setWidth 32 &&& item.mask).setWidth 11 =
      item.id.setWidth 11 &&& item.mask.setWidth 11 := by
    rw [BitVec.setWidth_and, BitVec.setWidth_setWidth]
    simp
  constructor
  · intro h
    have own := (h (item.id.setWidth 11)).mp rfl
    rw [← own]
    exact masked_lt _ _
  · intro small x
    rw [← cut, ← setWidth_masked (by decide) x]
    exact setWidth_and_eq_iff (masked_lt x _) small

theorem ext_filtered_iff (item : RtCanFilterItem) :
    (∀ x : BitVec 29, (x &&& item.id = item.mask.setWidth 29 &&& item.id) ↔
      x.setWidth 32 &&& item.mask = item.id.setWidth 32 &&& item.mask) ↔
    item.id = item.mask.setWidth 29 := by
  have wide (x : BitVec 29) : x.setWidth 32 &&& item.mask = item.id.setWidth 32 &&& item.mask ↔
      x &&& item.mask.setWidth 29 = item.id &&& item.mask.setWidth 29 := by
    rw [← setWidth_masked (by decide) x, ← setWidth_masked (by decide) item.id]
    exact (setWidth_and_eq_iff (masked_lt x _) (masked_lt item.id _)).symm
  simp only [wide]
  exact swapped_iff

section Elements

/-- The filter lists lie as `nu_canfd_configure` lays them out, sixteen elements each. -/
def Canfd.Configured (c : Canfd) : Prop := ∃ old, c.part = nuCanfdRamPart old

variable {c : Canfd}

theorem Canfd.sidAddr_eq (h : c.Configured) (i : Nat) : c.sidAddr i = 4 * i := by
  obtain ⟨old, part⟩ := h
  simp only [sidAddr, part, nuCanfdRamPart, canfdCalculateRamAddress, nuCanfdElemSize, canfdSidSize,
    Nat.reduceLT, if_true]
  omega

theorem Canfd.xidAddr_eq (h : c.Configured) (i : Nat) : c.xidAddr i = 64 + 8 * i := by
  obtain ⟨old, part⟩ := h
  simp only [xidAddr, part, nuCanfdRamPart, canfdCalculateRamAddress, nuCanfdElemSize, canfdSidSize,
    canfdXidSize, Nat.reduceLT, if_true]
  omega

def Canfd.SameElement (c c' : Canfd) (j : Nat) : Prop :=
  c'.sidWord j = c.sidWord j ∧ c'.xidWord0 j = c.xidWord0 j ∧ c'.xidWord1 j = c.xidWord1 j

theorem canfdTransferSid_spec (h : c.Configured) (f : CanfdSidFilter) {i : Nat} (hi : i < 16) :
    ∃ c', canfdTransferSid c f i = some c' ∧ c'.Configured ∧ c'.sidWord i = f.word ∧
      ∀ j, j < 16 → j ≠ i → c.SameElement c' j := by
  refine ⟨_, if_neg (by unfold canfdMax11BitFtrElems; omega), h, read32_write32 _ _ _, ?_⟩
  intro j hj other
  have sid := c.sidAddr_eq h
  have xid := c.xidAddr_eq h
  refine ⟨read32_write32_other f.word ?_, read32_write32_other f.word ?_,
    read32_write32_other f.word ?_⟩
  · change c.sidAddr j + 4 ≤ c.sidAddr i ∨ c.sidAddr i + 4 ≤ c.sidAddr j
    rw [sid, sid]
    omega
  · change c.xidAddr j + 4 ≤ c.sidAddr i ∨ c.sidAddr i + 4 ≤ c.xidAddr j
    rw [sid, xid]
    omega
  · change c.xidAddr j + 4 + 4 ≤ c.sidAddr i ∨ c.sidAddr i + 4 ≤ c.xidAddr j + 4
    rw [sid, xid]
    omega

theorem canfdTransferXid_spec (h : c.Configured) (f : CanfdXidFilter) {i : Nat} (hi : i < 16) :
    ∃ c', canfdTransferXid c f i = some c' ∧ c'.Configured ∧ c'.xidWord0 i = f.word0 ∧
      c'.xidWord1 i = f.word1 ∧ ∀ j, j < 16 → j ≠ i → c.SameElement c' j := by
  refine ⟨_, if_neg (by unfold canfdMax29BitFtrElems; omega), h, ?_, ?_, ?_⟩
  · change read32 (write32 (write32 c.ram (c.xidAddr i) f.word0) (c.xidAddr i + 4) f.word1)
      (c.xidAddr i) = f.word0
    rw [read32_write32_other f.word1 (.inl le_rfl), read32_write32]
  · exact read32_write32 (write32 c.ram (c.xidAddr i) f.word0) (c.xidAddr i + 4) f.word1
  intro j hj other
  have sid := c.sidAddr_eq h
  have xid := c.xidAddr_eq h
  have away {b : Nat} (apart : b + 4 ≤ c.xidAddr i ∨ c.xidAddr i + 8 ≤ b) :
      read32 (write32 (write32 c.ram (c.xidAddr i) f.word0) (c.xidAddr i + 4) f.word1) b =
        read32 c.ram b := by
    rw [read32_write32_other f.word1 (by omega), read32_write32_other f.word0 (by omega)]
  refine ⟨away ?_, away ?_, away ?_⟩
  · change c.sidAddr j + 4 ≤ c.xidAddr i ∨ c.xidAddr i + 8 ≤ c.sidAddr j
    rw [sid, xid]
    omega
  · change c.xidAddr j + 4 ≤ c.xidAddr i ∨ c.xidAddr i + 8 ≤ c.xidAddr j
    rw [xid, xid]
    omega
  · change c.xidAddr j + 4 + 4 ≤ c.xidAddr i ∨ c.xidAddr i + 8 ≤ c.xidAddr j + 4
    rw [xid, xid]
    omega

end Elements

def RtCanFilterItem.WrittenAt (item : RtCanFilterItem) (rsv : BitVec 5) (c : Canfd) (i : Nat) :
    Prop :=
  if item.ide = 0 then c.sidWord i = (nuCanfdStdFilter item rsv).word
  else c.xidWord0 i = (nuCanfdXidFilter item rsv).word0 ∧
    c.xidWord1 i = (nuCanfdXidFilter item rsv).word1

theorem RtCanFilterItem.WrittenAt.same {item : RtCanFilterItem} {rsv : BitVec 5} {c c' : Canfd}
    {i : Nat} (h : item.WrittenAt rsv c i) (same : c.SameElement c' i) :
    item.WrittenAt rsv c' i := by
  unfold WrittenAt at h ⊢
  rw [same.1, same.2.1, same.2.2]
  exact h

theorem nuCanfdSetFilter_spec (stack : Nat → BitVec 5) {items : List RtCanFilterItem} :
    ∀ {c : Canfd} {i : Nat}, c.Configured → i + items.length ≤ 16 →
      ∃ c', nuCanfdSetFilter stack c i items = (rtEok, c') ∧
        (∀ j, j < i → c.SameElement c' j) ∧
        ∀ k (item : RtCanFilterItem), items[k]? = some item → item.WrittenAt (stack (i + k)) c' (i + k) := by
  induction items with
  | nil =>
    intro c i _ _
    exact ⟨c, rfl, fun j _ => ⟨rfl, rfl, rfl⟩, fun k item h => by simp at h⟩
  | cons item items ih =>
    intro c i lists room
    simp only [List.length_cons] at room
    obtain ⟨c₁, step, lists₁, here, others⟩ : ∃ c₁, nuCanfdSetFilter stack c i (item :: items) =
          nuCanfdSetFilter stack c₁ (i + 1) items ∧ c₁.Configured ∧
        item.WrittenAt (stack i) c₁ i ∧ ∀ j, j < 16 → j ≠ i → c.SameElement c₁ j := by
      rw [nuCanfdSetFilter]
      unfold RtCanFilterItem.WrittenAt
      by_cases std : item.ide = 0
      · obtain ⟨c₁, done, lists₁, word, others⟩ :=
          canfdTransferSid_spec lists (nuCanfdStdFilter item (stack i)) (i := i) (by omega)
        refine ⟨c₁, ?_, lists₁, by rw [if_pos std]; exact word, others⟩
        rw [if_pos std, if_neg (by unfold canfdMax11BitFtrElems; omega), done]
        rfl
      · obtain ⟨c₁, done, lists₁, word0, word1, others⟩ :=
          canfdTransferXid_spec lists (nuCanfdXidFilter item (stack i)) (i := i) (by omega)
        refine ⟨c₁, ?_, lists₁, by rw [if_neg std]; exact ⟨word0, word1⟩, others⟩
        rw [if_neg std, if_neg (by unfold canfdMax29BitFtrElems; omega), done]
        rfl
    obtain ⟨c', rest, kept, written⟩ := ih lists₁ (by omega : i + 1 + items.length ≤ 16)
    refine ⟨c', step.trans rest, ?_, ?_⟩
    · intro j hj
      have before := others j (by omega) (by omega)
      have after := kept j (by omega)
      exact ⟨after.1.trans before.1, after.2.1.trans before.2.1, after.2.2.trans before.2.2⟩
    · intro k found get
      cases k with
      | zero =>
        cases Option.some.inj get
        exact here.same (kept i (by omega))
      | succ k =>
        have at_k := written k found (by simpa using get)
        rwa [show i + (k + 1) = i + 1 + k by omega]

theorem RtCanFilterItem.WrittenAt.filteredBy_iff {item : RtCanFilterItem} {rsv : BitVec 5}
    {c : Canfd} {i : Nat} (h : item.WrittenAt rsv c i) : item.FilteredBy c i ↔ item.Plain := by
  unfold WrittenAt at h
  unfold FilteredBy Plain
  split_ifs at h ⊢ with std
  · rw [h]
    simp only [sidAccepts_stdFilter]
    exact std_filtered_iff item
  · rw [h.1, h.2]
    simp only [xidAccepts_xidFilter]
    exact ext_filtered_iff item

/-- After the command each item's element filters as asked exactly where the item is plain. -/
theorem canfd_filter_iff {c : Canfd} (lists : c.Configured) (stack : Nat → BitVec 5)
    {items : List RtCanFilterItem} (room : items.length ≤ 16) :
    ∃ c', nuCanfdSetFilter stack c 0 items = (rtEok, c') ∧
      ∀ i (item : RtCanFilterItem), items[i]? = some item → (item.FilteredBy c' i ↔ item.Plain) := by
  obtain ⟨c', done, -, written⟩ := nuCanfdSetFilter_spec stack lists
    (by omega : 0 + items.length ≤ 16)
  refine ⟨c', done, ?_⟩
  intro i item get
  have at_i := written i item get
  rw [Nat.zero_add] at at_i
  exact at_i.filteredBy_iff

theorem canfdIdle_configured : canfdIdle.Configured := ⟨_, rfl⟩

/-- A standard item beside an extended one whose mask leaves nothing open. -/
theorem canfd_filter_two : ∃ c', nuCanfdSetFilter (fun _ => 0) canfdIdle 0
      [⟨0x123, 0, 0, 0x7F0⟩, ⟨0x1FFFFFFF, 1, 0, 0xFFFFFFFF⟩] = (rtEok, c') ∧
    ∀ i (item : RtCanFilterItem),
      ([⟨0x123, 0, 0, 0x7F0⟩, ⟨0x1FFFFFFF, 1, 0, 0xFFFFFFFF⟩] : List RtCanFilterItem)[i]? =
        some item → (item.FilteredBy c' i ↔ item.Plain) :=
  canfd_filter_iff canfdIdle_configured (fun _ => 0) (by decide)

/-- A filter for the one extended identifier 1 lets 3 through. -/
theorem extendedFilter_accepts_other : ∃ c', nuCanfdSetFilter (fun _ => 0) canfdIdle 0
      [⟨1, 1, 0, 0x1FFFFFFF⟩] = (rtEok, c') ∧
    xidAccepts (c'.xidWord0 0) (c'.xidWord1 0) 3 ∧
    (3 : U32) &&& 0x1FFFFFFF ≠ 1 &&& 0x1FFFFFFF := by
  obtain ⟨c', done, -, written⟩ := nuCanfdSetFilter_spec (fun _ => 0) canfdIdle_configured
    (show 0 + [(⟨1, 1, 0, 0x1FFFFFFF⟩ : RtCanFilterItem)].length ≤ 16 by decide)
  have words : c'.xidWord0 0 = _ ∧ c'.xidWord1 0 = _ := written 0 _ rfl
  refine ⟨c', done, ?_, by decide⟩
  rw [words.1, words.2, xidAccepts_xidFilter]
  decide

end NuMakerMA35
