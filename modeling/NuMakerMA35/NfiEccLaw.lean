import NuMakerMA35.NfiEccRun

namespace NuMakerMA35

open Words

def maskOf (changes : List (NfiByte × Byte)) (b : NfiByte) : Byte :=
  changes.foldl (fun mask change => if change.1 = b then mask ^^^ change.2 else mask) 0

theorem maskOf_append (changes : List (NfiByte × Byte)) (b b' : NfiByte) (mask : Byte) :
    maskOf (changes ++ [(b, mask)]) b' =
      if b = b' then maskOf changes b' ^^^ mask else maskOf changes b' := by
  unfold maskOf
  rw [List.foldl_append]
  rfl

theorem maskOf_perm {changes changes' : List (NfiByte × Byte)} (same : changes.Perm changes')
    (b : NfiByte) : maskOf changes b = maskOf changes' b := by
  unfold maskOf
  apply same.foldl_eq'
  intro x _ y _ mask
  split_ifs
  · rw [BitVec.xor_assoc, BitVec.xor_comm x.2, ← BitVec.xor_assoc]
  all_goals rfl

namespace NfiRead

variable {s s₀ : NfiRead} {b : NfiByte} {mask : Byte}

theorem xor_changed (s : NfiRead) (b : NfiByte) (mask : Byte) :
    (s.xor b mask).changed = s.changed ++ [(b, mask)] := by
  cases b <;> rfl

theorem xor_records (s : NfiRead) (b : NfiByte) (mask : Byte) :
    (s.xor b mask).records = s.records := by
  cases b <;> rfl

theorem xor_byte (s : NfiRead) (b b' : NfiByte) (mask : Byte) :
    (s.xor b mask).byte b' = if b = b' then s.byte b' ^^^ mask else s.byte b' := by
  cases b with
  | page offset =>
    cases b' with
    | page offset' =>
      by_cases here : offset = offset'
      · subst here
        simp [xor, byte]
      · simp [xor, byte, here, Ne.symm here]
    | redundancy => rfl
    | memory => rfl
  | redundancy index =>
    cases b' with
    | page => rfl
    | redundancy index' =>
      by_cases here : index = index'
      · subst here
        simp [xor, byte]
      · simp [xor, byte, here, Ne.symm here]
    | memory => rfl
  | memory address =>
    cases b' with
    | page => rfl
    | redundancy => rfl
    | memory address' =>
      by_cases here : address = address'
      · subst here
        simp [xor, byte]
      · have apart : address'.toNat ≠ address.toNat := fun same =>
          here (BitVec.eq_of_toNat_eq same.symm)
        simp [xor, byte, here, apart]

/-- What was changed tells every byte. -/
def Tied (s₀ s : NfiRead) : Prop := ∀ b, s.byte b = s₀.byte b ^^^ maskOf s.changed b

theorem Tied.xor (tied : Tied s₀ s) (b : NfiByte) (mask : Byte) : Tied s₀ (s.xor b mask) := by
  intro b'
  rw [xor_byte, xor_changed, maskOf_append, tied b']
  split_ifs
  · rw [BitVec.xor_assoc]
  · rfl

end NfiRead

namespace EccError

variable (c : NfiControl) (e : EccError)

def mask : Byte := e.data.setWidth 8

def Data : Prop := e.addr.toNat < c.strength.fieldLen

instance : DecidablePred (Data c) := fun _ => Nat.decLt _ _

def pageOffset : Nat := (e.field - 1) * c.strength.fieldLen + e.addr.toNat

/-- The byte an address names: behind the data of a field there are the first three bytes of the
redundancy area, padding, and the field's parity code. The parity codes of all fields are at the
bottom of the redundancy area. -/
def place : NfiByte :=
  if e.addr.toNat < c.strength.fieldLen then .page (e.pageOffset c)
  else if e.addr.toNat < c.strength.fieldLen + 3 then
    .redundancy (e.addr.toNat - c.strength.fieldLen)
  else .redundancy ((c.nandractl &&& 0x1ff).toNat - c.strength.parityLen * c.totalFieldNum +
    c.strength.parityLen * (e.field - 1) +
    (e.addr.toNat - (c.strength.fieldLen + c.strength.paddingLen - c.strength.parityLen)))

theorem place_data {c : NfiControl} {e : EccError} (data : e.Data c) :
    e.place c = .page (e.pageOffset c) := if_pos data

theorem place_protected {c : NfiControl} {e : EccError} (behind : ¬e.Data c)
    (first : e.addr.toNat < c.strength.fieldLen + 3) :
    e.place c = .redundancy (e.addr.toNat - c.strength.fieldLen) :=
  (if_neg behind).trans (if_pos first)

theorem place_ne_memory (c : NfiControl) (e : EccError) (address : U32) :
    e.place c ≠ .memory address := by
  unfold place
  split_ifs <;> simp

/-- A data byte, or one of the first three of the redundancy area found with the first field. -/
def Right : Prop :=
  e.addr.toNat < c.strength.fieldLen ∨
    e.addr.toNat < c.strength.fieldLen + 3 ∧ e.field = 1

instance : DecidablePred (Right c) := fun _ => inferInstanceAs (Decidable (_ ∨ _))

end EccError

/-- What the controller can report of a page all of whose errors can be corrected: no field has
more errors than the code corrects or is reported twice, and the bytes named exist. -/
structure EccReports (c : NfiControl) where
  list : List EccReport
  correctable : ∀ r, r ∈ list → r.eccfldif = true → ∀ f, f ∈ c.fields → r.stat f = 0 ∨ r.stat f = 1
  used : ∀ r, r ∈ list → ∀ f, f ∈ c.failed r → f ≤ c.totalFieldNum
  few : ∀ r, r ∈ list → ∀ f, f ∈ c.failed r → r.count f ≤ c.strength.corrects
  placed : ∀ r, r ∈ list → ∀ e, e ∈ c.errors r → e.addr.toNat < c.strength.fieldLen + 3 ∨
    c.strength.fieldLen + c.strength.paddingLen - c.strength.parityLen ≤ e.addr.toNat ∧
      e.addr.toNat < c.strength.fieldLen + c.strength.paddingLen
  once : (list.flatMap c.failed).Nodup

def EccReports.errors {c : NfiControl} (rs : EccReports c) : List EccError :=
  rs.list.flatMap c.errors

/-- The bytes named are changed, each once with its error data, and no other; those of the page lie
inside it. -/
structure CorrectsExactly (c : NfiControl) (s t : NfiRead) (errors : List EccError) : Prop where
  once : t.changed.Perm (errors.map fun e => (e.place c, e.mask))
  bytes : ∀ b, t.byte b = s.byte b ^^^ maskOf (errors.map fun e => (e.place c, e.mask)) b
  within : ∀ offset mask, (NfiByte.page offset, mask) ∈ t.changed → offset < c.writesize

section Reports

variable {c : NfiControl} {r : EccReport}

theorem fieldErrors_length {n : Nat} {fs : List Nat}
    (few : ∀ f, f ∈ fs.filter (r.stat · = 1) → r.count f ≤ n) :
    (fs.flatMap r.fieldErrors).length ≤ n * (fs.filter (r.stat · = 1)).length := by
  induction fs with
  | nil => simp
  | cons f fs ih =>
    rw [List.flatMap_cons, List.length_append]
    by_cases failing : r.stat f = 1
    · rw [List.filter_cons_of_pos (by simpa using failing)] at few ⊢
      have here := few f List.mem_cons_self
      have rest := ih fun g inside => few g (List.mem_cons_of_mem _ inside)
      rw [EccReport.fieldErrors, if_pos failing, List.length_map, List.length_range,
        List.length_cons, Nat.mul_add, Nat.mul_one]
      omega
    · rw [List.filter_cons_of_neg (by simpa using failing)] at few ⊢
      rw [EccReport.fieldErrors, if_neg failing, List.length_nil, Nat.zero_add]
      exact ih few

theorem reported_length (few : ∀ f, f ∈ c.failed r → r.count f ≤ c.strength.corrects) :
    (c.errors r).length ≤ c.strength.corrects * (c.failed r).length := by
  unfold NfiControl.failed at few ⊢
  unfold NfiControl.errors
  split_ifs at few ⊢
  · exact fieldErrors_length few
  · exact Nat.zero_le _

theorem field_of_error {e : EccError} (mem : e ∈ c.errors r) : e.field ∈ c.failed r := by
  unfold NfiControl.errors at mem
  unfold NfiControl.failed
  split_ifs at mem ⊢
  · obtain ⟨f, inside, here⟩ := List.mem_flatMap.mp mem
    unfold EccReport.fieldErrors at here
    split_ifs at here with failing
    · obtain ⟨i, -, rfl⟩ := List.mem_map.mp here
      exact List.mem_filter.mpr ⟨inside, by simpa using failing⟩
    · cases here
  · cases mem

theorem failed_pos {f : Nat} (mem : f ∈ c.failed r) : 1 ≤ f := by
  unfold NfiControl.failed at mem
  split_ifs at mem
  · exact (List.mem_range'_1.mp (List.mem_filter.mp mem).1).1
  · cases mem

variable (rs : EccReports c)

theorem EccReports.field_of_error {e : EccError} (mem : e ∈ rs.errors) :
    1 ≤ e.field ∧ e.field ≤ c.totalFieldNum := by
  obtain ⟨r, inside, here⟩ := List.mem_flatMap.mp mem
  have failed := NuMakerMA35.field_of_error here
  exact ⟨failed_pos failed, rs.used r inside _ failed⟩

theorem EccReports.errors_length : rs.errors.length ≤ nfiMaxEccRecords := by
  have each : ∀ l : List EccReport, (∀ r, r ∈ l → r ∈ rs.list) →
      (l.flatMap c.errors).length ≤ c.strength.corrects * (l.flatMap c.failed).length := by
    intro l
    induction l with
    | nil => simp
    | cons r l ih =>
      intro inside
      have first := reported_length (rs.few r (inside r List.mem_cons_self))
      have rest := ih fun r' here => inside r' (List.mem_cons_of_mem _ here)
      rw [List.flatMap_cons, List.flatMap_cons, List.length_append, List.length_append,
        Nat.mul_add]
      omega
  have subset : rs.list.flatMap c.failed ⊆ List.range' 1 c.totalFieldNum := by
    intro f mem
    obtain ⟨r, inside, here⟩ := List.mem_flatMap.mp mem
    have used := rs.used r inside f here
    exact List.mem_range'_1.mpr ⟨failed_pos here, by omega⟩
  have fields := (List.subperm_of_subset rs.once subset).length_le
  rw [List.length_range'] at fields
  have all := each rs.list fun _ here => here
  have bound := Nat.mul_le_mul_left c.strength.corrects fields
  have few := c.all_corrected_le
  unfold EccReports.errors nfiMaxEccRecords
  omega

end Reports

section Law

variable {c : NfiControl} {s : NfiRead} {e : EccError}

theorem correct_data (data : e.Data c) (room : s.records.length < nfiMaxEccRecords) :
    c.correct s e = { s with records := s.records ++ [(e.pageOffset c % 2 ^ 16, e.mask)] } := by
  unfold NfiControl.correct correctError
  rw [if_pos (show e.addr.toNat < c.strength.fieldLen from data), if_pos room]
  rfl

theorem correct_protected (behind : ¬e.Data c)
    (first : e.addr.toNat < c.strength.fieldLen + 3) :
    c.correct s e = s.xor (.redundancy (e.addr.toNat - c.strength.fieldLen +
      c.strength.parityLen * (e.field - 1))) e.mask := by
  unfold NfiControl.correct correctError
  rw [if_neg (show ¬e.addr.toNat < c.strength.fieldLen from behind), if_pos first]
  rfl

theorem correct_parity (behind : ¬e.addr.toNat < c.strength.fieldLen + 3) :
    ∃ address, c.correct s e = s.xor (.memory address) e.mask := by
  unfold NfiControl.correct correctError
  rw [if_neg (by omega), if_neg behind]
  exact ⟨_, rfl⟩

theorem correct_cases (c : NfiControl) (s : NfiRead) (e : EccError) :
    e.Data c ∧ (∃ more, c.correct s e = { s with records := s.records ++ more }) ∨
      ¬e.Data c ∧ ∃ b, (∀ offset, b ≠ NfiByte.page offset) ∧ c.correct s e = s.xor b e.mask := by
  by_cases data : e.Data c
  · refine .inl ⟨data, ?_⟩
    by_cases room : s.records.length < nfiMaxEccRecords
    · exact ⟨_, correct_data data room⟩
    · refine ⟨[], ?_⟩
      unfold NfiControl.correct correctError
      rw [if_pos (show e.addr.toNat < c.strength.fieldLen from data), if_neg room, List.append_nil]
  · refine .inr ⟨data, ?_⟩
    by_cases first : e.addr.toNat < c.strength.fieldLen + 3
    · exact ⟨_, fun _ => by simp, correct_protected data first⟩
    · obtain ⟨address, changed⟩ := correct_parity (s := s) first
      exact ⟨_, fun _ => by simp, changed⟩

theorem correct_tied {s₀ : NfiRead} (tied : NfiRead.Tied s₀ s) (e : EccError) :
    NfiRead.Tied s₀ (c.correct s e) := by
  rcases correct_cases c s e with ⟨-, more, same⟩ | ⟨-, b, -, same⟩
  · rw [same]
    intro b
    exact tied b
  · rw [same]
    exact tied.xor b e.mask

theorem correct_changed (c : NfiControl) (s : NfiRead) (e : EccError) :
    ∃ more, (c.correct s e).changed = s.changed ++ more ∧
      ∀ offset mask, (NfiByte.page offset, mask) ∉ more := by
  rcases correct_cases c s e with ⟨-, records, same⟩ | ⟨-, b, other, same⟩
  · rw [same]
    exact ⟨[], (List.append_nil _).symm, fun _ _ mem => by cases mem⟩
  · rw [same, NfiRead.xor_changed]
    refine ⟨_, rfl, ?_⟩
    intro offset mask mem
    simp only [List.mem_singleton, Prod.mk.injEq] at mem
    exact other offset mem.1.symm

theorem corrects_tied (c : NfiControl) (errors : List EccError) : ∀ {s₀ s : NfiRead},
    NfiRead.Tied s₀ s → NfiRead.Tied s₀ (errors.foldl c.correct s) := by
  induction errors with
  | nil =>
    intro s₀ s tied
    exact tied
  | cons e errors ih =>
    intro s₀ s tied
    exact ih (correct_tied tied e)

theorem corrects_changed (c : NfiControl) (errors : List EccError) : ∀ s : NfiRead,
    ∃ more, (errors.foldl c.correct s).changed = s.changed ++ more ∧
      ∀ offset mask, (NfiByte.page offset, mask) ∉ more := by
  induction errors with
  | nil =>
    intro s
    exact ⟨[], (List.append_nil _).symm, fun _ _ mem => by cases mem⟩
  | cons e errors ih =>
    intro s
    obtain ⟨first, here, none⟩ := correct_changed c s e
    obtain ⟨rest, later, noneLater⟩ := ih (c.correct s e)
    refine ⟨first ++ rest, ?_, ?_⟩
    · rw [List.foldl_cons, later, here, List.append_assoc]
    · intro offset mask mem
      rcases List.mem_append.mp mem with inFirst | inRest
      · exact none offset mask inFirst
      · exact noneLater offset mask inRest

theorem corrects_keeps {errors : List EccError} (P : NfiByte → Prop) (mem : e ∈ errors)
    (changes : ∀ s, ∃ b mask, P b ∧ (b, mask) ∈ (c.correct s e).changed) (s : NfiRead) :
    ∃ b mask, P b ∧ (b, mask) ∈ (errors.foldl c.correct s).changed := by
  obtain ⟨before, behind, rfl⟩ := List.mem_iff_append.mp mem
  rw [List.foldl_append, List.foldl_cons]
  obtain ⟨b, mask, kind, here⟩ := changes (before.foldl c.correct s)
  obtain ⟨more, later, -⟩ := corrects_changed c behind (c.correct (before.foldl c.correct s) e)
  rw [later]
  exact ⟨b, mask, kind, List.mem_append_left _ here⟩

theorem corrects_records (c : NfiControl) (errors : List EccError) : ∀ s : NfiRead,
    s.records.length + errors.length ≤ nfiMaxEccRecords →
      (errors.foldl c.correct s).records = s.records ++
        (errors.filter (·.Data c)).map fun e => (e.pageOffset c % 2 ^ 16, e.mask) := by
  induction errors with
  | nil =>
    intro s _
    simp
  | cons e errors ih =>
    intro s room
    rw [List.length_cons] at room
    rw [List.foldl_cons]
    by_cases data : e.Data c
    · have here := correct_data (s := s) data (by omega)
      rw [ih _ (by rw [here, List.length_append, List.length_singleton]; omega), here,
        List.filter_cons_of_pos (by simpa using data), List.map_cons, List.append_assoc]
      rfl
    · rcases correct_cases c s e with ⟨was, -⟩ | ⟨-, b, -, here⟩
      · exact absurd was data
      · rw [ih _ (by rw [here, NfiRead.xor_records]; omega), here, NfiRead.xor_records,
          List.filter_cons_of_neg (by simpa using data)]

theorem corrects_redundancy (c : NfiControl) (errors : List EccError) : ∀ s : NfiRead,
    (∀ e, e ∈ errors → e.Right c) → (errors.foldl c.correct s).changed = s.changed ++
      (errors.filter (¬·.Data c)).map fun e => (e.place c, e.mask) := by
  induction errors with
  | nil =>
    intro s _
    simp
  | cons e errors ih =>
    intro s right
    have rest := ih (c.correct s e) fun e' here => right e' (List.mem_cons_of_mem _ here)
    rw [List.foldl_cons, rest]
    by_cases data : e.Data c
    · rcases correct_cases c s e with ⟨-, more, here⟩ | ⟨other, -⟩
      · rw [here, List.filter_cons_of_neg (by simpa using data)]
      · exact absurd data other
    · obtain ⟨near, field⟩ := (right e List.mem_cons_self).resolve_left data
      have place : e.place c = .redundancy (e.addr.toNat - c.strength.fieldLen +
          c.strength.parityLen * (e.field - 1)) := by
        rw [EccError.place_protected data near, field]
        rfl
      rw [correct_protected data near, NfiRead.xor_changed,
        List.filter_cons_of_pos (by simpa using data), List.map_cons, List.append_assoc, place]
      rfl

theorem records_run (records : List (Nat × Byte)) : ∀ {s₀ s : NfiRead}, NfiRead.Tied s₀ s →
    let t := records.foldl (fun s record => s.xor (.page record.1) record.2) s
    NfiRead.Tied s₀ t ∧
      t.changed = s.changed ++ records.map fun record => (.page record.1, record.2) := by
  induction records with
  | nil =>
    intro s₀ s tied
    exact ⟨tied, (List.append_nil _).symm⟩
  | cons record records ih =>
    intro s₀ s tied
    obtain ⟨later, changed⟩ := ih (tied.xor (.page record.1) record.2)
    refine ⟨later, ?_⟩
    rw [NfiRead.xor_changed, List.append_assoc] at changed
    exact changed

theorem EccReports.fine (rs : EccReports c) :
    ∀ r, r ∈ rs.list → r.eccfldif = true → ∀ f, f ∈ c.fields → r.Fine f := by
  intro r inside flag f field
  rcases rs.correctable r inside flag f field with clean | failing
  · exact .inl clean
  · have failed : f ∈ c.failed r := by
      rw [NfiControl.failed, if_pos flag]
      exact List.mem_filter.mpr ⟨field, by simpa using failing⟩
    exact .inr ⟨failing, (rs.few r inside f failed).trans c.corrects_le⟩

theorem EccReports.offset_lt (rs : EccReports c) (mem : e ∈ rs.errors) (data : e.Data c) :
    e.pageOffset c < c.writesize := by
  obtain ⟨low, high⟩ := rs.field_of_error mem
  have below : e.addr.toNat < c.strength.fieldLen := data
  have slice : (e.field - 1 + 1) * c.strength.fieldLen ≤ c.totalFieldNum * c.strength.fieldLen :=
    Nat.mul_le_mul_right _ (by omega)
  rw [c.totalFieldNum_fields, Nat.add_mul, Nat.one_mul] at slice
  unfold EccError.pageOffset
  omega

theorem EccReports.page_changes (rs : EccReports c) :
    ((rs.errors.filter (·.Data c)).map fun e => (e.pageOffset c % 2 ^ 16, e.mask)).map
        (fun record => (NfiByte.page record.1, record.2)) =
      (rs.errors.filter (·.Data c)).map fun e => (e.place c, e.mask) := by
  rw [List.map_map]
  apply List.map_congr_left
  intro e mem
  obtain ⟨inside, data⟩ := List.mem_filter.mp mem
  have data : e.Data c := by simpa using data
  have low := rs.offset_lt inside data
  have small := c.writesize_le
  rw [EccError.place_data data, Function.comp_apply, Nat.mod_eq_of_lt (by omega)]

theorem wrong_change {errors : List EccError} {t : List (NfiByte × Byte)}
    (kept : ∀ change, change ∈ (errors.foldl c.correct s).changed → change ∈ t)
    (named : ∀ b mask, (b, mask) ∈ t → ∃ e, e ∈ errors ∧ e.place c = b) (mem : e ∈ errors)
    (fields : 1 ≤ e.field) : e.Right c := by
  have near : ∀ e, e ∈ errors → e.addr.toNat < c.strength.fieldLen + 3 := by
    intro e mem
    by_contra behind
    obtain ⟨b, mask, ⟨address, rfl⟩, changed⟩ :=
      corrects_keeps (fun b => ∃ address, b = NfiByte.memory address) mem (fun s => by
        obtain ⟨address, same⟩ := correct_parity (s := s) behind
        rw [same, NfiRead.xor_changed]
        exact ⟨_, e.mask, ⟨address, rfl⟩, by simp⟩) s
    obtain ⟨e', -, place⟩ := named _ _ (kept _ changed)
    exact EccError.place_ne_memory c e' address place
  by_contra wrong
  have data : ¬e.Data c := fun data => wrong (.inl data)
  have later : e.field ≠ 1 := fun first => wrong (.inr ⟨near e mem, first⟩)
  have parity : 15 ≤ c.strength.parityLen := by
    cases c.strength <;> decide
  have far := Nat.mul_le_mul parity (show 1 ≤ e.field - 1 by omega)
  obtain ⟨b, mask, ⟨index, beyond, rfl⟩, changed⟩ :=
    corrects_keeps (fun b => ∃ index, 3 ≤ index ∧ b = NfiByte.redundancy index) mem (fun s => by
      rw [correct_protected data (near e mem), NfiRead.xor_changed]
      exact ⟨_, e.mask, ⟨e.addr.toNat - c.strength.fieldLen +
        c.strength.parityLen * (e.field - 1), by omega, rfl⟩, by simp⟩) s
  obtain ⟨e', mem', place⟩ := named _ _ (kept _ changed)
  by_cases data' : e'.Data c
  · rw [EccError.place_data data'] at place
    cases place
  · have near' := near e' mem'
    rw [EccError.place_protected data' near'] at place
    injection place with same
    omega

/-- A page read whose errors can all be corrected succeeds. What it changes is what the looks at
the controller changed, and the data bytes named. -/
theorem eccTransfer_run (rs : EccReports c) (s : NfiRead) : ∃ t,
    nfiNandDmaTransfer c rs.list s = some (0, t) ∧ NfiRead.Tied s t ∧
      t.changed = (rs.errors.foldl c.correct { s with records := [], changed := [] }).changed ++
        (rs.errors.filter (·.Data c)).map fun e => (e.place c, e.mask) := by
  have started : NfiRead.Tied s { s with records := [], changed := [] } := by
    intro b
    have none : maskOf [] b = 0 := rfl
    dsimp only
    rw [none]
    cases b <;> exact BitVec.xor_zero.symm
  have records := corrects_records c rs.errors { s with records := [], changed := [] } (by
    rw [List.length_nil, Nat.zero_add]
    exact rs.errors_length)
  obtain ⟨tied, changed⟩ := records_run (rs.errors.foldl c.correct
    { s with records := [], changed := [] }).records (corrects_tied c rs.errors started)
  refine ⟨_, ?_, tied, ?_⟩
  · unfold nfiNandDmaTransfer
    rw [correctReports_run rs.fine]
    rfl
  · rw [changed, records, List.nil_append, rs.page_changes]

theorem EccReports.right_of_exactly (rs : EccReports c) {s t : NfiRead}
    (changed : t.changed =
      (rs.errors.foldl c.correct { s with records := [], changed := [] }).changed ++
        (rs.errors.filter (·.Data c)).map fun e => (e.place c, e.mask))
    (exactly : CorrectsExactly c s t rs.errors) : ∀ e, e ∈ rs.errors → e.Right c := by
  intro e mem
  refine wrong_change (s := { s with records := [], changed := [] }) (t := t.changed) ?_ ?_ mem
    (rs.field_of_error mem).1
  · intro change here
    rw [changed]
    exact List.mem_append_left _ here
  · intro b mask here
    obtain ⟨e', inside, same⟩ := List.mem_map.mp (exactly.once.subset here)
    exact ⟨e', inside, congrArg Prod.fst same⟩

/-- A page read corrects exactly the bytes named where each is a data byte, or one of the first
three of the redundancy area named by the first field. -/
theorem corrects_exactly_iff (c : NfiControl) (rs : EccReports c) (s : NfiRead) :
    ∃ t, nfiNandDmaTransfer c rs.list s = some (0, t) ∧
      (CorrectsExactly c s t rs.errors ↔ ∀ e, e ∈ rs.errors → e.Right c) := by
  obtain ⟨t, run, tied, changed⟩ := eccTransfer_run rs s
  refine ⟨t, run, rs.right_of_exactly changed, ?_⟩
  · intro right
    have once : t.changed.Perm (rs.errors.map fun e => (e.place c, e.mask)) := by
      have split := (List.filter_append_perm (fun e => decide (e.Data c)) rs.errors).map
        fun e => (e.place c, e.mask)
      rw [List.map_append] at split
      rw [changed, corrects_redundancy c rs.errors _ right, List.nil_append]
      refine List.perm_append_comm.trans ?_
      simpa only [decide_not] using split
    refine ⟨once, fun b => ?_, ?_⟩
    · rw [tied b, maskOf_perm once]
    · intro offset mask mem
      obtain ⟨e, inside, same⟩ := List.mem_map.mp (once.subset mem)
      have place : e.place c = .page offset := congrArg Prod.fst same
      by_cases data : e.Data c
      · rw [EccError.place_data data] at place
        injection place with here
        exact here ▸ rs.offset_lt inside data
      · unfold EccError.place at place
        rw [if_neg (show ¬e.addr.toNat < c.strength.fieldLen from data)] at place
        split_ifs at place

/-- BCH T8 on a page of 2 KB with 64 bytes of redundancy area. -/
def smallPage : NfiControl where
  strength := .t8
  pageSize := .k2
  nandctl := 0x00110000
  nandractl := 64
  bchtsel := by decide
  psize := by decide

def parityReport : EccReports smallPage where
  list := [{ eccfldif := true
             ecces := fun jj => if jj = 0 then 0x05 else 0
             eccea := fun ii => if ii = 0 then 529 else 0
             ecced := fun ii => if ii = 0 then 0x01 else 0 }]
  correctable := by decide
  used := by decide
  few := by decide
  placed := by decide
  once := by decide

def erasedPage : NfiRead := ⟨fun _ => 0xff, fun _ => 0xff, fun _ => 0, [], []⟩

/-- The error data goes to address 195 of the memory, not to byte 4 of the redundancy area. -/
theorem parity_error_goes_astray :
    parityReport.errors.map (·.place smallPage) = [.redundancy 4] ∧
      ∃ t, nfiNandDmaTransfer smallPage parityReport.list erasedPage = some (0, t) ∧
        t.changed = [(.memory 195, 0x01)] ∧
          ¬CorrectsExactly smallPage erasedPage t parityReport.errors := by
  obtain ⟨t, run, -, changed⟩ := eccTransfer_run parityReport erasedPage
  refine ⟨by decide, t, run, changed.trans (by decide), ?_⟩
  intro exactly
  have right := parityReport.right_of_exactly changed exactly
  revert right
  decide

end Law

end NuMakerMA35
