import NuMakerMA35.NfiEcc

namespace NuMakerMA35

open Words

/-- One error of a field: its address counts from the begin of the field. -/
structure EccError where
  field : Nat
  addr : U32
  data : U32

namespace EccReport

variable (r : EccReport)

def status (field : Nat) : U32 := r.ecces ((field - 1) / 4) >>> (8 * ((field - 1) % 4))
def stat (field : Nat) : U32 := r.status field &&& 0x03
def count (field : Nat) : Nat := (r.status field >>> 2 &&& 0x1F).toNat

def fieldErrors (field : Nat) : List EccError :=
  if r.stat field = 1 then
    (List.range (r.count field)).map fun i =>
      ⟨field, r.eccea (i / 2) >>> (16 * (i % 2)) &&& 0x7ff,
        r.ecced (i / 4) >>> (8 * (i % 4)) &&& 0xff⟩
  else []

end EccReport

namespace NfiControl

variable (c : NfiControl)

def totalFieldNum : Nat := c.writesize / c.strength.fieldLen

/-- The fields that have a status, counted from one; a small page does not use all of them. -/
def fields : List Nat := List.range' 1 (4 * c.statusRegisters)

def errors (r : EccReport) : List EccError :=
  if r.eccfldif then c.fields.flatMap r.fieldErrors else []

def failed (r : EccReport) : List Nat :=
  if r.eccfldif then c.fields.filter (r.stat · = 1) else []

def correct (s : NfiRead) (e : EccError) : NfiRead :=
  correctError c c.strength c.totalFieldNum e.field e.addr e.data s

theorem selectedStrength_eq : selectedStrength c.nandctl = some c.strength := by
  unfold selectedStrength
  rw [c.bchtsel]
  cases c.strength <;> rfl

theorem selectedPageSize_eq : selectedPageSize c.nandctl = some c.pageSize := by
  unfold selectedPageSize
  rw [c.psize]
  cases c.pageSize <;> rfl

theorem totalFieldNum_fields : c.totalFieldNum * c.strength.fieldLen = c.writesize := by
  unfold totalFieldNum writesize
  cases c.strength <;> cases c.pageSize <;> rfl

theorem writesize_le : c.writesize ≤ 8192 := by
  unfold writesize
  cases c.pageSize <;> decide

theorem corrects_le : c.strength.corrects ≤ 24 := by
  cases c.strength <;> decide

theorem all_corrected_le : c.strength.corrects * c.totalFieldNum ≤ 192 := by
  unfold totalFieldNum writesize
  cases c.strength <;> cases c.pageSize <;> decide

end NfiControl

section Unpack

variable {regs : Nat → U32} {per width : Nat} {mask : U32}

theorem unpack_length (regs : Nat → U32) (per width : Nat) (mask : U32) (n : Nat) :
    (unpack regs per width mask n).length = n * per := by
  simp [unpack]

theorem unpack_get {n i : Nat} (filled : i < n * per) :
    (unpack regs per width mask n)[i]? =
      some (regs (i / per) >>> (width * (i % per)) &&& mask) := by
  induction n with
  | zero => omega
  | succ n ih =>
    have more : unpack regs per width mask (n + 1) = unpack regs per width mask n ++
        (List.range per).map fun k => regs n >>> (width * k) &&& mask := by
      simp [unpack, List.range_succ]
    rw [more]
    by_cases before : i < n * per
    · rw [List.getElem?_append_left (by rw [unpack_length]; exact before)]
      exact ih before
    · have here : i - n * per < per := by
        rw [Nat.succ_mul] at filled
        omega
      have place : i = per * n + (i - n * per) := by
        rw [Nat.mul_comm per n]
        omega
      have quotient : i / per = n := by
        rw [place, Nat.mul_add_div (by omega), Nat.div_eq_of_lt here, Nat.add_zero]
      have rest : i % per = i - n * per := by
        conv_lhs => rw [place]
        rw [Nat.mul_add_mod, Nat.mod_eq_of_lt here]
      rw [List.getElem?_append_right (by rw [unpack_length]; omega), unpack_length,
        List.getElem?_map, List.getElem?_range here, quotient, rest]
      rfl

end Unpack

section Shift

variable {x m : U32} {a : Nat}

theorem sshift_and (small : m.toNat < 2 ^ (32 - a)) : x.sshiftRight a &&& m = x >>> a &&& m := by
  apply BitVec.eq_of_getLsbD_eq
  intro i hi
  rw [BitVec.getLsbD_and, BitVec.getLsbD_and, BitVec.getLsbD_sshiftRight,
    BitVec.getLsbD_ushiftRight]
  by_cases inside : a + i < 32
  · simp [inside, show ¬32 ≤ i by omega]
  · have clear : m.getLsbD i = false :=
      Nat.testBit_lt_two_pow (small.trans_le (Nat.pow_le_pow_right (by decide) (by omega)))
    rw [clear, Bool.and_false, Bool.and_false]

end Shift

section Run

variable {c : NfiControl} {r : EccReport}

theorem correctDataBCH_run {field : Nat} (failing : r.stat field = 1) (few : r.count field ≤ 24)
    (s : NfiRead) :
    fmiSMCorrectDataBCH c r field (r.count field) s =
      some ((r.fieldErrors field).foldl c.correct s) := by
  unfold fmiSMCorrectDataBCH EccReport.fieldErrors
  rw [c.selectedStrength_eq, c.selectedPageSize_eq, if_pos failing, List.foldl_map]
  refine foldlM_of_pure (r := fun s => s) ?_ s
  intro s ii here
  have below := List.mem_range.mp here
  have addr : (unpack r.eccea 2 16 0x7ff (min (r.count field / 2 + 1) 12))[ii]? = _ :=
    unpack_get (by omega)
  have data : (unpack r.ecced 4 8 0xff (min (r.count field / 4 + 1) 6))[ii]? = _ :=
    unpack_get (by omega)
  rw [addr, data]
  rfl

/-- A field without errors or with errors that fit the local arrays. -/
def EccReport.Fine (r : EccReport) (field : Nat) : Prop :=
  r.stat field = 0 ∨ r.stat field = 1 ∧ r.count field ≤ 24

theorem status_turn (jj : Nat) {k : Nat} (within : k < 4) {a : Nat} {m : U32}
    (small : 8 * k + a ≤ 26) (mask : m.toNat < 2 ^ 5) :
    ((r.ecces jj).sshiftRight (8 * k)).sshiftRight a &&& m =
      r.status (jj * 4 + 1 + k) >>> a &&& m := by
  have register : (jj * 4 + 1 + k - 1) / 4 = jj := by omega
  have turn : (jj * 4 + 1 + k - 1) % 4 = k := by omega
  have room : 2 ^ 5 ≤ 2 ^ (32 - (8 * k + a)) := Nat.pow_le_pow_right (by decide) (by omega)
  rw [← BitVec.sshiftRight_add, sshift_and (mask.trans_le room), BitVec.shiftRight_add]
  unfold EccReport.status
  rw [register, turn]

theorem correctFields_run (jj : Nat) (fine : ∀ k, k < 4 → r.Fine (jj * 4 + 1 + k)) (n : Nat) :
    ∀ {k : Nat}, n + k = 4 → ∀ (errorCnt : Nat) (s : NfiRead), ∃ errorCnt',
      correctFields c r n (jj * 4 + 1 + k) ((r.ecces jj).sshiftRight (8 * k)) errorCnt s =
        some (some errorCnt',
          ((List.range' (jj * 4 + 1 + k) n).flatMap r.fieldErrors).foldl c.correct s) := by
  induction n with
  | zero =>
    intro k _ errorCnt s
    exact ⟨errorCnt, rfl⟩
  | succ n ih =>
    intro k whole errorCnt s
    have within : k < 4 := by omega
    have stat : (r.ecces jj).sshiftRight (8 * k) &&& 0x03 = r.stat (jj * 4 + 1 + k) := by
      have low := status_turn (r := r) jj within (a := 0) (m := 0x03) (by omega) (by decide)
      rwa [BitVec.sshiftRight_zero, BitVec.ushiftRight_zero] at low
    have count : ((r.ecces jj).sshiftRight (8 * k)).sshiftRight 2 &&& (0x1F : U32) =
        r.status (jj * 4 + 1 + k) >>> 2 &&& (0x1F : U32) :=
      status_turn jj within (by omega) (by decide)
    have later := ih (k := k + 1) (by omega)
    have next : (r.ecces jj).sshiftRight (8 * (k + 1)) =
        ((r.ecces jj).sshiftRight (8 * k)).sshiftRight 8 := by
      rw [Nat.mul_add, ← BitVec.sshiftRight_add]
    rw [next, ← Nat.add_assoc] at later
    rw [List.range'_succ, List.flatMap_cons, List.foldl_append]
    unfold correctFields
    rw [stat, count]
    rcases fine k within with clean | ⟨failing, few⟩
    · have none : r.fieldErrors (jj * 4 + 1 + k) = [] := by
        rw [EccReport.fieldErrors, clean, if_neg (by decide)]
      rw [if_pos clean, none]
      exact later errorCnt s
    · have other : ¬r.stat (jj * 4 + 1 + k) = 0 := by
        rw [failing]
        decide
      rw [if_neg other, if_pos failing]
      have corrected := correctDataBCH_run (c := c) failing few s
      unfold EccReport.count at corrected
      dsimp only
      rw [corrected]
      exact later _ _

theorem correctRegisters_run (n : Nat) : ∀ jj : Nat,
    (∀ f, jj * 4 + 1 ≤ f → f < jj * 4 + 1 + 4 * n → r.Fine f) →
      ∀ (errorCnt : Nat) (s : NfiRead), ∃ errorCnt',
        correctRegisters c r n jj errorCnt s = some (some errorCnt',
          ((List.range' (jj * 4 + 1) (4 * n)).flatMap r.fieldErrors).foldl c.correct s) := by
  induction n with
  | zero =>
    intro jj _ errorCnt s
    exact ⟨errorCnt, rfl⟩
  | succ n ih =>
    intro jj fine errorCnt s
    have later := ih (jj + 1) fun f low high => fine f (by omega) (by omega)
    have split : List.range' (jj * 4 + 1) (4 * (n + 1)) =
        List.range' (jj * 4 + 1) 4 ++ List.range' ((jj + 1) * 4 + 1) (4 * n) := by
      rw [show (jj + 1) * 4 + 1 = jj * 4 + 1 + 4 by omega, List.range'_append_1,
        show 4 * (n + 1) = 4 + 4 * n by omega]
    rw [split, List.flatMap_append, List.foldl_append]
    unfold correctRegisters
    by_cases clean : r.ecces jj = 0
    · have none : (List.range' (jj * 4 + 1) 4).flatMap r.fieldErrors = [] := by
        apply List.flatMap_eq_nil_iff.mpr
        intro f here
        obtain ⟨low, high⟩ := List.mem_range'_1.mp here
        have zero : r.stat f = 0 := by
          rw [EccReport.stat, EccReport.status, show (f - 1) / 4 = jj by omega, clean]
          simp
        rw [EccReport.fieldErrors, zero, if_neg (by decide)]
      rw [if_pos clean, none]
      exact later errorCnt s
    · obtain ⟨cnt, turn⟩ := correctFields_run (c := c) jj
        (fun k within => fine _ (by omega) (by omega)) 4 (Nat.add_zero 4) errorCnt s
      rw [Nat.mul_zero, Nat.add_zero, BitVec.sshiftRight_zero] at turn
      rw [if_neg clean, turn]
      exact later cnt _

theorem fmiSMCorrectData_run (fine : r.eccfldif = true → ∀ f, f ∈ c.fields → r.Fine f)
    (s : NfiRead) : ∃ errorCnt : Nat,
      fmiSMCorrectData c r s = some ((errorCnt : Int), (c.errors r).foldl c.correct s) := by
  unfold fmiSMCorrectData NfiControl.errors
  by_cases flag : r.eccfldif = true
  · obtain ⟨cnt, run⟩ := correctRegisters_run (c := c) (r := r) c.statusRegisters 0
      (fun f low high => fine flag f (List.mem_range'_1.mpr ⟨by omega, by omega⟩)) 0 s
    rw [if_pos flag, if_pos flag, run]
    exact ⟨cnt, rfl⟩
  · rw [if_neg flag, if_neg flag]
    exact ⟨0, rfl⟩

theorem correctReports_run {rs : List EccReport}
    (fine : ∀ r, r ∈ rs → r.eccfldif = true → ∀ f, f ∈ c.fields → r.Fine f) (s : NfiRead) :
    correctReports c rs s = some (false, (rs.flatMap c.errors).foldl c.correct s) := by
  induction rs generalizing s with
  | nil => rfl
  | cons r rs ih =>
    obtain ⟨cnt, look⟩ := fmiSMCorrectData_run (c := c) (fine r List.mem_cons_self) s
    rw [correctReports, look, List.flatMap_cons, List.foldl_append]
    dsimp only
    rw [if_neg (by omega)]
    exact ih (fun r here => fine r (List.mem_cons_of_mem _ here)) _

end Run

end NuMakerMA35
