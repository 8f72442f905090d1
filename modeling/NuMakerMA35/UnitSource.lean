import NuMakerMA35.UnitPoolSound
import NuMakerMA35.BitUtil
import Mathlib.Logic.Function.Basic

namespace NuMakerMA35

/-- The pool; `refuse` tells of the next allocations which fail whatever is free. -/
structure UnitSource where
  pool : UnitPool
  refuse : List Bool

def UnitSource.take (s : UnitSource) (alloc : UnitPool → Option (Nat × UnitPool)) : U32 × UnitSource :=
  match s.refuse with
  | true :: refuse => (0, ⟨s.pool, refuse⟩)
  | refuse =>
    match alloc s.pool with
    | some (a, pool) => (BitVec.ofNat 32 a, ⟨pool, refuse.tail⟩)
    | none => (0, ⟨s.pool, refuse.tail⟩)

def UnitBase.addr (b : UnitBase) (i : Nat) : U32 := BitVec.ofNat 32 (b.unit i)

def got (a : U32) : List U32 := if a = 0 then [] else [a]

section Got

variable {a : U32}

theorem got_zero : got 0 = [] := rfl

theorem got_of_ne (some : a ≠ 0) : got a = [a] := if_neg some

theorem mem_got {c : U32} : c ∈ got a ↔ c = a ∧ a ≠ 0 := by
  unfold got
  split_ifs with none
  · exact iff_of_false List.not_mem_nil fun both => both.2 none
  · rw [List.mem_singleton]
    exact (and_iff_left none).symm

end Got

namespace UnitBase

def InUse (b : UnitBase) (used : Nat → Bool) (a : U32) : Prop :=
  ∃ i < memPoolUnitNum, used i = true ∧ a = b.addr i

def Fresh (b : UnitBase) (used : Nat → Bool) (a : U32) : Prop :=
  ∃ i < memPoolUnitNum, used i = false ∧ a = b.addr i

structure Grew (b : UnitBase) (used used' : Nat → Bool) (taken : List U32) : Prop where
  fresh : ∀ a ∈ taken, b.Fresh used a
  used : ∀ i < memPoolUnitNum, used' i = (used i || decide (b.addr i ∈ taken))

section Units

variable {b : UnitBase} {used used' used'' : Nat → Bool} {p : UnitPool} {a : U32} {i j : Nat}
  {taken later given : List U32}

theorem unit_lt (inside : i < memPoolUnitNum) : b.unit i < 2 ^ 32 := by
  have fits := b.fits
  unfold UnitBase.unit
  unfold memPoolUnitNum memPoolUnitSize at *
  omega

theorem addr_toNat (inside : i < memPoolUnitNum) : (b.addr i).toNat = b.unit i := by
  unfold UnitBase.addr
  rw [BitVec.toNat_ofNat, Nat.mod_eq_of_lt (unit_lt inside)]

theorem addr_inj (first : i < memPoolUnitNum) (second : j < memPoolUnitNum) :
    b.addr i = b.addr j ↔ i = j := by
  rw [← BitVec.toNat_inj, addr_toNat first, addr_toNat second, UnitBase.unit_inj]

theorem addr_ne_zero (inside : i < memPoolUnitNum) : b.addr i ≠ 0 := by
  have some := b.some
  intro zero
  have number := addr_toNat (b := b) inside
  rw [zero] at number
  unfold UnitBase.unit at number
  simp at number
  omega

theorem InUse.ne_zero (inUse : b.InUse used a) : a ≠ 0 := by
  obtain ⟨i, inside, -, rfl⟩ := inUse
  exact addr_ne_zero inside

theorem InUse.not_fresh (inUse : b.InUse used a) : ¬b.Fresh used a := by
  obtain ⟨i, inside, taken, rfl⟩ := inUse
  rintro ⟨j, low, free, same⟩
  rw [addr_inj inside low] at same
  rw [same, free] at taken
  cases taken

theorem freeUnits_used (inside : i < memPoolUnitNum) :
    (p.freeUnits b 1 a.toNat).used i = (p.used i && decide (b.addr i ≠ a)) := by
  have here : b.addr i = a ↔ b.unit i = a.toNat := by rw [← BitVec.toNat_inj, addr_toNat inside]
  by_cases same : b.unit i = a.toNat
  · rw [← same, UnitPool.freeUnits_unit inside, decide_eq_false (not_not.mpr (here.mpr same)),
      Bool.and_false]
    exact if_pos ⟨le_rfl, Nat.lt_succ_self i⟩
  · rw [decide_eq_true (mt here.mp same), Bool.and_true]
    unfold UnitPool.freeUnits
    split
    · next j found =>
      have other : b.unit j = a.toNat := of_decide_eq_true (List.find?_range_eq_some.mp found).1
      have apart : j ≠ i := by
        rintro rfl
        exact same other
      exact if_neg (by omega)
    · rfl

theorem Grew.none (same : ∀ i < memPoolUnitNum, used' i = used i) : b.Grew used used' [] := by
  refine ⟨?_, ?_⟩
  · intro a mem
    cases mem
  · intro i inside
    simp [same i inside]

theorem Grew.same (grew : b.Grew used used' []) : ∀ i < memPoolUnitNum, used' i = used i := by
  intro i inside
  rw [grew.used i inside]
  simp

theorem Grew.trans (first : b.Grew used used' taken) (second : b.Grew used' used'' later) :
    b.Grew used used'' (taken ++ later) := by
  refine ⟨?_, ?_⟩
  · intro a mem
    rcases List.mem_append.mp mem with mem | mem
    · exact first.fresh a mem
    · obtain ⟨i, inside, free, rfl⟩ := second.fresh a mem
      rw [first.used i inside, Bool.or_eq_false_iff] at free
      exact ⟨i, inside, free.1, rfl⟩
  · intro i inside
    rw [second.used i inside, first.used i inside]
    simp [Bool.or_assoc]

theorem Grew.back (grew : b.Grew used used' taken) (given : List U32)
    (freed : ∀ i < memPoolUnitNum, used'' i = (used' i && decide (b.addr i ∉ given)))
    (all : ∀ a ≠ 0, a ∈ given ↔ a ∈ taken) : ∀ i < memPoolUnitNum, used'' i = used i := by
  intro i inside
  have same := all (b.addr i) (addr_ne_zero inside)
  rw [freed i inside, grew.used i inside]
  by_cases here : b.addr i ∈ taken
  · obtain ⟨j, low, free, again⟩ := grew.fresh _ here
    rw [addr_inj inside low] at again
    rw [decide_eq_false (not_not.mpr (same.mpr here)), Bool.and_false, again, free]
  · rw [decide_eq_true (mt same.mp here), decide_eq_false here, Bool.and_true, Bool.or_false]

theorem InUse.grew (inUse : b.InUse used a) (grew : b.Grew used used' taken) : b.InUse used' a := by
  obtain ⟨i, inside, taken, rfl⟩ := inUse
  exact ⟨i, inside, by rw [grew.used i inside, taken, Bool.true_or], rfl⟩

theorem Grew.inUse (grew : b.Grew used used' taken) (mem : a ∈ taken) : b.InUse used' a := by
  obtain ⟨i, inside, -, rfl⟩ := grew.fresh a mem
  refine ⟨i, inside, ?_, rfl⟩
  rw [grew.used i inside, decide_eq_true mem, Bool.or_true]

theorem take_grew {s : UnitSource} (kind : UnitKind) (single : kind.units = 1) :
    b.Grew s.pool.used (s.take fun p => kind.alloc b p).2.pool.used
      (got (s.take fun p => kind.alloc b p).1) := by
  unfold UnitSource.take
  split
  · exact .none fun _ _ => rfl
  · split
    · next found =>
      obtain ⟨i, rfl, takes⟩ := UnitKind.alloc_some found
      have inPool := takes.inPool
      rw [single] at inPool
      have inside : i < memPoolUnitNum := by omega
      have some : b.addr i ≠ 0 := addr_ne_zero inside
      have same : got (BitVec.ofNat 32 (b.unit i)) = [b.addr i] := got_of_ne some
      dsimp only
      rw [same]
      refine ⟨?_, ?_⟩
      · intro a mem
        rw [List.mem_singleton] at mem
        exact ⟨i, inside, takes.free i le_rfl (by omega), mem⟩
      · intro j low
        rw [takes.used, single]
        unfold setUnits
        by_cases here : j = i
        · simp [here]
        · rw [if_neg (by omega)]
          simp [(addr_inj low inside).not.mpr here]
    · exact .none fun _ _ => rfl

theorem take_taken {s : UnitSource} (kind : UnitKind) (granted : (s.take fun p => kind.alloc b p).1 ≠ 0) :
    b.Fresh s.pool.used (s.take fun p => kind.alloc b p).1 ∧
      b.InUse (s.take fun p => kind.alloc b p).2.pool.used (s.take fun p => kind.alloc b p).1 ∧
      ∀ c, b.InUse s.pool.used c → b.InUse (s.take fun p => kind.alloc b p).2.pool.used c := by
  unfold UnitSource.take at granted ⊢
  split at granted
  · exact absurd rfl granted
  · split at granted
    · next found =>
      obtain ⟨i, rfl, takes⟩ := UnitKind.alloc_some found
      have inPool := takes.inPool
      have units := UnitKind.units_pos kind
      have inside : i < memPoolUnitNum := by omega
      have mine : i ≤ i ∧ i < i + kind.units := ⟨le_rfl, by omega⟩
      refine ⟨⟨i, inside, takes.free i le_rfl (by omega), rfl⟩, ⟨i, inside, ?_, rfl⟩, ?_⟩
      · rw [takes.used]
        exact if_pos mine
      · rintro c ⟨j, low, taken, rfl⟩
        refine ⟨j, low, ?_, rfl⟩
        rw [takes.used]
        unfold setUnits
        split_ifs
        · rfl
        · exact taken
    · exact absurd rfl granted

end Units

end UnitBase

end NuMakerMA35
