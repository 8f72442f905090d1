import Mathlib.Order.Interval.Finset.Nat
import Mathlib.Data.List.Range

namespace NuMakerMA35

def memPoolUnitNum : Nat := 64
def memPoolUnitSize : Nat := 256

structure UnitBase where
  base : Nat
  aligned : 32 ∣ base
  some : base ≠ 0
  fits : base + memPoolUnitNum * memPoolUnitSize ≤ 2 ^ 32

def UnitBase.unit (b : UnitBase) (i : Nat) : Nat := b.base + i * memPoolUnitSize

structure UnitPool where
  used : Nat → Bool
  memPoolUsed : Int
  sidx : Nat

def usbhMemoryInit : UnitPool := ⟨fun _ => false, 0, 0⟩

def setUnits (used : Nat → Bool) (i n : Nat) (mark : Bool) (j : Nat) : Bool :=
  if i ≤ j ∧ j < i + n then mark else used j

def UnitPool.take (p : UnitPool) (i n : Nat) : UnitPool :=
  { p with used := setUnits p.used i n true, memPoolUsed := p.memPoolUsed + n }

def UnitPool.give (p : UnitPool) (i n : Nat) : UnitPool :=
  { p with used := setUnits p.used i n false, memPoolUsed := p.memPoolUsed - n }

/-- The loop of the EHCI allocators, which ends at the unit `stop`. -/
def scanUnits (free : Nat → Bool) (stop : Nat) : Nat → Nat → Option Nat
  | 0, _ => none
  | turns + 1, i =>
    if i = stop then none
    else if free i then some i
    else scanUnits free stop turns ((i + 1) % memPoolUnitNum)

def UnitPool.allocFirst (p : UnitPool) : Option (Nat × UnitPool) :=
  ((List.range memPoolUnitNum).find? fun i => !p.used i).map fun i => (i, p.take i 1)

def UnitPool.allocNext (p : UnitPool) : Option (Nat × UnitPool) :=
  (scanUnits (fun i => !p.used i) p.sidx memPoolUnitNum ((p.sidx + 1) % memPoolUnitNum)).map
    fun i => (i, { p.take i 1 with sidx := i })

def UnitPool.allocPair (p : UnitPool) : Option (Nat × UnitPool) :=
  (scanUnits (fun i => decide (¬memPoolUnitNum ≤ i + 2) && (!p.used i && !p.used (i + 1))) p.sidx
    memPoolUnitNum ((p.sidx + 1) % memPoolUnitNum)).map
      fun i => (i, { p.take i 2 with sidx := i + 1 })

def UnitPool.freeUnits (b : UnitBase) (p : UnitPool) (n ptr : Nat) : UnitPool :=
  match (List.range (memPoolUnitNum + 1 - n)).find? fun i => b.unit i = ptr with
  | some i => p.give i n
  | none => p

def allocOhciED (b : UnitBase) (p : UnitPool) : Option (Nat × UnitPool) :=
  p.allocFirst.map fun out => (b.unit out.1, out.2)

def allocOhciTD (b : UnitBase) (p : UnitPool) : Option (Nat × UnitPool) :=
  p.allocFirst.map fun out => (b.unit out.1, out.2)

def allocEhciQH (b : UnitBase) (p : UnitPool) : Option (Nat × UnitPool) :=
  p.allocNext.map fun out => (b.unit out.1, out.2)

def allocEhciQTD (b : UnitBase) (p : UnitPool) : Option (Nat × UnitPool) :=
  p.allocNext.map fun out => (b.unit out.1, out.2)

def allocEhciITD (b : UnitBase) (p : UnitPool) : Option (Nat × UnitPool) :=
  p.allocPair.map fun out => (b.unit out.1, out.2)

def allocEhciSiTD (b : UnitBase) (p : UnitPool) : Option (Nat × UnitPool) :=
  p.allocNext.map fun out => (b.unit out.1, out.2)

def freeOhciED (b : UnitBase) (p : UnitPool) (ptr : Nat) : UnitPool := p.freeUnits b 1 ptr
def freeOhciTD (b : UnitBase) (p : UnitPool) (ptr : Nat) : UnitPool := p.freeUnits b 1 ptr
def freeEhciQH (b : UnitBase) (p : UnitPool) (ptr : Nat) : UnitPool := p.freeUnits b 1 ptr
def freeEhciQTD (b : UnitBase) (p : UnitPool) (ptr : Nat) : UnitPool := p.freeUnits b 1 ptr
def freeEhciITD (b : UnitBase) (p : UnitPool) (ptr : Nat) : UnitPool := p.freeUnits b 2 ptr
def freeEhciSiTD (b : UnitBase) (p : UnitPool) (ptr : Nat) : UnitPool := p.freeUnits b 1 ptr

inductive UnitKind where
  | ed
  | td
  | qh
  | qtd
  | itd
  | sitd
  deriving DecidableEq

def UnitKind.size : UnitKind → Nat
  | .ed => 24
  | .td => 48
  | .qh => 60
  | .qtd => 48
  | .itd => 88
  | .sitd => 48

def UnitKind.units : UnitKind → Nat
  | .itd => 2
  | _ => 1

def UnitKind.alloc (b : UnitBase) (p : UnitPool) : UnitKind → Option (Nat × UnitPool)
  | .ed => allocOhciED b p
  | .td => allocOhciTD b p
  | .qh => allocEhciQH b p
  | .qtd => allocEhciQTD b p
  | .itd => allocEhciITD b p
  | .sitd => allocEhciSiTD b p

def UnitKind.free (b : UnitBase) (p : UnitPool) (ptr : Nat) : UnitKind → UnitPool
  | .ed => freeOhciED b p ptr
  | .td => freeOhciTD b p ptr
  | .qh => freeEhciQH b p ptr
  | .qtd => freeEhciQTD b p ptr
  | .itd => freeEhciITD b p ptr
  | .sitd => freeEhciSiTD b p ptr

section Scan

variable {free : Nat → Bool} {stop i : Nat}

theorem scanUnits_some (turns : Nat) {j : Nat} (inside : i < memPoolUnitNum)
    (found : scanUnits free stop turns i = some j) :
    free j = true ∧ j < memPoolUnitNum ∧ j ≠ stop := by
  induction turns generalizing i with
  | zero => cases found
  | succ n ih =>
    unfold scanUnits at found
    split_ifs at found with atStop here
    · cases found
      exact ⟨here, inside, atStop⟩
    · exact ih (Nat.mod_lt _ (by decide)) found

theorem scanUnits_none (turns : Nat) (inside : i < memPoolUnitNum)
    (missed : scanUnits free stop turns i = none) {k : Nat} (early : k < turns)
    (before : ∀ j ≤ k, (i + j) % memPoolUnitNum ≠ stop) :
    free ((i + k) % memPoolUnitNum) = false := by
  induction turns generalizing i k with
  | zero => omega
  | succ n ih =>
    have first := before 0 (Nat.zero_le k)
    rw [Nat.add_zero, Nat.mod_eq_of_lt inside] at first
    unfold scanUnits at missed
    rw [if_neg first] at missed
    split_ifs at missed with here
    cases k with
    | zero =>
      rw [Nat.add_zero, Nat.mod_eq_of_lt inside]
      exact Bool.eq_false_iff.mpr here
    | succ k =>
      have shift (j : Nat) : ((i + 1) % memPoolUnitNum + j) % memPoolUnitNum =
          (i + (j + 1)) % memPoolUnitNum := by
        rw [Nat.mod_add_mod]
        congr 1
        omega
      rw [← shift]
      refine ih (Nat.mod_lt _ (by decide)) missed (by omega) ?_
      intro j low
      rw [shift]
      exact before (j + 1) (by omega)

theorem scanUnits_missed (within : stop < memPoolUnitNum)
    (missed : scanUnits free stop memPoolUnitNum ((stop + 1) % memPoolUnitNum) = none) {j : Nat}
    (inside : j < memPoolUnitNum) (other : j ≠ stop) : free j = false := by
  have early : (j + memPoolUnitNum - (stop + 1)) % memPoolUnitNum < memPoolUnitNum :=
    Nat.mod_lt _ (by decide)
  have seen := scanUnits_none memPoolUnitNum (Nat.mod_lt _ (by decide)) missed early
  unfold memPoolUnitNum at *
  have here : ((stop + 1) % 64 + (j + 64 - (stop + 1)) % 64) % 64 = j := by omega
  rw [here] at seen
  exact seen fun k low => by omega

end Scan

section Marks

variable {p : UnitPool} {b : UnitBase} {i n j : Nat}

def UnitPool.usedCount (used : Nat → Bool) : Nat :=
  ((Finset.range memPoolUnitNum).filter fun i => used i).card

theorem UnitPool.usedCount_take {used : Nat → Bool} (inside : i + n ≤ memPoolUnitNum)
    (free : ∀ j, i ≤ j → j < i + n → used j = false) :
    UnitPool.usedCount (setUnits used i n true) = UnitPool.usedCount used + n := by
  have split : (Finset.range memPoolUnitNum).filter (fun j => setUnits used i n true j) =
      (Finset.range memPoolUnitNum).filter (fun j => used j) ∪ Finset.Ico i (i + n) := by
    ext j
    simp only [Finset.mem_filter, Finset.mem_union, Finset.mem_range, Finset.mem_Ico]
    unfold setUnits
    split_ifs with here
    · constructor
      · exact fun _ => Or.inr here
      · exact fun _ => ⟨by omega, rfl⟩
    · exact (or_iff_left here).symm
  have apart : Disjoint ((Finset.range memPoolUnitNum).filter fun j => used j) (Finset.Ico i (i + n)) := by
    rw [Finset.disjoint_left]
    intro j here inside
    obtain ⟨low, high⟩ := Finset.mem_Ico.mp inside
    have taken := (Finset.mem_filter.mp here).2
    rw [free j low high] at taken
    cases taken
  unfold UnitPool.usedCount
  rw [split, Finset.card_union_of_disjoint apart, Nat.card_Ico, Nat.add_sub_cancel_left]

theorem setUnits_setUnits {used : Nat → Bool} (taken : ∀ j, i ≤ j → j < i + n → used j = true) :
    setUnits (setUnits used i n false) i n true = used := by
  funext j
  unfold setUnits
  split_ifs with here
  · exact (taken j here.1 here.2).symm
  · rfl

theorem UnitPool.usedCount_give {used : Nat → Bool} (inside : i + n ≤ memPoolUnitNum)
    (taken : ∀ j, i ≤ j → j < i + n → used j = true) :
    UnitPool.usedCount used = UnitPool.usedCount (setUnits used i n false) + n := by
  have free : ∀ j, i ≤ j → j < i + n → setUnits used i n false j = false := by
    intro j low high
    unfold setUnits
    rw [if_pos ⟨low, high⟩]
  have back := UnitPool.usedCount_take inside free
  rwa [setUnits_setUnits taken] at back

theorem UnitBase.unit_inj : b.unit i = b.unit j ↔ i = j := by
  unfold UnitBase.unit memPoolUnitSize
  omega

theorem UnitPool.freeUnits_unit (inside : i + n ≤ memPoolUnitNum) :
    p.freeUnits b n (b.unit i) = p.give i n := by
  unfold UnitPool.freeUnits
  have found : ((List.range (memPoolUnitNum + 1 - n)).find? fun j => b.unit j = b.unit i) =
      .some i := by
    rw [List.find?_range_eq_some]
    refine ⟨decide_eq_true rfl, List.mem_range.mpr (by omega), ?_⟩
    intro j low
    rw [Bool.not_eq_true', decide_eq_false_iff_not, UnitBase.unit_inj]
    omega
  rw [found]

end Marks

end NuMakerMA35
