import Mathlib.Algebra.Group.Nat.Defs
import Mathlib.Data.List.Nodup
import Mathlib.Data.List.Perm.Subperm
import Mathlib.Logic.Function.Basic

namespace NuMakerMA35.Linked

variable {α : Type} {next : α → α} {p q x : α} {xs ys : List α}

/-- The links lead from `p` through the nodes `xs` to `q`. -/
def Seg (next : α → α) : α → List α → α → Prop
  | p, [], q => p = q
  | p, x :: xs, q => p = x ∧ Seg next (next x) xs q

theorem seg_append : Seg next p (xs ++ ys) q ↔ ∃ r, Seg next p xs r ∧ Seg next r ys q := by
  induction xs generalizing p with
  | nil => simp [Seg]
  | cons x xs ih =>
    simp only [List.cons_append, Seg, ih]
    constructor
    · rintro ⟨here, r, first, second⟩
      exact ⟨r, ⟨here, first⟩, second⟩
    · rintro ⟨r, ⟨here, first⟩, second⟩
      exact ⟨here, r, first, second⟩

theorem Seg.congr {next' : α → α} (h : Seg next p xs q) (same : ∀ y ∈ xs, next' y = next y) :
    Seg next' p xs q := by
  induction xs generalizing p with
  | nil => exact h
  | cons x xs ih =>
    obtain ⟨here, rest⟩ := h
    refine ⟨here, ?_⟩
    rw [same x (List.mem_cons_self ..)]
    exact ih rest fun y hy => same y (List.mem_cons_of_mem _ hy)

theorem seg_split : Seg next p (xs ++ x :: ys) q ↔ Seg next p xs x ∧ Seg next (next x) ys q := by
  rw [seg_append]
  constructor
  · rintro ⟨r, first, rfl, second⟩
    exact ⟨first, second⟩
  · rintro ⟨first, second⟩
    exact ⟨x, first, rfl, second⟩

section Surgery

variable [DecidableEq α]

theorem Seg.update (h : Seg next p xs q) (outside : x ∉ xs) (v : α) :
    Seg (Function.update next x v) p xs q := by
  apply h.congr
  intro y hy
  exact Function.update_of_ne (ne_of_mem_of_not_mem hy outside) ..

theorem Seg.insert {new : α} (h : Seg next p (xs ++ x :: ys) q) (nodup : (xs ++ x :: ys).Nodup)
    (fresh : new ∉ xs ++ x :: ys) :
    Seg (Function.update (Function.update next new (next x)) x new) p (xs ++ x :: new :: ys) q := by
  obtain ⟨first, second⟩ := seg_split.mp h
  simp only [List.mem_append, List.mem_cons, not_or] at fresh
  obtain ⟨notXs, notX, notYs⟩ := fresh
  obtain ⟨xInXs, xInYs⟩ : x ∉ xs ∧ x ∉ ys := by
    rw [List.nodup_middle, List.nodup_cons, List.mem_append, not_or] at nodup
    exact nodup.1
  refine seg_split.mpr ⟨(first.update notXs _).update xInXs _, ?_, ?_⟩
  · exact Function.update_self ..
  · rw [Function.update_of_ne notX, Function.update_self]
    exact (second.update notYs _).update xInYs _

theorem Seg.remove {old : α} (h : Seg next p (xs ++ x :: old :: ys) q)
    (nodup : (xs ++ x :: old :: ys).Nodup) :
    Seg (Function.update next x (next old)) p (xs ++ x :: ys) q := by
  obtain ⟨first, second⟩ := seg_split.mp h
  obtain ⟨xInXs, xInRest⟩ : x ∉ xs ∧ x ∉ old :: ys := by
    rw [List.nodup_middle, List.nodup_cons, List.mem_append, not_or] at nodup
    exact nodup.1
  refine seg_split.mpr ⟨first.update xInXs _, ?_⟩
  rw [Function.update_self]
  exact second.2.update (fun mem => xInRest (List.mem_cons_of_mem _ mem)) _

/-- The walk that looks for the node before `gone`, up to the last node. -/
def findPrev (next : α → α) (gone stop : α) : Nat → α → Option (Option α)
  | 0, _ => none
  | turns + 1, p =>
    if next p = stop then some none
    else if next p = gone then some (some p)
    else findPrev next gone stop turns (next p)

theorem findPrev_none {gone stop : α} {turns : Nat} (h : Seg next p (p :: xs) stop) (apart : stop ∉ xs)
    (enough : xs.length < turns) (absent : gone ∉ xs) : findPrev next gone stop turns p = some none := by
  induction xs generalizing p turns with
  | nil =>
    obtain ⟨turns, rfl⟩ := Nat.exists_eq_add_of_lt enough
    exact if_pos h.2
  | cons x xs ih =>
    obtain ⟨turns, rfl⟩ := Nat.exists_eq_succ_of_ne_zero (Nat.ne_zero_of_lt enough)
    obtain ⟨-, here, rest⟩ := h
    obtain ⟨notHere, notRest⟩ := not_or.mp (mt List.mem_cons.mpr apart)
    obtain ⟨other, later⟩ := not_or.mp (mt List.mem_cons.mpr absent)
    rw [findPrev, here, if_neg (Ne.symm notHere), if_neg (Ne.symm other)]
    exact ih ⟨rfl, rest⟩ notRest (Nat.lt_of_succ_lt_succ enough) later

theorem findPrev_some {gone stop before : α} {turns : Nat} {as zs : List α}
    (h : Seg next p (p :: xs) stop) (apart : stop ∉ xs) (nodup : (p :: xs).Nodup)
    (enough : xs.length < turns) (cut : p :: xs = as ++ before :: gone :: zs) :
    findPrev next gone stop turns p = some (some before) := by
  induction as generalizing p xs turns with
  | nil =>
    obtain ⟨rfl, rfl⟩ := List.cons.inj cut
    obtain ⟨turns, rfl⟩ := Nat.exists_eq_succ_of_ne_zero (Nat.ne_zero_of_lt enough)
    obtain ⟨-, here, -⟩ := h
    have notHere := (not_or.mp (mt List.mem_cons.mpr apart)).1
    rw [findPrev, here, if_neg (Ne.symm notHere), if_pos rfl]
  | cons a as ih =>
    obtain ⟨rfl, hxs⟩ := List.cons.inj cut
    obtain ⟨turns, rfl⟩ := Nat.exists_eq_succ_of_ne_zero (Nat.ne_zero_of_lt enough)
    -- the next node is one before `gone`
    obtain ⟨x, ys, hx⟩ : ∃ x ys, as ++ before :: gone :: zs = x :: ys := by
      cases as with
      | nil => exact ⟨_, _, rfl⟩
      | cons a as => exact ⟨_, _, rfl⟩
    have later : gone ∈ ys := by
      cases as with
      | nil =>
        obtain ⟨rfl, rfl⟩ := List.cons.inj hx
        exact List.mem_cons_self ..
      | cons a as =>
        obtain ⟨rfl, rfl⟩ := List.cons.inj hx
        simp
    obtain rfl : xs = x :: ys := hxs.trans hx
    obtain ⟨-, here, rest⟩ := h
    obtain ⟨notHere, notRest⟩ := not_or.mp (mt List.mem_cons.mpr apart)
    have other : x ≠ gone := by
      rintro rfl
      exact (List.nodup_cons.mp (List.nodup_cons.mp nodup).2).1 later
    rw [findPrev, here, if_neg (Ne.symm notHere), if_neg other]
    exact ih ⟨rfl, rest⟩ notRest (List.nodup_cons.mp nodup).2 (Nat.lt_of_succ_lt_succ enough) hx.symm

/-- The walk that takes `gone` out behind each node that leads to it; it ends at the first of them, or goes on. -/
def unlink (nil gone : α) (goesOn : Bool) : Nat → (α → α) → α → Option ((α → α) × Bool)
  | 0, _, _ => none
  | turns + 1, next, p =>
    if p = nil then some (next, false)
    else if next p = gone then
      let next := Function.update next p (next gone)
      if goesOn then (unlink nil gone goesOn turns next (next p)).map fun r => (r.1, true)
      else some (next, true)
    else unlink nil gone goesOn turns next (next p)

variable {nil gone : α} {goesOn : Bool} {turns : Nat}

theorem unlink_absent (h : Seg next p xs nil) (apart : nil ∉ xs) (some : gone ≠ nil) (absent : gone ∉ xs)
    (enough : xs.length < turns) : unlink nil gone goesOn turns next p = .some (next, false) := by
  induction xs generalizing p turns with
  | nil =>
    obtain ⟨turns, rfl⟩ := Nat.exists_eq_add_of_lt enough
    exact if_pos h
  | cons x xs ih =>
    obtain ⟨turns, rfl⟩ := Nat.exists_eq_succ_of_ne_zero (Nat.ne_zero_of_lt enough)
    obtain ⟨rfl, rest⟩ := h
    obtain ⟨notHere, notRest⟩ := not_or.mp (mt List.mem_cons.mpr apart)
    obtain ⟨-, later⟩ := not_or.mp (mt List.mem_cons.mpr absent)
    have other : next p ≠ gone := by
      rintro rfl
      cases xs with
      | nil => exact some rest
      | cons y ys => exact later (rest.1 ▸ List.mem_cons_self ..)
    rw [unlink, if_neg (Ne.symm notHere), if_neg other]
    exact ih rest notRest later (Nat.lt_of_succ_lt_succ enough)

theorem unlink_eq (h : Seg next p (xs ++ x :: gone :: ys) nil) (apart : nil ∉ xs ++ x :: gone :: ys)
    (nodup : (xs ++ x :: gone :: ys).Nodup) (enough : (xs ++ x :: gone :: ys).length < turns) :
    unlink nil gone goesOn turns next p = .some (Function.update next x (next gone), true) := by
  induction xs generalizing p turns with
  | nil =>
    obtain ⟨turns, rfl⟩ := Nat.exists_eq_succ_of_ne_zero (Nat.ne_zero_of_lt enough)
    obtain ⟨rfl, here, rest⟩ := h
    simp only [List.nil_append, List.mem_cons, not_or] at apart
    obtain ⟨notHere, notGone, notRest⟩ := apart
    obtain ⟨outside, nodup⟩ := List.nodup_cons.mp nodup
    have again := fun enough => @unlink_absent _ (Function.update next p (next gone)) (next gone) ys _ nil gone
      goesOn turns (rest.update (fun mem => outside (List.mem_cons_of_mem _ mem)) _) notRest (Ne.symm notGone)
      (List.nodup_cons.mp nodup).1 enough
    simp only [List.nil_append, List.length_cons] at enough
    simp only [unlink, if_neg (Ne.symm notHere), if_pos here, Function.update_self, again (by omega), Option.map_some,
      ite_self]
  | cons y xs ih =>
    obtain ⟨turns, rfl⟩ := Nat.exists_eq_succ_of_ne_zero (Nat.ne_zero_of_lt enough)
    obtain ⟨rfl, rest⟩ := h
    obtain ⟨notHere, notRest⟩ := not_or.mp (mt List.mem_cons.mpr apart)
    obtain ⟨-, nodup⟩ := List.nodup_cons.mp nodup
    have other : next p ≠ gone := by
      rintro here
      cases xs with
      | nil =>
        obtain rfl : gone = x := here.symm.trans rest.1
        exact (List.nodup_cons.mp nodup).1 (List.mem_cons_self ..)
      | cons z zs =>
        obtain rfl : gone = z := here.symm.trans rest.1
        exact (List.nodup_cons.mp nodup).1 (by simp)
    rw [unlink, if_neg (Ne.symm notHere), if_neg other]
    exact ih rest notRest nodup (Nat.lt_of_succ_lt_succ enough)

end Surgery

/-- The nodes that a controller meets from `p` on, up to `stop`. -/
def walk [DecidableEq α] (next : α → α) (stop : α) : Nat → α → Option (List α)
  | 0, _ => none
  | turns + 1, p => if p = stop then some [] else (walk next stop turns (next p)).map (p :: ·)

theorem walk_eq [DecidableEq α] {stop : α} {turns : Nat} (h : Seg next p xs stop) (apart : stop ∉ xs)
    (enough : xs.length < turns) : walk next stop turns p = some xs := by
  induction xs generalizing p turns with
  | nil =>
    obtain ⟨turns, rfl⟩ := Nat.exists_eq_add_of_lt enough
    exact if_pos h
  | cons x xs ih =>
    obtain ⟨turns, rfl⟩ := Nat.exists_eq_succ_of_ne_zero (Nat.ne_zero_of_lt enough)
    obtain ⟨rfl, rest⟩ := h
    obtain ⟨notHere, notRest⟩ := not_or.mp (mt List.mem_cons.mpr apart)
    rw [walk, if_neg (Ne.symm notHere), ih rest notRest (Nat.lt_of_succ_lt_succ enough), Option.map_some]

/-- A walk over addresses of `w` bits that meets none twice ends within these turns. -/
def walkTurns (w : Nat) : Nat := 2 ^ w + 1

theorem length_lt_walkTurns {w : Nat} {l : List (BitVec w)} (nodup : l.Nodup) : l.length < walkTurns w := by
  have numbers : (l.map BitVec.toNat).Nodup := nodup.map fun a b same => BitVec.eq_of_toNat_eq same
  have inside : (l.map BitVec.toNat).Subperm (List.range (2 ^ w)) := by
    apply List.subperm_of_subset numbers
    intro n mem
    obtain ⟨a, -, rfl⟩ := List.mem_map.mp mem
    exact List.mem_range.mpr a.isLt
  have length := inside.length_le
  rw [List.length_map, List.length_range] at length
  exact Nat.lt_succ_of_le length

end NuMakerMA35.Linked
