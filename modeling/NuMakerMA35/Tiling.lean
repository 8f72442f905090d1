import Mathlib.Data.List.Basic
import Mathlib.Tactic.Ring

/-! Lists of pieces laid one after the other over an interval of the natural numbers. -/

namespace NuMakerMA35.Tiling

variable {α : Type} (start len : α → Nat)

/-- The pieces fill the interval from `a` up to `b` in their order, none of them empty. -/
def Tiles : Nat → List α → Nat → Prop
  | a, [], b => a = b
  | a, x :: xs, b => start x = a ∧ 0 < len x ∧ Tiles (a + len x) xs b

def Within (x : α) (k : Nat) : Prop := start x ≤ k ∧ k < start x + len x

variable {start len}

theorem Tiles.le {xs : List α} : ∀ {a b : Nat}, Tiles start len a xs b → a ≤ b := by
  induction xs with
  | nil =>
    intro a b tiles
    exact Nat.le_of_eq tiles
  | cons x xs ih =>
    rintro a b ⟨-, -, rest⟩
    have := ih rest
    omega

theorem Tiles.bounds {xs : List α} : ∀ {a b : Nat}, Tiles start len a xs b →
    ∀ x ∈ xs, a ≤ start x ∧ start x + len x ≤ b := by
  induction xs with
  | nil =>
    intro a b tiles x mem
    simp at mem
  | cons y ys ih =>
    rintro a b ⟨first, -, rest⟩ x mem
    rcases List.mem_cons.mp mem with rfl | mem
    · have := rest.le
      omega
    · have := ih rest x mem
      omega

theorem Tiles.pairwise {xs : List α} : ∀ {a b : Nat}, Tiles start len a xs b →
    xs.Pairwise (fun x y => start x + len x ≤ start y) := by
  induction xs with
  | nil =>
    intro a b tiles
    exact List.Pairwise.nil
  | cons y ys ih =>
    rintro a b ⟨first, -, rest⟩
    refine List.pairwise_cons.mpr ⟨?_, ih rest⟩
    intro x mem
    have := rest.bounds x mem
    omega

theorem Tiles.covers {xs : List α} : ∀ {a b : Nat}, Tiles start len a xs b →
    ∀ k, a ≤ k → k < b → ∃ x ∈ xs, Within start len x k := by
  induction xs with
  | nil =>
    intro a b tiles k low high
    have same : a = b := tiles
    omega
  | cons y ys ih =>
    rintro a b ⟨first, -, rest⟩ k low high
    by_cases here : k < a + len y
    · exact ⟨y, by simp, by unfold Within; omega⟩
    · obtain ⟨x, mem, within⟩ := ih rest k (by omega) high
      exact ⟨x, List.mem_cons_of_mem y mem, within⟩

/-- Two pieces never hold the same point, so the piece holding a point is the only one. -/
theorem Tiles.unique {xs : List α} : ∀ {a b : Nat}, Tiles start len a xs b →
    ∀ {x y : α} {k : Nat}, x ∈ xs → y ∈ xs → Within start len x k → Within start len y k → x = y := by
  induction xs with
  | nil =>
    intro a b tiles x y k mem
    simp at mem
  | cons z zs ih =>
    rintro a b ⟨first, -, rest⟩ x y k memX memY withinX withinY
    unfold Within at withinX withinY
    rcases List.mem_cons.mp memX with hereX | laterX <;>
      rcases List.mem_cons.mp memY with hereY | laterY
    · rw [hereX, hereY]
    · have := rest.bounds y laterY
      subst hereX
      omega
    · have := rest.bounds x laterX
      subst hereY
      omega
    · exact ih rest laterX laterY withinX withinY

theorem Tiles.existsUnique {xs : List α} {a b : Nat} (tiles : Tiles start len a xs b) {k : Nat}
    (low : a ≤ k) (high : k < b) : ∃! x, x ∈ xs ∧ Within start len x k := by
  obtain ⟨x, mem, within⟩ := tiles.covers k low high
  exact ⟨x, ⟨mem, within⟩, fun y other => tiles.unique other.1 mem other.2 within⟩

end NuMakerMA35.Tiling
