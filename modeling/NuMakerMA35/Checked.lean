import Mathlib.Algebra.Group.Nat.Defs
import Mathlib.Data.List.MinMax

namespace NuMakerMA35

/-- A value that machine arithmetic computes, and whether no operation of it lost anything. -/
structure Checked (α : Type) where
  val : α
  ok : Bool

namespace Checked

variable {α β σ τ : Type}

instance : Monad Checked where
  pure a := ⟨a, true⟩
  bind x f := ⟨(f x.val).val, x.ok && (f x.val).ok⟩

theorem pure_def (a : α) : (pure a : Checked α) = ⟨a, true⟩ := rfl

theorem bind_def (x : Checked α) (f : α → Checked β) :
    (x >>= f) = ⟨(f x.val).val, x.ok && (f x.val).ok⟩ := rfl

instance : LawfulMonad Checked := by
  refine LawfulMonad.mk' Checked ?_ ?_ ?_
  · intro α x
    change (⟨x.val, x.ok && true⟩ : Checked α) = x
    rw [Bool.and_true]
  · intro α β a f
    rw [bind_def, pure_def, Bool.true_and]
  · intro α β γ x f g
    simp only [bind_def, Bool.and_assoc]

theorem bind_lost {x : Checked α} {f : α → Checked β} (lost : (f x.val).ok = false) :
    (x >>= f).ok = false := by
  rw [bind_def, lost, Bool.and_false]

def fit (w n : Nat) : Checked Nat := ⟨n % 2 ^ w, decide (n < 2 ^ w)⟩

def quot (n d : Nat) : Checked Nat := ⟨n / d, decide (d ≠ 0)⟩

def less (w a b : Nat) : Checked Nat := ⟨(a + 2 ^ w - b) % 2 ^ w, decide (b ≤ a)⟩

theorem fit_of_lt {w n : Nat} (small : n < 2 ^ w) : fit w n = pure n := by
  unfold fit
  rw [Nat.mod_eq_of_lt small, decide_eq_true small]
  rfl

theorem quot_of_pos {n d : Nat} (some : 0 < d) : quot n d = pure (n / d) := by
  unfold quot
  rw [decide_eq_true (by omega)]
  rfl

theorem fit_lost {w n : Nat} {f : Nat → Checked β} (large : 2 ^ w ≤ n) :
    (fit w n >>= f).ok = false := by
  rw [bind_def]
  unfold fit
  dsimp only
  rw [decide_eq_false (by omega), Bool.false_and]

theorem less_of_le {w a b : Nat} (le : b ≤ a) (small : a < 2 ^ w) : less w a b = pure (a - b) := by
  unfold less
  rw [decide_eq_true le, show a + 2 ^ w - b = a - b + 2 ^ w by omega, Nat.add_mod_right,
    Nat.mod_eq_of_lt (by omega)]
  rfl

theorem quot_zero_lost {n d : Nat} {f : Nat → Checked β} (zero : d = 0) :
    (quot n d >>= f).ok = false := by
  rw [bind_def]
  unfold quot
  dsimp only
  rw [decide_eq_false (fun some => some zero), Bool.false_and]

theorem ok_fit_bind {w n : Nat} {f : Nat → Checked β} :
    (fit w n >>= f).ok = true ↔ n < 2 ^ w ∧ (f n).ok = true := by
  by_cases small : n < 2 ^ w
  · rw [fit_of_lt small, pure_bind, and_iff_right small]
  · rw [fit_lost (Nat.le_of_not_lt small)]
    exact iff_of_false Bool.false_ne_true fun both => small both.1

theorem ok_quot_bind {n d : Nat} {f : Nat → Checked β} :
    (quot n d >>= f).ok = true ↔ 0 < d ∧ (f (n / d)).ok = true := by
  by_cases some : 0 < d
  · rw [quot_of_pos some, pure_bind, and_iff_right some]
  · rw [quot_zero_lost (by omega)]
    exact iff_of_false Bool.false_ne_true fun both => some both.1

theorem ok_less_bind {w a b : Nat} {f : Nat → Checked β} (small : a < 2 ^ w) :
    (less w a b >>= f).ok = true ↔ b ≤ a ∧ (f (a - b)).ok = true := by
  by_cases le : b ≤ a
  · rw [less_of_le le small, pure_bind, and_iff_right le]
  · rw [bind_def]
    unfold less
    dsimp only
    rw [decide_eq_false le, Bool.false_and]
    exact iff_of_false Bool.false_ne_true fun both => le both.1

end Checked

theorem foldlM_of_pure {m : Type → Type} [Monad m] [LawfulMonad m] {α σ τ : Type} {f : σ → α → m σ}
    {r : τ → σ} {g : τ → α → τ} {l : List α}
    (step : ∀ s, ∀ x ∈ l, f (r s) x = pure (r (g s x))) (s : τ) :
    l.foldlM f (r s) = pure (r (l.foldl g s)) := by
  induction l generalizing s with
  | nil => rfl
  | cons x l ih =>
    rw [List.foldlM_cons, step s x List.mem_cons_self, pure_bind, List.foldl_cons]
    exact ih (fun s y here => step s y (List.mem_cons_of_mem _ here)) _

/-- The state of a search for the least value, and a step that keeps the first one found. -/
structure FirstLeast (α : Type) where
  least : Nat
  best : Option α

def FirstLeast.step {α : Type} (f : α → Nat) (s : FirstLeast α) (x : α) : FirstLeast α :=
  if f x < s.least then ⟨f x, some x⟩ else s

/-- A search that starts above all values finds what `List.argmin` does. -/
theorem FirstLeast.foldl_eq {α : Type} (f : α → Nat) {top : Nat} {l : List α}
    (below : ∀ x ∈ l, f x < top) :
    l.foldl (FirstLeast.step f) ⟨top, none⟩ =
      ⟨((l.argmin f).map f).getD top, l.argmin f⟩ := by
  induction l using List.reverseRecOn with
  | nil => rfl
  | append_singleton l x ih =>
    rw [List.foldl_append, ih fun y here => below y (List.mem_append_left _ here), List.foldl_cons,
      List.foldl_nil, List.argmin_concat]
    have small := below x (by simp)
    unfold FirstLeast.step
    cases l.argmin f with
    | none => simp [small]
    | some c =>
      simp only [Option.map_some, Option.getD_some]
      split_ifs <;> simp_all

end NuMakerMA35
