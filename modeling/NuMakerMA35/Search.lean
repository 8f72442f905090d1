import Mathlib.Data.List.ProdSigma
import Mathlib.Data.Prod.Lex

namespace NuMakerMA35

section Search

variable {ε α β γ : Type}

/-- Tries the candidates in order, up to the first that gives a result or goes wrong. -/
@[grind =] def search (f : α → Except ε (Option β)) : List α → Except ε (Option β)
  | [] => .ok none
  | a :: l =>
    match f a with
    | .error e => .error e
    | .ok (some b) => .ok (some b)
    | .ok none => search f l

/-- A run that does not go wrong, with a result of which the law holds if there is one. -/
def Lawful (law : β → Prop) : Except ε (Option β) → Prop
  | .error _ => False
  | .ok none => True
  | .ok (some b) => law b

variable {f : α → Except ε (Option β)} {before : α → α → Prop} {l : List α}

theorem search_append (f : α → Except ε (Option β)) (l m : List α) :
    search f (l ++ m) =
      match search f l with
      | .ok none => search f m
      | r => r := by
  induction l with
  | nil => rfl
  | cons a l ih =>
    rw [List.cons_append, search, search]
    match f a with
    | .error _ => rfl
    | .ok (some _) => rfl
    | .ok none => exact ih

theorem search_map (g : γ → α) (l : List γ) :
    search f (l.map g) = search (fun c => f (g c)) l := by
  induction l with
  | nil => rfl
  | cons c l ih => rw [List.map_cons, search, search, ih]

/-- A search within a search goes through the pairs. -/
theorem search_nested (f : α → γ → Except ε (Option β)) (l : List α) (m : List γ) :
    search (fun a => search (f a) m) l = search (fun p => f p.1 p.2) (l ×ˢ m) := by
  induction l with
  | nil => rfl
  | cons a l ih =>
    rw [List.product_cons, search_append, search_map, ← ih, search]
    match search (f a) m with
    | .error _ => rfl
    | .ok (some _) => rfl
    | .ok none => rfl

theorem pairwise_product {m : List γ} {r : α → α → Prop} {s : γ → γ → Prop}
    (first : l.Pairwise r) (second : m.Pairwise s) : (l ×ˢ m).Pairwise (Prod.Lex r s) := by
  induction first with
  | nil => exact .nil
  | cons ahead _ ih =>
    rw [List.product_cons, List.pairwise_append]
    refine ⟨List.pairwise_map.mpr (second.imp fun step => .right _ step), ih, ?_⟩
    intro p here q there
    obtain ⟨c, _, rfl⟩ := List.mem_map.mp here
    exact .left _ _ (ahead q.1 (List.mem_product.mp there).1)

theorem search_cons_of_ne {a : α} (some_ : f a ≠ .ok none) : search f (a :: l) = f a := by
  rw [search]
  match at_ : f a with
  | .error _ => rfl
  | .ok (some _) => rfl
  | .ok none => exact absurd at_ some_

theorem search_eq_of_first {a : α} (ordered : l.Pairwise before) (here : a ∈ l)
    (some_ : f a ≠ .ok none) (earlier : ∀ b ∈ l, before b a → f b = .ok none) :
    search f l = f a := by
  induction ordered with
  | nil => exact absurd here List.not_mem_nil
  | cons ahead _ ih =>
    rcases List.mem_cons.mp here with rfl | there
    · exact search_cons_of_ne some_
    · rw [search, earlier _ List.mem_cons_self (ahead a there)]
      exact ih there fun b within => earlier b (List.mem_cons_of_mem _ within)

theorem search_first (ordered : l.Pairwise before) (asymm : ∀ a b, before a b → ¬before b a) :
    (search f l = .ok none ∧ ∀ a ∈ l, f a = .ok none) ∨
      ∃ a ∈ l, search f l = f a ∧ f a ≠ .ok none ∧ ∀ b ∈ l, before b a → f b = .ok none := by
  induction l with
  | nil => exact .inl ⟨rfl, fun a here => absurd here List.not_mem_nil⟩
  | cons a l ih =>
    obtain ⟨ahead, rest⟩ := List.pairwise_cons.mp ordered
    by_cases empty : f a = .ok none
    · have skipped : search f (a :: l) = search f l := by
        rw [search, empty]
      rw [skipped]
      rcases ih rest with ⟨none, each⟩ | ⟨b, there, ended, some_, earlier⟩
      · exact .inl ⟨none, List.forall_mem_cons.mpr ⟨empty, each⟩⟩
      · exact .inr ⟨b, List.mem_cons_of_mem a there, ended, some_,
          List.forall_mem_cons.mpr ⟨fun _ => empty, earlier⟩⟩
    · refine .inr ⟨a, List.mem_cons_self, search_cons_of_ne empty, empty, ?_⟩
      intro b here earlier
      rcases List.mem_cons.mp here with rfl | there
      · exact absurd earlier (asymm _ _ earlier)
      · exact absurd earlier (asymm _ _ (ahead b there))

end Search

end NuMakerMA35
