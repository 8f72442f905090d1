import Mathlib.Data.Fintype.Card
import Mathlib.Data.Finset.Card

namespace NuMakerMA35.Threads

variable {T σ : Type} [Fintype T] [DecidableEq T]

def countOf (p : σ → Bool) (pc : T → σ) : Nat := (Finset.univ.filter fun t => p (pc t)).card

theorem countOf_update (p : σ → Bool) (pc : T → σ) (t : T) (x : σ) :
    countOf p (Function.update pc t x) + (if p (pc t) then 1 else 0) =
      countOf p pc + (if p x then 1 else 0) := by
  have others : ∀ u ∈ Finset.univ.erase t, Function.update pc t x u = pc u := by
    intro u hu
    exact Function.update_of_ne (Finset.ne_of_mem_erase hu) _ _
  have split (f : T → σ) : countOf p f =
      ((Finset.univ.erase t).filter fun u => p (f u)).card + (if p (f t) then 1 else 0) := by
    unfold countOf
    rw [← Finset.insert_erase (Finset.mem_univ t), Finset.filter_insert]
    by_cases here : p (f t)
    · rw [if_pos here, if_pos here, Finset.card_insert_of_notMem]
      · simp
      · simp
    · rw [if_neg here, if_neg here]
      simp
  have same : ((Finset.univ.erase t).filter fun u => p (Function.update pc t x u)) =
      (Finset.univ.erase t).filter fun u => p (pc u) := by
    apply Finset.filter_congr
    intro u hu
    rw [others u hu]
  rw [split (Function.update pc t x), split pc, same, Function.update_self]
  omega

/-- When each of `n` resources is held by a thread counted by `p`, and a counted thread holds none,
more than `n` threads are counted. -/
theorem lt_countOf_of_holders {p : σ → Bool} {pc : T → σ} {n : Nat} (holds : σ → Option Nat)
    (counted : ∀ u i, holds (pc u) = some i → p (pc u) = true)
    (all : ∀ i, i < n → ∃ u, holds (pc u) = some i) {t : T} (ht : p (pc t) = true)
    (none : holds (pc t) = none) : n < countOf p pc := by
  choose f hf using all
  let g : Fin n → T := fun i => f i i.isLt
  have injective : Function.Injective g := by
    intro i j same
    have hi := hf i i.isLt
    rw [show f i i.isLt = f j j.isLt from same, hf j j.isLt] at hi
    exact Fin.ext (by simpa using hi.symm)
  have image : (Finset.univ.image g) ⊆ (Finset.univ.filter fun u => p (pc u)).erase t := by
    intro u hu
    obtain ⟨i, -, rfl⟩ := Finset.mem_image.mp hu
    refine Finset.mem_erase.mpr ⟨?_, by simpa using counted _ _ (hf i i.isLt)⟩
    intro same
    have hi := hf i i.isLt
    rw [show f i i.isLt = t from same, none] at hi
    cases hi
  have bound := Finset.card_le_card image
  rw [Finset.card_image_of_injective _ injective, Finset.card_univ, Fintype.card_fin,
    Finset.card_erase_of_mem (by simpa using ht)] at bound
  have positive : 0 < (Finset.univ.filter fun u => p (pc u)).card :=
    Finset.card_pos.mpr ⟨t, by simpa using ht⟩
  unfold countOf
  omega

end NuMakerMA35.Threads
