import Mathlib.Data.List.Nodup
import Mathlib.Logic.Function.Basic
import Mathlib.Logic.ExistsUnique

namespace NuMakerMA35.Ownership

variable {ι α : Type}

/-- Every live resource is listed once, by one owner, and nothing else is listed. -/
structure Owns (owns : ι → List α) (live : α → Prop) : Prop where
  nodup : ∀ i, (owns i).Nodup
  held : ∀ i a, a ∈ owns i → live a
  single : ∀ i j a, a ∈ owns i → a ∈ owns j → i = j
  covered : ∀ a, live a → ∃ i, a ∈ owns i

theorem Owns.congr {owns owns' : ι → List α} {live live' : α → Prop} (h : Owns owns live)
    (same : ∀ i, owns' i = owns i) (sameLive : ∀ a, live' a ↔ live a) : Owns owns' live' := by
  have eq : owns' = owns := funext same
  subst eq
  exact ⟨h.nodup, fun i a ha => (sameLive a).mpr (h.held i a ha), h.single,
    fun a ha => h.covered a ((sameLive a).mp ha)⟩

theorem Owns.existsUnique {owns : ι → List α} {live : α → Prop} (h : Owns owns live) {a : α}
    (ha : live a) : ∃! i, a ∈ owns i := by
  obtain ⟨i, hi⟩ := h.covered a ha
  exact ⟨i, hi, fun j hj => h.single j i a hj hi⟩

variable [DecidableEq ι]

theorem mem_update {owns : ι → List α} {i j : ι} {as : List α} {a : α} :
    a ∈ Function.update owns i as j ↔ (j = i ∧ a ∈ as) ∨ (j ≠ i ∧ a ∈ owns j) := by
  by_cases same : j = i
  · subst same
    simp
  · simp [same]

theorem Owns.release {owns : ι → List α} {live : α → Prop} (h : Owns owns live) (i : ι) :
    Owns (Function.update owns i []) (fun a => live a ∧ a ∉ owns i) where
  nodup := by
    intro j
    by_cases same : j = i
    · subst same
      simp
    · simpa [same] using h.nodup j
  held := by
    intro j a ha
    rcases mem_update.mp ha with ⟨-, ha⟩ | ⟨other, ha⟩
    · simp at ha
    · exact ⟨h.held j a ha, fun hi => other (h.single j i a ha hi)⟩
  single := by
    intro j k a hj hk
    rcases mem_update.mp hj with ⟨-, ha⟩ | ⟨-, hj⟩
    · simp at ha
    rcases mem_update.mp hk with ⟨-, ha⟩ | ⟨-, hk⟩
    · simp at ha
    exact h.single j k a hj hk
  covered := by
    rintro a ⟨ha, notI⟩
    obtain ⟨j, hj⟩ := h.covered a ha
    refine ⟨j, mem_update.mpr (.inr ⟨?_, hj⟩)⟩
    intro same
    exact notI (same ▸ hj)

theorem Owns.acquire {owns : ι → List α} {live : α → Prop} (h : Owns owns live) {i : ι}
    (empty : owns i = []) {as : List α} (nodup : as.Nodup) (fresh : ∀ a ∈ as, ¬live a) :
    Owns (Function.update owns i as) (fun a => live a ∨ a ∈ as) where
  nodup := by
    intro j
    by_cases same : j = i
    · subst same
      simpa using nodup
    · simpa [same] using h.nodup j
  held := by
    intro j a ha
    rcases mem_update.mp ha with ⟨-, ha⟩ | ⟨-, ha⟩
    · exact .inr ha
    · exact .inl (h.held j a ha)
  single := by
    intro j k a hj hk
    rcases mem_update.mp hj with ⟨sameJ, hj⟩ | ⟨-, hj⟩ <;>
      rcases mem_update.mp hk with ⟨sameK, hk⟩ | ⟨-, hk⟩
    · exact sameJ.trans sameK.symm
    · exact absurd (h.held k a hk) (fresh a hj)
    · exact absurd (h.held j a hj) (fresh a hk)
    · exact h.single j k a hj hk
  covered := by
    rintro a (ha | ha)
    · obtain ⟨j, hj⟩ := h.covered a ha
      refine ⟨j, mem_update.mpr (.inr ⟨?_, hj⟩)⟩
      intro same
      rw [same, empty] at hj
      simp at hj
    · exact ⟨i, mem_update.mpr (.inl ⟨rfl, ha⟩)⟩

theorem Owns.forgotten {owns : ι → List α} {live : α → Prop} (h : Owns owns live) {i : ι} {a : α}
    (ha : a ∈ owns i) (j : ι) : a ∉ Function.update owns i [] j := by
  intro hj
  rcases mem_update.mp hj with ⟨-, none⟩ | ⟨other, hj⟩
  · simp at none
  · exact other (h.single j i a hj ha)

end NuMakerMA35.Ownership
