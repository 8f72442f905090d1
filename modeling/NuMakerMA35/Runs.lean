import Mathlib.Data.List.Infix

namespace NuMakerMA35.Runs

variable {σ ε : Type}

/-- Every event of `es`, taken in order from `s`, meets `good` in the state it meets. -/
def StepsMeet (step : σ → ε → σ) (good : σ → ε → Prop) (s : σ) (es : List ε) : Prop :=
  ∀ pre e, pre ++ [e] <+: es → good (pre.foldl step s) e

theorem stepsMeet_nil {step : σ → ε → σ} {good : σ → ε → Prop} {s : σ} : StepsMeet step good s [] :=
  fun _ _ last => by simp at last

theorem stepsMeet_cons {step : σ → ε → σ} {good : σ → ε → Prop} {s : σ} {e : ε} {es : List ε} :
    StepsMeet step good s (e :: es) ↔ good s e ∧ StepsMeet step good (step s e) es := by
  constructor
  · intro h
    refine ⟨h [] e (by simp), ?_⟩
    intro pre x hx
    exact h (e :: pre) x (by simpa using hx)
  · rintro ⟨first, rest⟩ pre x hx
    cases pre with
    | nil =>
      obtain ⟨same, _⟩ := List.cons_prefix_cons.mp hx
      subst same
      exact first
    | cons y pre =>
      obtain ⟨same, tail⟩ := List.cons_prefix_cons.mp hx
      subst same
      exact rest pre x tail

theorem foldl_invariant {step : σ → ε → σ} (good : σ → ε → Prop) (inv : σ → Prop)
    (preserve : ∀ s e, inv s → good s e → inv (step s e))
    {s : σ} {es : List ε} (start : inv s) (met : StepsMeet step good s es) :
    inv (es.foldl step s) := by
  induction es generalizing s with
  | nil => exact start
  | cons e es ih =>
    obtain ⟨first, rest⟩ := stepsMeet_cons.mp met
    exact ih (preserve s e start first) rest

theorem StepsMeet.front {step : σ → ε → σ} {good : σ → ε → Prop} {s : σ} {pre es : List ε}
    (met : StepsMeet step good s es) (part : pre <+: es) : StepsMeet step good s pre :=
  fun before e last => met before e (last.trans part)

theorem stepsMeet_always {step : σ → ε → σ} {good : ε → Prop} {s : σ} {es : List ε} :
    StepsMeet step (fun _ e => good e) s es ↔ ∀ e ∈ es, good e := by
  induction es generalizing s with
  | nil => exact iff_of_true stepsMeet_nil (by simp)
  | cons e es ih => rw [stepsMeet_cons, ih, List.forall_mem_cons]

theorem stepsMeet_and {step : σ → ε → σ} {good good' : σ → ε → Prop} {s : σ} {es : List ε} :
    StepsMeet step (fun s e => good s e ∧ good' s e) s es ↔
      StepsMeet step good s es ∧ StepsMeet step good' s es := by
  constructor
  · intro met
    exact ⟨fun pre e last => (met pre e last).1, fun pre e last => (met pre e last).2⟩
  · rintro ⟨met, met'⟩ pre e last
    exact ⟨met pre e last, met' pre e last⟩

theorem stepsMeet_congr {step : σ → ε → σ} {good good' : σ → ε → Prop} (inv : σ → Prop)
    (same : ∀ s e, inv s → (good' s e ↔ good s e))
    (preserve : ∀ s e, inv s → good s e → inv (step s e)) {s : σ} (start : inv s) (es : List ε) :
    StepsMeet step good' s es ↔ StepsMeet step good s es := by
  induction es generalizing s with
  | nil =>
    exact iff_of_true stepsMeet_nil stepsMeet_nil
  | cons e es ih =>
    rw [stepsMeet_cons, stepsMeet_cons, same s e start]
    exact and_congr_right fun met => ih (preserve s e start met)

theorem stepsMeet_simulate {τ : Type} {step : σ → ε → σ} {step' : τ → ε → τ}
    {good : σ → ε → Prop} {good' : τ → ε → Prop} (rel : σ → τ → Prop)
    (same : ∀ s t e, rel s t → (good s e ↔ good' t e))
    (kept : ∀ s t e, rel s t → rel (step s e) (step' t e)) {s : σ} {t : τ} (start : rel s t)
    (es : List ε) : StepsMeet step good s es ↔ StepsMeet step' good' t es := by
  induction es generalizing s t with
  | nil => exact iff_of_true stepsMeet_nil stepsMeet_nil
  | cons e es ih => rw [stepsMeet_cons, stepsMeet_cons, same s t e start, ih (kept s t e start)]

/-- Where a property is kept exactly by the steps that meet `good`, it holds in every state of a
run exactly when every step meets `good`; only runs of `allowed` steps are asked about. -/
theorem prefixes_hold_iff_of_allowed {step : σ → ε → σ} {allowed good : σ → ε → Prop}
    (inv prop : σ → Prop)
    (holds : ∀ s, inv s → prop s)
    (exact_step : ∀ s e, inv s → allowed s e → (prop (step s e) ↔ good s e))
    (preserve : ∀ s e, inv s → allowed s e → good s e → inv (step s e))
    {s : σ} (start : inv s) (es : List ε) (possible : StepsMeet step allowed s es) :
    (∀ pre, pre <+: es → prop (pre.foldl step s)) ↔ StepsMeet step good s es := by
  constructor
  · intro h
    induction es generalizing s with
    | nil =>
      intro pre e he
      simp at he
    | cons e es ih =>
      obtain ⟨can, possible⟩ := stepsMeet_cons.mp possible
      have first := (exact_step s e start can).mp (h [e] (by simp))
      refine stepsMeet_cons.mpr ⟨first, ih (preserve s e start can first) possible ?_⟩
      intro pre hp
      exact h (e :: pre) (by simpa using hp)
  · intro met pre hp
    apply holds
    apply foldl_invariant (fun s e => allowed s e ∧ good s e) inv
      (fun s e here both => preserve s e here both.1 both.2) start
    intro before e he
    exact ⟨possible before e (he.trans hp), met before e (he.trans hp)⟩

theorem prefixes_hold_iff {step : σ → ε → σ} {good : σ → ε → Prop} (inv prop : σ → Prop)
    (holds : ∀ s, inv s → prop s)
    (exact_step : ∀ s e, inv s → (prop (step s e) ↔ good s e))
    (preserve : ∀ s e, inv s → good s e → inv (step s e))
    {s : σ} (start : inv s) (es : List ε) :
    (∀ pre, pre <+: es → prop (pre.foldl step s)) ↔ StepsMeet step good s es :=
  prefixes_hold_iff_of_allowed inv prop holds
    (fun s e here _ => exact_step s e here) (fun s e here _ => preserve s e here) start es
    (show StepsMeet step (fun _ _ => True) s es from fun _ _ _ => trivial)

/-- A rank that falls with each turn of `i`, and rises with nobody's, is used up after as many turns of `i`. -/
theorem rank_le_of_turns {ι : Type} [DecidableEq ι] (turn : σ → ι → σ) (inv : σ → Prop)
    (rank : σ → Nat) (i : ι) (kept : ∀ s j, inv s → inv (turn s j))
    (own : ∀ s, inv s → rank (turn s i) ≤ rank s - 1)
    (others : ∀ s j, inv s → j ≠ i → rank (turn s j) ≤ rank s)
    (turns : List ι) {s : σ} (start : inv s) :
    rank (turns.foldl turn s) ≤ rank s - turns.count i := by
  induction turns generalizing s with
  | nil => simp
  | cons j turns ih =>
    have rest := ih (kept s j start)
    rw [List.foldl_cons]
    by_cases same : j = i
    · subst same
      have first := own s start
      rw [List.count_cons_self]
      omega
    · have first := others s j start same
      rw [List.count_cons_of_ne same]
      omega

/-- In an endless run where each actor goes on acting, the end is reached: at each moment one actor is
helpful, its next event lowers the rank, and until the rank is lower it stays the helpful one. -/
theorem reaches_of_fair {κ : Type} {step : σ → ε → σ} (inv done : σ → Prop) (rank : σ → Nat)
    (actor : ε → κ) (helpful : σ → κ) (kept : ∀ s e, inv s → inv (step s e))
    (falls : ∀ s e, inv s → rank (step s e) ≤ rank s)
    (helps : ∀ s e, inv s → ¬done s → actor e = helpful s → rank (step s e) < rank s)
    (waits : ∀ s e, inv s → rank (step s e) = rank s → helpful (step s e) = helpful s)
    {events : Nat → ε} (fair : ∀ a n, ∃ m, n ≤ m ∧ actor (events m) = a) {s : σ} (start : inv s) :
    ∃ n, done (((List.range n).map events).foldl step s) := by
  let state (n : Nat) : σ := ((List.range n).map events).foldl step s
  have next (n : Nat) : state (n + 1) = step (state n) (events n) := by
    simp only [state, List.range_succ, List.map_append, List.foldl_append]
    rfl
  have holds (n : Nat) : inv (state n) := by
    induction n with
    | zero => exact start
    | succ n ih => exact next n ▸ kept _ _ ih
  by_contra never
  have going (n : Nat) : ¬done (state n) := fun here => never ⟨n, here⟩
  have lower (n : Nat) : ∃ m, rank (state m) < rank (state n) := by
    obtain ⟨m, later, acts⟩ := fair (helpful (state n)) n
    -- the distance to the helpful actor's next event
    obtain ⟨d, rfl⟩ := Nat.exists_eq_add_of_le later
    induction d generalizing n with
    | zero => exact ⟨n + 1, next n ▸ helps _ _ (holds n) (going n) acts⟩
    | succ d ih =>
      rcases Nat.lt_or_eq_of_le (falls (state n) (events n) (holds n)) with less | same
      · exact ⟨n + 1, next n ▸ less⟩
      · have stays := waits _ _ (holds n) same
        rw [← next] at same stays
        have near : n + 1 + d = n + (d + 1) := by omega
        obtain ⟨m, less⟩ := ih (n + 1) (by omega) (by rw [near, stays]; exact acts)
        exact ⟨m, same ▸ less⟩
  have none (r : Nat) : ∀ n, rank (state n) ≠ r := by
    induction r using Nat.strong_induction_on with
    | _ r ih =>
      rintro n rfl
      obtain ⟨m, less⟩ := lower n
      exact ih _ less m rfl
  exact none _ 0 rfl

/-- A loop that may fail is followed by one that its turns are followed by. -/
theorem foldlM_simulate {τ : Type} {f : σ → ε → Option σ} {g : τ → ε → Option τ} (rel : σ → τ → Prop)
    (es : List ε) (turn : ∀ e ∈ es, ∀ s t t', rel s t → g t e = some t' → ∃ s', f s e = some s' ∧ rel s' t')
    {s : σ} {t t' : τ} (start : rel s t) (ran : es.foldlM g t = some t') :
    ∃ s', es.foldlM f s = some s' ∧ rel s' t' := by
  induction es generalizing s t with
  | nil =>
    obtain rfl : t = t' := by simpa using ran
    exact ⟨s, rfl, start⟩
  | cons e es ih =>
    rw [List.foldlM_cons] at ran
    obtain ⟨t₁, first, rest⟩ := Option.bind_eq_some_iff.mp ran
    obtain ⟨s₁, here, related⟩ := turn e (List.mem_cons_self ..) s t t₁ start first
    obtain ⟨s', there, ends⟩ := ih (fun x hx => turn x (List.mem_cons_of_mem _ hx)) related rest
    exact ⟨s', by rw [List.foldlM_cons, here]; exact there, ends⟩

theorem bind_ok_iff {φ α β : Type} {x : Except φ α} {f : α → Except φ β} {b : β} :
    (x >>= f) = .ok b ↔ ∃ a, x = .ok a ∧ f a = .ok b := by
  cases x with
  | error e => simp [bind, Except.bind]
  | ok a => simp [bind, Except.bind]

theorem map_ok_iff {φ α β : Type} {x : Except φ α} {f : α → β} {b : β} :
    x.map f = .ok b ↔ ∃ a, x = .ok a ∧ f a = b := by
  cases x with
  | error e => simp [Except.map]
  | ok a => simp [Except.map]

end NuMakerMA35.Runs
