import NuMakerMA35.Logged
import NuMakerMA35.Runs

namespace NuMakerMA35.Logged

variable {ε κ σ α β ι : Type} {next : σ → κ → σ} {ok : σ → κ → Prop}

theorem stepsMeet_append {s : σ} (t t' : List κ) :
    Runs.StepsMeet next ok s (t ++ t') ↔
      Runs.StepsMeet next ok s t ∧ Runs.StepsMeet next ok (t.foldl next s) t' := by
  induction t generalizing s with
  | nil => exact (and_iff_right Runs.stepsMeet_nil).symm
  | cons c t ih =>
    rw [List.cons_append, Runs.stepsMeet_cons, Runs.stepsMeet_cons, ih, and_assoc]
    rfl

/-- The computation returns `a`; what it logs takes a monitor from `s` to `s'`, and the monitor
accepts all of it exactly if `Q` holds. -/
def Exactly (next : σ → κ → σ) (ok : σ → κ → Prop) (m : Logged ε κ α) (a : α) (s s' : σ)
    (Q : Prop) : Prop :=
  ∃ new, (∀ log, m log = (.ok a, log ++ new)) ∧ new.foldl next s = s' ∧
    (Runs.StepsMeet next ok s new ↔ Q)

variable {m : Logged ε κ α} {f : α → Logged ε κ β} {a : α} {b : β} {s s' s'' : σ} {Q R : Prop}

theorem Exactly.pure : Exactly next ok (pure a : Logged ε κ α) a s s True :=
  ⟨[], fun log => by simp, rfl, iff_of_true Runs.stepsMeet_nil trivial⟩

theorem Exactly.issue {c : κ} {u : Unit} :
    Exactly next ok (issue c fun _ => u : Logged ε κ Unit) u s (next s c) (ok s c) := by
  refine ⟨[c], fun _ => rfl, rfl, ?_⟩
  rw [Runs.stepsMeet_cons]
  exact and_iff_left Runs.stepsMeet_nil

theorem Exactly.bind (first : Exactly next ok m a s s' Q)
    (rest : Exactly next ok (f a) b s' s'' R) :
    Exactly next ok (m >>= f) b s s'' (Q ∧ R) := by
  obtain ⟨new, run, state, safe⟩ := first
  obtain ⟨more, run', state', safe'⟩ := rest
  refine ⟨new ++ more, ?_, ?_, ?_⟩
  · intro log
    rw [bind_ok (run log), run', List.append_assoc]
  · rw [List.foldl_append, state, state']
  · rw [stepsMeet_append, safe, state, safe']

theorem Exactly.congr (h : Exactly next ok m a s s' Q) (same : Q ↔ R) :
    Exactly next ok m a s s' R := by
  obtain ⟨new, run, state, safe⟩ := h
  exact ⟨new, run, state, safe.trans same⟩

theorem Exactly.foldlM {f : β → ι → Logged ε κ β} {g : β → ι → β} {Q : ι → Prop}
    (inv : β → List ι → Prop)
    (turn : ∀ b i is, inv b (i :: is) → Exactly next ok (f b i) (g b i) s s (Q i) ∧ inv (g b i) is)
    (is : List ι) : ∀ b, inv b is →
      Exactly next ok (is.foldlM f b) (is.foldl g b) s s (∀ i ∈ is, Q i) := by
  induction is with
  | nil =>
    intro b _
    exact Exactly.pure.congr (by simp)
  | cons i is ih =>
    intro b start
    obtain ⟨here, kept⟩ := turn b i is start
    rw [List.foldlM_cons, List.foldl_cons]
    exact (here.bind (ih _ kept)).congr List.forall_mem_cons.symm

theorem Exactly.run (h : Exactly next ok m a s s' Q) :
    (m []).1 = .ok a ∧ (Runs.StepsMeet next ok s (m []).2 ↔ Q) := by
  obtain ⟨new, run, -, safe⟩ := h
  rw [run []]
  exact ⟨rfl, safe⟩

/-- The computation always returns; what it returns and what it adds to the log are as `P` says. -/
def Adds (P : α → List κ → Prop) (m : Logged ε κ α) : Prop :=
  ∀ log, ∃ a new, m log = (.ok a, log ++ new) ∧ P a new

section Adds

variable {P P' : α → List κ → Prop} {Q' : β → List κ → Prop}

theorem Adds.pure (h : P a []) : Adds P (pure a : Logged ε κ α) := fun log => ⟨a, [], by simp, h⟩

theorem Adds.mono (h : Adds P m) (weaker : ∀ a new, P a new → P' a new) : Adds P' m := by
  intro log
  obtain ⟨a, new, run, holds⟩ := h log
  exact ⟨a, new, run, weaker a new holds⟩

theorem Adds.bind (first : Adds P m)
    (rest : ∀ a new, P a new → Adds (fun b more => Q' b (new ++ more)) (f a)) :
    Adds Q' (m >>= f) := by
  intro log
  obtain ⟨a, new, run, holds⟩ := first log
  obtain ⟨b, more, run', holds'⟩ := rest a new holds (log ++ new)
  exact ⟨b, new ++ more, by rw [bind_ok run, run', List.append_assoc], holds'⟩

theorem Adds.and (h : Adds P m) (h' : Adds P' m) : Adds (fun a new => P a new ∧ P' a new) m := by
  intro log
  obtain ⟨a, new, run, holds⟩ := h log
  obtain ⟨a', new', run', holds'⟩ := h' log
  rw [run, Prod.mk.injEq, Except.ok.injEq, List.append_cancel_left_eq] at run'
  obtain ⟨rfl, rfl⟩ := run'
  exact ⟨a, new, run, holds, holds'⟩

theorem Adds.of_run (h : Adds P m) {log log' : List κ} (run : m log = (.ok a, log')) :
    ∃ new, log' = log ++ new ∧ P a new := by
  obtain ⟨a', new, run', holds⟩ := h log
  rw [run'] at run
  cases run
  exact ⟨new, rfl, holds⟩

end Adds

end NuMakerMA35.Logged
