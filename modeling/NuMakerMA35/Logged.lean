import Mathlib.Data.List.Infix

namespace NuMakerMA35

/-- Computations that append to a log of commands and may fail, keeping what they logged. -/
def Logged (ε κ α : Type) : Type := List κ → Except ε α × List κ

namespace Logged

variable {ε κ α β : Type}

protected def pure (a : α) : Logged ε κ α := fun log => (.ok a, log)

protected def bind (m : Logged ε κ α) (f : α → Logged ε κ β) : Logged ε κ β := fun log =>
  match m log with
  | (.ok a, log) => f a log
  | (.error e, log) => (.error e, log)

instance : Monad (Logged ε κ) where
  pure := Logged.pure
  bind := Logged.bind

def fail (e : ε) : Logged ε κ α := fun log => (.error e, log)

/-- Issues a command; the answer may depend on everything issued so far. -/
def issue (c : κ) (answer : List κ → α) : Logged ε κ α := fun log =>
  (.ok (answer (log ++ [c])), log ++ [c])

def lift (x : Except ε α) : Logged ε κ α := fun log => (x, log)

def each (f : α → Logged ε κ Unit) : List α → Logged ε κ Unit
  | [] => pure ()
  | a :: as => do
    f a
    each f as

@[simp] theorem pure_apply (a : α) (log : List κ) : (pure a : Logged ε κ α) log = (.ok a, log) := rfl

theorem issue_apply (c : κ) (answer : List κ → α) (log : List κ) :
    (issue c answer : Logged ε κ α) log = (.ok (answer (log ++ [c])), log ++ [c]) := rfl

theorem bind_apply (m : Logged ε κ α) (f : α → Logged ε κ β) (log : List κ) :
    (m >>= f) log = match m log with
      | (.ok a, log) => f a log
      | (.error e, log) => (.error e, log) := rfl

theorem bind_ok {m : Logged ε κ α} {f : α → Logged ε κ β} {a : α} {log log' : List κ}
    (h : m log = (.ok a, log')) : (m >>= f) log = f a log' := by
  rw [bind_apply, h]

theorem bind_error {m : Logged ε κ α} {f : α → Logged ε κ β} {e : ε} {log log' : List κ}
    (h : m log = (.error e, log')) : (m >>= f) log = (.error e, log') := by
  rw [bind_apply, h]

theorem bind_ok_iff {m : Logged ε κ α} {f : α → Logged ε κ β} {b : β} {log log' : List κ} :
    (m >>= f) log = (.ok b, log') ↔
      ∃ a mid, m log = (.ok a, mid) ∧ f a mid = (.ok b, log') := by
  constructor
  · intro run
    cases first : m log with
    | mk result mid =>
      cases result with
      | error e =>
        rw [bind_error first] at run
        cases run
      | ok a =>
        rw [bind_ok first] at run
        exact ⟨a, mid, rfl, run⟩
  · rintro ⟨a, mid, first, rest⟩
    rw [bind_ok first, rest]

theorem id_map (m : Logged ε κ α) : id <$> m = m := by
  funext log
  change (m >>= fun a => pure a) log = m log
  rw [bind_apply]
  rcases m log with ⟨_ | _, _⟩ <;> rfl

theorem bind_assoc' {γ : Type} (m : Logged ε κ α) (f : α → Logged ε κ β)
    (g : β → Logged ε κ γ) : m >>= f >>= g = m >>= fun a => f a >>= g := by
  funext log
  rw [bind_apply, bind_apply, bind_apply]
  rcases m log with ⟨_ | _, _⟩ <;> rfl

instance : LawfulMonad (Logged ε κ) :=
  LawfulMonad.mk' (Logged ε κ) id_map (fun _ _ => rfl) bind_assoc'

theorem each_append (f : α → Logged ε κ Unit) (as bs : List α) :
    each f (as ++ bs) = each f as >>= fun _ => each f bs := by
  induction as with
  | nil => rw [List.nil_append, each, pure_bind]
  | cons a as ih => rw [List.cons_append, each, each, ih, bind_assoc]

/-- `m'` does what `m` does, unless `m` gives up with `stop`. -/
def Approx (stop : ε) (m m' : Logged ε κ α) : Prop :=
  ∀ log, (m log).1 = .error stop ∨ m log = m' log

section Approx

variable {stop : ε} {m m' m'' : Logged ε κ α}

theorem Approx.refl : Approx stop m m := fun _ => .inr rfl

theorem Approx.trans (first : Approx stop m m') (second : Approx stop m' m'') :
    Approx stop m m'' := by
  intro log
  rcases first log with gives | same
  · exact .inl gives
  · rw [same]
    exact second log

theorem Approx.bind {f f' : α → Logged ε κ β} (first : Approx stop m m')
    (rest : ∀ a, Approx stop (f a) (f' a)) : Approx stop (m >>= f) (m' >>= f') := by
  intro log
  rcases first log with gives | same
  · left
    rw [bind_apply]
    rcases h : m log with ⟨_ | _, _⟩
    · rw [h] at gives
      cases gives
      rfl
    · rw [h] at gives
      cases gives
  · rw [bind_apply, bind_apply, same]
    rcases m' log with ⟨_ | a, mid⟩
    · exact .inr rfl
    · exact rest a mid

end Approx

/-- All a computation adds to the log is allowed. -/
def Issues (allowed : κ → Prop) (m : Logged ε κ α) : Prop :=
  ∀ log, ∃ new, (m log).2 = log ++ new ∧ ∀ c ∈ new, allowed c

variable {allowed : κ → Prop}

theorem Issues.pure (a : α) : Issues allowed (pure a : Logged ε κ α) := by
  intro log
  exact ⟨[], by simp, by simp⟩

theorem Issues.fail (e : ε) : Issues allowed (fail e : Logged ε κ α) := by
  intro log
  exact ⟨[], by simp [Logged.fail], by simp⟩

theorem Issues.issue {c : κ} (h : allowed c) (answer : List κ → α) :
    Issues allowed (issue c answer : Logged ε κ α) := by
  intro log
  refine ⟨[c], rfl, ?_⟩
  intro c' inside
  rw [List.mem_singleton.mp inside]
  exact h

theorem Issues.bind {m : Logged ε κ α} {f : α → Logged ε κ β} (first : Issues allowed m)
    (rest : ∀ a, Issues allowed (f a)) : Issues allowed (m >>= f) := by
  intro log
  obtain ⟨new, grown, good⟩ := first log
  cases h : m log with
  | mk result log' =>
    rw [h] at grown
    simp only at grown
    cases result with
    | error e =>
      rw [bind_error h]
      exact ⟨new, grown, good⟩
    | ok a =>
      obtain ⟨more, grownMore, goodMore⟩ := rest a log'
      rw [bind_ok h]
      refine ⟨new ++ more, ?_, ?_⟩
      · rw [grownMore, grown, List.append_assoc]
      · intro c inside
        rcases List.mem_append.mp inside with early | late
        · exact good c early
        · exact goodMore c late

theorem Issues.mem_bind {m : Logged ε κ α} {f : α → Logged ε κ β} {log : List κ} {c : κ}
    (rest : ∀ a, Issues (fun _ => True) (f a)) (here : c ∈ (m log).2) : c ∈ ((m >>= f) log).2 := by
  rw [bind_apply]
  cases h : m log with
  | mk result mid =>
    rw [h] at here
    cases result with
    | error e => exact here
    | ok a =>
      obtain ⟨new, grown, -⟩ := rest a mid
      change c ∈ (f a mid).2
      rw [grown]
      exact List.mem_append_left new here

theorem Issues.each {f : α → Logged ε κ Unit} {as : List α} (h : ∀ a ∈ as, Issues allowed (f a)) :
    Issues allowed (each f as) := by
  induction as with
  | nil => exact .pure ()
  | cons a as ih =>
    refine .bind (h a List.mem_cons_self) ?_
    intro _
    exact ih fun b inside => h b (List.mem_cons_of_mem a inside)

def Completes (m : Logged ε κ α) : Prop := ∀ log, ∃ a new, m log = (.ok a, log ++ new)

theorem Completes.pure (a : α) : Completes (pure a : Logged ε κ α) := by
  intro log
  exact ⟨a, [], by simp⟩

theorem Completes.bind {m : Logged ε κ α} {f : α → Logged ε κ β} (first : Completes m)
    (rest : ∀ a, Completes (f a)) : Completes (m >>= f) := by
  intro log
  obtain ⟨a, new, h⟩ := first log
  obtain ⟨b, more, h'⟩ := rest a (log ++ new)
  refine ⟨b, new ++ more, ?_⟩
  rw [bind_ok h, h', List.append_assoc]

theorem Completes.each {f : α → Logged ε κ Unit} (h : ∀ a, Completes (f a)) (as : List α) :
    Completes (each f as) := by
  induction as with
  | nil => exact .pure ()
  | cons a as ih => exact .bind (h a) fun _ => ih

/-- A computation that never fails and always logs some command with `P`. -/
def Shows (P : κ → Prop) (m : Logged ε κ α) : Prop :=
  ∀ log, ∃ a new, m log = (.ok a, log ++ new) ∧ ∃ c ∈ new, P c

variable {P : κ → Prop}

theorem Shows.bind {m : Logged ε κ α} {f : α → Logged ε κ β} (first : Shows P m)
    (rest : ∀ a, Completes (f a)) : Shows P (m >>= f) := by
  intro log
  obtain ⟨a, new, h, c, inside, here⟩ := first log
  obtain ⟨b, more, h'⟩ := rest a (log ++ new)
  refine ⟨b, new ++ more, ?_, c, List.mem_append_left more inside, here⟩
  rw [bind_ok h, h', List.append_assoc]

theorem Shows.after {m : Logged ε κ α} {f : α → Logged ε κ β} (first : Completes m)
    (rest : ∀ a, Shows P (f a)) : Shows P (m >>= f) := by
  intro log
  obtain ⟨a, new, h⟩ := first log
  obtain ⟨b, more, h', c, inside, here⟩ := rest a (log ++ new)
  refine ⟨b, new ++ more, ?_, c, List.mem_append_right new inside, here⟩
  rw [bind_ok h, h', List.append_assoc]

theorem Shows.each {f : α → Logged ε κ Unit} (h : ∀ a, Completes (f a)) {as : List α} {a : α}
    (called : a ∈ as) (shows : Shows P (f a)) : Shows P (Logged.each f as) := by
  induction as with
  | nil => cases called
  | cons b as ih =>
    rcases List.mem_cons.mp called with same | later
    · subst same
      exact .bind shows fun _ => .each h as
    · exact .after (h b) fun _ => ih later

/-- `met` is a log on the way from `log` to `log'`, the first one excepted. -/
def Met (log log' met : List κ) : Prop := log <+: met ∧ met <+: log' ∧ met ≠ log

theorem Met.single {log met : List κ} {c : κ} (h : Met log (log ++ [c]) met) :
    met = log ++ [c] := by
  obtain ⟨⟨added, grown⟩, upTo, other⟩ := h
  subst grown
  cases added with
  | nil => exact absurd (List.append_nil log) other
  | cons d ds =>
    have := (List.prefix_append_right_inj log).mp upTo
    obtain ⟨same, rest⟩ := List.cons_prefix_cons.mp this
    rw [same, List.prefix_nil.mp rest]

theorem Met.split {log mid log' met : List κ} (rest : mid <+: log') (h : Met log log' met) :
    Met log mid met ∨ Met mid log' met := by
  obtain ⟨start, upTo, other⟩ := h
  by_cases early : met <+: mid
  · exact .inl ⟨start, early, other⟩
  · refine .inr ⟨(List.prefix_or_prefix_of_prefix upTo rest).resolve_left early, upTo, ?_⟩
    rintro rfl
    exact early (List.prefix_refl _)

theorem Met.none {log met : List κ} (h : Met log log met) : False :=
  h.2.2 (h.2.1.eq_of_length_le h.1.length_le)

theorem Issues.grows {m : Logged ε κ α} (h : Issues allowed m) (log : List κ) :
    log <+: (m log).2 := by
  obtain ⟨new, grown, -⟩ := h log
  exact ⟨new, grown.symm⟩

/-- Every command added between two logs is as `P` says of it and the log before it. -/
def AllMet (P : List κ → κ → Prop) (log log' : List κ) : Prop :=
  ∀ before c, Met log log' (before ++ [c]) → P before c

section AllMet

variable {P' : List κ → κ → Prop} {log mid log' new : List κ} {c : κ}

theorem AllMet.refl : AllMet P' log log := fun _ _ met => met.none.elim

theorem allMet_single : AllMet P' log (log ++ [c]) ↔ P' log c := by
  constructor
  · intro all
    exact all log c ⟨List.prefix_append _ _, List.prefix_refl _, by simp⟩
  · intro here before d met
    have same := met.single
    rw [List.append_inj_left' same rfl, List.head_eq_of_cons_eq (List.append_inj_right' same rfl)]
    exact here

theorem allMet_trans (start : log <+: mid) (rest : mid <+: log') :
    AllMet P' log log' ↔ AllMet P' log mid ∧ AllMet P' mid log' := by
  constructor
  · intro all
    refine ⟨fun before d met => all before d ?_, fun before d met => all before d ?_⟩
    · exact ⟨met.1, met.2.1.trans rest, met.2.2⟩
    · refine ⟨start.trans met.1, met.2.1, ?_⟩
      rintro rfl
      exact met.2.2 (start.eq_of_length_le met.1.length_le)
  · rintro ⟨early, late⟩ before d met
    rcases met.split rest with inFirst | inRest
    · exact early before d inFirst
    · exact late before d inRest

theorem allMet_of_forall (all : ∀ d ∈ new, ∀ before, P' before d) : AllMet P' log (log ++ new) := by
  induction new generalizing log with
  | nil =>
    rw [List.append_nil]
    exact .refl
  | cons d ds ih =>
    have parts : log ++ d :: ds = (log ++ [d]) ++ ds := by simp
    rw [parts, allMet_trans (List.prefix_append _ _) (List.prefix_append _ _), allMet_single]
    exact ⟨all d List.mem_cons_self log, ih fun e inside => all e (List.mem_cons_of_mem d inside)⟩

/-- Each command is issued, and ends the computation where `P'` does not hold. -/
def Acts (e : ε) (P' : List κ → κ → Prop) (act : κ → Logged ε κ Unit) : Prop :=
  ∀ c log, (P' log c ∧ act c log = (.ok (), log ++ [c])) ∨
    (¬P' log c ∧ act c log = (.error e, log ++ [c]))

theorem Acts.each {e : ε} {act : κ → Logged ε κ Unit} (acts : Acts e P' act) (cmds log : List κ) :
    (AllMet P' log (log ++ cmds) ∧ Logged.each act cmds log = (.ok (), log ++ cmds)) ∨
      ∃ front, front <+: cmds ∧ ¬AllMet P' log (log ++ front) ∧
        Logged.each act cmds log = (.error e, log ++ front) := by
  induction cmds generalizing log with
  | nil =>
    left
    rw [List.append_nil]
    exact ⟨.refl, rfl⟩
  | cons c cmds ih =>
    have parts : ∀ rest, log ++ c :: rest = (log ++ [c]) ++ rest := fun rest => by simp
    have split : ∀ rest, AllMet P' log (log ++ c :: rest) ↔
        P' log c ∧ AllMet P' (log ++ [c]) ((log ++ [c]) ++ rest) := by
      intro rest
      rw [parts, allMet_trans (List.prefix_append _ _) (List.prefix_append _ _), allMet_single]
    rw [Logged.each]
    rcases acts c log with ⟨here, run⟩ | ⟨not, run⟩
    · rw [bind_ok run]
      rcases ih (log ++ [c]) with ⟨all, rest⟩ | ⟨front, part, some_, rest⟩
      · exact .inl ⟨(split cmds).mpr ⟨here, all⟩, by rw [rest, ← parts cmds]⟩
      · refine .inr ⟨c :: front, List.cons_prefix_cons.mpr ⟨rfl, part⟩, ?_, by rw [rest, ← parts front]⟩
        exact fun all => some_ ((split front).mp all).2
    · rw [bind_error run]
      refine .inr ⟨[c], List.cons_prefix_cons.mpr ⟨rfl, List.nil_prefix⟩, ?_, rfl⟩
      rw [allMet_single]
      exact not

end AllMet

end Logged

end NuMakerMA35
