import NuMakerMA35.Crypto
import NuMakerMA35.Runs

namespace NuMakerMA35

/-- A flag of the operation under way is set, or cleared and about to release the semaphore. -/
def CryptoRun.Pending (s : CryptoRun) (e : CryptoEngine) : Prop :=
  ∃ f : CryptoFlag, f.engine = e ∧
    (s.flag f = some (s.op e) ∨ ∃ rest, s.isr = .release f (s.op e) rest)

def CryptoRun.Handled (s : CryptoRun) (e : CryptoEngine) : Prop :=
  s.busy e = false ∧ ¬s.Pending e

/-- Nobody waits for a completion that is over, no wait returned for an earlier one, and no
assertion failed. -/
structure CryptoRun.Safe (s : CryptoRun) : Prop where
  woken : ∀ e, ¬(s.pc e = .blocked ∧ s.value e = 0 ∧ s.Handled e)
  stale : s.stale = false
  called : ∀ e, s.pc e ≠ .asserted
  isr : s.isr ≠ .asserted

def CryptoRun.Answers (s : CryptoRun) : Prop :=
  ∀ e n, ((fun s : CryptoRun => s.callStep e)^[n] s).Safe

/-- What a step must find so that no completion is lost or taken for a later one. -/
def CryptoRun.Meets (s : CryptoRun) : CryptoEvent → Prop
  | .start e _ => s.pc e = .out → cryptoCreated e = true
  | .isr =>
    match s.isr with
    | .release f n _ =>
      if n = s.op f.engine then
        -- the release before the reset is wiped, so another flag must be left
        s.pc f.engine = .reset → s.busy f.engine = true ∨ ∃ g : CryptoFlag, g.engine = f.engine ∧
          s.flag g = some (s.op f.engine)
      else
        s.pc f.engine ≠ .blocked ∧ (s.pc f.engine = .take → s.fresh f.engine = true)
    | _ => True
  | _ => True

def CryptoRun.CallOk (s : CryptoRun) (e : CryptoEngine) : Prop :=
  match s.pc e with
  | .reset => ¬s.Handled e
  | .take => if s.value e = 0 then ¬s.Handled e else s.fresh e = true
  | .blocked => ¬s.Handled e
  | .asserted => False
  | .out | .poll => True

structure CryptoRun.Ok (s : CryptoRun) : Prop where
  call : ∀ e, s.CallOk e
  stale : s.stale = false
  isr : s.isr ≠ .asserted
  clear : ∀ f rest, s.isr = .clear f rest → s.flag f ≠ none
  held : ∀ f n rest, s.isr = .release f n rest → cryptoCreated f.engine = true
  unused : ∀ e, cryptoCreated e = false →
    s.pc e = .out ∧ s.busy e = false ∧ ∀ f : CryptoFlag, f.engine = e → s.flag f = none

section Thread

variable {s s' : CryptoRun} {e : CryptoEngine}

theorem CryptoRun.Ok.safe (ok : s.Ok) : s.Safe where
  woken := by
    rintro e ⟨blocked, -, handled⟩
    have call := ok.call e
    simp only [CryptoRun.CallOk, blocked] at call
    exact call handled
  stale := ok.stale
  called := by
    intro e asserted
    have call := ok.call e
    simp only [CryptoRun.CallOk, asserted] at call
  isr := ok.isr

theorem CryptoRun.Handled.congr (here : s'.Handled e) (busy : s'.busy e = s.busy e)
    (op : s'.op e = s.op e) (flag : ∀ f : CryptoFlag, f.engine = e → s'.flag f = s.flag f)
    (isr : s'.isr = s.isr) : s.Handled e := by
  obtain ⟨idle, none⟩ := here
  rw [busy] at idle
  refine ⟨idle, ?_⟩
  rintro ⟨f, mine, set | ⟨rest, held⟩⟩
  · exact none ⟨f, mine, .inl (by rw [flag f mine, op]; exact set)⟩
  · exact none ⟨f, mine, .inr ⟨rest, by rw [isr, op]; exact held⟩⟩

theorem CryptoRun.CallOk.congr (ok : s.CallOk e) (pc : s'.pc e = s.pc e)
    (value : s'.value e = s.value e) (fresh : s'.fresh e = s.fresh e)
    (handled : s'.Handled e → s.Handled e) : s'.CallOk e := by
  unfold CryptoRun.CallOk at ok ⊢
  rw [pc, value, fresh]
  cases at_pc : s.pc e with
  | reset =>
    rw [at_pc] at ok
    exact fun here => ok (handled here)
  | take =>
    rw [at_pc] at ok
    simp only at ok ⊢
    split_ifs at ok ⊢
    · exact fun here => ok (handled here)
    · exact ok
  | blocked =>
    rw [at_pc] at ok
    exact fun here => ok (handled here)
  | asserted =>
    rw [at_pc] at ok
    exact ok
  | out => trivial
  | poll => trivial

theorem CryptoRun.Ok.thread (ok : s.Ok) (mine : s'.CallOk e) (stale : s'.stale = false)
    (created : cryptoCreated e = true) (others : ∀ other, other ≠ e → s'.pc other = s.pc other ∧
      s'.value other = s.value other ∧ s'.fresh other = s.fresh other)
    (busy : s'.busy = s.busy) (op : s'.op = s.op) (flag : s'.flag = s.flag) (isr : s'.isr = s.isr) :
    s'.Ok where
  call := by
    intro other
    by_cases same : other = e
    · subst same
      exact mine
    · obtain ⟨pc, value, fresh⟩ := others other same
      refine (ok.call other).congr pc value fresh fun here => ?_
      exact here.congr (by rw [busy]) (by rw [op]) (fun f _ => by rw [flag]) isr
  stale := stale
  isr := by
    rw [isr]
    exact ok.isr
  clear := by
    rw [isr, flag]
    exact ok.clear
  held := by
    rw [isr]
    exact ok.held
  unused := by
    intro other absent
    have ne : other ≠ e := by
      rintro rfl
      rw [created] at absent
      cases absent
    rw [(others other ne).1, busy, flag]
    exact ok.unused other absent

theorem CryptoRun.Ok.created (ok : s.Ok) (busy : s.pc e ≠ .out) : cryptoCreated e = true := by
  by_contra absent
  exact busy (ok.unused e (Bool.eq_false_iff.mpr absent)).1

theorem CryptoRun.Ok.callStep (ok : s.Ok) (e : CryptoEngine) : (s.callStep e).Ok := by
  have call := ok.call e
  unfold CryptoRun.CallOk at call
  unfold CryptoRun.callStep
  cases pc : s.pc e with
  | reset =>
    have created := ok.created (e := e) (by simp [pc])
    rw [pc] at call
    simp only [created, if_true]
    refine ok.thread ?_ ok.stale created ?_ rfl rfl rfl rfl
    · unfold CryptoRun.CallOk
      simp only [Function.update_self, if_true]
      exact call
    · intro other ne
      simp [ne]
  | take =>
    have created := ok.created (e := e) (by simp [pc])
    rw [pc] at call
    simp only at call ⊢
    split_ifs with some
    · rw [if_neg (by omega)] at call
      refine ok.thread ?_ ?_ created ?_ rfl rfl rfl rfl
      · unfold CryptoRun.CallOk CryptoRun.returned
        simp only [Function.update_self]
        cases s.polls e <;> trivial
      · simp [CryptoRun.returned, ok.stale, call]
      · intro other ne
        simp [CryptoRun.returned, ne]
    · rw [if_pos (by omega)] at call
      refine ok.thread ?_ ok.stale created ?_ rfl rfl rfl rfl
      · unfold CryptoRun.CallOk
        simp only [Function.update_self]
        exact call
      · intro other ne
        simp [ne]
  | poll =>
    have created := ok.created (e := e) (by simp [pc])
    simp only
    split_ifs
    · exact ok
    · refine ok.thread ?_ ok.stale created ?_ rfl rfl rfl rfl
      · unfold CryptoRun.CallOk
        simp only [Function.update_self]
      · intro other ne
        simp [ne]
  | out => exact ok
  | blocked => exact ok
  | asserted => exact ok

theorem CryptoRun.Ok.answers (ok : s.Ok) : s.Answers := by
  intro e n
  suffices here : ((fun s : CryptoRun => s.callStep e)^[n] s).Ok from here.safe
  induction n with
  | zero => exact ok
  | succ n ih =>
    rw [Function.iterate_succ_apply']
    exact ih.callStep e

end Thread

section Routine

variable {s : CryptoRun} {f : CryptoFlag} {n : Nat} {rest : List CryptoFlag}

theorem CryptoRun.Ok.look (ok : s.Ok) (isr : CryptoIsr) (before : ∀ f n rest, s.isr ≠ .release f n rest)
    (after : ∀ f n rest, isr ≠ .release f n rest) (running : isr ≠ .asserted)
    (clear : ∀ f rest, isr = .clear f rest → s.flag f ≠ none) : CryptoRun.Ok { s with isr := isr } where
  call := by
    intro e
    refine (ok.call e).congr rfl rfl rfl ?_
    rintro ⟨idle, none⟩
    refine ⟨idle, ?_⟩
    rintro ⟨f, mine, set | ⟨rest, held⟩⟩
    · exact none ⟨f, mine, .inl set⟩
    · exact absurd held (before _ _ _)
  stale := ok.stale
  isr := running
  clear := clear
  held := fun f n rest held => absurd held (after f n rest)
  unused := ok.unused

theorem CryptoRun.Ok.clearStep (ok : s.Ok) (isr : s.isr = .clear f rest) : s.isrStep.Ok := by
  have next : s.isrStep = { s with
      flag := Function.update s.flag f none
      isr := .release f ((s.flag f).getD 0) rest } := by
    unfold CryptoRun.isrStep
    rw [isr]
  obtain ⟨n, set⟩ := Option.ne_none_iff_exists'.mp (ok.clear f rest isr)
  rw [next, set]
  refine ⟨?_, ok.stale, by simp, by simp, ?_, ?_⟩
  · intro e
    refine (ok.call e).congr rfl rfl rfl ?_
    rintro ⟨idle, none⟩
    refine ⟨idle, ?_⟩
    rintro ⟨g, mine, here | ⟨_, held⟩⟩
    · by_cases same : g = f
      · subst same
        rw [set] at here
        exact none ⟨g, mine, .inr ⟨rest, by rw [Option.some.inj here]; rfl⟩⟩
      · exact none ⟨g, mine, .inl (by simpa [same] using here)⟩
    · rw [isr] at held
      cases held
  · intro g m rest' held
    obtain ⟨rfl, -, -⟩ := CryptoIsr.release.inj held
    by_contra absent
    have unset := (ok.unused f.engine (Bool.eq_false_iff.mpr absent)).2.2 f rfl
    rw [set] at unset
    cases unset
  · intro e absent
    obtain ⟨out, idle, unset⟩ := ok.unused e absent
    refine ⟨out, idle, fun g mine => ?_⟩
    by_cases same : g = f
    · simp [same]
    · simpa [same] using unset g mine

theorem CryptoRun.released_facts (isr : s.isr = .release f n rest)
    (created : cryptoCreated f.engine = true) :
    s.isrStep.isr = .check rest ∧ s.isrStep.flag = s.flag ∧ s.isrStep.busy = s.busy ∧
      s.isrStep.op = s.op ∧ s.isrStep.isr ≠ .asserted ∧
      (∀ e, e ≠ f.engine → s.isrStep.pc e = s.pc e ∧ s.isrStep.value e = s.value e ∧
        s.isrStep.fresh e = s.fresh e) ∧
      (s.pc f.engine = .blocked →
        s.isrStep.stale = (s.stale || !decide (n = s.op f.engine)) ∧
          (s.isrStep.pc f.engine = .poll ∨ s.isrStep.pc f.engine = .out)) ∧
      (s.pc f.engine ≠ .blocked → s.isrStep.stale = s.stale ∧
        s.isrStep.pc f.engine = s.pc f.engine ∧ 0 < s.isrStep.value f.engine ∧
          s.isrStep.fresh f.engine = (s.fresh f.engine || decide (n = s.op f.engine))) := by
  have next : s.isrStep = { s.release f.engine n with isr := .check rest } := by
    unfold CryptoRun.isrStep
    rw [isr]
    simp only [created, if_true]
  rw [next]
  by_cases blocked : s.pc f.engine = .blocked
  · rw [show s.release f.engine n = s.returned f.engine (n = s.op f.engine) from if_pos blocked]
    refine ⟨rfl, rfl, rfl, rfl, by simp, ?_, ?_, fun awake => absurd blocked awake⟩
    · intro e ne
      simp [CryptoRun.returned, ne]
    · intro _
      refine ⟨rfl, ?_⟩
      unfold CryptoRun.returned
      simp only [Function.update_self]
      split_ifs
      · exact .inl rfl
      · exact .inr rfl
  · have rel : s.release f.engine n = { s with
        value := Function.update s.value f.engine
          (if s.value f.engine < rtSemValueMax then s.value f.engine + 1 else s.value f.engine)
        fresh := Function.update s.fresh f.engine
          (s.fresh f.engine || n = s.op f.engine) } := if_neg blocked
    rw [rel]
    refine ⟨rfl, rfl, rfl, rfl, by simp, ?_, fun asleep => absurd asleep blocked, ?_⟩
    · intro e ne
      simp [ne]
    · intro _
      refine ⟨rfl, rfl, ?_, by simp⟩
      simp only [Function.update_self]
      split_ifs with room
      · exact Nat.succ_pos _
      · unfold rtSemValueMax at room
        omega

theorem CryptoRun.Ok.releaseStep (ok : s.Ok) (isr : s.isr = .release f n rest)
    (meets : s.Meets .isr) : s.isrStep.Ok := by
  have created := ok.held f n rest isr
  obtain ⟨phase, flag, busy, op, running, others, asleep, awake⟩ :=
    CryptoRun.released_facts isr created
  have call := ok.call f.engine
  simp only [CryptoRun.Meets, isr] at meets
  have stays : s.isrStep.Handled f.engine → n ≠ s.op f.engine → s.Handled f.engine := by
    rintro ⟨idle, none⟩ old
    rw [busy] at idle
    refine ⟨idle, ?_⟩
    rintro ⟨g, mine, set | ⟨_, held⟩⟩
    · exact none ⟨g, mine, .inl (by rw [flag, op]; exact set)⟩
    · rw [isr] at held
      exact old (CryptoIsr.release.inj held).2.1
  have mine : s.isrStep.CallOk f.engine ∧ s.isrStep.stale = false := by
    by_cases blocked : s.pc f.engine = .blocked
    · obtain ⟨stale, pc⟩ := asleep blocked
      have own : n = s.op f.engine := by
        by_contra old
        rw [if_neg old] at meets
        exact meets.1 blocked
      refine ⟨?_, by rw [stale, ok.stale, decide_eq_true own]; rfl⟩
      unfold CryptoRun.CallOk
      rcases pc with pc | pc <;> rw [pc] <;> trivial
    · obtain ⟨stale, pc, value, fresh⟩ := awake blocked
      refine ⟨?_, stale.trans ok.stale⟩
      unfold CryptoRun.CallOk at call ⊢
      rw [pc, fresh]
      cases at_pc : s.pc f.engine with
      | reset =>
        rw [at_pc] at call
        by_cases own : n = s.op f.engine
        · rw [if_pos own] at meets
          rintro ⟨idle, none⟩
          rcases meets at_pc with running | ⟨g, its, set⟩
          · rw [busy, running] at idle
            cases idle
          · exact none ⟨g, its, .inl (by rw [flag, op]; exact set)⟩
        · exact fun here => call (stays here own)
      | take =>
        simp only
        rw [if_neg (by omega)]
        by_cases own : n = s.op f.engine
        · simp [own]
        · rw [if_neg own] at meets
          simp [meets.2 at_pc]
      | blocked => exact absurd at_pc blocked
      | asserted =>
        rw [at_pc] at call
        exact call
      | out => trivial
      | poll => trivial
  refine ⟨?_, mine.2, running, ?_, ?_, ?_⟩
  · intro e
    by_cases same : e = f.engine
    · rw [same]
      exact mine.1
    · obtain ⟨pc, value, fresh⟩ := others e same
      refine (ok.call e).congr pc value fresh ?_
      rintro ⟨idle, none⟩
      rw [busy] at idle
      refine ⟨idle, ?_⟩
      rintro ⟨g, its, set | ⟨_, held⟩⟩
      · exact none ⟨g, its, .inl (by rw [flag, op]; exact set)⟩
      · rw [isr] at held
        obtain ⟨rfl, -, -⟩ := CryptoIsr.release.inj held
        exact same its.symm
  · rw [phase]
    intro g rest' clear
    cases clear
  · rw [phase]
    intro g m rest' held
    cases held
  · intro e absent
    have ne : e ≠ f.engine := by
      rintro rfl
      rw [created] at absent
      cases absent
    rw [(others e ne).1, busy, flag]
    exact ok.unused e absent

theorem CryptoRun.Ok.isrStep (ok : s.Ok) (meets : s.Meets .isr) : s.isrStep.Ok := by
  cases isr : s.isr with
  | idle =>
    unfold CryptoRun.isrStep
    rw [isr]
    dsimp only
    split_ifs
    · exact ok.look _ (by simp [isr]) (by simp) (by simp) (by simp)
    · exact ok
  | check list =>
    unfold CryptoRun.isrStep
    rw [isr]
    cases list with
    | nil => exact ok.look _ (by simp [isr]) (by simp) (by simp) (by simp)
    | cons f rest =>
      dsimp only
      split_ifs with set
      · refine ok.look _ (by simp [isr]) (by simp) (by simp) ?_
        intro g rest' clear
        obtain ⟨rfl, -⟩ := CryptoIsr.clear.inj clear
        rw [Option.isSome_iff_ne_none] at set
        exact set
      · exact ok.look _ (by simp [isr]) (by simp) (by simp) (by simp)
  | clear f rest => exact ok.clearStep isr
  | release f n rest => exact ok.releaseStep isr meets
  | asserted => exact absurd isr ok.isr

/-- A release that does not meet the condition loses a completion, or is taken for one. -/
theorem CryptoRun.Ok.isrStep_lost (ok : s.Ok) (lost : ¬s.Meets .isr) : ¬s.isrStep.Answers := by
  intro answers
  cases isr : s.isr with
  | release f n rest =>
    have created := ok.held f n rest isr
    obtain ⟨phase, flag, busy, op, -, -, asleep, awake⟩ := CryptoRun.released_facts isr created
    have call := ok.call f.engine
    simp only [CryptoRun.Meets, isr] at lost
    by_cases own : n = s.op f.engine
    · rw [if_pos own, Classical.not_imp] at lost
      obtain ⟨at_reset, none⟩ := lost
      push Not at none
      obtain ⟨stale, pc, -, -⟩ := awake (by simp [at_reset])
      have waits := (answers f.engine 2).woken f.engine
      apply waits
      simp only [Function.iterate_succ_apply, Function.iterate_zero, id]
      have first : s.isrStep.callStep f.engine = { s.isrStep with
          pc := Function.update s.isrStep.pc f.engine .take
          value := Function.update s.isrStep.value f.engine 0
          fresh := Function.update s.isrStep.fresh f.engine false } := by
        unfold CryptoRun.callStep
        rw [pc, at_reset]
        simp only [created, if_true]
      rw [first]
      unfold CryptoRun.callStep
      simp only [Function.update_self, Nat.lt_irrefl, if_false, true_and]
      refine ⟨by rw [busy]; exact Bool.eq_false_iff.mpr none.1, ?_⟩
      rintro ⟨g, its, set | ⟨_, held⟩⟩
      · rw [flag, op] at set
        exact none.2 g its set
      · rw [phase] at held
        cases held
    · rw [if_neg own, not_and_or, not_not, Classical.not_imp] at lost
      rcases lost with blocked | ⟨at_take, unfresh⟩
      · have now := (answers f.engine 0).stale
        simp only [Function.iterate_zero, id] at now
        rw [(asleep blocked).1, decide_eq_false own, Bool.not_false, Bool.or_true] at now
        cases now
      · obtain ⟨stale, pc, value, fresh⟩ := awake (by simp [at_take])
        have after := (answers f.engine 1).stale
        simp only [Function.iterate_succ_apply, Function.iterate_zero, id] at after
        unfold CryptoRun.callStep at after
        rw [pc, at_take] at after
        simp only [value, if_true, CryptoRun.returned, fresh, Bool.eq_false_iff.mpr unfresh,
          decide_eq_false own, Bool.or_false, Bool.not_false, Bool.or_true] at after
        cases after
  | _ => exact lost (by simp only [CryptoRun.Meets, isr])

end Routine

section Runs

variable {s : CryptoRun}

theorem CryptoRun.Ok.start (ok : s.Ok) (e : CryptoEngine) (polls : Bool)
    (meets : s.Meets (.start e polls)) : (s.step (.start e polls)).Ok := by
  unfold CryptoRun.step
  dsimp only
  split_ifs with out
  · have created := meets out
    refine ⟨?_, ok.stale, ok.isr, ok.clear, ok.held, ?_⟩
    · intro other
      by_cases same : other = e
      · subst same
        unfold CryptoRun.CallOk CryptoRun.Handled
        simp
      · refine (ok.call other).congr (by simp [same]) rfl rfl fun here => ?_
        exact here.congr (by simp [same]) (by simp [same]) (fun f _ => rfl) rfl
    · intro other absent
      have ne : other ≠ e := by
        rintro rfl
        rw [created] at absent
        cases absent
      simpa [ne] using ok.unused other absent
  · exact ok

theorem CryptoRun.Ok.finish (ok : s.Ok) (e : CryptoEngine) (raised : CryptoFlag → Bool) :
    (s.step (.finish e raised)).Ok := by
  unfold CryptoRun.step
  dsimp only
  split_ifs with done
  · obtain ⟨busy, some⟩ := done
    obtain ⟨f, -, mine⟩ := List.any_eq_true.mp some
    refine ⟨?_, ok.stale, ok.isr, ?_, ok.held, ?_⟩
    · intro other
      by_cases same : other = e
      · subst same
        refine (ok.call other).congr rfl rfl rfl ?_
        rintro ⟨-, none⟩
        refine absurd ⟨f, ?_, .inl ?_⟩ none
        · simp only [Bool.and_eq_true, decide_eq_true_eq] at mine
          exact mine.1
        · simp only [mine, if_true]
      · refine (ok.call other).congr rfl rfl rfl fun here => ?_
        refine here.congr (by simp [same]) rfl (fun g its => ?_) rfl
        simp [its, same]
    · intro g rest clear
      dsimp only
      split_ifs
      · simp
      · exact ok.clear g rest clear
    · intro other absent
      obtain ⟨out, idle, unset⟩ := ok.unused other absent
      have ne : other ≠ e := by
        rintro rfl
        rw [idle] at busy
        cases busy
      refine ⟨out, by simpa [ne] using idle, fun g its => ?_⟩
      simp [its, ne, unset g its]
  · exact ok

theorem CryptoRun.Ok.step (ok : s.Ok) (ev : CryptoEvent) (meets : s.Meets ev) : (s.step ev).Ok := by
  cases ev with
  | start e polls => exact ok.start e polls meets
  | call e => exact ok.callStep e
  | finish e raised => exact ok.finish e raised
  | isr => exact ok.isrStep meets

theorem CryptoRun.Ok.step_lost (ok : s.Ok) (ev : CryptoEvent) (lost : ¬s.Meets ev) :
    ¬(s.step ev).Answers := by
  cases ev with
  | start e polls =>
    simp only [CryptoRun.Meets, Classical.not_imp, Bool.not_eq_true] at lost
    intro answers
    have asserted := (answers e 1).called e
    simp only [Function.iterate_succ_apply, Function.iterate_zero, id] at asserted
    apply asserted
    simp [CryptoRun.step, lost.1, CryptoRun.callStep, lost.2]
  | isr => exact ok.isrStep_lost lost
  | call => exact absurd trivial lost
  | finish => exact absurd trivial lost

theorem CryptoRun.init_ok : CryptoRun.init.Ok where
  call := fun _ => trivial
  stale := rfl
  isr := by simp [CryptoRun.init]
  clear := by
    intro f rest clear
    cases clear
  held := by
    intro f n rest held
    cases held
  unused := fun _ _ => ⟨rfl, rfl, fun _ _ => rfl⟩

theorem crypto_waits_iff (es : List CryptoEvent) :
    (∀ pre, pre <+: es → (pre.foldl CryptoRun.step CryptoRun.init).Answers) ↔
      Runs.StepsMeet CryptoRun.step CryptoRun.Meets CryptoRun.init es := by
  apply Runs.prefixes_hold_iff CryptoRun.Ok CryptoRun.Answers
  · exact fun s ok => ok.answers
  · intro s ev ok
    constructor
    · intro answers
      by_contra lost
      exact ok.step_lost ev lost answers
    · exact fun meets => (ok.step ev meets).answers
  · exact fun s ev ok meets => ok.step ev meets
  · exact CryptoRun.init_ok

end Runs

/-- A random number is ready, and its interrupt handled on the other core, before the thread that
started the generator resets the semaphore. -/
def earlyNumber : List CryptoEvent :=
  [.start .prng false, .finish .prng fun _ => true, .isr, .isr, .isr, .isr, .call .prng, .call .prng]

theorem earlyNumber_waits_for_ever :
    ¬∀ pre, pre <+: earlyNumber → (pre.foldl CryptoRun.step CryptoRun.init).Answers := by
  intro answers
  have last := (answers earlyNumber (List.prefix_refl _) .prng 0).woken .prng
  apply last
  refine ⟨by decide, by decide, by decide, ?_⟩
  rintro ⟨f, mine, set | ⟨rest, held⟩⟩
  · revert set
    cases f <;> decide
  · have phase : (earlyNumber.foldl CryptoRun.step CryptoRun.init).isr =
        .check [.aesEif, .aesIf, .hmacEif, .hmacIf, .eccIf, .eccEif] := by decide
    simp only [Function.iterate_zero, id, phase] at held
    cases held

end NuMakerMA35
