import NuMakerMA35.HwMutex

namespace NuMakerMA35

/-- The semaphore is free, no unlock interrupt is pending or in service, and the taker is blocked. -/
def HwMutex.Stuck (s : HwMutex) (p : Core) : Prop :=
  s.sem.lockedBy = none ∧ (s.priv p).intsts = false ∧ (s.priv p).isr = .idle ∧
    ∃ key timeout, (s.priv p).pc = .suspended key timeout

/-- No wait begins that missed the unlock: the semaphore, found locked by the test, was free when
the interrupt was enabled, where it had been disabled, and has not been locked since. -/
def HwMutex.Awaits (s : HwMutex) : MutexEvent → Prop
  | .run p => ∀ key timeout, (s.priv p).pc = .wait key timeout → timeout ≠ 0 →
    (s.priv p).missed = false
  | _ => True

section Waits

variable {c : MutexCfg} {s : HwMutex} {sem : HwSem} {p q : Core} {x : MutexPriv} {key : BitVec 8}

/-- A taker that saw the semaphore locked will hear of it once it is free. -/
def MutexPriv.Waits (x : MutexPriv) (sem : HwSem) : Prop :=
  match x.pc with
  | .getKey _ _ | .enableInt _ _ =>
    x.inten = true → sem.lockedBy = none → x.outstanding = true
  | .wait _ _ =>
    x.inten = true ∧ (sem.lockedBy = none → x.outstanding = true ∨ x.missed = true) ∧
      (x.missed = true → sem.lockedBy = none ∧ x.outstanding = false)
  | .suspended _ _ =>
    x.inten = true ∧ x.done = false ∧
      (sem.lockedBy = none → x.intsts = true ∨ x.isr ≠ .idle)
  | _ => True

def HwMutex.Woken (s : HwMutex) : Prop := ∀ p, (s.priv p).Waits s.sem

theorem HwMutex.Woken.not_stuck (woken : s.Woken) (p : Core) : ¬s.Stuck p := by
  rintro ⟨free, quiet, idle, key, timeout, pc⟩
  have waits := woken p
  simp only [MutexPriv.Waits, pc] at waits
  rcases waits.2.2 free with raised | busy
  · rw [quiet] at raised
    cases raised
  · exact busy idle

theorem HwMutex.Woken.set (woken : s.Woken) (waits : x.Waits s.sem) : (s.set p x).Woken := by
  intro q
  by_cases same : q = p
  · subst same
    simpa [HwMutex.set] using waits
  · simpa [HwMutex.set, same] using woken q

theorem MutexPriv.outstanding_iff :
    x.outstanding = true ↔ x.intsts = true ∨ x.isr ≠ .idle ∨ x.done = true := by
  simp [MutexPriv.outstanding, or_assoc]

theorem MutexPriv.not_outstanding_iff :
    x.outstanding = false ↔ x.intsts = false ∧ x.isr = .idle ∧ x.done = false := by
  simp [MutexPriv.outstanding, and_assoc]

theorem HwMutex.Woken.isr (woken : s.Woken) (p : Core) : (s.isr p).Woken := by
  have waits := woken p
  unfold HwMutex.isr
  cases phase : (s.priv p).isr with
  | idle =>
    simp only [phase]
    split_ifs with raised
    · apply woken.set
      unfold MutexPriv.Waits at waits ⊢
      cases pc : (s.priv p).pc <;>
        simp only [pc, MutexPriv.outstanding_iff, MutexPriv.not_outstanding_iff] at waits ⊢ <;>
        simp_all
    · exact woken
  | clearFlag =>
    simp only [phase]
    apply woken.set
    unfold MutexPriv.Waits at waits ⊢
    cases pc : (s.priv p).pc <;>
      simp only [pc, MutexPriv.outstanding_iff, MutexPriv.not_outstanding_iff] at waits ⊢ <;>
      simp_all
  | checkDone =>
    simp only [phase]
    apply woken.set
    unfold MutexPriv.Waits at waits ⊢
    cases pc : (s.priv p).pc <;>
      simp only [pc, MutexPriv.outstanding_iff, MutexPriv.not_outstanding_iff] at waits ⊢ <;>
      cases done : (s.priv p).done <;> simp_all
  | setDone =>
    simp only [phase]
    apply woken.set
    unfold MutexPriv.Waits at waits ⊢
    cases pc : (s.priv p).pc <;>
      simp only [pc, MutexPriv.outstanding_iff, MutexPriv.not_outstanding_iff] at waits ⊢ <;>
      simp_all

theorem HwMutex.Woken.write (woken : s.Woken) (quiet : x.Waits (s.sem.write c.keeps p key)) :
    ((s.write c p key).set p x).Woken := by
  intro q
  by_cases same : q = p
  · subst same
    simpa [HwMutex.set, HwMutex.write] using quiet
  have waits := woken q
  have next : ((s.write c p key).set p x).priv q = (s.write c p key).priv q := by
    simp [HwMutex.set, same]
  have sem : ((s.write c p key).set p x).sem = s.sem.write c.keeps p key := rfl
  rw [next, sem]
  unfold MutexPriv.Waits at waits ⊢
  unfold HwMutex.write HwSem.write
  by_cases free : s.sem.lockedBy = none
  · cases pc : (s.priv q).pc <;> simp only [pc] at waits ⊢ <;> simp_all [MutexPriv.outstanding]
  · by_cases hers : s.sem.key = key
    · cases pc : (s.priv q).pc <;> simp only [pc] at waits ⊢ <;>
        simp_all [MutexPriv.outstanding, Option.isSome_iff_ne_none]
    · cases pc : (s.priv q).pc <;> simp only [pc] at waits ⊢ <;> simp_all [MutexPriv.outstanding]

theorem HwMutex.Woken.leave (woken : s.Woken) {call : MutexCall} {ret : Int} {depth : Nat} :
    (s.leave p x call ret depth).Woken :=
  woken.set (x := { x with pc := .out, depth }) trivial

theorem HwMutex.Woken.run (woken : s.Woken) (awaits : s.Awaits (.run p)) : (s.run c p).Woken := by
  have waits := woken p
  unfold MutexPriv.Waits at waits
  cases pc : (s.priv p).pc with
  | out =>
    simp only [HwMutex.run, pc]
    exact woken
  | initCompletion key timeout =>
    simp only [HwMutex.run, pc]
    exact woken.set trivial
  | isLocked key timeout =>
    simp only [HwMutex.run, pc]
    split_ifs with free
    · exact woken.set trivial
    · exact woken.set fun _ none => absurd none free
  | getKey key timeout =>
    simp only [pc] at waits
    simp only [HwMutex.run, pc]
    split_ifs
    · exact woken.leave
    · exact woken.set waits
  | enableInt key timeout =>
    simp only [pc] at waits
    simp only [HwMutex.run, pc]
    refine woken.set ⟨rfl, ?_, ?_⟩
    · intro free
      cases known : (s.priv p).outstanding with
      | true => exact .inl known
      | false =>
        right
        have off : (s.priv p).inten = false := by
          by_contra on
          have raised := waits (Bool.eq_true_of_not_eq_false on) free
          rw [known] at raised
          cases raised
        simp [off, free]
    · intro missed
      simp only [Bool.and_eq_true, Option.isNone_iff_eq_none, Bool.not_eq_true'] at missed
      exact ⟨missed.1.2, missed.2⟩
  | wait key timeout =>
    simp only [pc] at waits
    obtain ⟨on, heard, -⟩ := waits
    simp only [HwMutex.run, pc]
    split_ifs with done now
    · exact woken.set trivial
    · exact woken.leave
    · refine woken.set ⟨on, Bool.eq_false_of_not_eq_true done, ?_⟩
      intro free
      rcases heard free with raised | missed
      · rcases MutexPriv.outstanding_iff.mp raised with flag | busy | signalled
        · exact .inl flag
        · exact .inr busy
        · exact absurd signalled done
      · rw [awaits key timeout pc now] at missed
        cases missed
  | suspended key timeout =>
    simp only [HwMutex.run, pc]
    exact woken
  | resumed key timeout timedOut =>
    simp only [HwMutex.run, pc]
    split_ifs
    · exact woken.leave
    · exact woken.set trivial
  | lock key timeout =>
    simp only [HwMutex.run, pc]
    exact woken.write trivial
  | checkKey key timeout =>
    simp only [HwMutex.run, pc]
    split_ifs
    · exact woken.set trivial
    · exact woken.set trivial
  | disableInt =>
    simp only [HwMutex.run, pc]
    exact woken.leave
  | relIsLocked key =>
    simp only [HwMutex.run, pc]
    split_ifs
    · exact woken.leave
    · exact woken.set trivial
  | relGetKey key =>
    simp only [HwMutex.run, pc]
    split_ifs
    · exact woken.set trivial
    · exact woken.leave
    · exact woken.leave
  | relUnlock key =>
    simp only [HwMutex.run, pc]
    exact woken.write (x := { (s.write c p key).priv p with pc := .out, depth := (s.priv p).depth - 1 })
      trivial

theorem HwMutex.Woken.run_stuck (woken : s.Woken) (late : ¬s.Awaits (.run p)) :
    (s.run c p).Stuck p := by
  simp only [HwMutex.Awaits, not_forall] at late
  obtain ⟨key, timeout, pc, now, missed⟩ := late
  have waits := woken p
  simp only [MutexPriv.Waits, pc] at waits
  obtain ⟨free, quiet⟩ := waits.2.2 (Bool.eq_true_of_not_eq_false missed)
  obtain ⟨flag, idle, done⟩ := MutexPriv.not_outstanding_iff.mp quiet
  have next : s.run c p = s.set p { s.priv p with pc := .suspended key timeout } := by
    simp only [HwMutex.run, pc, done, now, if_false, Bool.false_eq_true]
  rw [next]
  simp [HwMutex.Stuck, HwMutex.set, free, flag, idle]

theorem HwMutex.Woken.step (woken : s.Woken) (event : MutexEvent) (awaits : s.Awaits event) :
    (s.step c event).Woken := by
  cases event with
  | take p thread cpu timeout =>
    simp only [HwMutex.step]
    split_ifs
    · exact woken
    · exact woken.set trivial
    · exact woken
  | release p thread cpu =>
    simp only [HwMutex.step]
    split_ifs
    · exact woken
    · exact woken.set trivial
    · exact woken
  | run p => exact woken.run awaits
  | timer p =>
    simp only [HwMutex.step]
    split
    · split_ifs
      · exact woken.set trivial
      · exact woken
    · exact woken
  | isr p => exact woken.isr p

end Waits

/-- No taker stays blocked on a free semaphore with no interrupt to come, in every state of a run,
exactly when no wait of the run begins after an unlock it missed. -/
theorem mutex_wakes_iff (c : MutexCfg) (events : List MutexEvent) :
    (∀ pre, pre <+: events → ∀ p, ¬(pre.foldl (HwMutex.step c) .start).Stuck p) ↔
      Runs.StepsMeet (HwMutex.step c) HwMutex.Awaits .start events := by
  refine Runs.prefixes_hold_iff HwMutex.Woken (fun s => ∀ p, ¬s.Stuck p)
    (fun s woken => woken.not_stuck) ?_ (fun s event woken awaits => woken.step event awaits) ?_ events
  · intro s event woken
    refine ⟨fun free => ?_, fun awaits => (woken.step event awaits).not_stuck⟩
    cases event with
    | run p => exact by_contra fun late => free p (woken.run_stuck late)
    | take => trivial
    | release => trivial
    | timer => trivial
    | isr => trivial
  · intro p
    trivial

/-- The processor with the semaphore gives it back between the other's test and its enabling of
the interrupt. -/
def lateEnable : List MutexEvent :=
  [.take .m4 0 0 (-1), .run .m4, .run .m4, .run .m4, .run .m4, .run .m4,
    .take .a35 0 0 (-1), .run .a35, .run .a35,
    .release .m4 0 0, .run .m4, .run .m4, .run .m4,
    .run .a35, .run .a35, .run .a35]

theorem lateEnable_stuck :
    (lateEnable.foldl (HwMutex.step ⟨⟨0, by decide⟩, fun _ => 0, false⟩) .start).Stuck .a35 :=
  ⟨by decide, by decide, by decide, 0x10, -1, by decide⟩

end NuMakerMA35
