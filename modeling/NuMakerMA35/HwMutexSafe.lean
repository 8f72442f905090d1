import NuMakerMA35.HwMutex

namespace NuMakerMA35

/-- What a call may do: a failed take changes nothing, and a release gives back the semaphore
when it is the last of as many as its thread has taken, and fails only for a thread with none. -/
def MutexReturn.Right (r : MutexReturn) : Prop :=
  match r.call with
  | .take => r.freed = false ∧ (r.ret ≠ rtEok → r.changed = false)
  | .release =>
    if 0 < r.depth then r.ret = rtEok ∧ (r.freed = true ↔ r.depth = 1)
    else r.ret ≠ rtEok ∧ r.freed = false

structure HwMutex.Safe (s : HwMutex) : Prop where
  returns : ∀ r ∈ s.returns, r.Right
  exclusive : ∀ p q, 0 < (s.priv p).depth → 0 < (s.priv q).depth → p = q

/-- A release of a thread that holds the mutex finds the semaphore under the key of the CPU it was
called on, and it does not free it when more than 256 takes are open. -/
def HwMutex.Meets (s : HwMutex) : MutexEvent → Prop
  | .run p =>
    (∀ key, (s.priv p).pc = .relGetKey key → 0 < (s.priv p).depth → s.sem.key = key) ∧
      ∀ key, (s.priv p).pc = .relUnlock key → (s.priv p).depth ≤ 256
  | _ => True

section Keys

variable {c : MutexCfg} {p q : Core} {key : BitVec 8}

def MutexCfg.OfCore (c : MutexCfg) (p : Core) (key : BitVec 8) : Prop := ∃ cpu, key = c.key p cpu

theorem MutexCfg.key_bits (c : MutexCfg) (p : Core) (cpu : BitVec 8) :
    (c.key p cpu).getLsbD 4 = decide (p = .a35) ∧ (c.key p cpu).getLsbD 5 = decide (p = .m4) := by
  have id4 : (BitVec.ofNat 8 c.id).getLsbD 4 = false := by
    rw [BitVec.getLsbD_ofNat, Nat.testBit_lt_two_pow (lt_of_lt_of_le c.id.isLt (by decide)), Bool.and_false]
  have id5 : (BitVec.ofNat 8 c.id).getLsbD 5 = false := by
    rw [BitVec.getLsbD_ofNat, Nat.testBit_lt_two_pow (lt_of_lt_of_le c.id.isLt (by decide)), Bool.and_false]
  cases p with
  | a35 =>
    simp only [MutexCfg.key, Core.lockBy, BitVec.getLsbD_or, id4, id5, BitVec.getLsbD_shiftLeft]
    rw [show decide (4 < 6) = true from rfl, show decide (5 < 6) = true from rfl]
    simp
  | m4 =>
    simp only [MutexCfg.key, Core.lockBy, BitVec.getLsbD_or, id4, id5, BitVec.getLsbD_shiftLeft]
    decide

theorem MutexCfg.OfCore.unique (first : c.OfCore p key) (second : c.OfCore q key) : p = q := by
  obtain ⟨cpu, rfl⟩ := first
  obtain ⟨cpu', same⟩ := second
  have here := (c.key_bits p cpu).1
  rw [same, (c.key_bits q cpu').1] at here
  cases p <;> cases q <;> simp at here ⊢

theorem MutexCfg.not_ofCore_zero : ¬c.OfCore p 0 := by
  rintro ⟨cpu, zero⟩
  have bits := c.key_bits p cpu
  rw [← zero] at bits
  cases p <;> simp at bits

end Keys

section Facts

variable {c : MutexCfg} {sem sem' : HwSem} {p q : Core} {x y : MutexPriv} {key : BitVec 8}

/-- Outside the windows around a lock and an unlock the semaphore is the processor's exactly while
its thread has takes open, and the hold count is their number modulo 256. -/
def MutexPriv.Settled (x : MutexPriv) (sem : HwSem) (p : Core) : Prop :=
  (sem.lockedBy = some p ↔ 0 < x.depth) ∧ (0 < x.depth → x.hold = BitVec.ofNat 8 x.depth)

def MutexCfg.Foreign (c : MutexCfg) (sem : HwSem) (p : Core) : Prop :=
  sem.lockedBy ≠ some p → ¬c.OfCore p sem.key

def MutexCfg.Facts (c : MutexCfg) (sem : HwSem) (p : Core) (x : MutexPriv) : Prop :=
  match x.pc with
  | .out => x.Settled sem p
  | .initCompletion key _ | .isLocked key _ | .enableInt key _ | .wait key _ | .suspended key _
  | .resumed key _ _ => x.Settled sem p ∧ c.OfCore p key ∧ x.freed = false ∧ x.changed = false
  | .getKey key _ =>
    x.Settled sem p ∧ c.OfCore p key ∧ x.freed = false ∧ x.changed = false ∧ c.Foreign sem p
  | .lock key _ =>
    x.depth = 0 ∧ sem.lockedBy ≠ some p ∧ c.OfCore p key ∧ x.freed = false ∧ x.changed = false
  | .checkKey key _ => x.depth = 0 ∧ c.OfCore p key ∧ x.freed = false ∧
      ((sem.lockedBy = some p ∧ sem.key = key) ∨
        (sem.lockedBy ≠ some p ∧ ¬c.OfCore p sem.key ∧ x.changed = false))
  | .disableInt => x.depth = 0 ∧ sem.lockedBy = some p ∧ x.hold = 1 ∧ x.freed = false
  | .relIsLocked key => x.Settled sem p ∧ c.OfCore p key ∧ x.freed = false
  | .relGetKey key => x.Settled sem p ∧ c.OfCore p key ∧ x.freed = false ∧ c.Foreign sem p
  | .relUnlock key => sem.lockedBy = some p ∧ sem.key = key ∧ x.depth % 256 = 1 ∧ x.freed = false

structure HwMutex.Inv (c : MutexCfg) (s : HwMutex) : Prop where
  sem : ∀ q, s.sem.lockedBy = some q → c.OfCore q s.sem.key
  facts : ∀ q, c.Facts s.sem q (s.priv q)
  returns : ∀ r ∈ s.returns, r.Right

theorem MutexCfg.Facts.locked (facts : c.Facts sem p x) (open' : 0 < x.depth) :
    sem.lockedBy = some p := by
  unfold MutexCfg.Facts MutexPriv.Settled at facts
  cases pc : x.pc <;> simp only [pc] at facts
  case lock => omega
  case checkKey => omega
  case disableInt => omega
  case relUnlock => exact facts.1
  case out => exact facts.1.mpr open'
  all_goals exact facts.1.1.mpr open'

theorem HwMutex.Inv.safe {s : HwMutex} (inv : s.Inv c) : s.Safe where
  returns := inv.returns
  exclusive := by
    intro p q first second
    have here := (inv.facts p).locked first
    rw [(inv.facts q).locked second] at here
    exact (Option.some.inj here).symm

theorem MutexCfg.Facts.congr (facts : c.Facts sem p x) (pc : y.pc = x.pc) (depth : y.depth = x.depth)
    (hold : y.hold = x.hold) (freed : y.freed = x.freed) (changed : y.changed = x.changed) :
    c.Facts sem p y := by
  unfold MutexCfg.Facts MutexPriv.Settled at facts ⊢
  rw [pc, depth, hold, freed, changed]
  exact facts

theorem MutexCfg.Facts.foreign (facts : c.Facts sem p x) (before : sem.lockedBy ≠ some p)
    (after : sem'.lockedBy ≠ some p) (key : ¬c.OfCore p sem'.key) : c.Facts sem' p x := by
  have settled (here : x.Settled sem p) : x.Settled sem' p :=
    ⟨⟨fun mine => absurd mine after, fun open' => absurd (here.1.mpr open') before⟩, here.2⟩
  have shown : c.Foreign sem' p := fun _ => key
  unfold MutexCfg.Facts at facts ⊢
  cases pc : x.pc <;> simp only [pc] at facts ⊢
  case out => exact settled facts
  case getKey => exact ⟨settled facts.1, facts.2.1, facts.2.2.1, facts.2.2.2.1, shown⟩
  case lock => exact ⟨facts.1, after, facts.2.2⟩
  case checkKey =>
    obtain ⟨depth, own, freed, ⟨mine, -⟩ | ⟨-, -, changed⟩⟩ := facts
    · exact absurd mine before
    · exact ⟨depth, own, freed, .inr ⟨after, key, changed⟩⟩
  case disableInt => exact absurd facts.2.1 before
  case relGetKey => exact ⟨settled facts.1, facts.2.1, facts.2.2.1, shown⟩
  case relUnlock => exact absurd facts.1 before
  all_goals exact ⟨settled facts.1, facts.2⟩

end Facts

section Steps

variable {c : MutexCfg} {s : HwMutex} {p q : Core} {x : MutexPriv} {key : BitVec 8}

theorem HwMutex.Inv.set (inv : s.Inv c) (facts : c.Facts s.sem p x) : (s.set p x).Inv c where
  sem := inv.sem
  facts := by
    intro q
    by_cases same : q = p
    · subst same
      simpa [HwMutex.set] using facts
    · simpa [HwMutex.set, same] using inv.facts q
  returns := inv.returns

theorem HwMutex.Inv.push (inv : s.Inv c) {r : MutexReturn} (right : r.Right) :
    HwMutex.Inv c { s with returns := r :: s.returns } where
  sem := inv.sem
  facts := inv.facts
  returns := by
    intro other here
    rcases List.mem_cons.mp here with rfl | before
    · exact right
    · exact inv.returns other before

theorem HwMutex.Inv.leave (inv : s.Inv c) {call : MutexCall} {ret : Int} {depth : Nat}
    (settled : MutexPriv.Settled { x with pc := .out, depth } s.sem p)
    (right : MutexReturn.Right ⟨p, call, ret, (s.priv p).depth, x.freed, x.changed⟩) :
    (s.leave p x call ret depth).Inv c :=
  HwMutex.Inv.push (inv.set (x := { x with pc := .out, depth }) settled) right

theorem HwMutex.Inv.stranger (inv : s.Inv c) (call : MutexCall) : (s.stranger p call).Inv c := by
  apply inv.push
  cases call <;> simp [MutexReturn.Right, rtError, rtEok]

theorem HwMutex.Inv.isr (inv : s.Inv c) (p : Core) : (s.isr p).Inv c := by
  have facts := inv.facts p
  unfold HwMutex.isr
  cases phase : (s.priv p).isr with
  | idle =>
    simp only [phase]
    split_ifs
    · exact inv.set (facts.congr rfl rfl rfl rfl rfl)
    · exact inv
  | clearFlag =>
    simp only [phase]
    exact inv.set (facts.congr rfl rfl rfl rfl rfl)
  | checkDone =>
    simp only [phase]
    exact inv.set (facts.congr rfl rfl rfl rfl rfl)
  | setDone =>
    simp only [phase]
    apply inv.set
    unfold MutexCfg.Facts at facts ⊢
    cases pc : (s.priv p).pc <;> simp only [pc] at facts ⊢ <;> exact facts

theorem HwSem.write_cases {sem : HwSem} (owned : ∀ q, sem.lockedBy = some q → c.OfCore q sem.key)
    (own : c.OfCore p key) :
    (sem.lockedBy = none ∧ sem.write c.keeps p key = ⟨some p, key⟩) ∨
      (sem.lockedBy = some p ∧ sem.key = key ∧
        sem.write c.keeps p key = ⟨none, if c.keeps then key else 0⟩) ∨
      (sem.lockedBy ≠ none ∧ sem.key ≠ key ∧ sem.write c.keeps p key = sem) := by
  unfold HwSem.write
  by_cases free : sem.lockedBy = none
  · exact .inl ⟨free, if_pos free⟩
  rw [if_neg free]
  by_cases same : sem.key = key
  · obtain ⟨q, locked⟩ := Option.ne_none_iff_exists'.mp free
    have mine := (owned q locked).unique (same ▸ own)
    exact .inr (.inl ⟨mine ▸ locked, same, if_pos same⟩)
  · exact .inr (.inr ⟨free, same, if_neg same⟩)

theorem HwMutex.Inv.write (inv : s.Inv c) (own : c.OfCore p key)
    (facts : c.Facts (s.sem.write c.keeps p key) p x) : ((s.write c p key).set p x).Inv c := by
  have sem : ((s.write c p key).set p x).sem = s.sem.write c.keeps p key := rfl
  refine ⟨?_, ?_, inv.returns⟩
  · intro q
    rw [sem]
    rcases HwSem.write_cases inv.sem own with ⟨-, next⟩ | ⟨-, -, next⟩ | ⟨-, -, next⟩
    · rw [next]
      rintro ⟨⟩
      exact own
    · rw [next]
      intro locked
      cases locked
    · rw [next]
      exact inv.sem q
  · intro q
    rw [sem]
    by_cases same : q = p
    · subst same
      simpa [HwMutex.set] using facts
    · have before := inv.facts q
      have after : c.Facts (s.sem.write c.keeps p key) q (s.priv q) := by
        rcases HwSem.write_cases inv.sem own with ⟨free, next⟩ | ⟨locked, here, next⟩ | ⟨-, -, next⟩
        · rw [next]
          refine before.foreign (by simp [free]) (by simpa using Ne.symm same) ?_
          intro other
          exact same (other.unique own)
        · rw [next]
          refine before.foreign (by simpa [locked] using Ne.symm same) (by simp) ?_
          intro other
          dsimp only at other
          split_ifs at other
          · exact same (other.unique own)
          · exact MutexCfg.not_ofCore_zero other
        · rw [next]
          exact before
      refine after.congr ?_ ?_ ?_ ?_ ?_ <;> simp [HwMutex.set, HwMutex.write, same]

theorem MutexPriv.Settled.push {sem : HwSem} (mine : sem.lockedBy = some p) {depth : Nat}
    (hold : x.hold = BitVec.ofNat 8 depth) (open' : 0 < depth) :
    MutexPriv.Settled { x with pc := .out, depth } sem p :=
  ⟨⟨fun _ => open', fun _ => mine⟩, fun _ => hold⟩

theorem hold_pred {d : Nat} (open' : 0 < d) : BitVec.ofNat 8 d - 1 = BitVec.ofNat 8 (d - 1) := by
  apply BitVec.eq_of_toNat_eq
  simp
  omega

theorem hold_succ (d : Nat) : BitVec.ofNat 8 d + 1 = BitVec.ofNat 8 (d + 1) := by
  apply BitVec.eq_of_toNat_eq
  simp

theorem HwMutex.Inv.run (inv : s.Inv c) (meets : s.Meets (.run p)) : (s.run c p).Inv c := by
  have facts := inv.facts p
  unfold MutexCfg.Facts at facts
  cases pc : (s.priv p).pc with
  | out =>
    simp only [HwMutex.run, pc]
    exact inv
  | initCompletion key timeout =>
    simp only [pc] at facts
    simp only [HwMutex.run, pc]
    exact inv.set facts
  | isLocked key timeout =>
    simp only [pc] at facts
    obtain ⟨settled, own, freed, changed⟩ := facts
    simp only [HwMutex.run, pc]
    split_ifs with free
    · refine inv.set ⟨?_, by simp [free], own, freed, changed⟩
      by_contra open'
      have mine := settled.1.mpr (Nat.pos_of_ne_zero open')
      rw [free] at mine
      cases mine
    · refine inv.set ⟨settled, own, freed, changed, ?_⟩
      intro other here
      obtain ⟨q, locked⟩ := Option.ne_none_iff_exists'.mp free
      have same := (inv.sem q locked).unique here
      exact other (same ▸ locked)
  | getKey key timeout =>
    simp only [pc] at facts
    obtain ⟨settled, own, freed, changed, foreign⟩ := facts
    simp only [HwMutex.run, pc]
    split_ifs with same
    · have mine : s.sem.lockedBy = some p := by
        by_contra other
        exact foreign other (same ▸ own)
      have hold := settled.2 (settled.1.mp mine)
      refine inv.leave (.push mine ?_ (Nat.succ_pos _)) ⟨freed, fun failed => absurd rfl failed⟩
      simp only [hold]
      exact hold_succ _
    · exact inv.set ⟨settled, own, freed, changed⟩
  | enableInt key timeout =>
    simp only [pc] at facts
    simp only [HwMutex.run, pc]
    exact inv.set facts
  | wait key timeout =>
    simp only [pc] at facts
    obtain ⟨settled, own, freed, changed⟩ := facts
    simp only [HwMutex.run, pc]
    split_ifs
    · exact inv.set ⟨settled, own, freed, changed⟩
    · exact inv.leave settled ⟨freed, fun _ => changed⟩
    · exact inv.set ⟨settled, own, freed, changed⟩
  | suspended key timeout =>
    simp only [HwMutex.run, pc]
    exact inv
  | resumed key timeout timedOut =>
    simp only [pc] at facts
    obtain ⟨settled, own, freed, changed⟩ := facts
    simp only [HwMutex.run, pc]
    split_ifs
    · exact inv.leave settled ⟨freed, fun _ => changed⟩
    · exact inv.set ⟨settled, own, freed, changed⟩
  | lock key timeout =>
    simp only [pc] at facts
    obtain ⟨depth, other, own, freed, changed⟩ := facts
    simp only [HwMutex.run, pc]
    apply inv.write own
    rcases HwSem.write_cases inv.sem own with ⟨free, sem⟩ | ⟨mine, -⟩ | ⟨locked, apart, sem⟩
    · refine ⟨depth, own, ?_, .inl ⟨by rw [sem], by rw [sem]⟩⟩
      simp [HwMutex.write, freed, free]
    · exact absurd mine other
    · refine ⟨depth, own, ?_, .inr ⟨by rwa [sem], ?_, ?_⟩⟩
      · simp [HwMutex.write, freed, sem]
      · rw [sem]
        intro here
        obtain ⟨q, by_q⟩ := Option.ne_none_iff_exists'.mp locked
        have same := (inv.sem q by_q).unique here
        exact other (same ▸ by_q)
      · simp [HwMutex.write, changed, sem]
  | checkKey key timeout =>
    simp only [pc] at facts
    obtain ⟨depth, own, freed, ⟨mine, same⟩ | ⟨other, foreign, changed⟩⟩ := facts
    · simp only [HwMutex.run, pc, same, if_true]
      exact inv.set ⟨depth, mine, rfl, freed⟩
    · have apart : s.sem.key ≠ key := fun same => foreign (same ▸ own)
      simp only [HwMutex.run, pc, apart, if_false]
      refine inv.set ⟨⟨⟨fun mine => absurd mine other, ?_⟩, ?_⟩, own, freed, changed⟩
      · intro open'
        exact absurd depth (Nat.ne_of_gt open')
      · intro open'
        exact absurd depth (Nat.ne_of_gt open')
  | disableInt =>
    simp only [pc] at facts
    obtain ⟨depth, mine, hold, freed⟩ := facts
    simp only [HwMutex.run, pc]
    refine inv.leave (.push mine ?_ (Nat.succ_pos _)) ⟨freed, fun failed => absurd rfl failed⟩
    simp only [hold, depth]
    rfl
  | relIsLocked key =>
    simp only [pc] at facts
    obtain ⟨settled, own, freed⟩ := facts
    simp only [HwMutex.run, pc]
    split_ifs with free
    · have none : ¬0 < (s.priv p).depth := by
        intro open'
        have mine := settled.1.mpr open'
        rw [free] at mine
        cases mine
      refine inv.leave settled ?_
      simp [MutexReturn.Right, none, freed, rtError, rtEok]
    · refine inv.set ⟨settled, own, freed, ?_⟩
      intro other here
      obtain ⟨q, locked⟩ := Option.ne_none_iff_exists'.mp free
      have same := (inv.sem q locked).unique here
      exact other (same ▸ locked)
  | relGetKey key =>
    simp only [pc] at facts
    obtain ⟨settled, own, freed, foreign⟩ := facts
    by_cases same : s.sem.key = key
    · have mine : s.sem.lockedBy = some p := by
        by_contra other
        exact foreign other (same ▸ own)
      have open' := settled.1.mp mine
      have hold := settled.2 open'
      have less := hold_pred open'
      simp only [HwMutex.run, pc, same, if_true, hold]
      split_ifs with last
      · refine inv.set ⟨mine, same, ?_, freed⟩
        rw [less] at last
        have value := congrArg BitVec.toNat last
        simp at value
        show (s.priv p).depth % 256 = 1
        omega
      · have more : 0 < (s.priv p).depth - 1 := by
          by_contra zero
          rw [less, show (s.priv p).depth - 1 = 0 by omega] at last
          exact last rfl
        refine inv.leave (.push mine less more) ?_
        have ne : (s.priv p).depth ≠ 1 := by omega
        simp [MutexReturn.Right, open', freed, ne]
    · have none : ¬0 < (s.priv p).depth := fun open' => same (meets.1 key pc open')
      simp only [HwMutex.run, pc, same, if_false]
      refine inv.leave settled ?_
      simp [MutexReturn.Right, none, freed, rtError, rtEok]
  | relUnlock key =>
    simp only [pc] at facts
    obtain ⟨mine, same, depth, freed⟩ := facts
    have few := meets.2 key pc
    have one : (s.priv p).depth = 1 := by omega
    have own : c.OfCore p key := same ▸ inv.sem p mine
    rcases HwSem.write_cases inv.sem own with ⟨free, -⟩ | ⟨-, -, sem⟩ | ⟨-, apart, -⟩
    · rw [mine] at free
      cases free
    · simp only [HwMutex.run, pc]
      refine HwMutex.Inv.push (inv.write own ?_) ?_
      · rw [sem]
        refine ⟨⟨fun held => ?_, fun open' => ?_⟩, fun open' => ?_⟩
        · cases held
        · simp [one] at open'
        · simp [one] at open'
      · simp [MutexReturn.Right, HwMutex.write, one, mine, sem]
    · exact absurd same apart

theorem HwMutex.Inv.run_wrong (inv : s.Inv c) (wrong : ¬s.Meets (.run p)) : ¬(s.run c p).Safe := by
  intro safe
  have facts := inv.facts p
  unfold MutexCfg.Facts at facts
  unfold HwMutex.Meets at wrong
  rcases not_and_or.mp wrong with wrong | wrong
  · simp only [not_forall] at wrong
    obtain ⟨key, pc, open', apart⟩ := wrong
    simp only [pc] at facts
    have right := safe.returns ⟨p, .release, -rtError, (s.priv p).depth, (s.priv p).freed,
      (s.priv p).changed⟩ (by simp only [HwMutex.run, pc, apart, if_false]; exact List.mem_cons_self)
    simp only [MutexReturn.Right, open', if_true] at right
    exact absurd right.1 (by decide)
  · simp only [not_forall] at wrong
    obtain ⟨key, pc, many⟩ := wrong
    simp only [pc] at facts
    obtain ⟨mine, same, depth, freed⟩ := facts
    have right := safe.returns ⟨p, .release, rtEok, (s.priv p).depth, true, true⟩ (by
      have own : c.OfCore p key := same ▸ inv.sem p mine
      rcases HwSem.write_cases inv.sem own with ⟨free, -⟩ | ⟨-, -, sem⟩ | ⟨-, apart, -⟩
      · rw [mine] at free
        cases free
      · simp only [HwMutex.run, pc, HwMutex.leave]
        have ne : ¬(⟨none, if c.keeps then key else 0#8⟩ : HwSem) = s.sem := by
          intro unchanged
          rw [← unchanged] at mine
          cases mine
        simp [HwMutex.write, mine, sem, ne]
      · exact absurd same apart)
    have open' : 0 < (s.priv p).depth := by omega
    simp only [MutexReturn.Right, open', if_true] at right
    have one := right.2.mp trivial
    omega

theorem HwMutex.Inv.call (inv : s.Inv c) {pc : MutexPc} (out : (s.priv p).pc = .out)
    (facts : (s.priv p).Settled s.sem p →
      c.Facts s.sem p { s.priv p with freed := false, changed := false, pc }) :
    (s.set p { s.priv p with freed := false, changed := false, pc }).Inv c := by
  have before := inv.facts p
  unfold MutexCfg.Facts at before
  rw [out] at before
  exact inv.set (facts before)

theorem HwMutex.Inv.step (inv : s.Inv c) (event : MutexEvent) :
    (s.Meets event → (s.step c event).Inv c) ∧ (¬s.Meets event → ¬(s.step c event).Safe) := by
  cases event with
  | take p thread cpu timeout =>
    refine ⟨fun _ => ?_, fun wrong => absurd trivial wrong⟩
    simp only [HwMutex.step]
    split_ifs with other out
    · exact inv.stranger .take
    · exact inv.call out fun settled => ⟨settled, ⟨cpu, rfl⟩, rfl, rfl⟩
    · exact inv
  | release p thread cpu =>
    refine ⟨fun _ => ?_, fun wrong => absurd trivial wrong⟩
    simp only [HwMutex.step]
    split_ifs with other out
    · exact inv.stranger .release
    · exact inv.call out fun settled => ⟨settled, ⟨cpu, rfl⟩, rfl⟩
    · exact inv
  | run p => exact ⟨inv.run, inv.run_wrong⟩
  | timer p =>
    refine ⟨fun _ => ?_, fun wrong => absurd trivial wrong⟩
    have facts := inv.facts p
    unfold MutexCfg.Facts at facts
    simp only [HwMutex.step]
    split
    · rename_i key timeout pc
      simp only [pc] at facts
      split_ifs
      · exact inv.set facts
      · exact inv
    · exact inv
  | isr p => exact ⟨fun _ => inv.isr p, fun wrong => absurd trivial wrong⟩

theorem HwMutex.start_inv (c : MutexCfg) : HwMutex.start.Inv c where
  sem := by
    rintro q ⟨⟩
  facts := by
    intro q
    refine ⟨⟨?_, ?_⟩, ?_⟩
    · rintro ⟨⟩
    · intro open'
      cases open'
    · intro open'
      cases open'
  returns := by
    rintro r ⟨⟩

end Steps

def firstMutex : MutexCfg := ⟨⟨0, by decide⟩, fun _ => 0, false⟩

/-- A take on the first CPU, and a release of the same thread on the second. -/
def migration : List MutexEvent :=
  [.take .a35 0 0 (-1), .run .a35, .run .a35, .run .a35, .run .a35, .run .a35,
    .release .a35 0 1, .run .a35, .run .a35]

end NuMakerMA35
