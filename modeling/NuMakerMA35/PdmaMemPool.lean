import NuMakerMA35.PdmaMemFun
import NuMakerMA35.PdmaOwnership

namespace NuMakerMA35

variable {T : Type} [DecidableEq T]

structure PoolInv [Fintype T] (s : MemFunState T) : Prop where
  count : s.poolSem.getD 0 + Threads.countOf MemFunPc.employs s.pc = s.actorMaxnum
  exists_pool : 0 < s.actorMaxnum → s.poolSem ≠ none

/-- The mutex is taken by the thread that is inside a critical section. -/
def LockInv (s : MemFunState T) : Prop := ∀ t, (s.pc t).critical = true ↔ s.poolLock = some t

structure MaskInv (s : MemFunState T) : Prop where
  small : s.actorMaxnum ≤ 32
  bits : ∀ i, i < s.actorMaxnum →
    (s.actorMask.getLsbD i = true ↔ ∃ t, (s.pc t).holds = some i)
  unique : ∀ t u i, (s.pc t).holds = some i → (s.pc u).holds = some i → t = u
  index : ∀ t i, (s.pc t).index = some i → i < s.actorMaxnum
  free : ∀ t i, (s.pc t).index = some i → (s.pc t).holds = none → s.actorMask.getLsbD i = false
  found : ∀ t, (s.pc t).lost = false

structure ActorInv (s : MemFunState T) : Prop where
  channels : ∀ i j, i < s.actorMaxnum → j < s.actorMaxnum →
    s.actorChannel i = s.actorChannel j → i = j
  handler : ∀ t i, (s.pc t).registered = some i → s.handler (s.actorChannel i) = some i
  moving : ∀ c t, s.moving c = some t → ∃ i, (s.pc t).waits = some i ∧ s.actorChannel i = c
  sem : ∀ i, i < s.actorMaxnum → 0 < s.actorSem i →
    s.actorSem i = 1 ∧ s.moving (s.actorChannel i) = none ∧ ∃ t, (s.pc t).waits = some i

structure MemFunInv [Fintype T] (s : MemFunState T) : Prop where
  pool : PoolInv s
  lock : LockInv s
  mask : MaskInv s
  actor : ActorInv s

theorem goto_pc_self (s : MemFunState T) (t : T) (p : MemFunPc) : (s.goto t p).pc t = p := by
  simp [MemFunState.goto]

theorem goto_pc_of_ne (s : MemFunState T) {t u : T} (p : MemFunPc) (h : u ≠ t) :
    (s.goto t p).pc u = s.pc u := by
  simp [MemFunState.goto, h]

theorem goto_view {β : Type} (f : MemFunPc → β) {s : MemFunState T} {t : T} {p : MemFunPc}
    (h : f p = f (s.pc t)) (u : T) : f ((s.goto t p).pc u) = f (s.pc u) := by
  by_cases same : u = t
  · rw [same, goto_pc_self, h]
  · rw [goto_pc_of_ne s p same]

theorem PoolInv.goto [Fintype T] {s s' : MemFunState T} (h : PoolInv s) {t : T} {p : MemFunPc}
    (pc : s'.pc = (s.goto t p).pc) (num : s'.actorMaxnum = s.actorMaxnum)
    (sem : s'.poolSem = s.poolSem) (same : p.employs = (s.pc t).employs) : PoolInv s' := by
  have count : Threads.countOf MemFunPc.employs s'.pc = Threads.countOf MemFunPc.employs s.pc := by
    unfold Threads.countOf
    congr 2
    funext u
    rw [pc, goto_view MemFunPc.employs same]
  refine ⟨?_, by rw [num, sem]; exact h.exists_pool⟩
  rw [count, num, sem]
  exact h.count

theorem LockInv.goto {s s' : MemFunState T} (h : LockInv s) {t : T} {p : MemFunPc}
    (pc : s'.pc = (s.goto t p).pc) (lock : s'.poolLock = s.poolLock)
    (same : p.critical = (s.pc t).critical) : LockInv s' := by
  intro u
  rw [pc, goto_view MemFunPc.critical same, lock]
  exact h u

/-- What the mask has to do with: the actor held, the index known, whether the search failed. -/
def MemFunPc.maskView (p : MemFunPc) : Option Nat × Option Nat × Bool := (p.holds, p.index, p.lost)

theorem MaskInv.goto {s s' : MemFunState T} (h : MaskInv s) {t : T} {p : MemFunPc}
    (pc : s'.pc = (s.goto t p).pc) (num : s'.actorMaxnum = s.actorMaxnum)
    (mask : s'.actorMask = s.actorMask) (same : p.maskView = (s.pc t).maskView) : MaskInv s' := by
  have holds := goto_view MemFunPc.holds (congrArg Prod.fst same)
  have index := goto_view MemFunPc.index (congrArg (fun v => v.2.1) same)
  have lost := goto_view MemFunPc.lost (congrArg (fun v => v.2.2) same)
  rw [← pc] at holds index lost
  refine ⟨by rw [num]; exact h.small, ?_, ?_, ?_, ?_, ?_⟩
  · simp only [holds, num, mask]
    exact h.bits
  · simp only [holds]
    exact h.unique
  · simp only [index, num]
    exact h.index
  · simp only [index, holds, mask]
    exact h.free
  · simp only [lost]
    exact h.found

def MemFunPc.actorView (p : MemFunPc) : Option Nat × Option Nat := (p.registered, p.waits)

theorem ActorInv.goto {s s' : MemFunState T} (h : ActorInv s) {t : T} {p : MemFunPc}
    (pc : s'.pc = (s.goto t p).pc) (num : s'.actorMaxnum = s.actorMaxnum)
    (channel : s'.actorChannel = s.actorChannel) (handler : s'.handler = s.handler)
    (moving : s'.moving = s.moving) (sem : s'.actorSem = s.actorSem)
    (same : p.actorView = (s.pc t).actorView) : ActorInv s' := by
  have registered := goto_view MemFunPc.registered (congrArg Prod.fst same)
  have waits := goto_view MemFunPc.waits (congrArg Prod.snd same)
  rw [← pc] at registered waits
  refine ⟨by rw [num, channel]; exact h.channels, ?_, ?_, ?_⟩
  · simp only [registered, handler, channel]
    exact h.handler
  · simp only [waits, moving, channel]
    exact h.moving
  · simp only [waits, num, sem, moving, channel]
    exact h.sem

theorem take_poolInv [Fintype T] {s : MemFunState T} (h : PoolInv s) {t : T} {n : Nat} {p : MemFunPc}
    (outside : (s.pc t).employs = false) (inside : p.employs = true)
    (sem : s.poolSem = some (n + 1)) : PoolInv ({ s with poolSem := some n }.goto t p) := by
  have change := Threads.countOf_update MemFunPc.employs s.pc t p
  rw [outside, inside] at change
  have count := h.count
  rw [sem] at count
  refine ⟨?_, fun _ => by simp [MemFunState.goto]⟩
  simp only [MemFunState.goto, Option.getD_some] at *
  simp only [if_true, Bool.false_eq_true, if_false] at change
  omega

theorem fire_poolInv [Fintype T] {s : MemFunState T} (h : PoolInv s) {t : T} {p : MemFunPc}
    (inside : (s.pc t).employs = true) (outside : p.employs = false) :
    PoolInv ({ s with poolSem := s.poolSem.map (· + 1) }.goto t p) := by
  have change := Threads.countOf_update MemFunPc.employs s.pc t p
  rw [outside, inside] at change
  simp only [if_true, Bool.false_eq_true, if_false] at change
  have count := h.count
  have pool := h.exists_pool
  cases sem : s.poolSem with
  | none =>
    rw [sem] at count pool
    simp only [Option.getD_none] at count
    exact absurd rfl (pool (by omega))
  | some n =>
    rw [sem] at count
    refine ⟨?_, fun _ => by simp [MemFunState.goto]⟩
    simp only [MemFunState.goto, Option.map_some, Option.getD_some] at *
    omega

theorem lock_lockInv {s : MemFunState T} (h : LockInv s) {t : T} {p : MemFunPc}
    (free : s.poolLock = none) (inside : p.critical = true) :
    LockInv ({ s with poolLock := some t }.goto t p) := by
  intro u
  by_cases same : u = t
  · subst same
    rw [goto_pc_self, inside]
    simp [MemFunState.goto]
  · rw [goto_pc_of_ne _ _ same]
    have outside := h u
    rw [free] at outside
    simp only [MemFunState.goto, Option.some.injEq, eq_comm (a := t)]
    constructor
    · intro critical
      exact absurd (outside.mp critical) (by simp)
    · exact fun eq => absurd eq same

theorem unlock_lockInv {s : MemFunState T} (h : LockInv s) {t : T} {p : MemFunPc}
    (inside : (s.pc t).critical = true) (outside : p.critical = false) :
    LockInv ({ s with poolLock := none }.goto t p) := by
  intro u
  by_cases same : u = t
  · subst same
    rw [goto_pc_self, outside]
    simp [MemFunState.goto]
  · rw [goto_pc_of_ne _ _ same]
    have owner := (h t).mp inside
    have other := h u
    rw [owner] at other
    simp only [MemFunState.goto, reduceCtorEq, iff_false, Bool.not_eq_true]
    cases critical : (s.pc u).critical with
    | false => rfl
    | true =>
      have eq : t = u := by simpa using other.mp critical
      exact absurd eq.symm same

/-- A thread inside the pool that holds no actor leaves one of them unmarked. -/
theorem exists_free_actor [Fintype T] {s : MemFunState T} (pool : PoolInv s) (mask : MaskInv s) {t : T}
    (inside : (s.pc t).employs = true) (none : (s.pc t).holds = none) :
    ∃ i, i < s.actorMaxnum ∧ s.actorMask.getLsbD i = false := by
  by_contra all
  push Not at all
  have held : ∀ i, i < s.actorMaxnum → ∃ u, (s.pc u).holds = some i := by
    intro i hi
    exact (mask.bits i hi).mp (by simpa using all i hi)
  have counted : ∀ u i, (s.pc u).holds = some i → (s.pc u).employs = true := by
    intro u i h
    cases pc : s.pc u <;> rw [pc] at h <;> first | rfl | cases h
  have more := Threads.lt_countOf_of_holders MemFunPc.holds counted held inside none
  have count := pool.count
  omega

theorem search_maskInv [Fintype T] {s : MemFunState T} (pool : PoolInv s) (mask : MaskInv s)
    {t : T} (h : s.pc t = .searching) : MaskInv (s.goto t
      (if nuCto s.actorMask ≠ 32 then .found (nuCto s.actorMask) else .missed)) := by
  obtain ⟨i, hi, clear⟩ := exists_free_actor pool mask (t := t) (by rw [h]; rfl) (by rw [h]; rfl)
  have small := mask.small
  obtain ⟨first, zero, -⟩ := nuCto_of_zero_bit (by omega) clear
  rw [if_pos (by omega)]
  have holds := goto_view MemFunPc.holds (s := s) (t := t) (p := .found (nuCto s.actorMask))
    (by rw [h]; rfl)
  refine ⟨mask.small, ?_, ?_, ?_, ?_, ?_⟩
  · simp only [holds]
    exact mask.bits
  · simp only [holds]
    exact mask.unique
  · intro u j hj
    by_cases same : u = t
    · rw [same, goto_pc_self] at hj
      cases hj
      exact Nat.lt_of_le_of_lt first hi
    · rw [goto_pc_of_ne _ _ same] at hj
      exact mask.index u j hj
  · intro u j hj
    by_cases same : u = t
    · rw [same, goto_pc_self] at hj
      cases hj
      exact fun _ => zero
    · rw [goto_pc_of_ne _ _ same] at hj ⊢
      exact mask.free u j hj
  · intro u
    by_cases same : u = t
    · rw [same, goto_pc_self]
      rfl
    · rw [goto_pc_of_ne _ _ same]
      exact mask.found u

theorem holds_index {p : MemFunPc} {i : Nat} (h : p.holds = some i) : p.index = some i := by
  cases p <;> first | exact h | cases h

theorem found_critical {p : MemFunPc} {i : Nat} (h : p.index = some i) (none : p.holds = none) :
    p.critical = true := by
  cases p with
  | found j => rfl
  | _ =>
    have both := h.symm.trans (none : _ = _)
    cases both

theorem mark_maskInv {s : MemFunState T} (lock : LockInv s) (mask : MaskInv s) {t : T} {idx : Nat}
    (h : s.pc t = .found idx) :
    MaskInv ({ s with actorMask := s.actorMask ||| (1 : U32) <<< idx }.goto t (.marked idx)) := by
  have bound : idx < s.actorMaxnum := mask.index t idx (by rw [h]; rfl)
  have clear : s.actorMask.getLsbD idx = false := mask.free t idx (by rw [h]; rfl) (by rw [h]; rfl)
  have small := mask.small
  have bit := setBit_getLsbD s.actorMask (show idx < 32 by omega)
  have nobody (u : T) : (s.pc u).holds ≠ some idx := by
    intro held
    rw [(mask.bits idx bound).mpr ⟨u, held⟩] at clear
    cases clear
  refine ⟨mask.small, ?_, ?_, ?_, ?_, ?_⟩
  · intro i hi
    show (s.actorMask ||| (1 : U32) <<< idx).getLsbD i = true ↔ _
    rw [bit]
    constructor
    · intro set
      by_cases same : i = idx
      · exact ⟨t, by rw [goto_pc_self, same]; rfl⟩
      · obtain ⟨u, held⟩ := (mask.bits i hi).mp (by simpa [same] using set)
        refine ⟨u, ?_⟩
        rw [goto_pc_of_ne]
        · exact held
        · intro eq
          rw [eq, h] at held
          cases held
    · rintro ⟨u, held⟩
      by_cases same : u = t
      · rw [same, goto_pc_self] at held
        cases held
        simp
      · rw [goto_pc_of_ne _ _ same] at held
        simp [(mask.bits i hi).mpr ⟨u, held⟩]
  · intro u v i hu hv
    by_cases sameU : u = t <;> by_cases sameV : v = t
    · exact sameU.trans sameV.symm
    · rw [sameU, goto_pc_self] at hu
      rw [goto_pc_of_ne _ _ sameV] at hv
      cases hu
      exact absurd hv (nobody v)
    · rw [sameV, goto_pc_self] at hv
      rw [goto_pc_of_ne _ _ sameU] at hu
      cases hv
      exact absurd hu (nobody u)
    · rw [goto_pc_of_ne _ _ sameU] at hu
      rw [goto_pc_of_ne _ _ sameV] at hv
      exact mask.unique u v i hu hv
  · intro u i hi
    by_cases same : u = t
    · rw [same, goto_pc_self] at hi
      cases hi
      exact bound
    · rw [goto_pc_of_ne _ _ same] at hi
      exact mask.index u i hi
  · intro u i hi none
    by_cases same : u = t
    · rw [same, goto_pc_self] at none
      cases none
    · rw [goto_pc_of_ne _ _ same] at hi none
      have mine := (lock t).mp (by rw [h]; rfl)
      have other := (lock u).mp (found_critical hi none)
      rw [mine] at other
      exact absurd (by simpa using other.symm) same
  · intro u
    by_cases same : u = t
    · rw [same, goto_pc_self]
      rfl
    · rw [goto_pc_of_ne _ _ same]
      exact mask.found u

theorem unmark_maskInv {s : MemFunState T} (mask : MaskInv s) {t : T} {idx : Nat} {ret : U32}
    (h : s.pc t = .unmarking idx ret) :
    MaskInv ({ s with actorMask := s.actorMask &&& ~~~((1 : U32) <<< idx) }.goto t
      (.unmarked ret)) := by
  have mine : (s.pc t).holds = some idx := by rw [h]; rfl
  have bound : idx < s.actorMaxnum := mask.index t idx (holds_index mine)
  have small := mask.small
  have bit := clearBit_getLsbD s.actorMask (show idx < 32 by omega)
  refine ⟨mask.small, ?_, ?_, ?_, ?_, ?_⟩
  · intro i hi
    show (s.actorMask &&& ~~~((1 : U32) <<< idx)).getLsbD i = true ↔ _
    rw [bit]
    constructor
    · intro set
      have other : i ≠ idx := by
        intro eq
        simp [eq] at set
      obtain ⟨u, held⟩ := (mask.bits i hi).mp (by simpa [other] using set)
      refine ⟨u, ?_⟩
      rw [goto_pc_of_ne]
      · exact held
      · intro eq
        rw [eq, mine] at held
        exact other (by simpa using held.symm)
    · rintro ⟨u, held⟩
      by_cases same : u = t
      · rw [same, goto_pc_self] at held
        cases held
      · rw [goto_pc_of_ne _ _ same] at held
        have other : i ≠ idx := by
          intro eq
          exact same (mask.unique u t idx (eq ▸ held) mine)
        simp [(mask.bits i hi).mpr ⟨u, held⟩, other]
  · intro u v i hu hv
    by_cases sameU : u = t
    · rw [sameU, goto_pc_self] at hu
      cases hu
    · by_cases sameV : v = t
      · rw [sameV, goto_pc_self] at hv
        cases hv
      · rw [goto_pc_of_ne _ _ sameU] at hu
        rw [goto_pc_of_ne _ _ sameV] at hv
        exact mask.unique u v i hu hv
  · intro u i hi
    by_cases same : u = t
    · rw [same, goto_pc_self] at hi
      cases hi
    · rw [goto_pc_of_ne _ _ same] at hi
      exact mask.index u i hi
  · intro u i hi none
    by_cases same : u = t
    · rw [same, goto_pc_self] at hi
      cases hi
    · rw [goto_pc_of_ne _ _ same] at hi none
      show (s.actorMask &&& ~~~((1 : U32) <<< idx)).getLsbD i = false
      rw [bit, mask.free u i hi none]
      rfl
  · intro u
    by_cases same : u = t
    · rw [same, goto_pc_self]
      rfl
    · rw [goto_pc_of_ne _ _ same]
      exact mask.found u

theorem registered_holds {p : MemFunPc} {i : Nat} (h : p.registered = some i) :
    p.holds = some i := by
  cases p <;> first | exact h | cases h

theorem waits_registered {p : MemFunPc} {i : Nat} (h : p.waits = some i) :
    p.registered = some i := by
  cases p <;> first | exact h | cases h

theorem waits_holds {p : MemFunPc} {i : Nat} (h : p.waits = some i) : p.holds = some i :=
  registered_holds (waits_registered h)

theorem same_channel {T : Type} {s : MemFunState T} (mask : MaskInv s) (actor : ActorInv s) {t u : T}
    {i j : Nat} (ht : (s.pc t).holds = some i) (hu : (s.pc u).holds = some j)
    (same : s.actorChannel i = s.actorChannel j) : i = j ∧ t = u := by
  have eq := actor.channels i j (mask.index t i (holds_index ht)) (mask.index u j (holds_index hu))
    same
  subst eq
  exact ⟨rfl, mask.unique t u i ht hu⟩

theorem prepare_actorInv {s : MemFunState T} (mask : MaskInv s) (actor : ActorInv s) {t : T}
    {idx : Nat} (h : s.pc t = .employed idx) :
    ActorInv ({ s with
      handler := Function.update s.handler (s.actorChannel idx) (some idx)
      actorResult := Function.update s.actorResult idx 0 }.goto t (.prepared idx)) := by
  have mine : (s.pc t).holds = some idx := by rw [h]; rfl
  have waits := goto_view MemFunPc.waits (s := s) (t := t) (p := .prepared idx) (by rw [h]; rfl)
  have waits : ∀ u, MemFunPc.waits (Function.update s.pc t (.prepared idx) u) = (s.pc u).waits :=
    waits
  refine ⟨actor.channels, ?_, ?_, ?_⟩
  · intro u i hi
    show Function.update s.handler (s.actorChannel idx) (some idx) (s.actorChannel i) = some i
    by_cases same : u = t
    · rw [same, goto_pc_self] at hi
      cases hi
      rw [Function.update_self]
    · rw [goto_pc_of_ne _ _ same] at hi
      have held := registered_holds hi
      have other : s.actorChannel i ≠ s.actorChannel idx :=
        fun eq => same (same_channel mask actor held mine eq).2
      rw [Function.update_of_ne other]
      exact actor.handler u i hi
  · intro c u hu
    obtain ⟨i, hi, channel⟩ := actor.moving c u hu
    exact ⟨i, (waits u).trans hi, channel⟩
  · intro i hi positive
    obtain ⟨one, idle, u, hu⟩ := actor.sem i hi positive
    exact ⟨one, idle, u, (waits u).trans hu⟩

theorem wait_actorInv {s : MemFunState T} (mask : MaskInv s) (actor : ActorInv s) {t : T}
    {idx : Nat} (h : s.pc t = .prepared idx) (m : Nat → Option T)
    (moving : ∀ c, m c = s.moving c ∨ (c = s.actorChannel idx ∧ m c = some t)) :
    ActorInv ({ s with moving := m }.goto t (.waiting idx)) := by
  have mine : (s.pc t).holds = some idx := by rw [h]; rfl
  have registered := goto_view MemFunPc.registered (s := s) (t := t) (p := .waiting idx)
    (by rw [h]; rfl)
  refine ⟨actor.channels, ?_, ?_, ?_⟩
  · intro u i hi
    exact actor.handler u i ((registered u).symm.trans hi)
  · intro c u hu
    rcases moving c with same | ⟨here, new⟩
    · obtain ⟨i, hi, channel⟩ := actor.moving c u (same.symm.trans hu)
      have other : u ≠ t := by
        intro eq
        rw [eq, h] at hi
        cases hi
      exact ⟨i, by rw [goto_pc_of_ne _ _ other]; exact hi, channel⟩
    · have owner : t = u := by simpa using new.symm.trans hu
      exact ⟨idx, by rw [← owner, goto_pc_self]; rfl, here.symm⟩
  · intro i hi positive
    obtain ⟨one, idle, u, hu⟩ := actor.sem i hi positive
    have other : u ≠ t := by
      intro eq
      rw [eq, h] at hu
      cases hu
    refine ⟨one, ?_, u, by rw [goto_pc_of_ne _ _ other]; exact hu⟩
    rcases moving (s.actorChannel i) with same | ⟨here, -⟩
    · exact same.trans idle
    · exact absurd (same_channel mask actor (waits_holds hu) mine here).2 other

/-- A transfer in progress was started by the one thread that waits for its actor, whose callback
is the one registered. -/
theorem moving_owner {T : Type} {s : MemFunState T} (actor : ActorInv s) {c : Nat} {t : T}
    (h : s.moving c = some t) :
    ∃ i, s.pc t = .waiting i ∧ s.actorChannel i = c ∧ s.handler c = some i := by
  obtain ⟨i, waits, channel⟩ := actor.moving c t h
  have pc : s.pc t = .waiting i := by
    cases pc : s.pc t with
    | waiting j =>
      rw [pc] at waits
      cases waits
      rfl
    | _ =>
      rw [pc] at waits
      cases waits
  exact ⟨i, pc, channel, by rw [← channel]; exact actor.handler t i (waits_registered waits)⟩

theorem interrupt_actorInv {T : Type} {s : MemFunState T} (mask : MaskInv s) (actor : ActorInv s) {c : Nat}
    {t : T} (events : U32) (h : s.moving c = some t) : ActorInv (nuPdmaMemfunCb s c events) := by
  obtain ⟨idx, pc, channel, handler⟩ := moving_owner actor h
  have waits : (s.pc t).waits = some idx := by rw [pc]; rfl
  have bound := mask.index t idx (holds_index (waits_holds waits))
  have empty : s.actorSem idx = 0 := by
    by_contra positive
    obtain ⟨-, idle, -⟩ := actor.sem idx bound (by omega)
    rw [channel, h] at idle
    cases idle
  unfold nuPdmaMemfunCb
  simp only [handler]
  refine ⟨actor.channels, actor.handler, ?_, ?_⟩
  · intro c' u hu
    by_cases same : c' = c
    · simp [same] at hu
    · exact actor.moving c' u (by simpa [same] using hu)
  · intro i hi positive
    by_cases same : i = idx
    · subst same
      refine ⟨by simp [empty], by simp [channel], t, waits⟩
    · obtain ⟨one, idle, u, hu⟩ := actor.sem i hi (by simpa [same] using positive)
      refine ⟨by simpa [same] using one, ?_, u, hu⟩
      by_cases own : s.actorChannel i = c
      · simp [own]
      · simpa [own] using idle

theorem wake_actorInv {s : MemFunState T} (mask : MaskInv s) (actor : ActorInv s) {t : T}
    {idx n : Nat} (h : s.pc t = .waiting idx) (sem : s.actorSem idx = n + 1) :
    ActorInv ({ s with actorSem := Function.update s.actorSem idx n }.goto t (.woken idx)) := by
  have waits : (s.pc t).waits = some idx := by rw [h]; rfl
  have bound := mask.index t idx (holds_index (waits_holds waits))
  obtain ⟨one, idle, -⟩ := actor.sem idx bound (by omega)
  refine ⟨actor.channels, ?_, ?_, ?_⟩
  · intro u i hi
    by_cases same : u = t
    · rw [same, goto_pc_self] at hi
      cases hi
    · rw [goto_pc_of_ne _ _ same] at hi
      exact actor.handler u i hi
  · intro c u hu
    obtain ⟨i, hi, channel⟩ := actor.moving c u hu
    have other : u ≠ t := by
      intro eq
      rw [eq, waits] at hi
      cases hi
      have moving : s.moving c = some u := hu
      rw [channel, moving] at idle
      cases idle
    exact ⟨i, by rw [goto_pc_of_ne _ _ other]; exact hi, channel⟩
  · intro i hi positive
    have other : i ≠ idx := by
      intro eq
      simp only [MemFunState.goto, eq, Function.update_self] at positive
      omega
    obtain ⟨one', idle', u, hu⟩ := actor.sem i hi (by simpa [MemFunState.goto, other] using positive)
    refine ⟨by simpa [MemFunState.goto, other] using one', idle', u, ?_⟩
    rw [goto_pc_of_ne]
    · exact hu
    · intro eq
      rw [eq, waits] at hu
      exact other (by simpa using hu.symm)

theorem nuPdmaChannelAllocate_fresh {s s' : PdmaState} {periphType : U32} {ret : Int}
    (h : nuPdmaChannelAllocate s periphType = .ok (s', ret)) (good : ret ≠ -rtError) :
    ¬(nuPdmaInit s).allocated ret.toNat ∧ s'.inited = true ∧ s'.allocated ret.toNat ∧
      ∀ c, (nuPdmaInit s).allocated c → s'.allocated c := by
  unfold nuPdmaChannelAllocate at h
  simp only at h
  split at h
  · cases h
    exact absurd rfl good
  · split at h
    · cases h
      exact absurd rfl good
    next j chnId free =>
      obtain ⟨module, channel, clear⟩ := firstFreeChannel_spec free
      obtain ⟨t, terminate, h⟩ := Runs.bind_ok_iff.mp h
      cases h
      have keep := nuPdmaChannelTerminate_keeps terminate
      have index : (chnId + j * pdmaChMax) / pdmaChMax = j ∧
          (chnId + j * pdmaChMax) % pdmaChMax = chnId := by
        unfold pdmaChMax at *
        omega
      have bit := setBit_getLsbD ((nuPdmaInit s).chnMask j)
        (show chnId < 32 by unfold pdmaChMax at channel; omega)
      rw [Int.toNat_natCast]
      refine ⟨?_, keep.inited.trans (nuPdmaInit_inited s), ?_, ?_⟩
      · rintro ⟨-, set⟩
        rw [index.1, index.2, clear] at set
        cases set
      · rw [keep.allocated]
        unfold PdmaState.allocated
        rw [index.1, index.2]
        refine ⟨by simpa using module, ?_⟩
        simpa [PdmaState.setChn] using bit chnId
      · rintro c ⟨bound, set⟩
        rw [keep.allocated]
        refine ⟨bound, ?_⟩
        by_cases same : c / pdmaChMax = j
        · rw [same] at set
          simp [PdmaState.setChn, same, set]
        · simpa [PdmaState.setChn, same] using set

theorem memfunActors_nodup {left : Nat} : ∀ {s s' : PdmaState} {channels : List Nat},
    memfunActors left s = .ok (s', channels) →
    channels.Nodup ∧ channels.length ≤ left ∧ ∀ c ∈ channels, ¬(nuPdmaInit s).allocated c := by
  induction left with
  | zero =>
    intro s s' channels h
    cases h
    exact ⟨List.nodup_nil, by simp, by simp⟩
  | succ left ih =>
    intro s s' channels h
    unfold memfunActors at h
    obtain ⟨⟨t, ret⟩, allocate, h⟩ := Runs.bind_ok_iff.mp h
    simp only at h
    split at h
    · cases h
      exact ⟨List.nodup_nil, by simp, by simp⟩
    next good =>
      obtain ⟨⟨u, rest⟩, more, h⟩ := Runs.bind_ok_iff.mp h
      cases h
      obtain ⟨fresh, inited, taken, kept⟩ := nuPdmaChannelAllocate_fresh allocate good
      obtain ⟨nodup, len, others⟩ := ih more
      have opened : nuPdmaInit t = t := by rw [nuPdmaInit, if_pos inited]
      rw [opened] at others
      refine ⟨List.nodup_cons.mpr ⟨fun again => others _ again taken, nodup⟩, by simpa using len, ?_⟩
      intro c hc
      rcases List.mem_cons.mp hc with same | hc
      · rw [same]
        exact fresh
      · exact fun alloc => others c hc (kept c alloc)

theorem created_mask {n : Nat} (positive : 0 < n) (small : n ≤ nuPdmaMemfunActorMax) :
    ∀ i, i < n → (~~~(((1 : U32) <<< n) - 1)).getLsbD i = false := by
  unfold nuPdmaMemfunActorMax at small
  have cases_n : n = 1 ∨ n = 2 ∨ n = 3 ∨ n = 4 := by omega
  rcases cases_n with h | h | h | h <;> subst h <;> decide

theorem created_inv {T : Type} [Fintype T] {channels : List Nat} (nodup : channels.Nodup)
    (small : channels.length ≤ nuPdmaMemfunActorMax) :
    MemFunInv (MemFunState.created (T := T) channels) := by
  have nobody : Threads.countOf MemFunPc.employs (MemFunState.created (T := T) channels).pc = 0 := by
    simp [Threads.countOf, MemFunState.created, MemFunPc.employs]
  refine ⟨⟨?_, ?_⟩, ?_, ⟨?_, ?_, ?_, ?_, ?_, ?_⟩, ⟨?_, ?_, ?_, ?_⟩⟩
  · rw [nobody]
    by_cases empty : channels = []
    · simp [MemFunState.created, empty]
    · simp [MemFunState.created, empty]
  · intro positive
    have some_actor : channels ≠ [] := List.length_pos_iff.mp positive
    simp [MemFunState.created, some_actor]
  · intro t
    simp [MemFunState.created, MemFunPc.critical]
  · exact small.trans (by decide)
  · intro i hi
    have positive : 0 < channels.length := Nat.zero_lt_of_lt hi
    have some_actor : channels ≠ [] := List.length_pos_iff.mp positive
    have clear := created_mask positive small i hi
    simp only [MemFunState.created, if_neg some_actor, clear, Bool.false_eq_true, false_iff]
    rintro ⟨t, held⟩
    cases held
  · intro t u i held
    cases held
  · intro t i held
    cases held
  · intro t i held
    cases held
  · intro t
    rfl
  · intro i j hi hj same
    have hi : i < channels.length := hi
    have hj : j < channels.length := hj
    simp only [MemFunState.created, List.getD_eq_getElem?_getD, List.getElem?_eq_getElem hi,
      List.getElem?_eq_getElem hj, Option.getD_some] at same
    exact (List.Nodup.getElem_inj_iff nodup).mp same
  · intro t i held
    cases held
  · intro c t moving
    cases moving
  · intro i _ positive
    exact absurd positive (Nat.lt_irrefl 0)

theorem memFunStep_inv [Fintype T] {s s' : MemFunState T} (inv : MemFunInv s)
    (step : MemFunStep s s') : MemFunInv s' := by
  obtain ⟨pool, lock, mask, actor⟩ := inv
  cases step with
  | call t cnt h =>
    exact ⟨pool.goto rfl rfl rfl (by rw [h]; rfl), lock.goto rfl rfl (by rw [h]; rfl),
      mask.goto rfl rfl rfl (by rw [h]; rfl), actor.goto rfl rfl rfl rfl rfl rfl (by rw [h]; rfl)⟩
  | spin => exact ⟨pool, lock, mask, actor⟩
  | take t n h sem =>
    exact ⟨take_poolInv pool (by rw [h]; rfl) rfl sem, lock.goto rfl rfl (by rw [h]; rfl),
      mask.goto rfl rfl rfl (by rw [h]; rfl), actor.goto rfl rfl rfl rfl rfl rfl (by rw [h]; rfl)⟩
  | lock t h free =>
    exact ⟨pool.goto rfl rfl rfl (by rw [h]; rfl), lock_lockInv lock free rfl,
      mask.goto rfl rfl rfl (by rw [h]; rfl), actor.goto rfl rfl rfl rfl rfl rfl (by rw [h]; rfl)⟩
  | search t h =>
    refine ⟨pool.goto rfl rfl rfl ?_, lock.goto rfl rfl ?_, search_maskInv pool mask h,
      actor.goto rfl rfl rfl rfl rfl rfl ?_⟩
    all_goals
      rw [h]
      split <;> rfl
  | mark t idx h =>
    exact ⟨pool.goto rfl rfl rfl (by rw [h]; rfl), lock.goto rfl rfl (by rw [h]; rfl),
      mark_maskInv lock mask h, actor.goto rfl rfl rfl rfl rfl rfl (by rw [h]; rfl)⟩
  | unlock t idx h =>
    exact ⟨pool.goto rfl rfl rfl (by rw [h]; rfl), unlock_lockInv lock (by rw [h]; rfl) rfl,
      mask.goto rfl rfl rfl (by rw [h]; rfl), actor.goto rfl rfl rfl rfl rfl rfl (by rw [h]; rfl)⟩
  | unlockMissed t h =>
    have found := mask.found t
    rw [h] at found
    cases found
  | prepare t idx h =>
    exact ⟨pool.goto rfl rfl rfl (by rw [h]; rfl), lock.goto rfl rfl (by rw [h]; rfl),
      mask.goto rfl rfl rfl (by rw [h]; rfl), prepare_actorInv mask actor h⟩
  | start t idx h =>
    refine ⟨pool.goto rfl rfl rfl (by rw [h]; rfl), lock.goto rfl rfl (by rw [h]; rfl),
      mask.goto rfl rfl rfl (by rw [h]; rfl), wait_actorInv mask actor h _ ?_⟩
    intro c
    by_cases own : c = s.actorChannel idx
    · exact .inr ⟨own, by rw [own, Function.update_self]⟩
    · exact .inl (Function.update_of_ne own _ _)
  | refused t idx h =>
    exact ⟨pool.goto rfl rfl rfl (by rw [h]; rfl), lock.goto rfl rfl (by rw [h]; rfl),
      mask.goto rfl rfl rfl (by rw [h]; rfl),
      wait_actorInv mask actor h s.moving (fun _ => .inl rfl)⟩
  | interrupt t c events h =>
    have after := interrupt_actorInv mask actor events h
    obtain ⟨idx, -, -, handler⟩ := moving_owner actor h
    unfold nuPdmaMemfunCb at after ⊢
    simp only [handler] at after ⊢
    exact ⟨⟨pool.count, pool.exists_pool⟩, lock,
      ⟨mask.small, mask.bits, mask.unique, mask.index, mask.free, mask.found⟩, after⟩
  | wake t idx n h sem =>
    exact ⟨pool.goto rfl rfl rfl (by rw [h]; rfl), lock.goto rfl rfl (by rw [h]; rfl),
      mask.goto rfl rfl rfl (by rw [h]; rfl), wake_actorInv mask actor h sem⟩
  | finish t idx left h =>
    exact ⟨pool.goto rfl rfl rfl (by rw [h]; rfl), lock.goto rfl rfl (by rw [h]; rfl),
      mask.goto rfl rfl rfl (by rw [h]; rfl), actor.goto rfl rfl rfl rfl rfl rfl (by rw [h]; rfl)⟩
  | lockAgain t idx ret h free =>
    exact ⟨pool.goto rfl rfl rfl (by rw [h]; rfl), lock_lockInv lock free rfl,
      mask.goto rfl rfl rfl (by rw [h]; rfl), actor.goto rfl rfl rfl rfl rfl rfl (by rw [h]; rfl)⟩
  | unmark t idx ret h =>
    exact ⟨pool.goto rfl rfl rfl (by rw [h]; rfl), lock.goto rfl rfl (by rw [h]; rfl),
      unmark_maskInv mask h, actor.goto rfl rfl rfl rfl rfl rfl (by rw [h]; rfl)⟩
  | unlockAgain t ret h =>
    exact ⟨pool.goto rfl rfl rfl (by rw [h]; rfl), unlock_lockInv lock (by rw [h]; rfl) rfl,
      mask.goto rfl rfl rfl (by rw [h]; rfl), actor.goto rfl rfl rfl rfl rfl rfl (by rw [h]; rfl)⟩
  | fire t ret h =>
    exact ⟨fire_poolInv pool (by rw [h]; rfl) rfl, lock.goto rfl rfl (by rw [h]; rfl),
      mask.goto rfl rfl rfl (by rw [h]; rfl), actor.goto rfl rfl rfl rfl rfl rfl (by rw [h]; rfl)⟩

theorem memFunRun_inv [Fintype T] {s s' : MemFunState T} (inv : MemFunInv s)
    (run : Relation.ReflTransGen MemFunStep s s') : MemFunInv s' := by
  induction run with
  | refl => exact inv
  | tail _ step ih => exact memFunStep_inv ih step

/-- What the pool guarantees in one state: free permits and employed actors add up, no actor is
held twice, the mask marks the held ones, an index is that of an actor, and the callback for a
channel lets only the thread go on whose transfer the channel was carrying out. -/
structure PoolSound [Fintype T] (s : MemFunState T) (num : Nat) : Prop where
  permits : s.poolSem.getD 0 + Threads.countOf MemFunPc.employs s.pc = num
  exclusive : ∀ t u i, (s.pc t).holds = some i → (s.pc u).holds = some i → t = u
  marked : ∀ i, i < num → (s.actorMask.getLsbD i = true ↔ ∃ t, (s.pc t).holds = some i)
  valid : ∀ t, s.pc t ≠ .missed ∧ ∀ i, (s.pc t).index = some i → i < num
  released : ∀ c t events, s.moving c = some t →
    (nuPdmaMemfunCb s c events).resumable t ∧
      ∀ u, (nuPdmaMemfunCb s c events).resumable u → ¬s.resumable u → u = t

theorem memFunStep_maxnum {s s' : MemFunState T} (step : MemFunStep s s') :
    s'.actorMaxnum = s.actorMaxnum := by
  cases step with
  | interrupt t c events h =>
    unfold nuPdmaMemfunCb
    simp only
    split <;> rfl
  | _ => rfl

theorem memFunRun_maxnum {s s' : MemFunState T} (run : Relation.ReflTransGen MemFunStep s s') :
    s'.actorMaxnum = s.actorMaxnum := by
  induction run with
  | refl => rfl
  | tail _ step ih => exact (memFunStep_maxnum step).trans ih

theorem MemFunInv.poolSound {T : Type} [Fintype T] {s : MemFunState T} (inv : MemFunInv s) :
    PoolSound s s.actorMaxnum := by
  obtain ⟨pool, -, mask, actor⟩ := inv
  refine ⟨pool.count, mask.unique, mask.bits, ?_, ?_⟩
  · intro t
    refine ⟨?_, mask.index t⟩
    intro missed
    have found := mask.found t
    rw [missed] at found
    cases found
  · intro c t events moving
    obtain ⟨i, pc, -, handler⟩ := moving_owner actor moving
    have held : (s.pc t).holds = some i := by rw [pc]; rfl
    unfold nuPdmaMemfunCb MemFunState.resumable
    simp only [handler]
    refine ⟨⟨i, pc, by simp⟩, ?_⟩
    rintro u ⟨j, waits, positive⟩ stuck
    by_cases same : j = i
    · subst same
      exact mask.unique u t j (by rw [waits]; rfl) held
    · exact absurd ⟨j, waits, by simpa [same] using positive⟩ stuck

/-- Over every interleaving of any number of threads with the interrupt handler. -/
theorem memfun_pool_sound [Fintype T] {p p' : PdmaState} {channels : List Nat}
    (init : memfunActors nuPdmaMemfunActorMax p = .ok (p', channels)) {s : MemFunState T}
    (run : Relation.ReflTransGen MemFunStep (MemFunState.created channels) s) :
    PoolSound s channels.length := by
  obtain ⟨nodup, small, -⟩ := memfunActors_nodup init
  have sound := (memFunRun_inv (created_inv nodup small) run).poolSound
  rw [memFunRun_maxnum run] at sound
  exact sound

/-- A thread employs an actor, is woken by the end of its transfer and leaves the pool again. -/
theorem memfun_pool_sound_four : ∃ s : MemFunState (Fin 5), s.pc 0 = .outside ∧
    s.handler 0 = some 0 ∧ s.actorResult 0 = nuPdmaEventTransferDone ∧ PoolSound s 4 := by
  obtain ⟨p', init⟩ : ∃ p', memfunActors nuPdmaMemfunActorMax .powerOn = .ok (p', [0, 1, 2, 3]) :=
    ⟨_, rfl⟩
  have employed := (((Relation.ReflTransGen.refl (r := MemFunStep)
      (a := MemFunState.created (T := Fin 5) [0, 1, 2, 3])).tail
    (.call _ 0 8 rfl)).tail (.take _ 0 3 rfl rfl)).tail (.lock _ 0 rfl rfl)
  have marked := (((employed.tail (.search _ 0 rfl)).tail (.mark _ 0 0 rfl)).tail
    (.unlock _ 0 0 rfl))
  have moved := (((marked.tail (.prepare _ 0 0 rfl)).tail (.start _ 0 0 rfl)).tail
    (.interrupt _ 0 0 nuPdmaEventTransferDone rfl)).tail (.wake _ 0 0 0 rfl rfl)
  have left := ((((moved.tail (.finish _ 0 0 0 rfl)).tail (.lockAgain _ 0 0 _ rfl rfl)).tail
    (.unmark _ 0 0 _ rfl)).tail (.unlockAgain _ 0 _ rfl)).tail (.fire _ 0 _ rfl)
  exact ⟨_, rfl, rfl, rfl, memfun_pool_sound init left⟩

end NuMakerMA35
