import NuMakerMA35.UnitPool
import Mathlib.Logic.Relation

namespace NuMakerMA35

structure UnitObj where
  kind : UnitKind
  unit : Nat
  deriving DecidableEq

def UnitObj.Covers (o : UnitObj) (i : Nat) : Prop := o.unit ≤ i ∧ i < o.unit + o.kind.units

def UnitObj.Owns (b : UnitBase) (o : UnitObj) (x : Nat) : Prop :=
  b.unit o.unit ≤ x ∧ x < b.unit o.unit + o.kind.size

def UnitObj.Apart (o q : UnitObj) : Prop :=
  o.unit + o.kind.units ≤ q.unit ∨ q.unit + q.kind.units ≤ o.unit

structure UnitRun where
  pool : UnitPool
  live : List UnitObj

inductive UnitStep (b : UnitBase) : UnitRun → UnitRun → Prop where
  | alloc {s : UnitRun} {kind : UnitKind} {unit : Nat} {pool : UnitPool} :
    kind.alloc b s.pool = some (b.unit unit, pool) → UnitStep b s ⟨pool, ⟨kind, unit⟩ :: s.live⟩
  | refused {s : UnitRun} {kind : UnitKind} : kind.alloc b s.pool = none → UnitStep b s s
  | free {s : UnitRun} {o : UnitObj} : o ∈ s.live →
    UnitStep b s ⟨o.kind.free b s.pool (b.unit o.unit), s.live.erase o⟩

def UnitReachable (b : UnitBase) (s : UnitRun) : Prop :=
  Relation.ReflTransGen (UnitStep b) ⟨usbhMemoryInit, []⟩ s

structure UnitInv (s : UnitRun) : Prop where
  inPool : ∀ o ∈ s.live, o.unit + o.kind.units ≤ memPoolUnitNum
  apart : s.live.Pairwise UnitObj.Apart
  used : ∀ i < memPoolUnitNum, s.pool.used i = true ↔ ∃ o ∈ s.live, o.Covers i
  count : s.pool.memPoolUsed = UnitPool.usedCount s.pool.used
  sidx : s.pool.sidx < memPoolUnitNum

def UnitKind.Room (kind : UnitKind) (p : UnitPool) : Prop :=
  ∃ i, i + kind.units ≤ memPoolUnitNum ∧ ∀ j, i ≤ j → j < i + kind.units → p.used j = false

structure UnitsHold (b : UnitBase) (s : UnitRun) : Prop where
  count : s.pool.memPoolUsed = UnitPool.usedCount s.pool.used
  apart : s.live.Pairwise fun o q => ∀ x, o.Owns b x → ¬q.Owns b x
  inside : ∀ o ∈ s.live, b.unit o.unit = b.base + memPoolUnitSize * o.unit ∧
    b.unit o.unit + o.kind.size ≤ b.base + memPoolUnitNum * memPoolUnitSize
  frees : ∀ o ∈ s.live, ∀ i < memPoolUnitNum, (o.kind.free b s.pool (b.unit o.unit)).used i = true ↔
    s.pool.used i = true ∧ ¬o.Covers i
  complete : ∀ kind : UnitKind, kind.alloc b s.pool = none → ¬kind.Room s.pool

/-- A free unit is not only that taken last, and two adjacent free ones neither begin with that nor
end the pool. -/
def UnitPool.Spread (p : UnitPool) : Prop :=
  ((∃ i < memPoolUnitNum, p.used i = false) →
    ∃ i < memPoolUnitNum, p.used i = false ∧ i ≠ p.sidx) ∧
  ((∃ i, i + 1 < memPoolUnitNum ∧ p.used i = false ∧ p.used (i + 1) = false) →
    ∃ i, i + 2 < memPoolUnitNum ∧ p.used i = false ∧ p.used (i + 1) = false ∧ i ≠ p.sidx)

section Allocators

variable {b : UnitBase} {p q : UnitPool} {kind : UnitKind} {ptr : Nat}

/-- The units an allocator takes are free ones. -/
structure UnitKind.Takes (kind : UnitKind) (p q : UnitPool) (i : Nat) : Prop where
  inPool : i + kind.units ≤ memPoolUnitNum
  free : ∀ j, i ≤ j → j < i + kind.units → p.used j = false
  used : q.used = setUnits p.used i kind.units true
  count : q.memPoolUsed = p.memPoolUsed + kind.units
  sidx : q.sidx = p.sidx ∨ q.sidx < memPoolUnitNum

theorem allocFirst_some {i : Nat} (single : kind.units = 1) (found : p.allocFirst = some (i, q)) :
    kind.Takes p q i := by
  obtain ⟨k, first, same⟩ := Option.map_eq_some_iff.mp found
  obtain ⟨rfl, rfl⟩ := Prod.mk.inj same
  have inside := List.mem_range.mp (List.mem_of_find?_eq_some first)
  have free := List.find?_some first
  refine ⟨by omega, ?_, by rw [single]; rfl, by rw [single]; rfl, Or.inl rfl⟩
  intro j low high
  have only : j = k := by omega
  rw [only]
  simpa using free

theorem allocNext_some {i : Nat} (single : kind.units = 1) (found : p.allocNext = some (i, q)) :
    kind.Takes p q i := by
  obtain ⟨k, first, same⟩ := Option.map_eq_some_iff.mp found
  obtain ⟨rfl, rfl⟩ := Prod.mk.inj same
  obtain ⟨free, inside, -⟩ := scanUnits_some memPoolUnitNum (Nat.mod_lt _ (by decide)) first
  refine ⟨by omega, ?_, by rw [single]; rfl, by rw [single]; rfl, Or.inr inside⟩
  intro j low high
  have only : j = k := by omega
  rw [only]
  simpa using free

theorem allocPair_some {i : Nat} (double : kind.units = 2) (found : p.allocPair = some (i, q)) :
    kind.Takes p q i := by
  obtain ⟨k, first, same⟩ := Option.map_eq_some_iff.mp found
  obtain ⟨rfl, rfl⟩ := Prod.mk.inj same
  obtain ⟨free, inside, -⟩ := scanUnits_some memPoolUnitNum (Nat.mod_lt _ (by decide)) first
  simp only [Bool.and_eq_true, decide_eq_true_eq, Bool.not_eq_true'] at free
  obtain ⟨before, here, next⟩ := free
  refine ⟨by omega, ?_, by rw [double]; rfl, by rw [double]; rfl, Or.inr (by dsimp only; omega)⟩
  intro j low high
  rcases Nat.lt_or_ge k j with later | first
  · rwa [show j = k + 1 by omega]
  · rwa [show j = k by omega]

theorem UnitKind.alloc_some (found : kind.alloc b p = some (ptr, q)) :
    ∃ i, ptr = b.unit i ∧ kind.Takes p q i := by
  cases kind <;> obtain ⟨⟨i, q'⟩, taken, same⟩ := Option.map_eq_some_iff.mp found <;>
    obtain ⟨rfl, rfl⟩ := Prod.mk.inj same
  case ed => exact ⟨i, rfl, allocFirst_some rfl taken⟩
  case td => exact ⟨i, rfl, allocFirst_some rfl taken⟩
  case qh => exact ⟨i, rfl, allocNext_some rfl taken⟩
  case qtd => exact ⟨i, rfl, allocNext_some rfl taken⟩
  case itd => exact ⟨i, rfl, allocPair_some rfl taken⟩
  case sitd => exact ⟨i, rfl, allocNext_some rfl taken⟩

theorem UnitKind.free_unit {i : Nat} (inside : i + kind.units ≤ memPoolUnitNum) :
    kind.free b p (b.unit i) = p.give i kind.units := by
  cases kind <;> exact UnitPool.freeUnits_unit inside

theorem allocFirst_none (none : p.allocFirst = .none) {i : Nat} (inside : i < memPoolUnitNum) :
    p.used i = true := by
  have seen := List.find?_eq_none.mp (Option.map_eq_none_iff.mp none) i (List.mem_range.mpr inside)
  simpa using seen

theorem allocNext_none_iff (within : p.sidx < memPoolUnitNum) :
    p.allocNext = none ↔ ∀ i < memPoolUnitNum, i ≠ p.sidx → p.used i = true := by
  unfold UnitPool.allocNext
  rw [Option.map_eq_none_iff]
  constructor
  · intro missed i inside other
    have seen := scanUnits_missed within missed inside other
    simpa using seen
  · intro full
    rw [Option.eq_none_iff_forall_ne_some]
    intro i found
    obtain ⟨free, inside, other⟩ := scanUnits_some memPoolUnitNum (Nat.mod_lt _ (by decide)) found
    rw [full i inside other] at free
    cases free

theorem allocPair_none_iff (within : p.sidx < memPoolUnitNum) :
    p.allocPair = none ↔ ∀ i, i + 2 < memPoolUnitNum → i ≠ p.sidx →
      ¬(p.used i = false ∧ p.used (i + 1) = false) := by
  unfold UnitPool.allocPair
  rw [Option.map_eq_none_iff]
  constructor
  · intro missed i inside other free
    have seen := scanUnits_missed within missed (show i < memPoolUnitNum by omega) other
    rw [free.1, free.2, decide_eq_true (by omega)] at seen
    cases seen
  · intro full
    rw [Option.eq_none_iff_forall_ne_some]
    intro i found
    obtain ⟨free, inside, other⟩ := scanUnits_some memPoolUnitNum (Nat.mod_lt _ (by decide)) found
    simp only [Bool.and_eq_true, decide_eq_true_eq, Bool.not_eq_true'] at free
    exact full i (by omega) other free.2

theorem UnitKind.room_single (single : kind.units = 1) :
    kind.Room p ↔ ∃ i < memPoolUnitNum, p.used i = false := by
  unfold UnitKind.Room
  rw [single]
  constructor
  · rintro ⟨i, inside, free⟩
    exact ⟨i, by omega, free i le_rfl (by omega)⟩
  · rintro ⟨i, inside, free⟩
    refine ⟨i, by omega, ?_⟩
    intro j low high
    rwa [show j = i by omega]

theorem UnitKind.room_itd : UnitKind.itd.Room p ↔
    ∃ i, i + 1 < memPoolUnitNum ∧ p.used i = false ∧ p.used (i + 1) = false := by
  have two : UnitKind.itd.units = 2 := rfl
  unfold UnitKind.Room
  rw [two]
  constructor
  · rintro ⟨i, inside, free⟩
    exact ⟨i, by omega, free i le_rfl (by omega), free (i + 1) (by omega) (by omega)⟩
  · rintro ⟨i, inside, here, next⟩
    refine ⟨i, by omega, ?_⟩
    intro j low high
    rcases Nat.lt_or_ge i j with later | first
    · rwa [show j = i + 1 by omega]
    · rwa [show j = i by omega]

theorem complete_iff (within : p.sidx < memPoolUnitNum) :
    (∀ kind : UnitKind, kind.alloc b p = none → ¬kind.Room p) ↔ p.Spread := by
  constructor
  · intro complete
    refine ⟨fun some => ?_, fun some => ?_⟩
    · by_contra alone
      refine complete .qh (Option.map_eq_none_iff.mpr ((allocNext_none_iff within).mpr ?_))
        ((UnitKind.room_single rfl).mpr some)
      intro i inside other
      by_contra free
      exact alone ⟨i, inside, Bool.eq_false_iff.mpr free, other⟩
    · by_contra alone
      refine complete .itd (Option.map_eq_none_iff.mpr ((allocPair_none_iff within).mpr ?_))
        (UnitKind.room_itd.mpr some)
      intro i inside other free
      exact alone ⟨i, inside, free.1, free.2, other⟩
  · rintro ⟨single, double⟩ kind none room
    have refused (one : kind.units = 1) (missed : p.allocNext = .none) : False := by
      obtain ⟨i, inside, free, other⟩ := single ((UnitKind.room_single one).mp room)
      have taken := (allocNext_none_iff within).mp missed i inside other
      rw [free] at taken
      cases taken
    have full (one : kind.units = 1) (missed : p.allocFirst = .none) : False := by
      obtain ⟨i, inside, free⟩ := (UnitKind.room_single one).mp room
      have taken := allocFirst_none missed inside
      rw [free] at taken
      cases taken
    cases kind with
    | ed => exact full rfl (Option.map_eq_none_iff.mp none)
    | td => exact full rfl (Option.map_eq_none_iff.mp none)
    | qh => exact refused rfl (Option.map_eq_none_iff.mp none)
    | qtd => exact refused rfl (Option.map_eq_none_iff.mp none)
    | sitd => exact refused rfl (Option.map_eq_none_iff.mp none)
    | itd =>
      obtain ⟨i, inside, here, next, other⟩ := double (UnitKind.room_itd.mp room)
      exact (allocPair_none_iff within).mp (Option.map_eq_none_iff.mp none) i inside other ⟨here, next⟩

end Allocators

section Runs

variable {b : UnitBase} {s t : UnitRun}

theorem UnitKind.units_pos (kind : UnitKind) : 0 < kind.units := by
  cases kind <;> decide

theorem UnitKind.size_le (kind : UnitKind) : kind.size ≤ kind.units * memPoolUnitSize := by
  cases kind <;> decide

instance : Std.Symm UnitObj.Apart := ⟨fun _ _ h => h.symm⟩

theorem UnitInv.init : UnitInv ⟨usbhMemoryInit, []⟩ := by
  refine ⟨?_, List.Pairwise.nil, ?_, by decide, by decide⟩
  · intro o none
    cases none
  · intro i _
    refine iff_of_false Bool.false_ne_true ?_
    rintro ⟨o, none, -⟩
    cases none

theorem UnitInv.nodup (inv : UnitInv s) : s.live.Nodup := by
  refine inv.apart.imp ?_
  rintro o q apart rfl
  have some := o.kind.units_pos
  unfold UnitObj.Apart at apart
  omega

theorem UnitInv.alloc (inv : UnitInv s) {kind : UnitKind} {i : Nat} {pool : UnitPool}
    (takes : kind.Takes s.pool pool i) : UnitInv ⟨pool, ⟨kind, i⟩ :: s.live⟩ := by
  have apart : ∀ o ∈ s.live, UnitObj.Apart ⟨kind, i⟩ o := by
    intro o here
    by_contra shared
    unfold UnitObj.Apart at shared
    have some := kind.units_pos
    have more := o.kind.units_pos
    dsimp only at shared
    have inPool := takes.inPool
    have taken := (inv.used (max i o.unit) (by omega)).mpr
      ⟨o, here, by unfold UnitObj.Covers; omega⟩
    rw [takes.free (max i o.unit) (by omega) (by omega)] at taken
    cases taken
  refine ⟨?_, List.pairwise_cons.mpr ⟨apart, inv.apart⟩, ?_, ?_, ?_⟩
  · intro o here
    rcases List.mem_cons.mp here with rfl | here
    · exact takes.inPool
    · exact inv.inPool o here
  · intro j inside
    rw [takes.used]
    unfold setUnits
    split_ifs with here
    · exact iff_of_true rfl ⟨_, List.mem_cons_self, here⟩
    · rw [inv.used j inside]
      constructor
      · rintro ⟨o, mem, covers⟩
        exact ⟨o, List.mem_cons_of_mem _ mem, covers⟩
      · rintro ⟨o, mem, covers⟩
        rcases List.mem_cons.mp mem with rfl | mem
        · exact absurd covers here
        · exact ⟨o, mem, covers⟩
  · dsimp only
    rw [takes.count, inv.count, takes.used, UnitPool.usedCount_take takes.inPool takes.free]
    push_cast
    rfl
  · rcases takes.sidx with same | inside
    · dsimp only
      rw [same]
      exact inv.sidx
    · exact inside

theorem UnitInv.covered (inv : UnitInv s) {o : UnitObj} (here : o ∈ s.live) {i : Nat}
    (low : o.unit ≤ i) (high : i < o.unit + o.kind.units) : s.pool.used i = true := by
  have inPool := inv.inPool o here
  exact (inv.used i (by omega)).mpr ⟨o, here, low, high⟩

theorem UnitInv.free (inv : UnitInv s) {o : UnitObj} (here : o ∈ s.live) :
    UnitInv ⟨o.kind.free b s.pool (b.unit o.unit), s.live.erase o⟩ := by
  have inPool := inv.inPool o here
  rw [UnitKind.free_unit inPool]
  refine ⟨?_, inv.apart.sublist List.erase_sublist, ?_, ?_, inv.sidx⟩
  · intro q mem
    exact inv.inPool q (List.mem_of_mem_erase mem)
  · intro j inside
    unfold UnitPool.give
    dsimp only
    unfold setUnits
    split_ifs with mine
    · refine iff_of_false id ?_
      rintro ⟨q, mem, covers⟩
      obtain ⟨other, mem⟩ := inv.nodup.mem_erase_iff.mp mem
      have apart := inv.apart.forall mem here other
      unfold UnitObj.Covers at covers
      unfold UnitObj.Apart at apart
      omega
    · rw [inv.used j inside]
      constructor
      · rintro ⟨q, mem, covers⟩
        refine ⟨q, inv.nodup.mem_erase_iff.mpr ⟨?_, mem⟩, covers⟩
        rintro rfl
        exact mine covers
      · rintro ⟨q, mem, covers⟩
        exact ⟨q, List.mem_of_mem_erase mem, covers⟩
  · have count := inv.count
    have fewer : UnitPool.usedCount s.pool.used =
        UnitPool.usedCount (setUnits s.pool.used o.unit o.kind.units false) + o.kind.units :=
      UnitPool.usedCount_give inPool fun j low high => inv.covered here low high
    unfold UnitPool.give
    dsimp only
    rw [count, fewer]
    push_cast
    omega

theorem UnitInv.step (inv : UnitInv s) (step : UnitStep b s t) : UnitInv t := by
  cases step with
  | alloc found =>
    obtain ⟨i, same, takes⟩ := UnitKind.alloc_some found
    rw [UnitBase.unit_inj] at same
    subst same
    exact inv.alloc takes
  | refused => exact inv
  | free here => exact inv.free here

theorem unitReachable_inv (reach : UnitReachable b s) : UnitInv s := by
  induction reach with
  | refl => exact .init
  | tail _ last ih => exact ih.step last

theorem UnitObj.Apart.bytes {o q : UnitObj} (apart : o.Apart q) {x : Nat} (mine : o.Owns b x) :
    ¬q.Owns b x := by
  have most := o.kind.size_le
  have more := q.kind.size_le
  unfold UnitObj.Apart at apart
  unfold UnitObj.Owns UnitBase.unit memPoolUnitSize at *
  omega

/-- All of it holds in every reachable state, but the allocators refuse only a full pool exactly
where the free units are spread. -/
theorem unit_pool_holds_iff (reach : UnitReachable b s) : UnitsHold b s ↔ s.pool.Spread := by
  have inv := unitReachable_inv reach
  rw [← complete_iff (b := b) inv.sidx]
  refine ⟨fun hold => hold.complete, fun complete => ⟨inv.count, ?_, ?_, ?_, complete⟩⟩
  · refine inv.apart.imp ?_
    intro o q apart x mine
    exact apart.bytes mine
  · intro o here
    have inPool := inv.inPool o here
    have most := o.kind.size_le
    unfold UnitBase.unit memPoolUnitSize at *
    omega
  · intro o here i inside
    rw [UnitKind.free_unit (inv.inPool o here)]
    unfold UnitPool.give UnitObj.Covers
    dsimp only
    unfold setUnits
    split_ifs with mine
    · exact iff_of_false id fun h => h.2 mine
    · exact (and_iff_left mine).symm

def unitBaseAt : UnitBase := ⟨0x1000, by decide, by decide, by decide⟩

theorem freshPool_holds : UnitsHold unitBaseAt ⟨usbhMemoryInit, []⟩ := by
  refine (unit_pool_holds_iff .refl).mpr ⟨fun _ => ?_, fun _ => ?_⟩
  · exact ⟨1, by decide, rfl, by decide⟩
  · exact ⟨1, by decide, rfl, rfl, by decide⟩

theorem tdsTaken_reachable (b : UnitBase) {n : Nat} (most : n ≤ memPoolUnitNum) :
    UnitReachable b ⟨⟨fun i => decide (i < n), n, 0⟩,
      ((List.range n).map fun i => ⟨.td, i⟩).reverse⟩ := by
  induction n with
  | zero =>
    have start : (fun i => decide (i < 0)) = fun _ => false :=
      funext fun i => decide_eq_false (Nat.not_lt_zero i)
    rw [start]
    exact .refl
  | succ n ih =>
    refine (ih (by omega)).tail ?_
    have marks : setUnits (fun i => decide (i < n)) n 1 true = fun i => decide (i < n + 1) := by
      funext i
      unfold setUnits
      split_ifs with here
      · exact (decide_eq_true (by omega)).symm
      · exact decide_eq_decide.mpr (by omega)
    have first : ((List.range memPoolUnitNum).find? fun i => !decide (i < n)) = some n := by
      rw [List.find?_range_eq_some]
      refine ⟨by rw [decide_eq_false (lt_irrefl n)]; rfl, List.mem_range.mpr most, ?_⟩
      intro j low
      rw [decide_eq_true low]
      rfl
    have taken : UnitKind.alloc b ⟨fun i => decide (i < n), n, 0⟩ .td =
        some (b.unit n, ⟨fun i => decide (i < n + 1), (n + 1 : Nat), 0⟩) := by
      unfold UnitKind.alloc allocOhciTD UnitPool.allocFirst
      rw [first]
      unfold UnitPool.take
      dsimp only [Option.map_some]
      rw [marks]
      rfl
    rw [List.range_succ, List.map_append, List.reverse_append]
    exact .alloc taken

/-- The pool is filled by OHCI transfers and its first unit freed again, which no EHCI allocator
looks at. -/
theorem firstUnit_missed : ∃ s, UnitReachable unitBaseAt s ∧ s.pool.used 0 = false ∧
    allocEhciQTD unitBaseAt s.pool = none ∧ ¬UnitsHold unitBaseAt s := by
  have full : UnitReachable unitBaseAt _ := tdsTaken_reachable unitBaseAt (le_refl memPoolUnitNum)
  have here : (⟨.td, 0⟩ : UnitObj) ∈ ((List.range memPoolUnitNum).map fun i => ⟨.td, i⟩).reverse :=
    List.mem_reverse.mpr (List.mem_map.mpr ⟨0, List.mem_range.mpr (by decide), rfl⟩)
  have freed : UnitKind.free unitBaseAt ⟨fun i => decide (i < memPoolUnitNum), memPoolUnitNum, 0⟩
      (unitBaseAt.unit 0) .td =
      UnitPool.give ⟨fun i => decide (i < memPoolUnitNum), memPoolUnitNum, 0⟩ 0 1 :=
    UnitKind.free_unit (by decide)
  have empty : (UnitPool.give ⟨fun i => decide (i < memPoolUnitNum), memPoolUnitNum, 0⟩ 0 1).allocNext =
      none := by
    refine (allocNext_none_iff (by decide)).mpr ?_
    intro i inside other
    have behind : ¬(0 ≤ i ∧ i < 0 + 1) := by
      rintro ⟨-, high⟩
      exact other (Nat.lt_one_iff.mp high)
    unfold UnitPool.give setUnits
    dsimp only
    rw [if_neg behind]
    exact decide_eq_true inside
  refine ⟨_, full.tail (.free here), ?_⟩
  dsimp only
  rw [freed]
  have none : allocEhciQTD unitBaseAt
      (UnitPool.give ⟨fun i => decide (i < memPoolUnitNum), memPoolUnitNum, 0⟩ 0 1) = none :=
    Option.map_eq_none_iff.mpr empty
  refine ⟨rfl, none, ?_⟩
  intro hold
  exact hold.complete .qtd none ((UnitKind.room_single rfl).mpr ⟨0, by decide, rfl⟩)

end Runs

end NuMakerMA35
