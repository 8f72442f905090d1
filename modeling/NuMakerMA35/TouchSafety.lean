import NuMakerMA35.Monitor
import NuMakerMA35.TouchAccess

namespace NuMakerMA35

/-- Every access of a call is in range, and what it decodes came from the bus before. -/
def TouchSafe {α : Type} (size : TouchSizes) (call : Touch α) : Prop :=
  Runs.StepsMeet TouchAccess.fetched (fun bytes c => c.InRange size bytes) ∅ (call []).2

/-- The call returns `a` with the bytes `bytes'` fetched; it is safe from `bytes` on exactly if `Q`. -/
abbrev Touches {α : Type} (size : TouchSizes) (bytes bytes' : Set Nat) (m : Touch α) (a : α)
    (Q : Prop) : Prop :=
  Logged.Exactly TouchAccess.fetched (fun bytes c => c.InRange size bytes) m a bytes bytes' Q

/-- The entries of the previous report that are lifted off have ids in range. -/
def LiftFits (size : TouchSizes) (s : Gt911) (ids : List Nat) (touchNum : Nat) : Prop :=
  touchNum < s.preTouch → ∀ i < gt911MaxTouch, ∀ id, s.preId i = some id → id ∉ ids →
    id < size.tables ∧ id < size.slots

/-- The points the inner loop of the lift-off path looks at. -/
def touchSeen (idOf : Nat → Option Nat) (entry : Option Nat) : List Nat → List Nat
  | [] => []
  | j :: js => if (idOf j).isSome ∧ entry = idOf j then [j] else j :: touchSeen idOf entry js

theorem touchSeen_subset (idOf : Nat → Option Nat) (entry : Option Nat) (js : List Nat) :
    touchSeen idOf entry js ⊆ js := by
  induction js with
  | nil => exact List.Subset.refl []
  | cons j js ih =>
    unfold touchSeen
    split_ifs
    · exact List.cons_subset_cons j (List.nil_subset js)
    · exact List.cons_subset_cons j ih

/-- What the lift-off path decodes came from the bus, and what it lifts off is in range. -/
def LiftReads (size : TouchSizes) (bytes : Set Nat) (offset : Nat → Nat)
    (idOf : Nat → Option Nat) (touchNum : Nat) (s : Gt911) : Prop :=
  touchNum < s.preTouch → ∀ i ∈ List.range gt911MaxTouch,
    (∀ j ∈ touchSeen idOf (s.preId i) (List.range touchNum),
      (TouchAccess.decode (offset j) 1).InRange size bytes) ∧
    ∀ id, s.preId i = some id → id ∉ (List.range touchNum).filterMap idOf →
      id < size.tables ∧ id < size.slots

section Touches

variable {size : TouchSizes} {bytes bytes' : Set Nat} {r : TouchState} {s : Gt911}
  {offset : Nat → Nat} {idOf : Nat → Option Nat} {js : List Nat}

theorem touches_then {α : Type} {a : α} {m : Touch α} {Q : Prop} (c : TouchAccess)
    (rest : Touches size (c.fetched bytes) bytes' m a Q) :
    Touches size bytes bytes' (access c >>= fun _ => m) a (c.InRange size bytes ∧ Q) :=
  Logged.Exactly.issue.bind rest

theorem touches_up (id : Nat) :
    Touches size bytes bytes (touchUp r id) (gt911TouchUp r.1 r.2 id)
      (id < size.tables ∧ id < size.slots) :=
  (touches_then (.perId id) (touches_then (.slot id) .pure)).congr
    (and_congr_right' (and_iff_left trivial))

theorem touches_down (id : Nat) (x y w : BitVec 16) :
    Touches size bytes bytes (touchDown r id x y w) (gt911TouchDown r.1 r.2 id x y w)
      (id < size.tables ∧ id < size.slots) :=
  (touches_then (.perId id) (touches_then (.slot id) .pure)).congr
    (and_congr_right' (and_iff_left trivial))

theorem touches_holds {i : Nat} (inside : i < size.tables) (entry : Option Nat) (js : List Nat) :
    Touches size bytes bytes (touchHolds offset idOf i entry js)
      (decide (∃ id ∈ js.filterMap idOf, entry = some id))
      (∀ j ∈ touchSeen idOf entry js, (TouchAccess.decode (offset j) 1).InRange size bytes) := by
  induction js with
  | nil => exact Logged.Exactly.pure.congr (by simp [touchSeen])
  | cons j js ih =>
    unfold touchHolds touchSeen
    cases named : idOf j with
    | none =>
      rw [List.filterMap_cons_none named]
      exact (touches_then (.decode (offset j) 1) ih).congr (by simp)
    | some id =>
      rw [List.filterMap_cons_some named]
      by_cases held : entry = some id
      · have found : decide (∃ id' ∈ id :: js.filterMap idOf, entry = some id') = true := by
          simp [held]
        rw [found]
        simp only [if_pos held]
        refine (touches_then (.decode (offset j) 1) (touches_then (.preId i) .pure)).congr ?_
        simp [held, TouchAccess.InRange, inside]
      · have later : decide (∃ id' ∈ id :: js.filterMap idOf, entry = some id') =
            decide (∃ id' ∈ js.filterMap idOf, entry = some id') := by
          simp [held]
        rw [later]
        simp only [if_neg held]
        refine (touches_then (.decode (offset j) 1) (touches_then (.preId i) ih)).congr ?_
        simp [held, TouchAccess.InRange, inside]

theorem touches_scan {i : Nat} (inside : i < size.tables) (js : List Nat) :
    Touches size bytes bytes (touchScan offset idOf js r i) (scanUp (js.filterMap idOf) r i)
      ((∀ j ∈ touchSeen idOf (r.1.preId i) js,
          (TouchAccess.decode (offset j) 1).InRange size bytes) ∧
        ∀ id, r.1.preId i = some id → id ∉ js.filterMap idOf →
          id < size.tables ∧ id < size.slots) := by
  have holds : Touches size bytes bytes (touchHolds offset idOf i (r.1.preId i) js) _ _ :=
    touches_holds inside (r.1.preId i) js
  unfold touchScan scanUp
  cases entry : r.1.preId i with
  | none =>
    rw [entry] at holds
    have free : decide (∃ id ∈ js.filterMap idOf, (none : Option Nat) = some id) = false := by simp
    rw [free] at holds
    refine (holds.bind (touches_then (.preId i) .pure)).congr ?_
    simp [TouchAccess.InRange, inside]
  | some id =>
    rw [entry] at holds
    by_cases present : id ∈ js.filterMap idOf
    · have held : decide (∃ id' ∈ js.filterMap idOf, some id = some id') = true := by
        simpa using present
      rw [held] at holds
      simp only [if_pos present]
      have kept : Touches size bytes bytes (pure r : Touch TouchState) r True := .pure
      refine (holds.bind kept).congr ?_
      simp only [Option.some.injEq, forall_eq', present, not_true_eq_false, false_imp_iff]
    · have free : decide (∃ id' ∈ js.filterMap idOf, some id = some id') = false := by
        simpa using present
      rw [free] at holds
      simp only [if_neg present]
      have lifted : Touches size bytes bytes
          (touchUp r id >>= fun r => pure (setPreId r i none))
          (setPreId (gt911TouchUp r.1 r.2 id) i none)
          ((id < size.tables ∧ id < size.slots) ∧ True) := (touches_up id).bind .pure
      refine (holds.bind (touches_then (.preId i) lifted)).congr ?_
      simp only [Option.some.injEq, forall_eq', present, not_false_eq_true, true_imp_iff,
        TouchAccess.InRange, inside, true_and, and_true]

theorem touches_lift (tables : gt911MaxTouch = size.tables) (touchNum : Nat) :
    Touches size bytes bytes (touchLift offset idOf touchNum r)
      (if touchNum < r.1.preTouch then
        (List.range gt911MaxTouch).foldl (scanUp ((List.range touchNum).filterMap idOf)) r else r)
      (LiftReads size bytes offset idOf touchNum r.1) := by
  unfold touchLift LiftReads
  by_cases fewer : touchNum < r.1.preTouch
  · simp only [fewer, if_true, true_imp_iff]
    refine Logged.Exactly.foldlM
      (fun (q : TouchState) is => (∀ i ∈ is, q.1.preId i = r.1.preId i ∧ i < size.tables) ∧ is.Nodup)
      ?_ _ r ⟨?_, List.nodup_range⟩
    · rintro q i is ⟨same, distinct⟩
      obtain ⟨fresh, distinct⟩ := List.nodup_cons.mp distinct
      obtain ⟨here, inside⟩ := same i List.mem_cons_self
      have turn : Touches size bytes bytes (touchScan offset idOf (List.range touchNum) q i) _ _ :=
        touches_scan inside (List.range touchNum)
      rw [here] at turn
      refine ⟨turn, ?_, distinct⟩
      intro k later
      have other : k ≠ i := fun equal => fresh (equal ▸ later)
      rw [scanUp_preId_of_ne _ q other]
      exact same k (List.mem_cons_of_mem i later)
    · intro i listed
      exact ⟨rfl, tables ▸ List.mem_range.mp listed⟩
  · simp only [fewer, if_false, false_imp_iff]
    exact .pure

theorem lift_iff (touchNum : Nat)
    (decoded : ∀ j < touchNum, (TouchAccess.decode (offset j) 1).InRange size bytes) :
    LiftReads size bytes offset idOf touchNum s ↔
      LiftFits size s ((List.range touchNum).filterMap idOf) touchNum := by
  have seen (i : Nat) : ∀ j ∈ touchSeen idOf (s.preId i) (List.range touchNum),
      (TouchAccess.decode (offset j) 1).InRange size bytes := fun j looked =>
    decoded j (List.mem_range.mp (touchSeen_subset _ _ _ looked))
  constructor
  · intro all fewer i inside
    exact (all fewer i (List.mem_range.mpr inside)).2
  · intro all fewer i inside
    exact ⟨seen i, all fewer i (List.mem_range.mp inside)⟩

/-- Lift-off path and loop over the points, where a safe turn decodes the point's id. -/
theorem touches_points {point : TouchState → Nat → Touch TouchState}
    {turn : TouchState → Nat → TouchState} {Q : Nat → Prop} (tables : gt911MaxTouch = size.tables)
    (each : ∀ q i, Touches size bytes bytes (point q i) (turn q i) (Q i))
    (decodes : ∀ i, Q i → (TouchAccess.decode (offset i) 1).InRange size bytes)
    (touchNum pre readNum : Nat) :
    Touches size bytes bytes
      (do
        let q ← touchLift offset idOf touchNum (noSlots s)
        let q ← (List.range touchNum).foldlM point q
        pure (({ q.1 with preTouch := pre }, q.2), readNum))
      (let q := if touchNum < s.preTouch then
          (List.range gt911MaxTouch).foldl (scanUp ((List.range touchNum).filterMap idOf)) (noSlots s)
        else noSlots s
       let q := (List.range touchNum).foldl turn q
       (({ q.1 with preTouch := pre }, q.2), readNum))
      (LiftFits size s ((List.range touchNum).filterMap idOf) touchNum ∧ ∀ i < touchNum, Q i) := by
  have lift : Touches size bytes bytes (touchLift offset idOf touchNum (noSlots s)) _ _ :=
    touches_lift tables touchNum
  have points (q : TouchState) : Touches size bytes bytes
      ((List.range touchNum).foldlM point q) ((List.range touchNum).foldl turn q)
      (∀ i ∈ List.range touchNum, Q i) :=
    Logged.Exactly.foldlM (fun _ _ => True) (fun q i _ _ => ⟨each q i, trivial⟩) _ q trivial
  have done (q : TouchState) : Touches size bytes bytes
      (pure (({ q.1 with preTouch := pre }, q.2), readNum) : Touch (TouchState × Nat))
      (({ q.1 with preTouch := pre }, q.2), readNum) True := .pure
  refine (lift.bind ((points _).bind (done _))).congr ?_
  simp only [and_true, List.mem_range]
  exact and_congr_left fun all => lift_iff touchNum fun j below => decodes j (all j below)

end Touches

end NuMakerMA35
