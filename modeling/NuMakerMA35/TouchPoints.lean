import NuMakerMA35.Gt911Tracking
import NuMakerMA35.TouchAccess

namespace NuMakerMA35

inductive PointUse where
  | down (x y w : BitVec 16)
  | up
  | invalid
  deriving DecidableEq, Repr

structure TouchPoint where
  id : Nat
  use : PointUse

/-- The use of a point that is touched: a position outside of the resolution is invalid. -/
def positionUse (rangeX rangeY : Int) (x y w : BitVec 16) : PointUse :=
  if rangeX ≤ x.toNat ∨ rangeY ≤ y.toNat then .invalid else .down x y w

def TouchPoint.put (p : TouchPoint) (r : TouchState) : TouchState :=
  match p.use with
  | .down x y w => gt911TouchDown r.1 r.2 p.id x y w
  | .up => gt911TouchUp r.1 r.2 p.id
  | .invalid => r

/-- One turn of the loop over the points; a point without an id is passed by. -/
def putPoint (points : Nat → Option TouchPoint) (r : TouchState) (i : Nat) : TouchState :=
  match points i with
  | none => r
  | some p => p.put (setPreId r i (some p.id))

def slotOf (points : Nat → Option TouchPoint) (i : Nat) : Option Nat :=
  (points i).map TouchPoint.id

/-- What is left of a report of `touchNum` points after the lift-off path. -/
def putPoints (points : Nat → Option TouchPoint) (touchNum : Nat) (r : TouchState) : TouchState :=
  let r := (List.range touchNum).foldl (putPoint points) r
  ({ r.1 with preTouch := touchNum }, r.2)

def PointUse.mark : PointUse → Bool × Option TouchEvent → Bool × Option TouchEvent
  | .down _ _ _ => pressMark
  | .up => liftMark
  | .invalid => id

section Points

variable {points : Nat → Option TouchPoint} {r : TouchState} {x i : Nat} {p : TouchPoint}

theorem touchMark_put (p : TouchPoint) (r : TouchState) (x : Nat) :
    touchMark (p.put r) x = if x = p.id then p.use.mark (touchMark r x) else touchMark r x := by
  unfold TouchPoint.put PointUse.mark
  cases p.use with
  | down u v w => exact touchMark_down _ _ _ _ _ _ _
  | up => exact touchMark_up _ _ _ _
  | invalid => exact (ite_self (touchMark r x)).symm

theorem putPoint_named (named : points i = some p) :
    putPoint points r i = p.put (setPreId r i (some p.id)) := by
  unfold putPoint
  rw [named]

theorem touchMark_putPoint (named : points i = some p) (r : TouchState) (x : Nat) :
    touchMark (putPoint points r i) x =
      if x = p.id then p.use.mark (touchMark r x) else touchMark r x := by
  rw [putPoint_named named, touchMark_put]
  rfl

theorem slotOf_named (named : points i = some p) : slotOf points i = some p.id := by
  rw [slotOf, named]
  rfl

theorem putPoint_unnamed (named : points i = none) : putPoint points r i = r := by
  unfold putPoint
  rw [named]

theorem put_preId (p : TouchPoint) (r : TouchState) : (p.put r).1.preId = r.1.preId := by
  unfold TouchPoint.put
  cases p.use with
  | down u v w => rfl
  | up => rfl
  | invalid => rfl

theorem putPoint_preId_of_ne {k : Nat} (other : k ≠ i) :
    (putPoint points r i).1.preId k = r.1.preId k := by
  cases named : points i with
  | none => rw [putPoint_unnamed named]
  | some p =>
    rw [putPoint_named named, put_preId]
    exact Function.update_of_ne other _ _

theorem putPoint_preId_self (named : points i = some p) :
    (putPoint points r i).1.preId i = some p.id := by
  rw [putPoint_named named, put_preId]
  exact Function.update_self i _ _

theorem touchMark_putPoints_other (is : List Nat)
    (other : ∀ i ∈ is, ∀ p, points i = some p → p.id ≠ x) :
    touchMark (is.foldl (putPoint points) r) x = touchMark r x := by
  induction is generalizing r with
  | nil => rfl
  | cons i is ih =>
    rw [List.forall_mem_cons] at other
    rw [List.foldl_cons, ih other.2]
    cases named : points i with
    | none => rw [putPoint_unnamed named]
    | some p => rw [touchMark_putPoint named, if_neg (Ne.symm (other.1 p named))]

theorem touchMark_putPoints {is : List Nat}
    (distinct : (is.filterMap (slotOf points)).Nodup) (here : i ∈ is)
    (named : points i = some p) :
    touchMark (is.foldl (putPoint points) r) p.id = p.use.mark (touchMark r p.id) := by
  induction is generalizing r with
  | nil => exact absurd here List.not_mem_nil
  | cons j is ih =>
    rw [List.foldl_cons]
    rcases List.mem_cons.mp here with rfl | later
    · rw [List.filterMap_cons_some (slotOf_named named), List.nodup_cons] at distinct
      rw [touchMark_putPoints_other is, touchMark_putPoint named, if_pos rfl]
      intro k inside q other same
      exact distinct.1 (List.mem_filterMap.mpr ⟨k, inside, (slotOf_named other).trans (congrArg some same)⟩)
    · cases first : points j with
      | none =>
        rw [List.filterMap_cons_none (by rw [slotOf, first]; rfl)] at distinct
        rw [putPoint_unnamed first, ih distinct later]
      | some q =>
        rw [List.filterMap_cons_some (slotOf_named first), List.nodup_cons] at distinct
        rw [ih distinct.2 later, touchMark_putPoint first, if_neg]
        intro same
        exact distinct.1 (List.mem_filterMap.mpr ⟨i, later, (slotOf_named named).trans (congrArg some same)⟩)

end Points

def markEvents (m : Bool × Option TouchEvent) : List TouchEvent :=
  match m.2 with
  | none => []
  | some TouchEvent.none => []
  | some event => [event]

section Alternation

variable {b : Bool} {h : List TouchEvent}

theorem Alternation.press (alt : Alternation b h) :
    Alternation true (h ++ markEvents (pressMark (b, none))) := by
  cases b with
  | false => exact alt.down
  | true => exact alt.move

theorem Alternation.lift (alt : Alternation b h) :
    Alternation false (h ++ markEvents (liftMark (b, none))) := by
  cases b with
  | false =>
    change Alternation false (h ++ [])
    rwa [List.append_nil]
  | true => exact alt.up

theorem Alternation.use (alt : Alternation b h) (use : PointUse) :
    Alternation (use.mark (b, none)).1 (h ++ markEvents (use.mark (b, none))) := by
  cases use with
  | down x y w => exact alt.press
  | up => exact alt.lift
  | invalid =>
    change Alternation b (h ++ [])
    rwa [List.append_nil]

end Alternation

/-- A read adds the events it returns; one that returns a count has read the report `named`. -/
def TouchRun.after (r : TouchRun) (result : Except TouchFault (TouchState × Nat))
    (named : List Nat) : TouchRun :=
  match result with
  | .error _ => r
  | .ok (t, got) =>
    { driver := t.1
      history := fun x => r.history x ++ t.2.returned x
      report := if got = 0 then r.report else named }

def TouchRun.InStep (r : TouchRun) (x : Nat) : Prop :=
  Alternation (r.driver.tpDown x) (r.history x)

def PointUse.Touched : PointUse → Prop
  | .down _ _ _ => True
  | .up => False
  | .invalid => False

instance : DecidablePred PointUse.Touched
  | .down _ _ _ => isTrue trivial
  | .up => isFalse id
  | .invalid => isFalse id

theorem PointUse.mark_flag (use : PointUse) (m : Bool × Option TouchEvent) :
    (use.mark m).1 = true ↔ use.Touched ∨ use = .invalid ∧ m.1 = true := by
  cases use with
  | down x y w => simp [PointUse.mark, PointUse.Touched, pressMark]
  | up => simp [PointUse.mark, PointUse.Touched, liftMark]
  | invalid => simp [PointUse.mark, PointUse.Touched]

section After

variable {r : TouchRun} {t : TouchState} {x : Nat} {u : PointUse}

theorem after_history (mark : touchMark t x = u.mark (r.driver.tpDown x, none)) (got : Nat)
    (named : List Nat) : (r.after (.ok (t, got)) named).history x =
      r.history x ++ markEvents (u.mark (r.driver.tpDown x, none)) :=
  congrArg (r.history x ++ ·) (TouchBuf.returned_eq mark)

theorem after_flag (mark : touchMark t x = u.mark (r.driver.tpDown x, none)) (got : Nat)
    (named : List Nat) : (r.after (.ok (t, got)) named).driver.tpDown x =
      (u.mark (r.driver.tpDown x, none)).1 := by
  rw [← mark]
  rfl

theorem TouchRun.InStep.after (inStep : r.InStep x)
    (mark : touchMark t x = u.mark (r.driver.tpDown x, none)) (got : Nat) (named : List Nat) :
    (r.after (.ok (t, got)) named).InStep x := by
  unfold TouchRun.InStep
  rw [after_history mark, after_flag mark]
  exact Alternation.use inStep u

theorem TouchRun.InStep.after_iff (inStep : r.InStep x)
    (mark : touchMark t x = u.mark (r.driver.tpDown x, none)) (got : Nat) (named : List Nat)
    (P : Prop) :
    ((∃ touching, Alternation touching ((r.after (.ok (t, got)) named).history x)) ∧
      (lastIsTouch ((r.after (.ok (t, got)) named).history x) ↔ P)) ↔
    (u.Touched ∨ u = .invalid ∧ r.driver.tpDown x = true ↔ P) := by
  have alt := inStep.after mark got named
  have last := Alternation.last alt
  rw [after_flag mark, PointUse.mark_flag] at last
  rw [last]
  exact and_iff_right ⟨_, alt⟩

theorem after_failed (r : TouchRun) (named : List Nat) :
    r.after (.ok (noSlots { r.driver with preTouch := 0 }, 0)) named =
      ⟨{ r.driver with preTouch := 0 }, r.history, r.report⟩ := by
  have silent (x : Nat) : r.history x ++ TouchBuf.returned (fun _ => none) x = r.history x :=
    List.append_nil _
  simp only [TouchRun.after, noSlots, silent, if_true]

end After

end NuMakerMA35
