import NuMakerMA35.Runs
import Mathlib.Logic.Function.Iterate
import Mathlib.Data.List.Count

namespace NuMakerMA35

def gt911MaxTouch : Nat := 5
def gt911PointInfoNum : Nat := 1

inductive TouchEvent where
  | none
  | up
  | down
  | move
  deriving DecidableEq, Repr

structure TouchData where
  event : TouchEvent
  trackId : Nat
  width : BitVec 8
  xCoordinate : BitVec 16
  yCoordinate : BitVec 16
  deriving DecidableEq, Repr

abbrev TouchBuf := Nat → Option TouchData

structure Gt911 where
  preX : Nat → BitVec 16
  preY : Nat → BitVec 16
  preW : Nat → BitVec 16
  tpDown : Nat → Bool
  preId : Nat → Option Nat
  preTouch : Nat

def Gt911.init : Gt911 where
  preX := fun _ => -1
  preY := fun _ => -1
  preW := fun _ => -1
  tpDown := fun _ => false
  preId := fun _ => none
  preTouch := 0

/-- What the controller answers: its status register and its point registers, if the bus
delivers them. -/
structure Gt911Bus where
  status : Option (BitVec 8)
  points : Nat → BitVec 8
  pointsRead : Bool

def gt911TouchUp (s : Gt911) (buf : TouchBuf) (id : Nat) : Gt911 × TouchBuf :=
  let event := if s.tpDown id then TouchEvent.up else TouchEvent.none
  ({ s with
      tpDown := Function.update s.tpDown id false
      preX := Function.update s.preX id (-1)
      preY := Function.update s.preY id (-1)
      preW := Function.update s.preW id (-1) },
    Function.update buf id (some ⟨event, id, (s.preW id).setWidth 8, s.preX id, s.preY id⟩))

def gt911TouchDown (s : Gt911) (buf : TouchBuf) (id : Nat) (x y w : BitVec 16) : Gt911 × TouchBuf :=
  let event := if s.tpDown id then TouchEvent.move else TouchEvent.down
  ({ s with
      tpDown := Function.update s.tpDown id true
      preX := Function.update s.preX id x
      preY := Function.update s.preY id y
      preW := Function.update s.preW id w },
    Function.update buf id (some ⟨event, id, w.setWidth 8, x, y⟩))

/-- `read_buf` after `len` bytes of the point registers were read into the cleared array. -/
def gt911ReadBuf (len : Nat) (points : Nat → BitVec 8) (k : Nat) : BitVec 8 :=
  if k < len then points k else 0

def pointId (readBuf : Nat → BitVec 8) (j : Nat) : Nat := (readBuf (j * 8) &&& 0x0f).toNat

def pointWord (readBuf : Nat → BitVec 8) (k : Nat) : BitVec 16 :=
  (readBuf k).setWidth 16 ||| ((readBuf (k + 1)).setWidth 16 <<< 8)

def scanUp (ids : List Nat) (r : Gt911 × TouchBuf) (i : Nat) : Gt911 × TouchBuf :=
  match r.1.preId i with
  | none => r
  | some id =>
    if id ∈ ids then r
    else
      let (s, buf) := gt911TouchUp r.1 r.2 id
      ({ s with preId := Function.update s.preId i none }, buf)

def putDown (readBuf : Nat → BitVec 8) (r : Gt911 × TouchBuf) (i : Nat) : Gt911 × TouchBuf :=
  let id := pointId readBuf i
  gt911TouchDown { r.1 with preId := Function.update r.1.preId i (some id) } r.2 id
    (pointWord readBuf (i * 8 + 1)) (pointWord readBuf (i * 8 + 3)) (pointWord readBuf (i * 8 + 5))

def gt911Points (s : Gt911) (readBuf : Nat → BitVec 8) (touchNum : Nat) : Gt911 × TouchBuf :=
  let ids := (List.range touchNum).map (pointId readBuf)
  let r := if touchNum < s.preTouch then
      (List.range gt911MaxTouch).foldl (scanUp ids) (s, fun _ => none)
    else (s, fun _ => none)
  let r := (List.range touchNum).foldl (putDown readBuf) r
  ({ r.1 with preTouch := touchNum }, r.2)

/-- `gt911_read_point`; the length of the second transfer is an `rt_uint8_t`. -/
def gt911ReadPoint (s : Gt911) (bus : Gt911Bus) (readNum : Nat) : (Gt911 × TouchBuf) × Nat :=
  let fail : (Gt911 × TouchBuf) × Nat := ((s, fun _ => none), 0)
  match bus.status with
  | none => fail
  | some pointStatus =>
    if pointStatus = 0 then fail
    else if pointStatus &&& 0x80 = 0 then fail
    else
      let touchNum := (pointStatus &&& 0x0f).toNat
      if gt911MaxTouch < touchNum then fail
      else if !bus.pointsRead then fail
      else
        let readBuf := gt911ReadBuf (readNum * gt911PointInfoNum % 256) bus.points
        (gt911Points s readBuf touchNum, readNum)

/-- What a track id shows of the tables: its flag and the event in its slot. -/
def touchMark (r : Gt911 × TouchBuf) (x : Nat) : Bool × Option TouchEvent :=
  (r.1.tpDown x, (r.2 x).map TouchData.event)

def liftMark (m : Bool × Option TouchEvent) : Bool × Option TouchEvent :=
  (false, some (if m.1 then .up else .none))

def pressMark (m : Bool × Option TouchEvent) : Bool × Option TouchEvent :=
  (true, some (if m.1 then .move else .down))

theorem touchMark_up (s : Gt911) (buf : TouchBuf) (id x : Nat) :
    touchMark (gt911TouchUp s buf id) x =
      if x = id then liftMark (touchMark (s, buf) x) else touchMark (s, buf) x := by
  split_ifs with same
  · subst same
    cases flag : s.tpDown x <;> simp [touchMark, gt911TouchUp, liftMark, flag]
  · simp [touchMark, gt911TouchUp, same]

theorem touchMark_down (s : Gt911) (buf : TouchBuf) (id x : Nat) (u v w : BitVec 16) :
    touchMark (gt911TouchDown s buf id u v w) x =
      if x = id then pressMark (touchMark (s, buf) x) else touchMark (s, buf) x := by
  split_ifs with same
  · subst same
    cases flag : s.tpDown x <;> simp [touchMark, gt911TouchDown, pressMark, flag]
  · simp [touchMark, gt911TouchDown, same]

theorem scanUp_preId_of_ne (ids : List Nat) (r : Gt911 × TouchBuf) {i k : Nat} (other : k ≠ i) :
    (scanUp ids r i).1.preId k = r.1.preId k := by
  unfold scanUp
  split
  · rfl
  · split_ifs
    · rfl
    · simp [gt911TouchUp, other]

theorem touchMark_scanUp (ids : List Nat) (r : Gt911 × TouchBuf) (i x : Nat) :
    touchMark (scanUp ids r i) x =
      if r.1.preId i = some x ∧ x ∉ ids then liftMark (touchMark r x) else touchMark r x := by
  unfold scanUp
  cases entry : r.1.preId i with
  | none => simp
  | some id =>
    have up := touchMark_up r.1 r.2 id x
    by_cases present : id ∈ ids
    · have kept : ¬(id = x ∧ x ∉ ids) := by
        rintro ⟨same, absent⟩
        exact absent (same ▸ present)
      simp only [if_pos present, Option.some.injEq]
      rw [if_neg kept]
    · by_cases same : x = id
      · subst same
        simp only [if_true] at up
        simp only [present, not_false_eq_true, and_self, if_true]
        exact up
      · simp only [same, if_false] at up
        simp only [if_neg present, Option.some.injEq, Ne.symm same, false_and, if_false]
        exact up

theorem touchMark_scan (ids : List Nat) {x : Nat} (absent : x ∉ ids) (is : List Nat) :
    ∀ r : Gt911 × TouchBuf, is.Nodup → touchMark (is.foldl (scanUp ids) r) x =
      liftMark^[is.countP fun i => r.1.preId i = some x] (touchMark r x) := by
  induction is with
  | nil =>
    intro r _
    rfl
  | cons i is ih =>
    intro r distinct
    obtain ⟨fresh, distinct⟩ := List.nodup_cons.mp distinct
    have later : (is.countP fun k => (scanUp ids r i).1.preId k = some x) =
        is.countP fun k => r.1.preId k = some x := by
      apply List.countP_congr
      intro k inside
      have other : k ≠ i := fun same => fresh (same ▸ inside)
      rw [scanUp_preId_of_ne ids r other]
    rw [List.foldl_cons, ih _ distinct, later, touchMark_scanUp, List.countP_cons]
    by_cases holds : r.1.preId i = some x
    · simp [holds, absent, Function.iterate_succ]
    · simp [holds]

theorem touchMark_scan_present (ids : List Nat) {x : Nat} (present : x ∈ ids) (is : List Nat)
    (r : Gt911 × TouchBuf) : touchMark (is.foldl (scanUp ids) r) x = touchMark r x := by
  induction is generalizing r with
  | nil => rfl
  | cons i is ih =>
    rw [List.foldl_cons, ih, touchMark_scanUp]
    simp [present]

theorem touchMark_putDown (readBuf : Nat → BitVec 8) (r : Gt911 × TouchBuf) (i x : Nat) :
    touchMark (putDown readBuf r i) x =
      if x = pointId readBuf i then pressMark (touchMark r x) else touchMark r x := by
  have down := touchMark_down { r.1 with preId := Function.update r.1.preId i (some (pointId readBuf i)) }
    r.2 (pointId readBuf i) x (pointWord readBuf (i * 8 + 1)) (pointWord readBuf (i * 8 + 3))
    (pointWord readBuf (i * 8 + 5))
  exact down

theorem touchMark_points (readBuf : Nat → BitVec 8) (x : Nat) (is : List Nat) :
    ∀ r : Gt911 × TouchBuf, touchMark (is.foldl (putDown readBuf) r) x =
      pressMark^[(is.map (pointId readBuf)).count x] (touchMark r x) := by
  induction is with
  | nil =>
    intro r
    rfl
  | cons i is ih =>
    intro r
    rw [List.foldl_cons, ih, touchMark_putDown, List.map_cons, List.count_cons]
    by_cases same : x = pointId readBuf i
    · simp [same, Function.iterate_succ]
    · simp [same, Ne.symm same]

theorem liftMark_iterate (m : Bool × Option TouchEvent) : ∀ n,
    liftMark^[n] m = if n = 0 then m
      else if n = 1 then liftMark m else (false, some .none)
  | 0 => rfl
  | 1 => rfl
  | n + 2 => by
    have twice : liftMark^[2] m = (false, some .none) := rfl
    have fixed : ∀ k, liftMark^[k] (false, some .none) = (false, some .none) := by
      intro k
      exact Function.iterate_fixed rfl k
    rw [Function.iterate_add_apply, twice, fixed]
    simp

theorem pressMark_iterate (m : Bool × Option TouchEvent) : ∀ n,
    pressMark^[n] m = if n = 0 then m
      else if n = 1 then pressMark m else (true, some .move)
  | 0 => rfl
  | 1 => rfl
  | n + 2 => by
    have twice : pressMark^[2] m = (true, some .move) := rfl
    have fixed : ∀ k, pressMark^[k] (true, some .move) = (true, some .move) := by
      intro k
      exact Function.iterate_fixed rfl k
    rw [Function.iterate_add_apply, twice, fixed]
    simp

end NuMakerMA35
