import NuMakerMA35.TouchPoints
import NuMakerMA35.TouchSafety

namespace NuMakerMA35

/-- When a read of the GT911 is in range: what is fetched fits `read_buf` and has all that is
decoded, and the ids of the points, and of those lifted off, have a place in the tables and in
the caller's buffer. -/
def Gt911Bus.Fits (s : Gt911) (bus : Gt911Bus) (readNum : Nat) : Prop :=
  ∀ pointStatus, bus.status = some pointStatus → pointStatus &&& 0x80 ≠ 0 →
    (pointStatus &&& 0x0f).toNat ≤ gt911MaxTouch →
    readNum * gt911PointInfoNum % 256 ≤ 8 * gt911MaxTouch ∧
    (bus.pointsRead = true →
      (pointStatus &&& 0x0f).toNat * 8 ≤ readNum * gt911PointInfoNum % 256 + 1 ∧
      (∀ i < (pointStatus &&& 0x0f).toNat,
        pointId bus.points i < gt911MaxTouch ∧ pointId bus.points i < readNum) ∧
      LiftFits (gt911Sizes readNum) s
        ((List.range (pointStatus &&& 0x0f).toNat).map (pointId bus.points))
        (pointStatus &&& 0x0f).toNat)

def Gt911PointSafe (size : TouchSizes) (bytes : Set Nat) (readBuf : Nat → BitVec 8) (i : Nat) :
    Prop :=
  (TouchAccess.decode (i * 8) 1).InRange size bytes ∧ i < size.tables ∧
    (TouchAccess.decode (i * 8 + 1) 6).InRange size bytes ∧
    pointId readBuf i < size.tables ∧ pointId readBuf i < size.slots

section

variable {size : TouchSizes} {bytes : Set Nat} {r : TouchState}

theorem decode_iff {offset n len : Nat} (positive : 0 < n) (room : len ≤ size.buf) :
    (TouchAccess.decode offset n).InRange size (TouchAccess.fetched ∅ (.fetch 0 len true)) ↔
      offset + n ≤ len := by
  have fetched (k : Nat) : k ∈ TouchAccess.fetched ∅ (.fetch 0 len true) ↔ k < len := by
    simp [TouchAccess.fetched]
  simp only [TouchAccess.InRange, fetched]
  constructor
  · rintro ⟨-, all⟩
    have last := all (offset + n - 1) (by omega) (by omega)
    omega
  · intro inside
    exact ⟨by omega, fun k _ below => by omega⟩

theorem touches_gt911Point (readBuf : Nat → BitVec 8) (i : Nat) :
    Touches size bytes bytes (gt911Point readBuf r i) (putDown readBuf r i)
      (Gt911PointSafe size bytes readBuf i) :=
  touches_then (.decode (i * 8) 1) (touches_then (.preId i)
    (touches_then (.decode (i * 8 + 1) 6) (touches_down _ _ _ _)))

theorem touches_gt911Points (s : Gt911) (readBuf : Nat → BitVec 8) (touchNum readNum : Nat) :
    Touches (gt911Sizes readNum) bytes bytes
      (do
        let r ← touchLift (· * 8) (fun j => some (pointId readBuf j)) touchNum (noSlots s)
        let r ← (List.range touchNum).foldlM (gt911Point readBuf) r
        pure (({ r.1 with preTouch := touchNum }, r.2), readNum))
      (gt911Points s readBuf touchNum, readNum)
      (LiftFits (gt911Sizes readNum) s ((List.range touchNum).map (pointId readBuf)) touchNum ∧
        ∀ i < touchNum, Gt911PointSafe (gt911Sizes readNum) bytes readBuf i) := by
  have ids : ((List.range touchNum).filterMap fun j => some (pointId readBuf j)) =
      (List.range touchNum).map (pointId readBuf) := congrFun List.filterMap_eq_map' _
  dsimp only [gt911Points]
  rw [← ids]
  exact touches_points rfl (fun _ => touches_gt911Point readBuf) (fun _ safe => safe.1) touchNum
    touchNum readNum

theorem gt911ReadBuf_id {len j : Nat} (points : Nat → BitVec 8) (fetched : j * 8 < len) :
    pointId (gt911ReadBuf len points) j = pointId points j := by
  unfold pointId gt911ReadBuf
  rw [if_pos fetched]

end

theorem gt911_points_iff {s : Gt911} {points : Nat → BitVec 8} {touchNum len readNum : Nat}
    (few : touchNum ≤ gt911MaxTouch) (room : len ≤ 8 * gt911MaxTouch) :
    (LiftFits (gt911Sizes readNum) s
        ((List.range touchNum).map (pointId (gt911ReadBuf len points))) touchNum ∧
      ∀ i < touchNum, Gt911PointSafe (gt911Sizes readNum)
        (TouchAccess.fetched ∅ (.fetch 0 len true)) (gt911ReadBuf len points) i) ↔
    touchNum * 8 ≤ len + 1 ∧
      (∀ i < touchNum, pointId points i < gt911MaxTouch ∧ pointId points i < readNum) ∧
      LiftFits (gt911Sizes readNum) s ((List.range touchNum).map (pointId points)) touchNum := by
  have id_decode (i : Nat) : (TouchAccess.decode (i * 8) 1).InRange (gt911Sizes readNum)
      (TouchAccess.fetched ∅ (.fetch 0 len true)) ↔ i * 8 + 1 ≤ len :=
    decode_iff (by omega) room
  have rest_decode (i : Nat) : (TouchAccess.decode (i * 8 + 1) 6).InRange (gt911Sizes readNum)
      (TouchAccess.fetched ∅ (.fetch 0 len true)) ↔ i * 8 + 1 + 6 ≤ len :=
    decode_iff (by omega) room
  have sameIds (enough : touchNum * 8 ≤ len + 1) {i : Nat} (below : i < touchNum) :
      pointId (gt911ReadBuf len points) i = pointId points i :=
    gt911ReadBuf_id points (by omega)
  have sameList (enough : touchNum * 8 ≤ len + 1) :
      (List.range touchNum).map (pointId (gt911ReadBuf len points)) =
        (List.range touchNum).map (pointId points) :=
    List.map_congr_left fun j below => sameIds enough (List.mem_range.mp below)
  simp only [Gt911PointSafe, id_decode, rest_decode]
  constructor
  · rintro ⟨lifted, all⟩
    have enough : touchNum * 8 ≤ len + 1 := by
      rcases Nat.eq_zero_or_pos touchNum with none | some_
      · omega
      · have last := (all (touchNum - 1) (by omega)).2.2.1
        omega
    rw [sameList enough] at lifted
    refine ⟨enough, fun i below => ?_, lifted⟩
    rw [← sameIds enough below]
    exact (all i below).2.2.2
  · rintro ⟨enough, ids, lifted⟩
    rw [sameList enough]
    refine ⟨lifted, fun i below => ?_⟩
    rw [sameIds enough below]
    exact ⟨by omega, Nat.lt_of_lt_of_le below few, by omega, ids i below⟩

theorem touches_gt911 (s : Gt911) (bus : Gt911Bus) (readNum : Nat) :
    ∃ bytes, Touches (gt911Sizes readNum) ∅ bytes (gt911ReadPointAt s bus readNum)
      (gt911ReadPoint s bus readNum) (bus.Fits s readNum) := by
  have nothing : Touches (gt911Sizes readNum) ∅ ∅
      (pure (noSlots s, 0) : Touch (TouchState × Nat)) (noSlots s, 0) True := .pure
  unfold gt911ReadPointAt gt911ReadPoint Gt911Bus.Fits
  cases bus.status with
  | none => exact ⟨∅, nothing.congr (by simp)⟩
  | some pointStatus =>
    simp only [Option.some.injEq, forall_eq']
    by_cases zero : pointStatus = 0
    · simp only [if_pos zero]
      refine ⟨∅, nothing.congr (iff_of_true trivial ?_)⟩
      intro ready
      exact absurd (by rw [zero]; rfl) ready
    by_cases busy : pointStatus &&& 0x80 = 0
    · simp only [if_neg zero, if_pos busy]
      refine ⟨∅, nothing.congr (iff_of_true trivial ?_)⟩
      intro ready
      exact absurd busy ready
    by_cases many : gt911MaxTouch < (pointStatus &&& 0x0f).toNat
    · simp only [if_neg zero, if_neg busy, if_pos many]
      refine ⟨∅, nothing.congr (iff_of_true trivial ?_)⟩
      intro _ few
      exact absurd few (by omega)
    simp only [if_neg zero, if_neg busy, if_neg many]
    have few := Nat.le_of_not_lt many
    cases bus.pointsRead with
    | false =>
      refine ⟨_, (touches_then _ .pure).congr ?_⟩
      simp only [TouchAccess.InRange, gt911Sizes, busy, not_false_eq_true, ne_eq,
        Nat.le_of_not_lt many, true_imp_iff, Nat.zero_add, and_true, Bool.false_eq_true,
        false_imp_iff]
    | true =>
      refine ⟨_, (touches_then _ (touches_gt911Points s _ _ readNum)).congr ?_⟩
      simp only [TouchAccess.InRange, gt911Sizes, Nat.zero_add, ne_eq, busy, not_false_eq_true, few,
        true_imp_iff]
      exact and_congr_right fun room => gt911_points_iff few room

/-- A point of the FT5446 that is reported: a press or contact outside of the panel is not. -/
def Ft5446Bus.Reported (bus : Ft5446Bus) (regs : Nat → BitVec 8) (i : Nat) : Prop :=
  regs (ftPoint i) >>> 6 = 0 ∨ regs (ftPoint i) >>> 6 = 2 →
    ((ftCoordinate regs (ftPoint i)).toNat : Int) < bus.rangeX ∧
      ((ftCoordinate regs (ftPoint i + 2)).toNat : Int) < bus.rangeY

def Ft5446Bus.Fits (s : Ft5446) (bus : Ft5446Bus) (readNum : Nat) : Prop :=
  0 < readNum → readNum ≤ ftMaxTouch → ∀ regs, bus.regs = some regs →
    (regs 2 &&& 0x0f).toNat ≤ ftMaxTouch →
    LiftFits (ft5446Sizes readNum) s
        ((List.range (regs 2 &&& 0x0f).toNat).filterMap (ftTouchId regs)) (regs 2 &&& 0x0f).toNat ∧
      ∀ i < (regs 2 &&& 0x0f).toNat, ∀ id, ftTouchId regs i = some id → bus.Reported regs i →
        id < ftMaxTouch ∧ id < readNum

def Ft5446Bus.PointSafe (bus : Ft5446Bus) (size : TouchSizes) (bytes : Set Nat)
    (regs : Nat → BitVec 8) (i : Nat) : Prop :=
  (TouchAccess.decode (ftPoint i) 1).InRange size bytes ∧
    (TouchAccess.decode (ftPoint i + 2) 1).InRange size bytes ∧
    ∀ id, ftTouchId regs i = some id → i < size.tables ∧
      (regs (ftPoint i) >>> 6 = 0 ∨ regs (ftPoint i) >>> 6 = 2 →
        (TouchAccess.decode (ftPoint i) 5).InRange size bytes) ∧
      (bus.Reported regs i → id < size.tables ∧ id < size.slots)

def ftUse (bus : Ft5446Bus) (regs : Nat → BitVec 8) (i : Nat) : PointUse :=
  if regs (ftPoint i) >>> 6 = 0 ∨ regs (ftPoint i) >>> 6 = 2 then
    positionUse bus.rangeX bus.rangeY (ftCoordinate regs (ftPoint i))
      (ftCoordinate regs (ftPoint i + 2)) ((regs (ftPoint i + 4)).setWidth 16)
  else .up

def ftPoints (bus : Ft5446Bus) (regs : Nat → BitVec 8) (i : Nat) : Option TouchPoint :=
  (ftTouchId regs i).map fun id => ⟨id, ftUse bus regs i⟩

def ftStatus (regs : Nat → BitVec 8) : Nat := (regs 2 &&& 0x0f).toNat

def ftIds (regs : Nat → BitVec 8) : List Nat :=
  (List.range (ftStatus regs)).filterMap (ftTouchId regs)

def ftLift (regs : Nat → BitVec 8) (r : TouchState) : TouchState :=
  if ftStatus regs < r.1.preTouch then (List.range gt911MaxTouch).foldl (scanUp (ftIds regs)) r
  else r

/-- What `ft5446ReadPoint` returns, the accesses apart. -/
def ft5446Read (s : Ft5446) (bus : Ft5446Bus) (readNum : Nat) : TouchState × Nat :=
  match bus.regs with
  | none => (noSlots { s with preTouch := 0 }, 0)
  | some regs =>
    if ftMaxTouch < ftStatus regs then (noSlots { s with preTouch := 0 }, 0)
    else (putPoints (ftPoints bus regs) (ftStatus regs) (ftLift regs (noSlots s)), readNum)

theorem touches_ft5446Point (size : TouchSizes) (bytes : Set Nat) (regs : Nat → BitVec 8)
    (bus : Ft5446Bus) (r : TouchState) (i : Nat) :
    Touches size bytes bytes (ft5446Point regs bus r i) (putPoint (ftPoints bus regs) r i)
      (bus.PointSafe size bytes regs i) := by
  unfold ft5446Point Ft5446Bus.PointSafe Ft5446Bus.Reported
  cases named : ftTouchId regs i with
  | none =>
    have same : putPoint (ftPoints bus regs) r i = r := putPoint_unnamed (by rw [ftPoints, named]; rfl)
    rw [same]
    refine (touches_then _ (touches_then _ .pure)).congr ?_
    simp [TouchAccess.fetched]
  | some id =>
    have point : putPoint (ftPoints bus regs) r i =
        TouchPoint.put ⟨id, ftUse bus regs i⟩ (setPreId r i (some id)) :=
      putPoint_named (by rw [ftPoints, named]; rfl)
    rw [point]
    unfold ftUse positionUse
    simp only [Option.some.injEq, forall_eq']
    by_cases pressed : regs (ftPoint i) >>> 6 = 0 ∨ regs (ftPoint i) >>> 6 = 2
    · simp only [pressed, if_true, true_imp_iff]
      by_cases outside : bus.rangeX ≤ (ftCoordinate regs (ftPoint i)).toNat ∨
          bus.rangeY ≤ (ftCoordinate regs (ftPoint i + 2)).toNat
      · simp only [outside, if_true]
        have unreported : ¬(((ftCoordinate regs (ftPoint i)).toNat : Int) < bus.rangeX ∧
            ((ftCoordinate regs (ftPoint i + 2)).toNat : Int) < bus.rangeY) := by omega
        refine (touches_then _ (touches_then _ (touches_then (.preId i)
          (touches_then _ .pure)))).congr ?_
        simp only [unreported, false_imp_iff, and_true]
        rfl
      · simp only [outside, if_false]
        have reported : ((ftCoordinate regs (ftPoint i)).toNat : Int) < bus.rangeX ∧
            ((ftCoordinate regs (ftPoint i + 2)).toNat : Int) < bus.rangeY := by omega
        refine (touches_then _ (touches_then _ (touches_then (.preId i)
          (touches_then _ (touches_down _ _ _ _))))).congr ?_
        simp only [reported, and_self, true_imp_iff]
        rfl
    · simp only [pressed, if_false, false_imp_iff, true_imp_iff, true_and]
      exact touches_then _ (touches_then _ (touches_then (.preId i) (touches_up _)))

theorem ft5446_point_iff {bus : Ft5446Bus} {regs : Nat → BitVec 8} {readNum i : Nat}
    (few : i < ftMaxTouch) :
    bus.PointSafe (ft5446Sizes readNum) (TouchAccess.fetched ∅ (.fetch 0 ftRegMapSize true)) regs i ↔
      ∀ id, ftTouchId regs i = some id → bus.Reported regs i → id < ftMaxTouch ∧ id < readNum := by
  have decoded {k n : Nat} (positive : 0 < n) (inside : k + n ≤ 6) :
      (TouchAccess.decode (ftPoint i + k) n).InRange (ft5446Sizes readNum)
        (TouchAccess.fetched ∅ (.fetch 0 ftRegMapSize true)) := by
    refine (decode_iff positive (Nat.le_refl _)).mpr ?_
    have below : i < 5 := few
    show 3 + 6 * i + k + n ≤ 33
    omega
  unfold Ft5446Bus.PointSafe
  constructor
  · rintro ⟨-, -, all⟩ id named
    exact (all id named).2.2
  · intro all
    refine ⟨decoded (k := 0) (by omega) (by omega), decoded (by omega) (by omega), ?_⟩
    intro id named
    exact ⟨few, fun _ => decoded (k := 0) (by omega) (by omega), all id named⟩

theorem touches_ft5446 (s : Ft5446) (bus : Ft5446Bus) {readNum : Nat} (some_ : 0 < readNum)
    (few : readNum ≤ ftMaxTouch) :
    ∃ bytes, Touches (ft5446Sizes readNum) ∅ bytes (ft5446ReadPoint s bus readNum)
      (ft5446Read s bus readNum) (bus.Fits s readNum) := by
  have accepted : ¬(readNum = 0 ∨ ftMaxTouch < readNum) := by omega
  unfold ft5446ReadPoint ft5446Read Ft5446Bus.Fits
  simp only [accepted, if_false, some_, few, true_imp_iff]
  cases bus.regs with
  | none =>
    refine ⟨_, (touches_then _ .pure).congr ?_⟩
    simp [TouchAccess.InRange, ft5446Sizes]
  | some regs =>
    simp only [Option.some.injEq, forall_eq', Option.isSome_some]
    have status : (TouchAccess.decode 2 1).InRange (ft5446Sizes readNum)
        (TouchAccess.fetched ∅ (.fetch 0 ftRegMapSize true)) :=
      (decode_iff (by omega) (Nat.le_refl _)).mpr (show 2 + 1 ≤ 33 by omega)
    have fetched : (TouchAccess.fetch 0 ftRegMapSize true).InRange (ft5446Sizes readNum) ∅ :=
      Nat.le_of_eq (Nat.zero_add _)
    by_cases many : ftMaxTouch < (regs 2 &&& 0x0f).toNat
    · have manyStatus : ftMaxTouch < ftStatus regs := many
      simp only [many, manyStatus, if_true]
      refine ⟨_, (touches_then _ (touches_then _ .pure)).congr (iff_of_true ⟨fetched, status, trivial⟩ ?_)⟩
      intro fits
      exact absurd many (by omega)
    · have fewStatus : ¬ftMaxTouch < ftStatus regs := many
      simp only [many, fewStatus, if_false]
      refine ⟨_, (touches_then _ (touches_then _
        (touches_points rfl (touches_ft5446Point (ft5446Sizes readNum)
          (TouchAccess.fetched ∅ (.fetch 0 ftRegMapSize true)) regs bus)
          (fun _ safe => safe.2.1) _ _ readNum))).congr ?_⟩
      rw [and_iff_right fetched, and_iff_right status]
      simp only [Nat.le_of_not_lt many, true_imp_iff]
      refine and_congr_right' (forall_congr' fun i => imp_congr_right fun below => ?_)
      exact ft5446_point_iff (by omega)

end NuMakerMA35
