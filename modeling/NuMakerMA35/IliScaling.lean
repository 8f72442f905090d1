import NuMakerMA35.TouchRuns

namespace NuMakerMA35

def iliGetScrnRes (ts : IliTsData) (outbuf : Nat → BitVec 8) : IliTsData :=
  { ts with
    screenMinX := (pointWord outbuf 0).toNat
    screenMinY := (pointWord outbuf 2).toNat
    screenMaxX := (pointWord outbuf 4).toNat
    screenMaxY := (pointWord outbuf 6).toNat }

def iliTurn (ts : IliTsData) (bus : IliBus) : TouchState → Nat → Touch TouchState :=
  if ts.mcuVer = 0x2511 then iliSlot ts (iliBuf2511 bus) else iliPoint ts (iliBuf bus)

def iliId (ts : IliTsData) (bus : IliBus) (i : Nat) : Nat :=
  if ts.mcuVer = 0x2511 then i else iliPointId (iliBuf bus) i

def iliReported (ts : IliTsData) (s : Ili) (bus : IliBus) (i : Nat) :
    Option (BitVec 16 × BitVec 16) :=
  match (iliTurn ts bus (noSlots s) i []).1 with
  | .error _ => none
  | .ok r => (r.2 (iliId ts bus i)).bind fun d =>
    if d.event = .down ∨ d.event = .move then some (d.xCoordinate, d.yCoordinate) else none

def iliTip (ts : IliTsData) (bus : IliBus) (i : Nat) : Bool :=
  if ts.mcuVer = 0x2511 then iliBuf2511 bus (1 + i * 5) &&& 0x80 != 0
  else iliBuf bus (i * 5 + 1) &&& 0x40 != 0

def iliRawX (ts : IliTsData) (bus : IliBus) (i : Nat) : BitVec 16 :=
  if ts.mcuVer = 0x2511 then
    ((iliBuf2511 bus (1 + i * 5) &&& 0x3f).setWidth 16 <<< 8) |||
      (iliBuf2511 bus (1 + i * 5 + 1)).setWidth 16
  else pointWord (iliBuf bus) (i * 5 + 2)

def iliRawY (ts : IliTsData) (bus : IliBus) (i : Nat) : BitVec 16 :=
  if ts.mcuVer = 0x2511 then
    ((iliBuf2511 bus (1 + i * 5 + 2)).setWidth 16 <<< 8) |||
      (iliBuf2511 bus (1 + i * 5 + 3)).setWidth 16
  else pointWord (iliBuf bus) (i * 5 + 4)

/-- What is asked of a coordinate `w` that is reported for `v`: the divisor is not 0, product and
quotient fit their words, the coordinate is below the range, and 0 for the panel's minimum. -/
structure AxisRight (range : U32) (lowest highest : Nat) (v w : BitVec 16) : Prop where
  divisor : highest ≠ 0
  product : range.toNat * v.toNat < 2 ^ 32
  quotient : w.toNat = range.toNat * v.toNat / highest
  inRange : w.toNat < range.toNat
  origin : v.toNat = lowest → w = 0

/-- A coordinate below the panel's maximum, with a product that is a 16-bit quotient, and where it
is the minimum itself one that rounds to 0. -/
def AxisFits (range : U32) (lowest highest : Nat) (v : BitVec 16) : Prop :=
  (0 < range.toNat ∧ v.toNat < highest) ∧ range.toNat * v.toNat < 2 ^ 16 * highest ∧
    (v.toNat = lowest → range.toNat * v.toNat < highest)

section Axis

variable {range : U32} {lowest highest : Nat} {v w : BitVec 16}

theorem iliScale_toNat (small : highest < 2 ^ 16) (range : U32) (v : BitVec 16) :
    (iliScale range v highest).toNat =
      range.toNat * v.toNat % 2 ^ 32 / highest % 2 ^ 16 := by
  have divisor : highest % 2 ^ 32 = highest := Nat.mod_eq_of_lt (by omega)
  have factor : v.toNat % 2 ^ 32 = v.toNat := Nat.mod_eq_of_lt (by omega)
  unfold iliScale
  rw [BitVec.toNat_setWidth, BitVec.toNat_udiv, BitVec.toNat_mul, BitVec.toNat_setWidth,
    BitVec.toNat_ofNat, divisor, factor]

theorem axis_right_iff (small : highest < 2 ^ 16) (range : U32) (lowest : Nat) (v : BitVec 16) :
    AxisRight range lowest highest v (iliScale range v highest) ↔
      AxisFits range lowest highest v := by
  constructor
  · rintro ⟨divisor, product, quotient, inRange, origin⟩
    have positive : 0 < highest := Nat.pos_of_ne_zero divisor
    have fits : range.toNat * v.toNat / highest < 2 ^ 16 :=
      quotient ▸ (iliScale range v highest).isLt
    rw [quotient] at inRange
    have below : v.toNat < highest := by
      by_contra above
      have all : range.toNat ≤ range.toNat * v.toNat / highest := by
        rw [Nat.le_div_iff_mul_le positive]
        exact Nat.mul_le_mul_left _ (Nat.le_of_not_lt above)
      omega
    refine ⟨⟨Nat.zero_lt_of_lt inRange, below⟩, (Nat.div_lt_iff_lt_mul positive).mp fits, ?_⟩
    intro edge
    have zero := quotient.symm.trans (congrArg BitVec.toNat (origin edge))
    exact (Nat.div_eq_zero_iff_lt positive).mp zero
  · rintro ⟨⟨some_, below⟩, fits, edge⟩
    have positive : 0 < highest := Nat.zero_lt_of_lt below
    have product : range.toNat * v.toNat < 2 ^ 32 := by omega
    have quotient : (iliScale range v highest).toNat = range.toNat * v.toNat / highest := by
      rw [iliScale_toNat small, Nat.mod_eq_of_lt product]
      exact Nat.mod_eq_of_lt ((Nat.div_lt_iff_lt_mul positive).mpr fits)
    refine ⟨Nat.ne_of_gt positive, product, quotient, ?_, ?_⟩
    · rw [quotient, Nat.div_lt_iff_lt_mul positive]
      exact Nat.mul_lt_mul_of_pos_left below some_
    · intro lowestOne
      apply BitVec.eq_of_toNat_eq
      rw [quotient, Nat.div_eq_of_lt (edge lowestOne)]
      rfl

theorem AxisRight.mono {v' w' : BitVec 16} (right : AxisRight range lowest highest v w)
    (right' : AxisRight range lowest highest v' w') (order : v.toNat ≤ v'.toNat) :
    w.toNat ≤ w'.toNat := by
  rw [right.quotient, right'.quotient]
  exact Nat.div_le_div_right (Nat.mul_le_mul_left _ order)

end Axis

def IliTsData.use (ts : IliTsData) (x y : BitVec 16) : PointUse :=
  if ts.Outside x y then .invalid
  else .down (iliScale ts.rangeX x ts.screenMaxX) (iliScale ts.rangeY y ts.screenMaxY) 255

section Turn

variable (ts : IliTsData) (bus : IliBus) (r : TouchState) (i : Nat)

theorem iliDown_put (id : Nat) (x y : BitVec 16) (log : List TouchAccess) :
    (iliDown ts r id x y log).1 = .ok (TouchPoint.put ⟨id, ts.use x y⟩ r) := by
  unfold iliDown IliTsData.use
  by_cases outside : ts.Outside x y
  · rw [if_pos outside, if_pos outside]
    rfl
  · rw [if_neg outside, if_neg outside]
    rfl

def iliPointUse : PointUse :=
  if iliTip ts bus i = true then ts.use (iliRawX ts bus i) (iliRawY ts bus i) else .up

theorem iliTurn_put : ∃ pre, (iliTurn ts bus r i []).1 =
    .ok (TouchPoint.put ⟨iliId ts bus i, iliPointUse ts bus i⟩
      ({ r.1 with preId := pre }, r.2)) := by
  unfold iliTurn iliId iliPointUse iliTip iliRawX iliRawY
  by_cases mcu : ts.mcuVer = 0x2511
  · refine ⟨r.1.preId, ?_⟩
    simp only [if_pos mcu]
    unfold iliSlot
    by_cases up : iliBuf2511 bus (1 + i * 5) &&& 0x80 = 0
    · simp only [up, if_true, bne_self_eq_false, Bool.false_eq_true, if_false]
      rfl
    · simp only [up, if_false, bne_iff_ne, ne_eq, not_false_eq_true, if_true]
      exact iliDown_put ts r i _ _ _
  · refine ⟨Function.update r.1.preId i (some (iliPointId (iliBuf bus) i)), ?_⟩
    simp only [if_neg mcu]
    unfold iliPoint
    by_cases up : iliBuf bus (i * 5 + 1) &&& 0x40 = 0
    · simp only [up, if_true, bne_self_eq_false, Bool.false_eq_true, if_false]
      rfl
    · simp only [up, if_false, bne_iff_ne, ne_eq, not_false_eq_true, if_true]
      exact iliDown_put ts (setPreId r i (some (iliPointId (iliBuf bus) i))) _ _ _ _

theorem iliReported_eq (s : Ili) : iliReported ts s bus i =
    if iliTip ts bus i = true ∧ ¬ts.Outside (iliRawX ts bus i) (iliRawY ts bus i) then
      some (iliScale ts.rangeX (iliRawX ts bus i) ts.screenMaxX,
        iliScale ts.rangeY (iliRawY ts bus i) ts.screenMaxY)
    else none := by
  obtain ⟨pre, put⟩ := iliTurn_put ts bus (noSlots s) i
  unfold iliReported
  simp only [put]
  unfold TouchPoint.put iliPointUse IliTsData.use
  by_cases tip : iliTip ts bus i = true
  · by_cases outside : ts.Outside (iliRawX ts bus i) (iliRawY ts bus i)
    · simp [tip, outside, noSlots]
    · simp only [tip, outside, if_true, if_false, not_false_eq_true, and_self, gt911TouchDown,
        Function.update_self, Option.bind_some]
      cases down : s.tpDown (iliId ts bus i) <;> simp [noSlots, down]
  · simp only [tip, Bool.false_eq_true, false_and, if_false, gt911TouchUp, Function.update_self,
      Option.bind_some]
    cases down : s.tpDown (iliId ts bus i) <;> simp [noSlots, down]

end Turn

def IliTsData.PositionRight (ts : IliTsData) (bus : IliBus) (i : Nat) (x y : BitVec 16) : Prop :=
  AxisRight ts.rangeX ts.screenMinX ts.screenMaxX (iliRawX ts bus i) x ∧
    AxisRight ts.rangeY ts.screenMinY ts.screenMaxY (iliRawY ts bus i) y

/-- What is asked of point `i` of one report and point `j` of another: right positions, in the
order of the positions on the panel. -/
structure IliTsData.ScalesRight (ts : IliTsData) (s : Ili) (bus bus' : IliBus) (i j : Nat) :
    Prop where
  first : ∀ x y, iliReported ts s bus i = some (x, y) → ts.PositionRight bus i x y
  second : ∀ x y, iliReported ts s bus' j = some (x, y) → ts.PositionRight bus' j x y
  monotone : ∀ x y x' y', iliReported ts s bus i = some (x, y) →
    iliReported ts s bus' j = some (x', y') →
      ((iliRawX ts bus i).toNat ≤ (iliRawX ts bus' j).toNat → x.toNat ≤ x'.toNat) ∧
        ((iliRawY ts bus i).toNat ≤ (iliRawY ts bus' j).toNat → y.toNat ≤ y'.toNat)

/-- A point that is touched, and on the panel, has coordinates that fit. -/
def IliTsData.PointFits (ts : IliTsData) (bus : IliBus) (i : Nat) : Prop :=
  iliTip ts bus i = true → ¬ts.Outside (iliRawX ts bus i) (iliRawY ts bus i) →
    AxisFits ts.rangeX ts.screenMinX ts.screenMaxX (iliRawX ts bus i) ∧
      AxisFits ts.rangeY ts.screenMinY ts.screenMaxY (iliRawY ts bus i)

theorem position_right_iff {ts : IliTsData} (smallX : ts.screenMaxX < 2 ^ 16)
    (smallY : ts.screenMaxY < 2 ^ 16) (s : Ili) (bus : IliBus) (i : Nat) :
    (∀ x y, iliReported ts s bus i = some (x, y) → ts.PositionRight bus i x y) ↔
      ts.PointFits bus i := by
  have fitsX := axis_right_iff smallX ts.rangeX ts.screenMinX (iliRawX ts bus i)
  have fitsY := axis_right_iff smallY ts.rangeY ts.screenMinY (iliRawY ts bus i)
  rw [iliReported_eq]
  unfold IliTsData.PositionRight IliTsData.PointFits
  by_cases shown : iliTip ts bus i = true ∧ ¬ts.Outside (iliRawX ts bus i) (iliRawY ts bus i)
  · rw [if_pos shown, ← fitsX, ← fitsY]
    constructor
    · intro right _ _
      exact right _ _ rfl
    · intro right x y same
      cases same
      exact right shown.1 shown.2
  · rw [if_neg shown]
    refine iff_of_true (fun x y none => nomatch none) ?_
    intro tip inside
    exact absurd ⟨tip, inside⟩ shown

/-- For every information block, range and pair of points of either protocol. -/
theorem ili_scales_right_iff (ts : IliTsData) (outbuf : Nat → BitVec 8) (s : Ili)
    (bus bus' : IliBus) (i j : Nat) :
    (iliGetScrnRes ts outbuf).ScalesRight s bus bus' i j ↔
      (iliGetScrnRes ts outbuf).PointFits bus i ∧ (iliGetScrnRes ts outbuf).PointFits bus' j := by
  have smallX : (iliGetScrnRes ts outbuf).screenMaxX < 2 ^ 16 := (pointWord outbuf 4).isLt
  have smallY : (iliGetScrnRes ts outbuf).screenMaxY < 2 ^ 16 := (pointWord outbuf 6).isLt
  rw [← position_right_iff smallX smallY s bus i, ← position_right_iff smallX smallY s bus' j]
  constructor
  · intro right
    exact ⟨right.first, right.second⟩
  · rintro ⟨first, second⟩
    refine ⟨first, second, ?_⟩
    intro x y x' y' shown shown'
    obtain ⟨rightX, rightY⟩ := first x y shown
    obtain ⟨rightX', rightY'⟩ := second x' y' shown'
    exact ⟨rightX.mono rightX', rightY.mono rightY'⟩

def iliPanel : IliTsData :=
  iliGetScrnRes ⟨0x2511, 0, 0, 0, 0, 5, 480, 272⟩ fun k =>
    if k = 4 then 0xdf else if k = 5 ∨ k = 7 then 1 else if k = 6 then 0x0f else 0

theorem ili_edge_touch_out_of_range :
    ¬iliPanel.ScalesRight .init
      (fun _ => some fun k => if k = 0 then 1 else if k = 1 then 0x81 else if k = 2 then 0xdf else 0)
      (fun _ => none) 0 0 := by
  intro right
  have edge := right.first 480 0 (by decide)
  exact absurd edge.1.inRange (by decide)

end NuMakerMA35
