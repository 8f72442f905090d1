import NuMakerMA35.BitUtil
import NuMakerMA35.Gt911
import NuMakerMA35.Logged
import Mathlib.Data.Set.Basic

namespace NuMakerMA35

inductive TouchAccess where
  | fetch (offset len : Nat) (done : Bool)
  | decode (offset len : Nat)
  | preId (i : Nat)
  | perId (id : Nat)
  | slot (id : Nat)
  deriving DecidableEq, Repr

/-- The sizes of the receive buffer, of the driver's tables and of the caller's buffer. -/
structure TouchSizes where
  buf : Nat
  tables : Nat
  slots : Nat

/-- The bytes of the receive buffer that came from the bus. -/
def TouchAccess.fetched (bytes : Set Nat) : TouchAccess → Set Nat
  | fetch offset len true => bytes ∪ {k | offset ≤ k ∧ k < offset + len}
  | _ => bytes

def TouchAccess.InRange (size : TouchSizes) (bytes : Set Nat) : TouchAccess → Prop
  | fetch offset len _ => offset + len ≤ size.buf
  | decode offset len =>
    offset + len ≤ size.buf ∧ ∀ k, offset ≤ k → k < offset + len → k ∈ bytes
  | preId i => i < size.tables
  | perId id => id < size.tables
  | slot id => id < size.slots

inductive TouchFault where
  | asserted
  deriving DecidableEq, Repr

abbrev Touch (α : Type) := Logged TouchFault TouchAccess α

def access (c : TouchAccess) : Touch Unit := Logged.issue c fun _ => ()

abbrev TouchState := Gt911 × TouchBuf

def noSlots (s : Gt911) : TouchState := (s, fun _ => none)

/-- `gt911_touch_up`, and with other names `ft5446_touch_up` and `ili_touch_up`. -/
def touchUp (r : TouchState) (id : Nat) : Touch TouchState := do
  access (.perId id)
  access (.slot id)
  pure (gt911TouchUp r.1 r.2 id)

def touchDown (r : TouchState) (id : Nat) (x y w : BitVec 16) : Touch TouchState := do
  access (.perId id)
  access (.slot id)
  pure (gt911TouchDown r.1 r.2 id x y w)

def setPreId (r : TouchState) (i : Nat) (id : Option Nat) : TouchState :=
  ({ r.1 with preId := Function.update r.1.preId i id }, r.2)

/-- The inner loop of the lift-off path: whether a point `j` of the report has the id that
entry `i` holds. A point without an id is passed by. -/
def touchHolds (offset : Nat → Nat) (idOf : Nat → Option Nat) (i : Nat) (entry : Option Nat) :
    List Nat → Touch Bool
  | [] => pure false
  | j :: js => do
    access (.decode (offset j) 1)
    match idOf j with
    | none => touchHolds offset idOf i entry js
    | some id => do
      access (.preId i)
      if entry = some id then pure true else touchHolds offset idOf i entry js

def touchScan (offset : Nat → Nat) (idOf : Nat → Option Nat) (js : List Nat) (r : TouchState)
    (i : Nat) : Touch TouchState := do
  let held ← touchHolds offset idOf i (r.1.preId i) js
  if held then pure r
  else do
    access (.preId i)
    match r.1.preId i with
    | none => pure r
    | some id => do
      let r ← touchUp r id
      pure (setPreId r i none)

def gt911Point (readBuf : Nat → BitVec 8) (r : TouchState) (i : Nat) : Touch TouchState := do
  access (.decode (i * 8) 1)
  access (.preId i)
  access (.decode (i * 8 + 1) 6)
  touchDown (setPreId r i (some (pointId readBuf i))) (pointId readBuf i)
    (pointWord readBuf (i * 8 + 1)) (pointWord readBuf (i * 8 + 3)) (pointWord readBuf (i * 8 + 5))

/-- The lift-off path, taken where the report has fewer points than the one before. -/
def touchLift (offset : Nat → Nat) (idOf : Nat → Option Nat) (touchNum : Nat) (r : TouchState) :
    Touch TouchState :=
  if touchNum < r.1.preTouch then
    (List.range gt911MaxTouch).foldlM (touchScan offset idOf (List.range touchNum)) r
  else pure r

/-- `gt911_read_point` with the accesses to its arrays. -/
def gt911ReadPointAt (s : Gt911) (bus : Gt911Bus) (readNum : Nat) : Touch (TouchState × Nat) :=
  match bus.status with
  | none => pure (noSlots s, 0)
  | some pointStatus =>
    if pointStatus = 0 then pure (noSlots s, 0)
    else if pointStatus &&& 0x80 = 0 then pure (noSlots s, 0)
    else if gt911MaxTouch < (pointStatus &&& 0x0f).toNat then pure (noSlots s, 0)
    else do
      let len := readNum * gt911PointInfoNum % 256
      access (.fetch 0 len bus.pointsRead)
      if bus.pointsRead then do
        let touchNum := (pointStatus &&& 0x0f).toNat
        let readBuf := gt911ReadBuf len bus.points
        let r ← touchLift (· * 8) (fun j => some (pointId readBuf j)) touchNum (noSlots s)
        let r ← (List.range touchNum).foldlM (gt911Point readBuf) r
        pure (({ r.1 with preTouch := touchNum }, r.2), readNum)
      else pure (noSlots s, 0)

def gt911Sizes (readNum : Nat) : TouchSizes := ⟨8 * gt911MaxTouch, gt911MaxTouch, readNum⟩

def ftMaxTouch : Nat := 5

/-- The tables of `ft5446.c`, the same as those of `gt911.c`. -/
abbrev Ft5446 := Gt911

def ftPoint (i : Nat) : Nat := 3 + 6 * i

def ftRegMapSize : Nat := 3 + 6 * ftMaxTouch

/-- `u8TouchID`, unless it is the id of an invalid point. -/
def ftTouchId (regs : Nat → BitVec 8) (i : Nat) : Option Nat :=
  let touchid := (regs (ftPoint i + 2) >>> 4).toNat
  if 0x0f ≤ touchid then none else some touchid

/-- A coordinate of 12 bits, the upper four of them in the first byte. -/
def ftCoordinate (regs : Nat → BitVec 8) (k : Nat) : BitVec 16 :=
  ((regs k &&& 0x0f).setWidth 16 <<< 8) ||| (regs (k + 1)).setWidth 16

/-- The device's part of the call: what the transfer of the registers brings, if it succeeds, and
`touch->info`. -/
structure Ft5446Bus where
  regs : Option (Nat → BitVec 8)
  rangeX : Int
  rangeY : Int

def ft5446Point (regs : Nat → BitVec 8) (bus : Ft5446Bus) (r : TouchState) (i : Nat) :
    Touch TouchState := do
  access (.decode (ftPoint i) 1)
  access (.decode (ftPoint i + 2) 1)
  match ftTouchId regs i with
  | none => pure r
  | some touchid => do
    access (.preId i)
    let touchEvent := regs (ftPoint i) >>> 6
    if touchEvent = 0 ∨ touchEvent = 2 then do
      access (.decode (ftPoint i) 5)
      let x := ftCoordinate regs (ftPoint i)
      let y := ftCoordinate regs (ftPoint i + 2)
      if bus.rangeX ≤ x.toNat ∨ bus.rangeY ≤ y.toNat then pure (setPreId r i (some touchid))
      else touchDown (setPreId r i (some touchid)) touchid x y ((regs (ftPoint i + 4)).setWidth 16)
    else touchUp (setPreId r i (some touchid)) touchid

def ft5446ReadPoint (s : Ft5446) (bus : Ft5446Bus) (readNum : Nat) : Touch (TouchState × Nat) := do
  if readNum = 0 ∨ ftMaxTouch < readNum then Logged.fail .asserted
  else do
    access (.fetch 0 ftRegMapSize bus.regs.isSome)
    match bus.regs with
    | none => pure (noSlots { s with preTouch := 0 }, 0)
    | some regs => do
      access (.decode 2 1)
      let tdStatus := (regs 2 &&& 0x0f).toNat
      if ftMaxTouch < tdStatus then pure (noSlots { s with preTouch := 0 }, 0)
      else do
        let r ← touchLift (ftPoint · + 2) (ftTouchId regs) tdStatus (noSlots s)
        let r ← (List.range tdStatus).foldlM (ft5446Point regs bus) r
        pure (({ r.1 with preTouch := tdStatus }, r.2), readNum)

def ft5446Sizes (readNum : Nat) : TouchSizes := ⟨ftRegMapSize, ftMaxTouch, readNum⟩

def iliMaxTouch : Nat := 5

abbrev Ili := Gt911

/-- What `ili_read_point` reads of `struct ili_ts_data`, and of `touch->info`. -/
structure IliTsData where
  mcuVer : BitVec 16
  screenMinX : Nat
  screenMinY : Nat
  screenMaxX : Nat
  screenMaxY : Nat
  maxTp : Nat
  rangeX : U32
  rangeY : U32

/-- What the transfers of one call bring, in order, where they succeed. -/
abbrev IliBus := Nat → Option (Nat → BitVec 8)

/-- `(uint16_t)(range * v / screen_max)`; a division by zero gives 0 on this processor. -/
def iliScale (range : U32) (v : BitVec 16) (screenMax : Nat) : BitVec 16 :=
  (range * v.setWidth 32 / BitVec.ofNat 32 screenMax).setWidth 16

def IliTsData.Outside (ts : IliTsData) (x y : BitVec 16) : Prop :=
  ts.screenMaxX < x.toNat ∨ x.toNat < ts.screenMinX ∨ ts.screenMaxY < y.toNat ∨
    y.toNat < ts.screenMinY

instance (ts : IliTsData) (x y : BitVec 16) : Decidable (ts.Outside x y) :=
  inferInstanceAs (Decidable (_ ∨ _))

def iliDown (ts : IliTsData) (r : TouchState) (id : Nat) (x y : BitVec 16) : Touch TouchState :=
  if ts.Outside x y then pure r
  else touchDown r id (iliScale ts.rangeX x ts.screenMaxX) (iliScale ts.rangeY y ts.screenMaxY) 255

def iliSlot (ts : IliTsData) (tmpbuf : Nat → BitVec 8) (r : TouchState) (i : Nat) :
    Touch TouchState := do
  let offset := 1 + i * 5
  access (.decode offset 1)
  if tmpbuf offset &&& 0x80 = 0 then touchUp r i
  else do
    access (.decode offset 4)
    iliDown ts r i
      (((tmpbuf offset &&& 0x3f).setWidth 16 <<< 8) ||| (tmpbuf (offset + 1)).setWidth 16)
      (((tmpbuf (offset + 2)).setWidth 16 <<< 8) ||| (tmpbuf (offset + 3)).setWidth 16)

def iliPointId (tmpbuf : Nat → BitVec 8) (i : Nat) : Nat := (tmpbuf (i * 5 + 1) &&& 0x3f).toNat

def iliPoint (ts : IliTsData) (tmpbuf : Nat → BitVec 8) (r : TouchState) (i : Nat) :
    Touch TouchState := do
  access (.decode (i * 5 + 1) 1)
  access (.preId i)
  let r := setPreId r i (some (iliPointId tmpbuf i))
  if tmpbuf (i * 5 + 1) &&& 0x40 = 0 then touchUp r (iliPointId tmpbuf i)
  else do
    access (.decode (i * 5 + 2) 4)
    iliDown ts r (iliPointId tmpbuf i) (pointWord tmpbuf (i * 5 + 2)) (pointWord tmpbuf (i * 5 + 4))

def iliFetch (bus : IliBus) : List Nat → Touch Bool
  | [] => pure true
  | i :: is => do
    access (.fetch (i * 64) 64 (bus i).isSome)
    if (bus i).isSome then iliFetch bus is else pure false

/-- What a transfer that failed leaves in the cleared buffer is never looked at. -/
def iliBytes (bus : IliBus) (t k : Nat) : BitVec 8 := ((bus t).getD fun _ => 0) k

/-- `tmpbuf` of the MCU 0x2511: six points in the first transfer, four in the second. -/
def iliBuf2511 (bus : IliBus) (k : Nat) : BitVec 8 :=
  if k < 31 then iliBytes bus 0 k else iliBytes bus 1 (k - 31)

def iliBuf (bus : IliBus) (k : Nat) : BitVec 8 := iliBytes bus (k / 64) (k % 64)

/-- `DIV_ROUND_UP(touch_num, PKT_MAX_POINT)`; C divides towards zero. -/
def iliPackets (touchNum : Int) : Nat := ((touchNum + 9).tdiv 10).toNat

def iliRead2511 (ts : IliTsData) (s : Ili) (bus : IliBus) (readNum : Nat) :
    Touch (TouchState × Nat) := do
  let report (touchNum : Nat) : Touch (TouchState × Nat) := do
    let r ← if readNum ≤ touchNum then
        (List.range readNum).foldlM (iliSlot ts (iliBuf2511 bus)) (noSlots s)
      else pure (noSlots s)
    pure (({ r.1 with preTouch := touchNum }, r.2), readNum)
  let fail : Touch (TouchState × Nat) := pure (noSlots { s with preTouch := 0 }, 0)
  if ts.maxTp < readNum then fail
  else do
    access (.fetch 0 31 (bus 0).isSome)
    if (bus 0).isSome then do
      access (.decode 0 1)
      if iliBuf2511 bus 0 = 1 then report 6
      else if iliBuf2511 bus 0 = 2 then do
        access (.fetch 31 20 (bus 1).isSome)
        if (bus 1).isSome then report 10 else fail
      else report 0
    else fail

/-- The branch for the other MCUs. A negative count passes the check, lifts nothing, as no `j`
equals it, and has no points; `pre_touch` keeps its low byte. -/
def iliReadPackets (ts : IliTsData) (s : Ili) (bus : IliBus) (readNum : Nat) :
    Touch (TouchState × Nat) := do
  let fail : Touch (TouchState × Nat) := pure (noSlots { s with preTouch := 0 }, 0)
  access (.fetch 0 64 (bus 0).isSome)
  if (bus 0).isSome then do
    access (.decode 61 1)
    let touchNum := (iliBuf bus 61).toInt
    if (ts.maxTp : Int) < touchNum then fail
    else do
      let came ← iliFetch bus (List.range' 1 (iliPackets touchNum - 1))
      if came then do
        let r ← if touchNum < 0 then pure (noSlots s)
          else
            touchLift (· * 5 + 1) (fun j => some (iliPointId (iliBuf bus) j)) touchNum.toNat
              (noSlots s)
        let r ← (List.range touchNum.toNat).foldlM (iliPoint ts (iliBuf bus)) r
        pure (({ r.1 with preTouch := (iliBuf bus 61).toNat }, r.2), readNum)
      else fail
  else fail

def iliReadPoint (ts : IliTsData) (s : Ili) (bus : IliBus) (readNum : Nat) :
    Touch (TouchState × Nat) :=
  if readNum = 0 ∨ iliMaxTouch < readNum then Logged.fail .asserted
  else if ts.mcuVer = 0x2511 then iliRead2511 ts s bus readNum
  else iliReadPackets ts s bus readNum

def iliSizes (readNum : Nat) : TouchSizes := ⟨128, iliMaxTouch, readNum⟩

end NuMakerMA35
