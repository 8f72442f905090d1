import NuMakerMA35.BitUtil
import NuMakerMA35.Search

namespace NuMakerMA35

/-- What an expression of C leaves undefined. -/
inductive CUndefined
  | divisionByZero
  | signedOverflow
deriving DecidableEq, Repr

def InInt (i : Int) : Prop := -2 ^ 31 ≤ i ∧ i < 2 ^ 31

instance (i : Int) : Decidable (InInt i) := inferInstanceAs (Decidable (_ ∧ _))

def mulInt (i j : Int) : Except CUndefined Int :=
  if InInt (i * j) then .ok (i * j) else .error .signedOverflow

def divU32 (a b : U32) : Except CUndefined U32 :=
  if b = 0 then .error .divisionByZero else .ok (a / b)

def modU32 (a b : U32) : Except CUndefined U32 :=
  if b = 0 then .error .divisionByZero else .ok (a % b)

def maxNominalBaudrate : U32 := 1000000

/-- From `MAX_TIME_QUANTA` down to `MIN_TIME_QUANTA`. -/
def timeQuanta : List Nat := [25, 24, 23, 22, 21, 20, 19, 18, 17, 16, 15, 14, 13, 12, 11, 10, 9, 8]

def nominalPrescalers : List Nat := List.range' 1 0x400

def dataPrescalers : List Nat := List.range' 1 0x20

structure CanfdTimeingConfigT where
  preDivider : BitVec 8
  nominalPrescaler : BitVec 16
  nominalRJumpwidth : BitVec 8
  nominalPhaseSeg1 : BitVec 8
  nominalPhaseSeg2 : BitVec 8
  nominalPropSeg : BitVec 8
  dataPrescaler : BitVec 8
  dataRJumpwidth : BitVec 8
  dataPhaseSeg1 : BitVec 8
  dataPhaseSeg2 : BitVec 8
  dataPropSeg : BitVec 8
deriving DecidableEq, Repr

/-- The time quanta before the ideal sample point; the point is an exact fraction here. -/
def beforeSample (rate : U32) (tq : Nat) : Nat :=
  if rate ≥ 1000000 then tq * 3 / 4
  else if rate ≥ 800000 then tq * 4 / 5
  else tq * 7 / 8

namespace CanfdTimeingConfigT

def getSegments (config : CanfdTimeingConfigT) (nominal data : U32) (ntq dtq : Nat) :
    CanfdTimeingConfigT :=
  let p1 := beforeSample nominal ntq
  let config := { config with
    nominalPropSeg := 0
    nominalPhaseSeg1 := BitVec.ofNat 8 (p1 - 1)
    nominalPhaseSeg2 := BitVec.ofNat 8 (ntq - p1)
    nominalRJumpwidth := BitVec.ofNat 8 ((ntq + (5 - 1)) / 5) }
  if dtq > 0 then
    let p1 := beforeSample data dtq
    { config with
      dataPropSeg := 0
      dataPhaseSeg1 := BitVec.ofNat 8 (p1 - 1)
      dataPhaseSeg2 := BitVec.ofNat 8 (dtq - p1)
      dataRJumpwidth := BitVec.ofNat 8 ((dtq + (5 - 1)) / 5) }
  else
    { config with dataPropSeg := 0, dataPhaseSeg1 := 0, dataPhaseSeg2 := 0, dataRJumpwidth := 0 }

def tryData (config : CanfdTimeingConfigT) (nominal data src : U32) (ntq dtq prescaler : Nat) :
    Except CUndefined (Option CanfdTimeingConfigT) := do
  let dclk := (data * BitVec.ofNat 32 dtq).toInt
  let dclk2 ← mulInt dclk prescaler
  let config := { config with dataPrescaler := BitVec.ofNat 8 prescaler }
  if src = BitVec.ofInt 32 dclk2 * config.preDivider.setWidth 32 then
    pure (some (config.getSegments nominal data ntq dtq))
  else
    pure none

def tryDivided (fdoe : Bool) (config : CanfdTimeingConfigT) (nominal data src : U32) (ntq : Nat) :
    Except CUndefined (Option CanfdTimeingConfigT) :=
  if fdoe then
    let data := if data = 0 then nominal else data
    if data = nominal ∧ config.nominalPrescaler ≤ 0x20 then
      let config := { config with dataPrescaler := config.nominalPrescaler.setWidth 8 }
      .ok (some (config.getSegments nominal data ntq ntq))
    else
      search (fun dtq => search (config.tryData nominal data src ntq dtq) dataPrescalers) timeQuanta
  else
    .ok (some ({ config with dataPrescaler := 0 }.getSegments nominal 0 ntq 0))

/-- Whether the clock is a multiple of the product, and the quotient, which is an `uint8_t`. -/
def preDividerOf (src nclk2 : U32) : Except CUndefined (Option (BitVec 8)) := do
  let quotient ← divU32 src nclk2
  if quotient ≤ 256 then
    let rest ← modU32 src nclk2
    pure (if rest = 0 then some (quotient.setWidth 8) else none)
  else
    pure none

def tryNominal (fdoe : Bool) (config : CanfdTimeingConfigT) (nominal data src : U32)
    (ntq prescaler : Nat) : Except CUndefined (Option CanfdTimeingConfigT) := do
  let nclk := (nominal * BitVec.ofNat 32 ntq).toInt
  let nclk2 ← mulInt nclk prescaler
  match ← preDividerOf src (BitVec.ofInt 32 nclk2) with
  | none => pure none
  | some preDivider =>
    let config := { config with
      nominalPrescaler := BitVec.ofNat 16 prescaler
      preDivider := preDivider }
    config.tryDivided fdoe nominal data src ntq

/-- The configuration where the function returns `TRUE`, nothing where it returns `FALSE`. -/
def calculateTimingValues (config : CanfdTimeingConfigT) (fdoe : Bool) (nominal data src : U32) :
    Except CUndefined (Option CanfdTimeingConfigT) :=
  let nominal := if nominal > maxNominalBaudrate then maxNominalBaudrate else nominal
  search (fun ntq => search (config.tryNominal fdoe nominal data src ntq) nominalPrescalers)
    timeQuanta

end CanfdTimeingConfigT

structure CanfdTimingRegs where
  clkdiv0 : U32
  nbtp : U32
  dbtp : U32

/-- A field that holds one less than the value. -/
def lessOneAt (v msk : U32) (pos : Nat) : U32 := ((v &&& msk) - 1) <<< pos

/-- The divider of the controller stands at `divPos` of `CLKDIV0`; it is not masked. -/
def CanfdTimingRegs.setTimingConfig (regs : CanfdTimingRegs) (divPos : Nat) (fdoe : Bool)
    (config : CanfdTimeingConfigT) : CanfdTimingRegs where
  clkdiv0 := (regs.clkdiv0 &&& ~~~((7 : U32) <<< divPos)) |||
    (config.preDivider.setWidth 32 - 1) <<< divPos
  nbtp := lessOneAt (config.nominalRJumpwidth.setWidth 32) 0x7F 25 +
    lessOneAt (config.nominalPrescaler.setWidth 32) 0x1FF 16 +
    lessOneAt (config.nominalPhaseSeg1.setWidth 32 + config.nominalPropSeg.setWidth 32) 0xFF 8 +
    lessOneAt (config.nominalPhaseSeg2.setWidth 32) 0x7F 0
  dbtp := if fdoe then
      lessOneAt (config.dataPrescaler.setWidth 32) 0x1F 16 +
      lessOneAt (config.dataPhaseSeg1.setWidth 32 + config.dataPropSeg.setWidth 32) 0x1F 8 +
      lessOneAt (config.dataPhaseSeg2.setWidth 32) 0xF 4 +
      lessOneAt (config.dataRJumpwidth.setWidth 32) 0xF 0
    else regs.dbtp

end NuMakerMA35
