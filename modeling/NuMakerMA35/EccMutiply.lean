import NuMakerMA35.EccSignature

namespace NuMakerMA35

open HexText

structure EccAccel where
  regs : EccRegs
  ctl : U32
  ksctl : U32
  ksxy : U32

/-- Between operations both controls are clear: an operation that sets one clears it at its end. -/
structure EccIdle where
  accel : EccAccel
  ksctl_zero : accel.ksctl = 0
  ksxy_zero : accel.ksxy = 0

inductive EccOperand where
  | register (value : EccReg)
  | sram (number : Nat)
  | otp (number : Nat)
  | reserved

/-- A key of the key store by the source and number fields that select it. -/
def keyRead (source number : U32) : EccOperand :=
  if source = 0 then .sram number.toNat else if source = 2 then .otp number.toNat else .reserved

namespace EccAccel

variable (accel : EccAccel)

/-- RSRCXY is bit 5, for both coordinates; RSSRCX is at bit 6, NUMX at bit 0. -/
def xOperand : EccOperand :=
  if accel.ksxy.getLsbD 5 then keyRead ((accel.ksxy >>> 6) &&& 3) (accel.ksxy &&& 0x1f)
  else .register accel.regs.x1

def yOperand : EccOperand :=
  if accel.ksxy.getLsbD 5 then keyRead ((accel.ksxy >>> 14) &&& 3) ((accel.ksxy >>> 8) &&& 0x1f)
  else .register accel.regs.y1

def kOperand : EccOperand :=
  if accel.ksctl.getLsbD 5 then keyRead ((accel.ksctl >>> 6) &&& 3) (accel.ksctl &&& 0x1f)
  else .register accel.regs.k

/-- The operation that the command selects, on the operands as they are taken. -/
def run (unit : EccUnit) (store : EccOperand → EccReg) : EccAccel :=
  let operands : EccRegs := { accel.regs with
    x1 := store accel.xOperand, y1 := store accel.yOperand, k := store accel.kOperand }
  { accel with regs := unit.run accel.ctl operands }

end EccAccel

/-- `ECC_Mutiply` up to the start of the accelerator. -/
def eccMutiplyPrepare (pCurve : EccCurve) (x1 y1 k : List Byte) (accel : EccAccel) :
    Option EccAccel := do
  let regs ← eccInitCurve pCurve accel.regs
  let regs := { regs with x1 := ← hex2Reg x1 .zero }
  let regs := { regs with y1 := ← hex2Reg y1 .zero }
  let regs := { regs with k := ← hex2Reg k .zero }
  some { accel with regs := regs, ctl := eccCtl pCurve eccopPointMul false }

/-- `ECC_Mutiply_KS` up to the start of the accelerator; it never reads `y1`. -/
def eccMutiplyKsPrepare (pCurve : EccCurve) (x1Ksnum : U32) (x1 : List Byte) (y1Ksnum : U32)
    (_y1 : List Byte) (kKsnum : U32) (k : List Byte) (accel : EccAccel) : Option EccAccel := do
  let regs ← eccInitCurve pCurve accel.regs
  let regs := { regs with x1 := .zero, y1 := .zero, k := .zero }
  let eccKsxy : U32 := 0
  let (eccKsxy, regs) ←
    if 0x80 ≤ x1Ksnum.toInt then
      some (eccKsxy ||| ((2 : U32) <<< 6 ||| 0x20 ||| (x1Ksnum - 0x80)), regs)
    else if 0 ≤ x1Ksnum.toInt then some (eccKsxy ||| ((0 : U32) <<< 6 ||| 0x20 ||| x1Ksnum), regs)
    else (hex2Reg x1 .zero).map fun x1 => (eccKsxy, { regs with x1 := x1 })
  -- the second test is on the number of x, and the text is that of x
  let (eccKsxy, regs) ←
    if 0x80 ≤ y1Ksnum.toInt then
      some (eccKsxy ||| ((2 : U32) <<< 14 ||| 0x20 ||| (y1Ksnum - 0x80)), regs)
    else if 0 ≤ x1Ksnum.toInt then some (eccKsxy ||| ((0 : U32) <<< 14 ||| 0x20 ||| y1Ksnum), regs)
    else (hex2Reg x1 .zero).map fun y1 => (eccKsxy, { regs with y1 := y1 })
  let accel := { accel with ksxy := eccKsxy }
  let (ksctl, regs) ←
    if 0x80 ≤ kKsnum.toInt then some ((2 : U32) <<< 6 ||| 0x20 ||| (kKsnum - 0x80), regs)
    else if 0 ≤ kKsnum.toInt then some ((0 : U32) <<< 6 ||| 0x20 ||| kKsnum, regs)
    else (hex2Reg k .zero).map fun k => (accel.ksctl, { regs with k := k })
  some { accel with regs := regs, ksctl := ksctl, ctl := eccCtl pCurve eccopPointMul false }

/-- `ECC_Mutiply`: what it returns, the texts of the product, and the accelerator afterwards. -/
def eccMutiply (unit : EccUnit) (store : EccOperand → EccReg) (eccCurve : EccCurveId)
    (x1 y1 k : List Byte) (accel : EccAccel) : Option (Int × List Byte × List Byte × EccAccel) :=
  match getCurve eccCurve with
  | none => some (-1, [], [], accel)
  | some pCurve => do
    let accel ← eccMutiplyPrepare pCurve x1 y1 k accel
    let accel := accel.run unit store
    some (0, reg2Hex pCurve.echar accel.regs.x1, reg2Hex pCurve.echar accel.regs.y1, accel)

def eccMutiplyKs (unit : EccUnit) (store : EccOperand → EccReg) (eccCurve : EccCurveId)
    (x1Ksnum : U32) (x1 : List Byte) (y1Ksnum : U32) (y1 : List Byte) (kKsnum : U32) (k : List Byte)
    (accel : EccAccel) : Option (Int × List Byte × List Byte × EccAccel) :=
  match getCurve eccCurve with
  | none => some (-1, [], [], accel)
  | some pCurve => do
    let accel ← eccMutiplyKsPrepare pCurve x1Ksnum x1 y1Ksnum y1 kKsnum k accel
    let accel := accel.run unit store
    let accel := { accel with ksctl := 0, ksxy := 0 }
    some (0, reg2Hex pCurve.echar accel.regs.x1, reg2Hex pCurve.echar accel.regs.y1, accel)

/-- Where an operand is asked to come from: a number below zero asks for the text. -/
def askedOperand (ksnum : U32) (text : EccReg) : EccOperand :=
  if 0x80 ≤ ksnum.toInt then .otp (ksnum - 0x80).toNat
  else if 0 ≤ ksnum.toInt then .sram ksnum.toNat
  else .register text

/-- What `ECC_Mutiply_KS` owes before it starts the accelerator: every operand comes from where its own
argument asks, and with three texts the accelerator is set up as `ECC_Mutiply` does it. -/
def MutiplyKsLaw (pCurve : EccCurve) (x1Ksnum : U32) (x1 : HexInput) (y1Ksnum : U32) (y1 : HexInput)
    (kKsnum : U32) (k : HexInput) (idle : EccIdle) : Prop :=
  (x1Ksnum.toInt < 0 → y1Ksnum.toInt < 0 → kKsnum.toInt < 0 →
    eccMutiplyKsPrepare pCurve x1Ksnum x1.text y1Ksnum y1.text kKsnum k.text idle.accel =
      eccMutiplyPrepare pCurve x1.text y1.text k.text idle.accel) ∧
  ∃ prepared, eccMutiplyKsPrepare pCurve x1Ksnum x1.text y1Ksnum y1.text kKsnum k.text idle.accel =
      some prepared ∧
    prepared.xOperand = askedOperand x1Ksnum (hexReg x1.text) ∧
    prepared.yOperand = askedOperand y1Ksnum (hexReg y1.text) ∧
    prepared.kOperand = askedOperand kKsnum (hexReg k.text)

def keyNumber (ksnum : U32) : Nat :=
  if 0x80 ≤ ksnum.toInt then (ksnum - 0x80).toNat else ksnum.toNat

/-- Where the code asks for a key, with RSSRC at the given bit. -/
def keyControl (rssrcPos : Nat) (ksnum : U32) : U32 :=
  if 0x80 ≤ ksnum.toInt then (2 : U32) <<< rssrcPos ||| 0x20 ||| (ksnum - 0x80)
  else (0 : U32) <<< rssrcPos ||| 0x20 ||| ksnum

theorem keyRead_number {source number : U32} {otp : Bool} {n : Nat}
    (read : keyRead source number = if otp then .otp n else .sram n) : number.toNat = n := by
  unfold keyRead at read
  split_ifs at read <;> simpa using read

section Stored

variable {ksnum : U32}

theorem askedOperand_stored (stored : 0 ≤ ksnum.toInt) (text : EccReg) :
    askedOperand ksnum text =
      if decide (0x80 ≤ ksnum.toInt) then .otp (keyNumber ksnum) else .sram (keyNumber ksnum) := by
  unfold askedOperand keyNumber
  by_cases otp : 0x80 ≤ ksnum.toInt
  · rw [if_pos otp, if_pos otp, decide_eq_true otp, if_pos rfl]
  · rw [if_neg otp, if_neg otp, if_pos stored, decide_eq_false otp, if_neg Bool.false_ne_true]

theorem askedOperand_text (below : ksnum.toInt < 0) (text : EccReg) :
    askedOperand ksnum text = .register text := by
  rw [askedOperand, if_neg (by omega), if_neg (by omega)]

theorem keyControl_eq (rssrcPos : Nat) (ksnum : U32) : keyControl rssrcPos ksnum =
    (if decide (0x80 ≤ ksnum.toInt) then (2 : U32) <<< rssrcPos else 0) ||| 0x20 |||
      BitVec.ofNat 32 (keyNumber ksnum) := by
  unfold keyControl keyNumber
  by_cases otp : 0x80 ≤ ksnum.toInt
  · rw [if_pos otp, if_pos otp, decide_eq_true otp, if_pos rfl, BitVec.ofNat_toNat,
      BitVec.setWidth_eq]
  · rw [if_neg otp, if_neg otp, decide_eq_false otp, if_neg Bool.false_ne_true, BitVec.ofNat_toNat,
      BitVec.setWidth_eq]
    rw [show (0 : U32) <<< rssrcPos = 0 from BitVec.zero_shiftLeft rssrcPos]

end Stored

theorem keyControl_read (otp : Bool) (n : Nat) (control : U32)
    (packed : control = (if otp then (2 : U32) <<< 6 else 0) ||| 0x20 ||| BitVec.ofNat 32 n) :
    (control.getLsbD 5 = true ∧ keyRead ((control >>> 6) &&& 3) (control &&& 0x1f) =
      if otp then .otp n else .sram n) ↔ n < 32 := by
  constructor
  · rintro ⟨-, read⟩
    rw [← keyRead_number read, BitVec.toNat_and]
    exact Nat.lt_of_le_of_lt Nat.and_le_right (by decide)
  · intro small
    have each : ∀ otp : Bool, ∀ n < 32, ∀ control : U32,
        control = (if otp then (2 : U32) <<< 6 else 0) ||| 0x20 ||| BitVec.ofNat 32 n →
        control.getLsbD 5 = true ∧ (control &&& 0x1f).toNat = n ∧
          (control >>> 6) &&& 3 = if otp then 2 else 0 := by
      simp only [forall_eq]
      decide
    obtain ⟨set, number, source⟩ := each otp n small control packed
    refine ⟨set, ?_⟩
    rw [source, keyRead, number]
    cases otp <;> rfl

theorem keyControl_x : ∀ otp : Bool, ∀ n < 32, ∀ x : U32,
    x = (if otp then (2 : U32) <<< 6 else 0) ||| 0x20 ||| BitVec.ofNat 32 n →
      x.getLsbD 5 = true ∧ (x &&& 0x1f).toNat = n ∧ (x >>> 6) &&& 3 = (if otp then 2 else 0) ∧
        (x >>> 8) &&& 0x1f = 0 ∧ (x >>> 14) &&& 3 = 0 := by
  simp only [forall_eq]
  decide

theorem keyControl_y : ∀ otp : Bool, ∀ n < 32, ∀ y : U32,
    y = (if otp then (2 : U32) <<< 14 else 0) ||| 0x20 ||| BitVec.ofNat 32 n →
      (y >>> 8) &&& 0x1f = 0 ∧ (y >>> 14) &&& 3 = (if otp then 2 else 0) ∧
        (n = 0 → y &&& 0x1f = 0 ∧ (y >>> 6) &&& 3 = 0) := by
  simp only [forall_eq]
  decide

/-- The control of both coordinates: each is asked for just where the first number fits into its field
and the second, which is put at the same place, is zero. -/
theorem keyControl_both (otpX otpY : Bool) (nX nY : Nat) (control : U32)
    (packed : control = ((if otpX then (2 : U32) <<< 6 else 0) ||| 0x20 ||| BitVec.ofNat 32 nX) |||
      ((if otpY then (2 : U32) <<< 14 else 0) ||| 0x20 ||| BitVec.ofNat 32 nY)) :
    (control.getLsbD 5 = true ∧
      keyRead ((control >>> 6) &&& 3) (control &&& 0x1f) = (if otpX then .otp nX else .sram nX) ∧
      keyRead ((control >>> 14) &&& 3) ((control >>> 8) &&& 0x1f) =
        (if otpY then .otp nY else .sram nY)) ↔ nX < 32 ∧ nY = 0 := by
  have fields (smallX : nX < 32) (smallY : nY < 32) :
      control.getLsbD 5 = true ∧ ((control >>> 8) &&& 0x1f).toNat = 0 ∧
        (control >>> 14) &&& 3 = (if otpY then 2 else 0) ∧
        (nY = 0 → (control &&& 0x1f).toNat = nX ∧ (control >>> 6) &&& 3 = if otpX then 2 else 0) := by
    obtain ⟨set, numberX, sourceX, x8, x14⟩ := keyControl_x otpX nX smallX _ rfl
    obtain ⟨y8, sourceY, low⟩ := keyControl_y otpY nY smallY _ rfl
    rw [packed]
    generalize (if otpX then (2 : U32) <<< 6 else 0) ||| 0x20 ||| BitVec.ofNat 32 nX = x at *
    generalize (if otpY then (2 : U32) <<< 14 else 0) ||| 0x20 ||| BitVec.ofNat 32 nY = y at *
    simp only [BitVec.ushiftRight_or_distrib, BitVec.and_or_distrib_right]
    refine ⟨?_, ?_, ?_, ?_⟩
    · rw [BitVec.getLsbD_or, set, Bool.true_or]
    · rw [x8, y8]
      rfl
    · rw [x14, sourceY]
      exact BitVec.zero_or
    · intro none
      obtain ⟨y0, y6⟩ := low none
      rw [y0, y6, sourceX]
      exact ⟨(congrArg BitVec.toNat BitVec.or_zero).trans numberX, BitVec.or_zero⟩
  have below (word : U32) : (word &&& 0x1f).toNat < 32 := by
    rw [BitVec.toNat_and]
    exact Nat.lt_of_le_of_lt Nat.and_le_right (by decide)
  constructor
  · rintro ⟨-, readX, readY⟩
    have smallX : nX < 32 := keyRead_number readX ▸ below control
    have smallY : nY < 32 := keyRead_number readY ▸ below (control >>> 8)
    obtain ⟨-, empty, -⟩ := fields smallX smallY
    exact ⟨smallX, (keyRead_number readY).symm.trans empty⟩
  · rintro ⟨small, rfl⟩
    obtain ⟨set, numberY, sourceY, rest⟩ := fields small (by decide)
    obtain ⟨numberX, sourceX⟩ := rest rfl
    refine ⟨set, ?_, ?_⟩
    · rw [sourceX, keyRead, numberX]
      cases otpX <;> rfl
    · rw [sourceY, keyRead, numberY]
      cases otpY <;> rfl

section Prepared

variable {pCurve : EccCurve} (x1Ksnum : U32) (x1 : HexInput) (y1Ksnum : U32) (y1 : HexInput)
  (kKsnum : U32) (k : HexInput) (accel : EccAccel)

/-- The registers that `ecc_init_curve` leaves, with a point and a scalar of their own. -/
def eccPointRegs (pCurve : EccCurve) (x1 y1 k : EccReg) (regs : EccRegs) : EccRegs :=
  { regs with
    a := hexReg pCurve.ea.text, b := hexReg pCurve.eb.text, x1 := x1, y1 := y1
    x2 := .zero, y2 := .zero, n := pCurve.fieldReg, k := k }

theorem eccMutiplyPrepare_eq (listed : pCurve ∈ eccCurves) :
    eccMutiplyPrepare pCurve x1.text y1.text k.text accel = some { accel with
      regs := eccPointRegs pCurve (hexReg x1.text) (hexReg y1.text) (hexReg k.text) accel.regs
      ctl := eccCtl pCurve eccopPointMul false } := by
  rw [eccMutiplyPrepare, eccInitCurve_eq listed, x1.loaded, y1.loaded, k.loaded]
  rfl

theorem eccMutiplyKsPrepare_eq (listed : pCurve ∈ eccCurves) : ∃ prepared,
    eccMutiplyKsPrepare pCurve x1Ksnum x1.text y1Ksnum y1.text kKsnum k.text accel = some prepared ∧
    prepared.regs = eccPointRegs pCurve (if 0 ≤ x1Ksnum.toInt then .zero else hexReg x1.text)
      (if 0x80 ≤ y1Ksnum.toInt ∨ 0 ≤ x1Ksnum.toInt then .zero else hexReg x1.text)
      (if 0 ≤ kKsnum.toInt then .zero else hexReg k.text) accel.regs ∧
    prepared.ctl = eccCtl pCurve eccopPointMul false ∧
    prepared.ksctl = (if 0 ≤ kKsnum.toInt then keyControl 6 kKsnum else accel.ksctl) ∧
    prepared.ksxy = (if 0 ≤ x1Ksnum.toInt then keyControl 6 x1Ksnum else 0) |||
      (if 0x80 ≤ y1Ksnum.toInt ∨ 0 ≤ x1Ksnum.toInt then keyControl 14 y1Ksnum else 0) := by
  have higher (ksnum : U32) (otp : 0x80 ≤ ksnum.toInt) : 0 ≤ ksnum.toInt := by omega
  rw [eccMutiplyKsPrepare, eccInitCurve_eq listed, x1.loaded, k.loaded]
  simp only [keyControl, Option.map_some, Option.bind_eq_bind, Option.bind_some]
  by_cases otpX : 0x80 ≤ x1Ksnum.toInt <;> by_cases storedX : 0 ≤ x1Ksnum.toInt <;>
    by_cases otpY : 0x80 ≤ y1Ksnum.toInt <;> by_cases otpK : 0x80 ≤ kKsnum.toInt <;>
    by_cases storedK : 0 ≤ kKsnum.toInt <;>
    first
    | omega
    | simp [otpX, storedX, otpY, otpK, storedK, eccPointRegs]

end Prepared

/-- Where every operand is the asked one: two coordinates that are texts of one number, or two keys of
which the first has a number that fits and the second has number zero; and a scalar's key that fits. -/
def MutiplyKsAgrees (x1Ksnum : U32) (x1 : HexInput) (y1Ksnum : U32) (y1 : HexInput) (kKsnum : U32) :
    Prop :=
  ((x1Ksnum.toInt < 0 ∧ y1Ksnum.toInt < 0 ∧ x1.number = y1.number) ∨
    (0 ≤ x1Ksnum.toInt ∧ 0 ≤ y1Ksnum.toInt ∧ keyNumber x1Ksnum < 32 ∧ keyNumber y1Ksnum = 0)) ∧
  (0 ≤ kKsnum.toInt → keyNumber kKsnum < 32)

theorem EccReg.value_inj {reg other : EccReg} (same : reg.value = other.value) : reg = other := by
  refine EccReg.ext (List.ext_getElem (by rw [reg.size, other.size]) fun i inside inside' => ?_)
  have word := reg.word_toNat i
  rw [same, ← other.word_toNat i] at word
  simp only [List.getD_eq_getElem?_getD, List.getElem?_eq_getElem inside,
    List.getElem?_eq_getElem inside', Option.getD_some] at word
  exact BitVec.eq_of_toNat_eq word

theorem HexInput.hexReg_eq_iff (input other : HexInput) :
    hexReg input.text = hexReg other.text ↔ input.number = other.number := by
  rw [← input.hexReg_value, ← other.hexReg_value]
  exact ⟨congrArg EccReg.value, EccReg.value_inj⟩

section Operands

variable (accel : EccAccel)

theorem kOperand_iff {kKsnum : U32} {text : EccReg}
    (ksctl : accel.ksctl = if 0 ≤ kKsnum.toInt then keyControl 6 kKsnum else 0)
    (k : kKsnum.toInt < 0 → accel.regs.k = text) :
    accel.kOperand = askedOperand kKsnum text ↔ (0 ≤ kKsnum.toInt → keyNumber kKsnum < 32) := by
  by_cases stored : 0 ≤ kKsnum.toInt
  · rw [if_pos stored, keyControl_eq] at ksctl
    have read := keyControl_read _ _ _ ksctl
    rw [← askedOperand_stored stored text] at read
    have set : accel.ksctl.getLsbD 5 = true := by
      rw [ksctl]
      simp only [BitVec.getLsbD_or]
      simp
    rw [EccAccel.kOperand, if_pos set]
    simpa [stored, set] using read
  · rw [if_neg stored] at ksctl
    rw [askedOperand_text (by omega), EccAccel.kOperand, ksctl, if_neg (by decide), k (by omega)]
    simp [stored]

theorem coordinates_iff {x1Ksnum y1Ksnum : U32} {x1 : EccReg} (y1 : EccReg)
    (ksxy : accel.ksxy = (if 0 ≤ x1Ksnum.toInt then keyControl 6 x1Ksnum else 0) |||
      (if 0x80 ≤ y1Ksnum.toInt ∨ 0 ≤ x1Ksnum.toInt then keyControl 14 y1Ksnum else 0))
    (x : x1Ksnum.toInt < 0 → accel.regs.x1 = x1)
    (y : ¬(0x80 ≤ y1Ksnum.toInt ∨ 0 ≤ x1Ksnum.toInt) → accel.regs.y1 = x1) :
    (accel.xOperand = askedOperand x1Ksnum x1 ∧ accel.yOperand = askedOperand y1Ksnum y1) ↔
      (x1Ksnum.toInt < 0 ∧ y1Ksnum.toInt < 0 ∧ x1 = y1) ∨
      (0 ≤ x1Ksnum.toInt ∧ 0 ≤ y1Ksnum.toInt ∧ keyNumber x1Ksnum < 32 ∧ keyNumber y1Ksnum = 0) := by
  have set (pos : Nat) (ksnum rest : U32) : (keyControl pos ksnum ||| rest).getLsbD 5 = true := by
    rw [keyControl_eq]
    simp only [BitVec.getLsbD_or]
    simp
  by_cases storedX : 0 ≤ x1Ksnum.toInt
  · rw [if_pos storedX, if_pos (.inr storedX)] at ksxy
    have read : accel.ksxy.getLsbD 5 = true := by rw [ksxy, set]
    rw [EccAccel.xOperand, EccAccel.yOperand, if_pos read, if_pos read]
    by_cases storedY : 0 ≤ y1Ksnum.toInt
    · rw [keyControl_eq, keyControl_eq] at ksxy
      have both := keyControl_both _ _ _ _ _ ksxy
      rw [← askedOperand_stored storedX x1, ← askedOperand_stored storedY y1] at both
      simp only [read, true_and] at both
      rw [both]
      omega
    · -- a text for `y1` is never read
      rw [askedOperand_text (show y1Ksnum.toInt < 0 by omega)]
      constructor
      · rintro ⟨-, other⟩
        unfold keyRead at other
        split_ifs at other
      · rintro (wrong | wrong) <;> omega
  · rw [if_neg storedX] at ksxy
    rw [askedOperand_text (by omega)]
    by_cases otpY : 0x80 ≤ y1Ksnum.toInt
    · -- the one source bit takes `x1` from the key store too
      rw [if_pos (.inl otpY)] at ksxy
      have read : accel.ksxy.getLsbD 5 = true := by rw [ksxy, BitVec.or_comm, set]
      rw [EccAccel.xOperand, if_pos read]
      constructor
      · rintro ⟨other, -⟩
        unfold keyRead at other
        split_ifs at other
      · rintro (wrong | wrong) <;> omega
    · have neither : ¬(0x80 ≤ y1Ksnum.toInt ∨ 0 ≤ x1Ksnum.toInt) := by omega
      rw [if_neg neither] at ksxy
      have clear : accel.ksxy.getLsbD 5 = false := by rw [ksxy]; decide
      have texts : ¬accel.ksxy.getLsbD 5 = true := by rw [clear]; decide
      rw [EccAccel.xOperand, EccAccel.yOperand, if_neg texts, if_neg texts, x (by omega), y neither]
      by_cases storedY : 0 ≤ y1Ksnum.toInt
      · rw [askedOperand, if_neg otpY, if_pos storedY]
        constructor
        · rintro ⟨-, other⟩
          cases other
        · rintro (wrong | wrong) <;> omega
      · rw [askedOperand_text (by omega)]
        simp [storedX, show x1Ksnum.toInt < 0 by omega, show y1Ksnum.toInt < 0 by omega]

end Operands

theorem mutiplyKsLaw_iff {pCurve : EccCurve} (listed : pCurve ∈ eccCurves) (x1Ksnum : U32)
    (x1 : HexInput) (y1Ksnum : U32) (y1 : HexInput) (kKsnum : U32) (k : HexInput) (idle : EccIdle) :
    MutiplyKsLaw pCurve x1Ksnum x1 y1Ksnum y1 kKsnum k idle ↔
      MutiplyKsAgrees x1Ksnum x1 y1Ksnum y1 kKsnum := by
  obtain ⟨accel, prepared, regs, ctl, ksctl, ksxy⟩ :=
    eccMutiplyKsPrepare_eq x1Ksnum x1 y1Ksnum y1 kKsnum k idle.accel listed
  have x : x1Ksnum.toInt < 0 → accel.regs.x1 = hexReg x1.text := fun below => by
    rw [regs]
    exact if_neg (by omega)
  have y (neither : ¬(0x80 ≤ y1Ksnum.toInt ∨ 0 ≤ x1Ksnum.toInt)) :
      accel.regs.y1 = hexReg x1.text := by
    rw [regs]
    exact if_neg neither
  have scalar : kKsnum.toInt < 0 → accel.regs.k = hexReg k.text := fun below => by
    rw [regs]
    exact if_neg (by omega)
  have coordinates := coordinates_iff accel (hexReg y1.text) ksxy x y
  have key := kOperand_iff accel (by rw [ksctl, idle.ksctl_zero]) scalar
  rw [HexInput.hexReg_eq_iff] at coordinates
  unfold MutiplyKsLaw MutiplyKsAgrees
  rw [prepared, eccMutiplyPrepare_eq x1 y1 k idle.accel listed, ← coordinates, ← key, and_assoc]
  simp only [Option.some.injEq, exists_eq_left']
  refine ⟨And.right, fun operands => ⟨fun textX textY textK => ?_, operands⟩⟩
  -- with three texts the controls stay clear, and both functions load the same registers
  have same : hexReg x1.text = hexReg y1.text := by
    have both := coordinates.mp ⟨operands.1, operands.2.1⟩
    exact (x1.hexReg_eq_iff y1).mpr (by omega)
  have neither : ¬(0x80 ≤ y1Ksnum.toInt ∨ 0 ≤ x1Ksnum.toInt) := by omega
  rw [if_neg (by omega), if_neg neither, if_neg (by omega)] at regs
  rw [if_neg (by omega)] at ksctl
  rw [if_neg (by omega), if_neg neither] at ksxy
  have clear : accel.ksxy = idle.accel.ksxy := by
    rw [ksxy, idle.ksxy_zero]
    decide
  obtain ⟨preparedRegs, preparedCtl, preparedKsctl, preparedKsxy⟩ := accel
  simp only at regs ctl ksctl clear
  rw [regs, ctl, ksctl, clear, same]

/-- Both functions leave the controls of the key store clear. -/
theorem eccMutiply_idle {unit : EccUnit} {store : EccOperand → EccReg} {eccCurve : EccCurveId}
    {x1 y1 k : List Byte} {idle : EccIdle} {ret : Int} {x2 y2 : List Byte} {after : EccAccel}
    (done : eccMutiply unit store eccCurve x1 y1 k idle.accel = some (ret, x2, y2, after)) :
    after.ksctl = 0 ∧ after.ksxy = 0 := by
  unfold eccMutiply at done
  cases found : getCurve eccCurve with
  | none =>
    simp only [found, Option.some.injEq, Prod.mk.injEq] at done
    obtain ⟨-, -, -, rfl⟩ := done
    exact ⟨idle.ksctl_zero, idle.ksxy_zero⟩
  | some pCurve =>
    simp only [found, eccMutiplyPrepare, Option.bind_eq_bind, Option.bind_eq_some_iff,
      Option.some.injEq, Prod.mk.injEq] at done
    obtain ⟨_, ⟨_, -, _, -, _, -, _, -, rfl⟩, -, -, -, rfl⟩ := done
    exact ⟨idle.ksctl_zero, idle.ksxy_zero⟩

theorem eccMutiplyKs_idle {unit : EccUnit} {store : EccOperand → EccReg} {eccCurve : EccCurveId}
    {x1Ksnum y1Ksnum kKsnum : U32} {x1 y1 k : List Byte} {idle : EccIdle} {ret : Int}
    {x2 y2 : List Byte} {after : EccAccel}
    (done : eccMutiplyKs unit store eccCurve x1Ksnum x1 y1Ksnum y1 kKsnum k idle.accel =
      some (ret, x2, y2, after)) :
    after.ksctl = 0 ∧ after.ksxy = 0 := by
  unfold eccMutiplyKs at done
  cases found : getCurve eccCurve with
  | none =>
    simp only [found, Option.some.injEq, Prod.mk.injEq] at done
    obtain ⟨-, -, -, rfl⟩ := done
    exact ⟨idle.ksctl_zero, idle.ksxy_zero⟩
  | some pCurve =>
    simp only [found, Option.bind_eq_bind, Option.bind_eq_some_iff, Option.some.injEq,
      Prod.mk.injEq] at done
    obtain ⟨_, -, -, -, -, rfl⟩ := done
    exact ⟨rfl, rfl⟩

/-- `ECC_Mutiply_KS` takes all operands from where they are asked from just there. -/
theorem eccMutiplyKs_iff {eccCurve : EccCurveId} {pCurve : EccCurve}
    (found : getCurve eccCurve = some pCurve) (x1Ksnum : U32) (x1 : HexInput) (y1Ksnum : U32)
    (y1 : HexInput) (kKsnum : U32) (k : HexInput) (idle : EccIdle) :
    MutiplyKsLaw pCurve x1Ksnum x1 y1Ksnum y1 kKsnum k idle ↔
      MutiplyKsAgrees x1Ksnum x1 y1Ksnum y1 kKsnum :=
  mutiplyKsLaw_iff (getCurve_listed found) x1Ksnum x1 y1Ksnum y1 kKsnum k idle

def EccIdle.reset : EccIdle where
  accel := ⟨⟨.zero, .zero, .zero, .zero, .zero, .zero, .zero, .zero⟩, 0, 0, 0⟩
  ksctl_zero := rfl
  ksxy_zero := rfl

theorem eccMutiplyKs_iff_texts :
    MutiplyKsLaw p192 (-1) ⟨[0x31], by decide, by decide⟩ (-1) ⟨[0x31], by decide, by decide⟩ (-1)
        ⟨[0x33], by decide, by decide⟩ .reset ↔
      MutiplyKsAgrees (-1) ⟨[0x31], by decide, by decide⟩ (-1) ⟨[0x31], by decide, by decide⟩ (-1) :=
  eccMutiplyKs_iff (show getCurve .p192 = some p192 from rfl) (-1) _ (-1) _ (-1) _ _

/-- With the texts 1 and 2 for the point and no key at all, the second coordinate is loaded with 1. -/
theorem second_coordinate_lost :
    (eccMutiplyPrepare p192 [0x31] [0x32] [0x33] EccIdle.reset.accel).map (·.regs.y1.value) = some 2 ∧
      (eccMutiplyKsPrepare p192 (-1) [0x31] (-1) [0x32] (-1) [0x33] EccIdle.reset.accel).map
        (·.regs.y1.value) = some 1 ∧
      ¬MutiplyKsLaw p192 (-1) ⟨[0x31], by decide, by decide⟩ (-1) ⟨[0x32], by decide, by decide⟩ (-1)
        ⟨[0x33], by decide, by decide⟩ .reset := by
  have plain : (eccMutiplyPrepare p192 [0x31] [0x32] [0x33] EccIdle.reset.accel).map
      (·.regs.y1.value) = some 2 := by decide
  have keyed : (eccMutiplyKsPrepare p192 (-1) [0x31] (-1) [0x32] (-1) [0x33]
      EccIdle.reset.accel).map (·.regs.y1.value) = some 1 := by decide
  refine ⟨plain, keyed, fun law => ?_⟩
  rw [law.1 (by decide) (by decide) (by decide), plain] at keyed
  exact absurd keyed (by decide)

end NuMakerMA35
