import NuMakerMA35.EccRun
import Mathlib.Data.ZMod.Basic

namespace NuMakerMA35

open HexText ModQuotient

structure HexInput where
  text : List Byte
  hex : text.all isHexDigit = true
  fits : text.length ≤ 144

namespace HexInput

def number (input : HexInput) : Nat := value input.text

theorem loaded (input : HexInput) : hex2Reg input.text .zero = some (hexReg input.text) :=
  hex2Reg_zero input.fits

theorem hexReg_value (input : HexInput) : (hexReg input.text).value = input.number :=
  NuMakerMA35.hexReg_value input.hex input.fits

end HexInput

theorem EccReg.ofNat_value_of_lt {v : Nat} (small : v < (2 ^ 32) ^ 18) : (EccReg.ofNat v).value = v := by
  rw [EccReg.ofNat_value, Nat.mod_eq_of_lt small]

namespace EccUnit

variable (unit : EccUnit) (c : EccCurve) (n : Nat)

/-- `x(k G)` modulo `n`, which is the order of the base point `G`. -/
def nonceX (k : Nat) : Nat := (unit.pointMul c.domain k c.base).1.value % n

/-- `x(u1 G + u2 Q)` modulo `n`. -/
def checkX (q : EccPoint) (u1 u2 : Nat) : Nat :=
  (unit.pointAdd c.domain (unit.pointMul c.domain u2 q) (unit.pointMul c.domain u1 c.base)).1.value % n

/-- The equation of a signature, with the unit's own quotient for `1 / s` as a register holds it. -/
def Equation (q : EccPoint) (e r s : Nat) : Prop :=
  let w := (EccReg.ofNat (unit.modDivide 1 s n)).value
  unit.checkX c n q (e * w % n) (r * w % n) = r

def ValidPair (q : EccPoint) (e : Nat) (R S : List Byte) : Prop :=
  ∃ r s u1 u2, Names R r ∧ Names S s ∧ (1 ≤ r ∧ r < n) ∧ (1 ≤ s ∧ s < n) ∧
    modDiv e s n = some u1 ∧ modDiv r s n = some u2 ∧ unit.checkX c n q u1 u2 = r

/-- The accelerator works in a group that has the curve's base point. -/
structure Performs {G : Type} [AddCommGroup G] (rep : G → EccPoint) (g : G) : Prop where
  base : rep g = c.base
  mul : ∀ k p, unit.pointMul c.domain k (rep p) = rep (k • p)
  add : ∀ p q, unit.pointAdd c.domain (rep p) (rep q) = rep (p + q)

end EccUnit

section Curve

variable {unit : EccUnit} {c : EccCurve} {eccCurve : EccCurveId}

theorem order_loaded (listed : c ∈ eccCurves) :
    hex2Reg c.eorder.text .zero = some (hexReg c.eorder.text) ∧
      (hexReg c.eorder.text).value = c.order := by
  obtain ⟨number, fits⟩ := eccCurves_literals c listed c.eorder (by simp [EccCurve.literals])
  exact HexLiteral.hexReg_text number fits

theorem mod_order_value (listed : c ∈ eccCurves) (v : Nat) :
    (EccReg.ofNat (v % c.order)).value = v % c.order := by
  obtain ⟨above, -, small⟩ := eccCurves_order c listed
  exact EccReg.ofNat_value_of_lt ((Nat.mod_lt v (by omega)).trans small)

theorem mod_order_names (listed : c ∈ eccCurves) (v : Nat) :
    Names (reg2Hex c.echar (.ofNat (v % c.order))) (v % c.order) := by
  obtain ⟨above, digits, -⟩ := eccCurves_order c listed
  have names := reg2Hex_names c.echar (.ofNat (v % c.order))
  rwa [mod_order_value listed, Nat.mod_eq_of_lt ((Nat.mod_lt v (by omega)).trans digits)] at names

theorem eccGenerateSignature_eq (found : getCurve eccCurve = some c) (message d k : HexInput)
    (regs : EccRegs) :
    eccGenerateSignature unit eccCurve message.text d.text k.text regs =
      some (0, reg2Hex c.echar (.ofNat (unit.nonceX c c.order k.number)),
        reg2Hex c.echar (.ofNat ((unit.nonceX c c.order k.number * d.number % c.order + message.number) %
          c.order * (EccReg.ofNat (unit.modDivide 1 k.number c.order)).value % c.order))) := by
  have listed := getCurve_listed found
  obtain ⟨order, number⟩ := order_loaded listed
  have one : (EccReg.ofNat 1).value = 1 := EccReg.ofNat_value_of_lt (by decide)
  simp only [eccGenerateSignature, found, eccInitCurve_eq listed, order, message.loaded, d.loaded,
    k.loaded, Option.bind_eq_bind, Option.bind_some, runEccCodec_mul unit _ listed,
    runEccCodec_add unit _ listed, runEccCodec_div unit _ listed,
    (pointMul_init unit listed _ _ _ _ _).1, number, message.hexReg_value, d.hexReg_value,
    k.hexReg_value, EccReg.zero_value, Nat.add_zero, mod_order_value listed, one]
  rfl

theorem eccVerifySignature_eq (found : getCurve eccCurve = some c) (message qx qy : HexInput)
    {R S : List Byte} (fitsR : R.length ≤ 144) (fitsS : S.length ≤ 144) (regs : EccRegs) :
    let w := (EccReg.ofNat (unit.modDivide 1 (hexReg S).value c.order)).value
    eccVerifySignature unit eccCurve message.text qx.text qy.text R S regs =
      some (if eccStrcmp (reg2Hex c.echar (.ofNat (unit.checkX c c.order (hexReg qx.text, hexReg qy.text)
        (message.number * w % c.order) ((hexReg R).value * w % c.order)))) R ≠ 0 then -2 else 0) := by
  have listed := getCurve_listed found
  obtain ⟨order, number⟩ := order_loaded listed
  have one : (EccReg.ofNat 1).value = 1 := EccReg.ofNat_value_of_lt (by decide)
  simp only [eccVerifySignature, found, eccInitCurve_eq listed, order, message.loaded, qx.loaded,
    qy.loaded, hex2Reg_zero fitsR, hex2Reg_zero fitsS, Option.bind_eq_bind, Option.bind_some,
    runEccCodec_mul unit _ listed, runEccCodec_add unit _ listed, runEccCodec_div unit _ listed,
    (pointMul_init unit listed _ _ _ _ _).1, (pointMul_init unit listed _ _ _ _ _).2,
    pointAdd_init unit listed, number, message.hexReg_value, EccReg.zero_value, Nat.add_zero,
    mod_order_value listed, one]
  exact (apply_ite some _ _ _).symm

theorem eccGenerateSignature_length (found : getCurve eccCurve = some c) {message d k : HexInput}
    {regs : EccRegs} {ret : Int} {R S : List Byte}
    (signed : eccGenerateSignature unit eccCurve message.text d.text k.text regs = some (ret, R, S)) :
    R.length ≤ 144 ∧ S.length ≤ 144 := by
  have length := eccCurves_echar c (getCurve_listed found)
  rw [eccGenerateSignature_eq found] at signed
  obtain ⟨-, rfl, rfl⟩ := Option.some.inj signed
  simpa [reg2Hex_eq] using length

theorem eccVerifySignature_none (found : getCurve eccCurve = some c) (message qx qy : HexInput)
    {R S : List Byte} (long : 144 < R.length ∨ 144 < S.length) (regs : EccRegs) :
    eccVerifySignature unit eccCurve message.text qx.text qy.text R S regs = none := by
  have listed := getCurve_listed found
  obtain ⟨order, -⟩ := order_loaded listed
  by_cases longS : 144 < S.length
  · simp only [eccVerifySignature, found, eccInitCurve_eq listed, order, hex2Reg_eq_none.mpr longS,
      Option.bind_eq_bind, Option.bind_some, Option.bind_none]
  · have longR := long.resolve_right longS
    simp only [eccVerifySignature, found, eccInitCurve_eq listed, order, hex2Reg_zero (not_lt.mp longS),
      message.loaded, hex2Reg_eq_none.mpr longR, Option.bind_eq_bind, Option.bind_some, Option.bind_none]

theorem eccStrcmp_checkX (listed : c ∈ eccCurves) (q : EccPoint) (u1 u2 : Nat) (R : List Byte) :
    eccStrcmp (reg2Hex c.echar (.ofNat (unit.checkX c c.order q u1 u2))) R = 0 ↔
      Names R (unit.checkX c c.order q u1 u2) := by
  have written := mod_order_names listed
    (unit.pointAdd c.domain (unit.pointMul c.domain u2 q) (unit.pointMul c.domain u1 c.base)).1.value
  rw [← EccUnit.checkX] at written
  rw [eccStrcmp_eq_zero written.1, written.2]

theorem names_checkX {q : EccPoint} {e s : Nat} {R : List Byte} (fits : R.length ≤ 144) {w : Nat}
    (quotient : w = (EccReg.ofNat (unit.modDivide 1 s c.order)).value) :
    Names R (unit.checkX c c.order q (e * w % c.order) ((hexReg R).value * w % c.order)) ↔
      ∃ r, Names R r ∧ unit.Equation c c.order q e r s := by
  simp only [EccUnit.Equation, ← quotient]
  constructor
  · intro names
    have read := (hexReg_value names.1 fits).trans names.2
    refine ⟨_, names, ?_⟩
    rw [← read]
    exact read.symm
  · rintro ⟨r, names, solves⟩
    rwa [hexReg_value names.1 fits, names.2, solves]

variable (unit) in
theorem eccVerifySignature_accepts (found : getCurve eccCurve = some c) (message qx qy : HexInput)
    {R S : List Byte} (fitsR : R.length ≤ 144) (fitsS : S.length ≤ 144) (regs : EccRegs) :
    ∃ ret, eccVerifySignature unit eccCurve message.text qx.text qy.text R S regs = some ret ∧
      (ret = 0 ↔ ∃ r, Names R r ∧ unit.Equation c c.order (hexReg qx.text, hexReg qy.text) message.number r
        (hexReg S).value) := by
  refine ⟨_, eccVerifySignature_eq found message qx qy fitsR fitsS regs, ?_⟩
  have verdict (differs : Int) : (if differs ≠ 0 then (-2 : Int) else 0) = 0 ↔ differs = 0 := by
    split_ifs with other
    · simpa using other
    · simpa using other
  rw [verdict, eccStrcmp_checkX (getCurve_listed found)]
  exact names_checkX fitsR rfl

theorem equation_iff (listed : c ∈ eccCurves) {q : EccPoint} {e r s : Nat}
    (invertible : Nat.Coprime s c.order) :
    unit.Equation c c.order q e r s ↔ ∃ u1 u2, modDiv e s c.order = some u1 ∧ modDiv r s c.order = some u2 ∧
      unit.checkX c c.order q u1 u2 = r := by
  obtain ⟨above, -, small⟩ := eccCurves_order c listed
  have inverse : modDiv 1 s c.order = some (1 * modInverse s c.order % c.order) := if_pos invertible
  have held : (EccReg.ofNat (unit.modDivide 1 s c.order)).value = 1 * modInverse s c.order % c.order := by
    rw [EccUnit.modDivide, inverse, Option.getD_some, mod_order_value listed]
  rw [EccUnit.Equation, held, modDiv_mul inverse e, modDiv_mul inverse r]
  simp

namespace EccUnit

variable (unit)

/-- The signature is that of `message` with the nonce `k`; `n` is the order of the base point. -/
def SignsRight (eccCurve : EccCurveId) (c : EccCurve) (n : Nat) (message d k : HexInput) (regs : EccRegs) : Prop :=
  ∃ R S s, eccGenerateSignature unit eccCurve message.text d.text k.text regs = some (0, R, S) ∧
    Names R (unit.nonceX c n k.number) ∧
    modDiv (message.number + d.number * unit.nonceX c n k.number) k.number n = some s ∧ Names S s

/-- A pair is accepted if it is valid, and refused if it is not. -/
def VerifiesRight (eccCurve : EccCurveId) (c : EccCurve) (n : Nat) (message qx qy : HexInput) (R S : List Byte)
    (regs : EccRegs) : Prop :=
  ∃ ret, eccVerifySignature unit eccCurve message.text qx.text qy.text R S regs = some ret ∧
    (ret = 0 ↔ unit.ValidPair c n (hexReg qx.text, hexReg qy.text) message.number R S)

/-- The texts fit, and no pair that solves the equation is out of the range of signatures. -/
def PairFits (c : EccCurve) (n : Nat) (message qx qy : HexInput) (R S : List Byte) : Prop :=
  R.length ≤ 144 ∧ S.length ≤ 144 ∧ ∀ r, Names R r →
    unit.Equation c n (hexReg qx.text, hexReg qy.text) message.number r (hexReg S).value →
      1 ≤ r ∧ ∃ s, Names S s ∧ 1 ≤ s ∧ s < n ∧ Nat.Coprime s n

theorem signsRight_iff (found : getCurve eccCurve = some c) (message d k : HexInput) (regs : EccRegs) :
    unit.SignsRight eccCurve c c.order message d k regs ↔ Nat.Coprime k.number c.order := by
  have listed := getCurve_listed found
  constructor
  · rintro ⟨R, S, s, -, -, made, -⟩
    exact coprime_of_modDiv made
  · intro invertible
    refine ⟨_, _, _, eccGenerateSignature_eq found message d k regs, mod_order_names listed _,
      if_pos invertible, ?_⟩
    have inverse : modDiv 1 k.number c.order = some (1 * modInverse k.number c.order % c.order) :=
      if_pos invertible
    have names := mod_order_names listed ((unit.nonceX c c.order k.number * d.number % c.order +
      message.number) % c.order * (EccReg.ofNat (unit.modDivide 1 k.number c.order)).value)
    have product : (unit.nonceX c c.order k.number * d.number % c.order + message.number) % c.order *
        (EccReg.ofNat (unit.modDivide 1 k.number c.order)).value % c.order =
          (message.number + d.number * unit.nonceX c c.order k.number) * modInverse k.number c.order % c.order := by
      rw [modDivide, inverse, Option.getD_some, mod_order_value listed, Nat.one_mul, Nat.mod_mul_mod,
        Nat.mul_mod_mod, Nat.add_comm, Nat.mul_comm d.number]
      exact (((Nat.mod_modEq _ _).add_left _).mul_right _)
    rw [← product]
    exact names

theorem verifiesRight_iff (found : getCurve eccCurve = some c) (message qx qy : HexInput)
    (R S : List Byte) (regs : EccRegs) :
    unit.VerifiesRight eccCurve c c.order message qx qy R S regs ↔ unit.PairFits c c.order message qx qy R S := by
  have listed := getCurve_listed found
  constructor
  · rintro ⟨ret, returned, right⟩
    have fits : ¬(144 < R.length ∨ 144 < S.length) := by
      intro long
      rw [eccVerifySignature_none found message qx qy long regs] at returned
      cases returned
    obtain ⟨fitsR, fitsS⟩ := not_or.mp fits
    refine ⟨not_lt.mp fitsR, not_lt.mp fitsS, ?_⟩
    intro r names solves
    obtain ⟨ret', same, accepts⟩ :=
      eccVerifySignature_accepts unit found message qx qy (not_lt.mp fitsR) (not_lt.mp fitsS) regs
    have both := Option.some.inj (returned.symm.trans same)
    obtain ⟨r', s, u1, u2, names', namesS, ⟨low, -⟩, ⟨lowS, highS⟩, -, quotient, -⟩ :=
      right.mp (both.trans (accepts.mpr ⟨r, names, solves⟩))
    rw [← names'.2, names.2] at low
    exact ⟨low, s, namesS, lowS, highS, coprime_of_modDiv quotient⟩
  · rintro ⟨fitsR, fitsS, fits⟩
    obtain ⟨ret, returned, accepts⟩ :=
      eccVerifySignature_accepts unit found message qx qy fitsR fitsS regs
    refine ⟨ret, returned, accepts.trans ?_⟩
    constructor
    · rintro ⟨r, names, solves⟩
      obtain ⟨low, s, namesS, lowS, highS, invertible⟩ := fits r names solves
      rw [hexReg_value namesS.1 fitsS, namesS.2] at solves
      obtain ⟨u1, u2, first, second, same⟩ := (equation_iff listed invertible).mp solves
      refine ⟨r, s, u1, u2, names, namesS, ⟨low, ?_⟩, ⟨lowS, highS⟩, first, second, same⟩
      rw [← same]
      exact Nat.mod_lt _ (by have := eccCurves_order c listed; omega)
    · rintro ⟨r, s, u1, u2, names, namesS, -, -, first, second, same⟩
      refine ⟨r, names, ?_⟩
      rw [hexReg_value namesS.1 fitsS, namesS.2]
      exact (equation_iff listed (coprime_of_modDiv first)).mpr ⟨u1, u2, first, second, same⟩

theorem accepts_generated (found : getCurve eccCurve = some c) {G : Type} [AddCommGroup G]
    {rep : G → EccPoint} {g : G} (performs : unit.Performs c rep g) (order : c.order • g = 0)
    {message d k qx qy : HexInput} (key : (hexReg qx.text, hexReg qy.text) = rep (d.number • g))
    (nonce : Nat.Coprime k.number c.order) {regs regs' : EccRegs} {R S : List Byte}
    (signed : eccGenerateSignature unit eccCurve message.text d.text k.text regs = some (0, R, S))
    (invertible : Nat.Coprime (value S) c.order) :
    eccVerifySignature unit eccCurve message.text qx.text qy.text R S regs' = some 0 := by
  have listed := getCurve_listed found
  obtain ⟨above, -, small⟩ := eccCurves_order c listed
  obtain ⟨R', S', s, signed', namesR, made, namesS⟩ :=
    (unit.signsRight_iff found message d k regs).mpr nonce
  obtain ⟨rfl, rfl⟩ : R = R' ∧ S = S' := by
    have same := Option.some.inj (signed.symm.trans signed')
    exact Prod.mk.inj (Prod.mk.inj same).2
  have fits := eccGenerateSignature_length found signed
  obtain ⟨ret, returned, accepts⟩ :=
    eccVerifySignature_accepts unit found message qx qy fits.1 fits.2 regs'
  rw [returned, accepts.mpr]
  refine ⟨_, namesR, ?_⟩
  rw [hexReg_value namesS.1 fits.2]
  rw [namesS.2] at invertible ⊢
  have inverse : modDiv 1 s c.order = some (1 * modInverse s c.order % c.order) := if_pos invertible
  rw [equation_iff listed invertible]
  refine ⟨_, _, modDiv_mul inverse _, modDiv_mul inverse _, ?_⟩
  have point := signature_equation order above nonce made inverse
  rw [checkX, key, ← performs.base, performs.mul, performs.mul, performs.add, add_comm, point, nonceX,
    ← performs.base, performs.mul]

end EccUnit

end Curve

section P192

def HexInput.ofNat (length v : Nat) (fits : length ≤ 144) : HexInput where
  text := hexText length v
  hex := (hexText_names length v).1
  fits := by rwa [hexText_length]

theorem HexInput.ofNat_number {length v : Nat} (fits : length ≤ 144) (small : v < 16 ^ length) :
    (HexInput.ofNat length v fits).number = v :=
  (hexText_names length v).2.trans (Nat.mod_eq_of_lt small)

def p192 : EccCurve := eccCurves.head (by decide)

abbrev p192Order : Nat := 0xFFFFFFFFFFFFFFFFFFFFFFFF99DEF836146BC9B1B4D22831

def clearRegs : EccRegs := ⟨.zero, .zero, .zero, .zero, .zero, .zero, .zero, .zero⟩

/-- The multiples of a base point by their numbers; all but those of the rows are stood in for by their
numbers. -/
def numberedPoint (order : Nat) (rows : List (Nat × Nat × Nat)) (z : ZMod order) : EccPoint :=
  match rows.find? (·.1 == z.val) with
  | some row => (.ofNat row.2.1, .ofNat row.2.2)
  | none => (.ofNat z.val, .zero)

def pointNumber (order : Nat) (rows : List (Nat × Nat × Nat)) (p : EccPoint) : ZMod order :=
  match rows.find? (·.2 == (p.1.value, p.2.value)) with
  | some row => row.1
  | none => p.1.value

def numberedUnit (order : Nat) (rows : List (Nat × Nat × Nat)) : EccUnit where
  pointMul _ k p := numberedPoint order rows (k • pointNumber order rows p)
  pointAdd _ p q := numberedPoint order rows (pointNumber order rows p + pointNumber order rows q)
  divNone _ _ _ := 0
  spoil _ regs := regs

/-- Coordinates of so many digits, no second one zero, and no point twice. -/
def RowsFit (digits : Nat) (rows : List (Nat × Nat × Nat)) : Prop :=
  ∀ row ∈ rows, row.2.1 < 16 ^ digits ∧ row.2.2 < 16 ^ digits ∧ row.2.2 ≠ 0 ∧
    ∀ other ∈ rows, other.2 = row.2 → other.1 = row.1

instance (digits : Nat) (rows : List (Nat × Nat × Nat)) : Decidable (RowsFit digits rows) :=
  inferInstanceAs (Decidable (∀ _ ∈ _, _))

section Numbered

variable {order digits : Nat} [NeZero order] {rows : List (Nat × Nat × Nat)}

theorem ofNat_value_digits (fits : digits ≤ 144) {v : Nat} (below : v < 16 ^ digits) :
    (EccReg.ofNat v).value = v :=
  EccReg.ofNat_value_of_lt (below.trans_le ((Nat.pow_le_pow_right (by decide) fits).trans (by decide)))

theorem pointNumber_point (fits : digits ≤ 144) (small : order ≤ 16 ^ digits) (rowsFit : RowsFit digits rows)
    (z : ZMod order) : pointNumber order rows (numberedPoint order rows z) = z := by
  rw [numberedPoint]
  split
  next row found =>
    have mem := List.mem_of_find?_eq_some found
    have named : row.1 = z.val := by simpa using List.find?_some found
    obtain ⟨lowX, lowY, -, same⟩ := rowsFit row mem
    simp only [pointNumber, ofNat_value_digits fits lowX, ofNat_value_digits fits lowY]
    split
    next other found' =>
      rw [same other (List.mem_of_find?_eq_some found') (by simpa using List.find?_some found'), named,
        ZMod.natCast_zmod_val]
    next missing =>
      have other := List.find?_eq_none.mp missing row mem
      simp at other
  next =>
    have below : z.val < 16 ^ digits := (ZMod.val_lt z).trans_le small
    simp only [pointNumber, ofNat_value_digits fits below, EccReg.zero_value]
    split
    next row found =>
      have zero : row.2 = (z.val, 0) := by simpa using List.find?_some found
      exact absurd (congrArg Prod.snd zero) (rowsFit row (List.mem_of_find?_eq_some found)).2.2.1
    next => exact ZMod.natCast_zmod_val z

theorem numberedUnit_performs {c : EccCurve} (fits : digits ≤ 144) (small : order ≤ 16 ^ digits)
    (rowsFit : RowsFit digits rows) (base : numberedPoint order rows 1 = c.base) :
    (numberedUnit order rows).Performs c (numberedPoint order rows) 1 where
  base := base
  mul k p := by simp only [numberedUnit, pointNumber_point fits small rowsFit]
  add p q := by simp only [numberedUnit, pointNumber_point fits small rowsFit]

theorem numberedPoint_small (fits : digits ≤ 144) (small : order ≤ 16 ^ digits) (rowsFit : RowsFit digits rows)
    (z : ZMod order) : (numberedPoint order rows z).1.value < 16 ^ digits ∧
      (numberedPoint order rows z).2.value < 16 ^ digits := by
  rw [numberedPoint]
  split
  next row found =>
    obtain ⟨lowX, lowY, -⟩ := rowsFit row (List.mem_of_find?_eq_some found)
    dsimp only
    rw [ofNat_value_digits fits lowX, ofNat_value_digits fits lowY]
    exact ⟨lowX, lowY⟩
  next =>
    have below : z.val < 16 ^ digits := (ZMod.val_lt z).trans_le small
    dsimp only
    rw [ofNat_value_digits fits below, EccReg.zero_value]
    exact ⟨below, Nat.pow_pos (by decide)⟩

omit [NeZero order] in
theorem numberedPoint_multiple {k : Nat} (below : k < order) : numberedPoint order rows (k • 1) =
    match rows.find? (·.1 == k) with
    | some row => (.ofNat row.2.1, .ofNat row.2.2)
    | none => (.ofNat k, .zero) := by
  rw [numberedPoint, nsmul_eq_mul, mul_one, ZMod.val_natCast, Nat.mod_eq_of_lt below]

end Numbered

def p192Rows : List (Nat × Nat × Nat) :=
  [(1, 0x188da80eb03090f67cbf20eb43a18800f4ff0afd82ff1012, 0x07192b95ffc8da78631011ed6b24cdd573f977a11e794811),
    (2, 0xdafebf5828783f2ad35534631588a3f629a70fb16982a888, 0xdd6bda0d993da0fa46b27bbc141b868f59331afa5c7e93ab),
    (3, 0x76e32a2557599e6edcd283201fb2b9aadfd0d359cbb263da, 0x782c37e372ba4520aa62e0fed121d49ef3b543660cfd05fd)]

def p192Multiple (z : ZMod p192Order) : EccPoint := numberedPoint p192Order p192Rows z

def p192Unit : EccUnit := numberedUnit p192Order p192Rows

theorem p192Unit_performs : p192Unit.Performs p192 p192Multiple 1 := by
  have order : NeZero p192Order := ⟨by decide⟩
  have base : numberedPoint p192Order p192Rows 1 = p192.base := by
    rw [← one_nsmul (1 : ZMod p192Order), numberedPoint_multiple (by decide)]
    exact Prod.ext (EccReg.ext (by decide)) (EccReg.ext (by decide))
  exact @numberedUnit_performs _ 48 order _ _ (by decide) (by decide) (by decide) base

abbrev p192Triple : Nat := 0x76e32a2557599e6edcd283201fb2b9aadfd0d359cbb263da

def p192Message : HexInput := .ofNat 48 p192Triple (by decide)
def p192KeyX : HexInput := .ofNat 48 0xdafebf5828783f2ad35534631588a3f629a70fb16982a888 (by decide)
def p192KeyY : HexInput := .ofNat 48 0xdd6bda0d993da0fa46b27bbc141b868f59331afa5c7e93ab (by decide)

theorem p192_found : getCurve .p192 = some p192 := rfl

theorem p192_key : (hexReg p192KeyX.text, hexReg p192KeyY.text) = p192Multiple (2 • 1) := by
  rw [p192Multiple, numberedPoint_multiple (by decide)]
  exact Prod.ext (EccReg.ext (by decide)) (EccReg.ext (by decide))

theorem p192Multiple_three : (p192Multiple (3 • 1)).1.value % p192Order = p192Triple := by
  rw [p192Multiple, numberedPoint_multiple (by decide)]
  exact congrArg (· % p192Order) (@ofNat_value_digits 48 (by decide) p192Triple (by decide))

def p192D : HexInput := .ofNat 1 2 (by decide)
def p192K : HexInput := .ofNat 1 3 (by decide)

theorem p192_nonceX : p192Unit.nonceX p192 p192Order p192K.number = p192Triple := by
  have three : p192K.number = 3 := HexInput.ofNat_number (by decide) (by decide)
  rw [EccUnit.nonceX, ← p192Unit_performs.base, p192Unit_performs.mul, three]
  exact p192Multiple_three

theorem p192_order : p192.order = addOrderOf (1 : ZMod p192Order) := (ZMod.addOrderOf_one p192Order).symm

theorem p192_coprime : Nat.Coprime 3 p192Order ∧ Nat.Coprime p192Triple p192Order ∧
    Nat.Coprime (p192Triple + p192Order) p192Order := ⟨rfl, rfl, rfl⟩

theorem p192_signed {s : Nat}
    (made : modDiv (p192Message.number + p192D.number * p192Unit.nonceX p192 p192Order p192K.number)
      p192K.number p192Order = some s) : s = p192Triple := by
  have message : p192Message.number = p192Triple := HexInput.ofNat_number (by decide) (by decide)
  have two : p192D.number = 2 := HexInput.ofNat_number (by decide) (by decide)
  have three : p192K.number = 3 := HexInput.ofNat_number (by decide) (by decide)
  rw [p192_nonceX, message, two, three, modDiv_eq_some (q := p192Triple) (by decide) (by decide) (by decide)
    p192_coprime.1] at made
  exact (Option.some.inj made).symm

end P192

end NuMakerMA35
