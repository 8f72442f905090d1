import NuMakerMA35.EccRegister

namespace NuMakerMA35

open HexText ModQuotient

def hexReg (text : List Byte) : EccReg := (hex2Reg text .zero).getD .zero

theorem hex2Reg_zero {text : List Byte} (fits : text.length ≤ 144) :
    hex2Reg text .zero = some (hexReg text) := by
  cases found : hex2Reg text .zero with
  | none =>
    have long := hex2Reg_eq_none.mp found
    omega
  | some reg => rw [hexReg, found, Option.getD_some]

theorem hexReg_value {text : List Byte} (hex : text.all isHexDigit = true) (fits : text.length ≤ 144) :
    (hexReg text).value = value text := by
  obtain ⟨reg, found, number⟩ := hex2Reg_value hex fits
  rw [hexReg, found, Option.getD_some, number]

namespace EccCurve

variable (c : EccCurve)

/-- The number of the table's `Eorder`, which the code takes for the order of the base point; that of KO-224
lacks its leading digit. -/
def order : Nat := c.eorder.number

def base : EccPoint := (hexReg c.px.text, hexReg c.py.text)

def fieldReg : EccReg :=
  match c.gf with
  | .gf2m => ((((EccReg.zero.orBit 0).orBit c.keyLen).orBit c.irreducibleK1).orBit
      c.irreducibleK2).orBit c.irreducibleK3
  | .gfP => hexReg c.pp.text

def fieldModulus : Nat :=
  match c.gf with
  | .gf2m => 2 ^ c.keyLen ||| 2 ^ c.irreducibleK1 ||| 2 ^ c.irreducibleK2 ||| 2 ^ c.irreducibleK3 ||| 1
  | .gfP => c.pp.number

/-- The group that the curve's numbers stand for. -/
def domain : EccDomain := ⟨c.gf = .gfP, c.keyLen, c.ea.number, c.eb.number, c.fieldModulus⟩

def literals : List HexLiteral := [c.ea, c.eb, c.px, c.py, c.pp, c.eorder]

end EccCurve

theorem getCurve_listed {eccCurve : EccCurveId} {c : EccCurve} (found : getCurve eccCurve = some c) :
    c ∈ eccCurves :=
  List.mem_of_find?_eq_some found

theorem eccCurves_rows : ∀ c ∈ eccCurves,
    (∀ literal ∈ c.literals, literal.number < 16 ^ literal.length ∧ literal.length ≤ 144) ∧
    (1 < c.order ∧ c.order < 16 ^ c.echar ∧ c.order < (2 ^ 32) ^ 18) ∧
    c.echar ≤ 144 ∧ (c.gf = .gf2m → c.fieldReg.value = c.fieldModulus) := by
  decide +kernel

theorem eccCurves_commands : (eccCurves.all fun c =>
    ([modopDiv, modopMul, modopAdd].all fun modop =>
      eccCtl c (eccopModule ||| modop) false >>> 9 &&& 3 == 1 &&
        eccCtl c (eccopModule ||| modop) false >>> 11 &&& (3 : U32) == modop >>> 11) &&
    [(eccopPointMul, true), (eccopPointAdd, false)].all fun mode =>
      eccCtl c mode.1 mode.2 >>> 9 &&& (3 : U32) == mode.1 >>> 9 &&
        ((eccCtl c mode.1 mode.2).getLsbD 8 == decide (c.gf = .gfP) &&
          (eccCtl c mode.1 mode.2 >>> 22).toNat == c.keyLen)) = true := by
  decide

theorem eccCurves_literals : ∀ c ∈ eccCurves, ∀ literal ∈ c.literals,
    literal.number < 16 ^ literal.length ∧ literal.length ≤ 144 :=
  fun c listed => (eccCurves_rows c listed).1

theorem eccCurves_order : ∀ c ∈ eccCurves,
    1 < c.order ∧ c.order < 16 ^ c.echar ∧ c.order < (2 ^ 32) ^ 18 :=
  fun c listed => (eccCurves_rows c listed).2.1

theorem eccCurves_echar : ∀ c ∈ eccCurves, c.echar ≤ 144 :=
  fun c listed => (eccCurves_rows c listed).2.2.1

theorem HexLiteral.hexReg_text {literal : HexLiteral} (number : literal.number < 16 ^ literal.length)
    (fits : literal.length ≤ 144) :
    hex2Reg literal.text .zero = some (hexReg literal.text) ∧
      (hexReg literal.text).value = literal.number := by
  have names : Names literal.text _ := hexText_names literal.length literal.number
  have length : literal.text.length ≤ 144 := by rwa [text, hexText_length]
  refine ⟨hex2Reg_zero length, ?_⟩
  rw [hexReg_value names.1 length]
  exact names.2.trans (Nat.mod_eq_of_lt number)

theorem eccCurves_modulus : ∀ c ∈ eccCurves, c.fieldReg.value = c.fieldModulus := by
  intro c listed
  obtain ⟨-, -, -, polynomial⟩ := eccCurves_rows c listed
  cases field : c.gf with
  | gf2m => exact polynomial field
  | gfP =>
    obtain ⟨number, fits⟩ := eccCurves_literals c listed c.pp (by simp [EccCurve.literals])
    rw [EccCurve.fieldReg, EccCurve.fieldModulus, field]
    exact (HexLiteral.hexReg_text number fits).2

theorem eccCtl_module {c : EccCurve} (listed : c ∈ eccCurves) {modop : U32}
    (known : modop ∈ [modopDiv, modopMul, modopAdd]) :
    eccCtl c (eccopModule ||| modop) false >>> 9 &&& 3 = 1 ∧
      eccCtl c (eccopModule ||| modop) false >>> 11 &&& (3 : U32) = modop >>> 11 := by
  have row := List.all_eq_true.mp eccCurves_commands c listed
  rw [Bool.and_eq_true] at row
  simpa using List.all_eq_true.mp row.1 modop known

theorem eccCtl_point {c : EccCurve} (listed : c ∈ eccCurves) {mode : U32 × Bool}
    (known : mode ∈ [(eccopPointMul, true), (eccopPointAdd, false)]) :
    eccCtl c mode.1 mode.2 >>> 9 &&& (3 : U32) = mode.1 >>> 9 ∧
      (eccCtl c mode.1 mode.2).getLsbD 8 = decide (c.gf = .gfP) ∧
      (eccCtl c mode.1 mode.2 >>> 22).toNat = c.keyLen := by
  have row := List.all_eq_true.mp eccCurves_commands c listed
  rw [Bool.and_eq_true] at row
  have entry := List.all_eq_true.mp row.2 mode known
  rwa [Bool.and_eq_true, Bool.and_eq_true, beq_iff_eq, beq_iff_eq, beq_iff_eq] at entry

theorem eccInitCurve_eq {c : EccCurve} (listed : c ∈ eccCurves) (regs : EccRegs) :
    eccInitCurve c regs = some { regs with
      a := hexReg c.ea.text, b := hexReg c.eb.text, x1 := hexReg c.px.text, y1 := hexReg c.py.text,
      x2 := .zero, y2 := .zero, n := c.fieldReg } := by
  have loaded {literal : HexLiteral} (inside : literal ∈ c.literals) :
      hex2Reg literal.text .zero = some (hexReg literal.text) := by
    obtain ⟨number, fits⟩ := eccCurves_literals c listed literal inside
    exact (HexLiteral.hexReg_text number fits).1
  rw [eccInitCurve, loaded (by simp [EccCurve.literals]), loaded (by simp [EccCurve.literals]),
    loaded (by simp [EccCurve.literals]), loaded (by simp [EccCurve.literals]), EccCurve.fieldReg]
  cases c.gf with
  | gf2m => rfl
  | gfP =>
    rw [loaded (by simp [EccCurve.literals])]
    rfl

section Run

variable {c : EccCurve} (unit : EccUnit) (regs : EccRegs)

def EccRegs.domain (c : EccCurve) : EccDomain :=
  ⟨c.gf = .gfP, c.keyLen, regs.a.value, regs.b.value, regs.n.value⟩

theorem EccUnit.run_module {ctl : U32} {result : Nat} (eccop : ctl >>> 9 &&& 3 = 1)
    (done : unit.modular (ctl >>> 11 &&& 3) regs = some result) :
    (unit.run ctl regs).x1 = .ofNat result := by
  simp only [run]
  rw [if_neg (by rw [eccop]; decide), if_pos eccop, done]

theorem EccUnit.run_point {ctl : U32} :
    (ctl >>> 9 &&& 3 = 0 → ((unit.run ctl regs).x1, (unit.run ctl regs).y1) =
      unit.pointMul ⟨ctl.getLsbD 8, (ctl >>> 22).toNat, regs.a.value, regs.b.value, regs.n.value⟩
        regs.k.value (regs.x1, regs.y1)) ∧
    (ctl >>> 9 &&& 3 = 2 → ((unit.run ctl regs).x1, (unit.run ctl regs).y1) =
      unit.pointAdd ⟨ctl.getLsbD 8, (ctl >>> 22).toNat, regs.a.value, regs.b.value, regs.n.value⟩
        (regs.x1, regs.y1) (regs.x2, regs.y2)) := by
  constructor
  · intro eccop
    simp only [run]
    rw [if_pos eccop]
  · intro eccop
    simp only [run]
    rw [if_neg (by rw [eccop]; decide), if_neg (by rw [eccop]; decide), if_pos eccop]

theorem runEccCodec_mul (listed : c ∈ eccCurves) :
    (runEccCodec unit c (eccopModule ||| modopMul) false regs).x1 =
      .ofNat (regs.x1.value * regs.y1.value % regs.n.value) := by
  obtain ⟨eccop, modop⟩ := eccCtl_module listed (show modopMul ∈ _ by simp)
  apply EccUnit.run_module _ _ eccop
  rw [modop]
  rfl

theorem runEccCodec_add (listed : c ∈ eccCurves) :
    (runEccCodec unit c (eccopModule ||| modopAdd) false regs).x1 =
      .ofNat ((regs.x1.value + regs.y1.value) % regs.n.value) := by
  obtain ⟨eccop, modop⟩ := eccCtl_module listed (show modopAdd ∈ _ by simp)
  apply EccUnit.run_module _ _ eccop
  rw [modop]
  rfl

theorem runEccCodec_div (listed : c ∈ eccCurves) :
    (runEccCodec unit c (eccopModule ||| modopDiv) false regs).x1 =
      .ofNat (unit.modDivide regs.y1.value regs.x1.value regs.n.value) := by
  obtain ⟨eccop, modop⟩ := eccCtl_module listed (show modopDiv ∈ _ by simp)
  apply EccUnit.run_module _ _ eccop
  rw [modop]
  rfl

theorem runEccCodec_pointMul (listed : c ∈ eccCurves) :
    let left := runEccCodec unit c eccopPointMul true regs
    (left.x1, left.y1) = unit.pointMul (regs.domain c) regs.k.value (regs.x1, regs.y1) := by
  obtain ⟨eccop, fsel, curveM⟩ := eccCtl_point listed (show (eccopPointMul, true) ∈ _ by simp)
  intro left
  have run := (unit.run_point regs).1 (eccop.trans (by decide))
  rwa [fsel, curveM] at run

theorem runEccCodec_pointAdd (listed : c ∈ eccCurves) :
    let left := runEccCodec unit c eccopPointAdd false regs
    (left.x1, left.y1) = unit.pointAdd (regs.domain c) (regs.x1, regs.y1) (regs.x2, regs.y2) := by
  obtain ⟨eccop, fsel, curveM⟩ := eccCtl_point listed (show (eccopPointAdd, false) ∈ _ by simp)
  intro left
  have run := (unit.run_point regs).2 (eccop.trans (by decide))
  rwa [fsel, curveM] at run

theorem EccRegs.domain_init (listed : c ∈ eccCurves) (x1 y1 x2 y2 k : EccReg) :
    EccRegs.domain ⟨hexReg c.ea.text, hexReg c.eb.text, x1, y1, x2, y2, c.fieldReg, k⟩ c = c.domain := by
  have number {literal : HexLiteral} (inside : literal ∈ c.literals) :
      (hexReg literal.text).value = literal.number := by
    obtain ⟨number, fits⟩ := eccCurves_literals c listed literal inside
    exact (HexLiteral.hexReg_text number fits).2
  rw [EccRegs.domain, EccCurve.domain, number (by simp [EccCurve.literals]),
    number (by simp [EccCurve.literals]), eccCurves_modulus c listed]

theorem pointMul_init (listed : c ∈ eccCurves) (x1 y1 x2 y2 k : EccReg) :
    let left := runEccCodec unit c eccopPointMul true
      ⟨hexReg c.ea.text, hexReg c.eb.text, x1, y1, x2, y2, c.fieldReg, k⟩
    left.x1 = (unit.pointMul c.domain k.value (x1, y1)).1 ∧
      left.y1 = (unit.pointMul c.domain k.value (x1, y1)).2 := by
  have point := runEccCodec_pointMul unit
    ⟨hexReg c.ea.text, hexReg c.eb.text, x1, y1, x2, y2, c.fieldReg, k⟩ listed
  rw [EccRegs.domain_init listed] at point
  exact Prod.mk.inj point

theorem pointAdd_init (listed : c ∈ eccCurves) (x1 y1 x2 y2 k : EccReg) :
    (runEccCodec unit c eccopPointAdd false
      ⟨hexReg c.ea.text, hexReg c.eb.text, x1, y1, x2, y2, c.fieldReg, k⟩).x1 =
      (unit.pointAdd c.domain (x1, y1) (x2, y2)).1 := by
  have point := runEccCodec_pointAdd unit
    ⟨hexReg c.ea.text, hexReg c.eb.text, x1, y1, x2, y2, c.fieldReg, k⟩ listed
  rw [EccRegs.domain_init listed] at point
  exact (Prod.mk.inj point).1

end Run

end NuMakerMA35
