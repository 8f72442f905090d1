import NuMakerMA35.EccMutiply
import NuMakerMA35.EccShift

namespace NuMakerMA35

open HexText

/-- The command of `ECC_GeneratePublicKey`: SCAP and ASCAP are bits 14 and 15, CSEL is bit 13, PFA2C
bit 3. -/
def eccPublicCtl (eccCurve : EccCurveId) (c : EccCurve) : U32 :=
  let fsel : U32 := if c.gf = .gf2m then 0 else 0x100
  let csel : U32 := if eccCurve = .curve25519 then 0x4000 ||| 0x2000 else 0
  fsel ||| csel ||| 0xc000 ||| (BitVec.ofNat 32 c.keyLen <<< 22 ||| eccopPointMul ||| 0x8 ||| 1)

/-- `ECC_GeneratePublicKey`: what it returns, and the texts that it writes for the two coordinates. -/
def eccGeneratePublicKey (unit : EccUnit) (eccCurve : EccCurveId) (privateK : List Byte) (regs : EccRegs) :
    Option (Int × List Byte × List Byte) :=
  match getCurve eccCurve with
  | none => some (-1, [], [])
  | some c => do
    let regs ← eccInitCurve c regs
    let regs := { regs with
      k := ← hex2Reg privateK .zero
      x2 := ← hex2Reg c.eorder.text .zero }
    let regs := unit.run (eccPublicCtl eccCurve c) regs
    some (0, reg2Hex c.echar regs.x1, reg2Hex c.echar regs.y1)

/-- The private key times the cofactor is in the scalar register of `ECC_GenerateSecretZ`. -/
def SecretLoads (eccCurve : EccCurveId) (key : HexInput) : Prop :=
  ∀ shift ∈ secretShift eccCurve, key.number * 2 ^ shift < 16 ^ key.text.length ∨
    (8 ∣ key.text.length ∧ key.text.length < 144)

section Agreement

variable {unit unit' : EccUnit} {c : EccCurve} {eccCurve : EccCurveId}

theorem eccCurves_keyCommands : (eccCurves.all fun c =>
    [eccCtl c eccopPointMul false, eccPublicCtl .p192 c].all fun ctl => ctl >>> 9 &&& (3 : U32) == 0 &&
      (ctl.getLsbD 8 == decide (c.gf = .gfP) && (ctl >>> 22).toNat == c.keyLen)) = true := by
  decide

theorem eccPublicCtl_plain (plain : eccCurve ≠ .curve25519) : eccPublicCtl eccCurve c = eccPublicCtl .p192 c := by
  rw [eccPublicCtl, eccPublicCtl, if_neg plain]
  rfl

theorem EccUnit.run_key (unit : EccUnit) (listed : c ∈ eccCurves) {ctl : U32}
    (known : ctl ∈ [eccCtl c eccopPointMul false, eccPublicCtl .p192 c]) (x1 y1 x2 y2 k : EccReg) :
    let left := unit.run ctl ⟨hexReg c.ea.text, hexReg c.eb.text, x1, y1, x2, y2, c.fieldReg, k⟩
    left.x1 = (unit.pointMul c.domain k.value (x1, y1)).1 ∧
      left.y1 = (unit.pointMul c.domain k.value (x1, y1)).2 := by
  have row := List.all_eq_true.mp (List.all_eq_true.mp eccCurves_keyCommands c listed) ctl known
  rw [Bool.and_eq_true, Bool.and_eq_true, beq_iff_eq, beq_iff_eq, beq_iff_eq] at row
  obtain ⟨eccop, fsel, curveM⟩ := row
  have point := (unit.run_point
    ⟨hexReg c.ea.text, hexReg c.eb.text, x1, y1, x2, y2, c.fieldReg, k⟩).1 eccop
  rw [fsel, curveM] at point
  have domain := EccRegs.domain_init listed x1 y1 x2 y2 k
  rw [EccRegs.domain] at domain
  rw [domain] at point
  exact Prod.mk.inj point

theorem hexReg_reg2Hex {count : Nat} {reg : EccReg} (fits : count ≤ 144) (small : reg.value < 16 ^ count) :
    hex2Reg (reg2Hex count reg) .zero = some reg := by
  have names := reg2Hex_names count reg
  have length : (reg2Hex count reg).length ≤ 144 := by rwa [reg2Hex_eq, hexText_length]
  have same : hexReg (reg2Hex count reg) = reg := by
    apply EccReg.value_inj
    rw [hexReg_value names.1 length, names.2, Nat.mod_eq_of_lt small]
  rw [hex2Reg_zero length, same]

theorem secretScalar_value {key : HexInput} (loads : SecretLoads eccCurve key) :
    ∃ reg, secretScalar eccCurve key.text = some reg ∧
      reg.value = key.number * 2 ^ (secretShift eccCurve).getD 0 := by
  unfold secretScalar
  cases called : secretShift eccCurve with
  | none => exact ⟨_, key.loaded, by rw [key.hexReg_value, Option.getD_none, Nat.pow_zero, Nat.mul_one]⟩
  | some shift => exact (hex2RegEx_shifted_iff called key.hex key.fits).mpr (loads shift called)

variable {G : Type} [AddCommGroup G] {rep : G → EccPoint} {g : G} {key : HexInput}

theorem eccGeneratePublicKey_eq (found : getCurve eccCurve = some c) (plain : eccCurve ≠ .curve25519)
    (performs : unit.Performs c rep g) (regs : EccRegs) :
    eccGeneratePublicKey unit eccCurve key.text regs = some (0, reg2Hex c.echar (rep (key.number • g)).1,
      reg2Hex c.echar (rep (key.number • g)).2) := by
  have listed := getCurve_listed found
  have run := fun x2 y2 => unit.run_key listed (show eccPublicCtl .p192 c ∈ _ by simp)
    (hexReg c.px.text) (hexReg c.py.text) x2 y2 (hexReg key.text)
  simp only [eccGeneratePublicKey, found, eccInitCurve_eq listed, key.loaded, (order_loaded listed).1,
    Option.bind_eq_bind, Option.bind_some, eccPublicCtl_plain plain, (run _ _).1, (run _ _).2, key.hexReg_value]
  rw [← EccCurve.base, ← performs.base, performs.mul]

theorem eccGenerateSecretZ_eq (found : getCurve eccCurve = some c) (performs : unit.Performs c rep g)
    (loads : SecretLoads eccCurve key) {p : G}
    (small : (rep p).1.value < 16 ^ c.echar ∧ (rep p).2.value < 16 ^ c.echar) (regs : EccRegs) :
    eccGenerateSecretZ unit eccCurve key.text (reg2Hex c.echar (rep p).1) (reg2Hex c.echar (rep p).2) regs =
      some (0, reg2Hex c.echar (rep ((key.number * 2 ^ (secretShift eccCurve).getD 0) • p)).1) := by
  have listed := getCurve_listed found
  have fits := eccCurves_echar c listed
  obtain ⟨scalar, loaded, number⟩ := secretScalar_value loads
  have run := fun x2 y2 => (unit.run_key listed (show eccCtl c eccopPointMul false ∈ _ by simp)
    (rep p).1 (rep p).2 x2 y2 scalar).1
  simp only [eccGenerateSecretZ, found, eccInitCurve_eq listed, loaded, hexReg_reg2Hex fits small.1,
    hexReg_reg2Hex fits small.2, Option.bind_eq_bind, Option.bind_some, runEccCodec, run, number]
  rw [performs.mul]

/-- Two parties, each with an accelerator of its own, that send each other the public keys of their
private keys get the same secret: the first coordinate of the product of both keys and the cofactor. -/
theorem ecc_secret_agreed (found : getCurve eccCurve = some c) (plain : eccCurve ≠ .curve25519)
    (performs : unit.Performs c rep g) (performs' : unit'.Performs c rep g)
    (small : ∀ p, (rep p).1.value < 16 ^ c.echar ∧ (rep p).2.value < 16 ^ c.echar) {a b : HexInput}
    (loads : SecretLoads eccCurve a) (loads' : SecretLoads eccCurve b) (regs regs' later later' : EccRegs) :
    ∃ xA yA xB yB z, eccGeneratePublicKey unit eccCurve a.text regs = some (0, xA, yA) ∧
      eccGeneratePublicKey unit' eccCurve b.text regs' = some (0, xB, yB) ∧
      eccGenerateSecretZ unit eccCurve a.text xB yB later = some (0, z) ∧
      eccGenerateSecretZ unit' eccCurve b.text xA yA later' = some (0, z) ∧
      Names z (rep ((2 ^ (secretShift eccCurve).getD 0 * a.number * b.number) • g)).1.value := by
  refine ⟨_, _, _, _, _, eccGeneratePublicKey_eq found plain performs regs,
    eccGeneratePublicKey_eq found plain performs' regs', eccGenerateSecretZ_eq found performs loads (small _) later,
    ?_, ?_⟩
  · rw [eccGenerateSecretZ_eq found performs' loads' (small _), smul_smul, smul_smul, Nat.mul_right_comm,
      Nat.mul_right_comm a.number, Nat.mul_comm b.number]
  · have names := reg2Hex_names c.echar
      (rep ((a.number * 2 ^ (secretShift eccCurve).getD 0) • b.number • g)).1
    rw [Nat.mod_eq_of_lt (small _).1, smul_smul, Nat.mul_comm a.number] at names
    rwa [smul_smul, Nat.mul_comm a.number]

abbrev b163Order : Nat := 0x40000000000000000000292FE77E70C12A4234C33
abbrev b163A : Nat := 0x1f2e3d4c5b6a79880918273645546372819a0b1c2
abbrev b163B : Nat := 0x2a3b4c5d6e7f8091a2b3c4d5e6f708192a3b4c5d6

def b163 : EccCurve := eccCurves.get ⟨5, by decide⟩

/-- The base point of B-163, its multiples by two keys, and that by both and the cofactor 2. -/
def b163Rows : List (Nat × Nat × Nat) :=
  [(1, 0x3f0eba16286a2d57ea0991168d4994637e8343e36, 0x0d51fbc6c71a0094fa2cdd545b11c5c0c797324f1),
    (b163A, 0x25428cf42e4499d1bb94c1aba79f33f17791321c5, 0x69b78e82026cf0dd0c49880e00ffcc98847878809),
    (b163B, 0x4e0e382385d73232a84a9a86c768c6cd61c6b7df8, 0x4df9663c00c8d3590fcfc86ba0b8f2a74973a809a),
    (2 * b163A * b163B % b163Order,
      0x4a64abfc54f2c1c2785b858a2be0523ef0ed43ed6, 0x662fc64900c521ca2dbb9c7c62fd63825f3efc748)]

def b163KeyA : HexInput := .ofNat 41 b163A (by decide)
def b163KeyB : HexInput := .ofNat 41 b163B (by decide)

theorem b163_found : getCurve .b163 = some b163 := rfl

theorem b163_secret_agreed : ∃ xA yA xB yB z,
    eccGeneratePublicKey (numberedUnit b163Order b163Rows) .b163 b163KeyA.text clearRegs = some (0, xA, yA) ∧
      eccGeneratePublicKey (numberedUnit b163Order b163Rows) .b163 b163KeyB.text clearRegs = some (0, xB, yB) ∧
      eccGenerateSecretZ (numberedUnit b163Order b163Rows) .b163 b163KeyA.text xB yB clearRegs = some (0, z) ∧
      eccGenerateSecretZ (numberedUnit b163Order b163Rows) .b163 b163KeyB.text xA yA clearRegs = some (0, z) ∧
      Names z (numberedPoint b163Order b163Rows ((2 ^ 1 * b163KeyA.number * b163KeyB.number) • 1)).1.value := by
  have order : NeZero b163Order := ⟨by decide⟩
  have base : numberedPoint b163Order b163Rows 1 = b163.base := by
    rw [← one_nsmul (1 : ZMod b163Order), numberedPoint_multiple (by decide)]
    exact Prod.ext (EccReg.ext (by decide)) (EccReg.ext (by decide))
  have rowsFit : RowsFit 41 b163Rows := by decide
  have performs := @numberedUnit_performs _ 41 order _ _ (by decide) (by decide) rowsFit base
  have numberA : b163KeyA.number = b163A := HexInput.ofNat_number (by decide) (by decide)
  have numberB : b163KeyB.number = b163B := HexInput.ofNat_number (by decide) (by decide)
  have loads : SecretLoads .b163 b163KeyA ∧ SecretLoads .b163 b163KeyB := by
    refine ⟨fun shift called => .inl ?_, fun shift called => .inl ?_⟩
    · rw [← Option.some.inj called, numberA, show b163KeyA.text.length = 41 from hexText_length 41 b163A]
      decide
    · rw [← Option.some.inj called, numberB, show b163KeyB.text.length = 41 from hexText_length 41 b163B]
      decide
  exact ecc_secret_agreed b163_found (by decide) performs performs
    (numberedPoint_small (by decide) (by decide) rowsFit) loads.1 loads.2 _ _ _ _

end Agreement

end NuMakerMA35
