import NuMakerMA35.EccRegister

namespace NuMakerMA35

open HexText

/-- The inner loop of `Hex2RegEx` over up to eight characters, from the last one back: the word, and
the bits that the last digit was shifted out of it. -/
def hexWordExLoop (shift : Nat) : List Byte → Nat → U32 → U32 → U32 × U32
  | [], _, val32, carry => (val32, carry)
  | ch :: rest, i, val32, carry =>
    let hex := (ch2hex ch).setWidth 32 <<< shift
    hexWordExLoop shift rest (i + 1) (val32 ||| ((hex &&& 0xF) ||| carry) <<< (i * 4))
      ((hex >>> 4) &&& 0xF)

/-- The outer loop of `Hex2RegEx`, a word a turn; the text runs backwards. -/
def hexWordsEx (shift : Nat) : Nat → List Byte → U32 → List U32 × U32
  | 0, _, carry => ([], carry)
  | turns + 1, text, carry =>
    let word := hexWordExLoop shift (text.take 8) 0 0 carry
    let rest := hexWordsEx shift turns (text.drop 8) word.2
    (word.1 :: rest.1, rest.2)

/-- `Hex2RegEx` on a text without its final zero: the last carry goes to the word after the last. -/
def hex2RegEx (input : List Byte) (reg : EccReg) (shift : Nat) : Option EccReg :=
  let loaded := hexWordsEx shift ((input.length + 7) / 8) input.reverse 0
  reg.store (if loaded.2 ≠ 0 then loaded.1 ++ [loaded.2] else loaded.1)

/-- The cofactor of a curve over a binary field, as the shift that `ECC_GenerateSecretZ` asks for. -/
def secretShift : EccCurveId → Option Nat
  | .b163 | .b233 | .b283 | .b409 | .b571 | .k163 => some 1
  | .k233 | .k283 | .k409 | .k571 => some 2
  | _ => none

/-- The scalar register of `ECC_GenerateSecretZ`, which it clears first. -/
def secretScalar (eccCurve : EccCurveId) (privateK : List Byte) : Option EccReg :=
  match secretShift eccCurve with
  | some shift => hex2RegEx privateK .zero shift
  | none => hex2Reg privateK .zero

/-- `ECC_GenerateSecretZ`: what it returns, and the text that it writes to `secret_z`. -/
def eccGenerateSecretZ (unit : EccUnit) (eccCurve : EccCurveId)
    (privateK publicK1 publicK2 : List Byte) (regs : EccRegs) : Option (Int × List Byte) :=
  match getCurve eccCurve with
  | none => some (-1, [])
  | some c => do
    let regs ← eccInitCurve c regs
    let regs := { regs with
      k := ← secretScalar eccCurve privateK
      x1 := ← hex2Reg publicK1 .zero
      y1 := ← hex2Reg publicK2 .zero
      x2 := .zero }
    let regs := runEccCodec unit c eccopPointMul false regs
    some (0, reg2Hex c.echar regs.x1)

theorem nibble_toNat (word : U32) : (word &&& 0xF).toNat = word.toNat % 16 := by
  rw [BitVec.toNat_and]
  exact Nat.and_two_pow_sub_one_eq_mod _ 4

theorem shifted_nibble {shift d : Nat} {hex carry : U32} (short : shift ≤ 4)
    (shifted : hex.toNat = d * 2 ^ shift) (digit : d < 16) (small : carry.toNat < 2 ^ shift) :
    ((hex &&& 0xF) ||| carry).toNat + 16 * ((hex >>> 4) &&& 0xF).toNat =
        d * 2 ^ shift + carry.toNat ∧
      ((hex &&& 0xF) ||| carry).toNat < 16 ∧ ((hex >>> 4) &&& 0xF).toNat < 2 ^ shift := by
  have power : 16 = 2 ^ (4 - shift) * 2 ^ shift := by
    rw [← Nat.pow_add, Nat.sub_add_cancel short]
  have low : (hex &&& 0xF).toNat = d % 2 ^ (4 - shift) * 2 ^ shift := by
    rw [nibble_toNat, shifted, ← Nat.mul_mod_mul_right, ← power]
  have joined : ((hex &&& 0xF) ||| carry).toNat =
      d % 2 ^ (4 - shift) * 2 ^ shift + carry.toNat := by
    rw [BitVec.toNat_or, low, ← Nat.shiftLeft_eq, Nat.shiftLeft_add_eq_or_of_lt small]
  have high : ((hex >>> 4) &&& 0xF).toNat = d * 2 ^ shift / 16 := by
    have top : 2 ^ shift ≤ 2 ^ 4 := Nat.pow_le_pow_right (by omega) short
    have most : d * 2 ^ shift ≤ 15 * 2 ^ 4 := Nat.mul_le_mul (by omega) top
    rw [nibble_toNat, BitVec.toNat_ushiftRight, Nat.shiftRight_eq_div_pow, shifted]
    omega
  have split : d % 2 ^ (4 - shift) * 2 ^ shift = d * 2 ^ shift % 16 := by
    rw [← Nat.mul_mod_mul_right, ← power]
  have below : d % 2 ^ (4 - shift) * 2 ^ shift + 2 ^ shift ≤ 16 := by
    have left := Nat.mod_lt d (Nat.two_pow_pos (4 - shift))
    calc d % 2 ^ (4 - shift) * 2 ^ shift + 2 ^ shift = (d % 2 ^ (4 - shift) + 1) * 2 ^ shift := by
          ring
      _ ≤ 2 ^ (4 - shift) * 2 ^ shift := Nat.mul_le_mul_right _ left
      _ = 16 := power.symm
  have upper : d * 2 ^ shift / 16 < 2 ^ shift := by
    apply Nat.div_lt_of_lt_mul
    exact Nat.mul_lt_mul_of_pos_right digit (Nat.two_pow_pos shift)
  refine ⟨?_, by omega, by omega⟩
  rw [joined, high, split]
  omega

theorem hexWordExLoop_spec {shift : Nat} (short : shift ≤ 4) {text : List Byte} (i : Nat)
    (val32 : U32) {carry : U32} (hex : text.all isHexDigit = true) (room : i + text.length ≤ 8)
    (low : val32.toNat < 16 ^ i) (small : carry.toNat < 2 ^ shift) :
    let word := hexWordExLoop shift text i val32 carry
    word.1.toNat + 16 ^ (i + text.length) * word.2.toNat = val32.toNat +
        16 ^ i * (2 ^ shift * Nat.ofDigits 16 (text.map digitValue) + carry.toNat) ∧
      word.1.toNat < 16 ^ (i + text.length) ∧ word.2.toNat < 2 ^ shift := by
  induction text generalizing i val32 carry with
  | nil => exact ⟨by simp [hexWordExLoop], low, small⟩
  | cons c rest ih =>
    rw [List.all_cons, Bool.and_eq_true] at hex
    rw [List.length_cons] at room
    have digit := digitValue_lt hex.1
    set raised := (ch2hex c).setWidth 32 <<< shift with named
    have shifted : raised.toNat = digitValue c * 2 ^ shift := by
      have top : 2 ^ shift ≤ 2 ^ 4 := Nat.pow_le_pow_right (by omega) short
      have most : digitValue c * 2 ^ shift ≤ 15 * 2 ^ 4 := Nat.mul_le_mul (by omega) top
      have word : (ch2hex c).toNat % 2 ^ 32 = digitValue c := by
        rw [ch2hex_toNat hex.1, Nat.mod_eq_of_lt (by omega)]
      rw [named, BitVec.toNat_shiftLeft, BitVec.toNat_setWidth, word, Nat.shiftLeft_eq,
        Nat.mod_eq_of_lt (by omega)]
    obtain ⟨kept, nibble, next⟩ := shifted_nibble short shifted digit small
    set placed := (raised &&& 0xF) ||| carry
    set left := (raised >>> 4) &&& 0xF
    have power : 16 ^ i = 2 ^ (i * 4) := by rw [Nat.mul_comm, Nat.pow_mul]
    have top : 16 ^ (i + 1) ≤ 16 ^ 8 := Nat.pow_le_pow_right (by omega) (by omega)
    have inside : placed.toNat * 16 ^ i + 16 ^ i ≤ 16 ^ (i + 1) := by
      rw [Nat.pow_succ', ← Nat.succ_mul]
      exact Nat.mul_le_mul_right _ nibble
    have moved : (placed <<< (i * 4)).toNat = placed.toNat * 2 ^ (i * 4) := by
      rw [BitVec.toNat_shiftLeft, Nat.shiftLeft_eq, ← power, Nat.mod_eq_of_lt]
      have := Nat.two_pow_pos (i * 4)
      omega
    have added : (val32 ||| placed <<< (i * 4)).toNat = val32.toNat + placed.toNat * 16 ^ i := by
      rw [BitVec.toNat_or, moved, Nat.or_comm, ← Nat.shiftLeft_eq,
        ← Nat.shiftLeft_add_eq_or_of_lt (power ▸ low), Nat.shiftLeft_eq, power, Nat.add_comm]
    have step := ih (i + 1) (val32 ||| placed <<< (i * 4)) hex.2 (by omega)
      (by rw [added]; omega) next
    have length : i + 1 + rest.length = i + (c :: rest).length := by
      rw [List.length_cons]
      omega
    rw [length] at step
    refine ⟨?_, step.2⟩
    show _ = _
    rw [hexWordExLoop, step.1, added, List.map_cons, Nat.ofDigits_cons, Nat.pow_succ']
    calc val32.toNat + placed.toNat * 16 ^ i + 16 * 16 ^ i *
          (2 ^ shift * Nat.ofDigits 16 (rest.map digitValue) + left.toNat)
        = val32.toNat + 16 ^ i * ((placed.toNat + 16 * left.toNat) +
          16 * (2 ^ shift * Nat.ofDigits 16 (rest.map digitValue))) := by ring
      _ = _ := by
        rw [kept]
        ring

theorem hexWordsEx_length (shift turns : Nat) (text : List Byte) (carry : U32) :
    (hexWordsEx shift turns text carry).1.length = turns := by
  induction turns generalizing text carry with
  | zero => rfl
  | succ turns ih => simp [hexWordsEx, ih]

theorem hexWordsEx_spec {shift : Nat} (short : shift ≤ 4) (turns : Nat) {text : List Byte}
    {carry : U32} (hex : text.all isHexDigit = true) (enough : text.length ≤ 8 * turns)
    (small : carry.toNat < 2 ^ shift) :
    let loaded := hexWordsEx shift turns text carry
    let number := Nat.ofDigits (2 ^ 32) (loaded.1.map BitVec.toNat)
    number + 16 ^ text.length * loaded.2.toNat =
        2 ^ shift * Nat.ofDigits 16 (text.map digitValue) + carry.toNat ∧
      number < 16 ^ text.length := by
  induction turns generalizing text carry with
  | zero =>
    have none : text = [] := List.eq_nil_of_length_eq_zero (by omega)
    simp [none, hexWordsEx]
  | succ turns ih =>
    have parts : (text.take 8).all isHexDigit = true ∧ (text.drop 8).all isHexDigit = true := by
      rw [← Bool.and_eq_true, ← List.all_append, List.take_append_drop]
      exact hex
    obtain ⟨word, first, next⟩ := hexWordExLoop_spec short 0 0 parts.1
      (by rw [List.length_take]; omega) (by simp) small
    simp only [Nat.zero_add, BitVec.toNat_zero, BitVec.ofNat_eq_ofNat, Nat.pow_zero,
      Nat.one_mul] at word first next
    obtain ⟨rest, below⟩ := ih parts.2 (by rw [List.length_drop]; omega) next
    have digits : Nat.ofDigits 16 (text.map digitValue) =
        Nat.ofDigits 16 ((text.take 8).map digitValue) + 16 ^ (text.take 8).length *
          Nat.ofDigits 16 ((text.drop 8).map digitValue) := by
      conv_lhs => rw [← List.take_append_drop 8 text, List.map_append, Nat.ofDigits_append,
        List.length_map]
    simp only [hexWordsEx, List.map_cons, Nat.ofDigits_cons, BitVec.ofNat_eq_ofNat]
    set found := hexWordExLoop shift (text.take 8) 0 0#32 carry
    set later := hexWordsEx shift turns (text.drop 8) found.2
    set number := Nat.ofDigits (2 ^ 32) (later.1.map BitVec.toNat)
    by_cases more : 8 ≤ text.length
    · have full : (text.take 8).length = 8 := by
        rw [List.length_take]
        omega
      have split : 16 ^ text.length = 2 ^ 32 * 16 ^ (text.drop 8).length := by
        rw [show (2 ^ 32 : Nat) = 16 ^ 8 by decide, ← Nat.pow_add, List.length_drop,
          Nat.add_sub_cancel' more]
      rw [full, show (16 ^ 8 : Nat) = 2 ^ 32 by decide] at word first
      rw [full, show (16 ^ 8 : Nat) = 2 ^ 32 by decide] at digits
      constructor
      · calc found.1.toNat + 2 ^ 32 * number + 16 ^ text.length * later.2.toNat
            = found.1.toNat + 2 ^ 32 * (number + 16 ^ (text.drop 8).length * later.2.toNat) := by
              rw [split]
              ring
          _ = (found.1.toNat + 2 ^ 32 * found.2.toNat) +
              2 ^ 32 * (2 ^ shift * Nat.ofDigits 16 ((text.drop 8).map digitValue)) := by
              rw [rest]
              ring
          _ = _ := by
              rw [word, digits]
              ring
      · rw [split]
        have := Nat.mul_le_mul_left (2 ^ 32) (show number + 1 ≤ 16 ^ (text.drop 8).length from below)
        omega
    · have none : text.drop 8 = [] := List.drop_eq_nil_of_le (by omega)
      have whole : text.take 8 = text := List.take_of_length_le (by omega)
      rw [none] at rest below
      simp only [List.length_nil, Nat.pow_zero, List.map_nil, Nat.ofDigits_nil, Nat.mul_zero,
        Nat.one_mul, Nat.lt_one_iff, Nat.zero_add] at rest below
      rw [whole] at word first
      rw [below] at rest ⊢
      exact ⟨by rw [← word, ← rest]; ring, by simpa using first⟩

theorem secretShift_le {eccCurve : EccCurveId} {shift : Nat}
    (called : secretShift eccCurve = some shift) :
    shift ≤ 4 := by
  revert called
  cases eccCurve <;> simp +contextual [secretShift, ← eq_comm]

/-- The shifted number is in the register just where the top digit shifts nothing out, or where what it
shifts out starts a word of its own that the register still has. -/
theorem hex2RegEx_shifted_iff {eccCurve : EccCurveId} {shift : Nat} {text : List Byte}
    (called : secretShift eccCurve = some shift) (hex : text.all isHexDigit = true)
    (fits : text.length ≤ 144) :
    (∃ reg, hex2RegEx text .zero shift = some reg ∧ reg.value = value text * 2 ^ shift) ↔
      value text * 2 ^ shift < 16 ^ text.length ∨ (8 ∣ text.length ∧ text.length < 144) := by
  have turns := hexWordsEx_length shift ((text.length + 7) / 8) text.reverse 0
  have digits : text.reverse.all isHexDigit = true := by rwa [List.all_reverse]
  have none : (0 : U32).toNat < 2 ^ shift := Nat.two_pow_pos shift
  obtain ⟨kept, below⟩ := hexWordsEx_spec (secretShift_le called) ((text.length + 7) / 8) digits
    (by rw [List.length_reverse]; omega) none
  have stores : hex2RegEx text .zero shift = EccReg.zero.store
      (if (hexWordsEx shift ((text.length + 7) / 8) text.reverse 0).2 ≠ 0 then
        (hexWordsEx shift ((text.length + 7) / 8) text.reverse 0).1 ++
          [(hexWordsEx shift ((text.length + 7) / 8) text.reverse 0).2]
      else (hexWordsEx shift ((text.length + 7) / 8) text.reverse 0).1) := rfl
  rw [stores]
  set loaded := hexWordsEx shift ((text.length + 7) / 8) text.reverse 0
  set number := Nat.ofDigits (2 ^ 32) (loaded.1.map BitVec.toNat)
  have whole : number + 16 ^ text.length * loaded.2.toNat = value text * 2 ^ shift := by
    rw [List.length_reverse, List.map_reverse] at kept
    rw [HexText.value, List.map_reverse, kept, Nat.mul_comm]
    exact Nat.add_zero _
  rw [List.length_reverse] at below
  by_cases quiet : loaded.2 = 0
  · -- nothing left over: the words are the number
    have gone : loaded.2.toNat = 0 := by rw [quiet]; rfl
    rw [gone, Nat.mul_zero, Nat.add_zero] at whole
    have stored := EccReg.store_zero_value (dif_pos (by omega) : EccReg.zero.store loaded.1 = some _)
    rw [if_neg (not_not.mpr quiet)]
    constructor
    · intro
      exact .inl (by omega)
    · intro
      exact ⟨_, dif_pos (by omega), stored.trans whole⟩
  · have carried : 0 < loaded.2.toNat :=
      BitVec.toNat_pos_of_ne_zero quiet
    have past : 16 ^ text.length ≤ value text * 2 ^ shift := by
      have := Nat.mul_le_mul_left (16 ^ text.length) carried
      omega
    have length : (loaded.1 ++ [loaded.2]).length = (text.length + 7) / 8 + 1 := by
      rw [List.length_append, turns, List.length_singleton]
    rw [if_pos quiet]
    constructor
    · rintro ⟨reg, stored, same⟩
      have room : (loaded.1 ++ [loaded.2]).length ≤ 18 := by
        unfold EccReg.store at stored
        split_ifs at stored with inside
        exact inside
      -- the carry has the weight of the next word, and has to have that of the next digit
      have weight := EccReg.store_zero_value stored
      rw [List.map_append, Nat.ofDigits_append, List.length_map, turns, List.map_singleton,
        Nat.ofDigits_singleton, same, ← whole] at weight
      have powers : (16 : Nat) ^ text.length = 16 ^ (8 * ((text.length + 7) / 8)) := by
        rw [Nat.pow_mul]
        exact Nat.eq_of_mul_eq_mul_right carried (Nat.add_left_cancel weight)
      have lengths := Nat.pow_right_injective (by omega : 2 ≤ 16) powers
      exact .inr ⟨by omega, by omega⟩
    · rintro (small | ⟨words, room⟩)
      · omega
      · refine ⟨_, dif_pos (by omega), ?_⟩
        have weight : (2 ^ 32) ^ ((text.length + 7) / 8) = 16 ^ text.length := by
          rw [show (2 ^ 32 : Nat) = 16 ^ 8 by decide, ← Nat.pow_mul,
            show 8 * ((text.length + 7) / 8) = text.length by omega]
        rw [EccReg.store_zero_value (dif_pos (by omega)), List.map_append, Nat.ofDigits_append,
          List.length_map, turns, List.map_singleton, Nat.ofDigits_singleton, ← whole, weight]

/-- The key 7fedcba98, of two words, whose top digit shifts nothing out. -/
theorem hex2RegEx_shifted_iff_short :
    (∃ reg, hex2RegEx [0x37, 0x66, 0x65, 0x64, 0x63, 0x62, 0x61, 0x39, 0x38] .zero 1 = some reg ∧
      reg.value = value [0x37, 0x66, 0x65, 0x64, 0x63, 0x62, 0x61, 0x39, 0x38] * 2 ^ 1) ↔
      value [0x37, 0x66, 0x65, 0x64, 0x63, 0x62, 0x61, 0x39, 0x38] * 2 ^ 1 < 16 ^ 9 ∨ (8 ∣ 9 ∧ 9 < 144) :=
  hex2RegEx_shifted_iff (show secretShift .b163 = some 1 from rfl) (by decide) (by decide)

/-- The one digit 8 doubled: the carry lands in the second word. -/
theorem shift_loses_place : secretShift .b163 = some 1 ∧ List.all [0x38] isHexDigit = true ∧
    (hex2RegEx [0x38] .zero 1).map EccReg.value = some (2 ^ 32) ∧ value [0x38] * 2 ^ 1 = 16 ∧
    ¬∃ reg, hex2RegEx [0x38] .zero 1 = some reg ∧ reg.value = value [0x38] * 2 ^ 1 := by
  have number : (hex2RegEx [0x38] .zero 1).map EccReg.value = some (2 ^ 32) := by decide
  refine ⟨rfl, by decide, number, by decide, ?_⟩
  rintro ⟨reg, loaded, same⟩
  rw [loaded, Option.map_some, same] at number
  revert number
  decide

end NuMakerMA35
