import NuMakerMA35.Ecc

namespace NuMakerMA35

open HexText

theorem ch2hex_toNat {c : Byte} (h : isHexDigit c = true) : (ch2hex c).toNat = digitValue c := by
  simp only [isHexDigit, Bool.or_eq_true, Bool.and_eq_true, decide_eq_true_eq] at h
  unfold ch2hex digitValue
  split_ifs <;> bv_omega

theorem eccLower_eq : eccLower = toLower := rfl

theorem hexWordLoop_toNat {text : List Byte} {i : Nat} {val32 : U32}
    (hex : text.all isHexDigit = true) (room : i + text.length ≤ 8) (low : val32.toNat < 16 ^ i) :
    (hexWordLoop text i val32).toNat =
      val32.toNat + 16 ^ i * Nat.ofDigits 16 (text.map digitValue) := by
  induction text generalizing i val32 with
  | nil => simp [hexWordLoop]
  | cons c rest ih =>
    rw [List.all_cons, Bool.and_eq_true] at hex
    rw [List.length_cons] at room
    have digit := digitValue_lt hex.1
    have power : 16 ^ i = 2 ^ (i * 4) := by rw [Nat.mul_comm, Nat.pow_mul]
    have top : 16 ^ (i + 1) ≤ 16 ^ 8 := Nat.pow_le_pow_right (by omega) (by omega)
    have shifted : digitValue c * 16 ^ i + 16 ^ i ≤ 16 ^ (i + 1) := by
      rw [Nat.pow_succ', ← Nat.succ_mul]
      exact Nat.mul_le_mul_right _ digit
    have placed : ((ch2hex c).setWidth 32 <<< (i * 4)).toNat = digitValue c * 2 ^ (i * 4) := by
      have word : (ch2hex c).toNat % 2 ^ 32 = digitValue c := by
        rw [ch2hex_toNat hex.1, Nat.mod_eq_of_lt (by omega)]
      rw [BitVec.toNat_shiftLeft, BitVec.toNat_setWidth, word, Nat.shiftLeft_eq, ← power,
        Nat.mod_eq_of_lt]
      have := Nat.two_pow_pos (i * 4)
      omega
    have added : (val32 ||| (ch2hex c).setWidth 32 <<< (i * 4)).toNat =
        val32.toNat + digitValue c * 16 ^ i := by
      rw [BitVec.toNat_or, placed, Nat.or_comm, ← Nat.shiftLeft_eq,
        ← Nat.shiftLeft_add_eq_or_of_lt (power ▸ low), Nat.shiftLeft_eq, power, Nat.add_comm]
    rw [hexWordLoop, ih hex.2 (by omega) (by rw [added]; omega), added, List.map_cons,
      Nat.ofDigits_cons, Nat.pow_succ']
    ring

theorem hexWords_length (turns : Nat) (text : List Byte) : (hexWords turns text).length = turns := by
  induction turns generalizing text with
  | zero => rfl
  | succ turns ih => simp [hexWords, ih]

theorem hexWords_ofDigits {turns : Nat} {text : List Byte} (hex : text.all isHexDigit = true)
    (enough : text.length ≤ 8 * turns) :
    Nat.ofDigits (2 ^ 32) ((hexWords turns text).map BitVec.toNat) =
      Nat.ofDigits 16 (text.map digitValue) := by
  induction turns generalizing text with
  | zero =>
    have none : text = [] := List.eq_nil_of_length_eq_zero (by omega)
    simp [none, hexWords]
  | succ turns ih =>
    have parts : (text.take 8).all isHexDigit = true ∧ (text.drop 8).all isHexDigit = true := by
      rw [← Bool.and_eq_true, ← List.all_append, List.take_append_drop]
      exact hex
    rw [hexWords, List.map_cons, Nat.ofDigits_cons, ih parts.2 (by rw [List.length_drop]; omega),
      hexWordLoop_toNat parts.1 (by rw [List.length_take]; omega) (by simp)]
    conv_rhs => rw [← List.take_append_drop 8 text, List.map_append, Nat.ofDigits_append]
    by_cases more : 8 ≤ text.length
    · simp [more]
    · have none : text.drop 8 = [] := List.drop_eq_nil_of_le (by omega)
      simp [none]

namespace EccReg

@[simp] theorem zero_value : zero.value = 0 := by decide

theorem ofNat_value (v : Nat) : (ofNat v).value = v % (2 ^ 32) ^ 18 := by
  have each : (ofNat v).words.map BitVec.toNat =
      (List.range 18).map fun i => v / (2 ^ 32) ^ i % 2 ^ 32 := by
    simp only [ofNat, List.map_map]
    apply List.map_congr_left
    intro i _
    simp only [Function.comp_apply, BitVec.toNat_ofNat, ← Nat.pow_mul]
  rw [value, each, ofDigits_range]

theorem word_toNat (reg : EccReg) (i : Nat) :
    (reg.words.getD i 0).toNat = reg.value / (2 ^ 32) ^ i % 2 ^ 32 := by
  rw [value, getD_ofDigits]
  · rw [List.getD_eq_getElem?_getD, List.getD_eq_getElem?_getD, List.getElem?_map]
    cases reg.words[i]? <;> rfl
  · intro d listed
    obtain ⟨word, -, rfl⟩ := List.mem_map.mp listed
    exact word.isLt

end EccReg

theorem EccReg.store_zero_value {words : List U32} {reg : EccReg} (stored : EccReg.zero.store words = some reg) :
    reg.value = Nat.ofDigits (2 ^ 32) (words.map BitVec.toNat) := by
  unfold EccReg.store at stored
  split_ifs at stored with inside
  injection stored with stored
  have zeros (k : Nat) : Nat.ofDigits (2 ^ 32) (List.replicate k (BitVec.toNat (0 : U32))) = 0 := by
    induction k with
    | zero => rfl
    | succ k ih =>
      rw [List.replicate_succ, Nat.ofDigits_cons, ih]
      rfl
  simp only [← stored, EccReg.value, EccReg.zero, List.map_append, Nat.ofDigits_append,
    List.drop_replicate, List.map_replicate]
  rw [zeros, Nat.mul_zero, Nat.add_zero]

theorem hex2Reg_value {text : List Byte} (hex : text.all isHexDigit = true) (fits : text.length ≤ 144) :
    ∃ reg, hex2Reg text .zero = some reg ∧ reg.value = value text := by
  have turns := hexWords_length ((text.length + 7) / 8) text.reverse
  refine ⟨_, dif_pos (by omega), ?_⟩
  rw [EccReg.store_zero_value (dif_pos (by omega)), hexWords_ofDigits (by rwa [List.all_reverse])
    (by rw [List.length_reverse]; omega), HexText.value, List.map_reverse]

theorem hex2Reg_eq_none {text : List Byte} {reg : EccReg} : hex2Reg text reg = none ↔ 144 < text.length := by
  have turns := hexWords_length ((text.length + 7) / 8) text.reverse
  unfold hex2Reg EccReg.store
  split_ifs with inside
  · simp only [false_iff]
    omega
  · simp only [true_iff]
    omega

theorem getNthNibbleChar_eq (val32 : U32) (idx : Nat) :
    getNthNibbleChar val32 idx = digitChar (val32.toNat / 16 ^ idx % 16) := by
  have nibble : ((val32 >>> (idx * 4)) &&& 0xf).toNat = val32.toNat / 16 ^ idx % 16 := by
    rw [BitVec.toNat_and, BitVec.toNat_ushiftRight, Nat.shiftRight_eq_div_pow,
      show 16 ^ idx = 2 ^ (idx * 4) by rw [Nat.mul_comm, Nat.pow_mul]]
    exact Nat.and_two_pow_sub_one_eq_mod _ 4
  have table : ∀ v, v < 16 → hexTable.getD v 0 = digitChar v := by decide
  rw [getNthNibbleChar, nibble]
  exact table _ (Nat.mod_lt _ (by omega))

theorem reg2Hex_eq (count : Nat) (reg : EccReg) : reg2Hex count reg = hexText count reg.value := by
  rw [reg2Hex, hexText]
  congr 1
  apply List.map_congr_left
  intro j _
  rw [getNthNibbleChar_eq, reg.word_toNat, digit_of_digit _ _ (Nat.mod_lt j (by omega)),
    Nat.div_add_mod]

theorem reg2Hex_names (count : Nat) (reg : EccReg) :
    Names (reg2Hex count reg) (reg.value % 16 ^ count) := by
  rw [reg2Hex_eq]
  exact hexText_names count reg.value

theorem eccStrcmpLoop_eq_zero (s1 s2 : List Byte) :
    eccStrcmpLoop s1 s2 = 0 ↔ s1.map toLower = s2.map toLower := by
  induction s1 generalizing s2 with
  | nil => cases s2 <;> simp [eccStrcmpLoop]
  | cons c1 s1 ih =>
    cases s2 with
    | nil => simp [eccStrcmpLoop]
    | cons c2 s2 =>
      rw [eccStrcmpLoop, eccLower_eq, List.map_cons, List.map_cons]
      split_ifs with other
      · simp [other]
      · rw [ih, not_ne_iff.mp other]
        simp

theorem eccStrcmp_eq_zero {s1 s2 : List Byte} (hex : s1.all isHexDigit = true) :
    eccStrcmp s1 s2 = 0 ↔ Names s2 (value s1) := by
  rw [← sameNumber_iff hex]
  exact eccStrcmpLoop_eq_zero _ _

end NuMakerMA35
