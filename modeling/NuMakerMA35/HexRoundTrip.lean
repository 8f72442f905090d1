import NuMakerMA35.EccRegister

namespace NuMakerMA35.HexArray

open HexText

/-- The words from `reg` on; how many of them belong to the caller's array is not known here. -/
abbrev Words := Nat → U32

/-- `__strlen`: the loop gives up after the character number 1025. -/
def strlenLoop : List Byte → Nat → Nat
  | [], len => len
  | ch :: rest, len =>
    if ch = 0 then len
    else if len + 1 > 1024 then len + 1
    else strlenLoop rest (len + 1)

/-- `__strlen` of a text without its final zero. -/
def strlen (str : List Byte) : Nat := strlenLoop str 0

/-- `Hex2Reg`: the words from the last of the characters that were counted back to the first. -/
def hex2Reg (input : List Byte) (reg : Words) : Words :=
  let text := input.take (strlen input)
  let words := hexWords ((text.length + 7) / 8) text.reverse
  fun ri => words.getD ri (reg ri)

def reg2Hex (count : Nat) (reg : Words) : List Byte :=
  ((List.range count).map fun j => getNthNibbleChar (reg (j / 8)) (j % 8)).reverse

def wordsOf (n : Nat) : Nat := (n + 7) / 8

theorem le_wordsOf (n : Nat) : n ≤ 8 * wordsOf n := by
  rw [wordsOf]
  omega

def number (count : Nat) (reg : Words) : Nat :=
  Nat.ofDigits (2 ^ 32) ((List.range count).map fun i => (reg i).toNat)

def ofEccReg (reg : EccReg) : Words := fun i => reg.words.getD i 0

theorem reg2Hex_eccReg (count : Nat) (reg : EccReg) :
    NuMakerMA35.reg2Hex count reg = reg2Hex count (ofEccReg reg) := rfl

section Length

theorem strlenLoop_eq {str : List Byte} (digits : str.all isHexDigit = true) {len : Nat}
    (room : len ≤ 1024) : strlenLoop str len = min (len + str.length) 1025 := by
  induction str generalizing len with
  | nil =>
    rw [strlenLoop, List.length_nil]
    omega
  | cons ch rest ih =>
    rw [List.all_cons, Bool.and_eq_true] at digits
    have nonzero : ch ≠ 0 := by
      rintro rfl
      exact absurd digits.1 (by decide)
    rw [strlenLoop, if_neg nonzero, List.length_cons]
    split_ifs with last
    · omega
    · rw [ih digits.2 (by omega)]
      omega

theorem take_strlen {str : List Byte} (digits : str.all isHexDigit = true) :
    str.take (strlen str) = str.take 1025 := by
  rw [strlen, strlenLoop_eq digits (by omega), List.take_eq_take_iff]
  omega

end Length

theorem hex2Reg_eccReg {text : List Byte} {reg reg' : EccReg} (hex : text.all isHexDigit = true)
    (loaded : NuMakerMA35.hex2Reg text reg = some reg') :
    ofEccReg reg' = hex2Reg text (ofEccReg reg) := by
  have fits : ¬144 < text.length := by
    intro long
    rw [hex2Reg_eq_none.mpr long] at loaded
    cases loaded
  have whole : text.take (strlen text) = text := by
    rw [take_strlen hex, List.take_of_length_le (by omega)]
  unfold NuMakerMA35.hex2Reg EccReg.store at loaded
  split_ifs at loaded with inside
  injection loaded with loaded
  subst loaded
  funext i
  simp only [ofEccReg, hex2Reg, whole]
  set words := hexWords ((text.length + 7) / 8) text.reverse
  by_cases first : i < words.length
  · simp [List.getD_eq_getElem?_getD, List.getElem?_append_left first, first]
  · have later : words.length ≤ i := by omega
    simp [List.getD_eq_getElem?_getD, List.getElem?_append_right later,
      Nat.add_sub_cancel' later, later]

section Number

variable {reg : Words} {count : Nat}

theorem word_toNat {i : Nat} (inside : i < count) :
    (reg i).toNat = number count reg / (2 ^ 32) ^ i % 2 ^ 32 := by
  rw [number, getD_ofDigits]
  · simp [List.getD_eq_getElem?_getD, inside]
  · intro d listed
    obtain ⟨i, -, rfl⟩ := List.mem_map.mp listed
    exact (reg i).isLt

theorem number_stored (words : List U32) :
    number words.length (fun ri => words.getD ri (reg ri)) =
      Nat.ofDigits (2 ^ 32) (words.map BitVec.toNat) := by
  rw [number]
  congr 1
  apply List.ext_getElem
  · simp
  · intro i left right
    rw [List.length_map] at right
    simp [List.getD_eq_getElem?_getD, right]

end Number

theorem number_hex2Reg {text : List Byte} (hex : text.all isHexDigit = true) (reg : Words) :
    number (wordsOf (min 1025 text.length)) (hex2Reg text reg) = value (text.take 1025) := by
  have cut := take_strlen hex
  have digits : (text.take 1025).all isHexDigit = true := by
    rw [List.all_eq_true]
    intro c inside
    exact List.all_eq_true.mp hex c (List.take_subset 1025 text inside)
  have turns := hexWords_length (wordsOf (min 1025 text.length)) (text.take 1025).reverse
  have stored := @number_stored reg
    (hexWords (wordsOf (min 1025 text.length)) (text.take 1025).reverse)
  rw [turns, hexWords_ofDigits (by rwa [List.all_reverse]) (by
    rw [List.length_reverse, List.length_take, wordsOf]
    omega)] at stored
  rw [hex2Reg, cut, List.length_take, HexText.value]
  exact stored

theorem hex2Reg_behind {text : List Byte} (reg : Words) {i : Nat}
    (behind : wordsOf text.length ≤ i) : hex2Reg text reg i = reg i := by
  have turns := hexWords_length (((text.take (strlen text)).length + 7) / 8)
    (text.take (strlen text)).reverse
  have short : (text.take (strlen text)).length ≤ text.length := List.length_take_le' _ _
  rw [wordsOf] at behind
  simp only [hex2Reg]
  rw [List.getD_eq_getElem?_getD, List.getElem?_eq_none (by omega), Option.getD_none]

theorem reg2Hex_eq {count n : Nat} (reg : Words) (covered : n ≤ 8 * count) :
    reg2Hex n reg = hexText n (number count reg) := by
  rw [reg2Hex, hexText]
  congr 1
  apply List.map_congr_left
  intro j listed
  have inside : j / 8 < count := by
    have := List.mem_range.mp listed
    omega
  rw [getNthNibbleChar_eq, word_toNat inside, digit_of_digit _ _ (Nat.mod_lt j (by omega)),
    Nat.div_add_mod]

theorem hexText_value {text : List Byte} (hex : text.all isHexDigit = true) :
    hexText text.length (value text) = text.map toLower := by
  have small : ∀ d ∈ text.reverse.map digitValue, d < 16 := by
    intro d listed
    obtain ⟨c, inside, rfl⟩ := List.mem_map.mp listed
    exact digitValue_lt (List.all_eq_true.mp hex c (List.mem_reverse.mp inside))
  rw [hexText, List.reverse_eq_iff, ← List.map_reverse]
  apply List.ext_getElem
  · simp
  · intro j left right
    rw [List.length_map] at right
    have digit := getD_ofDigits small j
    rw [← HexText.value] at digit
    have listed : text.reverse[j] ∈ text := List.mem_reverse.mp (List.getElem_mem right)
    rw [List.getElem_map, List.getElem_map, List.getElem_range, digit,
      ← List.getElem_eq_getD (h := by rwa [List.length_map]), List.getElem_map,
      toLower_eq (List.all_eq_true.mp hex _ listed)]

theorem value_map_toLower (text : List Byte) : value (text.map toLower) = value text := by
  rw [HexText.value, ← List.map_reverse, List.map_map]
  congr 1
  exact List.map_congr_left fun c _ => digitValue_toLower c

theorem value_reg2Hex {count n : Nat} (reg : Words) (covered : n ≤ 8 * count) :
    value (reg2Hex n reg) = number count reg % 16 ^ n := by
  rw [reg2Hex_eq reg covered]
  exact (hexText_names n _).2

theorem hexText_digits (n v : Nat) : (hexText n v).all isHexDigit = true :=
  (hexText_names n v).1

/-- A text, loaded and read again, is the text in lower case, and the words in between hold its number;
words that are written out and loaded again keep their last digits. -/
theorem hex_round_trip {text : List Byte} (hex : text.all isHexDigit = true)
    (short : text.length ≤ 1025) {n count : Nat} (few : n ≤ 1025) (covered : n ≤ 8 * count)
    (reg into : Words) :
    (reg2Hex text.length (hex2Reg text into) = text.map toLower ∧
      number (wordsOf text.length) (hex2Reg text into) = value text) ∧
    (number (wordsOf n) (hex2Reg (reg2Hex n reg) into) = number count reg % 16 ^ n ∧
      ∀ i, wordsOf n ≤ i → hex2Reg (reg2Hex n reg) into i = into i) := by
  have loaded := number_hex2Reg hex into
  rw [Nat.min_eq_right short, List.take_of_length_le short] at loaded
  have written := reg2Hex_eq reg covered
  have back := number_hex2Reg (hexText_digits n (number count reg)) into
  rw [hexText_length, Nat.min_eq_right few, List.take_of_length_le (by simpa using few),
    (hexText_names n (number count reg)).2] at back
  refine ⟨⟨?_, loaded⟩, ?_, ?_⟩
  · rw [reg2Hex_eq _ (le_wordsOf text.length), loaded, hexText_value hex]
  · rw [written, back]
  · intro i behind
    rw [written]
    exact hex2Reg_behind into (by rwa [hexText_length])

theorem hex_round_trip_nine :
    (reg2Hex 9 (hex2Reg [0x31, 0x46, 0x65, 0x33, 0x41, 0x30, 0x44, 0x32, 0x42] fun _ => 7) =
        [0x31, 0x66, 0x65, 0x33, 0x61, 0x30, 0x64, 0x32, 0x62] ∧
      number (wordsOf 9) (hex2Reg [0x31, 0x46, 0x65, 0x33, 0x41, 0x30, 0x44, 0x32, 0x42] fun _ => 7) =
        value [0x31, 0x46, 0x65, 0x33, 0x41, 0x30, 0x44, 0x32, 0x42]) ∧
    (number (wordsOf 3) (hex2Reg (reg2Hex 3 fun _ => 0xabcd1234) fun _ => 7) =
        number 1 (fun _ => 0xabcd1234) % 16 ^ 3 ∧
      ∀ i, wordsOf 3 ≤ i → hex2Reg (reg2Hex 3 fun _ => 0xabcd1234) (fun _ => 7) i = 7) :=
  hex_round_trip (by decide) (by decide) (by decide) (by decide) _ _

theorem value_zeros (k : Nat) : value (List.replicate k 48) = 0 := by
  induction k with
  | zero => rfl
  | succ k ih =>
    rw [List.replicate_succ, value_cons, ih]
    simp [digitValue]

theorem zeros_cut {k : Nat} (long : k = 1025) :
    let text : List Byte := List.replicate k 48 ++ [49]
    text.length = k + 1 ∧ text.all isHexDigit = true ∧
      number (wordsOf text.length) (hex2Reg text fun _ => 0) = 0 ∧ value text = 1 := by
  intro text
  have length : text.length = k + 1 := by
    rw [List.length_append, List.length_replicate, List.length_singleton]
  have digits : text.all isHexDigit = true := by
    rw [List.all_append, List.all_replicate, Bool.and_eq_true]
    refine ⟨?_, rfl⟩
    split_ifs <;> rfl
  have cut : text.take 1025 = List.replicate k 48 := by
    rw [← long, List.take_left' List.length_replicate]
  have loaded := number_hex2Reg digits fun _ => 0
  have words : wordsOf (min 1025 text.length) = wordsOf text.length := by
    rw [length, wordsOf, wordsOf]
    omega
  rw [cut, value_zeros, words] at loaded
  refine ⟨length, digits, loaded, ?_⟩
  rw [value_append, value_zeros]
  rfl

/-- Of 1026 digits the last one is not read. -/
theorem longText_cut : ∃ text : List Byte, text.length = 1026 ∧ text.all isHexDigit = true ∧
    number (wordsOf text.length) (hex2Reg text fun _ => 0) ≠ value text ∧
    reg2Hex text.length (hex2Reg text fun _ => 0) ≠ text.map toLower := by
  obtain ⟨length, digits, loaded, one⟩ := zeros_cut rfl
  refine ⟨_, length, digits, ?_, ?_⟩
  · rw [loaded, one]
    exact Nat.zero_ne_one
  · intro same
    have read := congrArg HexText.value same
    rw [value_reg2Hex _ (le_wordsOf _), loaded, value_map_toLower, one, Nat.zero_mod] at read
    exact Nat.zero_ne_one read

end NuMakerMA35.HexArray
