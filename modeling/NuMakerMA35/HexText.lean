import Mathlib.Data.Nat.Digits.Defs
import Mathlib.Data.Nat.Digits.Lemmas
import Mathlib.Data.List.TakeWhile

namespace NuMakerMA35.HexText

abbrev Char8 := BitVec 8

def isHexDigit (c : Char8) : Bool := (48 ≤ c && c ≤ 57) || (65 ≤ c && c ≤ 70) || (97 ≤ c && c ≤ 102)

def digitValue (c : Char8) : Nat :=
  if c ≤ 57 then c.toNat - 48 else if 97 ≤ c then c.toNat - 87 else c.toNat - 55

def toLower (c : Char8) : Char8 := if 65 ≤ c ∧ c ≤ 90 then c + 32 else c

def value (text : List Char8) : Nat := Nat.ofDigits 16 (text.reverse.map digitValue)

def Names (text : List Char8) (v : Nat) : Prop := text.all isHexDigit = true ∧ value text = v

/-- The texts agree but for leading zeros and the case of letters. -/
def SameNumber (first second : List Char8) : Prop :=
  (first.dropWhile (· == 48)).map toLower = (second.dropWhile (· == 48)).map toLower

theorem isHexDigit_iff (c : Char8) : isHexDigit c = true ↔ (48 ≤ c.toNat ∧ c.toNat ≤ 57) ∨
    (65 ≤ c.toNat ∧ c.toNat ≤ 70) ∨ (97 ≤ c.toNat ∧ c.toNat ≤ 102) := by
  simp [isHexDigit, BitVec.le_def, or_assoc]

theorem digitValue_eq (c : Char8) : digitValue c =
    if c.toNat ≤ 57 then c.toNat - 48 else if 97 ≤ c.toNat then c.toNat - 87 else c.toNat - 55 := rfl

theorem toLower_toNat (c : Char8) : (toLower c).toNat =
    if 65 ≤ c.toNat ∧ c.toNat ≤ 90 then c.toNat + 32 else c.toNat := by
  by_cases letter : 65 ≤ c ∧ c ≤ 90
  · have upper : 65 ≤ c.toNat ∧ c.toNat ≤ 90 := letter
    rw [toLower, if_pos letter, if_pos upper]
    exact BitVec.toNat_add_of_lt (show c.toNat + 32 < 256 by omega)
  · have other : ¬(65 ≤ c.toNat ∧ c.toNat ≤ 90) := letter
    rw [toLower, if_neg letter, if_neg other]

theorem digitValue_lt {c : Char8} (h : isHexDigit c = true) : digitValue c < 16 := by
  rw [isHexDigit_iff] at h
  rw [digitValue_eq]
  split_ifs <;> omega

theorem digitValue_toLower (c : Char8) : digitValue (toLower c) = digitValue c := by
  rw [digitValue_eq, digitValue_eq, toLower_toNat]
  split_ifs <;> omega

theorem isHexDigit_toLower (c : Char8) : isHexDigit (toLower c) = isHexDigit c := by
  rw [Bool.eq_iff_iff, isHexDigit_iff, isHexDigit_iff, toLower_toNat]
  split_ifs <;> omega

theorem digitValue_eq_zero {c : Char8} (h : isHexDigit c = true) : digitValue c = 0 ↔ c = 48 := by
  rw [isHexDigit_iff] at h
  rw [digitValue_eq, ← BitVec.toNat_inj, show (48 : Char8).toNat = 48 from rfl]
  split_ifs <;> omega

def digitChar (v : Nat) : Char8 := BitVec.ofNat 8 (if v < 10 then 48 + v else 87 + v)

theorem digitChar_toNat {v : Nat} (h : v < 16) :
    (digitChar v).toNat = if v < 10 then 48 + v else 87 + v :=
  Nat.mod_eq_of_lt (by split_ifs <;> omega)

def hexText (length v : Nat) : List Char8 :=
  ((List.range length).map fun j => digitChar (v / 16 ^ j % 16)).reverse

@[simp] theorem hexText_length (length v : Nat) : (hexText length v).length = length := by
  simp [hexText]

theorem toLower_eq {c : Char8} (h : isHexDigit c = true) : toLower c = digitChar (digitValue c) := by
  have small := digitValue_lt h
  rw [isHexDigit_iff] at h
  rw [← BitVec.toNat_inj, toLower_toNat, digitChar_toNat small, digitValue_eq]
  split_ifs <;> omega

theorem isHexDigit_digitChar {v : Nat} (h : v < 16) :
    isHexDigit (digitChar v) = true ∧ digitValue (digitChar v) = v := by
  rw [isHexDigit_iff, digitValue_eq, digitChar_toNat h]
  split_ifs <;> omega

theorem digits_value {text : List Char8} (h : text.all isHexDigit = true) :
    ((text.dropWhile (· == 48)).map digitValue).reverse = Nat.digits 16 (value text) := by
  induction text with
  | nil => simp [value]
  | cons c rest ih =>
    have each : ∀ x ∈ c :: rest, isHexDigit x = true := by simpa using h
    have first := each c List.mem_cons_self
    by_cases zero : c = 48
    · subst zero
      have same : value (48 :: rest) = value rest := by
        simp [value, Nat.ofDigits_append, digitValue]
      rw [List.dropWhile_cons_of_pos rfl, same]
      exact ih (by simpa using fun x inside => each x (List.mem_cons_of_mem _ inside))
    · rw [List.dropWhile_cons_of_neg (by simpa using zero), value, ← List.map_reverse]
      refine (Nat.digits_ofDigits 16 (by omega) _ ?_ ?_).symm
      · intro v listed
        obtain ⟨x, inside, rfl⟩ := List.mem_map.mp listed
        exact digitValue_lt (each x (List.mem_reverse.mp inside))
      · intro some last
        simp only [List.reverse_cons, List.map_append, List.map_cons, List.map_nil,
          List.getLast_concat] at last
        exact zero ((digitValue_eq_zero first).mp last)

theorem sameNumber_iff {first second : List Char8} (h : first.all isHexDigit = true) :
    SameNumber first second ↔ Names second (value first) := by
  have lowered {text : List Char8} (all : text.all isHexDigit = true) :
      (text.dropWhile (· == 48)).map toLower =
        ((Nat.digits 16 (value text)).reverse).map digitChar := by
    rw [← digits_value all, List.reverse_reverse, List.map_map]
    apply List.map_congr_left
    intro c inside
    have listed := (List.dropWhile_suffix (· == 48)).subset inside
    exact toLower_eq (List.all_eq_true.mp all c listed)
  constructor
  · intro same
    have all : second.all isHexDigit = true := by
      rw [List.all_eq_true]
      intro c inside
      by_cases stays : c ∈ second.dropWhile (· == 48)
      · have listed := List.mem_map_of_mem (f := toLower) stays
        rw [← show _ = _ from same] at listed
        obtain ⟨x, source, lower⟩ := List.mem_map.mp listed
        rw [← isHexDigit_toLower c, ← lower, isHexDigit_toLower]
        exact List.all_eq_true.mp h x ((List.dropWhile_suffix _).subset source)
      · rw [← List.takeWhile_append_dropWhile (p := (· == 48)) (l := second)] at inside
        have zero := List.mem_takeWhile_imp ((List.mem_append.mp inside).resolve_right stays)
        rw [beq_iff_eq.mp zero]
        rfl
    refine ⟨all, ?_⟩
    have digits := congrArg (List.map digitValue) (show _ = _ from same)
    rw [List.map_map, List.map_map] at digits
    have plain {text : List Char8} (all : text.all isHexDigit = true) :
        (text.dropWhile (· == 48)).map (digitValue ∘ toLower) =
          (Nat.digits 16 (value text)).reverse := by
      rw [← digits_value all, List.reverse_reverse]
      apply List.map_congr_left
      intro c inside
      exact digitValue_toLower c
    rw [plain h, plain all, List.reverse_inj] at digits
    exact (Nat.digits.injective 16 digits).symm
  · rintro ⟨all, same⟩
    unfold SameNumber
    rw [lowered h, lowered all, same]

theorem ofDigits_range (b v n : Nat) :
    Nat.ofDigits b ((List.range n).map fun i => v / b ^ i % b) = v % b ^ n := by
  induction n with
  | zero => simp [Nat.mod_one]
  | succ n ih =>
    rw [List.range_succ, List.map_append, Nat.ofDigits_append, ih, List.length_map,
      List.length_range, Nat.mod_pow_succ]
    simp

theorem hexText_names (length v : Nat) : Names (hexText length v) (v % 16 ^ length) := by
  constructor
  · rw [hexText, List.all_reverse, List.all_eq_true]
    intro c listed
    obtain ⟨j, -, rfl⟩ := List.mem_map.mp listed
    exact (isHexDigit_digitChar (Nat.mod_lt _ (by omega))).1
  · rw [value, hexText, List.reverse_reverse, List.map_map, ← ofDigits_range]
    congr 1
    apply List.map_congr_left
    intro j _
    exact (isHexDigit_digitChar (Nat.mod_lt _ (by omega))).2

theorem getD_ofDigits {b : Nat} {digits : List Nat} (small : ∀ d ∈ digits, d < b) (i : Nat) :
    Nat.ofDigits b digits / b ^ i % b = digits.getD i 0 := by
  induction digits generalizing i with
  | nil => simp
  | cons d rest ih =>
    have first := small d List.mem_cons_self
    rw [Nat.ofDigits_cons]
    cases i with
    | zero => simp [Nat.mod_eq_of_lt first]
    | succ i =>
      rw [List.getD_cons_succ, ← ih (fun x inside => small x (List.mem_cons_of_mem d inside)) i,
        Nat.pow_succ', ← Nat.div_div_eq_div_mul, Nat.add_mul_div_left _ _ (by omega),
        Nat.div_eq_of_lt first, Nat.zero_add]

theorem digit_of_digit (v i : Nat) {r : Nat} (h : r < 8) :
    v / (2 ^ 32) ^ i % 2 ^ 32 / 16 ^ r % 16 = v / 16 ^ (8 * i + r) % 16 := by
  have word : 2 ^ 32 = 16 ^ 8 := by decide
  have split : 2 ^ 32 = 16 ^ r * 16 ^ (8 - r) := by
    rw [word, ← Nat.pow_add, Nat.add_sub_cancel' h.le]
  have place : (2 ^ 32) ^ i * 16 ^ r = 16 ^ (8 * i + r) := by
    rw [word, Nat.pow_add, Nat.pow_mul]
  have below : 16 ∣ 16 ^ (8 - r) := dvd_pow_self 16 (by omega)
  conv_lhs => rw [split, Nat.mod_mul_right_div_self, Nat.mod_mod_of_dvd _ below, ← split]
  rw [Nat.div_div_eq_div_mul, place]

theorem value_append (first second : List Char8) :
    value (first ++ second) = value first * 16 ^ second.length + value second := by
  rw [value, List.reverse_append, List.map_append, Nat.ofDigits_append, List.length_map,
    List.length_reverse, value, value, Nat.mul_comm, Nat.add_comm]

theorem value_cons (c : Char8) (rest : List Char8) :
    value (c :: rest) = digitValue c * 16 ^ rest.length + value rest := by
  rw [show c :: rest = [c] ++ rest from rfl, value_append]
  simp [value]

theorem value_lt {text : List Char8} (digits : ∀ c ∈ text, digitValue c < 16) :
    value text < 16 ^ text.length := by
  have below := Nat.ofDigits_lt_base_pow_length (b := 16) (l := text.reverse.map digitValue)
    (by omega) (by simpa using digits)
  rwa [List.length_map, List.length_reverse] at below

theorem value_take {text : List Char8} (digits : ∀ c ∈ text, digitValue c < 16) (n : Nat) :
    value (text.take n) = value text / 16 ^ (text.length - n) := by
  have below := value_lt fun c inside => digits c (List.drop_subset n text inside)
  have whole := value_append (text.take n) (text.drop n)
  rw [List.take_append_drop] at whole
  rw [List.length_drop] at below whole
  rw [whole, Nat.mul_comm, Nat.mul_add_div (Nat.pow_pos (by omega)), Nat.div_eq_of_lt below,
    Nat.add_zero]

end NuMakerMA35.HexText
