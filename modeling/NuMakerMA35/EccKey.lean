import NuMakerMA35.EccRun

namespace NuMakerMA35

open HexText

/-- `get_nibble_value`: three tests one after the other on the same variable. -/
def getNibbleValue (c : Byte) : Nat :=
  let c := if 48 ≤ c ∧ c ≤ 57 then c - 48 else c
  let c := if 97 ≤ c ∧ c ≤ 102 then c - 97 + 10 else c
  let c := if 65 ≤ c ∧ c ≤ 70 then c - 65 + 10 else c
  c.toNat

/-- `__strlen` gives up after 1025 characters. -/
def eccStrlen (str : List Byte) : Nat := min str.length 1025

def EccCurve.eorderChars (c : EccCurve) : List Byte :=
  c.eorder.text ++ List.replicate (176 - c.eorder.length) 0

/-- The comparison loop of `ECC_IsPrivateKeyValid`; there is no result where it reads past the array. -/
def privateKeyLoop : List Byte → List Byte → Int → Option Int
  | [], _, ret => some ret
  | _ :: _, [], _ => none
  | k :: key, e :: eorder, ret =>
    if getNibbleValue k < getNibbleValue e then some 1
    else if getNibbleValue k > getNibbleValue e then some 0
    else privateKeyLoop key eorder ret

/-- `ECC_IsPrivateKeyValid`: a curve that is not found sets the result and goes on, to the order of a
record that is not there. -/
def eccIsPrivateKeyValid (eccCurve : EccCurveId) (privateK : List Byte) : Option Int :=
  match getCurve eccCurve with
  | none => none
  | some pCurve =>
    let ret := -1
    let ret := if eccStrlen privateK < eccStrlen pCurve.eorder.text then 1 else ret
    let ret := if eccStrlen privateK > eccStrlen pCurve.eorder.text then 0 else ret
    privateKeyLoop (privateK.take (eccStrlen privateK)) pCurve.eorderChars ret

/-- A character that the comparison takes for its digit: a hex digit, or the end of a text. -/
def NibbleChar (c : Byte) : Prop := getNibbleValue c = digitValue c ∧ digitValue c < 16

theorem NibbleChar.of_hex {c : Byte} (hex : isHexDigit c = true) : NibbleChar c := by
  simp only [isHexDigit, Bool.or_eq_true, Bool.and_eq_true, decide_eq_true_eq] at hex
  unfold NibbleChar getNibbleValue digitValue
  dsimp only
  split_ifs <;> bv_omega

theorem privateKeyLoop_eq {key eorder : List Byte} (ret : Int) (left : ∀ c ∈ key, NibbleChar c)
    (right : ∀ c ∈ eorder, NibbleChar c) :
    privateKeyLoop key eorder ret =
      if value (key.take eorder.length) < value (eorder.take key.length) then some 1
      else if value (eorder.take key.length) < value (key.take eorder.length) then some 0
      else if key.length ≤ eorder.length then some ret else none := by
  induction key generalizing eorder with
  | nil => simp [privateKeyLoop]
  | cons k key ih =>
    cases eorder with
    | nil => simp [privateKeyLoop]
    | cons e eorder =>
      have digits := left k List.mem_cons_self
      have orders := right e List.mem_cons_self
      have lefts : ∀ c ∈ key, NibbleChar c := fun c inside => left c (List.mem_cons_of_mem k inside)
      have rights : ∀ c ∈ eorder, NibbleChar c :=
        fun c inside => right c (List.mem_cons_of_mem e inside)
      have keys : value (key.take eorder.length) < 16 ^ (key.take eorder.length).length := value_lt
        fun c inside => (lefts c (List.mem_of_mem_take inside)).2
      have eorders : value (eorder.take key.length) < 16 ^ (eorder.take key.length).length := value_lt
        fun c inside => (rights c (List.mem_of_mem_take inside)).2
      rw [privateKeyLoop, digits.1, orders.1, ih lefts rights]
      simp only [List.length_cons, List.take_succ_cons, value_cons, List.length_take,
        Nat.succ_le_succ_iff]
      rw [List.length_take] at keys eorders
      rw [Nat.min_comm eorder.length] at keys ⊢
      set place := 16 ^ min key.length eorder.length
      rcases Nat.lt_trichotomy (digitValue k) (digitValue e) with less | same | more
      · have := Nat.mul_le_mul_right place (show digitValue k + 1 ≤ digitValue e from less)
        rw [if_pos less, if_pos (by rw [Nat.add_mul] at this; omega)]
      · rw [if_neg (by omega), if_neg (by omega), same]
        simp only [Nat.add_lt_add_iff_left]
      · have := Nat.mul_le_mul_right place (show digitValue e + 1 ≤ digitValue k from more)
        rw [Nat.add_mul] at this
        rw [if_neg (by omega), if_pos more, if_neg (by omega), if_pos (by omega)]

/-- What `ECC_IsPrivateKeyValid` owes: on a curve it knows, 1 just for the numbers below the order that the
table names, and an error for any other curve. -/
def PrivateKeyLaw (eccCurve : EccCurveId) (privateK : List Byte) : Prop :=
  match getCurve eccCurve with
  | some c => ∃ ret, eccIsPrivateKeyValid eccCurve privateK = some ret ∧
      (ret = 1 ↔ value privateK < c.order)
  | none => eccIsPrivateKeyValid eccCurve privateK = some (-1)

/-- A key read from its first digit on compares with the order as its number does: a shorter one that
goes no further than the order's first digits, a longer one whose first digits already go further,
before the end of the array. -/
def HexLiteral.FrontCompares (order : HexLiteral) (key : List Byte) : Prop :=
  if key.length < order.length then
    value key * 16 ^ (order.length - key.length) ≤ order.number ∨ order.number ≤ value key
  else
    value key < order.number ∨
      (order.number * 16 ^ (key.length - order.length) ≤ value key ∧
        (176 < key.length → value (key.take 176) ≠ order.number * 16 ^ (176 - order.length)))

theorem eorderChars_spec {c : EccCurve} (listed : c ∈ eccCurves) :
    c.eorderChars.length = 176 ∧ (∀ e ∈ c.eorderChars, NibbleChar e) ∧
      value c.eorderChars = c.order * 16 ^ (176 - c.eorder.length) := by
  obtain ⟨number, fits⟩ := eccCurves_literals c listed c.eorder (by simp [EccCurve.literals])
  have names : Names c.eorder.text _ := hexText_names c.eorder.length c.eorder.number
  have length : c.eorder.text.length = c.eorder.length := hexText_length _ _
  have ends : NibbleChar 0 := ⟨by decide, by decide⟩
  have zeros (k : Nat) : value (List.replicate k (0 : Byte)) = 0 := by
    induction k with
    | zero => rfl
    | succ k ih => rw [List.replicate_succ, value_cons, ih, show digitValue 0 = 0 from rfl]; omega
  refine ⟨?_, ?_, ?_⟩
  · rw [EccCurve.eorderChars, List.length_append, length, List.length_replicate]
    omega
  · intro e inside
    rcases List.mem_append.mp inside with inside | inside
    · exact .of_hex (List.all_eq_true.mp names.1 e inside)
    · rw [List.eq_of_mem_replicate inside]
      exact ends
  · rw [EccCurve.eorderChars, value_append, zeros, List.length_replicate, names.2,
      Nat.mod_eq_of_lt number, Nat.add_zero, EccCurve.order]

/-- The order's first digits, as many as a text has, with zeros after its end. -/
def HexLiteral.front (order : HexLiteral) (length : Nat) : Nat :=
  order.number * 16 ^ (176 - order.length) / 16 ^ (176 - length)

theorem eccIsPrivateKeyValid_eq {eccCurve : EccCurveId} {c : EccCurve} {key : List Byte}
    (found : getCurve eccCurve = some c) (hex : key.all isHexDigit = true) :
    eccIsPrivateKeyValid eccCurve key =
      if value (key.take 176) < c.eorder.front key.length then some 1
      else if c.eorder.front key.length < value (key.take 176) then some 0
      else if key.length ≤ 176 then
        some (if key.length < c.eorder.length then 1 else if c.eorder.length < key.length then 0 else -1)
      else none := by
  have listed := getCurve_listed found
  obtain ⟨number, fits⟩ := eccCurves_literals c listed c.eorder (by simp [EccCurve.literals])
  obtain ⟨length, nibbles, whole⟩ := eorderChars_spec listed
  have text : c.eorder.text.length = c.eorder.length := hexText_length _ _
  have keys : ∀ k ∈ key.take (eccStrlen key), NibbleChar k :=
    fun k inside => .of_hex (List.all_eq_true.mp hex k (List.mem_of_mem_take inside))
  have front : value (c.eorderChars.take (key.take (eccStrlen key)).length) =
      c.eorder.front key.length := by
    rw [value_take fun e inside => (nibbles e inside).2, whole, length, HexLiteral.front,
      EccCurve.order, List.length_take, eccStrlen]
    congr 2
    omega
  have first : (key.take (eccStrlen key)).take 176 = key.take 176 := by
    rw [List.take_take, eccStrlen]
    by_cases short : key.length ≤ 176
    · rw [List.take_of_length_le (by omega), List.take_of_length_le short]
    · rw [show min 176 (min key.length 1025) = 176 by omega]
  unfold eccIsPrivateKeyValid
  rw [found]
  simp only
  rw [privateKeyLoop_eq _ keys nibbles, front, length, first]
  congr 2
  rw [List.length_take]
  simp only [eccStrlen, text]
  by_cases short : key.length ≤ 176
  · rw [if_pos (by omega), if_pos short]
    congr 1
    split_ifs <;> first | rfl | omega
  · rw [if_neg (by omega), if_neg short]

/-- On a known curve the answer is the claimed one just where the front parts of the texts compare as
their numbers do; for an unknown curve there is none. -/
theorem eccIsPrivateKeyValid_iff {eccCurve : EccCurveId} {key : List Byte}
    (hex : key.all isHexDigit = true) :
    PrivateKeyLaw eccCurve key ↔ ∃ c, getCurve eccCurve = some c ∧ c.eorder.FrontCompares key := by
  unfold PrivateKeyLaw
  cases found : getCurve eccCurve with
  | none => simp [eccIsPrivateKeyValid, found]
  | some c =>
    obtain ⟨number, fits⟩ := eccCurves_literals c (getCurve_listed found) c.eorder
      (by simp [EccCurve.literals])
    have above : 1 < c.order := (eccCurves_order c (getCurve_listed found)).1
    simp only [eccIsPrivateKeyValid_eq found hex, Option.some.injEq, exists_eq_left',
      HexLiteral.FrontCompares]
    rw [EccCurve.order] at above ⊢
    set order := c.eorder.number
    rcases Nat.lt_or_ge key.length c.eorder.length with shorter | longer
    · -- all of the key against the order's first digits
      have short : key.length ≤ 176 := by omega
      have front : c.eorder.front key.length = order / 16 ^ (c.eorder.length - key.length) := by
        rw [HexLiteral.front, show 176 - key.length =
          (c.eorder.length - key.length) + (176 - c.eorder.length) by omega, Nat.pow_add,
          Nat.mul_div_mul_right _ _ (Nat.pow_pos (by omega))]
      have below : order / 16 ^ (c.eorder.length - key.length) < order :=
        Nat.div_lt_self (by omega) (Nat.one_lt_pow (by omega) (by omega))
      have fits := Nat.le_div_iff_mul_le (x := value key) (y := order)
        (Nat.pow_pos (by omega) : 0 < 16 ^ (c.eorder.length - key.length))
      rw [front, if_pos shorter, List.take_of_length_le short, if_pos shorter, if_pos short, ← fits]
      split_ifs <;> simp <;> omega
    · have longerNot : ¬key.length < c.eorder.length := by omega
      have grown : order ≤ order * 16 ^ (key.length - c.eorder.length) :=
        Nat.le_mul_of_pos_right _ (Nat.pow_pos (by omega))
      rw [if_neg longerNot, if_neg longerNot]
      by_cases short : key.length ≤ 176
      · have front : c.eorder.front key.length = order * 16 ^ (key.length - c.eorder.length) := by
          rw [HexLiteral.front, show 176 - c.eorder.length =
            (key.length - c.eorder.length) + (176 - key.length) by omega, Nat.pow_add,
            ← Nat.mul_assoc, Nat.mul_div_cancel _ (Nat.pow_pos (by omega))]
        rw [front, List.take_of_length_le short, if_pos short]
        split_ifs <;> simp <;> omega
      · -- only the first digits of the key are compared, with the whole array
        have front : c.eorder.front key.length = order * 16 ^ (176 - c.eorder.length) := by
          rw [HexLiteral.front, show 176 - key.length = 0 by omega, Nat.pow_zero, Nat.div_one]
        have first : value (key.take 176) = value key / 16 ^ (key.length - 176) :=
          value_take (fun k inside => digitValue_lt (List.all_eq_true.mp hex k inside)) 176
        have fits := Nat.div_lt_iff_lt_mul (x := value key) (y := order * 16 ^ (176 - c.eorder.length))
          (Nat.pow_pos (by omega) : 0 < 16 ^ (key.length - 176))
        have weight : order * 16 ^ (176 - c.eorder.length) * 16 ^ (key.length - 176) =
            order * 16 ^ (key.length - c.eorder.length) := by
          rw [Nat.mul_assoc, ← Nat.pow_add, show 176 - c.eorder.length + (key.length - 176) =
            key.length - c.eorder.length by omega]
        rw [weight, ← first] at fits
        rw [front, if_neg short]
        split_ifs <;> simp <;> omega

theorem eccIsPrivateKeyValid_iff_one :
    PrivateKeyLaw .p192 [0x31] ↔ ∃ c, getCurve .p192 = some c ∧ c.eorder.FrontCompares [0x31] :=
  eccIsPrivateKeyValid_iff (by decide)

/-- A one and 48 zeros name a number above the order of P-192, which has 48 digits: it is let through. -/
theorem private_key_above_order :
    value (0x31 :: List.replicate 48 0x30) = 16 ^ 48 ∧
      (getCurve .p192).map EccCurve.order = some 0xFFFFFFFFFFFFFFFFFFFFFFFF99DEF836146BC9B1B4D22831 ∧
      eccIsPrivateKeyValid .p192 (0x31 :: List.replicate 48 0x30) = some 1 ∧
      ¬PrivateKeyLaw .p192 (0x31 :: List.replicate 48 0x30) := by
  have number : value (0x31 :: List.replicate 48 0x30) = 16 ^ 48 := by decide
  have answer : eccIsPrivateKeyValid .p192 (0x31 :: List.replicate 48 0x30) = some 1 := by
    decide
  refine ⟨number, by decide, answer, ?_⟩
  rintro ⟨ret, same, law⟩
  rw [answer] at same
  injection same with same
  rw [number] at law
  exact absurd (law.mp same.symm) (by decide)

end NuMakerMA35
