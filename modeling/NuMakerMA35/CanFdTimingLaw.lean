import NuMakerMA35.CanFdPhase
import Mathlib.Data.Nat.ModEq
import Mathlib.Data.Nat.Prime.Basic
import Mathlib.Tactic.IntervalCases
import Mathlib.Tactic.Linarith
import Mathlib.Tactic.Ring

namespace NuMakerMA35

theorem mem_nominalPrescalers {prescaler : Nat} :
    prescaler ∈ nominalPrescalers ↔ 1 ≤ prescaler ∧ prescaler ≤ 1024 := by
  rw [nominalPrescalers, List.mem_range'_1]
  omega

theorem mem_dataPrescalers {prescaler : Nat} :
    prescaler ∈ dataPrescalers ↔ 1 ≤ prescaler ∧ prescaler ≤ 32 := by
  rw [dataPrescalers, List.mem_range'_1]
  omega

section Conditions

def nominalRate (nominal : Nat) : Nat := min nominal 1000000

/-- The clock cycles of a bit before the pre-divider, for a pair of time quanta and prescaler. -/
def bitCycles (rate : Nat) (pair : Nat × Nat) : Nat := rate * pair.1 * pair.2

def Divides (src cycles : Nat) : Prop := cycles ∣ src ∧ src / cycles ≤ 256

instance (src cycles : Nat) : Decidable (Divides src cycles) :=
  inferInstanceAs (Decidable (_ ∧ _))

/-- The product in 32 bits is the clock. -/
def DataMatches (data src pre : Nat) (pair : Nat × Nat) : Prop :=
  bitCycles data pair * (pre % 256) % 2 ^ 32 = src

instance (data src pre : Nat) : DecidablePred (DataMatches data src pre) :=
  fun _ => inferInstanceAs (Decidable (_ = _))

def NominalInLimits (nominal src : Nat) (pair : Nat × Nat) : Prop :=
  nominal ≤ 1000000 ∧ src / bitCycles (nominalRate nominal) pair ≤ 8 ∧ pair.2 < 512 ∧
    JumpHasRoom nominal pair.1

/-- Time quanta, a prescaler and a pre-divider of the ranges that are tried give the clock. -/
def SettingDivides (nominal src : Nat) : Prop :=
  ∃ pair ∈ timeQuanta ×ˢ nominalPrescalers, Divides src (bitCycles nominal pair)

/-- A bit of `k * p` clock cycles: nine, ten or 27, or a prime of nine bits times as many. -/
structure FewCycles (k p : Nat) : Prop where
  factor : k = 9 ∨ k = 10 ∨ k = 27
  prime : p = 1 ∨ 256 < p ∧ p < 512 ∧ p.Prime

/-- At 25 time quanta and prescaler 1 the pre-divider fits its field. -/
def FirstFits (nominal src : Nat) : Prop :=
  800000 ≤ nominal ∧ nominal ≤ 1000000 ∧ 25 * nominal ∣ src ∧ src / (25 * nominal) ≤ 8

/-- The rate and the clock of a configuration without FD operation. No product overflows up to
a rate of 83886. -/
def PlainFits (nominal src : Nat) : Prop :=
  if nominal ≤ 83886 then
    ¬SettingDivides nominal src ∨ ∃ k p, FewCycles k p ∧ src = nominal * (k * p)
  else FirstFits nominal src

/-- The cycles that 25 nominal time quanta and the data bit have in common. -/
def commonCycles (nominal data : Nat) : Nat := (25 * nominal).lcm data

/-- A faster or slower data phase beside 25 nominal time quanta. -/
structure DataFits (nominal data src : Nat) : Prop where
  nominalRate : 800000 ≤ nominal ∧ nominal ≤ 1000000
  dataRate : 800000 ≤ data ∧ data ≤ 2684354
  wraps : ¬2 ^ 15 ∣ data
  whole : commonCycles nominal data ∣ src
  low : src / commonCycles nominal data ≤ 8
  quanta : ∃ pair ∈ timeQuanta ×ˢ dataPrescalers,
    pair.2 < 32 ∧ commonCycles nominal data = bitCycles data pair

def FdFits (nominal data src : Nat) : Prop :=
  if nominal ≤ 83886 then ¬SettingDivides nominal src
  else if data = nominal then FirstFits nominal src
  else DataFits nominal data src

end Conditions

section Order

def Before : Nat × Nat → Nat × Nat → Prop := Prod.Lex (· > ·) (· < ·)

theorem before_iff {a b : Nat × Nat} : Before a b ↔ b.1 < a.1 ∨ a.1 = b.1 ∧ a.2 < b.2 :=
  Prod.lex_def

theorem before_asymm (a b : Nat × Nat) (earlier : Before a b) : ¬Before b a := by
  rw [before_iff] at *
  omega

theorem nominalPairs_ordered : (timeQuanta ×ˢ nominalPrescalers).Pairwise Before :=
  pairwise_product (by decide) List.pairwise_lt_range'

theorem dataPairs_ordered : (timeQuanta ×ˢ dataPrescalers).Pairwise Before :=
  pairwise_product (by decide) List.pairwise_lt_range'

end Order

section Cycles

theorem FewCycles.of_first {tq p q : Nat} (quanta : tq = 9 ∨ tq = 10) (first : 1 ≤ p)
    (fits : p < 512) (divider : 1 ≤ q ∧ q ≤ 8)
    (least : ∀ t u v, t ≤ 25 → 1 ≤ u → u ≤ 1024 → 1 ≤ v → v ≤ 256 → t * u * v = tq * p * q →
      t < tq ∨ t = tq ∧ p ≤ u) : FewCycles (tq * q) p := by
  have table : ∀ t ∈ [9, 10], ∀ v ∈ List.range' 1 8, (v = 1 ∨ t = 9 ∧ v = 3) ∨
      ∃ t' ∈ List.range' 11 15, ∃ v' ∈ List.range' 1 8, t' * v' = t * v := by decide
  have odd : q = 1 ∨ tq = 9 ∧ q = 3 := by
    rcases table tq (by simpa using quanta) q (by simp; omega) with done | ⟨t, wide, v, low, same⟩
    · exact done
    · rw [List.mem_range'_1] at wide low
      have := least t p v (by omega) first (by omega) (by omega) (by omega) (by
        rw [Nat.mul_right_comm, same, Nat.mul_right_comm])
      omega
  have one_or : p ≤ 256 → p = 1 := by
    intro low
    have small := least tq q p (by omega) (by omega) (by omega) first low (Nat.mul_right_comm tq q p)
    have product : p * q ≤ 3 * 3 := Nat.mul_le_mul (by omega) (by omega)
    have unit := least tq 1 (p * q) (by omega) (by omega) (by omega) (Nat.mul_pos first divider.1)
      (by omega) (by ring)
    omega
  refine ⟨by rcases odd with rfl | ⟨rfl, rfl⟩ <;> omega, ?_⟩
  by_cases low : p ≤ 256
  · exact .inl (one_or low)
  · refine .inr ⟨by omega, fits, ?_⟩
    by_contra composite
    obtain ⟨v, product⟩ := Nat.minFac_dvd p
    have least2 := (Nat.minFac_prime (n := p) (by omega)).two_le
    have square := Nat.minFac_sq_le_self first composite
    generalize p.minFac = u at *
    rw [sq] at square
    have below : u ≤ v := Nat.le_of_mul_le_mul_left (product ▸ square) (by omega)
    have high : v < 256 := by
      have double := Nat.mul_le_mul_right v least2
      omega
    have wide : u < 23 := by
      by_contra large
      have := Nat.mul_le_mul (Nat.le_of_not_lt large) (Nat.le_of_not_lt large)
      omega
    have after := least tq (u * q) v (by omega) (Nat.mul_pos (by omega) divider.1) (by
      have : u * q ≤ 22 * 3 := Nat.mul_le_mul (by omega) (by omega)
      omega) (by omega) (by omega) (by rw [product]; ring)
    have : v ≤ q := by
      have : p ≤ u * q := by omega
      rw [product] at this
      exact Nat.le_of_mul_le_mul_left this (by omega)
    have small : u * v ≤ 3 * 3 := Nat.mul_le_mul (by omega) (by omega)
    omega

theorem quanta_of_factor {k tq w : Nat} (factor : k = 9 ∨ k = 10 ∨ k = 27)
    (quanta : 8 ≤ tq ∧ tq ≤ 25) (same : k = tq * w) :
    tq = k ∧ w = 1 ∨ tq = 9 ∧ k = 27 ∧ w = 3 := by
  have least := Nat.mul_le_mul_right w quanta.1
  have few : w ≤ 3 := by omega
  interval_cases w <;> omega

theorem FewCycles.setting {k p tq u v : Nat} (few : FewCycles k p) (quanta : 8 ≤ tq ∧ tq ≤ 25)
    (small : u ≤ 1024) (divider : 1 ≤ v ∧ v ≤ 256) (same : k * p = tq * u * v) :
    ∃ j, u = p * j ∧ (tq = k ∧ j * v = 1 ∨ tq = 9 ∧ k = 27 ∧ j * v = 3) := by
  obtain ⟨factor, prime⟩ := few
  have divides : p ∣ u := by
    rcases prime with rfl | ⟨low, _, prime⟩
    · exact one_dvd u
    · have whole : p ∣ tq * u * v := Dvd.intro_left k same
      rw [prime.dvd_mul, prime.dvd_mul] at whole
      rcases whole with (none | here) | none
      · exact absurd (Nat.le_of_dvd (by omega) none) (by omega)
      · exact here
      · exact absurd (Nat.le_of_dvd (by omega) none) (by omega)
  obtain ⟨j, rfl⟩ := divides
  have positive : 0 < p := by rcases prime with rfl | ⟨low, _⟩ <;> omega
  have rest : k = tq * (j * v) := by
    apply Nat.eq_of_mul_eq_mul_right positive
    rw [same]
    ring
  exact ⟨j, rfl, quanta_of_factor factor quanta rest⟩

theorem eq_of_wrapped {d a b : Nat} (wraps : ¬2 ^ 15 ∣ d) (lowA : a < 2 ^ 18) (lowB : b < 2 ^ 18)
    (same : d * a % 2 ^ 32 = d * b % 2 ^ 32) : a = b := by
  obtain ⟨j, _, power⟩ := (Nat.dvd_prime_pow Nat.prime_two).mp (Nat.gcd_dvd_left (2 ^ 32) d)
  have small : j < 15 := by
    by_contra large
    have factor : 2 ^ 15 ∣ 2 ^ j := Nat.pow_dvd_pow 2 (by omega)
    rw [← power] at factor
    exact wraps (factor.trans (Nat.gcd_dvd_right _ _))
  have congruent := Nat.ModEq.cancel_left_div_gcd (by decide) same
  rw [power, Nat.pow_div (by omega) (by decide)] at congruent
  have wide : 2 ^ 18 ≤ 2 ^ (32 - j) := Nat.pow_le_pow_right (by decide) (by omega)
  exact congruent.eq_of_lt_of_lt (lowA.trans_le wide) (lowB.trans_le wide)

end Cycles

section Slow

variable {nominal src k p : Nat} {pair : Nat × Nat}

theorem mem_nominalPairs : pair ∈ timeQuanta ×ˢ nominalPrescalers ↔
    (8 ≤ pair.1 ∧ pair.1 ≤ 25) ∧ 1 ≤ pair.2 ∧ pair.2 ≤ 1024 := by
  rw [List.mem_product, mem_timeQuanta, mem_nominalPrescalers]

theorem bitCycles_pos (given : 0 < nominal) (here : pair ∈ timeQuanta ×ˢ nominalPrescalers) :
    0 < bitCycles nominal pair := by
  have bounds := mem_nominalPairs.mp here
  exact Nat.mul_pos (Nat.mul_pos given (by omega)) bounds.2.1

/-- Up to this rate no product overflows. -/
theorem bitCycles_lt (slow : nominal ≤ 83886) (here : pair ∈ timeQuanta ×ˢ nominalPrescalers) :
    bitCycles nominal pair < 2 ^ 31 := by
  have bounds := mem_nominalPairs.mp here
  calc bitCycles nominal pair ≤ 83886 * 25 * 1024 :=
        Nat.mul_le_mul (Nat.mul_le_mul slow bounds.1.2) bounds.2.2
    _ < 2 ^ 31 := by decide

theorem Divides.of_eq {cycles q : Nat} (positive : 0 < cycles) (low : q ≤ 256)
    (same : src = cycles * q) : Divides src cycles := by
  refine ⟨⟨q, same⟩, ?_⟩
  rw [same, Nat.mul_div_cancel_left q positive]
  exact low

/-- The first setting that divides the clock fits if and only if the cycles are few. -/
theorem inLimits_iff_few (given : 0 < nominal) (slow : nominal ≤ 83886) (clock : 0 < src)
    (here : pair ∈ timeQuanta ×ˢ nominalPrescalers) (divides : Divides src (bitCycles nominal pair))
    (first : ∀ b ∈ timeQuanta ×ˢ nominalPrescalers, Before b pair →
      ¬Divides src (bitCycles nominal b)) :
    NominalInLimits nominal src pair ↔ ∃ k p, FewCycles k p ∧ src = nominal * (k * p) := by
  obtain ⟨quanta, listed⟩ := mem_nominalPairs.mp here
  have positive := bitCycles_pos given here
  have equal : nominalRate nominal = nominal := min_eq_left (by omega)
  obtain ⟨⟨v, product⟩, low⟩ := divides
  have quotient : src / bitCycles nominal pair = v := by
    rw [product, Nat.mul_div_cancel_left v positive]
  rw [quotient] at low
  have some_ : 0 < v := by
    rw [product] at clock
    exact Nat.pos_of_mul_pos_left clock
  have cycles : src = nominal * (pair.1 * pair.2 * v) := by
    rw [product, bitCycles]
    ring
  unfold NominalInLimits
  rw [equal, quotient]
  constructor
  · rintro ⟨_, eight, fits, room⟩
    have nineOrTen : pair.1 = 9 ∨ pair.1 = 10 := by
      unfold JumpHasRoom at room
      omega
    refine ⟨pair.1 * v, pair.2, .of_first nineOrTen listed.1 fits ⟨some_, eight⟩ ?_, ?_⟩
    · intro t u w wide firstU high least most same
      by_cases narrow : t < 8
      · omega
      · have there : (t, u) ∈ timeQuanta ×ˢ nominalPrescalers :=
          mem_nominalPairs.mpr ⟨⟨by omega, wide⟩, firstU, high⟩
        have later : ¬Before (t, u) pair := fun before =>
          first (t, u) there before (.of_eq (bitCycles_pos given there) most (by
            rw [cycles, ← same, bitCycles]
            ring))
        rw [before_iff] at later
        omega
    · rw [cycles, Nat.mul_right_comm]
  · rintro ⟨k, p, few, same⟩
    rw [same] at cycles
    obtain ⟨j, multiple, split⟩ := few.setting quanta listed.2 ⟨some_, low⟩
      (Nat.eq_of_mul_eq_mul_left given cycles)
    have prime := few.prime
    have factor := few.factor
    have once : j = 1 := by
      rcases split with ⟨_, unit⟩ | ⟨nine, rfl, three⟩
      · exact Nat.eq_one_of_mul_eq_one_right unit
      · by_contra more
        have there : (9, p) ∈ timeQuanta ×ˢ nominalPrescalers :=
          mem_nominalPairs.mpr ⟨show 8 ≤ 9 ∧ 9 ≤ 25 by decide, by omega, show p ≤ 1024 by omega⟩
        have large : 1 < j := by
          rcases j with _ | _ | j
          · omega
          · omega
          · omega
        refine first (9, p) there (before_iff.mpr (.inr ⟨nine.symm, ?_⟩))
          (.of_eq (q := 3) (bitCycles_pos given there) (by decide) ?_)
        · rw [multiple]
          exact lt_mul_of_one_lt_right (by omega) large
        · rw [same, bitCycles]
          ring
    subst once
    unfold JumpHasRoom
    omega

end Slow

section DataPairs

variable {pair : Nat × Nat}

theorem mem_dataPairs : pair ∈ timeQuanta ×ˢ dataPrescalers ↔
    (8 ≤ pair.1 ∧ pair.1 ≤ 25) ∧ 1 ≤ pair.2 ∧ pair.2 ≤ 32 := by
  rw [List.mem_product, mem_timeQuanta, mem_dataPrescalers]

end DataPairs

namespace DataFits

variable {nominal data src pre : Nat} {pair : Nat × Nat}

theorem commonCycles_pos (fits : DataFits nominal data src) : 0 < commonCycles nominal data := by
  have least := fits.nominalRate.1
  have dataLeast := fits.dataRate.1
  exact Nat.lcm_pos (by omega) (by omega)

theorem commonCycles_lt (fits : DataFits nominal data src) : commonCycles nominal data < 2 ^ 31 := by
  obtain ⟨pair, here, low, same⟩ := fits.quanta
  obtain ⟨quanta, _⟩ := mem_dataPairs.mp here
  calc commonCycles nominal data = data * pair.1 * pair.2 := same
    _ ≤ 2684354 * 25 * 31 :=
      Nat.mul_le_mul (Nat.mul_le_mul fits.dataRate.2 quanta.2) (by omega)
    _ < 2 ^ 31 := by decide

theorem matches_iff (fits : DataFits nominal data src) (word : src < 2 ^ 32)
    (here : pair ∈ timeQuanta ×ˢ dataPrescalers) (byte : pre < 256) :
    DataMatches data src pre pair ↔ src = bitCycles data pair * pre := by
  unfold DataMatches
  rw [Nat.mod_eq_of_lt byte]
  constructor
  · intro wrapped
    obtain ⟨exactPair, there, low, same⟩ := fits.quanta
    obtain ⟨quanta, listed⟩ := mem_dataPairs.mp here
    obtain ⟨exactQuanta, _⟩ := mem_dataPairs.mp there
    obtain ⟨q, product⟩ := fits.whole
    have small := fits.low
    rw [product, Nat.mul_div_cancel_left q fits.commonCycles_pos] at small
    have exact_ : src = data * (exactPair.1 * exactPair.2 * q) := by
      rw [product, same, bitCycles]
      ring
    have tried : bitCycles data pair * pre = data * (pair.1 * pair.2 * pre) := by
      rw [bitCycles]
      ring
    have equal : pair.1 * pair.2 * pre = exactPair.1 * exactPair.2 * q := by
      apply eq_of_wrapped fits.wraps
      · calc pair.1 * pair.2 * pre ≤ 25 * 32 * 255 :=
              Nat.mul_le_mul (Nat.mul_le_mul quanta.2 listed.2) (by omega)
          _ < 2 ^ 18 := by decide
      · calc exactPair.1 * exactPair.2 * q ≤ 25 * 31 * 8 :=
              Nat.mul_le_mul (Nat.mul_le_mul exactQuanta.2 (by omega)) small
          _ < 2 ^ 18 := by decide
      · rw [← tried, wrapped, ← exact_, Nat.mod_eq_of_lt word]
    rw [tried, equal]
    exact exact_
  · intro same
    rw [← same, Nat.mod_eq_of_lt word]

end DataFits

namespace CanfdTimeingConfigT

variable {config : CanfdTimeingConfigT} {fdoe : Bool} {nominal data src rate : U32}
  {ntq dtq prescaler : Nat}

def divided (config : CanfdTimeingConfigT) (prescaler pre : Nat) : CanfdTimeingConfigT :=
  { config with
    nominalPrescaler := BitVec.ofNat 16 prescaler
    preDivider := BitVec.ofNat 8 pre }

theorem divided_preDivider {pre : Nat} :
    (config.divided prescaler pre).preDivider.toNat = pre % 256 :=
  BitVec.toNat_ofNat pre 8

variable (config) in
theorem divided_nominalPrescaler (pre : Nat) (listed : prescaler ∈ nominalPrescalers) :
    (config.divided prescaler pre).nominalPrescaler.toNat = prescaler := by
  have bounds := mem_nominalPrescalers.mp listed
  exact (BitVec.toNat_ofNat prescaler 16).trans (Nat.mod_eq_of_lt (by omega))

theorem tryData_eq :
    config.tryData rate data src ntq dtq prescaler =
      if InInt (Int.bmod (data.toNat * dtq) (2 ^ 32) * prescaler) then
        .ok (if DataMatches data.toNat src.toNat config.preDivider.toNat (dtq, prescaler) then
          some ({ config with dataPrescaler := BitVec.ofNat 8 prescaler }.getSegments rate data
            ntq dtq)
        else none)
      else .error .signedOverflow := by
  have dclk : (data * BitVec.ofNat 32 dtq).toInt = Int.bmod (data.toNat * dtq) (2 ^ 32) := by
    rw [BitVec.toInt_eq_toNat_bmod, BitVec.toNat_mul, BitVec.toNat_ofNat, Nat.mul_mod_mod,
      Int.natCast_emod, Int.emod_bmod, Int.natCast_mul]
  have word : (BitVec.ofInt 32 ((data * BitVec.ofNat 32 dtq).toInt * prescaler) *
      config.preDivider.setWidth 32).toNat =
      bitCycles data.toNat (dtq, prescaler) * (config.preDivider.toNat % 256) % 2 ^ 32 := by
    rw [BitVec.ofInt_mul, BitVec.ofInt_toInt, BitVec.ofInt_natCast]
    have byte : config.preDivider.toNat % 256 = config.preDivider.toNat :=
      Nat.mod_eq_of_lt config.preDivider.isLt
    simp only [BitVec.toNat_mul, BitVec.toNat_ofNat, BitVec.toNat_setWidth, Nat.mul_mod_mod,
      Nat.mod_mul_mod, bitCycles, byte]
  have matches_ : src = BitVec.ofInt 32 ((data * BitVec.ofNat 32 dtq).toInt * prescaler) *
      config.preDivider.setWidth 32 ↔
      DataMatches data.toNat src.toNat config.preDivider.toNat (dtq, prescaler) := by
    rw [← BitVec.toNat_inj, word, DataMatches]
    exact eq_comm
  unfold tryData mulInt
  dsimp only
  rw [← dclk]
  by_cases inside : InInt ((data * BitVec.ofNat 32 dtq).toInt * prescaler)
  · rw [if_pos inside, if_pos inside]
    change (if _ then _ else _) = _
    by_cases found : DataMatches data.toNat src.toNat config.preDivider.toNat (dtq, prescaler)
    · rw [if_pos found, if_pos (matches_.mpr found)]
      rfl
    · rw [if_neg found, if_neg (mt matches_.mp found)]
      rfl
  · rw [if_neg inside, if_neg inside]
    rfl

theorem preDividerOf_eq {cycles : Nat} (some_ : 0 < cycles) (small : cycles < 2 ^ 32) :
    preDividerOf src (BitVec.ofNat 32 cycles) =
      .ok (if Divides src.toNat cycles then some (BitVec.ofNat 8 (src.toNat / cycles)) else none) := by
  have word : (BitVec.ofNat 32 cycles).toNat = cycles := by
    rw [BitVec.toNat_ofNat, Nat.mod_eq_of_lt small]
  have notZero : BitVec.ofNat 32 cycles ≠ 0 := by
    intro zero
    rw [zero] at word
    exact some_.ne word
  have quotient : (src / BitVec.ofNat 32 cycles).toNat = src.toNat / cycles := by
    rw [BitVec.toNat_udiv, word]
  have limit : src / BitVec.ofNat 32 cycles ≤ 256 ↔ src.toNat / cycles ≤ 256 := by
    rw [BitVec.le_def, quotient]
    rfl
  have rest : src % BitVec.ofNat 32 cycles = 0 ↔ cycles ∣ src.toNat := by
    rw [← BitVec.toNat_inj, BitVec.toNat_umod, word, Nat.dvd_iff_mod_eq_zero]
    rfl
  have byte : (src / BitVec.ofNat 32 cycles).setWidth 8 = BitVec.ofNat 8 (src.toNat / cycles) := by
    apply BitVec.eq_of_toNat_eq
    rw [BitVec.toNat_setWidth, quotient, BitVec.toNat_ofNat]
  unfold preDividerOf divU32 modU32
  rw [if_neg notZero, if_neg notZero]
  change (if _ then _ else _) = _
  by_cases low : src.toNat / cycles ≤ 256
  · rw [if_pos (limit.mpr low)]
    change (Except.ok _ : Except CUndefined _) = _
    by_cases whole : cycles ∣ src.toNat
    · rw [if_pos (rest.mpr whole), if_pos ⟨whole, low⟩, byte]
    · rw [if_neg (mt rest.mp whole), if_neg fun both => whole both.1]
  · rw [if_neg (mt limit.mp low), if_neg fun both => low both.2]
    rfl

theorem tryNominal_eq (some_ : 0 < rate.toNat) (capped : rate.toNat ≤ 1000000)
    (quanta : ntq ∈ timeQuanta) (first : 0 < prescaler) :
    config.tryNominal fdoe rate data src ntq prescaler =
      let cycles := bitCycles rate.toNat (ntq, prescaler)
      if cycles < 2 ^ 31 then
        if Divides src.toNat cycles then
          (config.divided prescaler (src.toNat / cycles)).tryDivided fdoe rate data src ntq
        else .ok none
      else .error .signedOverflow := by
  have bounds := mem_timeQuanta.mp quanta
  have product : rate.toNat * ntq ≤ 1000000 * 25 := Nat.mul_le_mul capped bounds.2
  have nclk : (rate * BitVec.ofNat 32 ntq).toInt = (rate.toNat * ntq : Nat) := by
    have value : (rate * BitVec.ofNat 32 ntq).toNat = rate.toNat * ntq := by
      rw [BitVec.toNat_mul, BitVec.toNat_ofNat, Nat.mul_mod_mod, Nat.mod_eq_of_lt (by omega)]
    rw [BitVec.toInt_eq_toNat_of_lt (by omega), value]
  have positive : 0 < bitCycles rate.toNat (ntq, prescaler) :=
    Nat.mul_pos (Nat.mul_pos some_ (by omega)) first
  have whole : ((rate.toNat * ntq : Nat) : Int) * prescaler =
      (bitCycles rate.toNat (ntq, prescaler) : Nat) := by
    rw [bitCycles]
    push_cast
    rfl
  unfold tryNominal mulInt
  dsimp only
  rw [nclk, whole]
  generalize bitCycles rate.toNat (ntq, prescaler) = cycles at positive
  by_cases inside : cycles < 2 ^ 31
  · rw [if_pos inside, if_pos (show InInt (cycles : Int) by unfold InInt; omega)]
    change (preDividerOf src (BitVec.ofInt 32 cycles) >>= _) = _
    rw [BitVec.ofInt_natCast, preDividerOf_eq positive (by omega)]
    by_cases divides : Divides src.toNat cycles
    · rw [if_pos divides, if_pos divides]
      rfl
    · rw [if_neg divides, if_neg divides]
      rfl
  · rw [if_neg inside, if_neg (show ¬InInt (cycles : Int) by unfold InInt; omega)]
    rfl

theorem right_iff {nominal data src : Nat} :
    config.Right fdoe nominal data src ↔
      ((1 ≤ config.preDivider.toNat ∧ config.preDivider.toNat ≤ 8) ∧
        config.nominalPhase.Right CanfdPhase.nbtp src config.preDivider.toNat nominal) ∧
      (fdoe = true → config.dataPhase.Right CanfdPhase.dbtp src config.preDivider.toNat data) :=
  ⟨fun right => ⟨⟨right.divider, right.nominalRight⟩, right.dataRight⟩,
    fun both => ⟨both.1.1, both.1.2, both.2⟩⟩

theorem nominal_right_iff {nominal src : Nat} {pair : Nat × Nat} (given : 0 < nominal)
    (clock : 0 < src) (capped : rate.toNat = nominalRate nominal) (quanta : pair.1 ∈ timeQuanta)
    (first : 0 < pair.2) (divides : Divides src (bitCycles (nominalRate nominal) pair)) :
    ((1 ≤ src / bitCycles (nominalRate nominal) pair % 256 ∧
        src / bitCycles (nominalRate nominal) pair % 256 ≤ 8) ∧
      (CanfdPhase.ofQuanta rate pair.1 pair.2).Right CanfdPhase.nbtp src
        (src / bitCycles (nominalRate nominal) pair % 256) nominal) ↔
      NominalInLimits nominal src pair := by
  have bounds := mem_timeQuanta.mp quanta
  have limit : nominalRate nominal ≤ 1000000 := min_le_right _ _
  have ratePos : 0 < nominalRate nominal := lt_min given (by decide)
  have cyclesPos : 0 < bitCycles (nominalRate nominal) pair :=
    Nat.mul_pos (Nat.mul_pos ratePos (by omega)) first
  obtain ⟨whole, low⟩ := divides
  have product := Nat.div_mul_cancel whole
  have some_ : 0 < src / bitCycles (nominalRate nominal) pair :=
    Nat.div_pos (Nat.le_of_dvd clock whole) cyclesPos
  rw [CanfdPhase.ofQuanta_right_iff quanta first (by decide), capped]
  unfold NominalInLimits
  generalize src / bitCycles (nominalRate nominal) pair = pre at *
  rw [bitCycles] at product
  constructor
  · rintro ⟨⟨least, most⟩, exact_, fits, room⟩
    have same : pre % 256 = pre := by omega
    rw [same] at exact_ most
    have rates : pre * pair.2 * pair.1 * nominal = pre * pair.2 * pair.1 * nominalRate nominal := by
      rw [← exact_, ← product]
      ring
    have equal : nominal = nominalRate nominal :=
      Nat.eq_of_mul_eq_mul_left (Nat.mul_pos (Nat.mul_pos some_ first) (by omega)) rates
    rw [← equal] at room limit
    exact ⟨limit, most, fits, room⟩
  · rintro ⟨inside, most, fits, room⟩
    have equal : nominalRate nominal = nominal := min_eq_left inside
    have same : pre % 256 = pre := by omega
    rw [equal] at product ⊢
    rw [same]
    refine ⟨⟨some_, most⟩, ?_, fits, room⟩
    rw [← product]
    ring

section Divided

variable {inLimits : Prop} {pre target : Nat}

variable (config data) in
theorem tryDivided_plain (quanta : ntq ∈ timeQuanta) (listed : prescaler ∈ nominalPrescalers)
    (nominalRight : ((1 ≤ pre % 256 ∧ pre % 256 ≤ 8) ∧
      (CanfdPhase.ofQuanta rate ntq prescaler).Right CanfdPhase.nbtp src.toNat (pre % 256)
        target) ↔ inLimits) :
    ∃ c, (config.divided prescaler pre).tryDivided false rate data src ntq = .ok (some c) ∧
      (c.Right false target data.toNat src.toNat ↔ inLimits) := by
  refine ⟨_, rfl, ?_⟩
  rw [right_iff, getSegments_preDivider, getSegments_nominalPhase _ quanta]
  change ((1 ≤ (config.divided prescaler pre).preDivider.toNat ∧ _) ∧
    (CanfdPhase.ofQuanta rate ntq (config.divided prescaler pre).nominalPrescaler.toNat).Right
      _ _ (config.divided prescaler pre).preDivider.toNat _) ∧ _ ↔ _
  rw [divided_preDivider, divided_nominalPrescaler config pre listed, nominalRight]
  exact ⟨fun both => both.1, fun limits => ⟨limits, fun off => absurd off Bool.false_ne_true⟩⟩

variable (config) in
theorem tryDivided_shared (quanta : ntq ∈ timeQuanta) (listed : prescaler ∈ nominalPrescalers)
    (nominalRight : ((1 ≤ pre % 256 ∧ pre % 256 ≤ 8) ∧
      (CanfdPhase.ofQuanta rate ntq prescaler).Right CanfdPhase.nbtp src.toNat (pre % 256)
        target) ↔ inLimits)
    (equal : inLimits → data.toNat = target) (same : data = rate) (asked : data ≠ 0)
    (low : prescaler ≤ 32) :
    ∃ c, (config.divided prescaler pre).tryDivided true rate data src ntq = .ok (some c) ∧
      (c.Right true target data.toNat src.toNat ↔ inLimits ∧ prescaler < 32) := by
  have word := divided_nominalPrescaler config pre listed
  have bounds := mem_nominalPrescalers.mp listed
  have taken : (config.divided prescaler pre).tryDivided true rate data src ntq =
      .ok (some ({ config.divided prescaler pre with
        dataPrescaler := (config.divided prescaler pre).nominalPrescaler.setWidth 8 }.getSegments
          rate data ntq ntq)) := by
    unfold tryDivided
    rw [if_pos rfl, if_neg asked]
    exact if_pos ⟨same, by rw [BitVec.le_def, word]; exact low⟩
  have byte : ((config.divided prescaler pre).nominalPrescaler.setWidth 8).toNat = prescaler := by
    rw [BitVec.toNat_setWidth, word, Nat.mod_eq_of_lt (by omega)]
  refine ⟨_, taken, ?_⟩
  rw [right_iff, getSegments_preDivider, getSegments_nominalPhase _ quanta,
    getSegments_dataPhase _ quanta]
  dsimp only
  rw [divided_preDivider, word, byte, nominalRight,
    CanfdPhase.ofQuanta_right_iff quanta bounds.1 (by decide)]
  refine and_congr_right fun limits => ?_
  have nominalPart := (CanfdPhase.ofQuanta_right_iff quanta bounds.1 (by decide)).mp
    (nominalRight.mpr limits).2
  rw [equal limits]
  constructor
  · intro right
    exact (right rfl).2.1
  · intro fits _
    rw [← same, equal limits] at nominalPart
    exact ⟨nominalPart.1, fits, nominalPart.2.2⟩

theorem tryDivided_searched (asked : data ≠ 0)
    (listed : prescaler ∈ nominalPrescalers) (other : ¬(data = rate ∧ prescaler ≤ 32)) :
    (config.divided prescaler pre).tryDivided true rate data src ntq =
      search (fun pair => (config.divided prescaler pre).tryData rate data src ntq pair.1 pair.2)
        (timeQuanta ×ˢ dataPrescalers) := by
  have word := divided_nominalPrescaler config pre listed
  unfold tryDivided
  rw [if_pos rfl, if_neg asked]
  dsimp only
  rw [if_neg, search_nested]
  rintro ⟨same, low⟩
  rw [BitVec.le_def, word] at low
  exact other ⟨same, low⟩

end Divided

section Data

variable {pair : Nat × Nat} {p : Nat}

/-- Up to this data rate no product of the inner search overflows. -/
theorem tryData_low (low : data.toNat ≤ 2684354) (here : pair ∈ timeQuanta ×ˢ dataPrescalers) :
    config.tryData rate data src ntq pair.1 pair.2 =
      .ok (if DataMatches data.toNat src.toNat config.preDivider.toNat pair then
        some ({ config with dataPrescaler := BitVec.ofNat 8 pair.2 }.getSegments rate data
          ntq pair.1)
      else none) := by
  obtain ⟨quanta, listed⟩ := mem_dataPairs.mp here
  have narrow : data.toNat * pair.1 ≤ 2684354 * 25 := Nat.mul_le_mul low quanta.2
  have product : data.toNat * pair.1 * pair.2 ≤ 2684354 * 25 * 32 :=
    Nat.mul_le_mul narrow listed.2
  have inside : InInt (Int.bmod (data.toNat * pair.1) (2 ^ 32) * pair.2) := by
    rw [Int.bmod_eq_of_le (by omega) (by omega)]
    unfold InInt
    constructor
    · exact (by decide : (-2 ^ 31 : Int) ≤ 0).trans (by positivity)
    · exact_mod_cast product.trans_lt (by decide)
  rw [tryData_eq, if_pos inside]

theorem searched_right {dpair : Nat × Nat} {target : Nat} (quanta : ntq ∈ timeQuanta)
    (there : dpair ∈ timeQuanta ×ˢ dataPrescalers)
    (nominalRight : (1 ≤ config.preDivider.toNat ∧ config.preDivider.toNat ≤ 8) ∧
      (CanfdPhase.ofQuanta rate ntq config.nominalPrescaler.toNat).Right CanfdPhase.nbtp src.toNat
        config.preDivider.toNat target)
    (clock : src.toNat = bitCycles data.toNat dpair * config.preDivider.toNat)
    (fits : dpair.2 < 32) (fast : 800000 ≤ data.toNat) :
    ({ config with dataPrescaler := BitVec.ofNat 8 dpair.2 }.getSegments rate data ntq
      dpair.1).Right true target data.toNat src.toNat := by
  obtain ⟨dataQuanta, listed⟩ := List.mem_product.mp there
  have bounds := mem_dataPrescalers.mp listed
  have byte : (BitVec.ofNat 8 dpair.2).toNat = dpair.2 := by
    rw [BitVec.toNat_ofNat, Nat.mod_eq_of_lt (by omega)]
  rw [right_iff, getSegments_preDivider, getSegments_nominalPhase _ quanta,
    getSegments_dataPhase _ dataQuanta]
  refine ⟨nominalRight, fun _ => ?_⟩
  dsimp only
  rw [byte, CanfdPhase.ofQuanta_right_iff dataQuanta bounds.1 (by decide)]
  refine ⟨?_, fits, .inl fast⟩
  rw [clock, bitCycles]
  ring

/-- With fewer cycles than the phases have in common no data setting matches. -/
theorem early_none (fits : DataFits nominal.toNat data.toNat src.toNat) (clock : src ≠ 0)
    (divides : Divides src.toNat (bitCycles nominal.toNat (25, p)))
    (early : bitCycles nominal.toNat (25, p) < commonCycles nominal.toNat data.toNat)
    (byte : src.toNat / bitCycles nominal.toNat (25, p) < 256)
    (divider : config.preDivider.toNat = src.toNat / bitCycles nominal.toNat (25, p)) :
    search (fun pair => config.tryData rate data src ntq pair.1 pair.2)
      (timeQuanta ×ˢ dataPrescalers) = .ok none := by
  rcases search_first (f := fun pair => config.tryData rate data src ntq pair.1 pair.2)
    dataPairs_ordered before_asymm with ⟨none, _⟩ | ⟨dpair, there, _, some_, _⟩
  · exact none
  · refine absurd ?_ some_
    rw [tryData_low fits.dataRate.2 there, divider,
      if_neg (mt (fits.matches_iff src.isLt there byte).mp ?_)]
    intro same
    have product := Nat.mul_div_cancel' divides.1
    have positive : 0 < src.toNat / bitCycles nominal.toNat (25, p) := by
      rw [Nat.pos_iff_ne_zero]
      intro zero
      rw [zero, mul_zero] at product
      exact clock (BitVec.eq_of_toNat_eq product.symm)
    have equal : bitCycles nominal.toNat (25, p) = bitCycles data.toNat dpair := by
      apply Nat.eq_of_mul_eq_mul_right positive
      rw [product]
      exact same
    have left : 25 * nominal.toNat ∣ bitCycles nominal.toNat (25, p) :=
      ⟨p, by rw [bitCycles]; ring⟩
    have right : data.toNat ∣ bitCycles nominal.toNat (25, p) := by
      rw [equal, bitCycles, mul_assoc]
      exact Nat.dvd_mul_right _ _
    have cyclesPos : 0 < bitCycles nominal.toNat (25, p) := by
      rw [Nat.pos_iff_ne_zero]
      intro zero
      rw [zero, zero_mul] at product
      exact clock (BitVec.eq_of_toNat_eq product.symm)
    exact absurd (Nat.le_of_dvd cyclesPos (Nat.lcm_dvd left right)) (by
      unfold commonCycles at early
      omega)

/-- At the cycles that the phases have in common the first data setting that matches fits. -/
theorem common_right {target : Nat} (fits : DataFits nominal.toNat data.toNat src.toNat)
    (quanta : ntq ∈ timeQuanta)
    (nominalRight : (1 ≤ config.preDivider.toNat ∧ config.preDivider.toNat ≤ 8) ∧
      (CanfdPhase.ofQuanta rate ntq config.nominalPrescaler.toNat).Right CanfdPhase.nbtp src.toNat
        config.preDivider.toNat target)
    (divider : config.preDivider.toNat = src.toNat / commonCycles nominal.toNat data.toNat) :
    ∃ c, search (fun pair => config.tryData rate data src ntq pair.1 pair.2)
        (timeQuanta ×ˢ dataPrescalers) = .ok (some c) ∧
      c.Right true target data.toNat src.toNat := by
  have product := Nat.mul_div_cancel' fits.whole
  have low := fits.low
  rw [← divider] at product low
  have same : ∀ pair, src.toNat = bitCycles data.toNat pair * config.preDivider.toNat ↔
      bitCycles data.toNat pair = commonCycles nominal.toNat data.toNat := by
    intro pair
    rw [← product, mul_comm, mul_comm _ config.preDivider.toNat, Nat.mul_left_cancel_iff
      (show 0 < config.preDivider.toNat by omega), eq_comm]
  have trial : ∀ pair ∈ timeQuanta ×ˢ dataPrescalers,
      config.tryData rate data src ntq pair.1 pair.2 =
        .ok (if bitCycles data.toNat pair = commonCycles nominal.toNat data.toNat then
          some ({ config with dataPrescaler := BitVec.ofNat 8 pair.2 }.getSegments rate data
            ntq pair.1)
        else none) := by
    intro pair here
    rw [tryData_low fits.dataRate.2 here]
    have byte : config.preDivider.toNat < 256 := by omega
    simp only [fits.matches_iff src.isLt here byte, same]
  obtain ⟨exactPair, exactHere, below, exact_⟩ := fits.quanta
  rcases search_first (f := fun pair => config.tryData rate data src ntq pair.1 pair.2)
    dataPairs_ordered before_asymm with ⟨_, each⟩ | ⟨dpair, there, ended, some_, earlier⟩
  · have empty := each exactPair exactHere
    rw [trial exactPair exactHere, if_pos exact_.symm] at empty
    simp at empty
  · rw [ended]
    have found : bitCycles data.toNat dpair = commonCycles nominal.toNat data.toNat := by
      by_contra other
      rw [trial dpair there, if_neg other] at some_
      exact some_ rfl
    have notLater : ¬Before exactPair dpair := by
      intro before
      have empty := earlier exactPair exactHere before
      rw [trial exactPair exactHere, if_pos exact_.symm] at empty
      simp at empty
    have fits' : dpair.2 < 32 := by
      have bounds := mem_dataPairs.mp exactHere
      have least := fits.dataRate.1
      rw [before_iff] at notLater
      rw [exact_, bitCycles, bitCycles, mul_assoc, mul_assoc, Nat.mul_right_inj (by omega)] at found
      by_contra high
      have more : exactPair.1 * exactPair.2 < dpair.1 * dpair.2 :=
        Nat.mul_lt_mul_of_le_of_lt (by omega) (by omega) (by omega)
      omega
    rw [trial dpair there, if_pos found]
    exact ⟨_, rfl, searched_right quanta there nominalRight ((same dpair).mpr found) fits'
      fits.dataRate.1⟩

end Data

def SearchLawful (config : CanfdTimeingConfigT) (fdoe : Bool) (nominal rate data src : U32) : Prop :=
  Lawful (fun c => c.Right fdoe nominal.toNat data.toNat src.toNat)
    (search (fun pair => config.tryNominal fdoe rate data src pair.1 pair.2)
      (timeQuanta ×ˢ nominalPrescalers))

section Trials

variable {pair : Nat × Nat}

theorem first_mem : (25, 1) ∈ timeQuanta ×ˢ nominalPrescalers := mem_nominalPairs.mpr (by decide)

theorem not_before_first (here : pair ∈ timeQuanta ×ˢ nominalPrescalers) : ¬Before pair (25, 1) := by
  obtain ⟨quanta, listed⟩ := mem_nominalPairs.mp here
  rw [before_iff]
  dsimp only
  omega

variable (given : nominal ≠ 0) (capped : rate.toNat = nominalRate nominal.toNat)

include given capped

theorem trial_eq (here : pair ∈ timeQuanta ×ˢ nominalPrescalers) :
    config.tryNominal fdoe rate data src pair.1 pair.2 =
      if bitCycles rate.toNat pair < 2 ^ 31 then
        if Divides src.toNat (bitCycles rate.toNat pair) then
          (config.divided pair.2 (src.toNat / bitCycles rate.toNat pair)).tryDivided fdoe rate data
            src pair.1
        else .ok none
      else .error .signedOverflow := by
  obtain ⟨quanta, listed⟩ := List.mem_product.mp here
  have limit : rate.toNat ≤ 1000000 := by
    rw [capped]
    exact min_le_right _ _
  have some_ : 0 < rate.toNat := by
    rw [capped]
    exact lt_min (BitVec.toNat_pos_of_ne_zero given) (by decide)
  exact tryNominal_eq some_ limit quanta (mem_nominalPrescalers.mp listed).1

theorem trial_none (here : pair ∈ timeQuanta ×ˢ nominalPrescalers)
    (inside : bitCycles rate.toNat pair < 2 ^ 31)
    (other : ¬Divides src.toNat (bitCycles rate.toNat pair)) :
    config.tryNominal fdoe rate data src pair.1 pair.2 = .ok none := by
  rw [trial_eq given capped here, if_pos inside, if_neg other]

theorem unsettled_lawful (slow : nominal.toNat ≤ 83886) (unsettled : ¬SettingDivides nominal.toNat src.toNat) :
    config.SearchLawful fdoe nominal rate data src := by
  have equal : rate.toNat = nominal.toNat := capped.trans (min_eq_left (by omega))
  unfold SearchLawful
  rcases search_first (f := fun pair => config.tryNominal fdoe rate data src pair.1 pair.2)
    nominalPairs_ordered before_asymm with ⟨none, _⟩ | ⟨pair, here, _, some_, _⟩
  · rw [none]
    trivial
  · refine absurd (trial_none given capped here (bitCycles_lt (equal.trans_le slow) here) ?_) some_
    rw [equal]
    exact fun divides => unsettled ⟨pair, here, divides⟩

variable (asked : data ≠ 0) (clock : src ≠ 0)

include asked clock

variable (config) in
theorem trial_taken (here : pair ∈ timeQuanta ×ˢ nominalPrescalers)
    (inside : bitCycles rate.toNat pair < 2 ^ 31)
    (divides : Divides src.toNat (bitCycles rate.toNat pair))
    (settled : fdoe = true → data = rate ∧ pair.2 ≤ 32) :
    ∃ c, config.tryNominal fdoe rate data src pair.1 pair.2 = .ok (some c) ∧
      (c.Right fdoe nominal.toNat data.toNat src.toNat ↔
        NominalInLimits nominal.toNat src.toNat pair ∧ (fdoe = true → pair.2 < 32)) := by
  obtain ⟨quanta, listed⟩ := List.mem_product.mp here
  have first := (mem_nominalPrescalers.mp listed).1
  rw [trial_eq given capped here, if_pos inside, if_pos divides]
  rw [capped] at divides ⊢
  have nominalRight := nominal_right_iff (BitVec.toNat_pos_of_ne_zero given)
    (BitVec.toNat_pos_of_ne_zero clock) capped quanta first divides
  cases fdoe with
  | false =>
    obtain ⟨c, taken, right⟩ := tryDivided_plain config data quanta listed nominalRight
    refine ⟨c, taken, ?_⟩
    rw [right]
    simp
  | true =>
    obtain ⟨same, low⟩ := settled rfl
    have equal : NominalInLimits nominal.toNat src.toNat pair → data.toNat = nominal.toNat := by
      intro limits
      rw [same, capped]
      exact min_eq_left limits.1
    obtain ⟨c, taken, right⟩ := tryDivided_shared config quanta listed nominalRight equal same
      asked low
    refine ⟨c, taken, ?_⟩
    rw [right]
    simp

/-- Up to a rate of 83886 the search ends with nothing or with the few cycles. -/
theorem slow_iff (slow : nominal.toNat ≤ 83886) :
    config.SearchLawful false nominal rate data src ↔
    ¬SettingDivides nominal.toNat src.toNat ∨
      ∃ k p, FewCycles k p ∧ src.toNat = nominal.toNat * (k * p) := by
  have equal : rate.toNat = nominal.toNat := capped.trans (min_eq_left (by omega))
  have inside : ∀ pair ∈ timeQuanta ×ˢ nominalPrescalers, bitCycles rate.toNat pair < 2 ^ 31 :=
    fun pair here => bitCycles_lt (equal.trans_le slow) here
  have found : ∀ pair ∈ timeQuanta ×ˢ nominalPrescalers,
      Divides src.toNat (bitCycles nominal.toNat pair) →
      ∃ c, config.tryNominal false rate data src pair.1 pair.2 = .ok (some c) ∧
        (c.Right false nominal.toNat data.toNat src.toNat ↔
          NominalInLimits nominal.toNat src.toNat pair) := by
    intro pair here divides
    rw [← equal] at divides
    obtain ⟨c, taken, right⟩ := trial_taken config given capped asked clock here (inside pair here)
      divides fun on => absurd on Bool.false_ne_true
    exact ⟨c, taken, right.trans (and_iff_left fun on => absurd on Bool.false_ne_true)⟩
  have notEmpty : ∀ pair ∈ timeQuanta ×ˢ nominalPrescalers,
      config.tryNominal false rate data src pair.1 pair.2 = .ok none →
      ¬Divides src.toNat (bitCycles nominal.toNat pair) := by
    intro pair here empty divides
    obtain ⟨c, taken, _⟩ := found pair here divides
    rw [taken] at empty
    simp at empty
  unfold SearchLawful
  rcases search_first (f := fun pair => config.tryNominal false rate data src pair.1 pair.2)
    nominalPairs_ordered before_asymm with ⟨none, each⟩ | ⟨pair, here, ended, some_, earlier⟩
  · rw [none]
    exact iff_of_true trivial (.inl fun ⟨pair, here, divides⟩ =>
      notEmpty pair here (each pair here) divides)
  · have divides : Divides src.toNat (bitCycles nominal.toNat pair) := by
      by_contra other
      rw [← equal] at other
      exact some_ (trial_none given capped here (inside pair here) other)
    obtain ⟨c, taken, right⟩ := found pair here divides
    rw [ended, taken, or_iff_right (not_not_intro ⟨pair, here, divides⟩)]
    exact right.trans (inLimits_iff_few (BitVec.toNat_pos_of_ne_zero given) slow
      (BitVec.toNat_pos_of_ne_zero clock) here divides
      fun b there before => notEmpty b there (earlier b there before))

variable (config) in
theorem first_lawful (fits : FirstFits nominal.toNat src.toNat)
    (settled : fdoe = true → data = rate) :
    config.SearchLawful fdoe nominal rate data src := by
  obtain ⟨least, most, whole, low⟩ := fits
  have equal : rate.toNat = nominal.toNat := capped.trans (min_eq_left most)
  have cycles : bitCycles rate.toNat (25, 1) = 25 * nominal.toNat := by
    rw [bitCycles, equal]
    ring
  obtain ⟨c, taken, right⟩ := trial_taken config given capped asked clock first_mem
    (by rw [cycles]; omega) (by rw [cycles]; exact ⟨whole, by omega⟩)
    fun on => ⟨settled on, by decide⟩
  unfold SearchLawful
  rw [search_eq_of_first nominalPairs_ordered first_mem (by dsimp only; rw [taken]; simp)
    fun b here before => absurd before (not_before_first here), taken]
  refine right.mpr ⟨⟨most, ?_, by decide, .inl least⟩, fun _ => by decide⟩
  rw [← capped, cycles]
  exact low

theorem fast_fits (fast : 83886 < nominal.toNat)
    (lawful : config.SearchLawful false nominal rate data src) : FirstFits nominal.toNat src.toNat := by
  have last : (25, 1024) ∈ timeQuanta ×ˢ nominalPrescalers := mem_nominalPairs.mpr (by decide)
  have failed : config.tryNominal false rate data src 25 1024 = .error .signedOverflow := by
    refine (trial_eq given capped last).trans (if_neg ?_)
    rw [bitCycles, capped, nominalRate]
    omega
  unfold SearchLawful at lawful
  rcases search_first (f := fun pair => config.tryNominal false rate data src pair.1 pair.2)
    nominalPairs_ordered before_asymm with ⟨_, each⟩ | ⟨pair, here, ended, some_, earlier⟩
  · have empty := each (25, 1024) last
    rw [failed] at empty
    simp at empty
  · rw [ended] at lawful
    obtain ⟨quanta, listed⟩ := mem_nominalPairs.mp here
    have notLater : ¬Before (25, 1024) pair := by
      intro before
      have empty := earlier (25, 1024) last before
      rw [failed] at empty
      simp at empty
    have wide : pair.1 = 25 := by
      rw [before_iff] at notLater
      omega
    have inside : bitCycles rate.toNat pair < 2 ^ 31 := by
      by_contra outside
      rw [trial_eq given capped here, if_neg outside] at lawful
      exact lawful
    have divides : Divides src.toNat (bitCycles rate.toNat pair) := by
      by_contra other
      exact some_ (trial_none given capped here inside other)
    obtain ⟨c, taken, right⟩ := trial_taken config given capped asked clock here inside divides
      fun on => absurd on Bool.false_ne_true
    rw [taken] at lawful
    obtain ⟨⟨most, low, _, room⟩, _⟩ := right.mp lawful
    have least : 800000 ≤ nominal.toNat := by
      unfold JumpHasRoom at room
      omega
    have equal : rate.toNat = nominal.toNat := capped.trans (min_eq_left most)
    have cycles : bitCycles rate.toNat pair = 25 * nominal.toNat * pair.2 := by
      rw [bitCycles, equal, wide]
      ring
    have whole : 25 * nominal.toNat ∣ src.toNat := by
      rw [cycles] at divides
      exact (Nat.dvd_mul_right _ _).trans divides.1
    have quotient : src.toNat / (25 * nominal.toNat) ≤ 256 := by
      have word := src.isLt
      exact Nat.div_le_of_le_mul (by omega)
    have one : bitCycles rate.toNat (25, 1) = 25 * nominal.toNat := by
      rw [bitCycles, equal]
      ring
    obtain ⟨d, also, _⟩ := trial_taken config given capped asked clock first_mem
      (by rw [one]; omega) (by rw [one]; exact ⟨whole, quotient⟩)
      fun on => absurd on Bool.false_ne_true
    have single : pair.2 = 1 := by
      have notBefore : ¬Before (25, 1) pair := by
        intro before
        have empty := earlier (25, 1) first_mem before
        rw [also] at empty
        simp at empty
      rw [before_iff] at notBefore
      omega
    rw [← capped, cycles, single, mul_one] at low
    exact ⟨least, most, whole, low⟩

variable (config) in
theorem data_lawful (other : data.toNat ≠ nominal.toNat)
    (fits : DataFits nominal.toNat data.toNat src.toNat) :
    config.SearchLawful true nominal rate data src := by
  obtain ⟨least, most⟩ := fits.nominalRate
  have equal : rate.toNat = nominal.toNat := capped.trans (min_eq_left most)
  have differ : ∀ p, ¬(data = rate ∧ p ≤ 32) := by
    rintro p ⟨same, _⟩
    exact other (by rw [same, equal])
  have below := fits.commonCycles_lt
  have positive := fits.commonCycles_pos
  obtain ⟨p, multiple⟩ := Nat.dvd_lcm_left (25 * nominal.toNat) data.toNat
  have common : commonCycles nominal.toNat data.toNat = bitCycles nominal.toNat (25, p) := by
    rw [commonCycles, multiple, bitCycles]
    ring
  have prescaler : 1 ≤ p ∧ p < 512 := by
    rw [common, bitCycles] at below positive
    dsimp only at below positive
    have some_ : 0 < p := Nat.pos_of_mul_pos_left positive
    refine ⟨some_, ?_⟩
    by_contra high
    have large : 800000 * 25 * 512 ≤ nominal.toNat * 25 * p :=
      Nat.mul_le_mul (Nat.mul_le_mul_right 25 least) (by omega)
    omega
  have here : (25, p) ∈ timeQuanta ×ˢ nominalPrescalers :=
    mem_nominalPairs.mpr ⟨show 8 ≤ 25 ∧ 25 ≤ 25 by decide, prescaler.1, show p ≤ 1024 by omega⟩
  have whole := fits.whole
  have low := fits.low
  have divides : Divides src.toNat (bitCycles nominal.toNat (25, p)) := by
    rw [← common]
    exact ⟨whole, by omega⟩
  have searched : ∀ b, (25, b) ∈ timeQuanta ×ˢ nominalPrescalers →
      bitCycles nominal.toNat (25, b) < 2 ^ 31 →
      Divides src.toNat (bitCycles nominal.toNat (25, b)) →
      config.tryNominal true rate data src 25 b =
        search (fun dpair => (config.divided b (src.toNat / bitCycles nominal.toNat
          (25, b))).tryData rate data src 25 dpair.1 dpair.2) (timeQuanta ×ˢ dataPrescalers) := by
    intro b there inside also
    have run : config.tryNominal true rate data src (25, b).1 (25, b).2 = _ :=
      trial_eq given capped there
    rw [equal, if_pos inside, if_pos also] at run
    exact run.trans (tryDivided_searched asked (List.mem_product.mp there).2 (differ b))
  have byte : ∀ b, 0 < b → src.toNat / bitCycles nominal.toNat (25, b) < 256 := by
    intro b some_
    have word := src.isLt
    have large : 800000 * 25 * 1 ≤ nominal.toNat * 25 * b :=
      Nat.mul_le_mul (Nat.mul_le_mul_right 25 least) some_
    exact (Nat.div_le_div_left large (by decide)).trans_lt (by omega)
  have divider : ∀ b, 0 < b → (config.divided b (src.toNat / bitCycles nominal.toNat
      (25, b))).preDivider.toNat = src.toNat / bitCycles nominal.toNat (25, b) :=
    fun b some_ => divided_preDivider.trans (Nat.mod_eq_of_lt (byte b some_))
  have nominalRight : (1 ≤ src.toNat / bitCycles nominal.toNat (25, p) % 256 ∧
      src.toNat / bitCycles nominal.toNat (25, p) % 256 ≤ 8) ∧
      (CanfdPhase.ofQuanta rate 25 p).Right CanfdPhase.nbtp src.toNat
        (src.toNat / bitCycles nominal.toNat (25, p) % 256) nominal.toNat := by
    have also : Divides src.toNat (bitCycles (nominalRate nominal.toNat) (25, p)) := by
      rw [← capped, equal]
      exact divides
    have limits := nominal_right_iff (BitVec.toNat_pos_of_ne_zero given)
      (BitVec.toNat_pos_of_ne_zero clock) capped (List.mem_product.mp here).1
      (show 0 < (25, p).2 from prescaler.1) also
    rw [← capped, equal] at limits
    refine limits.mpr ⟨most, ?_, prescaler.2, .inl least⟩
    rw [← capped, equal, ← common]
    exact low
  obtain ⟨c, found, right⟩ : ∃ c, search (fun dpair => (config.divided p (src.toNat /
      bitCycles nominal.toNat (25, p))).tryData rate data src 25 dpair.1 dpair.2)
        (timeQuanta ×ˢ dataPrescalers) = .ok (some c) ∧
      c.Right true nominal.toNat data.toNat src.toNat := by
    refine common_right fits (mem_timeQuanta.mpr (by decide)) ?_ ?_
    · rw [divided_nominalPrescaler config _ (List.mem_product.mp here).2, divided_preDivider]
      exact nominalRight
    · rw [divider p prescaler.1, common]
  have ended := (searched p here (by rw [← common]; exact below) divides).trans found
  unfold SearchLawful
  rw [search_eq_of_first nominalPairs_ordered here (by dsimp only; rw [ended]; simp) ?_, ended]
  · exact right
  · rintro ⟨t, b⟩ there before
    obtain ⟨quanta, listed⟩ := mem_nominalPairs.mp there
    rw [before_iff] at before
    dsimp only at before quanta listed ⊢
    obtain rfl : t = 25 := by omega
    have early : bitCycles nominal.toNat (25, b) < commonCycles nominal.toNat data.toNat := by
      rw [common]
      exact Nat.mul_lt_mul_of_pos_left (by omega) (show 0 < nominal.toNat * 25 by omega)
    by_cases also : Divides src.toNat (bitCycles nominal.toNat (25, b))
    · rw [searched b there (early.trans below) also]
      exact early_none fits clock also early (byte b listed.1) (divider b listed.1)
    · have inside : bitCycles rate.toNat (25, b) < 2 ^ 31 := by
        rw [equal]
        exact early.trans below
      rw [← equal] at also
      have empty : config.tryNominal true rate data src (25, b).1 (25, b).2 = .ok none :=
        trial_none given capped there inside also
      exact empty

end Trials

/-- A configuration before any setting. -/
def unset : CanfdTimeingConfigT := ⟨0, 0, 0, 0, 0, 0, 0, 0, 0, 0, 0⟩

end CanfdTimeingConfigT

end NuMakerMA35
