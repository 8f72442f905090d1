import NuMakerMA35.PllSearch
import Mathlib.Algebra.Order.Floor.Semifield
import Mathlib.Data.Rat.Floor

namespace NuMakerMA35

open Checked

def PllTriple.reference (src : Nat) (t : PllTriple) : ℚ := src / t.m

def PllTriple.vco (src : Nat) (t : PllTriple) : ℚ := src * t.n / t.m

def PllTriple.output (src : Nat) (t : PllTriple) : ℚ := src * t.n / (t.m * t.p)

/-- The dividers meet the limits stated beside the search. -/
structure PllTriple.Allowed (src : Nat) (t : PllTriple) : Prop where
  m : 1 ≤ t.m ∧ t.m ≤ 63
  n : 16 ≤ t.n ∧ t.n ≤ 2047
  p : 1 ≤ t.p ∧ t.p ≤ 7
  reference : 1000000 ≤ t.reference src ∧ t.reference src ≤ 40000000
  vco : 600000000 ≤ t.vco src ∧ t.vco src ≤ 2400000000
  output : 85700000 ≤ t.output src ∧ t.output src ≤ 2400000000

def PllTriple.Nearest (src freq : Nat) (t : PllTriple) : Prop :=
  t.Allowed src ∧ ∀ c, PllTriple.Allowed src c → |t.output src - freq| ≤ |c.output src - freq|

/-- Nothing is lost, and for a frequency within the limits of the output mode 0 writes the nearest
dividers within theirs and returns what these make of the clock. -/
def PllMode0Law (src freq : Nat) : Prop :=
  let done := clkCalPllFreqMode0 src freq
  done.ok = true ∧ (vsipllFclkoMinFreq ≤ freq ∧ freq ≤ vsipllFclkoMaxFreq →
    ∃ t : PllTriple, t.Nearest src freq ∧ done.val.clk = ⌊t.output src⌋₊ ∧
      done.val.reg0 = BitVec.ofNat 32 (t.m <<< 12 ||| t.n) ∧
      done.val.reg1 = BitVec.ofNat 32 (t.p <<< 4))

/-- Clock and frequency have a common divisor above all that the quotients of the search lose, the dividers that
make the frequency exactly meet the limits, and there are such dividers with a whole reference clock. -/
def PllMode0Exact (src freq : Nat) : Prop :=
  (src ≤ vsipllFrefdivmMaxFreq ∨ vsipllFrefdivmMaxFreq ∣ src) ∧ 2 ^ 17 ≤ Nat.gcd src freq ∧
    (src ∣ vsipllFclkMinFreq ∨ vsipllFclkMinFreq ≤ freq) ∧
    ∃ t : PllTriple, t.Allowed src ∧ t.m ∣ src ∧ src * t.n = freq * (t.m * t.p)

/-- The frequency is out of the limits, or can be made exactly. -/
def PllMode0Met (src freq : Nat) : Prop :=
  freq < vsipllFclkoMinFreq ∨ vsipllFclkoMaxFreq < freq ∨ PllMode0Exact src freq

variable {src freq : Nat} {c t : PllTriple}

theorem PllTriple.Allowed.whole (allowed : t.Allowed src) :
    (1000000 * t.m ≤ src ∧ src ≤ 40000000 * t.m) ∧
      600000000 * t.m ≤ src * t.n ∧ src * t.n ≤ 2400000000 * t.m := by
  have some : (0 : ℚ) < t.m := by exact_mod_cast allowed.m.1
  obtain ⟨low, high⟩ := allowed.reference
  obtain ⟨least, most⟩ := allowed.vco
  unfold PllTriple.reference at low high
  unfold PllTriple.vco at least most
  rw [le_div_iff₀ some] at low least
  rw [div_le_iff₀ some] at high most
  refine ⟨⟨?_, ?_⟩, ?_, ?_⟩
  · exact_mod_cast low
  · exact_mod_cast high
  · exact_mod_cast least
  · exact_mod_cast most

theorem PllTriple.Allowed.searched (allowed : t.Allowed src) : t.Searched src := by
  obtain ⟨⟨low, high⟩, least, most⟩ := allowed.whole
  obtain ⟨mSome, mSmall⟩ := allowed.m
  obtain ⟨nSome, nSmall⟩ := allowed.n
  have reference : 1000000 ≤ src / t.m := by
    rw [Nat.le_div_iff_mul_le mSome]
    exact low
  have down : t.m * (src / t.m * t.n) ≤ src * t.n := by
    rw [← Nat.mul_assoc]
    exact Nat.mul_le_mul_right _ (Nat.mul_div_le src t.m)
  have up : src * t.n ≤ t.m * ((src / t.m + 1) * t.n) := by
    rw [← Nat.mul_assoc]
    exact Nat.mul_le_mul_right _ (Nat.lt_mul_div_succ src mSome).le
  -- the quotient loses less than one hertz for each step of the feedback divider
  have enough : 600000000 ≤ src / t.m * t.n + t.n := by
    rw [← Nat.succ_mul]
    refine Nat.le_of_mul_le_mul_left ?_ mSome
    rw [Nat.mul_comm]
    exact least.trans up
  have vco : src / t.m * t.n ≤ 2400000000 := by
    refine Nat.le_of_mul_le_mul_left (down.trans ?_) mSome
    rw [Nat.mul_comm t.m]
    exact most
  constructor
  · omega
  · constructor
    · refine max_le nSome (Nat.lt_succ_iff.mp ?_)
      rw [Nat.div_lt_iff_lt_mul (by omega), Nat.mul_comm, Nat.mul_succ]
      omega
    · refine le_min nSmall ?_
      rw [Nat.le_div_iff_mul_le (by omega), Nat.mul_comm]
      exact vco
  · have := allowed.p
    omega

theorem PllTriple.floor_output (src : Nat) (t : PllTriple) :
    ⌊t.output src⌋₊ = src * t.n / (t.p * t.m) := by
  have cast : t.output src = ((src * t.n : Nat) : ℚ) / ((t.p * t.m : Nat) : ℚ) := by
    unfold PllTriple.output
    push_cast
    rw [mul_comm (t.p : ℚ)]
  rw [cast, Nat.floor_div_eq_div]

theorem pllWord0_inj (mSmall : c.m ≤ 63) (nSmall : c.n ≤ 2047) (mFits : t.m ≤ 63)
    (nFits : t.n ≤ 2047)
    (same : BitVec.ofNat 32 (c.m <<< 12 ||| c.n) = BitVec.ofNat 32 (t.m <<< 12 ||| t.n)) :
    c.m = t.m ∧ c.n = t.n := by
  have value := congrArg BitVec.toNat same
  rw [BitVec.toNat_ofNat, BitVec.toNat_ofNat, ← Nat.shiftLeft_add_eq_or_of_lt (by omega),
    ← Nat.shiftLeft_add_eq_or_of_lt (by omega), Nat.shiftLeft_eq, Nat.shiftLeft_eq] at value
  omega

theorem PllTriple.output_eq (mSome : 0 < t.m) (pSome : 0 < t.p) (exact : src * t.n = freq * (t.m * t.p)) :
    t.output src = freq := by
  have some : ((t.m : ℚ) * t.p) ≠ 0 := by
    have product : t.m * t.p ≠ 0 := (Nat.mul_pos mSome pSome).ne'
    exact_mod_cast product
  rw [PllTriple.output, div_eq_iff some]
  exact_mod_cast exact

/-- With a large common divisor the quotients of the search meet the frequency only where nothing is cut: what
all of them lose together is less than it. -/
theorem PllTriple.Searched.exact (searched : t.Searched src) (common : 2 ^ 17 ≤ Nat.gcd src freq)
    (hit : src / t.m * t.n / t.p = freq) : t.m ∣ src ∧ src * t.n = freq * (t.m * t.p) := by
  obtain ⟨hm, hn, hp⟩ := searched
  have whole := Nat.div_add_mod src t.m
  have cut := Nat.div_add_mod (src / t.m * t.n) t.p
  have restM := Nat.mod_lt src (show t.m > 0 by omega)
  have restP := Nat.mod_lt (src / t.m * t.n) (show t.p > 0 by omega)
  rw [hit] at cut
  set rest := src / t.m * t.n % t.p
  have parts : src * t.n = freq * (t.m * t.p) + (t.m * rest + src % t.m * t.n) := by
    calc src * t.n = t.m * (src / t.m * t.n) + src % t.m * t.n := by
          conv_lhs => rw [← whole]
          ring
      _ = freq * (t.m * t.p) + (t.m * rest + src % t.m * t.n) := by
          rw [← cut]
          ring
  have less : t.m * rest + src % t.m * t.n < 2 ^ 17 := by
    have := Nat.mul_le_mul (show t.m ≤ 63 by omega) (show rest ≤ 6 by omega)
    have := Nat.mul_le_mul (show src % t.m ≤ 62 by omega) (show t.n ≤ 2047 by omega)
    omega
  have divides : Nat.gcd src freq ∣ t.m * rest + src % t.m * t.n := by
    refine (Nat.dvd_add_right ((Nat.gcd_dvd_right src freq).mul_right (t.m * t.p))).mp ?_
    rw [← parts]
    exact (Nat.gcd_dvd_left src freq).mul_right _
  have none := Nat.eq_zero_of_dvd_of_lt divides (less.trans_le common)
  rw [none] at parts
  have feedback : src % t.m * t.n = 0 := (Nat.add_eq_zero_iff.mp none).2
  refine ⟨Nat.dvd_of_mod_eq_zero ((Nat.mul_eq_zero.mp feedback).resolve_right (by omega)), parts⟩

theorem PllTriple.Searched.allowed (searched : t.Searched src)
    (reference : src ≤ vsipllFrefdivmMaxFreq ∨ vsipllFrefdivmMaxFreq ∣ src)
    (vco : src ∣ vsipllFclkMinFreq ∨ vsipllFclkMinFreq ≤ freq)
    (inside : vsipllFclkoMinFreq ≤ freq ∧ freq ≤ vsipllFclkoMaxFreq) (divides : t.m ∣ src)
    (exact : src * t.n = freq * (t.m * t.p)) : t.Allowed src := by
  obtain ⟨hm, hn, hp⟩ := searched
  have mSome : (0 : ℚ) < t.m := by exact_mod_cast (show 0 < t.m by omega)
  obtain ⟨q, rfl⟩ := divides
  rw [Nat.mul_div_cancel_left q (by omega)] at hn
  have most : q * t.n ≤ 2400000000 := by
    rw [Nat.mul_comm]
    exact Nat.mul_le_of_le_div _ _ _ (by omega)
  have least : 600000000 ≤ q * t.n := by
    rcases vco with whole | high
    · obtain ⟨k, quotient⟩ := (Nat.dvd_mul_left q t.m).trans whole
      have some : 0 < q := by
        by_contra zero
        rw [Nat.eq_zero_of_not_pos zero, Nat.zero_mul] at quotient
        cases quotient
      have bound : k ≤ t.n := by
        rw [show (600000000 : Nat) = q * k from quotient, Nat.mul_div_cancel_left k some] at hn
        omega
      exact (show (600000000 : Nat) = q * k from quotient).trans_le (Nat.mul_le_mul_left q bound)
    · have same : q * t.n = freq * t.p := by
        refine Nat.eq_of_mul_eq_mul_left (show 0 < t.m by omega) ?_
        rw [← Nat.mul_assoc, exact]
        ring
      rw [same]
      exact high.trans (Nat.le_mul_of_pos_right freq (by omega))
  have made := PllTriple.output_eq (by omega) (by omega) exact
  refine ⟨by omega, by omega, by omega, ⟨?_, ?_⟩, ⟨?_, ?_⟩, ?_⟩
  · rw [PllTriple.reference, le_div_iff₀ mSome]
    exact_mod_cast (show 1000000 * t.m ≤ t.m * q by omega)
  · rw [PllTriple.reference, div_le_iff₀ mSome]
    have bound : t.m * q ≤ 40000000 * t.m := by
      rcases reference with low | ⟨k, multiple⟩
      · exact (show t.m * q ≤ 40000000 from low).trans (by omega)
      · rw [show t.m * q = 40000000 * k from multiple] at hm ⊢
        omega
    exact_mod_cast bound
  · rw [PllTriple.vco, le_div_iff₀ mSome]
    have bound := Nat.mul_le_mul_left t.m least
    exact_mod_cast (show 600000000 * t.m ≤ t.m * q * t.n by rw [Nat.mul_assoc]; omega)
  · rw [PllTriple.vco, div_le_iff₀ mSome]
    have bound := Nat.mul_le_mul_left t.m most
    exact_mod_cast (show t.m * q * t.n ≤ 2400000000 * t.m by rw [Nat.mul_assoc]; omega)
  · rw [made]
    exact ⟨by exact_mod_cast inside.1, by exact_mod_cast inside.2⟩

/-- From the crystal every multiple of 4 MHz from 600 MHz on is made. -/
theorem crystal_met {k : Nat} (low : 150 ≤ k) (high : k ≤ 600) : PllMode0Met 24000000 (4000000 * k) := by
  refine .inr (.inr ⟨.inl (by decide), ?_, .inl (by decide), ⟨6, k, 1⟩, ?_, (by decide : 6 ∣ 24000000), by dsimp only; ring⟩)
  · rw [show 24000000 = 4000000 * 6 from rfl, Nat.gcd_mul_left]
    have := Nat.gcd_pos_of_pos_left k (show 0 < 6 by decide)
    omega
  · have least : (150 : ℚ) ≤ k := by exact_mod_cast low
    have most : (k : ℚ) ≤ 600 := by exact_mod_cast high
    refine ⟨(by decide : 1 ≤ 6 ∧ 6 ≤ 63), ⟨by dsimp only; omega, by dsimp only; omega⟩,
      (by decide : 1 ≤ 1 ∧ 1 ≤ 7), ?_, ?_, ?_⟩
    · norm_num [PllTriple.reference]
    · simp only [PllTriple.vco]
      constructor <;> push_cast <;> linarith
    · simp only [PllTriple.output]
      constructor <;> push_cast <;> linarith

end NuMakerMA35
