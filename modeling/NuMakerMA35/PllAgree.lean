import NuMakerMA35.PllSearch
import NuMakerMA35.PllFraction

namespace NuMakerMA35

open Checked

/-- Nothing is lost in either function, and the frequencies agree; where there is a fraction, up to
a thousandth of the crystal. -/
def PllAgrees (clk : NuClk) (pll : VsiPll) (mode : U32) (freq : BitVec 64) : Prop :=
  let set := clkSetPllFreq clk (.vsi pll) mode (BitVec.ofNat 64 pllHxt) freq
  let get := clkGetPllClockFreq set.val.1 (.vsi pll)
  set.ok = true ∧ get.ok = true ∧
    if mode = pllOpmodeInteger then get.val = set.val.2
    else get.val ≤ set.val.2 + pllHxt / 1000 ∧ set.val.2 ≤ get.val + pllHxt / 1000

/-- With mode 0 the dividers of the first nearest solution divide the crystal, or there is none in
range; with mode 1 the multiplier is in range and its fraction below 0.256. -/
def PllKept (mode : U32) (freq : BitVec 64) : Prop :=
  (mode = pllOpmodeInteger ∧ (freq.toNat < 85700000 ∨ 2400000000 < freq.toNat ∨
    ∀ t ∈ pllTriples.argmin (PllTriple.dist freq.toNat), t.p * t.m ∣ pllHxt)) ∨
  (mode = pllOpmodeFractional ∧ freq.toNat < 2400000000 ∧ pllVco freq.toNat / 24000 % 1000 < 256)

section Fields

variable {x y clear msk : U32} {pos : Nat}

theorem pllField_or : pllField (x ||| y) msk pos = pllField x msk pos ||| pllField y msk pos := by
  unfold pllField
  have spread : (x ||| y) &&& msk = x &&& msk ||| y &&& msk := by
    rw [BitVec.and_comm, BitVec.and_or_distrib_left, BitVec.and_comm msk, BitVec.and_comm msk]
  rw [spread, BitVec.ushiftRight_or_distrib, BitVec.toNat_or]

theorem pllField_cleared (inside : clear &&& msk = msk) :
    pllField (x &&& ~~~clear) msk pos = 0 := by
  have none : x &&& ~~~clear &&& msk = 0 := by
    rw [← inside, ← BitVec.and_assoc, clearMask_self]
    exact BitVec.zero_and
  unfold pllField
  rw [none, BitVec.toNat_ushiftRight]
  exact Nat.zero_shiftRight pos

theorem pllField_kept (apart : clear &&& msk = 0) :
    pllField (x &&& ~~~clear) msk pos = pllField x msk pos := by
  unfold pllField
  rw [clearMask_and apart]

theorem pllField_written (inside : clear &&& msk = msk) :
    pllField (x &&& ~~~clear ||| y) msk pos = pllField y msk pos := by
  rw [pllField_or, pllField_cleared inside, Nat.zero_or]

theorem pllField_ofNat {n width : Nat} (small : n < 2 ^ 32) (fits : width + pos ≤ 32) :
    pllField (BitVec.ofNat 32 n) (BitVec.ofNat 32 (2 ^ width - 1) <<< pos) pos =
      n / 2 ^ pos % 2 ^ width := by
  unfold pllField
  rw [maskField_toNat _ fits, BitVec.toNat_ofNat, Nat.mod_eq_of_lt small]

end Fields

section Getter

variable {clk : NuClk} {pll : VsiPll} {m n p x : Nat}

/-- The fields of a PLL that is powered up. -/
structure PllRegs.Holds (r : PllRegs) (mode m n p : Nat) : Prop where
  up : r.ctl1 &&& pllCtl1PdMsk = 0
  mode : pllField r.ctl0 pllCtl0ModeMsk pllCtl0ModePos = mode
  m : pllField r.ctl0 pllCtl0IndivMsk pllCtl0IndivPos = m
  n : pllField r.ctl0 pllCtl0FbdivMsk 0 = n
  p : pllField r.ctl1 pllCtl1OutdivMsk pllCtl1OutdivPos = p

theorem clkGet_integer (held : (clk.pll pll).Holds 0 m n p) :
    clkGetVsiPllClockFreq clk pll = (do
      let d ← fit 32 (p * m)
      let q ← quot pllHxt d
      fit 32 (q * n)) := by
  unfold clkGetVsiPllClockFreq
  dsimp only
  rw [if_neg (by rw [held.up]; exact fun h => h rfl), held.mode, held.m, held.n, held.p, if_pos rfl]

theorem clkGet_fractional (held : (clk.pll pll).Holds 1 m n p)
    (frac : pllField (clk.pll pll).ctl1 pllCtl1FracMsk pllCtl1FracPos = x) :
    clkGetVsiPllClockFreq clk pll = (do
      let x ← fit 32 (x * 1000)
      let x ← fit 32 (x + 500)
      let n ← fit 32 (n * 1000)
      let y ← fit 32 (n + x / 2 ^ 24)
      let f ← fit 32 (pllHxt / 1000 * y)
      let d ← fit 32 (p * m)
      quot f d) := by
  unfold clkGetVsiPllClockFreq
  dsimp only
  rw [if_neg (by rw [held.up]; exact fun h => h rfl), held.mode, held.m, held.n, held.p, frac,
    if_neg (by decide), if_pos rfl]

theorem clkGet_spread (held : (clk.pll pll).Holds 2 m n p)
    (frac : pllField (clk.pll pll).ctl1 pllCtl1FracMsk pllCtl1FracPos = x) :
    clkGetVsiPllClockFreq clk pll = (do
      let x ← fit 32 (x * 1000)
      let n ← fit 32 (n * 1000)
      let y ← fit 32 (n + x / 2 ^ 24)
      let f ← fit 32 (pllHxt / 1000 * y)
      let d ← fit 32 (p * m)
      quot f d) := by
  unfold clkGetVsiPllClockFreq
  dsimp only
  rw [if_neg (by rw [held.up]; exact fun h => h rfl), held.mode, held.m, held.n, held.p, frac,
    if_neg (by decide), if_neg (by decide), if_pos rfl]

end Getter

section Setter

variable {clk : NuClk} {pll : VsiPll} {clear0 clear1 reg0 reg1 ctl0 ctl1 ctl2 : U32} {m n p x k : Nat}

theorem writePll_holds (kind : k < 4) (mSmall : m < 64) (nSmall : n < 2048) (pSmall : p < 8)
    (xSmall : x < 2 ^ 24) (apart : clear0 &&& pllCtl0ModeMsk = 0)
    (indiv : clear0 &&& pllCtl0IndivMsk = pllCtl0IndivMsk)
    (fbdiv : clear0 &&& pllCtl0FbdivMsk = pllCtl0FbdivMsk)
    (outdiv : clear1 &&& pllCtl1OutdivMsk = pllCtl1OutdivMsk)
    (low : reg0 = BitVec.ofNat 32 (m <<< 12 ||| n))
    (high : reg1 = BitVec.ofNat 32 (p <<< 4 ||| x <<< 8)) :
    ((clk.writePll pll
      ((ctl0 &&& ~~~pllCtl0ModeMsk ||| BitVec.ofNat 32 k <<< pllCtl0ModePos) &&& ~~~clear0 ||| reg0)
      (ctl1 &&& ~~~clear1 ||| reg1) ctl2).pll pll).Holds k m n p := by
  have bits0 : m <<< 12 ||| n = m * 4096 + n := by
    rw [← Nat.shiftLeft_add_eq_or_of_lt (by omega), Nat.shiftLeft_eq]
  have shifted : BitVec.ofNat 32 k <<< pllCtl0ModePos = BitVec.ofNat 32 (k * 2 ^ 18) := by
    apply BitVec.eq_of_toNat_eq
    rw [BitVec.toNat_shiftLeft, BitVec.toNat_ofNat, BitVec.toNat_ofNat, Nat.shiftLeft_eq,
      Nat.mod_eq_of_lt (show k < 2 ^ 32 by omega)]
    rfl
  have pd (y : U32) : y &&& ~~~pllCtl1PdMsk &&& pllCtl1PdMsk = 0 := clearMask_self
  rw [low, high, bits0, pllWord1 pSmall, shifted]
  unfold NuClk.writePll
  dsimp only
  rw [Function.update_self]
  constructor
  · exact pd _
  · dsimp only
    rw [pllField_or, pllField_kept apart, pllField_written (BitVec.and_self),
      show pllCtl0ModeMsk = BitVec.ofNat 32 (2 ^ 2 - 1) <<< pllCtl0ModePos from rfl,
      pllField_ofNat (by omega) (by decide), pllField_ofNat (by omega) (by decide)]
    unfold pllCtl0ModePos
    rw [show (m * 4096 + n) / 2 ^ 18 % 2 ^ 2 = 0 by omega, Nat.or_zero]
    omega
  · dsimp only
    rw [pllField_written indiv,
      show pllCtl0IndivMsk = BitVec.ofNat 32 (2 ^ 6 - 1) <<< pllCtl0IndivPos from rfl,
      pllField_ofNat (by omega) (by decide)]
    unfold pllCtl0IndivPos
    omega
  · dsimp only
    rw [pllField_written fbdiv,
      show pllCtl0FbdivMsk = BitVec.ofNat 32 (2 ^ 11 - 1) <<< 0 from rfl,
      pllField_ofNat (by omega) (by decide)]
    omega
  · dsimp only
    rw [pllField_kept (by decide), pllField_written outdiv,
      show pllCtl1OutdivMsk = BitVec.ofNat 32 (2 ^ 3 - 1) <<< pllCtl1OutdivPos from rfl,
      pllField_ofNat (by omega) (by decide)]
    unfold pllCtl1OutdivPos
    omega

theorem writePll_frac (pSmall : p < 8) (xSmall : x < 2 ^ 24)
    (frac : clear1 &&& pllCtl1FracMsk = pllCtl1FracMsk)
    (high : reg1 = BitVec.ofNat 32 (p <<< 4 ||| x <<< 8)) :
    pllField ((clk.writePll pll ctl0 (ctl1 &&& ~~~clear1 ||| reg1) ctl2).pll pll).ctl1
      pllCtl1FracMsk pllCtl1FracPos = x := by
  rw [high, pllWord1 pSmall]
  unfold NuClk.writePll
  dsimp only
  rw [Function.update_self]
  dsimp only
  rw [pllField_kept (by decide), pllField_written frac,
    show pllCtl1FracMsk = BitVec.ofNat 32 (2 ^ 24 - 1) <<< pllCtl1FracPos from rfl,
    pllField_ofNat (by omega) (by decide)]
  unfold pllCtl1FracPos
  omega

end Setter

section Integer

variable {clk next : NuClk} {pll : VsiPll} {mode : U32} {freq : BitVec 64} {v : Nat}
  {g : Checked Nat}

theorem pllAgrees_of
    (set : clkSetVsiPllFreq clk pll mode pllHxt freq.toNat = pure (next, v))
    (get : clkGetVsiPllClockFreq next pll = g) :
    PllAgrees clk pll mode freq ↔ g.ok = true ∧ if mode = pllOpmodeInteger then g.val = v
      else g.val ≤ v + pllHxt / 1000 ∧ v ≤ g.val + pllHxt / 1000 := by
  unfold PllAgrees clkSetPllFreq
  rw [show (BitVec.ofNat 64 pllHxt).toNat = pllHxt from rfl]
  dsimp only
  rw [set]
  dsimp only [pure_def, clkGetPllClockFreq]
  rw [get]
  exact and_iff_right rfl

theorem quotient_eq_iff {c d n : Nat} (some : 0 < d) (large : d ≤ n) :
    c / d * n = c * n / d ↔ d ∣ c := by
  have split := Nat.div_add_mod c d
  have whole : c * n / d = c / d * n + c % d * n / d := by
    have spread : c * n = c % d * n + d * (c / d * n) := by
      calc c * n = (d * (c / d) + c % d) * n := by rw [split]
        _ = c % d * n + d * (c / d * n) := by ring
    rw [spread, Nat.add_mul_div_left _ _ some, Nat.add_comm]
  rw [whole, Nat.dvd_iff_mod_eq_zero]
  constructor
  · intro same
    have small : c % d * n < d := by
      by_contra big
      have := Nat.div_pos (by omega : d ≤ c % d * n) some
      omega
    by_contra left
    have : 1 * n ≤ c % d * n := Nat.mul_le_mul_right n (by omega)
    omega
  · intro exact
    rw [exact, Nat.zero_mul, Nat.zero_div, Nat.add_zero]

theorem feedback_ge {m : Nat} (low : 1 ≤ m) (high : m ≤ 24) :
    25 * m ≤ 600000000 / (pllHxt / m) := by
  interval_cases m <;> decide

theorem clkCalPllFreqMode0_eq (out : ¬(freq.toNat < 85700000 ∨ freq.toNat > 2400000000)) :
    ∃ t, t ∈ pllTriples.argmin (PllTriple.dist freq.toNat) ∧
      clkCalPllFreqMode0 pllHxt freq.toNat = pure ⟨pllHxt * t.n / (t.p * t.m),
        BitVec.ofNat 32 (t.m <<< 12 ||| t.n), BitVec.ofNat 32 (t.p <<< 4), 0⟩ := by
  obtain ⟨t, first⟩ := exists_pllTriples freq.toNat
  have same := first
  rw [← pllCandidates_hxt] at same
  exact ⟨t, first, clkCalPllFreqMode0_found out same⟩

theorem clkSet_integer (clk : NuClk) (pll : VsiPll) {m n p f : Nat} {reg0 reg1 : U32}
    (mSmall : m < 64) (nSmall : n < 2048) (pSmall : p < 8)
    (found : clkCalPllFreqMode0 pllHxt freq.toNat = pure ⟨f, reg0, reg1, 0⟩)
    (low : reg0 = BitVec.ofNat 32 (m <<< 12 ||| n)) (high : reg1 = BitVec.ofNat 32 (p <<< 4)) :
    ∃ next, clkSetVsiPllFreq clk pll pllOpmodeInteger pllHxt freq.toNat = pure (next, f) ∧
      (next.pll pll).Holds 0 m n p := by
  unfold clkSetVsiPllFreq
  dsimp only
  rw [if_pos rfl, found, pure_bind]
  refine ⟨_, rfl, writePll_holds (x := 0) (by decide) mSmall nSmall pSmall (by decide) (by decide)
    (by decide) (by decide) (by decide) low ?_⟩
  rw [high, Nat.zero_shiftLeft, Nat.or_zero]

theorem pllAgrees_integer :
    PllAgrees clk pll pllOpmodeInteger freq ↔ freq.toNat < 85700000 ∨ 2400000000 < freq.toNat ∨
      ∀ t ∈ pllTriples.argmin (PllTriple.dist freq.toNat), t.p * t.m ∣ pllHxt := by
  by_cases out : freq.toNat < 85700000 ∨ freq.toNat > 2400000000
  · have found : clkCalPllFreqMode0 pllHxt freq.toNat = pure ⟨1000000000, 0x307d, 0x10, 0⟩ := by
      unfold clkCalPllFreqMode0
      exact if_pos out
    obtain ⟨next, set, held⟩ := clkSet_integer clk pll (m := 3) (n := 125) (p := 1)
      (by decide) (by decide) (by decide) found rfl rfl
    rw [pllAgrees_of set (clkGet_integer held)]
    refine iff_of_true (by decide) ?_
    omega
  · obtain ⟨t, first, found⟩ := clkCalPllFreqMode0_eq out
    obtain ⟨hm, hn, hp⟩ := mem_pllTriples.mp (List.argmin_mem first)
    have reference := hxt_div_bounds hm.1 hm.2
    have vco := (vco_bounds ⟨reference.1, by omega⟩ hn.1 hn.2).2
    have enough := feedback_ge hm.1 hm.2
    have divisor : t.p * t.m ≤ 7 * t.m := Nat.mul_le_mul_right _ hp.2
    have some : 0 < t.p * t.m := Nat.mul_pos hp.1 hm.1
    have quotient : pllHxt / (t.p * t.m) * t.n ≤ 2400000000 := by
      refine (Nat.mul_le_mul_right _ ?_).trans vco
      exact Nat.div_le_div_left (Nat.le_mul_of_pos_left _ hp.1) hm.1
    obtain ⟨next, set, held⟩ := clkSet_integer clk pll (by omega) (by omega) (by omega) found rfl rfl
    have got : clkGetVsiPllClockFreq next pll = pure (pllHxt / (t.p * t.m) * t.n) := by
      rw [clkGet_integer held, fit_of_lt (by omega), pure_bind, quot_of_pos some, pure_bind,
        fit_of_lt (by omega)]
    rw [pllAgrees_of set got]
    dsimp only [pure_def]
    rw [if_pos rfl, and_iff_right rfl, quotient_eq_iff some (by omega)]
    constructor
    · intro exact
      refine Or.inr (Or.inr ?_)
      intro u here
      rwa [Option.mem_unique here first]
    · rintro (low | high | exact)
      · omega
      · omega
      · exact exact t first

end Integer

section Agreement

variable {clk next : NuClk} {pll : VsiPll} {mode : U32} {freq : BitVec 64} {p tmp : Nat}

theorem clkCalPllFreqMode1_hxt {freq : Nat} (high : freq < 2400000000) :
    clkCalPllFreqMode1 pllHxt freq = pure pllNone ∨
      ∃ p tmp, 1 ≤ p ∧ p ≤ 7 ∧ tmp = pllVco freq / 24000 ∧ tmp ≤ 100000 ∧
        clkCalPllFreqMode1 pllHxt freq = pure ⟨24000 * tmp / p,
          BitVec.ofNat 32 (1 <<< 12 ||| tmp / 1000),
          BitVec.ofNat 32 (p <<< 4 ||| pllFrac tmp <<< 8), 0⟩ := by
  rcases clkCalPllFreqMode1_eq pllHxt high with
    none | ⟨-, ⟨-, most⟩, -, p, pSome, pSmall, -, found⟩
  · exact Or.inl none
  · have one : pllDivider pllHxt = 1 := rfl
    have whole : pllThousandths pllHxt freq = pllVco freq / 24000 := by
      unfold pllThousandths
      rw [one]
      unfold pllHxt
      omega
    have clock (tmp : Nat) : pllHxt * tmp / p / 1 / 1000 = 24000 * tmp / p := by
      have scaled : pllHxt * tmp = 24000 * tmp * 1000 := by
        unfold pllHxt
        ring
      rw [Nat.div_one, Nat.div_div_eq_div_mul, scaled, Nat.mul_div_mul_right _ _ (by decide)]
    rw [one, clock, whole] at found
    exact Or.inr ⟨p, pllVco freq / 24000, pSome, pSmall, rfl, by omega, found⟩

theorem clkSet_fractional (clk : NuClk) (pll : VsiPll) {src freq m n p x f : Nat}
    {reg0 reg1 : U32} (mSmall : m < 64) (nSmall : n < 2048) (pSmall : p < 8) (xSmall : x < 2 ^ 24)
    (found : clkCalPllFreqMode1 src freq = pure ⟨f, reg0, reg1, 0⟩)
    (low : reg0 = BitVec.ofNat 32 (m <<< 12 ||| n))
    (high : reg1 = BitVec.ofNat 32 (p <<< 4 ||| x <<< 8)) :
    ∃ next, clkSetVsiPllFreq clk pll pllOpmodeFractional src freq = pure (next, f) ∧
      next = clk.writePll pll (((clk.pll pll).ctl0 &&& ~~~pllCtl0ModeMsk |||
          pllOpmodeFractional <<< pllCtl0ModePos) &&&
            ~~~(pllCtl0IndivMsk ||| pllCtl0FbdivMsk) ||| reg0)
        ((clk.pll pll).ctl1 &&& ~~~(pllCtl1OutdivMsk ||| pllCtl1FracMsk) ||| reg1)
        (clk.pll pll).ctl2 ∧
      (next.pll pll).Holds 1 m n p ∧
        pllField (next.pll pll).ctl1 pllCtl1FracMsk pllCtl1FracPos = x := by
  unfold clkSetVsiPllFreq
  dsimp only
  rw [if_neg (by decide), if_pos rfl, found, pure_bind]
  exact ⟨_, rfl, rfl, writePll_holds (by decide) mSmall nSmall pSmall xSmall (by decide)
    (by decide) (by decide) (by decide) low high, writePll_frac pSmall xSmall (by decide) high⟩

theorem clkSet_spread (clk : NuClk) (pll : VsiPll) {src freq m n p x f : Nat}
    {reg0 reg1 reg2 : U32} (mSmall : m < 64) (nSmall : n < 2048) (pSmall : p < 8)
    (xSmall : x < 2 ^ 24)
    (found : clkCalPllFreqMode2 src freq 50000 194 = pure ⟨f, reg0, reg1, reg2⟩)
    (low : reg0 = BitVec.ofNat 32 (m <<< 12 ||| n))
    (high : reg1 = BitVec.ofNat 32 (p <<< 4 ||| x <<< 8)) :
    ∃ next, clkSetVsiPllFreq clk pll pllOpmodeSpreadSpectrum src freq = pure (next, f) ∧
      (next.pll pll).Holds 2 m n p ∧
        pllField (next.pll pll).ctl1 pllCtl1FracMsk pllCtl1FracPos = x := by
  unfold clkSetVsiPllFreq
  dsimp only
  rw [if_neg (by decide), if_neg (by decide), if_pos rfl, found, pure_bind]
  exact ⟨_, rfl, writePll_holds (by decide) mSmall nSmall pSmall xSmall (by decide) (by decide)
    (by decide) (by decide) low high, writePll_frac pSmall xSmall (by decide) high⟩

theorem clkGet_fractional_of_lt (held : (next.pll pll).Holds 1 1 (tmp / 1000) p)
    (frac : pllField (next.pll pll).ctl1 pllCtl1FracMsk pllCtl1FracPos = pllFrac tmp)
    (pSome : 1 ≤ p) (pSmall : p ≤ 7) (bound : tmp ≤ 100000) (fits : tmp % 1000 < 256) :
    clkGetVsiPllClockFreq next pll = pure (24000 * tmp / p) := by
  have x : (pllFrac tmp * 1000 + 500) / 2 ^ 24 = tmp % 1000 := by
    unfold pllFrac
    omega
  have small : pllFrac tmp * 1000 + 500 < 2 ^ 32 := by
    unfold pllFrac
    omega
  have first : pllFrac tmp * 1000 < 2 ^ 32 := (Nat.le_add_right _ 500).trans_lt small
  have second : tmp / 1000 * 1000 < 2 ^ 32 := (Nat.div_mul_le_self tmp 1000).trans_lt (by omega)
  have digits : tmp / 1000 * 1000 + tmp % 1000 = tmp := Nat.div_add_mod' tmp 1000
  rw [clkGet_fractional held frac, fit_of_lt first, pure_bind, fit_of_lt small, pure_bind,
    fit_of_lt second, pure_bind, x, digits, fit_of_lt (by omega), pure_bind,
    show pllHxt / 1000 = 24000 from rfl, fit_of_lt (by omega), pure_bind, Nat.mul_one,
    fit_of_lt (by omega), pure_bind, quot_of_pos (by omega)]

theorem clkGet_fractional_of_le {n m : Nat} (held : (next.pll pll).Holds 1 m n p)
    (frac : pllField (next.pll pll).ctl1 pllCtl1FracMsk pllCtl1FracPos = pllFrac tmp)
    (large : 256 ≤ tmp % 1000) : (clkGetVsiPllClockFreq next pll).ok = false := by
  have lost : ¬pllFrac tmp * 1000 + 500 < 2 ^ 32 := by
    unfold pllFrac
    omega
  rw [clkGet_fractional held frac]
  by_cases first : pllFrac tmp * 1000 < 2 ^ 32
  · rw [fit_of_lt first, pure_bind]
    exact fit_lost (by omega)
  · exact fit_lost (by omega)

theorem pllAgrees_fractional
    (some : (clkSetPllFreq clk (.vsi pll) pllOpmodeFractional (BitVec.ofNat 64 pllHxt) freq).val.2 ≠ 0) :
    PllAgrees clk pll pllOpmodeFractional freq ↔
      freq.toNat < 2400000000 ∧ pllVco freq.toNat / 24000 % 1000 < 256 := by
  have apart : pllOpmodeFractional ≠ pllOpmodeInteger := by decide
  by_cases high : freq.toNat < 2400000000
  · rcases clkCalPllFreqMode1_hxt high with none | ⟨p, tmp, pSome, pSmall, value, bound, found⟩
    · obtain ⟨next, set, -, held⟩ := clkSet_fractional clk pll (m := 0) (n := 0) (p := 0) (x := 0)
        (by decide) (by decide) (by decide) (by decide) none rfl rfl
      have zero : (clkSetVsiPllFreq clk pll pllOpmodeFractional pllHxt freq.toNat).val.2 = 0 := by
        rw [set]
        rfl
      exact absurd zero some
    · obtain ⟨next, set, -, held, frac⟩ := clkSet_fractional clk pll (by decide) (by omega) (by omega)
        (pllFrac_lt tmp) found rfl rfl
      rw [← value, and_iff_right high]
      by_cases fits : tmp % 1000 < 256
      · rw [pllAgrees_of set (clkGet_fractional_of_lt held frac pSome pSmall bound fits),
          if_neg apart]
        refine iff_of_true ⟨rfl, ?_, ?_⟩ fits
        · exact Nat.le_add_right _ _
        · exact Nat.le_add_right _ _
      · refine iff_of_false ?_ fits
        rw [pllAgrees_of set rfl, clkGet_fractional_of_le held frac (by omega)]
        exact fun h => absurd h.1 Bool.false_ne_true
  · refine iff_of_false ?_ fun h => high h.1
    have found : clkCalPllFreqMode1 pllHxt freq.toNat =
        pure ⟨1000000000, 0x30fa, 0x2 <<< 4, 0⟩ := by
      unfold clkCalPllFreqMode1
      rw [if_neg (by decide), if_pos (by unfold vsipllFclkoMaxFreq; omega)]
    obtain ⟨next, set, -, held, frac⟩ := clkSet_fractional clk pll (m := 3) (n := 250) (p := 2) (x := 0)
      (by decide) (by decide) (by decide) (by decide) found rfl rfl
    rw [pllAgrees_of set (clkGet_fractional held frac)]
    exact fun h => absurd h.1 (by decide)

theorem pllAgrees_spread
    (some : (clkSetPllFreq clk (.vsi pll) pllOpmodeSpreadSpectrum (BitVec.ofNat 64 pllHxt)
      freq).val.2 ≠ 0) : ¬PllAgrees clk pll pllOpmodeSpreadSpectrum freq := by
  by_cases high : freq.toNat ≥ 2400000000
  · have found : clkCalPllFreqMode2 pllHxt freq.toNat 50000 194 =
        pure ⟨1000000000, 0x30fa, 0x2 <<< 4, 0⟩ := by
      unfold clkCalPllFreqMode2
      rw [if_neg (by decide), if_pos (by unfold vsipllFclkoMaxFreq; omega)]
    obtain ⟨next, set, held, frac⟩ := clkSet_spread clk pll (m := 3) (n := 250) (p := 2) (x := 0)
      (by decide) (by decide) (by decide) (by decide) found rfl rfl
    rw [pllAgrees_of set (clkGet_spread held frac)]
    exact fun h => absurd h.1 (by decide)
  · intro agrees
    have value : (clkSetPllFreq clk (.vsi pll) pllOpmodeSpreadSpectrum (BitVec.ofNat 64 pllHxt)
        freq).val.2 = (clkCalPllFreqMode2 pllHxt freq.toNat 50000 194).val.clk := rfl
    have kept : (clkSetPllFreq clk (.vsi pll) pllOpmodeSpreadSpectrum (BitVec.ofNat 64 pllHxt)
        freq).ok = ((clkCalPllFreqMode2 pllHxt freq.toNat 50000 194).ok && true) := rfl
    have whole := agrees.1
    rw [kept, Bool.and_true, clkCalPllFreqMode2_lost _ (Nat.lt_of_not_ge high)
      (by rwa [value] at some)] at whole
    cases whole

/-- The getter returns what the setter did, and neither loses anything, exactly where the setting
is kept. -/
theorem pll_set_get_iff (clk : NuClk) (pll : VsiPll) (mode : U32) (freq : BitVec 64)
    (some : (clkSetPllFreq clk (.vsi pll) mode (BitVec.ofNat 64 pllHxt) freq).val.2 ≠ 0) :
    PllAgrees clk pll mode freq ↔ PllKept mode freq := by
  unfold PllKept
  by_cases integer : mode = pllOpmodeInteger
  · subst integer
    have other : ¬(pllOpmodeInteger = pllOpmodeFractional ∧ freq.toNat < 2400000000 ∧
        pllVco freq.toNat / 24000 % 1000 < 256) := fun h => absurd h.1 (by decide)
    rw [pllAgrees_integer, or_iff_left other, and_iff_right rfl]
  · by_cases fractional : mode = pllOpmodeFractional
    · subst fractional
      rw [pllAgrees_fractional some, and_iff_right rfl]
      exact (or_iff_right fun h => integer h.1).symm
    · refine iff_of_false ?_ ?_
      · by_cases spread : mode = pllOpmodeSpreadSpectrum
        · subst spread
          exact pllAgrees_spread some
        · apply absurd _ some
          unfold clkSetPllFreq clkSetVsiPllFreq
          dsimp only
          rw [if_neg integer, if_neg fractional, if_neg spread]
          rfl
      · rintro (h | h)
        · exact integer h.1
        · exact fractional h.1

theorem wholeMultiple_agrees :
    (clkSetPllFreq ⟨0, fun _ => ⟨0, 0, 0⟩⟩ (.vsi .vpll) pllOpmodeFractional (BitVec.ofNat 64 pllHxt)
      600000000).val.2 ≠ 0 ∧
    (PllAgrees ⟨0, fun _ => ⟨0, 0, 0⟩⟩ .vpll pllOpmodeFractional 600000000 ↔
      PllKept pllOpmodeFractional 600000000) :=
  ⟨by decide, pll_set_get_iff _ _ _ _ (by decide)⟩

/-- The frequency of the driver's own table for mode 1 is read back as another. -/
theorem tableFreq_misread :
    (clkSetPllFreq ⟨0, fun _ => ⟨0, 0, 0⟩⟩ (.vsi .vpll) pllOpmodeFractional (BitVec.ofNat 64 pllHxt)
      884736000).val.2 = 884736000 ∧
    (clkGetPllClockFreq (clkSetPllFreq ⟨0, fun _ => ⟨0, 0, 0⟩⟩ (.vsi .vpll) pllOpmodeFractional
      (BitVec.ofNat 64 pllHxt) 884736000).val.1 (.vsi .vpll)).val = 866304000 ∧
    ¬PllAgrees ⟨0, fun _ => ⟨0, 0, 0⟩⟩ .vpll pllOpmodeFractional 884736000 := by
  unfold PllAgrees
  decide

theorem argmin_of_front {front back : List PllTriple} {f : PllTriple → Nat} {t w : PllTriple}
    (here : w ∈ front) (zero : f w = 0) (first : t ∈ (front ++ back).argmin f) :
    t ∈ front ∧ f t = 0 := by
  have all := List.mem_append_left back here
  have least := List.le_of_mem_argmin all first
  have early := List.index_of_argmin first all (by omega)
  have inside := List.idxOf_lt_length_of_mem here
  rw [List.idxOf_append_of_mem here] at early
  refine ⟨?_, by omega⟩
  by_contra late
  rw [List.idxOf_append_of_notMem late] at early
  omega

/-- Whole multiples of the crystal from 100 MHz on are kept. -/
theorem pllKept_of_multiple {freq : BitVec 64} (whole : pllHxt ∣ freq.toNat)
    (low : 100000000 ≤ freq.toNat) : PllKept pllOpmodeInteger freq := by
  refine .inl ⟨rfl, .inr ?_⟩
  by_cases high : 2400000000 < freq.toNat
  · exact .inl high
  refine .inr fun t first => ?_
  obtain ⟨k, scaled⟩ := whole
  rw [scaled] at low high first
  unfold pllHxt at low high
  have split := Nat.div_add_mod 24 k
  have rest := Nat.mod_lt 24 (show 0 < k by omega)
  generalize 24 / k = q at split
  have small : q ≤ 4 := by
    by_contra large
    have := Nat.mul_le_mul (show 5 ≤ k by omega) (show 5 ≤ q by omega)
    omega
  -- the dividers up to `q + 1` of the undivided crystal, which make the request
  obtain ⟨back, front⟩ : ∃ back, pllTriples = ((List.range' 25 (k * q + k - 24)).flatMap fun n =>
      (List.range' 1 7).map fun p => (⟨1, n, p⟩ : PllTriple)) ++ back := by
    have inside : k * q + k - 24 ≤ 76 := by
      rcases Nat.eq_zero_or_pos q with rfl | some
      · omega
      · have := Nat.le_mul_of_pos_right k some
        omega
    have parts := List.range'_append_1 (s := 25) (m := k * q + k - 24) (n := 76 - (k * q + k - 24))
    rw [Nat.add_sub_of_le inside] at parts
    unfold pllTriples
    rw [show List.range' 1 24 = 1 :: List.range' 2 23 from rfl, List.flatMap_cons]
    change ∃ back, (List.range' 25 76).flatMap _ ++ _ = _
    rw [← parts, List.flatMap_append, List.append_assoc]
    exact ⟨_, rfl⟩
  rw [front] at first
  obtain ⟨inside, exact⟩ := argmin_of_front (w := ⟨1, k * q + k, q + 1⟩) (by
    simp only [List.mem_flatMap, List.mem_map, List.mem_range'_1]
    exact ⟨_, by omega, q + 1, by omega, rfl⟩) (by
    have : pllHxt / 1 * (k * q + k) / (q + 1) = pllHxt * k := by
      rw [Nat.div_one, show pllHxt * (k * q + k) = pllHxt * k * (q + 1) by ring,
        Nat.mul_div_cancel _ (Nat.succ_pos q)]
    unfold PllTriple.dist
    dsimp only
    rw [this]
    split_ifs <;> omega) first
  simp only [List.mem_flatMap, List.mem_map, List.mem_range'_1] at inside
  obtain ⟨n, early, p, ⟨least, most⟩, rfl⟩ := inside
  have made : pllHxt / 1 * n / p = pllHxt * k := by
    unfold PllTriple.dist at exact
    dsimp only at exact
    split_ifs at exact <;> omega
  unfold pllHxt at made ⊢
  have fewer : k * q ≤ k * 4 := Nat.mul_le_mul_left k small
  dsimp only
  rw [Nat.mul_one]
  -- with 7 the multiplier is too late
  interval_cases p <;> first | decide | omega

end Agreement

end NuMakerMA35
