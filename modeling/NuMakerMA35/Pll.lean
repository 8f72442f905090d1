import NuMakerMA35.Checked
import NuMakerMA35.BitUtil
import Mathlib.Logic.Function.Basic

namespace NuMakerMA35

open Checked

def pllHxt : Nat := 24000000

def sysPllFreqClk : Nat := 180000000

def pll0Ctl0FbdivMsk : U32 := 0xff
def pll0Ctl0IndivPos : Nat := 8
def pll0Ctl0IndivMsk : U32 := 0xf <<< 8
def pll0Ctl0OutdivPos : Nat := 12
def pll0Ctl0OutdivMsk : U32 := 0x3 <<< 12
def pll0Ctl0BpMsk : U32 := 0x1 <<< 17

def pllCtl0FbdivMsk : U32 := 0x7ff
def pllCtl0IndivPos : Nat := 12
def pllCtl0IndivMsk : U32 := 0x3f <<< 12
def pllCtl0ModePos : Nat := 18
def pllCtl0ModeMsk : U32 := 0x3 <<< 18
def pllCtl0SsrateMsk : U32 := 0x7ff <<< 20
def pllCtl1PdMsk : U32 := 0x1
def pllCtl1OutdivPos : Nat := 4
def pllCtl1OutdivMsk : U32 := 0x7 <<< 4
def pllCtl1FracPos : Nat := 8
def pllCtl1FracMsk : U32 := 0xffffff <<< 8

def pllOpmodeInteger : U32 := 0
def pllOpmodeFractional : U32 := 1
def pllOpmodeSpreadSpectrum : U32 := 2

def vsipllFrefMaxFreq : Nat := 200000000
def vsipllFrefMinFreq : Nat := 1000000
def vsipllFrefdivmMaxFreq : Nat := 40000000
def vsipllFrefdivmMinFreq0 : Nat := 1000000
def vsipllFrefdivmMinFreq1 : Nat := 10000000
def vsipllFclkMaxFreq : Nat := 2400000000
def vsipllFclkMinFreq : Nat := 600000000
def vsipllFclkoMaxFreq : Nat := 2400000000
def vsipllFclkoMinFreq : Nat := 85700000

inductive VsiPll where
  | ddrpll
  | apll
  | epll
  | vpll
  deriving DecidableEq

structure PllRegs where
  ctl0 : U32
  ctl1 : U32
  ctl2 : U32

structure NuClk where
  pll0ctl0 : U32
  pll : VsiPll → PllRegs

inductive ClkPll where
  | capll
  | syspll
  | vsi (pll : VsiPll)

def pllField (x msk : U32) (pos : Nat) : Nat := ((x &&& msk) >>> pos).toNat

def clkGetCapllClockFreq (clk : NuClk) : Checked Nat :=
  let n := pllField clk.pll0ctl0 pll0Ctl0FbdivMsk 0
  let m := pllField clk.pll0ctl0 pll0Ctl0IndivMsk pll0Ctl0IndivPos
  let p := pllField clk.pll0ctl0 pll0Ctl0OutdivMsk pll0Ctl0OutdivPos
  if clk.pll0ctl0 &&& pll0Ctl0BpMsk ≠ 0 then pure pllHxt
  else do
    let f ← fit 32 (pllHxt / 100 * n)
    let d ← fit 32 (1 <<< p * m)
    let q ← quot f d
    fit 32 (q * 100)

def clkGetVsiPllClockFreq (clk : NuClk) (pll : VsiPll) : Checked Nat :=
  let r := clk.pll pll
  if r.ctl1 &&& pllCtl1PdMsk ≠ 0 then pure 0
  else
    let mode := pllField r.ctl0 pllCtl0ModeMsk pllCtl0ModePos
    let n := pllField r.ctl0 pllCtl0FbdivMsk 0
    let m := pllField r.ctl0 pllCtl0IndivMsk pllCtl0IndivPos
    let p := pllField r.ctl1 pllCtl1OutdivMsk pllCtl1OutdivPos
    let x := pllField r.ctl1 pllCtl1FracMsk pllCtl1FracPos
    if mode = 0 then do
      let d ← fit 32 (p * m)
      let q ← quot pllHxt d
      fit 32 (q * n)
    else if mode = 1 then do
      let x ← fit 32 (x * 1000)
      let x ← fit 32 (x + 500)
      let n ← fit 32 (n * 1000)
      let y ← fit 32 (n + x / 2 ^ 24)
      let f ← fit 32 (pllHxt / 1000 * y)
      let d ← fit 32 (p * m)
      quot f d
    else if mode = 2 then do
      let x ← fit 32 (x * 1000)
      let n ← fit 32 (n * 1000)
      let y ← fit 32 (n + x / 2 ^ 24)
      let f ← fit 32 (pllHxt / 1000 * y)
      let d ← fit 32 (p * m)
      quot f d
    else pure 0

def clkGetPllClockFreq (clk : NuClk) : ClkPll → Checked Nat
  | .capll => clkGetCapllClockFreq clk
  | .syspll => pure sysPllFreqClk
  | .vsi pll => clkGetVsiPllClockFreq clk pll

structure PllCalc where
  clk : Nat
  reg0 : U32
  reg1 : U32
  reg2 : U32

/-- The best solution so far of the search of mode 0; with `found` the search is left. -/
structure PllBest where
  min : Nat
  minM : Nat
  minN : Nat
  minP : Nat
  found : Bool
  deriving DecidableEq

def calPllFreqMode0P (freq con2 m n : Nat) (s : PllBest) (p : Nat) : Checked PllBest :=
  if s.found then pure s
  else do
    let con3 ← quot con2 p
    let tmp ← fit 32 (if con3 > freq then con3 - freq else freq - con3)
    pure (if tmp < s.min then ⟨tmp, m, n, p, tmp = 0⟩ else s)

def calPllFreqMode0N (freq con1 m : Nat) (s : PllBest) (n : Nat) : Checked PllBest :=
  if s.found then pure s
  else do
    let con2 ← fit 64 (con1 * n)
    let low ← fit 32 (con2 / vsipllFclkoMaxFreq)
    let high ← fit 32 (con2 / vsipllFclkoMinFreq)
    let minP := if low > 1 then low else 1
    let maxP := if high < 7 then high else 7
    (List.range' minP (maxP + 1 - minP)).foldlM (calPllFreqMode0P freq con2 m n) s

def calPllFreqMode0M (src freq : Nat) (s : PllBest) (m : Nat) : Checked PllBest :=
  if s.found then pure s
  else do
    let con1 ← quot src m
    let low ← quot vsipllFclkMinFreq con1
    let high ← quot vsipllFclkMaxFreq con1
    let minN := if low > 16 then low else 16
    let maxN := if high < 2047 then high else 2047
    (List.range' minN (maxN + 1 - minN)).foldlM (calPllFreqMode0N freq con1 m) s

def clkCalPllFreqMode0 (src freq : Nat) : Checked PllCalc :=
  if freq < vsipllFclkoMinFreq ∨ freq > vsipllFclkoMaxFreq then pure ⟨1000000000, 0x307d, 0x10, 0⟩
  else do
    let low ← fit 32 (src / vsipllFrefdivmMaxFreq)
    let high := src / vsipllFrefdivmMinFreq0
    let minM := if low > 1 then low else 1
    let maxM := if high < 63 then high else 63
    let s ← (List.range' minM (maxM + 1 - minM)).foldlM (calPllFreqMode0M src freq)
      ⟨2 ^ 32 - 1, 0, 0, 0, false⟩
    let reg0 ← fit 32 (s.minM <<< 12 ||| s.minN)
    let reg1 ← fit 32 (s.minP <<< 4)
    let prod ← fit 64 (src * s.minN)
    let d ← fit 32 (s.minP * s.minM)
    let clk ← quot prod d
    pure ⟨clk, BitVec.ofNat 32 reg0, BitVec.ofNat 32 reg1, 0⟩

/-- The first multiple above the lower limit, or zero. -/
def pllFclkoMode1 (freq : Nat) : List Nat → Checked Nat
  | [] => pure 0
  | i :: rest => do
    let tmp ← fit 64 (i * freq)
    if tmp > vsipllFclkoMinFreq then pure tmp else pllFclkoMode1 freq rest

/-- The last multiple above the lower limit, or zero. -/
def pllFclkoMode2 (freq fclko : Nat) : List Nat → Checked Nat
  | [] => pure fclko
  | i :: rest => do
    let tmp ← fit 64 (i * freq)
    pllFclkoMode2 freq (if tmp > vsipllFclkoMinFreq then tmp else fclko) rest

def pllFindP (fclko : Nat) : List Nat → Checked Nat
  | [] => pure 0
  | i :: rest => do
    let tmp ← fit 64 (i * fclko)
    if tmp ≤ vsipllFclkoMaxFreq ∧ tmp ≥ vsipllFclkMinFreq then pure i else pllFindP fclko rest

def pllFindM (src : Nat) : List Nat → Checked Nat
  | [] => pure 0
  | i :: rest => do
    let tmp ← quot src i
    if tmp ≤ vsipllFrefdivmMaxFreq ∧ tmp ≥ vsipllFrefdivmMinFreq1 then pure i
    else pllFindM src rest

/-- What modes 1 and 2 compute alike: the multiplier in thousandths, its whole part, the value for
register 1 and the frequency. -/
structure PllFraction where
  tmp : Nat
  n : Nat
  reg1 : Nat
  clk : Nat

def pllFraction (src fclko p m : Nat) : Checked PllFraction := do
  let prod ← fit 64 (fclko * p * m * 1000)
  let tmp ← quot prod src
  let n := tmp / 1000
  let x := tmp % 1000
  let shifted ← fit 64 (x <<< 24)
  let frac ← fit 32 ((shifted + 500) / 1000)
  let high ← fit 32 (frac <<< 8)
  let reg1 ← fit 32 (p <<< 4 ||| high)
  let prod ← fit 64 (src * tmp)
  let f ← quot prod p
  let f ← quot f m
  pure ⟨tmp, n, reg1, f / 1000⟩

def pllNone : PllCalc := ⟨0, 0, 0, 0⟩

def clkCalPllFreqMode1 (src freq : Nat) : Checked PllCalc :=
  if src > vsipllFrefMaxFreq ∨ src < vsipllFrefMinFreq then pure pllNone
  else if freq ≥ vsipllFclkoMaxFreq then pure ⟨1000000000, 0x30fa, 0x2 <<< 4, 0⟩
  else do
    let fclko ← (if freq < vsipllFclkoMinFreq then pllFclkoMode1 freq (List.range' 2 98) else pure freq)
    if fclko = 0 then pure pllNone
    else do
      let p ← pllFindP fclko (List.range' 1 7)
      if p = 0 then pure pllNone
      else do
        let m ← pllFindM src (List.range' 1 63)
        if m = 0 then pure pllNone
        else do
          let q ← pllFraction src fclko p m
          let reg0 ← fit 32 (m <<< 12 ||| q.n)
          pure ⟨q.clk, BitVec.ofNat 32 reg0, BitVec.ofNat 32 q.reg1, 0⟩

/-- `CLK_CalPLLFreq_Mode2`, with the modulation rate `sr` and frequency `fmod`. -/
def clkCalPllFreqMode2 (src freq sr fmod : Nat) : Checked PllCalc :=
  if src > vsipllFrefMaxFreq ∨ src < vsipllFrefMinFreq then pure pllNone
  else if freq ≥ vsipllFclkoMaxFreq then pure ⟨1000000000, 0x30fa, 0x2 <<< 4, 0⟩
  else do
    let fclko ← (if freq < vsipllFclkoMinFreq then pllFclkoMode2 freq 0 (List.range' 2 6) else pure freq)
    if fclko = 0 then pure pllNone
    else do
      let p ← pllFindP fclko (List.range' 1 7)
      if p = 0 then pure pllNone
      else do
        let m ← pllFindM src (List.range' 1 63)
        if m = 0 then pure pllNone
        else do
          let q ← pllFraction src fclko p m
          let twice ← fit 32 (fmod * 2)
          let rate ← quot (src >>> 1) twice
          let ssrate ← less 64 rate 1
          let prod ← fit 64 (q.tmp * sr)
          let steps ← quot prod ssrate
          let slope ← fit 64 (steps <<< 24)
          let high ← fit 64 (ssrate <<< 20)
          let reg0 ← fit 32 (high ||| m <<< 12 ||| q.n)
          let reg2 ← fit 32 (slope / 100 / 1000)
          pure ⟨q.clk, BitVec.ofNat 32 reg0, BitVec.ofNat 32 q.reg1, BitVec.ofNat 32 reg2⟩

def NuClk.writePll (clk : NuClk) (pll : VsiPll) (ctl0 ctl1 ctl2 : U32) : NuClk :=
  { clk with pll := Function.update clk.pll pll ⟨ctl0, ctl1 &&& ~~~pllCtl1PdMsk, ctl2⟩ }

def clkSetVsiPllFreq (clk : NuClk) (pll : VsiPll) (mode : U32) (src freq : Nat) :
    Checked (NuClk × Nat) :=
  let r := clk.pll pll
  let ctl0 := r.ctl0 &&& ~~~pllCtl0ModeMsk ||| mode <<< pllCtl0ModePos
  if mode = pllOpmodeInteger then do
    let c ← clkCalPllFreqMode0 src freq
    pure (clk.writePll pll (ctl0 &&& ~~~(pllCtl0IndivMsk ||| pllCtl0FbdivMsk) ||| c.reg0)
      (r.ctl1 &&& ~~~pllCtl1OutdivMsk ||| c.reg1) r.ctl2, c.clk)
  else if mode = pllOpmodeFractional then do
    let c ← clkCalPllFreqMode1 src freq
    pure (clk.writePll pll (ctl0 &&& ~~~(pllCtl0IndivMsk ||| pllCtl0FbdivMsk) ||| c.reg0)
      (r.ctl1 &&& ~~~(pllCtl1OutdivMsk ||| pllCtl1FracMsk) ||| c.reg1) r.ctl2, c.clk)
  else if mode = pllOpmodeSpreadSpectrum then do
    let c ← clkCalPllFreqMode2 src freq 50000 194
    pure (clk.writePll pll
      (ctl0 &&& ~~~(pllCtl0SsrateMsk ||| pllCtl0IndivMsk ||| pllCtl0FbdivMsk) ||| c.reg0)
      (r.ctl1 &&& ~~~(pllCtl1OutdivMsk ||| pllCtl1FracMsk) ||| c.reg1) c.reg2, c.clk)
  else pure (clk, 0)

def capllMap : List (Nat × U32) :=
  [(1000000000, 0x6fa), (800000000, 0x364), (700000000, 0x6af), (648000000, 0x6a2),
    (600000000, 0x696)]

def clkSetCapllClockFreq (clk : NuClk) (mode : U32) (freq : Nat) : NuClk × Nat :=
  match capllMap.find? fun e => mode = pllOpmodeInteger ∧ freq = e.1 with
  | some e => ({ clk with pll0ctl0 := e.2 }, e.1)
  | none => (clk, 0)

def clkSetPllFreq (clk : NuClk) (idx : ClkPll) (mode : U32) (src freq : BitVec 64) :
    Checked (NuClk × Nat) :=
  match idx with
  | .capll => pure (clkSetCapllClockFreq clk mode freq.toNat)
  | .syspll => pure (clk, sysPllFreqClk)
  | .vsi pll => clkSetVsiPllFreq clk pll mode src.toNat freq.toNat

end NuMakerMA35
