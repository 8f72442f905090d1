import NuMakerMA35.PdmaChannel
import Mathlib.Tactic.IntervalCases

namespace NuMakerMA35

def rtEbusy : Int := 7

def nuPortCnt : Nat := 14
def gpioPinMax : Nat := 16

def pinIrqMaxNum : Nat := 16

structure RtPinIrqHdr (H A : Type) where
  pin : BitVec 16
  mode : BitVec 16
  hdr : Option H
  args : Option A

structure GpioT where
  inttype : U32
  inten : U32
  intsrc : U32

/-- The driver's globals, the ports, and which of their interrupts the controller masks. -/
structure NuGpio (H A : Type) where
  pinIrqHdrTab : Nat → RtPinIrqHdr H A
  u32PinIrqMask : U32
  port : Nat → GpioT
  masked : Nat → Bool

inductive PinEvent where
  | rising
  | falling
  | high
  | low
  deriving DecidableEq, Repr

def nuGetPins (pin : U32) : U32 := pin &&& 0xf
def nuGetPort (pin : U32) : U32 := (pin >>> 4) &&& 0xf

def pinIrqModeRising : U32 := 0
def pinIrqModeFalling : U32 := 1
def pinIrqModeRisingFalling : U32 := 2
def pinIrqModeHighLevel : U32 := 3
def pinIrqModeLowLevel : U32 := 4

def pinIrqEnable : U32 := 1

def gpioIntRising : U32 := 0x00010000
def gpioIntFalling : U32 := 0x00000001
def gpioIntBothEdge : U32 := 0x00010001
def gpioIntHigh : U32 := 0x01010000
def gpioIntLow : U32 := 0x01000001

def GpioT.enableInt (r : GpioT) (pin : Nat) (attribs : U32) : GpioT :=
  { r with
    inttype := r.inttype &&& ~~~((1 : U32) <<< pin) ||| ((attribs >>> 24) &&& 0xff) <<< pin
    inten := r.inten &&& ~~~((0x00010001 : U32) <<< pin) ||| (attribs &&& 0xffffff) <<< pin }

def GpioT.disableInt (r : GpioT) (pin : Nat) : GpioT :=
  { r with
    inttype := r.inttype &&& ~~~((1 : U32) <<< pin)
    inten := r.inten &&& ~~~((0x00010001 : U32) <<< pin) }

/-- The pin's bit of `INTTYPE` selects level triggering, its bits of `INTEN` the low (or falling)
and the high (or rising) side. -/
def GpioT.raises (r : GpioT) (pin : Nat) : PinEvent → Bool
  | .rising => !r.inttype.getLsbD pin && r.inten.getLsbD (pin + 16)
  | .falling => !r.inttype.getLsbD pin && r.inten.getLsbD pin
  | .high => r.inttype.getLsbD pin && r.inten.getLsbD (pin + 16)
  | .low => r.inttype.getLsbD pin && r.inten.getLsbD pin

def GpioT.event (r : GpioT) (pin : Nat) (kind : PinEvent) : GpioT :=
  if r.raises pin kind then { r with intsrc := r.intsrc ||| (1 : U32) <<< pin } else r

def GpioT.clearSrc (r : GpioT) (status : U32) : GpioT := { r with intsrc := r.intsrc &&& ~~~status }

/-- The bits that `while ((i = nu_ctz(x)) < n)` with `x &= ~(1 << i)` at its end comes to. -/
def ctzBits (n : Nat) : Nat → U32 → List Nat
  | 0, _ => []
  | turns + 1, x =>
    if nuCtz x < n then nuCtz x :: ctzBits n turns (x &&& ~~~((1 : U32) <<< nuCtz x)) else []

section Driver

variable {H A : Type}

def nuPortCheck (pin : U32) : Int := if nuPortCnt ≤ (nuGetPort pin).toNat then -rtError else rtEok

/-- `none` is `-(RT_ERROR)`. -/
def NuGpio.nuFindIrqindex (g : NuGpio H A) (pin : U32) : Option Nat :=
  (ctzBits pinIrqMaxNum pinIrqMaxNum g.u32PinIrqMask).find?
    fun i => (g.pinIrqHdrTab i).pin.signExtend 32 = pin

def NuGpio.pinHdr (g : NuGpio H A) (pin : U32) : Option (H × Option A) :=
  (g.nuFindIrqindex pin).bind fun i =>
    (g.pinIrqHdrTab i).hdr.map fun hdr => (hdr, (g.pinIrqHdrTab i).args)

def NuGpio.pinIrqHdr (g : NuGpio H A) (status : U32) (port : Nat) : List (H × Option A) :=
  (ctzBits gpioPinMax gpioPinMax status).filterMap fun i =>
    g.pinHdr (BitVec.ofNat 32 (port * gpioPinMax + i))

def NuGpio.setPort (g : NuGpio H A) (port : Nat) (r : GpioT) : NuGpio H A :=
  { g with port := Function.update g.port port r }

def NuGpio.setMasked (g : NuGpio H A) (port : Nat) (masked : Bool) : NuGpio H A :=
  { g with masked := Function.update g.masked port masked }

def NuGpio.nuGpioIsr (g : NuGpio H A) (port : Nat) : NuGpio H A × List (H × Option A) :=
  let status := (g.port port).intsrc
  (g.setPort port ((g.port port).clearSrc status), g.pinIrqHdr status port)

def NuGpio.attachAt (g : NuGpio H A) (i : Nat) (pin mode : U32) (hdr : Option H)
    (args : Option A) : NuGpio H A :=
  { g with
    pinIrqHdrTab :=
      Function.update g.pinIrqHdrTab i ⟨pin.setWidth 16, mode.setWidth 16, hdr, args⟩
    u32PinIrqMask := g.u32PinIrqMask ||| (1 : U32) <<< i }

def NuGpio.nuGpioAttachIrq (g : NuGpio H A) (pin mode : U32) (hdr : Option H) (args : Option A) :
    NuGpio H A × Int :=
  if nuPortCheck pin ≠ rtEok then (g, -rtError)
  else
    match g.nuFindIrqindex pin with
    | some i => (g.attachAt i pin mode hdr args, rtEok)
    | none =>
      if nuCto g.u32PinIrqMask < pinIrqMaxNum then
        (g.attachAt (nuCto g.u32PinIrqMask) pin mode hdr args, rtEok)
      else (g, -rtEbusy)

def NuGpio.detachAt (g : NuGpio H A) (i : Nat) : NuGpio H A :=
  { g with
    pinIrqHdrTab := Function.update g.pinIrqHdrTab i ⟨-1, 0, none, none⟩
    u32PinIrqMask := g.u32PinIrqMask &&& ~~~((1 : U32) <<< i) }

def NuGpio.nuGpioDetachIrq (g : NuGpio H A) (pin : U32) : NuGpio H A × Int :=
  if nuPortCheck pin ≠ rtEok then (g, -rtError)
  else
    match g.nuFindIrqindex pin with
    | some i => (g.detachAt i, rtEok)
    | none => (g, rtEok)

def intAttribs (mode : U32) : Option U32 :=
  if mode = pinIrqModeRising then some gpioIntRising
  else if mode = pinIrqModeFalling then some gpioIntFalling
  else if mode = pinIrqModeRisingFalling then some gpioIntBothEdge
  else if mode = pinIrqModeHighLevel then some gpioIntHigh
  else if mode = pinIrqModeLowLevel then some gpioIntLow
  else none

def NuGpio.nuGpioIrqEnable (g : NuGpio H A) (pin enabled : U32) : NuGpio H A × Int :=
  if nuPortCheck pin ≠ rtEok then (g, -rtError)
  else
    match g.nuFindIrqindex pin with
    | none => (g, -rtError)
    | some i =>
      let port := (nuGetPort pin).toNat
      let n := (nuGetPins pin).toNat
      if enabled = pinIrqEnable then
        match intAttribs ((g.pinIrqHdrTab i).mode.setWidth 32) with
        | none => (g, rtEok)
        | some attribs =>
          ((g.setPort port ((g.port port).enableInt n attribs)).setMasked port false, rtEok)
      else ((g.setPort port ((g.port port).disableInt n)).setMasked port true, rtEok)

/-- After `rt_hw_gpio_init` the interrupts are installed, but masked. -/
def NuGpio.rtHwGpioInit : NuGpio H A where
  pinIrqHdrTab := fun _ => ⟨-1, 0, none, none⟩
  u32PinIrqMask := 0
  port := fun _ => ⟨0, 0, 0⟩
  masked := fun _ => true

end Driver

section Bits

theorem ctzBits_mem {n : Nat} (small : n ≤ 32) (turns : Nat) {x : U32}
    (low : ∀ j, j + turns < n → x.getLsbD j = false) (i : Nat) :
    i ∈ ctzBits n turns x ↔ i < n ∧ x.getLsbD i = true := by
  induction turns generalizing x with
  | zero =>
    constructor
    · intro none
      cases none
    · rintro ⟨inside, set⟩
      rw [low i (by omega)] at set
      cases set
  | succ turns ih =>
    rw [ctzBits]
    by_cases zero : x = 0
    · have far : ¬nuCtz x < n := by
        rw [nuCtz, if_pos zero]
        omega
      rw [if_neg far, zero]
      simp
    obtain ⟨bound, top, below⟩ := nuCtz_of_ne_zero zero
    by_cases inside : nuCtz x < n
    · rw [if_pos inside, List.mem_cons, ih, clearBit_getLsbD x bound]
      · by_cases same : i = nuCtz x
        · simp [same, inside, top]
        · simp [same]
      · intro j near
        rw [clearBit_getLsbD x bound]
        by_cases same : j = nuCtz x
        · simp [same]
        · rcases Nat.lt_or_gt_of_ne same with less | more
          · simp [below j less]
          · have here := low (nuCtz x) (by omega)
            rw [top] at here
            cases here
    · rw [if_neg inside]
      constructor
      · intro none
        cases none
      · rintro ⟨near, set⟩
        rw [below i (by omega)] at set
        cases set

theorem ctzBits_mem_iff {n : Nat} (small : n ≤ 32) (x : U32) (i : Nat) :
    i ∈ ctzBits n n x ↔ i < n ∧ x.getLsbD i = true :=
  ctzBits_mem small n (fun j far => absurd far (by omega)) i

theorem nuCtz_oneShift {n : Nat} (small : n < 32) : nuCtz ((1 : U32) <<< n) = n := by
  have ne : (1 : U32) <<< n ≠ 0 := by
    intro zero
    have here := oneShift_getLsbD small n
    rw [zero] at here
    simp at here
  have top := (nuCtz_of_ne_zero ne).2.1
  rw [oneShift_getLsbD small] at top
  exact of_decide_eq_true top

theorem ctzBits_oneShift {n : Nat} (small : n < gpioPinMax) :
    ctzBits gpioPinMax gpioPinMax ((1 : U32) <<< n) = [n] := by
  have narrow : n < 32 := by
    unfold gpioPinMax at small
    omega
  have none : (1 : U32) <<< n &&& ~~~((1 : U32) <<< n) = 0 := BitVec.and_not_self _
  have empty : nuCtz 0 = 32 := rfl
  rw [show gpioPinMax = 15 + 1 from rfl] at small ⊢
  rw [ctzBits, nuCtz_oneShift narrow, if_pos small, none, ctzBits, empty]
  rfl

def halves (low high : Bool) : U32 := (if low then 1 else 0) ||| (if high then 0x00010000 else 0)

theorem halves_shift_getLsbD (low high : Bool) {n : Nat} (small : n < 16) (j : Nat) :
    (halves low high <<< n).getLsbD j = (low && decide (j = n) || high && decide (j = n + 16)) := by
  have bits : ∀ i, i < 32 →
      (halves low high).getLsbD i = (low && decide (i = 0) || high && decide (i = 16)) := by
    intro i inside
    cases low <;> cases high <;> interval_cases i <;> rfl
  rw [BitVec.getLsbD_shiftLeft]
  by_cases inside : j < 32
  · by_cases before : j < n
    · simp [before, show j ≠ n by omega, show j ≠ n + 16 by omega]
    · rw [bits (j - n) (by omega)]
      simp [inside, before, show j - n = 0 ↔ j = n by omega, show j - n = 16 ↔ j = n + 16 by omega]
  · simp [inside, show j ≠ n by omega, show j ≠ n + 16 by omega]

end Bits

def modeKinds (mode : U32) : PinEvent → Bool
  | .rising => mode = pinIrqModeRising || mode = pinIrqModeRisingFalling
  | .falling => mode = pinIrqModeFalling || mode = pinIrqModeRisingFalling
  | .high => mode = pinIrqModeHighLevel
  | .low => mode = pinIrqModeLowLevel

section Registers

variable {r : GpioT} {n m : Nat} {mode attribs : U32}

theorem intAttribs_spec (some : intAttribs mode = some attribs) :
    ∃ level low high, (attribs >>> 24) &&& 0xff = halves level false ∧
      attribs &&& 0xffffff = halves low high ∧
      modeKinds mode .rising = (!level && high) ∧ modeKinds mode .falling = (!level && low) ∧
      modeKinds mode .high = (level && high) ∧ modeKinds mode .low = (level && low) := by
  unfold intAttribs at some
  split_ifs at some with rising falling both high low <;> cases some
  · exact ⟨false, false, true, by decide, by decide, by rw [rising]; decide⟩
  · exact ⟨false, true, false, by decide, by decide, by rw [falling]; decide⟩
  · exact ⟨false, true, true, by decide, by decide, by rw [both]; decide⟩
  · exact ⟨true, false, true, by decide, by decide, by rw [high]; decide⟩
  · exact ⟨true, true, false, by decide, by decide, by rw [low]; decide⟩

theorem intAttribs_none (none : intAttribs mode = none) (kind : PinEvent) :
    modeKinds mode kind = false := by
  unfold intAttribs at none
  split_ifs at none with rising falling both high low
  cases kind <;> simp [modeKinds, rising, falling, both, high, low]

theorem cleared_getLsbD (x : U32) (low high : Bool) (small : n < 16) (j : Nat) :
    (x &&& ~~~(halves low high <<< n)).getLsbD j =
      (x.getLsbD j && !(low && decide (j = n) || high && decide (j = n + 16))) := by
  rw [BitVec.getLsbD_and, BitVec.getLsbD_not, halves_shift_getLsbD low high small]
  by_cases inside : j < 32
  · simp [inside]
  · simp [BitVec.getLsbD_of_ge x j (by omega)]

theorem GpioT.raises_enableInt (some : intAttribs mode = some attribs) (small : n < 16)
    (kind : PinEvent) : (r.enableInt n attribs).raises n kind = modeKinds mode kind := by
  obtain ⟨level, low, high, type, sides, rising, falling, up, down⟩ := intAttribs_spec some
  have typeBit : (r.enableInt n attribs).inttype.getLsbD n = level := by
    rw [GpioT.enableInt, BitVec.getLsbD_or, type, halves_shift_getLsbD _ _ small,
      show (1 : U32) = halves true false from rfl, cleared_getLsbD _ _ _ small]
    simp
  have side (j : Nat) : (r.enableInt n attribs).inten.getLsbD j =
      (r.inten.getLsbD j && !(decide (j = n) || decide (j = n + 16)) ||
        (low && decide (j = n) || high && decide (j = n + 16))) := by
    rw [GpioT.enableInt, BitVec.getLsbD_or, sides, halves_shift_getLsbD _ _ small,
      show (0x00010001 : U32) = halves true true from rfl, cleared_getLsbD _ _ _ small]
    simp
  cases kind <;> simp [GpioT.raises, typeBit, side, rising, falling, up, down]

theorem GpioT.raises_enableInt_ne (some : intAttribs mode = some attribs) (small : n < 16)
    (other : m < 16) (apart : m ≠ n) (kind : PinEvent) :
    (r.enableInt n attribs).raises m kind = r.raises m kind := by
  obtain ⟨level, low, high, type, sides, -⟩ := intAttribs_spec some
  have typeBit : (r.enableInt n attribs).inttype.getLsbD m = r.inttype.getLsbD m := by
    rw [GpioT.enableInt, BitVec.getLsbD_or, type, halves_shift_getLsbD _ _ small,
      show (1 : U32) = halves true false from rfl, cleared_getLsbD _ _ _ small]
    simp [apart]
  have side (j : Nat) (out : j ≠ n) (off : j ≠ n + 16) :
      (r.enableInt n attribs).inten.getLsbD j = r.inten.getLsbD j := by
    rw [GpioT.enableInt, BitVec.getLsbD_or, sides, halves_shift_getLsbD _ _ small,
      show (0x00010001 : U32) = halves true true from rfl, cleared_getLsbD _ _ _ small]
    simp [out, off]
  have low' := side m apart (by omega)
  have high' := side (m + 16) (by omega) (by omega)
  cases kind <;> simp only [GpioT.raises, typeBit, low', high']

end Registers

end NuMakerMA35
