import NuMakerMA35.ClkModule
import Mathlib.Tactic.Ring
import Mathlib.Tactic.Linarith

namespace NuMakerMA35

def uartHxt : Nat := 24000000
def uartSysPllFreq : Nat := 180000000
def uart16 : U32 := 0x40880000
def uartBaudMode0 : U32 := 0
def uartBaudMode2 : U32 := 0x30000000
def uartFuncselUart : U32 := 0
def uartWordLen8 : U32 := 3
def uartParityNone : U32 := 0
def uartStopBit1 : U32 := 0
def uartFifoRfitlMsk : U32 := 0xf <<< 4
def uartFifoRtstrglvMsk : U32 := 0xf <<< 16
def clkClksel2 : Nat := 8
def clkClksel3 : Nat := 9
def clkClkdiv1 : Nat := 12
def clkClkdiv2 : Nat := 13
def clkClkdiv3 : Nat := 14

def uartBase (port : Fin 17) : U32 :=
  if port = 16 then uart16 else 0x40700000 + BitVec.ofNat 32 port.val * 0x10000

def uartPort (uart : U32) : Nat :=
  if uart = uart16 then 16 else ((uart &&& 0xf0000) >>> 16).toNat

def uartClkSrcSel (clk : ClkWords) (uart : U32) : Nat :=
  let port := uartPort uart
  if port < 8 then (clk clkClksel2 >>> (16 + port * 2) &&& 0x3).toNat
  else if port ≤ 16 then (clk clkClksel3 >>> ((port - 8) * 2) &&& 0x3).toNat
  else 0

def uartClkDivNum (clk : ClkWords) (uart : U32) : Nat :=
  let port := uartPort uart
  if port < 4 then (clk clkClkdiv1 >>> ((port + 4) * 4) &&& 0xf).toNat
  else if port < 12 then (clk clkClkdiv2 >>> ((port - 4) * 4) &&& 0xf).toNat
  else if port ≤ 16 then (clk clkClkdiv3 >>> ((port - 12) * 4) &&& 0xf).toNat
  else 0

def uartSysclk1Freq (clk : ClkWords) : Nat :=
  if clk clkClksel0 &&& (0x1 <<< 4) = 0 then uartHxt else uartSysPllFreq

def uartSrcClkFreq (clk : ClkWords) (uart : U32) : Nat :=
  match uartClkSrcSel clk uart with
  | 0 => uartHxt
  | 1 => uartSysclk1Freq clk
  | _ => 0

def uartSource (clk : ClkWords) (uart : U32) : Nat :=
  match uartClkSrcSel clk uart with
  | 0 => uartHxt
  | 1 => uartSysclk1Freq clk / 2
  | 2 => 32768
  | _ => 12000000

def uartBaudMode0Divider (srcFreq baudRate : U32) : U32 :=
  ((srcFreq + baudRate * 8) / baudRate) >>> 4 - 2

def uartBaudMode2Divider (srcFreq baudRate : U32) : U32 := (srcFreq + baudRate / 2) / baudRate - 2

/-- What is written into `BAUD`, if anything is. -/
def uartBaudValue (clk : ClkWords) (uart baudrate : U32) : Option U32 :=
  if baudrate ≠ 0 then
    let srcFreq := BitVec.ofNat 32 (uartSrcClkFreq clk uart / (uartClkDivNum clk uart + 1))
    let div := uartBaudMode2Divider srcFreq baudrate
    if div > 0xFFFF then some (uartBaudMode0 ||| uartBaudMode0Divider srcFreq baudrate)
    else some (uartBaudMode2 ||| div)
  else none

structure UartRegs where
  funcsel : U32
  line : U32
  fifo : U32
  baud : U32

def uartOpen (clk : ClkWords) (uart baudrate : U32) (s : UartRegs) : UartRegs where
  funcsel := uartFuncselUart
  line := uartWordLen8 ||| uartParityNone ||| uartStopBit1
  fifo := s.fifo &&& ~~~(uartFifoRfitlMsk ||| uartFifoRtstrglvMsk)
  baud := (uartBaudValue clk uart baudrate).getD s.baud

def uartSetLineConfig (clk : ClkWords) (uart baudrate dataWidth parity stopBits : U32) (s : UartRegs) :
    UartRegs :=
  { s with
    baud := (uartBaudValue clk uart baudrate).getD s.baud
    line := dataWidth ||| parity ||| stopBits }

inductive UartBaudMode where
  | mode0
  | mode2

namespace UartBaudMode

def bits : UartBaudMode → U32
  | mode0 => uartBaudMode0
  | mode2 => uartBaudMode2

/-- By what a mode divides the clock beside its divider. -/
def factor : UartBaudMode → Nat
  | mode0 => 16
  | mode2 => 1

/-- The value of `BAUD` that divides by `q`; the field has two less. -/
def value (mode : UartBaudMode) (q : Nat) : U32 := mode.bits ||| BitVec.ofNat 32 (q - 2)

/-- A divider of the field, whose rate is within half a step of the request: the exact divider of
the source over `parts` is not further than a half from it. -/
def Near (mode : UartBaudMode) (source parts baudrate q : Nat) : Prop :=
  (2 ≤ q ∧ q - 2 < 2 ^ 16) ∧ (2 * q - 1) * (mode.factor * baudrate) * parts ≤ 2 * source ∧
    2 * source ≤ (2 * q + 1) * (mode.factor * baudrate) * parts

end UartBaudMode

/-- A request is attainable where some setting is near. -/
def UartAttainable (source parts baudrate : Nat) : Prop :=
  ∃ mode : UartBaudMode, ∃ q, mode.Near source parts baudrate q

/-- Both functions leave the same value, which is near where the request is attainable and the one
before where it is not. -/
def UartBaudLaw (clk : ClkWords) (uart baudrate : U32) : Prop :=
  let source := uartSource clk uart
  let parts := uartClkDivNum clk uart + 1
  ∀ s : UartRegs, ∀ dataWidth parity stopBits : U32,
    (uartOpen clk uart baudrate s).baud =
      (uartSetLineConfig clk uart baudrate dataWidth parity stopBits s).baud ∧
    (UartAttainable source parts baudrate.toNat → ∃ mode : UartBaudMode, ∃ q,
      mode.Near source parts baudrate.toNat q ∧ (uartOpen clk uart baudrate s).baud = mode.value q) ∧
    (¬UartAttainable source parts baudrate.toNat → (uartOpen clk uart baudrate s).baud = s.baud)

/-- The crystal is selected, the request is at most two thirds of the clock and not below the slowest
rate, and it does not meet the middle of two dividers only because the clock is rounded down. -/
def UartBaudKept (clk : ClkWords) (uart : U32) (baudrate : Nat) : Prop :=
  let parts := uartClkDivNum clk uart + 1
  let clock := uartHxt / parts
  uartClkSrcSel clk uart = 0 ∧ 3 * baudrate ≤ 2 * clock ∧ clock < 1048600 * baudrate ∧
    ¬(baudrate ∣ 2 * clock + 1 ∧ 2 * clock + 1 ≤ 131075 * baudrate ∧ parts < 2 * (uartHxt % parts))

section Divider

variable {clock baud : U32} {c b q : Nat}

theorem uartBaudMode2Divider_toNat (hc : clock.toNat = c) (hb : baud.toNat = b)
    (small : c < 2 ^ 28) :
    (uartBaudMode2Divider clock baud).toNat = (2 ^ 32 - 2 + (c + b / 2) / b) % 2 ^ 32 := by
  have below : b < 2 ^ 32 := hb ▸ baud.isLt
  have sum : (c + b / 2) % 2 ^ 32 = c + b / 2 := Nat.mod_eq_of_lt (by omega)
  rw [uartBaudMode2Divider, BitVec.toNat_sub, BitVec.toNat_udiv, BitVec.toNat_add,
    BitVec.toNat_udiv, hc, hb]
  change (2 ^ 32 - 2 + (c + b / 2) % 2 ^ 32 / b) % 2 ^ 32 = _
  rw [sum]

theorem uartBaudMode0Divider_toNat (hc : clock.toNat = c) (hb : baud.toNat = b) :
    (uartBaudMode0Divider clock baud).toNat =
      (2 ^ 32 - 2 + (c + b * 8 % 2 ^ 32) % 2 ^ 32 / b / 2 ^ 4) % 2 ^ 32 := by
  rw [uartBaudMode0Divider, BitVec.toNat_sub, BitVec.toNat_ushiftRight, BitVec.toNat_udiv,
    BitVec.toNat_add, BitVec.toNat_mul, hc, hb, Nat.shiftRight_eq_div_pow]
  rfl

theorem uartBaud_fast (hc : clock.toNat = c) (hb : baud.toNat = b) (small : c < 2 ^ 28)
    (fast : 2 * c < 3 * b) :
    0xffff < (uartBaudMode2Divider clock baud).toNat ∧
      (uartBaudMode0Divider clock baud).toNat = 0xfffffffe := by
  have positive : 0 < b := by omega
  have below : b < 2 ^ 32 := hb ▸ baud.isLt
  constructor
  · have few : (c + b / 2) / b < 2 := by
      rw [Nat.div_lt_iff_lt_mul positive]
      omega
    rw [uartBaudMode2Divider_toNat hc hb small]
    generalize (c + b / 2) / b = quotient at few
    omega
  · have few : (c + b * 8 % 2 ^ 32) % 2 ^ 32 / b < 16 := by
      rw [Nat.div_lt_iff_lt_mul positive]
      by_cases whole : c + b * 8 < 2 ^ 32
      · rw [Nat.mod_eq_of_lt (show b * 8 < 2 ^ 32 by omega), Nat.mod_eq_of_lt whole]
        omega
      · have wide : 2 ^ 32 ≤ 16 * b := by omega
        exact (Nat.mod_lt _ (by decide)).trans_le wide
    rw [uartBaudMode0Divider_toNat hc hb]
    generalize (c + b * 8 % 2 ^ 32) % 2 ^ 32 / b = quotient at few
    omega

theorem uartBaud_mode2 (hc : clock.toNat = c) (hb : baud.toNat = b) (small : c < 2 ^ 28)
    (positive : 0 < b) (slow : 3 * b ≤ 2 * c) :
    2 ≤ (c + b / 2) / b ∧
      (uartBaudMode2Divider clock baud).toNat = (c + b / 2) / b - 2 := by
  have below : b < 2 ^ 32 := hb ▸ baud.isLt
  have least : 2 ≤ (c + b / 2) / b := by
    rw [Nat.le_div_iff_mul_le positive]
    omega
  have most : (c + b / 2) / b ≤ c + b / 2 := Nat.div_le_self _ _
  refine ⟨least, ?_⟩
  rw [uartBaudMode2Divider_toNat hc hb small]
  omega

theorem uartBaud_mode0 (hc : clock.toNat = c) (hb : baud.toNat = b) (small : c < 2 ^ 28)
    (positive : 0 < b) (slow : 65538 ≤ (c + b / 2) / b) :
    2 ≤ (c + 8 * b) / (16 * b) ∧
      (uartBaudMode0Divider clock baud).toNat = (c + 8 * b) / (16 * b) - 2 := by
  rw [Nat.le_div_iff_mul_le positive] at slow
  have least : 2 ≤ (c + 8 * b) / (16 * b) := by
    rw [Nat.le_div_iff_mul_le (by omega)]
    omega
  have most : (c + 8 * b) / (16 * b) ≤ c + 8 * b := Nat.div_le_self _ _
  have quotient : (c + b * 8 % 2 ^ 32) % 2 ^ 32 / b / 2 ^ 4 = (c + 8 * b) / (16 * b) := by
    rw [Nat.mod_eq_of_lt (show b * 8 < 2 ^ 32 by omega), Nat.mod_eq_of_lt (by omega),
      Nat.div_div_eq_div_mul, Nat.mul_comm b 8, Nat.mul_comm b]
    rfl
  refine ⟨least, ?_⟩
  rw [uartBaudMode0Divider_toNat hc hb, quotient]
  omega

end Divider

namespace UartBaudMode

variable {mode mode' : UartBaudMode} {q q' : Nat}

theorem value_toNat (small : q - 2 < 2 ^ 28) :
    (mode.value q).toNat = mode.bits.toNat + (q - 2) := by
  have whole : (BitVec.ofNat 32 (q - 2)).toNat = q - 2 := by
    rw [BitVec.toNat_ofNat, Nat.mod_eq_of_lt (by omega)]
  rw [value, BitVec.toNat_or, whole]
  cases mode with
  | mode0 => exact (Nat.zero_or _).trans (Nat.zero_add _).symm
  | mode2 =>
    have high : mode2.bits.toNat = 3 <<< 28 := rfl
    rw [high, Nat.shiftLeft_add_eq_or_of_lt small]

theorem value_inj (small : q - 2 < 2 ^ 28) (small' : q' - 2 < 2 ^ 28) (least : 2 ≤ q)
    (least' : 2 ≤ q') (same : mode.value q = mode'.value q') : mode = mode' ∧ q = q' := by
  have number := congrArg BitVec.toNat same
  rw [value_toNat small, value_toNat small'] at number
  have zero : mode0.bits.toNat = 0 := rfl
  have two : mode2.bits.toNat = 0x30000000 := rfl
  cases mode <;> cases mode' <;> first | exact ⟨rfl, by omega⟩ | omega

section Near

variable {source parts b c : Nat}

theorem near_lower (lower : (2 * q - 1) * (mode.factor * b) ≤ 2 * (source / parts)) :
    (2 * q - 1) * (mode.factor * b) * parts ≤ 2 * source := by
  calc (2 * q - 1) * (mode.factor * b) * parts ≤ 2 * (source / parts) * parts :=
        Nat.mul_le_mul_right _ lower
    _ = 2 * (source / parts * parts) := Nat.mul_assoc _ _ _
    _ ≤ 2 * source := Nat.mul_le_mul_left _ (Nat.div_mul_le_self _ _)

theorem near_of (positive : 0 < parts) (range : 2 ≤ q ∧ q - 2 < 2 ^ 16)
    (lower : (2 * q - 1) * (mode.factor * b) ≤ 2 * (source / parts))
    (upper : 2 * (source / parts) + 2 ≤ (2 * q + 1) * (mode.factor * b)) :
    mode.Near source parts b q := by
  refine ⟨range, near_lower lower, ?_⟩
  have above : source < parts * (source / parts + 1) := Nat.lt_mul_div_succ source positive
  rw [Nat.mul_comm] at above
  calc 2 * source ≤ 2 * ((source / parts + 1) * parts) := Nat.mul_le_mul_left _ above.le
    _ = (2 * (source / parts) + 2) * parts := by ring
    _ ≤ (2 * q + 1) * (mode.factor * b) * parts := Nat.mul_le_mul_right _ upper

theorem not_near_of_double (positive : 0 < parts) (some : 0 < b)
    (upper : 2 * (2 * source / parts) ≤ (2 * q + 1) * (mode.factor * b)) :
    ¬mode.Near source parts b q := by
  rintro ⟨⟨least, -⟩, lower, -⟩
  have above : 2 * source < parts * (2 * source / parts + 1) := Nat.lt_mul_div_succ _ positive
  rw [Nat.mul_comm parts] at above
  have less : (2 * q - 1) * (mode.factor * b) < 2 * source / parts + 1 :=
    Nat.lt_of_mul_lt_mul_right (lower.trans_lt above)
  have step : 0 < mode.factor * b := by
    cases mode <;> exact Nat.mul_pos (by decide) some
  have twice : 2 * ((2 * q - 1) * (mode.factor * b)) ≤ (2 * q + 1) * (mode.factor * b) := by omega
  rw [← Nat.mul_assoc] at twice
  have bound := Nat.le_of_mul_le_mul_right twice step
  omega

theorem mode0_upper (above : c + 8 * b < 16 * b * (q + 1)) :
    2 * c ≤ (2 * q + 1) * (mode0.factor * b) := by
  have twice : (2 * q + 1) * (16 * b) = 2 * (16 * b * q) + 16 * b := by ring
  have next : 16 * b * (q + 1) = 16 * b * q + 16 * b := by ring
  change 2 * c ≤ (2 * q + 1) * (16 * b)
  omega

theorem mode2_upper (above : c + b / 2 < b * (q + 1)) :
    2 * c ≤ (2 * q + 1) * (mode2.factor * b) := by
  have twice : (2 * q + 1) * b = 2 * (b * q) + b := by ring
  have next : b * (q + 1) = b * q + b := by ring
  change 2 * c ≤ (2 * q + 1) * (1 * b)
  rw [Nat.one_mul]
  omega

theorem mode0_near_iff (positive : 0 < parts) (some : 0 < b) (same : source / parts = c)
    (least : 2 ≤ (c + 8 * b) / (16 * b)) :
    mode0.Near source parts b ((c + 8 * b) / (16 * b)) ↔ c < 1048600 * b := by
  have range : (c + 8 * b) / (16 * b) - 2 < 2 ^ 16 ↔ c < 1048600 * b := by
    have bound : (c + 8 * b) / (16 * b) < 65538 ↔ c + 8 * b < 65538 * (16 * b) :=
      Nat.div_lt_iff_lt_mul (by omega)
    omega
  have below : (c + 8 * b) / (16 * b) * (16 * b) ≤ c + 8 * b := Nat.div_mul_le_self _ _
  have above : c + 8 * b < 16 * b * ((c + 8 * b) / (16 * b) + 1) :=
    Nat.lt_mul_div_succ _ (by omega)
  generalize (c + 8 * b) / (16 * b) = q at least range below above ⊢
  constructor
  · exact fun near => range.1 near.1.2
  · intro small
    apply near_of positive ⟨least, range.2 small⟩
    · rw [same, Nat.sub_mul]
      change 2 * q * (16 * b) - 1 * (16 * b) ≤ 2 * c
      rw [Nat.mul_assoc]
      omega
    · rw [same]
      change 2 * c + 2 ≤ (2 * q + 1) * (16 * b)
      calc 2 * c + 2 ≤ 2 * (16 * b * (q + 1)) - 16 * b := by omega
        _ = (2 * q + 1) * (16 * b) := by
          rw [Nat.sub_eq_iff_eq_add (by linarith [Nat.zero_le (b * q)])]
          ring

theorem mode2_middle {u : Nat} (middle : 2 * c + 1 = (2 * u + 1) * b) : (c + b / 2) / b = u := by
  have some : 0 < b := by
    apply Nat.pos_of_ne_zero
    rintro rfl
    omega
  have twice : (2 * u + 1) * b = 2 * (u * b) + b := by ring
  have next : (u + 1) * b = u * b + b := by ring
  apply Nat.div_eq_of_lt_le <;> omega

theorem mode2_near_iff (positive : 0 < parts) (some : 0 < b) (same : source / parts = c)
    (least : 2 ≤ (c + b / 2) / b) (most : (c + b / 2) / b ≤ 65537) :
    mode2.Near source parts b ((c + b / 2) / b) ↔
      ¬(b ∣ 2 * c + 1 ∧ 2 * c + 1 ≤ 131075 * b ∧ parts < 2 * (source % parts)) := by
  have only : ∀ u, 2 * c + 1 = (2 * u + 1) * b → (c + b / 2) / b = u := fun u => mode2_middle
  have below : (c + b / 2) / b * b ≤ c + b / 2 := Nat.div_mul_le_self _ _
  have above : c + b / 2 < b * ((c + b / 2) / b + 1) := Nat.lt_mul_div_succ _ some
  generalize (c + b / 2) / b = q at only least most below above ⊢
  have range : 2 ≤ q ∧ q - 2 < 2 ^ 16 := ⟨least, by omega⟩
  have lower : (2 * q - 1) * (mode2.factor * b) ≤ 2 * (source / parts) := by
    rw [same, Nat.sub_mul]
    change 2 * q * (1 * b) - 1 * (1 * b) ≤ 2 * c
    rw [Nat.one_mul, Nat.one_mul, Nat.mul_assoc]
    omega
  by_cases middle : 2 * c + 1 = (2 * q + 1) * b
  · -- The exact clock is above the middle by what it was rounded down by.
    have divides : b ∣ 2 * c + 1 := ⟨2 * q + 1, middle.trans (Nat.mul_comm _ _)⟩
    have inside : 2 * c + 1 ≤ 131075 * b := middle.trans_le (Nat.mul_le_mul_right _ (by omega))
    have whole : parts * c + source % parts = source := by rw [← same, Nat.div_add_mod]
    have half : (2 * c + 1) * parts = 2 * (parts * c) + parts := by ring
    have upper : 2 * source ≤ (2 * q + 1) * (mode2.factor * b) * parts ↔
        ¬parts < 2 * (source % parts) := by
      change 2 * source ≤ (2 * q + 1) * (1 * b) * parts ↔ _
      rw [Nat.one_mul, ← middle, half]
      omega
    rw [and_iff_right divides, and_iff_right inside, ← upper]
    exact ⟨fun near => near.2.2, fun near => ⟨range, near_lower lower, near⟩⟩
  · have outside : ¬b ∣ 2 * c + 1 := by
      rintro ⟨t, product⟩
      have odd : t % 2 = 1 := by
        rcases Nat.mod_two_eq_zero_or_one t with even | odd
        · have two : 2 ∣ b * t := (Nat.dvd_of_mod_eq_zero even).mul_left b
          omega
        · exact odd
      have split : 2 * (t / 2) + 1 = t := by omega
      have same : 2 * c + 1 = (2 * (t / 2) + 1) * b := by rw [split, product, Nat.mul_comm]
      rw [← only _ same] at same
      exact middle same
    refine iff_of_true (near_of positive range lower ?_) fun tie => outside tie.1
    have twice : (2 * q + 1) * b = 2 * (b * q) + b := by ring
    have next : b * (q + 1) = b * q + b := by ring
    rw [same]
    change 2 * c + 2 ≤ (2 * q + 1) * (1 * b)
    rw [Nat.one_mul]
    omega

end Near

end UartBaudMode

section Value

variable {clk : ClkWords} {uart baudrate : U32}

def uartClock (clk : ClkWords) (uart : U32) : Nat :=
  uartSrcClkFreq clk uart / (uartClkDivNum clk uart + 1)

theorem uartSysclk1Freq_even : 2 * (uartSysclk1Freq clk / 2) = uartSysclk1Freq clk := by
  rw [uartSysclk1Freq]
  split <;> rfl

theorem uartSrcClkFreq_small : uartSrcClkFreq clk uart < 2 ^ 28 := by
  unfold uartSrcClkFreq uartSysclk1Freq
  split
  · decide
  · split <;> decide
  · decide

theorem uartClock_small : uartClock clk uart < 2 ^ 28 :=
  (Nat.div_le_self _ _).trans_lt uartSrcClkFreq_small

theorem uartClock_toNat : (BitVec.ofNat 32 (uartClock clk uart)).toNat = uartClock clk uart :=
  Nat.mod_eq_of_lt (uartClock_small.trans (by decide))

variable (some : baudrate ≠ 0)
include some

theorem baudrate_pos : 0 < baudrate.toNat := BitVec.toNat_pos_of_ne_zero some

theorem uartBaudValue_mode0
    (large : 0xffff < (uartBaudMode2Divider (BitVec.ofNat 32 (uartClock clk uart)) baudrate).toNat) :
    uartBaudValue clk uart baudrate =
      Option.some (uartBaudMode0Divider (BitVec.ofNat 32 (uartClock clk uart)) baudrate) := by
  have exceeds : uartBaudMode2Divider (BitVec.ofNat 32 (uartClock clk uart)) baudrate > 0xffff := large
  rw [uartBaudValue, if_pos some]
  exact (if_pos exceeds).trans (congrArg Option.some BitVec.zero_or)

theorem uartBaudValue_mode2
    (small : (uartBaudMode2Divider (BitVec.ofNat 32 (uartClock clk uart)) baudrate).toNat ≤ 0xffff) :
    uartBaudValue clk uart baudrate = Option.some (uartBaudMode2 |||
      uartBaudMode2Divider (BitVec.ofNat 32 (uartClock clk uart)) baudrate) := by
  have exceeds : ¬uartBaudMode2Divider (BitVec.ofNat 32 (uartClock clk uart)) baudrate > 0xffff :=
    Nat.not_lt.2 small
  rw [uartBaudValue, if_pos some]
  exact if_neg exceeds

theorem uartBaudValue_fast (fast : 2 * uartClock clk uart < 3 * baudrate.toNat) :
    uartBaudValue clk uart baudrate = Option.some 0xfffffffe := by
  obtain ⟨large, ones⟩ := uartBaud_fast uartClock_toNat rfl uartClock_small fast
  rw [uartBaudValue_mode0 some large]
  exact congrArg Option.some (BitVec.eq_of_toNat_eq ones)

theorem uartBaudValue_near (slow : 3 * baudrate.toNat ≤ 2 * uartClock clk uart) :
    let q := (uartClock clk uart + baudrate.toNat / 2) / baudrate.toNat
    let q' := (uartClock clk uart + 8 * baudrate.toNat) / (16 * baudrate.toNat)
    uartBaudValue clk uart baudrate =
      Option.some (if q ≤ 65537 then UartBaudMode.mode2.value q else UartBaudMode.mode0.value q') := by
  obtain ⟨least, divider⟩ := uartBaud_mode2 uartClock_toNat rfl uartClock_small
    (baudrate_pos some) slow
  intro q q'
  by_cases small : q ≤ 65537
  · have field : uartBaudMode2Divider (BitVec.ofNat 32 (uartClock clk uart)) baudrate =
        BitVec.ofNat 32 (q - 2) := by
      apply BitVec.eq_of_toNat_eq
      rw [BitVec.toNat_ofNat, Nat.mod_eq_of_lt (by omega)]
      exact divider
    rw [uartBaudValue_mode2 some (by omega), if_pos small, field]
    rfl
  · obtain ⟨-, divider'⟩ := uartBaud_mode0 uartClock_toNat rfl uartClock_small
      (baudrate_pos some) (Nat.lt_of_not_le small)
    have field : uartBaudMode0Divider (BitVec.ofNat 32 (uartClock clk uart)) baudrate =
        BitVec.ofNat 32 (q' - 2) := by
      rw [← divider', BitVec.ofNat_toNat, BitVec.setWidth_eq]
    rw [uartBaudValue_mode0 some (by omega), if_neg small, field]
    exact congrArg Option.some BitVec.zero_or.symm

theorem uartBaudLaw_iff_near :
    UartBaudLaw clk uart baudrate ↔ ∃ mode : UartBaudMode, ∃ q,
      mode.Near (uartSource clk uart) (uartClkDivNum clk uart + 1) baudrate.toNat q ∧
        uartBaudValue clk uart baudrate = Option.some (mode.value q) := by
  obtain ⟨w, written⟩ : ∃ w, uartBaudValue clk uart baudrate = Option.some w := by
    rw [uartBaudValue, if_pos some]
    dsimp only
    split
    · exact ⟨_, rfl⟩
    · exact ⟨_, rfl⟩
  have after (s : UartRegs) : (uartOpen clk uart baudrate s).baud = w := by
    rw [uartOpen, written]
    rfl
  constructor
  · intro law
    by_cases attainable : UartAttainable (uartSource clk uart) (uartClkDivNum clk uart + 1)
        baudrate.toNat
    · obtain ⟨mode, q, near, value⟩ := (law ⟨0, 0, 0, 0⟩ 0 0 0).2.1 attainable
      rw [after] at value
      exact ⟨mode, q, near, written.trans (congrArg Option.some value)⟩
    · have zero := (law ⟨0, 0, 0, 0⟩ 0 0 0).2.2 attainable
      have one := (law ⟨0, 0, 0, 1⟩ 0 0 0).2.2 attainable
      rw [after] at zero one
      exact absurd (zero.symm.trans one) (by decide)
  · rintro ⟨mode, q, near, value⟩ s dataWidth parity stopBits
    obtain rfl : w = mode.value q := Option.some.inj (written.symm.trans value)
    refine ⟨rfl, fun _ => ⟨mode, q, near, after s⟩, fun unattainable => ?_⟩
    exact absurd ⟨mode, q, near⟩ unattainable

theorem uartBaudLaw_iff_divider (slow : 3 * baudrate.toNat ≤ 2 * uartClock clk uart) :
    let q := (uartClock clk uart + baudrate.toNat / 2) / baudrate.toNat
    let q' := (uartClock clk uart + 8 * baudrate.toNat) / (16 * baudrate.toNat)
    UartBaudLaw clk uart baudrate ↔
      if q ≤ 65537 then
        UartBaudMode.mode2.Near (uartSource clk uart) (uartClkDivNum clk uart + 1) baudrate.toNat q
      else
        UartBaudMode.mode0.Near (uartSource clk uart) (uartClkDivNum clk uart + 1) baudrate.toNat q' := by
  intro q q'
  obtain ⟨least, -⟩ := uartBaud_mode2 uartClock_toNat rfl uartClock_small (baudrate_pos some) slow
  have value := uartBaudValue_near some slow
  rw [uartBaudLaw_iff_near some, value]
  by_cases small : q ≤ 65537
  · rw [if_pos small, if_pos small]
    constructor
    · rintro ⟨mode, q'', near, same⟩
      obtain ⟨rfl, rfl⟩ := UartBaudMode.value_inj (by omega) (by have range := near.1; omega) least
        near.1.1 (Option.some.inj same)
      exact near
    · exact fun near => ⟨.mode2, q, near, rfl⟩
  · obtain ⟨least', -⟩ := uartBaud_mode0 uartClock_toNat rfl uartClock_small
      (baudrate_pos some) (Nat.lt_of_not_le small)
    have most : q' ≤ uartClock clk uart := by
      apply Nat.div_le_of_le_mul
      calc uartClock clk uart + 8 * baudrate.toNat ≤ 16 * uartClock clk uart := by omega
        _ ≤ 16 * baudrate.toNat * uartClock clk uart :=
          Nat.mul_le_mul_right _ (Nat.le_mul_of_pos_right _ (baudrate_pos some))
    have clockSmall : uartClock clk uart < 2 ^ 28 := uartClock_small
    rw [if_neg small, if_neg small]
    constructor
    · rintro ⟨mode, q'', near, same⟩
      obtain ⟨rfl, rfl⟩ := UartBaudMode.value_inj (by omega) (by have range := near.1; omega) least'
        near.1.1 (Option.some.inj same)
      exact near
    · exact fun near => ⟨.mode0, q', near, rfl⟩

theorem not_uartBaudLaw_of_fast (fast : 2 * uartClock clk uart < 3 * baudrate.toNat) :
    ¬UartBaudLaw clk uart baudrate := by
  rw [uartBaudLaw_iff_near some, uartBaudValue_fast some fast]
  rintro ⟨mode, q, ⟨⟨-, range⟩, -⟩, same⟩
  have number := congrArg BitVec.toNat (Option.some.inj same)
  rw [UartBaudMode.value_toNat (by omega)] at number
  have bits : mode.bits.toNat ≤ 0x30000000 := by cases mode <;> decide
  have ones : (0xfffffffe : U32).toNat = 0xfffffffe := rfl
  rw [ones] at number
  omega

theorem uartBaudLaw_hxt_iff (crystal : uartClkSrcSel clk uart = 0)
    (source : uartSource clk uart = uartHxt)
    (clock : uartHxt / (uartClkDivNum clk uart + 1) = uartClock clk uart)
    (slow : 3 * baudrate.toNat ≤ 2 * uartClock clk uart) :
    UartBaudLaw clk uart baudrate ↔ UartBaudKept clk uart baudrate.toNat := by
  have positive : 0 < baudrate.toNat := baudrate_pos some
  have law := uartBaudLaw_iff_divider some slow
  dsimp only at law
  rw [law, UartBaudKept, source, clock, and_iff_right crystal, and_iff_right slow]
  by_cases small : (uartClock clk uart + baudrate.toNat / 2) / baudrate.toNat ≤ 65537
  · obtain ⟨least, -⟩ := uartBaud_mode2 uartClock_toNat rfl uartClock_small positive slow
    have reached : uartClock clk uart < 1048600 * baudrate.toNat := by
      rw [← Nat.lt_succ_iff, Nat.div_lt_iff_lt_mul positive] at small
      omega
    rw [if_pos small, and_iff_right reached]
    exact UartBaudMode.mode2_near_iff (Nat.succ_pos _) positive clock least small
  · have beyond : ¬2 * uartClock clk uart + 1 ≤ 131075 * baudrate.toNat := by
      rw [← Nat.lt_succ_iff, Nat.div_lt_iff_lt_mul positive] at small
      omega
    have untied : ¬(baudrate.toNat ∣ 2 * uartClock clk uart + 1 ∧
        2 * uartClock clk uart + 1 ≤ 131075 * baudrate.toNat ∧
        uartClkDivNum clk uart + 1 < 2 * (uartHxt % (uartClkDivNum clk uart + 1))) :=
      fun tie => beyond tie.2.1
    obtain ⟨least', -⟩ := uartBaud_mode0 uartClock_toNat rfl uartClock_small positive
      (Nat.lt_of_not_le small)
    rw [if_neg small, and_iff_left untied]
    exact UartBaudMode.mode0_near_iff (Nat.succ_pos _) positive clock least'

theorem not_uartBaudLaw_of_double
    (clock : 2 * uartSource clk uart / (uartClkDivNum clk uart + 1) = uartClock clk uart)
    (slow : 3 * baudrate.toNat ≤ 2 * uartClock clk uart) : ¬UartBaudLaw clk uart baudrate := by
  have positive : 0 < baudrate.toNat := baudrate_pos some
  have above : uartClock clk uart + baudrate.toNat / 2 < baudrate.toNat *
      ((uartClock clk uart + baudrate.toNat / 2) / baudrate.toNat + 1) :=
    Nat.lt_mul_div_succ _ positive
  have above' : uartClock clk uart + 8 * baudrate.toNat < 16 * baudrate.toNat *
      ((uartClock clk uart + 8 * baudrate.toNat) / (16 * baudrate.toNat) + 1) :=
    Nat.lt_mul_div_succ _ (by omega)
  have law := uartBaudLaw_iff_divider some slow
  dsimp only at law
  rw [law]
  split
  · refine UartBaudMode.not_near_of_double (Nat.succ_pos _) positive ?_
    rw [clock]
    exact UartBaudMode.mode2_upper above
  · refine UartBaudMode.not_near_of_double (Nat.succ_pos _) positive ?_
    rw [clock]
    exact UartBaudMode.mode0_upper above'

end Value

theorem uartSource_cases (clk : ClkWords) (uart : U32) :
    (uartClkSrcSel clk uart = 0 ∧ uartSource clk uart = uartHxt ∧ uartSrcClkFreq clk uart = uartHxt) ∨
    (uartClkSrcSel clk uart ≠ 0 ∧ uartSrcClkFreq clk uart = 2 * uartSource clk uart) ∨
    (uartClkSrcSel clk uart ≠ 0 ∧ uartSrcClkFreq clk uart = 0) := by
  unfold uartSource uartSrcClkFreq
  match sel : uartClkSrcSel clk uart with
  | 0 => exact .inl ⟨rfl, rfl, rfl⟩
  | 1 => exact .inr (.inl ⟨Nat.one_ne_zero, uartSysclk1Freq_even.symm⟩)
  | n + 2 => exact .inr (.inr ⟨Nat.succ_ne_zero _, rfl⟩)

/-- For every port, every clock setting and every request but zero, the functions leave the same
value with a divider within half a step of an attainable request, and keep the one before otherwise,
just when the crystal is the source and the request is attainable, beside the requests that the
rounded clock puts in the middle of two dividers. -/
theorem uart_baud_iff (clk : ClkWords) (port : Fin 17) (baudrate : U32) (some : baudrate ≠ 0) :
    UartBaudLaw clk (uartBase port) baudrate ↔ UartBaudKept clk (uartBase port) baudrate.toNat := by
  generalize uartBase port = uart
  rcases uartSource_cases clk uart with ⟨crystal, source, freq⟩ | ⟨other, double⟩ | ⟨other, none⟩
  · have clock : uartHxt / (uartClkDivNum clk uart + 1) = uartClock clk uart := by
      rw [uartClock, freq]
    rcases Nat.lt_or_ge (2 * uartClock clk uart) (3 * baudrate.toNat) with fast | slow
    · refine iff_of_false (not_uartBaudLaw_of_fast some fast) fun kept => ?_
      have slow : 3 * baudrate.toNat ≤ 2 * (uartHxt / (uartClkDivNum clk uart + 1)) := kept.2.1
      rw [clock] at slow
      exact absurd fast (Nat.not_lt.2 slow)
    · exact uartBaudLaw_hxt_iff some crystal source clock slow
  · refine iff_of_false ?_ fun kept => other kept.1
    rcases Nat.lt_or_ge (2 * uartClock clk uart) (3 * baudrate.toNat) with fast | slow
    · exact not_uartBaudLaw_of_fast some fast
    · exact not_uartBaudLaw_of_double some (by rw [uartClock, double]) slow
  · refine iff_of_false (not_uartBaudLaw_of_fast some ?_) fun kept => other kept.1
    have positive : 0 < baudrate.toNat := baudrate_pos some
    rw [uartClock, none, Nat.zero_div]
    omega

theorem crystal115200_near : UartBaudLaw (fun _ => 0) (uartBase 0) 115200 := by
  refine (uart_baud_iff (fun _ => 0) 0 115200 (by decide)).2
    ⟨by decide, by decide, by decide, ?_⟩
  exact fun tie => absurd tie.2.2 (by decide)

/-- UART0 at 20 Mbaud from the crystal. -/
theorem fastRequest_written : ¬UartBaudLaw (fun _ => 0) (uartBase 0) 20000000 := by
  rw [uartBaudLaw_iff_near (by decide)]
  rintro ⟨mode, q, ⟨⟨least, -⟩, lower, -⟩, -⟩
  have source : uartSource (fun _ => 0) (uartBase 0) = 24000000 := by decide
  have parts : uartClkDivNum (fun _ => 0) (uartBase 0) + 1 = 1 := by decide
  have baudrate : (20000000 : U32).toNat = 20000000 := rfl
  rw [source, parts, baudrate] at lower
  cases mode with
  | mode0 =>
    change (2 * q - 1) * (16 * 20000000) * 1 ≤ 2 * 24000000 at lower
    omega
  | mode2 =>
    change (2 * q - 1) * (1 * 20000000) * 1 ≤ 2 * 24000000 at lower
    omega

end NuMakerMA35
