import NuMakerMA35.PdmaChannel
import NuMakerMA35.Checked
import NuMakerMA35.MaskedWrite

namespace NuMakerMA35

open Checked MaskedWrite

/-- The registers of a controller's time-outs; `TOC0_1` and those that follow it by their index. -/
inductive PdmaTimeoutReg where
  | touten
  | toutien
  | toc (i : Nat)
  | toutpsc
  | toutpsc1
  deriving DecidableEq, Repr

abbrev PdmaTimeoutRegs := PdmaTimeoutReg → U32

structure PdmaTimed extends PdmaState where
  timeoutRegs : Nat → PdmaTimeoutRegs

/-- A shift of a word; by 32 places or more it is undefined. -/
def Checked.shl (x : U32) (n : Nat) : Checked U32 := ⟨x <<< n, decide (n < 32)⟩

def pdmaDisableTimeout (r : PdmaTimeoutRegs) (mask : U32) : PdmaTimeoutRegs :=
  Function.update r .touten (r .touten &&& ~~~mask)

def pdmaEnableTimeoutInt (r : PdmaTimeoutRegs) (ch : Nat) : PdmaTimeoutRegs :=
  Function.update r .toutien (r .toutien ||| (1 : U32) <<< ch)

def pdmaDisableTimeoutInt (r : PdmaTimeoutRegs) (ch : Nat) : PdmaTimeoutRegs :=
  Function.update r .toutien (r .toutien &&& ~~~((1 : U32) <<< ch))

def pdmaSetTimeOut (r : PdmaTimeoutRegs) (ch : Nat) (onOff : Bool) (timeOutCnt : Nat) :
    PdmaTimeoutRegs :=
  if ch < pdmaChMax then
    let pos := ch % 2 * 16
    let msk := (0xffff : U32) <<< pos
    let r := Function.update r (.toc (ch / 2))
      (r (.toc (ch / 2)) &&& ~~~msk ||| BitVec.ofNat 32 timeOutCnt <<< pos)
    if onOff then Function.update r .touten (r .touten ||| (1 : U32) <<< ch)
    else Function.update r .touten (r .touten &&& ~~~((1 : U32) <<< ch))
  else r

/-- Both prescaler registers are written at the place that the channel has in the first one. -/
def pdmaSetPrescaler (r : PdmaTimeoutRegs) (ch divider : Nat) (reg : PdmaTimeoutReg) :
    Checked PdmaTimeoutRegs := do
  let mask ← shl 0x7 (4 * ch)
  let bits ← shl (BitVec.ofNat 32 divider) (4 * ch)
  return Function.update r reg (r reg &&& ~~~mask ||| bits)

/-- The branch of `nu_pdma_timeout_set` for a time; `clk` is `CLK_GetSYSCLK1Freq()`. -/
def pdmaTimeoutOn (clk timeoutUs : U32) (r : PdmaTimeoutRegs) (ch : Nat) : Checked PdmaTimeoutRegs := do
  let toClkMax ← quot 1000000 (clk.toNat / 2 ^ 8)
  let units ← quot timeoutUs.toNat toClkMax
  let divider := units / 2 ^ 16
  let tOutCnt := units % 2 ^ 16
  let r := pdmaDisableTimeout r ((1 : U32) <<< ch)
  let r := pdmaEnableTimeoutInt r ch
  let chosen := if divider > 7 then (7, 2 ^ 16 - 1) else (divider, tOutCnt)
  let r ← pdmaSetPrescaler r ch chosen.1 (if ch < 8 then .toutpsc else .toutpsc1)
  return pdmaSetTimeOut r ch true chosen.2

def pdmaTimeoutOff (r : PdmaTimeoutRegs) (ch : Nat) : PdmaTimeoutRegs :=
  pdmaDisableTimeout (pdmaDisableTimeoutInt r ch) ((1 : U32) <<< ch)

namespace PdmaTimed

/-- `nu_pdma_timeout_set` with the registers; a time of zero is answered like an error. -/
def timeoutSet (clk : U32) (s : PdmaTimed) (ch : Nat) (timeoutUs : U32) :
    Except PdmaFault (Checked (PdmaTimed × Int)) := do
  if ← nuPdmaCheckIsNonallocated s.toPdmaState ch then return pure (s, -rtEinval)
  let j := ch / pdmaChMax
  let s := { s with
    toPdmaState := s.setChn ch { s.chn ch with idleTimeoutUs := timeoutUs } }
  if timeoutUs ≠ 0 then
    return do
      let r ← pdmaTimeoutOn clk timeoutUs (s.timeoutRegs j) (ch % pdmaChMax)
      return ({ s with timeoutRegs := Function.update s.timeoutRegs j r }, -rtEok)
  else
    let r := pdmaTimeoutOff (s.timeoutRegs j) (ch % pdmaChMax)
    return pure ({ s with timeoutRegs := Function.update s.timeoutRegs j r }, -rtEinval)

/-- What a call leaves, if it comes to its end and nothing on its way is undefined. -/
def timeoutDone (clk : U32) (s : PdmaTimed) (ch : Nat) (timeoutUs : U32) : Option PdmaTimed :=
  match s.timeoutSet clk ch timeoutUs with
  | .ok done => if done.ok then some done.val.1 else none
  | .error _ => none

end PdmaTimed

/-- The time that one count stands for without a divider, in microseconds. -/
def toClkMax (clk : U32) : Nat := 1000000 / (clk.toNat / 2 ^ 8)

def timeoutUnits (clk timeoutUs : U32) : Nat := timeoutUs.toNat / toClkMax clk

def timeoutChoice (clk timeoutUs : U32) : Nat × Nat :=
  if timeoutUnits clk timeoutUs / 2 ^ 16 > 7 then (7, 2 ^ 16 - 1)
  else (timeoutUnits clk timeoutUs / 2 ^ 16, timeoutUnits clk timeoutUs % 2 ^ 16)

theorem timeoutChoice_small (clk timeoutUs : U32) :
    (timeoutChoice clk timeoutUs).1 < 2 ^ 3 ∧ (timeoutChoice clk timeoutUs).2 < 2 ^ 16 := by
  unfold timeoutChoice
  split_ifs <;> dsimp only <;> omega

def ClockDivides (clk : U32) : Prop := 2 ^ 8 ≤ clk.toNat ∧ clk.toNat < 1000001 * 2 ^ 8

instance (clk : U32) : Decidable (ClockDivides clk) := inferInstanceAs (Decidable (_ ∧ _))

theorem clockDivides_iff {clk : U32} :
    ClockDivides clk ↔ clk.toNat / 2 ^ 8 ≠ 0 ∧ toClkMax clk ≠ 0 := by
  have max : toClkMax clk = 0 ↔ clk.toNat / 2 ^ 8 = 0 ∨ 1000000 < clk.toNat / 2 ^ 8 := by
    unfold toClkMax
    rw [Nat.div_eq_zero_iff]
  rw [ClockDivides, ne_eq (toClkMax clk), max]
  omega

/-- The bits of a register that a setting writes, and what it puts there. -/
def timeoutMask (ch : Nat) : PdmaTimeoutReg → U32
  | .touten | .toutien => (1 : U32) <<< ch
  | .toc i => if i = ch / 2 then fieldMask 32 16 (ch % 2 * 16) else 0
  | .toutpsc => fieldMask 32 3 (4 * ch)
  | .toutpsc1 => 0

def timeoutBits (ch : Nat) (chosen : Nat × Nat) : PdmaTimeoutReg → U32
  | .touten | .toutien => (1 : U32) <<< ch
  | .toc i => if i = ch / 2 then BitVec.ofNat 32 chosen.2 <<< (ch % 2 * 16) else 0
  | .toutpsc => BitVec.ofNat 32 chosen.1 <<< (4 * ch)
  | .toutpsc1 => 0

theorem setBit_masked (x m : U32) : x ||| m = maskedWrite m m x := by
  apply BitVec.eq_of_getLsbD_eq
  intro i inside
  simp only [maskedWrite, BitVec.getLsbD_or, BitVec.getLsbD_and, BitVec.getLsbD_not, inside]
  cases x.getLsbD i <;> cases m.getLsbD i <;> rfl

theorem clearBit_masked (x m : U32) : x &&& ~~~m = maskedWrite m 0 x := (BitVec.or_zero).symm

theorem keep_masked (x : U32) : x = maskedWrite 0 0 x := by
  rw [← clearBit_masked]
  exact BitVec.and_allOnes.symm

section Settings

variable {clk timeoutUs : U32} {r : PdmaTimeoutRegs} {ch : Nat}

theorem pdmaTimeoutOn_of_divides (divides : ClockDivides clk) : pdmaTimeoutOn clk timeoutUs r ch = do
    let r ← pdmaSetPrescaler (pdmaEnableTimeoutInt (pdmaDisableTimeout r ((1 : U32) <<< ch)) ch) ch
      (timeoutChoice clk timeoutUs).1 (if ch < 8 then .toutpsc else .toutpsc1)
    return pdmaSetTimeOut r ch true (timeoutChoice clk timeoutUs).2 := by
  obtain ⟨first, second⟩ := clockDivides_iff.mp divides
  unfold pdmaTimeoutOn
  rw [quot_of_pos (Nat.pos_of_ne_zero first), pure_bind,
    quot_of_pos (d := 1000000 / (clk.toNat / 2 ^ 8)) (Nat.pos_of_ne_zero second), pure_bind]
  rfl

theorem pdmaSetPrescaler_eq {divider : Nat} {reg : PdmaTimeoutReg} (low : ch < 8) :
    pdmaSetPrescaler r ch divider reg = pure (Function.update r reg
      (maskedWrite (fieldMask 32 3 (4 * ch)) (BitVec.ofNat 32 divider <<< (4 * ch)) (r reg))) := by
  have shifts (x : U32) : shl x (4 * ch) = pure (x <<< (4 * ch)) := by
    unfold shl
    rw [decide_eq_true (show 4 * ch < 32 by omega)]
    rfl
  unfold pdmaSetPrescaler
  rw [shifts, pure_bind, shifts, pure_bind]
  rfl

theorem pdmaTimeoutOn_eq (divides : ClockDivides clk) (low : ch < 8) :
    pdmaTimeoutOn clk timeoutUs r ch = pure fun reg =>
      maskedWrite (timeoutMask ch reg) (timeoutBits ch (timeoutChoice clk timeoutUs) reg) (r reg) := by
  rw [pdmaTimeoutOn_of_divides divides, pdmaSetPrescaler_eq low, pure_bind, if_pos low]
  congr 1
  funext reg
  unfold pdmaSetTimeOut
  rw [if_pos (show ch < pdmaChMax by unfold pdmaChMax; omega), if_pos rfl]
  unfold pdmaEnableTimeoutInt pdmaDisableTimeout
  cases reg with
  | touten => rfl
  | toutien => exact setBit_masked _ _
  | toc i =>
    by_cases own : i = ch / 2
    · subst own
      simp [timeoutMask, timeoutBits, maskedWrite, fieldMask]
    · simp only [timeoutMask, timeoutBits, if_neg own]
      rw [Function.update_of_ne (by simp), Function.update_of_ne (by simpa using own)]
      exact keep_masked _
  | toutpsc => rfl
  | toutpsc1 => exact keep_masked _

theorem pdmaTimeoutOff_eq : pdmaTimeoutOff r ch = fun reg =>
    match reg with
    | .touten | .toutien => maskedWrite ((1 : U32) <<< ch) 0 (r reg)
    | _ => r reg := by
  funext reg
  unfold pdmaTimeoutOff pdmaDisableTimeout pdmaDisableTimeoutInt
  cases reg with
  | touten => exact clearBit_masked _ _
  | toutien => exact clearBit_masked _ _
  | toc i => rfl
  | toutpsc => rfl
  | toutpsc1 => rfl

theorem pdmaTimeoutOn_ok : (pdmaTimeoutOn clk timeoutUs r ch).ok = true ↔ ClockDivides clk ∧ ch < 8 := by
  constructor
  · intro ok
    unfold pdmaTimeoutOn at ok
    rw [bind_def, Bool.and_eq_true, bind_def, Bool.and_eq_true] at ok
    obtain ⟨first, second, rest⟩ := ok
    rw [bind_def, Bool.and_eq_true, pdmaSetPrescaler, bind_def, Bool.and_eq_true] at rest
    have shifted : 4 * ch < 32 := of_decide_eq_true rest.1.1
    exact ⟨clockDivides_iff.mpr ⟨of_decide_eq_true first, of_decide_eq_true second⟩, by omega⟩
  · rintro ⟨divides, low⟩
    rw [pdmaTimeoutOn_eq divides low]
    rfl

end Settings

/-- The channel that a bit of a register belongs to: each has four bits of a prescaler register. -/
def PdmaTimeoutReg.channel : PdmaTimeoutReg → Nat → Nat
  | .touten, i | .toutien, i => i
  | .toc k, i => 2 * k + i / 16
  | .toutpsc, i => i / 4
  | .toutpsc1, i => 8 + i / 4

/-- The calls that are defined on an allocated channel. -/
def Settable (clk : U32) (ch : Nat) (timeoutUs : U32) : Prop :=
  timeoutUs = 0 ∨ ClockDivides clk ∧ ch % pdmaChMax < 8

instance (clk : U32) (ch : Nat) (timeoutUs : U32) : Decidable (Settable clk ch timeoutUs) :=
  inferInstanceAs (Decidable (_ ∨ _))

def settingMask (ch : Nat) (timeoutUs : U32) (reg : PdmaTimeoutReg) : U32 :=
  if timeoutUs = 0 then
    match reg with
    | .touten | .toutien => (1 : U32) <<< ch
    | _ => 0
  else timeoutMask ch reg

def settingBits (clk : U32) (ch : Nat) (timeoutUs : U32) (reg : PdmaTimeoutReg) : U32 :=
  if timeoutUs = 0 then 0 else timeoutBits ch (timeoutChoice clk timeoutUs) reg

theorem timeoutMask_channel {ch i : Nat} {reg : PdmaTimeoutReg} (low : ch < 8)
    (written : (timeoutMask ch reg).getLsbD i = true) : reg.channel i = ch := by
  unfold timeoutMask at written
  unfold PdmaTimeoutReg.channel
  cases reg with
  | touten =>
    rw [oneShift_getLsbD (by omega)] at written
    exact of_decide_eq_true written
  | toutien =>
    rw [oneShift_getLsbD (by omega)] at written
    exact of_decide_eq_true written
  | toc k =>
    by_cases own : k = ch / 2
    · dsimp only at written ⊢
      rw [if_pos own, fieldMask_getLsbD (by omega)] at written
      have := of_decide_eq_true written
      omega
    · dsimp only at written
      rw [if_neg own] at written
      simp at written
  | toutpsc =>
    dsimp only at written ⊢
    rw [fieldMask_getLsbD (by omega)] at written
    have := of_decide_eq_true written
    omega
  | toutpsc1 => simp at written

theorem settingMask_channel {ch i : Nat} {timeoutUs : U32} {reg : PdmaTimeoutReg}
    (bound : ch < pdmaChMax) (low : timeoutUs = 0 ∨ ch < 8)
    (written : (settingMask ch timeoutUs reg).getLsbD i = true) : reg.channel i = ch := by
  unfold settingMask at written
  unfold pdmaChMax at bound
  by_cases off : timeoutUs = 0
  · rw [if_pos off] at written
    cases reg with
    | touten =>
      rw [oneShift_getLsbD (by omega)] at written
      exact of_decide_eq_true written
    | toutien =>
      rw [oneShift_getLsbD (by omega)] at written
      exact of_decide_eq_true written
    | toc k => simp at written
    | toutpsc => simp at written
    | toutpsc1 => simp at written
  · rw [if_neg off] at written
    exact timeoutMask_channel (low.resolve_left off) written

theorem bits_within_self (m : U32) : m &&& ~~~m = 0 := BitVec.and_not_self m

theorem zero_within (m : U32) : 0 &&& ~~~m = 0 := BitVec.zero_and

theorem settingBits_within {clk timeoutUs : U32} {ch : Nat} {reg : PdmaTimeoutReg}
    (low : timeoutUs = 0 ∨ ch < 8) :
    settingBits clk ch timeoutUs reg &&& ~~~settingMask ch timeoutUs reg = 0 := by
  unfold settingBits settingMask
  by_cases off : timeoutUs = 0
  · rw [if_pos off]
    exact zero_within _
  have first := low.resolve_left off
  obtain ⟨divider, count⟩ := timeoutChoice_small clk timeoutUs
  rw [if_neg off, if_neg off]
  unfold timeoutBits timeoutMask
  cases reg with
  | touten => exact bits_within_self _
  | toutien => exact bits_within_self _
  | toc k =>
    by_cases own : k = ch / 2
    · dsimp only
      rw [if_pos own, if_pos own]
      exact field_within count (by omega)
    · dsimp only
      rw [if_neg own, if_neg own]
      exact zero_within _
  | toutpsc => exact field_within divider (by omega)
  | toutpsc1 => exact zero_within _

namespace PdmaTimed

def afterSet (clk : U32) (s : PdmaTimed) (ch : Nat) (timeoutUs : U32) : PdmaTimed :=
  { toPdmaState := s.setChn ch { s.chn ch with idleTimeoutUs := timeoutUs }
    timeoutRegs := Function.update s.timeoutRegs (ch / pdmaChMax) fun reg =>
      maskedWrite (settingMask (ch % pdmaChMax) timeoutUs reg)
        (settingBits clk (ch % pdmaChMax) timeoutUs reg) (s.timeoutRegs (ch / pdmaChMax) reg) }

variable {clk timeoutUs : U32} {s t : PdmaTimed} {ch : Nat}

theorem timeoutDone_eq (alloc : s.allocated ch) : s.timeoutDone clk ch timeoutUs =
    if Settable clk ch timeoutUs then some (s.afterSet clk ch timeoutUs) else none := by
  unfold timeoutDone timeoutSet
  rw [check_of_allocated alloc]
  simp only [bind, Except.bind, pure, Except.pure, Bool.false_eq_true, if_false]
  by_cases off : timeoutUs = 0
  · rw [if_pos (show Settable clk ch timeoutUs from Or.inl off), if_neg (not_not.mpr off)]
    subst off
    rw [pdmaTimeoutOff_eq]
    have same : (fun reg => match reg with
        | .touten | .toutien => maskedWrite ((1 : U32) <<< (ch % pdmaChMax)) 0
          (s.timeoutRegs (ch / pdmaChMax) reg)
        | _ => s.timeoutRegs (ch / pdmaChMax) reg) = fun reg =>
          maskedWrite (settingMask (ch % pdmaChMax) 0 reg)
            (settingBits clk (ch % pdmaChMax) 0 reg) (s.timeoutRegs (ch / pdmaChMax) reg) := by
      funext reg
      unfold settingMask settingBits
      cases reg with
      | touten => rfl
      | toutien => rfl
      | toc k => exact keep_masked _
      | toutpsc => exact keep_masked _
      | toutpsc1 => exact keep_masked _
    rw [same]
    rfl
  · rw [if_pos off]
    by_cases defined : ClockDivides clk ∧ ch % pdmaChMax < 8
    · rw [if_pos (show Settable clk ch timeoutUs from Or.inr defined),
        pdmaTimeoutOn_eq defined.1 defined.2]
      have same : (fun reg => maskedWrite (timeoutMask (ch % pdmaChMax) reg)
          (timeoutBits (ch % pdmaChMax) (timeoutChoice clk timeoutUs) reg)
          (s.timeoutRegs (ch / pdmaChMax) reg)) = fun reg =>
          maskedWrite (settingMask (ch % pdmaChMax) timeoutUs reg)
            (settingBits clk (ch % pdmaChMax) timeoutUs reg)
            (s.timeoutRegs (ch / pdmaChMax) reg) := by
        funext reg
        unfold settingMask settingBits
        rw [if_neg off, if_neg off]
      rw [same]
      rfl
    · have lost : ¬Settable clk ch timeoutUs := fun some => defined (some.resolve_left off)
      rw [if_neg lost]
      refine if_neg ?_
      intro ok
      rw [Bool.and_eq_true] at ok
      exact defined (pdmaTimeoutOn_ok.mp ok.1)

theorem timeoutDone_allocated {c : Nat} (alloc : s.allocated ch)
    (done : s.timeoutDone clk ch timeoutUs = some t) : t.allocated c ↔ s.allocated c := by
  rw [timeoutDone_eq alloc] at done
  split_ifs at done
  cases done
  exact Iff.rfl

/-- The prescaler field that the hardware reads for a channel of a controller. -/
def prescaler (r : PdmaTimeoutRegs) (ch : Nat) : Nat :=
  readField (r (if ch < 8 then .toutpsc else .toutpsc1)) 3 (4 * (ch % 8))

/-- A call comes to its end, writes no bit of another channel, and a time's divider to the channel's
own prescaler field. -/
def Framed (clk : U32) (s : PdmaTimed) (ch : Nat) (timeoutUs : U32) : Prop :=
  ∃ t, s.timeoutDone clk ch timeoutUs = some t ∧
    (∀ j reg i, ¬(j = ch / pdmaChMax ∧ reg.channel i = ch % pdmaChMax) →
      (t.timeoutRegs j reg).getLsbD i = (s.timeoutRegs j reg).getLsbD i) ∧
    (timeoutUs ≠ 0 → prescaler (t.timeoutRegs (ch / pdmaChMax)) (ch % pdmaChMax) =
      (timeoutChoice clk timeoutUs).1)

def Commute (clk : U32) (s : PdmaTimed) (ch : Nat) (timeoutUs : U32) (ch' : Nat) (timeoutUs' : U32) :
    Prop :=
  ∃ t, ((s.timeoutDone clk ch timeoutUs).bind fun r => r.timeoutDone clk ch' timeoutUs') = some t ∧
    ((s.timeoutDone clk ch' timeoutUs').bind fun r => r.timeoutDone clk ch timeoutUs) = some t

theorem channel_bound (ch : Nat) : ch % pdmaChMax < pdmaChMax :=
  Nat.mod_lt ch (by decide)

theorem framed_of_settable (alloc : s.allocated ch) (defined : Settable clk ch timeoutUs) :
    s.Framed clk ch timeoutUs := by
  have low : timeoutUs = 0 ∨ ch % pdmaChMax < 8 := defined.imp id And.right
  refine ⟨s.afterSet clk ch timeoutUs, ?_, ?_, ?_⟩
  · rw [timeoutDone_eq alloc, if_pos defined]
  · intro j reg i other
    unfold afterSet
    dsimp only
    by_cases own : j = ch / pdmaChMax
    · subst own
      rw [Function.update_self]
      apply getLsbD_outside (settingBits_within low)
      by_contra written
      exact other ⟨rfl, settingMask_channel (channel_bound ch) low (Bool.not_eq_false _ ▸ written)⟩
    · rw [Function.update_of_ne own]
  · intro some
    have first := low.resolve_left some
    unfold prescaler afterSet
    dsimp only
    rw [Function.update_self, if_pos first, Nat.mod_eq_of_lt first]
    unfold settingMask settingBits
    rw [if_neg some, if_neg some]
    exact readField_write (timeoutChoice_small clk timeoutUs).1 (by omega)

theorem settingMask_apart {ch ch' : Nat} {timeoutUs timeoutUs' : U32} {reg : PdmaTimeoutReg}
    (bound : ch < pdmaChMax) (bound' : ch' < pdmaChMax) (low : timeoutUs = 0 ∨ ch < 8)
    (low' : timeoutUs' = 0 ∨ ch' < 8) (other : ch ≠ ch') :
    settingMask ch timeoutUs reg &&& settingMask ch' timeoutUs' reg = 0 := by
  apply BitVec.eq_of_getLsbD_eq
  intro i _
  rw [BitVec.getLsbD_and]
  cases first : (settingMask ch timeoutUs reg).getLsbD i with
  | false => simp
  | true =>
    cases second : (settingMask ch' timeoutUs' reg).getLsbD i with
    | false => simp
    | true =>
      exact absurd ((settingMask_channel bound low first).symm.trans
        (settingMask_channel bound' low' second)) other

theorem afterSet_comm {ch' : Nat} {timeoutUs' : U32} (defined : Settable clk ch timeoutUs)
    (defined' : Settable clk ch' timeoutUs') (other : ch ≠ ch') :
    (s.afterSet clk ch timeoutUs).afterSet clk ch' timeoutUs' =
      (s.afterSet clk ch' timeoutUs').afterSet clk ch timeoutUs := by
  have low : timeoutUs = 0 ∨ ch % pdmaChMax < 8 := defined.imp id And.right
  have low' : timeoutUs' = 0 ∨ ch' % pdmaChMax < 8 := defined'.imp id And.right
  unfold afterSet PdmaState.setChn
  dsimp only
  rw [Function.update_of_ne other.symm, Function.update_of_ne other, Function.update_comm other]
  congr 1
  by_cases same : ch / pdmaChMax = ch' / pdmaChMax
  · have apart : ch % pdmaChMax ≠ ch' % pdmaChMax := by
      intro equal
      rw [← Nat.div_add_mod ch pdmaChMax, same, equal, Nat.div_add_mod] at other
      exact other rfl
    rw [same, Function.update_idem, Function.update_idem, Function.update_self, Function.update_self]
    congr 1
    funext reg
    exact comm (settingMask_apart (channel_bound ch') (channel_bound ch) low' low apart.symm)
      (settingBits_within low') (settingBits_within low)
  · rw [Function.update_of_ne (Ne.symm same), Function.update_of_ne same, Function.update_comm same]

theorem commute_of_settable {ch' : Nat} {timeoutUs' : U32} (alloc : s.allocated ch)
    (alloc' : s.allocated ch') (defined : Settable clk ch timeoutUs)
    (defined' : Settable clk ch' timeoutUs') (other : ch ≠ ch') :
    s.Commute clk ch timeoutUs ch' timeoutUs' := by
  refine ⟨(s.afterSet clk ch timeoutUs).afterSet clk ch' timeoutUs', ?_, ?_⟩
  · have first : s.timeoutDone clk ch timeoutUs = some (s.afterSet clk ch timeoutUs) := by
      rw [timeoutDone_eq alloc, if_pos defined]
    rw [first, Option.bind_some, timeoutDone_eq ((timeoutDone_allocated alloc first).mpr alloc'),
      if_pos defined']
  · have first : s.timeoutDone clk ch' timeoutUs' = some (s.afterSet clk ch' timeoutUs') := by
      rw [timeoutDone_eq alloc', if_pos defined']
    rw [first, Option.bind_some, timeoutDone_eq ((timeoutDone_allocated alloc' first).mpr alloc),
      if_pos defined, afterSet_comm defined defined' other]

theorem timeout_framed_iff {ch' : Nat} {timeoutUs' : U32} (alloc : s.allocated ch)
    (alloc' : s.allocated ch') (other : ch ≠ ch') :
    s.Framed clk ch timeoutUs ∧ s.Framed clk ch' timeoutUs' ∧
        s.Commute clk ch timeoutUs ch' timeoutUs' ↔
      Settable clk ch timeoutUs ∧ Settable clk ch' timeoutUs' := by
  constructor
  · rintro ⟨⟨t, done, -⟩, ⟨t', done', -⟩, -⟩
    rw [timeoutDone_eq alloc] at done
    rw [timeoutDone_eq alloc'] at done'
    refine ⟨?_, ?_⟩
    · by_contra undefined
      rw [if_neg undefined] at done
      cases done
    · by_contra undefined
      rw [if_neg undefined] at done'
      cases done'
  · rintro ⟨defined, defined'⟩
    exact ⟨framed_of_settable alloc defined, framed_of_settable alloc' defined',
      commute_of_settable alloc alloc' defined defined' other⟩

/-- All channels of the first controller are taken, none of the second. -/
def firstBusy : PdmaTimed where
  toPdmaState := { PdmaState.powerOn with
    inited := true
    chnMask := fun j => if j = 0 then ~~~0 else ~~~pdmaChMsk }
  timeoutRegs := fun _ _ => 0

theorem firstBusy_framed : firstBusy.Framed 180000000 0 1000 ∧ firstBusy.Framed 180000000 1 0 ∧
    firstBusy.Commute 180000000 0 1000 1 0 :=
  (timeout_framed_iff (by decide) (by decide) (by decide)).mpr (by decide)

/-- The prescaler of the ninth channel is shifted out of its register: at best it is not written. -/
theorem channel_eight_not_framed : firstBusy.allocated 8 ∧ firstBusy.allocated 0 ∧
    ¬(firstBusy.Framed 180000000 8 100000 ∧ firstBusy.Framed 180000000 0 100000 ∧
      firstBusy.Commute 180000000 8 100000 0 100000) ∧
    (timeoutChoice 180000000 100000).1 = 1 ∧
    prescaler (pdmaTimeoutOn 180000000 100000 (firstBusy.timeoutRegs 0) 8).val 8 = 0 := by
  have alloc : firstBusy.allocated 8 := by decide
  refine ⟨alloc, by decide, ?_, by decide, by decide⟩
  rintro ⟨⟨t, done, -⟩, -⟩
  rw [timeoutDone_eq alloc, if_neg (by decide)] at done
  cases done

end PdmaTimed

end NuMakerMA35
