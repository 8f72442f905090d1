import NuMakerMA35.Gpio

namespace NuMakerMA35

variable {H A : Type}

def OfPort (pin : U32) : Prop := pin.toNat < nuPortCnt * gpioPinMax

instance (pin : U32) : Decidable (OfPort pin) :=
  inferInstanceAs (Decidable (pin.toNat < nuPortCnt * gpioPinMax))

section Numbers

variable {p q : U32}

theorem nuGetPort_toNat (of : OfPort p) : (nuGetPort p).toNat = p.toNat / 16 := by
  unfold OfPort nuPortCnt gpioPinMax at of
  rw [nuGetPort, BitVec.toNat_and, BitVec.toNat_ushiftRight,
    show (0xf : U32).toNat = 2 ^ 4 - 1 from rfl, Nat.and_two_pow_sub_one_eq_mod, Nat.shiftRight_eq_div_pow]
  omega

theorem nuGetPins_toNat (p : U32) : (nuGetPins p).toNat = p.toNat % 16 := by
  rw [nuGetPins, BitVec.toNat_and, show (0xf : U32).toNat = 2 ^ 4 - 1 from rfl,
    Nat.and_two_pow_sub_one_eq_mod]

theorem nuGetPins_lt (p : U32) : (nuGetPins p).toNat < 16 := by
  rw [nuGetPins_toNat]
  omega

theorem nuPortCheck_ofPort (of : OfPort p) : nuPortCheck p = rtEok := by
  rw [nuPortCheck, nuGetPort_toNat of, if_neg]
  unfold OfPort nuPortCnt gpioPinMax at *
  omega

theorem pin_of_port (of : OfPort p) :
    BitVec.ofNat 32 ((nuGetPort p).toNat * gpioPinMax + (nuGetPins p).toNat) = p := by
  apply BitVec.eq_of_toNat_eq
  rw [nuGetPort_toNat of, nuGetPins_toNat, BitVec.toNat_ofNat]
  unfold gpioPinMax
  omega

theorem port_of_pin {port n : Nat} (inside : port < nuPortCnt) (small : n < gpioPinMax) :
    OfPort (BitVec.ofNat 32 (port * gpioPinMax + n)) ∧
      (nuGetPort (BitVec.ofNat 32 (port * gpioPinMax + n))).toNat = port ∧
      (nuGetPins (BitVec.ofNat 32 (port * gpioPinMax + n))).toNat = n := by
  unfold nuPortCnt gpioPinMax at *
  have value : (BitVec.ofNat 32 (port * 16 + n)).toNat = port * 16 + n := by
    rw [BitVec.toNat_ofNat]
    omega
  have of : OfPort (BitVec.ofNat 32 (port * 16 + n)) := by
    unfold OfPort nuPortCnt gpioPinMax
    omega
  rw [nuGetPort_toNat of, nuGetPins_toNat, value]
  exact ⟨of, by omega, by omega⟩

theorem nuGetPins_ne (of : OfPort p) (other : OfPort q) (port : nuGetPort q = nuGetPort p)
    (apart : q ≠ p) : (nuGetPins q).toNat ≠ (nuGetPins p).toNat := by
  intro same
  apply apart
  rw [← pin_of_port of, ← pin_of_port other, port, same]

theorem stored_pin (of : OfPort p) : (p.setWidth 16).signExtend 32 = p := by
  unfold OfPort nuPortCnt gpioPinMax at of
  apply BitVec.eq_of_toNat_eq
  have value : (p.setWidth 16).toNat = p.toNat := by
    rw [BitVec.toNat_setWidth]
    omega
  have positive : (p.setWidth 16).msb = false := by
    rw [BitVec.msb_eq_decide, value]
    exact decide_eq_false (by omega)
  rw [BitVec.toNat_signExtend, positive, BitVec.toNat_setWidth, value]
  simp
  omega

end Numbers

section Table

variable {g : NuGpio H A} {i j : Nat} {p q : U32}

def NuGpio.Holds (g : NuGpio H A) (i : Nat) (p : U32) : Prop :=
  i < pinIrqMaxNum ∧ g.u32PinIrqMask.getLsbD i = true ∧ (g.pinIrqHdrTab i).pin.signExtend 32 = p

def NuGpio.Single (g : NuGpio H A) : Prop := ∀ i j p, g.Holds i p → g.Holds j p → i = j

theorem NuGpio.find_mem (i : Nat) :
    i ∈ ctzBits pinIrqMaxNum pinIrqMaxNum g.u32PinIrqMask ↔
      i < pinIrqMaxNum ∧ g.u32PinIrqMask.getLsbD i = true :=
  ctzBits_mem_iff (by decide) _ i

theorem NuGpio.find_holds (found : g.nuFindIrqindex p = some i) : g.Holds i p := by
  have here := (g.find_mem i).mp (List.mem_of_find?_eq_some found)
  have pin := List.find?_some found
  exact ⟨here.1, here.2, of_decide_eq_true pin⟩

theorem NuGpio.find_none : g.nuFindIrqindex p = none ↔ ∀ i, ¬g.Holds i p := by
  rw [NuGpio.nuFindIrqindex, List.find?_eq_none]
  constructor
  · intro none i ⟨inside, set, pin⟩
    exact none i ((g.find_mem i).mpr ⟨inside, set⟩) (decide_eq_true pin)
  · intro none i here pin
    obtain ⟨inside, set⟩ := (g.find_mem i).mp here
    exact none i ⟨inside, set, of_decide_eq_true pin⟩

theorem NuGpio.find_eq (single : g.Single) : g.nuFindIrqindex p = some i ↔ g.Holds i p := by
  refine ⟨g.find_holds, ?_⟩
  intro holds
  cases found : g.nuFindIrqindex p with
  | none => exact absurd holds (NuGpio.find_none.mp found i)
  | some j => rw [single j i p (g.find_holds found) holds]

def NuGpio.entry (g : NuGpio H A) (p : U32) : Option (RtPinIrqHdr H A) :=
  (g.nuFindIrqindex p).map g.pinIrqHdrTab

theorem NuGpio.pinHdr_eq (g : NuGpio H A) (p : U32) :
    g.pinHdr p = (g.entry p).bind fun e => e.hdr.map fun hdr => (hdr, e.args) := by
  unfold NuGpio.pinHdr NuGpio.entry
  cases g.nuFindIrqindex p <;> rfl

variable {mode : U32} {hdr : Option H} {args : Option A}

theorem NuGpio.attachAt_holds (inside : i < pinIrqMaxNum) (of : OfPort p) (j : Nat) (q : U32) :
    (g.attachAt i p mode hdr args).Holds j q ↔ (j = i ∧ q = p) ∨ (j ≠ i ∧ g.Holds j q) := by
  have narrow : i < 32 := by
    unfold pinIrqMaxNum at inside
    omega
  unfold NuGpio.Holds NuGpio.attachAt
  simp only [setBit_getLsbD _ narrow]
  by_cases same : j = i
  · subst same
    simp only [Function.update_self, stored_pin of, inside, decide_true, Bool.or_true, true_and,
      ne_eq, not_true_eq_false, false_and, or_false, eq_comm]
  · simp [same, Function.update_of_ne]

theorem NuGpio.detachAt_holds (inside : i < pinIrqMaxNum) (j : Nat) (q : U32) :
    (g.detachAt i).Holds j q ↔ j ≠ i ∧ g.Holds j q := by
  have narrow : i < 32 := by
    unfold pinIrqMaxNum at inside
    omega
  unfold NuGpio.Holds NuGpio.detachAt
  simp only [clearBit_getLsbD _ narrow]
  by_cases same : j = i
  · simp [same]
  · simp [same, Function.update_of_ne]

structure NuGpio.Slot (g : NuGpio H A) (p : U32) (i : Nat) : Prop where
  inside : i < pinIrqMaxNum
  alone : ∀ j, j ≠ i → ¬g.Holds j p
  own : ∀ q, g.Holds i q → q = p

theorem NuGpio.Single.slot (single : g.Single) (holds : g.Holds i p) : g.Slot p i where
  inside := holds.1
  alone := fun j apart other => apart (single j i p other holds)
  own := by
    intro q here
    rw [← here.2.2, holds.2.2]

def NuGpio.Room (g : NuGpio H A) (p : U32) : Prop :=
  (g.nuFindIrqindex p).isSome ∨ nuCto g.u32PinIrqMask < pinIrqMaxNum

variable (mode hdr args) in
theorem NuGpio.attach_cases (single : g.Single) (of : OfPort p) :
    (g.Room p ∧ ∃ i, g.Slot p i ∧
        g.nuGpioAttachIrq p mode hdr args = (g.attachAt i p mode hdr args, rtEok)) ∨
      (¬g.Room p ∧ g.nuGpioAttachIrq p mode hdr args = (g, -rtEbusy)) := by
  have check : ¬nuPortCheck p ≠ rtEok := not_not.mpr (nuPortCheck_ofPort of)
  unfold NuGpio.nuGpioAttachIrq NuGpio.Room
  rw [if_neg check]
  cases found : g.nuFindIrqindex p with
  | some i => exact .inl ⟨.inl rfl, i, single.slot (g.find_holds found), rfl⟩
  | none =>
    by_cases room : nuCto g.u32PinIrqMask < pinIrqMaxNum
    · refine .inl ⟨.inr room, _, ⟨room, fun j _ => NuGpio.find_none.mp found j, ?_⟩, if_pos room⟩
      intro q holds
      obtain ⟨k, inside, zero⟩ := (nuCto_lt_iff g.u32PinIrqMask).mp (by
        unfold pinIrqMaxNum at room
        omega)
      have clear := (nuCto_of_zero_bit inside zero).2.1
      rw [holds.2.1] at clear
      cases clear
    · refine .inr ⟨?_, if_neg room⟩
      rintro (some | low)
      · cases some
      · exact room low

theorem NuGpio.full_of_not_room (full : ¬g.Room p) :
    (∀ i, ¬g.Holds i p) ∧ ∀ i < pinIrqMaxNum, g.u32PinIrqMask.getLsbD i = true := by
  unfold NuGpio.Room at full
  rw [not_or, Option.not_isSome_iff_eq_none] at full
  refine ⟨NuGpio.find_none.mp full.1, ?_⟩
  intro i inside
  by_contra zero
  rw [Bool.not_eq_true] at zero
  have first := (nuCto_of_zero_bit (by unfold pinIrqMaxNum at inside; omega) zero).1
  omega

theorem NuGpio.Slot.single (slot : g.Slot p i) (of : OfPort p) (single : g.Single) :
    (g.attachAt i p mode hdr args).Single := by
  intro j k q first second
  rw [NuGpio.attachAt_holds slot.inside of] at first second
  rcases first with ⟨rfl, rfl⟩ | ⟨off, first⟩
  · rcases second with ⟨rfl, -⟩ | ⟨off, second⟩
    · rfl
    · exact absurd second (slot.alone k off)
  · rcases second with ⟨rfl, rfl⟩ | ⟨-, second⟩
    · exact absurd first (slot.alone j off)
    · exact single j k q first second

theorem NuGpio.entry_eq_some (single : g.Single) {e : RtPinIrqHdr H A} :
    g.entry p = some e ↔ ∃ i, g.Holds i p ∧ g.pinIrqHdrTab i = e := by
  unfold NuGpio.entry
  rw [Option.map_eq_some_iff]
  simp only [NuGpio.find_eq single]

theorem NuGpio.Slot.entry (slot : g.Slot p i) (of : OfPort p) (single : g.Single) (q : U32) :
    (g.attachAt i p mode hdr args).entry q =
      if q = p then some ⟨p.setWidth 16, mode.setWidth 16, hdr, args⟩ else g.entry q := by
  apply Option.ext
  intro e
  rw [NuGpio.entry_eq_some (slot.single of single)]
  simp only [NuGpio.attachAt_holds slot.inside of]
  split_ifs with same
  · subst same
    constructor
    · rintro ⟨j, ⟨rfl, -⟩ | ⟨off, holds⟩, rfl⟩
      · simp [NuGpio.attachAt]
      · exact absurd holds (slot.alone j off)
    · intro new
      cases new
      exact ⟨i, .inl ⟨rfl, rfl⟩, by simp [NuGpio.attachAt]⟩
  · rw [NuGpio.entry_eq_some single]
    constructor
    · rintro ⟨j, ⟨-, rfl⟩ | ⟨off, holds⟩, rfl⟩
      · exact absurd rfl same
      · exact ⟨j, holds, by simp [NuGpio.attachAt, off]⟩
    · rintro ⟨j, holds, rfl⟩
      have off : j ≠ i := by
        rintro rfl
        exact same (slot.own q holds)
      exact ⟨j, .inr ⟨off, holds⟩, by simp [NuGpio.attachAt, off]⟩

theorem NuGpio.detachAt_single (single : g.Single) (inside : i < pinIrqMaxNum) :
    (g.detachAt i).Single := by
  intro j k q first second
  rw [NuGpio.detachAt_holds inside] at first second
  exact single j k q first.2 second.2

theorem NuGpio.detachAt_entry (single : g.Single) (holds : g.Holds i p) (q : U32) :
    (g.detachAt i).entry q = if q = p then none else g.entry q := by
  have slot := single.slot holds
  apply Option.ext
  intro e
  rw [NuGpio.entry_eq_some (NuGpio.detachAt_single single holds.1)]
  simp only [NuGpio.detachAt_holds holds.1]
  split_ifs with same
  · subst same
    constructor
    · rintro ⟨j, ⟨off, other⟩, -⟩
      exact absurd other (slot.alone j off)
    · intro none
      cases none
  · rw [NuGpio.entry_eq_some single]
    constructor
    · rintro ⟨j, ⟨off, other⟩, rfl⟩
      exact ⟨j, other, by simp [NuGpio.detachAt, off]⟩
    · rintro ⟨j, other, rfl⟩
      have off : j ≠ i := by
        rintro rfl
        exact same (slot.own q other)
      exact ⟨j, ⟨off, other⟩, by simp [NuGpio.detachAt, off]⟩

def NuGpio.pinAt (g : NuGpio H A) (i : Nat) : U32 := (g.pinIrqHdrTab i).pin.signExtend 32

theorem NuGpio.pinAt_injOn (single : g.Single)
    (full : ∀ i < pinIrqMaxNum, g.u32PinIrqMask.getLsbD i = true) :
    Set.InjOn g.pinAt (Finset.range pinIrqMaxNum) := by
  intro i first j second same
  have inside := Finset.mem_range.mp (Finset.mem_coe.mp first)
  have other := Finset.mem_range.mp (Finset.mem_coe.mp second)
  exact single i j _ ⟨inside, full i inside, rfl⟩ ⟨other, full j other, same.symm⟩

end Table

end NuMakerMA35
