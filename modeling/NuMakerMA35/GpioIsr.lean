import NuMakerMA35.GpioTable

namespace NuMakerMA35

variable {H A : Type}

/-- How far a port's `nu_gpio_isr` has come: `left` is the `irq_status` of `pin_irq_hdr`. -/
inductive IsrPhase where
  | idle
  | serving (status left : U32)
  deriving DecidableEq

/-- An edge on an attached and enabled pin, or the start of a pin's handler. -/
inductive PinMark (H A : Type) where
  | edge (pin : U32)
  | call (pin : U32) (hdr : H × Option A)

/-- The ports with their interrupt routines under way; the last mark comes first. -/
structure IsrRun (H A : Type) where
  gpio : NuGpio H A
  phase : Nat → IsrPhase
  marks : List (PinMark H A)

inductive IsrEvent where
  | edge (pin : U32) (kind : PinEvent)
  | isr (port : Fin nuPortCnt)

def NuGpio.serves (g : NuGpio H A) (pin : U32) (kind : PinEvent) : Bool :=
  (g.pinHdr pin).isSome && !g.masked (nuGetPort pin).toNat &&
    (g.port (nuGetPort pin).toNat).raises (nuGetPins pin).toNat kind

def IsrRun.setPhase (s : IsrRun H A) (port : Nat) (phase : IsrPhase) : IsrRun H A :=
  { s with phase := Function.update s.phase port phase }

def pinMark (g : NuGpio H A) (pin : U32) : List (PinMark H A) :=
  ((g.pinHdr pin).map fun hdr => PinMark.call pin hdr).toList

def IsrRun.isr (s : IsrRun H A) (port : Nat) : IsrRun H A :=
  match s.phase port with
  | .idle =>
    if s.gpio.masked port = false ∧ (s.gpio.port port).intsrc ≠ 0 then
      s.setPhase port (.serving (s.gpio.port port).intsrc (s.gpio.port port).intsrc)
    else s
  | .serving status left =>
    if nuCtz left < gpioPinMax then
      { s.setPhase port (.serving status (left &&& ~~~((1 : U32) <<< nuCtz left))) with
        marks := pinMark s.gpio (BitVec.ofNat 32 (port * gpioPinMax + nuCtz left)) ++ s.marks }
    else
      { s.setPhase port .idle with
        gpio := s.gpio.setPort port ((s.gpio.port port).clearSrc status) }

def IsrRun.turn (s : IsrRun H A) (port : Fin nuPortCnt) : IsrRun H A := s.isr port

def IsrRun.step (s : IsrRun H A) : IsrEvent → IsrRun H A
  | .edge pin kind =>
    let port := (nuGetPort pin).toNat
    { s with
      gpio := s.gpio.setPort port ((s.gpio.port port).event (nuGetPins pin).toNat kind)
      marks := if s.gpio.serves pin kind then .edge pin :: s.marks else s.marks }
  | .isr port => s.turn port

/-- Some edge on the pin has no call of its handler after it. -/
def Owes (marks : List (PinMark H A)) (pin : U32) : Prop :=
  ∃ after before, marks = after ++ .edge pin :: before ∧ ∀ hdr, PinMark.call pin hdr ∉ after

/-- The turns a port's routine takes at most until it has served all flags. -/
def isrTurns : Nat := 35

/-- When the routines go on and no further edge comes, each edge is followed by its handler. -/
def IsrRun.Followed (s : IsrRun H A) : Prop :=
  ∀ turns : List (Fin nuPortCnt), (∀ port, isrTurns ≤ turns.count port) →
    ∀ pin, OfPort pin → ¬Owes (turns.foldl IsrRun.turn s).marks pin

/-- No served edge comes between the start of the pin's handler and the clearing of the flags. -/
def IsrRun.Meets (s : IsrRun H A) : IsrEvent → Prop
  | .edge pin kind => s.gpio.serves pin kind = true →
    ∀ status left, s.phase (nuGetPort pin).toNat = .serving status left →
      status.getLsbD (nuGetPins pin).toNat = true → left.getLsbD (nuGetPins pin).toNat = true
  | .isr _ => True

def IsrRun.OnPins (_ : IsrRun H A) : IsrEvent → Prop
  | .edge pin _ => OfPort pin
  | .isr _ => True

section Marks

variable {marks : List (PinMark H A)} {pin q : U32} {hdr : H × Option A}

theorem owes_nil : ¬Owes ([] : List (PinMark H A)) pin := by
  rintro ⟨after, before, none, -⟩
  simp at none

theorem owes_edge : Owes (.edge q :: marks) pin ↔ q = pin ∨ Owes marks pin := by
  constructor
  · rintro ⟨after, before, split, none⟩
    cases after with
    | nil =>
      left
      simpa using (List.cons.inj split).1
    | cons mark after =>
      right
      exact ⟨after, before, (List.cons.inj split).2, fun hdr here => none hdr (List.mem_cons_of_mem _ here)⟩
  · rintro (rfl | ⟨after, before, rfl, none⟩)
    · exact ⟨[], marks, rfl, by simp⟩
    · exact ⟨.edge q :: after, before, rfl, by simpa using none⟩

theorem owes_call : Owes (.call q hdr :: marks) pin ↔ q ≠ pin ∧ Owes marks pin := by
  constructor
  · rintro ⟨after, before, split, none⟩
    cases after with
    | nil => cases (List.cons.inj split).1
    | cons mark after =>
      obtain ⟨rfl, rfl⟩ := List.cons.inj split
      refine ⟨?_, after, before, rfl, fun hdr here => none hdr (List.mem_cons_of_mem _ here)⟩
      rintro rfl
      exact none hdr List.mem_cons_self
  · rintro ⟨other, after, before, rfl, none⟩
    refine ⟨.call q hdr :: after, before, rfl, ?_⟩
    intro mark here
    rcases List.mem_cons.mp here with same | here
    · cases same
      exact other rfl
    · exact none mark here

theorem owes_pinMark (g : NuGpio H A) (q pin : U32) :
    Owes (pinMark g q ++ marks) pin ↔ (g.pinHdr q = none ∨ q ≠ pin) ∧ Owes marks pin := by
  unfold pinMark
  cases g.pinHdr q with
  | none => simp
  | some hdr => simp [owes_call]

end Marks

section Turns

variable {s : IsrRun H A} {pin : U32}

/-- The pin's flag is set, or its handler is still to be called for the flags read, and the flag
is not among those to be cleared after its handler. -/
def IsrRun.due (s : IsrRun H A) (pin : U32) : Bool :=
  let flag := (s.gpio.port (nuGetPort pin).toNat).intsrc.getLsbD (nuGetPins pin).toNat
  match s.phase (nuGetPort pin).toNat with
  | .idle => flag
  | .serving status left =>
    left.getLsbD (nuGetPins pin).toNat || (flag && !status.getLsbD (nuGetPins pin).toNat)

theorem IsrRun.turn_table (s : IsrRun H A) (port : Fin nuPortCnt) :
    (s.turn port).gpio.pinHdr = s.gpio.pinHdr ∧ (s.turn port).gpio.masked = s.gpio.masked := by
  unfold IsrRun.turn IsrRun.isr
  cases s.phase port with
  | idle =>
    dsimp only
    split_ifs <;> exact ⟨rfl, rfl⟩
  | serving status left =>
    dsimp only
    split_ifs <;> exact ⟨rfl, rfl⟩

theorem IsrRun.turn_due_ne {port : Fin nuPortCnt} (apart : (nuGetPort pin).toNat ≠ port) :
    (s.turn port).due pin = s.due pin := by
  unfold IsrRun.due IsrRun.turn IsrRun.isr
  cases s.phase port with
  | idle =>
    dsimp only
    split_ifs
    · simp [IsrRun.setPhase, Function.update_of_ne apart]
    · rfl
  | serving status left =>
    dsimp only
    split_ifs
    · simp [IsrRun.setPhase, Function.update_of_ne apart]
    · simp [IsrRun.setPhase, NuGpio.setPort, Function.update_of_ne apart]

theorem IsrRun.turn_cases (s : IsrRun H A) (of : OfPort pin) (port : Fin nuPortCnt) :
    ((Owes (s.turn port).marks pin ↔ Owes s.marks pin) ∧ (s.turn port).due pin = s.due pin) ∨
      (s.due pin = true ∧ (s.turn port).marks = pinMark s.gpio pin ++ s.marks) := by
  by_cases here : (nuGetPort pin).toNat = port
  · cases phase : s.phase port with
    | idle =>
      left
      unfold IsrRun.due IsrRun.turn IsrRun.isr
      simp only [phase, here]
      split_ifs
      · simp [IsrRun.setPhase]
      · simp [phase]
    | serving status left =>
      unfold IsrRun.due IsrRun.turn IsrRun.isr
      simp only [phase, here]
      split_ifs with more
      · have bound : nuCtz left < 32 := lt_of_lt_of_le more (by decide)
        have ne : left ≠ 0 := by
          rintro rfl
          exact absurd bound (by decide)
        have set := (nuCtz_of_ne_zero ne).2.1
        by_cases own : (nuGetPins pin).toNat = nuCtz left
        · right
          refine ⟨by rw [own, set]; rfl, ?_⟩
          rw [← own, ← here, pin_of_port of]
        · left
          have apart : BitVec.ofNat 32 (port * gpioPinMax + nuCtz left) ≠ pin := by
            rintro rfl
            exact own (port_of_pin port.isLt more).2.2
          refine ⟨?_, ?_⟩
          · rw [owes_pinMark]
            simp [apart]
          · simp only [IsrRun.setPhase, Function.update_self, clearBit_getLsbD left bound]
            simp [own]
      · left
        have clear : left.getLsbD (nuGetPins pin).toNat = false := by
          have small := nuGetPins_lt pin
          by_cases zero : left = 0
          · rw [zero]
            simp
          · exact (nuCtz_of_ne_zero zero).2.2 _ (by unfold gpioPinMax at more; omega)
        have inside : (nuGetPins pin).toNat < 32 := by
          have small := nuGetPins_lt pin
          omega
        refine ⟨Iff.rfl, ?_⟩
        simp only [IsrRun.setPhase, NuGpio.setPort, Function.update_self, GpioT.clearSrc,
          BitVec.getLsbD_and, BitVec.getLsbD_not, clear, inside, decide_true, Bool.true_and,
          Bool.false_or]
  · left
    refine ⟨?_, IsrRun.turn_due_ne here⟩
    unfold IsrRun.turn IsrRun.isr
    cases s.phase port with
    | idle =>
      dsimp only
      split_ifs <;> rfl
    | serving status left =>
      dsimp only
      split_ifs with more
      · have apart : BitVec.ofNat 32 (port * gpioPinMax + nuCtz left) ≠ pin := by
          rintro rfl
          exact here (port_of_pin port.isLt more).2.1
        simp [owes_pinMark, apart]
      · rfl

def IsrRun.Sound (s : IsrRun H A) : Prop :=
  ∀ pin, OfPort pin → Owes s.marks pin → s.gpio.pinHdr pin ≠ none ∧
    s.gpio.masked (nuGetPort pin).toNat = false ∧ s.due pin = true

theorem IsrRun.Sound.turn (sound : s.Sound) (port : Fin nuPortCnt) : (s.turn port).Sound := by
  obtain ⟨hdr, masked⟩ := s.turn_table port
  intro pin of owes
  rw [hdr, masked]
  rcases s.turn_cases of port with ⟨same, due⟩ | ⟨-, marks⟩
  · rw [due]
    exact sound pin of (same.mp owes)
  · rw [marks, owes_pinMark] at owes
    obtain ⟨none | other, before⟩ := owes
    · exact absurd none (sound pin of before).1
    · exact absurd rfl other

def IsrRun.Lost (s : IsrRun H A) (pin : U32) : Prop := Owes s.marks pin ∧ s.due pin = false

theorem IsrRun.Lost.turn (lost : s.Lost pin) (of : OfPort pin) (port : Fin nuPortCnt) :
    (s.turn port).Lost pin := by
  obtain ⟨owes, out⟩ := lost
  rcases s.turn_cases of port with ⟨same, due⟩ | ⟨due, -⟩
  · exact ⟨same.mpr owes, due.trans out⟩
  · rw [out] at due
    cases due

theorem IsrRun.Lost.turns (lost : s.Lost pin) (of : OfPort pin) (turns : List (Fin nuPortCnt)) :
    (turns.foldl IsrRun.turn s).Lost pin := by
  induction turns generalizing s with
  | nil => exact lost
  | cons port turns ih => exact ih (lost.turn of port)

/-- A bound for the turns until a port has no flag and its routine has returned. -/
def portRank (intsrc : U32) : IsrPhase → Nat
  | .idle => if intsrc = 0 then 0 else 18
  | .serving status left => setBits gpioPinMax left + 1 + if intsrc &&& ~~~status = 0 then 0 else 18

def IsrRun.rank (port : Nat) (s : IsrRun H A) : Nat := portRank (s.gpio.port port).intsrc (s.phase port)

theorem portRank_le (intsrc : U32) (phase : IsrPhase) : portRank intsrc phase ≤ isrTurns := by
  unfold isrTurns
  cases phase with
  | idle =>
    simp only [portRank]
    split_ifs <;> omega
  | serving status left =>
    have few : setBits gpioPinMax left ≤ 16 := setBits_le gpioPinMax left
    simp only [portRank]
    split_ifs <;> omega

theorem IsrRun.turn_rank {port : Fin nuPortCnt} (masked : s.gpio.masked port = false) :
    (s.turn port).rank port ≤ s.rank port - 1 := by
  unfold IsrRun.rank IsrRun.turn IsrRun.isr
  cases phase : s.phase port with
  | idle =>
    by_cases none : (s.gpio.port port).intsrc = 0
    · simp [phase, none, portRank]
    · have few : setBits gpioPinMax (s.gpio.port port).intsrc ≤ 16 := setBits_le gpioPinMax _
      simp only [masked, none, ne_eq, not_false_eq_true, and_self, if_true, IsrRun.setPhase,
        Function.update_self, portRank, if_false, BitVec.and_not_self]
      omega
  | serving status left =>
    by_cases more : nuCtz left < gpioPinMax
    · have fewer := setBits_clear (by decide) more
      simp only [more, if_true, IsrRun.setPhase, Function.update_self, portRank]
      omega
    · simp only [more, if_false, IsrRun.setPhase, NuGpio.setPort, Function.update_self,
        GpioT.clearSrc, portRank]
      omega

theorem IsrRun.turn_rank_ne {port other : Fin nuPortCnt} (apart : other ≠ port) :
    (s.turn other).rank port ≤ s.rank port := by
  have ne : (port : Nat) ≠ other := fun same => apart (Fin.ext same.symm)
  apply le_of_eq
  unfold IsrRun.rank IsrRun.turn IsrRun.isr
  cases s.phase other with
  | idle =>
    dsimp only
    split_ifs <;> simp only [IsrRun.setPhase, Function.update_of_ne ne]
  | serving status left =>
    dsimp only
    split_ifs <;> simp only [IsrRun.setPhase, NuGpio.setPort, Function.update_of_ne ne]

theorem IsrRun.not_due_of_rank (none : s.rank (nuGetPort pin).toNat = 0) : s.due pin = false := by
  unfold IsrRun.rank at none
  unfold IsrRun.due
  cases phase : s.phase (nuGetPort pin).toNat with
  | idle =>
    rw [phase, portRank] at none
    split_ifs at none with clear
    simp [clear]
  | serving status left =>
    rw [phase, portRank] at none
    omega

theorem IsrRun.Sound.turns (sound : s.Sound) (turns : List (Fin nuPortCnt)) :
    (turns.foldl IsrRun.turn s).Sound := by
  induction turns generalizing s with
  | nil => exact sound
  | cons port turns ih => exact ih (sound.turn port)

theorem IsrRun.turns_masked (s : IsrRun H A) (turns : List (Fin nuPortCnt)) :
    (turns.foldl IsrRun.turn s).gpio.masked = s.gpio.masked := by
  induction turns generalizing s with
  | nil => rfl
  | cons port turns ih => exact (ih (s.turn port)).trans (s.turn_table port).2

theorem IsrRun.Sound.followed (sound : s.Sound) : s.Followed := by
  intro turns enough pin of owes
  obtain ⟨-, masked, due⟩ := sound.turns turns pin of owes
  have inside : (nuGetPort pin).toNat < nuPortCnt := by
    rw [nuGetPort_toNat of]
    unfold OfPort nuPortCnt gpioPinMax at *
    omega
  rw [s.turns_masked] at masked
  have used := Runs.rank_le_of_turns IsrRun.turn
    (fun t : IsrRun H A => t.gpio.masked (nuGetPort pin).toNat = false)
    (IsrRun.rank (nuGetPort pin).toNat) ⟨_, inside⟩
    (fun t port here => by rw [(t.turn_table port).2]; exact here)
    (fun t here => IsrRun.turn_rank here) (fun t port _ apart => IsrRun.turn_rank_ne apart) turns masked
  have most := portRank_le (s.gpio.port (nuGetPort pin).toNat).intsrc (s.phase (nuGetPort pin).toNat)
  have taken := enough ⟨_, inside⟩
  rw [IsrRun.not_due_of_rank (by unfold IsrRun.rank at used ⊢; omega)] at due
  cases due

theorem IsrRun.Lost.not_followed (lost : s.Lost pin) (of : OfPort pin) : ¬s.Followed := by
  intro followed
  have enough : ∀ port : Fin nuPortCnt, isrTurns ≤
      ((List.replicate isrTurns (List.finRange nuPortCnt)).flatten).count port := by
    decide +kernel
  exact followed _ enough pin of (lost.turns of _).1

end Turns

section Edges

variable {s : IsrRun H A} {pin q : U32} {kind : PinEvent}

theorem GpioT.event_flag (r : GpioT) {n : Nat} (small : n < 16) (kind : PinEvent) (m : Nat) :
    (r.event n kind).intsrc.getLsbD m =
      (r.intsrc.getLsbD m || (r.raises n kind && decide (m = n))) := by
  unfold GpioT.event
  split_ifs with raises
  · rw [setBit_getLsbD _ (by omega), raises, Bool.true_and]
  · rw [Bool.eq_false_of_not_eq_true raises, Bool.false_and, Bool.or_false]

theorem IsrRun.edge_flag (s : IsrRun H A) (pin : U32) (kind : PinEvent) (q : U32) :
    ((s.step (.edge pin kind)).gpio.port (nuGetPort q).toNat).intsrc.getLsbD (nuGetPins q).toNat =
      ((s.gpio.port (nuGetPort q).toNat).intsrc.getLsbD (nuGetPins q).toNat ||
        (decide ((nuGetPort q).toNat = (nuGetPort pin).toNat) &&
          ((s.gpio.port (nuGetPort pin).toNat).raises (nuGetPins pin).toNat kind &&
            decide ((nuGetPins q).toNat = (nuGetPins pin).toNat)))) := by
  simp only [IsrRun.step, NuGpio.setPort]
  by_cases port : (nuGetPort q).toNat = (nuGetPort pin).toNat
  · rw [port, Function.update_self, GpioT.event_flag _ (nuGetPins_lt pin), decide_eq_true rfl,
      Bool.true_and]
  · rw [Function.update_of_ne port, decide_eq_false port, Bool.false_and, Bool.or_false]

theorem IsrRun.edge_due_mono (due : s.due q = true) : (s.step (.edge pin kind)).due q = true := by
  have phase : (s.step (.edge pin kind)).phase = s.phase := rfl
  unfold IsrRun.due at due ⊢
  simp only [s.edge_flag pin kind q, phase]
  cases here : s.phase (nuGetPort q).toNat with
  | idle =>
    simp only [here] at due ⊢
    rw [due, Bool.true_or]
  | serving status left =>
    simp only [here, Bool.or_eq_true, Bool.and_eq_true] at due ⊢
    rcases due with left | ⟨flag, status⟩
    · exact .inl left
    · exact .inr ⟨.inl flag, status⟩

theorem IsrRun.edge_due (serves : s.gpio.serves pin kind = true) :
    (s.step (.edge pin kind)).due pin = true ↔
      ∀ status left, s.phase (nuGetPort pin).toNat = .serving status left →
        status.getLsbD (nuGetPins pin).toNat = true →
          left.getLsbD (nuGetPins pin).toNat = true := by
  have phase : (s.step (.edge pin kind)).phase = s.phase := rfl
  have raises : (s.gpio.port (nuGetPort pin).toNat).raises (nuGetPins pin).toNat kind = true := by
    unfold NuGpio.serves at serves
    exact (Bool.and_eq_true _ _ ▸ serves).2
  unfold IsrRun.due
  simp only [s.edge_flag pin kind pin, phase, raises, decide_true, Bool.and_self, Bool.or_true,
    Bool.true_and]
  cases here : s.phase (nuGetPort pin).toNat with
  | idle => simp
  | serving status left =>
    simp only [IsrPhase.serving.injEq, Bool.or_eq_true, Bool.not_eq_true']
    constructor
    · rintro due status' left' ⟨rfl, rfl⟩ set
      rcases due with left | clear
      · exact left
      · rw [set] at clear
        cases clear
    · intro meets
      cases set : status.getLsbD (nuGetPins pin).toNat with
      | false => exact .inr rfl
      | true => exact .inl (meets status left ⟨rfl, rfl⟩ set)

theorem IsrRun.edge_owes (s : IsrRun H A) (pin : U32) (kind : PinEvent) (q : U32) :
    Owes (s.step (.edge pin kind)).marks q ↔
      (s.gpio.serves pin kind = true ∧ pin = q) ∨ Owes s.marks q := by
  simp only [IsrRun.step]
  split_ifs with serves
  · simp [owes_edge, serves]
  · simp [serves]

theorem IsrRun.Sound.edge (sound : s.Sound) (meets : s.Meets (.edge pin kind)) :
    (s.step (.edge pin kind)).Sound := by
  intro q of owes
  have hdr : (s.step (.edge pin kind)).gpio.pinHdr q = s.gpio.pinHdr q := rfl
  have masked : (s.step (.edge pin kind)).gpio.masked = s.gpio.masked := rfl
  rw [hdr, masked]
  rcases (s.edge_owes pin kind q).mp owes with ⟨serves, rfl⟩ | before
  · refine ⟨?_, ?_, (IsrRun.edge_due serves).mpr (meets serves)⟩
    · intro none
      rw [NuGpio.serves, none] at serves
      simp at serves
    · unfold NuGpio.serves at serves
      simp only [Bool.and_eq_true, Bool.not_eq_true'] at serves
      exact serves.1.2
  · obtain ⟨some, open', due⟩ := sound q of before
    exact ⟨some, open', IsrRun.edge_due_mono due⟩

theorem IsrRun.edge_lost (of : OfPort pin) (late : ¬s.Meets (.edge pin kind)) :
    ¬(s.step (.edge pin kind)).Followed := by
  simp only [IsrRun.Meets, Classical.not_imp] at late
  obtain ⟨serves, late⟩ := late
  rw [← IsrRun.edge_due serves, Bool.not_eq_true] at late
  exact IsrRun.Lost.not_followed ⟨(s.edge_owes pin kind pin).mpr (.inl ⟨serves, rfl⟩), late⟩ of

end Edges

/-- Every edge is followed by its handler, from every state of a run on, exactly when no edge of
the run comes between the start of its pin's handler and the clearing of the flags. -/
theorem gpio_edges_followed_iff (gpio : NuGpio H A) (events : List IsrEvent)
    (on : Runs.StepsMeet IsrRun.step IsrRun.OnPins ⟨gpio, fun _ => .idle, []⟩ events) :
    (∀ pre, pre <+: events → (pre.foldl IsrRun.step ⟨gpio, fun _ => .idle, []⟩).Followed) ↔
      Runs.StepsMeet IsrRun.step IsrRun.Meets ⟨gpio, fun _ => .idle, []⟩ events := by
  refine Runs.prefixes_hold_iff_of_allowed IsrRun.Sound IsrRun.Followed (fun s sound => sound.followed)
    ?_ ?_ ?_ events on
  · intro s event sound on
    cases event with
    | edge pin kind =>
      constructor
      · intro followed
        by_contra late
        exact IsrRun.edge_lost on late followed
      · intro meets
        exact (sound.edge meets).followed
    | isr port => exact ⟨fun _ => trivial, fun _ => (sound.turn port).followed⟩
  · intro s event sound _ meets
    cases event with
    | edge pin kind => exact sound.edge meets
    | isr port => exact sound.turn port
  · intro pin _ owes
    exact absurd owes owes_nil

def nuPa : Fin nuPortCnt := ⟨0, by decide⟩

def risingGpio : NuGpio Unit Unit :=
  ((NuGpio.rtHwGpioInit.nuGpioAttachIrq 0 pinIrqModeRising (some ()) none).1.nuGpioIrqEnable 0
    pinIrqEnable).1

def oneEdge : List IsrEvent := [.edge 0 .rising, .isr nuPa, .isr nuPa, .isr nuPa]

theorem risingGpio_followed :
    (oneEdge.foldl IsrRun.step ⟨risingGpio, fun _ => .idle, []⟩).Followed := by
  refine (gpio_edges_followed_iff risingGpio oneEdge ?_).mpr ?_ oneEdge (List.prefix_refl _)
  · simp only [oneEdge, Runs.stepsMeet_cons, IsrRun.OnPins]
    refine ⟨by decide, trivial, trivial, trivial, ?_⟩
    intro pre e none
    simp at none
  · simp only [oneEdge, Runs.stepsMeet_cons, IsrRun.Meets]
    refine ⟨?_, trivial, trivial, trivial, ?_⟩
    · intro _ status left phase
      cases phase
    · intro pre e none
      simp at none

def secondEdge : List IsrEvent := [.edge 0 .rising, .isr nuPa, .isr nuPa, .edge 0 .rising]

theorem secondEdge_lost :
    Runs.StepsMeet IsrRun.step IsrRun.OnPins ⟨risingGpio, fun _ => .idle, []⟩ secondEdge ∧
      ¬(secondEdge.foldl IsrRun.step ⟨risingGpio, fun _ => .idle, []⟩).Followed := by
  refine ⟨?_, IsrRun.edge_lost (by decide) ?_⟩
  · simp only [secondEdge, Runs.stepsMeet_cons, IsrRun.OnPins]
    refine ⟨by decide, trivial, trivial, by decide, ?_⟩
    intro pre e none
    simp at none
  · intro meets
    have left := meets (by decide) 1 0 (by decide) (by decide)
    exact absurd left (by decide)

end NuMakerMA35
