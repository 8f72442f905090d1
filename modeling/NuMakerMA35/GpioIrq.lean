import NuMakerMA35.GpioTable

namespace NuMakerMA35

variable {H A : Type}

structure PinAttach (H A : Type) where
  mode : U32
  hdr : Option H
  args : Option A

/-- A pin's last attachment, and whether the last accepted call of `nu_gpio_irq_enable` enabled it. -/
structure PinAsk (H A : Type) where
  attached : Option (PinAttach H A)
  enabled : Bool

inductive PinOp (H A : Type) where
  | attach (pin mode : U32) (hdr : Option H) (args : Option A)
  | detach (pin : U32)
  | irqEnable (pin enabled : U32)
  | event (pin : U32) (kind : PinEvent)

def PinOp.pin : PinOp H A → U32
  | .attach pin _ _ _ => pin
  | .detach pin => pin
  | .irqEnable pin _ => pin
  | .event pin _ => pin

structure PinRun (H A : Type) where
  gpio : NuGpio H A
  ask : U32 → PinAsk H A
  calls : List (H × Option A)
  due : List (H × Option A)

def PinAttach.hdrEntry (x : PinAttach H A) (p : U32) : RtPinIrqHdr H A :=
  ⟨p.setWidth 16, x.mode.setWidth 16, x.hdr, x.args⟩

def PinAsk.wants (a : PinAsk H A) (kind : PinEvent) : Option (H × Option A) :=
  a.attached.bind fun x =>
    if a.enabled && modeKinds x.mode kind then x.hdr.map fun hdr => (hdr, x.args) else none

/-- The port's interrupt is taken where a flag is set and the controller lets it through. -/
def NuGpio.irq (g : NuGpio H A) (port : Nat) : NuGpio H A × List (H × Option A) :=
  if g.masked port = false ∧ (g.port port).intsrc ≠ 0 then g.nuGpioIsr port else (g, [])

def PinRun.serve (s : PinRun H A) (gpio : NuGpio H A) (ask : U32 → PinAsk H A)
    (due : List (H × Option A)) (port : Nat) : PinRun H A :=
  ⟨(gpio.irq port).1, ask, s.calls ++ (gpio.irq port).2, due⟩

def PinRun.step (s : PinRun H A) : PinOp H A → PinRun H A
  | .attach pin mode hdr args =>
    let (gpio, ret) := s.gpio.nuGpioAttachIrq pin mode hdr args
    let ask :=
      if ret = rtEok then
        Function.update s.ask pin { s.ask pin with attached := some ⟨mode, hdr, args⟩ }
      else s.ask
    s.serve gpio ask s.due (nuGetPort pin).toNat
  | .detach pin =>
    let (gpio, ret) := s.gpio.nuGpioDetachIrq pin
    let ask :=
      if ret = rtEok then Function.update s.ask pin { s.ask pin with attached := none } else s.ask
    s.serve gpio ask s.due (nuGetPort pin).toNat
  | .irqEnable pin enabled =>
    let (gpio, ret) := s.gpio.nuGpioIrqEnable pin enabled
    let ask :=
      if ret = rtEok then
        Function.update s.ask pin { s.ask pin with enabled := enabled = pinIrqEnable }
      else s.ask
    s.serve gpio ask s.due (nuGetPort pin).toNat
  | .event pin kind =>
    let port := (nuGetPort pin).toNat
    let gpio := s.gpio.setPort port ((s.gpio.port port).event (nuGetPins pin).toNat kind)
    s.serve gpio s.ask (s.due ++ ((s.ask pin).wants kind).toList) port

def PinRun.start : PinRun H A := ⟨.rtHwGpioInit, fun _ => ⟨none, false⟩, [], []⟩

def PinRun.SixteenOthers (s : PinRun H A) (p : U32) : Prop :=
  ∃ others : Finset U32, others.card = 16 ∧ p ∉ others ∧ ∀ q ∈ others, (s.ask q).attached ≠ none

/-- The calls made are those that were due, also for every event that may come next, and an
attachment fails only where sixteen other pins are attached. -/
structure PinRun.Answers (s : PinRun H A) : Prop where
  made : s.calls = s.due
  next : ∀ p kind, OfPort p → (s.step (.event p kind)).calls = (s.step (.event p kind)).due
  attaches : ∀ p mode hdr args, OfPort p →
    (s.gpio.nuGpioAttachIrq p mode hdr args).2 ≠ rtEok → s.SixteenOthers p

section Sound

def NuGpio.hears (g : NuGpio H A) (p : U32) (kind : PinEvent) : Bool :=
  !g.masked (nuGetPort p).toNat && (g.port (nuGetPort p).toNat).raises (nuGetPins p).toNat kind

def PinAsk.means (a : PinAsk H A) (kind : PinEvent) : Bool :=
  a.enabled && a.attached.any fun x => modeKinds x.mode kind

def PinAsk.handled (a : PinAsk H A) : Bool := a.attached.any fun x => x.hdr.isSome

def NuGpio.latched (g : NuGpio H A) (p : U32) : Bool :=
  (g.port (nuGetPort p).toNat).intsrc.getLsbD (nuGetPins p).toNat

structure PinRun.Tracks (s : PinRun H A) : Prop where
  single : s.gpio.Single
  owned : ∀ i q, s.gpio.Holds i q → OfPort q
  entries : ∀ p, OfPort p → s.gpio.entry p = (s.ask p).attached.map (·.hdrEntry p)
  quiet : ∀ port, s.gpio.masked port = false → (s.gpio.port port).intsrc = 0

def PinRun.Sound (s : PinRun H A) : Prop :=
  ∀ p, OfPort p → (s.ask p).handled = true → ∀ kind, s.gpio.hears p kind = (s.ask p).means kind

variable {s : PinRun H A} {g : NuGpio H A} {p q : U32} {kind : PinEvent}

theorem NuGpio.irq_quiet {port : Nat}
    (quiet : g.masked port = false → (g.port port).intsrc = 0) : g.irq port = (g, []) := by
  rw [NuGpio.irq, if_neg]
  rintro ⟨open', flagged⟩
  exact flagged (quiet open')

theorem NuGpio.irq_fst (g : NuGpio H A) (port : Nat) :
    (g.irq port).1.pinIrqHdrTab = g.pinIrqHdrTab ∧
      (g.irq port).1.u32PinIrqMask = g.u32PinIrqMask ∧ (g.irq port).1.masked = g.masked := by
  unfold NuGpio.irq
  split_ifs <;> exact ⟨rfl, rfl, rfl⟩

theorem NuGpio.irq_raises (g : NuGpio H A) (port other n : Nat) :
    ((g.irq port).1.port other).raises n = (g.port other).raises n := by
  funext kind
  unfold NuGpio.irq
  split_ifs with taken
  · by_cases same : other = port
    · subst same
      simp only [NuGpio.nuGpioIsr, NuGpio.setPort, Function.update_self, GpioT.clearSrc]
      cases kind <;> rfl
    · simp [NuGpio.nuGpioIsr, NuGpio.setPort, same]
  · rfl

theorem NuGpio.irq_flags (g : NuGpio H A) (port other : Nat) :
    ((g.irq port).1.port other).intsrc =
      if other = port ∧ g.masked port = false then 0 else (g.port other).intsrc := by
  unfold NuGpio.irq
  by_cases same : other = port
  · subst same
    by_cases open' : g.masked other = false
    · by_cases flagged : (g.port other).intsrc = 0
      · simp [open', flagged]
      · rw [if_pos ⟨open', flagged⟩]
        simp [open', NuGpio.nuGpioIsr, NuGpio.setPort, GpioT.clearSrc]
    · simp [open']
  · split_ifs <;> simp_all [NuGpio.nuGpioIsr, NuGpio.setPort]

theorem NuGpio.holds_congr {g g' : NuGpio H A} (tab : g'.pinIrqHdrTab = g.pinIrqHdrTab)
    (mask : g'.u32PinIrqMask = g.u32PinIrqMask) (i : Nat) (p : U32) :
    g'.Holds i p ↔ g.Holds i p := by
  unfold NuGpio.Holds
  rw [tab, mask]

theorem NuGpio.entry_congr {g g' : NuGpio H A} (tab : g'.pinIrqHdrTab = g.pinIrqHdrTab)
    (mask : g'.u32PinIrqMask = g.u32PinIrqMask) (p : U32) : g'.entry p = g.entry p := by
  unfold NuGpio.entry NuGpio.nuFindIrqindex
  rw [tab, mask]

theorem NuGpio.pinIrqHdr_oneShift (g : NuGpio H A) {n : Nat} (small : n < gpioPinMax) (port : Nat) :
    g.pinIrqHdr ((1 : U32) <<< n) port =
      (g.pinHdr (BitVec.ofNat 32 (port * gpioPinMax + n))).toList := by
  rw [NuGpio.pinIrqHdr, ctzBits_oneShift small, List.filterMap_cons]
  cases g.pinHdr (BitVec.ofNat 32 (port * gpioPinMax + n)) <;> rfl

theorem PinRun.Tracks.pinHdr (tracks : s.Tracks) (of : OfPort p) :
    s.gpio.pinHdr p = (s.ask p).attached.bind fun x => x.hdr.map fun hdr => (hdr, x.args) := by
  rw [NuGpio.pinHdr_eq, tracks.entries p of]
  cases (s.ask p).attached <;> rfl

theorem PinRun.Tracks.pinHdr_ne_none (tracks : s.Tracks) (of : OfPort p) :
    s.gpio.pinHdr p ≠ none ↔ (s.ask p).handled = true := by
  rw [tracks.pinHdr of]
  unfold PinAsk.handled
  rcases (s.ask p).attached with _ | ⟨mode, _ | hdr, args⟩ <;> simp

theorem PinRun.Tracks.event_calls (tracks : s.Tracks) (of : OfPort p) (kind : PinEvent) :
    (s.step (.event p kind)).calls =
      s.calls ++ if s.gpio.hears p kind then (s.gpio.pinHdr p).toList else [] := by
  have quiet := tracks.quiet (nuGetPort p).toNat
  have small := nuGetPins_lt p
  unfold PinRun.step PinRun.serve NuGpio.hears NuGpio.irq
  simp only [NuGpio.setPort, Function.update_self, GpioT.event]
  by_cases masked : s.gpio.masked (nuGetPort p).toNat = true
  · simp [masked]
  rw [Bool.not_eq_true] at masked
  have none := quiet masked
  by_cases raises : (s.gpio.port (nuGetPort p).toNat).raises (nuGetPins p).toNat kind = true
  · have flagged : (1 : U32) <<< (nuGetPins p).toNat ≠ 0 := by
      intro zero
      have here := oneShift_getLsbD (show (nuGetPins p).toNat < 32 by omega) (nuGetPins p).toNat
      rw [zero] at here
      simp at here
    have only (x : U32) : 0 ||| x = x := BitVec.zero_or
    simp only [raises, if_true, none, only]
    rw [if_pos ⟨masked, flagged⟩]
    simp only [NuGpio.nuGpioIsr, Function.update_self, masked, Bool.not_false, Bool.true_and, if_true]
    rw [NuGpio.pinIrqHdr_oneShift _ small, pin_of_port of]
    congr 1
  · simp [raises, none]

theorem PinAsk.wants_eq (a : PinAsk H A) (kind : PinEvent) :
    a.wants kind =
      if a.means kind then a.attached.bind fun x => x.hdr.map fun hdr => (hdr, x.args) else none := by
  unfold PinAsk.wants PinAsk.means
  rcases a.attached with _ | x
  · simp
  · simp only [Option.bind_some, Option.any_some]

theorem PinRun.Tracks.next_iff (tracks : s.Tracks) (made : s.calls = s.due) (of : OfPort p)
    (kind : PinEvent) :
    (s.step (.event p kind)).calls = (s.step (.event p kind)).due ↔
      ((s.ask p).handled = true → s.gpio.hears p kind = (s.ask p).means kind) := by
  have due : (s.step (.event p kind)).due = s.due ++ ((s.ask p).wants kind).toList := rfl
  rw [tracks.event_calls of, due, made, List.append_cancel_left_eq, PinAsk.wants_eq,
    ← tracks.pinHdr of, ← tracks.pinHdr_ne_none of]
  cases s.gpio.pinHdr p <;> cases s.gpio.hears p kind <;> cases (s.ask p).means kind <;> simp

theorem PinRun.Tracks.attaches (tracks : s.Tracks) (of : OfPort p) {mode : U32} {hdr : Option H}
    {args : Option A} (failed : (s.gpio.nuGpioAttachIrq p mode hdr args).2 ≠ rtEok) :
    s.SixteenOthers p := by
  rcases NuGpio.attach_cases mode hdr args tracks.single of with
    ⟨-, i, -, done⟩ | ⟨out, -⟩
  · rw [done] at failed
    exact absurd rfl failed
  obtain ⟨none, full⟩ := NuGpio.full_of_not_room out
  have injective := NuGpio.pinAt_injOn tracks.single full
  refine ⟨(Finset.range pinIrqMaxNum).image s.gpio.pinAt, ?_, ?_, ?_⟩
  · rw [Finset.card_image_of_injOn injective, Finset.card_range]
    rfl
  · intro here
    obtain ⟨i, inside, pin⟩ := Finset.mem_image.mp here
    have bound := Finset.mem_range.mp inside
    exact none i ⟨bound, full i bound, pin⟩
  · intro q here attached
    obtain ⟨i, inside, rfl⟩ := Finset.mem_image.mp here
    have bound := Finset.mem_range.mp inside
    have holds : s.gpio.Holds i (s.gpio.pinAt i) := ⟨bound, full i bound, rfl⟩
    have entry := (NuGpio.entry_eq_some tracks.single).mpr ⟨i, holds, rfl⟩
    rw [tracks.entries _ (tracks.owned i _ holds), attached] at entry
    cases entry

theorem PinRun.Tracks.answers_iff (tracks : s.Tracks) :
    s.Answers ↔ s.calls = s.due ∧ s.Sound := by
  constructor
  · intro answers
    refine ⟨answers.made, ?_⟩
    intro p of handled kind
    exact (tracks.next_iff answers.made of kind).mp (answers.next p kind of) handled
  · rintro ⟨made, sound⟩
    refine ⟨made, ?_, ?_⟩
    · intro p kind of
      exact (tracks.next_iff made of kind).mpr fun handled => sound p of handled kind
    · intro p mode hdr args of
      exact tracks.attaches of

theorem PinRun.Tracks.serve {ask : U32 → PinAsk H A} {due : List (H × Option A)} {port : Nat}
    (single : g.Single) (owned : ∀ i q, g.Holds i q → OfPort q)
    (entries : ∀ p, OfPort p → g.entry p = (ask p).attached.map (·.hdrEntry p))
    (quiet : ∀ other, other ≠ port → g.masked other = false → (g.port other).intsrc = 0) :
    (s.serve g ask due port).Tracks := by
  obtain ⟨tab, mask, masked⟩ := g.irq_fst port
  have holds := NuGpio.holds_congr tab mask
  refine ⟨?_, ?_, ?_, ?_⟩
  · intro i j q first second
    exact single i j q ((holds i q).mp first) ((holds j q).mp second)
  · intro i q here
    exact owned i q ((holds i q).mp here)
  · intro p of
    exact (NuGpio.entry_congr tab mask p).trans (entries p of)
  · intro other open'
    simp only [PinRun.serve, masked] at open'
    simp only [PinRun.serve, NuGpio.irq_flags]
    split_ifs with here
    · rfl
    · by_cases same : other = port
      · exact absurd ⟨same, same ▸ open'⟩ here
      · exact quiet other same open'

theorem PinRun.serve_hears (s : PinRun H A) (g : NuGpio H A) (ask : U32 → PinAsk H A)
    (due : List (H × Option A)) (port : Nat) (q : U32) (kind : PinEvent) :
    (s.serve g ask due port).gpio.hears q kind = g.hears q kind := by
  simp only [PinRun.serve, NuGpio.hears, (g.irq_fst port).2.2, g.irq_raises port]

variable {mode enabled : U32} {hdr : Option H} {args : Option A}

theorem NuGpio.detach_spec (single : g.Single) (of : OfPort p) :
    ∃ g', g.nuGpioDetachIrq p = (g', rtEok) ∧ g'.Single ∧ (∀ j q, g'.Holds j q → g.Holds j q) ∧
      (∀ q, g'.entry q = if q = p then none else g.entry q) ∧
      g'.masked = g.masked ∧ g'.port = g.port := by
  have check : ¬nuPortCheck p ≠ rtEok := not_not.mpr (nuPortCheck_ofPort of)
  unfold NuGpio.nuGpioDetachIrq
  rw [if_neg check]
  cases found : g.nuFindIrqindex p with
  | some i =>
    have holds := g.find_holds found
    refine ⟨g.detachAt i, rfl, NuGpio.detachAt_single single holds.1, ?_,
      NuGpio.detachAt_entry single holds, rfl, rfl⟩
    intro j q after
    exact ((NuGpio.detachAt_holds holds.1 j q).mp after).2
  | none =>
    refine ⟨g, rfl, single, fun j q here => here, ?_, rfl, rfl⟩
    intro q
    split_ifs with same
    · rw [same, NuGpio.entry, found]
      rfl
    · rfl

def NuGpio.armed (g : NuGpio H A) (p attribs : U32) : NuGpio H A :=
  (g.setPort (nuGetPort p).toNat
    ((g.port (nuGetPort p).toNat).enableInt (nuGetPins p).toNat attribs)).setMasked
      (nuGetPort p).toNat false

def NuGpio.disarmed (g : NuGpio H A) (p : U32) : NuGpio H A :=
  (g.setPort (nuGetPort p).toNat
    ((g.port (nuGetPort p).toNat).disableInt (nuGetPins p).toNat)).setMasked (nuGetPort p).toNat true

theorem NuGpio.enable_cases (of : OfPort p) (enabled : U32) :
    (g.entry p = none ∧ g.nuGpioIrqEnable p enabled = (g, -rtError)) ∨
      ∃ e, g.entry p = some e ∧
        ((enabled ≠ pinIrqEnable ∧ g.nuGpioIrqEnable p enabled = (g.disarmed p, rtEok)) ∨
          (enabled = pinIrqEnable ∧ intAttribs (e.mode.setWidth 32) = none ∧
            g.nuGpioIrqEnable p enabled = (g, rtEok)) ∨
          (enabled = pinIrqEnable ∧ ∃ attribs, intAttribs (e.mode.setWidth 32) = some attribs ∧
            g.nuGpioIrqEnable p enabled = (g.armed p attribs, rtEok))) := by
  have check : ¬nuPortCheck p ≠ rtEok := not_not.mpr (nuPortCheck_ofPort of)
  unfold NuGpio.nuGpioIrqEnable NuGpio.entry
  rw [if_neg check]
  cases found : g.nuFindIrqindex p with
  | none => exact .inl ⟨rfl, rfl⟩
  | some i =>
    refine .inr ⟨g.pinIrqHdrTab i, rfl, ?_⟩
    by_cases on : enabled = pinIrqEnable
    · right
      simp only [on, if_true, true_and]
      cases intAttribs ((g.pinIrqHdrTab i).mode.setWidth 32) with
      | none => exact .inl ⟨rfl, rfl⟩
      | some attribs => exact .inr ⟨attribs, rfl, rfl⟩
    · exact .inl ⟨on, if_neg on⟩

theorem NuGpio.armed_hears {attribs : U32} (some : intAttribs mode = some attribs) (of : OfPort p)
    (other : OfPort q) (kind : PinEvent) :
    (g.armed p attribs).hears q kind =
      if q = p then modeKinds mode kind
      else if nuGetPort q = nuGetPort p then
        (g.port (nuGetPort q).toNat).raises (nuGetPins q).toNat kind
      else g.hears q kind := by
  have small := nuGetPins_lt p
  unfold NuGpio.hears NuGpio.armed NuGpio.setMasked NuGpio.setPort
  split_ifs with same port
  · subst same
    simp [GpioT.raises_enableInt some small]
  · have apart := nuGetPins_ne of other port same
    simp [port, GpioT.raises_enableInt_ne some small (nuGetPins_lt q) apart]
  · have apart : (nuGetPort q).toNat ≠ (nuGetPort p).toNat :=
      fun same => port (BitVec.eq_of_toNat_eq same)
    simp [apart]

theorem NuGpio.disarmed_hears (g : NuGpio H A) (p q : U32) (kind : PinEvent) :
    (g.disarmed p).hears q kind = if nuGetPort q = nuGetPort p then false else g.hears q kind := by
  unfold NuGpio.hears NuGpio.disarmed NuGpio.setMasked NuGpio.setPort
  split_ifs with port
  · simp [port]
  · have apart : (nuGetPort q).toNat ≠ (nuGetPort p).toNat :=
      fun same => port (BitVec.eq_of_toNat_eq same)
    simp [apart]

/-- The calls that keep the dispatch right. An attachment finds the pin let through exactly as
asked for. A disabling call, which masks the whole port, finds no other pin of it in use, and an
enabling call that unmasks the port finds no other pin armed and no flag from before. -/
def PinRun.Meets (s : PinRun H A) : PinOp H A → Prop
  | .attach pin mode hdr _ =>
    s.gpio.Room pin → hdr.isSome →
      ∀ kind, s.gpio.hears pin kind = ((s.ask pin).enabled && modeKinds mode kind)
  | .detach _ => True
  | .irqEnable pin enabled => ∀ x, (s.ask pin).attached = some x →
    (enabled ≠ pinIrqEnable → ∀ q, OfPort q → nuGetPort q = nuGetPort pin → q ≠ pin →
      (s.ask q).handled = true → ∀ kind, (s.ask q).means kind = false) ∧
    (enabled = pinIrqEnable → intAttribs ((x.mode.setWidth 16).setWidth 32) ≠ none →
      (x.hdr.isSome → ∀ kind,
        modeKinds ((x.mode.setWidth 16).setWidth 32) kind = modeKinds x.mode kind) ∧
      (s.gpio.masked (nuGetPort pin).toNat = true → ∀ q, OfPort q → nuGetPort q = nuGetPort pin →
        (s.ask q).handled = true → s.gpio.latched q = false ∧
          (q ≠ pin → ∀ kind,
            (s.gpio.port (nuGetPort q).toNat).raises (nuGetPins q).toNat kind = false)))
  | .event _ _ => True

def PinRun.OnPins (_ : PinRun H A) (op : PinOp H A) : Prop := OfPort op.pin

variable (g) in
theorem PinRun.Tracks.quietly (tracks : s.Tracks) (masked : g.masked = s.gpio.masked)
    (ports : g.port = s.gpio.port) (ask : U32 → PinAsk H A) (due : List (H × Option A)) (port : Nat) :
    (s.serve g ask due port).calls = s.calls ∧
      ∀ q kind, (s.serve g ask due port).gpio.hears q kind = s.gpio.hears q kind := by
  have quiet : g.irq port = (g, []) := NuGpio.irq_quiet (by
    rw [masked, ports]
    exact tracks.quiet port)
  refine ⟨by simp [PinRun.serve, quiet], ?_⟩
  intro q kind
  rw [PinRun.serve_hears, NuGpio.hears, NuGpio.hears, masked, ports]

theorem PinRun.Sound.update {t : PinRun H A} {a : PinAsk H A} (sound : s.Sound)
    (ask : t.ask = Function.update s.ask p a)
    (hears : ∀ q, OfPort q → q ≠ p → (s.ask q).handled = true → ∀ kind,
      t.gpio.hears q kind = s.gpio.hears q kind)
    (own : a.handled = true → ∀ kind, t.gpio.hears p kind = a.means kind) : t.Sound := by
  intro q of handled kind
  rw [ask] at handled ⊢
  by_cases same : q = p
  · subst same
    rw [Function.update_self] at handled ⊢
    exact own handled kind
  · rw [Function.update_of_ne same] at handled ⊢
    rw [hears q of same handled]
    exact sound q of handled kind

theorem PinRun.Tracks.attach (tracks : s.Tracks) (made : s.calls = s.due) (sound : s.Sound)
    (of : OfPort p) :
    (s.step (.attach p mode hdr args)).Tracks ∧
      ((s.step (.attach p mode hdr args)).Answers ↔ s.Meets (.attach p mode hdr args)) := by
  rcases NuGpio.attach_cases mode hdr args tracks.single of with ⟨room, i, slot, done⟩ | ⟨full, done⟩
  · have next : s.step (.attach p mode hdr args) = s.serve (s.gpio.attachAt i p mode hdr args)
        (Function.update s.ask p ⟨some ⟨mode, hdr, args⟩, (s.ask p).enabled⟩) s.due
        (nuGetPort p).toNat := by
      simp only [PinRun.step, done, if_true]
    have kept : (s.step (.attach p mode hdr args)).Tracks := by
      rw [next]
      refine .serve (slot.single of tracks.single) ?_ ?_ fun other _ => tracks.quiet other
      · intro j q holds
        rcases (NuGpio.attachAt_holds slot.inside of j q).mp holds with ⟨-, rfl⟩ | ⟨-, before⟩
        · exact of
        · exact tracks.owned j q before
      · intro q other
        rw [slot.entry of tracks.single]
        by_cases same : q = p
        · subst same
          simp [PinAttach.hdrEntry]
        · simp [same, tracks.entries q other]
    have ask : (s.step (.attach p mode hdr args)).ask =
        Function.update s.ask p ⟨some ⟨mode, hdr, args⟩, (s.ask p).enabled⟩ := by
      rw [next]
      rfl
    obtain ⟨calls, hears⟩ := tracks.quietly (s.gpio.attachAt i p mode hdr args) rfl rfl
      (Function.update s.ask p ⟨some ⟨mode, hdr, args⟩, (s.ask p).enabled⟩) s.due (nuGetPort p).toNat
    rw [← next] at calls hears
    refine ⟨kept, ?_⟩
    rw [kept.answers_iff]
    constructor
    · rintro ⟨-, after⟩ - handler kind
      have here := after p of (by rw [ask, Function.update_self]; exact handler) kind
      rw [hears, ask, Function.update_self] at here
      simpa [PinAsk.means] using here
    · intro meets
      refine ⟨?_, sound.update ask (fun q _ _ _ => hears q) ?_⟩
      · rw [calls, made, next]
        rfl
      · intro handled kind
        rw [hears, meets room handled kind]
        simp [PinAsk.means]
  · have same : s.step (.attach p mode hdr args) = s := by
      have failed : ¬(-rtEbusy = rtEok) := by decide
      simp only [PinRun.step, done, failed, if_false, PinRun.serve,
        NuGpio.irq_quiet (tracks.quiet _), List.append_nil]
    rw [same, tracks.answers_iff]
    exact ⟨tracks, fun _ room => absurd room full, fun _ => ⟨made, sound⟩⟩

theorem PinRun.Tracks.detach (tracks : s.Tracks) (made : s.calls = s.due) (sound : s.Sound)
    (of : OfPort p) : (s.step (.detach p)).Tracks ∧ (s.step (.detach p)).Answers := by
  obtain ⟨g, done, single, holds, entry, masked, ports⟩ := NuGpio.detach_spec tracks.single of
  have next : s.step (.detach p) = s.serve g
      (Function.update s.ask p ⟨none, (s.ask p).enabled⟩) s.due (nuGetPort p).toNat := by
    simp only [PinRun.step, done, if_true]
  have kept : (s.step (.detach p)).Tracks := by
    rw [next]
    refine .serve single (fun j q here => tracks.owned j q (holds j q here)) ?_ fun other _ => ?_
    · intro q other
      rw [entry]
      by_cases same : q = p
      · subst same
        simp
      · simp [same, tracks.entries q other]
    · rw [masked, ports]
      exact tracks.quiet other
  obtain ⟨calls, hears⟩ := tracks.quietly g masked ports
    (Function.update s.ask p ⟨none, (s.ask p).enabled⟩) s.due (nuGetPort p).toNat
  rw [← next] at calls hears
  refine ⟨kept, kept.answers_iff.mpr ⟨?_, sound.update (by rw [next]; rfl) (fun q _ _ _ => hears q) ?_⟩⟩
  · rw [calls, made, next]
    rfl
  · intro handled
    cases handled

theorem GpioT.event_raises (r : GpioT) (n m : Nat) (kind : PinEvent) :
    (r.event n kind).raises m = r.raises m := by
  unfold GpioT.event
  split_ifs
  · funext other
    cases other <;> rfl
  · rfl

theorem PinRun.Tracks.event (tracks : s.Tracks) (answers : s.Answers) (of : OfPort p)
    (kind : PinEvent) : (s.step (.event p kind)).Tracks ∧ (s.step (.event p kind)).Answers := by
  obtain ⟨made, sound⟩ := tracks.answers_iff.mp answers
  have kept : (s.step (.event p kind)).Tracks := by
    refine .serve (g := s.gpio.setPort (nuGetPort p).toNat _) tracks.single tracks.owned tracks.entries ?_
    intro other apart open'
    simp only [NuGpio.setPort, Function.update_of_ne apart]
    exact tracks.quiet other open'
  refine ⟨kept, kept.answers_iff.mpr ⟨answers.next p kind of, ?_⟩⟩
  intro q other handled wanted
  have same : (s.step (.event p kind)).gpio.hears q wanted = s.gpio.hears q wanted := by
    rw [PinRun.step, PinRun.serve_hears]
    unfold NuGpio.hears NuGpio.setPort
    by_cases port : (nuGetPort q).toNat = (nuGetPort p).toNat
    · simp [port, GpioT.event_raises]
    · simp [port]
  rw [same]
  exact sound q other handled wanted

theorem PinRun.Tracks.unmask_calls (tracks : s.Tracks) (of : OfPort p)
    (tab : g.pinIrqHdrTab = s.gpio.pinIrqHdrTab) (mask : g.u32PinIrqMask = s.gpio.u32PinIrqMask)
    (masked : g.masked (nuGetPort p).toNat = false)
    (flags : (g.port (nuGetPort p).toNat).intsrc = (s.gpio.port (nuGetPort p).toNat).intsrc) :
    (g.irq (nuGetPort p).toNat).2 = [] ↔
      ∀ q, OfPort q → nuGetPort q = nuGetPort p → (s.ask q).handled = true →
        s.gpio.latched q = false := by
  have inside : (nuGetPort p).toNat < nuPortCnt := by
    rw [nuGetPort_toNat of]
    unfold OfPort nuPortCnt gpioPinMax at *
    omega
  have calls : (g.irq (nuGetPort p).toNat).2 =
      g.pinIrqHdr (s.gpio.port (nuGetPort p).toNat).intsrc (nuGetPort p).toNat := by
    unfold NuGpio.irq
    split_ifs with taken
    · rw [NuGpio.nuGpioIsr, flags]
    · have none : (s.gpio.port (nuGetPort p).toNat).intsrc = 0 := by
        by_contra flagged
        exact taken ⟨masked, by rwa [flags]⟩
      rw [none]
      rfl
  have hdr (q : U32) : g.pinHdr q = s.gpio.pinHdr q := by
    rw [NuGpio.pinHdr_eq, NuGpio.pinHdr_eq, NuGpio.entry_congr tab mask]
  rw [calls, NuGpio.pinIrqHdr, List.filterMap_eq_nil_iff]
  simp only [hdr, ctzBits_mem_iff (show gpioPinMax ≤ 32 by decide)]
  constructor
  · intro none q other port handled
    by_contra set
    rw [Bool.not_eq_false, NuGpio.latched, port] at set
    have here := none (nuGetPins q).toNat ⟨nuGetPins_lt q, set⟩
    rw [← port, pin_of_port other] at here
    exact (tracks.pinHdr_ne_none other).mpr handled here
  · rintro clear n ⟨small, set⟩
    obtain ⟨other, port, pins⟩ := port_of_pin inside small
    by_contra some
    have flag := clear _ other (BitVec.eq_of_toNat_eq port) ((tracks.pinHdr_ne_none other).mp some)
    rw [NuGpio.latched, port, pins, set] at flag
    cases flag

theorem modeKinds_stored (named : modeKinds mode kind = true) :
    modeKinds ((mode.setWidth 16).setWidth 32) kind = true := by
  have same : mode = 0 ∨ mode = 1 ∨ mode = 2 ∨ mode = 3 ∨ mode = 4 := by
    unfold modeKinds pinIrqModeRising pinIrqModeFalling pinIrqModeRisingFalling pinIrqModeHighLevel
      pinIrqModeLowLevel at named
    cases kind <;> simp at named <;> simp [named] <;> rcases named with h | h <;> simp [h]
  rcases same with rfl | rfl | rfl | rfl | rfl <;> exact named

theorem PinAsk.means_ask (x : PinAttach H A) (on : Bool) (kind : PinEvent) :
    (⟨some x, on⟩ : PinAsk H A).means kind = (on && modeKinds x.mode kind) := rfl

variable {x : PinAttach H A}

variable (g) in
theorem PinRun.Tracks.enable (tracks : s.Tracks) (attached : (s.ask p).attached = some x)
    (tab : g.pinIrqHdrTab = s.gpio.pinIrqHdrTab) (mask : g.u32PinIrqMask = s.gpio.u32PinIrqMask)
    (quiet : ∀ other, other ≠ (nuGetPort p).toNat → g.masked other = false →
      (g.port other).intsrc = 0) (on : Bool) :
    (s.serve g (Function.update s.ask p ⟨some x, on⟩) s.due (nuGetPort p).toNat).Tracks := by
  have holds := NuGpio.holds_congr tab mask
  refine .serve ?_ ?_ ?_ quiet
  · intro i j q first second
    exact tracks.single i j q ((holds i q).mp first) ((holds j q).mp second)
  · intro i q here
    exact tracks.owned i q ((holds i q).mp here)
  · intro q other
    rw [NuGpio.entry_congr tab mask, tracks.entries q other]
    by_cases same : q = p
    · subst same
      rw [attached, Function.update_self]
    · rw [Function.update_of_ne same]

theorem PinRun.Tracks.disable_iff (tracks : s.Tracks) (made : s.calls = s.due) (sound : s.Sound)
    (attached : (s.ask p).attached = some x) :
    let t := s.serve (s.gpio.disarmed p) (Function.update s.ask p ⟨some x, false⟩) s.due
      (nuGetPort p).toNat
    t.Tracks ∧ (t.Answers ↔ ∀ q, OfPort q → nuGetPort q = nuGetPort p → q ≠ p →
      (s.ask q).handled = true → ∀ kind, (s.ask q).means kind = false) := by
  intro t
  have kept : t.Tracks := by
    refine tracks.enable (s.gpio.disarmed p) attached rfl rfl ?_ false
    intro other apart open'
    simp only [NuGpio.disarmed, NuGpio.setMasked, NuGpio.setPort, Function.update_of_ne apart] at open' ⊢
    exact tracks.quiet other open'
  have quiet : (s.gpio.disarmed p).irq (nuGetPort p).toNat = (s.gpio.disarmed p, []) := by
    apply NuGpio.irq_quiet
    simp [NuGpio.disarmed, NuGpio.setMasked]
  have hears (q : U32) (kind : PinEvent) :
      t.gpio.hears q kind = if nuGetPort q = nuGetPort p then false else s.gpio.hears q kind := by
    rw [PinRun.serve_hears, NuGpio.disarmed_hears]
  refine ⟨kept, ?_⟩
  rw [kept.answers_iff]
  constructor
  · rintro ⟨-, after⟩ q of port apart handled kind
    have ask : t.ask q = s.ask q := Function.update_of_ne apart _ _
    have here := after q of (by rw [ask]; exact handled) kind
    rw [hears, if_pos port, ask] at here
    exact here.symm
  · intro idle
    refine ⟨?_, ?_⟩
    · simp only [t, PinRun.serve, quiet, List.append_nil, made]
    · intro q of handled kind
      rw [hears]
      by_cases same : q = p
      · subst same
        have ask : t.ask q = ⟨some x, false⟩ := Function.update_self _ _ _
        rw [ask, PinAsk.means_ask, if_pos rfl, Bool.false_and]
      · have ask : t.ask q = s.ask q := Function.update_of_ne same _ _
        rw [ask] at handled ⊢
        split_ifs with port
        · exact (idle q of port same handled kind).symm
        · exact sound q of handled kind

theorem PinRun.Tracks.enable_invalid (tracks : s.Tracks) (made : s.calls = s.due) (sound : s.Sound)
    (of : OfPort p) (attached : (s.ask p).attached = some x)
    (invalid : intAttribs ((x.mode.setWidth 16).setWidth 32) = none) :
    let t := s.serve s.gpio (Function.update s.ask p ⟨some x, true⟩) s.due (nuGetPort p).toNat
    t.Tracks ∧ t.Answers := by
  intro t
  have kept : t.Tracks := tracks.enable s.gpio attached rfl rfl (fun other _ => tracks.quiet other) true
  obtain ⟨calls, hears⟩ := tracks.quietly s.gpio rfl rfl (Function.update s.ask p ⟨some x, true⟩) s.due
    (nuGetPort p).toNat
  have unnamed (kind : PinEvent) : modeKinds x.mode kind = false := by
    by_contra named
    have stored := modeKinds_stored (Bool.eq_true_of_not_eq_false named)
    rw [intAttribs_none invalid] at stored
    cases stored
  refine ⟨kept, kept.answers_iff.mpr ⟨calls.trans made, ?_⟩⟩
  refine sound.update rfl (fun q _ _ _ => hears q) ?_
  intro handled kind
  have before := sound p of (by
    rw [PinAsk.handled, attached]
    exact handled) kind
  rw [hears, before, PinAsk.means_ask, PinAsk.means, attached, Option.any_some, unnamed]
  simp

theorem PinRun.Tracks.arm_iff (tracks : s.Tracks) (made : s.calls = s.due) (sound : s.Sound)
    (of : OfPort p) (attached : (s.ask p).attached = some x) {attribs : U32}
    (valid : intAttribs ((x.mode.setWidth 16).setWidth 32) = some attribs) :
    let t := s.serve (s.gpio.armed p attribs) (Function.update s.ask p ⟨some x, true⟩) s.due
      (nuGetPort p).toNat
    t.Tracks ∧ (t.Answers ↔
      (x.hdr.isSome → ∀ kind,
        modeKinds ((x.mode.setWidth 16).setWidth 32) kind = modeKinds x.mode kind) ∧
      (s.gpio.masked (nuGetPort p).toNat = true → ∀ q, OfPort q → nuGetPort q = nuGetPort p →
        (s.ask q).handled = true → s.gpio.latched q = false ∧
          (q ≠ p → ∀ kind,
            (s.gpio.port (nuGetPort q).toNat).raises (nuGetPins q).toNat kind = false))) := by
  intro t
  have kept : t.Tracks := by
    refine tracks.enable (s.gpio.armed p attribs) attached rfl rfl ?_ true
    intro other apart open'
    simp only [NuGpio.armed, NuGpio.setMasked, NuGpio.setPort, Function.update_of_ne apart] at open' ⊢
    exact tracks.quiet other open'
  have hears (q : U32) (other : OfPort q) (kind : PinEvent) : t.gpio.hears q kind =
      if q = p then modeKinds ((x.mode.setWidth 16).setWidth 32) kind
      else if nuGetPort q = nuGetPort p then
        (s.gpio.port (nuGetPort q).toNat).raises (nuGetPins q).toNat kind
      else s.gpio.hears q kind := by
    rw [PinRun.serve_hears, NuGpio.armed_hears valid of other]
  have calls := tracks.unmask_calls (g := s.gpio.armed p attribs) of rfl rfl
    (by simp [NuGpio.armed, NuGpio.setMasked])
    (by simp [NuGpio.armed, NuGpio.setMasked, NuGpio.setPort, GpioT.enableInt])
  have due : t.calls = t.due ↔ ((s.gpio.armed p attribs).irq (nuGetPort p).toNat).2 = [] := by
    simp [t, PinRun.serve, made]
  have self : t.ask p = ⟨some x, true⟩ := Function.update_self _ _ _
  have rest (q : U32) (apart : q ≠ p) : t.ask q = s.ask q := Function.update_of_ne apart _ _
  refine ⟨kept, ?_⟩
  rw [kept.answers_iff, due, calls]
  constructor
  · rintro ⟨clear, after⟩
    refine ⟨?_, ?_⟩
    · intro handler kind
      have here := after p of (by rw [self]; exact handler) kind
      rw [hears p of, if_pos rfl, self] at here
      exact here.trans (Bool.true_and _)
    · intro masked q other port handled
      refine ⟨clear q other port handled, ?_⟩
      intro apart kind
      have here := after q other (by rw [rest q apart]; exact handled) kind
      rw [hears q other, if_neg apart, if_pos port, rest q apart] at here
      rw [here, ← sound q other handled kind, NuGpio.hears, port, masked]
      rfl
  · rintro ⟨own, idle⟩
    refine ⟨?_, ?_⟩
    · intro q other port handled
      by_cases masked : s.gpio.masked (nuGetPort p).toNat = true
      · exact (idle masked q other port handled).1
      · rw [NuGpio.latched, port, tracks.quiet _ (Bool.eq_false_of_not_eq_true masked)]
        simp
    · intro q other handled kind
      rw [hears q other]
      by_cases same : q = p
      · subst same
        rw [self] at handled ⊢
        rw [if_pos rfl, own handled kind]
        rfl
      · rw [rest q same] at handled ⊢
        rw [if_neg same]
        split_ifs with port
        · rw [← sound q other handled kind]
          by_cases masked : s.gpio.masked (nuGetPort p).toNat = true
          · rw [(idle masked q other port handled).2 same kind, NuGpio.hears, port, masked]
            rfl
          · rw [NuGpio.hears, port, Bool.eq_false_of_not_eq_true masked]
            rfl
        · exact sound q other handled kind

theorem PinRun.Tracks.irqEnable (tracks : s.Tracks) (made : s.calls = s.due) (sound : s.Sound)
    (of : OfPort p) :
    (s.step (.irqEnable p enabled)).Tracks ∧
      ((s.step (.irqEnable p enabled)).Answers ↔ s.Meets (.irqEnable p enabled)) := by
  have entry := tracks.entries p of
  rcases NuGpio.enable_cases (g := s.gpio) of enabled with ⟨none, done⟩ | ⟨e, found, cases⟩
  · have same : s.step (.irqEnable p enabled) = s := by
      have failed : ¬(-rtError = rtEok) := by decide
      simp only [PinRun.step, done, failed, if_false, PinRun.serve,
        NuGpio.irq_quiet (tracks.quiet _), List.append_nil]
    rw [same, tracks.answers_iff]
    refine ⟨tracks, fun _ x attached => ?_, fun _ => ⟨made, sound⟩⟩
    rw [none, attached] at entry
    cases entry
  · rw [found] at entry
    obtain ⟨x, attached, rfl⟩ := Option.map_eq_some_iff.mp entry.symm
    have meets : s.Meets (.irqEnable p enabled) ↔
        (enabled ≠ pinIrqEnable → ∀ q, OfPort q → nuGetPort q = nuGetPort p → q ≠ p →
          (s.ask q).handled = true → ∀ kind, (s.ask q).means kind = false) ∧
        (enabled = pinIrqEnable → intAttribs ((x.mode.setWidth 16).setWidth 32) ≠ none →
          (x.hdr.isSome → ∀ kind,
            modeKinds ((x.mode.setWidth 16).setWidth 32) kind = modeKinds x.mode kind) ∧
          (s.gpio.masked (nuGetPort p).toNat = true → ∀ q, OfPort q → nuGetPort q = nuGetPort p →
            (s.ask q).handled = true → s.gpio.latched q = false ∧
              (q ≠ p → ∀ kind,
                (s.gpio.port (nuGetPort q).toNat).raises (nuGetPins q).toNat kind = false))) := by
      constructor
      · intro all
        exact all x attached
      · intro one y same
        rw [attached] at same
        cases same
        exact one
    rw [meets]
    rcases cases with ⟨off, done⟩ | ⟨rfl, invalid, done⟩ | ⟨rfl, attribs, valid, done⟩
    · have next : s.step (.irqEnable p enabled) = s.serve (s.gpio.disarmed p)
          (Function.update s.ask p ⟨some x, false⟩) s.due (nuGetPort p).toNat := by
        simp only [PinRun.step, done, if_true, decide_eq_false off, attached]
      obtain ⟨kept, answers⟩ := tracks.disable_iff made sound attached
      rw [next]
      refine ⟨kept, answers.trans ⟨fun idle => ⟨fun _ => idle, fun on => absurd on off⟩, ?_⟩⟩
      intro both
      exact both.1 off
    · have next : s.step (.irqEnable p pinIrqEnable) = s.serve s.gpio
          (Function.update s.ask p ⟨some x, true⟩) s.due (nuGetPort p).toNat := by
        simp only [PinRun.step, done, if_true, decide_true, attached]
      obtain ⟨kept, answers⟩ := tracks.enable_invalid made sound of attached invalid
      rw [next]
      refine ⟨kept, fun _ => ⟨fun off => absurd rfl off, ?_⟩, fun _ => answers⟩
      intro _ valid
      exact absurd invalid valid
    · have next : s.step (.irqEnable p pinIrqEnable) = s.serve (s.gpio.armed p attribs)
          (Function.update s.ask p ⟨some x, true⟩) s.due (nuGetPort p).toNat := by
        simp only [PinRun.step, done, if_true, decide_true, attached]
      obtain ⟨kept, answers⟩ := tracks.arm_iff made sound of attached valid
      have named : intAttribs ((x.mode.setWidth 16).setWidth 32) ≠ none := by
        intro invalid
        have both := valid.symm.trans invalid
        cases both
      rw [next]
      refine ⟨kept, answers.trans ⟨fun right => ⟨fun off => absurd rfl off, fun _ _ => right⟩, ?_⟩⟩
      intro both
      exact both.2 rfl named

theorem PinRun.Tracks.step (tracks : s.Tracks) (answers : s.Answers) (op : PinOp H A)
    (on : s.OnPins op) : (s.step op).Tracks ∧ ((s.step op).Answers ↔ s.Meets op) := by
  obtain ⟨made, sound⟩ := tracks.answers_iff.mp answers
  cases op with
  | attach p mode hdr args => exact tracks.attach made sound on
  | detach p =>
    obtain ⟨kept, right⟩ := tracks.detach made sound on
    exact ⟨kept, fun _ => trivial, fun _ => right⟩
  | irqEnable p enabled => exact tracks.irqEnable made sound on
  | event p kind =>
    obtain ⟨kept, right⟩ := tracks.event answers on kind
    exact ⟨kept, fun _ => trivial, fun _ => right⟩

theorem PinRun.start_tracks : (PinRun.start : PinRun H A).Tracks := by
  have unused (i : Nat) (p : U32) : ¬(PinRun.start : PinRun H A).gpio.Holds i p := by
    rintro ⟨-, set, -⟩
    simp [PinRun.start, NuGpio.rtHwGpioInit] at set
  refine ⟨fun i j p here => absurd here (unused i p), fun i q here => absurd here (unused i q), ?_, ?_⟩
  · intro p of
    rw [NuGpio.entry, NuGpio.find_none.mpr (fun i => unused i p)]
    rfl
  · intro port open'
    cases open'

end Sound

/-- Pin interrupts are dispatched as the calls asked, in every state of a run, exactly when every
call of the run keeps its port and pin right. -/
theorem gpio_answers_iff (ops : List (PinOp H A))
    (on : Runs.StepsMeet PinRun.step PinRun.OnPins .start ops) :
    (∀ pre, pre <+: ops → (pre.foldl PinRun.step .start).Answers) ↔
      Runs.StepsMeet PinRun.step PinRun.Meets .start ops := by
  have start : (PinRun.start : PinRun H A).Answers := by
    refine PinRun.start_tracks.answers_iff.mpr ⟨rfl, ?_⟩
    intro p _ handled
    cases handled
  exact Runs.prefixes_hold_iff_of_allowed (fun s => s.Tracks ∧ s.Answers) PinRun.Answers
    (fun s both => both.2) (fun s op both on => (both.1.step both.2 op on).2)
    (fun s op both on meets =>
      ⟨(both.1.step both.2 op on).1, (both.1.step both.2 op on).2.mpr meets⟩)
    ⟨PinRun.start_tracks, start⟩ ops on

def onePin : List (PinOp Unit Unit) :=
  [.attach 0 pinIrqModeRising (some ()) none, .irqEnable 0 pinIrqEnable, .event 0 .rising]

theorem onePin_onPins : Runs.StepsMeet PinRun.step PinRun.OnPins .start onePin := by
  simp only [onePin, Runs.stepsMeet_cons, PinRun.OnPins, PinOp.pin]
  refine ⟨by decide, by decide, by decide, ?_⟩
  intro pre e none
  simp at none

theorem onePin_answers : (onePin.foldl PinRun.step .start).Answers := by
  refine (gpio_answers_iff onePin onePin_onPins).mpr ?_ onePin (List.prefix_refl _)
  simp only [onePin, Runs.stepsMeet_cons]
  refine ⟨?_, ?_, trivial, ?_⟩
  · intro _ _ kind
    cases kind <;> rfl
  · intro x attached
    have same : x = ⟨pinIrqModeRising, some (), none⟩ := Option.some.inj (attached.symm.trans (by rfl))
    subst same
    refine ⟨fun off => absurd rfl off, fun _ _ => ⟨fun _ _ => by rfl, ?_⟩⟩
    intro _ q _ _ handled
    by_cases own : q = 0
    · subst own
      exact ⟨by decide, fun apart => absurd rfl apart⟩
    · have idle : (PinRun.start : PinRun Unit Unit).ask q = ⟨none, false⟩ := rfl
      have ask : ((PinRun.start : PinRun Unit Unit).step
          (.attach 0 pinIrqModeRising (some ()) none)).ask q = ⟨none, false⟩ := by
        rw [← idle]
        exact Function.update_of_ne own _ _
      rw [ask] at handled
      cases handled
  · intro pre e none
    simp at none

def neighbours : List (PinOp Unit Unit) :=
  [.attach 0 pinIrqModeRising (some ()) none, .irqEnable 0 pinIrqEnable,
    .attach 1 pinIrqModeRising (some ()) none, .irqEnable 1 pinIrqEnable, .irqEnable 1 0,
    .event 0 .rising]

/-- The first pin is attached and enabled, and its rising edge reaches no handler. -/
theorem neighbours_silenced :
    (neighbours.foldl PinRun.step .start).calls = [] ∧
      (neighbours.foldl PinRun.step .start).due = [((), none)] ∧
      Runs.StepsMeet PinRun.step PinRun.OnPins .start neighbours ∧
      ¬∀ pre, pre <+: neighbours → (pre.foldl PinRun.step .start).Answers := by
  have calls : (neighbours.foldl PinRun.step .start).calls = [] := by decide
  have due : (neighbours.foldl PinRun.step .start).due = [((), none)] := by decide
  refine ⟨calls, due, ?_, ?_⟩
  · simp only [neighbours, Runs.stepsMeet_cons, PinRun.OnPins, PinOp.pin]
    refine ⟨by decide, by decide, by decide, by decide, by decide, by decide, ?_⟩
    intro pre e none
    simp at none
  · intro all
    have made := (all neighbours (List.prefix_refl _)).made
    rw [calls, due] at made
    cases made

end NuMakerMA35
