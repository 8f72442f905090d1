import NuMakerMA35.I2s

namespace NuMakerMA35

def NuI2s.running (s : NuI2s) (stream : AudioStream) : Bool := s.ctl0 &&& stream.enMsk ≠ 0

def i2sSharedMsk : U32 :=
  i2sCtl0I2senMsk ||| i2sCtl0MclkenMsk ||| i2sCtl0DatwidthMsk ||| i2sCtl0MonoMsk |||
    i2sCtl0SlaveMsk ||| i2sCtl0FormatMsk

/-- The access disables, resets or re-clocks the stream. -/
def I2sAccess.disturbs (stream : AudioStream) : I2sAccess → Bool
  | .reset | .codec => true
  | .ctl0 old new => (old ^^^ new) &&& (i2sSharedMsk ||| stream.enMsk ||| stream.pdmaenMsk) ≠ 0
  | .ctl1 _ _ => false
  | .clkdiv old new => old ≠ new
  | .terminate x | .transfer x => x = stream

/-- The device, and whether an operation on one stream has disturbed the other while that ran. -/
structure I2sRun where
  dev : NuI2s
  hurt : Bool

def I2sRun.step (ops : NuAcodecOps) (r : I2sRun) (e : AudioStream × I2sOp) : I2sRun :=
  let next := { r.dev with log := [] }.run ops e.1 e.2
  ⟨next, r.hurt || (r.dev.running e.1.other && next.log.any (·.disturbs e.1.other))⟩

def I2sRun.init (config acodecConfig : RtAudioConfigure) : I2sRun :=
  ⟨⟨0, 0, 0, config, acodecConfig, []⟩, false⟩

/-- No stream was disturbed, and with none running the controller is off. -/
def I2sRun.Independent (r : I2sRun) : Prop :=
  r.hurt = false ∧ (r.dev.running .replay = false → r.dev.running .record = false →
    r.dev.ctl0 &&& (i2sCtl0I2senMsk ||| i2sCtl0MclkenMsk) = 0)

/-- The set-up with this configuration comes to the codec. -/
def NuAcodecOps.setsUp (ops : NuAcodecOps) (config : RtAudioConfigure) : Bool :=
  i2sCapacityCheck config && (ops.reset || ops.init)

def I2sRun.Meets (ops : NuAcodecOps) (r : I2sRun) (e : AudioStream × I2sOp) : Prop :=
  r.dev.running e.1.other = true →
    match e.2 with
    | .start _ _ => ops.setsUp r.dev.config = false
    | .stop => True
    | .configure _ _ sub caps =>
      (r.dev.store sub caps).2 = true → ops.setsUp (r.dev.store sub caps).1.config = false

section Operations

variable {s t u : NuI2s} {stream : AudioStream} {ops : NuAcodecOps} {srcClk : U32}
  {reply : AcodecReply}

/-- Nothing that was done between the two states disturbs the stream. -/
def NuI2s.Calm (stream : AudioStream) (s t : NuI2s) : Prop :=
  ∀ a ∈ t.log, a ∈ s.log ∨ a.disturbs stream = false

theorem NuI2s.Calm.trans (first : s.Calm stream t) (next : t.Calm stream u) : s.Calm stream u := by
  intro a here
  rcases next a here with before | calm
  · exact first a before
  · exact .inr calm

theorem NuI2s.access_calm {a : I2sAccess} (calm : a.disturbs stream = false) :
    s.Calm stream (s.access a) := by
  intro b here
  rcases List.mem_cons.mp here with rfl | before
  · exact .inr calm
  · exact .inl before

theorem NuI2s.setCtl0_calm {x : U32}
    (kept : (s.ctl0 ^^^ x) &&& (i2sSharedMsk ||| stream.enMsk ||| stream.pdmaenMsk) = 0) :
    s.Calm stream (s.setCtl0 x) := by
  intro a here
  rcases List.mem_cons.mp here with rfl | before
  · exact .inr (by simp [I2sAccess.disturbs, kept])
  · exact .inl before

theorem AudioStream.masks_apart (stream : AudioStream) :
    stream.pdmaenMsk &&&
        (i2sSharedMsk ||| stream.other.enMsk ||| stream.other.pdmaenMsk) = 0 ∧
      stream.enMsk &&& (i2sSharedMsk ||| stream.other.enMsk ||| stream.other.pdmaenMsk) = 0 ∧
      stream.pdmaenMsk &&& stream.other.enMsk = 0 ∧ stream.enMsk &&& stream.other.enMsk = 0 ∧
      stream.other ≠ stream := by
  cases stream <;> decide

theorem NuI2s.running_false (s : NuI2s) (stream : AudioStream) :
    s.running stream = false ↔ s.ctl0 &&& stream.enMsk = 0 := by
  unfold NuI2s.running
  rw [decide_eq_false_iff_not, not_not]

theorem NuI2s.running_iff (s : NuI2s) :
    s.ctl0 &&& (i2sCtl0TxenMsk ||| i2sCtl0RxenMsk) = 0 ↔
      s.running .replay = false ∧ s.running .record = false := by
  rw [BitVec.and_or_distrib_left, orWords_eq_zero, s.running_false, s.running_false]
  exact Iff.rfl

theorem NuI2s.not_running_iff (s : NuI2s) (stream : AudioStream) :
    s.running stream = false ∧ s.running stream.other = false ↔
      s.running .replay = false ∧ s.running .record = false := by
  cases stream
  · exact Iff.rfl
  · exact and_comm

def NuI2s.Closed (s : NuI2s) : Prop :=
  s.running .replay = false → s.running .record = false →
    s.ctl0 &&& (i2sCtl0I2senMsk ||| i2sCtl0MclkenMsk) = 0

def NuI2s.halt (s : NuI2s) (stream : AudioStream) : NuI2s :=
  let s := s.setCtl0 (s.ctl0 &&& ~~~stream.pdmaenMsk)
  let s := s.setCtl0 (s.ctl0 &&& ~~~stream.enMsk)
  s.access (.terminate stream)

theorem NuI2s.stop_eq (s : NuI2s) (stream : AudioStream) :
    s.stop stream = if (s.halt stream).ctl0 &&& (i2sCtl0TxenMsk ||| i2sCtl0RxenMsk) = 0 then
      (s.halt stream).disableMclk.i2sClose else s.halt stream := rfl

theorem NuI2s.halt_calm (s : NuI2s) (stream : AudioStream) :
    s.Calm stream.other (s.halt stream) := by
  obtain ⟨pdmaen, en, -, -, ne⟩ := stream.masks_apart
  have first : s.Calm stream.other (s.setCtl0 (s.ctl0 &&& ~~~stream.pdmaenMsk)) :=
    NuI2s.setCtl0_calm (clearMask_xor pdmaen)
  refine (first.trans (NuI2s.setCtl0_calm (clearMask_xor en))).trans (NuI2s.access_calm ?_)
  exact decide_eq_false (Ne.symm ne)

theorem NuI2s.halt_running (s : NuI2s) (stream : AudioStream) :
    (s.halt stream).running stream.other = s.running stream.other := by
  obtain ⟨-, -, pdmaen, en, -⟩ := stream.masks_apart
  have same : (s.halt stream).ctl0 &&& stream.other.enMsk = s.ctl0 &&& stream.other.enMsk := by
    simp only [NuI2s.halt, NuI2s.access, NuI2s.setCtl0]
    rw [clearMask_and en, clearMask_and pdmaen]
  simp only [NuI2s.running, same]

theorem NuI2s.stop_of_running (running : s.running stream.other = true) :
    s.stop stream = s.halt stream := by
  rw [s.stop_eq, if_neg]
  intro none
  have idle := ((s.halt stream).not_running_iff stream).mpr ((s.halt stream).running_iff.mp none)
  rw [s.halt_running, running] at idle
  cases idle.2

theorem NuI2s.stop_closed (s : NuI2s) (stream : AudioStream) : (s.stop stream).Closed := by
  intro replay record
  rw [s.stop_eq] at replay record ⊢
  split_ifs at replay record ⊢ with none
  · simp only [NuI2s.i2sClose, NuI2s.disableMclk, NuI2s.setCtl0, NuI2s.access]
    rw [BitVec.and_or_distrib_left, orWords_eq_zero]
    refine ⟨clearMask_self, ?_⟩
    rw [clearMask_and (by decide)]
    exact clearMask_self
  · exact absurd ((s.halt stream).running_iff.mpr ⟨replay, record⟩) none

theorem NuI2s.stop_config (s : NuI2s) (stream : AudioStream) :
    (s.stop stream).config = s.config := by
  rw [s.stop_eq]
  split_ifs <;> rfl

theorem NuI2s.daiSetup_of_not (none : ops.setsUp s.config = false) :
    (s.daiSetup ops srcClk reply).1 = s := by
  unfold NuAcodecOps.setsUp at none
  unfold NuI2s.daiSetup
  cases fits : i2sCapacityCheck s.config with
  | false => rfl
  | true =>
    rw [fits, Bool.true_and, Bool.or_eq_false_iff] at none
    simp [none.1, none.2]

theorem NuI2s.daiOpen_log (s : NuI2s) (ops : NuAcodecOps) (srcClk : U32) {a : I2sAccess}
    (before : a ∈ s.log) : a ∈ (s.daiOpen ops srcClk).log := by
  unfold NuI2s.daiOpen
  dsimp only
  split_ifs <;>
    simp [NuI2s.access, NuI2s.enableMclk, NuI2s.i2sOpen, NuI2s.setCtl0, NuI2s.setCtl1,
      NuI2s.setClkdiv, NuI2s.reset, before]

theorem NuI2s.daiSetup_codec (some : ops.setsUp s.config = true) :
    .codec ∈ (s.daiSetup ops srcClk reply).1.log := by
  unfold NuAcodecOps.setsUp at some
  rw [Bool.and_eq_true, Bool.or_eq_true] at some
  obtain ⟨fits, called⟩ := some
  unfold NuI2s.daiSetup
  simp only [fits, if_true]
  cases reset : ops.reset with
  | true =>
    simp only [if_true, true_and]
    split_ifs <;> simp [NuI2s.callCodec, NuI2s.access, NuI2s.daiOpen_log]
  | false =>
    have init : ops.init = true := called.resolve_left (by simp [reset])
    simp only [Bool.false_eq_true, if_false, false_and, init, Bool.not_true]
    split_ifs <;> simp [NuI2s.callCodec, NuI2s.access, NuI2s.daiOpen_log]

theorem NuI2s.daiSetup_failed (failed : (s.daiSetup ops srcClk reply).2 ≠ rtEok) :
    (s.daiSetup ops srcClk reply).1.ctl0 = s.ctl0 := by
  unfold NuI2s.daiSetup at failed ⊢
  dsimp only at failed ⊢
  have first : (if ops.reset then s.callCodec reply else s).ctl0 = s.ctl0 := by
    split_ifs <;> rfl
  generalize (if ops.reset then s.callCodec reply else s) = t at failed first ⊢
  split_ifs at failed ⊢
  · exact first
  · exact first
  · exact first
  · exact first
  · exact first
  · exact absurd rfl failed
  · rfl

def NuI2s.enable (s : NuI2s) (stream : AudioStream) : NuI2s :=
  let s := s.access (.transfer stream)
  let s := s.setCtl0 (s.ctl0 ||| stream.pdmaenMsk)
  s.setCtl0 (s.ctl0 ||| stream.enMsk)

theorem NuI2s.enable_calm (s : NuI2s) (stream : AudioStream) :
    s.Calm stream.other (s.enable stream) := by
  obtain ⟨pdmaen, en, -, -, ne⟩ := stream.masks_apart
  have first : s.Calm stream.other (s.access (.transfer stream)) :=
    NuI2s.access_calm (decide_eq_false (Ne.symm ne))
  exact (first.trans (NuI2s.setCtl0_calm (setMask_xor pdmaen))).trans
    (NuI2s.setCtl0_calm (setMask_xor en))

theorem NuI2s.enable_running (s : NuI2s) (stream : AudioStream) :
    (s.enable stream).running stream = true := by
  by_contra idle
  have none := ((s.enable stream).running_false stream).mp (Bool.eq_false_iff.mpr idle)
  exact setMask_and (by cases stream <;> decide) none

theorem NuI2s.enable_closed (s : NuI2s) (stream : AudioStream) : (s.enable stream).Closed := by
  intro replay record
  have here := s.enable_running stream
  rw [(((s.enable stream).not_running_iff stream).mpr ⟨replay, record⟩).1] at here
  cases here

theorem NuI2s.start_cases (s : NuI2s) (ops : NuAcodecOps) (srcClk : U32) (reply : AcodecReply)
    (stream : AudioStream) :
    (((s.stop stream).daiSetup ops srcClk reply).2 ≠ rtEok ∧
        (s.start ops srcClk reply stream).1 = ((s.stop stream).daiSetup ops srcClk reply).1) ∨
      (s.start ops srcClk reply stream).1 =
        ((s.stop stream).daiSetup ops srcClk reply).1.enable stream := by
  unfold NuI2s.start
  by_cases failed : ((s.stop stream).daiSetup ops srcClk reply).2 ≠ rtEok
  · exact .inl ⟨failed, by simp only [if_pos failed]⟩
  · exact .inr (by simp only [if_neg failed]; rfl)

theorem NuI2s.start_closed (s : NuI2s) (ops : NuAcodecOps) (srcClk : U32) (reply : AcodecReply)
    (stream : AudioStream) : (s.start ops srcClk reply stream).1.Closed := by
  rcases s.start_cases ops srcClk reply stream with ⟨failed, same⟩ | same
  · rw [same]
    have ctl0 := NuI2s.daiSetup_failed failed
    have closed := s.stop_closed stream
    unfold NuI2s.Closed at closed ⊢
    simp only [NuI2s.running, ctl0] at closed ⊢
    exact closed
  · rw [same]
    exact NuI2s.enable_closed _ stream

theorem NuI2s.start_calm (running : s.running stream.other = true)
    (none : ops.setsUp s.config = false) :
    s.Calm stream.other (s.start ops srcClk reply stream).1 := by
  have halted := s.halt_calm stream
  rw [← NuI2s.stop_of_running running] at halted
  have setUp : ((s.stop stream).daiSetup ops srcClk reply).1 = s.stop stream :=
    NuI2s.daiSetup_of_not (by rw [s.stop_config]; exact none)
  rcases s.start_cases ops srcClk reply stream with ⟨-, same⟩ | same
  · rw [same, setUp]
    exact halted
  · rw [same, setUp]
    exact halted.trans ((s.stop stream).enable_calm stream)

theorem NuI2s.start_codec (some : ops.setsUp s.config = true) :
    .codec ∈ (s.start ops srcClk reply stream).1.log := by
  have called : .codec ∈ ((s.stop stream).daiSetup ops srcClk reply).1.log :=
    NuI2s.daiSetup_codec (by rw [s.stop_config]; exact some)
  rcases s.start_cases ops srcClk reply stream with ⟨-, same⟩ | same
  · rw [same]
    exact called
  · rw [same]
    exact List.mem_cons_of_mem _ (List.mem_cons_of_mem _ (List.mem_cons_of_mem _ called))

theorem NuI2s.store_same (s : NuI2s) (sub : AudioDsp) (caps : RtAudioConfigure) :
    (s.store sub caps).1.ctl0 = s.ctl0 ∧ (s.store sub caps).1.log = s.log := by
  unfold NuI2s.store
  cases sub <;> dsimp only <;> first | exact ⟨rfl, rfl⟩ | (split_ifs <;> exact ⟨rfl, rfl⟩)

theorem NuI2s.configure_eq (s : NuI2s) (ops : NuAcodecOps) (srcClk : U32) (reply : AcodecReply)
    (stream : AudioStream) (sub : AudioDsp) (caps : RtAudioConfigure) :
    (s.configure ops srcClk reply stream sub caps).1 =
      if (s.store sub caps).2 then ((s.store sub caps).1.start ops srcClk reply stream).1
      else (s.store sub caps).1 := by
  unfold NuI2s.configure
  rcases s.store sub caps with ⟨t, _ | _⟩ <;> rfl

theorem NuI2s.configure_closed (closed : s.Closed) (ops : NuAcodecOps) (srcClk : U32)
    (reply : AcodecReply) (stream : AudioStream) (sub : AudioDsp) (caps : RtAudioConfigure) :
    (s.configure ops srcClk reply stream sub caps).1.Closed := by
  rw [s.configure_eq]
  split_ifs
  · exact NuI2s.start_closed _ ops srcClk reply stream
  · unfold NuI2s.Closed at closed ⊢
    simp only [NuI2s.running, (s.store_same sub caps).1] at closed ⊢
    exact closed

end Operations

section Runs

variable {ops : NuAcodecOps} {r : I2sRun}

theorem I2sRun.step_closed (closed : r.dev.Closed) (e : AudioStream × I2sOp) :
    (r.step ops e).dev.Closed := by
  obtain ⟨stream, op⟩ := e
  cases op with
  | start srcClk reply => exact NuI2s.start_closed _ ops srcClk reply stream
  | stop => exact NuI2s.stop_closed _ stream
  | configure srcClk reply sub caps =>
    have same : NuI2s.Closed { r.dev with log := [] } := closed
    exact NuI2s.configure_closed same ops srcClk reply stream sub caps

theorem not_disturbed {s t : NuI2s} {stream : AudioStream} (calm : s.Calm stream t)
    (fresh : s.log = []) : t.log.any (·.disturbs stream) = false := by
  rw [List.any_eq_false]
  intro a here disturbs
  rcases calm a here with before | quiet
  · rw [fresh] at before
    cases before
  · rw [quiet] at disturbs
    cases disturbs

theorem NuI2s.start_disturbs_iff {s : NuI2s} {stream : AudioStream} {srcClk : U32}
    {reply : AcodecReply} (fresh : s.log = []) (running : s.running stream.other = true) :
    ((s.start ops srcClk reply stream).1.log.any (·.disturbs stream.other) = false) ↔
      ops.setsUp s.config = false := by
  cases setsUp : ops.setsUp s.config with
  | false => simp [not_disturbed (NuI2s.start_calm running setsUp) fresh]
  | true =>
    simp only [Bool.true_eq_false, iff_false, Bool.not_eq_false, List.any_eq_true]
    exact ⟨.codec, NuI2s.start_codec setsUp, rfl⟩

theorem I2sRun.step_hurt (fine : r.hurt = false) (e : AudioStream × I2sOp) :
    (r.step ops e).hurt = false ↔ r.Meets ops e := by
  obtain ⟨stream, op⟩ := e
  unfold I2sRun.step I2sRun.Meets
  simp only [fine, Bool.false_or]
  cases running : r.dev.running stream.other with
  | false => simp
  | true =>
    have here : NuI2s.running { r.dev with log := [] } stream.other = true := running
    simp only [Bool.true_and, true_imp_iff]
    cases op with
    | start srcClk reply => exact NuI2s.start_disturbs_iff rfl here
    | stop =>
      simp only [NuI2s.run, iff_true]
      rw [NuI2s.stop_of_running here]
      exact not_disturbed (NuI2s.halt_calm _ stream) rfl
    | configure srcClk reply sub caps =>
      have store : (r.dev.store sub caps).2 = (NuI2s.store { r.dev with log := [] } sub caps).2 ∧
          (r.dev.store sub caps).1.config =
            (NuI2s.store { r.dev with log := [] } sub caps).1.config := by
        unfold NuI2s.store
        cases sub <;> dsimp only <;> first | exact ⟨rfl, rfl⟩ | (split_ifs <;> exact ⟨rfl, rfl⟩)
      obtain ⟨ctl0, log⟩ := NuI2s.store_same { r.dev with log := [] } sub caps
      simp only [NuI2s.run, store, NuI2s.configure_eq]
      cases again : (NuI2s.store { r.dev with log := [] } sub caps).2 with
      | false => simp [log]
      | true =>
        simp only [if_true, true_imp_iff]
        refine NuI2s.start_disturbs_iff log ?_
        unfold NuI2s.running at here ⊢
        rw [ctl0]
        exact here

theorem i2s_independent_iff (ops : NuAcodecOps) (config acodecConfig : RtAudioConfigure)
    (es : List (AudioStream × I2sOp)) :
    (∀ pre, pre <+: es →
      (pre.foldl (I2sRun.step ops) (I2sRun.init config acodecConfig)).Independent) ↔
      Runs.StepsMeet (I2sRun.step ops) (I2sRun.Meets ops) (I2sRun.init config acodecConfig) es := by
  apply Runs.prefixes_hold_iff I2sRun.Independent I2sRun.Independent
  · exact fun r here => here
  · intro r e here
    constructor
    · exact fun next => (I2sRun.step_hurt here.1 e).mp next.1
    · exact fun meets => ⟨(I2sRun.step_hurt here.1 e).mpr meets, I2sRun.step_closed here.2 e⟩
  · exact fun r e here meets =>
      ⟨(I2sRun.step_hurt here.1 e).mpr meets, I2sRun.step_closed here.2 e⟩
  · exact ⟨rfl, fun _ _ => BitVec.zero_and⟩

end Runs

def startBoth : List (AudioStream × I2sOp) :=
  [(.replay, .start 180000000 ⟨rtEok, rtEok, rtEok, ⟨16000, 2, 16⟩⟩),
    (.record, .start 180000000 ⟨rtEok, rtEok, rtEok, ⟨16000, 2, 16⟩⟩)]

theorem startBoth_resets_replay :
    ¬∀ pre, pre <+: startBoth →
      (pre.foldl (I2sRun.step ⟨true, true, true, true, true⟩)
        (I2sRun.init ⟨16000, 2, 16⟩ ⟨16000, 2, 16⟩)).Independent := by
  intro independent
  have last := (independent startBoth (List.prefix_refl _)).1
  revert last
  decide

end NuMakerMA35
