import NuMakerMA35.I2sDuplex

namespace NuMakerMA35

def NuI2s.getcaps (s : NuI2s) (sub : AudioDsp) (caps : RtAudioConfigure) : RtAudioConfigure × Int :=
  match sub with
  | .param => (⟨s.config.samplerate, s.config.channels, s.config.samplebits⟩, rtEok)
  | .samplerate => ({ caps with samplerate := s.config.samplerate }, rtEok)
  | .channels => ({ caps with channels := s.config.channels }, rtEok)
  | .samplebits => ({ caps with samplebits := s.config.samplebits }, rtEok)
  | .unknown => (caps, -rtError)

/-- One call of `nu_i2s_configure`, with what the codec answers and the source clock there. -/
structure I2sCall where
  srcClk : U32
  reply : AcodecReply
  stream : AudioStream
  sub : AudioDsp
  caps : RtAudioConfigure

def RtAudioConfigure.take (config : RtAudioConfigure) (sub : AudioDsp) (caps : RtAudioConfigure) :
    RtAudioConfigure :=
  match sub with
  | .param => caps
  | .samplerate => { config with samplerate := caps.samplerate }
  | .channels => { config with channels := caps.channels }
  | .samplebits => { config with samplebits := caps.samplebits }
  | .unknown => config

def NuI2s.regs (s : NuI2s) : U32 × U32 × U32 × RtAudioConfigure × RtAudioConfigure :=
  (s.ctl0, s.ctl1, s.clkdiv, s.config, s.acodecConfig)

/-- The device, the last accepted values, the source clock at the last `I2S_Open`, and whether a
rejected call has changed anything. -/
structure I2sHistory where
  dev : NuI2s
  accepted : RtAudioConfigure
  opened : Option U32
  spoiled : Bool

def I2sHistory.step (ops : NuAcodecOps) (h : I2sHistory) (c : I2sCall) : I2sHistory :=
  let next := NuI2s.configure { h.dev with log := [] } ops c.srcClk c.reply c.stream c.sub c.caps
  { dev := next.1
    accepted := if next.2 = rtEok then h.accepted.take c.sub c.caps else h.accepted
    opened := if .reset ∈ next.1.log then some c.srcClk else h.opened
    spoiled := h.spoiled || decide (next.2 ≠ rtEok ∧ next.1.regs ≠ h.dev.regs) }

def I2sHistory.init (dev : NuI2s) : I2sHistory := ⟨dev, dev.config, none, false⟩

structure NuI2s.Reports (s : NuI2s) (config : RtAudioConfigure) : Prop where
  param : ∀ caps, s.getcaps .param caps = (config, rtEok)
  samplerate : ∀ caps, (s.getcaps .samplerate caps).1.samplerate = config.samplerate
  channels : ∀ caps, (s.getcaps .channels caps).1.channels = config.channels
  samplebits : ∀ caps, (s.getcaps .samplebits caps).1.samplebits = config.samplebits

def RtAudioConfigure.bitClock (config : RtAudioConfigure) : U32 :=
  config.samplerate * (config.samplebits.setWidth 32 * 2)

def i2sBclkDivider (srcClk bitClock : U32) : BitVec 16 :=
  ((((srcClk * 10 / bitClock) >>> 1) + 5) / 10).setWidth 16 - 1

structure NuI2s.Programmed (s : NuI2s) (srcClk : U32) (config : RtAudioConfigure) : Prop where
  width : ((s.ctl0 &&& i2sCtl0DatwidthMsk) >>> i2sCtl0DatwidthPos).toNat * 8 + 8 =
    config.samplebits.toNat
  mono : s.ctl0 &&& i2sCtl0MonoMsk ≠ 0 ↔ config.channels = 1
  clock : s.clkdiv &&& i2sClkdivBclkdivMsk =
    (i2sBclkDivider srcClk config.bitClock).setWidth 32 <<< 8 &&& i2sClkdivBclkdivMsk

/-- The accepted values are reported, nothing was changed by a rejected call, and the registers are
set for the values reported. -/
structure I2sHistory.Consistent (h : I2sHistory) : Prop where
  reports : h.dev.Reports h.accepted
  kept : h.spoiled = false
  programmed : ∀ srcClk, h.opened = some srcClk → h.dev.Programmed srcClk h.accepted

/-- The set-up with this configuration does not fail. -/
def NuAcodecOps.Accepts (ops : NuAcodecOps) (reply : AcodecReply) (config : RtAudioConfigure) :
    Prop :=
  i2sCapacityCheck config = true ∧ (ops.reset = true → reply.reset = rtEok) ∧
    (ops.init = true → reply.init = rtEok ∧ (ops.dspControl = true → reply.dspControl = rtEok))

def NuI2s.Idle (s : NuI2s) (stream : AudioStream) : Prop :=
  s.ctl0 &&& (stream.pdmaenMsk ||| stream.enMsk) = 0 ∧
    (s.running stream.other = false → s.ctl0 &&& (i2sCtl0MclkenMsk ||| i2sCtl0I2senMsk) = 0)

/-- A whole configuration or a sample rate is the present one or accepted; sample bits are the
present ones, and the present sample rate too; channels are the present ones, or rejected with nothing
to stop and the codec's configuration as before in the end. -/
def I2sHistory.Meets (ops : NuAcodecOps) (h : I2sHistory) (c : I2sCall) : Prop :=
  let config := h.dev.config
  match c.sub with
  | .param => c.caps = config ∨ ops.Accepts c.reply c.caps
  | .samplerate => c.caps.samplerate = config.samplerate ∨
      ops.Accepts c.reply { config with samplerate := c.caps.samplerate }
  | .samplebits => c.caps.samplebits = config.samplebits ∧
      c.caps.samplebits.setWidth 32 = config.samplerate
  | .channels => c.caps.channels = config.channels ∨
      ¬ops.Accepts c.reply config ∧ h.dev.Idle c.stream ∧
        if ops.setsUp config then c.reply.config = h.dev.acodecConfig
        else c.caps.channels = h.dev.acodecConfig.channels
  | .unknown => True

section Operations

variable {s t u : NuI2s} {stream : AudioStream} {ops : NuAcodecOps} {srcClk : U32}
  {reply : AcodecReply} {config : RtAudioConfigure}

theorem NuI2s.reports_iff : s.Reports config ↔ s.config = config := by
  constructor
  · intro reports
    exact congrArg Prod.fst (reports.param config)
  · rintro rfl
    exact ⟨fun _ => rfl, fun _ => rfl, fun _ => rfl, fun _ => rfl⟩

/-- Nothing is changed and the controller not opened between the two states. -/
def NuI2s.Same (s t : NuI2s) : Prop := t.regs = s.regs ∧ (.reset ∈ t.log → .reset ∈ s.log)

theorem NuI2s.Same.refl (s : NuI2s) : s.Same s := ⟨rfl, id⟩

/-- What the codec's functions leave of its configuration, where the set-up comes to them. -/
def NuI2s.told (s : NuI2s) (ops : NuAcodecOps) (reply : AcodecReply) : NuI2s :=
  if ops.setsUp s.config then { s with acodecConfig := reply.config } else s

theorem NuI2s.told_regs (s : NuI2s) (ops : NuAcodecOps) (reply : AcodecReply) :
    (s.told ops reply).regs = (s.ctl0, s.ctl1, s.clkdiv, s.config,
      if ops.setsUp s.config then reply.config else s.acodecConfig) := by
  unfold NuI2s.told
  split_ifs <;> rfl

theorem NuI2s.told_log (s : NuI2s) (ops : NuAcodecOps) (reply : AcodecReply) :
    (s.told ops reply).log = s.log := by
  unfold NuI2s.told
  split_ifs <;> rfl

theorem NuI2s.Same.callCodec (same : s.Same t) :
    NuI2s.Same { s with acodecConfig := reply.config } (t.callCodec reply) := by
  refine ⟨?_, fun here => same.2 ((List.mem_cons.mp here).resolve_left (by simp))⟩
  exact congrArg (fun r => (r.1, r.2.1, r.2.2.1, r.2.2.2.1, reply.config)) same.1

theorem NuI2s.daiSetup_spec (s : NuI2s) (ops : NuAcodecOps) (srcClk : U32) (reply : AcodecReply) :
    ((s.daiSetup ops srcClk reply).2 = rtEok ↔ ops.Accepts reply s.config) ∧
      ((s.told ops reply).Same (s.daiSetup ops srcClk reply).1 ∧
          ¬(ops.Accepts reply s.config ∧ ops.init = true ∧ ops.dspControl = true) ∨
        (ops.Accepts reply s.config ∧ ops.init = true ∧ ops.dspControl = true) ∧
          ∃ t, (s.told ops reply).Same t ∧ (s.daiSetup ops srcClk reply).1 = t.daiOpen ops srcClk) := by
  unfold NuI2s.daiSetup NuAcodecOps.Accepts
  cases fits : i2sCapacityCheck s.config with
  | false =>
    have told : s.told ops reply = s := if_neg (by simp [NuAcodecOps.setsUp, fits])
    rw [told]
    exact ⟨iff_of_false (show -rtEinval ≠ rtEok by decide) (by simp),
      Or.inl ⟨NuI2s.Same.refl s, by simp⟩⟩
  | true =>
    have told : s.told ops reply =
        if ops.reset || ops.init then { s with acodecConfig := reply.config } else s := by
      simp [NuI2s.told, NuAcodecOps.setsUp, fits]
    have reset (all : ops.reset = true ∨ ops.init = false) :
        (s.told ops reply).Same (if ops.reset then s.callCodec reply else s) := by
      rw [told]
      cases some : ops.reset with
      | true => exact (NuI2s.Same.refl s).callCodec
      | false =>
        rw [all.resolve_left (by simp [some])]
        exact NuI2s.Same.refl s
    have called (some : ops.init = true) :
        (s.told ops reply).Same ((if ops.reset then s.callCodec reply else s).callCodec reply) := by
      rw [told, some, Bool.or_true, if_pos rfl]
      split_ifs
      · exact (NuI2s.Same.refl s).callCodec.callCodec
      · exact (NuI2s.Same.refl s).callCodec
    have again (some : ops.init = true) : (s.told ops reply).Same
        (((if ops.reset then s.callCodec reply else s).callCodec reply).callCodec reply) := by
      have same := called some
      rw [told, some, Bool.or_true, if_pos rfl] at same ⊢
      exact same.callCodec
    generalize (if ops.reset then s.callCodec reply else s) = t at reset called again
    rw [if_pos rfl]
    dsimp only
    split_ifs with failed uninit initFailed undsp dspFailed
    · refine ⟨iff_of_false failed.2 fun accepts => failed.2 (accepts.2.1 failed.1), Or.inl ⟨reset (.inl failed.1), ?_⟩⟩
      exact fun opens => failed.2 (opens.1.2.1 failed.1)
    all_goals
      have resetOk : ops.reset = true → reply.reset = rtEok := fun some => by
        by_contra lost
        exact failed ⟨some, lost⟩
    · have none : ops.init = false := by simpa using uninit
      exact ⟨iff_of_true rfl ⟨rfl, resetOk, by simp [none]⟩, Or.inl ⟨reset (.inr none), by simp [none]⟩⟩
    · have some : ops.init = true := by simpa using uninit
      refine ⟨iff_of_false initFailed fun accepts => initFailed (accepts.2.2 some).1,
        Or.inl ⟨called some, fun opens => initFailed (opens.1.2.2 some).1⟩⟩
    · have some : ops.init = true := by simpa using uninit
      have none : ops.dspControl = false := by simpa using undsp
      have ok : reply.init = rtEok := not_not.mp initFailed
      exact ⟨iff_of_true rfl ⟨rfl, resetOk, fun _ => ⟨ok, by simp [none]⟩⟩,
        Or.inl ⟨called some, by simp [none]⟩⟩
    · have some : ops.init = true := by simpa using uninit
      have dsp : ops.dspControl = true := by simpa using undsp
      refine ⟨iff_of_false dspFailed fun accepts => dspFailed ((accepts.2.2 some).2 dsp),
        Or.inl ⟨again some, fun opens => dspFailed ((opens.1.2.2 some).2 dsp)⟩⟩
    · have some : ops.init = true := by simpa using uninit
      have dsp : ops.dspControl = true := by simpa using undsp
      have initOk : reply.init = rtEok := not_not.mp initFailed
      have dspOk : reply.dspControl = rtEok := not_not.mp dspFailed
      have accepts : true = true ∧ (ops.reset = true → reply.reset = rtEok) ∧
          (ops.init = true → reply.init = rtEok ∧
            (ops.dspControl = true → reply.dspControl = rtEok)) :=
        ⟨rfl, resetOk, fun _ => ⟨initOk, fun _ => dspOk⟩⟩
      exact ⟨iff_of_true rfl accepts, Or.inr ⟨⟨accepts, some, dsp⟩, _, again some, rfl⟩⟩

theorem NuI2s.stop_of_idle (idle : s.running stream.other = false) :
    s.stop stream = (s.halt stream).disableMclk.i2sClose := by
  have halted : (s.halt stream).running stream = false := by
    rw [NuI2s.running_false]
    exact clearMask_self
  rw [s.stop_eq, if_pos]
  rw [NuI2s.running_iff, ← NuI2s.not_running_iff _ stream, s.halt_running]
  exact ⟨halted, idle⟩

theorem NuI2s.stop_ctl0_iff (s : NuI2s) (stream : AudioStream) :
    (s.stop stream).ctl0 = s.ctl0 ↔ s.Idle stream := by
  have halted : (s.halt stream).ctl0 = s.ctl0 &&& ~~~(stream.pdmaenMsk ||| stream.enMsk) := by
    rw [BitVec.not_or, ← BitVec.and_assoc]
    rfl
  unfold NuI2s.Idle
  cases running : s.running stream.other with
  | true =>
    rw [NuI2s.stop_of_running running, halted, clearMask_eq_iff]
    exact (and_iff_left fun idle => absurd idle (by simp)).symm
  | false =>
    have closed : (s.stop stream).ctl0 = s.ctl0 &&&
        ~~~((stream.pdmaenMsk ||| stream.enMsk) ||| (i2sCtl0MclkenMsk ||| i2sCtl0I2senMsk)) := by
      rw [NuI2s.stop_of_idle running, BitVec.not_or, ← BitVec.and_assoc, ← halted, BitVec.not_or,
        ← BitVec.and_assoc]
      rfl
    rw [closed, clearMask_eq_iff, BitVec.and_or_distrib_left, orWords_eq_zero]
    exact and_congr_right fun _ => ⟨fun none _ => none, fun none => none rfl⟩

theorem NuI2s.stop_kept (s : NuI2s) (stream : AudioStream) :
    (s.stop stream).regs = ((s.stop stream).ctl0, s.regs.2) ∧
      (.reset ∈ (s.stop stream).log → .reset ∈ s.log) := by
  rw [s.stop_eq]
  split_ifs
  · refine ⟨rfl, fun here => ?_⟩
    simpa [NuI2s.halt, NuI2s.i2sClose, NuI2s.disableMclk, NuI2s.setCtl0, NuI2s.access] using here
  · refine ⟨rfl, fun here => ?_⟩
    simpa [NuI2s.halt, NuI2s.setCtl0, NuI2s.access] using here

theorem mclkDivider_apart (divider : BitVec 8) :
    divider.setWidth 32 &&& i2sClkdivBclkdivMsk = 0 := by
  revert divider
  decide

theorem i2sCapacityCheck_iff : i2sCapacityCheck config = true ↔
    (config.samplebits = 8 ∨ config.samplebits = 16 ∨ config.samplebits = 32) ∧
      (config.channels = 1 ∨ config.channels = 2) := by
  simp [i2sCapacityCheck, or_assoc]

def i2sWordWidth (samplebits : BitVec 16) : U32 :=
  (samplebits.setWidth 32 / 8 - 1) <<< i2sCtl0DatwidthPos

theorem NuI2s.daiOpen_ctl0 (s : NuI2s) (ops : NuAcodecOps) (srcClk : U32) :
    (s.daiOpen ops srcClk).ctl0 = (if ops.master then i2sCtl0SlaveMsk else i2sModeMaster) |||
      i2sWordWidth s.config.samplebits |||
        (if s.config.channels = 1 then i2sCtl0MonoMsk else 0) ||| i2sFormatI2s |||
          i2sCtl0I2senMsk ||| i2sCtl0MclkenMsk := by
  unfold NuI2s.daiOpen
  cases ops.mixerControl <;> rfl

theorem NuI2s.daiOpen_clkdiv (s : NuI2s) (ops : NuAcodecOps) (srcClk : U32)
    (width : (i2sWordWidth s.config.samplebits >>> 4 &&& 0x3) + 1 =
      s.config.samplebits.setWidth 32 / 8) (whole : s.config.samplebits.setWidth 32 / 8 * 16 =
        (s.config.samplebits.setWidth 32 * 2 : U32)) :
    (s.daiOpen ops srcClk).clkdiv &&& i2sClkdivBclkdivMsk =
      (i2sBclkDivider srcClk s.config.bitClock).setWidth 32 <<< 8 &&& i2sClkdivBclkdivMsk := by
  have rate : s.config.samplerate * ((i2sWordWidth s.config.samplebits >>> 4 &&& 0x3) + 1) * 16 =
      s.config.bitClock := by
    rw [width, BitVec.mul_assoc, whole]
    rfl
  have opened : ∃ divider : BitVec 8, (s.daiOpen ops srcClk).clkdiv =
      ((0 : U32) &&& ~~~i2sClkdivBclkdivMsk ||| (i2sBclkDivider srcClk (s.config.samplerate *
        ((i2sWordWidth s.config.samplebits >>> 4 &&& 0x3) + 1) * 16)).setWidth 32 <<< 8) &&&
          ~~~i2sClkdivMclkdivMsk ||| divider.setWidth 32 := by
    unfold NuI2s.daiOpen
    cases ops.mixerControl <;> exact ⟨_, rfl⟩
  obtain ⟨divider, opened⟩ := opened
  rw [opened, rate, orMask_and (mclkDivider_apart divider), clearMask_and (by decide),
    BitVec.ofNat_eq_ofNat, BitVec.zero_and, BitVec.zero_or]

theorem NuI2s.daiOpen_programmed (s : NuI2s) (ops : NuAcodecOps) (srcClk : U32)
    (fits : i2sCapacityCheck s.config = true) :
    (s.daiOpen ops srcClk).Programmed srcClk s.config := by
  obtain ⟨bits, channels⟩ := i2sCapacityCheck_iff.mp fits
  constructor
  · rw [s.daiOpen_ctl0]
    rcases bits with bits | bits | bits <;> rw [bits] <;> split_ifs <;> decide
  · rw [s.daiOpen_ctl0]
    rcases channels with mono | stereo
    · rw [mono]
      rcases bits with bits | bits | bits <;> rw [bits] <;> cases ops.master <;> decide
    · rw [stereo]
      rcases bits with bits | bits | bits <;> rw [bits] <;> cases ops.master <;> decide
  · apply s.daiOpen_clkdiv
    · rcases bits with bits | bits | bits <;> rw [bits] <;> decide
    · rcases bits with bits | bits | bits <;> rw [bits] <;> decide

theorem NuI2s.daiOpen_opened (s : NuI2s) (ops : NuAcodecOps) (srcClk : U32) :
    (s.daiOpen ops srcClk).config = s.config ∧ .reset ∈ (s.daiOpen ops srcClk).log := by
  unfold NuI2s.daiOpen
  dsimp only
  split_ifs <;> exact ⟨rfl, by simp [NuI2s.access, NuI2s.enableMclk, NuI2s.i2sOpen, NuI2s.setCtl0,
    NuI2s.setCtl1, NuI2s.setClkdiv, NuI2s.reset]⟩

theorem NuI2s.enable_programmed (programmed : s.Programmed srcClk config) (stream : AudioStream) :
    (s.enable stream).Programmed srcClk config := by
  have apart : stream.pdmaenMsk &&& i2sCtl0DatwidthMsk = 0 ∧
      stream.enMsk &&& i2sCtl0DatwidthMsk = 0 ∧ stream.pdmaenMsk &&& i2sCtl0MonoMsk = 0 ∧
        stream.enMsk &&& i2sCtl0MonoMsk = 0 := by
    cases stream <;> decide
  have ctl0 : (s.enable stream).ctl0 = s.ctl0 ||| stream.pdmaenMsk ||| stream.enMsk := rfl
  constructor
  · rw [ctl0, orMask_and apart.2.1, orMask_and apart.1]
    exact programmed.width
  · rw [ctl0, orMask_and apart.2.2.2, orMask_and apart.2.2.1]
    exact programmed.mono
  · exact programmed.clock

theorem NuI2s.enable_kept (s : NuI2s) (stream : AudioStream) :
    (s.enable stream).config = s.config ∧
      (.reset ∈ (s.enable stream).log ↔ .reset ∈ s.log) := by
  refine ⟨rfl, ?_⟩
  simp [NuI2s.enable, NuI2s.setCtl0, NuI2s.access]

theorem NuI2s.start_rejected (srcClk : U32) (stream : AudioStream)
    (rejected : ¬ops.Accepts reply s.config) :
    (s.start ops srcClk reply stream).2 = -rtError ∧
      (s.start ops srcClk reply stream).1.regs = ((s.stop stream).told ops reply).regs ∧
        (.reset ∈ (s.start ops srcClk reply stream).1.log → .reset ∈ s.log) := by
  obtain ⟨answer, setUp⟩ := (s.stop stream).daiSetup_spec ops srcClk reply
  rw [s.stop_config] at answer setUp
  have failed : ((s.stop stream).daiSetup ops srcClk reply).2 ≠ rtEok :=
    fun accepted => rejected (answer.mp accepted)
  have same := (setUp.resolve_right fun opens => rejected opens.1.1).1
  unfold NuI2s.start
  simp only [if_pos failed]
  refine ⟨trivial, same.1, fun here => (s.stop_kept stream).2 ?_⟩
  rw [← NuI2s.told_log _ ops reply]
  exact same.2 here

theorem NuI2s.start_accepted (srcClk : U32) (stream : AudioStream)
    (accepts : ops.Accepts reply s.config) :
    (s.start ops srcClk reply stream).2 = rtEok ∧
      (s.start ops srcClk reply stream).1.config = s.config ∧
        (ops.init = true ∧ ops.dspControl = true →
          .reset ∈ (s.start ops srcClk reply stream).1.log ∧
            (s.start ops srcClk reply stream).1.Programmed srcClk s.config) ∧
          (¬(ops.init = true ∧ ops.dspControl = true) →
            .reset ∈ (s.start ops srcClk reply stream).1.log → .reset ∈ s.log) := by
  obtain ⟨answer, setUp⟩ := (s.stop stream).daiSetup_spec ops srcClk reply
  rw [s.stop_config] at answer setUp
  have done : ¬((s.stop stream).daiSetup ops srcClk reply).2 ≠ rtEok :=
    not_not.mpr (answer.mpr accepts)
  have run : s.start ops srcClk reply stream =
      (((s.stop stream).daiSetup ops srcClk reply).1.enable stream, rtEok) := by
    unfold NuI2s.start
    simp only [if_neg done]
    rfl
  rw [run]
  dsimp only
  obtain ⟨config, log⟩ := ((s.stop stream).daiSetup ops srcClk reply).1.enable_kept stream
  rw [config, log]
  have stopped := s.stop_config stream
  rcases setUp with ⟨same, closed⟩ | ⟨opens, t, same, opened⟩
  · have kept : ((s.stop stream).daiSetup ops srcClk reply).1.config = (s.stop stream).config :=
      (congrArg (fun x => x.2.2.2.1) same.1).trans (congrArg (fun x => x.2.2.2.1) (NuI2s.told_regs ..))
    refine ⟨rfl, kept.trans stopped, fun able => absurd ⟨accepts, able⟩ closed, fun _ here => ?_⟩
    refine (s.stop_kept stream).2 ?_
    rw [← NuI2s.told_log _ ops reply]
    exact same.2 here
  · have kept : t.config = s.config := ((congrArg (fun x => x.2.2.2.1) same.1).trans
      (congrArg (fun x => x.2.2.2.1) (NuI2s.told_regs ..))).trans stopped
    rw [opened]
    refine ⟨rfl, (t.daiOpen_opened ops srcClk).1.trans kept, fun _ => ⟨?_, ?_⟩,
      fun unable => absurd opens.2 unable⟩
    · exact (t.daiOpen_opened ops srcClk).2
    · rw [← kept]
      exact NuI2s.enable_programmed (t.daiOpen_programmed ops srcClk (kept ▸ accepts.1)) stream

end Operations

section Histories

variable {ops : NuAcodecOps} {h : I2sHistory} {c : I2sCall} {t : NuI2s}

/-- What holds before each call: all is consistent, and only a codec that can be set up was. -/
structure I2sHistory.Inv (ops : NuAcodecOps) (h : I2sHistory) : Prop where
  consistent : h.Consistent
  able : h.opened ≠ none → ops.init = true ∧ ops.dspControl = true

theorem NuI2s.Programmed.of_regs {s t : NuI2s} {srcClk : U32} {config : RtAudioConfigure}
    (programmed : s.Programmed srcClk config) (same : t.regs = s.regs) :
    t.Programmed srcClk config := by
  have ctl0 : t.ctl0 = s.ctl0 := congrArg (fun x => x.1) same
  have clkdiv : t.clkdiv = s.clkdiv := congrArg (fun x => x.2.2.1) same
  exact ⟨ctl0 ▸ programmed.width, ctl0 ▸ programmed.mono, clkdiv ▸ programmed.clock⟩

theorem I2sHistory.step_of_kept
    (store : NuI2s.store { h.dev with log := [] } c.sub c.caps =
      ({ h.dev with log := [] }, false)) :
    h.step ops c =
      ⟨{ h.dev with log := [] }, h.accepted.take c.sub c.caps, h.opened, h.spoiled⟩ := by
  unfold I2sHistory.step NuI2s.configure
  rw [store]
  cases c.sub with
  | unknown =>
    have failed : -rtError ≠ rtEok := by decide
    simp [failed, RtAudioConfigure.take, NuI2s.regs]
  | _ => simp

theorem I2sHistory.kept_iff (inv : h.Inv ops)
    (store : NuI2s.store { h.dev with log := [] } c.sub c.caps =
      ({ h.dev with log := [] }, false)) :
    ((h.step ops c).Consistent ↔ h.dev.config.take c.sub c.caps = h.dev.config) ∧
      ((h.step ops c).Consistent → (h.step ops c).Inv ops) := by
  have config := NuI2s.reports_iff.mp inv.consistent.reports
  rw [I2sHistory.step_of_kept store, config]
  refine ⟨⟨fun next => ?_, fun same => ?_⟩, fun next => ⟨next, inv.able⟩⟩
  · exact (NuI2s.reports_iff.mp next.reports).symm.trans config
  · refine ⟨NuI2s.reports_iff.mpr (config.trans same.symm), inv.consistent.kept, ?_⟩
    intro srcClk opened
    rw [same]
    exact (inv.consistent.programmed srcClk opened).of_regs rfl

theorem I2sHistory.step_of_reset
    (store : NuI2s.store { h.dev with log := [] } c.sub c.caps = (t, true)) :
    h.step ops c =
      { dev := (t.start ops c.srcClk c.reply c.stream).1
        accepted := if (t.start ops c.srcClk c.reply c.stream).2 = rtEok
          then h.accepted.take c.sub c.caps else h.accepted
        opened := if .reset ∈ (t.start ops c.srcClk c.reply c.stream).1.log then some c.srcClk
          else h.opened
        spoiled := h.spoiled || decide ((t.start ops c.srcClk c.reply c.stream).2 ≠ rtEok ∧
          (t.start ops c.srcClk c.reply c.stream).1.regs ≠ h.dev.regs) } := by
  unfold I2sHistory.step NuI2s.configure
  rw [store]
  rfl

theorem I2sHistory.accepted_iff (inv : h.Inv ops)
    (store : NuI2s.store { h.dev with log := [] } c.sub c.caps = (t, true)) (fresh : t.log = [])
    (accepts : ops.Accepts c.reply t.config) :
    ((h.step ops c).Consistent ↔ t.config = h.dev.config.take c.sub c.caps) ∧
      ((h.step ops c).Consistent → (h.step ops c).Inv ops) := by
  have config := NuI2s.reports_iff.mp inv.consistent.reports
  obtain ⟨answer, kept, able, unable⟩ :=
    NuI2s.start_accepted c.srcClk c.stream accepts
  rw [fresh] at unable
  rw [I2sHistory.step_of_reset store, answer, if_pos rfl, config]
  have unspoiled : (h.spoiled || decide (rtEok ≠ rtEok ∧
      (t.start ops c.srcClk c.reply c.stream).1.regs ≠ h.dev.regs)) = false := by
    rw [inv.consistent.kept]
    simp
  rw [unspoiled]
  refine ⟨⟨fun next => ?_, fun same => ⟨?_, rfl, ?_⟩⟩, fun next => ⟨next, ?_⟩⟩
  · exact kept.symm.trans (NuI2s.reports_iff.mp next.reports)
  · exact NuI2s.reports_iff.mpr (kept.trans same)
  · intro srcClk opened
    by_cases codec : ops.init = true ∧ ops.dspControl = true
    · obtain ⟨reset, programmed⟩ := able codec
      dsimp only at opened
      rw [if_pos reset, Option.some.injEq] at opened
      rw [← opened, ← same]
      exact programmed
    · dsimp only at opened
      rw [if_neg fun here => absurd (unable codec here) List.not_mem_nil] at opened
      exact absurd (inv.able (by rw [opened]; exact Option.some_ne_none _)) codec
  · intro some
    by_contra codec
    dsimp only at some
    rw [if_neg fun here => absurd (unable codec here) List.not_mem_nil] at some
    exact codec (inv.able some)

theorem I2sHistory.rejected_iff (inv : h.Inv ops)
    (store : NuI2s.store { h.dev with log := [] } c.sub c.caps = (t, true)) (fresh : t.log = [])
    (frame : t.regs = (h.dev.ctl0, h.dev.ctl1, h.dev.clkdiv, t.config, t.acodecConfig))
    (rejected : ¬ops.Accepts c.reply t.config) :
    ((h.step ops c).Consistent ↔ t.config = h.dev.config ∧ h.dev.Idle c.stream ∧
        (if ops.setsUp t.config then c.reply.config else t.acodecConfig) = h.dev.acodecConfig) ∧
      ((h.step ops c).Consistent → (h.step ops c).Inv ops) := by
  have config := NuI2s.reports_iff.mp inv.consistent.reports
  obtain ⟨answer, regs, unopened⟩ :=
    NuI2s.start_rejected c.srcClk c.stream rejected
  rw [fresh] at unopened
  have failed : -rtError ≠ rtEok := by decide
  have same : (t.start ops c.srcClk c.reply c.stream).1.regs = h.dev.regs ↔
      t.config = h.dev.config ∧ h.dev.Idle c.stream ∧
        (if ops.setsUp t.config then c.reply.config else t.acodecConfig) = h.dev.acodecConfig := by
    have ctl0 : t.ctl0 = h.dev.ctl0 := congrArg Prod.fst frame
    have idle : t.Idle c.stream ↔ h.dev.Idle c.stream := by
      unfold NuI2s.Idle NuI2s.running
      rw [ctl0]
    have stopped := (t.stop_kept c.stream).1
    rw [frame] at stopped
    unfold NuI2s.regs at stopped
    simp only [Prod.mk.injEq, true_and] at stopped
    rw [regs, NuI2s.told_regs, ← idle, ← t.stop_ctl0_iff, ctl0]
    unfold NuI2s.regs
    simp only [stopped, Prod.mk.injEq, true_and]
    exact ⟨fun whole => ⟨whole.2.1, whole.1, whole.2.2⟩, fun parts => ⟨parts.2.1, parts.1, parts.2.2⟩⟩
  rw [I2sHistory.step_of_reset store, answer, if_neg failed,
    if_neg fun here => absurd (unopened here) List.not_mem_nil, inv.consistent.kept, ← same]
  refine ⟨⟨fun next => ?_, fun whole => ⟨?_, ?_, ?_⟩⟩, fun next => ⟨next, inv.able⟩⟩
  · by_contra changed
    exact absurd next.kept (by simp [failed, changed])
  · rw [NuI2s.reports_iff, ← config]
    exact congrArg (fun x => x.2.2.2.1) whole
  · simp [whole]
  · intro srcClk opened
    exact (inv.consistent.programmed srcClk opened).of_regs whole

theorem I2sHistory.stored_iff (inv : h.Inv ops)
    (store : NuI2s.store { h.dev with log := [] } c.sub c.caps = (t, true)) (fresh : t.log = [])
    (frame : t.regs = (h.dev.ctl0, h.dev.ctl1, h.dev.clkdiv, t.config, t.acodecConfig))
    (taken : t.config = h.dev.config.take c.sub c.caps) (other : t.config ≠ h.dev.config) :
    ((h.step ops c).Consistent ↔ ops.Accepts c.reply t.config) ∧
      ((h.step ops c).Consistent → (h.step ops c).Inv ops) := by
  by_cases accepts : ops.Accepts c.reply t.config
  · obtain ⟨same, next⟩ := I2sHistory.accepted_iff inv store fresh accepts
    exact ⟨same.trans (iff_of_true taken accepts), next⟩
  · obtain ⟨same, next⟩ := I2sHistory.rejected_iff inv store fresh frame accepts
    exact ⟨same.trans (iff_of_false (fun parts => other parts.1) accepts), next⟩

theorem I2sHistory.channels_iff (inv : h.Inv ops) (srcClk : U32) (reply : AcodecReply)
    (stream : AudioStream) (caps : RtAudioConfigure) :
    ((h.step ops ⟨srcClk, reply, stream, .channels, caps⟩).Consistent ↔
        h.Meets ops ⟨srcClk, reply, stream, .channels, caps⟩) ∧
      ((h.step ops ⟨srcClk, reply, stream, .channels, caps⟩).Consistent →
        (h.step ops ⟨srcClk, reply, stream, .channels, caps⟩).Inv ops) := by
  by_cases same : h.dev.config.channels = caps.channels
  · have store : NuI2s.store { h.dev with log := [] } .channels caps =
        ({ h.dev with log := [] }, false) := if_neg (not_not.mpr same)
    obtain ⟨kept, next⟩ := I2sHistory.kept_iff
      (c := ⟨srcClk, reply, stream, .channels, caps⟩) inv store
    refine ⟨kept.trans (iff_of_true ?_ (Or.inl same.symm)), next⟩
    rw [RtAudioConfigure.take, ← same]
  · have store : NuI2s.store { h.dev with log := [] } .channels caps =
        ({ h.dev with
          log := [], acodecConfig := { h.dev.acodecConfig with channels := caps.channels } },
          true) := if_pos same
    have other : h.dev.config ≠ { h.dev.config with channels := caps.channels } :=
      fun whole => same (congrArg (fun x => x.channels) whole)
    have told : { h.dev.acodecConfig with channels := caps.channels } = h.dev.acodecConfig ↔
        caps.channels = h.dev.acodecConfig.channels :=
      ⟨congrArg RtAudioConfigure.channels, fun same => by rw [same]⟩
    have meets : h.Meets ops ⟨srcClk, reply, stream, .channels, caps⟩ ↔
        ¬ops.Accepts reply h.dev.config ∧ h.dev.Idle stream ∧
          if ops.setsUp h.dev.config then reply.config = h.dev.acodecConfig
          else caps.channels = h.dev.acodecConfig.channels := or_iff_right (Ne.symm same)
    rw [meets]
    by_cases accepts : ops.Accepts reply h.dev.config
    · obtain ⟨stored, next⟩ := I2sHistory.accepted_iff
        (c := ⟨srcClk, reply, stream, .channels, caps⟩) inv store rfl accepts
      exact ⟨stored.trans (iff_of_false other fun parts => parts.1 accepts), next⟩
    · obtain ⟨stored, next⟩ := I2sHistory.rejected_iff
        (c := ⟨srcClk, reply, stream, .channels, caps⟩) inv store rfl rfl accepts
      refine ⟨stored.trans ?_, next⟩
      rw [and_iff_right accepts]
      refine (and_iff_right rfl).trans (and_congr_right fun _ => ?_)
      split_ifs
      · exact Iff.rfl
      · exact told

theorem I2sHistory.samplebits_iff (inv : h.Inv ops) (srcClk : U32) (reply : AcodecReply)
    (stream : AudioStream) (caps : RtAudioConfigure) :
    ((h.step ops ⟨srcClk, reply, stream, .samplebits, caps⟩).Consistent ↔
        h.Meets ops ⟨srcClk, reply, stream, .samplebits, caps⟩) ∧
      ((h.step ops ⟨srcClk, reply, stream, .samplebits, caps⟩).Consistent →
        (h.step ops ⟨srcClk, reply, stream, .samplebits, caps⟩).Inv ops) := by
  by_cases same : h.dev.config.samplerate = caps.samplebits.setWidth 32
  · have store : NuI2s.store { h.dev with log := [] } .samplebits caps =
        ({ h.dev with log := [] }, false) := if_neg (not_not.mpr same)
    obtain ⟨kept, next⟩ := I2sHistory.kept_iff
      (c := ⟨srcClk, reply, stream, .samplebits, caps⟩) inv store
    refine ⟨kept.trans ?_, next⟩
    have present : { h.dev.config with samplebits := caps.samplebits } = h.dev.config ↔
        caps.samplebits = h.dev.config.samplebits :=
      ⟨congrArg RtAudioConfigure.samplebits, fun same => by rw [same]⟩
    exact present.trans (and_iff_left same.symm).symm
  · have store : NuI2s.store { h.dev with log := [] } .samplebits caps =
        ({ h.dev with
          log := []
          config := { h.dev.config with samplerate := caps.samplebits.setWidth 32 } }, true) :=
      if_pos same
    have other : { h.dev.config with samplerate := caps.samplebits.setWidth 32 } ≠ h.dev.config :=
      fun whole => same (congrArg RtAudioConfigure.samplerate whole).symm
    have mistaken : { h.dev.config with samplerate := caps.samplebits.setWidth 32 } ≠
        { h.dev.config with samplebits := caps.samplebits } :=
      fun whole => same (congrArg RtAudioConfigure.samplerate whole).symm
    have unmet : ¬h.Meets ops ⟨srcClk, reply, stream, .samplebits, caps⟩ :=
      fun meets => same meets.2.symm
    by_cases accepts : ops.Accepts reply
        { h.dev.config with samplerate := caps.samplebits.setWidth 32 }
    · obtain ⟨stored, next⟩ := I2sHistory.accepted_iff
        (c := ⟨srcClk, reply, stream, .samplebits, caps⟩) inv store rfl accepts
      exact ⟨stored.trans (iff_of_false mistaken unmet), next⟩
    · obtain ⟨stored, next⟩ := I2sHistory.rejected_iff
        (c := ⟨srcClk, reply, stream, .samplebits, caps⟩) inv store rfl rfl accepts
      exact ⟨stored.trans (iff_of_false (fun parts => other parts.1) unmet), next⟩

theorem I2sHistory.step_iff (inv : h.Inv ops) (c : I2sCall) :
    ((h.step ops c).Consistent ↔ h.Meets ops c) ∧
      ((h.step ops c).Consistent → (h.step ops c).Inv ops) := by
  obtain ⟨srcClk, reply, stream, sub, caps⟩ := c
  cases sub with
  | param =>
    by_cases same : h.dev.config = caps
    · have store : NuI2s.store { h.dev with log := [] } .param caps =
          ({ h.dev with log := [] }, false) := if_neg (not_not.mpr same)
      obtain ⟨kept, next⟩ := I2sHistory.kept_iff (c := ⟨srcClk, reply, stream, .param, caps⟩)
        inv store
      exact ⟨kept.trans (iff_of_true same.symm (Or.inl same.symm)), next⟩
    · have store : NuI2s.store { h.dev with log := [] } .param caps =
          ({ h.dev with log := [], config := caps }, true) := if_pos same
      obtain ⟨stored, next⟩ := I2sHistory.stored_iff (c := ⟨srcClk, reply, stream, .param, caps⟩)
        inv store rfl rfl rfl (Ne.symm same)
      exact ⟨stored.trans (or_iff_right (Ne.symm same)).symm, next⟩
  | samplerate =>
    by_cases same : h.dev.config.samplerate = caps.samplerate
    · have store : NuI2s.store { h.dev with log := [] } .samplerate caps =
          ({ h.dev with log := [] }, false) := if_neg (not_not.mpr same)
      obtain ⟨kept, next⟩ := I2sHistory.kept_iff
        (c := ⟨srcClk, reply, stream, .samplerate, caps⟩) inv store
      refine ⟨kept.trans (iff_of_true ?_ (Or.inl same.symm)), next⟩
      rw [RtAudioConfigure.take, ← same]
    · have store : NuI2s.store { h.dev with log := [] } .samplerate caps =
          ({ h.dev with log := [], config := { h.dev.config with samplerate := caps.samplerate } },
            true) := if_pos same
      have other : { h.dev.config with samplerate := caps.samplerate } ≠ h.dev.config :=
        fun whole => same (congrArg RtAudioConfigure.samplerate whole).symm
      obtain ⟨stored, next⟩ := I2sHistory.stored_iff
        (c := ⟨srcClk, reply, stream, .samplerate, caps⟩) inv store rfl rfl rfl other
      exact ⟨stored.trans (or_iff_right (Ne.symm same)).symm, next⟩
  | channels => exact I2sHistory.channels_iff inv srcClk reply stream caps
  | samplebits => exact I2sHistory.samplebits_iff inv srcClk reply stream caps
  | unknown =>
    obtain ⟨kept, next⟩ := I2sHistory.kept_iff (c := ⟨srcClk, reply, stream, .unknown, caps⟩)
      inv rfl
    exact ⟨kept.trans (iff_of_true rfl trivial), next⟩

/-- A run of calls stays consistent exactly when each call meets the condition. -/
theorem i2s_configure_iff (ops : NuAcodecOps) (dev : NuI2s) (cs : List I2sCall) :
    (∀ pre, pre <+: cs →
      (pre.foldl (I2sHistory.step ops) (I2sHistory.init dev)).Consistent) ↔
      Runs.StepsMeet (I2sHistory.step ops) (I2sHistory.Meets ops) (I2sHistory.init dev) cs := by
  apply Runs.prefixes_hold_iff (I2sHistory.Inv ops) I2sHistory.Consistent
  · exact fun h inv => inv.consistent
  · exact fun h c inv => (I2sHistory.step_iff inv c).1
  · intro h c inv meets
    obtain ⟨same, next⟩ := I2sHistory.step_iff inv c
    exact next (same.mpr meets)
  · refine ⟨⟨NuI2s.reports_iff.mpr rfl, rfl, ?_⟩, fun some => absurd rfl some⟩
    exact fun srcClk opened => absurd opened.symm (Option.some_ne_none srcClk)

end Histories

def rateThenBits : List I2sCall :=
  [⟨180000000, ⟨rtEok, rtEok, rtEok, ⟨16000, 2, 16⟩⟩, .replay, .param, ⟨16000, 2, 16⟩⟩,
    ⟨180000000, ⟨rtEok, rtEok, rtEok, ⟨16000, 2, 16⟩⟩, .replay, .samplebits, ⟨0, 0, 32⟩⟩]

theorem samplebits_stored_as_rate :
    (rateThenBits.foldl (I2sHistory.step ⟨true, true, true, true, true⟩)
      (I2sHistory.init ⟨0, 0, 0, ⟨0, 0, 0⟩, ⟨0, 0, 0⟩, []⟩)).dev.config = ⟨32, 2, 16⟩ ∧
    ¬∀ pre, pre <+: rateThenBits →
      (pre.foldl (I2sHistory.step ⟨true, true, true, true, true⟩)
        (I2sHistory.init ⟨0, 0, 0, ⟨0, 0, 0⟩, ⟨0, 0, 0⟩, []⟩)).Consistent := by
  have value : (rateThenBits.foldl (I2sHistory.step ⟨true, true, true, true, true⟩)
      (I2sHistory.init ⟨0, 0, 0, ⟨0, 0, 0⟩, ⟨0, 0, 0⟩, []⟩)).dev.config = ⟨32, 2, 16⟩ ∧
      (rateThenBits.foldl (I2sHistory.step ⟨true, true, true, true, true⟩)
        (I2sHistory.init ⟨0, 0, 0, ⟨0, 0, 0⟩, ⟨0, 0, 0⟩, []⟩)).accepted = ⟨16000, 2, 32⟩ := by
    decide
  refine ⟨value.1, fun consistent => ?_⟩
  have last := NuI2s.reports_iff.mp (consistent rateThenBits (List.prefix_refl _)).reports
  rw [value.1, value.2] at last
  exact absurd last (by decide)

end NuMakerMA35
