import NuMakerMA35.BitUtil
import NuMakerMA35.Runs

namespace NuMakerMA35

@[ext]
structure AdcTouchData where
  x : U32
  y : U32
  z0 : U32
  z1 : U32
  deriving DecidableEq

structure AdcRegs where
  ctl : U32
  conf : U32
  ier : U32
  isr : U32
  xydata : U32
  zdata : U32

def adcTouchZ0Active : U32 := 20
def touchMqLength : Nat := 64
def adcCtlAdenMsk : U32 := 1
def adcCtlMstMsk : U32 := 1 <<< 8
def adcCtlPedeenMsk : U32 := 1 <<< 9
def adcConfTenMsk : U32 := 1
def adcConfZenMsk : U32 := 1 <<< 1
def adcConfRefselMsk : U32 := 3 <<< 6
def adcConfSpeedMsk : U32 := 1 <<< 22
def adcIerMienMsk : U32 := 1
def adcIerPedeienMsk : U32 := 1 <<< 2

inductive AdcAct where
  | timerStop
  | send (point : AdcTouchData)
  deriving DecidableEq

/-- The converter with its touch device: whether one is registered, whether its sampling timer runs,
its message queue, and the variables that `AdcMenuStartCallback` keeps between two calls. -/
structure NuAdc where
  regs : AdcRegs
  unmasked : Bool
  bReset : Bool
  psRtTouch : Bool
  timer : Bool
  queue : List AdcTouchData
  touchIsrs : Nat
  semReleases : Nat
  point : AdcTouchData
  bDrop : Bool
  lastZ0 : U32

/-- The loop of `nu_adc_touch_antiglitch`: flags are cleared by writing ones to them. -/
def antiglitchLoop : Nat → U32 → U32
  | 0, isr => isr
  | turns + 1, isr =>
    let cleared := isr &&& ~~~isr
    if cleared = 0 then cleared else antiglitchLoop turns cleared

def AdcRegs.nuAdcTouchAntiglitch (regs : AdcRegs) : AdcRegs :=
  { regs with isr := antiglitchLoop 11 regs.isr }

/-- `ADC_DISABLE_INT` of both interrupts: the macro complements only the first of the two masks. -/
def AdcRegs.disableInts (regs : AdcRegs) : AdcRegs :=
  { regs with ier := regs.ier &&& (~~~adcIerPedeienMsk ||| adcIerMienMsk) }

/-- What a conversion left, as `struct nu_adc_touch_data`. -/
def AdcRegs.conversion (regs : AdcRegs) : AdcTouchData where
  x := regs.xydata &&& 0xfff
  y := regs.xydata >>> 16
  z0 := regs.zdata &&& 0xfff
  z1 := regs.zdata >>> 16

def rtMqSend (queue : List AdcTouchData) (point : AdcTouchData) : Option (List AdcTouchData) :=
  if queue.length < touchMqLength then some (queue ++ [point]) else none

namespace NuAdc

def nuAdcTouchDetect (s : NuAdc) (bStartDetect : Bool) : NuAdc :=
  let regs := { s.regs with ctl := s.regs.ctl &&& ~~~adcCtlAdenMsk }.disableInts.nuAdcTouchAntiglitch
  let regs := if bStartDetect then
      let regs := { regs with
        conf := regs.conf &&& ~~~(adcConfTenMsk ||| adcConfZenMsk)
        ctl := regs.ctl ||| adcCtlPedeenMsk }.nuAdcTouchAntiglitch
      { regs with ier := regs.ier ||| adcIerPedeienMsk }
    else
      let regs := { regs with
        ctl := regs.ctl &&& ~~~adcCtlPedeenMsk
        conf := regs.conf ||| (adcConfTenMsk ||| adcConfZenMsk) }.nuAdcTouchAntiglitch
      { regs with ier := regs.ier ||| adcIerMienMsk }
  { s with regs := { regs with ctl := regs.ctl ||| adcCtlAdenMsk }, unmasked := true }

def adcMenuStartCallback (s : NuAdc) : NuAdc × List AdcAct :=
  if s.psRtTouch then
    let data := s.regs.conversion
    let idle := data.z0 < adcTouchZ0Active
    let point := if idle then { data with z0 := 0, z1 := 0 } else data
    let stopped := if idle then
        { { s with timer := false }.nuAdcTouchDetect true with bReset := true }
      else s
    let acts := if idle then [.timerStop] else []
    let s' := { stopped with point := point, bDrop := idle, lastZ0 := point.z0 }
    if ¬idle ∨ adcTouchZ0Active < s.lastZ0 then
      match rtMqSend s.queue point with
      | some queue => ({ s' with queue := queue, touchIsrs := s.touchIsrs + 1 }, acts ++ [.send point])
      | none => (s', acts)
    else (s', acts)
  else ({ s with semReleases := s.semReleases + 1 }, [])

def penDownCallback (s : NuAdc) : NuAdc := { s with timer := true }

def nuAdcTouchSmpl (s : NuAdc) : NuAdc :=
  let s := if s.bReset then { s with bReset := false }.nuAdcTouchDetect false else s
  { s with regs := { s.regs with ctl := s.regs.ctl ||| adcCtlMstMsk } }

def nuAdcTouchEnable (s : NuAdc) : NuAdc :=
  { s with
    regs := { s.regs with conf := adcConfSpeedMsk ||| adcConfRefselMsk }
    psRtTouch := true }.nuAdcTouchDetect true

/-- The converter as `rt_hw_adc_init` leaves it. -/
def boot (regs : AdcRegs) : NuAdc where
  regs := regs
  unmasked := false
  bReset := true
  psRtTouch := false
  timer := false
  queue := []
  touchIsrs := 0
  semReleases := 0
  point := ⟨0, 0, 0, 0⟩
  bDrop := false
  lastZ0 := 0xffff

end NuAdc

/-- The pen touches the panel, the sampling timer's period is over, a conversion ends with these
words, or a reader takes up to `n` messages. -/
inductive AdcEvent where
  | penDown
  | tick
  | sample (xydata zdata : U32)
  | read (n : Nat)

structure SampleEnd where
  data : AdcTouchData
  acts : List AdcAct

structure AdcRun where
  adc : NuAdc
  log : List SampleEnd

namespace AdcRun

def step (s : AdcRun) : AdcEvent → AdcRun
  | .penDown => { s with adc := s.adc.penDownCallback }
  | .tick => { s with adc := if s.adc.timer then s.adc.nuAdcTouchSmpl else s.adc }
  | .sample xydata zdata =>
    let adc := { s.adc with regs := { s.adc.regs with xydata := xydata, zdata := zdata } }
    ⟨adc.adcMenuStartCallback.1, s.log ++ [⟨adc.regs.conversion, adc.adcMenuStartCallback.2⟩]⟩
  | .read n => { s with adc := { s.adc with queue := s.adc.queue.drop n } }

def start (regs : AdcRegs) : AdcRun := ⟨(NuAdc.boot regs).nuAdcTouchEnable, []⟩

def Room (s : AdcRun) : AdcEvent → Prop
  | .sample _ _ => s.adc.queue.length < touchMqLength
  | _ => True

end AdcRun

def AdcEvent.data? : AdcEvent → Option AdcTouchData
  | .sample xydata zdata => some (AdcRegs.mk 0 0 0 0 xydata zdata).conversion
  | _ => none

namespace AdcTouchData

def Active (p : AdcTouchData) : Prop := adcTouchZ0Active ≤ p.z0

instance (p : AdcTouchData) : Decidable p.Active := inferInstanceAs (Decidable (_ ≤ _))

/-- A message without pressure is a release, wherever it is. -/
def message (p : AdcTouchData) : Option AdcTouchData := if p.z0 = 0 ∧ p.z1 = 0 then none else some p

end AdcTouchData

def AdcAct.point? : AdcAct → Option AdcTouchData
  | timerStop => none
  | send point => some point

/-- What a sequence of samples has to become, the panel being touched before it or not: the active
samples, and one release (`none`) where a run of them ends. -/
def touchMessages : Bool → List AdcTouchData → List (Option AdcTouchData)
  | _, [] => []
  | touching, p :: rest =>
    if p.Active then some p :: touchMessages true rest
    else if touching then none :: touchMessages false rest
    else touchMessages false rest

def sentMessages (ends : List SampleEnd) : List (Option AdcTouchData) :=
  ends.flatMap fun e => (e.acts.filterMap AdcAct.point?).map AdcTouchData.message

/-- The messages are those of the runs of active samples, and the timer is stopped just where a
release is sent. -/
structure AdcRun.Follows (s : AdcRun) : Prop where
  messages : sentMessages s.log = touchMessages false (s.log.map SampleEnd.data)
  stops : ∀ e ∈ s.log, .timerStop ∈ e.acts ↔
    ∃ p ∈ e.acts.filterMap AdcAct.point?, p.message = none

def lastZ0Of : Option AdcTouchData → U32
  | none => 0xffff
  | some q => if q.Active then q.z0 else 0

def touchActs (lastZ0 : U32) (p : AdcTouchData) : List AdcAct :=
  if p.Active then [.send p]
  else if adcTouchZ0Active < lastZ0 then [.timerStop, .send { p with z0 := 0, z1 := 0 }]
  else [.timerStop]

def sampleEnds : Option AdcTouchData → List AdcTouchData → List SampleEnd
  | _, [] => []
  | before, p :: rest => ⟨p, touchActs (lastZ0Of before) p⟩ :: sampleEnds (some p) rest

section Callback

variable {s : NuAdc}

theorem AdcTouchData.idle_iff (p : AdcTouchData) : p.z0 < adcTouchZ0Active ↔ ¬p.Active := BitVec.not_le.symm

@[simp] theorem nuAdcTouchDetect_frame (b : Bool) :
    (s.nuAdcTouchDetect b).psRtTouch = s.psRtTouch ∧ (s.nuAdcTouchDetect b).lastZ0 = s.lastZ0 :=
  ⟨rfl, rfl⟩

theorem rtMqSend_room {queue : List AdcTouchData} (room : queue.length < touchMqLength)
    (point : AdcTouchData) : rtMqSend queue point = some (queue ++ [point]) := if_pos room

/-- With a touch device and room for a message, all that counts is the last pressure. -/
theorem adcMenuStartCallback_spec (touch : s.psRtTouch = true)
    (room : s.queue.length < touchMqLength) :
    s.adcMenuStartCallback.2 = touchActs s.lastZ0 s.regs.conversion ∧
      s.adcMenuStartCallback.1.psRtTouch = true ∧
      s.adcMenuStartCallback.1.lastZ0 = lastZ0Of (some s.regs.conversion) := by
  unfold NuAdc.adcMenuStartCallback touchActs lastZ0Of
  rw [if_pos touch]
  simp only [rtMqSend_room room, AdcTouchData.idle_iff]
  by_cases active : s.regs.conversion.Active
  · simp [active, touch]
  · by_cases high : adcTouchZ0Active < s.lastZ0
    · simp [active, high, touch]
    · simp [active, high, touch]

end Callback

namespace AdcRun

/-- The device is registered, and the last pressure is that of the sample `before`. -/
def Tracks (before : Option AdcTouchData) (s : AdcRun) : Prop :=
  s.adc.psRtTouch = true ∧ s.adc.lastZ0 = lastZ0Of before

theorem start_tracks (regs : AdcRegs) : (start regs).Tracks none := ⟨rfl, rfl⟩

variable {s : AdcRun} {before : Option AdcTouchData}

theorem Tracks.other (tracks : s.Tracks before) {e : AdcEvent} (other : e.data? = none) :
    (s.step e).Tracks before ∧ (s.step e).log = s.log := by
  cases e with
  | penDown => exact ⟨tracks, rfl⟩
  | tick =>
    refine ⟨?_, rfl⟩
    unfold Tracks step NuAdc.nuAdcTouchSmpl
    simp only
    split_ifs
    · exact tracks
    · exact tracks
    · exact tracks
  | sample xydata zdata => cases other
  | read n => exact ⟨tracks, rfl⟩

theorem Tracks.sample (tracks : s.Tracks before) {e : AdcEvent} {p : AdcTouchData}
    (data : e.data? = some p) (room : s.Room e) :
    (s.step e).Tracks (some p) ∧ (s.step e).log = s.log ++ [⟨p, touchActs (lastZ0Of before) p⟩] := by
  cases e with
  | sample xydata zdata =>
    obtain rfl := Option.some.inj data
    obtain ⟨acts, touch, last⟩ := adcMenuStartCallback_spec
      (s := { s.adc with regs := { s.adc.regs with xydata := xydata, zdata := zdata } })
      tracks.1 room
    refine ⟨⟨touch, last⟩, ?_⟩
    rw [← tracks.2]
    exact congrArg (fun acts => s.log ++ [SampleEnd.mk _ acts]) acts
  | penDown => cases data
  | tick => cases data
  | read n => cases data

theorem Tracks.run (tracks : s.Tracks before) (events : List AdcEvent)
    (room : Runs.StepsMeet step Room s events) :
    (events.foldl step s).log = s.log ++ sampleEnds before (events.filterMap AdcEvent.data?) := by
  induction events generalizing s before with
  | nil => simp [sampleEnds]
  | cons e events ih =>
    obtain ⟨here, rest⟩ := Runs.stepsMeet_cons.mp room
    rw [List.foldl_cons]
    cases data : e.data? with
    | none =>
      obtain ⟨next, log⟩ := tracks.other data
      rw [List.filterMap_cons_none data, ih next rest, log]
    | some p =>
      obtain ⟨next, log⟩ := tracks.sample data here
      rw [List.filterMap_cons_some data, ih next rest, log, sampleEnds, List.append_assoc,
        List.singleton_append]

end AdcRun

section Law

variable {p : AdcTouchData}

theorem touchMessages_head (samples : List AdcTouchData) :
    (touchMessages false samples).head? ≠ some none := by
  induction samples with
  | nil => simp [touchMessages]
  | cons p rest ih =>
    by_cases active : p.Active
    · simp [touchMessages, active]
    · simpa [touchMessages, active] using ih

theorem message_active (active : p.Active) : p.message = some p := by
  have high : 20 ≤ p.z0.toNat := active
  refine if_neg ?_
  rintro ⟨zero, -⟩
  rw [zero] at high
  exact absurd high (by decide)

theorem sentMessages_cons (before : Option AdcTouchData) (p : AdcTouchData) (rest : List AdcTouchData) :
    sentMessages (sampleEnds before (p :: rest)) =
      (if p.Active then [some p] else if adcTouchZ0Active < lastZ0Of before then [none] else []) ++
        sentMessages (sampleEnds (some p) rest) := by
  rw [sampleEnds, sentMessages, List.flatMap_cons]
  congr 1
  unfold touchActs
  split_ifs with active high
  · simp [AdcAct.point?, message_active active]
  · rfl
  · rfl

theorem lastZ0Of_idle {q : AdcTouchData} (idle : ¬q.Active) : ¬adcTouchZ0Active < lastZ0Of (some q) := by
  rw [lastZ0Of, if_neg idle]
  decide

theorem lastZ0Of_active {q : AdcTouchData} (active : q.Active) :
    adcTouchZ0Active < lastZ0Of (some q) ↔ q.z0 ≠ adcTouchZ0Active := by
  rw [lastZ0Of, if_pos active, BitVec.lt_def, ne_eq, ← BitVec.toNat_inj]
  have high : adcTouchZ0Active.toNat ≤ q.z0.toNat := active
  omega

theorem sentMessages_head {q : AdcTouchData} (idle : ¬q.Active) (samples : List AdcTouchData) :
    (sentMessages (sampleEnds (some q) samples)).head? ≠ some none := by
  induction samples generalizing q with
  | nil => simp [sampleEnds, sentMessages]
  | cons p rest ih =>
    rw [sentMessages_cons, if_neg (lastZ0Of_idle idle)]
    by_cases active : p.Active
    · simp [active]
    · simpa [active] using ih active

def touchedAt : Option AdcTouchData → Bool
  | none => false
  | some q => decide q.Active

/-- A condition on the sample before an idle one, at every idle sample from here on. -/
def IdleMeets (good : AdcTouchData → Prop) (before : Option AdcTouchData) (samples : List AdcTouchData) :
    Prop :=
  Runs.StepsMeet (fun _ p => some p) (fun before p => ¬p.Active → ∃ q, before = some q ∧ good q)
    before samples

theorem idleMeets_cons {good : AdcTouchData → Prop} {before : Option AdcTouchData} {p : AdcTouchData}
    {rest : List AdcTouchData} : IdleMeets good before (p :: rest) ↔
      (¬p.Active → ∃ q, before = some q ∧ good q) ∧ IdleMeets good (some p) rest :=
  Runs.stepsMeet_cons

/-- The messages are right just where each idle sample follows another one, of a pressure that is not
the threshold itself. -/
theorem sentMessages_iff (before : Option AdcTouchData) (samples : List AdcTouchData) :
    sentMessages (sampleEnds before samples) = touchMessages (touchedAt before) samples ↔
      IdleMeets (·.z0 ≠ adcTouchZ0Active) before samples := by
  induction samples generalizing before with
  | nil => exact iff_of_true rfl Runs.stepsMeet_nil
  | cons p rest ih =>
    rw [sentMessages_cons, touchMessages, idleMeets_cons]
    by_cases active : p.Active
    · have next := ih (some p)
      rw [touchedAt, decide_eq_true active] at next
      simp [active, next]
    · have next := ih (some p)
      rw [touchedAt, decide_eq_false active] at next
      rw [if_neg active, if_neg active, forall_prop_of_true active]
      cases before with
      | none =>
        -- the value at start-up passes for a touch
        rw [if_pos (show adcTouchZ0Active < lastZ0Of none by decide)]
        refine iff_of_false ?_ (by rintro ⟨⟨q, same, _⟩, _⟩; cases same)
        intro same
        have head := touchMessages_head rest
        rw [show touchedAt none = false from rfl, if_neg Bool.false_ne_true] at same
        rw [← same] at head
        exact head rfl
      | some q =>
        by_cases touched : q.Active
        · rw [touchedAt, decide_eq_true touched, if_pos rfl]
          by_cases boundary : q.z0 = adcTouchZ0Active
          · rw [if_neg (mt (lastZ0Of_active touched).mp (not_not.mpr boundary))]
            refine iff_of_false ?_ (by rintro ⟨⟨_, same, other⟩, _⟩; cases same; exact other boundary)
            intro same
            have head := sentMessages_head active rest
            rw [List.nil_append] at same
            rw [same] at head
            exact head rfl
          · rw [if_pos ((lastZ0Of_active touched).mpr boundary), List.singleton_append,
              List.cons.injEq, and_iff_right rfl, next]
            exact (and_iff_right ⟨q, rfl, boundary⟩).symm
        · have low : q.z0 ≠ adcTouchZ0Active := by
            rintro same
            exact touched (show adcTouchZ0Active ≤ q.z0 from same ▸ BitVec.le_refl _)
          rw [touchedAt, decide_eq_false touched, if_neg (lastZ0Of_idle touched),
            if_neg Bool.false_ne_true, List.nil_append, next]
          exact (and_iff_right ⟨q, rfl, low⟩).symm

/-- The timer is stopped just with the releases where each idle sample meets a last pressure above the
threshold. -/
theorem stops_iff (before : Option AdcTouchData) (samples : List AdcTouchData) :
    (∀ e ∈ sampleEnds before samples, .timerStop ∈ e.acts ↔
        ∃ p ∈ e.acts.filterMap AdcAct.point?, p.message = none) ↔
      Runs.StepsMeet (fun _ p => some p)
        (fun before p => ¬p.Active → adcTouchZ0Active < lastZ0Of before) before samples := by
  induction samples generalizing before with
  | nil => exact iff_of_true (by simp [sampleEnds]) Runs.stepsMeet_nil
  | cons p rest ih =>
    rw [sampleEnds, List.forall_mem_cons, Runs.stepsMeet_cons, ih]
    refine and_congr_left fun _ => ?_
    unfold touchActs
    split_ifs with active high
    · simp [AdcAct.point?, message_active active, active]
    · simp [AdcAct.point?, AdcTouchData.message, high]
    · simp [AdcAct.point?, active, high]

theorem sampleEnds_data (before : Option AdcTouchData) (samples : List AdcTouchData) :
    (sampleEnds before samples).map SampleEnd.data = samples := by
  induction samples generalizing before with
  | nil => rfl
  | cons p rest ih => rw [sampleEnds, List.map_cons, ih]

theorem idleMeets_iff (samples : List AdcTouchData) :
    IdleMeets (·.z0 ≠ adcTouchZ0Active) none samples ∧
      Runs.StepsMeet (fun _ p => some p)
        (fun before p => ¬p.Active → adcTouchZ0Active < lastZ0Of before) none samples ↔
      IdleMeets (adcTouchZ0Active < ·.z0) none samples := by
  unfold IdleMeets
  rw [← Runs.stepsMeet_and]
  refine Runs.stepsMeet_congr (fun _ => True) ?_ (fun _ _ _ _ => trivial) trivial samples
  intro before p _
  constructor
  · rintro ⟨other, high⟩ idle
    obtain ⟨q, rfl, ne⟩ := other idle
    have above := high idle
    by_cases active : q.Active
    · rw [lastZ0Of, if_pos active] at above
      exact ⟨q, rfl, above⟩
    · exact absurd above (lastZ0Of_idle active)
  · intro above
    refine ⟨fun idle => ?_, fun idle => ?_⟩
    · obtain ⟨q, same, high⟩ := above idle
      exact ⟨q, same, fun equal => BitVec.lt_irrefl _ (equal ▸ high)⟩
    · obtain ⟨q, rfl, high⟩ := above idle
      rwa [lastZ0Of, if_pos (show q.Active from BitVec.le_of_lt high)]

end Law

section Run

variable {regs : AdcRegs} {events : List AdcEvent}

theorem start_log (room : Runs.StepsMeet AdcRun.step AdcRun.Room (AdcRun.start regs) events) :
    (events.foldl AdcRun.step (AdcRun.start regs)).log =
      sampleEnds none (events.filterMap AdcEvent.data?) :=
  (AdcRun.start_tracks regs).run events room

/-- The messages alone are those of the runs of active samples exactly if every idle sample comes
directly after another sample, and not after one of the threshold itself. -/
theorem adc_messages_iff (room : Runs.StepsMeet AdcRun.step AdcRun.Room (AdcRun.start regs) events) :
    sentMessages (events.foldl AdcRun.step (AdcRun.start regs)).log =
        touchMessages false (events.filterMap AdcEvent.data?) ↔
      IdleMeets (·.z0 ≠ adcTouchZ0Active) none (events.filterMap AdcEvent.data?) := by
  rw [start_log room]
  exact sentMessages_iff none _

/-- In every run whose queue has room, the messages are those of the runs of active samples and the
timer is stopped just where a release is sent, exactly if every idle sample comes directly after one
above the threshold. -/
theorem adc_touch_iff (room : Runs.StepsMeet AdcRun.step AdcRun.Room (AdcRun.start regs) events) :
    (events.foldl AdcRun.step (AdcRun.start regs)).Follows ↔
      IdleMeets (adcTouchZ0Active < ·.z0) none (events.filterMap AdcEvent.data?) := by
  have log := start_log room
  have messages := adc_messages_iff room
  rw [log] at messages
  have data := sampleEnds_data none (events.filterMap AdcEvent.data?)
  rw [← idleMeets_iff, ← messages, ← stops_iff, ← log]
  constructor
  · rintro ⟨sent, stopped⟩
    rw [log, data] at sent
    exact ⟨log ▸ sent, stopped⟩
  · rintro ⟨sent, stopped⟩
    refine ⟨?_, stopped⟩
    rw [log, data]
    exact log ▸ sent

end Run

def shortTouch : List AdcEvent := [.penDown, .tick, .sample 0 100, .tick, .sample 0 0, .read 2]

theorem adc_touch_iff_short :
    (shortTouch.foldl AdcRun.step (AdcRun.start ⟨0, 0, 0, 0, 0, 0⟩)).Follows ↔
      IdleMeets (adcTouchZ0Active < ·.z0) none (shortTouch.filterMap AdcEvent.data?) := by
  refine adc_touch_iff ?_
  simp only [shortTouch, Runs.stepsMeet_cons]
  refine ⟨trivial, trivial, ?_, trivial, ?_, trivial, Runs.stepsMeet_nil⟩
  · show _ < _
    decide
  · show _ < _
    decide

/-- One sample of the threshold itself and an idle one: the touch is never released. -/
theorem boundary_never_released :
    ¬([AdcEvent.penDown, .tick, .sample 0 20, .tick, .sample 0 0].foldl AdcRun.step
      (AdcRun.start ⟨0, 0, 0, 0, 0, 0⟩)).Follows := by
  rintro ⟨messages, -⟩
  revert messages
  decide

end NuMakerMA35
