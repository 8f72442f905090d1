import NuMakerMA35.RtcTime
import Mathlib.Data.List.GetD
import Mathlib.Tactic.IntervalCases

namespace NuMakerMA35

/-- A second that the registers can show. -/
structure RtcInstant where
  sec : Int
  within : rtcCentury sec

/-- The clock goes on for a second; behind the last second of the century comes its first. -/
def RtcInstant.next (u : RtcInstant) : RtcInstant :=
  if room : u.sec + 1 < 4102444800 then
    ⟨u.sec + 1, Int.le_trans u.within.1 (Int.le_add_one (Int.le_refl _)), room⟩
  else ⟨946684800, by decide, by decide⟩

/-- The hour as the register has it: in the 12-hour format 1 to 12 and 21 to 32. -/
def rtcHourShown (clkfmt : U32) (hour : Int) : U32 :=
  if clkfmt &&& rtcClkfmt24henMsk = rtcClock12 then
    BitVec.ofInt 32 (if hour = 0 then 12 else if hour < 12 then hour else if hour = 12 then 32 else hour + 8)
  else BitVec.ofInt 32 hour

def rtcShown (clkfmt : U32) (u : RtcInstant) : RtcTimeData :=
  { rtcHwTime u.sec ⟨0, 0, 0, 0, 0, 0, 0, 0, 0⟩ with
    hour := rtcHourShown clkfmt (gmtimeR u.sec).hour
    dayOfWeek := BitVec.ofInt 32 ((u.sec / 86400 + 4) % 7) }

def NuRtc.atInstant (r : NuRtc) (u : RtcInstant) : NuRtc :=
  { r with
    weekday := (rtcShown r.clkfmt u).dayOfWeek
    cal := rtcRegCal (rtcShown r.clkfmt u)
    time := rtcRegTime (rtcShown r.clkfmt u) }

/-- What the accesses of `RTC_GetDateAndTime` take from the registers, in their order. -/
def NuRtc.field (r : NuRtc) : Nat → U32
  | 0 => r.clkfmt &&& rtcClkfmt24henMsk
  | 1 => r.weekday &&& rtcWeekdayMsk
  | 2 => rtcDigit r.cal 0xf 20
  | 3 => rtcDigit r.cal 0xf 16
  | 4 => rtcDigit r.cal 0x1 12
  | 5 => rtcDigit r.cal 0xf 8
  | 6 => rtcDigit r.cal 0x3 4
  | 7 => rtcDigit r.cal 0xf 0
  | 8 => rtcDigit r.time 0x3 20
  | 9 => rtcDigit r.time 0xf 16
  | 10 => rtcDigit r.time 0x7 12
  | 11 => rtcDigit r.time 0xf 8
  | 12 => rtcDigit r.time 0x7 4
  | _ => rtcDigit r.time 0xf 0

def rtcFields : Nat := 14

def rtcFromFields (v : Nat → U32) (d : RtcTimeData) : RtcTimeData :=
  let hour := v 8 * 10 + v 9
  { year := v 2 * 10 + v 3 + rtcYear2000
    month := v 4 * 10 + v 5
    day := v 6 * 10 + v 7
    dayOfWeek := v 1
    hour := if v 0 = rtcClock12 ∧ 21 ≤ hour then hour - 20 else hour
    minute := v 10 * 10 + v 11
    second := v 12 * 10 + v 13
    timeScale := v 0
    amPm := if v 0 ≠ rtcClock12 then d.amPm else if 21 ≤ hour then rtcPm else rtcAm }

theorem NuRtc.getDateAndTime_fields (r : NuRtc) (d : RtcTimeData) :
    r.getDateAndTime d = rtcFromFields r.field d := rfl

/-- A call of `GET_TIME` while the clock runs: the instant it has come to, those of the accesses
made so far, and all that the clock held since the call began. -/
structure RtcCall where
  now : RtcInstant
  seen : List RtcInstant
  held : List RtcInstant

inductive RtcEvent where
  | tick
  | access

def RtcCall.start (u : RtcInstant) : RtcCall := ⟨u, [], [u]⟩

def RtcCall.step (c : RtcCall) : RtcEvent → RtcCall
  | .tick =>
    { c with
      now := c.now.next
      held := if c.seen.length < rtcFields then c.held ++ [c.now.next] else c.held }
  | .access => if c.seen.length < rtcFields then { c with seen := c.seen ++ [c.now] } else c

def RtcCall.taken (c : RtcCall) (r : NuRtc) (k : Nat) : U32 :=
  (r.atInstant (c.seen.getD k c.now)).field k

def RtcCall.reply (c : RtcCall) (r : NuRtc) (junk : RtcTimeData) : Option Int :=
  timegm (rtcTmOut (rtcFromFields (c.taken r) junk))

/-- A call that has come to its end returns a time the clock held during the call. -/
def RtcCall.Consistent (c : RtcCall) (r : NuRtc) : Prop :=
  c.seen.length = rtcFields → ∀ junk, ∃ u ∈ c.held, c.reply r junk = some u.sec

/-- The 24-hour format, or an hour that both formats show alike. -/
def NuRtc.ShowsHour (r : NuRtc) (u : RtcInstant) : Prop :=
  r.clkfmt &&& rtcClkfmt24henMsk = rtcClock12 →
    1 ≤ (gmtimeR u.sec).hour ∧ (gmtimeR u.sec).hour ≤ 12

/-- No tick during the call changes a digit that was taken already, and the hour at the last
access is one that the format shows as it is. -/
def RtcCall.Meets (r : NuRtc) (c : RtcCall) : RtcEvent → Prop
  | .tick => c.seen.length < rtcFields → ∀ k, 2 ≤ k → k < c.seen.length →
      (r.atInstant c.now.next).field k = (r.atInstant c.now).field k
  | .access => c.seen.length + 1 = rtcFields → r.ShowsHour c.now

section Shown

variable (r : NuRtc) (u : RtcInstant)

theorem rtcShown_shown (clkfmt : U32) : (rtcShown clkfmt u).Shown := by
  obtain ⟨proper, -, -⟩ := rtcHwTime_spec u.within ⟨0, 0, 0, 0, 0, 0, 0, 0, 0⟩
  have bounds := (gmtimeR_bounds u.within).1.hour
  refine ⟨proper.year, proper.month, proper.day, ?_, proper.minute, proper.second⟩
  change (rtcHourShown clkfmt (gmtimeR u.sec).hour).toNat < 40
  unfold rtcHourShown
  split_ifs <;> rw [ofInt_toNat (by omega) (by omega)] <;> omega

theorem rtcHour_read {clkfmt : U32} {hour : Int}
    (shows : clkfmt &&& rtcClkfmt24henMsk = rtcClock12 → 1 ≤ hour ∧ hour ≤ 12) :
    (if clkfmt &&& rtcClkfmt24henMsk = rtcClock12 ∧ 21 ≤ rtcHourShown clkfmt hour then
      rtcHourShown clkfmt hour - 20 else rtcHourShown clkfmt hour) = BitVec.ofInt 32 hour := by
  by_cases twelve : clkfmt &&& rtcClkfmt24henMsk = rtcClock12
  · obtain ⟨first, last⟩ := shows twelve
    have shown : rtcHourShown clkfmt hour = BitVec.ofInt 32 (if hour = 0 then 12 else
        if hour < 12 then hour else if hour = 12 then 32 else hour + 8) := if_pos twelve
    rw [shown]
    simp only [twelve, true_and]
    interval_cases hour <;> decide
  · have shown : rtcHourShown clkfmt hour = BitVec.ofInt 32 hour := if_neg twelve
    rw [if_neg (fun both => twelve both.1), shown]

theorem timegm_atInstant (shows : r.ShowsHour u) (junk : RtcTimeData) :
    timegm (rtcTmOut ((r.atInstant u).getDateAndTime junk)) = some u.sec := by
  obtain ⟨years, months, days, minutes, seconds, hours⟩ :=
    NuRtc.getDateAndTime_spec (r := r.atInstant u) junk (rtcShown_shown u r.clkfmt) rfl rfl
  have hour : ((r.atInstant u).getDateAndTime junk).hour = BitVec.ofInt 32 (gmtimeR u.sec).hour :=
    hours.trans (rtcHour_read shows)
  obtain ⟨-, back, -⟩ := rtcHwTime_spec u.within ⟨0, 0, 0, 0, 0, 0, 0, 0, 0⟩
  have same : rtcTmOut ((r.atInstant u).getDateAndTime junk) = gmtimeR u.sec := by
    rw [← back]
    unfold rtcTmOut
    rw [years, months, days, minutes, seconds, hour]
    rfl
  obtain ⟨after, before⟩ := u.within
  have limit : daysBefore 2100 = 47482 := rfl
  rw [same]
  exact timegm_gmtimeR (by omega) (by omega)

end Shown

section Runs

variable {r : NuRtc} {c : RtcCall}

/-- The digits taken are those of instant `u`. -/
def RtcCall.Agrees (c : RtcCall) (r : NuRtc) (u : RtcInstant) : Prop :=
  ∀ k, 2 ≤ k → k < c.seen.length → c.taken r k = (r.atInstant u).field k

/-- Before its end a call has digits of the instant it has come to, and after it those of an
instant it held. -/
structure RtcCall.Inv (c : RtcCall) (r : NuRtc) : Prop where
  bound : c.seen.length ≤ rtcFields
  current : c.now ∈ c.held ∨ c.seen.length = rtcFields
  during : c.seen.length < rtcFields → c.Agrees r c.now
  ended : c.seen.length = rtcFields → ∃ u ∈ c.held, r.ShowsHour u ∧ c.Agrees r u

theorem taken_seen {k : Nat} {now : RtcInstant} {held : List RtcInstant} (inside : k < c.seen.length) :
    RtcCall.taken ⟨now, c.seen, held⟩ r k = c.taken r k := by
  unfold RtcCall.taken
  rw [List.getD_eq_getElem _ _ inside, List.getD_eq_getElem _ _ inside]

theorem RtcCall.Inv.tick (inv : c.Inv r) (meets : c.Meets r .tick) : (c.step .tick).Inv r := by
  by_cases running : c.seen.length < rtcFields
  · have next : c.step .tick = ⟨c.now.next, c.seen, c.held ++ [c.now.next]⟩ := by
      simp only [RtcCall.step, if_pos running]
    rw [next]
    refine ⟨inv.bound, .inl (by simp), ?_, fun ended => absurd ended (Nat.ne_of_lt running)⟩
    intro _ k digit inside
    rw [taken_seen (c := c) inside, inv.during running k digit inside]
    exact (meets running k digit inside).symm
  · have next : c.step .tick = ⟨c.now.next, c.seen, c.held⟩ := by
      simp only [RtcCall.step, if_neg running]
    have finished : c.seen.length = rtcFields := Nat.le_antisymm inv.bound (Nat.le_of_not_lt running)
    rw [next]
    refine ⟨inv.bound, .inr finished, fun still => absurd still running, fun _ => ?_⟩
    obtain ⟨u, inside, shows, agrees⟩ := inv.ended finished
    refine ⟨u, inside, shows, fun k digit below => ?_⟩
    rw [taken_seen (c := c) below]
    exact agrees k digit below

theorem RtcCall.Inv.access (inv : c.Inv r) (meets : c.Meets r .access) :
    (c.step .access).Inv r := by
  by_cases running : c.seen.length < rtcFields
  · have next : c.step .access = ⟨c.now, c.seen ++ [c.now], c.held⟩ := by
      simp only [RtcCall.step, if_pos running]
    have held : c.now ∈ c.held := inv.current.resolve_right (Nat.ne_of_lt running)
    have count : (c.seen ++ [c.now]).length = c.seen.length + 1 := by simp
    have agrees : RtcCall.Agrees ⟨c.now, c.seen ++ [c.now], c.held⟩ r c.now := by
      intro k digit inside
      unfold RtcCall.taken
      rcases Nat.lt_or_ge k c.seen.length with before | last
      · have earlier := inv.during running k digit before
        unfold RtcCall.taken at earlier
        rwa [List.getD_append _ _ _ _ before]
      · have here : k = c.seen.length := by
          rw [count] at inside
          omega
        subst here
        rw [List.getD_append_right _ _ _ _ (Nat.le_refl _), Nat.sub_self]
        rfl
    rw [next]
    refine ⟨?_, .inl held, fun _ => agrees, fun ended => ⟨c.now, held, ?_, agrees⟩⟩
    · rw [count]
      exact running
    · rw [count] at ended
      exact meets ended
  · have same : c.step .access = c := by
      simp only [RtcCall.step, if_neg running]
    rw [same]
    exact inv

theorem RtcCall.Inv.consistent (inv : c.Inv r) : c.Consistent r := by
  intro ended junk
  obtain ⟨u, held, shows, agrees⟩ := inv.ended ended
  refine ⟨u, held, ?_⟩
  have digits (k : Nat) (digit : 2 ≤ k) (below : k < 14) :
      c.taken r k = (r.atInstant u).field k := agrees k digit (ended ▸ below)
  have format : c.taken r 0 = (r.atInstant u).field 0 := rfl
  have same : rtcTmOut (rtcFromFields (c.taken r) junk) =
      rtcTmOut ((r.atInstant u).getDateAndTime junk) := by
    rw [NuRtc.getDateAndTime_fields]
    simp only [rtcTmOut, rtcFromFields, format, digits 2 (by omega) (by omega),
      digits 3 (by omega) (by omega), digits 4 (by omega) (by omega),
      digits 5 (by omega) (by omega), digits 6 (by omega) (by omega),
      digits 7 (by omega) (by omega), digits 8 (by omega) (by omega),
      digits 9 (by omega) (by omega), digits 10 (by omega) (by omega),
      digits 11 (by omega) (by omega), digits 12 (by omega) (by omega),
      digits 13 (by omega) (by omega)]
  unfold RtcCall.reply
  rw [same]
  exact timegm_atInstant r u shows junk

/-- In every interleaving of accesses and ticks in which no tick changes a digit taken already,
the call returns a time that the clock held during the call. -/
theorem rtc_read_consistent (r : NuRtc) (u : RtcInstant) (es : List RtcEvent)
    (meets : Runs.StepsMeet RtcCall.step (RtcCall.Meets r) (.start u) es) :
    ∀ pre, pre <+: es → (pre.foldl RtcCall.step (.start u)).Consistent r := by
  intro pre front
  apply RtcCall.Inv.consistent
  apply Runs.foldl_invariant (RtcCall.Meets r) (fun c => c.Inv r)
  · intro c e inv met
    cases e with
    | tick => exact inv.tick met
    | access => exact inv.access met
  · exact ⟨Nat.zero_le _, .inl List.mem_cons_self, fun _ k _ none => absurd none (Nat.not_lt_zero k),
      fun ended => nomatch ended⟩
  · exact meets.front front

end Runs

def rtc24 : NuRtc := ⟨1, 0, 0, 0, 0, 0, 0⟩

def rtcMorning : RtcInstant := ⟨1000000000, by decide, by decide⟩

def quietTick : List RtcEvent := List.replicate 13 .access ++ [.tick, .access]

/-- The tick comes before the last digit, which is the only one it changes. -/
theorem rtc_quiet_tick_consistent :
    (quietTick.foldl RtcCall.step (.start rtcMorning)).Consistent rtc24 := by
  have access (c : RtcCall) : RtcCall.Meets rtc24 c .access :=
    fun _ twelve => absurd twelve (by decide)
  have tick (c : RtcCall) (now : c.now = rtcMorning) (count : c.seen.length = 13) :
      RtcCall.Meets rtc24 c .tick := by
    intro _ k digit below
    rw [now]
    rw [count] at below
    interval_cases k <;> decide
  have done : Runs.StepsMeet RtcCall.step (RtcCall.Meets rtc24)
      (([.tick, .access] : List RtcEvent).foldl RtcCall.step
        ((List.replicate 13 RtcEvent.access).foldl RtcCall.step (.start rtcMorning))) [] :=
    fun pre e front => by simp at front
  refine rtc_read_consistent rtc24 rtcMorning quietTick ?_ quietTick List.prefix_rfl
  simp only [quietTick, List.replicate, List.cons_append, List.nil_append, Runs.stepsMeet_cons, access, true_and]
  exact ⟨tick _ rfl rfl, done⟩

def rtcMidnight : RtcInstant := ⟨1704067199, by decide, by decide⟩

def tornMidnight : List RtcEvent := List.replicate 8 .access ++ .tick :: List.replicate 6 .access

/-- The year ends between the reads of the date and those of the time: the time returned is that
of the last day's first second. -/
theorem rtc_midnight_torn :
    ¬∀ pre, pre <+: tornMidnight → (pre.foldl RtcCall.step (.start rtcMidnight)).Consistent rtc24 := by
  intro consistent
  obtain ⟨u, held, reply⟩ := consistent _ List.prefix_rfl rfl ⟨0, 0, 0, 0, 0, 0, 0, 0, 0⟩
  have torn : (tornMidnight.foldl RtcCall.step (.start rtcMidnight)).reply rtc24
      ⟨0, 0, 0, 0, 0, 0, 0, 0, 0⟩ = some 1703980800 := by decide
  have early := Option.some.inj (torn.symm.trans reply)
  have since : ∀ v ∈ [rtcMidnight, rtcMidnight.next], v.sec ≠ 1703980800 := by decide
  exact since u held early.symm

end NuMakerMA35
