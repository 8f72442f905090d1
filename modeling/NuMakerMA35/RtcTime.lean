import NuMakerMA35.Rtc

namespace NuMakerMA35

structure RtcRun where
  rtc : NuRtc
  last : Option Int

def RtcRun.step (s : RtcRun) (cmd : RtcCmd) : RtcRun :=
  match s.rtc.control cmd, cmd with
  | (rtc, .status result), .setTime t _ => ⟨rtc, if result = rtEok then some t else s.last⟩
  | (rtc, _), _ => ⟨rtc, s.last⟩

def RtcRun.Keeps (s : RtcRun) : Prop :=
  ∀ t junk, s.last = some t → (s.rtc.control (.getTime junk)).2 = .time (some t)

/-- An alarm whose local happens to hold the 12-hour scale needs a time before 21 o'clock. -/
def RtcRun.Meets (s : RtcRun) : RtcCmd → Prop
  | .setAlarm _ _ _ junk => junk.timeScale = rtcClock12 → ∀ t, s.last = some t → t % 86400 < 75600
  | _ => True

section Digits

theorem nibble_or (x y : Nat) (small : y < 16) (k : Nat) :
    x <<< (k + 4) ||| y <<< k = (x * 16 + y) <<< k := by
  have here : x * 16 + y = x <<< 4 ||| y := by
    rw [← Nat.shiftLeft_add_eq_or_of_lt small, Nat.shiftLeft_eq]
  rw [here, Nat.shiftLeft_or_distrib, ← Nat.shiftLeft_add, Nat.add_comm]

theorem rtcDigits_toNat {a b c : U32} (aSmall : a.toNat < 100) (bSmall : b.toNat < 100)
    (cSmall : c.toNat < 100) :
    (rtcDigits a b c).toNat = (((((a.toNat / 10) * 16 + a.toNat % 10) * 16 + b.toNat / 10) * 16 +
      b.toNat % 10) * 16 + c.toNat / 10) * 16 + c.toNat % 10 := by
  have shift (x : Nat) (small : x < 16) (k : Nat) (within : k ≤ 20) : x <<< k % 2 ^ 32 = x <<< k := by
    apply Nat.mod_eq_of_lt
    rw [Nat.shiftLeft_eq]
    have bound : 2 ^ k ≤ 2 ^ 20 := Nat.pow_le_pow_right (by omega) within
    calc x * 2 ^ k ≤ 15 * 2 ^ 20 := Nat.mul_le_mul (by omega) bound
      _ < 2 ^ 32 := by decide
  unfold rtcDigits
  have ten : (10 : U32).toNat = 10 := rfl
  simp only [BitVec.toNat_or, BitVec.toNat_shiftLeft, BitVec.toNat_udiv, BitVec.toNat_umod, ten]
  rw [shift _ (by omega) 20 (by omega), shift _ (by omega) 16 (by omega), shift _ (by omega) 12 (by omega),
    shift _ (by omega) 8 (by omega), shift _ (by omega) 4 (by omega)]
  rw [nibble_or _ _ (by omega) 16, nibble_or _ _ (by omega) 12, nibble_or _ _ (by omega) 8,
    nibble_or _ _ (by omega) 4]
  have last := nibble_or ((((a.toNat / 10 * 16 + a.toNat % 10) * 16 + b.toNat / 10) * 16 +
    b.toNat % 10) * 16 + c.toNat / 10) (c.toNat % 10) (by omega) 0
  rw [Nat.zero_add, Nat.shiftLeft_zero, Nat.shiftLeft_zero] at last
  exact last

theorem nibble_div {x y : Nat} (small : y < 16) (k : Nat) : (x * 16 + y) / 2 ^ (k + 4) = x / 2 ^ k := by
  have first : (x * 16 + y) / 2 ^ 4 = x := by omega
  rw [Nat.add_comm k 4, Nat.pow_add, ← Nat.div_div_eq_div_mul, first]

theorem nibble_mod {x y : Nat} (small : y < 16) : (x * 16 + y) / 2 ^ 0 % 16 = y := by omega

theorem digits_of {n a b c d e f : Nat}
    (value : n = ((((a * 16 + b) * 16 + c) * 16 + d) * 16 + e) * 16 + f)
    (bSmall : b < 16) (cSmall : c < 16) (dSmall : d < 16) (eSmall : e < 16) (fSmall : f < 16) :
    n / 2 ^ 20 = a ∧ n / 2 ^ 16 % 16 = b ∧ n / 2 ^ 12 % 16 = c ∧ n / 2 ^ 8 % 16 = d ∧
      n / 2 ^ 4 % 16 = e ∧ n / 2 ^ 0 % 16 = f := by
  subst value
  refine ⟨?_, ?_, ?_, ?_, ?_, nibble_mod fSmall⟩
  · rw [nibble_div fSmall 16, nibble_div eSmall 12, nibble_div dSmall 8, nibble_div cSmall 4,
      nibble_div bSmall 0, Nat.pow_zero, Nat.div_one]
  · rw [nibble_div fSmall 12, nibble_div eSmall 8, nibble_div dSmall 4, nibble_div cSmall 0,
      nibble_mod bSmall]
  · rw [nibble_div fSmall 8, nibble_div eSmall 4, nibble_div dSmall 0, nibble_mod cSmall]
  · rw [nibble_div fSmall 4, nibble_div eSmall 0, nibble_mod dSmall]
  · rw [nibble_div fSmall 0, nibble_mod eSmall]

theorem digit_narrow {v width digit : Nat} (nibble : v % 16 = digit) (few : width ≤ 4)
    (small : digit < 2 ^ width) : v % 2 ^ width = digit := by
  have parts : 2 ^ 4 = 2 ^ width * 2 ^ (4 - width) := by rw [← Nat.pow_add, Nat.add_sub_cancel' few]
  rw [← Nat.mod_mod_of_dvd v ⟨2 ^ (4 - width), parts⟩, show 2 ^ 4 = 16 from rfl, nibble,
    Nat.mod_eq_of_lt small]

theorem number_of {n high low : U32} (top : high.toNat = n.toNat / 10)
    (bottom : low.toNat = n.toNat % 10) : high * 10 + low = n := by
  have ten : (10 : U32).toNat = 10 := rfl
  have bound := n.isLt
  apply BitVec.eq_of_toNat_eq
  rw [BitVec.toNat_add, BitVec.toNat_mul, top, bottom, ten]
  omega

theorem rtcDigit_toNat (x : U32) (width pos : Nat) (fits : width + pos ≤ 32) :
    (rtcDigit x (BitVec.ofNat 32 (2 ^ width - 1)) pos).toNat = x.toNat / 2 ^ pos % 2 ^ width :=
  maskField_toNat x fits

end Digits

section Clock

variable {r : NuRtc} {d junk : RtcTimeData} {t : Int}

structure RtcTimeData.Proper (d : RtcTimeData) : Prop where
  year : 2000 ≤ d.year.toNat ∧ d.year.toNat < 2100
  month : d.month.toNat < 20
  day : d.day.toNat < 40
  hour : d.hour.toNat < 24
  minute : d.minute.toNat < 60
  second : d.second.toNat < 60

/-- Numbers that the digits of the registers can show; the hours of the afternoon are 21 to 32 in
the 12-hour format. -/
structure RtcTimeData.Shown (d : RtcTimeData) : Prop where
  year : 2000 ≤ d.year.toNat ∧ d.year.toNat < 2100
  month : d.month.toNat < 20
  day : d.day.toNat < 40
  hour : d.hour.toNat < 40
  minute : d.minute.toNat < 60
  second : d.second.toNat < 60

theorem RtcTimeData.Proper.shown (proper : d.Proper) : d.Shown :=
  ⟨proper.year, proper.month, proper.day, Nat.lt_trans proper.hour (by decide), proper.minute,
    proper.second⟩

/-- What is read of a date that the registers hold: in the 12-hour format the hours from 21 on are
taken for hours of the afternoon. -/
theorem NuRtc.getDateAndTime_spec (junk : RtcTimeData) (shown : d.Shown) (cal : r.cal = rtcRegCal d)
    (time : r.time = rtcRegTime d) :
    (r.getDateAndTime junk).year = d.year ∧ (r.getDateAndTime junk).month = d.month ∧
      (r.getDateAndTime junk).day = d.day ∧ (r.getDateAndTime junk).minute = d.minute ∧
      (r.getDateAndTime junk).second = d.second ∧
      (r.getDateAndTime junk).hour =
        if r.clkfmt &&& rtcClkfmt24henMsk = rtcClock12 ∧ 21 ≤ d.hour then d.hour - 20 else d.hour := by
  obtain ⟨year, month, day, hour, minute, second⟩ := shown
  have since : (d.year - rtcYear2000).toNat = d.year.toNat - 2000 := by
    have value : rtcYear2000.toNat = 2000 := rfl
    rw [BitVec.toNat_sub, value]
    omega
  have calDigits := rtcDigits_toNat (a := d.year - rtcYear2000) (b := d.month) (c := d.day)
    (by omega) (by omega) (by omega)
  have timeDigits := rtcDigits_toNat (a := d.hour) (b := d.minute) (c := d.second)
    (by omega) (by omega) (by omega)
  rw [← rtcRegTime, ← time] at timeDigits
  rw [← rtcRegCal, ← cal, since] at calDigits
  have tens (n : Nat) {k : Nat} (small : n < 10 * k) : n / 10 < k := Nat.div_lt_of_lt_mul small
  have ones (n : Nat) : n % 10 < 16 := Nat.lt_trans (Nat.mod_lt n (by decide)) (by decide)
  have decade : (d.year.toNat - 2000) / 10 < 2 ^ 4 := by omega
  obtain ⟨c5, c4, c3, c2, c1, c0⟩ := digits_of calDigits (ones _) (tens _ (by omega)) (ones _)
    (tens _ (by omega)) (ones _)
  obtain ⟨t5, t4, t3, t2, t1, t0⟩ := digits_of timeDigits (ones _) (tens _ (by omega)) (ones _)
    (tens _ (by omega)) (ones _)
  have digit (x : U32) (width pos : Nat) (fits : width + pos ≤ 32) := rtcDigit_toNat x width pos fits
  have years : rtcDigit r.cal 0xf 20 * 10 + rtcDigit r.cal 0xf 16 = d.year - rtcYear2000 := by
    apply number_of
    · rw [since, ← c5]
      exact (digit r.cal 4 20 (by decide)).trans (Nat.mod_eq_of_lt (c5.trans_lt decade))
    · rw [since]
      exact (digit r.cal 4 16 (by decide)).trans c4
  have months : rtcDigit r.cal 0x1 12 * 10 + rtcDigit r.cal 0xf 8 = d.month := by
    apply number_of
    · exact (digit r.cal 1 12 (by decide)).trans (digit_narrow c3 (by decide) (tens _ month))
    · exact (digit r.cal 4 8 (by decide)).trans c2
  have days : rtcDigit r.cal 0x3 4 * 10 + rtcDigit r.cal 0xf 0 = d.day := by
    apply number_of
    · exact (digit r.cal 2 4 (by decide)).trans (digit_narrow c1 (by decide) (tens _ day))
    · exact (digit r.cal 4 0 (by decide)).trans c0
  have hours : rtcDigit r.time 0x3 20 * 10 + rtcDigit r.time 0xf 16 = d.hour := by
    apply number_of
    · rw [← t5]
      exact (digit r.time 2 20 (by decide)).trans (Nat.mod_eq_of_lt (t5.trans_lt (tens _ hour)))
    · exact (digit r.time 4 16 (by decide)).trans t4
  have minutes : rtcDigit r.time 0x7 12 * 10 + rtcDigit r.time 0xf 8 = d.minute := by
    apply number_of
    · exact (digit r.time 3 12 (by decide)).trans
        (digit_narrow t3 (by decide) (tens _ (Nat.lt_trans minute (by decide))))
    · exact (digit r.time 4 8 (by decide)).trans t2
  have seconds : rtcDigit r.time 0x7 4 * 10 + rtcDigit r.time 0xf 0 = d.second := by
    apply number_of
    · exact (digit r.time 3 4 (by decide)).trans
        (digit_narrow t1 (by decide) (tens _ (Nat.lt_trans second (by decide))))
    · exact (digit r.time 4 0 (by decide)).trans t0
  unfold NuRtc.getDateAndTime NuRtc.read
  refine ⟨?_, months, days, minutes, seconds, by simp only [hours]⟩
  rw [years]
  exact BitVec.sub_add_cancel _ _

theorem ofInt_toNat {x : Int} (nonneg : 0 ≤ x) (small : x < 2 ^ 31) :
    (BitVec.ofInt 32 x).toNat = x.toNat := by
  rw [BitVec.toNat_ofInt]
  omega

theorem toInt_of_small {x : U32} (small : x.toNat < 2 ^ 31) : x.toInt = x.toNat := by
  rw [BitVec.toInt_eq_toNat_cond]
  omega

def rtcInRange (t : Int) : Prop := 946684800 ≤ t ∧ t ≤ 2147483647

theorem nuRtcIsDateValid_iff (t : Int) : nuRtcIsDateValid t = rtEok ↔ rtcInRange t := by
  have upper : timegm rtcTmUpperBound = some 2147483647 := by decide
  have lower : timegm rtcTmLowerBound = some 946684800 := by decide
  unfold nuRtcIsDateValid rtcInRange
  rw [upper, lower]
  dsimp only
  split_ifs with outside
  · constructor
    · intro wrong
      cases wrong
    · intro inside
      omega
  · exact ⟨fun _ => by omega, fun _ => rfl⟩

def rtcCentury (t : Int) : Prop := 946684800 ≤ t ∧ t < 4102444800

theorem rtcInRange.century (inside : rtcInRange t) : rtcCentury t := by
  obtain ⟨after, before⟩ := inside
  exact ⟨after, by omega⟩

theorem gmtimeR_bounds (inside : rtcCentury t) :
    (gmtimeR t).Proper (t / 86400) ∧ 100 ≤ (gmtimeR t).year ∧ (gmtimeR t).year < 200 ∧
      0 ≤ (gmtimeR t).mon ∧ (gmtimeR t).mon < 12 ∧ 1 ≤ (gmtimeR t).mday ∧ (gmtimeR t).mday ≤ 31 := by
  obtain ⟨after, before⟩ := inside
  have limit : daysBefore 2100 = 47482 := rfl
  obtain ⟨proper, -⟩ := gmtimeR_proper (t := t) (by omega) (by omega)
  refine ⟨proper, ?_, proper.year.2, ?_⟩
  · obtain ⟨yday, nonneg, short, -, sum⟩ := proper.month
    by_contra early
    have next := daysBefore_succ (y := (gmtimeR t).year + 1900) (by have := proper.year.1; omega)
      (by omega)
    have first : daysBefore ((gmtimeR t).year + 1900 + 1) ≤ daysBefore 2000 :=
      daysBefore_le (by omega)
    have start : daysBefore 2000 = 10957 := rfl
    omega
  · obtain ⟨yday, nonneg, short, month, -⟩ := proper.month
    obtain ⟨mon, mday, -, -, found, lower, upper, first, last, -⟩ := gmtimeMonth_spec nonneg short
    rw [month] at found
    obtain ⟨rfl, rfl⟩ := Prod.mk.inj found
    exact ⟨lower, upper, first, last⟩

theorem rtcHwTime_spec (inside : rtcCentury t) (junk : RtcTimeData) :
    (rtcHwTime t junk).Proper ∧
      rtcTmOut (rtcHwTime t junk) = gmtimeR t ∧
      (rtcHwTime t junk).hour.toNat = (gmtimeR t).hour.toNat := by
  obtain ⟨proper, since, before, january, december, first, last⟩ := gmtimeR_bounds inside
  obtain ⟨hourLow, hourHigh⟩ := proper.hour
  obtain ⟨minLow, minHigh⟩ := proper.min
  obtain ⟨secLow, secHigh⟩ := proper.sec
  have year : (rtcHwTime t junk).year.toNat = ((gmtimeR t).year + 1900).toNat :=
    ofInt_toNat (by omega) (by omega)
  have month : (rtcHwTime t junk).month.toNat = ((gmtimeR t).mon + 1).toNat :=
    ofInt_toNat (by omega) (by omega)
  have day : (rtcHwTime t junk).day.toNat = (gmtimeR t).mday.toNat :=
    ofInt_toNat (by omega) (by omega)
  have hour : (rtcHwTime t junk).hour.toNat = (gmtimeR t).hour.toNat :=
    ofInt_toNat (by omega) (by omega)
  have minute : (rtcHwTime t junk).minute.toNat = (gmtimeR t).min.toNat :=
    ofInt_toNat (by omega) (by omega)
  have second : (rtcHwTime t junk).second.toNat = (gmtimeR t).sec.toNat :=
    ofInt_toNat (by omega) (by omega)
  have zero : (1900 : U32).toNat = 1900 := rfl
  have one : (1 : U32).toNat = 1 := rfl
  refine ⟨⟨by omega, by omega, by omega, by omega, by omega, by omega⟩, ?_, hour⟩
  unfold rtcTmOut
  have yearBack : ((rtcHwTime t junk).year - 1900).toNat = (gmtimeR t).year.toNat := by
    rw [BitVec.toNat_sub, year, zero]
    omega
  have monthBack : ((rtcHwTime t junk).month - 1).toNat = (gmtimeR t).mon.toNat := by
    rw [BitVec.toNat_sub, month, one]
    omega
  rw [toInt_of_small (by omega), toInt_of_small (by omega), toInt_of_small (by omega),
    toInt_of_small (by omega), toInt_of_small (by omega), toInt_of_small (by omega), yearBack,
    monthBack, day, hour, minute, second]
  rw [Int.toNat_of_nonneg (by omega), Int.toNat_of_nonneg (by omega), Int.toNat_of_nonneg (by omega),
    Int.toNat_of_nonneg (by omega), Int.toNat_of_nonneg (by omega), Int.toNat_of_nonneg (by omega)]

theorem NuRtc.getTime_reply (inside : rtcInRange t) {old : RtcTimeData}
    (cal : r.cal = rtcRegCal (rtcHwTime t old)) (time : r.time = rtcRegTime (rtcHwTime t old)) :
    (r.control (.getTime junk)).2 = .time (some
      (if r.clkfmt &&& rtcClkfmt24henMsk = rtcClock12 ∧ 75600 ≤ t % 86400 then t - 72000 else t)) := by
  obtain ⟨whole, back, hour⟩ := rtcHwTime_spec inside.century old
  obtain ⟨years, months, days, minutes, seconds, hours⟩ :=
    NuRtc.getDateAndTime_spec junk whole.shown cal time
  obtain ⟨after, before⟩ := inside
  have limit : daysBefore 2100 = 47482 := rfl
  obtain ⟨proper, rest⟩ := gmtimeR_proper (t := t) (by omega) (by omega)
  have bounds := proper.hour
  have minBounds := proper.min
  have secBounds := proper.sec
  have late : 21 ≤ (rtcHwTime t old).hour ↔ 75600 ≤ t % 86400 := by
    have value : (21 : U32).toNat = 21 := rfl
    rw [BitVec.le_def, hour, value]
    omega
  have fields : rtcTmOut (r.getDateAndTime junk) =
      { rtcTmOut (rtcHwTime t old) with hour := (r.getDateAndTime junk).hour.toInt } := by
    unfold rtcTmOut
    rw [years, months, days, minutes, seconds]
  have reply : (r.control (.getTime junk)).2 =
      .time (timegm (rtcTmOut (r.getDateAndTime junk))) := rfl
  rw [reply, fields, back, hours]
  refine congrArg RtcReply.time ?_
  by_cases twelve : r.clkfmt &&& rtcClkfmt24henMsk = rtcClock12 ∧ 75600 ≤ t % 86400
  · rw [if_pos ⟨twelve.1, late.mpr twelve.2⟩, if_pos twelve]
    have value : (20 : U32).toNat = 20 := rfl
    have less : ((rtcHwTime t old).hour - 20).toNat = (gmtimeR t).hour.toNat - 20 := by
      rw [BitVec.toNat_sub, hour, value]
      omega
    have evening : ((rtcHwTime t old).hour - 20).toInt = (gmtimeR t).hour - 20 := by
      rw [toInt_of_small (by omega), less]
      omega
    have early : RtTm.Proper { gmtimeR t with hour := (gmtimeR t).hour - 20 } (t / 86400) :=
      ⟨proper.year, proper.month, ⟨by dsimp only; omega, by dsimp only; omega⟩, minBounds, secBounds⟩
    rw [evening, timegm_of_proper early]
    refine congrArg some ?_
    dsimp only
    omega
  · rw [if_neg fun both => twelve ⟨both.1, late.mp both.2⟩, if_neg twelve]
    have same : (rtcHwTime t old).hour.toInt = (gmtimeR t).hour := by
      rw [toInt_of_small (by omega), hour]
      omega
    rw [same]
    exact timegm_gmtimeR (by omega) (by omega)

end Clock

section Runs

variable {s : RtcRun}

def RtcRun.Tracks (s : RtcRun) : Prop :=
  ∀ t, s.last = some t → rtcInRange t ∧
    ∃ junk, s.rtc.cal = rtcRegCal (rtcHwTime t junk) ∧ s.rtc.time = rtcRegTime (rtcHwTime t junk)

theorem RtcRun.Tracks.keeps_iff (tracks : s.Tracks) :
    s.Keeps ↔ ∀ t, s.last = some t →
      s.rtc.clkfmt &&& rtcClkfmt24henMsk = rtcClock12 → t % 86400 < 75600 := by
  constructor
  · intro keeps t last twelve
    obtain ⟨inside, old, cal, time⟩ := tracks t last
    by_contra evening
    have reply := keeps t old last
    rw [NuRtc.getTime_reply inside cal time, if_pos ⟨twelve, by omega⟩] at reply
    have same := Option.some.inj (RtcReply.time.inj reply)
    omega
  · intro early t junk last
    obtain ⟨inside, old, cal, time⟩ := tracks t last
    rw [NuRtc.getTime_reply inside cal time, if_neg]
    rintro ⟨twelve, evening⟩
    have before := early t last twelve
    omega

theorem clkfmt_24 (x : U32) : (x ||| rtcClkfmt24henMsk) &&& rtcClkfmt24henMsk ≠ rtcClock12 := by
  intro zero
  have bit := congrArg (fun w => w.getLsbD 0) zero
  simp [rtcClkfmt24henMsk, rtcClock12] at bit

theorem clkfmt_12 (x : U32) : x &&& ~~~rtcClkfmt24henMsk &&& rtcClkfmt24henMsk = rtcClock12 := by
  rw [BitVec.and_assoc, BitVec.and_comm _ rtcClkfmt24henMsk, BitVec.and_not_self]
  exact BitVec.and_zero

theorem NuRtc.setDateAndTime_24 (r : NuRtc) {d : RtcTimeData} (scale : d.timeScale = rtcClock24) :
    (r.setDateAndTime d).clkfmt = r.clkfmt ||| rtcClkfmt24henMsk ∧
      (r.setDateAndTime d).cal = rtcRegCal d ∧ (r.setDateAndTime d).time = rtcRegTime d := by
  unfold NuRtc.setDateAndTime NuRtc.setFormat
  rw [if_neg (by rw [scale]; decide)]
  exact ⟨rfl, rfl, rfl⟩

theorem NuRtc.setAlarm_spec (r : NuRtc) (d : RtcTimeData) :
    (r.setAlarmDateAndTime d).cal = r.cal ∧ (r.setAlarmDateAndTime d).time = r.time ∧
      (r.setAlarmDateAndTime d).clkfmt =
        if d.timeScale = rtcClock12 then r.clkfmt &&& ~~~rtcClkfmt24henMsk
        else r.clkfmt ||| rtcClkfmt24henMsk := by
  unfold NuRtc.setAlarmDateAndTime NuRtc.setFormat
  split_ifs <;> exact ⟨rfl, rfl, rfl⟩

theorem RtcRun.Tracks.step (tracks : s.Tracks) (keeps : s.Keeps) (cmd : RtcCmd) :
    (s.step cmd).Tracks ∧ ((s.step cmd).Keeps ↔ s.Meets cmd) := by
  cases cmd with
  | getTime junk => exact ⟨tracks, fun _ => trivial, fun _ => keeps⟩
  | getAlarm junk => exact ⟨tracks, fun _ => trivial, fun _ => keeps⟩
  | setTime t junk =>
    by_cases valid : nuRtcIsDateValid t = rtEok
    · have next : s.step (.setTime t junk) =
          ⟨s.rtc.setDateAndTime (rtcHwTime t junk), some t⟩ := by
        simp only [RtcRun.step, NuRtc.control, ne_eq, valid, not_true_eq_false, if_false, if_true]
      obtain ⟨clkfmt, cal, time⟩ := s.rtc.setDateAndTime_24 (d := rtcHwTime t junk) rfl
      have kept : (s.step (.setTime t junk)).Tracks := by
        rw [next]
        intro u last
        obtain rfl := Option.some.inj last
        exact ⟨(nuRtcIsDateValid_iff t).mp valid, junk, cal, time⟩
      refine ⟨kept, fun _ => trivial, fun _ => kept.keeps_iff.mpr ?_⟩
      rw [next]
      intro u _ twelve
      dsimp only at twelve
      rw [clkfmt] at twelve
      exact absurd twelve (clkfmt_24 _)
    · have next : s.step (.setTime t junk) = s := by
        have bad : ¬-rtError = rtEok := by decide
        simp only [RtcRun.step, NuRtc.control, ne_eq, valid, not_false_eq_true, if_true, bad, if_false]
      rw [next]
      exact ⟨tracks, fun _ => trivial, fun _ => keeps⟩
  | setAlarm hour min sec junk =>
    obtain ⟨cal, time, clkfmt⟩ := (s.rtc.setAlarmDateMask 1 1 1 1 1 1).setAlarm_spec
      { junk with
        hour := BitVec.ofInt 32 hour, minute := BitVec.ofInt 32 min, second := BitVec.ofInt 32 sec }
    have kept : (s.step (.setAlarm hour min sec junk)).Tracks := by
      intro t last
      obtain ⟨inside, old, calOld, timeOld⟩ := tracks t last
      exact ⟨inside, old, cal.trans calOld, time.trans timeOld⟩
    refine ⟨kept, kept.keeps_iff.trans ?_⟩
    have format : (s.step (.setAlarm hour min sec junk)).rtc.clkfmt =
        if junk.timeScale = rtcClock12 then s.rtc.clkfmt &&& ~~~rtcClkfmt24henMsk
        else s.rtc.clkfmt ||| rtcClkfmt24henMsk := clkfmt
    have same : (s.step (.setAlarm hour min sec junk)).last = s.last := rfl
    rw [format, same]
    unfold RtcRun.Meets
    by_cases twelve : junk.timeScale = rtcClock12
    · simp only [twelve, if_true, clkfmt_12, true_imp_iff]
    · simp only [twelve, if_false, clkfmt_24, false_imp_iff, implies_true]

theorem rtc_keeps_time_iff (r : NuRtc) (cmds : List RtcCmd) :
    ((∀ pre, pre <+: cmds → (pre.foldl RtcRun.step ⟨r, none⟩).Keeps) ↔
      Runs.StepsMeet RtcRun.step RtcRun.Meets ⟨r, none⟩ cmds) ∧
    ∀ t junk, (rtcInRange t → (r.control (.setTime t junk)).2 = .status rtEok) ∧
      (¬rtcInRange t → r.control (.setTime t junk) = (r, .status (-rtError))) := by
  refine ⟨?_, ?_⟩
  · apply Runs.prefixes_hold_iff (fun s => s.Tracks ∧ s.Keeps) RtcRun.Keeps
    · exact fun s both => both.2
    · exact fun s cmd both => (both.1.step both.2 cmd).2
    · exact fun s cmd both meets =>
        ⟨(both.1.step both.2 cmd).1, (both.1.step both.2 cmd).2.mpr meets⟩
    · have none : RtcRun.Tracks ⟨r, none⟩ := fun t last => by cases last
      exact ⟨none, none.keeps_iff.mpr fun t last => by cases last⟩
  · intro t junk
    refine ⟨fun inside => ?_, fun outside => ?_⟩
    · simp only [NuRtc.control, ne_eq, (nuRtcIsDateValid_iff t).mpr inside, not_true_eq_false, if_false]
    · have invalid : ¬nuRtcIsDateValid t = rtEok := fun valid =>
        outside ((nuRtcIsDateValid_iff t).mp valid)
      simp only [NuRtc.control, ne_eq, invalid, not_false_eq_true, if_true]

end Runs

/-- The time is set to 22 o'clock; then an alarm is set whose local holds zeros. -/
def lateAlarm : List RtcCmd :=
  [.setTime 1000072800 ⟨0, 0, 0, 0, 0, 0, 0, 0, 0⟩, .setAlarm 6 0 0 ⟨0, 0, 0, 0, 0, 0, 0, 0, 0⟩]

theorem lateAlarm_moves_clock :
    ¬∀ pre, pre <+: lateAlarm →
      (pre.foldl RtcRun.step ⟨⟨0, 0, 0, 0, 0, 0, 0⟩, none⟩).Keeps := by
  intro keeps
  have reply := keeps lateAlarm (List.prefix_refl _) 1000072800 ⟨0, 0, 0, 0, 0, 0, 0, 0, 0⟩
    (by decide)
  have moved : timegm (rtcTmOut ((lateAlarm.foldl RtcRun.step
      ⟨⟨0, 0, 0, 0, 0, 0, 0⟩, none⟩).rtc.getDateAndTime ⟨0, 0, 0, 0, 0, 0, 0, 0, 0⟩)) =
        some 1000000800 := by decide
  rw [RtcReply.time.inj reply] at moved
  cases moved

end NuMakerMA35
