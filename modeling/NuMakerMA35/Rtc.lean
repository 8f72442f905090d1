import NuMakerMA35.Ctime
import NuMakerMA35.PdmaChannel

namespace NuMakerMA35

def rtcClock12 : U32 := 0
def rtcClock24 : U32 := 1
def rtcAm : U32 := 1
def rtcPm : U32 := 2
def rtcYear2000 : U32 := 2000
def rtcClkfmt24henMsk : U32 := 0x1
def rtcWeekdayMsk : U32 := 0x7

structure RtcTimeData where
  year : U32
  month : U32
  day : U32
  dayOfWeek : U32
  hour : U32
  minute : U32
  second : U32
  timeScale : U32
  amPm : U32

structure NuRtc where
  clkfmt : U32
  weekday : U32
  cal : U32
  time : U32
  calm : U32
  talm : U32
  camsk : U32

def rtcDigit (x bits : U32) (pos : Nat) : U32 := (x &&& bits <<< pos) >>> pos

def rtcDigits (a b c : U32) : U32 :=
  (a / 10) <<< 20 ||| (a % 10) <<< 16 ||| (b / 10) <<< 12 ||| (b % 10) <<< 8 ||| (c / 10) <<< 4 |||
    c % 10

def rtcRegCal (d : RtcTimeData) : U32 := rtcDigits (d.year - rtcYear2000) d.month d.day

def rtcRegTime (d : RtcTimeData) : U32 := rtcDigits d.hour d.minute d.second

/-- The date and time in a calendar and a time register, read by the clock format into `d`. -/
def NuRtc.read (r : NuRtc) (cal time : U32) (d : RtcTimeData) : RtcTimeData :=
  let timeScale := r.clkfmt &&& rtcClkfmt24henMsk
  let hour := rtcDigit time 0x3 20 * 10 + rtcDigit time 0xf 16
  { year := rtcDigit cal 0xf 20 * 10 + rtcDigit cal 0xf 16 + rtcYear2000
    month := rtcDigit cal 0x1 12 * 10 + rtcDigit cal 0xf 8
    day := rtcDigit cal 0x3 4 * 10 + rtcDigit cal 0xf 0
    dayOfWeek := r.weekday &&& rtcWeekdayMsk
    hour := if timeScale = rtcClock12 ∧ 21 ≤ hour then hour - 20 else hour
    minute := rtcDigit time 0x7 12 * 10 + rtcDigit time 0xf 8
    second := rtcDigit time 0x7 4 * 10 + rtcDigit time 0xf 0
    timeScale := timeScale
    amPm := if timeScale ≠ rtcClock12 then d.amPm else if 21 ≤ hour then rtcPm else rtcAm }

def NuRtc.getDateAndTime (r : NuRtc) : RtcTimeData → RtcTimeData := r.read r.cal r.time

def NuRtc.getAlarmDateAndTime (r : NuRtc) : RtcTimeData → RtcTimeData := r.read r.calm r.talm

def NuRtc.setFormat (r : NuRtc) (d : RtcTimeData) : NuRtc × RtcTimeData :=
  if d.timeScale = rtcClock12 then
    ({ r with clkfmt := r.clkfmt &&& ~~~rtcClkfmt24henMsk },
      if d.amPm = rtcPm then { d with hour := d.hour + 20 } else d)
  else ({ r with clkfmt := r.clkfmt ||| rtcClkfmt24henMsk }, d)

def NuRtc.setDateAndTime (r : NuRtc) (d : RtcTimeData) : NuRtc :=
  match r.setFormat d with
  | (r, d) => { r with weekday := d.dayOfWeek, cal := rtcRegCal d, time := rtcRegTime d }

def NuRtc.setAlarmDateAndTime (r : NuRtc) (d : RtcTimeData) : NuRtc :=
  match r.setFormat d with
  | (r, d) => { r with calm := rtcRegCal d, talm := rtcRegTime d }

def NuRtc.setAlarmDateMask (r : NuRtc) (tenY y tenM m tenD d : BitVec 8) : NuRtc :=
  { r with
    camsk := tenY.setWidth 32 <<< 5 ||| y.setWidth 32 <<< 4 ||| tenM.setWidth 32 <<< 3 |||
      m.setWidth 32 <<< 2 ||| tenD.setWidth 32 <<< 1 ||| d.setWidth 32 <<< 0 }

def rtcTmUpperBound : RtTm := ⟨2038 - 1900, 1 - 1, 19, 3, 14, 7⟩
def rtcTmLowerBound : RtTm := ⟨2000 - 1900, 1 - 1, 1, 0, 0, 0⟩

def nuRtcIsDateValid (t : Int) : Int :=
  match timegm rtcTmUpperBound, timegm rtcTmLowerBound with
  | some upper, some lower => if t > upper ∨ t < lower then -rtEinval else rtEok
  | _, _ => -rtEinval

/-- A control command. `junk` has the values that stand in the local of the driver at its call. -/
inductive RtcCmd where
  | getTime (junk : RtcTimeData)
  | setTime (t : Int) (junk : RtcTimeData)
  | getAlarm (junk : RtcTimeData)
  | setAlarm (hour min sec : Int) (junk : RtcTimeData)

inductive RtcReply where
  | time (t : Option Int)
  | alarm (hour min sec : Int)
  | status (result : Int)

def rtcHwTime (t : Int) (junk : RtcTimeData) : RtcTimeData :=
  let tm := gmtimeR t
  { junk with
    year := BitVec.ofInt 32 (tm.year + 1900)
    month := BitVec.ofInt 32 (tm.mon + 1)
    day := BitVec.ofInt 32 tm.mday
    hour := BitVec.ofInt 32 tm.hour
    minute := BitVec.ofInt 32 tm.min
    second := BitVec.ofInt 32 tm.sec
    timeScale := rtcClock24
    amPm := 0 }

def rtcTmOut (d : RtcTimeData) : RtTm :=
  ⟨(d.year - 1900).toInt, (d.month - 1).toInt, d.day.toInt, d.hour.toInt, d.minute.toInt,
    d.second.toInt⟩

def NuRtc.control (r : NuRtc) : RtcCmd → NuRtc × RtcReply
  | .getTime junk => (r, .time (timegm (rtcTmOut (r.getDateAndTime junk))))
  | .setTime t junk =>
    if nuRtcIsDateValid t ≠ rtEok then (r, .status (-rtError))
    else (r.setDateAndTime (rtcHwTime t junk), .status rtEok)
  | .getAlarm junk =>
    let d := r.getAlarmDateAndTime junk
    (r, .alarm d.hour.toInt d.minute.toInt d.second.toInt)
  | .setAlarm hour min sec junk =>
    -- the date, the scale and AM or PM are those that stood there
    let d := { junk with
      hour := BitVec.ofInt 32 hour, minute := BitVec.ofInt 32 min, second := BitVec.ofInt 32 sec }
    ((r.setAlarmDateMask 1 1 1 1 1 1).setAlarmDateAndTime d, .status rtEok)

end NuMakerMA35
