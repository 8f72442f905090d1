import Mathlib.Data.Int.Init
import Mathlib.Tactic.Ring
import Mathlib.Tactic.NormNum

namespace NuMakerMA35

def spm : List Int := [0, 31, 59, 90, 120, 151, 181, 212, 243, 273, 304, 334, 365]

def isleap (year : Int) : Bool :=
  year.tmod 4 = 0 && (year.tmod 100 ≠ 0 || year.tmod 400 = 0)

structure RtTm where
  year : Int
  mon : Int
  mday : Int
  hour : Int
  min : Int
  sec : Int
  deriving DecidableEq

def spmAt (i : Int) : Option Int := if 0 ≤ i then spm[i.toNat]? else none

/-- The search for the year, which takes the days of a year away from `work` as long as it can. -/
def gmtimeYear : Nat → Int → Int → Int × Int
  | 0, i, work => (i, work)
  | turns + 1, i, work =>
    let k := if isleap i then 366 else 365
    if k ≤ work then gmtimeYear turns (i + 1) (work - k) else (i, work)

def gmtimeMonth (leap : Bool) (yday : Int) : Int × Int :=
  let mday := if leap ∧ yday = 59 then 2 else 1
  let work := if leap ∧ 58 < yday then yday - 1 else yday
  let i := ((List.range 12).reverse.find? fun i => i = 0 || spm.getD i 0 ≤ work).getD 0
  (i, mday + (work - spm.getD i 0))

/-- `gmtime_r`; the turns are enough for the days of `t`. -/
def gmtimeR (t : Int) : RtTm :=
  let work := t.tmod 86400
  match gmtimeYear (t.tdiv 86400).toNat 1970 (t.tdiv 86400) with
  | (i, yday) =>
    let month := gmtimeMonth (isleap i) yday
    ⟨i - 1900, month.1, month.2, (work.tdiv 60).tdiv 60, (work.tdiv 60).tmod 60,
      work.tmod 60⟩

def timegmMonth : Nat → RtTm → Option RtTm
  | 0, _ => none
  | turns + 1, t => do
    if t.mday > (← spmAt (1 + t.mon)) then
      let mday := if t.mon = 1 ∧ isleap (t.year + 1900) then t.mday - 1 else t.mday
      let mday := mday - (← spmAt t.mon)
      timegmMonth turns
        (if t.mon + 1 > 11 then { t with mday := mday, mon := 0, year := t.year + 1 }
        else { t with mday := mday, mon := t.mon + 1 })
    else pure t

def timegmTime (t : RtTm) : RtTm :=
  let t := if t.sec > 60 then { t with min := t.min + t.sec.tdiv 60, sec := t.sec.tmod 60 } else t
  let t := if t.min ≥ 60 then { t with hour := t.hour + t.min.tdiv 60, min := t.min.tmod 60 } else t
  let t := if t.hour ≥ 24 then { t with mday := t.mday + t.hour.tdiv 24, hour := t.hour.tmod 24 } else t
  if t.mon ≥ 12 then { t with year := t.year + t.mon.tdiv 12, mon := t.mon.tmod 12 } else t

def timegmDays (years : Int) : Int :=
  let day := years * 365 + (years + 1).tdiv 4
  if 131 ≤ years then
    let years := (years - 131).tdiv 100
    let day := day - (years / 4 * 3 + 1)
    let rest := years % 4
    day - (if rest = 3 then rest - 1 else rest)
  else day

/-- `timegm`; `none` is a read outside of `spm`, or no end within the turns. -/
def timegm (t : RtTm) : Option Int := do
  let years := t.year - 70
  let u ← timegmMonth 1000 (timegmTime t)
  if u.year < 70 then pure (-1)
  else
    let leap := if isleap (u.year + 1900) ∧ 1 < u.mon then 1 else 0
    let day := timegmDays years + ((← spmAt u.mon) + u.mday - 1 + leap)
    pure (((day * 24 + u.hour) * 60 + u.min) * 60 + u.sec)

def daysBefore (year : Int) : Int := 365 * (year - 1970) + (year - 1969) / 4

theorem isleap_iff {year : Int} (after : 1970 ≤ year) (before : year < 2100) :
    isleap year = true ↔ year % 4 = 0 := by
  unfold isleap
  rw [Int.tmod_eq_emod_of_nonneg (by omega), Int.tmod_eq_emod_of_nonneg (by omega),
    Int.tmod_eq_emod_of_nonneg (by omega)]
  simp only [Bool.and_eq_true, Bool.or_eq_true, decide_eq_true_eq]
  omega

theorem daysBefore_succ {y : Int} (after : 1970 ≤ y) (before : y < 2100) :
    daysBefore (y + 1) = daysBefore y + if isleap y then 366 else 365 := by
  have leap := isleap_iff after before
  unfold daysBefore
  split_ifs with yes
  · have four := leap.mp yes
    omega
  · have four : ¬y % 4 = 0 := fun here => yes (leap.mpr here)
    omega

theorem daysBefore_le {a b : Int} (le : a ≤ b) : daysBefore a ≤ daysBefore b := by
  unfold daysBefore
  omega

theorem gmtimeYear_spec (turns : Nat) {i w : Int} (after : 1970 ≤ i) (some : 0 ≤ w)
    (before : daysBefore i + w < daysBefore 2100) (enough : w ≤ turns) :
    ∃ j yday, gmtimeYear turns i w = (j, yday) ∧ 1970 ≤ j ∧ j < 2100 ∧ 0 ≤ yday ∧
      daysBefore j + yday = daysBefore i + w ∧ yday < if isleap j then 366 else 365 := by
  have early : i < 2100 := by
    by_contra late
    have more := daysBefore_le (show (2100 : Int) ≤ i by omega)
    omega
  induction turns generalizing i w with
  | zero =>
    refine ⟨i, w, rfl, after, early, some, rfl, ?_⟩
    split_ifs <;> omega
  | succ turns ih =>
    have next := daysBefore_succ after early
    have days : ∃ k : Int, k = if isleap i then 366 else 365 := ⟨_, rfl⟩
    obtain ⟨k, same⟩ := days
    have many : 365 ≤ k := by
      rw [same]
      split_ifs <;> omega
    unfold gmtimeYear
    rw [← same] at next ⊢
    dsimp only
    by_cases more : k ≤ w
    · rw [if_pos more]
      have late : i + 1 < 2100 := by
        by_contra late
        have bound := daysBefore_le (show (2100 : Int) ≤ i + 1 by omega)
        omega
      obtain ⟨j, yday, found, lower, upper, nonneg, sum, short⟩ :=
        ih (i := i + 1) (w := w - k) (by omega) (by omega) (by omega) (by omega) late
      exact ⟨j, yday, found, lower, upper, nonneg, by omega, short⟩
    · rw [if_neg more]
      exact ⟨i, w, rfl, after, early, some, rfl, by rw [← same]; omega⟩

def monthFits (leap : Bool) (yday : Int) : Bool :=
  let month := gmtimeMonth leap yday
  decide (0 ≤ month.1 ∧ month.1 < 12 ∧ 1 ≤ month.2 ∧ month.2 ≤ 31) &&
    (match spmAt month.1 with
      | some days => days + month.2 - 1 + (if leap ∧ 1 < month.1 then 1 else 0) = yday
      | none => false) &&
    match spmAt (1 + month.1) with
    | some days => month.2 ≤ days
    | none => false

theorem monthFits_all : ∀ leap, (List.range 366).all fun (yday : Nat) =>
    (yday = 365 && !leap) || monthFits leap yday := by
  decide +kernel

theorem gmtimeMonth_spec {leap : Bool} {yday : Int} (some : 0 ≤ yday)
    (short : yday < if leap then 366 else 365) :
    ∃ mon mday days more, gmtimeMonth leap yday = (mon, mday) ∧ 0 ≤ mon ∧ mon < 12 ∧ 1 ≤ mday ∧
      mday ≤ 31 ∧ spmAt mon = Option.some days ∧
      days + mday - 1 + (if leap ∧ 1 < mon then 1 else 0) = yday ∧
      spmAt (1 + mon) = Option.some more ∧ mday ≤ more := by
  have fits : monthFits leap yday = true := by
    have all := List.all_eq_true.mp (monthFits_all leap) yday.toNat
      (List.mem_range.mpr (by split_ifs at short <;> omega))
    rw [Int.toNat_of_nonneg some, Bool.or_eq_true] at all
    rcases all with last | fits
    · simp only [Bool.and_eq_true, decide_eq_true_eq, Bool.not_eq_true'] at last
      rw [last.2, if_neg Bool.false_ne_true] at short
      omega
    · exact fits
  unfold monthFits at fits
  obtain ⟨month, same⟩ : ∃ month, month = gmtimeMonth leap yday := ⟨_, rfl⟩
  rw [← same] at fits ⊢
  obtain ⟨mon, mday⟩ := month
  simp only [Bool.and_eq_true, decide_eq_true_eq] at fits
  obtain ⟨⟨⟨nonneg, small, first, last⟩, here⟩, next⟩ := fits
  cases days : spmAt mon with
  | none => simp [days] at here
  | some x =>
    cases more : spmAt (1 + mon) with
    | none => simp [more] at next
    | some y =>
      simp only [days, decide_eq_true_eq] at here
      simp only [more, decide_eq_true_eq] at next
      exact ⟨mon, mday, x, y, rfl, nonneg, small, first, last, days, here, more, next⟩

/-- A date and a time of the day that `gmtime_r` gives. -/
structure RtTm.Proper (t : RtTm) (day : Int) : Prop where
  year : 70 ≤ t.year ∧ t.year < 200
  month : ∃ yday, 0 ≤ yday ∧ (yday < if isleap (t.year + 1900) then 366 else 365) ∧
    gmtimeMonth (isleap (t.year + 1900)) yday = (t.mon, t.mday) ∧
    daysBefore (t.year + 1900) + yday = day
  hour : 0 ≤ t.hour ∧ t.hour < 24
  min : 0 ≤ t.min ∧ t.min < 60
  sec : 0 ≤ t.sec ∧ t.sec < 60

theorem gmtimeR_proper {t : Int} (after : 0 ≤ t) (before : t < 86400 * daysBefore 2100) :
    (gmtimeR t).Proper (t / 86400) ∧
      ((gmtimeR t).hour * 60 + (gmtimeR t).min) * 60 + (gmtimeR t).sec = t % 86400 := by
  have day := Int.tdiv_eq_ediv_of_nonneg after (b := 86400)
  have rest := Int.tmod_eq_emod_of_nonneg after (b := 86400)
  obtain ⟨j, yday, found, lower, upper, nonneg, sum, short⟩ :=
    gmtimeYear_spec (t / 86400).toNat (i := 1970) (w := t / 86400) le_rfl (by omega)
      (by unfold daysBefore at before ⊢; omega) (by omega)
  have start : daysBefore 1970 = 0 := rfl
  have same : gmtimeR t = ⟨j - 1900, (gmtimeMonth (isleap j) yday).1, (gmtimeMonth (isleap j) yday).2,
      t % 86400 / 60 / 60, t % 86400 / 60 % 60, t % 86400 % 60⟩ := by
    unfold gmtimeR
    rw [day, rest, found]
    dsimp only
    rw [Int.tdiv_eq_ediv_of_nonneg (show 0 ≤ t % 86400 by omega),
      Int.tdiv_eq_ediv_of_nonneg (show 0 ≤ t % 86400 / 60 by omega),
      Int.tmod_eq_emod_of_nonneg (show 0 ≤ t % 86400 / 60 by omega),
      Int.tmod_eq_emod_of_nonneg (show 0 ≤ t % 86400 by omega)]
  rw [same]
  refine ⟨⟨⟨by dsimp only; omega, by dsimp only; omega⟩, ⟨yday, nonneg, ?_, ?_, ?_⟩, ?_, ?_, ?_⟩, ?_⟩
  · dsimp only
    rw [Int.sub_add_cancel]
    exact short
  · dsimp only
    rw [Int.sub_add_cancel]
  · dsimp only
    rw [Int.sub_add_cancel]
    omega
  · dsimp only
    omega
  · dsimp only
    omega
  · dsimp only
    omega
  · dsimp only
    omega

theorem timegm_of_proper {t : RtTm} {day : Int} (proper : t.Proper day) :
    timegm t = some (((day * 24 + t.hour) * 60 + t.min) * 60 + t.sec) := by
  obtain ⟨⟨lower, upper⟩, ⟨yday, nonneg, short, month, sum⟩, hour, min, sec⟩ := proper
  obtain ⟨mon, mday, days, more, found, first, last, early, late, before, here, after, fits⟩ :=
    gmtimeMonth_spec nonneg short
  rw [month] at found
  obtain ⟨rfl, rfl⟩ := Prod.mk.inj found
  have time : timegmTime t = t := by
    unfold timegmTime
    simp only [if_neg (show ¬t.sec > 60 by omega), if_neg (show ¬t.min ≥ 60 by omega),
      if_neg (show ¬t.hour ≥ 24 by omega), if_neg (show ¬t.mon ≥ 12 by omega)]
  have stays : timegmMonth 1000 t = some t := by
    unfold timegmMonth
    simp only [after, Option.bind_eq_bind, Option.bind_some, gt_iff_lt, Int.not_lt.mpr fits, if_false]
    rfl
  have total : timegmDays (t.year - 70) = daysBefore (t.year + 1900) := by
    unfold timegmDays daysBefore
    dsimp only
    rw [if_neg (by omega), Int.tdiv_eq_ediv_of_nonneg (by omega)]
    have same : t.year - 70 + 1 = t.year + 1900 - 1969 := by omega
    rw [same]
    omega
  unfold timegm
  simp only [time, stays, Option.bind_eq_bind, Option.bind_some, before, total]
  rw [if_neg (by omega)]
  refine congrArg some ?_
  have whole : daysBefore (t.year + 1900) + (days + t.mday - 1 +
      if isleap (t.year + 1900) = true ∧ 1 < t.mon then 1 else 0) = day := by omega
  rw [whole]

theorem timegm_gmtimeR {t : Int} (after : 0 ≤ t) (before : t < 86400 * daysBefore 2100) :
    timegm (gmtimeR t) = some t := by
  obtain ⟨proper, rest⟩ := gmtimeR_proper after before
  rw [timegm_of_proper proper]
  refine congrArg some ?_
  have split := Int.emod_add_mul_ediv t 86400
  omega

end NuMakerMA35
