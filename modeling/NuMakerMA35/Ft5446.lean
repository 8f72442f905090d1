import NuMakerMA35.TouchRuns
import Mathlib.Data.List.Pairwise

namespace NuMakerMA35

/-- One call of `ft5446_read_point`, whose report, if there is one, has distinct ids among those
supported. -/
structure FtRead where
  bus : Ft5446Bus
  readNum : Nat
  distinct : ∀ regs, bus.regs = some regs → ftStatus regs ≤ ftMaxTouch → (ftIds regs).Nodup
  supported : ∀ regs, bus.regs = some regs → ftStatus regs ≤ ftMaxTouch →
    ∀ x ∈ ftIds regs, x < ftMaxTouch

def FtReads (e : FtRead) (regs : Nat → BitVec 8) : Prop :=
  (0 < e.readNum ∧ e.readNum ≤ ftMaxTouch) ∧ e.bus.regs = some regs ∧ ftStatus regs ≤ ftMaxTouch

def Ft5446Bus.ids (counts : PointUse → Prop) [DecidablePred counts] (bus : Ft5446Bus) : List Nat :=
  match bus.regs with
  | none => []
  | some regs => (List.range (ftStatus regs)).filterMap fun i =>
    if counts (ftUse bus regs i) then ftTouchId regs i else none

def PointUse.Named (_ : PointUse) : Prop := True

instance : DecidablePred PointUse.Named := fun _ => isTrue trivial

def ftStep (counts : PointUse → Prop) [DecidablePred counts] (r : TouchRun) (e : FtRead) :
    TouchRun :=
  r.after (ft5446ReadPoint r.driver e.bus e.readNum []).1 (e.bus.ids counts)

/-- How often the lift-off path lifts an id that is not in the report. -/
def ftLifts (s : Ft5446) (regs : Nat → BitVec 8) (x : Nat) : Nat :=
  if ftStatus regs < s.preTouch then
    (List.range gt911MaxTouch).countP fun i => s.preId i = some x
  else 0

/-- An id marked down that the report has not is lifted by it, once. -/
def FtLiftsGone (s : Ft5446) (regs : Nat → BitVec 8) : Prop :=
  ∀ x ∉ ftIds regs, s.tpDown x = true → ftLifts s regs x = 1

/-- With the ids of the points touched in range: none of the other points stays down. -/
def TouchRun.FtReleases (r : TouchRun) (e : FtRead) : Prop :=
  ∀ regs, FtReads e regs → FtLiftsGone r.driver regs ∧
    ∀ i < ftStatus regs, ∀ x, ftTouchId regs i = some x → r.driver.tpDown x = true →
      ftUse e.bus regs i ≠ .invalid

/-- With the ids of all points: none is lifted, and none out of range is new. -/
def TouchRun.FtRetains (r : TouchRun) (e : FtRead) : Prop :=
  ∀ regs, FtReads e regs → FtLiftsGone r.driver regs ∧
    ∀ i < ftStatus regs, ∀ x, ftTouchId regs i = some x → ftUse e.bus regs i ≠ .up ∧
      (ftUse e.bus regs i = .invalid → r.driver.tpDown x = true)

/-- The points that count are those whose ids are down after the report. -/
def TouchRun.FtKeeps (counts : PointUse → Prop) (r : TouchRun) (e : FtRead) : Prop :=
  ∀ regs, FtReads e regs → FtLiftsGone r.driver regs ∧
    ∀ i < ftStatus regs, ∀ x, ftTouchId regs i = some x →
      ((ftUse e.bus regs i).Touched ∨ ftUse e.bus regs i = .invalid ∧ r.driver.tpDown x = true ↔
        counts (ftUse e.bus regs i))

theorem ftKeeps_touched (r : TouchRun) (e : FtRead) :
    r.FtKeeps PointUse.Touched e ↔ r.FtReleases e := by
  refine forall_congr' fun regs => imp_congr_right fun _ => and_congr_right' ?_
  refine forall_congr' fun i => imp_congr_right fun _ => forall_congr' fun x => imp_congr_right ?_
  intro _
  cases ftUse e.bus regs i with
  | down u v w => simp [PointUse.Touched]
  | up => simp [PointUse.Touched]
  | invalid => simp [PointUse.Touched]

theorem ftKeeps_named (r : TouchRun) (e : FtRead) :
    r.FtKeeps PointUse.Named e ↔ r.FtRetains e := by
  refine forall_congr' fun regs => imp_congr_right fun _ => and_congr_right' ?_
  refine forall_congr' fun i => imp_congr_right fun _ => forall_congr' fun x => imp_congr_right ?_
  intro _
  cases ftUse e.bus regs i with
  | down u v w => simp [PointUse.Touched, PointUse.Named]
  | up => simp [PointUse.Touched, PointUse.Named]
  | invalid => simp [PointUse.Touched, PointUse.Named]

theorem ft5446ReadPoint_refines (s : Ft5446) (bus : Ft5446Bus) {readNum : Nat}
    (some_ : 0 < readNum) (few : readNum ≤ ftMaxTouch) :
    (ft5446ReadPoint s bus readNum []).1 = .ok (ft5446Read s bus readNum) := by
  obtain ⟨bytes, call⟩ := touches_ft5446 s bus some_ few
  exact call.run.1

section Report

variable (s : Ft5446) (bus : Ft5446Bus) {regs : Nat → BitVec 8} {x i : Nat}

theorem ftPoints_slot (i : Nat) : slotOf (ftPoints bus regs) i = ftTouchId regs i := by
  unfold slotOf ftPoints
  cases ftTouchId regs i with
  | none => rfl
  | some id => rfl

theorem ftPoints_slots : (List.range (ftStatus regs)).filterMap (slotOf (ftPoints bus regs)) =
    ftIds regs := by
  have each : slotOf (ftPoints bus regs) = ftTouchId regs := funext (ftPoints_slot bus)
  rw [each]
  rfl

theorem mem_ftIds : x ∈ ftIds regs ↔ ∃ i < ftStatus regs, ftTouchId regs i = some x := by
  simp only [ftIds, List.mem_filterMap, List.mem_range]

theorem ftIds_point {j : Nat} (distinct : (ftIds regs).Nodup) (below : j < ftStatus regs)
    (inside : i < ftStatus regs) (other : ftTouchId regs j = some x)
    (named : ftTouchId regs i = some x) : j = i := by
  by_contra apart
  have pairs := List.pairwise_filterMap.mp distinct
  have symmetric : Std.Symm fun a a' => ∀ b, ftTouchId regs a = some b →
      ∀ b', ftTouchId regs a' = some b' → b ≠ b' :=
    ⟨fun a a' differ b left b' right => (differ b' right b left).symm⟩
  exact pairs.forall (List.mem_range.mpr below) (List.mem_range.mpr inside) apart
    x other x named rfl

theorem touchMark_ft_point (distinct : (ftIds regs).Nodup) (inside : i < ftStatus regs)
    (named : ftTouchId regs i = some x) :
    touchMark (putPoints (ftPoints bus regs) (ftStatus regs) (ftLift regs (noSlots s))) x =
      (ftUse bus regs i).mark (s.tpDown x, none) := by
  have point : ftPoints bus regs i = some ⟨x, ftUse bus regs i⟩ := by
    rw [ftPoints, named]
    rfl
  have present : x ∈ ftIds regs := mem_ftIds.mpr ⟨i, inside, named⟩
  have scanned : touchMark (ftLift regs (noSlots s)) x = (s.tpDown x, none) := by
    unfold ftLift
    split_ifs
    · exact touchMark_scan_present _ present _ _
    · rfl
  rw [← ftPoints_slots bus] at distinct
  have marked := touchMark_putPoints (r := ftLift regs (noSlots s)) distinct
    (List.mem_range.mpr inside) point
  rw [scanned] at marked
  exact marked

theorem touchMark_ft_gone (absent : x ∉ ftIds regs) :
    touchMark (putPoints (ftPoints bus regs) (ftStatus regs) (ftLift regs (noSlots s))) x =
      liftMark^[ftLifts s regs x] (s.tpDown x, none) := by
  have others : ∀ i ∈ List.range (ftStatus regs), ∀ p, ftPoints bus regs i = some p → p.id ≠ x := by
    rintro i inside p point rfl
    have named : ftTouchId regs i = some p.id := by rw [← ftPoints_slot bus, slotOf_named point]
    exact absent (mem_ftIds.mpr ⟨i, List.mem_range.mp inside, named⟩)
  refine (touchMark_putPoints_other (r := ftLift regs (noSlots s)) _ others).trans ?_
  unfold ftLift ftLifts
  by_cases fewer : ftStatus regs < s.preTouch
  · rw [if_pos (show ftStatus regs < (noSlots s).1.preTouch from fewer), if_pos fewer]
    exact touchMark_scan _ absent _ _ List.nodup_range
  · rw [if_neg (show ¬ftStatus regs < (noSlots s).1.preTouch from fewer), if_neg fewer]
    rfl

end Report

section Step

variable (counts : PointUse → Prop) [DecidablePred counts] {r : TouchRun} {e : FtRead}
  {regs : Nat → BitVec 8}

theorem ftStep_quiet (unread : ¬∃ regs, FtReads e regs) (r : TouchRun) :
    ∃ pre, ftStep counts r e = ⟨{ r.driver with preTouch := pre }, r.history, r.report⟩ := by
  have failed := after_failed r (e.bus.ids counts)
  unfold ftStep
  by_cases accepted : 0 < e.readNum ∧ e.readNum ≤ ftMaxTouch
  · rw [ft5446ReadPoint_refines _ _ accepted.1 accepted.2]
    unfold ft5446Read
    cases came : e.bus.regs with
    | none => exact ⟨0, failed⟩
    | some regs =>
      have many : ftMaxTouch < ftStatus regs := by
        by_contra few
        exact unread ⟨regs, accepted, came, Nat.le_of_not_lt few⟩
      simp only [if_pos many]
      exact ⟨0, failed⟩
  · have refused : e.readNum = 0 ∨ ftMaxTouch < e.readNum := by omega
    unfold ft5446ReadPoint
    rw [if_pos refused]
    exact ⟨r.driver.preTouch, rfl⟩

theorem ftStep_report (reads : FtReads e regs) (r : TouchRun) : ftStep counts r e =
    r.after (.ok (putPoints (ftPoints e.bus regs) (ftStatus regs)
      (ftLift regs (noSlots r.driver)), e.readNum)) (e.bus.ids counts) := by
  obtain ⟨accepted, came, few⟩ := reads
  unfold ftStep
  rw [ft5446ReadPoint_refines _ _ accepted.1 accepted.2]
  unfold ft5446Read
  simp only [came, if_neg (Nat.not_lt.mpr few)]

variable {counts}

theorem ftStep_ids (reads : FtReads e regs) (r : TouchRun) :
    (ftStep counts r e).report = e.bus.ids counts := by
  rw [ftStep_report _ reads]
  exact if_neg (Nat.ne_of_gt reads.1.1)

theorem mem_ids {bus : Ft5446Bus} (came : bus.regs = some regs) (x : Nat) :
    x ∈ bus.ids counts ↔
      ∃ i < ftStatus regs, ftTouchId regs i = some x ∧ counts (ftUse bus regs i) := by
  unfold Ft5446Bus.ids
  simp only [came, List.mem_filterMap, List.mem_range]
  refine exists_congr fun i => and_congr_right' ?_
  split_ifs with counted
  · exact (and_iff_left counted).symm
  · exact iff_of_false (fun none => nomatch none) fun both => counted both.2

theorem mem_ids_point (reads : FtReads e regs) {i x : Nat} (inside : i < ftStatus regs)
    (named : ftTouchId regs i = some x) :
    x ∈ e.bus.ids counts ↔ counts (ftUse e.bus regs i) := by
  rw [mem_ids reads.2.1]
  constructor
  · rintro ⟨j, below, other, counted⟩
    have same : j = i := ftIds_point (e.distinct regs reads.2.1 reads.2.2) below inside other named
    exact same ▸ counted
  · intro counted
    exact ⟨i, inside, named, counted⟩

/-- A report keeps the id of one of its points in step, and down exactly if it counts. -/
theorem ft_point_step {i x : Nat} (reads : FtReads e regs) (inside : i < ftStatus regs)
    (named : ftTouchId regs i = some x) (inStep : r.InStep x) :
    (ftStep counts r e).InStep x ∧
    (((∃ touching, Alternation touching ((ftStep counts r e).history x)) ∧
      (lastIsTouch ((ftStep counts r e).history x) ↔ x ∈ (ftStep counts r e).report)) ↔
    ((ftUse e.bus regs i).Touched ∨ ftUse e.bus regs i = .invalid ∧ r.driver.tpDown x = true ↔
      counts (ftUse e.bus regs i))) := by
  have mark := touchMark_ft_point r.driver e.bus
    (e.distinct regs reads.2.1 reads.2.2) inside named
  rw [ftStep_ids reads, mem_ids_point reads inside named, ftStep_report _ reads]
  exact ⟨inStep.after mark _ _, inStep.after_iff mark _ _ _⟩

theorem ft_gone_step {x : Nat} (reads : FtReads e regs) (absent : x ∉ ftIds regs)
    (inStep : r.InStep x) :
    (((∃ touching, Alternation touching ((ftStep counts r e).history x)) ∧
      (lastIsTouch ((ftStep counts r e).history x) ↔ x ∈ (ftStep counts r e).report)) ↔
      (r.driver.tpDown x = true → ftLifts r.driver regs x = 1)) ∧
    ((r.driver.tpDown x = true → ftLifts r.driver regs x = 1) → (ftStep counts r e).InStep x) := by
  have mark := touchMark_ft_gone r.driver e.bus absent
  have unlisted : ¬x ∈ (ftStep counts r e).report := by
    rw [ftStep_ids reads, mem_ids reads.2.1]
    rintro ⟨i, inside, named, -⟩
    exact absent (mem_ftIds.mpr ⟨i, inside, named⟩)
  simp only [unlisted, iff_false]
  rw [ftStep_report _ reads]
  rw [liftMark_iterate] at mark
  split_ifs at mark with none once
  · have idle := inStep.after_iff (u := .invalid) mark e.readNum (e.bus.ids counts) False
    rw [iff_false] at idle
    rw [idle, none]
    refine ⟨?_, fun _ => inStep.after (u := .invalid) mark _ _⟩
    simp [PointUse.Touched]
  · have lifted := inStep.after_iff (u := .up) mark e.readNum (e.bus.ids counts) False
    rw [iff_false] at lifted
    rw [lifted]
    refine ⟨?_, fun _ => inStep.after (u := .up) mark _ _⟩
    simp [PointUse.Touched, once]
  · -- The second lift overwrites the event of the first, so that none is returned.
    have silent : ((r.after (.ok (putPoints (ftPoints e.bus regs) (ftStatus regs)
        (ftLift regs (noSlots r.driver)), e.readNum)) (e.bus.ids counts)).history x) =
        r.history x := by
      have returned := TouchBuf.returned_eq mark
      exact (congrArg (r.history x ++ ·) returned).trans (List.append_nil _)
    have flag : (r.after (.ok (putPoints (ftPoints e.bus regs) (ftStatus regs)
        (ftLift regs (noSlots r.driver)), e.readNum)) (e.bus.ids counts)).driver.tpDown x =
        false := congrArg Prod.fst mark
    unfold TouchRun.InStep
    rw [silent, flag, Alternation.last inStep]
    constructor
    · constructor
      · intro both down
        exact absurd down both.2
      · intro lifted
        exact ⟨⟨_, inStep⟩, fun down => once (lifted down)⟩
    · intro lifted
      have up : r.driver.tpDown x = false := by
        cases down : r.driver.tpDown x with
        | false => rfl
        | true => exact absurd (lifted down) once
      have inStep : Alternation (r.driver.tpDown x) (r.history x) := inStep
      rwa [up] at inStep

theorem ft_follows_step_iff (inStep : ∀ x, r.InStep x) (follows : r.Follows) (e : FtRead) :
    (ftStep counts r e).Follows ↔ r.FtKeeps counts e := by
  by_cases read : ∃ regs, FtReads e regs
  · obtain ⟨regs, reads⟩ := read
    have only : ∀ regs', FtReads e regs' → regs' = regs := by
      intro regs' reads'
      exact Option.some.inj (reads'.2.1.symm.trans reads.2.1)
    constructor
    · intro all regs' reads'
      rw [only regs' reads']
      refine ⟨fun x absent => ?_, fun i inside x named => ?_⟩
      · exact (ft_gone_step reads absent (inStep x)).1.mp (all x)
      · exact (ft_point_step reads inside named (inStep x)).2.mp (all x)
    · intro keeps x
      obtain ⟨gone, points⟩ := keeps regs reads
      by_cases present : x ∈ ftIds regs
      · obtain ⟨i, inside, named⟩ := mem_ftIds.mp present
        exact (ft_point_step reads inside named (inStep x)).2.mpr (points i inside x named)
      · exact (ft_gone_step reads present (inStep x)).1.mpr (gone x present)
  · obtain ⟨pre, same⟩ := ftStep_quiet counts read r
    rw [same]
    exact iff_of_true follows fun regs reads => absurd ⟨regs, reads⟩ read

theorem ft_inStep_step (inStep : ∀ x, r.InStep x) (e : FtRead) (keeps : r.FtKeeps counts e) (x : Nat) :
    (ftStep counts r e).InStep x := by
  by_cases read : ∃ regs, FtReads e regs
  · obtain ⟨regs, reads⟩ := read
    by_cases present : x ∈ ftIds regs
    · obtain ⟨i, inside, named⟩ := mem_ftIds.mp present
      exact (ft_point_step reads inside named (inStep x)).1
    · exact (ft_gone_step reads present (inStep x)).2 ((keeps regs reads).1 x present)
  · obtain ⟨pre, same⟩ := ftStep_quiet counts read r
    rw [same]
    exact inStep x

theorem ft_follows_iff (counts : PointUse → Prop) [DecidablePred counts] (es : List FtRead) :
    (∀ pre, pre <+: es → (pre.foldl (ftStep counts) .start).Follows) ↔
      Runs.StepsMeet (ftStep counts) (TouchRun.FtKeeps counts) .start es := by
  apply Runs.prefixes_hold_iff (fun r : TouchRun => (∀ x, r.InStep x) ∧ r.Follows) TouchRun.Follows
  · intro r inv
    exact inv.2
  · intro r e inv
    exact ft_follows_step_iff inv.1 inv.2 e
  · intro r e inv keeps
    exact ⟨ft_inStep_step inv.1 e keeps, (ft_follows_step_iff inv.1 inv.2 e).mpr keeps⟩
  · refine ⟨fun x => .start, (TouchRun.follows_iff _).mpr fun x => ?_⟩
    exact .start

end Step

/-- Over every sequence of calls the events follow the reports, taken for the ids touched in range
or for all ids they name, exactly when every report lifts once what is gone, and, taken the one
way, leaves none down that it has out of range, taken the other, lifts none and has none new out
of range. -/
theorem ft5446_follows_throughout_iff (es : List FtRead) :
    ((∀ pre, pre <+: es → (pre.foldl (ftStep PointUse.Touched) .start).Follows) ↔
      Runs.StepsMeet (ftStep PointUse.Touched) TouchRun.FtReleases .start es) ∧
    ((∀ pre, pre <+: es → (pre.foldl (ftStep PointUse.Named) .start).Follows) ↔
      Runs.StepsMeet (ftStep PointUse.Named) TouchRun.FtRetains .start es) := by
  have touched : TouchRun.FtKeeps PointUse.Touched = TouchRun.FtReleases :=
    funext fun r => funext fun e => propext (ftKeeps_touched r e)
  have named : TouchRun.FtKeeps PointUse.Named = TouchRun.FtRetains :=
    funext fun r => funext fun e => propext (ftKeeps_named r e)
  rw [← touched, ← named]
  exact ⟨ft_follows_iff PointUse.Touched es, ft_follows_iff PointUse.Named es⟩

def ftPress (id : Fin 5) : FtRead where
  bus := ⟨some fun k => if k = 2 then 1 else if k = 5 then BitVec.ofNat 8 (16 * id) else 0, 480, 272⟩
  readNum := 5
  distinct := by
    intro regs came _
    cases came
    revert id
    decide
  supported := by
    intro regs came _
    cases came
    revert id
    decide

/-- A finger is swapped for another: the number of points stays, so the first is never lifted. -/
theorem ft_swapped_finger_stays_down :
    (¬∀ pre, pre <+: [ftPress 1, ftPress 2] → (pre.foldl (ftStep PointUse.Touched) .start).Follows) ∧
    ¬∀ pre, pre <+: [ftPress 1, ftPress 2] → (pre.foldl (ftStep PointUse.Named) .start).Follows := by
  constructor
  · intro all
    have last := (all _ List.prefix_rfl 1).2
    exact absurd (last.mp (by decide)) (by decide)
  · intro all
    have last := (all _ List.prefix_rfl 1).2
    exact absurd (last.mp (by decide)) (by decide)

end NuMakerMA35
