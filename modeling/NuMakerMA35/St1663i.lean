import NuMakerMA35.TouchRuns

namespace NuMakerMA35

def stMaxTouch : Nat := 5

/-- The tables of `st1663i.c`, the same as those of `gt911.c`. -/
abbrev St1663i := Gt911

/-- What the transfer of the registers brings, if it succeeds, and `touch->info`. -/
structure St1663iBus where
  regs : Option (Nat → BitVec 8)
  rangeX : Int
  rangeY : Int

def stPoint (i : Nat) : Nat := 2 + 4 * i

def stFingers (regs : Nat → BitVec 8) : Nat := (regs 0 &&& 0x0f).toNat

def stCoordinate (high low : BitVec 8) : BitVec 16 :=
  ((high &&& 0x07).setWidth 16 <<< 8) ||| low.setWidth 16

def stUse (bus : St1663iBus) (regs : Nat → BitVec 8) (i : Nat) : PointUse :=
  if regs (stPoint i) >>> 7 = 0 then .up
  else
    positionUse bus.rangeX bus.rangeY
      (stCoordinate (regs (stPoint i) >>> 4) (regs (stPoint i + 1)))
      (stCoordinate (regs (stPoint i)) (regs (stPoint i + 2)))
      ((regs (stPoint i + 3)).setWidth 16)

/-- A point stands for the slot of its own place. -/
def stPoints (bus : St1663iBus) (regs : Nat → BitVec 8) (i : Nat) : Option TouchPoint :=
  some ⟨i, stUse bus regs i⟩

/-- One turn of the lift-off loop. The inner loop compares `pre_id[i]` with `i` itself, as often as
there are fingers. -/
def stScan (fingers : Nat) (r : TouchState) (i : Nat) : TouchState :=
  scanUp (List.replicate fingers i) r i

def stLift (fingers : Nat) (r : TouchState) : TouchState :=
  if fingers < r.1.preTouch then (List.range stMaxTouch).foldl (stScan fingers) r else r

def st1663iReadPoint (s : St1663i) (bus : St1663iBus) (readNum : Nat) :
    Except TouchFault (TouchState × Nat) :=
  if readNum = 0 ∨ stMaxTouch < readNum then .error .asserted
  else
    match bus.regs with
    | none => .ok (noSlots { s with preTouch := 0 }, 0)
    | some regs =>
      if stMaxTouch < stFingers regs then .ok (noSlots { s with preTouch := 0 }, 0)
      else
        .ok (putPoints (stPoints bus regs) (stFingers regs) (stLift (stFingers regs) (noSlots s)),
          readNum)

/-- The fingers of a report: its slots that are valid, with a position in range. -/
def St1663iBus.fingers (bus : St1663iBus) : List Nat :=
  match bus.regs with
  | none => []
  | some regs => (List.range (stFingers regs)).filter fun i => (stUse bus regs i).Touched

def stStep (r : TouchRun) (e : TouchCall St1663iBus) : TouchRun :=
  r.after (st1663iReadPoint r.driver e.bus e.readNum) e.bus.fingers

/-- Every slot's events alternate, and the slots marked down are the fingers of the latest report. -/
def TouchRun.SlotsFollow (r : TouchRun) : Prop :=
  ∀ x, (∃ touching, Alternation touching (r.history x)) ∧
    (r.driver.tpDown x = true ↔ x ∈ r.report)

def StReads (e : TouchCall St1663iBus) (regs : Nat → BitVec 8) : Prop :=
  (0 < e.readNum ∧ e.readNum ≤ stMaxTouch) ∧ e.bus.regs = some regs ∧ stFingers regs ≤ stMaxTouch

/-- Of the slots marked down, one in the report has a position in range or is not valid any more;
there is none beyond the report, unless it is the empty report right after one with fingers. -/
def TouchRun.StReleases (r : TouchRun) (e : TouchCall St1663iBus) : Prop :=
  ∀ regs, StReads e regs → ∀ x, r.driver.tpDown x = true →
    if x < stFingers regs then stUse e.bus regs x ≠ .invalid
    else stFingers regs = 0 ∧ 0 < r.driver.preTouch

/-- An entry of `pre_id` holds its own place. -/
def Gt911.OwnIds (s : Gt911) : Prop := ∀ i id, s.preId i = some id → id = i

/-- What a slot sees of a report: one that is not in it is lifted by the empty report only. -/
def stOutcome (s : St1663i) (bus : St1663iBus) (regs : Nat → BitVec 8) (x : Nat) : PointUse :=
  if x < stFingers regs then stUse bus regs x
  else if stFingers regs = 0 ∧ 0 < s.preTouch ∧ x < stMaxTouch ∧ s.preId x = some x then .up
  else .invalid

section Report

variable {s : St1663i} {bus : St1663iBus} {regs : Nat → BitVec 8} {r : TouchState} {x : Nat}

theorem stScan_idle {fingers : Nat} (some_ : 0 < fingers) (own : r.1.OwnIds) (i : Nat) :
    stScan fingers r i = r := by
  unfold stScan scanUp
  cases entry : r.1.preId i with
  | none => rfl
  | some id =>
    have same := own i id entry
    subst same
    exact if_pos (List.mem_replicate.mpr ⟨Nat.ne_of_gt some_, rfl⟩)

theorem stLift_idle {fingers : Nat} (some_ : 0 < fingers) (own : r.1.OwnIds) :
    stLift fingers r = r := by
  have all (is : List Nat) : is.foldl (stScan fingers) r = r := by
    induction is with
    | nil => rfl
    | cons i is ih => rw [List.foldl_cons, stScan_idle some_ own, ih]
  unfold stLift
  rw [all, ite_self]

theorem OwnIds.count (own : s.OwnIds) (x : Nat) :
    ((List.range stMaxTouch).countP fun i => s.preId i = some x) =
      if x < stMaxTouch ∧ s.preId x = some x then 1 else 0 := by
  split_ifs with held
  · have only : ∀ i ∈ List.range stMaxTouch, (decide (s.preId i = some x) = true ↔ (i == x) = true) := by
      intro i _
      rw [decide_eq_true_eq, beq_iff_eq]
      constructor
      · intro entry
        exact (own i x entry).symm
      · intro same
        exact same ▸ held.2
    rw [List.countP_congr only]
    exact List.count_eq_one_of_mem List.nodup_range (List.mem_range.mpr held.1)
  · rw [List.countP_eq_zero]
    intro i inside entry
    have entry := of_decide_eq_true entry
    have same := own i x entry
    subst same
    exact held ⟨List.mem_range.mp inside, entry⟩

theorem touchMark_stLift (own : s.OwnIds) (x : Nat) :
    touchMark (stLift 0 (noSlots s)) x =
      if 0 < s.preTouch ∧ x < stMaxTouch ∧ s.preId x = some x then liftMark (s.tpDown x, none)
      else (s.tpDown x, none) := by
  unfold stLift
  by_cases some_ : 0 < s.preTouch
  · have scan := touchMark_scan [] (List.not_mem_nil (a := x)) (List.range stMaxTouch) (noSlots s)
      List.nodup_range
    have each : stScan 0 = scanUp [] := rfl
    have count : ((List.range stMaxTouch).countP fun i => (noSlots s).1.preId i = some x) =
        if x < stMaxTouch ∧ s.preId x = some x then 1 else 0 := OwnIds.count own x
    rw [if_pos (show 0 < (noSlots s).1.preTouch from some_), each, scan, count]
    simp only [some_, true_and]
    split_ifs <;> rfl
  · rw [if_neg (show ¬0 < (noSlots s).1.preTouch from some_), if_neg fun all => some_ all.1]
    rfl

theorem stPoints_slots (is : List Nat) : is.filterMap (slotOf (stPoints bus regs)) = is := by
  have each : slotOf (stPoints bus regs) = some := rfl
  rw [each, List.filterMap_some]

theorem touchMark_st (bus : St1663iBus) (regs : Nat → BitVec 8) (own : s.OwnIds) (x : Nat) :
    touchMark (putPoints (stPoints bus regs) (stFingers regs)
      (stLift (stFingers regs) (noSlots s))) x =
        (stOutcome s bus regs x).mark (s.tpDown x, none) := by
  have distinct (n : Nat) : ((List.range n).filterMap (slotOf (stPoints bus regs))).Nodup := by
    rw [stPoints_slots]
    exact List.nodup_range
  have points (n : Nat) (r : TouchState) : touchMark (putPoints (stPoints bus regs) n r) x =
      touchMark ((List.range n).foldl (putPoint (stPoints bus regs)) r) x := rfl
  unfold stOutcome
  rw [points]
  by_cases inside : x < stFingers regs
  · have idle := stLift_idle (Nat.zero_lt_of_lt inside) (r := noSlots s) own
    rw [if_pos inside, idle]
    exact touchMark_putPoints (p := ⟨x, stUse bus regs x⟩) (distinct _) (List.mem_range.mpr inside) rfl
  · rw [if_neg inside, touchMark_putPoints_other]
    · by_cases none : stFingers regs = 0
      · rw [none, touchMark_stLift own]
        simp only [true_and]
        split_ifs <;> rfl
      · rw [stLift_idle (Nat.pos_of_ne_zero none) (show (noSlots s).1.OwnIds from own),
          if_neg fun all => none all.1]
        rfl
    · rintro i listed p same rfl
      cases same
      exact inside (List.mem_range.mp listed)

theorem scanUp_entry {ids : List Nat} {i k id : Nat}
    (entry : (scanUp ids r i).1.preId k = some id) : r.1.preId k = some id := by
  by_cases other : k = i
  · subst other
    unfold scanUp at entry
    split at entry
    · exact entry
    · split_ifs at entry
      · exact entry
      · simp at entry
  · rwa [scanUp_preId_of_ne ids r other] at entry

theorem OwnIds.lift {fingers : Nat} (own : r.1.OwnIds) : (stLift fingers r).1.OwnIds := by
  unfold stLift
  split_ifs with fewer
  · clear fewer
    generalize List.range stMaxTouch = is
    induction is generalizing r with
    | nil => exact own
    | cons i is ih =>
      apply ih
      intro k id entry
      exact own k id (scanUp_entry entry)
  · exact own

theorem stPoints_preId (bus : St1663iBus) (regs : Nat → BitVec 8) (is : List Nat) (k : Nat) :
    (is.foldl (putPoint (stPoints bus regs)) r).1.preId k =
      if k ∈ is then some k else r.1.preId k := by
  induction is generalizing r with
  | nil => rfl
  | cons i is ih =>
    rw [List.foldl_cons, ih]
    by_cases same : k = i
    · subst same
      rw [putPoint_preId_self rfl, ite_self, if_pos List.mem_cons_self]
    · simp only [putPoint_preId_of_ne same, List.mem_cons, same, false_or]

end Report

/-- What holds in every run: the entries of `pre_id` are their places, the events of each slot
alternate with its flag, and a slot marked down has an entry. -/
structure TouchRun.StInv (r : TouchRun) : Prop where
  own : r.driver.OwnIds
  inStep : ∀ x, r.InStep x
  held : ∀ x, r.driver.tpDown x = true → x < stMaxTouch ∧ r.driver.preId x = some x

theorem stStep_quiet {e : TouchCall St1663iBus} (unread : ¬∃ regs, StReads e regs) (r : TouchRun) :
    ∃ pre, stStep r e = ⟨{ r.driver with preTouch := pre }, r.history, r.report⟩ := by
  have failed := after_failed r e.bus.fingers
  unfold stStep st1663iReadPoint
  split_ifs with refused
  · exact ⟨r.driver.preTouch, rfl⟩
  · cases came : e.bus.regs with
    | none => exact ⟨0, failed⟩
    | some regs =>
      have many : stMaxTouch < stFingers regs := by
        by_contra few
        exact unread ⟨regs, by omega, came, Nat.le_of_not_lt few⟩
      simp only [if_pos many]
      exact ⟨0, failed⟩

theorem stStep_report {e : TouchCall St1663iBus} {regs : Nat → BitVec 8} (reads : StReads e regs)
    (r : TouchRun) : stStep r e =
      r.after (.ok (putPoints (stPoints e.bus regs) (stFingers regs)
        (stLift (stFingers regs) (noSlots r.driver)), e.readNum)) e.bus.fingers := by
  obtain ⟨accepted, came, few⟩ := reads
  unfold stStep st1663iReadPoint
  rw [if_neg (show ¬(e.readNum = 0 ∨ stMaxTouch < e.readNum) by omega)]
  simp only [came, if_neg (Nat.not_lt.mpr few)]

theorem TouchRun.StInv.step {r : TouchRun} (inv : r.StInv) (e : TouchCall St1663iBus) :
    (stStep r e).StInv := by
  by_cases read : ∃ regs, StReads e regs
  · obtain ⟨regs, reads⟩ := read
    have mark := touchMark_st e.bus regs inv.own
    have entries (k : Nat) := stPoints_preId e.bus regs
      (r := stLift (stFingers regs) (noSlots r.driver)) (List.range (stFingers regs)) k
    rw [stStep_report reads]
    refine ⟨?_, fun x => (inv.inStep x).after (mark x) _ _, ?_⟩
    · intro k id entry
      have entry := (entries k).symm.trans entry
      split_ifs at entry with listed
      · exact (Option.some.inj entry).symm
      · exact OwnIds.lift (show (noSlots r.driver).1.OwnIds from inv.own) k id entry
    · intro x flag
      rw [after_flag (mark x), PointUse.mark_flag] at flag
      have entry := entries x
      unfold stOutcome at flag
      by_cases inside : x < stFingers regs
      · rw [if_pos (List.mem_range.mpr inside)] at entry
        exact ⟨Nat.lt_of_lt_of_le inside reads.2.2, entry⟩
      · rw [if_neg (mt List.mem_range.mp inside)] at entry
        rw [if_neg inside] at flag
        split_ifs at flag with lifted
        · simp [PointUse.Touched] at flag
        · have down : r.driver.tpDown x = true := by simpa [PointUse.Touched] using flag
          have before := inv.held x down
          have kept : stLift (stFingers regs) (noSlots r.driver) = noSlots r.driver := by
            by_cases some_ : 0 < stFingers regs
            · exact stLift_idle some_ inv.own
            · unfold stLift
              rw [if_neg]
              intro fewer
              exact lifted ⟨by omega, Nat.zero_lt_of_lt fewer, before⟩
          have entered : (stLift (stFingers regs) (noSlots r.driver)).1.preId x = some x := by
            rw [kept]
            exact before.2
          exact ⟨before.1, entry.trans entered⟩
  · obtain ⟨pre, same⟩ := stStep_quiet read r
    rw [same]
    exact ⟨inv.own, inv.inStep, inv.held⟩

theorem st_alternates (es : List (TouchCall St1663iBus)) : (es.foldl stStep .start).StInv := by
  apply Runs.foldl_invariant (fun _ _ => True) TouchRun.StInv fun r e inv _ => inv.step e
  · refine ⟨fun i id entry => ?_, fun x => .start, fun x down => ?_⟩
    · simp [TouchRun.start, Gt911.init] at entry
    · simp [TouchRun.start, Gt911.init] at down
  · intro _ _ _
    trivial

theorem mem_fingers {bus : St1663iBus} {regs : Nat → BitVec 8} (came : bus.regs = some regs)
    (x : Nat) : x ∈ bus.fingers ↔ x < stFingers regs ∧ (stUse bus regs x).Touched := by
  unfold St1663iBus.fingers
  simp only [came, List.mem_filter, List.mem_range, decide_eq_true_eq]

/-- A report leaves the slots marked down that are its fingers exactly if it releases the others. -/
theorem st_follows_step_iff {r : TouchRun} (inv : r.StInv)
    (marked : ∀ x, r.driver.tpDown x = true ↔ x ∈ r.report) (e : TouchCall St1663iBus) :
    (∀ x, (stStep r e).driver.tpDown x = true ↔ x ∈ (stStep r e).report) ↔ r.StReleases e := by
  unfold TouchRun.StReleases
  by_cases read : ∃ regs, StReads e regs
  · obtain ⟨regs, reads⟩ := read
    have only : ∀ regs', StReads e regs' → regs' = regs := by
      intro regs' reads'
      exact Option.some.inj (reads'.2.1.symm.trans reads.2.1)
    have each (x : Nat) : ((stStep r e).driver.tpDown x = true ↔ x ∈ (stStep r e).report) ↔
        (r.driver.tpDown x = true → if x < stFingers regs then stUse e.bus regs x ≠ .invalid
          else stFingers regs = 0 ∧ 0 < r.driver.preTouch) := by
      have mark := touchMark_st e.bus regs inv.own x
      have counted : e.readNum ≠ 0 := Nat.ne_of_gt reads.1.1
      have report : (stStep r e).report = e.bus.fingers := by
        rw [stStep_report reads]
        exact if_neg counted
      rw [report, mem_fingers reads.2.1, stStep_report reads, after_flag mark, PointUse.mark_flag]
      unfold stOutcome
      by_cases inside : x < stFingers regs
      · simp only [inside, if_true, true_and]
        cases use : stUse e.bus regs x with
        | down u v w => simp [PointUse.Touched]
        | up => simp [PointUse.Touched]
        | invalid => simp [PointUse.Touched]
      · simp only [inside, if_false, false_and, iff_false]
        cases down : r.driver.tpDown x with
        | true =>
          have held := inv.held x down
          by_cases lifted : stFingers regs = 0 ∧ 0 < r.driver.preTouch
          · simp [lifted, held, PointUse.Touched]
          · have kept : ¬(stFingers regs = 0 ∧ 0 < r.driver.preTouch ∧ x < stMaxTouch ∧
                r.driver.preId x = some x) := fun all => lifted ⟨all.1, all.2.1⟩
            simp [kept, lifted, PointUse.Touched]
        | false =>
          simp only [Bool.false_eq_true, false_imp_iff, iff_true, and_false, or_false]
          split_ifs <;> exact id
    constructor
    · intro all regs' reads' x
      rw [only regs' reads']
      exact (each x).mp (all x)
    · intro releases x
      exact (each x).mpr (releases regs reads x)
  · obtain ⟨pre, same⟩ := stStep_quiet read r
    rw [same]
    exact iff_of_true marked fun regs reads => absurd ⟨regs, reads⟩ read

/-- Over every sequence of calls the slots marked down are the fingers of the latest report, and
their events alternate, exactly when every report releases the slots that are none of its own. -/
theorem st1663i_follows_throughout_iff (es : List (TouchCall St1663iBus)) :
    (∀ pre, pre <+: es → (pre.foldl stStep .start).SlotsFollow) ↔
      Runs.StepsMeet stStep TouchRun.StReleases .start es := by
  have follows {r : TouchRun} (inv : r.StInv) :
      r.SlotsFollow ↔ ∀ x, r.driver.tpDown x = true ↔ x ∈ r.report :=
    ⟨fun all x => (all x).2, fun all x => ⟨⟨_, inv.inStep x⟩, all x⟩⟩
  apply Runs.prefixes_hold_iff
    (fun r : TouchRun => r.StInv ∧ ∀ x, r.driver.tpDown x = true ↔ x ∈ r.report) TouchRun.SlotsFollow
  · rintro r ⟨inv, marked⟩
    exact (follows inv).mpr marked
  · rintro r e ⟨inv, marked⟩
    rw [follows (inv.step e)]
    exact st_follows_step_iff inv marked e
  · rintro r e ⟨inv, marked⟩ releases
    exact ⟨inv.step e, (st_follows_step_iff inv marked e).mpr releases⟩
  · refine ⟨st_alternates [], fun x => ?_⟩
    simp [TouchRun.start, Gt911.init]

def stReport (fingers : BitVec 8) : TouchCall St1663iBus where
  bus := ⟨some fun k => if k = 0 then fingers else if k % 4 = 2 then 0x80 else 0, 480, 272⟩
  readNum := 5

def stFailure : TouchCall St1663iBus := ⟨⟨none, 480, 272⟩, 5⟩

/-- The second of two fingers is lifted; the only one is lifted, but a transfer fails before that is
reported. -/
theorem lifted_finger_stays_down :
    (¬∀ pre, pre <+: [stReport 2, stReport 1] → (pre.foldl stStep .start).SlotsFollow) ∧
    ¬∀ pre, pre <+: [stReport 1, stFailure, stReport 0] →
      (pre.foldl stStep .start).SlotsFollow := by
  constructor
  · intro all
    have last := (all _ List.prefix_rfl 1).2
    exact absurd (last.mp (by decide)) (by decide)
  · intro all
    have last := (all _ List.prefix_rfl 0).2
    exact absurd (last.mp (by decide)) (by decide)

end NuMakerMA35
