import NuMakerMA35.Gt911

namespace NuMakerMA35

def TouchBuf.returned (buf : TouchBuf) (x : Nat) : List TouchEvent :=
  match (buf x).map TouchData.event with
  | none => []
  | some TouchEvent.none => []
  | some event => [event]

/-- The ids the controller reports, when it has a report and the bus delivers it. -/
def Gt911Bus.report (bus : Gt911Bus) : Option (List Nat) :=
  match bus.status with
  | none => none
  | some pointStatus =>
    if pointStatus &&& 0x80 = 0 ∨ gt911MaxTouch < (pointStatus &&& 0x0f).toNat ∨ bus.pointsRead = false
    then none
    else some ((List.range (pointStatus &&& 0x0f).toNat).map (pointId bus.points))

/-- The ids the driver takes the report for: the bytes it did not fetch read as zero. -/
def Gt911Bus.decoded (bus : Gt911Bus) (readNum : Nat) (ids : List Nat) : List Nat :=
  (List.range ids.length).map
    (pointId (gt911ReadBuf (readNum * gt911PointInfoNum % 256) bus.points))

def Gt911.lifts (s : Gt911) (decoded : List Nat) (x : Nat) : Nat :=
  if decoded.length < s.preTouch ∧ x ∉ decoded then
    (List.range gt911MaxTouch).countP fun i => s.preId i = some x
  else 0

/-- DOWN MOVE* UP over and over; the flag tells whether a touch is going on. -/
inductive Alternation : Bool → List TouchEvent → Prop where
  | start : Alternation false []
  | down {h : List TouchEvent} : Alternation false h → Alternation true (h ++ [.down])
  | move {h : List TouchEvent} : Alternation true h → Alternation true (h ++ [.move])
  | up {h : List TouchEvent} : Alternation true h → Alternation false (h ++ [.up])

def lastIsTouch (h : List TouchEvent) : Prop :=
  h.getLast? = some .down ∨ h.getLast? = some .move

instance (h : List TouchEvent) : Decidable (lastIsTouch h) :=
  inferInstanceAs (Decidable (_ ∨ _))

/-- A sequence of reads: the driver, the events returned for each id and the latest report. -/
structure TouchRun where
  driver : Gt911
  history : Nat → List TouchEvent
  report : List Nat

/-- One call of the driver's read function: what is fetched fits `read_buf`, and a report names
different points among those supported. -/
structure TouchRead where
  bus : Gt911Bus
  readNum : Nat
  fits : readNum * gt911PointInfoNum % 256 ≤ 8 * gt911MaxTouch
  distinct : ∀ ids, bus.report = some ids → ids.Nodup
  supported : ∀ ids, bus.report = some ids → ∀ x ∈ ids, x < gt911MaxTouch

def touchStep (r : TouchRun) (e : TouchRead) : TouchRun :=
  let out := gt911ReadPoint r.driver e.bus e.readNum
  { driver := out.1.1
    history := fun x => r.history x ++ out.1.2.returned x
    report := e.bus.report.getD r.report }

def TouchRun.start : TouchRun := ⟨.init, fun _ => [], []⟩

/-- Every id's events alternate, and the ids that are down are those of the latest report. -/
def TouchRun.Follows (r : TouchRun) : Prop :=
  ∀ x, (∃ touching, Alternation touching (r.history x)) ∧
    (lastIsTouch (r.history x) ↔ x ∈ r.report)

/-- A decoded id is in the report and flagged down as it should be; an id not decoded has left
the report exactly if it is lifted once. -/
def Gt911.Tracks (s : Gt911) (report ids decoded : List Nat) (x : Nat) : Prop :=
  if x ∈ decoded then
    x ∈ ids ∧ (x ∈ report ↔ s.tpDown x = true ∨ 2 ≤ decoded.count x)
  else if s.lifts decoded x = 1 ∧ s.tpDown x = true then x ∈ report ∧ x ∉ ids
  else (x ∈ report ↔ x ∈ ids)

/-- A read without a report changes nothing; one with a report tracks every id. -/
def TouchRun.Tracked (r : TouchRun) (e : TouchRead) : Prop :=
  ∀ ids, e.bus.report = some ids →
    ∀ x, r.driver.Tracks r.report ids (e.bus.decoded e.readNum ids) x

theorem gt911ReadPoint_no_report {bus : Gt911Bus} (h : bus.report = none) (s : Gt911)
    (readNum : Nat) : gt911ReadPoint s bus readNum = ((s, fun _ => none), 0) := by
  unfold Gt911Bus.report at h
  unfold gt911ReadPoint
  cases status : bus.status with
  | none => rfl
  | some pointStatus =>
    simp only [status] at h ⊢
    split_ifs at h with absent
    rcases absent with notReady | tooMany | unread
    · simp only [if_pos notReady, ite_self]
    · simp only [if_pos tooMany, ite_self]
    · simp only [unread, Bool.not_false, if_true, ite_self]

theorem gt911ReadPoint_report {bus : Gt911Bus} {ids : List Nat} (h : bus.report = some ids)
    (s : Gt911) (readNum : Nat) : gt911ReadPoint s bus readNum =
      (gt911Points s (gt911ReadBuf (readNum * gt911PointInfoNum % 256) bus.points) ids.length,
        readNum) := by
  unfold Gt911Bus.report at h
  unfold gt911ReadPoint
  cases status : bus.status with
  | none => simp [status] at h
  | some pointStatus =>
    simp only [status] at h ⊢
    split_ifs at h with absent
    simp only [not_or] at absent
    obtain ⟨ready, few, read⟩ := absent
    have count : ids.length = (pointStatus &&& 0x0f).toNat := by
      cases h
      simp
    have shown : pointStatus ≠ 0 := by
      intro zero
      rw [zero] at ready
      exact ready (by decide)
    simp only [Bool.not_eq_false] at read
    simp only [if_neg shown, if_neg ready, if_neg few, read, Bool.not_true, Bool.false_eq_true,
      if_false, count]

theorem touchMark_gt911Points (s : Gt911) (readBuf : Nat → BitVec 8) (touchNum x : Nat) :
    touchMark (gt911Points s readBuf touchNum) x =
      pressMark^[((List.range touchNum).map (pointId readBuf)).count x]
        (liftMark^[s.lifts ((List.range touchNum).map (pointId readBuf)) x]
          (s.tpDown x, none)) := by
  have pressed := touchMark_points readBuf x (List.range touchNum)
    (if touchNum < s.preTouch then
      (List.range gt911MaxTouch).foldl (scanUp ((List.range touchNum).map (pointId readBuf)))
        (s, fun _ => none)
    else (s, fun _ => none))
  refine pressed.trans (congrArg _ ?_)
  unfold Gt911.lifts
  rw [List.length_map, List.length_range]
  by_cases fewer : touchNum < s.preTouch
  · rw [if_pos fewer]
    by_cases present : x ∈ (List.range touchNum).map (pointId readBuf)
    · rw [touchMark_scan_present _ present, if_neg (fun both => both.2 present)]
      rfl
    · rw [touchMark_scan _ present _ _ List.nodup_range, if_pos ⟨fewer, present⟩]
      rfl
  · rw [if_neg fewer, if_neg (fun both => fewer both.1)]
    rfl

theorem TouchBuf.returned_eq {r : Gt911 × TouchBuf} {x : Nat} {m : Bool × Option TouchEvent}
    (mark : touchMark r x = m) : r.2.returned x =
      match m.2 with
      | none => []
      | some TouchEvent.none => []
      | some event => [event] := by
  subst mark
  rfl

theorem Alternation.last {b : Bool} {h : List TouchEvent} (alt : Alternation b h) :
    lastIsTouch h ↔ b = true := by
  cases alt with
  | start => simp [lastIsTouch]
  | down _ => simp [lastIsTouch]
  | move _ => simp [lastIsTouch]
  | up _ => simp [lastIsTouch]

theorem Alternation.unique {b c : Bool} {h : List TouchEvent} (one : Alternation b h)
    (other : Alternation c h) : b = c := by
  have same := one.last.symm.trans other.last
  cases b <;> cases c <;> simp_all

theorem TouchRun.follows_iff (r : TouchRun) :
    r.Follows ↔ ∀ x, Alternation (decide (x ∈ r.report)) (r.history x) := by
  constructor
  · intro follows x
    obtain ⟨⟨b, alt⟩, last⟩ := follows x
    have same : b = decide (x ∈ r.report) := by
      have both := alt.last.symm.trans last
      cases b <;> simp_all
    exact same ▸ alt
  · intro all x
    refine ⟨⟨_, all x⟩, ?_⟩
    rw [(all x).last, decide_eq_true_eq]

theorem alternation_snoc {b : Bool} {h : List TouchEvent} (alt : Alternation b h) (c : Bool)
    (e : TouchEvent) : Alternation c (h ++ [e]) ↔
      (b = false ∧ e = .down ∧ c = true) ∨ (b = true ∧ e = .move ∧ c = true) ∨
        (b = true ∧ e = .up ∧ c = false) := by
  constructor
  · intro next
    generalize whole : h ++ [e] = g at next
    cases next with
    | start => simp at whole
    | down before =>
      obtain ⟨rfl, same⟩ := List.append_inj' whole rfl
      exact .inl ⟨alt.unique before, List.head_eq_of_cons_eq same, rfl⟩
    | move before =>
      obtain ⟨rfl, same⟩ := List.append_inj' whole rfl
      exact .inr (.inl ⟨alt.unique before, List.head_eq_of_cons_eq same, rfl⟩)
    | up before =>
      obtain ⟨rfl, same⟩ := List.append_inj' whole rfl
      exact .inr (.inr ⟨alt.unique before, List.head_eq_of_cons_eq same, rfl⟩)
  · rintro (⟨rfl, rfl, rfl⟩ | ⟨rfl, rfl, rfl⟩ | ⟨rfl, rfl, rfl⟩)
    · exact alt.down
    · exact alt.move
    · exact alt.up

theorem alternation_report_iff {s : Gt911} {report ids : List Nat} {h : List TouchEvent} {x : Nat}
    (alt : Alternation (decide (x ∈ report)) h) (readBuf : Nat → BitVec 8) :
    Alternation (decide (x ∈ ids)) (h ++ (gt911Points s readBuf ids.length).2.returned x) ↔
      s.Tracks report ids ((List.range ids.length).map (pointId readBuf)) x := by
  have mark := touchMark_gt911Points s readBuf ids.length x
  generalize (List.range ids.length).map (pointId readBuf) = decoded at mark ⊢
  rw [TouchBuf.returned_eq mark, Gt911.Tracks, pressMark_iterate, liftMark_iterate]
  have silent : Alternation (decide (x ∈ ids)) (h ++ []) ↔ (x ∈ report ↔ x ∈ ids) := by
    rw [List.append_nil]
    constructor
    · intro other
      simpa using alt.unique other
    · intro same
      simpa only [same] using alt
  by_cases present : x ∈ decoded
  · have unlifted : s.lifts decoded x = 0 := if_neg fun both => both.2 present
    have counted : 0 < decoded.count x := List.count_pos_iff.mpr present
    have next := alternation_snoc alt (decide (x ∈ ids))
    rw [if_pos present, if_neg (by omega), unlifted, if_pos rfl]
    by_cases once : decoded.count x = 1
    · cases flag : s.tpDown x
      · simp [once, pressMark, next]
        tauto
      · simp [once, pressMark, next, and_comm]
    · have often : 2 ≤ decoded.count x := by omega
      simp [once, often, next]
      tauto
  · have absent : decoded.count x = 0 := List.count_eq_zero_of_not_mem present
    have next := alternation_snoc alt (decide (x ∈ ids)) .up
    rw [if_neg present, absent, if_pos rfl]
    by_cases unlifted : s.lifts decoded x = 0
    · simpa [unlifted] using silent
    · by_cases once : s.lifts decoded x = 1
      · cases flag : s.tpDown x
        · simpa [once, liftMark] using silent
        · simpa [once, liftMark] using next
      · simpa [unlifted, once] using silent

theorem follows_step_iff {r : TouchRun} (follows : r.Follows) (e : TouchRead) :
    (touchStep r e).Follows ↔ r.Tracked e := by
  rw [TouchRun.follows_iff] at follows ⊢
  unfold TouchRun.Tracked
  cases h : e.bus.report with
  | none =>
    have same : touchStep r e = r := by
      simp [touchStep, gt911ReadPoint_no_report h, h, TouchBuf.returned]
    rw [same]
    exact iff_of_true follows fun ids absent => nomatch absent
  | some ids =>
    have each : ∀ x, Alternation (decide (x ∈ (touchStep r e).report)) ((touchStep r e).history x) ↔
        r.driver.Tracks r.report ids (e.bus.decoded e.readNum ids) x := by
      intro x
      simp only [touchStep, gt911ReadPoint_report h, h, Option.getD_some]
      exact alternation_report_iff (follows x) _
    constructor
    · intro all ids' same
      cases same
      intro x
      exact (each x).mp (all x)
    · intro tracked x
      exact (each x).mpr (tracked ids rfl x)

/-- Over every sequence of reads the events follow the reports exactly when each read tracks
every id. -/
theorem touch_follows_throughout_iff (es : List TouchRead) :
    (∀ pre, pre <+: es → (pre.foldl touchStep .start).Follows) ↔
      Runs.StepsMeet touchStep TouchRun.Tracked .start es := by
  have begin : TouchRun.start.Follows := by
    rw [TouchRun.follows_iff]
    intro x
    exact .start
  exact Runs.prefixes_hold_iff TouchRun.Follows TouchRun.Follows (fun _ h => h)
    (fun _ e follows => follows_step_iff follows e)
    (fun _ e follows tracked => (follows_step_iff follows e).mpr tracked) begin es

def onePointRead (id : Fin 5) : TouchRead where
  bus := ⟨some 0x81, fun k => if k = 0 then BitVec.ofNat 8 id else 0, true⟩
  readNum := 5
  fits := by decide
  distinct := by
    intro ids h
    cases h
    revert id
    decide
  supported := by
    intro ids h
    cases h
    revert id
    decide

/-- A finger is swapped for another: the number of points stays, so the first is never lifted. -/
def swappedFinger : List TouchRead := [onePointRead 1, onePointRead 2]

theorem swappedFinger_stays_down :
    ¬∀ pre, pre <+: swappedFinger → (pre.foldl touchStep .start).Follows := by
  intro all
  have last := (all swappedFinger List.prefix_rfl 1).2
  have down : lastIsTouch ((swappedFinger.foldl touchStep .start).history 1) := by decide
  have gone : 1 ∉ (swappedFinger.foldl touchStep .start).report := by decide
  exact gone (last.mp down)

end NuMakerMA35
