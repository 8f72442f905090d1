import NuMakerMA35.TouchIli

namespace NuMakerMA35

/-- A call of a read function: what the device answers and the size of the caller's buffer. -/
structure TouchCall (β : Type) where
  bus : β
  readNum : Nat

section

variable {β : Type} (read : Gt911 → β → Nat → Touch (TouchState × Nat))

def readStep (s : Gt911) (e : TouchCall β) : Gt911 :=
  match (read s e.bus e.readNum []).1 with
  | .ok (r, _) => r.1
  | .error _ => s

/-- Every access of every call, from the tables as the driver's init leaves them. -/
def ReadsSafe (sizes : Nat → TouchSizes) (calls : List (TouchCall β)) : Prop :=
  Runs.StepsMeet (readStep read) (fun s e => TouchSafe (sizes e.readNum) (read s e.bus e.readNum))
    .init calls

/-- Every call meets a condition on the tables before it and what the device answers. -/
def ReadsMeet (fits : Gt911 → β → Nat → Prop) (calls : List (TouchCall β)) : Prop :=
  Runs.StepsMeet (readStep read) (fun s e => fits s e.bus e.readNum) .init calls

theorem readsSafe_iff {read : Gt911 → β → Nat → Touch (TouchState × Nat)}
    {sizes : Nat → TouchSizes} {fits : Gt911 → β → Nat → Prop}
    (each : ∀ s bus n, TouchSafe (sizes n) (read s bus n) ↔ fits s bus n)
    (calls : List (TouchCall β)) : ReadsSafe read sizes calls ↔ ReadsMeet read fits calls :=
  Runs.stepsMeet_congr (fun _ => True) (fun s e _ => each s e.bus e.readNum)
    (fun _ _ _ _ => trivial) trivial calls

end

theorem touchSafe_failed {α : Type} (size : TouchSizes) :
    TouchSafe size (Logged.fail .asserted : Touch α) := Runs.stepsMeet_nil

theorem gt911_safe_iff (s : Gt911) (bus : Gt911Bus) (readNum : Nat) :
    TouchSafe (gt911Sizes readNum) (gt911ReadPointAt s bus readNum) ↔ bus.Fits s readNum := by
  obtain ⟨bytes, call⟩ := touches_gt911 s bus readNum
  exact call.run.2

theorem gt911ReadPointAt_refines (s : Gt911) (bus : Gt911Bus) (readNum : Nat) :
    (gt911ReadPointAt s bus readNum []).1 = .ok (gt911ReadPoint s bus readNum) := by
  obtain ⟨bytes, call⟩ := touches_gt911 s bus readNum
  exact call.run.1

theorem ft5446_safe_iff (s : Ft5446) (bus : Ft5446Bus) (readNum : Nat) :
    TouchSafe (ft5446Sizes readNum) (ft5446ReadPoint s bus readNum) ↔ bus.Fits s readNum := by
  by_cases accepted : 0 < readNum ∧ readNum ≤ ftMaxTouch
  · obtain ⟨bytes, call⟩ := touches_ft5446 s bus accepted.1 accepted.2
    exact call.run.2
  · have refused : readNum = 0 ∨ ftMaxTouch < readNum := by omega
    unfold ft5446ReadPoint
    rw [if_pos refused]
    refine iff_of_true (touchSafe_failed _) ?_
    intro some_ few
    exact absurd ⟨some_, few⟩ accepted

theorem ili_safe_iff (ts : IliTsData) (s : Ili) (bus : IliBus) (readNum : Nat) :
    TouchSafe (iliSizes readNum) (iliReadPoint ts s bus readNum) ↔ ts.Fits s bus readNum := by
  by_cases accepted : 0 < readNum ∧ readNum ≤ iliMaxTouch
  · obtain ⟨a, bytes, call⟩ := touches_ili ts s bus accepted.1 accepted.2
    exact call.run.2
  · have refused : readNum = 0 ∨ iliMaxTouch < readNum := by omega
    unfold iliReadPoint
    rw [if_pos refused]
    refine iff_of_true (touchSafe_failed _) ?_
    intro some_ few
    exact absurd ⟨some_, few⟩ accepted

/-- In every sequence of calls all accesses are in range, and all bytes decoded came from the bus,
exactly if every call fits. -/
theorem touch_reads_safe_iff (gt911Calls : List (TouchCall Gt911Bus))
    (ft5446Calls : List (TouchCall Ft5446Bus)) (ts : IliTsData) (iliCalls : List (TouchCall IliBus)) :
    (ReadsSafe gt911ReadPointAt gt911Sizes gt911Calls ↔
      ReadsMeet gt911ReadPointAt Gt911Bus.Fits gt911Calls) ∧
    (ReadsSafe ft5446ReadPoint ft5446Sizes ft5446Calls ↔
      ReadsMeet ft5446ReadPoint Ft5446Bus.Fits ft5446Calls) ∧
    (ReadsSafe (iliReadPoint ts) iliSizes iliCalls ↔
      ReadsMeet (iliReadPoint ts) ts.Fits iliCalls) :=
  ⟨readsSafe_iff gt911_safe_iff gt911Calls, readsSafe_iff ft5446_safe_iff ft5446Calls,
    readsSafe_iff (ili_safe_iff ts) iliCalls⟩

theorem readsSafe_singleton {β : Type} {read : Gt911 → β → Nat → Touch (TouchState × Nat)}
    {sizes : Nat → TouchSizes} {e : TouchCall β} (safe : ReadsSafe read sizes [e]) :
    TouchSafe (sizes e.readNum) (read .init e.bus e.readNum) :=
  (Runs.stepsMeet_cons.mp safe).1

/-- One point at the GT911, of which five bytes are fetched; a point with id 7 at the FT5446; one
with id 9 at an ILI controller. -/
theorem touch_reads_leave_range :
    ¬ReadsSafe gt911ReadPointAt gt911Sizes [⟨⟨some 0x81, fun _ => 0, true⟩, 5⟩] ∧
    ¬ReadsSafe ft5446ReadPoint ft5446Sizes
      [⟨⟨some fun k => if k = 2 then 1 else if k = 5 then 0x70 else 0, 480, 272⟩, 5⟩] ∧
    ¬ReadsSafe (iliReadPoint ⟨0, 0, 0, 100, 100, 5, 480, 272⟩) iliSizes
      [⟨fun _ => some fun k => if k = 61 then 1 else if k = 1 then 0x49 else 0, 5⟩] := by
  refine ⟨fun safe => ?_, fun safe => ?_, fun safe => ?_⟩
  · have fits := (gt911_safe_iff _ _ _).mp (readsSafe_singleton safe)
    exact absurd ((fits 0x81 rfl (by decide) (by decide)).2 rfl).1 (by decide)
  · have fits := (ft5446_safe_iff _ _ _).mp (readsSafe_singleton safe)
    have ids := (fits (by decide) (by decide) _ rfl (by decide)).2 0 (by decide) 7 rfl
    exact absurd (ids fun _ => by decide).1 (by decide)
  · have fits := (ili_safe_iff _ _ _ _).mp (readsSafe_singleton safe)
    rcases fits (by decide) (by decide) (by decide) rfl (by decide) with points | packets
    · exact absurd (points.2.2 0 (by decide) fun _ => by decide).1 (by decide)
    · exact absurd packets.1 (by decide)

end NuMakerMA35
