import NuMakerMA35.OhciCtrlLaw

namespace NuMakerMA35

open Countdown

namespace CtrlRun

open Ohci

section Steps

variable {b : UnitBase} {s : CtrlRun} {e : CtrlEvent} {o : Ohci} {utr ed td : U32} {tds : List U32}

theorem Starts.ok (starts : s.Starts) : s.Ok b := by
  have waiting : s.waiting = [] := if_pos starts.head
  constructor
  case accounts =>
    rw [starts.accepted, starts.done, waiting]
    exact Books.nil
  case head => exact fun some => absurd starts.head some
  case pipes => exact fun d some => absurd (starts.pipes d) some
  case own => exact fun d d' some => absurd (starts.pipes d) some
  case once =>
    rw [starts.removing]
    exact List.nodup_nil
  case removing =>
    rw [starts.removing]
    exact fun _ none => absurd none List.not_mem_nil
  case current =>
    rw [starts.accepted]
    exact fun _ none => absurd none List.not_mem_nil
  all_goals
    rw [starts.live]
    exact fun _ none => absurd none List.not_mem_nil

theorem step_submit {err : Int} (ret : s.toOhci.ctrlXfer b utr = some (o, err)) :
    s.step b (.submit utr) = if err = 0 then s.accept o utr else { s with toOhci := o } := by
  unfold CtrlRun.step
  dsimp only
  rw [ret]

theorem Ok.submit (ok : s.Ok b) (allowed : s.Allowed b (.submit utr))
    (meets : s.Meets b (.submit utr)) : (s.step b (.submit utr)).Ok b := by
  obtain ⟨short, apart, some⟩ := allowed
  obtain ⟨⟨o, err⟩, ret⟩ := Option.isSome_iff_exists.mp some
  rw [step_submit ret]
  rcases ctrlXfer_cases ret with ⟨rfl, ed, tds, accepted⟩ | ⟨rfl, refused⟩
  · rw [if_pos rfl]
    exact ok.accept (meets ((ctrlXfer_granted ret).mp rfl)) short apart accepted
  · rw [if_neg (by decide)]
    exact ok.other (ok.refused_spares refused (ctrlXfer_fails ret (by decide)).used)

theorem Ok.step (ok : s.Ok b) (allowed : s.Allowed b e) (meets : s.Meets b e) :
    (s.step b e).Ok b := by
  cases e with
  | submit utr => exact ok.submit allowed meets
  | retire ed info cbp headBits => exact ok.retire allowed info cbp headBits
  | reclaim => exact ok.reclaim
  | quit utr ep => exact ok.quit allowed.1 allowed.2
  | remove turns => exact ok.remove turns
  | other o => exact ok.other allowed

theorem Ok.removal_ends (ok : s.Ok b) (due : ed ∈ s.edRemoveList) :
    (s.toOhci.removeTurn b 2 ed).isSome := by
  have here := ok.removing ed due
  unfold removeTurn
  by_cases first : s.hcControlHeadED = ed
  · subst first
    rw [ok.unlinkEd_head here]
    rfl
  · rw [(@Ok.unlinkEd_other b s ed 2 ok here first).2]
    rfl

theorem Ok.safe (ok : s.Ok b) : s.Safe b :=
  ⟨fun _ here => ok.served here,
    fun _ first => ⟨2, ok.removal_ends (List.mem_of_mem_head? first)⟩⟩

theorem listed_accepted (accepted : CtrlAccepted b s.toOhci o utr
    (s.udevs (s.utrs utr).udev).ep0 ed tds) {a : U32} (listed : o.Listed a) : a = ed := by
  induction listed with
  | head some => exact accepted.head
  | next _ more ih => exact absurd (ih ▸ accepted.linked.2) more

theorem Ok.idle_of_safe (ok : s.Ok b)
    (accepted : CtrlAccepted b s.toOhci o utr (s.udevs (s.utrs utr).udev).ep0 ed tds)
    (safe : (s.accept o utr).Safe b) : s.Idle := by
  intro x here td left
  by_contra notDone
  have waits := (ok.out here left).resolve_left notDone
  obtain ⟨pending, atHead⟩ := ok.current x here td left waits
  have kept : x ∈ (s.accept o utr).accepted := List.mem_append_left _ here
  obtain ⟨listed, linked⟩ := (safe.1 x kept).listed pending td left notDone
  rw [listed_accepted accepted listed] at linked
  refine in_use_not_new accepted (ok.inUse (List.mem_append_right _ waits)) ?_
  exact accepted.linked.1 ▸ linked

theorem Ok.safe_step_iff (ok : s.Ok b) (allowed : s.Allowed b e) :
    (s.step b e).Safe b ↔ s.Meets b e := by
  refine ⟨fun safe => ?_, fun meets => (ok.step allowed meets).safe⟩
  cases e with
  | submit utr =>
    intro granted
    obtain ⟨⟨o, err⟩, ret⟩ := Option.isSome_iff_exists.mp allowed.2.2
    have zero : err = 0 := (ctrlXfer_granted ret).mpr granted
    subst zero
    rw [step_submit ret, if_pos rfl] at safe
    rcases ctrlXfer_cases ret with ⟨-, ed, tds, accepted⟩ | ⟨wrong, -⟩
    · exact ok.idle_of_safe accepted safe
    · cases wrong
  | _ => trivial

theorem allowed_remove (ed : U32) {turns : Nat} (due : s.edRemoveList = [ed])
    (ends : (s.toOhci.removeTurn b turns ed).isSome) : s.Allowed b (.remove turns) := by
  intro first mem
  rw [due] at mem
  cases mem
  exact ends

end Steps

end CtrlRun

/-- An empty pool, and no transfer yet; a device's address tells its transfers and its endpoint. -/
def idleOhci : CtrlRun where
  pool := usbhMemoryInit
  refuse := []
  eds := fun _ => ⟨0, 0, [], 0, 0, 0, 0⟩
  tds := fun _ => ⟨0, 0, 0, 0, 0, 0, 0⟩
  eps := fun _ => ⟨0, 0, 0, 0, 64, 0⟩
  udevs := fun d => ⟨64, [], 1, if d = 0x20000000 then 1 else 2, .full, d + 0x100⟩
  utrs := fun u => ⟨u - 0x2000, 0, 0, 0, false, 0, 0, false, 0, 0, 0, 0, 0, 0⟩
  hcControlHeadED := 0
  hcBulkHeadED := 0
  hcControl := 0
  ied := fun _ => 0
  frameNo := 0
  edRemoveList := []
  called := []
  done := []
  accepted := []
  live := []

theorem idleOhci_starts : idleOhci.Starts := ⟨rfl, rfl, fun _ => rfl, rfl, rfl, rfl⟩

/-- In a run from the start on all control transfers that were accepted are served exactly as long as
one is accepted only where the controller is done with those before. -/
theorem ohci_control_list_iff {b : UnitBase} {s : CtrlRun} (starts : s.Starts) (es : List CtrlEvent)
    (possible : Runs.StepsMeet (CtrlRun.step b) (CtrlRun.Allowed b) s es) :
    (∀ pre, pre <+: es → (pre.foldl (CtrlRun.step b) s).Safe b) ↔
      Runs.StepsMeet (CtrlRun.step b) (CtrlRun.Meets b) s es :=
  Runs.prefixes_hold_iff_of_allowed (CtrlRun.Ok b) (CtrlRun.Safe b) (fun _ ok => ok.safe)
    (fun _ _ ok allowed => ok.safe_step_iff allowed)
    (fun _ _ ok allowed meets => ok.step allowed meets) starts.ok es possible

/-- A transfer that is quit is removed with its descriptors, and reported. -/
theorem quitControl_served :
    (∀ pre, pre <+: [.submit 0x20002000, .quit 0 0x20000100, .remove 2] →
      (pre.foldl (CtrlRun.step unitBaseAt) idleOhci).Safe unitBaseAt) ∧
    ([.submit 0x20002000, .quit 0 0x20000100, .remove 2].foldl (CtrlRun.step unitBaseAt)
      idleOhci).called = [0x20002000] := by
  refine ⟨(ohci_control_list_iff idleOhci_starts _ ?_).mpr ?_, by decide⟩
  · rw [Runs.stepsMeet_cons, Runs.stepsMeet_cons, Runs.stepsMeet_cons]
    refine ⟨⟨?_, ?_, ?_⟩, ⟨?_, ?_⟩, ?_, ?_⟩
    · decide
    · decide
    · decide
    · exact fun wrong => absurd rfl wrong
    · exact fun _ => ⟨0x20000000, by decide⟩
    · exact CtrlRun.allowed_remove 0x1200 (by decide) (by decide)
    · exact Runs.stepsMeet_nil
  · rw [Runs.stepsMeet_cons, Runs.stepsMeet_cons, Runs.stepsMeet_cons]
    refine ⟨fun _ x none => ?_, trivial, trivial, Runs.stepsMeet_nil⟩
    exact absurd none List.not_mem_nil

def secondControl : List CtrlEvent :=
  [.submit 0x20002000, .submit 0x20002400, .quit 0 0x20000100, .remove 2]

/-- The transfer of the second device takes the first one's out of the list, and its removal then
finds nothing: the descriptors stay, and it is not reported. -/
theorem secondControl_lost :
    idleOhci.Starts ∧
    Runs.StepsMeet (CtrlRun.step unitBaseAt) (CtrlRun.Allowed unitBaseAt) idleOhci secondControl ∧
    (secondControl.foldl (CtrlRun.step unitBaseAt) idleOhci).called = [] ∧
    ¬∀ pre, pre <+: secondControl →
      (pre.foldl (CtrlRun.step unitBaseAt) idleOhci).Safe unitBaseAt := by
  refine ⟨idleOhci_starts, ?_, by decide, ?_⟩
  · unfold secondControl
    rw [Runs.stepsMeet_cons, Runs.stepsMeet_cons, Runs.stepsMeet_cons, Runs.stepsMeet_cons]
    refine ⟨⟨?_, ?_, ?_⟩, ⟨?_, ?_, ?_⟩, ⟨?_, ?_⟩, ?_, ?_⟩
    · decide
    · decide
    · decide
    · decide
    · decide
    · decide
    · exact fun wrong => absurd rfl wrong
    · exact fun _ => ⟨0x20000000, by decide⟩
    · exact CtrlRun.allowed_remove 0x1200 (by decide) (by decide)
    · exact Runs.stepsMeet_nil
  · intro safe
    have ended := (safe _ (List.prefix_refl _)).1
    have left : (secondControl.foldl (CtrlRun.step unitBaseAt) idleOhci).accepted.map
        (fun x => (x.left, x.removed)) = [([0x1000, 0x1100], true), ([0x1300, 0x1400], false)] := by
      decide +kernel
    have done : (secondControl.foldl (CtrlRun.step unitBaseAt) idleOhci).done = [] := by
      decide
    obtain ⟨x, here, same⟩ := List.mem_map.mp (left ▸ List.mem_cons_self)
    obtain ⟨kept, removed⟩ := Prod.mk.inj same
    have reclaimed := (ended x here).reclaimed removed 0x1000 (kept ▸ List.mem_cons_self)
    rw [done] at reclaimed
    exact List.not_mem_nil reclaimed

end NuMakerMA35
