import NuMakerMA35.OhciCtrlList

namespace NuMakerMA35

open Countdown

namespace Ohci

section Reports

variable {b : UnitBase} {s t : Ohci} {td utr a : U32} {finish : Utr → Utr}

structure Reported (s t : Ohci) (utr : U32) : Prop where
  rest : t = { s with utrs := t.utrs, called := t.called }
  counts : ∀ u, (t.utrs u).tdCnt = if u = utr then (s.utrs u).tdCnt - 1 else (s.utrs u).tdCnt
  called : t.called = if (t.utrs utr).tdCnt = 0 then s.called ++ [utr] else s.called

theorem countDown_reported (same : ∀ u, (finish u).tdCnt = u.tdCnt) :
    Reported s (s.countDown utr finish) utr := by
  have counts : ∀ u, ((s.countDown utr finish).utrs u).tdCnt =
      if u = utr then (s.utrs u).tdCnt - 1 else (s.utrs u).tdCnt := by
    intro u
    unfold countDown setUtr
    dsimp only
    by_cases here : u = utr
    · subst here
      rw [if_pos rfl]
      split_ifs <;> simp [same]
    · rw [if_neg here]
      split_ifs <;> simp [here]
  refine ⟨?_, counts, ?_⟩
  · unfold countDown setUtr
    dsimp only
    split_ifs <;> rfl
  · have fewer : ((s.setUtr utr fun u => { u with tdCnt := u.tdCnt - 1 }).utrs utr).tdCnt =
        (s.utrs utr).tdCnt - 1 := by
      unfold setUtr
      dsimp only
      rw [Function.update_self]
    rw [counts utr, if_pos rfl]
    unfold countDown
    dsimp only
    by_cases last : (s.utrs utr).tdCnt - 1 = 0
    · rw [if_pos (fewer.trans last), if_pos last]
      rfl
    · rw [if_neg fun zero => last (fewer.symm.trans zero), if_neg last]
      rfl

theorem storeIso_tdCnt (u : Utr) (idx : Nat) (psw : U32) : (u.storeIso idx psw).tdCnt = u.tdCnt := by
  unfold Utr.storeIso
  dsimp only
  split_ifs <;> rfl

theorem storeXfer_tdCnt (u : Utr) (d : Td) : (u.storeXfer d).tdCnt = u.tdCnt := by
  unfold Utr.storeXfer
  dsimp only
  split_ifs <;> rfl

theorem Reported.after {f : Utr → Utr} (same : ∀ u, (f u).tdCnt = u.tdCnt)
    (reported : Reported (s.setUtr utr f) t a) : Reported s t a := by
  have counts : ∀ u, ((s.setUtr utr f).utrs u).tdCnt = (s.utrs u).tdCnt := by
    intro u
    unfold setUtr
    dsimp only
    by_cases here : u = utr
    · rw [here, Function.update_self, same]
    · rw [Function.update_of_ne here]
  refine ⟨reported.rest, fun u => ?_, reported.called⟩
  rw [reported.counts u, counts u]

theorem tdDone_reported (s : Ohci) (td : U32) : Reported s (s.tdDone td) (s.tds td).utr := by
  unfold tdDone
  dsimp only
  split_ifs
  · split
    · exact (countDown_reported fun _ => rfl).after fun u => storeIso_tdCnt u _ _
    · exact countDown_reported fun _ => rfl
  · exact (countDown_reported fun _ => rfl).after fun u => storeXfer_tdCnt u _

end Reports

/-- The descriptors that are out are those left of the transfers. -/
def Accounts (b : UnitBase) (s : Ohci) (jobs : List (Job U32 U32)) (out : List U32) : Prop :=
  Books (b.holds s.pool.used) (fun td => (s.tds td).utr) (fun u => (s.utrs u).tdCnt) s.called jobs out

def Frees (b : UnitBase) (s t : Ohci) (a : U32) : Prop :=
  ∀ i < memPoolUnitNum, t.pool.used i = (s.pool.used i && decide (b.addr i ≠ a))

section GiveBack

variable {b : UnitBase} {s t : Ohci} {td a c : U32} {jobs : List (Job U32 U32)}
  {tds out : List U32}

theorem Frees.inUse_iff (frees : Frees b s t a) :
    b.InUse t.pool.used c ↔ b.InUse s.pool.used c ∧ c ≠ a := by
  constructor
  · rintro ⟨i, inside, used, rfl⟩
    rw [frees i inside, Bool.and_eq_true, decide_eq_true_iff] at used
    exact ⟨⟨i, inside, used.1, rfl⟩, used.2⟩
  · rintro ⟨⟨i, inside, used, rfl⟩, other⟩
    exact ⟨i, inside, by rw [frees i inside, used, decide_eq_true other]; rfl, rfl⟩

theorem Accounts.inUse (accounts : s.Accounts b jobs out) (mem : td ∈ out) :
    b.InUse s.pool.used td := of_decide_eq_true (accounts.used td mem)

theorem Accounts.give (accounts : s.Accounts b jobs (td :: out)) (frees : Frees b s t td)
    (same : t.tds = s.tds) (reported : ∀ u, (t.utrs u).tdCnt =
      if u = (s.tds td).utr then (s.utrs u).tdCnt - 1 else (s.utrs u).tdCnt)
    (called : t.called = if (t.utrs (s.tds td).utr).tdCnt = 0 then s.called ++ [(s.tds td).utr]
      else s.called) :
    t.Accounts b (jobs.map (Job.settle (b.holds t.pool.used))) out := by
  unfold Accounts
  rw [same]
  refine Books.give accounts (fun c mem => ?_) reported called
  have inUse := accounts.inUse mem
  unfold UnitBase.holds
  rw [decide_eq_decide, frees.inUse_iff]
  exact and_iff_right inUse

theorem Accounts.settle_map (accounts : s.Accounts b jobs out) :
    jobs.map (Job.settle (b.holds s.pool.used)) = jobs := Books.settle_map accounts

theorem dropTd_reported (b : UnitBase) (s : Ohci) (td : U32) :
    Reported (s.freeTd b td) (s.dropTd b td) (s.tds td).utr := countDown_reported fun _ => rfl

theorem dropTd_frees (b : UnitBase) (s : Ohci) (td : U32) : Frees b s (s.dropTd b td) td := by
  intro i inside
  rw [(dropTd_reported b s td).rest]
  exact freeTd_used inside

theorem dropTds_rest (b : UnitBase) (s : Ohci) (tds : List U32) : ∃ units utrs called,
    tds.foldl (dropTd b) s =
      { s with toUnitSource := units, utrs := utrs, called := called } := by
  induction tds generalizing s with
  | nil => exact ⟨_, _, _, rfl⟩
  | cons td tds ih =>
    obtain ⟨units, utrs, called, rest⟩ := ih (s.dropTd b td)
    refine ⟨units, utrs, called, ?_⟩
    rw [List.foldl_cons, rest, (dropTd_reported b s td).rest]
    rfl

theorem dropTds_inUse_iff : b.InUse (tds.foldl (dropTd b) s).pool.used c ↔
    b.InUse s.pool.used c ∧ c ∉ tds := by
  induction tds generalizing s with
  | nil => simp
  | cons td tds ih =>
    rw [List.foldl_cons, ih, (dropTd_frees b s td).inUse_iff, List.mem_cons, not_or, and_assoc]

theorem Accounts.drop (accounts : s.Accounts b jobs (tds ++ out)) :
    (tds.foldl (dropTd b) s).Accounts b
      (jobs.map (Job.settle (b.holds (tds.foldl (dropTd b) s).pool.used))) out := by
  induction tds generalizing s jobs with
  | nil =>
    rw [List.foldl_nil, accounts.settle_map]
    exact accounts
  | cons td tds ih =>
    have reported := dropTd_reported b s td
    have first := accounts.give (dropTd_frees b s td) (by rw [reported.rest]; rfl) reported.counts
      reported.called
    have rest := ih first
    have fewer : ∀ c, b.holds (tds.foldl (dropTd b) (s.dropTd b td)).pool.used c = true →
        b.holds (s.dropTd b td).pool.used c = true := fun c held =>
      decide_eq_true (dropTds_inUse_iff.mp (of_decide_eq_true held)).1
    rw [map_settle_settle fewer] at rest
    exact rest

theorem Accounts.free (accounts : s.Accounts b (jobs.map (Job.settle (b.holds s.pool.used))) out)
    (frees : Frees b s t a) (tdsSame : t.tds = s.tds) (utrs : t.utrs = s.utrs)
    (called : t.called = s.called) (apart : a ∉ out) :
    t.Accounts b (jobs.map (Job.settle (b.holds t.pool.used))) out := by
  have kept : ∀ td ∈ out, b.holds t.pool.used td = true := fun td mem =>
    decide_eq_true (frees.inUse_iff.mpr ⟨accounts.inUse mem, fun same => apart (same ▸ mem)⟩)
  have next : t.Accounts b (jobs.map (Job.settle (b.holds s.pool.used))) out := by
    unfold Accounts
    rw [tdsSame, utrs, called]
    exact Books.mono accounts (List.Perm.refl _) kept (fun _ _ => rfl) (fun _ _ _ => rfl)
      (List.prefix_refl _)
  have fewer : ∀ c, b.holds t.pool.used c = true → b.holds s.pool.used c = true := fun c held =>
    decide_eq_true (frees.inUse_iff.mp (of_decide_eq_true held)).1
  have once := next.settle_map
  rw [map_settle_settle fewer] at once
  rwa [once]

end GiveBack

end Ohci

namespace CtrlRun

open Ohci

def waiting (s : CtrlRun) : List U32 :=
  if s.hcControlHeadED = 0 then [] else (s.eds s.hcControlHeadED).tds

/-- The control list is at most one endpoint descriptor, which has all that is waiting; a pipe is in
use and not to be removed. -/
structure Ok (b : UnitBase) (s : CtrlRun) : Prop where
  accounts : s.toOhci.Accounts b (s.accepted.map CtrlXfer.toJob) (s.done ++ s.waiting)
  head : s.hcControlHeadED ≠ 0 → s.hcControlHeadED ∈ s.live
  empty : ∀ ed ∈ s.live, ed ≠ s.hcControlHeadED → (s.eds ed).tds = []
  last : ∀ ed ∈ s.live, (s.eds ed).nextED = 0
  control : ∀ ed ∈ s.live, (s.eds ed).info &&& edEpAddrMsk = 0
  edUsed : ∀ ed ∈ s.live, b.InUse s.pool.used ed
  apart : ∀ ed ∈ s.live, ed ∉ s.done ++ s.waiting
  current : ∀ x ∈ s.accepted, ∀ td ∈ x.left, td ∈ s.waiting →
    x.removed = false ∧ x.ed = s.hcControlHeadED
  pipes : ∀ d, s.pipe d ≠ 0 → s.pipe d ∈ s.live ∧ s.pipe d ∉ s.edRemoveList
  own : ∀ d d', s.pipe d ≠ 0 → s.pipe d = s.pipe d' → (s.udevs d).ep0 = (s.udevs d').ep0
  once : s.edRemoveList.Nodup
  removing : ∀ ed ∈ s.edRemoveList, ed ∈ s.live

section Accounts

variable {b : UnitBase} {s : CtrlRun} {x : CtrlXfer} {td : U32}

theorem Ok.out (ok : s.Ok b) (here : x ∈ s.accepted) (left : td ∈ x.left) :
    td ∈ s.done ∨ td ∈ s.waiting :=
  List.mem_append.mp (ok.accounts.mem_out (List.mem_map_of_mem here) left)

theorem Ok.exists_xfer (ok : s.Ok b) (out : td ∈ s.done ++ s.waiting) :
    ∃ x ∈ s.accepted, td ∈ x.left := by
  obtain ⟨job, here, left⟩ := ok.accounts.exists_job out
  obtain ⟨x, mem, rfl⟩ := List.mem_map.mp here
  exact ⟨x, mem, left⟩

theorem Ok.inUse (ok : s.Ok b) (out : td ∈ s.done ++ s.waiting) : b.InUse s.pool.used td :=
  ok.accounts.inUse out

theorem head_of_waiting (mem : td ∈ s.waiting) :
    s.hcControlHeadED ≠ 0 ∧ td ∈ (s.eds s.hcControlHeadED).tds := by
  unfold waiting at mem
  split_ifs at mem with none
  · exact absurd mem List.not_mem_nil
  · exact ⟨none, mem⟩

theorem Ok.not_done (ok : s.Ok b) (mem : td ∈ s.waiting) : td ∉ s.done := fun done =>
  (List.nodup_append.mp ok.accounts.nodup).2.2 td done td mem rfl

theorem Ok.waiting_nil (ok : s.Ok b) (idle : s.Idle) : s.waiting = [] := by
  rw [List.eq_nil_iff_forall_not_mem]
  intro td mem
  obtain ⟨x, here, left⟩ := ok.exists_xfer (List.mem_append_right _ mem)
  exact ok.not_done mem (idle x here td left)

theorem Ok.listed_iff (ok : s.Ok b) {ed : U32} :
    s.toOhci.Listed ed ↔ ed = s.hcControlHeadED ∧ s.hcControlHeadED ≠ 0 := by
  constructor
  · intro listed
    induction listed with
    | head some => exact ⟨rfl, some⟩
    | next _ more ih => exact absurd (ih.1 ▸ ok.last _ (ok.head ih.2)) more
  · rintro ⟨rfl, some⟩
    exact .head some

theorem Ok.served (ok : s.Ok b) (here : x ∈ s.accepted) : s.Served x := by
  constructor
  · intro _ td left notDone
    have waits := (ok.out here left).resolve_left notDone
    obtain ⟨some, linked⟩ := head_of_waiting waits
    rw [(ok.current x here td left waits).2]
    exact ⟨.head some, linked⟩
  · intro removed td left
    refine (ok.out here left).resolve_right fun waits => ?_
    rw [(ok.current x here td left waits).1] at removed
    cases removed
  · exact ok.accounts.called x.toJob (List.mem_map_of_mem here)

end Accounts

section Removal

variable {b : UnitBase} {s : CtrlRun} {ed : U32} {turns : Nat} {o : Ohci}

theorem Ok.unlinkEd_head (ok : s.Ok b) (here : s.hcControlHeadED ∈ s.live) :
    s.toOhci.unlinkEd turns s.hcControlHeadED =
      some ({ s.toOhci with hcControlHeadED := 0 }, true) := by
  unfold unlinkEd
  dsimp only
  rw [if_pos (ok.control _ here), if_pos rfl, ok.last _ here]

theorem Ok.unlinkEd_other (ok : s.Ok b) (here : ed ∈ s.live) (other : s.hcControlHeadED ≠ ed) :
    (s.toOhci.unlinkEd turns ed = none ∨ s.toOhci.unlinkEd turns ed = some (s.toOhci, false)) ∧
      s.toOhci.unlinkEd 2 ed = some (s.toOhci, false) := by
  have real := (ok.edUsed ed here).ne_zero
  have walk (turns : Nat) : s.toOhci.unlinkEd turns ed =
      unlink ed true turns s.hcControlHeadED s.toOhci := by
    unfold unlinkEd
    dsimp only
    rw [if_pos (ok.control _ here), if_neg other]
  have ends (turns : Nat) : unlink ed true (turns + 1) 0 s.toOhci = some (s.toOhci, false) := by
    rw [unlink, if_pos rfl]
  rw [walk, walk]
  by_cases none : s.hcControlHeadED = 0
  · rw [none]
    refine ⟨?_, ends 1⟩
    cases turns with
    | zero => exact Or.inl rfl
    | succ turns => exact Or.inr (ends turns)
  · have next := ok.last _ (ok.head none)
    have turn (turns : Nat) : unlink ed true (turns + 1) s.hcControlHeadED s.toOhci =
        unlink ed true turns 0 s.toOhci := by
      rw [unlink, if_neg none, next, if_neg real.symm]
    refine ⟨?_, (turn 1).trans (ends 0)⟩
    cases turns with
    | zero => exact Or.inl rfl
    | succ turns =>
      rw [turn]
      cases turns with
      | zero => exact Or.inl rfl
      | succ turns => exact Or.inr (ends turns)

/-- What a turn of `remove_ed` does: with the head of the list what waits goes as well. -/
structure Removed (b : UnitBase) (s : CtrlRun) (ed : U32) (o : Ohci) : Prop where
  rest : o.eds = s.eds ∧ o.eps = s.eps ∧ o.udevs = s.udevs ∧ o.edRemoveList = s.edRemoveList.tail
  head : o.hcControlHeadED = if s.hcControlHeadED = ed then 0 else s.hcControlHeadED
  accounts : o.Accounts b
    ((s.accepted.map CtrlXfer.toJob).map (Job.settle (b.holds o.pool.used)))
    (s.done ++ if s.hcControlHeadED = ed then [] else s.waiting)
  used : ∀ c, b.InUse s.pool.used c → c ≠ ed → (s.hcControlHeadED = ed → c ∉ s.waiting) →
    b.InUse o.pool.used c

theorem Ok.removed_head (ok : s.Ok b) (here : s.hcControlHeadED ∈ s.live)
    (turn : s.toOhci.removeTurn b turns s.hcControlHeadED = some o) :
    Removed b s s.hcControlHeadED o := by
  have real := (ok.edUsed _ here).ne_zero
  have tds : s.waiting = (s.eds s.hcControlHeadED).tds := if_neg real
  have before : ({ s.toOhci with hcControlHeadED := 0 } : Ohci).Accounts b
      (s.accepted.map CtrlXfer.toJob) (s.waiting ++ s.done) :=
    Books.reorder ok.accounts List.perm_append_comm
  unfold removeTurn at turn
  rw [ok.unlinkEd_head here] at turn
  cases turn
  dsimp only
  rw [if_pos rfl, ← tds]
  have dropped := before.drop
  obtain ⟨units, utrs, called, rest⟩ :=
    dropTds_rest b ({ s.toOhci with hcControlHeadED := 0 } : Ohci) s.waiting
  have used (c : U32) (inUse : b.InUse s.pool.used c) (kept : c ∉ s.waiting) :=
    (dropTds_inUse_iff (b := b) (s := { s.toOhci with hcControlHeadED := 0 })).mpr ⟨inUse, kept⟩
  generalize s.waiting.foldl (dropTd b) { s.toOhci with hcControlHeadED := 0 } = d at *
  have frees : Frees b d (freeEd b { d with edRemoveList := d.edRemoveList.tail }
      s.hcControlHeadED) s.hcControlHeadED := fun i inside => freeEd_used inside
  refine ⟨?_, ?_, ?_, fun c inUse other kept => frees.inUse_iff.mpr ⟨used c inUse (kept rfl), other⟩⟩
  · rw [rest]
    exact ⟨rfl, rfl, rfl, rfl⟩
  · rw [if_pos rfl, rest]
    rfl
  · rw [if_pos rfl, List.append_nil]
    exact dropped.free frees rfl rfl rfl fun done => ok.apart _ here (List.mem_append_left _ done)

theorem Ok.removed_other (ok : s.Ok b) (here : ed ∈ s.live) (other : s.hcControlHeadED ≠ ed)
    (turn : s.toOhci.removeTurn b turns ed = some o) : Removed b s ed o := by
  unfold removeTurn at turn
  rcases (ok.unlinkEd_other here other).1 with none | found
  · rw [none] at turn
    cases turn
  · rw [found] at turn
    cases turn
    have frees : Frees b s.toOhci (freeEd b { s.toOhci with
        edRemoveList := s.edRemoveList.tail } ed) ed := fun i inside => freeEd_used inside
    have whole : s.toOhci.Accounts b
        ((s.accepted.map CtrlXfer.toJob).map (Job.settle (b.holds s.pool.used)))
        (s.done ++ s.waiting) := by
      rw [ok.accounts.settle_map]
      exact ok.accounts
    refine ⟨⟨rfl, rfl, rfl, rfl⟩, ?_, ?_, fun c inUse apart _ => frees.inUse_iff.mpr ⟨inUse, apart⟩⟩
    · rw [if_neg other]
      rfl
    · rw [if_neg other]
      exact whole.free frees rfl rfl rfl (ok.apart _ here)

theorem Ok.removed (ok : s.Ok b) (here : ed ∈ s.live)
    (turn : s.toOhci.removeTurn b turns ed = some o) : Removed b s ed o := by
  by_cases first : s.hcControlHeadED = ed
  · subst first
    exact ok.removed_head here turn
  · exact ok.removed_other here first turn

theorem Ok.of_removed (ok : s.Ok b) {later : List U32} (list : s.edRemoveList = ed :: later)
    (removed : Removed b s ed o) :
    (s.removal b ed o).Ok b := by
  obtain ⟨⟨eds, eps, udevs, tail⟩, head, accounts, used⟩ := removed
  have waiting : (s.removal b ed o).waiting =
      if s.hcControlHeadED = ed then [] else s.waiting := by
    change (if o.hcControlHeadED = 0 then [] else (o.eds o.hcControlHeadED).tds) = _
    rw [head, eds]
    by_cases here : s.hcControlHeadED = ed
    · rw [if_pos here, if_pos here, if_pos rfl]
    · rw [if_neg here, if_neg here]
      rfl
  have live {e : U32} : e ∈ (s.removal b ed o).live ↔ e ∈ s.live ∧ e ≠ ed := by
    change e ∈ s.live.filter _ ↔ _
    rw [List.mem_filter, decide_eq_true_iff]
  have pipe (d : U32) : (s.removal b ed o).pipe d = s.pipe d := by
    change (o.eps (o.udevs d).ep0).hwPipe = _
    rw [eps, udevs]
    rfl
  have fewer : (s.removal b ed o).waiting ⊆ s.waiting := by
    rw [waiting]
    split_ifs
    · exact List.nil_subset _
    · exact List.Subset.refl _
  have onceCons := list ▸ ok.once
  have rest : (s.removal b ed o).edRemoveList = later := by
    change o.edRemoveList = _
    rw [tail, list]
    rfl
  constructor
  case accounts =>
    rw [waiting]
    change o.Accounts b ((s.accepted.map _).map _) _
    rw [List.map_map] at accounts ⊢
    exact accounts
  case head =>
    change o.hcControlHeadED ≠ 0 → o.hcControlHeadED ∈ _
    rw [head, live]
    split_ifs with here
    · exact fun wrong => absurd rfl wrong
    · exact fun some => ⟨ok.head some, here⟩
  case empty =>
    intro e mem
    obtain ⟨old, other⟩ := live.mp mem
    change e ≠ o.hcControlHeadED → (o.eds e).tds = []
    rw [head, eds]
    split_ifs with here
    · exact fun _ => ok.empty e old (here ▸ other)
    · exact ok.empty e old
  case last =>
    intro e mem
    change (o.eds e).nextED = 0
    rw [eds]
    exact ok.last e (live.mp mem).1
  case control =>
    intro e mem
    change (o.eds e).info &&& edEpAddrMsk = 0
    rw [eds]
    exact ok.control e (live.mp mem).1
  case edUsed =>
    intro e mem
    obtain ⟨old, other⟩ := live.mp mem
    exact used e (ok.edUsed e old) other fun _ waits =>
      ok.apart e old (List.mem_append_right _ waits)
  case apart =>
    intro e mem out
    refine ok.apart e (live.mp mem).1 ?_
    rcases List.mem_append.mp out with done | waits
    · exact List.mem_append_left _ done
    · exact List.mem_append_right _ (fewer waits)
  case current =>
    intro y mem td left waits
    obtain ⟨x, here, rfl⟩ := List.mem_map.mp mem
    obtain ⟨pending, atHead⟩ := ok.current x here td (Job.settle_subset _ left) (fewer waits)
    have other : s.hcControlHeadED ≠ ed := by
      intro same
      rw [waiting, if_pos same] at waits
      exact List.not_mem_nil waits
    change (x.removed || decide (x.ed = ed)) = false ∧ x.ed = o.hcControlHeadED
    rw [pending, atHead, decide_eq_false other, head, if_neg other]
    exact ⟨rfl, rfl⟩
  case pipes =>
    intro d some
    rw [pipe] at some ⊢
    obtain ⟨mem, kept⟩ := ok.pipes d some
    rw [list, List.mem_cons, not_or] at kept
    rw [live, rest]
    exact ⟨⟨mem, kept.1⟩, kept.2⟩
  case own =>
    intro d d' some same
    rw [pipe] at some same
    rw [pipe] at same
    change (o.udevs d).ep0 = (o.udevs d').ep0
    rw [udevs]
    exact ok.own d d' some same
  case once =>
    rw [rest]
    exact (List.nodup_cons.mp onceCons).2
  case removing =>
    intro e mem
    rw [rest] at mem
    rw [live]
    refine ⟨ok.removing e (list ▸ List.mem_cons_of_mem ed mem), ?_⟩
    rintro rfl
    exact (List.nodup_cons.mp onceCons).1 mem

theorem Ok.remove (ok : s.Ok b) (turns : Nat) : (s.remove b turns).Ok b := by
  unfold CtrlRun.remove
  cases list : s.edRemoveList with
  | nil => exact ok
  | cons ed rest =>
    dsimp only
    cases turn : s.toOhci.removeTurn b turns ed with
    | none => exact ok
    | some o =>
      have first : ed ∈ s.edRemoveList := list ▸ List.mem_cons_self
      exact ok.of_removed list (ok.removed (ok.removing ed first) turn)

end Removal

section Completion

variable {b : UnitBase} {s : CtrlRun} {ed td : U32} {rest : List U32}

theorem Ok.reclaim (ok : s.Ok b) : (s.reclaim b).Ok b := by
  unfold CtrlRun.reclaim
  cases list : s.done with
  | nil => exact ok
  | cons td rest =>
    dsimp only
    have reported := tdDone_reported s.toOhci td
    have frees : Frees b s.toOhci (s.toOhci.reclaim b [td]) td := by
      intro i inside
      change ((s.tdDone td).freeTd b td).pool.used i = _
      rw [freeTd_used inside, reported.rest]
    obtain ⟨units, utrs, called, fields⟩ : ∃ units utrs called, s.toOhci.reclaim b [td] =
        { s.toOhci with toUnitSource := units, utrs := utrs, called := called } := by
      change ∃ units utrs called, (s.tdDone td).freeTd b td = _
      rw [reported.rest]
      exact ⟨_, _, _, rfl⟩
    have given := (list ▸ ok.accounts : s.toOhci.Accounts b _ (td :: (rest ++ s.waiting))).give frees
      (by rw [fields]) reported.counts reported.called
    generalize s.toOhci.reclaim b [td] = o at *
    subst fields
    constructor
    case accounts =>
      change Accounts b _ ((s.accepted.map _).map _) (rest ++ s.waiting)
      rw [List.map_map] at given ⊢
      exact given
    case head => exact ok.head
    case empty => exact ok.empty
    case last => exact ok.last
    case control => exact ok.control
    case edUsed =>
      intro ed mem
      refine frees.inUse_iff.mpr ⟨ok.edUsed ed mem, fun same => ok.apart ed mem ?_⟩
      rw [list, same]
      exact List.mem_cons_self
    case apart =>
      intro ed mem out
      refine ok.apart ed mem ?_
      rw [list]
      exact List.mem_cons_of_mem td out
    case current =>
      intro y mem c left waits
      obtain ⟨x, here, rfl⟩ := List.mem_map.mp mem
      exact ok.current x here c (Job.settle_subset _ left) waits
    case pipes => exact ok.pipes
    case own => exact ok.own
    case once => exact ok.once
    case removing => exact ok.removing

theorem Ok.of_retired (ok : s.Ok b) (some : s.hcControlHeadED ≠ 0) (before : s.waiting = td :: rest)
    {eds : U32 → Ed} {tds : U32 → Td} (first : (eds s.hcControlHeadED).tds = rest)
    (others : ∀ e ≠ s.hcControlHeadED, eds e = s.eds e)
    (kept : ∀ e, (eds e).nextED = (s.eds e).nextED ∧ (eds e).info = (s.eds e).info)
    (owned : ∀ c, (tds c).utr = (s.tds c).utr) :
    Ok b ⟨{ s.toOhci with eds := eds, tds := tds }, s.done ++ [td], s.accepted, s.live⟩ := by
  have now : (CtrlRun.mk { s.toOhci with eds := eds, tds := tds } (s.done ++ [td]) s.accepted
      s.live).waiting = rest := (if_neg some).trans first
  have out : s.done ++ [td] ++ rest = s.done ++ s.waiting := by
    rw [before, List.append_assoc]
    rfl
  constructor
  case accounts =>
    rw [now]
    change Accounts b _ _ (s.done ++ [td] ++ rest)
    rw [out]
    exact Books.mono ok.accounts (List.Perm.refl _) ok.accounts.used (fun c _ => owned c)
      (fun _ _ _ => rfl) (List.prefix_refl _)
  case head => exact ok.head
  case empty =>
    intro e mem other
    change (eds e).tds = []
    rw [others e other]
    exact ok.empty e mem other
  case last =>
    intro e mem
    change (eds e).nextED = 0
    rw [(kept e).1]
    exact ok.last e mem
  case control =>
    intro e mem
    change (eds e).info &&& edEpAddrMsk = 0
    rw [(kept e).2]
    exact ok.control e mem
  case edUsed => exact ok.edUsed
  case apart =>
    intro e mem
    rw [now]
    change e ∉ s.done ++ [td] ++ rest
    rw [out]
    exact ok.apart e mem
  case current =>
    intro x here c left waits
    rw [now] at waits
    exact ok.current x here c left (before ▸ List.mem_cons_of_mem td waits)
  case pipes => exact ok.pipes
  case own => exact ok.own
  case once => exact ok.once
  case removing => exact ok.removing

theorem Ok.retire (ok : s.Ok b) (listed : s.toOhci.Listed ed) (info cbp headBits : U32) :
    (s.retire ed info cbp headBits).Ok b := by
  obtain ⟨rfl, some⟩ := ok.listed_iff.mp listed
  unfold CtrlRun.retire
  cases tds : (s.eds s.hcControlHeadED).tds with
  | nil => exact ok
  | cons td rest =>
    refine ok.of_retired some ((if_neg some).trans tds) ?_ ?_ ?_ ?_
    · dsimp only [setEd]
      rw [Function.update_self]
    · exact fun e other => Function.update_of_ne other _ _
    · intro e
      dsimp only [setEd]
      by_cases same : e = s.hcControlHeadED
      · rw [same, Function.update_self]
        exact ⟨rfl, rfl⟩
      · rw [Function.update_of_ne same]
        exact ⟨rfl, rfl⟩
    · intro c
      dsimp only [setEd]
      by_cases same : c = td
      · rw [same, Function.update_self]
      · rw [Function.update_of_ne same]

end Completion

section Quitting

variable {b : UnitBase} {s : CtrlRun} {ep ed : U32}

theorem Ok.of_quit (ok : s.Ok b) (isControl : s.IsControl ep) (pipe : (s.eps ep).hwPipe = ed)
    (some : ed ≠ 0) {eds : U32 → Ed} {eps : U32 → EpInfo}
    (kept : ∀ e, (eds e).tds = (s.eds e).tds ∧ (eds e).nextED = (s.eds e).nextED)
    (info : ∀ e, (eds e).info &&& edEpAddrMsk = (s.eds e).info &&& edEpAddrMsk)
    (cleared : (eps ep).hwPipe = 0) (others : ∀ a ≠ ep, eps a = s.eps a) :
    Ok b ⟨{ s.toOhci with eds := eds, eps := eps, edRemoveList := ed :: s.edRemoveList },
      s.done, s.accepted, s.live⟩ := by
  obtain ⟨d, rfl⟩ := isControl
  obtain ⟨mem, due⟩ := ok.pipes d (by rwa [CtrlRun.pipe, pipe])
  have same : (CtrlRun.mk { s.toOhci with eds := eds, eps := eps, edRemoveList :=
      ed :: s.edRemoveList } s.done s.accepted s.live).waiting = s.waiting := by
    unfold waiting
    dsimp only
    rw [(kept _).1]
  -- the pipes that are left are those of other endpoints
  have left (d' : U32) (more : (eps (s.udevs d').ep0).hwPipe ≠ 0) :
      (s.udevs d').ep0 ≠ (s.udevs d).ep0 ∧ (eps (s.udevs d').ep0).hwPipe = s.pipe d' := by
    have other : (s.udevs d').ep0 ≠ (s.udevs d).ep0 := fun here => more (here ▸ cleared)
    exact ⟨other, congrArg EpInfo.hwPipe (others _ other)⟩
  rw [CtrlRun.pipe, pipe] at mem due
  constructor
  case accounts =>
    rw [same]
    exact ok.accounts
  case head => exact ok.head
  case empty => exact fun e here other => (kept e).1.trans (ok.empty e here other)
  case last => exact fun e here => (kept e).2.trans (ok.last e here)
  case control => exact fun e here => (info e).trans (ok.control e here)
  case edUsed => exact ok.edUsed
  case apart =>
    rw [same]
    exact ok.apart
  case current =>
    rw [same]
    exact ok.current
  case pipes =>
    intro d' more
    obtain ⟨other, keeps⟩ := left d' more
    change (eps (s.udevs d').ep0).hwPipe ∈ s.live ∧
      (eps (s.udevs d').ep0).hwPipe ∉ ed :: s.edRemoveList
    rw [keeps]
    have before : s.pipe d' ≠ 0 := keeps ▸ more
    obtain ⟨here, stays⟩ := ok.pipes d' before
    refine ⟨here, fun now => ?_⟩
    rcases List.mem_cons.mp now with taken | later
    · exact other (ok.own d' d before (taken.trans pipe.symm))
    · exact stays later
  case own =>
    intro d' d'' more equal
    obtain ⟨_, keeps⟩ := left d' more
    have more' : (eps (s.udevs d'').ep0).hwPipe ≠ 0 := ne_of_eq_of_ne equal.symm more
    obtain ⟨_, keeps'⟩ := left d'' more'
    exact ok.own d' d'' (keeps ▸ more) (keeps.symm.trans (equal.trans keeps'))
  case once => exact List.nodup_cons.mpr ⟨due, ok.once⟩
  case removing =>
    intro e now
    rcases List.mem_cons.mp now with rfl | later
    · exact mem
    · exact ok.removing e later

theorem Ok.quitPipe (ok : s.Ok b) (isControl : s.IsControl ep) :
    Ok b { s with toOhci := s.toOhci.quitPipe ep } := by
  unfold Ohci.quitPipe
  split_ifs with none
  · exact ok
  obtain ⟨d, here⟩ := isControl
  have due : (s.eps ep).hwPipe ∉ s.edRemoveList := by
    have pipe : s.pipe d = (s.eps ep).hwPipe := by rw [CtrlRun.pipe, here]
    exact pipe ▸ (ok.pipes d (pipe ▸ none)).2
  unfold addToEdRemoveList
  rw [if_neg due]
  refine ok.of_quit ⟨d, here⟩ rfl none ?_ ?_ ?_ ?_
  · intro e
    dsimp only [setEd]
    by_cases same : e = (s.eps ep).hwPipe
    · rw [same, Function.update_self]
      exact ⟨rfl, rfl⟩
    · rw [Function.update_of_ne same]
      exact ⟨rfl, rfl⟩
  · intro e
    dsimp only [setEd]
    by_cases same : e = (s.eps ep).hwPipe
    · have skip : edSkip &&& edEpAddrMsk = 0 := by decide
      rw [same, Function.update_self]
      dsimp only
      rw [BitVec.and_or_distrib_right, skip]
      exact BitVec.or_zero
    · rw [Function.update_of_ne same]
  · dsimp only [setEd]
    rw [Function.update_self]
  · exact fun a other => Function.update_of_ne other _ _

theorem quitPipe_udevs (s : Ohci) (ep : U32) : (s.quitPipe ep).udevs = s.udevs := by
  unfold Ohci.quitPipe addToEdRemoveList
  split_ifs <;> rfl

theorem Ok.quit (ok : s.Ok b) {utr : U32}
    (pipe : utr ≠ 0 → (s.utrs utr).ep ≠ 0 → s.IsControl (s.utrs utr).ep)
    (endpoint : ep ≠ 0 → s.IsControl ep) :
    Ok b { s with toOhci := (s.toOhci.ohciQuitXfer utr ep).1 } := by
  unfold ohciQuitXfer
  by_cases missing : utr ≠ 0 ∧ ((s.utrs utr).ep = 0 ∨ (s.eps (s.utrs utr).ep).hwPipe = 0)
  · rw [if_pos missing]
    exact ok
  rw [if_neg missing]
  dsimp only
  have first : Ok b { s with toOhci :=
      if utr ≠ 0 then s.toOhci.quitPipe (s.utrs utr).ep else s.toOhci } := by
    split_ifs with given
    · exact ok.quitPipe (pipe given fun none => missing ⟨given, Or.inl none⟩)
    · exact ok
  have devices : (if utr ≠ 0 then s.toOhci.quitPipe (s.utrs utr).ep else s.toOhci).udevs =
      s.udevs := by
    split_ifs
    · exact quitPipe_udevs _ _
    · rfl
  generalize (if utr ≠ 0 then s.toOhci.quitPipe (s.utrs utr).ep else s.toOhci) = o at *
  split_ifs with given
  · refine first.quitPipe (s := { s with toOhci := o }) ?_
    obtain ⟨d, here⟩ := endpoint given
    exact ⟨d, by rw [← here, devices]⟩
  · exact first

end Quitting

section Submission

variable {b : UnitBase} {s : CtrlRun} {o : Ohci} {utr ed : U32} {tds : List U32}

theorem in_use_not_new (accepted : CtrlAccepted b s.toOhci o utr (s.udevs (s.utrs utr).udev).ep0
    ed tds) {a : U32} (inUse : b.InUse s.pool.used a) : a ∉ tds :=
  fun mem => inUse.not_fresh (accepted.fresh a mem).1

theorem Ok.idle_tds (ok : s.Ok b) (idle : s.Idle) {e : U32} (mem : e ∈ s.live) :
    (s.eds e).tds = [] := by
  by_cases first : e = s.hcControlHeadED
  · have none := ok.waiting_nil idle
    have some : s.hcControlHeadED ≠ 0 := first ▸ (ok.edUsed e mem).ne_zero
    unfold waiting at none
    rw [if_neg some] at none
    rw [first]
    exact none
  · exact ok.empty e mem first

theorem Ok.accepted_ed (ok : s.Ok b) (accepted : CtrlAccepted b s.toOhci o utr
    (s.udevs (s.utrs utr).udev).ep0 ed tds) :
    (s.pipe (s.utrs utr).udev = ed ∧ ed ∈ s.live ∧ ed ∉ s.edRemoveList) ∨
      (s.pipe (s.utrs utr).udev = 0 ∧ b.Fresh s.pool.used ed ∧ b.InUse o.pool.used ed ∧
        ed ∉ tds) := by
  by_cases none : s.pipe (s.utrs utr).udev = 0
  · exact Or.inr ⟨none, accepted.edNew none⟩
  · have same : ed = s.pipe (s.utrs utr).udev := accepted.edOld none
    rw [same]
    exact Or.inl ⟨rfl, ok.pipes _ none⟩

theorem accept_waiting (accepted : CtrlAccepted b s.toOhci o utr
    (s.udevs (s.utrs utr).udev).ep0 ed tds) : (s.accept o utr).waiting = tds := by
  change (if o.hcControlHeadED = 0 then [] else (o.eds o.hcControlHeadED).tds) = tds
  rw [accepted.head, if_neg accepted.edSome, accepted.linked.1]

theorem mem_accept_live (accepted : CtrlAccepted b s.toOhci o utr
    (s.udevs (s.utrs utr).udev).ep0 ed tds) {e : U32} :
    e ∈ (s.accept o utr).live ↔ e = ed ∨ e ∈ s.live := by
  change e ∈ (if o.hcControlHeadED ∈ s.live then s.live else o.hcControlHeadED :: s.live) ↔ _
  rw [accepted.head]
  split_ifs with old
  · exact ⟨Or.inr, fun either => either.elim (fun same => same ▸ old) id⟩
  · exact List.mem_cons

theorem accept_accounts (ok : s.Ok b) (idle : s.Idle)
    (apart : ∀ x ∈ s.accepted, x.left ≠ [] → x.id ≠ utr)
    (accepted : CtrlAccepted b s.toOhci o utr (s.udevs (s.utrs utr).udev).ep0 ed tds) :
    o.Accounts b ((s.accept o utr).accepted.map CtrlXfer.toJob) (s.done ++ tds) := by
  have left : (o.eds o.hcControlHeadED).tds = tds := accepted.head ▸ accepted.linked.1
  have out : s.done ++ s.waiting = s.done := by rw [ok.waiting_nil idle, List.append_nil]
  have old : s.toOhci.Accounts b (s.accepted.map CtrlXfer.toJob) s.done := out ▸ ok.accounts
  have others : ∀ x ∈ s.accepted.map CtrlXfer.toJob, x.left ≠ [] → x.id ≠ utr := by
    intro y mem
    obtain ⟨x, here, rfl⟩ := List.mem_map.mp mem
    exact apart x here
  change o.Accounts b ((s.accepted ++ [_]).map CtrlXfer.toJob) _
  rw [List.map_append]
  unfold Accounts
  rw [accepted.called]
  subst left
  refine Books.accept old ⟨utr, _, s.called.length⟩ ?_ ?_ ?_ ?_ ?_ accepted.count ?_
    accepted.nodup others accepted.some rfl
  · exact fun td mem => decide_eq_true (accepted.used td (old.inUse mem))
  · exact fun td mem => decide_eq_true (accepted.fresh td mem).2.1
  · exact fun td mem => accepted.tdsOld td (old.inUse mem)
  · exact fun td mem => (accepted.fresh td mem).2.2
  · exact fun x here some => accepted.counts _ (others x here some)
  · exact fun td mem done => in_use_not_new accepted (old.inUse done) mem

theorem accept_pipe (accepted : CtrlAccepted b s.toOhci o utr (s.udevs (s.utrs utr).udev).ep0 ed tds)
    (d : U32) : ((s.udevs d).ep0 = (s.udevs (s.utrs utr).udev).ep0 ∧
      (s.accept o utr).pipe d = ed) ∨
    ((s.udevs d).ep0 ≠ (s.udevs (s.utrs utr).udev).ep0 ∧ (s.accept o utr).pipe d = s.pipe d) := by
  change (_ ∧ (o.eps (o.udevs d).ep0).hwPipe = ed) ∨ (_ ∧ (o.eps (o.udevs d).ep0).hwPipe = _)
  rw [accepted.ep0s]
  by_cases same : (s.udevs d).ep0 = (s.udevs (s.utrs utr).udev).ep0
  · rw [same]
    exact Or.inl ⟨rfl, accepted.pipe⟩
  · exact Or.inr ⟨same, accepted.pipes _ same⟩

theorem Ok.accepted_apart (ok : s.Ok b)
    (accepted : CtrlAccepted b s.toOhci o utr (s.udevs (s.utrs utr).udev).ep0 ed tds) {d : U32}
    (other : (s.udevs d).ep0 ≠ (s.udevs (s.utrs utr).udev).ep0) : s.pipe d ≠ ed := by
  intro same
  have some : s.pipe d ≠ 0 := same ▸ accepted.edSome
  rcases ok.accepted_ed accepted with ⟨pipe, -, -⟩ | ⟨-, fresh, -, -⟩
  · exact other (ok.own d _ some (same.trans pipe.symm))
  · exact (ok.edUsed _ (ok.pipes d some).1).not_fresh (same ▸ fresh)

theorem Ok.accept (ok : s.Ok b) (idle : s.Idle)
    (short : (s.udevs (s.utrs utr).udev).devNum.toNat < 128)
    (apart : ∀ x ∈ s.accepted, x.left ≠ [] → x.id ≠ utr)
    (accepted : CtrlAccepted b s.toOhci o utr (s.udevs (s.utrs utr).udev).ep0 ed tds) :
    (s.accept o utr).Ok b := by
  have now := accept_waiting accepted
  have live {e : U32} := mem_accept_live accepted (e := e)
  have head : (s.accept o utr).hcControlHeadED = ed := accepted.head
  have old {e : U32} (other : e ≠ ed) : (s.accept o utr).eds e = s.eds e := accepted.edsOld e other
  have due : (s.accept o utr).edRemoveList = s.edRemoveList := accepted.edRemoveList
  constructor
  case accounts =>
    rw [now]
    exact accept_accounts ok idle apart accepted
  case head =>
    rw [head, live]
    exact fun _ => Or.inl rfl
  case empty =>
    intro e mem other
    rw [head] at other
    rw [old other]
    exact ok.idle_tds idle ((live.mp mem).resolve_left other)
  case last =>
    intro e mem
    by_cases mine : e = ed
    · rw [mine]
      exact accepted.linked.2
    · rw [old mine]
      exact ok.last e ((live.mp mem).resolve_left mine)
  case control =>
    intro e mem
    by_cases mine : e = ed
    · obtain ⟨d, number, info⟩ := accepted.info
      rw [mine]
      change (o.eds ed).info &&& edEpAddrMsk = 0
      rw [info]
      exact edMakeInfo_control (number ▸ short)
    · rw [old mine]
      exact ok.control e ((live.mp mem).resolve_left mine)
  case edUsed =>
    intro e mem
    rcases live.mp mem with rfl | before
    · rcases ok.accepted_ed accepted with ⟨-, mem, -⟩ | ⟨-, -, inUse, -⟩
      · exact accepted.used e (ok.edUsed e mem)
      · exact inUse
    · exact accepted.used e (ok.edUsed e before)
  case apart =>
    intro e mem out
    rw [now] at out
    have before (here : e ∈ s.live) : False := by
      rcases List.mem_append.mp out with done | new
      · exact ok.apart e here (List.mem_append_left _ done)
      · exact in_use_not_new accepted (ok.edUsed e here) new
    rcases live.mp mem with rfl | here
    · rcases ok.accepted_ed accepted with ⟨-, here, -⟩ | ⟨-, fresh, -, none⟩
      · exact before here
      · rcases List.mem_append.mp out with done | new
        · exact (ok.inUse (List.mem_append_left _ done)).not_fresh fresh
        · exact none new
    · exact before here
  case current =>
    intro x mem td left waits
    rw [now] at waits
    rcases List.mem_append.mp mem with before | new
    · refine absurd waits (in_use_not_new accepted (ok.inUse ?_))
      exact List.mem_append.mpr (ok.out before left)
    · rw [List.mem_singleton.mp new]
      exact ⟨rfl, rfl⟩
  case pipes =>
    intro d some
    rw [live, due]
    rcases accept_pipe accepted d with ⟨_, same⟩ | ⟨other, same⟩
    · rw [same]
      refine ⟨Or.inl rfl, ?_⟩
      rcases ok.accepted_ed accepted with ⟨-, -, kept⟩ | ⟨-, fresh, -, -⟩
      · exact kept
      · exact fun mem => (ok.edUsed ed (ok.removing ed mem)).not_fresh fresh
    · rw [same] at some ⊢
      exact (ok.pipes d some).imp Or.inr id
  case own =>
    intro d d' some equal
    change (o.udevs d).ep0 = (o.udevs d').ep0
    rw [accepted.ep0s, accepted.ep0s]
    rcases accept_pipe accepted d with ⟨here, same⟩ | ⟨other, same⟩ <;>
      rcases accept_pipe accepted d' with ⟨here', same'⟩ | ⟨other', same'⟩
    · exact here.trans here'.symm
    · exact absurd (same'.symm.trans (equal.symm.trans same)) (ok.accepted_apart accepted other')
    · exact absurd (same.symm.trans (equal.trans same')) (ok.accepted_apart accepted other)
    · rw [same] at some equal
      exact ok.own d d' some (equal.trans same')
  case once =>
    rw [due]
    exact ok.once
  case removing =>
    intro e mem
    rw [due] at mem
    exact live.mpr (Or.inr (ok.removing e mem))

theorem Ok.other (ok : s.Ok b) (spares : s.Spares b o) : Ok b { s with toOhci := o } := by
  have same : (CtrlRun.mk o s.done s.accepted s.live).waiting = s.waiting := by
    unfold waiting
    dsimp only
    rw [spares.head]
    by_cases none : s.hcControlHeadED = 0
    · rw [if_pos none, if_pos none]
    · rw [if_neg none, if_neg none, (spares.eds _ (ok.head none)).1]
  have eds {e : U32} (mem : e ∈ s.live) : o.eds e = s.eds e := (spares.eds e mem).1
  constructor
  case accounts =>
    rw [same]
    have owns (td : U32) (out : td ∈ s.done ++ s.waiting) : (o.tds td).utr = (s.tds td).utr ∧
        (b.InUse s.pool.used td → b.InUse o.pool.used td) := by
      obtain ⟨x, here, left⟩ := ok.exists_xfer out
      exact spares.tds x here td left
    refine Books.mono ok.accounts (List.Perm.refl _) ?_ ?_ ?_ spares.called
    · exact fun td out => decide_eq_true ((owns td out).2 (ok.inUse out))
    · exact fun td out => (owns td out).1
    · intro y mem some
      obtain ⟨x, here, rfl⟩ := List.mem_map.mp mem
      exact spares.counts x here some
  case head =>
    change o.hcControlHeadED ≠ 0 → o.hcControlHeadED ∈ s.live
    rw [spares.head]
    exact ok.head
  case empty =>
    intro e mem other
    change (o.eds e).tds = []
    rw [eds mem]
    exact ok.empty e mem fun first => other (first.trans spares.head.symm)
  case last =>
    intro e mem
    change (o.eds e).nextED = 0
    rw [eds mem]
    exact ok.last e mem
  case control =>
    intro e mem
    change (o.eds e).info &&& edEpAddrMsk = 0
    rw [eds mem]
    exact ok.control e mem
  case edUsed => exact fun e mem => (spares.eds e mem).2 (ok.edUsed e mem)
  case apart =>
    rw [same]
    exact ok.apart
  case current =>
    rw [same]
    intro x here td left waits
    obtain ⟨pending, atHead⟩ := ok.current x here td left waits
    exact ⟨pending, atHead.trans spares.head.symm⟩
  case pipes =>
    intro d some
    obtain ⟨_, keeps⟩ := spares.pipes d some
    change (o.eps (o.udevs d).ep0).hwPipe ∈ s.live ∧
      (o.eps (o.udevs d).ep0).hwPipe ∉ o.edRemoveList
    rw [spares.removing, keeps]
    exact ok.pipes d (keeps ▸ some)
  case own =>
    intro d d' some equal
    obtain ⟨here, keeps⟩ := spares.pipes d some
    obtain ⟨here', keeps'⟩ := spares.pipes d' (ne_of_eq_of_ne equal.symm some)
    have before := ok.own d d' (keeps ▸ some) (keeps.symm.trans (equal.trans keeps'))
    exact here.trans (before.trans here'.symm)
  case once =>
    change o.edRemoveList.Nodup
    rw [spares.removing]
    exact ok.once
  case removing =>
    intro e mem
    exact ok.removing e (spares.removing ▸ mem)

theorem Ok.refused_spares (ok : s.Ok b) (refused : CtrlRefused b s.toOhci o)
    (same : ∀ i < memPoolUnitNum, o.pool.used i = s.pool.used i) : s.Spares b o := by
  have used (a : U32) (inUse : b.InUse s.pool.used a) : b.InUse o.pool.used a := by
    obtain ⟨i, inside, taken, here⟩ := inUse
    exact ⟨i, inside, (same i inside).trans taken, here⟩
  have rest := refused.rest
  constructor
  case head => rw [rest]
  case removing => rw [rest]
  case eds => exact fun e _ => ⟨by rw [rest], used e⟩
  case tds =>
    intro x here td left
    have inUse : b.InUse s.pool.used td := ok.inUse (List.mem_append.mpr (ok.out here left))
    exact ⟨congrArg Td.utr (refused.tds td inUse), used td⟩
  case counts =>
    intro x _ _
    rw [rest]
  case called =>
    rw [rest]
  case pipes =>
    intro d _
    rw [rest]
    exact ⟨rfl, rfl⟩

end Submission

end CtrlRun

end NuMakerMA35
