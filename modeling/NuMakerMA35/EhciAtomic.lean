import NuMakerMA35.Ehci

namespace NuMakerMA35

/-- The links between queue heads, their descriptors and the pipes of the endpoints. -/
structure EhciLinks where
  hLink : U32 → U32
  qtdList : U32 → List U32
  hwPipe : U32 → U32
  hQh : U32
  iqh : Nat → U32

namespace Ehci

def links (s : Ehci) : EhciLinks :=
  ⟨fun a => (s.qhs a).hLink, fun a => (s.qhs a).qtdList, fun a => (s.eps a).hwPipe, s.hQh, s.iqh⟩

structure Unchanged (b : UnitBase) (s t : Ehci) : Prop where
  used : ∀ i < memPoolUnitNum, t.pool.used i = s.pool.used i
  hLink : ∀ a, b.InUse s.pool.used a → t.links.hLink a = s.links.hLink a
  qtdList : ∀ a, b.InUse s.pool.used a → t.links.qtdList a = s.links.qtdList a
  hwPipe : t.links.hwPipe = s.links.hwPipe
  hQh : t.links.hQh = s.links.hQh
  iqh : t.links.iqh = s.links.iqh

end Ehci

inductive EhciCall where
  | ctrl
  | bulk
  | int
  deriving DecidableEq

def EhciCall.run (b : UnitBase) (s : Ehci) (utr : U32) : EhciCall → Option (Ehci × Int)
  | .ctrl => s.ctrlXfer b utr
  | .bulk => s.bulkXfer b utr
  | .int => s.intXfer b utr

/-- Where a call that fails leaves nothing behind. A control transfer does where its buffer is
refused, where the endpoint has a queue head already or gets none; a bulk transfer where the
endpoint has none, where it is busy or where the first descriptor is refused. -/
def EhciCall.Restores (b : UnitBase) (s : Ehci) (utr : U32) : EhciCall → Prop
  | .ctrl =>
    let u := s.utrs utr
    (u.dataLen > 0 ∧ u.buff + u.dataLen > (u.buff &&& ~~~0xfff) + 0x5000) ∨
      (s.eps (s.udevs u.udev).ep0).hwPipe ≠ 0 ∨ (s.allocQh b).1 = 0
  | .bulk =>
    let qh := (s.eps (s.utrs utr).ep).hwPipe
    qh = 0 ∨ (s.qhs qh).qtdList ≠ [] ∨ (s.allocQtd b utr).1 = 0 ∨ ¬b.InUse s.pool.used qh
  | .int => True

namespace Ehci

section Links

variable {b : UnitBase} {s t : Ehci} {a utr qh qtd : U32} {i : Nat}

theorem links_setQh {f : Qh → Qh}
    (same : ∀ q, (f q).hLink = q.hLink ∧ (f q).qtdList = q.qtdList) :
    (s.setQh a f).links = s.links := by
  unfold links setQh
  congr 1 <;> funext x <;> by_cases here : x = a
  · subst here
    simpa using (same (s.qhs x)).1
  · simp [here]
  · subst here
    simpa using (same (s.qhs x)).2
  · simp [here]

@[simp] theorem links_freeQh : (s.freeQh b qh).links = s.links := rfl

theorem links_appendToQtdList : (s.appendToQtdList qh qtd).links =
    { s.links with
      qtdList := Function.update s.links.qtdList qh (s.links.qtdList qh ++ [qtd]) } := by
  unfold links appendToQtdList setQh
  congr 1 <;> funext x <;> by_cases here : x = qh
  · subst here
    simp
  · simp [here]
  · subst here
    simp
  · simp [here]

theorem links_allocQtd : (s.allocQtd b utr).2.links = s.links := by
  unfold allocQtd
  dsimp only
  split_ifs <;> rfl

theorem links_setEp : (s.setEp a fun e => { e with hwPipe := qh }).links =
    { s.links with hwPipe := Function.update s.links.hwPipe a qh } := by
  unfold links setEp
  congr 1
  funext x
  by_cases here : x = a
  · subst here
    simp
  · simp [here]

theorem links_setEp_of (same : s.links = t.links) :
    (s.setEp a fun e => { e with hwPipe := qh }).links =
      { t.links with hwPipe := Function.update t.links.hwPipe a qh } := by
  rw [links_setEp, same]

theorem writeQh_some {udev : U32} {ep : Option EpInfo} (ret : s.writeQh udev ep qh = some t) :
    t.links = s.links ∧ t.pool = s.pool ∧ t.eps = s.eps ∧ t.refuse = s.refuse := by
  unfold writeQh at ret
  obtain ⟨cap, -, same⟩ := Option.bind_eq_some_iff.mp ret
  cases Option.some.inj same
  exact ⟨links_setQh fun q => ⟨rfl, rfl⟩, rfl, rfl, rfl⟩

end Links

section Units

variable {b : UnitBase} {s t : Ehci} {a utr qh qtd : U32} {i : Nat}

theorem allocQtd_grew : b.Grew s.pool.used (s.allocQtd b utr).2.pool.used (got (s.allocQtd b utr).1) := by
  have taken : b.Grew s.pool.used (s.take (allocEhciQTD b)).2.pool.used
      (got (s.take (allocEhciQTD b)).1) := UnitBase.take_grew .qtd rfl
  unfold allocQtd
  dsimp only
  split_ifs <;> exact taken

theorem allocQh_grew : b.Grew s.pool.used (s.allocQh b).2.pool.used (got (s.allocQh b).1) := by
  have taken : b.Grew s.pool.used (s.take (allocEhciQH b)).2.pool.used
      (got (s.take (allocEhciQH b)).1) := UnitBase.take_grew .qh rfl
  unfold allocQh
  dsimp only
  split_ifs <;> exact taken

theorem freeQtd_used (inside : i < memPoolUnitNum) :
    (s.freeQtd b qtd).pool.used i = (s.pool.used i && decide (b.addr i ≠ qtd)) :=
  UnitBase.freeUnits_used inside

theorem freeQh_used (inside : i < memPoolUnitNum) :
    (s.freeQh b qh).pool.used i = (s.pool.used i && decide (b.addr i ≠ qh)) :=
  UnitBase.freeUnits_used inside

theorem foldl_freeQtd (s : Ehci) (qtds : List U32) : (qtds.foldl (freeQtd b) s).links = s.links ∧
    ∀ i < memPoolUnitNum, (qtds.foldl (freeQtd b) s).pool.used i =
      (s.pool.used i && decide (b.addr i ∉ qtds)) := by
  induction qtds generalizing s with
  | nil => simp
  | cons qtd qtds ih =>
    obtain ⟨links, used⟩ := ih (s.freeQtd b qtd)
    refine ⟨links, ?_⟩
    intro i inside
    rw [List.foldl_cons, used i inside, freeQtd_used inside]
    by_cases here : b.addr i = qtd
    · simp [here]
    · simp [here]

end Units

section Bulk

variable {b : UnitBase} {s t r : Ehci} {utr qh qtd pre buff : U32} {out last done : Bool}
  {left n : Nat} {qtds : List U32}

/-- The state after free units were taken for descriptors, and these were appended to the list of a
queue head. -/
structure Grown (b : UnitBase) (s t : Ehci) (qh : U32) (qtds : List U32) : Prop where
  grew : b.Grew s.pool.used t.pool.used qtds
  links : t.links = { s.links with
    qtdList := Function.update s.links.qtdList qh (s.links.qtdList qh ++ qtds) }

theorem Grown.none (grew : b.Grew s.pool.used t.pool.used []) (links : t.links = s.links) :
    Grown b s t qh [] := by
  refine ⟨grew, ?_⟩
  rw [links]
  simp

theorem Grown.cons (grew : b.Grew s.pool.used r.pool.used [qtd])
    (links : r.links = { s.links with
      qtdList := Function.update s.links.qtdList qh (s.links.qtdList qh ++ [qtd]) })
    (grown : Grown b r t qh qtds) : Grown b s t qh (qtd :: qtds) := by
  refine ⟨grew.trans grown.grew, ?_⟩
  rw [grown.links, links]
  simp

theorem Grown.qtdList (grown : Grown b s t qh qtds) :
    (t.qhs qh).qtdList = s.links.qtdList qh ++ qtds := by
  have list := congrFun (congrArg EhciLinks.qtdList grown.links) qh
  dsimp only at list
  rwa [Function.update_self] at list

theorem fillBulkQtd_pool : (s.fillBulkQtd qh pre qtd buff out n last).pool = s.pool := by
  unfold fillBulkQtd
  split_ifs <;> rfl

theorem fillBulkQtd_links : (s.fillBulkQtd qh pre qtd buff out n last).links =
    { s.links with
      qtdList := Function.update s.links.qtdList qh (s.links.qtdList qh ++ [qtd]) } := by
  unfold fillBulkQtd
  split_ifs <;> exact links_appendToQtdList

theorem bulkQtds_grown (ret : bulkQtds b utr qh out left buff pre s = (t, done)) :
    ∃ qtds, Grown b s t qh qtds ∧
      (done = false → (qtds = [] ↔ (s.allocQtd b utr).1 = 0)) := by
  induction left using Nat.strong_induction_on generalizing buff pre s with
  | _ left ih =>
    unfold bulkQtds at ret
    by_cases empty : left = 0
    · rw [dif_pos empty] at ret
      obtain ⟨rfl, rfl⟩ := Prod.mk.inj ret
      exact ⟨[], .none (.none fun _ _ => rfl) rfl, fun more => nomatch more⟩
    · rw [dif_neg empty] at ret
      have less : left - (if left > 0x4000 then 0x4000 else left) < left := by split <;> omega
      have grew : b.Grew s.pool.used (s.allocQtd b utr).2.pool.used (got (s.allocQtd b utr).1) :=
        allocQtd_grew
      have same : (s.allocQtd b utr).2.links = s.links := links_allocQtd
      generalize s.allocQtd b utr = unit at ret grew same ⊢
      obtain ⟨qtd, r⟩ := unit
      dsimp only at ret grew same ⊢
      by_cases refused : qtd = 0
      · rw [if_pos refused] at ret
        obtain ⟨rfl, rfl⟩ := Prod.mk.inj ret
        rw [refused] at grew
        exact ⟨[], .none grew same, fun _ => iff_of_true rfl refused⟩
      · rw [if_neg refused] at ret
        rw [got_of_ne refused] at grew
        obtain ⟨qtds, grown, -⟩ := ih _ less ret
        refine ⟨qtd :: qtds, .cons ?_ ?_ grown, fun _ => iff_of_false ?_ refused⟩
        · rw [fillBulkQtd_pool]
          exact grew
        · rw [fillBulkQtd_links, same]
        · exact List.cons_ne_nil qtd qtds

end Bulk

section Calls

variable {b : UnitBase} {s t : Ehci} {utr a ep qh : U32} {err : Int} {qtds : List U32}

theorem Unchanged.of_eq (used : ∀ i < memPoolUnitNum, t.pool.used i = s.pool.used i)
    (links : t.links = s.links) : s.Unchanged b t := by
  refine ⟨used, ?_, ?_, ?_, ?_, ?_⟩ <;> rw [links] <;> intros <;> rfl

theorem Unchanged.refl : s.Unchanged b s := .of_eq (fun _ _ => rfl) rfl

theorem refused_used {used used' : Nat → Bool} (grew : b.Grew used used' (got a)) (none : a = 0) :
    ∀ i < memPoolUnitNum, used' i = used i := by
  rw [none, got_zero] at grew
  exact grew.same

theorem allocQh_refused (refused : (s.allocQh b).1 = 0) : s.Unchanged b (s.allocQh b).2 := by
  refine .of_eq (refused_used allocQh_grew refused) ?_
  unfold allocQh at refused ⊢
  dsimp only at refused ⊢
  split_ifs at refused ⊢ with none
  · rfl
  · exact absurd refused none

structure NewQh (b : UnitBase) (s t : Ehci) (qh : U32) : Prop where
  grew : b.Grew s.pool.used t.pool.used [qh]
  hLink : ∀ a ≠ qh, t.links.hLink a = s.links.hLink a
  qtdList : ∀ a ≠ qh, t.links.qtdList a = s.links.qtdList a
  empty : t.links.qtdList qh = []
  hwPipe : t.links.hwPipe = s.links.hwPipe
  hQh : t.links.hQh = s.links.hQh
  iqh : t.links.iqh = s.links.iqh

theorem allocQh_new (granted : (s.allocQh b).1 ≠ 0) : NewQh b s (s.allocQh b).2 (s.allocQh b).1 := by
  have grew : b.Grew s.pool.used (s.allocQh b).2.pool.used (got (s.allocQh b).1) := allocQh_grew
  rw [got_of_ne granted] at grew
  have other : (s.take (allocEhciQH b)).2.links = s.links := rfl
  unfold allocQh at granted grew ⊢
  dsimp only at granted grew ⊢
  split_ifs at granted grew ⊢ with none
  · exact absurd none granted
  refine ⟨grew, ?_, ?_, ?_, ?_, ?_, ?_⟩
  · intro a apart
    rw [← other]
    simp [links, setQh, apart]
  · intro a apart
    rw [← other]
    simp [links, setQh, apart]
  · simp [links, setQh]
  · rw [← other]
    rfl
  · rw [← other]
    rfl
  · rw [← other]
    rfl

theorem NewQh.back {r u : Ehci} (new : NewQh b s r qh) (fresh : s.links.hwPipe ep = 0)
    (grew : b.Grew r.pool.used u.pool.used qtds)
    (used : ∀ i < memPoolUnitNum, t.pool.used i = (u.pool.used i && decide (b.addr i ∉ qtds)))
    (links : t.links = { r.links with
      qtdList := Function.update r.links.qtdList qh qtds
      hwPipe := Function.update r.links.hwPipe ep qh }) :
    s.Unchanged b ((t.freeQh b qh).setEp ep fun e => { e with hwPipe := 0 }) := by
  have apart {a : U32} (taken : b.InUse s.pool.used a) : a ≠ qh := by
    rintro rfl
    exact taken.not_fresh (new.grew.fresh a List.mem_cons_self)
  refine ⟨?_, ?_, ?_, ?_, ?_, ?_⟩
  · have freed : ∀ i < memPoolUnitNum, (t.freeQh b qh).pool.used i =
        (u.pool.used i && decide (b.addr i ∉ qtds ++ [qh])) := by
      intro i inside
      rw [freeQh_used inside, used i inside]
      simp [Bool.and_assoc]
    refine (new.grew.trans grew).back _ freed ?_
    intro a _
    simp [or_comm]
  all_goals rw [links_setEp, links_freeQh, links]
  · intro a taken
    exact new.hLink a (apart taken)
  · intro a taken
    rw [← new.qtdList a (apart taken)]
    exact Function.update_of_ne (apart taken) _ _
  · dsimp only
    rw [Function.update_idem, new.hwPipe, ← fresh, Function.update_eq_self]
  · exact new.hQh
  · exact new.iqh

theorem writeIntQh_some {udev : U32} (ret : s.writeIntQh udev ep qh = some t) :
    t.links = { s.links with hwPipe := Function.update s.links.hwPipe ep qh } ∧ t.pool = s.pool := by
  unfold writeIntQh at ret
  obtain ⟨r, wrote, same⟩ := Option.bind_eq_some_iff.mp ret
  cases Option.some.inj same
  obtain ⟨links, pool, -, -⟩ := writeQh_some wrote
  refine ⟨links_setEp_of (Eq.trans ?_ links), pool⟩
  exact links_setQh fun q => ⟨rfl, rfl⟩

theorem pipeQh_new (new : (s.eps ep).hwPipe = 0) : s.pipeQh b ep = s.allocQh b := if_pos new

theorem pipeQh_old (old : (s.eps ep).hwPipe ≠ 0) : s.pipeQh b ep = ((s.eps ep).hwPipe, s) :=
  if_neg old

theorem freeIf {q : Ehci} : (if a ≠ 0 then q.freeQtd b a else q).links = q.links ∧
    ∀ i < memPoolUnitNum, (if a ≠ 0 then q.freeQtd b a else q).pool.used i =
      (q.pool.used i && decide (b.addr i ∉ got a)) := by
  by_cases none : a = 0
  · rw [if_neg (not_not.mpr none), none, got_zero]
    simp
  · rw [if_pos none, got_of_ne none]
    refine ⟨rfl, ?_⟩
    intro i inside
    rw [freeQtd_used inside]
    simp

theorem allocDataQtd_grew :
    b.Grew s.pool.used (s.allocDataQtd b utr).2.pool.used (got (s.allocDataQtd b utr).1) := by
  unfold allocDataQtd
  split
  · exact allocQtd_grew
  · exact .none fun _ _ => rfl

theorem allocDataQtd_links : (s.allocDataQtd b utr).2.links = s.links := by
  unfold allocDataQtd
  split
  · exact links_allocQtd
  · rfl

theorem ctrlQtds_fails {isNewQh : Bool} (ret : s.ctrlQtds b utr qh isNewQh = some (t, err))
    (fails : err < 0) : (∀ i < memPoolUnitNum, t.pool.used i = s.pool.used i) ∧ t.links = s.links := by
  unfold ctrlQtds at ret
  dsimp only at ret
  have first : b.Grew s.pool.used (s.allocQtd b utr).2.pool.used (got (s.allocQtd b utr).1) :=
    allocQtd_grew
  have firstLinks : (s.allocQtd b utr).2.links = s.links := links_allocQtd
  generalize s.allocQtd b utr = setup at ret first firstLinks
  have second : b.Grew setup.2.pool.used (setup.2.allocDataQtd b utr).2.pool.used
      (got (setup.2.allocDataQtd b utr).1) := allocDataQtd_grew
  have secondLinks : (setup.2.allocDataQtd b utr).2.links = setup.2.links := allocDataQtd_links
  generalize setup.2.allocDataQtd b utr = data at ret second secondLinks
  have third : b.Grew data.2.pool.used (data.2.allocQtd b utr).2.pool.used
      (got (data.2.allocQtd b utr).1) := allocQtd_grew
  have thirdLinks : (data.2.allocQtd b utr).2.links = data.2.links := links_allocQtd
  generalize data.2.allocQtd b utr = status at ret third thirdLinks
  by_cases refused : status.1 = 0
  · rw [if_pos refused] at ret
    cases ret
    refine ⟨?_, ?_⟩
    · refine ((first.trans second).trans third).back (got setup.1 ++ got data.1) ?_ ?_
      · intro i inside
        rw [freeIf.2 i inside, freeIf.2 i inside]
        simp [Bool.and_assoc]
      · intro a _
        rw [refused, got_zero, List.append_nil]
    · rw [freeIf.1, freeIf.1, thirdLinks, secondLinks, firstLinks]
  · rw [if_neg refused] at ret
    split_ifs at ret
    cases ret
    cases fails

theorem ctrlXfer_fails (ret : s.ctrlXfer b utr = some (t, err)) (fails : err < 0) :
    s.Unchanged b t ↔ EhciCall.ctrl.Restores b s utr := by
  unfold ctrlXfer at ret
  unfold EhciCall.Restores
  dsimp only at ret ⊢
  generalize s.utrs utr = u at ret ⊢
  generalize (s.udevs u.udev).ep0 = ep0 at ret ⊢
  by_cases overrun : u.dataLen > 0 ∧ u.buff + u.dataLen > (u.buff &&& ~~~0xfff) + 0x5000
  · rw [if_pos overrun] at ret
    cases ret
    exact iff_of_true .refl (Or.inl overrun)
  rw [if_neg overrun] at ret
  by_cases busy : (s.eps ep0).hwPipe ≠ 0 ∧ (s.qhs (s.eps ep0).hwPipe).qtdList ≠ []
  · rw [if_pos busy] at ret
    cases ret
    exact iff_of_true .refl (Or.inr (Or.inl busy.1))
  rw [if_neg busy] at ret
  by_cases new : (s.eps ep0).hwPipe = 0
  · rw [pipeQh_new new, decide_eq_true new] at ret
    by_cases none : (s.allocQh b).1 = 0
    · rw [if_pos none] at ret
      cases ret
      exact iff_of_true (allocQh_refused none) (Or.inr (Or.inr none))
    · rw [if_neg none, if_pos rfl] at ret
      obtain ⟨r, wrote, ret⟩ := Option.bind_eq_some_iff.mp ret
      obtain ⟨wroteLinks, -, -, -⟩ := writeQh_some wrote
      obtain ⟨-, links⟩ := ctrlQtds_fails ret fails
      refine iff_of_false ?_ ?_
      · intro unchanged
        have kept := congrFun unchanged.hwPipe ep0
        rw [show t.links = r.links from links, wroteLinks, links_setEp] at kept
        dsimp only at kept
        rw [Function.update_self] at kept
        exact none (kept.trans new)
      · rintro (taken | old | refused)
        · exact overrun taken
        · exact old new
        · exact none refused
  · rw [pipeQh_old new, decide_eq_false new] at ret
    rw [if_neg new, if_neg Bool.false_ne_true] at ret
    obtain ⟨r, wrote, ret⟩ := Option.bind_eq_some_iff.mp ret
    obtain ⟨wroteLinks, pool, -, -⟩ := writeQh_some wrote
    obtain ⟨used, links⟩ := ctrlQtds_fails ret fails
    refine iff_of_true (.of_eq ?_ ?_) (Or.inr (Or.inl new))
    · intro i inside
      rw [used i inside]
      exact congrArg (fun p => p.used i) pool
    · rw [links]
      exact wroteLinks

theorem intXfer_fails (ret : s.intXfer b utr = some (t, err)) (fails : err < 0) :
    s.Unchanged b t := by
  unfold intXfer at ret
  dsimp only at ret
  generalize s.utrs utr = u at ret
  by_cases busy : (s.eps u.ep).hwPipe ≠ 0 ∧ (s.qhs (s.eps u.ep).hwPipe).qtdList ≠ []
  · rw [if_pos busy] at ret
    cases ret
    exact .refl
  rw [if_neg busy] at ret
  by_cases new : (s.eps u.ep).hwPipe = 0
  · rw [pipeQh_new new, decide_eq_true new] at ret
    by_cases none : (s.allocQh b).1 = 0
    · rw [if_pos none] at ret
      cases ret
      exact allocQh_refused none
    · rw [if_neg none, if_pos rfl] at ret
      have fresh := allocQh_new none
      generalize s.allocQh b = qh at ret none fresh
      obtain ⟨r, wrote, ret⟩ := Option.bind_eq_some_iff.mp ret
      obtain ⟨wroteLinks, pool⟩ := writeIntQh_some wrote
      have grew : b.Grew r.pool.used (r.allocQtd b utr).2.pool.used (got (r.allocQtd b utr).1) :=
        allocQtd_grew
      have links : (r.allocQtd b utr).2.links = r.links := links_allocQtd
      generalize r.allocQtd b utr = qtd at ret grew links
      by_cases refused : qtd.1 = 0
      · rw [if_pos refused, if_pos rfl] at ret
        cases ret
        rw [refused, got_zero, pool] at grew
        refine fresh.back new grew ?_ ?_
        · intro i _
          simp
        · rw [links, wroteLinks]
          have empty : Function.update qh.2.links.qtdList qh.1 [] = qh.2.links.qtdList := by
            rw [← fresh.empty, Function.update_eq_self]
          rw [empty]
      · rw [if_neg refused] at ret
        cases ret
        cases fails
  · rw [pipeQh_old new, decide_eq_false new] at ret
    rw [if_neg new, if_neg Bool.false_ne_true] at ret
    obtain ⟨r, same, ret⟩ := Option.bind_eq_some_iff.mp ret
    cases same
    have grew : b.Grew s.pool.used (s.allocQtd b utr).2.pool.used (got (s.allocQtd b utr).1) :=
      allocQtd_grew
    have links : (s.allocQtd b utr).2.links = s.links := links_allocQtd
    generalize s.allocQtd b utr = qtd at ret grew links
    by_cases refused : qtd.1 = 0
    · rw [if_pos refused, if_neg Bool.false_ne_true] at ret
      cases ret
      exact .of_eq (refused_used grew refused) links
    · rw [if_neg refused] at ret
      cases ret
      cases fails

theorem startBulk_some {isNewQh : Bool} (ret : s.startBulk ep qh isNewQh = some (t, err)) :
    err = 0 := by
  unfold startBulk at ret
  dsimp only at ret
  split at ret
  · cases ret
  · cases ret
    rfl

theorem bulkXfer_fails (ret : s.bulkXfer b utr = some (t, err)) (fails : err < 0) :
    s.Unchanged b t ↔ EhciCall.bulk.Restores b s utr := by
  unfold bulkXfer at ret
  unfold EhciCall.Restores
  dsimp only at ret ⊢
  generalize s.utrs utr = u at ret ⊢
  by_cases busy : (s.eps u.ep).hwPipe ≠ 0 ∧ (s.qhs (s.eps u.ep).hwPipe).qtdList ≠ []
  · rw [if_pos busy] at ret
    cases ret
    exact iff_of_true .refl (Or.inr (Or.inl busy.2))
  rw [if_neg busy] at ret
  by_cases new : (s.eps u.ep).hwPipe = 0
  · rw [pipeQh_new new, decide_eq_true new] at ret
    refine iff_of_true ?_ (Or.inl new)
    by_cases none : (s.allocQh b).1 = 0
    · rw [if_pos none] at ret
      cases ret
      exact allocQh_refused none
    · rw [if_neg none, if_pos rfl] at ret
      have fresh := allocQh_new none
      generalize s.allocQh b = qh at ret none fresh
      obtain ⟨r, wrote, ret⟩ := Option.bind_eq_some_iff.mp ret
      obtain ⟨wroteLinks, pool, -, -⟩ := writeQh_some wrote
      rw [if_pos rfl] at ret
      generalize filled : bulkQtds b utr qh.1 _ u.dataLen.toNat u.buff 0 _ = out at ret
      obtain ⟨qtds, grown, -⟩ := bulkQtds_grown filled
      by_cases failed : out.2 = false
      · rw [if_pos failed, if_pos rfl] at ret
        cases ret
        have list := grown.qtdList
        rw [links_setEp, wroteLinks] at list
        dsimp only at list
        rw [fresh.empty, List.nil_append] at list
        rw [list]
        have grew : b.Grew r.pool.used out.1.pool.used qtds := grown.grew
        rw [pool] at grew
        refine fresh.back new grew (foldl_freeQtd _ _).2 ?_
        rw [(foldl_freeQtd _ _).1, grown.links, links_setEp, wroteLinks]
        dsimp only
        rw [fresh.empty, List.nil_append]
      · rw [if_neg failed] at ret
        exact absurd (startBulk_some ret) fails.ne
  · rw [pipeQh_old new, decide_eq_false new] at ret
    rw [if_neg new, if_neg Bool.false_ne_true] at ret
    obtain ⟨r, same, ret⟩ := Option.bind_eq_some_iff.mp ret
    cases same
    rw [if_neg Bool.false_ne_true] at ret
    generalize filled : bulkQtds b utr (s.eps u.ep).hwPipe _ u.dataLen.toNat u.buff 0 s = out at ret
    obtain ⟨qtds, grown, first⟩ := bulkQtds_grown filled
    by_cases failed : out.2 = false
    · rw [if_pos failed, if_neg Bool.false_ne_true] at ret
      cases ret
      have idle : s.links.qtdList (s.eps u.ep).hwPipe = [] := by
        by_contra some
        exact busy ⟨new, some⟩
      have list := grown.qtdList
      rw [idle, List.nil_append] at list
      rw [list]
      obtain ⟨links, used⟩ := foldl_freeQtd (b := b) out.1 qtds
      constructor
      · intro unchanged
        by_cases taken : b.InUse s.pool.used (s.eps u.ep).hwPipe
        · have kept := unchanged.qtdList _ taken
          rw [links, grown.links] at kept
          dsimp only at kept
          rw [Function.update_self, idle, List.nil_append] at kept
          exact Or.inr (Or.inr (Or.inl ((first failed).mp kept)))
        · exact Or.inr (Or.inr (Or.inr taken))
      · intro holds
        have nothing : b.InUse s.pool.used (s.eps u.ep).hwPipe → qtds = [] := by
          intro taken
          rcases holds with zero | more | refused | loose
          · exact absurd zero new
          · exact absurd ⟨new, more⟩ busy
          · exact (first failed).mpr refused
          · exact absurd taken loose
        refine ⟨grown.grew.back _ used fun _ _ => Iff.rfl, ?_, ?_, ?_, ?_, ?_⟩
        all_goals rw [links, grown.links]
        · exact fun _ _ => rfl
        · intro a taken
          dsimp only
          by_cases here : a = (s.eps u.ep).hwPipe
          · subst here
            rw [nothing taken, List.append_nil, Function.update_eq_self]
          · exact Function.update_of_ne here _ _
    · rw [if_neg failed] at ret
      exact absurd (startBulk_some ret) fails.ne

end Calls

end Ehci

/-- A submission that fails leaves the units, the lists and the pipes as they were exactly where
`EhciCall.Restores` says. -/
theorem ehci_submit_restores_iff {b : UnitBase} {s t : Ehci} {utr : U32} {err : Int} {call : EhciCall}
    (ret : call.run b s utr = some (t, err)) (fails : err < 0) :
    s.Unchanged b t ↔ call.Restores b s utr := by
  cases call with
  | ctrl => exact Ehci.ctrlXfer_fails ret fails
  | bulk => exact Ehci.bulkXfer_fails ret fails
  | int => exact iff_of_true (Ehci.intXfer_fails ret fails) trivial

/-- A device of high speed with nothing submitted yet, and one unit left in the pool. -/
def lastUnitEhci : Ehci where
  pool := ⟨fun i => decide (i ≠ 1), 63, 0⟩
  refuse := []
  qhs := fun _ => ⟨0x3, 0, 0, 0, qtdListEnd, qtdListEnd, qtdStsHalt, fun _ => 0, []⟩
  qtds := fun _ => ⟨qtdListEnd, qtdListEnd, 0, fun _ => 0, 0, 0, 0⟩
  eps := fun _ => ⟨0x81, 3, 4, 0, 512, 0⟩
  udevs := fun _ => ⟨64, [], 1, 1, .high, 0x20000100⟩
  utrs := fun _ =>
    ⟨0x20000000, 0x80, 0x20000200, 0x20001000, false, 18, 0, false, 0, 0, 0, 0, 0, 0⟩
  hQh := 0x20000300
  ghostQtd := 0x20000400
  iqh := fun _ => 0x20000300
  ucmdr := 0

/-- An interrupt transfer without a descriptor gives its queue head back. -/
theorem intQh_returned : ∃ t,
    EhciCall.int.run unitBaseAt lastUnitEhci 0x20002000 = some (t, usbhErrMemoryOut) ∧
      lastUnitEhci.Unchanged unitBaseAt t := by
  have ends : (EhciCall.int.run unitBaseAt lastUnitEhci 0x20002000).map Prod.snd =
      some usbhErrMemoryOut := by decide
  obtain ⟨⟨t, err⟩, ret, rfl⟩ := Option.map_eq_some_iff.mp ends
  exact ⟨t, ret, (ehci_submit_restores_iff ret (by decide)).mpr trivial⟩

/-- A control transfer without descriptors leaves its queue head in use and with the endpoint. -/
theorem ctrlQh_kept : ∃ t,
    EhciCall.ctrl.run unitBaseAt lastUnitEhci 0x20002000 = some (t, usbhErrMemoryOut) ∧
      t.pool.used 1 = true ∧ ¬lastUnitEhci.Unchanged unitBaseAt t := by
  have ends : (EhciCall.ctrl.run unitBaseAt lastUnitEhci 0x20002000).map
      (fun out => (out.2, out.1.pool.used 1)) = some (usbhErrMemoryOut, true) := by decide
  obtain ⟨⟨t, err⟩, ret, same⟩ := Option.map_eq_some_iff.mp ends
  obtain ⟨rfl, taken⟩ := Prod.mk.inj same
  refine ⟨t, ret, taken, ?_⟩
  intro unchanged
  have free : lastUnitEhci.pool.used 1 = false := rfl
  rw [← unchanged.used 1 (by decide), taken] at free
  cases free

end NuMakerMA35
