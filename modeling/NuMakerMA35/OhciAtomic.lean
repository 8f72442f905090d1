import NuMakerMA35.Ohci

namespace NuMakerMA35

/-- The list heads, the links of the endpoint descriptors and the pipes of the endpoints. -/
structure OhciLinks where
  nextED : U32 → U32
  hwPipe : U32 → U32
  hcControlHeadED : U32
  hcBulkHeadED : U32
  ied : Nat → U32

namespace Ohci

def links (s : Ohci) : OhciLinks :=
  ⟨fun a => (s.eds a).nextED, fun a => (s.eps a).hwPipe, s.hcControlHeadED, s.hcBulkHeadED, s.ied⟩

/-- The same units are in use, so no endpoint descriptor of a list was freed, and the lists and the
pipes are the same. -/
structure Unchanged (b : UnitBase) (s t : Ohci) : Prop where
  used : ∀ i < memPoolUnitNum, t.pool.used i = s.pool.used i
  nextED : ∀ a, b.InUse s.pool.used a → t.links.nextED a = s.links.nextED a
  hwPipe : t.links.hwPipe = s.links.hwPipe
  hcControlHeadED : t.links.hcControlHeadED = s.links.hcControlHeadED
  hcBulkHeadED : t.links.hcBulkHeadED = s.links.hcBulkHeadED
  ied : t.links.ied = s.links.ied

end Ohci

inductive OhciCall where
  | ctrl
  | bulk
  | int
  | iso
  deriving DecidableEq

def OhciCall.run (b : UnitBase) (turns : Nat) (s : Ohci) (utr : U32) : OhciCall → Option (Ohci × Int)
  | .ctrl => s.ctrlXfer b utr
  | .bulk => s.bulkXfer b turns utr
  | .int => s.intXfer b turns utr
  | .iso => s.isoXfer b turns utr

/-- Where a call that fails leaves nothing behind: a bulk transfer where its endpoint is busy, or a
new endpoint descriptor is refused or was the pipe already; an interrupt transfer unless a new
endpoint descriptor is refused; an isochronous one where its endpoint is not listed yet. -/
def OhciCall.Restores (b : UnitBase) (turns : Nat) (s : Ohci) (utr : U32) : OhciCall → Prop
  | .ctrl => True
  | .bulk =>
    let u := s.utrs utr
    let pipe := (s.eps u.ep).hwPipe
    ∀ listed, s.findEd (edMakeInfo (s.udevs u.udev) (s.eps u.ep)) turns s.hcBulkHeadED = some listed →
      if listed = 0 then (s.allocEd b).1 = 0 ∨ pipe = (s.allocEd b).1
      else (s.eds listed).headP &&& ~~~0xf ≠ (s.eds listed).tailP &&& ~~~0xf ∨
        ¬b.InUse s.pool.used listed ∧ pipe = listed
  | .int =>
    (s.utrs utr).dataLen > 64 ∨ (s.allocTd b utr).1 = 0 ∨ ((s.allocTd b utr).2.allocEd b).1 ≠ 0
  | .iso =>
    let u := s.utrs utr
    let ep := s.eps u.ep
    ∀ listed, s.findEd (edMakeInfo (s.udevs u.udev) ep) turns (s.intTreeHead ep.bInterval.toNat) =
        some listed →
      listed = 0 ∨ ¬b.InUse s.pool.used listed ∧ ep.hwPipe = listed

namespace Ohci

section Frames

variable {b : UnitBase} {s t r : Ohci} {a ed td utr buff : U32} {out done : Bool} {left n i : Nat}
  {tds out' : List U32}

theorem links_setEd {f : Ed → Ed} (same : ∀ e, (f e).nextED = e.nextED) :
    (s.setEd a f).links = s.links := by
  unfold links setEd
  congr 1
  funext x
  by_cases here : x = a
  · subst here
    simp [same]
  · simp [here]

theorem links_setUtr {f : Utr → Utr} : (s.setUtr a f).links = s.links := rfl

theorem links_setPipe (same : r.links = t.links) :
    (r.setEp a fun e => { e with hwPipe := ed }).links =
      { t.links with hwPipe := Function.update t.links.hwPipe a ed } := by
  rw [← same]
  unfold links setEp
  congr 1
  funext x
  by_cases here : x = a
  · subst here
    simp
  · simp [here]

theorem allocTd_grew : b.Grew s.pool.used (s.allocTd b utr).2.pool.used (got (s.allocTd b utr).1) := by
  have taken : b.Grew s.pool.used (s.take (allocOhciTD b)).2.pool.used
      (got (s.take (allocOhciTD b)).1) := UnitBase.take_grew .td rfl
  unfold allocTd
  dsimp only
  split_ifs <;> exact taken

theorem allocEd_grew : b.Grew s.pool.used (s.allocEd b).2.pool.used (got (s.allocEd b).1) := by
  have taken : b.Grew s.pool.used (s.take (allocOhciED b)).2.pool.used
      (got (s.take (allocOhciED b)).1) := UnitBase.take_grew .ed rfl
  unfold allocEd
  dsimp only
  split_ifs <;> exact taken

theorem allocTd_links : (s.allocTd b utr).2.links = s.links := by
  unfold allocTd
  dsimp only
  split_ifs <;> rfl

theorem freeTd_used (inside : i < memPoolUnitNum) :
    (s.freeTd b td).pool.used i = (s.pool.used i && decide (b.addr i ≠ td)) :=
  UnitBase.freeUnits_used inside

theorem freeEd_used (inside : i < memPoolUnitNum) :
    (s.freeEd b ed).pool.used i = (s.pool.used i && decide (b.addr i ≠ ed)) :=
  UnitBase.freeUnits_used inside

theorem memOut_frees (s : Ohci) (tds : List U32) (ed : U32) : (s.memOut b tds ed).links = s.links ∧
    ∀ i < memPoolUnitNum, (s.memOut b tds ed).pool.used i =
      (s.pool.used i && decide (b.addr i ∉ tds ++ [ed])) := by
  unfold memOut
  induction tds generalizing s with
  | nil =>
    refine ⟨rfl, ?_⟩
    intro i inside
    rw [List.foldl_nil, freeEd_used inside]
    simp
  | cons td tds ih =>
    obtain ⟨links, used⟩ := ih (s.freeTd b td)
    refine ⟨links, ?_⟩
    intro i inside
    rw [List.foldl_cons, used i inside, freeTd_used inside]
    by_cases here : b.addr i = td
    · simp [here]
    · simp [here]

theorem bulkTds_grew (ret : bulkTds b utr ed out left buff tds s = (t, out', done)) :
    ∃ new, out' = tds ++ new ∧ b.Grew s.pool.used t.pool.used new ∧ t.links = s.links := by
  induction left using Nat.strong_induction_on generalizing buff tds s with
  | _ left ih =>
    unfold bulkTds at ret
    dsimp only at ret
    have grew : b.Grew s.pool.used (s.allocTd b utr).2.pool.used (got (s.allocTd b utr).1) :=
      allocTd_grew
    have links : (s.allocTd b utr).2.links = s.links := allocTd_links
    generalize s.allocTd b utr = td at ret grew links
    by_cases refused : td.1 = 0
    · rw [if_pos refused] at ret
      cases ret
      rw [refused, got_zero] at grew
      exact ⟨[], (List.append_nil _).symm, grew, links⟩
    · rw [if_neg refused] at ret
      rw [got_of_ne refused] at grew
      by_cases more : left - (if left > 4096 then 4096 else left) > 0
      · rw [dif_pos more] at ret
        have less : left - (if left > 4096 then 4096 else left) < left := by
          split_ifs at more ⊢ <;> omega
        obtain ⟨new, rfl, later, same⟩ := ih _ less ret
        refine ⟨td.1 :: new, by rw [List.append_assoc]; rfl, grew.trans later, ?_⟩
        rw [same, ← links]
        rfl
      · rw [dif_neg more] at ret
        cases ret
        exact ⟨[td.1], rfl, grew, links⟩

theorem fillIsoTd_links : (s.fillIsoTd utr ed td i).links = s.links := by
  unfold fillIsoTd
  rw [links_setUtr, links_setEd]
  · rfl
  · exact fun _ => rfl

theorem beginIso_pool : (s.beginIso utr ed).pool = s.pool := by
  unfold beginIso
  split_ifs <;> rfl

theorem beginIso_links : (s.beginIso utr ed).links = s.links := by
  unfold beginIso
  rw [links_setUtr]
  split_ifs
  · exact links_setEd fun _ => rfl
  · rfl

theorem isoTds_grew (ret : isoTds b utr ed n i tds s = (t, out', done)) :
    ∃ new, out' = tds ++ new ∧ b.Grew s.pool.used t.pool.used new ∧ t.links = s.links := by
  induction n generalizing i tds s with
  | zero =>
    cases ret
    exact ⟨[], (List.append_nil _).symm, .none fun _ _ => rfl, rfl⟩
  | succ n ih =>
    unfold isoTds at ret
    dsimp only at ret
    generalize marked : s.setUtr utr _ = m at ret
    have pool : m.pool = s.pool := by rw [← marked]; rfl
    have same : m.links = s.links := by rw [← marked]; rfl
    have grew : b.Grew m.pool.used (m.allocTd b utr).2.pool.used (got (m.allocTd b utr).1) :=
      allocTd_grew
    have links : (m.allocTd b utr).2.links = m.links := allocTd_links
    generalize m.allocTd b utr = td at ret grew links
    rw [pool] at grew
    rw [same] at links
    by_cases refused : td.1 = 0
    · rw [if_pos refused] at ret
      cases ret
      rw [refused, got_zero] at grew
      exact ⟨[], (List.append_nil _).symm, grew, links⟩
    · rw [if_neg refused] at ret
      rw [got_of_ne refused] at grew
      obtain ⟨new, rfl, later, rest⟩ := ih ret
      refine ⟨td.1 :: new, by rw [List.append_assoc]; rfl, grew.trans later, ?_⟩
      rw [rest, fillIsoTd_links, links]

end Frames

section Calls

variable {b : UnitBase} {s t : Ohci} {a ed utr : U32} {err : Int} {turns : Nat}

theorem Unchanged.of_eq (used : ∀ i < memPoolUnitNum, t.pool.used i = s.pool.used i)
    (links : t.links = s.links) : s.Unchanged b t := by
  refine ⟨used, ?_, ?_, ?_, ?_, ?_⟩
  all_goals rw [links]
  exact fun _ _ => rfl

theorem Unchanged.refl : s.Unchanged b s := .of_eq (fun _ _ => rfl) rfl

theorem allocTd_refused (refused : (s.allocTd b utr).1 = 0) : s.Unchanged b (s.allocTd b utr).2 := by
  have grew : b.Grew s.pool.used (s.allocTd b utr).2.pool.used (got (s.allocTd b utr).1) :=
    allocTd_grew
  rw [refused, got_zero] at grew
  exact .of_eq grew.same allocTd_links

theorem allocEd_refused (refused : (s.allocEd b).1 = 0) :
    (∀ i < memPoolUnitNum, (s.allocEd b).2.pool.used i = s.pool.used i) ∧
      (s.allocEd b).2.links = s.links := by
  have grew : b.Grew s.pool.used (s.allocEd b).2.pool.used (got (s.allocEd b).1) := allocEd_grew
  rw [refused, got_zero] at grew
  refine ⟨grew.same, ?_⟩
  unfold allocEd at refused ⊢
  dsimp only at refused ⊢
  split_ifs at refused ⊢ with none
  · rfl
  · exact absurd refused none

theorem allocEd_links (granted : (s.allocEd b).1 ≠ 0) :
    (∀ a ≠ (s.allocEd b).1, (s.allocEd b).2.links.nextED a = s.links.nextED a) ∧
      (s.allocEd b).2.links = { s.links with nextED := (s.allocEd b).2.links.nextED } := by
  unfold allocEd at granted ⊢
  dsimp only at granted ⊢
  split_ifs at granted ⊢ with none
  · exact absurd none granted
  refine ⟨?_, rfl⟩
  intro a apart
  have other : (s.take (allocOhciED b)).2.links = s.links := rfl
  rw [← other]
  simp [links, setEd, apart]

theorem allocDataTd_grew :
    b.Grew s.pool.used (s.allocDataTd b utr).2.pool.used (got (s.allocDataTd b utr).1) := by
  unfold allocDataTd
  split
  · exact allocTd_grew
  · exact .none fun _ _ => rfl

theorem allocDataTd_links : (s.allocDataTd b utr).2.links = s.links := by
  unfold allocDataTd
  split
  · exact allocTd_links
  · rfl

theorem pipeEd_refused (refused : (s.pipeEd b a).1 = 0) :
    (∀ i < memPoolUnitNum, (s.pipeEd b a).2.pool.used i = s.pool.used i) ∧
      (s.pipeEd b a).2.links = s.links := by
  unfold pipeEd at refused ⊢
  split_ifs at refused ⊢ with new
  · exact allocEd_refused refused
  · exact absurd refused new

theorem freeTdIf {want : Prop} [Decidable want] {td : U32} (real : ¬want → td = 0) :
    (if want then s.freeTd b td else s).links = s.links ∧
      ∀ i < memPoolUnitNum, (if want then s.freeTd b td else s).pool.used i =
        (s.pool.used i && decide (b.addr i ≠ td)) := by
  split_ifs with wanted
  · exact ⟨rfl, fun i inside => freeTd_used inside⟩
  · refine ⟨rfl, ?_⟩
    intro i inside
    rw [real wanted, decide_eq_true (UnitBase.addr_ne_zero inside), Bool.and_true]

theorem ctrlXfer_fails (ret : s.ctrlXfer b utr = some (t, err)) (fails : err < 0) :
    s.Unchanged b t := by
  unfold ctrlXfer at ret
  dsimp only at ret
  have first : b.Grew s.pool.used (s.allocTd b utr).2.pool.used (got (s.allocTd b utr).1) :=
    allocTd_grew
  have firstLinks : (s.allocTd b utr).2.links = s.links := allocTd_links
  have firstUtrs : ((s.allocTd b utr).2.utrs utr).dataLen = (s.utrs utr).dataLen := by
    unfold allocTd
    dsimp only
    split_ifs <;> rfl
  generalize s.allocTd b utr = setup at ret first firstLinks firstUtrs
  have second : b.Grew setup.2.pool.used (setup.2.allocDataTd b utr).2.pool.used
      (got (setup.2.allocDataTd b utr).1) := allocDataTd_grew
  have secondLinks : (setup.2.allocDataTd b utr).2.links = setup.2.links := allocDataTd_links
  have unwanted : ¬(s.utrs utr).dataLen > 0 → (setup.2.allocDataTd b utr).1 = 0 := by
    intro none
    rw [← firstUtrs] at none
    unfold allocDataTd
    rw [if_neg none]
  generalize setup.2.allocDataTd b utr = data at ret second secondLinks unwanted
  have third : b.Grew data.2.pool.used (data.2.allocTd b utr).2.pool.used
      (got (data.2.allocTd b utr).1) := allocTd_grew
  have thirdLinks : (data.2.allocTd b utr).2.links = data.2.links := allocTd_links
  generalize data.2.allocTd b utr = status at ret third thirdLinks
  have taken := (first.trans second).trans third
  have links : status.2.links = s.links := by rw [thirdLinks, secondLinks, firstLinks]
  by_cases refused : status.1 = 0
  · rw [if_pos refused] at ret
    cases ret
    obtain ⟨sameLinks, used⟩ := freeTdIf (b := b) (s := status.2.freeTd b setup.1) unwanted
    refine .of_eq (taken.back [setup.1, data.1] ?_ ?_) (sameLinks.trans links)
    · intro i inside
      rw [used i inside, freeTd_used inside]
      simp [Bool.and_assoc]
    · intro a real
      simp only [List.mem_append, mem_got, List.mem_cons, List.not_mem_nil, or_false]
      grind
  · rw [if_neg refused] at ret
    by_cases none : (status.2.pipeEd b (s.udevs (s.utrs utr).udev).ep0).1 = 0
    · rw [if_pos none] at ret
      obtain ⟨lastUsed, lastLinks⟩ := pipeEd_refused none
      generalize status.2.pipeEd b (s.udevs (s.utrs utr).udev).ep0 = ed at ret lastUsed lastLinks
      cases ret
      obtain ⟨sameLinks, used⟩ :=
        freeTdIf (b := b) (s := (ed.2.freeTd b setup.1).freeTd b status.1) unwanted
      refine .of_eq (taken.back [setup.1, status.1, data.1] ?_ ?_)
        (sameLinks.trans (lastLinks.trans links))
      · intro i inside
        rw [used i inside, freeTd_used inside, freeTd_used inside, lastUsed i inside]
        simp [Bool.and_assoc]
      · intro a real
        simp only [List.mem_append, mem_got, List.mem_cons, List.not_mem_nil, or_false]
        grind
    · rw [if_neg none] at ret
      split_ifs at ret
      cases ret
      cases fails

theorem allocEd_hwPipe : (s.allocEd b).2.links.hwPipe = s.links.hwPipe := by
  unfold allocEd
  dsimp only
  split_ifs <;> rfl

theorem memOut_new {r : Ohci} {tds : List U32} {pipes : U32 → U32} (granted : (s.allocEd b).1 ≠ 0)
    (grew : b.Grew (s.allocEd b).2.pool.used r.pool.used tds)
    (links : r.links = { (s.allocEd b).2.links with hwPipe := pipes }) :
    s.Unchanged b (r.memOut b tds (s.allocEd b).1) ↔ pipes = s.links.hwPipe := by
  have first : b.Grew s.pool.used (s.allocEd b).2.pool.used (got (s.allocEd b).1) := allocEd_grew
  rw [got_of_ne granted] at first
  obtain ⟨nextED, rest⟩ := allocEd_links granted
  obtain ⟨sameLinks, used⟩ := memOut_frees (b := b) r tds (s.allocEd b).1
  constructor
  · intro unchanged
    rw [← unchanged.hwPipe, sameLinks, links]
  · intro same
    refine ⟨?_, ?_, ?_, ?_, ?_, ?_⟩
    · refine (first.trans grew).back _ used ?_
      intro a _
      simp [or_comm]
    all_goals rw [sameLinks, links]
    · intro a taken
      refine nextED a ?_
      rintro rfl
      exact taken.not_fresh (first.fresh _ List.mem_cons_self)
    · exact same
    all_goals rw [rest]

theorem memOut_old {r : Ohci} {tds : List U32} {pipes : U32 → U32}
    (grew : b.Grew s.pool.used r.pool.used tds) (links : r.links = { s.links with hwPipe := pipes }) :
    s.Unchanged b (r.memOut b tds ed) ↔ ¬b.InUse s.pool.used ed ∧ pipes = s.links.hwPipe := by
  obtain ⟨sameLinks, used⟩ := memOut_frees (b := b) r tds ed
  constructor
  · intro unchanged
    refine ⟨?_, ?_⟩
    · rintro ⟨i, inside, taken, rfl⟩
      have kept := unchanged.used i inside
      rw [used i inside, taken] at kept
      simp at kept
    · rw [← unchanged.hwPipe, sameLinks, links]
  · rintro ⟨loose, same⟩
    refine .of_eq ?_ ?_
    · have freed : ∀ i < memPoolUnitNum, (r.memOut b tds ed).pool.used i =
          ((r.pool.used i && decide (b.addr i ∉ tds)) && decide (b.addr i ≠ ed)) := by
        intro i inside
        rw [used i inside]
        simp [Bool.and_assoc]
      intro i inside
      have back := grew.back tds (fun _ _ => rfl) (fun _ _ => Iff.rfl) i inside
      rw [freed i inside, back]
      by_cases here : b.addr i = ed
      · have free : s.pool.used i = false := by
          by_contra taken
          exact loose ⟨i, inside, Bool.not_eq_false _ ▸ taken, here.symm⟩
        rw [free, Bool.false_and]
      · rw [decide_eq_true here, Bool.and_true]
    · rw [sameLinks, links, same]

theorem out_of_fails {filled : Bool} {out done : Ohci} (ret : (if filled = false then
      some (out, usbhErrMemoryOut) else some (done, 0)) = some (t, err)) (fails : err < 0) :
    t = out := by
  split_ifs at ret
  · cases ret
    rfl
  · cases ret
    cases fails

theorem bulkXfer_fails (ret : s.bulkXfer b turns utr = some (t, err)) (fails : err < 0) :
    s.Unchanged b t ↔ OhciCall.bulk.Restores b turns s utr := by
  unfold bulkXfer at ret
  unfold OhciCall.Restores
  extract_lets u ep info at ret
  obtain ⟨listed, found, ret⟩ := Option.bind_eq_some_iff.mp ret
  dsimp only
  rw [found]
  simp only [Option.some.injEq, forall_eq']
  by_cases busy : listed ≠ 0 ∧ (s.eds listed).headP &&& ~~~0xf ≠ (s.eds listed).tailP &&& ~~~0xf
  · rw [if_pos busy] at ret
    cases ret
    rw [if_neg busy.1]
    exact iff_of_true .refl (Or.inl busy.2)
  rw [if_neg busy] at ret
  -- The states the call goes through stay names, so that each is unfolded where it is needed only.
  extract_lets isNewED ed added piped begun out filled r at ret
  have links : begun.links = { added.links with
      hwPipe := Function.update added.links.hwPipe ep ed.1 } := links_setUtr.trans (links_setPipe rfl)
  obtain ⟨tds, same, grew, kept⟩ : ∃ tds, filled.2.1 = [] ++ tds ∧
      b.Grew begun.pool.used r.pool.used tds ∧ r.links = begun.links := bulkTds_grew rfl
  rw [List.nil_append] at same
  rw [← kept] at links
  clear_value r filled
  by_cases new : listed = 0
  · have isNew : isNewED = true := decide_eq_true new
    have taken : ed = s.allocEd b := if_pos isNew
    have initial : added = ed.2.setEd ed.1 fun e =>
      { e with info := info, tds := [], headBits := 0 } := if_pos isNew
    rw [if_pos new]
    by_cases none : ed.1 = 0
    · rw [if_pos none] at ret
      cases ret
      rw [taken] at none ⊢
      obtain ⟨used, links⟩ := allocEd_refused none
      exact iff_of_true (.of_eq used links) (Or.inl none)
    rw [if_neg none] at ret
    obtain rfl := out_of_fails ret fails
    have pool : begun.pool = (s.allocEd b).2.pool := by
      rw [← taken]
      exact congrArg (·.pool) initial
    rw [pool] at grew
    have first : added.links = (s.allocEd b).2.links := by
      rw [initial, ← taken]
      exact links_setEd fun _ => rfl
    rw [first] at links
    rw [taken] at links none ⊢
    rw [same, memOut_new none grew links, allocEd_hwPipe, Function.update_eq_self_iff]
    exact ⟨fun same => Or.inr same.symm, fun holds => (holds.resolve_left none).symm⟩
  · have old : isNewED = false := decide_eq_false new
    have taken : ed = (listed, s) := by
      unfold ed
      rw [old, if_neg Bool.false_ne_true]
    have initial : added = ed.2 := by
      unfold added
      rw [old, if_neg Bool.false_ne_true]
    rw [if_neg new]
    rw [taken] at ret links
    rw [if_neg new] at ret
    obtain rfl := out_of_fails ret fails
    have pool : begun.pool = s.pool := (congrArg (·.pool) initial).trans (by rw [taken])
    rw [pool] at grew
    rw [initial, taken] at links
    rw [same, memOut_old grew links, Function.update_eq_self_iff]
    have idle : ¬(s.eds listed).headP &&& ~~~0xf ≠ (s.eds listed).tailP &&& ~~~0xf :=
      fun more => busy ⟨new, more⟩
    exact ⟨fun both => Or.inr ⟨both.1, both.2.symm⟩,
      fun holds => (holds.resolve_left idle).imp id Eq.symm⟩

theorem Unchanged.freeTd {r : Ohci} {td : U32} (back : r.Unchanged b t)
    (grew : b.Grew s.pool.used r.pool.used [td]) (links : r.links = s.links) :
    s.Unchanged b (t.freeTd b td) := by
  refine ⟨?_, ?_, ?_, ?_, ?_, ?_⟩
  · refine grew.back [td] ?_ fun _ _ => Iff.rfl
    intro i inside
    rw [freeTd_used inside, back.used i inside]
    simp
  · intro a taken
    rw [← links]
    exact back.nextED a (taken.grew grew)
  · exact back.hwPipe.trans (congrArg OhciLinks.hwPipe links)
  · exact back.hcControlHeadED.trans (congrArg OhciLinks.hcControlHeadED links)
  · exact back.hcBulkHeadED.trans (congrArg OhciLinks.hcBulkHeadED links)
  · exact back.ied.trans (congrArg OhciLinks.ied links)

theorem intXfer_fails (ret : s.intXfer b turns utr = some (t, err)) (fails : err < 0) :
    s.Unchanged b t ↔ OhciCall.int.Restores b turns s utr := by
  unfold intXfer at ret
  unfold OhciCall.Restores
  dsimp only at ret ⊢
  generalize s.utrs utr = u at ret ⊢
  by_cases long : u.dataLen > 64
  · rw [if_pos long] at ret
    cases ret
    exact iff_of_true .refl (Or.inl long)
  rw [if_neg long] at ret
  by_cases none : (s.allocTd b utr).1 = 0
  · rw [if_pos none] at ret
    cases ret
    exact iff_of_true (allocTd_refused none) (Or.inr (Or.inl none))
  rw [if_neg none] at ret
  have first : b.Grew s.pool.used (s.allocTd b utr).2.pool.used (got (s.allocTd b utr).1) :=
    allocTd_grew
  rw [got_of_ne none] at first
  have links : (s.allocTd b utr).2.links = s.links := allocTd_links
  obtain ⟨listed, -, ret⟩ := Option.bind_eq_some_iff.mp ret
  by_cases new : listed = 0
  · rw [if_pos new] at ret
    by_cases refused : ((s.allocTd b utr).2.allocEd b).1 = 0
    · rw [if_pos refused] at ret
      obtain ⟨used, -⟩ := allocEd_refused refused
      generalize s.allocTd b utr = tdNew at *
      cases ret
      refine iff_of_false ?_ ?_
      · intro unchanged
        obtain ⟨i, inside, free, same⟩ := first.fresh tdNew.1 List.mem_cons_self
        have kept := unchanged.used i inside
        rw [used i inside, first.used i inside, free, ← same] at kept
        simp at kept
      · rintro (more | zero | granted)
        · exact long more
        · exact none zero
        · exact granted refused
    · rw [if_neg refused] at ret
      refine iff_of_true ?_ (Or.inr (Or.inr refused))
      have dummy : ∀ r : Ohci, r.pool = ((s.allocTd b utr).2.allocEd b).2.pool →
          r.links = ((s.allocTd b utr).2.allocEd b).2.links → (r.allocTd b 0).1 = 0 →
          s.Unchanged b (((r.allocTd b 0).2.freeEd b ((s.allocTd b utr).2.allocEd b).1).freeTd b
            (s.allocTd b utr).1) := by
        intro r pool same last
        have grew : b.Grew r.pool.used (r.allocTd b 0).2.pool.used (got (r.allocTd b 0).1) :=
          allocTd_grew
        rw [last, got_zero, pool] at grew
        have linksEd : (r.allocTd b 0).2.links = { ((s.allocTd b utr).2.allocEd b).2.links with
            hwPipe := ((s.allocTd b utr).2.allocEd b).2.links.hwPipe } := allocTd_links.trans same
        have back := (memOut_new refused grew linksEd).mpr allocEd_hwPipe
        exact back.freeTd first links
      split_ifs at ret with last
      · cases ret
        exact dummy _ rfl (links_setEd fun _ => rfl) last
      · cases ret
        cases fails
  · rw [if_neg new] at ret
    split_ifs at ret
    cases ret
    cases fails

theorem isoXfer_fails (ret : s.isoXfer b turns utr = some (t, err)) (fails : err < 0) :
    s.Unchanged b t ↔ OhciCall.iso.Restores b turns s utr := by
  unfold isoXfer at ret
  unfold OhciCall.Restores
  dsimp only at ret ⊢
  obtain ⟨listed, found, ret⟩ := Option.bind_eq_some_iff.mp ret
  generalize s.utrs utr = u at ret found ⊢
  rw [found]
  simp only [Option.some.injEq, forall_eq']
  by_cases new : listed = 0
  · refine iff_of_true ?_ (Or.inl new)
    rw [decide_eq_true new, if_pos rfl] at ret
    by_cases none : (s.allocEd b).1 = 0
    · rw [if_pos none] at ret
      cases ret
      obtain ⟨used, links⟩ := allocEd_refused none
      exact .of_eq used links
    · rw [if_neg none, if_pos rfl] at ret
      generalize filled : isoTds b utr (s.allocEd b).1 ifPerUtr 0 [] _ = out at ret
      obtain ⟨tds, same, grew, links⟩ := isoTds_grew filled
      rw [List.nil_append] at same
      obtain rfl := out_of_fails ret fails
      rw [beginIso_pool] at grew
      rw [beginIso_links] at links
      have piped : out.1.links = { (s.allocEd b).2.links with
          hwPipe := (s.allocEd b).2.links.hwPipe } := by
        refine links.trans ?_
        exact links_setEd fun _ => rfl
      rw [same]
      exact (memOut_new none grew piped).mpr allocEd_hwPipe
  · rw [decide_eq_false new, if_neg Bool.false_ne_true] at ret
    rw [if_neg new, if_neg Bool.false_ne_true] at ret
    generalize filled : isoTds b utr listed ifPerUtr 0 [] _ = out at ret
    obtain ⟨tds, same, grew, links⟩ := isoTds_grew filled
    rw [List.nil_append] at same
    obtain rfl := out_of_fails ret fails
    rw [beginIso_pool] at grew
    rw [beginIso_links, links_setPipe rfl] at links
    have taken : b.Grew s.pool.used out.1.pool.used tds := grew
    have piped : out.1.links = { s.links with
        hwPipe := Function.update s.links.hwPipe u.ep listed } := links
    rw [same, memOut_old taken piped, Function.update_eq_self_iff]
    exact ⟨fun both => Or.inr ⟨both.1, both.2.symm⟩,
      fun holds => (holds.resolve_left new).imp id Eq.symm⟩

end Calls

end Ohci

/-- A submission that fails leaves the units, the lists and the pipes as they were exactly where
`OhciCall.Restores` says. -/
theorem ohci_submit_restores_iff {b : UnitBase} {turns : Nat} {s t : Ohci} {utr : U32} {err : Int}
    {call : OhciCall} (ret : call.run b turns s utr = some (t, err)) (fails : err < 0) :
    s.Unchanged b t ↔ call.Restores b turns s utr := by
  cases call with
  | ctrl => exact iff_of_true (Ohci.ctrlXfer_fails ret fails) trivial
  | bulk => exact Ohci.bulkXfer_fails ret fails
  | int => exact Ohci.intXfer_fails ret fails
  | iso => exact Ohci.isoXfer_fails ret fails

/-- A full pool, and an idle bulk endpoint whose descriptor, in unit 1, is in the bulk list. -/
def fullPoolOhci : Ohci where
  pool := ⟨fun _ => true, 64, 0⟩
  refuse := []
  eds := fun _ => ⟨edMakeInfo ⟨64, [], 1, 1, .full, 0x20000100⟩ (some ⟨0x02, 2, 0, 0, 64, 0x1100⟩),
    0, [], 0, 0, 0, 0⟩
  tds := fun _ => ⟨0, 0, 0, 0, 0, 0, 0⟩
  eps := fun _ => ⟨0x02, 2, 0, 0, 64, 0x1100⟩
  udevs := fun _ => ⟨64, [], 1, 1, .full, 0x20000100⟩
  utrs := fun _ =>
    ⟨0x20000000, 0, 0x20000200, 0x20001000, false, 512, 0, false, 0, 0, 0, 0, 0, 0⟩
  hcControlHeadED := 0
  hcBulkHeadED := 0x1100
  hcControl := 0
  ied := fun _ => 0x20000300
  frameNo := 0
  edRemoveList := []
  called := []

/-- A control transfer without descriptors leaves the state as it was. -/
theorem ctrlTransfer_restores : ∃ t,
    OhciCall.ctrl.run unitBaseAt 65 fullPoolOhci 0x20002000 = some (t, usbhErrMemoryOut) ∧
      fullPoolOhci.Unchanged unitBaseAt t := by
  have ends : (OhciCall.ctrl.run unitBaseAt 65 fullPoolOhci 0x20002000).map Prod.snd =
      some usbhErrMemoryOut := by decide
  obtain ⟨⟨t, err⟩, ret, rfl⟩ := Option.map_eq_some_iff.mp ends
  exact ⟨t, ret, (ohci_submit_restores_iff ret (by decide)).mpr trivial⟩

/-- A bulk transfer without descriptors frees the endpoint's descriptor, which stays in the list. -/
theorem listedEd_freed : ∃ t,
    OhciCall.bulk.run unitBaseAt 65 fullPoolOhci 0x20002000 = some (t, usbhErrMemoryOut) ∧
      t.hcBulkHeadED = unitBaseAt.addr 1 ∧ t.pool.used 1 = false ∧
      ¬fullPoolOhci.Unchanged unitBaseAt t := by
  have ends : (OhciCall.bulk.run unitBaseAt 65 fullPoolOhci 0x20002000).map
      (fun out => (out.2, out.1.hcBulkHeadED, out.1.pool.used 1)) =
      some (usbhErrMemoryOut, unitBaseAt.addr 1, false) := by decide +kernel
  obtain ⟨⟨t, err⟩, ret, same⟩ := Option.map_eq_some_iff.mp ends
  obtain ⟨rfl, rest⟩ := Prod.mk.inj same
  obtain ⟨head, free⟩ := Prod.mk.inj rest
  refine ⟨t, ret, head, free, ?_⟩
  intro unchanged
  have taken : fullPoolOhci.pool.used 1 = true := rfl
  rw [← unchanged.used 1 (by decide), free] at taken
  cases taken

end NuMakerMA35
