import NuMakerMA35.OhciAtomic

namespace NuMakerMA35

namespace Ohci

/-- What is left of `s` where descriptors were taken for a transfer. -/
structure Took (b : UnitBase) (s t : Ohci) (utr : U32) (new : List U32) : Prop where
  rest : t = { s with toUnitSource := t.toUnitSource, tds := t.tds }
  grew : b.Grew s.pool.used t.pool.used new
  others : ∀ a, a ∉ new → t.tds a = s.tds a
  own : ∀ a ∈ new, (t.tds a).utr = utr
  nodup : new.Nodup

/-- What `ohci_ctrl_xfer` has done where it accepts a transfer: the endpoint descriptor is the pipe or
a new one, and its list is that of the transfer's new descriptors. -/
structure CtrlAccepted (b : UnitBase) (s t : Ohci) (utr ep0 ed : U32) (tds : List U32) : Prop where
  head : t.hcControlHeadED = ed
  edSome : ed ≠ 0
  edOld : (s.eps ep0).hwPipe ≠ 0 → ed = (s.eps ep0).hwPipe
  edNew : (s.eps ep0).hwPipe = 0 →
    b.Fresh s.pool.used ed ∧ b.InUse t.pool.used ed ∧ ed ∉ tds
  linked : (t.eds ed).tds = tds ∧ (t.eds ed).nextED = 0
  info : ∃ d : Udev, d.devNum = (s.udevs (s.utrs utr).udev).devNum ∧
    (t.eds ed).info = edMakeInfo d none
  edsOld : ∀ a ≠ ed, t.eds a = s.eds a
  fresh : ∀ td ∈ tds, b.Fresh s.pool.used td ∧ b.InUse t.pool.used td ∧ (t.tds td).utr = utr
  nodup : tds.Nodup
  some : tds ≠ []
  used : ∀ a, b.InUse s.pool.used a → b.InUse t.pool.used a
  tdsOld : ∀ a, b.InUse s.pool.used a → (t.tds a).utr = (s.tds a).utr
  count : (t.utrs utr).tdCnt = tds.length
  counts : ∀ u ≠ utr, (t.utrs u).tdCnt = (s.utrs u).tdCnt
  called : t.called = s.called
  edRemoveList : t.edRemoveList = s.edRemoveList
  ep0s : ∀ d, (t.udevs d).ep0 = (s.udevs d).ep0
  pipe : (t.eps ep0).hwPipe = ed
  pipes : ∀ a ≠ ep0, (t.eps a).hwPipe = (s.eps a).hwPipe

/-- The allocator has the status descriptor, the last one of a transfer, and where the endpoint has no
pipe the endpoint descriptor. -/
def CtrlGranted (b : UnitBase) (s : Ohci) (utr : U32) : Prop :=
  let setup := s.allocTd b utr
  let data := setup.2.allocDataTd b utr
  let status := data.2.allocTd b utr
  status.1 ≠ 0 ∧ (status.2.pipeEd b (s.udevs (s.utrs utr).udev).ep0).1 ≠ 0

/-- Where it refuses a transfer nothing in use has changed. -/
structure CtrlRefused (b : UnitBase) (s t : Ohci) : Prop where
  rest : t = { s with toUnitSource := t.toUnitSource, tds := t.tds }
  tds : ∀ a, b.InUse s.pool.used a → t.tds a = s.tds a

section Allocations

variable {b : UnitBase} {s t r : Ohci} {utr : U32} {new later : List U32} {err : Int}

theorem Took.used (took : Took b s t utr new) (a : U32) (inUse : b.InUse s.pool.used a) :
    a ∉ new ∧ b.InUse t.pool.used a :=
  ⟨fun mem => inUse.not_fresh (took.grew.fresh a mem), inUse.grew took.grew⟩

theorem Took.fresh (took : Took b s t utr new) {a : U32} (fresh : b.Fresh t.pool.used a) :
    b.Fresh s.pool.used a ∧ a ∉ new := by
  refine ⟨?_, fun mem => (took.grew.inUse mem).not_fresh fresh⟩
  obtain ⟨i, inside, free, rfl⟩ := fresh
  rw [took.grew.used i inside, Bool.or_eq_false_iff] at free
  exact ⟨i, inside, free.1, rfl⟩

theorem Took.trans (first : Took b s t utr new) (second : Took b t r utr later) :
    Took b s r utr (new ++ later) := by
  have apart : ∀ a ∈ new, a ∉ later := fun a mem =>
    (second.used a (first.grew.inUse mem)).1
  refine ⟨?_, first.grew.trans second.grew, ?_, ?_, ?_⟩
  · rw [second.rest, first.rest]
  · intro a none
    rw [List.mem_append, not_or] at none
    rw [second.others a none.2, first.others a none.1]
  · intro a mem
    rcases List.mem_append.mp mem with old | now
    · rw [second.others a (apart a old), first.own a old]
    · exact second.own a now
  · exact first.nodup.append second.nodup apart

theorem allocTd_took : Took b s (s.allocTd b utr).2 utr (got (s.allocTd b utr).1) := by
  refine ⟨?_, allocTd_grew, ?_, ?_, ?_⟩
  · unfold allocTd
    dsimp only
    split_ifs <;> rfl
  · intro a none
    unfold allocTd at none ⊢
    dsimp only at none ⊢
    split_ifs at none ⊢ with refused
    · rfl
    · rw [got_of_ne refused, List.mem_singleton] at none
      exact Function.update_of_ne none _ _
  · intro a mem
    obtain ⟨rfl, granted⟩ := mem_got.mp mem
    unfold allocTd at granted ⊢
    dsimp only at granted ⊢
    split_ifs at granted ⊢ with refused
    · exact absurd refused granted
    · unfold setTd
      dsimp only
      rw [Function.update_self]
  · unfold got
    split_ifs
    · exact List.nodup_nil
    · exact List.nodup_singleton _

theorem allocDataTd_took :
    Took b s (s.allocDataTd b utr).2 utr (got (s.allocDataTd b utr).1) := by
  unfold allocDataTd
  split_ifs
  · exact allocTd_took
  · refine ⟨rfl, .none fun _ _ => rfl, fun _ _ => rfl, ?_, List.nodup_nil⟩
    intro a mem
    exact absurd mem List.not_mem_nil

/-- The endpoint descriptor is the pipe, or a new one where there is none. -/
structure PipeTaken (b : UnitBase) (s t : Ohci) (pipe ed : U32) : Prop where
  rest : t = { s with toUnitSource := t.toUnitSource, eds := t.eds }
  others : ∀ a ≠ ed, t.eds a = s.eds a
  old : pipe ≠ 0 → ed = pipe
  new : pipe = 0 → b.Fresh s.pool.used ed ∧ b.InUse t.pool.used ed
  used : ∀ a, b.InUse s.pool.used a → b.InUse t.pool.used a

theorem pipeEd_taken {ep : U32} (granted : (s.pipeEd b ep).1 ≠ 0) :
    PipeTaken b s (s.pipeEd b ep).2 (s.eps ep).hwPipe (s.pipeEd b ep).1 := by
  unfold pipeEd at granted ⊢
  split_ifs at granted ⊢ with none
  · have grew : b.Grew s.pool.used (s.allocEd b).2.pool.used (got (s.allocEd b).1) := allocEd_grew
    rw [got_of_ne granted] at grew
    refine ⟨?_, ?_, fun some => absurd none some, fun _ => ?_, fun a inUse => inUse.grew grew⟩
    · unfold allocEd
      dsimp only
      split_ifs <;> rfl
    · intro a other
      unfold allocEd at granted other ⊢
      dsimp only at granted other ⊢
      split_ifs at granted other ⊢ with refused
      · exact absurd refused granted
      · exact Function.update_of_ne other _ _
    · exact ⟨grew.fresh _ (List.mem_singleton_self _), grew.inUse (List.mem_singleton_self _)⟩
  · exact ⟨rfl, fun _ _ => rfl, fun _ => rfl, fun zero => absurd zero none, fun _ inUse => inUse⟩

theorem pipeEd_none {ep : U32} (refused : (s.pipeEd b ep).1 = 0) :
    (s.pipeEd b ep).2 = { s with toUnitSource := (s.pipeEd b ep).2.toUnitSource } := by
  unfold pipeEd at refused ⊢
  split_ifs at refused ⊢ with new
  · unfold allocEd at refused ⊢
    dsimp only at refused ⊢
    split_ifs at refused ⊢ with none
    · rfl
    · exact absurd refused none
  · exact absurd refused new

theorem Took.refused (took : Took b s t utr new)
    (back : r = { t with toUnitSource := r.toUnitSource }) : CtrlRefused b s r := by
  refine ⟨?_, fun a inUse => ?_⟩
  · rw [back, took.rest]
  · rw [back]
    exact took.others a (took.used a inUse).1

end Allocations

section Stages

variable {q : Ohci} {utr udev ed setup data status a : U32} {f : Ed → Ed}

theorem setEd_ne (other : a ≠ ed) : (q.setEd ed f).eds a = q.eds a :=
  Function.update_of_ne other _ _

theorem setEd_self : (q.setEd ed f).eds ed = f (q.eds ed) := Function.update_self _ _ _

theorem makeCtrlInfo_ne (other : a ≠ ed) : (q.makeCtrlInfo udev ed).eds a = q.eds a :=
  Function.update_of_ne other _ _

theorem makeCtrlInfo_device (q : Ohci) (udev ed d : U32) :
    ((q.makeCtrlInfo udev ed).udevs d).ep0 = (q.udevs d).ep0 ∧
      ((q.makeCtrlInfo udev ed).udevs d).devNum = (q.udevs d).devNum := by
  unfold makeCtrlInfo
  dsimp only [setEd]
  by_cases here : d = udev
  · rw [here, Function.update_self]
    split_ifs <;> exact ⟨rfl, rfl⟩
  · rw [Function.update_of_ne here]
    exact ⟨rfl, rfl⟩

theorem makeCtrlInfo_self (q : Ohci) (udev ed : U32) : (q.makeCtrlInfo udev ed).eds ed =
    { q.eds ed with info := edMakeInfo ((q.makeCtrlInfo udev ed).udevs udev) none } := by
  unfold makeCtrlInfo
  dsimp only [setEd]
  rw [Function.update_self, Function.update_self]

theorem setTd_ed_utr (q : Ohci) (td ed a : U32) :
    ((q.setTd td fun d => { d with ed := ed }).tds a).utr = (q.tds a).utr := by
  unfold setTd
  dsimp only
  by_cases here : a = td
  · rw [here, Function.update_self]
  · rw [Function.update_of_ne here]

theorem writeTd_utr (q : Ohci) (td info buff len a : U32) :
    ((q.writeTd td info buff len).tds a).utr = (q.tds a).utr := by
  unfold writeTd setTd
  dsimp only
  by_cases here : a = td
  · rw [here, Function.update_self]
  · rw [Function.update_of_ne here]

theorem ctrlStages_rest (q : Ohci) (utr ed setup data status : U32) :
    let t := q.ctrlStages utr ed setup data status
    t.toUnitSource = q.toUnitSource ∧ t.called = q.called ∧ t.edRemoveList = q.edRemoveList := by
  unfold ctrlStages
  dsimp only [setEp, setUtr, setEd, makeCtrlInfo, setTd, writeTd]
  split_ifs <;> exact ⟨rfl, rfl, rfl⟩

theorem ctrlStages_ne (other : a ≠ ed) :
    (q.ctrlStages utr ed setup data status).eds a = q.eds a := by
  unfold ctrlStages
  dsimp only [setEp, setUtr]
  rw [setEd_ne other, makeCtrlInfo_ne other, setEd_ne other]
  dsimp only [setTd, writeTd]
  rw [makeCtrlInfo_ne other]
  split_ifs <;> rfl

theorem ctrlStages_utr (q : Ohci) (utr ed setup data status a : U32) :
    ((q.ctrlStages utr ed setup data status).tds a).utr = (q.tds a).utr := by
  unfold ctrlStages
  dsimp only [setEp, setUtr, setEd, makeCtrlInfo]
  rw [setTd_ed_utr, writeTd_utr]
  dsimp only
  split_ifs <;> simp only [setTd_ed_utr, writeTd_utr]

theorem ctrlStages_device (q : Ohci) (utr ed setup data status d : U32) :
    ((q.ctrlStages utr ed setup data status).udevs d).ep0 = (q.udevs d).ep0 := by
  unfold ctrlStages
  dsimp only [setEp, setUtr, setEd]
  rw [(makeCtrlInfo_device _ _ _ _).1]
  dsimp only [setTd, writeTd]
  rw [(makeCtrlInfo_device _ _ _ _).1]
  split_ifs <;> rfl

theorem ctrlStages_self (q : Ohci) (utr ed setup data status : U32) :
    let e := (q.ctrlStages utr ed setup data status).eds ed
    e.tds = (if (q.utrs utr).dataLen > 0 then [setup, data, status] else [setup, status]) ∧
      e.nextED = 0 ∧ ∃ d : Udev, d.devNum = (q.udevs (q.utrs utr).udev).devNum ∧
        e.info = edMakeInfo d none := by
  unfold ctrlStages
  dsimp only [setEp, setUtr]
  rw [setEd_self, makeCtrlInfo_self, setEd_self]
  refine ⟨rfl, rfl, _, ?_, rfl⟩
  rw [(makeCtrlInfo_device _ _ _ _).2]
  dsimp only [setEd, setTd, writeTd]
  rw [(makeCtrlInfo_device _ _ _ _).2]
  split_ifs <;> rfl

theorem ctrlStages_count (q : Ohci) (utr ed setup data status : U32) :
    let t := q.ctrlStages utr ed setup data status
    (t.utrs utr).tdCnt = (if (q.utrs utr).dataLen > 0 then 3 else 2) ∧
      ∀ u ≠ utr, t.utrs u = q.utrs u := by
  unfold ctrlStages
  dsimp only [setEp, setUtr]
  constructor
  · rw [Function.update_self]
    dsimp only [setEd, makeCtrlInfo, setTd, writeTd]
    by_cases some : (q.utrs utr).dataLen > 0
    · simp only [if_pos some]
    · simp only [if_neg some]
  · intro u other
    rw [Function.update_of_ne other]
    dsimp only [setEd, makeCtrlInfo, setTd, writeTd]
    split_ifs <;> rfl

theorem ctrlStages_pipe (q : Ohci) (utr ed setup data status : U32) :
    let t := q.ctrlStages utr ed setup data status
    (t.eps (q.udevs (q.utrs utr).udev).ep0).hwPipe = ed ∧
      ∀ a ≠ (q.udevs (q.utrs utr).udev).ep0, t.eps a = q.eps a := by
  unfold ctrlStages
  dsimp only [setEp, setUtr]
  constructor
  · rw [Function.update_self]
  · intro a other
    rw [Function.update_of_ne other]
    dsimp only [setEd, makeCtrlInfo, setTd, writeTd]
    split_ifs <;> rfl

theorem edMakeInfo_control {d : Udev} (short : d.devNum.toNat < 128) :
    edMakeInfo d none &&& edEpAddrMsk = 0 := by
  have size : ∀ x : BitVec 8, (x.setWidth 32 <<< 16 : U32) &&& edEpAddrMsk = 0 := by decide
  have number : ∀ x : BitVec 8, x.toNat < 128 → (x.setWidth 32 : U32) &&& edEpAddrMsk = 0 := by
    decide
  have speed : (if d.speed = .low then edSpeedLow else edSpeedFull) &&& edEpAddrMsk = 0 := by
    split_ifs <;> decide
  unfold edMakeInfo
  dsimp only
  rw [BitVec.and_or_distrib_right, BitVec.and_or_distrib_right, speed, number _ short,
    BitVec.and_or_distrib_right, BitVec.and_or_distrib_right, BitVec.and_or_distrib_right, size]
  decide

end Stages

section Submission

variable {b : UnitBase} {s t : Ohci} {utr : U32} {err : Int}

theorem got_stages {len setup data status : U32} (setupSome : setup ≠ 0)
    (dataSome : len > 0 → data ≠ 0) (dataNone : ¬len > 0 → data = 0) (statusSome : status ≠ 0) :
    got setup ++ got data ++ got status =
      if len > 0 then [setup, data, status] else [setup, status] := by
  rw [got_of_ne setupSome, got_of_ne statusSome]
  split_ifs with some
  · rw [got_of_ne (dataSome some)]
    rfl
  · rw [dataNone some, got_zero]
    rfl

theorem ctrlXfer_granted (ret : s.ctrlXfer b utr = some (t, err)) :
    err = 0 ↔ s.CtrlGranted b utr := by
  unfold ctrlXfer at ret
  unfold CtrlGranted
  dsimp only at ret ⊢
  generalize s.allocTd b utr = setup at ret ⊢
  generalize setup.2.allocDataTd b utr = data at ret ⊢
  generalize data.2.allocTd b utr = status at ret ⊢
  generalize status.2.pipeEd b (s.udevs (s.utrs utr).udev).ep0 = ed at ret ⊢
  by_cases noStatus : status.1 = 0
  · rw [if_pos noStatus] at ret
    cases ret
    exact iff_of_false (by decide) fun granted => granted.1 noStatus
  rw [if_neg noStatus] at ret
  by_cases noEd : ed.1 = 0
  · rw [if_pos noEd] at ret
    cases ret
    exact iff_of_false (by decide) fun granted => granted.2 noEd
  rw [if_neg noEd] at ret
  split_ifs at ret
  cases ret
  exact iff_of_true rfl ⟨noStatus, noEd⟩

theorem ctrlXfer_cases (ret : s.ctrlXfer b utr = some (t, err)) :
    (err = 0 ∧ ∃ ed tds, CtrlAccepted b s t utr (s.udevs (s.utrs utr).udev).ep0 ed tds) ∨
      (err = usbhErrMemoryOut ∧ CtrlRefused b s t) := by
  unfold ctrlXfer at ret
  dsimp only at ret
  have first : Took b s (s.allocTd b utr).2 utr (got (s.allocTd b utr).1) := allocTd_took
  generalize s.allocTd b utr = setup at ret first
  have second : Took b setup.2 (setup.2.allocDataTd b utr).2 utr
      (got (setup.2.allocDataTd b utr).1) := allocDataTd_took
  have unwanted : ¬(s.utrs utr).dataLen > 0 → (setup.2.allocDataTd b utr).1 = 0 := by
    intro none
    unfold allocDataTd
    rw [first.rest, if_neg none]
  generalize setup.2.allocDataTd b utr = data at ret second unwanted
  have third : Took b data.2 (data.2.allocTd b utr).2 utr (got (data.2.allocTd b utr).1) :=
    allocTd_took
  generalize data.2.allocTd b utr = status at ret third
  have took := (first.trans second).trans third
  by_cases statusNone : status.1 = 0
  · rw [if_pos statusNone] at ret
    cases ret
    refine Or.inr ⟨rfl, took.refused ?_⟩
    split_ifs <;> rfl
  rw [if_neg statusNone] at ret
  have pipe : ∀ granted : (status.2.pipeEd b (s.udevs (s.utrs utr).udev).ep0).1 ≠ 0, _ :=
    fun granted => pipeEd_taken granted
  have none : ∀ refused : (status.2.pipeEd b (s.udevs (s.utrs utr).udev).ep0).1 = 0, _ :=
    fun refused => pipeEd_none refused
  generalize status.2.pipeEd b (s.udevs (s.utrs utr).udev).ep0 = ed at ret pipe none
  by_cases edNone : ed.1 = 0
  · rw [if_pos edNone] at ret
    cases ret
    refine Or.inr ⟨rfl, took.refused ?_⟩
    obtain ⟨units, same⟩ : ∃ units, ed.2 = { status.2 with toUnitSource := units } :=
      ⟨_, none edNone⟩
    rw [same]
    split_ifs <;> rfl
  rw [if_neg edNone] at ret
  have pipe := pipe edNone
  by_cases lost : setup.1 = 0 ∨ (s.utrs utr).dataLen > 0 ∧ data.1 = 0
  · rw [if_pos lost] at ret
    cases ret
  rw [if_neg lost] at ret
  obtain ⟨setupSome, dataSome⟩ := not_or.mp lost
  have stages := got_stages setupSome (fun some none => dataSome ⟨some, none⟩) unwanted statusNone
  rw [stages] at took
  have rest : ed.2 = { s with
      toUnitSource := ed.2.toUnitSource, tds := status.2.tds, eds := ed.2.eds } := by
    rw [pipe.rest, took.rest]
  have eps : status.2.eps = s.eps := by rw [took.rest]
  have eds : status.2.eds = s.eds := by rw [took.rest]
  have utrs : ed.2.utrs = s.utrs := by rw [rest]
  have udevs : ed.2.udevs = s.udevs := by rw [rest]
  have tds : ed.2.tds = status.2.tds := by rw [rest]
  rw [eps] at pipe
  cases ret
  obtain ⟨pool, called, removing⟩ := ctrlStages_rest ed.2 utr ed.1 setup.1 data.1 status.1
  obtain ⟨linked, nextED, device, number, info⟩ :=
    ctrlStages_self ed.2 utr ed.1 setup.1 data.1 status.1
  obtain ⟨count, counts⟩ := ctrlStages_count ed.2 utr ed.1 setup.1 data.1 status.1
  obtain ⟨piped, pipes⟩ := ctrlStages_pipe ed.2 utr ed.1 setup.1 data.1 status.1
  rw [utrs] at linked count counts piped pipes number
  rw [udevs] at piped pipes number
  refine Or.inl ⟨rfl, ed.1, if (s.utrs utr).dataLen > 0 then [setup.1, data.1, status.1] else
    [setup.1, status.1], ?_⟩
  constructor
  case head => rfl
  case edSome => exact edNone
  case edOld => exact pipe.old
  case edNew =>
    intro none
    obtain ⟨fresh, inUse⟩ := pipe.new none
    obtain ⟨free, apart⟩ := took.fresh fresh
    exact ⟨free, by rwa [pool], apart⟩
  case linked => exact ⟨linked, nextED⟩
  case info => exact ⟨device, number, info⟩
  case edsOld =>
    intro a other
    rw [ctrlStages_ne other, pipe.others a other, eds]
  case fresh =>
    intro td mem
    refine ⟨took.grew.fresh td mem, ?_, ?_⟩
    · rw [pool]
      exact pipe.used td (took.grew.inUse mem)
    · rw [ctrlStages_utr, tds]
      exact took.own td mem
  case nodup => exact took.nodup
  case some => split_ifs <;> exact List.cons_ne_nil _ _
  case used =>
    intro a inUse
    rw [pool]
    exact pipe.used a (took.used a inUse).2
  case tdsOld =>
    intro a inUse
    rw [ctrlStages_utr, tds, took.others a (took.used a inUse).1]
  case count =>
    rw [count]
    split_ifs <;> rfl
  case counts =>
    intro u other
    rw [counts u other]
  case called => rw [called, rest]
  case edRemoveList => rw [removing, rest]
  case ep0s =>
    intro d
    rw [ctrlStages_device, udevs]
  case pipe => exact piped
  case pipes =>
    intro a other
    rw [pipes a other, rest]

end Submission

end Ohci

end NuMakerMA35
