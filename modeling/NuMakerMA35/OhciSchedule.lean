import NuMakerMA35.OhciRemove
import NuMakerMA35.IntervalTree
import NuMakerMA35.Runs

namespace NuMakerMA35

open Linked IntervalTree

def numIed : Nat := 6
def intTableSize : Nat := 32

/-- The links of the endpoint descriptors with what tells their lists apart, the table that the controller
enters them by, and those to be removed; `freed` are those given back to the pool. -/
structure EdLists where
  nextED : U32 → U32
  info : U32 → U32
  bInterval : U32 → BitVec 8
  intTable : Nat → U32
  ied : Nat → U32
  hcControlHeadED : U32
  hcBulkHeadED : U32
  edRemoveList : List U32
  freed : List U32

namespace EdLists

/-- `init_hcca_int_table`, with the units that `alloc_ohci_ED` finds. -/
def initHccaIntTable (alloc : Nat → U32) (turns : Nat) (s : EdLists) : Option EdLists :=
  (build 0 turns intTableSize alloc numIed ⟨s.nextED, fun _ => 0, s.ied⟩).map fun t =>
    { s with
      nextED := t.next
      intTable := t.table
      ied := t.head
      info := fun a => if ∃ i < numIed, a = alloc i then edSkip else s.info a }

def ohciInit (alloc : Nat → U32) (turns : Nat) (s : EdLists) : Option EdLists :=
  (s.initHccaIntTable alloc turns).map fun s =>
    { s with hcControlHeadED := 0, hcBulkHeadED := 0, edRemoveList := [], freed := [] }

/-- `get_int_tree_head_node`, as an index. -/
def edLevel (interval : Nat) : Nat :=
  match (List.range (numIed - 1)).find? fun i => interval / 2 ^ (i + 1) = 0 with
  | some i => i
  | none => numIed - 1

/-- What `alloc_ohci_ED` and the submissions write to a new descriptor. -/
def makeEd (s : EdLists) (ed info : U32) (bInterval : BitVec 8) : EdLists :=
  { s with
    nextED := Function.update s.nextED ed 0
    info := Function.update s.info ed info
    bInterval := Function.update s.bInterval ed bInterval }

def linkInt (s : EdLists) (ied ed : U32) : EdLists :=
  { s with nextED := Function.update (Function.update s.nextED ed (s.nextED ied)) ied ed }

def linkBulk (s : EdLists) (ed : U32) : EdLists :=
  { s with nextED := Function.update s.nextED ed s.hcBulkHeadED, hcBulkHeadED := ed }

/-- `add_to_ED_remove_list`: the descriptor stays linked, for the controller to skip. -/
def addToEdRemoveList (s : EdLists) (ed : U32) : EdLists :=
  if ed ∈ s.edRemoveList then s
  else
    { s with info := Function.update s.info ed (s.info ed ||| edSkip), edRemoveList := ed :: s.edRemoveList }

def unlink (turns : Nat) (s : EdLists) (gone : U32) (goesOn : Bool) (ed : U32) : Option (EdLists × Bool) :=
  (Linked.unlink 0 gone goesOn turns s.nextED ed).map fun r => ({ s with nextED := r.1 }, r.2)

def unlinkEd (turns : Nat) (s : EdLists) (ed : U32) : Option (EdLists × Bool) :=
  if s.info ed &&& edEpAddrMsk = 0 then
    if s.hcControlHeadED = ed then some ({ s with hcControlHeadED := s.nextED ed }, true)
    else s.unlink turns ed true s.hcControlHeadED
  else if (s.bInterval ed).toNat > 0 then s.unlink turns ed false (s.ied (edLevel (s.bInterval ed).toNat))
  else if s.hcBulkHeadED = ed then some ({ s with hcBulkHeadED := s.nextED ed }, true)
  else s.unlink turns ed true s.hcBulkHeadED

def removeTurn (turns : Nat) (s : EdLists) (ed : U32) : Option EdLists :=
  (s.unlinkEd turns ed).map fun r =>
    { r.1 with edRemoveList := r.1.edRemoveList.tail, freed := r.1.freed ++ [ed] }

def removeEd (turns : Nat) (s : EdLists) : Option EdLists := s.edRemoveList.foldlM (removeTurn turns) s

end EdLists

/-- What happens to the lists: a submission makes a descriptor for an endpoint with an interval, or for a
bulk endpoint, a pipe is quit, and the controller starts a frame. -/
inductive EdCall where
  | openInt (bInterval : BitVec 8) (info ed : U32)
  | openBulk (info ed : U32)
  | quit (ed : U32)
  | startOfFrame

def EdLists.call (turns : Nat) (s : EdLists) : EdCall → Option EdLists
  | .openInt bInterval info ed =>
    some ((s.makeEd ed info bInterval).linkInt (s.ied (edLevel bInterval.toNat)) ed)
  | .openBulk info ed => some ((s.makeEd ed info 0).linkBulk ed)
  | .quit ed => some (s.addToEdRemoveList ed)
  | .startOfFrame => s.removeEd turns

def Ohci.lists (s : Ohci) (intTable : Nat → U32) (freed : List U32) : EdLists where
  nextED a := (s.eds a).nextED
  info a := (s.eds a).info
  bInterval a := (s.eds a).bInterval
  intTable := intTable
  ied := s.ied
  hcControlHeadED := s.hcControlHeadED
  hcBulkHeadED := s.hcBulkHeadED
  edRemoveList := s.edRemoveList
  freed := freed

namespace Ohci

variable (s : Ohci) (intTable : Nat → U32) (freed : List U32)

theorem intTreeHead_eq (interval : Nat) : s.intTreeHead interval = s.ied (EdLists.edLevel interval) := by
  unfold intTreeHead EdLists.edLevel
  rw [show numIed - 1 = 5 from rfl]
  cases (List.range 5).find? fun i => decide (interval / 2 ^ (i + 1) = 0) with
  | none => rfl
  | some i => rfl

theorem lists_setNext (a q : U32) : (s.setEd a fun e => { e with nextED := q }).lists intTable freed =
    { s.lists intTable freed with nextED := Function.update (s.lists intTable freed).nextED a q } := by
  simp only [lists, setEd, EdLists.mk.injEq, and_true]
  refine ⟨?_, ?_, ?_⟩ <;> funext x <;> simp only [Function.update_apply] <;> split_ifs with same
  · rfl
  · rfl
  · rw [same]
  · rfl
  · rw [same]
  · rfl

theorem unlink_lists (gone : U32) (goesOn : Bool) (turns : Nat) (ed : U32) :
    (unlink gone goesOn turns ed s).map (fun r => (r.1.lists intTable freed, r.2)) =
      (s.lists intTable freed).unlink turns gone goesOn ed := by
  induction turns generalizing s ed with
  | zero => rfl
  | succ turns ih =>
    have set := s.lists_setNext intTable freed ed (s.eds gone).nextED
    have next : ∀ a, (s.lists intTable freed).nextED a = (s.eds a).nextED := fun _ => rfl
    unfold unlink EdLists.unlink Linked.unlink
    simp only [next]
    split_ifs with last hit on
    · rfl
    · have rest := ih (s.setEd ed fun e => { e with nextED := (s.eds gone).nextED })
        ((s.setEd ed fun e => { e with nextED := (s.eds gone).nextED }).eds ed).nextED
      have here : ((s.setEd ed fun e => { e with nextED := (s.eds gone).nextED }).eds ed).nextED =
          (s.eds gone).nextED := by
        simp only [setEd, Function.update_self]
      rw [here, set] at rest
      have found := congrArg (Option.map fun r : EdLists × Bool => (r.1, true)) rest
      simp only [EdLists.unlink, Option.map_map] at found
      simp only [Option.map_map, here, Function.update_self]
      exact found
    · simp only [Option.map_some, set]
    · exact ih s (s.eds ed).nextED

theorem unlinkEd_lists (turns : Nat) (ed : U32) :
    (s.unlinkEd turns ed).map (fun r => (r.1.lists intTable freed, r.2)) =
      (s.lists intTable freed).unlinkEd turns ed := by
  have info : (s.lists intTable freed).info ed = (s.eds ed).info := rfl
  have bInterval : (s.lists intTable freed).bInterval ed = (s.eds ed).bInterval := rfl
  have control : (s.lists intTable freed).hcControlHeadED = s.hcControlHeadED := rfl
  have bulk : (s.lists intTable freed).hcBulkHeadED = s.hcBulkHeadED := rfl
  unfold unlinkEd EdLists.unlinkEd
  simp only [info, bInterval, control, bulk, intTreeHead_eq]
  split_ifs
  · rfl
  · exact s.unlink_lists intTable freed ed true turns s.hcControlHeadED
  · exact s.unlink_lists intTable freed ed false turns _
  · rfl
  · exact s.unlink_lists intTable freed ed true turns s.hcBulkHeadED

theorem addToEdRemoveList_lists (ed : U32) :
    (s.addToEdRemoveList ed).lists intTable freed = (s.lists intTable freed).addToEdRemoveList ed := by
  have list : (s.lists intTable freed).edRemoveList = s.edRemoveList := rfl
  unfold addToEdRemoveList EdLists.addToEdRemoveList
  simp only [list]
  split_ifs
  · rfl
  · simp only [lists, setEd, EdLists.mk.injEq, and_true]
    refine ⟨?_, ?_, ?_⟩ <;> funext x <;> simp only [Function.update_apply] <;> split_ifs with same
    · rw [same]
    · rfl
    · rfl
    · rfl
    · rw [same]
    · rfl

theorem startInt_lists (utr ied ed td tdNew : U32) :
    (s.startInt utr ied ed td tdNew true).lists intTable freed = (s.lists intTable freed).linkInt ied ed := by
  simp only [startInt, writeTd, setEp, setTd, setUtr, setEd, if_true, lists, EdLists.linkInt, EdLists.mk.injEq,
    and_true]
  refine ⟨?_, ?_, ?_⟩ <;> funext x <;> simp only [Function.update_apply] <;> split_ifs with first second <;>
    simp_all

end Ohci

theorem edMakeInfo_endpoint {d : Udev} {ep : EpInfo} (number : ep.bEndpointAddress &&& 0xf ≠ 0) :
    edMakeInfo d (some ep) &&& edEpAddrMsk ≠ 0 ∧ edMakeInfo d (some ep) &&& edSkip = 0 := by
  have field : ∀ x : BitVec 8, x &&& 0xf ≠ 0 →
      ((x &&& 0xf).setWidth 32 <<< edCtrlEnPos : U32) &&& edEpAddrMsk ≠ 0 := by decide
  have narrow : ∀ x : BitVec 8, (x.setWidth 32 : U32) &&& edSkip = 0 ∧
      ((x &&& 0xf).setWidth 32 <<< edCtrlEnPos : U32) &&& edSkip = 0 := by decide
  have size : ∀ x : BitVec 16, (x.setWidth 32 <<< 16 : U32) &&& edSkip = 0 := by
    intro x
    apply BitVec.eq_of_getLsbD_eq
    intro i inside
    rw [BitVec.getLsbD_and, BitVec.getLsbD_shiftLeft, edSkip, oneShift_getLsbD (by decide)]
    by_cases here : i = 14
    · simp [here]
    · simp [here]
  have kind : ∀ c : Prop, ∀ _ : Decidable c, (if c then edDirIn else edDirOut) &&& edSkip = 0 ∧
      (if c then edFormatIso else edFormatGeneral) &&& edSkip = 0 ∧
      (if c then edSpeedLow else edSpeedFull) &&& edSkip = 0 := by
    intro c _
    split_ifs <;> decide
  unfold edMakeInfo
  dsimp only
  constructor
  · intro zero
    simp only [BitVec.and_or_distrib_right, BitVec.ofNat_eq_ofNat, BitVec.or_eq_zero_iff] at zero
    exact field _ number zero.1.1.1.1.2
  · simp only [BitVec.and_or_distrib_right, size, narrow, kind]
    rfl

/-- The descriptors by what they are linked for; those of `removing` are linked still. -/
structure EdPlan where
  bulk : List U32
  level : Nat → List U32
  removing : List U32
  freed : List U32

namespace EdPlan

def start : EdPlan := ⟨[], fun _ => [], [], []⟩

def without (a : EdPlan) (ed : U32) : EdPlan where
  bulk := a.bulk.erase ed
  level k := (a.level k).erase ed
  removing := a.removing.erase ed
  freed := a.freed ++ [ed]

def step (a : EdPlan) : EdCall → EdPlan
  | .openInt bInterval _ ed =>
    let k := EdLists.edLevel bInterval.toNat
    { a with level := Function.update a.level k (ed :: a.level k) }
  | .openBulk _ ed => { a with bulk := ed :: a.bulk }
  | .quit ed => if ed ∈ a.removing then a else { a with removing := ed :: a.removing }
  | .startOfFrame => a.removing.foldl without a

def linked (a : EdPlan) (ied : Nat → U32) : List U32 := a.bulk ++ nodes ied a.level numIed

def Used (a : EdPlan) (ed : U32) : Prop := ed ∈ a.bulk ∨ ∃ k < numIed, ed ∈ a.level k

instance (a : EdPlan) (ed : U32) : Decidable (a.Used ed) :=
  inferInstanceAs (Decidable (ed ∈ a.bulk ∨ ∃ k < numIed, ed ∈ a.level k))

/-- A unit that is found is in no list; the endpoint has a number, and the controller is not told to skip
it; an interval is not zero. A descriptor that is quit is one of an endpoint. -/
def Allowed (ied : Nat → U32) (a : EdPlan) : EdCall → Prop
  | .openInt bInterval info ed =>
    ed ≠ 0 ∧ ed ∉ a.linked ied ∧ info &&& edEpAddrMsk ≠ 0 ∧ info &&& edSkip = 0 ∧ 0 < bInterval.toNat
  | .openBulk info ed => ed ≠ 0 ∧ ed ∉ a.linked ied ∧ info &&& edEpAddrMsk ≠ 0 ∧ info &&& edSkip = 0
  | .quit ed => a.Used ed
  | .startOfFrame => True

instance (ied : Nat → U32) (a : EdPlan) : DecidablePred (a.Allowed ied)
  | .openInt bInterval info ed => inferInstanceAs (Decidable (ed ≠ 0 ∧ ed ∉ a.linked ied ∧
      info &&& edEpAddrMsk ≠ 0 ∧ info &&& edSkip = 0 ∧ 0 < bInterval.toNat))
  | .openBulk info ed => inferInstanceAs (Decidable (ed ≠ 0 ∧ ed ∉ a.linked ied ∧
      info &&& edEpAddrMsk ≠ 0 ∧ info &&& edSkip = 0))
  | .quit ed => inferInstanceAs (Decidable (a.Used ed))
  | .startOfFrame => inferInstanceAs (Decidable True)

end EdPlan

theorem edSkip_or (info : U32) : (info ||| edSkip) &&& edSkip = edSkip ∧
    (info ||| edSkip) &&& edEpAddrMsk = info &&& edEpAddrMsk := by
  have none : edSkip &&& edEpAddrMsk = 0#32 := by decide
  constructor
  · apply BitVec.eq_of_getLsbD_eq
    intro i _
    simp only [BitVec.getLsbD_and, BitVec.getLsbD_or]
    cases edSkip.getLsbD i <;> simp
  · rw [BitVec.and_or_distrib_right, none, BitVec.or_zero]

namespace EdLists

variable {s : EdLists} {a : EdPlan} {ed info : U32} {bInterval : BitVec 8} {turns : Nat}

/-- What a linked descriptor says of its list, and whether the controller is to skip it. -/
structure Marks (s : EdLists) (a : EdPlan) : Prop where
  bulk : ∀ ed ∈ a.bulk, s.info ed &&& edEpAddrMsk ≠ 0 ∧ s.bInterval ed = 0
  int : ∀ k < numIed, ∀ ed ∈ a.level k,
    s.info ed &&& edEpAddrMsk ≠ 0 ∧ 0 < (s.bInterval ed).toNat ∧ edLevel (s.bInterval ed).toNat = k
  skip : ∀ ed, a.Used ed → (s.info ed &&& edSkip ≠ 0 ↔ ed ∈ a.removing)
  heads : ∀ k < numIed, s.info (s.ied k) &&& edSkip ≠ 0

structure Inv (s : EdLists) (a : EdPlan) : Prop where
  tree : Seg s.nextED (s.ied 5) (nodes s.ied a.level numIed) 0
  bulk : Seg s.nextED s.hcBulkHeadED a.bulk 0
  nodup : (a.linked s.ied).Nodup
  notNull : 0 ∉ a.linked s.ied
  marks : s.Marks a
  removing : s.edRemoveList = a.removing
  nodupRemoving : a.removing.Nodup
  used : ∀ ed ∈ a.removing, a.Used ed
  table : ∀ f < intTableSize, s.intTable f = s.ied (frameLevel 5 f)
  freed : s.freed = a.freed

theorem Inv.parts (inv : s.Inv a) : a.bulk.Nodup ∧ (nodes s.ied a.level numIed).Nodup ∧
    (∀ q ∈ a.bulk, q ∉ nodes s.ied a.level numIed) ∧ 0 ∉ a.bulk ∧ 0 ∉ nodes s.ied a.level numIed := by
  have nodup := inv.nodup
  have some := inv.notNull
  simp only [EdPlan.linked, List.nodup_append, List.mem_append, not_or] at nodup some
  exact ⟨nodup.1, nodup.2.1, fun q hq h => nodup.2.2 q hq q h rfl, some.1, some.2⟩

theorem used_linked (used : a.Used ed) : ed ∈ a.linked s.ied := by
  rcases used with bulk | ⟨k, below, int⟩
  · exact List.mem_append_left _ bulk
  · exact List.mem_append_right _ (mem_nodes.mpr ⟨k, below, .inr int⟩)

theorem edLevel_lt (interval : Nat) : edLevel interval < numIed := by
  unfold edLevel
  split
  next i found =>
    have := List.mem_range.mp (List.mem_of_find?_eq_some found)
    omega
  next => decide

theorem used_ne (new : ed ∉ a.linked s.ied) {q : U32} (used : a.Used q) : q ≠ ed :=
  ne_of_mem_of_not_mem (used_linked used) new

theorem Marks.make (marks : s.Marks a) (new : ed ∉ a.linked s.ied) (unmarked : ed ∉ a.removing)
    (numbered : info &&& edEpAddrMsk ≠ 0) (plain : info &&& edSkip = 0) {a' : EdPlan}
    (removing : a'.removing = a.removing) (bulk : ∀ q ∈ a'.bulk, q = ed ∧ bInterval = 0 ∨ q ∈ a.bulk)
    (int : ∀ k, ∀ q ∈ a'.level k,
      q = ed ∧ 0 < bInterval.toNat ∧ edLevel bInterval.toNat = k ∨ q ∈ a.level k) :
    (s.makeEd ed info bInterval).Marks a' := by
  have infoOf : ∀ q ≠ ed, (s.makeEd ed info bInterval).info q = s.info q := fun q other =>
    Function.update_of_ne other ..
  have intervalOf : ∀ q ≠ ed, (s.makeEd ed info bInterval).bInterval q = s.bInterval q := fun q other =>
    Function.update_of_ne other ..
  have infoSelf : (s.makeEd ed info bInterval).info ed = info := Function.update_self ..
  have intervalSelf : (s.makeEd ed info bInterval).bInterval ed = bInterval := Function.update_self ..
  refine ⟨?_, ?_, ?_, ?_⟩
  · intro q mem
    rcases bulk q mem with ⟨rfl, none⟩ | old
    · rw [infoSelf, intervalSelf]
      exact ⟨numbered, none⟩
    · have other := used_ne new (.inl old)
      rw [infoOf q other, intervalOf q other]
      exact marks.bulk q old
  · intro k below q mem
    rcases int k q mem with ⟨rfl, some, here⟩ | old
    · rw [infoSelf, intervalSelf]
      exact ⟨numbered, some, here⟩
    · have other := used_ne new (.inr ⟨k, below, old⟩)
      rw [infoOf q other, intervalOf q other]
      exact marks.int k below q old
  · intro q used
    rw [removing]
    by_cases same : q = ed
    · rw [same, infoSelf]
      exact iff_of_false (not_not_intro plain) unmarked
    · rw [infoOf q same]
      apply marks.skip
      rcases used with mem | ⟨k, below, mem⟩
      · exact .inl ((bulk q mem).resolve_left fun here => same here.1)
      · exact .inr ⟨k, below, (int k q mem).resolve_left fun here => same here.1⟩
  · intro k below
    have other : s.ied k ≠ ed :=
      ne_of_mem_of_not_mem (List.mem_append_right _ (mem_nodes.mpr ⟨k, below, .inl rfl⟩)) new
    change (s.makeEd ed info bInterval).info (s.ied k) &&& edSkip ≠ 0
    rw [infoOf _ other]
    exact marks.heads k below

theorem Inv.openInt (inv : s.Inv a) (some : ed ≠ 0) (new : ed ∉ a.linked s.ied)
    (numbered : info &&& edEpAddrMsk ≠ 0) (plain : info &&& edSkip = 0) (periodic : 0 < bInterval.toNat) :
    ((s.makeEd ed info bInterval).linkInt (s.ied (edLevel bInterval.toNat)) ed).Inv
      (a.step (.openInt bInterval info ed)) := by
  obtain ⟨bulk, tree, apart, -, -⟩ := inv.parts
  obtain ⟨notBulk, notTree⟩ := not_or.mp (mt List.mem_append.mpr new)
  have below := edLevel_lt bInterval.toNat
  have head : s.ied (edLevel bInterval.toNat) ∈ nodes s.ied a.level numIed := mem_nodes.mpr ⟨_, below, .inl rfl⟩
  have behind : s.ied (edLevel bInterval.toNat) ≠ ed := ne_of_mem_of_not_mem head notTree
  have unmarked : ed ∉ a.removing := fun mem => new (used_linked (inv.used ed mem))
  have next : ((s.makeEd ed info bInterval).linkInt (s.ied (edLevel bInterval.toNat)) ed).nextED =
      Function.update (Function.update s.nextED ed (s.nextED (s.ied (edLevel bInterval.toNat))))
        (s.ied (edLevel bInterval.toNat)) ed := by
    simp only [linkInt, makeEd, Function.update_idem, Function.update_of_ne behind]
  have linked : ((a.step (.openInt bInterval info ed)).linked s.ied).Perm (ed :: a.linked s.ied) := by
    have more := @nodes_update_cons _ s.ied a.level _ _ below ed (a.level (edLevel bInterval.toNat))
    rw [Function.update_eq_self] at more
    exact (more.append_left a.bulk).trans List.perm_middle
  refine ⟨?_, ?_, linked.nodup_iff.mpr (List.nodup_cons.mpr ⟨new, inv.nodup⟩), ?_,
    ?_, inv.removing, inv.nodupRemoving, ?_, inv.table,
    inv.freed⟩
  · rw [next]
    exact seg_link inv.tree tree notTree (Nat.le_of_lt_succ below)
  · rw [next]
    exact (inv.bulk.update notBulk _).update (fun mem => apart _ mem head) _
  · intro mem
    rcases List.mem_cons.mp (linked.subset mem) with zero | old
    · exact some zero.symm
    · exact inv.notNull old
  · have made : (s.makeEd ed info bInterval).Marks (a.step (.openInt bInterval info ed)) :=
      inv.marks.make new unmarked numbered plain rfl (fun q mem => .inr mem) fun k q mem => by
        simp only [EdPlan.step, Function.update_apply] at mem
        split_ifs at mem with here
        · exact (List.mem_cons.mp mem).imp (fun same => ⟨same, periodic, here.symm⟩) (here ▸ ·)
        · exact .inr mem
    exact ⟨made.bulk, made.int, made.skip, made.heads⟩
  · intro q mem
    rcases inv.used q mem with bulk | ⟨k, below, int⟩
    · exact .inl bulk
    · refine .inr ⟨k, below, ?_⟩
      simp only [EdPlan.step, Function.update_apply]
      split_ifs with here
      · exact List.mem_cons_of_mem _ (here ▸ int)
      · exact int

theorem Inv.openBulk (inv : s.Inv a) (some : ed ≠ 0) (new : ed ∉ a.linked s.ied)
    (numbered : info &&& edEpAddrMsk ≠ 0) (plain : info &&& edSkip = 0) :
    ((s.makeEd ed info 0).linkBulk ed).Inv (a.step (.openBulk info ed)) := by
  obtain ⟨notBulk, notTree⟩ := not_or.mp (mt List.mem_append.mpr new)
  have unmarked : ed ∉ a.removing := fun mem => new (used_linked (inv.used ed mem))
  have next : ((s.makeEd ed info 0).linkBulk ed).nextED = Function.update s.nextED ed s.hcBulkHeadED := by
    simp only [linkBulk, makeEd, Function.update_idem]
  refine ⟨?_, ?_, List.nodup_cons.mpr ⟨new, inv.nodup⟩, ?_, ?_, inv.removing, inv.nodupRemoving, ?_, inv.table,
    inv.freed⟩
  · rw [next]
    exact inv.tree.update notTree _
  · rw [next]
    refine ⟨rfl, ?_⟩
    rw [Function.update_self]
    exact inv.bulk.update notBulk _
  · intro mem
    rcases List.mem_cons.mp mem with zero | old
    · exact some zero.symm
    · exact inv.notNull old
  · have made : (s.makeEd ed info 0).Marks (a.step (.openBulk info ed)) :=
      inv.marks.make new unmarked numbered plain rfl
        (fun q mem => (List.mem_cons.mp mem).imp (⟨·, rfl⟩) id) fun k q mem => .inr mem
    exact ⟨made.bulk, made.int, made.skip, made.heads⟩
  · exact fun q mem => (inv.used q mem).imp (List.mem_cons_of_mem _) id

theorem Inv.quit (inv : s.Inv a) (used : a.Used ed) : (s.addToEdRemoveList ed).Inv (a.step (.quit ed)) := by
  unfold addToEdRemoveList EdPlan.step
  rw [inv.removing]
  by_cases marked : ed ∈ a.removing
  · simp only [marked, if_true]
    exact inv
  simp only [marked, if_false]
  have mask : ∀ q, Function.update s.info ed (s.info ed ||| edSkip) q &&& edEpAddrMsk = s.info q &&& edEpAddrMsk := by
    intro q
    rw [Function.update_apply]
    split_ifs with same
    · rw [same, (edSkip_or _).2]
    · rfl
  refine ⟨inv.tree, inv.bulk, inv.nodup, inv.notNull, ⟨?_, ?_, ?_, ?_⟩, rfl,
    List.nodup_cons.mpr ⟨marked, inv.nodupRemoving⟩, ?_, inv.table, inv.freed⟩
  · intro q mem
    simp only [mask]
    exact inv.marks.bulk q mem
  · intro k below q mem
    simp only [mask]
    exact inv.marks.int k below q mem
  · intro q other
    simp only [Function.update_apply, List.mem_cons]
    split_ifs with same
    · rw [(edSkip_or _).1]
      exact iff_of_true (by decide) (.inl same)
    · rw [inv.marks.skip q other]
      exact (or_iff_right same).symm
  · intro k below
    simp only [Function.update_apply]
    split_ifs
    · rw [(edSkip_or _).1]
      decide
    · exact inv.marks.heads k below
  · intro q mem
    rcases List.mem_cons.mp mem with rfl | old
    · exact used
    · exact inv.used q old

theorem Marks.without (marks : s.Marks a) (nodup : (a.linked s.ied).Nodup) : s.Marks (a.without ed) := by
  have sub : ∀ xs : List U32, xs.erase ed ⊆ xs := fun xs => List.erase_subset
  refine ⟨fun q mem => marks.bulk q (sub _ mem), fun k below q mem => marks.int k below q (sub _ mem), ?_, marks.heads⟩
  intro q used
  have other : q ≠ ed := by
    obtain ⟨bulk, tree, -⟩ := List.nodup_append.mp nodup
    rcases used with mem | ⟨k, below, mem⟩
    · exact (bulk.mem_erase_iff.mp mem).1
    · exact ((tree.sublist (level_sublist below)).mem_erase_iff.mp mem).1
  have before : a.Used q := used.imp (sub _ ·) fun ⟨k, below, mem⟩ => ⟨k, below, sub _ mem⟩
  rw [marks.skip q before]
  exact (List.mem_erase_of_ne other).symm

theorem level_without (nodup : (nodes s.ied a.level numIed).Nodup) {k : Nat} (below : k < numIed)
    (mem : ed ∈ a.level k) : nodes s.ied (a.without ed).level numIed =
      nodes s.ied (Function.update a.level k ((a.level k).erase ed)) numIed := by
  refine nodes_congr (fun _ _ => rfl) ?_
  intro j inside
  rw [Function.update_apply]
  split_ifs with same
  · rw [same]
    rfl
  · exact List.erase_of_not_mem fun again => same (level_unique nodup below inside mem again)

theorem bulk_without (absent : ed ∉ nodes s.ied a.level numIed) :
    nodes s.ied (a.without ed).level numIed = nodes s.ied a.level numIed := by
  refine nodes_congr (fun _ _ => rfl) ?_
  intro j inside
  exact List.erase_of_not_mem fun mem => absent (mem_nodes.mpr ⟨j, inside, .inr mem⟩)

theorem linked_without (nodup : (a.linked s.ied).Nodup) (used : a.Used ed) :
    (a.linked s.ied).Perm (ed :: (a.without ed).linked s.ied) := by
  have tree := (List.nodup_append.mp nodup).2.1
  have apart := (List.nodup_append.mp nodup).2.2
  rcases used with bulk | ⟨k, below, int⟩
  · have absent : ed ∉ nodes s.ied a.level numIed := fun mem => apart ed bulk ed mem rfl
    rw [EdPlan.linked, EdPlan.linked, bulk_without absent]
    exact (List.perm_cons_erase bulk).append_right _
  · have absent : ed ∉ a.bulk := fun mem => apart ed mem ed (mem_nodes.mpr ⟨k, below, .inr int⟩) rfl
    have more := @nodes_update_cons _ s.ied a.level _ _ below ed ((a.level k).erase ed)
    have same := @nodes_update_perm _ s.ied a.level _ _ _ _ below (List.perm_cons_erase int)
    rw [Function.update_eq_self] at same
    rw [EdPlan.linked, EdPlan.linked, level_without tree below int, show (a.without ed).bulk = a.bulk from
      List.erase_of_not_mem absent]
    exact ((same.trans more).append_left a.bulk).trans List.perm_middle

theorem Inv.unlinkEd (inv : s.Inv a) (used : a.Used ed) (enough : (a.linked s.ied).length < turns) :
    ∃ next head, s.unlinkEd turns ed = some ({ s with nextED := next, hcBulkHeadED := head }, true) ∧
      Seg next (s.ied 5) (nodes s.ied (a.without ed).level numIed) 0 ∧ Seg next head (a.without ed).bulk 0 := by
  obtain ⟨bulkNodup, tree, apart, zeroBulk, zeroTree⟩ := inv.parts
  have long : a.bulk.length < turns ∧ (nodes s.ied a.level numIed).length < turns := by
    rw [EdPlan.linked, List.length_append] at enough
    omega
  rcases used with bulk | ⟨k, below, int⟩
  · obtain ⟨numbered, none⟩ := inv.marks.bulk ed bulk
    have absent := apart ed bulk
    have plain : ¬(s.bInterval ed).toNat > 0 := by
      rw [none]
      decide
    unfold EdLists.unlinkEd
    rw [if_neg numbered, if_neg plain, bulk_without absent]
    obtain ⟨us, vs, notIn, cut, erased⟩ := List.exists_erase_eq bulk
    rw [show (a.without ed).bulk = us ++ vs from erased]
    have seg := inv.bulk
    rw [cut] at seg bulkNodup zeroBulk long
    cases us with
    | nil =>
      exact ⟨s.nextED, s.nextED ed, if_pos seg.1, inv.tree, seg.2⟩
    | cons u us =>
      obtain ⟨bs, before, ends⟩ := exists_before u us
      have other : s.hcBulkHeadED ≠ ed := by
        rw [seg.1]
        exact fun here => notIn (here ▸ List.mem_cons_self ..)
      have there : before ∈ a.bulk := by
        rw [cut, ends]
        simp
      rw [ends, List.append_assoc] at seg bulkNodup zeroBulk long ⊢
      refine ⟨Function.update s.nextED before (s.nextED ed), s.hcBulkHeadED, ?_, inv.tree.update (apart _ there) _,
        seg.remove bulkNodup⟩
      rw [if_neg other, EdLists.unlink, unlink_eq seg zeroBulk bulkNodup long.1]
      rfl
  · obtain ⟨numbered, some, here⟩ := inv.marks.int k below ed int
    obtain ⟨before, gone, there, seg⟩ :=
      seg_unlinked false inv.tree tree zeroTree int (le_refl k) (Nat.le_of_lt_succ below) long.2
    have absent : ed ∉ a.bulk := fun mem => apart ed mem (mem_nodes.mpr ⟨k, below, .inr int⟩)
    unfold EdLists.unlinkEd
    rw [if_neg numbered, if_pos some, here, level_without tree below int,
      show (a.without ed).bulk = a.bulk from List.erase_of_not_mem absent]
    refine ⟨_, s.hcBulkHeadED, ?_, seg, inv.bulk.update (fun mem => apart _ mem there) _⟩
    rw [EdLists.unlink, gone]
    rfl

theorem Inv.removeTurn {rest : List U32} (inv : s.Inv a) (list : a.removing = ed :: rest)
    (enough : (a.linked s.ied).length < turns) :
    ∃ s', s.removeTurn turns ed = some s' ∧ s'.Inv (a.without ed) ∧ s'.ied = s.ied := by
  have used : a.Used ed := inv.used ed (list ▸ List.mem_cons_self ..)
  obtain ⟨next, head, gone, tree, bulk⟩ := inv.unlinkEd used enough
  have perm := linked_without inv.nodup used
  have marks := @Marks.without s a ed inv.marks inv.nodup
  have erased : (a.without ed).removing = rest := by
    rw [EdPlan.without, list, List.erase_cons_head]
  refine ⟨{ s with
    nextED := next, hcBulkHeadED := head, edRemoveList := s.edRemoveList.tail, freed := s.freed ++ [ed] }, ?_,
    ⟨tree, bulk, ?_, ?_, ?_, ?_, ?_, ?_, inv.table, ?_⟩, rfl⟩
  · rw [EdLists.removeTurn, gone]
    rfl
  · exact (List.nodup_cons.mp (perm.nodup_iff.mp inv.nodup)).2
  · exact fun mem => inv.notNull (perm.symm.subset (List.mem_cons_of_mem _ mem))
  · exact ⟨marks.bulk, marks.int, marks.skip, marks.heads⟩
  · rw [erased]
    change s.edRemoveList.tail = rest
    rw [inv.removing, list, List.tail_cons]
  · exact inv.nodupRemoving.erase ed
  · intro q mem
    obtain ⟨other, before⟩ := inv.nodupRemoving.mem_erase_iff.mp mem
    refine (inv.used q before).imp (List.mem_erase_of_ne other).mpr ?_
    exact fun ⟨k, below, int⟩ => ⟨k, below, (List.mem_erase_of_ne other).mpr int⟩
  · exact congrArg (· ++ [ed]) inv.freed

theorem Inv.removeEd {list : List U32} (inv : s.Inv a) (same : a.removing = list)
    (enough : (a.linked s.ied).length < turns) :
    ∃ s', list.foldlM (EdLists.removeTurn turns) s = some s' ∧ s'.Inv (list.foldl EdPlan.without a) ∧
      s'.ied = s.ied ∧ (list.foldl EdPlan.without a).removing = [] ∧
      ((list.foldl EdPlan.without a).linked s.ied ++ (list.foldl EdPlan.without a).freed).Perm
        (a.linked s.ied ++ a.freed) := by
  induction list generalizing s a with
  | nil => exact ⟨s, rfl, inv, rfl, same, List.Perm.refl _⟩
  | cons ed rest ih =>
    have used : a.Used ed := inv.used ed (same ▸ List.mem_cons_self ..)
    obtain ⟨s₁, first, inv₁, ied⟩ := inv.removeTurn same enough
    have erased : (a.without ed).removing = rest := by
      rw [EdPlan.without, same, List.erase_cons_head]
    have perm := linked_without inv.nodup used
    have fewer := perm.length_eq
    rw [List.length_cons] at fewer
    obtain ⟨s', last, inv', ied', none, kept⟩ := ih inv₁ erased (by rw [ied]; omega)
    refine ⟨s', by rw [List.foldlM_cons, first]; exact last, inv', ied'.trans ied, none, ?_⟩
    rw [ied] at kept
    refine kept.trans ?_
    change ((a.without ed).linked s.ied ++ (a.freed ++ [ed])).Perm _
    rw [← List.append_assoc]
    exact (List.perm_append_singleton ..).trans (perm.symm.append_right a.freed)

structure Units (alloc : Nat → U32) : Prop where
  fine : ∀ k < numIed, alloc k ≠ 0
  apart : ∀ j < numIed, ∀ k < numIed, alloc j = alloc k → j = k

theorem ohciInit_inv {alloc : Nat → U32} (units : Units alloc) (enough : 5 < turns) (s : EdLists) :
    ∃ s', s.ohciInit alloc turns = some s' ∧ s'.Inv .start ∧ ∀ k < numIed, s'.ied k = alloc k := by
  obtain ⟨t, ran, built⟩ := @build_spec U32 _ 0 turns alloc 5 ⟨s.nextED, fun _ => 0, s.ied⟩
    (fun k le => units.fine k (Nat.lt_succ_of_le le))
    (fun j hj k hk => units.apart j (Nat.lt_succ_of_le hj) k (Nat.lt_succ_of_le hk)) enough fun _ => rfl
  have heads : ∀ k < numIed, t.head k = alloc k := fun k below =>
    built.head k (Nat.zero_le k) (Nat.le_of_lt_succ below)
  have tree : nodes t.head (fun _ => []) numIed = nodes alloc (fun _ => []) numIed :=
    nodes_congr heads fun _ _ => rfl
  refine ⟨{ s with
    nextED := t.next
    intTable := t.table
    ied := t.head
    info := fun a => if ∃ i < numIed, a = alloc i then edSkip else s.info a
    hcControlHeadED := 0, hcBulkHeadED := 0, edRemoveList := [], freed := [] }, ?_,
    ⟨?_, rfl, ?_, ?_, ?_, rfl, List.nodup_nil, ?_, ?_, rfl⟩, heads⟩
  · rw [ohciInit, initHccaIntTable, show intTableSize = 2 ^ 5 from rfl, show numIed = 5 + 1 from rfl, ran]
    rfl
  · change Seg t.next (t.head 5) (nodes t.head (fun _ => []) numIed) 0
    rw [tree, heads 5 (by decide)]
    exact built.seg
  · change (nodes t.head (fun _ => []) numIed).Nodup
    rw [tree]
    exact nodup_heads units.apart
  · intro zero
    change 0 ∈ nodes t.head (fun _ => []) numIed at zero
    rw [tree] at zero
    obtain ⟨k, below, here | here⟩ := mem_nodes.mp zero
    · exact units.fine k below here.symm
    · exact absurd here List.not_mem_nil
  · refine ⟨fun q mem => absurd mem List.not_mem_nil, fun k _ q mem => absurd mem List.not_mem_nil, ?_, ?_⟩
    · rintro q (mem | ⟨k, -, mem⟩)
      · exact absurd mem List.not_mem_nil
      · exact absurd mem List.not_mem_nil
    · intro k below
      simp only [heads k below]
      rw [if_pos ⟨k, below, rfl⟩]
      decide
  · exact fun q mem => absurd mem List.not_mem_nil
  · intro f below
    have table := built.table f below
    rw [if_pos (Nat.zero_le _)] at table
    exact table.trans (heads _ (Nat.lt_succ_of_le (frameLevel_le 5 f))).symm

end EdLists

namespace EdPlan

variable {a : EdPlan} {ed : U32} {k : Nat} {e : EdCall}

def opened : EdCall → List U32
  | .openInt _ _ ed | .openBulk _ ed => [ed]
  | .quit _ | .startOfFrame => []

def frame (a : EdPlan) (ied : Nat → U32) (f : Nat) : List U32 := nodes ied a.level (frameLevel 5 f + 1)

def Served (a : EdPlan) (k : Nat) (ed : U32) : Prop := ed ∈ a.level k ∧ ed ∉ a.removing

theorem Served.foldl {list : List U32} (served : a.Served k ed) (other : ed ∉ list) :
    (list.foldl without a).Served k ed := by
  induction list generalizing a with
  | nil => exact served
  | cons x list ih =>
    obtain ⟨apart, rest⟩ := not_or.mp (mt List.mem_cons.mpr other)
    exact ih ⟨(List.mem_erase_of_ne apart).mpr served.1, fun mem => served.2 (List.mem_of_mem_erase mem)⟩ rest

theorem Served.step (served : a.Served k ed) (other : e ≠ .quit ed) : (a.step e).Served k ed := by
  cases e with
  | openInt bInterval info new =>
    refine ⟨?_, served.2⟩
    simp only [EdPlan.step, Function.update_apply]
    split_ifs with here
    · exact List.mem_cons_of_mem _ (here ▸ served.1)
    · exact served.1
  | openBulk => exact served
  | quit gone =>
    have apart : ed ≠ gone := by
      rintro rfl
      exact other rfl
    simp only [EdPlan.step]
    split_ifs
    · exact served
    · exact ⟨served.1, List.not_mem_cons_of_ne_of_not_mem apart served.2⟩
  | startOfFrame => exact served.foldl served.2

theorem Served.calls {calls : List EdCall} (served : a.Served k ed) (others : .quit ed ∉ calls) :
    (calls.foldl EdPlan.step a).Served k ed := by
  induction calls generalizing a with
  | nil => exact served
  | cons e calls ih =>
    obtain ⟨other, rest⟩ := not_or.mp (mt List.mem_cons.mpr others)
    exact ih (served.step (Ne.symm other)) rest

end EdPlan

namespace EdLists

variable {s : EdLists} {a : EdPlan} {alloc : Nat → U32}

/-- The lists of a run stand for its plan, with the heads that `ohci_init` made. -/
structure Follows (alloc : Nat → U32) (s : EdLists) (a : EdPlan) : Prop where
  inv : s.Inv a
  ied : ∀ k < numIed, s.ied k = alloc k

theorem Follows.linked (follows : s.Follows alloc a) : a.linked s.ied = a.linked alloc := by
  rw [EdPlan.linked, EdPlan.linked, nodes_congr follows.ied fun _ _ => rfl]

theorem Follows.call {e : EdCall} (follows : s.Follows alloc a) (allowed : a.Allowed alloc e) :
    ∃ s', s.call (walkTurns 32) e = some s' ∧ s'.Follows alloc (a.step e) ∧
      ((a.step e).linked alloc ++ (a.step e).freed).Perm (EdPlan.opened e ++ (a.linked alloc ++ a.freed)) := by
  have linked := follows.linked
  obtain ⟨inv, heads⟩ := follows
  cases e with
  | openInt bInterval info ed =>
    obtain ⟨some, new, numbered, plain, periodic⟩ := allowed
    refine ⟨_, rfl, ⟨inv.openInt some (linked ▸ new) numbered plain periodic, heads⟩, ?_⟩
    have more := @nodes_update_cons _ alloc a.level _ _ (edLevel_lt bInterval.toNat) ed
      (a.level (edLevel bInterval.toNat))
    rw [Function.update_eq_self] at more
    exact ((more.append_left a.bulk).trans List.perm_middle).append_right a.freed
  | openBulk info ed =>
    obtain ⟨some, new, numbered, plain⟩ := allowed
    exact ⟨_, rfl, ⟨inv.openBulk some (linked ▸ new) numbered plain, heads⟩, List.Perm.refl _⟩
  | quit ed =>
    refine ⟨_, rfl, ⟨inv.quit allowed, ?_⟩, ?_⟩
    · intro k below
      rw [← heads k below, addToEdRemoveList]
      split_ifs <;> rfl
    · rw [EdPlan.step]
      split_ifs <;> exact List.Perm.refl _
  | startOfFrame =>
    obtain ⟨s', ran, inv', ied, -, perm⟩ := inv.removeEd rfl (length_lt_walkTurns inv.nodup)
    have heads' : ∀ k < numIed, s'.ied k = alloc k := fun k below => ied ▸ heads k below
    have linked' := Follows.linked ⟨inv', heads'⟩
    rw [ied] at linked'
    rw [linked, linked'] at perm
    exact ⟨s', by rw [EdLists.call, EdLists.removeEd, inv.removing]; exact ran, ⟨inv', heads'⟩, perm⟩

theorem Follows.calls {calls : List EdCall} (follows : s.Follows alloc a)
    (allowed : Runs.StepsMeet EdPlan.step (EdPlan.Allowed alloc) a calls) :
    ∃ s', calls.foldlM (EdLists.call (walkTurns 32)) s = some s' ∧
      s'.Follows alloc (calls.foldl EdPlan.step a) ∧
      ((calls.foldl EdPlan.step a).linked alloc ++ (calls.foldl EdPlan.step a).freed).Perm
        (calls.flatMap EdPlan.opened ++ (a.linked alloc ++ a.freed)) := by
  induction calls generalizing s a with
  | nil => exact ⟨s, rfl, follows, List.Perm.refl _⟩
  | cons e calls ih =>
    obtain ⟨first, rest⟩ := Runs.stepsMeet_cons.mp allowed
    obtain ⟨s₁, ran, here, perm⟩ := follows.call first
    obtain ⟨s', ran', there, perm'⟩ := ih here rest
    refine ⟨s', by rw [List.foldlM_cons, ran]; exact ran', there, perm'.trans ?_⟩
    refine (perm.append_left _).trans ?_
    rw [List.flatMap_cons, ← List.append_assoc]
    exact List.perm_append_comm.append_right _

end EdLists

/-- In every run of the calls the lists are found intact: in each frame the controller meets the
descriptors of the intervals that end with it, and is to skip just those that were quit; when a frame
starts they are taken out and given back, and no descriptor is lost. -/
theorem ohci_schedule_served {alloc : Nat → U32} (units : EdLists.Units alloc) (s : EdLists)
    (calls : List EdCall) (allowed : Runs.StepsMeet EdPlan.step (EdPlan.Allowed alloc) .start calls) :
    ∃ s₀ s' : EdLists, s.ohciInit alloc (walkTurns 32) = some s₀ ∧
      calls.foldlM (EdLists.call (walkTurns 32)) s₀ = some s' ∧
      (let a := calls.foldl EdPlan.step .start
      (∀ f < intTableSize, walk s'.nextED 0 (walkTurns 32) (s'.intTable f) = some (a.frame alloc f)) ∧
      walk s'.nextED 0 (walkTurns 32) s'.hcBulkHeadED = some a.bulk ∧
      (∀ ed, a.Used ed → (s'.info ed &&& edSkip ≠ 0 ↔ ed ∈ a.removing)) ∧
      (∀ pre, calls = pre ++ [.startOfFrame] → a.removing = []) ∧ s'.freed = a.freed ∧
      (a.linked alloc ++ a.freed).Perm (calls.flatMap EdPlan.opened ++ nodes alloc (fun _ => []) numIed) ∧
      ∀ pre bInterval info ed post, calls = pre ++ .openInt bInterval info ed :: post → .quit ed ∉ post →
        s'.info ed &&& edSkip = 0 ∧ ∀ f, ed ∈ a.frame alloc f ↔ 2 ^ EdLists.edLevel bInterval.toNat ∣ f + 1) := by
  obtain ⟨s₀, start, inv₀, heads₀⟩ := EdLists.ohciInit_inv units (by decide : 5 < walkTurns 32) s
  have follows₀ : s₀.Follows alloc .start := ⟨inv₀, heads₀⟩
  obtain ⟨s', ran, follows, perm⟩ := follows₀.calls allowed
  refine ⟨s₀, s', start, ran, ?_⟩
  have linked := follows.linked
  obtain ⟨inv, heads⟩ := follows
  obtain ⟨-, tree, -, zeroBulk, zeroTree⟩ := inv.parts
  have enough := length_lt_walkTurns inv.nodup
  rw [EdPlan.linked, List.length_append] at enough
  have frame : ∀ f, (calls.foldl EdPlan.step .start).frame alloc f =
      nodes s'.ied (calls.foldl EdPlan.step .start).level (frameLevel 5 f + 1) := by
    intro f
    have le := frameLevel_le 5 f
    exact nodes_congr (fun k below => (heads k (by unfold numIed; omega)).symm) fun _ _ => rfl
  refine ⟨?_, walk_eq inv.bulk zeroBulk (by omega), inv.marks.skip, ?_, inv.freed, ?_, ?_⟩
  · intro f below
    rw [inv.table f below, frame]
    have few : (nodes s'.ied (calls.foldl EdPlan.step .start).level numIed).length < walkTurns 32 := by omega
    exact walk_frame inv.tree zeroTree few f
  · rintro pre rfl
    obtain ⟨s₁, -, ⟨inv₁, -⟩, -⟩ := follows₀.calls (allowed.front (List.prefix_append ..))
    obtain ⟨-, -, -, -, none, -⟩ := inv₁.removeEd rfl (length_lt_walkTurns inv₁.nodup)
    rw [List.foldl_append]
    exact none
  · have none : EdPlan.start.linked alloc ++ EdPlan.start.freed = nodes alloc (fun _ => []) numIed :=
      List.append_nil _
    rw [none] at perm
    exact perm
  · intro pre bInterval info ed post cut stays
    have below := EdLists.edLevel_lt bInterval.toNat
    -- a new descriptor is not to be removed
    have unmarked : ed ∉ (pre.foldl EdPlan.step .start).removing := by
      obtain ⟨s₁, -, follows₁, -⟩ := follows₀.calls (allowed.front (cut ▸ List.prefix_append ..))
      have new := (allowed pre (.openInt bInterval info ed) ⟨post, by rw [cut]; simp⟩).2.1
      rw [← follows₁.linked] at new
      exact fun mem => new (EdLists.used_linked (follows₁.inv.used ed mem))
    have served : (calls.foldl EdPlan.step .start).Served (EdLists.edLevel bInterval.toNat) ed := by
      rw [cut, List.foldl_append, List.foldl_cons]
      exact EdPlan.Served.calls ⟨by simp [EdPlan.step], unmarked⟩ stays
    refine ⟨?_, ?_⟩
    · by_contra skipped
      exact served.2 ((inv.marks.skip ed (.inr ⟨_, below, served.1⟩)).mp skipped)
    · intro f
      rw [frame]
      exact mem_frame_iff tree (Nat.le_of_lt_succ below) served.1 f

theorem ohci_schedule_least : ∃ s₀ s' : EdLists,
    EdLists.ohciInit (fun k => BitVec.ofNat 32 (0x100 + 0x20 * k)) (walkTurns 32)
      ⟨fun _ => 0, fun _ => 0, fun _ => 0, fun _ => 0, fun _ => 0, 0, 0, [], []⟩ = some s₀ ∧
      [.openInt 8 0x81 0x400, .openInt 1 0x102 0x420, .quit 0x420, .startOfFrame].foldlM
        (EdLists.call (walkTurns 32)) s₀ = some s' ∧
      s'.freed = [0x420] ∧ s'.info 0x400 &&& edSkip = 0 ∧
      ∀ f < intTableSize, (walk s'.nextED 0 (walkTurns 32) (s'.intTable f)).map
        (fun met => decide (0x400 ∈ met)) = some (decide (8 ∣ f + 1)) := by
  have units : EdLists.Units fun k => BitVec.ofNat 32 (0x100 + 0x20 * k) := ⟨by decide, by decide⟩
  obtain ⟨s₀, s', start, ran, frames, -, -, -, freed, -, served⟩ := ohci_schedule_served units
    ⟨fun _ => 0, fun _ => 0, fun _ => 0, fun _ => 0, fun _ => 0, 0, 0, [], []⟩
    [.openInt 8 0x81 0x400, .openInt 1 0x102 0x420, .quit 0x420, .startOfFrame] (by
      simp only [Runs.stepsMeet_cons]
      refine ⟨?_, ?_, ?_, trivial, Runs.stepsMeet_nil⟩
      · decide
      · decide
      · decide)
  obtain ⟨plain, met⟩ := served [] 8 0x81 0x400 [.openInt 1 0x102 0x420, .quit 0x420, .startOfFrame] rfl (by simp)
  refine ⟨s₀, s', start, ran, freed, plain, ?_⟩
  intro f below
  rw [frames f below, Option.map_some, decide_eq_decide.mpr (met f)]
  rfl

end NuMakerMA35
