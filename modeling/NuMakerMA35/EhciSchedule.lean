import NuMakerMA35.EhciIso
import NuMakerMA35.IntervalTree
import NuMakerMA35.Runs

namespace NuMakerMA35

open Linked IntervalTree

def numIqh : Nat := 11
def qhHlnkEnd : U32 := 0x1

def qhPtr (x : U32) : U32 := x &&& ~~~0x1f

/-- The links of the queue heads, the frame list and the list of those to be removed; `freed` are those
given back to the pool. -/
structure QhLists where
  hLink : U32 → U32
  next : U32 → U32
  pfList : Nat → U32
  hQh : U32
  iqh : Nat → U32
  qhRemoveList : U32
  freed : List U32

namespace QhLists

def setLink (s : QhLists) (qh word : U32) : QhLists := { s with hLink := Function.update s.hLink qh word }

def clear (s : QhLists) (qh : U32) : QhLists :=
  { s.setLink qh 0 with next := Function.update s.next qh 0 }

def linkQh (s : QhLists) (head qh : U32) : QhLists :=
  (s.setLink qh (s.hLink head)).setLink head (qhHlnkQh qh)

def chainIqh (iqh : U32) : Nat → QhLists → U32 → Option QhLists
  | 0, _, _ => none
  | turns + 1, s, qhP =>
    if qhP = iqh then some s
    else if s.hLink qhP = qhHlnkEnd then some (s.setLink qhP (qhHlnkQh iqh))
    else chainIqh iqh turns s (qhPtr (s.hLink qhP))

def initEntry (turns i : Nat) (s : QhLists) (idx : Nat) : Option QhLists :=
  if s.pfList idx = 0 then
    some { s with pfList := Function.update s.pfList idx (qhHlnkQh (s.iqh i)) }
  else chainIqh (s.iqh i) turns s (qhPtr (s.pfList idx))

def initLevel (alloc : Nat → U32) (turns : Nat) (s : QhLists) (i : Nat) : Option QhLists :=
  let s := { (s.clear (alloc i)).setLink (alloc i) qhHlnkEnd with iqh := Function.update s.iqh i (alloc i) }
  (List.range (flSize / 2 ^ i)).foldlM (fun s m => s.initEntry turns i ((m + 1) * 2 ^ i - 1)) s

/-- `init_periodic_frame_list`, with the units that `alloc_ehci_QH` finds. -/
def initPeriodicFrameList (alloc : Nat → U32) (turns : Nat) (s : QhLists) : Option QhLists :=
  (List.range numIqh).reverse.foldlM (initLevel alloc turns) { s with pfList := fun _ => 0 }

/-- The lists that `ehci_init` makes: the list of asynchronous transfers is its head alone. -/
def ehciInit (alloc : Nat → U32) (hQh : U32) (turns : Nat) (s : QhLists) : Option QhLists :=
  initPeriodicFrameList alloc turns
    { (s.clear hQh).setLink hQh (qhHlnkQh hQh) with hQh := hQh, qhRemoveList := 0, freed := [] }

/-- `get_int_tree_head_node`, as an index. -/
def intLevel (interval : Nat) : Nat :=
  match (List.range (numIqh - 1)).find? fun i => interval / 8 / 2 ^ (i + 1) = 0 with
  | some i => i
  | none => numIqh - 1

def onRemoveList (s : QhLists) (qh : U32) : Nat → U32 → Option Bool
  | 0, _ => none
  | turns + 1, q => if q = 0 then some false else if q = qh then some true else onRemoveList s qh turns (s.next q)

def findPeriodic (s : QhLists) (qh : U32) : Nat → U32 → Option (Option U32)
  | 0, _ => none
  | turns + 1, q =>
    if s.hLink q = qhHlnkEnd then some none
    else if qhPtr (s.hLink q) = qh then some (some q)
    else findPeriodic s qh turns (qhPtr (s.hLink q))

/-- A queue head found behind `q` is taken out and put on the list of those to be removed. -/
def takeOut (s : QhLists) (q qh : U32) : QhLists :=
  { s.setLink q (s.hLink qh) with next := Function.update s.next qh s.qhRemoveList, qhRemoveList := qh }

def moveQhToRemoveList (turns : Nat) (s : QhLists) (qh : U32) : Option QhLists := do
  if ← s.onRemoveList qh turns s.qhRemoveList then return s
  match ← findPrev (fun q => qhPtr (s.hLink q)) qh s.hQh turns s.hQh with
  | some q => return s.takeOut q qh
  | none =>
    match ← s.findPeriodic qh turns (s.iqh (numIqh - 1)) with
    | some q => return s.takeOut q qh
    | none => return s

/-- The first loop of `iaad_remove_qh`, without the transfer descriptors. -/
def iaadRemoveQh : Nat → QhLists → Option QhLists
  | 0, _ => none
  | turns + 1, s =>
    if s.qhRemoveList = 0 then some s
    else iaadRemoveQh turns
      { s with qhRemoveList := s.next s.qhRemoveList, freed := s.freed ++ [s.qhRemoveList] }

end QhLists

/-- What happens to the lists: a pipe gets a queue head from the pool, for control and bulk transfers or
with an interval, an endpoint is quit, and the controller's interrupt on async advance. -/
inductive QhCall where
  | openAsync (qh : U32)
  | openInt (interval : Nat) (qh : U32)
  | quit (qh : U32)
  | iaa

def QhLists.call (turns : Nat) (s : QhLists) : QhCall → Option QhLists
  | .openAsync qh => some ((s.clear qh).linkQh s.hQh qh)
  | .openInt interval qh => some ((s.clear qh).linkQh (s.iqh (intLevel interval)) qh)
  | .quit qh => s.moveQhToRemoveList turns qh
  | .iaa => s.iaadRemoveQh turns

theorem Ehci.linkQh_hLink (s : Ehci) (head qh : U32) (l : QhLists) (same : l.hLink = fun a => (s.qhs a).hLink) :
    (fun a => ((s.linkQh head qh).qhs a).hLink) = (l.linkQh head qh).hLink := by
  funext a
  simp only [Ehci.linkQh, Ehci.setQh, QhLists.linkQh, QhLists.setLink, same, Function.update_apply]
  split_ifs <;> rfl

theorem Ehci.intTreeHead_eq (s : Ehci) (interval : Nat) :
    s.intTreeHead interval = s.iqh (QhLists.intLevel interval) := by
  unfold Ehci.intTreeHead QhLists.intLevel
  rw [show numIqh - 1 = 10 from rfl]
  cases (List.range 10).find? fun i => decide (interval / 8 / 2 ^ (i + 1) = 0) with
  | none => rfl
  | some i => rfl

structure QhPlan where
  async : List U32
  level : Nat → List U32
  removed : List U32
  freed : List U32

namespace QhPlan

def start : QhPlan := ⟨[], fun _ => [], [], []⟩

def levelOf (a : QhPlan) (qh : U32) : Option Nat := (List.range numIqh).find? fun k => qh ∈ a.level k

def step (a : QhPlan) : QhCall → QhPlan
  | .openAsync qh => { a with async := qh :: a.async }
  | .openInt interval qh =>
    let k := QhLists.intLevel interval
    { a with level := Function.update a.level k (qh :: a.level k) }
  | .quit qh =>
    if qh ∈ a.removed then a
    else if qh ∈ a.async then { a with async := a.async.erase qh, removed := qh :: a.removed }
    else match a.levelOf qh with
      | some k =>
        { a with level := Function.update a.level k ((a.level k).erase qh), removed := qh :: a.removed }
      | none => a
  | .iaa => { a with removed := [], freed := a.freed ++ a.removed }

def live (a : QhPlan) (hQh : U32) (iqh : Nat → U32) : List U32 :=
  hQh :: (a.async ++ (nodes iqh a.level numIqh ++ a.removed))

/-- A unit of the pool is at an aligned address, and one that is found is in no list; the heads of the
intervals belong to no endpoint. -/
def Allowed (hQh : U32) (iqh : Nat → U32) (a : QhPlan) : QhCall → Prop
  | .openAsync qh | .openInt _ qh => qh ≠ 0 ∧ qhPtr qh = qh ∧ qh ∉ a.live hQh iqh
  | .quit qh => ∀ k < numIqh, qh ≠ iqh k
  | .iaa => True

instance (hQh : U32) (iqh : Nat → U32) (a : QhPlan) : DecidablePred (a.Allowed hQh iqh)
  | .openAsync qh | .openInt _ qh =>
    inferInstanceAs (Decidable (qh ≠ 0 ∧ qhPtr qh = qh ∧ qh ∉ a.live hQh iqh))
  | .quit qh => inferInstanceAs (Decidable (∀ k < numIqh, qh ≠ iqh k))
  | .iaa => inferInstanceAs (Decidable True)

end QhPlan

def Canon (w : U32) : Prop := w = qhHlnkEnd ∨ w = qhHlnkQh (qhPtr w) ∧ qhPtr w ≠ 0

theorem qhPtr_end : qhPtr qhHlnkEnd = 0 := by decide

theorem qhPtr_link {qh : U32} (aligned : qhPtr qh = qh) : qhPtr (qhHlnkQh qh) = qh := by
  have low : (0x2 : U32) &&& ~~~0x1f = 0#32 := by decide
  unfold qhPtr at aligned ⊢
  unfold qhHlnkQh
  rw [aligned, BitVec.and_or_distrib_right, aligned, low, BitVec.or_zero]

theorem canon_link {qh : U32} (aligned : qhPtr qh = qh) (some : qh ≠ 0) : Canon (qhHlnkQh qh) := by
  refine .inr ⟨?_, ?_⟩
  · rw [qhPtr_link aligned]
  · rw [qhPtr_link aligned]
    exact some

theorem Canon.end_iff {w : U32} (canon : Canon w) : w = qhHlnkEnd ↔ qhPtr w = 0 := by
  constructor
  · rintro rfl
    exact qhPtr_end
  · intro zero
    exact canon.resolve_right fun link => link.2 zero

namespace QhLists

variable {s : QhLists} {turns : Nat}

def links (s : QhLists) : U32 → U32 := fun q => qhPtr (s.hLink q)

theorem links_setLink (q word : U32) : (s.setLink q word).links = Function.update s.links q (qhPtr word) := by
  funext a
  simp only [links, setLink, Function.update_apply]
  split_ifs <;> rfl

theorem links_linkQh {head qh : U32} (aligned : qhPtr qh = qh) : (s.linkQh head qh).links =
    Function.update (Function.update s.links qh (s.links head)) head qh := by
  rw [linkQh, links_setLink, links_setLink, qhPtr_link aligned]
  rfl

/-- The lists stand for a plan: the ring and the tree are linked through it, every word on them is a
link or the end, and each frame enters the tree at its longest interval. -/
structure Inv (s : QhLists) (a : QhPlan) : Prop where
  ring : Seg s.links s.hQh (s.hQh :: a.async) s.hQh
  tree : Seg s.links (s.iqh 10) (nodes s.iqh a.level numIqh) 0
  removing : Seg s.next s.qhRemoveList a.removed 0
  nodup : (a.live s.hQh s.iqh).Nodup
  fine : ∀ q ∈ a.live s.hQh s.iqh, q ≠ 0 ∧ qhPtr q = q
  words : ∀ q ∈ nodes s.iqh a.level numIqh, Canon (s.hLink q)
  table : ∀ f, f < flSize → s.pfList f = qhHlnkQh (s.iqh (frameLevel 10 f))
  freed : s.freed = a.freed

def tree (s : QhLists) : IntervalTree U32 where
  next := s.links
  table := fun f => qhPtr (s.pfList f)
  head := s.iqh

structure Words (s : QhLists) (linked : U32 → Prop) : Prop where
  link : ∀ a, linked a → Canon (s.hLink a) ∧ (s.links a = 0 ∨ linked (s.links a))
  entry : ∀ f, s.pfList f = 0 ∨ ∃ a, linked a ∧ s.pfList f = qhHlnkQh a
  fine : ∀ a, linked a → a ≠ 0 ∧ qhPtr a = a

variable {linked : U32 → Prop} {p h : U32}

theorem Words.chainIqh (w : s.Words linked) (hp : linked p) (hh : linked h) {next : U32 → U32}
    (hung : hang 0 h turns s.links p = some next) :
    ∃ s', chainIqh h turns s p = some s' ∧ s'.tree = { s.tree with next := next } ∧ s'.Words linked := by
  induction turns generalizing p with
  | zero => exact absurd hung (by simp [hang])
  | succ turns ih =>
    obtain ⟨canon, on⟩ := w.link p hp
    unfold hang at hung
    unfold QhLists.chainIqh
    split_ifs at hung with here last
    · obtain rfl := Option.some.inj hung
      exact ⟨s, if_pos here, rfl, w⟩
    · obtain rfl := Option.some.inj hung
      have aligned := (w.fine h hh).2
      have links := s.links_setLink p (qhHlnkQh h)
      rw [qhPtr_link aligned] at links
      refine ⟨s.setLink p (qhHlnkQh h), ?_, ?_, ?_, w.entry, w.fine⟩
      · rw [if_neg here, if_pos (canon.end_iff.mpr last)]
      · simp only [QhLists.tree, links]
        rfl
      · intro a ha
        by_cases same : a = p
        · subst same
          refine ⟨?_, .inr ?_⟩
          · simp only [setLink, Function.update_self]
            exact canon_link aligned (w.fine h hh).1
          · rw [links, Function.update_self]
            exact hh
        · have before := w.link a ha
          rw [links, Function.update_of_ne same]
          simp only [setLink, Function.update_of_ne same]
          exact before
    · rw [if_neg here, if_neg (mt canon.end_iff.mp last)]
      exact ih (on.resolve_left last) hung

theorem Words.initEntry {i idx : Nat} {t : IntervalTree U32} (w : s.Words linked) (hi : linked (s.iqh i))
    (entered : IntervalTree.entry 0 turns i s.tree idx = some t) :
    ∃ s', s.initEntry turns i idx = some s' ∧ s'.tree = t ∧ s'.Words linked := by
  unfold IntervalTree.entry at entered
  unfold QhLists.initEntry
  rcases w.entry idx with vacant | ⟨a, ha, word⟩
  · have none : s.tree.table idx = 0 := by
      simp only [QhLists.tree, vacant]
      decide
    rw [if_pos none] at entered
    obtain rfl := Option.some.inj entered
    refine ⟨_, if_pos vacant, ?_, w.link, ?_, w.fine⟩
    · simp only [QhLists.tree, IntervalTree.mk.injEq, and_true]
      refine ⟨rfl, ?_⟩
      funext f
      simp only [Function.update_apply]
      split_ifs
      · exact qhPtr_link (w.fine _ hi).2
      · rfl
    · intro f
      simp only [Function.update_apply]
      split_ifs
      · exact .inr ⟨_, hi, rfl⟩
      · exact w.entry f
  · obtain ⟨some, aligned⟩ := w.fine a ha
    have ptr : qhPtr (s.pfList idx) = a := by rw [word, qhPtr_link aligned]
    have taken : s.pfList idx ≠ 0 := by
      intro zero
      rw [zero] at ptr
      exact some (ptr.symm.trans (by decide))
    have notNil : s.tree.table idx ≠ 0 := by
      simp only [QhLists.tree, ptr]
      exact some
    rw [if_neg notNil] at entered
    obtain ⟨next, hung, rfl⟩ := Option.map_eq_some_iff.mp entered
    simp only [QhLists.tree, ptr] at hung
    rw [if_neg taken, ptr]
    exact w.chainIqh ha hi hung

def Same (s s' : QhLists) : Prop :=
  s'.hQh = s.hQh ∧ s'.qhRemoveList = s.qhRemoveList ∧ s'.freed = s.freed

theorem Same.trans {s s' s'' : QhLists} (h : s.Same s') (h' : s'.Same s'') : s.Same s'' :=
  ⟨h'.1.trans h.1, h'.2.1.trans h.2.1, h'.2.2.trans h.2.2⟩

theorem chainIqh_kept {s' : QhLists} (ran : QhLists.chainIqh h turns s p = some s') :
    s'.iqh = s.iqh ∧ s.Same s' := by
  induction turns generalizing p with
  | zero => exact absurd ran (by simp [QhLists.chainIqh])
  | succ turns ih =>
    unfold QhLists.chainIqh at ran
    split_ifs at ran
    · rw [← Option.some.inj ran]
      exact ⟨rfl, rfl, rfl, rfl⟩
    · rw [← Option.some.inj ran]
      exact ⟨rfl, rfl, rfl, rfl⟩
    · exact ih ran

theorem initEntry_kept {i idx : Nat} {s' : QhLists} (ran : s.initEntry turns i idx = some s') :
    s'.iqh = s.iqh ∧ s.Same s' := by
  unfold QhLists.initEntry at ran
  split_ifs at ran
  · rw [← Option.some.inj ran]
    exact ⟨rfl, rfl, rfl, rfl⟩
  · exact chainIqh_kept ran

variable {alloc : Nat → U32}

def IsHead (alloc : Nat → U32) (i : Nat) (a : U32) : Prop := ∃ k, i ≤ k ∧ k < numIqh ∧ a = alloc k

theorem Words.initLevel {i : Nat} {t : IntervalTree U32} (w : s.Words (IsHead alloc (i + 1)))
    (below : i < numIqh) (fine : ∀ k < numIqh, alloc k ≠ 0 ∧ qhPtr (alloc k) = alloc k)
    (apart : ∀ j < numIqh, ∀ k < numIqh, alloc j = alloc k → j = k)
    (built : level 0 turns flSize s.tree i (alloc i) = some t) :
    ∃ s', s.initLevel alloc turns i = some s' ∧ s'.tree = t ∧ s'.Words (IsHead alloc i) ∧ s.Same s' := by
  have self : IsHead alloc i (alloc i) := ⟨i, le_refl i, below, rfl⟩
  have older : ∀ a, IsHead alloc (i + 1) a → a ≠ alloc i ∧ IsHead alloc i a := by
    rintro a ⟨k, low, high, rfl⟩
    refine ⟨?_, k, by omega, high, rfl⟩
    intro same
    have := apart k high i below same
    omega
  obtain ⟨s₀, hs₀⟩ : ∃ s₀, s₀ = { (s.clear (alloc i)).setLink (alloc i) qhHlnkEnd with
    iqh := Function.update s.iqh i (alloc i) } := ⟨_, rfl⟩
  have links : s₀.links = Function.update s.links (alloc i) 0 := by
    have twice := links_setLink (s := s.clear (alloc i)) (alloc i) qhHlnkEnd
    have once := links_setLink (s := s) (alloc i) 0
    rw [hs₀]
    refine twice.trans ?_
    rw [show (s.clear (alloc i)).links = (s.setLink (alloc i) 0).links from rfl, once, Function.update_idem,
      qhPtr_end]
  have words : s₀.Words (IsHead alloc i) := by
    refine ⟨?_, ?_, ?_⟩
    · rintro a ⟨k, low, high, rfl⟩
      by_cases here : alloc k = alloc i
      · rw [here, links, Function.update_self]
        refine ⟨.inl ?_, .inl rfl⟩
        simp only [hs₀, clear, setLink, Function.update_self]
      · have later : i + 1 ≤ k := by
          rcases Nat.lt_or_eq_of_le low with later | rfl
          · exact later
          · exact absurd rfl here
        obtain ⟨canon, on⟩ := w.link (alloc k) ⟨k, later, high, rfl⟩
        rw [links, Function.update_of_ne here]
        refine ⟨?_, on.imp_right fun h => (older _ h).2⟩
        simpa only [hs₀, clear, setLink, Function.update_of_ne here] using canon
    · intro f
      have entry := w.entry f
      rw [hs₀]
      exact entry.imp_right fun ⟨a, ha, word⟩ => ⟨a, (older a ha).2, word⟩
    · rintro a ⟨k, _, high, rfl⟩
      exact fine k high
  have start : s₀.tree = { s.tree with
      head := Function.update s.tree.head i (alloc i), next := Function.update s.tree.next (alloc i) 0 } := by
    simp only [QhLists.tree, links]
    rw [hs₀]
    rfl
  have head : s₀.iqh i = alloc i := by
    rw [hs₀]
    exact Function.update_self ..
  rw [level, ← start] at built
  have unmoved : s.Same s₀ := by
    rw [hs₀]
    exact ⟨rfl, rfl, rfl⟩
  obtain ⟨s', ran, same, words, -, kept⟩ := Runs.foldlM_simulate
    (fun (s' : QhLists) t => s'.tree = t ∧ s'.Words (IsHead alloc i) ∧ s'.iqh i = alloc i ∧ s.Same s') _
    (fun m _ s t t' related entered => by
      obtain ⟨rfl, words, here, unmoved⟩ := related
      obtain ⟨s', ran, same, words⟩ := words.initEntry (by rw [here]; exact self) entered
      obtain ⟨iqh, kept⟩ := initEntry_kept ran
      exact ⟨s', ran, same, words, by rw [iqh, here], unmoved.trans kept⟩)
    ⟨rfl, words, head, unmoved⟩ built
  refine ⟨s', ?_, same, words, kept⟩
  rw [QhLists.initLevel, ← hs₀]
  exact ran

/-- The loops of `init_periodic_frame_list` end, with the tree that the algorithm on addresses builds. -/
theorem initPeriodicFrameList_built (fine : ∀ k < numIqh, alloc k ≠ 0 ∧ qhPtr (alloc k) = alloc k)
    (apart : ∀ j < numIqh, ∀ k < numIqh, alloc j = alloc k → j = k) (enough : 10 < turns) (s : QhLists) :
    ∃ s', s.initPeriodicFrameList alloc turns = some s' ∧ s'.Words (IsHead alloc 0) ∧ s.Same s' ∧
      Built 0 alloc 10 0 { s with pfList := fun _ => 0 }.tree s'.tree := by
  obtain ⟨t, ran, built⟩ := @build_spec U32 _ 0 turns alloc 10 { s with pfList := fun _ => 0 }.tree
    (fun k le => (fine k (Nat.lt_succ_of_le le)).1)
    (fun j hj k hk => apart j (Nat.lt_succ_of_le hj) k (Nat.lt_succ_of_le hk)) enough (fun _ => by
      simp only [QhLists.tree]
      decide)
  have loop : ∀ n s t, n ≤ numIqh → s.tree = t → s.Words (IsHead alloc n) → ∀ t',
      (List.range n).reverse.foldlM (fun t i => level 0 turns (2 ^ 10) t i (alloc i)) t = some t' →
      ∃ s', (List.range n).reverse.foldlM (QhLists.initLevel alloc turns) s = some s' ∧ s'.tree = t' ∧
        s'.Words (IsHead alloc 0) ∧ s.Same s' := by
    intro n
    induction n with
    | zero =>
      intro s t _ same words t' ran
      exact ⟨s, rfl, same.trans (Option.some.inj ran), words, rfl, rfl, rfl⟩
    | succ n ih =>
      rintro s _ le rfl words t' ran
      rw [List.range_succ, List.reverse_append, List.reverse_singleton, List.singleton_append,
        List.foldlM_cons] at ran ⊢
      obtain ⟨t₁, first, rest⟩ := Option.bind_eq_some_iff.mp ran
      obtain ⟨s₁, here, same, words, kept⟩ := words.initLevel (Nat.lt_of_succ_le le) fine apart first
      obtain ⟨s', there, ends, words, rest⟩ := ih s₁ t₁ (Nat.le_of_succ_le le) same words t' rest
      exact ⟨s', by rw [here]; exact there, ends, words, kept.trans rest⟩
  have none : ({ s with pfList := fun _ => 0 } : QhLists).Words (IsHead alloc numIqh) := by
    refine ⟨?_, fun _ => .inl rfl, ?_⟩
    · rintro a ⟨k, low, high, _⟩
      omega
    · rintro a ⟨k, low, high, _⟩
      omega
  obtain ⟨s', done, same, words, kept⟩ := loop numIqh _ _ (le_refl _) rfl none t ran
  exact ⟨s', done, words, kept, same ▸ built⟩

structure Units (hQh : U32) (alloc : Nat → U32) : Prop where
  fine : ∀ k < numIqh, alloc k ≠ 0 ∧ qhPtr (alloc k) = alloc k
  apart : ∀ j < numIqh, ∀ k < numIqh, alloc j = alloc k → j = k
  hQh_fine : hQh ≠ 0 ∧ qhPtr hQh = hQh
  hQh_apart : ∀ k < numIqh, hQh ≠ alloc k

theorem ehciInit_inv {hQh : U32} (units : Units hQh alloc) (enough : 10 < turns) (s : QhLists) :
    ∃ s', s.ehciInit alloc hQh turns = some s' ∧ s'.Inv .start ∧ s'.hQh = hQh ∧ ∀ k < numIqh, s'.iqh k = alloc k := by
  obtain ⟨s', ran, words, same, built⟩ := initPeriodicFrameList_built units.fine units.apart enough
    { (s.clear hQh).setLink hQh (qhHlnkQh hQh) with hQh := hQh, qhRemoveList := 0, freed := [] }
  have heads : ∀ k < numIqh, s'.iqh k = alloc k := fun k below =>
    built.head k (Nat.zero_le k) (Nat.le_of_lt_succ below)
  have tree : nodes s'.iqh (fun _ => []) numIqh = nodes alloc (fun _ => []) numIqh := nodes_congr heads fun _ _ => rfl
  have head : ∀ q, q ∈ nodes s'.iqh (fun _ => []) numIqh → IsHead alloc 0 q := by
    intro q mem
    rw [tree] at mem
    obtain ⟨k, below, here | here⟩ := mem_nodes.mp mem
    · exact ⟨k, Nat.zero_le k, below, here⟩
    · exact absurd here List.not_mem_nil
  have self : s'.links hQh = hQh := by
    have others := built.others hQh fun k le => units.hQh_apart k (Nat.lt_succ_of_le le)
    refine others.trans ?_
    simp only [QhLists.tree, links, clear, setLink, Function.update_self]
    exact qhPtr_link units.hQh_fine.2
  refine ⟨s', ran, ⟨?_, ?_, same.2.1, ?_, ?_, ?_, ?_, same.2.2⟩, same.1, heads⟩
  · rw [same.1]
    exact ⟨rfl, self⟩
  · have seg : Seg s'.links (alloc 10) (nodes alloc (fun _ => []) numIqh) 0 := built.seg
    rw [← tree, ← heads 10 (by decide)] at seg
    exact seg
  · rw [same.1]
    simp only [QhPlan.live, QhPlan.start, List.nil_append, List.append_nil, tree]
    refine List.nodup_cons.mpr ⟨?_, nodup_heads units.apart⟩
    intro mem
    obtain ⟨k, -, below, here⟩ := head hQh (tree ▸ mem)
    exact units.hQh_apart k below here
  · intro q mem
    rw [same.1] at mem
    simp only [QhPlan.live, QhPlan.start, List.nil_append, List.append_nil, List.mem_cons] at mem
    rcases mem with rfl | mem
    · exact units.hQh_fine
    · exact words.fine q (head q mem)
  · exact fun q mem => (words.link q (head q mem)).1
  · intro f below
    have table := built.table f below
    rw [if_pos (Nat.zero_le _)] at table
    rw [heads _ (Nat.lt_succ_of_le (frameLevel_le 10 f)), ← table]
    rcases words.entry f with zero | ⟨a, ha, word⟩
    · have ptr : s'.tree.table f = 0 := by
        simp only [QhLists.tree, zero]
        decide
      rw [ptr] at table
      exact absurd table.symm (units.fine _ (Nat.lt_succ_of_le (frameLevel_le 10 f))).1
    · simp only [QhLists.tree, word]
      rw [qhPtr_link (words.fine a ha).2]

end QhLists

end NuMakerMA35
