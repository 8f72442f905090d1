import NuMakerMA35.EhciSchedule

namespace NuMakerMA35

open Linked IntervalTree

namespace QhLists

variable {s : QhLists} {a : QhPlan} {qh p : U32} {xs : List U32} {turns : Nat}

theorem onRemoveList_eq (seg : Seg s.next p xs 0) (apart : 0 ∉ xs) (enough : xs.length < turns) :
    s.onRemoveList qh turns p = some (decide (qh ∈ xs)) := by
  induction xs generalizing p turns with
  | nil =>
    obtain ⟨turns, rfl⟩ := Nat.exists_eq_add_of_lt enough
    exact if_pos seg
  | cons x xs ih =>
    obtain ⟨turns, rfl⟩ := Nat.exists_eq_succ_of_ne_zero (Nat.ne_zero_of_lt enough)
    obtain ⟨rfl, rest⟩ := seg
    obtain ⟨notHere, notRest⟩ := not_or.mp (mt List.mem_cons.mpr apart)
    rw [onRemoveList, if_neg (Ne.symm notHere), ih rest notRest (Nat.lt_of_succ_lt_succ enough)]
    split_ifs with here
    · simp [here]
    · simp [Ne.symm here]

theorem iaadRemoveQh_eq (seg : Seg s.next s.qhRemoveList xs 0) (apart : 0 ∉ xs) (enough : xs.length < turns) :
    s.iaadRemoveQh turns = some { s with qhRemoveList := 0, freed := s.freed ++ xs } := by
  induction xs generalizing s turns with
  | nil =>
    obtain ⟨turns, rfl⟩ := Nat.exists_eq_add_of_lt enough
    have done : s.qhRemoveList = 0 := seg
    rw [List.append_nil, ← done]
    exact if_pos done
  | cons x xs ih =>
    obtain ⟨turns, rfl⟩ := Nat.exists_eq_succ_of_ne_zero (Nat.ne_zero_of_lt enough)
    obtain ⟨here, rest⟩ := seg
    obtain ⟨notHere, notRest⟩ := not_or.mp (mt List.mem_cons.mpr apart)
    have some : s.qhRemoveList ≠ 0 := by
      rw [here]
      exact Ne.symm notHere
    rw [iaadRemoveQh, if_neg some, ih (s := { s with qhRemoveList := s.next s.qhRemoveList, freed := _ })
      (by rw [← here] at rest; exact rest) notRest (Nat.lt_of_succ_lt_succ enough)]
    simp only [here, List.append_assoc, List.singleton_append]

theorem findPeriodic_eq (seg : Seg s.links p (p :: xs) 0) (words : ∀ q ∈ p :: xs, Canon (s.hLink q)) :
    s.findPeriodic qh turns p = findPrev s.links qh 0 turns p := by
  induction turns generalizing p xs with
  | zero => rfl
  | succ turns ih =>
    obtain ⟨-, rest⟩ := seg
    rw [findPeriodic, findPrev]
    by_cases last : s.links p = 0
    · rw [if_pos ((words p (List.mem_cons_self ..)).end_iff.mpr last), if_pos last]
    · rw [if_neg (mt (words p (List.mem_cons_self ..)).end_iff.mp last), if_neg last]
      cases xs with
      | nil => exact absurd rest last
      | cons x xs =>
        have here : s.links p = x := rest.1
        have on := @ih x xs (here ▸ rest) fun q hq => words q (List.mem_cons_of_mem _ hq)
        rw [← here] at on
        change (if s.links p = qh then _ else s.findPeriodic qh turns (s.links p)) = _
        rw [on]

theorem links_open {head : U32} (aligned : qhPtr qh = qh) (other : head ≠ qh) :
    ((s.clear qh).linkQh head qh).links =
      Function.update (Function.update s.links qh (s.links head)) head qh := by
  have cleared : (s.clear qh).links = Function.update s.links qh (qhPtr 0) := links_setLink qh 0
  rw [links_linkQh aligned, cleared, Function.update_idem, Function.update_of_ne other]

theorem hLink_open {head q : U32} (other : head ≠ qh) : ((s.clear qh).linkQh head qh).hLink q =
    if q = head then qhHlnkQh qh else if q = qh then s.hLink head else s.hLink q := by
  simp only [linkQh, setLink, clear, Function.update_apply]
  split_ifs <;> rfl

theorem Inv.parts (inv : s.Inv a) : (s.hQh ∉ a.async ∧ s.hQh ∉ nodes s.iqh a.level numIqh ∧ s.hQh ∉ a.removed) ∧
    a.async.Nodup ∧ (nodes s.iqh a.level numIqh).Nodup ∧ a.removed.Nodup ∧
    (∀ q ∈ a.async, q ∉ nodes s.iqh a.level numIqh ∧ q ∉ a.removed) ∧
    ∀ q ∈ nodes s.iqh a.level numIqh, q ∉ a.removed := by
  have nodup := inv.nodup
  simp only [QhPlan.live, List.nodup_cons, List.nodup_append, List.mem_append, not_or] at nodup
  obtain ⟨head, async, ⟨tree, removed, apart⟩, apart'⟩ := nodup
  refine ⟨head, async, tree, removed, ?_, ?_⟩
  · intro q hq
    exact ⟨fun h => apart' q hq q (.inl h) rfl, fun h => apart' q hq q (.inr h) rfl⟩
  · exact fun q hq h => apart q hq q h rfl

theorem heads_mem {k : Nat} (below : k < numIqh) : s.iqh k ∈ nodes s.iqh a.level numIqh :=
  mem_nodes.mpr ⟨k, below, .inl rfl⟩

theorem Inv.zero_not_mem (inv : s.Inv a) : 0 ∉ a.live s.hQh s.iqh := fun mem => (inv.fine 0 mem).1 rfl

theorem Inv.zero_tree (inv : s.Inv a) : 0 ∉ nodes s.iqh a.level numIqh :=
  fun mem => inv.zero_not_mem (List.mem_cons_of_mem _ (List.mem_append_right _ (List.mem_append_left _ mem)))

theorem Inv.zero_removed (inv : s.Inv a) : 0 ∉ a.removed :=
  fun mem => inv.zero_not_mem (List.mem_cons_of_mem _ (List.mem_append_right _ (List.mem_append_right _ mem)))

theorem fresh_parts (new : qh ∉ a.live s.hQh s.iqh) : qh ≠ s.hQh ∧ qh ∉ a.async ∧
    qh ∉ nodes s.iqh a.level numIqh ∧ qh ∉ a.removed := by
  simpa [QhPlan.live, not_or] using new

theorem Inv.openAsync (inv : s.Inv a) (aligned : qhPtr qh = qh) (some : qh ≠ 0)
    (new : qh ∉ a.live s.hQh s.iqh) :
    ((s.clear qh).linkQh s.hQh qh).Inv { a with async := qh :: a.async } := by
  obtain ⟨notHead, notAsync, notTree, notRemoved⟩ := fresh_parts new
  obtain ⟨⟨headAsync, headTree, -⟩, async, -⟩ := inv.parts
  have links := s.links_open aligned notHead.symm
  have live : (QhPlan.live { a with async := qh :: a.async } s.hQh s.iqh).Perm
      (qh :: a.live s.hQh s.iqh) := List.Perm.swap ..
  refine ⟨?_, ?_, inv.removing.update notRemoved 0, ?_, ?_, ?_, inv.table, inv.freed⟩
  · rw [links]
    have nodup : (s.hQh :: a.async).Nodup := List.nodup_cons.mpr ⟨headAsync, async⟩
    exact @Seg.insert _ _ _ _ _ [] _ _ _ inv.ring nodup (by simp [notHead, notAsync])
  · rw [links]
    exact (inv.tree.update notTree _).update headTree _
  · exact live.nodup_iff.mpr (List.nodup_cons.mpr ⟨new, inv.nodup⟩)
  · intro q mem
    rcases List.mem_cons.mp (live.subset mem) with rfl | old
    · exact ⟨some, aligned⟩
    · exact inv.fine q old
  · intro q mem
    have other : q ≠ s.hQh := ne_of_mem_of_not_mem mem headTree
    have older : q ≠ qh := ne_of_mem_of_not_mem mem notTree
    change Canon (((s.clear qh).linkQh s.hQh qh).hLink q)
    rw [hLink_open notHead.symm, if_neg other, if_neg older]
    exact inv.words q mem

theorem Inv.openInt (inv : s.Inv a) (aligned : qhPtr qh = qh) (some : qh ≠ 0)
    (new : qh ∉ a.live s.hQh s.iqh) {k : Nat} (below : k < numIqh) :
    ((s.clear qh).linkQh (s.iqh k) qh).Inv
      { a with level := Function.update a.level k (qh :: a.level k) } := by
  obtain ⟨notHead, notAsync, notTree, notRemoved⟩ := fresh_parts new
  obtain ⟨⟨headAsync, headTree, -⟩, -, tree, -, apart, -⟩ := inv.parts
  have head : s.iqh k ∈ nodes s.iqh a.level numIqh := heads_mem below
  have behind : s.iqh k ≠ qh := ne_of_mem_of_not_mem head notTree
  have links := s.links_open aligned behind
  have more : (nodes s.iqh (Function.update a.level k (qh :: a.level k)) numIqh).Perm
      (qh :: nodes s.iqh a.level numIqh) := by
    have := @nodes_update_cons _ s.iqh a.level _ _ below qh (a.level k)
    rwa [Function.update_eq_self] at this
  have live : (QhPlan.live { a with level := Function.update a.level k (qh :: a.level k) } s.hQh s.iqh).Perm
      (qh :: a.live s.hQh s.iqh) := by
    have inner := (more.append_right a.removed).append_left (s.hQh :: a.async)
    exact inner.trans List.perm_middle
  refine ⟨?_, ?_, inv.removing.update notRemoved 0, ?_, ?_, ?_, inv.table, inv.freed⟩
  · rw [links]
    refine (inv.ring.update ?_ _).update ?_ _
    · simp [notHead, notAsync]
    · exact fun mem => (List.mem_cons.mp mem).elim (fun same => headTree (same ▸ head))
        fun mem => (apart _ mem).1 head
  · rw [links]
    exact seg_link inv.tree tree notTree (Nat.le_of_lt_succ below)
  · exact live.nodup_iff.mpr (List.nodup_cons.mpr ⟨new, inv.nodup⟩)
  · intro q mem
    rcases List.mem_cons.mp (live.subset mem) with rfl | old
    · exact ⟨some, aligned⟩
    · exact inv.fine q old
  · intro q mem
    rw [hLink_open behind]
    split_ifs with first second
    · exact canon_link aligned some
    · exact inv.words _ head
    · exact inv.words q ((List.mem_cons.mp (more.subset mem)).resolve_left second)

theorem links_takeOut (q : U32) : (s.takeOut q qh).links = Function.update s.links q (s.links qh) :=
  links_setLink q (s.hLink qh)

theorem Inv.removing_takeOut (inv : s.Inv a) (q : U32) (notRemoved : qh ∉ a.removed) :
    Seg (s.takeOut q qh).next (s.takeOut q qh).qhRemoveList (qh :: a.removed) 0 := by
  refine ⟨rfl, ?_⟩
  change Seg (Function.update s.next qh s.qhRemoveList) (Function.update s.next qh s.qhRemoveList qh) _ _
  rw [Function.update_self]
  exact inv.removing.update notRemoved _

theorem Inv.quitAsync (inv : s.Inv a) (mem : qh ∈ a.async) (enough : a.async.length < turns) :
    ∃ q, findPrev s.links qh s.hQh turns s.hQh = some (some q) ∧
      (s.takeOut q qh).Inv { a with async := a.async.erase qh, removed := qh :: a.removed } := by
  obtain ⟨⟨headAsync, headTree, -⟩, async, -, -, apart, -⟩ := inv.parts
  obtain ⟨us, vs, -, cut, erased⟩ := List.exists_erase_eq mem
  obtain ⟨bs, before, ends⟩ := exists_before s.hQh us
  have whole : s.hQh :: a.async = bs ++ before :: qh :: vs := by
    have := congrArg (· ++ qh :: vs) ends
    simpa [cut] using this
  have left : s.hQh :: a.async.erase qh = bs ++ before :: vs := by
    have := congrArg (· ++ vs) ends
    simpa [erased] using this
  have nodup : (s.hQh :: a.async).Nodup := List.nodup_cons.mpr ⟨headAsync, async⟩
  have other : before ∉ nodes s.iqh a.level numIqh := by
    have here : before ∈ s.hQh :: a.async := by simp [whole]
    rcases List.mem_cons.mp here with rfl | here
    · exact headTree
    · exact (apart _ here).1
  have live : (QhPlan.live { a with async := a.async.erase qh, removed := qh :: a.removed } s.hQh s.iqh).Perm
      (a.live s.hQh s.iqh) := by
    have back : (qh :: a.async.erase qh).Perm a.async := (List.perm_cons_erase mem).symm
    simp only [QhPlan.live, ← List.append_assoc]
    refine (List.perm_middle.trans ?_).cons _
    exact ((back.append_right _).append_right a.removed)
  refine ⟨before, findPrev_some inv.ring headAsync nodup enough whole, ?_, ?_,
    inv.removing_takeOut before (apart qh mem).2, live.nodup_iff.mpr inv.nodup, ?_, ?_, inv.table, inv.freed⟩
  · rw [links_takeOut]
    change Seg _ s.hQh (s.hQh :: a.async.erase qh) s.hQh
    rw [left]
    exact (whole ▸ inv.ring).remove (whole ▸ nodup)
  · rw [links_takeOut]
    exact inv.tree.update other _
  · exact fun q hq => inv.fine q (live.subset hq)
  · intro q hq
    change Canon (Function.update s.hLink before (s.hLink qh) q)
    rw [Function.update_of_ne (ne_of_mem_of_not_mem hq other)]
    exact inv.words q hq

theorem Inv.quitInt (inv : s.Inv a) {k : Nat} (below : k < numIqh) (mem : qh ∈ a.level k)
    (enough : (nodes s.iqh a.level numIqh).length < turns) :
    ∃ q, findPrev s.links qh 0 turns (s.iqh 10) = some (some q) ∧ (s.takeOut q qh).Inv
      { a with level := Function.update a.level k ((a.level k).erase qh), removed := qh :: a.removed } := by
  obtain ⟨⟨headAsync, headTree, -⟩, -, tree, -, apart, apart'⟩ := inv.parts
  have on : qh ∈ nodes s.iqh a.level numIqh := mem_nodes.mpr ⟨k, below, .inr mem⟩
  obtain ⟨before, found, there, seg⟩ :=
    seg_unlink inv.tree tree inv.zero_tree mem (Nat.le_of_lt_succ below) (le_refl 10) enough
  have back : (qh :: nodes s.iqh (Function.update a.level k ((a.level k).erase qh)) numIqh).Perm
      (nodes s.iqh a.level numIqh) := by
    have more := @nodes_update_cons _ s.iqh a.level _ _ below qh ((a.level k).erase qh)
    have same := @nodes_update_perm _ s.iqh a.level _ _ _ _ below (List.perm_cons_erase mem)
    rw [Function.update_eq_self] at same
    exact (same.trans more).symm
  have live : (QhPlan.live { a with
      level := Function.update a.level k ((a.level k).erase qh), removed := qh :: a.removed } s.hQh s.iqh).Perm
      (a.live s.hQh s.iqh) := by
    have inner := (back.append_right a.removed).append_left (s.hQh :: a.async)
    refine List.Perm.trans ?_ inner
    exact ((List.perm_middle).append_left (s.hQh :: a.async))
  have word : ∀ q ∈ nodes s.iqh a.level numIqh, Canon ((s.takeOut before qh).hLink q) := by
    intro q hq
    change Canon (Function.update s.hLink before (s.hLink qh) q)
    rw [Function.update_apply]
    split_ifs
    · exact inv.words qh on
    · exact inv.words q hq
  refine ⟨before, found, ?_, ?_, inv.removing_takeOut before (apart' qh on), live.nodup_iff.mpr inv.nodup, ?_, ?_,
    inv.table, inv.freed⟩
  · rw [links_takeOut]
    refine inv.ring.update ?_ _
    intro here
    rcases List.mem_cons.mp here with rfl | here
    · exact headTree there
    · exact (apart _ here).1 there
  · rw [links_takeOut]
    exact seg
  · exact fun q hq => inv.fine q (live.subset hq)
  · exact fun q hq => word q (back.subset (List.mem_cons_of_mem _ hq))

theorem levelOf_some {k : Nat} (found : a.levelOf qh = some k) : k < numIqh ∧ qh ∈ a.level k := by
  refine ⟨List.mem_range.mp (List.mem_of_find?_eq_some found), ?_⟩
  simpa using List.find?_some found

theorem levelOf_none (found : a.levelOf qh = none) {k : Nat} (below : k < numIqh) : qh ∉ a.level k := by
  simpa using List.find?_eq_none.mp found k (List.mem_range.mpr below)

theorem live_length {hQh : U32} {iqh : Nat → U32} (enough : (a.live hQh iqh).length < turns) :
    a.async.length < turns ∧ (nodes iqh a.level numIqh).length < turns ∧ a.removed.length < turns := by
  simp only [QhPlan.live, List.length_cons, List.length_append] at enough
  omega

theorem Inv.quit (inv : s.Inv a) (known : ∀ k < numIqh, qh ≠ s.iqh k)
    (enough : (a.live s.hQh s.iqh).length < turns) :
    ∃ s', s.moveQhToRemoveList turns qh = some s' ∧ s'.Inv (a.step (.quit qh)) ∧ s'.hQh = s.hQh ∧
      s'.iqh = s.iqh := by
  obtain ⟨⟨headAsync, -, -⟩, -⟩ := inv.parts
  obtain ⟨fewAsync, fewTree, fewRemoved⟩ := live_length enough
  have listed := @onRemoveList_eq s qh _ _ _ inv.removing inv.zero_removed fewRemoved
  have words : ∀ q ∈ s.iqh 10 :: (a.level 10 ++ nodes s.iqh a.level 10), Canon (s.hLink q) := inv.words
  have search := @findPeriodic_eq s qh _ _ turns inv.tree words
  simp only [moveQhToRemoveList, listed, QhPlan.step]
  by_cases removed : qh ∈ a.removed
  · simp only [removed, decide_true, if_true]
    exact ⟨s, rfl, inv, rfl, rfl⟩
  by_cases async : qh ∈ a.async
  · obtain ⟨q, found, kept⟩ := inv.quitAsync async fewAsync
    simp only [removed, async, if_true, if_false]
    refine ⟨_, ?_, kept, rfl, rfl⟩
    change (findPrev s.links qh s.hQh turns s.hQh).bind _ = _
    rw [found]
    rfl
  have ring := findPrev_none inv.ring headAsync fewAsync async
  simp only [removed, async, if_false]
  cases level : a.levelOf qh with
  | some k =>
    obtain ⟨below, mem⟩ := levelOf_some level
    obtain ⟨q, found, kept⟩ := inv.quitInt below mem fewTree
    refine ⟨_, ?_, kept, rfl, rfl⟩
    change (findPrev s.links qh s.hQh turns s.hQh).bind _ = _
    rw [ring]
    change (s.findPeriodic qh turns (s.iqh 10)).bind _ = _
    rw [search, found]
    rfl
  | none =>
    have absent : qh ∉ nodes s.iqh a.level numIqh := by
      rw [mem_nodes]
      rintro ⟨k, below, here | here⟩
      · exact known k below here
      · exact levelOf_none level below here
    have found := findPrev_absent inv.tree inv.zero_tree absent fewTree
    refine ⟨s, ?_, inv, rfl, rfl⟩
    change (findPrev s.links qh s.hQh turns s.hQh).bind _ = _
    rw [ring]
    change (s.findPeriodic qh turns (s.iqh 10)).bind _ = _
    rw [search, found]
    rfl

theorem Inv.iaa (inv : s.Inv a) (enough : (a.live s.hQh s.iqh).length < turns) :
    ∃ s', s.iaadRemoveQh turns = some s' ∧ s'.Inv (a.step .iaa) ∧ s'.hQh = s.hQh ∧ s'.iqh = s.iqh := by
  have ran := s.iaadRemoveQh_eq inv.removing inv.zero_removed (live_length enough).2.2
  have fewer : (QhPlan.live (a.step .iaa) s.hQh s.iqh).Sublist (a.live s.hQh s.iqh) := by
    simp only [QhPlan.live, QhPlan.step]
    refine (List.Sublist.append_left ?_ _).cons_cons _
    exact List.Sublist.append_left (List.nil_sublist _) _
  refine ⟨_, ran, ⟨inv.ring, inv.tree, rfl, inv.nodup.sublist fewer, ?_, inv.words, inv.table, ?_⟩, rfl, rfl⟩
  · exact fun q mem => inv.fine q (fewer.subset mem)
  · exact congrArg (· ++ a.removed) inv.freed

theorem intLevel_lt (interval : Nat) : intLevel interval < numIqh := by
  unfold intLevel
  split
  next i found =>
    have := List.mem_range.mp (List.mem_of_find?_eq_some found)
    omega
  next => decide

theorem intLevel_pow (interval : Nat) : 2 ^ intLevel interval ≤ max 1 (interval / 8) := by
  have shorter : ∀ j < intLevel interval, interval / 8 / 2 ^ (j + 1) ≠ 0 := by
    unfold intLevel
    split
    next i found =>
      intro j below
      simpa using (List.find?_range_eq_some.mp found).2.2 j below
    next none =>
      intro j below
      simpa using List.find?_eq_none.mp none j (List.mem_range.mpr below)
  cases level : intLevel interval with
  | zero => simp
  | succ j =>
    have := shorter j (by omega)
    rw [← Nat.pos_iff_ne_zero, Nat.div_pos_iff] at this
    omega

variable {hQh : U32} {alloc : Nat → U32}

/-- The lists of a run stand for its plan, with the heads that `ehci_init` made. -/
structure Follows (hQh : U32) (alloc : Nat → U32) (s : QhLists) (a : QhPlan) : Prop where
  inv : s.Inv a
  hQh : s.hQh = hQh
  iqh : ∀ k < numIqh, s.iqh k = alloc k

theorem Follows.live (follows : s.Follows hQh alloc a) : a.live s.hQh s.iqh = a.live hQh alloc := by
  rw [QhPlan.live, QhPlan.live, follows.hQh, nodes_congr follows.iqh fun _ _ => rfl]

theorem Follows.enough (follows : s.Follows hQh alloc a) : (a.live s.hQh s.iqh).length < walkTurns 32 :=
  length_lt_walkTurns follows.inv.nodup

theorem Follows.call {e : QhCall} (follows : s.Follows hQh alloc a) (allowed : a.Allowed hQh alloc e) :
    ∃ s', s.call (walkTurns 32) e = some s' ∧ s'.Follows hQh alloc (a.step e) := by
  obtain ⟨inv, head, heads⟩ := follows
  have live := Follows.live ⟨inv, head, heads⟩
  have enough := Follows.enough ⟨inv, head, heads⟩
  cases e with
  | openAsync qh =>
    obtain ⟨some, aligned, new⟩ := allowed
    exact ⟨_, rfl, inv.openAsync aligned some (live ▸ new), head, heads⟩
  | openInt interval qh =>
    obtain ⟨some, aligned, new⟩ := allowed
    exact ⟨_, rfl, inv.openInt aligned some (live ▸ new) (intLevel_lt interval), head, heads⟩
  | quit qh =>
    have known : ∀ k < numIqh, qh ≠ s.iqh k := fun k below => heads k below ▸ allowed k below
    obtain ⟨s', ran, inv', head', heads'⟩ := inv.quit known enough
    exact ⟨s', ran, inv', head'.trans head, fun k below => heads' ▸ heads k below⟩
  | iaa =>
    obtain ⟨s', ran, inv', head', heads'⟩ := inv.iaa enough
    exact ⟨s', ran, inv', head'.trans head, fun k below => heads' ▸ heads k below⟩

theorem Follows.calls {calls : List QhCall} (follows : s.Follows hQh alloc a)
    (allowed : Runs.StepsMeet QhPlan.step (QhPlan.Allowed hQh alloc) a calls) :
    ∃ s', calls.foldlM (QhLists.call (walkTurns 32)) s = some s' ∧
      s'.Follows hQh alloc (calls.foldl QhPlan.step a) := by
  induction calls generalizing s a with
  | nil => exact ⟨s, rfl, follows⟩
  | cons e calls ih =>
    obtain ⟨first, rest⟩ := Runs.stepsMeet_cons.mp allowed
    obtain ⟨s₁, ran, here⟩ := follows.call first
    obtain ⟨s', ran', there⟩ := ih here rest
    exact ⟨s', by rw [List.foldlM_cons, ran]; exact ran', there⟩

end QhLists

namespace QhPlan

variable {a : QhPlan} {qh : U32} {k : Nat} {e : QhCall} {calls : List QhCall}

def opened : QhCall → List U32
  | .openAsync qh | .openInt _ qh => [qh]
  | .quit _ | .iaa => []

def all (a : QhPlan) : List U32 := a.async ++ (List.range numIqh).flatMap a.level ++ a.removed ++ a.freed

theorem flatMap_update {lvl : Nat → List U32} (below : k < numIqh) (xs : List U32) :
    ∃ us vs, (List.range numIqh).flatMap lvl = us ++ lvl k ++ vs ∧
      (List.range numIqh).flatMap (Function.update lvl k xs) = us ++ xs ++ vs := by
  obtain ⟨us, vs, cut⟩ := List.append_of_mem (List.mem_range.mpr below)
  have apart : k ∉ us ∧ k ∉ vs := by
    have nodup := cut ▸ List.nodup_range (n := numIqh)
    rw [List.nodup_middle, List.nodup_cons, List.mem_append, not_or] at nodup
    exact nodup.1
  have same : ∀ l : List Nat, k ∉ l → l.flatMap (Function.update lvl k xs) = l.flatMap lvl := by
    intro l absent
    apply List.flatMap_congr
    intro m hm
    exact Function.update_of_ne (ne_of_mem_of_not_mem hm absent) ..
  refine ⟨us.flatMap lvl, vs.flatMap lvl, ?_, ?_⟩
  · rw [cut, List.flatMap_append, List.flatMap_cons, List.append_assoc]
  · rw [cut, List.flatMap_append, List.flatMap_cons, same us apart.1, same vs apart.2, Function.update_self,
      List.append_assoc]

def frame (a : QhPlan) (iqh : Nat → U32) (f : Nat) : List U32 := nodes iqh a.level (frameLevel 10 f + 1)

theorem all_step (a : QhPlan) (e : QhCall) : (a.step e).all.Perm (opened e ++ a.all) := by
  cases e with
  | openAsync qh => exact List.Perm.refl _
  | openInt interval qh =>
    obtain ⟨us, vs, before, after⟩ := @flatMap_update _ a.level (QhLists.intLevel_lt interval)
      (qh :: a.level (QhLists.intLevel interval))
    simp only [all, step, before, after, opened]
    rw [List.perm_iff_count]
    intro x
    simp only [List.count_append, List.count_cons, List.count_nil]
    omega
  | quit qh =>
    simp only [step, opened, List.nil_append]
    split_ifs with removed async
    · exact List.Perm.refl _
    · have back := (List.perm_cons_erase async).symm
      rw [List.perm_iff_count] at back ⊢
      intro x
      have := back x
      simp only [all, List.count_append, List.count_cons] at this ⊢
      omega
    · cases level : a.levelOf qh with
      | none => exact List.Perm.refl _
      | some k =>
        obtain ⟨below, mem⟩ := QhLists.levelOf_some level
        obtain ⟨us, vs, before, after⟩ := @flatMap_update _ a.level below ((a.level k).erase qh)
        have back := (List.perm_cons_erase mem).symm
        simp only [all, before, after]
        rw [List.perm_iff_count] at back ⊢
        intro x
        have := back x
        simp only [List.count_append, List.count_cons] at this ⊢
        omega
  | iaa =>
    simp only [all, step, opened, List.nil_append, List.append_nil]
    rw [List.perm_iff_count]
    intro x
    simp only [List.count_append]
    omega

theorem all_calls (calls : List QhCall) (a : QhPlan) :
    (calls.foldl step a).all.Perm (calls.flatMap opened ++ a.all) := by
  induction calls generalizing a with
  | nil => exact List.Perm.refl _
  | cons e calls ih =>
    have rest := (ih (a.step e)).trans ((a.all_step e).append_left _)
    rw [List.flatMap_cons, List.append_assoc]
    refine rest.trans ?_
    rw [← List.append_assoc, ← List.append_assoc]
    exact List.perm_append_comm.append_right _

theorem level_step (mem : qh ∈ a.level k) (other : e ≠ .quit qh) : qh ∈ (a.step e).level k := by
  have apart : ∀ qh', e = .quit qh' → qh ≠ qh' := by
    rintro qh' rfl rfl
    exact other rfl
  cases e with
  | openAsync => exact mem
  | openInt interval qh' =>
    simp only [step, Function.update_apply]
    split_ifs with here
    · exact List.mem_cons_of_mem _ (here ▸ mem)
    · exact mem
  | quit qh' =>
    simp only [step]
    split_ifs
    · exact mem
    · exact mem
    · cases a.levelOf qh' with
      | none => exact mem
      | some j =>
        simp only [Function.update_apply]
        split_ifs with here
        · exact (List.mem_erase_of_ne (apart qh' rfl)).mpr (here ▸ mem)
        · exact mem
  | iaa => exact mem

theorem level_calls (mem : qh ∈ a.level k) (others : .quit qh ∉ calls) :
    qh ∈ (calls.foldl step a).level k := by
  induction calls generalizing a with
  | nil => exact mem
  | cons e calls ih =>
    obtain ⟨other, rest⟩ := not_or.mp (mt List.mem_cons.mpr others)
    exact ih (level_step mem (Ne.symm other)) rest

end QhPlan

theorem QhLists.Follows.frame {s : QhLists} {hQh : U32} {alloc : Nat → U32} {a : QhPlan}
    (follows : s.Follows hQh alloc a) (f : Nat) :
    a.frame alloc f = nodes s.iqh a.level (frameLevel 10 f + 1) := by
  refine nodes_congr ?_ fun _ _ => rfl
  intro k below
  have le := frameLevel_le 10 f
  exact (follows.iqh k (by unfold numIqh; omega)).symm

open QhLists in
/-- In every run of the calls the lists are found intact: the controller meets the ring of the queue heads
for control and bulk transfers, and in each frame those of the intervals that end with it; an endpoint
that was not quit is met in just the frames of its interval, and no queue head is lost. -/
theorem ehci_schedule_served {hQh : U32} {alloc : Nat → U32} (units : Units hQh alloc) (s : QhLists)
    (calls : List QhCall) (allowed : Runs.StepsMeet QhPlan.step (QhPlan.Allowed hQh alloc) .start calls) :
    ∃ s₀ s' : QhLists, s.ehciInit alloc hQh (walkTurns 32) = some s₀ ∧
      calls.foldlM (QhLists.call (walkTurns 32)) s₀ = some s' ∧
      (let a := calls.foldl QhPlan.step .start
      walk s'.links hQh (walkTurns 32) (s'.links hQh) = some a.async ∧
      (∀ f < flSize, walk s'.links 0 (walkTurns 32) (qhPtr (s'.pfList f)) = some (a.frame alloc f)) ∧
      walk s'.next 0 (walkTurns 32) s'.qhRemoveList = some a.removed ∧ s'.freed = a.freed ∧
      a.all.Perm (calls.flatMap QhPlan.opened) ∧
      ∀ pre interval qh post, calls = pre ++ .openInt interval qh :: post → .quit qh ∉ post →
        ∀ f, qh ∈ a.frame alloc f ↔ 2 ^ intLevel interval ∣ f + 1) := by
  obtain ⟨s₀, start, inv₀, head₀, heads₀⟩ := ehciInit_inv units (by decide : 10 < walkTurns 32) s
  obtain ⟨s', ran, follows⟩ := Follows.calls ⟨inv₀, head₀, heads₀⟩ allowed
  refine ⟨s₀, s', start, ran, ?_⟩
  obtain ⟨a, ha⟩ : ∃ a, a = calls.foldl QhPlan.step .start := ⟨_, rfl⟩
  rw [← ha] at follows ⊢
  have frame := follows.frame
  obtain ⟨inv, head, -⟩ := follows
  obtain ⟨fewAsync, fewTree, fewRemoved⟩ := live_length (length_lt_walkTurns inv.nodup)
  obtain ⟨⟨headAsync, -, -⟩, -, tree, -⟩ := inv.parts
  refine ⟨?_, ?_, walk_eq inv.removing inv.zero_removed fewRemoved, inv.freed, ?_, ?_⟩
  · rw [← head]
    exact walk_eq inv.ring.2 headAsync fewAsync
  · intro f below
    have entered : qhPtr (s'.pfList f) = s'.iqh (frameLevel 10 f) := by
      have on := @heads_mem s' a _ (Nat.lt_succ_of_le (frameLevel_le 10 f))
      rw [inv.table f below, qhPtr_link]
      exact (inv.fine _ (by simp [QhPlan.live, on])).2
    rw [entered, frame]
    exact walk_frame inv.tree inv.zero_tree fewTree f
  · have all := QhPlan.all_calls calls .start
    rw [← ha, show QhPlan.start.all = [] from rfl, List.append_nil] at all
    exact all
  · intro pre interval qh post cut stays f
    have linked : qh ∈ a.level (intLevel interval) := by
      rw [ha, cut, List.foldl_append, List.foldl_cons]
      apply QhPlan.level_calls _ stays
      simp [QhPlan.step]
    rw [frame]
    exact mem_frame_iff tree (Nat.le_of_lt_succ (intLevel_lt interval)) linked f

theorem ehci_schedule_least : ∃ s₀ s' : QhLists,
    QhLists.ehciInit (fun k => BitVec.ofNat 32 (0x100 + 0x20 * k)) 0x80 (walkTurns 32)
      ⟨fun _ => 0, fun _ => 0, fun _ => 0, 0, fun _ => 0, 0, []⟩ = some s₀ ∧
      [.openInt 32 0x400, .openInt 8 0x420, .quit 0x420, .iaa].foldlM (QhLists.call (walkTurns 32)) s₀ = some s' ∧
      s'.freed = [0x420] ∧ ∀ f < flSize, (walk s'.links 0 (walkTurns 32) (qhPtr (s'.pfList f))).map
        (fun met => decide (0x400 ∈ met)) = some (decide (4 ∣ f + 1)) := by
  have units : QhLists.Units 0x80 fun k => BitVec.ofNat 32 (0x100 + 0x20 * k) := by
    refine ⟨by decide, by decide, by decide, by decide⟩
  obtain ⟨s₀, s', start, ran, -, frames, -, freed, -, served⟩ := ehci_schedule_served units
    ⟨fun _ => 0, fun _ => 0, fun _ => 0, 0, fun _ => 0, 0, []⟩
    [.openInt 32 0x400, .openInt 8 0x420, .quit 0x420, .iaa] (by
      simp only [Runs.stepsMeet_cons]
      refine ⟨?_, ?_, ?_, trivial, Runs.stepsMeet_nil⟩
      · decide
      · decide
      · decide)
  refine ⟨s₀, s', start, ran, freed, ?_⟩
  intro f below
  have met := served [] 32 0x400 [.openInt 8 0x420, .quit 0x420, .iaa] rfl (by simp) f
  rw [frames f below, Option.map_some, decide_eq_decide.mpr met]
  rfl

end NuMakerMA35
