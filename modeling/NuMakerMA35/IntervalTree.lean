import NuMakerMA35.Linked
import Mathlib.Algebra.Order.Group.Nat
import Mathlib.Data.Nat.Find
import Mathlib.Tactic.Ring

namespace NuMakerMA35

/-- Chains of nodes that run together: `table` has the first node of each frame's chain, and `head`
the node that stands for an interval of `2 ^ i` frames. -/
structure IntervalTree (α : Type) where
  next : α → α
  table : Nat → α
  head : Nat → α

namespace IntervalTree

open Linked

variable {α : Type}

section Build

variable [DecidableEq α] (nil : α)

/-- The walk down a chain that puts `h` at its end, unless it is there. -/
def hang (h : α) : Nat → (α → α) → α → Option (α → α)
  | 0, _, _ => none
  | turns + 1, next, p =>
    if p = h then some next
    else if next p = nil then some (Function.update next p h)
    else hang h turns next (next p)

def entry (turns i : Nat) (t : IntervalTree α) (idx : Nat) : Option (IntervalTree α) :=
  if t.table idx = nil then some { t with table := Function.update t.table idx (t.head i) }
  else (hang nil (t.head i) turns t.next (t.table idx)).map fun next => { t with next := next }

/-- The head of interval `2 ^ i` is put into the frame before every multiple of it. -/
def level (turns frames : Nat) (t : IntervalTree α) (i : Nat) (h : α) : Option (IntervalTree α) :=
  (List.range (frames / 2 ^ i)).foldlM (fun t m => entry nil turns i t ((m + 1) * 2 ^ i - 1))
    { t with head := Function.update t.head i h, next := Function.update t.next h nil }

def build (turns frames : Nat) (heads : Nat → α) (n : Nat) (t : IntervalTree α) : Option (IntervalTree α) :=
  (List.range n).reverse.foldlM (fun t i => level nil turns frames t i (heads i)) t

end Build

/-- The longest of the intervals up to `2 ^ top` that a frame is the last of. -/
def frameLevel (top f : Nat) : Nat := Nat.findGreatest (fun k => 2 ^ k ∣ f + 1) top

theorem frameLevel_le (top f : Nat) : frameLevel top f ≤ top := Nat.findGreatest_le top

theorem le_frameLevel_iff {top k : Nat} (f : Nat) (below : k ≤ top) :
    k ≤ frameLevel top f ↔ 2 ^ k ∣ f + 1 := by
  constructor
  · intro le
    have greatest : 2 ^ frameLevel top f ∣ f + 1 :=
      Nat.findGreatest_spec (P := fun k => 2 ^ k ∣ f + 1) (Nat.zero_le top) (Nat.one_dvd _)
    exact (pow_dvd_pow 2 le).trans greatest
  · intro divides
    exact Nat.le_findGreatest below divides

/-- The nodes of the intervals below `2 ^ n`: each head with what is linked behind it. -/
def nodes (head : Nat → α) (lvl : Nat → List α) : Nat → List α
  | 0 => []
  | n + 1 => head n :: (lvl n ++ nodes head lvl n)

def above (head : Nat → α) (lvl : Nat → List α) (k : Nat) : Nat → List α
  | 0 => []
  | n + 1 => if n ≤ k then [] else head n :: (lvl n ++ above head lvl k n)

section Nodes

variable {head : Nat → α} {lvl : Nat → List α} {k n : Nat}

theorem nodes_split (below : k < n) :
    nodes head lvl n = above head lvl k n ++ head k :: (lvl k ++ nodes head lvl k) := by
  induction n with
  | zero => omega
  | succ n ih =>
    rw [nodes, above]
    split_ifs with here
    · obtain rfl : n = k := by omega
      rfl
    · rw [ih (by omega), List.cons_append, List.append_assoc]

theorem nodes_update (xs : List α) : nodes head (Function.update lvl k xs) k = nodes head lvl k := by
  have below : ∀ m, m ≤ k → nodes head (Function.update lvl k xs) m = nodes head lvl m := by
    intro m
    induction m with
    | zero => exact fun _ => rfl
    | succ m ih =>
      intro le
      rw [nodes, nodes, ih (by omega), Function.update_of_ne (by omega)]
  exact below k (le_refl k)

theorem above_update (xs : List α) :
    above head (Function.update lvl k xs) k n = above head lvl k n := by
  induction n with
  | zero => rfl
  | succ n ih =>
    rw [above, above]
    split_ifs with here
    · rfl
    · rw [ih, Function.update_of_ne (by omega)]

theorem nodes_update_split (below : k < n) (xs : List α) : nodes head (Function.update lvl k xs) n =
    above head lvl k n ++ head k :: (xs ++ nodes head lvl k) := by
  rw [nodes_split below, above_update, nodes_update, Function.update_self]

theorem nodes_update_perm {xs ys : List α} (below : k < n) (same : xs.Perm ys) :
    (nodes head (Function.update lvl k xs) n).Perm (nodes head (Function.update lvl k ys) n) := by
  rw [nodes_update_split below, nodes_update_split below]
  exact ((same.append_right _).cons _).append_left _

theorem nodes_update_cons (below : k < n) (x : α) (xs : List α) :
    (nodes head (Function.update lvl k (x :: xs)) n).Perm (x :: nodes head (Function.update lvl k xs) n) := by
  rw [nodes_update_split below, nodes_update_split below]
  have middle := @List.perm_middle _ x (above head lvl k n ++ [head k]) (xs ++ nodes head lvl k)
  simpa using middle

theorem mem_nodes {x : α} : x ∈ nodes head lvl n ↔ ∃ k < n, x = head k ∨ x ∈ lvl k := by
  induction n with
  | zero => simp [nodes]
  | succ n ih =>
    simp only [nodes, List.mem_cons, List.mem_append, ih, Nat.lt_succ_iff_lt_or_eq]
    constructor
    · rintro (here | here | ⟨k, below, here⟩)
      · exact ⟨n, .inr rfl, .inl here⟩
      · exact ⟨n, .inr rfl, .inr here⟩
      · exact ⟨k, .inl below, here⟩
    · rintro ⟨k, below | rfl, here⟩
      · exact .inr (.inr ⟨k, below, here⟩)
      · exact here.imp id .inl

theorem nodes_congr {head' : Nat → α} {lvl' : Nat → List α} (heads : ∀ k < n, head k = head' k)
    (lists : ∀ k < n, lvl k = lvl' k) : nodes head lvl n = nodes head' lvl' n := by
  induction n with
  | zero => rfl
  | succ n ih =>
    rw [nodes, nodes, heads n (Nat.lt_succ_self n), lists n (Nat.lt_succ_self n),
      ih (fun k below => heads k (Nat.lt_succ_of_lt below)) fun k below => lists k (Nat.lt_succ_of_lt below)]

theorem nodup_heads (apart : ∀ j < n, ∀ k < n, head j = head k → j = k) :
    (nodes head (fun _ => []) n).Nodup := by
  induction n with
  | zero => exact List.nodup_nil
  | succ n ih =>
    rw [nodes, List.nil_append]
    refine List.nodup_cons.mpr ⟨?_, ih fun j hj k hk => apart j (by omega) k (by omega)⟩
    intro mem
    obtain ⟨k, below, here | here⟩ := mem_nodes.mp mem
    · have := apart n (by omega) k (by omega) here
      omega
    · exact absurd here List.not_mem_nil

theorem level_sublist (below : k < n) : (lvl k).Sublist (nodes head lvl n) := by
  rw [nodes_split below]
  exact ((List.sublist_append_left ..).trans (List.sublist_cons_self ..)).trans (List.sublist_append_right ..)

theorem level_unique {j : Nat} {x : α} (nodup : (nodes head lvl n).Nodup) (hk : k < n) (hj : j < n)
    (mem : x ∈ lvl k) (again : x ∈ lvl j) : j = k := by
  induction n with
  | zero => omega
  | succ n ih =>
    obtain ⟨-, rest⟩ := List.nodup_cons.mp nodup
    obtain ⟨-, below, apart⟩ := List.nodup_append.mp rest
    rcases Nat.lt_succ_iff_lt_or_eq.mp hk with hk | rfl <;> rcases Nat.lt_succ_iff_lt_or_eq.mp hj with hj | rfl
    · exact ih below hk hj
    · exact absurd rfl (apart x again x (mem_nodes.mpr ⟨k, hk, .inr mem⟩))
    · exact absurd rfl (apart x mem x (mem_nodes.mpr ⟨j, hj, .inr again⟩))
    · rfl

end Nodes

theorem foldlM_range_some {σ : Type} {f : σ → Nat → Option σ} (P : Nat → σ → Prop) {n : Nat} {s : σ}
    (start : P 0 s) (step : ∀ m < n, ∀ s, P m s → ∃ s', f s m = some s' ∧ P (m + 1) s') :
    ∃ s', (List.range n).foldlM f s = some s' ∧ P n s' := by
  induction n with
  | zero => exact ⟨s, rfl, start⟩
  | succ n ih =>
    obtain ⟨s₁, ran, here⟩ := ih fun m below => step m (Nat.lt_succ_of_lt below)
    obtain ⟨s₂, last, there⟩ := step n (Nat.lt_succ_self n) s₁ here
    refine ⟨s₂, ?_, there⟩
    simp only [List.range_succ, List.foldlM_append, ran, List.foldlM_cons, List.foldlM_nil]
    simp [last]

def down (heads : Nat → α) (i : Nat) : Nat → List α
  | 0 => [heads i]
  | c + 1 => heads (i + c + 1) :: down heads i c

theorem mem_down {heads : Nat → α} {i c : Nat} {x : α} : x ∈ down heads i c ↔ ∃ r ≤ c, x = heads (i + r) := by
  induction c with
  | zero => simp [down]
  | succ c ih =>
    simp only [down, List.mem_cons, ih, Nat.le_succ_iff]
    constructor
    · rintro (here | ⟨r, le, here⟩)
      · exact ⟨c + 1, .inr rfl, here⟩
      · exact ⟨r, .inl le, here⟩
    · rintro ⟨r, le | rfl, here⟩
      · exact .inr ⟨r, le, here⟩
      · exact .inl here

theorem down_eq_nodes (heads : Nat → α) (n : Nat) : down heads 0 n = nodes heads (fun _ => []) (n + 1) := by
  induction n with
  | zero => rfl
  | succ n ih =>
    rw [down, ih, nodes, Nat.zero_add]
    rfl

theorem seg_down {next : α → α} {heads : Nat → α} {i c : Nat}
    (chain : ∀ k, i ≤ k → k < i + c → next (heads (k + 1)) = heads k) :
    Seg next (heads (i + c)) (down heads i c) (next (heads i)) := by
  induction c with
  | zero => exact ⟨rfl, rfl⟩
  | succ c ih =>
    refine ⟨rfl, ?_⟩
    rw [chain (i + c) (by omega) (by omega)]
    exact ih fun k low high => chain k low (by omega)

section Build

variable [DecidableEq α] {nil h p : α} {next : α → α} {xs : List α} {turns : Nat}

theorem hang_found (seg : Seg next p xs h) (apart : nil ∉ xs) (some : h ≠ nil) (enough : xs.length < turns) :
    hang nil h turns next p = .some next := by
  induction xs generalizing p turns with
  | nil =>
    obtain ⟨turns, rfl⟩ := Nat.exists_eq_add_of_lt enough
    exact if_pos seg
  | cons x xs ih =>
    obtain ⟨turns, rfl⟩ := Nat.exists_eq_succ_of_ne_zero (Nat.ne_zero_of_lt enough)
    obtain ⟨rfl, rest⟩ := seg
    by_cases here : p = h
    · exact if_pos here
    · have on : next p ≠ nil := by
        intro last
        cases xs with
        | nil => exact some (rest.symm.trans last)
        | cons y ys => exact apart (by simp [← last, rest.1])
      rw [hang, if_neg here, if_neg on]
      exact ih rest (fun mem => apart (List.mem_cons_of_mem _ mem)) (Nat.lt_of_succ_lt_succ enough)

theorem hang_append {z : α} (seg : Seg next p (xs ++ [z]) nil) (apart : nil ∉ xs ++ [z])
    (fresh : h ∉ xs ++ [z]) (enough : xs.length < turns) :
    hang nil h turns next p = some (Function.update next z h) := by
  induction xs generalizing p turns with
  | nil =>
    obtain ⟨turns, rfl⟩ := Nat.exists_eq_add_of_lt enough
    obtain ⟨rfl, last⟩ := seg
    have other : p ≠ h := fun same => fresh (by simp [same])
    exact (if_neg other).trans (if_pos last)
  | cons x xs ih =>
    obtain ⟨turns, rfl⟩ := Nat.exists_eq_succ_of_ne_zero (Nat.ne_zero_of_lt enough)
    obtain ⟨rfl, rest⟩ := seg
    have other : p ≠ h := fun same => fresh (by simp [same])
    have on : next p ≠ nil := by
      intro last
      cases xs with
      | nil => exact apart (by simp [← last, rest.1])
      | cons y ys => exact apart (by simp [← last, rest.1])
    rw [hang, if_neg other, if_neg on]
    exact ih rest (fun mem => apart (List.mem_cons_of_mem _ mem))
      (fun mem => fresh (List.mem_cons_of_mem _ mem)) (Nat.lt_of_succ_lt_succ enough)

variable {heads : Nat → α} {top i m : Nat} {t₀ t : IntervalTree α}

/-- The tree with the heads from `i` on, and those of interval `2 ^ i` in the first `m` frames only;
the chain down to it is joined when its second frame comes. -/
structure Part (nil : α) (heads : Nat → α) (top i m : Nat) (t₀ t : IntervalTree α) : Prop where
  head : ∀ k, i ≤ k → k ≤ top → t.head k = heads k
  table : ∀ f, f < 2 ^ top → t.table f =
    if i < frameLevel top f ∨ frameLevel top f = i ∧ f + 1 ≤ m * 2 ^ i then heads (frameLevel top f) else nil
  chain : ∀ k, i < k → k < top → t.next (heads (k + 1)) = heads k
  link : i < top → t.next (heads (i + 1)) = if 2 ≤ m then heads i else nil
  last : t.next (heads i) = nil
  others : ∀ x, (∀ k ≤ top, x ≠ heads k) → t.next x = t₀.next x

theorem next_of_level {f : Nat} (below : i ≤ top) (here : frameLevel top f = i) (low : m * 2 ^ i < f + 1)
    (high : f + 1 ≤ (m + 1) * 2 ^ i) : f + 1 = (m + 1) * 2 ^ i := by
  obtain ⟨c, hc⟩ := (le_frameLevel_iff f below).mp here.ge
  rw [hc, Nat.mul_comm (2 ^ i) c] at low high
  have above : m < c := Nat.lt_of_mul_lt_mul_right low
  have notAbove : c ≤ m + 1 := Nat.le_of_mul_le_mul_right high (Nat.two_pow_pos i)
  obtain rfl : c = m + 1 := by omega
  rw [hc, Nat.mul_comm]

omit [DecidableEq α] in
theorem exists_down_append (i c : Nat) : ∃ xs, down heads i c = xs ++ [heads i] ∧ xs.length = c := by
  induction c with
  | zero => exact ⟨[], rfl, rfl⟩
  | succ c ih =>
    obtain ⟨xs, whole, length⟩ := ih
    exact ⟨heads (i + c + 1) :: xs, by rw [down, whole, List.cons_append], by rw [List.length_cons, length]⟩

theorem Part.entry_longer {idx : Nat} (part : Part nil heads top i m t₀ t) (below : i ≤ top)
    (succ : idx + 1 = (m + 1) * 2 ^ i) (inside : idx < 2 ^ top) (longer : i < frameLevel top idx)
    (some : ∀ k ≤ top, heads k ≠ nil) (apart : ∀ j ≤ top, ∀ k ≤ top, heads j = heads k → j = k)
    (enough : top < turns) :
    ∃ t', entry nil turns i t idx = .some t' ∧ Part nil heads top i (m + 1) t₀ t' := by
  have pos : 0 < 2 ^ i := Nat.two_pow_pos i
  have grow : (m + 1) * 2 ^ i = m * 2 ^ i + 2 ^ i := Nat.succ_mul ..
  have le := frameLevel_le top idx
  obtain ⟨c, hc⟩ := Nat.exists_eq_add_of_lt longer
  have later : 1 ≤ m := by
    obtain ⟨d, hd⟩ := (le_frameLevel_iff idx (show i + 1 ≤ top by omega)).mp longer
    rw [succ, pow_succ, Nat.mul_assoc, Nat.mul_comm (m + 1)] at hd
    have even : m + 1 = 2 * d := Nat.eq_of_mul_eq_mul_left pos hd
    omega
  have start : t.table idx = heads (i + 1 + c) := by
    rw [part.table idx inside, if_pos (.inl longer), hc, Nat.add_right_comm]
  have seg := @seg_down _ t.next heads (i + 1) c
    fun k low high => part.chain k low (by omega)
  obtain ⟨xs, whole, length⟩ := @exists_down_append _ heads (i + 1) c
  have notNil : nil ∉ down heads (i + 1) c := by
    intro mem
    obtain ⟨r, le, here⟩ := mem_down.mp mem
    exact some (i + 1 + r) (by omega) here.symm
  have fresh : heads i ∉ down heads (i + 1) c := by
    intro mem
    obtain ⟨r, le, here⟩ := mem_down.mp mem
    have := apart i below (i + 1 + r) (by omega) here
    omega
  have table : ∀ f, f < 2 ^ top → t.table f = if i < frameLevel top f ∨
      frameLevel top f = i ∧ f + 1 ≤ (m + 1) * 2 ^ i then heads (frameLevel top f) else nil := by
    intro f hf
    rw [part.table f hf]
    congr 1
    apply propext
    constructor
    · rintro (here | ⟨here, low⟩)
      · exact .inl here
      · exact .inr ⟨here, by omega⟩
    · rintro (here | ⟨here, high⟩)
      · exact .inl here
      · refine .inr ⟨here, ?_⟩
        by_contra low
        have same : f = idx := by
          have := next_of_level below here (by omega) high
          omega
        subst same
        omega
  have link := part.link (by omega)
  unfold IntervalTree.entry
  rw [if_neg (by rw [start]; exact some _ (by omega)), start, part.head i (le_refl i) below]
  by_cases twice : 2 ≤ m
  · -- the chain leads to the head already
    rw [if_pos twice] at link
    rw [link, whole] at seg
    rw [whole] at notNil
    refine ⟨t, ?_, part.head, table, part.chain, ?_, part.last, part.others⟩
    · rw [hang_found seg notNil (some i below) (by rw [List.length_append, length, List.length_singleton]; omega)]
      rfl
    · exact fun _ => link.trans (if_pos (by omega)).symm
  · rw [if_neg twice] at link
    rw [link, whole] at seg
    rw [whole] at notNil fresh
    refine ⟨_, congrArg (Option.map _) (hang_append seg notNil fresh (by omega)), part.head, table,
      ?_, ?_, ?_, ?_⟩
    · intro k low high
      have other : heads (k + 1) ≠ heads (i + 1) := by
        intro same
        have := apart (k + 1) high (i + 1) (by omega) same
        omega
      exact (Function.update_of_ne other ..).trans (part.chain k low high)
    · intro _
      exact (Function.update_self ..).trans (if_pos (by omega)).symm
    · have other : heads i ≠ heads (i + 1) := by
        intro same
        have := apart i below (i + 1) (by omega) same
        omega
      exact (Function.update_of_ne other ..).trans part.last
    · intro x hx
      exact (Function.update_of_ne (hx (i + 1) (by omega)) ..).trans (part.others x hx)

theorem Part.entry_same {idx : Nat} (part : Part nil heads top i m t₀ t) (below : i ≤ top)
    (succ : idx + 1 = (m + 1) * 2 ^ i) (inside : idx < 2 ^ top) (same : frameLevel top idx = i) :
    ∃ t', entry nil turns i t idx = some t' ∧ Part nil heads top i (m + 1) t₀ t' := by
  have pos : 0 < 2 ^ i := Nat.two_pow_pos i
  have grow : (m + 1) * 2 ^ i = m * 2 ^ i + 2 ^ i := Nat.succ_mul ..
  have vacant : t.table idx = nil := by
    rw [part.table idx inside, if_neg]
    rintro (here | ⟨-, here⟩)
    · omega
    · omega
  -- the second frame of the interval is one of a longer interval
  have notSecond : i < top → m ≠ 1 := by
    rintro room rfl
    have divides : 2 ^ (i + 1) ∣ idx + 1 := by
      rw [succ, pow_succ, Nat.mul_comm]
    have := (le_frameLevel_iff idx room).mpr divides
    omega
  unfold IntervalTree.entry
  rw [if_pos vacant, part.head i (le_refl i) below]
  refine ⟨_, rfl, part.head, ?_, part.chain, ?_, part.last, part.others⟩
  · intro f hf
    dsimp only
    by_cases here : f = idx
    · subst here
      rw [Function.update_self, if_pos (.inr ⟨same, by omega⟩), same]
    · rw [Function.update_of_ne here, part.table f hf]
      congr 1
      apply propext
      constructor
      · rintro (there | ⟨there, low⟩)
        · exact .inl there
        · exact .inr ⟨there, by omega⟩
      · rintro (there | ⟨there, high⟩)
        · exact .inl there
        · refine .inr ⟨there, ?_⟩
          by_contra low
          have := next_of_level below there (by omega) high
          omega
  · intro room
    have link := part.link room
    have other := notSecond room
    rw [link]
    congr 1
    apply propext
    omega

theorem Part.entry (part : Part nil heads top i m t₀ t) (below : i ≤ top) (more : m < 2 ^ top / 2 ^ i)
    (some : ∀ k ≤ top, heads k ≠ nil) (apart : ∀ j ≤ top, ∀ k ≤ top, heads j = heads k → j = k)
    (enough : top < turns) :
    ∃ t', entry nil turns i t ((m + 1) * 2 ^ i - 1) = .some t' ∧ Part nil heads top i (m + 1) t₀ t' := by
  have split : 2 ^ top = 2 ^ top / 2 ^ i * 2 ^ i := (Nat.div_mul_cancel (pow_dvd_pow 2 below)).symm
  have room : (m + 1) * 2 ^ i ≤ 2 ^ top := by
    rw [split]
    exact Nat.mul_le_mul_right _ more
  have least : 0 < (m + 1) * 2 ^ i := Nat.mul_pos (Nat.succ_pos m) (Nat.two_pow_pos i)
  have succ : (m + 1) * 2 ^ i - 1 + 1 = (m + 1) * 2 ^ i := by omega
  have atLeast : i ≤ frameLevel top ((m + 1) * 2 ^ i - 1) := by
    rw [le_frameLevel_iff _ below, succ]
    exact Nat.dvd_mul_left ..
  rcases Nat.lt_or_eq_of_le atLeast with longer | same
  · exact part.entry_longer below succ (by omega) longer some apart enough
  · exact part.entry_same below succ (by omega) same.symm

/-- The tree with the heads from `i` on: each frame's chain starts with the head of its longest
interval, and leads from each head to the next. -/
structure Built (nil : α) (heads : Nat → α) (top i : Nat) (t₀ t : IntervalTree α) : Prop where
  head : ∀ k, i ≤ k → k ≤ top → t.head k = heads k
  table : ∀ f, f < 2 ^ top → t.table f = if i ≤ frameLevel top f then heads (frameLevel top f) else nil
  chain : ∀ k, i ≤ k → k < top → t.next (heads (k + 1)) = heads k
  last : i ≤ top → t.next (heads i) = nil
  others : ∀ x, (∀ k ≤ top, x ≠ heads k) → t.next x = t₀.next x

theorem Built.level (built : Built nil heads top (i + 1) t₀ t) (below : i ≤ top)
    (some : ∀ k ≤ top, heads k ≠ nil) (apart : ∀ j ≤ top, ∀ k ≤ top, heads j = heads k → j = k)
    (enough : top < turns) :
    ∃ t', level nil turns (2 ^ top) t i (heads i) = .some t' ∧ Built nil heads top i t₀ t' := by
  have differs : ∀ k ≤ top, k ≠ i → heads k ≠ heads i := fun k le other same => other (apart k le i below same)
  have split : 2 ^ top = 2 ^ top / 2 ^ i * 2 ^ i := (Nat.div_mul_cancel (pow_dvd_pow 2 below)).symm
  have start : Part nil heads top i 0 t₀
      { t with head := Function.update t.head i (heads i), next := Function.update t.next (heads i) nil } := by
    refine ⟨?_, ?_, ?_, ?_, Function.update_self .., ?_⟩
    · intro k low high
      by_cases here : k = i
      · rw [here]
        exact Function.update_self ..
      · exact (Function.update_of_ne here ..).trans (built.head k (by omega) high)
    · intro f hf
      rw [built.table f hf]
      congr 1
      apply propext
      omega
    · intro k low high
      exact (Function.update_of_ne (differs (k + 1) high (by omega)) ..).trans
        (built.chain k (by omega) high)
    · intro room
      rw [if_neg (by omega)]
      exact (Function.update_of_ne (differs (i + 1) room (by omega)) ..).trans (built.last room)
    · intro x hx
      exact (Function.update_of_ne (hx i below) ..).trans (built.others x hx)
  obtain ⟨t', ran, part⟩ := foldlM_range_some (fun m => Part nil heads top i m t₀) start
    fun m more s part => part.entry below more some apart enough
  refine ⟨t', ran, part.head, ?_, ?_, fun _ => part.last, part.others⟩
  · intro f hf
    rw [part.table f hf, ← split]
    congr 1
    apply propext
    omega
  · intro k low high
    rcases Nat.lt_or_eq_of_le low with later | rfl
    · exact part.chain k later high
    · have twice : 2 ≤ 2 ^ top / 2 ^ i := by
        rw [Nat.pow_div below (by decide)]
        exact Nat.le_self_pow (by omega) 2
      exact (part.link high).trans (if_pos twice)

/-- The loops over the intervals and their frames end, and leave the chain of all heads, which each
frame enters at its longest interval. -/
theorem build_spec (some : ∀ k ≤ top, heads k ≠ nil)
    (apart : ∀ j ≤ top, ∀ k ≤ top, heads j = heads k → j = k) (enough : top < turns)
    (empty : ∀ f, t₀.table f = nil) :
    ∃ t, build nil turns (2 ^ top) heads (top + 1) t₀ = .some t ∧ Built nil heads top 0 t₀ t := by
  have loop : ∀ k t, k ≤ top + 1 → Built nil heads top k t₀ t →
      ∃ t', (List.range k).reverse.foldlM (fun t i => IntervalTree.level nil turns (2 ^ top) t i (heads i)) t =
        .some t' ∧ Built nil heads top 0 t₀ t' := by
    intro k
    induction k with
    | zero => exact fun t _ built => ⟨t, rfl, built⟩
    | succ k ih =>
      intro t le built
      obtain ⟨t₁, first, here⟩ := built.level (by omega) some apart enough
      obtain ⟨t₂, rest, there⟩ := ih t₁ (by omega) here
      refine ⟨t₂, ?_, there⟩
      rw [List.range_succ, List.reverse_append, List.reverse_singleton, List.singleton_append,
        List.foldlM_cons, first]
      exact rest
  refine loop (top + 1) t₀ (le_refl _) ⟨?_, ?_, ?_, ?_, fun _ _ => rfl⟩
  · intro k low high
    omega
  · intro f _
    have le := frameLevel_le top f
    rw [empty, if_neg (by omega)]
  · intro k low high
    omega
  · intro le
    omega

omit [DecidableEq α] in
theorem Built.seg (built : Built nil heads top 0 t₀ t) :
    Seg t.next (heads top) (nodes heads (fun _ => []) (top + 1)) nil := by
  have seg := @seg_down _ t.next heads 0 top fun k low high =>
    built.chain k low (by omega)
  rw [built.last (Nat.zero_le top), Nat.zero_add, down_eq_nodes] at seg
  exact seg

end Build

section Chain

variable {nil x : α} {next : α → α} {head : Nat → α} {lvl : Nat → List α} {top j k turns : Nat}

theorem seg_from (seg : Seg next (head top) (nodes head lvl (top + 1)) nil) (le : j ≤ top) :
    Seg next (head j) (nodes head lvl (j + 1)) nil := by
  rw [nodes_split (Nat.lt_succ_of_le le)] at seg
  exact ⟨rfl, (seg_split.mp seg).2⟩

variable [DecidableEq α]

theorem seg_link (seg : Seg next (head top) (nodes head lvl (top + 1)) nil)
    (nodup : (nodes head lvl (top + 1)).Nodup) (fresh : x ∉ nodes head lvl (top + 1)) (le : k ≤ top) :
    Seg (Function.update (Function.update next x (next (head k))) (head k) x) (head top)
      (nodes head (Function.update lvl k (x :: lvl k)) (top + 1)) nil := by
  rw [nodes_split (Nat.lt_succ_of_le le)] at seg nodup fresh
  rw [nodes_update_split (Nat.lt_succ_of_le le)]
  exact seg.insert nodup fresh

omit [DecidableEq α] in
theorem exists_before (y : α) (us : List α) : ∃ bs before, y :: us = bs ++ [before] := by
  induction us generalizing y with
  | nil => exact ⟨[], y, rfl⟩
  | cons u us ih =>
    obtain ⟨bs, before, h⟩ := ih u
    exact ⟨y :: bs, before, by rw [h, List.cons_append]⟩

theorem seg_cut (seg : Seg next (head top) (nodes head lvl (top + 1)) nil)
    (nodup : (nodes head lvl (top + 1)).Nodup) (mem : x ∈ lvl k) (low : k ≤ j) (high : j ≤ top) :
    ∃ as before zs, nodes head lvl (j + 1) = as ++ before :: x :: zs ∧ before ∈ nodes head lvl (top + 1) ∧
      Seg (Function.update next before (next x)) (head top)
        (nodes head (Function.update lvl k ((lvl k).erase x)) (top + 1)) nil := by
  obtain ⟨us, vs, absent, cut, erased⟩ := List.exists_erase_eq mem
  obtain ⟨bs, before, ends⟩ := exists_before (head k) us
  have join : ∀ as rest : List α, as ++ head k :: (us ++ rest) = (as ++ bs) ++ before :: rest := by
    intro as rest
    have := congrArg (as ++ · ++ rest) ends
    simpa using this
  have whole : ∀ i, k < i → nodes head lvl i =
      (above head lvl k i ++ bs) ++ before :: x :: (vs ++ nodes head lvl k) := by
    intro i below
    rw [nodes_split below, cut, List.append_assoc, join, List.cons_append]
  have all := whole (top + 1) (by omega)
  refine ⟨_, before, _, whole (j + 1) (by omega), by rw [all]; simp, ?_⟩
  have removed := (all ▸ seg).remove (all ▸ nodup)
  rw [nodes_update_split (show k < top + 1 by omega), erased, List.append_assoc, join]
  exact removed

omit [DecidableEq α] in
theorem nodes_sublist (le : j ≤ top) : (nodes head lvl (j + 1)).Sublist (nodes head lvl (top + 1)) := by
  rw [@nodes_split _ head lvl _ _ (show j < top + 1 by omega), nodes]
  exact List.sublist_append_right ..

theorem seg_unlink (seg : Seg next (head top) (nodes head lvl (top + 1)) nil)
    (nodup : (nodes head lvl (top + 1)).Nodup) (apart : nil ∉ nodes head lvl (top + 1))
    (mem : x ∈ lvl k) (low : k ≤ j) (high : j ≤ top) (enough : (nodes head lvl (top + 1)).length < turns) :
    ∃ before, findPrev next x nil turns (head j) = some (some before) ∧ before ∈ nodes head lvl (top + 1) ∧
      Seg (Function.update next before (next x)) (head top)
        (nodes head (Function.update lvl k ((lvl k).erase x)) (top + 1)) nil := by
  obtain ⟨as, before, zs, part, there, removed⟩ := seg_cut seg nodup mem low high
  have sub : (nodes head lvl (j + 1)).Sublist (nodes head lvl (top + 1)) := nodes_sublist high
  have short : (lvl j ++ nodes head lvl j).length < turns := by
    have := sub.length_le
    simp only [nodes, List.length_cons] at this enough
    omega
  exact ⟨before, findPrev_some (seg_from seg high) (fun here => apart (sub.subset (List.mem_cons_of_mem _ here)))
    (nodup.sublist sub) short part, there, removed⟩

theorem seg_unlinked (goesOn : Bool) (seg : Seg next (head top) (nodes head lvl (top + 1)) nil)
    (nodup : (nodes head lvl (top + 1)).Nodup) (apart : nil ∉ nodes head lvl (top + 1))
    (mem : x ∈ lvl k) (low : k ≤ j) (high : j ≤ top) (enough : (nodes head lvl (top + 1)).length < turns) :
    ∃ before, unlink nil x goesOn turns next (head j) = some (Function.update next before (next x), true) ∧
      before ∈ nodes head lvl (top + 1) ∧ Seg (Function.update next before (next x)) (head top)
        (nodes head (Function.update lvl k ((lvl k).erase x)) (top + 1)) nil := by
  obtain ⟨as, before, zs, part, there, removed⟩ := seg_cut seg nodup mem low high
  have sub : (nodes head lvl (j + 1)).Sublist (nodes head lvl (top + 1)) := nodes_sublist high
  have walked := seg_from seg high
  change Seg next (head j) (nodes head lvl (j + 1)) nil at walked
  rw [part] at walked sub
  exact ⟨before, unlink_eq walked (fun here => apart (sub.subset here)) (nodup.sublist sub)
    (sub.length_le.trans_lt enough), there, removed⟩

theorem findPrev_absent (seg : Seg next (head top) (nodes head lvl (top + 1)) nil)
    (apart : nil ∉ nodes head lvl (top + 1)) (absent : x ∉ nodes head lvl (top + 1))
    (enough : (nodes head lvl (top + 1)).length < turns) :
    findPrev next x nil turns (head top) = some none := by
  refine findPrev_none seg (fun here => apart (List.mem_cons_of_mem _ here)) ?_
    (fun here => absent (List.mem_cons_of_mem _ here))
  simp only [nodes, List.length_cons] at enough
  omega

theorem walk_frame (seg : Seg next (head top) (nodes head lvl (top + 1)) nil)
    (apart : nil ∉ nodes head lvl (top + 1)) (enough : (nodes head lvl (top + 1)).length < turns) (f : Nat) :
    walk next nil turns (head (frameLevel top f)) = some (nodes head lvl (frameLevel top f + 1)) := by
  have le := frameLevel_le top f
  have sub : (nodes head lvl (frameLevel top f + 1)).Sublist (nodes head lvl (top + 1)) := nodes_sublist le
  exact walk_eq (seg_from seg le) (fun here => apart (sub.subset here)) (sub.length_le.trans_lt enough)

omit [DecidableEq α] in
/-- A node linked for an interval is met in exactly the frames that the interval ends with. -/
theorem mem_frame_iff (nodup : (nodes head lvl (top + 1)).Nodup) (le : k ≤ top) (mem : x ∈ lvl k) (f : Nat) :
    x ∈ nodes head lvl (frameLevel top f + 1) ↔ 2 ^ k ∣ f + 1 := by
  rw [← le_frameLevel_iff f le, mem_nodes]
  constructor
  · rintro ⟨m, below, here⟩
    by_contra longer
    have belowTop : m < k := by omega
    -- the node would be met twice
    rw [nodes_split (Nat.lt_succ_of_le le), List.nodup_append] at nodup
    have again : x ∈ nodes head lvl k := mem_nodes.mpr ⟨m, belowTop, here⟩
    have rest := (List.nodup_cons.mp nodup.2.1).2
    rw [List.nodup_append] at rest
    exact rest.2.2 x mem x again rfl
  · intro longer
    exact ⟨k, by omega, .inr mem⟩

end Chain

end IntervalTree

end NuMakerMA35
