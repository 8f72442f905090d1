import Mathlib.Algebra.Group.Nat.Defs
import Mathlib.Data.List.Nodup
import Mathlib.Data.List.Perm.Subperm
import Mathlib.Data.List.Range
import Mathlib.Logic.Function.Basic

namespace NuMakerMA35.Ring

variable {α : Type}

def view (size : Nat) (ring : Nat → α) (start n : Nat) : List α :=
  (List.range n).map fun j => ring ((start + j) % size)

theorem view_length (size : Nat) (ring : Nat → α) (start n : Nat) :
    (view size ring start n).length = n := by
  simp [view]

theorem view_succ (size : Nat) (ring : Nat → α) (start n : Nat) :
    view size ring start (n + 1) = view size ring start n ++ [ring ((start + n) % size)] := by
  simp [view, List.range_succ]

theorem view_cons (size : Nat) (ring : Nat → α) (start n : Nat) :
    view size ring start (n + 1) = ring (start % size) :: view size ring (start + 1) n := by
  have shift : ∀ j, (start + (j + 1)) % size = (start + 1 + j) % size := by
    intro j
    congr 1
    omega
  simp [view, List.range_succ_eq_map, List.map_map, Function.comp_def, shift]

theorem view_append (size : Nat) (ring : Nat → α) (start m n : Nat) :
    view size ring start (m + n) = view size ring start m ++ view size ring (start + m) n := by
  induction n with
  | zero => simp [view]
  | succ n ih =>
    rw [← Nat.add_assoc, view_succ, ih, view_succ, List.append_assoc, Nat.add_assoc]

/-- The elements `xs` written one after another from `start` on, going round at the end. -/
@[grind =] def put (size : Nat) (ring : Nat → α) (start : Nat) : List α → Nat → α
  | [] => ring
  | x :: xs => put size (Function.update ring (start % size) x) (start + 1) xs

theorem mod_ne_of_lt {size a b : Nat} (below : a < b) (near : b < a + size) : a % size ≠ b % size := by
  intro same
  have gap : (b - a) % size = 0 := Nat.sub_mod_eq_zero_of_mod_eq same.symm
  rw [Nat.mod_eq_of_lt (by omega)] at gap
  omega

theorem put_outside {size : Nat} {xs : List α} : ∀ {ring : Nat → α} {start k : Nat},
    k < start → start + xs.length ≤ k + size → put size ring start xs (k % size) =
      ring (k % size) := by
  induction xs with
  | nil =>
    intro ring start k _ _
    rfl
  | cons x xs ih =>
    intro ring start k below room
    have room : start + 1 + xs.length ≤ k + size := by
      simp only [List.length_cons] at room
      omega
    have other := mod_ne_of_lt below (show start < k + size by omega)
    rw [put, ih (Nat.lt_succ_of_lt below) room, Function.update_of_ne other]

theorem view_put_before {size : Nat} {ring : Nat → α} {start n : Nat} {xs : List α}
    (room : n + xs.length ≤ size) :
    view size (put size ring (start + n) xs) start n = view size ring start n := by
  unfold view
  apply List.map_congr_left
  intro j hj
  have below := List.mem_range.mp hj
  exact put_outside (by omega) (by omega)

theorem view_put_self {size : Nat} {xs : List α} : ∀ {ring : Nat → α} {start : Nat},
    xs.length ≤ size → view size (put size ring start xs) start xs.length = xs := by
  induction xs with
  | nil =>
    intro ring start _
    rfl
  | cons x xs ih =>
    intro ring start room
    simp only [List.length_cons] at room ⊢
    have first : put size ring start (x :: xs) (start % size) = x := by
      rw [put, put_outside (Nat.lt_succ_self start) (by omega), Function.update_self]
    rw [view_cons, first, put, ih (by omega)]

theorem view_put {size : Nat} {ring : Nat → α} {start n : Nat} {xs : List α}
    (room : n + xs.length ≤ size) :
    view size (put size ring (start + n) xs) start (n + xs.length) =
      view size ring start n ++ xs := by
  have rest : xs.length ≤ size := by omega
  rw [view_append, view_put_before room, view_put_self rest]

theorem put_start_mod (size : Nat) (ring : Nat → α) (xs : List α) : ∀ (start : Nat),
    put size ring (start % size) xs = put size ring start xs := by
  induction xs generalizing ring with
  | nil =>
    intro start
    rfl
  | cons x xs ih =>
    intro start
    rw [put, put, Nat.mod_mod, ← ih _ (start % size + 1), ← ih _ (start + 1), Nat.mod_add_mod]

theorem put_append {size : Nat} (ring : Nat → α) (xs ys : List α) (start : Nat) :
    put size ring start (xs ++ ys) = put size (put size ring start xs) (start + xs.length) ys := by
  induction xs generalizing ring start with
  | nil => simp [put]
  | cons x xs ih =>
    rw [List.cons_append, put, ih, put, List.length_cons]
    congr 1
    omega

def copyTo (ring : Nat → α) (start : Nat) (xs : List α) : Nat → α := fun i =>
  if start ≤ i then xs[i - start]?.getD (ring i) else ring i

def copyFrom (ring : Nat → α) (start n : Nat) : List α := (List.range n).map fun j => ring (start + j)

theorem copyTo_nil (ring : Nat → α) (start : Nat) : copyTo ring start [] = ring := by
  funext i
  simp [copyTo]

theorem copyTo_outside {ring : Nat → α} {start i : Nat} {xs : List α}
    (outside : i < start ∨ start + xs.length ≤ i) : copyTo ring start xs i = ring i := by
  unfold copyTo
  split_ifs with after
  · rw [List.getElem?_eq_none (by omega), Option.getD_none]
  · rfl

theorem put_eq_copyTo {size : Nat} {xs : List α} : ∀ {ring : Nat → α} {start : Nat},
    start + xs.length ≤ size → put size ring start xs = copyTo ring start xs := by
  induction xs with
  | nil =>
    intro ring start _
    exact (copyTo_nil ring start).symm
  | cons x xs ih =>
    intro ring start room
    simp only [List.length_cons] at room
    rw [put, Nat.mod_eq_of_lt (by omega), ih (by omega)]
    funext i
    rcases Nat.lt_trichotomy i start with before | rfl | after
    · rw [copyTo_outside (.inl (by omega)), copyTo_outside (.inl before),
        Function.update_of_ne (Nat.ne_of_lt before)]
    · rw [copyTo_outside (.inl (by omega)), Function.update_self]
      simp [copyTo]
    · obtain ⟨k, rfl⟩ := Nat.exists_eq_add_of_lt after
      have other : start + k + 1 ≠ start := by omega
      simp only [copyTo, Function.update_of_ne other]
      rw [if_pos (by omega), if_pos (by omega), show start + k + 1 - (start + 1) = k by omega,
        show start + k + 1 - start = k + 1 by omega, List.getElem?_cons_succ]

theorem copyTo_singleton (ring : Nat → α) (start : Nat) (x : α) :
    copyTo ring start [x] = Function.update ring start x := by
  have fits : start + [x].length ≤ start + 1 := by simp
  rw [← put_eq_copyTo fits, put, put, Nat.mod_eq_of_lt (Nat.lt_succ_self start)]

theorem put_round (size : Nat) (ring : Nat → α) (xs : List α) :
    put size ring size xs = put size ring 0 xs := by
  rw [← put_start_mod, Nat.mod_self]

theorem put_eq_copyTo_copyTo {size start : Nat} {ring : Nat → α} {xs : List α} (below : start < size)
    (long : size - start ≤ xs.length) (fits : xs.length ≤ size) :
    put size ring start xs =
      copyTo (copyTo ring start (xs.take (size - start))) 0 (xs.drop (size - start)) := by
  have first : (xs.take (size - start)).length = size - start := by
    rw [List.length_take]
    omega
  have split := @put_append α size ring (xs.take (size - start)) (xs.drop (size - start)) start
  rw [List.take_append_drop, first, show start + (size - start) = size by omega, put_round] at split
  have second : (xs.drop (size - start)).length ≤ size := by
    rw [List.length_drop]
    omega
  rw [split, @put_eq_copyTo _ _ _ _ 0 (by omega), put_eq_copyTo (by omega)]

theorem view_eq_copyFrom {size start n : Nat} (ring : Nat → α) (room : start + n ≤ size) :
    view size ring start n = copyFrom ring start n := by
  apply List.map_congr_left
  intro j hj
  have below := List.mem_range.mp hj
  rw [Nat.mod_eq_of_lt (by omega)]

theorem view_start_mod (size start n : Nat) (ring : Nat → α) :
    view size ring (start % size) n = view size ring start n := by
  simp only [view, Nat.mod_add_mod]

theorem view_round (size n : Nat) (ring : Nat → α) : view size ring size n = view size ring 0 n := by
  rw [← view_start_mod, Nat.mod_self]

theorem view_eq_copyFrom_append {size start n : Nat} (ring : Nat → α) (below : start < size)
    (long : size - start ≤ n) (fits : n ≤ size) : view size ring start n =
      copyFrom ring start (size - start) ++ copyFrom ring 0 (n - (size - start)) := by
  have split := view_append size ring start (size - start) (n - (size - start))
  rw [Nat.add_sub_cancel' long, Nat.add_sub_cancel' below.le, view_round] at split
  rw [split, view_eq_copyFrom ring (by omega), view_eq_copyFrom ring (by omega)]

theorem view_take {size start n k : Nat} (ring : Nat → α) (within : k ≤ n) :
    (view size ring start n).take k = view size ring start k := by
  obtain ⟨rest, rfl⟩ := Nat.exists_eq_add_of_le within
  rw [view_append, List.take_left' (view_length size ring start k)]

theorem view_drop {size start n k : Nat} (ring : Nat → α) (within : k ≤ n) :
    (view size ring start n).drop k = view size ring (start + k) (n - k) := by
  obtain ⟨rest, rfl⟩ := Nat.exists_eq_add_of_le within
  rw [view_append, List.drop_left' (view_length size ring start k), Nat.add_sub_cancel_left]

theorem view_put_over {size start n : Nat} {ring : Nat → α} {xs : List α} (fits : xs.length ≤ size)
    (more : size ≤ n + xs.length) :
    view size (put size ring (start + n) xs) (start + n + xs.length) size =
      (view size ring start n ++ xs).drop (n + xs.length - size) := by
  obtain ⟨gone, hgone⟩ := Nat.exists_eq_add_of_le more
  have kept : n - gone + xs.length = size := by omega
  have rest := @view_put α size ring (start + gone) (n - gone) xs (by omega)
  rw [kept, show start + gone + (n - gone) = start + n by omega] at rest
  rw [show start + n + xs.length = start + gone + size by omega, ← view_start_mod,
    Nat.add_mod_right, view_start_mod, rest, ← view_drop ring (show gone ≤ n by omega),
    show n + xs.length - size = gone by omega, List.drop_append_of_le_length]
  rw [view_length]
  omega

theorem succ_mod {size i : Nat} (hi : i < size) :
    (i + 1) % size = if i = size - 1 then 0 else i + 1 := by
  split_ifs with last
  · rw [show i + 1 = size by omega, Nat.mod_self]
  · exact Nat.mod_eq_of_lt (by omega)

def Blank (size : Nat) (blank ring : Nat → α) (start n : Nat) : Prop :=
  ∀ k, n ≤ k → k < size → ring ((start + k) % size) = blank ((start + k) % size)

section Blank

variable {size start n : Nat} {blank ring ring' : Nat → α}

theorem Blank.mono (h : Blank size blank ring start n)
    (kept : ∀ i, i < size → ring i = blank i → ring' i = blank i) :
    Blank size blank ring' start n := by
  intro k beyond within
  exact kept _ (Nat.mod_lt _ (by omega)) (h k beyond within)

theorem Blank.congr (h : Blank size blank ring start n) (same : ∀ i, ring' i = ring i) :
    Blank size blank ring' start n :=
  h.mono fun i _ here => (same i).trans here

theorem Blank.push (h : Blank size blank ring start n) (x : α) :
    Blank size blank (Function.update ring ((start + n) % size) x) start (n + 1) := by
  intro k beyond within
  have apart : (start + k) % size ≠ (start + n) % size :=
    (mod_ne_of_lt (show start + n < start + k by omega) (by omega)).symm
  rw [Function.update_of_ne apart]
  exact h k (by omega) within

theorem Blank.pop (h : Blank size blank ring start (n + 1)) (below : start < size) :
    Blank size blank (Function.update ring start (blank start)) ((start + 1) % size) n := by
  intro k beyond within
  rw [Nat.mod_add_mod]
  by_cases last : k + 1 = size
  · have round : (start + 1 + k) % size = start := by
      rw [show start + 1 + k = start + size by omega, Nat.add_mod_right, Nat.mod_eq_of_lt below]
    rw [round, Function.update_self]
  · have apart : (start + 1 + k) % size ≠ start := by
      have other := mod_ne_of_lt (show start < start + 1 + k by omega) (show _ < start + size by omega)
      rw [Nat.mod_eq_of_lt below] at other
      exact other.symm
    rw [Function.update_of_ne apart, show start + 1 + k = start + (k + 1) by omega]
    exact h (k + 1) (by omega) (by omega)

end Blank

theorem range_round_perm (size start : Nat) :
    ((List.range size).map fun k => (start + k) % size).Perm (List.range size) := by
  apply List.Subperm.perm_of_length_le
  · apply List.subperm_of_subset
    · refine (List.nodup_map_iff_inj_on List.nodup_range).mpr ?_
      intro i hi j hj same
      simp only [List.mem_range] at hi hj
      by_contra other
      rcases Nat.lt_or_gt_of_ne other with below | above
      · exact mod_ne_of_lt (Nat.add_lt_add_left below start) (by omega) same
      · exact mod_ne_of_lt (Nat.add_lt_add_left above start) (by omega) same.symm
    · intro i hi
      obtain ⟨k, hk, rfl⟩ := List.mem_map.mp hi
      exact List.mem_range.mpr (Nat.mod_lt _ (by have := List.mem_range.mp hk; omega))
  · simp

theorem countP_round {size start n : Nat} {p : Nat → Bool} (few : n ≤ size)
    (h : ∀ k, k < size → (p ((start + k) % size) = true ↔ k < n)) :
    (List.range size).countP p = n := by
  rw [← (range_round_perm size start).countP_eq, List.countP_map]
  have below : (List.range size).countP (p ∘ fun k => (start + k) % size) =
      (List.range size).countP fun k => decide (k < n) := by
    apply List.countP_congr
    intro k hk
    simpa using h k (List.mem_range.mp hk)
  rw [below, show size = n + (size - n) by omega, List.range_add, List.countP_append]
  have first : (List.range n).countP (fun k => decide (k < n)) = n := by
    rw [List.countP_eq_length.mpr (by simp)]
    exact List.length_range
  have second : ((List.range (size - n)).map (n + ·)).countP (fun k => decide (k < n)) = 0 := by
    apply List.countP_eq_zero.mpr
    simp
  omega

theorem countP_add_lt {l : List α} {p q : α → Bool} {x : α} (apart : ∀ y, p y = true → q y = false)
    (hx : x ∈ l) (notP : p x = false) (notQ : q x = false) :
    l.countP p + l.countP q < l.length := by
  have covered : l.countP p + l.countP q ≤ l.countP fun y => p y || q y := by
    clear hx
    induction l with
    | nil => simp
    | cons y l ih =>
      have both := apart y
      simp only [List.countP_cons]
      cases hp : p y <;> cases hq : q y <;> simp_all <;> omega
  have some : (l.countP fun y => p y || q y) ≠ l.length := by
    intro all
    have each := List.countP_eq_length.mp all x hx
    simp [notP, notQ] at each
  have bound := List.countP_le_length (l := l) (p := fun y => p y || q y)
  omega

theorem filterMap_range_perm {f g : Nat → Option α} {n i : Nat} {x : α} (hi : i < n)
    (same : ∀ j, j < n → j ≠ i → g j = f j) (before : f i = none) (after : g i = some x) :
    ((List.range n).filterMap g).Perm (x :: (List.range n).filterMap f) := by
  have split := List.perm_cons_erase (List.mem_range.mpr hi)
  have others : ((List.range n).erase i).filterMap g = ((List.range n).erase i).filterMap f := by
    apply List.filterMap_congr
    intro j hj
    obtain ⟨other, mem⟩ := (List.nodup_range.mem_erase_iff).mp hj
    exact same j (List.mem_range.mp mem) other
  have now := split.filterMap g
  have old := split.filterMap f
  rw [List.filterMap_cons_some after, others] at now
  rw [List.filterMap_cons_none before] at old
  exact now.trans (old.symm.cons x)

end NuMakerMA35.Ring

namespace NuMakerMA35.Fifo

variable {α : Type}

/-- A full queue drops what comes. -/
def put (cap : Nat) (q xs : List α) : List α := q ++ xs.take (cap - q.length)

/-- A full queue drops what is oldest. -/
def putForce (cap : Nat) (q xs : List α) : List α := (q ++ xs).drop ((q ++ xs).length - cap)

theorem putForce_of_fits {cap : Nat} {q xs : List α} (fits : q.length + xs.length ≤ cap) :
    putForce cap q xs = q ++ xs := by
  have none : (q ++ xs).length - cap = 0 := by
    rw [List.length_append]
    omega
  rw [putForce, none, List.drop_zero]

theorem putForce_last {cap : Nat} {q xs : List α} (long : cap ≤ xs.length) :
    putForce cap q xs = xs.drop (xs.length - cap) := by
  rw [putForce, List.drop_append, List.length_append,
    List.drop_of_length_le (by omega), List.nil_append]
  congr 1
  omega

theorem put_of_fits {cap : Nat} {q xs : List α} (fits : q.length + xs.length ≤ cap) :
    put cap q xs = q ++ xs := by
  rw [put, List.take_of_length_le (by omega)]

theorem put_full {cap : Nat} {q : List α} (xs : List α) (full : q.length = cap) : put cap q xs = q := by
  rw [put, full, Nat.sub_self, List.take_zero, List.append_nil]

end NuMakerMA35.Fifo
