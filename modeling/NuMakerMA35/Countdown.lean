import Mathlib.Data.List.Infix
import Mathlib.Data.List.Nodup
import Mathlib.Data.List.Pairwise

namespace NuMakerMA35.Countdown

variable {δ υ : Type}

/-- A job, the pieces of it that were not given back, and how many reports there had been before. -/
structure Job (δ υ : Type) where
  id : υ
  left : List δ
  before : Nat

def Job.settle (used : δ → Bool) (x : Job δ υ) : Job δ υ := { x with left := x.left.filter used }

/-- The pieces that are out are those left of the jobs, each once. A job with pieces left has a count
of its own, which is how many they are, and one without was reported since it came. -/
structure Books (used : δ → Bool) (owner : δ → υ) (count : υ → Int) (called : List υ)
    (jobs : List (Job δ υ)) (out : List δ) : Prop where
  perm : (jobs.flatMap Job.left).Perm out
  nodup : out.Nodup
  used : ∀ d ∈ out, used d = true
  owner : ∀ x ∈ jobs, ∀ d ∈ x.left, owner d = x.id
  count : ∀ x ∈ jobs, x.left ≠ [] → count x.id = x.left.length
  apart : jobs.Pairwise fun x y => x.left ≠ [] → y.left ≠ [] → x.id ≠ y.id
  before : ∀ x ∈ jobs, x.before ≤ called.length
  called : ∀ x ∈ jobs, x.left = [] → x.id ∈ called.drop x.before

section Rules

variable {used used' : δ → Bool} {owner owner' : δ → υ} {count count' : υ → Int}
  {called called' : List υ} {jobs : List (Job δ υ)} {out out' : List δ} {d : δ} {x y : Job δ υ}

theorem Books.nil : Books used owner count called [] [] where
  perm := List.Perm.refl _
  nodup := List.nodup_nil
  used := fun _ none => absurd none List.not_mem_nil
  owner := fun _ none => absurd none List.not_mem_nil
  count := fun _ none => absurd none List.not_mem_nil
  apart := List.Pairwise.nil
  before := fun _ none => absurd none List.not_mem_nil
  called := fun _ none => absurd none List.not_mem_nil

theorem Books.mem_out (books : Books used owner count called jobs out) (here : x ∈ jobs)
    (piece : d ∈ x.left) : d ∈ out :=
  books.perm.mem_iff.mp (List.mem_flatMap.mpr ⟨x, here, piece⟩)

theorem Books.exists_job (books : Books used owner count called jobs out) (piece : d ∈ out) :
    ∃ x ∈ jobs, d ∈ x.left :=
  List.mem_flatMap.mp (books.perm.mem_iff.mpr piece)

theorem Books.left_nodup (books : Books used owner count called jobs out) (here : x ∈ jobs) :
    x.left.Nodup := by
  have all := books.perm.nodup_iff.mpr books.nodup
  exact (List.nodup_flatMap.mp all).1 x here

theorem Books.same_job (books : Books used owner count called jobs out) (here : x ∈ jobs)
    (there : y ∈ jobs) (some : x.left ≠ []) (others : y.left ≠ []) (same : x.id = y.id) : x = y := by
  by_contra apart
  have symmetric : Std.Symm fun x y : Job δ υ => x.left ≠ [] → y.left ≠ [] → x.id ≠ y.id :=
    ⟨fun x y h some others same => h others some same.symm⟩
  exact books.apart.forall here there apart some others same

/-- What is in use stays, and the jobs with pieces left are told apart and counted as before. -/
theorem Books.mono (books : Books used owner count called jobs out) (same : out.Perm out')
    (kept : ∀ d ∈ out, used' d = true) (owned : ∀ d ∈ out, owner' d = owner d)
    (counted : ∀ x ∈ jobs, x.left ≠ [] → count' x.id = count x.id) (more : called <+: called') :
    Books used' owner' count' called' jobs out' where
  perm := books.perm.trans same
  nodup := same.nodup_iff.mp books.nodup
  used := fun d piece => kept d (same.mem_iff.mpr piece)
  owner := fun x here d piece => (owned d (books.mem_out here piece)).trans (books.owner x here d piece)
  count := fun x here some => (counted x here some).trans (books.count x here some)
  apart := books.apart
  before := fun x here => Nat.le_trans (books.before x here) more.length_le
  called := fun x here none => (more.drop x.before).subset (books.called x here none)

theorem Books.reorder (books : Books used owner count called jobs out) (same : out.Perm out') :
    Books used owner count called jobs out' :=
  books.mono same books.used (fun _ _ => rfl) (fun _ _ _ => rfl) (List.prefix_refl _)

theorem Books.accept (books : Books used owner count called jobs out) (new : Job δ υ)
    (kept : ∀ d ∈ out, used' d = true) (taken : ∀ d ∈ new.left, used' d = true)
    (owned : ∀ d ∈ out, owner' d = owner d) (own : ∀ d ∈ new.left, owner' d = new.id)
    (counted : ∀ x ∈ jobs, x.left ≠ [] → count' x.id = count x.id)
    (mine : count' new.id = new.left.length) (fresh : ∀ d ∈ new.left, d ∉ out)
    (once : new.left.Nodup) (other : ∀ x ∈ jobs, x.left ≠ [] → x.id ≠ new.id)
    (some : new.left ≠ []) (last : new.before = called.length) :
    Books used' owner' count' called (jobs ++ [new]) (out ++ new.left) := by
  have old := books.mono (List.Perm.refl _) kept owned counted (List.prefix_refl _)
  refine ⟨?_, ?_, ?_, ?_, ?_, ?_, ?_, ?_⟩
  · rw [List.flatMap_append, List.flatMap_singleton]
    exact old.perm.append_right _
  · exact old.nodup.append once fun d piece mem => fresh d mem piece
  · intro d piece
    exact (List.mem_append.mp piece).elim (kept d) (taken d)
  · intro x here
    rcases List.mem_append.mp here with before | now
    · exact old.owner x before
    · rw [List.mem_singleton.mp now]
      exact own
  · intro x here
    rcases List.mem_append.mp here with before | now
    · exact old.count x before
    · rw [List.mem_singleton.mp now]
      exact fun _ => mine
  · refine List.pairwise_append.mpr ⟨old.apart, List.pairwise_singleton _ _, ?_⟩
    intro x before y now pieces _
    rw [List.mem_singleton.mp now]
    exact other x before pieces
  · intro x here
    rcases List.mem_append.mp here with before | now
    · exact old.before x before
    · rw [List.mem_singleton.mp now]
      exact le_of_eq last
  · intro x here
    rcases List.mem_append.mp here with before | now
    · exact old.called x before
    · rw [List.mem_singleton.mp now]
      exact fun none => absurd none some

theorem Job.settle_subset (x : Job δ υ) : (x.settle used).left ⊆ x.left :=
  List.filter_sublist.subset

theorem Books.settle_left [DecidableEq δ] (books : Books used owner count called jobs out)
    (here : x ∈ jobs) (freed : ∀ c ∈ out, used' c = decide (c ≠ d)) :
    (x.settle used').left = x.left.erase d := by
  rw [(books.left_nodup here).erase_eq_filter]
  refine List.filter_congr fun c part => ?_
  rw [freed c (books.mem_out here part)]
  by_cases same : c = d <;> simp [same]

/-- A piece that is given back: the jobs' other pieces stay, and with the last piece of its job that
is reported. -/
theorem Books.give [DecidableEq δ] [DecidableEq υ]
    (books : Books used owner count called jobs (d :: out))
    (freed : ∀ c ∈ d :: out, used' c = decide (c ≠ d))
    (counted : ∀ u, count' u = if u = owner d then count u - 1 else count u)
    (reported : called' = if count' (owner d) = 0 then called ++ [owner d] else called) :
    Books used' owner count' called' (jobs.map (Job.settle used')) out := by
  obtain ⟨fresh, once⟩ := List.nodup_cons.mp books.nodup
  obtain ⟨mine, here, piece⟩ := books.exists_job (List.mem_cons_self (a := d))
  have settled (x : Job δ υ) (mem : x ∈ jobs) : (x.settle used').left = x.left.erase d :=
    books.settle_left mem freed
  have pieces (x : Job δ υ) (some : (x.settle used').left ≠ []) : x.left ≠ [] :=
    fun none => some (List.subset_nil.mp (none ▸ x.settle_subset))
  have more : called <+: called' := by
    rw [reported]
    split_ifs
    · exact List.prefix_append _ _
    · exact List.prefix_refl _
  -- a job of another owner keeps its pieces and its count
  have others (x : Job δ υ) (mem : x ∈ jobs) (other : x.id ≠ owner d) :
      (x.settle used').left = x.left ∧ count' x.id = count x.id := by
    rw [settled x mem, counted, if_neg other]
    exact ⟨List.erase_of_not_mem fun part => other (books.owner x mem d part).symm, rfl⟩
  have own (x : Job δ υ) (mem : x ∈ jobs) (some : x.left ≠ []) (same : x.id = owner d) : x = mine :=
    books.same_job mem here some (List.ne_nil_of_mem piece)
      (same.trans (books.owner mine here d piece))
  have minus : count' (owner d) = (mine.left.erase d).length := by
    have number := books.count mine here (List.ne_nil_of_mem piece)
    have positive := List.length_pos_of_mem piece
    rw [← books.owner mine here d piece] at number
    rw [counted, if_pos rfl, number, List.length_erase_of_mem piece]
    omega
  refine ⟨?_, once, ?_, ?_, ?_, ?_, ?_, ?_⟩
  · have filtered := books.perm.filter used'
    rw [List.filter_flatMap, List.filter_cons_of_neg (by rw [freed d List.mem_cons_self]; simp),
      List.filter_eq_self.mpr fun c mem => by
        rw [freed c (List.mem_cons_of_mem d mem)]
        exact decide_eq_true fun same => fresh (same ▸ mem)] at filtered
    rwa [List.flatMap_map]
  · intro c mem
    rw [freed c (List.mem_cons_of_mem d mem)]
    exact decide_eq_true fun same => fresh (same ▸ mem)
  · intro y there
    obtain ⟨x, mem, rfl⟩ := List.mem_map.mp there
    exact fun c piece => books.owner x mem c (x.settle_subset piece)
  · intro y there some
    obtain ⟨x, mem, rfl⟩ := List.mem_map.mp there
    have left := pieces x some
    change count' x.id = _
    by_cases same : x.id = owner d
    · rw [settled x mem, same, minus, own x mem left same]
    · obtain ⟨kept, number⟩ := others x mem same
      rw [kept, number, books.count x mem left]
  · rw [List.pairwise_map]
    exact books.apart.imp fun {x y} apart xSome ySome =>
      apart (pieces x xSome) (pieces y ySome)
  · intro y there
    obtain ⟨x, mem, rfl⟩ := List.mem_map.mp there
    exact Nat.le_trans (books.before x mem) more.length_le
  · intro y there none
    obtain ⟨x, mem, rfl⟩ := List.mem_map.mp there
    change x.id ∈ called'.drop x.before
    by_cases left : x.left = []
    · exact (more.drop x.before).subset (books.called x mem left)
    · by_cases same : x.id = owner d
      · rw [settled x mem, own x mem left same] at none
        have zero : count' (owner d) = 0 := by
          rw [minus, none]
          rfl
        rw [reported, if_pos zero, List.drop_append_of_le_length (books.before x mem), same]
        exact List.mem_append_right _ (List.mem_singleton_self _)
      · exact absurd (none.symm.trans (others x mem same).1).symm left

theorem Job.settle_settle (fewer : ∀ d, used' d = true → used d = true) (x : Job δ υ) :
    (x.settle used).settle used' = x.settle used' := by
  unfold Job.settle
  rw [List.filter_filter]
  congr 1
  refine List.filter_congr fun d _ => ?_
  cases now : used' d with
  | false => rw [Bool.false_and]
  | true => rw [fewer d now, Bool.and_true]

theorem map_settle_settle (fewer : ∀ d, used' d = true → used d = true) (jobs : List (Job δ υ)) :
    (jobs.map (Job.settle used)).map (Job.settle used') = jobs.map (Job.settle used') := by
  rw [List.map_map]
  exact List.map_congr_left fun x _ => Job.settle_settle fewer x

theorem Books.settle_map (books : Books used owner count called jobs out) :
    jobs.map (Job.settle used) = jobs := by
  refine (List.map_congr_left fun x here => ?_).trans (List.map_id jobs)
  unfold Job.settle
  rw [List.filter_eq_self.mpr fun d piece => books.used d (books.mem_out here piece)]
  rfl

end Rules

end NuMakerMA35.Countdown
