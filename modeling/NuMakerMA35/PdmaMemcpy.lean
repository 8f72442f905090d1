import NuMakerMA35.PdmaMemErrors
import NuMakerMA35.Tiling
import Mathlib.Tactic.IntervalCases

namespace NuMakerMA35

/-- What `nu_pdma_memcpy` asks of `nu_pdma_memfun` in one round, and where the piece begins. -/
structure MemcpyPiece where
  offset : U32
  dest : U32
  src : U32
  dataWidth : U32
  transferCnt : U32
  deriving DecidableEq, Repr

/-- A run of `nu_pdma_memcpy`: the pieces it asked for with the counts reported for them, `none` for
a call that did not come back, and the pointer it returned, if it did. -/
structure MemcpyRun (σ : Type) where
  s : σ
  issued : List (MemcpyPiece × Option U32)
  ret : Option U32

def rtAlignDown (size align : U32) : U32 := size &&& ~~~(align - 1)

/-- Both addresses are aligned to `i` bytes and at least that many are left. -/
def memcpyTakes (i u32src u32dest remaining : U32) : Bool :=
  u32src % i = u32dest % i ∧ u32src % i = 0 ∧ i ≤ rtAlignDown remaining i

section Loop

variable {σ : Type} (memfun : σ → MemcpyPiece → Option (σ × U32)) (dest src count : U32)

/-- The rounds of `nu_pdma_memcpy` from `i = 2 ^ (k - 1)` on, `i` being shifted down to zero. -/
def memcpyLoop : Nat → σ → U32 → U32 → MemcpyRun σ
  | 0, s, offset, _ => ⟨s, [], some (if count = offset then dest else 0)⟩
  | k + 1, s, offset, remaining =>
    if remaining = 0 then ⟨s, [], some (if count = offset then dest else 0)⟩
    else
      let i := (1 : U32) <<< k
      let u32src := src + offset
      let u32dest := dest + offset
      if memcpyTakes i u32src u32dest remaining then
        let txCnt := remaining / i
        let piece := ⟨offset, u32dest, u32src, i * 8, txCnt⟩
        match memfun s piece with
        | none => ⟨s, [(piece, none)], none⟩
        | some (s, moved) =>
          if txCnt ≠ moved then ⟨s, [(piece, some moved)], some 0⟩
          else
            let r := memcpyLoop k s (offset + txCnt * i) (remaining - txCnt * i)
            { r with issued := (piece, some moved) :: r.issued }
      else memcpyLoop k s offset remaining

def nuPdmaMemcpy (s : σ) : MemcpyRun σ := memcpyLoop memfun dest src count 3 s 0 count

end Loop

def MemcpyPiece.unit (p : MemcpyPiece) : Nat := p.dataWidth.toNat / 8

def MemcpyPiece.start (p : MemcpyPiece) : Nat := p.offset.toNat

def MemcpyPiece.bytes (p : MemcpyPiece) : Nat := p.transferCnt.toNat * p.unit

/-- A piece of the copy from `src` to `dest`: the same offset on both sides, and both addresses on a
boundary of its data width. -/
structure MemcpyPiece.Placed (p : MemcpyPiece) (dest src : U32) : Prop where
  dest_eq : p.dest = dest + p.offset
  src_eq : p.src = src + p.offset
  width : p.dataWidth = 8 ∨ p.dataWidth = 16 ∨ p.dataWidth = 32
  dest_aligned : p.dest.toNat % p.unit = 0
  src_aligned : p.src.toNat % p.unit = 0

def Completed (e : MemcpyPiece × Option U32) : Prop := e.2 = some e.1.transferCnt

instance (e : MemcpyPiece × Option U32) : Decidable (Completed e) :=
  inferInstanceAs (Decidable (_ = _))

/-- From `s` to `s'` the calls of `memfun` are those of the trace, each with its answer; one that did
not come back is the last. -/
def Answers {σ : Type} (memfun : σ → MemcpyPiece → Option (σ × U32)) :
    σ → List (MemcpyPiece × Option U32) → σ → Prop
  | s, [], s' => s' = s
  | s, (piece, none) :: calls, s' => memfun s piece = none ∧ calls = [] ∧ s' = s
  | s, (piece, some moved) :: calls, s' =>
    ∃ t, memfun s piece = some (t, moved) ∧ Answers memfun t calls s'

/-- The pieces of a run of `nu_pdma_memcpy` that has copied up to `a`: each is aligned to its width,
they are laid one after the other at equal offsets, the calls before the last one have completed,
and the buffers are covered and `dest` returned when the last one has too. -/
structure MemcpyRun.Copies {σ : Type} (r : MemcpyRun σ) (dest src count : U32) (a : Nat) :
    Prop where
  placed : ∀ e ∈ r.issued, e.1.Placed dest src
  tiles : ∃ b ≤ count.toNat,
    Tiling.Tiles MemcpyPiece.start MemcpyPiece.bytes a (r.issued.map Prod.fst) b
  front : ∀ e ∈ r.issued.dropLast, Completed e
  covers : (∀ e ∈ r.issued, Completed e) →
    Tiling.Tiles MemcpyPiece.start MemcpyPiece.bytes a (r.issued.map Prod.fst) count.toNat
  completed : (∀ e ∈ r.issued, Completed e) → r.ret = some dest
  failed : ¬(∀ e ∈ r.issued, Completed e) →
    r.ret = some 0 ∨ r.ret = none ∧ ∃ p, (p, none) ∈ r.issued

theorem rtAlignDown_le (size align : U32) : (rtAlignDown size align).toNat ≤ size.toNat := by
  unfold rtAlignDown
  rw [BitVec.toNat_and]
  exact Nat.and_le_left

theorem memcpyTakes_one {u32src u32dest remaining : U32} (some : remaining ≠ 0) :
    memcpyTakes ((1 : U32) <<< 0) u32src u32dest remaining = true := by
  have positive : 0 < remaining.toNat := by
    rw [Nat.pos_iff_ne_zero]
    exact fun zero => some (BitVec.eq_of_toNat_eq zero)
  have whole : rtAlignDown remaining 1 = remaining := by
    rw [rtAlignDown, show ~~~((1 : U32) - 1) = BitVec.allOnes 32 by decide, BitVec.and_allOnes]
  have one : ((1 : U32) <<< 0) = 1 := by decide
  unfold memcpyTakes
  rw [one, whole]
  have aligned (x : U32) : x % 1 = 0 := BitVec.umod_one
  simp only [aligned, BitVec.le_def, true_and, decide_eq_true_eq]
  exact positive

theorem memcpy_unit {k : Nat} (small : k < 3) :
    ((1 : U32) <<< k).toNat = 2 ^ k ∧ (((1 : U32) <<< k) * 8).toNat / 8 = 2 ^ k ∧
      (((1 : U32) <<< k) * 8 = 8 ∨ ((1 : U32) <<< k) * 8 = 16 ∨ ((1 : U32) <<< k) * 8 = 32) := by
  interval_cases k <;> decide

theorem memcpyTakes_placed {k : Nat} (small : k < 3) {dest src offset remaining : U32}
    (takes : memcpyTakes ((1 : U32) <<< k) (src + offset) (dest + offset) remaining = true) :
    let p : MemcpyPiece := ⟨offset, dest + offset, src + offset, ((1 : U32) <<< k) * 8,
      remaining / ((1 : U32) <<< k)⟩
    p.Placed dest src ∧ 0 < p.bytes ∧ p.bytes ≤ remaining.toNat ∧
      (p.transferCnt * (1 : U32) <<< k).toNat = p.bytes := by
  intro p
  obtain ⟨unit, bits, width⟩ := memcpy_unit small
  have pUnit : p.unit = 2 ^ k := bits
  unfold memcpyTakes at takes
  obtain ⟨same, srcAligned, enough⟩ := of_decide_eq_true takes
  have srcAligned' : (src + offset).toNat % 2 ^ k = 0 := by
    have := congrArg BitVec.toNat srcAligned
    rwa [BitVec.toNat_umod, unit] at this
  have destAligned' : (dest + offset).toNat % 2 ^ k = 0 := by
    have := congrArg BitVec.toNat (same.symm.trans srcAligned)
    rwa [BitVec.toNat_umod, unit] at this
  have fits : 2 ^ k ≤ remaining.toNat := by
    have := rtAlignDown_le remaining ((1 : U32) <<< k)
    rw [BitVec.le_def, unit] at enough
    omega
  have cnt : p.transferCnt.toNat = remaining.toNat / 2 ^ k := by
    rw [← unit]
    exact BitVec.toNat_udiv
  have bytes : p.bytes = remaining.toNat / 2 ^ k * 2 ^ k := by
    rw [MemcpyPiece.bytes, cnt, pUnit]
  have most : p.bytes ≤ remaining.toNat := by
    rw [bytes]
    exact Nat.div_mul_le_self _ _
  refine ⟨⟨rfl, rfl, width, ?_, ?_⟩, ?_, most, ?_⟩
  · rw [pUnit]
    exact destAligned'
  · rw [pUnit]
    exact srcAligned'
  · rw [bytes]
    exact Nat.mul_pos (Nat.div_pos fits (Nat.two_pow_pos k)) (Nat.two_pow_pos k)
  · rw [BitVec.toNat_mul, unit, cnt, ← bytes]
    exact Nat.mod_eq_of_lt (Nat.lt_of_le_of_lt most remaining.isLt)

section Loop

variable {σ : Type} {memfun : σ → MemcpyPiece → Option (σ × U32)} {dest src count : U32}

theorem copies_done {s : σ} {offset : U32} (all : count = offset) :
    (⟨s, [], some (if count = offset then dest else 0)⟩ : MemcpyRun σ).Copies dest src count
      offset.toNat where
  placed := by simp
  tiles := ⟨offset.toNat, by rw [all], rfl⟩
  front := by simp
  covers := fun _ => by
    show offset.toNat = count.toNat
    rw [all]
  completed := fun _ => by simp [all]
  failed := by simp

theorem copies_failed {s : σ} {p : MemcpyPiece} {reported ret : Option U32}
    (placed : p.Placed dest src) (some : 0 < p.bytes) (fits : p.start + p.bytes ≤ count.toNat)
    (short : reported ≠ Option.some p.transferCnt)
    (null : ret = Option.some 0 ∨ ret = none ∧ reported = none) :
    (⟨s, [(p, reported)], ret⟩ : MemcpyRun σ).Copies dest src count p.start where
  placed := by
    intro e mem
    rw [List.mem_singleton.mp mem]
    exact placed
  tiles := ⟨p.start + p.bytes, fits, rfl, some, rfl⟩
  front := by simp
  covers := fun all => absurd (all _ (List.mem_singleton.mpr rfl)) short
  completed := fun all => absurd (all _ (List.mem_singleton.mpr rfl)) short
  failed := by
    intro _
    rcases null with null | ⟨null, lost⟩
    · exact .inl null
    · exact .inr ⟨null, p, by rw [lost]; exact List.mem_singleton.mpr rfl⟩

theorem MemcpyRun.Copies.cons {r : MemcpyRun σ} {p : MemcpyPiece} (placed : p.Placed dest src)
    (some : 0 < p.bytes) (rest : r.Copies dest src count (p.start + p.bytes)) :
    MemcpyRun.Copies { r with issued := (p, Option.some p.transferCnt) :: r.issued }
      dest src count p.start := by
  have all : (∀ e ∈ (p, Option.some p.transferCnt) :: r.issued, Completed e) ↔
      ∀ e ∈ r.issued, Completed e := by
    rw [List.forall_mem_cons]
    exact and_iff_right rfl
  refine ⟨?_, ?_, ?_, ?_, ?_, ?_⟩
  · intro e mem
    rcases List.mem_cons.mp mem with first | later
    · rw [first]
      exact placed
    · exact rest.placed e later
  · obtain ⟨b, fits, tiles⟩ := rest.tiles
    exact ⟨b, fits, rfl, some, tiles⟩
  · intro e mem
    cases issued : r.issued with
    | nil =>
      rw [issued] at mem
      simp at mem
    | cons f fs =>
      rw [issued, List.dropLast_cons_cons] at mem
      rcases List.mem_cons.mp mem with first | later
      · rw [first]
        rfl
      · exact rest.front e (by rw [issued]; exact later)
  · intro completed
    exact ⟨rfl, some, rest.covers (all.mp completed)⟩
  · intro completed
    exact rest.completed (all.mp completed)
  · intro short
    rcases rest.failed (fun completed => short (all.mpr completed)) with null | ⟨null, q, lost⟩
    · exact .inl null
    · exact .inr ⟨null, q, List.mem_cons_of_mem _ lost⟩

/-- Induction on the rounds left; before the last one, of single bytes, anything may be left. -/
theorem memcpyLoop_copies (k : Nat) : ∀ {s : σ} {offset remaining : U32}, k ≤ 3 →
    offset.toNat + remaining.toNat = count.toNat → (k = 0 → remaining = 0) →
      (memcpyLoop memfun dest src count k s offset remaining).Copies dest src count
        offset.toNat := by
  induction k with
  | zero =>
    intro s offset remaining _ total none
    have all : count = offset := by
      rw [none rfl] at total
      exact BitVec.eq_of_toNat_eq total.symm
    exact copies_done all
  | succ k ih =>
    intro s offset remaining rounds total _
    unfold memcpyLoop
    by_cases zero : remaining = 0
    · rw [if_pos zero]
      have all : count = offset := by
        rw [zero] at total
        exact BitVec.eq_of_toNat_eq total.symm
      exact copies_done all
    rw [if_neg zero]
    by_cases takes : memcpyTakes ((1 : U32) <<< k) (src + offset) (dest + offset) remaining = true
    · simp only [takes, if_true]
      obtain ⟨placed, some, most, bytes⟩ := memcpyTakes_placed (by omega) takes
      set p : MemcpyPiece := ⟨offset, dest + offset, src + offset, (1 : U32) <<< k * 8,
        remaining / (1 : U32) <<< k⟩
      have here : p.start = offset.toNat := rfl
      have fits : p.start + p.bytes ≤ count.toNat := by omega
      cases call : memfun s p with
      | none => exact copies_failed placed some fits (by simp) (.inr ⟨rfl, rfl⟩)
      | some result =>
        obtain ⟨s', moved⟩ := result
        have cnt : remaining / (1 : U32) <<< k = p.transferCnt := rfl
        simp only [cnt]
        by_cases short : p.transferCnt = moved
        · subst short
          simp only [ne_eq, not_true_eq_false, if_false]
          have next : (offset + p.transferCnt * (1 : U32) <<< k).toNat = p.start + p.bytes := by
            rw [BitVec.toNat_add, bytes]
            exact Nat.mod_eq_of_lt (Nat.lt_of_le_of_lt fits count.isLt)
          have left : (remaining - p.transferCnt * (1 : U32) <<< k).toNat =
              remaining.toNat - p.bytes := by
            rw [BitVec.toNat_sub_of_le (by rw [BitVec.le_def, bytes]; exact most), bytes]
          refine .cons placed some ?_
          rw [← next]
          refine ih (by omega) (by rw [next, left]; omega) ?_
          rintro rfl
          show remaining - remaining / (1 : U32) <<< 0 * (1 : U32) <<< 0 = 0
          rw [show (1 : U32) <<< 0 = 1#32 by decide, BitVec.udiv_one, BitVec.mul_one,
            BitVec.sub_self]
          rfl
        · simp only [ne_eq, short, not_false_eq_true, if_true]
          exact copies_failed placed some fits (fun same => short (Option.some.inj same).symm)
            (.inl rfl)
    · simp only [takes, if_false, Bool.false_eq_true]
      refine ih (by omega) total ?_
      rintro rfl
      exact absurd (memcpyTakes_one zero) takes

theorem memcpyLoop_answers (k : Nat) : ∀ {s : σ} {offset remaining : U32},
    let r := memcpyLoop memfun dest src count k s offset remaining
    Answers memfun s r.issued r.s := by
  induction k with
  | zero => exact rfl
  | succ k ih =>
    intro s offset remaining
    unfold memcpyLoop
    dsimp only
    by_cases none : remaining = 0
    · rw [if_pos none]
      exact rfl
    rw [if_neg none]
    split_ifs
    · split
      · rename_i stuck
        exact ⟨stuck, rfl, rfl⟩
      · rename_i t moved call
        split_ifs
        · exact ⟨t, call, rfl⟩
        · exact ⟨t, call, ih⟩
    · exact ih

theorem nuPdmaMemcpy_copies (memfun : σ → MemcpyPiece → Option (σ × U32)) (dest src count : U32)
    (s : σ) : (nuPdmaMemcpy memfun dest src count s).Copies dest src count 0 := by
  show (memcpyLoop memfun dest src count 3 s 0 count).Copies dest src count (0 : U32).toNat
  apply memcpyLoop_copies 3 (Nat.le_refl 3)
  · exact Nat.zero_add _
  · simp

end Loop

theorem memcpy_subtransfers {σ : Type} (memfun : σ → MemcpyPiece → Option (σ × U32))
    (dest src count : U32) (s : σ) :
    let r := nuPdmaMemcpy memfun dest src count s
    let pieces := r.issued.map Prod.fst
    Answers memfun s r.issued r.s ∧
      r.Copies dest src count 0 ∧
      pieces.Pairwise (fun p q => p.start + p.bytes ≤ q.start) ∧
      ((∀ e ∈ r.issued, Completed e) → ∀ k, k < count.toNat ↔
        ∃! p, p ∈ pieces ∧ Tiling.Within MemcpyPiece.start MemcpyPiece.bytes p k) := by
  intro r pieces
  have copies := nuPdmaMemcpy_copies memfun dest src count s
  obtain ⟨b, -, tiles⟩ := copies.tiles
  refine ⟨memcpyLoop_answers 3, copies, tiles.pairwise, ?_⟩
  intro completed k
  have covers := copies.covers completed
  constructor
  · intro inside
    exact covers.existsUnique (Nat.zero_le k) inside
  · rintro ⟨p, ⟨mem, -, before⟩, -⟩
    exact Nat.lt_of_lt_of_le before (covers.bounds p mem).2

end NuMakerMA35
