import Mathlib.Data.Nat.Bitwise
import NuMakerMA35.NuWriterBounds

namespace NuMakerMA35

open Words Runs

section Align

theorem rtAlign_low {size align : Nat} (pos : 0 < align) :
    rtAlign size align = (size + align - 1) % 2 ^ 32 &&& (2 ^ 32 - align) := by
  have narrow : 2 ^ 32 - align < 2 ^ 32 := by omega
  apply Nat.eq_of_testBit_eq
  intro i
  unfold rtAlign
  simp only [Nat.testBit_and, Nat.testBit_mod_two_pow]
  by_cases low : i < 32
  · simp [low, show i < 64 by omega]
  · have none : (2 ^ 32 - align).testBit i = false := Nat.testBit_eq_false_of_lt
      (lt_of_lt_of_le narrow (Nat.pow_le_pow_right (by decide) (by omega)))
    rw [none, Bool.and_false, Bool.and_false]

theorem rtAlign_lt {size align : Nat} (pos : 0 < align) : rtAlign size align < 2 ^ 32 := by
  rw [rtAlign_low pos]
  exact Nat.and_lt_two_pow _ (by omega)

theorem rtAlign_empty {size align : Nat} (pos : 0 < align) (empty : size % 2 ^ 32 = 0) :
    rtAlign size align = 0 := by
  rw [rtAlign_low pos]
  by_cases wide : 2 ^ 32 < align
  · rw [show 2 ^ 32 - align = 0 by omega, Nat.and_zero]
  · have rest : (size + align - 1) % 2 ^ 32 = align - 1 := by omega
    have mask : 2 ^ 32 - align = 2 ^ 32 - (align - 1 + 1) := by omega
    rw [rest, mask]
    apply Nat.eq_of_testBit_eq
    intro i
    rw [Nat.testBit_and, Nat.testBit_two_pow_sub_succ (by omega)]
    cases (align - 1).testBit i <;> simp

theorem and_high_mask {w y k : Nat} (small : y < 2 ^ w) (inSpace : k ≤ w) :
    y &&& (2 ^ w - 2 ^ k) = y / 2 ^ k * 2 ^ k := by
  have mask : 2 ^ w - 2 ^ k = (2 ^ (w - k) - 1) * 2 ^ k := by
    rw [Nat.sub_mul, ← Nat.pow_add, one_mul, Nat.sub_add_cancel inSpace]
  apply Nat.eq_of_testBit_eq
  intro i
  rw [mask, Nat.testBit_and, Nat.testBit_mul_two_pow, Nat.testBit_mul_two_pow,
    Nat.testBit_two_pow_sub_one, Nat.testBit_div_two_pow]
  by_cases low : i < k
  · simp [show ¬k ≤ i by omega]
  · rw [show i - k + k = i by omega]
    by_cases high : i < w
    · simp [show k ≤ i by omega, show i - k < w - k by omega]
    · have none : y.testBit i = false := Nat.testBit_eq_false_of_lt
        (lt_of_lt_of_le small (Nat.pow_le_pow_right (by decide) (by omega)))
      simp [none]

theorem rtAlign_div {size k : Nat} (inSpace : k ≤ 32) (fits : size + 2 ^ k - 1 < 2 ^ 32) :
    rtAlign size (2 ^ k) / 2 ^ k = (size + 2 ^ k - 1) / 2 ^ k := by
  have pos : 0 < 2 ^ k := Nat.two_pow_pos k
  rw [rtAlign_low pos, Nat.mod_eq_of_lt fits, and_high_mask fits inSpace, Nat.mul_div_cancel _ pos]

theorem rtAlign_wrapped {size k : Nat} (inSpace : k ≤ 32) (low : size < 2 ^ 32)
    (wraps : 2 ^ 32 ≤ size + 2 ^ k - 1) : rtAlign size (2 ^ k) = 0 := by
  have pos : 0 < 2 ^ k := Nat.two_pow_pos k
  have rest : (size + 2 ^ k - 1) % 2 ^ 32 < 2 ^ k := by omega
  rw [rtAlign_low pos, and_high_mask (Nat.mod_lt _ (by decide)) inSpace, Nat.div_eq_of_lt rest,
    zero_mul]

end Align

namespace PackBuf

variable {b : PackBuf}

def ImageFits (b : PackBuf) (child : Nat) : Prop :=
  0 < b.get64 child % 2 ^ 32 → b.Inside child (packChildSize + b.get64 child % 2 ^ 32)

theorem copyOut_part {child off n : Nat} (image : b.ImageFits child)
    (part : n ≤ b.get64 child % 2 ^ 32 - off) :
    n = 0 ∨ b.Inside (child + packChildSize + off % 2 ^ 32) n := by
  by_cases none : n = 0
  · exact .inl none
  · right
    have bytes := image (by omega)
    have low : off % 2 ^ 32 = off := Nat.mod_eq_of_lt (by omega)
    unfold Inside at bytes ⊢
    omega

theorem inside_flash {child : Nat} (image : b.ImageFits child)
    (some : 0 < b.get64 child % 2 ^ 32) : b.Inside (child + 8) 8 := by
  have bytes := image some
  unfold Inside packChildSize at *
  omega

section Block

variable {child bytesPerSector : Nat} {writes : Nat → Bool}

theorem noFault_copyBlocks (image : b.ImageFits child) (some : 0 < b.get64 child % 2 ^ 32)
    {n : Nat} : ∀ {off remain : Nat}, remain = b.get64 child % 2 ^ 32 - off * bytesPerSector →
      NoFault (b.copyBlocks child bytesPerSector writes n off remain) := by
  induction n with
  | zero =>
    intro off remain _
    exact noFault_ok _
  | succ n ih =>
    intro off remain left
    unfold copyBlocks
    rw [noFault_copyOut_bind, noFault_word64_bind]
    refine ⟨copyOut_part image ?_, inside_flash image some, ?_⟩
    · split_ifs <;> omega
    · split_ifs with written full
      · apply ih
        rw [left, Nat.add_mul, one_mul, Nat.sub_sub]
      · apply ih
        rw [Nat.add_mul, one_mul]
        omega
      · exact noFault_pure _

theorem noFault_programBlockChild (pos : 0 < bytesPerSector) (header : b.Inside child 8)
    (image : b.ImageFits child) : NoFault (b.programBlockChild child bytesPerSector writes) := by
  unfold programBlockChild
  rw [word64_inside header, ok_bind]
  by_cases some : 0 < b.get64 child % 2 ^ 32
  · exact noFault_copyBlocks image some (by omega)
  · rw [rtAlign_empty pos (by omega)]
    simp only [Nat.zero_div, Nat.zero_mod]
    exact noFault_ok _

theorem copyBlocks_bytes {n : Nat} : ∀ {off : Nat}, off + n < 2 ^ 32 →
    NoFault (b.copyBlocks child 1 (fun _ => true) n off n) →
    b.copyBlocks child 1 (fun _ => true) n off n = .ok true ∧
      (0 < n → b.Inside (child + packChildSize + off) n) := by
  induction n with
  | zero =>
    intro off _ _
    exact ⟨rfl, fun none => absurd none (by decide)⟩
  | succ n ih =>
    intro off low h
    unfold copyBlocks at h ⊢
    rw [noFault_copyOut_bind, noFault_word64_bind] at h
    obtain ⟨byte, flash, rest⟩ := h
    simp only [show 1 ≤ n + 1 by omega, if_true, Nat.mul_one, Nat.add_sub_cancel,
      Nat.mod_eq_of_lt (show off < 2 ^ 32 by omega), one_ne_zero, false_or] at byte rest ⊢
    obtain ⟨done, more⟩ := ih (by omega) rest
    have copied : b.copyOut (child + packChildSize + off) 1 = .ok () := if_pos (.inr byte)
    refine ⟨?_, fun _ => ?_⟩
    · rw [copied, ok_bind, word64_inside flash, ok_bind]
      exact done
    · unfold Inside at byte more ⊢
      by_cases last : n = 0
      · omega
      · have := more (by omega)
        omega

theorem programBlockChild_bytes (h : NoFault (b.programBlockChild child 1 fun _ => true)) :
    b.programBlockChild child 1 (fun _ => true) = .ok true ∧ b.Inside child 8 ∧
      b.ImageFits child := by
  unfold programBlockChild at h ⊢
  rw [noFault_word64_bind] at h
  obtain ⟨header, rest⟩ := h
  have blocks : rtAlign (b.get64 child) 1 / 1 % 2 ^ 32 = b.get64 child % 2 ^ 32 := by
    rw [Nat.div_one, rtAlign_low (by decide), Nat.add_sub_cancel, Nat.and_two_pow_sub_one_eq_mod,
      Nat.mod_mod, Nat.mod_mod]
  have low : 0 + b.get64 child % 2 ^ 32 < 2 ^ 32 := by omega
  rw [blocks] at rest
  obtain ⟨done, bytes⟩ := copyBlocks_bytes low rest
  refine ⟨?_, header, ?_⟩
  · rw [word64_inside header, ok_bind, blocks]
    exact done
  · intro some
    have image := bytes some
    unfold Inside at header image ⊢
    omega

end Block

section Mtd

variable {child pageShift blockShift : Nat} {good erases : Nat → Bool}

theorem copyPages_left {pageSize : Nat} (writes : Nat → Bool) (image : b.ImageFits child) (n : Nat) :
    ∀ {page remain : Nat}, remain = b.get64 child % 2 ^ 32 - page * pageSize →
      ∃ left, b.copyPages (child + packChildSize) pageSize writes n page remain = .ok left ∧
        ∀ r, left = some r → r = b.get64 child % 2 ^ 32 - (page + n) * pageSize := by
  induction n with
  | zero =>
    intro page remain h
    refine ⟨some remain, rfl, ?_⟩
    rintro r ⟨⟩
    exact h
  | succ n ih =>
    intro page remain h
    unfold copyPages
    dsimp only
    have part : (if pageSize ≤ remain then pageSize else remain) ≤
        b.get64 child % 2 ^ 32 - page * pageSize := by
      split_ifs <;> omega
    have copied : b.copyOut (child + packChildSize + page * pageSize % 2 ^ 32)
        (if pageSize ≤ remain then pageSize else remain) = .ok () := if_pos (copyOut_part image part)
    rw [copied, ok_bind]
    by_cases written : writes page
    · rw [if_pos written]
      have next : remain - (if pageSize ≤ remain then pageSize else remain) =
          b.get64 child % 2 ^ 32 - (page + 1) * pageSize := by
        rw [Nat.add_mul, one_mul]
        split_ifs <;> omega
      obtain ⟨left, done, rest⟩ := ih next
      refine ⟨left, done, ?_⟩
      intro r hr
      rw [rest r hr, show page + 1 + n = page + (n + 1) by omega]
    · rw [if_neg written]
      exact ⟨none, rfl, fun r hr => by cases hr⟩

theorem noFault_mtdBlocks {writes : Nat → Nat → Bool} (inSpace : pageShift + blockShift < 32)
    (image : b.ImageFits child) {looks : Nat} : ∀ {blockOff blockIdx remain : Nat},
      remain = b.get64 child % 2 ^ 32 - blockIdx * (2 ^ blockShift * 2 ^ pageShift) →
      NoFault (b.mtdBlocks (child + packChildSize) (2 ^ pageShift) (2 ^ blockShift)
        (rtAlign (b.get64 child % 2 ^ 32) (2 ^ blockShift * 2 ^ pageShift) /
          (2 ^ blockShift * 2 ^ pageShift)) good erases writes looks blockOff blockIdx remain) := by
  induction looks with
  | zero =>
    intro blockOff blockIdx remain _
    exact noFault_ok _
  | succ looks ih =>
    intro blockOff blockIdx remain h
    unfold mtdBlocks
    dsimp only
    by_cases done : rtAlign (b.get64 child % 2 ^ 32) (2 ^ blockShift * 2 ^ pageShift) /
        (2 ^ blockShift * 2 ^ pageShift) ≤ blockIdx
    · rw [if_pos done]
      exact noFault_ok _
    rw [if_neg done]
    cases isGood : good blockOff with
    | false => exact ih h
    | true =>
    cases erased : erases blockOff with
    | false => exact noFault_ok _
    | true =>
      simp only [Bool.not_true, Bool.false_eq_true, if_false]
      have start : remain = b.get64 child % 2 ^ 32 - blockIdx * 2 ^ blockShift * 2 ^ pageShift := by
        rw [h, Nat.mul_assoc]
      obtain ⟨left, copied, rest⟩ := copyPages_left (writes blockOff) image
        (if 2 ^ blockShift * 2 ^ pageShift ≤ remain then 2 ^ blockShift
          else rtAlign remain (2 ^ pageShift) / 2 ^ pageShift) start
      rw [copied, ok_bind]
      cases left with
      | none => exact noFault_ok _
      | some remain' =>
        apply ih
        rw [rest remain' rfl]
        split_ifs with full
        · rw [Nat.add_mul, Nat.add_mul, one_mul, Nat.mul_assoc]
        · -- the last block: its pages hold all that remains
          have erase : 2 ^ blockShift * 2 ^ pageShift = 2 ^ (blockShift + pageShift) :=
            (Nat.pow_add 2 blockShift pageShift).symm
          have noWrap : b.get64 child % 2 ^ 32 + 2 ^ (blockShift + pageShift) - 1 < 2 ^ 32 := by
            by_contra wraps
            rw [erase, rtAlign_wrapped (by omega) (Nat.mod_lt _ (by decide)) (by omega)] at done
            simp at done
          have page : 2 ^ pageShift ≤ 2 ^ (blockShift + pageShift) :=
            Nat.pow_le_pow_right (by decide) (by omega)
          rw [rtAlign_div (by omega) (by omega)]
          have pages := Nat.lt_div_mul_add (a := remain + 2 ^ pageShift - 1) (Nat.two_pow_pos pageShift)
          have all : remain ≤ (remain + 2 ^ pageShift - 1) / 2 ^ pageShift * 2 ^ pageShift := by omega
          rw [Nat.add_mul, Nat.add_mul, one_mul, Nat.mul_assoc]
          omega

variable {writes : Nat → Nat → Bool} {looks : Nat}

theorem noFault_programMtdChild (inSpace : pageShift + blockShift < 32)
    (header : b.Inside child 16) (image : b.ImageFits child) :
    NoFault (b.programMtdChild child (2 ^ pageShift) (2 ^ blockShift) good erases writes looks) := by
  have length : b.Inside child 8 := ⟨header.1, by have := header.2; omega⟩
  have flash : b.Inside (child + 8) 8 := ⟨by have := header.1; omega, by have := header.2; omega⟩
  unfold programMtdChild
  rw [word64_inside length, ok_bind, word64_inside flash, ok_bind]
  dsimp only
  split_ifs
  · exact noFault_pure _
  · exact noFault_mtdBlocks inSpace image (by omega)

theorem programMtdChild_low (h : b.programMtdChild child (2 ^ pageShift) (2 ^ blockShift) good erases
    writes looks = .ok true) : b.get64 (child + 8) < 2 ^ 32 := by
  unfold programMtdChild at h
  obtain ⟨imageLength, -, h⟩ := bind_ok_iff.mp h
  obtain ⟨flashAddress, flash, h⟩ := bind_ok_iff.mp h
  have value : flashAddress = b.get64 (child + 8) := by
    unfold word64 at flash
    split_ifs at flash
    cases flash
    rfl
  subst value
  dsimp only at h
  split_ifs at h with unaligned
  · cases h
  · rw [not_not] at unaligned
    rw [unaligned]
    exact rtAlign_lt (Nat.mul_pos (Nat.two_pow_pos _) (Nat.two_pow_pos _))

end Mtd

section Children

variable {program : Nat → Nat → Except PackFault Bool}

theorem noFault_programChildren (reached : Nat → Prop)
    (onward : ∀ k child, program k child = .ok true → reached child) (children : List Nat)
    (each : ∀ before child after, children = before ++ child :: after →
      (∀ c ∈ before, reached c) → ∀ k, NoFault (program k child)) :
    ∀ k, NoFault (programChildren program k children) := by
  induction children with
  | nil =>
    intro k
    exact noFault_ok _
  | cons child children ih =>
    intro k
    unfold programChildren
    obtain ⟨done, first⟩ := each [] child children rfl (by simp) k
    rw [first, ok_bind]
    cases done with
    | false => exact noFault_pure _
    | true =>
      apply ih
      intro before c after parts met
      apply each (child :: before) c after (by rw [parts]; rfl)
      intro d hd
      rcases List.mem_cons.mp hd with rfl | hd
      · exact onward k d first
      · exact met d hd

theorem noFault_programChildren_cons {k child : Nat} {children : List Nat}
    (h : NoFault (programChildren program k (child :: children))) : NoFault (program k child) := by
  unfold programChildren at h
  obtain ⟨done, first, -⟩ := noFault_bind.mp h
  exact ⟨done, first⟩

theorem programChildren_each {children : List Nat} : ∀ {k : Nat},
    (∀ k, ∀ child ∈ children, NoFault (program k child) → program k child = .ok true) →
    NoFault (programChildren program k children) →
    ∀ child ∈ children, ∃ k, NoFault (program k child) := by
  induction children with
  | nil =>
    intro k _ _ child hc
    cases hc
  | cons first children ih =>
    intro k done h child hc
    have here := noFault_programChildren_cons h
    rcases List.mem_cons.mp hc with rfl | hc
    · exact ⟨k, here⟩
    · unfold programChildren at h
      rw [done k first List.mem_cons_self here, ok_bind] at h
      exact ih (fun k c inside => done k c (List.mem_cons_of_mem first inside)) h child hc

end Children

section Exec

def count (b : PackBuf) : Nat := (b.get32 (b.base + 8)).toNat

def child (b : PackBuf) (i : Nat) : Nat := b.childAt (b.base + packHdrSize) i

/-- What the children of a pack with a good header must look like: the boot info in the first one
can be checked, the list of children can be allocated, each length and each image lies in the
buffer, and so does the flash address of a child an MTD device can come to. -/
def ChildrenFit (b : PackBuf) : Prop :=
  0 < b.count →
    (b.Inside (b.child 0) 8 ∧ b.BootInfoFits (b.child 0 + packChildSize)
      ((b.get64 (b.child 0) + 2 ^ 64 - 8) % 2 ^ 32)) ∧
    b.count < 2 ^ 30 ∧
    ∀ i, i < b.count → b.Inside (b.child i) 8 ∧ b.ImageFits (b.child i) ∧
      ((∀ j, i < j → j < b.count → b.get64 (b.child j + 8) < 2 ^ 32) → b.Inside (b.child i) 16)

def Fits (b : PackBuf) : Prop :=
  b.len = 0 ∨ (b.HeaderReadable ∧ (b.HeaderGood → b.ChildrenFit))

theorem nuwriterPackVerify_good (some : b.len ≠ 0) (readable : b.HeaderReadable)
    (good : b.HeaderGood) :
    b.nuwriterPackVerify = b.verifyChildren b.count 0 (b.child 0) := by
  have long := (readable.2 good.1).1
  have counted : b.Inside (b.base + 8) 4 := ⟨by omega, by omega⟩
  unfold nuwriterPackVerify
  rw [if_neg some, (packHeaderOk_readable readable).1 good, ok_bind, word32_inside counted]
  rfl

theorem nuwriterPackProgram_good (some : b.len ≠ 0) (readable : b.HeaderReadable)
    (good : b.HeaderGood) {dev : PackDevice} (list : dev.listAllocated = true)
    (opens : dev.opens = true) : b.nuwriterPackProgram dev =
      b.childWalk (b.count * 4 % 2 ^ 32) b.count 0 (b.child 0) >>= fun children =>
        b.programStorage children dev.storage := by
  have long := (readable.2 good.1).1
  have counted : b.Inside (b.base + 8) 4 := ⟨by omega, by omega⟩
  unfold nuwriterPackProgram
  rw [if_neg some, (packHeaderOk_readable readable).1 good, ok_bind, word32_inside counted, list,
    opens]
  rfl

theorem nuwriterExec_verified (verified : b.nuwriterPackVerify = .ok 0) (dev : PackDevice) :
    NoFault (b.nuwriterExec (some dev)) ↔ NoFault (b.nuwriterPackProgram dev) := by
  unfold nuwriterExec
  rw [verified, ok_bind, if_neg (by decide)]
  simp only
  rw [noFault_bind]
  exact ⟨fun ⟨r, h, _⟩ => ⟨r, h⟩, fun ⟨r, h⟩ => ⟨r, h, noFault_pure _⟩⟩

theorem map_range_split {α : Type} {f : Nat → α} {n : Nat} {pre post : List α} {x : α}
    (h : (List.range n).map f = pre ++ x :: post) :
    pre.length < n ∧ x = f pre.length ∧ ∀ j, pre.length < j → j < n → f j ∈ post := by
  have size := congrArg List.length h
  simp only [List.length_map, List.length_range, List.length_append, List.length_cons] at size
  have entry (j : Nat) (hj : j < n) : (pre ++ x :: post)[j]? = some (f j) := by
    rw [← h]
    simp [hj]
  refine ⟨by omega, ?_, ?_⟩
  · have here := entry pre.length (by omega)
    simpa using here
  · intro j after hj
    have there := entry j hj
    rw [List.getElem?_append_right (by omega), show j - pre.length = j - pre.length - 1 + 1 by omega,
      List.getElem?_cons_succ] at there
    exact List.mem_of_getElem? there

theorem noFault_programStorage (fit : b.ChildrenFit) (storage : PackStorage) :
    NoFault (b.programStorage ((List.range b.count).map b.child) storage) := by
  have place {before after : List Nat} {c : Nat}
      (h : ((List.range b.count).map b.child).reverse = before ++ c :: after) :
      after.length < b.count ∧ c = b.child after.length ∧
        ∀ j, after.length < j → j < b.count → b.child j ∈ before := by
    have order : (List.range b.count).map b.child = after.reverse ++ c :: before.reverse := by
      rw [← List.reverse_reverse ((List.range b.count).map b.child), h]
      simp
    have split := map_range_split order
    simpa using split
  cases storage with
  | other => exact noFault_ok _
  | block bytesPerSector writes =>
    match bytesPerSector with
    | none => exact noFault_ok _
    | some 0 => exact noFault_ok _
    | some (bytes + 1) =>
      have each (before : List Nat) (c : Nat) (after : List Nat)
          (parts : ((List.range b.count).map b.child).reverse = before ++ c :: after)
          (_ : ∀ d ∈ before, True) (k : Nat) :
          NoFault (b.programBlockChild c (bytes + 1) (writes k)) := by
        obtain ⟨hi, same, -⟩ := place parts
        obtain ⟨header, image, -⟩ := (fit (Nat.zero_lt_of_lt hi)).2.2 after.length hi
        subst same
        exact noFault_programBlockChild (Nat.succ_pos bytes) header image
      obtain ⟨done, h⟩ := noFault_programChildren (fun _ => True) (fun _ _ _ => trivial) _ each 0
      exact noFault_bind.mpr ⟨done, h, noFault_pure _⟩
  | mtd pageShift blockShift inSpace good erases writes looks =>
    change NoFault (programChildren (fun k child => b.programMtdChild child (2 ^ pageShift)
      (2 ^ blockShift) (good k) (erases k) (writes k) looks) 0
        ((List.range b.count).map b.child).reverse >>= _)
    obtain ⟨done, h⟩ := noFault_programChildren (fun c => b.get64 (c + 8) < 2 ^ 32)
      (fun _ _ => programMtdChild_low) ((List.range b.count).map b.child).reverse
      (fun before c after parts met k => by
        obtain ⟨hi, same, behind⟩ := place parts
        obtain ⟨header, image, flash⟩ := (fit (Nat.zero_lt_of_lt hi)).2.2 after.length hi
        subst same
        exact noFault_programMtdChild inSpace
          (flash fun j after hj => met _ (behind j after hj)) image) 0
    rw [h]
    exact noFault_pure _

theorem noFault_exec_of_fits (fit : b.Fits) (dev : Option PackDevice) :
    NoFault (b.nuwriterExec dev) := by
  have rejected (h : b.nuwriterPackVerify = .ok (-1)) : NoFault (b.nuwriterExec dev) := by
    unfold nuwriterExec
    rw [h, ok_bind, if_pos (by decide)]
    exact noFault_pure _
  rcases fit with empty | ⟨readable, fit⟩
  · exact rejected (if_pos empty)
  have some : b.len ≠ 0 := by
    have := readable.1
    omega
  by_cases good : b.HeaderGood
  · have fit := fit good
    have walked : NoFault b.nuwriterPackVerify := by
      rw [nuwriterPackVerify_good some readable good]
      cases children : b.count with
      | zero => exact noFault_ok _
      | succ n =>
        obtain ⟨first, -, each⟩ := fit (by omega)
        rw [noFault_verifyChildren]
        exact ⟨first, fun k hk => (each k (by omega)).1⟩
    obtain ⟨r, verified⟩ := walked
    have value : r = 0 := by
      rw [nuwriterPackVerify_good some readable good] at verified
      exact verifyChildren_value verified
    subst value
    cases dev with
    | none =>
      unfold nuwriterExec
      rw [verified, ok_bind, if_neg (by decide)]
      exact noFault_pure _
    | some dev =>
      rw [nuwriterExec_verified verified]
      cases list : dev.listAllocated with
      | false =>
        have long := (readable.2 good.1).1
        have counted : b.Inside (b.base + 8) 4 := ⟨by omega, by omega⟩
        unfold nuwriterPackProgram
        rw [if_neg some, (packHeaderOk_readable readable).1 good, ok_bind, word32_inside counted, list]
        exact noFault_ok _
      | true =>
        have walk : b.childWalk (b.count * 4 % 2 ^ 32) b.count 0 (b.child 0) =
            .ok ((List.range b.count).map b.child) := by
          by_cases none : b.count = 0
          · rw [none]
            rfl
          · obtain ⟨-, few, each⟩ := fit (by omega)
            exact childWalk_ok (by omega) fun k hk => (each k hk).1
        cases opens : dev.opens with
        | false =>
          have long := (readable.2 good.1).1
          have counted : b.Inside (b.base + 8) 4 := ⟨by omega, by omega⟩
          unfold nuwriterPackProgram
          rw [if_neg some, (packHeaderOk_readable readable).1 good, ok_bind, word32_inside counted,
            list, opens]
          change NoFault (b.childWalk (b.count * 4 % 2 ^ 32) b.count 0 (b.child 0) >>= _)
          rw [walk]
          exact noFault_ok _
        | true =>
          rw [nuwriterPackProgram_good some readable good list opens, walk, ok_bind]
          exact noFault_programStorage fit dev.storage
  · apply rejected
    unfold nuwriterPackVerify
    rw [if_neg some, (packHeaderOk_readable readable).2 good]
    rfl

def byteDevice : PackDevice := ⟨true, true, .block (some 1) fun _ _ => true⟩

/-- An MTD device with blocks of one byte that never fails, followed for `looks` blocks. -/
def mtdDevice (looks : Nat) : PackDevice :=
  ⟨true, true, .mtd 0 0 (by decide) (fun _ _ => true) (fun _ _ => true) (fun _ _ _ => true) looks⟩

theorem images_of_byteDevice
    (h : NoFault (b.programStorage ((List.range b.count).map b.child) byteDevice.storage)) :
    ∀ i, i < b.count → b.ImageFits (b.child i) := by
  change NoFault (programChildren (fun _ child => b.programBlockChild child 1 fun _ => true) 0
    ((List.range b.count).map b.child).reverse >>= _) at h
  obtain ⟨done, programmed, -⟩ := noFault_bind.mp h
  intro i hi
  obtain ⟨k, here⟩ := programChildren_each (fun k c _ h => (programBlockChild_bytes h).1)
    ⟨done, programmed⟩ (b.child i) (by simpa using ⟨i, hi, rfl⟩)
  exact (programBlockChild_bytes here).2.2

theorem mtdBlocks_done {image total : Nat} {looks : Nat} : ∀ {blockOff blockIdx remain : Nat},
    0 < looks → total < blockIdx + looks →
    NoFault (b.mtdBlocks image 1 1 total (fun _ => true) (fun _ => true) (fun _ _ => true) looks
      blockOff blockIdx remain) →
    b.mtdBlocks image 1 1 total (fun _ => true) (fun _ => true) (fun _ _ => true) looks
      blockOff blockIdx remain = .ok true := by
  have pages (n : Nat) : ∀ {page remain : Nat} {left : Option Nat},
      b.copyPages image 1 (fun _ => true) n page remain = .ok left → left ≠ none := by
    induction n with
    | zero =>
      rintro page remain left ⟨⟩
      simp
    | succ n ih =>
      intro page remain left h
      unfold copyPages at h
      obtain ⟨-, -, h⟩ := bind_ok_iff.mp h
      exact ih h
  induction looks with
  | zero =>
    intro blockOff blockIdx remain some
    exact absurd some (by decide)
  | succ looks ih =>
    intro blockOff blockIdx remain _ long h
    unfold mtdBlocks at h ⊢
    by_cases done : total ≤ blockIdx
    · rw [if_pos done]
    · rw [if_neg done] at h ⊢
      simp only [Bool.not_true, Bool.false_eq_true, if_false] at h ⊢
      obtain ⟨left, copied, rest⟩ := noFault_bind.mp h
      rw [copied, ok_bind]
      cases left with
      | none => exact absurd rfl (pages _ copied)
      | some remain' => exact ih (by omega) (by omega) rest

theorem programMtdChild_done {child : Nat}
    (h : NoFault (b.programMtdChild child 1 1 (fun _ => true) (fun _ => true) (fun _ _ => true)
      (2 ^ 32 + 1))) (low : b.get64 (child + 8) < 2 ^ 32) :
    b.programMtdChild child 1 1 (fun _ => true) (fun _ => true) (fun _ _ => true) (2 ^ 32 + 1) =
      .ok true := by
  unfold programMtdChild at h ⊢
  obtain ⟨header, h⟩ := noFault_word64_bind.mp h
  obtain ⟨flash, h⟩ := noFault_word64_bind.mp h
  rw [word64_inside header, ok_bind, word64_inside flash, ok_bind]
  have aligned : rtAlign (b.get64 (child + 8)) 1 = b.get64 (child + 8) := by
    rw [rtAlign_low (by decide), Nat.add_sub_cancel, Nat.and_two_pow_sub_one_eq_mod, Nat.mod_mod,
      Nat.mod_eq_of_lt low]
  dsimp only [Nat.mul_one] at h ⊢
  rw [if_neg (not_not.mpr aligned.symm)] at h ⊢
  refine mtdBlocks_done (by decide) ?_ h
  have blocks : rtAlign (b.get64 child % 2 ^ 32) (1 * 1) < 2 ^ 32 := rtAlign_lt (by decide)
  omega

theorem flash_of_mtdDevice {children : List Nat} : ∀ {k : Nat} {before after : List Nat} {c : Nat},
    children = before ++ c :: after → (∀ d ∈ before, b.get64 (d + 8) < 2 ^ 32) →
    NoFault (programChildren (fun _ child => b.programMtdChild child 1 1 (fun _ => true)
      (fun _ => true) (fun _ _ => true) (2 ^ 32 + 1)) k children) → b.Inside c 16 := by
  induction children with
  | nil =>
    intro k before after c parts
    simp at parts
  | cons first children ih =>
    intro k before after c parts low h
    have here := noFault_programChildren_cons h
    cases before with
    | nil =>
      obtain ⟨rfl, -⟩ := List.cons.inj parts
      unfold programMtdChild at here
      obtain ⟨header, here⟩ := noFault_word64_bind.mp here
      obtain ⟨flash, -⟩ := noFault_word64_bind.mp here
      unfold Inside at header flash ⊢
      omega
    | cons d before =>
      obtain ⟨rfl, later⟩ := List.cons.inj parts
      unfold programChildren at h
      rw [programMtdChild_done here (low first List.mem_cons_self), ok_bind] at h
      exact ih later (fun d hd => low d (List.mem_cons_of_mem first hd)) h

theorem readable_of_exec (some : b.len ≠ 0) (h : NoFault (b.nuwriterExec none)) :
    b.HeaderReadable := by
  obtain ⟨r, verified, -⟩ := noFault_bind.mp h
  unfold nuwriterPackVerify at verified
  rw [if_neg some] at verified
  obtain ⟨good, header, -⟩ := bind_ok_iff.mp verified
  exact noFault_packHeaderOk.mp ⟨good, header⟩

theorem childrenFit_of_exec (some : b.len ≠ 0) (readable : b.HeaderReadable) (good : b.HeaderGood)
    (h : ∀ dev, NoFault (b.nuwriterExec dev)) : b.ChildrenFit := by
  intro pos
  obtain ⟨n, counted⟩ : ∃ n, b.count = n + 1 := ⟨b.count - 1, by omega⟩
  obtain ⟨r, verified, -⟩ := noFault_bind.mp (h none)
  have checked := verified
  rw [nuwriterPackVerify_good some readable good] at checked
  cases verifyChildren_value checked
  have programmed (dev : PackDevice) (list : dev.listAllocated = true) (opens : dev.opens = true) :
      ∃ children, b.childWalk (b.count * 4 % 2 ^ 32) b.count 0 (b.child 0) = .ok children ∧
        NoFault (b.programStorage children dev.storage) := by
    have run := (nuwriterExec_verified verified dev).mp (h dev)
    rw [nuwriterPackProgram_good some readable good list opens] at run
    exact noFault_bind.mp run
  obtain ⟨children, walked, bytes⟩ := programmed byteDevice rfl rfl
  have room := childWalk_room pos ⟨children, walked⟩
  have few : b.count < 2 ^ 30 := by omega
  have each := childWalk_inside ⟨children, walked⟩
  have listed := childWalk_ok room each
  obtain ⟨again, walked', flash⟩ := programmed (mtdDevice (2 ^ 32 + 1)) rfl rfl
  rw [walked] at listed walked'
  cases listed
  cases walked'
  refine ⟨?_, few, ?_⟩
  · rw [counted] at checked
    exact (noFault_verifyChildren.mp ⟨0, checked⟩).1
  intro i hi
  refine ⟨each i hi, images_of_byteDevice bytes i hi, ?_⟩
  intro low
  obtain ⟨done, mtd, -⟩ := noFault_bind.mp flash
  have order : ((List.range b.count).map b.child).reverse =
      ((List.range (b.count - (i + 1))).map fun j => b.child (i + 1 + j)).reverse ++
        b.child i :: ((List.range i).map b.child).reverse := by
    have parts : b.count = i + 1 + (b.count - (i + 1)) := by omega
    conv_lhs => rw [parts, List.range_add, List.range_succ]
    simp [Function.comp_def]
  refine flash_of_mtdDevice order ?_ ⟨done, mtd⟩
  intro d hd
  simp only [List.mem_reverse, List.mem_map, List.mem_range] at hd
  obtain ⟨j, hj, rfl⟩ := hd
  exact low (i + 1 + j) (by omega) (by omega)

/-- The command reads inside the buffer, whatever the device does, for these files only. -/
theorem pack_reads_inside_iff (b : PackBuf) : (∀ dev, NoFault (b.nuwriterExec dev)) ↔ b.Fits := by
  constructor
  · intro h
    by_cases empty : b.len = 0
    · exact .inl empty
    · have readable := readable_of_exec empty (h none)
      exact .inr ⟨readable, fun good => childrenFit_of_exec empty readable good h⟩
  · intro fit dev
    exact noFault_exec_of_fits fit dev

def headerOnlyPack : PackBuf where
  mem a := [0x20, 0x54, 0x56, 0x4E, 0x14, 0xFF, 0x33, 0x77,
    0x01, 0x00, 0x00, 0x00, 0xFF, 0xFF, 0xFF, 0xFF].getD (a - 0x80000000) 0
  base := 0x80000000
  len := 16
  inSpace := by decide

/-- Its checksum is right, so the child is looked for. -/
theorem headerOnlyPack_reads_outside : headerOnlyPack.packHeaderOk = .ok true ∧
    headerOnlyPack.nuwriterExec none = .error .outside := by
  have marker : headerOnlyPack.get32 headerOnlyPack.base = nvtMarker := by decide
  have reserve : headerOnlyPack.get32 (headerOnlyPack.base + 12) = 0xFFFFFFFF := by decide
  have sum : headerOnlyPack.crcSum (headerOnlyPack.base + 8) (headerOnlyPack.len - 8) =
      headerOnlyPack.get32 (headerOnlyPack.base + 4) := by decide
  have one : headerOnlyPack.count = 1 := by decide
  have short : ¬headerOnlyPack.Inside (headerOnlyPack.child 0) 8 := by decide
  have good : headerOnlyPack.HeaderGood := ⟨marker, reserve, sum⟩
  have readable : headerOnlyPack.HeaderReadable := ⟨by decide, fun _ => ⟨by decide, fun _ => by decide⟩⟩
  have missing : headerOnlyPack.word64 (headerOnlyPack.child 0) = .error .outside := if_neg short
  refine ⟨(packHeaderOk_readable readable).1 good, ?_⟩
  unfold nuwriterExec
  rw [nuwriterPackVerify_good (by decide) readable good, one]
  unfold verifyChildren verifyChild
  rw [if_pos rfl, missing]
  rfl

end Exec

end PackBuf

end NuMakerMA35
