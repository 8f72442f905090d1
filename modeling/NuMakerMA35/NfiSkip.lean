import NuMakerMA35.NfiMtd
import NuMakerMA35.SkipWalk

namespace NuMakerMA35

open SkipWalk

namespace NfiGeometry

variable (g : NfiGeometry) {bbt : Nat → Bool}

/-- Whether the loops take the block they look up for a page. -/
def usable (bbt : Nat → Bool) (page : Nat) : Bool := !skipsBlock g bbt (page * g.writesize)

/-- The pages that a read or write of some bytes from a page on comes to: the next ones if
`check_skip_len` finds no bad block among them, else the next ones the loops take. -/
def Visits (bbt : Nat → Bool) (start len page : Nat) : Prop :=
  page < g.pages ∧
    ((checkSkipLen g bbt (start * g.writesize) len).1 = 0 ∧
        start ≤ page ∧ page < start + g.pagesOf len ∨
      (checkSkipLen g bbt (start * g.writesize) len).1 = 1 ∧
        Reaches (g.usable bbt) start (g.pagesOf len) page)

instance (bbt : Nat → Bool) (start len page : Nat) : Decidable (g.Visits bbt start len page) :=
  inferInstanceAs (Decidable (_ ∧ (_ ∧ _ ∧ _ ∨ _ ∧ _)))

variable {g} in
theorem Visits.some {start len page : Nat} (h : g.Visits bbt start len page) : len ≠ 0 := by
  intro none
  subst none
  rcases h with ⟨-, ⟨-, low, high⟩ | ⟨-, reached⟩⟩
  · rw [g.pagesOf_zero] at high
    omega
  · rw [g.pagesOf_zero] at reached
    exact not_reaches_zero reached

theorem usable_eq (bbt : Nat → Bool) (page : Nat) : g.usable bbt page =
    decide (mtdBlockIsbad g bbt (page / g.pagesPerBlock * g.erasesize % 2 ^ 32) = 0) := by
  have start : page * g.writesize - page * g.writesize % g.erasesize =
      page / g.pagesPerBlock * g.erasesize := by
    have whole := Nat.div_add_mod (page * g.writesize) g.erasesize
    rw [g.offset_div, Nat.mul_comm] at whole
    omega
  unfold usable skipsBlock
  rw [start]
  simp

theorem usable_block {s y : Nat} (low : s ≤ y) (high : y < g.nextBlock s) :
    g.usable bbt y = g.usable bbt s := by
  rw [usable_eq, usable_eq, g.same_block low high]

theorem reaches_nextBlock {s n x : Nat} (skipped : g.usable bbt s = false) :
    Reaches (g.usable bbt) s n x ↔ Reaches (g.usable bbt) (g.nextBlock s) n x := by
  have further := g.lt_nextBlock s
  have h := @reaches_skip (g.usable bbt) s (g.nextBlock s - s) n x (by
    intro y low high
    rw [g.usable_block low (by omega), skipped])
  rwa [Nat.add_sub_cancel' further.le] at h

theorem reaches_block {s k n x : Nat} (taken : g.usable bbt s = true) (part : s + k ≤ g.nextBlock s)
    (room : k ≤ n) : Reaches (g.usable bbt) s n x ↔
      (s ≤ x ∧ x < s + k) ∨ Reaches (g.usable bbt) (s + k) (n - k) x := by
  apply reaches_take _ room
  intro y low high
  rw [g.usable_block low (by omega), taken]

def rest (page : Nat) : Nat := (g.nextBlock page - page) * g.writesize

theorem rest_pos (s : Nat) : 0 < g.rest s :=
  Nat.mul_pos (Nat.sub_pos_of_lt (g.lt_nextBlock s)) g.writesize_pos

theorem pagesOf_part_le (s len : Nat) : s + g.pagesOf (min len (g.rest s)) ≤ g.nextBlock s := by
  have further := g.lt_nextBlock s
  have room : g.pagesOf (min len (g.rest s)) ≤ g.nextBlock s - s :=
    g.pagesOf_le_iff.mpr (Nat.min_le_right _ _)
  omega

theorem reaches_turn {s len x : Nat} (taken : g.usable bbt s = true) :
    Reaches (g.usable bbt) s (g.pagesOf len) x ↔
      (s ≤ x ∧ x < s + g.pagesOf (min len (g.rest s))) ∨
        Reaches (g.usable bbt) (g.nextBlock s) (g.pagesOf (len - g.rest s)) x := by
  have further := g.lt_nextBlock s
  have part := g.pagesOf_part_le s len
  rcases Nat.le_total len (g.rest s) with last | whole
  · rw [Nat.min_eq_left last] at part ⊢
    rw [g.reaches_block taken part le_rfl, Nat.sub_self, Nat.sub_eq_zero_of_le last, g.pagesOf_zero]
    simp [not_reaches_zero]
  · have all : g.pagesOf (g.rest s) = g.nextBlock s - s := g.pagesOf_mul _
    have less : g.nextBlock s - s ≤ g.pagesOf len := by
      rw [← Nat.not_lt]
      intro few
      have some := g.rest_pos s
      have := g.pagesOf_le_iff.mp (show g.pagesOf len ≤ g.nextBlock s - s - 1 by omega)
      rw [Nat.sub_mul, ← rest] at this
      have := g.writesize_pos
      omega
    rw [Nat.min_eq_right whole, all] at part ⊢
    rw [g.reaches_block taken part less, rest, g.pagesOf_sub, Nat.add_sub_cancel' further.le]

theorem lt_pagesOf_iff {len k : Nat} : k < g.pagesOf len ↔ k * g.writesize < len := by
  rw [← Nat.not_le, pagesOf_le_iff, Nat.not_le]

theorem offset_lt_size {s : Nat} : s * g.writesize < g.size ↔ s < g.pages := by
  rw [g.size_pages]
  exact Nat.mul_lt_mul_right g.writesize_pos

theorem next_le_size {offset : Nat} (h : offset < g.size) :
    offset + (g.erasesize - offset % g.erasesize) ≤ g.size := by
  have positive := g.erasesize_pos
  have whole := Nat.div_add_mod offset g.erasesize
  have below := Nat.mod_lt offset positive
  rw [g.size_eq] at h ⊢
  have inside : offset / g.erasesize < g.blocks := (Nat.div_lt_iff_lt_mul positive).mpr h
  have next : (offset / g.erasesize + 1) * g.erasesize ≤ g.blocks * g.erasesize :=
    Nat.mul_le_mul_right _ inside
  rw [Nat.add_mul, Nat.mul_comm (offset / _)] at next
  omega

theorem checkSkipLoop_result (length turns offset lenExclBad : Nat) (ret : Int) (used : Nat) :
    (checkSkipLoop g bbt length turns offset lenExclBad ret used).1 = -1 ∨
      (checkSkipLoop g bbt length turns offset lenExclBad ret used).1 = ret ∨
      (checkSkipLoop g bbt length turns offset lenExclBad ret used).1 = 1 := by
  induction turns generalizing offset lenExclBad ret used with
  | zero => exact .inl rfl
  | succ turns ih =>
    unfold checkSkipLoop
    dsimp only
    split_ifs
    · exact .inr (.inl rfl)
    · exact .inl rfl
    · exact ih _ _ _ _
    · rcases ih (offset + (g.erasesize - offset % g.erasesize)) lenExclBad 1
        (used + (g.erasesize - offset % g.erasesize)) with h | h | h
      · exact .inl h
      · exact .inr (.inr h)
      · exact .inr (.inr h)

theorem checkSkipLoop_used (length turns : Nat) {offset : Nat} (lenExclBad : Nat) (ret : Int)
    (used : Nat) (inside : offset ≤ g.size) :
    (checkSkipLoop g bbt length turns offset lenExclBad ret used).2 ≤ used + (g.size - offset) := by
  induction turns generalizing offset lenExclBad ret used with
  | zero => exact Nat.le_add_right _ _
  | succ turns ih =>
    unfold checkSkipLoop
    dsimp only
    split_ifs with done beyond good
    · show used - (lenExclBad - length) ≤ _
      omega
    · exact Nat.le_add_right _ _
    · have next := @next_le_size g offset (by omega)
      have rest := ih (lenExclBad + (g.erasesize - offset % g.erasesize)) ret
        (used + (g.erasesize - offset % g.erasesize)) next
      omega
    · have next := @next_le_size g offset (by omega)
      have rest := ih lenExclBad 1 (used + (g.erasesize - offset % g.erasesize)) next
      omega

theorem checkSkipLoop_fits {length turns offset lenExclBad used : Nat}
    (result : (checkSkipLoop g bbt length turns offset lenExclBad 0 used).1 = 0)
    (more : lenExclBad < length) : offset + (length - lenExclBad) ≤ g.size := by
  induction turns generalizing offset lenExclBad used with
  | zero => cases result
  | succ turns ih =>
    unfold checkSkipLoop at result
    dsimp only at result
    split_ifs at result with done beyond good
    · omega
    · cases result
    · have next := @next_le_size g offset (by omega)
      by_cases last : length ≤ lenExclBad + (g.erasesize - offset % g.erasesize)
      · omega
      · have := ih result (by omega)
        omega
    · rcases @checkSkipLoop_result g bbt length turns
        (offset + (g.erasesize - offset % g.erasesize)) lenExclBad 1
        (used + (g.erasesize - offset % g.erasesize)) with h | h | h
      all_goals
        rw [result] at h
        omega

theorem checkSkipLoop_good {length turns s lenExclBad used : Nat}
    (result : (checkSkipLoop g bbt length turns (s * g.writesize) lenExclBad 0 used).1 = 0)
    {x : Nat} (low : s ≤ x) (high : x < s + g.pagesOf (length - lenExclBad)) :
    mtdBlockIsbad g bbt (x / g.pagesPerBlock * g.erasesize) = 0 := by
  induction turns generalizing s lenExclBad used with
  | zero => cases result
  | succ turns ih =>
    have start : s * g.writesize - s * g.writesize % g.erasesize =
        s / g.pagesPerBlock * g.erasesize := by
      have whole := Nat.div_add_mod (s * g.writesize) g.erasesize
      rw [g.offset_div, Nat.mul_comm] at whole
      omega
    have further := g.lt_nextBlock s
    unfold checkSkipLoop at result
    dsimp only at result
    rw [start, g.next_offset] at result
    split_ifs at result with done beyond good
    · rw [Nat.sub_eq_zero_of_le done, g.pagesOf_zero] at high
      omega
    · cases result
    · by_cases here : x < g.nextBlock s
      · rw [g.same_block low here]
        exact good
      · apply ih result (by omega)
        rw [g.block_rest, Nat.sub_add_eq, g.pagesOf_sub]
        omega
    · rcases @checkSkipLoop_result g bbt length turns (g.nextBlock s * g.writesize)
        lenExclBad 1 (used + (g.erasesize - s * g.writesize % g.erasesize)) with h | h | h
      all_goals
        rw [result] at h
        omega

theorem checkSkipLoop_whole (length turns s k : Nat) (ret : Int) (used used' : Nat) :
    (checkSkipLoop g bbt (g.pagesOf length * g.writesize) turns (s * g.writesize) (k * g.writesize) ret used').1 =
      (checkSkipLoop g bbt length turns (s * g.writesize) (k * g.writesize) ret used).1 := by
  induction turns generalizing s k ret used used' with
  | zero => rfl
  | succ turns ih =>
    have ended : g.pagesOf length * g.writesize ≤ k * g.writesize ↔ length ≤ k * g.writesize := by
      rw [Nat.mul_le_mul_right_iff g.writesize_pos, g.pagesOf_le_iff]
    unfold checkSkipLoop
    dsimp only
    rw [g.next_offset, g.block_rest, ← Nat.add_mul]
    simp only [ended]
    split_ifs
    · rfl
    · rfl
    · exact ih _ _ _ _ _
    · exact ih _ _ _ _ _

theorem checkSkipLen_whole (start len : Nat) :
    (checkSkipLen g bbt (start * g.writesize) (g.pagesOf len * g.writesize)).1 =
      (checkSkipLen g bbt (start * g.writesize) len).1 := by
  have whole := @checkSkipLoop_whole g bbt len (g.blocks + 2) start 0 0 0 0
  rwa [Nat.zero_mul] at whole

theorem visits_whole {start len x : Nat} :
    g.Visits bbt start (g.pagesOf len * g.writesize) x ↔ g.Visits bbt start len x := by
  unfold Visits
  rw [checkSkipLen_whole, pagesOf_mul]

/-- On a chip of up to 4 GiB a length that passes finds good pages on the chip. -/
theorem checkSkipLoop_room (small : g.size ≤ 2 ^ 32) {length turns s lenExclBad used : Nat} {ret : Int}
    (inside : s ≤ g.pages)
    (fits : (checkSkipLoop g bbt length turns (s * g.writesize) lenExclBad ret used).1 ≠ -1) :
    usableBefore (g.usable bbt) s + g.pagesOf (length - lenExclBad) ≤ usableBefore (g.usable bbt) g.pages := by
  induction turns generalizing s lenExclBad ret used with
  | zero => exact absurd rfl fits
  | succ turns ih =>
    have further := g.lt_nextBlock s
    have start : s * g.writesize - s * g.writesize % g.erasesize = s / g.pagesPerBlock * g.erasesize := by
      have whole := Nat.div_add_mod (s * g.writesize) g.erasesize
      rw [g.offset_div, Nat.mul_comm] at whole
      omega
    unfold checkSkipLoop at fits
    dsimp only at fits
    rw [start, g.next_offset] at fits
    split_ifs at fits with done beyond good
    · rw [Nat.sub_eq_zero_of_le done, g.pagesOf_zero, Nat.add_zero]
      exact usableBefore_mono inside
    · exact absurd rfl fits
    · have onChip : s < g.pages := g.offset_lt_size.mp (by omega)
      have below : s / g.pagesPerBlock * g.erasesize < 2 ^ 32 := by
        have less := Nat.mul_lt_mul_of_pos_right
          ((Nat.div_lt_iff_lt_mul g.pagesPerBlock_pos).mpr onChip) g.erasesize_pos
        rw [← g.size_eq] at less
        omega
      have taken : g.usable bbt s = true := by
        rw [g.usable_eq, Nat.mod_eq_of_lt below]
        exact decide_eq_true good
      have rest := ih (g.nextBlock_le_pages onChip) fits
      have count := @usableBefore_take (g.usable bbt) s (g.nextBlock s - s) fun y low high => by
        rw [g.usable_block low (by omega), taken]
      rw [Nat.add_sub_cancel' further.le] at count
      rw [g.block_rest, Nat.sub_add_eq, g.pagesOf_sub, count] at rest
      omega
    · have onChip : s < g.pages := g.offset_lt_size.mp (by omega)
      have rest := ih (g.nextBlock_le_pages onChip) fits
      have := @usableBefore_mono (g.usable bbt) s (g.nextBlock s) further.le
      omega

theorem checkSkipLen_result (bbt : Nat → Bool) (offset length : Nat) :
    (checkSkipLen g bbt offset length).1 = -1 ∨ (checkSkipLen g bbt offset length).1 = 0 ∨
      (checkSkipLen g bbt offset length).1 = 1 :=
  g.checkSkipLoop_result _ _ _ _ _ _

theorem checkSkipLen_used {offset length : Nat}
    (fits : (checkSkipLen g bbt offset length).1 ≠ -1) :
    (checkSkipLen g bbt offset length).2 ≤ g.size := by
  by_cases inside : offset ≤ g.size
  · have := @checkSkipLoop_used g bbt length (g.blocks + 2) _ 0 0 0 inside
    unfold checkSkipLen
    omega
  · unfold checkSkipLen checkSkipLoop at fits ⊢
    dsimp only at fits ⊢
    split_ifs at fits ⊢ with empty
    · show 0 - (0 - length) ≤ g.size
      omega
    · exact absurd rfl fits
    · omega
    · omega

end NfiGeometry

section Loops

variable (g : NfiGeometry) (chip : NfiChip)

theorem nandWriteSkipBad_eq (page : Nat) (buf : List Byte) (f : NfiFlash) :
    nandWriteSkipBad g chip (page * g.writesize) buf f =
      if (checkSkipLen g f.bbt (page * g.writesize) buf.length).1 = 0 then
        (some (mtdWrite g chip (page * g.writesize) buf f).1,
          (mtdWrite g chip (page * g.writesize) buf f).2)
      else if (checkSkipLen g f.bbt (page * g.writesize) buf.length).1 = 1 then
        nandWriteSkipLoop g chip (skipTurns g) (page * g.writesize) buf f
      else (some (-nandEinval), f) := by
  have used := @NfiGeometry.checkSkipLen_used g f.bbt (page * g.writesize) buf.length
  unfold nandWriteSkipBad
  rw [if_neg (by simp)]
  rcases g.checkSkipLen_result f.bbt (page * g.writesize) buf.length with h | h | h
  · simp [h]
  · have upTo := used (by omega)
    simp [h, Nat.not_lt.mpr upTo]
  · have upTo := used (by omega)
    simp [h, Nat.not_lt.mpr upTo]

theorem nandReadSkipBad_eq (page length : Nat) (f : NfiFlash) :
    nandReadSkipBad g chip (page * g.writesize) length f =
      if (checkSkipLen g f.bbt (page * g.writesize) length).1 = 0 then
        (some (mtdRead g chip (page * g.writesize) length f).1,
          (mtdRead g chip (page * g.writesize) length f).2)
      else if (checkSkipLen g f.bbt (page * g.writesize) length).1 = 1 then
        nandReadSkipLoop g chip (skipTurns g) (page * g.writesize) length f
      else (some (-nandEinval), [], f) := by
  have used := @NfiGeometry.checkSkipLen_used g f.bbt (page * g.writesize) length
  unfold nandReadSkipBad
  rw [if_neg (by simp)]
  rcases g.checkSkipLen_result f.bbt (page * g.writesize) length with h | h | h
  · simp [h]
  · have upTo := used (by omega)
    simp [h, Nat.not_lt.mpr upTo]
  · have upTo := used (by omega)
    simp [h, Nat.not_lt.mpr upTo]

@[simp] theorem nandWriteSkipLoop_nil (turns offset : Nat) (f : NfiFlash) :
    nandWriteSkipLoop g chip turns offset [] f = (some 0, f) := by
  cases turns with
  | zero => rfl
  | succ turns => rfl

@[simp] theorem nandReadSkipLoop_zero (turns offset : Nat) (f : NfiFlash) :
    nandReadSkipLoop g chip turns offset 0 f = (some 0, [], f) := by
  cases turns with
  | zero => rfl
  | succ turns => rfl

theorem nandWriteSkipLoop_succ (turns page : Nat) {buf : List Byte} (f : NfiFlash) (more : buf ≠ []) :
    nandWriteSkipLoop g chip (turns + 1) (page * g.writesize) buf f =
      if g.usable f.bbt page = false then
        nandWriteSkipLoop g chip turns (g.nextBlock page * g.writesize) buf f
      else if (mtdWrite g chip (page * g.writesize) (buf.take (g.rest page)) f).1 ≠ 0 then
        (some (mtdWrite g chip (page * g.writesize) (buf.take (g.rest page)) f).1,
          (mtdWrite g chip (page * g.writesize) (buf.take (g.rest page)) f).2)
      else nandWriteSkipLoop g chip turns (g.nextBlock page * g.writesize) (buf.drop (g.rest page))
        (mtdWrite g chip (page * g.writesize) (buf.take (g.rest page)) f).2 := by
  have further := (g.lt_nextBlock page).le
  have next : page * g.writesize + g.rest page = g.nextBlock page * g.writesize := by
    rw [NfiGeometry.rest, ← Nat.add_mul, Nat.add_sub_cancel' further]
  conv_lhs => unfold nandWriteSkipLoop
  rw [if_neg more]
  simp only [NfiGeometry.usable, Bool.not_eq_false']
  rw [g.block_rest, ← NfiGeometry.rest, next]
  by_cases skipped : skipsBlock g f.bbt (page * g.writesize) = true
  · rw [if_pos skipped, if_pos skipped]
  · rw [if_neg skipped, if_neg skipped]
    rcases Nat.le_total buf.length (g.rest page) with last | whole
    · simp only [Nat.min_eq_left last, List.take_length, List.drop_length,
        List.take_of_length_le last, List.drop_eq_nil_of_le last, nandWriteSkipLoop_nil]
    · simp only [Nat.min_eq_right whole, next]

theorem nandReadSkipLoop_succ (turns page : Nat) {left : Nat} (f : NfiFlash) (more : left ≠ 0) :
    nandReadSkipLoop g chip (turns + 1) (page * g.writesize) left f =
      if g.usable f.bbt page = false then
        nandReadSkipLoop g chip turns (g.nextBlock page * g.writesize) left f
      else if (mtdRead g chip (page * g.writesize) (min left (g.rest page)) f).1 ≠ 0 then
        (some (mtdRead g chip (page * g.writesize) (min left (g.rest page)) f).1,
          (mtdRead g chip (page * g.writesize) (min left (g.rest page)) f).2)
      else
        let later := nandReadSkipLoop g chip turns (g.nextBlock page * g.writesize)
          (left - g.rest page) (mtdRead g chip (page * g.writesize) (min left (g.rest page)) f).2.2
        (later.1, (mtdRead g chip (page * g.writesize) (min left (g.rest page)) f).2.1 ++ later.2.1,
          later.2.2) := by
  have further := (g.lt_nextBlock page).le
  have next : page * g.writesize + g.rest page = g.nextBlock page * g.writesize := by
    rw [NfiGeometry.rest, ← Nat.add_mul, Nat.add_sub_cancel' further]
  conv_lhs => unfold nandReadSkipLoop
  rw [if_neg more]
  simp only [NfiGeometry.usable, Bool.not_eq_false']
  rw [g.block_rest, ← NfiGeometry.rest, next]
  by_cases skipped : skipsBlock g f.bbt (page * g.writesize) = true
  · rw [if_pos skipped, if_pos skipped]
  · rw [if_neg skipped, if_neg skipped]
    rcases Nat.le_total left (g.rest page) with last | whole
    · simp only [Nat.min_eq_left last, Nat.sub_self, Nat.sub_eq_zero_of_le last,
        nandReadSkipLoop_zero]
    · simp only [Nat.min_eq_right whole, next]

theorem NfiGeometry.part_length (page : Nat) (buf : List Byte) :
    (buf.take (g.rest page)).length = min buf.length (g.rest page) := by
  rw [List.length_take, Nat.min_comm]

theorem nandWriteSkipLoop_becomes (turns page : Nat) (buf : List Byte) (f : NfiFlash) :
    ∃ new, NfiBecomes g f new (nandWriteSkipLoop g chip turns (page * g.writesize) buf f).2 ∧
      ∀ t ∈ new, ∃ x, t = .program x ∧ x < g.pages ∧
        Reaches (g.usable f.bbt) page (g.pagesOf buf.length) x := by
  induction turns generalizing page buf f with
  | zero => exact ⟨[], .refl f, by simp⟩
  | succ turns ih =>
    by_cases empty : buf = []
    · subst empty
      rw [nandWriteSkipLoop_nil]
      exact ⟨[], .refl f, by simp⟩
    rw [nandWriteSkipLoop_succ g chip turns page f empty]
    by_cases taken : g.usable f.bbt page = false
    · rw [if_pos taken]
      obtain ⟨new, rest, only⟩ := ih (g.nextBlock page) buf f
      refine ⟨new, rest, ?_⟩
      intro t inside
      obtain ⟨x, same, onChip, reached⟩ := only t inside
      exact ⟨x, same, onChip, (g.reaches_nextBlock taken).mpr reached⟩
    · rw [if_neg taken]
      rw [Bool.not_eq_false] at taken
      obtain ⟨first, written, own⟩ := mtdWrite_becomes g chip page (buf.take (g.rest page)) f
      have here : ∀ t ∈ first, ∃ x, t = .program x ∧ x < g.pages ∧
          Reaches (g.usable f.bbt) page (g.pagesOf buf.length) x := by
        intro t inside
        obtain ⟨x, same, low, high, fits⟩ := own t inside
        rw [g.part_length] at high fits
        have positive := List.length_pos_iff.mpr empty
        have some := g.rest_pos page
        have onChip := g.nextBlock_le_pages (s := page) (g.offset_lt_size.mp (by omega))
        have part := g.pagesOf_part_le page buf.length
        exact ⟨x, same, by omega, (g.reaches_turn taken).mpr (.inl ⟨low, high⟩)⟩
      split_ifs with failed
      · exact ⟨first, written, here⟩
      · obtain ⟨new, rest, only⟩ := ih (g.nextBlock page) (buf.drop (g.rest page))
          (mtdWrite g chip (page * g.writesize) (buf.take (g.rest page)) f).2
        refine ⟨first ++ new, written.trans rest, ?_⟩
        intro t inside
        rcases List.mem_append.mp inside with early | late
        · exact here t early
        · obtain ⟨x, same, onChip, reached⟩ := only t late
          rw [written.bbt, List.length_drop] at reached
          exact ⟨x, same, onChip, (g.reaches_turn taken).mpr (.inr reached)⟩

theorem pageFill_same {buf : List Byte} {b : Byte} {i c : Nat} (same : ∀ y ∈ buf, y = b)
    (inside : i * g.writesize < buf.length) (shown : c = 0 ∨ b = 0xff) :
    pageFill g (buf.drop (i * g.writesize)) c = b := by
  rcases shown with rfl | rfl
  swap
  · rw [pageFill, List.getD_eq_getElem?_getD]
    cases here : ((buf.drop (i * g.writesize)).take g.writesize)[c]? with
    | none => rfl
    | some y => exact same y (List.mem_of_mem_drop (List.mem_of_mem_take (List.mem_of_getElem? here)))
  obtain ⟨y, tail, split⟩ := List.exists_cons_of_ne_nil (l := buf.drop (i * g.writesize)) (by
    rw [← List.length_pos_iff, List.length_drop]
    omega)
  have member : y ∈ buf := List.mem_of_mem_drop (split ▸ List.mem_cons_self)
  have positive := g.writesize_pos
  rw [split, pageFill, ← Nat.sub_add_cancel positive, List.take_succ_cons]
  exact same y member

theorem NfiGeometry.part_fits {page : Nat} (onChip : page < g.pages) (len : Nat) :
    page * g.writesize + min len (g.rest page) ≤ g.size := by
  have further := (g.lt_nextBlock page).le
  have next : page * g.writesize + g.rest page = g.nextBlock page * g.writesize := by
    rw [NfiGeometry.rest, ← Nat.add_mul, Nat.add_sub_cancel' further]
  have upTo := Nat.mul_le_mul_right g.writesize (g.nextBlock_le_pages onChip)
  rw [← g.size_pages] at upTo
  omega

theorem nandWriteSkipLoop_reliable (reliable : chip.Reliable) (turns page : Nat) (buf : List Byte)
    (f : NfiFlash) :
    ∃ new, NfiBecomes g f new (nandWriteSkipLoop g chip turns (page * g.writesize) buf f).2 ∧
      (∀ x, x < g.pages → x / g.pagesPerBlock < page / g.pagesPerBlock + turns →
        Reaches (g.usable f.bbt) page (g.pagesOf buf.length) x → .program x ∈ new) ∧
      ∀ b, (∀ y ∈ buf, y = b) → ∀ x, .program x ∈ new → ∀ c, c = 0 ∨ b = 0xff →
        (nandWriteSkipLoop g chip turns (page * g.writesize) buf f).2.page x c = f.page x c &&& b := by
  induction turns generalizing page buf f with
  | zero =>
    refine ⟨[], .refl f, ?_, by simp⟩
    rintro x - near ⟨after, -⟩
    have := Nat.div_le_div_right (c := g.pagesPerBlock) after
    omega
  | succ turns ih =>
    by_cases onChip : page < g.pages
    swap
    · obtain ⟨new, became, only⟩ := nandWriteSkipLoop_becomes g chip (turns + 1) page buf f
      refine ⟨new, became, ?_, ?_⟩
      · rintro x beyond - ⟨after, -⟩
        omega
      · intro b _ x inside
        obtain ⟨y, -, beyond, after, -⟩ := only _ inside
        omega
    by_cases empty : buf = []
    · subst empty
      refine ⟨[], by rw [nandWriteSkipLoop_nil]; exact .refl f, ?_, by simp⟩
      intro x _ _ reached
      rw [List.length_nil, g.pagesOf_zero] at reached
      exact absurd reached not_reaches_zero
    rw [nandWriteSkipLoop_succ g chip turns page f empty]
    by_cases taken : g.usable f.bbt page = false
    · rw [if_pos taken]
      obtain ⟨new, became, all, bytes⟩ := ih (g.nextBlock page) buf f
      refine ⟨new, became, ?_, bytes⟩
      intro x here near reached
      apply all x here
      · rw [g.nextBlock_div]
        omega
      · exact (g.reaches_nextBlock taken).mp reached
    · rw [if_neg taken]
      rw [Bool.not_eq_false] at taken
      have some : buf.take (g.rest page) ≠ [] := by
        rw [← List.length_pos_iff, g.part_length]
        have := List.length_pos_iff.mpr empty
        have := g.rest_pos page
        omega
      obtain ⟨result, first, written, own, each⟩ := @mtdWrite_reliable g chip reliable
        page _ f some (by rw [g.part_length]; exact g.part_fits onChip _)
      rw [g.part_length] at own each
      rw [if_neg (by simp [result])]
      obtain ⟨new, became, all, bytes⟩ := ih (g.nextBlock page) (buf.drop (g.rest page))
        (mtdWrite g chip (page * g.writesize) (buf.take (g.rest page)) f).2
      rw [written.bbt, List.length_drop] at all
      refine ⟨first ++ new, written.trans became, ?_, ?_⟩
      · intro x here near reached
        rcases (g.reaches_turn taken).mp reached with ⟨low, high⟩ | later
        · have mine := (each (x - page) (by omega)).1
          rw [Nat.add_sub_cancel' low] at mine
          exact List.mem_append_left _ mine
        · apply List.mem_append_right
          apply all x here _ later
          rw [g.nextBlock_div]
          omega
      · intro b same x inside c shown
        obtain ⟨new', became', only⟩ := nandWriteSkipLoop_becomes g chip turns (g.nextBlock page)
          (buf.drop (g.rest page)) (mtdWrite g chip (page * g.writesize) (buf.take (g.rest page)) f).2
        cases became.unique became'
        by_cases late : .program x ∈ new
        · rw [bytes b (fun y member => same y (List.mem_of_mem_drop member)) x late c shown]
          obtain ⟨_, here, -, after, -⟩ := only _ late
          cases here
          rw [written.page x (by
            intro early
            obtain ⟨i, here, bound⟩ := own _ early
            have upTo := g.pagesOf_part_le page buf.length
            rw [NfiTouch.program.inj here] at after
            omega) (by
            intro erased
            obtain ⟨i, here, -⟩ := own _ erased
            cases here)]
        · obtain ⟨i, here, bound⟩ := own _ ((List.mem_append.mp inside).resolve_right late)
          cases here
          rw [became.page _ late (by
            intro erased
            obtain ⟨x, same, -⟩ := only _ erased
            cases same), (each i bound).2]
          dsimp only
          rw [pageFill_same g (fun y member => same y (List.mem_of_mem_take member))
            (by rw [g.part_length]; exact g.lt_pagesOf_iff.mp bound) shown]

theorem nandWriteSkipLoop_past (turns : Nat) {page : Nat} {buf : List Byte} (f : NfiFlash) (past : g.pages ≤ page)
    (more : buf ≠ []) : (nandWriteSkipLoop g chip turns (page * g.writesize) buf f).1 ≠ some 0 := by
  induction turns generalizing page f with
  | zero => simp [nandWriteSkipLoop, more]
  | succ turns ih =>
    have some := g.rest_pos page
    have positive := List.length_pos_iff.mpr more
    rw [nandWriteSkipLoop_succ g chip turns page f more]
    split_ifs with skipped failed
    · exact ih f (past.trans (g.lt_nextBlock page).le)
    · exact fun done => failed (Option.some.inj done)
    · refine absurd ?_ failed
      have beyond := Nat.mul_le_mul_right g.writesize past
      rw [← g.size_pages] at beyond
      unfold mtdWrite
      rw [if_pos (by rw [g.part_length]; omega)]
      show -nandEinval ≠ 0
      decide

/-- The write loop gets through exactly if the pages that it takes are on the chip. -/
theorem nandWriteSkipLoop_done_iff (reliable : chip.Reliable) {turns page : Nat} (buf : List Byte) (f : NfiFlash)
    (onChip : page ≤ g.pages) (enough : g.blocks < page / g.pagesPerBlock + turns) :
    (nandWriteSkipLoop g chip turns (page * g.writesize) buf f).1 = some 0 ↔
      usableBefore (g.usable f.bbt) page + g.pagesOf buf.length ≤ usableBefore (g.usable f.bbt) g.pages := by
  induction turns generalizing page buf f with
  | zero =>
    have := Nat.div_le_div_right (c := g.pagesPerBlock) onChip
    rw [NfiGeometry.pages, Nat.mul_div_cancel _ g.pagesPerBlock_pos] at this
    omega
  | succ turns ih =>
    by_cases empty : buf = []
    · subst empty
      simpa using usableBefore_mono onChip
    have positive := List.length_pos_iff.mpr empty
    rcases Nat.eq_or_lt_of_le onChip with rfl | below
    · have some := g.pagesOf_pos positive
      exact iff_of_false (nandWriteSkipLoop_past g chip _ f le_rfl empty) (by omega)
    have next := g.nextBlock_div page
    have further := g.lt_nextBlock page
    rw [nandWriteSkipLoop_succ g chip turns page f empty]
    by_cases taken : g.usable f.bbt page = false
    · rw [if_pos taken, ih buf f (g.nextBlock_le_pages below) (by omega)]
      have count := @usableBefore_skip (g.usable f.bbt) page (g.nextBlock page - page) fun y low high => by
        rw [g.usable_block low (by omega), taken]
      rw [Nat.add_sub_cancel' further.le] at count
      rw [count]
    · rw [if_neg taken]
      rw [Bool.not_eq_false] at taken
      have some : buf.take (g.rest page) ≠ [] := by
        rw [← List.length_pos_iff, g.part_length]
        have := g.rest_pos page
        omega
      obtain ⟨result, first, written, -⟩ := @mtdWrite_reliable g chip reliable page _ f some
        (by rw [g.part_length]; exact g.part_fits below _)
      have count := @usableBefore_take (g.usable f.bbt) page (g.nextBlock page - page) fun y low high => by
        rw [g.usable_block low (by omega), taken]
      rw [Nat.add_sub_cancel' further.le] at count
      have upTo := @usableBefore_mono (g.usable f.bbt) _ _ (g.nextBlock_le_pages below)
      rw [if_neg (by simp [result]), ih _ _ (g.nextBlock_le_pages below) (by omega), written.bbt,
        List.length_drop, NfiGeometry.rest, g.pagesOf_sub, count]
      omega

theorem nandReadSkipLoop_becomes (turns page left : Nat) (f : NfiFlash) :
    NfiBecomes g f [] (nandReadSkipLoop g chip turns (page * g.writesize) left f).2.2 := by
  induction turns generalizing page left f with
  | zero => exact .refl f
  | succ turns ih =>
    by_cases empty : left = 0
    · subst empty
      rw [nandReadSkipLoop_zero]
      exact .refl f
    rw [nandReadSkipLoop_succ g chip turns page f empty]
    have read := mtdRead_becomes g chip (page * g.writesize) (min left (g.rest page)) f
    split_ifs
    · exact ih _ _ _
    · exact read
    · exact read.trans (ih _ _ _)

theorem nandReadSkipLoop_length {turns page left : Nat} {f : NfiFlash}
    (done : (nandReadSkipLoop g chip turns (page * g.writesize) left f).1 = some 0) :
    (nandReadSkipLoop g chip turns (page * g.writesize) left f).2.1.length = left := by
  induction turns generalizing page left f with
  | zero =>
    simp only [nandReadSkipLoop] at done ⊢
    split_ifs at done with empty
    · exact empty.symm
  | succ turns ih =>
    by_cases empty : left = 0
    · subst empty
      rw [nandReadSkipLoop_zero]
      rfl
    rw [nandReadSkipLoop_succ g chip turns page f empty] at done ⊢
    split_ifs at done ⊢ with passed failed
    · exact ih done
    · exact absurd (Option.some.inj done) failed
    · rw [not_ne_iff] at failed
      dsimp only at done ⊢
      rw [List.length_append, mtdRead_length g chip failed, ih done]
      omega

theorem fits_of_mtdRead {start len : Nat} {f : NfiFlash} (done : (mtdRead g chip start len f).1 = 0) :
    start + len ≤ g.size := by
  unfold mtdRead at done
  split_ifs at done
  · cases done
  · omega
  · omega

theorem reaches_of_nandReadSkipLoop {turns page left : Nat} {f : NfiFlash} (more : left ≠ 0)
    (done : (nandReadSkipLoop g chip turns (page * g.writesize) left f).1 = some 0) :
    ∃ x, x < g.pages ∧ Reaches (g.usable f.bbt) page (g.pagesOf left) x := by
  induction turns generalizing page f with
  | zero =>
    simp only [nandReadSkipLoop] at done
    split_ifs at done with empty
    exact absurd empty more
  | succ turns ih =>
    rw [nandReadSkipLoop_succ g chip turns page f more] at done
    by_cases taken : g.usable f.bbt page = false
    · rw [if_pos taken] at done
      obtain ⟨x, onChip, reached⟩ := ih done
      exact ⟨x, onChip, (g.reaches_nextBlock taken).mpr reached⟩
    · rw [if_neg taken] at done
      split_ifs at done with failed
      · exact absurd (Option.some.inj done) failed
      · rw [not_ne_iff] at failed
        have fits := fits_of_mtdRead g chip failed
        have some := g.rest_pos page
        have onChip : page < g.pages := g.offset_lt_size.mp (by omega)
        have here : Reaches (g.usable f.bbt) page 1 page :=
          ⟨le_rfl, by simpa using taken, Nat.lt_succ_self _⟩
        exact ⟨page, onChip, here.mono (g.pagesOf_pos (by omega))⟩

theorem nandReadSkipLoop_agree (reliable : chip.Reliable) (turns page left : Nat) {f f' : NfiFlash}
    (right : f.Coherent) (right' : f'.Coherent) (blocks : f'.bbt = f.bbt)
    (same : ∀ x, x < g.pages → Reaches (g.usable f.bbt) page (g.pagesOf left) x →
      f'.page x = f.page x) :
    (nandReadSkipLoop g chip turns (page * g.writesize) left f').1 =
        (nandReadSkipLoop g chip turns (page * g.writesize) left f).1 ∧
      (nandReadSkipLoop g chip turns (page * g.writesize) left f').2.1 =
        (nandReadSkipLoop g chip turns (page * g.writesize) left f).2.1 := by
  induction turns generalizing page left f f' with
  | zero => exact ⟨rfl, rfl⟩
  | succ turns ih =>
    by_cases empty : left = 0
    · subst empty
      simp
    rw [nandReadSkipLoop_succ g chip turns page f empty,
      nandReadSkipLoop_succ g chip turns page f' empty, blocks]
    by_cases taken : g.usable f.bbt page = false
    · rw [if_pos taken, if_pos taken]
      apply ih _ _ right right' blocks
      intro x onChip reached
      exact same x onChip ((g.reaches_nextBlock taken).mpr reached)
    · rw [if_neg taken, if_neg taken]
      rw [Bool.not_eq_false] at taken
      have some := g.rest_pos page
      have read := mtdRead_becomes g chip (page * g.writesize) (min left (g.rest page)) f
      have read' := mtdRead_becomes g chip (page * g.writesize) (min left (g.rest page)) f'
      have part : (mtdRead g chip (page * g.writesize) (min left (g.rest page)) f').1 =
            (mtdRead g chip (page * g.writesize) (min left (g.rest page)) f).1 ∧
          (mtdRead g chip (page * g.writesize) (min left (g.rest page)) f').2.1 =
            (mtdRead g chip (page * g.writesize) (min left (g.rest page)) f).2.1 := by
        rw [← Prod.mk.injEq, mtdRead_reliable g chip reliable page (by omega) right,
          mtdRead_reliable g chip reliable page (by omega) right']
        by_cases fits : page * g.writesize + min left (g.rest page) ≤ g.size
        · have onChip := g.nextBlock_le_pages (s := page) (g.offset_lt_size.mp (by omega))
          have upTo := g.pagesOf_part_le page left
          rw [if_pos fits, if_pos fits, storedBytes_congr]
          intro x low high
          exact same x (by omega) ((g.reaches_turn taken).mpr (.inl ⟨low, high⟩))
        · rw [if_neg fits, if_neg fits]
      have later := ih (g.nextBlock page) (left - g.rest page) (read.coherent right)
        (read'.coherent right') (by rw [read'.bbt, read.bbt, blocks]) (by
          intro x onChip reached
          rw [read'.page_eq, read.page_eq]
          rw [read.bbt] at reached
          exact same x onChip ((g.reaches_turn taken).mpr (.inr reached)))
      rw [part.1]
      split_ifs
      · exact ⟨rfl, part.2⟩
      · exact ⟨later.1, by dsimp only; rw [later.2, part.2]⟩

theorem NfiGeometry.column_lt {len k c : Nat} (column : c < g.writesize) (shown : c = 0 ∨ g.writesize ∣ len)
    (inside : k < g.pagesOf len) : k * g.writesize + c < len := by
  have first := g.lt_pagesOf_iff.mp inside
  rcases shown with rfl | ⟨n, rfl⟩
  · exact first
  · rw [Nat.mul_comm _ n] at first ⊢
    have := Nat.mul_le_mul_right g.writesize (Nat.succ_le_of_lt (Nat.lt_of_mul_lt_mul_right first))
    rw [Nat.succ_mul] at this
    omega

theorem mem_nandReadSkipLoop (reliable : chip.Reliable) {turns page left x c : Nat} {f : NfiFlash}
    (right : f.Coherent) (onChip : x < g.pages) (column : c < g.writesize)
    (shown : c = 0 ∨ g.writesize ∣ left) (near : x / g.pagesPerBlock < page / g.pagesPerBlock + turns)
    (reached : Reaches (g.usable f.bbt) page (g.pagesOf left) x) :
    f.page x c ∈ (nandReadSkipLoop g chip turns (page * g.writesize) left f).2.1 := by
  induction turns generalizing page left f with
  | zero =>
    have := Nat.div_le_div_right (c := g.pagesPerBlock) reached.1
    omega
  | succ turns ih =>
    by_cases empty : left = 0
    · subst empty
      rw [g.pagesOf_zero] at reached
      exact absurd reached not_reaches_zero
    have next := g.nextBlock_div page
    rw [nandReadSkipLoop_succ g chip turns page f empty]
    by_cases taken : g.usable f.bbt page = false
    · rw [if_pos taken]
      exact ih right shown (by omega) ((g.reaches_nextBlock taken).mp reached)
    · rw [if_neg taken]
      rw [Bool.not_eq_false] at taken
      have some := g.rest_pos page
      have after := reached.1
      have whole : g.writesize ∣ g.rest page := Nat.dvd_mul_left _ _
      have read := mtdRead_becomes g chip (page * g.writesize) (min left (g.rest page)) f
      have part := @mtdRead_reliable g chip reliable page
        (min left (g.rest page)) (by omega) _ right
      rw [if_pos (g.part_fits (by omega) left), Prod.mk.injEq] at part
      rw [if_neg (by simp [part.1])]
      apply List.mem_append.mpr
      rcases (g.reaches_turn taken).mp reached with ⟨low, high⟩ | later
      · left
        rw [part.2]
        refine mem_storedBytes g low high column (g.column_lt column (shown.imp_right fun all => ?_) (by omega))
        rcases Nat.le_total left (g.rest page) with last | more
        · rwa [Nat.min_eq_left last]
        · rwa [Nat.min_eq_right more]
      · right
        rw [← read.bbt] at later
        have shows := ih (read.coherent right) (shown.imp_right fun all => Nat.dvd_sub all whole) (by omega) later
        rwa [read.page_eq] at shows

theorem eq_of_mem_mtdRead {page len : Nat} {f : NfiFlash} {b : Byte} (right : f.Coherent)
    (inside : b ∈ (mtdRead g chip (page * g.writesize) len f).2.1) : ∃ x c, b = f.page x c := by
  unfold mtdRead at inside
  split_ifs at inside
  · cases inside
  · cases inside
  · dsimp only at inside
    rw [nandDoReadOps_bytes g chip _ _ _ right] at inside
    exact eq_of_mem_storedBytes g inside

theorem eq_of_mem_nandReadSkipLoop {turns page left : Nat} {f : NfiFlash} {b : Byte}
    (right : f.Coherent)
    (inside : b ∈ (nandReadSkipLoop g chip turns (page * g.writesize) left f).2.1) :
    ∃ x c, b = f.page x c := by
  induction turns generalizing page left f with
  | zero => cases inside
  | succ turns ih =>
    by_cases empty : left = 0
    · subst empty
      rw [nandReadSkipLoop_zero] at inside
      cases inside
    rw [nandReadSkipLoop_succ g chip turns page f empty] at inside
    have read := mtdRead_becomes g chip (page * g.writesize) (min left (g.rest page)) f
    split_ifs at inside
    · exact ih right inside
    · exact eq_of_mem_mtdRead g chip right inside
    · rcases List.mem_append.mp inside with first | later
      · exact eq_of_mem_mtdRead g chip right first
      · rw [← read.page_eq]
        exact ih (read.coherent right) later

theorem nandReadSkipLoop_page (reliable : chip.Reliable) {turns page x : Nat} {f : NfiFlash}
    (right : f.Coherent) (onChip : x < g.pages)
    (near : x / g.pagesPerBlock < page / g.pagesPerBlock + turns)
    (reached : Reaches (g.usable f.bbt) page 1 x) :
    (nandReadSkipLoop g chip turns (page * g.writesize) g.writesize f).1 = some 0 := by
  have positive := g.writesize_pos
  induction turns generalizing page with
  | zero =>
    have := Nat.div_le_div_right (c := g.pagesPerBlock) reached.1
    omega
  | succ turns ih =>
    have next := g.nextBlock_div page
    rw [nandReadSkipLoop_succ g chip turns page f (by omega)]
    by_cases taken : g.usable f.bbt page = false
    · rw [if_pos taken]
      exact ih (by omega) ((g.reaches_nextBlock taken).mp reached)
    · rw [if_neg taken]
      have one : g.writesize ≤ g.rest page :=
        Nat.le_mul_of_pos_left _ (Nat.sub_pos_of_lt (g.lt_nextBlock page))
      have after := reached.1
      have part := @mtdRead_reliable g chip reliable page
        (min g.writesize (g.rest page)) (by omega) _ right
      rw [if_pos (g.part_fits (by omega) _), Prod.mk.injEq] at part
      rw [if_neg (by simp [part.1]), Nat.sub_eq_zero_of_le one, nandReadSkipLoop_zero]

theorem nandReadSkipLoop_of_write (reliable : chip.Reliable) {turns page : Nat} {buf : List Byte}
    {f f' : NfiFlash} (right : f'.Coherent) (blocks : f'.bbt = f.bbt)
    (done : (nandWriteSkipLoop g chip turns (page * g.writesize) buf f).1 = some 0)
    (erased : ∀ x, x < g.pages → Reaches (g.usable f.bbt) page (g.pagesOf buf.length) x → ∀ c, c < g.writesize →
      f.page x c = 0xff)
    (same : ∀ x, page ≤ x → f'.page x =
      (nandWriteSkipLoop g chip turns (page * g.writesize) buf f).2.page x) :
    (nandReadSkipLoop g chip turns (page * g.writesize) buf.length f').1 = some 0 ∧
      (nandReadSkipLoop g chip turns (page * g.writesize) buf.length f').2.1 = buf := by
  induction turns generalizing page buf f f' with
  | zero =>
    simp only [nandWriteSkipLoop] at done
    split_ifs at done with empty
    subst empty
    exact ⟨rfl, rfl⟩
  | succ turns ih =>
    by_cases empty : buf = []
    · subst empty
      simp
    have positive := List.length_pos_iff.mpr empty
    have further := (g.lt_nextBlock page).le
    rw [nandWriteSkipLoop_succ g chip turns page f empty] at done
    rw [nandWriteSkipLoop_succ g chip turns page f empty] at same
    rw [nandReadSkipLoop_succ g chip turns page f' (by omega), blocks]
    by_cases taken : g.usable f.bbt page = false
    · rw [if_pos taken] at done same ⊢
      exact ih right blocks done (fun x onChip reached => erased x onChip ((g.reaches_nextBlock taken).mpr reached))
        fun x low => same x (by omega)
    · rw [if_neg taken] at done same ⊢
      rw [Bool.not_eq_false] at taken
      split_ifs at done same with failed
      · exact absurd (Option.some.inj done) failed
      have some := g.rest_pos page
      have length := g.part_length page buf
      have fits : page * g.writesize + (buf.take (g.rest page)).length ≤ g.size := by
        by_contra beyond
        apply failed
        unfold mtdWrite
        rw [if_pos (by omega)]
        show -nandEinval ≠ 0
        decide
      obtain ⟨-, _, written, own, each⟩ := mtdWrite_reliable g chip reliable f
        (by rw [← List.length_pos_iff]; omega) fits
      obtain ⟨_, later, only⟩ := nandWriteSkipLoop_becomes g chip turns (g.nextBlock page)
        (buf.drop (g.rest page)) (mtdWrite g chip (page * g.writesize) (buf.take (g.rest page)) f).2
      have upTo := g.pagesOf_part_le page buf.length
      rw [length] at fits each own
      have onChip := g.nextBlock_le_pages (s := page) (g.offset_lt_size.mp (by omega))
      have holds : ∀ i, i < g.pagesOf (min buf.length (g.rest page)) → ∀ c, c < g.writesize →
          f'.page (page + i) c = pageFill g ((buf.take (g.rest page)).drop (i * g.writesize)) c := by
        intro i bound c column
        have first : Reaches (g.usable f.bbt) page (g.pagesOf buf.length) (page + i) :=
          (g.reaches_turn taken).mpr (.inl ⟨by omega, by omega⟩)
        rw [same (page + i) (by omega), later.page (page + i), (each i bound).2]
        · dsimp only
          rw [erased _ (by omega) first c column]
          exact BitVec.allOnes_and
        · intro inside
          obtain ⟨x, here, -, after, -⟩ := only _ inside
          cases here
          omega
        · intro inside
          obtain ⟨x, here, -⟩ := only _ inside
          cases here
      have read := mtdRead_becomes g chip (page * g.writesize) (min buf.length (g.rest page)) f'
      have part := @mtdRead_reliable g chip reliable page
        (min buf.length (g.rest page)) (by omega) _ right
      rw [if_pos fits, Prod.mk.injEq] at part
      have stored := @storedBytes_fill g f'.page _ page (buf.take (g.rest page))
        (g.le_pagesOf_mul _) (by rw [length]; exact holds)
      rw [length] at stored
      have rest := ih (read.coherent right) (by rw [read.bbt, blocks, written.bbt]) done (by
        intro x below reached c column
        rw [written.bbt, List.length_drop] at reached
        have after := reached.1
        rw [written.page x (by
          intro early
          obtain ⟨i, here, bound⟩ := own _ early
          rw [NfiTouch.program.inj here] at after
          omega) (by
          intro gone
          obtain ⟨i, here, -⟩ := own _ gone
          cases here)]
        exact erased x below ((g.reaches_turn taken).mpr (.inr reached)) c column) (by
        intro x low
        rw [read.page_eq]
        exact same x (by omega))
      rw [List.length_drop] at rest
      rw [if_neg (by simp [part.1])]
      refine ⟨rest.1, ?_⟩
      dsimp only
      rw [part.2, stored, rest.2, List.take_append_drop]

end Loops

section SkipBad

variable (g : NfiGeometry) (chip : NfiChip)

theorem NfiGeometry.skipTurns_enough {x : Nat} (onChip : x < g.pages) (page : Nat) :
    x / g.pagesPerBlock < page / g.pagesPerBlock + skipTurns g := by
  have inside : x / g.pagesPerBlock < g.blocks :=
    (Nat.div_lt_iff_lt_mul g.pagesPerBlock_pos).mpr onChip
  have more : g.blocks ≤ skipTurns g := Nat.le_add_right_of_le (Nat.le_add_right _ _)
  exact Nat.lt_of_lt_of_le inside (Nat.le_add_left_of_le more)

theorem NfiGeometry.fits_of_check {bbt : Nat → Bool} {page len : Nat} (some : 0 < len)
    (straight : (checkSkipLen g bbt (page * g.writesize) len).1 = 0) :
    page * g.writesize + len ≤ g.size := by
  have := g.checkSkipLoop_fits straight some
  omega

theorem NfiGeometry.lt_pages_of_fits {page len x : Nat} (fits : page * g.writesize + len ≤ g.size)
    (low : page ≤ x) (high : x < page + g.pagesOf len) : x < g.pages := by
  have before := g.lt_pagesOf_iff.mp (show x - page < g.pagesOf len by omega)
  rw [Nat.sub_mul] at before
  have := Nat.mul_le_mul_right g.writesize low
  exact g.offset_lt_size.mp (by omega)

theorem nandWriteSkipBad_becomes (page : Nat) (buf : List Byte) (f : NfiFlash) :
    ∃ new, NfiBecomes g f new (nandWriteSkipBad g chip (page * g.writesize) buf f).2 ∧
      ∀ t ∈ new, ∃ x, t = .program x ∧ g.Visits f.bbt page buf.length x := by
  rw [nandWriteSkipBad_eq]
  split_ifs with straight skip
  · obtain ⟨new, became, only⟩ := mtdWrite_becomes g chip page buf f
    refine ⟨new, became, ?_⟩
    intro t inside
    obtain ⟨x, same, low, high, fits⟩ := only t inside
    exact ⟨x, same, g.lt_pages_of_fits fits low high, .inl ⟨straight, low, high⟩⟩
  · obtain ⟨new, became, only⟩ := nandWriteSkipLoop_becomes g chip (skipTurns g) page buf f
    refine ⟨new, became, ?_⟩
    intro t inside
    obtain ⟨x, same, onChip, reached⟩ := only t inside
    exact ⟨x, same, onChip, .inr ⟨skip, reached⟩⟩
  · exact ⟨[], .refl f, by simp⟩

theorem nandWriteSkipBad_reliable (reliable : chip.Reliable) (page : Nat) {buf : List Byte}
    (f : NfiFlash) (some : buf ≠ []) :
    ∃ new, NfiBecomes g f new (nandWriteSkipBad g chip (page * g.writesize) buf f).2 ∧
      (∀ x, g.Visits f.bbt page buf.length x → .program x ∈ new) ∧
      ∀ b, (∀ y ∈ buf, y = b) → ∀ x, .program x ∈ new → ∀ c, c = 0 ∨ b = 0xff →
        (nandWriteSkipBad g chip (page * g.writesize) buf f).2.page x c = f.page x c &&& b := by
  have positive := List.length_pos_iff.mpr some
  rw [nandWriteSkipBad_eq]
  split_ifs with straight skip
  · obtain ⟨-, new, became, own, each⟩ :=
      mtdWrite_reliable g chip reliable f some (g.fits_of_check positive straight)
    refine ⟨new, became, ?_, ?_⟩
    · rintro x ⟨-, ⟨-, low, high⟩ | ⟨other, -⟩⟩
      · have here := (each (x - page) (by omega)).1
        rwa [Nat.add_sub_cancel' low] at here
      · omega
    · intro b same x inside c shown
      obtain ⟨i, here, bound⟩ := own _ inside
      cases here
      dsimp only
      rw [(each i bound).2]
      dsimp only
      rw [pageFill_same g same (g.lt_pagesOf_iff.mp bound) shown]
  · obtain ⟨new, became, all, bytes⟩ :=
      nandWriteSkipLoop_reliable g chip reliable (skipTurns g) page buf f
    refine ⟨new, became, ?_, bytes⟩
    rintro x ⟨onChip, ⟨other, -⟩ | ⟨-, reached⟩⟩
    · omega
    · exact all x onChip (g.skipTurns_enough onChip page) reached
  · refine ⟨[], .refl f, ?_, by simp⟩
    rintro x ⟨-, ⟨other, -⟩ | ⟨other, -⟩⟩
    · exact absurd other straight
    · exact absurd other skip

/-- An access from a page on gets through: where blocks are stepped over, the chip has the pages that the
loops take. -/
def NfiGeometry.Ends (bbt : Nat → Bool) (start len : Nat) : Prop :=
  (checkSkipLen g bbt (start * g.writesize) len).1 = 1 →
    usableBefore (g.usable bbt) start + g.pagesOf len ≤ usableBefore (g.usable bbt) g.pages

theorem NfiGeometry.ends_whole {bbt : Nat → Bool} {start len : Nat} :
    g.Ends bbt start (g.pagesOf len * g.writesize) ↔ g.Ends bbt start len := by
  unfold NfiGeometry.Ends
  rw [checkSkipLen_whole, pagesOf_mul]

theorem nandWriteSkipBad_done_iff (reliable : chip.Reliable) {page : Nat} {buf : List Byte} (f : NfiFlash)
    (nonempty : buf ≠ []) (onChip : page < g.pages) :
    (nandWriteSkipBad g chip (page * g.writesize) buf f).1 = some 0 ↔
      (checkSkipLen g f.bbt (page * g.writesize) buf.length).1 ≠ -1 ∧ g.Ends f.bbt page buf.length := by
  rw [nandWriteSkipBad_eq, NfiGeometry.Ends]
  rcases g.checkSkipLen_result f.bbt (page * g.writesize) buf.length with none | straight | skip
  · simp [none, nandEinval]
  · obtain ⟨result, -⟩ := mtdWrite_reliable g chip reliable f nonempty
      (g.fits_of_check (List.length_pos_iff.mpr nonempty) straight)
    simp [straight, result]
  · have enough : g.blocks < page / g.pagesPerBlock + skipTurns g :=
      (Nat.lt_succ_of_le (Nat.le_add_right _ _)).trans_le (Nat.le_add_left _ _)
    rw [if_neg (by omega), if_pos skip, nandWriteSkipLoop_done_iff g chip reliable buf f onChip.le enough]
    simp [skip]

theorem nandReadSkipBad_becomes (page length : Nat) (f : NfiFlash) :
    NfiBecomes g f [] (nandReadSkipBad g chip (page * g.writesize) length f).2.2 := by
  rw [nandReadSkipBad_eq]
  split_ifs
  · exact mtdRead_becomes g chip _ _ f
  · exact nandReadSkipLoop_becomes g chip _ _ _ f
  · exact .refl f

theorem nandReadSkipBad_length {page length : Nat} {f : NfiFlash}
    (done : (nandReadSkipBad g chip (page * g.writesize) length f).1 = some 0) :
    (nandReadSkipBad g chip (page * g.writesize) length f).2.1.length = length := by
  rw [nandReadSkipBad_eq] at done ⊢
  split_ifs at done ⊢
  · exact mtdRead_length g chip (Option.some.inj done)
  · exact nandReadSkipLoop_length g chip done
  · cases done

theorem visits_of_nandReadSkipBad {page length : Nat} {f : NfiFlash} (more : length ≠ 0)
    (done : (nandReadSkipBad g chip (page * g.writesize) length f).1 = some 0) :
    ∃ x, g.Visits f.bbt page length x := by
  have positive := g.pagesOf_pos (Nat.pos_of_ne_zero more)
  rw [nandReadSkipBad_eq] at done
  split_ifs at done with straight skip
  · have fits := fits_of_mtdRead g chip (Option.some.inj done)
    exact ⟨page, g.offset_lt_size.mp (by omega), .inl ⟨straight, le_rfl, by omega⟩⟩
  · obtain ⟨x, onChip, reached⟩ := reaches_of_nandReadSkipLoop g chip more done
    exact ⟨x, onChip, .inr ⟨skip, reached⟩⟩
  · cases done

theorem nandReadSkipBad_agree (reliable : chip.Reliable) (page : Nat) {length : Nat}
    (some : 0 < length) {f f' : NfiFlash} (right : f.Coherent) (right' : f'.Coherent)
    (blocks : f'.bbt = f.bbt)
    (same : ∀ x, g.Visits f.bbt page length x → f'.page x = f.page x) :
    (nandReadSkipBad g chip (page * g.writesize) length f').1 =
        (nandReadSkipBad g chip (page * g.writesize) length f).1 ∧
      (nandReadSkipBad g chip (page * g.writesize) length f').2.1 =
        (nandReadSkipBad g chip (page * g.writesize) length f).2.1 := by
  rw [nandReadSkipBad_eq, nandReadSkipBad_eq, blocks]
  split_ifs with straight skip
  · have fits := g.fits_of_check some straight
    have part := mtdRead_reliable g chip reliable page some right
    have part' := mtdRead_reliable g chip reliable page some right'
    rw [if_pos fits, Prod.mk.injEq] at part part'
    dsimp only
    rw [part.1, part'.1, part.2, part'.2]
    refine ⟨rfl, storedBytes_congr g length ?_⟩
    intro x low high
    exact same x ⟨g.lt_pages_of_fits fits low high, .inl ⟨straight, low, high⟩⟩
  · apply nandReadSkipLoop_agree g chip reliable _ _ _ right right' blocks
    intro x onChip reached
    exact same x ⟨onChip, .inr ⟨skip, reached⟩⟩
  · exact ⟨rfl, rfl⟩

theorem mem_nandReadSkipBad (reliable : chip.Reliable) {page length x c : Nat} {f : NfiFlash}
    (right : f.Coherent) (column : c < g.writesize) (shown : c = 0 ∨ g.writesize ∣ length)
    (visited : g.Visits f.bbt page length x) :
    f.page x c ∈ (nandReadSkipBad g chip (page * g.writesize) length f).2.1 := by
  rw [nandReadSkipBad_eq]
  rcases visited with ⟨onChip, ⟨straight, low, high⟩ | ⟨skip, reached⟩⟩
  · have some : 0 < length := by
      by_contra none
      rw [show length = 0 by omega, g.pagesOf_zero] at high
      omega
    have part := mtdRead_reliable g chip reliable page some right
    rw [if_pos (g.fits_of_check some straight), Prod.mk.injEq] at part
    rw [if_pos straight]
    dsimp only
    rw [part.2]
    exact mem_storedBytes g low high column (g.column_lt column shown (by omega))
  · rw [if_neg (by omega), if_pos skip]
    exact mem_nandReadSkipLoop g chip reliable right onChip column shown (g.skipTurns_enough onChip page) reached

theorem eq_of_mem_nandReadSkipBad {page length : Nat} {f : NfiFlash} {b : Byte} (right : f.Coherent)
    (inside : b ∈ (nandReadSkipBad g chip (page * g.writesize) length f).2.1) :
    ∃ x c, b = f.page x c := by
  rw [nandReadSkipBad_eq] at inside
  split_ifs at inside
  · exact eq_of_mem_mtdRead g chip right inside
  · exact eq_of_mem_nandReadSkipLoop g chip right inside
  · cases inside

theorem nandReadSkipBad_page (reliable : chip.Reliable) {page x : Nat} {f : NfiFlash}
    (right : f.Coherent) (visited : g.Visits f.bbt page g.writesize x) :
    (nandReadSkipBad g chip (page * g.writesize) g.writesize f).1 = some 0 := by
  have positive := g.writesize_pos
  have one : g.pagesOf g.writesize = 1 := by
    have := g.pagesOf_mul 1
    rwa [Nat.one_mul] at this
  rw [nandReadSkipBad_eq]
  rcases visited with ⟨onChip, ⟨straight, -⟩ | ⟨skip, reached⟩⟩
  · have part := mtdRead_reliable g chip reliable page positive right
    rw [if_pos (g.fits_of_check positive straight), Prod.mk.injEq] at part
    rw [if_pos straight]
    exact congrArg some part.1
  · rw [if_neg (by omega), if_pos skip]
    rw [one] at reached
    exact nandReadSkipLoop_page g chip reliable right onChip (g.skipTurns_enough onChip page) reached

theorem nandReadSkipBad_of_write (reliable : chip.Reliable) {page : Nat} {buf : List Byte}
    {f : NfiFlash} (right : f.Coherent) (nonempty : buf ≠ [])
    (erased : ∀ x, g.Visits f.bbt page buf.length x → ∀ c, c < g.writesize → f.page x c = 0xff)
    (done : (nandWriteSkipBad g chip (page * g.writesize) buf f).1 = some 0) :
    let f' := (nandWriteSkipBad g chip (page * g.writesize) buf f).2
    (nandReadSkipBad g chip (page * g.writesize) buf.length f').1 = some 0 ∧
      (nandReadSkipBad g chip (page * g.writesize) buf.length f').2.1 = buf := by
  have positive := List.length_pos_iff.mpr nonempty
  obtain ⟨_, became, -⟩ := nandWriteSkipBad_becomes g chip page buf f
  have right' := became.coherent right
  have blocks := became.bbt
  dsimp only
  rw [nandReadSkipBad_eq, blocks]
  rw [nandWriteSkipBad_eq] at done right' blocks ⊢
  split_ifs at done right' blocks ⊢ with straight skip
  · have fits := g.fits_of_check positive straight
    obtain ⟨-, _, -, -, each⟩ := mtdWrite_reliable g chip reliable f nonempty fits
    have part := mtdRead_reliable g chip reliable page positive right'
    rw [if_pos fits, Prod.mk.injEq] at part
    refine ⟨congrArg _ part.1, part.2.trans ?_⟩
    refine storedBytes_fill g (g.le_pagesOf_mul _) fun i bound c column => ?_
    rw [(each i bound).2]
    dsimp only
    rw [erased _ ⟨g.lt_pages_of_fits fits (by omega) (by omega), .inl ⟨straight, by omega, by omega⟩⟩ c column]
    exact BitVec.allOnes_and
  · exact nandReadSkipLoop_of_write g chip reliable right' blocks done
      (fun x onChip reached => erased x ⟨onChip, .inr ⟨skip, reached⟩⟩) fun _ _ => rfl
  · cases done

/-- On a chip of up to 4 GiB the mask loses nothing, and a walk that `check_skip_len` lets pass
visits the next pages of good blocks. -/
theorem NfiGeometry.visits_iff {bbt : Nat → Bool} {start len x : Nat} (small : g.size ≤ 2 ^ 32) :
    g.Visits bbt start len x ↔ x < g.pages ∧
      (checkSkipLen g bbt (start * g.writesize) len).1 ≠ -1 ∧
        Reaches (g.usable bbt) start (g.pagesOf len) x := by
  unfold NfiGeometry.Visits
  rcases g.checkSkipLen_result bbt (start * g.writesize) len with none | straight | skip
  · simp [none]
  · have good : ∀ y, y < g.pages → start ≤ y → y < start + g.pagesOf len →
        g.usable bbt y = true := by
      intro y onChip low high
      have inside : y / g.pagesPerBlock < g.blocks :=
        (Nat.div_lt_iff_lt_mul g.pagesPerBlock_pos).mpr onChip
      have below : y / g.pagesPerBlock * g.erasesize < 2 ^ 32 := by
        have less := Nat.mul_lt_mul_of_pos_right inside g.erasesize_pos
        rw [← g.size_eq] at less
        omega
      rw [g.usable_eq, Nat.mod_eq_of_lt below]
      exact decide_eq_true (g.checkSkipLoop_good straight low (by simpa using high))
    have whole : 0 < len → start + g.pagesOf len ≤ g.pages := by
      intro some
      have positive := g.pagesOf_pos some
      have last := g.lt_pages_of_fits (x := start + g.pagesOf len - 1)
        (g.fits_of_check some straight) (by omega) (by omega)
      omega
    have walk : x < g.pages → (Reaches (g.usable bbt) start (g.pagesOf len) x ↔
        start ≤ x ∧ x < start + g.pagesOf len) := by
      intro _
      by_cases empty : len = 0
      · subst empty
        rw [g.pagesOf_zero]
        exact ⟨fun reached => absurd reached not_reaches_zero, fun h => by omega⟩
      · have upTo := whole (Nat.pos_of_ne_zero empty)
        rw [reaches_take (fun y low high => good y (by omega) low high) le_rfl, Nat.sub_self]
        simp [not_reaches_zero]
    constructor
    · rintro ⟨onChip, ⟨-, low, high⟩ | ⟨other, -⟩⟩
      · exact ⟨onChip, by omega, (walk onChip).mpr ⟨low, high⟩⟩
      · omega
    · rintro ⟨onChip, -, reached⟩
      exact ⟨onChip, .inl ⟨straight, (walk onChip).mp reached⟩⟩
  · simp [skip]

/-- Two walks on a chip of up to 4 GiB come to a common page exactly if there are fewer pages of
good blocks between their starts than the first one takes. -/
theorem NfiGeometry.visits_meet_iff {bbt : Nat → Bool} {s t n m : Nat} (small : g.size ≤ 2 ^ 32)
    (order : s ≤ t) (fits : (checkSkipLen g bbt (s * g.writesize) n).1 ≠ -1)
    (later : ∃ x, g.Visits bbt t m x) :
    (∃ x, g.Visits bbt s n x ∧ g.Visits bbt t m x) ↔
      usableBefore (g.usable bbt) t < usableBefore (g.usable bbt) s + g.pagesOf n := by
  obtain ⟨y, there⟩ := later
  obtain ⟨onChip, fits', reached⟩ := (g.visits_iff small).mp there
  rw [← reaches_meet_iff order reached]
  constructor
  · rintro ⟨x, first, second⟩
    obtain ⟨-, -, first⟩ := (g.visits_iff small).mp first
    obtain ⟨-, -, second⟩ := (g.visits_iff small).mp second
    by_cases near : x ≤ y
    · exact ⟨x, near, first, second⟩
    · have less := @usableBefore_mono (g.usable bbt) y x (by omega)
      obtain ⟨after, here, few⟩ := reached
      have := first.2.2
      exact ⟨y, le_rfl, ⟨by omega, here, by omega⟩, after, here, few⟩
  · rintro ⟨x, near, first, second⟩
    exact ⟨x, (g.visits_iff small).mpr ⟨by omega, fits, first⟩,
      (g.visits_iff small).mpr ⟨by omega, fits', second⟩⟩

/-- So two walks that each visit some page stay apart if there are enough pages of good blocks
between their starts. -/
theorem NfiGeometry.visits_apart_iff {bbt : Nat → Bool} {s t n m : Nat} (small : g.size ≤ 2 ^ 32)
    (first : ∃ x, g.Visits bbt s n x) (second : ∃ x, g.Visits bbt t m x) :
    (∀ x, g.Visits bbt s n x → ¬g.Visits bbt t m x) ↔
      (s ≤ t → usableBefore (g.usable bbt) s + g.pagesOf n ≤ usableBefore (g.usable bbt) t) ∧
        (t ≤ s → usableBefore (g.usable bbt) t + g.pagesOf m ≤ usableBefore (g.usable bbt) s) := by
  have fits {a k : Nat} (visited : ∃ x, g.Visits bbt a k x) :
      (checkSkipLen g bbt (a * g.writesize) k).1 ≠ -1 := by
    obtain ⟨x, here⟩ := visited
    exact ((g.visits_iff small).mp here).2.1
  have forward := fun order => g.visits_meet_iff small order (fits first) second
  have backward := fun order => g.visits_meet_iff small order (fits second) first
  constructor
  · intro apart
    constructor
    · intro order
      by_contra few
      obtain ⟨x, here, there⟩ := (forward order).mpr (by omega)
      exact apart x here there
    · intro order
      by_contra few
      obtain ⟨x, there, here⟩ := (backward order).mpr (by omega)
      exact apart x here there
  · rintro ⟨before, after⟩ x here there
    rcases Nat.le_total s t with order | order
    · have := (forward order).mp ⟨x, here, there⟩
      have := before order
      omega
    · have := (backward order).mp ⟨x, there, here⟩
      have := after order
      omega

end SkipBad

end NuMakerMA35
