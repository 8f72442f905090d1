import NuMakerMA35.WhcNotify

namespace NuMakerMA35

variable {T : Type}

section Doomed

variable {c : WhcCfg} {s : WhcRun T} {ch : Fin whcCh}

def WhcRun.Doomed (s : WhcRun T) : Prop :=
  s.wrong = true ∨ (∃ ch, s.unseen ch = true ∧ s.ahead (whcRxBit ch) = false) ∨
    ∃ ch, s.sent ch ≠ [] ∧
      (2 ≤ (s.sent ch).length ∨ (s.chan ch).pvTxBuf = 0 ∨ s.calling (whcTxBit ch) = true ∨
        (s.sent ch).head? ≠ some (s.chan ch).pvTxBuf ∨
          ((s.chan ch).txReady = true ∧ s.ahead (whcTxBit ch) = false))

theorem WhcRun.Doomed.not_right (doomed : s.Doomed) : ¬s.Right := by
  rintro ⟨fine, all⟩
  rcases doomed with wrong | ⟨ch, unseen, -⟩ | ⟨ch, owed, -⟩
  · rw [fine] at wrong
    cases wrong
  · rw [(all ch).2] at unseen
    cases unseen
  · exact owed (all ch).1

theorem WhcRun.isrStep_cases (s : WhcRun T) (c : WhcCfg) (ch : Fin whcCh) :
    (s.ahead (whcTxBit ch) = true ∧ s.calling (whcTxBit ch) = false ∧ (s.chan ch).pvTxBuf ≠ 0 ∧
        (s.isrStep c).sent ch = (s.sent ch).tail ∧ (s.isrStep c).calling (whcTxBit ch) = true ∧
        (s.isrStep c).wrong =
          (s.wrong || decide ((s.sent ch).head? ≠ some (s.chan ch).pvTxBuf))) ∨
      ((s.isrStep c).sent ch = s.sent ch ∧
        (((s.isrStep c).chan ch).pvTxBuf = 0 ∨ s.calling (whcTxBit ch) = false ∧
          ((s.isrStep c).chan ch).pvTxBuf = (s.chan ch).pvTxBuf)) := by
  unfold WhcRun.isrStep
  cases phase : s.isr with
  | idle =>
    right
    have quiet : s.calling (whcTxBit ch) = false := by
      simp [WhcRun.calling, phase]
    simp only
    split_ifs <;> exact ⟨rfl, .inr ⟨quiet, rfl⟩⟩
  | loop left =>
    have quiet : s.calling (whcTxBit ch) = false := by
      simp [WhcRun.calling, phase]
    simp only
    split_ifs with more
    · have ne : left ≠ 0 := by
        rintro rfl
        exact more rfl
      unfold WhcRun.serve
      cases isTx : whcChannel whcIntstsTx0ifPos (nuCtz left) with
      | some other =>
        have bit : nuCtz left = whcTxBit other := whcChannel_eq.mp isTx
        simp only
        split_ifs with called
        · by_cases same : ch = other
          · subst same
            left
            refine ⟨?_, quiet, called.2, ?_, ?_, rfl⟩
            · simp [WhcRun.ahead, phase, ← bit, (nuCtz_of_ne_zero ne).2.1]
            · simp [WhcRun.complete]
            · simp [WhcRun.calling, bit]
          · right
            exact ⟨by simp [WhcRun.complete, same], .inr ⟨quiet, rfl⟩⟩
        · exact .inr ⟨rfl, .inr ⟨quiet, rfl⟩⟩
      | none =>
        right
        simp only
        cases whcChannel whcIntstsRx0ifPos (nuCtz left) with
        | some other =>
          simp only
          split_ifs <;> exact ⟨rfl, .inr ⟨quiet, rfl⟩⟩
        | none => exact ⟨rfl, .inr ⟨quiet, rfl⟩⟩
    · exact .inr ⟨rfl, .inr ⟨quiet, rfl⟩⟩
  | callback left =>
    right
    simp only
    unfold WhcRun.returned
    cases isTx : whcChannel whcIntstsTx0ifPos (nuCtz left) with
    | some other =>
      have bit : nuCtz left = whcTxBit other := whcChannel_eq.mp isTx
      by_cases same : ch = other
      · subst same
        exact ⟨rfl, .inl (by simp [WhcRun.setChan])⟩
      · refine ⟨rfl, .inr ⟨?_, by simp [WhcRun.setChan, same]⟩⟩
        have apart : whcTxBit ch ≠ whcTxBit other := fun equal => same (whcTxBit_inj equal)
        simp [WhcRun.calling, phase, bit, apart]
    | none =>
      refine ⟨rfl, .inr ⟨?_, rfl⟩⟩
      have apart : whcTxBit ch ≠ nuCtz left := by
        intro equal
        rw [whcChannel_eq.mpr equal.symm] at isTx
        cases isTx
      simp [WhcRun.calling, phase, apart]
  | clear left =>
    right
    exact ⟨rfl, .inr ⟨by simp [WhcRun.calling, phase], rfl⟩⟩

theorem WhcRun.isrStep_wrong (s : WhcRun T) (c : WhcCfg) (wrong : s.wrong = true) :
    (s.isrStep c).wrong = true := by
  unfold WhcRun.isrStep
  cases s.isr with
  | idle =>
    simp only
    split_ifs <;> exact wrong
  | loop left =>
    simp only
    split_ifs
    · unfold WhcRun.serve
      split
      · split_ifs
        · simp [WhcRun.complete, wrong]
        · exact wrong
      · split
        · split_ifs <;> exact wrong
        · exact wrong
    · exact wrong
  | callback left =>
    simp only
    unfold WhcRun.returned
    split <;> exact wrong
  | clear left => exact wrong

theorem WhcRun.isrStep_unseen (s : WhcRun T) (c : WhcCfg) (ch : Fin whcCh)
    (behind : s.ahead (whcRxBit ch) = false) : (s.isrStep c).unseen ch = s.unseen ch := by
  unfold WhcRun.isrStep
  cases phase : s.isr with
  | idle =>
    simp only
    split_ifs <;> rfl
  | loop left =>
    simp only
    split_ifs with more
    · have ne : left ≠ 0 := by
        rintro rfl
        exact more rfl
      unfold WhcRun.serve
      split
      · split_ifs <;> rfl
      · split
        next other isRx =>
          have apart : ch ≠ other := by
            rintro rfl
            have bit : nuCtz left = whcRxBit ch := whcChannel_eq.mp isRx
            simp [WhcRun.ahead, phase, ← bit, (nuCtz_of_ne_zero ne).2.1] at behind
          split_ifs
          · simp [apart]
          · rfl
        · rfl
    · rfl
  | callback left =>
    simp only
    unfold WhcRun.returned
    split <;> rfl
  | clear left => rfl

theorem WhcRun.isrStep_behind {bit : Nat} (small : bit < 32) (s : WhcRun T) (c : WhcCfg)
    (behind : s.ahead bit = false) : (s.isrStep c).ahead bit = false := by
  rcases WhcRun.isrStep_ahead small s c with same | ⟨left, -, -, -, after⟩
  · exact same.trans behind
  · exact after

theorem WhcRun.Doomed.isrStep (doomed : s.Doomed) (c : WhcCfg) : (s.isrStep c).Doomed := by
  rcases doomed with wrong | ⟨ch, unseen, behind⟩ | ⟨ch, owed, why⟩
  · exact .inl (s.isrStep_wrong c wrong)
  · refine .inr (.inl ⟨ch, ?_, WhcRun.isrStep_behind whcRxBit_lt s c behind⟩)
    rw [s.isrStep_unseen c ch behind]
    exact unseen
  · rcases s.isrStep_cases c ch with ⟨ahead, quiet, pointer, sent, calling, wrong⟩ | ⟨sent, pointer⟩
    · rcases why with two | null | called | other | ⟨-, behind⟩
      · refine .inr (.inr ⟨ch, ?_, .inr (.inr (.inl calling))⟩)
        rw [sent]
        intro none
        have short := congrArg List.length none
        rw [List.length_tail, List.length_nil] at short
        omega
      · exact absurd null pointer
      · rw [quiet] at called
        cases called
      · refine .inl ?_
        rw [wrong, decide_eq_true other, Bool.or_true]
      · rw [ahead] at behind
        cases behind
    · refine .inr (.inr ⟨ch, by rw [sent]; exact owed, ?_⟩)
      rcases pointer with null | ⟨quiet, same⟩
      · exact .inr (.inl null)
      · rw [sent, same, s.isrStep_txReady c ch]
        rcases why with two | null | called | other | ⟨ready, behind⟩
        · exact .inl two
        · exact .inr (.inl null)
        · rw [quiet] at called
          cases called
        · exact .inr (.inr (.inr (.inl other)))
        · exact .inr (.inr (.inr (.inr ⟨ready, WhcRun.isrStep_behind whcTxBit_lt s c behind⟩)))

theorem WhcRun.acked_same (s : WhcRun T) (ch : Fin whcCh) :
    (s.acked ch).wrong = s.wrong ∧ (s.acked ch).sent = s.sent ∧ (s.acked ch).unseen = s.unseen ∧
      (∀ bit, (s.acked ch).calling bit = s.calling bit) ∧
        ∀ other, ((s.acked ch).chan other).pvTxBuf = (s.chan other).pvTxBuf := by
  unfold WhcRun.acked
  split_ifs
  · exact ⟨rfl, rfl, rfl, fun bit => rfl, fun other => rfl⟩
  · refine ⟨rfl, rfl, rfl, fun bit => rfl, fun other => ?_⟩
    by_cases same : other = ch
    · simp [WhcRun.raise, WhcRun.setChan, same]
    · simp [WhcRun.raise, WhcRun.setChan, same]

theorem WhcRun.Doomed.acked (doomed : s.Doomed) (ch : Fin whcCh) : (s.acked ch).Doomed := by
  obtain ⟨wrong, sent, unseen, calling, pointer⟩ := s.acked_same ch
  have ahead := s.acked_ahead ch
  rcases doomed with bad | ⟨other, here, behind⟩ | ⟨other, owed, why⟩
  · exact .inl (wrong.trans bad)
  · refine .inr (.inl ⟨other, by rw [unseen]; exact here, ?_⟩)
    rw [ahead, if_neg (fun both => whcTxBit_ne_rxBit both.2.symm)]
    exact behind
  · refine .inr (.inr ⟨other, by rw [sent]; exact owed, ?_⟩)
    rw [sent, pointer, calling]
    rcases why with two | null | called | ne | ⟨ready, behind⟩
    · exact .inl two
    · exact .inr (.inl null)
    · exact .inr (.inr (.inl called))
    · exact .inr (.inr (.inr (.inl ne)))
    · refine .inr (.inr (.inr (.inr ⟨s.acked_txReady ch other (.inr ready), ?_⟩)))
      rw [ahead, if_neg]
      · exact behind
      · rintro ⟨unready, same⟩
        rw [← whcTxBit_inj same, ready] at unready
        cases unready

theorem WhcRun.Doomed.steps (doomed : s.Doomed) (c : WhcCfg) (n : Nat) :
    ((fun s : WhcRun T => s.isrStep c)^[n] s).Doomed := by
  induction n with
  | zero => exact doomed
  | succ n ih =>
    rw [Function.iterate_succ_apply']
    exact ih.isrStep c

theorem WhcRun.Doomed.ackAll (doomed : s.Doomed) : s.ackAll.Doomed :=
  List.foldlRecOn _ _ doomed fun _ here ch _ => here.acked ch

theorem WhcRun.Doomed.not_notifies (doomed : s.Doomed) (c : WhcCfg) : ¬s.Notifies c := by
  intro notifies
  have last := ((doomed.steps c whcTurns).ackAll).steps c whcTurns
  exact last.not_right (notifies whcTurns whcTurns le_rfl le_rfl)

end Doomed

end NuMakerMA35
