import NuMakerMA35.Whc
import NuMakerMA35.Runs

namespace NuMakerMA35

variable {T : Type}

section Flags

variable {c : WhcCfg} {s : WhcRun T} {bit : Nat} {ch ch' : Fin whcCh} {left : U32}

def WhcRun.ahead (s : WhcRun T) (bit : Nat) : Bool :=
  match s.isr with
  | .idle => s.intsts.getLsbD bit
  | .loop left => left.getLsbD bit || s.intsts.getLsbD bit
  | .callback left | .clear left =>
    decide (bit ≠ nuCtz left) && (left.getLsbD bit || s.intsts.getLsbD bit)

def WhcRun.calling (s : WhcRun T) (bit : Nat) : Bool :=
  match s.isr with
  | .callback left => bit = nuCtz left
  | _ => false

def WhcRun.served (s : WhcRun T) (bit : Nat) : Bool :=
  match s.isr with
  | .callback left | .clear left => bit = nuCtz left
  | _ => false

theorem whcChannel_eq {base : Nat} : whcChannel base bit = some ch ↔ bit = base + ch := by
  have small := ch.isLt
  unfold whcChannel
  constructor
  · intro same
    split_ifs at same with inside
    obtain rfl := Option.some.inj same
    dsimp only
    omega
  · rintro rfl
    rw [dif_pos ⟨by omega, by omega⟩]
    simp

theorem whcTxBit_inj (same : whcTxBit ch = whcTxBit ch') : ch = ch' := by
  unfold whcTxBit at same
  exact Fin.ext (by omega)

theorem whcRxBit_inj (same : whcRxBit ch = whcRxBit ch') : ch = ch' := by
  unfold whcRxBit at same
  exact Fin.ext (by omega)

theorem whcTxBit_ne_rxBit : whcTxBit ch ≠ whcRxBit ch' := by
  have small := ch.isLt
  unfold whcTxBit whcRxBit whcIntstsTx0ifPos whcIntstsRx0ifPos
  unfold whcCh at small
  omega

theorem whcTxBit_lt : whcTxBit ch < 32 := by
  have small := ch.isLt
  unfold whcTxBit whcIntstsTx0ifPos
  unfold whcCh at small
  omega

theorem whcRxBit_lt : whcRxBit ch < 32 := by
  have small := ch.isLt
  unfold whcRxBit whcIntstsRx0ifPos
  unfold whcCh at small
  omega

theorem WhcRun.raise_ahead (s : WhcRun T) (bit : Nat) (small : bit < 32) (other : Nat) :
    (s.raise bit).ahead other = if other = bit then !s.served bit else s.ahead other := by
  unfold WhcRun.raise WhcRun.ahead WhcRun.served
  simp only [setBit_getLsbD _ small]
  by_cases same : other = bit
  · cases s.isr <;> simp [same]
  · cases s.isr <;> simp [same]

theorem WhcRun.serve_phase (s : WhcRun T) (c : WhcCfg) (left : U32) :
    (s.serve c left).intsts = s.intsts ∧ (s.serve c left).chan = s.chan ∧
      (s.serve c left).pc = s.pc ∧
      ((s.serve c left).isr = .callback left ∨ (s.serve c left).isr = .clear left) := by
  unfold WhcRun.serve
  split
  · split_ifs
    · exact ⟨rfl, rfl, rfl, .inl rfl⟩
    · exact ⟨rfl, rfl, rfl, .inr rfl⟩
  · split
    · split_ifs
      · exact ⟨rfl, rfl, rfl, .inl rfl⟩
      · exact ⟨rfl, rfl, rfl, .inr rfl⟩
    · exact ⟨rfl, rfl, rfl, .inr rfl⟩

theorem WhcRun.isrStep_ahead (small : bit < 32) (s : WhcRun T) (c : WhcCfg) :
    (s.isrStep c).ahead bit = s.ahead bit ∨
      ∃ left, s.isr = .loop left ∧ nuCtz left = bit ∧ s.ahead bit = true ∧
        (s.isrStep c).ahead bit = false := by
  unfold WhcRun.isrStep
  cases phase : s.isr with
  | idle =>
    left
    simp only
    split_ifs <;> simp [WhcRun.ahead, phase]
  | loop left =>
    simp only
    split_ifs with more
    · obtain ⟨flags, -, -, next⟩ := s.serve_phase c left
      have ne : left ≠ 0 := by
        rintro rfl
        exact more rfl
      have after : (s.serve c left).ahead bit =
          (decide (bit ≠ nuCtz left) && (left.getLsbD bit || s.intsts.getLsbD bit)) := by
        unfold WhcRun.ahead
        rcases next with next | next <;> rw [next, flags]
      by_cases same : bit = nuCtz left
      · right
        refine ⟨left, rfl, same.symm, ?_, ?_⟩
        · simp [WhcRun.ahead, phase, same, (nuCtz_of_ne_zero ne).2.1]
        · rw [after]
          simp [same]
      · left
        rw [after]
        simp [WhcRun.ahead, phase, same]
    · left
      have none : left = 0 := by
        by_contra ne
        have bound := (nuCtz_of_ne_zero ne).1
        omega
      simp [WhcRun.ahead, phase, none]
  | callback left =>
    left
    simp only
    unfold WhcRun.returned
    cases whcChannel whcIntstsTx0ifPos (nuCtz left) <;> simp [WhcRun.ahead, phase, WhcRun.setChan]
  | clear left =>
    left
    by_cases none : left = 0
    · subst none
      have far : nuCtz 0 = 32 := rfl
      have keep (x : U32) : x &&& ~~~((1 : U32) <<< 32) = x := by
        rw [show ~~~((1 : U32) <<< 32) = BitVec.allOnes 32 from rfl, BitVec.and_allOnes]
      simp only [WhcRun.ahead, phase, far, keep]
      simp [show bit ≠ 32 by omega]
    · have bound := (nuCtz_of_ne_zero none).1
      simp only [WhcRun.ahead, phase, clearBit_getLsbD _ bound]
      by_cases same : bit = nuCtz left
      · simp [same]
      · simp [same]

end Flags

/-- At most one write waits for its callback. It has the pointer, and either the other core has
not acknowledged it or its flag is still to be served. -/
def WhcRun.TxOk (s : WhcRun T) (ch : Fin whcCh) : Prop :=
  (s.sent ch = [] ∧ (s.chan ch).txReady = true ∧ s.ahead (whcTxBit ch) = false) ∨
    ∃ buffer, s.sent ch = [buffer] ∧ (s.chan ch).pvTxBuf = buffer ∧ buffer ≠ 0 ∧
      s.calling (whcTxBit ch) = false ∧ (s.chan ch).txReady = s.ahead (whcTxBit ch)

structure WhcRun.Ok (c : WhcCfg) (s : WhcRun T) : Prop where
  wrong : s.wrong = false
  kept : ∀ t ch buffer changed, s.pc t = .send ch buffer changed → changed = false
  tx : ∀ ch, c.txComplete ch = true → s.TxOk ch
  unset : ∀ ch, c.txComplete ch = false → s.sent ch = []
  rx : ∀ ch, s.unseen ch = true → c.rxIndicate ch = true ∧ s.ahead (whcRxBit ch) = true

section Routine

variable {c : WhcCfg} {s s' : WhcRun T} {ch : Fin whcCh} {left : U32}

theorem WhcRun.TxOk.congr (ok : s.TxOk ch) (sent : s'.sent ch = s.sent ch)
    (chan : s'.chan ch = s.chan ch) (ahead : s'.ahead (whcTxBit ch) = s.ahead (whcTxBit ch))
    (calling : s'.calling (whcTxBit ch) = false) : s'.TxOk ch := by
  unfold WhcRun.TxOk at ok ⊢
  rw [sent, chan, ahead, calling]
  rcases ok with none | ⟨buffer, one, pointer, some, -, ready⟩
  · exact .inl none
  · exact .inr ⟨buffer, one, pointer, some, rfl, ready⟩

theorem WhcRun.Ok.quiet (ok : s.Ok c) (wrong : s'.wrong = s.wrong) (pc : s'.pc = s.pc)
    (sent : s'.sent = s.sent) (unseen : s'.unseen = s.unseen) (chan : s'.chan = s.chan)
    (ahead : ∀ bit < 32, s'.ahead bit = s.ahead bit) (calling : ∀ bit, s'.calling bit = false) :
    s'.Ok c where
  wrong := wrong.trans ok.wrong
  kept := by
    rw [pc]
    exact ok.kept
  tx := fun ch set => (ok.tx ch set).congr (by rw [sent]) (by rw [chan]) (ahead _ whcTxBit_lt)
    (calling _)
  unset := by
    rw [sent]
    exact ok.unset
  rx := by
    intro ch here
    rw [unseen] at here
    rw [ahead _ whcRxBit_lt]
    exact ok.rx ch here

theorem WhcRun.serve_ahead (phase : s.isr = .loop left) (bit : Nat) :
    (s.serve c left).ahead bit = (decide (bit ≠ nuCtz left) && s.ahead bit) := by
  obtain ⟨flags, -, -, next⟩ := s.serve_phase c left
  unfold WhcRun.ahead
  rcases next with next | next <;> rw [next, flags, phase]

theorem WhcRun.Ok.pass (ok : s.Ok c) (phase : s.isr = .loop left)
    (others : ∀ ch, c.txComplete ch = true → whcTxBit ch ≠ nuCtz left)
    (wrong : (s.serve c left).wrong = s.wrong) (sent : (s.serve c left).sent = s.sent)
    (unseen : ∀ ch, (s.serve c left).unseen ch = true →
      s.unseen ch = true ∧ whcRxBit ch ≠ nuCtz left) : (s.serve c left).Ok c := by
  have ahead := WhcRun.serve_ahead (c := c) phase
  obtain ⟨-, chan, pc, next⟩ := s.serve_phase c left
  refine ⟨wrong.trans ok.wrong, by rw [pc]; exact ok.kept, ?_, by rw [sent]; exact ok.unset, ?_⟩
  · intro ch set
    refine (ok.tx ch set).congr (by rw [sent]) (by rw [chan]) ?_ ?_
    · rw [ahead, decide_eq_true (others ch set), Bool.true_and]
    · unfold WhcRun.calling
      rcases next with next | next <;> rw [next]
      exact decide_eq_false (others ch set)
  · intro ch here
    obtain ⟨before, apart⟩ := unseen ch here
    rw [ahead, decide_eq_true apart, Bool.true_and]
    exact ok.rx ch before

theorem WhcRun.Ok.serve (ok : s.Ok c) (phase : s.isr = .loop left) (ne : left ≠ 0) :
    (s.serve c left).Ok c := by
  have ahead := WhcRun.serve_ahead (c := c) phase
  have top : s.ahead (nuCtz left) = true := by
    simp [WhcRun.ahead, phase, (nuCtz_of_ne_zero ne).2.1]
  obtain ⟨-, chan, pc, -⟩ := s.serve_phase c left
  have kept : ∀ t ch buffer changed, (s.serve c left).pc t = .send ch buffer changed →
      changed = false := by
    rw [pc]
    exact ok.kept
  cases isTx : whcChannel whcIntstsTx0ifPos (nuCtz left) with
  | some ch =>
    have bit : nuCtz left = whcTxBit ch := whcChannel_eq.mp isTx
    have rx : ∀ other, (s.serve c left).ahead (whcRxBit other) = s.ahead (whcRxBit other) := by
      intro other
      rw [ahead, bit, decide_eq_true (Ne.symm whcTxBit_ne_rxBit), Bool.true_and]
    cases set : c.txComplete ch with
    | true =>
      rcases ok.tx ch set with ⟨-, -, idle⟩ | ⟨buffer, one, pointer, some, -, ready⟩
      · rw [bit, idle] at top
        cases top
      · have next : s.serve c left = { s.complete ch with isr := .callback left } := by
          unfold WhcRun.serve
          rw [isTx]
          simp only [set, pointer, some, ne_eq, not_false_eq_true, and_self, if_true]
        refine ⟨?_, kept, ?_, ?_, ?_⟩
        · rw [next]
          simp [WhcRun.complete, ok.wrong, one, pointer]
        · intro other hers
          by_cases same : other = ch
          · subst same
            refine .inl ⟨?_, ?_, ?_⟩
            · rw [next]
              simp [WhcRun.complete, one]
            · rw [chan, ready, ← bit, top]
            · rw [ahead, bit]
              simp
          · have apart : whcTxBit other ≠ whcTxBit ch := fun equal => same (whcTxBit_inj equal)
            refine (ok.tx other hers).congr ?_ (by rw [chan]) ?_ ?_
            · rw [next]
              simp [WhcRun.complete, same]
            · rw [ahead, bit, decide_eq_true apart, Bool.true_and]
            · rw [next]
              simp [WhcRun.calling, bit, apart]
        · intro other off
          rw [next]
          have same : other ≠ ch := by
            rintro rfl
            rw [set] at off
            cases off
          simp [WhcRun.complete, same, ok.unset other off]
        · intro other here
          rw [rx]
          rw [next] at here
          exact ok.rx other here
    | false =>
      have next : s.serve c left = { s with isr := .clear left } := by
        unfold WhcRun.serve
        rw [isTx]
        simp only [set, Bool.false_eq_true, false_and, if_false]
      refine ok.pass phase ?_ (by rw [next]) (by rw [next]) ?_
      · intro other hers equal
        rw [whcTxBit_inj (equal.trans bit), set] at hers
        cases hers
      · intro other here
        rw [next] at here
        exact ⟨here, fun equal => whcTxBit_ne_rxBit (bit.symm.trans equal.symm)⟩
  | none =>
    have others : ∀ ch, c.txComplete ch = true → whcTxBit ch ≠ nuCtz left := by
      intro ch _ equal
      rw [whcChannel_eq.mpr equal.symm] at isTx
      cases isTx
    cases isRx : whcChannel whcIntstsRx0ifPos (nuCtz left) with
    | some ch =>
      have bit : nuCtz left = whcRxBit ch := whcChannel_eq.mp isRx
      have apart (other : Fin whcCh) (ne : other ≠ ch) : whcRxBit other ≠ nuCtz left := by
        intro equal
        exact ne (whcRxBit_inj (equal.trans bit))
      cases set : c.rxIndicate ch with
      | true =>
        have next : s.serve c left =
            { s with unseen := Function.update s.unseen ch false, isr := .callback left } := by
          unfold WhcRun.serve
          rw [isTx]
          simp only [isRx, set, if_true]
        refine ok.pass phase others (by rw [next]) (by rw [next]) ?_
        intro other here
        rw [next] at here
        have ne : other ≠ ch := by
          rintro rfl
          simp at here
        exact ⟨by simpa [ne] using here, apart other ne⟩
      | false =>
        have next : s.serve c left = { s with isr := .clear left } := by
          unfold WhcRun.serve
          rw [isTx]
          simp only [isRx, set, Bool.false_eq_true, if_false]
        refine ok.pass phase others (by rw [next]) (by rw [next]) ?_
        intro other here
        rw [next] at here
        refine ⟨here, apart other ?_⟩
        rintro rfl
        rw [(ok.rx other here).1] at set
        cases set
    | none =>
      have next : s.serve c left = { s with isr := .clear left } := by
        unfold WhcRun.serve
        rw [isTx]
        simp only [isRx]
      refine ok.pass phase others (by rw [next]) (by rw [next]) ?_
      intro other here
      rw [next] at here
      refine ⟨here, fun equal => ?_⟩
      rw [whcChannel_eq.mpr equal.symm] at isRx
      cases isRx

theorem WhcRun.isrStep_ahead_of_ne (phase : ∀ left, s.isr ≠ .loop left) (bit : Nat) (small : bit < 32) :
    (s.isrStep c).ahead bit = s.ahead bit := by
  rcases WhcRun.isrStep_ahead small s c with same | ⟨left, loop, -⟩
  · exact same
  · exact absurd loop (phase left)

theorem WhcRun.Ok.isrStep (ok : s.Ok c) : (s.isrStep c).Ok c := by
  cases phase : s.isr with
  | idle =>
    have ahead := WhcRun.isrStep_ahead_of_ne (s := s) (c := c) (by simp [phase])
    unfold WhcRun.isrStep at ahead ⊢
    simp only [phase] at ahead ⊢
    split_ifs at ahead ⊢
    · exact ok.quiet rfl rfl rfl rfl rfl ahead fun bit => rfl
    · exact ok
  | loop left =>
    by_cases more : nuCtz left ≠ 32
    · have ne : left ≠ 0 := by
        rintro rfl
        exact more rfl
      have next : s.isrStep c = s.serve c left := by
        unfold WhcRun.isrStep
        simp only [phase]
        exact if_pos more
      rw [next]
      exact ok.serve phase ne
    · have next : s.isrStep c = { s with isr := .idle } := by
        unfold WhcRun.isrStep
        simp only [phase]
        exact if_neg more
      have none : left = 0 := by
        by_contra ne
        have bound := (nuCtz_of_ne_zero ne).1
        omega
      rw [next]
      refine ok.quiet rfl rfl rfl rfl rfl ?_ fun bit => rfl
      intro bit _
      simp [WhcRun.ahead, phase, none]
  | callback left =>
    have ahead := WhcRun.isrStep_ahead_of_ne (s := s) (c := c) (by simp [phase])
    have next : s.isrStep c = s.returned left := by
      unfold WhcRun.isrStep
      simp only [phase]
    rw [next] at ahead ⊢
    unfold WhcRun.returned at ahead ⊢
    cases isTx : whcChannel whcIntstsTx0ifPos (nuCtz left) with
    | some ch =>
      have bit : nuCtz left = whcTxBit ch := whcChannel_eq.mp isTx
      rw [isTx] at ahead
      refine ⟨ok.wrong, ok.kept, ?_, ok.unset, ?_⟩
      · intro other set
        by_cases same : other = ch
        · subst same
          rcases ok.tx other set with ⟨none, ready, idle⟩ | ⟨buffer, -, -, -, quiet, -⟩
          · refine .inl ⟨none, ?_, ?_⟩
            · simp [WhcRun.setChan, ready]
            · rw [← idle]
              exact ahead _ whcTxBit_lt
          · simp [WhcRun.calling, phase, bit] at quiet
        · exact (ok.tx other set).congr rfl (by simp [WhcRun.setChan, same])
            (ahead _ whcTxBit_lt) rfl
      · intro other here
        rw [ahead _ whcRxBit_lt]
        exact ok.rx other here
    | none =>
      rw [isTx] at ahead
      exact ok.quiet rfl rfl rfl rfl rfl ahead fun bit => rfl
  | clear left =>
    have ahead := WhcRun.isrStep_ahead_of_ne (s := s) (c := c) (by simp [phase])
    unfold WhcRun.isrStep at ahead ⊢
    simp only [phase] at ahead ⊢
    exact ok.quiet rfl rfl rfl rfl rfl ahead fun bit => rfl

end Routine

section Settling

variable {c : WhcCfg} {s : WhcRun T} {ch : Fin whcCh}

def WhcRun.Right (s : WhcRun T) : Prop :=
  s.wrong = false ∧ ∀ ch, s.sent ch = [] ∧ s.unseen ch = false

def WhcRun.ackAll (s : WhcRun T) : WhcRun T := (List.finRange whcCh).foldl WhcRun.acked s

/-- The steps the routine takes at most until it has served all flags. -/
def whcTurns : Nat := 195

/-- When the routine ends, the other core acknowledges and the routine runs again, with no further
call or message, every write has had its callback and every message its indication. -/
def WhcRun.Notifies (c : WhcCfg) (s : WhcRun T) : Prop :=
  ∀ n m, whcTurns ≤ n → whcTurns ≤ m →
    ((fun s : WhcRun T => s.isrStep c)^[m]
      ((fun s : WhcRun T => s.isrStep c)^[n] s).ackAll).Right

/-- A bound for the steps until the routine has returned and no flag is set. -/
def WhcRun.rank (s : WhcRun T) : Nat :=
  let rest (left : U32) := if s.intsts &&& ~~~left = 0 then 0 else 98
  match s.isr with
  | .idle => if s.intsts = 0 then 0 else 98
  | .loop left => 3 * setBits 32 left + 1 + rest left
  | .callback left => 3 * (setBits 32 left - 1) + 3 + rest left
  | .clear left => 3 * (setBits 32 left - 1) + 2 + rest left

theorem WhcRun.rank_le (s : WhcRun T) : s.rank ≤ whcTurns := by
  unfold WhcRun.rank whcTurns
  cases s.isr with
  | idle =>
    simp only
    split_ifs <;> omega
  | loop left =>
    have few := setBits_le 32 left
    simp only
    split_ifs <;> omega
  | callback left =>
    have few := setBits_le 32 left
    simp only
    split_ifs <;> omega
  | clear left =>
    have few := setBits_le 32 left
    simp only
    split_ifs <;> omega

theorem rest_clear (x left bit : U32) (set : bit &&& left = bit) :
    x &&& ~~~bit &&& ~~~(left &&& ~~~bit) = x &&& ~~~left := by
  apply BitVec.eq_of_getLsbD_eq
  intro i inside
  have here := congrArg (fun w => w.getLsbD i) set
  simp only [BitVec.getLsbD_and] at here
  simp only [BitVec.getLsbD_and, BitVec.getLsbD_not, inside, decide_true, Bool.true_and]
  revert here
  generalize bit.getLsbD i = b
  generalize left.getLsbD i = l
  generalize x.getLsbD i = w
  cases b <;> cases l <;> cases w <;> simp

theorem WhcRun.isrStep_rank (s : WhcRun T) : (s.isrStep c).rank ≤ s.rank - 1 := by
  unfold WhcRun.isrStep
  cases phase : s.isr with
  | idle =>
    by_cases none : s.intsts = 0
    · simp [phase, none, WhcRun.rank]
    · have few := setBits_le 32 s.intsts
      simp only [ne_eq, none, not_false_eq_true, if_true, WhcRun.rank, phase, if_false,
        BitVec.and_not_self]
      omega
  | loop left =>
    by_cases more : nuCtz left = 32
    · have none : left = 0 := by
        by_contra ne
        have bound := (nuCtz_of_ne_zero ne).1
        omega
      subst none
      have all (x : U32) : x &&& ~~~(0 : U32) = x := by
        rw [show ~~~(0 : U32) = BitVec.allOnes 32 from rfl, BitVec.and_allOnes]
      simp only [ne_eq, more, not_true_eq_false, if_false, WhcRun.rank, phase, all]
      omega
    · have fewer := setBits_clear (n := 32) le_rfl
        (lt_of_le_of_ne (by
          by_cases ne : left = 0
          · rw [ne]
            exact le_rfl
          · exact (nuCtz_of_ne_zero ne).1.le) more)
      obtain ⟨flags, -, -, next⟩ := s.serve_phase c left
      simp only [ne_eq, more, not_false_eq_true, if_true, WhcRun.rank, phase]
      rcases next with next | next <;> simp only [next, flags] <;> omega
  | callback left =>
    have next : (s.returned left).isr = .clear left ∧ (s.returned left).intsts = s.intsts := by
      unfold WhcRun.returned
      cases whcChannel whcIntstsTx0ifPos (nuCtz left) <;> exact ⟨rfl, rfl⟩
    simp only [WhcRun.rank, phase, next]
    omega
  | clear left =>
    by_cases none : left = 0
    · subst none
      have keep (x : U32) : x &&& ~~~((1 : U32) <<< 32) = x := by
        rw [show ~~~((1 : U32) <<< 32) = BitVec.allOnes 32 from rfl, BitVec.and_allOnes]
      have few : setBits 32 0 = 0 := by decide
      simp only [WhcRun.rank, phase, show nuCtz 0 = 32 from rfl, keep, few]
      omega
    · have bound := nuCtz_of_ne_zero none
      have fewer := setBits_clear (n := 32) le_rfl bound.1
      have within : (1 : U32) <<< nuCtz left &&& left = (1 : U32) <<< nuCtz left := by
        apply BitVec.eq_of_getLsbD_eq
        intro i _
        rw [BitVec.getLsbD_and, oneShift_getLsbD bound.1]
        by_cases same : i = nuCtz left
        · simp [same, bound.2.1]
        · simp [same]
      simp only [WhcRun.rank, phase, rest_clear _ _ _ within]
      omega

theorem WhcRun.settled (c : WhcCfg) {n : Nat} (enough : whcTurns ≤ n) (s : WhcRun T) :
    ((fun s : WhcRun T => s.isrStep c)^[n] s).rank = 0 := by
  have falls : ∀ n, ((fun s : WhcRun T => s.isrStep c)^[n] s).rank ≤ s.rank - n := by
    intro n
    induction n with
    | zero => exact le_rfl
    | succ n ih =>
      rw [Function.iterate_succ_apply']
      have step := WhcRun.isrStep_rank (c := c) ((fun s : WhcRun T => s.isrStep c)^[n] s)
      omega
  have last := falls n
  have most := s.rank_le
  omega

theorem WhcRun.idle_of_rank (none : s.rank = 0) : s.isr = .idle ∧ s.intsts = 0 := by
  unfold WhcRun.rank at none
  cases phase : s.isr with
  | idle =>
    simp only [phase] at none
    split_ifs at none with clear
    exact ⟨rfl, clear⟩
  | loop left =>
    simp only [phase] at none
    omega
  | callback left =>
    simp only [phase] at none
    omega
  | clear left =>
    simp only [phase] at none
    omega

end Settling

section Fate

variable {c : WhcCfg} {s : WhcRun T} {ch : Fin whcCh}

theorem WhcRun.acked_ahead (s : WhcRun T) (ch : Fin whcCh) (bit : Nat) :
    (s.acked ch).ahead bit =
      if (s.chan ch).txReady = false ∧ bit = whcTxBit ch then !s.served bit else s.ahead bit := by
  unfold WhcRun.acked
  cases ready : (s.chan ch).txReady with
  | true => simp
  | false =>
    have raised := (s.setChan ch { s.chan ch with txReady := true }).raise_ahead (whcTxBit ch)
      whcTxBit_lt bit
    simp only [Bool.false_eq_true, if_false, raised, true_and]
    split_ifs with same
    · rw [same]
      rfl
    · rfl

theorem WhcRun.Ok.acked (ok : s.Ok c)
    (clear : c.txComplete ch = true → (s.chan ch).txReady = false → s.served (whcTxBit ch) = false) :
    (s.acked ch).Ok c := by
  have ahead := s.acked_ahead ch
  cases ready : (s.chan ch).txReady with
  | true =>
    have same : s.acked ch = s := by
      unfold WhcRun.acked
      rw [if_pos ready]
    rw [same]
    exact ok
  | false =>
    have next : s.acked ch = (s.setChan ch { s.chan ch with txReady := true }).raise (whcTxBit ch) := by
      unfold WhcRun.acked
      rw [if_neg (by simp [ready])]
    simp only [ready, true_and] at ahead
    refine ⟨by rw [next]; exact ok.wrong, by rw [next]; exact ok.kept, ?_, by rw [next]; exact ok.unset, ?_⟩
    · intro other set
      by_cases same : other = ch
      · subst same
        rcases ok.tx other set with ⟨-, yes, -⟩ | ⟨buffer, one, pointer, some, quiet, unacked⟩
        · rw [ready] at yes
          cases yes
        · refine .inr ⟨buffer, ?_, ?_, some, ?_, ?_⟩
          · rw [next]
            exact one
          · rw [next]
            simpa [WhcRun.raise, WhcRun.setChan] using pointer
          · rw [next]
            exact quiet
          · rw [ahead, if_pos rfl, clear set ready, next]
            simp [WhcRun.raise, WhcRun.setChan]
      · have apart : whcTxBit other ≠ whcTxBit ch := fun equal => same (whcTxBit_inj equal)
        rcases ok.tx other set with ⟨none, yes, idle⟩ | ⟨buffer, one, pointer, some, quiet, unacked⟩
        · refine .inl ⟨?_, ?_, ?_⟩
          · rw [next]
            exact none
          · rw [next]
            simpa [WhcRun.raise, WhcRun.setChan, same] using yes
          · rw [ahead, if_neg apart, idle]
        · refine .inr ⟨buffer, ?_, ?_, some, ?_, ?_⟩
          · rw [next]
            exact one
          · rw [next]
            simpa [WhcRun.raise, WhcRun.setChan, same] using pointer
          · rw [next]
            exact quiet
          · rw [ahead, if_neg apart, ← unacked, next]
            simp [WhcRun.raise, WhcRun.setChan, same]
    · intro other here
      rw [next] at here
      rw [ahead, if_neg (Ne.symm whcTxBit_ne_rxBit)]
      exact ok.rx other here

theorem WhcRun.Ok.steps (ok : s.Ok c) (n : Nat) : ((fun s : WhcRun T => s.isrStep c)^[n] s).Ok c := by
  induction n with
  | zero => exact ok
  | succ n ih =>
    rw [Function.iterate_succ_apply']
    exact ih.isrStep

theorem WhcRun.isrStep_txReady (s : WhcRun T) (c : WhcCfg) (ch : Fin whcCh) :
    ((s.isrStep c).chan ch).txReady = (s.chan ch).txReady := by
  unfold WhcRun.isrStep
  cases s.isr with
  | idle =>
    simp only
    split_ifs <;> rfl
  | loop left =>
    simp only
    split_ifs
    · rw [(s.serve_phase c left).2.1]
    · rfl
  | callback left =>
    simp only
    unfold WhcRun.returned
    cases whcChannel whcIntstsTx0ifPos (nuCtz left) with
    | some other =>
      by_cases same : ch = other
      · subst same
        simp [WhcRun.setChan]
      · simp [WhcRun.setChan, same]
    | none => rfl
  | clear left => rfl

theorem WhcRun.steps_txReady (s : WhcRun T) (c : WhcCfg) (ch : Fin whcCh) (n : Nat) :
    (((fun s : WhcRun T => s.isrStep c)^[n] s).chan ch).txReady = (s.chan ch).txReady := by
  induction n with
  | zero => rfl
  | succ n ih => rw [Function.iterate_succ_apply', WhcRun.isrStep_txReady, ih]

theorem WhcRun.acked_txReady (s : WhcRun T) (ch other : Fin whcCh)
    (ready : other = ch ∨ (s.chan other).txReady = true) : ((s.acked ch).chan other).txReady = true := by
  unfold WhcRun.acked
  cases yes : (s.chan ch).txReady with
  | true =>
    simp only [if_true]
    rcases ready with rfl | ready
    · exact yes
    · exact ready
  | false =>
    by_cases same : other = ch
    · simp [WhcRun.raise, WhcRun.setChan, same]
    · simpa [WhcRun.raise, WhcRun.setChan, same] using ready.resolve_left same

theorem WhcRun.acked_isr (s : WhcRun T) (ch : Fin whcCh) : (s.acked ch).isr = s.isr := by
  unfold WhcRun.acked
  split_ifs <;> rfl

theorem WhcRun.Ok.ackAll (ok : s.Ok c) (idle : s.isr = .idle) :
    s.ackAll.Ok c ∧ ∀ ch, (s.ackAll.chan ch).txReady = true := by
  have all : ∀ (chs : List (Fin whcCh)) (t : WhcRun T), t.Ok c → t.isr = .idle →
      (chs.foldl WhcRun.acked t).Ok c ∧ ∀ ch, ch ∈ chs ∨ (t.chan ch).txReady = true →
        ((chs.foldl WhcRun.acked t).chan ch).txReady = true := by
    intro chs
    induction chs with
    | nil => exact fun t here _ => ⟨here, fun ch ready => ready.resolve_left (by simp)⟩
    | cons first chs ih =>
      intro t here quiet
      have next : (t.acked first).Ok c := here.acked fun _ _ => by
        unfold WhcRun.served
        rw [quiet]
      obtain ⟨last, ready⟩ := ih (t.acked first) next ((t.acked_isr first).trans quiet)
      refine ⟨last, ?_⟩
      intro ch known
      apply ready
      rcases known with member | before
      · rcases List.mem_cons.mp member with rfl | later
        · exact .inr (t.acked_txReady ch ch (.inl rfl))
        · exact .inl later
      · exact .inr (t.acked_txReady first ch (.inr before))
  obtain ⟨last, ready⟩ := all (List.finRange whcCh) s ok idle
  exact ⟨last, fun ch => ready ch (.inl (List.mem_finRange ch))⟩

theorem WhcRun.Ok.notifies (ok : s.Ok c) : s.Notifies c := by
  intro n m first second
  obtain ⟨idle, -⟩ := WhcRun.idle_of_rank (WhcRun.settled c first s)
  obtain ⟨acked, ready⟩ := (ok.steps n).ackAll idle
  obtain ⟨last, clear⟩ := WhcRun.idle_of_rank
    (WhcRun.settled c second ((fun s : WhcRun T => s.isrStep c)^[n] s).ackAll)
  have kept := acked.steps m
  have none : ∀ bit, WhcRun.ahead
      ((fun s : WhcRun T => s.isrStep c)^[m] ((fun s : WhcRun T => s.isrStep c)^[n] s).ackAll) bit =
        false := by
    intro bit
    simp [WhcRun.ahead, last, clear]
  refine ⟨kept.wrong, fun ch => ⟨?_, ?_⟩⟩
  · cases set : c.txComplete ch with
    | false => exact kept.unset ch set
    | true =>
      rcases kept.tx ch set with ⟨empty, -⟩ | ⟨buffer, -, -, -, -, unacked⟩
      · exact empty
      · rw [none, WhcRun.steps_txReady, ready] at unacked
        cases unacked
  · by_contra some
    have due := (kept.rx ch (Bool.eq_true_of_not_eq_false some)).2
    rw [none] at due
    cases due

end Fate

end NuMakerMA35
