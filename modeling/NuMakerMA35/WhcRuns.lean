import NuMakerMA35.WhcLost

namespace NuMakerMA35

variable {T : Type}

/-- What a step must find so that every write and message still gets its callback. -/
def WhcRun.Meets (c : WhcCfg) (s : WhcRun T) : WhcEvent T → Prop
  | .run t =>
    match s.pc t with
    -- the pointer is set before `WHC_Send` tells whether the write is accepted
    | .setBuf ch buffer => ∀ pending ∈ s.sent ch, pending = buffer
    -- and reset after a callback, which may be that of the write before
    | .transmit ch buffer =>
      c.txComplete ch = true →
        s.sent ch = [] ∧ (s.chan ch).pvTxBuf = buffer ∧ buffer ≠ 0 ∧ s.calling (whcTxBit ch) = false
    | _ => True
  -- the flag is cleared after its callback
  | .message ch =>
    c.rxIndicate ch = true → (s.chan ch).rxReady = false → s.served (whcRxBit ch) = false
  | .ack ch =>
    c.txComplete ch = true → (s.chan ch).txReady = false → s.served (whcTxBit ch) = false
  | _ => True

section Calls

variable {c : WhcCfg} {s s' : WhcRun T} {ch : Fin whcCh}

theorem WhcRun.Ok.sent_le_one (ok : s.Ok c) (ch : Fin whcCh) :
    s.sent ch = [] ∨ ∃ buffer, s.sent ch = [buffer] ∧ (s.chan ch).pvTxBuf = buffer := by
  cases set : c.txComplete ch with
  | false => exact .inl (ok.unset ch set)
  | true =>
    rcases ok.tx ch set with ⟨none, -⟩ | ⟨buffer, one, pointer, -⟩
    · exact .inl none
    · exact .inr ⟨buffer, one, pointer⟩

theorem WhcRun.TxOk.transfer (ok : s.TxOk ch) (sent : s'.sent ch = s.sent ch)
    (pointer : (s'.chan ch).pvTxBuf = (s.chan ch).pvTxBuf)
    (ready : (s'.chan ch).txReady = (s.chan ch).txReady)
    (isr : s'.isr = s.isr) (ahead : s'.ahead (whcTxBit ch) = s.ahead (whcTxBit ch)) :
    s'.TxOk ch := by
  have calling : s'.calling (whcTxBit ch) = s.calling (whcTxBit ch) := by
    unfold WhcRun.calling
    rw [isr]
  unfold WhcRun.TxOk at ok ⊢
  rw [sent, pointer, ready, ahead, calling]
  exact ok

theorem WhcRun.Ok.call (ok : s.Ok c) (wrong : s'.wrong = false) (isr : s'.isr = s.isr)
    (intsts : s'.intsts = s.intsts) (unseen : s'.unseen = s.unseen)
    (kept : ∀ t ch buffer changed, s'.pc t = .send ch buffer changed → changed = false)
    (tx : ∀ ch, c.txComplete ch = true → s'.TxOk ch)
    (unset : ∀ ch, c.txComplete ch = false → s'.sent ch = []) : s'.Ok c where
  wrong := wrong
  kept := kept
  tx := tx
  unset := unset
  rx := by
    intro ch here
    rw [unseen] at here
    have same : s'.ahead (whcRxBit ch) = s.ahead (whcRxBit ch) := by
      unfold WhcRun.ahead
      rw [isr, intsts]
    rw [same]
    exact ok.rx ch here

variable [DecidableEq T]

theorem WhcRun.Ok.kept_update (ok : s.Ok c) (t : T) (pc : WhcPc)
    (unchanged : ∀ ch buffer changed, pc = .send ch buffer changed → changed = false) :
    ∀ other ch buffer changed, Function.update s.pc t pc other = .send ch buffer changed →
      changed = false := by
  intro other ch buffer changed at_send
  by_cases same : other = t
  · subst same
    rw [Function.update_self] at at_send
    exact unchanged ch buffer changed at_send
  · rw [Function.update_of_ne same] at at_send
    exact ok.kept other ch buffer changed at_send

theorem WhcRun.Ok.setPc (ok : s.Ok c) (t : T) (pc : WhcPc)
    (unchanged : ∀ ch buffer changed, pc = .send ch buffer changed → changed = false) :
    (s.setPc t pc).Ok c :=
  ok.call ok.wrong rfl rfl rfl (ok.kept_update t pc unchanged) ok.tx ok.unset

theorem WhcRun.Ok.setBuf (ok : s.Ok c) (t : T) (buffer : U32)
    (mine : ∀ pending ∈ s.sent ch, pending = buffer) :
    ((s.setChan ch { s.chan ch with pvTxBuf := buffer }).setPc t
      (.send ch buffer (decide (s.sent ch ≠ [] ∧ (s.chan ch).pvTxBuf ≠ buffer)))).Ok c := by
  refine ok.call ok.wrong rfl rfl rfl (ok.kept_update t _ ?_) ?_ ok.unset
  · rintro _ _ changed ⟨rfl, rfl, rfl⟩
    apply decide_eq_false
    rintro ⟨owed, other⟩
    rcases ok.sent_le_one ch with none | ⟨pending, one, pointer⟩
    · exact owed none
    · exact other (pointer.trans (mine pending (by rw [one]; exact List.mem_singleton_self _)))
  · intro other set
    by_cases same : other = ch
    · subst same
      rcases ok.tx other set with ⟨none, ready, behind⟩ | ⟨pending, one, -, some, quiet, ready⟩
      · refine .inl ⟨none, ?_, behind⟩
        rw [← ready]
        simp [WhcRun.setPc, WhcRun.setChan]
      · have mine := mine pending (by rw [one]; exact List.mem_singleton_self _)
        refine .inr ⟨pending, one, ?_, some, quiet, ?_⟩
        · simp [WhcRun.setPc, WhcRun.setChan, mine]
        · refine Eq.trans ?_ ready
          simp [WhcRun.setPc, WhcRun.setChan]
    · exact (ok.tx other set).transfer rfl (by simp [WhcRun.setPc, WhcRun.setChan, same])
        (by simp [WhcRun.setPc, WhcRun.setChan, same]) rfl rfl

theorem WhcRun.Ok.transmit (ok : s.Ok c) (t : T) (buffer : U32)
    (free : c.txComplete ch = true → s.sent ch = [] ∧ (s.chan ch).pvTxBuf = buffer ∧ buffer ≠ 0 ∧
      s.calling (whcTxBit ch) = false) (at_transmit : s.pc t = .transmit ch buffer) :
    (s.callStep c t).Ok c := by
  unfold WhcRun.callStep
  rw [at_transmit]
  refine ok.call ok.wrong rfl rfl rfl (ok.kept_update t _ (by simp)) ?_ ?_
  · intro other set
    by_cases same : other = ch
    · subst same
      obtain ⟨none, pointer, some, quiet⟩ := free set
      have behind : s.ahead (whcTxBit other) = false := by
        rcases ok.tx other set with ⟨-, -, behind⟩ | ⟨pending, one, -⟩
        · exact behind
        · rw [none] at one
          cases one
      refine .inr ⟨buffer, ?_, ?_, some, quiet, ?_⟩
      · simp [set, none]
      · simpa [WhcRun.setPc, WhcRun.setChan] using pointer
      · refine Eq.trans ?_ behind.symm
        simp [WhcRun.setPc, WhcRun.setChan]
    · refine (ok.tx other set).transfer ?_ (by simp [WhcRun.setPc, WhcRun.setChan, same])
        (by simp [WhcRun.setPc, WhcRun.setChan, same]) rfl rfl
      dsimp only
      split_ifs
      · rw [Function.update_of_ne same]
      · rfl
  · intro other off
    dsimp only
    split_ifs with set
    · rw [Function.update_of_ne]
      · exact ok.unset other off
      · rintro rfl
        rw [set] at off
        cases off
    · exact ok.unset other off

theorem WhcRun.Ok.callStep (ok : s.Ok c) (t : T) (meets : s.Meets c (.run t)) :
    (s.callStep c t).Ok c := by
  cases pc : s.pc t with
  | transmit ch buffer =>
    simp only [WhcRun.Meets, pc] at meets
    exact ok.transmit t buffer meets pc
  | setBuf ch buffer =>
    simp only [WhcRun.Meets, pc] at meets
    unfold WhcRun.callStep
    rw [pc]
    exact ok.setBuf t buffer meets
  | out =>
    unfold WhcRun.callStep
    rw [pc]
    exact ok
  | send ch buffer changed =>
    unfold WhcRun.callStep
    rw [pc]
    dsimp only
    split_ifs
    · exact ok.setPc t _ (by simp)
    · obtain rfl := ok.kept t ch buffer changed pc
      refine ok.call ?_ rfl rfl rfl (ok.kept_update t _ (by simp)) ok.tx ok.unset
      rw [ok.wrong, Bool.or_false]
  | recv ch =>
    unfold WhcRun.callStep
    rw [pc]
    apply ok.setPc
    intro _ _ _ at_send
    split_ifs at at_send
  | acknowledge ch =>
    unfold WhcRun.callStep
    rw [pc]
    refine ok.call ok.wrong rfl rfl rfl (ok.kept_update t _ (by simp)) ?_ ok.unset
    intro other set
    refine (ok.tx other set).transfer rfl ?_ ?_ rfl rfl
    · by_cases same : other = ch <;> simp [WhcRun.setPc, WhcRun.setChan, same]
    · by_cases same : other = ch <;> simp [WhcRun.setPc, WhcRun.setChan, same]

theorem WhcRun.Ok.callStep_lost (ok : s.Ok c) (t : T) (lost : ¬s.Meets c (.run t)) :
    (s.callStep c t).Doomed := by
  cases pc : s.pc t with
  | setBuf ch buffer =>
    simp only [WhcRun.Meets, pc] at lost
    push Not at lost
    obtain ⟨pending, owed, other⟩ := lost
    have one : s.sent ch = [pending] := by
      rcases ok.sent_le_one ch with none | ⟨first, one, -⟩
      · rw [none] at owed
        cases owed
      · rw [one] at owed
        rw [one, List.mem_singleton.mp owed]
    unfold WhcRun.callStep
    rw [pc]
    refine .inr (.inr ⟨ch, ?_, .inr (.inr (.inr (.inl ?_)))⟩)
    · simp [WhcRun.setPc, WhcRun.setChan, one]
    · simp [WhcRun.setPc, WhcRun.setChan, one, other]
  | transmit ch buffer =>
    simp only [WhcRun.Meets, pc, Classical.not_imp] at lost
    obtain ⟨set, lost⟩ := lost
    unfold WhcRun.callStep
    rw [pc]
    refine .inr (.inr ⟨ch, by simp [set], ?_⟩)
    rcases ok.sent_le_one ch with none | ⟨first, one, -⟩
    · by_cases pointer : (s.chan ch).pvTxBuf = buffer
      · by_cases null : buffer = 0
        · exact .inr (.inl (by simp [WhcRun.setPc, WhcRun.setChan, pointer, null]))
        · refine .inr (.inr (.inl ?_))
          by_contra quiet
          exact lost ⟨none, pointer, null, Bool.eq_false_of_not_eq_true quiet⟩
      · refine .inr (.inr (.inr (.inl ?_)))
        simp [WhcRun.setPc, WhcRun.setChan, set, none, Ne.symm pointer]
    · exact .inl (by simp [set, one])
  | out => exact absurd trivial (by simpa only [WhcRun.Meets, pc] using lost)
  | send => exact absurd trivial (by simpa only [WhcRun.Meets, pc] using lost)
  | recv => exact absurd trivial (by simpa only [WhcRun.Meets, pc] using lost)
  | acknowledge => exact absurd trivial (by simpa only [WhcRun.Meets, pc] using lost)

end Calls

section OtherCore

variable {c : WhcCfg} {s : WhcRun T} {ch : Fin whcCh}

theorem WhcRun.Ok.acked_lost (ok : s.Ok c) (set : c.txComplete ch = true)
    (unready : (s.chan ch).txReady = false) (served : s.served (whcTxBit ch) = true) :
    (s.acked ch).Doomed := by
  obtain ⟨-, sent, -, -, -⟩ := s.acked_same ch
  rcases ok.tx ch set with ⟨-, ready, -⟩ | ⟨buffer, one, -⟩
  · rw [unready] at ready
    cases ready
  · refine .inr (.inr ⟨ch, by simp [sent, one], .inr (.inr (.inr (.inr ⟨?_, ?_⟩)))⟩)
    · exact s.acked_txReady ch ch (.inl rfl)
    · rw [s.acked_ahead ch, if_pos ⟨unready, rfl⟩, served]
      rfl

variable [DecidableEq T]

theorem WhcRun.message_facts (c : WhcCfg) (s : WhcRun T) (ch : Fin whcCh)
    (empty : (s.chan ch).rxReady = false) :
    (s.step c (.message ch)).wrong = s.wrong ∧ (s.step c (.message ch)).pc = s.pc ∧
      (s.step c (.message ch)).sent = s.sent ∧
      (∀ other, ((s.step c (.message ch)).chan other).pvTxBuf = (s.chan other).pvTxBuf ∧
        ((s.step c (.message ch)).chan other).txReady = (s.chan other).txReady) ∧
      (s.step c (.message ch)).isr = s.isr ∧
      (s.step c (.message ch)).unseen =
        (if c.rxIndicate ch then Function.update s.unseen ch true else s.unseen) ∧
      ∀ bit, (s.step c (.message ch)).ahead bit =
        if bit = whcRxBit ch then !s.served bit else s.ahead bit := by
  have next : s.step c (.message ch) =
      { (s.setChan ch { s.chan ch with rxReady := true }).raise (whcRxBit ch) with
        unseen := if c.rxIndicate ch then Function.update s.unseen ch true else s.unseen } := by
    simp only [WhcRun.step, empty, Bool.false_eq_true, if_false]
  rw [next]
  refine ⟨rfl, rfl, rfl, fun other => ?_, rfl, rfl, fun bit => ?_⟩
  · by_cases same : other = ch <;> simp [WhcRun.raise, WhcRun.setChan, same]
  · have raised := (s.setChan ch { s.chan ch with rxReady := true }).raise_ahead (whcRxBit ch)
      whcRxBit_lt bit
    refine Eq.trans rfl (raised.trans ?_)
    split_ifs with same
    · rw [same]
      rfl
    · rfl

theorem WhcRun.Ok.message (ok : s.Ok c) (ch : Fin whcCh)
    (clear : c.rxIndicate ch = true → (s.chan ch).rxReady = false → s.served (whcRxBit ch) = false) :
    (s.step c (.message ch)).Ok c := by
  cases empty : (s.chan ch).rxReady with
  | true =>
    simp only [WhcRun.step, empty, if_true]
    exact ok
  | false =>
    obtain ⟨wrong, pc, sent, chan, isr, unseen, ahead⟩ := WhcRun.message_facts c s ch empty
    refine ⟨wrong.trans ok.wrong, by rw [pc]; exact ok.kept, ?_, by rw [sent]; exact ok.unset, ?_⟩
    · intro other set
      refine (ok.tx other set).transfer (by rw [sent]) (chan other).1 (chan other).2 isr ?_
      rw [ahead, if_neg whcTxBit_ne_rxBit]
    · intro other here
      rw [unseen] at here
      rw [ahead]
      by_cases same : other = ch
      · subst same
        rw [if_pos rfl]
        cases set : c.rxIndicate other with
        | true => simp [clear set empty]
        | false =>
          rw [set] at here
          have before := (ok.rx other here).1
          rw [set] at before
          cases before
      · rw [if_neg fun equal => same (whcRxBit_inj equal)]
        apply ok.rx other
        split_ifs at here
        · rwa [Function.update_of_ne same] at here
        · exact here

theorem WhcRun.message_lost (set : c.rxIndicate ch = true) (empty : (s.chan ch).rxReady = false)
    (served : s.served (whcRxBit ch) = true) : (s.step c (.message ch)).Doomed := by
  obtain ⟨-, -, -, -, -, unseen, ahead⟩ := WhcRun.message_facts c s ch empty
  refine .inr (.inl ⟨ch, ?_, ?_⟩)
  · rw [unseen, if_pos set, Function.update_self]
  · rw [ahead, if_pos rfl, served]
    rfl

end OtherCore

theorem WhcRun.start_ok (c : WhcCfg) : (WhcRun.start T).Ok c where
  wrong := rfl
  kept := by
    intro t ch buffer changed at_send
    cases at_send
  tx := fun ch _ => .inl ⟨rfl, rfl, by simp [WhcRun.ahead, WhcRun.start]⟩
  unset := fun _ _ => rfl
  rx := by
    intro ch here
    cases here

section Runs

variable {c : WhcCfg} {s : WhcRun T} [DecidableEq T]

theorem WhcRun.Ok.step (ok : s.Ok c) (e : WhcEvent T) (meets : s.Meets c e) : (s.step c e).Ok c := by
  cases e with
  | write t ch buffer size =>
    simp only [WhcRun.step]
    split_ifs
    · exact ok.setPc t _ (by simp)
    · exact ok
  | read t ch buffer size =>
    simp only [WhcRun.step]
    split_ifs
    · exact ok.setPc t _ (by simp)
    · exact ok
  | run t => exact ok.callStep t meets
  | message ch => exact ok.message ch meets
  | ack ch => exact ok.acked meets
  | isr => exact ok.isrStep

theorem WhcRun.Ok.step_lost (ok : s.Ok c) (e : WhcEvent T) (lost : ¬s.Meets c e) :
    (s.step c e).Doomed := by
  cases e with
  | write => exact absurd trivial lost
  | read => exact absurd trivial lost
  | run t => exact ok.callStep_lost t lost
  | message ch =>
    simp only [WhcRun.Meets, Classical.not_imp, Bool.not_eq_false] at lost
    exact WhcRun.message_lost lost.1 lost.2.1 lost.2.2
  | ack ch =>
    simp only [WhcRun.Meets, Classical.not_imp, Bool.not_eq_false] at lost
    exact ok.acked_lost lost.1 lost.2.1 lost.2.2
  | isr => exact absurd trivial lost

theorem whc_notifies_iff (c : WhcCfg) (es : List (WhcEvent T)) :
    (∀ pre, pre <+: es → (pre.foldl (WhcRun.step c) (WhcRun.start T)).Notifies c) ↔
      Runs.StepsMeet (WhcRun.step c) (WhcRun.Meets c) (WhcRun.start T) es := by
  apply Runs.prefixes_hold_iff (WhcRun.Ok c) (WhcRun.Notifies c)
  · exact fun s ok => ok.notifies
  · intro s e ok
    constructor
    · intro notifies
      by_contra lost
      exact (ok.step_lost e lost).not_notifies c notifies
    · exact fun meets => (ok.step e meets).notifies
  · exact fun s e ok meets => ok.step e meets
  · exact WhcRun.start_ok c

end Runs

def whcBothSet : WhcCfg := ⟨fun _ => true, fun _ => true⟩

/-- A write is accepted, and before the other core has read it a second one is tried and rejected. -/
def whcTwoWrites : List (WhcEvent Unit) :=
  let first : Fin whcCh := ⟨0, by decide⟩
  [.write () first 0x1000 16, .run (), .run (), .run (),
    .write () first 0x2000 16, .run (), .run ()]

theorem secondWrite_loses_first :
    ¬∀ pre, pre <+: whcTwoWrites →
      (pre.foldl (WhcRun.step whcBothSet) (WhcRun.start Unit)).Notifies whcBothSet := by
  intro notifies
  have doomed : (whcTwoWrites.foldl (WhcRun.step whcBothSet) (WhcRun.start Unit)).Doomed :=
    .inl (by decide)
  exact doomed.not_notifies whcBothSet (notifies whcTwoWrites (List.prefix_refl _))

end NuMakerMA35
