import NuMakerMA35.Runs
import NuMakerMA35.SpiPoll
import Mathlib.Tactic.Ring

namespace NuMakerMA35

namespace SpiPc

def sending : SpiPc → Bool
  | full | write => true
  | _ => false

def reading : SpiPc → Bool
  | empty .busy | empty .last | fetch _ | clear => true
  | _ => false

def tail : SpiPc → Bool
  | full | write | empty .loop | fetch .loop => false
  | _ => true

def quiet : SpiPc → Bool
  | last | empty .last | fetch .last | drain | clear | done => true
  | _ => false

end SpiPc

namespace SpiXfer

variable {x : SpiXfer} {s : SpiPoll}

def written (x : SpiXfer) (s : SpiPoll) : SpiPoll :=
  { s with
    tx := s.tx ++ [if x.ReadOnly then 0 else x.wordAt s.mem s.send]
    send := if x.ReadOnly then s.send else s.send + x.bytes
    left := s.left - x.bytes }

def fetched (x : SpiXfer) (s : SpiPoll) : SpiPoll :=
  { s with
    mem := x.store s.mem s.recv (s.rx.headD 0)
    rx := s.rx.tail
    recv := s.recv + x.bytes }

inductive Goes (s : SpiPoll) : SpiPc → SpiPc → Prop
  | room : Goes s .full .write
  | nothing (caller : SpiReader) : s.rx = [] → Goes s (.empty caller) (s.returnTo caller)
  | found (caller : SpiReader) : s.rx ≠ [] → Goes s (.empty caller) (.fetch caller)
  | busy : s.isBusy = true → Goes s .busy .more
  | quiet : s.isBusy = false → Goes s .busy .last
  | again : s.rx = [] → Goes s .more .busy
  | more : s.rx ≠ [] → Goes s .more (.empty .busy)
  | read : s.rx = [] → Goes s .last .done
  | last : s.rx ≠ [] → Goes s .last (.empty .last)
  | idle : s.isBusy = false → Goes s .idle .drain
  | drained : s.rx = [] → Goes s .drain .done
  | clear : s.rx ≠ [] → Goes s .drain .clear

inductive Turn (x : SpiXfer) (s : SpiPoll) : SpiPoll → Prop
  | full : s.pc = .full → s.tx.length = x.depth → Turn x s s
  | busy : s.pc = .idle → s.isBusy = true → Turn x s s
  | done : s.pc = .done → Turn x s s
  | test {pc : SpiPc} : Goes s s.pc pc → Turn x s { s with pc := pc }
  | write : s.pc = .write → Turn x s { x.written s with
      pc := if x.WriteOnly then (x.written s).loopHead else .empty .loop }
  | fetch (caller : SpiReader) : s.pc = .fetch caller →
      Turn x s { x.fetched s with pc := (x.fetched s).returnTo caller }
  | clear : s.pc = .clear → Turn x s { s with rx := [], pc := .drain }

theorem threadStep_turn (x : SpiXfer) (s : SpiPoll) : x.Turn s (x.threadStep s) := by
  unfold threadStep
  split
  next pc =>
    split_ifs with full
    · exact .full pc full
    · exact .test (pc ▸ .room)
  next pc => exact .write pc
  next caller pc =>
    refine .test (pc ▸ ?_)
    split_ifs with none
    · exact .nothing caller (List.isEmpty_iff.mp none)
    · exact .found caller (by simpa using none)
  next caller pc => exact .fetch caller pc
  next pc =>
    refine .test (pc ▸ ?_)
    split_ifs with busy
    · exact .busy busy
    · exact .quiet (Bool.eq_false_iff.mpr busy)
  next pc =>
    refine .test (pc ▸ ?_)
    split_ifs with none
    · exact .again (List.isEmpty_iff.mp none)
    · exact .more (by simpa using none)
  next pc =>
    refine .test (pc ▸ ?_)
    split_ifs with none
    · exact .read (List.isEmpty_iff.mp none)
    · exact .last (by simpa using none)
  next pc =>
    split_ifs with busy
    · exact .busy pc busy
    · exact .test (pc ▸ .idle (Bool.eq_false_iff.mpr busy))
  next pc =>
    refine .test (pc ▸ ?_)
    split_ifs with none
    · exact .drained (List.isEmpty_iff.mp none)
    · exact .clear (by simpa using none)
  next pc => exact .clear pc
  next pc => exact .done pc

structure Ctl (x : SpiXfer) (s : SpiPoll) : Prop where
  whole : x.bytes ∣ s.left
  sending : s.pc.sending = true → 0 < s.left
  reading : s.pc.reading = true → s.rx ≠ []
  tail : s.pc.tail = true → s.left = 0
  quiet : s.pc.quiet = true → s.isBusy = false
  done : s.pc = .done → s.rx = []

theorem Ctl.of_head (whole : x.bytes ∣ s.left) (head : s.pc = s.loopHead) : x.Ctl s := by
  unfold SpiPoll.loopHead at head
  by_cases more : 0 < s.left
  · rw [if_pos more] at head
    exact ⟨whole, fun _ => more, by simp [head, SpiPc.reading], by simp [head, SpiPc.tail],
      by simp [head, SpiPc.quiet], by simp [head]⟩
  · rw [if_neg more] at head
    have none : s.left = 0 := by omega
    split_ifs at head
    · exact ⟨whole, by simp [head, SpiPc.sending], by simp [head, SpiPc.reading], fun _ => none,
        by simp [head, SpiPc.quiet], by simp [head]⟩
    · exact ⟨whole, by simp [head, SpiPc.sending], by simp [head, SpiPc.reading], fun _ => none,
        by simp [head, SpiPc.quiet], by simp [head]⟩

theorem start_ctl (x : SpiXfer) (mem : Words.Mem) : x.Ctl (x.start mem) :=
  Ctl.of_head (Nat.dvd_mul_right _ _) rfl

theorem Ctl.bytes_le (ctl : x.Ctl s) (sending : s.pc.sending = true) : x.bytes ≤ s.left :=
  Nat.le_of_dvd (ctl.sending sending) ctl.whole

theorem Ctl.test (ctl : x.Ctl s) {pc : SpiPc} (goes : Goes s s.pc pc) : x.Ctl { s with pc := pc } := by
  obtain ⟨whole, sending, reading, tail, quiet, done⟩ := ctl
  generalize s.pc = old at *
  cases goes with
  | room => exact ⟨whole, fun _ => sending rfl, nofun, nofun, nofun, nofun⟩
  | nothing caller none =>
    cases caller with
    | loop => exact Ctl.of_head whole rfl
    | busy => exact absurd none (reading rfl)
    | last => exact absurd none (reading rfl)
  | found caller some =>
    refine ⟨whole, nofun, fun _ => some, fun here => tail ?_, fun here => quiet ?_, nofun⟩
    · cases caller <;> exact here
    · cases caller <;> exact here
  | busy _ => exact ⟨whole, nofun, nofun, fun _ => tail rfl, nofun, nofun⟩
  | quiet idle => exact ⟨whole, nofun, nofun, fun _ => tail rfl, fun _ => idle, nofun⟩
  | again _ => exact ⟨whole, nofun, nofun, fun _ => tail rfl, nofun, nofun⟩
  | more some => exact ⟨whole, nofun, fun _ => some, fun _ => tail rfl, nofun, nofun⟩
  | read none => exact ⟨whole, nofun, nofun, fun _ => tail rfl, fun _ => quiet rfl, fun _ => none⟩
  | last some => exact ⟨whole, nofun, fun _ => some, fun _ => tail rfl, fun _ => quiet rfl, nofun⟩
  | idle idle => exact ⟨whole, nofun, nofun, fun _ => tail rfl, fun _ => idle, nofun⟩
  | drained none => exact ⟨whole, nofun, nofun, fun _ => tail rfl, fun _ => quiet rfl, fun _ => none⟩
  | clear some => exact ⟨whole, nofun, fun _ => some, fun _ => tail rfl, fun _ => quiet rfl, nofun⟩

theorem Ctl.turn (ctl : x.Ctl s) {t : SpiPoll} (turn : x.Turn s t) : x.Ctl t := by
  cases turn with
  | full _ _ => exact ctl
  | busy _ _ => exact ctl
  | done _ => exact ctl
  | test goes => exact ctl.test goes
  | write pc =>
    have less : x.bytes ∣ (x.written s).left := Nat.dvd_sub ctl.whole (Nat.dvd_refl _)
    split_ifs
    · exact Ctl.of_head less rfl
    · exact ⟨less, nofun, nofun, nofun, nofun, nofun⟩
  | fetch caller pc =>
    obtain ⟨whole, -, -, tail, quiet, -⟩ := ctl
    rw [pc] at tail quiet
    cases caller with
    | loop => exact Ctl.of_head whole rfl
    | busy => exact ⟨whole, nofun, nofun, fun _ => tail rfl, nofun, nofun⟩
    | last => exact ⟨whole, nofun, nofun, fun _ => tail rfl, fun _ => quiet rfl, nofun⟩
  | clear pc =>
    obtain ⟨whole, -, -, tail, quiet, -⟩ := ctl
    rw [pc] at tail quiet
    exact ⟨whole, nofun, nofun, fun _ => tail rfl, fun _ => quiet rfl, nofun⟩

theorem isBusy_eq_false : s.isBusy = false ↔ s.tx = [] ∧ s.shift = none := by
  simp [SpiPoll.isBusy]

theorem loadStep_cases (s : SpiPoll) :
    (∃ word tx, s.shift = none ∧ s.tx = word :: tx ∧
        loadStep s = { s with tx := tx, shift := some word }) ∨
      (s.shift ≠ none ∨ s.tx = []) ∧ loadStep s = s := by
  unfold loadStep
  cases shift : s.shift with
  | none =>
    cases first : s.tx with
    | nil => exact .inr ⟨.inr rfl, rfl⟩
    | cons word tx => exact .inl ⟨word, tx, rfl, rfl, rfl⟩
  | some word => exact .inr ⟨.inl nofun, rfl⟩

theorem finishStep_cases (val : U32) (s : SpiPoll) :
    (∃ word, s.shift = some word ∧ x.finishStep val s = { s with
        shift := none
        out := s.out ++ [word]
        inn := s.inn ++ [val]
        rx := if s.rx.length < x.depth then s.rx ++ [val] else s.rx
        dropped := if s.rx.length < x.depth then s.dropped else s.dropped + 1 }) ∨
      s.shift = none ∧ x.finishStep val s = s := by
  unfold finishStep
  cases shift : s.shift with
  | none => exact .inr ⟨rfl, rfl⟩
  | some word =>
    refine .inl ⟨word, rfl, ?_⟩
    by_cases room : s.rx.length < x.depth
    · simp [room]
    · simp [room]

theorem Ctl.load (ctl : x.Ctl s) : x.Ctl (loadStep s) := by
  rcases loadStep_cases s with ⟨word, tx, free, first, eq⟩ | ⟨-, eq⟩
  · rw [eq]
    refine ⟨ctl.whole, ctl.sending, ctl.reading, ctl.tail, ?_, ctl.done⟩
    intro quiet
    have empty := (isBusy_eq_false.mp (ctl.quiet quiet)).1
    rw [first] at empty
    cases empty
  · rw [eq]
    exact ctl

theorem Ctl.finish (ctl : x.Ctl s) (val : U32) : x.Ctl (x.finishStep val s) := by
  rcases finishStep_cases val s with ⟨word, shift, eq⟩ | ⟨-, eq⟩
  · have active (quiet : s.pc.quiet = true) : False := by
      have idle := (isBusy_eq_false.mp (ctl.quiet quiet)).2
      rw [shift] at idle
      cases idle
    rw [eq]
    refine ⟨ctl.whole, ctl.sending, ?_, ctl.tail, fun quiet => (active quiet).elim, ?_⟩
    · intro reading
      have some := ctl.reading reading
      dsimp only
      split_ifs
      · simp
      · exact some
    · intro done
      exact (active (done ▸ rfl)).elim
  · rw [eq]
    exact ctl

theorem Ctl.step (ctl : x.Ctl s) (e : SpiEvent) : x.Ctl (x.step s e) := by
  cases e with
  | thread => exact ctl.turn (threadStep_turn x s)
  | load => exact ctl.load
  | finish val => exact ctl.finish val

/-- What is still to be done: four steps for each word to be written, and three, two and one for those
in the transmit FIFO, the shift register and the receive FIFO. -/
def weight (s : SpiPoll) : Nat :=
  3 * s.tx.length + (if s.shift.isSome then 2 else 0) + s.rx.length

def work (x : SpiXfer) (s : SpiPoll) : Nat := 4 * s.left + x.bytes * weight s

/-- The turns of the thread until there is less to be done, unless it waits for the controller. -/
def turns (s : SpiPoll) : Nat :=
  match s.pc with
  | .full => 2
  | .write => 1
  | .empty .loop => 5
  | .empty _ => 2
  | .fetch _ => 1
  | .busy => 4
  | .more => if s.isBusy then 4 else 5
  | .last => 3
  | .idle => 3
  | .drain => 2
  | .clear => 1
  | .done => 0

def rank (x : SpiXfer) (s : SpiPoll) : Nat := 6 * x.work s + turns s

/-- Who brings the transfer on: the controller, if it is busy. -/
def helpful (s : SpiPoll) : SpiActor :=
  if s.shift.isSome then .finish else if s.tx.isEmpty then .thread else .load

theorem turns_le (s : SpiPoll) : turns s ≤ 5 := by
  unfold turns
  split
  all_goals first | omega | (split_ifs <;> omega)

theorem head_turns (head : s.pc = s.loopHead) : turns s ≤ 4 := by
  unfold turns
  rw [head, SpiPoll.loopHead]
  split_ifs <;> simp

theorem work_lt {t : SpiPoll} (left : t.left = s.left) (less : weight t < weight s) :
    x.work t < x.work s := by
  unfold work
  rw [left]
  exact Nat.add_lt_add_left (Nat.mul_lt_mul_of_pos_left less x.bytes_pos) _

theorem rank_lt_of_work {t : SpiPoll} (less : x.work t < x.work s) : x.rank t < x.rank s := by
  have few := turns_le t
  unfold rank
  omega

theorem Ctl.turns_test (ctl : x.Ctl s) {pc : SpiPc} (goes : Goes s s.pc pc) :
    turns { s with pc := pc } ≤ turns s ∧ (s.isBusy = false → turns { s with pc := pc } < turns s) := by
  have reading := ctl.reading
  generalize here : s.pc = old at goes reading
  cases goes with
  | room => simp [turns, here]
  | nothing caller none =>
    cases caller with
    | loop =>
      have few : turns { s with pc := s.returnTo .loop } ≤ 4 := head_turns rfl
      have before : turns s = 5 := by simp [turns, here]
      exact ⟨by omega, fun _ => by omega⟩
    | busy => exact absurd none (reading rfl)
    | last => exact absurd none (reading rfl)
  | found caller _ => cases caller <;> simp [turns, here]
  | busy busy =>
    have after : turns { s with pc := .more } = 4 := if_pos busy
    have before : turns s = 4 := by simp [turns, here]
    exact ⟨by omega, fun idle => absurd (busy.symm.trans idle) nofun⟩
  | quiet _ => simp [turns, here]
  | again _ => cases busy : s.isBusy <;> simp [turns, here, busy]
  | more _ => cases busy : s.isBusy <;> simp [turns, here, busy]
  | read _ => simp [turns, here]
  | last _ => simp [turns, here]
  | idle _ => simp [turns, here]
  | drained _ => simp [turns, here]
  | clear _ => simp [turns, here]

/-- A turn of the thread: there is less to do; or the queue and the shift register are as before, and
it is nearer to doing something, unless it waits. -/
theorem Ctl.turn_cases (ctl : x.Ctl s) {t : SpiPoll} (turn : x.Turn s t) : x.work t < x.work s ∨
    t.tx = s.tx ∧ t.shift = s.shift ∧ x.work t = x.work s ∧ turns t ≤ turns s ∧
      (s.isBusy = false → s.pc ≠ .done → turns t < turns s) := by
  cases turn with
  | full _ full =>
    refine .inr ⟨rfl, rfl, rfl, le_rfl, fun idle => ?_⟩
    rw [(isBusy_eq_false.mp idle).1, List.length_nil] at full
    exact absurd full x.depth_pos.ne
  | busy _ busy =>
    exact .inr ⟨rfl, rfl, rfl, le_rfl, fun idle => absurd (busy.symm.trans idle) nofun⟩
  | done pc => exact .inr ⟨rfl, rfl, rfl, le_rfl, fun _ going => absurd pc going⟩
  | test goes =>
    obtain ⟨few, nearer⟩ := ctl.turns_test goes
    exact .inr ⟨rfl, rfl, rfl, few, fun idle _ => nearer idle⟩
  | write pc =>
    have bytes := ctl.bytes_le (pc ▸ rfl)
    have positive := x.bytes_pos
    refine .inl ?_
    unfold work weight written
    dsimp only
    rw [List.length_append, List.length_singleton]
    generalize (if s.shift.isSome then 2 else 0) = shifted
    have more : x.bytes * (3 * (s.tx.length + 1) + shifted + s.rx.length) =
        x.bytes * (3 * s.tx.length + shifted + s.rx.length) + 3 * x.bytes := by ring
    omega
  | fetch caller pc =>
    have some := List.length_pos_iff.mpr (ctl.reading (pc ▸ rfl))
    refine .inl (work_lt rfl ?_)
    unfold weight fetched
    dsimp only
    rw [List.length_tail]
    omega
  | clear pc =>
    have some := List.length_pos_iff.mpr (ctl.reading (pc ▸ rfl))
    refine .inl (work_lt rfl ?_)
    unfold weight
    dsimp only
    rw [List.length_nil]
    omega

theorem load_turn (s : SpiPoll) : x.work (loadStep s) < x.work s ∨
    loadStep s = s ∧ helpful s ≠ .load := by
  rcases loadStep_cases s with ⟨word, tx, free, first, eq⟩ | ⟨none, eq⟩
  · refine .inl (eq ▸ work_lt rfl ?_)
    unfold weight
    dsimp only
    rw [free, first, List.length_cons, Option.isSome_none, Option.isSome_some,
      if_neg Bool.false_ne_true, if_pos rfl]
    omega
  · refine .inr ⟨eq, ?_⟩
    unfold helpful
    rcases none with busy | empty
    · rw [if_pos (Option.isSome_iff_ne_none.mpr busy)]
      decide
    · rw [empty]
      split_ifs <;> first | decide | contradiction

theorem finish_turn (val : U32) (s : SpiPoll) : x.work (x.finishStep val s) < x.work s ∨
    x.finishStep val s = s ∧ helpful s ≠ .finish := by
  rcases finishStep_cases val s with ⟨word, shift, eq⟩ | ⟨none, eq⟩
  · refine .inl (eq ▸ work_lt rfl ?_)
    unfold weight
    dsimp only
    rw [shift, Option.isSome_none, Option.isSome_some, if_neg Bool.false_ne_true, if_pos rfl]
    split_ifs
    · rw [List.length_append, List.length_singleton]
      omega
    · omega
  · refine .inr ⟨eq, ?_⟩
    unfold helpful
    rw [none]
    split_ifs <;> first | decide | contradiction

theorem Ctl.rank_step (ctl : x.Ctl s) (e : SpiEvent) : x.rank (x.step s e) ≤ x.rank s ∧
    (s.pc ≠ .done → e.actor = helpful s → x.rank (x.step s e) < x.rank s) ∧
    (x.rank (x.step s e) = x.rank s → helpful (x.step s e) = helpful s) := by
  have less {t : SpiPoll} (less : x.work t < x.work s) : x.rank t ≤ x.rank s ∧
      (s.pc ≠ .done → e.actor = helpful s → x.rank t < x.rank s) ∧
      (x.rank t = x.rank s → helpful t = helpful s) := by
    have lower := rank_lt_of_work less
    exact ⟨lower.le, fun _ _ => lower, fun same => absurd same lower.ne⟩
  cases e with
  | thread =>
    rcases ctl.turn_cases (threadStep_turn x s) with lower | ⟨tx, shift, work, few, nearer⟩
    · exact less lower
    · have le : x.rank (x.threadStep s) ≤ x.rank s := by
        unfold rank
        omega
      refine ⟨le, ?_, ?_⟩
      · intro going acts
        have idle : s.isBusy = false := by
          rw [isBusy_eq_false]
          unfold helpful at acts
          split_ifs at acts with shifting empty
          · cases acts
          · exact ⟨by simpa using empty, by simpa using shifting⟩
          · cases acts
        have closer := nearer idle going
        show x.rank (x.threadStep s) < x.rank s
        unfold rank
        omega
      · intro _
        show helpful (x.threadStep s) = helpful s
        unfold helpful
        rw [tx, shift]
  | load =>
    rcases load_turn s with lower | ⟨same, other⟩
    · exact less lower
    · show x.rank (loadStep s) ≤ x.rank s ∧
        (s.pc ≠ .done → SpiActor.load = helpful s → x.rank (loadStep s) < x.rank s) ∧
        (x.rank (loadStep s) = x.rank s → helpful (loadStep s) = helpful s)
      rw [same]
      exact ⟨le_rfl, fun _ acts => absurd acts.symm other, fun _ => rfl⟩
  | finish val =>
    rcases finish_turn val s with lower | ⟨same, other⟩
    · exact less lower
    · show x.rank (x.finishStep val s) ≤ x.rank s ∧
        (s.pc ≠ .done → SpiActor.finish = helpful s → x.rank (x.finishStep val s) < x.rank s) ∧
        (x.rank (x.finishStep val s) = x.rank s → helpful (x.finishStep val s) = helpful s)
      rw [same]
      exact ⟨le_rfl, fun _ acts => absurd acts.symm other, fun _ => rfl⟩

theorem returns (x : SpiXfer) (mem : Words.Mem) {events : Nat → SpiEvent}
    (fair : ∀ actor n, ∃ m, n ≤ m ∧ (events m).actor = actor) :
    ∃ n, (x.run mem ((List.range n).map events)).pc = .done :=
  Runs.reaches_of_fair x.Ctl (fun s => s.pc = .done) x.rank SpiEvent.actor helpful
    (fun _ e ctl => ctl.step e) (fun _ e ctl => (ctl.rank_step e).1)
    (fun _ e ctl => (ctl.rank_step e).2.1) (fun _ e ctl => (ctl.rank_step e).2.2) fair
    (start_ctl x mem)

end SpiXfer

end NuMakerMA35
