import NuMakerMA35.I2cMaster
import NuMakerMA35.Monitor

namespace NuMakerMA35

/-- Whether the status came that is expected, a refusal counting where it is to be ignored. -/
def i2cAnswered (ignoreNack : Bool) (ack nack : U32) : Option I2cAnswer → Bool
  | none => false
  | some a => a.status = ack || (ignoreNack && a.status = nack)

def i2cIgnores (msgs : List I2cMsg) (k : Nat) : Bool := (msgs[k]?.map (·.ignoreNack)).getD false

def I2cEvent.failed (msgs : List I2cMsg) : I2cEvent → Option Nat
  | .cmd .start a => if i2cAnswered false 0x08 0x08 a then none else some 0
  | .cmd (.restart k) a => if i2cAnswered false 0x10 0x10 a then none else some k
  | .cmd (.address k read _) a =>
    if i2cAnswered (i2cIgnores msgs k) (if read then 0x40 else 0x18) (if read then 0x48 else 0x20) a
    then none else some k
  | .cmd (.addressRestart k) a => if i2cAnswered false 0x10 0x10 a then none else some k
  | .cmd (.data k _ _) a =>
    if i2cAnswered (i2cIgnores msgs k) 0x28 0x30 a then none else some k
  | .cmd (.receive k _ aa) a =>
    if i2cAnswered false (if aa then 0x50 else 0x58) (if aa then 0x50 else 0x58) a then none
    else some k
  | .store _ _ _ => none
  | .stop _ => none

/-- The events that make the driver leave the loop over the messages when they fail: a START, a
repeated START, and an address, unless its message ignores a NACK. -/
def I2cEvent.leaves (msgs : List I2cMsg) : I2cEvent → Bool
  | .cmd .start _ => true
  | .cmd (.restart _) _ => true
  | .cmd (.address k _ _) _ => !i2cIgnores msgs k
  | .cmd (.addressRestart k) _ => !i2cIgnores msgs k
  | _ => false

def I2cEvent.Ends (msgs : List I2cMsg) (e : I2cEvent) : Prop :=
  (e.failed msgs).isSome = true ∧ e.leaves msgs = true

/-- A failure in message `k` that the driver goes on from. -/
def I2cEvent.Passed (msgs : List I2cMsg) (e : I2cEvent) (k : Nat) : Prop :=
  e.failed msgs = some k ∧ e.leaves msgs = false

def I2cEvent.moves (k pos : Nat) : I2cEvent → Bool
  | .cmd (.data j i _) _ | .cmd (.receive j i _) _ => j = k && i = pos
  | _ => false

/-- The result counts no message that failed. -/
def I2cBelow (msgs : List I2cMsg) (r : Nat) (log : List I2cEvent) : Prop :=
  r ≤ msgs.length ∧ ∀ e ∈ log, ∀ k, e.failed msgs = some k → r ≤ k

def I2cMoved (msgs : List I2cMsg) (log : List I2cEvent) : Prop :=
  ∀ k msg pos, msgs[k]? = some msg → pos < msg.len.toNat → ∃ e ∈ log, e.moves k pos = true

/-- The result counts no message that failed, and all of them only if none did and each byte of them
was moved. -/
def I2cCounts (msgs : List I2cMsg) (r : Nat) (log : List I2cEvent) : Prop :=
  I2cBelow msgs r log ∧ (r = msgs.length → I2cMoved msgs log)

/-- No failure is passed over; or the call ends with one that makes it return 0; or with a
repeated START that times out, not behind a message passed over. -/
def I2cSound (msgs : List I2cMsg) (log : List I2cEvent) : Prop :=
  (∀ e ∈ log, ∀ k, ¬e.Passed msgs k) ∨
  (∃ e ∈ log, e.Ends msgs ∧ ∀ k, e ≠ .cmd (.restart k) none) ∨
  ∃ k, .cmd (.restart k) none ∈ log ∧ ∀ e ∈ log, ∀ j, e.Passed msgs j → k ≤ j

def I2cEvent.left : I2cEvent → Nat
  | .cmd (.restart k) none => k
  | _ => 0

/-- Events about message `k` none of which ends the call. -/
def I2cGoesOn (msgs : List I2cMsg) (k : Nat) (new : List I2cEvent) : Prop :=
  ∀ e ∈ new, ¬e.Ends msgs ∧ ∀ j, e.failed msgs = some j → j = k

/-- Events about message `k` of which the last one ends the call. -/
def I2cStopsAt (msgs : List I2cMsg) (k r : Nat) (new : List I2cEvent) : Prop :=
  ∃ front e, new = front ++ [e] ∧ I2cGoesOn msgs k front ∧ e.Ends msgs ∧
    e.failed msgs = some k ∧ e.left = r

section Pieces

variable {bus : I2cBus} {msgs : List I2cMsg} {msg : I2cMsg} {k : Nat}

theorem I2cGoesOn.append {new more : List I2cEvent} (first : I2cGoesOn msgs k new)
    (second : I2cGoesOn msgs k more) : I2cGoesOn msgs k (new ++ more) := by
  intro e inside
  rcases List.mem_append.mp inside with early | late
  · exact first e early
  · exact second e late

theorem I2cStopsAt.after {r : Nat} {new more : List I2cEvent} (first : I2cGoesOn msgs k new)
    (second : I2cStopsAt msgs k r more) : I2cStopsAt msgs k r (new ++ more) := by
  obtain ⟨front, e, split, goes, ends, about, left⟩ := second
  exact ⟨new ++ front, e, by rw [split, List.append_assoc], first.append goes, ends, about, left⟩

theorem I2cGoesOn.nil : I2cGoesOn msgs k [] := by
  intro e inside
  cases inside

theorem I2cGoesOn.single {e : I2cEvent} (goes : ¬e.Ends msgs)
    (about : ∀ j, e.failed msgs = some j → j = k) : I2cGoesOn msgs k [e] := by
  intro d inside
  rw [List.mem_singleton.mp inside]
  exact ⟨goes, about⟩

theorem I2cStopsAt.single {r : Nat} {e : I2cEvent} (ends : e.Ends msgs)
    (about : e.failed msgs = some k) (left : e.left = r) : I2cStopsAt msgs k r [e] :=
  ⟨[], e, rfl, .nil, ends, about, left⟩

/-- What a piece of the address does: it goes on if it succeeds or its message ignores a NACK. -/
def AddressEnd (msgs : List I2cMsg) (k : Nat) (sent : Bool) (new : List I2cEvent) : Prop :=
  (i2cIgnores msgs k = true ∨ sent = true → I2cGoesOn msgs k new) ∧
    (i2cIgnores msgs k = false → sent = false → I2cStopsAt msgs k 0 new)

theorem ask_adds (c : I2cCmd) : Logged.Adds (fun a new => new = [.cmd c a]) (bus.ask c) :=
  fun log => ⟨bus.answer log c, _, rfl, rfl⟩

theorem store_adds (k pos : Nat) (b : BitVec 8) :
    Logged.Adds (fun _ new => new = [.store k pos b])
      (Logged.issue (.store k pos b) fun _ => () : I2c Unit) :=
  fun _ => ⟨(), _, rfl, rfl⟩

theorem AddressEnd.pure : AddressEnd msgs k true [] :=
  ⟨fun _ => .nil, fun _ unsent => by cases unsent⟩

theorem addressEnd_then {m m' : I2c Bool}
    (first : Logged.Adds (AddressEnd msgs k) m) (second : Logged.Adds (AddressEnd msgs k) m') :
    Logged.Adds (AddressEnd msgs k) (do if ← m then m' else pure false) := by
  refine first.bind ?_
  intro sent new ended
  cases sent with
  | false =>
    refine .pure ?_
    rw [List.append_nil]
    exact ⟨fun goes => ended.1 goes, ended.2⟩
  | true =>
    refine second.mono ?_
    intro sent' more ended'
    exact ⟨fun goes => (ended.1 (.inr rfl)).append (ended'.1 goes),
      fun strict unsent => (ended'.2 strict unsent).after (ended.1 (.inr rfl))⟩

theorem askAddress_adds {c : I2cCmd} {expected nack : U32} (lenient : Bool)
    (leaves : ∀ a, (I2cEvent.cmd c a).leaves msgs = !i2cIgnores msgs k)
    (failed : ∀ a, (I2cEvent.cmd c a).failed msgs =
      if i2cAnswered (lenient && i2cIgnores msgs k) expected nack a then none else some k)
    (left : ∀ a, (I2cEvent.cmd c a).left = 0) :
    Logged.Adds (AddressEnd msgs k) (bus.askAddress (i2cIgnores msgs k) expected c) := by
  have about (a : Option I2cAnswer) (j : Nat) (here : (I2cEvent.cmd c a).failed msgs = some j) :
      j = k := by
    rw [failed] at here
    split_ifs at here
    exact (Option.some.inj here).symm
  have goes (a : Option I2cAnswer)
      (fine : i2cIgnores msgs k = true ∨ (I2cEvent.cmd c a).failed msgs = none) :
      I2cGoesOn msgs k [.cmd c a] := by
    refine .single ?_ (about a)
    rintro ⟨fails, ends⟩
    rcases fine with ignored | answered
    · rw [leaves, ignored] at ends
      cases ends
    · rw [answered] at fails
      cases fails
  have stops (a : Option I2cAnswer) (strict : i2cIgnores msgs k = false)
      (unanswered : i2cAnswered (lenient && i2cIgnores msgs k) expected nack a = false) :
      I2cStopsAt msgs k 0 [.cmd c a] := by
    have fails : (I2cEvent.cmd c a).failed msgs = some k := by
      rw [failed, unanswered]
      rfl
    refine .single ⟨by rw [fails]; rfl, by rw [leaves, strict]; rfl⟩ fails (left a)
  refine (ask_adds c).bind ?_
  rintro a new rfl
  cases a with
  | none =>
    refine .pure ⟨fun fine => goes none ?_, fun strict _ => stops none strict rfl⟩
    exact .inl (fine.resolve_right (by decide))
  | some a =>
    refine .pure ⟨fun fine => goes (some a) ?_, fun strict unsent => stops (some a) strict ?_⟩
    · by_cases ignored : i2cIgnores msgs k = true
      · exact .inl ignored
      · right
        have same := fine.resolve_left ignored
        rw [Bool.not_eq_true] at ignored
        rw [ignored, Bool.or_false] at same
        rw [failed]
        simp [i2cAnswered, of_decide_eq_true same]
    · rw [strict, Bool.or_false] at unsent
      simp [i2cAnswered, strict, of_decide_eq_false unsent]

theorem sendAddress_adds (here : msgs[k]? = some msg) :
    Logged.Adds (AddressEnd msgs k) (bus.nuI2cSendAddress k msg) := by
  have ignores : msg.ignoreNack = i2cIgnores msgs k := by
    simp [i2cIgnores, here]
  have write (b : BitVec 8) : Logged.Adds (AddressEnd msgs k)
      (bus.askAddress msg.ignoreNack 0x18 (.address k false b)) := by
    rw [ignores]
    exact askAddress_adds true (fun _ => rfl) (fun _ => rfl) (fun _ => rfl)
  have read (b : BitVec 8) : Logged.Adds (AddressEnd msgs k)
      (bus.askAddress msg.ignoreNack 0x40 (.address k true b)) := by
    rw [ignores]
    exact askAddress_adds true (fun _ => rfl) (fun _ => rfl) (fun _ => rfl)
  have again : Logged.Adds (AddressEnd msgs k)
      (bus.askAddress msg.ignoreNack 0x10 (.addressRestart k)) := by
    rw [ignores]
    exact askAddress_adds false (fun _ => rfl) (fun _ => rfl) (fun _ => rfl)
  have done : Logged.Adds (AddressEnd msgs k) (pure true : I2c Bool) := .pure .pure
  unfold I2cBus.nuI2cSendAddress
  by_cases ten : msg.tenBit = true
  · rw [if_pos ten]
    refine addressEnd_then (write _) (addressEnd_then (write _) ?_)
    by_cases reads : msg.read = true
    · rw [if_pos reads]
      exact addressEnd_then again (read _)
    · rw [if_neg reads]
      exact done
  · rw [if_neg ten]
    dsimp only
    by_cases reads : msg.read = true
    · rw [if_pos reads]
      exact read _
    · rw [if_neg reads]
      exact write _

def StartEnd (msgs : List I2cMsg) (k : Nat) : Option Nat → List I2cEvent → Prop
  | none, new => I2cGoesOn msgs k new
  | some r, new => I2cStopsAt msgs k r new

theorem restart_adds (bus : I2cBus) (msgs : List I2cMsg) (k : Nat) :
    Logged.Adds (StartEnd msgs k) (bus.restartMsg k) := by
  have fails {a : Option I2cAnswer} (other : i2cAnswered false 0x10 0x10 a = false) :
      (I2cEvent.cmd (.restart k) a).failed msgs = some k := by
    show (if i2cAnswered false 0x10 0x10 a then none else some k) = some k
    rw [other]
    rfl
  have ends {a : Option I2cAnswer} (other : i2cAnswered false 0x10 0x10 a = false) :
      (I2cEvent.cmd (.restart k) a).Ends msgs := ⟨by rw [fails other]; rfl, rfl⟩
  unfold I2cBus.restartMsg
  by_cases first : k = 0
  · rw [if_pos first]
    exact .pure .nil
  rw [if_neg first]
  refine (ask_adds _).bind ?_
  rintro a new rfl
  cases a with
  | none => exact .pure (.single (ends rfl) (fails rfl) rfl)
  | some a =>
    dsimp only
    by_cases again : a.status = 0x10
    · rw [if_neg (not_not.mpr again)]
      have fine : (I2cEvent.cmd (.restart k) (some a)).failed msgs = none := by
        simp [I2cEvent.failed, i2cAnswered, again]
      refine .pure (.single (fun ends => ?_) fun j here => ?_)
      · rw [I2cEvent.Ends, fine] at ends
        cases ends.1
      · rw [fine] at here
        cases here
    · rw [if_pos again]
      have other : i2cAnswered false 0x10 0x10 (some a) = false := by
        simp only [i2cAnswered, again, decide_false, Bool.false_and, Bool.or_self]
      exact .pure (.single (ends other) (fails other) rfl)

theorem startMsg_adds (here : msgs[k]? = some msg) :
    Logged.Adds (StartEnd msgs k) (bus.startMsg k msg) := by
  have ignores : msg.ignoreNack = i2cIgnores msgs k := by
    simp [i2cIgnores, here]
  unfold I2cBus.startMsg
  by_cases silent : msg.noStart = true
  · rw [if_pos silent]
    exact .pure .nil
  rw [if_neg silent]
  refine (restart_adds bus msgs k).bind ?_
  intro started new ended
  cases started with
  | some r => exact .pure (by rwa [List.append_nil])
  | none =>
    refine (sendAddress_adds here).bind ?_
    intro sent more ended'
    rw [ignores]
    by_cases lost : sent = false ∧ i2cIgnores msgs k = false
    · rw [if_pos lost]
      refine .pure ?_
      rw [List.append_nil]
      exact (ended'.2 lost.2 lost.1).after ended
    · rw [if_neg lost]
      refine .pure ?_
      rw [List.append_nil]
      refine I2cGoesOn.append ended (ended'.1 ?_)
      cases sent with
      | true => exact .inr rfl
      | false => exact .inl (Bool.not_eq_false _ ▸ fun strict => lost ⟨rfl, strict⟩)

theorem byte_goes {c : I2cCmd} {ignoreNack : Bool} {ack nack : U32}
    (leaves : ∀ a, (I2cEvent.cmd c a).leaves msgs = false)
    (failed : ∀ a, (I2cEvent.cmd c a).failed msgs =
      if i2cAnswered ignoreNack ack nack a then none else some k) (a : Option I2cAnswer) :
    I2cGoesOn msgs k [.cmd c a] := by
  refine .single (fun ends => ?_) fun j here => ?_
  · rw [I2cEvent.Ends, leaves] at ends
    cases ends.2
  · rw [failed] at here
    split_ifs at here
    exact (Option.some.inj here).symm

/-- Each byte from `pos` on of message `k` was moved, or something failed. -/
def I2cCarries (msgs : List I2cMsg) (k pos n : Nat) (new : List I2cEvent) : Prop :=
  (∃ e ∈ new, (e.failed msgs).isSome = true) ∨
    ∀ i, pos ≤ i → i < pos + n → ∃ e ∈ new, e.moves k i = true

theorem I2cCarries.nil {pos : Nat} : I2cCarries msgs k pos 0 [] :=
  .inr fun i least most => absurd most (by omega)

theorem I2cCarries.failed {pos n : Nat} {e : I2cEvent} (fails : (e.failed msgs).isSome = true) :
    I2cCarries msgs k pos n [e] := .inl ⟨e, List.mem_singleton_self e, fails⟩

theorem I2cCarries.next {pos n : Nat} {new more : List I2cEvent}
    (rest : I2cCarries msgs k (pos + 1) n more) (first : ∃ e ∈ new, e.moves k pos = true) :
    I2cCarries msgs k pos (n + 1) (new ++ more) := by
  rcases rest with ⟨e, inside, fails⟩ | all
  · exact .inl ⟨e, List.mem_append_right new inside, fails⟩
  · refine .inr fun i least most => ?_
    by_cases here : i = pos
    · obtain ⟨e, inside, moves⟩ := first
      exact ⟨e, List.mem_append_left more inside, here ▸ moves⟩
    · obtain ⟨e, inside, moves⟩ := all i (by omega) (by omega)
      exact ⟨e, List.mem_append_right new inside, moves⟩

theorem receiveBytes_adds (n : Nat) : ∀ pos doRdNack,
    Logged.Adds (fun _ new => I2cGoesOn msgs k new ∧ I2cCarries msgs k pos n new)
      (bus.receiveBytes k msg n pos doRdNack) := by
  have one (pos : Nat) (aa : Bool) (a : Option I2cAnswer) :
      I2cGoesOn msgs k [.cmd (.receive k pos aa) a] :=
    byte_goes (fun _ => rfl) (fun _ => rfl) a
  have stored (pos : Nat) (b : BitVec 8) : I2cGoesOn msgs k [.store k pos b] :=
    .single (fun ends => by cases ends.2) fun j here => by cases here
  induction n with
  | zero => exact fun _ _ => .pure ⟨.nil, .nil⟩
  | succ n ih =>
    intro pos doRdNack
    unfold I2cBus.receiveBytes
    refine (ask_adds _).bind ?_
    rintro a new rfl
    cases a with
    | none => exact .pure ⟨one _ _ _, .failed rfl⟩
    | some a =>
      dsimp only
      by_cases refused : a.status ≠
          if doRdNack + (if pos + 1 = msg.len.toNat then 1 else 0) ≠ 2 then 0x50 else 0x58
      · rw [if_pos refused]
        refine .pure ⟨one _ _ _, .failed ?_⟩
        simpa [I2cEvent.failed, i2cAnswered] using refused
      · rw [if_neg refused]
        refine (store_adds k pos a.dat).bind ?_
        rintro _ new rfl
        refine (ih _ _).mono fun _ more rest => ?_
        exact ⟨(one _ _ _).append ((stored _ _).append rest.1),
          rest.2.next ⟨_, List.mem_cons_self, by simp [I2cEvent.moves]⟩⟩

theorem sendBytes_adds (here : msgs[k]? = some msg) (n : Nat) : ∀ pos,
    Logged.Adds (fun _ new => I2cGoesOn msgs k new ∧ I2cCarries msgs k pos n new)
      (bus.sendBytes k msg n pos) := by
  have strict : msg.ignoreNack = i2cIgnores msgs k := by
    simp [i2cIgnores, here]
  have one (pos : Nat) (b : BitVec 8) (a : Option I2cAnswer) :
      I2cGoesOn msgs k [.cmd (.data k pos b) a] :=
    byte_goes (fun _ => rfl) (fun _ => rfl) a
  induction n with
  | zero => exact fun _ => .pure ⟨.nil, .nil⟩
  | succ n ih =>
    intro pos
    unfold I2cBus.sendBytes
    refine (ask_adds _).bind ?_
    rintro a new rfl
    cases a with
    | none => exact .pure ⟨one _ _ _, .failed rfl⟩
    | some a =>
      dsimp only
      by_cases refused : a.status ≠ 0x28 ∧ msg.ignoreNack = false
      · rw [if_pos refused]
        refine .pure ⟨one _ _ _, .failed ?_⟩
        rw [strict] at refused
        simp [I2cEvent.failed, i2cAnswered, refused.2, show ¬a.status = 40#32 from refused.1]
      · rw [if_neg refused]
        exact (ih _).mono fun _ more rest => ⟨(one _ _ _).append rest.1,
          rest.2.next ⟨_, List.mem_cons_self, by simp [I2cEvent.moves]⟩⟩

theorem transferBytes_adds (bus : I2cBus) (num : Nat) (here : msgs[k]? = some msg) :
    Logged.Adds (fun _ new => I2cGoesOn msgs k new ∧ I2cCarries msgs k 0 msg.len.toNat new)
      (bus.transferBytes num k msg) := by
  unfold I2cBus.transferBytes
  by_cases reads : msg.read = true
  · rw [if_pos reads]
    exact receiveBytes_adds _ _ _
  · rw [if_neg reads]
    exact sendBytes_adds here _ _

end Pieces

def I2cRuns (msgs : List I2cMsg) (new : List I2cEvent) : Prop :=
  ∀ e ∈ new, ¬e.Ends msgs ∧ ∀ j, e.failed msgs = some j → j < msgs.length

/-- The loop over the messages is left at its end, or with a failure that ends the call. -/
def XferEnd (msgs : List I2cMsg) (r : Nat) (new : List I2cEvent) : Prop :=
  (r = msgs.length ∧ I2cRuns msgs new) ∨
    ∃ front e k, new = front ++ [e] ∧ I2cRuns msgs front ∧ e.Ends msgs ∧
      e.failed msgs = some k ∧ k < msgs.length ∧ e.left = r

theorem I2cRuns.append {msgs : List I2cMsg} {new more : List I2cEvent} (first : I2cRuns msgs new)
    (second : I2cRuns msgs more) : I2cRuns msgs (new ++ more) := by
  intro e inside
  rcases List.mem_append.mp inside with early | late
  · exact first e early
  · exact second e late

theorem I2cGoesOn.runs {msgs : List I2cMsg} {k : Nat} {new : List I2cEvent}
    (goes : I2cGoesOn msgs k new) (below : k < msgs.length) : I2cRuns msgs new :=
  fun e inside => ⟨(goes e inside).1, fun j here => (goes e inside).2 j here ▸ below⟩

theorem XferEnd.after {msgs : List I2cMsg} {r : Nat} {new more : List I2cEvent}
    (first : I2cRuns msgs new) (second : XferEnd msgs r more) : XferEnd msgs r (new ++ more) := by
  rcases second with ⟨all, runs⟩ | ⟨front, e, k, split, runs, rest⟩
  · exact .inl ⟨all, first.append runs⟩
  · exact .inr ⟨new ++ front, e, k, by rw [split, List.append_assoc], first.append runs, rest⟩

theorem XferEnd.below {msgs : List I2cMsg} {r j : Nat} {new : List I2cEvent} {e : I2cEvent}
    (ended : XferEnd msgs r new) (inside : e ∈ new) (failed : e.failed msgs = some j) :
    j < msgs.length := by
  rcases ended with ⟨-, runs⟩ | ⟨front, d, k, rfl, runs, -, about, below, -⟩
  · exact (runs e inside).2 j failed
  · rcases List.mem_append.mp inside with early | late
    · exact (runs e early).2 j failed
    · rw [List.mem_singleton.mp late, about] at failed
      exact Option.some.inj failed ▸ below

/-- Induction on the turns; a turn goes on with message `i + 1`, or with message 1. -/
theorem xferLoop_end {bus : I2cBus} {msgs : List I2cMsg} (fuel : Nat) : ∀ {i r : Nat}
    {log log' : List I2cEvent}, i ≤ msgs.length → bus.xferLoop msgs fuel i log = (.ok r, log') →
    ∃ new, log' = log ++ new ∧ XferEnd msgs r new ∧
      ((∃ e ∈ new, (e.failed msgs).isSome = true) ∨ ∀ k msg pos, i ≤ k → msgs[k]? = some msg →
        pos < msg.len.toNat → ∃ e ∈ new, e.moves k pos = true) := by
  induction fuel with
  | zero =>
    intro i r log log' _ run
    cases run
  | succ fuel ih =>
    intro i r log log' inside run
    unfold I2cBus.xferLoop at run
    cases here : msgs[i]? with
    | none =>
      rw [here] at run
      cases run
      have all : msgs.length ≤ i := List.getElem?_eq_none_iff.mp here
      refine ⟨[], by simp, .inl ⟨by omega, fun e none => by cases none⟩, .inr ?_⟩
      intro k msg pos least listed
      rw [List.getElem?_eq_none (Nat.le_trans all least)] at listed
      cases listed
    | some msg =>
      rw [here] at run
      dsimp only at run
      have below : i < msgs.length := (List.getElem?_eq_some_iff.mp here).1
      obtain ⟨started, mid, start, run⟩ := Logged.bind_ok_iff.mp run
      obtain ⟨new, rfl, ended⟩ := (startMsg_adds here).of_run start
      cases started with
      | some r' =>
        cases run
        obtain ⟨front, e, split, goes, ends, about, left⟩ := ended
        exact ⟨new, rfl, .inr ⟨front, e, i, split, goes.runs below, ends, about, below, left⟩,
          .inl ⟨e, by simp [split], ends.1⟩⟩
      | none =>
        obtain ⟨bytes, mid, transfer, run⟩ := Logged.bind_ok_iff.mp run
        obtain ⟨more, rfl, goes, carries⟩ := (transferBytes_adds bus _ here).of_run transfer
        have front : I2cRuns msgs (new ++ more) :=
          (I2cGoesOn.runs ended below).append (goes.runs below)
        obtain ⟨j, next, rest⟩ : ∃ j ≤ i + 1,
            bus.xferLoop msgs fuel j (log ++ new ++ more) = (.ok r, log') := by
          cases bytes with
          | refused => exact ⟨1, by omega, run⟩
          | _ => exact ⟨i + 1, Nat.le_refl _, run⟩
        obtain ⟨last, rfl, ended', after⟩ := ih (by omega) rest
        refine ⟨new ++ more ++ last, by simp, ended'.after front, ?_⟩
        rcases carries with ⟨e, inside, fails⟩ | all
        · exact .inl ⟨e, by simp [inside], fails⟩
        rcases after with ⟨e, inside, fails⟩ | later
        · exact .inl ⟨e, by simp [inside], fails⟩
        refine .inr fun k msg' pos least listed less => ?_
        by_cases same : k = i
        · subst same
          obtain rfl := Option.some.inj (here.symm.trans listed)
          obtain ⟨e, inside, moves⟩ := all pos (Nat.zero_le _) (by omega)
          exact ⟨e, by simp [inside], moves⟩
        · obtain ⟨e, inside, moves⟩ := later k msg' pos (by omega) listed less
          exact ⟨e, by simp [inside], moves⟩

def CallCounts (bus : I2cBus) (msgs : List I2cMsg) : Prop :=
  ∀ fuel r log, bus.nuI2cMstXfer msgs fuel [] = (.ok r, log) → I2cCounts msgs r log

def CallSound (bus : I2cBus) (msgs : List I2cMsg) : Prop :=
  ∀ fuel r log, bus.nuI2cMstXfer msgs fuel [] = (.ok r, log) → I2cSound msgs log

section Counts

variable {msgs : List I2cMsg} {log : List I2cEvent}

theorem ends_or_passed {e : I2cEvent} {k : Nat} (failed : e.failed msgs = some k) :
    e.Ends msgs ∨ e.Passed msgs k := by
  cases leaves : e.leaves msgs with
  | true => exact .inl ⟨by rw [failed]; rfl, leaves⟩
  | false => exact .inr ⟨failed, leaves⟩

theorem restart_timeout_ends (k : Nat) : (I2cEvent.cmd (.restart k) none).Ends msgs := ⟨rfl, rfl⟩

theorem left_eq_zero {e : I2cEvent} (other : ∀ k, e ≠ .cmd (.restart k) none) : e.left = 0 := by
  cases e with
  | cmd c a =>
    cases c with
    | restart k =>
      cases a with
      | none => exact absurd rfl (other k)
      | some a => rfl
    | _ => rfl
  | _ => rfl

theorem counts_all (quiet : ∀ e ∈ log, ¬e.Ends msgs)
    (below : ∀ e ∈ log, ∀ j, e.failed msgs = some j → j < msgs.length) :
    I2cBelow msgs msgs.length log ↔ I2cSound msgs log := by
  constructor
  · rintro ⟨-, counts⟩
    refine .inl fun e inside k passed => ?_
    have tooFar := counts e inside k passed.1
    have index := below e inside k passed.1
    omega
  · rintro (none | ⟨e, inside, ends, -⟩ | ⟨k, inside, -⟩)
    · refine ⟨Nat.le_refl _, fun e inside k failed => ?_⟩
      rcases ends_or_passed failed with ends | passed
      · exact absurd ends (quiet e inside)
      · exact absurd passed (none e inside k)
    · exact absurd ends (quiet e inside)
    · exact absurd (restart_timeout_ends k) (quiet _ inside)

theorem counts_ended {last : I2cEvent} {k : Nat} (inside : last ∈ log) (ends : last.Ends msgs)
    (only : ∀ e ∈ log, e.Ends msgs → e = last) (about : last.failed msgs = some k)
    (below : k < msgs.length) : I2cBelow msgs last.left log ↔ I2cSound msgs log := by
  by_cases other : ∀ k, last ≠ .cmd (.restart k) none
  · rw [left_eq_zero other]
    exact iff_of_true ⟨Nat.zero_le _, fun _ _ _ _ => Nat.zero_le _⟩
      (.inr (.inl ⟨last, inside, ends, other⟩))
  · obtain ⟨i, same⟩ := not_forall.mp other
    rw [not_not] at same
    subst same
    obtain rfl : i = k := Option.some.inj about
    constructor
    · rintro ⟨-, counts⟩
      exact .inr (.inr ⟨i, inside, fun e here j passed => counts e here j passed.1⟩)
    · intro sound
      refine ⟨below.le, fun e here j failed => ?_⟩
      rcases ends_or_passed failed with ended | passed
      · rw [only e here ended] at failed
        exact (Option.some.inj failed).le
      · rcases sound with none | ⟨e', here', ended, notTimeout⟩ | ⟨i', here', behind⟩
        · exact absurd passed (none e here j)
        · exact absurd (only e' here' ended) (notTimeout i)
        · have same := only _ here' (restart_timeout_ends i')
          cases same
          exact behind e here j passed

end Counts

theorem stopBus_run {bus : I2cBus} {log log' : List I2cEvent} {u : Unit}
    (run : bus.stopBus log = (.ok u, log')) : ∃ polls, log' = log ++ [.stop polls] := by
  unfold I2cBus.stopBus at run
  cases stops : bus.stops log with
  | none =>
    rw [stops] at run
    cases run
  | some answer =>
    rw [stops] at run
    dsimp only at run
    split_ifs at run
    · cases run
      exact ⟨_, rfl⟩
    · cases run

theorem I2cRuns.single {msgs : List I2cMsg} {e : I2cEvent} (fine : e.failed msgs = none) :
    I2cRuns msgs [e] := by
  intro d inside
  rw [List.mem_singleton.mp inside]
  refine ⟨fun ends => ?_, fun j here => ?_⟩
  · rw [I2cEvent.Ends, fine] at ends
    cases ends.1
  · rw [fine] at here
    cases here

theorem call_below_iff {bus : I2cBus} {msgs : List I2cMsg} {fuel r : Nat} {log : List I2cEvent}
    (run : bus.nuI2cMstXfer msgs fuel [] = (.ok r, log)) :
    (I2cBelow msgs r log ↔ I2cSound msgs log) ∧
      (I2cBelow msgs r log → r = msgs.length → I2cMoved msgs log) := by
  have refused {a : Option I2cAnswer} (other : i2cAnswered false 0x08 0x08 a = false) :
      (I2cBelow msgs 0 [.cmd .start a] ↔ I2cSound msgs [.cmd .start a]) ∧
        (I2cBelow msgs 0 [.cmd .start a] → 0 = msgs.length → I2cMoved msgs [.cmd .start a]) := by
    have failed : (I2cEvent.cmd .start a).failed msgs = some 0 := by
      show (if i2cAnswered false 0x08 0x08 a then none else some 0) = some 0
      rw [other]
      rfl
    have ends : (I2cEvent.cmd .start a).Ends msgs := ⟨by rw [failed]; rfl, rfl⟩
    refine ⟨iff_of_true ⟨Nat.zero_le _, fun _ _ _ _ => Nat.zero_le _⟩
      (.inr (.inl ⟨_, List.mem_singleton_self _, ends, fun k same => by cases same⟩)), ?_⟩
    intro _ none k msg pos listed
    rw [List.getElem?_eq_none (none ▸ Nat.zero_le k)] at listed
    cases listed
  unfold I2cBus.nuI2cMstXfer at run
  obtain ⟨a, mid, start, run⟩ := Logged.bind_ok_iff.mp run
  obtain ⟨new, rfl, rfl⟩ := (ask_adds .start).of_run start
  cases a with
  | none =>
    cases run
    exact refused rfl
  | some a =>
    dsimp only at run
    by_cases started : a.status = 0x08
    · rw [if_neg (not_not.mpr started)] at run
      obtain ⟨i, mid, loop, run⟩ := Logged.bind_ok_iff.mp run
      obtain ⟨new, rfl, ended, carried⟩ := xferLoop_end fuel (Nat.zero_le _) loop
      obtain ⟨_, mid, stop, run⟩ := Logged.bind_ok_iff.mp run
      cases run
      obtain ⟨polls, rfl⟩ := stopBus_run stop
      have first : I2cRuns msgs [.cmd .start (some a)] := by
        refine .single (if_pos ?_)
        simp only [i2cAnswered, started, decide_true, Bool.true_or]
      have last : I2cRuns msgs [.stop polls] := .single rfl
      refine ⟨?_, fun counts all k msg pos listed less => ?_⟩
      swap
      · rcases carried with ⟨e, inside, fails⟩ | moved
        · -- its message would be one that is counted
          obtain ⟨j, failed⟩ := Option.isSome_iff_exists.mp fails
          have counted := counts.2 e (by simp [inside]) j failed
          have below := ended.below inside failed
          omega
        · obtain ⟨e, inside, moves⟩ := moved k msg pos (Nat.zero_le k) listed less
          exact ⟨e, by simp [inside], moves⟩
      rcases ended with ⟨rfl, runs⟩ | ⟨front, e, k, rfl, runs, ends, about, below, rfl⟩
      · have all := (first.append runs).append last
        exact counts_all (fun e inside => (all e inside).1) fun e inside => (all e inside).2
      · have rest := (first.append runs).append last
        refine counts_ended (by simp) ends (fun d inside ended => ?_) about below
        by_contra other
        refine (rest d ?_).1 ended
        simp only [List.mem_append, List.mem_singleton, other, or_false] at inside ⊢
        exact inside
    · rw [if_pos started] at run
      cases run
      refine refused ?_
      simp only [i2cAnswered, started, decide_false, Bool.false_and, Bool.or_self]

theorem call_counts_iff {bus : I2cBus} {msgs : List I2cMsg} {fuel r : Nat} {log : List I2cEvent}
    (run : bus.nuI2cMstXfer msgs fuel [] = (.ok r, log)) :
    I2cCounts msgs r log ↔ I2cSound msgs log :=
  (and_iff_left_of_imp (call_below_iff run).2).trans (call_below_iff run).1

/-- For every message list and every behaviour of bus and slaves. -/
theorem i2c_counts_iff (bus : I2cBus) (msgs : List I2cMsg) :
    CallCounts bus msgs ↔ CallSound bus msgs :=
  forall_congr' fun _ => forall_congr' fun _ => forall_congr' fun _ =>
    imp_congr_right fun run => call_counts_iff run

def refusingBus : I2cBus where
  answer := fun _ c => some ⟨match c with
    | .start => 0x08
    | .restart _ => 0x10
    | .addressRestart _ => 0x10
    | .address _ read _ => if read then 0x40 else 0x18
    | _ => 0x30, 0⟩
  stops := fun _ => some (0, 0xF8)

def oneByteWrite : I2cMsg := ⟨0x50, 0, 1, fun _ => 0⟩

theorem refused_byte_counted : ¬CallCounts refusingBus [oneByteWrite] := by
  intro counts
  have run : refusingBus.nuI2cMstXfer [oneByteWrite] 2 [] =
      (.ok 1, [.cmd .start (some ⟨0x08, 0⟩), .cmd (.address 0 false 0xA0) (some ⟨0x18, 0⟩),
        .cmd (.data 0 0 0) (some ⟨0x30, 0⟩), .stop 0]) := by rfl
  have late := (counts 2 1 _ run).1.2 (.cmd (.data 0 0 0) (some ⟨0x30, 0⟩)) (by simp) 0 (by decide)
  omega

end NuMakerMA35
