import NuMakerMA35.I2cResult

namespace NuMakerMA35

def I2cEvent.cost : I2cEvent → Nat
  | .cmd _ _ => 1
  | .store _ _ _ => 0
  | .stop polls => polls + 1

def i2cSteps (log : List I2cEvent) : Nat := (log.map I2cEvent.cost).sum

def ReturnsWithin (bus : I2cBus) (msgs : List I2cMsg) (n : Nat) : Prop :=
  ∃ fuel r log, bus.nuI2cMstXfer msgs fuel [] = (.ok r, log) ∧ i2cSteps log ≤ n

/-- A bus that a STOP always releases, within `limit` polls of `STO`; without a limit, any bus. -/
def Releases (bus : I2cBus) : Option Nat → Prop
  | none => True
  | some limit => ∀ log, ∃ polls, bus.stops log = some (polls, 0xF8) ∧ polls ≤ limit

/-- For every behaviour of bus and slaves the call returns, within a number of steps that is the same
for all. -/
def Terminates (limit : Option Nat) (msgs : List I2cMsg) : Prop :=
  ∃ n, ∀ bus, Releases bus limit → ReturnsWithin bus msgs n

def I2cMsg.Irrefusable (msg : I2cMsg) : Prop :=
  msg.len = 0 ∨ msg.read = false ∧ msg.ignoreNack = true

def NeverBack (msgs : List I2cMsg) : Prop :=
  ∀ k msg, 1 ≤ k → msgs[k]? = some msg → msg.Irrefusable

def I2cMsg.stepBound (msg : I2cMsg) : Nat := msg.len.toNat + 5

theorem i2cSteps_append (new more : List I2cEvent) :
    i2cSteps (new ++ more) = i2cSteps new + i2cSteps more := by
  unfold i2cSteps
  rw [List.map_append, List.sum_append]

section Costs

variable {bus : I2cBus} {msg : I2cMsg} {k : Nat}

abbrev CostsAtMost {α : Type} (n : Nat) (m : I2c α) : Prop :=
  Logged.Adds (fun _ new => i2cSteps new ≤ n) m

theorem CostsAtMost.pure {α : Type} (a : α) (n : Nat) : CostsAtMost n (pure a : I2c α) :=
  Logged.Adds.pure (Nat.zero_le n)

theorem CostsAtMost.bind {α β : Type} {m : I2c α} {f : α → I2c β} {n : Nat}
    (first : CostsAtMost n m) (n' : Nat) (rest : ∀ a, CostsAtMost n' (f a)) : CostsAtMost (n + n') (m >>= f) := by
  refine Logged.Adds.bind first fun a new few => (rest a).mono fun _ more few' => ?_
  rw [i2cSteps_append]
  omega

theorem CostsAtMost.more {α : Type} {m : I2c α} {n n' : Nat} (h : CostsAtMost n m) (le : n ≤ n') :
    CostsAtMost n' m := h.mono fun _ _ few => few.trans le

theorem ask_costs (c : I2cCmd) : CostsAtMost 1 (bus.ask c) :=
  (ask_adds c).mono fun _ _ same => by rw [same]; exact Nat.le_refl 1

theorem askAddress_costs (ignoreNack : Bool) (expected : U32) (c : I2cCmd) :
    CostsAtMost 1 (bus.askAddress ignoreNack expected c) := by
  refine (ask_costs c).bind 0 fun a => ?_
  cases a with
  | none => exact .pure _ _
  | some a => exact .pure _ _

theorem then_costs {m m' : I2c Bool} {n : Nat} (first : CostsAtMost n m) (n' : Nat)
    (second : CostsAtMost n' m') : CostsAtMost (n + n') (do if ← m then m' else pure false) := by
  refine first.bind n' fun sent => ?_
  cases sent with
  | true => exact second
  | false => exact .pure _ _

theorem sendAddress_costs : CostsAtMost 4 (bus.nuI2cSendAddress k msg) := by
  have one (expected : U32) (c : I2cCmd) : CostsAtMost 1 (bus.askAddress msg.ignoreNack expected c) :=
    askAddress_costs _ _ _
  unfold I2cBus.nuI2cSendAddress
  by_cases ten : msg.tenBit = true
  · rw [if_pos ten]
    refine then_costs (one _ _) 3 (then_costs (one _ _) 2 ?_)
    by_cases reads : msg.read = true
    · rw [if_pos reads]
      exact then_costs (one _ _) 1 (one _ _)
    · rw [if_neg reads]
      exact .pure _ _
  · rw [if_neg ten]
    dsimp only
    by_cases reads : msg.read = true
    · rw [if_pos reads]
      exact (one _ _).more (by omega)
    · rw [if_neg reads]
      exact (one _ _).more (by omega)

theorem startMsg_costs : CostsAtMost 5 (bus.startMsg k msg) := by
  have restart : CostsAtMost 1 (bus.restartMsg k) := by
    unfold I2cBus.restartMsg
    by_cases first : k = 0
    · rw [if_pos first]
      exact .pure _ _
    · rw [if_neg first]
      refine (ask_costs _).bind 0 fun a => ?_
      cases a with
      | none => exact .pure _ _
      | some a =>
        dsimp only
        split_ifs
        all_goals exact .pure _ _
  unfold I2cBus.startMsg
  by_cases silent : msg.noStart = true
  · rw [if_pos silent]
    exact .pure _ _
  rw [if_neg silent]
  refine restart.bind 4 fun started => ?_
  cases started with
  | some r => exact .pure _ _
  | none =>
    refine sendAddress_costs.bind 0 fun sent => ?_
    split_ifs
    all_goals exact .pure _ _

theorem receiveBytes_costs (n : Nat) : ∀ pos doRdNack,
    CostsAtMost n (bus.receiveBytes k msg n pos doRdNack) := by
  induction n with
  | zero => exact fun _ _ => .pure _ _
  | succ n ih =>
    intro pos doRdNack
    unfold I2cBus.receiveBytes
    refine ((ask_costs _).bind n fun a => ?_).more (by omega)
    cases a with
    | none => exact .pure _ _
    | some a =>
      have stored : CostsAtMost 0
          (Logged.issue (.store k pos a.dat) fun _ => () : I2c Unit) :=
        (store_adds k pos a.dat).mono fun _ _ same => by rw [same]; exact Nat.le_refl 0
      dsimp only
      by_cases refused : a.status ≠
          if doRdNack + (if pos + 1 = msg.len.toNat then 1 else 0) ≠ 2 then 0x50 else 0x58
      · rw [if_pos refused]
        exact .pure _ _
      · rw [if_neg refused]
        exact (stored.bind n fun _ => ih _ _).more (by omega)

theorem sendBytes_costs (n : Nat) : ∀ pos, CostsAtMost n (bus.sendBytes k msg n pos) := by
  induction n with
  | zero => exact fun _ => .pure _ _
  | succ n ih =>
    intro pos
    unfold I2cBus.sendBytes
    refine ((ask_costs _).bind n fun a => ?_).more (by omega)
    cases a with
    | none => exact .pure _ _
    | some a =>
      dsimp only
      split_ifs
      · exact .pure _ _
      · exact ih _

theorem transferBytes_costs (bus : I2cBus) (num k : Nat) (msg : I2cMsg) :
    CostsAtMost msg.len.toNat (bus.transferBytes num k msg) := by
  unfold I2cBus.transferBytes
  by_cases reads : msg.read = true
  · rw [if_pos reads]
    exact receiveBytes_costs _ _ _
  · rw [if_neg reads]
    exact sendBytes_costs _ _

theorem irrefusable_passes (passes : msg.Irrefusable) (num : Nat) :
    Logged.Adds (fun bytes _ => bytes ≠ .refused) (bus.transferBytes num k msg) := by
  unfold I2cBus.transferBytes
  rcases passes with empty | ⟨writes, ignores⟩
  · rw [empty]
    by_cases reads : msg.read = true
    · rw [if_pos reads]
      exact .pure (by decide)
    · rw [if_neg reads]
      exact .pure (by decide)
  · rw [writes, if_neg (by decide)]
    have all (n : Nat) : ∀ pos,
        Logged.Adds (fun bytes _ => bytes ≠ .refused) (bus.sendBytes k msg n pos) := by
      induction n with
      | zero => exact fun _ => .pure (by decide)
      | succ n ih =>
        intro pos
        unfold I2cBus.sendBytes
        refine (ask_adds _).bind fun a new _ => ?_
        cases a with
        | none => exact .pure (by decide)
        | some a =>
          have goes : ¬(a.status ≠ 0x28 ∧ msg.ignoreNack = false) := by simp [ignores]
          dsimp only
          rw [if_neg goes]
          exact ih _
    exact all _ _

end Costs

theorem xferLoop_costs {bus : I2cBus} {msgs : List I2cMsg} (never : NeverBack msgs) (n : Nat) :
    ∀ i, msgs.length ≤ i + n →
      CostsAtMost ((msgs.drop i).map I2cMsg.stepBound).sum (bus.xferLoop msgs (n + 1) i) := by
  induction n with
  | zero =>
    intro i past
    unfold I2cBus.xferLoop
    have past : msgs[i]? = none := List.getElem?_eq_none_iff.mpr past
    rw [past]
    exact .pure _ _
  | succ n ih =>
    intro i past
    unfold I2cBus.xferLoop
    cases here : msgs[i]? with
    | none => exact .pure _ _
    | some msg =>
      obtain ⟨below, same⟩ := List.getElem?_eq_some_iff.mp here
      have parts : ((msgs.drop i).map I2cMsg.stepBound).sum =
          5 + (msg.len.toNat + ((msgs.drop (i + 1)).map I2cMsg.stepBound).sum) := by
        rw [List.drop_eq_getElem_cons below, same, List.map_cons, List.sum_cons]
        unfold I2cMsg.stepBound
        omega
      have next := ih (i + 1) (by omega)
      rw [parts]
      refine startMsg_costs.bind _ fun started => ?_
      cases started with
      | some r => exact .pure _ _
      | none =>
        have forward : Logged.Adds (fun bytes new => i2cSteps new ≤ msg.len.toNat ∧
            (i = 0 ∨ bytes ≠ .refused)) (bus.transferBytes msgs.length i msg) := by
          rcases Nat.eq_zero_or_pos i with first | behind
          · exact (transferBytes_costs bus _ i msg).mono fun _ _ few => ⟨few, .inl first⟩
          · exact ((transferBytes_costs bus _ i msg).and
              (irrefusable_passes (never i msg behind here) _)).mono
              fun _ _ both => ⟨both.1, .inr both.2⟩
        refine Logged.Adds.bind forward fun bytes new facts => ?_
        refine Logged.Adds.mono
          (P := fun _ more => i2cSteps more ≤ ((msgs.drop (i + 1)).map I2cMsg.stepBound).sum)
          ?_ fun _ more few => ?_
        · cases bytes with
          | refused =>
            have first := facts.2.resolve_right (not_not.mpr rfl)
            subst first
            exact next
          | done => exact next
          | timeout => exact next
        · rw [i2cSteps_append]
          omega

theorem stopBus_costs {bus : I2cBus} {limit : Nat} (releases : Releases bus (some limit)) :
    CostsAtMost (limit + 1) bus.stopBus := by
  intro log
  obtain ⟨polls, stops, few⟩ := releases log
  refine ⟨(), [.stop polls], ?_, ?_⟩
  · unfold I2cBus.stopBus
    rw [stops]
    rfl
  · show polls + 1 + 0 ≤ limit + 1
    omega

theorem call_costs {bus : I2cBus} {msgs : List I2cMsg} {limit : Nat} (never : NeverBack msgs)
    (releases : Releases bus (some limit)) :
    CostsAtMost (1 + ((msgs.map I2cMsg.stepBound).sum + (limit + 1)))
      (bus.nuI2cMstXfer msgs (msgs.length + 1)) := by
  unfold I2cBus.nuI2cMstXfer
  refine (ask_costs _).bind _ fun a => ?_
  cases a with
  | none => exact .pure _ _
  | some a =>
    dsimp only
    by_cases started : a.status ≠ 0x08
    · rw [if_pos started]
      exact .pure _ _
    · rw [if_neg started]
      refine (xferLoop_costs never msgs.length 0 (by omega)).bind _ fun r => ?_
      exact ((stopBus_costs releases).bind 0 fun _ => .pure _ _)

section Refusing

variable {msgs : List I2cMsg} {msg : I2cMsg} {k : Nat}

theorem refusing_ask (c : I2cCmd) :
    Logged.Adds (fun a _ => a = refusingBus.answer [] c) (refusingBus.ask c) :=
  fun _ => ⟨_, _, rfl, rfl⟩

theorem refusing_address {expected : U32} {c : I2cCmd}
    (right : refusingBus.answer [] c = some ⟨expected, 0⟩) (ignoreNack : Bool) :
    Logged.Adds (fun sent _ => sent = true) (refusingBus.askAddress ignoreNack expected c) := by
  refine (refusing_ask c).bind fun a new same => ?_
  rw [right] at same
  subst same
  exact .pure (by simp)

theorem refusing_then {m m' : I2c Bool} (first : Logged.Adds (fun sent _ => sent = true) m)
    (second : Logged.Adds (fun sent _ => sent = true) m') :
    Logged.Adds (fun sent _ => sent = true) (do if ← m then m' else pure false) := by
  refine first.bind fun sent new yes => ?_
  subst yes
  exact second

theorem refusing_sendAddress :
    Logged.Adds (fun sent _ => sent = true) (refusingBus.nuI2cSendAddress k msg) := by
  unfold I2cBus.nuI2cSendAddress
  by_cases ten : msg.tenBit = true
  · rw [if_pos ten]
    refine refusing_then (refusing_address rfl _) (refusing_then (refusing_address rfl _) ?_)
    by_cases reads : msg.read = true
    · rw [if_pos reads]
      exact refusing_then (refusing_address rfl _) (refusing_address rfl _)
    · rw [if_neg reads]
      exact .pure rfl
  · rw [if_neg ten]
    dsimp only
    by_cases reads : msg.read = true
    · rw [if_pos reads]
      exact refusing_address rfl _
    · rw [if_neg reads]
      exact refusing_address rfl _

theorem refusing_startMsg (k : Nat) (msg : I2cMsg) :
    Logged.Adds (fun started _ => started = none) (refusingBus.startMsg k msg) := by
  have restart : Logged.Adds (fun started _ => started = none) (refusingBus.restartMsg k) := by
    unfold I2cBus.restartMsg
    by_cases first : k = 0
    · rw [if_pos first]
      exact .pure rfl
    · rw [if_neg first]
      refine (refusing_ask _).bind fun a new same => ?_
      subst same
      exact .pure rfl
  unfold I2cBus.startMsg
  by_cases silent : msg.noStart = true
  · rw [if_pos silent]
    exact .pure rfl
  rw [if_neg silent]
  refine restart.bind fun started new none => ?_
  subst none
  refine refusing_sendAddress.bind fun sent more yes => ?_
  subst yes
  exact .pure rfl

theorem refusing_transferBytes (k : Nat) (msg : I2cMsg) (num : Nat) :
    Logged.Adds (fun bytes _ => bytes ≠ .timeout ∧ (¬msg.Irrefusable → bytes = .refused))
      (refusingBus.transferBytes num k msg) := by
  have sends (n : Nat) : ∀ pos, Logged.Adds
      (fun bytes _ => bytes ≠ .timeout ∧ (n ≠ 0 → msg.ignoreNack = false → bytes = .refused))
      (refusingBus.sendBytes k msg n pos) := by
    induction n with
    | zero => exact fun _ => .pure ⟨by decide, fun some_ => absurd rfl some_⟩
    | succ n ih =>
      intro pos
      unfold I2cBus.sendBytes
      refine (refusing_ask _).bind fun a new same => ?_
      subst same
      cases ignores : msg.ignoreNack with
      | true =>
        refine (ih _).mono fun _ _ rest => ⟨rest.1, fun _ strict => ?_⟩
        cases strict
      | false => exact .pure ⟨by decide, fun _ _ => rfl⟩
  have receives (n pos doRdNack : Nat) : Logged.Adds
      (fun bytes _ => bytes ≠ .timeout ∧ (n ≠ 0 → bytes = .refused))
      (refusingBus.receiveBytes k msg n pos doRdNack) := by
    cases n with
    | zero => exact .pure ⟨by decide, fun some_ => absurd rfl some_⟩
    | succ n =>
      unfold I2cBus.receiveBytes
      refine (refusing_ask _).bind fun a new same => ?_
      subst same
      refine Logged.Adds.mono (P := fun bytes _ => bytes = .refused) ?_
        fun _ _ refused => ⟨by rw [refused]; decide, fun _ => refused⟩
      simp only [refusingBus]
      rw [if_pos]
      · exact .pure rfl
      · show (0x30 : U32) ≠ _
        split_ifs
        all_goals decide
  have counted (refusable : ¬msg.Irrefusable) : msg.len.toNat ≠ 0 := by
    intro zero
    exact refusable (.inl (BitVec.eq_of_toNat_eq zero))
  unfold I2cBus.transferBytes
  cases reads : msg.read with
  | true =>
    rw [if_pos rfl]
    exact (receives _ _ _).mono fun _ _ facts =>
      ⟨facts.1, fun refusable => facts.2 (counted refusable)⟩
  | false =>
    rw [if_neg (by decide)]
    refine (sends _ _).mono fun _ _ facts => ⟨facts.1, fun refusable => ?_⟩
    refine facts.2 (counted refusable) ?_
    cases ignores : msg.ignoreNack with
    | true => exact absurd (.inr ⟨reads, ignores⟩) refusable
    | false => rfl

theorem refusing_loops (here : msgs[k]? = some msg) (behind : 1 ≤ k)
    (refusable : ¬msg.Irrefusable) (fuel : Nat) : ∀ i log, i ≤ k →
      (refusingBus.xferLoop msgs fuel i log).1 = .error .outOfFuel := by
  induction fuel with
  | zero => exact fun _ _ _ => rfl
  | succ fuel ih =>
    intro i log upTo
    have inside : i < msgs.length :=
      Nat.lt_of_le_of_lt upTo (List.getElem?_eq_some_iff.mp here).1
    obtain ⟨cur, this⟩ : ∃ cur, msgs[i]? = some cur := ⟨msgs[i], List.getElem?_eq_getElem inside⟩
    unfold I2cBus.xferLoop
    rw [this]
    dsimp only
    obtain ⟨_, new, start, rfl⟩ := refusing_startMsg i cur log
    rw [Logged.bind_ok start]
    dsimp only
    obtain ⟨bytes, more, transfer, noTimeout, refused⟩ :=
      refusing_transferBytes i cur msgs.length (log ++ new)
    rw [Logged.bind_ok transfer]
    cases bytes with
    | timeout => exact absurd rfl noTimeout
    | refused => exact ih 1 _ behind
    | done =>
      refine ih (i + 1) _ (Nat.lt_of_le_of_ne upTo fun same => ?_)
      subst same
      rw [here] at this
      cases this
      cases refused refusable

theorem refusing_never_returns (here : msgs[k]? = some msg) (behind : 1 ≤ k)
    (refusable : ¬msg.Irrefusable) (n : Nat) : ¬ReturnsWithin refusingBus msgs n := by
  rintro ⟨fuel, r, log, run, -⟩
  unfold I2cBus.nuI2cMstXfer at run
  obtain ⟨a, mid, start, run⟩ := Logged.bind_ok_iff.mp run
  obtain ⟨new, rfl, rfl⟩ := (refusing_ask .start).of_run start
  obtain ⟨i, mid, loop, run⟩ := Logged.bind_ok_iff.mp run
  have ended := congrArg Prod.fst loop
  rw [refusing_loops here behind refusable fuel 0 _ (Nat.zero_le _)] at ended
  cases ended

end Refusing

/-- A bus on which a START comes through and nothing else, not even a STOP. -/
def heldBus : I2cBus where
  answer := fun _ c => if c = .start then some ⟨0x08, 0⟩ else none
  stops := fun _ => none

theorem held_never_returns (msgs : List I2cMsg) (n : Nat) : ¬ReturnsWithin heldBus msgs n := by
  rintro ⟨fuel, r, log, run, -⟩
  unfold I2cBus.nuI2cMstXfer at run
  obtain ⟨a, mid, start, run⟩ := Logged.bind_ok_iff.mp run
  cases start
  obtain ⟨i, mid, loop, run⟩ := Logged.bind_ok_iff.mp run
  obtain ⟨_, mid, stop, run⟩ := Logged.bind_ok_iff.mp run
  cases stop

/-- For every message list: the calls return within a bound for all buses exactly if a STOP is
released within some limit and no message behind the first can be refused. -/
theorem i2c_terminates_iff (limit : Option Nat) (msgs : List I2cMsg) :
    Terminates limit msgs ↔ limit.isSome = true ∧ NeverBack msgs := by
  constructor
  · rintro ⟨n, all⟩
    cases limit with
    | none => exact absurd (all heldBus trivial) (held_never_returns msgs n)
    | some limit =>
      refine ⟨rfl, fun k msg behind here => ?_⟩
      by_contra refusable
      have releases : Releases refusingBus (some limit) := fun _ => ⟨0, rfl, Nat.zero_le _⟩
      exact refusing_never_returns here behind refusable n (all refusingBus releases)
  · rintro ⟨limited, never⟩
    cases limit with
    | none => cases limited
    | some limit =>
      refine ⟨1 + ((msgs.map I2cMsg.stepBound).sum + (limit + 1)), fun bus releases => ?_⟩
      obtain ⟨r, log, run, few⟩ := call_costs never releases []
      exact ⟨msgs.length + 1, r, log, run, few⟩

/-- Two writes, to a slave that refuses the byte of the second again and again. -/
theorem refused_for_ever : ¬∃ n, ReturnsWithin refusingBus [oneByteWrite, oneByteWrite] n := by
  rintro ⟨n, returns⟩
  refine refusing_never_returns (k := 1) rfl (Nat.le_refl 1) ?_ n returns
  rintro (empty | ignores)
  · exact absurd empty (by decide)
  · exact absurd ignores (by decide)

end NuMakerMA35
