import NuMakerMA35.Sdh

namespace NuMakerMA35

def statusReads (t : List SdhAccess) : List U32 := t.filterMap fun
  | .read .normalIntStat v => some v
  | _ => none

def Responded (mask : U32) (t : List SdhAccess) : Prop :=
  ∃ v ∈ (statusReads t).take (sdhCmdTimeout + 1), v &&& (sdhIntError ||| mask) = mask

/-- It showed the end of the data, and neither an error nor an error status. -/
def DataDone (t : List SdhAccess) : Prop :=
  .test .xferComplete true ∈ t ∧ .test .errInterrupt true ∉ t ∧ .read .errorIntStat 0 ∈ t

/-- What is read and written for the command of a request, the card's type included. -/
def commandTrace (bus : SdhBus) (host : SdhHost) (req : RtMmcsdReq) : List SdhAccess :=
  ((sdhSetCard host.card >>= fun _ => nuSdhRequestCmd bus host req) []).2

def RtMmcsdReq.mask (host : SdhHost) (req : RtMmcsdReq) (c : RtMmcsdCmd) : U32 :=
  sdhCommandMask c.mmc (req.data.map (·.mmc host))

/-- A request that reports no error had its response, and its data if it has some. -/
def RequestHonest (bus : SdhBus) (host : SdhHost) (req : RtMmcsdReq) : Prop :=
  ∀ c done stop t, req.cmd = some c → nuSdhRequest bus host req [] = (.ok (some done, stop), t) →
    done.err = 0 → Responded (req.mask host c) (commandTrace bus host req) ∧
      (req.data ≠ none → DataDone (commandTrace bus host req))

def Quiet {α : Type} (m : Sdh α) : Prop :=
  ∀ log, ∃ a new, m log = (.ok a, log ++ new) ∧ statusReads new = []

theorem statusReads_append (t t' : List SdhAccess) :
    statusReads (t ++ t') = statusReads t ++ statusReads t' := List.filterMap_append

section Quiet

variable {α β : Type} {bus : SdhBus}

theorem Quiet.pure (a : α) : Quiet (pure a) := fun log =>
  ⟨a, [], by rw [List.append_nil]; rfl, rfl⟩

theorem Quiet.bind {m : Sdh α} {f : α → Sdh β} (first : Quiet m) (rest : ∀ a, Quiet (f a)) :
    Quiet (m >>= f) := by
  intro log
  obtain ⟨a, new, run, quiet⟩ := first log
  obtain ⟨b, more, run', quiet'⟩ := rest a (log ++ new)
  refine ⟨b, new ++ more, ?_, ?_⟩
  · rw [Logged.bind_ok run, run', List.append_assoc]
  · rw [statusReads_append, quiet, quiet', List.append_nil]

theorem Quiet.get {r : SdhReg} (other : r ≠ .normalIntStat) : Quiet (bus.get r) := by
  intro log
  refine ⟨_, _, rfl, ?_⟩
  cases r with
  | normalIntStat => exact absurd rfl other
  | _ => rfl

theorem Quiet.ask (f : SdhField) : Quiet (bus.ask f) := fun _ => ⟨_, _, rfl, rfl⟩

theorem Quiet.write (r : SdhReg) (v : U32) : Quiet (sdhWrite r v) := fun _ => ⟨_, _, rfl, rfl⟩

theorem Quiet.ite {p : Prop} [Decidable p] {m m' : Sdh α} (yes : Quiet m) (no : Quiet m') :
    Quiet (if p then m else m') := by
  split_ifs
  · exact yes
  · exact no

theorem sdGetBusStatus_quiet (bus : SdhBus) (mask : U32) (n : Nat) : ∀ time cmdTimeout,
    Quiet (sdGetBusStatus bus mask n time cmdTimeout) := by
  induction n with
  | zero => exact fun _ _ => .pure _
  | succ n ih =>
    intro time cmdTimeout
    refine .bind (.get nofun) fun _ => .ite (.pure _) (.ite (ih _ _) (.ite (ih _ _) (.pure _)))

theorem sdhResetWait_quiet (mask : U32) (n : Nat) : Quiet (sdhResetWait bus mask n) := by
  induction n with
  | zero => exact .bind (.get nofun) fun _ => .pure _
  | succ n ih => exact .bind (.get nofun) fun _ => .ite (.pure _) ih

theorem sdhReset_quiet (mask : U32) : Quiet (sdhReset bus mask) :=
  .bind (.get nofun) fun _ => .bind (.write _ _) fun _ => sdhResetWait_quiet mask 100

theorem sendCommanddone_quiet (bus : SdhBus) (cmd : MmcCmd) : Quiet (nuSdhSendCommanddone bus cmd) :=
  .ite (.bind (.get nofun) fun _ => .bind (.get nofun) fun _ => .bind (.get nofun) fun _ =>
    .bind (.get nofun) fun _ => .pure _) (.bind (.get nofun) fun _ => .pure _)

theorem sdhDmaBoundary_quiet (startAddr : U32) : Quiet (sdhDmaBoundary bus startAddr) :=
  .bind (.ask _) fun _ => .ite (.bind (.write _ _) fun _ => .bind (.write _ _) fun _ => .pure _)
    (.pure _)

theorem nuSdhXferData_quiet (n : Nat) : ∀ startAddr, Quiet (nuSdhXferData bus n startAddr) := by
  induction n with
  | zero =>
    intro startAddr
    exact .bind (.ask _) fun _ => .ite (.pure _) (.bind (.ask _) fun _ => .ite (.pure _)
      (.bind (sdhDmaBoundary_quiet _) fun _ => .pure _))
  | succ n ih =>
    intro startAddr
    exact .bind (.ask _) fun _ => .ite (.pure _) (.bind (.ask _) fun _ => .ite (.pure _)
      (.bind (sdhDmaBoundary_quiet _) fun next => ih next))

theorem sdhSendData_quiet (data : Option MmcData) : Quiet (sdhSendData bus data) := by
  cases data with
  | none => exact .pure 0
  | some d => exact nuSdhXferData_quiet _ _

theorem sdhClearStatus_quiet : Quiet sdhClearStatus :=
  .bind (.write _ _) fun _ => .write _ _

theorem sdhSetup_quiet (cmd : MmcCmd) (data : Option MmcData) : Quiet (sdhSetup cmd data) := by
  cases data with
  | none => exact .ite (.write _ _) (.pure _)
  | some d =>
    exact .bind (.write _ _) fun _ => .bind (.write _ _) fun _ => .bind (.write _ _) fun _ =>
      .bind (.write _ _) fun _ => .bind (.write _ _) fun _ => .bind (.write _ _) fun _ => .write _ _

end Quiet

theorem shown_iff {e m v : U32} (apart : e &&& m = 0) :
    v &&& (e ||| m) = m ↔ v &&& e = 0 ∧ v &&& m = m := by
  rw [BitVec.and_or_distrib_left]
  have rest (clear : v &&& e = 0) : v &&& e ||| v &&& m = v &&& m := by
    rw [clear]
    exact BitVec.zero_or
  constructor
  · intro shown
    have both : (v &&& e ||| v &&& m) &&& e = 0 := by
      rw [shown, BitVec.and_comm]
      exact apart
    have clear : v &&& e = 0 := by
      rw [BitVec.and_or_distrib_right, BitVec.and_assoc, BitVec.and_assoc, BitVec.and_self,
        BitVec.and_comm m e, apart] at both
      simpa using both
    exact ⟨clear, (rest clear).symm.trans shown⟩
  · rintro ⟨clear, shown⟩
    rw [rest clear, shown]

theorem commandMask_apart (cmd : MmcCmd) (data : Option MmcData) :
    sdhIntError &&& sdhCommandMask cmd data = 0 := by
  unfold sdhCommandMask
  split_ifs <;> rfl

theorem get_apply (bus : SdhBus) (r : SdhReg) (log : List SdhAccess) :
    bus.get r log = (.ok (bus.read log r), log ++ [.read r (bus.read log r)]) := rfl

section Wait

variable {bus : SdhBus} {mask : U32}

theorem sdhWaitCommand_run (bus : SdhBus) (apart : sdhIntError &&& mask = 0) (n : Nat) : ∀ log, ∃ r new,
    sdhWaitCommand bus mask n log = (.ok r, log ++ new) ∧
      ((∃ stat, r = some stat ∧ stat &&& (sdhIntError ||| mask) = mask) ↔
        ∃ v ∈ (statusReads new).take n, v &&& (sdhIntError ||| mask) = mask) := by
  induction n with
  | zero =>
    intro log
    let v := bus.read log .normalIntStat
    by_cases error : v &&& sdhIntError ≠ 0
    · refine ⟨some v, [.read .normalIntStat v], ?_, ?_⟩
      · rw [sdhWaitCommand, Logged.bind_ok (get_apply bus _ log), if_pos error]
        rfl
      · simp only [Option.some.injEq, List.take_zero, List.not_mem_nil, false_and, exists_false,
          iff_false]
        rintro ⟨_, rfl, shown⟩
        exact error ((shown_iff apart).mp shown).1
    · refine ⟨none, [.read .normalIntStat v], ?_, by simp⟩
      rw [sdhWaitCommand, Logged.bind_ok (get_apply bus _ log), if_neg error]
      rfl
  | succ n ih =>
    intro log
    let v := bus.read log .normalIntStat
    have reads (more : List SdhAccess) :
        (statusReads (.read .normalIntStat v :: more)).take (n + 1) =
          v :: (statusReads more).take n := rfl
    by_cases error : v &&& sdhIntError ≠ 0
    · refine ⟨some v, [.read .normalIntStat v], ?_, ?_⟩
      · rw [sdhWaitCommand, Logged.bind_ok (get_apply bus _ log), if_pos error]
        rfl
      · rw [reads]
        simp [statusReads]
    · by_cases shown : v &&& mask = mask
      · refine ⟨some v, [.read .normalIntStat v], ?_, ?_⟩
        · rw [sdhWaitCommand, Logged.bind_ok (get_apply bus _ log), if_neg error, if_pos shown]
          rfl
        · rw [reads]
          simp [statusReads]
      · obtain ⟨r, new, run, ends⟩ := ih (log ++ [.read .normalIntStat v])
        refine ⟨r, .read .normalIntStat v :: new, ?_, ?_⟩
        · rw [sdhWaitCommand, Logged.bind_ok (get_apply bus _ log), if_neg error, if_neg shown]
          exact run.trans (by rw [List.append_assoc]; rfl)
        · have not : ¬v &&& (sdhIntError ||| mask) = mask := fun both =>
            shown ((shown_iff apart).mp both).2
          rw [ends, reads]
          simp [not]

end Wait

theorem issue_run (cmd : MmcCmd) (data : Option MmcData) (log : List SdhAccess) : ∃ issued,
    statusReads issued = [] ∧ ∀ rest : Sdh (Int × List U32),
      (sdhClearStatus >>= fun _ => sdhSetup cmd data >>= fun _ =>
        sdhWrite .argument cmd.cmdarg >>= fun _ =>
        sdhWrite .cmd ((cmd.cmdidx.setWidth 32 &&& 0xff) <<< 8 |||
          (sdhCommandFlags cmd data &&& 0xff)) >>= fun _ => rest) log = rest (log ++ issued) := by
  have issue : Quiet (do
      sdhClearStatus
      sdhSetup cmd data
      sdhWrite .argument cmd.cmdarg
      sdhWrite .cmd ((cmd.cmdidx.setWidth 32 &&& 0xff) <<< 8 |||
        (sdhCommandFlags cmd data &&& 0xff))) :=
    .bind sdhClearStatus_quiet fun _ => .bind (sdhSetup_quiet cmd data) fun _ =>
      .bind (.write _ _) fun _ => .write _ _
  obtain ⟨_, issued, run, quiet⟩ := issue log
  refine ⟨issued, quiet, fun rest => ?_⟩
  have after := Logged.bind_ok (f := fun _ => rest) run
  simp only [bind_assoc] at after
  exact after

section Send

variable (bus : SdhBus) (cmd : MmcCmd) (data : Option MmcData)

theorem sdhFail_run (line : Int) (log : List SdhAccess) : ∃ new,
    sdhFail bus line log = (.ok (line, [0, 0, 0, 0]), log ++ new) ∧ statusReads new = [] := by
  have both : Quiet (sdhReset bus sdhResetCmd >>= fun _ => sdhReset bus sdhResetData) :=
    .bind (sdhReset_quiet _) fun _ => sdhReset_quiet _
  obtain ⟨a, new, run, quiet⟩ := both log
  refine ⟨new, ?_, quiet⟩
  unfold sdhFail
  rw [← bind_assoc, Logged.bind_ok run]
  rfl

theorem sdhAfterResponse_run (log : List SdhAccess) : ∃ resp new,
    sdhAfterResponse bus cmd data log = (.ok (0, resp), log ++ new) ∧ statusReads new = [] := by
  obtain ⟨resp, first, run, quiet⟩ := sendCommanddone_quiet bus cmd log
  have rest : Quiet (sdhSendData bus data >>= fun _ => bus.get .errorIntStat >>= fun _ =>
      sdhWrite .normalIntStat (sdhCommandMask cmd data) >>= fun _ => sdhClearStatus) :=
    .bind (sdhSendData_quiet data) fun _ => .bind (.get nofun) fun _ => .bind (.write _ _) fun _ =>
      sdhClearStatus_quiet
  obtain ⟨_, new, run', quiet'⟩ := rest (log ++ first)
  refine ⟨resp, first ++ new, ?_, ?_⟩
  · have after := Logged.bind_ok (f := fun _ => (pure (0, resp) : Sdh (Int × List U32))) run'
    simp only [bind_assoc] at after
    unfold sdhAfterResponse
    rw [Logged.bind_ok run]
    refine Eq.trans after ?_
    rw [List.append_assoc]
    rfl
  · rw [statusReads_append, quiet, quiet', List.append_nil]

theorem nuSdhSendCommand_run (log : List SdhAccess) : ∃ ret resp new,
    nuSdhSendCommand bus cmd data log = (.ok (ret, resp), log ++ new) ∧
      (ret = 0 ↔ Responded (sdhCommandMask cmd data) new) := by
  have apart := commandMask_apart cmd data
  have silent {mask : U32} {t : List SdhAccess} (quiet : statusReads t = []) :
      ¬Responded mask t := by
    rintro ⟨v, hv, -⟩
    rw [quiet, List.take_nil] at hv
    exact List.not_mem_nil hv
  obtain ⟨busy, polls, run₁, quiet₁⟩ := sdGetBusStatus_quiet bus
    (if cmd.cmdidx = mmcCmdStopTransmission then 0x1 else 0x3) (2 * sdhCmdMaxTimeout) 0
    sdhCmdDefaultTimeout log
  unfold nuSdhSendCommand
  dsimp only
  rw [Logged.bind_ok run₁]
  by_cases free : busy ≠ 0
  · obtain ⟨new, run₂, quiet₂⟩ := sdhFail_run bus 260 (log ++ polls)
    refine ⟨260, [0, 0, 0, 0], polls ++ new, ?_, ?_⟩
    · rw [if_pos free, run₂, List.append_assoc]
    · refine iff_of_false (by decide) (silent ?_)
      rw [statusReads_append, quiet₁, quiet₂, List.append_nil]
  · rw [if_neg free]
    obtain ⟨issued, quiet₂, issue⟩ := issue_run cmd data (log ++ polls)
    obtain ⟨r, waited, run₃, ends⟩ :=
      sdhWaitCommand_run bus apart (sdhCmdTimeout + 1) (log ++ polls ++ issued)
    have reads (new : List SdhAccess) (quiet : statusReads new = []) :
        Responded (sdhCommandMask cmd data) (polls ++ issued ++ waited ++ new) ↔
          ∃ stat, r = some stat ∧
            stat &&& (sdhIntError ||| sdhCommandMask cmd data) = sdhCommandMask cmd data := by
      unfold Responded
      rw [ends, statusReads_append, statusReads_append, statusReads_append, quiet₁, quiet₂, quiet,
        List.nil_append, List.nil_append, List.append_nil]
    rw [issue, Logged.bind_ok run₃]
    cases r with
    | none =>
      obtain ⟨new, run₄, quiet₄⟩ := sdhFail_run bus 343 (log ++ polls ++ issued ++ waited)
      refine ⟨343, [0, 0, 0, 0], polls ++ issued ++ waited ++ new, ?_, ?_⟩
      · simpa only [List.append_assoc] using run₄
      · rw [reads new quiet₄]
        exact iff_of_false (by decide) (by simp)
    | some stat =>
      by_cases shown : stat &&& (sdhIntError ||| sdhCommandMask cmd data) = sdhCommandMask cmd data
      · obtain ⟨resp, new, run₄, quiet₄⟩ :=
          sdhAfterResponse_run bus cmd data (log ++ polls ++ issued ++ waited)
        refine ⟨0, resp, polls ++ issued ++ waited ++ new, ?_, ?_⟩
        · dsimp only
          rw [if_pos shown]
          simpa only [List.append_assoc] using run₄
        · rw [reads new quiet₄]
          exact iff_of_true rfl ⟨stat, rfl, shown⟩
      · obtain ⟨new, run₄, quiet₄⟩ := sdhFail_run bus 371 (log ++ polls ++ issued ++ waited)
        refine ⟨371, [0, 0, 0, 0], polls ++ issued ++ waited ++ new, ?_, ?_⟩
        · dsimp only
          rw [if_neg shown]
          simpa only [List.append_assoc] using run₄
        · rw [reads new quiet₄]
          exact iff_of_false (by decide) (by simp [shown])

theorem sdhRun_run (log : List SdhAccess) : ∃ done new,
    (some <$> sdhRun bus cmd data) log = (.ok (some done), log ++ new) ∧
      (done.err = 0 ↔ Responded (sdhCommandMask cmd data) new) := by
  obtain ⟨ret, resp, new, run, ends⟩ := nuSdhSendCommand_run bus cmd data log
  refine ⟨⟨ret, resp⟩, new, ?_, ends⟩
  have inner : sdhRun bus cmd data log = (.ok ⟨ret, resp⟩, log ++ new) := by
    unfold sdhRun
    rw [Logged.bind_ok run]
    rfl
  rw [map_eq_pure_bind, Logged.bind_ok inner]
  rfl

end Send

section Request

variable (bus : SdhBus) (host : SdhHost) (req : RtMmcsdReq)

theorem sdhSetCard_quiet (card : Option Nat) : Quiet (sdhSetCard card) := by
  cases card with
  | none => exact .pure ()
  | some type => exact .bind (.write _ _) fun _ => .write _ _

theorem nuSdhRequestStop_run (log : List SdhAccess) : ∃ stop t,
    nuSdhRequestStop bus req log = (.ok stop, t) := by
  unfold nuSdhRequestStop
  cases req.stop with
  | none => exact ⟨_, _, rfl⟩
  | some c =>
    obtain ⟨done, new, run, -⟩ := sdhRun_run bus c.mmc none log
    exact ⟨_, _, run⟩

theorem nuSdhRequest_run {c : RtMmcsdCmd} (cmd : req.cmd = some c) :
    ((nuSdhRequest bus host req []).1 = .error .assertion ∧
        ¬Responded (req.mask host c) (commandTrace bus host req)) ∨
      ∃ done stop t, nuSdhRequest bus host req [] = (.ok (some done, stop), t) ∧
        (done.err = 0 ↔ Responded (req.mask host c) (commandTrace bus host req)) := by
  obtain ⟨_, card, run₁, quiet⟩ := sdhSetCard_quiet host.card []
  rw [List.nil_append] at run₁
  have sent (data : Option MmcData) (same : data = req.data.map (·.mmc host))
      (body : nuSdhRequestCmd bus host req = some <$> sdhRun bus c.mmc data) :
      ∃ done stop t, nuSdhRequest bus host req [] = (.ok (some done, stop), t) ∧
        (done.err = 0 ↔ Responded (req.mask host c) (commandTrace bus host req)) := by
    obtain ⟨done, new, run₂, ends⟩ := sdhRun_run bus c.mmc data card
    obtain ⟨stop, t, run₃⟩ := nuSdhRequestStop_run bus req (card ++ new)
    refine ⟨done, stop, t, ?_, ?_⟩
    · unfold nuSdhRequest
      rw [Logged.bind_ok run₁, body, Logged.bind_ok run₂, Logged.bind_ok run₃]
      rfl
    · have trace : commandTrace bus host req = card ++ new := by
        unfold commandTrace
        rw [Logged.bind_ok run₁, body, run₂]
      rw [ends, trace]
      unfold Responded RtMmcsdReq.mask
      rw [statusReads_append, quiet, List.nil_append, same]
  cases data : req.data with
  | none =>
    refine .inr (sent none (by rw [data]; rfl) ?_)
    unfold nuSdhRequestCmd
    rw [cmd, data]
  | some d =>
    by_cases large : sdhBuffSize < d.blksize * d.blks
    · left
      have body : nuSdhRequestCmd bus host req = .fail .assertion := by
        unfold nuSdhRequestCmd
        rw [cmd, data]
        exact if_pos large
      constructor
      · unfold nuSdhRequest
        rw [Logged.bind_ok run₁, body]
        rfl
      · rintro ⟨v, hv, -⟩
        have trace : commandTrace bus host req = card := by
          unfold commandTrace
          rw [Logged.bind_ok run₁, body]
          rfl
        rw [trace, quiet, List.take_nil] at hv
        exact List.not_mem_nil hv
    · refine .inr (sent (some (d.mmc host)) (by rw [data]; rfl) ?_)
      unfold nuSdhRequestCmd
      rw [cmd, data]
      exact if_neg large

variable {bus host req}

theorem honest_data {c : RtMmcsdCmd} (honest : RequestHonest bus host req) (cmd : req.cmd = some c)
    (data : req.data ≠ none) (responded : Responded (req.mask host c) (commandTrace bus host req)) :
    DataDone (commandTrace bus host req) := by
  rcases nuSdhRequest_run bus host req cmd with ⟨-, silent⟩ | ⟨done, stop, t, run, ends⟩
  · exact absurd responded silent
  · exact (honest c done stop t cmd run (ends.mpr responded)).2 data

/-- An error of the data phase is lost: a request with data whose response has come is reported as
done whether or not the data were. -/
theorem request_honest_iff (bus : SdhBus) (host : SdhHost) (req : RtMmcsdReq) :
    RequestHonest bus host req ↔ req.data = none ∨
      (∀ c, req.cmd = some c → ¬Responded (req.mask host c) (commandTrace bus host req)) ∨
        DataDone (commandTrace bus host req) := by
  constructor
  · intro honest
    by_cases data : req.data = none
    · exact .inl data
    · by_cases silent : ∀ c, req.cmd = some c →
          ¬Responded (req.mask host c) (commandTrace bus host req)
      · exact .inr (.inl silent)
      · simp only [not_forall, not_not] at silent
        obtain ⟨c, cmd, responded⟩ := silent
        exact .inr (.inr (honest_data honest cmd data responded))
  · intro holds c done stop t cmd run fine
    rcases nuSdhRequest_run bus host req cmd with ⟨stops, -⟩ | ⟨done', stop', t', run', ends⟩
    · rw [run] at stops
      cases stops
    · rw [run] at run'
      cases run'
      have responded := ends.mp fine
      refine ⟨responded, fun data => ?_⟩
      rcases holds with none | silent | complete
      · exact absurd none data
      · exact absurd responded (silent c cmd)
      · exact complete

end Request

/-- A controller that is free, shows the response at once, and then a data CRC error. -/
def dataCrcBus : SdhBus where
  read _ r := if r = .normalIntStat then 0x3 else if r = .errorIntStat then 0x20 else 0
  test _ f := decide (f = .errInterrupt)

theorem dataCrc_send (cmd : MmcCmd) (d : MmcData) (log : List SdhAccess) : ∃ resp new,
    nuSdhSendCommand dataCrcBus cmd (some d) log = (.ok (0, resp), log ++ new) ∧
      .test .errInterrupt true ∈ new := by
  have mask : sdhCommandMask cmd (some d) = 0x3 ∨ sdhCommandMask cmd (some d) = 0x1 := by
    unfold sdhCommandMask
    split_ifs
    · exact .inl rfl
    · exact .inr rfl
  have free (inhibit : U32) :
      sdGetBusStatus dataCrcBus inhibit (2 * sdhCmdMaxTimeout) 0 sdhCmdDefaultTimeout log =
        (.ok 0, log ++ [.read .pstate 0]) := by
    refine (Logged.bind_ok (get_apply dataCrcBus .pstate log)).trans ?_
    rw [if_pos (show dataCrcBus.read log .pstate &&& inhibit = 0 from BitVec.zero_and)]
    rfl
  obtain ⟨issued, -, issue⟩ := issue_run cmd (some d) (log ++ [.read .pstate 0])
  have waited (log : List SdhAccess) :
      sdhWaitCommand dataCrcBus (sdhCommandMask cmd (some d)) (sdhCmdTimeout + 1) log =
        (.ok (some 0x3), log ++ [.read .normalIntStat 0x3]) := by
    have shown : dataCrcBus.read log .normalIntStat = 0x3 := rfl
    refine (Logged.bind_ok (get_apply dataCrcBus .normalIntStat log)).trans ?_
    rw [shown, if_neg (by decide), if_pos (by rcases mask with mask | mask <;> rw [mask] <;> decide)]
    rfl
  have moved (log : List SdhAccess) : sdhSendData dataCrcBus (some d) log =
      (.ok (-1), log ++ [.test .xferComplete false] ++ [.test .errInterrupt true]) := rfl
  obtain ⟨resp, answer, run, -⟩ := sendCommanddone_quiet dataCrcBus cmd
    (log ++ [.read .pstate 0] ++ issued ++ [.read .normalIntStat 0x3])
  have shown : (0x3 : U32) &&& (sdhIntError ||| sdhCommandMask cmd (some d)) =
      sdhCommandMask cmd (some d) := by
    rcases mask with mask | mask <;> rw [mask] <;> decide
  have after := Logged.bind_ok (f := fun resp => do
    let _ ← sdhSendData dataCrcBus (some d)
    let _ ← dataCrcBus.get .errorIntStat
    sdhWrite .normalIntStat (sdhCommandMask cmd (some d))
    sdhClearStatus
    return ((0 : Int), resp)) run
  rw [Logged.bind_ok (moved _)] at after
  refine ⟨resp, [.read .pstate 0] ++ issued ++ [.read .normalIntStat 0x3] ++ answer ++
    [.test .xferComplete false] ++ [.test .errInterrupt true] ++ [.read .errorIntStat 0x20] ++
    [.write .normalIntStat (sdhCommandMask cmd (some d))] ++ [.write .normalIntStat 0xFFFF] ++
    [.write .errorIntStat 0xFFFF], ?_, by simp⟩
  unfold nuSdhSendCommand
  dsimp only
  rw [Logged.bind_ok (free _), if_neg (by decide), issue, Logged.bind_ok (waited _)]
  dsimp only
  rw [if_pos shown]
  simp only [← List.append_assoc]
  exact after

/-- With data that fit the driver's buffer no request is honest whatever the controller does. -/
theorem honest_everywhere_iff {host : SdhHost} {req : RtMmcsdReq} {c : RtMmcsdCmd}
    (cmd : req.cmd = some c)
    (fits : ∀ d, req.data = some d → d.blksize * d.blks ≤ sdhBuffSize) :
    (∀ bus, RequestHonest bus host req) ↔ req.data = none := by
  constructor
  · intro honest
    cases data : req.data with
    | none => rfl
    | some d =>
      obtain ⟨_, card, run₁, -⟩ := sdhSetCard_quiet host.card []
      rw [List.nil_append] at run₁
      obtain ⟨resp, new, run₂, error⟩ := dataCrc_send c.mmc (d.mmc host) card
      have body : nuSdhRequestCmd dataCrcBus host req =
          some <$> sdhRun dataCrcBus c.mmc (some (d.mmc host)) := by
        unfold nuSdhRequestCmd
        rw [cmd, data]
        exact if_neg (BitVec.not_lt.mpr (fits d data))
      have sent : (some <$> sdhRun dataCrcBus c.mmc (some (d.mmc host))) card =
          (.ok (some ⟨0, resp⟩), card ++ new) := by
        unfold sdhRun
        rw [map_eq_pure_bind, bind_assoc, Logged.bind_ok run₂]
        rfl
      obtain ⟨stop, t, run₃⟩ := nuSdhRequestStop_run dataCrcBus req (card ++ new)
      have run : nuSdhRequest dataCrcBus host req [] = (.ok (some ⟨0, resp⟩, stop), t) := by
        unfold nuSdhRequest
        rw [Logged.bind_ok run₁, body, Logged.bind_ok sent, Logged.bind_ok run₃]
        rfl
      have trace : commandTrace dataCrcBus host req = card ++ new := by
        unfold commandTrace
        rw [Logged.bind_ok run₁, body, sent]
      have complete := (honest dataCrcBus c _ stop t cmd run rfl).2 (by simp [data])
      rw [trace] at complete
      exact absurd (List.mem_append_right card error) complete.2.1
  · intro none bus
    exact (request_honest_iff bus host req).mpr (.inl none)
def readOneBlock : RtMmcsdReq := ⟨some ⟨17, 0, 1⟩, some ⟨0x80000000, dataDirRead, 512, 1⟩, none⟩

theorem data_error_lost : ¬RequestHonest dataCrcBus ⟨some 1, 0x81000000⟩ readOneBlock := by
  intro honest
  have complete := honest_data honest rfl nofun ⟨0x3, by decide, by decide⟩
  exact absurd complete.1 (by decide)

end NuMakerMA35
