import NuMakerMA35.PdmaSgTable

namespace NuMakerMA35

/-- The channel's table `as` of live descriptors, as many as the channel counts. -/
def LiveTable (s : PdmaState) (ch : Nat) (as : List Addr) : Prop :=
  (s.chn ch).sgtbl ≠ 0 ∧ s.tables (s.chn ch).sgtbl = some as ∧
    as.length = (s.chn ch).wantedSGTblNum ∧ as.Nodup ∧ ∀ a ∈ as, (s.descs a).isSome

/-- Counts and tables agree, and every live descriptor is in one channel's table. -/
structure SgOwnership (s : PdmaState) : Prop where
  counted : ∀ ch, (s.chn ch).wantedSGTblNum ≠ 0 ↔ ∃ as, LiveTable s ch as
  oneOwner : ∀ a, (s.descs a).isSome → ∃! ch, ∃ as, LiveTable s ch as ∧ a ∈ as

theorem LiveTable.entries {s : PdmaState} {ch : Nat} {as : List Addr} (h : LiveTable s ch as) :
    tableEntries s ch = as := by
  obtain ⟨notNull, table, -⟩ := h
  rw [tableEntries, if_neg notNull, table]
  rfl

theorem SgInv.liveTable {s : PdmaState} (inv : SgInv s) {ch : Nat}
    (h : (s.chn ch).wantedSGTblNum ≠ 0) : LiveTable s ch (tableEntries s ch) := by
  obtain ⟨notNull, table⟩ := inv.table h
  exact ⟨notNull, table, inv.counted ch, inv.descs.nodup ch, inv.descs.held ch⟩

theorem SgInv.wanted_of_entry {s : PdmaState} (inv : SgInv s) {ch : Nat} {a : Addr}
    (h : a ∈ tableEntries s ch) : (s.chn ch).wantedSGTblNum ≠ 0 := by
  intro empty
  rw [← inv.counted, List.length_eq_zero_iff] at empty
  rw [empty] at h
  simp at h

theorem SgInv.sgOwnership {s : PdmaState} (inv : SgInv s) : SgOwnership s where
  counted := by
    intro ch
    constructor
    · exact fun h => ⟨_, inv.liveTable h⟩
    · rintro ⟨as, table⟩ empty
      exact table.1 (inv.null ch empty)
  oneOwner := by
    intro a ha
    obtain ⟨ch, owns, only⟩ := inv.descs.existsUnique ha
    refine ⟨ch, ⟨_, inv.liveTable (inv.wanted_of_entry owns), owns⟩, ?_⟩
    rintro j ⟨as, table, listed⟩
    exact only j (by show a ∈ tableEntries s j; rw [table.entries]; exact listed)

/-- Before the first allocation no channel is taken and none has a table. -/
def Unopened (s : PdmaState) : Prop :=
  s.inited = true ∨ ((∀ ch, (s.chn ch).wantedSGTblNum = 0) ∧ ∀ i, s.chnMask i = 0)

theorem Unopened.inited {s : PdmaState} (h : Unopened s) {ch : Nat} (alloc : s.allocated ch) :
    s.inited = true := by
  rcases h with inited | ⟨-, none⟩
  · exact inited
  · obtain ⟨-, bit⟩ := alloc
    rw [none] at bit
    simp at bit

/-- A call that stops the system or returns with the tables owned. -/
def Harmless (r : Except PdmaFault (PdmaState × Int)) : Prop :=
  r = .error .assertion ∨ ∃ s' ret, r = .ok (s', ret) ∧ SgInv s' ∧ Unopened s'

theorem not_allocated_cases {s : PdmaState} {ch : Nat} (h : ¬s.allocated ch) :
    nuPdmaCheckIsNonallocated s ch = .error .assertion ∨
      nuPdmaCheckIsNonallocated s ch = .ok true := by
  rcases check_cases s ch with fault | free | alloc
  · exact .inl fault
  · exact .inr free
  · exact absurd alloc h

theorem nuPdmaTransfer_not_allocated {s : PdmaState} {ch : Nat} (h : ¬s.allocated ch)
    (inv : SgInv s) (opened : Unopened s)
    (dataWidth addrSrc addrDst transferCnt idleTimeoutUs : U32) (allocs : List (Option Addr)) :
    Harmless (nuPdmaTransfer s ch dataWidth addrSrc addrDst transferCnt idleTimeoutUs allocs) := by
  unfold nuPdmaTransfer
  rcases not_allocated_cases h with fault | free
  · rw [fault]
    exact .inl rfl
  · rw [free]
    exact .inr ⟨s, _, rfl, inv, opened⟩

theorem nuPdmaTransfer_small {s : PdmaState} {ch : Nat} (alloc : s.allocated ch) (inv : SgInv s)
    (opened : Unopened s) (dataWidth addrSrc addrDst : U32) {transferCnt : U32}
    (small : transferCnt.toNat ≤ nuPdmaMaxTxcnt) (idleTimeoutUs : U32)
    (allocs : List (Option Addr)) :
    Harmless (nuPdmaTransfer s ch dataWidth addrSrc addrDst transferCnt idleTimeoutUs allocs) := by
  unfold nuPdmaTransfer
  simp only [check_of_allocated alloc, bind, Except.bind, pure, Except.pure, Bool.false_eq_true,
    if_false, nuPdmaDescSetup_eq alloc]
  by_cases zero : transferCnt = 0
  · rw [if_pos zero]
    exact .inr ⟨s, _, rfl, inv, opened⟩
  rw [if_neg zero, if_neg (by omega)]
  by_cases accepts : descAccepts (.reg ch) dataWidth addrSrc addrDst transferCnt
  · rw [if_pos accepts]
    have alloc' : PdmaState.allocated { s with dsct := Function.update s.dsct ch (descOf
      (s.chn ch).memCtl ((s.chn ch).peripheral = pdmaMem) dataWidth addrSrc addrDst transferCnt 0
      false) } ch := alloc
    obtain ⟨s', start, same⟩ := nuPdmaTransferHead_safe alloc' (s.chn ch).peripheral idleTimeoutUs
      (.reg ch) rfl
    simp only [PdmaState.writeDesc, Except.map, ne_eq, not_true_eq_false, if_false, start]
    refine .inr ⟨s', _, rfl, ?_, ?_⟩
    · exact same.sgInv
        (SameTables.sgInv (s := s) ⟨rfl, fun _ => rfl, fun _ => rfl, fun _ => rfl⟩ inv)
    · left
      rw [(nuPdmaTransferHead_keeps start).inited]
      exact opened.inited alloc
  · rw [if_neg accepts]
    exact .inr ⟨s, _, rfl, inv, opened⟩

theorem nuPdmaTransfer_eq_chain {s : PdmaState} {ch : Nat} (alloc : s.allocated ch)
    (dataWidth addrSrc addrDst : U32) {transferCnt : U32}
    (large : nuPdmaMaxTxcnt < transferCnt.toNat) (idleTimeoutUs : U32)
    (allocs : List (Option Addr)) :
    nuPdmaTransfer s ch dataWidth addrSrc addrDst transferCnt idleTimeoutUs allocs =
      nuPdmaTransferChain s ch dataWidth addrSrc addrDst transferCnt idleTimeoutUs allocs := by
  have positive : transferCnt ≠ 0 := by
    intro zero
    rw [zero] at large
    exact absurd large (by decide)
  unfold nuPdmaTransfer
  simp only [check_of_allocated alloc, bind, Except.bind, Bool.false_eq_true, if_false]
  rw [if_neg positive, if_pos large]

/-- A chain transfer needs a table of the wanted length, or the memory for a new one. -/
def HasTable (s : PdmaState) (ch : Nat) (transferCnt : U32) (allocs : List (Option Addr)) : Prop :=
  (s.chn ch).wantedSGTblNum = wantedFor transferCnt ∨ TableGranted s ch allocs

theorem nuPdmaTransfer_large_harmless {s : PdmaState} {ch : Nat} (alloc : s.allocated ch)
    (inv : SgInv s) (opened : Unopened s) (dataWidth addrSrc addrDst : U32) {transferCnt : U32}
    (large : nuPdmaMaxTxcnt < transferCnt.toNat) (idleTimeoutUs : U32)
    {allocs : List (Option Addr)} (had : HasTable s ch transferCnt allocs) :
    Harmless (nuPdmaTransfer s ch dataWidth addrSrc addrDst transferCnt idleTimeoutUs allocs) := by
  rw [nuPdmaTransfer_eq_chain alloc _ _ _ large]
  have finish {t : PdmaState} (table : chainTable s ch transferCnt allocs = .ok (t, true))
      (inv' : SgInv t) : Harmless (nuPdmaTransferChain s ch dataWidth addrSrc addrDst transferCnt
        idleTimeoutUs allocs) := by
    obtain ⟨s', ret, run, owned⟩ := nuPdmaTransferChain_of_table alloc dataWidth addrSrc
      addrDst idleTimeoutUs table inv'
    refine .inr ⟨s', ret, run, owned, .inl ?_⟩
    rw [(nuPdmaTransferChain_keeps run).inited]
    exact opened.inited alloc
  by_cases kept : (s.chn ch).wantedSGTblNum = wantedFor transferCnt
  · exact finish (by unfold chainTable; rw [if_pos kept]; rfl) inv
  · rcases chainTable_granted inv kept (had.resolve_left kept) with fault | ⟨t, table, inv'⟩
    · unfold nuPdmaTransferChain nuPdmaChannelMemctrlGet
      simp only [check_of_allocated alloc, fault, bind, Except.bind, pure, Except.pure,
        Bool.false_eq_true, if_false]
      exact .inl rfl
    · exact finish table inv'

theorem nuPdmaTransfer_large_broken {s : PdmaState} {ch : Nat} (alloc : s.allocated ch)
    (inv : SgInv s) (dataWidth addrSrc addrDst : U32) {transferCnt : U32}
    (large : nuPdmaMaxTxcnt < transferCnt.toNat) (idleTimeoutUs : U32)
    {allocs : List (Option Addr)} (missing : ¬HasTable s ch transferCnt allocs) :
    ∃ s' ret, nuPdmaTransfer s ch dataWidth addrSrc addrDst transferCnt idleTimeoutUs allocs =
      .ok (s', ret) ∧ ¬SgOwnership s' := by
  obtain ⟨stale, refused⟩ := not_or.mp missing
  obtain ⟨t, table, wanted, null⟩ := chainTable_refused inv stale refused
  rw [nuPdmaTransfer_eq_chain alloc _ _ _ large]
  unfold nuPdmaTransferChain nuPdmaChannelMemctrlGet nuPdmaFreeSgtbls
  simp only [check_of_allocated alloc, table, bind, Except.bind, pure, Except.pure,
    Bool.false_eq_true, if_false, Bool.not_false, if_true, null]
  refine ⟨t, -rtError, rfl, ?_⟩
  intro owned
  have count : (t.chn ch).wantedSGTblNum ≠ 0 := by
    rw [wanted]
    exact Nat.succ_ne_zero _
  obtain ⟨as, live⟩ := (owned.counted ch).mp count
  exact live.1 null

theorem nuPdmaChannelFree_harmless {s : PdmaState} (inv : SgInv s) (opened : Unopened s)
    (ch : Nat) : Harmless (nuPdmaChannelFree s ch) := by
  unfold nuPdmaChannelFree
  by_cases inited : s.inited = true
  · simp only [inited, Bool.not_true, Bool.false_eq_true, if_false]
    rcases check_cases s ch with fault | free | alloc
    · rw [fault]
      exact .inl rfl
    · rw [free]
      exact .inr ⟨s, _, rfl, inv, opened⟩
    · rw [check_of_allocated alloc]
      simp only [bind, Except.bind, Bool.false_eq_true, if_false]
      split
      · refine .inr ⟨_, _, rfl, ?_, .inl rfl⟩
        exact SameTables.sgInv (s := s) ⟨rfl, fun _ => rfl, fun _ => rfl, fun _ => rfl⟩ inv
      · exact .inr ⟨s, _, rfl, inv, opened⟩
  · rw [if_pos (by simpa using inited)]
    exact .inr ⟨s, _, rfl, inv, opened⟩

theorem nuPdmaChannelMemctrlSet_harmless {s : PdmaState} (inv : SgInv s) (opened : Unopened s)
    (ch : Nat) (memCtl : MemCtrl) : Harmless (nuPdmaChannelMemctrlSet s ch memCtl) := by
  unfold nuPdmaChannelMemctrlSet
  rcases check_cases s ch with fault | free | alloc
  · rw [fault]
    exact .inl rfl
  · rw [free]
    exact .inr ⟨s, _, rfl, inv, opened⟩
  · rw [check_of_allocated alloc]
    simp only [bind, Except.bind, Bool.false_eq_true, if_false]
    split
    · exact .inr ⟨s, _, rfl, inv, opened⟩
    · split
      · exact .inr ⟨s, _, rfl, inv, opened⟩
      · refine .inr ⟨_, _, rfl, ?_, .inl (opened.inited alloc)⟩
        refine SameTables.sgInv (s := s) ?_ inv
        exact setChn_sameTables s ch rfl rfl

theorem nuPdmaChannelTerminate_allocated {s : PdmaState} {ch : Nat} (alloc : s.allocated ch) :
    ∃ s', nuPdmaChannelTerminate s ch = .ok s' ∧ SameTables s s' ∧ s'.inited = s.inited := by
  unfold nuPdmaChannelTerminate
  simp only [check_of_allocated alloc, nuPdmaTimeoutSet_of_allocated alloc, bind, Except.bind,
    Bool.false_eq_true, if_false]
  have timed := setChn_sameTables s ch (c := { s.chn ch with idleTimeoutUs := 0 }) rfl rfl
  exact ⟨_, rfl, timed.trans ⟨rfl, fun _ => rfl, fun _ => rfl, fun _ => rfl⟩, rfl⟩

theorem nuPdmaChannelTerminate_harmless {s : PdmaState} (inv : SgInv s) (opened : Unopened s)
    (ch : Nat) : Harmless ((nuPdmaChannelTerminate s ch).map (·, rtEok)) := by
  by_cases alloc : s.allocated ch
  · obtain ⟨s', run, same, inited⟩ := nuPdmaChannelTerminate_allocated alloc
    rw [run]
    exact .inr ⟨s', _, rfl, same.sgInv inv, .inl (inited.trans (opened.inited alloc))⟩
  · unfold nuPdmaChannelTerminate
    rcases not_allocated_cases alloc with fault | free
    · rw [fault]
      exact .inl rfl
    · rw [free]
      exact .inr ⟨s, _, rfl, inv, opened⟩

theorem firstFreeChannel_spec {s : PdmaState} {n : Nat} : ∀ {j k c : Nat},
    firstFreeChannel s n j = some (k, c) →
      k < j + n ∧ c < pdmaChMax ∧ (s.chnMask k).getLsbD c = false := by
  induction n with
  | zero =>
    intro j k c h
    cases h
  | succ n ih =>
    intro j k c h
    unfold firstFreeChannel at h
    simp only at h
    split at h
    next free =>
      cases h
      obtain ⟨i, hi, zero⟩ := (nuCto_lt_iff (s.chnMask j)).mp (by unfold pdmaChMax at free; omega)
      exact ⟨by omega, free, (nuCto_of_zero_bit hi zero).2.1⟩
    · obtain ⟨bound, free⟩ := ih h
      exact ⟨by omega, free⟩

theorem nuPdmaInit_sameTables {s : PdmaState} (inv : SgInv s) (opened : Unopened s) :
    SameTables s (nuPdmaInit s) := by
  unfold nuPdmaInit
  split
  · exact .refl s
  next closed =>
    have unopened := (opened.resolve_left closed).1
    refine ⟨rfl, fun _ => rfl, ?_, ?_⟩
    · intro ch
      exact (inv.null ch (unopened ch)).symm
    · intro ch
      exact (unopened ch).symm

theorem nuPdmaInit_inited (s : PdmaState) : (nuPdmaInit s).inited = true := by
  unfold nuPdmaInit
  split
  next inited => exact inited
  · rfl

def nextChannel (s : PdmaState) (periphType : U32) : Option Nat :=
  match nuPdmaPeripheralSet periphType with
  | none => none
  | some _ => (nuPdmaInit s).freeChannel.map fun f => f.2 + f.1 * pdmaChMax

def PdmaState.wiped (s : PdmaState) (ch : Nat) (c : PdmaChn) : PdmaState :=
  s.setChn ch { PdmaChn.cleared with peripheral := c.peripheral, memCtl := c.memCtl }

theorem wiped_entries (s : PdmaState) (ch : Nat) (c : PdmaChn) :
    tableEntries (s.wiped ch c) = Function.update (tableEntries s) ch [] := by
  funext j
  by_cases same : j = ch
  · subst same
    simp [tableEntries, PdmaState.wiped, PdmaState.setChn, PdmaChn.cleared]
  · simp [tableEntries, PdmaState.wiped, PdmaState.setChn, same]

theorem nuPdmaChannelAllocate_none {s : PdmaState} {periphType : U32}
    (h : nextChannel s periphType = none) :
    nuPdmaChannelAllocate s periphType = .ok (nuPdmaInit s, -rtError) := by
  unfold nextChannel at h
  unfold nuPdmaChannelAllocate
  cases known : nuPdmaPeripheralSet periphType with
  | none => rfl
  | some periph =>
    rw [known] at h
    have busy : (nuPdmaInit s).freeChannel = none := by simpa using h
    simp only [busy]
    rfl

theorem nuPdmaChannelAllocate_some {s : PdmaState} {periphType : U32} {ch : Nat}
    (h : nextChannel s periphType = some ch) :
    ∃ s' c, nuPdmaChannelAllocate s periphType = .ok (s', ch) ∧
      SameTables ((nuPdmaInit s).wiped ch c) s' ∧ s'.inited = true := by
  unfold nextChannel at h
  cases known : nuPdmaPeripheralSet periphType with
  | none =>
    rw [known] at h
    cases h
  | some periph =>
    obtain ⟨peripheral, memCtl⟩ := periph
    rw [known] at h
    obtain ⟨⟨j, c⟩, free, number⟩ := Option.map_eq_some_iff.mp h
    obtain ⟨module, channel, -⟩ := firstFreeChannel_spec free
    have index : ch / pdmaChMax = j ∧ ch % pdmaChMax = c := by
      subst number
      unfold pdmaChMax at *
      omega
    have alloc : PdmaState.allocated (PdmaState.setChn { nuPdmaInit s with
        chnMask := Function.update (nuPdmaInit s).chnMask j
          ((nuPdmaInit s).chnMask j ||| (1 : U32) <<< c) } ch { PdmaChn.cleared with peripheral := peripheral, memCtl := memCtl }) ch := by
      unfold PdmaState.allocated
      rw [index.1, index.2]
      refine ⟨by simpa using module, ?_⟩
      have bit := setBit_getLsbD ((nuPdmaInit s).chnMask j)
        (show c < 32 by unfold pdmaChMax at channel; omega) c
      simpa [PdmaState.setChn] using bit
    obtain ⟨s', run, same, inited⟩ := nuPdmaChannelTerminate_allocated alloc
    refine ⟨s', ⟨0, 0, 0, peripheral, memCtl⟩, ?_, ?_, ?_⟩
    · unfold nuPdmaChannelAllocate
      have number : c + j * pdmaChMax = ch := number
      simp only [known, free, number, run, bind, Except.bind, pure, Except.pure]
    · refine SameTables.trans ?_ same
      exact ⟨rfl, fun _ => rfl, fun _ => rfl, fun _ => rfl⟩
    · rw [inited]
      exact nuPdmaInit_inited s

theorem nuPdmaChannelAllocate_harmless {s : PdmaState} (inv : SgInv s) (opened : Unopened s)
    {periphType : U32} (empty : ∀ ch, nextChannel s periphType = some ch →
      ((nuPdmaInit s).chn ch).wantedSGTblNum = 0) :
    Harmless (nuPdmaChannelAllocate s periphType) := by
  have inv' := (nuPdmaInit_sameTables inv opened).sgInv inv
  cases next : nextChannel s periphType with
  | none =>
    rw [nuPdmaChannelAllocate_none next]
    exact .inr ⟨_, _, rfl, inv', .inl (nuPdmaInit_inited s)⟩
  | some ch =>
    obtain ⟨s', c, run, same, inited⟩ := nuPdmaChannelAllocate_some next
    have none := empty ch next
    rw [run]
    refine .inr ⟨s', _, rfl, same.sgInv (SameTables.sgInv ?_ inv'), .inl inited⟩
    exact setChn_sameTables _ ch (inv'.null ch none).symm none.symm

theorem nuPdmaChannelAllocate_broken {s : PdmaState} (inv : SgInv s) (opened : Unopened s)
    {periphType : U32} {ch : Nat} (next : nextChannel s periphType = some ch)
    (held : ((nuPdmaInit s).chn ch).wantedSGTblNum ≠ 0) :
    ∃ s' ret, nuPdmaChannelAllocate s periphType = .ok (s', ret) ∧ ¬SgOwnership s' := by
  have inv' := (nuPdmaInit_sameTables inv opened).sgInv inv
  obtain ⟨s', c, run, same, -⟩ := nuPdmaChannelAllocate_some next
  refine ⟨s', _, run, ?_⟩
  intro owned
  have some_entry : 0 < (tableEntries (nuPdmaInit s) ch).length := by
    have count := inv'.counted ch
    omega
  have owns := List.getElem_mem some_entry
  obtain ⟨j, ⟨as, table, listed⟩, -⟩ := owned.oneOwner _
    ((same.live _).trans (inv'.descs.held ch _ owns))
  rw [← table.entries, same.entries, wiped_entries] at listed
  exact inv'.descs.forgotten owns j listed

/-- The steps that keep the tables owned: an allocation takes a channel without a table, and a
chain transfer has its table or gets the memory for one. -/
def KeepsTables : Except PdmaFault PdmaState → PdmaOp → Prop
  | .ok s, .allocate periphType => ∀ ch, nextChannel s periphType = some ch →
      ((nuPdmaInit s).chn ch).wantedSGTblNum = 0
  | .ok s, .transfer ch _ _ _ transferCnt _ allocs => s.allocated ch →
      nuPdmaMaxTxcnt < transferCnt.toNat → HasTable s ch transferCnt allocs
  | _, _ => True

/-- The tables are owned, and no pointer to a missing one was followed. -/
def TablesSafe : Except PdmaFault PdmaState → Prop
  | .ok s => SgOwnership s
  | .error e => e ≠ .badPointer

def TablesInv : Except PdmaFault PdmaState → Prop
  | .ok s => SgInv s ∧ Unopened s
  | .error e => e = .assertion

theorem TablesInv.safe {r : Except PdmaFault PdmaState} (h : TablesInv r) : TablesSafe r := by
  cases r with
  | ok s => exact h.1.sgOwnership
  | error e =>
    cases h
    simp [TablesSafe]

theorem Harmless.tablesInv {r : Except PdmaFault (PdmaState × Int)} (h : Harmless r) :
    TablesInv (r.map (·.1)) := by
  rcases h with fault | ⟨s', ret, run, inv, opened⟩
  · rw [fault]
    rfl
  · rw [run]
    exact ⟨inv, opened⟩

theorem pdmaStep_keepsTables {r : Except PdmaFault PdmaState} {op : PdmaOp} (h : TablesInv r)
    (good : KeepsTables r op) : TablesInv (pdmaStep r op) := by
  cases r with
  | error e => exact h
  | ok s =>
    obtain ⟨inv, opened⟩ := h
    apply Harmless.tablesInv
    cases op with
    | allocate periphType => exact nuPdmaChannelAllocate_harmless inv opened good
    | free ch => exact nuPdmaChannelFree_harmless inv opened ch
    | memctrlSet ch memCtl => exact nuPdmaChannelMemctrlSet_harmless inv opened ch memCtl
    | terminate ch => exact nuPdmaChannelTerminate_harmless inv opened ch
    | transfer ch dataWidth addrSrc addrDst transferCnt idleTimeoutUs allocs =>
      by_cases alloc : s.allocated ch
      · by_cases large : nuPdmaMaxTxcnt < transferCnt.toNat
        · exact nuPdmaTransfer_large_harmless alloc inv opened _ _ _ large _ (good alloc large)
        · exact nuPdmaTransfer_small alloc inv opened _ _ _ (by omega) _ _
      · exact nuPdmaTransfer_not_allocated alloc inv opened _ _ _ _ _ _

theorem pdmaStep_tablesSafe_iff {r : Except PdmaFault PdmaState} {op : PdmaOp} (h : TablesInv r) :
    TablesSafe (pdmaStep r op) ↔ KeepsTables r op := by
  refine ⟨?_, fun good => (pdmaStep_keepsTables h good).safe⟩
  intro safe
  cases r with
  | error e => trivial
  | ok s =>
    obtain ⟨inv, opened⟩ := h
    have broken {s' : PdmaState} {ret : Int} (run : pdmaCall s op = .ok (s', ret)) :
        SgOwnership s' := by
      have step : pdmaStep (.ok s) op = .ok s' := by
        show (pdmaCall s op).map (·.1) = .ok s'
        rw [run]
        rfl
      rw [step] at safe
      exact safe
    cases op with
    | allocate periphType =>
      intro ch next
      by_contra held
      obtain ⟨s', ret, run, lost⟩ := nuPdmaChannelAllocate_broken inv opened next held
      exact lost (broken run)
    | transfer ch dataWidth addrSrc addrDst transferCnt idleTimeoutUs allocs =>
      intro alloc large
      by_contra missing
      obtain ⟨s', ret, run, lost⟩ := nuPdmaTransfer_large_broken alloc inv dataWidth addrSrc addrDst
        large idleTimeoutUs missing
      exact lost (broken run)
    | free => trivial
    | memctrlSet => trivial
    | terminate => trivial

theorem powerOn_tablesInv : TablesInv (.ok .powerOn) := by
  refine ⟨⟨?_, ?_, fun _ => rfl, fun _ _ => rfl, fun _ => by simp [PdmaState.powerOn], ?_⟩,
    .inr ⟨fun _ => rfl, fun _ => rfl⟩⟩
  · refine ⟨fun ch => ?_, fun ch a ha => ?_, fun ch j a ha => ?_, fun a ha => ?_⟩
    · exact List.nodup_nil
    · exact absurd ha List.not_mem_nil
    · exact absurd ha List.not_mem_nil
    · cases ha
  · refine ⟨fun ch => ?_, fun ch a ha => ?_, fun ch j a ha => ?_, fun a ha => ?_⟩
    · exact List.nodup_nil
    · exact absurd ha List.not_mem_nil
    · exact absurd ha List.not_mem_nil
    · cases ha
  · intro a ha
    cases ha

/-- Counts, tables and descriptors stay matched through a whole run, and no missing table is
followed, exactly when no step of it takes a channel that still has a table or is refused the
memory for a pointer table. -/
theorem tables_safe_throughout_iff (ops : List PdmaOp) :
    (∀ pre, pre <+: ops → TablesSafe (pre.foldl pdmaStep (.ok .powerOn))) ↔
      Runs.StepsMeet pdmaStep KeepsTables (.ok .powerOn) ops :=
  Runs.prefixes_hold_iff TablesInv TablesSafe (fun _ h => h.safe) (fun _ _ h => pdmaStep_tablesSafe_iff h)
    (fun _ _ h good => pdmaStep_keepsTables h good) powerOn_tablesInv ops

/-- A transfer refused its pointer table, tried once more with the same count. -/
def refusedThenRetried : List PdmaOp :=
  [.allocate pdmaMem, .transfer 0 8 0x80000000 0x81000000 70000 0 [none],
    .transfer 0 8 0x80000000 0x81000000 70000 0 []]

theorem refusedThenRetried_bad_pointer :
    ¬∀ pre, pre <+: refusedThenRetried → TablesSafe (pre.foldl pdmaStep (.ok .powerOn)) := by
  intro safe
  have last : refusedThenRetried.foldl pdmaStep (.ok .powerOn) = .error .badPointer := rfl
  have bad := safe refusedThenRetried (List.prefix_refl _)
  rw [last] at bad
  exact bad rfl

end NuMakerMA35
