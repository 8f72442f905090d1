import NuMakerMA35.PdmaTransfer
import Mathlib.Data.List.Nodup

namespace NuMakerMA35

theorem rtMallocAlign_some_iff {s : PdmaState} {allocs rest : List (Option Addr)} {a : Addr} :
    rtMallocAlign s allocs = (some a, rest) ↔
      allocs = some a :: rest ∧ a ≠ 0 ∧ s.live a = false := by
  cases allocs with
  | nil => simp [rtMallocAlign]
  | cons first tail =>
    cases first with
    | none => simp [rtMallocAlign]
    | some b =>
      simp only [rtMallocAlign, Prod.mk.injEq, List.cons.injEq, Option.some.injEq]
      by_cases used : b = 0 ∨ s.live b
      · rw [if_pos used]
        constructor
        · rintro ⟨h, -⟩
          cases h
        · rintro ⟨⟨rfl, -⟩, notNull, fresh⟩
          rcases used with null | used
          · exact absurd null notNull
          · rw [fresh] at used
            simp at used
      · rw [if_neg used]
        simp only [not_or, Bool.not_eq_true] at used
        constructor
        · rintro ⟨same, tail⟩
          cases same
          exact ⟨⟨rfl, tail⟩, used⟩
        · rintro ⟨⟨same, tail⟩, -⟩
          exact ⟨by rw [same], tail⟩

theorem live_addEntry {s : PdmaState} {tbl a : Addr} {acc : List Addr}
    (table : s.tables tbl = some acc) (b : Addr) :
    (s.addEntry tbl a).live b = (s.live b || decide (b = a)) := by
  unfold PdmaState.live PdmaState.addEntry
  by_cases isTable : b = tbl
  · subst isTable
    simp [table]
  · by_cases isEntry : b = a
    · subst isEntry
      simp
    · simp [isTable, isEntry]

theorem sgtblsFill_ok {tbl : Addr} {num : Nat} : ∀ {s s' : PdmaState} (acc : List Addr)
    {allocs : List (Option Addr)}, s.tables tbl = some acc → sgtblsFill s tbl num allocs = .ok s' →
    ∃ as, as.length = num ∧ as.Nodup ∧ (∀ a ∈ as, a ≠ 0 ∧ s.live a = false) ∧
      s' = { s with
        tables := Function.update s.tables tbl (some (acc ++ as))
        descs := fun a => if a ∈ as then some ⟨0, 0, 0, 0⟩ else s.descs a } := by
  induction num with
  | zero =>
    intro s s' acc allocs table h
    cases h
    exact ⟨[], rfl, List.nodup_nil, by simp, by simp [← table]⟩
  | succ num ih =>
    intro s s' acc allocs table h
    unfold sgtblsFill at h
    split at h
    · cases h
    next a rest granted =>
      obtain ⟨-, notNull, fresh⟩ := rtMallocAlign_some_iff.mp granted
      have table' : (s.addEntry tbl a).tables tbl = some (acc ++ [a]) := by
        simp [PdmaState.addEntry, table]
      obtain ⟨as, len, nodup, each, same⟩ := ih _ table' h
      have later : ∀ b ∈ as, b ≠ 0 ∧ s.live b = false ∧ b ≠ a := by
        intro b hb
        obtain ⟨hz, hl⟩ := each b hb
        rw [live_addEntry table] at hl
        exact ⟨hz, by simpa using hl⟩
      refine ⟨a :: as, by simp [len], ?_, ?_, ?_⟩
      · exact List.nodup_cons.mpr ⟨fun hb => (later a hb).2.2 rfl, nodup⟩
      · intro b hb
        rcases List.mem_cons.mp hb with same' | hb
        · rw [same']
          exact ⟨notNull, fresh⟩
        · exact ⟨(later b hb).1, (later b hb).2.1⟩
      · rw [same]
        unfold PdmaState.addEntry
        congr 1
        · simp
        · funext b
          by_cases isEntry : b = a <;> by_cases hb : b ∈ as <;> simp [isEntry, hb]

theorem sgtblsFill_fault {tbl : Addr} {num : Nat} {e : PdmaFault} : ∀ {s : PdmaState}
    {allocs : List (Option Addr)}, sgtblsFill s tbl num allocs = .error e → e = .assertion := by
  induction num with
  | zero =>
    intro s allocs h
    cases h
  | succ num ih =>
    intro s allocs h
    unfold sgtblsFill at h
    split at h
    · cases h
      rfl
    · exact ih h

theorem sgtblsRelease_frame {tbl : Addr} {left : Nat} : ∀ {s s' : PdmaState} {i : Nat},
    sgtblsRelease s tbl left i = .ok s' → ∃ f, s' = { s with descs := f } := by
  induction left with
  | zero =>
    intro s s' i h
    cases h
    exact ⟨s.descs, rfl⟩
  | succ left ih =>
    intro s s' i h
    unfold sgtblsRelease at h
    obtain ⟨a, -, h⟩ := Runs.bind_ok_iff.mp h
    split at h
    · obtain ⟨f, same⟩ := ih h
      exact ⟨f, by rw [same]⟩
    · cases h

def TablesNodup (s : PdmaState) : Prop := ∀ t as, s.tables t = some as → as.Nodup

/-- The masks and the modes of all channels stay, and tables without repetition stay so. -/
structure KeepsModes (s s' : PdmaState) : Prop where
  inited : s'.inited = s.inited
  mask : s'.chnMask = s.chnMask
  memCtl : ∀ ch, (s'.chn ch).memCtl = (s.chn ch).memCtl
  peripheral : ∀ ch, (s'.chn ch).peripheral = (s.chn ch).peripheral
  nodup : TablesNodup s → TablesNodup s'

theorem KeepsModes.refl (s : PdmaState) : KeepsModes s s := ⟨rfl, rfl, fun _ => rfl, fun _ => rfl, id⟩

theorem KeepsModes.trans {s t u : PdmaState} (h : KeepsModes s t) (h' : KeepsModes t u) :
    KeepsModes s u :=
  ⟨h'.inited.trans h.inited, h'.mask.trans h.mask, fun ch => (h'.memCtl ch).trans (h.memCtl ch),
    fun ch => (h'.peripheral ch).trans (h.peripheral ch), fun n => h'.nodup (h.nodup n)⟩

theorem KeepsModes.allocated {s t : PdmaState} (h : KeepsModes s t) {ch : Nat} :
    t.allocated ch ↔ s.allocated ch := by
  unfold PdmaState.allocated
  rw [h.mask]

theorem keepsModes_setChn (s : PdmaState) (ch : Nat) {c : PdmaChn}
    (mode : c.memCtl = (s.chn ch).memCtl) (periph : c.peripheral = (s.chn ch).peripheral) :
    KeepsModes s (s.setChn ch c) where
  inited := rfl
  mask := rfl
  memCtl := by
    intro ch'
    by_cases same : ch' = ch
    · subst same
      simpa [PdmaState.setChn] using mode
    · simp [PdmaState.setChn, same]
  peripheral := by
    intro ch'
    by_cases same : ch' = ch
    · subst same
      simpa [PdmaState.setChn] using periph
    · simp [PdmaState.setChn, same]
  nodup := id

theorem nuPdmaFreeSgtbls_keeps {s s' : PdmaState} {ch : Nat} (h : nuPdmaFreeSgtbls s ch = .ok s') :
    KeepsModes s s' := by
  unfold nuPdmaFreeSgtbls at h
  by_cases null : (s.chn ch).sgtbl = 0
  · rw [if_pos null] at h
    cases h
    exact .refl s
  · rw [if_neg null] at h
    obtain ⟨t, release, h⟩ := Runs.bind_ok_iff.mp h
    unfold nuPdmaSgtblsFree at release
    split at release
    · cases release
    · obtain ⟨f, same⟩ := sgtblsRelease_frame release
      subst same
      cases h
      refine KeepsModes.trans (t := { s with tables := _, descs := f }) ?_ (keepsModes_setChn _ ch rfl rfl)
      refine ⟨rfl, rfl, fun _ => rfl, fun _ => rfl, ?_⟩
      intro nodup t as table
      by_cases freed : t = (s.chn ch).sgtbl
      · subst freed
        simp at table
      · exact nodup t as (by simpa [freed] using table)

theorem nuPdmaTimeoutSet_keeps {s s' : PdmaState} {ch : Nat} {timeoutUs : U32}
    (h : nuPdmaTimeoutSet s ch timeoutUs = .ok s') : KeepsModes s s' := by
  rcases nuPdmaTimeoutSet_ok h with same | set
  · exact same ▸ .refl s
  · exact set ▸ keepsModes_setChn s ch rfl rfl

theorem nuPdmaTransferHead_keeps {s s' : PdmaState} {ch : Nat} {peripheral idleTimeoutUs : U32}
    {head : DescRef} (h : nuPdmaTransferHead s ch peripheral head idleTimeoutUs = .ok s') :
    KeepsModes s s' := by
  unfold nuPdmaTransferHead at h
  obtain ⟨d, -, h⟩ := Runs.bind_ok_iff.mp h
  exact KeepsModes.trans (t := pdmaSetTransferMode s ch peripheral (d.next ≠ 0) head.addr)
    ⟨rfl, rfl, fun _ => rfl, fun _ => rfl, id⟩ (nuPdmaTimeoutSet_keeps h)

theorem nuPdmaDescSetup_mem_frame {s t : PdmaState} {ch : Nat} {a : Addr}
    {dataWidth addrSrc addrDst transferCnt next : U32} {beSilent : Bool} {ret : Int}
    (h : nuPdmaDescSetup s ch (.mem a) dataWidth addrSrc addrDst transferCnt next beSilent =
      .ok (t, ret)) : ∃ f, t = { s with descs := f } := by
  rcases check_cases s ch with fault | free | alloc
  · unfold nuPdmaDescSetup at h
    rw [fault] at h
    split at h
    · cases h
      exact ⟨s.descs, rfl⟩
    · cases h
  · unfold nuPdmaDescSetup at h
    rw [free] at h
    split at h <;> cases h <;> exact ⟨s.descs, rfl⟩
  · rcases nuPdmaDescSetup_mem_cases alloc h with ⟨-, same⟩ | ⟨-, -, -, same⟩
    · exact ⟨s.descs, same⟩
    · exact ⟨_, same⟩

theorem chainSetup_frame {ch : Nat} {dataWidth addrSrc addrDst : U32} {memCtl : MemCtrl}
    {left : Nat} : ∀ {i : Nat} {s s' : PdmaState} {transferCnt offset : U32} {ret : Int},
    chainSetup ch dataWidth addrSrc addrDst memCtl left i s transferCnt offset = .ok (s', ret) →
    ∃ f, s' = { s with descs := f } := by
  induction left with
  | zero =>
    intro i s s' transferCnt offset ret h
    cases h
    exact ⟨s.descs, rfl⟩
  | succ left ih =>
    intro i s s' transferCnt offset ret h
    unfold chainSetup at h
    obtain ⟨a, -, h⟩ := Runs.bind_ok_iff.mp h
    obtain ⟨next, -, h⟩ := Runs.bind_ok_iff.mp h
    obtain ⟨⟨t, code⟩, setup, h⟩ := Runs.bind_ok_iff.mp h
    obtain ⟨f, same⟩ := nuPdmaDescSetup_mem_frame setup
    subst same
    simp only at h
    split at h
    · cases h
      exact ⟨f, rfl⟩
    · obtain ⟨f', same'⟩ := ih h
      exact ⟨f', by rw [same']⟩

theorem dropStaleTable_keeps {s s' : PdmaState} {ch : Nat} (h : dropStaleTable s ch = .ok s') :
    KeepsModes s s' := by
  unfold dropStaleTable at h
  split at h
  · exact nuPdmaFreeSgtbls_keeps h
  · cases h
    exact .refl s

theorem newTable_keeps {s s' : PdmaState} {tbl : Addr} {num : Nat} {allocs : List (Option Addr)}
    (h : nuPdmaSgtblsAllocate { s with tables := Function.update s.tables tbl (some []) } tbl num
      allocs = .ok s') : KeepsModes s s' ∧ s'.chn = s.chn := by
  unfold nuPdmaSgtblsAllocate at h
  split at h
  · cases h
  · obtain ⟨as, -, nodup, -, same⟩ := sgtblsFill_ok [] (by simp) h
    subst same
    refine ⟨⟨rfl, rfl, fun _ => rfl, fun _ => rfl, ?_⟩, rfl⟩
    intro old t bs table
    by_cases isNew : t = tbl
    · subst isNew
      have filled : as = bs := by simpa using table
      exact filled ▸ nodup
    · exact old t bs (by simpa [isNew] using table)

theorem chainTable_ok {s s' : PdmaState} {ch : Nat} {transferCnt : U32}
    {allocs : List (Option Addr)} {haveTable : Bool}
    (h : chainTable s ch transferCnt allocs = .ok (s', haveTable)) :
    KeepsModes s s' ∧ (s'.chn ch).wantedSGTblNum = wantedFor transferCnt := by
  unfold chainTable at h
  by_cases kept : (s.chn ch).wantedSGTblNum = wantedFor transferCnt
  · rw [if_pos kept] at h
    cases h
    exact ⟨.refl s, kept⟩
  · rw [if_neg kept] at h
    obtain ⟨t, drop, h⟩ := Runs.bind_ok_iff.mp h
    have first := dropStaleTable_keeps drop
    have second := keepsModes_setChn t ch (c := { t.chn ch with
      wantedSGTblNum := wantedFor transferCnt }) rfl rfl
    have base := first.trans second
    simp only at h
    split at h
    next =>
      cases h
      refine ⟨base.trans (keepsModes_setChn _ ch rfl rfl), ?_⟩
      simp [PdmaState.setChn]
    next tbl rest _ =>
      obtain ⟨u, fill, h⟩ := Runs.bind_ok_iff.mp h
      cases h
      obtain ⟨keep, chn⟩ := newTable_keeps (s := PdmaState.setChn _ ch _) fill
      refine ⟨base.trans (KeepsModes.trans ?_ keep), ?_⟩
      · exact keepsModes_setChn _ ch rfl rfl
      rw [chn]
      simp [PdmaState.setChn]

theorem withDescs_keeps (s : PdmaState) (f : Addr → Option Dsct) :
    KeepsModes s { s with descs := f } := ⟨rfl, rfl, fun _ => rfl, fun _ => rfl, id⟩

theorem nuPdmaTransferChain_keeps {s s' : PdmaState} {ch : Nat}
    {dataWidth addrSrc addrDst transferCnt idleTimeoutUs : U32} {allocs : List (Option Addr)}
    {ret : Int} (h : nuPdmaTransferChain s ch dataWidth addrSrc addrDst transferCnt idleTimeoutUs
      allocs = .ok (s', ret)) : KeepsModes s s' := by
  unfold nuPdmaTransferChain at h
  obtain ⟨memCtl, -, h⟩ := Runs.bind_ok_iff.mp h
  obtain ⟨⟨t, haveTable⟩, table, h⟩ := Runs.bind_ok_iff.mp h
  obtain ⟨first, -⟩ := chainTable_ok table
  refine first.trans ?_
  cases haveTable with
  | false =>
    obtain ⟨u, drop, h⟩ := Runs.bind_ok_iff.mp h
    cases h
    exact nuPdmaFreeSgtbls_keeps drop
  | true =>
    simp only [Bool.not_true, Bool.false_eq_true, if_false] at h
    obtain ⟨⟨u, code⟩, setup, h⟩ := Runs.bind_ok_iff.mp h
    obtain ⟨f, same⟩ := chainSetup_frame setup
    subst same
    refine (withDescs_keeps t f).trans ?_
    simp only at h
    split at h
    · obtain ⟨v, drop, h⟩ := Runs.bind_ok_iff.mp h
      cases h
      exact nuPdmaFreeSgtbls_keeps drop
    · obtain ⟨head, -, h⟩ := Runs.bind_ok_iff.mp h
      obtain ⟨v, start, h⟩ := Runs.bind_ok_iff.mp h
      cases h
      exact nuPdmaTransferHead_keeps start

theorem nuPdmaDescSetup_reg_keeps {s t : PdmaState} {ch : Nat}
    {dataWidth addrSrc addrDst transferCnt next : U32} {beSilent : Bool} {ret : Int}
    (alloc : s.allocated ch)
    (h : nuPdmaDescSetup s ch (.reg ch) dataWidth addrSrc addrDst transferCnt next beSilent =
      .ok (t, ret)) : KeepsModes s t := by
  rw [nuPdmaDescSetup_eq alloc] at h
  split at h
  · cases h
    exact ⟨rfl, rfl, fun _ => rfl, fun _ => rfl, id⟩
  · cases h
    exact .refl s

theorem nuPdmaTransfer_keeps {s s' : PdmaState} {ch : Nat}
    {dataWidth addrSrc addrDst transferCnt idleTimeoutUs : U32} {allocs : List (Option Addr)}
    {ret : Int} (h : nuPdmaTransfer s ch dataWidth addrSrc addrDst transferCnt idleTimeoutUs
      allocs = .ok (s', ret)) : KeepsModes s s' := by
  unfold nuPdmaTransfer at h
  rcases check_cases s ch with fault | free | alloc
  · rw [fault] at h
    cases h
  · rw [free] at h
    cases h
    exact .refl s
  · rw [check_of_allocated alloc] at h
    simp only [bind, Except.bind, Bool.false_eq_true, if_false] at h
    split at h
    · cases h
      exact .refl s
    · split at h
      · exact nuPdmaTransferChain_keeps h
      · obtain ⟨⟨t, code⟩, setup, h⟩ := Runs.bind_ok_iff.mp h
        have first := nuPdmaDescSetup_reg_keeps alloc setup
        simp only at h
        split at h
        · cases h
          exact first
        · obtain ⟨u, start, h⟩ := Runs.bind_ok_iff.mp h
          cases h
          exact first.trans (nuPdmaTransferHead_keeps start)

/-- Tables name no descriptor twice and every channel has one of the four modes. -/
structure TablesFormed (s : PdmaState) : Prop where
  nodup : TablesNodup s
  mode : ∀ ch, (s.chn ch).memCtl ≠ .undefined

theorem KeepsModes.tablesFormed {s t : PdmaState} (h : KeepsModes s t) (formed : TablesFormed s) :
    TablesFormed t :=
  ⟨h.nodup formed.nodup, fun ch => by rw [h.memCtl]; exact formed.mode ch⟩

theorem nuPdmaChannelTerminate_keeps {s s' : PdmaState} {ch : Nat}
    (h : nuPdmaChannelTerminate s ch = .ok s') : KeepsModes s s' := by
  rcases check_cases s ch with fault | free | alloc
  · simp [nuPdmaChannelTerminate, fault, bind, Except.bind] at h
  · simp only [nuPdmaChannelTerminate, free, bind, Except.bind, pure, Except.pure, if_true] at h
    cases h
    exact .refl s
  · unfold nuPdmaChannelTerminate at h
    rw [check_of_allocated alloc] at h
    simp only [bind, Except.bind, Bool.false_eq_true, if_false] at h
    obtain ⟨t, timeout, h⟩ := Runs.bind_ok_iff.mp h
    cases h
    exact (nuPdmaTimeoutSet_keeps timeout).trans ⟨rfl, rfl, fun _ => rfl, fun _ => rfl, id⟩

theorem nuPdmaPeripheralSet_mode {periphType peripheral : U32} {memCtl : MemCtrl}
    (h : nuPdmaPeripheralSet periphType = some (peripheral, memCtl)) : memCtl ≠ .undefined := by
  have listed : (peripheral, memCtl) ∈ nuPdmaPeripheralCtlPool := List.mem_of_find?_eq_some h
  have modes : ∀ e ∈ nuPdmaPeripheralCtlPool, e.2 ≠ .undefined := by decide
  exact modes _ listed

theorem setChn_formed {s : PdmaState} (formed : TablesFormed s) (ch : Nat) {c : PdmaChn}
    (mode : c.memCtl ≠ .undefined) : TablesFormed (s.setChn ch c) := by
  refine ⟨formed.nodup, ?_⟩
  intro ch'
  by_cases same : ch' = ch
  · subst same
    simpa [PdmaState.setChn] using mode
  · simpa [PdmaState.setChn, same] using formed.mode ch'

theorem nuPdmaInit_formed {s : PdmaState} (formed : TablesFormed s) : TablesFormed (nuPdmaInit s) := by
  unfold nuPdmaInit
  split
  · exact formed
  · exact ⟨formed.nodup, fun _ h => by cases h⟩

theorem nuPdmaChannelAllocate_formed {s s' : PdmaState} {periphType : U32} {ret : Int}
    (formed : TablesFormed s) (h : nuPdmaChannelAllocate s periphType = .ok (s', ret)) :
    TablesFormed s' := by
  have start := nuPdmaInit_formed formed
  unfold nuPdmaChannelAllocate at h
  simp only at h
  split at h
  · cases h
    exact start
  next peripheral memCtl known =>
    split at h
    · cases h
      exact start
    next j chnId _ =>
      obtain ⟨t, terminate, h⟩ := Runs.bind_ok_iff.mp h
      cases h
      apply (nuPdmaChannelTerminate_keeps terminate).tablesFormed
      apply setChn_formed
      · exact ⟨start.nodup, start.mode⟩
      · exact nuPdmaPeripheralSet_mode known

theorem nuPdmaChannelFree_formed {s s' : PdmaState} {ch : Nat} {ret : Int}
    (formed : TablesFormed s) (h : nuPdmaChannelFree s ch = .ok (s', ret)) : TablesFormed s' := by
  unfold nuPdmaChannelFree at h
  split at h
  · cases h
    exact formed
  · obtain ⟨free, -, h⟩ := Runs.bind_ok_iff.mp h
    split at h
    · cases h
      exact formed
    · split at h <;> cases h
      · exact ⟨formed.nodup, formed.mode⟩
      · exact formed

theorem nuPdmaChannelMemctrlSet_formed {s s' : PdmaState} {ch : Nat} {memCtl : MemCtrl} {ret : Int}
    (formed : TablesFormed s) (h : nuPdmaChannelMemctrlSet s ch memCtl = .ok (s', ret)) :
    TablesFormed s' := by
  unfold nuPdmaChannelMemctrlSet at h
  obtain ⟨free, -, h⟩ := Runs.bind_ok_iff.mp h
  split at h
  · cases h
    exact formed
  · split at h
    · cases h
      exact formed
    next defined =>
      split at h <;> cases h
      · exact formed
      · exact setChn_formed formed ch defined

theorem pdmaCall_formed {s s' : PdmaState} {op : PdmaOp} {ret : Int} (formed : TablesFormed s)
    (h : pdmaCall s op = .ok (s', ret)) : TablesFormed s' := by
  cases op with
  | allocate periphType => exact nuPdmaChannelAllocate_formed formed h
  | free ch => exact nuPdmaChannelFree_formed formed h
  | memctrlSet ch memCtl => exact nuPdmaChannelMemctrlSet_formed formed h
  | terminate ch =>
    obtain ⟨t, terminate, same⟩ := Runs.map_ok_iff.mp h
    cases same
    exact (nuPdmaChannelTerminate_keeps terminate).tablesFormed formed
  | transfer => exact (nuPdmaTransfer_keeps h).tablesFormed formed

theorem pdmaStep_formed {s s' : PdmaState} {op : PdmaOp} (formed : TablesFormed s)
    (h : pdmaStep (.ok s) op = .ok s') : TablesFormed s' := by
  obtain ⟨⟨t, ret⟩, call, same⟩ := Runs.map_ok_iff.mp h
  cases same
  exact pdmaCall_formed formed call

theorem pdmaReachable_formed {s : PdmaState} (reach : PdmaReachable s) : TablesFormed s := by
  obtain ⟨ops, run⟩ := reach
  have start : TablesFormed .powerOn :=
    ⟨fun _ _ table => (nomatch table), fun _ mode => (nomatch mode)⟩
  have kept : ∀ r e, (∀ s, r = .ok s → TablesFormed s) → True →
      ∀ s, pdmaStep r e = .ok s → TablesFormed s := by
    intro r e formed _ s step
    cases r with
    | error => cases step
    | ok t => exact pdmaStep_formed (formed t rfl) step
  refine Runs.foldl_invariant (fun _ _ => True) (fun r => ∀ s, r = Except.ok s → TablesFormed s) kept ?_
    (fun _ _ _ => trivial) s run
  intro s h
  cases h
  exact start

end NuMakerMA35
