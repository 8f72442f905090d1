import NuMakerMA35.PdmaChannel

namespace NuMakerMA35

inductive DescRef where
  | reg (ch : Nat)
  | mem (a : Addr)
  deriving DecidableEq, Repr

def pdma0Base : U32 := 0x40080000

def DescRef.addr : DescRef → Addr
  | .reg ch => BitVec.ofNat 32 (ch / pdmaChMax * 0x10000 + ch % pdmaChMax * 16) + pdma0Base
  | .mem a => a

def PdmaState.live (s : PdmaState) (a : Addr) : Bool := (s.tables a).isSome || (s.descs a).isSome

def PdmaState.readDesc (s : PdmaState) : DescRef → Except PdmaFault Dsct
  | .reg ch => .ok (s.dsct ch)
  | .mem a =>
    match s.descs a with
    | some d => .ok d
    | none => .error .badPointer

def PdmaState.writeDesc (s : PdmaState) (r : DescRef) (d : Dsct) : Except PdmaFault PdmaState :=
  match r with
  | .reg ch => .ok { s with dsct := Function.update s.dsct ch d }
  | .mem a =>
    if (s.descs a).isSome then .ok { s with descs := Function.update s.descs a (some d) }
    else .error .badPointer

def PdmaState.sgtblEntry (s : PdmaState) (tbl : Addr) (i : Nat) : Except PdmaFault Addr :=
  match s.tables tbl with
  | none => .error .badPointer
  | some as =>
    match as[i]? with
    | none => .error .badPointer
    | some a => .ok a

def PdmaState.sgtblLink (s : PdmaState) (tbl : Addr) (i num : Nat) : Except PdmaFault Addr :=
  if i + 1 = num then .ok 0 else s.sgtblEntry tbl (i + 1)

theorem sgtblEntry_ok_iff {s : PdmaState} {tbl a : Addr} {i : Nat} :
    s.sgtblEntry tbl i = .ok a ↔ ∃ as, s.tables tbl = some as ∧ as[i]? = some a := by
  unfold PdmaState.sgtblEntry
  cases table : s.tables tbl with
  | none => simp
  | some as => cases entry : as[i]? <;> simp [entry]

theorem writeDesc_mem_ok_iff {s s' : PdmaState} {a : Addr} {d : Dsct} :
    s.writeDesc (.mem a) d = .ok s' ↔
      (s.descs a).isSome ∧ s' = { s with descs := Function.update s.descs a (some d) } := by
  unfold PdmaState.writeDesc
  by_cases live : (s.descs a).isSome
  · simp [live, eq_comm]
  · simp [live]

/-- The heap answers each request from a list chosen by the environment; it never hands out null
or a block in use. -/
def rtMallocAlign (s : PdmaState) : List (Option Addr) → Option Addr × List (Option Addr)
  | [] => (none, [])
  | none :: rest => (none, rest)
  | some a :: rest => (if a = 0 ∨ s.live a then none else some a, rest)

def PdmaState.addEntry (s : PdmaState) (tbl a : Addr) : PdmaState :=
  { s with
    tables := Function.update s.tables tbl ((s.tables tbl).map (· ++ [a]))
    descs := Function.update s.descs a (some ⟨0, 0, 0, 0⟩) }

/-- A table holds the entries written so far, so the next one is appended. -/
def sgtblsFill (s : PdmaState) (tbl : Addr) :
    Nat → List (Option Addr) → Except PdmaFault PdmaState
  | 0, _ => .ok s
  | left + 1, allocs =>
    match rtMallocAlign s allocs with
    | (none, _) => .error .assertion
    | (some a, rest) => sgtblsFill (s.addEntry tbl a) tbl left rest

def nuPdmaSgtblsAllocate (s : PdmaState) (tbl : Addr) (num : Nat) (allocs : List (Option Addr)) :
    Except PdmaFault PdmaState :=
  if tbl = 0 ∨ num = 0 then .error .assertion else sgtblsFill s tbl num allocs

def sgtblsRelease (s : PdmaState) (tbl : Addr) : Nat → Nat → Except PdmaFault PdmaState
  | 0, _ => .ok s
  | left + 1, i => do
    let a ← s.sgtblEntry tbl i
    if (s.descs a).isSome then
      sgtblsRelease { s with descs := Function.update s.descs a none } tbl left (i + 1)
    else .error .badPointer

def nuPdmaSgtblsFree (s : PdmaState) (tbl : Addr) (num : Nat) : Except PdmaFault PdmaState :=
  if tbl = 0 ∨ num = 0 then .error .assertion else sgtblsRelease s tbl num 0

def nuPdmaFreeSgtbls (s : PdmaState) (ch : Nat) : Except PdmaFault PdmaState := do
  let c := s.chn ch
  if c.sgtbl = 0 then return s
  let s ← nuPdmaSgtblsFree s c.sgtbl c.wantedSGTblNum
  let s := { s with tables := Function.update s.tables c.sgtbl none }
  return s.setChn ch { s.chn ch with sgtbl := 0, wantedSGTblNum := 0 }

def nuPdmaDescSetup (s : PdmaState) (ch : Nat) (desc : DescRef)
    (dataWidth addrSrc addrDst transferCnt next : U32) (beSilent : Bool) :
    Except PdmaFault (PdmaState × Int) := do
  if desc = .mem 0 then return (s, -rtEinval)
  if ← nuPdmaCheckIsNonallocated s ch then return (s, -rtEinval)
  if ¬(dataWidth = 8 ∨ dataWidth = 16 ∨ dataWidth = 32) then return (s, -rtEinval)
  if addrSrc % (dataWidth / 8) ≠ 0 ∨ addrDst % (dataWidth / 8) ≠ 0 then return (s, -rtEinval)
  if transferCnt.toNat > nuPdmaMaxTxcnt then return (s, -rtEinval)
  let c := s.chn ch
  let s ← s.writeDesc desc
    (descOf c.memCtl (c.peripheral = pdmaMem) dataWidth addrSrc addrDst transferCnt next beSilent)
  return (s, -rtEok)

/-- The requests `nu_pdma_desc_setup` takes on an allocated channel. -/
def descAccepts (desc : DescRef) (dataWidth addrSrc addrDst transferCnt : U32) : Prop :=
  desc ≠ .mem 0 ∧ (dataWidth = 8 ∨ dataWidth = 16 ∨ dataWidth = 32) ∧
    addrSrc % (dataWidth / 8) = 0 ∧ addrDst % (dataWidth / 8) = 0 ∧
    transferCnt.toNat ≤ nuPdmaMaxTxcnt

instance (desc : DescRef) (dataWidth addrSrc addrDst transferCnt : U32) :
    Decidable (descAccepts desc dataWidth addrSrc addrDst transferCnt) :=
  inferInstanceAs (Decidable (_ ∧ _))

theorem nuPdmaDescSetup_eq {s : PdmaState} {ch : Nat} (h : s.allocated ch) (desc : DescRef)
    (dataWidth addrSrc addrDst transferCnt next : U32) (beSilent : Bool) :
    nuPdmaDescSetup s ch desc dataWidth addrSrc addrDst transferCnt next beSilent =
      if descAccepts desc dataWidth addrSrc addrDst transferCnt then
        (s.writeDesc desc (descOf (s.chn ch).memCtl ((s.chn ch).peripheral = pdmaMem) dataWidth
          addrSrc addrDst transferCnt next beSilent)).map (·, rtEok)
      else .ok (s, -rtEinval) := by
  unfold nuPdmaDescSetup
  rw [check_of_allocated h]
  simp only [bind, Except.bind, pure, Except.pure, Bool.false_eq_true, if_false]
  by_cases null : desc = .mem 0
  · rw [if_pos null, if_neg (by unfold descAccepts; tauto)]
  rw [if_neg null]
  by_cases width : dataWidth = 8 ∨ dataWidth = 16 ∨ dataWidth = 32
  · rw [if_neg (fun other => other width)]
    by_cases aligned : addrSrc % (dataWidth / 8) ≠ 0 ∨ addrDst % (dataWidth / 8) ≠ 0
    · rw [if_pos aligned, if_neg (by unfold descAccepts; tauto)]
    rw [if_neg aligned]
    by_cases small : transferCnt.toNat ≤ nuPdmaMaxTxcnt
    · rw [if_neg (by omega), if_pos (by unfold descAccepts; tauto)]
      cases s.writeDesc desc _ <;> rfl
    · rw [if_pos (by omega), if_neg (by unfold descAccepts; tauto)]
  · rw [if_pos width, if_neg (by unfold descAccepts; tauto)]

theorem nuPdmaDescSetup_mem_cases {s t : PdmaState} {ch : Nat} (h : s.allocated ch) {a : Addr}
    {dataWidth addrSrc addrDst transferCnt next : U32} {beSilent : Bool} {ret : Int}
    (setup : nuPdmaDescSetup s ch (.mem a) dataWidth addrSrc addrDst transferCnt next beSilent =
      .ok (t, ret)) :
    (ret = -rtEinval ∧ t = s) ∨
      (ret = rtEok ∧ descAccepts (.mem a) dataWidth addrSrc addrDst transferCnt ∧
        (s.descs a).isSome ∧
        t = { s with descs := Function.update s.descs a (some (descOf (s.chn ch).memCtl
          ((s.chn ch).peripheral = pdmaMem) dataWidth addrSrc addrDst transferCnt next
          beSilent)) }) := by
  rw [nuPdmaDescSetup_eq h] at setup
  by_cases accepts : descAccepts (.mem a) dataWidth addrSrc addrDst transferCnt
  · rw [if_pos accepts] at setup
    cases write : s.writeDesc (.mem a) _ with
    | error e =>
      rw [write] at setup
      simp [Except.map] at setup
    | ok t' =>
      rw [write] at setup
      obtain ⟨live, written⟩ := writeDesc_mem_ok_iff.mp write
      cases setup
      exact .inr ⟨rfl, accepts, live, written⟩
  · rw [if_neg accepts] at setup
    cases setup
    exact .inl ⟨rfl, rfl⟩

def pdmaSetTransferMode (s : PdmaState) (ch : Nat) (peripheral : U32) (scatterEn : Bool)
    (descAddr : U32) : PdmaState :=
  let d := s.dsct ch
  let mode := d.ctl &&& ~~~pdmaDsctCtlOpmodeMsk
  { s with
    reqsel := Function.update s.reqsel ch peripheral
    dsct := Function.update s.dsct ch
      (if scatterEn then { d with next := descAddr, ctl := mode ||| pdmaOpScatter }
      else { d with ctl := mode ||| pdmaOpBasic }) }

/-- `_nu_pdma_transfer`, without the write-back of caches and the trigger callback. -/
def nuPdmaTransferHead (s : PdmaState) (ch : Nat) (peripheral : U32) (head : DescRef)
    (idleTimeoutUs : U32) : Except PdmaFault PdmaState := do
  let d ← s.readDesc head
  let s := pdmaSetTransferMode s ch peripheral (d.next ≠ 0) head.addr
  nuPdmaTimeoutSet s ch idleTimeoutUs

def chunkCnt (transferCnt : U32) : U32 :=
  if transferCnt.toNat > nuPdmaMaxTxcnt then BitVec.ofNat 32 nuPdmaMaxTxcnt else transferCnt

/-- The loop of `_nu_pdma_transfer_chain` over the table, stopped by the first refused descriptor. -/
def chainSetup (ch : Nat) (dataWidth addrSrc addrDst : U32) (memCtl : MemCtrl) :
    Nat → Nat → PdmaState → U32 → U32 → Except PdmaFault (PdmaState × Int)
  | 0, _, s, _, _ => .ok (s, rtEok)
  | left + 1, i, s, transferCnt, offset => do
    let c := s.chn ch
    let txCnt := chunkCnt transferCnt
    let desc ← s.sgtblEntry c.sgtbl i
    let next ← s.sgtblLink c.sgtbl i c.wantedSGTblNum
    let (s, ret) ← nuPdmaDescSetup s ch (.mem desc) dataWidth
      (if memCtl.srcInc then addrSrc + offset else addrSrc)
      (if memCtl.dstInc then addrDst + offset else addrDst) txCnt next
      (i + 1 ≠ c.wantedSGTblNum)
    if ret ≠ rtEok then return (s, ret)
    chainSetup ch dataWidth addrSrc addrDst memCtl left (i + 1) s (transferCnt - txCnt)
      (offset + txCnt * dataWidth / 8)

theorem chainSetup_succ_ok {s s' : PdmaState} {ch : Nat} {dataWidth addrSrc addrDst : U32}
    {memCtl : MemCtrl} {left i : Nat} {transferCnt offset : U32} {as : List Addr}
    (alloc : s.allocated ch) (table : s.tables (s.chn ch).sgtbl = some as)
    (len : i + (left + 1) = (s.chn ch).wantedSGTblNum)
    (h : chainSetup ch dataWidth addrSrc addrDst memCtl (left + 1) i s transferCnt offset =
      .ok (s', rtEok)) :
    ∃ a next, as[i]? = some a ∧ (left = 0 → next = 0) ∧ (left ≠ 0 → as[i + 1]? = some next) ∧
      descAccepts (.mem a) dataWidth (if memCtl.srcInc then addrSrc + offset else addrSrc)
        (if memCtl.dstInc then addrDst + offset else addrDst) (chunkCnt transferCnt) ∧
      chainSetup ch dataWidth addrSrc addrDst memCtl left (i + 1)
        { s with descs := Function.update s.descs a (some (descOf (s.chn ch).memCtl
          ((s.chn ch).peripheral = pdmaMem) dataWidth
          (if memCtl.srcInc then addrSrc + offset else addrSrc)
          (if memCtl.dstInc then addrDst + offset else addrDst) (chunkCnt transferCnt) next
          (left ≠ 0))) }
        (transferCnt - chunkCnt transferCnt)
        (offset + chunkCnt transferCnt * dataWidth / 8) = .ok (s', rtEok) := by
  have lastIff : i + 1 = (s.chn ch).wantedSGTblNum ↔ left = 0 := by omega
  unfold chainSetup at h
  simp only [lastIff, ne_eq] at h
  obtain ⟨a, entry, h⟩ := Runs.bind_ok_iff.mp h
  obtain ⟨next, after, h⟩ := Runs.bind_ok_iff.mp h
  obtain ⟨⟨t, ret⟩, setup, h⟩ := Runs.bind_ok_iff.mp h
  obtain ⟨as', table', entry⟩ := sgtblEntry_ok_iff.mp entry
  rw [table] at table'
  cases table'
  rcases nuPdmaDescSetup_mem_cases alloc setup with ⟨refused, -⟩ | ⟨granted, accepts, -, written⟩
  · subst refused
    simp [rtEinval, rtEok, pure, Except.pure] at h
  · subst granted written
    refine ⟨a, next, entry, ?_, ?_, accepts, ?_⟩
    · intro last
      rw [PdmaState.sgtblLink, if_pos (by omega)] at after
      cases after
      rfl
    · intro more
      rw [PdmaState.sgtblLink, if_neg (by omega)] at after
      obtain ⟨as', table', entry'⟩ := sgtblEntry_ok_iff.mp after
      rw [table] at table'
      cases table'
      exact entry'
    · simpa using h

def wantedFor (transferCnt : U32) : Nat := transferCnt.toNat / nuPdmaMaxTxcnt + 1

def dropStaleTable (s : PdmaState) (ch : Nat) : Except PdmaFault PdmaState :=
  if (s.chn ch).wantedSGTblNum > 0 then nuPdmaFreeSgtbls s ch else .ok s

/-- A table of the wanted length: the one at hand, or a new one; `none` when the table itself
cannot be allocated. -/
def chainTable (s : PdmaState) (ch : Nat) (transferCnt : U32) (allocs : List (Option Addr)) :
    Except PdmaFault (PdmaState × Bool) := do
  if (s.chn ch).wantedSGTblNum = wantedFor transferCnt then return (s, true)
  let s ← dropStaleTable s ch
  let s := s.setChn ch { s.chn ch with wantedSGTblNum := wantedFor transferCnt }
  match rtMallocAlign s allocs with
  | (none, _) => return (s.setChn ch { s.chn ch with sgtbl := 0 }, false)
  | (some tbl, rest) =>
    let s := { s with tables := Function.update s.tables tbl (some []) }
    let s := s.setChn ch { s.chn ch with sgtbl := tbl }
    let s ← nuPdmaSgtblsAllocate s tbl (wantedFor transferCnt) rest
    return (s, true)

def nuPdmaTransferChain (s : PdmaState) (ch : Nat) (dataWidth addrSrc addrDst transferCnt : U32)
    (idleTimeoutUs : U32) (allocs : List (Option Addr)) : Except PdmaFault (PdmaState × Int) := do
  let memCtl ← nuPdmaChannelMemctrlGet s ch
  let (s, haveTable) ← chainTable s ch transferCnt allocs
  if !haveTable then return (← nuPdmaFreeSgtbls s ch, -rtError)
  let (s, ret) ← chainSetup ch dataWidth addrSrc addrDst memCtl (s.chn ch).wantedSGTblNum 0 s
    transferCnt 0
  if ret ≠ rtEok then return (← nuPdmaFreeSgtbls s ch, -ret)
  let head ← s.sgtblEntry (s.chn ch).sgtbl 0
  let s ← nuPdmaTransferHead s ch (s.chn ch).peripheral (.mem head) idleTimeoutUs
  return (s, rtEok)

def nuPdmaTransfer (s : PdmaState) (ch : Nat) (dataWidth addrSrc addrDst transferCnt : U32)
    (idleTimeoutUs : U32) (allocs : List (Option Addr)) : Except PdmaFault (PdmaState × Int) := do
  if ← nuPdmaCheckIsNonallocated s ch then return (s, -rtEinval)
  if transferCnt = 0 then return (s, -rtEinval)
  if transferCnt.toNat > nuPdmaMaxTxcnt then
    nuPdmaTransferChain s ch dataWidth addrSrc addrDst transferCnt idleTimeoutUs allocs
  else
    let (s, ret) ← nuPdmaDescSetup s ch (.reg ch) dataWidth addrSrc addrDst transferCnt 0 false
    if ret ≠ rtEok then return (s, -ret)
    let s ← nuPdmaTransferHead s ch (s.chn ch).peripheral (.reg ch) idleTimeoutUs
    return (s, -rtEok)

inductive PdmaOp where
  | allocate (periphType : U32)
  | free (ch : Nat)
  | memctrlSet (ch : Nat) (memCtl : MemCtrl)
  | terminate (ch : Nat)
  | transfer (ch : Nat) (dataWidth addrSrc addrDst transferCnt idleTimeoutUs : U32)
      (allocs : List (Option Addr))
  deriving DecidableEq, Repr

def pdmaCall (s : PdmaState) : PdmaOp → Except PdmaFault (PdmaState × Int)
  | .allocate periphType => nuPdmaChannelAllocate s periphType
  | .free ch => nuPdmaChannelFree s ch
  | .memctrlSet ch memCtl => nuPdmaChannelMemctrlSet s ch memCtl
  | .terminate ch => (nuPdmaChannelTerminate s ch).map (·, rtEok)
  | .transfer ch dataWidth addrSrc addrDst transferCnt idleTimeoutUs allocs =>
    nuPdmaTransfer s ch dataWidth addrSrc addrDst transferCnt idleTimeoutUs allocs

def pdmaStep : Except PdmaFault PdmaState → PdmaOp → Except PdmaFault PdmaState
  | .error e, _ => .error e
  | .ok s, op => (pdmaCall s op).map (·.1)

def PdmaReachable (s : PdmaState) : Prop :=
  ∃ ops : List PdmaOp, ops.foldl pdmaStep (.ok .powerOn) = .ok s

end NuMakerMA35
