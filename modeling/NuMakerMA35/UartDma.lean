import NuMakerMA35.PdmaAlloc
import NuMakerMA35.Logged

namespace NuMakerMA35

def rtDeviceFlagDmaRx : U32 := 0x200
def rtDeviceFlagDmaTx : U32 := 0x800

/-- The fields of `struct nu_uart` about PDMA: no peripheral is `NU_PDMA_UNUSED`, and the two flags
are the bits of `dma_flag`. -/
structure NuUartDma where
  dmaFlagTx : Bool
  dmaFlagRx : Bool
  pdmaPerpTx : Option U32
  pdmaChanidTx : Int
  pdmaPerpRx : Option U32
  pdmaChanidRx : Int
  pdmaRxDesc : Addr

/-- An entry of `nu_uart_arr` as it is initialized: what it does not name is zero. -/
def nuUartInitial (perpTx perpRx : Option U32) : NuUartDma := ⟨false, false, perpTx, 0, perpRx, 0, 0⟩

section Allocate

variable (s : PdmaState) (u : NuUartDma)

def uartDmaAllocateTx : Except PdmaFault (PdmaState × NuUartDma) :=
  match u.pdmaPerpTx with
  | none => .ok (s, u)
  | some perp => do
    let (s, chanid) ← nuPdmaChannelAllocate s perp
    return (s, { u with
      pdmaChanidTx := chanid
      dmaFlagTx := if 0 ≤ chanid then true else u.dmaFlagTx })

/-- The receive half; `desc` is the descriptor the heap gives. -/
def uartDmaAllocateRx (desc : Option Addr) : Except PdmaFault (PdmaState × NuUartDma) :=
  match u.pdmaPerpRx with
  | none => .ok (s, u)
  | some perp => do
    let (s, chanid) ← nuPdmaChannelAllocate s perp
    if 0 ≤ chanid then
      match desc with
      | none => throw .assertion
      | some a => return ({ s with descs := Function.update s.descs a (some ⟨0, 0, 0, 0⟩) },
          { u with pdmaChanidRx := chanid, dmaFlagRx := true, pdmaRxDesc := a })
    else return (s, { u with pdmaChanidRx := chanid })

def nuHwUartDmaAllocate (desc : Option Addr) : Except PdmaFault (PdmaState × NuUartDma) := do
  let (s, u) ← uartDmaAllocateTx s u
  uartDmaAllocateRx s u desc

def rtHwUartInit (desc : Option Addr) : Except PdmaFault (PdmaState × NuUartDma) :=
  nuHwUartDmaAllocate s { u with dmaFlagTx := false, dmaFlagRx := false } desc

end Allocate

/-- The commands of `nu_uart_control`; `config` with the registers' base, the buffer the heap gives
and its size. -/
inductive UartCmd where
  | clrInt (arg : U32)
  | setInt (arg : U32)
  | config (arg base : U32) (dmabuf : Option Addr) (bufsize : U32)
  | close
  | other
  deriving DecidableEq, Repr

/-- An id is kept signed and used unsigned. -/
def channelNumber (chanid : Int) : Nat := (BitVec.ofInt 32 chanid).toNat

/-- `nu_pdma_channel_terminate`; the log names the channels it has stopped. -/
def terminateChannel (s : PdmaState) (chanid : Int) : Logged PdmaFault Nat PdmaState := fun log =>
  (nuPdmaChannelTerminate s (channelNumber chanid),
    if s.allocated (channelNumber chanid) then log ++ [channelNumber chanid] else log)

/-- The calls to the PDMA driver of `nu_pdma_uart_rx_config`. The filter and the callback are not
part of the state, only their look at the mask. -/
def uartRxConfigCalls (s : PdmaState) (u : NuUartDma) (base : U32) (dmabuf : Option Addr)
    (bufsize : U32) : Except PdmaFault (PdmaState × Int) := do
  let ch := channelNumber u.pdmaChanidRx
  if ← nuPdmaCheckIsNonallocated s ch then return (s, -rtEinval)
  match dmabuf with
  | none => return (s, rtEok)
  | some buf =>
    let (s, ret) ← nuPdmaDescSetup s ch (.mem u.pdmaRxDesc) 8 base buf bufsize u.pdmaRxDesc false
    if ret ≠ rtEok then return (s, ret)
    let s ← nuPdmaTransferHead s ch (s.chn ch).peripheral (.mem u.pdmaRxDesc) 100
    return (s, rtEok)

def uartTxConfigCalls (s : PdmaState) (u : NuUartDma) : Except PdmaFault (PdmaState × Int) := do
  if ← nuPdmaCheckIsNonallocated s (channelNumber u.pdmaChanidTx) then return (s, -rtEinval)
  return (s, rtEok)

def nuUartControl (s : PdmaState) (u : NuUartDma) :
    UartCmd → Logged PdmaFault Nat (PdmaState × Int)
  | .clrInt arg =>
    if arg = rtDeviceFlagDmaRx ∧ u.dmaFlagRx = true then do
      let s ← terminateChannel s u.pdmaChanidRx
      return (s, rtEok)
    else return (s, rtEok)
  | .setInt _ => return (s, rtEok)
  | .config arg base dmabuf bufsize =>
    if arg = rtDeviceFlagDmaRx then .lift (uartRxConfigCalls s u base dmabuf bufsize)
    else if arg = rtDeviceFlagDmaTx then .lift (uartTxConfigCalls s u)
    else return (s, rtEok)
  | .close =>
    if u.dmaFlagTx = true ∨ u.dmaFlagRx = true then do
      let s ← terminateChannel s u.pdmaChanidTx
      let s ← terminateChannel s u.pdmaChanidRx
      return (s, rtEok)
    else return (s, rtEok)
  | .other => return (s, -rtEinval)

inductive PdmaUser where
  | uart (i : Nat)
  | device (k : Nat)
  deriving DecidableEq, Repr

/-- The driver, or how it stopped, the UARTs, and who was handed which channel. -/
structure UartWorld where
  pdma : Except PdmaFault PdmaState
  uarts : Nat → NuUartDma
  owner : Nat → Option PdmaUser

inductive UartDmaEvent where
  | init (i : Nat) (desc : Option Addr)
  | control (i : Nat) (cmd : UartCmd)
  | device (k : Nat) (op : PdmaOp)
  deriving DecidableEq, Repr

namespace UartWorld

def start (perps : Nat → Option U32 × Option U32) : UartWorld where
  pdma := .ok .powerOn
  uarts i := nuUartInitial (perps i).1 (perps i).2
  owner _ := none

def handed (owner : Nat → Option PdmaUser) (d : PdmaUser) (got : Bool) (chanid : Int) :
    Nat → Option PdmaUser :=
  if got then Function.update owner chanid.toNat (some d) else owner

def initUart (w : UartWorld) (s : PdmaState) (i : Nat) (desc : Option Addr) : UartWorld :=
  match rtHwUartInit s (w.uarts i) desc with
  | .error e => { w with pdma := .error e }
  | .ok (s, u) =>
    { pdma := .ok s
      uarts := Function.update w.uarts i u
      owner := handed (handed w.owner (.uart i) u.dmaFlagTx u.pdmaChanidTx) (.uart i) u.dmaFlagRx
        u.pdmaChanidRx }

/-- A device gives back only what it was handed. -/
def deviceCall (w : UartWorld) (s : PdmaState) (k : Nat) (op : PdmaOp) : UartWorld :=
  match op with
  | .allocate periphType =>
    match nuPdmaChannelAllocate s periphType with
    | .error e => { w with pdma := .error e }
    | .ok (s, ret) =>
      { w with pdma := .ok s, owner := handed w.owner (.device k) (decide (0 ≤ ret)) ret }
  | .free ch =>
    if w.owner ch = some (.device k) then
      { w with
        pdma := (nuPdmaChannelFree s ch).map (·.1)
        owner := Function.update w.owner ch none }
    else w
  | op => { w with pdma := (pdmaCall s op).map (·.1) }

def step (w : UartWorld) (e : UartDmaEvent) : UartWorld :=
  match w.pdma with
  | .error _ => w
  | .ok s =>
    match e with
    | .init i desc => w.initUart s i desc
    | .control i cmd => { w with pdma := (nuUartControl s (w.uarts i) cmd []).1.map (·.1) }
    | .device k op => w.deviceCall s k op

/-- A command to a UART stops and frees no channel that was not handed to this UART. -/
def Framed (w : UartWorld) : UartDmaEvent → Prop
  | .control i cmd => ∀ s, w.pdma = .ok s →
    (∀ ch ∈ (nuUartControl s (w.uarts i) cmd []).2, w.owner ch = some (.uart i)) ∧
      ∀ s' ret, (nuUartControl s (w.uarts i) cmd []).1 = .ok (s', ret) →
        ∀ ch, s.allocated ch → ¬s'.allocated ch → w.owner ch = some (.uart i)
  | _ => True

/-- Closing a UART that has PDMA in one direction only finds channel 0 free or its own. -/
def ChannelZeroSpared (w : UartWorld) : UartDmaEvent → Prop
  | .control i .close => ∀ s, w.pdma = .ok s →
    ((w.uarts i).dmaFlagTx = true ∨ (w.uarts i).dmaFlagRx = true) →
    ((w.uarts i).pdmaPerpTx = none ∨ (w.uarts i).pdmaPerpRx = none) →
      w.owner 0 = none ∨ w.owner 0 = some (.uart i)
  | _ => True

end UartWorld

section Calls

variable {s s' : PdmaState}

theorem opened_of_masks (inited : s'.inited = s.inited) (mask : s'.chnMask = s.chnMask)
    (opened : MasksOpened s) : MasksOpened s' := by
  rcases opened with already | clear
  · exact .inl (inited.trans already)
  · exact .inr fun j => by rw [mask, clear]

theorem allocated_of_masks (mask : s'.chnMask = s.chnMask) (ch : Nat) :
    s'.allocated ch ↔ s.allocated ch := by
  unfold PdmaState.allocated
  rw [mask]

theorem channelAllocate_cases (opened : MasksOpened s) (periphType : U32) :
    ∃ s' ret, nuPdmaChannelAllocate s periphType = .ok (s', ret) ∧ MasksOpened s' ∧
      ((∃ ch : Nat, ret = ch ∧ ch < pdmaChannels ∧ ¬s.allocated ch ∧
          ∀ c, s'.allocated c ↔ s.allocated c ∨ c = ch) ∨
        (ret = -rtError ∧ ∀ c, s'.allocated c ↔ s.allocated c)) := by
  by_cases known : nuPdmaPeripheralSet periphType = none
  · exact ⟨_, _, allocate_unknown known, .init s, .inr ⟨rfl, allocated_init opened⟩⟩
  · rcases nuPdmaChannelAllocate_first opened known with
      ⟨ch, s', run, inside, free, -, inited, taken⟩ | ⟨-, run⟩
    · exact ⟨s', _, run, .inl inited, .inl ⟨ch, rfl, inside, free, taken⟩⟩
    · exact ⟨_, _, run, .init s, .inr ⟨rfl, allocated_init opened⟩⟩

theorem uartRxConfigCalls_keeps {u : NuUartDma} {base bufsize : U32} {dmabuf : Option Addr}
    {ret : Int} (run : uartRxConfigCalls s u base dmabuf bufsize = .ok (s', ret)) :
    KeepsModes s s' := by
  unfold uartRxConfigCalls at run
  obtain ⟨free, -, run⟩ := Runs.bind_ok_iff.mp run
  cases free with
  | true =>
    cases run
    exact .refl s
  | false =>
    cases dmabuf with
    | none =>
      cases run
      exact .refl s
    | some buf =>
      obtain ⟨⟨t, code⟩, setup, run⟩ := Runs.bind_ok_iff.mp run
      obtain ⟨descs, same⟩ := nuPdmaDescSetup_mem_frame setup
      have first : KeepsModes s t := same ▸ withDescs_keeps s descs
      dsimp only at run
      split_ifs at run with refused
      · cases run
        exact first
      · obtain ⟨v, start, run⟩ := Runs.bind_ok_iff.mp run
        cases run
        exact first.trans (nuPdmaTransferHead_keeps start)

theorem uartTxConfigCalls_keeps {u : NuUartDma} {ret : Int}
    (run : uartTxConfigCalls s u = .ok (s', ret)) : KeepsModes s s' := by
  unfold uartTxConfigCalls at run
  obtain ⟨free, -, run⟩ := Runs.bind_ok_iff.mp run
  cases free with
  | true =>
    cases run
    exact .refl s
  | false =>
    cases run
    exact .refl s

theorem pdmaCall_masks {op : PdmaOp} {ret : Int} (notAllocate : ∀ p, op ≠ .allocate p)
    (notFree : ∀ ch, op ≠ .free ch) (run : pdmaCall s op = .ok (s', ret)) :
    s'.inited = s.inited ∧ s'.chnMask = s.chnMask := by
  cases op with
  | allocate p => exact absurd rfl (notAllocate p)
  | free ch => exact absurd rfl (notFree ch)
  | memctrlSet ch memCtl =>
    unfold pdmaCall nuPdmaChannelMemctrlSet at run
    obtain ⟨free, -, run⟩ := Runs.bind_ok_iff.mp run
    dsimp only at run
    split_ifs at run <;> cases run <;> exact ⟨rfl, rfl⟩
  | terminate ch =>
    obtain ⟨t, stop, same⟩ := Runs.map_ok_iff.mp run
    cases same
    have keep := nuPdmaChannelTerminate_keeps stop
    exact ⟨keep.inited, keep.mask⟩
  | transfer =>
    have keep := nuPdmaTransfer_keeps run
    exact ⟨keep.inited, keep.mask⟩

end Calls

section Terminate

variable {s : PdmaState}

theorem channelNumber_natCast {ch : Nat} (inside : ch < pdmaChannels) :
    channelNumber (ch : Int) = ch := by
  unfold pdmaChannels pdmaCnt pdmaChMax at inside
  unfold channelNumber
  rw [BitVec.ofInt_natCast, BitVec.toNat_ofNat, Nat.mod_eq_of_lt (by omega)]

theorem terminateChannel_taken {chanid : Int} (alloc : s.allocated (channelNumber chanid)) :
    ∃ s', KeepsModes s s' ∧ ∀ log, terminateChannel s chanid log =
      (.ok s', log ++ [channelNumber chanid]) := by
  obtain ⟨s', run, -, -⟩ := nuPdmaChannelTerminate_allocated alloc
  refine ⟨s', nuPdmaChannelTerminate_keeps run, ?_⟩
  intro log
  unfold terminateChannel
  rw [run, if_pos alloc]

theorem failed_not_allocated : ¬s.allocated (channelNumber (-rtError)) := by
  intro alloc
  exact absurd (allocated_lt alloc) (by decide)

theorem terminateChannel_failed (log : List Nat) :
    terminateChannel s (-rtError) log = (.error .assertion, log) := by
  unfold terminateChannel
  rw [if_neg failed_not_allocated]
  rfl

end Terminate

namespace UartWorld

/-- One direction of UART `i`: a set flag stands for a channel handed to it, a direction without
peripheral keeps the id of power-on, and one that was refused a channel keeps the error. -/
structure DirectionKept (owner : Nat → Option PdmaUser) (i : Nat) (perp : Option U32)
    (flag other : Bool) (chanid : Int) : Prop where
  granted : flag = true → perp ≠ none ∧
    ∃ ch : Nat, chanid = ch ∧ ch < pdmaChannels ∧ owner ch = some (.uart i)
  unused : perp = none → chanid = 0
  refused : flag = false → other = true → perp ≠ none → chanid = -rtError

structure UartKept (owner : Nat → Option PdmaUser) (i : Nat) (u : NuUartDma) : Prop where
  tx : DirectionKept owner i u.pdmaPerpTx u.dmaFlagTx u.dmaFlagRx u.pdmaChanidTx
  rx : DirectionKept owner i u.pdmaPerpRx u.dmaFlagRx u.dmaFlagTx u.pdmaChanidRx

structure ChannelsHeld (owner : Nat → Option PdmaUser) (s : PdmaState) : Prop where
  opened : MasksOpened s
  held : ∀ ch, s.allocated ch ↔ owner ch ≠ none

structure Inv (w : UartWorld) (s : PdmaState) : Prop where
  channels : ChannelsHeld w.owner s
  uarts : ∀ i, UartKept w.owner i (w.uarts i)

section Owners

variable {owner owner' : Nat → Option PdmaUser} {i : Nat}

theorem UartKept.mono {u : NuUartDma} (kept : UartKept owner i u)
    (own : ∀ ch, owner ch = some (.uart i) → owner' ch = some (.uart i)) :
    UartKept owner' i u where
  tx := { kept.tx with
    granted := fun flag => by
      obtain ⟨used, ch, same, inside, mine⟩ := kept.tx.granted flag
      exact ⟨used, ch, same, inside, own ch mine⟩ }
  rx := { kept.rx with
    granted := fun flag => by
      obtain ⟨used, ch, same, inside, mine⟩ := kept.rx.granted flag
      exact ⟨used, ch, same, inside, own ch mine⟩ }

theorem ChannelsHeld.masks {s s' : PdmaState} (h : ChannelsHeld owner s)
    (inited : s'.inited = s.inited) (mask : s'.chnMask = s.chnMask) : ChannelsHeld owner s' :=
  ⟨opened_of_masks inited mask h.opened, fun ch => (allocated_of_masks mask ch).trans (h.held ch)⟩

theorem ChannelsHeld.take {s s' : PdmaState} (h : ChannelsHeld owner s) (opened : MasksOpened s')
    {ch : Nat} (free : ¬s.allocated ch) (taken : ∀ c, s'.allocated c ↔ s.allocated c ∨ c = ch)
    (d : PdmaUser) : ChannelsHeld (Function.update owner ch (some d)) s' ∧
      ∀ c, owner c ≠ none → Function.update owner ch (some d) c = owner c := by
  refine ⟨⟨opened, fun c => ?_⟩, fun c some => ?_⟩
  · rw [taken, h.held]
    by_cases same : c = ch
    · subst same
      simp
    · simp [same]
  · apply Function.update_of_ne
    intro same
    subst same
    exact free ((h.held c).mpr some)

theorem ChannelsHeld.ask {s : PdmaState} (h : ChannelsHeld owner s) (periphType : U32)
    (d : PdmaUser) : ∃ s' ret, nuPdmaChannelAllocate s periphType = .ok (s', ret) ∧
      ChannelsHeld (handed owner d (decide (0 ≤ ret)) ret) s' ∧
      (∀ c, owner c ≠ none → handed owner d (decide (0 ≤ ret)) ret c = owner c) ∧
      (0 ≤ ret → ∃ ch : Nat, ret = ch ∧ ch < pdmaChannels ∧
        handed owner d (decide (0 ≤ ret)) ret ch = some d) ∧
      (¬0 ≤ ret → ret = -rtError) := by
  obtain ⟨s', ret, run, opened, ⟨ch, rfl, inside, free, taken⟩ | ⟨rfl, same⟩⟩ :=
    channelAllocate_cases h.opened periphType
  · obtain ⟨held, kept⟩ := h.take opened free taken d
    have positive : (0 : Int) ≤ ch := Int.natCast_nonneg ch
    refine ⟨s', ch, run, ?_⟩
    simp only [handed, positive, decide_true, if_true, Int.toNat_natCast]
    exact ⟨held, kept, fun _ => ⟨ch, rfl, inside, Function.update_self _ _ _⟩, fun neg => absurd trivial neg⟩
  · refine ⟨s', -rtError, run, ?_⟩
    have negative : ¬(0 : Int) ≤ -rtError := by decide
    simp only [handed, negative, decide_false, Bool.false_eq_true, if_false]
    exact ⟨⟨opened, fun c => (same c).trans (h.held c)⟩, fun _ _ => trivial,
      fun pos => absurd pos id, fun _ => trivial⟩

theorem DirectionKept.unset (perp : Option U32) {chanid : Int} (unused : perp = none → chanid = 0)
    (none : perp = none) (other : Bool) : DirectionKept owner i perp false other chanid :=
  ⟨fun set => absurd set Bool.false_ne_true, unused, fun _ _ some => absurd none some⟩

theorem DirectionKept.asked {perp : U32} {ret : Int}
    (granted : 0 ≤ ret → ∃ ch : Nat, ret = ch ∧ ch < pdmaChannels ∧ owner ch = some (.uart i))
    (refused : ¬0 ≤ ret → ret = -rtError) (other : Bool) :
    DirectionKept owner i (some perp) (decide (0 ≤ ret)) other ret :=
  ⟨fun set => ⟨Option.some_ne_none perp, granted (of_decide_eq_true set)⟩,
    fun none => absurd none (Option.some_ne_none perp),
    fun clear _ _ => refused (of_decide_eq_false clear)⟩

end Owners

section Init

variable {owner : Nat → Option PdmaUser} {s : PdmaState} {u : NuUartDma}

theorem allocateTx_held (h : ChannelsHeld owner s) (i : Nat) (clear : u.dmaFlagTx = false)
    (unused : u.pdmaPerpTx = none → u.pdmaChanidTx = 0) :
    ∃ s' u', uartDmaAllocateTx s u = .ok (s', u') ∧
      ChannelsHeld (handed owner (.uart i) u'.dmaFlagTx u'.pdmaChanidTx) s' ∧
      (∀ c, owner c ≠ none → handed owner (.uart i) u'.dmaFlagTx u'.pdmaChanidTx c = owner c) ∧
      (∀ other, DirectionKept (handed owner (.uart i) u'.dmaFlagTx u'.pdmaChanidTx) i u'.pdmaPerpTx
        u'.dmaFlagTx other u'.pdmaChanidTx) ∧
      u'.dmaFlagRx = u.dmaFlagRx ∧ u'.pdmaPerpRx = u.pdmaPerpRx ∧ u'.pdmaChanidRx = u.pdmaChanidRx := by
  unfold uartDmaAllocateTx
  cases perp : u.pdmaPerpTx with
  | none =>
    refine ⟨s, u, rfl, ?_⟩
    rw [clear, perp]
    exact ⟨h, fun _ _ => rfl, .unset none (fun _ => unused perp) rfl, rfl, rfl, rfl⟩
  | some p =>
    obtain ⟨s', ret, run, held, kept, granted, refused⟩ := h.ask p (.uart i)
    have flag : (if 0 ≤ ret then true else u.dmaFlagTx) = decide (0 ≤ ret) := by
      rw [clear]
      by_cases positive : 0 ≤ ret
      · rw [if_pos positive, decide_eq_true positive]
      · rw [if_neg positive, decide_eq_false positive]
    refine ⟨s', { u with pdmaChanidTx := ret, dmaFlagTx := decide (0 ≤ ret) }, ?_, held, kept, ?_,
      rfl, rfl, rfl⟩
    · dsimp only
      rw [run, ← flag, perp]
      rfl
    · dsimp only
      rw [perp]
      exact .asked granted refused

theorem allocateRx_held (h : ChannelsHeld owner s) (i : Nat) (clear : u.dmaFlagRx = false)
    (unused : u.pdmaPerpRx = none → u.pdmaChanidRx = 0) (desc : Option Addr)
    {s' : PdmaState} {u' : NuUartDma} (run : uartDmaAllocateRx s u desc = .ok (s', u')) :
      ChannelsHeld (handed owner (.uart i) u'.dmaFlagRx u'.pdmaChanidRx) s' ∧
      (∀ c, owner c ≠ none → handed owner (.uart i) u'.dmaFlagRx u'.pdmaChanidRx c = owner c) ∧
      (∀ other, DirectionKept (handed owner (.uart i) u'.dmaFlagRx u'.pdmaChanidRx) i u'.pdmaPerpRx
        u'.dmaFlagRx other u'.pdmaChanidRx) ∧
      u'.dmaFlagTx = u.dmaFlagTx ∧ u'.pdmaPerpTx = u.pdmaPerpTx ∧ u'.pdmaChanidTx = u.pdmaChanidTx := by
  unfold uartDmaAllocateRx at run
  cases perp : u.pdmaPerpRx with
  | none =>
    rw [perp] at run
    cases run
    rw [clear, perp]
    exact ⟨h, fun _ _ => rfl, .unset none (fun _ => unused perp) rfl, rfl, rfl, rfl⟩
  | some p =>
    obtain ⟨t, ret, got, held, kept, granted, refused⟩ := h.ask p (.uart i)
    rw [perp] at run
    dsimp only at run
    rw [got] at run
    simp only [bind, Except.bind] at run
    have direction : ∀ other, DirectionKept _ i (some p) (decide (0 ≤ ret)) other ret :=
      DirectionKept.asked granted refused
    split_ifs at run with positive
    · rw [decide_eq_true positive] at held kept direction
      cases desc with
      | none => cases run
      | some a =>
        cases run
        exact ⟨held.masks rfl rfl, kept, direction, rfl, rfl, rfl⟩
    · rw [decide_eq_false positive] at held kept direction
      cases run
      dsimp only
      rw [clear]
      exact ⟨held, kept, direction, rfl, rfl, rfl⟩

end Init

section Control

variable {s s' : PdmaState} {u : NuUartDma} {log log' : List Nat}

theorem terminateChannel_keeps {chanid : Int} (run : terminateChannel s chanid log = (.ok s', log')) :
    KeepsModes s s' :=
  nuPdmaChannelTerminate_keeps (congrArg Prod.fst run)

theorem control_keeps {cmd : UartCmd} {ret : Int}
    (run : nuUartControl s u cmd log = (.ok (s', ret), log')) : KeepsModes s s' := by
  cases cmd with
  | clrInt arg =>
    dsimp only [nuUartControl] at run
    split_ifs at run
    · obtain ⟨t, mid, stop, run⟩ := Logged.bind_ok_iff.mp run
      cases run
      exact terminateChannel_keeps stop
    · cases run
      exact .refl s
  | setInt arg =>
    cases run
    exact .refl s
  | config arg base dmabuf bufsize =>
    dsimp only [nuUartControl] at run
    split_ifs at run
    · exact uartRxConfigCalls_keeps (congrArg Prod.fst run)
    · exact uartTxConfigCalls_keeps (congrArg Prod.fst run)
    · cases run
      exact .refl s
  | close =>
    dsimp only [nuUartControl] at run
    split_ifs at run
    · obtain ⟨t, mid, first, run⟩ := Logged.bind_ok_iff.mp run
      obtain ⟨v, last, second, run⟩ := Logged.bind_ok_iff.mp run
      cases run
      exact (terminateChannel_keeps first).trans (terminateChannel_keeps second)
    · cases run
      exact .refl s
  | other =>
    cases run
    exact .refl s

end Control

def WorldInv (w : UartWorld) : Prop := ∀ s, w.pdma = .ok s → Inv w s

section Step

variable {w : UartWorld} {s : PdmaState}

theorem initUart_inv (inv : Inv w s) (i : Nat) (desc : Option Addr) :
    WorldInv (w.initUart s i desc) := by
  obtain ⟨s₁, u₁, first, held₁, kept₁, tx, flagRx, perpRx, chanidRx⟩ := allocateTx_held
    (u := { w.uarts i with dmaFlagTx := false, dmaFlagRx := false }) inv.channels i rfl
    (inv.uarts i).tx.unused
  have unusedRx : u₁.pdmaPerpRx = none → u₁.pdmaChanidRx = 0 := by
    rw [perpRx, chanidRx]
    exact (inv.uarts i).rx.unused
  have run : rtHwUartInit s (w.uarts i) desc = uartDmaAllocateRx s₁ u₁ desc := by
    unfold rtHwUartInit nuHwUartDmaAllocate
    rw [first]
    rfl
  unfold initUart
  rw [run]
  cases second : uartDmaAllocateRx s₁ u₁ desc with
  | error e => exact fun _ running => nomatch running
  | ok out =>
    obtain ⟨s₂, u₂⟩ := out
    obtain ⟨held₂, kept₂, rx, flagTx, perpTx, chanidTx⟩ :=
      allocateRx_held held₁ i flagRx unusedRx desc second
    intro t running
    cases running
    dsimp only
    rw [flagTx, chanidTx]
    refine ⟨held₂, fun j => ?_⟩
    dsimp only
    by_cases same : j = i
    · subst same
      rw [Function.update_self]
      refine ⟨?_, rx _⟩
      rw [flagTx, perpTx, chanidTx]
      refine { tx u₂.dmaFlagRx with granted := fun flag => ?_ }
      obtain ⟨used, ch, same, inside, mine⟩ := (tx true).granted flag
      exact ⟨used, ch, same, inside, (kept₂ ch (by rw [mine]; exact Option.some_ne_none _)).trans mine⟩
    · rw [Function.update_of_ne same]
      apply (inv.uarts j).mono
      intro ch mine
      have some : w.owner ch ≠ none := by
        rw [mine]
        exact Option.some_ne_none _
      have one := kept₁ ch some
      exact (kept₂ ch (one ▸ some)).trans (one.trans mine)

theorem deviceCall_inv (inv : Inv w s) (running : w.pdma = .ok s) (k : Nat) (op : PdmaOp) :
    WorldInv (w.deviceCall s k op) := by
  have others (notAllocate : ∀ p, op ≠ .allocate p) (notFree : ∀ ch, op ≠ .free ch) :
      WorldInv { w with pdma := (pdmaCall s op).map (·.1) } := by
    intro t going
    obtain ⟨⟨t', ret⟩, run, same⟩ := Runs.map_ok_iff.mp going
    subst same
    obtain ⟨inited, mask⟩ := pdmaCall_masks notAllocate notFree run
    exact ⟨inv.channels.masks inited mask, inv.uarts⟩
  cases op with
  | allocate periphType =>
    obtain ⟨s', ret, run, held, kept, -, -⟩ := inv.channels.ask periphType (.device k)
    unfold deviceCall
    dsimp only
    rw [run]
    intro t going
    cases going
    refine ⟨held, fun j => (inv.uarts j).mono fun ch mine => ?_⟩
    exact (kept ch (by rw [mine]; exact Option.some_ne_none _)).trans mine
  | free ch =>
    unfold deviceCall
    dsimp only
    split_ifs with mine
    · have alloc : s.allocated ch := (inv.channels.held ch).mpr (mine ▸ Option.some_ne_none _)
      have inited : s.inited = true := by
        rcases inv.channels.opened with inited | clear
        · exact inited
        · have bit := alloc.2
          rw [clear] at bit
          simp at bit
      obtain ⟨s', run, inited', left⟩ := nuPdmaChannelFree_taken inited alloc
      rw [run]
      intro t going
      cases going
      refine ⟨⟨.inl inited', fun c => ?_⟩, fun j => (inv.uarts j).mono fun c own => ?_⟩
      · rw [left, inv.channels.held]
        by_cases same : c = ch
        · subst same
          simp
        · simp [same]
      · dsimp only
        rw [Function.update_of_ne]
        · exact own
        · intro same
          subst same
          rw [mine] at own
          cases own
    · intro t going
      rw [running] at going
      cases going
      exact inv
  | memctrlSet ch memCtl => exact others (fun _ => nofun) (fun _ => nofun)
  | terminate ch => exact others (fun _ => nofun) (fun _ => nofun)
  | transfer => exact others (fun _ => nofun) (fun _ => nofun)

theorem step_inv (inv : WorldInv w) (e : UartDmaEvent) : WorldInv (w.step e) := by
  unfold step
  cases running : w.pdma with
  | error f =>
    intro t going
    dsimp only at going
    rw [running] at going
    cases going
  | ok s =>
    have now := inv s running
    cases e with
    | init i desc => exact initUart_inv now i desc
    | control i cmd =>
      intro t going
      obtain ⟨⟨t', ret⟩, run, same⟩ := Runs.map_ok_iff.mp going
      subst same
      have keep : KeepsModes s t' := control_keeps (Prod.ext run rfl)
      exact ⟨now.channels.masks keep.inited keep.mask, now.uarts⟩
    | device k op => exact deviceCall_inv now running k op

end Step

section Close

variable {owner : Nat → Option PdmaUser} {s : PdmaState} {i : Nat} {u : NuUartDma}

theorem terminate_granted (held : ChannelsHeld owner s) {chanid : Int}
    (granted : ∃ ch : Nat, chanid = ch ∧ ch < pdmaChannels ∧ owner ch = some (.uart i)) :
    ∃ s' ch, ChannelsHeld owner s' ∧ owner ch = some (.uart i) ∧
      ∀ log, terminateChannel s chanid log = (.ok s', log ++ [ch]) := by
  obtain ⟨ch, rfl, inside, mine⟩ := granted
  have number := channelNumber_natCast inside
  have alloc : s.allocated (channelNumber (ch : Int)) := by
    rw [number, held.held, mine]
    exact Option.some_ne_none _
  obtain ⟨s', keep, run⟩ := terminateChannel_taken alloc
  refine ⟨s', ch, held.masks keep.inited keep.mask, mine, fun log => ?_⟩
  rw [run, number]

theorem terminate_unused (held : ChannelsHeld owner s) :
    ∃ s', ChannelsHeld owner s' ∧ ∀ log, terminateChannel s 0 log =
      (.ok s', if owner 0 = none then log else log ++ [0]) := by
  have number : channelNumber 0 = 0 := rfl
  by_cases free : owner 0 = none
  · have clear : ¬s.allocated 0 := fun alloc => (held.held 0).mp alloc free
    have bit : nuPdmaCheckIsNonallocated s 0 = .ok true := by
      rcases not_allocated_cases clear with fault | none
      · cases fault
      · exact none
    refine ⟨s, held, fun log => ?_⟩
    unfold terminateChannel
    rw [number, if_neg clear, if_pos free]
    simp [nuPdmaChannelTerminate, bit, bind, Except.bind, pure, Except.pure]
  · have alloc : s.allocated (channelNumber 0) := by
      rw [number, held.held]
      exact free
    obtain ⟨s', keep, run⟩ := terminateChannel_taken alloc
    refine ⟨s', held.masks keep.inited keep.mask, fun log => ?_⟩
    rw [run, number, if_neg free]

theorem close_log (flagged : u.dmaFlagTx = true ∨ u.dmaFlagRx = true) {s₁ : PdmaState}
    {log : List Nat} (first : terminateChannel s u.pdmaChanidTx [] = (.ok s₁, log)) :
    (nuUartControl s u .close []).2 = (terminateChannel s₁ u.pdmaChanidRx log).2 := by
  dsimp only [nuUartControl]
  rw [if_pos flagged, Logged.bind_ok first]
  cases second : terminateChannel s₁ u.pdmaChanidRx log with
  | mk result last =>
    cases result with
    | ok s₂ =>
      rw [Logged.bind_ok second]
      rfl
    | error e => rw [Logged.bind_error second]

theorem close_log_stopped (flagged : u.dmaFlagTx = true ∨ u.dmaFlagRx = true)
    (failed : u.pdmaChanidTx = -rtError) : (nuUartControl s u .close []).2 = [] := by
  dsimp only [nuUartControl]
  rw [if_pos flagged, Logged.bind_error (failed ▸ terminateChannel_failed [])]

theorem close_own_iff (held : ChannelsHeld owner s) (kept : UartKept owner i u) :
    (∀ ch ∈ (nuUartControl s u .close []).2, owner ch = some (.uart i)) ↔
      ((u.dmaFlagTx = true ∨ u.dmaFlagRx = true) →
        (u.pdmaPerpTx = none ∨ u.pdmaPerpRx = none) →
          owner 0 = none ∨ owner 0 = some (.uart i)) := by
  cases tx : u.dmaFlagTx with
  | true =>
    obtain ⟨usedTx, granted⟩ := kept.tx.granted tx
    obtain ⟨s₁, ch, held₁, mine, first⟩ := terminate_granted held granted
    rw [close_log (.inl tx) (first [])]
    cases rx : u.dmaFlagRx with
    | true =>
      obtain ⟨usedRx, granted⟩ := kept.rx.granted rx
      obtain ⟨s₂, c, -, mine', second⟩ := terminate_granted held₁ granted
      rw [second]
      simp [usedTx, usedRx, mine, mine']
    | false =>
      by_cases unused : u.pdmaPerpRx = none
      · obtain ⟨s₂, -, second⟩ := terminate_unused held₁
        rw [kept.rx.unused unused, second]
        by_cases free : owner 0 = none
        · simp [free, mine]
        · simp [free, mine, unused]
      · rw [kept.rx.refused rx tx unused, terminateChannel_failed]
        simp [usedTx, unused, mine]
  | false =>
    cases rx : u.dmaFlagRx with
    | true =>
      obtain ⟨usedRx, granted⟩ := kept.rx.granted rx
      by_cases unused : u.pdmaPerpTx = none
      · obtain ⟨s₁, held₁, first⟩ := terminate_unused held
        rw [← kept.tx.unused unused] at first
        rw [close_log (.inr rx) (first [])]
        obtain ⟨s₂, c, -, mine, second⟩ := terminate_granted held₁ granted
        rw [second]
        by_cases free : owner 0 = none
        · simp [free, mine]
        · simp [free, mine, unused]
      · rw [close_log_stopped (.inr rx) (kept.tx.refused tx rx unused)]
        simp [unused, usedRx]
    | false =>
      dsimp only [nuUartControl]
      rw [if_neg (by simp [tx, rx])]
      simp

theorem control_own (held : ChannelsHeld owner s) (kept : UartKept owner i u) {cmd : UartCmd}
    (other : cmd ≠ .close) :
    ∀ ch ∈ (nuUartControl s u cmd []).2, owner ch = some (.uart i) := by
  cases cmd with
  | clrInt arg =>
    dsimp only [nuUartControl]
    split_ifs with use
    · obtain ⟨-, granted⟩ := kept.rx.granted use.2
      obtain ⟨s', c, -, mine, run⟩ := terminate_granted held granted
      rw [Logged.bind_ok (run [])]
      simpa using mine
    · exact fun ch stopped => absurd stopped List.not_mem_nil
  | setInt arg => exact fun ch stopped => absurd stopped List.not_mem_nil
  | config arg base dmabuf bufsize =>
    dsimp only [nuUartControl]
    split_ifs <;> exact fun ch stopped => absurd stopped List.not_mem_nil
  | close => exact absurd rfl other
  | other => exact fun ch stopped => absurd stopped List.not_mem_nil

end Close

theorem framed_iff {w : UartWorld} (inv : WorldInv w) (e : UartDmaEvent) :
    w.Framed e ↔ w.ChannelZeroSpared e := by
  cases e with
  | init i desc => exact Iff.rfl
  | device k op => exact Iff.rfl
  | control i cmd =>
    have frees (s : PdmaState) (s' : PdmaState) (ret : Int)
        (run : (nuUartControl s (w.uarts i) cmd []).1 = .ok (s', ret)) (ch : Nat)
        (alloc : s.allocated ch) : s'.allocated ch :=
      (control_keeps (Prod.ext run rfl)).allocated.mpr alloc
    by_cases close : cmd = .close
    · subst close
      refine forall₂_congr fun s running => ?_
      rw [← close_own_iff (inv s running).channels ((inv s running).uarts i)]
      exact and_iff_left fun s' ret run ch alloc freed =>
        absurd (frees s s' ret run ch alloc) freed
    · have spared : w.ChannelZeroSpared (.control i cmd) := by
        cases cmd with
        | close => exact absurd rfl close
        | _ => trivial
      refine iff_of_true (fun s running => ⟨?_, fun s' ret run ch alloc freed => ?_⟩) spared
      · exact control_own (inv s running).channels ((inv s running).uarts i) close
      · exact absurd (frees s s' ret run ch alloc) freed

theorem start_inv (perps : Nat → Option U32 × Option U32) : WorldInv (start perps) := by
  intro s running
  cases running
  refine ⟨⟨.inr fun _ => rfl, fun ch => ?_⟩, fun i => ?_⟩
  · simp [PdmaState.allocated, PdmaState.powerOn, start]
  · have direction (perp : Option U32) :
        DirectionKept (fun _ => none) i perp false false 0 :=
      ⟨fun set => absurd set Bool.false_ne_true, fun _ => rfl,
        fun _ set => absurd set Bool.false_ne_true⟩
    exact ⟨direction _, direction _⟩

/-- Whatever the UARTs are configured with and whoever else takes and gives back channels, in any
order, the commands to the UARTs stop and free their own channels alone exactly when no UART with
PDMA in one direction is closed while channel 0 is another device's. -/
theorem uart_dma_framed_iff (perps : Nat → Option U32 × Option U32) (es : List UartDmaEvent) :
    Runs.StepsMeet step Framed (start perps) es ↔
      Runs.StepsMeet step ChannelZeroSpared (start perps) es :=
  Runs.stepsMeet_congr WorldInv (fun _ e inv => framed_iff inv e)
    (fun _ e inv _ => step_inv inv e) (start_inv perps) es

/-- `uart1` transmits without PDMA and receives with it, after another device took channel 0. -/
def closedAfterMemory : List UartDmaEvent :=
  [.device 0 (.allocate pdmaMem), .init 1 (some 0x80001000), .control 1 .close]

theorem close_stops_channel_zero :
    ¬Runs.StepsMeet step Framed (start fun _ => (none, some 7)) closedAfterMemory := by
  intro framed
  have last := framed [.device 0 (.allocate pdmaMem), .init 1 (some 0x80001000)]
    (.control 1 .close) (List.prefix_refl _) _ rfl
  have stopped := last.1 0 (by decide)
  exact absurd stopped (by decide)

end UartWorld

end NuMakerMA35
