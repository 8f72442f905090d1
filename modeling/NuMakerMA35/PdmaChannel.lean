import NuMakerMA35.PdmaDesc
import NuMakerMA35.Runs
import Mathlib.Logic.Function.Basic

namespace NuMakerMA35

abbrev Addr := U32

/-- Channel bookkeeping, `struct nu_pdma_chn`; the callbacks live with their users. -/
structure PdmaChn where
  sgtbl : Addr
  wantedSGTblNum : Nat
  idleTimeoutUs : U32
  peripheral : U32
  memCtl : MemCtrl
  deriving DecidableEq, Repr

def PdmaChn.cleared : PdmaChn := ⟨0, 0, 0, 0, .srcFixDstFix⟩

/-- The driver's globals, the channel descriptors in the controllers and the heap blocks
reached from them: pointer tables and descriptors. -/
structure PdmaState where
  inited : Bool
  chnMask : Nat → U32
  chn : Nat → PdmaChn
  dsct : Nat → Dsct
  reqsel : Nat → U32
  tables : Addr → Option (List Addr)
  descs : Addr → Option Dsct

/-- Ways a call does not return: `RT_ASSERT` never does, and a dereference of a pointer to no
live block is undefined. -/
inductive PdmaFault where
  | assertion
  | badPointer
  deriving DecidableEq, Repr

def rtEok : Int := 0
def rtError : Int := 1
def rtEio : Int := 8
def rtEinval : Int := 10

def pdmaChMax : Nat := 10

/-- `BSP_USING_PDMA0` and `BSP_USING_PDMA1` are the modules configured. -/
def pdmaCnt : Nat := 2

def pdmaChMsk : U32 := 0x3ff

def pdmaMem : U32 := 0

def PdmaState.powerOn : PdmaState where
  inited := false
  chnMask := fun _ => 0
  chn := fun _ => .cleared
  dsct := fun _ => ⟨0, 0, 0, 0⟩
  reqsel := fun _ => 0
  tables := fun _ => none
  descs := fun _ => none

def PdmaState.setChn (s : PdmaState) (ch : Nat) (c : PdmaChn) : PdmaState :=
  { s with chn := Function.update s.chn ch c }

/-- Peripherals that write to their device, in the order of `g_nu_pdma_peripheral_ctl_pool`;
each has its reader at the next number. -/
def pdmaTxPeripherals : List Nat :=
  [4, 6, 8, 10, 12, 14, 16, 18, 20, 22, 24, 26, 28, 30, 32, 34, 36, 54, 56, 60, 62, 64, 66,
    70, 72, 74, 76, 78, 80, 86, 88]

/-- `g_nu_pdma_peripheral_ctl_pool`: memory to memory, memory to peripheral, peripheral to memory. -/
def nuPdmaPeripheralCtlPool : List (U32 × MemCtrl) :=
  (pdmaMem, .srcIncDstInc) ::
    pdmaTxPeripherals.map (fun p => (BitVec.ofNat 32 p, MemCtrl.srcIncDstFix)) ++
    pdmaTxPeripherals.map (fun p => (BitVec.ofNat 32 (p + 1), MemCtrl.srcFixDstInc))

def nuPdmaPeripheralSet (periphType : U32) : Option (U32 × MemCtrl) :=
  nuPdmaPeripheralCtlPool.find? (fun e => e.1 = periphType)

def nuPdmaCheckIsNonallocated (s : PdmaState) (ch : Nat) : Except PdmaFault Bool :=
  if ch / pdmaChMax < pdmaCnt then
    .ok (!(s.chnMask (ch / pdmaChMax)).getLsbD (ch % pdmaChMax))
  else .error .assertion

def PdmaState.allocated (s : PdmaState) (ch : Nat) : Prop :=
  ch / pdmaChMax < pdmaCnt ∧ (s.chnMask (ch / pdmaChMax)).getLsbD (ch % pdmaChMax) = true

instance (s : PdmaState) (ch : Nat) : Decidable (s.allocated ch) :=
  inferInstanceAs (Decidable (_ ∧ _))

theorem check_of_allocated {s : PdmaState} {ch : Nat} (h : s.allocated ch) :
    nuPdmaCheckIsNonallocated s ch = .ok false := by
  obtain ⟨bound, bit⟩ := h
  simp [nuPdmaCheckIsNonallocated, bound, bit]

theorem check_cases (s : PdmaState) (ch : Nat) :
    nuPdmaCheckIsNonallocated s ch = .error .assertion ∨
      nuPdmaCheckIsNonallocated s ch = .ok true ∨ s.allocated ch := by
  unfold nuPdmaCheckIsNonallocated PdmaState.allocated
  by_cases bound : ch / pdmaChMax < pdmaCnt
  · cases bit : (s.chnMask (ch / pdmaChMax)).getLsbD (ch % pdmaChMax) with
    | false => simp [bound]
    | true => simp [bound]
  · simp [bound]

def nuPdmaInit (s : PdmaState) : PdmaState :=
  if s.inited then s
  else { s with
    inited := true
    chn := fun _ => .cleared
    chnMask := fun i => if i < pdmaCnt then ~~~pdmaChMsk else s.chnMask i }

/-- The time-out registers are not modelled, only the value kept for the interrupt handler. -/
def nuPdmaTimeoutSet (s : PdmaState) (ch : Nat) (timeoutUs : U32) : Except PdmaFault PdmaState := do
  if ← nuPdmaCheckIsNonallocated s ch then return s
  return s.setChn ch { s.chn ch with idleTimeoutUs := timeoutUs }

theorem nuPdmaTimeoutSet_of_allocated {s : PdmaState} {ch : Nat} (h : s.allocated ch)
    (timeoutUs : U32) : nuPdmaTimeoutSet s ch timeoutUs =
      .ok (s.setChn ch { s.chn ch with idleTimeoutUs := timeoutUs }) := by
  simp [nuPdmaTimeoutSet, check_of_allocated h, bind, Except.bind, pure, Except.pure]

theorem nuPdmaTimeoutSet_ok {s s' : PdmaState} {ch : Nat} {timeoutUs : U32}
    (h : nuPdmaTimeoutSet s ch timeoutUs = .ok s') :
    s' = s ∨ s' = s.setChn ch { s.chn ch with idleTimeoutUs := timeoutUs } := by
  rcases check_cases s ch with fault | free | alloc
  · rw [nuPdmaTimeoutSet, fault] at h
    cases h
  · rw [nuPdmaTimeoutSet, free] at h
    cases h
    exact .inl rfl
  · rw [nuPdmaTimeoutSet_of_allocated alloc] at h
    cases h
    exact .inr rfl

/-- Reset waits for the channel to stop; enabling it clears its control word. -/
def nuPdmaChannelTerminate (s : PdmaState) (ch : Nat) : Except PdmaFault PdmaState := do
  if ← nuPdmaCheckIsNonallocated s ch then return s
  let s ← nuPdmaTimeoutSet s ch 0
  return { s with dsct := Function.update s.dsct ch { s.dsct ch with ctl := 0 } }

/-- The first module with a free channel, and that channel's number there. -/
def firstFreeChannel (s : PdmaState) : Nat → Nat → Option (Nat × Nat)
  | 0, _ => none
  | n + 1, j =>
    let chnId := nuCto (s.chnMask j)
    if chnId < pdmaChMax then some (j, chnId) else firstFreeChannel s n (j + 1)

def PdmaState.freeChannel (s : PdmaState) : Option (Nat × Nat) := firstFreeChannel s pdmaCnt 0

def nuPdmaChannelAllocate (s : PdmaState) (periphType : U32) : Except PdmaFault (PdmaState × Int) := do
  let s := nuPdmaInit s
  match nuPdmaPeripheralSet periphType with
  | none => return (s, -rtError)
  | some (peripheral, memCtl) =>
    match s.freeChannel with
    | none => return (s, -rtError)
    | some (j, chnId) =>
      let s := { s with
        chnMask := Function.update s.chnMask j (s.chnMask j ||| ((1 : U32) <<< chnId)) }
      let ch := chnId + j * pdmaChMax
      let s := s.setChn ch { PdmaChn.cleared with peripheral := peripheral, memCtl := memCtl }
      let s ← nuPdmaChannelTerminate s ch
      return (s, ch)

/-- The bound on the channel number is checked after the mask was read. -/
def nuPdmaChannelFree (s : PdmaState) (ch : Nat) : Except PdmaFault (PdmaState × Int) := do
  if !s.inited then return (s, -rtEinval)
  if ← nuPdmaCheckIsNonallocated s ch then return (s, -rtEinval)
  if ch < pdmaCnt * pdmaChMax then
    let j := ch / pdmaChMax
    let s := { s with
      chnMask := Function.update s.chnMask j (s.chnMask j &&& ~~~((1 : U32) <<< (ch % pdmaChMax))) }
    return (s, -rtEok)
  else return (s, -rtEinval)

def nuPdmaChannelMemctrlGet (s : PdmaState) (ch : Nat) : Except PdmaFault MemCtrl := do
  if ← nuPdmaCheckIsNonallocated s ch then return .undefined
  return (s.chn ch).memCtl

/-- A memory channel takes no mode with a fixed source. -/
def nuPdmaChannelMemctrlSet (s : PdmaState) (ch : Nat) (memCtl : MemCtrl) :
    Except PdmaFault (PdmaState × Int) := do
  if ← nuPdmaCheckIsNonallocated s ch then return (s, -rtEinval)
  if memCtl = .undefined then return (s, -rtEinval)
  if (s.chn ch).peripheral = pdmaMem ∧ (memCtl = .srcFixDstInc ∨ memCtl = .srcFixDstFix) then
    return (s, -rtEinval)
  return (s.setChn ch { s.chn ch with memCtl := memCtl }, -rtEok)

def nuPdmaNonTransferCountGet (s : PdmaState) (ch : Nat) : U32 :=
  (((s.dsct ch).ctl &&& pdmaDsctCtlTxcntMsk) >>> pdmaDsctCtlTxcntPos) + 1

end NuMakerMA35
