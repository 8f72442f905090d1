import NuMakerMA35.Pwm
import NuMakerMA35.Runs
import Mathlib.Order.Fin.Basic

namespace NuMakerMA35

inductive CaptureEdge where
  | rising
  | falling
  deriving DecidableEq

/-- A latch on a channel, with the counter's value, and whether the counter wrapped before it. -/
structure LatchEvent where
  channel : Fin 6
  edge : CaptureEdge
  data : BitVec 16
  wrapped : Bool

structure CaptureRegs where
  capctl : U32
  capien : U32
  capif : U32
  status : U32
  rcapdat : Fin 6 → BitVec 16
  fcapdat : Fin 6 → BitVec 16

structure NuEpwmcap where
  currentRisingCnt : U32
  currentFallingCnt : U32
  inputDataLevel : Bool
  delivered : List (U32 × Bool)

/-- A module with its six devices, and for each of its three interrupts the device that the handler
is installed with, and whether the interrupt is let through. -/
structure EpwmCap where
  regs : CaptureRegs
  caps : Fin 6 → NuEpwmcap
  handler : Fin 3 → Option (Fin 6)
  unmasked : Fin 3 → Bool

def epwmCaptureIntRisingLatch : U32 := 1
def epwmCaptureIntFallingLatch : U32 := 0x100
def epwmCapifCrlif0Msk : U32 := 1
def epwmCapifCflif0Msk : U32 := 1 <<< 8
def epwmStatusCntmaxf0Msk : U32 := 1
def epwmCapctlRcrlden0Pos : Nat := 16
def epwmCapctlFcrlden0Pos : Nat := 24

def epwmGetWrapAroundFlag (status : U32) (channel : Fin 6) : U32 :=
  if status &&& epwmStatusCntmaxf0Msk <<< channel.val ≠ 0 then 1 else 0

def epwmGetCaptureIntFlag (capif : U32) (channel : Fin 6) : U32 :=
  (if capif &&& epwmCapifCflif0Msk <<< channel.val ≠ 0 then 1 else 0) <<< 1 |||
    (if capif &&& epwmCapifCrlif0Msk <<< channel.val ≠ 0 then 1 else 0)

def epwmClearCaptureIntFlag (regs : CaptureRegs) (channel : Fin 6) (edge : U32) : CaptureRegs :=
  { regs with capif := regs.capif &&& ~~~(edge <<< channel.val) }

def epwmClearWrapAroundFlag (regs : CaptureRegs) (channel : Fin 6) : CaptureRegs :=
  { regs with status := regs.status &&& ~~~(epwmStatusCntmaxf0Msk <<< channel.val) }

def calPulseWidth (channel : Fin 6) (regs : CaptureRegs) (cap : NuEpwmcap) :
    Bool × CaptureRegs × NuEpwmcap :=
  let wrapAroundFlag := epwmGetWrapAroundFlag regs.status channel ≠ 0
  let regs := if wrapAroundFlag then epwmClearWrapAroundFlag regs channel else regs
  if epwmGetCaptureIntFlag regs.capif channel = 1 then
    let cnt := if wrapAroundFlag then 0x10000 else cap.currentRisingCnt
    (true, epwmClearCaptureIntFlag regs channel epwmCaptureIntRisingLatch,
      { cap with currentRisingCnt := cnt + (regs.rcapdat channel).setWidth 32 })
  else if epwmGetCaptureIntFlag regs.capif channel = 2 then
    let cnt := if wrapAroundFlag then 0x10000 else cap.currentFallingCnt
    (true, epwmClearCaptureIntFlag regs channel epwmCaptureIntFallingLatch,
      { cap with currentFallingCnt := cnt + (regs.fcapdat channel).setWidth 32 })
  else
    (false, epwmClearCaptureIntFlag (epwmClearCaptureIntFlag regs channel epwmCaptureIntRisingLatch)
      channel epwmCaptureIntFallingLatch, cap)

def nuEpwmcapGetPulsewidth (cap : NuEpwmcap) : Option (U32 × NuEpwmcap) :=
  if cap.currentFallingCnt ≠ 0 then
    some (cap.currentFallingCnt, { cap with inputDataLevel := false, currentFallingCnt := 0 })
  else if cap.currentRisingCnt ≠ 0 then
    some (cap.currentRisingCnt, { cap with inputDataLevel := true, currentRisingCnt := 0 })
  else none

def rtHwInputcaptureIsr (cap : NuEpwmcap) (level : Bool) : NuEpwmcap :=
  match nuEpwmcapGetPulsewidth cap with
  | some (width, cap) => { cap with delivered := cap.delivered ++ [(width, level)] }
  | none => cap

namespace EpwmCap

/-- `nu_epwmcap_isr`: the level that is passed on is the one from before. -/
def nuEpwmcapIsr (s : EpwmCap) (param : Fin 6) : EpwmCap :=
  if epwmGetCaptureIntFlag s.regs.capif param ≠ 0 then
    let (ok, regs, cap) := calPulseWidth param s.regs (s.caps param)
    let cap := if ok then rtHwInputcaptureIsr cap cap.inputDataLevel else cap
    { s with regs := regs, caps := Function.update s.caps param cap }
  else s

/-- A turn of the loop of `rt_hw_epwmcap_init`: a handler is installed for the first channel only. -/
def initOne (s : EpwmCap) (channel : Fin 6) : EpwmCap :=
  { s with
    caps := Function.update s.caps channel
      { s.caps channel with currentRisingCnt := 0, currentFallingCnt := 0 }
    handler := if channel.val % 6 = 0 then
      Function.update s.handler (epwmPair channel) (some channel) else s.handler }

def reset : EpwmCap where
  regs := ⟨0, 0, 0, 0, fun _ => 0, fun _ => 0⟩
  caps := fun _ => ⟨0, 0, false, []⟩
  handler := fun _ => none
  unmasked := fun _ => false

def rtHwEpwmcapInit : EpwmCap := (List.finRange 6).foldl initOne reset

/-- `nu_epwmcap_open`, without the unit of time and the start of the counter. -/
def nuEpwmcapOpen (s : EpwmCap) (channel : Fin 6) : EpwmCap :=
  { s with
    regs := { s.regs with
      capien := s.regs.capien |||
        (epwmCaptureIntFallingLatch ||| epwmCaptureIntRisingLatch) <<< channel.val
      capctl := (s.regs.capctl ||| (1 : U32) <<< channel.val) |||
        ((1 : U32) <<< (epwmCapctlRcrlden0Pos + channel.val) |||
          (1 : U32) <<< (epwmCapctlFcrlden0Pos + channel.val)) }
    unmasked := Function.update s.unmasked (epwmPair channel) true }

end EpwmCap

def CaptureEdge.flag : CaptureEdge → U32
  | rising => epwmCaptureIntRisingLatch
  | falling => epwmCaptureIntFallingLatch

/-- A channel whose capture function is enabled latches; the flag stands until it is cleared. -/
def CaptureRegs.latch (regs : CaptureRegs) (e : LatchEvent) : CaptureRegs :=
  if regs.capctl &&& (1 : U32) <<< e.channel.val ≠ 0 then
    { regs with
      capif := regs.capif ||| e.edge.flag <<< e.channel.val
      status := if e.wrapped then regs.status ||| epwmStatusCntmaxf0Msk <<< e.channel.val
        else regs.status
      rcapdat := if e.edge = .rising then Function.update regs.rcapdat e.channel e.data
        else regs.rcapdat
      fcapdat := if e.edge = .falling then Function.update regs.fcapdat e.channel e.data
        else regs.fcapdat }
  else regs

namespace EpwmCap

def latch (s : EpwmCap) (e : LatchEvent) : EpwmCap := { s with regs := s.regs.latch e }

def irqMask (line : Fin 3) : U32 :=
  (0x101 : U32) <<< (2 * line.val) ||| (0x101 : U32) <<< (2 * line.val + 1)

/-- An interrupt is taken where a flag of its channels is set and enabled, and it is let through. -/
def irq (s : EpwmCap) (line : Fin 3) : EpwmCap :=
  if s.unmasked line = true ∧ s.regs.capif &&& s.regs.capien &&& irqMask line ≠ 0 then
    match s.handler line with
    | some param => s.nuEpwmcapIsr param
    | none => s
  else s

def serve (s : EpwmCap) : EpwmCap := (List.finRange 3).foldl irq s

end EpwmCap

@[ext]
structure CaptureRun where
  cap : EpwmCap
  log : List LatchEvent

namespace CaptureRun

variable (opened : List (Fin 6))

/-- Latches come, in this order, before the interrupts are served. -/
def step (s : CaptureRun) (batch : List LatchEvent) : CaptureRun :=
  ⟨(batch.foldl EpwmCap.latch s.cap).serve, s.log ++ batch.filter (·.channel ∈ opened)⟩

def start : CaptureRun := ⟨opened.foldl EpwmCap.nuEpwmcapOpen EpwmCap.rtHwEpwmcapInit, []⟩

end CaptureRun

def LatchEvent.width (e : LatchEvent) : U32 :=
  (if e.wrapped then 0x10000 else 0) + e.data.setWidth 32

/-- The width that was latched; a falling edge ends a phase that was high. -/
def LatchEvent.record (e : LatchEvent) : U32 × Bool := (e.width, decide (e.edge = .falling))

/-- No flag is left, and every device has a record of each latch on its own channel, in order. -/
def CaptureRun.Delivers (s : CaptureRun) : Prop :=
  (∀ channel, epwmGetCaptureIntFlag s.cap.regs.capif channel = 0) ∧
    ∀ channel, (s.cap.caps channel).delivered =
      (s.log.filter (·.channel = channel)).map LatchEvent.record

/-- At most one latch is served at a time, on the first channel, with a width that is not zero, and
it falls just where the one before it rose. -/
def CaptureRun.Single (opened : List (Fin 6)) (s : CaptureRun) (batch : List LatchEvent) : Prop :=
  batch.filter (·.channel ∈ opened) = [] ∨
    ∃ e, batch.filter (·.channel ∈ opened) = [e] ∧ e.channel = 0 ∧ e.width ≠ 0 ∧
      (e.edge = .falling ↔ s.log.getLast?.map LatchEvent.edge = some .rising)

section Open

variable (opened : List (Fin 6)) (s : EpwmCap)

theorem openAll_frame : (opened.foldl EpwmCap.nuEpwmcapOpen s).caps = s.caps ∧
    (opened.foldl EpwmCap.nuEpwmcapOpen s).handler = s.handler ∧
    (opened.foldl EpwmCap.nuEpwmcapOpen s).regs.capif = s.regs.capif ∧
    (opened.foldl EpwmCap.nuEpwmcapOpen s).regs.status = s.regs.status := by
  induction opened generalizing s with
  | nil => exact ⟨rfl, rfl, rfl, rfl⟩
  | cons c rest ih => exact ih (s.nuEpwmcapOpen c)

theorem open_capctl (c channel : Fin 6) :
    (s.nuEpwmcapOpen c).regs.capctl &&& (1 : U32) <<< channel.val ≠ 0 ↔
      s.regs.capctl &&& (1 : U32) <<< channel.val ≠ 0 ∨ channel = c := by
  have own : (1 : U32) <<< c.val &&& (1 : U32) <<< channel.val = 0 ↔ ¬channel = c := by
    revert c channel
    decide
  have reload : ((1 : U32) <<< (epwmCapctlRcrlden0Pos + c.val) |||
      (1 : U32) <<< (epwmCapctlFcrlden0Pos + c.val)) &&& (1 : U32) <<< channel.val = 0 := by
    revert c channel
    decide
  have capctl : (s.nuEpwmcapOpen c).regs.capctl &&& (1 : U32) <<< channel.val =
      s.regs.capctl &&& (1 : U32) <<< channel.val |||
        (1 : U32) <<< c.val &&& (1 : U32) <<< channel.val := by
    rw [← BitVec.and_or_distrib_right]
    exact orMask_and reload
  rw [capctl, ne_eq, orWords_eq_zero, own]
  tauto

theorem openAll_capctl (channel : Fin 6) :
    (opened.foldl EpwmCap.nuEpwmcapOpen s).regs.capctl &&& (1 : U32) <<< channel.val ≠ 0 ↔
      s.regs.capctl &&& (1 : U32) <<< channel.val ≠ 0 ∨ channel ∈ opened := by
  induction opened generalizing s with
  | nil => simp
  | cons c rest ih =>
    rw [List.foldl_cons, ih, open_capctl, List.mem_cons, or_assoc]

/-- The enabled interrupt of the first channel, in both of its edges. -/
def EpwmCap.FirstEnabled (s : EpwmCap) : Prop :=
  (∀ edge : CaptureEdge, s.regs.capien &&& edge.flag = edge.flag) ∧ s.unmasked 0 = true

theorem flags_kept {x y flag : U32} (kept : x &&& flag = flag) : (x ||| y) &&& flag = flag := by
  apply BitVec.eq_of_getLsbD_eq
  intro i inside
  have here := congrArg (fun word => word.getLsbD i) kept
  simp only [BitVec.getLsbD_and, BitVec.getLsbD_or] at here ⊢
  cases own : flag.getLsbD i <;> simp_all

theorem open_firstEnabled {c : Fin 6} (enabled : c = 0 ∨ s.FirstEnabled) :
    (s.nuEpwmcapOpen c).FirstEnabled := by
  have unmasked : (s.nuEpwmcapOpen c).unmasked = Function.update s.unmasked (epwmPair c) true := rfl
  rcases enabled with rfl | before
  · constructor
    · intro edge
      have own : (epwmCaptureIntFallingLatch ||| epwmCaptureIntRisingLatch) <<< (0 : Fin 6).val &&&
          edge.flag = edge.flag := by
        cases edge <;> decide
      change (s.regs.capien ||| _) &&& edge.flag = edge.flag
      rw [BitVec.or_comm]
      exact flags_kept own
    · rw [unmasked, show epwmPair 0 = 0 from rfl, Function.update_self]
  · refine ⟨fun edge => flags_kept (before.1 edge), ?_⟩
    rw [unmasked]
    by_cases first : epwmPair c = 0
    · rw [first, Function.update_self]
    · rw [Function.update_of_ne (fun same => first same.symm), before.2]

theorem openAll_firstEnabled (enabled : 0 ∈ opened ∨ s.FirstEnabled) :
    (opened.foldl EpwmCap.nuEpwmcapOpen s).FirstEnabled := by
  induction opened generalizing s with
  | nil => exact enabled.resolve_left List.not_mem_nil
  | cons c rest ih =>
    rw [List.foldl_cons]
    refine ih _ ?_
    rcases enabled with here | before
    · rcases List.mem_cons.mp here with first | later
      · exact .inr (open_firstEnabled s (.inl first.symm))
      · exact .inl later
    · exact .inr (open_firstEnabled s (.inr before))

end Open

section Serve

variable {opened : List (Fin 6)} {s : EpwmCap}

theorem latch_closed {e : LatchEvent} (closed : ¬s.regs.capctl &&& (1 : U32) <<< e.channel.val ≠ 0) :
    s.latch e = s := by
  rw [EpwmCap.latch, CaptureRegs.latch, if_neg closed]

theorem latch_capctl (e : LatchEvent) : (s.latch e).regs.capctl = s.regs.capctl := by
  unfold EpwmCap.latch CaptureRegs.latch
  split <;> rfl

theorem latch_capien (e : LatchEvent) : (s.latch e).regs.capien = s.regs.capien := by
  unfold EpwmCap.latch CaptureRegs.latch
  split <;> rfl

theorem foldl_latch_filter (openLatch : ∀ channel : Fin 6,
      s.regs.capctl &&& (1 : U32) <<< channel.val ≠ 0 ↔ channel ∈ opened) (batch : List LatchEvent) :
    batch.foldl EpwmCap.latch s = (batch.filter (·.channel ∈ opened)).foldl EpwmCap.latch s := by
  induction batch generalizing s with
  | nil => rfl
  | cons e batch ih =>
    have rest := @ih (s.latch e) (by rw [latch_capctl]; exact openLatch)
    rw [List.foldl_cons, rest]
    by_cases here : e.channel ∈ opened
    · rw [List.filter_cons_of_pos (by simpa using here), List.foldl_cons]
    · rw [List.filter_cons_of_neg (by simpa using here),
        latch_closed fun enabled => here ((openLatch e.channel).mp enabled)]

theorem foldl_latch_frame (batch : List LatchEvent) : (batch.foldl EpwmCap.latch s).caps = s.caps ∧
    (batch.foldl EpwmCap.latch s).handler = s.handler := by
  induction batch generalizing s with
  | nil => exact ⟨rfl, rfl⟩
  | cons e batch ih => exact ih

/-- The one handler that is installed is that of the first channel. -/
def EpwmCap.FirstHandled (s : EpwmCap) : Prop :=
  s.handler 0 = some 0 ∧ s.handler 1 = none ∧ s.handler 2 = none

theorem nuEpwmcapIsr_handler (param : Fin 6) : (s.nuEpwmcapIsr param).handler = s.handler := by
  unfold EpwmCap.nuEpwmcapIsr
  split <;> rfl

theorem irq_unhandled {line : Fin 3} (unhandled : s.handler line = none) : s.irq line = s := by
  rw [EpwmCap.irq, unhandled]
  exact ite_self s

theorem irq_handler (line : Fin 3) : (s.irq line).handler = s.handler := by
  unfold EpwmCap.irq
  split
  · split
    · exact nuEpwmcapIsr_handler _
    · rfl
  · rfl

theorem serve_eq (handled : s.FirstHandled) : s.serve =
    if s.unmasked 0 = true ∧ s.regs.capif &&& s.regs.capien &&& EpwmCap.irqMask 0 ≠ 0 then
      s.nuEpwmcapIsr 0 else s := by
  have lines : s.serve = ((s.irq 0).irq 1).irq 2 := rfl
  have second : (s.irq 0).irq 1 = s.irq 0 := irq_unhandled (by rw [irq_handler, handled.2.1])
  have third : (s.irq 0).irq 2 = s.irq 0 := irq_unhandled (by rw [irq_handler, handled.2.2])
  rw [lines, second, third, EpwmCap.irq, handled.1]

theorem rtHwInputcaptureIsr_delivered (cap : NuEpwmcap) (level : Bool) :
    (rtHwInputcaptureIsr cap level).delivered = cap.delivered ∨
      ∃ record, (rtHwInputcaptureIsr cap level).delivered = cap.delivered ++ [record] := by
  unfold rtHwInputcaptureIsr nuEpwmcapGetPulsewidth
  split
  next width after got =>
    refine .inr ⟨(width, level), ?_⟩
    split at got
    · cases got
      rfl
    · split at got
      · cases got
        rfl
      · cases got
  next => exact .inl rfl

theorem calPulseWidth_delivered (channel : Fin 6) (regs : CaptureRegs) (cap : NuEpwmcap) :
    (calPulseWidth channel regs cap).2.2.delivered = cap.delivered := by
  unfold calPulseWidth
  dsimp only
  split_ifs <;> rfl

theorem nuEpwmcapIsr_caps :
    (∀ channel, channel ≠ 0 → (s.nuEpwmcapIsr 0).caps channel = s.caps channel) ∧
    (((s.nuEpwmcapIsr 0).caps 0).delivered = (s.caps 0).delivered ∨
      ∃ record, ((s.nuEpwmcapIsr 0).caps 0).delivered = (s.caps 0).delivered ++ [record]) := by
  unfold EpwmCap.nuEpwmcapIsr
  split
  · have kept := calPulseWidth_delivered 0 s.regs (s.caps 0)
    generalize calPulseWidth 0 s.regs (s.caps 0) = result at kept ⊢
    obtain ⟨ok, regs, cap⟩ := result
    dsimp only at kept ⊢
    refine ⟨fun channel other => Function.update_of_ne other .., ?_⟩
    rw [Function.update_self, ← kept]
    cases ok
    · exact .inl rfl
    · exact rtHwInputcaptureIsr_delivered cap cap.inputDataLevel
  · exact ⟨fun _ _ => rfl, .inl rfl⟩

theorem serve_caps (handled : s.FirstHandled) :
    (∀ channel, channel ≠ 0 → s.serve.caps channel = s.caps channel) ∧
      ((s.serve.caps 0).delivered = (s.caps 0).delivered ∨
        ∃ record, (s.serve.caps 0).delivered = (s.caps 0).delivered ++ [record]) := by
  rw [serve_eq handled]
  split
  · exact nuEpwmcapIsr_caps
  · exact ⟨fun _ _ => rfl, .inl rfl⟩

def NuEpwmcap.counted (cap : NuEpwmcap) (e : LatchEvent) : NuEpwmcap :=
  match e.edge with
  | .rising => { cap with currentRisingCnt := e.width }
  | .falling => { cap with currentFallingCnt := e.width }

theorem epwmGetWrapAroundFlag_first (wrapped : Bool) :
    (epwmGetWrapAroundFlag (if wrapped then 1 else 0) 0 ≠ 0) = (wrapped = true) := by
  cases wrapped <;> exact propext (by decide)

theorem epwmGetCaptureIntFlag_first (edge : CaptureEdge) :
    epwmGetCaptureIntFlag edge.flag 0 = if edge = .rising then 1 else 2 := by
  cases edge <;> decide

theorem epwmClear_first {regs : CaptureRegs} {edge : CaptureEdge} {wrapped : Bool}
    (capif : regs.capif = edge.flag) (status : regs.status = if wrapped then 1 else 0) :
    epwmClearCaptureIntFlag (if wrapped then epwmClearWrapAroundFlag regs 0 else regs) 0 edge.flag =
      { regs with capif := 0, status := 0 } := by
  have flag : regs.capif &&& ~~~(edge.flag <<< (0 : Fin 6).val) = 0 := by
    rw [capif]
    cases edge <;> decide
  unfold epwmClearCaptureIntFlag epwmClearWrapAroundFlag
  cases wrapped with
  | false =>
    have none : regs.status = 0 := status
    rw [if_neg Bool.false_ne_true, flag, ← none]
  | true =>
    have wrap : regs.status &&& ~~~(epwmStatusCntmaxf0Msk <<< (0 : Fin 6).val) = 0 := by
      rw [status]
      decide
    rw [if_pos rfl]
    dsimp only
    rw [flag, wrap]

theorem calPulseWidth_single {regs : CaptureRegs} {cap : NuEpwmcap} {e : LatchEvent}
    (counts : cap.currentRisingCnt = 0 ∧ cap.currentFallingCnt = 0)
    (capif : regs.capif = e.edge.flag) (status : regs.status = if e.wrapped then 1 else 0)
    (rising : e.edge = .rising → regs.rcapdat 0 = e.data)
    (falling : e.edge = .falling → regs.fcapdat 0 = e.data) :
    calPulseWidth 0 regs cap = (true, { regs with capif := 0, status := 0 }, cap.counted e) := by
  have wrap : (epwmGetWrapAroundFlag regs.status 0 ≠ 0) = (e.wrapped = true) :=
    status ▸ epwmGetWrapAroundFlag_first e.wrapped
  have flag : epwmGetCaptureIntFlag regs.capif 0 = if e.edge = .rising then 1 else 2 :=
    capif ▸ epwmGetCaptureIntFlag_first e.edge
  have cleared := epwmClear_first capif status
  have capif' : (if e.wrapped then epwmClearWrapAroundFlag regs 0 else regs).capif = regs.capif := by
    split <;> rfl
  have rcapdat' : (if e.wrapped then epwmClearWrapAroundFlag regs 0 else regs).rcapdat =
      regs.rcapdat := by
    split <;> rfl
  have fcapdat' : (if e.wrapped then epwmClearWrapAroundFlag regs 0 else regs).fcapdat =
      regs.fcapdat := by
    split <;> rfl
  unfold calPulseWidth NuEpwmcap.counted LatchEvent.width
  simp only [wrap, capif', rcapdat', fcapdat', flag, counts.1, counts.2]
  cases edge : e.edge with
  | rising =>
    rw [edge] at cleared
    rw [if_pos (if_pos rfl), rising edge]
    exact congrArg (fun r => (true, r, _)) cleared
  | falling =>
    have other : ¬CaptureEdge.falling = .rising := by decide
    rw [edge] at cleared
    rw [if_neg other, if_neg (by decide), if_pos rfl, falling edge]
    exact congrArg (fun r => (true, r, _)) cleared

theorem rtHwInputcaptureIsr_counted {cap : NuEpwmcap} {e : LatchEvent} (level : Bool)
    (counts : cap.currentRisingCnt = 0 ∧ cap.currentFallingCnt = 0) :
    rtHwInputcaptureIsr (cap.counted e) level = if e.width = 0 then cap else
      { cap with
        inputDataLevel := decide (e.edge = .rising)
        delivered := cap.delivered ++ [(e.width, level)] } := by
  obtain ⟨risingCnt, fallingCnt, before, delivered⟩ := cap
  obtain ⟨rfl, rfl⟩ : risingCnt = 0 ∧ fallingCnt = 0 := counts
  unfold rtHwInputcaptureIsr nuEpwmcapGetPulsewidth NuEpwmcap.counted
  generalize e.width = width
  have zero : ¬(0 : U32) ≠ 0 := fun some => some rfl
  cases e.edge with
  | rising =>
    dsimp only
    rw [if_neg zero]
    by_cases none : width = 0
    · rw [if_neg (not_not.mpr none), if_pos none, none]
    · rw [if_pos none, if_neg none]
      rfl
  | falling =>
    dsimp only
    by_cases none : width = 0
    · rw [if_neg (not_not.mpr none), if_neg zero, if_pos none, none]
    · rw [if_pos none, if_neg none]
      rfl

end Serve

structure CaptureRun.Ready (opened : List (Fin 6)) (s : CaptureRun) : Prop where
  handled : s.cap.FirstHandled
  latches : ∀ channel : Fin 6,
    s.cap.regs.capctl &&& (1 : U32) <<< channel.val ≠ 0 ↔ channel ∈ opened
  enabled : 0 ∈ opened → s.cap.FirstEnabled
  idle : s.cap.regs.capif = 0
  unwrapped : s.cap.regs.status = 0
  counts : (s.cap.caps 0).currentRisingCnt = 0 ∧ (s.cap.caps 0).currentFallingCnt = 0
  level : (s.cap.caps 0).inputDataLevel =
    decide (s.log.getLast?.map LatchEvent.edge = some .rising)
  delivered : ∀ channel, (s.cap.caps channel).delivered =
    (s.log.filter (·.channel = channel)).map LatchEvent.record

section Steps

variable {opened : List (Fin 6)} {s : CaptureRun}

theorem start_ready : (CaptureRun.start opened).Ready opened := by
  obtain ⟨caps, handler, capif, status⟩ := openAll_frame opened .rtHwEpwmcapInit
  refine ⟨?_, fun channel => ?_, fun first => ?_, ?_, ?_, ?_, ?_, fun channel => ?_⟩
  · rw [EpwmCap.FirstHandled, CaptureRun.start, handler]
    decide
  · rw [CaptureRun.start, openAll_capctl]
    have none : ¬EpwmCap.rtHwEpwmcapInit.regs.capctl &&& (1 : U32) <<< channel.val ≠ 0 := by
      revert channel
      decide
    exact or_iff_right none
  · exact openAll_firstEnabled opened _ (.inl first)
  · rw [CaptureRun.start, capif]
    rfl
  · rw [CaptureRun.start, status]
    rfl
  · rw [CaptureRun.start, caps]
    decide
  · rw [CaptureRun.start, caps]
    rfl
  · have none : (EpwmCap.rtHwEpwmcapInit.caps channel).delivered = [] := by
      revert channel
      decide
    rw [CaptureRun.start, caps, none]
    rfl

theorem ready_delivers (ready : s.Ready opened) : s.Delivers := by
  refine ⟨fun channel => ?_, ready.delivered⟩
  rw [ready.idle]
  revert channel
  decide

theorem serve_latch (ready : s.Ready opened) {e : LatchEvent} (first : e.channel = 0)
    (isOpen : 0 ∈ opened) : (s.cap.latch e).serve = { s.cap with
      regs := { s.cap.regs.latch e with capif := 0, status := 0 }
      caps := Function.update s.cap.caps 0 (if e.width = 0 then s.cap.caps 0 else
        { s.cap.caps 0 with
          inputDataLevel := decide (e.edge = .rising)
          delivered := (s.cap.caps 0).delivered ++ [(e.width, (s.cap.caps 0).inputDataLevel)] }) } := by
  obtain ⟨enabled, unmasked⟩ := ready.enabled isOpen
  have latches : s.cap.regs.capctl &&& (1 : U32) <<< e.channel.val ≠ 0 :=
    (ready.latches e.channel).mpr (first ▸ isOpen)
  have capif : (s.cap.regs.latch e).capif = e.edge.flag := by
    rw [CaptureRegs.latch, if_pos latches, ready.idle, first]
    cases e.edge <;> rfl
  have status : (s.cap.regs.latch e).status = if e.wrapped then 1 else 0 := by
    rw [CaptureRegs.latch, if_pos latches, ready.unwrapped, first]
    cases e.wrapped <;> rfl
  have capien : (s.cap.regs.latch e).capien = s.cap.regs.capien := by
    rw [CaptureRegs.latch, if_pos latches]
  have rising (edge : e.edge = .rising) : (s.cap.regs.latch e).rcapdat 0 = e.data := by
    rw [CaptureRegs.latch, if_pos latches, first]
    exact (congrFun (if_pos edge) 0).trans (Function.update_self ..)
  have falling (edge : e.edge = .falling) : (s.cap.regs.latch e).fcapdat 0 = e.data := by
    rw [CaptureRegs.latch, if_pos latches, first]
    exact (congrFun (if_pos edge) 0).trans (Function.update_self ..)
  have asserted : (s.cap.regs.latch e).capif &&& (s.cap.regs.latch e).capien &&&
      EpwmCap.irqMask 0 ≠ 0 := by
    rw [capif, capien, BitVec.and_comm e.edge.flag, enabled]
    cases e.edge <;> decide
  have flagged : epwmGetCaptureIntFlag (s.cap.regs.latch e).capif 0 ≠ 0 := by
    rw [capif]
    cases e.edge <;> decide
  have level : ((s.cap.caps 0).counted e).inputDataLevel = (s.cap.caps 0).inputDataLevel := by
    unfold NuEpwmcap.counted
    cases e.edge <;> rfl
  have handled : (s.cap.latch e).FirstHandled := ready.handled
  rw [serve_eq handled, if_pos ⟨unmasked, asserted⟩, EpwmCap.nuEpwmcapIsr, EpwmCap.latch]
  dsimp only
  rw [if_pos flagged, calPulseWidth_single ready.counts capif status rising falling]
  dsimp only
  rw [if_pos rfl, level, rtHwInputcaptureIsr_counted _ ready.counts]

theorem step_cap (ready : s.Ready opened) (batch : List LatchEvent) :
    (s.step opened batch).cap =
      ((batch.filter (·.channel ∈ opened)).foldl EpwmCap.latch s.cap).serve := by
  rw [CaptureRun.step, foldl_latch_filter ready.latches]

theorem step_none (ready : s.Ready opened) {batch : List LatchEvent}
    (none : batch.filter (·.channel ∈ opened) = []) : s.step opened batch = s := by
  have idle : 0 &&& s.cap.regs.capien &&& EpwmCap.irqMask 0 = 0 :=
    (congrArg (· &&& EpwmCap.irqMask 0) BitVec.zero_and).trans BitVec.zero_and
  have cap : (s.step opened batch).cap = s.cap := by
    rw [step_cap ready, none, List.foldl_nil, serve_eq ready.handled, ready.idle, idle,
      if_neg fun asserted => asserted.2 rfl]
  have log : (s.step opened batch).log = s.log := by
    rw [CaptureRun.step, none, List.append_nil]
  exact CaptureRun.ext cap log

theorem step_ready (ready : s.Ready opened) {batch : List LatchEvent}
    (single : s.Single opened batch) : (s.step opened batch).Ready opened := by
  rcases single with none | ⟨e, one, first, some, alternates⟩
  · rw [step_none ready none]
    exact ready
  · have member : e ∈ batch.filter (·.channel ∈ opened) := one ▸ List.mem_singleton_self e
    have isOpen : 0 ∈ opened := first ▸ of_decide_eq_true (List.mem_filter.mp member).2
    have cap : (s.step opened batch).cap = (s.cap.latch e).serve := by
      rw [step_cap ready, one]
      rfl
    have log : (s.step opened batch).log = s.log ++ [e] := by
      rw [CaptureRun.step, one]
    have last : (s.log ++ [e]).getLast? = Option.some e := List.getLast?_concat
    rw [serve_latch ready first isOpen, if_neg some] at cap
    have capctl : (s.step opened batch).cap.regs.capctl = s.cap.regs.capctl :=
      (congrArg (fun t => t.regs.capctl) cap).trans (latch_capctl e)
    have capien : (s.step opened batch).cap.regs.capien = s.cap.regs.capien :=
      (congrArg (fun t => t.regs.capien) cap).trans (latch_capien e)
    refine ⟨?_, fun channel => ?_, fun _ => ⟨fun edge => ?_, ?_⟩, ?_, ?_, ?_, ?_, fun channel => ?_⟩
    · rw [cap]
      exact ready.handled
    · rw [capctl]
      exact ready.latches channel
    · rw [capien]
      exact (ready.enabled isOpen).1 edge
    · rw [cap]
      exact (ready.enabled isOpen).2
    · rw [cap]
    · rw [cap]
    · rw [cap]
      dsimp only
      rw [Function.update_self]
      exact ready.counts
    · rw [cap, log, last]
      dsimp only
      rw [Function.update_self]
      simp only [Option.map_some, Option.some.injEq]
    · rw [cap, log, List.filter_append, List.map_append, ← ready.delivered]
      dsimp only
      by_cases here : channel = 0
      · rw [here, Function.update_self, List.filter_cons_of_pos (by simpa using first), List.filter_nil,
          List.map_singleton, LatchEvent.record, ready.level, decide_eq_decide.mpr alternates]
      · have other : ¬e.channel = channel := fun same => here (same.symm.trans first)
        rw [Function.update_of_ne here, List.filter_cons_of_neg (by simpa using other), List.filter_nil,
          List.map_nil, List.append_nil]

theorem step_single (ready : s.Ready opened) {batch : List LatchEvent}
    (delivers : (s.step opened batch).Delivers) : s.Single opened batch := by
  have records (channel : Fin 6) : ((s.step opened batch).cap.caps channel).delivered =
      (s.cap.caps channel).delivered ++
        ((batch.filter (·.channel ∈ opened)).filter (·.channel = channel)).map LatchEvent.record := by
    rw [delivers.2 channel, ready.delivered channel, CaptureRun.step, List.filter_append,
      List.map_append]
  have cap := step_cap ready batch
  have isOpen : ∀ e ∈ batch.filter (·.channel ∈ opened), e.channel ∈ opened :=
    fun e member => of_decide_eq_true (List.mem_filter.mp member).2
  unfold CaptureRun.Single
  generalize batch.filter (·.channel ∈ opened) = latched at records cap isOpen ⊢
  obtain ⟨caps, handler⟩ := @foldl_latch_frame s.cap latched
  have handled : (latched.foldl EpwmCap.latch s.cap).FirstHandled := by
    rw [EpwmCap.FirstHandled, handler]
    exact ready.handled
  obtain ⟨others, once⟩ := serve_caps handled
  rw [← cap, caps] at others once
  -- a latch on another channel would need a record that is not there
  have first : ∀ e ∈ latched, e.channel = 0 := by
    intro e member
    by_contra here
    have none := records e.channel
    rw [others e.channel here, List.self_eq_append_right, List.map_eq_nil_iff] at none
    have missing : e ∈ latched.filter (·.channel = e.channel) :=
      List.mem_filter.mpr ⟨member, decide_eq_true rfl⟩
    exact List.not_mem_nil (none ▸ missing)
  have own : latched.filter (·.channel = 0) = latched :=
    List.filter_eq_self.mpr fun e member => decide_eq_true (first e member)
  have here := records 0
  rw [own] at here
  rcases once with same | ⟨record, more⟩
  · rw [same, List.self_eq_append_right, List.map_eq_nil_iff] at here
    exact .inl here
  · rw [more, List.append_cancel_left_eq] at here
    obtain ⟨e, rest, rfl, -, none⟩ := List.map_eq_cons_iff.mp here.symm
    obtain rfl := List.map_eq_nil_iff.mp none
    have firstOf := first e List.mem_cons_self
    refine .inr ⟨e, rfl, firstOf, ?_⟩
    rw [List.foldl_cons, List.foldl_nil,
      serve_latch ready firstOf (firstOf ▸ isOpen e List.mem_cons_self)] at cap
    have device := congrArg (fun t => (t.caps 0).delivered) cap
    dsimp only at device
    rw [Function.update_self, records 0, own, List.map_singleton] at device
    by_cases none : e.width = 0
    · rw [if_pos none, List.append_right_eq_self] at device
      exact absurd device (List.cons_ne_nil _ _)
    · rw [if_neg none, List.append_cancel_left_eq, List.cons.injEq, LatchEvent.record, Prod.mk.injEq,
        ready.level, decide_eq_decide] at device
      exact ⟨none, device.1.2⟩

end Steps

/-- Of the latches of a run, exactly those single ones reach their devices as they were. -/
theorem epwm_capture_runs_iff (opened : List (Fin 6)) (batches : List (List LatchEvent)) :
    (∀ pre, pre <+: batches →
        (pre.foldl (CaptureRun.step opened) (CaptureRun.start opened)).Delivers) ↔
      Runs.StepsMeet (CaptureRun.step opened) (CaptureRun.Single opened) (CaptureRun.start opened)
        batches :=
  Runs.prefixes_hold_iff (CaptureRun.Ready opened) CaptureRun.Delivers (fun _ => ready_delivers)
    (fun _ _ ready => ⟨step_single ready, fun single => ready_delivers (step_ready ready single)⟩)
    (fun _ _ ready single => step_ready ready single) start_ready batches

/-- A latch on the second channel, whose interrupt is that of the first: its flag stands and nothing is
delivered. -/
theorem secondChannel_lost :
    let after := [[⟨1, .rising, 100, false⟩]].foldl (CaptureRun.step [0, 1]) (CaptureRun.start [0, 1])
    epwmGetCaptureIntFlag after.cap.regs.capif 1 = 1 ∧ (after.cap.caps 1).delivered = [] ∧
      ¬∀ pre, pre <+: [[⟨1, .rising, 100, false⟩]] →
        (pre.foldl (CaptureRun.step [0, 1]) (CaptureRun.start [0, 1])).Delivers := by
  refine ⟨by decide, by decide, fun all => ?_⟩
  have record := (all _ List.prefix_rfl).2 1
  exact absurd record (by decide)

end NuMakerMA35
