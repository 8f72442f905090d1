import Mathlib.Data.List.Forall2
import NuMakerMA35.Qspi

namespace NuMakerMA35

inductive QspiSlot where
  | level (high : Bool)
  | drives (lines : Nat) (bytes : List (BitVec 8))
  | dummy (lines : Nat)
  | reads (lines width : Nat)
  deriving DecidableEq

namespace QspiSlot

/-- Nothing is asked of the bytes of a dummy, nor of what one line puts out during a read; two lines
and four are left to the slave then. -/
def ShownBy : QspiSlot → QspiEvent → Prop
  | .level high, e => e = .select high
  | .drives lines bytes, e => e = .word (some lines) bytes.length (some bytes)
  | .dummy lines, e => ∃ bytes, e = .word (some lines) 1 (some bytes)
  | .reads lines width, e =>
    ∃ driven, e = .word (some lines) width driven ∧ (lines ≠ 1 → driven = none)

def width : QspiSlot → Option Nat
  | .level _ => none
  | .drives _ bytes => some bytes.length
  | .dummy _ => some 1
  | .reads _ width => some width

end QspiSlot

def bigEndian (n : Nat) (val : U32) : List (BitVec 8) :=
  (List.range n).reverse.map fun k => val.extractLsb' (8 * k) 8

def LineCount (n : Nat) : Prop := n = 1 ∨ n = 2 ∨ n = 4

namespace QspiField

variable (field : QspiField)

def present : Prop := field.size.toNat ≠ 0

instance : Decidable field.present := inferInstanceAs (Decidable (_ ≠ _))

def slots : List QspiSlot :=
  (bigEndian (field.size.toNat / 8) field.content).map fun b => .drives field.qspiLines.toNat [b]

structure Valid : Prop where
  whole : field.size.toNat % 8 = 0
  fits : field.size.toNat ≤ 32
  lineCount : field.present → LineCount field.qspiLines.toNat

end QspiField

namespace QspiMessage

variable (msg : QspiMessage) (bus : QspiBus)

/-- Dummy cycles go over the lines of the part before them. -/
def dummyLines : Nat :=
  if msg.alternateBytes.present then msg.alternateBytes.qspiLines.toNat
  else if msg.address.present then msg.address.qspiLines.toNat
  else if msg.instruction ≠ 0 then msg.instructionLines.toNat
  else 1

def instructionSlots : List QspiSlot :=
  if msg.instruction ≠ 0 then [.drives msg.instructionLines.toNat [msg.instruction]] else []

def dummySlots : List QspiSlot :=
  List.replicate (msg.dummyCycles.toNat * msg.dummyLines / 8) (.dummy msg.dummyLines)

/-- The data in words; where the length is no multiple of a word, the last one is shorter. -/
def dataSlots : List QspiSlot :=
  (List.range ((msg.length.toNat + bus.bytesPerWord - 1) / bus.bytesPerWord)).map fun i =>
    let width := min bus.bytesPerWord (msg.length.toNat - i * bus.bytesPerWord)
    match msg.sendBuf with
    | some tx =>
      .drives msg.qspiDataLines.toNat (bus.wireOrder (Words.slice tx.byte (i * bus.bytesPerWord) width))
    | none => .reads msg.qspiDataLines.toNat width

def takeSlots : List QspiSlot := if msg.csTake ∧ ¬bus.noCs then [.level bus.csHigh] else []

def releaseSlots : List QspiSlot := if msg.csRelease ∧ ¬bus.noCs then [.level !bus.csHigh] else []

def frame : List QspiSlot :=
  msg.takeSlots bus ++ (msg.instructionSlots ++ msg.address.slots ++ msg.alternateBytes.slots ++
    msg.dummySlots ++ msg.dataSlots bus) ++ msg.releaseSlots bus

structure Valid : Prop where
  instruction : msg.instruction ≠ 0 → LineCount msg.instructionLines.toNat
  address : msg.address.Valid
  alternate : msg.alternateBytes.Valid
  dummy : msg.dummyCycles.toNat * msg.dummyLines % 8 = 0
  dataLines : msg.length.toNat ≠ 0 → LineCount msg.qspiDataLines.toNat
  buffer : msg.length.toNat ≠ 0 → msg.sendBuf.isSome ∨ msg.recvBuf.isSome

def Framed (mode : QspiMode) : Prop :=
  ∃ answer events, nuQspiBusXfer bus msg mode [] = (.ok answer, events) ∧
    List.Forall₂ QspiSlot.ShownBy (msg.frame bus) events

end QspiMessage

namespace QspiMode

variable {mode : QspiMode} {qspiLines k : Nat}

/-- Lines go straight from one count to another only by way of a single one. -/
def Settles (a b : Option Nat) : Prop := b = some 1 ∨ a = some 1 ∨ a = b

theorem config_lines_iff (tx : Bool) (lineCount : LineCount qspiLines) :
    (mode.config tx qspiLines).lines = some qspiLines ↔ Settles mode.lines (some qspiLines) := by
  obtain ⟨dual, quad, output⟩ := mode
  rcases lineCount with rfl | rfl | rfl <;> cases dual <;> cases quad <;>
    simp [config, lines, Settles]

theorem config_lines_eq {tx : Bool} (lineCount : LineCount qspiLines)
    (settled : (mode.config tx qspiLines).lines = some k) : k = qspiLines := by
  obtain ⟨dual, quad, output⟩ := mode
  rcases lineCount with rfl | rfl | rfl <;> cases dual <;> cases quad <;>
    simp_all [config, lines]

theorem config_output (tx : Bool) (lineCount : LineCount qspiLines) :
    (mode.config tx qspiLines).output = tx ∨ qspiLines = 1 := by
  rcases lineCount with rfl | rfl | rfl <;> simp [config]

end QspiMode

section Lists

variable {α β : Type} {R : α → β → Prop} {as as' : List α} {bs bs' : List β}

theorem forall₂_append_iff (same : as.length = bs.length) :
    List.Forall₂ R (as ++ as') (bs ++ bs') ↔ List.Forall₂ R as bs ∧ List.Forall₂ R as' bs' := by
  induction as generalizing bs with
  | nil =>
    rw [List.eq_nil_of_length_eq_zero same.symm]
    simp
  | cons a as ih =>
    cases bs with
    | nil => cases same
    | cons b bs =>
      simp only [List.cons_append, List.forall₂_cons, ih (Nat.succ.inj same), and_assoc]

theorem exists_of_forall₂ (all : List.Forall₂ R as bs) {a : α} (inside : a ∈ as) :
    ∃ b ∈ bs, R a b := by
  induction all with
  | nil => cases inside
  | @cons c d cs ds here rest ih =>
    rcases List.mem_cons.mp inside with rfl | later
    · exact ⟨d, List.mem_cons_self, here⟩
    · obtain ⟨b, member, related⟩ := ih later
      exact ⟨b, List.mem_cons_of_mem d member, related⟩

theorem map_eq_map_range (f : α → β) (as : List α) (d : α) :
    as.map f = (List.range as.length).map fun i => f (as.getD i d) := by
  apply List.ext_getElem
  · simp
  · intro i h h'
    have inside : i < as.length := by simpa using h
    simp [inside]

end Lists

namespace QspiTransfer

variable {bus : QspiBus} {t : QspiTransfer} {ts ts' : List QspiTransfer} {mode : QspiMode}
  {slots : List QspiSlot}

def runAll (bus : QspiBus) : List QspiTransfer → QspiMode → Qspi QspiMode
  | [], mode => pure mode
  | t :: ts, mode => do
    let mode ← t.run bus mode
    runAll bus ts mode

def modeAfter (ts : List QspiTransfer) (mode : QspiMode) : QspiMode :=
  ts.foldl (fun mode t => mode.config t.tx.isSome t.qspiLines) mode

def events (bus : QspiBus) : List QspiTransfer → QspiMode → List QspiEvent
  | [], _ => []
  | t :: ts, mode =>
    t.words bus (mode.config t.tx.isSome t.qspiLines) ++
      events bus ts (mode.config t.tx.isSome t.qspiLines)

@[simp] theorem words_length : (t.words bus mode).length = t.count bus := by simp [words]

theorem runAll_append (mode : QspiMode) :
    runAll bus (ts ++ ts') mode = runAll bus ts mode >>= fun mode => runAll bus ts' mode := by
  induction ts generalizing mode with
  | nil => rfl
  | cons t ts ih => simp only [List.cons_append, runAll, bind_assoc, ih]

theorem events_append (mode : QspiMode) :
    events bus (ts ++ ts') mode = events bus ts mode ++ events bus ts' (modeAfter ts mode) := by
  induction ts generalizing mode with
  | nil => rfl
  | cons t ts ih => simp only [List.cons_append, events, ih, List.append_assoc, modeAfter, List.foldl]

theorem events_length (mode : QspiMode) :
    (events bus ts mode).length = (ts.map fun t => t.count bus).sum := by
  induction ts generalizing mode with
  | nil => rfl
  | cons t ts ih => simp [events, ih]

structure Ready (t : QspiTransfer) : Prop where
  positive : 0 < t.bytesPerWord
  buffer : t.tx.isSome ∨ t.rx.isSome

theorem runAll_granted (ready : ∀ t ∈ ts, t.Ready) (granted : ∀ t ∈ ts, t.Granted bus)
    (mode : QspiMode) (log : List QspiEvent) :
    runAll bus ts mode log = (.ok (modeAfter ts mode), log ++ events bus ts mode) := by
  induction ts generalizing mode log with
  | nil => simp [runAll, events, modeAfter]
  | cons t ts ih =>
    have here := run_granted (ready t List.mem_cons_self).positive (granted t List.mem_cons_self)
      mode log
    rw [runAll, Logged.bind_ok here, ih (fun u inside => ready u (List.mem_cons_of_mem t inside))
      (fun u inside => granted u (List.mem_cons_of_mem t inside)), events, List.append_assoc]
    rfl

theorem runAll_ok (ready : ∀ t ∈ ts, t.Ready) {mode after : QspiMode} {log log' : List QspiEvent}
    (run : runAll bus ts mode log = (.ok after, log')) : ∀ t ∈ ts, t.Granted bus := by
  induction ts generalizing mode log with
  | nil => simp
  | cons t ts ih =>
    obtain ⟨mid, logMid, first, rest⟩ := Logged.bind_ok_iff.mp run
    have here := run_ok (ready t List.mem_cons_self).buffer first
    intro u inside
    rcases List.mem_cons.mp inside with rfl | later
    · exact here
    · exact ih (fun v member => ready v (List.mem_cons_of_mem t member)) rest u later

/-- Slots a transfer shows if only it finds the lines as configured. -/
structure Aligned (bus : QspiBus) (slots : List QspiSlot) (t : QspiTransfer) : Prop where
  lineCount : LineCount t.qspiLines
  length : slots.length = t.count bus
  shown : ∀ mode : QspiMode, mode.output = t.tx.isSome ∨ t.qspiLines = 1 →
    (List.Forall₂ QspiSlot.ShownBy slots (t.words bus mode) ↔ mode.lines = some t.qspiLines)

theorem aligned_of_slots {n : Nat} {slot : Nat → QspiSlot} (lineCount : LineCount t.qspiLines)
    (count : t.count bus = n) (some : 0 < n)
    (shown : ∀ i < n, ∀ mode : QspiMode, mode.output = t.tx.isSome ∨ t.qspiLines = 1 →
      ((slot i).ShownBy (bus.shift mode (t.source bus i)) ↔ mode.lines = .some t.qspiLines)) :
    Aligned bus ((List.range n).map slot) t := by
  refine ⟨lineCount, by simp [count], ?_⟩
  intro mode directed
  rw [words, count, List.forall₂_map_left_iff, List.forall₂_map_right_iff, List.forall₂_same]
  constructor
  · intro all
    exact (shown 0 some mode directed).mp (all 0 (List.mem_range.mpr some))
  · intro settled i inside
    exact (shown i (List.mem_range.mp inside) mode directed).mpr settled

/-- A whole frame is shown exactly if the lines never switch between two and four directly. -/
theorem forall₂_events_iff {parts : List (List QspiSlot)}
    (aligned : List.Forall₂ (Aligned bus) parts ts) (mode : QspiMode) :
    List.Forall₂ QspiSlot.ShownBy parts.flatten (events bus ts mode) ↔
      List.IsChain QspiMode.Settles (mode.lines :: ts.map fun t => some t.qspiLines) := by
  induction aligned generalizing mode with
  | nil => simp [events]
  | @cons slots t parts ts here rest ih =>
    rw [List.flatten_cons, events, forall₂_append_iff (by rw [here.length, words_length]),
      here.shown _ (QspiMode.config_output _ here.lineCount), ih, List.map_cons,
      List.isChain_cons_cons, QspiMode.config_lines_iff _ here.lineCount]
    apply and_congr_right
    intro settles
    rw [(QspiMode.config_lines_iff t.tx.isSome here.lineCount).mpr settles]

end QspiTransfer

end NuMakerMA35
