import NuMakerMA35.NuWriterBlock

namespace NuMakerMA35

open Words

/-- What a device is registered with: whether it is alone, and what its `init`, `open` and `close`
return. -/
structure RtDeviceOps where
  standalone : Bool
  init : Int
  opens : Int
  closes : Int

structure RtDeviceState where
  activated : Bool
  isOpen : Bool
  refCount : BitVec 8
deriving DecidableEq, Repr

/-- How a run does not get to its end: in an assertion, behind the list that was allocated, in a sum
over more words than there are, in a device's program. -/
inductive ProgramStop
  | assertion
  | listOverrun
  | endless
  | storage
deriving DecidableEq, Repr

namespace RtDeviceOps

def rtEnosys : Int := 6
def rtEbusy : Int := 7

variable (ops : RtDeviceOps)

def countsAsOpen (result : Int) : Bool := decide (result = rtEok) || decide (result = -rtEnosys)

/-- A count that wraps to 0 is caught by an assertion. -/
def rtDeviceOpen (dev : RtDeviceState) : Except ProgramStop (Int × RtDeviceState) :=
  if !dev.activated && decide (ops.init ≠ rtEok) then .ok (ops.init, dev)
  else
    let dev := { dev with activated := true }
    if ops.standalone && dev.isOpen then .ok (-rtEbusy, dev)
    else if countsAsOpen ops.opens then
      let dev := { dev with isOpen := true, refCount := dev.refCount + 1 }
      if dev.refCount = 0 then .error .assertion else .ok (ops.opens, dev)
    else .ok (ops.opens, dev)

/-- The device is, or can be, initialised, is not alone and open already, and its driver counts the
open as one. -/
def TakesOpen (dev : RtDeviceState) : Prop :=
  (dev.activated = true ∨ ops.init = rtEok) ∧ ¬(ops.standalone && dev.isOpen) = true ∧
    countsAsOpen ops.opens = true

def rtDeviceClose (dev : RtDeviceState) : Int × RtDeviceState :=
  if dev.refCount = 0 then (-rtError, dev)
  else
    let dev := { dev with refCount := dev.refCount - 1 }
    if dev.refCount ≠ 0 then (rtEok, dev)
    else (ops.closes, { dev with isOpen := dev.isOpen && !countsAsOpen ops.closes })

end RtDeviceOps

structure PackFile where
  mem : Mem
  base : U32
  len : BitVec 64

namespace PackFile

variable (file : PackFile)

def word (off : Nat) : U32 := read32 file.mem ((file.base.toNat + off) % 2 ^ 32)

/-- The sum over the words from `off` on. Its counter goes up by 4 and never passes a length above
the last multiple of 4. -/
def crc32 (off len : Nat) : Option U32 :=
  if 2 ^ 32 - 4 < len then none
  else
    some ((List.range ((len + 3) / 4)).foldl (fun crc i => crc32Word crc (file.word (off + 4 * i)))
      crcSeed ^^^ 0xFFFFFFFF)

def count : Nat := (file.word 8).toNat

/-- What is checked before anything is allocated; `none` if the sum does not end. -/
def headerOk : Option Bool :=
  if file.word 0 ≠ nvtMarker ∨ file.word 12 ≠ 0xFFFFFFFF then some false
  else (file.crc32 8 ((file.len.toNat + 2 ^ 64 - 8) % 2 ^ 64 % 2 ^ 32)).map fun sum =>
    decide (sum = file.word 4)

def child (at_ : Nat) : PackChild where
  imageLength := read32 file.mem ((at_ + 4) % 2 ^ 32) ++ read32 file.mem at_
  flashAddress := read32 file.mem ((at_ + 12) % 2 ^ 32) ++ read32 file.mem ((at_ + 8) % 2 ^ 32)
  data k := file.mem ((at_ + packChildSize + k) % 2 ^ 32)

def childrenFrom : Nat → Nat → List PackChild
  | 0, _ => []
  | n + 1, at_ =>
    file.child at_ :: childrenFrom n (PackBuf.nextChild at_ (file.child at_).imageLength.toNat)

end PackFile

/-- The device type, and how such a device behaves. The run on an MTD device is followed as far as
there is fuel. -/
inductive PackMedium
  | block (dev : BlkDevice) (start : BlkRun)
  | mtd (dev : MtdNand) (pageBuffer : Bool) (fuel : Nat)
  | other

inductive PackCmd
  | sector (sector : Nat)
  | mtd (cmd : MtdCmd)

namespace PackMedium

def program (children : List PackChild) : PackMedium → Except ProgramStop (Int × List PackCmd)
  | .block dev start =>
    match dev.nuwriterPackProgramBlock children start with
    | (.ok ret, run) => .ok (ret, run.touched.map .sector)
    | (.error _, _) => .error .storage
  | .mtd dev pageBuffer fuel =>
    match dev.nuwriterPackProgramMtd pageBuffer fuel children [] with
    | (.ok ret, log) => .ok (ret, log.map .mtd)
    | (.error _, _) => .error .storage
  | .other => .ok (-1, [])

end PackMedium

structure PackOutcome where
  ret : Int
  dev : RtDeviceState
  cmds : List PackCmd

/-- The device a pack file is programmed to, and whether there is memory for the list. -/
structure PackTarget where
  ops : RtDeviceOps
  medium : PackMedium
  listAllocated : Bool

namespace PackTarget

variable (t : PackTarget)

/-- The label that every exit behind the check of the parameters goes to. -/
def exitProgram (ret : Int) (cmds : List PackCmd) (dev : RtDeviceState) : PackOutcome :=
  ⟨ret, (t.ops.rtDeviceClose dev).2, cmds⟩

def programOpened (file : PackFile) (dev : RtDeviceState) : Except ProgramStop PackOutcome := do
  let (result, dev) ← t.ops.rtDeviceOpen dev
  if result ≠ rtEok then pure (t.exitProgram (-1) [] dev)
  else
    let (ret, cmds) ← t.medium.program
      (file.childrenFrom file.count (file.base.toNat + packHdrSize))
    pure (t.exitProgram ret cmds dev)

def nuwriterPackProgram (file : PackFile) (dev : RtDeviceState) :
    Except ProgramStop PackOutcome :=
  if file.base = 0 ∨ file.len = 0 then .ok ⟨-1, dev, []⟩
  else
    match file.headerOk with
    | none => .error .endless
    | some false => .ok (t.exitProgram (-1) [] dev)
    | some true =>
      if !t.listAllocated then .ok (t.exitProgram (-1) [] dev)
      else if 2 ^ 32 ≤ 4 * file.count then .error .listOverrun
      else t.programOpened file dev

def FailsBefore (file : PackFile) : Prop :=
  file.headerOk = some false ∨ t.listAllocated = false ∨ t.medium = .other

/-- An exit leaves the count of the device as it was, and a failure that is found before gives the
device nothing to do. -/
def CleanExit (file : PackFile) (dev : RtDeviceState) : Except ProgramStop PackOutcome → Prop
  | .ok out => out.dev.refCount = dev.refCount ∧ (t.FailsBefore file → out.cmds = [])
  | .error .listOverrun => False
  | .error _ => True

def ExitsClean (file : PackFile) (dev : RtDeviceState) : Prop :=
  t.CleanExit file dev (t.nuwriterPackProgram file dev)

def Reaches (file : PackFile) : Prop := file.headerOk = some true ∧ t.listAllocated = true

/-- The call is refused for its parameters or never ends, or else its list is long enough and the
device is held by nobody or is opened by this call. -/
def OpensWhatItCloses (file : PackFile) (dev : RtDeviceState) : Prop :=
  (file.base = 0 ∨ file.len = 0) ∨ file.headerOk = none ∨
    (¬(t.Reaches file ∧ 2 ^ 32 ≤ 4 * file.count) ∧
      (dev.refCount = 0 ∨ (t.Reaches file ∧ t.ops.TakesOpen dev)))

end PackTarget

namespace RtDeviceOps

variable {ops : RtDeviceOps} {dev : RtDeviceState}

theorem close_refCount :
    (ops.rtDeviceClose dev).2.refCount = if dev.refCount = 0 then 0 else dev.refCount - 1 := by
  unfold rtDeviceClose
  by_cases none : dev.refCount = 0
  · rw [if_pos none, if_pos none]
    exact none
  · rw [if_neg none, if_neg none]
    dsimp only
    split_ifs <;> rfl

theorem open_taken (takes : ops.TakesOpen dev) :
    ops.rtDeviceOpen dev = .error .assertion ∨
      ∃ dev', ops.rtDeviceOpen dev = .ok (ops.opens, dev') ∧ dev'.refCount = dev.refCount + 1 ∧
        dev'.refCount ≠ 0 := by
  obtain ⟨ready, free, counts⟩ := takes
  have started : ¬((!dev.activated && decide (ops.init ≠ rtEok)) = true) := by
    rcases ready with active | inits
    · simp [active]
    · simp [inits]
  unfold rtDeviceOpen
  rw [if_neg started]
  dsimp only
  rw [if_neg free, if_pos counts]
  by_cases wraps : dev.refCount + 1 = 0
  · exact .inl (if_pos wraps)
  · exact .inr ⟨_, if_neg wraps, rfl, wraps⟩

theorem open_refused (refuses : ¬ops.TakesOpen dev) :
    ∃ result dev', ops.rtDeviceOpen dev = .ok (result, dev') ∧ result ≠ rtEok ∧
      dev'.refCount = dev.refCount := by
  unfold rtDeviceOpen
  by_cases ready : (!dev.activated && decide (ops.init ≠ rtEok)) = true
  · rw [if_pos ready]
    rw [Bool.and_eq_true, decide_eq_true_eq] at ready
    exact ⟨_, _, rfl, ready.2, rfl⟩
  · rw [if_neg ready]
    dsimp only
    by_cases taken : (ops.standalone && dev.isOpen) = true
    · rw [if_pos taken]
      exact ⟨_, _, rfl, by decide, rfl⟩
    · rw [if_neg taken]
      have fails : ¬countsAsOpen ops.opens = true := by
        intro counts
        refine refuses ⟨?_, taken, counts⟩
        rw [Bool.and_eq_true, decide_eq_true_eq, not_and_or, not_not] at ready
        exact ready.imp_left fun active => by simpa using active
      rw [if_neg fails]
      refine ⟨_, _, rfl, ?_, rfl⟩
      intro opens
      rw [opens] at fails
      exact fails rfl

end RtDeviceOps

namespace PackTarget

variable {t : PackTarget} {file : PackFile} {dev : RtDeviceState}

theorem exit_refCount (ret : Int) (cmds : List PackCmd) :
    (t.exitProgram ret cmds dev).dev.refCount = dev.refCount ↔ dev.refCount = 0 := by
  unfold exitProgram
  dsimp only
  rw [RtDeviceOps.close_refCount]
  by_cases none : dev.refCount = 0
  · rw [if_pos none, none]
  · rw [if_neg none]
    refine iff_of_false ?_ none
    intro same
    have := congrArg BitVec.toNat same
    rw [BitVec.toNat_sub] at this
    have := dev.refCount.isLt
    have one : (1 : BitVec 8).toNat = 1 := rfl
    omega

theorem exit_opened {dev' : RtDeviceState} (counted : dev'.refCount = dev.refCount + 1)
    (some_ : dev'.refCount ≠ 0) (ret : Int) (cmds : List PackCmd) :
    (t.exitProgram ret cmds dev').dev.refCount = dev.refCount := by
  unfold exitProgram
  dsimp only
  rw [RtDeviceOps.close_refCount, if_neg some_, counted, BitVec.add_sub_cancel]

theorem program_other {children : List PackChild} {ret : Int} {cmds : List PackCmd}
    (run : PackMedium.other.program children = .ok (ret, cmds)) : cmds = [] := by
  cases run
  rfl

theorem program_stops {medium : PackMedium} {children : List PackChild} {stop : ProgramStop}
    (run : medium.program children = .error stop) : stop = .storage := by
  cases medium with
  | block blk start =>
    rw [PackMedium.program] at run
    split at run
    · cases run
    · cases run
      rfl
  | mtd nand pageBuffer fuel =>
    rw [PackMedium.program] at run
    split at run
    · cases run
    · cases run
      rfl
  | other => cases run

theorem programOpened_clean (reaches : t.Reaches file) :
    t.CleanExit file dev (t.programOpened file dev) ↔
      dev.refCount = 0 ∨ t.ops.TakesOpen dev := by
  by_cases takes : t.ops.TakesOpen dev
  · refine iff_of_true ?_ (.inr takes)
    unfold programOpened
    rcases RtDeviceOps.open_taken takes with stops | ⟨dev', run, counted, some_⟩
    · rw [stops]
      trivial
    · rw [run]
      change t.CleanExit file dev (if t.ops.opens ≠ rtEok then _ else _)
      by_cases refused : t.ops.opens ≠ rtEok
      · rw [if_pos refused]
        exact ⟨exit_opened counted some_ _ _, fun _ => rfl⟩
      · rw [if_neg refused]
        cases program : t.medium.program
            (file.childrenFrom file.count (file.base.toNat + packHdrSize)) with
        | error stop =>
          rw [program_stops program]
          trivial
        | ok result =>
          refine ⟨exit_opened counted some_ _ _, fun fails => ?_⟩
          rcases fails with bad | short | other
          · rw [reaches.1] at bad
            cases bad
          · rw [reaches.2] at short
            cases short
          · rw [other] at program
            exact program_other program
  · obtain ⟨result, dev', run, refused, same⟩ := RtDeviceOps.open_refused takes
    have exits : t.programOpened file dev = .ok (t.exitProgram (-1) [] dev') := by
      unfold programOpened
      rw [run]
      exact if_pos refused
    rw [exits, or_iff_left takes, ← same]
    refine ⟨fun clean => (exit_refCount (-1) []).mp (clean.1.trans same.symm), fun none => ?_⟩
    exact ⟨((exit_refCount (-1) []).mpr none).trans same, fun _ => rfl⟩

/-- The exits of the program are clean exactly if it opens what it closes. -/
theorem exits_clean_iff (t : PackTarget) (file : PackFile) (dev : RtDeviceState) :
    t.ExitsClean file dev ↔ t.OpensWhatItCloses file dev := by
  have closes : t.CleanExit file dev (.ok (t.exitProgram (-1) [] dev)) ↔ dev.refCount = 0 :=
    ⟨fun clean => (exit_refCount (-1) []).mp clean.1,
      fun none => ⟨(exit_refCount (-1) []).mpr none, fun _ => rfl⟩⟩
  unfold ExitsClean OpensWhatItCloses nuwriterPackProgram
  by_cases wrong : file.base = 0 ∨ file.len = 0
  · rw [if_pos wrong]
    exact iff_of_true ⟨rfl, fun _ => rfl⟩ (.inl wrong)
  · rw [if_neg wrong, or_iff_right wrong]
    cases header : file.headerOk with
    | none => exact iff_of_true trivial (.inl rfl)
    | some good =>
      rw [or_iff_right (by simp)]
      cases good with
      | false =>
        have stays : ¬t.Reaches file := fun reaches => by
          rw [Reaches, header] at reaches
          cases reaches.1
        dsimp only
        rw [closes, and_iff_right fun both => stays both.1, or_iff_left fun both => stays both.1]
      | true =>
        dsimp only
        cases memory : t.listAllocated with
        | false =>
          have stays : ¬t.Reaches file := fun reaches => by
            rw [Reaches, memory] at reaches
            cases reaches.2
          rw [and_iff_right fun both => stays both.1, or_iff_left fun both => stays both.1]
          exact closes
        | true =>
          have reaches : t.Reaches file := ⟨header, memory⟩
          rw [if_neg (by decide)]
          by_cases many : 2 ^ 32 ≤ 4 * file.count
          · rw [if_pos many]
            exact iff_of_false id fun both => both.1 ⟨reaches, many⟩
          · rw [if_neg many, programOpened_clean reaches,
              and_iff_right fun both => many both.2, and_iff_right reaches]

/-- A pack file of zeros has no marker. -/
theorem held_device_released :
    ¬∀ (t : PackTarget) (file : PackFile) (dev : RtDeviceState), t.ExitsClean file dev := by
  intro all
  have clean := all ⟨⟨false, 0, 0, 0⟩, .other, true⟩ ⟨fun _ => 0, 16, 64⟩ ⟨true, true, 1⟩
  have run : nuwriterPackProgram ⟨⟨false, 0, 0, 0⟩, .other, true⟩ ⟨fun _ => 0, 16, 64⟩
      ⟨true, true, 1⟩ = .ok ⟨-1, ⟨true, false, 0⟩, []⟩ := by rfl
  rw [ExitsClean, run] at clean
  exact absurd clean.1 (by decide)

end PackTarget

end NuMakerMA35
