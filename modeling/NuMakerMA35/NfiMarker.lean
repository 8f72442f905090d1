import NuMakerMA35.NfiIsolation

namespace NuMakerMA35

/-- `nfi_nand_read_oob_hwecc`: what it leaves in `oob_poi` for the spare bytes of a page. -/
def nfiNandReadOobHwecc (spare : Nat → Byte) : Nat → Byte :=
  if spare 2 ≠ 0 ∧ spare 3 ≠ 0 then fun _ => 0xff else spare

/-- `check_short_pattern` with the pattern of `nand_create_badblock_pattern`, one byte at
`badblockpos`; true where the pattern is not found. -/
def checkShortPattern (buf : Nat → Byte) : Bool := buf 0 ≠ 0xff

section Scan

variable (g : NfiGeometry)

def scanBlockFast (spare : Nat → Nat → Byte) : Nat → Nat → Bool
  | 0, _ => false
  | numpages + 1, offs =>
    if checkShortPattern (nfiNandReadOobHwecc (spare (offs / g.writesize))) then true
    else scanBlockFast spare numpages (offs + g.writesize)

def createBbt (spare : Nat → Nat → Byte) (block : Nat) : Bool :=
  let numpages := if g.scan2ndpage then 2 else 1
  let first := if g.scanlastpage then g.erasesize - g.writesize * numpages else 0
  block < g.blocks && scanBlockFast g spare numpages (block * g.erasesize + first)

end Scan

/-- Erase-all and forced erase are sequences of erasures. -/
def NfiOp.isCommand : NfiOp → Bool
  | .eraseAll | .eraseForce => true
  | _ => false

/-- Whether an operation calls `nand_block_checkbad`, which makes the table at its first call. -/
def NfiPartition.checksBad {g : NfiGeometry} (dev : NfiPartition g) (chip : NfiChip) (f : NfiFlash) :
    NfiOp → Bool
  | .readPage page dataLen =>
    !dev.pageBeyond page && dataLen ≠ 0 && dev.pageOffset page < g.size
  | .writePage page data => !dev.pageBeyond page && data ≠ [] && dev.pageOffset page < g.size
  | .movePage srcPage dstPage =>
    !dev.pageBeyond srcPage && !dev.pageBeyond dstPage && dev.pageOffset srcPage < g.size
  | .eraseBlock block => !dev.blockBeyond block && !chip.wp f.touched && !chip.scrub f.touched
  | .checkBlock block | .markBadblock block => !dev.blockBeyond block
  | .eraseAll | .eraseForce => true

/-- The stack between two operations: `scanned` is `NAND_BBT_SCANNED`; once an operation does not
return it holds the lock for ever. -/
structure NfiStack where
  flash : NfiFlash
  scanned : Bool
  hung : Bool

inductive NfiEvent (g : NfiGeometry) where
  | restart
  | call (dev : NfiPartition g) (chip : NfiChip) (op : NfiOp) (single : op.isCommand = false)

namespace NfiStack

variable {g : NfiGeometry}

def ready (dev : NfiPartition g) (chip : NfiChip) (op : NfiOp) (s : NfiStack) : NfiFlash :=
  if !s.scanned && dev.checksBad chip s.flash op then
    { s.flash with bbt := createBbt g s.flash.spare }
  else s.flash

def report (s : NfiStack) : NfiEvent g → Option Int
  | .restart => none
  | .call dev chip op _ => if s.hung then none else (dev.call chip (s.ready dev chip op) op).1

def step (s : NfiStack) : NfiEvent g → NfiStack
  | .restart => ⟨{ s.flash with pagebuf := none, bbt := fun _ => false }, false, false⟩
  | .call dev chip op _ =>
    if s.hung then s
    else
      let (result, flash) := dev.call chip (s.ready dev chip op) op
      ⟨flash, s.scanned || dev.checksBad chip s.flash op, result.isNone⟩

end NfiStack

/-- The stack, with the blocks that are known as bad (from the factory, or since a marking that
reported success), and whether no marking that failed has reported success. -/
structure NfiHistory where
  stack : NfiStack
  known : Nat → Bool
  honest : Bool

namespace NfiHistory

variable {g : NfiGeometry}

def marking (s : NfiStack) : NfiEvent g → Option (Nat × Bool)
  | .call dev chip (.markBadblock block) _ =>
    if s.hung || dev.blockBeyond block then none
    else some (dev.startBlock block, decide ((mtdBlockMarkbad g chip (dev.blockOffset block)
      (s.ready dev chip (.markBadblock block))).1 ≠ 0))
  | _ => none

def step (h : NfiHistory) (e : NfiEvent g) : NfiHistory where
  stack := h.stack.step e
  known := match marking h.stack e with
    | some (block, _) =>
      if h.stack.report e = some rtEok then Function.update h.known block true else h.known
    | none => h.known
  honest := match marking h.stack e with
    | some (_, failed) => h.honest && !(failed && h.stack.report e == some rtEok)
    | none => h.honest

/-- A block has a marker: some page of it that is scanned has a first spare byte that is not 0xff. -/
def Marked (g : NfiGeometry) (spare : Nat → Nat → Byte) (block : Nat) : Prop :=
  spare (g.markerPage block) 0 ≠ 0xff ∨
    g.scan2ndpage = true ∧ spare (g.markerPage block + 1) 0 ≠ 0xff

instance (spare : Nat → Nat → Byte) (block : Nat) : Decidable (Marked g spare block) :=
  inferInstanceAs (Decidable (_ ∨ _))

def start (g : NfiGeometry) (page spare : Nat → Nat → Byte) : NfiHistory where
  stack := ⟨nfiStart page spare fun _ => false, false, false⟩
  known block := decide (Marked g spare block)
  honest := true

/-- A marking that failed was reported so, and each device reports each known block bad, now and
after a restart. -/
structure MarkersSound (g : NfiGeometry) (h : NfiHistory) : Prop where
  honest : h.honest = true
  now : ∀ (dev : NfiPartition g) (chip : NfiChip) (block : U32), dev.blockBeyond block = false →
    h.known (dev.startBlock block) = true →
      h.stack.report (.call dev chip (.checkBlock block) rfl) ≠ some rtEok
  later : ∀ (dev : NfiPartition g) (chip : NfiChip) (block : U32), dev.blockBeyond block = false →
    h.known (dev.startBlock block) = true →
      (h.stack.step (.restart : NfiEvent g)).report (.call dev chip (.checkBlock block) rfl) ≠ some rtEok

end NfiHistory

end NuMakerMA35
