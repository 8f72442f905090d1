import NuMakerMA35.BitUtil
import NuMakerMA35.Words

namespace NuMakerMA35

open Words

def usbMemoryPoolSize : Nat := 32 * 1024
def usbMemBlockSize : Nat := 128
def usbBoundaryWord : Int := 4
def usbMemAllocMagic : U32 := 0x19685788

/-- Size of `USB_MHDR_T`; its words are the flag, the block count, the magic number and a spare. -/
def usbMhdrSize : Nat := 16

/-- Where the linker put `_USBMemoryPool`: at the start of a block, with its end in the address
space. -/
structure UsbPool where
  base : Nat
  aligned : usbMemBlockSize ∣ base
  fits : base + usbMemoryPoolSize < 2 ^ 32

def UsbPool.limit (p : UsbPool) : Nat := p.base + usbMemoryPoolSize

structure UsbHeap where
  mem : Mem
  freeMemorySize : U32
  allocatedMemorySize : U32
  pCurrent : Nat

def hdrFlag (mem : Mem) (hdr : Nat) : U32 := read32 mem hdr
def hdrBcnt (mem : Mem) (hdr : Nat) : U32 := read32 mem (hdr + 4)
def hdrMagic (mem : Mem) (hdr : Nat) : U32 := read32 mem (hdr + 8)

def usbInitializeMemoryPool (p : UsbPool) (mem : Mem) : UsbHeap where
  mem := fun x => if p.base ≤ x ∧ x < p.limit then 0 else mem x
  freeMemorySize := BitVec.ofNat 32 usbMemoryPoolSize
  allocatedMemorySize := 0
  pCurrent := p.base

def ptrAdd (a n : Nat) : Nat := (a + n) % 2 ^ 32

/-- The locals of the search in `USB_malloc`; `found` is -1 between runs of free blocks. -/
structure UsbSearch where
  cur : Nat
  found : Int
  pFound : Nat
  blockCount : Nat
  wrap : Bool

/-- How one turn of the search ends: it goes on, has found a run, or meets a wrong magic number. -/
inductive UsbTurn where
  | next (st : UsbSearch)
  | hit (pFound blockCount : Nat)
  | badMagic (cur : Nat)

def usbSkip (p : UsbPool) (mem : Mem) (st : UsbSearch) : UsbTurn :=
  if hdrMagic mem st.cur ≠ usbMemAllocMagic then .badMagic st.cur
  else
    let step := if hdrFlag mem st.cur = 0x3 then (hdrBcnt mem st.cur).toNat * usbMemBlockSize
      else usbMemBlockSize
    let cur := ptrAdd st.cur step
    if cur = p.limit then .next { st with cur := p.base, wrap := true, found := -1 }
    else .next { st with cur := cur, found := -1 }

/-- The size a free block begins a run with: none if its successor violates the boundary. -/
def usbLeading (p : UsbPool) (boundary : BitVec 32) (cur : Nat) : Int :=
  if usbBoundaryWord < boundary.toInt then
    if p.limit ≤ ptrAdd cur usbMemBlockSize ∨ ptrAdd cur usbMemBlockSize % boundary.toNat ≠ 0 then -1
    else 0
  else (usbMemBlockSize - usbMhdrSize : Nat)

def usbGather (p : UsbPool) (wanted boundary : BitVec 32) (st : UsbSearch) : UsbTurn :=
  let st := if st.found = -1 then
      { st with pFound := st.cur, blockCount := 1, found := usbLeading p boundary st.cur }
    else { st with found := st.found + usbMemBlockSize, blockCount := st.blockCount + 1 }
  if wanted.toInt ≤ st.found then .hit st.pFound st.blockCount
  else
    let cur := ptrAdd st.cur usbMemBlockSize
    if p.limit ≤ cur then .next { st with cur := p.base, wrap := true, found := -1 }
    else .next { st with cur := cur }

def usbTurn (p : UsbPool) (mem : Mem) (wanted boundary : BitVec 32) (st : UsbSearch) : UsbTurn :=
  if hdrFlag mem st.cur ≠ 0 then usbSkip p mem st else usbGather p wanted boundary st

/-- The `do while` loop: the run found if any, and where the rover is left. A rover that started
behind the pool and finds nothing never stops, so the turns are bounded. -/
def usbSearchLoop (p : UsbPool) (mem : Mem) (wanted boundary : BitVec 32) (primitive : Nat) :
    Nat → UsbSearch → Option (Option (Nat × Nat) × Nat)
  | 0, _ => none
  | n + 1, st =>
    match usbTurn p mem wanted boundary st with
    | .hit pFound blockCount => some (some (pFound, blockCount), st.cur)
    | .badMagic cur => some (none, cur)
    | .next st =>
      if st.wrap = false ∨ st.cur < primitive then
        usbSearchLoop p mem wanted boundary primitive n st
      else some (none, st.cur)

def usbFlagBlocks (flag : U32) : Nat → Mem → Nat → Mem
  | 0, mem, _ => mem
  | n + 1, mem, cur => usbFlagBlocks flag n (write32 mem cur flag) (ptrAdd cur usbMemBlockSize)

def usbTake (h : UsbHeap) (pFound blockCount : Nat) : UsbHeap :=
  let mem := write32 h.mem (pFound + 4) (BitVec.ofNat 32 blockCount)
  let mem := write32 mem (pFound + 8) usbMemAllocMagic
  let mem := usbFlagBlocks 1 blockCount mem pFound
  let size := BitVec.ofNat 32 (blockCount * usbMemBlockSize)
  { mem := write32 mem pFound 0x3
    freeMemorySize := h.freeMemorySize - size
    allocatedMemorySize := h.allocatedMemorySize + size
    pCurrent := ptrAdd pFound (blockCount * usbMemBlockSize) }

/-- `USB_malloc` with a bound on the turns of its loop; the result is 0 for `NULL`. -/
def usbMalloc (p : UsbPool) (turns : Nat) (h : UsbHeap) (wanted boundary : BitVec 32) :
    Option (UsbHeap × Nat) :=
  if h.freeMemorySize ≤ wanted then some (h, 0)
  else
    let cur := if p.limit ≤ h.pCurrent then p.base else h.pCurrent
    match usbSearchLoop p h.mem wanted boundary h.pCurrent turns ⟨cur, -1, 0, 0, false⟩ with
    | none => none
    | some (none, cur) => some ({ h with pCurrent := cur }, 0)
    | some (some (pFound, blockCount), _) =>
      some (usbTake h pFound blockCount,
        if usbBoundaryWord < boundary.toInt then ptrAdd pFound usbMemBlockSize
        else ptrAdd pFound usbMhdrSize)

def usbHeaderOf (addr : Nat) : Nat :=
  if addr % usbMemBlockSize = 0 then addr - usbMemBlockSize else addr - usbMhdrSize

/-- `USB_free`; the count of its loop is signed. -/
def usbFree (p : UsbPool) (h : UsbHeap) (addr : Nat) : UsbHeap :=
  if addr < p.base ∨ p.limit ≤ addr then h
  else
    let hdr := usbHeaderOf addr
    if hdr % usbMemBlockSize ≠ 0 then h
    else if hdrFlag h.mem hdr = 0 then h
    else if hdrMagic h.mem hdr ≠ usbMemAllocMagic then h
    else
      let count := hdrBcnt h.mem hdr
      let size := count * BitVec.ofNat 32 usbMemBlockSize
      { h with
        mem := usbFlagBlocks 0 count.toInt.toNat h.mem hdr
        freeMemorySize := h.freeMemorySize + size
        allocatedMemorySize := h.allocatedMemorySize - size }

end NuMakerMA35
