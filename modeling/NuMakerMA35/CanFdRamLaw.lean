import NuMakerMA35.CanFdFilter
import NuMakerMA35.CanFdOpen

namespace NuMakerMA35

open Words

namespace CanfdPart

theorem address_eq (r : CanfdRegs) (i : Nat) (p : CanfdPart) :
    p.address r i = p.startIn r.part + i * p.elementBytes := by
  cases p <;> rfl

/-- What is set up for the part: its start is written to the register. -/
def SetUp (size : CanfdElemSizeT) : CanfdPart → Prop
  | rf0 => CanfdSetup.FifoUsed size size.rxFifo0
  | rf1 => CanfdSetup.FifoUsed size size.rxFifo1
  | p => p.count size ≠ 0

instance (size : CanfdElemSizeT) : (p : CanfdPart) → Decidable (p.SetUp size)
  | rf0 | rf1 => inferInstanceAs (Decidable (CanfdSetup.FifoUsed _ _))
  | sid | xid | drb | tef | dtb => inferInstanceAs (Decidable (_ ≠ _))

end CanfdPart

section Fits

variable {old : CanfdRamPartT} {size : CanfdElemSizeT} {ram : Mem}

theorem limitTx_limitTx : size.limitTx.limitTx = size.limitTx := by
  apply if_neg
  unfold CanfdElemSizeT.limitTx
  split_ifs with many
  · show ¬32 < (16 + 16 : U32).toNat
    decide
  · exact many

theorem alignedStart_of_fits (fits : size.total ≤ canfdSramSize) {p : CanfdPart} {a : U32}
    (start : a.toNat = p.offset size.limitTx) : AlignedStart a := by
  have small := small_of_total fits p
  unfold AlignedStart
  rw [start]
  simp only [canfdSramSize] at small
  refine ⟨?_, by omega⟩
  cases p <;> simp only [CanfdPart.offset, canfdSidSize, canfdXidSize, canfdRxBufSize,
    canfdTxEventSize] <;> omega

theorem txbc_masked {a m n : U32} (aligned : AlignedStart a) :
    (m <<< 24 ||| n <<< 16 ||| (a &&& canfdAddrMsk)) &&& canfdAddrMsk = a := by
  rw [aligned.masked, packed_masked aligned]
  rw [BitVec.and_or_distrib_right, shifted_masked 24 (by omega), shifted_masked 16 (Nat.le_refl _)]
  rfl

theorem head_of_fits (fits : size.total ≤ canfdSramSize) (p : CanfdPart)
    (some : p.count size.limitTx ≠ 0) (setUp : p.SetUp size.limitTx) :
    p.startIn (canfdOpen (canfdCalculateRamAddressT old size).1 size.limitTx ram).regs.part =
      p.offset size.limitTx := by
  have start := start_of_fits old fits p some
  rw [canfdOpen_eq limitTx_limitTx]
  cases p with
  | sid =>
    have aligned := alignedStart_of_fits fits start
    have given : size.limitTx.sidfc ≠ 0 := fun none => some (congrArg BitVec.toNat none)
    simp only [CanfdPart.startIn, CanfdRegs.part]
    rw [if_pos given, aligned.masked, packed_masked aligned (shifted_masked 16 (Nat.le_refl _))]
    exact start
  | xid =>
    have aligned := alignedStart_of_fits fits start
    have given : size.limitTx.xidfc ≠ 0 := fun none => some (congrArg BitVec.toNat none)
    simp only [CanfdPart.startIn, CanfdRegs.part]
    rw [if_pos given, aligned.masked, packed_masked aligned (shifted_masked 16 (Nat.le_refl _))]
    exact start
  | rf0 =>
    have aligned := alignedStart_of_fits fits start
    have used : CanfdSetup.FifoUsed size.limitTx size.limitTx.rxFifo0 := setUp
    simp only [CanfdPart.startIn, CanfdRegs.part]
    rw [if_pos used, BitVec.or_comm,
      packed_masked aligned (shifted_masked 16 (Nat.le_refl _))]
    exact start
  | rf1 =>
    have aligned := alignedStart_of_fits fits start
    have used : CanfdSetup.FifoUsed size.limitTx size.limitTx.rxFifo1 := setUp
    simp only [CanfdPart.startIn, CanfdRegs.part]
    rw [if_pos used, BitVec.or_comm,
      packed_masked aligned (shifted_masked 16 (Nat.le_refl _))]
    exact start
  | drb =>
    have aligned := alignedStart_of_fits fits start
    have given : size.limitTx.rxBuf ≠ 0 := fun none => some (congrArg BitVec.toNat none)
    simp only [CanfdPart.startIn, CanfdRegs.part]
    rw [if_pos given, aligned.masked, aligned.masked]
    exact start
  | tef =>
    have aligned := alignedStart_of_fits fits start
    have given : size.limitTx.txEventFifo ≠ 0 := fun none => some (congrArg BitVec.toNat none)
    simp only [CanfdPart.startIn, CanfdRegs.part]
    rw [if_pos given, aligned.masked, packed_masked aligned (shifted_masked 16 (Nat.le_refl _))]
    exact start
  | dtb =>
    have aligned := alignedStart_of_fits fits start
    have given : size.limitTx.txBuf ≠ 0 ∨ size.limitTx.txFifoQueue ≠ 0 := by
      by_contra none
      simp only [not_or, not_not] at none
      exact some (by simp [CanfdPart.count, none])
    simp only [CanfdPart.startIn, CanfdRegs.part]
    rw [if_pos given, txbc_masked aligned]
    exact start

theorem elementBytes_pos (p : CanfdPart) : 0 < p.elementBytes := by
  cases p <;> decide

theorem element_inside_iff (old : CanfdRamPartT) (ram : Mem) (fits : size.total ≤ canfdSramSize)
    (p : CanfdPart) (setUp : p.count size.limitTx ≠ 0 → p.SetUp size.limitTx) (i : Nat) :
    let r := canfdCalculateRamAddressT old size
    ((p.region r.1 r.2).start ≤ p.address (canfdOpen r.1 r.2 ram).regs i ∧
      p.address (canfdOpen r.1 r.2 ram).regs i + p.elementBytes ≤
        (p.region r.1 r.2).start + (p.region r.1 r.2).bytes) ↔ i < p.count size.limitTx := by
  have positive := elementBytes_pos p
  change (p.start _ ≤ p.address (canfdOpen _ size.limitTx ram).regs i ∧
    p.address (canfdOpen _ size.limitTx ram).regs i + _ ≤ p.start _ + p.count size.limitTx * _) ↔ _
  rw [CanfdPart.address_eq]
  by_cases some : p.count size.limitTx ≠ 0
  · rw [head_of_fits fits p some (setUp some), start_of_fits old fits p some]
    constructor
    · rintro ⟨-, high⟩
      by_contra more
      have := Nat.mul_le_mul_right p.elementBytes (Nat.le_of_not_lt more)
      omega
    · intro below
      have := Nat.mul_le_mul_right p.elementBytes (Nat.succ_le_of_lt below)
      rw [Nat.succ_mul] at this
      omega
  · rw [not_not.mp some]
    omega

theorem accepted_below (fits : size.total ≤ canfdSramSize) (p : CanfdPart) {i : Nat}
    (hardware : p = .rf0 ∨ p = .rf1 ∨ p = .tef)
    (accepted : p.Accepts
      (canfdOpen (canfdCalculateRamAddressT old size).1 size.limitTx ram).regs i) :
    p.SetUp size.limitTx ∧ i < p.count size.limitTx := by
  rw [canfdOpen_eq limitTx_limitTx] at accepted
  have reset : ((0 : U32) >>> 16 &&& 0x7f).toNat = 0 := rfl
  have reset' : ((0 : U32) >>> 16 &&& 0x3f).toNat = 0 := rfl
  rcases hardware with rfl | rfl | rfl
  · simp only [CanfdPart.Accepts] at accepted
    split_ifs at accepted with used
    · have start := start_of_fits old fits .rf0 fun none => used.1 (BitVec.eq_of_toNat_eq none)
      exact ⟨used, accepted.trans_le (packed_count_le (alignedStart_of_fits fits start).2)⟩
    · omega
  · simp only [CanfdPart.Accepts] at accepted
    split_ifs at accepted with used
    · have start := start_of_fits old fits .rf1 fun none => used.1 (BitVec.eq_of_toNat_eq none)
      exact ⟨used, accepted.trans_le (packed_count_le (alignedStart_of_fits fits start).2)⟩
    · omega
  · simp only [CanfdPart.Accepts] at accepted
    split_ifs at accepted with some
    · have start := start_of_fits old fits .tef fun none => some (BitVec.eq_of_toNat_eq none)
      have aligned := alignedStart_of_fits fits start
      rw [BitVec.or_comm, aligned.masked] at accepted
      exact ⟨fun none => some (BitVec.eq_of_toNat_eq none),
        accepted.trans_le (packed_count_le aligned.2)⟩
    · omega

theorem accessesInside_iff (old : CanfdRamPartT) (fits : size.total ≤ canfdSramSize) :
    CanfdAccessesInside old size ↔
      canfdMax11BitFtrElems ≤ size.sidfc.toNat ∧ canfdMax29BitFtrElems ≤ size.xidfc.toNat ∧
        canfdMaxRxBufElems ≤ size.rxBuf.toNat ∧
        canfdMaxTxBufElems ≤ CanfdPart.dtb.count size.limitTx := by
  obtain ⟨a, b, limited, -⟩ := size.limitTx_eq
  have sid : CanfdPart.sid.count size.limitTx = size.sidfc.toNat := by rw [limited]; rfl
  have xid : CanfdPart.xid.count size.limitTx = size.xidfc.toNat := by rw [limited]; rfl
  have drb : CanfdPart.drb.count size.limitTx = size.rxBuf.toNat := by rw [limited]; rfl
  rw [← sid, ← xid, ← drb]
  constructor
  · intro inside
    have enough (p : CanfdPart) (setUp : p.count size.limitTx ≠ 0 → p.SetUp size.limitTx)
        {most : Nat} (accepts : ∀ r, ∀ i < most, p.Accepts r i) : most ≤ p.count size.limitTx := by
      by_contra less
      have here := (element_inside_iff old (fun _ => 0) fits p setUp _).mp
        (inside (fun _ => 0) p (p.count size.limitTx) (accepts _ _ (Nat.lt_of_not_le less)))
      omega
    exact ⟨enough .sid id fun _ _ below => below, enough .xid id fun _ _ below => below,
      enough .drb id fun _ _ below => below, enough .dtb id fun _ _ below => below⟩
  · rintro ⟨sids, xids, drbs, dtbs⟩ ram p i accepted
    have within (setUp : p.count size.limitTx ≠ 0 → p.SetUp size.limitTx)
        (below : i < p.count size.limitTx) := (element_inside_iff old ram fits p setUp i).mpr below
    cases p with
    | sid => exact within id (Nat.lt_of_lt_of_le accepted sids)
    | xid => exact within id (Nat.lt_of_lt_of_le accepted xids)
    | drb => exact within id (Nat.lt_of_lt_of_le accepted drbs)
    | dtb => exact within id (Nat.lt_of_lt_of_le accepted dtbs)
    | rf0 =>
      obtain ⟨setUp, below⟩ := accepted_below fits .rf0 (.inl rfl) accepted
      exact within (fun _ => setUp) below
    | rf1 =>
      obtain ⟨setUp, below⟩ := accepted_below fits .rf1 (.inr (.inl rfl)) accepted
      exact within (fun _ => setUp) below
    | tef =>
      obtain ⟨setUp, below⟩ := accepted_below fits .tef (.inr (.inr rfl)) accepted
      exact within (fun _ => setUp) below

end Fits

def clearAll (ram : Mem) (rs : List RamRegion) : Mem :=
  rs.foldl (fun ram r => memsetZero ram r.start r.bytes) ram

theorem clearAll_inside {rs : List RamRegion} {x : Nat} (inside : ∃ r ∈ rs, r.Holds x) :
    ∀ ram, clearAll ram rs x = 0 := by
  have keeps (rs : List RamRegion) : ∀ ram : Mem, ram x = 0 → clearAll ram rs x = 0 := by
    induction rs with
    | nil => exact fun _ zero => zero
    | cons r rs ih =>
      intro ram zero
      apply ih
      show (if r.start ≤ x ∧ x < r.start + r.bytes then 0 else ram x) = 0
      split_ifs
      · rfl
      · exact zero
  obtain ⟨r, member, holds⟩ := inside
  induction rs with
  | nil => cases member
  | cons r' rs ih =>
    intro ram
    rcases List.mem_cons.mp member with rfl | later
    · exact keeps rs _ (if_pos holds)
    · exact ih later _

theorem clearAll_outside {rs : List RamRegion} {x : Nat} (outside : ∀ r ∈ rs, ¬r.Holds x)
    (ram : Mem) : clearAll ram rs x = ram x := by
  induction rs generalizing ram with
  | nil => rfl
  | cons r rs ih =>
    have rest := ih (fun r' later => outside r' (List.mem_cons_of_mem r later))
      (memsetZero ram r.start r.bytes)
    exact rest.trans (if_neg (outside r List.mem_cons_self))

section Fits

variable {old : CanfdRamPartT} {size : CanfdElemSizeT}

theorem canfdClearBytes_eq {n : U32} (small : n.toNat ≤ 1024) : canfdClearBytes n = n.toNat * 72 := by
  have element : (BitVec.ofNat 32 (canfdElementWords canfdByte64 * 4)).toNat = 72 := rfl
  rw [canfdClearBytes, BitVec.toNat_mul, element]
  omega

def txCleared (part : CanfdRamPartT) (size : CanfdElemSizeT) : RamRegion :=
  ⟨(((size.txFifoQueue &&& 0x3f) <<< 24 ||| (size.txBuf &&& 0x3f) <<< 16 |||
    (part.tbsa &&& canfdAddrMsk)) &&& canfdAddrMsk).toNat, canfdClearBytes size.txBuf⟩

def fifoCleared (size : CanfdElemSizeT) (start n : U32) : RamRegion :=
  ⟨((start ||| n <<< 16) &&& canfdAddrMsk).toNat,
    if CanfdSetup.FifoUsed size n then canfdClearBytes n else 0⟩

/-- The six stretches cleared: those meant for the extended filters and the Rx buffers start at 0. -/
def openStretches (part : CanfdRamPartT) (size : CanfdElemSizeT) : List RamRegion :=
  [⟨0, (size.sidfc * 4).toNat⟩, ⟨0, (size.xidfc * 8).toNat⟩, txCleared part size,
    ⟨0, canfdClearBytes size.rxBuf⟩, fifoCleared size part.f0sa size.rxFifo0,
    fifoCleared size part.f1sa size.rxFifo1]

theorem open_zero_iff (part : CanfdRamPartT) (limited : size.limitTx = size) (x : Nat) :
    (∀ ram, (canfdOpen part size ram).ram x = 0) ↔ ∃ r ∈ openStretches part size, r.Holds x := by
  have ram (ram : Mem) : (canfdOpen part size ram).ram = clearAll ram (openStretches part size) := by
    rw [canfdOpen_eq limited]
    rfl
  constructor
  · intro zero
    by_contra outside
    have kept := clearAll_outside (fun r inside holds => outside ⟨r, inside, holds⟩) fun _ => 1
    have cleared := zero fun _ => 1
    rw [ram, kept] at cleared
    exact absurd cleared (by decide)
  · intro inside ram'
    rw [ram]
    exact clearAll_inside inside ram'

theorem txCleared_start (old : CanfdRamPartT) (fits : size.total ≤ canfdSramSize) :
    (txCleared (canfdCalculateRamAddressT old size).1 size.limitTx).bytes = 0 ∨
      (txCleared (canfdCalculateRamAddressT old size).1 size.limitTx).start =
        CanfdPart.dtb.offset size.limitTx := by
  by_cases some : CanfdPart.dtb.count size.limitTx ≠ 0
  · right
    have start := start_of_fits old fits .dtb some
    have aligned := alignedStart_of_fits fits start
    rw [txCleared, txbc_masked aligned]
    exact start
  · left
    have none : size.limitTx.txBuf = 0 := by
      simp only [CanfdPart.count, not_not] at some
      exact BitVec.eq_of_toNat_eq (by rw [show size.limitTx.txBuf.toNat = 0 by omega]; rfl)
    rw [txCleared, none]
    rfl

theorem fifoCleared_eq (fits : size.total ≤ canfdSramSize) {p : CanfdPart} {start n : U32}
    (count : p.count size.limitTx = n.toNat) (bytes : p.elementBytes = canfdRxBufSize)
    (here : n.toNat ≠ 0 → start.toNat = p.offset size.limitTx) :
    (fifoCleared size.limitTx start n).bytes = 0 ∨
      (fifoCleared size.limitTx start n).start = p.offset size.limitTx ∧
        (fifoCleared size.limitTx start n).bytes = p.count size.limitTx * p.elementBytes := by
  have small := small_of_total fits p
  rw [count, bytes, canfdRxBufSize, canfdSramSize] at small
  unfold fifoCleared
  split_ifs with used
  · right
    have start := here fun none => used.1 (BitVec.eq_of_toNat_eq none)
    rw [BitVec.or_comm, packed_masked (alignedStart_of_fits fits start)
      (shifted_masked 16 (Nat.le_refl _)), canfdClearBytes_eq (by omega), count, bytes]
    exact ⟨start, rfl⟩
  · exact .inl rfl

theorem stretch_apart (old : CanfdRamPartT) (fits : size.total ≤ canfdSramSize) {p : CanfdPart}
    (filter : p = .sid ∨ p = .xid ∨ p = .drb) {x : Nat} (low : p.offset size.limitTx ≤ x)
    (high : x < p.offset size.limitTx + p.count size.limitTx * p.elementBytes) :
    let part := (canfdCalculateRamAddressT old size).1
    ¬(txCleared part size.limitTx).Holds x ∧
      ¬(fifoCleared size.limitTx part.f0sa size.limitTx.rxFifo0).Holds x ∧
      ¬(fifoCleared size.limitTx part.f1sa size.limitTx.rxFifo1).Holds x := by
  have apart {q : CanfdPart} (other : p ≠ q) := offset_apart size.limitTx other
  refine ⟨?_, ?_, ?_⟩
  · rintro ⟨above, upTo⟩
    rcases txCleared_start old fits with none | start
    · omega
    · rw [start] at above
      have later : p.offset size.limitTx + p.count size.limitTx * p.elementBytes ≤
          CanfdPart.dtb.offset size.limitTx := by
        rcases filter with rfl | rfl | rfl <;> simp only [CanfdPart.offset,
          CanfdPart.elementBytes, canfdSidSize, canfdXidSize, canfdRxBufSize, canfdTxEventSize] <;>
          omega
      omega
  · rintro ⟨above, upTo⟩
    have away := apart (q := .rf0) (by rcases filter with rfl | rfl | rfl <;> decide)
    rcases fifoCleared_eq fits (p := .rf0) rfl rfl (start_of_fits old fits .rf0) with none | same
    · omega
    · omega
  · rintro ⟨above, upTo⟩
    have away := apart (q := .rf1) (by rcases filter with rfl | rfl | rfl <;> decide)
    rcases fifoCleared_eq fits (p := .rf1) rfl rfl (start_of_fits old fits .rf1) with none | same
    · omega
    · omega

theorem stretch_hit_iff (old : CanfdRamPartT) (fits : size.total ≤ canfdSramSize) {p : CanfdPart}
    (filter : p = .sid ∨ p = .xid ∨ p = .drb) {x : Nat} (low : p.offset size.limitTx ≤ x)
    (high : x < p.offset size.limitTx + p.count size.limitTx * p.elementBytes) :
    (∃ r ∈ openStretches (canfdCalculateRamAddressT old size).1 size.limitTx, r.Holds x) ↔
      x < CanfdPart.sid.count size.limitTx * canfdSidSize ∨
        x < CanfdPart.xid.count size.limitTx * canfdXidSize ∨
        x < CanfdPart.drb.count size.limitTx * canfdRxBufSize := by
  obtain ⟨tx, fifo0, fifo1⟩ := stretch_apart old fits filter low high
  have sid := small_of_total fits .sid
  have xid := small_of_total fits .xid
  have drb := small_of_total fits .drb
  have four : (4 : U32).toNat = 4 := rfl
  have eight : (8 : U32).toNat = 8 := rfl
  simp only [CanfdPart.count, CanfdPart.elementBytes, canfdSidSize, canfdXidSize, canfdRxBufSize,
    canfdSramSize] at sid xid drb ⊢
  simp only [openStretches, List.mem_cons, List.not_mem_nil, or_false, exists_eq_or_imp,
    exists_eq_left, tx, fifo0, fifo1, false_or]
  simp only [RamRegion.Holds, Nat.zero_le, true_and, Nat.zero_add, BitVec.toNat_mul, four, eight]
  rw [canfdClearBytes_eq (by omega)]
  omega

theorem region_holds_iff (old : CanfdRamPartT) (fits : size.total ≤ canfdSramSize) (p : CanfdPart)
    (x : Nat) :
    (p.region (canfdCalculateRamAddressT old size).1 size.limitTx).Holds x ↔
      p.offset size.limitTx ≤ x ∧
        x < p.offset size.limitTx + p.count size.limitTx * p.elementBytes := by
  unfold RamRegion.Holds CanfdPart.region
  by_cases some : p.count size.limitTx ≠ 0
  · rw [start_of_fits old fits p some]
  · rw [not_not.mp some, Nat.zero_mul]
    dsimp only
    omega

/-- The extended filters and the Rx buffers are cleared only where their parts happen to lie in what
is cleared from 0 on. -/
theorem openClears_iff (old : CanfdRamPartT) (fits : size.total ≤ canfdSramSize) :
    CanfdOpenClears old size ↔
      (size.xidfc.toNat = 0 ∨ size.sidfc.toNat = 0 ∨
        size.sidfc.toNat * canfdSidSize + size.xidfc.toNat * canfdXidSize ≤
          size.rxBuf.toNat * canfdRxBufSize) ∧
      (size.rxBuf.toNat = 0 ∨ size.sidfc.toNat = 0 ∧ size.xidfc.toNat = 0 ∧
        size.rxFifo0.toNat = 0 ∧ size.rxFifo1.toNat = 0) := by
  obtain ⟨a, b, limited, -⟩ := size.limitTx_eq
  have counts : CanfdPart.sid.count size.limitTx = size.sidfc.toNat ∧
      CanfdPart.xid.count size.limitTx = size.xidfc.toNat ∧
      CanfdPart.rf0.count size.limitTx = size.rxFifo0.toNat ∧
      CanfdPart.rf1.count size.limitTx = size.rxFifo1.toNat ∧
      CanfdPart.drb.count size.limitTx = size.rxBuf.toNat := by
    rw [limited]
    exact ⟨rfl, rfl, rfl, rfl, rfl⟩
  obtain ⟨sid, xid, rf0, rf1, drb⟩ := counts
  have covered : CanfdOpenClears old size ↔ ∀ p : CanfdPart, p = .sid ∨ p = .xid ∨ p = .drb → ∀ x,
      p.offset size.limitTx ≤ x →
      x < p.offset size.limitTx + p.count size.limitTx * p.elementBytes →
      x < size.sidfc.toNat * canfdSidSize ∨ x < size.xidfc.toNat * canfdXidSize ∨
        x < size.rxBuf.toNat * canfdRxBufSize := by
    constructor
    · intro clears p filter x low high
      have holds := (region_holds_iff old fits p x).mpr ⟨low, high⟩
      have hit := (open_zero_iff _ limitTx_limitTx x).mp fun ram =>
        clears ram p (by simpa using filter) x holds
      rw [stretch_hit_iff old fits filter low high, sid, xid, drb] at hit
      exact hit
    · intro all ram p member x holds
      have filter : p = .sid ∨ p = .xid ∨ p = .drb := by simpa using member
      obtain ⟨low, high⟩ := (region_holds_iff old fits p x).mp holds
      have hit := all p filter x low high
      rw [← sid, ← xid, ← drb, ← stretch_hit_iff old fits filter low high] at hit
      exact (open_zero_iff _ limitTx_limitTx x).mpr hit ram
  rw [covered]
  constructor
  · intro all
    refine ⟨?_, ?_⟩
    · have last := all .xid (.inr (.inl rfl)) (CanfdPart.xid.offset size.limitTx +
        CanfdPart.xid.count size.limitTx * CanfdPart.xid.elementBytes - 1)
      simp only [CanfdPart.offset, CanfdPart.elementBytes, sid, xid, canfdSidSize, canfdXidSize,
        canfdRxBufSize] at last ⊢
      omega
    · have last := all .drb (.inr (.inr rfl)) (CanfdPart.drb.offset size.limitTx +
        CanfdPart.drb.count size.limitTx * CanfdPart.drb.elementBytes - 1)
      simp only [CanfdPart.offset, CanfdPart.elementBytes, sid, xid, rf0, rf1, drb, canfdSidSize,
        canfdXidSize, canfdRxBufSize] at last ⊢
      omega
  · rintro ⟨xids, drbs⟩ p filter x low high
    rcases filter with rfl | rfl | rfl <;> simp only [CanfdPart.offset, CanfdPart.elementBytes, sid,
      xid, rf0, rf1, drb, canfdSidSize, canfdXidSize, canfdRxBufSize] at * <;> omega

end Fits

/-- Fits is the law of the layout; the accesses stay inside only where each list has the most elements
it may have; and then the extended filters and the Rx buffers are not cleared. -/
theorem canfd_ram_iff (old : CanfdRamPartT) (size : CanfdElemSizeT) :
    (CanfdLayoutSafe old size ↔ size.total ≤ canfdSramSize) ∧
    (CanfdLayoutSafe old size ∧ CanfdAccessesInside old size ↔
      size.total ≤ canfdSramSize ∧ canfdMax11BitFtrElems ≤ size.sidfc.toNat ∧
        canfdMax29BitFtrElems ≤ size.xidfc.toNat ∧ canfdMaxRxBufElems ≤ size.rxBuf.toNat ∧
        canfdMaxTxBufElems ≤ CanfdPart.dtb.count size.limitTx) ∧
    (CanfdLayoutSafe old size ∧ CanfdOpenClears old size ↔
      size.total ≤ canfdSramSize ∧
      (size.xidfc.toNat = 0 ∨ size.sidfc.toNat = 0 ∨
        size.sidfc.toNat * canfdSidSize + size.xidfc.toNat * canfdXidSize ≤
          size.rxBuf.toNat * canfdRxBufSize) ∧
      (size.rxBuf.toNat = 0 ∨ size.sidfc.toNat = 0 ∧ size.xidfc.toNat = 0 ∧
        size.rxFifo0.toNat = 0 ∧ size.rxFifo1.toNat = 0)) ∧
    ¬(CanfdLayoutSafe old size ∧ CanfdAccessesInside old size ∧ CanfdOpenClears old size) := by
  refine ⟨layoutSafe_iff, ?_, ?_, ?_⟩
  · rw [layoutSafe_iff]
    exact and_congr_right fun fits => accessesInside_iff old fits
  · rw [layoutSafe_iff]
    exact and_congr_right fun fits => openClears_iff old fits
  · rintro ⟨safe, inside, clears⟩
    have fits := layoutSafe_iff.mp safe
    have sids := ((accessesInside_iff old fits).mp inside).1
    have drbs := ((accessesInside_iff old fits).mp inside).2.2.1
    have cleared := ((openClears_iff old fits).mp clears).2
    unfold canfdMax11BitFtrElems canfdMaxRxBufElems at *
    omega

def canfdDefaultElems : CanfdElemSizeT := ⟨16, 16, 16, 16, 16, 16, 16, 16⟩

theorem default_fits : canfdDefaultElems.total ≤ canfdSramSize := by decide

/-- Opening with the default sizes leaves the starts that the filter and message transfers rely on. -/
theorem open_configured (old : CanfdRamPartT) (ram : Mem) {c : Canfd}
    (opened : c.part = (canfdOpen (canfdCalculateRamAddressT old canfdDefaultElems).1
      canfdDefaultElems.limitTx ram).regs.part) : c.Configured := by
  have starts (p : CanfdPart) : p.startIn c.part =
      p.startIn (nuCanfdRamPart ⟨0, 0, 0, 0, 0, 0, 0⟩) := by
    rw [opened, head_of_fits default_fits p (by cases p <;> decide) (by cases p <;> decide)]
    cases p <;> rfl
  refine ⟨⟨0, 0, 0, 0, 0, 0, 0⟩, ?_⟩
  cases part : c.part with
  | mk flssa flesa f0sa f1sa rbsa efsa tbsa =>
    rw [part] at starts
    have sid : flssa = _ := starts .sid
    have xid : flesa = _ := starts .xid
    have rf0 : f0sa = _ := starts .rf0
    have rf1 : f1sa = _ := starts .rf1
    have drb : rbsa = _ := starts .drb
    have tef : efsa = _ := starts .tef
    have dtb : tbsa = _ := starts .dtb
    rw [sid, xid, rf0, rf1, drb, tef, dtb]
    rfl

/-- The layout is safe; index 16 of the filters lies outside, and Rx buffers keep what they held. -/
theorem default_ram_breaks : CanfdLayoutSafe ⟨0, 0, 0, 0, 0, 0, 0⟩ canfdDefaultElems ∧
    ¬CanfdAccessesInside ⟨0, 0, 0, 0, 0, 0, 0⟩ canfdDefaultElems ∧
    ¬CanfdOpenClears ⟨0, 0, 0, 0, 0, 0, 0⟩ canfdDefaultElems := by
  have fits := default_fits
  refine ⟨layoutSafe_iff.mpr fits, ?_, ?_⟩
  · intro inside
    exact absurd ((accessesInside_iff _ fits).mp inside).1 (by decide)
  · intro clears
    exact absurd ((openClears_iff _ fits).mp clears).2 (by decide)

end NuMakerMA35
