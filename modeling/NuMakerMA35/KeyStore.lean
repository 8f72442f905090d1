import NuMakerMA35.BitUtil
import Mathlib.Logic.Function.Basic
import Mathlib.Data.List.Range
import Mathlib.Tactic.Ring
import Mathlib.Tactic.IntervalCases

namespace NuMakerMA35

def ksCtlStartMsk : U32 := 1
def ksCtlContMsk : U32 := 1 <<< 7
def ksCltFuncMask : U32 := (1 <<< 15) ||| (1 <<< 14) ||| (1 <<< 11) ||| (1 <<< 10)
def ksOpRead : U32 := 0 <<< 1
def ksOpWrite : U32 := 1 <<< 1
def ksMetadataSizePos : Nat := 8
def ksMetadataSizeMsk : U32 := 0x1f <<< 8
def ksMetadataNumberPos : Nat := 20
def ksMetadataNumberMsk : U32 := 0x3f <<< 20
def ksMetadataDstPos : Nat := 30

def sramCntTbl : List Nat :=
  [4, 6, 6, 7, 8, 8, 8, 9, 12, 13, 16, 17, 18, 0, 0, 0, 32, 48, 64, 96, 128]

def otpCntTbl : List Nat := [4, 6, 6, 7, 8, 8, 8]

def ksToMetaKey (x : U32) : U32 := (x <<< ksMetadataNumberPos) &&& ksMetadataNumberMsk

def ksToKeyIdx (x : U32) : U32 := (x &&& ksMetadataNumberMsk) >>> ksMetadataNumberPos

inductive KsMem where
  | sram
  | otp
  deriving DecidableEq

def KsMem.toU32 : KsMem → U32
  | sram => 0
  | otp => 2

/-- What the key store answers: whether it is busy, the error flag of every chunk, the words of every
chunk of a key that is read, and the metadata once a key is written. -/
structure KsHw where
  busy : Bool
  error : Nat → Bool
  key : Nat → Nat → U32
  metadata : U32

/-- The registers and the caller's buffer; what the key store took from `KEY`, and the words of the
buffer that were touched, in order. -/
structure KsState where
  metadata : U32
  ctl : U32
  eif : Bool
  key : Nat → U32
  started : Nat
  taken : List U32
  buffer : Nat → U32
  touched : List Nat

namespace KsState

def start (hw : KsHw) (op cont : U32) (s : KsState) : KsState :=
  { s with
    ctl := cont ||| op ||| ksCtlStartMsk ||| (s.ctl &&& ksCltFuncMask)
    eif := hw.error s.started
    key := if op = ksOpRead then hw.key s.started else s.key
    started := s.started + 1
    taken := if op = ksOpRead then s.taken else s.taken ++ (List.range 8).map s.key }

def put (offset cnt : Nat) (s : KsState) : KsState :=
  (List.range cnt).foldl (fun s i => { s with
    key := Function.update s.key i (s.buffer (offset + i))
    touched := s.touched ++ [offset + i] }) s

def get (offset cnt : Nat) (s : KsState) : KsState :=
  (List.range cnt).foldl (fun s i => { s with
    buffer := Function.update s.buffer (offset + i) (s.key i)
    touched := s.touched ++ [offset + i] }) s

end KsState

def KsState.Fresh (s : KsState) : Prop := s.started = 0 ∧ s.taken = [] ∧ s.touched = []

def ksChunk (cnt : Int) : Nat := (if cnt > 8 then 8 else cnt).toNat

def ksReadTurn (hw : KsHw) (offset : Nat) (cnt : Int) (cont : U32) (s : KsState) : KsState :=
  (KsState.start hw ksOpRead cont { s with eif := false }).get offset (ksChunk cnt)

def ksWriteTurn (hw : KsHw) (offset : Nat) (cnt : Int) (cont : U32) (s : KsState) : KsState :=
  KsState.start hw ksOpWrite cont { s.put offset (ksChunk cnt) with eif := false }

/-- The loops, with a bound on their turns; nothing comes back where `i32Cnt` overflows. -/
def ksLoop (turn : Nat → Int → U32 → KsState → KsState) :
    Nat → Nat → Int → U32 → KsState → Option KsState
  | 0, _, _, _, _ => none
  | turns + 1, offset, cnt, cont, s =>
    let s := turn offset cnt cont s
    if cnt - 8 < -2 ^ 31 then none
    else if cnt - 8 > 0 then ksLoop turn turns (offset + 8) (cnt - 8) ksCtlContMsk s else some s

def ksRead (hw : KsHw) (mem : KsMem) (keyIdx wordCnt : U32) (s : KsState) : Option (KsState × Int) :=
  if hw.busy then some (s, -1)
  else do
    let s := { s with
      metadata := mem.toU32 <<< ksMetadataDstPos ||| ksToMetaKey keyIdx
      eif := false }
    let s ← ksLoop (ksReadTurn hw) (wordCnt.toInt.toNat / 8 + 1) 0 wordCnt.toInt 0 s
    some (s, if s.eif then -3 else 0)

/-- `KS_Write`; nothing comes back where it reads behind the table. -/
def ksWrite (hw : KsHw) (mem : KsMem) (metadata : U32) (s : KsState) : Option (KsState × Int) :=
  if hw.busy then some (s, -1)
  else do
    let s := { s with metadata := mem.toU32 <<< ksMetadataDstPos ||| metadata }
    let cnt ← sramCntTbl[((metadata &&& ksMetadataSizeMsk) >>> ksMetadataSizePos).toNat]?
    if cnt = 0 then some (s, -1)
    else if mem = .otp ∧ cnt > 8 then some (s, -1)
    else
      let s ← ksLoop (ksWriteTurn hw) (cnt / 8 + 1) 0 cnt 0 { s with eif := false }
      some (s, if s.eif then -3 else (ksToKeyIdx hw.metadata).toInt)

/-- `KS_WriteOTP`; nothing comes back where it reads behind the table. -/
def ksWriteOtp (hw : KsHw) (keyIdx metadata : U32) (s : KsState) : Option (KsState × Int) :=
  if hw.busy then some (s, -1)
  else do
    let s := { s with
      metadata := KsMem.otp.toU32 <<< ksMetadataDstPos ||| metadata ||| ksToMetaKey keyIdx }
    let sidx := ((metadata >>> ksMetadataSizePos) &&& 0xf).toNat
    if sidx ≥ 7 then some (s, -1)
    else
      let cnt ← otpCntTbl[sidx]?
      let s ← ksLoop (ksWriteTurn hw) (cnt / 8 + 1) 0 cnt 0 { s with eif := false }
      some (s, if s.eif then -1 else keyIdx.toInt)

/-- The bits of a key by its size field, as `KS_META_128` to `KS_META_4096` name them. -/
def ksMetaBits : Nat → Option Nat
  | 0 => some 128
  | 1 => some 163
  | 2 => some 192
  | 3 => some 224
  | 4 => some 233
  | 5 => some 255
  | 6 => some 256
  | 7 => some 283
  | 8 => some 384
  | 9 => some 409
  | 10 => some 512
  | 11 => some 521
  | 12 => some 571
  | 16 => some 1024
  | 17 => some 1536
  | 18 => some 2048
  | 19 => some 3072
  | 20 => some 4096
  | _ => none

def KsMem.words (mem : KsMem) (size : Nat) : Option Nat :=
  (ksMetaBits size).bind fun bits =>
    if mem = .otp ∧ bits > 256 then none else some ((bits + 31) / 32)

def ksSize (metadata : U32) : Nat := ((metadata &&& ksMetadataSizeMsk) >>> ksMetadataSizePos).toNat

inductive KsCall where
  | read (mem : KsMem) (keyIdx wordCnt : U32)
  | write (mem : KsMem) (metadata : U32)
  | writeOtp (keyIdx metadata : U32)

namespace KsCall

def run (hw : KsHw) : KsCall → KsState → Option (KsState × Int)
  | read mem keyIdx wordCnt, s => ksRead hw mem keyIdx wordCnt s
  | write mem metadata, s => ksWrite hw mem metadata s
  | writeOtp keyIdx metadata, s => ksWriteOtp hw keyIdx metadata s

def words : KsCall → Option Nat
  | read _ _ wordCnt => some wordCnt.toNat
  | write mem metadata => mem.words (ksSize metadata)
  | writeOtp _ metadata => KsMem.otp.words (ksSize metadata)

def Moved (hw : KsHw) (s s' : KsState) (n : Nat) : KsCall → Prop
  | read _ _ _ => s'.buffer = fun j => if j < n then hw.key (j / 8) (j % 8) else s.buffer j
  | write _ _ | writeOtp _ _ => s'.buffer = s.buffer ∧ s'.taken.take n = (List.range n).map s.buffer

def Refused (s s' : KsState) (ret : Int) : Prop :=
  ret < 0 ∧ s'.started = 0 ∧ s'.key = s.key ∧ s'.touched = []

/-- No error is lost, the words of the key are moved in order and no others touched, and what is not
supported is refused. -/
def Law (hw : KsHw) (call : KsCall) : Prop :=
  ∀ s : KsState, s.Fresh → ∃ s' ret, call.run hw s = some (s', ret) ∧
    (0 ≤ ret → ∀ i < s'.started, hw.error i = false) ∧
    (hw.busy = true ∨ call.words = none → Refused s s' ret) ∧
    (hw.busy = false → ∀ n, call.words = some n →
      s'.touched = List.range n ∧ call.Moved hw s s' n)

/-- Of `n` words, the last chunk has an error or none has one. -/
def Shown (hw : KsHw) (n : Nat) : Prop :=
  hw.error ((n - 1) / 8) = true ∨ ∀ i ≤ (n - 1) / 8, hw.error i = false

/-- The key store is busy; or no error is followed by a chunk without one, the count of a reading
has 31 bits, the size field of a writing is inside of the table, and for `KS_WriteOTP` it is not
among those that look like a supported one without their high bit. -/
def Kept (hw : KsHw) (call : KsCall) : Prop :=
  hw.busy = true ∨ (∀ n, call.words = some n → Shown hw n) ∧
    match call with
    | read _ _ wordCnt => wordCnt.toNat < 2 ^ 31
    | write _ metadata => ksSize metadata < 21
    | writeOtp _ metadata => ¬(16 ≤ ksSize metadata ∧ ksSize metadata < 23)

end KsCall

section Chunks

variable {hw : KsHw} {s : KsState} {offset cnt : Nat}

namespace KsState

theorem exists_fresh : ∃ s : KsState, s.Fresh :=
  ⟨⟨0, 0, false, fun _ => 0, 0, [], fun _ => 0, []⟩, rfl, rfl, rfl⟩

theorem put_eq : s.put offset cnt = { s with
    key := fun i => if i < cnt then s.buffer (offset + i) else s.key i
    touched := s.touched ++ (List.range cnt).map (offset + ·) } := by
  unfold put
  induction cnt with
  | zero => simp
  | succ cnt ih =>
    rw [List.range_succ, List.foldl_append, ih]
    simp only [List.foldl_cons, List.foldl_nil, List.map_append, List.map_cons, List.map_nil,
      List.append_assoc, mk.injEq, true_and, and_true]
    funext i
    rw [Function.update_apply]
    split_ifs with here <;> first | rfl | omega | rw [here]

theorem get_eq : s.get offset cnt = { s with
    buffer := fun j => if offset ≤ j ∧ j < offset + cnt then s.key (j - offset) else s.buffer j
    touched := s.touched ++ (List.range cnt).map (offset + ·) } := by
  unfold get
  induction cnt with
  | zero =>
    have none : ∀ j, ¬(offset ≤ j ∧ j < offset) := fun j => by omega
    simp [none]
  | succ cnt ih =>
    rw [List.range_succ, List.foldl_append, ih]
    simp only [List.foldl_cons, List.foldl_nil, List.map_append, List.map_cons, List.map_nil,
      List.append_assoc, mk.injEq, true_and, and_true]
    funext j
    rw [Function.update_apply]
    split_ifs with here <;> first | rfl | omega | rw [here, Nat.add_sub_cancel_left]

end KsState

theorem ksChunk_sub {n c : Nat} (inside : 8 * c ≤ n) :
    8 * c + ksChunk ((n : Int) - (8 * c : Nat)) = min n (8 * (c + 1)) := by
  rw [ksChunk]
  split <;> omega

theorem ksLoop_inv {turn : Nat → Int → U32 → KsState → KsState} {n : Nat} (P : Nat → KsState → Prop)
    (step : ∀ c s cont, 8 * c ≤ n → P c s →
      P (c + 1) (turn (8 * c) ((n : Int) - (8 * c : Nat)) cont s))
    {turns c : Nat} {cont : U32} (inside : 8 * c ≤ n) (enough : n / 8 + 1 ≤ turns + c) (start : P c s)
    (more : c ≤ (n - 1) / 8) :
    ∃ s', ksLoop turn turns (8 * c) ((n : Int) - (8 * c : Nat)) cont s = some s' ∧
      P ((n - 1) / 8 + 1) s' := by
  induction turns generalizing c cont s with
  | zero => omega
  | succ turns ih =>
    have next := step c s cont inside start
    rw [ksLoop, if_neg (by omega)]
    by_cases last : (n : Int) - (8 * c : Nat) - 8 > 0
    · rw [if_pos last]
      obtain ⟨s', loop, done⟩ : ∃ s', ksLoop turn turns (8 * (c + 1))
          ((n : Int) - (8 * (c + 1) : Nat)) ksCtlContMsk
          (turn (8 * c) ((n : Int) - (8 * c : Nat)) cont s) = some s' ∧ P ((n - 1) / 8 + 1) s' :=
        ih (by omega) (by omega) next (by omega)
      rw [show 8 * (c + 1) = 8 * c + 8 by ring, show (n : Int) - ((8 * c + 8 : Nat) : Int) =
        (n : Int) - (8 * c : Nat) - 8 by omega] at loop
      exact ⟨s', loop, done⟩
    · rw [if_neg last]
      refine ⟨_, rfl, ?_⟩
      rw [show (n - 1) / 8 = c by omega]
      exact next

structure KsDone (hw : KsHw) (n c : Nat) (s : KsState) : Prop where
  started : s.started = c
  eif : 0 < c → s.eif = hw.error (c - 1)
  touched : s.touched = List.range (min n (8 * c))

structure KsWritten (hw : KsHw) (buffer : Nat → U32) (n c : Nat) (s : KsState) : Prop
    extends KsDone hw n c s where
  kept : s.buffer = buffer
  length : s.taken.length = 8 * c
  taken : s.taken.take (min n (8 * c)) = (List.range (min n (8 * c))).map buffer

structure KsLoaded (hw : KsHw) (buffer : Nat → U32) (n c : Nat) (s : KsState) : Prop
    extends KsDone hw n c s where
  loaded : s.buffer = fun j => if j < min n (8 * c) then hw.key (j / 8) (j % 8) else buffer j

theorem ksChunk_le (cnt : Int) : ksChunk cnt ≤ 8 := by
  rw [ksChunk]
  split <;> omega

theorem ksWriteTurn_done {buffer : Nat → U32} {n c : Nat} {cont : U32} (inside : 8 * c ≤ n)
    (done : KsWritten hw buffer n c s) :
    KsWritten hw buffer n (c + 1) (ksWriteTurn hw (8 * c) ((n : Int) - (8 * c : Nat)) cont s) := by
  have before : min n (8 * c) = 8 * c := Nat.min_eq_right inside
  have after := ksChunk_sub inside
  have few := ksChunk_le ((n : Int) - (8 * c : Nat))
  generalize chunk : ksChunk ((n : Int) - (8 * c : Nat)) = cnt at after few
  obtain ⟨⟨started, -, touched⟩, kept, length, taken⟩ := done
  rw [before] at touched taken
  have old : s.taken = (List.range (8 * c)).map buffer := by
    rw [← taken, List.take_of_length_le length.le]
  rw [ksWriteTurn, chunk, KsState.put_eq, KsState.start]
  refine ⟨⟨congrArg (· + 1) started, fun _ => congrArg hw.error started, ?_⟩, kept, ?_, ?_⟩
  · change s.touched ++ (List.range cnt).map (8 * c + ·) = _
    rw [← after, List.range_add, touched]
  · change (s.taken ++ (List.range 8).map _).length = _
    rw [List.length_append, length, List.length_map, List.length_range]
    ring
  · change (s.taken ++ (List.range 8).map fun i =>
      if i < cnt then s.buffer (8 * c + i) else s.key i).take (min n (8 * (c + 1))) = _
    rw [← after, List.range_add, List.map_append, ← old, ← length, List.take_length_add_append,
      ← List.map_take, List.take_range, Nat.min_eq_left few, List.map_map, kept, length]
    congr 1
    apply List.map_congr_left
    intro i mem
    exact if_pos (List.mem_range.mp mem)

theorem ksReadTurn_done {buffer : Nat → U32} {n c : Nat} {cont : U32} (inside : 8 * c ≤ n)
    (done : KsLoaded hw buffer n c s) :
    KsLoaded hw buffer n (c + 1) (ksReadTurn hw (8 * c) ((n : Int) - (8 * c : Nat)) cont s) := by
  have before : min n (8 * c) = 8 * c := Nat.min_eq_right inside
  have after := ksChunk_sub inside
  have few := ksChunk_le ((n : Int) - (8 * c : Nat))
  generalize chunk : ksChunk ((n : Int) - (8 * c : Nat)) = cnt at after few
  obtain ⟨⟨started, -, touched⟩, loaded⟩ := done
  rw [before] at touched loaded
  rw [ksReadTurn, chunk, KsState.get_eq, KsState.start]
  refine ⟨⟨congrArg (· + 1) started, fun _ => congrArg hw.error started, ?_⟩, ?_⟩
  · change s.touched ++ (List.range cnt).map (8 * c + ·) = _
    rw [← after, List.range_add, touched]
  · funext j
    change (if 8 * c ≤ j ∧ j < 8 * c + cnt then hw.key s.started (j - 8 * c) else s.buffer j) = _
    have here : s.buffer j = if j < 8 * c then hw.key (j / 8) (j % 8) else buffer j :=
      congrFun loaded j
    rw [← after, here, started]
    by_cases low : j < 8 * c
    · rw [if_neg (by omega), if_pos low, if_pos (by omega)]
    by_cases high : j < 8 * c + cnt
    · rw [if_pos ⟨by omega, high⟩, if_pos high, show j / 8 = c by omega, show j % 8 = j - 8 * c by omega]
    · rw [if_neg (by omega), if_neg low, if_neg high]

theorem ksWriteLoop_eq (hw : KsHw) (s : KsState) (fresh : s.Fresh) (n : Nat) :
    ∃ s', ksLoop (ksWriteTurn hw) (n / 8 + 1) 0 n 0 s = some s' ∧
      KsWritten hw s.buffer n ((n - 1) / 8 + 1) s' := by
  have none : min n (8 * 0) = 0 := Nat.min_zero n
  have start : KsWritten hw s.buffer n 0 s := by
    refine ⟨⟨fresh.1, fun some => absurd some (Nat.lt_irrefl 0), ?_⟩, rfl, ?_, ?_⟩
    · rw [none, fresh.2.2, List.range_zero]
    · rw [fresh.2.1, List.length_nil]
    · rw [none, List.take_zero, List.range_zero, List.map_nil]
  exact ksLoop_inv (KsWritten hw s.buffer n) (fun c s cont inside => ksWriteTurn_done inside)
    (c := 0) (Nat.zero_le _) le_rfl start (Nat.zero_le _)

theorem ksReadLoop_eq (hw : KsHw) (s : KsState) (fresh : s.Fresh) (n : Nat) :
    ∃ s', ksLoop (ksReadTurn hw) (n / 8 + 1) 0 n 0 s = some s' ∧
      KsLoaded hw s.buffer n ((n - 1) / 8 + 1) s' := by
  have none : min n (8 * 0) = 0 := Nat.min_zero n
  have start : KsLoaded hw s.buffer n 0 s := by
    refine ⟨⟨fresh.1, fun some => absurd some (Nat.lt_irrefl 0), ?_⟩, ?_⟩
    · rw [none, fresh.2.2, List.range_zero]
    · funext j
      exact (if_neg (by omega)).symm
  exact ksLoop_inv (KsLoaded hw s.buffer n) (fun c s cont inside => ksReadTurn_done inside)
    (c := 0) (Nat.zero_le _) le_rfl start (Nat.zero_le _)

end Chunks

theorem sramCntTbl_eq (mem : KsMem) : ∀ size < 21, ∃ cnt, sramCntTbl[size]? = some cnt ∧
    mem.words size = if cnt = 0 ∨ mem = .otp ∧ cnt > 8 then none else some cnt := by
  intro size inside
  have listed : ∀ size < 21, mem.words size =
      if sramCntTbl.getD size 0 = 0 ∨ mem = .otp ∧ sramCntTbl.getD size 0 > 8 then none
      else some (sramCntTbl.getD size 0) := by
    cases mem <;> decide
  refine ⟨sramCntTbl.getD size 0, ?_, listed size inside⟩
  have here : size < sramCntTbl.length := inside
  rw [List.getD_eq_getElem?_getD, List.getElem?_eq_getElem here, Option.getD_some]

theorem otpCntTbl_eq : ∀ size < 7, otpCntTbl[size]? = KsMem.otp.words size := by decide

theorem otp_words_small : ∀ size < 7, ∃ n, KsMem.otp.words size = some n ∧ 0 < n ∧ n ≤ 8 := by
  intro size inside
  interval_cases size <;> exact ⟨_, rfl, by decide⟩

theorem otp_words_none {size : Nat} (inside : size < 32) (large : 7 ≤ size) :
    KsMem.otp.words size = none := by
  interval_cases size <;> rfl

theorem ksSize_eq (metadata : U32) : ksSize metadata = metadata.toNat / 2 ^ 8 % 2 ^ 5 := by
  rw [ksSize, BitVec.ushiftRight_and_distrib, BitVec.toNat_and, ksMetadataSizePos,
    BitVec.toNat_ushiftRight, Nat.shiftRight_eq_div_pow]
  exact Nat.and_two_pow_sub_one_eq_mod _ 5

theorem ksSize_lt (metadata : U32) : ksSize metadata < 32 := by
  rw [ksSize_eq]
  exact Nat.mod_lt _ (by decide)

theorem ksSize_low (metadata : U32) :
    ((metadata >>> ksMetadataSizePos) &&& 0xf).toNat = ksSize metadata % 16 := by
  have low : ((metadata >>> ksMetadataSizePos) &&& 0xf).toNat = metadata.toNat / 2 ^ 8 % 2 ^ 4 := by
    rw [BitVec.toNat_and, ksMetadataSizePos, BitVec.toNat_ushiftRight, Nat.shiftRight_eq_div_pow]
    exact Nat.and_two_pow_sub_one_eq_mod _ 4
  rw [low, ksSize_eq]
  omega

theorem ksToKeyIdx_nonneg (x : U32) : 0 ≤ (ksToKeyIdx x).toInt := by
  have small : (ksToKeyIdx x).toNat < 2 ^ 31 := by
    have below : x.toNat &&& ksMetadataNumberMsk.toNat ≤ ksMetadataNumberMsk.toNat :=
      Nat.and_le_right
    have mask : ksMetadataNumberMsk.toNat < 2 ^ 31 := by decide
    rw [ksToKeyIdx, BitVec.toNat_ushiftRight, BitVec.toNat_and, Nat.shiftRight_eq_div_pow]
    exact (Nat.div_le_self _ _).trans_lt (below.trans_lt mask)
  rw [BitVec.toInt_eq_toNat_of_lt (by omega)]
  exact Int.natCast_nonneg _

namespace KsCall

variable {hw : KsHw}

theorem shown_iff {s : KsState} {n : Nat} {bad good : Int} (done : KsDone hw n ((n - 1) / 8 + 1) s)
    (failed : bad < 0) (passed : 0 ≤ good) :
    (0 ≤ (if s.eif then bad else good) → ∀ i < s.started, hw.error i = false) ↔ Shown hw n := by
  have last : s.eif = hw.error ((n - 1) / 8) := done.eif (Nat.succ_pos _)
  rw [done.started, last, Shown]
  cases error : hw.error ((n - 1) / 8) with
  | true =>
    refine iff_of_true (fun some => ?_) (.inl rfl)
    exact absurd some (not_le.2 failed)
  | false =>
    rw [if_neg Bool.false_ne_true]
    constructor
    · exact fun none => .inr fun i le => none passed i (Nat.lt_succ_of_le le)
    · rintro (some | none)
      · cases some
      · exact fun _ i less => none i (Nat.le_of_lt_succ less)

theorem law_busy {call : KsCall} (busy : hw.busy = true) : Law hw call := by
  intro s fresh
  refine ⟨s, -1, ?_, fun some => absurd some (by decide), fun _ => ?_, fun idle => ?_⟩
  · cases call <;> exact if_pos busy
  · exact ⟨by decide, fresh.1, rfl, fresh.2.2⟩
  · rw [busy] at idle
    cases idle

theorem law_of_refused {call : KsCall} (unsupported : call.words = none)
    (runs : ∀ s : KsState, s.Fresh → ∃ s', call.run hw s = some (s', -1) ∧ Refused s s' (-1)) :
    Law hw call := by
  intro s fresh
  obtain ⟨s', run, refused⟩ := runs s fresh
  refine ⟨s', -1, run, fun some => absurd some (by decide), fun _ => refused, fun _ n same => ?_⟩
  cases unsupported.symm.trans same

theorem law_iff_shown {call : KsCall} {n : Nat} (bad good : Int) (idle : hw.busy = false)
    (supported : call.words = some n) (failed : bad < 0) (passed : 0 ≤ good)
    (runs : ∀ s : KsState, s.Fresh → ∃ s', call.run hw s = some (s', if s'.eif then bad else good) ∧
      KsDone hw n ((n - 1) / 8 + 1) s' ∧ call.Moved hw s s' n) :
    Law hw call ↔ Shown hw n := by
  constructor
  · intro law
    obtain ⟨s, fresh⟩ := KsState.exists_fresh
    obtain ⟨s', run, done, -⟩ := runs s fresh
    obtain ⟨t, ret, run', errors, -⟩ := law s fresh
    obtain ⟨rfl, rfl⟩ := Prod.mk.inj (Option.some.inj (run.symm.trans run'))
    exact (shown_iff done failed passed).1 errors
  · intro shown s fresh
    obtain ⟨s', run, done, moved⟩ := runs s fresh
    refine ⟨s', _, run, (shown_iff done failed passed).2 shown, ?_, ?_⟩
    · rintro (busy | none)
      · rw [busy] at idle
        cases idle
      · rw [supported] at none
        cases none
    · intro _ m same
      obtain rfl := Option.some.inj (supported.symm.trans same)
      refine ⟨?_, moved⟩
      rw [done.touched, Nat.min_eq_left (by omega)]

theorem law_read_iff {mem : KsMem} {keyIdx wordCnt : U32} (idle : hw.busy = false) :
    Law hw (.read mem keyIdx wordCnt) ↔ Shown hw wordCnt.toNat ∧ wordCnt.toNat < 2 ^ 31 := by
  have run (s : KsState) : (KsCall.read mem keyIdx wordCnt).run hw s =
      (ksLoop (ksReadTurn hw) (wordCnt.toInt.toNat / 8 + 1) 0 wordCnt.toInt 0 { s with
        metadata := mem.toU32 <<< ksMetadataDstPos ||| ksToMetaKey keyIdx
        eif := false }).bind fun s => some (s, if s.eif then -3 else 0) := by
    rw [KsCall.run, ksRead, idle, if_neg Bool.false_ne_true]
    rfl
  by_cases small : wordCnt.toNat < 2 ^ 31
  · have count : wordCnt.toInt = (wordCnt.toNat : Int) :=
      BitVec.toInt_eq_toNat_of_lt (by omega)
    rw [and_iff_left small]
    refine law_iff_shown (-3) 0 idle rfl (by decide) le_rfl fun s fresh => ?_
    obtain ⟨s', loop, loaded⟩ := ksReadLoop_eq hw { s with
      metadata := mem.toU32 <<< ksMetadataDstPos ||| ksToMetaKey keyIdx
      eif := false } fresh wordCnt.toNat
    refine ⟨s', ?_, loaded.toKsDone, ?_⟩
    · rw [run, count, Int.toNat_natCast, loop]
      rfl
    · have all := loaded.loaded
      rw [Nat.min_eq_left (by omega)] at all
      exact all
  · -- The count is negative, and nothing is read, or it overflows.
    refine iff_of_false (fun law => ?_) fun both => small both.2
    have negative : wordCnt.toInt < 0 := by
      rw [BitVec.toInt_eq_toNat_cond, if_neg (by omega)]
      have below := wordCnt.isLt
      omega
    obtain ⟨s, fresh⟩ := KsState.exists_fresh
    obtain ⟨s', ret, ran, -, -, moved⟩ := law s fresh
    have touched := (moved idle _ rfl).1
    have none : ksChunk wordCnt.toInt = 0 := by
      rw [ksChunk, if_neg (by omega)]
      omega
    have loop (s : KsState) : ksLoop (ksReadTurn hw) (wordCnt.toInt.toNat / 8 + 1) 0 wordCnt.toInt 0 s =
        if wordCnt.toInt - 8 < -2 ^ 31 then .none
        else .some (ksReadTurn hw 0 wordCnt.toInt 0 s) := by
      have turns : wordCnt.toInt.toNat / 8 = 0 := by omega
      rw [turns, ksLoop, if_neg (show ¬wordCnt.toInt - 8 > 0 by omega)]
    rw [run, loop] at ran
    split_ifs at ran with overflows
    · cases ran
    cases ran
    rw [ksReadTurn, none, KsState.get_eq, fresh.2.2] at touched
    have some := congrArg List.length touched
    rw [List.length_range] at some
    exact absurd some (by change (0 : Nat) ≠ _; omega)

theorem law_write_iff {mem : KsMem} {metadata : U32} (idle : hw.busy = false) :
    Law hw (.write mem metadata) ↔
      (∀ n, mem.words (ksSize metadata) = some n → Shown hw n) ∧ ksSize metadata < 21 := by
  have run (s : KsState) : (KsCall.write mem metadata).run hw s =
      sramCntTbl[ksSize metadata]?.bind fun cnt =>
        if cnt = 0 then
          some ({ s with metadata := mem.toU32 <<< ksMetadataDstPos ||| metadata }, -1)
        else if mem = .otp ∧ cnt > 8 then
          some ({ s with metadata := mem.toU32 <<< ksMetadataDstPos ||| metadata }, -1)
        else
          (ksLoop (ksWriteTurn hw) (cnt / 8 + 1) 0 cnt 0 { s with
            metadata := mem.toU32 <<< ksMetadataDstPos ||| metadata
            eif := false }).bind fun s =>
            some (s, if s.eif then -3 else (ksToKeyIdx hw.metadata).toInt) := by
    rw [KsCall.run, ksWrite, idle, if_neg Bool.false_ne_true]
    rfl
  by_cases inside : ksSize metadata < 21
  · rw [and_iff_left inside]
    obtain ⟨cnt, count, words⟩ := sramCntTbl_eq mem _ inside
    rw [count] at run
    by_cases refused : cnt = 0 ∨ mem = .otp ∧ cnt > 8
    · rw [if_pos refused] at words
      refine iff_of_true (law_of_refused words fun s fresh => ?_) fun n same => ?_
      · refine ⟨{ s with metadata := mem.toU32 <<< ksMetadataDstPos ||| metadata }, ?_,
          by decide, fresh.1, rfl, fresh.2.2⟩
        rw [run, Option.bind_some]
        rcases refused with zero | large
        · exact if_pos zero
        · rw [if_pos large]
          exact ite_self _
      · cases words.symm.trans same
    · rw [if_neg refused] at words
      rw [words]
      have shown : Law hw (.write mem metadata) ↔ Shown hw cnt := by
        refine law_iff_shown (-3) (ksToKeyIdx hw.metadata).toInt idle words
          (by decide) (ksToKeyIdx_nonneg _) fun s fresh => ?_
        obtain ⟨s', loop, written⟩ := ksWriteLoop_eq hw { s with
          metadata := mem.toU32 <<< ksMetadataDstPos ||| metadata
          eif := false } fresh cnt
        refine ⟨s', ?_, written.toKsDone, written.kept, ?_⟩
        · rw [run, Option.bind_some, if_neg fun zero => refused (.inl zero),
            if_neg fun large => refused (.inr large), loop]
          rfl
        · have all := written.taken
          rw [Nat.min_eq_left (by omega)] at all
          exact all
      rw [shown]
      exact ⟨fun shown n same => Option.some.inj same ▸ shown, fun all => all _ rfl⟩
  · refine iff_of_false (fun law => ?_) fun both => inside both.2
    obtain ⟨s, fresh⟩ := KsState.exists_fresh
    obtain ⟨s', ret, ran, -⟩ := law s fresh
    have behind : sramCntTbl[ksSize metadata]? = none :=
      List.getElem?_eq_none (Nat.le_of_not_lt inside)
    rw [run, behind] at ran
    cases ran

theorem writeOtp_run {keyIdx metadata : U32} (idle : hw.busy = false) (s : KsState) :
    (KsCall.writeOtp keyIdx metadata).run hw s =
      if ksSize metadata % 16 ≥ 7 then
        some ({ s with
          metadata := KsMem.otp.toU32 <<< ksMetadataDstPos ||| metadata ||| ksToMetaKey keyIdx }, -1)
      else otpCntTbl[ksSize metadata % 16]?.bind fun cnt =>
        (ksLoop (ksWriteTurn hw) (cnt / 8 + 1) 0 cnt 0 { s with
          metadata := KsMem.otp.toU32 <<< ksMetadataDstPos ||| metadata ||| ksToMetaKey keyIdx
          eif := false }).bind fun s => some (s, if s.eif then -1 else keyIdx.toInt) := by
  rw [KsCall.run, ksWriteOtp, idle, if_neg Bool.false_ne_true, ksSize_low]
  rfl

theorem writeOtp_written {keyIdx metadata : U32} {n : Nat} {s : KsState} (idle : hw.busy = false)
    (listed : ksSize metadata % 16 < 7) (count : KsMem.otp.words (ksSize metadata % 16) = some n)
    (few : n ≤ 8) (fresh : s.Fresh) :
    ∃ s', (KsCall.writeOtp keyIdx metadata).run hw s =
        some (s', if s'.eif then -1 else keyIdx.toInt) ∧ KsWritten hw s.buffer n 1 s' := by
  obtain ⟨s', loop, written⟩ := ksWriteLoop_eq hw { s with
    metadata := KsMem.otp.toU32 <<< ksMetadataDstPos ||| metadata ||| ksToMetaKey keyIdx
    eif := false } fresh n
  rw [show (n - 1) / 8 + 1 = 1 by omega] at written
  refine ⟨s', ?_, written⟩
  rw [writeOtp_run idle, if_neg (by omega), otpCntTbl_eq _ listed, count, Option.bind_some, loop]
  rfl

theorem law_writeOtp {keyIdx metadata : U32} (idle : hw.busy = false) (listed : ksSize metadata < 7) :
    Law hw (.writeOtp keyIdx metadata) := by
  intro s fresh
  obtain ⟨n, count, some, few⟩ := otp_words_small _ listed
  have low : ksSize metadata % 16 = ksSize metadata := Nat.mod_eq_of_lt (by omega)
  obtain ⟨s', ran, written⟩ := writeOtp_written idle (by rwa [low])
    (by rwa [low]) few fresh
  have first : s'.eif = hw.error 0 := written.eif Nat.one_pos
  refine ⟨s', _, ran, fun passed i less => ?_, ?_, fun _ m same => ?_⟩
  · rw [written.started] at less
    obtain rfl : i = 0 := by omega
    cases error : hw.error 0 with
    | false => rfl
    | true =>
      rw [first, error, if_pos rfl] at passed
      exact absurd passed (by decide)
  · rintro (busy | none)
    · rw [busy] at idle
      cases idle
    · cases none.symm.trans count
  · obtain rfl := Option.some.inj (count.symm.trans same)
    have all := written.taken
    have touched := written.touched
    rw [Nat.min_eq_left (by omega)] at all touched
    exact ⟨touched, written.kept, all⟩

theorem not_law_writeOtp {keyIdx metadata : U32} (idle : hw.busy = false)
    (high : 16 ≤ ksSize metadata) (listed : ksSize metadata < 23) :
    ¬Law hw (.writeOtp keyIdx metadata) := by
  intro law
  obtain ⟨s, fresh⟩ := KsState.exists_fresh
  have low : ksSize metadata % 16 < 7 := by omega
  obtain ⟨n, count, -, few⟩ := otp_words_small _ low
  obtain ⟨s', ran, written⟩ := writeOtp_written idle low count few fresh
  obtain ⟨t, ret, ran', -, refuses, -⟩ := law s fresh
  obtain ⟨rfl, -⟩ := Prod.mk.inj (Option.some.inj (ran.symm.trans ran'))
  have none : KsMem.otp.words (ksSize metadata) = none :=
    otp_words_none (ksSize_lt metadata) (by omega)
  have refused := (refuses (.inr none)).2.1
  rw [written.started] at refused
  cases refused

theorem law_writeOtp_iff {keyIdx metadata : U32} (idle : hw.busy = false) :
    Law hw (.writeOtp keyIdx metadata) ↔ ¬(16 ≤ ksSize metadata ∧ ksSize metadata < 23) := by
  have bound := ksSize_lt metadata
  by_cases listed : ksSize metadata < 7
  · exact iff_of_true (law_writeOtp idle listed) fun apart => by omega
  by_cases apart : 16 ≤ ksSize metadata ∧ ksSize metadata < 23
  · exact iff_of_false (not_law_writeOtp idle apart.1 apart.2) (not_not.2 apart)
  · refine iff_of_true (law_of_refused (otp_words_none bound (Nat.le_of_not_lt listed))
      fun s fresh => ?_) apart
    exact ⟨_, (writeOtp_run idle s).trans (if_pos (by omega)), by decide, fresh.1, rfl, fresh.2.2⟩

end KsCall

/-- For every call and everything that the key store answers, the words of the key are moved with no
error lost, and what is not supported is refused, just when no error is followed by a chunk without
one, and the count and the size field are among those that are checked. -/
theorem ks_transfer_iff (hw : KsHw) (call : KsCall) : KsCall.Law hw call ↔ KsCall.Kept hw call := by
  cases busy : hw.busy with
  | true => exact iff_of_true (KsCall.law_busy busy) (.inl busy)
  | false =>
    have free : ¬hw.busy = true := by rw [busy]; exact Bool.false_ne_true
    unfold KsCall.Kept
    rw [or_iff_right free]
    cases call with
    | read mem keyIdx wordCnt =>
      rw [KsCall.law_read_iff busy]
      exact and_congr_left' ⟨fun shown n same => Option.some.inj same ▸ shown, fun all => all _ rfl⟩
    | write mem metadata => exact KsCall.law_write_iff busy
    | writeOtp keyIdx metadata =>
      rw [KsCall.law_writeOtp_iff busy]
      refine (and_iff_right fun n same => ?_).symm
      -- A key of the one-time memory is one chunk.
      have size := ksSize_lt metadata
      have one : (n - 1) / 8 = 0 := by
        by_cases listed : ksSize metadata < 7
        · obtain ⟨m, count, -, few⟩ := otp_words_small _ listed
          obtain rfl := Option.some.inj (count.symm.trans same)
          omega
        · cases (otp_words_none size (Nat.le_of_not_lt listed)).symm.trans same
      rw [KsCall.Shown, one]
      cases error : hw.error 0 with
      | true => exact .inl rfl
      | false => exact .inr fun i le => by rw [Nat.le_zero.1 le, error]

/-- A key of 512 bits is written, and the first of its two chunks has an error. -/
theorem earlyError_lost : ¬KsCall.Law ⟨false, fun i => decide (i = 0), fun _ _ => 0, 0⟩
    (.write .sram (10 <<< 8)) := by
  rw [KsCall.law_write_iff rfl]
  rintro ⟨shown, -⟩
  rcases shown 16 (by decide) with last | none
  · exact absurd last (by decide)
  · exact absurd (none 0 (by decide)) (by decide)

end NuMakerMA35
