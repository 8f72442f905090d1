import NuMakerMA35.NuWriterProgram
import Mathlib.Data.List.Perm.Subperm

namespace NuMakerMA35

open Words

def crc32Tops : List Nat := crc32Tab.map fun w => w.toNat / 2 ^ 24

/-- Which numbers are in a list. -/
def marked (ts : List Nat) : Nat := ts.foldr (fun t marks => marks ||| 2 ^ t) 0

theorem mem_of_marked {ts : List Nat} {t : Nat} (h : (marked ts).testBit t = true) : t ∈ ts := by
  induction ts with
  | nil =>
    rw [marked, List.foldr_nil, Nat.zero_testBit] at h
    cases h
  | cons head ts ih =>
    rw [marked, List.foldr_cons, Nat.testBit_or, Bool.or_eq_true] at h
    rcases h with later | here
    · exact List.mem_cons_of_mem _ (ih later)
    · rw [Nat.testBit_two_pow, decide_eq_true_eq] at here
      exact here ▸ List.mem_cons_self

theorem crc32Tab_length : crc32Tab.length = 256 := by decide +kernel

theorem crc32Tops_nodup : crc32Tops.Nodup := by
  have all : marked crc32Tops = 2 ^ 256 - 1 := by decide +kernel
  have within : List.range 256 ⊆ crc32Tops := by
    intro t ht
    apply mem_of_marked
    rw [all, Nat.testBit_two_pow_sub_one]
    exact decide_eq_true (List.mem_range.mp ht)
  have long : crc32Tops.length ≤ (List.range 256).length := by
    rw [List.length_range, crc32Tops, List.length_map, crc32Tab_length]
  have same := (List.subperm_of_subset List.nodup_range within).perm_of_length_le long
  exact same.nodup List.nodup_range

theorem crc32Tab_inj {i j : Nat} (hi : i < 256) (hj : j < 256)
    (same : (crc32Tab.getD i 0).toNat / 2 ^ 24 = (crc32Tab.getD j 0).toNat / 2 ^ 24) : i = j := by
  have long := crc32Tab_length
  have size : crc32Tops.length = crc32Tab.length := List.length_map _
  have topI : i < crc32Tops.length := by omega
  have topJ : j < crc32Tops.length := by omega
  have tops : crc32Tops[i] = crc32Tops[j] := by
    simp only [crc32Tops, List.getElem_map]
    rwa [List.getD_eq_getElem _ _ (by omega), List.getD_eq_getElem _ _ (by omega)] at same
  exact crc32Tops_nodup.getElem_inj_iff.mp tops

theorem crc32Byte_parts {crc crc' : U32} {d d' : BitVec 8}
    (same : crc32Byte crc d = crc32Byte crc' d') :
    (crc ^^^ d.setWidth 32) &&& 0xFF = (crc' ^^^ d'.setWidth 32) &&& 0xFF ∧ crc >>> 8 = crc' >>> 8 := by
  have top : ∀ c : U32, (c >>> 8) >>> 24 = 0#32 := by
    intro c
    rw [← BitVec.shiftRight_add]
    exact BitVec.ushiftRight_eq_zero (le_refl _)
  have low : ∀ c : U32, (c &&& 0xFF).toNat < 256 := by
    intro c
    rw [BitVec.toNat_and]
    exact Nat.lt_succ_of_le Nat.and_le_right
  have index : (crc ^^^ d.setWidth 32) &&& 0xFF = (crc' ^^^ d'.setWidth 32) &&& 0xFF := by
    apply BitVec.eq_of_toNat_eq
    apply crc32Tab_inj (low _) (low _)
    have shifted := congrArg (fun w : U32 => w >>> 24) same
    simp only [crc32Byte, BitVec.ushiftRight_xor_distrib, top, BitVec.xor_zero] at shifted
    have values := congrArg BitVec.toNat shifted
    simp only [BitVec.toNat_ushiftRight, Nat.shiftRight_eq_div_pow] at values
    exact values
  refine ⟨index, ?_⟩
  unfold crc32Byte at same
  rw [index] at same
  exact (BitVec.xor_right_inj _).mp same

theorem lowByte_bit : ∀ i, i < 8 → (0xFF : U32).getLsbD i = true := by decide

theorem crc32Byte_left_inj {crc crc' : U32} {d : BitVec 8} :
    crc32Byte crc d = crc32Byte crc' d ↔ crc = crc' := by
  refine ⟨fun same => ?_, fun same => by rw [same]⟩
  obtain ⟨low, high⟩ := crc32Byte_parts same
  apply BitVec.eq_of_getLsbD_eq
  intro i hi
  by_cases lowest : i < 8
  · have bits := congrArg (fun w : U32 => w.getLsbD i) low
    have mask := lowByte_bit i lowest
    simpa only [BitVec.getLsbD_and, BitVec.getLsbD_xor, mask, Bool.and_true,
      Bool.xor_left_inj] using bits
  · have bits := congrArg (fun w : U32 => w.getLsbD (i - 8)) high
    simpa only [BitVec.getLsbD_ushiftRight, show 8 + (i - 8) = i by omega] using bits

theorem crc32Byte_right_inj {crc : U32} {d d' : BitVec 8} :
    crc32Byte crc d = crc32Byte crc d' ↔ d = d' := by
  refine ⟨fun same => ?_, fun same => by rw [same]⟩
  obtain ⟨low, -⟩ := crc32Byte_parts same
  apply BitVec.eq_of_getLsbD_eq
  intro i hi
  have bits := congrArg (fun w : U32 => w.getLsbD i) low
  have mask := lowByte_bit i hi
  simpa only [BitVec.getLsbD_and, BitVec.getLsbD_xor, mask, Bool.and_true, Bool.xor_right_inj,
    BitVec.getLsbD_setWidth, show i < 32 by omega, decide_true, Bool.true_and] using bits

theorem crc32_bytes_ne {xs ys : List (BitVec 8)} {d d' : BitVec 8} (other : d ≠ d') (crc : U32) :
    (xs ++ d :: ys).foldl crc32Byte crc ≠ (xs ++ d' :: ys).foldl crc32Byte crc := by
  have rest : ∀ (ys : List (BitVec 8)) (c c' : U32),
      ys.foldl crc32Byte c = ys.foldl crc32Byte c' → c = c' := by
    intro ys
    induction ys with
    | nil => exact fun c c' same => same
    | cons y ys ih => exact fun c c' same => crc32Byte_left_inj.mp (ih _ _ same)
  intro same
  rw [List.foldl_append, List.foldl_append, List.foldl_cons, List.foldl_cons] at same
  exact other (crc32Byte_right_inj.mp (rest _ _ _ same))

theorem crc32Word_read {mem : Mem} {a : Nat} {crc : U32} : crc32Word crc (read32 mem a) =
    [mem a, mem (a + 1), mem (a + 2), mem (a + 3)].foldl crc32Byte crc := by
  have steps : ∀ is : List Nat, (∀ i ∈ is, i < 4) → ∀ c : U32,
      is.foldl (fun c i => crc32Byte c ((read32 mem a).extractLsb' (i * 8) 8)) c =
        (is.map fun i => mem (a + i)).foldl crc32Byte c := by
    intro is
    induction is with
    | nil => exact fun _ c => rfl
    | cons i is ih =>
      intro small c
      rw [List.foldl_cons, List.map_cons, List.foldl_cons, read32_byte (small i List.mem_cons_self)]
      exact ih (fun j hj => small j (List.mem_cons_of_mem _ hj)) _
  exact steps (List.range 4) (fun i hi => List.mem_range.mp hi) crc

theorem crc32Word_update {mem : Mem} {a j : Nat} {v : BitVec 8} (h : j < 4) (other : v ≠ mem (a + j))
    (crc : U32) :
    crc32Word crc (read32 (Function.update mem (a + j) v) a) ≠ crc32Word crc (read32 mem a) := by
  have here : Function.update mem (a + j) v (a + j) = v := Function.update_self ..
  have beside : ∀ i, i ≠ j → Function.update mem (a + j) v (a + i) = mem (a + i) :=
    fun i hi => Function.update_of_ne (by omega) _ _
  rw [crc32Word_read, crc32Word_read]
  obtain rfl | rfl | rfl | rfl : j = 0 ∨ j = 1 ∨ j = 2 ∨ j = 3 := by omega
  · have first : Function.update mem (a + 0) v a = v := here
    rw [first, beside 1 (by omega), beside 2 (by omega), beside 3 (by omega)]
    exact @crc32_bytes_ne [] _ _ _ other crc
  · have first : Function.update mem (a + 1) v a = mem a := beside 0 (by omega)
    rw [first, here, beside 2 (by omega), beside 3 (by omega)]
    exact @crc32_bytes_ne [_] _ _ _ other crc
  · have first : Function.update mem (a + 2) v a = mem a := beside 0 (by omega)
    rw [first, beside 1 (by omega), here, beside 3 (by omega)]
    exact @crc32_bytes_ne [_, _] _ _ _ other crc
  · have first : Function.update mem (a + 3) v a = mem a := beside 0 (by omega)
    rw [first, beside 1 (by omega), beside 2 (by omega), here]
    exact @crc32_bytes_ne [_, _, _] _ _ _ other crc

theorem read32_update_ne {mem : Mem} {a j : Nat} {v : BitVec 8} (h : j < 4)
    (other : v ≠ mem (a + j)) : read32 (Function.update mem (a + j) v) a ≠ read32 mem a :=
  fun same => crc32Word_update h other 0 (congrArg (crc32Word 0) same)

theorem byte_other (b : BitVec 8) : ∃ v, v ≠ b := by
  refine ⟨b + 1, fun same => ?_⟩
  have values := congrArg BitVec.toNat same
  have one : (1 : BitVec 8).toNat = 1 := rfl
  have bound := b.isLt
  rw [BitVec.toNat_add] at values
  omega

end NuMakerMA35
