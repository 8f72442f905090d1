import NuMakerMA35.EhciIso
import Mathlib.Data.Nat.Prime.Basic

namespace NuMakerMA35

inductive HlinkType where
  | itd
  | qh
  | sitd
  deriving DecidableEq

def HlinkType.link (kind : HlinkType) (a : U32) : U32 :=
  match kind with
  | .itd => itdHlnkItd a
  | .qh => qhHlnkQh a
  | .sitd => sitdHlnkSitd a

inductive FrameChain (s : EhciIso) : U32 → List (HlinkType × U32) → Prop where
  | ends {hlink : U32} (last : hlink = 0 ∨ hlinkIsTerminated hlink = true) : FrameChain s hlink []
  | next {kind : HlinkType} {a : U32} {rest : List (HlinkType × U32)} (aligned : a &&& 0x1f = 0)
      (some : a ≠ 0) (chain : FrameChain s (s.nextLink a) rest) :
      FrameChain s (kind.link a) ((kind, a) :: rest)

def sMask (sched : U32) : BitVec 8 := sched.setWidth 8

def cMask (sched : U32) : BitVec 8 := (sched >>> 8).setWidth 8

/-- Both masks can go so many microframes later: they stay within their bytes, and the start splits
keep clear of those of the other descriptors. -/
structure ShiftFits (s : EhciIso) (nodes : List (HlinkType × U32)) (sched : U32) (k : Nat) : Prop where
  sMask : (sMask sched).toNat * 2 ^ k < 256
  cMask : (cMask sched).toNat * 2 ^ k < 256
  some : NuMakerMA35.sMask sched ≠ 0
  clear : ∀ a, (HlinkType.sitd, a) ∈ nodes →
    NuMakerMA35.sMask sched <<< k &&& NuMakerMA35.sMask (s.sitds a).sched = 0

/-- The microframes of the first element, where it is a descriptor of a split transfer. -/
def headUframes (s : EhciIso) : List (HlinkType × U32) → BitVec 8
  | (.sitd, a) :: _ => ((s.sitds a).uframes).setWidth 8
  | _ => 0

def Avoids (busy : BitVec 8) (sched : U32) (k : Nat) : Prop :=
  sMask sched <<< k &&& busy = 0 ∧ cMask sched <<< k &&& busy = 0

def FirstShiftFits (s : EhciIso) (nodes : List (HlinkType × U32)) (sched : U32) : Prop :=
  ∃ k, ShiftFits s nodes sched k ∧ Avoids (headUframes s nodes) sched k ∧
    ∀ j < k, ¬Avoids (headUframes s nodes) sched j

/-- What the schedule of a descriptor should be: its masks, shifted so that they fit; where no shift
fits, it is not in the frame. -/
def Adjusted (s t : EhciIso) (nodes : List (HlinkType × U32)) (sitd : U32) (sched : U32) (frame : Nat) :
    Prop :=
  (∃ k, ShiftFits s nodes sched k ∧
    (sMask (t.sitds sitd).sched).toNat = (sMask sched).toNat * 2 ^ k ∧
      (cMask (t.sitds sitd).sched).toNat = (cMask sched).toNat * 2 ^ k) ∨
    (¬∃ k, ShiftFits s nodes sched k) ∧ t.pfList frame ≠ sitdHlnkSitd sitd

section Links

variable {a x : U32} {kind : HlinkType}

theorem and_not_of_aligned (aligned : a &&& 0x1f = 0) : a &&& ~~~0x1f = a := by
  have whole : a &&& (0x1f ||| ~~~0x1f) = a := by
    have all : (0x1f ||| ~~~0x1f : U32) = BitVec.allOnes 32 := by decide
    rw [all, BitVec.and_allOnes]
  rw [BitVec.and_or_distrib_left, aligned] at whole
  simpa using whole

theorem sitdPtr_sitdHlnkSitd (aligned : a &&& 0x1f = 0) : sitdPtr (sitdHlnkSitd a) = a := by
  have type : (0x4 : U32) &&& ~~~0x1f = 0 := by decide
  unfold sitdPtr sitdHlnkSitd
  rw [and_not_of_aligned aligned, BitVec.and_comm, BitVec.and_or_distrib_left, BitVec.and_comm,
    and_not_of_aligned aligned, BitVec.and_comm, type]
  simp

theorem link_low (aligned : a &&& 0x1f = 0) (mask : U32) (low : mask &&& 0x1f = mask) :
    kind.link a &&& mask = kind.link 0 &&& mask := by
  have none : a &&& mask = 0 := by
    rw [← low, BitVec.and_comm mask, ← BitVec.and_assoc, aligned]
    simp
  have split (t : U32) : (a &&& ~~~0x1f ||| t) &&& mask = t &&& mask := by
    rw [and_not_of_aligned aligned, BitVec.and_comm, BitVec.and_or_distrib_left, BitVec.and_comm, none,
      BitVec.and_comm mask]
    simp
  have zero (t : U32) : ((0 : U32) &&& ~~~0x1f ||| t) = t := by simp
  cases kind
  · exact (split 0).trans (congrArg (· &&& mask) (zero 0).symm)
  · exact (split 2).trans (congrArg (· &&& mask) (zero 2).symm)
  · exact (split 4).trans (congrArg (· &&& mask) (zero 4).symm)

theorem link_isSitd (aligned : a &&& 0x1f = 0) : hlinkIsSitd (kind.link a) = decide (kind = .sitd) := by
  unfold hlinkIsSitd
  rw [link_low aligned 0x6 (by decide)]
  cases kind <;> decide

theorem link_terminated (aligned : a &&& 0x1f = 0) : hlinkIsTerminated (kind.link a) = false := by
  unfold hlinkIsTerminated
  rw [link_low aligned 0x1 (by decide)]
  cases kind <;> decide

theorem sitdPtr_isSitd : hlinkIsSitd (sitdPtr x) = false := by
  have none : (~~~0x1f : U32) &&& 0x6 = 0 := by decide
  unfold hlinkIsSitd sitdPtr
  rw [BitVec.and_assoc, none]
  simp

end Links

section Walk

variable {s : EhciIso} {sitd hlink mask : U32} {nodes : List (HlinkType × U32)} {n turns : Nat}

theorem uframes_byte (d : Sitd) : (d.uframes.setWidth 8).setWidth 32 = d.uframes := by
  have byte (x : U32) : ((x &&& 0xff).setWidth 8).setWidth 32 = x &&& 0xff := by
    apply BitVec.eq_of_toNat_eq
    have low : (x &&& 0xff).toNat < 256 := by
      rw [BitVec.toNat_and]
      exact Nat.lt_of_le_of_lt Nat.and_le_right (by decide)
    rw [BitVec.toNat_setWidth, BitVec.toNat_setWidth, Nat.mod_eq_of_lt (by omega), Nat.mod_eq_of_lt low]
  unfold Sitd.uframes
  split_ifs
  · rw [BitVec.setWidth_or, BitVec.setWidth_or, byte, byte]
  · exact byte _

theorem uframeMask_stops (stops : ¬(hlink ≠ 0 ∧ hlinkIsTerminated hlink = false ∧ hlinkIsSitd hlink)) :
    s.uframeMask sitd (n + 1) hlink mask = some mask := by
  unfold EhciIso.uframeMask
  exact if_neg stops

theorem uframeMask_chain (chain : FrameChain s hlink nodes) (new : (HlinkType.sitd, sitd) ∉ nodes)
    (enough : 2 ≤ turns) :
    s.uframeMask sitd turns hlink 0 = some ((headUframes s nodes).setWidth 32) := by
  obtain ⟨n, rfl⟩ : ∃ n, turns = n + 2 := ⟨turns - 2, by omega⟩
  cases chain with
  | ends last =>
    rw [uframeMask_stops]
    · rfl
    · rintro ⟨some, goes, -⟩
      rcases last with none | last
      · exact some none
      · rw [last] at goes
        cases goes
  | @next kind a rest aligned some chain =>
    have type : hlinkIsSitd (kind.link a) = decide (kind = .sitd) := link_isSitd aligned
    cases kind with
    | itd =>
      rw [uframeMask_stops]
      · rfl
      · rintro ⟨-, -, isSitd⟩
        rw [type] at isSitd
        cases isSitd
    | qh =>
      rw [uframeMask_stops]
      · rfl
      · rintro ⟨-, -, isSitd⟩
        rw [type] at isSitd
        cases isSitd
    | sitd =>
      have other : a ≠ sitd := by
        rintro rfl
        exact new List.mem_cons_self
      have here : sitdPtr (HlinkType.sitd.link a) = a := sitdPtr_sitdHlnkSitd aligned
      have isLink : HlinkType.sitd.link a ≠ 0 := by
        intro zero
        rw [zero] at here
        exact some here.symm
      unfold EhciIso.uframeMask
      rw [if_pos ⟨isLink, link_terminated aligned, type⟩]
      dsimp only
      rw [here, if_pos other, uframeMask_stops]
      · rw [show (0 : U32) ||| (s.sitds a).uframes = (s.sitds a).uframes by simp]
        exact congrArg Option.some (uframes_byte _).symm
      · rintro ⟨-, -, isSitd⟩
        rw [sitdPtr_isSitd] at isSitd
        cases isSitd

end Walk

section Shift

variable {busy : BitVec 8} {sched x : U32} {j k n : Nat}

def half (x : U32) : BitVec 16 := x.setWidth 16

def bothMask (busy : BitVec 8) : U32 := busy.setWidth 32 ||| busy.setWidth 32 <<< 8

theorem half_and : x &&& bothMask busy = 0 ↔ half x &&& half (bothMask busy) = 0 := by
  unfold half bothMask
  constructor
  · intro none
    rw [← BitVec.setWidth_and, none]
    rfl
  · intro none
    apply BitVec.eq_of_getLsbD_eq
    intro i inside
    by_cases low : i < 16
    · have bit := congrArg (fun w => w.getLsbD i) none
      simpa [low, inside, show i - 8 < 32 by omega] using bit
    · have first : busy.getLsbD i = false := BitVec.getLsbD_of_ge _ _ (by omega)
      have second : busy.getLsbD (i - 8) = false := BitVec.getLsbD_of_ge _ _ (by omega)
      simp [first, second]

theorem half_shift : half (x &&& (0xffff0000 : U32) ||| x <<< 1 &&& (0xffff : U32)) = half x <<< 1 := by
  have high : (0xffff0000 : U32).setWidth 16 = (0 : BitVec 16) := by decide
  have low : (0xffff : U32).setWidth 16 = BitVec.allOnes 16 := by decide
  have shift : (x <<< 1).setWidth 16 = (x.setWidth 16 : BitVec 16) <<< 1 :=
    BitVec.setWidth_shiftLeft_of_le (by decide)
  unfold half
  rw [BitVec.setWidth_or, BitVec.setWidth_and, BitVec.setWidth_and, high, low, BitVec.and_allOnes, shift]
  simp

theorem shiftSched_spec (busy : BitVec 8) (gone : half sched <<< n = 0) :
    ∃ (k : Nat) (out : U32), shiftSched (bothMask busy) (n + 1) sched = some out ∧ half out = half sched <<< k ∧
      half sched <<< k &&& half (bothMask busy) = 0 ∧
        ∀ j < k, half sched <<< j &&& half (bothMask busy) ≠ 0 := by
  induction n generalizing sched with
  | zero =>
    have clear : half sched &&& half (bothMask busy) = 0 := by
      have none : half sched = 0 := by simpa using gone
      rw [none]
      simp
    refine ⟨0, sched, ?_, by simp, by simpa using clear, fun j low => absurd low (Nat.not_lt_zero j)⟩
    unfold shiftSched
    exact if_neg (not_not.mpr (half_and.mpr clear))
  | succ n ih =>
    by_cases clear : half sched &&& half (bothMask busy) = 0
    · refine ⟨0, sched, ?_, by simp, by simpa using clear, fun j low => absurd low (Nat.not_lt_zero j)⟩
      unfold shiftSched
      exact if_neg (not_not.mpr (half_and.mpr clear))
    · have later : half (sched &&& (0xffff0000 : U32) ||| sched <<< 1 &&& (0xffff : U32)) <<< n = 0 := by
        rw [half_shift, ← BitVec.shiftLeft_add, Nat.add_comm]
        exact gone
      obtain ⟨k, out, found, same, free, first⟩ := ih later
      rw [half_shift, ← BitVec.shiftLeft_add, Nat.add_comm] at same free
      refine ⟨k + 1, out, ?_, same, free, ?_⟩
      · unfold shiftSched
        rw [if_pos (mt half_and.mp clear)]
        exact found
      · intro j low
        cases j with
        | zero => simpa using clear
        | succ j =>
          have here := first j (by omega)
          rw [half_shift, ← BitVec.shiftLeft_add, Nat.add_comm] at here
          exact here

theorem append_toNat (c d : BitVec 8) : (c ++ d).toNat = c.toNat * 256 + d.toNat := by
  rw [BitVec.toNat_append, ← Nat.shiftLeft_add_eq_or_of_lt d.isLt, Nat.shiftLeft_eq]

theorem half_append (x : U32) : half x = cMask x ++ sMask x := by
  apply BitVec.eq_of_getLsbD_eq
  intro i inside
  unfold half cMask sMask
  rw [BitVec.getLsbD_append]
  by_cases low : i < 8
  · simp [low, inside]
  · simp [low, inside, show i - 8 < 8 by omega, show 8 + (i - 8) = i by omega]

theorem half_bothMask (busy : BitVec 8) : half (bothMask busy) = busy ++ busy := by
  apply BitVec.eq_of_getLsbD_eq
  intro i inside
  unfold half bothMask
  rw [BitVec.getLsbD_append]
  by_cases low : i < 8
  · simp [low, inside]
  · have none : busy.getLsbD i = false := BitVec.getLsbD_of_ge _ _ (by omega)
    simp [low, inside, none]

theorem half_shiftLeft (inside : (sMask x).toNat * 2 ^ k < 256) :
    half x <<< k = (cMask x <<< k) ++ (sMask x <<< k) := by
  rw [half_append]
  apply BitVec.eq_of_toNat_eq
  rw [BitVec.toNat_shiftLeft, append_toNat, append_toNat, BitVec.toNat_shiftLeft, BitVec.toNat_shiftLeft,
    Nat.shiftLeft_eq, Nat.shiftLeft_eq, Nat.shiftLeft_eq, Nat.add_mul, Nat.mul_right_comm]
  generalize (cMask x).toNat * 2 ^ k = late
  generalize (sMask x).toNat * 2 ^ k = early at inside ⊢
  omega

theorem clear_iff (inside : (sMask x).toNat * 2 ^ k < 256) :
    half x <<< k &&& half (bothMask busy) = 0 ↔ Avoids busy x k := by
  rw [half_shiftLeft inside, half_bothMask, BitVec.and_append]
  unfold Avoids
  constructor
  · intro none
    have sum := append_toNat (cMask x <<< k &&& busy) (sMask x <<< k &&& busy)
    rw [none, show (0 : BitVec (8 + 8)).toNat = 0 from rfl] at sum
    have second : (sMask x <<< k &&& busy).toNat = 0 := by omega
    have first : (cMask x <<< k &&& busy).toNat = 0 := by omega
    exact ⟨BitVec.eq_of_toNat_eq second, BitVec.eq_of_toNat_eq first⟩
  · rintro ⟨first, second⟩
    rw [first, second]
    rfl

theorem sMask_eq (x : U32) : sMask x = (half x).setWidth 8 := by
  unfold sMask half
  rw [BitVec.setWidth_setWidth_of_le _ (by decide)]

theorem cMask_of_half {c d : BitVec 8} (same : half x = c ++ d) : cMask x = c := by
  have number := congrArg BitVec.toNat ((half_append x).symm.trans same)
  rw [append_toNat, append_toNat] at number
  have first := (sMask x).isLt
  have second := d.isLt
  exact BitVec.eq_of_toNat_eq (by omega)

theorem shift_unique {a m n : Nat} (some : 0 < a * 2 ^ m) (same : a * 2 ^ m = a * 2 ^ n % 256)
    (inside : a * 2 ^ m < 256) : m = n := by
  rcases Nat.lt_trichotomy m n with less | equal | more
  · obtain ⟨d, rfl⟩ : ∃ d, n = m + (d + 1) := ⟨n - m - 1, by omega⟩
    have power : 0 < 2 ^ d := Nat.two_pow_pos d
    rw [Nat.pow_add, ← Nat.mul_assoc, Nat.pow_succ] at same
    generalize a * 2 ^ m = w at some same inside
    generalize 2 ^ d = e at power same
    have divides : 256 ∣ w * (e * 2 - 1) := by
      rw [Nat.mul_sub, Nat.mul_one]
      exact ⟨w * (e * 2) / 256, by omega⟩
    have odd : Nat.Coprime 256 (e * 2 - 1) := by
      refine Nat.Coprime.pow_left 8 (Nat.coprime_two_left.mpr ⟨e - 1, by omega⟩)
    have whole : 256 ∣ w := odd.dvd_of_dvd_mul_right divides
    exact absurd (Nat.le_of_dvd some whole) (by omega)
  · exact equal
  · obtain ⟨d, rfl⟩ : ∃ d, m = n + (d + 1) := ⟨m - n - 1, by omega⟩
    have power : 0 < 2 ^ d := Nat.two_pow_pos d
    rw [Nat.pow_add, ← Nat.mul_assoc, Nat.pow_succ] at some same inside
    generalize a * 2 ^ n = w at some same inside
    generalize 2 ^ d = e at power same some inside
    have least : w ≤ w * e := Nat.le_mul_of_pos_right w power
    rw [← Nat.mul_assoc] at some same inside
    omega

end Shift

section Adjust

variable {s t : EhciIso} {nodes : List (HlinkType × U32)} {sitd isoEp hlink sched out : U32}
  {turns bInterval frame k : Nat}

theorem FrameChain.of_eq (chain : FrameChain s hlink nodes) (same : t.nextLink = s.nextLink) :
    FrameChain t hlink nodes := by
  induction chain with
  | ends last => exact .ends last
  | next aligned some _ ih =>
    rw [← same] at ih
    exact .next aligned some ih

theorem headUframes_of_eq (same : ∀ a, (HlinkType.sitd, a) ∈ nodes → t.sitds a = s.sitds a) :
    headUframes t nodes = headUframes s nodes := by
  unfold headUframes
  split
  · next a rest =>
    rw [same a List.mem_cons_self]
  · rfl

/-- The masks, shifted to where they first avoid the microframes of the first element. -/
structure FirstClear (busy : BitVec 8) (sched out : U32) (k : Nat) : Prop where
  shifted : half out = half sched <<< k
  clear : half sched <<< k &&& half (bothMask busy) = 0
  first : ∀ j < k, half sched <<< j &&& half (bothMask busy) ≠ 0

theorem adjustSchedule_clear (chain : FrameChain s (s.pfList (s.sitds sitd).schedFrnidx) nodes)
    (new : (HlinkType.sitd, sitd) ∉ nodes) (enough : 17 ≤ turns) :
    ∃ t k, s.adjustSchedule turns sitd = some t ∧ t.pfList = s.pfList ∧
      FirstClear (headUframes s nodes) (s.sitds sitd).sched (t.sitds sitd).sched k := by
  obtain ⟨n, rfl⟩ : ∃ n, turns = n + 1 := ⟨turns - 1, by omega⟩
  have walk : s.uframeMask sitd (n + 1) (s.pfList (s.sitds sitd).schedFrnidx) 0 = _ :=
    uframeMask_chain chain new (by omega)
  have gone : half (s.sitds sitd).sched <<< n = 0 := by
    apply BitVec.eq_of_getLsbD_eq
    intro i inside
    simp [show i < n by omega]
  obtain ⟨k, out, found, shifted, clear, first⟩ := shiftSched_spec (headUframes s nodes) gone
  unfold EhciIso.adjustSchedule
  rw [walk]
  simp only [Option.bind_eq_bind, Option.bind_some]
  rw [show (headUframes s nodes).setWidth 32 ||| (headUframes s nodes).setWidth 32 <<< 8 =
    bothMask (headUframes s nodes) from rfl]
  by_cases none : bothMask (headUframes s nodes) = 0
  · rw [if_neg (not_not.mpr none)]
    refine ⟨s, 0, rfl, rfl, by simp, ?_, fun j low => absurd low (Nat.not_lt_zero j)⟩
    rw [none]
    simp [half]
  · rw [if_pos none, found]
    refine ⟨_, k, rfl, rfl, ?_, clear, first⟩
    simpa [EhciIso.setSitd] using shifted

/-- The new schedule is the right one exactly where the first shift that avoids the first element
fits. -/
theorem FirstClear.fits_iff (found : FirstClear (headUframes s nodes) sched out k) :
    (∃ k, ShiftFits s nodes sched k ∧ (sMask out).toNat = (sMask sched).toNat * 2 ^ k ∧
      (cMask out).toNat = (cMask sched).toNat * 2 ^ k) ↔ FirstShiftFits s nodes sched := by
  obtain ⟨shifted, clear, first⟩ := found
  have starts : (sMask out).toNat = (sMask sched).toNat * 2 ^ k % 256 := by
    rw [sMask_eq, shifted, BitVec.setWidth_shiftLeft_of_le (by decide), ← sMask_eq, BitVec.toNat_shiftLeft,
      Nat.shiftLeft_eq]
  constructor
  · rintro ⟨m, fits, same, -⟩
    have positive : 0 < (sMask sched).toNat * 2 ^ m := by
      refine Nat.mul_pos (Nat.pos_of_ne_zero ?_) (Nat.two_pow_pos m)
      intro zero
      exact fits.some (BitVec.eq_of_toNat_eq zero)
    obtain rfl : m = k := shift_unique positive (same.symm.trans starts) fits.sMask
    refine ⟨m, fits, (clear_iff fits.sMask).mp clear, ?_⟩
    intro j low avoids
    have inside : (sMask sched).toNat * 2 ^ j < 256 :=
      (Nat.mul_le_mul_left _ (Nat.pow_le_pow_right (by decide) (by omega))).trans_lt fits.sMask
    exact first j low ((clear_iff inside).mpr avoids)
  · rintro ⟨m, fits, avoids, least⟩
    have early {j : Nat} (low : j ≤ m) : (sMask sched).toNat * 2 ^ j < 256 :=
      (Nat.mul_le_mul_left _ (Nat.pow_le_pow_right (by decide) low)).trans_lt fits.sMask
    have equal : k = m := by
      rcases Nat.lt_trichotomy k m with less | equal | more
      · exact absurd ((clear_iff (early (by omega))).mp clear) (least k less)
      · exact equal
      · exact absurd ((clear_iff fits.sMask).mpr avoids) (first m more)
    subst equal
    refine ⟨k, fits, starts.trans (Nat.mod_eq_of_lt fits.sMask), ?_⟩
    have complete : cMask out = cMask sched <<< k :=
      cMask_of_half (shifted.trans (half_shiftLeft fits.sMask))
    rw [complete, BitVec.toNat_shiftLeft, Nat.shiftLeft_eq]
    exact Nat.mod_eq_of_lt fits.cMask

/-- A split descriptor gets its masks moved rightly exactly where the first shift that avoids the
microframes of the frame's first element fits. -/
theorem sitd_adjusted_iff (here : (s.isoEps isoEp).nextFrame = frame)
    (chain : FrameChain s (s.pfList frame) nodes) (new : (HlinkType.sitd, sitd) ∉ nodes)
    (enough : 17 ≤ turns) :
    ∃ t, s.linkSitd turns isoEp sitd bInterval = some t ∧
      (Adjusted s t nodes sitd (s.sitds sitd).sched frame ↔
        FirstShiftFits s nodes (s.sitds sitd).sched) := by
  subst here
  unfold EhciIso.linkSitd
  dsimp only
  generalize marked : s.setSitd sitd _ = m
  have links : m.nextLink = s.nextLink := by rw [← marked]; rfl
  have list : m.pfList = s.pfList := by rw [← marked]; rfl
  have own : (m.sitds sitd).schedFrnidx = (s.isoEps isoEp).nextFrame ∧
      (m.sitds sitd).sched = (s.sitds sitd).sched := by
    rw [← marked]
    simp [EhciIso.setSitd]
  have others : ∀ a, (HlinkType.sitd, a) ∈ nodes → m.sitds a = s.sitds a := by
    rintro a mem
    have apart : a ≠ sitd := by
      rintro rfl
      exact new mem
    rw [← marked]
    simp [EhciIso.setSitd, apart]
  have chain' : FrameChain m (m.pfList (m.sitds sitd).schedFrnidx) nodes := by
    rw [own.1, list]
    exact chain.of_eq links
  obtain ⟨t, k, adjusted, listed, clear⟩ := adjustSchedule_clear chain' new enough
  rw [headUframes_of_eq others, own.2] at clear
  rw [adjusted]
  refine ⟨_, rfl, ?_⟩
  unfold Adjusted
  rw [← clear.fits_iff]
  constructor
  · rintro (fits | ⟨-, absent⟩)
    · exact fits
    · exact absurd (Function.update_self _ _ _) absent
  · exact Or.inl

end Adjust

/-- Two descriptors in a frame, of one packet each: the second had to move. -/
def crowdedFrame : EhciIso where
  pool := ⟨fun _ => false, 0, 0⟩
  refuse := []
  itds := fun _ => ⟨0, 0, 0, 0, 0, 0, 0⟩
  sitds := fun a => ⟨0, if a = 0x1100 then 0x2 else 0x1, 0, 0, 0, 0, 0, 0, 0⟩
  nextLink := fun a => if a = 0x1100 then sitdHlnkSitd 0x1200 else 0x1
  pfList := fun _ => sitdHlnkSitd 0x1100
  isoEps := fun _ => ⟨0, [], []⟩
  isoEpList := []
  isoMem := []
  eps := fun _ => ⟨0x01, 1, 1, 0, 188, 0x20000300⟩
  udevs := fun _ => ⟨64, [⟨.high, 1, 1⟩], 1, 2, .full, 0x20000100⟩
  utrs := fun _ => ⟨0x20000000, 0, 0x20000200, 0, false, 0, 0, true, 0, 0, 0, 0, 0, 0⟩
  ufindr := 0
  ucmdr := 0

def crowdedNodes : List (HlinkType × U32) := [(.sitd, 0x1100), (.sitd, 0x1200)]

theorem crowdedFrame_chain : FrameChain crowdedFrame (crowdedFrame.pfList 0) crowdedNodes := by
  have second : FrameChain crowdedFrame (HlinkType.sitd.link 0x1200) [(.sitd, 0x1200)] :=
    .next (by decide) (by decide) (.ends (.inr (by decide)))
  have first : FrameChain crowdedFrame (HlinkType.sitd.link 0x1100) crowdedNodes :=
    .next (by decide) (by decide) second
  exact first

theorem crowdedFrame_adjusted : ∃ t, crowdedFrame.linkSitd 17 0x20000300 0x1300 1 = some t ∧
    (Adjusted crowdedFrame t crowdedNodes 0x1300 (crowdedFrame.sitds 0x1300).sched 0 ↔
      FirstShiftFits crowdedFrame crowdedNodes (crowdedFrame.sitds 0x1300).sched) :=
  sitd_adjusted_iff rfl crowdedFrame_chain (by decide) (by decide)

/-- The third descriptor of one packet is given the microframe of the first. -/
theorem thirdSitd_collides : ∃ t, crowdedFrame.linkSitd 17 0x20000300 0x1300 1 = some t ∧
    sMask (t.sitds 0x1300).sched = sMask (crowdedFrame.sitds 0x1200).sched ∧
      ¬Adjusted crowdedFrame t crowdedNodes 0x1300 (crowdedFrame.sitds 0x1300).sched 0 := by
  have ends : (crowdedFrame.linkSitd 17 0x20000300 0x1300 1).map (fun t =>
      (sMask (t.sitds 0x1300).sched, t.pfList 0)) = some (1, sitdHlnkSitd 0x1300) := by
    decide
  obtain ⟨t, linked, same⟩ := Option.map_eq_some_iff.mp ends
  obtain ⟨mask, list⟩ := Prod.mk.inj same
  refine ⟨t, linked, mask.trans (by decide), ?_⟩
  rintro (⟨k, fits, shifted, -⟩ | ⟨-, absent⟩)
  · have clear := fits.clear 0x1200 (by decide)
    rw [mask] at shifted
    have start : (sMask (crowdedFrame.sitds 0x1300).sched).toNat = 1 := by decide
    rw [start, Nat.one_mul] at shifted
    have none : k = 0 := by
      cases k with
      | zero => rfl
      | succ k =>
        rw [Nat.pow_succ] at shifted
        have odd : (1 : BitVec 8).toNat = 1 := rfl
        omega
    subst none
    revert clear
    decide
  · exact absent list

end NuMakerMA35
