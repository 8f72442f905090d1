import NuMakerMA35.NuWriter

namespace NuMakerMA35

open Words Runs

def NoFault {α : Type} (m : Except PackFault α) : Prop := ∃ r, m = .ok r

section NoFault

variable {α β : Type}

theorem noFault_ok (a : α) : NoFault (.ok a : Except PackFault α) := ⟨a, rfl⟩

theorem noFault_pure (a : α) : NoFault (pure a : Except PackFault α) := ⟨a, rfl⟩

theorem not_noFault_error (e : PackFault) : ¬NoFault (.error e : Except PackFault α) := by
  rintro ⟨r, h⟩
  cases h

theorem noFault_bind {m : Except PackFault α} {f : α → Except PackFault β} :
    NoFault (m >>= f) ↔ ∃ a, m = .ok a ∧ NoFault (f a) := by
  constructor
  · rintro ⟨r, h⟩
    obtain ⟨a, first, rest⟩ := bind_ok_iff.mp h
    exact ⟨a, first, r, rest⟩
  · rintro ⟨a, first, r, rest⟩
    exact ⟨r, bind_ok_iff.mpr ⟨a, first, rest⟩⟩

theorem ok_bind (a : α) (f : α → Except PackFault β) : (Except.ok a >>= f) = f a := rfl

end NoFault

namespace PackBuf

variable {b : PackBuf}

section Reads

variable {β : Type}

theorem word32_inside {a : Nat} (h : b.Inside a 4) : b.word32 a = .ok (b.get32 a) := if_pos h

theorem word64_inside {a : Nat} (h : b.Inside a 8) : b.word64 a = .ok (b.get64 a) := if_pos h

theorem noFault_word32_bind {a : Nat} {f : U32 → Except PackFault β} :
    NoFault (b.word32 a >>= f) ↔ b.Inside a 4 ∧ NoFault (f (b.get32 a)) := by
  by_cases h : b.Inside a 4
  · rw [word32_inside h, ok_bind]
    exact (and_iff_right h).symm
  · have bad : b.word32 a = .error .outside := if_neg h
    rw [bad]
    exact iff_of_false (not_noFault_error _) fun both => h both.1

theorem noFault_word64_bind {a : Nat} {f : Nat → Except PackFault β} :
    NoFault (b.word64 a >>= f) ↔ b.Inside a 8 ∧ NoFault (f (b.get64 a)) := by
  by_cases h : b.Inside a 8
  · rw [word64_inside h, ok_bind]
    exact (and_iff_right h).symm
  · have bad : b.word64 a = .error .outside := if_neg h
    rw [bad]
    exact iff_of_false (not_noFault_error _) fun both => h both.1

theorem noFault_copyOut_bind {a n : Nat} {f : Unit → Except PackFault β} :
    NoFault (b.copyOut a n >>= f) ↔ (n = 0 ∨ b.Inside a n) ∧ NoFault (f ()) := by
  by_cases h : n = 0 ∨ b.Inside a n
  · have good : b.copyOut a n = .ok () := if_pos h
    rw [good, ok_bind]
    exact (and_iff_right h).symm
  · have bad : b.copyOut a n = .error .outside := if_neg h
    rw [bad]
    exact iff_of_false (not_noFault_error _) fun both => h both.1

end Reads

/-- The checksum of `n` words, as far as the buffer goes or not. -/
def crcOver (b : PackBuf) : Nat → Nat → U32 → U32
  | 0, _, crc => crc
  | n + 1, ptr, crc => crcOver b n (ptr + 4) (crc32Word crc (b.get32 ptr))

def crcSum (b : PackBuf) (ptr len : Nat) : U32 :=
  b.crcOver ((len + 3) / 4) ptr crcSeed ^^^ 0xFFFFFFFF

/-- The words `crc32` reads for `len` bytes lie in the buffer. -/
def CrcFits (b : PackBuf) (ptr len : Nat) : Prop := len = 0 ∨ b.Inside ptr (4 * ((len + 3) / 4))

theorem crc32Loop_eq {n : Nat} : ∀ {ptr : Nat} {crc : U32}, b.crc32Loop n ptr crc =
    if n = 0 ∨ b.Inside ptr (4 * n) then .ok (b.crcOver n ptr crc) else .error .outside := by
  induction n with
  | zero =>
    intro ptr crc
    rfl
  | succ n ih =>
    intro ptr crc
    unfold crc32Loop
    by_cases first : b.Inside ptr 4
    · rw [word32_inside first, ok_bind, ih]
      have more : (n = 0 ∨ b.Inside (ptr + 4) (4 * n)) ↔
          n + 1 = 0 ∨ b.Inside ptr (4 * (n + 1)) := by
        unfold Inside at first ⊢
        omega
      simp only [more, crcOver]
    · have bad : b.word32 ptr = .error .outside := if_neg first
      have short : ¬(n + 1 = 0 ∨ b.Inside ptr (4 * (n + 1))) := by
        unfold Inside at first ⊢
        omega
      rw [bad, if_neg short]
      rfl

theorem crc32_fits {ptr len : Nat} (h : b.CrcFits ptr len) :
    b.crc32 ptr len = .ok (b.crcSum ptr len) := by
  unfold crc32
  rw [crc32Loop_eq, if_pos]
  · rfl
  · rcases h with none | inside
    · left
      omega
    · exact .inr inside

theorem noFault_crc32_bind {β : Type} {ptr len : Nat} {f : U32 → Except PackFault β} :
    NoFault (b.crc32 ptr len >>= f) ↔ b.CrcFits ptr len ∧ NoFault (f (b.crcSum ptr len)) := by
  by_cases h : b.CrcFits ptr len
  · rw [crc32_fits h, ok_bind]
    exact (and_iff_right h).symm
  · have bad : b.crc32 ptr len = .error .outside := by
      unfold crc32
      rw [crc32Loop_eq, if_neg]
      · rfl
      · rintro (none | inside)
        · exact h (.inl (by omega))
        · exact h (.inr inside)
    rw [bad]
    exact iff_of_false (not_noFault_error _) fun both => h both.1

/-- The boot info of the first child can be checked: its marker, and as far as the checks before
succeed its checksum, its image count and the image types. -/
def BootInfoFits (b : PackBuf) (bootInfo length : Nat) : Prop :=
  b.Inside bootInfo 4 ∧ (b.get32 bootInfo = nvtMarker →
    b.CrcFits (bootInfo + 8) length ∧ b.Inside (bootInfo + 4) 4 ∧
      (b.crcSum (bootInfo + 8) length = b.get32 (bootInfo + 4) →
        b.Inside (bootInfo + 36) 4 ∧ ((b.get32 (bootInfo + 36)).toNat ≤ 4 →
          ∀ i, i < (b.get32 (bootInfo + 36)).toNat →
            (∀ j, j < i → (b.get32 (bootInfo + 40 + j * imageInfoSize + 12)).toNat ≤ 4) →
            b.Inside (bootInfo + 40 + i * imageInfoSize + 12) 4)))

theorem noFault_checkImageInfos {bootInfo n : Nat} : ∀ {i : Nat},
    NoFault (b.checkImageInfos bootInfo n i) ↔ ∀ k, k < n →
      (∀ j, j < k → (b.get32 (bootInfo + 40 + (i + j) * imageInfoSize + 12)).toNat ≤ 4) →
      b.Inside (bootInfo + 40 + (i + k) * imageInfoSize + 12) 4 := by
  induction n with
  | zero =>
    intro i
    exact iff_of_true (noFault_ok _) fun k hk => absurd hk (by omega)
  | succ n ih =>
    intro i
    unfold checkImageInfos
    rw [noFault_word32_bind]
    constructor
    · rintro ⟨inside, rest⟩ k hk before
      cases k with
      | zero => exact inside
      | succ k =>
        have few : ¬4 < (b.get32 (bootInfo + 40 + i * imageInfoSize + 12)).toNat :=
          Nat.not_lt.mpr (before 0 (by omega))
        rw [if_neg few, ih] at rest
        have next := rest k (by omega) fun j hj => by
          have early := before (j + 1) (by omega)
          rwa [show i + (j + 1) = i + 1 + j by omega] at early
        rwa [show i + (k + 1) = i + 1 + k by omega]
    · intro h
      refine ⟨h 0 (by omega) fun j hj => absurd hj (by omega), ?_⟩
      split_ifs with wrong
      · exact noFault_pure _
      · rw [ih]
        intro k hk before
        have here := h (k + 1) (by omega) fun j hj => by
          cases j with
          | zero => exact Nat.not_lt.mp wrong
          | succ j =>
            have early := before j (by omega)
            rwa [show i + (j + 1) = i + 1 + j by omega]
        rwa [show i + 1 + k = i + (k + 1) by omega]

theorem noFault_checkBootInfo {bootInfo length : Nat} :
    NoFault (b.nuwriterCheckBootInfo bootInfo length) ↔ b.BootInfoFits bootInfo length := by
  unfold nuwriterCheckBootInfo BootInfoFits
  rw [noFault_word32_bind]
  refine and_congr_right fun _ => ?_
  split_ifs with marker
  · exact iff_of_true (noFault_pure _) fun same => absurd same marker
  · rw [not_not] at marker
    rw [noFault_crc32_bind, noFault_word32_bind, forall_prop_of_true marker]
    refine and_congr_right fun _ => and_congr_right fun _ => ?_
    split_ifs with sum
    · exact iff_of_true (noFault_pure _) fun same => absurd same sum
    · rw [not_not] at sum
      rw [noFault_word32_bind, forall_prop_of_true sum]
      refine and_congr_right fun _ => ?_
      split_ifs with many
      · exact iff_of_true (noFault_pure _) fun few => absurd few (by omega)
      · rw [forall_prop_of_true (Nat.not_lt.mp many), noFault_checkImageInfos]
        simp only [Nat.zero_add]

def HeaderReadable (b : PackBuf) : Prop :=
  4 ≤ b.len ∧ (b.get32 b.base = nvtMarker →
    16 ≤ b.len ∧ (b.get32 (b.base + 12) = 0xFFFFFFFF → 4 ∣ b.len))

def HeaderGood (b : PackBuf) : Prop :=
  b.get32 b.base = nvtMarker ∧ b.get32 (b.base + 12) = 0xFFFFFFFF ∧
    b.crcSum (b.base + 8) (b.len - 8) = b.get32 (b.base + 4)

theorem crcFits_header (long : 16 ≤ b.len) :
    b.CrcFits (b.base + 8) ((b.len + 2 ^ 64 - 8) % 2 ^ 32) ↔ 4 ∣ b.len := by
  have space := b.inSpace
  have bytes : (b.len + 2 ^ 64 - 8) % 2 ^ 32 = b.len - 8 := by omega
  unfold CrcFits Inside
  rw [bytes]
  omega

theorem noFault_packHeaderOk : NoFault b.packHeaderOk ↔ b.HeaderReadable := by
  unfold packHeaderOk HeaderReadable
  rw [noFault_word32_bind]
  refine and_congr (by unfold Inside; omega) ?_
  split_ifs with marker
  · exact iff_of_true (noFault_pure _) fun same => absurd same marker
  · rw [not_not] at marker
    rw [noFault_word32_bind, forall_prop_of_true marker]
    have long : b.Inside (b.base + 12) 4 ↔ 16 ≤ b.len := by
      unfold Inside
      omega
    rw [long]
    refine and_congr_right fun long => ?_
    split_ifs with reserve
    · exact iff_of_true (noFault_pure _) fun same => absurd same reserve
    · rw [not_not] at reserve
      rw [noFault_crc32_bind, noFault_word32_bind, crcFits_header long,
        forall_prop_of_true reserve]
      have sum : b.Inside (b.base + 4) 4 := by
        unfold Inside
        omega
      exact ⟨fun h => h.1, fun h => ⟨h, sum, noFault_pure _⟩⟩

theorem packHeaderOk_readable (h : b.HeaderReadable) :
    (b.HeaderGood → b.packHeaderOk = .ok true) ∧ (¬b.HeaderGood → b.packHeaderOk = .ok false) := by
  have space := b.inSpace
  have first : b.Inside b.base 4 := ⟨le_rfl, by have := h.1; omega⟩
  unfold packHeaderOk HeaderGood
  rw [word32_inside first, ok_bind]
  split_ifs with marker
  · exact ⟨fun good => absurd good.1 marker, fun _ => rfl⟩
  rw [not_not] at marker
  obtain ⟨long, words⟩ := h.2 marker
  have second : b.Inside (b.base + 12) 4 := ⟨by omega, by omega⟩
  rw [word32_inside second, ok_bind]
  split_ifs with reserve
  · exact ⟨fun good => absurd good.2.1 reserve, fun _ => rfl⟩
  rw [not_not] at reserve
  have third : b.Inside (b.base + 4) 4 := ⟨by omega, by omega⟩
  have bytes : (b.len + 2 ^ 64 - 8) % 2 ^ 32 = b.len - 8 := by omega
  rw [crc32_fits ((crcFits_header long).mpr (words reserve)), ok_bind, word32_inside third, ok_bind,
    bytes]
  constructor
  · intro good
    rw [decide_eq_true good.2.2]
    rfl
  · intro bad
    rw [decide_eq_false fun same => bad ⟨marker, reserve, same⟩]
    rfl

def childAt (b : PackBuf) (child : Nat) : Nat → Nat
  | 0 => child
  | k + 1 => childAt b (nextChild child (b.get64 child)) k

theorem verifyChildren_value {n : Nat} : ∀ {i child : Nat} {r : Int},
    b.verifyChildren n i child = .ok r → r = 0 := by
  induction n with
  | zero =>
    intro i child r h
    cases h
    rfl
  | succ n ih =>
    intro i child r h
    unfold verifyChildren at h
    obtain ⟨-, -, h⟩ := bind_ok_iff.mp h
    split_ifs at h with last
    · cases h
      rfl
    · obtain ⟨imageLength, -, rest⟩ := bind_ok_iff.mp h
      exact ih rest

theorem noFault_verifyLater {n : Nat} : ∀ {i child : Nat}, i ≠ 0 →
    (NoFault (b.verifyChildren n i child) ↔ ∀ k, k + 1 < n → b.Inside (b.childAt child k) 8) := by
  induction n with
  | zero =>
    intro i child _
    exact iff_of_true (noFault_ok _) fun k hk => absurd hk (by omega)
  | succ n ih =>
    intro i child later
    have skipped : b.verifyChild i child = .ok () := if_neg later
    unfold verifyChildren
    rw [skipped, ok_bind]
    split_ifs with last
    · exact iff_of_true (noFault_pure _) fun k hk => absurd hk (by omega)
    · rw [noFault_word64_bind, ih (by omega)]
      constructor
      · rintro ⟨here, rest⟩ k hk
        cases k with
        | zero => exact here
        | succ k => exact rest k (by omega)
      · intro h
        exact ⟨h 0 (by omega), fun k hk => h (k + 1) (by omega)⟩

theorem noFault_verifyChildren {n child : Nat} :
    NoFault (b.verifyChildren (n + 1) 0 child) ↔
      (b.Inside child 8 ∧
        b.BootInfoFits (child + packChildSize) ((b.get64 child + 2 ^ 64 - 8) % 2 ^ 32)) ∧
      ∀ k, k < n → b.Inside (b.childAt child k) 8 := by
  have first : NoFault (b.verifyChild 0 child) ↔ b.Inside child 8 ∧
      b.BootInfoFits (child + packChildSize) ((b.get64 child + 2 ^ 64 - 8) % 2 ^ 32) := by
    unfold verifyChild
    rw [if_pos rfl, noFault_word64_bind, noFault_bind]
    refine and_congr_right fun _ => ?_
    rw [← noFault_checkBootInfo]
    exact ⟨fun ⟨r, h, _⟩ => ⟨r, h⟩, fun ⟨r, h⟩ => ⟨r, h, noFault_pure _⟩⟩
  unfold verifyChildren
  rw [noFault_bind]
  constructor
  · rintro ⟨u, here, rest⟩
    refine ⟨first.mp ⟨u, here⟩, ?_⟩
    intro k hk
    rw [if_neg (by omega), noFault_word64_bind, noFault_verifyLater (by omega)] at rest
    cases k with
    | zero => exact rest.1
    | succ k => exact rest.2 k (by omega)
  · rintro ⟨here, walk⟩
    obtain ⟨u, here⟩ := first.mpr here
    refine ⟨u, here, ?_⟩
    split_ifs with last
    · exact noFault_pure _
    · rw [noFault_word64_bind, noFault_verifyLater (by omega)]
      exact ⟨walk 0 (by omega), fun k hk => walk (k + 1) (by omega)⟩

theorem childWalk_ok {size n : Nat} : ∀ {i child : Nat},
    4 * (i + n) ≤ size → (∀ k, k < n → b.Inside (b.childAt child k) 8) →
    b.childWalk size n i child = .ok ((List.range n).map (b.childAt child)) := by
  induction n with
  | zero =>
    intro i child _ _
    rfl
  | succ n ih =>
    intro i child room walk
    have here : b.Inside child 8 := walk 0 (by omega)
    unfold childWalk
    rw [if_neg (by omega), word64_inside here, ok_bind,
      ih (by omega) fun k hk => walk (k + 1) (by omega), ok_bind, List.range_succ_eq_map,
      List.map_cons, List.map_map]
    rfl

theorem childWalk_room {size n : Nat} : ∀ {i child : Nat}, 0 < n →
    NoFault (b.childWalk size n i child) → 4 * (i + n) ≤ size := by
  induction n with
  | zero =>
    intro i child some
    omega
  | succ n ih =>
    intro i child _ h
    unfold childWalk at h
    split_ifs at h with full
    · exact absurd h (not_noFault_error _)
    · rw [noFault_word64_bind, noFault_bind] at h
      obtain ⟨-, rest, walked, -⟩ := h
      by_cases last : n = 0
      · omega
      · have more := ih (by omega) ⟨rest, walked⟩
        omega

theorem childWalk_inside {size n : Nat} : ∀ {i child : Nat},
    NoFault (b.childWalk size n i child) → ∀ k, k < n → b.Inside (b.childAt child k) 8 := by
  induction n with
  | zero =>
    intro i child _ k hk
    omega
  | succ n ih =>
    intro i child h k hk
    unfold childWalk at h
    split_ifs at h with full
    · exact absurd h (not_noFault_error _)
    · rw [noFault_word64_bind, noFault_bind] at h
      obtain ⟨here, rest, walked, -⟩ := h
      cases k with
      | zero => exact here
      | succ k => exact ih ⟨rest, walked⟩ k (by omega)

end PackBuf

end NuMakerMA35
