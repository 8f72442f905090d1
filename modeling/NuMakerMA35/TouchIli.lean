import NuMakerMA35.TouchReads

namespace NuMakerMA35

/-- A point that is reported: one that is down and outside of the screen is not. -/
def IliTsData.Reported (ts : IliTsData) (tmpbuf : Nat → BitVec 8) (i : Nat) : Prop :=
  tmpbuf (i * 5 + 1) &&& 0x40 ≠ 0 →
    ¬ts.Outside (pointWord tmpbuf (i * 5 + 2)) (pointWord tmpbuf (i * 5 + 4))

/-- What the driver takes for the number of points. -/
def iliTouchNum (bus : IliBus) : Int := (iliBuf bus 61).toInt

/-- When a read of the ILI controllers other than the 0x2511 is in range: at most as many points
as `pre_id` has entries with ids in range, unless the second packet does not come. -/
def IliTsData.PacketsFit (ts : IliTsData) (s : Ili) (bus : IliBus) (readNum : Nat) : Prop :=
  (bus 0).isSome = true → iliTouchNum bus ≤ ts.maxTp →
    (iliTouchNum bus ≤ iliMaxTouch ∧
      (0 ≤ iliTouchNum bus → LiftFits (iliSizes readNum) s
        ((List.range (iliTouchNum bus).toNat).map (iliPointId (iliBuf bus)))
        (iliTouchNum bus).toNat) ∧
      ∀ i < (iliTouchNum bus).toNat, ts.Reported (iliBuf bus) i →
        iliPointId (iliBuf bus) i < iliMaxTouch ∧ iliPointId (iliBuf bus) i < readNum) ∨
    10 < iliTouchNum bus ∧ (bus 1).isSome = false

def IliTsData.Fits (ts : IliTsData) (s : Ili) (bus : IliBus) (readNum : Nat) : Prop :=
  0 < readNum → readNum ≤ iliMaxTouch → ts.mcuVer ≠ 0x2511 → ts.PacketsFit s bus readNum

def IliTsData.PointSafe (ts : IliTsData) (size : TouchSizes) (bytes : Set Nat)
    (tmpbuf : Nat → BitVec 8) (i : Nat) : Prop :=
  (TouchAccess.decode (i * 5 + 1) 1).InRange size bytes ∧ i < size.tables ∧
    (tmpbuf (i * 5 + 1) &&& 0x40 ≠ 0 → (TouchAccess.decode (i * 5 + 2) 4).InRange size bytes) ∧
    (ts.Reported tmpbuf i → iliPointId tmpbuf i < size.tables ∧ iliPointId tmpbuf i < size.slots)

/-- The packets behind the first that are asked for have a place in the buffer. -/
def FetchFits (bus : IliBus) : List Nat → Prop
  | [] => True
  | i :: is => i * 64 + 64 ≤ 128 ∧ ((bus i).isSome = true → FetchFits bus is)

section

variable {size : TouchSizes} {bytes : Set Nat} {r : TouchState} {ts : IliTsData} {s : Ili}
  {bus : IliBus} {readNum : Nat}

theorem decode_front {offset n : Nat} (positive : 0 < n)
    (h : (TouchAccess.decode offset n).InRange size bytes) :
    (TouchAccess.decode offset 1).InRange size bytes := by
  obtain ⟨room, all⟩ := h
  exact ⟨by omega, fun k from_ below => all k from_ (by omega)⟩

theorem touches_iliDown (size : TouchSizes) (bytes : Set Nat) (ts : IliTsData) (r : TouchState)
    (id : Nat) (x y : BitVec 16) :
    ∃ q, Touches size bytes bytes (iliDown ts r id x y) q
      (¬ts.Outside x y → id < size.tables ∧ id < size.slots) := by
  unfold iliDown
  by_cases outside : ts.Outside x y
  · simp only [outside, if_true, not_true_eq_false, false_imp_iff]
    exact ⟨r, .pure⟩
  · simp only [outside, if_false, not_false_eq_true, true_imp_iff]
    exact ⟨_, touches_down _ _ _ _⟩

theorem touches_iliSlot (tmpbuf : Nat → BitVec 8) {i : Nat}
    (decoded : (TouchAccess.decode (1 + i * 5) 4).InRange size bytes)
    (inTables : i < size.tables) (inSlots : i < size.slots) :
    ∃ q, Touches size bytes bytes (iliSlot ts tmpbuf r i) q True := by
  have first := decode_front (by omega) decoded
  unfold iliSlot
  by_cases up : tmpbuf (1 + i * 5) &&& 0x80 = 0
  · simp only [up, if_true]
    exact ⟨_, (touches_then _ (touches_up i)).congr
      (iff_of_true ⟨first, inTables, inSlots⟩ trivial)⟩
  · simp only [up, if_false]
    obtain ⟨q, down⟩ := touches_iliDown size bytes ts r i
      (((tmpbuf (1 + i * 5) &&& 0x3f).setWidth 16 <<< 8) ||| (tmpbuf (1 + i * 5 + 1)).setWidth 16)
      (((tmpbuf (1 + i * 5 + 2)).setWidth 16 <<< 8) ||| (tmpbuf (1 + i * 5 + 3)).setWidth 16)
    exact ⟨q, (touches_then _ (touches_then _ down)).congr
      (iff_of_true ⟨first, decoded, fun _ => ⟨inTables, inSlots⟩⟩ trivial)⟩

theorem touches_iliPoint (size : TouchSizes) (bytes : Set Nat) (ts : IliTsData)
    (tmpbuf : Nat → BitVec 8) (r : TouchState) (i : Nat) : ∃ q, Touches size bytes bytes (iliPoint ts tmpbuf r i) q (ts.PointSafe size bytes tmpbuf i) := by
  unfold iliPoint IliTsData.PointSafe IliTsData.Reported
  by_cases up : tmpbuf (i * 5 + 1) &&& 0x40 = 0
  · simp only [up, if_true, ne_eq, not_true_eq_false, false_imp_iff, true_imp_iff, true_and]
    exact ⟨_, touches_then _ (touches_then (.preId i) (touches_up _))⟩
  · simp only [up, if_false, ne_eq, not_false_eq_true, true_imp_iff]
    obtain ⟨q, down⟩ := touches_iliDown size bytes ts
      (setPreId r i (some (iliPointId tmpbuf i))) (iliPointId tmpbuf i) (pointWord tmpbuf (i * 5 + 2)) (pointWord tmpbuf (i * 5 + 4))
    exact ⟨q, touches_then _ (touches_then (.preId i) (touches_then _ down))⟩

theorem touches_iliFetch (readNum : Nat) (bus : IliBus) (is : List Nat) (bytes : Set Nat) :
    ∃ bytes',
    Touches (iliSizes readNum) bytes bytes' (iliFetch bus is) (is.all fun i => (bus i).isSome)
      (FetchFits bus is) := by
  induction is generalizing bytes with
  | nil => exact ⟨bytes, .pure⟩
  | cons i is ih =>
    unfold iliFetch FetchFits
    rw [List.all_cons]
    cases (bus i).isSome with
    | false =>
      exact ⟨_, (touches_then _ .pure).congr (by simp [TouchAccess.InRange, iliSizes])⟩
    | true =>
      obtain ⟨bytes', rest⟩ := ih (TouchAccess.fetched bytes (.fetch (i * 64) 64 true))
      exact ⟨bytes', (touches_then _ rest).congr (by simp [TouchAccess.InRange, iliSizes])⟩

theorem touches_iliSlots (ts : IliTsData) (s : Ili) (tmpbuf : Nat → BitVec 8) (few : readNum ≤ iliMaxTouch)
    (fetched : ∀ k < 31, k ∈ bytes) (touchNum : Nat) : ∃ a,
    Touches (iliSizes readNum) bytes bytes (do
        let r ← if readNum ≤ touchNum then
            (List.range readNum).foldlM (iliSlot ts tmpbuf) (noSlots s)
          else pure (noSlots s)
        pure (({ r.1 with preTouch := touchNum }, r.2), readNum)) a True := by
  have done (q : TouchState) : Touches (iliSizes readNum) bytes bytes
      (pure (({ q.1 with preTouch := touchNum }, q.2), readNum) : Touch (TouchState × Nat))
      (({ q.1 with preTouch := touchNum }, q.2), readNum) True := .pure
  have atMost : readNum ≤ 5 := few
  by_cases enough : readNum ≤ touchNum
  · have turn (q : TouchState) (i : Nat) (below : i < readNum) : ∃ q',
        Touches (iliSizes readNum) bytes bytes (iliSlot ts tmpbuf q i) q' True := by
      refine touches_iliSlot tmpbuf ⟨?_, ?_⟩ (show i < 5 by omega) below
      · show 1 + i * 5 + 4 ≤ 128
        omega
      · intro k _ behind
        exact fetched k (by omega)
    have : Nonempty TouchState := ⟨noSlots s⟩
    choose! step each using turn
    have loop : Touches (iliSizes readNum) bytes bytes
        ((List.range readNum).foldlM (iliSlot ts tmpbuf) (noSlots s))
        ((List.range readNum).foldl step (noSlots s)) (∀ i ∈ List.range readNum, True) := by
      refine Logged.Exactly.foldlM (fun _ is => ∀ i ∈ is, i < readNum) ?_ _ _ ?_
      · intro q i is below
        exact ⟨each q i (below i List.mem_cons_self),
          fun j later => below j (List.mem_cons_of_mem i later)⟩
      · intro i listed
        exact List.mem_range.mp listed
    simp only [enough, if_true]
    exact ⟨_, (loop.bind (done _)).congr (by simp)⟩
  · simp only [enough, if_false]
    exact ⟨_, done (noSlots s)⟩

theorem touches_iliRead2511 (ts : IliTsData) (s : Ili) (bus : IliBus) (few : readNum ≤ iliMaxTouch) :
    ∃ a bytes, Touches (iliSizes readNum) ∅ bytes (iliRead2511 ts s bus readNum) a True := by
  have stop {bytes : Set Nat} : Touches (iliSizes readNum) bytes bytes
      (pure (noSlots { s with preTouch := 0 }, 0) : Touch (TouchState × Nat)) _ True := .pure
  have room : (TouchAccess.fetch 0 31 (bus 0).isSome).InRange (iliSizes readNum) ∅ :=
    show 0 + 31 ≤ 128 by omega
  have roomBehind (bytes : Set Nat) :
      (TouchAccess.fetch 31 20 (bus 1).isSome).InRange (iliSizes readNum) bytes :=
    show 31 + 20 ≤ 128 by omega
  have front {k : Nat} (below : k < 31) : k ∈ TouchAccess.fetched ∅ (.fetch 0 31 true) :=
    .inr ⟨Nat.zero_le k, by omega⟩
  have first : (TouchAccess.decode 0 1).InRange (iliSizes readNum)
      (TouchAccess.fetched ∅ (.fetch 0 31 true)) :=
    ⟨show 0 + 1 ≤ 128 by omega, fun k _ below => front (by omega)⟩
  unfold iliRead2511
  by_cases many : ts.maxTp < readNum
  · simp only [many, if_true]
    exact ⟨_, _, stop⟩
  simp only [many, if_false]
  cases came : (bus 0).isSome with
  | false =>
    rw [came] at room
    exact ⟨_, _, (touches_then _ stop).congr (iff_of_true ⟨room, trivial⟩ trivial)⟩
  | true =>
    rw [came] at room
    by_cases one : iliBuf2511 bus 0 = 1
    · obtain ⟨a, report⟩ := touches_iliSlots ts s (iliBuf2511 bus) few
        (fun _ => front) 6
      simp only [if_pos one]
      exact ⟨a, _, (touches_then _ (touches_then _ report)).congr
        (iff_of_true ⟨room, first, trivial⟩ trivial)⟩
    by_cases two : iliBuf2511 bus 0 = 2
    · simp only [if_neg one, if_pos two]
      cases more : (bus 1).isSome with
      | false =>
        exact ⟨_, _, (touches_then _ (touches_then _ (touches_then _ stop))).congr
          (iff_of_true ⟨room, first, more ▸ roomBehind _, trivial⟩ trivial)⟩
      | true =>
        have kept (k : Nat) (below : k < 31) : k ∈ TouchAccess.fetched
            (TouchAccess.fetched ∅ (.fetch 0 31 true)) (.fetch 31 20 true) := .inl (front below)
        obtain ⟨a, report⟩ := touches_iliSlots ts s (iliBuf2511 bus) few kept 10
        exact ⟨a, _, (touches_then _ (touches_then _ (touches_then _ report))).congr
          (iff_of_true ⟨room, first, more ▸ roomBehind _, trivial⟩ trivial)⟩
    · simp only [if_neg one, if_neg two]
      obtain ⟨a, report⟩ := touches_iliSlots ts s (iliBuf2511 bus) few
        (fun _ => front) 0
      exact ⟨a, _, (touches_then _ (touches_then _ report)).congr
        (iff_of_true ⟨room, first, trivial⟩ trivial)⟩

theorem many_unsafe {touchNum : Nat} (many : iliMaxTouch < touchNum)
    (all : ∀ i < touchNum, ts.PointSafe (iliSizes readNum) bytes (iliBuf bus) i) : False :=
  absurd (all iliMaxTouch many).2.1 (Nat.lt_irrefl iliMaxTouch)

theorem ili_point_iff {i : Nat} (few : i < iliMaxTouch) :
    ts.PointSafe (iliSizes readNum) (TouchAccess.fetched ∅ (.fetch 0 64 true)) (iliBuf bus) i ↔
      (ts.Reported (iliBuf bus) i →
        iliPointId (iliBuf bus) i < iliMaxTouch ∧ iliPointId (iliBuf bus) i < readNum) := by
  have below : i < 5 := few
  have decoded {k n : Nat} (positive : 0 < n) (inside : k + n ≤ 6) :
      (TouchAccess.decode (i * 5 + k) n).InRange (iliSizes readNum)
        (TouchAccess.fetched ∅ (.fetch 0 64 true)) :=
    (decode_iff positive (show 64 ≤ 128 by omega)).mpr (by omega)
  unfold IliTsData.PointSafe
  constructor
  · rintro ⟨-, -, -, all⟩
    exact all
  · intro all
    exact ⟨decoded (by omega) (by omega), few, fun _ => decoded (by omega) (by omega), all⟩

theorem iliPackets_behind (n : Int) : iliPackets n - 1 = ((n - 1).toNat) / 10 := by
  unfold iliPackets
  rcases lt_or_ge (n + 9) 0 with negative | positive
  · have mirrored : (n + 9).tdiv 10 = -((-(n + 9)) / 10) := by
      rw [← Int.tdiv_eq_ediv_of_nonneg (by omega), Int.neg_tdiv, Int.neg_neg]
    rw [mirrored]
    omega
  · rw [Int.tdiv_eq_ediv_of_nonneg positive]
    omega

theorem touches_iliPoints (ts : IliTsData) (s : Ili) (bus : IliBus) (readNum : Nat) (bytes : Set Nat) :
    ∃ a, Touches (iliSizes readNum) bytes bytes (do
        let r ← if iliTouchNum bus < 0 then pure (noSlots s)
          else
            touchLift (· * 5 + 1) (fun j => some (iliPointId (iliBuf bus) j)) (iliTouchNum bus).toNat
              (noSlots s)
        let r ← (List.range (iliTouchNum bus).toNat).foldlM (iliPoint ts (iliBuf bus)) r
        pure (({ r.1 with preTouch := (iliBuf bus 61).toNat }, r.2), readNum)) a
      ((0 ≤ iliTouchNum bus → LiftFits (iliSizes readNum) s
          ((List.range (iliTouchNum bus).toNat).map (iliPointId (iliBuf bus)))
          (iliTouchNum bus).toNat) ∧
        ∀ i < (iliTouchNum bus).toNat, ts.PointSafe (iliSizes readNum) bytes (iliBuf bus) i) := by
  have ids : ((List.range (iliTouchNum bus).toNat).filterMap
      fun j => some (iliPointId (iliBuf bus) j)) =
      (List.range (iliTouchNum bus).toNat).map (iliPointId (iliBuf bus)) :=
    congrFun List.filterMap_eq_map' _
  by_cases negative : iliTouchNum bus < 0
  · have none : (iliTouchNum bus).toNat = 0 := by omega
    have unlifted : ¬0 ≤ iliTouchNum bus := by omega
    simp only [negative, if_true, none, unlifted, false_imp_iff, List.range_zero, List.foldlM_nil,
      pure_bind, Nat.not_lt_zero, implies_true, and_self]
    exact ⟨_, .pure⟩
  · have counted : 0 ≤ iliTouchNum bus := by omega
    simp only [negative, if_false, counted, true_imp_iff]
    choose turn each using touches_iliPoint (iliSizes readNum) bytes ts (iliBuf bus)
    rw [← ids]
    exact ⟨_, touches_points rfl each (fun _ safe => safe.1) _ _ readNum⟩

theorem fetchFits_iff {rest : Nat}
    (missing : ((List.range' 1 (rest + 1)).all fun i => (bus i).isSome) = false) :
    FetchFits bus (List.range' 1 (rest + 1)) ↔ (bus 1).isSome = false := by
  rw [List.range'_succ] at missing ⊢
  cases second : (bus 1).isSome with
  | false => exact iff_of_true ⟨by omega, fun came => by simp [second] at came⟩ rfl
  | true =>
    rw [List.all_cons, second, Bool.true_and] at missing
    refine iff_of_false (fun fits => ?_) (by simp)
    cases rest with
    | zero => simp at missing
    | succ rest =>
      have third := (fits.2 second).1
      omega

theorem touches_iliReadPackets (ts : IliTsData) (s : Ili) (bus : IliBus) (readNum : Nat) :
    ∃ a bytes, Touches (iliSizes readNum) ∅ bytes (iliReadPackets ts s bus readNum) a
      (ts.PacketsFit s bus readNum) := by
  have stop {bytes : Set Nat} : Touches (iliSizes readNum) bytes bytes
      (pure (noSlots { s with preTouch := 0 }, 0) : Touch (TouchState × Nat)) _ True := .pure
  have room : (TouchAccess.fetch 0 64 (bus 0).isSome).InRange (iliSizes readNum) ∅ :=
    show 0 + 64 ≤ 128 by omega
  have count : (TouchAccess.decode 61 1).InRange (iliSizes readNum)
      (TouchAccess.fetched ∅ (.fetch 0 64 true)) :=
    (decode_iff (by omega) (show 64 ≤ 128 by omega)).mpr (by omega)
  unfold iliReadPackets IliTsData.PacketsFit
  simp only [show (iliBuf bus 61).toInt = iliTouchNum bus from rfl]
  cases came : (bus 0).isSome with
  | false =>
    rw [came] at room
    refine ⟨_, _, (touches_then _ stop).congr (iff_of_true ⟨room, trivial⟩ ?_)⟩
    intro shown
    cases shown
  | true =>
    rw [came] at room
    by_cases many : (ts.maxTp : Int) < iliTouchNum bus
    · simp only [if_pos many]
      refine ⟨_, _, (touches_then _ (touches_then _ stop)).congr
        (iff_of_true ⟨room, count, trivial⟩ ?_)⟩
      intro _ fits
      exact absurd many (by omega)
    simp only [if_neg many, if_true, Int.not_lt.mp many, true_imp_iff, iliPackets_behind]
    by_cases single : iliTouchNum bus ≤ 10
    · have none : (iliTouchNum bus - 1).toNat / 10 = 0 := by omega
      obtain ⟨a, points⟩ := touches_iliPoints ts s bus readNum
        (TouchAccess.fetched ∅ (.fetch 0 64 true))
      simp only [none, List.range'_zero, iliFetch, pure_bind, if_true]
      refine ⟨a, _, (touches_then _ (touches_then _ points)).congr ?_⟩
      rw [and_iff_right room, and_iff_right count]
      have packed : ¬(10 < iliTouchNum bus ∧ (bus 1).isSome = false) := fun both => by omega
      rw [or_iff_left packed]
      by_cases few : iliTouchNum bus ≤ iliMaxTouch
      · rw [and_iff_right few]
        refine and_congr_right' (forall_congr' fun i => imp_congr_right fun below => ?_)
        exact ili_point_iff (by omega)
      · refine iff_of_false (fun safe => many_unsafe ?_ safe.2) fun fits => few fits.1
        omega
    · obtain ⟨rest, packets⟩ : ∃ rest, (iliTouchNum bus - 1).toNat / 10 = rest + 1 :=
        ⟨(iliTouchNum bus - 1).toNat / 10 - 1, by omega⟩
      have overfull : iliMaxTouch < (iliTouchNum bus).toNat := show 5 < _ by omega
      have tooMany : ¬iliTouchNum bus ≤ iliMaxTouch := by omega
      obtain ⟨bytes, fetched⟩ := touches_iliFetch readNum bus (List.range' 1 (rest + 1))
        (TouchAccess.fetched ∅ (.fetch 0 64 true))
      simp only [packets, tooMany, false_and, false_or, not_le.mp single, true_and]
      cases all : (List.range' 1 (rest + 1)).all fun i => (bus i).isSome with
      | false =>
        rw [all] at fetched
        refine ⟨_, _, (touches_then _ (touches_then _ (fetched.bind stop))).congr ?_⟩
        rw [and_iff_right room, and_iff_right count, and_iff_left trivial]
        exact fetchFits_iff all
      | true =>
        rw [all] at fetched
        obtain ⟨a, points⟩ := touches_iliPoints ts s bus readNum bytes
        refine ⟨a, _, (touches_then _ (touches_then _ (fetched.bind points))).congr ?_⟩
        refine iff_of_false (fun safe => many_unsafe overfull safe.2.2.2.2) ?_
        intro missing
        have second := List.all_eq_true.mp all 1 (by simp)
        rw [missing] at second
        cases second

theorem touches_ili (ts : IliTsData) (s : Ili) (bus : IliBus) {readNum : Nat}
    (some_ : 0 < readNum) (few : readNum ≤ iliMaxTouch) :
    ∃ a bytes, Touches (iliSizes readNum) ∅ bytes (iliReadPoint ts s bus readNum) a
      (ts.Fits s bus readNum) := by
  have accepted : ¬(readNum = 0 ∨ iliMaxTouch < readNum) := by omega
  unfold iliReadPoint IliTsData.Fits
  simp only [if_neg accepted, some_, few, true_imp_iff]
  by_cases mcu : ts.mcuVer = 0x2511
  · obtain ⟨a, bytes, read⟩ := touches_iliRead2511 ts s bus few
    simp only [if_pos mcu]
    exact ⟨a, bytes, read.congr (iff_of_true trivial fun other => absurd mcu other)⟩
  · simp only [ne_eq, mcu, if_false, not_false_eq_true, true_imp_iff]
    exact touches_iliReadPackets ts s bus readNum

end

end NuMakerMA35
