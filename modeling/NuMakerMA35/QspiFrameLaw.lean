import NuMakerMA35.QspiAligned

namespace NuMakerMA35

namespace QspiTransfer

variable {t : QspiTransfer} {bus : QspiBus} {ts : List QspiTransfer} {mode : QspiMode}
  {slots : List QspiSlot}

theorem events_width : ∀ e ∈ events bus ts mode, ∃ lines driven,
    e = .word lines bus.bytesPerWord driven := by
  induction ts generalizing mode with
  | nil => simp [events]
  | cons t ts ih =>
    intro e inside
    rcases List.mem_append.mp inside with here | later
    · obtain ⟨i, -, rfl⟩ := List.mem_map.mp here
      exact ⟨_, _, rfl⟩
    · exact ih e later

theorem width_of_shown (shown : List.Forall₂ QspiSlot.ShownBy slots (events bus ts mode)) :
    ∀ s ∈ slots, s.width = some bus.bytesPerWord := by
  intro s inside
  obtain ⟨e, member, here⟩ := exists_of_forall₂ shown inside
  obtain ⟨lines, driven, rfl⟩ := events_width e member
  cases s with
  | level high => cases here
  | drives lines bytes =>
    rw [QspiSlot.ShownBy, QspiEvent.word.injEq] at here
    exact congrArg some here.2.1.symm
  | dummy lines =>
    obtain ⟨bytes, same⟩ := here
    rw [QspiEvent.word.injEq] at same
    exact congrArg some same.2.1.symm
  | reads lines width =>
    obtain ⟨_, same, -⟩ := here
    rw [QspiEvent.word.injEq] at same
    exact congrArg some same.2.1.symm

theorem count_cases (bus : QspiBus) (positive : 0 < t.bytesPerWord) (small : t.length.toNat < 2 ^ 31)
    (whole : t.bytesPerWord ∣ t.length.toNat) :
    t.count bus = t.length.toNat / t.bytesPerWord ∨
      t.count bus = t.length.toNat / t.bytesPerWord + 65536 := by
  rw [count_eq positive small whole]
  unfold nuPdmaUnits nuPdmaMaxTxcnt
  split_ifs
  · exact .inr rfl
  · exact .inl rfl
  · exact .inl rfl

theorem byteTransfer_count {qspiLines : Nat} {bytes : List (BitVec 8)} (few : bytes.length ≤ 4) :
    (byteTransfer qspiLines bytes).count bus = bytes.length := by
  have small : (byteTransfer qspiLines bytes).length.toNat = bytes.length :=
    Nat.mod_eq_of_lt (by omega)
  have exact : (byteTransfer qspiLines bytes).Exact bus := exact_of_few (by omega)
  rw [((exact_iff ⟨Nat.one_pos, .inl rfl⟩ (by omega) (Nat.one_dvd _)).mp exact).2, small]
  exact Nat.div_one _

end QspiTransfer

namespace QspiMessage

variable {msg : QspiMessage} {bus : QspiBus} {mode : QspiMode}

theorem field_slots_length (field : QspiField) : field.slots.length = field.size.toNat / 8 := by
  simp [QspiField.slots, bigEndian_length]

theorem dummyLines_lineCount (valid : msg.Valid) : LineCount msg.dummyLines := by
  unfold dummyLines
  split_ifs with alternate address instruction
  · exact valid.alternate.lineCount alternate
  · exact valid.address.lineCount address
  · exact valid.instruction instruction
  · exact .inl rfl

theorem head_events_length (valid : msg.Valid) :
    (QspiTransfer.events bus (msg.instructionTransfers ++ msg.addressTransfers) mode).length =
      (msg.instructionSlots ++ msg.address.slots).length := by
  have fits := valid.address.fits
  rw [QspiTransfer.events_length, List.map_append, List.sum_append, List.length_append,
    field_slots_length]
  congr 1
  · unfold instructionTransfers instructionSlots
    split_ifs
    · simp [QspiTransfer.byteTransfer_count]
    · rfl
  · unfold addressTransfers
    split_ifs with present
    · have few : (bigEndian (msg.address.size.toNat / 8) msg.address.content).length ≤ 4 := by
        rw [bigEndian_length]
        omega
      simp [QspiField.transfer, QspiTransfer.byteTransfer_count few, bigEndian_length]
    · have none : msg.address.size.toNat = 0 := not_not.mp present
      simp [none]

theorem transfers_eq : msg.transfers bus =
    (msg.instructionTransfers ++ msg.addressTransfers) ++
      (msg.dummyTransfers bus ++ msg.dataTransfers bus) := by
  rw [transfers, List.append_assoc]

abbrev FrameShown (msg : QspiMessage) (bus : QspiBus) (mode : QspiMode) : Prop :=
  List.Forall₂ QspiSlot.ShownBy
    (msg.instructionSlots ++ msg.address.slots ++ msg.alternateBytes.slots ++ msg.dummySlots ++
      msg.dataSlots bus) (QspiTransfer.events bus (msg.transfers bus) mode)

theorem rest_shown (valid : msg.Valid)
    (shown : msg.FrameShown bus mode) :
    ∃ mode', List.Forall₂ QspiSlot.ShownBy
      (msg.alternateBytes.slots ++ (msg.dummySlots ++ msg.dataSlots bus))
      (QspiTransfer.events bus (msg.dummyTransfers bus ++ msg.dataTransfers bus) mode') := by
  unfold FrameShown at shown
  rw [transfers_eq, QspiTransfer.events_append, List.append_assoc, List.append_assoc,
    forall₂_append_iff (head_events_length valid).symm] at shown
  exact ⟨_, shown.2⟩

theorem dummySlots_length : msg.dummySlots.length = msg.dummyCycles.toNat * msg.dummyLines / 8 :=
  List.length_replicate

theorem dataSlots_length : (msg.dataSlots bus).length =
    (msg.length.toNat + bus.bytesPerWord - 1) / bus.bytesPerWord := by
  simp [dataSlots]

theorem single_of_shown (valid : msg.Valid)
    (shown : msg.FrameShown bus mode)
    (some : msg.instruction ≠ 0 ∨ msg.address.present ∨ msg.alternateBytes.present ∨
      msg.dummyCycles.toNat ≠ 0) : bus.bytesPerWord = 1 := by
  have widths := QspiTransfer.width_of_shown shown
  have field (f : QspiField) (validField : f.Valid) (present : f.present) :
      ∃ b, QspiSlot.drives f.qspiLines.toNat [b] ∈ f.slots := by
    have whole := validField.whole
    have nonzero : f.size.toNat ≠ 0 := present
    have length : 0 < (bigEndian (f.size.toNat / 8) f.content).length := by
      rw [bigEndian_length]
      omega
    exact ⟨_, List.mem_map_of_mem (List.getElem_mem length)⟩
  rcases some with instruction | address | alternate | dummy
  · have inside : QspiSlot.drives msg.instructionLines.toNat [msg.instruction] ∈
        msg.instructionSlots := by
      rw [instructionSlots, if_pos instruction]
      exact List.mem_singleton.mpr rfl
    have width := widths _ (by
      simp only [List.mem_append]
      exact .inl (.inl (.inl (.inl inside))))
    exact (Option.some.inj width).symm
  · obtain ⟨b, inside⟩ := field msg.address valid.address address
    have width := widths _ (by
      simp only [List.mem_append]
      exact .inl (.inl (.inl (.inr inside))))
    exact (Option.some.inj width).symm
  · obtain ⟨b, inside⟩ := field msg.alternateBytes valid.alternate alternate
    have width := widths _ (by
      simp only [List.mem_append]
      exact .inl (.inl (.inr inside)))
    exact (Option.some.inj width).symm
  · have whole := valid.dummy
    have nonempty : msg.dummyCycles.toNat * msg.dummyLines / 8 ≠ 0 := by
      rcases dummyLines_lineCount valid with h | h | h <;> rw [h] at whole ⊢ <;> omega
    have width := widths (.dummy msg.dummyLines) (by
      simp only [List.mem_append]
      exact .inl (.inr (List.mem_replicate.mpr ⟨nonempty, rfl⟩)))
    exact (Option.some.inj width).symm

theorem whole_of_shown
    (shown : msg.FrameShown bus mode) :
    bus.bytesPerWord ∣ msg.length.toNat := by
  have positive : 0 < bus.bytesPerWord := by
    have := bus.bytesPerWord_cases
    omega
  by_contra odd
  have rest : 0 < msg.length.toNat % bus.bytesPerWord :=
    Nat.pos_of_ne_zero fun none => odd (Nat.dvd_of_mod_eq_zero none)
  have less := Nat.mod_lt msg.length.toNat positive
  have split := Nat.div_add_mod msg.length.toNat bus.bytesPerWord
  have last : msg.length.toNat / bus.bytesPerWord <
      (msg.length.toNat + bus.bytesPerWord - 1) / bus.bytesPerWord := by
    rw [Nat.lt_div_iff_mul_lt positive, Nat.mul_comm]
    omega
  have short : msg.length.toNat - msg.length.toNat / bus.bytesPerWord * bus.bytesPerWord =
      msg.length.toNat % bus.bytesPerWord := by
    rw [Nat.mul_comm]
    omega
  have width := QspiTransfer.width_of_shown shown _ (List.mem_append_right _
    (List.mem_map_of_mem (List.mem_range.mpr last)))
  simp only [short] at width
  cases send : msg.sendBuf <;> simp only [send, QspiSlot.width, Option.some.injEq,
    bus.wireOrder_length, Words.slice_length] at width <;> omega

theorem optional_count (t : QspiTransfer) (p : Prop) [Decidable p] :
    ((if p then [t] else []).map fun t => t.count bus).sum = if p then t.count bus else 0 := by
  split_ifs <;> simp

theorem rest_length (valid : msg.Valid)
    (shown : msg.FrameShown bus mode) :
    msg.alternateBytes.size.toNat / 8 + msg.dummyCycles.toNat * msg.dummyLines / 8 +
        (msg.length.toNat + bus.bytesPerWord - 1) / bus.bytesPerWord =
      (if msg.dummyCycles.toNat ≠ 0 then (msg.dummyTransfer bus).count bus else 0) +
        if msg.length.toNat ≠ 0 then (msg.dataTransfer bus).count bus else 0 := by
  obtain ⟨mode', rest⟩ := rest_shown valid shown
  have same := rest.length_eq
  rw [List.length_append, List.length_append, field_slots_length, dummySlots_length,
    dataSlots_length, QspiTransfer.events_length, List.map_append, List.sum_append, dummyTransfers,
    dataTransfers, optional_count, optional_count] at same
  omega

theorem alternate_lines (valid : msg.Valid) (present : msg.alternateBytes.present)
    (some : msg.dummyCycles.toNat ≠ 0) (sent : (msg.dummyTransfer bus).count bus ≠ 0)
    (shown : msg.FrameShown bus mode) :
    msg.dummyLines = msg.sentLines := by
  obtain ⟨mode', rest⟩ := rest_shown valid shown
  have whole := valid.alternate.whole
  have nonzero : msg.alternateBytes.size.toNat ≠ 0 := present
  have first :
      0 < (bigEndian (msg.alternateBytes.size.toNat / 8) msg.alternateBytes.content).length := by
    rw [bigEndian_length]
    omega
  obtain ⟨n, count⟩ := Nat.exists_eq_succ_of_ne_zero sent
  rw [dummyLines, if_pos present]
  rw [dummyTransfers, if_pos some, List.cons_append, QspiTransfer.events, QspiTransfer.words, count,
    List.range_succ_eq_map, List.map_cons, QspiField.slots] at rest
  cases bytes : bigEndian (msg.alternateBytes.size.toNat / 8) msg.alternateBytes.content with
  | nil => simp [bytes] at first
  | cons b bs =>
    rw [bytes, List.map_cons, List.cons_append, List.cons_append, List.forall₂_cons] at rest
    have here := rest.1
    rw [QspiBus.shift, QspiSlot.ShownBy, QspiEvent.word.injEq] at here
    exact QspiMode.config_lines_eq (sentLines_lineCount valid) here.1

theorem dataCount_cases (whole : bus.bytesPerWord ∣ msg.length.toNat) :
    2 ^ 31 ≤ msg.length.toNat ∧ (msg.dataTransfer bus).count bus = 0 ∨
      msg.length.toNat < 2 ^ 31 ∧
        ((msg.dataTransfer bus).count bus = msg.length.toNat / bus.bytesPerWord ∨
          (msg.dataTransfer bus).count bus = msg.length.toNat / bus.bytesPerWord + 65536) := by
  have positive : 0 < bus.bytesPerWord := by
    have := bus.bytesPerWord_cases
    omega
  by_cases small : msg.length.toNat < 2 ^ 31
  · exact .inr ⟨small, QspiTransfer.count_cases bus (t := msg.dataTransfer bus) positive small whole⟩
  · exact .inl ⟨by omega, QspiTransfer.count_large (t := msg.dataTransfer bus) positive (by
      show 2 ^ 31 ≤ msg.length.toNat
      omega)⟩

theorem dummyCount_cases (bus : QspiBus) (valid : msg.Valid) :
    (msg.dummyTransfer bus).count bus = msg.dummyCycles.toNat * msg.sentLines / 8 ∨
      (msg.dummyTransfer bus).count bus = msg.dummyCycles.toNat * msg.sentLines / 8 + 65536 := by
  have length := dummyTransfer_length bus valid
  have cases := QspiTransfer.count_cases bus (t := msg.dummyTransfer bus) Nat.one_pos
    length.2 (Nat.one_dvd _)
  have single : (msg.dummyTransfer bus).bytesPerWord = 1 := rfl
  rwa [length.1, single, Nat.div_one] at cases

theorem counts (valid : msg.Valid)
    (shown : msg.FrameShown bus mode) :
    ¬msg.alternateBytes.present ∧ msg.length.toNat < 2 ^ 31 ∧
      (msg.dummyCycles.toNat ≠ 0 → (msg.dummyTransfer bus).count bus =
        msg.dummyCycles.toNat * msg.sentLines / 8) ∧
      (msg.length.toNat ≠ 0 → (msg.dataTransfer bus).count bus =
        msg.length.toNat / bus.bytesPerWord) := by
  have total := rest_length valid shown
  have width := bus.bytesPerWord_cases
  have whole := whole_of_shown shown
  have dummy := dummyCount_cases bus valid
  have data := dataCount_cases whole
  have bound : msg.length.toNat / bus.bytesPerWord ≤ msg.length.toNat := Nat.div_le_self _ _
  have ceiling : (msg.length.toNat + bus.bytesPerWord - 1) / bus.bytesPerWord =
      msg.length.toNat / bus.bytesPerWord := by
    obtain ⟨n, words⟩ := whole
    rw [words, Nat.add_sub_assoc (by omega), Nat.mul_add_div (by omega),
      Nat.div_eq_of_lt (by omega), Nat.mul_div_cancel_left _ (by omega), Nat.add_zero]
  have many : 2 ^ 31 ≤ msg.length.toNat → 2 ^ 29 ≤ msg.length.toNat / bus.bytesPerWord := by
    intro large
    rcases width with h | h | h | h <;> rw [h] <;> omega
  rw [ceiling] at total
  generalize msg.length.toNat / bus.bytesPerWord = n at total data bound many ⊢
  have absent : ¬msg.alternateBytes.present := by
    intro present
    have fits := valid.alternate.fits
    have multiple := valid.alternate.whole
    have nonzero : msg.alternateBytes.size.toNat ≠ 0 := present
    by_cases sent : msg.dummyCycles.toNat ≠ 0 ∧ (msg.dummyTransfer bus).count bus ≠ 0
    · rw [alternate_lines valid present sent.1 sent.2 shown, if_pos sent.1] at total
      split_ifs at total <;> omega
    · have few : msg.dummyCycles.toNat * msg.dummyLines / 8 ≤ 4 := by
        rcases dummyLines_lineCount valid with h | h | h <;>
          rcases sentLines_lineCount valid with h' | h' | h' <;> rw [h'] at dummy <;> rw [h] <;> omega
      split_ifs at total <;> omega
  rw [dummyLines_eq absent] at total
  have none : msg.alternateBytes.size.toNat = 0 := not_not.mp absent
  refine ⟨absent, ?_, ?_, ?_⟩
  · by_contra large
    split_ifs at total <;> omega
  · intro some
    rw [if_pos some] at total
    split_ifs at total <;> omega
  · intro some
    rw [if_pos some] at total
    split_ifs at total with cycles
    · omega
    · have zero : msg.dummyCycles.toNat = 0 := not_not.mp cycles
      rw [zero] at total
      omega

/-- `nu_qspi_bus_xfer` frames a valid message exactly if it is one of those it carries. -/
theorem framed_iff_carried (valid : msg.Valid) (mode : QspiMode) :
    msg.Framed bus mode ↔ msg.Carried bus mode := by
  rw [framed_iff_events valid]
  constructor
  · rintro ⟨granted, shown⟩
    obtain ⟨absent, signed, dummy, data⟩ := counts valid shown
    have whole := whole_of_shown shown
    have width : bus.bytesPerWord = 1 ∨ msg.instruction = 0 ∧ ¬msg.address.present ∧
        msg.dummyCycles.toNat = 0 ∧ bus.bytesPerWord ∣ msg.length.toNat := by
      by_cases single : bus.bytesPerWord = 1
      · exact .inl single
      · have bare := mt (single_of_shown valid shown) single
        simp only [not_or, not_not] at bare
        exact .inr ⟨bare.1, bare.2.1, bare.2.2.2, whole⟩
    have positive : 0 < bus.bytesPerWord := by
      have := bus.bytesPerWord_cases
      omega
    have exact : ∀ t ∈ msg.transfers bus, t.Exact bus := by
      refine forall_transfers (fun _ => QspiTransfer.exact_of_few (show 1 ≤ 4 by omega))
        (fun _ => QspiTransfer.exact_of_few (address_few valid)) ?_ ?_
      · intro some
        have length := dummyTransfer_length bus valid
        refine (QspiTransfer.exact_iff ⟨Nat.one_pos, .inl rfl⟩ length.2 (Nat.one_dvd _)).mpr ⟨?_, ?_⟩
        · apply granted
          simp [transfers, dummyTransfers, some]
        · rw [dummy some, length.1]
          exact (Nat.div_one _).symm
      · intro some
        refine (QspiTransfer.exact_iff ⟨positive, valid.buffer some⟩ signed whole).mpr ⟨?_, data some⟩
        apply granted
        simp [transfers, dataTransfers, some]
    refine ⟨absent, signed, width, exact, ?_⟩
    obtain ⟨parts, flat, aligned⟩ := covers valid absent signed width exact
    rw [← flat] at shown
    exact (QspiTransfer.forall₂_events_iff aligned mode).mp shown
  · intro carried
    obtain ⟨parts, flat, aligned⟩ := covers valid carried.alternate carried.signed carried.width
      carried.exact
    rw [← flat]
    refine ⟨?_, (QspiTransfer.forall₂_events_iff aligned mode).mpr carried.settles⟩
    have granted : ∀ t ∈ msg.transfers bus, t.Exact bus → t.Granted bus := by
      refine forall_transfers ?_ ?_ ?_ ?_
      · intro _ exact
        exact ((QspiTransfer.exact_iff
          (t := byteTransfer msg.instructionLines.toNat [msg.instruction]) ⟨Nat.one_pos, .inl rfl⟩
          (show 1 < 2 ^ 31 by omega) (Nat.one_dvd _)).mp exact).1
      · intro _ exact
        exact ((QspiTransfer.exact_iff ⟨Nat.one_pos, .inl rfl⟩
          ((address_few valid).trans_lt (by omega)) (Nat.one_dvd _)).mp exact).1
      · intro _ exact
        exact ((QspiTransfer.exact_iff ⟨Nat.one_pos, .inl rfl⟩ (dummyTransfer_length bus valid).2
          (Nat.one_dvd _)).mp exact).1
      · intro some exact
        have positive := bus.bytesPerWord_cases
        have whole : bus.bytesPerWord ∣ msg.length.toNat := by
          rcases carried.width with single | bare
          · rw [single]
            exact Nat.one_dvd _
          · exact bare.2.2.2
        exact ((QspiTransfer.exact_iff ⟨show 0 < bus.bytesPerWord by omega, valid.buffer some⟩
          carried.signed whole).mp exact).1
    exact fun t inside => granted t inside (carried.exact t inside)

end QspiMessage

def qspiPolled : QspiBus :=
  ⟨8, .inl rfl, false, false, true, 0x80000000, fun _ => 0, false, fun _ => true⟩

def qspiIdle : QspiMode := ⟨false, false, false⟩

def readId : QspiMessage :=
  ⟨0x9f, 1, ⟨0, 0, 0⟩, ⟨0, 0, 0⟩, 0, 1, none, some 0x80001000, 3, true, true⟩

theorem readId_valid : readId.Valid :=
  ⟨fun _ => .inl rfl, ⟨rfl, by decide, fun present => absurd rfl present⟩,
    ⟨rfl, by decide, fun present => absurd rfl present⟩, rfl, fun _ => .inl rfl, fun _ => .inr rfl⟩

theorem readId_framed : readId.Framed qspiPolled qspiIdle := by
  refine (QspiMessage.framed_iff_carried readId_valid qspiIdle).mpr
    ⟨by decide, by decide, .inl rfl, ?_, ?_⟩
  · intro t _ pdma
    simp [QspiTransfer.usesPdma, qspiPolled] at pdma
  · have transfers : (readId.transfers qspiPolled).map (fun t => some t.qspiLines) =
        [some 1, some 1] := rfl
    rw [transfers]
    exact .cons_cons (.inl rfl) (.cons_cons (.inl rfl) (.singleton _))

/-- A read on four lines with mode bits behind the address, as flash memories have it. -/
def quadRead : QspiMessage :=
  ⟨0xeb, 1, ⟨0x1000, 24, 4⟩, ⟨0xf0, 8, 4⟩, 4, 4, none, some 0x80001000, 16, true, true⟩

/-- The size is in bits, and no size of whole bytes is at most 4. -/
theorem quadRead_loses_alternate : quadRead.Valid ∧ ¬quadRead.Framed qspiPolled qspiIdle := by
  have valid : quadRead.Valid :=
    ⟨fun _ => .inl rfl, ⟨rfl, by decide, fun _ => .inr (.inr rfl)⟩,
      ⟨rfl, by decide, fun _ => .inr (.inr rfl)⟩, rfl, fun _ => .inr (.inr rfl), fun _ => .inr rfl⟩
  refine ⟨valid, ?_⟩
  intro framed
  obtain ⟨-, shown⟩ := (QspiMessage.framed_iff_events valid).mp framed
  have present : quadRead.alternateBytes.present := by decide
  exact (QspiMessage.counts valid shown).1 present

end NuMakerMA35
