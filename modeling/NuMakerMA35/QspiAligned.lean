import NuMakerMA35.QspiStages

namespace NuMakerMA35

namespace QspiTransfer

variable {t : QspiTransfer} {bus : QspiBus} {ts ts' : List QspiTransfer}
  {slots slots' : List QspiSlot}

/-- A transfer by descriptors does not run past its end, and gets the descriptors it takes. -/
def Exact (t : QspiTransfer) (bus : QspiBus) : Prop :=
  t.usesPdma bus → nuPdmaMaxTxcnt < t.length.toNat / t.bytesPerWord →
    ¬nuPdmaMaxTxcnt ∣ t.length.toNat / t.bytesPerWord ∧
      bus.sgTables (t.length.toNat / t.bytesPerWord) = true

theorem toInt_small (small : t.length.toNat < 2 ^ 31) : t.length.toInt = t.length.toNat := by
  rw [BitVec.toInt_eq_toNat_cond, if_pos (by omega)]

theorem units_small (small : t.length.toNat < 2 ^ 31) :
    (t.length.toInt / t.bytesPerWord).toNat = t.length.toNat / t.bytesPerWord := by
  rw [toInt_small small, ← Int.natCast_ediv, Int.toNat_natCast]

theorem count_eq (positive : 0 < t.bytesPerWord) (small : t.length.toNat < 2 ^ 31)
    (whole : t.bytesPerWord ∣ t.length.toNat) :
    t.count bus = if t.usesPdma bus then nuPdmaUnits (t.length.toNat / t.bytesPerWord)
      else t.length.toNat / t.bytesPerWord := by
  obtain ⟨n, length⟩ := whole
  have rounded : (t.length.toNat + t.bytesPerWord - 1) / t.bytesPerWord =
      t.length.toNat / t.bytesPerWord := by
    rw [length, Nat.mul_div_cancel_left n positive, Nat.add_sub_assoc positive,
      Nat.mul_add_div positive, Nat.div_eq_of_lt (by omega), Nat.add_zero]
  unfold count
  rw [units_small small, toInt_small small, Int.toNat_natCast, rounded]

theorem count_large (positive : 0 < t.bytesPerWord) (large : 2 ^ 31 ≤ t.length.toNat) :
    t.count bus = 0 := by
  have negative : t.length.toInt < 0 := by
    rw [BitVec.toInt_eq_toNat_cond, if_neg (by omega)]
    omega
  have polled : ¬t.usesPdma bus := by
    unfold usesPdma nuSpiUsePdmaMinThreshold
    grind
  rw [count, if_neg polled, Int.toNat_of_nonpos (by omega)]
  exact Nat.div_eq_of_lt (by omega)

theorem exact_iff (ready : t.Ready) (small : t.length.toNat < 2 ^ 31)
    (whole : t.bytesPerWord ∣ t.length.toNat) :
    t.Exact bus ↔ t.Granted bus ∧ t.count bus = t.length.toNat / t.bytesPerWord := by
  rw [count_eq ready.positive small whole]
  constructor
  · intro exact
    refine ⟨⟨ready.buffer, ?_⟩, ?_⟩
    · rw [units_small small]
      exact fun pdma large => (exact pdma large).2
    · unfold nuPdmaUnits
      split_ifs with pdma past
      · exact absurd past.2 (exact pdma past.1).1
      · rfl
      · rfl
  · rintro ⟨granted, same⟩ pdma large
    have tables := granted.tables pdma
    rw [units_small small] at tables
    refine ⟨?_, tables large⟩
    intro multiple
    rw [if_pos pdma, nuPdmaUnits, if_pos ⟨large, multiple⟩] at same
    have : nuPdmaMaxTxcnt = 65536 := rfl
    omega

theorem exact_of_few (few : t.length.toNat ≤ 4) : t.Exact bus := by
  intro _ large
  have := Nat.div_le_self t.length.toNat t.bytesPerWord
  have : nuPdmaMaxTxcnt = 65536 := rfl
  omega

def Covers (bus : QspiBus) (slots : List QspiSlot) (ts : List QspiTransfer) : Prop :=
  ∃ parts : List (List QspiSlot), parts.flatten = slots ∧ List.Forall₂ (Aligned bus) parts ts

theorem Covers.nil : Covers bus [] [] := ⟨[], rfl, .nil⟩

theorem Covers.single (aligned : Aligned bus slots t) : Covers bus slots [t] :=
  ⟨[slots], by simp, .cons aligned .nil⟩

theorem Covers.append (covers : Covers bus slots ts) (covers' : Covers bus slots' ts') :
    Covers bus (slots ++ slots') (ts ++ ts') := by
  obtain ⟨parts, flat, aligned⟩ := covers
  obtain ⟨parts', flat', aligned'⟩ := covers'
  refine ⟨parts ++ parts', by rw [List.flatten_append, flat, flat'], ?_⟩
  exact List.rel_append aligned aligned'

theorem drives_of_lines {mode : QspiMode} {qspiLines : Nat} (settled : mode.lines = some qspiLines)
    (directed : mode.output = true ∨ qspiLines = 1) : mode.drives = true := by
  unfold QspiMode.drives
  rcases directed with output | rfl
  · simp [output]
  · simp [settled]

theorem drives_shownBy_iff {mode : QspiMode} {qspiLines : Nat} {written bytes : List (BitVec 8)}
    (full : written.length = bus.bytesPerWord) (order : bus.wireOrder written = bytes)
    (directed : mode.output = true ∨ qspiLines = 1) :
    (QspiSlot.drives qspiLines bytes).ShownBy (bus.shift mode written) ↔
      mode.lines = some qspiLines := by
  rw [bus.shift_full mode full]
  simp only [QspiSlot.ShownBy, QspiEvent.word.injEq]
  constructor
  · intro shown
    exact shown.1
  · intro settled
    rw [if_pos (drives_of_lines settled directed), ← order, bus.wireOrder_length]
    exact ⟨settled, full.symm, rfl⟩

theorem byteTransfer_aligned {qspiLines : Nat} (bytes : List (BitVec 8))
    (single : bus.bytesPerWord = 1) (lineCount : LineCount qspiLines) (some : 0 < bytes.length)
    (few : bytes.length ≤ 4) :
    Aligned bus (bytes.map fun b => .drives qspiLines [b]) (byteTransfer qspiLines bytes) := by
  have small : (byteTransfer qspiLines bytes).length.toNat = bytes.length :=
    Nat.mod_eq_of_lt (by omega)
  have exact : (byteTransfer qspiLines bytes).Exact bus := exact_of_few (by omega)
  have count := ((exact_iff ⟨Nat.one_pos, .inl rfl⟩ (by omega) (Nat.one_dvd _)).mp exact).2
  rw [small] at count
  rw [map_eq_map_range _ _ 0]
  apply aligned_of_slots lineCount (count.trans (Nat.div_one _)) some
  intro i inside mode directed
  have source : (byteTransfer qspiLines bytes).source bus i = [bytes.getD i 0] := by
    simp [byteTransfer, QspiTransfer.source, Words.slice]
  rw [source]
  exact drives_shownBy_iff (by simp [single]) (by simp [QspiBus.wireOrder]) directed

end QspiTransfer

namespace QspiMessage

variable {msg : QspiMessage} {bus : QspiBus}

theorem dummyLines_eq (absent : ¬msg.alternateBytes.present) : msg.dummyLines = msg.sentLines :=
  if_neg absent

theorem dummyBytes_eq {qspiLines : Nat} (lineCount : LineCount qspiLines) (cycles : Nat) :
    cycles / (8 / qspiLines) = cycles * qspiLines / 8 := by
  rcases lineCount with rfl | rfl | rfl <;> omega

theorem dummyTransfer_length (bus : QspiBus) (valid : msg.Valid) :
    (msg.dummyTransfer bus).length.toNat = msg.dummyCycles.toNat * msg.sentLines / 8 ∧
      (msg.dummyTransfer bus).length.toNat < 2 ^ 31 := by
  have lineCount := sentLines_lineCount valid
  have bound := msg.dummyCycles.isLt
  have same : (msg.dummyTransfer bus).length.toNat = msg.dummyCycles.toNat * msg.sentLines / 8 := by
    rw [← dummyBytes_eq lineCount]
    apply Nat.mod_eq_of_lt
    rcases lineCount with h | h | h <;> rw [h] <;> omega
  refine ⟨same, ?_⟩
  rw [same]
  rcases lineCount with h | h | h <;> rw [h] <;> omega

theorem dummy_aligned (valid : msg.Valid) (absent : ¬msg.alternateBytes.present)
    (single : bus.bytesPerWord = 1) (some : msg.dummyCycles.toNat ≠ 0)
    (exact : (msg.dummyTransfer bus).Exact bus) :
    QspiTransfer.Aligned bus msg.dummySlots (msg.dummyTransfer bus) := by
  have lineCount := sentLines_lineCount valid
  have length := dummyTransfer_length bus valid
  have whole := valid.dummy
  have count := ((QspiTransfer.exact_iff ⟨Nat.one_pos, .inl rfl⟩ length.2 (Nat.one_dvd _)).mp
    exact).2
  rw [dummyLines_eq absent] at whole
  have positive : 0 < msg.dummyCycles.toNat * msg.sentLines / 8 := by
    rcases lineCount with h | h | h <;> rw [h] at whole ⊢ <;> omega
  have slots : msg.dummySlots =
      (List.range (msg.dummyCycles.toNat * msg.sentLines / 8)).map fun _ => .dummy msg.sentLines := by
    rw [dummySlots, dummyLines_eq absent, List.map_const', List.length_range]
  rw [slots]
  refine QspiTransfer.aligned_of_slots lineCount ?_ positive ?_
  · rw [count, length.1]
    exact Nat.div_one _
  · intro i inside mode directed
    rw [bus.shift_full mode (by simp [dummyTransfer, QspiTransfer.source, single])]
    simp only [QspiSlot.ShownBy, QspiEvent.word.injEq]
    constructor
    · rintro ⟨bytes, settled, -⟩
      exact settled
    · intro settled
      rw [if_pos (QspiTransfer.drives_of_lines settled directed)]
      exact ⟨_, settled, single, rfl⟩

theorem data_aligned (valid : msg.Valid) (some : msg.length.toNat ≠ 0)
    (small : msg.length.toNat < 2 ^ 31) (whole : bus.bytesPerWord ∣ msg.length.toNat)
    (exact : (msg.dataTransfer bus).Exact bus) :
    QspiTransfer.Aligned bus (msg.dataSlots bus) (msg.dataTransfer bus) := by
  have positive : 0 < bus.bytesPerWord := by
    have := bus.bytesPerWord_cases
    omega
  have count := ((QspiTransfer.exact_iff ⟨positive, valid.buffer some⟩ small whole).mp exact).2
  obtain ⟨n, length⟩ := whole
  have words : (msg.length.toNat + bus.bytesPerWord - 1) / bus.bytesPerWord = n := by
    rw [length, Nat.add_sub_assoc positive, Nat.mul_add_div positive, Nat.div_eq_of_lt (by omega),
      Nat.add_zero]
  have full : ∀ i < n, min bus.bytesPerWord (msg.length.toNat - i * bus.bytesPerWord) =
      bus.bytesPerWord := by
    intro i inside
    have := Nat.mul_le_mul_left bus.bytesPerWord (Nat.succ_le_of_lt inside)
    rw [length, Nat.mul_comm i]
    rw [Nat.mul_succ] at this
    omega
  rw [dataSlots, words]
  refine QspiTransfer.aligned_of_slots (valid.dataLines some) ?_ ?_ ?_
  · rw [count]
    exact Nat.div_eq_of_eq_mul_right positive length
  · apply Nat.pos_of_ne_zero
    rintro rfl
    exact some (by simpa using length)
  · intro i inside mode directed
    rw [full i inside]
    cases send : msg.sendBuf with
    | some tx =>
      have source : (msg.dataTransfer bus).source bus i =
          Words.slice tx.byte (i * bus.bytesPerWord) bus.bytesPerWord := by
        simp [dataTransfer, QspiTransfer.source, send]
      rw [source]
      refine QspiTransfer.drives_shownBy_iff (Words.slice_length _ _ _) rfl ?_
      simpa [dataTransfer, send] using directed
    | none =>
      rw [bus.shift_full mode (by simp [dataTransfer, QspiTransfer.source, send])]
      simp only [QspiSlot.ShownBy, QspiEvent.word.injEq]
      constructor
      · rintro ⟨driven, ⟨settled, -⟩, -⟩
        exact settled
      · intro settled
        refine ⟨_, ⟨settled, trivial, rfl⟩, ?_⟩
        intro wide
        have input : mode.output = false := by
          simpa [dataTransfer, send, wide] using directed
        apply if_neg
        simp [QspiMode.drives, input, settled]
        exact wide

end QspiMessage

/-- When a valid message is framed: no alternate bytes; a length that is no negative `int`; single
bytes only in words of eight bits, and data in whole words; no transfer by descriptors that runs past
its end; and no switch of the lines between two and four. -/
structure QspiMessage.Carried (msg : QspiMessage) (bus : QspiBus) (mode : QspiMode) : Prop where
  alternate : ¬msg.alternateBytes.present
  signed : msg.length.toNat < 2 ^ 31
  width : bus.bytesPerWord = 1 ∨ msg.instruction = 0 ∧ ¬msg.address.present ∧
    msg.dummyCycles.toNat = 0 ∧ bus.bytesPerWord ∣ msg.length.toNat
  exact : ∀ t ∈ msg.transfers bus, t.Exact bus
  settles : List.IsChain QspiMode.Settles
    (mode.lines :: (msg.transfers bus).map fun t => some t.qspiLines)

namespace QspiMessage

variable {msg : QspiMessage} {bus : QspiBus} {mode : QspiMode}

theorem forall_transfers {P : QspiTransfer → Prop}
    (instruction : msg.instruction ≠ 0 →
      P (byteTransfer msg.instructionLines.toNat [msg.instruction]))
    (address : msg.address.present → P msg.address.transfer)
    (dummy : msg.dummyCycles.toNat ≠ 0 → P (msg.dummyTransfer bus))
    (data : msg.length.toNat ≠ 0 → P (msg.dataTransfer bus)) : ∀ t ∈ msg.transfers bus, P t := by
  have optional (p : Prop) [Decidable p] (u : QspiTransfer) (holds : p → P u) :
      ∀ t ∈ (if p then [u] else []), P t := by
    intro t inside
    split_ifs at inside with given
    · rw [List.mem_singleton.mp inside]
      exact holds given
    · cases inside
  intro t inside
  simp only [transfers, List.mem_append] at inside
  rcases inside with ((first | second) | third) | fourth
  · exact optional _ _ instruction t first
  · exact optional _ _ address t second
  · exact optional _ _ dummy t third
  · exact optional _ _ data t fourth

theorem transfers_ready (bus : QspiBus) (valid : msg.Valid) : ∀ t ∈ msg.transfers bus, t.Ready := by
  have := bus.bytesPerWord_cases
  exact forall_transfers (fun _ => ⟨Nat.one_pos, .inl rfl⟩) (fun _ => ⟨Nat.one_pos, .inl rfl⟩)
    (fun _ => ⟨Nat.one_pos, .inl rfl⟩)
    fun some => ⟨show 0 < bus.bytesPerWord by omega, valid.buffer some⟩

theorem takeCs_apply (msg : QspiMessage) (bus : QspiBus) (log : List QspiEvent) :
    ∃ new, msg.takeCs bus log = (.ok (), log ++ new) ∧
      List.Forall₂ QspiSlot.ShownBy (msg.takeSlots bus) new := by
  unfold takeCs takeSlots
  split_ifs
  · exact ⟨[.select bus.csHigh], rfl, .cons rfl .nil⟩
  · exact ⟨[], by simp, .nil⟩

theorem releaseCs_apply (msg : QspiMessage) (bus : QspiBus) (log : List QspiEvent) :
    ∃ new, msg.releaseCs bus log = (.ok (), log ++ new) ∧
      List.Forall₂ QspiSlot.ShownBy (msg.releaseSlots bus) new := by
  unfold releaseCs releaseSlots
  split_ifs
  · exact ⟨[.select !bus.csHigh], rfl, .cons rfl .nil⟩
  · exact ⟨[], by simp, .nil⟩

theorem framed_iff_events (valid : msg.Valid) :
    msg.Framed bus mode ↔ (∀ t ∈ msg.transfers bus, t.Granted bus) ∧
      List.Forall₂ QspiSlot.ShownBy
        (msg.instructionSlots ++ msg.address.slots ++ msg.alternateBytes.slots ++ msg.dummySlots ++
          msg.dataSlots bus)
        (QspiTransfer.events bus (msg.transfers bus) mode) := by
  have ready := transfers_ready bus valid
  obtain ⟨taken, take, taking⟩ := takeCs_apply msg bus []
  obtain ⟨released, release, releasing⟩ := releaseCs_apply msg bus
    ([] ++ taken ++ QspiTransfer.events bus (msg.transfers bus) mode)
  unfold Framed
  rw [nuQspiBusXfer_eq valid, Logged.bind_ok take]
  have whole (granted : ∀ t ∈ msg.transfers bus, t.Granted bus) :=
    (Logged.bind_ok (f := fun mode => do
      msg.releaseCs bus
      pure (if msg.length.toNat ≠ 0 then msg.length else 1, mode))
      (QspiTransfer.runAll_granted ready granted mode ([] ++ taken))).trans (Logged.bind_ok release)
  constructor
  · rintro ⟨answer, events, run, shown⟩
    obtain ⟨_, mid, transfers, -⟩ := Logged.bind_ok_iff.mp run
    have granted := QspiTransfer.runAll_ok ready transfers
    rw [whole granted] at run
    obtain ⟨-, rfl⟩ := Prod.mk.inj run
    refine ⟨granted, ?_⟩
    rw [List.nil_append, List.append_assoc, frame, List.append_assoc,
      forall₂_append_iff taking.length_eq] at shown
    have same := shown.2.length_eq
    have ends := releasing.length_eq
    refine ((forall₂_append_iff ?_).mp shown.2).1
    simp only [List.length_append] at same ⊢
    omega
  · rintro ⟨granted, shown⟩
    refine ⟨_, _, whole granted, ?_⟩
    exact List.rel_append (List.rel_append taking shown) releasing

theorem slots_of_absent {field : QspiField} (absent : ¬field.present) : field.slots = [] := by
  have none : field.size.toNat = 0 := not_not.mp absent
  simp [QspiField.slots, none, bigEndian]

theorem address_few (valid : msg.Valid) : msg.address.transfer.length.toNat ≤ 4 := by
  have fits := valid.address.fits
  refine (Nat.mod_le _ _).trans ?_
  rw [bigEndian_length]
  omega

theorem covers (valid : msg.Valid) (absent : ¬msg.alternateBytes.present)
    (signed : msg.length.toNat < 2 ^ 31)
    (width : bus.bytesPerWord = 1 ∨ msg.instruction = 0 ∧ ¬msg.address.present ∧
      msg.dummyCycles.toNat = 0 ∧ bus.bytesPerWord ∣ msg.length.toNat)
    (exact : ∀ t ∈ msg.transfers bus, t.Exact bus) :
    QspiTransfer.Covers bus
      (msg.instructionSlots ++ msg.address.slots ++ msg.alternateBytes.slots ++ msg.dummySlots ++
        msg.dataSlots bus) (msg.transfers bus) := by
  have fits := valid.address.fits
  have whole := valid.address.whole
  rw [slots_of_absent absent, List.append_nil]
  refine .append (.append (.append ?_ ?_) ?_) ?_
  · unfold instructionSlots instructionTransfers
    split_ifs with present
    · have single := width.resolve_right fun bare => present bare.1
      exact .single (QspiTransfer.byteTransfer_aligned [msg.instruction] single
        (valid.instruction present) (by simp) (by simp))
    · exact .nil
  · unfold addressTransfers
    split_ifs with present
    · have single := width.resolve_right fun bare => bare.2.1 present
      have nonzero : msg.address.size.toNat ≠ 0 := present
      exact .single (QspiTransfer.byteTransfer_aligned _ single (valid.address.lineCount present)
        (by rw [bigEndian_length]; omega) (by rw [bigEndian_length]; omega))
    · rw [slots_of_absent present]
      exact .nil
  · by_cases some : msg.dummyCycles.toNat ≠ 0
    · have single := width.resolve_right fun bare => some bare.2.2.1
      rw [dummyTransfers, if_pos some]
      refine .single (dummy_aligned valid absent single some (exact _ ?_))
      simp [transfers, dummyTransfers, some]
    · rw [dummyTransfers, if_neg some, dummySlots, not_not.mp some]
      simpa using QspiTransfer.Covers.nil
  · by_cases some : msg.length.toNat ≠ 0
    · rw [dataTransfers, if_pos some]
      refine .single (data_aligned valid some signed ?_ (exact _ ?_))
      · rcases width with single | bare
        · rw [single]
          exact Nat.one_dvd _
        · exact bare.2.2.2
      · simp [transfers, dataTransfers, some]
    · have positive := bus.bytesPerWord_cases
      rw [dataTransfers, if_neg some, dataSlots, not_not.mp some, Nat.div_eq_of_lt (by omega)]
      exact .nil

end QspiMessage

end NuMakerMA35
