import NuMakerMA35.PdmaOwnership

namespace NuMakerMA35

/-- What is asked of the driver about channels; an id is a signed word that is used unsigned. -/
inductive ChannelCall where
  | allocate (periphType : U32)
  | free (channID : U32)
  deriving DecidableEq, Repr

def ChannelCall.op : ChannelCall → PdmaOp
  | .allocate periphType => .allocate periphType
  | .free channID => .free channID.toNat

/-- The driver, or how it stopped, and the channels handed out and not given back. -/
structure ChannelRun where
  driver : Except PdmaFault PdmaState
  live : List Nat

namespace ChannelRun

def start : ChannelRun := ⟨.ok .powerOn, []⟩

def call (r : ChannelRun) (c : ChannelCall) : Except PdmaFault (PdmaState × Int) :=
  r.driver >>= fun s => pdmaCall s c.op

def liveAfter (live : List Nat) (ret : Int) : ChannelCall → List Nat
  | .allocate _ => if 0 ≤ ret then ret.toNat :: live else live
  | .free channID => if ret = -rtEok then live.erase channID.toNat else live

def step (r : ChannelRun) (c : ChannelCall) : ChannelRun :=
  match r.call c with
  | .error e => ⟨.error e, r.live⟩
  | .ok (s, ret) => ⟨.ok s, liveAfter r.live ret c⟩

end ChannelRun

def pdmaChannels : Nat := pdmaCnt * pdmaChMax

def allocateTimes (periphType : U32) : Nat → PdmaState → Except PdmaFault PdmaState
  | 0, s => .ok s
  | n + 1, s => do
    let (s, _) ← nuPdmaChannelAllocate s periphType
    allocateTimes periphType n s

/-- Live channels are distinct channels of the controllers, the masks say which they are, and any
other channel is handed out again if enough are asked for. -/
structure ChannelsSound (s : PdmaState) (live : List Nat) : Prop where
  nodup : live.Nodup
  range : ∀ ch ∈ live, ch < pdmaChannels
  masks : ∀ j < pdmaCnt, ∀ i < pdmaChMax, (s.chnMask j).getLsbD i = true ↔ i + j * pdmaChMax ∈ live
  again : ∀ ch < pdmaChannels, ch ∉ live → ∀ periphType, nuPdmaPeripheralSet periphType ≠ none →
    ∃ n t t', allocateTimes periphType n s = .ok t ∧ nuPdmaChannelAllocate t periphType = .ok (t', ch)

namespace ChannelRun

def Sound (r : ChannelRun) : Prop := ∃ s, r.driver = .ok s ∧ ChannelsSound s r.live

/-- What a call has to answer: an allocation a channel that is not live or an error, a release of a
live channel success, and any other one an error, with nothing changed. -/
def RightAnswer (live : List Nat) (s s' : PdmaState) (ret : Int) : ChannelCall → Prop
  | .allocate _ => ret = -rtError ∨ ∃ ch < pdmaChannels, ret = (ch : Nat) ∧ ch ∉ live
  | .free channID => if channID.toNat ∈ live then ret = -rtEok else ret = -rtEinval ∧ s' = s

def Answered (r : ChannelRun) (c : ChannelCall) : Prop :=
  ∃ s s' ret, r.driver = .ok s ∧ r.call c = .ok (s', ret) ∧ RightAnswer r.live s s' ret c

/-- A release names a channel of the controllers, or comes before any allocation. -/
def InRange (r : ChannelRun) : ChannelCall → Prop
  | .allocate _ => True
  | .free channID => (∃ s, r.driver = .ok s ∧ s.inited = false) ∨ channID.toNat < pdmaChannels

end ChannelRun

theorem bit_of_lt_nuCto {x : U32} {i : Nat} (inside : i < 32) (below : i < nuCto x) :
    x.getLsbD i = true := by
  by_contra clear
  have := (nuCto_of_zero_bit inside (Bool.not_eq_true _ ▸ clear)).1
  omega

theorem firstFreeChannel_none {s : PdmaState} {n : Nat} : ∀ {j : Nat},
    firstFreeChannel s n j = none → ∀ m, j ≤ m → m < j + n → ∀ i < pdmaChMax,
      (s.chnMask m).getLsbD i = true := by
  induction n with
  | zero =>
    intro j _ m low high
    omega
  | succ n ih =>
    intro j h m low high i inside
    unfold firstFreeChannel at h
    dsimp only at h
    split_ifs at h with free
    by_cases here : m = j
    · subst here
      unfold pdmaChMax at *
      exact bit_of_lt_nuCto (by omega) (by omega)
    · exact ih h m (by omega) (by omega) i inside

theorem firstFreeChannel_least {s : PdmaState} {n : Nat} : ∀ {j k c : Nat},
    firstFreeChannel s n j = some (k, c) → j ≤ k ∧ ∀ m, j ≤ m → ∀ i < pdmaChMax,
      i + m * pdmaChMax < c + k * pdmaChMax → (s.chnMask m).getLsbD i = true := by
  induction n with
  | zero =>
    intro j k c h
    cases h
  | succ n ih =>
    intro j k c h
    unfold firstFreeChannel at h
    dsimp only at h
    split_ifs at h with free
    · cases h
      refine ⟨le_rfl, ?_⟩
      intro m low i inside before
      unfold pdmaChMax at *
      have here : m = j := by omega
      subst here
      exact bit_of_lt_nuCto (by omega) (by omega)
    · obtain ⟨later, least⟩ := ih h
      refine ⟨by omega, ?_⟩
      intro m low i inside before
      by_cases here : m = j
      · subst here
        unfold pdmaChMax at *
        exact bit_of_lt_nuCto (by omega) (by omega)
      · exact least m (by omega) i inside before

def MasksOpened (s : PdmaState) : Prop := s.inited = true ∨ ∀ i, s.chnMask i = 0

theorem allocated_init {s : PdmaState} (opened : MasksOpened s) (ch : Nat) :
    (nuPdmaInit s).allocated ch ↔ s.allocated ch := by
  unfold nuPdmaInit
  split_ifs with inited
  · exact Iff.rfl
  · have clear := opened.resolve_left inited
    unfold PdmaState.allocated
    dsimp only
    refine and_congr_right fun bound => ?_
    rw [if_pos bound, clear]
    have free : ∀ i < pdmaChMax, (~~~pdmaChMsk).getLsbD i = false := by decide
    rw [free _ (Nat.mod_lt ch (by decide))]
    simp

theorem MasksOpened.init (s : PdmaState) : MasksOpened (nuPdmaInit s) := .inl (nuPdmaInit_inited s)

theorem channel_index {j c : Nat} (channel : c < pdmaChMax) :
    (c + j * pdmaChMax) / pdmaChMax = j ∧ (c + j * pdmaChMax) % pdmaChMax = c := by
  unfold pdmaChMax at *
  omega

theorem channel_eq_iff {j c ch : Nat} (channel : c < pdmaChMax) :
    ch = c + j * pdmaChMax ↔ ch / pdmaChMax = j ∧ ch % pdmaChMax = c := by
  unfold pdmaChMax at *
  omega

section Masks

variable {s t : PdmaState} {j c : Nat}

theorem allocated_taken (module : j < pdmaCnt) (channel : c < pdmaChMax)
    (mask : t.chnMask = Function.update s.chnMask j (s.chnMask j ||| (1 : U32) <<< c)) (ch : Nat) :
    t.allocated ch ↔ s.allocated ch ∨ ch = c + j * pdmaChMax := by
  have bit := setBit_getLsbD (s.chnMask j) (show c < 32 by unfold pdmaChMax at channel; omega)
  unfold PdmaState.allocated
  rw [mask, channel_eq_iff channel]
  by_cases own : ch / pdmaChMax = j
  · rw [own, Function.update_self, bit]
    simp [module]
  · rw [Function.update_of_ne own]
    simp [own]

theorem allocated_released (channel : c < pdmaChMax)
    (mask : t.chnMask = Function.update s.chnMask j (s.chnMask j &&& ~~~((1 : U32) <<< c)))
    (ch : Nat) : t.allocated ch ↔ s.allocated ch ∧ ch ≠ c + j * pdmaChMax := by
  have bit := clearBit_getLsbD (s.chnMask j) (show c < 32 by unfold pdmaChMax at channel; omega)
  unfold PdmaState.allocated
  rw [mask, ne_eq ch, channel_eq_iff channel]
  by_cases own : ch / pdmaChMax = j
  · rw [own, Function.update_self, bit]
    simp [and_assoc]
  · rw [Function.update_of_ne own]
    simp [own]

end Masks

theorem nuPdmaChannelAllocate_first {s : PdmaState} {periphType : U32} (opened : MasksOpened s)
    (known : nuPdmaPeripheralSet periphType ≠ none) :
    (∃ ch s', nuPdmaChannelAllocate s periphType = .ok (s', (ch : Nat)) ∧ ch < pdmaChannels ∧
      ¬s.allocated ch ∧ (∀ c < ch, s.allocated c) ∧ s'.inited = true ∧
      ∀ c, s'.allocated c ↔ s.allocated c ∨ c = ch) ∨
    ((∀ ch < pdmaChannels, s.allocated ch) ∧
      nuPdmaChannelAllocate s periphType = .ok (nuPdmaInit s, -rtError)) := by
  obtain ⟨⟨peripheral, memCtl⟩, found⟩ := Option.ne_none_iff_exists'.mp known
  unfold nuPdmaChannelAllocate
  dsimp only
  rw [found]
  dsimp only
  cases free : (nuPdmaInit s).freeChannel with
  | none =>
    refine .inr ⟨?_, rfl⟩
    intro ch inside
    unfold pdmaChannels at inside
    have bound : ch / pdmaChMax < pdmaCnt := Nat.div_lt_of_lt_mul (by rwa [Nat.mul_comm])
    rw [← allocated_init opened]
    exact ⟨bound, firstFreeChannel_none free _ (Nat.zero_le _) (by omega) _
      (Nat.mod_lt ch (by decide))⟩
  | some found =>
    obtain ⟨j, c⟩ := found
    obtain ⟨module, channel, clear⟩ := firstFreeChannel_spec free
    obtain ⟨-, least⟩ := firstFreeChannel_least free
    obtain ⟨module', slot⟩ := channel_index (j := j) channel
    left
    set taken := PdmaState.setChn { nuPdmaInit s with
      chnMask := Function.update (nuPdmaInit s).chnMask j ((nuPdmaInit s).chnMask j ||| (1 : U32) <<< c) }
      (c + j * pdmaChMax) { PdmaChn.cleared with peripheral := peripheral, memCtl := memCtl } with same
    have masks := fun ch => (allocated_taken (s := nuPdmaInit s) (t := taken) (by simpa using module) channel
      rfl ch).trans (or_congr_left (allocated_init opened ch))
    obtain ⟨s', run, -, inited⟩ := nuPdmaChannelTerminate_allocated ((masks (c + j * pdmaChMax)).mpr (.inr rfl))
    have keep := nuPdmaChannelTerminate_keeps run
    refine ⟨c + j * pdmaChMax, s', ?_, ?_, ?_, ?_, ?_, ?_⟩
    · dsimp only
      rw [← same, run]
      rfl
    · unfold pdmaChannels pdmaChMax pdmaCnt at *
      omega
    · rw [← allocated_init opened]
      rintro ⟨-, set⟩
      rw [module', slot, clear] at set
      cases set
    · intro ch before
      rw [← allocated_init opened]
      have split := Nat.mod_add_div ch pdmaChMax
      refine ⟨?_, least _ (Nat.zero_le _) _ (Nat.mod_lt ch (by decide)) (by rw [Nat.mul_comm] at split; omega)⟩
      unfold pdmaChMax pdmaCnt at *
      omega
    · exact inited.trans (nuPdmaInit_inited s)
    · intro ch
      rw [keep.allocated, masks]

theorem allocated_lt {s : PdmaState} {ch : Nat} (alloc : s.allocated ch) : ch < pdmaChannels := by
  have bound := alloc.1
  unfold pdmaChannels pdmaChMax pdmaCnt at *
  omega

theorem allocate_unknown {s : PdmaState} {periphType : U32}
    (unknown : nuPdmaPeripheralSet periphType = none) :
    nuPdmaChannelAllocate s periphType = .ok (nuPdmaInit s, -rtError) := by
  unfold nuPdmaChannelAllocate
  dsimp only
  rw [unknown]
  rfl

section Free

variable {s : PdmaState} {ch : Nat}

theorem nuPdmaChannelFree_unopened (closed : s.inited = false) :
    nuPdmaChannelFree s ch = .ok (s, -rtEinval) := by
  unfold nuPdmaChannelFree
  rw [closed]
  rfl

theorem nuPdmaChannelFree_taken (inited : s.inited = true) (alloc : s.allocated ch) :
    ∃ s', nuPdmaChannelFree s ch = .ok (s', -rtEok) ∧ s'.inited = true ∧
      ∀ c, s'.allocated c ↔ s.allocated c ∧ c ≠ ch := by
  have inside := allocated_lt alloc
  unfold pdmaChannels at inside
  unfold nuPdmaChannelFree
  rw [inited, check_of_allocated alloc]
  simp only [bind, Except.bind, pure, Except.pure, Bool.not_true, Bool.false_eq_true, if_false]
  rw [if_pos inside]
  refine ⟨_, rfl, rfl, ?_⟩
  intro c
  refine (allocated_released (s := s) (j := ch / pdmaChMax) (Nat.mod_lt ch (by decide)) rfl c).trans ?_
  rw [Nat.mod_add_div']

theorem nuPdmaChannelFree_free (inited : s.inited = true) (free : ¬s.allocated ch) :
    nuPdmaChannelFree s ch =
      if ch < pdmaChannels then .ok (s, -rtEinval) else .error .assertion := by
  unfold nuPdmaChannelFree
  rw [inited]
  by_cases inside : ch < pdmaChannels
  · have bound : ch / pdmaChMax < pdmaCnt := by
      unfold pdmaChannels pdmaChMax pdmaCnt at *
      omega
    have clear : nuPdmaCheckIsNonallocated s ch = .ok true := by
      unfold nuPdmaCheckIsNonallocated
      rw [if_pos bound]
      have bit : (s.chnMask (ch / pdmaChMax)).getLsbD (ch % pdmaChMax) = false := by
        by_contra set
        exact free ⟨bound, Bool.not_eq_false _ ▸ set⟩
      rw [bit]
      rfl
    rw [clear, if_pos inside]
    rfl
  · have outside : ¬ch / pdmaChMax < pdmaCnt := by
      unfold pdmaChannels pdmaChMax pdmaCnt at *
      omega
    have stops : nuPdmaCheckIsNonallocated s ch = .error .assertion := by
      unfold nuPdmaCheckIsNonallocated
      rw [if_neg outside]
    rw [stops, if_neg inside]
    rfl

end Free

theorem allocated_again {ch : Nat} (inside : ch < pdmaChannels) {periphType : U32}
    (known : nuPdmaPeripheralSet periphType ≠ none) (k : Nat) : ∀ {s : PdmaState}, MasksOpened s →
      ¬s.allocated ch → ((Finset.range ch).filter fun c => ¬s.allocated c).card = k →
      ∃ n t t', allocateTimes periphType n s = .ok t ∧
        nuPdmaChannelAllocate t periphType = .ok (t', ch) := by
  induction k with
  | zero =>
    intro s opened free none
    rcases nuPdmaChannelAllocate_first opened known with ⟨c, s', run, -, first, least, -⟩ | ⟨full, -⟩
    · have here : c = ch := by
        rcases Nat.lt_trichotomy c ch with before | same | after
        · rw [Finset.card_eq_zero, Finset.filter_eq_empty_iff] at none
          exact absurd first (none (Finset.mem_range.mpr before))
        · exact same
        · exact absurd (least ch after) free
      subst here
      exact ⟨0, s, s', rfl, run⟩
    · exact absurd (full ch inside) free
  | succ k ih =>
    intro s opened free some
    rcases nuPdmaChannelAllocate_first opened known with
      ⟨c, s', run, -, first, least, inited, taken⟩ | ⟨full, -⟩
    · have before : c < ch := by
        obtain ⟨x, more⟩ := Finset.card_pos.mp (by rw [some]; exact Nat.succ_pos k)
        obtain ⟨below, notTaken⟩ := Finset.mem_filter.mp more
        by_contra late
        exact notTaken (least x (by have := Finset.mem_range.mp below; omega))
      have fewer : ((Finset.range ch).filter fun x => ¬s'.allocated x) =
          ((Finset.range ch).filter fun x => ¬s.allocated x).erase c := by
        ext x
        simp only [Finset.mem_filter, Finset.mem_erase, taken]
        tauto
      have free' : ¬s'.allocated ch := by
        rw [taken]
        rintro (held | same)
        · exact free held
        · omega
      obtain ⟨n, t, t', runs, last⟩ := ih (.inl inited) free' (by
        rw [fewer, Finset.card_erase_of_mem, some, Nat.add_sub_cancel]
        exact Finset.mem_filter.mpr ⟨Finset.mem_range.mpr before, first⟩)
      refine ⟨n + 1, t, t', ?_, last⟩
      unfold allocateTimes
      rw [run]
      exact runs
    · exact absurd (full ch inside) free

namespace ChannelRun

/-- What every call that is answered keeps. -/
def Inv (r : ChannelRun) : Prop :=
  ∃ s, r.driver = .ok s ∧ MasksOpened s ∧ r.live.Nodup ∧ ∀ ch, s.allocated ch ↔ ch ∈ r.live

theorem Inv.sound {r : ChannelRun} (inv : r.Inv) : r.Sound := by
  obtain ⟨s, running, opened, nodup, taken⟩ := inv
  refine ⟨s, running, nodup, ?_, ?_, ?_⟩
  · intro ch listed
    exact allocated_lt ((taken ch).mpr listed)
  · intro j module i channel
    obtain ⟨module', slot⟩ := channel_index (j := j) channel
    rw [← taken]
    unfold PdmaState.allocated
    rw [module', slot]
    simp [module]
  · intro ch inside free periphType known
    exact allocated_again inside known _ opened (fun alloc => free ((taken ch).mp alloc)) rfl

theorem start_inv : start.Inv := by
  refine ⟨.powerOn, rfl, .inr fun _ => rfl, List.nodup_nil, ?_⟩
  intro ch
  simp [PdmaState.allocated, PdmaState.powerOn, start]

theorem call_answered {s s' : PdmaState} {live : List Nat} {c : ChannelCall} {ret : Int}
    (run : pdmaCall s c.op = .ok (s', ret)) :
    (Answered ⟨.ok s, live⟩ c ↔ RightAnswer live s s' ret c) ∧
      step ⟨.ok s, live⟩ c = ⟨.ok s', liveAfter live ret c⟩ := by
  have called : call ⟨.ok s, live⟩ c = .ok (s', ret) := run
  refine ⟨⟨?_, fun answer => ⟨s, s', ret, rfl, called, answer⟩⟩, ?_⟩
  · rintro ⟨t, t', ret', running, again, answer⟩
    cases running
    rw [called] at again
    cases again
    exact answer
  · unfold step
    rw [called]

theorem allocate_answered {s : PdmaState} {live : List Nat} (inv : Inv ⟨.ok s, live⟩)
    (periphType : U32) : Answered ⟨.ok s, live⟩ (.allocate periphType) ∧
      (step ⟨.ok s, live⟩ (.allocate periphType)).Inv := by
  obtain ⟨_, running, opened, nodup, taken⟩ := inv
  cases running
  have refused (run : nuPdmaChannelAllocate s periphType = .ok (nuPdmaInit s, -rtError)) :
      Answered ⟨.ok s, live⟩ (.allocate periphType) ∧
        (step ⟨.ok s, live⟩ (.allocate periphType)).Inv := by
    obtain ⟨answered, stepped⟩ := call_answered (c := .allocate periphType) run
    rw [answered, stepped]
    exact ⟨.inl rfl, nuPdmaInit s, rfl, .init s, nodup, fun ch => (allocated_init opened ch).trans (taken ch)⟩
  by_cases known : nuPdmaPeripheralSet periphType = none
  · exact refused (allocate_unknown known)
  rcases nuPdmaChannelAllocate_first opened known with
    ⟨ch, s', run, inside, fresh, -, inited, taken'⟩ | ⟨-, run⟩
  · obtain ⟨answered, stepped⟩ := call_answered (c := .allocate periphType) run
    have unlisted : ch ∉ live := fun listed => fresh ((taken ch).mpr listed)
    rw [answered, stepped]
    refine ⟨.inr ⟨ch, inside, rfl, unlisted⟩, s', rfl, .inl inited, ?_, ?_⟩
    · exact List.nodup_cons.mpr ⟨unlisted, nodup⟩
    · intro x
      rw [taken', taken]
      exact (or_comm).trans List.mem_cons.symm
  · exact refused run

theorem free_answered {s : PdmaState} {live : List Nat} (inv : Inv ⟨.ok s, live⟩) (channID : U32) :
    (Answered ⟨.ok s, live⟩ (.free channID) ↔ InRange ⟨.ok s, live⟩ (.free channID)) ∧
      (InRange ⟨.ok s, live⟩ (.free channID) → (step ⟨.ok s, live⟩ (.free channID)).Inv) := by
  have kept := inv
  obtain ⟨_, running, opened, nodup, taken⟩ := inv
  cases running
  have refused (run : nuPdmaChannelFree s channID.toNat = .ok (s, -rtEinval))
      (unlisted : channID.toNat ∉ live) (inRange : InRange ⟨.ok s, live⟩ (.free channID)) :
      (Answered ⟨.ok s, live⟩ (.free channID) ↔ InRange ⟨.ok s, live⟩ (.free channID)) ∧
        (InRange ⟨.ok s, live⟩ (.free channID) → (step ⟨.ok s, live⟩ (.free channID)).Inv) := by
    obtain ⟨answered, stepped⟩ := call_answered (c := .free channID) run
    have right : RightAnswer live s s (-rtEinval) (.free channID) := by
      simp [RightAnswer, unlisted]
    rw [answered, stepped]
    exact ⟨iff_of_true right inRange, fun _ => kept⟩
  cases inited : s.inited with
  | false =>
    refine refused (nuPdmaChannelFree_unopened inited) ?_ (.inl ⟨s, rfl, inited⟩)
    intro listed
    obtain ⟨-, bit⟩ := (taken _).mpr listed
    rw [opened.resolve_left (by rw [inited]; exact Bool.false_ne_true)] at bit
    simp at bit
  | true =>
    by_cases alloc : s.allocated channID.toNat
    · obtain ⟨s', run, inited', taken'⟩ := nuPdmaChannelFree_taken inited alloc
      have inside := allocated_lt alloc
      obtain ⟨answered, stepped⟩ := call_answered (c := .free channID) run
      have listed : channID.toNat ∈ live := (taken _).mp alloc
      have right : RightAnswer live s s' (-rtEok) (.free channID) := by
        simp only [RightAnswer, if_pos listed]
      rw [answered, stepped]
      refine ⟨iff_of_true right (.inr inside), fun _ => ⟨s', rfl, .inl inited', ?_, ?_⟩⟩
      · exact nodup.erase _
      · intro x
        rw [taken', taken]
        exact and_comm.trans nodup.mem_erase_iff.symm
    · have run := nuPdmaChannelFree_free inited alloc
      by_cases inside : channID.toNat < pdmaChannels
      · rw [if_pos inside] at run
        exact refused run (fun listed => alloc ((taken _).mpr listed)) (.inr inside)
      · rw [if_neg inside] at run
        have outside : ¬InRange ⟨.ok s, live⟩ (.free channID) := by
          rintro (⟨_, same, closed⟩ | within)
          · cases same
            rw [inited] at closed
            cases closed
          · exact inside within
        refine ⟨iff_of_false ?_ outside, fun within => absurd within outside⟩
        rintro ⟨t, t', ret, same, again, -⟩
        cases same
        have called : call ⟨.ok s, live⟩ (.free channID) = .error .assertion := run
        rw [called] at again
        cases again

/-- A call is answered as it has to be just if its id is in range, and keeps the invariant then. -/
theorem answered_iff {r : ChannelRun} (inv : r.Inv) (c : ChannelCall) :
    (r.Answered c ↔ r.InRange c) ∧ (r.InRange c → (r.step c).Inv) := by
  have kept := inv
  obtain ⟨s, running, -⟩ := inv
  obtain ⟨driver, live⟩ := r
  dsimp only at running
  subst running
  cases c with
  | allocate periphType =>
    obtain ⟨answered, next⟩ := allocate_answered kept periphType
    exact ⟨iff_of_true answered trivial, fun _ => next⟩
  | free channID => exact free_answered kept channID

theorem channels_sound_iff (calls : List ChannelCall) :
    ((∀ pre, pre <+: calls → (pre.foldl step start).Sound) ∧
        Runs.StepsMeet step Answered start calls) ↔ Runs.StepsMeet step InRange start calls := by
  have same := Runs.stepsMeet_congr Inv (fun _ c inv => (answered_iff inv c).1)
    (fun _ c inv good => (answered_iff inv c).2 good) start_inv calls
  constructor
  · exact fun both => same.mp both.2
  · intro good
    refine ⟨?_, same.mpr good⟩
    intro pre part
    exact (Runs.foldl_invariant InRange Inv (fun _ c inv good => (answered_iff inv c).2 good)
      start_inv (good.front part)).sound

/-- The id behind the last channel is not refused: the driver stops. -/
theorem free_stops : ¬((∀ pre, pre <+: [.allocate pdmaMem, .free 20] → (pre.foldl step start).Sound) ∧
    Runs.StepsMeet step Answered start [.allocate pdmaMem, .free 20]) := by
  rintro ⟨-, answered⟩
  obtain ⟨s, s', ret, -, run, -⟩ := answered [.allocate pdmaMem] (.free 20) List.prefix_rfl
  have stops : call ([.allocate pdmaMem].foldl step start) (.free 20) = .error .assertion := rfl
  rw [stops] at run
  cases run

end ChannelRun

end NuMakerMA35
