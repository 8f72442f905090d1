import NuMakerMA35.EhciIso

namespace NuMakerMA35

inductive IsoTd where
  | itd (a : U32)
  | sitd (a : U32)

def framesIn (transMask : BitVec 8) : Nat → Nat → Nat
  | 0, _ => 0
  | n + 1, i => (if transMask.getLsbD i then 1 else 0) + framesIn transMask n (i + 1)

/-- The descriptor asks for an interrupt, in the field where the controller looks for that. -/
def IsoTd.Requests (t : EhciIso) : IsoTd → Prop
  | .itd a => ∃ i < 8, ((t.itds a).transaction i) &&& itdIoc ≠ 0
  | .sitd a => (t.sitds a).stsCtrl &&& sitdIoc ≠ 0

def IsoTd.Carries (t : EhciIso) (k : Nat) : IsoTd → Prop
  | .itd a => (t.itds a).fidx ≤ k ∧ k < (t.itds a).fidx + framesIn (t.itds a).transMask 8 0
  | .sitd a => (t.sitds a).fidx = k

/-- One of the descriptors asks for an interrupt, the one with the last packet. -/
def IocAtLast (t : EhciIso) (tds : List IsoTd) : Prop :=
  ∃ td ∈ tds, td.Requests t ∧ td.Carries t (ifPerUtr - 1) ∧ ∀ other ∈ tds, other.Requests t → other = td

/-- The page of a packet is so far from that of its descriptor that it shows in the bit which asks for
an interrupt. -/
def Utr.PageFar (u : Utr) (base fidx : Nat) : Prop :=
  ((u.isoBuff fidx &&& 0xfffff000) - (u.isoBuff base &&& 0xfffff000)) &&& itdIoc ≠ 0

/-- No packet is that far from the first one of its descriptor, but for those of the last. -/
def Utr.PagesNear (u : Utr) (packets : Nat) : Prop :=
  ∀ f < ifPerUtr - packets, ¬u.PageFar (f / packets * packets) f

section Settle

variable {u : Utr} {mask : BitVec 8} {tr : Nat → U32} {n i j fidx base : Nat} {x y : U32}

theorem ioc_iff (x : U32) : x &&& itdIoc ≠ 0 ↔ x.getLsbD 15 = true := by
  have bit : ∀ i < 32, itdIoc.getLsbD i = decide (i = 15) := by decide
  constructor
  · intro some
    by_contra clear
    refine some (BitVec.eq_of_getLsbD_eq ?_)
    intro i inside
    rw [BitVec.getLsbD_and, bit i inside]
    by_cases here : i = 15
    · subst here
      rw [Bool.eq_false_iff.mpr clear]
      rfl
    · simp [here]
  · intro set none
    have here := congrArg (fun w => w.getLsbD 15) none
    rw [BitVec.getLsbD_and, set, bit 15 (by decide)] at here
    cases here

theorem or_ioc : (x ||| y) &&& itdIoc ≠ 0 ↔ x &&& itdIoc ≠ 0 ∨ y &&& itdIoc ≠ 0 := by
  rw [ioc_iff, ioc_iff, ioc_iff, BitVec.getLsbD_or, Bool.or_eq_true]

theorem writeItdMicroFrame_ioc :
    writeItdMicroFrame u fidx (u.isoBuff base) &&& itdIoc ≠ 0 ↔ u.PageFar base fidx := by
  unfold writeItdMicroFrame Utr.PageFar
  dsimp only
  rw [ioc_iff, ioc_iff, BitVec.getLsbD_or, BitVec.getLsbD_or, BitVec.getLsbD_or]
  have active : itdStatusActive.getLsbD 15 = false := by decide
  have offset : (u.isoBuff fidx &&& 0xfff).getLsbD 15 = false := by
    rw [BitVec.getLsbD_and, show (0xfff : U32).getLsbD 15 = false by decide, Bool.and_false]
  have length : (((u.isoXlen fidx).setWidth 32 &&& 0xfff : U32) <<< itdXlenPos).getLsbD 15 = false := by
    simp [itdXlenPos]
  rw [active, offset, length, Bool.false_or, Bool.false_or, Bool.or_false]

theorem framesIn_used (used : mask.getLsbD i = true) :
    framesIn mask (n + 1) i = framesIn mask n (i + 1) + 1 := by
  rw [framesIn, if_pos used, Nat.add_comm]

theorem framesIn_unused (unused : mask.getLsbD i = false) :
    framesIn mask (n + 1) i = framesIn mask n (i + 1) := by
  rw [framesIn, unused, if_neg Bool.false_ne_true, Nat.zero_add]

theorem settleFrames_unused (unused : mask.getLsbD i = false) :
    settleFrames u x mask (n + 1) i fidx tr =
      settleFrames u x mask n (i + 1) fidx (Function.update tr i 0) := by
  rw [settleFrames, if_pos unused]

theorem settleFrames_last (used : mask.getLsbD i = true) (last : fidx + 1 = ifPerUtr) :
    settleFrames u x mask (n + 1) i fidx tr =
      (Function.update tr i (writeItdMicroFrame u fidx x ||| itdIoc), fidx + 1) := by
  rw [settleFrames, used, if_neg Bool.true_eq_false.mp]
  exact if_pos last

theorem settleFrames_used (used : mask.getLsbD i = true) (more : fidx + 1 ≠ ifPerUtr) :
    settleFrames u x mask (n + 1) i fidx tr =
      settleFrames u x mask n (i + 1) (fidx + 1)
        (Function.update tr i (writeItdMicroFrame u fidx x)) := by
  rw [settleFrames, used, if_neg Bool.true_eq_false.mp]
  exact if_neg more

theorem settleFrames_before (before : j < i) :
    (settleFrames u x mask n i fidx tr).1 j = tr j := by
  have other : j ≠ i := by omega
  induction n generalizing i fidx tr with
  | zero => rfl
  | succ n ih =>
    have later (fidx : Nat) (word : U32) :
        (settleFrames u x mask n (i + 1) fidx (Function.update tr i word)).1 j = tr j := by
      rw [ih (by omega) (by omega), Function.update_of_ne other]
    cases used : mask.getLsbD i with
    | false =>
      rw [settleFrames_unused used]
      exact later _ _
    | true =>
      by_cases last : fidx + 1 = ifPerUtr
      · rw [settleFrames_last used last]
        exact Function.update_of_ne other _ _
      · rw [settleFrames_used used last]
        exact later _ _

theorem settleFrames_count (room : fidx + framesIn mask n i ≤ ifPerUtr) :
    (settleFrames u x mask n i fidx tr).2 = fidx + framesIn mask n i := by
  induction n generalizing i fidx tr with
  | zero => rfl
  | succ n ih =>
    cases used : mask.getLsbD i with
    | false =>
      rw [framesIn_unused used] at room ⊢
      rw [settleFrames_unused used, ih room]
    | true =>
      rw [framesIn_used used] at room ⊢
      by_cases last : fidx + 1 = ifPerUtr
      · rw [settleFrames_last used last]
        dsimp only
        omega
      · rw [settleFrames_used used last, ih (by omega)]
        omega

theorem settleFrames_ioc (room : fidx + framesIn mask n i ≤ ifPerUtr) :
    (∃ j, i ≤ j ∧ j < i + n ∧
      (settleFrames u (u.isoBuff base) mask n i fidx tr).1 j &&& itdIoc ≠ 0) ↔
      0 < framesIn mask n i ∧ fidx + framesIn mask n i = ifPerUtr ∨
        ∃ f, fidx ≤ f ∧ f < fidx + framesIn mask n i ∧ u.PageFar base f := by
  induction n generalizing i fidx tr with
  | zero =>
    unfold framesIn
    refine iff_of_false ?_ ?_
    · rintro ⟨j, first, second, -⟩
      omega
    · rintro (⟨some, -⟩ | ⟨f, first, second, -⟩)
      · omega
      · omega
  | succ n ih =>
    have apart (later : (Nat → U32) × Nat) :
        (∃ j, i ≤ j ∧ j < i + (n + 1) ∧ later.1 j &&& itdIoc ≠ 0) ↔
          later.1 i &&& itdIoc ≠ 0 ∨ ∃ j, i + 1 ≤ j ∧ j < i + 1 + n ∧ later.1 j &&& itdIoc ≠ 0 := by
      constructor
      · rintro ⟨j, first, second, set⟩
        by_cases here : j = i
        · subst here
          exact Or.inl set
        · exact Or.inr ⟨j, by omega, by omega, set⟩
      · rintro (set | ⟨j, first, second, set⟩)
        · exact ⟨i, le_rfl, by omega, set⟩
        · exact ⟨j, by omega, by omega, set⟩
    rw [apart]
    cases used : mask.getLsbD i with
    | false =>
      rw [framesIn_unused used] at room ⊢
      rw [settleFrames_unused used, settleFrames_before (Nat.lt_succ_self i), Function.update_self, ih room]
      refine or_iff_right ?_
      decide
    | true =>
      rw [framesIn_used used] at room ⊢
      by_cases last : fidx + 1 = ifPerUtr
      · rw [settleFrames_last used last]
        refine iff_of_true (Or.inl ?_) (Or.inl ⟨by omega, by omega⟩)
        dsimp only
        rw [Function.update_self, or_ioc]
        exact Or.inr (by decide)
      · rw [settleFrames_used used last, settleFrames_before (Nat.lt_succ_self i), Function.update_self,
          writeItdMicroFrame_ioc, ih (by omega)]
        constructor
        · rintro (far | ⟨some, whole⟩ | ⟨f, first, second, far⟩)
          · exact Or.inr ⟨fidx, le_rfl, by omega, far⟩
          · exact Or.inl ⟨by omega, by omega⟩
          · exact Or.inr ⟨f, by omega, by omega, far⟩
        · rintro (⟨-, whole⟩ | ⟨f, first, second, far⟩)
          · exact Or.inr (Or.inl ⟨by omega, by omega⟩)
          · by_cases here : f = fidx
            · subst here
              exact Or.inl far
            · exact Or.inr (Or.inr ⟨f, by omega, by omega, far⟩)

end Settle

namespace EhciIso

section Fill

variable {b : UnitBase} {s t : EhciIso} {u : Utr} {plan : ItdPlan} {utr isoEp itd a : U32}
  {rest linked list out : List U32} {n i fidx interval : Nat}

structure SameIso (s t : EhciIso) : Prop where
  isoEps : t.isoEps = s.isoEps
  eps : t.eps = s.eps
  udevs : t.udevs = s.udevs
  utrs : t.utrs = s.utrs

theorem SameIso.trans {r : EhciIso} (first : s.SameIso t) (second : t.SameIso r) : s.SameIso r :=
  ⟨second.isoEps.trans first.isoEps, second.eps.trans first.eps, second.udevs.trans first.udevs,
    second.utrs.trans first.utrs⟩

theorem allocItd_same : s.SameIso (s.allocItd b).2 := by
  unfold allocItd
  dsimp only
  split_ifs <;> exact ⟨rfl, rfl, rfl, rfl⟩

theorem allocSitd_same : s.SameIso (s.allocSitd b).2 := by
  unfold allocSitd
  dsimp only
  split_ifs <;> exact ⟨rfl, rfl, rfl, rfl⟩

theorem allocItd_taken (granted : (s.allocItd b).1 ≠ 0) :
    b.Fresh s.pool.used (s.allocItd b).1 ∧ b.InUse (s.allocItd b).2.pool.used (s.allocItd b).1 ∧
      ∀ c, b.InUse s.pool.used c → b.InUse (s.allocItd b).2.pool.used c := by
  unfold allocItd at granted ⊢
  dsimp only at granted ⊢
  split_ifs at granted ⊢ with none
  · exact absurd none granted
  · exact UnitBase.take_taken .itd none

theorem allocAll_same {alloc : EhciIso → U32 × EhciIso} (same : ∀ s, SameIso s (alloc s).2)
    (ret : allocAll alloc n list s = (t, out, true)) : s.SameIso t := by
  induction n generalizing list s with
  | zero =>
    cases ret
    exact ⟨rfl, rfl, rfl, rfl⟩
  | succ n ih =>
    unfold allocAll at ret
    dsimp only at ret
    split_ifs at ret
    · cases ret
    · exact (same s).trans (ih ret)

theorem allocItds_nodup (nodup : list.Nodup) (taken : ∀ a ∈ list, b.InUse s.pool.used a)
    (ret : allocAll (allocItd b) n list s = (t, out, true)) :
    out.length = list.length + n ∧ out.Nodup := by
  induction n generalizing list s with
  | zero =>
    cases ret
    exact ⟨rfl, nodup⟩
  | succ n ih =>
    unfold allocAll at ret
    dsimp only at ret
    by_cases refused : (s.allocItd b).1 = 0
    · rw [if_pos refused] at ret
      cases ret
    · rw [if_neg refused] at ret
      obtain ⟨fresh, mine, keeps⟩ := allocItd_taken refused
      have new : (s.allocItd b).1 ∉ list := fun mem => (taken _ mem).not_fresh fresh
      have all : ∀ a ∈ (s.allocItd b).1 :: list, b.InUse (s.allocItd b).2.pool.used a := by
        intro a mem
        rcases List.mem_cons.mp mem with rfl | mem
        · exact mine
        · exact keeps a (taken a mem)
      obtain ⟨length, distinct⟩ := ih (List.nodup_cons.mpr ⟨new, nodup⟩) all ret
      refine ⟨?_, distinct⟩
      rw [length, List.length_cons]
      omega

structure Filled (t : EhciIso) (u : Utr) (plan : ItdPlan) (a : U32) (fidx : Nat) : Prop where
  first : (t.itds a).fidx = fidx
  transMask : (t.itds a).transMask = plan.transMask
  transaction : ∃ tr, (t.itds a).transaction =
    (settleFrames u (u.isoBuff fidx) plan.transMask 8 0 fidx tr).1

structure FilledAll (s t : EhciIso) (u : Utr) (plan : ItdPlan) (isoEp : U32) (rest : List U32)
    (fidx : Nat) : Prop where
  itdList : (t.isoEps isoEp).itdList = (s.isoEps isoEp).itdList ++ rest
  sitdList : (t.isoEps isoEp).sitdList = (s.isoEps isoEp).sitdList
  filled : ∀ i (inside : i < rest.length),
    t.Filled u plan rest[i] (fidx + i * framesIn plan.transMask 8 0)
  others : ∀ a ∉ rest, t.itds a = s.itds a

theorem fillItds_filled (nodup : rest.Nodup)
    (room : fidx + rest.length * framesIn plan.transMask 8 0 ≤ ifPerUtr)
    (ret : fillItds utr isoEp plan rest fidx linked s = (t, out, true)) :
    FilledAll s t (s.utrs utr) plan isoEp rest fidx := by
  induction rest generalizing fidx linked s with
  | nil =>
    cases ret
    refine ⟨(List.append_nil _).symm, rfl, ?_, fun _ _ => rfl⟩
    intro i inside
    cases inside
  | cons itd rest ih =>
    obtain ⟨new, nodup⟩ := List.nodup_cons.mp nodup
    rw [List.length_cons, Nat.succ_mul] at room
    unfold fillItds at ret
    dsimp only at ret
    by_cases full : fidx ≥ ifPerUtr
    · rw [if_pos full] at ret
      cases ret
    · rw [if_neg full] at ret
      generalize filled : s.fillItd utr itd plan.transMask fidx = out' at ret
      have count : out'.2 = fidx + framesIn plan.transMask 8 0 := by
        rw [← filled]
        exact settleFrames_count (by omega)
      rw [count] at ret
      have utrs : (out'.1.linkItd isoEp itd plan.interval).utrs = s.utrs := by
        rw [← filled]
        rfl
      have later := ih nodup (by omega) ret
      rw [utrs] at later
      have here : Filled (out'.1.linkItd isoEp itd plan.interval) (s.utrs utr) plan itd fidx := by
        rw [← filled]
        refine ⟨?_, ?_, ?_⟩
        · simp [linkItd, fillItd, setItd, setIsoEp]
        · simp [linkItd, fillItd, setItd, setIsoEp]
        · refine ⟨(s.itds itd).transaction, ?_⟩
          simp [linkItd, fillItd, setItd, setIsoEp]
      refine ⟨?_, ?_, ?_, ?_⟩
      · rw [later.itdList, ← filled]
        simp [linkItd, fillItd, setItd, setIsoEp]
      · rw [later.sitdList, ← filled]
        simp [linkItd, fillItd, setItd, setIsoEp]
      · intro i inside
        cases i with
        | zero =>
          obtain ⟨first, second, third⟩ := here
          rw [← later.others itd new] at first second third
          rw [Nat.zero_mul, Nat.add_zero]
          exact ⟨first, second, third⟩
        | succ i =>
          have there := later.filled i (by simpa using inside)
          rw [Nat.succ_mul, Nat.add_comm (i * _), ← Nat.add_assoc]
          exact there
      · intro a other
        rw [List.mem_cons, not_or] at other
        obtain ⟨apart, outside⟩ := other
        rw [later.others a outside, ← filled]
        simp [linkItd, fillItd, setItd, setIsoEp, apart]

theorem Filled.requests (filled : t.Filled u plan a fidx)
    (room : fidx + framesIn plan.transMask 8 0 ≤ ifPerUtr) (some : 0 < framesIn plan.transMask 8 0) :
    (IsoTd.itd a).Requests t ↔ fidx + framesIn plan.transMask 8 0 = ifPerUtr ∨
      ∃ f, fidx ≤ f ∧ f < fidx + framesIn plan.transMask 8 0 ∧ u.PageFar fidx f := by
  obtain ⟨tr, word⟩ := filled.transaction
  have asks : (IsoTd.itd a).Requests t ↔ ∃ i < 8, (t.itds a).transaction i &&& itdIoc ≠ 0 := Iff.rfl
  rw [asks, word]
  have settled : (∃ j, 0 ≤ j ∧ j < 0 + 8 ∧
      (settleFrames u (u.isoBuff fidx) plan.transMask 8 0 fidx tr).1 j &&& itdIoc ≠ 0) ↔ _ :=
    settleFrames_ioc room
  simp only [Nat.zero_le, true_and, Nat.zero_add, some] at settled
  exact settled

theorem FilledAll.iocAtLast (all : FilledAll s t u plan isoEp rest 0) (nodup : rest.Nodup)
    (whole : rest.length * framesIn plan.transMask 8 0 = ifPerUtr)
    (some : 0 < framesIn plan.transMask 8 0) :
    IocAtLast t (rest.map .itd) ↔ u.PagesNear (framesIn plan.transMask 8 0) := by
  have filled := all.filled
  generalize count : framesIn plan.transMask 8 0 = n at filled whole some ⊢
  simp only [Nat.zero_add] at filled
  have room {i : Nat} (inside : i < rest.length) : i * n + n ≤ ifPerUtr := by
    rw [← whole, ← Nat.succ_mul]
    exact Nat.mul_le_mul_right n inside
  have requests {i : Nat} (inside : i < rest.length) :
      (IsoTd.itd rest[i]).Requests t ↔ i * n + n = ifPerUtr ∨
        ∃ f, i * n ≤ f ∧ f < i * n + n ∧ u.PageFar (i * n) f := by
    have here := (filled i inside).requests (by rw [count]; exact room inside) (by rw [count]; exact some)
    rw [count] at here
    exact here
  have last {i : Nat} (inside : i < rest.length) : i * n + n = ifPerUtr ↔ i + 1 = rest.length := by
    rw [← whole, ← Nat.succ_mul]
    exact Nat.mul_left_inj (by omega)
  have carries {i : Nat} (inside : i < rest.length) :
      (IsoTd.itd rest[i]).Carries t (ifPerUtr - 1) ↔ i + 1 = rest.length := by
    have within : (IsoTd.itd rest[i]).Carries t (ifPerUtr - 1) ↔ (t.itds rest[i]).fidx ≤ ifPerUtr - 1 ∧
        ifPerUtr - 1 < (t.itds rest[i]).fidx + framesIn (t.itds rest[i]).transMask 8 0 := Iff.rfl
    rw [within, (filled i inside).first, (filled i inside).transMask, count, ← last inside]
    have most := room inside
    unfold ifPerUtr at *
    constructor
    · rintro ⟨-, second⟩
      omega
    · intro ends
      omega
  constructor
  · rintro ⟨td, mem, -, carried, unique⟩ f low far
    obtain ⟨a, here, rfl⟩ := List.mem_map.mp mem
    obtain ⟨i, inside, rfl⟩ := List.mem_iff_getElem.mp here
    have final := (carries inside).mp carried
    have early : f / n < i := by
      rw [Nat.div_lt_iff_lt_mul some]
      have ends := (last inside).mpr final
      omega
    have within : f / n < rest.length := by omega
    have asks : (IsoTd.itd rest[f / n]).Requests t := by
      refine (requests within).mpr (Or.inr ⟨f, Nat.div_mul_le_self f n, ?_, far⟩)
      have bound := Nat.lt_div_mul_add (a := f) some
      exact bound
    have same := unique _ (List.mem_map_of_mem (List.getElem_mem within)) asks
    have equal : f / n = i := (List.Nodup.getElem_inj_iff nodup).mp (IsoTd.itd.inj same)
    omega
  · intro near
    have length : 0 < rest.length := by
      refine Nat.pos_of_ne_zero ?_
      intro none
      rw [none, Nat.zero_mul] at whole
      exact absurd whole (by decide)
    have inside : rest.length - 1 < rest.length := by omega
    have final : rest.length - 1 + 1 = rest.length := by omega
    refine ⟨.itd rest[rest.length - 1], List.mem_map_of_mem (List.getElem_mem inside),
      (requests inside).mpr (Or.inl ((last inside).mpr final)), (carries inside).mpr final, ?_⟩
    intro other mem asks
    obtain ⟨a, here, rfl⟩ := List.mem_map.mp mem
    obtain ⟨i, low, rfl⟩ := List.mem_iff_getElem.mp here
    have ends : i + 1 = rest.length := by
      rcases (requests low).mp asks with whole' | ⟨f, first, second, far⟩
      · exact (last low).mp whole'
      · by_contra more
        have next : i + 1 < rest.length := by omega
        have behind := room next
        rw [Nat.succ_mul] at behind
        have quotient : f / n = i := by
          refine Nat.div_eq_of_lt_le first ?_
          rw [Nat.succ_mul]
          exact second
        refine near f (by omega) ?_
        rw [quotient]
        exact far
    have equal : i = rest.length - 1 := by omega
    subst equal
    rfl

end Fill

section Split

variable {b : UnitBase} {s t : EhciIso} {utr isoEp sitd a : U32} {rest linked out : List U32}
  {hub : HubDev} {turns fidx bInterval : Nat}

def Quiet (s : EhciIso) (a : U32) : Prop := (s.sitds a).stsCtrl &&& sitdIoc = 0

theorem writeSitdInfo_quiet {d : Udev} {ep : EpInfo} {u : Utr} {old new : Sitd}
    (written : writeSitdInfo d hub ep u old = some new) : new.stsCtrl &&& sitdIoc = 0 := by
  unfold writeSitdInfo at written
  dsimp only at written
  obtain ⟨sched, found, same⟩ := Option.bind_eq_some_iff.mp written
  have short : (u.isoXlen old.fidx).toNat < 2 ^ 15 := by
    unfold sitdSched at found
    split_ifs at found with first second third
    · omega
    · have inside := (List.getElem?_eq_some_iff.mp found).1
      have table : sitdOutSmask.length = 6 := rfl
      omega
  have word : new.stsCtrl =
      BitVec.ofNat 32 (u.isoXlen old.fidx).toNat <<< sitdXferCntPos ||| sitdStatusActive := by
    cases same
    rfl
  have number : (BitVec.ofNat 32 (u.isoXlen old.fidx).toNat).getLsbD 15 = false := by
    rw [BitVec.getLsbD_ofNat, Nat.testBit_lt_two_pow short, Bool.and_false]
  have bit : ∀ i < 32, sitdIoc.getLsbD i = decide (i = 31) := by decide
  rw [word]
  apply BitVec.eq_of_getLsbD_eq
  intro i inside
  rw [BitVec.getLsbD_and, bit i inside]
  by_cases here : i = 31
  · subst here
    rw [BitVec.getLsbD_or, BitVec.getLsbD_shiftLeft, show 31 - sitdXferCntPos = 15 from rfl, number,
      show sitdStatusActive.getLsbD 31 = false by decide]
    simp
  · simp [here]

theorem adjustSchedule_same (ret : s.adjustSchedule turns sitd = some t) :
    t.isoEps = s.isoEps ∧ ∀ a, s.Quiet a → t.Quiet a := by
  unfold adjustSchedule at ret
  obtain ⟨mask, -, ret⟩ := Option.bind_eq_some_iff.mp ret
  dsimp only at ret
  split_ifs at ret
  · obtain ⟨sched, -, ret⟩ := Option.bind_eq_some_iff.mp ret
    cases ret
    refine ⟨rfl, ?_⟩
    intro a quiet
    unfold Quiet setSitd at *
    by_cases here : a = sitd
    · subst here
      simpa using quiet
    · simpa [here] using quiet
  · cases ret
    exact ⟨rfl, fun _ quiet => quiet⟩

theorem linkSitd_quiet (ret : s.linkSitd turns isoEp sitd bInterval = some t) :
    (t.isoEps isoEp).sitdList = (s.isoEps isoEp).sitdList ++ [sitd] ∧
      (t.isoEps isoEp).itdList = (s.isoEps isoEp).itdList ∧ ∀ a, s.Quiet a → t.Quiet a := by
  unfold linkSitd at ret
  obtain ⟨m, adjusted, ret⟩ := Option.bind_eq_some_iff.mp ret
  obtain ⟨isoEps, quiet⟩ := adjustSchedule_same adjusted
  have before : ∀ a, s.Quiet a →
      (s.setSitd sitd fun d => { d with schedFrnidx := (s.isoEps isoEp).nextFrame }).Quiet a := by
    intro a here
    unfold Quiet setSitd at *
    by_cases same : a = sitd
    · subst same
      simpa using here
    · simpa [same] using here
  cases ret
  refine ⟨?_, ?_, fun a here => quiet a (before a here)⟩
  · simp [setIsoEp, isoEps, setSitd]
  · simp [setIsoEp, isoEps, setSitd]

theorem fillSitds_quiet
    (ret : fillSitds turns utr isoEp hub rest fidx linked s = some (t, out, true)) :
    (t.isoEps isoEp).sitdList = (s.isoEps isoEp).sitdList ++ rest ∧
      (t.isoEps isoEp).itdList = (s.isoEps isoEp).itdList ∧
        ∀ a, a ∈ rest ∨ s.Quiet a → t.Quiet a := by
  induction rest generalizing fidx linked s with
  | nil =>
    cases ret
    refine ⟨(List.append_nil _).symm, rfl, ?_⟩
    rintro a (mem | quiet)
    · cases mem
    · exact quiet
  | cons sitd rest ih =>
    unfold fillSitds at ret
    by_cases full : fidx ≥ ifPerUtr
    · rw [if_pos full] at ret
      cases ret
    · rw [if_neg full] at ret
      obtain ⟨d, written, ret⟩ := Option.bind_eq_some_iff.mp ret
      obtain ⟨m, linked', ret⟩ := Option.bind_eq_some_iff.mp ret
      obtain ⟨sitdList, itdList, later⟩ := ih ret
      obtain ⟨sitdList', itdList', kept⟩ := linkSitd_quiet linked'
      refine ⟨?_, itdList.trans itdList', ?_⟩
      · rw [sitdList, sitdList']
        simp [setSitd]
      · have own : (s.setSitd sitd fun _ => d).Quiet sitd := by
          unfold Quiet setSitd
          simpa using writeSitdInfo_quiet written
        have others : ∀ a, s.Quiet a → (s.setSitd sitd fun _ => d).Quiet a := by
          intro a quiet
          by_cases here : a = sitd
          · rw [here]
            exact own
          · unfold Quiet setSitd at *
            simpa [here] using quiet
        rintro a (mem | quiet)
        · rcases List.mem_cons.mp mem with rfl | mem
          · exact later a (Or.inr (kept a own))
          · exact later a (Or.inl mem)
        · exact later a (Or.inr (kept a (others a quiet)))

theorem isoSplitXfer_quiet (ret : s.isoSplitXfer b turns utr isoEp = some (t, 0)) :
    ∃ sitds, (t.isoEps isoEp).sitdList = (s.isoEps isoEp).sitdList ++ sitds ∧
      (t.isoEps isoEp).itdList = (s.isoEps isoEp).itdList ∧ ∀ a ∈ sitds, t.Quiet a := by
  unfold isoSplitXfer at ret
  split at ret
  · cases ret
  · generalize taken : allocAll (allocSitd b) ifPerUtr [] s = got at ret
    obtain ⟨m, sitds, ok⟩ := got
    cases ok with
    | false => cases ret
    | true =>
      rw [if_neg Bool.true_eq_false.mp] at ret
      obtain ⟨⟨r, linked, ok⟩, filled, ret⟩ := Option.bind_eq_some_iff.mp ret
      have same := allocAll_same (fun _ => allocSitd_same) taken
      cases ok with
      | false => cases ret
      | true =>
        obtain ⟨sitdList, itdList, quiet⟩ := fillSitds_quiet filled
        cases ret
        refine ⟨sitds, ?_, ?_, fun a mem => quiet a (Or.inl mem)⟩
        · refine sitdList.trans ?_
          simp [setUtr, same.isoEps]
        · refine itdList.trans ?_
          simp [setUtr, same.isoEps]

end Split

theorem itdPlan_whole (bInterval : Nat) :
    (itdPlan bInterval).itdCnt * framesIn (itdPlan bInterval).transMask 8 0 = ifPerUtr ∧
      0 < framesIn (itdPlan bInterval).transMask 8 0 := by
  unfold itdPlan
  split_ifs <;> decide

theorem pipeIsoEp_keeps (s : EhciIso) (utr : U32) : (s.pipeIsoEp utr).2.utrs = s.utrs ∧
    (s.pipeIsoEp utr).2.udevs = s.udevs ∧
      ((s.pipeIsoEp utr).2.eps (s.utrs utr).ep).bInterval = (s.eps (s.utrs utr).ep).bInterval := by
  unfold pipeIsoEp
  dsimp only
  split_ifs
  · exact ⟨rfl, rfl, rfl⟩
  · exact ⟨rfl, rfl, rfl⟩
  · exact ⟨rfl, rfl, rfl⟩
  · exact ⟨rfl, rfl, by simp⟩

structure Queued (s t : EhciIso) (utr : U32) (itds sitds : List U32) : Prop where
  itdList : (t.isoEps (s.pipeIsoEp utr).1).itdList =
    ((s.pipeIsoEp utr).2.isoEps (s.pipeIsoEp utr).1).itdList ++ itds
  sitdList : (t.isoEps (s.pipeIsoEp utr).1).sitdList =
    ((s.pipeIsoEp utr).2.isoEps (s.pipeIsoEp utr).1).sitdList ++ sitds

theorem split_silent {b : UnitBase} {turns : Nat} {s t : EhciIso} {utr : U32}
    (full : (s.udevs (s.utrs utr).udev).speed = .full)
    (accepted : s.isoXfer b turns utr = some (t, 0)) :
    ∃ sitds, Queued s t utr [] sitds ∧ ¬IocAtLast t ([].map .itd ++ sitds.map .sitd) := by
  obtain ⟨utrs, udevs, -⟩ := pipeIsoEp_keeps s utr
  unfold isoXfer at accepted
  dsimp only at accepted
  rw [utrs, udevs] at accepted
  by_cases none : (s.pipeIsoEp utr).1 = 0
  · rw [if_pos none] at accepted
    cases accepted
  · rw [if_neg none, if_pos full] at accepted
    obtain ⟨sitds, sitdList, itdList, quiet⟩ := isoSplitXfer_quiet accepted
    refine ⟨sitds, ⟨itdList.trans (List.append_nil _).symm, sitdList⟩, ?_⟩
    rintro ⟨td, mem, asks, -⟩
    rw [List.map_nil, List.nil_append] at mem
    obtain ⟨a, here, rfl⟩ := List.mem_map.mp mem
    exact asks (quiet a here)

/-- The interrupt of an accepted transfer comes with its last packet, and with no other, exactly where
the endpoint is no full-speed one and the packets of a descriptor are close to each other. -/
theorem ehci_iso_ioc_iff {b : UnitBase} {turns : Nat} {s t : EhciIso} {utr : U32}
    (accepted : s.isoXfer b turns utr = some (t, 0)) :
    ∃ itds sitds, Queued s t utr itds sitds ∧
      (IocAtLast t (itds.map .itd ++ sitds.map .sitd) ↔
        (s.udevs (s.utrs utr).udev).speed ≠ .full ∧
          (s.utrs utr).PagesNear
            (framesIn (itdPlan (s.eps (s.utrs utr).ep).bInterval.toNat).transMask 8 0)) := by
  by_cases full : (s.udevs (s.utrs utr).udev).speed = .full
  · obtain ⟨sitds, queued, silent⟩ := split_silent full accepted
    exact ⟨[], sitds, queued, iff_of_false silent fun both => both.1 full⟩
  · obtain ⟨utrs, udevs, bInterval⟩ := pipeIsoEp_keeps s utr
    unfold isoXfer at accepted
    dsimp only at accepted
    rw [utrs, udevs, bInterval] at accepted
    by_cases none : (s.pipeIsoEp utr).1 = 0
    · rw [if_pos none] at accepted
      cases accepted
    · rw [if_neg none, if_neg full] at accepted
      generalize (s.eps (s.utrs utr).ep).bInterval.toNat = interval at accepted ⊢
      obtain ⟨whole, some⟩ := itdPlan_whole interval
      generalize itdPlan interval = plan at accepted whole some ⊢
      generalize taken : allocAll (allocItd b) plan.itdCnt [] (s.pipeIsoEp utr).2 = got at accepted
      obtain ⟨m, itds, ok⟩ := got
      cases ok with
      | false => cases accepted
      | true =>
        rw [if_neg Bool.true_eq_false.mp] at accepted
        have same := allocAll_same (fun _ => allocItd_same) taken
        obtain ⟨length, nodup⟩ := allocItds_nodup List.nodup_nil
          (fun a mem => absurd mem List.not_mem_nil) taken
        rw [List.length_nil, Nat.zero_add] at length
        rw [← length] at whole
        generalize filled : fillItds utr (s.pipeIsoEp utr).1 plan itds 0 [] _ = out at accepted
        obtain ⟨r, linked, ok⟩ := out
        cases ok with
        | false => cases accepted
        | true =>
          have all := fillItds_filled nodup (by rw [Nat.zero_add, whole]) filled
          have near (u : Utr) (buff : u.isoBuff = (s.utrs utr).isoBuff) (n : Nat) :
              u.PagesNear n ↔ (s.utrs utr).PagesNear n := by
            unfold Utr.PagesNear Utr.PageFar
            rw [buff]
          have ends := all.iocAtLast nodup whole some
          rw [near _ (by simp [setUtr, same.utrs, utrs])] at ends
          obtain ⟨itdList, sitdList⟩ : _ ∧ _ := ⟨all.itdList, all.sitdList⟩
          cases accepted
          refine ⟨itds, [], ⟨?_, ?_⟩, ?_⟩
          · refine itdList.trans ?_
            simp [setUtr, same.isoEps]
          · refine sitdList.trans ?_
            simp [setUtr, same.isoEps]
          · rw [List.map_nil, List.append_nil]
            exact ends.trans (and_iff_right full).symm

end EhciIso

def isoEhci (speed : UsbSpeed) : EhciIso where
  pool := ⟨fun _ => false, 0, 0⟩
  refuse := []
  itds := fun _ => ⟨0, 0, 0, 0, 0, 0, 0⟩
  sitds := fun _ => ⟨0, 0, 0, 0, 0, 0, 0, 0, 0⟩
  nextLink := fun _ => 0x1
  pfList := fun _ => 0x1
  isoEps := fun _ => ⟨0, [], []⟩
  isoEpList := []
  isoMem := []
  eps := fun _ => ⟨0x81, 1, 4, 0, 188, 0x20000300⟩
  udevs := fun _ => ⟨64, [⟨.high, 1, 1⟩], 1, 2, speed, 0x20000100⟩
  utrs := fun _ => ⟨0x20000000, 0, 0x20000200, 0, false, 0, 0, true, 0, fun _ => 188,
    fun i => BitVec.ofNat 32 (0x20001000 + 188 * i), 0, 0, 0⟩
  ufindr := 0
  ucmdr := 0

theorem highSpeed_ioc : ∃ t, (isoEhci .high).isoXfer unitBaseAt 17 0x20002000 = some (t, 0) ∧
    ∃ itds sitds, (isoEhci .high).Queued t 0x20002000 itds sitds ∧
      IocAtLast t (itds.map .itd ++ sitds.map .sitd) := by
  have ends : ((isoEhci .high).isoXfer unitBaseAt 17 0x20002000).map Prod.snd = some 0 := by
    decide
  obtain ⟨⟨t, err⟩, ret, rfl⟩ := Option.map_eq_some_iff.mp ends
  obtain ⟨itds, sitds, queued, same⟩ := EhciIso.ehci_iso_ioc_iff ret
  refine ⟨t, ret, itds, sitds, queued, same.mpr ⟨by decide, ?_⟩⟩
  unfold Utr.PagesNear Utr.PageFar
  decide

theorem fullSpeed_silent : ∃ t, (isoEhci .full).isoXfer unitBaseAt 17 0x20002000 = some (t, 0) ∧
    ∃ itds sitds, (isoEhci .full).Queued t 0x20002000 itds sitds ∧
      ¬IocAtLast t (itds.map .itd ++ sitds.map .sitd) := by
  have ends : ((isoEhci .full).isoXfer unitBaseAt 17 0x20002000).map Prod.snd = some 0 := by
    decide
  obtain ⟨⟨t, err⟩, ret, rfl⟩ := Option.map_eq_some_iff.mp ends
  obtain ⟨sitds, queued, silent⟩ := EhciIso.split_silent (by decide) ret
  exact ⟨t, ret, [], sitds, queued, silent⟩

end NuMakerMA35
