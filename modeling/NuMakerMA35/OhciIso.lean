import NuMakerMA35.OhciDone
import NuMakerMA35.OhciAtomic

namespace NuMakerMA35

def isoStatusOf (cc : Nat) : Int :=
  if cc = 0xf then usbhErrSchOverrun
  else if cc = ccNoError ∨ cc = ccDataUnderrun then 0
  else usbhErrCcNoErr - cc

def pswCc (psw : U32) : Nat := ((psw >>> 12) &&& 0xf).toNat

namespace Ohci

/-- The descriptor is one for `len` bytes at `buff`, in the frame `sf`. -/
structure Built (t : Ohci) (utr ed td : U32) (sf : BitVec 16) (buff : U32) (len : BitVec 16) : Prop where
  info : (t.tds td).info = tdCc ||| tdTypeIso ||| sf.setWidth 32
  cbp : (t.tds td).cbp = buff &&& ~~~0xfff
  be : (t.tds td).be = buff + len.setWidth 32 - 1
  psw : (t.tds td).psw = 0xe000 ||| buff &&& 0xfff
  ed : (t.tds td).ed = ed
  utr : (t.tds td).utr = utr

def isoResult (u : Utr) : (Nat → Int) × (Nat → BitVec 16) × BitVec 16 := (u.isoStatus, u.isoXlen, u.isoSf)

/-- What anything but `td_done` leaves alone of a transfer and its descriptors that are not done yet:
the controller writes neither the frame nor the type of a descriptor. -/
structure KeepsIso (s s' : Ohci) (utr : U32) (tds : List U32) : Prop where
  results : isoResult (s'.utrs utr) = isoResult (s.utrs utr)
  info : ∀ td ∈ tds, (s'.tds td).info &&& 0x0fffffff = (s.tds td).info &&& 0x0fffffff
  ed : ∀ td ∈ tds, (s'.tds td).ed = (s.tds td).ed
  utr : ∀ td ∈ tds, (s'.tds td).utr = (s.tds td).utr
  bInterval : ∀ td ∈ tds, (s'.eds (s.tds td).ed).bInterval = (s.eds (s.tds td).ed).bInterval

/-- A descriptor that `td_done` took, the status word it had and the index it computed. -/
structure IsoDone where
  td : U32
  psw : U32
  idx : Option Nat

/-- The descriptors of a transfer are done one after the other, between those of other transfers and
whatever the controller and the driver do. -/
inductive IsoRun (b : UnitBase) (utr : U32) (tds : List U32) (t : Ohci) : List IsoDone → Ohci → Prop where
  | submitted : IsoRun b utr tds t [] t
  | mine {s : Ohci} {log : List IsoDone} {td : U32} (before : IsoRun b utr tds t log s) (built : td ∈ tds)
      (first : td ∉ log.map IsoDone.td) :
      IsoRun b utr tds t (log ++ [⟨td, (s.tds td).psw, s.isoIndex td⟩]) (s.reclaim b [td])
  | foreign {s : Ohci} {log : List IsoDone} {td : U32} (before : IsoRun b utr tds t log s)
      (other : (s.tds td).utr ≠ utr) : IsoRun b utr tds t log (s.reclaim b [td])
  | elsewhere {s s' : Ohci} {log : List IsoDone} (before : IsoRun b utr tds t log s)
      (kept : s.KeepsIso s' utr (tds.filter (· ∉ log.map IsoDone.td))) : IsoRun b utr tds t log s'

section Index

variable {s : Ohci} {td : U32} {info x : U32} {sf : BitVec 16} {k n : Nat}

theorem getOhciInterval_pos (n : Nat) : 0 < getOhciInterval n ∧ getOhciInterval n ≤ 32 := by
  unfold getOhciInterval
  split
  · next i found =>
    have low := List.mem_range.mp (List.mem_of_find?_eq_some found)
    refine ⟨Nat.two_pow_pos i, ?_⟩
    calc 2 ^ i ≤ 2 ^ 5 := Nat.pow_le_pow_right (by decide) (by omega)
      _ = 32 := rfl
  · decide

theorem setWidth_of_masked (same : x &&& 0x0fffffff = info &&& 0x0fffffff) :
    (x.setWidth 16 : BitVec 16) = info.setWidth 16 := by
  apply BitVec.eq_of_getLsbD_eq
  intro i inside
  have bit : ∀ j < 16, (0x0fffffff#32).getLsbD j = true := by decide
  have here := congrArg (fun w => w.getLsbD i) same
  simpa [bit i inside, inside] using here

theorem isoInfo_kept (same : x &&& 0x0fffffff = (tdCc ||| tdTypeIso ||| sf.setWidth 32) &&& 0x0fffffff) :
    x &&& tdTypeMsk = tdTypeIso ∧ (x.setWidth 16 : BitVec 16) = sf := by
  refine ⟨?_, ?_⟩
  · have inner (y : U32) : y &&& 0x0fffffff &&& tdTypeMsk = y &&& tdTypeMsk := by
      rw [BitVec.and_assoc]
      rfl
    have low : (sf.setWidth 32 : U32) &&& tdTypeMsk = 0 := by
      apply BitVec.eq_of_getLsbD_eq
      intro i inside
      have bit : ∀ j < 16, tdTypeMsk.getLsbD j = false := by decide
      by_cases here : i < 16
      · simp [bit i here]
      · simp [BitVec.getLsbD_of_ge sf i (by omega)]
    rw [← inner x, same, inner, BitVec.and_comm, BitVec.and_or_distrib_left, BitVec.and_comm _ (sf.setWidth 32),
      low]
    rfl
  · rw [setWidth_of_masked same]
    apply BitVec.eq_of_getLsbD_eq
    intro i inside
    have bit : ∀ j < 16, (tdCc ||| tdTypeIso).getLsbD j = false := by decide
    have here := bit i inside
    rw [BitVec.getLsbD_setWidth, BitVec.getLsbD_or, here, BitVec.getLsbD_setWidth]
    simp [inside, show i < 32 by omega]

theorem isoFrame_index (sf : BitVec 16) {i : Nat} (inside : i < ifPerUtr) (bInterval : BitVec 8) :
    (sf + BitVec.ofNat 16 (i * getOhciInterval bInterval.toNat) - sf).toNat /
      getOhciInterval bInterval.toNat = i := by
  obtain ⟨some, most⟩ := getOhciInterval_pos bInterval.toNat
  generalize getOhciInterval bInterval.toNat = step at some most
  have bound : i * step ≤ 7 * 32 := by
    unfold ifPerUtr at inside
    exact Nat.mul_le_mul (by omega) most
  rw [BitVec.add_comm, BitVec.add_sub_cancel, BitVec.toNat_ofNat, Nat.mod_eq_of_lt (by omega),
    Nat.mul_div_cancel i some]

end Index

section Loop

variable {b : UnitBase} {s t r : Ohci} {utr ed td a : U32} {u : Utr} {sf : BitVec 16} {i n : Nat}
  {tds out : List U32} {done : Bool}

/-- What the loop of `ohci_iso_xfer` does where it ends: it builds a descriptor for each packet. -/
structure IsoBuilt (b : UnitBase) (s t : Ohci) (utr ed : U32) (i n : Nat) (new : List U32) : Prop where
  length : new.length = n
  grew : b.Grew s.pool.used t.pool.used new
  nodup : new.Nodup
  built : ∀ k (inside : k < new.length), Built t utr ed new[k]
    ((s.eds ed).nextSf + BitVec.ofNat 16 (k * getOhciInterval (s.eds ed).bInterval.toNat))
    ((s.utrs utr).isoBuff (i + k)) ((s.utrs utr).isoXlen (i + k))
  others : ∀ a, b.InUse s.pool.used a → t.tds a = s.tds a
  bInterval : (t.eds ed).bInterval = (s.eds ed).bInterval
  isoSf : (t.utrs utr).isoSf = (s.utrs utr).isoSf
  isoXlen : (t.utrs utr).isoXlen = (s.utrs utr).isoXlen

theorem allocTd_others (other : a ≠ (s.allocTd b utr).1) :
    (s.allocTd b utr).2.tds a = s.tds a := by
  unfold allocTd at other ⊢
  dsimp only at other ⊢
  split_ifs at other ⊢
  · rfl
  · exact Function.update_of_ne other _ _

theorem allocTd_keeps (b : UnitBase) (s : Ohci) (utr : U32) : (s.allocTd b utr).2.eds = s.eds ∧ (s.allocTd b utr).2.utrs = s.utrs := by
  unfold allocTd
  dsimp only
  split_ifs <;> exact ⟨rfl, rfl⟩

theorem allocTd_utr (granted : (s.allocTd b utr).1 ≠ 0) :
    ((s.allocTd b utr).2.tds (s.allocTd b utr).1).utr = utr := by
  unfold allocTd at granted ⊢
  dsimp only at granted ⊢
  split_ifs at granted ⊢ with none
  · exact absurd none granted
  · simp [setTd]

theorem fillIsoTd_built (mine : (s.tds td).utr = utr) :
    Built (s.fillIsoTd utr ed td i) utr ed td (s.eds ed).nextSf ((s.utrs utr).isoBuff i)
      ((s.utrs utr).isoXlen i) := by
  unfold fillIsoTd
  refine ⟨?_, ?_, ?_, ?_, ?_, ?_⟩
  all_goals simp [setTd, setEd, setUtr, mine]

theorem fillIsoTd_others (other : a ≠ td) : (s.fillIsoTd utr ed td i).tds a = s.tds a := by
  unfold fillIsoTd
  simp [setTd, setEd, setUtr, other]

theorem fillIsoTd_ed (s : Ohci) (utr ed td : U32) (i : Nat) :
    ((s.fillIsoTd utr ed td i).eds ed).bInterval = (s.eds ed).bInterval ∧
    ((s.fillIsoTd utr ed td i).eds ed).nextSf =
      (s.eds ed).nextSf + BitVec.ofNat 16 (getOhciInterval (s.eds ed).bInterval.toNat) := by
  unfold fillIsoTd
  simp [setTd, setEd, setUtr]

theorem fillIsoTd_utr : (s.fillIsoTd utr ed td i).utrs utr =
    { s.utrs utr with tdCnt := (s.utrs utr).tdCnt + 1 } := by
  unfold fillIsoTd
  simp [setTd, setEd, setUtr]

theorem IsoBuilt.cons {new : List U32} (built : IsoBuilt b (s.fillIsoTd utr ed td i) t utr ed (i + 1) n new)
    (mine : (s.tds td).utr = utr) (grew : b.Grew r.pool.used s.pool.used [td])
    (tds : ∀ a ≠ td, s.tds a = r.tds a) (eds : s.eds = r.eds)
    (isoSf : (s.utrs utr).isoSf = (r.utrs utr).isoSf)
    (isoBuff : (s.utrs utr).isoBuff = (r.utrs utr).isoBuff)
    (isoXlen : (s.utrs utr).isoXlen = (r.utrs utr).isoXlen) :
    IsoBuilt b r t utr ed i (n + 1) (td :: new) := by
  have later : b.Grew s.pool.used t.pool.used new := built.grew
  have held : b.InUse s.pool.used td := grew.inUse List.mem_cons_self
  have apart {a : U32} (taken : b.InUse r.pool.used a) : a ≠ td := by
    rintro rfl
    exact taken.not_fresh (grew.fresh a List.mem_cons_self)
  obtain ⟨sameInterval, nextSf⟩ := fillIsoTd_ed s utr ed td i
  have head : Built t utr ed td (r.eds ed).nextSf ((r.utrs utr).isoBuff i) ((r.utrs utr).isoXlen i) := by
    have now : Built (s.fillIsoTd utr ed td i) utr ed td (s.eds ed).nextSf ((s.utrs utr).isoBuff i)
        ((s.utrs utr).isoXlen i) := fillIsoTd_built mine
    rw [eds, isoBuff, isoXlen] at now
    obtain ⟨info, cbp, be, psw, ed', utr'⟩ := now
    rw [← built.others td held] at info cbp be psw ed' utr'
    exact ⟨info, cbp, be, psw, ed', utr'⟩
  refine ⟨?_, grew.trans later, ?_, ?_, ?_, ?_, ?_, ?_⟩
  · rw [List.length_cons, built.length]
  · refine List.nodup_cons.mpr ⟨?_, built.nodup⟩
    intro again
    exact held.not_fresh (later.fresh td again)
  · intro k inside
    cases k with
    | zero =>
      rw [Nat.zero_mul, Nat.add_zero, List.getElem_cons_zero]
      have zero (x : BitVec 16) : x + BitVec.ofNat 16 0 = x := BitVec.add_zero x
      rw [zero]
      exact head
    | succ k =>
      have rest := built.built k (by simpa using inside)
      rw [fillIsoTd_utr, nextSf, sameInterval, eds] at rest
      dsimp only at rest
      rw [isoBuff, isoXlen, BitVec.add_assoc, ← BitVec.ofNat_add, Nat.add_right_comm, Nat.add_assoc] at rest
      rw [List.getElem_cons_succ, Nat.succ_mul, Nat.add_comm (k * _)]
      exact rest
  · intro a taken
    rw [built.others a (taken.grew grew), fillIsoTd_others (apart taken), tds a (apart taken)]
  · rw [built.bInterval, sameInterval, eds]
  · rw [built.isoSf, fillIsoTd_utr, ← isoSf]
  · rw [built.isoXlen, fillIsoTd_utr, ← isoXlen]

theorem isoTds_built (ret : isoTds b utr ed n i tds s = (t, out, true)) :
    ∃ new, out = tds ++ new ∧ IsoBuilt b s t utr ed i n new := by
  induction n generalizing i tds s with
  | zero =>
    cases ret
    refine ⟨[], (List.append_nil _).symm, rfl, .none fun _ _ => rfl, List.nodup_nil, ?_,
      fun _ _ => rfl, rfl, rfl, rfl⟩
    intro k inside
    cases inside
  | succ n ih =>
    unfold isoTds at ret
    dsimp only at ret
    generalize marked : s.setUtr utr _ = m at ret
    have pool : m.pool = s.pool := by rw [← marked]; rfl
    have tdsSame : m.tds = s.tds := by rw [← marked]; rfl
    have edsSame : m.eds = s.eds := by rw [← marked]; rfl
    have utrSame : (m.utrs utr).isoSf = (s.utrs utr).isoSf ∧
        (m.utrs utr).isoBuff = (s.utrs utr).isoBuff ∧ (m.utrs utr).isoXlen = (s.utrs utr).isoXlen := by
      rw [← marked]
      simp [setUtr]
    by_cases refused : (m.allocTd b utr).1 = 0
    · rw [if_pos refused] at ret
      cases ret
    · rw [if_neg refused] at ret
      obtain ⟨new, rfl, built⟩ := ih ret
      have grew : b.Grew m.pool.used (m.allocTd b utr).2.pool.used (got (m.allocTd b utr).1) :=
        allocTd_grew
      rw [got_of_ne refused, pool] at grew
      obtain ⟨eds, utrs⟩ := allocTd_keeps b m utr
      refine ⟨_, List.append_assoc _ _ _, built.cons (allocTd_utr refused) grew ?_ ?_ ?_ ?_ ?_⟩
      · intro a apart
        rw [allocTd_others apart, tdsSame]
      · rw [eds, edsSame]
      all_goals rw [utrs]
      · exact utrSame.1
      · exact utrSame.2.1
      · exact utrSame.2.2

/-- `ohci_iso_xfer` has built a descriptor for each packet. -/
structure IsoChain (s t : Ohci) (utr ed : U32) (tds : List U32) : Prop where
  length : tds.length = ifPerUtr
  nodup : tds.Nodup
  built : ∀ k (inside : k < tds.length), Built t utr ed tds[k]
    ((t.utrs utr).isoSf + BitVec.ofNat 16 (k * getOhciInterval (t.eds ed).bInterval.toNat))
    ((s.utrs utr).isoBuff k) ((s.utrs utr).isoXlen k)
  isoXlen : (t.utrs utr).isoXlen = (s.utrs utr).isoXlen

theorem beginIso_keeps (s : Ohci) (utr ed : U32) : ((s.beginIso utr ed).eds ed).bInterval = (s.eds ed).bInterval ∧
    ((s.beginIso utr ed).eds ed).nextSf = ((s.beginIso utr ed).utrs utr).isoSf ∧
    ((s.beginIso utr ed).utrs utr).isoBuff = (s.utrs utr).isoBuff ∧
    ((s.beginIso utr ed).utrs utr).isoXlen = (s.utrs utr).isoXlen := by
  unfold beginIso
  dsimp only
  split_ifs <;> simp [setEd, setUtr]

theorem isoTds_chain (ret : isoTds b utr ed ifPerUtr 0 [] (s.beginIso utr ed) = (t, out, true)) :
    IsoChain s t utr ed out := by
  obtain ⟨new, rfl, built⟩ := isoTds_built ret
  obtain ⟨bInterval, nextSf, isoBuff, isoXlen⟩ := beginIso_keeps s utr ed
  refine ⟨built.length, built.nodup, ?_, built.isoXlen.trans isoXlen⟩
  intro k inside
  have here := built.built k inside
  rw [Nat.zero_add, nextSf, isoBuff, isoXlen, ← built.isoSf, ← built.bInterval] at here
  exact here

theorem IsoChain.of_eq (chain : IsoChain s t utr ed tds) (sameTds : r.tds = t.tds)
    (bInterval : (r.eds ed).bInterval = (t.eds ed).bInterval)
    (isoSf : (r.utrs utr).isoSf = (t.utrs utr).isoSf)
    (isoXlen : (r.utrs utr).isoXlen = (t.utrs utr).isoXlen) : IsoChain s r utr ed tds := by
  refine ⟨chain.length, chain.nodup, ?_, isoXlen.trans chain.isoXlen⟩
  intro k inside
  obtain ⟨info, cbp, be, psw, ed', utr'⟩ := chain.built k inside
  rw [isoSf, bInterval]
  rw [← sameTds] at info cbp be psw ed' utr'
  exact ⟨info, cbp, be, psw, ed', utr'⟩

theorem IsoChain.from (chain : IsoChain r t utr ed tds) (utrs : r.utrs = s.utrs) :
    IsoChain s t utr ed tds := by
  obtain ⟨length, nodup, built, isoXlen⟩ := chain
  rw [utrs] at isoXlen built
  exact ⟨length, nodup, built, isoXlen⟩

theorem setEd_bInterval {f : Ed → Ed} (same : ∀ e, (f e).bInterval = e.bInterval) :
    ((s.setEd a f).eds ed).bInterval = (s.eds ed).bInterval := by
  unfold setEd
  by_cases here : ed = a
  · subst here
    simp [same]
  · simp [here]

theorem allocEd_utrs : (s.allocEd b).2.utrs = s.utrs := by
  unfold allocEd
  dsimp only
  split_ifs <;> rfl

theorem IsoChain.setEd {f : Ed → Ed} (chain : IsoChain s t utr ed tds)
    (same : ∀ e, (f e).bInterval = e.bInterval) : IsoChain s (t.setEd a f) utr ed tds :=
  chain.of_eq rfl (setEd_bInterval same) rfl rfl

theorem IsoChain.setStatus {status : Int} (chain : IsoChain s t utr ed tds) :
    IsoChain s (t.setUtr utr fun u => { u with status := status }) utr ed tds := by
  refine chain.of_eq rfl rfl ?_ ?_
  all_goals simp [setUtr]

theorem IsoChain.setControl {control : U32} (chain : IsoChain s t utr ed tds) :
    IsoChain s { t with hcControl := control } utr ed tds :=
  chain.of_eq rfl rfl rfl rfl

theorem IsoChain.linked (chain : IsoChain s t utr ed tds) :
    IsoChain s ((t.setUtr utr fun u => { u with status := 0 }).setEd ed fun e =>
      if e.headP = 0 then { e with tds := tds, headBits := e.headBits &&& 0x2 }
      else { e with tds := e.tds ++ tds }) utr ed tds := by
  refine chain.setStatus.setEd ?_
  intro e
  split_ifs <;> rfl

theorem isoXfer_chain {turns : Nat} (accepted : s.isoXfer b turns utr = some (t, 0)) :
    ∃ ed tds, IsoChain s t utr ed tds := by
  unfold isoXfer at accepted
  dsimp only at accepted
  obtain ⟨listed, -, ret⟩ := Option.bind_eq_some_iff.mp accepted
  by_cases new : listed = 0
  · rw [decide_eq_true new, if_pos rfl] at ret
    by_cases none : (s.allocEd b).1 = 0
    · rw [if_pos none] at ret
      cases ret
    · rw [if_neg none, if_pos rfl] at ret
      generalize filled : isoTds b utr (s.allocEd b).1 ifPerUtr 0 [] _ = out at ret
      obtain ⟨r, tds, ok⟩ := out
      cases ok with
      | false => cases ret
      | true =>
        simp only [Bool.true_eq_false, if_true, if_false, Option.some.injEq, Prod.mk.injEq] at ret
        obtain ⟨rfl, -⟩ := ret
        have chain := (isoTds_chain filled).from (s := s) allocEd_utrs
        refine ⟨(s.allocEd b).1, tds, IsoChain.setControl ?_⟩
        refine IsoChain.setEd (IsoChain.setEd ?_ fun _ => rfl) fun _ => rfl
        exact chain.linked
  · rw [decide_eq_false new, if_neg Bool.false_ne_true] at ret
    rw [if_neg new, if_neg Bool.false_ne_true] at ret
    generalize filled : isoTds b utr listed ifPerUtr 0 [] _ = out at ret
    obtain ⟨r, tds, ok⟩ := out
    cases ok with
    | false => cases ret
    | true =>
      cases ret
      have chain := (isoTds_chain filled).from (s := s) rfl
      exact ⟨_, _, chain.linked.setControl⟩

end Loop

section Done

variable {b : UnitBase} {s t t' : Ohci} {utr ed td : U32} {tds : List U32} {i : Nat}

theorem tdDone_keeps (s : Ohci) (td : U32) : (s.tdDone td).tds = s.tds ∧ (s.tdDone td).eds = s.eds := by
  unfold tdDone countDown
  dsimp only
  split_ifs <;> (try split) <;> exact ⟨rfl, rfl⟩

theorem countDown_other {finish : Utr → Utr} (other : utr ≠ ed) :
    (s.countDown ed finish).utrs utr = s.utrs utr := by
  unfold countDown
  dsimp only
  split_ifs <;> simp [setUtr, other]

theorem tdDone_other (other : (s.tds td).utr ≠ utr) : (s.tdDone td).utrs utr = s.utrs utr := by
  unfold tdDone
  dsimp only
  rw [countDown_other other.symm]
  split_ifs
  · split
    · simp [setUtr, other.symm]
    · rfl
  · simp [setUtr, other.symm]

theorem countDown_self : isoResult ((s.countDown utr id).utrs utr) = isoResult (s.utrs utr) := by
  unfold countDown
  dsimp only
  split_ifs <;> simp [setUtr, isoResult]

theorem tdDone_self (iso : (s.tds td).info &&& tdTypeMsk = tdTypeIso) (index : s.isoIndex td = some i)
    (mine : (s.tds td).utr = utr) :
    isoResult ((s.tdDone td).utrs utr) = isoResult ((s.utrs utr).storeIso i (s.tds td).psw) := by
  unfold tdDone
  dsimp only
  rw [if_pos iso, index, mine, countDown_self]
  simp [setUtr]

theorem storeIso_at (u : Utr) (psw : U32) :
    (u.storeIso i psw).isoStatus i = isoStatusOf (pswCc psw) ∧
      (u.storeIso i psw).isoXlen i =
        if pswCc psw = ccNoError ∨ pswCc psw = ccDataUnderrun then (psw &&& 0x7ff).setWidth 16
        else u.isoXlen i := by
  unfold Utr.storeIso isoStatusOf
  dsimp only
  rw [show ((psw >>> 12) &&& 0xf).toNat = pswCc psw from rfl]
  by_cases missed : pswCc psw = 0xf
  · simp [missed, ccNoError, ccDataUnderrun]
  · by_cases fine : pswCc psw = ccNoError ∨ pswCc psw = ccDataUnderrun
    · rcases fine with fine | fine <;> simp [fine, ccNoError, ccDataUnderrun]
    · obtain ⟨first, second⟩ := not_or.mp fine
      simp [missed, first, second]

theorem storeIso_else (u : Utr) (psw : U32) {k : Nat} (other : k ≠ i) :
    (u.storeIso i psw).isoStatus k = u.isoStatus k ∧ (u.storeIso i psw).isoXlen k = u.isoXlen k := by
  unfold Utr.storeIso
  dsimp only
  split_ifs <;> simp [other]

theorem storeIso_sf (u : Utr) (psw : U32) : (u.storeIso i psw).isoSf = u.isoSf := by
  unfold Utr.storeIso
  dsimp only
  split_ifs <;> rfl

/-- A descriptor for this packet is on its way. -/
structure Awaits (s : Ohci) (utr td : U32) (i : Nat) : Prop where
  iso : (s.tds td).info &&& tdTypeMsk = tdTypeIso
  index : s.isoIndex td = some i
  mine : (s.tds td).utr = utr

theorem isoIndex_of {s' : Ohci} (info : ((s'.tds td).info.setWidth 16 : BitVec 16) = (s.tds td).info.setWidth 16)
    (ed : (s'.eds (s'.tds td).ed).bInterval = (s.eds (s.tds td).ed).bInterval)
    (isoSf : (s'.utrs (s'.tds td).utr).isoSf = (s.utrs (s.tds td).utr).isoSf) :
    s'.isoIndex td = s.isoIndex td := by
  unfold isoIndex
  dsimp only
  rw [info, ed, isoSf]

theorem Awaits.kept (awaits : s.Awaits utr td i) (kept : s.KeepsIso t utr tds) (mem : td ∈ tds) :
    t.Awaits utr td i := by
  have type (x : U32) : x &&& tdTypeMsk = x &&& 0x0fffffff &&& tdTypeMsk := by
    rw [BitVec.and_assoc]
    rfl
  have same := kept.info td mem
  have mine : (t.tds td).utr = utr := (kept.utr td mem).trans awaits.mine
  refine ⟨?_, ?_, mine⟩
  · rw [type, same, ← type]
    exact awaits.iso
  · rw [← awaits.index]
    refine isoIndex_of (setWidth_of_masked same) ?_ ?_
    · rw [kept.ed td mem, kept.bInterval td mem]
    · rw [mine, awaits.mine]
      exact congrArg (fun x => x.2.2) kept.results

theorem Awaits.reclaim {other : U32} (awaits : s.Awaits utr td i)
    (isoSf : ((s.tdDone other).utrs utr).isoSf = (s.utrs utr).isoSf) :
    (s.reclaim b [other]).Awaits utr td i := by
  obtain ⟨tds, eds⟩ := tdDone_keeps s other
  have sameTds : (s.reclaim b [other]).tds = s.tds := tds
  have sameEds : (s.reclaim b [other]).eds = s.eds := eds
  refine ⟨?_, ?_, ?_⟩
  · rw [sameTds]
    exact awaits.iso
  · rw [← awaits.index]
    refine isoIndex_of ?_ ?_ ?_
    · rw [sameTds]
    · rw [sameTds, sameEds]
    · rw [sameTds, awaits.mine]
      exact isoSf
  · rw [sameTds]
    exact awaits.mine

/-- The packet has the result of this status word. -/
def Stored (s t : Ohci) (utr : U32) (i : Nat) (psw : U32) : Prop :=
  (s.utrs utr).isoStatus i = isoStatusOf (pswCc psw) ∧
    (s.utrs utr).isoXlen i =
      if pswCc psw = ccNoError ∨ pswCc psw = ccDataUnderrun then (psw &&& 0x7ff).setWidth 16
      else (t.utrs utr).isoXlen i

structure IsoState (utr : U32) (tds : List U32) (t : Ohci) (log : List IsoDone) (s : Ohci) : Prop where
  pending : ∀ i (inside : i < tds.length), tds[i] ∉ log.map IsoDone.td →
    s.Awaits utr tds[i] i ∧ (s.utrs utr).isoXlen i = (t.utrs utr).isoXlen i
  stored : ∀ c ∈ log, ∃ i, tds[i]? = some c.td ∧ c.idx = some i ∧ s.Stored t utr i c.psw
  once : (log.map IsoDone.td).Nodup
  mem : ∀ td ∈ log.map IsoDone.td, td ∈ tds

theorem IsoState.frame {log : List IsoDone} (state : IsoState utr tds t log s)
    (awaits : ∀ i (inside : i < tds.length), tds[i] ∉ log.map IsoDone.td → s.Awaits utr tds[i] i →
      t'.Awaits utr tds[i] i) (same : isoResult (t'.utrs utr) = isoResult (s.utrs utr)) :
    IsoState utr tds t log t' := by
  have isoStatus : (t'.utrs utr).isoStatus = (s.utrs utr).isoStatus := congrArg Prod.fst same
  have isoXlen : (t'.utrs utr).isoXlen = (s.utrs utr).isoXlen := congrArg (fun x => x.2.1) same
  refine ⟨?_, ?_, state.once, state.mem⟩
  · intro i inside fresh
    obtain ⟨here, length⟩ := state.pending i inside fresh
    refine ⟨awaits i inside fresh here, ?_⟩
    rw [isoXlen, length]
  · intro c mem
    obtain ⟨i, found, index, stored⟩ := state.stored c mem
    refine ⟨i, found, index, ?_⟩
    unfold Stored at stored ⊢
    rw [isoStatus, isoXlen]
    exact stored

theorem IsoState.done {log : List IsoDone} (state : IsoState utr tds t log s) (built : td ∈ tds)
    (first : td ∉ log.map IsoDone.td) :
    IsoState utr tds t (log ++ [⟨td, (s.tds td).psw, s.isoIndex td⟩]) (s.reclaim b [td]) := by
  obtain ⟨i, inside, rfl⟩ := List.mem_iff_getElem.mp built
  obtain ⟨awaits, length⟩ := state.pending i inside first
  generalize word : (s.tds tds[i]).psw = psw
  have result : isoResult ((s.reclaim b [tds[i]]).utrs utr) =
      isoResult ((s.utrs utr).storeIso i psw) := by
    rw [← word]
    exact tdDone_self awaits.iso awaits.index awaits.mine
  have isoStatus : ((s.reclaim b [tds[i]]).utrs utr).isoStatus = ((s.utrs utr).storeIso i psw).isoStatus :=
    congrArg Prod.fst result
  have isoXlen : ((s.reclaim b [tds[i]]).utrs utr).isoXlen = ((s.utrs utr).storeIso i psw).isoXlen :=
    congrArg (fun x => x.2.1) result
  have isoSf : ((s.tdDone tds[i]).utrs utr).isoSf = (s.utrs utr).isoSf := by
    have same : ((s.tdDone tds[i]).utrs utr).isoSf = ((s.utrs utr).storeIso i psw).isoSf :=
      congrArg (fun x => x.2.2) result
    rw [same, storeIso_sf]
  refine ⟨?_, ?_, ?_, ?_⟩
  · intro k low fresh
    rw [List.map_append, List.mem_append, not_or] at fresh
    obtain ⟨earlier, other⟩ := fresh
    obtain ⟨here, same⟩ := state.pending k low earlier
    have apart : k ≠ i := by
      rintro rfl
      exact other List.mem_cons_self
    refine ⟨here.reclaim isoSf, ?_⟩
    rw [isoXlen, (storeIso_else _ psw apart).2, same]
  · intro c mem
    rcases List.mem_append.mp mem with earlier | last
    · obtain ⟨k, found, index, stored⟩ := state.stored c earlier
      have apart : k ≠ i := by
        rintro rfl
        rw [List.getElem?_eq_getElem inside, Option.some.injEq] at found
        exact first (found ▸ List.mem_map_of_mem earlier)
      refine ⟨k, found, index, ?_⟩
      obtain ⟨sameStatus, sameLength⟩ := storeIso_else (s.utrs utr) psw apart
      unfold Stored at stored ⊢
      rw [isoStatus, isoXlen, sameStatus, sameLength]
      exact stored
    · rw [List.mem_singleton] at last
      subst last
      refine ⟨i, List.getElem?_eq_getElem inside, awaits.index, ?_⟩
      obtain ⟨status, bytes⟩ := storeIso_at (i := i) (s.utrs utr) psw
      unfold Stored
      rw [isoStatus, isoXlen, ← length]
      exact ⟨status, bytes⟩
  · rw [List.map_append, List.map_singleton]
    exact List.nodup_append.mpr ⟨state.once, List.nodup_singleton _, by
      rintro a earlier c here rfl
      rw [List.mem_singleton.mp here] at earlier
      exact first earlier⟩
  · intro a mem
    rw [List.map_append, List.mem_append] at mem
    rcases mem with mem | mem
    · exact state.mem a mem
    · rw [List.mem_singleton.mp mem]
      exact built

theorem IsoRun.state {log : List IsoDone} (run : IsoRun b utr tds t log s)
    (built : ∀ i (inside : i < tds.length), t.Awaits utr tds[i] i) : IsoState utr tds t log s := by
  induction run with
  | submitted =>
    refine ⟨fun i inside _ => ⟨built i inside, rfl⟩, ?_, List.nodup_nil, ?_⟩
    · intro c mem
      cases mem
    · intro td mem
      cases mem
  | mine before mem first ih => exact ih.done mem first
  | foreign before other ih =>
    have same := tdDone_other other
    refine ih.frame ?_ (congrArg isoResult same)
    intro i inside fresh awaits
    exact awaits.reclaim (congrArg Utr.isoSf same)
  | elsewhere before kept ih =>
    refine ih.frame ?_ kept.results
    intro i inside fresh awaits
    refine awaits.kept kept ?_
    rw [List.mem_filter]
    exact ⟨List.getElem_mem inside, decide_eq_true fresh⟩

theorem IsoState.indexes {log : List IsoDone} (state : IsoState utr tds t log s) (nodup : tds.Nodup)
    (all : ∀ td ∈ tds, td ∈ log.map IsoDone.td) :
    (log.map IsoDone.idx).Perm ((List.range tds.length).map some) := by
  have same : log.map IsoDone.idx = (log.map IsoDone.td).map fun td => some (tds.idxOf td) := by
    rw [List.map_map]
    refine List.map_congr_left ?_
    intro c mem
    obtain ⟨i, found, index, -⟩ := state.stored c mem
    obtain ⟨inside, here⟩ := List.getElem?_eq_some_iff.mp found
    rw [index, Function.comp_apply, ← here, nodup.idxOf_getElem]
  have whole : (log.map IsoDone.td).Perm tds :=
    (List.perm_ext_iff_of_nodup state.once nodup).mpr fun td => ⟨state.mem td, all td⟩
  have range : tds.map (fun td => some (tds.idxOf td)) = (List.range tds.length).map some := by
    refine List.ext_getElem (by simp) ?_
    intro i first second
    simp [nodup.idxOf_getElem]
  rw [same, ← range]
  exact whole.map _

theorem IsoChain.awaits (chain : IsoChain s t utr ed tds) (i : Nat) (inside : i < tds.length) :
    t.Awaits utr tds[i] i := by
  obtain ⟨info, -, -, -, sameEd, mine⟩ := chain.built i inside
  obtain ⟨type, frame⟩ := isoInfo_kept (congrArg (· &&& 0x0fffffff) info)
  refine ⟨type, ?_, mine⟩
  have low : i < ifPerUtr := chain.length ▸ inside
  unfold isoIndex
  dsimp only
  rw [frame, mine, sameEd, isoFrame_index _ low, if_pos low]

/-- Whatever the frame a transfer starts in and the interval of its endpoint are, and in whatever
order its descriptors are done, each comes up with the index of the packet it was built for: the
status of the packet is stored there, and its length unless it failed. -/
theorem iso_index_round_trip {turns : Nat} (accepted : s.isoXfer b turns utr = some (t, 0)) :
    ∃ ed tds, IsoChain s t utr ed tds ∧ ∀ log t', IsoRun b utr tds t log t' →
      (∀ c ∈ log, ∃ i, tds[i]? = some c.td ∧ c.idx = some i ∧ t'.Stored s utr i c.psw) ∧
        ((∀ td ∈ tds, td ∈ log.map IsoDone.td) →
          (log.map IsoDone.idx).Perm ((List.range ifPerUtr).map some)) := by
  obtain ⟨ed, tds, chain⟩ := isoXfer_chain accepted
  refine ⟨ed, tds, chain, ?_⟩
  intro log t' run
  have state := run.state chain.awaits
  refine ⟨?_, ?_⟩
  · intro c mem
    obtain ⟨i, found, index, stored⟩ := state.stored c mem
    refine ⟨i, found, index, ?_⟩
    unfold Stored at stored ⊢
    rw [← chain.isoXlen]
    exact stored
  · intro all
    rw [← chain.length]
    exact state.indexes chain.nodup all

end Done

/-- An idle isochronous endpoint; its first packet is due two frames before the frame number wraps. -/
def wrapOhci : Ohci where
  pool := ⟨fun _ => false, 64, 0⟩
  refuse := []
  eds := fun _ => ⟨0, 0, [], 0, 0, 0, 0⟩
  tds := fun _ => ⟨0, 0, 0, 0, 0, 0, 0⟩
  eps := fun _ => ⟨0x81, 1, 4, 0, 64, 0⟩
  udevs := fun _ => ⟨64, [], 1, 1, .full, 0x20000100⟩
  utrs := fun _ =>
    ⟨0x20000000, 0, 0x20000200, 0x20001000, false, 0, 0, true, 0, fun _ => 64, fun _ => 0x20001000, 0, 0, 0⟩
  hcControlHeadED := 0
  hcBulkHeadED := 0
  hcControl := 0
  ied := fun _ => 0x20000300
  frameNo := 0xfffa
  edRemoveList := []
  called := []

theorem wrapOhci_accepts : ∃ t, wrapOhci.isoXfer unitBaseAt 65 0x20002000 = some (t, 0) := by
  have ends : (wrapOhci.isoXfer unitBaseAt 65 0x20002000).map Prod.snd = some 0 := by decide
  obtain ⟨⟨t, err⟩, ret, rfl⟩ := Option.map_eq_some_iff.mp ends
  exact ⟨t, ret⟩

theorem wrapOhci_round_trip : ∃ t, wrapOhci.isoXfer unitBaseAt 65 0x20002000 = some (t, 0) ∧
    ∃ ed tds, IsoChain wrapOhci t 0x20002000 ed tds ∧
      ∀ log t', IsoRun unitBaseAt 0x20002000 tds t log t' →
        (∀ c ∈ log, ∃ i, tds[i]? = some c.td ∧ c.idx = some i ∧
          t'.Stored wrapOhci 0x20002000 i c.psw) ∧
          ((∀ td ∈ tds, td ∈ log.map IsoDone.td) →
            (log.map IsoDone.idx).Perm ((List.range ifPerUtr).map some)) := by
  obtain ⟨t, accepted⟩ := wrapOhci_accepts
  exact ⟨t, accepted, iso_index_round_trip accepted⟩

/-- A packet that failed keeps the length it was submitted with. -/
theorem failedPacket_length : ∃ t ed tds log t',
    wrapOhci.isoXfer unitBaseAt 65 0x20002000 = some (t, 0) ∧ IsoChain wrapOhci t 0x20002000 ed tds ∧
      IsoRun unitBaseAt 0x20002000 tds t log t' ∧
      ∃ c ∈ log, ∃ i, tds[i]? = some c.td ∧
        (t'.utrs 0x20002000).isoXlen i ≠ (c.psw &&& 0x7ff).setWidth 16 := by
  obtain ⟨t, accepted⟩ := wrapOhci_accepts
  obtain ⟨ed, tds, chain⟩ := isoXfer_chain accepted
  have inside : 0 < tds.length := by
    rw [chain.length]
    decide
  -- The controller reports a data overrun, behind sixteen bytes.
  have keeps : t.KeepsIso (t.setTd tds[0] fun d => { d with psw := 0x8010 }) 0x20002000
      (tds.filter (· ∉ ([] : List IsoDone).map IsoDone.td)) := by
    have same (f : Td → U32) (kept : ∀ d : Td, f { d with psw := 0x8010 } = f d) (td : U32) :
        f ((t.setTd tds[0] fun d => { d with psw := 0x8010 }).tds td) = f (t.tds td) := by
      unfold setTd
      by_cases here : td = tds[0]
      · subst here
        simp only [Function.update_self]
        exact kept _
      · simp [here]
    refine ⟨rfl, fun td _ => ?_, fun td _ => same Td.ed (fun _ => rfl) td,
      fun td _ => same Td.utr (fun _ => rfl) td, fun _ _ => rfl⟩
    rw [same Td.info (fun _ => rfl)]
  have run := (IsoRun.submitted (b := unitBaseAt).elsewhere keeps).mine (List.getElem_mem inside)
    List.not_mem_nil
  obtain ⟨i, found, -, -, length⟩ := (run.state chain.awaits).stored _ (List.mem_singleton_self _)
  refine ⟨t, ed, tds, _, _, accepted, chain, run, _, List.mem_singleton_self _, i, found, ?_⟩
  rw [length, chain.isoXlen]
  simp [setTd, wrapOhci, pswCc, ccNoError, ccDataUnderrun]

end Ohci

end NuMakerMA35
