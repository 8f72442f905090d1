import NuMakerMA35.EhciAtomic

namespace NuMakerMA35

/-- The buffer pointer the controller takes the byte `k` of a descriptor from. -/
def Qtd.page (q : Qtd) (k : Nat) : Nat := ((q.bptr 0).toNat % 0x1000 + k) / 0x1000

def Qtd.byteAt (q : Qtd) (k : Nat) : U32 :=
  (q.bptr (q.page k) &&& ~~~0xfff) + BitVec.ofNat 32 (((q.bptr 0).toNat % 0x1000 + k) % 0x1000)

/-- The descriptor carries the `n` bytes from `start` on, all within the pages it names. -/
structure Qtd.Carries (q : Qtd) (start : U32) (n : Nat) : Prop where
  first : q.bptr 0 = start
  length : q.xferLen.toNat = n
  total : (q.token >>> 16 &&& 0x7fff).toNat = n
  pages : ∀ k < n, q.page k < 5 ∧ q.byteAt k = start + BitVec.ofNat 32 k

namespace Ehci

/-- The descriptors are linked in order and carry `n` bytes from `start` on, one piece behind the
other; only the last interrupts, and `whole` holds of the length of the others. -/
inductive BulkChain (t : Ehci) (whole : Nat → Prop) : List U32 → U32 → Nat → Prop where
  | empty {start : U32} : BulkChain t whole [] start 0
  | last {qtd start : U32} {n : Nat} :
    (t.qtds qtd).Carries start n → (t.qtds qtd).nextQTD = t.ghostQtd →
    (t.qtds qtd).token &&& qtdIoc ≠ 0 → BulkChain t whole [qtd] start n
  | more {qtd next start : U32} {rest : List U32} {n left : Nat} :
    (t.qtds qtd).Carries start n → (t.qtds qtd).nextQTD = next →
    (t.qtds qtd).token &&& qtdIoc = 0 → whole n →
    BulkChain t whole (next :: rest) (start + BitVec.ofNat 32 n) left →
    BulkChain t whole (qtd :: next :: rest) start (n + left)

end Ehci

section Pages

variable {x buff n : U32} {k : Nat}

theorem clearPage_toNat (x : U32) : (x &&& ~~~(0xfff : U32)).toNat = x.toNat / 0x1000 * 0x1000 := by
  have shifts : x &&& ~~~(0xfff : U32) = x >>> 12 <<< 12 := by
    apply BitVec.eq_of_getLsbD_eq
    intro i inside
    have low : (0xfff : U32).getLsbD i = decide (i < 12) := by
      change (BitVec.ofNat 32 (2 ^ 12 - 1)).getLsbD i = decide (i < 12)
      rw [BitVec.getLsbD_ofNat, Nat.testBit_two_pow_sub_one]
      simp [inside]
    rw [BitVec.getLsbD_and, BitVec.getLsbD_not, low, BitVec.getLsbD_shiftLeft,
      BitVec.getLsbD_ushiftRight]
    by_cases high : i < 12
    · simp [high]
    · simp [inside, high, show 12 + (i - 12) = i by omega]
  rw [shifts, BitVec.toNat_shiftLeft, BitVec.toNat_ushiftRight, Nat.shiftRight_eq_div_pow,
    Nat.shiftLeft_eq]
  have bound := x.isLt
  omega

theorem page_lt (small : k < 0x4000) (x : U32) : (x.toNat % 0x1000 + k) / 0x1000 < 5 := by omega

theorem byteAt_writeQtdBptr {q : Qtd} (small : k < 0x4000)
    (bptr : q.bptr = fun i =>
      if i = 0 then x else (x + 0x1000 &&& ~~~0xfff) + BitVec.ofNat 32 ((i - 1) * 0x1000)) :
    q.byteAt k = x + BitVec.ofNat 32 k := by
  have first : q.bptr 0 = x := by
    rw [bptr]
    rfl
  have bound := x.isLt
  have most := page_lt small x
  apply BitVec.eq_of_toNat_eq
  unfold Qtd.byteAt Qtd.page
  rw [first, bptr, BitVec.toNat_add, BitVec.toNat_add, clearPage_toNat]
  dsimp only
  by_cases same : (x.toNat % 0x1000 + k) / 0x1000 = 0
  · rw [if_pos same, BitVec.toNat_ofNat, BitVec.toNat_ofNat]
    omega
  · have step : (0x1000 : U32).toNat = 0x1000 := rfl
    rw [if_neg same, BitVec.toNat_add, clearPage_toNat, BitVec.toNat_add, step]
    simp only [BitVec.toNat_ofNat]
    omega

end Pages

section Tokens

variable {low : U32} {n : Nat}

theorem token_total (small : n ≤ 0x4000) (below : low >>> 16 = 0) :
    ((BitVec.ofNat 32 n <<< 16 ||| low) >>> 16 &&& 0x7fff).toNat = n := by
  rw [BitVec.ushiftRight_or_distrib, below]
  have none (x : U32) : x ||| 0 = x := BitVec.or_zero
  rw [none, BitVec.toNat_and]
  change _ &&& (2 ^ 15 - 1) = n
  rw [Nat.and_two_pow_sub_one_eq_mod, BitVec.toNat_ushiftRight, BitVec.toNat_shiftLeft,
    BitVec.toNat_ofNat, Nat.shiftRight_eq_div_pow, Nat.shiftLeft_eq]
  omega

theorem token_ioc (n : Nat) : (BitVec.ofNat 32 n <<< 16 ||| low) &&& qtdIoc = low &&& qtdIoc := by
  have apart : BitVec.ofNat 32 n <<< 16 &&& qtdIoc = 0 := by
    apply BitVec.eq_of_getLsbD_eq
    intro i inside
    unfold qtdIoc
    rw [BitVec.getLsbD_and, BitVec.getLsbD_shiftLeft, oneShift_getLsbD (i := 15) (by decide)]
    by_cases here : i < 16
    · simp [here]
    · simp [show i ≠ 15 by omega]
  have none (x : U32) : 0 ||| x = x := BitVec.zero_or
  rw [BitVec.and_comm, BitVec.and_or_distrib_left, BitVec.and_comm, apart, none, BitVec.and_comm]

end Tokens

namespace Ehci

section Loop

variable {b : UnitBase} {s t : Ehci} {utr qh qtd pre buff a : U32} {out last : Bool} {n left : Nat}

theorem setQtd_other {c : U32} {f : Qtd → Qtd} (other : c ≠ a) : (s.setQtd a f).qtds c = s.qtds c :=
  Function.update_of_ne other _ _

theorem allocQtd_other (other : a ≠ (s.allocQtd b utr).1) :
    (s.allocQtd b utr).2.qtds a = s.qtds a := by
  unfold allocQtd at other ⊢
  dsimp only at other ⊢
  split_ifs at other ⊢
  · rfl
  · rw [setQtd_other other]
    rfl

def bulkToken (out last : Bool) (n : Nat) : U32 :=
  let low := qtdErrCounter ||| (if out then qtdPidOut else qtdPidIn) ||| qtdStsActive
  BitVec.ofNat 32 n <<< 16 ||| (if last then low ||| qtdIoc else low)

theorem bulkToken_total (small : n ≤ 0x4000) : ((bulkToken out last n) >>> 16 &&& 0x7fff).toNat = n := by
  refine token_total small ?_
  cases out <;> cases last <;> rfl

theorem bulkToken_ioc : bulkToken out last n &&& qtdIoc = if last then qtdIoc else 0 := by
  unfold bulkToken
  dsimp only
  rw [token_ioc]
  cases out <;> cases last <;> rfl

theorem fillBulkQtd_self (apart : pre ≠ qtd) :
    (s.fillBulkQtd qh pre qtd buff out n last).qtds qtd =
      ⟨s.ghostQtd, qtdListEnd, bulkToken out last n,
        fun i => if i = 0 then buff
          else (buff + 0x1000 &&& ~~~0xfff) + BitVec.ofNat 32 ((i - 1) * 0x1000),
        (s.qtds qtd).utr, BitVec.ofNat 32 n, qh⟩ := by
  unfold fillBulkQtd bulkToken
  by_cases first : pre = 0#32 <;> cases last <;>
    simp [writeQtdBptr, appendToQtdList, setQtd, setQh, first, apart.symm, BitVec.or_assoc]

theorem fillBulkQtd_pre (apart : pre ≠ qtd) (some : pre ≠ 0#32) :
    (s.fillBulkQtd qh pre qtd buff out n last).qtds pre = { s.qtds pre with nextQTD := qtd } := by
  unfold fillBulkQtd
  cases last <;> simp [writeQtdBptr, appendToQtdList, setQtd, setQh, some, apart]

theorem fillBulkQtd_other (apart : a ≠ qtd) (behind : a ≠ pre) :
    (s.fillBulkQtd qh pre qtd buff out n last).qtds a = s.qtds a := by
  unfold fillBulkQtd
  by_cases first : pre = 0#32 <;> cases last <;>
    simp [writeQtdBptr, appendToQtdList, setQtd, setQh, first, apart, behind]

theorem fillBulkQtd_ghostQtd : (s.fillBulkQtd qh pre qtd buff out n last).ghostQtd = s.ghostQtd := by
  unfold fillBulkQtd
  split_ifs <;> rfl

theorem allocQtd_ghostQtd : (s.allocQtd b utr).2.ghostQtd = s.ghostQtd := by
  unfold allocQtd
  dsimp only
  split_ifs <;> rfl

/-- What the loop of `ehci_bulk_xfer` does where it ends: it appends a chain for the bytes left, and
links the descriptor before to it. -/
structure Chained (b : UnitBase) (s t : Ehci) (qh pre buff : U32) (left : Nat) (qtds : List U32) :
    Prop where
  qtdList : t.links.qtdList qh = s.links.qtdList qh ++ qtds
  chain : BulkChain t (· = 0x4000) qtds buff left
  empty : qtds = [] ↔ left = 0
  before : pre ≠ 0 → t.qtds pre = { s.qtds pre with nextQTD := qtds.headD (s.qtds pre).nextQTD }
  other : ∀ a, b.InUse s.pool.used a → a ≠ pre → t.qtds a = s.qtds a
  ghostQtd : t.ghostQtd = s.ghostQtd

theorem Chained.cons {r : Ehci} {rest : List U32}
    (chained : Chained b (r.fillBulkQtd qh pre qtd buff out n last) t qh qtd
      (buff + BitVec.ofNat 32 n) (left - n) rest)
    (most : n ≤ 0x4000) (some : 0 < n) (inside : n ≤ left) (whole : n < left → n = 0x4000)
    (isLast : last = decide (left - n = 0)) (real : qtd ≠ 0) (apart : pre ≠ qtd)
    (fresh : ∀ a, b.InUse s.pool.used a → a ≠ qtd)
    (stays : ∀ a, b.InUse s.pool.used a → b.InUse (r.fillBulkQtd qh pre qtd buff out n last).pool.used a)
    (linked : pre ≠ 0 → b.InUse s.pool.used pre) (kept : ∀ a ≠ qtd, r.qtds a = s.qtds a)
    (links : r.links = s.links) (sameGhost : r.ghostQtd = s.ghostQtd) :
    Chained b s t qh pre buff left (qtd :: rest) := by
  have here := chained.before real
  rw [fillBulkQtd_self apart] at here
  have carries : (t.qtds qtd).Carries buff n := by
    rw [here]
    refine ⟨rfl, ?_, bulkToken_total most, ?_⟩
    · dsimp only
      rw [BitVec.toNat_ofNat]
      omega
    · intro k low
      refine ⟨page_lt (by omega) buff, ?_⟩
      exact byteAt_writeQtdBptr (by omega) rfl
  have next : (t.qtds qtd).nextQTD = rest.headD s.ghostQtd := by rw [here, sameGhost]
  have ioc : (t.qtds qtd).token &&& qtdIoc = if last then qtdIoc else 0 := by
    rw [here]
    exact bulkToken_ioc
  have ghost : t.ghostQtd = s.ghostQtd := by
    rw [chained.ghostQtd, fillBulkQtd_ghostQtd, sameGhost]
  have apartOf {a : U32} (taken : b.InUse s.pool.used a) (behind : a ≠ pre) : t.qtds a = s.qtds a := by
    rw [chained.other a (stays a taken) (fresh a taken), fillBulkQtd_other (fresh a taken) behind,
      kept a (fresh a taken)]
  refine ⟨?_, ?_, ?_, ?_, fun a => apartOf, ghost⟩
  · rw [chained.qtdList, fillBulkQtd_links, links]
    dsimp only
    rw [Function.update_self, List.append_assoc, List.singleton_append]
  · cases rest with
    | nil =>
      have done := chained.empty.mp rfl
      have all : n = left := by omega
      rw [← all]
      refine .last carries (next.trans ghost.symm) ?_
      rw [ioc, isLast, decide_eq_true done, if_pos rfl]
      decide
    | cons q rest =>
      have left' : left - n ≠ 0 := fun none => List.cons_ne_nil q rest (chained.empty.mpr none)
      have all : n + (left - n) = left := by omega
      rw [← all]
      refine .more carries next ?_ (whole (by omega)) chained.chain
      rw [ioc, isLast, decide_eq_false left', if_neg Bool.false_ne_true]
  · exact iff_of_false (List.cons_ne_nil qtd rest) (by omega)
  · intro first
    rw [chained.other pre (stays pre (linked first)) apart, fillBulkQtd_pre apart first, kept pre apart]
    rfl

theorem bulkQtds_chained (ret : bulkQtds b utr qh out left buff pre s = (t, true))
    (linked : pre ≠ 0 → b.InUse s.pool.used pre) : ∃ qtds, Chained b s t qh pre buff left qtds := by
  induction left using Nat.strong_induction_on generalizing buff pre s with
  | _ left ih =>
    unfold bulkQtds at ret
    by_cases empty : left = 0
    · rw [dif_pos empty] at ret
      obtain ⟨rfl, -⟩ := Prod.mk.inj ret
      subst empty
      exact ⟨[], (List.append_nil _).symm, .empty, iff_of_true rfl rfl, fun _ => rfl,
        fun _ _ _ => rfl, rfl⟩
    · rw [dif_neg empty] at ret
      have grew : b.Grew s.pool.used (s.allocQtd b utr).2.pool.used (got (s.allocQtd b utr).1) :=
        allocQtd_grew
      have kept : ∀ a, a ≠ (s.allocQtd b utr).1 → (s.allocQtd b utr).2.qtds a = s.qtds a :=
        fun a => allocQtd_other
      have links : (s.allocQtd b utr).2.links = s.links := links_allocQtd
      have ghost : (s.allocQtd b utr).2.ghostQtd = s.ghostQtd := allocQtd_ghostQtd
      generalize s.allocQtd b utr = unit at ret grew kept links ghost
      obtain ⟨qtd, r⟩ := unit
      dsimp only at ret grew kept links ghost
      obtain ⟨n, piece⟩ : ∃ n, n = if left > 0x4000 then 0x4000 else left := ⟨_, rfl⟩
      rw [← piece] at ret
      have small : n ≤ 0x4000 ∧ 0 < n ∧ n ≤ left ∧ (n < left → n = 0x4000) := by
        split_ifs at piece <;> omega
      obtain ⟨most, some, inside, whole⟩ := small
      by_cases real : qtd = 0
      · rw [if_pos real] at ret
        cases (Prod.mk.inj ret).2
      rw [if_neg real] at ret
      rw [got_of_ne real] at grew
      have fresh : ∀ a, b.InUse s.pool.used a → a ≠ qtd := by
        rintro a taken rfl
        exact taken.not_fresh (grew.fresh a List.mem_cons_self)
      have apart : pre ≠ qtd := by
        intro same
        by_cases first : pre = 0
        · exact real (same.symm.trans first)
        · exact fresh pre (linked first) same
      obtain ⟨last, isLast⟩ : ∃ last, last = decide (left - n = 0) := ⟨_, rfl⟩
      rw [← isLast] at ret
      have later : b.Grew s.pool.used
          (r.fillBulkQtd qh pre qtd buff out n last).pool.used [qtd] := by
        rw [fillBulkQtd_pool]
        exact grew
      obtain ⟨rest, chained⟩ := ih (left - n) (by omega) ret fun _ => later.inUse List.mem_cons_self
      exact ⟨_, chained.cons most some inside whole isLast real apart fresh
        (fun a taken => taken.grew later) linked kept links ghost⟩

end Loop

section Submit

variable {b : UnitBase} {s t : Ehci} {utr ep qh a : U32} {whole : Nat → Prop} {qtds : List U32}
  {start : U32} {n : Nat}

theorem BulkChain.congr (chain : BulkChain s whole qtds start n) (same : t.qtds = s.qtds)
    (ghost : t.ghostQtd = s.ghostQtd) : BulkChain t whole qtds start n := by
  induction chain with
  | empty => exact .empty
  | last carries next ioc =>
    rw [← same] at carries next ioc
    exact .last carries (next.trans ghost.symm) ioc
  | more carries next ioc piece _ ih =>
    rw [← same] at carries next ioc
    exact .more carries next ioc piece ih

theorem BulkChain.imp {weaker : Nat → Prop} (chain : BulkChain t whole qtds start n)
    (weaken : ∀ k, whole k → weaker k) : BulkChain t weaker qtds start n := by
  induction chain with
  | empty => exact .empty
  | last carries next ioc => exact .last carries next ioc
  | more carries next ioc piece _ ih => exact .more carries next ioc (weaken _ piece) ih

theorem BulkChain.first_whole {qtd next : U32} {rest : List U32}
    (chain : BulkChain t whole (qtd :: next :: rest) start n) : whole (t.qtds qtd).xferLen.toNat := by
  cases chain with
  | more carries _ _ piece _ =>
    rw [carries.length]
    exact piece

theorem setQh_qtdList {f : Qh → Qh} (same : ∀ q, (f q).qtdList = q.qtdList) :
    (s.setQh a f).links.qtdList = s.links.qtdList := by
  funext x
  unfold links setQh
  by_cases here : x = a
  · subst here
    simp [same]
  · simp [here]

theorem linkQh_qtdList {head : U32} : (s.linkQh head qh).links.qtdList = s.links.qtdList := by
  unfold linkQh
  dsimp only
  refine Eq.trans ?_ (b := (s.setQh qh fun q => { q with hLink := (s.qhs head).hLink }).links.qtdList) ?_
  · exact setQh_qtdList fun q => rfl
  · exact setQh_qtdList fun q => rfl

theorem startBulkQh_qtdList : (s.startBulkQh ep qh a).links.qtdList = s.links.qtdList := by
  unfold startBulkQh
  refine Eq.trans linkQh_qtdList ?_
  exact setQh_qtdList fun h => rfl

theorem startBulk_keeps {isNewQh : Bool} (ret : s.startBulk ep qh isNewQh = some (t, 0)) :
    t.links.qtdList = s.links.qtdList ∧ t.links.hwPipe = s.links.hwPipe ∧ t.qtds = s.qtds ∧
      t.ghostQtd = s.ghostQtd := by
  unfold startBulk at ret
  extract_lets qtd marked at ret
  have list : marked.links.qtdList = s.links.qtdList := setQh_qtdList fun h => rfl
  have rest : marked.links.hwPipe = s.links.hwPipe ∧ marked.qtds = s.qtds ∧
      marked.ghostQtd = s.ghostQtd := ⟨rfl, rfl, rfl⟩
  clear_value marked
  by_cases lost : isNewQh = true ∧ qtd = 0
  · rw [if_pos lost] at ret
    cases ret
  rw [if_neg lost] at ret
  obtain rfl := congrArg Prod.fst (Option.some.inj ret)
  cases isNewQh with
  | false => exact ⟨list, rest⟩
  | true => exact ⟨startBulkQh_qtdList.trans list, rest⟩

theorem bulkFilled_chain {q failed : Ehci} {out isNewQh : Bool} {filled : Ehci × Bool}
    (same : bulkQtds b utr qh out n start 0 q = filled) (empty : q.links.qtdList qh = [])
    (pipe : q.links.hwPipe ep = qh)
    (ret : (if filled.2 = false then some (failed, usbhErrMemoryOut)
      else filled.1.startBulk ep qh isNewQh) = some (t, 0)) :
    BulkChain t (· = 0x4000) (t.links.qtdList (t.links.hwPipe ep)) start n := by
  obtain ⟨w, done⟩ := filled
  cases done with
  | false => cases ret
  | true =>
    rw [if_neg Bool.noConfusion] at ret
    obtain ⟨list, pipes, qtds, ghost⟩ := startBulk_keeps ret
    obtain ⟨_, chained⟩ := bulkQtds_chained same fun zero => absurd rfl zero
    obtain ⟨_, grown, -⟩ := bulkQtds_grown same
    have whole := chained.qtdList
    rw [empty, List.nil_append] at whole
    have atPipe : w.links.hwPipe ep = qh := by
      rw [grown.links]
      exact pipe
    rw [list, pipes, atPipe, whole]
    exact chained.chain.congr qtds ghost

theorem bulkXfer_chain (ret : s.bulkXfer b utr = some (t, 0)) :
    BulkChain t (· = 0x4000) (t.links.qtdList (t.links.hwPipe (s.utrs utr).ep)) (s.utrs utr).buff
      (s.utrs utr).dataLen.toNat := by
  unfold bulkXfer at ret
  dsimp only at ret
  generalize s.utrs utr = u at ret ⊢
  by_cases busy : (s.eps u.ep).hwPipe ≠ 0 ∧ (s.qhs (s.eps u.ep).hwPipe).qtdList ≠ []
  · rw [if_pos busy] at ret
    cases ret
  rw [if_neg busy] at ret
  by_cases new : (s.eps u.ep).hwPipe = 0
  · rw [pipeQh_new new, decide_eq_true new] at ret
    by_cases none : (s.allocQh b).1 = 0
    · rw [if_pos none] at ret
      cases ret
    · rw [if_neg none, if_pos rfl] at ret
      have fresh := allocQh_new none
      generalize s.allocQh b = qh at ret none fresh
      obtain ⟨r, wrote, ret⟩ := Option.bind_eq_some_iff.mp ret
      obtain ⟨wroteLinks, -, -, -⟩ := writeQh_some wrote
      rw [if_pos rfl] at ret
      refine bulkFilled_chain rfl ?_ ?_ ret
      · rw [links_setEp, wroteLinks]
        exact fresh.empty
      · rw [links_setEp]
        exact Function.update_self _ _ _
  · rw [pipeQh_old new, decide_eq_false new] at ret
    rw [if_neg new, if_neg Bool.false_ne_true] at ret
    obtain ⟨r, same, ret⟩ := Option.bind_eq_some_iff.mp ret
    cases same
    rw [if_neg Bool.false_ne_true] at ret
    refine bulkFilled_chain rfl ?_ rfl ret
    by_contra some
    exact busy ⟨new, some⟩

end Submit

end Ehci

/-- The descriptors of a bulk transfer that is accepted are one chain over the buffer; a piece that
is not the last has 16384 bytes, a multiple of every packet size that divides them. -/
theorem ehci_bulk_chain {b : UnitBase} {s t : Ehci} {utr : U32}
    (ret : s.bulkXfer b utr = some (t, 0)) :
    let u := s.utrs utr
    let qtds := (t.qhs (t.eps u.ep).hwPipe).qtdList
    t.BulkChain (· = 0x4000) qtds u.buff u.dataLen.toNat ∧
      ∀ wMaxPacketSize, wMaxPacketSize ∣ 0x4000 →
        t.BulkChain (wMaxPacketSize ∣ ·) qtds u.buff u.dataLen.toNat := by
  have chain := Ehci.bulkXfer_chain ret
  refine ⟨chain, ?_⟩
  intro size divides
  refine chain.imp ?_
  rintro n rfl
  exact divides

/-- A device with an endpoint of 1000 bytes a packet, to which 20000 bytes go from an odd address. -/
def oddPacketEhci : Ehci where
  pool := usbhMemoryInit
  refuse := []
  qhs := fun _ => ⟨0x3, 0, 0, 0, qtdListEnd, qtdListEnd, qtdStsHalt, fun _ => 0, []⟩
  qtds := fun _ => ⟨qtdListEnd, qtdListEnd, 0, fun _ => 0, 0, 0, 0⟩
  eps := fun _ => ⟨0x02, 2, 0, 0, 1000, 0⟩
  udevs := fun _ => ⟨64, [], 1, 1, .high, 0x20000100⟩
  utrs := fun _ =>
    ⟨0x20000000, 0, 0x20000200, 0x20001fff, false, 20000, 0, false, 0, 0, 0, 0, 0, 0⟩
  hQh := 0x20000300
  ghostQtd := 0x20000400
  iqh := fun _ => 0x20000300
  ucmdr := 0

theorem oddPacket_chain : ∃ t, oddPacketEhci.bulkXfer unitBaseAt 0x20002000 = some (t, 0) ∧
    t.BulkChain (· = 0x4000) (t.qhs (t.eps 0x20000200).hwPipe).qtdList 0x20001fff 20000 := by
  have ends : (oddPacketEhci.bulkXfer unitBaseAt 0x20002000).map Prod.snd = some 0 := by
    decide +kernel
  obtain ⟨⟨t, err⟩, ret, rfl⟩ := Option.map_eq_some_iff.mp ends
  exact ⟨t, ret, (ehci_bulk_chain ret).1⟩

theorem oddPacket_cut : ∃ t, oddPacketEhci.bulkXfer unitBaseAt 0x20002000 = some (t, 0) ∧
    ¬t.BulkChain ((oddPacketEhci.eps 0x20000200).wMaxPacketSize.toNat ∣ ·)
      (t.qhs (t.eps 0x20000200).hwPipe).qtdList 0x20001fff 20000 := by
  have ends : (oddPacketEhci.bulkXfer unitBaseAt 0x20002000).map (fun out =>
      (out.2, (out.1.qhs (out.1.eps 0x20000200).hwPipe).qtdList,
        (out.1.qtds (unitBaseAt.addr 2)).xferLen)) =
      some (0, [unitBaseAt.addr 2, unitBaseAt.addr 3], 0x4000) := by
    decide +kernel
  obtain ⟨⟨t, err⟩, ret, same⟩ := Option.map_eq_some_iff.mp ends
  obtain ⟨rfl, rest⟩ := Prod.mk.inj same
  obtain ⟨list, length⟩ := Prod.mk.inj rest
  refine ⟨t, ret, ?_⟩
  intro chain
  dsimp only at list length
  rw [list] at chain
  have whole := chain.first_whole
  rw [length] at whole
  revert whole
  decide

end NuMakerMA35
