import NuMakerMA35.PdmaTable
import Mathlib.Data.List.Basic

namespace NuMakerMA35

/-- What the controller executes once `d` is loaded: a basic descriptor ends the chain, any other
one loads the descriptor its link names. -/
inductive Executes (mem : Addr → Option Dsct) : Dsct → List Dsct → Prop where
  | basic {d : Dsct} : d.opMode = pdmaOpBasic → Executes mem d [d]
  | scatter {d e : Dsct} {ds : List Dsct} : d.opMode = pdmaOpScatter → mem d.next = some e →
      Executes mem e ds → Executes mem d (d :: ds)

/-- A channel in basic mode moves what its register says; in scatter mode the register only names
the first descriptor. -/
inductive ChannelExecutes (s : PdmaState) (ch : Nat) : List Dsct → Prop where
  | basic : (s.dsct ch).opMode = pdmaOpBasic → ChannelExecutes s ch [s.dsct ch]
  | scatter {d : Dsct} {ds : List Dsct} : (s.dsct ch).opMode = pdmaOpScatter →
      s.descs (s.dsct ch).next = some d → Executes s.descs d ds → ChannelExecutes s ch ds

theorem Executes.unique {mem : Addr → Option Dsct} {d : Dsct} {ds es : List Dsct}
    (h : Executes mem d ds) (h' : Executes mem d es) : ds = es := by
  induction h generalizing es with
  | basic mode =>
    cases h' with
    | basic => rfl
    | scatter mode' => rw [mode] at mode'; exact absurd mode' (by decide)
  | scatter mode next _ ih =>
    cases h' with
    | basic mode' => rw [mode] at mode'; exact absurd mode' (by decide)
    | scatter _ next' rest =>
      rw [next] at next'
      cases next'
      rw [ih rest]

theorem ChannelExecutes.unique {s : PdmaState} {ch : Nat} {ds es : List Dsct}
    (h : ChannelExecutes s ch ds) (h' : ChannelExecutes s ch es) : ds = es := by
  cases h with
  | basic mode =>
    cases h' with
    | basic => rfl
    | scatter mode' => rw [mode] at mode'; exact absurd mode' (by decide)
  | scatter mode next run =>
    cases h' with
    | basic mode' => rw [mode] at mode'; exact absurd mode' (by decide)
    | scatter _ next' run' =>
      rw [next] at next'
      cases next'
      exact run.unique run'

def MemCtrl.increasesSrc : MemCtrl → Bool
  | .srcIncDstFix | .srcIncDstInc => true
  | _ => false

def MemCtrl.increasesDst : MemCtrl → Bool
  | .srcFixDstInc | .srcIncDstInc => true
  | _ => false

theorem srcInc_eq {m : MemCtrl} (h : m ≠ .undefined) : m.srcInc = m.increasesSrc := by
  cases m <;> first | rfl | exact absurd rfl h

theorem dstInc_eq {m : MemCtrl} (h : m ≠ .undefined) : m.dstInc = m.increasesDst := by
  cases m <;> first | rfl | exact absurd rfl h

def movedBytes (ds : List Dsct) : Nat := (ds.map fun d => d.units * d.unitBytes).sum

/-- A chain that moves `n` units of `dataWidth` bits from `src` to `dst` and then stops. -/
structure MovesExactly (mem : Addr → Option Dsct) (memCtl : MemCtrl) (dataWidth src dst : U32)
    (n : Nat) (ds : List Dsct) : Prop where
  count : ∀ d ∈ ds, 1 ≤ d.units ∧ d.units ≤ nuPdmaMaxTxcnt
  total : (ds.map Dsct.units).sum = n
  width : ∀ d ∈ ds, d.unitBytes * 8 = dataWidth.toNat
  sides : ∀ d ∈ ds, d.srcFixed = !memCtl.increasesSrc ∧ d.dstFixed = !memCtl.increasesDst
  source : ∀ k d, ds[k]? = some d → d.sa =
    if memCtl.increasesSrc then src + BitVec.ofNat 32 (movedBytes (ds.take k)) else src
  dest : ∀ k d, ds[k]? = some d → d.da =
    if memCtl.increasesDst then dst + BitVec.ofNat 32 (movedBytes (ds.take k)) else dst
  linked : ∀ k d, ds[k]? = some d → k + 1 < ds.length →
    d.opMode = pdmaOpScatter ∧ mem d.next = ds[k + 1]? ∧ d.raisesInterrupt = false
  final : ∀ k d, ds[k]? = some d → k + 1 = ds.length →
    d.opMode = pdmaOpBasic ∧ d.raisesInterrupt = true

/-- The descriptor `k` steps further, when `left` ones remain to be set up for `transferCnt` units. -/
def chainDesc (c : PdmaChn) (dataWidth src dst transferCnt offset : U32) (left : Nat)
    (next : Nat → Addr) (k : Nat) : Dsct :=
  let ahead := offset + BitVec.ofNat 32 (k * (nuPdmaMaxTxcnt * (dataWidth.toNat / 8)))
  descOf c.memCtl (c.peripheral = pdmaMem) dataWidth
    (if c.memCtl.srcInc then src + ahead else src)
    (if c.memCtl.dstInc then dst + ahead else dst)
    (BitVec.ofNat 32 (min nuPdmaMaxTxcnt (transferCnt.toNat - k * nuPdmaMaxTxcnt)))
    (if k + 1 = left then 0 else next (k + 1)) (k + 1 ≠ left)

theorem fullChunk_bytes {dataWidth : U32} (h : dataWidth = 8 ∨ dataWidth = 16 ∨ dataWidth = 32) :
    BitVec.ofNat 32 nuPdmaMaxTxcnt * dataWidth / 8 =
      BitVec.ofNat 32 (nuPdmaMaxTxcnt * (dataWidth.toNat / 8)) := by
  rcases h with h | h | h <;> subst h <;> decide

theorem chainDesc_succ (c : PdmaChn) {dataWidth : U32} (src dst transferCnt offset : U32)
    (left : Nat) (next : Nat → Addr) (k : Nat)
    (hw : dataWidth = 8 ∨ dataWidth = 16 ∨ dataWidth = 32)
    (large : nuPdmaMaxTxcnt ≤ transferCnt.toNat) :
    chainDesc c dataWidth src dst (transferCnt - BitVec.ofNat 32 nuPdmaMaxTxcnt)
        (offset + BitVec.ofNat 32 nuPdmaMaxTxcnt * dataWidth / 8) left (fun j => next (j + 1)) k =
      chainDesc c dataWidth src dst transferCnt offset (left + 1) next (k + 1) := by
  have rest : (transferCnt - BitVec.ofNat 32 nuPdmaMaxTxcnt).toNat - k * nuPdmaMaxTxcnt =
      transferCnt.toNat - (k + 1) * nuPdmaMaxTxcnt := by
    rw [BitVec.toNat_sub_of_le (by simpa [BitVec.le_def, nuPdmaMaxTxcnt] using large)]
    simp only [BitVec.toNat_ofNat, nuPdmaMaxTxcnt]
    omega
  have ahead : offset + BitVec.ofNat 32 nuPdmaMaxTxcnt * dataWidth / 8 +
      BitVec.ofNat 32 (k * (nuPdmaMaxTxcnt * (dataWidth.toNat / 8))) =
      offset + BitVec.ofNat 32 ((k + 1) * (nuPdmaMaxTxcnt * (dataWidth.toNat / 8))) := by
    rw [fullChunk_bytes hw, BitVec.add_assoc, ← BitVec.ofNat_add, Nat.succ_mul, Nat.add_comm]
  unfold chainDesc
  simp only [rest, ahead, Nat.add_right_cancel_iff, ne_eq]

theorem chunkCnt_eq (transferCnt : U32) :
    chunkCnt transferCnt = BitVec.ofNat 32 (min nuPdmaMaxTxcnt transferCnt.toNat) := by
  unfold chunkCnt
  split
  · rw [Nat.min_eq_left (by omega)]
  · rw [Nat.min_eq_right (by omega), BitVec.ofNat_toNat, BitVec.setWidth_eq]

theorem chainDesc_zero (c : PdmaChn) (dataWidth src dst transferCnt offset : U32) (left : Nat)
    (next : Nat → Addr) :
    chainDesc c dataWidth src dst transferCnt offset left next 0 =
      descOf c.memCtl (c.peripheral = pdmaMem) dataWidth
        (if c.memCtl.srcInc then src + offset else src)
        (if c.memCtl.dstInc then dst + offset else dst) (chunkCnt transferCnt)
        (if 1 = left then 0 else next 1) (1 ≠ left) := by
  unfold chainDesc
  rw [chunkCnt_eq]
  simp

theorem drop_nodup_notMem {as : List Addr} (nodup : as.Nodup) {i : Nat} {a : Addr}
    (entry : as[i]? = some a) : a ∉ as.drop (i + 1) := by
  obtain ⟨bound, here⟩ := List.getElem?_eq_some_iff.mp entry
  have split := List.drop_eq_getElem_cons bound
  rw [here] at split
  have tail : (as.drop i).Nodup := nodup.sublist (List.drop_sublist i as)
  rw [split] at tail
  exact (List.nodup_cons.mp tail).1

theorem rest_left {left : Nat} {transferCnt : U32}
    (hl : left + 1 = transferCnt.toNat / nuPdmaMaxTxcnt + 1) :
    left = 0 ∨ (nuPdmaMaxTxcnt ≤ transferCnt.toNat ∧
      chunkCnt transferCnt = BitVec.ofNat 32 nuPdmaMaxTxcnt ∧
      left = (transferCnt - chunkCnt transferCnt).toNat / nuPdmaMaxTxcnt + 1) := by
  by_cases zero : left = 0
  · exact .inl zero
  right
  have large : nuPdmaMaxTxcnt ≤ transferCnt.toNat := by
    unfold nuPdmaMaxTxcnt at *
    omega
  have chunk : chunkCnt transferCnt = BitVec.ofNat 32 nuPdmaMaxTxcnt := by
    rw [chunkCnt_eq, Nat.min_eq_left large]
  refine ⟨large, chunk, ?_⟩
  rw [chunk, BitVec.toNat_sub_of_le (by simpa [BitVec.le_def, nuPdmaMaxTxcnt] using large)]
  simp only [BitVec.toNat_ofNat, nuPdmaMaxTxcnt] at *
  omega

theorem chainSetup_programs {ch : Nat} {dataWidth src dst : U32} {as : List Addr} (nodup : as.Nodup)
    {left : Nat} : ∀ {i : Nat} {s s' : PdmaState} {transferCnt offset : U32}, s.allocated ch →
    s.tables (s.chn ch).sgtbl = some as → i + left = (s.chn ch).wantedSGTblNum →
    (left = 0 ∨ left = transferCnt.toNat / nuPdmaMaxTxcnt + 1) →
    chainSetup ch dataWidth src dst (s.chn ch).memCtl left i s transferCnt offset =
      .ok (s', rtEok) →
    ∃ f, s' = { s with descs := f } ∧ (∀ a, a ∉ as.drop i → f a = s.descs a) ∧
      ∀ k, k < left → (dataWidth = 8 ∨ dataWidth = 16 ∨ dataWidth = 32) ∧
        ∃ a, as[i + k]? = some a ∧ a ≠ 0 ∧
          f a = some (chainDesc (s.chn ch) dataWidth src dst transferCnt offset left
            (fun j => as.getD (i + j) 0) k) := by
  induction left with
  | zero =>
    intro i s s' transferCnt offset _ _ _ _ h
    cases h
    exact ⟨s.descs, rfl, fun _ _ => rfl, fun k hk => absurd hk (Nat.not_lt_zero k)⟩
  | succ left ih =>
    intro i s s' transferCnt offset alloc table len hl h
    have hl : left + 1 = transferCnt.toNat / nuPdmaMaxTxcnt + 1 := by omega
    obtain ⟨a, next, entry, last, more, accepts, rest⟩ := chainSetup_succ_ok alloc table len h
    obtain ⟨notNull, width, -⟩ := accepts
    have here : a ≠ 0 := by
      intro zero
      exact notNull (by rw [zero])
    have link : next = if 1 = left + 1 then 0 else as.getD (i + 1) 0 := by
      by_cases zero : left = 0
      · rw [last zero, if_pos (by omega)]
      · rw [if_neg (by omega), List.getD_eq_getElem?_getD, more zero]
        rfl
    have first := chainDesc_zero (s.chn ch) dataWidth src dst transferCnt offset (left + 1)
      (fun j => as.getD (i + j) 0)
    rw [← link, show decide (1 ≠ left + 1) = decide (left ≠ 0) by simp] at first
    rw [← first] at rest
    have restLeft : left = 0 ∨
        left = (transferCnt - chunkCnt transferCnt).toNat / nuPdmaMaxTxcnt + 1 := by
      rcases rest_left hl with zero | ⟨-, -, eq⟩
      · exact .inl zero
      · exact .inr eq
    obtain ⟨f, same, frame, content⟩ := ih (i := i + 1)
      (s := { s with descs := Function.update s.descs a (some _) })
      alloc table ((Nat.add_right_comm i 1 left).trans len) restLeft rest
    have frame : ∀ b, b ∉ as.drop (i + 1) → f b = Function.update s.descs a (some _) b := frame
    have notLater := drop_nodup_notMem nodup entry
    refine ⟨f, by rw [same], ?_, ?_⟩
    · intro b outside
      have split := List.drop_eq_getElem_cons (List.getElem?_eq_some_iff.mp entry).1
      rw [(List.getElem?_eq_some_iff.mp entry).2] at split
      rw [split] at outside
      obtain ⟨other, later⟩ := not_or.mp (fun hb => outside (List.mem_cons.mpr hb))
      rw [frame b later, Function.update_of_ne other]
    · intro k hk
      refine ⟨width, ?_⟩
      cases k with
      | zero =>
        refine ⟨a, by simpa using entry, here, ?_⟩
        rw [frame a notLater, Function.update_self]
      | succ k =>
        obtain ⟨-, b, entry', notNull', value⟩ := content k (by omega)
        refine ⟨b, by rw [← entry']; congr 1; omega, notNull', ?_⟩
        rcases rest_left hl with zero | ⟨large, chunk, -⟩
        · omega
        rw [value]
        congr 1
        have shift := chainDesc_succ (s.chn ch) src dst transferCnt offset left
          (fun j => as.getD (i + j) 0) k width large
        rw [← shift, chunk]
        congr 1
        funext j
        congr 1
        omega

theorem setTransferMode_reg_opMode (s : PdmaState) (ch : Nat) (peripheral : U32) (scatterEn : Bool)
    (descAddr : U32) :
    ((pdmaSetTransferMode s ch peripheral scatterEn descAddr).dsct ch).opMode =
      if scatterEn then pdmaOpScatter else pdmaOpBasic := by
  have clear (c m : U32) (hm : m &&& ~~~pdmaDsctCtlOpmodeMsk = 0) :
      (c &&& ~~~pdmaDsctCtlOpmodeMsk ||| m) &&& pdmaDsctCtlOpmodeMsk = m := by
    apply BitVec.eq_of_getLsbD_eq
    intro i hi
    have bit := congrArg (fun v => BitVec.getLsbD v i) hm
    simp only [BitVec.getLsbD_and, BitVec.getLsbD_not, hi, decide_true, Bool.true_and,
      BitVec.ofNat_eq_ofNat, BitVec.getLsbD_zero] at bit
    simp only [BitVec.getLsbD_and, BitVec.getLsbD_or, BitVec.getLsbD_not, hi, decide_true,
      Bool.true_and]
    revert bit
    generalize pdmaDsctCtlOpmodeMsk.getLsbD i = mask
    cases c.getLsbD i <;> cases m.getLsbD i <;> cases mask <;> decide
  unfold pdmaSetTransferMode Dsct.opMode
  cases scatterEn with
  | false => simpa using clear _ pdmaOpBasic (by decide)
  | true => simpa using clear _ pdmaOpScatter (by decide)

theorem setTransferMode_basic_reg {s : PdmaState} {ch : Nat} (peripheral : U32) (descAddr : U32)
    (mode : (s.dsct ch).opMode = pdmaOpBasic) :
    (pdmaSetTransferMode s ch peripheral false descAddr).dsct ch = s.dsct ch := by
  have same : (s.dsct ch).ctl &&& ~~~pdmaDsctCtlOpmodeMsk ||| pdmaOpBasic = (s.dsct ch).ctl := by
    rw [← mode, Dsct.opMode]
    apply BitVec.eq_of_getLsbD_eq
    intro i hi
    simp only [BitVec.getLsbD_and, BitVec.getLsbD_or, BitVec.getLsbD_not, hi, decide_true,
      Bool.true_and]
    cases (s.dsct ch).ctl.getLsbD i <;> cases pdmaDsctCtlOpmodeMsk.getLsbD i <;> rfl
  simp [pdmaSetTransferMode, same]

theorem nuPdmaTransferHead_ok {s s' : PdmaState} {ch : Nat} {peripheral idleTimeoutUs : U32}
    {head : DescRef} (h : nuPdmaTransferHead s ch peripheral head idleTimeoutUs = .ok s') :
    ∃ d, s.readDesc head = .ok d ∧ s'.descs = s.descs ∧
      s'.dsct = (pdmaSetTransferMode s ch peripheral (d.next ≠ 0) head.addr).dsct := by
  unfold nuPdmaTransferHead at h
  obtain ⟨d, read, h⟩ := Runs.bind_ok_iff.mp h
  refine ⟨d, read, ?_⟩
  rcases nuPdmaTimeoutSet_ok h with same | set
  · rw [same]
    exact ⟨rfl, rfl⟩
  · rw [set]
    exact ⟨rfl, rfl⟩

theorem one_lt_wantedFor {transferCnt : U32} (large : nuPdmaMaxTxcnt < transferCnt.toNat) :
    1 < wantedFor transferCnt := by
  unfold wantedFor
  unfold nuPdmaMaxTxcnt at *
  omega

theorem readDesc_mem {s : PdmaState} {a : Addr} {d e : Dsct} (read : s.readDesc (.mem a) = .ok d)
    (value : s.descs a = some e) : d = e := by
  simp only [PdmaState.readDesc, value] at read
  cases read
  rfl

theorem nuPdmaTransferChain_programs {s s' : PdmaState} (formed : TablesFormed s) {ch : Nat}
    (alloc : s.allocated ch) {dataWidth src dst transferCnt idleTimeoutUs : U32}
    (large : nuPdmaMaxTxcnt < transferCnt.toNat) {allocs : List (Option Addr)}
    (h : nuPdmaTransferChain s ch dataWidth src dst transferCnt idleTimeoutUs allocs =
      .ok (s', rtEok)) :
    (dataWidth = 8 ∨ dataWidth = 16 ∨ dataWidth = 32) ∧
    ∃ c : PdmaChn, c.memCtl = (s.chn ch).memCtl ∧ (s'.dsct ch).opMode = pdmaOpScatter ∧
      ∃ as : List Addr, as[0]? = some (s'.dsct ch).next ∧
        ∀ k, k < wantedFor transferCnt → ∃ a, as[k]? = some a ∧ a ≠ 0 ∧
          s'.descs a = some (chainDesc c dataWidth src dst transferCnt 0
            (wantedFor transferCnt) (fun j => as.getD j 0) k) := by
  have more := one_lt_wantedFor large
  unfold nuPdmaTransferChain at h
  obtain ⟨memCtl, mode, h⟩ := Runs.bind_ok_iff.mp h
  have mode : memCtl = (s.chn ch).memCtl := by
    rw [nuPdmaChannelMemctrlGet, check_of_allocated alloc] at mode
    cases mode
    rfl
  obtain ⟨⟨t, haveTable⟩, table, h⟩ := Runs.bind_ok_iff.mp h
  obtain ⟨keep, wanted⟩ := chainTable_ok table
  cases haveTable with
  | false =>
    obtain ⟨u, -, h⟩ := Runs.bind_ok_iff.mp h
    cases h
  | true =>
    simp only [Bool.not_true, Bool.false_eq_true, if_false] at h
    obtain ⟨⟨u, code⟩, setup, h⟩ := Runs.bind_ok_iff.mp h
    by_cases good : code = rtEok
    · subst good
      simp only [ne_eq, not_true_eq_false, if_false] at h
      obtain ⟨head, entry, h⟩ := Runs.bind_ok_iff.mp h
      obtain ⟨v, start, h⟩ := Runs.bind_ok_iff.mp h
      cases h
      obtain ⟨as, haveAs, first⟩ := sgtblEntry_ok_iff.mp entry
      rw [mode, ← keep.memCtl] at setup
      obtain ⟨f, same⟩ := chainSetup_frame setup
      subst same
      have nodup : as.Nodup := (keep.tablesFormed formed).nodup _ _ haveAs
      obtain ⟨f', same, -, content⟩ := chainSetup_programs nodup (keep.allocated.mpr alloc) haveAs
        (by simp) (.inr wanted) setup
      have same : f = f' := congrArg PdmaState.descs same
      subst same
      simp only [wanted, Nat.zero_add] at content
      obtain ⟨width, a, here, -, value⟩ := content 0 (by omega)
      obtain ⟨-, b, after, notNull, -⟩ := content 1 more
      rw [first] at here
      cases here
      obtain ⟨d, read, descs, reg⟩ := nuPdmaTransferHead_ok start
      have linked : d.next ≠ 0 := by
        rw [readDesc_mem read value]
        simp only [chainDesc, descOf, if_neg (show ¬0 + 1 = wantedFor transferCnt by omega)]
        rw [Nat.zero_add, List.getD_eq_getElem?_getD, after]
        exact notNull
      rw [decide_eq_true linked] at reg
      refine ⟨width, t.chn ch, keep.memCtl ch, ?_, as, ?_, ?_⟩
      · rw [reg, setTransferMode_reg_opMode]
        rfl
      · rw [reg, first]
        simp [pdmaSetTransferMode, DescRef.addr]
      · intro k hk
        obtain ⟨-, a, here, notNull, value⟩ := content k hk
        exact ⟨a, here, notNull, by rw [descs]; exact value⟩
    · simp only [good, ne_eq, not_false_eq_true, if_true] at h
      obtain ⟨v, -, h⟩ := Runs.bind_ok_iff.mp h
      simp only [pure, Except.pure, Except.ok.injEq, Prod.mk.injEq] at h
      exact absurd (by simpa [rtEok] using h.2) good

theorem nuPdmaTransfer_ok_cases {s s' : PdmaState} (formed : TablesFormed s) {ch : Nat}
    {dataWidth src dst transferCnt idleTimeoutUs : U32} {allocs : List (Option Addr)}
    (h : nuPdmaTransfer s ch dataWidth src dst transferCnt idleTimeoutUs allocs =
      .ok (s', rtEok)) :
    0 < transferCnt.toNat ∧ (dataWidth = 8 ∨ dataWidth = 16 ∨ dataWidth = 32) ∧
    ∃ c : PdmaChn, c.memCtl = (s.chn ch).memCtl ∧
      ((transferCnt.toNat ≤ nuPdmaMaxTxcnt ∧
          ChannelExecutes s' ch [descOf c.memCtl (c.peripheral = pdmaMem) dataWidth src dst
            transferCnt 0 false]) ∨
        (nuPdmaMaxTxcnt < transferCnt.toNat ∧ (s'.dsct ch).opMode = pdmaOpScatter ∧
          ∃ as : List Addr, as[0]? = some (s'.dsct ch).next ∧
            ∀ k, k < wantedFor transferCnt → ∃ a, as[k]? = some a ∧ a ≠ 0 ∧
              s'.descs a = some (chainDesc c dataWidth src dst transferCnt 0
                (wantedFor transferCnt) (fun j => as.getD j 0) k))) := by
  unfold nuPdmaTransfer at h
  rcases check_cases s ch with fault | free | alloc
  · rw [fault] at h
    cases h
  · rw [free] at h
    cases h
  rw [check_of_allocated alloc] at h
  simp only [bind, Except.bind, Bool.false_eq_true, if_false] at h
  by_cases zero : transferCnt = 0
  · rw [if_pos zero] at h
    cases h
  rw [if_neg zero] at h
  have positive : 0 < transferCnt.toNat := by
    by_contra none
    exact zero (BitVec.eq_of_toNat_eq (by simpa using none))
  refine ⟨positive, ?_⟩
  by_cases large : transferCnt.toNat > nuPdmaMaxTxcnt
  · rw [if_pos large] at h
    obtain ⟨width, c, mode, chain⟩ := nuPdmaTransferChain_programs formed alloc large h
    exact ⟨width, c, mode, .inr ⟨large, chain⟩⟩
  · rw [if_neg large] at h
    obtain ⟨⟨t, code⟩, setup, h⟩ := Runs.bind_ok_iff.mp h
    rw [nuPdmaDescSetup_eq alloc] at setup
    by_cases accepts : descAccepts (.reg ch) dataWidth src dst transferCnt
    · rw [if_pos accepts] at setup
      cases setup
      obtain ⟨u, start, h⟩ := Runs.bind_ok_iff.mp h
      cases h
      obtain ⟨d, read, -, reg⟩ := nuPdmaTransferHead_ok start
      cases read
      refine ⟨accepts.2.1, s.chn ch, rfl, .inl ⟨by omega, ?_⟩⟩
      have basic := descOf_opMode (s.chn ch).memCtl ((s.chn ch).peripheral = pdmaMem) dataWidth
        src dst transferCnt 0 false
      rw [if_pos rfl] at basic
      have written : s'.dsct ch = descOf (s.chn ch).memCtl ((s.chn ch).peripheral = pdmaMem)
          dataWidth src dst transferCnt 0 false := by
        rw [reg]
        simp only [Function.update_self]
        rw [show decide ((descOf (s.chn ch).memCtl ((s.chn ch).peripheral = pdmaMem) dataWidth
          src dst transferCnt 0 false).next ≠ 0) = false by simp [descOf]]
        rw [setTransferMode_basic_reg _ _ (by simpa using basic)]
        simp
      have run : ChannelExecutes s' ch [s'.dsct ch] := .basic (by rw [written]; exact basic)
      rw [written] at run
      exact run
    · rw [if_neg accepts] at setup
      cases setup
      cases h

/-- Descriptors of the whole chain for `transferCnt` units. -/
def chainList (c : PdmaChn) (dataWidth src dst transferCnt : U32) (next : Nat → Addr) :
    List Dsct :=
  (List.range (wantedFor transferCnt)).map
    (chainDesc c dataWidth src dst transferCnt 0 (wantedFor transferCnt) next)

theorem chainList_length (c : PdmaChn) (dataWidth src dst transferCnt : U32) (next : Nat → Addr) :
    (chainList c dataWidth src dst transferCnt next).length = wantedFor transferCnt := by
  simp [chainList]

theorem chainList_getElem? {c : PdmaChn} {dataWidth src dst transferCnt : U32} {next : Nat → Addr}
    {k : Nat} {d : Dsct} (h : (chainList c dataWidth src dst transferCnt next)[k]? = some d) :
    k < wantedFor transferCnt ∧
      d = chainDesc c dataWidth src dst transferCnt 0 (wantedFor transferCnt) next k := by
  obtain ⟨bound, here⟩ := List.getElem?_eq_some_iff.mp h
  rw [chainList_length] at bound
  refine ⟨bound, ?_⟩
  rw [← here]
  simp [chainList]

theorem chainDesc_units (c : PdmaChn) (dataWidth src dst transferCnt offset : U32) (left : Nat)
    (next : Nat → Addr) (k : Nat) :
    (chainDesc c dataWidth src dst transferCnt offset left next k).units =
      if transferCnt.toNat - k * nuPdmaMaxTxcnt = 0 then nuPdmaMaxTxcnt
      else min nuPdmaMaxTxcnt (transferCnt.toNat - k * nuPdmaMaxTxcnt) := by
  unfold chainDesc
  rw [descOf_units_of_count (Nat.min_le_left _ _)]
  unfold nuPdmaMaxTxcnt
  split_ifs <;> omega

theorem chainDesc_units_full {transferCnt : U32} {k : Nat} (c : PdmaChn)
    (dataWidth src dst offset : U32) (left : Nat) (next : Nat → Addr)
    (h : k + 1 < wantedFor transferCnt) :
    (chainDesc c dataWidth src dst transferCnt offset left next k).units = nuPdmaMaxTxcnt := by
  rw [chainDesc_units]
  unfold wantedFor nuPdmaMaxTxcnt at *
  split_ifs <;> omega

theorem chainDesc_units_last (transferCnt : U32) (c : PdmaChn) (dataWidth src dst offset : U32)
    (left : Nat) (next : Nat → Addr) :
    (chainDesc c dataWidth src dst transferCnt offset left next
        (transferCnt.toNat / nuPdmaMaxTxcnt)).units =
      if nuPdmaMaxTxcnt ∣ transferCnt.toNat then nuPdmaMaxTxcnt
      else transferCnt.toNat % nuPdmaMaxTxcnt := by
  rw [chainDesc_units]
  unfold nuPdmaMaxTxcnt at *
  split_ifs <;> omega

theorem chainList_movedUnits (c : PdmaChn) (dataWidth src dst transferCnt : U32)
    (next : Nat → Addr) {k : Nat} (h : k < wantedFor transferCnt) :
    (((chainList c dataWidth src dst transferCnt next).take k).map Dsct.units).sum =
      k * nuPdmaMaxTxcnt := by
  induction k with
  | zero => simp
  | succ k ih =>
    have here : (chainList c dataWidth src dst transferCnt next)[k]? =
        some (chainDesc c dataWidth src dst transferCnt 0 (wantedFor transferCnt) next k) := by
      simp [chainList, show k < wantedFor transferCnt by omega]
    rw [List.take_add_one, here, List.map_append, List.sum_append, ih (by omega), Nat.succ_mul]
    simpa using chainDesc_units_full c dataWidth src dst 0 _ next h

theorem chainList_total (c : PdmaChn) (dataWidth src dst transferCnt : U32) (next : Nat → Addr) :
    ((chainList c dataWidth src dst transferCnt next).map Dsct.units).sum =
      if nuPdmaMaxTxcnt ∣ transferCnt.toNat then transferCnt.toNat + nuPdmaMaxTxcnt
      else transferCnt.toNat := by
  have last : (chainList c dataWidth src dst transferCnt next)[transferCnt.toNat / nuPdmaMaxTxcnt]? =
      some (chainDesc c dataWidth src dst transferCnt 0 (wantedFor transferCnt) next
        (transferCnt.toNat / nuPdmaMaxTxcnt)) := by
    simp [chainList, wantedFor]
  have whole : chainList c dataWidth src dst transferCnt next =
      (chainList c dataWidth src dst transferCnt next).take (wantedFor transferCnt) := by
    rw [List.take_of_length_le (by rw [chainList_length])]
  rw [whole, wantedFor, List.take_add_one, last]
  simp only [Option.toList_some, List.map_append, List.map_cons, List.map_nil, List.sum_append,
    List.sum_cons, List.sum_nil,
    chainList_movedUnits c dataWidth src dst transferCnt next
      (show transferCnt.toNat / nuPdmaMaxTxcnt < wantedFor transferCnt from Nat.lt_succ_self _),
    chainDesc_units_last]
  unfold nuPdmaMaxTxcnt
  split_ifs <;> omega

theorem chainDesc_unitBytes (c : PdmaChn) {dataWidth : U32} (src dst transferCnt offset : U32)
    (left : Nat) (next : Nat → Addr) (k : Nat)
    (hw : dataWidth = 8 ∨ dataWidth = 16 ∨ dataWidth = 32) :
    (chainDesc c dataWidth src dst transferCnt offset left next k).unitBytes =
      dataWidth.toNat / 8 := by
  unfold chainDesc
  exact descOf_unitBytes _ _ _ _ _ _ _ hw

theorem movedBytes_of_width {ds : List Dsct} {b : Nat} (h : ∀ d ∈ ds, d.unitBytes = b) :
    movedBytes ds = (ds.map Dsct.units).sum * b := by
  induction ds with
  | nil => simp [movedBytes]
  | cons d ds ih =>
    have rest := ih (fun e he => h e (List.mem_cons_of_mem d he))
    unfold movedBytes at *
    rw [List.map_cons, List.sum_cons, rest, h d List.mem_cons_self, List.map_cons, List.sum_cons,
      Nat.add_mul]

theorem chainList_executes {mem : Addr → Option Dsct} {c : PdmaChn}
    {dataWidth src dst : U32} (transferCnt : U32) (next : Nat → Addr)
    (set : ∀ k, k + 1 < wantedFor transferCnt → next (k + 1) ≠ 0 ∧ mem (next (k + 1)) =
      some (chainDesc c dataWidth src dst transferCnt 0 (wantedFor transferCnt) next (k + 1)))
    (m : Nat) : ∀ k, k + (m + 1) = wantedFor transferCnt →
    Executes mem (chainDesc c dataWidth src dst transferCnt 0 (wantedFor transferCnt) next k)
      ((List.range' k (m + 1)).map
        (chainDesc c dataWidth src dst transferCnt 0 (wantedFor transferCnt) next)) := by
  induction m with
  | zero =>
    intro k hk
    refine Executes.basic ?_
    unfold chainDesc
    rw [descOf_opMode, if_pos (show k + 1 = wantedFor transferCnt by omega), if_pos rfl]
  | succ m ih =>
    intro k hk
    obtain ⟨notNull, stored⟩ := set k (by omega)
    refine Executes.scatter ?_ ?_ (ih (k + 1) (by omega))
    · unfold chainDesc
      rw [descOf_opMode, if_neg (show ¬k + 1 = wantedFor transferCnt by omega), if_neg notNull]
    · rw [← stored]
      congr 1
      simp only [chainDesc, descOf, if_neg (show ¬k + 1 = wantedFor transferCnt by omega)]

theorem width_bytes {dataWidth : U32} (h : dataWidth = 8 ∨ dataWidth = 16 ∨ dataWidth = 32) :
    dataWidth.toNat / 8 * 8 = dataWidth.toNat := by
  rcases h with h | h | h <;> subst h <;> decide

theorem basic_movesExactly {mem : Addr → Option Dsct} {memCtl : MemCtrl}
    (mode : memCtl ≠ .undefined) (isMem : Bool) {dataWidth src dst transferCnt : U32}
    (hw : dataWidth = 8 ∨ dataWidth = 16 ∨ dataWidth = 32) (positive : 0 < transferCnt.toNat)
    (small : transferCnt.toNat ≤ nuPdmaMaxTxcnt) :
    MovesExactly mem memCtl dataWidth src dst transferCnt.toNat
      [descOf memCtl isMem dataWidth src dst transferCnt 0 false] := by
  have units : (descOf memCtl isMem dataWidth src dst transferCnt 0 false).units =
      transferCnt.toNat := by
    have count : (descOf memCtl isMem dataWidth src dst (BitVec.ofNat 32 transferCnt.toNat) 0
      false).units = _ := descOf_units_of_count small
    rw [if_neg (by omega), BitVec.ofNat_toNat, BitVec.setWidth_eq] at count
    exact count
  have only {k : Nat} {d : Dsct}
      (h : [descOf memCtl isMem dataWidth src dst transferCnt 0 false][k]? = some d) :
      k = 0 ∧ d = descOf memCtl isMem dataWidth src dst transferCnt 0 false := by
    cases k with
    | zero => exact ⟨rfl, (by simpa using h.symm)⟩
    | succ k => simp at h
  refine ⟨?_, ?_, ?_, ?_, ?_, ?_, ?_, ?_⟩
  · intro d hd
    rw [List.mem_singleton.mp hd, units]
    exact ⟨positive, small⟩
  · simpa using units
  · intro d hd
    rw [List.mem_singleton.mp hd, descOf_unitBytes _ _ _ _ _ _ _ hw, width_bytes hw]
  · intro d hd
    rw [List.mem_singleton.mp hd, descOf_srcFixed, descOf_dstFixed, srcInc_eq mode, dstInc_eq mode]
    exact ⟨rfl, rfl⟩
  · intro k d h
    obtain ⟨here, same⟩ := only h
    simp [here, same, descOf, movedBytes]
  · intro k d h
    obtain ⟨here, same⟩ := only h
    simp [here, same, descOf, movedBytes]
  · intro k d h more
    simp at more
  · intro k d h _
    obtain ⟨-, same⟩ := only h
    rw [same, descOf_opMode, descOf_raisesInterrupt]
    exact ⟨rfl, rfl⟩

theorem chain_movesExactly {mem : Addr → Option Dsct} {c : PdmaChn} (mode : c.memCtl ≠ .undefined)
    {dataWidth src dst transferCnt : U32} {next : Nat → Addr}
    (hw : dataWidth = 8 ∨ dataWidth = 16 ∨ dataWidth = 32)
    (set : ∀ k, k + 1 < wantedFor transferCnt → next (k + 1) ≠ 0 ∧ mem (next (k + 1)) =
      some (chainDesc c dataWidth src dst transferCnt 0 (wantedFor transferCnt) next (k + 1)))
    (rest : ¬nuPdmaMaxTxcnt ∣ transferCnt.toNat) :
    MovesExactly mem c.memCtl dataWidth src dst transferCnt.toNat
      (chainList c dataWidth src dst transferCnt next) := by
  have member {d : Dsct} (h : d ∈ chainList c dataWidth src dst transferCnt next) : ∃ k,
      k < wantedFor transferCnt ∧
      d = chainDesc c dataWidth src dst transferCnt 0 (wantedFor transferCnt) next k := by
    obtain ⟨k, hk⟩ := List.mem_iff_getElem?.mp h
    exact ⟨k, chainList_getElem? hk⟩
  have ahead {k : Nat} (hk : k < wantedFor transferCnt) :
      movedBytes ((chainList c dataWidth src dst transferCnt next).take k) =
        k * (nuPdmaMaxTxcnt * (dataWidth.toNat / 8)) := by
    rw [movedBytes_of_width (b := dataWidth.toNat / 8), chainList_movedUnits _ _ _ _ _ _ hk,
      Nat.mul_assoc]
    intro d hd
    obtain ⟨j, -, same⟩ := member (List.mem_of_mem_take hd)
    rw [same, chainDesc_unitBytes _ _ _ _ _ _ _ _ hw]
  refine ⟨?_, ?_, ?_, ?_, ?_, ?_, ?_, ?_⟩
  · intro d hd
    obtain ⟨k, hk, same⟩ := member hd
    rw [same, chainDesc_units]
    unfold nuPdmaMaxTxcnt
    split_ifs <;> omega
  · rw [chainList_total, if_neg rest]
  · intro d hd
    obtain ⟨k, -, same⟩ := member hd
    rw [same, chainDesc_unitBytes _ _ _ _ _ _ _ _ hw, width_bytes hw]
  · intro d hd
    obtain ⟨k, -, same⟩ := member hd
    rw [same]
    unfold chainDesc
    rw [descOf_srcFixed, descOf_dstFixed, srcInc_eq mode, dstInc_eq mode]
    exact ⟨rfl, rfl⟩
  · intro k d h
    obtain ⟨hk, same⟩ := chainList_getElem? h
    rw [ahead hk, same, ← srcInc_eq mode]
    simp [chainDesc, descOf]
  · intro k d h
    obtain ⟨hk, same⟩ := chainList_getElem? h
    rw [ahead hk, same, ← dstInc_eq mode]
    simp [chainDesc, descOf]
  · intro k d h more
    rw [chainList_length] at more
    obtain ⟨-, same⟩ := chainList_getElem? h
    obtain ⟨notNull, stored⟩ := set k more
    have link : d.next = next (k + 1) := by
      simp only [same, chainDesc, descOf, if_neg (show ¬k + 1 = wantedFor transferCnt by omega)]
    refine ⟨?_, ?_, ?_⟩
    · rw [same]
      unfold chainDesc
      rw [descOf_opMode, if_neg (show ¬k + 1 = wantedFor transferCnt by omega), if_neg notNull]
    · rw [link, stored]
      simp [chainList, more]
    · rw [same]
      unfold chainDesc
      rw [descOf_raisesInterrupt]
      simpa using (show ¬k + 1 = wantedFor transferCnt by omega)
  · intro k d h last
    rw [chainList_length] at last
    obtain ⟨-, same⟩ := chainList_getElem? h
    rw [same]
    unfold chainDesc
    rw [descOf_opMode, descOf_raisesInterrupt, if_pos last, if_pos rfl]
    simp [last]

theorem nuPdmaTransfer_large {s s' : PdmaState} (formed : TablesFormed s) {ch : Nat}
    {dataWidth src dst transferCnt idleTimeoutUs : U32} {allocs : List (Option Addr)}
    (large : nuPdmaMaxTxcnt < transferCnt.toNat)
    (h : nuPdmaTransfer s ch dataWidth src dst transferCnt idleTimeoutUs allocs =
      .ok (s', rtEok)) :
    ∃ (c : PdmaChn) (next : Nat → Addr), c.memCtl = (s.chn ch).memCtl ∧
      (∀ k, k + 1 < wantedFor transferCnt → next (k + 1) ≠ 0 ∧ s'.descs (next (k + 1)) =
        some (chainDesc c dataWidth src dst transferCnt 0 (wantedFor transferCnt) next (k + 1))) ∧
      ChannelExecutes s' ch (chainList c dataWidth src dst transferCnt next) := by
  obtain ⟨-, -, c, mode, basic | ⟨-, scatter, as, first, content⟩⟩ := nuPdmaTransfer_ok_cases formed h
  · omega
  have more := one_lt_wantedFor large
  have entry {k : Nat} {a : Addr} (here : as[k]? = some a) : as.getD k 0 = a := by
    rw [List.getD_eq_getElem?_getD, here]
    rfl
  have set : ∀ k, k + 1 < wantedFor transferCnt → as.getD (k + 1) 0 ≠ 0 ∧
      s'.descs (as.getD (k + 1) 0) = some (chainDesc c dataWidth src dst transferCnt 0
        (wantedFor transferCnt) (fun j => as.getD j 0) (k + 1)) := by
    intro k hk
    obtain ⟨a, here, notNull, stored⟩ := content (k + 1) hk
    rw [entry here]
    exact ⟨notNull, stored⟩
  refine ⟨c, fun j => as.getD j 0, mode, set, ?_⟩
  obtain ⟨a, here, -, stored⟩ := content 0 (by omega)
  rw [first] at here
  cases here
  have run := chainList_executes transferCnt (fun j => as.getD j 0) set (wantedFor transferCnt - 1) 0 (by omega)
  rw [show wantedFor transferCnt - 1 + 1 = wantedFor transferCnt by omega, ← List.range_eq_range']
    at run
  exact .scatter scatter stored run

/-- A transfer moves what it was asked to, except when it takes several descriptors and the count
is a multiple of what one of them holds: then the last one is set up for no units and moves a full
load. -/
theorem nuPdmaTransfer_moves_exactly_iff {s s' : PdmaState} (reach : PdmaReachable s) {ch : Nat}
    {dataWidth src dst transferCnt idleTimeoutUs : U32} {allocs : List (Option Addr)}
    (h : nuPdmaTransfer s ch dataWidth src dst transferCnt idleTimeoutUs allocs =
      .ok (s', rtEok)) :
    (∃ ds, ChannelExecutes s' ch ds ∧
      MovesExactly s'.descs (s.chn ch).memCtl dataWidth src dst transferCnt.toNat ds) ↔
    ¬(nuPdmaMaxTxcnt < transferCnt.toNat ∧ nuPdmaMaxTxcnt ∣ transferCnt.toNat) := by
  have formed := pdmaReachable_formed reach
  have mode := formed.mode ch
  obtain ⟨positive, hw, c, modeEq, start⟩ := nuPdmaTransfer_ok_cases formed h
  by_cases large : nuPdmaMaxTxcnt < transferCnt.toNat
  · obtain ⟨c, next, modeEq, set, run⟩ := nuPdmaTransfer_large formed large h
    constructor
    · rintro ⟨ds, run', exactly⟩ ⟨-, multiple⟩
      have total := exactly.total
      rw [← run.unique run', chainList_total, if_pos multiple] at total
      unfold nuPdmaMaxTxcnt at total
      omega
    · intro rest
      rw [← modeEq] at mode ⊢
      exact ⟨_, run, chain_movesExactly mode hw set (fun multiple => rest ⟨large, multiple⟩)⟩
  · rcases start with ⟨small, run⟩ | ⟨large', -⟩
    · refine iff_of_true ?_ (fun both => large both.1)
      rw [← modeEq] at mode ⊢
      exact ⟨_, run, basic_movesExactly mode _ hw positive small⟩
    · exact absurd large' large

def pdmaOpened : Except PdmaFault PdmaState := pdmaStep (.ok .powerOn) (.allocate pdmaMem)

def tableBlocks : List (Option Addr) := [some 0x1000, some 0x2000, some 0x2040, some 0x2080]

/-- Two full loads are programmed as three descriptors. -/
theorem transfer_131072_not_exact : ∃ s s', PdmaReachable s ∧ s.allocated 0 ∧
    nuPdmaTransfer s 0 32 0x80000000 0x81000000 131072 0 tableBlocks = .ok (s', rtEok) ∧
    ¬∃ ds, ChannelExecutes s' 0 ds ∧
      MovesExactly s'.descs (s.chn 0).memCtl 32 0x80000000 0x81000000 131072 ds := by
  have opened : ∃ s, pdmaOpened = .ok s ∧ s.allocated 0 ∧
      ∃ s', nuPdmaTransfer s 0 32 0x80000000 0x81000000 131072 0 tableBlocks = .ok (s', rtEok) :=
    ⟨_, rfl, by decide, _, rfl⟩
  obtain ⟨s, open_ok, alloc, s', h⟩ := opened
  have reach : PdmaReachable s := ⟨[.allocate pdmaMem], open_ok⟩
  refine ⟨s, s', reach, alloc, h, ?_⟩
  rintro ⟨ds, run', exactly⟩
  obtain ⟨c, next, -, -, run⟩ := nuPdmaTransfer_large (pdmaReachable_formed reach) (by decide) h
  have total := exactly.total
  rw [← run.unique run', chainList_total, if_pos (by decide)] at total
  exact absurd total (by decide)

theorem transfer_65537_exact : ∃ s s', PdmaReachable s ∧
    nuPdmaTransfer s 0 8 0x80000000 0x81000000 65537 0 tableBlocks = .ok (s', rtEok) ∧
    ∃ ds, ChannelExecutes s' 0 ds ∧
      MovesExactly s'.descs (s.chn 0).memCtl 8 0x80000000 0x81000000 65537 ds := by
  have opened : ∃ s, pdmaOpened = .ok s ∧
      ∃ s', nuPdmaTransfer s 0 8 0x80000000 0x81000000 65537 0 tableBlocks = .ok (s', rtEok) :=
    ⟨_, rfl, _, rfl⟩
  obtain ⟨s, open_ok, s', h⟩ := opened
  have reach : PdmaReachable s := ⟨[.allocate pdmaMem], open_ok⟩
  exact ⟨s, s', reach, h, (nuPdmaTransfer_moves_exactly_iff reach h).mpr (by decide)⟩

end NuMakerMA35
