import NuMakerMA35.PdmaTable
import NuMakerMA35.Ownership

namespace NuMakerMA35

def tableEntries (s : PdmaState) (ch : Nat) : List Addr :=
  if (s.chn ch).sgtbl = 0 then [] else (s.tables (s.chn ch).sgtbl).getD []

def tableBlock (s : PdmaState) (ch : Nat) : List Addr :=
  if (s.chn ch).sgtbl = 0 then [] else [(s.chn ch).sgtbl]

/-- Between calls each channel owns its table and the descriptors in it, and the count says how
many they are. -/
structure SgInv (s : PdmaState) : Prop where
  tables : Ownership.Owns (tableBlock s) (fun t => (s.tables t).isSome)
  descs : Ownership.Owns (tableEntries s) (fun a => (s.descs a).isSome)
  counted : ∀ ch, (tableEntries s ch).length = (s.chn ch).wantedSGTblNum
  null : ∀ ch, (s.chn ch).wantedSGTblNum = 0 → (s.chn ch).sgtbl = 0
  apart : ∀ a, (s.tables a).isSome → s.descs a = none
  nonzero : ∀ a, (s.descs a).isSome → a ≠ 0

structure SameTables (s t : PdmaState) : Prop where
  tables : t.tables = s.tables
  live : ∀ a, (t.descs a).isSome = (s.descs a).isSome
  sgtbl : ∀ ch, (t.chn ch).sgtbl = (s.chn ch).sgtbl
  wanted : ∀ ch, (t.chn ch).wantedSGTblNum = (s.chn ch).wantedSGTblNum

theorem SameTables.refl (s : PdmaState) : SameTables s s :=
  ⟨rfl, fun _ => rfl, fun _ => rfl, fun _ => rfl⟩

theorem SameTables.trans {s t u : PdmaState} (h : SameTables s t) (h' : SameTables t u) :
    SameTables s u :=
  ⟨h'.tables.trans h.tables, fun a => (h'.live a).trans (h.live a),
    fun ch => (h'.sgtbl ch).trans (h.sgtbl ch), fun ch => (h'.wanted ch).trans (h.wanted ch)⟩

theorem SameTables.entries {s t : PdmaState} (h : SameTables s t) (ch : Nat) :
    tableEntries t ch = tableEntries s ch := by
  unfold tableEntries
  rw [h.tables, h.sgtbl]

theorem SameTables.sgInv {s t : PdmaState} (h : SameTables s t) (inv : SgInv s) : SgInv t where
  tables := by
    apply inv.tables.congr
    · intro ch
      unfold tableBlock
      rw [h.sgtbl]
    · intro a
      rw [h.tables]
  descs := inv.descs.congr h.entries (fun a => by rw [h.live])
  counted := by
    intro ch
    rw [h.entries, h.wanted]
    exact inv.counted ch
  null := by
    intro ch
    rw [h.wanted, h.sgtbl]
    exact inv.null ch
  apart := by
    intro a ha
    rw [h.tables] at ha
    have none := h.live a
    rw [inv.apart a ha] at none
    simpa using none
  nonzero := by
    intro a ha
    rw [h.live] at ha
    exact inv.nonzero a ha

theorem setChn_sameTables (s : PdmaState) (ch : Nat) {c : PdmaChn}
    (sgtbl : c.sgtbl = (s.chn ch).sgtbl) (wanted : c.wantedSGTblNum = (s.chn ch).wantedSGTblNum) :
    SameTables s (s.setChn ch c) := by
  refine ⟨rfl, fun _ => rfl, ?_, ?_⟩
  · intro ch'
    by_cases same : ch' = ch
    · subst same
      simpa [PdmaState.setChn] using sgtbl
    · simp [PdmaState.setChn, same]
  · intro ch'
    by_cases same : ch' = ch
    · subst same
      simpa [PdmaState.setChn] using wanted
    · simp [PdmaState.setChn, same]

theorem SgInv.table {s : PdmaState} (inv : SgInv s) {ch : Nat}
    (h : (s.chn ch).wantedSGTblNum ≠ 0) :
    (s.chn ch).sgtbl ≠ 0 ∧ s.tables (s.chn ch).sgtbl = some (tableEntries s ch) := by
  have some_entry : tableEntries s ch ≠ [] := by
    intro none
    have count := inv.counted ch
    rw [none] at count
    exact h count.symm
  have notNull : (s.chn ch).sgtbl ≠ 0 := by
    intro null
    exact some_entry (by rw [tableEntries, if_pos null])
  refine ⟨notNull, ?_⟩
  cases table : s.tables (s.chn ch).sgtbl with
  | none => exact absurd (by rw [tableEntries, if_neg notNull, table]; rfl) some_entry
  | some as => rw [tableEntries, if_neg notNull, table]; rfl

theorem sgtblsRelease_ok {tbl : Addr} {as : List Addr} (nodup : as.Nodup) (left : Nat) :
    ∀ {s : PdmaState} (i : Nat), s.tables tbl = some as → i + left = as.length →
    (∀ a ∈ as.drop i, (s.descs a).isSome) →
    sgtblsRelease s tbl left i =
      .ok { s with descs := fun a => if a ∈ as.drop i then none else s.descs a } := by
  induction left with
  | zero =>
    intro s i _ len _
    rw [List.drop_of_length_le (by omega)]
    simp [sgtblsRelease]
  | succ left ih =>
    intro s i table len live
    have bound : i < as.length := by omega
    have split := List.drop_eq_getElem_cons bound
    have tail : (as.drop i).Nodup := nodup.sublist (List.drop_sublist i as)
    rw [split] at tail live
    obtain ⟨notLater, -⟩ := List.nodup_cons.mp tail
    have entry : s.sgtblEntry tbl i = .ok as[i] :=
      sgtblEntry_ok_iff.mpr ⟨as, table, by simp [bound]⟩
    unfold sgtblsRelease
    rw [entry]
    simp only [bind, Except.bind]
    rw [if_pos (live as[i] List.mem_cons_self)]
    have live' : ∀ a ∈ as.drop (i + 1), (Function.update s.descs as[i] none a).isSome := by
      intro a ha
      have other : a ≠ as[i] := fun same => notLater (same ▸ ha)
      simpa [other] using live a (List.mem_cons_of_mem _ ha)
    have rest := ih (s := { s with descs := Function.update s.descs as[i] none }) (i + 1)
      table (by omega) live'
    rw [rest]
    congr 2
    funext a
    rw [split]
    by_cases here : a = as[i]
    · rw [if_pos (List.mem_cons.mpr (.inl here)), here, if_neg notLater]
      exact Function.update_self ..
    · simp only [List.mem_cons, here, false_or, Function.update_of_ne here]

def PdmaState.noTable (s : PdmaState) (ch : Nat) : PdmaState :=
  s.setChn ch { s.chn ch with sgtbl := 0, wantedSGTblNum := 0 }

def PdmaState.released (s : PdmaState) (ch : Nat) : PdmaState :=
  PdmaState.noTable { s with
    tables := Function.update s.tables (s.chn ch).sgtbl none
    descs := fun a => if a ∈ tableEntries s ch then none else s.descs a } ch

theorem nuPdmaFreeSgtbls_ok {s : PdmaState} (inv : SgInv s) {ch : Nat}
    (h : (s.chn ch).wantedSGTblNum ≠ 0) : nuPdmaFreeSgtbls s ch = .ok (s.released ch) := by
  obtain ⟨notNull, table⟩ := inv.table h
  have release : sgtblsRelease s (s.chn ch).sgtbl (s.chn ch).wantedSGTblNum 0 = .ok { s with
      descs := fun a => if a ∈ tableEntries s ch then none else s.descs a } := by
    have all := sgtblsRelease_ok (inv.descs.nodup ch) (s.chn ch).wantedSGTblNum 0
      table (by rw [Nat.zero_add, inv.counted ch])
      (fun a ha => inv.descs.held ch a (by simpa using ha))
    simpa using all
  unfold nuPdmaFreeSgtbls nuPdmaSgtblsFree
  simp only [bind, Except.bind]
  rw [if_neg notNull, if_neg (by tauto), release]
  rfl

theorem noTable_chn_self (s : PdmaState) (ch : Nat) :
    (s.noTable ch).chn ch = { s.chn ch with sgtbl := 0, wantedSGTblNum := 0 } := by
  simp [PdmaState.noTable, PdmaState.setChn]

theorem noTable_chn_of_ne (s : PdmaState) {ch j : Nat} (h : j ≠ ch) :
    (s.noTable ch).chn j = s.chn j := by
  simp [PdmaState.noTable, PdmaState.setChn, h]

theorem SgInv.sgtbl_inj {s : PdmaState} (inv : SgInv s) {ch j : Nat} (h : (s.chn ch).sgtbl ≠ 0)
    (same : (s.chn j).sgtbl = (s.chn ch).sgtbl) : j = ch := by
  apply inv.tables.single j ch (s.chn ch).sgtbl
  · rw [tableBlock, same, if_neg h]
    exact List.mem_singleton_self _
  · rw [tableBlock, if_neg h]
    exact List.mem_singleton_self _

theorem released_block {s : PdmaState} (ch : Nat) :
    tableBlock (s.released ch) = Function.update (tableBlock s) ch [] := by
  funext j
  by_cases same : j = ch
  · subst same
    rw [Function.update_self, tableBlock, PdmaState.released, noTable_chn_self, if_pos rfl]
  · rw [Function.update_of_ne same, tableBlock, tableBlock, PdmaState.released,
      noTable_chn_of_ne _ same]

theorem released_entries {s : PdmaState} (inv : SgInv s) {ch : Nat} (h : (s.chn ch).sgtbl ≠ 0) :
    tableEntries (s.released ch) = Function.update (tableEntries s) ch [] := by
  funext j
  by_cases same : j = ch
  · subst same
    rw [Function.update_self, tableEntries, PdmaState.released, noTable_chn_self, if_pos rfl]
  · rw [Function.update_of_ne same, tableEntries, tableEntries, PdmaState.released,
      noTable_chn_of_ne _ same]
    have other : (s.chn j).sgtbl ≠ (s.chn ch).sgtbl := fun eq => same (inv.sgtbl_inj h eq)
    simp [PdmaState.noTable, PdmaState.setChn, other]

theorem released_sgInv {s : PdmaState} (inv : SgInv s) {ch : Nat}
    (h : (s.chn ch).wantedSGTblNum ≠ 0) : SgInv (s.released ch) := by
  obtain ⟨notNull, table⟩ := inv.table h
  have chnOther {j : Nat} (other : j ≠ ch) : (s.released ch).chn j = s.chn j :=
    noTable_chn_of_ne _ other
  have block : tableBlock s ch = [(s.chn ch).sgtbl] := by rw [tableBlock, if_neg notNull]
  have descs (a : Addr) : (s.released ch).descs a =
      if a ∈ tableEntries s ch then none else s.descs a := rfl
  have tables (t : Addr) : (s.released ch).tables t =
      Function.update s.tables (s.chn ch).sgtbl none t := rfl
  refine ⟨?_, ?_, ?_, ?_, ?_, ?_⟩
  · rw [released_block]
    apply (inv.tables.release ch).congr (fun _ => rfl)
    intro t
    rw [tables, block, List.mem_singleton]
    by_cases same : t = (s.chn ch).sgtbl
    · simp [same]
    · simp [same]
  · rw [released_entries inv notNull]
    apply (inv.descs.release ch).congr (fun _ => rfl)
    intro a
    rw [descs]
    by_cases listed : a ∈ tableEntries s ch <;> simp [listed]
  · intro j
    rw [released_entries inv notNull]
    by_cases same : j = ch
    · subst same
      rw [Function.update_self, PdmaState.released, noTable_chn_self]
      rfl
    · rw [Function.update_of_ne same, chnOther same]
      exact inv.counted j
  · intro j
    by_cases same : j = ch
    · subst same
      rw [PdmaState.released, noTable_chn_self]
      exact fun _ => rfl
    · rw [chnOther same]
      exact inv.null j
  · intro a ha
    rw [tables] at ha
    rw [descs]
    by_cases same : a = (s.chn ch).sgtbl
    · simp [same] at ha
    · rw [Function.update_of_ne same] at ha
      simp [inv.apart a ha]
  · intro a ha
    rw [descs] at ha
    by_cases listed : a ∈ tableEntries s ch
    · simp [listed] at ha
    · exact inv.nonzero a (by simpa [listed] using ha)

theorem released_live {s : PdmaState} (inv : SgInv s) {ch : Nat}
    (h : (s.chn ch).wantedSGTblNum ≠ 0) (a : Addr) :
    (s.released ch).live a = true ↔
      s.live a = true ∧ a ∉ tableBlock s ch ∧ a ∉ tableEntries s ch := by
  obtain ⟨notNull, table⟩ := inv.table h
  have block : tableBlock s ch = [(s.chn ch).sgtbl] := by rw [tableBlock, if_neg notNull]
  have descs : (s.released ch).descs a = if a ∈ tableEntries s ch then none else s.descs a := rfl
  have tables : (s.released ch).tables a = Function.update s.tables (s.chn ch).sgtbl none a := rfl
  unfold PdmaState.live
  rw [descs, tables, block, List.mem_singleton]
  by_cases same : a = (s.chn ch).sgtbl
  · have none : s.descs a = none := inv.apart a (by rw [same, table]; rfl)
    simp [same, same ▸ none]
  · by_cases listed : a ∈ tableEntries s ch
    · have noTable : s.tables a = none := by
        cases found : s.tables a with
        | none => rfl
        | some as =>
          have dead := inv.apart a (by rw [found]; rfl)
          have alive := inv.descs.held ch a listed
          rw [dead] at alive
          simp at alive
      simp [same, listed, noTable]
    · simp [same, listed]

def PdmaState.withTable (s : PdmaState) (ch : Nat) (tbl : Addr) (as : List Addr) : PdmaState :=
  PdmaState.setChn { s with
    tables := Function.update s.tables tbl (some as)
    descs := fun a => if a ∈ as then some ⟨0, 0, 0, 0⟩ else s.descs a } ch
    { s.chn ch with sgtbl := tbl, wantedSGTblNum := as.length }

theorem withTable_chn_self (s : PdmaState) (ch : Nat) (tbl : Addr) (as : List Addr) :
    (s.withTable ch tbl as).chn ch =
      { s.chn ch with sgtbl := tbl, wantedSGTblNum := as.length } := by
  simp [PdmaState.withTable, PdmaState.setChn]

theorem withTable_chn_of_ne (s : PdmaState) {ch j : Nat} (tbl : Addr) (as : List Addr)
    (h : j ≠ ch) : (s.withTable ch tbl as).chn j = s.chn j := by
  simp [PdmaState.withTable, PdmaState.setChn, h]

theorem withTable_sgInv {s : PdmaState} (inv : SgInv s) {ch : Nat}
    (h : (s.chn ch).wantedSGTblNum = 0) {tbl : Addr} {as : List Addr} (some_entry : as ≠ [])
    (notNull : tbl ≠ 0) (fresh : s.live tbl = false) (nodup : as.Nodup)
    (entries : ∀ a ∈ as, a ≠ 0 ∧ a ≠ tbl ∧ s.live a = false) : SgInv (s.withTable ch tbl as) := by
  have none := inv.null ch h
  have dead {a : Addr} (ha : s.live a = false) : s.tables a = .none ∧ s.descs a = .none := by
    simpa [PdmaState.live] using ha
  have block : tableBlock (s.withTable ch tbl as) = Function.update (tableBlock s) ch [tbl] := by
    funext j
    by_cases same : j = ch
    · subst same
      rw [Function.update_self, tableBlock, withTable_chn_self, if_neg notNull]
    · rw [Function.update_of_ne same, tableBlock, tableBlock, withTable_chn_of_ne _ _ _ same]
  have content : tableEntries (s.withTable ch tbl as) = Function.update (tableEntries s) ch as := by
    funext j
    by_cases same : j = ch
    · subst same
      rw [Function.update_self, tableEntries, withTable_chn_self, if_neg notNull]
      simp [PdmaState.withTable, PdmaState.setChn]
    · rw [Function.update_of_ne same, tableEntries, tableEntries, withTable_chn_of_ne _ _ _ same]
      by_cases null : (s.chn j).sgtbl = 0
      · rw [if_pos null, if_pos null]
      · have other : (s.chn j).sgtbl ≠ tbl := by
          intro eq
          have held := inv.tables.held j (s.chn j).sgtbl (by rw [tableBlock, if_neg null]; simp)
          rw [eq, (dead fresh).1] at held
          simp at held
        simp [PdmaState.withTable, PdmaState.setChn, other]
  have descs (a : Addr) : (s.withTable ch tbl as).descs a =
      if a ∈ as then some ⟨0, 0, 0, 0⟩ else s.descs a := rfl
  have tables (t : Addr) : (s.withTable ch tbl as).tables t =
      Function.update s.tables tbl (some as) t := rfl
  refine ⟨?_, ?_, ?_, ?_, ?_, ?_⟩
  · rw [block]
    have acquired := inv.tables.acquire (i := ch) (by rw [tableBlock, if_pos none])
      (List.nodup_singleton tbl) (fun t ht => by
        rw [List.mem_singleton.mp ht, (dead fresh).1]
        simp)
    apply acquired.congr (fun _ => rfl)
    intro t
    rw [tables, List.mem_singleton]
    by_cases same : t = tbl <;> simp [same]
  · rw [content]
    have acquired := inv.descs.acquire (i := ch) (by rw [tableEntries, if_pos none]) nodup
      (fun a ha => by
        rw [(dead (entries a ha).2.2).2]
        simp)
    apply acquired.congr (fun _ => rfl)
    intro a
    rw [descs]
    by_cases listed : a ∈ as <;> simp [listed]
  · intro j
    rw [content]
    by_cases same : j = ch
    · subst same
      rw [Function.update_self, withTable_chn_self]
    · rw [Function.update_of_ne same, withTable_chn_of_ne _ _ _ same]
      exact inv.counted j
  · intro j
    by_cases same : j = ch
    · subst same
      rw [withTable_chn_self]
      exact fun empty => absurd (List.length_eq_zero_iff.mp empty) some_entry
    · rw [withTable_chn_of_ne _ _ _ same]
      exact inv.null j
  · intro a ha
    rw [tables] at ha
    rw [descs]
    by_cases same : a = tbl
    · have notEntry : a ∉ as := fun listed => (entries a listed).2.1 same
      rw [if_neg notEntry, same, (dead fresh).2]
    · rw [Function.update_of_ne same] at ha
      have notEntry : a ∉ as := by
        intro listed
        rw [(dead (entries a listed).2.2).1] at ha
        simp at ha
      rw [if_neg notEntry]
      exact inv.apart a ha
  · intro a ha
    rw [descs] at ha
    by_cases listed : a ∈ as
    · exact (entries a listed).1
    · exact inv.nonzero a (by simpa [listed] using ha)

/-- The state in which a new table is asked for: the old one, if any, is given back. -/
def PdmaState.emptied (s : PdmaState) (ch : Nat) : PdmaState :=
  if (s.chn ch).wantedSGTblNum = 0 then s else s.released ch

theorem dropStaleTable_eq {s : PdmaState} (inv : SgInv s) (ch : Nat) :
    dropStaleTable s ch = .ok (s.emptied ch) := by
  unfold dropStaleTable PdmaState.emptied
  by_cases empty : (s.chn ch).wantedSGTblNum = 0
  · rw [if_neg (by omega), if_pos empty]
  · rw [if_pos (by omega), if_neg empty, nuPdmaFreeSgtbls_ok inv empty]

theorem emptied_sgInv {s : PdmaState} (inv : SgInv s) (ch : Nat) : SgInv (s.emptied ch) := by
  unfold PdmaState.emptied
  split
  · exact inv
  next some_entry => exact released_sgInv inv some_entry

theorem emptied_wanted (s : PdmaState) (ch : Nat) :
    ((s.emptied ch).chn ch).wantedSGTblNum = 0 := by
  unfold PdmaState.emptied
  split
  next empty => exact empty
  · rw [PdmaState.released, noTable_chn_self]

theorem emptied_live {s : PdmaState} (inv : SgInv s) (ch : Nat) (a : Addr) :
    (s.emptied ch).live a = true ↔
      s.live a = true ∧ a ∉ tableBlock s ch ∧ a ∉ tableEntries s ch := by
  unfold PdmaState.emptied
  split
  next empty =>
    have null := inv.null ch empty
    simp [tableBlock, tableEntries, null]
  next some_entry => exact released_live inv some_entry a

/-- The heap grants the request for a pointer table on channel `ch`: it offers a block that is not
in use, or one the channel itself gives back first. -/
def TableGranted (s : PdmaState) (ch : Nat) (allocs : List (Option Addr)) : Prop :=
  ∃ a rest, allocs = some a :: rest ∧ a ≠ 0 ∧
    (s.live a = true → a ∈ tableBlock s ch ∨ a ∈ tableEntries s ch)

theorem rtMallocAlign_emptied {s t : PdmaState} (inv : SgInv s) {ch : Nat}
    {allocs : List (Option Addr)} (same : ∀ a, t.live a = (s.emptied ch).live a) :
    (∃ a rest, rtMallocAlign t allocs = (some a, rest)) ↔ TableGranted s ch allocs := by
  have free (a : Addr) : (s.live a = true → a ∈ tableBlock s ch ∨ a ∈ tableEntries s ch) ↔
      t.live a = false := by
    rw [same, ← Bool.not_eq_true, emptied_live inv]
    tauto
  constructor
  · rintro ⟨a, rest, h⟩
    obtain ⟨offer, notNull, fresh⟩ := rtMallocAlign_some_iff.mp h
    exact ⟨a, rest, offer, notNull, (free a).mpr fresh⟩
  · rintro ⟨a, rest, offer, notNull, own⟩
    exact ⟨a, rest, rtMallocAlign_some_iff.mpr ⟨offer, notNull, (free a).mp own⟩⟩

theorem live_of_tables {s t : PdmaState} (tables : t.tables = s.tables) (descs : t.descs = s.descs)
    (a : Addr) : t.live a = s.live a := by
  unfold PdmaState.live
  rw [tables, descs]

/-- A new table that can be had leaves the channel with as many descriptors as it counts; running
out of descriptors stops the system. -/
theorem chainTable_granted {s : PdmaState} (inv : SgInv s) {ch : Nat} {transferCnt : U32}
    {allocs : List (Option Addr)} (stale : (s.chn ch).wantedSGTblNum ≠ wantedFor transferCnt)
    (granted : TableGranted s ch allocs) :
    chainTable s ch transferCnt allocs = .error .assertion ∨
      ∃ s', chainTable s ch transferCnt allocs = .ok (s', true) ∧ SgInv s' := by
  have base := emptied_sgInv inv ch
  obtain ⟨tbl, rest, offer⟩ := (rtMallocAlign_emptied (t := (s.emptied ch).setChn ch
    { (s.emptied ch).chn ch with wantedSGTblNum := wantedFor transferCnt }) inv
    (live_of_tables rfl rfl)).mpr granted
  obtain ⟨-, notNull, fresh⟩ := rtMallocAlign_some_iff.mp offer
  unfold chainTable
  simp only [if_neg stale, dropStaleTable_eq inv, bind, Except.bind, offer,
    nuPdmaSgtblsAllocate, notNull, false_or,
    if_neg (show ¬wantedFor transferCnt = 0 from Nat.succ_ne_zero _)]
  cases fill : sgtblsFill _ tbl (wantedFor transferCnt) rest with
  | error e =>
    cases sgtblsFill_fault fill
    exact .inl rfl
  | ok s' =>
    refine .inr ⟨s', rfl, ?_⟩
    obtain ⟨as, len, nodup, entries, same⟩ := sgtblsFill_ok []
      (by simp [PdmaState.setChn]) fill
    have some_entry : as ≠ [] := by
      intro none
      rw [none] at len
      exact Nat.succ_ne_zero _ len.symm
    have freshTbl : (s.emptied ch).live tbl = false := by
      rw [← fresh]
      exact live_of_tables rfl rfl tbl
    have freshEntries : ∀ a ∈ as, a ≠ 0 ∧ a ≠ tbl ∧ (s.emptied ch).live a = false := by
      intro a ha
      obtain ⟨nonzero, dead⟩ := entries a ha
      by_cases isTable : a = tbl
      · simp [PdmaState.live, PdmaState.setChn, isTable] at dead
      · refine ⟨nonzero, isTable, ?_⟩
        simpa [PdmaState.live, PdmaState.setChn, isTable] using dead
    have formed := withTable_sgInv base (emptied_wanted s ch) some_entry notNull freshTbl nodup
      freshEntries
    refine SameTables.sgInv (s := (s.emptied ch).withTable ch tbl as) ?_ formed
    subst same
    refine ⟨?_, fun _ => rfl, ?_, ?_⟩
    · simp [PdmaState.withTable, PdmaState.setChn]
    · intro j
      by_cases own : j = ch
      · subst own
        simp [PdmaState.withTable, PdmaState.setChn]
      · simp [PdmaState.withTable, PdmaState.setChn, own]
    · intro j
      by_cases own : j = ch
      · subst own
        simp [PdmaState.withTable, PdmaState.setChn, len]
      · simp [PdmaState.withTable, PdmaState.setChn, own]

theorem chainTable_refused {s : PdmaState} (inv : SgInv s) {ch : Nat} {transferCnt : U32}
    {allocs : List (Option Addr)} (stale : (s.chn ch).wantedSGTblNum ≠ wantedFor transferCnt)
    (refused : ¬TableGranted s ch allocs) :
    ∃ s', chainTable s ch transferCnt allocs = .ok (s', false) ∧
      (s'.chn ch).wantedSGTblNum = wantedFor transferCnt ∧ (s'.chn ch).sgtbl = 0 := by
  unfold chainTable
  simp only [if_neg stale, dropStaleTable_eq inv, bind, Except.bind]
  cases offer : rtMallocAlign ((s.emptied ch).setChn ch
    { (s.emptied ch).chn ch with wantedSGTblNum := wantedFor transferCnt }) allocs with
  | mk answer rest =>
    cases answer with
    | some tbl =>
      exact absurd ((rtMallocAlign_emptied inv (live_of_tables rfl rfl)).mp ⟨tbl, rest, offer⟩)
        refused
    | none =>
      refine ⟨_, rfl, ?_, ?_⟩ <;> simp [PdmaState.setChn]

theorem writeLive_sameTables {s : PdmaState} {a : Addr} (live : (s.descs a).isSome) (d : Dsct) :
    SameTables s { s with descs := Function.update s.descs a (some d) } := by
  refine ⟨rfl, ?_, fun _ => rfl, fun _ => rfl⟩
  intro b
  by_cases same : b = a
  · subst same
    simp [live]
  · simp [same]

theorem chainSetup_safe {ch : Nat} (dataWidth addrSrc addrDst : U32) (memCtl : MemCtrl)
    {as : List Addr} (left : Nat) : ∀ (i : Nat) {s : PdmaState} (transferCnt offset : U32),
    s.allocated ch → s.tables (s.chn ch).sgtbl = some as → as.length = (s.chn ch).wantedSGTblNum →
    i + left = as.length → (∀ a ∈ as, (s.descs a).isSome) →
    ∃ s' ret, chainSetup ch dataWidth addrSrc addrDst memCtl left i s transferCnt offset =
      .ok (s', ret) ∧ SameTables s s' := by
  induction left with
  | zero =>
    intro i s transferCnt offset _ _ _ _ _
    exact ⟨s, rtEok, rfl, .refl s⟩
  | succ left ih =>
    intro i s transferCnt offset alloc table len bound live
    have here : i < as.length := by omega
    have entry : s.sgtblEntry (s.chn ch).sgtbl i = .ok as[i] :=
      sgtblEntry_ok_iff.mpr ⟨as, table, by simp [here]⟩
    obtain ⟨next, link⟩ : ∃ next,
        s.sgtblLink (s.chn ch).sgtbl i (s.chn ch).wantedSGTblNum = .ok next := by
      unfold PdmaState.sgtblLink
      by_cases last : i + 1 = (s.chn ch).wantedSGTblNum
      · exact ⟨0, if_pos last⟩
      · have after : i + 1 < as.length := by omega
        refine ⟨as[i + 1], ?_⟩
        rw [if_neg last]
        exact sgtblEntry_ok_iff.mpr ⟨as, table, by simp [after]⟩
    unfold chainSetup
    simp only [entry, link, bind, Except.bind, nuPdmaDescSetup_eq alloc]
    by_cases accepts : descAccepts (.mem as[i]) dataWidth
      (if memCtl.srcInc then addrSrc + offset else addrSrc)
      (if memCtl.dstInc then addrDst + offset else addrDst) (chunkCnt transferCnt)
    · have alive := live as[i] (List.getElem_mem here)
      have same := writeLive_sameTables alive (descOf (s.chn ch).memCtl
        ((s.chn ch).peripheral = pdmaMem) dataWidth
        (if memCtl.srcInc then addrSrc + offset else addrSrc)
        (if memCtl.dstInc then addrDst + offset else addrDst) (chunkCnt transferCnt) next
        (i + 1 ≠ (s.chn ch).wantedSGTblNum))
      rw [if_pos accepts, writeDesc_mem_ok_iff.mpr ⟨alive, rfl⟩]
      obtain ⟨s', ret, run, after⟩ := ih (i + 1)
        (s := { s with descs := Function.update s.descs as[i] (some _) })
        (transferCnt - chunkCnt transferCnt) (offset + chunkCnt transferCnt * dataWidth / 8) alloc table len (by omega) (fun a ha => (same.live a).trans (live a ha))
      exact ⟨s', ret, run, same.trans after⟩
    · rw [if_neg accepts]
      exact ⟨s, -rtEinval, rfl, .refl s⟩

theorem nuPdmaTransferHead_safe {s : PdmaState} {ch : Nat} (alloc : s.allocated ch)
    (peripheral idleTimeoutUs : U32) (head : DescRef) {d : Dsct} (read : s.readDesc head = .ok d) :
    ∃ s', nuPdmaTransferHead s ch peripheral head idleTimeoutUs = .ok s' ∧ SameTables s s' := by
  have alloc' : (pdmaSetTransferMode s ch peripheral (d.next ≠ 0) head.addr).allocated ch := alloc
  unfold nuPdmaTransferHead
  rw [read]
  refine ⟨_, nuPdmaTimeoutSet_of_allocated alloc' idleTimeoutUs, ?_⟩
  exact SameTables.trans (t := pdmaSetTransferMode s ch peripheral (d.next ≠ 0) head.addr)
    ⟨rfl, fun _ => rfl, fun _ => rfl, fun _ => rfl⟩ (setChn_sameTables _ ch rfl rfl)

theorem nuPdmaTransferChain_of_table {s t : PdmaState} {ch : Nat} (alloc : s.allocated ch)
    (dataWidth addrSrc addrDst idleTimeoutUs : U32) {transferCnt : U32} {allocs : List (Option Addr)}
    (table : chainTable s ch transferCnt allocs = .ok (t, true)) (inv : SgInv t) :
    ∃ s' ret, nuPdmaTransferChain s ch dataWidth addrSrc addrDst transferCnt idleTimeoutUs allocs =
      .ok (s', ret) ∧ SgInv s' := by
  obtain ⟨keep, wanted⟩ := chainTable_ok table
  have alloc' : t.allocated ch := keep.allocated.mpr alloc
  have some_entry : (t.chn ch).wantedSGTblNum ≠ 0 := by
    rw [wanted]
    exact Nat.succ_ne_zero _
  obtain ⟨-, entries⟩ := inv.table some_entry
  obtain ⟨u, ret, run, same⟩ := chainSetup_safe dataWidth addrSrc addrDst (s.chn ch).memCtl
    (t.chn ch).wantedSGTblNum 0 transferCnt 0 alloc' entries (inv.counted ch)
    (by rw [Nat.zero_add, inv.counted ch]) (inv.descs.held ch)
  have inv' := same.sgInv inv
  unfold nuPdmaTransferChain nuPdmaChannelMemctrlGet
  simp only [check_of_allocated alloc, table, bind, Except.bind, pure, Except.pure,
    Bool.false_eq_true, if_false, Bool.not_true, run]
  by_cases good : ret = rtEok
  · rw [if_neg (fun bad => bad good)]
    obtain ⟨f, frame⟩ := chainSetup_frame run
    have alloc'' : u.allocated ch := by
      rw [frame]
      exact alloc'
    have count := inv'.counted ch
    rw [same.wanted] at count
    have some_entry' : (u.chn ch).wantedSGTblNum ≠ 0 := by
      rw [same.wanted]
      exact some_entry
    obtain ⟨-, table'⟩ := inv'.table some_entry'
    have bound : 0 < (tableEntries u ch).length := by omega
    have entry : u.sgtblEntry (u.chn ch).sgtbl 0 = .ok (tableEntries u ch)[0] :=
      sgtblEntry_ok_iff.mpr ⟨_, table', by simp [bound]⟩
    obtain ⟨d, live⟩ := Option.isSome_iff_exists.mp
      (inv'.descs.held ch _ (List.getElem_mem bound))
    have read : u.readDesc (.mem (tableEntries u ch)[0]) = .ok d := by
      simp [PdmaState.readDesc, live]
    obtain ⟨s', start, same'⟩ := nuPdmaTransferHead_safe alloc'' (u.chn ch).peripheral
      idleTimeoutUs _ read
    rw [entry]
    simp only [start]
    exact ⟨s', rtEok, rfl, same'.sgInv inv'⟩
  · rw [if_pos good]
    have some_entry' : (u.chn ch).wantedSGTblNum ≠ 0 := by
      rw [same.wanted]
      exact some_entry
    rw [nuPdmaFreeSgtbls_ok inv' some_entry']
    exact ⟨_, _, rfl, released_sgInv inv' some_entry'⟩

end NuMakerMA35
