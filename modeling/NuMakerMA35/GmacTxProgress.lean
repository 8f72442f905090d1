import Mathlib.Data.Finset.Range
import NuMakerMA35.GmacTxRing

namespace NuMakerMA35

namespace GmacTx

open NuMakerMA35.Ring

def finishAll (s : GmacTx) (status : Nat → U32) : GmacTx :=
  ((List.range transmitDescSize).map fun i => TxDone.mk i (status i)).foldl transmitDone s

def TxValid (p : List (List Byte)) : Prop :=
  0 < p.flatten.length ∧ p.flatten.length ≤ pktFrameBufSize

/-- No copy left the frame buffers, and once the DMA is through, the next frame is accepted. -/
def TransmitsOn (s : GmacTx) : Prop :=
  (∀ w ∈ s.writes, w.index * pktFrameBufSize + w.len ≤ transmitDescSize * pktFrameBufSize) ∧
    ∀ status p o, TxValid p → ((s.finishAll status).nuGmacTx p o).1 = rtEok

/-- The `j`-th descriptor from the driver's on holds a frame that the DMA has finished by the
`j`-th look. -/
def FinishedAt (s : GmacTx) (looks : Nat → List TxDone) (k j : Nat) : Prop :=
  ¬synopGMACIsDescEmpty (s.descs ((s.txBusyDesc + j) % transmitDescSize)) ∧
    (synopGMACIsDescOwnedByDma (s.descs ((s.txBusyDesc + j) % transmitDescSize)) →
      ∃ l, l ≤ j ∧ (s.txBusyDesc + j) % transmitDescSize ∈ (looks (k + l)).map (·.index))

section Over

variable (looks : Nat → List TxDone)

theorem transmitOver_keeps_empty (n : Nat) {s : GmacTx} (k : Nat) (r : s.TxRing) {i : Nat}
    (h : synopGMACIsDescEmpty (s.descs i)) :
    synopGMACIsDescEmpty ((transmitOver looks n k s).descs i) := by
  refine (transmitOver_invariant (fun t => synopGMACIsDescEmpty (t.descs i)) ?_ ?_ n k r h).2
  · intro t d _ empty
    exact (transmitDone_empty t d i).mpr empty
  · intro t _ empty _
    by_cases here : i = t.txBusyDesc
    · subst here
      unfold reclaimed
      dsimp only
      rw [Function.update_self]
      exact txInit_empty _
    · unfold reclaimed
      dsimp only
      rw [Function.update_of_ne here]
      exact empty

theorem transmitOver_empties {n : Nat} : ∀ {s : GmacTx} {k d : Nat}, s.TxRing → d < n →
    d < transmitDescSize →
      (synopGMACIsDescEmpty ((transmitOver looks n k s).descs
          ((s.txBusyDesc + d) % transmitDescSize)) ↔
        synopGMACIsDescEmpty (s.descs ((s.txBusyDesc + d) % transmitDescSize)) ∨
          ∀ j, j ≤ d → s.FinishedAt looks k j) := by
  induction n with
  | zero =>
    intro s k d _ hd
    omega
  | succ n ih =>
    intro s k d r hd small
    have kept := transmitDones_keep s (looks k)
    have ring := r.dones (looks k)
    have owns := transmitDones_own s (looks k) r.busy
    have first : (s.txBusyDesc + 0) % transmitDescSize = s.txBusyDesc := Nat.mod_eq_of_lt r.busy
    rw [transmitOver_step r n k]
    split_ifs with waits
    · rw [kept.empty, or_iff_left]
      intro all
      obtain ⟨full, finished⟩ := all 0 (Nat.zero_le d)
      rw [first] at full finished
      rw [kept.busy, owns, kept.empty] at waits
      rcases waits with ⟨owned, unfinished⟩ | empty
      · obtain ⟨l, hl, mem⟩ := finished owned
        rw [Nat.le_zero.mp hl] at mem
        exact unfinished mem
      · exact full empty
    · rw [kept.busy, owns, kept.empty, not_or, not_and, not_not] at waits
      obtain ⟨finished, full⟩ := waits
      have here : s.FinishedAt looks k 0 := by
        unfold FinishedAt
        rw [first]
        exact ⟨full, fun owned => ⟨0, le_rfl, finished owned⟩⟩
      have taken : ((looks k).foldl transmitDone s).reclaimed.txBusyDesc =
          (s.txBusyDesc + 1) % transmitDescSize := by
        rw [reclaimed, kept.busy]
      cases d with
      | zero =>
        refine iff_of_true ?_ (.inr fun j hj => Nat.le_zero.mp hj ▸ here)
        apply transmitOver_keeps_empty looks n (k + 1) ring.reclaimed
        rw [first, reclaimed, kept.busy]
        dsimp only
        rw [Function.update_self]
        exact txInit_empty _
      | succ d =>
        have place (j : Nat) : ((s.txBusyDesc + 1) % transmitDescSize + j) % transmitDescSize =
            (s.txBusyDesc + (j + 1)) % transmitDescSize := by
          rw [Nat.mod_add_mod]
          congr 1
          omega
        have other {j : Nat} (hj : j ≤ d) :
            (s.txBusyDesc + (j + 1)) % transmitDescSize ≠ s.txBusyDesc := by
          nth_rewrite 2 [← first]
          exact (mod_ne_of_lt (by omega) (by omega)).symm
        have same {j : Nat} (hj : j ≤ d) : ((looks k).foldl transmitDone s).reclaimed.descs
            ((s.txBusyDesc + (j + 1)) % transmitDescSize) =
              ((looks k).foldl transmitDone s).descs
                ((s.txBusyDesc + (j + 1)) % transmitDescSize) := by
          rw [reclaimed, kept.busy]
          exact Function.update_of_ne (other hj) ..
        have next := ih (k := k + 1) ring.reclaimed (show d < n by omega) (by omega)
        rw [taken, place d, same le_rfl, kept.empty] at next
        rw [next]
        refine or_congr_right ?_
        have shift {j : Nat} (hj : j ≤ d) :
            ((looks k).foldl transmitDone s).reclaimed.FinishedAt looks (k + 1) j ↔
              s.FinishedAt looks k (j + 1) := by
          unfold FinishedAt
          rw [taken, place j, same hj, kept.empty, transmitDones_own s (looks k) (round_lt _)]
          refine and_congr_right fun _ => ?_
          constructor
          · intro later owned
            by_cases now : (s.txBusyDesc + (j + 1)) % transmitDescSize ∈ (looks k).map (·.index)
            · exact ⟨0, Nat.zero_le _, now⟩
            · obtain ⟨l, hl, mem⟩ := later ⟨owned, now⟩
              refine ⟨l + 1, by omega, ?_⟩
              rwa [show k + (l + 1) = k + 1 + l by omega]
          · rintro all ⟨owned, notNow⟩
            obtain ⟨l, hl, mem⟩ := all owned
            cases l with
            | zero => exact absurd mem notNow
            | succ l =>
              refine ⟨l, by omega, ?_⟩
              rwa [show k + 1 + l = k + (l + 1) by omega]
        constructor
        · intro all j hj
          cases j with
          | zero => exact here
          | succ j => exact (shift (by omega)).mp (all j (by omega))
        · intro all j hj
          exact (shift hj).mpr (all (j + 1) (by omega))

end Over

theorem transmitsOn_iff {s : GmacTx} (r : s.TxRing) : s.TransmitsOn ↔
    (∀ w ∈ s.writes, w.index * pktFrameBufSize + w.len ≤ transmitDescSize * pktFrameBufSize) ∧
      synopGMACIsDescEmpty (s.descs s.txNextDesc) := by
  refine and_congr_right fun _ => ?_
  have kept (status : Nat → U32) : s.DoneKeeps (s.finishAll status) := transmitDones_keep s _
  constructor
  · intro succeeds
    by_contra full
    have still : ¬synopGMACIsDescEmpty ((s.finishAll fun _ => 0).descs
        (s.finishAll fun _ => 0).txNextDesc) := by
      rwa [(kept _).empty, (kept _).next]
    obtain ⟨ds, refused⟩ := nuGmacTx_refuses [[0]] ⟨fun _ => [], fun _ => []⟩ still
    have ok := succeeds (fun _ => 0) [[0]] ⟨fun _ => [], fun _ => []⟩ ⟨by decide, by decide⟩
    rw [refused] at ok
    exact absurd ok (show -rtError ≠ rtEok by decide)
  · intro empty status p o _
    have ring : (s.finishAll status).TxRing := r.dones _
    rw [nuGmacTx_accepts p o ring (by rwa [(kept status).empty, (kept status).next])]

/-- How far the descriptor after the driver's next one lies behind the one to be taken back. -/
def txDistance (s : GmacTx) : Nat :=
  (s.txNextDesc + 1 + transmitDescSize - s.txBusyDesc) % transmitDescSize

/-- As `FinishedAt` in a call that fills the driver's next descriptor first. -/
def FinishedInCall (s : GmacTx) (p : List (List Byte)) (looks : Nat → List TxDone) (j : Nat) : Prop :=
  if (s.txBusyDesc + j) % transmitDescSize = s.txNextDesc then
    p.flatten.length % 8192 ≠ 0 ∧ ∃ l, l ≤ j ∧ s.txNextDesc ∈ (looks l).map (·.index)
  else s.FinishedAt looks 0 j

/-- The copy stays in the frame buffers, and the descriptor after the one filled is empty or is
reached by the reclaim: all from the one to be taken back up to it are finished in time. -/
def KeepsFree (s : GmacTx) (p : List (List Byte)) (looks : Nat → List TxDone) : Prop :=
  s.txNext * pktFrameBufSize + p.flatten.length ≤ transmitDescSize * pktFrameBufSize ∧
    (synopGMACIsDescEmpty (s.descs ((s.txNextDesc + 1) % transmitDescSize)) ∨
      ∀ j, j ≤ s.txDistance → s.FinishedInCall p looks j)

def StepKeepsFree (s : GmacTx) : TxEvent → Prop
  | .tx p o => s.KeepsFree p o.looks
  | .done _ => True
  | .interrupt _ => True

section Call

variable {s : GmacTx} {p : List (List Byte)}

theorem pktLen_zero_iff : pktLen p &&& descSize1Mask = 0 ↔ p.flatten.length % 8192 = 0 := by
  rw [← pktLen_size]
  constructor
  · intro zero
    rw [zero]
    rfl
  · intro zero
    exact BitVec.eq_of_toNat_eq zero

theorem loaded_finishedAt (empty : synopGMACIsDescEmpty (s.descs s.txNextDesc))
    {looks : Nat → List TxDone} {j : Nat} :
    (s.loaded p).FinishedAt looks 0 j ↔ s.FinishedInCall p looks j := by
  unfold FinishedAt FinishedInCall
  change (¬synopGMACIsDescEmpty (Function.update s.descs s.txNextDesc (queuedDesc
    (s.descs s.txNextDesc) (s.frames.ptr s.txNext) (pktLen p))
      ((s.txBusyDesc + j) % transmitDescSize)) ∧ (synopGMACIsDescOwnedByDma (Function.update s.descs
        s.txNextDesc (queuedDesc (s.descs s.txNextDesc) (s.frames.ptr s.txNext) (pktLen p))
          ((s.txBusyDesc + j) % transmitDescSize)) → _)) ↔ _
  split_ifs with here
  · have busy : (s.loaded p).txBusyDesc = s.txBusyDesc := rfl
    rw [here, Function.update_self, queuedDesc_empty _ _ _ empty, pktLen_zero_iff, busy, here]
    simp only [queuedDesc_owned, true_implies, Nat.zero_add]
  · rw [Function.update_of_ne here]
    exact Iff.rfl

theorem nuGmacTx_keepsFree (r : s.TxRing) (empty : synopGMACIsDescEmpty (s.descs s.txNextDesc))
    (o : TxProgress) :
    synopGMACIsDescEmpty ((s.nuGmacTx p o).2.descs (s.nuGmacTx p o).2.txNextDesc) ↔
      synopGMACIsDescEmpty (s.descs ((s.txNextDesc + 1) % transmitDescSize)) ∨
        ∀ j, j ≤ s.txDistance → s.FinishedInCall p o.looks j := by
  have ring := r.loaded p
  have busy := r.busy
  have next := r.next
  have place : ((s.loaded p).txBusyDesc + s.txDistance) % transmitDescSize =
      (s.txNextDesc + 1) % transmitDescSize := by
    change (s.txBusyDesc + s.txDistance) % transmitDescSize = _
    unfold txDistance transmitDescSize at *
    omega
  have other : (s.txNextDesc + 1) % transmitDescSize ≠ s.txNextDesc := by
    unfold transmitDescSize at *
    omega
  have before : (s.loaded p).descs ((s.txNextDesc + 1) % transmitDescSize) =
      s.descs ((s.txNextDesc + 1) % transmitDescSize) := Function.update_of_ne other ..
  have small : s.txDistance < transmitDescSize := round_lt _
  have empties := transmitOver_empties o.looks (n := transmitDescSize + 1) (k := 0) ring
    (by omega : s.txDistance < transmitDescSize + 1) small
  rw [place, before] at empties
  rw [nuGmacTx_accepts p o r empty]
  dsimp only
  rw [(over_keeps ring).1]
  refine empties.trans (or_congr_right (forall₂_congr fun j _ => loaded_finishedAt empty))

end Call

theorem isr_empty {s : GmacTx} (dmaStatus : U32) {i : Nat} (empty : synopGMACIsDescEmpty (s.descs i)) :
    synopGMACIsDescEmpty ((s.nuGmacIsr dmaStatus).descs i) := by
  unfold nuGmacIsr
  dsimp only
  split_ifs
  · exact txInit_empty (i = transmitDescSize - 1)
  · exact empty
  · exact txInit_empty (i = transmitDescSize - 1)
  · exact empty

/-- Transmission can always go on, throughout a run, exactly where no call leaves the ring
without a free descriptor. -/
theorem transmits_on_iff (frames : FrameArea) (mem : Words.Mem) (events : List TxEvent) :
    (∀ pre, pre <+: events →
      (pre.foldl step (synopGMACSetupTxDescQueue frames mem)).TransmitsOn) ↔
      Runs.StepsMeet step StepKeepsFree (synopGMACSetupTxDescQueue frames mem) events := by
  have start : (synopGMACSetupTxDescQueue frames mem).TransmitsOn :=
    (transmitsOn_iff (setup_ring frames mem)).mpr ⟨by simp [synopGMACSetupTxDescQueue], txInit_empty _⟩
  have each {s : GmacTx} (r : s.TxRing) (on : s.TransmitsOn) (e : TxEvent) :
      (s.step e).TransmitsOn ↔ s.StepKeepsFree e := by
    rw [transmitsOn_iff (step_ring r e)]
    obtain ⟨inside, empty⟩ := (transmitsOn_iff r).mp on
    cases e with
    | tx p o =>
      change (∀ w ∈ (s.nuGmacTx p o).2.writes, _) ∧
        synopGMACIsDescEmpty ((s.nuGmacTx p o).2.descs (s.nuGmacTx p o).2.txNextDesc) ↔ _
      rw [nuGmacTx_keepsFree r empty, nuGmacTx_writes p o r]
      refine and_congr_left fun _ => ?_
      constructor
      · intro all
        exact all ⟨s.txNext, p.flatten.length, s.BufferFree s.txNext⟩ (by simp)
      · intro fits w hw
        rcases List.mem_append.mp hw with old | new
        · exact inside w old
        · rw [List.mem_singleton.mp new]
          exact fits
    | done d =>
      obtain ⟨-, -, next, -, -, -, writes⟩ := transmitDone_keeps s d
      refine iff_of_true ⟨?_, ?_⟩ trivial
      · exact fun w hw => inside w (writes ▸ hw)
      · exact (transmitDone_empty s d _).mpr (next ▸ empty)
    | interrupt dmaStatus =>
      obtain ⟨next, writes⟩ := isr_keeps s dmaStatus
      refine iff_of_true ⟨?_, ?_⟩ trivial
      · exact fun w hw => inside w (writes ▸ hw)
      · exact isr_empty dmaStatus (next ▸ empty)
  exact Runs.prefixes_hold_iff (fun s => s.TxRing ∧ s.TransmitsOn) TransmitsOn (fun _ h => h.2)
    (fun _ e h => each h.1 h.2 e) (fun _ e h good => ⟨step_ring h.1 e, (each h.1 h.2 e).mpr good⟩)
    ⟨setup_ring frames mem, start⟩ events

def blankRing : GmacTx := synopGMACSetupTxDescQueue ⟨0x80000000, FrameArea.upperSpace_fits⟩ fun _ => 0

def idleTx : TxEvent := .tx [List.replicate 60 0] ⟨fun _ => [], fun _ => []⟩

/-- As many frames as there are descriptors, none of them finished, and none is ever taken back. -/
theorem fullRing_blocks : ¬((List.replicate 32 idleTx).foldl step blankRing).TransmitsOn := by
  have ring (n : Nat) : ((List.replicate n idleTx).foldl step blankRing).TxRing := by
    induction n with
    | zero => exact setup_ring _ _
    | succ n ih =>
      rw [List.replicate_succ', List.foldl_append]
      exact step_ring ih idleTx
  rw [transmitsOn_iff (ring 32)]
  rintro ⟨-, empty⟩
  revert empty
  decide +kernel

end GmacTx

end NuMakerMA35
