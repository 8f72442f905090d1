import NuMakerMA35.RingBuffer

namespace NuMakerMA35

structure RtDataItem where
  dataPtr : U32
  dataSize : U32
  deriving DecidableEq

/-- `struct rt_data_queue`; a thread that is suspended in a push is listed with what it has to push. -/
structure RtDataQueue where
  size : Nat
  lwm : Nat
  getIndex : Nat
  isEmpty : Bool
  putIndex : Nat
  isFull : Bool
  queue : Nat → RtDataItem
  suspendedPushList : List (Nat × RtDataItem)
  suspendedPopList : List Nat

def rtDataQueueInit (queue : Nat → RtDataItem) (size lwm : Nat) : RtDataQueue :=
  ⟨size, lwm, 0, true, 0, false, queue, [], []⟩

namespace RtDataQueue

variable (q : RtDataQueue)

def next (index : Nat) : Nat := if toIndex (index + 1) = q.size then 0 else toIndex (index + 1)

def len : Nat :=
  if q.isEmpty then 0
  else toLength (if q.putIndex > q.getIndex then q.putIndex - q.getIndex
    else q.size + q.putIndex - q.getIndex)

def peek : Option RtDataItem := if q.isEmpty then none else some (q.queue q.getIndex)

def put (item : RtDataItem) : RtDataQueue :=
  { q with
    queue := Function.update q.queue q.putIndex item
    putIndex := q.next q.putIndex
    isEmpty := false
    isFull := if q.next q.putIndex = q.getIndex then true else q.isFull }

def take : RtDataQueue :=
  { q with
    getIndex := q.next q.getIndex
    isFull := false
    isEmpty := if q.putIndex = q.next q.getIndex then true else q.isEmpty }

structure Holds (held : List RtDataItem) : Prop where
  small : q.size ≤ 2 ^ 15
  getIndex : q.getIndex < q.size
  putIndex : q.putIndex = (q.getIndex + held.length) % q.size
  few : held.length ≤ q.size
  items : Ring.view q.size q.queue q.getIndex held.length = held
  empty : q.isEmpty = true ↔ held = []
  full : q.isFull = true ↔ held.length = q.size

end RtDataQueue

/-- The queue; the threads that were resumed in a push or a pop and have not run since; what the pushes
and pops that succeeded since the last reset brought and took. -/
structure DataQueueRun where
  queue : RtDataQueue
  pushers : List (Nat × RtDataItem)
  poppers : List Nat
  pushed : List RtDataItem
  popped : List RtDataItem

/-- A call by a thread, which waits if its time-out is not 0; a resumed thread runs; the time-out of a
suspended one is over; a reset. -/
inductive DataQueueEvent where
  | push (thread : Nat) (item : RtDataItem) (waits : Bool)
  | pop (thread : Nat) (waits : Bool)
  | pushOn (thread : Nat)
  | popOn (thread : Nat)
  | expire (thread : Nat)
  | reset

namespace DataQueueRun

/-- `rt_data_queue_push` from the test of `is_full` up to where it returns or is suspended. -/
def push (s : DataQueueRun) (thread : Nat) (item : RtDataItem) (waits : Bool) : DataQueueRun :=
  if s.queue.isFull then
    if waits then
      { s with queue.suspendedPushList := s.queue.suspendedPushList ++ [(thread, item)] }
    else s
  else
    { s with
      queue := { s.queue.put item with suspendedPopList := s.queue.suspendedPopList.tail }
      poppers := s.poppers ++ s.queue.suspendedPopList.take 1
      pushed := s.pushed ++ [item] }

/-- Below the low water mark, and at it, a pop lets a suspended push go on. -/
def woken (q : RtDataQueue) : Nat := if q.len ≤ q.lwm then 1 else 0

def pop (s : DataQueueRun) (thread : Nat) (waits : Bool) : DataQueueRun :=
  if s.queue.isEmpty then
    if waits then { s with queue.suspendedPopList := s.queue.suspendedPopList ++ [thread] } else s
  else
    { s with
      queue := { s.queue.take with
        suspendedPushList := s.queue.suspendedPushList.drop (woken s.queue.take) }
      pushers := s.pushers ++ s.queue.suspendedPushList.take (woken s.queue.take)
      popped := s.popped ++ [s.queue.queue s.queue.getIndex] }

def step (s : DataQueueRun) : DataQueueEvent → DataQueueRun
  | .push thread item waits => s.push thread item waits
  | .pop thread waits => s.pop thread waits
  | .pushOn thread =>
    match s.pushers.find? fun p => p.1 = thread with
    | some p => push { s with pushers := s.pushers.erase p } p.1 p.2 true
    | none => s
  | .popOn thread =>
    if thread ∈ s.poppers then pop { s with poppers := s.poppers.erase thread } thread true else s
  | .expire thread =>
    { s with queue := { s.queue with
        suspendedPushList := s.queue.suspendedPushList.eraseP fun p => p.1 = thread
        suspendedPopList := s.queue.suspendedPopList.erase thread } }
  | .reset =>
    { s with
      queue := rtDataQueueInit s.queue.queue s.queue.size s.queue.lwm
      pushed := []
      popped := [] }

/-- Items wait for a suspended pop only where enough others were resumed for them, and room for a
suspended push in an empty queue only where another was resumed. -/
structure Inv (size : Nat) (s : DataQueueRun) (held : List RtDataItem) : Prop where
  size : s.queue.size = size
  holds : s.queue.Holds held
  order : s.pushed = s.popped ++ held
  poppers : s.queue.suspendedPopList ≠ [] → held.length ≤ s.poppers.length
  pushers : held = [] → s.queue.suspendedPushList ≠ [] → s.pushers ≠ []

end DataQueueRun

namespace RtDataQueue

variable {q : RtDataQueue} {held : List RtDataItem}

theorem next_eq {index : Nat} (small : q.size ≤ 2 ^ 15) (below : index < q.size) :
    q.next index = (index + 1) % q.size := by
  unfold next toIndex
  rcases Nat.lt_or_eq_of_le (Nat.succ_le_of_lt below) with before | last
  · rw [Nat.mod_eq_of_lt (before.trans_le small), if_neg (Nat.ne_of_lt before), Nat.mod_eq_of_lt before]
  · rw [show index + 1 = q.size from last, Nat.mod_self]
    rcases Nat.lt_or_eq_of_le small with less | most
    · rw [Nat.mod_eq_of_lt less, if_pos rfl]
    · rw [most, Nat.mod_self, if_neg (by decide)]

theorem init_holds (queue : Nat → RtDataItem) {size : Nat} (some : 0 < size) (small : size ≤ 2 ^ 15) (lwm : Nat) :
    (rtDataQueueInit queue size lwm).Holds [] :=
  ⟨small, some, (Nat.zero_mod size).symm, Nat.zero_le _, rfl, iff_of_true rfl rfl,
    iff_of_false Bool.false_ne_true (Nat.ne_of_lt some)⟩

theorem Holds.lists (holds : q.Holds held) (pushList : List (Nat × RtDataItem)) (popList : List Nat) :
    { q with suspendedPushList := pushList, suspendedPopList := popList }.Holds held :=
  ⟨holds.1, holds.2, holds.3, holds.4, holds.5, holds.6, holds.7⟩

theorem Holds.len (holds : q.Holds held) : q.len = held.length := by
  obtain ⟨small, below, put, few, -, empty, -⟩ := holds
  unfold RtDataQueue.len
  by_cases none : held = []
  · rw [if_pos (empty.mpr none), none, List.length_nil]
  · have some := List.length_pos_of_ne_nil none
    rw [if_neg (mt empty.mp none), toLength, Nat.mod_eq_of_lt]
    all_goals
      rw [put]
      rcases Nat.lt_or_ge (q.getIndex + held.length) q.size with straight | round
      · rw [Nat.mod_eq_of_lt straight]
        split_ifs <;> omega
      · rw [Nat.mod_eq_sub_mod round, Nat.mod_eq_of_lt (by omega)]
        split_ifs <;> omega

theorem round_iff {size index k : Nat} (below : index < size) (some : 0 < k) (most : k ≤ size) :
    (index + k) % size = index ↔ k = size := by
  constructor
  · intro met
    by_contra other
    have apart := Ring.mod_ne_of_lt (show index < index + k by omega) (show index + k < index + size by omega)
    rw [met, Nat.mod_eq_of_lt below] at apart
    exact apart rfl
  · rintro rfl
    rw [Nat.add_mod_right, Nat.mod_eq_of_lt below]

theorem Holds.put (holds : q.Holds held) (room : q.isFull ≠ true) (item : RtDataItem) :
    (q.put item).Holds (held ++ [item]) := by
  obtain ⟨small, below, put, few, items, empty, full⟩ := holds
  have fewer : held.length < q.size := Nat.lt_of_le_of_ne few (mt full.mpr room)
  have index : q.next q.putIndex = (q.getIndex + (held.length + 1)) % q.size := by
    rw [next_eq small (put ▸ Nat.mod_lt _ (by omega)), put, Nat.mod_add_mod, Nat.add_assoc]
  have length : (held ++ [item]).length = held.length + 1 := List.length_append
  refine ⟨small, below, ?_, ?_, ?_, iff_of_false Bool.false_ne_true (by simp), ?_⟩
  · rw [length]
    exact index
  · rw [length]
    exact fewer
  · rw [length]
    simp only [RtDataQueue.put, put]
    exact (@Ring.view_put _ _ q.queue q.getIndex held.length [item] fewer).trans (by rw [items])
  · rw [length]
    simp only [RtDataQueue.put, index, round_iff below (Nat.succ_pos _) fewer]
    split_ifs with last
    · exact iff_of_true rfl last
    · exact iff_of_false room last

theorem Holds.take {item : RtDataItem} (holds : q.Holds (item :: held)) :
    q.queue q.getIndex = item ∧ q.take.Holds held := by
  obtain ⟨small, below, put, few, items, empty, -⟩ := holds
  rw [List.length_cons] at put few items
  have index := next_eq small below
  rw [Ring.view_cons, Nat.mod_eq_of_lt below, List.cons.injEq] at items
  have behind : q.putIndex = ((q.getIndex + 1) % q.size + held.length) % q.size := by
    rw [put, Nat.mod_add_mod, Nat.add_right_comm, Nat.add_assoc]
  have inside : (q.getIndex + 1) % q.size < q.size := Nat.mod_lt _ (by omega)
  refine ⟨items.1, small, ?_, ?_, Nat.le_of_succ_le few, ?_, ?_, iff_of_false Bool.false_ne_true (Nat.ne_of_lt few)⟩
  · simpa only [RtDataQueue.take, index] using inside
  · simpa only [RtDataQueue.take, index] using behind
  · simpa only [RtDataQueue.take, index, Ring.view_start_mod] using items.2
  · simp only [RtDataQueue.take, index, behind]
    cases held with
    | nil =>
      rw [List.length_nil, Nat.add_zero, Nat.mod_eq_of_lt inside, if_pos rfl]
      exact iff_of_true rfl rfl
    | cons next rest =>
      have apart := mt (round_iff inside (List.length_pos_of_ne_nil (List.cons_ne_nil next rest))
        (Nat.le_of_succ_le few)).mp (Nat.ne_of_lt few)
      rw [if_neg apart]
      exact iff_of_false (mt empty.mp (by simp)) (by simp)

end RtDataQueue

namespace DataQueueRun

variable {s : DataQueueRun} {size : Nat} {held : List RtDataItem}

/-- A push by a new caller, or by one that was resumed and counts no more. -/
theorem inv_push (room : s.queue.size = size) (holds : s.queue.Holds held) (order : s.pushed = s.popped ++ held)
    (poppers : s.queue.suspendedPopList ≠ [] → held.length ≤ s.poppers.length)
    (thread : Nat) (item : RtDataItem) (waits : Bool) : ∃ held', (s.push thread item waits).Inv size held' := by
  have some : s.queue.isFull = true → held ≠ [] := by
    rintro full rfl
    exact Nat.ne_of_lt (Nat.zero_lt_of_lt holds.getIndex) (holds.full.mp full)
  unfold push
  split_ifs with full
  · exact ⟨held, room, holds.lists .., order, poppers, fun none => absurd none (some full)⟩
  · exact ⟨held, room, holds, order, poppers, fun none => absurd none (some full)⟩
  · refine ⟨held ++ [item], room, (holds.put full item).lists .., ?_, ?_, fun none => absurd none (by simp)⟩
    · rw [order, List.append_assoc]
    · cases list : s.queue.suspendedPopList with
      | nil => exact fun more => absurd rfl more
      | cons first rest =>
        have enough := poppers (list ▸ List.cons_ne_nil first rest)
        intro _
        rw [List.length_append, List.length_append]
        exact Nat.succ_le_succ enough

/-- A pop by a new caller, or by one that was resumed and counts no more. -/
theorem inv_pop (room : s.queue.size = size) (holds : s.queue.Holds held) (order : s.pushed = s.popped ++ held)
    (poppers : s.queue.suspendedPopList ≠ [] → held.length ≤ s.poppers.length + 1)
    (pushers : held = [] → s.queue.suspendedPushList ≠ [] → s.pushers ≠ []) (thread : Nat) (waits : Bool) :
    ∃ held', (s.pop thread waits).Inv size held' := by
  unfold pop
  split_ifs with none
  · obtain rfl := holds.empty.mp none
    exact ⟨[], room, holds.lists .., order, fun _ => Nat.zero_le _, pushers⟩
  · obtain rfl := holds.empty.mp none
    exact ⟨[], room, holds, order, fun _ => Nat.zero_le _, pushers⟩
  · cases held with
    | nil => exact absurd (holds.empty.mpr rfl) none
    | cons item rest =>
      obtain ⟨first, taken⟩ := holds.take
      refine ⟨rest, room, taken.lists .., ?_, fun some => Nat.le_of_succ_le_succ (poppers some), ?_⟩
      · rw [order, first, List.append_assoc, List.singleton_append]
      · intro last
        have low : woken s.queue.take = 1 := if_pos (by rw [taken.len, last]; exact Nat.zero_le _)
        rw [low]
        cases s.queue.suspendedPushList with
        | nil => exact fun some => absurd rfl some
        | cons next later => exact fun _ => by simp

theorem Inv.step (inv : s.Inv size held) (event : DataQueueEvent) : ∃ held', (s.step event).Inv size held' := by
  obtain ⟨room, holds, order, poppers, pushers⟩ := inv
  cases event with
  | push thread item waits => exact inv_push room holds order poppers thread item waits
  | pop thread waits =>
    exact inv_pop room holds order (fun some => Nat.le_succ_of_le (poppers some)) pushers thread waits
  | pushOn thread =>
    simp only [DataQueueRun.step]
    split
    next p _ => exact inv_push (s := { s with pushers := s.pushers.erase p }) room holds order poppers _ _ _
    next => exact ⟨held, room, holds, order, poppers, pushers⟩
  | popOn thread =>
    simp only [DataQueueRun.step]
    split_ifs with resumed
    · have fewer : (s.poppers.erase thread).length + 1 = s.poppers.length := List.length_erase_add_one resumed
      exact inv_pop (s := { s with poppers := s.poppers.erase thread }) room holds order
        (fun some => fewer ▸ poppers some) pushers _ _
    · exact ⟨held, room, holds, order, poppers, pushers⟩
  | expire thread =>
    refine ⟨held, room, holds.lists .., order, ?_, ?_⟩
    · intro some
      exact poppers fun none => some (by simp only [DataQueueRun.step, none, List.erase_nil])
    · intro none some
      exact pushers none fun none => some (by simp only [DataQueueRun.step, none, List.eraseP_nil])
  | reset =>
    exact ⟨[], room, RtDataQueue.init_holds _ (Nat.zero_lt_of_lt holds.getIndex) holds.small _, rfl,
      fun some => absurd rfl some, fun _ some => absurd rfl some⟩

end DataQueueRun

/-- Over every order of the calls, the runs of resumed threads, time-outs and resets: since the last
reset the items come out as they went in, and never more than `size` are held; a thread waits for an
item only while others were resumed for those there are, and for room in an empty queue only while
another was. -/
theorem data_queue_served (queue : Nat → RtDataItem) {size : Nat} (some : 0 < size) (small : size ≤ 2 ^ 15)
    (lwm : Nat) (events : List DataQueueEvent) :
    ∃ s held, s = events.foldl DataQueueRun.step ⟨rtDataQueueInit queue size lwm, [], [], [], []⟩ ∧
      s.pushed = s.popped ++ held ∧ held.length ≤ size ∧ s.queue.len = held.length ∧ s.queue.peek = held.head? ∧
      (s.queue.suspendedPopList ≠ [] → held.length ≤ s.poppers.length) ∧
      (held = [] → s.queue.suspendedPushList ≠ [] → s.pushers ≠ []) := by
  have inv : ∃ held, (events.foldl DataQueueRun.step ⟨rtDataQueueInit queue size lwm, [], [], [], []⟩).Inv size held := by
    refine Runs.foldl_invariant (fun _ _ => True) (fun s : DataQueueRun => ∃ held, s.Inv size held)
      (fun s event inv _ => inv.elim fun _ inv => inv.step event) ⟨[], rfl, ?_, rfl, ?_, ?_⟩ fun _ _ _ => trivial
    · exact RtDataQueue.init_holds queue some small lwm
    · exact fun some => absurd rfl some
    · exact fun _ some => absurd rfl some
  obtain ⟨held, inv⟩ := inv
  refine ⟨_, held, rfl, inv.order, inv.size ▸ inv.holds.few, inv.holds.len, ?_, inv.poppers, inv.pushers⟩
  cases held with
  | nil => exact if_pos (inv.holds.empty.mpr rfl)
  | cons item rest =>
    rw [RtDataQueue.peek, if_neg (mt inv.holds.empty.mp (by simp)), inv.holds.take.1]
    rfl

theorem data_queue_least : ∃ s held,
    s = [DataQueueEvent.pop 1 true, .push 2 ⟨0x100, 4⟩ true, .push 2 ⟨0x200, 8⟩ true, .popOn 1].foldl
      DataQueueRun.step ⟨rtDataQueueInit (fun _ => ⟨0, 0⟩) 1 0, [], [], [], []⟩ ∧
    s.pushed = s.popped ++ held := by
  obtain ⟨s, held, ran, order, -⟩ := data_queue_served (fun _ => ⟨0, 0⟩) Nat.one_pos (by decide) 0
    [.pop 1 true, .push 2 ⟨0x100, 4⟩ true, .push 2 ⟨0x200, 8⟩ true, .popOn 1]
  exact ⟨s, held, ran, order⟩

end NuMakerMA35
