import NuMakerMA35.Gpio

namespace NuMakerMA35

/-- The processors; the numbers are `HWSEM_LOCK_BY_A35` and `HWSEM_LOCK_BY_M4`. -/
inductive Core where
  | a35
  | m4
  deriving DecidableEq, Repr

def Core.lockBy : Core → BitVec 8
  | .a35 => 1
  | .m4 => 2

def evHwsemCnt : Nat := 8

/-- One semaphore, the threads its mutexes were initialised for, and whether the hardware keeps
the key field of a freed semaphore. -/
structure MutexCfg where
  id : Fin evHwsemCnt
  owner : Core → Nat
  keeps : Bool

/-- `SEM[id]`: the processor that locked it, `none` for `HWSEM_NOLOCK`, and the key. -/
structure HwSem where
  lockedBy : Option Core
  key : BitVec 8
  deriving DecidableEq, Repr

/-- A key written to a free semaphore locks it, the same key written again frees it. -/
def HwSem.write (s : HwSem) (keeps : Bool) (p : Core) (key : BitVec 8) : HwSem :=
  if s.lockedBy = none then ⟨some p, key⟩
  else if s.key = key then ⟨none, if keeps then key else 0⟩
  else s

inductive MutexPc where
  | out
  | initCompletion (key : BitVec 8) (timeout : Int)
  | isLocked (key : BitVec 8) (timeout : Int)
  | getKey (key : BitVec 8) (timeout : Int)
  | enableInt (key : BitVec 8) (timeout : Int)
  | wait (key : BitVec 8) (timeout : Int)
  | suspended (key : BitVec 8) (timeout : Int)
  | resumed (key : BitVec 8) (timeout : Int) (timedOut : Bool)
  | lock (key : BitVec 8) (timeout : Int)
  | checkKey (key : BitVec 8) (timeout : Int)
  | disableInt
  | relIsLocked (key : BitVec 8)
  | relGetKey (key : BitVec 8)
  | relUnlock (key : BitVec 8)
  deriving DecidableEq, Repr

inductive HwsemIsr where
  | idle
  | clearFlag
  | checkDone
  | setDone
  deriving DecidableEq, Repr

inductive MutexCall where
  | take
  | release
  deriving DecidableEq, Repr

/-- A call that returned: how often its thread had taken the mutex and not released it, and
whether the call freed the semaphore or changed it or the hold count. -/
structure MutexReturn where
  core : Core
  call : MutexCall
  ret : Int
  depth : Nat
  freed : Bool
  changed : Bool
  deriving DecidableEq, Repr

/-- A processor's `struct nu_mutex_priv`, its interrupt bits, and the state of its threads; the
last four fields only record what happened. -/
structure MutexPriv where
  hold : BitVec 8
  done : Bool
  inten : Bool
  intsts : Bool
  isr : HwsemIsr
  pc : MutexPc
  depth : Nat
  freed : Bool
  changed : Bool
  missed : Bool

structure HwMutex where
  sem : HwSem
  priv : Core → MutexPriv
  returns : List MutexReturn

inductive MutexEvent where
  | take (p : Core) (thread : Nat) (cpu : BitVec 8) (timeout : Int)
  | release (p : Core) (thread : Nat) (cpu : BitVec 8)
  | run (p : Core)
  | timer (p : Core)
  | isr (p : Core)

/-- `(HWSEM_LOCK_BY_OWNER << 4) | j`, with the number of the CPU where the processor has several. -/
def MutexCfg.key (c : MutexCfg) (p : Core) (cpu : BitVec 8) : BitVec 8 :=
  let key := p.lockBy <<< 4 ||| BitVec.ofNat 8 c.id
  match p with
  | .a35 => key ||| cpu <<< 6
  | .m4 => key

def HwMutex.set (s : HwMutex) (p : Core) (x : MutexPriv) : HwMutex :=
  { s with priv := Function.update s.priv p x }

def HwMutex.leave (s : HwMutex) (p : Core) (x : MutexPriv) (call : MutexCall) (ret : Int)
    (depth : Nat) : HwMutex :=
  { s.set p { x with pc := .out, depth } with
    returns := ⟨p, call, ret, (s.priv p).depth, x.freed, x.changed⟩ :: s.returns }

/-- A write to the semaphore. An unlock raises the interrupts that are enabled; a lock ends what a
waiter missed. -/
def HwMutex.write (s : HwMutex) (c : MutexCfg) (p : Core) (key : BitVec 8) : HwMutex :=
  let sem := s.sem.write c.keeps p key
  let freed : Bool := s.sem.lockedBy.isSome && sem.lockedBy.isNone
  { s with
    sem
    priv := fun q =>
      let x := s.priv q
      let mine : Bool := decide (q = p)
      { x with
        intsts := x.intsts || freed && x.inten
        missed := x.missed && sem.lockedBy.isNone
        freed := x.freed || mine && freed
        changed := x.changed || mine && decide (sem ≠ s.sem) } }

/-- An interrupt or a completion that the waiter has not seen yet. -/
def MutexPriv.outstanding (x : MutexPriv) : Bool := x.intsts || decide (x.isr ≠ .idle) || x.done

def HwMutex.run (s : HwMutex) (c : MutexCfg) (p : Core) : HwMutex :=
  let x := s.priv p
  match x.pc with
  | .out => s
  | .initCompletion key timeout => s.set p { x with done := false, pc := .isLocked key timeout }
  | .isLocked key timeout =>
    if s.sem.lockedBy = none then s.set p { x with pc := .lock key timeout }
    else s.set p { x with pc := .getKey key timeout }
  | .getKey key timeout =>
    if s.sem.key = key then
      s.leave p { x with hold := x.hold + 1, changed := true } .take rtEok (x.depth + 1)
    else s.set p { x with pc := .enableInt key timeout }
  | .enableInt key timeout =>
    s.set p { x with
      inten := true
      missed := !x.inten && s.sem.lockedBy.isNone && !x.outstanding
      pc := .wait key timeout }
  | .wait key timeout =>
    if x.done then s.set p { x with done := false, pc := .isLocked key timeout }
    else if timeout = 0 then s.leave p x .take (-rtEbusy) x.depth
    else s.set p { x with pc := .suspended key timeout }
  | .suspended _ _ => s
  | .resumed key timeout timedOut =>
    if timedOut then s.leave p { x with done := false } .take (-rtEbusy) x.depth
    else s.set p { x with done := false, pc := .isLocked key timeout }
  | .lock key timeout =>
    let s := s.write c p key
    s.set p { s.priv p with pc := .checkKey key timeout }
  | .checkKey key timeout =>
    if s.sem.key = key then s.set p { x with hold := 1, changed := true, pc := .disableInt }
    else s.set p { x with pc := .isLocked key timeout }
  | .disableInt => s.leave p { x with inten := false } .take rtEok (x.depth + 1)
  | .relIsLocked key =>
    if s.sem.lockedBy = none then s.leave p x .release (-rtError) x.depth
    else s.set p { x with pc := .relGetKey key }
  | .relGetKey key =>
    if s.sem.key = key then
      let x := { x with hold := x.hold - 1, changed := true }
      if x.hold = 0 then s.set p { x with pc := .relUnlock key }
      else s.leave p x .release rtEok (x.depth - 1)
    else s.leave p x .release (-rtError) x.depth
  | .relUnlock key =>
    let s := s.write c p key
    s.leave p (s.priv p) .release rtEok (x.depth - 1)

/-- `nu_hwsem_isr` and `rt_completion_done`, which resumes a suspended thread. -/
def HwMutex.isr (s : HwMutex) (p : Core) : HwMutex :=
  let x := s.priv p
  match x.isr with
  | .idle => if x.intsts then s.set p { x with isr := .clearFlag } else s
  | .clearFlag => s.set p { x with intsts := false, isr := .checkDone }
  | .checkDone => s.set p { x with isr := if x.done then .idle else .setDone }
  | .setDone =>
    let pc :=
      match x.pc with
      | .suspended key timeout => .resumed key timeout false
      | pc => pc
    s.set p { x with done := true, isr := .idle, pc }

def HwMutex.stranger (s : HwMutex) (p : Core) (call : MutexCall) : HwMutex :=
  { s with returns := ⟨p, call, -rtError, 0, false, false⟩ :: s.returns }

def HwMutex.step (c : MutexCfg) (s : HwMutex) : MutexEvent → HwMutex
  | .take p thread cpu timeout =>
    if thread ≠ c.owner p then s.stranger p .take
    else if (s.priv p).pc = .out then
      s.set p { s.priv p with
        freed := false, changed := false, pc := .initCompletion (c.key p cpu) timeout }
    else s
  | .release p thread cpu =>
    if thread ≠ c.owner p then s.stranger p .release
    else if (s.priv p).pc = .out then
      s.set p { s.priv p with freed := false, changed := false, pc := .relIsLocked (c.key p cpu) }
    else s
  | .run p => s.run c p
  | .timer p =>
    match (s.priv p).pc with
    | .suspended key timeout =>
      if 0 < timeout then s.set p { s.priv p with pc := .resumed key timeout true } else s
    | _ => s
  | .isr p => s.isr p

/-- After `rt_hw_hwsem_init` on both processors the semaphore is free. -/
def HwMutex.start : HwMutex where
  sem := ⟨none, 0⟩
  priv := fun _ => ⟨0, false, false, false, .idle, .out, 0, false, false, false⟩
  returns := []

end NuMakerMA35
