import Mathlib.Logic.Function.Basic

namespace NuMakerMA35

inductive CryptoEngine where
  | prng
  | aes
  | hmac
  | ecc
  deriving DecidableEq

inductive CryptoFlag where
  | prngIf
  | aesEif
  | aesIf
  | hmacEif
  | hmacIf
  | eccIf
  | eccEif
  deriving DecidableEq

def CryptoFlag.engine : CryptoFlag → CryptoEngine
  | .prngIf => .prng
  | .aesEif | .aesIf => .aes
  | .hmacEif | .hmacIf => .hmac
  | .eccIf | .eccEif => .ecc

def cryptoChecks : List CryptoFlag :=
  [.prngIf, .aesEif, .aesIf, .hmacEif, .hmacIf, .eccIf, .eccEif]

/-- The semaphores that `rt_hw_crypto_init` creates; `s_psSemHMAC` stays `NULL`. -/
def cryptoCreated : CryptoEngine → Bool
  | .prng | .aes | .ecc => true
  | .hmac => false

def rtSemValueMax : Nat := 65535

inductive CryptoPc where
  | out
  | reset
  | take
  | blocked
  | poll
  | asserted
  deriving DecidableEq

/-- How far `CRYPTO_IRQHandler` is; the number tells which operation raised the flag cleared last. -/
inductive CryptoIsr where
  | idle
  | check (rest : List CryptoFlag)
  | clear (f : CryptoFlag) (rest : List CryptoFlag)
  | release (f : CryptoFlag) (n : Nat) (rest : List CryptoFlag)
  | asserted
  deriving DecidableEq

/-- The engines, their semaphores and the threads. Operations are numbered for each engine; a flag
that is set has the number of the last operation that raised it. `fresh` tells that the operation
under way has released its semaphore since the reset, `stale` that a wait returned without. -/
structure CryptoRun where
  pc : CryptoEngine → CryptoPc
  polls : CryptoEngine → Bool
  value : CryptoEngine → Nat
  busy : CryptoEngine → Bool
  op : CryptoEngine → Nat
  flag : CryptoFlag → Option Nat
  isr : CryptoIsr
  fresh : CryptoEngine → Bool
  stale : Bool

/-- `start` is the write of the start bit, by a function that polls for `BUSY` at its end
(`run_ecc_codec`) or not; `finish` the end of an operation, with its done or its error flag or
both. -/
inductive CryptoEvent where
  | start (e : CryptoEngine) (polls : Bool)
  | call (e : CryptoEngine)
  | finish (e : CryptoEngine) (raised : CryptoFlag → Bool)
  | isr

def CryptoRun.returned (s : CryptoRun) (e : CryptoEngine) (own : Bool) : CryptoRun :=
  { s with
    pc := Function.update s.pc e (if s.polls e then .poll else .out)
    stale := s.stale || !own }

/-- What the thread does next: `rt_sem_control`, `rt_sem_take` and the poll. -/
def CryptoRun.callStep (s : CryptoRun) (e : CryptoEngine) : CryptoRun :=
  match s.pc e with
  | .reset =>
    if cryptoCreated e then
      { s with
        pc := Function.update s.pc e .take
        value := Function.update s.value e 0
        fresh := Function.update s.fresh e false }
    else { s with pc := Function.update s.pc e .asserted }
  | .take =>
    if 0 < s.value e then
      { s with value := Function.update s.value e (s.value e - 1) }.returned e (s.fresh e)
    else { s with pc := Function.update s.pc e .blocked }
  | .poll => if s.busy e then s else { s with pc := Function.update s.pc e .out }
  | .out | .blocked | .asserted => s

def CryptoRun.release (s : CryptoRun) (e : CryptoEngine) (n : Nat) : CryptoRun :=
  if s.pc e = .blocked then s.returned e (n = s.op e)
  else
    { s with
      value := Function.update s.value e
        (if s.value e < rtSemValueMax then s.value e + 1 else s.value e)
      fresh := Function.update s.fresh e (s.fresh e || n = s.op e) }

def CryptoRun.isrStep (s : CryptoRun) : CryptoRun :=
  match s.isr with
  | .idle =>
    if cryptoChecks.any fun f => (s.flag f).isSome then { s with isr := .check cryptoChecks } else s
  | .check [] => { s with isr := .idle }
  | .check (f :: rest) =>
    { s with isr := if (s.flag f).isSome then .clear f rest else .check rest }
  | .clear f rest =>
    { s with
      flag := Function.update s.flag f none
      isr := .release f ((s.flag f).getD 0) rest }
  | .release f n rest =>
    if cryptoCreated f.engine then { s.release f.engine n with isr := .check rest }
    else { s with isr := .asserted }
  | .asserted => s

def CryptoRun.step (s : CryptoRun) : CryptoEvent → CryptoRun
  | .start e polls =>
    if s.pc e = .out then
      { s with
        pc := Function.update s.pc e .reset
        polls := Function.update s.polls e polls
        busy := Function.update s.busy e true
        op := Function.update s.op e (s.op e + 1) }
    else s
  | .call e => s.callStep e
  | .finish e raised =>
    if s.busy e ∧ cryptoChecks.any fun f => f.engine = e && raised f then
      { s with
        busy := Function.update s.busy e false
        flag := fun f => if f.engine = e && raised f then some (s.op e) else s.flag f }
    else s
  | .isr => s.isrStep

def CryptoRun.init : CryptoRun where
  pc := fun _ => .out
  polls := fun _ => false
  value := fun _ => 0
  busy := fun _ => false
  op := fun _ => 0
  flag := fun _ => none
  isr := .idle
  fresh := fun _ => false
  stale := false

end NuMakerMA35
