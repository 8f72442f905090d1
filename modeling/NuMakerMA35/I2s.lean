import NuMakerMA35.PdmaChannel

namespace NuMakerMA35

def i2sCtl0I2senMsk : U32 := 0x1 <<< 0
def i2sCtl0TxenMsk : U32 := 0x1 <<< 1
def i2sCtl0RxenMsk : U32 := 0x1 <<< 2
def i2sCtl0DatwidthPos : Nat := 4
def i2sCtl0DatwidthMsk : U32 := 0x3 <<< 4
def i2sCtl0MonoMsk : U32 := 0x1 <<< 6
def i2sCtl0SlaveMsk : U32 := 0x1 <<< 8
def i2sCtl0MclkenMsk : U32 := 0x1 <<< 15
def i2sCtl0TxpdmaenMsk : U32 := 0x1 <<< 20
def i2sCtl0RxpdmaenMsk : U32 := 0x1 <<< 21
def i2sCtl0FormatMsk : U32 := 0x7 <<< 24
def i2sClkdivMclkdivMsk : U32 := 0x7f
def i2sClkdivBclkdivMsk : U32 := 0x3ff <<< 8

def i2sModeMaster : U32 := 0
def i2sFormatI2s : U32 := 0 <<< 24
def i2sFifoTxLevelWord8 : U32 := 8 <<< 8
def i2sFifoRxLevelWord8 : U32 := 7 <<< 16

inductive AudioStream where
  | replay
  | record
  deriving DecidableEq

def AudioStream.other : AudioStream → AudioStream
  | .replay => .record
  | .record => .replay

def AudioStream.enMsk : AudioStream → U32
  | .replay => i2sCtl0TxenMsk
  | .record => i2sCtl0RxenMsk

def AudioStream.pdmaenMsk : AudioStream → U32
  | .replay => i2sCtl0TxpdmaenMsk
  | .record => i2sCtl0RxpdmaenMsk

structure RtAudioConfigure where
  samplerate : U32
  channels : BitVec 16
  samplebits : BitVec 16
  deriving DecidableEq

/-- The registered codec: its role, and which of its functions there are. -/
structure NuAcodecOps where
  master : Bool
  reset : Bool
  init : Bool
  dspControl : Bool
  mixerControl : Bool

/-- What the functions of the codec answer in one call, and the configuration they leave it with. -/
structure AcodecReply where
  reset : Int
  init : Int
  dspControl : Int
  config : RtAudioConfigure

/-- The accesses that an operation makes: the reset of the controller, its registers with their
values before and after, the channels of the transfers, and the codec. -/
inductive I2sAccess where
  | reset
  | ctl0 (old new : U32)
  | ctl1 (old new : U32)
  | clkdiv (old new : U32)
  | terminate (stream : AudioStream)
  | transfer (stream : AudioStream)
  | codec
  deriving DecidableEq

/-- The registers, the configurations of the device and of the codec, and the accesses of the
operation under way, last one first. -/
structure NuI2s where
  ctl0 : U32
  ctl1 : U32
  clkdiv : U32
  config : RtAudioConfigure
  acodecConfig : RtAudioConfigure
  log : List I2sAccess

def NuI2s.access (s : NuI2s) (a : I2sAccess) : NuI2s := { s with log := a :: s.log }

def NuI2s.setCtl0 (s : NuI2s) (x : U32) : NuI2s := { s.access (.ctl0 s.ctl0 x) with ctl0 := x }

def NuI2s.setCtl1 (s : NuI2s) (x : U32) : NuI2s := { s.access (.ctl1 s.ctl1 x) with ctl1 := x }

def NuI2s.setClkdiv (s : NuI2s) (x : U32) : NuI2s :=
  { s.access (.clkdiv s.clkdiv x) with clkdiv := x }

/-- The pulse of the bit in `IPRST`, after which the registers have their reset values. -/
def NuI2s.reset (s : NuI2s) : NuI2s := { s.access .reset with ctl0 := 0, ctl1 := 0, clkdiv := 0 }

/-- `I2S_Open`, with the frequency of the source clock; a division by zero gives zero, as the
instruction does. -/
def NuI2s.i2sOpen (s : NuI2s) (srcClk masterSlave sampleRate wordWidth monoData dataFormat : U32) :
    NuI2s :=
  let s := s.reset
  let s := s.setCtl0 (masterSlave ||| wordWidth ||| monoData ||| dataFormat)
  let s := s.setCtl1 (i2sFifoTxLevelWord8 ||| i2sFifoRxLevelWord8)
  let bitRate := sampleRate * ((wordWidth >>> 4 &&& 0x3) + 1) * 16
  let divider : BitVec 16 := ((((srcClk * 10 / bitRate) >>> 1) + 5) / 10).setWidth 16 - 1
  let s := s.setClkdiv (s.clkdiv &&& ~~~i2sClkdivBclkdivMsk ||| divider.setWidth 32 <<< 8)
  s.setCtl0 (s.ctl0 ||| i2sCtl0I2senMsk)

def NuI2s.i2sClose (s : NuI2s) : NuI2s := s.setCtl0 (s.ctl0 &&& ~~~i2sCtl0I2senMsk)

def NuI2s.enableMclk (s : NuI2s) (srcClk busClock : U32) : NuI2s :=
  let divider : BitVec 8 :=
    if busClock = srcClk then 0 else (srcClk / busClock).setWidth 8 >>> 1
  let s := s.setClkdiv (s.clkdiv &&& ~~~i2sClkdivMclkdivMsk ||| divider.setWidth 32)
  s.setCtl0 (s.ctl0 ||| i2sCtl0MclkenMsk)

def NuI2s.disableMclk (s : NuI2s) : NuI2s := s.setCtl0 (s.ctl0 &&& ~~~i2sCtl0MclkenMsk)

def i2sCapacityCheck (c : RtAudioConfigure) : Bool :=
  (c.samplebits = 8 || c.samplebits = 16 || c.samplebits = 32) && (c.channels = 1 || c.channels = 2)

def NuI2s.callCodec (s : NuI2s) (reply : AcodecReply) : NuI2s :=
  { s.access .codec with acodecConfig := reply.config }

def i2sTargetMclk : U32 := 12000000

/-- The end of `nu_i2s_dai_setup`: the controller, its clock and the codec's mute. -/
def NuI2s.daiOpen (s : NuI2s) (ops : NuAcodecOps) (srcClk : U32) : NuI2s :=
  let s := s.i2sOpen srcClk
    (if ops.master then i2sCtl0SlaveMsk else i2sModeMaster) s.config.samplerate
    ((s.config.samplebits.setWidth 32 / 8 - 1) <<< i2sCtl0DatwidthPos)
    (if s.config.channels = 1 then i2sCtl0MonoMsk else 0) i2sFormatI2s
  let s := s.enableMclk srcClk i2sTargetMclk
  if ops.mixerControl then s.access .codec else s

def NuI2s.daiSetup (s : NuI2s) (ops : NuAcodecOps) (srcClk : U32) (reply : AcodecReply) :
    NuI2s × Int :=
  if i2sCapacityCheck s.config then
    let s := if ops.reset then s.callCodec reply else s
    if ops.reset ∧ reply.reset ≠ rtEok then (s, reply.reset)
    -- without the function `result` is still that of the reset
    else if !ops.init then (s, rtEok)
    else
      let s := s.callCodec reply
      if reply.init ≠ rtEok then (s, reply.init)
      else if !ops.dspControl then (s, rtEok)
      else
        let s := s.callCodec reply
        if reply.dspControl ≠ rtEok then (s, reply.dspControl)
        else (s.daiOpen ops srcClk, rtEok)
  else (s, -rtEinval)

def NuI2s.stop (s : NuI2s) (stream : AudioStream) : NuI2s :=
  let s := s.setCtl0 (s.ctl0 &&& ~~~stream.pdmaenMsk)
  let s := s.setCtl0 (s.ctl0 &&& ~~~stream.enMsk)
  let s := s.access (.terminate stream)
  if s.ctl0 &&& (i2sCtl0TxenMsk ||| i2sCtl0RxenMsk) = 0 then s.disableMclk.i2sClose else s

def NuI2s.start (s : NuI2s) (ops : NuAcodecOps) (srcClk : U32) (reply : AcodecReply)
    (stream : AudioStream) : NuI2s × Int :=
  match (s.stop stream).daiSetup ops srcClk reply with
  | (s, result) =>
    if result ≠ rtEok then (s, -rtError)
    else
      let s := s.access (.transfer stream)
      let s := s.setCtl0 (s.ctl0 ||| stream.pdmaenMsk)
      (s.setCtl0 (s.ctl0 ||| stream.enMsk), rtEok)

inductive AudioDsp where
  | param
  | samplerate
  | channels
  | samplebits
  | unknown
  deriving DecidableEq

/-- The configuration is stored; the answer tells whether the stream must be started again. -/
def NuI2s.store (s : NuI2s) (sub : AudioDsp) (caps : RtAudioConfigure) : NuI2s × Bool :=
  match sub with
  | .param => if s.config ≠ caps then ({ s with config := caps }, true) else (s, false)
  | .samplebits =>
    -- the sample rate is compared and written here
    if s.config.samplerate ≠ caps.samplebits.setWidth 32 then
      ({ s with config := { s.config with samplerate := caps.samplebits.setWidth 32 } }, true)
    else (s, false)
  | .channels =>
    -- and the configuration of the codec is written here
    if s.config.channels ≠ caps.channels then
      ({ s with acodecConfig := { s.acodecConfig with channels := caps.channels } }, true)
    else (s, false)
  | .samplerate =>
    if s.config.samplerate ≠ caps.samplerate then
      ({ s with config := { s.config with samplerate := caps.samplerate } }, true)
    else (s, false)
  | .unknown => (s, false)

def NuI2s.configure (s : NuI2s) (ops : NuAcodecOps) (srcClk : U32) (reply : AcodecReply)
    (stream : AudioStream) (sub : AudioDsp) (caps : RtAudioConfigure) : NuI2s × Int :=
  match s.store sub caps with
  | (s, needReset) =>
    if needReset then s.start ops srcClk reply stream
    else (s, if sub = .unknown then -rtError else rtEok)

/-- An operation on one of the streams, with what the codec answers and the source clock there. -/
inductive I2sOp where
  | start (srcClk : U32) (reply : AcodecReply)
  | stop
  | configure (srcClk : U32) (reply : AcodecReply) (sub : AudioDsp) (caps : RtAudioConfigure)

def NuI2s.run (s : NuI2s) (ops : NuAcodecOps) (stream : AudioStream) : I2sOp → NuI2s
  | .start srcClk reply => (s.start ops srcClk reply stream).1
  | .stop => s.stop stream
  | .configure srcClk reply sub caps => (s.configure ops srcClk reply stream sub caps).1

end NuMakerMA35
