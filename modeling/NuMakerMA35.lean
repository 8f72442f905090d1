import NuMakerMA35.AdcTouch
import NuMakerMA35.CanFdRamLaw
import NuMakerMA35.CanFdReceive
import NuMakerMA35.CanFdTimingLaw
import NuMakerMA35.CcapBinarization
import NuMakerMA35.CryptoWait
import NuMakerMA35.DataQueue
import NuMakerMA35.DispLayout
import NuMakerMA35.EccAgreement
import NuMakerMA35.EccKey
import NuMakerMA35.EhciBulk
import NuMakerMA35.EhciIoc
import NuMakerMA35.EhciScheduleRuns
import NuMakerMA35.EhciSitd
import NuMakerMA35.EpwmCapture
import NuMakerMA35.EpwmCaptureRuns
import NuMakerMA35.Ft5446
import NuMakerMA35.GmacRings
import NuMakerMA35.GmacTxBuffers
import NuMakerMA35.GmacTxProgress
import NuMakerMA35.GpioIrq
import NuMakerMA35.GpioIsr
import NuMakerMA35.HexRoundTrip
import NuMakerMA35.HwMutexSafe
import NuMakerMA35.HwMutexWake
import NuMakerMA35.I2cBitFrames
import NuMakerMA35.I2cTermination
import NuMakerMA35.I2sClock
import NuMakerMA35.I2sConfigure
import NuMakerMA35.IliScaling
import NuMakerMA35.InputCapture
import NuMakerMA35.KeyStore
import NuMakerMA35.NfiEccLaw
import NuMakerMA35.NfiMarkerSound
import NuMakerMA35.NfiOob
import NuMakerMA35.NuWriterNewest
import NuMakerMA35.NuWriterReadback
import NuMakerMA35.OhciCtrlRuns
import NuMakerMA35.OhciIso
import NuMakerMA35.OhciSchedule
import NuMakerMA35.PackPlacesLaw
import NuMakerMA35.PdmaIdleTime
import NuMakerMA35.PdmaMemPool
import NuMakerMA35.PdmaMemcpy
import NuMakerMA35.PllFailure
import NuMakerMA35.PllMode0
import NuMakerMA35.PwmSetGet
import NuMakerMA35.QspiFrameLaw
import NuMakerMA35.RtcTick
import NuMakerMA35.RtpLoader
import NuMakerMA35.SdhClock
import NuMakerMA35.SdhRequest
import NuMakerMA35.SpiConfigure
import NuMakerMA35.SpiPollLost
import NuMakerMA35.SpinandBadBlock
import NuMakerMA35.St1663i
import NuMakerMA35.UartBaud
import NuMakerMA35.UartDma
import NuMakerMA35.UartStream
import NuMakerMA35.UsbHeapFit
import NuMakerMA35.UsbPipeBuffer
import NuMakerMA35.WhcRuns
