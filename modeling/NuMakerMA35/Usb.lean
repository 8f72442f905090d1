import NuMakerMA35.BitUtil

namespace NuMakerMA35

def usbhErrMemoryOut : Int := -10
def usbhErrInvalidParam : Int := -105
def usbhErrNotFound : Int := -106
def usbhErrTransfer : Int := -201
def usbhErrAbort : Int := -205
def usbhErrSchOverrun : Int := -257
def usbhErrCcNoErr : Int := -280
def usbhErrStall : Int := -284
def usbhErrBuffOverrun : Int := -292
def usbhErrNotAccess1 : Int := -295

def epAddrDirMask : BitVec 8 := 0x80
def epAddrDirOut : BitVec 8 := 0x00
def epAddrDirIn : BitVec 8 := 0x80
def epAttrTtMask : BitVec 8 := 0x03
def epAttrTtIso : BitVec 8 := 0x01
def reqTypeOut : BitVec 8 := 0x00

def ifPerUtr : Nat := 8

inductive UsbSpeed where
  | low
  | full
  | high
  deriving DecidableEq

structure EpInfo where
  bEndpointAddress : BitVec 8
  bmAttributes : BitVec 8
  bInterval : BitVec 8
  bToggle : BitVec 8
  wMaxPacketSize : BitVec 16
  hwPipe : U32

structure HubDev where
  speed : UsbSpeed
  portNum : BitVec 8
  devNum : BitVec 8

/-- A device; its hubs, the parent first, and the address of its `ep0`. -/
structure Udev where
  bMaxPacketSize0 : BitVec 8
  hubs : List HubDev
  portNum : BitVec 8
  devNum : BitVec 8
  speed : UsbSpeed
  ep0 : U32

structure Utr where
  udev : U32
  bmRequestType : BitVec 8
  ep : U32
  buff : U32
  bIsTransferDone : Bool
  dataLen : U32
  xferLen : U32
  bIsoNewSched : Bool
  isoSf : BitVec 16
  isoXlen : Nat → BitVec 16
  isoBuff : Nat → U32
  isoStatus : Nat → Int
  tdCnt : Int
  status : Int

end NuMakerMA35
