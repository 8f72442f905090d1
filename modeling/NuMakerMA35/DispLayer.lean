import NuMakerMA35.MaskedWrite
import NuMakerMA35.PdmaChannel

namespace NuMakerMA35

inductive DispLayer where
  | video
  | overlay
  | cursor
  deriving DecidableEq

/-- The members of `E_FB_FMT` that a layer is set to. -/
inductive FbFmt where
  | r5g6b5
  | a8r8g8b8
  | nv12
  deriving DecidableEq

namespace FbFmt

def code : FbFmt → U32
  | r5g6b5 => 4
  | a8r8g8b8 => 6
  | nv12 => 17

def dispGetBitPerPixel : FbFmt → U32
  | r5g6b5 => 16
  | a8r8g8b8 => 32
  | nv12 => 8

end FbFmt

structure DispPlanes where
  address : U32
  stride : U32
  uAddress : U32
  uStride : U32
  vAddress : U32
  vStride : U32
  deriving DecidableEq

structure DispRegs where
  frameBufferConfig0 : U32
  frameBufferSize0 : U32
  frameBuffer : DispPlanes
  overlayConfig0 : U32
  overlaySize0 : U32
  overlay : DispPlanes
  cursorConfig : U32
  cursorAddress : U32
  deriving DecidableEq

def dispConfigOutput : U32 := 1
def dispConfigReset : U32 := 1 <<< 4
def dispConfigFormatMsk : U32 := 0x3f <<< 26
def dispConfigTransparencyMsk : U32 := 0x3 <<< 9
def dispOverlayFormatMsk : U32 := 0x3f <<< 16
def dispOverlayEnable : U32 := 1 <<< 24
def dispCursorFormatMsk : U32 := 0x3
def cursorFmtArgb8888 : U32 := 2

def dispSizeWidth (size : U32) : U32 := size &&& 0x7fff
def dispSizeHeight (size : U32) : U32 := (size &&& 0x7fff <<< 15) >>> 15

/-- Planes one behind the other from an address on, as the width gives them; the first one keeps its
stride. -/
def DispPlanes.startAt (p : DispPlanes) (addr width height : U32) : DispPlanes :=
  { p with
    address := addr
    uAddress := addr + width * height
    uStride := width
    vAddress := addr + width * height + width * height / 2
    vStride := width / 2 }

def dispSetFbAddr (layer : DispLayer) (addr : U32) (r : DispRegs) : Int × DispRegs :=
  if addr % 128 ≠ 0 then (-1, r)
  else
    match layer with
    | .video =>
      (0, { r with
        frameBuffer := r.frameBuffer.startAt addr (dispSizeWidth r.frameBufferSize0)
          (dispSizeHeight r.frameBufferSize0) })
    | .overlay =>
      (0, { r with
        overlay := r.overlay.startAt addr (dispSizeWidth r.overlaySize0)
          (dispSizeHeight r.overlaySize0) })
    | .cursor => (0, { r with cursorAddress := addr })

/-- Planes one behind the other from the address that is set, as the pitch gives them. -/
def DispPlanes.pitched (p : DispPlanes) (pitch height : U32) : DispPlanes where
  address := p.address
  stride := pitch
  uAddress := p.address + pitch * height
  uStride := pitch
  vAddress := p.address + pitch * height + pitch * height / 2
  vStride := pitch

def dispSetFbFmt (layer : DispLayer) (fmt : FbFmt) (pitch : U32) (r : DispRegs) : Int × DispRegs :=
  match layer with
  | .video =>
    let width := dispSizeWidth r.frameBufferSize0
    let height := dispSizeHeight r.frameBufferSize0
    (0, { r with
      frameBufferConfig0 :=
        maskedWrite dispConfigFormatMsk (fmt.code <<< 26) r.frameBufferConfig0 ||| dispConfigReset
      frameBufferSize0 := height <<< 15 ||| width
      frameBuffer := r.frameBuffer.pitched pitch height })
  | _ => (-2, r)

def dispSetFbConfig (layer : DispLayer) (fmt : FbFmt) (width height addr : U32) (r : DispRegs) :
    Int × DispRegs :=
  if addr % 128 ≠ 0 then (-1, r)
  else
    match layer with
    | .video =>
      (0, { r with
        frameBufferConfig0 := fmt.code <<< 26 ||| (1 <<< 14 : U32) ||| dispConfigReset
        frameBufferSize0 := height <<< 15 ||| width
        frameBuffer := { r.frameBuffer with
          stride := width * (fmt.dispGetBitPerPixel >>> 3) }.startAt addr width height })
    | .overlay =>
      (0, { r with
        overlayConfig0 := FbFmt.a8r8g8b8.code <<< 16 ||| (1 <<< 5 : U32)
        overlaySize0 := height <<< 15 ||| width
        overlay := { r.overlay with
          stride := width * (fmt.dispGetBitPerPixel >>> 3) }.startAt addr width height })
    | .cursor => (-2, r)

/-- `DISP_InitCursor`, with the hot spot that the driver gives. -/
def dispInitCursor (addr : U32) (r : DispRegs) : DispRegs :=
  { r with cursorConfig := (4 <<< 16 : U32) ||| (4 <<< 8 : U32), cursorAddress := addr }

/-- What opening all layers does to the registers: `DISP_SetTransparencyMode` and `DISP_Trigger`. -/
def dispLayerOpen (r : DispRegs) : DispRegs :=
  { r with
    frameBufferConfig0 :=
      maskedWrite dispConfigTransparencyMsk (1 <<< 9) r.frameBufferConfig0 ||| dispConfigOutput
    overlayConfig0 := maskedWrite dispOverlayEnable dispOverlayEnable (maskedWrite 3 0 r.overlayConfig0)
    cursorConfig := maskedWrite dispCursorFormatMsk cursorFmtArgb8888 r.cursorConfig }

structure GraphicInfo where
  pixelFormat : BitVec 8
  bitsPerPixel : BitVec 8
  pitch : BitVec 16
  width : BitVec 16
  height : BitVec 16
  deriving DecidableEq

def pixelFormatRgb565 : U32 := 5
def pixelFormatArgb888 : U32 := 10
def pixelFormatNv12 : U32 := 13

structure DispState where
  info : DispLayer → GraphicInfo
  regs : DispRegs

/-- The panel and the memory of the layers: the resolution fits the fields that hold it, a line fits
`pitch`, and the buffers are aligned as they were asked for. -/
structure DispPanel where
  uncacheable : U32
  bpp : U32
  width : U32
  height : U32
  buffer : DispLayer → U32
  bpp_cases : bpp = 16 ∨ bpp = 32
  width_pos : 0 < width.toNat
  width_lt : width.toNat < 2 ^ 14
  height_lt : height.toNat < 2 ^ 15
  buffer_aligned : ∀ layer, buffer layer % 128 = 0

namespace DispPanel

variable (panel : DispPanel)

def info : DispLayer → GraphicInfo
  | .cursor => ⟨pixelFormatArgb888.setWidth 8, 32, 32 * (32 / 8), 32, 32⟩
  | _ => {
      pixelFormat :=
        (if panel.bpp = 32 then pixelFormatArgb888 else pixelFormatRgb565).setWidth 8
      bitsPerPixel := panel.bpp.setWidth 8
      pitch := (panel.width * (panel.bpp / 8)).setWidth 16
      width := panel.width.setWidth 16
      height := panel.height.setWidth 16 }

/-- `rt_hw_disp_init` and the opening of the layers, from what the registers held before. -/
def start (before : DispRegs) : DispState :=
  let fmt := if panel.bpp = 32 then FbFmt.a8r8g8b8 else .r5g6b5
  let r := (dispSetFbConfig .video fmt panel.width panel.height (panel.buffer .video) before).2
  let r := (dispSetFbConfig .overlay fmt panel.width panel.height (panel.buffer .overlay) r).2
  ⟨panel.info, dispLayerOpen (dispInitCursor (panel.buffer .cursor) r)⟩

def va2pa (args : U32) : U32 := args &&& ~~~panel.uncacheable

end DispPanel

/-- The format, the bits of a pixel and the pitch that `RTGRAPHIC_CTRL_SET_MODE` sets. -/
def dispModeOf (width : BitVec 16) (pixfmt : U32) : Option (FbFmt × U32 × U32) :=
  let width := width.setWidth 32
  if pixfmt = pixelFormatRgb565 then some (.r5g6b5, 16, width * (16 >>> 3))
  else if pixfmt = pixelFormatArgb888 then some (.a8r8g8b8, 32, width * (32 >>> 3))
  else if pixfmt = pixelFormatNv12 then some (.nv12, 16, width + 16 - 1 &&& ~~~(16 - 1))
  else none

inductive DispCmd where
  | setMode (layer : DispLayer) (pixfmt : U32)
  | panDisplay (layer : DispLayer) (args : U32)

def DispCmd.layer : DispCmd → DispLayer
  | setMode layer _ => layer
  | panDisplay layer _ => layer

def dispLayerControl (panel : DispPanel) (s : DispState) : DispCmd → Int × DispState
  | .setMode layer pixfmt =>
    match dispModeOf (s.info layer).width pixfmt with
    | none => (-rtError, s)
    | some (fmt, bpp, pitch) =>
      let info := { s.info layer with
        bitsPerPixel := bpp.setWidth 8
        pixelFormat := pixfmt.setWidth 8
        pitch := pitch.setWidth 16 }
      (rtEok, {
        info := Function.update s.info layer info
        regs := (dispSetFbFmt layer fmt (info.pitch.setWidth 32) s.regs).2 })
  | .panDisplay layer args =>
    if args = 0 then (-rtError, s)
    else
      let result := dispSetFbAddr layer (panel.va2pa args) s.regs
      (if result.1 = 0 then rtEok else -rtError, { s with regs := result.2 })

end NuMakerMA35
