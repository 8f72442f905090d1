import NuMakerMA35.DispLayer

namespace NuMakerMA35

/-- The planes that a layer has registers for: the address and the stride of its chroma plane. -/
def DispRegs.chroma (r : DispRegs) : DispLayer → Option (U32 × U32)
  | .video => some (r.frameBuffer.uAddress, r.frameBuffer.uStride)
  | .overlay => some (r.overlay.uAddress, r.overlay.uStride)
  | .cursor => none

/-- A layer's format field holds this format; the cursor has one of its own numbers for it. -/
def DispRegs.Shows (r : DispRegs) (fmt : FbFmt) : DispLayer → Prop
  | .video => (r.frameBufferConfig0 &&& dispConfigFormatMsk) >>> 26 = fmt.code
  | .overlay => (r.overlayConfig0 &&& dispOverlayFormatMsk) >>> 16 = fmt.code
  | .cursor => fmt = .a8r8g8b8 ∧ r.cursorConfig &&& dispCursorFormatMsk = cursorFmtArgb8888

/-- The stride of a layer; the cursor's lines of 32 pixels follow each other. -/
def DispRegs.stride (r : DispRegs) : DispLayer → U32
  | .video => r.frameBuffer.stride
  | .overlay => r.overlay.stride
  | .cursor => 32 * (32 / 8)

/-- The planes with or without the third, which no format that can be set has. -/
def DispPlanes.seen (third : Bool) (p : DispPlanes) : DispPlanes :=
  if third then p else { p with vAddress := 0, vStride := 0 }

def DispRegs.seen (third : Bool) (r : DispRegs) : DispRegs :=
  { r with frameBuffer := r.frameBuffer.seen third, overlay := r.overlay.seen third }

namespace GraphicInfo

def fmt (info : GraphicInfo) : Option FbFmt :=
  if info.pixelFormat = 5 then some .r5g6b5
  else if info.pixelFormat = 10 then some .a8r8g8b8
  else if info.pixelFormat = 13 then some .nv12
  else none

def Planar (info : GraphicInfo) : Prop := info.fmt = some .nv12

end GraphicInfo

structure DispRun where
  s : DispState
  panned : DispLayer → U32

namespace DispRun

variable (panel : DispPanel) (third : Bool)

def start (before : DispRegs) : DispRun := ⟨panel.start before, panel.buffer⟩

def step (x : DispRun) (cmd : DispCmd) : DispRun :=
  let result := dispLayerControl panel x.s cmd
  { s := result.2
    panned :=
      match cmd with
      | .panDisplay layer args =>
        if result.1 = rtEok then Function.update x.panned layer (panel.va2pa args) else x.panned
      | .setMode .. => x.panned }

/-- The layer is set as `GET_INFO` reports, and a planar frame lies from the last panned address on, so
that panning there again changes nothing. -/
structure Laid (x : DispRun) (layer : DispLayer) : Prop where
  format : ∃ fmt ∈ (x.s.info layer).fmt, x.s.regs.Shows fmt layer
  stride : x.s.regs.stride layer = (x.s.info layer).pitch.setWidth 32
  chroma : (x.s.info layer).Planar → x.s.regs.chroma layer = some
    (x.panned layer + (x.s.info layer).pitch.setWidth 32 * (x.s.info layer).height.setWidth 32,
      (x.s.info layer).pitch.setWidth 32)
  settled : (x.s.info layer).Planar →
    (dispSetFbAddr layer (x.panned layer) x.s.regs).2.seen third = x.s.regs.seen third

def Lays (x : DispRun) (cmd : DispCmd) : Prop :=
  (dispLayerControl panel x.s cmd).1 = rtEok → (x.step panel cmd).Laid third cmd.layer

end DispRun

def DispCmd.Taken (panel : DispPanel) : DispCmd → Prop
  | setMode _ pixfmt =>
    pixfmt = pixelFormatRgb565 ∨ pixfmt = pixelFormatArgb888 ∨ pixfmt = pixelFormatNv12
  | panDisplay _ args => args ≠ 0 ∧ panel.va2pa args % 128 = 0

/-- The commands that keep the layout: the cursor and, on a panel of 32 bits, the overlay stay with
ARGB, and the planar format is for the video layer of a width that is a multiple of 16, if the third
plane's registers do not count. -/
def DispCmd.Sound (panel : DispPanel) (third : Bool) : DispCmd → Prop
  | setMode .video pixfmt => pixfmt = pixelFormatNv12 → third = false ∧ 16 ∣ panel.width.toNat
  | setMode .overlay pixfmt => panel.bpp = 32 ∧ pixfmt = pixelFormatArgb888
  | setMode .cursor pixfmt => pixfmt = pixelFormatArgb888
  | panDisplay .overlay _ => panel.bpp = 32
  | panDisplay .. => True

section Fields

theorem getLsbD_beyond {v : U32} {k i : Nat} (small : v.toNat < 2 ^ k) (beyond : k ≤ i) :
    v.getLsbD i = false := by
  rw [← BitVec.testBit_toNat]
  exact Nat.testBit_lt_two_pow (Nat.lt_of_lt_of_le small (Nat.pow_le_pow_right (by omega) beyond))

theorem dispSizeWidth_pack {width height : U32} (w : width.toNat < 2 ^ 15) :
    dispSizeWidth (height <<< 15 ||| width) = width := by
  have mask : (0x7fff : U32) = fieldMask 32 15 0 := by decide
  apply BitVec.eq_of_getLsbD_eq
  intro i inside
  rw [dispSizeWidth, mask, BitVec.getLsbD_and, MaskedWrite.fieldMask_getLsbD (by omega),
    BitVec.getLsbD_or, BitVec.getLsbD_shiftLeft]
  by_cases low : i < 15
  · simp [low]
  · simp [low, getLsbD_beyond w (Nat.le_of_not_lt low)]

theorem dispSizeHeight_pack {width height : U32} (w : width.toNat < 2 ^ 15)
    (h : height.toNat < 2 ^ 15) : dispSizeHeight (height <<< 15 ||| width) = height := by
  have mask : (0x7fff <<< 15 : U32) = fieldMask 32 15 15 := by decide
  apply BitVec.eq_of_getLsbD_eq
  intro i inside
  rw [dispSizeHeight, mask, BitVec.getLsbD_ushiftRight, BitVec.getLsbD_and,
    MaskedWrite.fieldMask_getLsbD (by omega), BitVec.getLsbD_or, BitVec.getLsbD_shiftLeft,
    getLsbD_beyond w (by omega)]
  by_cases low : i < 15
  · simp [show 15 + i < 30 by omega, show 15 + i < 32 by omega]
  · simp [show ¬15 + i < 30 by omega, getLsbD_beyond h (Nat.le_of_not_lt low)]

theorem format_written (fmt : FbFmt) (config : U32) :
    ((maskedWrite dispConfigFormatMsk (fmt.code <<< 26) config ||| dispConfigReset) &&&
      dispConfigFormatMsk) >>> 26 = fmt.code := by
  have apart : dispConfigReset &&& dispConfigFormatMsk = 0 := by decide
  have within : fmt.code <<< 26 &&& ~~~dispConfigFormatMsk = 0 := by cases fmt <;> decide
  rw [BitVec.and_comm, BitVec.and_or_distrib_left, BitVec.and_comm _ dispConfigReset, apart,
    show (0 : U32) = 0#32 from rfl, BitVec.or_zero, BitVec.and_comm, MaskedWrite.read_back within]
  cases fmt <;> decide

theorem setWidth_twice {v : U32} (small : v.toNat < 2 ^ 16) : (v.setWidth 16).setWidth 32 = v := by
  apply BitVec.eq_of_toNat_eq
  rw [BitVec.toNat_setWidth, BitVec.toNat_setWidth]
  omega

theorem align_toNat {v : U32} (small : v.toNat < 2 ^ 14) :
    (v + 16 - 1 &&& ~~~(16 - 1)).toNat = (v.toNat + 15) / 16 * 16 := by
  have mask : (~~~(16 - 1) : U32) = BitVec.allOnes 32 <<< 4 := by decide
  have plus : v + 16 - 1 = v + 15 := by
    rw [BitVec.sub_eq_add_neg, BitVec.add_assoc]
    rfl
  have sum : (v + 15).toNat = v.toNat + 15 := by
    rw [BitVec.toNat_add]
    exact Nat.mod_eq_of_lt (by simp; omega)
  rw [mask, ← BitVec.shiftLeft_ushiftRight, plus, BitVec.toNat_shiftLeft, BitVec.toNat_ushiftRight,
    sum, Nat.shiftRight_eq_div_pow, Nat.shiftLeft_eq]
  omega

end Fields

section Modes

variable {panel : DispPanel} {s : DispState} {layer : DispLayer} {pixfmt : U32}

def DispPanel.pitchOf (panel : DispPanel) : FbFmt → U32
  | .r5g6b5 => panel.width * 2
  | .a8r8g8b8 => panel.width * 4
  | .nv12 => panel.width + 16 - 1 &&& ~~~(16 - 1)

theorem DispPanel.pitchOf_toNat (fmt : FbFmt) : (panel.pitchOf fmt).toNat =
    match fmt with
    | .r5g6b5 => panel.width.toNat * 2
    | .a8r8g8b8 => panel.width.toNat * 4
    | .nv12 => (panel.width.toNat + 15) / 16 * 16 := by
  have lt := panel.width_lt
  cases fmt with
  | r5g6b5 =>
    rw [DispPanel.pitchOf, BitVec.toNat_mul]
    exact Nat.mod_eq_of_lt (by simp; omega)
  | a8r8g8b8 =>
    rw [DispPanel.pitchOf, BitVec.toNat_mul]
    exact Nat.mod_eq_of_lt (by simp; omega)
  | nv12 => exact align_toNat lt

theorem DispPanel.pitchOf_fits (fmt : FbFmt) : (panel.pitchOf fmt).toNat < 2 ^ 16 := by
  have lt := panel.width_lt
  rw [panel.pitchOf_toNat]
  cases fmt <;> dsimp only <;> omega

theorem DispPanel.width_twice : (panel.width.setWidth 16).setWidth 32 = panel.width :=
  setWidth_twice (by have := panel.width_lt; omega)

theorem DispPanel.height_twice : (panel.height.setWidth 16).setWidth 32 = panel.height :=
  setWidth_twice (by have := panel.height_lt; omega)

theorem dispModeOf_taken (width : BitVec 16) (taken : DispCmd.Taken panel (.setMode layer pixfmt))
    (info : GraphicInfo) : ∃ fmt bpp pitch, dispModeOf width pixfmt = some (fmt, bpp, pitch) ∧
      ({ info with pixelFormat := pixfmt.setWidth 8 } : GraphicInfo).fmt = some fmt ∧
      (fmt = .a8r8g8b8 ↔ pixfmt = pixelFormatArgb888) ∧
      (fmt = .a8r8g8b8 → bpp = 32 ∧ pitch = width.setWidth 32 * 4) ∧
      (fmt = .nv12 ↔ pixfmt = pixelFormatNv12) ∧
      (width = panel.width.setWidth 16 → pitch = panel.pitchOf fmt) := by
  rcases taken with rfl | rfl | rfl
  · refine ⟨.r5g6b5, 16, width.setWidth 32 * (16 >>> 3), rfl, rfl, by decide, by simp, by decide, ?_⟩
    rintro rfl
    rw [DispPanel.width_twice]
    rfl
  · refine ⟨.a8r8g8b8, 32, width.setWidth 32 * (32 >>> 3), rfl, rfl, by decide, fun _ => ⟨rfl, rfl⟩,
      by decide, ?_⟩
    rintro rfl
    rw [DispPanel.width_twice]
    rfl
  · refine ⟨.nv12, 16, width.setWidth 32 + 16 - 1 &&& ~~~(16 - 1), rfl, rfl, by decide,
      by simp, by decide, ?_⟩
    rintro rfl
    rw [DispPanel.width_twice]
    rfl

theorem dispModeOf_none (width : BitVec 16) (taken : ¬DispCmd.Taken panel (.setMode layer pixfmt)) :
    dispModeOf width pixfmt = none := by
  simp only [DispCmd.Taken, not_or] at taken
  unfold dispModeOf
  rw [if_neg taken.1, if_neg taken.2.1, if_neg taken.2.2]

theorem control_refused {cmd : DispCmd} (taken : ¬cmd.Taken panel) :
    dispLayerControl panel s cmd = (-rtError, s) := by
  cases cmd with
  | setMode layer pixfmt =>
    unfold dispLayerControl
    dsimp only
    rw [dispModeOf_none _ taken]
  | panDisplay layer args =>
    unfold dispLayerControl
    dsimp only
    by_cases null : args = 0
    · exact if_pos null
    · rw [if_neg null]
      have odd : panel.va2pa args % 128 ≠ 0 := fun aligned => taken ⟨null, aligned⟩
      unfold dispSetFbAddr
      rw [if_pos odd]
      rfl

theorem dispSetFbAddr_aligned {addr : U32} {r : DispRegs} (aligned : addr % 128 = 0) :
    dispSetFbAddr layer addr r = (0,
      match layer with
      | .video => { r with
          frameBuffer := r.frameBuffer.startAt addr (dispSizeWidth r.frameBufferSize0)
            (dispSizeHeight r.frameBufferSize0) }
      | .overlay => { r with
          overlay := r.overlay.startAt addr (dispSizeWidth r.overlaySize0)
            (dispSizeHeight r.overlaySize0) }
      | .cursor => { r with cursorAddress := addr }) := by
  unfold dispSetFbAddr
  rw [if_neg (not_not.mpr aligned)]
  cases layer <;> rfl

theorem control_pan {args : U32} (taken : DispCmd.Taken panel (.panDisplay layer args)) :
    dispLayerControl panel s (.panDisplay layer args) =
      (rtEok, { s with regs := (dispSetFbAddr layer (panel.va2pa args) s.regs).2 }) := by
  unfold dispLayerControl
  dsimp only
  rw [if_neg taken.1, dispSetFbAddr_aligned taken.2]
  rfl

theorem DispPanel.width_mul_inj {a b : U32} (small : a.toNat < 2 ^ 16) (small' : b.toNat < 2 ^ 16) :
    panel.width * a = panel.width * b ↔ a = b := by
  have pos := panel.width_pos
  have lt := panel.width_lt
  constructor
  · intro same
    have products := congrArg BitVec.toNat same
    have fits (v : U32) (small : v.toNat < 2 ^ 16) : panel.width.toNat * v.toNat < 2 ^ 32 :=
      Nat.lt_of_lt_of_le (Nat.mul_lt_mul'' lt small) (by decide)
    rw [BitVec.toNat_mul, BitVec.toNat_mul, Nat.mod_eq_of_lt (fits a small),
      Nat.mod_eq_of_lt (fits b small')] at products
    exact BitVec.eq_of_toNat_eq (Nat.eq_of_mul_eq_mul_left pos products)
  · rintro rfl
    rfl

theorem DispPanel.info_overlay : (panel.info .overlay).pitch.setWidth 32 =
      panel.width * (panel.bpp >>> 3) ∧
    ((panel.info .overlay).fmt = some .a8r8g8b8 ↔ panel.bpp = 32) := by
  have rgb := panel.pitchOf_fits .r5g6b5
  have argb := panel.pitchOf_fits .a8r8g8b8
  rcases panel.bpp_cases with bpp | bpp
  · unfold DispPanel.info
    rw [bpp]
    refine ⟨setWidth_twice rgb, ?_⟩
    show some FbFmt.r5g6b5 = some .a8r8g8b8 ↔ (16 : U32) = 32
    decide
  · unfold DispPanel.info
    rw [bpp]
    exact ⟨setWidth_twice argb, iff_of_true rfl rfl⟩

end Modes

section Planes

variable {r : DispRegs} {third : Bool} {addr width height pitch : U32} {p : DispPlanes}

theorem pitched_seen_iff (pos : 0 < width.toNat) (least : width.toNat ≤ pitch.toNat) :
    ((p.pitched pitch height).startAt p.address width height).seen third =
      (p.pitched pitch height).seen third ↔ third = false ∧ pitch = width := by
  cases third with
  | true =>
    refine iff_of_false ?_ (by simp)
    intro same
    have stride : width / 2 = pitch := congrArg DispPlanes.vStride same
    have half := congrArg BitVec.toNat stride
    rw [BitVec.toNat_udiv, show (2 : U32).toNat = 2 from rfl] at half
    omega
  | false =>
    rw [and_iff_right rfl]
    constructor
    · intro same
      exact (congrArg DispPlanes.uStride same : width = pitch).symm
    · rintro rfl
      rfl

theorem settled_video_iff (aligned : addr % 128 = 0) :
    (dispSetFbAddr .video addr r).2.seen third = r.seen third ↔
      (r.frameBuffer.startAt addr (dispSizeWidth r.frameBufferSize0)
        (dispSizeHeight r.frameBufferSize0)).seen third = r.frameBuffer.seen third := by
  rw [dispSetFbAddr_aligned aligned]
  constructor
  · intro same
    exact congrArg DispRegs.frameBuffer same
  · intro same
    unfold DispRegs.seen
    dsimp only
    rw [same]

theorem dispSetFbAddr_again (layer : DispLayer) (aligned : addr % 128 = 0) :
    (dispSetFbAddr layer addr (dispSetFbAddr layer addr r).2).2 = (dispSetFbAddr layer addr r).2 := by
  rw [dispSetFbAddr_aligned aligned, dispSetFbAddr_aligned aligned]
  cases layer <;> rfl

end Planes

namespace DispRun

variable {panel : DispPanel} {third : Bool} {x : DispRun}

structure VideoInv (panel : DispPanel) (x : DispRun) : Prop where
  width : (x.s.info .video).width = panel.width.setWidth 16
  height : (x.s.info .video).height = panel.height.setWidth 16
  sizeWidth : dispSizeWidth x.s.regs.frameBufferSize0 = panel.width
  sizeHeight : dispSizeHeight x.s.regs.frameBufferSize0 = panel.height
  address : x.s.regs.frameBuffer.address = x.panned .video
  aligned : x.panned .video % 128 = 0
  format : ∃ fmt ∈ (x.s.info .video).fmt, x.s.regs.Shows fmt .video
  stride : x.s.regs.frameBuffer.stride = (x.s.info .video).pitch.setWidth 32
  planar : (x.s.info .video).Planar → (x.s.info .video).pitch.setWidth 32 = panel.width

structure OthersInv (panel : DispPanel) (x : DispRun) : Prop where
  overlayInfo : x.s.info .overlay = panel.info .overlay
  cursorInfo : x.s.info .cursor = panel.info .cursor
  overlayFormat : x.s.regs.Shows .a8r8g8b8 .overlay
  overlayStride : x.s.regs.overlay.stride = panel.width * (panel.bpp >>> 3)
  cursorFormat : x.s.regs.Shows .a8r8g8b8 .cursor

theorem shows_unique {r : DispRegs} {fmt fmt' : FbFmt} {layer : DispLayer} (shows : r.Shows fmt layer)
    (shows' : r.Shows fmt' layer) : fmt = fmt' := by
  have inj : fmt.code = fmt'.code → fmt = fmt' := by cases fmt <;> cases fmt' <;> decide
  cases layer with
  | video => exact inj (shows.symm.trans shows')
  | overlay => exact inj (shows.symm.trans shows')
  | cursor => exact shows.1.trans shows'.1.symm

theorem step_setMode {layer : DispLayer} {pixfmt : U32} {fmt : FbFmt} {bpp pitch : U32}
    (mode : dispModeOf (x.s.info layer).width pixfmt = some (fmt, bpp, pitch)) :
    dispLayerControl panel x.s (.setMode layer pixfmt) = (rtEok, {
        info := Function.update x.s.info layer { x.s.info layer with
          bitsPerPixel := bpp.setWidth 8
          pixelFormat := pixfmt.setWidth 8
          pitch := pitch.setWidth 16 }
        regs := (dispSetFbFmt layer fmt ((pitch.setWidth 16).setWidth 32) x.s.regs).2 }) := by
  unfold dispLayerControl
  dsimp only
  rw [mode]

theorem step_pan {layer : DispLayer} {args : U32}
    (taken : DispCmd.Taken panel (.panDisplay layer args)) :
    x.step panel (.panDisplay layer args) = {
      s := { x.s with regs := (dispSetFbAddr layer (panel.va2pa args) x.s.regs).2 }
      panned := Function.update x.panned layer (panel.va2pa args) } := by
  unfold DispRun.step
  rw [control_pan taken]
  rfl

theorem pitchOf_nv12_iff : panel.pitchOf .nv12 = panel.width ↔ 16 ∣ panel.width.toNat := by
  rw [BitVec.toNat_eq, panel.pitchOf_toNat]
  dsimp only
  omega

theorem VideoInv.setMode (inv : VideoInv panel x) {pixfmt : U32}
    (taken : DispCmd.Taken panel (.setMode .video pixfmt)) :
    ((x.step panel (.setMode .video pixfmt)).Laid third .video ↔
        DispCmd.Sound panel third (.setMode .video pixfmt)) ∧
      (DispCmd.Sound panel third (.setMode .video pixfmt) →
        VideoInv panel (x.step panel (.setMode .video pixfmt))) := by
  obtain ⟨fmt, bpp, pitch, mode, infoFmt, argb, values, nv12, pitchOf⟩ := dispModeOf_taken
    (x.s.info .video).width taken (x.s.info .video)
  obtain rfl := pitchOf inv.width
  have fits : ((panel.pitchOf fmt).setWidth 16).setWidth 32 = panel.pitchOf fmt :=
    setWidth_twice (panel.pitchOf_fits fmt)
  have wide := panel.width_lt
  have infoAt : (x.step panel (.setMode .video pixfmt)).s.info .video = { x.s.info .video with
      bitsPerPixel := bpp.setWidth 8
      pixelFormat := pixfmt.setWidth 8
      pitch := (panel.pitchOf fmt).setWidth 16 } := by
    unfold DispRun.step
    rw [step_setMode mode]
    exact Function.update_self DispLayer.video _ x.s.info
  have regs : (x.step panel (.setMode .video pixfmt)).s.regs =
      (dispSetFbFmt .video fmt (panel.pitchOf fmt) x.s.regs).2 := by
    unfold DispRun.step
    rw [step_setMode mode, fits]
  have panned : (x.step panel (.setMode .video pixfmt)).panned = x.panned := rfl
  generalize x.step panel (.setMode .video pixfmt) = y at infoAt regs panned ⊢
  have info : (y.s.info .video).fmt = some fmt := infoAt ▸ infoFmt
  have planar : (y.s.info .video).Planar ↔ pixfmt = pixelFormatNv12 := by
    rw [GraphicInfo.Planar, info, Option.some.injEq]
    exact nv12
  have pitch : (y.s.info .video).pitch.setWidth 32 = panel.pitchOf fmt := infoAt ▸ fits
  have height : (y.s.info .video).height.setWidth 32 = panel.height := by
    rw [infoAt]
    exact inv.height ▸ DispPanel.height_twice
  have frame : y.s.regs.frameBuffer =
      x.s.regs.frameBuffer.pitched (panel.pitchOf fmt) panel.height := by
    rw [regs, ← inv.sizeHeight]
    rfl
  have size : y.s.regs.frameBufferSize0 = panel.height <<< 15 ||| panel.width := by
    rw [regs, ← inv.sizeHeight, ← inv.sizeWidth]
    rfl
  have sizeWidth : dispSizeWidth y.s.regs.frameBufferSize0 = panel.width :=
    size ▸ dispSizeWidth_pack (by omega)
  have sizeHeight : dispSizeHeight y.s.regs.frameBufferSize0 = panel.height :=
    size ▸ dispSizeHeight_pack (by omega) panel.height_lt
  have address : y.s.regs.frameBuffer.address = y.panned .video := by
    rw [frame, panned, ← inv.address]
    rfl
  have format : y.s.regs.Shows fmt .video := regs ▸ format_written fmt x.s.regs.frameBufferConfig0
  have settled : (dispSetFbAddr .video (y.panned .video) y.s.regs).2.seen third =
      y.s.regs.seen third ↔ third = false ∧ panel.pitchOf fmt = panel.width := by
    have least : panel.width.toNat ≤ (panel.pitchOf fmt).toNat := by
      rw [panel.pitchOf_toNat]
      cases fmt <;> dsimp only <;> omega
    rw [settled_video_iff (panned ▸ inv.aligned), sizeWidth, sizeHeight, frame, panned,
      ← inv.address]
    exact pitched_seen_iff panel.width_pos least
  constructor
  · constructor
    · intro laid new
      have both := settled.mp (laid.settled (planar.mpr new))
      rw [nv12.mpr new, pitchOf_nv12_iff] at both
      exact both
    · intro sound
      refine ⟨⟨fmt, info, format⟩, ?_, ?_, ?_⟩
      · rw [pitch]
        exact congrArg DispPlanes.stride frame
      · intro _
        rw [pitch, height, DispRegs.chroma, frame, panned, ← inv.address]
        rfl
      · intro new
        have both := sound (planar.mp new)
        rw [← pitchOf_nv12_iff, ← nv12.mpr (planar.mp new)] at both
        exact settled.mpr both
  · intro sound
    refine ⟨?_, ?_, sizeWidth, sizeHeight, address, panned ▸ inv.aligned, ⟨fmt, info, format⟩, ?_, ?_⟩
    · rw [infoAt]
      exact inv.width
    · rw [infoAt]
      exact inv.height
    · rw [pitch]
      exact congrArg DispPlanes.stride frame
    · intro new
      have both := sound (planar.mp new)
      rw [pitch, nv12.mpr (planar.mp new), pitchOf_nv12_iff]
      exact both.2

theorem VideoInv.pan (inv : VideoInv panel x) {args : U32}
    (taken : DispCmd.Taken panel (.panDisplay .video args)) :
    (x.step panel (.panDisplay .video args)).Laid third .video ∧
      VideoInv panel (x.step panel (.panDisplay .video args)) := by
  have panned : (x.step panel (.panDisplay .video args)).panned .video = panel.va2pa args := by
    rw [step_pan taken]
    exact Function.update_self DispLayer.video _ x.panned
  have regs : (x.step panel (.panDisplay .video args)).s.regs =
      (dispSetFbAddr .video (panel.va2pa args) x.s.regs).2 := by
    rw [step_pan taken]
  have info : (x.step panel (.panDisplay .video args)).s.info = x.s.info := by rw [step_pan taken]
  generalize x.step panel (.panDisplay .video args) = y at panned regs info ⊢
  have aligned := taken.2
  rw [dispSetFbAddr_aligned aligned] at regs
  have frame : y.s.regs.frameBuffer =
      x.s.regs.frameBuffer.startAt (panel.va2pa args) panel.width panel.height := by
    rw [regs, ← inv.sizeWidth, ← inv.sizeHeight]
  have format : ∃ fmt ∈ (y.s.info .video).fmt, y.s.regs.Shows fmt .video := by
    rw [info, regs]
    exact inv.format
  have stride : y.s.regs.frameBuffer.stride = (y.s.info .video).pitch.setWidth 32 := by
    rw [info, frame]
    exact inv.stride
  constructor
  · refine ⟨format, stride, ?_, ?_⟩
    · intro planar
      rw [info] at planar ⊢
      rw [inv.planar planar, inv.height, DispPanel.height_twice, DispRegs.chroma, frame, panned]
      rfl
    · intro _
      have again := dispSetFbAddr_again (r := x.s.regs) .video aligned
      rw [dispSetFbAddr_aligned aligned (r := x.s.regs), ← regs] at again
      rw [panned, again]
  · refine ⟨?_, ?_, ?_, ?_, ?_, panned ▸ aligned, format, stride, ?_⟩
    · rw [info]
      exact inv.width
    · rw [info]
      exact inv.height
    · rw [regs]
      exact inv.sizeWidth
    · rw [regs]
      exact inv.sizeHeight
    · rw [frame, panned]
      rfl
    · rw [info]
      exact inv.planar

theorem VideoInv.of_same (inv : VideoInv panel x) {y : DispRun}
    (info : y.s.info .video = x.s.info .video)
    (config : y.s.regs.frameBufferConfig0 = x.s.regs.frameBufferConfig0)
    (size : y.s.regs.frameBufferSize0 = x.s.regs.frameBufferSize0)
    (frame : y.s.regs.frameBuffer = x.s.regs.frameBuffer)
    (panned : y.panned .video = x.panned .video) : VideoInv panel y where
  width := info ▸ inv.width
  height := info ▸ inv.height
  sizeWidth := size ▸ inv.sizeWidth
  sizeHeight := size ▸ inv.sizeHeight
  address := by rw [frame, panned, inv.address]
  aligned := panned ▸ inv.aligned
  format := by
    obtain ⟨fmt, of, shows⟩ := inv.format
    simp only [DispRegs.Shows, ← config] at shows
    exact ⟨fmt, info ▸ of, shows⟩
  stride := by rw [frame, info, inv.stride]
  planar := info ▸ inv.planar

theorem OthersInv.of_same (inv : OthersInv panel x) {y : DispRun}
    (overlay : y.s.info .overlay = x.s.info .overlay)
    (cursor : y.s.info .cursor = x.s.info .cursor)
    (overlayConfig : y.s.regs.overlayConfig0 = x.s.regs.overlayConfig0)
    (overlayStride : y.s.regs.overlay.stride = x.s.regs.overlay.stride)
    (cursorConfig : y.s.regs.cursorConfig = x.s.regs.cursorConfig) : OthersInv panel y where
  overlayInfo := overlay.trans inv.overlayInfo
  cursorInfo := cursor.trans inv.cursorInfo
  overlayFormat := by
    have format := inv.overlayFormat
    simp only [DispRegs.Shows, overlayConfig] at format ⊢
    exact format
  overlayStride := overlayStride.trans inv.overlayStride
  cursorFormat := by
    have format := inv.cursorFormat
    simp only [DispRegs.Shows, cursorConfig] at format ⊢
    exact format

theorem laid_iff_of_argb {layer : DispLayer} (shows : x.s.regs.Shows .a8r8g8b8 layer) :
    x.Laid third layer ↔ (x.s.info layer).fmt = some .a8r8g8b8 ∧
      x.s.regs.stride layer = (x.s.info layer).pitch.setWidth 32 := by
  constructor
  · intro laid
    obtain ⟨fmt, info, format⟩ := laid.format
    rw [shows_unique shows format]
    exact ⟨info, laid.stride⟩
  · rintro ⟨info, stride⟩
    have flat : ¬(x.s.info layer).Planar := by
      rw [GraphicInfo.Planar, info]
      decide
    exact ⟨⟨.a8r8g8b8, info, shows⟩, stride, fun planar => absurd planar flat,
      fun planar => absurd planar flat⟩

theorem step_setMode_other {layer : DispLayer} (other : layer ≠ .video) {pixfmt : U32} {fmt : FbFmt}
    {bpp pitch : U32} (mode : dispModeOf (x.s.info layer).width pixfmt = some (fmt, bpp, pitch)) :
    x.step panel (.setMode layer pixfmt) = {
      s := { x.s with info := Function.update x.s.info layer { x.s.info layer with
        bitsPerPixel := bpp.setWidth 8
        pixelFormat := pixfmt.setWidth 8
        pitch := pitch.setWidth 16 } }
      panned := x.panned } := by
  unfold DispRun.step
  rw [step_setMode mode]
  cases layer with
  | video => exact absurd rfl other
  | overlay => rfl
  | cursor => rfl

theorem OthersInv.setMode_overlay (inv : OthersInv panel x) {pixfmt : U32}
    (taken : DispCmd.Taken panel (.setMode .overlay pixfmt)) :
    ((x.step panel (.setMode .overlay pixfmt)).Laid third .overlay ↔
        DispCmd.Sound panel third (.setMode .overlay pixfmt)) ∧
      (DispCmd.Sound panel third (.setMode .overlay pixfmt) →
        OthersInv panel (x.step panel (.setMode .overlay pixfmt))) := by
  obtain ⟨fmt, bpp, pitch, mode, infoFmt, argb, values, nv12, pitchOf⟩ := dispModeOf_taken
    (x.s.info .overlay).width taken (x.s.info .overlay)
  have width : (x.s.info .overlay).width = panel.width.setWidth 16 := inv.overlayInfo ▸ rfl
  obtain rfl := pitchOf width
  have fits : ((panel.pitchOf fmt).setWidth 16).setWidth 32 = panel.pitchOf fmt :=
    setWidth_twice (panel.pitchOf_fits fmt)
  have step := @step_setMode_other panel x _ (by decide) _ _ _ _ mode
  have infoAt := congrArg (fun y => y.s.info .overlay) step
  simp only [Function.update_self] at infoAt
  have cursor : (x.step panel (.setMode .overlay pixfmt)).s.info .cursor = x.s.info .cursor := by
    rw [step]
    rfl
  have regs : (x.step panel (.setMode .overlay pixfmt)).s.regs = x.s.regs := by rw [step]
  clear step
  generalize x.step panel (.setMode .overlay pixfmt) = y at infoAt cursor regs ⊢
  have info : (y.s.info .overlay).fmt = some fmt := infoAt ▸ infoFmt
  have pitch : (y.s.info .overlay).pitch.setWidth 32 = panel.pitchOf fmt := infoAt ▸ fits
  have bits : panel.bpp >>> 3 = 4 ↔ panel.bpp = 32 := by
    rcases panel.bpp_cases with bpp | bpp <;> rw [bpp] <;> decide
  have few : (panel.bpp >>> 3).toNat < 2 ^ 16 := by
    rcases panel.bpp_cases with bpp | bpp <;> rw [bpp] <;> decide
  constructor
  · rw [laid_iff_of_argb (regs ▸ inv.overlayFormat), info, Option.some.injEq, pitch]
    rw [DispRegs.stride, regs, inv.overlayStride]
    constructor
    · rintro ⟨rfl, stride⟩
      exact ⟨bits.mp ((DispPanel.width_mul_inj few (by decide)).mp stride), argb.mp rfl⟩
    · rintro ⟨wide, new⟩
      obtain rfl := argb.mpr new
      exact ⟨rfl, (DispPanel.width_mul_inj few (by decide)).mpr (bits.mpr wide)⟩
  · rintro ⟨wide, new⟩
    obtain rfl := argb.mpr new
    have same : y.s.info .overlay = x.s.info .overlay := by
      rw [infoAt, inv.overlayInfo, (values rfl).1, new]
      unfold DispPanel.info
      rw [wide]
      rfl
    exact inv.of_same same cursor (by rw [regs]) (by rw [regs]) (by rw [regs])

theorem OthersInv.setMode_cursor (inv : OthersInv panel x) {pixfmt : U32}
    (taken : DispCmd.Taken panel (.setMode .cursor pixfmt)) :
    ((x.step panel (.setMode .cursor pixfmt)).Laid third .cursor ↔
        DispCmd.Sound panel third (.setMode .cursor pixfmt)) ∧
      (DispCmd.Sound panel third (.setMode .cursor pixfmt) →
        OthersInv panel (x.step panel (.setMode .cursor pixfmt))) := by
  obtain ⟨fmt, bpp, pitch, mode, infoFmt, argb, values, nv12, -⟩ := dispModeOf_taken
    (x.s.info .cursor).width taken (x.s.info .cursor)
  have step := @step_setMode_other panel x _ (by decide) _ _ _ _ mode
  have infoAt := congrArg (fun y => y.s.info .cursor) step
  simp only [Function.update_self] at infoAt
  have overlay : (x.step panel (.setMode .cursor pixfmt)).s.info .overlay = x.s.info .overlay := by
    rw [step]
    rfl
  have regs : (x.step panel (.setMode .cursor pixfmt)).s.regs = x.s.regs := by rw [step]
  clear step
  generalize x.step panel (.setMode .cursor pixfmt) = y at infoAt overlay regs ⊢
  have info : (y.s.info .cursor).fmt = some fmt := infoAt ▸ infoFmt
  have same (new : pixfmt = pixelFormatArgb888) : y.s.info .cursor = x.s.info .cursor := by
    rw [infoAt, (values (argb.mpr new)).1, (values (argb.mpr new)).2, inv.cursorInfo, new]
    rfl
  constructor
  · rw [laid_iff_of_argb (regs ▸ inv.cursorFormat), info, Option.some.injEq]
    constructor
    · rintro ⟨shown, -⟩
      exact argb.mp shown
    · intro new
      rw [same new, inv.cursorInfo]
      exact ⟨argb.mpr new, rfl⟩
  · intro new
    exact inv.of_same overlay (same new) (by rw [regs]) (by rw [regs]) (by rw [regs])

theorem OthersInv.pan (inv : OthersInv panel x) {layer : DispLayer} {args : U32}
    (taken : DispCmd.Taken panel (.panDisplay layer args)) :
    OthersInv panel (x.step panel (.panDisplay layer args)) := by
  rw [step_pan taken, dispSetFbAddr_aligned taken.2]
  cases layer with
  | video => exact inv.of_same rfl rfl rfl rfl rfl
  | overlay => exact inv.of_same rfl rfl rfl rfl rfl
  | cursor => exact inv.of_same rfl rfl rfl rfl rfl

theorem OthersInv.overlay_laid_iff (inv : OthersInv panel x) :
    x.Laid third .overlay ↔ panel.bpp = 32 := by
  rw [laid_iff_of_argb inv.overlayFormat, inv.overlayInfo, panel.info_overlay.2]
  exact and_iff_left (inv.overlayStride.trans panel.info_overlay.1.symm)

theorem OthersInv.cursor_laid (inv : OthersInv panel x) : x.Laid third .cursor := by
  rw [laid_iff_of_argb inv.cursorFormat, inv.cursorInfo]
  exact ⟨rfl, rfl⟩

def Inv (panel : DispPanel) (x : DispRun) : Prop := VideoInv panel x ∧ OthersInv panel x

theorem step_refused {cmd : DispCmd} (taken : ¬cmd.Taken panel) : x.step panel cmd = x := by
  unfold DispRun.step
  rw [control_refused taken]
  cases cmd <;> rfl

theorem control_success {cmd : DispCmd} :
    (dispLayerControl panel x.s cmd).1 = rtEok ↔ cmd.Taken panel := by
  by_cases taken : cmd.Taken panel
  · refine iff_of_true ?_ taken
    cases cmd with
    | setMode layer pixfmt =>
      obtain ⟨fmt, bpp, pitch, mode, -⟩ := dispModeOf_taken (x.s.info layer).width taken
        (x.s.info layer)
      rw [step_setMode mode]
    | panDisplay layer args => rw [control_pan taken]
  · rw [control_refused taken]
    exact iff_of_false (show -rtError ≠ rtEok by decide) taken

/-- One command: exactly the sound ones leave their layer laid out, and these keep the invariants. -/
theorem Inv.step (inv : Inv panel x) {cmd : DispCmd} (taken : cmd.Taken panel) :
    ((x.step panel cmd).Laid third cmd.layer ↔ cmd.Sound panel third) ∧
      (cmd.Sound panel third → Inv panel (x.step panel cmd)) := by
  obtain ⟨video, others⟩ := inv
  cases cmd with
  | setMode layer pixfmt =>
    obtain ⟨fmt, bpp, pitch, mode, -⟩ := dispModeOf_taken (x.s.info layer).width taken
      (x.s.info layer)
    cases layer with
    | video =>
      obtain ⟨laid, kept⟩ := video.setMode taken
      refine ⟨laid, fun sound => ⟨kept sound, others.of_same ?_ ?_ ?_ ?_ ?_⟩⟩ <;>
        (unfold DispRun.step; rw [step_setMode mode]; rfl)
    | overlay =>
      obtain ⟨laid, kept⟩ := others.setMode_overlay taken
      refine ⟨laid, fun sound => ⟨?_, kept sound⟩⟩
      rw [step_setMode_other (by decide) mode]
      exact video.of_same rfl rfl rfl rfl rfl
    | cursor =>
      obtain ⟨laid, kept⟩ := others.setMode_cursor taken
      refine ⟨laid, fun sound => ⟨?_, kept sound⟩⟩
      rw [step_setMode_other (by decide) mode]
      exact video.of_same rfl rfl rfl rfl rfl
  | panDisplay layer args =>
    have others' := others.pan taken
    cases layer with
    | video =>
      obtain ⟨laid, kept⟩ := video.pan taken
      exact ⟨iff_of_true laid trivial, fun _ => ⟨kept, others'⟩⟩
    | overlay =>
      refine ⟨others'.overlay_laid_iff, fun _ => ⟨?_, others'⟩⟩
      rw [step_pan taken, dispSetFbAddr_aligned taken.2]
      exact video.of_same rfl rfl rfl rfl rfl
    | cursor =>
      refine ⟨iff_of_true others'.cursor_laid trivial, fun _ => ⟨?_, others'⟩⟩
      rw [step_pan taken, dispSetFbAddr_aligned taken.2]
      exact video.of_same rfl rfl rfl rfl rfl

theorem start_regs (panel : DispPanel) (before : DispRegs) {fmt : FbFmt}
    (shown : (if panel.bpp = 32 then FbFmt.a8r8g8b8 else .r5g6b5) = fmt) :
    (start panel before).s.regs = dispLayerOpen {
      frameBufferConfig0 := fmt.code <<< 26 ||| (1 <<< 14 : U32) ||| dispConfigReset
      frameBufferSize0 := panel.height <<< 15 ||| panel.width
      frameBuffer := { before.frameBuffer with
        stride := panel.width * (fmt.dispGetBitPerPixel >>> 3) }.startAt (panel.buffer .video)
          panel.width panel.height
      overlayConfig0 := FbFmt.a8r8g8b8.code <<< 16 ||| (1 <<< 5 : U32)
      overlaySize0 := panel.height <<< 15 ||| panel.width
      overlay := { before.overlay with
        stride := panel.width * (fmt.dispGetBitPerPixel >>> 3) }.startAt (panel.buffer .overlay)
          panel.width panel.height
      cursorConfig := (4 <<< 16 : U32) ||| (4 <<< 8 : U32)
      cursorAddress := panel.buffer .cursor } := by
  have video := panel.buffer_aligned .video
  have overlay := panel.buffer_aligned .overlay
  have first : (dispSetFbConfig .video fmt panel.width panel.height (panel.buffer .video) before) = _ :=
    if_neg (not_not.mpr video)
  have second (r : DispRegs) :
      (dispSetFbConfig .overlay fmt panel.width panel.height (panel.buffer .overlay) r) = _ :=
    if_neg (not_not.mpr overlay)
  unfold DispRun.start DispPanel.start
  rw [shown]
  dsimp only
  rw [first]
  dsimp only
  rw [second]
  rfl

theorem start_inv (panel : DispPanel) (before : DispRegs) : Inv panel (start panel before) := by
  have wide := panel.width_lt
  obtain ⟨fmt, shown⟩ : ∃ fmt, (if panel.bpp = 32 then FbFmt.a8r8g8b8 else .r5g6b5) = fmt := ⟨_, rfl⟩
  have regs := start_regs panel before shown
  have size : (start panel before).s.regs.frameBufferSize0 =
      panel.height <<< 15 ||| panel.width := by
    rw [regs]
    rfl
  have bits : fmt.dispGetBitPerPixel >>> 3 = panel.bpp >>> 3 := by
    subst shown
    rcases panel.bpp_cases with bpp | bpp <;> rw [bpp] <;> decide
  have pitch : (panel.info .video).pitch.setWidth 32 = panel.width * (panel.bpp >>> 3) :=
    panel.info_overlay.1
  have info : (panel.info .video).fmt = some fmt := by
    unfold DispPanel.info
    subst shown
    split_ifs <;> rfl
  have plain : fmt ≠ .nv12 := by
    subst shown
    split_ifs <;> decide
  have format : (start panel before).s.regs.Shows fmt .video := by
    rw [regs]
    show ((maskedWrite dispConfigTransparencyMsk (1 <<< 9)
      (fmt.code <<< 26 ||| (1 <<< 14 : U32) ||| dispConfigReset) ||| dispConfigOutput) &&&
        dispConfigFormatMsk) >>> 26 = fmt.code
    cases fmt <;> decide
  constructor
  · refine ⟨rfl, rfl, size ▸ dispSizeWidth_pack (by omega),
      size ▸ dispSizeHeight_pack (by omega) panel.height_lt, ?_, panel.buffer_aligned .video,
      ⟨fmt, info, format⟩, ?_, ?_⟩
    · rw [regs]
      rfl
    · rw [regs]
      exact (congrArg (panel.width * ·) bits).trans pitch.symm
    · intro planar
      exact absurd (Option.some.inj (info.symm.trans planar)) plain
  · refine ⟨rfl, rfl, ?_, ?_, ?_⟩
    · rw [regs]
      show (maskedWrite dispOverlayEnable dispOverlayEnable (maskedWrite 3 0
        (FbFmt.a8r8g8b8.code <<< 16 ||| (1 <<< 5 : U32))) &&& dispOverlayFormatMsk) >>> 16 =
          FbFmt.a8r8g8b8.code
      decide
    · rw [regs]
      exact congrArg (panel.width * ·) bits
    · rw [regs]
      exact ⟨rfl, MaskedWrite.read_back (by decide)⟩

theorem lays_iff (inv : Inv panel x) (cmd : DispCmd) :
    Lays panel third x cmd ↔ (cmd.Taken panel → cmd.Sound panel third) := by
  unfold Lays
  rw [control_success]
  exact forall_congr' fun taken => (inv.step taken).1

end DispRun

open DispRun in
/-- In a run from the start every successful command leaves its layer laid out exactly if every command
that the driver takes is a sound one, with or without the registers of the third plane. -/
theorem disp_layout_iff (panel : DispPanel) (third : Bool) (before : DispRegs) (cmds : List DispCmd) :
    Runs.StepsMeet (DispRun.step panel) (Lays panel third) (start panel before) cmds ↔
      ∀ cmd ∈ cmds, cmd.Taken panel → cmd.Sound panel third := by
  rw [Runs.stepsMeet_congr (Inv panel) (fun x cmd inv => lays_iff inv cmd) ?_
    (start_inv panel before) cmds]
  · exact Runs.stepsMeet_always
  · intro x cmd inv sound
    by_cases taken : cmd.Taken panel
    · exact (inv.step taken).2 (sound taken)
    · rw [step_refused taken]
      exact inv

def panel1000 : DispPanel where
  uncacheable := 0
  bpp := 32
  width := 1000
  height := 600
  buffer := fun _ => 0x80100000
  bpp_cases := .inr rfl
  width_pos := by decide
  width_lt := by decide
  height_lt := by decide
  buffer_aligned := fun _ => by decide

/-- After NV12 and a pan, the chroma stride is 1000 and not 1008. -/
theorem chroma_by_width : ¬Runs.StepsMeet (DispRun.step panel1000) (DispRun.Lays panel1000 false)
    (DispRun.start panel1000 ⟨0, 0, ⟨0, 0, 0, 0, 0, 0⟩, 0, 0, ⟨0, 0, 0, 0, 0, 0⟩, 0, 0⟩)
    [.setMode .video pixelFormatNv12, .panDisplay .video 0x80200000] := by
  intro met
  have second := met [.setMode .video pixelFormatNv12] _ (List.prefix_refl _) rfl
  exact absurd (second.chroma rfl) (by decide)

end NuMakerMA35
