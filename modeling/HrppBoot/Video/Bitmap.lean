import Mathlib.Data.UInt

/-!
# Bitmaps on the framebuffer

`video_display_bitmap` for images with 8 bits per pixel, from an uncompressed file or, with
`CONFIG_VIDEO_BMP_RLE8`, from an RLE8 file, in builds without `CONFIG_VIDEO_BMP_GZIP` and
`VIDEO_FB_16BPP_PIXEL_SWAP`. Both renderers only write whole pixels, so the frame buffer is
modelled by the values of its pixels, counted from `video_fb_address`. Sizes and positions of
images that fit into the address space do not overflow the `int` and `long` variables; the `ushort`
variables are cut to their 16 bits as in the source.
-/

namespace HrppBoot.Video

/-! ## Colours -/

/-- `VIDEO_DATA_FORMAT` -/
inductive DataFormat where
  /-- `GDF__8BIT_INDEX` -/
  | index8
  /-- `GDF__8BIT_332RGB` -/
  | rgb332
  /-- `GDF_15BIT_555RGB` -/
  | rgb555
  /-- `GDF_16BIT_565RGB` -/
  | rgb565
  /-- `GDF_32BIT_X888RGB` -/
  | rgbX888
  /-- `GDF_24BIT_888RGB` -/
  | rgb888
  deriving DecidableEq, Repr

/-- `struct bmp_color_table_entry` -/
structure ColorTableEntry where
  blue : UInt8
  green : UInt8
  red : UInt8
  deriving DecidableEq, Repr

/-- A display. -/
structure Display where
  /-- `VIDEO_VISIBLE_COLS`, which `VIDEO_COLS` is as well. -/
  cols : Nat
  /-- `VIDEO_VISIBLE_ROWS`, which `VIDEO_ROWS` is as well. -/
  rows : Nat
  format : DataFormat
  littleEndian : Bool
  splashScreenAlign : Bool
  cols_lt : cols < 2 ^ 16
  rows_lt : rows < 2 ^ 16

section Colors

variable (display : Display)

def swap16 (value : UInt32) : UInt32 :=
  if display.littleEndian then ((value &&& 0xff) <<< 8) ||| (value >>> 8) else value

def swap32 (value : UInt32) : UInt32 :=
  if display.littleEndian then
    ((value &&& 0xff) <<< 24) ||| ((value &&& 0xff00) <<< 8) ||| ((value &&& 0xff0000) >>> 8) |||
      ((value &&& 0xff000000) >>> 24)
  else value

def fill8Bit332Rgb (r g b : UInt32) : UInt32 :=
  ((r >>> 5) <<< 5) ||| ((g >>> 5) <<< 2) ||| (b >>> 6)

def fill15Bit555Rgb (r g b : UInt32) : UInt32 :=
  swap16 display (((r >>> 3) <<< 10) ||| ((g >>> 3) <<< 5) ||| (b >>> 3))

def fill16Bit565Rgb (r g b : UInt32) : UInt32 :=
  swap16 display (((r >>> 3) <<< 11) ||| ((g >>> 2) <<< 5) ||| (b >>> 3))

def fill32BitX888Rgb (r g b : UInt32) : UInt32 :=
  swap32 display ((r <<< 16) ||| (g <<< 8) ||| b)

/-- `FILL_24BIT_888RGB`, the first byte as the lowest. -/
def fill24Bit888Rgb (r g b : UInt32) : UInt32 :=
  if display.littleEndian then b ||| (g <<< 8) ||| (r <<< 16) else r ||| (g <<< 8) ||| (b <<< 16)

/-- The pixel an uncompressed bitmap gets for a colour index. -/
def rawPixel (colorTable : UInt8 → ColorTableEntry) (index : UInt8) : UInt32 :=
  let cte := colorTable index
  let (r, g, b) := (cte.red.toUInt32, cte.green.toUInt32, cte.blue.toUInt32)
  match display.format with
  | .index8 => index.toUInt32
  | .rgb332 => fill8Bit332Rgb r g b
  | .rgb555 => fill15Bit555Rgb display r g b
  | .rgb565 => fill16Bit565Rgb display r g b
  | .rgbX888 => fill32BitX888Rgb display r g b
  | .rgb888 => fill24Bit888Rgb display r g b

/-- The 16-bit entry of the pre-calculated palette. -/
def paletteWord (greenShift redOff : UInt32) (cte : ColorTableEntry) : UInt32 :=
  swap16 display (((cte.red.toUInt32 >>> 3) <<< redOff) |||
    ((cte.green.toUInt32 >>> greenShift) <<< 5) ||| (cte.blue.toUInt32 >>> 3))

/-- The 32-bit entry of the pre-calculated palette. -/
def paletteDword (cte : ColorTableEntry) : UInt32 :=
  swap32 display ((cte.red.toUInt32 <<< 16) ||| (cte.green.toUInt32 <<< 8) ||| cte.blue.toUInt32)

/-- The palette `p`: its entries below `ncolors` are set, the others are left as they lie on the
stack. -/
def palette (ncolors : Nat) (colorTable : UInt8 → ColorTableEntry) (stack : UInt8 → UInt32)
    (entry : ColorTableEntry → UInt32) (index : UInt8) : UInt32 :=
  if index.toNat < ncolors then entry (colorTable index) else stack index

/-- The pixel `draw_bitmap` stores for a colour index; `none` where RLE8 bitmaps are not
supported. -/
def rlePixel (ncolors : Nat) (colorTable : UInt8 → ColorTableEntry) (stack : UInt8 → UInt32) :
    Option (UInt8 → UInt32) :=
  match display.format with
  | .index8 => some fun index => index.toUInt32
  | .rgb555 => some (palette ncolors colorTable stack (paletteWord display 3 10))
  | .rgb565 => some (palette ncolors colorTable stack (paletteWord display 2 11))
  | .rgbX888 => some (palette ncolors colorTable stack (paletteDword display))
  | .rgb332 | .rgb888 => none

end Colors

/-! ## Files -/

/-- A bitmap file in memory, with 8 bits per pixel, and fields of its `header`. -/
structure Bmp where
  signature : UInt8 × UInt8
  width : Nat
  height : Nat
  compression : Nat
  colorsUsed : Nat
  colorTable : UInt8 → ColorTableEntry
  /-- The memory from `header.data_offset` on. -/
  data : Nat → UInt8

def bmpBiRgb : Nat := 0

def bmpBiRle8 : Nat := 1

/-- What is on the display. -/
structure Shown where
  /-- The pixels, from `video_fb_address` on. -/
  pixels : Int → UInt32
  /-- The calls of `video_set_lut`. -/
  lut : List (Nat × ColorTableEntry)

/-- The calls of `video_set_lut` for the colours of a file. -/
def setLut (colors : Nat) (colorTable : UInt8 → ColorTableEntry) : List (Nat × ColorTableEntry) :=
  (List.range colors).map fun i => (i, colorTable (UInt8.ofNat i))

/-! ## Uncompressed bitmaps -/

section Raw

variable (pixel : UInt8 → UInt32) (data : Nat → UInt8)

/-- The loop over a line, with `xcount` pixels to go. -/
def drawLine : (xcount : Nat) → (fb : Int) → (bmap : Nat) → (Int → UInt32) → Int → UInt32
  | 0, _, _, pixels => pixels
  | xcount + 1, fb, bmap, pixels =>
    drawLine xcount (fb + 1) (bmap + 1) (Function.update pixels fb (pixel (data bmap)))

/-- The loop over the lines, from the first in the file on, with `ycount` lines to go. -/
def drawLines (cols width paddedLine : Nat) :
    (ycount : Nat) → (fb : Int) → (bmap : Nat) → (Int → UInt32) → Int → UInt32
  | 0, _, _, pixels => pixels
  | ycount + 1, fb, bmap, pixels =>
    let xcount : Nat := width % 2 ^ 16
    drawLines cols width paddedLine ycount (fb + xcount - (cols + width))
      (bmap + xcount + paddedLine) (drawLine pixel data xcount fb bmap pixels)

end Raw

/-! ## RLE8 bitmaps -/

/-- `draw_bitmap`, from the `i`th pixel of a run on: the pixels and `*fb` behind it. -/
def drawBitmap (pixel : UInt8 → UInt32) (bm : Nat → UInt8) (enc : Bool) :
    (left i : Nat) → (fb : Int) → (Int → UInt32) → (Int → UInt32) × Int
  | 0, _, fb, pixels => (pixels, fb)
  | left + 1, i, fb, pixels =>
    let off := if enc then 1 else i
    drawBitmap pixel bm enc left (i + 1) (fb + 1) (Function.update pixels fb (pixel (bm off)))

/-- The variables of the loop of `display_rle8_bitmap`. -/
structure Rle where
  /-- `bm`, from the data of the bitmap on. -/
  bm : Nat
  x : Nat
  y : Int
  /-- `fbp`, in pixels. -/
  fbp : Int
  /-- `pixels` -/
  count : Nat
  pixels : Int → UInt32

/-- What a turn of the loop leads to. -/
inductive RleTurn where
  | go (next : Rle)
  | done (pixels : Int → UInt32)
  | error (pixels : Int → UInt32)

section Rle8

variable (display : Display) (xoff yoff : Nat) (width height : Nat) (pixel : UInt8 → UInt32)
  (data : Nat → UInt8)

/-- The address of a pixel of the image. -/
def rleAddress (x : Nat) (y : Int) : Int := (y + yoff) * display.cols + x + xoff

/-- A run of `runlen` pixels with its data at `bm`, and `bm` behind it. -/
def rleRun (s : Rle) (runlen bm : Nat) (enc : Bool) (behind : Nat) : RleTurn :=
  let count := s.count + runlen
  if display.cols * display.rows < count then .error s.pixels
  else if s.y < height then
    if width ≤ s.x then .go { s with bm := behind, x := s.x + runlen, count := count }
    else
      let cnt := if width < s.x + runlen then width - s.x else runlen
      let drawn := drawBitmap pixel (fun i => data (bm + i)) enc cnt 0 s.fbp s.pixels
      .go { s with
        bm := behind, x := s.x + runlen, count := count, pixels := drawn.1, fbp := drawn.2 }
  else .go { s with bm := behind, count := count }

/-- One turn of the loop of `display_rle8_bitmap`. -/
def rleTurn (s : Rle) : RleTurn :=
  let first := data s.bm
  let second := data (s.bm + 1)
  if first = 0 then
    if second = 0 then
      .go { s with
        bm := s.bm + 2, x := 0, y := s.y - 1, fbp := rleAddress display xoff yoff 0 (s.y - 1) }
    else if second = 1 then .done s.pixels
    else if second = 2 then
      let x := s.x + (data (s.bm + 2)).toNat
      let y := s.y - (data (s.bm + 3)).toNat
      .go { s with bm := s.bm + 4, x := x, y := y, fbp := rleAddress display xoff yoff x y }
    else
      let runlen := second.toNat
      rleRun display width height pixel data s runlen (s.bm + 2) false
        (s.bm + 2 + runlen + runlen % 2)
  else rleRun display width height pixel data s first.toNat s.bm true (s.bm + 2)

/-- The loop of `display_rle8_bitmap`: the pixels and the result. -/
def rleLoop : (fuel : Nat) → Rle → Option ((Int → UInt32) × Int)
  | 0, _ => none
  | fuel + 1, s =>
    match rleTurn display xoff yoff width height pixel data s with
    | .go next => rleLoop fuel next
    | .done pixels => some (pixels, 0)
    | .error pixels => some (pixels, -1)

end Rle8

/-- The calls of `video_set_lut` for a file. -/
def lutOf (display : Display) (bmp : Bmp) : List (Nat × ColorTableEntry) :=
  if display.format = .index8 then setLut bmp.colorsUsed bmp.colorTable else []

/-- `display_rle8_bitmap`; `stack` is what lies where `p` does. -/
def displayRle8Bitmap (fuel : Nat) (display : Display) (stack : UInt8 → UInt32) (img : Bmp)
    (xoff yoff width height : Nat) (shown : Shown) : Option (Shown × Int) :=
  let y : Int := (img.height : Int) - 1
  match rlePixel display img.colorsUsed img.colorTable stack with
  | none => some (shown, -1)
  | some pixel => do
    let (pixels, result) ← rleLoop display xoff yoff width height pixel img.data fuel
      ⟨0, 0, y, rleAddress display xoff yoff 0 y, 0, shown.pixels⟩
    some (⟨pixels, shown.lut ++ lutOf display img⟩, result)

/-! ## Both -/

def bmpAlignCenter : Int := 0x7fff

/-- The alignment of a position with `CONFIG_SPLASH_SCREEN_ALIGN`. -/
def alignAt (display : Display) (visible size : Nat) (position : Int) : Int :=
  if display.splashScreenAlign then
    if position = bmpAlignCenter then max 0 (((visible : Int) - size).tdiv 2)
    else if position < 0 then max 0 ((visible : Int) - size + position + 1)
    else position
  else position

def paddedLine (width : Nat) : Nat := ((width * 8 + 7) % 2 ^ 32 / 8 + 3) / 4 * 4 % 2 ^ 16

/-- The size of an image from a position on, cut off at the edge of the display. -/
def clip (position size visible : Nat) : Nat :=
  if visible < position + size then visible - position else size

def videoDisplayBitmap (fuel : Nat) (display : Display) (stack : UInt8 → UInt32) (bmp : Bmp)
    (x y : Int) (shown : Shown) : Option (Shown × Int) :=
  if bmp.signature ≠ (66, 77) then some (shown, 1)
  else if bmp.compression ≠ bmpBiRgb ∧ bmp.compression ≠ bmpBiRle8 then some (shown, 1)
  else
    let x := alignAt display display.cols bmp.width x
    let y := alignAt display display.rows bmp.height y
    -- the comparisons are unsigned
    if (x < 0 ∨ display.cols ≤ x) ∨ y < 0 ∨ display.rows ≤ y then some (shown, 0)
    else
      let (xoff, yoff) := (x.toNat, y.toNat)
      let width := clip xoff bmp.width display.cols
      let height := clip yoff bmp.height display.rows
      if bmp.compression = bmpBiRle8 then
        displayRle8Bitmap fuel display stack bmp xoff yoff width height shown
      else
        let fb : Int := ((yoff : Int) + height - 1) * display.cols + xoff
        -- `padded_line -= width`
        let padding := (paddedLine bmp.width + (2 ^ 16 - width % 2 ^ 16)) % 2 ^ 16
        let pixels := drawLines (rawPixel display bmp.colorTable) bmp.data display.cols width
          padding (height % 2 ^ 16) fb 0 shown.pixels
        some (⟨pixels, shown.lut ++ lutOf display bmp⟩, 0)

end HrppBoot.Video
