import HrppBoot.Video.Bitmap
import Mathlib.Tactic.Positivity

/-!
# Uncompressed bitmaps of every depth

`video_display_bitmap` for a file with the signature `BM` and the compression `BMP_BI_RGB`, in
builds with `IMX6SOLO_PP` and without `VIDEO_FB_16BPP_PIXEL_SWAP`. The variables of type `ushort`
are cut to 16 bits and the sums of type `unsigned long` to 32, as in the source; the bytes that are
read of the pixel data are recorded, by their distance from `data_offset`.
-/

namespace HrppBoot.Video.RawBitmap

/-! ## Pixels of a file -/

/-- The values of `bit_count` with a branch of their own. -/
inductive Depth where
  /-- `case 4` -/
  | four
  /-- `case 8` -/
  | eight
  /-- `case 16` -/
  | sixteen
  /-- `case 24` -/
  | twentyFour
  deriving DecidableEq, Repr

namespace Depth

/-- `bit_count` -/
def bits : Depth → Nat
  | four => 4
  | eight => 8
  | sixteen => 16
  | twentyFour => 24

/-- What is subtracted from `padded_line` for a width. -/
def consumed : Depth → Nat → Nat
  | four, width => width / 2
  | eight, width => width
  | sixteen, width => 2 * width
  | twentyFour, width => 3 * width

/-- The bytes `bmap` moves on by behind a pixel. -/
def advance : Depth → Nat → Nat
  | four, xcount => xcount % 2
  | eight, _ => 1
  | sixteen, _ => 2
  | twentyFour, _ => 3

def span : Depth → Nat
  | four | eight => 1
  | sixteen => 2
  | twentyFour => 3

/-- The branch of a depth has a case for a mode. -/
def Supports : Depth → DataFormat → Prop
  | four, format => format = .rgbX888
  | eight, _ => True
  | sixteen, format => format = .rgb565
  | twentyFour, format => format ≠ .index8

instance (depth : Depth) (format : DataFormat) : Decidable (depth.Supports format) := by
  cases depth <;> unfold Supports <;> infer_instance

end Depth

def rgb565Tab5 : List UInt32 :=
  [0, 8, 16, 25, 33, 41, 49, 58,
    66, 74, 82, 90, 99, 107, 115, 123,
    132, 140, 148, 156, 165, 173, 181, 189,
    197, 206, 214, 222, 230, 239, 247, 255]

def fiveBits (value : UInt32) : UInt32 := rgb565Tab5.getD value.toNat 0

section Pixels

variable (display : Display) (depth : Depth) (colorTable : Nat → ColorTableEntry)
  (data : Nat → UInt8)

/-- `FILL_16BIT_565RGB` of a pixel in RGB555. -/
def fill555 (bpp16 : UInt32) : UInt32 :=
  fill16Bit565Rgb display (fiveBits ((bpp16 &&& 0x7C00) >>> 10))
    (fiveBits ((bpp16 &&& 0x03E0) >>> 5)) (fiveBits (bpp16 &&& 0x001F))

/-- The pixel that is stored for column `xcount` with `bmap` where it is. -/
def pixelOf (xcount bmap : Nat) : UInt32 :=
  match depth with
  | .four =>
    let idx := if xcount % 2 = 1 then data bmap &&& 0xF else data bmap >>> 4
    rawPixel display (fun index => colorTable index.toNat) idx
  | .eight => rawPixel display (fun index => colorTable index.toNat) (data bmap)
  | .sixteen => fill555 display (((data (bmap + 1)).toUInt32 <<< 8) + (data bmap).toUInt32)
  -- the macros are filled with the bytes in the place of a colour of the table
  | .twentyFour => rawPixel display (fun _ => ⟨data bmap, data (bmap + 1), data (bmap + 2)⟩) 0

/-- What is on the display, and what is read. -/
structure Canvas extends Shown where
  reads : List Nat

structure Pen extends Canvas where
  /-- `fb`, in pixels from `video_fb_address` on. -/
  fb : Int
  bmap : Nat

/-- The pixel of column `xcount` is drawn. -/
def drawPixel (xcount : Nat) (pen : Pen) : Pen :=
  { pen with
    pixels := Function.update pen.pixels pen.fb
      (pixelOf display depth colorTable data xcount pen.bmap)
    reads := pen.reads ++ (List.range depth.span).map (pen.bmap + ·)
    fb := pen.fb + 1
    bmap := pen.bmap + depth.advance xcount }

/-- The loop over a line, from column `xcount` on with `left` pixels to go. -/
def drawLine : (left xcount : Nat) → Pen → Pen
  | 0, _, pen => pen
  | left + 1, xcount, pen =>
    drawLine left (xcount + 1) (drawPixel display depth colorTable data xcount pen)

/-- The pixels of a line; `none` if the loop does not end: with 4 bits per pixel `xcount` is
compared with `width`, with the others it is set to it. -/
def lineCount (width : Nat) : Option Nat :=
  if depth = .four then if width < 2 ^ 16 then some width else none else some (width % 2 ^ 16)

/-- The loop over the lines, with `ycount` lines to go. -/
def drawLines (width padding : Nat) : (ycount : Nat) → Pen → Option Canvas
  | 0, pen => some pen.toCanvas
  | ycount + 1, pen => do
    let count ← lineCount depth width
    let line := drawLine display depth colorTable data count 0 pen
    drawLines width padding ycount
      { line with bmap := line.bmap + padding, fb := line.fb - (display.cols + width) }

end Pixels

/-! ## The function -/

/-- A bitmap file in memory, with fields of its `header`. -/
structure File where
  width : Nat
  height : Nat
  /-- `header.bit_count` -/
  depth : Depth
  colorsUsed : Nat
  colorTable : Nat → ColorTableEntry
  /-- The memory from `header.data_offset` on. -/
  data : Nat → UInt8

/-- The first value of `padded_line`. -/
def paddedLine (depth : Depth) (width : Nat) : Nat :=
  ((width * depth.bits + 7) % 2 ^ 32 / 8 + 3) / 4 * 4 % 2 ^ 16

/-- The size of an image from a position on, cut off at the edge of the display. -/
def clip (position size visible : Nat) : Nat :=
  if visible < (position + size) % 2 ^ 32 then visible - position else size

/-- The calls of `video_set_lut`; `none` if the loop, whose `xcount` has 16 bits, does not end. -/
def lutOf (display : Display) (file : File) : Option (List (Nat × ColorTableEntry)) :=
  if file.depth = .eight ∧ display.format = .index8 then
    if file.colorsUsed < 2 ^ 16 then
      some ((List.range file.colorsUsed).map fun xcount => (xcount, file.colorTable xcount))
    else none
  else some []

/-- `video_display_bitmap` for an uncompressed file; `none` if it does not return. -/
def videoDisplayBitmap (display : Display) (file : File) (x y : Int) (before : Shown) :
    Option Canvas :=
  let x := alignAt display display.cols file.width x
  let y := alignAt display display.rows file.height y
  -- the comparisons are unsigned
  if (x < 0 ∨ display.cols ≤ x) ∨ y < 0 ∨ display.rows ≤ y then some ⟨before, []⟩
  else do
    let width := clip x.toNat file.width display.cols
    let height := clip y.toNat file.height display.rows
    let fb : Int := (y + height - 1) * display.cols + x
    let padding :=
      (paddedLine file.depth file.width + (2 ^ 16 - file.depth.consumed width % 2 ^ 16)) % 2 ^ 16
    let lut ← lutOf display file
    let canvas : Canvas := ⟨⟨before.pixels, before.lut ++ lut⟩, []⟩
    if file.depth.Supports display.format then
      drawLines display file.depth file.colorTable file.data width padding (height % 2 ^ 16)
        ⟨canvas, fb, 0⟩
    else some canvas

/-! ## What is asked of it -/

def stride (depth : Depth) (width : Nat) : Nat := (width * depth.bits + 31) / 32 * 4

/-- The bytes of a pixel of the frame buffer. -/
def pixelSize : DataFormat → Nat
  | .index8 | .rgb332 => 1
  | .rgb555 | .rgb565 => 2
  | .rgbX888 => 4
  | .rgb888 => 3

/-- A bitmap with fields of its `header` that is to be shown at a position on the screen. -/
structure Setting where
  display : Display
  /-- `bit_count` -/
  depth : Depth
  supported : depth.Supports display.format
  width : Nat
  height : Nat
  colorsUsed : Nat
  x : Nat
  y : Nat
  width_lt : width < 2 ^ 32
  height_lt : height < 2 ^ 32
  /-- The pixel data and the frame buffer have their places in the address space. -/
  inMemory : stride depth width * height +
    display.cols * display.rows * pixelSize display.format ≤ 2 ^ 32
  /-- `x` is on the screen. -/
  x_lt : x < display.cols
  /-- `y` is on the screen. -/
  y_lt : y < display.rows
  placed : display.splashScreenAlign = true →
    (x : Int) ≠ bmpAlignCenter ∧ (y : Int) ≠ bmpAlignCenter

namespace Setting

variable (s : Setting)

/-- The file, with the colours and the pixel data. -/
def file (colorTable : Nat → ColorTableEntry) (data : Nat → UInt8) : File :=
  ⟨s.width, s.height, s.depth, s.colorsUsed, colorTable, data⟩

/-- The address of a pixel of the image on the display. -/
def address (i j : Nat) : Int := ((s.y + j : Nat) : Int) * s.display.cols + ((s.x + i : Nat) : Int)

/-- A pixel of the image is on the screen. -/
def OnScreen (i j : Nat) : Prop :=
  i < s.width ∧ j < s.height ∧ s.x + i < s.display.cols ∧ s.y + j < s.display.rows

/-- The converted pixel of the image, `i` from the left and `j` from the top. -/
def imagePixel (colorTable : Nat → ColorTableEntry) (data : Nat → UInt8) (i j : Nat) : UInt32 :=
  pixelOf s.display s.depth colorTable data i
    (stride s.depth s.width * (s.height - 1 - j) + s.depth.consumed i)

structure Shows (colorTable : Nat → ColorTableEntry) (data : Nat → UInt8) (before : Shown)
    (after : Canvas) : Prop where
  set : ∀ i j, s.OnScreen i j → after.pixels (s.address i j) = s.imagePixel colorTable data i j
  left : ∀ a, (∀ i j, s.OnScreen i j → a ≠ s.address i j) → after.pixels a = before.pixels a
  inside : ∀ a ∈ after.reads, a < stride s.depth s.width * s.height

def ShowsAll : Prop :=
  ∀ colorTable data before, ∃ after,
    videoDisplayBitmap s.display (s.file colorTable data) s.x s.y before = some after ∧
      s.Shows colorTable data before after

def shownWidth : Nat := min s.width (s.display.cols - s.x)

structure Fits : Prop where
  colors : s.depth = .eight → s.display.format = .index8 → s.colorsUsed < 2 ^ 16
  /-- There is no pixel, or the right edge is no overflow, the bottom is on the screen, and what is
  skipped behind a line has 16 bits. -/
  room : s.width = 0 ∨ s.height = 0 ∨
    (s.x + s.width < 2 ^ 32 ∧ s.y + s.height ≤ s.display.rows ∧
      (s.height = 1 ∨ stride s.depth s.width - s.depth.consumed s.shownWidth < 2 ^ 16))

end Setting

/-! ## The loops -/

theorem Depth.consumed_succ (depth : Depth) (width : Nat) :
    depth.consumed (width + 1) = depth.consumed width + depth.advance width := by
  cases depth <;> simp only [consumed, advance] <;> omega

theorem Depth.consumed_zero (depth : Depth) : depth.consumed 0 = 0 := by
  cases depth <;> rfl

section Loops

variable {display : Display} {depth : Depth} {colorTable : Nat → ColorTableEntry}
  {data : Nat → UInt8}

variable (display depth colorTable data) in
/-- Pixels of a line have been drawn, from column `xcount` on; the line starts at `base`. -/
structure LineDrawn (base xcount count : Nat) (pen after : Pen) : Prop where
  /-- `bmap` is behind them. -/
  bmap : after.bmap = base + depth.consumed (xcount + count)
  /-- `fb` is behind them. -/
  fb : after.fb = pen.fb + count
  set : ∀ m < count, after.pixels (pen.fb + m) =
    pixelOf display depth colorTable data (xcount + m) (base + depth.consumed (xcount + m))
  left : ∀ a, (∀ m < count, a ≠ pen.fb + (m : Int)) → after.pixels a = pen.pixels a
  reads : ∀ a ∈ after.reads, a ∈ pen.reads ∨ ∃ m < count, ∃ r < depth.span,
    a = base + depth.consumed (xcount + m) + r

/-- A pixel, and the line behind it. -/
theorem LineDrawn.cons {base xcount count : Nat} {pen after : Pen}
    (placed : pen.bmap = base + depth.consumed xcount)
    (line : LineDrawn display depth colorTable data base (xcount + 1) count
      (drawPixel display depth colorTable data xcount pen) after) :
    LineDrawn display depth colorTable data base xcount (count + 1) pen after := by
  have shift : ∀ m, xcount + 1 + m = xcount + (m + 1) := fun m => by omega
  have moved : ∀ m : Nat, pen.fb + ((m + 1 : Nat) : Int) = pen.fb + 1 + m := fun m => by omega
  refine ⟨?_, ?_, ?_, ?_, ?_⟩
  · rw [line.bmap, shift]
  · rw [line.fb, moved]
    rfl
  · intro m below
    cases m with
    | zero =>
      rw [Nat.cast_zero, Int.add_zero, Nat.add_zero xcount, ← placed,
        line.left pen.fb fun m _ => by simp only [drawPixel]; omega]
      exact Function.update_self _ _ _
    | succ m =>
      rw [moved, ← shift m]
      exact line.set m (by omega)
  · intro a apart
    have others := line.left a fun m below => by
      have different := apart (m + 1) (by omega)
      simp only [drawPixel]
      omega
    have start := apart 0 (by omega)
    rw [others]
    exact Function.update_of_ne (by simpa using start) _ _
  · intro a read
    rcases line.reads a read with before | later
    · rcases List.mem_append.mp before with older | new
      · exact .inl older
      · obtain ⟨r, below, at_⟩ := List.mem_map.mp new
        exact .inr ⟨0, by omega, r, List.mem_range.mp below, by rw [← at_, placed, Nat.add_zero]⟩
    · obtain ⟨m, below, r, inside, at_⟩ := later
      exact .inr ⟨m + 1, by omega, r, inside, by rw [at_, shift]⟩

theorem lineDrawn_drawLine (base count : Nat) : ∀ (xcount : Nat) (pen : Pen),
    pen.bmap = base + depth.consumed xcount →
      LineDrawn display depth colorTable data base xcount count pen
        (drawLine display depth colorTable data count xcount pen) := by
  induction count with
  | zero =>
    intro xcount pen placed
    exact ⟨placed, (Int.add_zero _).symm, fun m below => absurd below (Nat.not_lt_zero m),
      fun _ _ => rfl, fun _ read => .inl read⟩
  | succ count ih =>
    intro xcount pen placed
    exact .cons placed (ih (xcount + 1) _
      (by simp only [drawPixel, placed, Depth.consumed_succ, Nat.add_assoc]))

variable (display depth colorTable data) in
/-- Lines have been drawn upwards, one for every `step` bytes of the file. -/
structure LinesDrawn (width step ycount : Nat) (pen : Pen) (after : Canvas) : Prop where
  set : ∀ k < ycount, ∀ m < width,
    after.pixels (pen.fb - (k : Int) * display.cols + m) =
      pixelOf display depth colorTable data m (pen.bmap + k * step + depth.consumed m)
  left : ∀ a, (∀ k < ycount, ∀ m < width, a ≠ pen.fb - (k : Int) * display.cols + m) →
    after.pixels a = pen.pixels a
  reads : ∀ a ∈ after.reads, a ∈ pen.reads ∨ ∃ k < ycount, ∃ m < width, ∃ r < depth.span,
    a = pen.bmap + k * step + depth.consumed m + r

theorem lineCount_of_lt {width : Nat} (small : width < 2 ^ 16) :
    lineCount depth width = some width := by
  simp only [lineCount, if_pos small, Nat.mod_eq_of_lt small, ite_self]

/-- A line, and the lines above it. -/
theorem LinesDrawn.cons {width padding ycount : Nat} (narrow : width ≤ display.cols)
    {pen line : Pen} {after : Canvas}
    (drawn : LineDrawn display depth colorTable data pen.bmap 0 width pen line)
    (lines : LinesDrawn display depth colorTable data width (depth.consumed width + padding) ycount
      { line with bmap := line.bmap + padding, fb := line.fb - (display.cols + width) } after) :
    LinesDrawn display depth colorTable data width (depth.consumed width + padding) (ycount + 1) pen
      after := by
  have up : line.fb - (display.cols + width) = pen.fb - display.cols := by
    rw [drawn.fb]
    omega
  have next : line.bmap + padding = pen.bmap + (depth.consumed width + padding) := by
    rw [drawn.bmap, Nat.zero_add, Nat.add_assoc]
  have rows : ∀ k : Nat, pen.fb - ((k + 1 : Nat) : Int) * display.cols =
      pen.fb - display.cols - (k : Int) * display.cols := fun k => by
    rw [Nat.cast_succ, Int.add_mul]
    omega
  have bytes : ∀ k, (k + 1) * (depth.consumed width + padding) =
      depth.consumed width + padding + k * (depth.consumed width + padding) := fun k => by
    rw [Nat.add_mul, Nat.one_mul, Nat.add_comm]
  refine ⟨?_, ?_, ?_⟩
  · intro k below m inside
    cases k with
    | zero =>
      have kept := lines.left (pen.fb + m) fun k _ m' _ => by
        have above : 0 ≤ (k : Int) * display.cols := by positivity
        simp only [up]
        omega
      rw [Nat.cast_zero, Int.zero_mul, Int.sub_zero, Nat.zero_mul, Nat.add_zero, kept]
      have set := drawn.set m inside
      rwa [Nat.zero_add] at set
    | succ k =>
      have set := lines.set k (by omega) m inside
      simp only [up, next] at set
      rw [rows, set, bytes]
      simp only [Nat.add_assoc]
  · intro a apart
    have later := lines.left a fun k below m inside => by
      have different := apart (k + 1) (by omega) m inside
      rw [rows] at different
      simpa only [up] using different
    rw [later]
    exact drawn.left a fun m inside => by simpa using apart 0 (by omega) m inside
  · intro a read
    rcases lines.reads a read with before | later
    · rcases drawn.reads a before with older | new
      · exact .inl older
      · obtain ⟨m, below, r, inside, at_⟩ := new
        exact .inr ⟨0, by omega, m, below, r, inside, by
          rw [at_, Nat.zero_add, Nat.zero_mul, Nat.add_zero]⟩
    · obtain ⟨k, below, m, inside, r, short, at_⟩ := later
      refine .inr ⟨k + 1, by omega, m, inside, r, short, ?_⟩
      simp only [next] at at_
      rw [at_, bytes]
      omega

theorem linesDrawn_drawLines {width padding : Nat} (narrow : width ≤ display.cols) (ycount : Nat) :
    ∀ pen : Pen, ∃ after,
      drawLines display depth colorTable data width padding ycount pen = some after ∧
        LinesDrawn display depth colorTable data width (depth.consumed width + padding) ycount pen
          after := by
  have small : width < 2 ^ 16 := lt_of_le_of_lt narrow display.cols_lt
  induction ycount with
  | zero =>
    intro pen
    exact ⟨pen.toCanvas, rfl, fun k below => absurd below (Nat.not_lt_zero k), fun _ _ => rfl,
      fun _ read => .inl read⟩
  | succ ycount ih =>
    intro pen
    have line : LineDrawn display depth colorTable data pen.bmap 0 width pen _ :=
      lineDrawn_drawLine pen.bmap width 0 pen (by rw [depth.consumed_zero, Nat.add_zero])
    simp only [drawLines, lineCount_of_lt small, Option.bind_eq_bind, Option.bind_some]
    obtain ⟨after, ran, lines⟩ := ih _
    exact ⟨after, ran, .cons narrow line lines⟩

end Loops

/-! ## Sizes -/

theorem paddedLine_eq (depth : Depth) (width : Nat) :
    paddedLine depth width = stride depth width % 2 ^ 16 := by
  generalize lineBits : width * depth.bits = n
  have cut : (n + 7) % 2 ^ 32 / 8 = (n + 7) / 8 % 2 ^ 29 := by omega
  have words : (n + 31) / 32 = ((n + 7) / 8 + 3) / 4 := by omega
  rw [paddedLine, stride, lineBits, cut, words]
  generalize (n + 7) / 8 = bytes
  have low : (bytes % 2 ^ 29 + 3) / 4 % 2 ^ 14 = (bytes + 3) / 4 % 2 ^ 14 := by omega
  omega

theorem consumed_add_span_le {depth : Depth} {i width : Nat} (inside : i < width) :
    depth.consumed i + depth.span ≤ stride depth width := by
  cases depth <;> simp only [stride, Depth.bits, Depth.consumed, Depth.span] <;> omega

theorem consumed_le_stride {depth : Depth} {part width : Nat} (le : part ≤ width) :
    depth.consumed part ≤ stride depth width := by
  cases depth <;> simp only [stride, Depth.bits, Depth.consumed] <;> omega

theorem four_le_stride {depth : Depth} {width : Nat} (pos : 0 < width) :
    4 ≤ stride depth width := by
  cases depth <;> simp only [stride, Depth.bits] <;> omega

theorem clip_of_lt {position size visible : Nat} (small : position + size < 2 ^ 32) :
    clip position size visible = min size (visible - position) := by
  rw [clip, Nat.mod_eq_of_lt small]
  split <;> omega

theorem step_eq {depth : Depth} {part width : Nat} (le : part ≤ width) :
    depth.consumed part +
        (paddedLine depth width + (2 ^ 16 - depth.consumed part % 2 ^ 16)) % 2 ^ 16 =
      depth.consumed part + (stride depth width - depth.consumed part) % 2 ^ 16 := by
  have within := @consumed_le_stride depth part width le
  rw [paddedLine_eq]
  omega

theorem alignAt_of_ne {display : Display} {visible size position : Nat}
    (placed : display.splashScreenAlign = true → (position : Int) ≠ bmpAlignCenter) :
    alignAt display visible size position = position := by
  unfold alignAt
  split
  next aligned =>
    rw [if_neg (placed aligned), if_neg (by omega)]
  next => rfl

namespace Setting

variable (s : Setting)

def shownHeight : Nat := min s.height (s.display.rows - s.y)

/-- What `bmap` moves by from line to line. -/
def step : Nat :=
  s.depth.consumed s.shownWidth + (stride s.depth s.width - s.depth.consumed s.shownWidth) % 2 ^ 16

def firstLine : Int :=
  ((s.y : Int) + clip s.y s.height s.display.rows - 1) * s.display.cols + s.x

variable {s} {colorTable : Nat → ColorTableEntry} {data : Nat → UInt8} {before : Shown}

theorem videoDisplayBitmap_eq :
    videoDisplayBitmap s.display (s.file colorTable data) s.x s.y before =
      (lutOf s.display (s.file colorTable data)).bind fun lut =>
        drawLines s.display s.depth colorTable data (clip s.x s.width s.display.cols)
          ((paddedLine s.depth s.width +
            (2 ^ 16 - s.depth.consumed (clip s.x s.width s.display.cols) % 2 ^ 16)) % 2 ^ 16)
          (clip s.y s.height s.display.rows % 2 ^ 16)
          ⟨⟨⟨before.pixels, before.lut ++ lut⟩, []⟩, s.firstLine, 0⟩ := by
  have column := @alignAt_of_ne s.display s.display.cols s.width s.x
    fun aligned => (s.placed aligned).1
  have line := @alignAt_of_ne s.display s.display.rows s.height s.y
    fun aligned => (s.placed aligned).2
  have visible : ¬(((s.x : Int) < 0 ∨ (s.display.cols : Int) ≤ s.x) ∨ (s.y : Int) < 0 ∨
      (s.display.rows : Int) ≤ s.y) := by
    have := s.x_lt
    have := s.y_lt
    omega
  simp only [videoDisplayBitmap, file, column, line, if_neg visible, Int.toNat_natCast,
    if_pos s.supported, Option.bind_eq_bind, firstLine]

theorem exists_lut
    (colors : s.depth = .eight → s.display.format = .index8 → s.colorsUsed < 2 ^ 16) :
    ∃ lut, lutOf s.display (s.file colorTable data) = some lut := by
  unfold lutOf
  split
  next indexed =>
    exact ⟨_, if_pos (colors indexed.1 indexed.2)⟩
  next => exact ⟨[], rfl⟩

theorem shows_of_empty {after : Canvas} (empty : s.width = 0 ∨ s.height = 0)
    (same : after.pixels = before.pixels) (unread : after.reads = []) :
    s.Shows colorTable data before after where
  set i j shown := by
    have := shown.1
    have := shown.2.1
    omega
  left a _ := congrFun same a
  inside a read := by simp [unread] at read

theorem stride_le (tall : 0 < s.height) : stride s.depth s.width * 1 +
    s.display.cols * s.display.rows * pixelSize s.display.format ≤ 2 ^ 32 :=
  le_trans (Nat.add_le_add_right (Nat.mul_le_mul_left _ tall) _) s.inMemory

theorem bottom_lt (wide : 0 < s.width) : s.y + s.height < 2 ^ 32 := by
  have lines : 4 * s.height ≤ stride s.depth s.width * s.height :=
    Nat.mul_le_mul_right _ (four_le_stride wide)
  have := s.inMemory
  have := s.y_lt
  have := s.display.rows_lt
  omega

theorem shownHeight_lt : s.shownHeight < 2 ^ 16 := by
  have := s.display.rows_lt
  unfold shownHeight
  omega

theorem shownWidth_le : s.shownWidth ≤ s.display.cols := by
  unfold shownWidth
  omega

theorem exists_linesDrawn (wide : 0 < s.width) (edge : s.x + s.width < 2 ^ 32)
    (colors : s.depth = .eight → s.display.format = .index8 → s.colorsUsed < 2 ^ 16) :
    ∃ (pen : Pen) (after : Canvas),
      videoDisplayBitmap s.display (s.file colorTable data) s.x s.y before = some after ∧
        pen.pixels = before.pixels ∧ pen.reads = [] ∧ pen.bmap = 0 ∧
        pen.fb = ((s.y : Int) + s.shownHeight - 1) * s.display.cols + s.x ∧
        LinesDrawn s.display s.depth colorTable data s.shownWidth s.step s.shownHeight pen
          after := by
  obtain ⟨lut, copied⟩ := @exists_lut s colorTable data colors
  have columns : clip s.x s.width s.display.cols = s.shownWidth := clip_of_lt edge
  have lines : clip s.y s.height s.display.rows = s.shownHeight := clip_of_lt (bottom_lt wide)
  obtain ⟨after, ran, drawn⟩ := @linesDrawn_drawLines s.display s.depth colorTable data
    s.shownWidth ((paddedLine s.depth s.width +
      (2 ^ 16 - s.depth.consumed s.shownWidth % 2 ^ 16)) % 2 ^ 16) s.shownWidth_le s.shownHeight
    ⟨⟨⟨before.pixels, before.lut ++ lut⟩, []⟩, s.firstLine, 0⟩
  rw [@step_eq s.depth s.shownWidth s.width (Nat.min_le_left _ _)] at drawn
  refine ⟨_, after, ?_, rfl, rfl, rfl, ?_, drawn⟩
  · rw [videoDisplayBitmap_eq, copied, Option.bind_some, columns, lines,
      Nat.mod_eq_of_lt s.shownHeight_lt, ran]
  · rw [firstLine, lines]

theorem address_of_line {i j k : Nat} (line : j + k + 1 = s.shownHeight) :
    ((s.y : Int) + s.shownHeight - 1) * s.display.cols + s.x - (k : Int) * s.display.cols + i =
      s.address i j := by
  have up : (s.y : Int) + s.shownHeight - 1 = ((s.y + j : Nat) : Int) + k := by omega
  rw [address, up, Int.add_mul]
  omega

/-- Lines that follow each other in the file as they are stored show the image. -/
theorem shows_of_linesDrawn {pen : Pen} {after : Canvas} (bottom : s.y + s.height ≤ s.display.rows)
    (next : s.height = 1 ∨ s.step = stride s.depth s.width) (same : pen.pixels = before.pixels)
    (unread : pen.reads = []) (start : pen.bmap = 0)
    (first : pen.fb = ((s.y : Int) + s.shownHeight - 1) * s.display.cols + s.x)
    (drawn : LinesDrawn s.display s.depth colorTable data s.shownWidth s.step s.shownHeight pen
      after) : s.Shows colorTable data before after := by
  have all : s.shownHeight = s.height := by
    unfold shownHeight
    omega
  have steps : ∀ k < s.height, k * s.step = stride s.depth s.width * k := fun k below => by
    rcases next with one | same
    · have : k = 0 := by omega
      simp only [this, Nat.zero_mul, Nat.mul_zero]
    · rw [same, Nat.mul_comm]
  refine ⟨?_, ?_, ?_⟩
  · intro i j shown
    obtain ⟨column, line, right, below⟩ := shown
    have set := drawn.set (s.height - 1 - j) (by omega) i (by unfold shownWidth; omega)
    rwa [first, address_of_line (j := j) (by omega), start, Nat.zero_add, steps _ (by omega)] at set
  · intro a apart
    rw [← same]
    refine drawn.left a fun k below m inside => ?_
    unfold shownWidth at inside
    rw [first, address_of_line (j := s.height - 1 - k) (by omega)]
    exact apart m _ ⟨by omega, by omega, by omega, by omega⟩
  · intro a read
    rcases drawn.reads a read with before | later
    · simp [unread] at before
    · obtain ⟨k, below, m, inside, r, short, at_⟩ := later
      rw [start, Nat.zero_add, steps k (by omega)] at at_
      have within := @consumed_add_span_le s.depth m s.width
        (by unfold shownWidth at inside; omega)
      have lines : stride s.depth s.width * (k + 1) ≤ stride s.depth s.width * s.height :=
        Nat.mul_le_mul_left _ (by omega)
      rw [Nat.mul_succ] at lines
      omega

/-- A bitmap that fits is shown. -/
theorem showsAll_of_fits (fits : s.Fits) : s.ShowsAll := by
  intro colorTable data before
  by_cases wide : 0 < s.width
  · by_cases tall : 0 < s.height
    · rcases fits.room with none_ | none_ | ⟨edge, bottom, next⟩
      · omega
      · omega
      · obtain ⟨pen, after, ran, same, unread, start, first, drawn⟩ :=
          @exists_linesDrawn s colorTable data before wide edge fits.colors
        refine ⟨after, ran, shows_of_linesDrawn bottom ?_ same unread start first drawn⟩
        refine next.imp_right fun short => ?_
        have within := @consumed_le_stride s.depth s.shownWidth s.width
          (Nat.min_le_left _ _)
        rw [step, Nat.mod_eq_of_lt short]
        omega
    · obtain ⟨lut, copied⟩ := @exists_lut s colorTable data fits.colors
      have lines : clip s.y s.height s.display.rows = 0 := by
        have := s.y_lt
        have := s.display.rows_lt
        rw [clip_of_lt (by omega)]
        omega
      refine ⟨⟨⟨before.pixels, before.lut ++ lut⟩, []⟩, ?_,
        shows_of_empty (.inr (by omega)) rfl rfl⟩
      rw [videoDisplayBitmap_eq, copied, lines]
      rfl
  · obtain ⟨lut, copied⟩ := @exists_lut s colorTable data fits.colors
    have columns : clip s.x s.width s.display.cols = 0 := by
      have := s.x_lt
      have := s.display.cols_lt
      rw [clip_of_lt (by omega)]
      omega
    obtain ⟨after, ran, drawn⟩ := @linesDrawn_drawLines s.display s.depth colorTable data 0
      ((paddedLine s.depth s.width + (2 ^ 16 - s.depth.consumed 0 % 2 ^ 16)) % 2 ^ 16)
      (Nat.zero_le s.display.cols)
      (clip s.y s.height s.display.rows % 2 ^ 16)
      ⟨⟨⟨before.pixels, before.lut ++ lut⟩, []⟩, s.firstLine, 0⟩
    refine ⟨after, ?_, shows_of_empty (.inl (by omega)) ?_ ?_⟩
    · rw [videoDisplayBitmap_eq, copied, Option.bind_some, columns, ran]
    · funext a
      exact drawn.left a fun k _ m inside => absurd inside (Nat.not_lt_zero m)
    · refine List.eq_nil_iff_forall_not_mem.mpr fun a read => ?_
      rcases drawn.reads a read with before | later
      · simp at before
      · obtain ⟨k, _, m, inside, _⟩ := later
        exact absurd inside (Nat.not_lt_zero m)

end Setting

/-! ## What goes wrong -/

/-- Black, and white for the other indices. -/
def blackWhite (index : Nat) : ColorTableEntry := if index = 0 then ⟨0, 0, 0⟩ else ⟨255, 255, 255⟩

/-- Pixel data with a white pixel in the black. -/
def spot (place a : Nat) : UInt8 := if place ≤ a ∧ a < place + 3 then 255 else 0

theorem pixelOf_of_eq {display : Display} {depth : Depth} {data : Nat → UInt8} {bmap : Nat}
    {value : UInt8} (same : ∀ r < 3, data (bmap + r) = value) :
    pixelOf display depth blackWhite data 0 bmap =
      pixelOf display depth blackWhite (fun _ => value) 0 0 := by
  have byte : data bmap = value := same 0 (by decide)
  have second : data (bmap + 1) = value := same 1 (by decide)
  have third : data (bmap + 2) = value := same 2 (by decide)
  cases depth <;> simp only [pixelOf, byte, second, third]

theorem rawPixel_white_ne_black {display : Display} {whites blacks : UInt8 → ColorTableEntry}
    {white black : UInt8} (bright : whites white = ⟨255, 255, 255⟩)
    (dark : blacks black = ⟨0, 0, 0⟩)
    (different : display.format = .index8 → white ≠ black) :
    rawPixel display whites white ≠ rawPixel display blacks black := by
  simp only [rawPixel, bright, dark, fill8Bit332Rgb, fill15Bit555Rgb, fill16Bit565Rgb,
    fill32BitX888Rgb, fill24Bit888Rgb, swap16, swap32]
  cases format : display.format
  case index8 => exact fun same => different format (UInt8.toUInt32_inj.mp same)
  all_goals
    cases display.littleEndian <;> simp only [if_true, Bool.false_eq_true, if_false] <;> decide

theorem white_ne_black {display : Display} {depth : Depth}
    (supported : depth.Supports display.format) :
    pixelOf display depth blackWhite (fun _ => 255) 0 0 ≠
      pixelOf display depth blackWhite (fun _ => 0) 0 0 := by
  have high : (255 : UInt8) >>> 4 = 15 := by decide
  have low : (0 : UInt8) >>> 4 = 0 := by decide
  have even : ¬0 % 2 = 1 := by decide
  cases depth with
  | four =>
    simp only [pixelOf, high, low, if_neg even]
    exact rawPixel_white_ne_black (by decide) (by decide) fun _ => by decide
  | eight =>
    simp only [pixelOf]
    exact rawPixel_white_ne_black (by decide) (by decide) fun _ => by decide
  | sixteen =>
    simp only [pixelOf, fill555, fill16Bit565Rgb, swap16]
    cases display.littleEndian <;> simp only [if_true, Bool.false_eq_true, if_false] <;> decide
  | twentyFour =>
    simp only [pixelOf]
    exact rawPixel_white_ne_black rfl rfl fun indexed => absurd indexed supported

namespace Setting

variable {s : Setting}

theorem not_showsAll_of_apart (wide : 0 < s.width) (edge : s.x + s.width < 2 ^ 32)
    (colors : s.depth = .eight → s.display.format = .index8 → s.colorsUsed < 2 ^ 16) {j k : Nat}
    (line : j + k + 1 = s.shownHeight)
    (apart : k * s.step + 3 ≤ stride s.depth s.width * (s.height - 1 - j) ∨
      stride s.depth s.width * (s.height - 1 - j) + 3 ≤ k * s.step) : ¬s.ShowsAll := by
  intro all
  let place := stride s.depth s.width * (s.height - 1 - j)
  obtain ⟨pen, after, ran, _, _, start, first, drawn⟩ := @exists_linesDrawn s
    blackWhite (spot place) ⟨fun _ => 0, []⟩ wide edge colors
  obtain ⟨after', ran', shows⟩ := all blackWhite (spot place) ⟨fun _ => 0, []⟩
  have agree : after' = after := Option.some.inj (ran'.symm.trans ran)
  subst agree
  have shown : s.OnScreen 0 j := by
    have := s.x_lt
    unfold shownHeight at line
    exact ⟨wide, by omega, by omega, by omega⟩
  have right := shows.set 0 j shown
  have set := drawn.set k (by omega) 0 (by
    have := s.x_lt
    unfold shownWidth
    omega)
  rw [first, address_of_line (j := j) line, right, start, Nat.zero_add, imagePixel,
    Depth.consumed_zero, Nat.add_zero, Nat.add_zero] at set
  have white : ∀ r < 3, spot place (place + r) = 255 := fun r below =>
    if_pos ⟨by omega, by omega⟩
  have black : ∀ r < 3, spot place (k * s.step + r) = 0 := fun r below =>
    if_neg (by omega)
  rw [pixelOf_of_eq white, pixelOf_of_eq black] at set
  exact white_ne_black s.supported set

/-- An overflow of the right edge takes more than the address space, or a loop without an end. -/
theorem edge_of_showsAll (wide : 0 < s.width) (tall : 0 < s.height) (all : s.ShowsAll) :
    s.x + s.width < 2 ^ 32 := by
  by_contra beyond
  have := s.x_lt
  have := s.y_lt
  have := s.width_lt
  have := s.display.cols_lt
  have := s.display.rows_lt
  have columns : clip s.x s.width s.display.cols = s.width := by
    rw [clip, if_neg (by omega)]
  have lines : clip s.y s.height s.display.rows = s.shownHeight := clip_of_lt (bottom_lt wide)
  by_cases four : s.depth = .four
  · obtain ⟨after, ran, _⟩ := all blackWhite (fun _ => 0) ⟨fun _ => 0, []⟩
    obtain ⟨count, more⟩ : ∃ count, s.shownHeight = count + 1 :=
      Nat.exists_eq_succ_of_ne_zero (by unfold shownHeight; omega)
    have endless : lineCount s.depth s.width = none := by
      rw [lineCount, if_pos four, if_neg (by omega)]
    rw [videoDisplayBitmap_eq, columns, lines, Nat.mod_eq_of_lt s.shownHeight_lt, more] at ran
    simp only [drawLines, endless, Option.bind_eq_bind, Option.bind_none] at ran
    cases copied : lutOf s.display (s.file blackWhite fun _ => 0) <;> simp [copied] at ran
  · have bytes : s.width ≤ stride s.depth s.width := by
      cases depth : s.depth
      case four => exact absurd depth four
      all_goals
        simp only [stride, Depth.bits]
        omega
    have size : 1 ≤ pixelSize s.display.format := by
      cases s.display.format <;> decide
    have screen : s.display.cols * 1 * 1 ≤
        s.display.cols * s.display.rows * pixelSize s.display.format :=
      Nat.mul_le_mul (Nat.mul_le_mul_left _ (by omega)) size
    have := stride_le tall
    omega

/-- Every bitmap of the size is shown if and only if it fits. -/
theorem showsAll_iff_fits (s : Setting) : s.ShowsAll ↔ s.Fits := by
  refine ⟨fun all => ?_, showsAll_of_fits⟩
  have colors : s.depth = .eight → s.display.format = .index8 → s.colorsUsed < 2 ^ 16 := by
    intro eight indexed
    by_contra many
    obtain ⟨after, ran, _⟩ := all blackWhite (fun _ => 0) ⟨fun _ => 0, []⟩
    have endless : lutOf s.display (s.file blackWhite fun _ => 0) = none :=
      (if_pos ⟨eight, indexed⟩).trans (if_neg many)
    rw [videoDisplayBitmap_eq, endless] at ran
    cases ran
  refine ⟨colors, ?_⟩
  by_contra unfit
  rw [not_or, not_or] at unfit
  obtain ⟨wide, tall, unfit⟩ := unfit
  have edge := edge_of_showsAll (Nat.pos_of_ne_zero wide) (Nat.pos_of_ne_zero tall) all
  have long := @four_le_stride s.depth s.width (Nat.pos_of_ne_zero wide)
  by_cases bottom : s.y + s.height ≤ s.display.rows
  · have height : s.shownHeight = s.height := by
      unfold shownHeight
      omega
    have skipped : ¬(stride s.depth s.width - s.depth.consumed s.shownWidth < 2 ^ 16) :=
      fun short => unfit ⟨edge, bottom, .inr short⟩
    have lines : s.height ≠ 1 := fun one => unfit ⟨edge, bottom, .inl one⟩
    refine not_showsAll_of_apart (Nat.pos_of_ne_zero wide) edge colors (j := s.height - 2) (k := 1)
      (by omega) (.inl ?_) all
    have second : s.height - 1 - (s.height - 2) = 1 := by omega
    rw [second, step]
    omega
  · have := s.y_lt
    refine not_showsAll_of_apart (Nat.pos_of_ne_zero wide) edge colors (j := s.shownHeight - 1)
      (k := 0) (by unfold shownHeight; omega) (.inl ?_) all
    have behind : 1 ≤ s.height - 1 - (s.shownHeight - 1) := by
      unfold shownHeight
      omega
    have := Nat.mul_le_mul_left (stride s.depth s.width) behind
    omega

end Setting

/-- A screen of 800 by 480 pixels. -/
def screen : Display where
  cols := 800
  rows := 480
  format := .rgb565
  littleEndian := true
  splashScreenAlign := false
  cols_lt := by decide
  rows_lt := by decide

/-- An image of 16 by 16 pixels whose last six lines are below the screen. -/
def lowered : Setting where
  display := screen
  depth := .twentyFour
  supported := by decide
  width := 16
  height := 16
  colorsUsed := 0
  x := 0
  y := 470
  width_lt := by decide
  height_lt := by decide
  inMemory := by decide
  x_lt := by decide
  y_lt := by decide
  placed := by decide

/-- Its last lines are shown in the place of its first. -/
theorem lowered_not_shown : ¬lowered.ShowsAll :=
  Setting.not_showsAll_of_apart (s := lowered) (j := 9) (k := 0) (by decide) (by decide)
    (by decide) (by decide) (.inl (by decide))

end HrppBoot.Video.RawBitmap
