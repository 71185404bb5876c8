import HrppBoot.Lib.Recurrence
import HrppBoot.Video.Rle8

/-!
# Both renderers show one image

`video_display_bitmap` shows an image alike from an uncompressed and from an RLE8 file exactly if
the display shows RLE8 bitmaps at all, the number of colours is stated, no line is cut off at the
bottom, the lines of the file are not too long for `padded_line`, and the limit of
`display_rle8_bitmap` is not reached before the last visible pixel.
-/

namespace HrppBoot.Video

/-! ## Colours -/

/-- The formats in which RLE8 bitmaps are shown. -/
def DataFormat.ShowsRle8 : DataFormat → Prop
  | index8 | rgb555 | rgb565 | rgbX888 => True
  | rgb332 | rgb888 => False

instance : DecidablePred DataFormat.ShowsRle8
  | .index8 | .rgb555 | .rgb565 | .rgbX888 => inferInstanceAs (Decidable True)
  | .rgb332 | .rgb888 => inferInstanceAs (Decidable False)

section Colors

variable {display : Display} {ncolors : Nat} {colorTable : UInt8 → ColorTableEntry}
  {stack : UInt8 → UInt32}

theorem rlePixel_none (other : ¬display.format.ShowsRle8) :
    rlePixel display ncolors colorTable stack = none := by
  unfold rlePixel
  generalize display.format = format at *
  cases format <;> first | rfl | exact absurd trivial other

theorem rlePixel_some (shows : display.format.ShowsRle8) :
    ∃ pixel, rlePixel display ncolors colorTable stack = some pixel ∧
      (∀ index : UInt8, (display.format = .index8 ∨ index.toNat < ncolors) →
        pixel index = rawPixel display colorTable index) ∧
      ∀ index : UInt8, display.format ≠ .index8 → ncolors ≤ index.toNat →
        pixel index = stack index := by
  unfold rlePixel rawPixel
  generalize display.format = format at *
  have set {entry : ColorTableEntry → UInt32} {index : UInt8} (stated : index.toNat < ncolors) :
      palette ncolors colorTable stack entry index = entry (colorTable index) := if_pos stated
  have unset {entry : ColorTableEntry → UInt32} {index : UInt8} (past : ncolors ≤ index.toNat) :
      palette ncolors colorTable stack entry index = stack index := if_neg (by omega)
  cases format with
  | index8 => exact ⟨_, rfl, fun _ _ => rfl, fun _ other => absurd rfl other⟩
  | rgb332 => exact shows.elim
  | rgb555 =>
    exact ⟨_, rfl, fun _ stated => set (stated.resolve_left DataFormat.noConfusion),
      fun _ _ => unset⟩
  | rgb565 =>
    exact ⟨_, rfl, fun _ stated => set (stated.resolve_left DataFormat.noConfusion),
      fun _ _ => unset⟩
  | rgbX888 =>
    exact ⟨_, rfl, fun _ stated => set (stated.resolve_left DataFormat.noConfusion),
      fun _ _ => unset⟩
  | rgb888 => exact shows.elim

end Colors

/-! ## The two files -/

/-- The column at which an image is placed. -/
def placedAtCol (display : Display) (width : Nat) (x : Int) : Int :=
  alignAt display display.cols width x

def placedAtRow (display : Display) (height : Nat) (y : Int) : Int :=
  alignAt display display.rows height y

/-- Both files of an image show the same pixels in its visible rectangle, except for those that the
operations skip, which keep what was there. -/
def SameShown (display : Display) (raw rle : Bmp) (ops : List RleOp) (stack : UInt8 → UInt32)
    (x y : Int) (before : Shown) : Prop :=
  ∃ fuel fromRaw fromRle rawResult rleResult,
    videoDisplayBitmap fuel display stack raw x y before = some (fromRaw, rawResult) ∧
    videoDisplayBitmap fuel display stack rle x y before = some (fromRle, rleResult) ∧
    ∀ p : Cursor, p.col < raw.width → p.line < raw.height →
      let column := placedAtCol display raw.width x + p.col
      let row := placedAtRow display raw.height y + (raw.height - 1 - p.line)
      0 ≤ placedAtCol display raw.width x → column < display.cols →
      0 ≤ placedAtRow display raw.height y → row < display.rows →
      fromRle.pixels (row * display.cols + column) =
        if Covered ops ⟨0, 0⟩ p then fromRaw.pixels (row * display.cols + column)
        else before.pixels (row * display.cols + column)

section Files

variable {display : Display} {raw rle : Bmp} {ops : List RleOp} {stack : UInt8 → UInt32} {x y : Int}
  {before : Shown} {xoff yoff : Nat}

theorem clip_spec {position size visible : Nat} (inside : position < visible) :
    clip position size visible = min size (visible - position) := by
  unfold clip
  split <;> omega

theorem paddedLine_eq (width : Nat) : paddedLine width = fileLine width % 2 ^ 16 := by
  unfold paddedLine fileLine
  omega

/-- How far the data pointer moves with a line. -/
def lineStep (width shown : Nat) : Nat :=
  shown + (paddedLine width + (2 ^ 16 - shown % 2 ^ 16)) % 2 ^ 16

theorem lineStep_spec {width shown : Nat} (cut : shown ≤ width) :
    lineStep width shown ≤ fileLine width ∧
      (lineStep width shown = fileLine width ↔ fileLine width < shown + 2 ^ 16) := by
  have : width ≤ fileLine width := by
    unfold fileLine
    omega
  rw [lineStep, paddedLine_eq]
  omega

theorem raw_shown (signature : raw.signature = (66, 77)) (compression : raw.compression = bmpBiRgb)
    (column : placedAtCol display raw.width x = xoff)
    (row : placedAtRow display raw.height y = yoff)
    (left : xoff < display.cols) (top : yoff < display.rows) (fuel : Nat) :
    ∃ after, videoDisplayBitmap fuel display stack raw x y before = some (after, 0) ∧
      ∀ k c : Nat, k < clip yoff raw.height display.rows → c < clip xoff raw.width display.cols →
        after.pixels (((yoff : Int) + (clip yoff raw.height display.rows : Nat) - 1 - k) *
          display.cols + (xoff + c : Nat)) =
          rawPixel display raw.colorTable
            (raw.data (k * lineStep raw.width (clip xoff raw.width display.cols) + c)) := by
  have cols := display.cols_lt
  have rows := display.rows_lt
  have width := @clip_spec xoff raw.width display.cols left
  have height := @clip_spec yoff raw.height display.rows top
  unfold placedAtCol at column
  unfold placedAtRow at row
  unfold videoDisplayBitmap
  rw [if_neg (not_not.mpr signature), if_neg (by rw [compression]; decide)]
  simp only [column, row]
  rw [if_neg (by omega), if_neg (by rw [compression]; decide)]
  refine ⟨_, rfl, fun k c line col => ?_⟩
  simp only [Int.toNat_natCast]
  have address : ((yoff : Int) + (clip yoff raw.height display.rows : Nat) - 1 - k) * display.cols +
      (xoff + c : Nat) =
      (((yoff : Int) + (clip yoff raw.height display.rows : Nat) - 1) * display.cols + xoff) -
        k * display.cols + c := by
    push_cast
    ring
  rw [address, drawLines_apply (by omega) (by omega) _ _ _ _ (by omega) col, Nat.zero_add]
  rfl

theorem holds_getD (bytes : List UInt8) : Holds (fun i => bytes.getD i 0) 0 bytes := by
  intro i inside
  simp [inside]

/-- An image that is placed on the display is shown from its RLE8 file: by all operations, or by
those before the one that reaches the limit. -/
theorem rle_shown (image : SameImage raw rle ops)
    (column : placedAtCol display raw.width x = xoff)
    (row : placedAtRow display raw.height y = yoff)
    (left : xoff < display.cols) (top : yoff < display.rows) {pixel : UInt8 → UInt32}
    (palette : rlePixel display raw.colorsUsed raw.colorTable stack = some pixel)
    (visible : ∀ p, Covered ops ⟨0, 0⟩ p →
      (raw.height : Int) - 1 - p.line < clip yoff raw.height display.rows) :
    ∃ after result,
      videoDisplayBitmap (ops.length + 1) display stack rle x y before = some (after, result) ∧
      (painted ops ≤ display.cols * display.rows ∧
        PaintedBy display xoff yoff (clip xoff raw.width display.cols) raw pixel raw.image
          (Covered ops ⟨0, 0⟩) before.pixels after.pixels ∨
      ∃ first op rest, ops = first ++ op :: rest ∧
        painted first ≤ display.cols * display.rows ∧
        display.cols * display.rows < painted first + op.length ∧
        PaintedBy display xoff yoff (clip xoff raw.width display.cols) raw pixel raw.image
          (Covered first ⟨0, 0⟩) before.pixels after.pixels) := by
  have width := @clip_spec xoff raw.width display.cols left
  have stream := image.stream
  unfold placedAtCol at column
  unfold placedAtRow at row
  unfold videoDisplayBitmap
  rw [if_neg (not_not.mpr image.rleSignature), if_neg (by rw [image.rleCompression]; decide)]
  simp only [image.width, image.height, column, row]
  rw [if_neg (by omega), if_pos image.rleCompression, displayRle8Bitmap]
  simp only [image.colorsUsed, image.colorTable, palette, image.height, Int.toNat_natCast]
  generalize start : (Rle.mk 0 0 _ _ 0 before.pixels) = s
  have stands : AtCursor display xoff yoff (clip xoff raw.width display.cols) raw ⟨0, 0⟩ 0 s := by
    subst start
    refine ⟨rfl, ?_, fun _ => ?_, rfl⟩
    · simp
    · simp [shownAt]
  have pixels : s.pixels = before.pixels := by rw [← start]
  have first : s.bm = 0 := by rw [← start]
  rw [← first] at stream
  have run := @rleLoop_spec display xoff yoff (clip xoff raw.width display.cols)
    (clip yoff raw.height display.rows) pixel rle.data raw raw.image ops s ⟨0, 0⟩ 0 [0, 1] stands
    (by omega) visible (Nat.zero_le _) image.paint stream
  rw [pixels] at run
  simp only [Nat.zero_add] at run
  rcases run with ⟨finite, last, run, held, shown⟩ |
    ⟨begun, op, rest, after, split, room, limit, run, shown⟩
  · have zero : rle.data last.bm = 0 := held 0 Nat.two_pos
    have one : rle.data (last.bm + 1) = 1 := held 1 Nat.one_lt_two
    rw [run, rleLoop, rleTurn]
    simp only [zero, one, if_true]
    exact ⟨_, _, rfl, .inl ⟨finite, shown⟩⟩
  · rw [run]
    exact ⟨_, _, rfl, .inr ⟨begun, op, rest, split, room, limit, shown⟩⟩

theorem rle_not_shown (image : SameImage raw rle ops)
    (column : placedAtCol display raw.width x = xoff)
    (row : placedAtRow display raw.height y = yoff)
    (left : xoff < display.cols) (top : yoff < display.rows)
    (other : ¬display.format.ShowsRle8) (fuel : Nat) :
    videoDisplayBitmap fuel display stack rle x y before = some (before, -1) := by
  unfold placedAtCol at column
  unfold placedAtRow at row
  unfold videoDisplayBitmap
  rw [if_neg (not_not.mpr image.rleSignature), if_neg (by rw [image.rleCompression]; decide)]
  simp only [image.width, image.height, column, row]
  rw [if_neg (by omega), if_pos image.rleCompression, displayRle8Bitmap, rlePixel_none other]

theorem beyond_display {bmp : Bmp} (signature : bmp.signature = (66, 77))
    (compression : bmp.compression = bmpBiRgb ∨ bmp.compression = bmpBiRle8)
    (beyond : (placedAtCol display bmp.width x < 0 ∨
        display.cols ≤ placedAtCol display bmp.width x) ∨
      placedAtRow display bmp.height y < 0 ∨ display.rows ≤ placedAtRow display bmp.height y)
    (fuel : Nat) : videoDisplayBitmap fuel display stack bmp x y before = some (before, 0) := by
  unfold videoDisplayBitmap
  rw [if_neg (not_not.mpr signature), if_neg (fun neither => compression.elim neither.1 neither.2)]
  exact if_pos beyond

theorem shownAt_eq {p : Cursor} {height : Nat} :
    shownAt display xoff yoff height p =
      ((yoff : Int) + (height - 1 - p.line)) * display.cols + (xoff + p.col) := by
  rw [shownAt, rleAddress]
  ring

end Files

/-! ## When both are alike -/

/-- Both files of every image of a size at a position show the same. `unstated` says that the
headers do not state the number of colours. -/
def ShownAlike (display : Display) (width height : Nat) (unstated : Bool) (x y : Int) : Prop :=
  ∀ (raw rle : Bmp) (ops : List RleOp) (stack : UInt8 → UInt32) (before : Shown),
    SameImage raw rle ops → raw.width = width → raw.height = height →
    (raw.colorsUsed = 0 ↔ unstated = true) → SameShown display raw rle ops stack x y before

/-- What the RLE8 renderer needs to show what the other one shows. -/
structure Suits (display : Display) (width height : Nat) (unstated : Bool) (xoff yoff : Nat) :
    Prop where
  format : display.format.ShowsRle8
  palette : unstated = true → display.format = .index8
  rows : yoff + height ≤ display.rows
  lines : height = 1 ∨ fileLine width < clip xoff width display.cols + 2 ^ 16
  limit : width * height ≤ display.cols * display.rows ∨
    width * (height - 1) + clip xoff width display.cols + 254 ≤ display.cols * display.rows

section Alike

variable {display : Display} {raw rle : Bmp} {ops : List RleOp} {stack : UInt8 → UInt32} {x y : Int}
  {before : Shown} {xoff yoff : Nat}

/-- Where the renderer has what it needs, both show the same. -/
theorem Suits.sameShown {unstated : Bool} (image : SameImage raw rle ops)
    (colors : raw.colorsUsed = 0 ↔ unstated = true)
    (column : placedAtCol display raw.width x = xoff)
    (row : placedAtRow display raw.height y = yoff)
    (left : xoff < display.cols) (top : yoff < display.rows)
    (suits : Suits display raw.width raw.height unstated xoff yoff) :
    SameShown display raw rle ops stack x y before := by
  have width := @clip_spec xoff raw.width display.cols left
  have height := @clip_spec yoff raw.height display.rows top
  have rows := suits.rows
  have whole : clip yoff raw.height display.rows = raw.height := by omega
  obtain ⟨pixel, palette, stated, -⟩ :=
    @rlePixel_some display raw.colorsUsed raw.colorTable stack suits.format
  obtain ⟨fromRaw, ranRaw, lines⟩ := @raw_shown display raw stack x y before xoff yoff
    image.rawSignature image.rawCompression column row left top (ops.length + 1)
  obtain ⟨fromRle, result, ranRle, shown⟩ := @rle_shown display raw rle ops stack x y before xoff
    yoff image column row left top pixel palette fun p _ => by omega
  -- also where the limit was reached, all that is visible was painted
  have painted : PaintedBy display xoff yoff (clip xoff raw.width display.cols) raw pixel raw.image
      (Covered ops ⟨0, 0⟩) before.pixels fromRle.pixels := by
    rcases shown with ⟨-, painted⟩ | ⟨first, op, rest, split, room, limit, painted⟩
    · exact painted
    · subst split
      intro p col line
      rw [covered_before_limit image.paint room limit suits.limit col line]
      exact painted p col line
  refine ⟨_, fromRaw, fromRle, _, result, ranRaw, ranRle, fun p col line => ?_⟩
  simp only [column, row]
  intro _ right _ _
  have inside : p.col < clip xoff raw.width display.cols := by omega
  obtain ⟨there, kept⟩ := painted p inside line
  rw [shownAt_eq] at there kept
  split
  · rename_i covered
    have listed : display.format = .index8 ∨ (raw.image p).toNat < raw.colorsUsed := by
      by_cases zero : raw.colorsUsed = 0
      · exact .inl (suits.palette (colors.mp zero))
      · exact .inr (image.indices p col line zero)
    have step : p.line * lineStep raw.width (clip xoff raw.width display.cols) =
        p.line * fileLine raw.width := by
      rcases suits.lines with one | small
      · rw [show p.line = 0 by omega, Nat.zero_mul, Nat.zero_mul]
      · rw [(lineStep_spec (by omega)).2.mpr small]
    rw [there covered, stated _ listed]
    have drawn := lines p.line p.col (by omega) inside
    have sameRow : (yoff : Int) + raw.height - 1 - p.line = yoff + (raw.height - 1 - p.line) := by
      ring
    rw [step, whole, sameRow, Nat.cast_add] at drawn
    exact drawn.symm
  · rename_i uncovered
    exact kept uncovered

end Alike

/-! ## Fuel -/

/-- The next turn of the loop of `display_rle8_bitmap`. -/
def rleNext (display : Display) (xoff yoff width height : Nat) (pixel : UInt8 → UInt32)
    (data : Nat → UInt8) (s : Rle) : Option Rle :=
  match rleTurn display xoff yoff width height pixel data s with
  | .go next => some next
  | .done _ | .error _ => none

theorem rleLoop_fuelled (display : Display) (xoff yoff width height : Nat) (pixel : UInt8 → UInt32)
    (data : Nat → UInt8) :
    Recurrence.Fuelled (rleNext display xoff yoff width height pixel data)
      (rleLoop display xoff yoff width height pixel data) where
  empty _ := rfl
  last s stops := by
    simp only [rleNext] at stops
    simp only [rleLoop]
    cases turn : rleTurn display xoff yoff width height pixel data s with
    | go next =>
      rw [turn] at stops
      cases stops
    | done pixels => exact ⟨_, fun _ => rfl⟩
    | error pixels => exact ⟨_, fun _ => rfl⟩
  turn n s t goes := by
    simp only [rleNext] at goes
    rw [rleLoop]
    cases turn : rleTurn display xoff yoff width height pixel data s with
    | go next =>
      rw [turn] at goes
      cases goes
      rfl
    | done pixels =>
      rw [turn] at goes
      cases goes
    | error pixels =>
      rw [turn] at goes
      cases goes

theorem videoDisplayBitmap_mono {display : Display} {bmp : Bmp} {stack : UInt8 → UInt32} {x y : Int}
    {before : Shown} {n m : Nat} (more : n ≤ m) {shown : Shown × Int}
    (ran : videoDisplayBitmap n display stack bmp x y before = some shown) :
    videoDisplayBitmap m display stack bmp x y before = some shown := by
  unfold videoDisplayBitmap at ran ⊢
  simp only at ran ⊢
  split_ifs at ran ⊢ <;> try exact ran
  rw [displayRle8Bitmap] at ran ⊢
  simp only at ran ⊢
  cases palette : rlePixel display bmp.colorsUsed bmp.colorTable stack with
  | none => rwa [palette] at ran
  | some pixel =>
    rw [palette] at ran
    obtain ⟨result, looped, same⟩ := Option.bind_eq_some_iff.mp ran
    exact Option.bind_eq_some_iff.mpr
      ⟨result, (rleLoop_fuelled _ _ _ _ _ _ _).mono more looped, same⟩

/-! ## When they are not -/

def plainBmp (width height colorsUsed : Nat) (colorTable : UInt8 → ColorTableEntry)
    (data : Nat → UInt8) : Bmp :=
  ⟨(66, 77), width, height, bmpBiRgb, colorsUsed, colorTable, data⟩

/-- The RLE8 file of an image. -/
def Bmp.encoded (raw : Bmp) (ops : List RleOp) : Bmp :=
  { raw with compression := bmpBiRle8, data := fun i => (rleStream ops).getD i 0 }

theorem sameImage_encoded {width height colorsUsed : Nat} {colorTable : UInt8 → ColorTableEntry}
    {data : Nat → UInt8} {ops : List RleOp} (colors : colorsUsed ≤ 256)
    (listed : colorsUsed ≠ 0 → ∀ i, (data i).toNat < colorsUsed)
    (paint : PaintAll (plainBmp width height colorsUsed colorTable data)
      (plainBmp width height colorsUsed colorTable data).image ops ⟨0, 0⟩) :
    SameImage (plainBmp width height colorsUsed colorTable data)
      ((plainBmp width height colorsUsed colorTable data).encoded ops) ops where
  rawSignature := rfl
  rleSignature := rfl
  rawCompression := rfl
  rleCompression := rfl
  width := rfl
  height := rfl
  colorsUsed := rfl
  colorTable := rfl
  colors_le := colors
  indices _ _ _ stated := listed stated _
  stream := holds_getD _
  paint := paint

/-- Operations that paint the first pixel of a line only. -/
def reach (line : Nat) (index : UInt8) : List RleOp :=
  List.replicate line .endOfLine ++ [.run 1 index]

section Reach

variable {raw : Bmp} {line start : Nat} {index : UInt8} {p : Cursor}

theorem covered_reach : Covered (reach line index) ⟨0, start⟩ p ↔ p = ⟨0, start + line⟩ := by
  induction line generalizing start with
  | zero =>
    obtain ⟨col, row⟩ := p
    simp only [reach, List.replicate_zero, List.nil_append, Covered, RleOp.Covers, RleOp.length,
      or_false, Cursor.mk.injEq, UInt8.toNat_one]
    omega
  | succ n ih =>
    have step : Covered (reach (n + 1) index) ⟨0, start⟩ p ↔
        RleOp.endOfLine.Covers ⟨0, start⟩ p ∨ Covered (reach n index) ⟨0, start + 1⟩ p := Iff.rfl
    rw [step, ih, or_iff_right, Nat.add_right_comm, Nat.add_assoc]
    rintro ⟨-, -, none⟩
    exact Nat.not_lt_zero _ none

theorem covered_reach_first : Covered (reach line index) ⟨0, 0⟩ ⟨0, line⟩ := by
  rw [covered_reach, Nat.zero_add]

theorem painted_reach : painted (reach line index) = 1 := by
  simp [painted, reach, RleOp.length]

theorem paintAll_reach (width : 0 < raw.width) (inside : start + line < raw.height)
    (color : raw.image ⟨0, start + line⟩ = index) :
    PaintAll raw raw.image (reach line index) ⟨0, start⟩ := by
  induction line generalizing start with
  | zero =>
    have one : (1 : UInt8) ≠ 0 := by decide
    refine ⟨⟨one, fun _ => ⟨inside, width⟩, fun i first => ?_⟩, trivial⟩
    have : i = 0 := Nat.lt_one_iff.mp first
    subst this
    exact color.symm
  | succ n ih =>
    refine ⟨⟨trivial, fun some => absurd rfl some, fun i none => absurd none (Nat.not_lt_zero _)⟩,
      @ih (start + 1) (by omega) ?_⟩
    rw [← color, Nat.add_right_comm, Nat.add_assoc]

end Reach

section Unlike

variable {display : Display} {raw rle : Bmp} {ops : List RleOp} {stack : UInt8 → UInt32} {x y : Int}
  {before : Shown} {xoff yoff : Nat}

theorem raw_shown_at (signature : raw.signature = (66, 77))
    (compression : raw.compression = bmpBiRgb)
    (column : placedAtCol display raw.width x = xoff)
    (row : placedAtRow display raw.height y = yoff)
    (left : xoff < display.cols) (top : yoff < display.rows) :
    ∃ after, (∀ fuel, videoDisplayBitmap fuel display stack raw x y before = some (after, 0)) ∧
      ∀ p : Cursor, p.col < clip xoff raw.width display.cols → p.line < raw.height →
        raw.height - p.line ≤ clip yoff raw.height display.rows →
        after.pixels (shownAt display xoff yoff raw.height p) =
          rawPixel display raw.colorTable
            (raw.data ((clip yoff raw.height display.rows - (raw.height - p.line)) *
              lineStep raw.width (clip xoff raw.width display.cols) + p.col)) := by
  obtain ⟨after, ran, lines⟩ := @raw_shown display raw stack x y before xoff yoff signature
    compression column row left top 0
  refine ⟨after, fun fuel => videoDisplayBitmap_mono (Nat.zero_le fuel) ran, ?_⟩
  intro p col line seen
  rw [← lines _ p.col (by omega) col, shownAt_eq, Nat.cast_add]
  congr 3
  omega

/-- Where both show the same, they do at a pixel that is covered. -/
theorem SameShown.pixel (same : SameShown display raw rle ops stack x y before)
    (column : placedAtCol display raw.width x = xoff)
    (row : placedAtRow display raw.height y = yoff)
    (left : xoff < display.cols) (top : yoff < display.rows)
    {fromRaw fromRle : Shown} {rawResult rleResult : Int} {fuel : Nat}
    (ranRaw : ∀ fuel, videoDisplayBitmap fuel display stack raw x y before =
      some (fromRaw, rawResult))
    (ranRle : videoDisplayBitmap fuel display stack rle x y before = some (fromRle, rleResult))
    {p : Cursor} (covered : Covered ops ⟨0, 0⟩ p)
    (col : p.col < clip xoff raw.width display.cols) (line : p.line < raw.height)
    (seen : raw.height - p.line ≤ clip yoff raw.height display.rows) :
    fromRle.pixels (shownAt display xoff yoff raw.height p) =
      fromRaw.pixels (shownAt display xoff yoff raw.height p) := by
  have width := @clip_spec xoff raw.width display.cols left
  have height := @clip_spec yoff raw.height display.rows top
  obtain ⟨other, otherRaw, otherRle, _, _, ranOtherRaw, ranOtherRle, equal⟩ := same
  obtain rfl : otherRaw = fromRaw := by
    rw [ranRaw] at ranOtherRaw
    simp only [Option.some.injEq, Prod.mk.injEq] at ranOtherRaw
    exact ranOtherRaw.1.symm
  obtain rfl : otherRle = fromRle := by
    have first := videoDisplayBitmap_mono (Nat.le_max_left other fuel) ranOtherRle
    have second := videoDisplayBitmap_mono (Nat.le_max_right other fuel) ranRle
    rw [first] at second
    simp only [Option.some.injEq, Prod.mk.injEq] at second
    exact second.1
  have at' := equal p (by omega) line
  simp only [column, row] at at'
  rw [if_pos covered] at at'
  rw [shownAt_eq]
  exact at' (by omega) (by omega) (by omega) (by omega)

theorem rle_shown_all (image : SameImage raw rle ops)
    (column : placedAtCol display raw.width x = xoff)
    (row : placedAtRow display raw.height y = yoff)
    (left : xoff < display.cols) (top : yoff < display.rows) {pixel : UInt8 → UInt32}
    (palette : rlePixel display raw.colorsUsed raw.colorTable stack = some pixel)
    (visible : ∀ p, Covered ops ⟨0, 0⟩ p →
      (raw.height : Int) - 1 - p.line < clip yoff raw.height display.rows)
    (few : painted ops ≤ display.cols * display.rows) :
    ∃ after result,
      videoDisplayBitmap (ops.length + 1) display stack rle x y before = some (after, result) ∧
      PaintedBy display xoff yoff (clip xoff raw.width display.cols) raw pixel raw.image
        (Covered ops ⟨0, 0⟩) before.pixels after.pixels := by
  obtain ⟨after, result, ran, ⟨-, shown⟩ | ⟨first, op, rest, split, -, limit, -⟩⟩ :=
    @rle_shown display raw rle ops stack x y before xoff yoff image column row left top pixel
      palette visible
  · exact ⟨after, result, ran, shown⟩
  · subst split
    have total : painted (first ++ op :: rest) = painted first + (op.length + painted rest) := by
      simp [painted]
    omega

end Unlike

/-- Black, and white for the other indices. -/
def blackWhite (index : UInt8) : ColorTableEntry := if index = 0 then ⟨0, 0, 0⟩ else ⟨255, 255, 255⟩

theorem rawPixel_blackWhite (display : Display) :
    rawPixel display blackWhite 1 ≠ rawPixel display blackWhite 0 := by
  have white : blackWhite 1 = ⟨255, 255, 255⟩ := rfl
  have black : blackWhite 0 = ⟨0, 0, 0⟩ := rfl
  simp only [rawPixel, white, black, fill8Bit332Rgb, fill15Bit555Rgb, fill16Bit565Rgb,
    fill32BitX888Rgb, fill24Bit888Rgb, swap16, swap32]
  cases display.format <;> cases display.littleEndian <;>
    simp only [if_true, Bool.false_eq_true, if_false] <;> decide

theorem ne_succ (value : UInt32) : value + 1 ≠ value := by
  simp

section Necessary

variable {display : Display} {width height : Nat} {unstated : Bool} {x y : Int} {xoff yoff : Nat}

/-- The number of colours in the header of a black and white image. -/
def twoColors (unstated : Bool) : Nat := if unstated then 0 else 2

theorem twoColors_spec : twoColors unstated ≤ 256 ∧ (twoColors unstated = 0 ↔ unstated = true) := by
  cases unstated <;> decide

def blackBmp (width height : Nat) (unstated : Bool) : Bmp :=
  plainBmp width height (twoColors unstated) blackWhite fun _ => 0

theorem sameImage_black {ops : List RleOp}
    (paint : PaintAll (blackBmp width height unstated) (blackBmp width height unstated).image ops
      ⟨0, 0⟩) :
    SameImage (blackBmp width height unstated) ((blackBmp width height unstated).encoded ops) ops :=
  sameImage_encoded twoColors_spec.1 (fun stated _ => Nat.pos_of_ne_zero stated) paint

theorem sameImage_corner (wide : 0 < width) (high : 0 < height) :
    SameImage (blackBmp width height unstated)
      ((blackBmp width height unstated).encoded (reach (height - 1) 0)) (reach (height - 1) 0) := by
  have top : 0 + (height - 1) < height := by omega
  exact sameImage_black (paintAll_reach wide top rfl)

theorem ShownAlike.format (alike : ShownAlike display width height unstated x y)
    (column : placedAtCol display width x = xoff) (row : placedAtRow display height y = yoff)
    (left : xoff < display.cols) (top : yoff < display.rows) (wide : 0 < width)
    (high : 0 < height) :
    display.format.ShowsRle8 := by
  by_contra other
  have cols := @clip_spec xoff width display.cols left
  have rows := @clip_spec yoff height display.rows top
  have first : 0 < clip xoff width display.cols := by omega
  have line : height - 1 < height := by omega
  have seen : height - (height - 1) ≤ clip yoff height display.rows := by omega
  have image := @sameImage_corner width height unstated wide high
  let before : Shown := ⟨fun _ => rawPixel display blackWhite 0 + 1, []⟩
  obtain ⟨fromRaw, ranRaw, drawn⟩ := @raw_shown_at display (blackBmp width height unstated)
    (fun _ => 0) x y before xoff yoff rfl rfl column row left top
  have ranRle := @rle_not_shown display _ _ _ (fun _ => 0) x y before xoff yoff image column row
    left top other 0
  have same := (alike _ _ _ _ before image rfl rfl twoColors_spec.2).pixel column row left top
    ranRaw ranRle covered_reach_first first line seen
  rw [drawn ⟨0, height - 1⟩ first line seen] at same
  exact ne_succ _ same

theorem reach_le_limit {line : Nat} {index : UInt8} (left : xoff < display.cols)
    (top : yoff < display.rows) : painted (reach line index) ≤ display.cols * display.rows := by
  rw [painted_reach]
  exact Nat.mul_pos (by omega) (by omega)

/-- Both show the same only if the palette is set. -/
theorem ShownAlike.palette (alike : ShownAlike display width height unstated x y)
    (column : placedAtCol display width x = xoff) (row : placedAtRow display height y = yoff)
    (left : xoff < display.cols) (top : yoff < display.rows) (wide : 0 < width) (high : 0 < height)
    (zero : unstated = true) : display.format = .index8 := by
  by_contra other
  have shows := alike.format column row left top wide high
  have cols := @clip_spec xoff width display.cols left
  have rows := @clip_spec yoff height display.rows top
  have first : 0 < clip xoff width display.cols := by omega
  have line : height - 1 < height := by omega
  have seen : height - (height - 1) ≤ clip yoff height display.rows := by omega
  have image := @sameImage_corner width height unstated wide high
  let stack : UInt8 → UInt32 := fun _ => rawPixel display blackWhite 0 + 1
  let before : Shown := ⟨fun _ => 0, []⟩
  obtain ⟨pixel, palette, -, unset⟩ := @rlePixel_some display (twoColors unstated) blackWhite stack
    shows
  obtain ⟨fromRaw, ranRaw, drawn⟩ := @raw_shown_at display (blackBmp width height unstated)
    stack x y before xoff yoff rfl rfl column row left top
  have visible (p : Cursor) (covered : Covered (reach (height - 1) 0) ⟨0, 0⟩ p) :
      (height : Int) - 1 - p.line < clip yoff height display.rows := by
    rw [covered_reach.mp covered]
    simp only
    omega
  obtain ⟨fromRle, result, ranRle, shown⟩ := @rle_shown_all display _ _ _ stack x y before xoff yoff
    image column row left top pixel palette visible (reach_le_limit left top)
  have same := (alike _ _ _ stack before image rfl rfl twoColors_spec.2).pixel column row left top
    ranRaw ranRle covered_reach_first first line seen
  rw [drawn ⟨0, height - 1⟩ first line seen,
    (shown ⟨0, height - 1⟩ first line).1 covered_reach_first] at same
  have none : twoColors unstated ≤ (0 : UInt8).toNat := by
    rw [zero]
    exact Nat.le_refl _
  rw [show (blackBmp width height unstated).image ⟨0, height - 1⟩ = 0 from rfl,
    unset 0 other none] at same
  exact ne_succ _ same

/-- An image that is black but for the first pixel of a line. -/
def dottedBmp (width height : Nat) (unstated : Bool) (line : Nat) : Bmp :=
  plainBmp width height (twoColors unstated) blackWhite
    fun i => if i = line * fileLine width then 1 else 0

theorem sameImage_dotted {line : Nat} (wide : 0 < width) (inside : line < height) :
    SameImage (dottedBmp width height unstated line)
      ((dottedBmp width height unstated line).encoded (reach line 1)) (reach line 1) := by
  have white : (dottedBmp width height unstated line).image ⟨0, line⟩ = 1 := if_pos rfl
  have begins : 0 + line < height := by omega
  refine sameImage_encoded twoColors_spec.1 (fun stated i => ?_)
    (paintAll_reach wide begins (by rwa [Nat.zero_add]))
  cases unstated with
  | true => exact absurd rfl stated
  | false => split <;> decide

/-- Both show the same only if the line with the pixel is found in the uncompressed file. -/
theorem SameShown.line {stack : UInt8 → UInt32} {before : Shown} {line : Nat}
    (same : SameShown display (dottedBmp width height unstated line)
      ((dottedBmp width height unstated line).encoded (reach line 1)) (reach line 1) stack x y
      before)
    (shows : display.format.ShowsRle8) (set : unstated = true → display.format = .index8)
    (column : placedAtCol display width x = xoff) (row : placedAtRow display height y = yoff)
    (left : xoff < display.cols) (top : yoff < display.rows) (wide : 0 < width)
    (inside : line < height) (seen : height - line ≤ clip yoff height display.rows) :
    (clip yoff height display.rows - (height - line)) *
      lineStep width (clip xoff width display.cols) = line * fileLine width := by
  by_contra other
  have cols := @clip_spec xoff width display.cols left
  have first : 0 < clip xoff width display.cols := by omega
  have image := @sameImage_dotted width height unstated line wide inside
  obtain ⟨pixel, palette, stated, -⟩ := @rlePixel_some display (twoColors unstated) blackWhite stack
    shows
  obtain ⟨fromRaw, ranRaw, drawn⟩ := @raw_shown_at display (dottedBmp width height unstated line)
    stack x y before xoff yoff rfl rfl column row left top
  have visible (p : Cursor) (covered : Covered (reach line 1) ⟨0, 0⟩ p) :
      (height : Int) - 1 - p.line < clip yoff height display.rows := by
    rw [covered_reach.mp covered]
    simp only
    omega
  obtain ⟨fromRle, result, ranRle, shown⟩ := @rle_shown_all display _ _ _ stack x y before xoff
    yoff image column row left top pixel palette visible (reach_le_limit left top)
  have equal := same.pixel column row left top ranRaw ranRle covered_reach_first first inside seen
  have known : display.format = .index8 ∨ (1 : UInt8).toNat < twoColors unstated := by
    cases unstated with
    | true => exact .inl (set rfl)
    | false => exact .inr (by decide)
  rw [drawn ⟨0, line⟩ first inside seen, (shown ⟨0, line⟩ first inside).1 covered_reach_first]
    at equal
  have black : (dottedBmp width height unstated line).data
      ((clip yoff height display.rows - (height - line)) *
        lineStep width (clip xoff width display.cols) + 0) = 0 := if_neg other
  have white : (dottedBmp width height unstated line).image ⟨0, line⟩ = 1 := if_pos rfl
  rw [white, stated 1 known] at equal
  exact rawPixel_blackWhite display (equal.trans (congrArg _ black))

theorem ShownAlike.line (alike : ShownAlike display width height unstated x y)
    (column : placedAtCol display width x = xoff) (row : placedAtRow display height y = yoff)
    (left : xoff < display.cols) (top : yoff < display.rows) (wide : 0 < width) {line : Nat}
    (inside : line < height) (seen : height - line ≤ clip yoff height display.rows) :
    (clip yoff height display.rows - (height - line)) *
      lineStep width (clip xoff width display.cols) = line * fileLine width := by
  have high : 0 < height := by omega
  exact (alike _ _ _ (fun _ => 0) ⟨fun _ => 0, []⟩ (sameImage_dotted wide inside) rfl rfl
    twoColors_spec.2).line (alike.format column row left top wide high)
    (alike.palette column row left top wide high) column row left top wide inside seen

theorem ShownAlike.rows (alike : ShownAlike display width height unstated x y)
    (column : placedAtCol display width x = xoff) (row : placedAtRow display height y = yoff)
    (left : xoff < display.cols) (top : yoff < display.rows) (wide : 0 < width)
    (high : 0 < height) :
    yoff + height ≤ display.rows := by
  by_contra past
  have cols := @clip_spec xoff width display.cols left
  have rows := @clip_spec yoff height display.rows top
  have found := alike.line column row left top wide (Nat.sub_lt high Nat.one_pos) (by omega)
  have step := (@lineStep_spec width (clip xoff width display.cols) (by omega)).1
  have long : 0 < fileLine width := by
    unfold fileLine
    omega
  have : (clip yoff height display.rows - (height - (height - 1))) *
      lineStep width (clip xoff width display.cols) < (height - 1) * fileLine width :=
    lt_of_le_of_lt (Nat.mul_le_mul_left _ step) (Nat.mul_lt_mul_of_pos_right (by omega) long)
  omega

theorem ShownAlike.lines (alike : ShownAlike display width height unstated x y)
    (column : placedAtCol display width x = xoff) (row : placedAtRow display height y = yoff)
    (left : xoff < display.cols) (top : yoff < display.rows) (wide : 0 < width)
    (high : 0 < height) :
    height = 1 ∨ fileLine width < clip xoff width display.cols + 2 ^ 16 := by
  by_cases one : height = 1
  · exact .inl one
  have fits := alike.rows column row left top wide high
  have cols := @clip_spec xoff width display.cols left
  have rows := @clip_spec yoff height display.rows top
  have found := alike.line column row left top wide (show 1 < height by omega) (by omega)
  rw [show clip yoff height display.rows - (height - 1) = 1 by omega, Nat.one_mul, Nat.one_mul]
    at found
  exact .inr ((lineStep_spec (by omega)).2.mp found)

end Necessary

/-! ## All pixels -/

section Whole

variable {bmp : Bmp} {image : Cursor → UInt8} {ops rest : List RleOp} {cursor : Cursor}

theorem paintAll_append : PaintAll bmp image (ops ++ rest) cursor ↔
    PaintAll bmp image ops cursor ∧ PaintAll bmp image rest (cursorBehind ops cursor) := by
  induction ops generalizing cursor with
  | nil => simp [PaintAll, cursorBehind]
  | cons op ops ih => rw [List.cons_append, PaintAll, PaintAll, ih, and_assoc, cursorBehind]

theorem cursorBehind_append :
    cursorBehind (ops ++ rest) cursor = cursorBehind rest (cursorBehind ops cursor) := by
  induction ops generalizing cursor with
  | nil => rfl
  | cons op ops ih => exact ih

theorem painted_append : painted (ops ++ rest) = painted ops + painted rest := by
  simp [painted]

theorem cursor_le_behind : cursor.line < (cursorBehind ops cursor).line ∨
    cursor.line = (cursorBehind ops cursor).line ∧ cursor.col ≤ (cursorBehind ops cursor).col := by
  induction ops generalizing cursor with
  | nil => exact .inr ⟨rfl, Nat.le_refl _⟩
  | cons op ops ih =>
    have later := @ih (op.next cursor)
    rw [cursorBehind]
    cases op <;> simp only [RleOp.next] at later ⊢ <;> omega

theorem Covered.before {p : Cursor} (covered : Covered ops cursor p) :
    p.line < (cursorBehind ops cursor).line ∨
      p.line = (cursorBehind ops cursor).line ∧ p.col < (cursorBehind ops cursor).col := by
  induction ops generalizing cursor with
  | nil => exact covered.elim
  | cons op ops ih =>
    rcases covered with ⟨line, -, high⟩ | covered
    · have later := @cursor_le_behind ops (op.next cursor)
      rw [cursorBehind]
      cases op <;> simp only [RleOp.next, RleOp.length] at later high ⊢ <;> omega
    · exact ih covered

theorem not_covered_of_last {first : List RleOp} {op last : RleOp} {p : Cursor}
    (split : ops ++ [last] = first ++ op :: rest) (uncovered : ¬Covered ops cursor p) :
    ¬Covered first cursor p := by
  intro covered
  apply uncovered
  rcases List.eq_nil_or_concat rest with rfl | ⟨others, other, rfl⟩
  · rwa [(List.append_inj' split rfl).1]
  · rw [List.concat_eq_append, ← List.cons_append, ← List.append_assoc] at split
    rw [(List.append_inj' split rfl).1, covered_append]
    exact .inl covered

def dots (n : Nat) : List RleOp := List.replicate n (.run 1 0)

theorem dots_spec (black : ∀ p, image p = 0) {n : Nat} (inside : cursor.col + n ≤ bmp.width)
    (line : cursor.line < bmp.height) : PaintAll bmp image (dots n) cursor ∧
      cursorBehind (dots n) cursor = ⟨cursor.col + n, cursor.line⟩ ∧ painted (dots n) = n := by
  induction n generalizing cursor with
  | zero => exact ⟨trivial, rfl, rfl⟩
  | succ n ih =>
    have one : (1 : UInt8) ≠ 0 := by decide
    obtain ⟨paint, behind, total⟩ := @ih ⟨cursor.col + 1, cursor.line⟩ (by simp only; omega) line
    refine ⟨⟨⟨one, fun _ => ⟨line, ?_⟩, fun i _ => (black _).symm⟩, paint⟩, ?_, ?_⟩
    · simp only [RleOp.length, UInt8.toNat_one]
      omega
    · refine behind.trans ?_
      rw [Nat.add_right_comm, Nat.add_assoc]
    · rw [dots, List.replicate_succ, painted_cons, ← dots, total]
      exact Nat.add_comm 1 n

def dotLines (width : Nat) : Nat → List RleOp
  | 0 => []
  | n + 1 => dots width ++ .endOfLine :: dotLines width n

theorem dotLines_spec (black : ∀ p, image p = 0) {n line : Nat} (inside : line + n ≤ bmp.height) :
    PaintAll bmp image (dotLines bmp.width n) ⟨0, line⟩ ∧
      cursorBehind (dotLines bmp.width n) ⟨0, line⟩ = ⟨0, line + n⟩ ∧
      painted (dotLines bmp.width n) = bmp.width * n := by
  induction n generalizing line with
  | zero => exact ⟨trivial, rfl, rfl⟩
  | succ n ih =>
    obtain ⟨paint, behind, total⟩ := @dots_spec bmp image ⟨0, line⟩ black bmp.width
      (by simp only; omega) (by simp only; omega)
    obtain ⟨paintRest, behindRest, totalRest⟩ := @ih (line + 1) (by omega)
    simp only [dotLines]
    refine ⟨paintAll_append.mpr ⟨paint, ?_⟩, ?_, ?_⟩
    · rw [behind]
      exact ⟨⟨trivial, fun some => absurd rfl some, fun i none => absurd none (Nat.not_lt_zero _)⟩,
        paintRest⟩
    · rw [cursorBehind_append, behind, cursorBehind]
      refine behindRest.trans ?_
      rw [Nat.add_right_comm, Nat.add_assoc]
    · rw [painted_append, total, painted_cons, totalRest, Nat.mul_succ]
      simp only [RleOp.length]
      omega

end Whole

section Exactly

variable {display : Display} {width height : Nat} {unstated : Bool} {x y : Int} {xoff yoff : Nat}

/-- Both show the same only if the limit is not reached before the last visible pixel. -/
theorem ShownAlike.limit (alike : ShownAlike display width height unstated x y)
    (column : placedAtCol display width x = xoff) (row : placedAtRow display height y = yoff)
    (left : xoff < display.cols) (top : yoff < display.rows) (wide : 0 < width)
    (high : 0 < height) :
    width * height ≤ display.cols * display.rows ∨
      width * (height - 1) + clip xoff width display.cols + 254 ≤ display.cols * display.rows := by
  by_contra large
  have shows := alike.format column row left top wide high
  have fits := alike.rows column row left top wide high
  have cols := @clip_spec xoff width display.cols left
  have rows := @clip_spec yoff height display.rows top
  have whole : width * height = width * (height - 1) + width := by
    rw [← Nat.mul_succ, Nat.succ_eq_add_one, Nat.sub_add_cancel high]
  have black (p : Cursor) : (blackBmp width height unstated).image p = 0 := rfl
  -- the last visible pixel begins a run that is as long as it can be
  obtain ⟨before, isBefore⟩ : ∃ before, before = clip xoff width display.cols - 1 := ⟨_, rfl⟩
  obtain ⟨n, isLength⟩ : ∃ n, n = min 255 (width - before) := ⟨_, rfl⟩
  have length : (UInt8.ofNat n).toNat = n :=
    UInt8.toNat_ofNat_of_lt' (by simp only [UInt8.size]; omega)
  have positive : UInt8.ofNat n ≠ 0 := by
    intro zero
    rw [zero] at length
    have : (0 : UInt8).toNat = 0 := rfl
    omega
  have shown : before < clip xoff width display.cols := by omega
  have line : height - 1 < height := by omega
  have seen : height - (height - 1) ≤ clip yoff height display.rows := by omega
  have belows : 0 + (height - 1) ≤ height := by omega
  have beside : 0 + before ≤ width := by omega
  obtain ⟨paintLines, behindLines, paintedLines⟩ :=
    @dotLines_spec (blackBmp width height unstated) _ black (height - 1) 0 belows
  obtain ⟨paintDots, behindDots, paintedDots⟩ :=
    @dots_spec (blackBmp width height unstated) _ ⟨0, height - 1⟩ black before beside line
  rw [Nat.zero_add] at behindLines
  simp only [Nat.zero_add] at behindDots
  have behind : cursorBehind (dotLines width (height - 1) ++ dots before) ⟨0, 0⟩ =
      ⟨before, height - 1⟩ := by
    rw [cursorBehind_append]
    exact (congrArg (cursorBehind _) behindLines).trans behindDots
  have paint : PaintAll (blackBmp width height unstated) (blackBmp width height unstated).image
      (dotLines width (height - 1) ++ dots before ++ [.run (UInt8.ofNat n) 0]) ⟨0, 0⟩ := by
    refine paintAll_append.mpr ⟨paintAll_append.mpr ⟨paintLines, ?_⟩, ?_⟩
    · exact (congrArg (PaintAll _ _ _) behindLines).mpr paintDots
    · rw [behind]
      refine ⟨⟨positive, fun _ => ⟨line, ?_⟩, fun _ _ => rfl⟩, trivial⟩
      simp only [RleOp.length, length]
      change before + n ≤ width
      omega
  have total : painted (dotLines width (height - 1) ++ dots before ++ [.run (UInt8.ofNat n) 0]) =
      width * (height - 1) + before + n := by
    rw [painted_append, painted_append, paintedDots]
    refine congrArg₂ _ (congrArg (· + before) paintedLines) ?_
    rw [painted_cons]
    exact length
  have image := sameImage_black paint
  let shownBefore : Shown := ⟨fun _ => rawPixel display blackWhite 0 + 1, []⟩
  obtain ⟨pixel, palette, -, -⟩ := @rlePixel_some display (twoColors unstated) blackWhite
    (fun _ => 0) shows
  obtain ⟨fromRaw, ranRaw, drawn⟩ := @raw_shown_at display (blackBmp width height unstated)
    (fun _ => 0) x y shownBefore xoff yoff rfl rfl column row left top
  have visible (p : Cursor) : (height : Int) - 1 - p.line < clip yoff height display.rows := by
    omega
  obtain ⟨fromRle, result, ranRle, painting⟩ := @rle_shown display _ _ _ (fun _ => 0) x y
    shownBefore xoff yoff image column row left top pixel palette fun p _ => visible p
  have last : ¬Covered (dotLines width (height - 1) ++ dots before) ⟨0, 0⟩
      ⟨before, height - 1⟩ := by
    intro covered
    have earlier := covered.before
    rw [behind] at earlier
    simp only at earlier
    omega
  have covered : Covered (dotLines width (height - 1) ++ dots before ++ [.run (UInt8.ofNat n) 0])
      ⟨0, 0⟩ ⟨before, height - 1⟩ := by
    rw [covered_append, behind]
    refine .inr (.inl ⟨rfl, Nat.le_refl _, ?_⟩)
    simp only [RleOp.length, length]
    omega
  have same := (alike _ _ _ _ shownBefore image rfl rfl twoColors_spec.2).pixel column row left top
    ranRaw ranRle covered shown line seen
  rw [drawn ⟨before, height - 1⟩ shown line seen] at same
  rcases painting with ⟨finite, -⟩ | ⟨first, op, rest, split, -, -, painting⟩
  · rw [total] at finite
    omega
  · rw [(painting ⟨before, height - 1⟩ shown line).2 (not_covered_of_last split last)] at same
    exact ne_succ _ same

/-- The uncompressed and the RLE8 files of all images of a size show the same at a position exactly
if the RLE8 renderer has what it needs, or nothing is visible. -/
theorem shownAlike_iff (display : Display) (width height : Nat) (unstated : Bool) (x y : Int) :
    ShownAlike display width height unstated x y ↔
      ∀ xoff yoff : Nat, placedAtCol display width x = xoff → placedAtRow display height y = yoff →
        xoff < display.cols → yoff < display.rows → 0 < width → 0 < height →
        Suits display width height unstated xoff yoff := by
  constructor
  · intro alike xoff yoff column row left top wide high
    exact ⟨alike.format column row left top wide high, alike.palette column row left top wide high,
      alike.rows column row left top wide high, alike.lines column row left top wide high,
      alike.limit column row left top wide high⟩
  · rintro suits raw rle ops stack before image rfl rfl colors
    by_cases beyond : (placedAtCol display raw.width x < 0 ∨
        display.cols ≤ placedAtCol display raw.width x) ∨
        placedAtRow display raw.height y < 0 ∨ display.rows ≤ placedAtRow display raw.height y
    · refine ⟨0, before, before, 0, 0, beyond_display image.rawSignature (.inl image.rawCompression)
        beyond 0, beyond_display image.rleSignature (.inr image.rleCompression) ?_ 0, ?_⟩
      · rwa [image.width, image.height]
      · intro p _ _
        split
        · intros
          rfl
        · intros
          rfl
    obtain ⟨xoff, column⟩ : ∃ xoff : Nat, placedAtCol display raw.width x = xoff :=
      ⟨(placedAtCol display raw.width x).toNat, by omega⟩
    obtain ⟨yoff, row⟩ : ∃ yoff : Nat, placedAtRow display raw.height y = yoff :=
      ⟨(placedAtRow display raw.height y).toNat, by omega⟩
    have left : xoff < display.cols := by omega
    have top : yoff < display.rows := by omega
    by_cases empty : 0 < raw.width ∧ 0 < raw.height
    · exact (suits xoff yoff column row left top empty.1 empty.2).sameShown image colors column row
        left top
    obtain ⟨fromRle, fuel, result, ran⟩ : ∃ fromRle fuel result,
        videoDisplayBitmap fuel display stack rle x y before = some (fromRle, result) := by
      by_cases shows : display.format.ShowsRle8
      · obtain ⟨pixel, palette, -⟩ :=
          @rlePixel_some display raw.colorsUsed raw.colorTable stack shows
        obtain ⟨after, result, ran, -⟩ := @rle_shown display raw rle ops stack x y before xoff yoff
          image column row left top pixel palette fun p covered => by
            have := covered.inside image.paint
            omega
        exact ⟨after, _, result, ran⟩
      · exact ⟨before, 0, -1, rle_not_shown image column row left top shows 0⟩
    obtain ⟨fromRaw, ranRaw, -⟩ := @raw_shown display raw stack x y before xoff yoff
      image.rawSignature image.rawCompression column row left top fuel
    refine ⟨fuel, fromRaw, fromRle, 0, result, ranRaw, ran, fun p col line => ?_⟩
    omega

/-- A display with two by two pixels in true colour. -/
def twoByTwo : Display where
  cols := 2
  rows := 2
  format := .rgbX888
  littleEndian := false
  splashScreenAlign := false
  cols_lt := by decide
  rows_lt := by decide

/-- A column of three pixels, of which the uppermost is white, is cut off at the bottom of the
display: the uncompressed file shows the two lower pixels, the RLE8 file the upper ones. -/
theorem videoDisplayBitmap_differs :
    ¬∀ (display : Display) (raw rle : Bmp) (ops : List RleOp) (stack : UInt8 → UInt32) (x y : Int)
      (before : Shown), SameImage raw rle ops → SameShown display raw rle ops stack x y before := by
  intro every
  have same := every twoByTwo (dottedBmp 1 3 false 2) _ (reach 2 1) (fun _ => 0) 0 0
    ⟨fun _ => 0, []⟩ (sameImage_dotted (by decide) (by decide))
  have column : placedAtCol twoByTwo 1 0 = (0 : Nat) := by decide
  have row : placedAtRow twoByTwo 3 0 = (0 : Nat) := by decide
  have found := same.line (by decide) (by decide) column row (by decide) (by decide) (by decide)
    (by decide) (by decide)
  revert found
  decide

end Exactly

end HrppBoot.Video
