import HrppBoot.Video.Bitmap
import Mathlib.Tactic.Linarith
import Mathlib.Tactic.Ring

/-!
# The RLE8 renderer

The operations of an RLE8 file paint pixels of the image from a cursor that starts in the lower left
corner. The opcode loop of `display_rle8_bitmap` shows the colours of the palette at every visible
pixel that the operations paint, up to the one that reaches its limit, and leaves the others as they
were.
-/

namespace HrppBoot.Video

/-! ## Encodings -/

/-- An operation of an RLE8 stream. -/
inductive RleOp where
  | run (count index : UInt8)
  /-- An unencoded run and the byte that pads it where its length is odd. -/
  | absolute (indices : List UInt8) (pad : UInt8)
  | endOfLine
  | delta (right up : UInt8)
  deriving DecidableEq, Repr

/-- A column and a line of the image, counted from the lower left corner. -/
structure Cursor where
  col : Nat
  line : Nat
  deriving DecidableEq, Repr

namespace RleOp

/-- The bytes of an operation. -/
def bytes : RleOp → List UInt8
  | run count index => [count, index]
  | absolute indices pad =>
    0 :: UInt8.ofNat indices.length :: (indices ++ if indices.length % 2 = 1 then [pad] else [])
  | endOfLine => [0, 0]
  | delta right up => [0, 2, right, up]

/-- How many pixels an operation paints. -/
def length : RleOp → Nat
  | run count _ => count.toNat
  | absolute indices _ => indices.length
  | endOfLine | delta _ _ => 0

/-- The colour index of the `i`th of them. -/
def index : RleOp → Nat → UInt8
  | run _ index, _ => index
  | absolute indices _, i => indices.getD i 0
  | endOfLine, _ | delta _ _, _ => 0

/-- The cursor behind an operation. -/
def next (cursor : Cursor) : RleOp → Cursor
  | run count _ => ⟨cursor.col + count.toNat, cursor.line⟩
  | absolute indices _ => ⟨cursor.col + indices.length, cursor.line⟩
  | endOfLine => ⟨0, cursor.line + 1⟩
  | delta right up => ⟨cursor.col + right.toNat, cursor.line + up.toNat⟩

/-- Runs have the lengths that their bytes can state. -/
def WellFormed : RleOp → Prop
  | run count _ => count ≠ 0
  | absolute indices _ => 3 ≤ indices.length ∧ indices.length ≤ 255
  | endOfLine | delta _ _ => True

instance : DecidablePred WellFormed
  | run _ _ => inferInstanceAs (Decidable (_ ≠ _))
  | absolute _ _ => inferInstanceAs (Decidable (_ ∧ _))
  | endOfLine | delta _ _ => inferInstanceAs (Decidable True)

/-- The operation at a cursor paints a pixel. -/
def Covers (op : RleOp) (cursor pixel : Cursor) : Prop :=
  pixel.line = cursor.line ∧ cursor.col ≤ pixel.col ∧ pixel.col < cursor.col + op.length

instance (op : RleOp) (cursor pixel : Cursor) : Decidable (op.Covers cursor pixel) :=
  inferInstanceAs (Decidable (_ ∧ _))

/-- The operation at a cursor paints pixels of an image, in their colours. -/
structure Paints (bmp : Bmp) (image : Cursor → UInt8) (cursor : Cursor) (op : RleOp) : Prop where
  wellFormed : op.WellFormed
  inside : op.length ≠ 0 → cursor.line < bmp.height ∧ cursor.col + op.length ≤ bmp.width
  same : ∀ i < op.length, op.index i = image ⟨cursor.col + i, cursor.line⟩

end RleOp

/-- The cursor behind operations. -/
def cursorBehind : List RleOp → Cursor → Cursor
  | [], cursor => cursor
  | op :: ops, cursor => cursorBehind ops (op.next cursor)

/-- How many pixels operations paint. -/
def painted (ops : List RleOp) : Nat := (ops.map RleOp.length).sum

theorem painted_cons (op : RleOp) (ops : List RleOp) :
    painted (op :: ops) = op.length + painted ops := List.sum_cons

/-- The operations from a cursor on paint a pixel. -/
def Covered : List RleOp → Cursor → Cursor → Prop
  | [], _, _ => False
  | op :: ops, cursor, pixel => op.Covers cursor pixel ∨ Covered ops (op.next cursor) pixel

instance decidableCovered : (ops : List RleOp) → (cursor pixel : Cursor) →
    Decidable (Covered ops cursor pixel)
  | [], _, _ => inferInstanceAs (Decidable False)
  | op :: ops, cursor, pixel =>
    have := decidableCovered ops (op.next cursor) pixel
    inferInstanceAs (Decidable (_ ∨ _))

/-- The operations from a cursor on paint pixels of an image, in their colours. -/
def PaintAll (bmp : Bmp) (image : Cursor → UInt8) : List RleOp → Cursor → Prop
  | [], _ => True
  | op :: ops, cursor => op.Paints bmp image cursor ∧ PaintAll bmp image ops (op.next cursor)

/-- The bytes of a line of an uncompressed file: those of its pixels, padded to four. -/
def fileLine (width : Nat) : Nat := (width + 3) / 4 * 4

/-- The colour index of a pixel of an uncompressed file. -/
def Bmp.image (raw : Bmp) (pixel : Cursor) : UInt8 :=
  raw.data (pixel.line * fileLine raw.width + pixel.col)

/-- A memory holds bytes at an offset. -/
def Holds (data : Nat → UInt8) (offset : Nat) (bytes : List UInt8) : Prop :=
  ∀ i (inside : i < bytes.length), data (offset + i) = bytes.get ⟨i, inside⟩

/-- The bytes of a stream of operations and of the marker for the end of the bitmap. -/
def rleStream (ops : List RleOp) : List UInt8 := ops.flatMap RleOp.bytes ++ [0, 1]

/-- An uncompressed file and an RLE8 file of one image. -/
structure SameImage (raw rle : Bmp) (ops : List RleOp) : Prop where
  rawSignature : raw.signature = (66, 77)
  rleSignature : rle.signature = (66, 77)
  rawCompression : raw.compression = bmpBiRgb
  rleCompression : rle.compression = bmpBiRle8
  width : rle.width = raw.width
  height : rle.height = raw.height
  colorsUsed : rle.colorsUsed = raw.colorsUsed
  colorTable : rle.colorTable = raw.colorTable
  colors_le : raw.colorsUsed ≤ 256
  /-- Every pixel has a colour that is stated; no number stands for all of them. -/
  indices : ∀ pixel : Cursor, pixel.col < raw.width → pixel.line < raw.height →
    raw.colorsUsed ≠ 0 → (raw.image pixel).toNat < raw.colorsUsed
  stream : Holds rle.data 0 (rleStream ops)
  paint : PaintAll raw raw.image ops ⟨0, 0⟩

/-! ## Uncompressed bitmaps -/

section Lines

variable {pixel : UInt8 → UInt32} {data : Nat → UInt8}

theorem drawLine_apply (xcount : Nat) (fb : Int) (bmap : Nat) (pixels : Int → UInt32) (i : Int) :
    drawLine pixel data xcount fb bmap pixels i =
      if fb ≤ i ∧ i < fb + xcount then pixel (data (bmap + (i - fb).toNat)) else pixels i := by
  induction xcount generalizing fb bmap pixels with
  | zero =>
    rw [if_neg (by omega)]
    rfl
  | succ n ih =>
    rw [drawLine, ih]
    by_cases first : i = fb
    · subst first
      rw [if_neg (by omega), if_pos (by omega), Function.update_self]
      simp
    · rw [Function.update_of_ne first]
      by_cases inside : fb + 1 ≤ i ∧ i < fb + 1 + n
      · rw [if_pos inside, if_pos (by omega)]
        congr 2
        omega
      · rw [if_neg inside, if_neg (by omega)]

theorem drawLines_apply_behind {cols width padding : Nat} (small : width < 2 ^ 16) (ycount : Nat)
    (fb : Int) (bmap : Nat) (pixels : Int → UInt32) {i : Int} (behind : fb + width ≤ i) :
    drawLines pixel data cols width padding ycount fb bmap pixels i = pixels i := by
  induction ycount generalizing fb bmap pixels with
  | zero => rfl
  | succ n ih =>
    rw [drawLines, Nat.mod_eq_of_lt small, ih _ _ _ (by omega), drawLine_apply,
      if_neg (by omega)]

theorem drawLines_apply {cols width padding : Nat} (small : width < 2 ^ 16) (narrow : width ≤ cols)
    (ycount : Nat) (fb : Int) (bmap : Nat) (pixels : Int → UInt32) {k c : Nat} (line : k < ycount)
    (col : c < width) :
    drawLines pixel data cols width padding ycount fb bmap pixels (fb - k * cols + c) =
      pixel (data (bmap + k * (width + padding) + c)) := by
  induction ycount generalizing fb bmap pixels k with
  | zero => omega
  | succ n ih =>
    rw [drawLines, Nat.mod_eq_of_lt small]
    cases k with
    | zero =>
      rw [drawLines_apply_behind small _ _ _ _ (by push_cast; omega), drawLine_apply,
        if_pos (by push_cast; omega)]
      congr 2
      push_cast
      omega
    | succ k =>
      have moved : fb - ((k + 1 : Nat) : Int) * cols + c =
          fb + width - (cols + width) - k * cols + c := by
        push_cast
        ring
      rw [moved, ih _ _ _ (by omega)]
      congr 2
      ring

end Lines

/-! ## Runs -/

theorem drawBitmap_apply {pixel : UInt8 → UInt32} {bm : Nat → UInt8} {enc : Bool} (left i : Nat)
    (fb : Int) (pixels : Int → UInt32) (j : Int) :
    (drawBitmap pixel bm enc left i fb pixels).1 j =
      if fb ≤ j ∧ j < fb + left then pixel (bm (if enc then 1 else i + (j - fb).toNat))
      else pixels j := by
  induction left generalizing i fb pixels with
  | zero =>
    rw [if_neg (by omega)]
    rfl
  | succ n ih =>
    rw [drawBitmap, ih]
    by_cases first : j = fb
    · subst first
      have past : ¬(j + 1 ≤ j ∧ j < j + 1 + n) := by omega
      have here : j ≤ j ∧ j < j + (n + 1 : Nat) := by omega
      rw [if_neg past, if_pos here, Function.update_self]
      simp
    · rw [Function.update_of_ne first]
      have more : (fb ≤ j ∧ j < fb + (n + 1 : Nat)) ↔ fb + 1 ≤ j ∧ j < fb + 1 + n := by omega
      rw [if_congr more rfl rfl]
      refine if_ctx_congr Iff.rfl (fun inside => ?_) fun _ => rfl
      have index : i + 1 + (j - (fb + 1)).toNat = i + (j - fb).toNat := by omega
      rw [index]

theorem drawBitmap_fb {pixel : UInt8 → UInt32} {bm : Nat → UInt8} {enc : Bool} (left i : Nat)
    (fb : Int) (pixels : Int → UInt32) :
    (drawBitmap pixel bm enc left i fb pixels).2 = fb + left := by
  induction left generalizing i fb pixels with
  | zero => simp [drawBitmap]
  | succ n ih =>
    rw [drawBitmap, ih]
    push_cast
    omega

theorem address_eq_iff {cols : Nat} {a b : Int} {c d : Nat} (left : c < cols) (right : d < cols) :
    a * cols + c = b * cols + d ↔ a = b ∧ c = d := by
  constructor
  · intro same
    have quotient : ∀ (e : Int) {f : Nat}, f < cols → (e * cols + f) / cols = e := by
      intro e f small
      rw [add_comm, Int.add_mul_ediv_right _ _ (by omega),
        Int.ediv_eq_zero_of_lt (by omega) (by omega), zero_add]
    have lines : a = b := by
      rw [← quotient a left, same, quotient b right]
    subst lines
    exact ⟨rfl, by omega⟩
  · rintro ⟨rfl, rfl⟩
    rfl

theorem address_between_iff {cols : Nat} {a b : Int} {c d n : Nat} (left : c < cols)
    (right : d + n ≤ cols) :
    (a * cols + d ≤ b * cols + c ∧ b * cols + c < a * cols + d + n) ↔
      b = a ∧ d ≤ c ∧ c < d + n := by
  constructor
  · rintro ⟨low, high⟩
    obtain ⟨k, offset⟩ : ∃ k : Nat, b * cols + c = a * cols + (d + k : Nat) :=
      ⟨(b * cols + c - (a * cols + d)).toNat, by omega⟩
    have inside : k < n := by omega
    obtain ⟨rfl, rfl⟩ := (address_eq_iff left (by omega)).mp offset
    exact ⟨rfl, by omega, by omega⟩
  · rintro ⟨rfl, low, high⟩
    omega

section Loop

variable {display : Display} {xoff yoff width height : Nat} {pixel : UInt8 → UInt32}
  {data : Nat → UInt8} {bmp : Bmp} {image : Cursor → UInt8}

/-- The address at which a pixel of the image is shown. -/
def shownAt (display : Display) (xoff yoff height : Nat) (pixel : Cursor) : Int :=
  rleAddress display xoff yoff pixel.col ((height : Int) - 1 - pixel.line)

/-- The loop stands at a cursor. -/
structure AtCursor (display : Display) (xoff yoff width : Nat) (bmp : Bmp) (cursor : Cursor)
    (count : Nat) (s : Rle) : Prop where
  x : s.x = cursor.col
  y : s.y = (bmp.height : Int) - 1 - cursor.line
  fbp : cursor.col < width → s.fbp = shownAt display xoff yoff bmp.height cursor
  count : s.count = count

/-- What an operation does to the visible pixels. -/
def PaintedBy (display : Display) (xoff yoff width : Nat) (bmp : Bmp) (pixel : UInt8 → UInt32)
    (image : Cursor → UInt8) (covered : Cursor → Prop) (before after : Int → UInt32) : Prop :=
  ∀ p : Cursor, p.col < width → p.line < bmp.height →
    (covered p → after (shownAt display xoff yoff bmp.height p) = pixel (image p)) ∧
    (¬covered p → after (shownAt display xoff yoff bmp.height p) =
      before (shownAt display xoff yoff bmp.height p))

theorem Holds.append {offset : Nat} {first rest : List UInt8}
    (holds : Holds data offset (first ++ rest)) :
    Holds data offset first ∧ Holds data (offset + first.length) rest := by
  constructor
  · intro i inside
    rw [holds i (by rw [List.length_append]; omega)]
    simp [List.getElem_append_left inside]
  · intro i inside
    rw [Nat.add_assoc, holds (first.length + i) (by rw [List.length_append]; omega)]
    simp

/-- A run at a cursor reaches the limit, or paints its visible pixels. -/
theorem rleRun_spec {s : Rle} {cursor : Cursor} {count runlen bm behind : Nat} {enc : Bool}
    {op : RleOp} (stands : AtCursor display xoff yoff width bmp cursor count s)
    (fits : xoff + width ≤ display.cols) (visible : s.y < height) (length : op.length = runlen)
    (paints : op.Paints bmp image cursor)
    (bytes : ∀ i < runlen, data (bm + if enc then 1 else i) = op.index i) :
    (display.cols * display.rows < count + runlen ∧
      rleRun display width height pixel data s runlen bm enc behind = .error s.pixels) ∨
    (count + runlen ≤ display.cols * display.rows ∧
      ∃ next, rleRun display width height pixel data s runlen bm enc behind = .go next ∧
      next.bm = behind ∧
      AtCursor display xoff yoff width bmp ⟨cursor.col + runlen, cursor.line⟩ (count + runlen)
        next ∧
      PaintedBy display xoff yoff width bmp pixel image (op.Covers cursor) s.pixels
        next.pixels) := by
  subst length
  simp only [rleRun, stands.count]
  by_cases limit : display.cols * display.rows < count + op.length
  · rw [if_pos limit]
    exact .inl ⟨limit, rfl⟩
  rw [if_neg limit, if_pos visible]
  refine .inr ⟨by omega, ?_⟩
  by_cases hidden : width ≤ s.x
  · rw [if_pos hidden]
    refine ⟨_, rfl, rfl, ⟨by simp [stands.x], stands.y, ?_, rfl⟩, ?_⟩
    · intro shown
      have := stands.x
      simp only at shown
      omega
    · intro p col _
      refine ⟨fun covered => ?_, fun _ => rfl⟩
      have := stands.x
      have := covered.2.1
      omega
  · rw [if_neg hidden]
    have column := stands.x
    generalize cut : (if width < s.x + op.length then width - s.x else op.length) = cnt
    have cnt_le : cnt ≤ op.length ∧ s.x + cnt ≤ width := by
      split at cut <;> omega
    refine ⟨_, rfl, rfl, ⟨by simp [stands.x], stands.y, ?_, rfl⟩, ?_⟩
    · intro shown
      simp only at shown ⊢
      rw [if_neg (by omega)] at cut
      rw [drawBitmap_fb, stands.fbp (by omega), ← cut]
      simp only [shownAt, rleAddress]
      push_cast
      ring
    · intro p col line
      have between := @address_between_iff display.cols
        ((bmp.height : Int) - 1 - cursor.line + yoff) ((bmp.height : Int) - 1 - p.line + yoff)
        (p.col + xoff) (cursor.col + xoff) cnt (by omega) (by omega)
      have covers : op.Covers cursor p ↔
          s.fbp ≤ shownAt display xoff yoff bmp.height p ∧
            shownAt display xoff yoff bmp.height p < s.fbp + cnt := by
        rw [stands.fbp (by omega)]
        simp only [shownAt, rleAddress]
        push_cast at between
        rw [add_assoc _ (cursor.col : Int), add_assoc _ (p.col : Int), between]
        simp only [RleOp.Covers]
        split at cut <;> omega
      dsimp only
      rw [drawBitmap_apply]
      refine ⟨fun covered => ?_, fun uncovered => if_neg (mt covers.mpr uncovered)⟩
      rw [if_pos (covers.mp covered)]
      obtain ⟨same, low, high⟩ := covered
      obtain ⟨pcol, pline⟩ := p
      simp only at same low high col line
      subst same
      have offset : (shownAt display xoff yoff bmp.height ⟨pcol, cursor.line⟩ - s.fbp).toNat =
          pcol - cursor.col := by
        rw [stands.fbp (by omega)]
        simp only [shownAt, rleAddress]
        omega
      rw [offset, Nat.zero_add, bytes _ (by omega), paints.same _ (by omega)]
      congr 2
      rw [Nat.add_sub_cancel' low]

theorem moved_spec {s next : Rle} {cursor target : Cursor} {count : Nat} {op : RleOp}
    (stands : AtCursor display xoff yoff width bmp cursor count s) (length : op.length = 0)
    (x : next.x = target.col) (y : next.y = (bmp.height : Int) - 1 - target.line)
    (fbp : next.fbp = rleAddress display xoff yoff next.x next.y) (read : next.count = s.count)
    (kept : next.pixels = s.pixels) :
    AtCursor display xoff yoff width bmp target (count + op.length) next ∧
      PaintedBy display xoff yoff width bmp pixel image (op.Covers cursor) s.pixels
        next.pixels := by
  refine ⟨⟨x, y, fun _ => by rw [fbp, x, y]; rfl, by rw [read, stands.count, length]; rfl⟩, ?_⟩
  intro p _ _
  refine ⟨fun covered => ?_, fun _ => by rw [kept]⟩
  have := covered.2
  omega

/-- A turn carries out the operation at the cursor, if the limit allows for it. -/
theorem rleTurn_spec {s : Rle} {cursor : Cursor} {count : Nat} {op : RleOp}
    (stands : AtCursor display xoff yoff width bmp cursor count s)
    (fits : xoff + width ≤ display.cols) (visible : op.length ≠ 0 → s.y < height)
    (small : count ≤ display.cols * display.rows) (paints : op.Paints bmp image cursor)
    (holds : Holds data s.bm op.bytes) :
    (display.cols * display.rows < count + op.length ∧
      rleTurn display xoff yoff width height pixel data s = .error s.pixels) ∨
    (count + op.length ≤ display.cols * display.rows ∧
      ∃ next, rleTurn display xoff yoff width height pixel data s = .go next ∧
      next.bm = s.bm + op.bytes.length ∧
      AtCursor display xoff yoff width bmp (op.next cursor) (count + op.length) next ∧
      PaintedBy display xoff yoff width bmp pixel image (op.Covers cursor) s.pixels
        next.pixels) := by
  have wellFormed := paints.wellFormed
  cases op with
  | run n index =>
    have first : data s.bm = n := holds 0 Nat.two_pos
    have second : data (s.bm + 1) = index := holds 1 Nat.one_lt_two
    have positive : n.toNat ≠ 0 := fun zero => wellFormed (UInt8.toNat_inj.mp zero)
    simp only [rleTurn, first, if_neg wellFormed]
    exact rleRun_spec stands fits (visible positive) rfl paints fun _ _ => second
  | absolute indices pad =>
    obtain ⟨least, most⟩ := wellFormed
    have first : data s.bm = 0 := holds 0 (Nat.succ_pos _)
    have second : data (s.bm + 1) = UInt8.ofNat indices.length :=
      holds 1 (Nat.succ_lt_succ (Nat.succ_pos _))
    have length : (UInt8.ofNat indices.length).toNat = indices.length :=
      UInt8.toNat_ofNat_of_lt' (by simp only [UInt8.size]; omega)
    have other : ∀ k : UInt8, k.toNat < 3 → UInt8.ofNat indices.length ≠ k := by
      rintro k below rfl
      omega
    have bytes : ∀ i < indices.length, data (s.bm + 2 + i) = indices.getD i 0 := by
      intro i inside
      have inBytes : i + 2 < (RleOp.absolute indices pad).bytes.length := by
        simp only [RleOp.bytes, List.length_cons, List.length_append]
        omega
      rw [Nat.add_assoc, Nat.add_comm 2 i, holds (i + 2) inBytes]
      simp [RleOp.bytes, List.getElem_append_left inside, inside]
    have behind : s.bm + 2 + indices.length + indices.length % 2 =
        s.bm + (RleOp.absolute indices pad).bytes.length := by
      simp only [RleOp.bytes, List.length_cons, List.length_append]
      split <;> simp <;> omega
    simp only [rleTurn, first, second, if_true, if_neg (other 0 (by decide)),
      if_neg (other 1 (by decide)), if_neg (other 2 (by decide)), length]
    rw [behind]
    refine rleRun_spec stands fits (visible ?_) rfl paints bytes
    simp only [RleOp.length]
    omega
  | endOfLine =>
    have first : data s.bm = 0 := holds 0 Nat.two_pos
    have second : data (s.bm + 1) = 0 := holds 1 Nat.one_lt_two
    simp only [rleTurn, first, second, if_true]
    refine .inr ⟨small, _, rfl, rfl, moved_spec stands rfl rfl ?_ rfl rfl rfl⟩
    simp only [RleOp.next, stands.y]
    push_cast
    ring
  | delta right up =>
    have first : data s.bm = 0 := holds 0 (by simp [RleOp.bytes])
    have second : data (s.bm + 1) = 2 := holds 1 (by simp [RleOp.bytes])
    have third : data (s.bm + 2) = right := holds 2 (by simp [RleOp.bytes])
    have fourth : data (s.bm + 3) = up := holds 3 (by simp [RleOp.bytes])
    simp only [rleTurn, first, second, third, fourth, if_true]
    rw [if_neg (by decide), if_neg (by decide)]
    refine .inr ⟨small, _, rfl, rfl, moved_spec stands rfl ?_ ?_ rfl rfl rfl⟩
    · simp [RleOp.next, stands.x]
    · simp only [RleOp.next, stands.y]
      push_cast
      ring

theorem PaintedBy.refl (pixels : Int → UInt32) :
    PaintedBy display xoff yoff width bmp pixel image (fun _ => False) pixels pixels :=
  fun _ _ _ => ⟨False.elim, fun _ => rfl⟩

theorem PaintedBy.trans {first second : Cursor → Prop} {before middle after : Int → UInt32}
    (start : PaintedBy display xoff yoff width bmp pixel image first before middle)
    (rest : PaintedBy display xoff yoff width bmp pixel image second middle after) :
    PaintedBy display xoff yoff width bmp pixel image (fun p => first p ∨ second p) before
      after := by
  intro p col line
  obtain ⟨there, kept⟩ := start p col line
  obtain ⟨thereToo, keptToo⟩ := rest p col line
  constructor
  · intro covered
    by_cases again : second p
    · exact thereToo again
    · rw [keptToo again]
      exact there (covered.resolve_right again)
  · intro uncovered
    rw [keptToo fun covered => uncovered (.inr covered),
      kept fun covered => uncovered (.inl covered)]

/-- The loop with the operations of a stream: it carries all of them out, or those before the one
that reaches the limit. -/
theorem rleLoop_spec {ops : List RleOp} {s : Rle} {cursor : Cursor} {count : Nat}
    {rest : List UInt8} (stands : AtCursor display xoff yoff width bmp cursor count s)
    (fits : xoff + width ≤ display.cols)
    (visible : ∀ p, Covered ops cursor p → (bmp.height : Int) - 1 - p.line < height)
    (small : count ≤ display.cols * display.rows) (paints : PaintAll bmp image ops cursor)
    (holds : Holds data s.bm (ops.flatMap RleOp.bytes ++ rest)) :
    (count + painted ops ≤ display.cols * display.rows ∧ ∃ next,
      (∀ fuel, rleLoop display xoff yoff width height pixel data (ops.length + fuel) s =
        rleLoop display xoff yoff width height pixel data fuel next) ∧
      Holds data next.bm rest ∧
      PaintedBy display xoff yoff width bmp pixel image (Covered ops cursor) s.pixels
        next.pixels) ∨
    ∃ before op after pixels, ops = before ++ op :: after ∧
      count + painted before ≤ display.cols * display.rows ∧
      display.cols * display.rows < count + painted before + op.length ∧
      (∀ fuel, rleLoop display xoff yoff width height pixel data (ops.length + fuel) s =
        some (pixels, -1)) ∧
      PaintedBy display xoff yoff width bmp pixel image (Covered before cursor) s.pixels
        pixels := by
  induction ops generalizing s cursor count with
  | nil => exact .inl ⟨small, s, fun _ => by rw [List.length_nil, Nat.zero_add], holds, .refl _⟩
  | cons op ops ih =>
    obtain ⟨here, later⟩ := paints
    rw [List.flatMap_cons, List.append_assoc] at holds
    obtain ⟨bytes, behind⟩ := holds.append
    have seen : op.length ≠ 0 → s.y < height := by
      intro positive
      rw [stands.y]
      exact visible cursor (.inl ⟨rfl, Nat.le_refl _, by omega⟩)
    have turns (fuel : Nat) : (op :: ops).length + fuel = ops.length + fuel + 1 := by
      rw [List.length_cons]
      omega
    have turned := @rleTurn_spec display xoff yoff width height pixel data bmp image s cursor count
      op stands fits seen small here bytes
    rcases turned with ⟨limit, turn⟩ | ⟨fine, next, turn, moved, stands, shown⟩
    · refine .inr ⟨[], op, ops, s.pixels, rfl, small, limit, fun fuel => ?_, .refl _⟩
      rw [turns, rleLoop, turn]
    · rw [← moved] at behind
      have first (fuel : Nat) :
          rleLoop display xoff yoff width height pixel data ((op :: ops).length + fuel) s =
            rleLoop display xoff yoff width height pixel data (ops.length + fuel) next := by
        rw [turns, rleLoop, turn]
      rcases ih stands (fun p covered => visible p (.inr covered)) fine later behind with
        ⟨finite, last, run, held, rest⟩ |
        ⟨before, stop, after, pixels, split, room, limit, run, rest⟩
      · refine .inl ⟨?_, last, fun fuel => ?_, held, shown.trans rest⟩
        · rw [painted_cons]
          omega
        · rw [first, run]
      · refine .inr ⟨op :: before, stop, after, pixels, by rw [split]; rfl, ?_, ?_, fun fuel => ?_,
          shown.trans rest⟩
        · rw [painted_cons]
          omega
        · rw [painted_cons]
          omega
        · rw [first, run]

end Loop

/-! ## What operations of an image paint -/

section Painting

variable {bmp : Bmp} {image : Cursor → UInt8}

variable {cursor p : Cursor} {op : RleOp} {ops rest : List RleOp}

theorem RleOp.Paints.length_le (paints : op.Paints bmp image cursor) : op.length ≤ 255 := by
  have wellFormed := paints.wellFormed
  cases op with
  | run count index => exact Nat.le_of_lt_succ count.toNat_lt
  | absolute indices pad => exact wellFormed.2
  | endOfLine => exact Nat.zero_le _
  | delta right up => exact Nat.zero_le _

/-- How many pixels come before a cursor. -/
def Cursor.passed (cursor : Cursor) (width : Nat) : Nat :=
  cursor.line * width + min cursor.col width

theorem RleOp.Paints.passed (paints : op.Paints bmp image cursor) :
    cursor.passed bmp.width + op.length ≤ (op.next cursor).passed bmp.width := by
  have inside := paints.inside
  cases op with
  | run count index =>
    simp only [RleOp.length, RleOp.next, Cursor.passed] at inside ⊢
    omega
  | absolute indices pad =>
    simp only [RleOp.length, RleOp.next, Cursor.passed] at inside ⊢
    omega
  | endOfLine =>
    simp only [RleOp.length, RleOp.next, Cursor.passed, Nat.succ_mul]
    omega
  | delta right up =>
    simp only [RleOp.length, RleOp.next, Cursor.passed, Nat.add_mul]
    have := Nat.zero_le (up.toNat * bmp.width)
    omega

theorem painted_le_passed (paints : PaintAll bmp image (ops ++ rest) cursor) :
    cursor.passed bmp.width + painted ops ≤ (cursorBehind ops cursor).passed bmp.width := by
  induction ops generalizing cursor with
  | nil => exact Nat.le_refl _
  | cons op ops ih =>
    have first := paints.1.passed
    have others := ih paints.2
    rw [painted_cons, cursorBehind]
    omega

theorem PaintAll.behind (paints : PaintAll bmp image (ops ++ rest) cursor) :
    PaintAll bmp image rest (cursorBehind ops cursor) := by
  induction ops generalizing cursor with
  | nil => exact paints
  | cons op ops ih => exact ih paints.2

theorem RleOp.Paints.passed_le (paints : op.Paints bmp image cursor) (some : op.length ≠ 0) :
    cursor.passed bmp.width + op.length ≤ (cursor.line + 1) * bmp.width := by
  have inside := paints.inside some
  rw [Cursor.passed, Nat.succ_mul]
  omega

theorem Covered.later {ops : List RleOp} {cursor p : Cursor} (covered : Covered ops cursor p) :
    cursor.line < p.line ∨ cursor.line = p.line ∧ cursor.col ≤ p.col := by
  induction ops generalizing cursor with
  | nil => exact covered.elim
  | cons op ops ih =>
    rcases covered with ⟨line, low, -⟩ | covered
    · exact .inr ⟨line.symm, low⟩
    · have := ih covered
      cases op <;> simp only [RleOp.next] at this <;> omega

theorem Covered.inside (covered : Covered ops cursor p) (paints : PaintAll bmp image ops cursor)
    : p.line < bmp.height ∧ p.col < bmp.width := by
  induction ops generalizing cursor with
  | nil => exact covered.elim
  | cons op ops ih =>
    rcases covered with ⟨line, low, high⟩ | covered
    · have := paints.1.inside (by omega)
      omega
    · exact ih covered paints.2

theorem covered_append :
    Covered (ops ++ rest) cursor p ↔
      Covered ops cursor p ∨ Covered rest (cursorBehind ops cursor) p := by
  induction ops generalizing cursor with
  | nil => simp [Covered, cursorBehind]
  | cons op ops ih => rw [List.cons_append, Covered, Covered, ih, or_assoc, cursorBehind]

/-- The limit is not reached before the last visible pixel. -/
theorem covered_before_limit {before after : List RleOp} {limit width : Nat}
    (paints : PaintAll bmp image (before ++ op :: after) ⟨0, 0⟩) (room : painted before ≤ limit)
    (reached : limit < painted before + op.length)
    (enough : bmp.width * bmp.height ≤ limit ∨ bmp.width * (bmp.height - 1) + width + 254 ≤ limit)
    (col : p.col < width) (line : p.line < bmp.height) :
    Covered (before ++ op :: after) ⟨0, 0⟩ p ↔ Covered before ⟨0, 0⟩ p := by
  rw [covered_append, or_iff_left]
  intro covered
  have here := paints.behind.1
  have length := here.length_le
  have some : op.length ≠ 0 := by omega
  have inside := here.inside some
  have passed := painted_le_passed paints
  have ends := here.passed_le some
  have later := covered.later
  generalize cursorBehind before ⟨0, 0⟩ = cursor at *
  simp only [Cursor.passed] at passed ends
  have whole : (cursor.line + 1) * bmp.width ≤ bmp.width * bmp.height := by
    rw [Nat.mul_comm bmp.width]
    exact Nat.mul_le_mul_right _ inside.1
  rcases enough with enough | enough
  · omega
  · have lastLine : ¬cursor.line + 1 < bmp.height := by
      intro earlier
      have : (cursor.line + 1) * bmp.width ≤ bmp.width * (bmp.height - 1) := by
        rw [Nat.mul_comm bmp.width]
        exact Nat.mul_le_mul_right _ (by omega)
      omega
    have : bmp.width * (bmp.height - 1) = cursor.line * bmp.width := by
      rw [show bmp.height - 1 = cursor.line by omega, Nat.mul_comm]
    omega

end Painting

end HrppBoot.Video
