import HrppBoot.Lib.Traced
import HrppBoot.Video.Bitmap
import Mathlib.Tactic.Positivity
import Mathlib.Tactic.Ring

/-!
# RLE8 bitmaps from any bytes

`display_rle8_bitmap` for any bytes behind the header: the bytes of the frame buffer it writes, by
their distance from `video_fb_address`, and the entries of the palette. Addresses have 32 bits; `x`
and `y` are left to grow, as their overflow is not defined.
-/

namespace HrppBoot.Video.RleStream

open ByteMemory Traced

/-! ## The function -/

/-- The macros `VIDEO_…` of a screen. -/
structure Screen where
  cols : Nat
  rows : Nat
  /-- `VIDEO_DATA_FORMAT` -/
  format : DataFormat
  fits : cols * rows * 4 < 2 ^ 31

/-- What `display_rle8_bitmap` is called with. -/
structure Call where
  headerHeight : UInt32
  /-- `header.colors_used` -/
  colorsUsed : UInt32
  /-- The memory from `header.data_offset` on. -/
  data : UInt32 → UInt8
  xoff : Int
  yoff : Int
  width : Int
  height : Int

/-- `VIDEO_PIXEL_SIZE` in the modes that show RLE8 bitmaps. -/
def pixelSize : DataFormat → Option Nat
  | .index8 => some 1
  | .rgb555 | .rgb565 => some 2
  | .rgbX888 => some 4
  | .rgb332 | .rgb888 => none

/-- The mode has a palette `p`. -/
def hasPalette : DataFormat → Bool
  | .rgb555 | .rgb565 | .rgbX888 => true
  | .index8 | .rgb332 | .rgb888 => false

/-- The entries of `p` that are set; the number of colours is an `int`. -/
def paletteWrites (screen : Screen) (call : Call) : List Nat :=
  if hasPalette screen.format then List.range call.colorsUsed.toInt32.toInt.toNat else []

inductive Op where
  | line
  | finish
  | offset (dx dy : Nat)
  | run (runlen : Nat) (behind : UInt32)
  deriving DecidableEq

/-- The bytes at `bm`. -/
def opAt (data : UInt32 → UInt8) (bm : UInt32) : Op :=
  if data bm = 0 then
    if data (bm + 1) = 0 then .line
    else if data (bm + 1) = 1 then .finish
    else if data (bm + 1) = 2 then .offset (data (bm + 2)).toNat (data (bm + 3)).toNat
    else
      let runlen := (data (bm + 1)).toNat
      .run runlen (bm + 2 + UInt32.ofNat runlen + UInt32.ofNat (runlen % 2))
  else .run (data bm).toNat (bm + 2)

/-- A place in the stream and in the image, with the pixels up to there. -/
structure Place where
  bm : UInt32
  x : Int
  y : Int
  pixels : Nat

structure Rle extends Place where
  /-- `fbp`, from `video_fb_address` on. -/
  fbp : Nat

section Loop

variable (screen : Screen) (call : Call) (bpp : Nat)

def screenBytes : Nat := screen.cols * screen.rows * bpp

def address (x y : Int) : Nat :=
  ((((y + call.yoff) * screen.cols + x + call.xoff) * bpp) % 2 ^ 32).toNat

/-- The pixels of a run that are drawn, at a column of the image. -/
def drawn (x : Int) (runlen : Nat) : Nat :=
  if call.width < x + runlen then (call.width - x).toNat else runlen

def behindRun (p : Place) (runlen : Nat) (behind : UInt32) : Place :=
  ⟨behind, if p.y < call.height then p.x + runlen else p.x, p.y, p.pixels + runlen⟩

/-- The loop of `display_rle8_bitmap`, with a number of turns it may take. -/
def rleLoop : Nat → Rle → Traced Int
  | 0, _ => giveUp
  | turns + 1, s =>
    match opAt call.data s.bm with
    | .line => rleLoop turns
        ⟨⟨s.bm + 2, 0, s.y - 1, s.pixels⟩, address screen call bpp 0 (s.y - 1)⟩
    | .finish => pure 0
    | .offset dx dy => rleLoop turns
        ⟨⟨s.bm + 4, s.x + dx, s.y - dy, s.pixels⟩, address screen call bpp (s.x + dx) (s.y - dy)⟩
    | .run runlen behind =>
      if screen.cols * screen.rows < s.pixels + runlen then pure (-1)
      else if s.y < call.height ∧ s.x < call.width then do
        let bytes := drawn call s.x runlen * bpp
        access [⟨s.fbp, bytes⟩]
        rleLoop turns ⟨behindRun call s.toPlace runlen behind, (s.fbp + bytes) % 2 ^ 32⟩
      else rleLoop turns ⟨behindRun call s.toPlace runlen behind, s.fbp⟩

def startPlace : Place := ⟨0, 0, Int.bmod ((call.headerHeight.toNat : Int) - 1) (2 ^ 32), 0⟩

/-- `display_rle8_bitmap` behind the palette. -/
def displayRle8Bitmap (turns : Nat) : Traced Int :=
  match pixelSize screen.format with
  | none => pure (-1)
  | some bpp => rleLoop screen call bpp turns
      ⟨startPlace call, address screen call bpp 0 (startPlace call).y⟩

/-! ## What is wanted -/

/-- What is wanted: from some number of turns on there is a result and all bytes that are written
are on the screen, as are the entries in the palette. -/
def RleRight : Prop :=
  (∃ N, ∀ turns ≥ N, (displayRle8Bitmap screen call turns).Keeps 0
    (screenBytes screen ((pixelSize screen.format).getD 0)) fun _ => True) ∧
  ∀ i ∈ paletteWrites screen call, i < 256

/-- The pixels of a run are on the screen. -/
def OnScreen (p : Place) (runlen : Nat) : Prop :=
  address screen call bpp p.x p.y + drawn call p.x runlen * bpp ≤ screenBytes screen bpp

/-- The stream from a place on: it comes to the end of the bitmap or to a run with which there are
more pixels than the screen has, and all runs in front of it that begin left of the width and below
the height are on the screen. -/
inductive Fits : Place → Prop where
  | finish {p : Place} (op : opAt call.data p.bm = .finish) : Fits p
  | tooMany {p : Place} {runlen : Nat} {behind : UInt32}
      (op : opAt call.data p.bm = .run runlen behind)
      (more : screen.cols * screen.rows < p.pixels + runlen) : Fits p
  | line {p : Place} (op : opAt call.data p.bm = .line)
      (rest : Fits ⟨p.bm + 2, 0, p.y - 1, p.pixels⟩) : Fits p
  | offset {p : Place} {dx dy : Nat} (op : opAt call.data p.bm = .offset dx dy)
      (rest : Fits ⟨p.bm + 4, p.x + dx, p.y - dy, p.pixels⟩) : Fits p
  | run {p : Place} {runlen : Nat} {behind : UInt32}
      (op : opAt call.data p.bm = .run runlen behind)
      (inside : p.y < call.height → p.x < call.width → OnScreen screen call bpp p runlen)
      (rest : Fits (behindRun call p runlen behind)) : Fits p

/-- The stream fits in the modes that show it, and there are at most 256 colours for a palette. -/
def RleFits : Prop :=
  (∀ bpp, pixelSize screen.format = some bpp → Fits screen call bpp (startPlace call)) ∧
    (hasPalette screen.format = true → call.colorsUsed.toInt32.toInt ≤ 256)

end Loop

/-! ## The loop -/

section Stream

variable {screen : Screen} {call : Call} {bpp : Nat}

/-- Left of the width, the pointer is at the place. -/
def Pointed (screen : Screen) (call : Call) (bpp : Nat) (s : Rle) : Prop :=
  s.x < call.width → s.fbp = address screen call bpp s.x s.y

theorem pointed_address (p : Place) :
    Pointed screen call bpp ⟨p, address screen call bpp p.x p.y⟩ := fun _ => rfl

theorem address_add (x y : Int) (n : Nat) :
    (address screen call bpp x y + n * bpp) % 2 ^ 32 = address screen call bpp (x + n) y := by
  have sum : ((y + call.yoff) * screen.cols + (x + n) + call.xoff) * bpp =
      ((y + call.yoff) * screen.cols + x + call.xoff) * bpp + (n * bpp : Nat) := by
    push_cast
    ring
  rw [address, address, sum]
  generalize ((y + call.yoff) * screen.cols + x + call.xoff) * bpp = a
  generalize n * bpp = b
  omega

theorem pointed_drawn {s : Rle} (pointed : Pointed screen call bpp s) {runlen : Nat}
    {behind : UInt32} (low : s.y < call.height) (left : s.x < call.width) :
    Pointed screen call bpp ⟨behindRun call s.toPlace runlen behind,
      (s.fbp + drawn call s.x runlen * bpp) % 2 ^ 32⟩ := by
  intro still
  dsimp only [behindRun] at still ⊢
  rw [if_pos low] at still ⊢
  have whole : drawn call s.x runlen = runlen := if_neg (by omega)
  rw [whole, pointed left]
  exact address_add s.x s.y runlen

theorem pointed_skipped {s : Rle} (pointed : Pointed screen call bpp s) {runlen : Nat}
    {behind : UInt32} (skipped : ¬(s.y < call.height ∧ s.x < call.width)) :
    Pointed screen call bpp ⟨behindRun call s.toPlace runlen behind, s.fbp⟩ := by
  intro still
  dsimp only [behindRun] at still ⊢
  by_cases low : s.y < call.height
  · rw [if_pos low] at still
    exact absurd ⟨low, by omega⟩ skipped
  · rw [if_neg low] at still ⊢
    exact pointed still

theorem drawn_pos {x : Int} {runlen : Nat} (left : x < call.width) (some : 0 < runlen) :
    0 < drawn call x runlen := by
  rw [drawn]
  split <;> omega

theorem runlen_pos {bm behind : UInt32} {runlen : Nat}
    (op : opAt call.data bm = .run runlen behind) : 0 < runlen := by
  rw [opAt] at op
  split at op
  · rename_i zero
    split at op
    · cases op
    · split at op
      · cases op
      · split at op
        · cases op
        · rename_i first _ _
          obtain ⟨rfl, -⟩ := Op.run.inj op
          exact Nat.pos_of_ne_zero fun none => first (UInt8.toNat_inj.mp none)
  · rename_i first
    obtain ⟨rfl, -⟩ := Op.run.inj op
    exact Nat.pos_of_ne_zero fun none => first (UInt8.toNat_inj.mp none)

theorem within_iff {s : Rle} (size : 0 < bpp) (pointed : Pointed screen call bpp s)
    {runlen : Nat} (left : s.x < call.width) (some : 0 < runlen) :
    Span.Within ⟨s.fbp, drawn call s.x runlen * bpp⟩ 0 (screenBytes screen bpp) ↔
      OnScreen screen call bpp s.toPlace runlen := by
  have bytes : 0 < drawn call s.x runlen * bpp := Nat.mul_pos (drawn_pos left some) size
  rw [OnScreen, ← pointed left]
  simp only [Span.Within, Span.Inside]
  omega

theorem fits_of_keeps (size : 0 < bpp) {turns : Nat} {s : Rle}
    (pointed : Pointed screen call bpp s)
    (kept : (rleLoop screen call bpp turns s).Keeps 0 (screenBytes screen bpp) fun _ => True) :
    Fits screen call bpp s.toPlace := by
  induction turns generalizing s with
  | zero => exact absurd kept not_keeps_giveUp
  | succ turns ih =>
    rw [rleLoop] at kept
    cases op : opAt call.data s.bm with
    | line =>
      rw [op] at kept
      exact .line op (ih (pointed_address _) kept)
    | finish => exact .finish op
    | offset dx dy =>
      rw [op] at kept
      exact .offset op (ih (pointed_address _) kept)
    | run runlen behind =>
      rw [op] at kept
      dsimp only at kept
      by_cases more : screen.cols * screen.rows < s.pixels + runlen
      · exact .tooMany op more
      · rw [if_neg more] at kept
        by_cases visible : s.y < call.height ∧ s.x < call.width
        · rw [if_pos visible, keeps_bind, keeps_access, List.forall_mem_singleton,
            within_iff size pointed visible.2 (runlen_pos op)] at kept
          exact .run op (fun _ _ => kept.1)
            (ih (pointed_drawn pointed visible.1 visible.2) kept.2)
        · rw [if_neg visible] at kept
          exact .run op (fun low left => absurd ⟨low, left⟩ visible)
            (ih (pointed_skipped pointed visible) kept)

theorem keeps_succ {s t : Rle} {wanted : Int → Prop}
    (turn : ∀ turns, (rleLoop screen call bpp turns t).Keeps 0 (screenBytes screen bpp) wanted →
      (rleLoop screen call bpp (turns + 1) s).Keeps 0 (screenBytes screen bpp) wanted)
    (rest : ∃ N, ∀ turns ≥ N,
      (rleLoop screen call bpp turns t).Keeps 0 (screenBytes screen bpp) wanted) :
    ∃ N, ∀ turns ≥ N,
      (rleLoop screen call bpp turns s).Keeps 0 (screenBytes screen bpp) wanted := by
  obtain ⟨N, later⟩ := rest
  refine ⟨N + 1, fun turns more => ?_⟩
  obtain ⟨turns, rfl⟩ : ∃ k, turns = k + 1 := ⟨turns - 1, by omega⟩
  exact turn turns (later turns (by omega))

theorem keeps_last {s : Rle} {result : Int}
    (last : ∀ turns, rleLoop screen call bpp (turns + 1) s = pure result) :
    ∃ N, ∀ turns ≥ N, (rleLoop screen call bpp turns s).Keeps 0 (screenBytes screen bpp)
      fun _ => True := by
  refine ⟨1, fun turns more => ?_⟩
  obtain ⟨turns, rfl⟩ : ∃ k, turns = k + 1 := ⟨turns - 1, by omega⟩
  rw [last, keeps_pure]
  trivial

/-- A stream that fits has a loop that keeps to the screen. -/
theorem keeps_of_fits (size : 0 < bpp) {p : Place} (fits : Fits screen call bpp p) {fbp : Nat}
    (pointed : Pointed screen call bpp ⟨p, fbp⟩) :
    ∃ N, ∀ turns ≥ N, (rleLoop screen call bpp turns ⟨p, fbp⟩).Keeps 0 (screenBytes screen bpp)
      fun _ => True := by
  induction fits generalizing fbp with
  | finish op => exact keeps_last fun turns => by rw [rleLoop, op]
  | tooMany op more => exact keeps_last fun turns => by rw [rleLoop, op]; exact if_pos more
  | @line p op _ ih =>
    refine keeps_succ (fun turns kept => ?_) (ih (pointed_address _))
    rw [rleLoop, op]
    exact kept
  | @offset p dx dy op _ ih =>
    refine keeps_succ (fun turns kept => ?_) (ih (pointed_address _))
    rw [rleLoop, op]
    exact kept
  | @run p runlen behind op inside _ ih =>
    by_cases more : screen.cols * screen.rows < p.pixels + runlen
    · exact keeps_last fun turns => by rw [rleLoop, op]; exact if_pos more
    · by_cases visible : p.y < call.height ∧ p.x < call.width
      · have within := (within_iff size pointed visible.2 (runlen_pos op)).mpr
          (inside visible.1 visible.2)
        refine keeps_succ (fun turns kept => ?_)
          (ih (pointed_drawn pointed visible.1 visible.2))
        rw [rleLoop, op]
        dsimp only
        rw [if_neg more, if_pos visible, keeps_bind, keeps_access, List.forall_mem_singleton]
        exact ⟨within, kept⟩
      · refine keeps_succ (fun turns kept => ?_) (ih (pointed_skipped pointed visible))
        rw [rleLoop, op]
        dsimp only
        rw [if_neg more, if_neg visible]
        exact kept

end Stream

/-! ## All streams -/

theorem pixelSize_pos {format : DataFormat} {bpp : Nat} (size : pixelSize format = some bpp) :
    0 < bpp := by
  cases format <;> cases size <;> decide

theorem paletteWrites_inside_iff (screen : Screen) (call : Call) :
    (∀ i ∈ paletteWrites screen call, i < 256) ↔
      (hasPalette screen.format = true → call.colorsUsed.toInt32.toInt ≤ 256) := by
  rw [paletteWrites]
  by_cases shown : hasPalette screen.format = true
  · rw [if_pos shown, forall_prop_of_true shown]
    constructor
    · intro inside
      by_contra more
      have last := inside 256 (List.mem_range.mpr (by omega))
      omega
    · intro few i member
      rw [List.mem_range] at member
      omega
  · rw [if_neg shown]
    exact iff_of_true (fun i member => absurd member List.not_mem_nil)
      fun palette => absurd palette shown

/-- `display_rle8_bitmap` does what is wanted exactly for the streams and palettes that fit. -/
theorem rleRight_iff_rleFits (screen : Screen) (call : Call) :
    RleRight screen call ↔ RleFits screen call := by
  rw [RleRight, RleFits, paletteWrites_inside_iff]
  refine and_congr_left fun _ => ?_
  cases size : pixelSize screen.format with
  | none =>
    refine iff_of_true ⟨0, fun turns _ => ?_⟩ fun bpp other => by cases other
    rw [displayRle8Bitmap, size, keeps_pure]
    trivial
  | some bpp =>
    have positive := pixelSize_pos size
    have pointed : Pointed screen call bpp
        ⟨startPlace call, address screen call bpp 0 (startPlace call).y⟩ := pointed_address _
    have whole (turns : Nat) : displayRle8Bitmap screen call turns =
        rleLoop screen call bpp turns
          ⟨startPlace call, address screen call bpp 0 (startPlace call).y⟩ := by
      rw [displayRle8Bitmap, size]
    simp only [whole, Option.getD_some]
    constructor
    · rintro ⟨N, kept⟩ other same
      rw [← Option.some.inj same]
      exact fits_of_keeps positive pointed (kept N le_rfl)
    · intro fits
      exact keeps_of_fits positive (fits bpp rfl) pointed

/-- A run inside the rectangle that the callers give is on the screen if its line is, unless it is
so far above that its address comes round. -/
theorem onScreen_iff_line {screen : Screen} {call : Call} {bpp : Nat} {p : Place} {runlen : Nat}
    (size : 0 < bpp ∧ bpp ≤ 4) (left : 0 ≤ call.xoff)
    (wide : call.xoff + call.width ≤ screen.cols)
    (high : call.yoff + call.height ≤ screen.rows) (col : 0 ≤ p.x) (visible : p.x < call.width)
    (below : p.y < call.height)
    (near : -2 ^ 31 ≤ (p.y + call.yoff) * screen.cols * bpp) (some : 0 < runlen) :
    OnScreen screen call bpp p runlen ↔ 0 ≤ p.y + call.yoff := by
  have drawnPos := @drawn_pos call _ _ visible some
  have part : p.x + drawn call p.x runlen ≤ call.width := by
    rw [drawn]
    split <;> omega
  have bytes : screenBytes screen bpp < 2 ^ 31 := by
    have fits := screen.fits
    have most : screen.cols * screen.rows * bpp ≤ screen.cols * screen.rows * 4 :=
      Nat.mul_le_mul_left _ size.2
    rw [screenBytes]
    omega
  have whole : (screenBytes screen bpp : Int) = (screen.rows : Int) * screen.cols * bpp := by
    rw [screenBytes]
    push_cast
    ring
  have last : p.y + call.yoff + 1 ≤ screen.rows := by omega
  rw [OnScreen, address]
  generalize p.y + call.yoff = line at near last ⊢
  have count : ((drawn call p.x runlen * bpp : Nat) : Int) = drawn call p.x runlen * (bpp : Int) :=
    Nat.cast_mul _ _
  have distributed : (line * screen.cols + p.x + call.xoff) * bpp =
      line * screen.cols * bpp + (p.x + call.xoff) * (bpp : Int) := by ring
  have offset : 0 ≤ (p.x + call.xoff) * (bpp : Int) := by positivity
  have ends : (p.x + call.xoff) * (bpp : Int) + drawn call p.x runlen * bpp ≤
      screen.cols * bpp := by
    rw [← add_mul]
    exact mul_le_mul_of_nonneg_right (by omega) (by omega)
  have some : 0 < drawn call p.x runlen * (bpp : Int) := by
    have := size.1
    positivity
  constructor
  · intro inside
    by_contra above
    have up : line * screen.cols * bpp ≤ -1 * screen.cols * (bpp : Int) :=
      mul_le_mul_of_nonneg_right (mul_le_mul_of_nonneg_right (by omega) (by omega)) (by omega)
    have negated : -1 * screen.cols * (bpp : Int) = -(screen.cols * bpp) := by ring
    omega
  · intro down
    have start : 0 ≤ line * screen.cols * (bpp : Int) := by positivity
    have rows : (line + 1) * screen.cols * bpp ≤ (screen.rows : Int) * screen.cols * bpp :=
      mul_le_mul_of_nonneg_right (mul_le_mul_of_nonneg_right last (by omega)) (by omega)
    have next : (line + 1) * screen.cols * (bpp : Int) =
        line * screen.cols * bpp + screen.cols * bpp := by ring
    omega

def climbing : Call where
  headerHeight := 10
  colorsUsed := 2
  data bm := [0, 2, 0, 200, 7, 1, 0, 1].getD bm.toNat 0
  xoff := 0
  yoff := 0
  width := 10
  height := 10

/-- A screen of 480 lines of 800 pixels. -/
def smallScreen : Screen := ⟨800, 480, .rgb565, by decide⟩

/-- The run behind a move of 200 lines is drawn above the screen. -/
theorem climbing_not_right : ¬RleRight smallScreen climbing := by
  rintro ⟨⟨N, kept⟩, -⟩
  have fits : Fits smallScreen climbing 2 (startPlace climbing) :=
    fits_of_keeps (by decide) (pointed_address _) (kept N le_rfl)
  have first : opAt climbing.data (startPlace climbing).bm = .offset 0 200 := by decide
  have second : opAt climbing.data ((startPlace climbing).bm + 4) = .run 7 6 := by decide
  cases fits with
  | finish op => cases first.symm.trans op
  | tooMany op more => cases first.symm.trans op
  | line op rest => cases first.symm.trans op
  | run op inside rest => cases first.symm.trans op
  | offset op rest =>
    obtain ⟨rfl, rfl⟩ := Op.offset.inj (first.symm.trans op)
    cases rest with
    | finish op => cases second.symm.trans op
    | line op rest => cases second.symm.trans op
    | offset op rest => cases second.symm.trans op
    | tooMany op more =>
      obtain ⟨rfl, -⟩ := Op.run.inj (second.symm.trans op)
      exact absurd more (by decide)
    | run op inside rest =>
      obtain ⟨rfl, -⟩ := Op.run.inj (second.symm.trans op)
      have line := (onScreen_iff_line (by decide) (by decide) (by decide) (by decide) (by decide)
        (by decide) (by decide) (by decide) (by decide)).mp (inside (by decide) (by decide))
      exact absurd line (by decide)

end HrppBoot.Video.RleStream
