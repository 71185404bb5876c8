import HrppBoot.Video.Console
import Mathlib.Tactic.Ring

/-!
# Inside the console

A byte that is sent to the console keeps the cursor on it, the collected sequence in `ansi_buf` and
everything that is drawn, cleared or copied in the console area, but for two sequences: `ESC [ n F`,
which scrolls a fixed number of lines however far it goes, and `ESC [ J`, which fills as many words
as the area has bytes.
-/

namespace HrppBoot.Video

/-! ## Measures -/

section Measures

variable (screen : Screen)

theorem fontWidth_pos : 0 < screen.fontWidth := by
  rcases screen.font with ⟨width, -⟩ | ⟨width, -⟩ <;> omega

theorem fontHeight_pos : 0 < screen.fontHeight := by
  rcases screen.font with ⟨-, height⟩ | ⟨-, height⟩ <;> omega

theorem consoleCols_pos : 0 < screen.consoleCols :=
  Nat.div_pos screen.width (fontWidth_pos screen)

theorem consoleRows_pos : 0 < screen.consoleRows := by
  have := screen.height
  exact Nat.div_pos (by omega) (fontHeight_pos screen)

theorem consoleSize_pos : 0 < screen.consoleSize := by
  have columns : 0 < screen.videoCols := Nat.lt_of_lt_of_le (fontWidth_pos screen) screen.width
  exact Nat.mul_pos (Nat.mul_pos (fontHeight_pos screen) (Nat.mul_pos columns screen.pixel_pos))
    (consoleRows_pos screen)

theorem columns_fit : screen.consoleCols * (screen.fontWidth * screen.pixelSize) ≤ screen.lineLen := by
  rw [← Nat.mul_assoc]
  exact Nat.mul_le_mul_right _ (Nat.div_mul_le_self _ _)

theorem line_fits {y x : Nat} (row : y < screen.consoleRows * screen.fontHeight)
    (part : x ≤ screen.lineLen) : y * screen.lineLen + x ≤ screen.consoleSize := by
  have lines : (y + 1) * screen.lineLen ≤ screen.consoleRows * screen.fontHeight * screen.lineLen :=
    Nat.mul_le_mul_right _ row
  have size : screen.consoleRows * screen.fontHeight * screen.lineLen = screen.consoleSize := by
    rw [Screen.consoleSize, Screen.consoleRowSize, Nat.mul_assoc, Nat.mul_comm]
  rw [Nat.add_mul] at lines
  omega

end Measures

def Touch.Inside (screen : Screen) (touch : Touch) : Prop :=
  0 ≤ touch.start ∧ touch.start + touch.length ≤ screen.consoleSize

def OnConsole (screen : Screen) (row col : Int) : Prop :=
  (0 ≤ row ∧ row < screen.consoleRows) ∧ 0 ≤ col ∧ col < screen.consoleCols

theorem part_inside {screen : Screen} {row first count y : Nat} (line : row < screen.consoleRows)
    (below : y < screen.fontHeight) (ends : first + count ≤ screen.consoleCols) :
    (row * screen.fontHeight + y) * screen.lineLen + first * (screen.fontWidth * screen.pixelSize) +
      count * (screen.fontWidth * screen.pixelSize) ≤ screen.consoleSize := by
  have columns := columns_fit screen
  have part := Nat.mul_le_mul_right (screen.fontWidth * screen.pixelSize) ends
  rw [Nat.add_mul] at part
  have rows : (row + 1) * screen.fontHeight ≤ screen.consoleRows * screen.fontHeight :=
    Nat.mul_le_mul_right _ line
  rw [Nat.add_mul] at rows
  rw [Nat.add_assoc]
  exact line_fits screen (by omega) (by omega)

theorem cell_inside {screen : Screen} {row col : Int} (place : OnConsole screen row col) :
    ∀ touch ∈ cell screen row col, touch.Inside screen := by
  obtain ⟨⟨rowLow, rowHigh⟩, colLow, colHigh⟩ := place
  obtain ⟨row, rfl⟩ := Int.eq_ofNat_of_zero_le rowLow
  obtain ⟨col, rfl⟩ := Int.eq_ofNat_of_zero_le colLow
  intro touch member
  obtain ⟨y, below, rfl⟩ := List.mem_map.mp member
  rw [List.mem_range] at below
  have ends := part_inside (Int.ofNat_lt.mp rowHigh) below
    (show col + 1 ≤ screen.consoleCols from Int.ofNat_lt.mp colHigh)
  rw [Nat.one_mul, ← Nat.mul_assoc col] at ends
  refine ⟨by positivity, ?_⟩
  dsimp only
  exact_mod_cast ends

/-! ## Operations -/

/-- The column is on the console, as is the cursor that is drawn, and everything that was touched is
inside. -/
structure Drawn (screen : Screen) (console : Console) : Prop where
  col : 0 ≤ console.col ∧ console.col < screen.consoleCols
  cursor : console.cursorState = true → OnConsole screen console.oldRow console.oldCol
  touched : ∀ touch ∈ console.touched, touch.Inside screen

structure Placed (screen : Screen) (console : Console) : Prop extends Drawn screen console where
  row : 0 ≤ console.row ∧ console.row < screen.consoleRows

section Operations

variable {screen : Screen} {console : Console}

theorem Placed.onConsole (placed : Placed screen console) :
    OnConsole screen console.row console.col := ⟨placed.row, placed.col⟩

theorem Drawn.touch (drawn : Drawn screen console) {touches : List Touch}
    (inside : ∀ touch ∈ touches, touch.Inside screen) : Drawn screen (console.touch touches) := by
  refine ⟨drawn.col, drawn.cursor, ?_⟩
  intro touch member
  rcases List.mem_append.mp member with before | now
  · exact drawn.touched touch before
  · exact inside touch now

/-- What an operation leaves alone that only draws. -/
structure Only (console after : Console) : Prop where
  row : after.row = console.row
  col : after.col = console.col
  ansiBuf : after.ansiBuf = console.ansiBuf
  cursorHidden : after.cursorHidden = console.cursorHidden
  touched : ∀ touch ∈ console.touched, touch ∈ after.touched

theorem only_refl : Only console console := ⟨rfl, rfl, rfl, rfl, fun _ member => member⟩

theorem Only.trans {between after : Console} (first : Only console between)
    (second : Only between after) : Only console after where
  row := second.row.trans first.row
  col := second.col.trans first.col
  ansiBuf := second.ansiBuf.trans first.ansiBuf
  cursorHidden := second.cursorHidden.trans first.cursorHidden
  touched touch member := second.touched touch (first.touched touch member)

theorem touch_only (touches : List Touch) : Only console (console.touch touches) :=
  ⟨rfl, rfl, rfl, rfl, fun _ member => List.mem_append_left _ member⟩

theorem consoleCursor_placed (placed : Placed screen console) (state : Bool) :
    Placed screen (consoleCursor screen state console) := by
  unfold consoleCursor
  split
  · split
    · rename_i shown
      have drawn := placed.toDrawn.touch (cell_inside (placed.cursor shown))
      rename_i change
      refine ⟨⟨drawn.col, ?_, drawn.touched⟩, placed.row⟩
      intro same
      rw [shown] at change
      exact absurd same.symm change
    · have drawn := placed.toDrawn.touch (cell_inside placed.onConsole)
      exact ⟨⟨drawn.col, fun _ => placed.onConsole, drawn.touched⟩, placed.row⟩
  · exact placed

theorem consoleCursor_only (state : Bool) : Only console (consoleCursor screen state console) := by
  unfold consoleCursor
  split
  · split <;> exact ⟨rfl, rfl, rfl, rfl, fun _ member => List.mem_append_left _ member⟩
  · exact only_refl

theorem cursorOff_placed (placed : Placed screen console) :
    Placed screen (cursorOff screen console) := by
  unfold cursorOff
  split
  · exact consoleCursor_placed placed false
  · exact placed

theorem cursorOff_only : Only console (cursorOff screen console) := by
  unfold cursorOff
  split
  · exact consoleCursor_only false
  · exact only_refl

theorem cursorSet_placed (placed : Placed screen console) :
    Placed screen (cursorSet screen console) := by
  unfold cursorSet
  split
  · apply consoleCursor_placed
    split
    · exact consoleCursor_placed placed false
    · exact placed
  · exact placed

theorem cursorSet_only : Only console (cursorSet screen console) := by
  unfold cursorSet
  split
  · split
    · exact (consoleCursor_only false).trans (consoleCursor_only true)
    · exact consoleCursor_only true
  · exact only_refl

theorem consoleClearLine_only (line first last : Int) :
    Only console (consoleClearLine screen line first last console) := by
  unfold consoleClearLine
  split <;> exact touch_only _

/-- `console_clear_line` draws inside. -/
theorem consoleClearLine_drawn (drawn : Drawn screen console) {line first last : Int}
    (row : 0 ≤ line ∧ line < screen.consoleRows) (begins : 0 ≤ first) (order : first ≤ last)
    (ends : last < screen.consoleCols) :
    Drawn screen (consoleClearLine screen line first last console) := by
  obtain ⟨line, rfl⟩ := Int.eq_ofNat_of_zero_le row.1
  obtain ⟨first, rfl⟩ := Int.eq_ofNat_of_zero_le begins
  obtain ⟨last, rfl⟩ := Int.eq_ofNat_of_zero_le (Int.le_trans begins order)
  have inRow := Int.ofNat_lt.mp row.2
  have inLine := Int.ofNat_lt.mp ends
  have ordered := Int.ofNat_le.mp order
  unfold consoleClearLine
  split
  · apply drawn.touch
    rw [List.forall_mem_singleton]
    have rows := Nat.mul_le_mul_left screen.consoleRowSize (Nat.succ_le_of_lt inRow)
    have words := Nat.mul_div_le screen.consoleRowSize 4
    rw [Nat.mul_succ] at rows
    refine ⟨by positivity, ?_⟩
    unfold Screen.consoleSize
    dsimp only
    exact_mod_cast (by omega)
  · apply drawn.touch
    intro touch member
    obtain ⟨y, below, rfl⟩ := List.mem_map.mp member
    rw [List.mem_range] at below
    have count : (last : Int) - first + 1 = ((last + 1 - first : Nat) : Int) := by omega
    have words := Nat.mul_div_le ((last + 1 - first) * (screen.fontWidth * screen.pixelSize)) 4
    have inside := part_inside inRow below (show first + (last + 1 - first) ≤ screen.consoleCols by
      omega)
    refine ⟨by positivity, ?_⟩
    have size : (screen.fontWidth * screen.pixelSize * ((last : Int) - first + 1)).toNat =
        (last + 1 - first) * (screen.fontWidth * screen.pixelSize) := by
      rw [count, Nat.mul_comm]
      exact_mod_cast Int.toNat_natCast _
    have place : screen.consoleRowSize * line + screen.fontWidth * screen.pixelSize * first +
        y * screen.lineLen = (line * screen.fontHeight + y) * screen.lineLen +
          first * (screen.fontWidth * screen.pixelSize) := by
      unfold Screen.consoleRowSize
      ring
    dsimp only
    rw [size]
    exact_mod_cast (by omega)

theorem clearLines_only (lines : List Nat) :
    Only console (lines.foldl (fun console i => consoleClearLine screen
      (screen.consoleRows - (i + 1 : Nat)) 0 (screen.consoleCols - 1) console) console) := by
  induction lines generalizing console with
  | nil => exact only_refl
  | cons i rest ih => exact (consoleClearLine_only _ _ _).trans ih

theorem clearLines_drawn (drawn : Drawn screen console) (lines : List Nat)
    (few : ∀ i ∈ lines, i < screen.consoleRows) :
    Drawn screen (lines.foldl (fun console i => consoleClearLine screen
      (screen.consoleRows - (i + 1 : Nat)) 0 (screen.consoleCols - 1) console) console) := by
  induction lines generalizing console with
  | nil => exact drawn
  | cons i rest ih =>
    have below := few i List.mem_cons_self
    have columns := consoleCols_pos screen
    have cleared : Drawn screen (consoleClearLine screen (screen.consoleRows - (i + 1 : Nat)) 0
        (screen.consoleCols - 1) console) :=
      consoleClearLine_drawn drawn (by omega) (Int.le_refl 0) (by omega) (by omega)
    exact ih cleared fun j member => few j (List.mem_cons_of_mem i member)

theorem consoleScrollup_drawn (drawn : Drawn screen console) :
    Drawn screen (consoleScrollup screen console) := by
  have fits := Nat.mul_le_mul_left screen.consoleRowSize screen.scroll
  have words := Nat.mul_div_le (screen.consoleSize - screen.consoleRowSize * screen.scrollLines) 4
  have size : screen.consoleRowSize * ((screen.videoRows - screen.logoHeight) / screen.fontHeight) =
    screen.consoleSize := rfl
  rw [size] at fits
  have copied : Drawn screen (console.touch
      [⟨screen.consoleRowSize * screen.scrollLines,
        4 * ((screen.consoleSize - screen.consoleRowSize * screen.scrollLines) / 4)⟩,
       ⟨0, 4 * ((screen.consoleSize - screen.consoleRowSize * screen.scrollLines) / 4)⟩]) := by
    apply drawn.touch
    intro touch member
    rcases List.mem_pair.mp member with rfl | rfl
    · refine ⟨by positivity, ?_⟩
      dsimp only
      exact_mod_cast (by omega)
    · refine ⟨Int.le_refl 0, ?_⟩
      dsimp only
      exact_mod_cast (by omega)
  have cleared := clearLines_drawn copied (List.range screen.scrollLines) (by
    intro i member
    exact Nat.lt_of_lt_of_le (List.mem_range.mp member) screen.scroll)
  exact ⟨cleared.col, cleared.cursor, cleared.touched⟩

theorem consoleScrollup_only :
    Only { console with row := console.row - screen.scrollLines } (consoleScrollup screen console) := by
  have copied := @touch_only console
    [⟨screen.consoleRowSize * screen.scrollLines,
      4 * ((screen.consoleSize - screen.consoleRowSize * screen.scrollLines) / 4)⟩,
     ⟨0, 4 * ((screen.consoleSize - screen.consoleRowSize * screen.scrollLines) / 4)⟩]
  have only := copied.trans (@clearLines_only screen _ (List.range screen.scrollLines))
  exact ⟨congrArg (· - (screen.scrollLines : Int)) only.row, only.col, only.ansiBuf,
    only.cursorHidden, only.touched⟩

theorem consoleNewline_placed_iff (row : 0 ≤ console.row ∧ console.row < screen.consoleRows)
    (cursor : console.cursorState = true → OnConsole screen console.oldRow console.oldCol)
    (touched : ∀ touch ∈ console.touched, touch.Inside screen) (n : Nat) :
    Placed screen (consoleNewline screen n console) ↔
      console.row + n < screen.consoleRows + screen.scrollLines := by
  have columns := consoleCols_pos screen
  have start : Drawn screen { console with row := console.row + n, col := 0 } :=
    ⟨⟨Int.le_refl 0, Int.ofNat_lt.mpr columns⟩, cursor, touched⟩
  unfold consoleNewline
  dsimp only
  split
  · rename_i reached
    have up := (@consoleScrollup_only screen { console with row := console.row + n, col := 0 }).row
    have scroll : screen.scrollLines ≤ screen.consoleRows := screen.scroll
    constructor
    · intro stays
      have bounds := stays.row
      rw [up] at bounds
      dsimp only at bounds
      omega
    · intro near
      refine ⟨consoleScrollup_drawn start, ?_⟩
      rw [up]
      dsimp only
      omega
  · rename_i free
    refine iff_of_true ⟨start, ?_⟩ (by omega)
    dsimp only
    omega

theorem consoleNewline_placed (scrolls : 0 < screen.scrollLines)
    (row : 0 ≤ console.row ∧ console.row < screen.consoleRows)
    (cursor : console.cursorState = true → OnConsole screen console.oldRow console.oldCol)
    (touched : ∀ touch ∈ console.touched, touch.Inside screen) :
    Placed screen (consoleNewline screen 1 console) := by
  rw [consoleNewline_placed_iff row cursor touched]
  omega

theorem consoleNewline_ansiBuf (n : Nat) :
    (consoleNewline screen n console).ansiBuf = console.ansiBuf := by
  unfold consoleNewline
  dsimp only
  split
  · exact consoleScrollup_only.ansiBuf
  · rfl

theorem consoleBack_placed (placed : Placed screen console) :
    Placed screen (consoleBack screen console) := by
  have columns := consoleCols_pos screen
  have rows := consoleRows_pos screen
  obtain ⟨⟨col, cursor, touched⟩, row⟩ := placed
  unfold consoleBack
  split
  · refine ⟨⟨?_, cursor, touched⟩, ?_⟩
    · dsimp only
      omega
    · dsimp only
      split <;> omega
  · refine ⟨⟨?_, cursor, touched⟩, row⟩
    dsimp only
    omega

theorem clamp_bounds (x : Int) {limit : Nat} (positive : 0 < limit) :
    0 ≤ clamp x limit ∧ clamp x limit < limit := by
  unfold clamp
  dsimp only
  split <;> split <;> omega

theorem consoleCursorFix_placed
    (cursor : console.cursorState = true → OnConsole screen console.oldRow console.oldCol)
    (touched : ∀ touch ∈ console.touched, touch.Inside screen) :
    Placed screen (consoleCursorFix screen console) :=
  ⟨⟨clamp_bounds _ (consoleCols_pos screen), cursor, touched⟩,
    clamp_bounds _ (consoleRows_pos screen)⟩

/-- What `parse_putc` does with a character stays on the console. -/
theorem parseChar_placed (scrolls : 0 < screen.scrollLines) (placed : Placed screen console)
    (c : UInt8) : Placed screen (parseChar screen c console) := by
  have columns := consoleCols_pos screen
  obtain ⟨⟨col, cursor, touched⟩, row⟩ := placed
  unfold parseChar
  split
  · exact ⟨⟨⟨Int.le_refl 0, Int.ofNat_lt.mpr columns⟩, cursor, touched⟩, row⟩
  split
  · dsimp only
    split
    · have newline := consoleNewline_placed scrolls row cursor touched
      exact ⟨⟨newline.col, newline.cursor, newline.touched⟩, newline.row⟩
    · exact ⟨⟨col, cursor, touched⟩, row⟩
  split
  · dsimp only
    split
    · exact consoleNewline_placed scrolls row cursor touched
    · refine ⟨⟨?_, cursor, touched⟩, row⟩
      dsimp only
      omega
  split
  · exact consoleBack_placed ⟨⟨col, cursor, touched⟩, row⟩
  split
  · exact ⟨⟨col, cursor, touched⟩, row⟩
  · have drawn := Drawn.touch ⟨col, cursor, touched⟩ (cell_inside ⟨row, col⟩)
    dsimp only
    split
    · have newline := @consoleNewline_placed screen
        { videoPutchar screen console with col := console.col + 1 } scrolls row drawn.cursor
        drawn.touched
      exact ⟨⟨newline.col, newline.cursor, newline.touched⟩, newline.row⟩
    · rename_i further
      refine ⟨⟨?_, drawn.cursor, drawn.touched⟩, row⟩
      have same : (videoPutchar screen console).col = console.col := rfl
      rw [same] at further
      dsimp only
      rw [same]
      omega

theorem parseChar_ansiBuf (c : UInt8) : (parseChar screen c console).ansiBuf = console.ansiBuf := by
  unfold parseChar
  dsimp only
  split
  · rfl
  split
  · split
    · exact consoleNewline_ansiBuf 1
    · rfl
  split
  · split
    · exact consoleNewline_ansiBuf 1
    · rfl
  split
  · unfold consoleBack
    split <;> rfl
  split
  · rfl
  split
  · exact consoleNewline_ansiBuf 1
  · rfl

theorem parsePutc_placed (scrolls : 0 < screen.scrollLines) (placed : Placed screen console)
    (c : UInt8) : Placed screen (parsePutc screen console c) := by
  have off : Placed screen (if console.cursorHidden then console else cursorOff screen console) := by
    split
    · exact placed
    · exact cursorOff_placed placed
  unfold parsePutc
  generalize (if console.cursorHidden then console else cursorOff screen console) = start at off
  have parsed := parseChar_placed scrolls off c
  dsimp only
  split
  · exact parsed
  · exact cursorSet_placed parsed

theorem parsePutc_ansiBuf (c : UInt8) : (parsePutc screen console c).ansiBuf = console.ansiBuf := by
  have off : (if console.cursorHidden then console else cursorOff screen console).ansiBuf =
      console.ansiBuf := by
    split
    · rfl
    · exact cursorOff_only.ansiBuf
  unfold parsePutc
  generalize (if console.cursorHidden then console else cursorOff screen console) = start at off
  dsimp only
  split
  · rw [parseChar_ansiBuf, off]
  · rw [cursorSet_only.ansiBuf, parseChar_ansiBuf, off]

theorem foldl_parsePutc_placed (scrolls : 0 < screen.scrollLines) (placed : Placed screen console)
    (chars : List UInt8) : Placed screen (chars.foldl (parsePutc screen) console) := by
  induction chars generalizing console with
  | nil => exact placed
  | cons c rest ih => exact ih (parsePutc_placed scrolls placed c)

/-- A sequence that neither goes further than it scrolls nor clears the console. -/
def Scan.Allowed (scan : Scan) (screen : Screen) (row : Int) : Prop :=
  scan.cchar ≠ 0x4a ∧
    (scan.cchar = 0x46 → row + scan.num1 < screen.consoleRows + screen.scrollLines)

/-- Such a sequence stays on the console. -/
theorem perform_placed (placed : Placed screen console) {scan : Scan}
    (allowed : scan.Allowed screen console.row) : Placed screen (perform screen scan console) := by
  have columns := consoleCols_pos screen
  obtain ⟨⟨col, cursor, touched⟩, row⟩ := placed
  have clears {first last : Int} (begins : 0 ≤ first) (order : first ≤ last)
      (ends : last < screen.consoleCols) :
      Placed screen (consoleClearLine screen console.row first last console) := by
    have drawn := consoleClearLine_drawn ⟨col, cursor, touched⟩ row begins order ends
    exact ⟨drawn, by rw [(consoleClearLine_only _ _ _).row]; exact row⟩
  have fixed {row col : Int} :
      Placed screen (consoleCursorFix screen { console with row := row, col := col }) :=
    consoleCursorFix_placed cursor touched
  have recolored : Placed screen (if scan.num1 = 0 then
      if console.colorsNeedRevert then { consoleSwapColors console with colorsNeedRevert := false }
      else console
    else if scan.num1 = 7 then
      if console.colorsNeedRevert then console
      else { consoleSwapColors console with colorsNeedRevert := true }
    else console) := by
    split
    · split <;> exact ⟨⟨col, cursor, touched⟩, row⟩
    split
    · split <;> exact ⟨⟨col, cursor, touched⟩, row⟩
    · exact ⟨⟨col, cursor, touched⟩, row⟩
  unfold perform
  refine iteInduction (motive := Placed screen) (fun _ => fixed) fun _ => ?_
  refine iteInduction (motive := Placed screen) (fun _ => fixed) fun _ => ?_
  refine iteInduction (motive := Placed screen) (fun _ => fixed) fun _ => ?_
  refine iteInduction (motive := Placed screen) (fun _ => fixed) fun _ => ?_
  refine iteInduction (motive := Placed screen) (fun _ => fixed) fun _ => ?_
  refine iteInduction (motive := Placed screen) (fun newline => ?_) fun _ => ?_
  · exact (consoleNewline_placed_iff row cursor touched _).mpr (allowed.2 newline)
  refine iteInduction (motive := Placed screen) (fun _ => fixed) fun _ => ?_
  refine iteInduction (motive := Placed screen) (fun _ => fixed) fun _ => ?_
  refine iteInduction (motive := Placed screen) (fun clear => absurd clear allowed.1) fun _ => ?_
  refine iteInduction (motive := Placed screen) (fun _ => ?_) fun _ => ?_
  · refine iteInduction (motive := Placed screen) (fun _ => clears col.1 (by omega) (by omega)) fun _ => ?_
    refine iteInduction (motive := Placed screen) (fun _ => clears (Int.le_refl 0) col.1 col.2) fun _ => ?_
    exact clears (Int.le_refl 0) (by omega) (by omega)
  refine iteInduction (motive := Placed screen) (fun _ => ⟨⟨col, cursor, touched⟩, row⟩) fun _ => ?_
  refine iteInduction (motive := Placed screen) (fun _ => ⟨⟨col, cursor, touched⟩, row⟩) fun _ => ?_
  exact iteInduction (motive := Placed screen) (fun _ => recolored) fun _ => ⟨⟨col, cursor, touched⟩, row⟩

theorem perform_ansiBuf (scan : Scan) : (perform screen scan console).ansiBuf = console.ansiBuf := by
  simp only [perform, consoleCursorUp, consoleCursorDown, consoleCursorRight, consoleCursorLeft,
    consoleCursorSetPosition, consoleCursorFix, consoleClear, consoleSwapColors, Console.touch,
    apply_ite Console.ansiBuf, consoleNewline_ansiBuf, (consoleClearLine_only _ _ _).ansiBuf, ite_self]

theorem consoleNewline_below {n : Nat}
    (far : screen.consoleRows + screen.scrollLines ≤ console.row + n) :
    screen.consoleRows ≤ (consoleNewline screen n console).row := by
  unfold consoleNewline
  dsimp only
  rw [if_pos (by omega), consoleScrollup_only.row]
  dsimp only
  omega

theorem perform_not_allowed {scan : Scan} (forbidden : ¬scan.Allowed screen console.row) :
    screen.consoleRows ≤ (perform screen scan console).row ∨
      ∃ touch ∈ (perform screen scan console).touched, ¬touch.Inside screen := by
  by_cases clear : scan.cchar = 0x4a
  · right
    have done : perform screen scan console =
        consoleCursorSetPosition screen 0 0 (consoleClear screen console) := by
      simp [perform, clear]
    refine ⟨⟨0, 4 * screen.consoleSize⟩, ?_, ?_⟩
    · rw [done]
      exact List.mem_append_right _ (List.mem_singleton_self _)
    · rintro ⟨-, ends⟩
      have positive := consoleSize_pos screen
      dsimp only at ends
      omega
  · left
    have newline : scan.cchar = 0x46 ∧
        ¬console.row + scan.num1 < screen.consoleRows + screen.scrollLines := by
      by_contra other
      apply forbidden
      exact ⟨clear, fun is => by_contra fun far => other ⟨is, far⟩⟩
    have done : perform screen scan console = consoleNewline screen scan.num1 console := by
      simp [perform, newline.1]
    rw [done]
    exact consoleNewline_below (by omega)

end Operations

/-! ## Runs -/

/-- The cursor is on the console, the sequence in its buffer, and what was touched is inside. -/
structure Sound (screen : Screen) (console : Console) : Prop where
  row : 0 ≤ console.row ∧ console.row < screen.consoleRows
  col : 0 ≤ console.col ∧ console.col < screen.consoleCols
  ansiBuf : console.ansiBuf.length ≤ ansiBufSize
  touched : ∀ touch ∈ console.touched, touch.Inside screen

def completed (console : Console) (c : UInt8) : Option Scan :=
  if c = 27 ∨ console.ansiBuf = [] then none
  else
    let scan := scanAnsi (console.ansiBuf ++ [c])
    if scan.fail = false ∧ scan.flush = true then some scan else none

/-- A byte completes no sequence that is not allowed. -/
def Allowed (screen : Screen) (console : Console) (c : UInt8) : Prop :=
  ∀ scan, completed console c = some scan → scan.Allowed screen console.row

section Runs

variable {screen : Screen} {console : Console}

/-- What a byte that completes a sequence does. -/
theorem videoPutc_completed {c : UInt8} {scan : Scan} (complete : completed console c = some scan) :
    ∃ start, Only { console with ansiBuf := [] } start ∧
      (Placed screen console → Placed screen start) ∧
      Only (perform screen scan start) (videoPutc screen console c) ∧
      (Placed screen (perform screen scan start) → Placed screen (videoPutc screen console c)) := by
  unfold completed at complete
  split at complete
  · cases complete
  rename_i inside
  obtain ⟨notEscape, collecting⟩ := not_or.mp inside
  dsimp only at complete
  split at complete
  · rename_i done
    cases complete
    let off := if console.cursorHidden then console else cursorOff screen console
    have offOnly : Only console off := by
      simp only [off]
      split
      · exact only_refl
      · exact cursorOff_only
    have offPlaced (placed : Placed screen console) : Placed screen off :=
      iteInduction (motive := Placed screen) (fun _ => placed) fun _ => cursorOff_placed placed
    have run : videoPutc screen console c =
        if (perform screen (scanAnsi (console.ansiBuf ++ [c])) { off with ansiBuf := [] }).cursorHidden
        then perform screen (scanAnsi (console.ansiBuf ++ [c])) { off with ansiBuf := [] }
        else cursorSet screen
          (perform screen (scanAnsi (console.ansiBuf ++ [c])) { off with ansiBuf := [] }) := by
      simp only [videoPutc, notEscape, collecting, done, ne_eq, not_false_eq_true, ↓reduceIte,
        Bool.false_eq_true, off]
    refine ⟨{ off with ansiBuf := [] }, ?_, ?_, ?_, ?_⟩
    · exact ⟨offOnly.row, offOnly.col, rfl, offOnly.cursorHidden, offOnly.touched⟩
    · intro placed
      obtain ⟨⟨col, cursor, touched⟩, row⟩ := offPlaced placed
      exact ⟨⟨col, cursor, touched⟩, row⟩
    · rw [run]
      split
      · exact only_refl
      · exact cursorSet_only
    · intro placed
      rw [run]
      exact iteInduction (motive := Placed screen) (fun _ => placed) fun _ => cursorSet_placed placed
  · cases complete

theorem scanAnsi_fail {ansiBuf : List UInt8} (full : ansiBufSize ≤ ansiBuf.length) :
    (scanAnsi ansiBuf).fail = true := by
  have stays (chars : List UInt8) (scan : Scan) (failed : scan.fail = true) :
      (chars.foldl (fun scan c => if scan.fail then scan else scan.read c) scan).fail = true := by
    induction chars generalizing scan with
    | nil => exact failed
    | cons c rest ih =>
      rw [List.foldl_cons, if_pos failed]
      exact ih scan failed
  exact stays ansiBuf _ (decide_eq_true full)

variable {c : UInt8}

/-- What any other byte does. -/
theorem videoPutc_collected (scrolls : 0 < screen.scrollLines) (placed : Placed screen console)
    (collected : completed console c = none) (short : console.ansiBuf.length < ansiBufSize) :
    Placed screen (videoPutc screen console c) ∧
      (videoPutc screen console c).ansiBuf.length < ansiBufSize := by
  unfold videoPutc
  split
  · have flushed := foldl_parsePutc_placed scrolls placed console.ansiBuf
    exact ⟨⟨⟨flushed.col, flushed.cursor, flushed.touched⟩, flushed.row⟩,
      show 1 < ansiBufSize by decide⟩
  rename_i notEscape
  split
  · rename_i collecting
    dsimp only
    have again : Placed screen { console with ansiBuf := console.ansiBuf ++ [c] } :=
      ⟨⟨placed.col, placed.cursor, placed.touched⟩, placed.row⟩
    split
    · have flushed := foldl_parsePutc_placed scrolls again (console.ansiBuf ++ [c])
      exact ⟨⟨⟨flushed.col, flushed.cursor, flushed.touched⟩, flushed.row⟩,
        show 0 < ansiBufSize by decide⟩
    · rename_i goes
      split
      · rename_i complete
        rw [completed, if_neg (not_or.mpr ⟨notEscape, collecting⟩)] at collected
        dsimp only at collected
        rw [if_pos ⟨Bool.eq_false_iff.mpr goes, complete⟩] at collected
        cases collected
      · refine ⟨again, ?_⟩
        by_contra full
        exact goes (scanAnsi_fail (Nat.le_of_not_lt full))
  · rename_i empty
    exact ⟨parsePutc_placed scrolls placed c, by rw [parsePutc_ansiBuf]; exact short⟩

/-- What `video_putc` keeps from byte to byte. -/
structure Kept (screen : Screen) (console : Console) : Prop extends Placed screen console where
  short : console.ansiBuf.length < ansiBufSize

theorem Kept.sound (kept : Kept screen console) : Sound screen console :=
  ⟨kept.row, kept.col, Nat.le_of_lt kept.short, kept.touched⟩

theorem videoPutc_kept (scrolls : 0 < screen.scrollLines) (kept : Kept screen console)
    (allowed : Allowed screen console c) : Kept screen (videoPutc screen console c) := by
  cases complete : completed console c with
  | none =>
    obtain ⟨placed, short⟩ := videoPutc_collected scrolls kept.toPlaced complete kept.short
    exact ⟨placed, short⟩
  | some scan =>
    obtain ⟨start, only, startPlaced, last, lastPlaced⟩ := @videoPutc_completed screen _ _ _ complete
    have allowedStart : scan.Allowed screen start.row := by
      rw [only.row]
      exact allowed scan complete
    refine ⟨lastPlaced (perform_placed (startPlaced kept.toPlaced) allowedStart), ?_⟩
    rw [last.ansiBuf, perform_ansiBuf, only.ansiBuf]
    exact show 0 < ansiBufSize by decide

theorem videoPutc_unsound (forbidden : ¬Allowed screen console c) :
    ¬Sound screen (videoPutc screen console c) := by
  obtain ⟨scan, forbidden⟩ := not_forall.mp forbidden
  obtain ⟨complete, not⟩ := Classical.not_imp.mp forbidden
  obtain ⟨start, only, -, last, -⟩ := @videoPutc_completed screen _ _ _ complete
  have notStart : ¬scan.Allowed screen start.row := by
    rw [only.row]
    exact not
  intro sound
  rcases perform_not_allowed notStart with below | ⟨touch, member, outside⟩
  · have high := sound.row.2
    rw [last.row] at high
    omega
  · exact outside (sound.touched touch (last.touched touch member))

theorem initial_kept (fgx bgx : UInt32) : Kept screen (Console.initial fgx bgx) where
  col := ⟨Int.le_refl 0, Int.ofNat_lt.mpr (consoleCols_pos screen)⟩
  cursor shown := by cases shown
  touched touch member := by cases member
  row := ⟨Int.le_refl 0, Int.ofNat_lt.mpr (consoleRows_pos screen)⟩
  short := show 0 < ansiBufSize by decide

/-- From a console that is kept, all consoles are sound exactly if all bytes are allowed. -/
theorem run_sound_iff (scrolls : 0 < screen.scrollLines) (kept : Kept screen console)
    (bytes : List UInt8) :
    (∀ sent, sent <+: bytes → Sound screen (sent.foldl (videoPutc screen) console)) ↔
      ∀ sent c, sent ++ [c] <+: bytes → Allowed screen (sent.foldl (videoPutc screen) console) c := by
  induction bytes generalizing console with
  | nil =>
    refine iff_of_true ?_ ?_
    · intro sent front
      rw [List.prefix_nil.mp front]
      exact kept.sound
    · intro sent c front
      simp at front
  | cons b rest ih =>
    by_cases allowed : Allowed screen console b
    · have further := ih (videoPutc_kept scrolls kept allowed)
      constructor
      · intro sound sent c front
        cases sent with
        | nil =>
          obtain ⟨rfl, -⟩ := List.cons_prefix_cons.mp front
          exact allowed
        | cons first sent =>
          obtain ⟨rfl, inRest⟩ := List.cons_prefix_cons.mp front
          exact further.mp (fun more behind => sound (first :: more)
            (List.cons_prefix_cons.mpr ⟨rfl, behind⟩)) sent c inRest
      · intro every sent front
        cases sent with
        | nil => exact kept.sound
        | cons first sent =>
          obtain ⟨rfl, inRest⟩ := List.cons_prefix_cons.mp front
          exact further.mpr (fun more c behind => every (first :: more) c
            (List.cons_prefix_cons.mpr ⟨rfl, behind⟩)) sent inRest
    · have front : [b] <+: b :: rest := List.cons_prefix_cons.mpr ⟨rfl, List.nil_prefix⟩
      exact iff_of_false (fun sound => videoPutc_unsound allowed (sound [b] front))
        fun every => allowed (every [] b front)

end Runs

/-- On a console that scrolls by a line or more, the cursor stays on the console, the sequence in
its buffer and everything that is drawn inside exactly if no byte completes a sequence that goes
further down than the console scrolls, or that clears the console. -/
theorem videoPutc_sound_iff (screen : Screen) (fgx bgx : UInt32) (bytes : List UInt8)
    (scrolls : 0 < screen.scrollLines) :
    (∀ sent, sent <+: bytes →
        Sound screen (sent.foldl (videoPutc screen) (Console.initial fgx bgx))) ↔
      ∀ sent c, sent ++ [c] <+: bytes →
        Allowed screen (sent.foldl (videoPutc screen) (Console.initial fgx bgx)) c :=
  run_sound_iff scrolls (initial_kept fgx bgx) bytes

/-- A display of 64 by 48 pixels of two bytes, with eight columns and three rows. -/
def smallScreen : Screen where
  videoCols := 64
  videoRows := 48
  pixelSize := 2
  logoHeight := 0
  fontWidth := 8
  fontHeight := 16
  scrollLines := 1
  swCursor := true
  pixel_pos := by decide
  font := by decide
  width := by decide
  height := by decide
  scroll := by decide

/-- `ESC [ 2 F` stays on it. -/
theorem videoPutc_sound_small : 0 < smallScreen.scrollLines ∧
    ∀ sent, sent <+: [27, 0x5b, 0x32, 0x46] →
      Sound smallScreen (sent.foldl (videoPutc smallScreen) (Console.initial 1 0)) := by
  refine ⟨by decide, ?_⟩
  rw [videoPutc_sound_iff smallScreen 1 0 [27, 0x5b, 0x32, 0x46] (by decide)]
  intro sent c front scan complete
  have quiet (front : List UInt8) (c : UInt8) (none : completed
      (front.foldl (videoPutc smallScreen) (Console.initial 1 0)) c = none)
      (some : completed (front.foldl (videoPutc smallScreen) (Console.initial 1 0)) c = some scan) :
      scan.Allowed smallScreen (front.foldl (videoPutc smallScreen) (Console.initial 1 0)).row := by
    rw [none] at some
    cases some
  rcases sent with _ | ⟨a, _ | ⟨b, _ | ⟨d, _ | ⟨e, rest⟩⟩⟩⟩ <;>
    simp only [List.cons_append, List.nil_append, List.cons_prefix_cons, List.nil_prefix,
      and_true, List.prefix_nil, reduceCtorEq, and_false, List.append_eq_nil_iff] at front
  · obtain rfl := front
    exact quiet [] 27 (by decide +kernel) complete
  · obtain ⟨rfl, rfl⟩ := front
    exact quiet [27] 0x5b (by decide +kernel) complete
  · obtain ⟨rfl, rfl, rfl⟩ := front
    exact quiet [27, 0x5b] 0x32 (by decide +kernel) complete
  · obtain ⟨rfl, rfl, rfl, rfl⟩ := front
    have known : completed ([27, 0x5b, 0x32].foldl (videoPutc smallScreen) (Console.initial 1 0))
        0x46 = some ⟨.last, true, false, 2, 0, 0x46⟩ := by decide +kernel
    rw [known] at complete
    cases complete
    exact ⟨by decide, fun _ => by decide +kernel⟩

/-- `ESC [ 9 F` leaves it. -/
theorem videoPutc_leaves : ¬∀ (screen : Screen) (fgx bgx : UInt32) (bytes : List UInt8),
    0 < screen.scrollLines → ∀ sent, sent <+: bytes →
      Sound screen (sent.foldl (videoPutc screen) (Console.initial fgx bgx)) := by
  intro every
  have sound := every smallScreen 1 0 [27, 0x5b, 0x39, 0x46] (by decide) _ (List.prefix_refl _)
  have high := sound.row.2
  revert high
  decide +kernel

end HrppBoot.Video
