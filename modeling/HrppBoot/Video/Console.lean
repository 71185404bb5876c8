import Mathlib.Data.UInt
import Mathlib.Tactic.Linarith

/-!
# The framebuffer console

`video_putc` with `CONFIG_CFB_CONSOLE_ANSI`: characters are drawn at the cursor, escape sequences
are collected in `ansi_buf`, which is scanned again with every byte, and carried out when they are
complete. The model keeps the cursor, the buffer and the state of the colours, and lists the bytes
of the frame buffer that are drawn, cleared or copied; what is drawn there is left out. It is for
displays without `VIDEO_HW_RECTFILL` and `VIDEO_HW_BITBLT`, with `CONFIG_VIDEO_SW_CURSOR` or without
a cursor.
-/

namespace HrppBoot.Video

/-! ## The display -/

/-- The measures of a display and of its font. -/
structure Screen where
  /-- `VIDEO_COLS`, in pixels. -/
  videoCols : Nat
  /-- `VIDEO_ROWS`, in pixels. -/
  videoRows : Nat
  /-- `VIDEO_PIXEL_SIZE`, in bytes. -/
  pixelSize : Nat
  /-- `video_logo_height`, in pixels. -/
  logoHeight : Nat
  /-- `VIDEO_FONT_WIDTH`, in pixels. -/
  fontWidth : Nat
  /-- `VIDEO_FONT_HEIGHT`, in pixels. -/
  fontHeight : Nat
  scrollLines : Nat
  swCursor : Bool
  pixel_pos : 0 < pixelSize
  font : fontWidth = 8 ∧ fontHeight = 16 ∨ fontWidth = 4 ∧ fontHeight = 6
  width : fontWidth ≤ videoCols
  height : logoHeight + fontHeight ≤ videoRows
  scroll : scrollLines ≤ (videoRows - logoHeight) / fontHeight

namespace Screen

/-- `VIDEO_LINE_LEN` -/
def lineLen (screen : Screen) : Nat := screen.videoCols * screen.pixelSize

def consoleRows (screen : Screen) : Nat := (screen.videoRows - screen.logoHeight) / screen.fontHeight

def consoleCols (screen : Screen) : Nat := screen.videoCols / screen.fontWidth

def consoleRowSize (screen : Screen) : Nat := screen.fontHeight * screen.lineLen

def consoleSize (screen : Screen) : Nat := screen.consoleRowSize * screen.consoleRows

end Screen

/-- Bytes of the frame buffer, counted from `video_console_address`. -/
structure Touch where
  start : Int
  length : Nat
  deriving DecidableEq, Repr

/-- `sizeof(ansi_buf)` -/
def ansiBufSize : Nat := 10

/-- The variables of the console, `console_…` and `ansi_…`. -/
structure Console where
  row : Int
  col : Int
  /-- `nl` of `parse_putc` -/
  nl : Bool
  /-- The first `ansi_buf_size` bytes of `ansi_buf`. -/
  ansiBuf : List UInt8
  colorsNeedRevert : Bool
  cursorHidden : Bool
  fgx : UInt32
  bgx : UInt32
  eorx : UInt32
  cursorState : Bool
  oldRow : Int
  oldCol : Int
  touched : List Touch

/-- The console behind `video_init`. -/
def Console.initial (fgx bgx : UInt32) : Console where
  row := 0
  col := 0
  nl := true
  ansiBuf := []
  colorsNeedRevert := false
  cursorHidden := false
  fgx := fgx
  bgx := bgx
  eorx := fgx ^^^ bgx
  cursorState := false
  oldRow := 0
  oldCol := 0
  touched := []

/-! ## Drawing -/

section Operations

variable (screen : Screen)

/-- The bytes of a character cell. -/
def cell (row col : Int) : List Touch :=
  (List.range screen.fontHeight).map fun (y : Nat) =>
    ⟨(row * screen.fontHeight + y) * screen.lineLen + col * screen.fontWidth * screen.pixelSize,
      screen.fontWidth * screen.pixelSize⟩

/-- Bytes are written or read. -/
def Console.touch (console : Console) (touches : List Touch) : Console :=
  { console with touched := console.touched ++ touches }

def videoPutchar (console : Console) : Console := console.touch (cell screen console.row console.col)

/-- `console_cursor`, which inverts the character under the cursor. -/
def consoleCursor (state : Bool) (console : Console) : Console :=
  if console.cursorState ≠ state then
    if console.cursorState then
      { console.touch (cell screen console.oldRow console.oldCol) with cursorState := state }
    else
      { console.touch (cell screen console.row console.col) with
        oldRow := console.row
        oldCol := console.col
        cursorState := state }
  else console

def cursorOff (console : Console) : Console :=
  if screen.swCursor then consoleCursor screen false console else console

def cursorSet (console : Console) : Console :=
  if screen.swCursor then
    consoleCursor screen true (if console.cursorState then consoleCursor screen false console
      else console)
  else console

/-- `console_clear_line`. Fill counts are in words. -/
def consoleClearLine (line first last : Int) (console : Console) : Console :=
  if first = 0 ∧ last + 1 = screen.consoleCols then
    console.touch [⟨screen.consoleRowSize * line, 4 * (screen.consoleRowSize / 4)⟩]
  else
    let offset := screen.consoleRowSize * line + screen.fontWidth * screen.pixelSize * first
    let size := (screen.fontWidth * screen.pixelSize * (last - first + 1)).toNat / 4
    console.touch ((List.range screen.fontHeight).map fun (i : Nat) =>
      ⟨offset + i * screen.lineLen, 4 * size⟩)

def consoleScrollup (console : Console) : Console :=
  let moved := 4 * ((screen.consoleSize - screen.consoleRowSize * screen.scrollLines) / 4)
  let copied := console.touch [⟨screen.consoleRowSize * screen.scrollLines, moved⟩, ⟨0, moved⟩]
  let cleared := (List.range screen.scrollLines).foldl
    (fun console i => consoleClearLine screen (screen.consoleRows - (i + 1 : Nat)) 0
      (screen.consoleCols - 1) console) copied
  { cleared with row := cleared.row - screen.scrollLines }

def consoleBack (console : Console) : Console :=
  if console.col - 1 < 0 then
    { console with
      col := screen.consoleCols - 1
      row := if console.row - 1 < 0 then 0 else console.row - 1 }
  else { console with col := console.col - 1 }

/-- `console_clear`. The fill count is `CONSOLE_SIZE`, in words. -/
def consoleClear (console : Console) : Console := console.touch [⟨0, 4 * screen.consoleSize⟩]

/-- A coordinate that is brought between 0 and a limit. -/
def clamp (x : Int) (limit : Nat) : Int :=
  let x := if x < 0 then 0 else x
  if limit ≤ x then limit - 1 else x

def consoleCursorFix (console : Console) : Console :=
  { console with
    row := clamp console.row screen.consoleRows
    col := clamp console.col screen.consoleCols }

/-- `console_cursor_up`, `console_previousline` -/
def consoleCursorUp (n : Nat) (console : Console) : Console :=
  consoleCursorFix screen { console with row := console.row - n }

def consoleCursorDown (n : Nat) (console : Console) : Console :=
  consoleCursorFix screen { console with row := console.row + n }

def consoleCursorLeft (n : Nat) (console : Console) : Console :=
  consoleCursorFix screen { console with col := console.col - n }

def consoleCursorRight (n : Nat) (console : Console) : Console :=
  consoleCursorFix screen { console with col := console.col + n }

/-- `console_cursor_set_position`. It looks at the position there was, not at the new one. -/
def consoleCursorSetPosition (row col : Int) (console : Console) : Console :=
  consoleCursorFix screen { console with
    row := if console.row ≠ -1 then row else console.row
    col := if console.col ≠ -1 then col else console.col }

def consoleSwapColors (console : Console) : Console :=
  { console with
    fgx := console.bgx
    bgx := console.fgx
    eorx := console.bgx ^^^ console.fgx }

def consoleNewline (n : Nat) (console : Console) : Console :=
  let console := { console with row := console.row + n, col := 0 }
  if (screen.consoleRows : Int) ≤ console.row then consoleScrollup screen console else console

/-- What `parse_putc` does with a character. -/
def parseChar (c : UInt8) (console : Console) : Console :=
  if c = 13 then { console with col := 0 }
  else if c = 10 then
    let console := if console.col ≠ 0 ∨ console.nl then consoleNewline screen 1 console else console
    { console with nl := true }
  else if c = 9 then
    -- `console_col |= 8; console_col &= ~7`: the start of the second half of its 16 columns.
    let console := { console with col := console.col / 16 * 16 + 8 }
    if (screen.consoleCols : Int) ≤ console.col then consoleNewline screen 1 console else console
  else if c = 8 then consoleBack screen console
  else if c = 7 then console
  else
    let console := videoPutchar screen console
    let console := { console with col := console.col + 1 }
    if (screen.consoleCols : Int) ≤ console.col then
      { consoleNewline screen 1 console with nl := false }
    else console

def parsePutc (console : Console) (c : UInt8) : Console :=
  let console := if console.cursorHidden then console else cursorOff screen console
  let console := parseChar screen c console
  if console.cursorHidden then console else cursorSet screen console

end Operations

/-! ## Escape sequences -/

/-- What the scan of `ansi_buf` expects next. -/
inductive Expect where
  | escape
  | bracket
  | first
  | firstDigits
  | semicolon
  | second
  | secondDigits
  | last
  deriving DecidableEq, Repr

/-- The variables of the scan. -/
structure Scan where
  next : Expect
  flush : Bool
  fail : Bool
  num1 : Nat
  num2 : Nat
  cchar : UInt8
  deriving DecidableEq, Repr

/-- A digit. -/
def isDigit (c : UInt8) : Bool := 0x30 ≤ c ∧ c ≤ 0x39

/-- The value of a digit. -/
def digit (c : UInt8) : Nat := c.toNat - 0x30

/-- The characters that end a sequence: `A` to `H`, `J`, `K`, `h`, `l`, `m`. -/
def isLast (c : UInt8) : Bool :=
  (0x41 ≤ c ∧ c ≤ 0x48) ∨ c = 0x4a ∨ c = 0x4b ∨ c = 0x68 ∨ c = 0x6c ∨ c = 0x6d

namespace Scan

/-- Case 7. -/
def readLast (scan : Scan) (c : UInt8) : Scan :=
  let scan := { scan with next := .last }
  if isLast c then { scan with cchar := c, flush := true } else { scan with fail := true }

/-- Case 4; what is no semicolon is looked at again. -/
def readSemicolon (scan : Scan) (c : UInt8) : Scan :=
  if c ≠ 0x3b then scan.readLast c else { scan with next := .second }

/-- A turn of the loop over `ansi_buf`, with those that look at the same character again. -/
def read (scan : Scan) (c : UInt8) : Scan :=
  match scan.next with
  | .escape => if c = 27 then { scan with next := .bracket } else { scan with fail := true }
  | .bracket => if c = 0x5b then { scan with next := .first } else { scan with fail := true }
  | .first =>
    if isDigit c then { scan with num1 := digit c, next := .firstDigits }
    else if c ≠ 0x3f then readSemicolon { scan with num1 := 1 } c
    else scan
  | .firstDigits =>
    if isDigit c then { scan with num1 := scan.num1 * 10 + digit c } else scan.readSemicolon c
  | .semicolon => scan.readSemicolon c
  | .second =>
    if isDigit c then { scan with num2 := digit c, next := .secondDigits }
    else { scan with fail := true }
  | .secondDigits =>
    if isDigit c then { scan with num2 := scan.num2 * 10 + digit c } else scan.readLast c
  | .last => scan.readLast c

end Scan

/-- The loop over `ansi_buf`. -/
def scanAnsi (ansiBuf : List UInt8) : Scan :=
  ansiBuf.foldl (fun scan c => if scan.fail then scan else scan.read c)
    ⟨.escape, false, ansiBufSize ≤ ansiBuf.length, 0, 0, 0⟩

section Sequences

variable (screen : Screen)

/-- The sequence that is complete. -/
def perform (scan : Scan) (console : Console) : Console :=
  if scan.cchar = 0x41 then consoleCursorUp screen scan.num1 console
  else if scan.cchar = 0x42 then consoleCursorDown screen scan.num1 console
  else if scan.cchar = 0x43 then consoleCursorRight screen scan.num1 console
  else if scan.cchar = 0x44 then consoleCursorLeft screen scan.num1 console
  else if scan.cchar = 0x45 then consoleCursorUp screen scan.num1 console
  else if scan.cchar = 0x46 then consoleNewline screen scan.num1 console
  else if scan.cchar = 0x47 then consoleCursorSetPosition screen (-1) (scan.num1 - 1) console
  else if scan.cchar = 0x48 then
    consoleCursorSetPosition screen (scan.num1 - 1) (scan.num2 - 1) console
  else if scan.cchar = 0x4a then consoleCursorSetPosition screen 0 0 (consoleClear screen console)
  else if scan.cchar = 0x4b then
    if scan.num1 = 0 then
      consoleClearLine screen console.row console.col (screen.consoleCols - 1) console
    else if scan.num1 = 1 then consoleClearLine screen console.row 0 console.col console
    else consoleClearLine screen console.row 0 (screen.consoleCols - 1) console
  else if scan.cchar = 0x68 then { console with cursorHidden := false }
  else if scan.cchar = 0x6c then { console with cursorHidden := true }
  else if scan.cchar = 0x6d then
    if scan.num1 = 0 then
      if console.colorsNeedRevert then { consoleSwapColors console with colorsNeedRevert := false }
      else console
    else if scan.num1 = 7 then
      if console.colorsNeedRevert then console
      else { consoleSwapColors console with colorsNeedRevert := true }
    else console
  else console

def videoPutc (console : Console) (c : UInt8) : Console :=
  if c = 27 then { console.ansiBuf.foldl (parsePutc screen) console with ansiBuf := [27] }
  else if console.ansiBuf ≠ [] then
    let ansiBuf := console.ansiBuf ++ [c]
    let scan := scanAnsi ansiBuf
    if scan.fail then
      { ansiBuf.foldl (parsePutc screen) { console with ansiBuf := ansiBuf } with ansiBuf := [] }
    else if scan.flush then
      let console := if console.cursorHidden then console else cursorOff screen console
      let console := perform screen scan { console with ansiBuf := [] }
      if console.cursorHidden then console else cursorSet screen console
    else { console with ansiBuf := ansiBuf }
  else parsePutc screen console c

end Sequences

end HrppBoot.Video
