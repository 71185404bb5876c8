import HrppBoot.Console.Editor

/-!
# Where lines are stored

A line has up to `CONFIG_SYS_CBSIZE` characters. The console buffer and the slots of the history
have room for its NUL. `lastcommand` of `cli_simple_loop` and the buffer of `do_env_edit` have one
byte less: they hold every line but a full one.
-/

namespace HrppBoot.Console

open ByteMemory

/-! ## Callers -/

/-- `cli_readline`, of the console buffer. -/
def cliReadline (config : Config) (consoleBuffer : Memory) (hist : History) (keys : List UInt8) :
    Progress :=
  creadLine config (consoleBuffer.store 0 [0]) 0 hist keys

/-- `do_env_edit` of a variable with a value, up to the line that is read into its buffer. -/
def doEnvEdit (config : Config) (buffer : Memory) (initVal : Option CString) (hist : History)
    (keys : List UInt8) : Progress :=
  let init := initVal.getD []
  creadLine config (buffer.store 0 (init ++ [0])) init.length hist keys

def Fits (size length : Nat) : Prop := length + 1 ≤ size

/-- The slots of the history, of `HIST_SIZE + 1` bytes, hold their lines. -/
def SlotsFit (config : Config) (hist : History) : Prop :=
  ∀ i, Fits (config.cbsize + 1) (hist.histList i).length

/-- What `cli_simple_loop` does with a line fits: the line in `console_buffer`, of
`CONFIG_SYS_CBSIZE + 1` bytes, the slots of the history, and the copy in `lastcommand`, of
`CONFIG_SYS_CBSIZE` bytes, which is made of a line that is not empty. -/
def ConsoleFits (config : Config) : Progress → Prop
  | .returned buf len hist =>
    Fits (config.cbsize + 1) len ∧ SlotsFit config hist ∧
      (0 < len → Fits config.cbsize (cString buf len).length)
  | _ => True

/-- What `do_env_edit` does with a line fits: the line in `buffer`, of `CONFIG_SYS_CBSIZE` bytes,
and the slots of the history. -/
def LineFits (config : Config) : Progress → Prop
  | .returned _ len hist => Fits config.cbsize len ∧ SlotsFit config hist
  | _ => True

/-- The value that `do_env_edit` loads fits its buffer, and then the line does. -/
def EditFits (config : Config) (buffer : Memory) (initVal : Option CString) (hist : History)
    (keys : List UInt8) : Prop :=
  Fits config.cbsize (initVal.getD []).length ∧
    LineFits config (doEnvEdit config buffer initVal hist keys)

/-! ## The line -/

/-- The indices of a line are in order and inside the buffer, and the history fits. -/
structure Inside (config : Config) (line : Line) : Prop where
  num : line.num ≤ line.eolNum
  eolNum : line.eolNum ≤ config.cbsize
  fits : HistoryFits config line.hist

theorem cmdAutoComplete_le {config : Config} (suggest : CString → CString) (buf : Memory) {n : Nat}
    (room : n ≤ config.cbsize) :
    n ≤ (cmdAutoComplete config suggest buf n).2 ∧
      (cmdAutoComplete config suggest buf n).2 ≤ config.cbsize := by
  unfold cmdAutoComplete
  dsimp only
  split
  · exact ⟨Nat.le_refl _, room⟩
  split
  · exact ⟨Nat.le_refl _, room⟩
  · exact ⟨Nat.le_add_right _ _, by omega⟩

section Keys

variable {config : Config} {line : Line} (inside : Inside config line)
include inside

theorem Inside.creadAddChar (ichar : UInt8) : Inside config (creadAddChar config line ichar) := by
  have num := inside.num
  have eolNum := inside.eolNum
  have positive := config.positive
  unfold Console.creadAddChar
  split
  · exact inside
  · rename_i room
    have grown : line.num + 1 ≤ (if line.insert = true ∨ line.num = line.eolNum then
          line.eolNum + 1 else line.eolNum) ∧
        (if line.insert = true ∨ line.num = line.eolNum then line.eolNum + 1 else line.eolNum) ≤
          config.cbsize := by
      split
      · rename_i grows
        have := not_and.mp room grows
        omega
      · rename_i overwrites
        have := (not_or.mp overwrites).2
        omega
    dsimp only
    split
    · exact ⟨grown.1, grown.2, inside.fits⟩
    · exact ⟨grown.1, grown.2, inside.fits⟩

theorem Inside.creadAddStr (str : List UInt8) : Inside config (creadAddStr config line str) := by
  unfold Console.creadAddStr
  induction str generalizing line with
  | nil => exact inside
  | cons ichar str ih => exact ih (inside.creadAddChar ichar)

theorem Inside.recallLine {found : Option CString × History} (fits : HistoryFits config found.2)
    (short : ∀ text, found.1 = some text → text.length ≤ config.cbsize) :
    Inside config (recallLine line found) := by
  unfold Console.recallLine
  cases recalled : found.1 with
  | none => exact ⟨inside.num, inside.eolNum, fits⟩
  | some text =>
    dsimp only
    rw [eraseToEol_eq (Nat.zero_le _), refreshToEol_eq (Nat.zero_le _)]
    exact ⟨Nat.le_refl _, short text recalled, fits⟩

/-- Every key keeps the line inside the buffer. -/
theorem Inside.creadSwitch {key : Key} {next : Line}
    (pressed : creadSwitch config line key = .next next) : Inside config next := by
  have num := inside.num
  have eolNum := inside.eolNum
  have fits := inside.fits
  cases key with
  | escape => cases pressed; exact ⟨num, eolNum, fits⟩
  | ctlA => cases pressed; exact ⟨Nat.zero_le _, eolNum, fits⟩
  | ctlC => cases pressed
  | ctlF =>
    cases pressed
    split
    · exact ⟨by dsimp only; omega, eolNum, fits⟩
    · exact inside
  | ctlB =>
    cases pressed
    split
    · exact ⟨by dsimp only; omega, eolNum, fits⟩
    · exact inside
  | ctlD =>
    cases pressed
    split
    · exact ⟨by dsimp only; omega, by dsimp only; omega, fits⟩
    · exact inside
  | ctlK =>
    cases pressed
    rw [eraseToEol_eq num]
    exact ⟨Nat.le_refl _, Nat.le_trans num eolNum, fits⟩
  | ctlE =>
    cases pressed
    rw [refreshToEol_eq num]
    exact ⟨Nat.le_refl _, eolNum, fits⟩
  | ctlO => cases pressed; exact ⟨num, eolNum, fits⟩
  | ctlU =>
    cases pressed
    rw [eraseToEol_eq (Nat.zero_le _)]
    exact ⟨Nat.le_refl _, Nat.zero_le _, fits⟩
  | backspace =>
    cases pressed
    split
    · exact ⟨by dsimp only; omega, by dsimp only; omega, fits⟩
    · exact inside
  | ctlP =>
    cases pressed
    exact inside.recallLine (histPrev_fits fits).1 (histPrev_fits fits).2
  | ctlN =>
    cases pressed
    exact inside.recallLine (histNext_fits fits).1 (histNext_fits fits).2
  | tab =>
    cases pressed
    split
    · exact inside
    · rename_i atEnd
      have same : line.num = line.eolNum := by omega
      cases config.autoComplete with
      | none => exact ⟨num, eolNum, fits⟩
      | some suggest =>
        obtain ⟨longer, room⟩ := cmdAutoComplete_le suggest (line.buf.store line.num [0])
          (Nat.le_trans num eolNum)
        exact ⟨by dsimp only; omega, by dsimp only; omega, fits⟩
  | char ichar => cases pressed; exact inside.creadAddChar ichar

theorem Inside.setEscape (escape : List UInt8) : Inside config { line with escSave := escape } :=
  ⟨inside.num, inside.eolNum, inside.fits⟩

theorem Inside.creadKey {ichar : UInt8} {next : Line}
    (pressed : creadKey config line ichar = .next next) : Inside config next := by
  unfold Console.creadKey at pressed
  split at pressed
  · cases pressed
  split at pressed
  · exact inside.creadSwitch pressed
  split at pressed
  · split at pressed
    · cases pressed
      exact inside.setEscape _
    · cases pressed
      exact (inside.creadAddStr _).setEscape _
  · split at pressed
    · exact (inside.setEscape _).creadSwitch pressed
    · cases pressed
      exact (inside.creadAddStr _).setEscape _

end Keys

theorem creadKey_enter {config : Config} {line final : Line} {ichar : UInt8}
    (pressed : creadKey config line ichar = .enter final) : final = line := by
  have noEnter : ∀ key : Key, ∀ line : Line, creadSwitch config line key ≠ .enter final := by
    intro key line
    cases key <;> exact Reaction.noConfusion
  unfold creadKey at pressed
  split at pressed
  · exact (Reaction.enter.inj pressed).symm
  split at pressed
  · exact absurd pressed (noEnter _ _)
  split at pressed
  · split at pressed <;> cases pressed
  · split at pressed
    · exact absurd pressed (noEnter _ _)
    · cases pressed

/-! ## Enter -/

def lineAtEnter (config : Config) (line : Line) : List UInt8 → Option Line
  | [] => none
  | ichar :: keys =>
    match creadKey config line ichar with
    | .next line => lineAtEnter config line keys
    | .enter line => some line
    | .interrupt => none

/-- The line that `cread_line` starts with. -/
def startLine (config : Config) (buf : Memory) (initLen : Nat) (hist : History) : Line :=
  let line : Line := ⟨buf, 0, 0, true, [], hist⟩
  if initLen ≠ 0 then creadAddStr config line (buf.load 0 initLen) else line

variable {hist : History}

theorem startLine_inside {config : Config} (fits : HistoryFits config hist) (buf : Memory)
    (initLen : Nat) : Inside config (startLine config buf initLen hist) := by
  have empty : Inside config ⟨buf, 0, 0, true, [], hist⟩ := ⟨Nat.le_refl _, Nat.zero_le _, fits⟩
  unfold startLine
  dsimp only
  split
  · exact empty.creadAddStr _
  · exact empty

theorem Inside.lineAtEnter {config : Config} {line final : Line} (inside : Inside config line)
    {keys : List UInt8} (entered : lineAtEnter config line keys = some final) :
    Inside config final := by
  induction keys generalizing line with
  | nil => cases entered
  | cons ichar keys ih =>
    unfold Console.lineAtEnter at entered
    split at entered
    · rename_i pressed
      exact ih (inside.creadKey pressed) entered
    · rename_i pressed
      obtain rfl := Option.some.inj entered
      rw [creadKey_enter pressed]
      exact inside
    · cases entered

theorem creadLoop_property {P : Progress → Prop} (waiting : ∀ line, P (.waiting line))
    (interrupted : P .interrupted) (config : Config) (line : Line) (keys : List UInt8) :
    P (creadLoop config line keys) ↔
      ∀ final, lineAtEnter config line keys = some final → P (finishLine final) := by
  induction keys generalizing line with
  | nil => exact iff_of_true (waiting line) fun final none => by cases none
  | cons ichar keys ih =>
    unfold creadLoop lineAtEnter
    cases creadKey config line ichar with
    | next line => exact ih line
    | enter line => simp
    | interrupt => exact iff_of_true interrupted fun final none => by cases none

theorem finishLine_spec {config : Config} {line : Line} (inside : Inside config line) :
    ∃ buf hist, finishLine line = .returned buf line.eolNum hist ∧ HistoryFits config hist ∧
      cString buf line.eolNum = (line.buf.load 0 line.eolNum).takeWhile (· ≠ 0) := by
  have kept : (line.buf.store line.eolNum [0]).load 0 line.eolNum =
      line.buf.load 0 line.eolNum := by
    refine List.map_congr_left fun i member => ?_
    have below := List.mem_range.mp member
    exact Memory.store_outside _ _ _ _ (by omega)
  have string : cString (line.buf.store line.eolNum [0]) line.eolNum =
      (line.buf.load 0 line.eolNum).takeWhile (· ≠ 0) := by
    rw [cString, kept]
  have short : (cString (line.buf.store line.eolNum [0]) line.eolNum).length ≤ config.cbsize := by
    rw [string]
    refine Nat.le_trans (List.takeWhile_sublist _).length_le ?_
    rw [Memory.length_load]
    exact inside.eolNum
  refine ⟨_, _, rfl, ?_, string⟩
  split
  · intro i
    unfold creadAddToHist
    dsimp only
    split
    · exact short
    · exact inside.fits i
  · exact inside.fits

theorem slotsFit_of_historyFits {config : Config} (fits : HistoryFits config hist)
    : SlotsFit config hist :=
  fun i => Nat.succ_le_succ (fits i)

/-- The end of a line of the console fits unless it is full. -/
theorem consoleFits_iff {config : Config} {line : Line} (inside : Inside config line) :
    ConsoleFits config (finishLine line) ↔
      line.eolNum < config.cbsize ∨ 0 ∈ line.buf.load 0 line.eolNum := by
  obtain ⟨buf, hist, returned, fits, string⟩ := finishLine_spec inside
  have size := @Memory.length_load line.buf 0 line.eolNum
  have room := inside.eolNum
  have positive := config.positive
  rw [returned, ConsoleFits, string]
  constructor
  · rintro ⟨_, _, last⟩
    by_contra other
    obtain ⟨full, clean⟩ := not_or.mp other
    have whole : (line.buf.load 0 line.eolNum).takeWhile (· ≠ 0) = line.buf.load 0 line.eolNum :=
      List.takeWhile_eq_self_iff.mpr fun c member =>
        decide_eq_true fun zero => clean (zero ▸ member)
    have fits := last (by omega)
    rw [whole, Fits, size] at fits
    omega
  · intro condition
    refine ⟨Nat.succ_le_succ room, slotsFit_of_historyFits fits, fun _ => ?_⟩
    rw [Fits]
    have front := @List.takeWhile_prefix _ (line.buf.load 0 line.eolNum)
      (fun c : UInt8 => decide (c ≠ 0))
    have short := front.length_le
    rw [size] at short
    rcases condition with notFull | zero
    · omega
    · have shorter : ((line.buf.load 0 line.eolNum).takeWhile (· ≠ 0)).length ≠ line.eolNum := by
        intro same
        have whole := front.eq_of_length (same.trans size.symm)
        have nonzero := List.takeWhile_eq_self_iff.mp whole 0 zero
        simp at nonzero
      omega

theorem lineFits_iff {config : Config} {line : Line} (inside : Inside config line) :
    LineFits config (finishLine line) ↔ line.eolNum < config.cbsize := by
  obtain ⟨buf, hist, returned, fits, _⟩ := finishLine_spec inside
  rw [returned, LineFits]
  exact ⟨fun fits => fits.1, fun room => ⟨room, slotsFit_of_historyFits fits⟩⟩

/-! ## Every line -/

/-- The histories that the lines read so far can leave. -/
inductive Session (config : Config) : History → Prop where
  | start : Session config histInit
  | line {hist : History} (session : Session config hist) {buf : Memory} {initLen : Nat}
    {keys : List UInt8} {buf' : Memory} {len : Nat} {hist' : History}
    (returned : creadLine config buf initLen hist keys = .returned buf' len hist') :
    Session config hist'
  | interrupted {hist : History} (session : Session config hist) (cur : Int) :
    Session config { hist with histCur := cur }

theorem Session.fits {config : Config} (session : Session config hist) :
    HistoryFits config hist := by
  induction session with
  | start => exact fun _ => Nat.zero_le _
  | @line hist session buf initLen keys buf' len hist' returned fits =>
    have inside := startLine_inside fits buf initLen
    have property := @creadLoop_property
      (fun p => ∀ buf len hist, p = .returned buf len hist → HistoryFits config hist)
      (fun _ _ _ _ other => by cases other) (fun _ _ _ other => by cases other) config
      (startLine config buf initLen hist) keys
    refine property.mpr (fun final entered => ?_) buf' len hist' returned
    obtain ⟨_, _, same, fits', _⟩ := finishLine_spec (inside.lineAtEnter entered)
    intro buf len hist other
    rw [same] at other
    cases other
    exact fits'
  | interrupted session cur fits => exact fits

/-- The line of the console when Enter is pressed. -/
def consoleLine (config : Config) (consoleBuffer : Memory) (hist : History) (keys : List UInt8) :
    Option Line :=
  lineAtEnter config (startLine config (consoleBuffer.store 0 [0]) 0 hist) keys

/-- The line of `do_env_edit` when Enter is pressed. -/
def editLine (config : Config) (buffer : Memory) (initVal : Option CString) (hist : History)
    (keys : List UInt8) : Option Line :=
  let init := initVal.getD []
  lineAtEnter config (startLine config (buffer.store 0 (init ++ [0])) init.length hist) keys

/-- Every line that is read fits where it is stored if and only if it is not full when Enter is
pressed (on the console it may be full with a NUL in it), and the value that is edited has fewer
than `CONFIG_SYS_CBSIZE` characters. -/
theorem stores_fit_iff {config : Config} {hist : History} (session : Session config hist)
    (consoleBuffer buffer : Memory) (initVal : Option CString) (keys : List UInt8) :
    (ConsoleFits config (cliReadline config consoleBuffer hist keys) ↔
      ∀ line, consoleLine config consoleBuffer hist keys = some line →
        line.eolNum < config.cbsize ∨ 0 ∈ line.buf.load 0 line.eolNum) ∧
    (EditFits config buffer initVal hist keys ↔ (initVal.getD []).length < config.cbsize ∧
      ∀ line, editLine config buffer initVal hist keys = some line →
        line.eolNum < config.cbsize) := by
  have fits := session.fits
  constructor
  · have loop := @creadLoop_property (ConsoleFits config) (fun _ => trivial) trivial config
      (startLine config (consoleBuffer.store 0 [0]) 0 hist) keys
    refine loop.trans (forall_congr' fun line => imp_congr_right fun entered => ?_)
    exact consoleFits_iff ((startLine_inside fits _ 0).lineAtEnter entered)
  · have loop := @creadLoop_property (LineFits config) (fun _ => trivial) trivial config
      (startLine config (buffer.store 0 (initVal.getD [] ++ [0])) (initVal.getD []).length hist)
      keys
    refine and_congr Iff.rfl (loop.trans (forall_congr' fun line =>
      imp_congr_right fun entered => ?_))
    exact lineFits_iff ((startLine_inside fits _ _).lineAtEnter entered)

/-- A short line at the start, and a value that is edited. -/
theorem stores_fit_short :
    Session smallConsole histInit ∧
      ConsoleFits smallConsole (cliReadline smallConsole Memory.blank histInit [97, 13]) ∧
      EditFits smallConsole Memory.blank (some [98]) histInit [97, 13] := by
  have both := @stores_fit_iff smallConsole histInit .start Memory.blank Memory.blank (some [98])
    [97, 13]
  refine ⟨.start, both.1.mpr ?_, both.2.mpr ⟨by decide, ?_⟩⟩
  · rintro line ⟨⟩
    exact .inl (by decide)
  · rintro line ⟨⟩
    decide

theorem full_not_fits {config : Config} {p : Progress} {text : CString}
    (string : p.string = some text) (full : text.length = config.cbsize) :
    ¬ConsoleFits config p ∧ ¬LineFits config p := by
  cases p with
  | waiting line => cases string
  | interrupted => cases string
  | returned buf len hist =>
    have positive := config.positive
    obtain rfl := Option.some.inj string
    have short : (cString buf len).length ≤ len := by
      have sub := @List.takeWhile_sublist _ (buf.load 0 len) (fun c : UInt8 => decide (c ≠ 0))
      have size := sub.length_le
      rwa [Memory.length_load] at size
    refine ⟨fun fits => ?_, fun fits => ?_⟩
    · have last := fits.2.2 (by omega)
      unfold Fits at last
      omega
    · have last := fits.1
      unfold Fits at last
      omega

def fullLineKeys : List UInt8 := List.replicate 16 97 ++ [13]

/-- A full line does not fit `lastcommand`, nor the buffer of `do_env_edit`. -/
theorem fullLineKeys_overflow :
    ¬ConsoleFits smallConsole (cliReadline smallConsole Memory.blank histInit fullLineKeys) ∧
      ¬EditFits smallConsole Memory.blank none histInit fullLineKeys := by
  have console : (cliReadline smallConsole Memory.blank histInit fullLineKeys).string =
      some (List.replicate 16 97) := by
    decide +kernel
  have edit : (doEnvEdit smallConsole Memory.blank none histInit fullLineKeys).string =
      some (List.replicate 16 97) := by
    decide +kernel
  exact ⟨(full_not_fits console rfl).1, fun fits => (full_not_fits edit rfl).2 fits.2⟩

end HrppBoot.Console
