import HrppBoot.Console.Readline
import Mathlib.Data.List.TakeWhile

/-!
# The abstract editor

A line editor that holds the text before and the text behind the cursor, and no buffer. `cread_line`
simulates it key by key: the buffer holds the two texts one after the other. What Enter returns is a
NUL-terminated string, which is the whole text only if no NUL has been typed: unlike the loop for
consoles without editing, this one takes a NUL for a character of the line. The editor types every
escape sequence that it does not know; `cread_line` drops the key behind a lone escape.
-/

namespace HrppBoot.Console

open ByteMemory

/-! ## The editor -/

/-- An editor. -/
structure Editor where
  before : List UInt8
  after : List UInt8
  /-- Whether characters are inserted, and not written over those behind the cursor. -/
  insert : Bool
  escape : List UInt8
  hist : History

/-- The text. -/
def Editor.text (editor : Editor) : List UInt8 := editor.before ++ editor.after

/-- Type a character, if there is room for `room` characters in all. -/
def Editor.type (room : Nat) (editor : Editor) (c : UInt8) : Editor :=
  if editor.insert ∨ editor.after = [] then
    if editor.text.length < room then { editor with before := editor.before ++ [c] } else editor
  else { editor with before := editor.before ++ [c], after := editor.after.tail }

/-- Replace the text by a line of the history. -/
def Editor.recall (editor : Editor) (found : Option CString × History) : Editor :=
  match found.1 with
  | none => { editor with escape := [], hist := found.2 }
  | some line => { editor with before := line, after := [], escape := [], hist := found.2 }

/-- Complete the text at its end, if the result leaves two characters of room. -/
def Editor.complete (config : Config) (editor : Editor) : Editor :=
  match config.autoComplete with
  | none => editor
  | some suggest =>
    if editor.after = [] ∧ editor.before.length + (suggest editor.before).length + 2 < config.cbsize
    then { editor with before := editor.before ++ suggest editor.before } else editor

/-- What a key does. `none` discards the input. -/
def Editor.press (config : Config) (editor : Editor) : Key → Option Editor
  | .escape => some { editor with escape := if editor.escape = [] then [0x1b] else [] }
  | .ctlA => some { editor with before := [], after := editor.text }
  | .ctlC => none
  | .ctlF => some { editor with
      before := editor.before ++ editor.after.take 1
      after := editor.after.tail }
  | .ctlB => some { editor with
      before := editor.before.dropLast
      after := editor.before.getLast?.toList ++ editor.after }
  | .ctlD => some { editor with after := editor.after.tail }
  | .ctlK => some { editor with after := [] }
  | .ctlE => some { editor with before := editor.text, after := [] }
  | .ctlO => some { editor with insert := !editor.insert }
  | .ctlU => some { editor with before := [], after := [] }
  | .backspace => some { editor with before := editor.before.dropLast }
  | .ctlP => some (editor.recall (histPrev editor.hist))
  | .ctlN => some (editor.recall (histNext editor.hist))
  | .tab => some (editor.complete config)
  | .char c => some (editor.type config.cbsize c)

/-- A character from the console, with escape sequences. -/
def Editor.key (config : Config) (editor : Editor) (c : UInt8) : Option Editor :=
  match editor.escape with
  | [] => editor.press config (keyOf config c)
  | [escape] =>
    if c = 91 then some { editor with escape := [escape, c] }
    else some { (editor.type config.cbsize escape).type config.cbsize c with escape := [] }
  | escape =>
    match arrowKey c with
    | some key => { editor with escape := [] }.press config key
    | none => some { (escape ++ [c]).foldl (Editor.type config.cbsize) editor with escape := [] }

/-- A character that is typed has no room. -/
def Editor.Full (room : Nat) (editor : Editor) : Prop :=
  (editor.insert = true ∨ editor.after = []) ∧ room ≤ editor.text.length

theorem Editor.Full.type {room : Nat} {editor : Editor} (full : editor.Full room) (c : UInt8) :
    editor.type room c = editor := by
  rw [Editor.type, if_pos full.1, if_neg (Nat.not_lt.mpr full.2)]

/-- A key is handled as it should be: a completion meets no NUL, and behind a lone escape the key is
the bracket that goes on with a sequence, or has no room. -/
structure Editor.Handles (config : Config) (editor : Editor) (c : UInt8) : Prop where
  clean : editor.escape = [] ∧ keyOf config c = .tab → 0 ∉ editor.text
  lone : ∀ escape, editor.escape = [escape] →
    c = 91 ∨ (editor.type config.cbsize escape).Full config.cbsize

/-- The history after a line. -/
def History.entered (hist : History) (line : CString) : History :=
  let hist := if line = [] ∨ line.head? = some 33 then hist else creadAddToHist hist line
  { hist with histCur := hist.histAddIdx }

/-- What becomes of an editor. -/
inductive Edited where
  | waiting (editor : Editor)
  | entered (text : List UInt8) (hist : History)
  | discarded

/-- The editor on a sequence of keys. -/
def Editor.run (config : Config) (editor : Editor) : List UInt8 → Edited
  | [] => .waiting editor
  | c :: keys =>
    if c = 10 ∨ c = 13 then .entered editor.text (editor.hist.entered editor.text)
    else
      match editor.key config c with
      | some editor => editor.run config keys
      | none => .discarded

/-! ## Simulation -/

/-- The lines of the history fit the buffer. -/
def HistoryFits (config : Config) (hist : History) : Prop :=
  ∀ i, (hist.histList i).length ≤ config.cbsize

/-- The variables of `cread_line` are those of the editor, and the buffer holds its text. -/
structure Simulates (config : Config) (line : Line) (editor : Editor) : Prop where
  /-- `num` is the cursor. -/
  num : line.num = editor.before.length
  /-- `eol_num` is the end of the text. -/
  eolNum : line.eolNum = editor.text.length
  room : editor.text.length ≤ config.cbsize
  text : line.buf.Holds 0 editor.text
  insert : line.insert = editor.insert
  escape : line.escSave = editor.escape
  hist : line.hist = editor.hist
  fits : HistoryFits config editor.hist

theorem cString_of_holds {buf : Memory} {text : List UInt8} (stands : buf.Holds 0 text)
    (clean : 0 ∉ text) : cString buf text.length = text := by
  unfold cString
  rw [stands.load, List.takeWhile_eq_self_iff]
  intro c member
  have nonzero : c ≠ 0 := fun zero => clean (zero ▸ member)
  simpa using nonzero

theorem arrowKey_ne_tab (ichar : UInt8) : arrowKey ichar ≠ some .tab := by
  unfold arrowKey
  split_ifs <;> simp

variable {hist : History}

theorem histPrev_fits {config : Config} (fits : HistoryFits config hist) :
    HistoryFits config (histPrev hist).2 ∧
      ∀ line, (histPrev hist).1 = some line → line.length ≤ config.cbsize := by
  obtain ⟨cur, curIs⟩ : ∃ cur : Int,
    (if hist.histCur - 1 < 0 then (hist.histMax : Int) else hist.histCur - 1) = cur := ⟨_, rfl⟩
  unfold histPrev
  simp only [curIs]
  split
  · exact ⟨fits, by simp⟩
  · split
    · exact ⟨fits, by simp⟩
    · refine ⟨fits, ?_⟩
      rintro line ⟨⟩
      exact fits _

theorem histNext_fits {config : Config} (fits : HistoryFits config hist) :
    HistoryFits config (histNext hist).2 ∧
      ∀ line, (histNext hist).1 = some line → line.length ≤ config.cbsize := by
  obtain ⟨cur, curIs⟩ : ∃ cur : Int,
    (if hist.histCur + 1 > hist.histMax then 0 else hist.histCur + 1) = cur := ⟨_, rfl⟩
  unfold histNext
  simp only [curIs]
  split
  · exact ⟨fits, by simp⟩
  split
  · exact ⟨fits, by simp⟩
  split
  · refine ⟨fits, ?_⟩
    rintro line ⟨⟩
    exact Nat.zero_le _
  · refine ⟨fits, ?_⟩
    rintro line ⟨⟩
    exact fits _

theorem eraseToEol_eq {line : Line} (inside : line.num ≤ line.eolNum) :
    eraseToEol line = { line with eolNum := line.num } := by
  unfold eraseToEol
  split
  · rfl
  · have same : line.eolNum = line.num := by omega
    cases line
    exact congrArg (fun n => Line.mk _ _ n _ _ _) same

theorem refreshToEol_eq {line : Line} (inside : line.num ≤ line.eolNum) :
    refreshToEol line = { line with num := line.eolNum } := by
  unfold refreshToEol
  split
  · rfl
  · have same : line.num = line.eolNum := by omega
    cases line
    exact congrArg (fun n => Line.mk _ n _ _ _ _) same

theorem holds_typed {m : Memory} {before rest : List UInt8} (front : m.Holds 0 before)
    (back : m.Holds (before.length + 1) rest) (c : UInt8) :
    (m.store before.length [c]).Holds 0 ((before ++ [c]) ++ rest) := by
  rw [Memory.holds_append, Memory.holds_append, Nat.zero_add, Nat.zero_add, List.length_append,
    List.length_singleton]
  exact ⟨⟨front.store_apart (.inl (by omega)), Memory.store_holds _ _ _⟩,
    back.store_apart (.inr (by simp))⟩

section Keys

variable {config : Config} {line : Line} {editor : Editor}
  (simulates : Simulates config line editor)
include simulates

theorem Simulates.parts : line.buf.Holds 0 editor.before ∧
    line.buf.Holds line.num editor.after := by
  have both := (Memory.holds_append _ _ _ _).mp simulates.text
  rw [Nat.zero_add, ← simulates.num] at both
  exact both

theorem Simulates.atEnd : line.num = line.eolNum ↔ editor.after = [] := by
  rw [simulates.num, simulates.eolNum, Editor.text, List.length_append, ← List.length_eq_zero_iff]
  omega

theorem Simulates.length_after : line.eolNum - line.num = editor.after.length := by
  rw [simulates.num, simulates.eolNum, Editor.text, List.length_append]
  omega

theorem Simulates.creadAddChar_grows (grows : editor.insert = true ∨ editor.after = [])
    (room : editor.text.length < config.cbsize) (ichar : UInt8) :
    Console.creadAddChar config line ichar =
      { line with
        buf := (line.buf.store (line.num + 1) editor.after).store line.num [ichar]
        num := line.num + 1
        eolNum := line.eolNum + 1 } := by
  have positive := config.positive
  have behind := simulates.length_after
  have eolNum := simulates.eolNum
  have num := simulates.num
  have length : editor.text.length = editor.before.length + editor.after.length :=
    List.length_append
  have notFull : ¬line.eolNum > config.cbsize - 1 := by omega
  have wlen : line.eolNum + 1 - line.num = editor.after.length + 1 := by omega
  unfold Console.creadAddChar
  simp only [simulates.insert, simulates.atEnd, grows, notFull, and_false, ↓reduceIte, wlen,
    Nat.add_sub_cancel, simulates.parts.2.copy_eq_store]
  by_cases empty : editor.after = []
  · simp [empty]
  · have inserting : editor.insert = true := grows.resolve_right empty
    have some : editor.after.length + 1 > 1 := by
      have := List.length_pos_iff.mpr empty
      omega
    simp only [inserting, some, ↓reduceIte]

/-- `cread_add_char` types a character. -/
theorem Simulates.creadAddChar (ichar : UInt8) :
    Simulates config (Console.creadAddChar config line ichar) (editor.type config.cbsize ichar) := by
  obtain ⟨front, back⟩ := simulates.parts
  have positive := config.positive
  have num := simulates.num
  have eolNum := simulates.eolNum
  have length : editor.text.length = editor.before.length + editor.after.length :=
    List.length_append
  unfold Editor.type
  by_cases grows : editor.insert = true ∨ editor.after = []
  · by_cases room : editor.text.length < config.cbsize
    · rw [simulates.creadAddChar_grows grows room, if_pos grows, if_pos room]
      have moved : (line.buf.store (line.num + 1) editor.after).Holds 0 editor.before :=
        front.store_apart (.inl (by omega))
      have behind : (line.buf.store (line.num + 1) editor.after).Holds (editor.before.length + 1)
          editor.after := by
        rw [← num]
        exact Memory.store_holds _ _ _
      refine ⟨?_, ?_, ?_, ?_, simulates.insert, simulates.escape, simulates.hist, simulates.fits⟩
      · simp [num]
      · simp only [Editor.text, List.length_append, List.length_singleton]
        omega
      · simp only [Editor.text, List.length_append, List.length_singleton]
        omega
      · rw [num] at moved behind ⊢
        exact holds_typed moved behind ichar
    · have full : line.eolNum > config.cbsize - 1 := by omega
      rw [if_pos grows, if_neg room]
      unfold Console.creadAddChar
      simp only [simulates.insert, simulates.atEnd, grows, full, and_self, ↓reduceIte]
      exact simulates
  · rw [if_neg grows]
    unfold Console.creadAddChar
    simp only [simulates.insert, simulates.atEnd, grows, false_and, ↓reduceIte]
    obtain ⟨overwriting, some⟩ := not_or.mp grows
    cases after : editor.after with
    | nil => exact absurd after some
    | cons first rest =>
      rw [after] at back length
      have kept := ((Memory.holds_append _ _ [first] rest).mp back).2
      rw [num, List.length_singleton] at kept
      simp only [overwriting, Bool.false_eq_true, ↓reduceIte]
      have room := simulates.room
      have sameLength : ((editor.before ++ [ichar]) ++ rest).length = editor.text.length := by
        rw [length]
        simp only [List.length_append, List.length_cons, List.length_nil]
        omega
      refine ⟨?_, ?_, ?_, ?_, rfl, simulates.escape, simulates.hist, simulates.fits⟩
      · simp [num]
      · exact eolNum.trans sameLength.symm
      · exact sameLength.trans_le room
      · rw [num]
        exact holds_typed front kept ichar

theorem Simulates.creadAddStr (str : List UInt8) : Simulates config
    (Console.creadAddStr config line str) (str.foldl (Editor.type config.cbsize) editor) := by
  unfold Console.creadAddStr
  induction str generalizing line editor with
  | nil => exact simulates
  | cons ichar str ih => exact ih (simulates.creadAddChar ichar)

theorem Simulates.move {before after : List UInt8} (same : before ++ after = editor.text) :
    Simulates config { line with num := before.length }
      { editor with before := before, after := after } := by
  refine ⟨rfl, ?_, ?_, ?_, simulates.insert, simulates.escape, simulates.hist, simulates.fits⟩
  · exact simulates.eolNum.trans (congrArg List.length same.symm)
  · exact (congrArg List.length same).trans_le simulates.room
  · rw [Editor.text, same]
    exact simulates.text

theorem Simulates.replaceAfter {before after : List UInt8} (front : line.buf.Holds 0 before)
    (room : before.length + after.length ≤ config.cbsize) :
    Simulates config
      { line with
        buf := line.buf.store before.length after
        num := before.length
        eolNum := before.length + after.length }
      { editor with before := before, after := after } := by
  refine ⟨rfl, ?_, ?_, ?_, simulates.insert, simulates.escape, simulates.hist, simulates.fits⟩
  · exact List.length_append.symm
  · exact List.length_append.trans_le room
  · rw [Editor.text, Memory.holds_append, Nat.zero_add]
    exact ⟨front.store_apart (.inl (by omega)), Memory.store_holds _ _ _⟩

theorem Simulates.eraseToEol :
    Simulates config (Console.eraseToEol line) { editor with after := [] } := by
  have num := simulates.num
  have eolNum := simulates.eolNum
  have room := simulates.room
  have length : editor.text.length = editor.before.length + editor.after.length :=
    List.length_append
  rw [eraseToEol_eq (by omega)]
  refine ⟨num, ?_, ?_, ?_, simulates.insert, simulates.escape, simulates.hist, simulates.fits⟩
  · simp [Editor.text, num]
  · simp only [Editor.text, List.append_nil]
    omega
  · simpa [Editor.text] using simulates.parts.1

theorem Simulates.recallLine {found : Option CString × History} (fits : HistoryFits config found.2)
    (short : ∀ hline, found.1 = some hline → hline.length ≤ config.cbsize) :
    Simulates config (Console.recallLine line found) (editor.recall found) := by
  unfold Console.recallLine Editor.recall
  cases recalled : found.1 with
  | none =>
    exact ⟨simulates.num, simulates.eolNum, simulates.room, simulates.text, simulates.insert, rfl,
      rfl, fits⟩
  | some hline =>
    simp only
    rw [eraseToEol_eq (Nat.zero_le _), refreshToEol_eq (Nat.zero_le _)]
    refine ⟨rfl, ?_, ?_, ?_, simulates.insert, rfl, rfl, fits⟩
    · simp [Editor.text]
    · simpa [Editor.text] using short hline recalled
    · have stored := Memory.store_holds line.buf 0 (hline ++ [0])
      have line := ((Memory.holds_append _ _ _ _).mp stored).1
      simpa [Editor.text, beginningOfLine] using line

/-- A completion adds to the text. -/
theorem Simulates.complete (atEnd : editor.after = []) (clean : 0 ∉ editor.before)
    {suggest : CString → CString} (built : config.autoComplete = some suggest) :
    Simulates config
      { line with
        buf := (cmdAutoComplete config suggest (line.buf.store line.num [0]) line.num).1
        num := line.num +
          ((cmdAutoComplete config suggest (line.buf.store line.num [0]) line.num).2 - line.num)
        eolNum := line.eolNum +
          ((cmdAutoComplete config suggest (line.buf.store line.num [0]) line.num).2 - line.num) }
      (editor.complete config) := by
  have num := simulates.num
  have eolNum : line.eolNum = line.num := (simulates.atEnd.mpr atEnd).symm
  have front : (line.buf.store line.num [0]).Holds 0 editor.before :=
    simulates.parts.1.store_apart (.inl (by omega))
  have ended : Simulates config { line with buf := line.buf.store line.num [0] } editor := by
    refine ⟨num, simulates.eolNum, simulates.room, ?_, simulates.insert, simulates.escape,
      simulates.hist, simulates.fits⟩
    simpa [Editor.text, atEnd] using front
  have string : cString (line.buf.store line.num [0]) line.num = editor.before := by
    rw [num] at front ⊢
    exact cString_of_holds front clean
  unfold cmdAutoComplete Editor.complete
  simp only [string, built, atEnd, true_and]
  by_cases none : suggest editor.before = []
  · have same : { editor with before := editor.before, after := [] } = editor := by
      rw [← atEnd]
    simp only [none, List.length_nil, List.append_nil, ↓reduceIte, Nat.sub_self, Nat.add_zero, same,
      ite_self]
    exact ended
  · by_cases full : line.num + (suggest editor.before).length + 2 ≥ config.cbsize
    · rw [if_neg none, if_pos full, if_neg (by omega)]
      simpa using ended
    · rw [if_neg none, if_neg full, if_pos (by omega)]
      have stored := Memory.store_holds (line.buf.store line.num [0]) editor.before.length
        (suggest editor.before ++ [0])
      have added := ((Memory.holds_append _ _ _ _).mp stored).1
      have kept : ((line.buf.store line.num [0]).store editor.before.length
          (suggest editor.before ++ [0])).Holds 0 editor.before :=
        front.store_apart (.inl (by omega))
      refine ⟨?_, ?_, ?_, ?_, simulates.insert, simulates.escape, simulates.hist, simulates.fits⟩
      · simp only [List.length_append]
        omega
      · simp only [Editor.text, List.append_nil, List.length_append]
        omega
      · simp only [Editor.text, List.append_nil, List.length_append]
        omega
      · simp only [Editor.text, List.append_nil]
        rw [Memory.holds_append, Nat.zero_add]
        exact ⟨kept, added⟩

/-- `^D` deletes the character behind the cursor. -/
theorem Simulates.deleteBehind :
    Simulates config
      (if line.num < line.eolNum then
        { line with
          buf := if line.eolNum - line.num - 1 ≠ 0 then
              line.buf.copy line.num (line.num + 1) (line.eolNum - line.num - 1) else line.buf
          eolNum := line.eolNum - 1 }
      else line) { editor with after := editor.after.tail } := by
  obtain ⟨front, back⟩ := simulates.parts
  have behind := simulates.length_after
  have num := simulates.num
  have room := simulates.room
  have eolNum := simulates.eolNum
  have length : editor.text.length = editor.before.length + editor.after.length :=
    List.length_append
  cases after : editor.after with
  | nil =>
    rw [after, List.length_nil] at behind
    rw [if_neg (by omega), List.tail_nil, ← after]
    exact simulates
  | cons first rest =>
    rw [after, List.length_cons] at behind length
    rw [after] at back
    have kept := ((Memory.holds_append _ _ [first] rest).mp back).2
    rw [List.length_singleton] at kept
    have wlen : line.eolNum - line.num - 1 = rest.length := by omega
    rw [if_pos (by omega), wlen, kept.copy_eq_store, List.tail_cons]
    have moved : (if rest.length ≠ 0 then line.buf.store line.num rest else line.buf) =
        line.buf.store editor.before.length rest := by
      cases rest with
      | nil => simp
      | cons second rest => simp [num]
    have ends : line.eolNum - 1 = editor.before.length + rest.length := by omega
    rw [moved, ends]
    have replaced := @Simulates.replaceAfter _ _ _ simulates _ rest front (by omega)
    rw [← num] at replaced ⊢
    exact replaced

theorem Simulates.deleteBefore :
    Simulates config
      (if line.num ≠ 0 then
        { line with
          buf := line.buf.copy (line.num - 1) (line.num - 1 + 1) (line.eolNum - line.num)
          num := line.num - 1
          eolNum := line.eolNum - 1 }
      else line) { editor with before := editor.before.dropLast } := by
  obtain ⟨front, back⟩ := simulates.parts
  have behind := simulates.length_after
  have num := simulates.num
  have room := simulates.room
  have eolNum := simulates.eolNum
  have length : editor.text.length = editor.before.length + editor.after.length :=
    List.length_append
  rcases List.eq_nil_or_concat editor.before with empty | ⟨before, deleted, split⟩
  · rw [empty, List.length_nil] at num
    rw [if_neg (by omega), empty, List.dropLast_nil, ← empty]
    exact simulates
  · rw [List.concat_eq_append] at split
    rw [split, List.length_append, List.length_singleton] at num length
    rw [split] at front
    have kept := ((Memory.holds_append _ _ _ _).mp front).1
    have one : line.num - 1 = before.length := by omega
    have again : line.num - 1 + 1 = line.num := by omega
    have ends : line.eolNum - 1 = before.length + editor.after.length := by omega
    rw [if_pos (by omega), again, behind, back.copy_eq_store, one, ends, split,
      List.dropLast_concat]
    exact simulates.replaceAfter kept (by omega)

/-- The `switch` presses the key. -/
theorem Simulates.creadSwitch (key : Key) (clean : key = .tab → 0 ∉ editor.text) :
    match editor.press config key with
    | some pressed => ∃ next, Console.creadSwitch config line key = .next next ∧
        Simulates config next pressed
    | none => Console.creadSwitch config line key = .interrupt := by
  have num := simulates.num
  have eolNum := simulates.eolNum
  have room := simulates.room
  have length : editor.text.length = editor.before.length + editor.after.length :=
    List.length_append
  cases key with
  | escape =>
    refine ⟨_, rfl, num, eolNum, room, simulates.text, simulates.insert, ?_, simulates.hist,
      simulates.fits⟩
    simp only [simulates.escape]
  | ctlA => exact ⟨_, rfl, simulates.move (List.nil_append _)⟩
  | ctlC => rfl
  | ctlF =>
    refine ⟨_, rfl, ?_⟩
    cases after : editor.after with
    | nil =>
      rw [after, List.length_nil] at length
      rw [if_neg (by omega), List.take_nil, List.tail_nil, List.append_nil, ← after]
      exact simulates
    | cons first rest =>
      rw [after, List.length_cons] at length
      have moved := simulates.move (show (editor.before ++ [first]) ++ rest = editor.text by
        rw [Editor.text, after, List.append_assoc, List.singleton_append])
      rw [List.length_append, List.length_singleton, ← num] at moved
      rw [if_pos (by omega)]
      exact moved
  | ctlB =>
    refine ⟨_, rfl, ?_⟩
    rcases List.eq_nil_or_concat editor.before with empty | ⟨before, passed, split⟩
    · rw [empty, List.length_nil] at num
      rw [if_neg (by omega), empty, List.dropLast_nil, List.getLast?_nil, Option.toList_none,
        List.nil_append, ← empty]
      exact simulates
    · rw [List.concat_eq_append] at split
      rw [split, List.length_append, List.length_singleton] at num
      have moved := simulates.move (show before ++ ([passed] ++ editor.after) = editor.text by
        rw [Editor.text, split, List.append_assoc])
      have one : line.num - 1 = before.length := by omega
      rw [if_pos (by omega), one, split, List.dropLast_concat, List.getLast?_concat,
        Option.toList_some]
      exact moved
  | ctlD => exact ⟨_, rfl, simulates.deleteBehind⟩
  | ctlK => exact ⟨_, rfl, simulates.eraseToEol⟩
  | ctlE =>
    refine ⟨_, rfl, ?_⟩
    rw [refreshToEol_eq (by omega)]
    have moved := simulates.move (List.append_nil editor.text)
    rw [← eolNum] at moved
    exact moved
  | ctlO =>
    refine ⟨_, rfl, num, eolNum, room, simulates.text, ?_, simulates.escape, simulates.hist,
      simulates.fits⟩
    simp only [simulates.insert]
  | ctlU => exact ⟨_, rfl, (simulates.move (List.nil_append _)).eraseToEol⟩
  | backspace => exact ⟨_, rfl, simulates.deleteBefore⟩
  | ctlP =>
    refine ⟨_, rfl, ?_⟩
    rw [simulates.hist]
    exact simulates.recallLine (histPrev_fits simulates.fits).1 (histPrev_fits simulates.fits).2
  | ctlN =>
    refine ⟨_, rfl, ?_⟩
    rw [simulates.hist]
    exact simulates.recallLine (histNext_fits simulates.fits).1 (histNext_fits simulates.fits).2
  | tab =>
    refine ⟨_, rfl, ?_⟩
    have unchanged (some : editor.after ≠ []) : editor.complete config = editor := by
      unfold Editor.complete
      split
      · rfl
      · rw [if_neg fun both => some both.1]
    by_cases atEnd : editor.after = []
    · have nothing := simulates.atEnd.mpr atEnd
      have cleanBefore : 0 ∉ editor.before := fun member =>
        clean rfl (List.mem_append_left _ member)
      rw [if_neg (by omega)]
      cases built : config.autoComplete with
      | none =>
        have same : editor.complete config = editor := by
          unfold Editor.complete
          rw [built]
        rw [same]
        refine ⟨num, eolNum, room, ?_, simulates.insert, simulates.escape, simulates.hist,
          simulates.fits⟩
        exact simulates.text.store_apart (.inl (by omega))
      | some suggest => exact simulates.complete atEnd cleanBefore built
    · have some : line.num < line.eolNum := by
        have := List.length_pos_iff.mpr atEnd
        omega
      rw [if_pos some, unchanged atEnd]
      exact simulates
  | char c => exact ⟨_, rfl, simulates.creadAddChar c⟩

theorem Simulates.setEscape (escape : List UInt8) :
    Simulates config { line with escSave := escape } { editor with escape := escape } :=
  ⟨simulates.num, simulates.eolNum, simulates.room, simulates.text, simulates.insert, rfl,
    simulates.hist, simulates.fits⟩

/-- A turn of the loop does what the key does. -/
theorem Simulates.creadKey {ichar : UInt8} (more : ¬(ichar = 10 ∨ ichar = 13))
    (handles : editor.Handles config ichar) :
    match editor.key config ichar with
    | some pressed => ∃ next, Console.creadKey config line ichar = .next next ∧
        Simulates config next pressed
    | none => Console.creadKey config line ichar = .interrupt := by
  unfold Console.creadKey Editor.key
  rw [if_neg more]
  cases escape : editor.escape with
  | nil =>
    have none : line.escSave = [] := simulates.escape.trans escape
    rw [if_pos none]
    exact simulates.creadSwitch _ fun isTab => handles.clean ⟨escape, isTab⟩
  | cons first rest =>
    have started : line.escSave = first :: rest := simulates.escape.trans escape
    rw [if_neg (by simp [started]), started]
    cases rest with
    | nil =>
      simp only [List.length_singleton, ↓reduceIte]
      by_cases bracket : ichar = 91
      · rw [if_pos bracket, if_pos bracket]
        exact ⟨_, rfl, simulates.setEscape _⟩
      · have full := (handles.lone first escape).resolve_left bracket
        rw [if_neg bracket, if_neg bracket, full.type]
        exact ⟨_, rfl, (simulates.creadAddChar first).setEscape []⟩
    | cons second rest =>
      simp only [List.length_cons, Nat.add_eq_right, Nat.add_eq_zero_iff, one_ne_zero, and_false,
        ↓reduceIte]
      cases arrow : arrowKey ichar with
      | none => exact ⟨_, rfl, (simulates.creadAddStr _).setEscape []⟩
      | some key =>
        apply (simulates.setEscape []).creadSwitch
        rintro rfl
        exact absurd arrow (arrowKey_ne_tab ichar)

end Keys

/-! ## Every sequence of keys -/

/-- No Enter while a NUL is in the text, and every other key is handled as it should be. -/
def Editor.Clean (config : Config) (editor : Editor) : List UInt8 → Prop
  | [] => True
  | c :: keys =>
    if c = 10 ∨ c = 13 then 0 ∉ editor.text
    else editor.Handles config c ∧
      ∀ pressed, editor.key config c = some pressed → pressed.Clean config keys

/-- `cread_line` has done what the editor has. While it waits, its indices are in order and its
buffer holds the text; when it has returned, the NUL-terminated string in the buffer is the text. -/
def Matches (config : Config) : Progress → Edited → Prop
  | .waiting line, .waiting editor =>
    line.num ≤ line.eolNum ∧ line.eolNum ≤ config.cbsize ∧ Simulates config line editor
  | .returned buf len hist, .entered text hist' =>
    buf.Holds 0 (text ++ [0]) ∧ len = text.length ∧ cString buf len = text ∧ hist = hist' ∧
      HistoryFits config hist
  | .interrupted, .discarded => True
  | _, _ => False

theorem historyFits_entered {config : Config} (fits : HistoryFits config hist) {line : CString}
    (short : line.length ≤ config.cbsize) :
    HistoryFits config (hist.entered line) := by
  unfold History.entered
  split
  · exact fits
  · intro i
    unfold creadAddToHist
    simp only
    split
    · exact short
    · exact fits i

/-- The end of the line, without a NUL in it. -/
theorem Simulates.finishLine {config : Config} {line : Line} {editor : Editor}
    (simulates : Simulates config line editor) (clean : 0 ∉ editor.text) :
    Matches config (Console.finishLine line)
      (.entered editor.text (editor.hist.entered editor.text)) := by
  have eolNum := simulates.eolNum
  have stored : (line.buf.store line.eolNum [0]).Holds 0 (editor.text ++ [0]) := by
    rw [Memory.holds_append, Nat.zero_add, ← eolNum]
    exact ⟨simulates.text.store_apart (.inl (by omega)), Memory.store_holds _ _ _⟩
  have string : cString (line.buf.store line.eolNum [0]) line.eolNum = editor.text := by
    rw [eolNum] at stored ⊢
    exact cString_of_holds ((Memory.holds_append _ _ _ _).mp stored).1 clean
  have kept : (if line.buf.store line.eolNum [0] 0 ≠ 0 ∧ line.buf.store line.eolNum [0] 0 ≠ 33 then
        creadAddToHist line.hist editor.text else line.hist) =
      if editor.text = [] ∨ editor.text.head? = some 33 then editor.hist
      else creadAddToHist editor.hist editor.text := by
    have first := stored 0 (by simp)
    rw [simulates.hist, ← ite_not]
    congr 1
    cases text : editor.text with
    | nil =>
      simp only [text, Nat.zero_add, List.nil_append, List.getElem_cons_zero] at first
      simp [first]
    | cons c rest =>
      have nonzero : c ≠ 0 := by
        rintro rfl
        exact clean (by simp [text])
      simp only [text, Nat.zero_add, List.cons_append, List.getElem_cons_zero] at first
      simp [first, nonzero]
  have histSame : (Console.finishLine line) = .returned (line.buf.store line.eolNum [0])
      line.eolNum (editor.hist.entered editor.text) := by
    unfold Console.finishLine History.entered
    simp only [string, kept]
  rw [histSame]
  exact ⟨stored, eolNum, string, rfl, historyFits_entered simulates.fits simulates.room⟩

/-- The loop does what the editor does. -/
theorem Simulates.creadLoop {config : Config} {line : Line} {editor : Editor}
    (simulates : Simulates config line editor) {keys : List UInt8}
    (clean : editor.Clean config keys) :
    Matches config (Console.creadLoop config line keys) (editor.run config keys) := by
  induction keys generalizing line editor with
  | nil =>
    have length : editor.text.length = editor.before.length + editor.after.length :=
      List.length_append
    have num := simulates.num
    have eolNum := simulates.eolNum
    have room := simulates.room
    exact ⟨by omega, by omega, simulates⟩
  | cons ichar keys ih =>
    unfold Editor.Clean at clean
    unfold Console.creadLoop Editor.run
    by_cases ends : ichar = 10 ∨ ichar = 13
    · have entered : Console.creadKey config line ichar = .enter line := if_pos ends
      rw [if_pos ends] at clean ⊢
      rw [entered]
      exact simulates.finishLine clean
    · rw [if_neg ends] at clean ⊢
      have turn := simulates.creadKey ends clean.1
      cases pressed : editor.key config ichar with
      | none =>
        rw [pressed] at turn
        rw [turn]
        trivial
      | some next =>
        rw [pressed] at turn
        obtain ⟨nextLine, called, simulatesNext⟩ := turn
        rw [called]
        exact ih simulatesNext (clean.2 next pressed)

/-- The editor that `cread_line` starts with: as much of the text given as fits. -/
def Editor.start (config : Config) (init : CString) (hist : History) : Editor :=
  init.foldl (Editor.type config.cbsize) ⟨[], [], true, [], hist⟩

/-- On every sequence of keys `cread_line` does what the abstract editor does, as long as no Enter
and no completion meets a NUL in the text, and only a bracket follows a lone escape. -/
theorem creadLine_matches (config : Config) {buf : Memory} {init : CString}
    (stands : buf.Holds 0 (init ++ [0])) {hist : History} (fits : HistoryFits config hist)
    {keys : List UInt8} (clean : (Editor.start config init hist).Clean config keys) :
    Matches config (creadLine config buf init.length hist keys)
      ((Editor.start config init hist).run config keys) := by
  have empty : Simulates config ⟨buf, 0, 0, true, [], hist⟩ ⟨[], [], true, [], hist⟩ := by
    refine ⟨rfl, rfl, Nat.zero_le _, ?_, rfl, rfl, rfl, fits⟩
    intro i inside
    simp [Editor.text] at inside
  have started := empty.creadAddStr init
  have loaded : buf.load 0 init.length = init := ((Memory.holds_append _ _ _ _).mp stands).1.load
  unfold creadLine
  cases init with
  | nil => exact empty.creadLoop clean
  | cons first rest =>
    simp only [loaded]
    rw [if_pos (by simp)]
    exact started.creadLoop clean

/-- A small console without completion. -/
def smallConsole : Config := ⟨16, by decide, none⟩

/-- The keys `a`, `b`, cursor left, `c` and Enter. -/
theorem creadLine_matches_arrow : Matches smallConsole
    (creadLine smallConsole Memory.blank 0 histInit [97, 98, 27, 91, 68, 99, 13])
    ((Editor.start smallConsole [] histInit).run smallConsole [97, 98, 27, 91, 68, 99, 13]) := by
  refine @creadLine_matches smallConsole Memory.blank [] ?_ histInit ?_
    [97, 98, 27, 91, 68, 99, 13] ?_
  · intro i inside
    simp only [List.nil_append, List.length_singleton, Nat.lt_one_iff] at inside
    subst inside
    rfl
  · intro i
    exact Nat.zero_le _
  · refine ⟨⟨by decide, nofun⟩, ?_⟩
    rintro _ ⟨⟩
    refine ⟨⟨by decide, nofun⟩, ?_⟩
    rintro _ ⟨⟩
    refine ⟨⟨by decide, nofun⟩, ?_⟩
    rintro _ ⟨⟩
    refine ⟨⟨by decide, fun _ _ => .inl rfl⟩, ?_⟩
    rintro _ ⟨⟩
    refine ⟨⟨by decide, nofun⟩, ?_⟩
    rintro _ ⟨⟩
    refine ⟨⟨by decide, nofun⟩, ?_⟩
    rintro _ ⟨⟩
    exact (by decide : 0 ∉ ([97, 99, 98] : List UInt8))

/-- The string that `cread_line` returns. -/
def Progress.string : Progress → Option CString
  | .returned buf len _ => some (cString buf len)
  | _ => none

/-- The keys `a`, NUL, `b` and Enter: the text has three characters, the string returned has one. -/
theorem creadLine_matches_not : Memory.blank.Holds 0 ([] ++ [0]) ∧
    HistoryFits smallConsole histInit ∧
    ¬Matches smallConsole (creadLine smallConsole Memory.blank 0 histInit [97, 0, 98, 13])
      ((Editor.start smallConsole [] histInit).run smallConsole [97, 0, 98, 13]) := by
  refine ⟨?_, fun i => Nat.zero_le _, ?_⟩
  · intro i inside
    simp only [List.nil_append, List.length_singleton, Nat.lt_one_iff] at inside
    subst inside
    rfl
  · intro matched
    have string : (creadLine smallConsole Memory.blank 0 histInit [97, 0, 98, 13]).string =
        some [97] := by
      decide +kernel
    have ran : ∃ hist, (Editor.start smallConsole [] histInit).run smallConsole [97, 0, 98, 13] =
        .entered [97, 0, 98] hist := ⟨_, rfl⟩
    obtain ⟨hist, ran⟩ := ran
    rw [ran] at matched
    cases result : creadLine smallConsole Memory.blank 0 histInit [97, 0, 98, 13] with
    | waiting line =>
      rw [result] at matched
      exact matched
    | interrupted =>
      rw [result] at matched
      exact matched
    | returned buf len hist' =>
      rw [result] at matched string
      obtain ⟨-, -, same, -⟩ := matched
      simp [Progress.string, same] at string

end HrppBoot.Console
