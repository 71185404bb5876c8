import HrppBoot.Lib.Memory

/-!
# The line editor

`cread_line` of `common/cli_readline.c`, with the history. The line is edited in `buf`, which has
room for `CONFIG_SYS_CBSIZE` characters and a NUL; the only caller passes that size. What is printed
is left out, and so are the time limits. Strings of the history are byte lists without their NUL.

Command completion, if it is built in, is modelled as far as it changes the line: what it suggests
for a text is a parameter.
-/

namespace HrppBoot.Console

open ByteMemory

/-- A NUL-terminated string, without the NUL. -/
abbrev CString := List UInt8

/-- The NUL-terminated string at the start of a buffer that has a NUL at `n` or before. -/
def cString (buf : Memory) (n : Nat) : CString := (buf.load 0 n).takeWhile (· ≠ 0)

/-- Build options. -/
structure Config where
  /-- `CONFIG_SYS_CBSIZE` -/
  cbsize : Nat
  positive : 0 < cbsize
  /-- With `CONFIG_AUTO_COMPLETE`, what the completion adds to a text: nothing if it has no match,
  or only lists its matches. -/
  autoComplete : Option (CString → CString)

/-! ## The history -/

/-- `HIST_MAX` -/
def histMaxLines : Nat := 20

/-- The variables of the history. -/
structure History where
  histMax : Nat
  histAddIdx : Nat
  histCur : Int
  histList : Nat → CString

def histInit : History := ⟨0, 0, -1, fun _ => []⟩

def creadAddToHist (hist : History) (line : CString) : History :=
  let addIdx := if hist.histAddIdx + 1 ≥ histMaxLines then 0 else hist.histAddIdx + 1
  { hist with
    histList := fun i => if i = hist.histAddIdx then line else hist.histList i
    histAddIdx := addIdx
    histMax := if addIdx > hist.histMax then addIdx else hist.histMax }

def histPrev (hist : History) : Option CString × History :=
  if hist.histCur < 0 then (none, hist)
  else
    let cur : Int := if hist.histCur - 1 < 0 then hist.histMax else hist.histCur - 1
    if cur = hist.histAddIdx then (none, hist)
    else (some (hist.histList cur.toNat), { hist with histCur := cur })

def histNext (hist : History) : Option CString × History :=
  if hist.histCur < 0 then (none, hist)
  else if hist.histCur = hist.histAddIdx then (none, hist)
  else
    let cur : Int := if hist.histCur + 1 > hist.histMax then 0 else hist.histCur + 1
    if cur = hist.histAddIdx then (some [], { hist with histCur := cur })
    else (some (hist.histList cur.toNat), { hist with histCur := cur })

/-! ## Keys -/

/-- The labels of the `switch` over the key. -/
inductive Key where
  /-- `0x1b` -/
  | escape
  /-- `CTL_CH('a')` -/
  | ctlA
  /-- `CTL_CH('c')` -/
  | ctlC
  /-- `CTL_CH('f')` -/
  | ctlF
  /-- `CTL_CH('b')` -/
  | ctlB
  /-- `CTL_CH('d')` -/
  | ctlD
  /-- `CTL_CH('k')` -/
  | ctlK
  /-- `CTL_CH('e')` -/
  | ctlE
  /-- `CTL_CH('o')` -/
  | ctlO
  /-- `CTL_CH('x')` and `CTL_CH('u')` -/
  | ctlU
  /-- `DEL`, `DEL7` and 8 -/
  | backspace
  /-- `CTL_CH('p')` -/
  | ctlP
  /-- `CTL_CH('n')` -/
  | ctlN
  | tab
  /-- `default` -/
  | char (ichar : UInt8)
  deriving DecidableEq, Repr

/-- The label that a key meets. -/
def keyOf (config : Config) (ichar : UInt8) : Key :=
  if ichar = 0x1b then .escape
  else if ichar = 1 then .ctlA
  else if ichar = 3 then .ctlC
  else if ichar = 6 then .ctlF
  else if ichar = 2 then .ctlB
  else if ichar = 4 then .ctlD
  else if ichar = 11 then .ctlK
  else if ichar = 5 then .ctlE
  else if ichar = 15 then .ctlO
  else if ichar = 24 ∨ ichar = 21 then .ctlU
  else if ichar = 255 ∨ ichar = 127 ∨ ichar = 8 then .backspace
  else if ichar = 16 then .ctlP
  else if ichar = 14 then .ctlN
  else if ichar = 9 ∧ config.autoComplete.isSome then .tab
  else .char ichar

/-- The key that the last character of an escape sequence stands for. -/
def arrowKey (ichar : UInt8) : Option Key :=
  if ichar = 68 then some .ctlB
  else if ichar = 67 then some .ctlF
  else if ichar = 72 then some .ctlA
  else if ichar = 65 then some .ctlP
  else if ichar = 66 then some .ctlN
  else none

/-! ## The editor -/

/-- The variables of `cread_line`. -/
structure Line where
  buf : Memory
  num : Nat
  eolNum : Nat
  insert : Bool
  /-- The first `esc_len` characters of `esc_save`. -/
  escSave : List UInt8
  hist : History

def creadAddChar (config : Config) (line : Line) (ichar : UInt8) : Line :=
  if (line.insert ∨ line.num = line.eolNum) ∧ line.eolNum > config.cbsize - 1 then line
  else
    let eolNum := if line.insert ∨ line.num = line.eolNum then line.eolNum + 1 else line.eolNum
    if line.insert then
      let wlen := eolNum - line.num
      let buf := if wlen > 1 then line.buf.copy (line.num + 1) line.num (wlen - 1) else line.buf
      { line with buf := buf.store line.num [ichar], num := line.num + 1, eolNum := eolNum }
    else { line with buf := line.buf.store line.num [ichar], num := line.num + 1, eolNum := eolNum }

def creadAddStr (config : Config) (line : Line) (str : List UInt8) : Line :=
  str.foldl (creadAddChar config) line

def beginningOfLine (line : Line) : Line := { line with num := 0 }

def eraseToEol (line : Line) : Line :=
  if line.num < line.eolNum then { line with eolNum := line.num } else line

def refreshToEol (line : Line) : Line :=
  if line.num < line.eolNum then { line with num := line.eolNum } else line

/-- The part of `^P` and `^N` behind the search in the history. -/
def recallLine (line : Line) (found : Option CString × History) : Line :=
  let line := { line with escSave := [], hist := found.2 }
  match found.1 with
  | none => line
  | some hline =>
    let line := eraseToEol (beginningOfLine line)
    refreshToEol { line with buf := line.buf.store 0 (hline ++ [0]), eolNum := hline.length }

/-- `cmd_auto_complete`, as far as it changes the line: the buffer and the number of characters. -/
def cmdAutoComplete (config : Config) (suggest : CString → CString) (buf : Memory) (n : Nat) :
    Memory × Nat :=
  let text := cString buf n
  let added := suggest text
  if added = [] then (buf, n)
  else if n + added.length + 2 ≥ config.cbsize then (buf, n)
  else (buf.store text.length (added ++ [0]), n + added.length)

/-- How a key ends. -/
inductive Reaction where
  | next (line : Line)
  | enter (line : Line)
  | interrupt
  deriving Inhabited

/-- The `switch` over the key. -/
def creadSwitch (config : Config) (line : Line) : Key → Reaction
  | .escape => .next { line with escSave := if line.escSave = [] then [0x1b] else [] }
  | .ctlA => .next (beginningOfLine line)
  | .ctlC => .interrupt
  | .ctlF => .next (if line.num < line.eolNum then { line with num := line.num + 1 } else line)
  | .ctlB => .next (if line.num ≠ 0 then { line with num := line.num - 1 } else line)
  | .ctlD => .next <|
    if line.num < line.eolNum then
      let wlen := line.eolNum - line.num - 1
      { line with
        buf := if wlen ≠ 0 then line.buf.copy line.num (line.num + 1) wlen else line.buf
        eolNum := line.eolNum - 1 }
    else line
  | .ctlK => .next (eraseToEol line)
  | .ctlE => .next (refreshToEol line)
  | .ctlO => .next { line with insert := !line.insert }
  | .ctlU => .next (eraseToEol (beginningOfLine line))
  | .backspace => .next <|
    if line.num ≠ 0 then
      let wlen := line.eolNum - line.num
      let num := line.num - 1
      { line with
        buf := line.buf.copy num (num + 1) wlen
        num := num
        eolNum := line.eolNum - 1 }
    else line
  | .ctlP => .next (recallLine line (histPrev line.hist))
  | .ctlN => .next (recallLine line (histNext line.hist))
  | .tab => .next <|
    if line.num < line.eolNum then line
    else
      let buf := line.buf.store line.num [0]
      match config.autoComplete with
      | none => { line with buf := buf }
      | some suggest =>
        let (buf, num2) := cmdAutoComplete config suggest buf line.num
        { line with
          buf := buf
          num := line.num + (num2 - line.num)
          eolNum := line.eolNum + (num2 - line.num) }
  | .char ichar => .next (creadAddChar config line ichar)

/-- One turn of the loop of `cread_line`. -/
def creadKey (config : Config) (line : Line) (ichar : UInt8) : Reaction :=
  if ichar = 10 ∨ ichar = 13 then .enter line
  else if line.escSave = [] then creadSwitch config line (keyOf config ichar)
  else if line.escSave.length = 1 then
    if ichar = 91 then .next { line with escSave := line.escSave ++ [ichar] }
    else .next { creadAddStr config line line.escSave with escSave := [] }
  else
    match arrowKey ichar with
    | some key => creadSwitch config { line with escSave := [] } key
    | none => .next { creadAddStr config line (line.escSave ++ [ichar]) with escSave := [] }

/-- What `cread_line` has done with the keys so far. -/
inductive Progress where
  | waiting (line : Line)
  /-- It has returned 0, with the buffer, `*len` and the history. -/
  | returned (buf : Memory) (len : Nat) (hist : History)
  | interrupted

/-- The end of `cread_line`. -/
def finishLine (line : Line) : Progress :=
  let buf := line.buf.store line.eolNum [0]
  let hist := if buf 0 ≠ 0 ∧ buf 0 ≠ 33 then
      creadAddToHist line.hist (cString buf line.eolNum)
    else line.hist
  .returned buf line.eolNum { hist with histCur := hist.histAddIdx }

/-- The loop of `cread_line`. -/
def creadLoop (config : Config) (line : Line) : List UInt8 → Progress
  | [] => .waiting line
  | ichar :: keys =>
    match creadKey config line ichar with
    | .next line => creadLoop config line keys
    | .enter line => finishLine line
    | .interrupt => .interrupted

/-- `cread_line`, on a buffer whose string has `init_len` characters. -/
def creadLine (config : Config) (buf : Memory) (initLen : Nat) (hist : History)
    (keys : List UInt8) : Progress :=
  let line : Line := ⟨buf, 0, 0, true, [], hist⟩
  creadLoop config (if initLen ≠ 0 then creadAddStr config line (buf.load 0 initLen) else line) keys

end HrppBoot.Console
