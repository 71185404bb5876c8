import Mathlib.Data.UInt

/-!
# The simple command line

`common/cli_simple.c`: a command line is split at semicolons, the macros of each command are
replaced, and the words of the result are the arguments of the command. Strings are byte lists
without their NUL. An array of pointers holds offsets into the line; what it holds before it is
filled is not known. `CONFIG_SYS_CBSIZE` and `CONFIG_SYS_MAXARGS` are parameters. Debug messages are
left out.
-/

namespace HrppBoot.Cli

/-- A NUL-terminated string, without the NUL. -/
abbrev CString := List UInt8

/-- `'\\'` -/
def backslash : UInt8 := 0x5c

/-- `'\''` -/
def quote : UInt8 := 0x27

/-- `'$'` -/
def dollar : UInt8 := 0x24

/-- `';'` -/
def semicolon : UInt8 := 0x3b

def isblank (c : UInt8) : Bool := c = 0x20 ∨ c = 0x09

/-! ## Arguments -/

/-- An array of pointers into a line: offsets, or `NULL`. -/
abbrev Argv := Nat → Option Nat

/-- Write one pointer. -/
def Argv.set (argv : Argv) (n : Nat) (pointer : Option Nat) : Argv :=
  fun i => if i = n then pointer else argv i

@[simp] theorem Argv.set_same (argv : Argv) (n : Nat) (pointer : Option Nat) :
    argv.set n pointer n = pointer := if_pos rfl

theorem Argv.set_other (argv : Argv) {n i : Nat} (pointer : Option Nat) (other : i ≠ n) :
    argv.set n pointer i = argv i := if_neg other

/-- What `cli_simple_parse_line` leaves. -/
structure Parsed where
  nargs : Nat
  argv : Argv
  line : List UInt8

/-- The loop of `cli_simple_parse_line`, for the turns that are left: `before` are the bytes behind
`line`, and `rest` those from there on. -/
def parseTurns (nargs : Nat) (argv : Argv) (before rest : List UInt8) : Nat → Parsed
  | 0 => ⟨nargs, argv, before ++ rest⟩
  | turns + 1 =>
    let skipped := before ++ rest.takeWhile isblank
    match rest.dropWhile isblank with
    | [] => ⟨nargs, argv.set nargs none, skipped⟩
    | c :: rest =>
      let argv := argv.set nargs (some skipped.length)
      let passed := skipped ++ (c :: rest).takeWhile fun c => !isblank c
      match (c :: rest).dropWhile fun c => !isblank c with
      | [] => ⟨nargs + 1, argv.set (nargs + 1) none, passed⟩
      | _ :: rest => parseTurns (nargs + 1) argv (passed ++ [0]) rest turns

/-- `cli_simple_parse_line` -/
def parseLine (maxargs : Nat) (line : CString) (argv : Argv) : Parsed :=
  parseTurns 0 argv [] line maxargs

/-! ## Macros -/

/-- `state`, with the characters from `varname_start` on. -/
inductive MacroState where
  | dollar
  | bracket
  | name (chars : CString)
  | quote
  deriving DecidableEq, Repr

/-- The `switch` of `cli_simple_process_macros`: the state and the output after a character, which
takes up the characters `raw` of the input. It has no result where the name does not fit
`envname`. -/
def macroSwitch (cbsize : Nat) (getenv : CString → Option CString) (state : MacroState)
    (prev c : UInt8) (raw : List UInt8) (output : List UInt8) :
    Option (MacroState × List UInt8) :=
  match state with
  | .dollar =>
    if c = Cli.quote ∧ prev ≠ backslash then some (.quote, output)
    else if c = Cli.dollar ∧ prev ≠ backslash then some (.bracket, output)
    else some (.dollar, output ++ [c])
  | .bracket =>
    if c = 0x28 ∨ c = 0x7b then some (.name [], output)
    else
      let output := output ++ [Cli.dollar]
      some (.dollar, if output.length < cbsize then output ++ [c] else output)
  | .name chars =>
    if c = 0x29 ∨ c = 0x7d then
      let envname := chars ++ raw.dropLast
      if envname.length < cbsize then
        match getenv envname with
        | none => some (.dollar, output)
        | some envval => some (.dollar, output ++ envval.take (cbsize - output.length))
      else none
    else some (.name (chars ++ raw), output)
  | .quote =>
    if c = Cli.quote ∧ prev ≠ backslash then some (.dollar, output)
    else some (.quote, output ++ [c])

/-- The loop of `cli_simple_process_macros`. -/
def macroLoop (cbsize : Nat) (getenv : CString → Option CString) (state : MacroState)
    (prev : UInt8) (output : List UInt8) : List UInt8 → Option (List UInt8)
  | [] => some output
  | c :: input =>
    if output.length < cbsize then
      if state ≠ .quote ∧ c = backslash ∧ prev ≠ backslash then
        match input with
        | [] => some output
        | d :: input =>
          (macroSwitch cbsize getenv state c d [c, d] output).bind fun (state, output) =>
            macroLoop cbsize getenv state d output input
      else
        (macroSwitch cbsize getenv state prev c [c] output).bind fun (state, output) =>
          macroLoop cbsize getenv state c output input
    else some output

/-- `cli_simple_process_macros`: the bytes of the output. -/
def processMacros (cbsize : Nat) (getenv : CString → Option CString) (input : CString) :
    Option (List UInt8) :=
  (macroLoop cbsize getenv .dollar 0 [] input).map fun output =>
    if output.length < cbsize then output ++ [0] else output.dropLast ++ [0]

/-! ## Commands -/

/-- The search for a separator, from `sep` on, behind the byte `prev`: what is before it, and what
is behind it. -/
def findSeparator (start inquotes : Bool) (prev : UInt8) : List UInt8 → CString × Option CString
  | [] => ([], none)
  | c :: rest =>
    let inquotes := if c = quote ∧ prev ≠ backslash then !inquotes else inquotes
    if !inquotes ∧ c = semicolon ∧ !start ∧ prev ≠ backslash then ([], some rest)
    else
      let (token, more) := findSeparator false inquotes c rest
      (c :: token, more)

theorem findSeparator_shorter {start inquotes : Bool} {prev : UInt8} {str token rest : List UInt8}
    (found : findSeparator start inquotes prev str = (token, some rest)) :
    rest.length < str.length := by
  induction str generalizing start inquotes prev token with
  | nil => simp [findSeparator] at found
  | cons c str ih =>
    rw [findSeparator] at found
    generalize (if c = quote ∧ prev ≠ backslash then !inquotes else inquotes) = quoted at found
    dsimp only at found
    by_cases ends : (!quoted) = true ∧ c = semicolon ∧ (!start) = true ∧ prev ≠ backslash
    · rw [if_pos ends] at found
      obtain ⟨_, rfl⟩ := by simpa using found
      exact Nat.lt_succ_self _
    · rw [if_neg ends] at found
      exact Nat.lt_succ_of_lt (ih (Prod.ext rfl (Prod.mk.inj found).2))

/-- The tokens that the loop of `cli_simple_run_command` takes from `str` on, behind the byte
`prev`. A separator is overwritten with a NUL, which is what the next token starts behind. -/
def tokensFrom (prev : UInt8) (str : CString) : List CString :=
  if str = [] then []
  else
    match _found : findSeparator true false prev str with
    | (token, none) => [token]
    | (token, some rest) => token :: tokensFrom 0 rest
termination_by str.length
decreasing_by exact findSeparator_shorter _found

end HrppBoot.Cli
