import HrppBoot.Cli.Simple

/-!
# Running a command line

`cli_simple_run_command` runs the commands of a string one after the other. They are its parts
between separators: semicolons outside quotes, not escaped and not at the start of a command. The
byte before the buffer that the string is copied to is read where the string starts with a quote.
-/

namespace HrppBoot.Cli

/-! ## Execution -/

/-- What the commands of a machine do to it. -/
structure Machine (σ : Type) where
  clearCtrlc : σ → σ
  hadCtrlc : σ → Bool
  puts : String → σ → σ
  getenv : σ → CString → Option CString
  /-- `cmd_process` for a flag and arguments, with what it leaves in `repeatable`, and if it is not
  successful. -/
  cmdProcess : Nat → List CString → Int → σ → σ × Int × Bool

/-- The local variables of `cli_simple_run_command`, and the machine. -/
structure Run (σ : Type) where
  argv : Argv
  rc : Int
  repeatable : Int
  machine : σ

def arguments (parsed : Parsed) : List CString :=
  (List.range parsed.nargs).map fun k =>
    ((parsed.line ++ [0]).drop ((parsed.argv k).getD 0)).takeWhile (· ≠ 0)

section Execution

variable {σ : Type} (m : Machine σ) (cbsize maxargs flag : Nat)

/-- The body of the loop for a token, and if the loop goes on. There is no result where the name of
a macro is too long. -/
def runToken (run : Run σ) (token : CString) : Option (Run σ × Bool) :=
  (processMacros cbsize (m.getenv run.machine) token).map fun finaltoken =>
    let parsed := parseLine maxargs (finaltoken.takeWhile (· ≠ 0)) run.argv
    if parsed.nargs = 0 then ({ run with argv := parsed.argv, rc := -1 }, true)
    else
      let (machine, repeatable, failed) :=
        m.cmdProcess flag (arguments parsed) run.repeatable run.machine
      let run := ⟨parsed.argv, if failed then -1 else run.rc, repeatable, machine⟩
      (run, !m.hadCtrlc machine)

/-- The loop over the tokens, and what it returns. -/
def runTokens (run : Run σ) : List CString → Option (Int × σ)
  | [] => some (if run.rc ≠ 0 then run.rc else run.repeatable, run.machine)
  | token :: tokens =>
    (runToken m cbsize maxargs flag run token).bind fun (run, continues) =>
      if continues then runTokens run tokens else some (-1, run.machine)

/-- `cli_simple_run_command`, where `before` is the byte before `cmdbuf`, and `argv` holds what the
array holds before it is filled. -/
def runCommand (before : UInt8) (argv : Argv) (cmd : Option CString) (machine : σ) :
    Option (Int × σ) :=
  let machine := m.clearCtrlc machine
  match cmd with
  | none => some (-1, machine)
  | some cmd =>
    if cmd = [] then some (-1, machine)
    else if cbsize ≤ cmd.length then some (-1, m.puts "## Command too long!\n" machine)
    else runTokens m cbsize maxargs flag ⟨argv, 0, 1, machine⟩ (tokensFrom before cmd)

end Execution

/-! ## Separators -/

def escaped (cmd : CString) : Nat → Bool
  | 0 => false
  | i + 1 => cmd[i]? = some backslash

def isQuote (cmd : CString) (i : Nat) : Bool := cmd[i]? = some quote ∧ !escaped cmd i

/-- A place inside quotes: there is an odd number of them before. -/
def quoted (cmd : CString) : Nat → Bool
  | 0 => false
  | i + 1 => quoted cmd i ^^ isQuote cmd i

/-- A semicolon outside quotes that is not escaped. -/
def isSemicolon (cmd : CString) (i : Nat) : Bool :=
  cmd[i]? = some semicolon ∧ !quoted cmd i ∧ !escaped cmd i

/-- One that is not at the start of a command: neither the first character, nor behind a
separator. -/
def isSeparator (cmd : CString) : Nat → Bool
  | 0 => false
  | i + 1 => isSemicolon cmd (i + 1) && !isSeparator cmd i

/-- The parts of the characters from `i` on between separators, where `part` is before them. -/
def splitFrom (separator : Nat → Bool) (i : Nat) (part : CString) : CString → List CString
  | [] => if part = [] then [] else [part]
  | c :: rest =>
    if separator i then part :: splitFrom separator (i + 1) [] rest
    else splitFrom separator (i + 1) (part ++ [c]) rest

def commands (cmd : CString) : List CString := splitFrom (isSeparator cmd) 0 [] cmd

theorem splitFrom_part {separator : Nat → Bool} {i : Nat} {token : CString} (part rest : CString)
    (none : ∀ k < token.length, separator (i + k) = false) :
    splitFrom separator i part (token ++ rest) =
      splitFrom separator (i + token.length) (part ++ token) rest := by
  induction token generalizing i part with
  | nil => rw [List.nil_append, List.append_nil, List.length_nil, Nat.add_zero]
  | cons c token ih =>
    have here := none 0 (Nat.succ_pos _)
    rw [Nat.add_zero] at here
    have later : ∀ k < token.length, separator (i + 1 + k) = false := by
      intro k below
      rw [Nat.add_assoc, Nat.add_comm 1 k]
      exact none (k + 1) (Nat.succ_lt_succ below)
    rw [List.cons_append, splitFrom, if_neg (by simp [here]), ih _ later, List.append_assoc,
      List.length_cons, Nat.add_assoc, Nat.add_comm 1]
    rfl

/-! ## The search for a separator -/

/-- The search stands behind `front`: it knows if a command starts there, if it is inside quotes,
and if the next character is escaped. -/
structure Stands (cmd front : CString) (start inquotes : Bool) (prev : UInt8) : Prop where
  /-- A command starts at the first character and behind separators. -/
  start : start = (front.length == 0 || isSeparator cmd (front.length - 1))
  quotes : inquotes = quoted cmd front.length
  escape : (prev = backslash) ↔ escaped cmd front.length = true

variable {cmd front rest : CString}

theorem isSeparator_iff {c : UInt8} {start inquotes : Bool} {prev : UInt8}
    (whole : cmd = front ++ c :: rest) (stands : Stands cmd front start inquotes prev) :
    isSeparator cmd front.length = true ↔ (!inquotes) = true ∧ c = semicolon ∧ (!start) = true ∧
      prev ≠ backslash := by
  have char : cmd[front.length]? = some c := by simp [whole]
  have escape := stands.escape
  have start := stands.start
  have quotes := stands.quotes
  cases size : front.length with
  | zero =>
    rw [size] at start
    simp [isSeparator, start]
  | succ i =>
    rw [size] at start quotes escape char
    simp only [isSeparator, isSemicolon, char, quotes, start, ne_eq, escape]
    simp
    tauto

theorem Stands.next {cmd front rest : CString} {c : UInt8} {start inquotes : Bool} {prev : UInt8}
    (whole : cmd = front ++ c :: rest) (stands : Stands cmd front start inquotes prev)
    (none : isSeparator cmd front.length = false) :
    Stands cmd (front ++ [c]) false
      (if c = quote ∧ prev ≠ backslash then !inquotes else inquotes) c := by
  have char : cmd[front.length]? = some c := by simp [whole]
  have size : (front ++ [c]).length = front.length + 1 := by simp
  refine ⟨by simp [none], ?_, ?_⟩
  · have quote : isQuote cmd front.length = decide (c = quote ∧ prev ≠ backslash) := by
      simp [isQuote, char, stands.escape]
    rw [size, quoted, ← stands.quotes, quote]
    split <;> simp [*]
  · rw [size, escaped, char]
    simp

theorem Stands.separator (whole : cmd = front ++ semicolon :: rest)
    (separator : isSeparator cmd front.length = true) :
    Stands cmd (front ++ [semicolon]) true false 0 := by
  have char : cmd[front.length]? = some semicolon := by simp [whole]
  have size : (front ++ [semicolon]).length = front.length + 1 := by simp
  have outside : quoted cmd front.length = false := by
    cases back : front.length with
    | zero => rfl
    | succ i =>
      rw [back] at separator
      simp only [isSeparator, isSemicolon] at separator
      simp at separator
      exact separator.1.2.1
  refine ⟨by simp [separator], ?_, ?_⟩
  · rw [size, quoted, outside, isQuote, char]
    rfl
  · rw [size, escaped, char]
    decide

/-- What the search finds is the part up to the next separator. -/
theorem findSeparator_spec {token : CString} {more : Option CString} {start inquotes : Bool}
    {prev : UInt8} (whole : cmd = front ++ rest) (stands : Stands cmd front start inquotes prev)
    (found : findSeparator start inquotes prev rest = (token, more)) :
    (∀ k < token.length, isSeparator cmd (front.length + k) = false) ∧
      (more = none → rest = token) ∧
      ∀ behind, more = some behind → rest = token ++ semicolon :: behind ∧
        isSeparator cmd (front.length + token.length) = true := by
  induction rest generalizing front start inquotes prev token with
  | nil =>
    obtain ⟨rfl, rfl⟩ := Prod.mk.inj found
    exact ⟨fun k below => absurd below (Nat.not_lt_zero k), fun _ => rfl,
      fun _ some => by cases some⟩
  | cons c rest ih =>
    have here := isSeparator_iff whole stands
    have separator : (!(if c = quote ∧ prev ≠ backslash then !inquotes else inquotes)) = true ∧
        c = semicolon ∧ (!start) = true ∧ prev ≠ backslash ↔
        isSeparator cmd front.length = true := by
      rw [here]
      by_cases semi : c = semicolon
      · rw [if_neg fun quoted => by rw [semi] at quoted; exact absurd quoted.1 (by decide)]
      · exact iff_of_false (fun other => semi other.2.1) fun other => semi other.2.1
    rw [findSeparator] at found
    dsimp only at found
    by_cases ends : isSeparator cmd front.length = true
    · rw [if_pos (separator.mpr ends)] at found
      obtain ⟨rfl, rfl⟩ := Prod.mk.inj found
      refine ⟨fun k below => absurd below (Nat.not_lt_zero k), fun none => (by cases none), ?_⟩
      rintro behind found
      obtain rfl := Option.some.inj found
      rw [(here.mp ends).2.1]
      exact ⟨rfl, ends⟩
    · rw [if_neg (separator.not.mpr ends)] at found
      obtain ⟨rfl, rfl⟩ := Prod.mk.inj found
      have none : isSeparator cmd front.length = false := by simpa using ends
      have whole' : cmd = (front ++ [c]) ++ rest := by simp [whole]
      obtain ⟨before, last, next⟩ := ih whole' (stands.next whole none) rfl
      have shift : ∀ k, (front ++ [c]).length + k = front.length + (k + 1) := by
        intro k
        simp
        omega
      refine ⟨?_, fun none => congrArg _ (last none), ?_⟩
      · intro k below
        cases k with
        | zero => exact none
        | succ k =>
          rw [← shift]
          exact before k (Nat.lt_of_succ_lt_succ below)
      · intro behind found
        obtain ⟨split, separator⟩ := next behind found
        refine ⟨congrArg _ split, ?_⟩
        rw [List.length_cons, ← shift]
        exact separator

theorem tokensFrom_eq {cmd front str : CString} {prev : UInt8} (whole : cmd = front ++ str)
    (stands : Stands cmd front true false prev) :
    tokensFrom prev str = splitFrom (isSeparator cmd) front.length [] str := by
  induction size : str.length using Nat.strong_induction_on generalizing front str prev with
  | _ size ih =>
    by_cases empty : str = []
    · rw [tokensFrom, if_pos empty, empty]
      rfl
    · rw [tokensFrom, if_neg empty]
      split
      · rename_i token found
        obtain ⟨before, last, _⟩ := findSeparator_spec whole stands found
        have parts := splitFrom_part [] [] before
        rw [List.append_nil, ← last rfl] at parts
        rw [parts, List.nil_append, splitFrom, if_neg empty, last rfl]
      · rename_i token behind found
        obtain ⟨before, _, next⟩ := findSeparator_spec whole stands found
        obtain ⟨split, separator⟩ := next behind rfl
        have place : front.length + token.length = (front ++ token).length := by simp
        have whole' : cmd = (front ++ token) ++ semicolon :: behind := by simp [whole, split]
        rw [place] at separator
        have later := @ih behind.length (by rw [← size, split]; simp; omega)
          (front ++ token ++ [semicolon]) behind 0 (by simp [whole'])
          (Stands.separator whole' separator) rfl
        have behind' : (front ++ token ++ [semicolon]).length = (front ++ token).length + 1 :=
          List.length_append
        rw [later, split, splitFrom_part [] _ before, place, splitFrom, if_pos separator, behind',
          List.nil_append]

theorem findSeparator_before {c : UInt8} (unquoted : c ≠ quote) (inquotes : Bool)
    (prev prev' : UInt8) (rest : List UInt8) :
    findSeparator true inquotes prev (c :: rest) =
      findSeparator true inquotes prev' (c :: rest) := by
  rw [findSeparator, findSeparator]
  simp [unquoted]

theorem tokensFrom_commands {before : UInt8} (guarded : cmd.head? ≠ some quote ∨ before ≠ backslash)
    :
    tokensFrom before cmd = commands cmd := by
  have from_ : ∀ prev, prev ≠ backslash → tokensFrom prev cmd = commands cmd := by
    intro prev plain
    refine @tokensFrom_eq cmd [] cmd prev rfl ⟨rfl, rfl, ?_⟩
    exact iff_of_false plain Bool.false_ne_true
  rcases guarded with unquoted | plain
  · cases cmd with
    | nil =>
      rw [tokensFrom, if_pos rfl]
      rfl
    | cons c rest =>
      have unquoted : c ≠ quote := by simpa using unquoted
      rw [← from_ 0 (by decide), tokensFrom, tokensFrom,
        findSeparator_before unquoted _ before 0]
  · exact from_ before plain

/-- Where a string starts with a quote, the byte before it decides if it is one. -/
example : tokensFrom 0 [0x27, 0x3b, 0x61] = [[0x27, 0x3b, 0x61]] ∧
    tokensFrom backslash [0x27, 0x3b, 0x61] = [[0x27], [0x61]] := by
  simp [tokensFrom, findSeparator, backslash, quote, semicolon]

theorem parseTurns_argv (nargs : Nat) {argv argv' : Argv} (before rest : List UInt8) (turns : Nat)
    (same : ∀ i < nargs, argv i = argv' i) :
    (parseTurns nargs argv before rest turns).nargs =
        (parseTurns nargs argv' before rest turns).nargs ∧
      (parseTurns nargs argv before rest turns).line =
        (parseTurns nargs argv' before rest turns).line ∧
      ∀ i < (parseTurns nargs argv' before rest turns).nargs,
        (parseTurns nargs argv before rest turns).argv i =
          (parseTurns nargs argv' before rest turns).argv i := by
  have written : ∀ {argv argv' : Argv} {n : Nat} (pointer : Option Nat),
      (∀ i < n, argv i = argv' i) → ∀ i < n + 1, argv.set n pointer i = argv'.set n pointer i := by
    intro argv argv' n pointer same i below
    by_cases here : i = n
    · rw [here, Argv.set_same, Argv.set_same]
    · rw [Argv.set_other _ _ here, Argv.set_other _ _ here]
      exact same i (by omega)
  induction turns generalizing nargs argv argv' before rest with
  | zero => exact ⟨rfl, rfl, same⟩
  | succ turns ih =>
    rw [parseTurns, parseTurns]
    cases rest.dropWhile isblank with
    | nil => exact ⟨rfl, rfl, fun i below => written none same i (Nat.lt_succ_of_lt below)⟩
    | cons c rest =>
      dsimp only
      cases (c :: rest).dropWhile fun c => !isblank c with
      | nil =>
        refine ⟨rfl, rfl, fun i below => ?_⟩
        exact written none (written _ same) i (Nat.lt_succ_of_lt below)
      | cons _ rest => exact ih _ _ _ (written _ same)

theorem parseLine_argv (maxargs : Nat) (line : CString) (argv argv' : Argv) :
    (parseLine maxargs line argv).nargs = (parseLine maxargs line argv').nargs ∧
      arguments (parseLine maxargs line argv) = arguments (parseLine maxargs line argv') := by
  obtain ⟨count, bytes, pointers⟩ := @parseTurns_argv 0 argv argv' [] line maxargs
    fun i below => absurd below (Nat.not_lt_zero i)
  rw [← parseLine, ← parseLine] at count bytes pointers
  refine ⟨count, ?_⟩
  rw [arguments, arguments, count, bytes]
  refine List.map_congr_left fun k member => ?_
  rw [pointers k (List.mem_range.mp member)]

theorem runTokens_argv {σ : Type} (m : Machine σ) (cbsize maxargs flag : Nat) (run : Run σ)
    (argv : Argv) (tokens : List CString) :
    runTokens m cbsize maxargs flag { run with argv := argv } tokens =
      runTokens m cbsize maxargs flag run tokens := by
  induction tokens generalizing run argv with
  | nil => rfl
  | cons token tokens ih =>
    rw [runTokens, runTokens, runToken, runToken]
    dsimp only
    cases processMacros cbsize (m.getenv run.machine) token with
    | none => rfl
    | some finaltoken =>
      obtain ⟨count, same⟩ :=
        parseLine_argv maxargs (finaltoken.takeWhile (· ≠ 0)) argv run.argv
      simp only [Option.map_some, Option.bind_some, count, same]
      split
      · exact ih { run with rc := -1, argv := _ } _
      dsimp only
      split
      · exact ih ⟨_, _, _, _⟩ _
      · rfl

/-- A string that is short enough runs its commands, whatever is before the buffer and in the array,
if it does not start with a quote behind a backslash. -/
theorem runCommand_commands {σ : Type} (m : Machine σ) (cbsize maxargs flag : Nat)
    {before : UInt8} (argv : Argv) {cmd : CString} (machine : σ) (short : cmd.length < cbsize)
    (guarded : cmd.head? ≠ some quote ∨ before ≠ backslash) :
    runCommand m cbsize maxargs flag before argv (some cmd) machine =
      if cmd = [] then some (-1, m.clearCtrlc machine)
      else runTokens m cbsize maxargs flag ⟨fun _ => none, 0, 1, m.clearCtrlc machine⟩
        (commands cmd) := by
  have array := runTokens_argv m cbsize maxargs flag
    ⟨fun _ => none, 0, 1, m.clearCtrlc machine⟩ argv (commands cmd)
  rw [runCommand, tokensFrom_commands guarded, if_neg (Nat.not_le_of_gt short), array]

def notes : Machine (List (List CString)) where
  clearCtrlc := id
  hadCtrlc _ := false
  puts _ := id
  getenv _ _ := none
  cmdProcess _ arguments repeatable machine := (machine ++ [arguments], repeatable, false)

/-- A string with an empty command between its semicolons. -/
def emptyCommand : CString := [0x61, 0x3b, 0x3b, 0x62]

/-- It runs `a` and `;b`, and not the parts between its semicolons, `a` and `b`. -/
theorem runCommand_emptyCommand :
    emptyCommand.length < 512 ∧
      (runCommand notes 512 32 0 0 (fun _ => none) (some emptyCommand) []).map Prod.snd =
        some [[[0x61]], [[0x3b, 0x62]]] ∧
      (runTokens notes 512 32 0 ⟨fun _ => none, 0, 1, []⟩
        (splitFrom (isSemicolon emptyCommand) 0 [] emptyCommand)).map Prod.snd =
          some [[[0x61]], [[0x62]]] := by
  refine ⟨by decide, ?_, by decide⟩
  rw [runCommand, tokensFrom_commands (.inr (by decide))]
  decide

/-- A quoted semicolon and an escaped one are part of the command. -/
theorem runCommand_quoted :
    [0x27, 0x3b, 0x27, 0x5c, 0x3b, 0x3b, 0x62].length < 512 ∧
      (some quote ≠ some quote ∨ (0 : UInt8) ≠ backslash) ∧
      runCommand notes 512 32 0 0 (fun _ => none)
          (some [0x27, 0x3b, 0x27, 0x5c, 0x3b, 0x3b, 0x62]) [] =
        some (1, [[[0x3b, 0x3b]], [[0x62]]]) := by
  refine ⟨by decide, .inr (by decide), ?_⟩
  rw [runCommand_commands notes 512 32 0 (fun _ => none) [] (by decide) (.inr (by decide))]
  decide

end HrppBoot.Cli
