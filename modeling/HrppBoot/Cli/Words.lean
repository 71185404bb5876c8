import HrppBoot.Cli.Simple
import Mathlib.Data.List.TakeWhile

/-!
# The words of a line

`cli_simple_parse_line` finds the words of a line, as many as there are arguments for, and ends each
with a NUL. The pointer behind them is set to `NULL` unless the last argument was used up and ended
by a blank: then the loop is left at its bound.
-/

namespace HrppBoot.Cli

/-! ## Words -/

/-- Where the words of a line start, the first character of which is at `i`: at the characters that
are no blanks and stand behind a blank or in front. -/
def wordStarts (afterBlank : Bool) (i : Nat) : List UInt8 → List Nat
  | [] => []
  | c :: rest =>
    if isblank c then wordStarts true (i + 1) rest
    else if afterBlank then i :: wordStarts false (i + 1) rest
    else wordStarts false (i + 1) rest

def wordAt (line : CString) (s : Nat) : CString := (line.drop s).takeWhile fun c => !isblank c

def stringAt (buffer : List UInt8) (s : Nat) : CString := (buffer.drop s).takeWhile (· ≠ 0)

theorem wordStarts_blanks {blanks : List UInt8} (all : ∀ c ∈ blanks, isblank c = true) (i : Nat)
    (rest : List UInt8) :
    wordStarts true i (blanks ++ rest) = wordStarts true (i + blanks.length) rest := by
  induction blanks generalizing i with
  | nil => rfl
  | cons c blanks ih =>
    rw [List.cons_append, wordStarts, if_pos (all c List.mem_cons_self),
      ih (fun d member => all d (List.mem_cons_of_mem _ member)), List.length_cons]
    congr 1
    omega

theorem wordStarts_inside {word : List UInt8} (all : ∀ c ∈ word, isblank c = false) (i : Nat)
    (rest : List UInt8) :
    wordStarts false i (word ++ rest) = wordStarts false (i + word.length) rest := by
  induction word generalizing i with
  | nil => rfl
  | cons c word ih =>
    have notBlank : ¬isblank c = true := by simp [all c List.mem_cons_self]
    rw [List.cons_append, wordStarts, if_neg notBlank, if_neg Bool.false_ne_true,
      ih (fun d member => all d (List.mem_cons_of_mem _ member)), List.length_cons]
    congr 1
    omega

theorem wordStarts_last {c : UInt8} {word : List UInt8}
    (all : ∀ d ∈ c :: word, isblank d = false) (i : Nat) :
    wordStarts true i (c :: word) = [i] := by
  have notBlank : ¬isblank c = true := by simp [all c List.mem_cons_self]
  have inside := @wordStarts_inside word (fun d member => all d (List.mem_cons_of_mem _ member))
    (i + 1) []
  rw [List.append_nil] at inside
  rw [wordStarts, if_neg notBlank, if_pos rfl, inside]
  rfl

theorem wordStarts_word {c b : UInt8} {word : List UInt8}
    (all : ∀ d ∈ c :: word, isblank d = false) (blank : isblank b = true) (i : Nat)
    (rest : List UInt8) :
    wordStarts true i (c :: word ++ b :: rest) =
      i :: wordStarts true (i + (c :: word).length + 1) rest := by
  have notBlank : ¬isblank c = true := by simp [all c List.mem_cons_self]
  rw [List.cons_append, wordStarts, if_neg notBlank, if_pos rfl,
    wordStarts_inside fun d member => all d (List.mem_cons_of_mem _ member), wordStarts,
    if_pos blank, List.length_cons]
  congr 2
  omega

theorem stringAt_of_prefix {buffer before word : List UInt8} (chars : ∀ c ∈ word, c ≠ 0)
    (kept : before ++ word ++ [0] <+: buffer) : stringAt buffer before.length = word := by
  obtain ⟨behind, rfl⟩ := kept
  rw [stringAt, List.append_assoc, List.append_assoc, List.drop_left,
    List.takeWhile_append_of_pos (by simpa using chars)]
  simp

theorem wordStarts_length (afterBlank : Bool) (i j : Nat) (line : List UInt8) :
    (wordStarts afterBlank i line).length = (wordStarts afterBlank j line).length := by
  induction line generalizing afterBlank i j with
  | nil => rfl
  | cons c line ih =>
    rw [wordStarts, wordStarts]
    split
    · exact ih _ _ _
    split
    · rw [List.length_cons, List.length_cons, ih _ (i + 1) (j + 1)]
    · exact ih _ _ _

theorem le_of_mem_wordStarts {afterBlank : Bool} {i s : Nat} {line : List UInt8}
    (member : s ∈ wordStarts afterBlank i line) : i ≤ s := by
  induction line generalizing afterBlank i with
  | nil => exact absurd member List.not_mem_nil
  | cons c line ih =>
    rw [wordStarts] at member
    split at member
    · exact Nat.le_of_succ_le (ih member)
    split at member
    · rcases List.mem_cons.mp member with rfl | member
      · exact Nat.le_refl _
      · exact Nat.le_of_succ_le (ih member)
    · exact Nat.le_of_succ_le (ih member)

/-- A line is blank, or ends with its first word, or goes on behind a blank. -/
inductive LineShape : List UInt8 → Prop where
  | blank {blanks : List UInt8} (blank : ∀ c ∈ blanks, isblank c = true) : LineShape blanks
  | last {blanks word : List UInt8} {c : UInt8} (blank : ∀ c ∈ blanks, isblank c = true)
    (chars : ∀ d ∈ c :: word, isblank d = false) : LineShape (blanks ++ c :: word)
  | word {blanks word rest : List UInt8} {c b : UInt8} (blank : ∀ c ∈ blanks, isblank c = true)
    (chars : ∀ d ∈ c :: word, isblank d = false) (ends : isblank b = true) :
    LineShape (blanks ++ (c :: word ++ b :: rest))

/-- Every line has one of these shapes. -/
theorem lineShape (line : List UInt8) : LineShape line := by
  have blank : ∀ c ∈ line.takeWhile isblank, isblank c = true :=
    List.all_eq_true.mp List.all_takeWhile
  have whole := @List.takeWhile_append_dropWhile _ isblank line
  cases tail : line.dropWhile isblank with
  | nil =>
    rw [tail, List.append_nil] at whole
    rw [← whole]
    exact .blank blank
  | cons c rest =>
    have stops : isblank c = false := by
      simpa [tail] using List.head?_dropWhile_not isblank line
    have chars : ∀ d ∈ (c :: rest).takeWhile (fun d => !isblank d), isblank d = false := by
      intro d member
      simpa using List.all_eq_true.mp List.all_takeWhile d member
    have split := @List.takeWhile_append_dropWhile _ (fun d => !isblank d) (c :: rest)
    have first : (c :: rest).takeWhile (fun d => !isblank d) =
        c :: rest.takeWhile fun d => !isblank d := by simp [stops]
    rw [first] at chars split
    rw [← whole, tail]
    cases behind : (c :: rest).dropWhile (fun d => !isblank d) with
    | nil =>
      rw [behind, List.append_nil] at split
      rw [← split]
      exact .last blank chars
    | cons b more =>
      have ends : isblank b = true := by
        simpa [behind] using List.head?_dropWhile_not (fun d => !isblank d) (c :: rest)
      rw [behind] at split
      rw [← split]
      exact .word blank chars ends

/-! ## The loop -/

theorem parseTurns_blank {blanks : List UInt8} (blank : ∀ c ∈ blanks, isblank c = true)
    (nargs : Nat) (argv : Argv) (before : List UInt8) (turns : Nat) :
    parseTurns nargs argv before blanks (turns + 1) =
      ⟨nargs, argv.set nargs none, before ++ blanks⟩ := by
  have all : blanks.takeWhile isblank = blanks := List.takeWhile_eq_self_iff.mpr blank
  have none : blanks.dropWhile isblank = [] := List.dropWhile_eq_nil_iff.mpr blank
  rw [parseTurns]
  simp only [all, none]

theorem scan_blanks {blanks rest : List UInt8} {c : UInt8}
    (blank : ∀ c ∈ blanks, isblank c = true) (stops : isblank c = false) :
    (blanks ++ c :: rest).takeWhile isblank = blanks ∧
      (blanks ++ c :: rest).dropWhile isblank = c :: rest := by
  rw [List.takeWhile_append_of_pos blank, List.dropWhile_append_of_pos blank]
  simp [stops]

theorem parseTurns_last {blanks word : List UInt8} {c : UInt8}
    (blank : ∀ c ∈ blanks, isblank c = true) (chars : ∀ d ∈ c :: word, isblank d = false)
    (nargs : Nat) (argv : Argv) (before : List UInt8) (turns : Nat) :
    parseTurns nargs argv before (blanks ++ c :: word) (turns + 1) =
      ⟨nargs + 1, (argv.set nargs (some (before ++ blanks).length)).set (nargs + 1) none,
        before ++ blanks ++ c :: word⟩ := by
  obtain ⟨taken, left⟩ := @scan_blanks blanks word c blank (chars c List.mem_cons_self)
  have all : (c :: word).takeWhile (fun d => !isblank d) = c :: word :=
    List.takeWhile_eq_self_iff.mpr fun d member => by simp [chars d member]
  have none : (c :: word).dropWhile (fun d => !isblank d) = [] :=
    List.dropWhile_eq_nil_iff.mpr fun d member => by simp [chars d member]
  rw [parseTurns]
  simp only [taken, left, all, none]

theorem parseTurns_word {blanks word rest : List UInt8} {c b : UInt8}
    (blank : ∀ c ∈ blanks, isblank c = true) (chars : ∀ d ∈ c :: word, isblank d = false)
    (ends : isblank b = true) (nargs : Nat) (argv : Argv) (before : List UInt8) (turns : Nat) :
    parseTurns nargs argv before (blanks ++ (c :: word ++ b :: rest)) (turns + 1) =
      parseTurns (nargs + 1) (argv.set nargs (some (before ++ blanks).length))
        (before ++ blanks ++ c :: word ++ [0]) rest turns := by
  obtain ⟨taken, left⟩ :=
    @scan_blanks blanks (word ++ b :: rest) c blank (chars c List.mem_cons_self)
  have word' : ∀ d ∈ c :: word, (!isblank d) = true := fun d member => by simp [chars d member]
  have all : (c :: (word ++ b :: rest)).takeWhile (fun d => !isblank d) = c :: word := by
    rw [← List.cons_append, List.takeWhile_append_of_pos word']
    simp [ends]
  have more : (c :: (word ++ b :: rest)).dropWhile (fun d => !isblank d) = b :: rest := by
    rw [← List.cons_append, List.dropWhile_append_of_pos word']
    simp [ends]
  rw [List.cons_append, parseTurns]
  simp only [taken, left, all, more]

/-- The pointer behind the arguments is written: there are fewer words than turns, or as many, and
the last one ends the line. -/
def Terminated (turns : Nat) (rest : List UInt8) : Prop :=
  0 < turns ∧ ((wordStarts true 0 rest).length < turns ∨
    (wordStarts true 0 rest).length = turns ∧ ∀ c ∈ rest.getLast?, isblank c = false)

/-- What the loop leaves, for the turns that are left. -/
structure ParsedFrom (nargs : Nat) (argv : Argv) (before rest : List UInt8) (turns : Nat)
    (r : Parsed) : Prop where
  count : r.nargs = nargs + min (wordStarts true before.length rest).length turns
  kept : ∀ i < nargs, r.argv i = argv i
  line : before <+: r.line
  words : ∀ k s, k < turns → (wordStarts true before.length rest)[k]? = some s →
    r.argv (nargs + k) = some s ∧ stringAt (r.line ++ [0]) s = wordAt (before ++ rest) s
  null : Terminated turns rest → r.argv r.nargs = none
  left : ¬Terminated turns rest → r.argv r.nargs = argv r.nargs

theorem wordStarts_of_blank {blanks : List UInt8} (blank : ∀ c ∈ blanks, isblank c = true)
    (i : Nat) : wordStarts true i blanks = [] := by
  simpa [wordStarts] using @wordStarts_blanks blanks blank i []

theorem wordAt_word {before word behind : List UInt8} (chars : ∀ c ∈ word, isblank c = false)
    (ends : ∀ b ∈ behind.head?, isblank b = true) :
    wordAt (before ++ (word ++ behind)) before.length = word := by
  have word' : ∀ d ∈ word, (!isblank d) = true := fun d member => by simp [chars d member]
  rw [wordAt, List.drop_left, List.takeWhile_append_of_pos word']
  cases behind with
  | nil => exact List.append_nil _
  | cons b behind => simp [ends b rfl]

theorem wordAt_behind {before rest : List UInt8} {s : Nat} (behind : before.length ≤ s) :
    wordAt (before ++ rest) s = wordAt rest (s - before.length) := by
  rw [wordAt, wordAt, List.drop_append, List.drop_eq_nil_of_le behind, List.nil_append]

theorem last_blank {rest : List UInt8} (none : (wordStarts true 0 rest).length = 0) :
    ∀ c ∈ rest.getLast?, isblank c = true := by
  intro c last
  cases lineShape rest with
  | blank blank => exact blank c (List.mem_of_getLast? last)
  | last blank chars => rw [wordStarts_blanks blank, wordStarts_last chars] at none; cases none
  | word blank chars ends =>
    rw [wordStarts_blanks blank, wordStarts_word chars ends] at none
    cases none

section Word

variable {blanks word rest : List UInt8} {c b : UInt8} (blank : ∀ c ∈ blanks, isblank c = true)
  (chars : ∀ d ∈ c :: word, isblank d = false)
include blank chars

theorem wordStarts_shape_last (i : Nat) :
    wordStarts true i (blanks ++ c :: word) = [i + blanks.length] := by
  rw [wordStarts_blanks blank, wordStarts_last chars]

theorem wordStarts_shape_word (ends : isblank b = true) (i : Nat) :
    wordStarts true i (blanks ++ (c :: word ++ b :: rest)) =
      (i + blanks.length) :: wordStarts true (i + blanks.length + (c :: word).length + 1) rest := by
  rw [wordStarts_blanks blank, wordStarts_word chars ends]

theorem terminated_last (turns : Nat) : Terminated (turns + 1) (blanks ++ c :: word) := by
  refine ⟨Nat.succ_pos _, ?_⟩
  rw [wordStarts_shape_last blank chars]
  rcases Nat.eq_zero_or_pos turns with rfl | more
  · refine .inr ⟨rfl, fun d last => ?_⟩
    rw [List.getLast?_append_cons] at last
    exact chars d (List.mem_of_getLast? last)
  · exact .inl (by simp; omega)

theorem terminated_word (ends : isblank b = true) (turns : Nat) :
    Terminated (turns + 1) (blanks ++ (c :: word ++ b :: rest)) ↔ Terminated turns rest := by
  have count : (wordStarts true 0 (blanks ++ (c :: word ++ b :: rest))).length =
      (wordStarts true 0 rest).length + 1 := by
    rw [wordStarts_shape_word blank chars ends, List.length_cons]
    congr 1
    exact wordStarts_length _ _ _ _
  have last : (blanks ++ (c :: word ++ b :: rest)).getLast? = (b :: rest).getLast? := by
    rw [List.getLast?_append_of_ne_nil _ (by simp), List.getLast?_append_of_ne_nil _ (by simp)]
  rw [Terminated, Terminated, count, last]
  cases rest with
  | nil => simpa [wordStarts, ends] using fun more => Or.inl more
  | cons d rest =>
    rw [List.getLast?_cons_cons]
    constructor
    · rintro ⟨_, fewer | ⟨same, nonblank⟩⟩
      · exact ⟨by omega, .inl (by omega)⟩
      · refine ⟨?_, .inr ⟨by omega, nonblank⟩⟩
        by_contra zero
        have found : (d :: rest).getLast? = some ((d :: rest).getLast (by simp)) :=
          List.getLast?_eq_some_getLast _
        have blank' := last_blank (by omega) _ found
        rw [nonblank _ found] at blank'
        cases blank'
    · rintro ⟨_, fewer | ⟨same, nonblank⟩⟩
      · exact ⟨by omega, .inl (by omega)⟩
      · exact ⟨by omega, .inr ⟨by omega, nonblank⟩⟩

end Word

theorem parsedFrom_blank (nargs : Nat) (argv : Argv) (before : List UInt8) {blanks : List UInt8}
    (blank : ∀ c ∈ blanks, isblank c = true) (turns : Nat) :
    ParsedFrom nargs argv before blanks (turns + 1)
      (parseTurns nargs argv before blanks (turns + 1)) := by
  have none := wordStarts_of_blank blank
  rw [parseTurns_blank blank]
  refine ⟨by simp [none], ?_, List.prefix_append _ _, ?_, fun _ => Argv.set_same _ _ _, ?_⟩
  · intro i below
    exact Argv.set_other _ _ (by omega)
  · intro k s _ found
    simp [none] at found
  · intro other
    exact absurd ⟨Nat.succ_pos _, .inl (by simp [none])⟩ other

theorem parsedFrom_last (nargs : Nat) (argv : Argv) (before : List UInt8)
    {blanks word : List UInt8} {c : UInt8} (blank : ∀ c ∈ blanks, isblank c = true)
    (chars : ∀ d ∈ c :: word, isblank d = false) (nonzero : ∀ d ∈ c :: word, d ≠ 0)
    (turns : Nat) :
    ParsedFrom nargs argv before (blanks ++ c :: word) (turns + 1)
      (parseTurns nargs argv before (blanks ++ c :: word) (turns + 1)) := by
  have single := wordStarts_shape_last blank chars before.length
  have start : before.length + blanks.length = (before ++ blanks).length := by simp
  rw [parseTurns_last blank chars]
  refine ⟨by simp [single], ?_, ?_, ?_, fun _ => Argv.set_same _ _ _, ?_⟩
  · intro i below
    dsimp only
    rw [Argv.set_other _ _ (by omega), Argv.set_other _ _ (by omega)]
  · rw [List.append_assoc]
    exact List.prefix_append _ _
  · intro k s _ found
    rw [single] at found
    cases k with
    | succ k => simp at found
    | zero =>
      obtain rfl : before.length + blanks.length = s := by simpa using found
      have here := @wordAt_word (before ++ blanks) (c :: word) [] chars (by simp)
      rw [List.append_nil, List.append_assoc] at here
      rw [start, stringAt_of_prefix nonzero List.prefix_rfl, here]
      refine ⟨?_, rfl⟩
      dsimp only
      rw [Nat.add_zero, Argv.set_other _ _ (by omega)]
      exact Argv.set_same _ _ _
  · intro other
    exact absurd (terminated_last blank chars turns) other

/-- What the turns leave that start at a word with a blank behind it. -/
theorem parsedFrom_word (nargs : Nat) (argv : Argv) (before : List UInt8)
    {blanks word rest : List UInt8} {c b : UInt8} (blank : ∀ c ∈ blanks, isblank c = true)
    (chars : ∀ d ∈ c :: word, isblank d = false) (ends : isblank b = true)
    (nonzero : ∀ d ∈ c :: word, d ≠ 0) {turns : Nat} {r : Parsed}
    (later : ParsedFrom (nargs + 1) (argv.set nargs (some (before ++ blanks).length))
      (before ++ blanks ++ c :: word ++ [0]) rest turns r) :
    ParsedFrom nargs argv before (blanks ++ (c :: word ++ b :: rest)) (turns + 1) r := by
  have start : before.length + blanks.length = (before ++ blanks).length := by simp
  have size : (before ++ blanks ++ c :: word ++ [0]).length =
      before.length + blanks.length + (c :: word).length + 1 := by
    simp
    omega
  have starts := @wordStarts_shape_word _ _ rest _ _ blank chars ends before.length
  rw [← size] at starts
  have whole : before ++ (blanks ++ (c :: word ++ b :: rest)) =
      (before ++ blanks ++ c :: word ++ [b]) ++ rest := by simp
  refine ⟨?_, ?_, ?_, ?_, ?_, ?_⟩
  · rw [later.count, starts, List.length_cons]
    omega
  · intro i below
    rw [later.kept i (by omega), Argv.set_other _ _ (by omega)]
  · refine List.IsPrefix.trans ?_ later.line
    simp only [List.append_assoc]
    exact List.prefix_append _ _
  · intro k s below found
    rw [starts] at found
    cases k with
    | zero =>
      obtain rfl : before.length + blanks.length = s := by simpa using found
      have here := @wordAt_word (before ++ blanks) (c :: word) (b :: rest) chars
        (by simpa using ends)
      rw [List.append_assoc] at here
      have string := later.line.trans (List.prefix_append _ [0])
      rw [start, stringAt_of_prefix nonzero string, here, Nat.add_zero,
        later.kept nargs (by omega), Argv.set_same]
      exact ⟨rfl, rfl⟩
    | succ k =>
      rw [List.getElem?_cons_succ] at found
      have beyond := le_of_mem_wordStarts (List.mem_of_getElem? found)
      obtain ⟨pointer, string⟩ := later.words k s (by omega) found
      refine ⟨by rw [← pointer]; congr 1; omega, ?_⟩
      have behind : (before ++ blanks ++ c :: word ++ [b]).length ≤ s := by
        simp at beyond ⊢
        omega
      rw [string, whole, wordAt_behind beyond, wordAt_behind behind]
      congr 1
      simp
  · intro terminated
    exact later.null ((terminated_word blank chars ends turns).mp terminated)
  · intro other
    rw [later.left fun terminated =>
      other ((terminated_word blank chars ends turns).mpr terminated)]
    exact Argv.set_other _ _ (by rw [later.count]; omega)

theorem parseTurns_spec (nargs : Nat) (argv : Argv) (before : List UInt8) {rest : List UInt8}
    (nonzero : ∀ c ∈ rest, c ≠ 0) (turns : Nat) :
    ParsedFrom nargs argv before rest turns (parseTurns nargs argv before rest turns) := by
  induction turns generalizing nargs argv before rest with
  | zero =>
    exact ⟨by simp [parseTurns], fun _ _ => rfl, List.prefix_append _ _,
      fun k s none => absurd none (Nat.not_lt_zero k),
      fun terminated => absurd terminated.1 (Nat.lt_irrefl 0), fun _ => rfl⟩
  | succ turns ih =>
    cases lineShape rest with
    | blank blank => exact parsedFrom_blank nargs argv before blank turns
    | last blank chars =>
      have word := fun d member => nonzero d (List.mem_append_right _ member)
      exact parsedFrom_last nargs argv before blank chars word turns
    | word blank chars ends =>
      rw [parseTurns_word blank chars ends]
      refine parsedFrom_word nargs argv before blank chars ends (fun d member => ?_) (ih _ _ _ ?_)
      · exact nonzero d (List.mem_append_right _ (List.mem_append_left _ member))
      · exact fun d member => nonzero d (by simp [member])

/-! ## The arguments -/

/-- The arguments are the first words, each a string of its own, with `NULL` behind them. -/
structure Arguments (maxargs : Nat) (line : CString) (r : Parsed) : Prop where
  count : r.nargs = min (wordStarts true 0 line).length maxargs
  words : ∀ k < r.nargs, ∃ s, (wordStarts true 0 line)[k]? = some s ∧ r.argv k = some s ∧
    stringAt (r.line ++ [0]) s = wordAt line s
  /-- Behind them is `NULL`. -/
  null : r.argv r.nargs = none

/-- The arguments are the first words of the line with `NULL` behind them if and only if there are
fewer words than the maximum, or as many and the line ends with the last one, or the array had a
`NULL` behind its last argument before. -/
theorem parseLine_arguments (maxargs : Nat) (line : CString) (nonzero : ∀ c ∈ line, c ≠ 0)
    (argv : Argv) :
    Arguments maxargs line (parseLine maxargs line argv) ↔
      (wordStarts true 0 line).length < maxargs ∨
        0 < maxargs ∧ (wordStarts true 0 line).length = maxargs ∧
          (∀ c ∈ line.getLast?, isblank c = false) ∨
        argv maxargs = none := by
  have spec := parseTurns_spec 0 argv [] nonzero maxargs
  have count : (parseLine maxargs line argv).nargs = min (wordStarts true 0 line).length maxargs :=
    by rw [parseLine, spec.count, Nat.zero_add]; rfl
  have words : ∀ k < (parseLine maxargs line argv).nargs, ∃ s,
      (wordStarts true 0 line)[k]? = some s ∧ (parseLine maxargs line argv).argv k = some s ∧
        stringAt ((parseLine maxargs line argv).line ++ [0]) s = wordAt line s := by
    intro k below
    rw [count] at below
    have found := List.getElem?_eq_getElem (show k < (wordStarts true 0 line).length by omega)
    have word := spec.words k _ (by omega) found
    rw [Nat.zero_add] at word
    exact ⟨_, found, word⟩
  constructor
  · rintro ⟨_, _, null⟩
    by_cases terminated : Terminated maxargs line
    · rcases terminated with ⟨positive, fewer | ⟨same, last⟩⟩
      · exact .inl fewer
      · exact .inr (.inl ⟨positive, same, last⟩)
    · by_cases fewer : (wordStarts true 0 line).length < maxargs
      · exact .inl fewer
      · refine .inr (.inr ?_)
        rw [count, Nat.min_eq_right (by omega)] at null
        have left := spec.left terminated
        rw [← parseLine, count, Nat.min_eq_right (by omega)] at left
        rw [← left, null]
  · intro condition
    refine ⟨count, words, ?_⟩
    by_cases terminated : Terminated maxargs line
    · exact spec.null terminated
    · have left := spec.left terminated
      rw [← parseLine] at left
      rw [left, count]
      rcases condition with fewer | ⟨positive, same, last⟩ | empty
      · exact absurd ⟨by omega, .inl fewer⟩ terminated
      · exact absurd ⟨positive, .inr ⟨same, last⟩⟩ terminated
      · by_cases fewer : (wordStarts true 0 line).length < maxargs
        · exact absurd ⟨by omega, .inl fewer⟩ terminated
        · rw [Nat.min_eq_right (by omega), empty]

/-- A line of 32 words with a blank behind the last. -/
def fullLine : CString := (List.replicate 32 [0x61, 0x20]).flatten

theorem parseLine_fullLine (argv : Argv) (pointer : Nat) (before : argv 32 = some pointer) :
    (∀ c ∈ fullLine, c ≠ 0) ∧ (parseLine 32 fullLine argv).nargs = 32 ∧
      (parseLine 32 fullLine argv).argv 32 = some pointer := by
  have nonzero : ∀ c ∈ fullLine, c ≠ 0 := by
    simpa using (show (fullLine.all fun c => c != 0) = true by decide)
  have many : (wordStarts true 0 fullLine).length = 32 := by decide
  have spec := parseTurns_spec 0 argv [] nonzero 32
  have count : (parseLine 32 fullLine argv).nargs = 32 := by
    rw [parseLine, spec.count]
    exact congrArg (fun n => 0 + min n 32) many
  have left := spec.left <| by
    rintro ⟨_, fewer | ⟨_, nonblank⟩⟩
    · exact absurd (many ▸ fewer) (Nat.lt_irrefl 32)
    · exact absurd (nonblank 0x20 (by decide)) (by decide)
  rw [← parseLine, count, before] at left
  exact ⟨nonzero, count, left⟩

/-- The 32 words of a line are not the arguments, whatever is behind them in the array. -/
theorem fullLine_not_arguments :
    (∀ c ∈ fullLine, c ≠ 0) ∧ ¬Arguments 32 fullLine (parseLine 32 fullLine fun _ => some 0) := by
  have ⟨nonzero, count, left⟩ := parseLine_fullLine (fun _ => some 0) 0 rfl
  refine ⟨nonzero, fun arguments => ?_⟩
  have null := arguments.null
  rw [count, left] at null
  cases null

/-- Two words of three at most, with blanks around them. -/
theorem parseLine_two_words :
    (∀ c ∈ [0x20, 0x61, 0x62, 0x09, 0x63, 0x20], c ≠ (0 : UInt8)) ∧
      Arguments 3 [0x20, 0x61, 0x62, 0x09, 0x63, 0x20]
        (parseLine 3 [0x20, 0x61, 0x62, 0x09, 0x63, 0x20] fun _ => some 0) :=
  ⟨by simp, (parseLine_arguments 3 _ (by simp) _).mpr (.inl (by decide))⟩

end HrppBoot.Cli
