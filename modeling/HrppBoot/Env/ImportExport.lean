import HrppBoot.Env.HashTable

/-!
# Linear form of the environment

`hexport_r` writes the entries of a table as `name=value` strings with a separator behind each;
`himport_r` parses such a text into a table. The exporter computes the length of its output in a
first pass and writes it in a second one; where the two disagree the output overruns the buffer.
The importer works on a copy of exactly `size` bytes; where it would read a byte behind them it
has no result. Its unescaped values are written behind the read position, over bytes that are not
read again, so the parser returns them instead of writing them back.
-/

namespace HrppBoot.Env

/-- `'\\'` -/
def backslash : UInt8 := 0x5c

/-- `'='` -/
def equalsSign : UInt8 := 0x3d

/-- `'#'` -/
def numberSign : UInt8 := 0x23

/-- `'\n'` -/
def lineFeed : UInt8 := 0x0a

/-- `'\r'` -/
def carriageReturn : UInt8 := 0x0d

/-! ## Export -/

/-- The entry of a bucket with `used > 0`. -/
def Bucket.entry : Bucket → Option (CString × CString)
  | .live _ key data => some (key, data)
  | _ => none

theorem Bucket.entry_eq_some {bucket : Bucket} {entry : CString × CString} :
    bucket.entry = some entry ↔ ∃ used, bucket = .live used entry.1 entry.2 := by
  cases bucket <;> simp [Bucket.entry, Prod.ext_iff]

/-- The entries of the buckets 1 to `size`, in that order. -/
def tableEntries (htab : HsearchData) : List (CString × CString) :=
  (List.range' 1 htab.size).filterMap fun i => (htab.table i).entry

/-- `strcmp(a, b) <= 0`, with unsigned characters. -/
def strcmpLe : CString → CString → Bool
  | [], _ => true
  | _ :: _, [] => false
  | a :: as, b :: bs => if a < b then true else if b < a then false else strcmpLe as bs

/-- The entries that pass the filter, sorted by `cmpkey`. -/
def exportList (htab : HsearchData) (selected : CString → CString → Bool) :
    List (CString × CString) :=
  ((tableEntries htab).filter fun entry => selected entry.1 entry.2).mergeSort
    fun left right => strcmpLe left.1 right.1

/-- A character that is written with a backslash before it. -/
def Escaped (sep c : UInt8) : Prop := c = sep ∨ c = backslash

instance (sep c : UInt8) : Decidable (Escaped sep c) := inferInstanceAs (Decidable (_ ∨ _))

/-- Room for one entry, as pass 1 computes it. -/
def entryRoom (sep : UInt8) (entry : CString × CString) : Nat :=
  entry.1.length + 2 +
    (if sep = 0 then entry.2.length
      else entry.2.length + entry.2.countP (fun c => Escaped sep c)) + 2

/-- `totlen` after pass 1. -/
def totlen (sep : UInt8) (list : List (CString × CString)) : Nat :=
  (list.map (entryRoom sep)).sum

/-- A value as pass 2 writes it. -/
def escape (sep : UInt8) (value : CString) : List UInt8 :=
  value.flatMap fun c => if Escaped sep c then [backslash, c] else [c]

/-- An entry as pass 2 writes it. -/
def encodeEntry (sep : UInt8) (entry : CString × CString) : List UInt8 :=
  entry.1 ++ equalsSign :: (escape sep entry.2 ++ [sep])

/-- How `hexport_r` ends. -/
inductive Export where
  | tooSmall
  | overrun
  | text (bytes : List UInt8)
  deriving DecidableEq, Repr

/-- `hexport_r`: `size` is 0 when the buffer is to be as large as pass 1 computes. -/
def hexportR (htab : HsearchData) (sep : UInt8) (selected : CString → CString → Bool) (size : Nat) :
    Export :=
  let list := exportList htab selected
  let totlen := totlen sep list
  if size ≠ 0 ∧ size < totlen + 1 then .tooSmall
  else
    let size := if size ≠ 0 then size else totlen + 1
    let written := list.flatMap (encodeEntry sep) ++ [0]
    if written.length ≤ size then .text (written ++ List.replicate (size - written.length) 0)
    else .overrun

/-! ## Import -/

/-- What the parser finds between two separators. -/
inductive Item where
  | comment
  /-- `name` or `name=`: the variable is deleted. -/
  | delete (name : CString)
  | entry (name value : CString)
  deriving DecidableEq, Repr

def isblank (c : UInt8) : Bool := c = 0x20 ∨ c = 0x09

/-- The value loop: up to a NUL or a separator, which is skipped, with escapes removed. A backslash
before a NUL stands for itself. -/
def parseValue (sep : UInt8) : List UInt8 → Option (CString × List UInt8)
  | [] => none
  | c :: rest =>
    if c = 0 ∨ c = sep then some ([], rest)
    else if c = backslash then
      match rest with
      | [] => none
      | next :: rest' =>
        if next ≠ 0 then (parseValue sep rest').map fun parsed => (next :: parsed.1, parsed.2)
        else (parseValue sep (next :: rest')).map fun parsed => (c :: parsed.1, parsed.2)
    else (parseValue sep rest).map fun parsed => (c :: parsed.1, parsed.2)

/-- A character of a name. -/
def nameChar (sep c : UInt8) : Bool := c ≠ equalsSign ∧ c ≠ 0 ∧ c ≠ sep

/-- What follows a name: the end of a deleted variable, or `=` and a value. -/
def parseAfterName (sep : UInt8) (name : CString) : List UInt8 → Option (Item × List UInt8)
  | [] => none
  | c :: rest =>
    if c = 0 then some (.delete name, rest)
    else match rest with
      | [] => none
      | next :: _ =>
        if next = 0 ∨ c = sep ∨ next = sep then
          some (.delete name, if c = equalsSign then rest.drop 1 else rest)
        else (parseValue sep rest).map fun parsed => (.entry name parsed.1, parsed.2)

/-- One turn of the parser, with the bytes from `dp` on before and after. -/
def parseItem (sep : UInt8) (dp : List UInt8) : Option (Item × List UInt8) :=
  match dp.dropWhile isblank with
  | [] => none
  | c :: tail =>
    if c = numberSign then
      match (c :: tail).dropWhile fun c => c ≠ 0 ∧ c ≠ sep with
      | [] => none
      | _ :: rest => some (.comment, rest)
    else
      parseAfterName sep ((c :: tail).takeWhile (nameChar sep))
        ((c :: tail).dropWhile (nameChar sep))

/-- The names to import; a name is struck out once it has been met. -/
abbrev VarSet := List (Option CString)

/-- `drop_var_from_set`: whether the name is to be processed, and the names left. -/
def dropVarFromSet (name : CString) (vars : VarSet) : Bool × VarSet :=
  if vars.length = 0 then (true, vars)
  else (vars.any (· == some name), vars.map fun var => if var = some name then none else var)

/-- What one item does to the table. -/
inductive Applied where
  | done (htab : HsearchData) (vars : VarSet)
  | einval

/-- Delete or enter what was parsed. Failures of the table functions are only reported. -/
def applyItem (htab : HsearchData) (vars : VarSet) : Item → Option Applied
  | .comment => some (.done htab vars)
  | .delete name =>
    let (process, vars) := dropVarFromSet name vars
    if process then (hdeleteR htab name).map fun after => .done after.2 vars
    else some (.done htab vars)
  | .entry name value =>
    if name = [] then some .einval
    else
      let (process, vars) := dropVarFromSet name vars
      if process then (hsearchEnter htab name value).map fun after => .done after.2 vars
      else some (.done htab vars)

variable {sep : UInt8} {dp rest : List UInt8}

theorem parseValue_end {c : UInt8} (ends : c = 0 ∨ c = sep) (rest : List UInt8) :
    parseValue sep (c :: rest) = some ([], rest) := by
  rw [parseValue.eq_def]
  simp [ends]

theorem parseValue_escaped {next : UInt8} (backslashStays : backslash ≠ sep) (nonzero : next ≠ 0)
    (rest : List UInt8) : parseValue sep (backslash :: next :: rest) =
      (parseValue sep rest).map fun parsed => (next :: parsed.1, parsed.2) := by
  have notNul : backslash ≠ 0 := by decide
  rw [parseValue.eq_def]
  simp [notNul, backslashStays, nonzero]

theorem parseValue_plain {c : UInt8} (nonzero : c ≠ 0) (notSep : c ≠ sep)
    (notBackslash : c ≠ backslash) (rest : List UInt8) : parseValue sep (c :: rest) =
      (parseValue sep rest).map fun parsed => (c :: parsed.1, parsed.2) := by
  rw [parseValue.eq_def]
  simp [nonzero, notSep, notBackslash]

theorem parseValue_shorter {value : List UInt8} (parsed : parseValue sep dp = some (value, rest))
    : rest.length < dp.length := by
  fun_induction parseValue sep dp generalizing value with
  | case1 => cases parsed
  | case2 c tail ends =>
    cases parsed
    simp
  | case3 => cases parsed
  | case4 _ _ _ _ ih | case5 _ _ _ _ ih | case6 _ _ _ _ ih =>
    obtain ⟨inner, parsedInner, same⟩ := Option.map_eq_some_iff.mp parsed
    cases same
    have shorter := ih parsedInner
    simp only [List.length_cons] at shorter ⊢
    omega

theorem parseAfterName_shorter {name : List UInt8} {item : Item}
    (parsed : parseAfterName sep name dp = some (item, rest)) : rest.length < dp.length := by
  unfold parseAfterName at parsed
  split at parsed
  · cases parsed
  · rename_i c tail
    split at parsed
    · cases parsed
      simp
    · split at parsed
      · cases parsed
      · split at parsed
        · cases parsed
          split
          · simp only [List.drop_succ_cons, List.drop_zero, List.length_cons]
            omega
          · simp
        · obtain ⟨inner, parsedInner, same⟩ := Option.map_eq_some_iff.mp parsed
          cases same
          have shorter := parseValue_shorter parsedInner
          simp only [List.length_cons] at shorter ⊢
          omega

theorem parseItem_shorter {item : Item} (parsed : parseItem sep dp = some (item, rest))
    : rest.length < dp.length := by
  have blanks : (dp.dropWhile isblank).length ≤ dp.length :=
    (List.dropWhile_sublist isblank).length_le
  unfold parseItem at parsed
  split at parsed
  · cases parsed
  · rename_i c tail trimmed
    rw [trimmed] at blanks
    split at parsed
    · split at parsed
      · cases parsed
      · rename_i skipped
        cases parsed
        have comment : ((c :: tail).dropWhile fun c => decide (c ≠ 0 ∧ c ≠ sep)).length ≤
            (c :: tail).length := (List.dropWhile_sublist _).length_le
        rw [skipped, List.length_cons] at comment
        omega
    · have shorter := parseAfterName_shorter parsed
      have name : ((c :: tail).dropWhile (nameChar sep)).length ≤ (c :: tail).length :=
        (List.dropWhile_sublist _).length_le
      omega

/-- The loop of `himport_r`: turns until the text, or the part of it before a NUL, is used up. The
flag tells whether the import came to its end. -/
def importLoop (sep : UInt8) (htab : HsearchData) (vars : VarSet) (dp : List UInt8) :
    Option (Bool × HsearchData × VarSet) :=
  match _parsed : parseItem sep dp with
  | none => none
  | some (item, rest) =>
    match applyItem htab vars item with
    | none => none
    | some .einval => some (false, htab, vars)
    | some (.done htab vars) =>
      if rest.head? = none ∨ rest.head? = some 0 then some (true, htab, vars)
      else importLoop sep htab vars rest
termination_by dp.length
decreasing_by exact parseItem_shorter _parsed

/-- The text up to its first NUL with carriage returns before line feeds left out. -/
def dropCrs : List UInt8 → List UInt8
  | [] => []
  | c :: rest =>
    if c = 0 then []
    else if c = carriageReturn ∧ rest.head? = some lineFeed then dropCrs rest
    else c :: dropCrs rest

/-- The working copy after the removal of carriage returns: what follows the text keeps its place,
and the size is reduced. -/
def removeCrs (data : List UInt8) : List UInt8 :=
  let stripped := dropCrs data
  let ignored := (data.takeWhile (· ≠ 0)).length - stripped.length
  (stripped ++ data.drop stripped.length).take (data.length - ignored)

def configEnvMinEntries : Nat := 64

def configEnvMaxEntries : Nat := 512

/-- The number of entries a new table is made for. -/
def importEntries (size : Nat) : Nat :=
  let nent := configEnvMinEntries + size / 8
  if configEnvMaxEntries < nent then configEnvMaxEntries else nent

/-- Variables that were asked for and not met are deleted. -/
def deleteRemaining (htab : HsearchData) : VarSet → Option HsearchData
  | [] => some htab
  | none :: vars => deleteRemaining htab vars
  | some name :: vars => (hdeleteR htab name).bind fun after => deleteRemaining after.2 vars

/-- `himport_r`: its return value and the table. `noclear` is the `H_NOCLEAR` bit. -/
def himportR (table : Option HsearchData) (env : List UInt8) (sep : UInt8) (noclear crlfIsLf : Bool)
    (vars : List CString) : Option (Bool × Option HsearchData) :=
  let table := if noclear then table else none
  match table.orElse fun _ => hcreateR (importEntries env.length) with
  | none => some (false, none)
  | some htab =>
    if env.length = 0 then some (true, some htab)
    else
      let data := if crlfIsLf then removeCrs env else env
      match importLoop sep htab (vars.map some) data with
      | none => none
      | some (false, htab, _) => some (false, some htab)
      | some (true, htab, vars) =>
        (deleteRemaining htab vars).map fun htab => (true, some htab)

end HrppBoot.Env
