import Mathlib.Data.UInt

/-!
# The menu file parser

`parse_pxefile_top` and what it calls. A pointer into a text is what the memory holds from there on;
a NUL byte ends the text, and behind the memory nothing but NUL bytes is read. `undefined` stands
for what follows when the code hands a null pointer or the distance to one to a string function. The
loader that gets an included file is a parameter.
-/

namespace HrppBoot.Pxe

/-- What lies in memory from an address on. -/
abbrev Text := List UInt8

/-- The bytes of a string. -/
def ascii (text : String) : Text := text.toList.map fun c => UInt8.ofNat c.toNat

/-! ## Tokens -/

/-- `enum token_type` (`T_…`) with the value of a string. -/
inductive Token where
  | eol
  | string (val : Text)
  | eof
  | menu
  | title
  | timeout
  | label
  | kernel
  | linux
  | append
  | initrd
  | localboot
  | default
  | prompt
  /-- `T_INCLUDE` -/
  | includes
  | fdt
  | fdtdir
  | ontimeout
  | ipappend
  deriving DecidableEq

def keywords : List (String × Token) :=
  [("menu", .menu), ("title", .title), ("timeout", .timeout), ("default", .default),
    ("prompt", .prompt), ("label", .label), ("kernel", .kernel), ("linux", .linux),
    ("localboot", .localboot), ("append", .append), ("initrd", .initrd), ("include", .includes),
    ("devicetree", .fdt), ("fdt", .fdt), ("devicetreedir", .fdtdir), ("fdtdir", .fdtdir),
    ("ontimeout", .ontimeout), ("ipappend", .ipappend)]

/-- The states of `enum lex_state` that are used. -/
inductive LexState where
  /-- `L_KEYWORD` -/
  | keyword
  /-- `L_SLITERAL` -/
  | sliteral

/-- `'\n'` -/
def newline : UInt8 := 0x0a

def isblank (c : UInt8) : Bool := c = 0x20 ∨ c = 0x09

/-- `isspace`, by `_ctype`. -/
def isspace (c : UInt8) : Bool := (0x09 ≤ c ∧ c ≤ 0x0d) ∨ c = 0x20 ∨ c = 0xa0

/-- `isupper`, by `_ctype`. -/
def isupper (c : UInt8) : Bool := (0x41 ≤ c ∧ c ≤ 0x5a) ∨ (0xc0 ≤ c ∧ c ≤ 0xde ∧ c ≠ 0xd7)

def tolower (c : UInt8) : UInt8 := if isupper c then c + 0x20 else c

/-- A byte belongs to a string that ends at a delimiter. -/
def inString (delim c : UInt8) : Bool := c ≠ 0 ∧ ¬(delim = 0x20 ∧ isspace c ∨ delim = c)

/-- `get_string`: the string and what follows. -/
def getString (delim : UInt8) (lower : Bool) (p : Text) : Text × Text :=
  let val := p.takeWhile (inString delim)
  (if lower then val.map tolower else val, p.dropWhile (inString delim))

def getKeyword (val : Text) : Token :=
  match keywords.find? fun keyword => ascii keyword.1 = val with
  | some keyword => keyword.2
  | none => .string val

/-- A byte is skipped to get to the end of a line. -/
def inLine (c : UInt8) : Bool := c ≠ 0 ∧ c ≠ newline

def eolOrEof (c : Text) : Text := c.dropWhile inLine

/-- The text behind blanks and a comment. -/
def skipBlanks (c : Text) : Text :=
  let c := c.dropWhile isblank
  if c.head? = some 0x23 then eolOrEof c else c

/-- `get_token`: the token and what follows. -/
def getToken (p : Text) (state : LexState) : Token × Text :=
  match skipBlanks p with
  | [] => (.eof, [])
  | c :: rest =>
    if c = newline then (.eol, rest)
    else if c = 0 then (.eof, rest)
    else
      match state with
      | .sliteral =>
        let (val, e) := getString newline false (c :: rest)
        (.string val, e)
      | .keyword =>
        let (val, e) := getString 0x20 true (c :: rest)
        (getKeyword val, e)

/-! ## Literals -/

/-- `parse_sliteral`: the literal, if there is one, and what follows the token. -/
def parseSliteral (c : Text) : Option Text × Text :=
  match getToken c .sliteral with
  | (.string val, rest) => (some val, rest)
  | (_, rest) => (none, rest)

/-- The value of a hexadecimal digit. -/
def digitValue (c : UInt8) : Option UInt32 :=
  if 0x30 ≤ c ∧ c ≤ 0x39 then some (c.toUInt32 - 0x30)
  else if 0x61 ≤ c ∧ c ≤ 0x66 then some (c.toUInt32 - 0x61 + 10)
  else if 0x41 ≤ c ∧ c ≤ 0x46 then some (c.toUInt32 - 0x41 + 10)
  else none

/-- The loop of `simple_strtoul`. -/
def strtoulLoop (base result : UInt32) : Text → UInt32
  | [] => result
  | c :: cp =>
    match digitValue c with
    | none => result
    | some value => if value < base then strtoulLoop base (result * base + value) cp else result

/-- `simple_strtoul` with base 10, in 32 bits: a number that starts with `0x` is hexadecimal. -/
def simpleStrtoul : Text → UInt32
  | 0x30 :: 0x78 :: c :: cp =>
    if (digitValue c).isSome then strtoulLoop 16 0 (c :: cp) else strtoulLoop 10 0 (0x78 :: c :: cp)
  | cp => strtoulLoop 10 0 cp

/-- `simple_strtol` with base 10, as an `int`. -/
def simpleStrtol : Text → Int32
  | 0x2d :: cp => (-simpleStrtoul cp).toInt32
  | cp => (simpleStrtoul cp).toInt32

def parseInteger (c : Text) : Option Int32 × Text :=
  match parseSliteral c with
  | (some val, rest) => (some (simpleStrtol val), rest)
  | (none, rest) => (none, rest)

/-! ## Labels -/

/-- `struct pxe_label` -/
structure Label where
  name : Text
  menu : Option Text := none
  kernel : Option Text := none
  append : Option Text := none
  initrd : Option Text := none
  fdt : Option Text := none
  fdtdir : Option Text := none
  ipappend : Int32 := 0
  localboot : Bool := false
  localbootVal : Int32 := 0
  deriving DecidableEq

/-- `struct pxe_menu` -/
structure Menu where
  title : Option Text := none
  defaultLabel : Option Text := none
  timeout : Int32 := 0
  prompt : Bool := false
  labels : List Label := []
  deriving DecidableEq

def einval : Int := 22

def emlink : Int := 31

/-- What one turn of a loop does. -/
inductive Turn (α : Type) where
  | next (value : α) (rest : Text)
  | done
  | fails (err : Int)
  | undefined
  deriving DecidableEq

/-- What follows the first place where a word occurs. -/
def behindWord (word : Text) : Text → Option Text
  | [] => if word = [] then some [] else none
  | c :: text => if word.isPrefixOf (c :: text) then some ((c :: text).drop word.length)
    else behindWord word text

/-- The `initrd` of a label from its `append` line; `none` where a null pointer is used. -/
def initrdFromAppend (label : Label) : Option Label :=
  if label.initrd.isSome then some label
  else
    match label.append with
    | none => none
    | some append =>
      match behindWord (ascii "initrd=") append with
      | none => some label
      | some s =>
        if 0x20 ∈ s then some { label with initrd := some (s.takeWhile (· ≠ 0x20)) } else none

def parseLabelMenu (c : Text) (label : Label) (cfg : Menu) : Turn (Label × Menu) :=
  match getToken c .keyword with
  | (.default, rest) =>
    .next (label, { cfg with defaultLabel := cfg.defaultLabel <|> some label.name })
      (eolOrEof rest)
  | (.label, rest) =>
    match parseSliteral rest with
    | (some val, rest) => .next ({ label with menu := some val }, cfg) (eolOrEof rest)
    | (none, rest) => .next (label, cfg) (eolOrEof rest)
  | (_, rest) => .next (label, cfg) (eolOrEof rest)

/-- A line that sets a field to a literal. -/
def literalLine (c : Text) (cfg : Menu) (set : Text → Label) : Turn (Label × Menu) :=
  match parseSliteral c with
  | (some val, rest) => .next (set val, cfg) rest
  | (none, _) => .fails (-einval)

/-- A line that sets a field to a number. -/
def integerLine (c : Text) (cfg : Menu) (set : Int32 → Label) : Turn (Label × Menu) :=
  match parseInteger c with
  | (some val, rest) => .next (set val, cfg) rest
  | (none, _) => .fails (-einval)

/-- A line that sets a field to a literal where it has none; else only the keyword is read. -/
def firstLiteralLine (c : Text) (label : Label) (cfg : Menu) (field : Option Text)
    (set : Text → Label) : Turn (Label × Menu) :=
  if field.isSome then .next (label, cfg) c else literalLine c cfg set

/-- The `append` line. -/
def appendLine (c : Text) (label : Label) (cfg : Menu) : Turn (Label × Menu) :=
  let (val, rest) := parseSliteral c
  match initrdFromAppend { label with append := val <|> label.append } with
  | none => .undefined
  | some label => if val.isSome then .next (label, cfg) rest else .fails (-einval)

/-- One turn of the loop of `parse_label`. -/
def labelTurn (c : Text) (label : Label) (cfg : Menu) : Turn (Label × Menu) :=
  match getToken c .keyword with
  | (.menu, rest) => parseLabelMenu rest label cfg
  | (.kernel, rest) | (.linux, rest) =>
    literalLine rest cfg fun val => { label with kernel := some val }
  | (.append, rest) => appendLine rest label cfg
  | (.initrd, rest) =>
    firstLiteralLine rest label cfg label.initrd fun val => { label with initrd := some val }
  | (.fdt, rest) =>
    firstLiteralLine rest label cfg label.fdt fun val => { label with fdt := some val }
  | (.fdtdir, rest) =>
    firstLiteralLine rest label cfg label.fdtdir fun val => { label with fdtdir := some val }
  | (.localboot, rest) =>
    integerLine rest cfg fun val => { label with localboot := true, localbootVal := val }
  | (.ipappend, rest) => integerLine rest cfg fun val => { label with ipappend := val }
  | (.eol, rest) => .next (label, cfg) rest
  | _ => .done

/-! ## Progress -/

theorem skipBlanks_suffix (c : Text) : skipBlanks c <:+ c := by
  have blanks : c.dropWhile isblank <:+ c := List.dropWhile_suffix _
  unfold skipBlanks
  dsimp only
  split
  · exact (List.dropWhile_suffix _).trans blanks
  · exact blanks

theorem getToken_suffix (p : Text) (state : LexState) : (getToken p state).2 <:+ p := by
  have skipped := skipBlanks_suffix p
  unfold getToken
  cases same : skipBlanks p with
  | nil => exact List.nil_suffix
  | cons c rest =>
    rw [same] at skipped
    have one : rest <:+ p := (List.suffix_cons c rest).trans skipped
    have string (delim : UInt8) : (c :: rest).dropWhile (inString delim) <:+ p :=
      (List.dropWhile_suffix _).trans skipped
    dsimp only
    split
    · exact one
    · split
      · exact one
      · cases state <;> exact string _

theorem getKeyword_nil : getKeyword [] = .string [] := by decide +kernel

theorem length_getToken_lt {p : Text} (ended : (getToken p .keyword).1 ≠ .eof)
    (known : ∀ val, (getToken p .keyword).1 ≠ .string val) :
    (getToken p .keyword).2.length < p.length := by
  have skipped := (skipBlanks_suffix p).length_le
  unfold getToken at ended known ⊢
  cases same : skipBlanks p with
  | nil =>
    rw [same] at ended
    exact absurd rfl ended
  | cons c rest =>
    rw [same, List.length_cons] at skipped
    rw [same] at known
    dsimp only at known ⊢
    by_cases line : c = newline
    · rw [if_pos line]
      exact skipped
    · by_cases nul : c = 0
      · rw [if_neg line, if_pos nul]
        exact skipped
      · rw [if_neg line, if_neg nul] at known ⊢
        dsimp only [getString] at known ⊢
        rw [List.takeWhile_cons] at known
        rw [List.dropWhile_cons]
        by_cases starts : inString 0x20 c = true
        · rw [if_pos starts]
          exact (List.dropWhile_sublist _).length_le.trans_lt skipped
        · rw [if_neg starts] at known
          exact absurd getKeyword_nil (known [])

theorem parseSliteral_suffix (c : Text) : (parseSliteral c).2 <:+ c := by
  have token := getToken_suffix c .sliteral
  unfold parseSliteral
  split <;> next same => rwa [same] at token

theorem parseInteger_suffix (c : Text) : (parseInteger c).2 <:+ c := by
  have literal := parseSliteral_suffix c
  unfold parseInteger
  split <;> next same => rwa [same] at literal

/-- What follows a turn belongs to a text. -/
def Turn.Within {α : Type} (turn : Turn α) (c : Text) : Prop :=
  ∀ value rest, turn = .next value rest → rest <:+ c

theorem literalLine_within (c : Text) (cfg : Menu) (set : Text → Label) :
    (literalLine c cfg set).Within c := by
  intro value rest same
  have literal := parseSliteral_suffix c
  unfold literalLine at same
  split at same <;> cases same
  next read => rwa [read] at literal

theorem integerLine_within (c : Text) (cfg : Menu) (set : Int32 → Label) :
    (integerLine c cfg set).Within c := by
  intro value rest same
  have number := parseInteger_suffix c
  unfold integerLine at same
  split at same <;> cases same
  next read => rwa [read] at number

theorem firstLiteralLine_within (c : Text) (label : Label) (cfg : Menu) (field : Option Text)
    (set : Text → Label) : (firstLiteralLine c label cfg field set).Within c := by
  unfold firstLiteralLine
  split
  · intro value rest same
    cases same
    exact List.suffix_rfl
  · exact literalLine_within c cfg set

theorem appendLine_within (c : Text) (label : Label) (cfg : Menu) :
    (appendLine c label cfg).Within c := by
  intro value rest same
  unfold appendLine at same
  dsimp only at same
  split at same
  · cases same
  · split at same <;> cases same
    exact parseSliteral_suffix c

theorem parseLabelMenu_within (c : Text) (label : Label) (cfg : Menu) :
    (parseLabelMenu c label cfg).Within c := by
  have token := getToken_suffix c .keyword
  have line (text : Text) : eolOrEof text <:+ text := List.dropWhile_suffix _
  intro value rest same
  unfold parseLabelMenu at same
  split at same
  · next read =>
    rw [read] at token
    cases same
    exact (line _).trans token
  · next behind read =>
    rw [read] at token
    have literal := parseSliteral_suffix behind
    split at same <;> cases same <;>
    · next found =>
      rw [found] at literal
      exact (line _).trans (literal.trans token)
  · next read =>
    rw [read] at token
    cases same
    exact (line _).trans token

theorem length_labelTurn_lt {c : Text} {label : Label} {cfg : Menu} {value : Label × Menu}
    {rest : Text} (same : labelTurn c label cfg = .next value rest) :
    rest.length < c.length ∧ rest <:+ c := by
  have token := getToken_suffix c .keyword
  have shorter := @length_getToken_lt c
  unfold labelTurn at same
  cases read : getToken c .keyword with
  | mk t behind =>
    rw [read] at token shorter same
    have step (turn : Turn (Label × Menu)) (within : turn.Within behind)
        (found : turn = .next value rest) (ended : t ≠ .eof) (known : ∀ val, t ≠ .string val) :
        rest.length < c.length ∧ rest <:+ c :=
      ⟨(within value rest found).length_le.trans_lt (shorter ended known),
        (within value rest found).trans token⟩
    cases t <;> first
      | cases same; done
      | exact step _ (parseLabelMenu_within _ _ _) same nofun nofun
      | exact step _ (literalLine_within _ _ _) same nofun nofun
      | exact step _ (appendLine_within _ _ _) same nofun nofun
      | exact step _ (firstLiteralLine_within _ _ _ _ _) same nofun nofun
      | exact step _ (integerLine_within _ _ _) same nofun nofun
      | (cases same; exact ⟨shorter nofun nofun, token⟩)

/-- The loop of `parse_label`; the token that ends it is put back. -/
def labelLoop (c : Text) (label : Label) (cfg : Menu) : Turn (Label × Menu) :=
  match _turn : labelTurn c label cfg with
  | .next (label, cfg) rest => labelLoop rest label cfg
  | .done => .next (label, cfg) c
  | .fails err => .fails err
  | .undefined => .undefined
termination_by c.length
decreasing_by exact (length_labelTurn_lt _turn).1

def parseLabel (c : Text) (cfg : Menu) : Turn Menu :=
  match parseSliteral c with
  | (none, _) => .fails (-einval)
  | (some name, rest) =>
    match labelLoop rest { name } cfg with
    | .next (label, cfg) rest => .next { cfg with labels := cfg.labels ++ [label] } rest
    | .done => .done
    | .fails err => .fails err
    | .undefined => .undefined

/-! ## Files -/

/-- One turn of the loop of `parse_pxefile_top`, up to a file that is to be included. -/
inductive TopTurn where
  | turn (turn : Turn Menu)
  /-- A file is to be included, by a `menu` line or not. -/
  | included (inMenu : Bool) (path : Text) (cfg : Menu) (rest : Text)
  deriving DecidableEq

/-- `handle_include`, up to the loading of the file. -/
def handleInclude (inMenu : Bool) (c : Text) (cfg : Menu) : TopTurn :=
  match parseSliteral c with
  | (none, _) => .turn (.fails (-einval))
  | (some path, rest) => .included inMenu path cfg rest

/-- `parse_menu`, up to the loading of a file. -/
def parseMenu (c : Text) (cfg : Menu) : TopTurn :=
  match getToken c .keyword with
  | (.title, rest) =>
    match parseSliteral rest with
    | (none, _) => .turn (.fails (-einval))
    | (some val, rest) => .turn (.next { cfg with title := some val } (eolOrEof rest))
  | (.includes, rest) => handleInclude true rest cfg
  | (_, rest) => .turn (.next cfg (eolOrEof rest))

/-- One turn of the loop of `parse_pxefile_top`. -/
def topTurn (p : Text) (cfg : Menu) : TopTurn :=
  match getToken p .keyword with
  | (.menu, rest) => parseMenu rest { cfg with prompt := true }
  | (.timeout, rest) =>
    match parseInteger rest with
    | (none, _) => .turn (.fails (-einval))
    | (some val, rest) => .turn (.next { cfg with timeout := val } rest)
  | (.label, rest) => .turn (parseLabel rest cfg)
  | (.default, rest) | (.ontimeout, rest) =>
    match parseSliteral rest with
    | (none, _) => .turn (.fails (-einval))
    | (some val, rest) => .turn (.next { cfg with defaultLabel := some val } rest)
  | (.includes, rest) => handleInclude false rest cfg
  | (.prompt, rest) => .turn (.next cfg (eolOrEof rest))
  | (.eol, rest) => .turn (.next cfg rest)
  | (.eof, _) => .turn .done
  | (_, rest) => .turn (.next cfg (eolOrEof rest))

def strlen (text : Text) : Nat := (text.takeWhile (· ≠ 0)).length

/-- `ALIGN(n, 4)` -/
def align4 (n : Nat) : Nat := (n + 3) / 4 * 4

/-- `get_pxe_file`: a file in memory, with a NUL byte behind it. -/
def store (mem : Text) (addr : Nat) (file : Text) : Text :=
  (mem ++ List.replicate (addr - mem.length) 0).take addr ++ file ++ 0 ::
    mem.drop (addr + file.length + 1)

/-- What parsing ends with. -/
inductive Outcome where
  | parsed (cfg : Menu)
  | error (err : Int)
  | undefined
  deriving DecidableEq

def maxNestLevel : Nat := 16

/-- The loop of `parse_pxefile_top` for the text at `base`, read up to `p`, with the memory behind
it. -/
def topLoop (getPxeFile : Text → Except Int Text) :
    (fuel base p : Nat) → (cfg : Menu) → (nestLevel : Nat) → (mem : Text) → Option (Outcome × Text)
  | 0, _, _, _, _, _ => none
  | fuel + 1, base, p, cfg, nestLevel, mem =>
    let behind (rest : Text) : Nat := p + ((mem.drop p).length - rest.length)
    match topTurn (mem.drop p) cfg with
    | .turn .done => some (.parsed cfg, mem)
    | .turn (.fails err) => some (.error err, mem)
    | .turn .undefined => some (.undefined, mem)
    | .turn (.next cfg rest) => topLoop getPxeFile fuel base (behind rest) cfg nestLevel mem
    | .included inMenu path cfg rest =>
      let length := strlen (mem.drop base)
      let addr := base + align4 (if inMenu then length + 1 else length)
      match getPxeFile path with
      | .error err => some (.error err, mem)
      | .ok file =>
        let mem := store mem addr file
        if maxNestLevel < nestLevel + 1 then some (.error (-emlink), mem)
        else
          match topLoop getPxeFile fuel addr addr cfg (nestLevel + 1) mem with
          | none => none
          | some (.error err, mem) => some (.error err, mem)
          | some (.undefined, mem) => some (.undefined, mem)
          | some (.parsed cfg, mem) =>
            let c := mem.drop (behind rest)
            let skipped := if inMenu then c.length - (eolOrEof c).length else 0
            topLoop getPxeFile fuel base (behind rest + skipped) cfg nestLevel mem

/-- `parse_pxefile`: the menu, `error` for a null pointer. -/
def parsePxefile (getPxeFile : Text → Except Int Text) (fuel menucfg : Nat) (mem : Text) :
    Option Outcome :=
  (topLoop getPxeFile fuel menucfg menucfg {} 1 mem).map (·.1)

end HrppBoot.Pxe
