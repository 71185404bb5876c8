import HrppBoot.Tools.Imximage

/-!
# What a version 2 configuration file says

The lines of a configuration file as statements, and the parser against them: in a file of
version 2, each line does what its statement says, or the program exits there.
-/

namespace HrppBoot.Tools

/-! ## Statements -/

/-- A `DATA` line: the size of the access, the address and the value. -/
structure DataLine where
  size : UInt32
  addr : UInt32
  value : UInt32
  deriving DecidableEq, Repr

/-- What a line says. -/
inductive Statement where
  | nothing
  /-- `IMAGE_VERSION` -/
  | version (value : UInt32)
  /-- `BOOT_FROM`, with the offset and the load size of the device. -/
  | bootFrom (offset loadsize : UInt32)
  | bootOffset (offset : UInt32)
  | csf (size : UInt32)
  /-- `DATA` with a size only. -/
  | dataSize
  /-- `DATA` without a value. -/
  | dataAddr (addr : UInt32)
  | data (line : DataLine)
  | invalid
  /-- A `DATA` line that is in error in its value. -/
  | invalidValue (addr : UInt32)
  deriving DecidableEq, Repr

/-- The statement of a `DATA` line. -/
def dataStatement : List (List Char) → Statement
  | [] => .nothing
  | size :: fields =>
    match getCfgValue size with
    | none => .invalid
    | some size =>
      match fields with
      | [] => .dataSize
      | addr :: fields =>
        match getCfgValue addr with
        | none => .invalid
        | some addr =>
          match fields with
          | [] => .dataAddr addr
          | value :: _ =>
            match getCfgValue value with
            | none => .invalidValue addr
            | some value => .data ⟨size, addr, value⟩

/-- The statement of a device. -/
def bootFromStatement (token : List Char) : Statement :=
  match getTableEntryId imximageBootOffset token, getTableEntryId imximageBootLoadsize token with
  | some offset, some loadsize => .bootFrom offset loadsize
  | _, _ => .invalid

/-- The statement of a number. -/
def numberStatement (token : List Char) (statement : UInt32 → Statement) : Statement :=
  match getCfgValue token with
  | none => .invalid
  | some value => statement value

/-- The statement of a command with its field. -/
def commandStatement (cmd : ImximageCmd) (token : List Char) : Statement :=
  match cmd with
  | .imageVersion => numberStatement token .version
  | .bootFrom => bootFromStatement token
  | .bootOffset => numberStatement token .bootOffset
  | .csf => numberStatement token .csf
  | .data => dataStatement [token]

/-- The statement of a line. -/
def statementOfLine (line : List Char) : Statement :=
  match tokensOfLine line with
  | [] => .nothing
  | token :: fields =>
    match getTableEntryId imximageCmds token with
    | none => .invalid
    | some cmd =>
      if cmd = .data then dataStatement fields
      else
        match fields with
        | [] => .nothing
        | token :: _ => commandStatement cmd token

namespace Statement

/-- The line is not in error. -/
def Valid : Statement → Prop
  | invalid | invalidValue _ => False
  | _ => True

instance : DecidablePred Valid
  | .nothing | .version _ | .bootFrom _ _ | .bootOffset _ | .csf _ | .dataSize | .dataAddr _
  | .data _ => inferInstanceAs (Decidable True)
  | .invalid | .invalidValue _ => inferInstanceAs (Decidable False)

/-- The line has an address to store. -/
def Stores : Statement → Prop
  | dataAddr _ | data _ | invalidValue _ => True
  | _ => False

instance : DecidablePred Stores
  | .dataAddr _ | .data _ | .invalidValue _ => inferInstanceAs (Decidable True)
  | .nothing | .version _ | .bootFrom _ _ | .bootOffset _ | .csf _ | .dataSize | .invalid =>
    inferInstanceAs (Decidable False)

/-- The `DATA` line, if it is one. -/
def dataLine? : Statement → Option DataLine
  | data line => some line
  | _ => none

end Statement

/-- A file of version 2: `IMAGE_VERSION 2` is the first statement, and no other version is
stated. -/
structure VersionTwo (statements : List Statement) : Prop where
  first : (statements.filter (· ≠ .nothing)).head? = some (.version 2)
  only : ∀ value, Statement.version value ∈ statements → value = 2

/-- The `DATA` lines. -/
def dataLines (statements : List Statement) : List DataLine := statements.filterMap (·.dataLine?)

/-! ## What a statement does -/

namespace Imximage

/-- An entry of `addr_data` is written to. -/
def storeAddr (s : Imximage) (addr : UInt32) : Imximage :=
  { s with
    addrData := Function.update s.addrData s.dcdLen { s.addrData s.dcdLen with addr := addr }
    stores := s.stores ++ [s.dcdLen] }

/-- An entry of `addr_data` is filled in. -/
def storeLine (s : Imximage) (line : DataLine) : Imximage :=
  { s with
    addrData := Function.update s.addrData s.dcdLen ⟨line.addr, line.value⟩
    stores := s.stores ++ [s.dcdLen] ++ [s.dcdLen]
    dcdLen := s.dcdLen + 1 }

/-- What a statement does to the variables in a file of version 2. -/
def act (s : Imximage) : Statement → Step
  | .nothing | .version _ | .dataSize => .ok s
  | .bootFrom offset loadsize =>
    .ok { s with
      ivtOffset := offset
      initLoadsize := if loadsize < offset then offset else loadsize }
  | .bootOffset offset => .ok { s with ivtOffset := offset }
  | .csf size => .ok { s with csfSize := size }
  | .dataAddr addr => .ok (s.storeAddr addr)
  | .data line =>
    if maxHwCfgSizeV2 < s.dcdLen + 1 then .error (s.storeLine line) else .ok (s.storeLine line)
  | .invalid => .error s
  | .invalidValue addr => .error (s.storeAddr addr)

/-- The parser is behind `IMAGE_VERSION 2`. -/
structure InVersionTwo (s : Imximage) : Prop where
  version : s.version = 2
  first : s.cmdVerFirst = 1

/-- The state at an exit, with the version that was stored before it left out. -/
def SameStores : Step → Step → Prop
  | .ok s, .ok t => s = t
  | .error s, .error t => s.stores = t.stores
  | _, _ => False

variable {s : Imximage}

theorem parseFields_other (cmd : ImximageCmd) (tokens : List (List Char)) :
    parseFields cmd .other tokens s = .ok s := by
  induction tokens with
  | nil => rfl
  | cons token tokens ih => exact ih

theorem parseFields_single {cmd : ImximageCmd} (other : cmd ≠ .data) (token : List Char)
    (tokens : List (List Char)) :
    parseFields cmd .regSize (token :: tokens) s = s.parseCfgCmd cmd token := by
  have rest (t : Imximage) : parseFields cmd .regAddress tokens t = .ok t := by
    cases tokens with
    | nil => rfl
    | cons first tokens =>
      rw [parseFields, parseCfgFld, if_pos other]
      cases tokens with
      | nil => rfl
      | cons second tokens =>
        change parseFields cmd .regValue (second :: tokens) t = .ok t
        rw [parseFields, parseCfgFld, if_pos other]
        exact parseFields_other cmd tokens
  rw [parseFields, parseCfgFld]
  change (s.parseCfgCmd cmd token).bind _ = _
  cases s.parseCfgCmd cmd token with
  | error t => rfl
  | ok t => exact rest t

theorem InVersionTwo.otherFirst (two : s.InVersionTwo) : s.otherFirst = s :=
  if_neg (not_not.mpr two.first)

theorem InVersionTwo.setDcdVal_size (two : s.InVersionTwo) (value : UInt32) :
    s.setDcdVal .regSize value s.dcdLen = .ok s := if_pos two.version

theorem InVersionTwo.setDcdVal_address (two : s.InVersionTwo) (value : UInt32) :
    s.setDcdVal .regAddress value s.dcdLen = .ok (s.storeAddr value) := if_pos two.version

theorem InVersionTwo.parseCfgFld_value (two : s.InVersionTwo) {token : List Char} {value : UInt32}
    (found : getCfgValue token = some value) (size addr : UInt32) :
    (s.storeAddr addr).parseCfgFld .data token .regValue = s.act (.data ⟨size, addr, value⟩) := by
  have version : (s.storeAddr addr).version = 2 := two.version
  simp only [parseCfgFld, ne_eq, not_true_eq_false, if_false, found, setDcdVal, if_pos version]
  simp only [setDcdValV2, bind, Except.bind, maxDcdEntries, storeAddr, two.version, if_true,
    Function.update_self, Function.update_idem, act, storeLine]

/-- A `DATA` line does what its statement says. -/
theorem InVersionTwo.parseFields_data (two : s.InVersionTwo) (tokens : List (List Char)) :
    parseFields .data .regSize tokens s = s.act (dataStatement tokens) := by
  cases tokens with
  | nil => rfl
  | cons size fields =>
    simp only [parseFields, parseCfgFld, parseCfgCmd, dataStatement]
    cases getCfgValue size with
    | none => rfl
    | some size =>
      simp only [two.setDcdVal_size, bind, Except.bind, two.otherFirst]
      cases fields with
      | nil => rfl
      | cons addr fields =>
        simp only [CfgFld.next, parseFields, parseCfgFld, ne_eq, not_true_eq_false, if_false]
        cases getCfgValue addr with
        | none => rfl
        | some addr =>
          simp only [two.setDcdVal_address, bind, Except.bind]
          cases fields with
          | nil => rfl
          | cons value fields =>
            have others (t : Imximage) : parseFields .data .other fields t = .ok t :=
              parseFields_other .data fields
            simp only [CfgFld.next, parseFields, others]
            cases found : getCfgValue value with
            | none =>
              simp only [parseCfgFld, ne_eq, not_true_eq_false, if_false, found]
              rfl
            | some value =>
              rw [two.parseCfgFld_value found size addr]
              exact bind_pure _

theorem SameStores.refl (step : Step) : SameStores step step := by
  cases step <;> rfl

/-- A command with its field does what its statement says. -/
theorem InVersionTwo.parseCfgCmd (two : s.InVersionTwo) {cmd : ImximageCmd} {token : List Char}
    (other : cmd ≠ .data)
    (versions : ∀ value, commandStatement cmd token = .version value → value = 2) :
    SameStores (s.parseCfgCmd cmd token) (s.act (commandStatement cmd token)) := by
  have first := two.first
  have version := two.version
  cases cmd with
  | data => exact absurd rfl other
  | imageVersion =>
    simp only [commandStatement, numberStatement, Imximage.parseCfgCmd] at versions ⊢
    cases found : getCfgValue token with
    | none => exact .refl _
    | some value =>
      simp only [found] at versions ⊢
      obtain rfl := versions value rfl
      rw [if_neg (by omega), if_pos (.inr rfl)]
      obtain ⟨_, _, _, _, _, _, _, _, _⟩ := s
      simp only at first version
      subst first version
      exact .refl _
  | bootFrom =>
    simp only [commandStatement, bootFromStatement, Imximage.parseCfgCmd]
    cases getTableEntryId imximageBootOffset token with
    | none => exact rfl
    | some offset =>
      cases getTableEntryId imximageBootLoadsize token with
      | none => exact rfl
      | some loadsize =>
        simp only [Imximage.otherFirst]
        rw [if_neg (not_not.mpr first)]
        exact .refl _
  | bootOffset =>
    simp only [commandStatement, numberStatement, Imximage.parseCfgCmd]
    cases getCfgValue token with
    | none => exact .refl _
    | some value =>
      simp only [Imximage.otherFirst]
      rw [if_neg (not_not.mpr first)]
      exact .refl _
  | csf =>
    simp only [commandStatement, numberStatement, Imximage.parseCfgCmd]
    rw [if_neg (not_not.mpr version)]
    cases getCfgValue token with
    | none => exact .refl _
    | some value =>
      simp only [Imximage.otherFirst]
      rw [if_neg (not_not.mpr first)]
      exact .refl _

variable {line : List Char}

theorem InVersionTwo.parseLine (two : s.InVersionTwo)
    (versions : ∀ value, statementOfLine line = .version value → value = 2) :
    SameStores (s.parseLine line) (s.act (statementOfLine line)) := by
  simp only [Imximage.parseLine]
  unfold statementOfLine at versions ⊢
  cases tokens : tokensOfLine line with
  | nil => exact .refl _
  | cons token fields =>
    simp only [tokens] at versions ⊢
    cases command : getTableEntryId imximageCmds token with
    | none => exact .refl _
    | some cmd =>
      simp only [command] at versions ⊢
      by_cases isData : cmd = .data
      · subst isData
        rw [if_pos rfl, two.parseFields_data]
        exact .refl _
      · rw [if_neg isData] at versions ⊢
        cases fields with
        | nil => exact .refl _
        | cons token fields =>
          rw [parseFields_single isData]
          exact two.parseCfgCmd isData versions

/-- What statements do one after the other. -/
def actAll : List Statement → Imximage → Step
  | [], s => .ok s
  | statement :: statements, s => (s.act statement).bind (actAll statements)

theorem InVersionTwo.act (two : s.InVersionTwo) {statement : Statement} {t : Imximage}
    (acts : s.act statement = .ok t) : t.InVersionTwo := by
  have ⟨version, first⟩ := two
  cases statement with
  | data line =>
    simp only [Imximage.act] at acts
    split at acts
    · cases acts
    · cases acts
      exact ⟨version, first⟩
  | invalid => cases acts
  | invalidValue addr => cases acts
  | nothing | version | dataSize | bootFrom | bootOffset | csf | dataAddr =>
    cases acts
    exact ⟨version, first⟩

theorem InVersionTwo.parseLines (two : s.InVersionTwo) {lines : List (List Char)}
    (versions : ∀ value, .version value ∈ lines.map statementOfLine → value = 2) :
    SameStores (parseLines lines s) (actAll (lines.map statementOfLine) s) := by
  induction lines generalizing s with
  | nil => exact .refl _
  | cons line lines ih =>
    have here := two.parseLine fun value same =>
      versions value (List.mem_map.mpr ⟨line, List.mem_cons_self, same⟩)
    rw [Imximage.parseLines, List.map_cons, actAll]
    cases acts : s.act (statementOfLine line) with
    | ok t =>
      cases parses : s.parseLine line with
      | error u =>
        rw [acts, parses] at here
        exact here.elim
      | ok u =>
        rw [acts, parses] at here
        cases here
        exact ih (two.act acts) fun value inside => versions value (List.mem_cons_of_mem _ inside)
    | error t =>
      cases parses : s.parseLine line with
      | ok u =>
        rw [acts, parses] at here
        exact here.elim
      | error u =>
        rw [acts, parses] at here
        exact here

/-- The state in which statements of version 2 are read. -/
def asVersionTwo (s : Imximage) : Imximage := { s with version := 2, cmdVerFirst := 1 }

theorem asVersionTwo_inVersionTwo (s : Imximage) : s.asVersionTwo.InVersionTwo := ⟨rfl, rfl⟩

theorem parseLine_nothing (nothing : statementOfLine line = .nothing) :
    s.parseLine line = .ok s := by
  unfold statementOfLine at nothing
  rw [Imximage.parseLine]
  cases tokens : tokensOfLine line with
  | nil => rfl
  | cons token fields =>
    simp only [tokens] at nothing ⊢
    cases command : getTableEntryId imximageCmds token with
    | none =>
      simp only [command] at nothing
      cases nothing
    | some cmd =>
      simp only [command] at nothing ⊢
      cases fields with
      | nil => rfl
      | cons field fields =>
        exfalso
        cases cmd <;> simp only [reduceCtorEq, if_false, if_true, commandStatement, dataStatement,
          numberStatement, bootFromStatement] at nothing
        all_goals repeat (first | split at nothing | cases nothing)

theorem dataStatement_ne_version (tokens : List (List Char)) (value : UInt32) :
    dataStatement tokens ≠ .version value := by
  unfold dataStatement
  repeat (first | split | exact Statement.noConfusion)

/-- The first version is taken. -/
theorem parseLine_version (version : statementOfLine line = .version 2)
    (notLate : s.cmdVerFirst ≠ 0) : s.parseLine line = .ok s.asVersionTwo := by
  unfold statementOfLine at version
  rw [Imximage.parseLine]
  cases tokens : tokensOfLine line with
  | nil =>
    rw [tokens] at version
    cases version
  | cons token fields =>
    simp only [tokens] at version ⊢
    cases command : getTableEntryId imximageCmds token with
    | none =>
      simp only [command] at version
      cases version
    | some cmd =>
      simp only [command] at version ⊢
      by_cases isData : cmd = .data
      · rw [if_pos isData] at version
        exact absurd version (dataStatement_ne_version _ _)
      rw [if_neg isData] at version
      cases fields with
      | nil => cases version
      | cons field fields =>
        rw [parseFields_single isData]
        cases cmd with
        | imageVersion =>
          simp only [commandStatement, numberStatement] at version
          simp only [Imximage.parseCfgCmd]
          cases found : getCfgValue field with
          | none =>
            rw [found] at version
            cases version
          | some value =>
            simp only [found, Statement.version.injEq] at version
            subst version
            dsimp only
            rw [if_neg notLate]
            rfl
        | data => exact absurd rfl isData
        | bootFrom =>
          simp only [commandStatement, bootFromStatement] at version
          split at version <;> cases version
        | bootOffset =>
          simp only [commandStatement, numberStatement] at version
          split at version <;> cases version
        | csf =>
          simp only [commandStatement, numberStatement] at version
          split at version <;> cases version

theorem parseLines_versionTwo {lines : List (List Char)}
    (two : VersionTwo (lines.map statementOfLine)) (notLate : s.cmdVerFirst ≠ 0) :
    SameStores (parseLines lines s) (actAll (lines.map statementOfLine) s.asVersionTwo) := by
  obtain ⟨first, only⟩ := two
  induction lines with
  | nil => cases first
  | cons line lines ih =>
    rw [Imximage.parseLines, List.map_cons, actAll]
    by_cases nothing : statementOfLine line = .nothing
    · rw [parseLine_nothing nothing, nothing]
      refine ih ?_ fun value inside => only value (List.mem_cons_of_mem _ inside)
      rwa [List.map_cons, nothing, List.filter_cons_of_neg (by decide)] at first
    · rw [List.map_cons, List.filter_cons_of_pos (by simpa using nothing), List.head?_cons] at first
      have version := Option.some.inj first
      rw [parseLine_version version notLate, version]
      exact s.asVersionTwo_inVersionTwo.parseLines fun value inside =>
        only value (List.mem_cons_of_mem _ inside)

end Imximage

end HrppBoot.Tools
