import HrppBoot.Flags.Lists

/-!
# The flags of a new variable

`env_flags_init` looks the flags of a variable up in the list of the variable `.flags`, and then in
a static one, into a buffer for two characters. The static lists fit it. What is found in `.flags`
is copied whatever its length. `CONFIG_ENV_FLAGS_LIST_STATIC` is empty, as by default.
-/

namespace HrppBoot.Flags

/-! ## Flags -/

/-- `ENV_FLAGS_ATTR_MAX_LEN` -/
def attrMaxLen : Nat := 2

def ascii (text : String) : CString := text.toList.map fun c => c.toNat.toUInt8

/-- What the configuration says about flags: `CONFIG_…`. -/
structure Config where
  cmdNet : Bool
  envOverwrite : Bool
  overwriteEthaddrOnce : Bool

def ethaddrFlags (config : Config) : CString :=
  if config.cmdNet then
    ascii (if config.envOverwrite then "ethaddr:ma,"
      else if config.overwriteEthaddrOnce then "ethaddr:mc,"
      else "ethaddr:mo,")
  else []

def netFlags (config : Config) : CString :=
  if config.cmdNet then
    ascii "ipaddr:i,gatewayip:i,netmask:i,serverip:i,nvlan:i,vlan:i,dnsip:i,"
  else []

def serialFlags (config : Config) : CString :=
  if config.envOverwrite then [] else ascii "serial#:so,"

/-- `ENV_FLAGS_LIST_STATIC` -/
def flagsListStatic (config : Config) : CString :=
  ethaddrFlags config ++ netFlags config ++ serialFlags config

/-- `env_flags_vartype_rep` -/
def vartypeRep (config : Config) : CString := ascii (if config.cmdNet then "sdxbim" else "sdxb")

/-- `env_flags_varaccess_rep` -/
def varaccessRep : CString := ascii "aroc"

/-- `env_flags_varaccess_mask` -/
def varaccessMask : List Nat := [0, 0x08 ||| 0x10 ||| 0x20, 0x08 ||| 0x20, 0x08 ||| 0x40]

/-- `env_flags_parse_vartype` -/
def parseVartype (config : Config) (flags : CString) : Nat :=
  match flags[0]? with
  | none => 0
  | some c => ((vartypeRep config).idxOf? c).getD 0

/-- `env_flags_parse_varaccess` -/
def parseVaraccess (flags : CString) : Nat :=
  match flags[1]? with
  | none => 0
  | some c => (varaccessRep.idxOf? c).getD 0

/-- `env_parse_flags_to_bin` -/
def parseFlagsToBin (config : Config) (flags : CString) : Nat :=
  parseVartype config flags &&& 0x7 ||| (varaccessMask[parseVaraccess flags]?).getD 0

/-- `env_flags_lookup`, and the strings it writes into `flags`, the last one last. -/
def flagsLookup (config : Config) (flagsList : Option CString) (name : CString) :
    Int × List CString :=
  let env :=
    match flagsList with
    | none => (1, none)
    | some flagsList => attrLookup (some flagsList) name
  if env.1 ≠ 0 then
    let static := attrLookup (some (flagsListStatic config)) name
    (static.1, env.2.toList ++ static.2.toList)
  else (env.1, env.2.toList)

/-- The static variables of `env_flags.c`. -/
structure FlagsState where
  firstCall : Bool
  flagsList : Option CString

/-- The list that is looked into: the variable at the first call, and what it was then later. -/
def FlagsState.list (state : FlagsState) (flagsVar : Option CString) : Option CString :=
  if state.firstCall then flagsVar else state.flagsList

/-- `env_flags_init` of a variable with a name and flags, where `flagsVar` is the variable `.flags`:
the static variables, the flags, and the strings that are written into `flags`. -/
def flagsInit (config : Config) (state : FlagsState) (flagsVar : Option CString) (name : CString)
    (flags : Nat) : FlagsState × Nat × List CString :=
  let state : FlagsState := ⟨false, state.list flagsVar⟩
  let lookup := flagsLookup config state.flagsList name
  let found := lookup.2.getLast?.getD []
  (state, if lookup.1 = 0 ∧ found.length ≠ 0 then parseFlagsToBin config found else flags,
    lookup.2)

/-! ## The static list -/

theorem attributesAt_static (config : Config) :
    (flagsListStatic config).tails.all (fun behind => (attributesAt behind).length ≤ 2) = true := by
  rcases config with ⟨net, overwrite, once⟩
  cases net <;> cases overwrite <;> cases once <;> decide

theorem attrLookup_static (config : Config) (name : CString) :
    ∀ text ∈ (attrLookup (some (flagsListStatic config)) name).2, text.length ≤ 2 := by
  intro text found
  rw [attrLookup] at found
  split at found
  · cases found
  · rename_i entryLen entry _
    obtain rfl := Option.some.inj found
    have behind : (flagsListStatic config).drop (entry + entryLen) ∈
        (flagsListStatic config).tails := (List.mem_tails _ _).mpr (List.drop_suffix _ _)
    exact of_decide_eq_true (List.all_eq_true.mp (attributesAt_static config) _ behind)

/-! ## The list of the variable -/

/-- The attributes behind a name: spaces, a separator, spaces, and what is there up to a space, a
delimiter or the end. -/
def AttributesBehind (behind attributes : CString) : Prop :=
  ∃ spaces more rest, behind = spaces ++ colon :: (more ++ attributes ++ rest) ∧
    (∀ c ∈ spaces, c = space) ∧ (∀ c ∈ more, c = space) ∧
    (∀ c ∈ attributes, c ≠ comma ∧ c ≠ space) ∧ ∀ c ∈ rest.head?, c = comma ∨ c = space

/-- What is copied is the attributes, if there are any. -/
theorem attributesAt_length_le (behind : CString) (n : Nat) :
    (attributesAt behind).length ≤ n ↔
      ∀ attributes, AttributesBehind behind attributes → attributes.length ≤ n := by
  constructor
  · rintro short attributes ⟨spaces, more, rest, rfl, blank, blank', plain, stop⟩
    cases attributes with
    | nil => exact Nat.zero_le _
    | cons c text =>
      have word : (c :: text ++ rest).takeWhile (fun c => c ≠ comma ∧ c ≠ space) = c :: text := by
        rw [List.takeWhile_append_of_pos (by simpa using plain)]
        cases rest with
        | nil => simp
        | cons d rest =>
          rw [List.takeWhile_cons_of_neg, List.append_nil]
          rcases stop d rfl with rfl | rfl <;> simp
      have first : ∀ d ∈ (c :: text ++ rest).head?, decide (d = space) = false := by
        intro d head
        obtain rfl := Option.some.inj head
        exact decide_eq_false (plain c List.mem_cons_self).2
      rw [attributesAt, dropWhile_lead (by simpa using blank) (by simp [colon, space])] at short
      dsimp only at short
      rw [if_neg (by simp), List.append_assoc, dropWhile_lead (by simpa using blank') first,
        word] at short
      exact short
  · intro short
    rw [attributesAt]
    split
    · exact Nat.zero_le _
    · rename_i c entry found
      split
      · exact Nat.zero_le _
      · rename_i separator
        obtain rfl : c = colon := Decidable.byContradiction separator
        have front := @List.takeWhile_append_dropWhile _ (· = space) behind
        have more := @List.takeWhile_append_dropWhile _ (· = space) entry
        have word := @List.takeWhile_append_dropWhile _
          (fun c => c ≠ comma ∧ c ≠ space) (entry.dropWhile (· = space))
        refine short _ ⟨behind.takeWhile (· = space), entry.takeWhile (· = space),
          (entry.dropWhile (· = space)).dropWhile (fun c => c ≠ comma ∧ c ≠ space), ?_, ?_, ?_, ?_,
          ?_⟩
        · rw [List.append_assoc, word, more, ← found, front]
        · exact fun c member => by simpa using List.all_eq_true.mp List.all_takeWhile c member
        · exact fun c member => by simpa using List.all_eq_true.mp List.all_takeWhile c member
        · exact fun c member => by simpa using List.all_eq_true.mp List.all_takeWhile c member
        · intro c head
          have stop := List.head?_dropWhile_not (fun c => decide (c ≠ comma ∧ c ≠ space))
            (entry.dropWhile (· = space))
          rw [head] at stop
          by_cases delimiter : c = comma
          · exact .inl delimiter
          · exact .inr (by simpa [delimiter] using stop)

/-- A name stands between delimiters, and nowhere later. -/
def LastMatch (list name front behind : CString) : Prop :=
  list = front ++ name ++ behind ∧ Opens front ∧ Closes behind ∧
    ∀ front' behind', list = front' ++ name ++ behind' → Opens front' → Closes behind' →
      front'.length ≤ front.length

/-- What a lookup copies is short if and only if the attributes behind the last match are. -/
theorem attrLookup_fits_iff (list name : CString) :
    (∀ text ∈ (attrLookup (some list) name).2, text.length ≤ 2) ↔
      (name ≠ [] → ∀ front behind, LastMatch list name front behind →
        ∀ attributes, AttributesBehind behind attributes → attributes.length ≤ 2) := by
  by_cases empty : name = []
  · refine iff_of_true (fun text found => ?_) fun nonempty => absurd empty nonempty
    rw [empty, attrLookup, reverseNameSearch, if_pos rfl] at found
    obtain rfl := Option.some.inj found
    rw [Nat.zero_add, List.drop_length]
    exact Nat.zero_le _
  rcases @exists_last_match list name empty with none | ⟨p, found, last⟩
  · rw [attrLookup_none empty none]
    refine iff_of_true (fun text found => by cases found) fun _ front behind match_ => ?_
    obtain ⟨whole, opens, closes, _⟩ := match_
    exact absurd ((matchAt_iff empty _).mpr ⟨front, behind, whole, rfl, opens, closes⟩) (none _)
  · obtain ⟨front, behind, whole, place, opens, closes⟩ := (matchAt_iff empty p).mp found
    have copied : list.drop (p + name.length) = behind := by
      rw [whole, ← place, ← List.length_append, List.drop_left]
    have greatest : ∀ front' behind', list = front' ++ name ++ behind' → Opens front' →
        Closes behind' → front'.length ≤ front.length := by
      intro front' behind' whole' opens' closes'
      refine Nat.le_of_not_lt fun later => last front'.length (place ▸ later) ?_
      exact (matchAt_iff empty _).mpr ⟨front', behind', whole', rfl, opens', closes'⟩
    rw [attrLookup_last empty found last, copied]
    constructor
    · rintro short _ front' behind' ⟨whole', opens', closes', greatest'⟩
      have same : front'.length = front.length := Nat.le_antisymm
        (greatest front' behind' whole' opens' closes') (greatest' front behind whole opens closes)
      rw [whole, List.append_assoc, List.append_assoc] at whole'
      obtain ⟨_, rest⟩ := List.append_inj whole' same.symm
      rw [← List.append_cancel_left rest]
      exact (attributesAt_length_le behind 2).mp (short _ rfl)
    · intro short text found
      obtain rfl := Option.some.inj found
      exact (attributesAt_length_le behind 2).mpr
        (short empty front behind ⟨whole, opens, closes, greatest⟩)

/-- What is written into the buffer of `env_flags_init` fits it with its NUL if and only if the
attributes behind the last match of the name in the list of `.flags` have two characters at most. -/
theorem flagsInit_fits_iff (config : Config) (state : FlagsState) (flagsVar : Option CString)
    (name : CString) (flags : Nat) :
    (∀ text ∈ (flagsInit config state flagsVar name flags).2.2,
        text.length + 1 ≤ attrMaxLen + 1) ↔
      ∀ list, state.list flagsVar = some list → name ≠ [] →
        ∀ front behind, LastMatch list name front behind →
          ∀ attributes, AttributesBehind behind attributes → attributes.length ≤ attrMaxLen := by
  have static := attrLookup_static config name
  rw [flagsInit]
  dsimp only
  cases used : state.list flagsVar with
  | none =>
    refine iff_of_true (fun text member => ?_) fun list other => by cases other
    have found : text ∈ (attrLookup (some (flagsListStatic config)) name).2 := by
      simpa [flagsLookup] using member
    exact Nat.succ_le_succ (static text found)
  | some list =>
    have fits := attrLookup_fits_iff list name
    have written : (∀ text ∈ (flagsLookup config (some list) name).2,
        text.length + 1 ≤ attrMaxLen + 1) ↔
        ∀ text ∈ (attrLookup (some list) name).2, text.length ≤ 2 := by
      rw [flagsLookup]
      dsimp only
      split
      · constructor
        · intro short text found
          exact Nat.le_of_succ_le_succ
            (short text (List.mem_append_left _ (Option.mem_toList.mpr found)))
        · intro short text found
          rw [List.mem_append, Option.mem_toList, Option.mem_toList] at found
          exact Nat.succ_le_succ (found.elim (short text) (static text))
      · constructor
        · intro short text found
          exact Nat.le_of_succ_le_succ (short text (by simpa using found))
        · intro short text found
          exact Nat.succ_le_succ (short text (by simpa using found))
    rw [written, fits]
    constructor
    · intro short list' same
      obtain rfl := Option.some.inj same
      exact short
    · exact fun short => short list rfl

theorem isName_letter : IsName [0x66] := by
  constructor <;> simp [isspace, comma, colon, space]

theorem letters_plain :
    ∀ c ∈ [0x73, 0x61, 0x61], isspace c = false ∧ c ≠ comma ∧ c ≠ colon := by
  simp [isspace, comma, colon, space]

theorem blank_nil : ∀ c ∈ ([] : CString), isspace c = true := List.forall_mem_nil _

/-- An entry that gives the variable `f` three characters. -/
def longEntry : Entry where
  lead := []
  name := [0x66]
  trail := []
  attributes := some ⟨[], [0x73, 0x61, 0x61], [], blank_nil, letters_plain, blank_nil⟩
  lead_blank := blank_nil
  isName := isName_letter
  trail_blank := blank_nil

/-- They and their NUL do not fit the buffer. -/
theorem flagsInit_longEntry :
    let init := flagsInit ⟨true, false, false⟩ ⟨true, none⟩ (some (renderList [longEntry])) [0x66] 0
    ¬∀ text ∈ init.2.2, text.length + 1 ≤ attrMaxLen + 1 := by
  have found : attrLookup (some (renderList [longEntry])) [0x66] =
      (0, some [0x73, 0x61, 0x61]) :=
    (attrLookup_visible (by simp [longEntry]) longEntry.isName [longEntry]).trans rfl
  intro init fits
  have written : [0x73, 0x61, 0x61] ∈ init.2.2 := by
    simp [init, flagsInit, FlagsState.list, flagsLookup, found]
  exact absurd (fits _ written) (by decide)

end HrppBoot.Flags
