import Mathlib.Algebra.BigOperators.Group.Finset.Basic
import HrppBoot.Env.FwEnv

/-!
# Setting one variable with the tools

`fw_setenv` joins its arguments to a value, has `fw_env_write` change the text in memory, and
stores it with `fw_env_close`. A write that is not allowed leaves the text as it is. One that
overwrites a variable has removed the old value before it finds that there is no room for the new
one, and its message says so; the other variables stay. What the flash and the cipher do, and which
values the flags of a variable admit, are parameters.
-/

namespace HrppBoot.Env

/-! ## The command -/

/-- What the tools use besides their text functions. -/
structure FwTools where
  policy : FwPolicy
  /-- The text in memory after `fw_env_open`, under the key if there is one. -/
  envOpen : Option (List UInt8) → Option (List UInt8)
  /-- `env_flags_validate_env_set_params` does not fail. -/
  validateSetParams : CString → List CString → Bool
  envAesCbcCrypt : List UInt8 → List UInt8 → Option (List UInt8)
  /-- `flash_io(O_RDWR)` does not fail. -/
  flashIo : List UInt8 → Bool

def hexDigit (c : UInt8) : Option UInt8 :=
  if 48 ≤ c ∧ c ≤ 57 then some (c - 48)
  else if 65 ≤ c ∧ c ≤ 70 then some (c - 55)
  else if 97 ≤ c ∧ c ≤ 102 then some (c - 87)
  else none

/-- `strtoul` of the digits, which ends at the first character that is none. -/
def keyByte (high low : UInt8) : UInt8 :=
  match hexDigit high, hexDigit low with
  | some h, some l => 16 * h + l
  | some h, none => h
  | none, _ => 0

def keyBytes : CString → List UInt8
  | high :: low :: key => keyByte high low :: keyBytes key
  | _ => []

def parseAesKey (key : CString) : Option (List UInt8) :=
  if min key.length 64 ≠ 32 then none else some (keyBytes key)

/-- The value that `fw_setenv` makes of its arguments. -/
def joinArguments : List CString → CString
  | [] => []
  | [argument] => argument
  | argument :: arguments => argument ++ 32 :: joinArguments arguments

/-- `fw_env_close`: what it returns, and the text that it has stored. -/
def fwEnvClose (tools : FwTools) (key : Option (List UInt8)) (data : List UInt8) :
    Int × Option (List UInt8) :=
  match key.elim (some data) (tools.envAesCbcCrypt · data) with
  | none => (-1, none)
  | some image => if tools.flashIo image then (0, some data) else (-1, none)

/-- `fw_setenv` behind the key. -/
def setVariable (tools : FwTools) (key : Option (List UInt8)) :
    List CString → Option (Int × Option (List UInt8))
  | [] => some (-1, none)
  | name :: arguments =>
    match tools.envOpen key with
    | none => some (-1, none)
    | some data =>
      if tools.validateSetParams name arguments then
        (fwEnvWrite tools.policy data name (joinArguments arguments)).map fun written =>
          fwEnvClose tools key written.2
      else some (1, none)

/-- The option `-a`. -/
def keyOption : CString := [45, 97]

/-- `fw_setenv`, for the arguments behind the name of the program. -/
def fwSetenv (tools : FwTools) : List CString → Option (Int × Option (List UInt8))
  | [] => some (-1, none)
  | first :: arguments =>
    if first = keyOption then
      match arguments with
      | [] => some (-1, none)
      | key :: arguments =>
        match parseAesKey key with
        | none => some (-1, none)
        | some key => setVariable tools (some key) arguments
    else setVariable tools none (first :: arguments)

/-! ## What a write does -/

/-- The data is a well-formed text of the variables of the map, and has room for its end. -/
structure Blob (data : List UInt8) (m : EnvMap) : Prop where
  strings : ∃ entries pad, BlobOf data m entries pad
  ends : 2 ≤ data.length

/-- The access that a write needs is given. -/
def Granted (policy : FwPolicy) (m : EnvMap) (name value : CString) : Prop :=
  match m.lookup name with
  | none => value ≠ [] → policy.preventCreate name = false
  | some oldval =>
    if value = [] then policy.preventDelete name = false
    else policy.preventOverwr name = false ∧
      (policy.preventNondefOverwr name = true → oldval = (policy.getdefenv name).getD [])

/-- The bytes that the text of the variables needs. -/
def textRoom (m : EnvMap) : Nat :=
  (∑ name ∈ m.keys, (name.length + ((m.lookup name).getD []).length + 2)) + 1

section Write

variable {data : List UInt8} {m : EnvMap} {entries : List (CString × CString)} {pad : List UInt8}

theorem BlobOf.room (text : BlobOf data m entries pad) :
    (entries.flatMap rawEntry).length + 1 = textRoom m := by
  have names : m.keys = (entries.map Prod.fst).toFinset := by
    ext name
    rw [Finmap.mem_keys, Finmap.mem_iff, List.mem_toFinset, List.mem_map]
    constructor
    · rintro ⟨value, present⟩
      exact ⟨(name, value), (text.entry name value).mp present, rfl⟩
    · rintro ⟨⟨name, value⟩, member, rfl⟩
      exact ⟨value, (text.entry name value).mpr member⟩
  have lengths : (entries.flatMap rawEntry).length =
      (entries.map fun entry => entry.1.length + ((m.lookup entry.1).getD []).length + 2).sum := by
    rw [List.length_flatMap]
    congr 1
    apply List.map_congr_left
    intro entry member
    rw [(text.entry entry.1 entry.2).mpr member]
    simp [rawEntry]
    omega
  rw [textRoom, names, List.sum_toFinset _ text.distinct, lengths, List.map_map]
  rfl

/-- An entry that is not there is appended exactly when there is room for it. -/
theorem BlobOf.appends (text : BlobOf data m entries pad) (long : 2 ≤ data.length)
    {name : CString} (absent : m.lookup name = none) (value : CString)
    (storable : Storable (name, value)) :
    ∃ ok data', appendEntry data name value = some (ok, data') ∧
      (ok = true ↔ textRoom (m.insert name value) ≤ data.length) ∧
      (ok = false → data' = data) := by
  have found : ∃ strings, upToEnd data = some strings := by
    by_cases empty : entries = []
    · have ends := text.ends empty
      have own := text.text
      subst empty
      cases pad with
      | nil => simp [own, rawText] at long
      | cons c pad =>
        have zero : c = 0 := by simpa using ends
        exact ⟨[0], by simp [own, rawText, upToEnd, zero]⟩
    · rw [text.text]
      exact ⟨_, upToEnd_rawText empty text.storable pad⟩
  obtain ⟨strings, found⟩ := found
  have offset := appendEntry_offset text.ends text.storable (text.text ▸ found)
  have room := (text.extend storable absent []).room
  simp only [List.flatMap_append, List.flatMap_singleton, List.length_append, rawEntry,
    List.length_cons, List.length_nil] at room
  simp only [appendEntry, found, Option.map_some, offset]
  split
  · rename_i overflow
    refine ⟨false, data, rfl, ⟨fun success => absurd success (by simp), ?_⟩, fun _ => rfl⟩
    intro fits
    omega
  · rename_i fits
    refine ⟨true, _, rfl, ⟨fun _ => ?_, fun _ => rfl⟩, fun failed => absurd failed (by simp)⟩
    omega

theorem BlobOf.getenv (text : BlobOf data m entries pad) {name : CString} (valid : ValidName name) :
    fwGetenv data name = some (m.lookup name) := by
  have found := scan_value valid text.storable pad
  rw [← text.text] at found
  rw [fwGetenv, found]
  cases present : m.lookup name with
  | some value => rw [lookup_of_distinct text.distinct ((text.entry name value).mp present)]
  | none =>
    have missing : entries.lookup name = none := by
      rw [List.lookup_eq_none_iff]
      intro entry member
      have different : name ≠ entry.1 := by
        rintro rfl
        rw [(text.entry entry.1 entry.2).mpr member] at present
        cases present
      simpa using different
    rw [missing]

end Write

/-- What a write does with the text of a map. -/
structure Updates (policy : FwPolicy) (data : List UInt8) (m : EnvMap) (name value : CString)
    (ok : Bool) (data' : List UInt8) : Prop where
  length : data'.length = data.length
  succeeds : ok = true ↔ Granted policy m name value ∧
    (value ≠ [] → textRoom (m.insert name value) ≤ data.length)
  updated : ok = true → Blob data' (mapWrite m (name, value))
  refused : ¬Granted policy m name value → data' = data
  /-- Without room a variable that is there is removed, and no other. -/
  removed : Granted policy m name value → ok = false → Blob data' (m.erase name)
  kept : m.lookup name = none → ok = false → data' = data

section Update

variable {policy : FwPolicy} {data : List UInt8} {m : EnvMap} {name value : CString}

theorem Blob.getenv (blob : Blob data m) (valid : ValidName name) :
    fwGetenv data name = some (m.lookup name) := by
  obtain ⟨entries, pad, text⟩ := blob.strings
  exact text.getenv valid

theorem Blob.write (blob : Blob data m) (storable : Storable (name, value)) {data' : List UInt8}
    (wrote : fwEnvWrite policy data name value = some (true, data')) :
    Blob data' (mapWrite m (name, value)) ∧ data'.length = data.length := by
  obtain ⟨entries, pad, text⟩ := blob.strings
  obtain ⟨entries', pad', text', length⟩ := text.write storable wrote
  exact ⟨⟨⟨entries', pad', text'⟩, length ▸ blob.ends⟩, length⟩

/-- A write of a variable that is not there. -/
theorem Blob.creates (blob : Blob data m) (storable : Storable (name, value))
    (absent : m.lookup name = none) :
    ∃ ok data', fwEnvWrite policy data name value = some (ok, data') ∧
      Updates policy data m name value ok data' := by
  obtain ⟨entries, pad, text⟩ := blob.strings
  have scanned := text.missing storable.name absent
  by_cases empty : value = []
  · have wrote : fwEnvWrite policy data name value = some (true, data) := by
      simp [fwEnvWrite, scanned, empty]
    have granted : Granted policy m name value := by simp [Granted, absent, empty]
    exact ⟨true, data, wrote, rfl,
      ⟨fun _ => ⟨granted, fun other => absurd empty other⟩, fun _ => rfl⟩,
      fun _ => (blob.write storable wrote).1, fun _ => rfl,
      fun _ failed => absurd failed (by simp), fun _ _ => rfl⟩
  · by_cases prevented : policy.preventCreate name
    · have wrote : fwEnvWrite policy data name value = some (false, data) := by
        simp [fwEnvWrite, scanned, empty, prevented]
      have refused : ¬Granted policy m name value := by simp [Granted, absent, empty, prevented]
      exact ⟨false, data, wrote, rfl, by simp [refused], fun success => absurd success (by simp),
        fun _ => rfl, fun granted => absurd granted refused, fun _ _ => rfl⟩
    · obtain ⟨ok, data', appended, room, kept⟩ := text.appends blob.ends absent value storable
      have wrote : fwEnvWrite policy data name value = some (ok, data') := by
        simp [fwEnvWrite, scanned, empty, prevented, appended]
      have granted : Granted policy m name value := by simp [Granted, absent, prevented]
      refine ⟨ok, data', wrote, ?_⟩
      cases ok with
      | true =>
        obtain ⟨updated, length⟩ := blob.write storable wrote
        exact ⟨length, by simp [granted, empty, ← room], fun _ => updated,
          fun refused => absurd granted refused, fun _ failed => absurd failed (by simp),
          fun _ failed => absurd failed (by simp)⟩
      | false =>
        have same := kept rfl
        subst same
        exact ⟨rfl, by simp [granted, empty, ← room], fun success => absurd success (by simp),
          fun _ => rfl, fun _ _ => (erase_of_absent absent).symm ▸ blob, fun _ _ => rfl⟩

/-- A write of a variable that is there. -/
theorem Blob.changes (blob : Blob data m) (storable : Storable (name, value)) {old : CString}
    (present : m.lookup name = some old) :
    ∃ ok data', fwEnvWrite policy data name value = some (ok, data') ∧
      Updates policy data m name value ok data' := by
  obtain ⟨entries, pad, text⟩ := blob.strings
  obtain ⟨before, after, entries', pad', removedData, scanned, removes, text', length⟩ :=
    text.remove storable.name present
  have removed : Blob removedData (m.erase name) := ⟨⟨entries', pad', text'⟩, length ▸ blob.ends⟩
  have there {P : Prop} : m.lookup name = none → P := by simp [present]
  have unchanged (wrote : fwEnvWrite policy data name value = some (false, data))
      (refused : ¬Granted policy m name value) :
      ∃ ok data', fwEnvWrite policy data name value = some (ok, data') ∧
        Updates policy data m name value ok data' :=
    ⟨false, data, wrote, rfl, by simp [refused], fun success => absurd success (by simp),
      fun _ => rfl, fun granted => absurd granted refused, there⟩
  by_cases empty : value = []
  · by_cases prevented : policy.preventDelete name
    · exact unchanged (by simp [fwEnvWrite, scanned, empty, prevented])
        (by simp [Granted, present, empty, prevented])
    · have wrote : fwEnvWrite policy data name value = some (true, removedData) := by
        simp [fwEnvWrite, scanned, empty, prevented, removes]
      have granted : Granted policy m name value := by simp [Granted, present, empty, prevented]
      exact ⟨true, removedData, wrote, length,
        ⟨fun _ => ⟨granted, fun other => absurd empty other⟩, fun _ => rfl⟩,
        fun _ => (blob.write storable wrote).1, fun refused => absurd granted refused,
        fun _ failed => absurd failed (by simp), there⟩
  · by_cases prevented : policy.preventOverwr name
    · exact unchanged (by simp [fwEnvWrite, scanned, empty, prevented])
        (by simp [Granted, present, empty, prevented])
    · by_cases changed : policy.preventNondefOverwr name ∧ old ≠ (policy.getdefenv name).getD []
      · exact unchanged (by simp [fwEnvWrite, scanned, empty, prevented, changed])
          (by simp [Granted, present, empty, changed])
      · have gone : (m.erase name).lookup name = none := Finmap.lookup_erase ..
        obtain ⟨ok, data', appended, room, kept⟩ :=
          text'.appends removed.ends gone value storable
        rw [insert_erase, length] at room
        have wrote : fwEnvWrite policy data name value = some (ok, data') := by
          simp only [fwEnvWrite, scanned, Option.bind_some, if_neg empty, if_neg prevented,
            if_neg changed, removes, appended]
        have granted : Granted policy m name value := by
          simpa [Granted, present, empty, prevented] using changed
        refine ⟨ok, data', wrote, ?_⟩
        cases ok with
        | true =>
          obtain ⟨updated, length⟩ := blob.write storable wrote
          exact ⟨length, by simp [granted, empty, ← room], fun _ => updated,
            fun refused => absurd granted refused, fun _ failed => absurd failed (by simp), there⟩
        | false =>
          have same := kept rfl
          subst same
          exact ⟨length, by simp [granted, empty, ← room], fun success => absurd success (by simp),
            fun refused => absurd granted refused, fun _ _ => removed, there⟩

end Update

/-! ## What the command does -/

/-- The key and the variable that some arguments give. -/
inductive Gives : List CString → Option (List UInt8) → CString → List CString → Prop where
  | plain {name : CString} {arguments : List CString} (other : name ≠ keyOption) :
      Gives (name :: arguments) none name arguments
  | keyed {text name : CString} {key : List UInt8} {arguments : List CString}
      (parsed : parseAesKey text = some key) :
      Gives (keyOption :: text :: name :: arguments) (some key) name arguments

theorem fwSetenv_stores {tools : FwTools} {argv arguments : List CString}
    {key : Option (List UInt8)} {name : CString} (gives : Gives argv key name arguments)
    {data data' : List UInt8} {ok : Bool} (opened : tools.envOpen key = some data)
    (wrote : fwEnvWrite tools.policy data name (joinArguments arguments) = some (ok, data'))
    {stored : Option (List UInt8)} (returned : fwSetenv tools argv = some (0, stored)) :
    stored = some data' := by
  have ran : fwSetenv tools argv = setVariable tools key (name :: arguments) := by
    cases gives with
    | plain other => simp [fwSetenv, other]
    | keyed parsed => simp [fwSetenv, parsed]
  rw [ran, setVariable, opened] at returned
  dsimp only at returned
  split at returned
  · rw [wrote, Option.map_some, fwEnvClose] at returned
    dsimp only at returned
    split at returned
    · cases returned
    · split at returned
      · cases returned
        rfl
      · cases returned
  · cases returned

/-- A write is an update of the map when the access is given and there is room, and only then does
it succeed. Without the access it changes nothing; without room it has removed the old value. When
the write has succeeded and `fw_setenv` returns 0, the stored text has the requested value. -/
theorem fwEnvWrite_updates (policy : FwPolicy) (data : List UInt8) (m : EnvMap)
    (name value : CString) (blob : Blob data m) (storable : Storable (name, value)) :
    (∃ ok data', fwEnvWrite policy data name value = some (ok, data') ∧
      Updates policy data m name value ok data') ∧
    ∀ (tools : FwTools) (argv arguments : List CString) (key stored : Option (List UInt8))
      (data' : List UInt8), tools.policy = policy → tools.envOpen key = some data →
      Gives argv key name arguments → joinArguments arguments = value →
      fwEnvWrite policy data name value = some (true, data') →
      fwSetenv tools argv = some (0, stored) →
      ∃ text, stored = some text ∧ Blob text (mapWrite m (name, value)) ∧
        fwGetenv text name = some (if value = [] then none else some value) := by
  constructor
  · cases present : m.lookup name with
    | none => exact blob.creates storable present
    | some old => exact blob.changes storable present
  · rintro tools argv arguments key stored data' rfl opened gives rfl wrote returned
    obtain ⟨updated, -⟩ := blob.write storable wrote
    refine ⟨data', fwSetenv_stores gives opened wrote returned, updated, ?_⟩
    rw [updated.getenv storable.name, mapWrite]
    dsimp only
    split
    · rw [Finmap.lookup_erase]
    · rw [Finmap.lookup_insert]

/-- A text of eight bytes with one variable. -/
def shortBlob : List UInt8 := [97, 61, 49, 0, 0, 0, 0, 0]

theorem blob_shortBlob : Blob shortBlob (Finmap.singleton [97] [49]) := by
  refine ⟨⟨[([97], [49])], [0, 0, 0], rfl, fun empty => absurd empty (by simp), ?_, by simp, ?_⟩,
    by decide⟩
  · intro entry member
    rw [List.mem_singleton.mp member]
    exact ⟨by simp [ValidName, equalsSign], by simp⟩
  · intro name value
    rw [List.mem_singleton, Prod.mk.injEq]
    by_cases same : name = [97]
    · rw [same, Finmap.lookup_singleton_eq]
      simp [eq_comm]
    · have absent : (Finmap.singleton [97] [49] : EnvMap).lookup name = none := by
        rw [Finmap.lookup_eq_none, Finmap.mem_singleton]
        exact same
      simp [absent, same]

/-- Tools for a text that allow everything. -/
def openTools (data : List UInt8) : FwTools :=
  ⟨openPolicy, fun _ => some data, fun _ _ => true, fun _ data => some data, fun _ => true⟩

theorem scan_shortBlob : scan [97] shortBlob = some (.entry [] [49] [0, 0, 0, 0]) := by
  have valid : ValidName [97] := by simp [ValidName, equalsSign]
  exact @scan_cons [97] valid ([97], [49]) ⟨valid, by simp⟩ [] [0, 0, 0]

/-- A value of four characters fits into the text, and is stored. -/
theorem fwEnvWrite_updates_short :
    (∃ ok data', fwEnvWrite openPolicy shortBlob [97] [50, 50, 50, 50] = some (ok, data') ∧
      Updates openPolicy shortBlob (Finmap.singleton [97] [49]) [97] [50, 50, 50, 50] ok data') ∧
    ∃ text, (fwSetenv (openTools shortBlob) [[97], [50, 50, 50, 50]]).bind Prod.snd = some text ∧
      fwGetenv text [97] = some (some [50, 50, 50, 50]) := by
  have storable : Storable ([97], [50, 50, 50, 50]) := ⟨by simp [ValidName, equalsSign], by simp⟩
  obtain ⟨wrote, stores⟩ := fwEnvWrite_updates openPolicy shortBlob (Finmap.singleton [97] [49])
    [97] [50, 50, 50, 50] blob_shortBlob storable
  have written : fwEnvWrite openPolicy shortBlob [97] [50, 50, 50, 50] =
      some (true, [97, 61, 50, 50, 50, 50, 0, 0]) := by
    rw [fwEnvWrite, scan_shortBlob]
    rfl
  have returned : fwSetenv (openTools shortBlob) [[97], [50, 50, 50, 50]] =
      some (0, some [97, 61, 50, 50, 50, 50, 0, 0]) := by
    have ran : fwSetenv (openTools shortBlob) [[97], [50, 50, 50, 50]] =
      (fwEnvWrite openPolicy shortBlob [97] [50, 50, 50, 50]).map fun done =>
        fwEnvClose (openTools shortBlob) none done.2 := rfl
    rw [ran, written]
    rfl
  obtain ⟨text, stored, -, read⟩ := stores (openTools shortBlob) [[97], [50, 50, 50, 50]]
    [[50, 50, 50, 50]] none _ _ rfl rfl (.plain (by decide)) rfl written returned
  refine ⟨wrote, text, ?_, read⟩
  rw [returned, ← stored]
  rfl

/-- One character more does not. The write fails and the text is changed; `fw_setenv` stores that
and returns 0. -/
theorem fwEnvWrite_changes_text :
    Blob shortBlob (Finmap.singleton [97] [49]) ∧ Storable ([97], [50, 50, 50, 50, 50]) ∧
    ∃ data', fwEnvWrite openPolicy shortBlob [97] [50, 50, 50, 50, 50] = some (false, data') ∧
      data' ≠ shortBlob ∧
      fwSetenv (openTools shortBlob) [[97], [50, 50, 50, 50, 50]] = some (0, some data') ∧
      fwGetenv data' [97] = some none := by
  have written : fwEnvWrite openPolicy shortBlob [97] [50, 50, 50, 50, 50] =
      some (false, [0, 0, 49, 0, 0, 0, 0, 0]) := by
    rw [fwEnvWrite, scan_shortBlob]
    rfl
  have ran : fwSetenv (openTools shortBlob) [[97], [50, 50, 50, 50, 50]] =
      (fwEnvWrite openPolicy shortBlob [97] [50, 50, 50, 50, 50]).map fun done =>
        fwEnvClose (openTools shortBlob) none done.2 := rfl
  have read : scan [97] (rawText [] [0, 49, 0, 0, 0, 0, 0]) = some .missing := scan_nil ..
  refine ⟨blob_shortBlob, ⟨by simp [ValidName, equalsSign], by simp⟩, _, written, by decide, ?_, ?_⟩
  · rw [ran, written]
    rfl
  · rw [fwGetenv]
    exact congrArg (Option.map Found.value) read

end HrppBoot.Env
