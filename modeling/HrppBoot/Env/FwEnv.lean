import HrppBoot.Env.Scan

/-!
# The environment tools of the host

`tools/env/fw_env.c` reads and changes the stored text without a hash table. `fw_getenv` takes a
value as it stands in the text, and `fw_env_write` puts it there as it was given; neither knows
escapes. The boot loader writes a backslash before each backslash of a value, and takes one as an
escape when it imports the text. So the two agree on values without backslashes only;
`environments_agree` has the exact conditions, in both directions.

What `env_flags_validate_varaccess` and the default environment say about a variable are parameters.
-/

namespace HrppBoot.Env

/-! ## Reading and writing -/

def fwGetenv (data : List UInt8) (name : CString) : Option (Option CString) :=
  (scan name data).map Found.value

/-- What the tools know about access to variables. -/
structure FwPolicy where
  /-- `ENV_FLAGS_VARACCESS_PREVENT_DELETE` is set. -/
  preventDelete : CString → Bool
  /-- `ENV_FLAGS_VARACCESS_PREVENT_CREATE` is set. -/
  preventCreate : CString → Bool
  /-- `ENV_FLAGS_VARACCESS_PREVENT_OVERWR` is set. -/
  preventOverwr : CString → Bool
  /-- `ENV_FLAGS_VARACCESS_PREVENT_NONDEF_OVERWR` is set. -/
  preventNondefOverwr : CString → Bool
  /-- `fw_getdefenv` -/
  getdefenv : CString → Option CString

/-- The bytes up to the first NUL that another one follows. -/
def upToEnd : List UInt8 → Option (List UInt8)
  | [] => none
  | [_] => none
  | c :: next :: rest =>
    if c = 0 ∧ next = 0 then some [c] else (upToEnd (next :: rest)).map (c :: ·)

/-- Bytes written over the data from an offset on. -/
def overwrite (data : List UInt8) (offset : Nat) (bytes : List UInt8) : List UInt8 :=
  data.take offset ++ bytes ++ data.drop (offset + bytes.length)

/-- Delete the entry behind `before`: what follows it is moved to its place. -/
def removeEntry (data before : List UInt8) : List UInt8 → Option (List UInt8)
  | [] => none
  | c :: after =>
    if c = 0 then some (overwrite data before.length [0, 0])
    else (upToEnd (c :: after)).map fun moved => overwrite data before.length (moved ++ [0])

/-- Append a new definition at the end, if there is room for it. -/
def appendEntry (data : List UInt8) (name value : CString) : Option (Bool × List UInt8) :=
  (upToEnd data).map fun strings =>
    let env := if strings.length - 1 > 0 then strings.length else 0
    let len := name.length + 2 + (value.length + 1)
    if len > data.length - env then (false, data)
    else (true, overwrite data env (name ++ equalsSign :: (value ++ [0, 0])))

/-- `fw_env_write`: whether it succeeds, and the data. An empty value stands for no value, too. -/
def fwEnvWrite (policy : FwPolicy) (data : List UInt8) (name value : CString) :
    Option (Bool × List UInt8) :=
  (scan name data).bind fun
    | .missing =>
      if value = [] then some (true, data)
      else if policy.preventCreate name then some (false, data)
      else appendEntry data name value
    | .entry before oldval after =>
      if value = [] then
        if policy.preventDelete name then some (false, data)
        else (removeEntry data before after).map fun data => (true, data)
      else if policy.preventOverwr name then some (false, data)
      else if policy.preventNondefOverwr name ∧ oldval ≠ (policy.getdefenv name).getD [] then
        some (false, data)
      else (removeEntry data before after).bind fun data => appendEntry data name value

/-- The data after some writes, if they all succeed. -/
def fwBuild (policy : FwPolicy) (data : List UInt8) : List (CString × CString) →
    Option (List UInt8)
  | [] => some data
  | (name, value) :: writes =>
    match fwEnvWrite policy data name value with
    | some (true, data) => fwBuild policy data writes
    | _ => none

/-- What a write says about the variables. -/
def mapWrite (m : EnvMap) (write : CString × CString) : EnvMap :=
  if write.2 = [] then m.erase write.1 else m.insert write.1 write.2

/-- The variables that some writes leave behind. -/
def writtenMap (writes : List (CString × CString)) : EnvMap := writes.foldl mapWrite ∅

/-! ## The text is kept well formed -/

/-- The data is the text of the variables of the map. -/
structure TextOf (data : List UInt8) (m : EnvMap) (entries : List (CString × CString))
    (pad : List UInt8) : Prop where
  text : data = rawText entries pad
  ends : EndsText entries pad
  storable : ∀ entry ∈ entries, Storable entry
  distinct : (entries.map Prod.fst).Nodup
  values : ∀ entry ∈ entries, entry.2 ≠ []
  entry : ∀ name value, m.lookup name = some value ↔ (name, value) ∈ entries

/-- The same of a text whose values may be empty. -/
structure BlobOf (data : List UInt8) (m : EnvMap) (entries : List (CString × CString))
    (pad : List UInt8) : Prop where
  text : data = rawText entries pad
  ends : EndsText entries pad
  storable : ∀ entry ∈ entries, Storable entry
  distinct : (entries.map Prod.fst).Nodup
  entry : ∀ name value, m.lookup name = some value ↔ (name, value) ∈ entries

theorem TextOf.blob {data : List UInt8} {m : EnvMap} {entries : List (CString × CString)}
    {pad : List UInt8} (text : TextOf data m entries pad) : BlobOf data m entries pad :=
  ⟨text.text, text.ends, text.storable, text.distinct, text.entry⟩

theorem rawEntry_cons {entry : CString × CString} (storable : Storable entry) :
    ∃ c tail, rawEntry entry = c :: tail ∧ c ≠ 0 ∧ tail ≠ [] := by
  obtain ⟨name, value⟩ := entry
  cases name with
  | nil => exact ⟨equalsSign, value ++ [0], rfl, by decide, by simp⟩
  | cons c name =>
    exact ⟨c, name ++ equalsSign :: (value ++ [0]), rfl, (storable.name c (by simp)).2, by simp⟩

theorem upToEnd_append {string : List UInt8} (chars : ∀ c ∈ string, c ≠ 0) (next : UInt8)
    (rest : List UInt8) :
    upToEnd (string ++ next :: rest) = (upToEnd (next :: rest)).map (string ++ ·) := by
  induction string with
  | nil => simp
  | cons c string ih =>
    have nonzero : c ≠ 0 := chars c (List.mem_cons_self ..)
    have rest' := ih fun c' member => chars c' (List.mem_cons_of_mem _ member)
    cases string with
    | nil => simp [upToEnd, nonzero]
    | cons d string =>
      simp only [List.cons_append] at rest' ⊢
      rw [upToEnd, if_neg (fun both => nonzero both.1), rest', Option.map_map]
      rfl

theorem upToEnd_rawText {entries : List (CString × CString)} (nonempty : entries ≠ [])
    (storable : ∀ entry ∈ entries, Storable entry) (pad : List UInt8) :
    upToEnd (rawText entries pad) = some (entries.flatMap rawEntry) := by
  induction entries with
  | nil => exact absurd rfl nonempty
  | cons entry entries ih =>
    rw [rawText_string, upToEnd_append (storable entry (List.mem_cons_self ..)).chars]
    by_cases ends : entries = []
    · subst ends
      simp [rawText, upToEnd, rawEntry]
    · have others : ∀ other ∈ entries, Storable other := fun other member =>
        storable other (List.mem_cons_of_mem _ member)
      have rest := ih ends others
      cases entries with
      | nil => exact absurd rfl ends
      | cons next entries =>
        obtain ⟨c, tail, first, nonzero, -⟩ := rawEntry_cons (others next (List.mem_cons_self ..))
        rw [rawText_cons, first, List.cons_append] at rest ⊢
        rw [upToEnd, if_neg (fun both => nonzero both.2), rest]
        simp [rawEntry]

theorem overwrite_append (before rest bytes : List UInt8) :
    overwrite (before ++ rest) before.length bytes = before ++ bytes ++ rest.drop bytes.length := by
  simp [overwrite, List.drop_append]

theorem length_overwrite {data bytes : List UInt8} {offset : Nat}
    (inside : offset + bytes.length ≤ data.length) :
    (overwrite data offset bytes).length = data.length := by
  simp only [overwrite, List.length_append, List.length_take, List.length_drop]
  omega

theorem rawText_append (before : List (CString × CString)) (entry : CString × CString)
    (after : List (CString × CString)) (pad : List UInt8) :
    rawText (before ++ entry :: after) pad =
      before.flatMap rawEntry ++ (rawEntry entry ++ rawText after pad) := by
  simp [rawText]

/-- Deleting an entry from the text. -/
theorem removeEntry_rawText {before after : List (CString × CString)} {entry : CString × CString}
    (storable : ∀ other ∈ before ++ entry :: after, Storable other) (pad : List UInt8) :
    ∃ pad', removeEntry (rawText (before ++ entry :: after) pad) (before.flatMap rawEntry)
        (rawText after pad) = some (rawText (before ++ after) pad') ∧
      EndsText (before ++ after) pad' ∧
      (rawText (before ++ after) pad').length = (rawText (before ++ entry :: after) pad).length := by
  obtain ⟨c, tail, own, -, more⟩ := rawEntry_cons (storable entry (by simp))
  have longer : 2 ≤ (rawEntry entry).length := by
    have := List.length_pos_iff.mpr more
    rw [own, List.length_cons]
    omega
  cases after with
  | nil =>
    have written : overwrite (rawText (before ++ [entry]) pad) (before.flatMap rawEntry).length
        [0, 0] = rawText (before ++ []) (0 :: (rawEntry entry ++ rawText [] pad).drop 2) := by
      rw [rawText_append, overwrite_append]
      simp [rawText]
    refine ⟨0 :: (rawEntry entry ++ rawText [] pad).drop 2, ?_, fun _ => .inr rfl, ?_⟩
    · rw [← written]
      simp [removeEntry, rawText]
    · rw [← written, length_overwrite]
      rw [rawText_append]
      simp only [List.length_append, List.length_cons, List.length_nil]
      omega
  | cons next after =>
    have others : ∀ other ∈ next :: after, Storable other := fun other member =>
      storable other (by simp [List.mem_cons.mp member])
    have moved := upToEnd_rawText (List.cons_ne_nil next after) others pad
    obtain ⟨d, tail', first, nonzero, -⟩ := rawEntry_cons (others next (List.mem_cons_self ..))
    have written : overwrite (rawText (before ++ entry :: next :: after) pad)
        (before.flatMap rawEntry).length ((next :: after).flatMap rawEntry ++ [0]) =
        rawText (before ++ next :: after) ((rawEntry entry ++ rawText (next :: after) pad).drop
          ((next :: after).flatMap rawEntry ++ [0]).length) := by
      rw [rawText_append, overwrite_append]
      simp [rawText]
    refine ⟨(rawEntry entry ++ rawText (next :: after) pad).drop
      ((next :: after).flatMap rawEntry ++ [0]).length, ?_, fun empty => absurd empty (by simp), ?_⟩
    · rw [← written]
      rw [rawText_cons, first, List.cons_append] at moved ⊢
      simp [removeEntry, nonzero, moved]
    · rw [← written, length_overwrite]
      rw [rawText_append]
      simp only [rawText, List.length_append, List.length_cons, List.length_nil]
      omega

theorem appendEntry_offset {entries : List (CString × CString)} {pad strings : List UInt8}
    (ends : EndsText entries pad) (storable : ∀ entry ∈ entries, Storable entry)
    (found : upToEnd (rawText entries pad) = some strings) :
    (if strings.length - 1 > 0 then strings.length else 0) =
      (entries.flatMap rawEntry).length := by
  by_cases empty : entries = []
  · subst empty
    cases pad with
    | nil => simp [rawText, upToEnd] at found
    | cons c pad =>
      have zero : c = 0 := by simpa [EndsText] using ends
      have single : strings = [0] := by simpa [rawText, upToEnd, zero, eq_comm] using found
      simp [single]
  · rw [upToEnd_rawText empty storable] at found
    cases found
    cases entries with
    | nil => exact absurd rfl empty
    | cons entry entries =>
      obtain ⟨c, tail, first, -, more⟩ := rawEntry_cons (storable entry (List.mem_cons_self ..))
      have longer := List.length_pos_iff.mpr more
      rw [if_pos]
      rw [List.flatMap_cons, first, List.length_append, List.length_cons]
      omega

variable {value : CString}

theorem appendEntry_rawText {entries : List (CString × CString)} {pad data : List UInt8}
    {name : CString} (ends : EndsText entries pad) (storable : ∀ entry ∈ entries, Storable entry)
    (appended : appendEntry (rawText entries pad) name value = some (true, data)) :
    ∃ pad', data = rawText (entries ++ [(name, value)]) pad' ∧
      data.length = (rawText entries pad).length := by
  have bytes : name ++ equalsSign :: (value ++ [0, 0]) = rawEntry (name, value) ++ [0] := by
    simp [rawEntry]
  obtain ⟨strings, found, written⟩ := Option.map_eq_some_iff.mp appended
  have offset := appendEntry_offset ends storable found
  rw [bytes] at written
  simp only [offset] at written
  split at written
  · cases written
  · rename_i room
    cases written
    have total : (rawText entries pad).length =
        (entries.flatMap rawEntry).length + (pad.length + 1) := by
      simp [rawText]
    refine ⟨(0 :: pad).drop (rawEntry (name, value) ++ [0]).length, ?_, ?_⟩
    · rw [rawText, overwrite_append]
      simp [rawText]
    · rw [length_overwrite]
      simp only [rawEntry, List.length_append, List.length_cons, List.length_nil]
      omega

section Write

variable {data : List UInt8} {m : EnvMap} {entries : List (CString × CString)} {pad : List UInt8}

variable {name value : CString} {data' : List UInt8} {policy : FwPolicy}

theorem BlobOf.place (text : BlobOf data m entries pad) {old : CString}
    (present : m.lookup name = some old) :
    ∃ before after, entries = before ++ (name, old) :: after ∧
      ∀ entry ∈ before ++ after, name ≠ entry.1 := by
  obtain ⟨before, after, split⟩ := List.append_of_mem ((text.entry name old).mp present)
  have distinct := text.distinct
  rw [split, List.map_append, List.map_cons, List.nodup_middle, List.nodup_cons] at distinct
  refine ⟨before, after, split, ?_⟩
  intro entry member same
  have among : entry.1 ∈ (before ++ after).map Prod.fst := List.mem_map_of_mem member
  rw [List.map_append, ← same] at among
  exact distinct.1 among

/-- Deleting a variable of the map. -/
theorem BlobOf.remove (text : BlobOf data m entries pad) {old : CString} (valid : ValidName name)
    (present : m.lookup name = some old) :
    ∃ before after entries' pad' data', scan name data = some (.entry before old after) ∧
      removeEntry data before after = some data' ∧ BlobOf data' (m.erase name) entries' pad' ∧
      data'.length = data.length := by
  obtain ⟨before, after, split, others⟩ := text.place present
  obtain ⟨rfl, ends, storable, distinct, entry⟩ := text
  subst split
  obtain ⟨pad', removed, ends', length⟩ := removeEntry_rawText storable pad
  have kept : ∀ other ∈ before ++ after, other ∈ before ++ (name, old) :: after := by
    intro other member
    rw [List.mem_append, List.mem_cons]
    rcases List.mem_append.mp member with left | right
    · exact .inl left
    · exact .inr (.inr right)
  refine ⟨_, _, before ++ after, pad', _, ?_, removed, ⟨rfl, ends', ?_, ?_, ?_⟩, length⟩
  · exact scan_split valid storable
      (fun other member => others other (List.mem_append_left _ member)) pad
  · exact fun other member => storable other (kept other member)
  · rw [List.map_append, List.map_cons, List.nodup_middle] at distinct
    rw [List.map_append]
    exact (List.nodup_cons.mp distinct).2
  · intro other value
    by_cases same : other = name
    · rw [same, Finmap.lookup_erase]
      constructor
      · intro found
        cases found
      · intro member
        exact absurd rfl (others _ member)
    · rw [Finmap.lookup_erase_ne same, entry]
      constructor
      · intro member
        rcases List.mem_append.mp member with left | right
        · exact List.mem_append_left _ left
        · rcases List.mem_cons.mp right with own | behind
          · exact absurd (congrArg Prod.fst own) same
          · exact List.mem_append_right _ behind
      · exact fun member => kept _ member

theorem BlobOf.extend (text : BlobOf data m entries pad) (storable : Storable (name, value))
    (absent : m.lookup name = none) (pad' : List UInt8) :
    BlobOf (rawText (entries ++ [(name, value)]) pad') (m.insert name value)
      (entries ++ [(name, value)]) pad' := by
  obtain ⟨-, -, storables, distinct, entry⟩ := text
  refine ⟨rfl, fun empty => absurd empty (by simp), ?_, ?_, ?_⟩
  · intro other member
    rcases List.mem_append.mp member with old | new
    · exact storables other old
    · rw [List.mem_singleton.mp new]
      exact storable
  · rw [List.map_append, List.nodup_append]
    refine ⟨distinct, by simp, ?_⟩
    intro other member new isNew same
    obtain ⟨⟨other', value'⟩, among, rfl⟩ := List.mem_map.mp member
    rw [List.map_singleton, List.mem_singleton] at isNew
    have found := (entry other' value').mpr among
    have here : other' = name := same.trans isNew
    rw [here, absent] at found
    cases found
  · intro other value'
    rw [List.mem_append, List.mem_singleton, Prod.mk.injEq]
    by_cases same : other = name
    · rw [same, Finmap.lookup_insert, ← entry name value', absent]
      simp [eq_comm]
    · rw [Finmap.lookup_insert_of_ne _ same, entry]
      simp [same]

theorem BlobOf.append (text : BlobOf data m entries pad) (storable : Storable (name, value))
    (absent : m.lookup name = none) (appended : appendEntry data name value = some (true, data')) :
    ∃ entries' pad', BlobOf data' (m.insert name value) entries' pad' ∧
      data'.length = data.length := by
  have same := text.text
  subst same
  obtain ⟨pad', rfl, length⟩ := appendEntry_rawText text.ends text.storable appended
  exact ⟨entries ++ [(name, value)], pad', text.extend storable absent pad', length⟩

theorem BlobOf.missing (text : BlobOf data m entries pad) (valid : ValidName name)
    (absent : m.lookup name = none) :
    scan name data = some .missing := by
  have found := scan_value valid text.storable pad
  have missing : entries.lookup name = none := by
    rw [List.lookup_eq_none_iff]
    intro entry member
    have : name ≠ entry.1 := by
      rintro rfl
      rw [(text.entry entry.1 entry.2).mpr member] at absent
      cases absent
    simpa using this
  rw [missing, ← text.text] at found
  obtain ⟨place, scanned, value⟩ := Option.map_eq_some_iff.mp found
  cases place with
  | missing => exact scanned
  | entry before old after => cases value

theorem erase_of_absent (absent : m.lookup name = none) : m.erase name = m := by
  apply Finmap.ext_lookup
  intro other
  by_cases own : other = name
  · rw [own, Finmap.lookup_erase, absent]
  · rw [Finmap.lookup_erase_ne own]

theorem insert_erase (m : EnvMap) (name value : CString) :
    (m.erase name).insert name value = m.insert name value := by
  apply Finmap.ext_lookup
  intro other
  by_cases own : other = name
  · rw [own, Finmap.lookup_insert, Finmap.lookup_insert]
  · rw [Finmap.lookup_insert_of_ne _ own, Finmap.lookup_insert_of_ne _ own,
      Finmap.lookup_erase_ne own]

/-- A write that succeeds changes the text as the map. -/
theorem BlobOf.write (text : BlobOf data m entries pad) (storable : Storable (name, value))
    (wrote : fwEnvWrite policy data name value = some (true, data')) :
    ∃ entries' pad', BlobOf data' (mapWrite m (name, value)) entries' pad' ∧
      data'.length = data.length := by
  unfold fwEnvWrite at wrote
  unfold mapWrite
  cases present : m.lookup name with
  | none =>
    rw [text.missing storable.name present, Option.bind_some] at wrote
    by_cases empty : value = []
    · simp only [empty, ↓reduceIte, Option.some.injEq, Prod.mk.injEq, true_and] at wrote
      rw [if_pos empty, erase_of_absent present, ← wrote]
      exact ⟨entries, pad, text, rfl⟩
    · simp only [empty, ↓reduceIte] at wrote
      split at wrote
      · cases wrote
      · rw [if_neg empty]
        exact text.append storable present wrote
  | some old =>
    obtain ⟨before, after, entries', pad', removed, scanned, removes, text', length⟩ :=
      text.remove storable.name present
    rw [scanned, Option.bind_some] at wrote
    by_cases empty : value = []
    · simp only [empty, ↓reduceIte] at wrote
      split at wrote
      · cases wrote
      · rw [removes] at wrote
        cases wrote
        rw [if_pos empty]
        exact ⟨entries', pad', text', length⟩
    · simp only [empty, ↓reduceIte] at wrote
      split at wrote
      · cases wrote
      · split at wrote
        · cases wrote
        · rw [removes, Option.bind_some] at wrote
          have gone : (m.erase name).lookup name = none := Finmap.lookup_erase ..
          obtain ⟨entriesLast, padLast, textLast, lengthLast⟩ :=
            text'.append storable gone wrote
          rw [if_neg empty, ← insert_erase]
          exact ⟨entriesLast, padLast, textLast, lengthLast.trans length⟩

theorem mapWrite_values (values : ∀ key data, m.lookup key = some data → data ≠ [])
    {key data : CString} (present : (mapWrite m (name, value)).lookup key = some data) :
    data ≠ [] := by
  rw [mapWrite] at present
  dsimp only at present
  by_cases own : key = name
  · subst own
    split at present
    · rw [Finmap.lookup_erase] at present
      cases present
    · rename_i nonempty
      rw [Finmap.lookup_insert] at present
      cases present
      exact nonempty
  · split at present
    · rw [Finmap.lookup_erase_ne own] at present
      exact values key data present
    · rw [Finmap.lookup_insert_of_ne _ own] at present
      exact values key data present

theorem TextOf.write (text : TextOf data m entries pad) (storable : Storable (name, value))
    (wrote : fwEnvWrite policy data name value = some (true, data')) :
    ∃ entries' pad', TextOf data' (mapWrite m (name, value)) entries' pad' ∧
      data'.length = data.length := by
  obtain ⟨entries', pad', blob, length⟩ := text.blob.write storable wrote
  have values : ∀ key data, m.lookup key = some data → data ≠ [] := by
    intro key data present
    exact text.values _ ((text.entry key data).mp present)
  refine ⟨entries', pad', ⟨blob.text, blob.ends, blob.storable, blob.distinct, ?_, blob.entry⟩,
    length⟩
  intro entry member
  exact mapWrite_values values ((blob.entry entry.1 entry.2).mpr member)

theorem TextOf.build (text : TextOf data m entries pad) {writes : List (CString × CString)}
    (storable : ∀ write ∈ writes, Storable write) (built : fwBuild policy data writes = some data')
    :
    ∃ entries' pad', TextOf data' (writes.foldl mapWrite m) entries' pad' ∧
      data'.length = data.length := by
  induction writes generalizing data m entries pad with
  | nil =>
    cases built
    exact ⟨entries, pad, text, rfl⟩
  | cons write writes ih =>
    obtain ⟨name, value⟩ := write
    rw [fwBuild] at built
    split at built
    · rename_i next wrote
      obtain ⟨entries', pad', text', length⟩ :=
        text.write (storable _ (List.mem_cons_self ..)) wrote
      obtain ⟨entriesLast, padLast, textLast, lengthLast⟩ := ih text'
        (fun other member => storable other (List.mem_cons_of_mem _ member)) built
      exact ⟨entriesLast, padLast, textLast, lengthLast.trans length⟩
    · cases built

theorem TextOf.known (text : TextOf data m entries pad) (name : CString) :
    entries.foldl knownAfter (fun _ => none) name = (m.lookup name).bind importedValue := by
  rw [foldl_knownAfter]
  cases present : m.lookup name with
  | some value =>
    have distinct : (entries.reverse.map Prod.fst).Nodup := by
      rw [List.map_reverse, List.nodup_reverse]
      exact text.distinct
    have member := (text.entry name value).mp present
    rw [lookup_of_distinct distinct (List.mem_reverse.mpr member)]
    rfl
  | none =>
    have missing : entries.reverse.lookup name = none := by
      rw [List.lookup_eq_none_iff]
      intro entry member
      have different : name ≠ entry.1 := by
        rintro rfl
        rw [(text.entry entry.1 entry.2).mpr (List.mem_reverse.mp member)] at present
        cases present
      simpa using different
    rw [missing]
    rfl

theorem TextOf.importedValue_eq (text : TextOf data m entries pad)
    (present : m.lookup name = some value) :
    importedValue value = some value ↔ backslash ∉ value.dropLast := by
  have nonempty := text.values _ ((text.entry name value).mp present)
  rw [importedValue, if_neg nonempty, Option.some.injEq]
  exact unescape_eq_self value

/-- The boot loader imports the text of the tools as it is exactly when its table has a bucket for
every variable, it takes every name as it is, and no value has a backslash but as its last
character. -/
theorem TextOf.imports_iff (text : TextOf data m entries pad) :
    (∃ after, himportR none data 0 false false [] = some (true, some after) ∧
      ∀ name, getenv after name = some (m.lookup name)) ↔
    m.keys.card ≤ tableSize (importEntries data.length) ∧
      ∀ name value, m.lookup name = some value → ImportName name ∧ backslash ∉ value.dropLast := by
  obtain ⟨new, created, newSize, low, -⟩ := hcreateR_import data.length
  have rep := hcreateR_represents created
  constructor
  · rintro ⟨after, imported, same⟩
    obtain ⟨intact, size⟩ := himportR_intact imported
    have live {name value : CString} (present : m.lookup name = some value) :
        Live after name value :=
      ((intact.getenv_eq name _).mp (same name) value).mp present
    have names {name value : CString} (present : m.lookup name = some value) : ImportName name :=
      himportR_names imported (live present)
    constructor
    · rw [← size]
      apply intact.card_le
      intro name member
      obtain ⟨value, present⟩ := Finmap.mem_iff.mp (Finmap.mem_keys.mp member)
      exact ⟨value, live present⟩
    · intro name value present
      refine ⟨names present, ?_⟩
      obtain ⟨last, ran, -⟩ := runTable_intact created (entries.map rawOp)
      have importable : ∀ entry ∈ entries, ImportName entry.1 := fun entry member =>
        names ((text.entry entry.1 entry.2).mpr member)
      have again : himportR none data 0 false false [] = some (true, some last) := by
        rw [text.text] at created ⊢
        exact himportR_rawText text.ends text.storable importable created ran
      cases imported.symm.trans again
      have blank : ∀ name value, Live new name value → none = some value := by
        intro name value here
        rw [← rep.entries] at here
        simp at here
      have known := rep.toIntact.live_runTable (by omega) ran blank name value (live present)
      rw [text.known, present, Option.bind_some] at known
      exact (text.importedValue_eq present).mp known
  · rintro ⟨room, fine⟩
    have importable : ∀ entry ∈ entries, ImportName entry.1 := fun entry member =>
      (fine _ _ ((text.entry entry.1 entry.2).mpr member)).1
    have own : ∀ entry ∈ entries, entry.1 ∈ m.keys := by
      intro entry member
      have present := (text.entry entry.1 entry.2).mpr member
      exact Finmap.mem_keys.mpr (Finmap.mem_of_lookup_eq_some present)
    obtain ⟨last, m', ran, rep', lookup⟩ := rep.rawRun
      (rep.safeRun_enters (hcreateR_fresh created) text.values) (by simp) own (newSize ▸ room)
    refine ⟨last, ?_, ?_⟩
    · rw [text.text] at created ⊢
      exact himportR_rawText text.ends text.storable importable created ran
    · intro name
      rw [rep'.toIntact.getenv_eq]
      intro value
      rw [← rep'.entries]
      have known : m'.lookup name = (m.lookup name).bind importedValue := by
        rw [← text.known name]
        exact congrFun lookup name
      rw [known]
      cases present : m.lookup name with
      | none => rfl
      | some stored =>
        rw [Option.bind_some, (text.importedValue_eq present).mpr (fine name stored present).2]

end Write

/-! ## The text of the boot loader -/

/-- The entries of a table with the escapes that the boot loader writes. -/
def exportedEntries (htab : HsearchData) : List (CString × CString) :=
  (allEntries htab).map fun entry => (entry.1, escape 0 entry.2)

theorem flatMap_encodeEntry (htab : HsearchData) (pad : List UInt8) :
    (allEntries htab).flatMap (encodeEntry 0) ++ 0 :: pad = rawText (exportedEntries htab) pad := by
  rw [rawText, exportedEntries, List.flatMap_map]
  rfl

theorem escape_eq_self (chars : ∀ c ∈ value, c ≠ 0) :
    escape 0 value = value ↔ backslash ∉ value := by
  constructor
  · intro same member
    have lengths := congrArg List.length same
    rw [length_escape] at lengths
    have escaped : 0 < value.countP fun c => Escaped 0 c :=
      List.countP_pos_iff.mpr ⟨backslash, member, by simp [Escaped]⟩
    omega
  · intro plain
    induction value with
    | nil => rfl
    | cons c value ih =>
      have nonzero : c ≠ 0 := chars c (List.mem_cons_self ..)
      have notBackslash : c ≠ backslash := by
        rintro rfl
        exact plain (List.mem_cons_self ..)
      have rest := ih (fun c' member => chars c' (List.mem_cons_of_mem _ member))
        fun member => plain (List.mem_cons_of_mem _ member)
      have notEscaped : ¬Escaped 0 c := not_or.mpr ⟨nonzero, notBackslash⟩
      rw [escape, List.flatMap_cons, if_neg notEscaped, ← escape, rest]
      rfl

theorem escape_chars (chars : ∀ c ∈ value, c ≠ 0) :
    ∀ c ∈ escape 0 value, c ≠ 0 := by
  intro c member
  obtain ⟨original, among, written⟩ := List.mem_flatMap.mp member
  split at written
  · rcases List.mem_cons.mp written with rfl | same
    · decide
    · rw [List.mem_singleton.mp same]
      exact chars original among
  · rw [List.mem_singleton.mp written]
    exact chars original among

section Exported

variable {htab : HsearchData} (intact : Intact htab)
include intact

theorem Intact.mem_allEntries (name value : CString) :
    (name, value) ∈ allEntries htab ↔ Live htab name value :=
  (allEntries_perm htab).mem_iff.trans (mem_tableEntries intact name value)

/-- `fw_getenv` finds in it what `hexport_r` made of the values. -/
theorem Intact.fwGetenv_exported (storable : ∀ key data, Live htab key data → Storable (key, data))
    (pad : List UInt8) {name : CString} (valid : ValidName name) :
    (∀ value, Live htab name value →
      fwGetenv (rawText (exportedEntries htab) pad) name = some (some (escape 0 value))) ∧
    ((∀ value, ¬Live htab name value) →
      fwGetenv (rawText (exportedEntries htab) pad) name = some none) := by
  have storables : ∀ entry ∈ exportedEntries htab, Storable entry := by
    intro entry member
    obtain ⟨⟨key, data⟩, among, rfl⟩ := List.mem_map.mp member
    have own := storable key data ((intact.mem_allEntries key data).mp among)
    exact ⟨own.name, escape_chars own.value⟩
  have found := scan_value valid storables pad
  constructor
  · intro value live
    have distinct : ((exportedEntries htab).map Prod.fst).Nodup := by
      rw [exportedEntries, List.map_map]
      exact ((allEntries_perm htab).map Prod.fst).nodup_iff.mpr (tableEntries_distinct intact)
    have member : (name, escape 0 value) ∈ exportedEntries htab :=
      List.mem_map.mpr ⟨(name, value), (intact.mem_allEntries name value).mpr live, rfl⟩
    rw [fwGetenv, found, lookup_of_distinct distinct member]
  · intro nowhere
    have missing : (exportedEntries htab).lookup name = none := by
      rw [List.lookup_eq_none_iff]
      intro entry member
      obtain ⟨⟨key, data⟩, among, rfl⟩ := List.mem_map.mp member
      have live := (intact.mem_allEntries key data).mp among
      have different : name ≠ key := by
        rintro rfl
        exact nowhere data live
      simpa using different
    rw [fwGetenv, found, missing]

/-- The tools read every variable that the boot loader exported as it is there exactly when no
value has a backslash. -/
theorem Intact.exports_iff (storable : ∀ key data, Live htab key data → Storable (key, data))
    {size : Nat} (accepted : totlen 0 (allEntries htab) < size) :
    (∃ text, hexportR htab 0 (fun _ _ => true) size = .text text ∧
      ∀ name, ValidName name → ∃ answer, fwGetenv text name = some answer ∧
        getenv htab name = some answer) ↔
    ∀ key data, Live htab key data → backslash ∉ data := by
  have large : ¬size < totlen 0 (allEntries htab) + 1 := by omega
  have positive : size ≠ 0 := by omega
  have room : bufferSize htab 0 size = size := if_pos positive
  constructor
  · rintro ⟨text, exported, same⟩ key data live
    have fits : textLength htab 0 ≤ bufferSize htab 0 size := by
      by_contra overrun
      rw [room, textLength, allEntries] at overrun
      unfold allEntries at large
      simp only [hexportR, large, and_false, List.length_append, List.length_singleton, positive,
        ne_eq, not_false_eq_true, ↓reduceIte, if_neg overrun] at exported
      cases exported
    obtain ⟨zeros, exported', -⟩ := hexportR_text (.inr accepted) fun _ => fits
    rw [flatMap_encodeEntry] at exported'
    cases exported.symm.trans exported'
    have own := storable key data live
    obtain ⟨answer, read, held⟩ := same key own.name
    have escaped := (intact.fwGetenv_exported storable (List.replicate zeros 0) own.name).1 data live
    cases escaped.symm.trans read
    have stays := ((intact.getenv_eq key _).mp held data).mpr live
    exact (escape_eq_self own.value).mp (Option.some.inj stays)
  · intro plain
    have kept {key data : CString} (live : Live htab key data) : escape 0 data = data :=
      (escape_eq_self (storable key data live).value).mpr (plain key data live)
    have fits : textLength htab 0 ≤ bufferSize htab 0 size := by
      have counted : ((allEntries htab).flatMap (encodeEntry 0)).length ≤
          totlen 0 (allEntries htab) := by
        apply length_flatMap_encodeEntry
        intro entry member
        have same := kept ((intact.mem_allEntries entry.1 entry.2).mp member)
        simp only [encodeEntry, entryRoom, ↓reduceIte, List.length_append, List.length_cons,
          List.length_nil, same]
        omega
      rw [room, textLength]
      omega
    obtain ⟨zeros, exported, -⟩ := hexportR_text (.inr accepted) fun _ => fits
    rw [flatMap_encodeEntry] at exported
    refine ⟨_, exported, ?_⟩
    intro name valid
    obtain ⟨present, missing⟩ := intact.fwGetenv_exported storable (List.replicate zeros 0) valid
    by_cases there : ∃ value, Live htab name value
    · obtain ⟨value, live⟩ := there
      refine ⟨some value, (present value live).trans (by rw [kept live]), ?_⟩
      rw [intact.getenv_eq]
      intro other
      rw [Option.some.injEq]
      constructor
      · rintro rfl
        exact live
      · intro live'
        have first := present value live
        rw [present other live', kept live, kept live'] at first
        exact (Option.some.inj (Option.some.inj first)).symm
    · have nowhere : ∀ value, ¬Live htab name value := fun value live => there ⟨value, live⟩
      refine ⟨none, missing nowhere, ?_⟩
      rw [intact.getenv_eq]
      simpa using nowhere

end Exported

/-! ## Agreement -/

/-- The boot loader and the tools agree on every variable exactly when no value has a backslash.
From the tools to the boot loader a value may end with one, but every name has to be one that the
loader takes as it is, and its table needs a bucket for each variable. -/
theorem environments_agree (nel size : Nat) (new htab : HsearchData) (ops : List Op)
    (policy : FwPolicy) (pad data : List UInt8) (writes : List (CString × CString))
    (created : hcreateR nel = some new) (ran : runTable new ops = some htab)
    (storable : ∀ key data, Live htab key data → Storable (key, data))
    (accepted : totlen 0 (allEntries htab) < size) (ends : EndsText [] pad)
    (storables : ∀ write ∈ writes, Storable write)
    (built : fwBuild policy (rawText [] pad) writes = some data) :
    ((∃ text, hexportR htab 0 (fun _ _ => true) size = .text text ∧
        ∀ name, ValidName name → ∃ answer, fwGetenv text name = some answer ∧
          getenv htab name = some answer) ↔
      ∀ key data, Live htab key data → backslash ∉ data) ∧
    ((∃ after, himportR none data 0 false false [] = some (true, some after) ∧
        ∀ name, getenv after name = some ((writtenMap writes).lookup name)) ↔
      (writtenMap writes).keys.card ≤ tableSize (importEntries data.length) ∧
        ∀ name value, (writtenMap writes).lookup name = some value →
          ImportName name ∧ backslash ∉ value.dropLast) := by
  constructor
  · obtain ⟨last, ran', intact⟩ := runTable_intact created ops
    cases ran.symm.trans ran'
    exact intact.exports_iff storable accepted
  · have blank : TextOf (rawText [] pad) ∅ [] pad :=
      ⟨rfl, ends, by simp, by simp, by simp, by simp⟩
    obtain ⟨entries, pad', text, -⟩ := blank.build storables built
    exact text.imports_iff

/-- Tools that may change everything. -/
def openPolicy : FwPolicy :=
  ⟨fun _ => false, fun _ => false, fun _ => false, fun _ => false, fun _ => none⟩

/-- A table with one variable. -/
def oneVariable (value : CString) : HsearchData :=
  { fiveBuckets.setBucket 3 (.live 3 [97] value) with filled := 1 }

theorem live_oneVariable {key data : CString} :
    Live (oneVariable value) key data ↔ key = [97] ∧ data = value := by
  constructor
  · rintro ⟨i, used, live⟩
    simp only [oneVariable, HsearchData.setBucket] at live
    split at live
    · cases live
      exact ⟨rfl, rfl⟩
    · cases live
  · rintro ⟨rfl, rfl⟩
    exact ⟨3, 3, rfl⟩

theorem runTable_oneVariable (value : CString) :
    runTable fiveBuckets [.enter [97] value] = some (oneVariable value) := rfl

theorem totlen_oneVariable (value : CString) :
    totlen 0 (allEntries (oneVariable value)) = value.length + 5 := by
  have listed : tableEntries (oneVariable value) = [([97], value)] := rfl
  have entries : allEntries (oneVariable value) = [([97], value)] := by
    rw [allEntries, exportList, listed]
    simp
  rw [entries]
  simp [totlen, entryRoom]
  omega

theorem fwBuild_one (value : CString) (nonempty : value ≠ []) (room : value.length ≤ 8) :
    fwBuild openPolicy (rawText [] (List.replicate 15 0)) [([97], value)] =
      some (overwrite (List.replicate 16 0) 0 (97 :: equalsSign :: (value ++ [0, 0]))) := by
  have found : upToEnd (List.replicate 16 0) = some [0] := rfl
  have fits : ¬1 + 2 + (value.length + 1) > 16 - 0 := by omega
  have text : rawText [] (List.replicate 15 0) = List.replicate 16 0 := rfl
  have written : fwEnvWrite openPolicy (rawText [] (List.replicate 15 0)) [97] value =
      some (true, overwrite (List.replicate 16 0) 0 (97 :: equalsSign :: (value ++ [0, 0]))) := by
    rw [fwEnvWrite, scan_nil, Option.bind_some]
    simp only [nonempty, ↓reduceIte, openPolicy, Bool.false_eq_true, appendEntry, text, found,
      Option.map_some, List.length_singleton, Nat.sub_self, gt_iff_lt, lt_self_iff_false,
      List.length_replicate, List.singleton_append]
    rw [if_neg fits]
  rw [fwBuild, written]
  rfl

/-- Both directions on a value with a backslash at its end, and on one without. -/
theorem environments_agree_one :
    (∃ text, hexportR (oneVariable [49]) 0 (fun _ _ => true) 16 = .text text ∧
      ∀ name, ValidName name → ∃ answer, fwGetenv text name = some answer ∧
        getenv (oneVariable [49]) name = some answer) ∧
    ∃ after, himportR none (overwrite (List.replicate 16 0) 0 [97, 61, 49, 92, 0, 0]) 0 false false
        [] = some (true, some after) ∧
      ∀ name, getenv after name = some ((writtenMap [([97], [49, 92])]).lookup name) := by
  have storable : ∀ key data, Live (oneVariable [49]) key data → Storable (key, data) := by
    intro key data live
    obtain ⟨rfl, rfl⟩ := live_oneVariable.mp live
    exact ⟨by simp [ValidName, equalsSign], by simp⟩
  have storables : ∀ write ∈ [(([97], [49, 92]) : CString × CString)], Storable write := by
    intro write member
    rw [List.mem_singleton.mp member]
    exact ⟨by simp [ValidName, equalsSign], by simp⟩
  have both := environments_agree 5 16 fiveBuckets (oneVariable [49]) [.enter [97] [49]] openPolicy
    (List.replicate 15 0) _ [([97], [49, 92])] hcreateR_five (runTable_oneVariable _) storable
    (by rw [totlen_oneVariable]; decide) (fun _ => .inr rfl) storables
    (fwBuild_one [49, 92] (by simp) (by simp))
  constructor
  · refine both.1.mpr ?_
    intro key data live
    obtain ⟨rfl, rfl⟩ := live_oneVariable.mp live
    simp [backslash]
  · refine both.2.mpr ⟨?_, ?_⟩
    · obtain ⟨start, -, size, low, -⟩ := hcreateR_import
        (overwrite (List.replicate 16 0) 0 (97 :: equalsSign :: ([49, 92] ++ [0, 0]))).length
      have single : (writtenMap [([97], [49, 92])]).keys.card = 1 := by decide
      rw [← size, single]
      omega
    · intro name value present
      have only : name = [97] ∧ value = [49, 92] := by
        by_cases same : name = [97]
        · subst same
          have held : (writtenMap [([97], [49, 92])]).lookup [97] = some [49, 92] := by decide
          rw [held] at present
          exact ⟨rfl, (Option.some.inj present).symm⟩
        · have other : (writtenMap [([97], [49, 92])]).lookup name = none := by
            simp [writtenMap, mapWrite, Finmap.lookup_insert_of_ne _ same]
          rw [other] at present
          cases present
      rw [only.1, only.2]
      exact ⟨⟨by simp, by simp [isblank, numberSign]⟩, by decide⟩

/-- They disagree on a value with a backslash, in both directions. -/
theorem environments_disagree :
    (¬∃ text, hexportR (oneVariable [92, 110]) 0 (fun _ _ => true) 16 = .text text ∧
      ∀ name, ValidName name → ∃ answer, fwGetenv text name = some answer ∧
        getenv (oneVariable [92, 110]) name = some answer) ∧
    ∃ data, fwBuild openPolicy (rawText [] (List.replicate 15 0)) [([97], [92, 110])] = some data ∧
      ¬∃ after, himportR none data 0 false false [] = some (true, some after) ∧
        ∀ name, getenv after name = some ((writtenMap [([97], [92, 110])]).lookup name) := by
  have chars : Storable ([97], [92, 110]) := ⟨by simp [ValidName, equalsSign], by simp⟩
  constructor
  · obtain ⟨last, ran, intact⟩ := runTable_intact hcreateR_five [.enter [97] [92, 110]]
    cases (runTable_oneVariable _).symm.trans ran
    rw [intact.exports_iff]
    · intro plain
      exact plain [97] [92, 110] (live_oneVariable.mpr ⟨rfl, rfl⟩) (by decide)
    · intro key data live
      obtain ⟨rfl, rfl⟩ := live_oneVariable.mp live
      exact chars
    · rw [totlen_oneVariable]
      decide
  · have built := fwBuild_one [92, 110] (by simp) (by simp)
    refine ⟨_, built, ?_⟩
    have blank : TextOf (rawText [] (List.replicate 15 0)) ∅ [] (List.replicate 15 0) :=
      ⟨rfl, fun _ => .inr rfl, by simp, by simp, by simp, by simp⟩
    have storable : ∀ write ∈ [(([97], [92, 110]) : CString × CString)], Storable write := by
      intro write member
      rw [List.mem_singleton.mp member]
      exact chars
    obtain ⟨entries, pad', text, -⟩ := blank.build storable built
    intro agrees
    have held : (writtenMap [([97], [92, 110])]).lookup [97] = some [92, 110] := by decide
    have fine := (text.imports_iff.mp agrees).2 [97] [92, 110] held
    exact absurd fine.2 (by decide)

end HrppBoot.Env
