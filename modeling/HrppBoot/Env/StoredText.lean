import HrppBoot.Env.RoundTrip

/-!
# The stored text of the environment

Outside the hash table the environment is a text of `name=value` strings with a NUL behind each of
them and one more NUL at the end. Readers that scan the text take the values as they stand there;
`himport_r` takes a backslash as an escape, an empty value as a deletion, a number sign as the start
of a comment, and skips blanks. `import_rawText` says which operations on the table an import is,
for names it takes as they are, and `Live.lastValue` which values can be in a table at all.
-/

namespace HrppBoot.Env

/-! ## Strings -/

/-- An entry as it stands in the text. -/
def rawEntry (entry : CString × CString) : List UInt8 :=
  entry.1 ++ equalsSign :: (entry.2 ++ [0])

/-- The strings of some entries, the NUL that ends them, and what is behind it. -/
def rawText (entries : List (CString × CString)) (pad : List UInt8) : List UInt8 :=
  entries.flatMap rawEntry ++ 0 :: pad

/-- A character of a variable's name. -/
def ValidName (name : CString) : Prop := ∀ c ∈ name, c ≠ equalsSign ∧ c ≠ 0

/-- Names and values that can stand in the text. -/
structure Storable (entry : CString × CString) : Prop where
  name : ValidName entry.1
  value : ∀ c ∈ entry.2, c ≠ 0

theorem rawText_cons (entry : CString × CString) (entries : List (CString × CString))
    (pad : List UInt8) :
    rawText (entry :: entries) pad = rawEntry entry ++ rawText entries pad := by
  simp [rawText]

theorem Storable.chars {entry : CString × CString} (storable : Storable entry) :
    ∀ c ∈ entry.1 ++ equalsSign :: entry.2, c ≠ 0 := by
  intro c member
  rcases List.mem_append.mp member with inName | behind
  · exact (storable.name c inName).2
  · rcases List.mem_cons.mp behind with rfl | inValue
    · decide
    · exact storable.value c inValue

theorem rawText_string (entry : CString × CString) (entries : List (CString × CString))
    (pad : List UInt8) : rawText (entry :: entries) pad =
      (entry.1 ++ equalsSign :: entry.2) ++ 0 :: rawText entries pad := by
  simp [rawText_cons, rawEntry]

/-- A name that the importer takes as it is. -/
structure ImportName (name : CString) : Prop where
  nonempty : name ≠ []
  start : ∀ c ∈ name.head?, isblank c = false ∧ c ≠ numberSign

/-! ## Escapes -/

/-- What the importer's value loop makes of a value. -/
def unescape : CString → CString
  | [] => []
  | [c] => [c]
  | c :: next :: rest =>
    if c = backslash then next :: unescape rest else c :: unescape (next :: rest)

theorem parseValue_raw (value rest : List UInt8) (chars : ∀ c ∈ value, c ≠ 0) :
    parseValue 0 (value ++ 0 :: rest) = some (unescape value, rest) := by
  have notNul : backslash ≠ 0 := by decide
  induction value using unescape.induct with
  | case1 => exact parseValue_end (.inl rfl) rest
  | case2 c =>
    have nonzero : c ≠ 0 := chars c (List.mem_singleton_self c)
    by_cases escapes : c = backslash
    · -- a backslash before the NUL stands for itself
      rw [escapes, List.singleton_append, parseValue.eq_def]
      simp [notNul, parseValue_end, unescape]
    · rw [List.singleton_append, parseValue_plain nonzero nonzero escapes,
        parseValue_end (.inl rfl)]
      rfl
  | case3 next rest' ih =>
    have nonzero : next ≠ 0 := chars next (by simp)
    have parsed := ih fun c member => chars c (by simp [member])
    rw [List.cons_append, List.cons_append, parseValue_escaped notNul nonzero, parsed]
    simp [unescape]
  | case4 c next rest' plain ih =>
    have nonzero : c ≠ 0 := chars c (by simp)
    have parsed := ih fun c member => chars c (List.mem_cons_of_mem _ member)
    rw [List.cons_append, parseValue_plain nonzero nonzero plain, parsed]
    simp [unescape, plain]

theorem length_unescape_le (value : CString) : (unescape value).length ≤ value.length := by
  fun_induction unescape value with
  | case1 => simp
  | case2 c => simp
  | case3 next rest ih =>
    simp only [List.length_cons]
    omega
  | case4 c next rest plain ih =>
    simp only [List.length_cons] at ih ⊢
    omega

theorem unescape_eq_self (value : CString) :
    unescape value = value ↔ backslash ∉ value.dropLast := by
  fun_induction unescape value with
  | case1 => simp
  | case2 c => simp
  | case3 next rest ih =>
    have shorter := length_unescape_le rest
    have different : next :: unescape rest ≠ backslash :: next :: rest := by
      intro same
      have lengths := congrArg List.length same
      simp only [List.length_cons] at lengths
      omega
    simp [different]
  | case4 c next rest plain ih =>
    rw [List.cons.injEq, List.dropLast_cons_of_ne_nil (List.cons_ne_nil _ _), List.mem_cons,
      not_or, ih]
    simp [Ne.symm plain]

/-! ## Import -/

/-- What the importer makes of a stored value: nothing of an empty one. -/
def importedValue (value : CString) : Option CString :=
  if value = [] then none else some (unescape value)

/-- What the parser finds in a stored entry. -/
def rawItem (entry : CString × CString) : Item :=
  if entry.2 = [] then .delete entry.1 else .entry entry.1 (unescape entry.2)

/-- What the importer does with a stored entry. -/
def rawOp (entry : CString × CString) : Op :=
  if entry.2 = [] then .delete entry.1 else .enter entry.1 (unescape entry.2)

/-- The parser on a stored entry. -/
theorem parseItem_rawEntry {entry : CString × CString} (storable : Storable entry)
    (imports : ImportName entry.1) (rest : List UInt8) :
    parseItem 0 (rawEntry entry ++ rest) = some (rawItem entry, rest) := by
  obtain ⟨name, value⟩ := entry
  obtain ⟨nameChars, valueChars⟩ := storable
  obtain ⟨nonempty, start⟩ := imports
  simp only at nameChars valueChars nonempty start
  have text : rawEntry (name, value) ++ rest = name ++ equalsSign :: (value ++ 0 :: rest) := by
    simp [rawEntry]
  have isName : ∀ c ∈ name, nameChar 0 c = true := by
    intro c member
    simpa [nameChar] using nameChars c member
  have notName : nameChar 0 equalsSign = false := by simp [nameChar]
  have taken : (name ++ equalsSign :: (value ++ 0 :: rest)).takeWhile (nameChar 0) = name := by
    rw [List.takeWhile_append_of_pos isName, List.takeWhile_cons_of_neg (by simp [notName])]
    simp
  have left : (name ++ equalsSign :: (value ++ 0 :: rest)).dropWhile (nameChar 0) =
      equalsSign :: (value ++ 0 :: rest) := by
    rw [List.dropWhile_append_of_pos isName, List.dropWhile_cons_of_neg (by simp [notName])]
  have sign : equalsSign ≠ 0 := by decide
  have after : parseAfterName 0 name (equalsSign :: (value ++ 0 :: rest)) =
      some (rawItem (name, value), rest) := by
    cases value with
    | nil => simp [parseAfterName, sign, rawItem]
    | cons v value =>
      have parsed := parseValue_raw (v :: value) rest valueChars
      have nonzero : v ≠ 0 := valueChars v (List.mem_cons_self ..)
      rw [List.cons_append] at parsed ⊢
      rw [parseAfterName, if_neg sign]
      simp only [nonzero, sign, or_self, ↓reduceIte, parsed, Option.map_some, rawItem,
        reduceCtorEq]
  cases name with
  | nil => exact absurd rfl nonempty
  | cons k name =>
    obtain ⟨notBlank, notComment⟩ := start k rfl
    rw [text, parseItem]
    rw [List.cons_append, List.dropWhile_cons_of_neg (by simp [notBlank])]
    simp only [notComment, ↓reduceIte]
    rw [← List.cons_append, taken, left, after]

theorem applyItem_rawItem (htab : HsearchData) {entry : CString × CString}
    (imports : ImportName entry.1) :
    applyItem htab [] (rawItem entry) =
      (step htab (rawOp entry)).map fun after => .done after.2 [] := by
  by_cases empty : entry.2 = []
  · simp [rawItem, rawOp, empty, applyItem, dropVarFromSet, step, Option.map_map, Function.comp_def]
  · simp [rawItem, rawOp, empty, applyItem, dropVarFromSet, step, Option.map_map, Function.comp_def,
      imports.nonempty]

theorem rawText_head {entries : List (CString × CString)} (nonempty : entries ≠ [])
    (storable : ∀ entry ∈ entries, Storable entry) (imports : ∀ entry ∈ entries, ImportName entry.1)
    (pad : List UInt8) :
    ¬((rawText entries pad).head? = none ∨ (rawText entries pad).head? = some 0) := by
  cases entries with
  | nil => exact absurd rfl nonempty
  | cons entry entries =>
    have first := (storable entry (List.mem_cons_self ..)).name
    cases name : entry.1 with
    | nil => exact absurd name (imports entry (List.mem_cons_self ..)).nonempty
    | cons c tail =>
      have nonzero := (first c (by simp [name])).2
      simp [rawText_cons, rawEntry, name, nonzero]

theorem importLoop_rawText {entries : List (CString × CString)} (nonempty : entries ≠ [])
    (storable : ∀ entry ∈ entries, Storable entry) (imports : ∀ entry ∈ entries, ImportName entry.1)
    (pad : List UInt8) {htab last : HsearchData}
    (ran : runTable htab (entries.map rawOp) = some last) :
    importLoop 0 htab [] (rawText entries pad) = some (true, last, []) := by
  induction entries generalizing htab with
  | nil => exact absurd rfl nonempty
  | cons entry entries ih =>
    have parsed := parseItem_rawEntry (storable entry (List.mem_cons_self ..))
      (imports entry (List.mem_cons_self ..)) (rawText entries pad)
    obtain ⟨⟨output, after⟩, stepped, rest⟩ := Option.bind_eq_some_iff.mp ran
    have applied : applyItem htab [] (rawItem entry) = some (.done after []) := by
      rw [applyItem_rawItem htab (imports entry (List.mem_cons_self ..)), stepped, Option.map_some]
    rw [rawText_cons, importLoop_turn parsed applied]
    by_cases ends : entries = []
    · subst ends
      cases rest
      simp [rawText]
    · have others : ∀ other ∈ entries, Storable other := fun other member =>
        storable other (List.mem_cons_of_mem _ member)
      have names : ∀ other ∈ entries, ImportName other.1 := fun other member =>
        imports other (List.mem_cons_of_mem _ member)
      rw [if_neg (rawText_head ends others names pad)]
      exact ih ends others names rest

/-! ## What an import can leave in a table -/

/-- Entering a key leaves no other value of it, and no other new entry. -/
theorem Intact.live_enter {htab after : HsearchData} (intact : Intact htab) {key data : CString}
    {output : Output} (stepped : Env.step htab (.enter key data) = some (output, after))
    {name value : CString} (live : Live after name value) :
    if name = key then value = data else Live htab name value := by
  obtain ⟨⟨result, after'⟩, entered, same⟩ := Option.map_eq_some_iff.mp stepped
  cases same
  have written {slot filled : Nat}
      (only : ∀ {i used old}, htab.table i = .live used key old → i = slot)
      (live : Live { htab.setBucket slot (.live (firstHash htab.size key) key data) with
        filled := filled } name value) :
      if name = key then value = data else Live htab name value := by
    obtain ⟨i, used, bucket⟩ := live
    simp only [HsearchData.setBucket] at bucket
    split at bucket
    · cases bucket
      simp
    · rename_i other
      have different : name ≠ key := by
        intro same
        rw [same] at bucket
        exact other (only bucket)
      rw [if_neg different]
      exact ⟨i, used, bucket⟩
  by_cases present : ∃ old, Live htab key old
  · obtain ⟨old, i, used, here⟩ := present
    simp only [hsearchEnter, intact.locate_found here, Option.some.injEq, Prod.mk.injEq] at entered
    obtain ⟨-, rfl⟩ := entered
    exact written (fun live' => intact.unique live' here) live
  · have nowhere : ∀ old, ¬Live htab key old := fun old here => present ⟨old, here⟩
    obtain ⟨stop, located, -⟩ := intact.locate_missing nowhere
    simp only [hsearchEnter, located] at entered
    split at entered
    · cases entered
      have different : name ≠ key := by
        rintro rfl
        exact nowhere value live
      rw [if_neg different]
      exact live
    · cases entered
      exact written (fun live' => absurd ⟨_, _, live'⟩ (nowhere _)) live

theorem Intact.live_delete {htab after : HsearchData} (intact : Intact htab) {key : CString}
    {output : Output} (stepped : Env.step htab (.delete key) = some (output, after))
    {name value : CString} (live : Live after name value) : name ≠ key ∧ Live htab name value := by
  obtain ⟨⟨result, after'⟩, deleted, same⟩ := Option.map_eq_some_iff.mp stepped
  cases same
  by_cases present : ∃ old, Live htab key old
  · obtain ⟨old, i, used, here⟩ := present
    simp only [hdeleteR, hsearchFind, intact.locate_found here, here, Option.some.injEq,
      Prod.mk.injEq] at deleted
    obtain ⟨-, rfl⟩ := deleted
    exact (intact.live_setDeleted here _ _ _).mp live
  · have nowhere : ∀ old, ¬Live htab key old := fun old here => present ⟨old, here⟩
    obtain ⟨stop, located, -⟩ := intact.locate_missing nowhere
    simp only [hdeleteR, hsearchFind, located] at deleted
    cases deleted
    refine ⟨?_, live⟩
    rintro rfl
    exact nowhere value live

/-- What is known of a variable after one more entry. -/
def knownAfter (known : CString → Option CString) (entry : CString × CString) :
    CString → Option CString :=
  fun name => if name = entry.1 then importedValue entry.2 else known name

theorem foldl_knownAfter (entries : List (CString × CString)) (known : CString → Option CString)
    (name : CString) : entries.foldl knownAfter known name =
      match entries.reverse.lookup name with
      | some value => importedValue value
      | none => known name := by
  induction entries generalizing known with
  | nil => rfl
  | cons entry entries ih =>
    rw [List.foldl_cons, ih, List.reverse_cons, List.lookup_append]
    cases entries.reverse.lookup name with
    | some value => rfl
    | none =>
      rw [Option.none_or, List.lookup_cons, List.lookup_nil, knownAfter]
      by_cases same : name = entry.1
      · simp [same]
      · have differs : (name == entry.1) = false := by simpa using same
        simp [same, differs]

theorem lookup_of_distinct {entries : List (CString × CString)}
    (distinct : (entries.map Prod.fst).Nodup) {name value : CString}
    (member : (name, value) ∈ entries) : entries.lookup name = some value := by
  obtain ⟨before, after, rfl⟩ := List.append_of_mem member
  rw [List.lookup_eq_some_iff]
  refine ⟨before, after, rfl, ?_⟩
  rw [List.map_append, List.map_cons, List.nodup_middle, List.nodup_cons] at distinct
  intro entry earlier
  have among : entry.1 ∈ (before ++ after).map Prod.fst :=
    List.mem_map_of_mem (List.mem_append_left _ earlier)
  rw [List.map_append] at among
  have different : name ≠ entry.1 := by
    rintro rfl
    exact distinct.1 among
  simpa using different

theorem Intact.live_runTable {htab last : HsearchData} (intact : Intact htab)
    (large : htab.size ≠ 1) {entries : List (CString × CString)}
    (ran : runTable htab (entries.map rawOp) = some last) {known : CString → Option CString}
    (knows : ∀ name value, Live htab name value → known name = some value) (name value : CString)
    (live : Live last name value) : entries.foldl knownAfter known name = some value := by
  induction entries generalizing htab known with
  | nil =>
    cases ran
    exact knows name value live
  | cons entry entries ih =>
    obtain ⟨⟨output, after⟩, stepped, rest⟩ := Option.bind_eq_some_iff.mp ran
    obtain ⟨output', after', stepped', size, intact'⟩ := intact.step large (rawOp entry)
    cases stepped.symm.trans stepped'
    refine ih intact' (size.trans_ne large) rest ?_
    intro other data here
    unfold knownAfter importedValue
    by_cases empty : entry.2 = []
    · rw [rawOp, if_pos empty] at stepped
      obtain ⟨different, before⟩ := intact.live_delete stepped here
      rw [if_neg different]
      exact knows other data before
    · rw [rawOp, if_neg empty] at stepped
      have now := intact.live_enter stepped here
      split at now
      · rename_i same
        rw [if_pos same, if_neg empty, now]
      · rename_i different
        rw [if_neg different]
        exact knows other data now

/-- A name that the parser finds is one the importer takes as it is, or empty. -/
theorem parseItem_name {sep : UInt8} {dp rest : List UInt8} {name value : CString}
    (parsed : parseItem sep dp = some (.entry name value, rest)) (nonempty : name ≠ []) :
    ImportName name := by
  refine ⟨nonempty, ?_⟩
  unfold parseItem at parsed
  split at parsed
  · cases parsed
  · rename_i c tail trimmed
    have notBlank : isblank c = false := by
      have head := List.head?_dropWhile_not isblank dp
      rw [trimmed] at head
      simpa using head
    split at parsed
    · split at parsed <;> cases parsed
    · rename_i notComment
      have named : name = (c :: tail).takeWhile (nameChar sep) := by
        unfold parseAfterName at parsed
        split at parsed
        · cases parsed
        · split at parsed
          · cases parsed
          · split at parsed
            · cases parsed
            · split at parsed
              · cases parsed
              · obtain ⟨inner, -, same⟩ := Option.map_eq_some_iff.mp parsed
                cases same
                rfl
      intro first member
      rw [named] at nonempty member
      rw [List.takeWhile_cons] at nonempty member
      split at member
      · rw [List.head?_cons, Option.mem_some] at member
        rw [← member]
        exact ⟨notBlank, notComment⟩
      · rename_i other
        rw [if_neg other] at nonempty
        exact absurd rfl nonempty

/-- A turn of the importer enters only a name that it takes as it is. -/
theorem Intact.applyItem_names {sep : UInt8} {htab after : HsearchData} {vars vars' : VarSet}
    {item : Item} {dp rest : List UInt8} (intact : Intact htab)
    (names : ∀ name value, Live htab name value → ImportName name)
    (parsed : parseItem sep dp = some (item, rest))
    (applied : Env.applyItem htab vars item = some (.done after vars')) (name value : CString)
    (live : Live after name value) : ImportName name := by
  cases item with
  | comment =>
    cases applied
    exact names name value live
  | delete key =>
    simp only [Env.applyItem] at applied
    split at applied
    · obtain ⟨⟨result, next⟩, deleted, same⟩ := Option.map_eq_some_iff.mp applied
      cases same
      have stepped : Env.step htab (.delete key) = some (.deleted result, next) := by
        rw [Env.step, deleted, Option.map_some]
      exact names name value (intact.live_delete stepped live).2
    · cases applied
      exact names name value live
  | entry key data =>
    simp only [Env.applyItem] at applied
    split at applied
    · cases applied
    · rename_i nonempty
      split at applied
      · obtain ⟨⟨result, next⟩, entered, same⟩ := Option.map_eq_some_iff.mp applied
        cases same
        have stepped : Env.step htab (.enter key data) = some (.entry result, next) := by
          rw [Env.step, entered, Option.map_some]
        have now := intact.live_enter stepped live
        split at now
        · rename_i same
          exact same ▸ parseItem_name parsed nonempty
        · exact names name value now
      · cases applied
        exact names name value live

theorem Intact.importLoop_names {sep : UInt8} {htab : HsearchData} {vars : VarSet}
    {dp : List UInt8} {result : Bool × HsearchData × VarSet} (intact : Intact htab)
    (large : htab.size ≠ 1) (names : ∀ name value, Live htab name value → ImportName name)
    (imported : Env.importLoop sep htab vars dp = some result) (name value : CString)
    (live : Live result.2.1 name value) : ImportName name := by
  fun_induction Env.importLoop sep htab vars dp with
  | case1 => cases imported
  | case2 => cases imported
  | case3 =>
    cases imported
    exact names name value live
  | case4 htab vars dp item rest parsed after vars' applied ends =>
    cases imported
    exact intact.applyItem_names names parsed applied name value live
  | case5 htab vars dp item rest parsed after vars' applied goesOn ih =>
    obtain ⟨intact', size⟩ := intact.applyItem large applied
    exact ih intact' (size.trans_ne large) (intact.applyItem_names names parsed applied) imported

theorem Intact.live_deleteRemaining {htab after : HsearchData} {vars : VarSet}
    (intact : Intact htab) (large : htab.size ≠ 1)
    (deleted : Env.deleteRemaining htab vars = some after) {name value : CString}
    (live : Live after name value) : Live htab name value := by
  induction vars generalizing htab with
  | nil =>
    cases deleted
    exact live
  | cons var vars ih =>
    cases var with
    | none => exact ih intact large deleted
    | some key =>
      obtain ⟨⟨result, next⟩, deletedKey, rest⟩ := Option.bind_eq_some_iff.mp deleted
      have stepped : Env.step htab (.delete key) = some (.deleted result, next) := by
        rw [Env.step, deletedKey, Option.map_some]
      obtain ⟨output, next', stepped', size, intact'⟩ := intact.step large (.delete key)
      cases stepped.symm.trans stepped'
      exact (intact.live_delete stepped (ih intact' (size.trans_ne large) rest)).2

theorem himportR_names {text : List UInt8} {sep : UInt8} {crlfIsLf : Bool} {vars : List CString}
    {after : HsearchData}
    (imported : himportR none text sep false crlfIsLf vars = some (true, some after))
    {name value : CString} (live : Live after name value) : ImportName name := by
  obtain ⟨start, made, -, low, -⟩ := hcreateR_import text.length
  have intact := hcreateR_intact made
  have blank : ∀ name value, Live start name value → ImportName name := by
    intro name value here
    rw [← (hcreateR_represents made).entries] at here
    simp at here
  unfold himportR at imported
  simp only [Bool.false_eq_true, ↓reduceIte, Option.orElse_none, made] at imported
  split at imported
  · cases imported
    exact blank name value live
  · split at imported
    · cases imported
    · cases imported
    · rename_i htab vars looped
      obtain ⟨last, deleted, same⟩ := Option.map_eq_some_iff.mp imported
      cases same
      obtain ⟨intact', size⟩ := intact.importLoop (by omega) looped
      exact intact.importLoop_names (by omega) blank looped name value
        (intact'.live_deleteRemaining (by omega) deleted live)

/-- What stands behind the final NUL of a text without entries is not taken for an entry. -/
def EndsText (entries : List (CString × CString)) (pad : List UInt8) : Prop :=
  entries = [] → pad.head? = none ∨ pad.head? = some 0

theorem himportR_rawText {entries : List (CString × CString)} {pad : List UInt8}
    (ends : EndsText entries pad) (storable : ∀ entry ∈ entries, Storable entry)
    (imports : ∀ entry ∈ entries, ImportName entry.1) {new last : HsearchData}
    (created : hcreateR (importEntries (rawText entries pad).length) = some new)
    (ran : runTable new (entries.map rawOp) = some last) :
    himportR none (rawText entries pad) 0 false false [] = some (true, some last) := by
  have looped : importLoop 0 new [] (rawText entries pad) = some (true, last, []) := by
    by_cases empty : entries = []
    · subst empty
      cases ran
      have parsed : parseItem 0 (rawText [] pad) = some (.delete [], pad) := by
        simp [rawText, parseItem, isblank, numberSign, parseAfterName, nameChar]
      have missing : hsearchFind new [] = some (.error .esrch) :=
        ((hcreateR_represents created).find []).2 (by simp)
      have applied : applyItem new [] (.delete []) = some (.done new []) := by
        simp [applyItem, dropVarFromSet, hdeleteR, missing]
      rw [importLoop_turn parsed applied, if_pos (ends rfl)]
    · exact importLoop_rawText empty storable imports pad ran
  have nonempty : (rawText entries pad).length ≠ 0 := by
    simp [rawText]
  unfold himportR
  simp only [Bool.false_eq_true, ↓reduceIte, Option.orElse_none, created, if_neg nonempty,
    List.map_nil, looped, deleteRemaining, Option.map_some]

/-! ## Imports that lose nothing -/

/-- One safe operation of an import, in a table that has room for every name of the text. -/
theorem Represents.rawStep {htab : HsearchData} {m : EnvMap} (rep : Represents htab m)
    {entry : CString × CString} (safe : Safe htab (rawOp entry)) {names : Finset CString}
    (among : m.keys ⊆ names) (own : entry.1 ∈ names) (room : names.card ≤ htab.size) :
    ∃ output after m', Env.step htab (rawOp entry) = some (output, after) ∧
      after.size = htab.size ∧ Represents after m' ∧ m'.keys ⊆ names ∧
      m'.lookup = knownAfter m.lookup entry := by
  obtain ⟨after, stepped, size, rep'⟩ := rep.step safe
  refine ⟨_, after, _, stepped, size, rep', ?_⟩
  by_cases empty : entry.2 = []
  · simp only [rawOp, empty, ↓reduceIte, mapStep]
    cases present : m.lookup entry.1 with
    | none =>
      refine ⟨among, ?_⟩
      funext name
      unfold knownAfter importedValue
      by_cases same : name = entry.1
      · rw [if_pos same, if_pos empty, same]
        exact present
      · rw [if_neg same]
    | some old =>
      constructor
      · intro name member
        have before : name ∈ m.keys := by
          rw [Finmap.mem_keys, Finmap.mem_erase] at member
          exact Finmap.mem_keys.mpr member.2
        exact among before
      · funext name
        unfold knownAfter importedValue
        by_cases same : name = entry.1
        · subst same
          simp [empty, Finmap.lookup_erase]
        · simp [same, Finmap.lookup_erase_ne same]
  · have notFull : ¬(m.lookup entry.1 = none ∧ m.keys.card = htab.size) := by
      rintro ⟨absent, full⟩
      have notMember : entry.1 ∉ m.keys := by
        rw [Finmap.mem_keys, ← Finmap.lookup_eq_none]
        exact absent
      have less : m.keys.card < names.card :=
        Finset.card_lt_card ⟨among, fun all => notMember (all own)⟩
      omega
    simp only [rawOp, empty, ↓reduceIte, mapStep, if_neg notFull]
    constructor
    · rw [keys_insert]
      exact Finset.insert_subset own among
    · funext name
      unfold knownAfter importedValue
      by_cases same : name = entry.1
      · subst same
        simp [empty, Finmap.lookup_insert]
      · simp [same, Finmap.lookup_insert_of_ne _ same]

theorem Represents.rawRun {htab : HsearchData} {m : EnvMap} (rep : Represents htab m)
    {entries : List (CString × CString)} (safe : SafeRun htab (entries.map rawOp))
    {names : Finset CString} (among : m.keys ⊆ names) (own : ∀ entry ∈ entries, entry.1 ∈ names)
    (room : names.card ≤ htab.size) :
    ∃ last m', runTable htab (entries.map rawOp) = some last ∧ Represents last m' ∧
      m'.lookup = entries.foldl knownAfter m.lookup := by
  induction entries generalizing htab m with
  | nil => exact ⟨htab, m, rfl, rep, rfl⟩
  | cons entry entries ih =>
    obtain ⟨here, ahead⟩ := safe
    obtain ⟨output, after, m', stepped, size, rep', among', lookup⟩ :=
      rep.rawStep here among (own entry (List.mem_cons_self ..)) room
    obtain ⟨last, mLast, ran, repLast, lookupLast⟩ := ih rep' (ahead _ _ stepped) among'
      (fun other member => own other (List.mem_cons_of_mem _ member)) (size ▸ room)
    refine ⟨last, mLast, ?_, repLast, ?_⟩
    · simp only [List.map_cons, runTable, stepped, Option.bind_some, ran]
    · rw [lookupLast, lookup, List.foldl_cons]

theorem Represents.safeRun_enters {htab : HsearchData} {m : EnvMap} (rep : Represents htab m)
    (fresh : NoTombstones htab) {entries : List (CString × CString)}
    (values : ∀ entry ∈ entries, entry.2 ≠ []) : SafeRun htab (entries.map rawOp) := by
  induction entries generalizing htab m with
  | nil => trivial
  | cons entry entries ih =>
    have enters : rawOp entry = .enter entry.1 (unescape entry.2) :=
      if_neg (values entry (List.mem_cons_self ..))
    rw [List.map_cons, enters]
    have safe := rep.safe_of_fresh fresh entry.1 (unescape entry.2)
    refine ⟨safe, ?_⟩
    intro output after stepped
    obtain ⟨⟨result, next⟩, entered, same⟩ := Option.map_eq_some_iff.mp stepped
    obtain ⟨rfl, rfl⟩ := Prod.mk.inj same
    obtain ⟨after, stepped', -, rep'⟩ := rep.step safe
    obtain ⟨-, rfl⟩ := Prod.mk.inj (Option.some.inj (stepped.symm.trans stepped'))
    exact ih rep' (hsearchEnter_fresh fresh entered) fun other member =>
      values other (List.mem_cons_of_mem _ member)

/-! ## Reading a variable from the table -/

/-- `getenv`, once the environment is imported. -/
def getenv (htab : HsearchData) (name : CString) : Option (Option CString) :=
  (hsearchFind htab name).map fun
    | .ok (_, data) => some data
    | .error _ => none

/-- `getenv` finds the live entries, and reports every other variable as missing. -/
theorem Intact.getenv_eq {htab : HsearchData} (intact : Intact htab) (name : CString)
    (answer : Option CString) :
    getenv htab name = some answer ↔ ∀ value, answer = some value ↔ Live htab name value := by
  by_cases present : ∃ value, Live htab name value
  · obtain ⟨value, i, used, live⟩ := present
    have found : getenv htab name = some (some value) := by
      simp only [getenv, hsearchFind, intact.locate_found live, live, Option.map_some]
    have only (other : CString) : some value = some other ↔ Live htab name other := by
      rw [Option.some.injEq]
      constructor
      · rintro rfl
        exact ⟨i, used, live⟩
      · rintro ⟨i', used', live'⟩
        have same := intact.unique live live'
        rw [← same, live] at live'
        exact (Bucket.live.inj live').2.2
    rw [found]
    constructor
    · intro same
      cases same
      exact only
    · intro answers
      rw [(answers value).mpr ⟨i, used, live⟩]
  · have nowhere : ∀ value, ¬Live htab name value := fun value here => present ⟨value, here⟩
    obtain ⟨stop, located, -⟩ := intact.locate_missing nowhere
    have missing : getenv htab name = some none := by
      simp only [getenv, hsearchFind, located, Option.map_some]
    rw [missing]
    constructor
    · intro same
      cases same
      simpa using nowhere
    · intro answers
      cases answer with
      | none => rfl
      | some value => exact absurd ((answers value).mp rfl) (nowhere value)

end HrppBoot.Env
