import HrppBoot.Env.StoredText

/-!
# Scanning the text

Before the environment is imported, `getenv_f` looks for a variable in the stored text itself. The
environment tools of the host do the same, so the scan is shared. It has no result where it would
read behind the text; the check for a missing terminator comes after that read. A scan takes the
first entry of a name and its value as it stands; the importer takes the last one, and removes
escapes.
-/

namespace HrppBoot.Env

/-! ## The scan -/

/-- The string at the start of some bytes, and the bytes behind its NUL. -/
def cutString : List UInt8 → Option (CString × List UInt8)
  | [] => none
  | c :: rest =>
    if c = 0 then some ([], rest) else (cutString rest).map fun cut => (c :: cut.1, cut.2)

theorem cutString_shorter {bytes string rest : List UInt8}
    (cut : cutString bytes = some (string, rest)) : rest.length < bytes.length := by
  induction bytes generalizing string with
  | nil => cases cut
  | cons c bytes ih =>
    rw [cutString] at cut
    split at cut
    · cases cut
      simp
    · obtain ⟨inner, cutInner, same⟩ := Option.map_eq_some_iff.mp cut
      cases same
      have shorter := ih cutInner
      simp only [List.length_cons]
      omega

theorem cutString_append {string : CString} (chars : ∀ c ∈ string, c ≠ 0) (rest : List UInt8) :
    cutString (string ++ 0 :: rest) = some (string, rest) := by
  induction string with
  | nil => simp [cutString]
  | cons c string ih =>
    have nonzero : c ≠ 0 := chars c (List.mem_cons_self ..)
    have cut := ih fun c' member => chars c' (List.mem_cons_of_mem _ member)
    rw [List.cons_append, cutString, if_neg nonzero, cut, Option.map_some]

/-- `envmatch`: the value of `name=value` if the name is `s1`. When both strings end together, the
loop reads behind their ends. -/
def envmatch : CString → CString → Option (Option CString)
  | [], [] => none
  | [], c :: s2 => some (if c = equalsSign then some s2 else none)
  | _ :: _, [] => some none
  | a :: s1, c :: s2 =>
    if a = c then
      if a = equalsSign then some (some s2) else envmatch s1 s2
    else some none

theorem envmatch_entry {name other : CString} (valid : ValidName name)
    (validOther : ValidName other)
    (value : CString) : envmatch name (other ++ equalsSign :: value) =
      some (if name = other then some value else none) := by
  induction name generalizing other with
  | nil =>
    cases other with
    | nil => simp [envmatch]
    | cons c other =>
      have notSign := (validOther c (List.mem_cons_self ..)).1
      simp [envmatch, notSign]
  | cons a name ih =>
    have notSign := (valid a (List.mem_cons_self ..)).1
    cases other with
    | nil => simp [envmatch, notSign]
    | cons c other =>
      have rest := ih (fun c' member => valid c' (List.mem_cons_of_mem _ member))
        (fun c' member => validOther c' (List.mem_cons_of_mem _ member))
      rw [List.cons_append, envmatch]
      by_cases same : a = c
      · rw [if_pos same, if_neg notSign, rest]
        simp [same]
      · rw [if_neg same]
        simp [same]

/-- Where the scan for a variable ends. -/
inductive Found where
  | missing
  /-- At its entry: the bytes before the entry, its value, and the bytes behind its NUL. -/
  | entry (before : List UInt8) (value : CString) (after : List UInt8)
  deriving DecidableEq, Repr

namespace Found

/-- The value found. -/
def value : Found → Option CString
  | .missing => none
  | .entry _ value _ => some value

/-- The same place, seen from a string before. -/
def skip (string : CString) : Found → Found
  | .missing => .missing
  | .entry before value after => .entry (string ++ 0 :: before) value after

end Found

/-- The scan for a variable, from `env` on. -/
def scan (name : CString) (env : List UInt8) : Option Found :=
  match _cut : cutString env with
  | none => none
  | some ([], _) => some .missing
  | some (c :: string, rest) =>
    match envmatch name (c :: string) with
    | none => none
    | some (some value) => some (.entry [] value rest)
    | some none => (scan name rest).map (Found.skip (c :: string))
termination_by env.length
decreasing_by exact cutString_shorter _cut

theorem scan_nil (name : CString) (pad : List UInt8) :
    scan name (rawText [] pad) = some .missing := by
  have cut : cutString (rawText [] pad) = some ([], pad) := by simp [rawText, cutString]
  rw [scan]
  split
  · rename_i failed
    rw [cut] at failed
    cases failed
  · rfl
  · rename_i found
    rw [cut] at found
    simp at found

section Scan

variable {name : CString} (valid : ValidName name)
include valid

theorem scan_cons {entry : CString × CString} (storable : Storable entry)
    (entries : List (CString × CString)) (pad : List UInt8) :
    scan name (rawText (entry :: entries) pad) =
      if name = entry.1 then some (.entry [] entry.2 (rawText entries pad))
      else (scan name (rawText entries pad)).map (Found.skip (entry.1 ++ equalsSign :: entry.2)) := by
  have cut := cutString_append storable.chars (rawText entries pad)
  have matched := envmatch_entry valid storable.name entry.2
  rw [← rawText_string] at cut
  rw [scan]
  split
  · rename_i failed
    rw [cut] at failed
    cases failed
  · rename_i other
    rw [cut] at other
    simp at other
  · rename_i c string rest found
    have same := Option.some.inj (cut.symm.trans found)
    obtain ⟨string', rest'⟩ := Prod.mk.inj same
    rw [← string', ← rest', matched]
    by_cases own : name = entry.1
    · simp [own]
    · simp [own]

theorem scan_value {entries : List (CString × CString)}
    (storable : ∀ entry ∈ entries, Storable entry) (pad : List UInt8) :
    (scan name (rawText entries pad)).map Found.value = some (entries.lookup name) := by
  induction entries with
  | nil => simp [scan_nil, Found.value]
  | cons entry entries ih =>
    have rest := ih fun other member => storable other (List.mem_cons_of_mem _ member)
    rw [scan_cons valid (storable entry (List.mem_cons_self ..)), List.lookup_cons]
    by_cases own : name = entry.1
    · simp [own, Found.value]
    · obtain ⟨found, scanned, value⟩ := Option.map_eq_some_iff.mp rest
      have kept : (found.skip (entry.1 ++ equalsSign :: entry.2)).value = found.value := by
        cases found <;> rfl
      have differs : (name == entry.1) = false := by simpa using own
      simp [own, scanned, kept, value, differs]

theorem scan_split {before : List (CString × CString)} {value : CString}
    {after : List (CString × CString)}
    (storable : ∀ entry ∈ before ++ (name, value) :: after, Storable entry)
    (first : ∀ entry ∈ before, name ≠ entry.1) (pad : List UInt8) :
    scan name (rawText (before ++ (name, value) :: after) pad) =
      some (.entry (before.flatMap rawEntry) value (rawText after pad)) := by
  induction before with
  | nil =>
    rw [List.nil_append, scan_cons valid (storable _ (by simp)), if_pos rfl]
    rfl
  | cons entry before ih =>
    have rest := ih (fun other member => storable other (List.mem_cons_of_mem _ member))
      fun other member => first other (List.mem_cons_of_mem _ member)
    rw [List.cons_append, scan_cons valid (storable entry (by simp)),
      if_neg (first entry (List.mem_cons_self ..)), rest, Option.map_some, Found.skip]
    simp [rawEntry]

end Scan

/-! ## Reading a variable before the import -/

/-- What `getenv_f` does. -/
inductive EnvRead where
  | missing
  /-- The bytes it leaves in the buffer, and the number it returns. -/
  | copied (buf : List UInt8) (n : Nat)
  deriving DecidableEq, Repr

/-- `getenv_f`, for a buffer of `len` bytes. A value that does not fit is cut off. -/
def getenvF (data : List UInt8) (name : CString) (len : Nat) : Option EnvRead :=
  (scan name data).map fun found =>
    match found.value with
    | none => .missing
    | some value =>
      if value.length < len then .copied (value ++ [0]) value.length
      else .copied (if len = 0 then [] else value.take (len - 1) ++ [0]) len

/-- The answer of `getenv`, as `getenv_f` gives it in a buffer that is large enough. -/
def EnvRead.whole : Option CString → EnvRead
  | none => .missing
  | some value => .copied (value ++ [0]) value.length

theorem EnvRead.whole_injective : Function.Injective EnvRead.whole := by
  intro left right same
  cases left <;> cases right <;> simp_all [EnvRead.whole]

theorem getenvF_rawText {entries : List (CString × CString)}
    (storable : ∀ entry ∈ entries, Storable entry) (pad : List UInt8) {name : CString}
    (valid : ValidName name) {len : Nat} (large : ∀ entry ∈ entries, entry.2.length < len) :
    getenvF (rawText entries pad) name len = some (.whole (entries.lookup name)) := by
  obtain ⟨found, scanned, value⟩ := Option.map_eq_some_iff.mp (scan_value valid storable pad)
  rw [getenvF, scanned, Option.map_some, value]
  cases first : entries.lookup name with
  | none => rfl
  | some value =>
    obtain ⟨before, after, split, -⟩ := List.lookup_eq_some_iff.mp first
    have fits := large (name, value) (by simp [split])
    simp only [EnvRead.whole, if_pos fits]

/-- Before and after the import of a text, every variable reads the same. -/
def ReadsAgree (entries : List (CString × CString)) (pad : List UInt8) : Prop :=
  ∃ after, himportR none (rawText entries pad) 0 false false [] = some (true, some after) ∧
    ∀ name len, ValidName name → (∀ entry ∈ entries, entry.2.length < len) →
      ∃ answer, getenv after name = some answer ∧
        getenvF (rawText entries pad) name len = some (.whole answer)

/-- What a text needs for that. -/
structure Unambiguous (entries : List (CString × CString)) (size : Nat) : Prop where
  names : ∀ entry ∈ entries, ImportName entry.1
  /-- The last value of a name is not empty, and is the first one once its escapes are removed. -/
  values : ∀ name first last, entries.lookup name = some first →
    entries.reverse.lookup name = some last → last ≠ [] ∧ unescape last = first
  room : (entries.map Prod.fst).toFinset.card ≤ tableSize (importEntries size)

/-- No step of the import takes the branch that comes back to the first bucket. -/
def SafeImport (entries : List (CString × CString)) (size : Nat) : Prop :=
  ∀ new, hcreateR (importEntries size) = some new → SafeRun new (entries.map rawOp)

theorem safeImport_of_values {entries : List (CString × CString)}
    (values : ∀ entry ∈ entries, entry.2 ≠ []) (size : Nat) : SafeImport entries size := by
  intro new created
  exact (hcreateR_represents created).safeRun_enters (hcreateR_fresh created) values

section Agree

variable {entries : List (CString × CString)} {pad : List UInt8}

theorem lookup_of_mem {name : CString} (member : name ∈ entries.map Prod.fst) :
    (∃ first, entries.lookup name = some first) ∧
      ∃ last, entries.reverse.lookup name = some last := by
  have found {list : List (CString × CString)} (among : name ∈ list.map Prod.fst) :
      ∃ value, list.lookup name = some value := by
    obtain ⟨entry, here, rfl⟩ := List.mem_map.mp among
    apply Option.isSome_iff_exists.mp
    rw [List.lookup_isSome_iff]
    exact ⟨entry, here, by simp⟩
  exact ⟨found member, found (by simpa using member)⟩

/-- A text that reads the same before and after its import is unambiguous. -/
theorem ReadsAgree.unambiguous (ends : EndsText entries pad)
    (storable : ∀ entry ∈ entries, Storable entry) (agree : ReadsAgree entries pad) :
    Unambiguous entries (rawText entries pad).length := by
  obtain ⟨after, imported, same⟩ := agree
  obtain ⟨intact, size⟩ := himportR_intact imported
  obtain ⟨new, created, newSize, low, -⟩ := hcreateR_import (rawText entries pad).length
  have large : ∃ len, ∀ entry ∈ entries, entry.2.length < len := by
    let lengths := fun entry : CString × CString => entry.2.length
    refine ⟨entries.toFinset.sup lengths + 1, ?_⟩
    intro entry member
    have below : lengths entry ≤ entries.toFinset.sup lengths :=
      Finset.le_sup (List.mem_toFinset.mpr member)
    exact Nat.lt_succ_of_le below
  obtain ⟨len, fits⟩ := large
  have live {name value : CString} (first : entries.lookup name = some value) :
      Live after name value := by
    obtain ⟨before, others, split, -⟩ := List.lookup_eq_some_iff.mp first
    have valid : ValidName name := (storable (name, value) (by simp [split])).name
    obtain ⟨answer, held, read⟩ := same name len valid fits
    rw [getenvF_rawText storable pad valid fits, first] at read
    have answers := EnvRead.whole_injective (Option.some.inj read)
    exact ((intact.getenv_eq name answer).mp held value).mp answers.symm
  have names : ∀ entry ∈ entries, ImportName entry.1 := by
    intro entry member
    obtain ⟨⟨first, found⟩, -⟩ := lookup_of_mem (List.mem_map_of_mem member)
    exact himportR_names imported (live found)
  refine ⟨names, ?_, ?_⟩
  · intro name first last found foundLast
    obtain ⟨table, ran, -⟩ := runTable_intact created (entries.map rawOp)
    cases imported.symm.trans (himportR_rawText ends storable names created ran)
    have blank : ∀ name value, Live new name value → none = some value := by
      intro name value here
      rw [← (hcreateR_represents created).entries] at here
      simp at here
    have known := (hcreateR_intact created).live_runTable (by omega) ran blank name first (live found)
    rw [foldl_knownAfter, foundLast] at known
    simp only [importedValue] at known
    split at known
    · cases known
    · rename_i nonempty
      exact ⟨nonempty, Option.some.inj known⟩
  · rw [← size]
    apply intact.card_le
    intro name member
    obtain ⟨⟨first, found⟩, -⟩ := lookup_of_mem (List.mem_toFinset.mp member)
    exact ⟨first, live found⟩

/-- An unambiguous text that is imported safely reads the same before and after. -/
theorem Unambiguous.readsAgree (ends : EndsText entries pad)
    (storable : ∀ entry ∈ entries, Storable entry)
    (unambiguous : Unambiguous entries (rawText entries pad).length)
    (safe : SafeImport entries (rawText entries pad).length) : ReadsAgree entries pad := by
  obtain ⟨new, created, newSize, low, -⟩ := hcreateR_import (rawText entries pad).length
  have rep := hcreateR_represents created
  have own : ∀ entry ∈ entries, entry.1 ∈ (entries.map Prod.fst).toFinset := by
    intro entry member
    exact List.mem_toFinset.mpr (List.mem_map_of_mem member)
  obtain ⟨last, m, ran, rep', lookup⟩ :=
    rep.rawRun (safe new created) (by simp) own (newSize ▸ unambiguous.room)
  refine ⟨last, himportR_rawText ends storable unambiguous.names created ran, ?_⟩
  intro name len valid fits
  refine ⟨entries.lookup name, ?_, getenvF_rawText storable pad valid fits⟩
  rw [rep'.toIntact.getenv_eq]
  intro value
  rw [← rep'.entries]
  have known : m.lookup name = entries.lookup name := by
    refine (congrFun lookup name).trans ?_
    rw [foldl_knownAfter]
    by_cases member : name ∈ entries.map Prod.fst
    · obtain ⟨⟨first, found⟩, ⟨final, foundLast⟩⟩ := lookup_of_mem member
      obtain ⟨nonempty, same⟩ := unambiguous.values name first final found foundLast
      rw [found, foundLast]
      simp only [importedValue, if_neg nonempty, same]
    · have missing {list : List (CString × CString)} (absent : name ∉ list.map Prod.fst) :
          list.lookup name = none := by
        rw [List.lookup_eq_none_iff]
        intro entry among
        have different : name ≠ entry.1 := by
          rintro rfl
          exact absent (List.mem_map_of_mem among)
        simpa using different
      rw [missing member, missing (by simpa using member)]
      rfl
  rw [known]

end Agree

/-- A stored text reads the same before and after its import only if it is unambiguous; that is
enough if the import is safe. -/
theorem getenvF_agrees (entries : List (CString × CString)) (pad : List UInt8)
    (ends : EndsText entries pad) (storable : ∀ entry ∈ entries, Storable entry) :
    (ReadsAgree entries pad → Unambiguous entries (rawText entries pad).length) ∧
      (Unambiguous entries (rawText entries pad).length ∧
        SafeImport entries (rawText entries pad).length → ReadsAgree entries pad) := by
  constructor
  · intro agree
    exact agree.unambiguous ends storable
  · rintro ⟨unambiguous, safe⟩
    exact unambiguous.readsAgree ends storable safe

/-- A text with a variable that is there twice, and one whose value ends with a backslash. -/
def repeatedText : List (CString × CString) := [([97], [49]), ([98], [50, 92]), ([97], [49])]

theorem storable_repeatedText : ∀ entry ∈ repeatedText, Storable entry := by
  intro entry member
  simp only [repeatedText, List.mem_cons, List.not_mem_nil, or_false] at member
  rcases member with rfl | rfl | rfl
  all_goals exact ⟨by simp [ValidName, equalsSign], by simp⟩

/-- It reads the same before and after its import. -/
theorem getenvF_agrees_repeatedText : ReadsAgree repeatedText [] := by
  have nonempty : ∀ entry ∈ repeatedText, entry.2 ≠ [] := by
    simp [repeatedText]
  apply (getenvF_agrees repeatedText [] (fun empty => absurd empty (by simp [repeatedText]))
    storable_repeatedText).2
  refine ⟨⟨?_, ?_, ?_⟩, safeImport_of_values nonempty _⟩
  · intro entry member
    simp only [repeatedText, List.mem_cons, List.not_mem_nil, or_false] at member
    rcases member with rfl | rfl | rfl
    all_goals exact ⟨by simp, by simp [isblank, numberSign]⟩
  · intro name first last found foundLast
    obtain ⟨before, after, split, -⟩ := List.lookup_eq_some_iff.mp found
    have member : (name, first) ∈ repeatedText := by simp [split]
    simp only [repeatedText, List.mem_cons, List.not_mem_nil, or_false, Prod.mk.injEq] at member
    rcases member with ⟨rfl, rfl⟩ | ⟨rfl, rfl⟩ | ⟨rfl, rfl⟩
    · have final : repeatedText.reverse.lookup [97] = some [49] := by decide
      rw [final] at foundLast
      cases foundLast
      exact ⟨by simp, by decide⟩
    · have final : repeatedText.reverse.lookup [98] = some [50, 92] := by decide
      rw [final] at foundLast
      cases foundLast
      exact ⟨by simp, by decide⟩
    · have final : repeatedText.reverse.lookup [97] = some [49] := by decide
      rw [final] at foundLast
      cases foundLast
      exact ⟨by simp, by decide⟩
  · obtain ⟨start, -, size, low, -⟩ := hcreateR_import (rawText repeatedText []).length
    have names : (repeatedText.map Prod.fst).toFinset.card = 2 := by decide
    rw [← size, names]
    omega

/-- A value with a backslash does not. -/
theorem getenvF_disagrees : ¬ReadsAgree [([97], [92, 110])] [] := by
  intro agree
  have storable : ∀ entry ∈ [(([97], [92, 110]) : CString × CString)], Storable entry := by
    intro entry member
    rw [List.mem_singleton.mp member]
    exact ⟨by simp [ValidName, equalsSign], by simp⟩
  have unambiguous := agree.unambiguous (fun empty => absurd empty (by simp)) storable
  have values := unambiguous.values [97] [92, 110] [92, 110] (by decide) (by decide)
  exact absurd values.2 (by decide)

end HrppBoot.Env
