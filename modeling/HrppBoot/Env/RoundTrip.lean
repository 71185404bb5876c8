import HrppBoot.Env.TableMap
import HrppBoot.Env.ImportExport
import Mathlib.Tactic.NormNum.Prime

/-!
# Export and import again

The text that `hexport_r` writes is parsed by `himport_r` into the entries it was written from, in
the order of the text, and entering distinct keys into a new table never meets a tombstone. So the
new table has the same entries, as long as it has a bucket for each of them: its size is clipped
when it is created. Escapes are counted in the room for the text only if the separator is not NUL.
-/

namespace HrppBoot.Env

/-! ## Entering distinct keys -/

/-- The table has no deleted bucket. -/
def NoTombstones (htab : HsearchData) : Prop := ∀ i, htab.table i ≠ .deleted

variable {htab after : HsearchData} {m : EnvMap} {vars : VarSet}

theorem Intact.card_le (intact : Intact htab) {keys : Finset CString}
    (present : ∀ key ∈ keys, ∃ data, Live htab key data) : keys.card ≤ htab.size := by
  have bucket : ∀ key ∈ keys, ∃ i ∈ Finset.Icc 1 htab.size, ∃ used data,
      htab.table i = .live used key data := by
    intro key member
    obtain ⟨data, i, used, live⟩ := present key member
    obtain ⟨-, j, within, here, -⟩ := intact.reached live
    have bounds := probePath_bounds intact.size key within
    rw [here] at bounds
    exact ⟨i, Finset.mem_Icc.mpr bounds, used, data, live⟩
  choose! slot inside used data live using bucket
  have injective : Set.InjOn slot keys := by
    intro key member key' member' same
    have left := live key member
    rw [same, live key' member'] at left
    exact (Bucket.live.inj left).2.1.symm
  have card := Finset.card_le_card_of_injOn slot inside injective
  simpa using card

theorem Represents.card_le (rep : Represents htab m) :
    m.keys.card ≤ htab.size := by
  apply rep.toIntact.card_le
  intro key member
  obtain ⟨data, present⟩ := Finmap.mem_iff.mp (Finmap.mem_keys.mp member)
  exact ⟨data, (rep.entries key data).mp present⟩

theorem Represents.full (rep : Represents htab m) (fresh : NoTombstones htab)
    (used : ∀ i, 1 ≤ i → i ≤ htab.size → htab.table i ≠ .empty) :
    htab.filled = htab.size := by
  have key : ∀ i ∈ Finset.Icc 1 htab.size, ∃ key ∈ m.keys, ∃ hash data,
      htab.table i = .live hash key data := by
    intro i member
    obtain ⟨low, high⟩ := Finset.mem_Icc.mp member
    cases bucket : htab.table i with
    | empty => exact absurd bucket (used i low high)
    | deleted => exact absurd bucket (fresh i)
    | live hash key data =>
      have present := (rep.entries key data).mpr ⟨i, hash, bucket⟩
      exact ⟨key, Finmap.mem_keys.mpr (Finmap.mem_of_lookup_eq_some present), hash, data, rfl⟩
  choose! keyOf member hash data live using key
  have injective : Set.InjOn keyOf (Finset.Icc 1 htab.size) := by
    intro i inside i' inside' same
    have left := live i inside
    rw [same] at left
    exact rep.unique left (live i' inside')
  have card := Finset.card_le_card_of_injOn keyOf member injective
  have atMost := rep.card_le
  rw [rep.filled]
  simp only [Nat.card_Icc, Nat.add_sub_cancel] at card
  omega

theorem Represents.safe_of_fresh (rep : Represents htab m) (fresh : NoTombstones htab)
    (key data : CString) : Safe htab (.enter key data) := by
  by_cases unused : ∃ i, 1 ≤ i ∧ i ≤ htab.size ∧ htab.table i = .empty
  · exact .inr (.inr (.inr unused))
  · refine .inr (.inl (rep.full fresh fun i low high empty => ?_))
    exact unused ⟨i, low, high, empty⟩

theorem hsearchEnter_fresh {key data : CString} {result : Except Errno CString}
    (fresh : NoTombstones htab) (entered : hsearchEnter htab key data = some (result, after))
    : NoTombstones after := by
  have written (slot : Nat) (filled : Nat) : NoTombstones
      { htab.setBucket slot (.live (firstHash htab.size key) key data) with filled := filled } := by
    intro i
    by_cases same : i = slot
    · subst same
      simp [HsearchData.setBucket]
    · simpa [HsearchData.setBucket, same] using fresh i
  simp only [hsearchEnter] at entered
  split at entered
  · cases entered
  · cases entered
    exact written _ htab.filled
  · split at entered
    · cases entered
      exact fresh
    · cases entered
      exact written _ _

theorem hcreateR_fresh {nel : Nat} (created : hcreateR nel = some htab) :
    NoTombstones htab := by
  simp only [hcreateR] at created
  split at created
  · cases created
    intro i
    simp
  · cases created

theorem Represents.enterNew (rep : Represents htab m) (fresh : NoTombstones htab) {key : CString}
    (data : CString) (absent : m.lookup key = none) (room : m.keys.card < htab.size) :
    ∃ after, hsearchEnter htab key data = some (.ok data, after) ∧ after.size = htab.size ∧
      Represents after (m.insert key data) ∧ NoTombstones after := by
  obtain ⟨after, stepped, size, rep'⟩ := rep.enter (rep.safe_of_fresh fresh key data)
  have below : m.keys.card ≠ htab.size := by omega
  simp only [mapStep, absent, below, and_false, ↓reduceIte] at stepped rep'
  obtain ⟨⟨result, after'⟩, entered, same⟩ := Option.map_eq_some_iff.mp stepped
  cases same
  exact ⟨_, entered, size, rep', hsearchEnter_fresh fresh entered⟩

/-! ## The entries of a table -/

/-- The map of a list of entries, later ones winning. -/
def entriesMap (m : EnvMap) (entries : List (CString × CString)) : EnvMap :=
  entries.foldl (fun m entry => m.insert entry.1 entry.2) m

theorem insert_absent {entry : CString × CString} {entries : List (CString × CString)}
    (distinct : ((entry :: entries).map Prod.fst).Nodup)
    (absent : ∀ other ∈ entry :: entries, m.lookup other.1 = none) :
    ∀ other ∈ entries, (m.insert entry.1 entry.2).lookup other.1 = none := by
  intro other member
  have different : other.1 ≠ entry.1 := by
    intro same
    exact (List.nodup_cons.mp distinct).1 (same ▸ List.mem_map_of_mem member)
  rw [Finmap.lookup_insert_of_ne _ different]
  exact absent other (List.mem_cons_of_mem _ member)

theorem card_keys_insert_le (m : EnvMap) (key data : CString) :
    (m.insert key data).keys.card ≤ m.keys.card + 1 := by
  rw [keys_insert]
  exact Finset.card_insert_le ..

theorem lookup_entriesMap {entries : List (CString × CString)}
    (distinct : (entries.map Prod.fst).Nodup) (absent : ∀ entry ∈ entries, m.lookup entry.1 = none)
    (key data : CString) :
    (entriesMap m entries).lookup key = some data ↔
      m.lookup key = some data ∨ (key, data) ∈ entries := by
  induction entries generalizing m with
  | nil => simp [entriesMap]
  | cons entry entries ih =>
    have step := ih (List.nodup_cons.mp distinct).2 (insert_absent distinct absent)
    rw [entriesMap, List.foldl_cons]
    refine step.trans ?_
    by_cases same : key = entry.1
    · subst same
      have gone := absent entry (List.mem_cons_self ..)
      have pair : (entry.1, data) = entry ↔ entry.2 = data :=
        ⟨fun equal => (congrArg Prod.snd equal).symm, fun equal => Prod.ext rfl equal.symm⟩
      rw [Finmap.lookup_insert, gone, List.mem_cons, pair, Option.some.injEq]
      simp
    · rw [Finmap.lookup_insert_of_ne _ same, List.mem_cons]
      have different : (key, data) ≠ entry := fun equal => same (congrArg Prod.fst equal)
      simp [different]

theorem mem_tableEntries (intact : Intact htab) (key data : CString) :
    (key, data) ∈ tableEntries htab ↔ Live htab key data := by
  rw [tableEntries, List.mem_filterMap]
  simp only [Bucket.entry_eq_some]
  constructor
  · rintro ⟨i, -, used, live⟩
    exact ⟨i, used, live⟩
  · rintro ⟨i, used, live⟩
    obtain ⟨-, j, within, here, -⟩ := intact.reached live
    have bounds := probePath_bounds intact.size key within
    rw [here] at bounds
    exact ⟨i, List.mem_range'_1.mpr (by omega), used, live⟩

theorem tableEntries_distinct (intact : Intact htab) :
    ((tableEntries htab).map Prod.fst).Nodup := by
  rw [tableEntries, List.map_filterMap]
  refine List.Nodup.filterMap ?_ (List.nodup_range' 1)
  intro i i' key left right
  obtain ⟨entry, bucket, rfl⟩ := Option.map_eq_some_iff.mp (Option.mem_def.mp left)
  obtain ⟨entry', bucket', same⟩ := Option.map_eq_some_iff.mp (Option.mem_def.mp right)
  obtain ⟨used, live⟩ := Bucket.entry_eq_some.mp bucket
  obtain ⟨used', live'⟩ := Bucket.entry_eq_some.mp bucket'
  rw [same] at live'
  exact intact.unique live live'

/-! ## Parsing what was written -/

/-- Keys and values that can be exported and imported again. -/
structure Portable (sep : UInt8) (entry : CString × CString) : Prop where
  keyNonempty : entry.1 ≠ []
  keyChars : ∀ c ∈ entry.1, c ≠ equalsSign ∧ c ≠ 0 ∧ c ≠ sep
  keyStart : ∀ c ∈ entry.1.head?, isblank c = false ∧ c ≠ numberSign
  valueNonempty : entry.2 ≠ []
  valueChars : ∀ c ∈ entry.2, c ≠ 0

/-- The separators of the environment's text forms. -/
def TextSeparator (sep : UInt8) : Prop := sep = 0 ∨ sep = lineFeed

section Parse

variable {sep : UInt8} (separator : TextSeparator sep)
include separator

theorem parseValue_escape (value rest : List UInt8) (chars : ∀ c ∈ value, c ≠ 0) :
    parseValue sep (escape sep value ++ sep :: rest) = some (value, rest) := by
  have notBackslash : backslash ≠ 0 ∧ backslash ≠ sep := by
    rcases separator with rfl | rfl <;> decide
  induction value with
  | nil => exact parseValue_end (.inr rfl) rest
  | cons c value ih =>
    have nonzero : c ≠ 0 := chars c (List.mem_cons_self ..)
    have parsed := ih fun c' member => chars c' (List.mem_cons_of_mem _ member)
    have unfolded : escape sep (c :: value) =
        (if Escaped sep c then [backslash, c] else [c]) ++ escape sep value := rfl
    rw [unfolded]
    by_cases escaped : Escaped sep c
    · rw [if_pos escaped]
      simp only [List.cons_append, List.nil_append]
      rw [parseValue_escaped notBackslash.2 nonzero, parsed, Option.map_some]
    · rw [if_neg escaped]
      obtain ⟨notSep, notEscape⟩ := not_or.mp escaped
      simp only [List.cons_append, List.nil_append]
      rw [parseValue_plain nonzero notSep notEscape, parsed, Option.map_some]

/-- A written entry is parsed back. -/
theorem parseItem_encodeEntry {entry : CString × CString} (portable : Portable sep entry)
    (rest : List UInt8) :
    parseItem sep (encodeEntry sep entry ++ rest) = some (.entry entry.1 entry.2, rest) := by
  obtain ⟨key, value⟩ := entry
  obtain ⟨keyNonempty, keyChars, keyStart, valueNonempty, valueChars⟩ := portable
  simp only at keyNonempty keyChars keyStart valueNonempty valueChars
  have text : encodeEntry sep (key, value) ++ rest =
      key ++ equalsSign :: (escape sep value ++ sep :: rest) := by
    simp [encodeEntry]
  have isName : ∀ c ∈ key, nameChar sep c = true := by
    intro c member
    simpa [nameChar] using keyChars c member
  have notName : nameChar sep equalsSign = false := by simp [nameChar]
  have parsed := parseValue_escape separator value rest valueChars
  cases key with
  | nil => exact absurd rfl keyNonempty
  | cons k key =>
    obtain ⟨notBlank, notComment⟩ := keyStart k rfl
    cases value with
    | nil => exact absurd rfl valueNonempty
    | cons v value =>
      have next : ∃ n tail, escape sep (v :: value) ++ sep :: rest = n :: tail ∧ n ≠ 0 ∧
        n ≠ sep := by
        have notBackslash : backslash ≠ 0 ∧ backslash ≠ sep := by
          rcases separator with rfl | rfl <;> decide
        by_cases escaped : Escaped sep v
        · exact ⟨backslash, v :: (escape sep value ++ sep :: rest), by
            simp [escape, escaped], notBackslash⟩
        · exact ⟨v, escape sep value ++ sep :: rest, by simp [escape, escaped],
            valueChars v (List.mem_cons_self ..), (not_or.mp escaped).1⟩
      obtain ⟨n, tail, written, nonzero, notSep⟩ := next
      have sign : equalsSign ≠ 0 ∧ equalsSign ≠ sep := by
        rcases separator with rfl | rfl <;> decide
      have name : (k :: key ++ equalsSign :: (n :: tail)).takeWhile (nameChar sep) = k :: key := by
        rw [List.takeWhile_append_of_pos isName, List.takeWhile_cons_of_neg (by simp [notName])]
        simp
      have after : (k :: key ++ equalsSign :: (n :: tail)).dropWhile (nameChar sep) =
          equalsSign :: (n :: tail) := by
        rw [List.dropWhile_append_of_pos isName, List.dropWhile_cons_of_neg (by simp [notName])]
      rw [text, written, parseItem, List.cons_append,
        List.dropWhile_cons_of_neg (by simp [notBlank])]
      simp only [notComment, ↓reduceIte]
      rw [← List.cons_append, name, after, parseAfterName]
      rw [written] at parsed
      simp [sign, nonzero, notSep, parsed]

end Parse

/-! ## The importer's loop -/

theorem importLoop_turn {sep : UInt8} {vars' : VarSet} {dp rest : List UInt8} {item : Item}
    (parsed : parseItem sep dp = some (item, rest))
    (applied : applyItem htab vars item = some (.done after vars')) :
    importLoop sep htab vars dp =
      if rest.head? = none ∨ rest.head? = some 0 then some (true, after, vars')
      else importLoop sep after vars' rest := by
  rw [importLoop]
  split
  · rename_i failed
    rw [parsed] at failed
    cases failed
  · rename_i item' rest' parsed'
    cases parsed.symm.trans parsed'
    rw [applied]

/-- Importing the written form of entries with new, distinct keys enters them all, in a table that
has room for them. -/
theorem importLoop_entries {sep : UInt8} (separator : TextSeparator sep)
    (entries : List (CString × CString)) (nonempty : entries ≠ []) (pad : List UInt8)
    (rep : Represents htab m) (fresh : NoTombstones htab)
    (portable : ∀ entry ∈ entries, Portable sep entry) (distinct : (entries.map Prod.fst).Nodup)
    (absent : ∀ entry ∈ entries, m.lookup entry.1 = none)
    (room : m.keys.card + entries.length ≤ htab.size) :
    ∃ after, importLoop sep htab [] (entries.flatMap (encodeEntry sep) ++ 0 :: pad) =
        some (true, after, []) ∧ Represents after (entriesMap m entries) := by
  induction entries generalizing htab m with
  | nil => exact absurd rfl nonempty
  | cons entry entries ih =>
    have own := portable entry (List.mem_cons_self ..)
    have gone := absent entry (List.mem_cons_self ..)
    simp only [List.length_cons] at room
    obtain ⟨after, entered, size, rep', fresh'⟩ :=
      rep.enterNew fresh entry.2 gone (by omega)
    have applied : applyItem htab [] (.entry entry.1 entry.2) = some (.done after []) := by
      simp [applyItem, own.keyNonempty, dropVarFromSet, entered]
    have parsed := parseItem_encodeEntry separator own
      (entries.flatMap (encodeEntry sep) ++ 0 :: pad)
    rw [List.flatMap_cons, List.append_assoc]
    cases entries with
    | nil =>
      refine ⟨after, ?_, rep'⟩
      rw [importLoop_turn parsed applied]
      simp
    | cons next entries =>
      have card := card_keys_insert_le m entry.1 entry.2
      obtain ⟨last, imported, repLast⟩ := ih (List.cons_ne_nil _ _) rep' fresh'
        (fun other member => portable other (List.mem_cons_of_mem _ member))
        (List.nodup_cons.mp distinct).2 (insert_absent distinct absent) (by omega)
      refine ⟨last, ?_, repLast⟩
      have goesOn : ∃ c rest, (next :: entries).flatMap (encodeEntry sep) ++ 0 :: pad = c :: rest ∧
          c ≠ 0 := by
        have other := portable next (by simp)
        cases key : next.1 with
        | nil => exact absurd key other.keyNonempty
        | cons c tail =>
          have nonzero := (other.keyChars c (by simp [key])).2.1
          exact ⟨c, _, by rw [List.flatMap_cons, encodeEntry, key]; rfl, nonzero⟩
      obtain ⟨c, rest, text, nonzero⟩ := goesOn
      rw [importLoop_turn parsed applied, imported, text]
      simp [nonzero]

theorem importLoop_empty (sep : UInt8) (rep : Represents htab ∅) (zeros : Nat) :
    importLoop sep htab [] (0 :: List.replicate zeros 0) = some (true, htab, []) := by
  have parsed : parseItem sep (0 :: List.replicate zeros 0) =
      some (.delete [], List.replicate zeros 0) := by
    simp [parseItem, isblank, numberSign, parseAfterName, nameChar]
  have missing : hsearchFind htab [] = some (.error .esrch) := (rep.find []).2 (by simp)
  have applied : applyItem htab [] (.delete []) = some (.done htab []) := by
    simp [applyItem, dropVarFromSet, hdeleteR, missing]
  rw [importLoop_turn parsed applied]
  cases zeros <;> simp [List.replicate_succ]

/-! ## The round trip -/

/-- All entries, as they are exported. -/
def allEntries (htab : HsearchData) : List (CString × CString) :=
  exportList htab fun _ _ => true

theorem allEntries_perm (htab : HsearchData) : (allEntries htab).Perm (tableEntries htab) := by
  unfold allEntries exportList
  rw [List.filter_true]
  exact List.mergeSort_perm _ _

/-- The size of the buffer the text is in. -/
def bufferSize (htab : HsearchData) (sep : UInt8) (size : Nat) : Nat :=
  if size ≠ 0 then size else totlen sep (allEntries htab) + 1

/-- The length of the text with its final NUL. -/
def textLength (htab : HsearchData) (sep : UInt8) : Nat :=
  ((allEntries htab).flatMap (encodeEntry sep)).length + 1

theorem length_escape (sep : UInt8) (value : CString) :
    (escape sep value).length = value.length + value.countP fun c => Escaped sep c := by
  induction value with
  | nil => rfl
  | cons c value ih =>
    have unfolded : escape sep (c :: value) =
        (if Escaped sep c then [backslash, c] else [c]) ++ escape sep value := rfl
    rw [unfolded, List.length_append, ih, List.countP_cons]
    by_cases escaped : Escaped sep c
    · simp [escaped]
      omega
    · simp [escaped]
      omega

theorem length_flatMap_encodeEntry {sep : UInt8} {list : List (CString × CString)}
    (enough : ∀ entry ∈ list, (encodeEntry sep entry).length ≤ entryRoom sep entry) :
    (list.flatMap (encodeEntry sep)).length ≤ totlen sep list := by
  induction list with
  | nil => simp
  | cons entry list ih =>
    have own := enough entry (List.mem_cons_self ..)
    have rest := ih fun other member => enough other (List.mem_cons_of_mem _ member)
    simp only [List.flatMap_cons, List.length_append, totlen, List.map_cons,
      List.sum_cons] at rest ⊢
    omega

theorem length_encodeEntry_le {sep : UInt8} (counted : sep ≠ 0) (entry : CString × CString) :
    (encodeEntry sep entry).length ≤ entryRoom sep entry := by
  simp only [encodeEntry, entryRoom, counted, ↓reduceIte, List.length_append, List.length_cons,
    length_escape, List.length_nil]
  omega

theorem hexportR_text {sep : UInt8} {size : Nat}
    (accepted : size = 0 ∨ totlen sep (allEntries htab) < size)
    (fits : sep = 0 → textLength htab sep ≤ bufferSize htab sep size) :
    ∃ zeros, hexportR htab sep (fun _ _ => true) size =
        .text ((allEntries htab).flatMap (encodeEntry sep) ++ 0 :: List.replicate zeros 0) ∧
      ((allEntries htab).flatMap (encodeEntry sep) ++ 0 :: List.replicate zeros 0).length =
        bufferSize htab sep size := by
  have inside : textLength htab sep ≤ bufferSize htab sep size := by
    by_cases nul : sep = 0
    · exact fits nul
    · have counted : ((allEntries htab).flatMap (encodeEntry sep)).length ≤
          totlen sep (allEntries htab) :=
        length_flatMap_encodeEntry fun entry _ => length_encodeEntry_le nul entry
      unfold textLength bufferSize
      split <;> omega
  unfold textLength at inside
  refine ⟨bufferSize htab sep size - textLength htab sep, ?_, ?_⟩
  · have large : ¬(size ≠ 0 ∧ size < totlen sep (allEntries htab) + 1) := by omega
    unfold textLength
    unfold bufferSize at inside ⊢
    unfold allEntries at *
    simp only [hexportR, if_neg large, List.length_append, List.length_singleton, if_pos inside,
      List.append_assoc, List.singleton_append]
  · simp only [List.length_append, List.length_cons, List.length_replicate, textLength]
    omega

theorem hcreateR_moderate {nel : Nat} (moderate : nel ≤ 601) :
    ∃ htab, hcreateR nel = some htab ∧ htab.size = tableSize nel := by
  have bound : tableSize nel ≤ 601 := tableSize_le (by norm_num) (by decide) moderate
  refine ⟨_, if_pos ?_, rfl⟩
  unfold sizeofEntry
  omega

theorem hcreateR_import (size : Nat) :
    ∃ htab, hcreateR (importEntries size) = some htab ∧
      htab.size = tableSize (importEntries size) ∧ 64 ≤ htab.size ∧ htab.size ≤ 521 := by
  have clipped : 64 ≤ importEntries size ∧ importEntries size ≤ 512 := by
    have least : configEnvMinEntries = 64 := rfl
    have most : configEnvMaxEntries = 512 := rfl
    simp only [importEntries]
    split <;> omega
  obtain ⟨htab, made, same⟩ := hcreateR_moderate (show importEntries size ≤ 601 by omega)
  have low := le_tableSize (importEntries size)
  have high : tableSize (importEntries size) ≤ 521 :=
    tableSize_le (by norm_num) (by decide) (by omega)
  exact ⟨htab, made, same, by omega, by omega⟩

/-- A table made by a history on a new table is exported and imported again with the same entries,
if the new table has a bucket for each of them. With NUL as the separator, the text also has to fit
the buffer. -/
theorem himportR_hexportR (nel : Nat) (new htab : HsearchData) (ops : List Op) (sep : UInt8)
    (size : Nat) (created : hcreateR nel = some new) (ran : runTable new ops = some htab)
    (separator : TextSeparator sep)
    (portable : ∀ key data, Live htab key data → Portable sep (key, data))
    (accepted : size = 0 ∨ totlen sep (allEntries htab) < size)
    (fits : sep = 0 → textLength htab sep ≤ bufferSize htab sep size)
    (room : (allEntries htab).length ≤ tableSize (importEntries (bufferSize htab sep size))) :
    ∃ text after, hexportR htab sep (fun _ _ => true) size = .text text ∧
      himportR none text sep false false [] = some (true, some after) ∧
      ∀ key data, Live after key data ↔ Live htab key data := by
  have intact : Intact htab := by
    obtain ⟨last, ran', intact⟩ := runTable_intact created ops
    cases ran.symm.trans ran'
    exact intact
  have perm := allEntries_perm htab
  have listed (key data : CString) : (key, data) ∈ allEntries htab ↔ Live htab key data :=
    perm.mem_iff.trans (mem_tableEntries intact key data)
  have distinct : ((allEntries htab).map Prod.fst).Nodup :=
    (perm.map Prod.fst).nodup_iff.mpr (tableEntries_distinct intact)
  obtain ⟨zeros, exported, length⟩ := hexportR_text accepted fits
  obtain ⟨start, made, startSize, -, -⟩ := hcreateR_import (bufferSize htab sep size)
  have rep := hcreateR_represents made
  have imported : ∃ after, importLoop sep start []
      ((allEntries htab).flatMap (encodeEntry sep) ++ 0 :: List.replicate zeros 0) =
        some (true, after, []) ∧ Represents after (entriesMap ∅ (allEntries htab)) := by
    by_cases empty : allEntries htab = []
    · rw [empty]
      exact ⟨start, importLoop_empty sep rep zeros, rep⟩
    · apply importLoop_entries separator _ empty _ rep (hcreateR_fresh made) _ distinct
      · simp
      · simpa [startSize] using room
      · intro entry member
        exact portable _ _ ((listed _ _).mp member)
  obtain ⟨after, looped, rep'⟩ := imported
  refine ⟨_, after, exported, ?_, ?_⟩
  · unfold himportR
    simp only [Bool.false_eq_true, ↓reduceIte, Option.orElse_none, length, made, List.map_nil,
      looped]
    rw [if_neg]
    · rfl
    · rw [← length, List.length_append, List.length_cons]
      omega
  · intro key data
    rw [← rep'.entries, lookup_entriesMap distinct (by simp), listed]
    simp

/-- One key whose value has a separator, a backslash, an equals sign and a number sign. -/
def oddValue : HsearchData :=
  { fiveBuckets.setBucket 3 (.live 3 [97] [10, 92, 61, 35]) with filled := 1 }

/-- It is exported and imported again. -/
theorem himportR_hexportR_oddValue :
    ∃ text after, hexportR oddValue lineFeed (fun _ _ => true) 0 = .text text ∧
      himportR none text lineFeed false false [] = some (true, some after) ∧
      ∀ key data, Live after key data ↔ Live oddValue key data := by
  have entries : allEntries oddValue = [([97], [10, 92, 61, 35])] := by
    have listed : tableEntries oddValue = [([97], [10, 92, 61, 35])] := by decide
    rw [allEntries, exportList, listed]
    simp
  refine himportR_hexportR 5 fiveBuckets _ [.enter [97] [10, 92, 61, 35]] lineFeed 0 hcreateR_five
    rfl (.inr rfl) ?_ (.inl rfl) (by decide) ?_
  · rintro key data ⟨i, used, live⟩
    have same : key = [97] ∧ data = [10, 92, 61, 35] := by
      simp only [oddValue, HsearchData.setBucket] at live
      split at live
      · cases live
        exact ⟨rfl, rfl⟩
      · cases live
    rw [same.1, same.2]
    exact ⟨by simp, by simp [equalsSign, lineFeed], by simp [isblank, numberSign], by simp, by simp⟩
  · rw [entries]
    obtain ⟨start, -, size, low, -⟩ := hcreateR_import (bufferSize oddValue lineFeed 0)
    rw [← size, List.length_singleton]
    omega

/-! ## The importer's clipped table -/

theorem Intact.applyItem {vars' : VarSet} {item : Item} (intact : Intact htab)
    (large : htab.size ≠ 1) (applied : applyItem htab vars item = some (.done after vars')) :
    Intact after ∧ after.size = htab.size := by
  have stepped (op : Op) {output : Output} (taken : Env.step htab op = some (output, after)) :
      Intact after ∧ after.size = htab.size := by
    obtain ⟨output', after', taken', size, intact'⟩ := intact.step large op
    cases taken.symm.trans taken'
    exact ⟨intact', size⟩
  cases item with
  | comment =>
    cases applied
    exact ⟨intact, rfl⟩
  | delete name =>
    simp only [Env.applyItem] at applied
    split at applied
    · obtain ⟨⟨result, next⟩, deleted, same⟩ := Option.map_eq_some_iff.mp applied
      cases same
      exact stepped (.delete name) (by rw [Env.step, deleted, Option.map_some])
    · cases applied
      exact ⟨intact, rfl⟩
  | entry name value =>
    simp only [Env.applyItem] at applied
    split at applied
    · cases applied
    · split at applied
      · obtain ⟨⟨result, next⟩, entered, same⟩ := Option.map_eq_some_iff.mp applied
        cases same
        exact stepped (.enter name value) (by rw [Env.step, entered, Option.map_some])
      · cases applied
        exact ⟨intact, rfl⟩

theorem Intact.importLoop {sep : UInt8} {dp : List UInt8} {result : Bool × HsearchData × VarSet}
    (intact : Intact htab) (large : htab.size ≠ 1)
    (imported : importLoop sep htab vars dp = some result) :
    Intact result.2.1 ∧ result.2.1.size = htab.size := by
  fun_induction Env.importLoop sep htab vars dp with
  | case1 => cases imported
  | case2 => cases imported
  | case3 =>
    cases imported
    exact ⟨intact, rfl⟩
  | case4 htab vars dp item rest parsed after vars' applied ends =>
    cases imported
    exact intact.applyItem large applied
  | case5 htab vars dp item rest parsed after vars' applied goesOn ih =>
    obtain ⟨intact', size⟩ := intact.applyItem large applied
    obtain ⟨intactLast, sizeLast⟩ := ih intact' (size.trans_ne large) imported
    exact ⟨intactLast, sizeLast.trans size⟩

theorem Intact.deleteRemaining (intact : Intact htab) (large : htab.size ≠ 1)
    (deleted : deleteRemaining htab vars = some after) :
    Intact after ∧ after.size = htab.size := by
  induction vars generalizing htab with
  | nil =>
    cases deleted
    exact ⟨intact, rfl⟩
  | cons var vars ih =>
    cases var with
    | none => exact ih intact large deleted
    | some name =>
      obtain ⟨⟨result, next⟩, deletedName, rest⟩ := Option.bind_eq_some_iff.mp deleted
      obtain ⟨output, next', stepped, size, intact'⟩ := intact.step large (.delete name)
      rw [Env.step, deletedName, Option.map_some] at stepped
      cases stepped
      obtain ⟨intactLast, sizeLast⟩ := ih intact' (size.trans_ne large) rest
      exact ⟨intactLast, sizeLast.trans size⟩

theorem himportR_intact {text : List UInt8} {sep : UInt8} {crlfIsLf : Bool} {vars : List CString}
    (imported : himportR none text sep false crlfIsLf vars = some (true, some after)) :
    Intact after ∧ after.size = tableSize (importEntries text.length) := by
  obtain ⟨start, made, size, low, high⟩ := hcreateR_import text.length
  have intact := hcreateR_intact made
  rw [← size]
  unfold himportR at imported
  simp only [Bool.false_eq_true, ↓reduceIte, Option.orElse_none, made] at imported
  split at imported
  · cases imported
    exact ⟨intact, rfl⟩
  · split at imported
    · cases imported
    · cases imported
    · rename_i htab vars looped
      obtain ⟨last, deleted, same⟩ := Option.map_eq_some_iff.mp imported
      cases same
      obtain ⟨intact', size'⟩ := intact.importLoop (by omega) looped
      obtain ⟨intactLast, sizeLast⟩ := intact'.deleteRemaining (by omega) deleted
      exact ⟨intactLast, sizeLast.trans size'⟩

theorem himportR_card_le {text : List UInt8} {sep : UInt8} {crlfIsLf : Bool} {vars : List CString}
    (imported : himportR none text sep false crlfIsLf vars = some (true, some after))
    {keys : Finset CString} (present : ∀ key ∈ keys, ∃ data, Live after key data) :
    keys.card ≤ 521 := by
  obtain ⟨start, -, size, -, high⟩ := hcreateR_import text.length
  obtain ⟨intact, sameSize⟩ := himportR_intact imported
  have card := intact.card_le present
  omega

theorem Represents.enterAll (rep : Represents htab m) (fresh : NoTombstones htab)
    (entries : List (CString × CString)) (distinct : (entries.map Prod.fst).Nodup)
    (absent : ∀ entry ∈ entries, m.lookup entry.1 = none)
    (room : m.keys.card + entries.length ≤ htab.size) :
    ∃ after, runTable htab (entries.map fun entry => .enter entry.1 entry.2) = some after ∧
      Represents after (entriesMap m entries) := by
  induction entries generalizing htab m with
  | nil => exact ⟨htab, rfl, rep⟩
  | cons entry entries ih =>
    simp only [List.length_cons] at room
    obtain ⟨after, entered, size, rep', fresh'⟩ :=
      rep.enterNew fresh entry.2 (absent entry (List.mem_cons_self ..)) (by omega)
    have card := card_keys_insert_le m entry.1 entry.2
    obtain ⟨last, ran, repLast⟩ := ih rep' fresh' (List.nodup_cons.mp distinct).2
      (insert_absent distinct absent) (by omega)
    refine ⟨last, ?_, repLast⟩
    simp only [List.map_cons, runTable, Env.step, entered, Option.map_some, Option.bind_some, ran]

/-- Six hundred keys. -/
def manyEntries : List (CString × CString) :=
  (List.range 600).map fun i => (List.replicate (i + 1) 97, [49])

theorem manyEntries_distinct : (manyEntries.map Prod.fst).Nodup := by
  have keys : manyEntries.map Prod.fst = (List.range 600).map fun i => List.replicate (i + 1) 97 := by
    simp [manyEntries]
  rw [keys]
  apply List.nodup_range.map
  intro i j same
  simpa using congrArg List.length same

theorem manyEntries_portable {entry : CString × CString} (member : entry ∈ manyEntries) :
    Portable lineFeed entry := by
  obtain ⟨i, -, rfl⟩ := List.mem_map.mp member
  refine ⟨by simp, ?_, ?_, by simp, by simp⟩
  · intro c among
    rw [List.eq_of_mem_replicate among]
    decide
  · intro c first
    rw [List.replicate_succ, List.head?_cons, Option.mem_some] at first
    rw [← first]
    decide

/-- Importing their text again loses some of them: the new table is clipped. -/
theorem himportR_hexportR_clipped :
    ¬∀ nel new htab ops sep, hcreateR nel = some new → runTable new ops = some htab →
      TextSeparator sep → (∀ key data, Live htab key data → Portable sep (key, data)) →
      ∃ text after, hexportR htab sep (fun _ _ => true) 0 = .text text ∧
        himportR none text sep false false [] = some (true, some after) ∧
        ∀ key data, Live after key data ↔ Live htab key data := by
  intro roundTrip
  obtain ⟨new, created, size⟩ := hcreateR_moderate (show 600 ≤ 601 by decide)
  have room : 600 ≤ new.size := size ▸ le_tableSize 600
  obtain ⟨htab, ran, rep⟩ := (hcreateR_represents created).enterAll (hcreateR_fresh created)
    manyEntries manyEntries_distinct (by simp) (by simpa [manyEntries] using room)
  have live (key data : CString) : Live htab key data ↔ (key, data) ∈ manyEntries := by
    rw [← rep.entries, lookup_entriesMap manyEntries_distinct (by simp)]
    simp
  obtain ⟨text, after, -, imported, same⟩ := roundTrip 600 new htab _ lineFeed created ran
    (.inr rfl) fun key data present => manyEntries_portable ((live key data).mp present)
  have card : (manyEntries.map Prod.fst).toFinset.card ≤ 521 := by
    apply himportR_card_le imported
    intro key member
    obtain ⟨entry, among, rfl⟩ := List.mem_map.mp (List.mem_toFinset.mp member)
    exact ⟨entry.2, (same _ _).mpr ((live _ _).mpr among)⟩
  rw [List.toFinset_card_of_nodup manyEntries_distinct, List.length_map, manyEntries,
    List.length_map, List.length_range] at card
  omega

end HrppBoot.Env
