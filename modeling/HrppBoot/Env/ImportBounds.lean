import HrppBoot.Env.Failing
import HrppBoot.Env.RoundTrip

/-!
# What an import reads

The scanners of `himport_r` stop at a NUL or a separator only; the size of the text is looked at
between two items. An import stays inside its text, and does what the text with a NUL behind it
says, exactly if the text ends every item that the import comes to, as long as the removal of
carriage returns leaves no old bytes in front of a NUL.
-/

namespace HrppBoot.Env

/-! ## Items that end inside a text -/

/-- The value at the start of a text ends inside it, in front of the rest. -/
inductive ValueEnds (sep : UInt8) : List UInt8 → List UInt8 → Prop where
  | here {c : UInt8} {rest : List UInt8} (ends : c = 0 ∨ c = sep) : ValueEnds sep (c :: rest) rest
  | escaped {c : UInt8} {text rest : List UInt8} (stays : backslash ≠ sep) (nonzero : c ≠ 0)
    (later : ValueEnds sep text rest) : ValueEnds sep (backslash :: c :: text) rest
  | backslashNul {rest : List UInt8} (stays : backslash ≠ sep) :
    ValueEnds sep (backslash :: 0 :: rest) rest
  | plain {c : UInt8} {text rest : List UInt8} (goesOn : c ≠ 0 ∧ c ≠ sep ∧ c ≠ backslash)
    (later : ValueEnds sep text rest) : ValueEnds sep (c :: text) rest

/-- What follows a name, up to the rest of the text. -/
inductive NameEnds (sep : UInt8) : UInt8 → List UInt8 → List UInt8 → Prop where
  | nul {rest : List UInt8} : NameEnds sep 0 rest rest
  | separator {next : UInt8} {rest : List UInt8} (nonzero : sep ≠ 0) (other : sep ≠ equalsSign) :
    NameEnds sep sep (next :: rest) (next :: rest)
  | noValue {next : UInt8} {rest : List UInt8}
    (ends : next = 0 ∨ equalsSign = sep ∨ next = sep) :
    NameEnds sep equalsSign (next :: rest) rest
  | value {next : UInt8} {text rest : List UInt8}
    (goesOn : ¬(next = 0 ∨ equalsSign = sep ∨ next = sep))
    (ends : ValueEnds sep (next :: text) rest) : NameEnds sep equalsSign (next :: text) rest

/-- The item at the start of a text, behind blanks, ends inside it, in front of the rest. -/
inductive ItemEnds (sep : UInt8) : List UInt8 → List UInt8 → Prop where
  | comment {blanks body rest : List UInt8} {c : UInt8} (blank : ∀ c ∈ blanks, isblank c = true)
    (first : (body ++ c :: rest).head? = some numberSign)
    (characters : ∀ c ∈ body, c ≠ 0 ∧ c ≠ sep) (ends : c = 0 ∨ c = sep) :
    ItemEnds sep (blanks ++ (body ++ c :: rest)) rest
  | named {blanks name tail rest : List UInt8} {c : UInt8}
    (blank : ∀ c ∈ blanks, isblank c = true)
    (first : ∀ head, (name ++ c :: tail).head? = some head →
      isblank head = false ∧ head ≠ numberSign)
    (characters : ∀ c ∈ name, nameChar sep c = true) (stops : nameChar sep c = false)
    (ends : NameEnds sep c tail rest) : ItemEnds sep (blanks ++ (name ++ c :: tail)) rest

/-- Every item that an import comes to ends inside the text. An import ends behind an entry without
a name, and where the text, or the part of it before a NUL, is used up. -/
inductive Complete (sep : UInt8) : List UInt8 → Prop where
  | nameless {blanks text rest : List UInt8} (blank : ∀ c ∈ blanks, isblank c = true)
    (goesOn : ∀ c, text.head? = some c → ¬(c = 0 ∨ equalsSign = sep ∨ c = sep))
    (ends : ValueEnds sep text rest) : Complete sep (blanks ++ equalsSign :: text)
  | last {text rest : List UInt8} (ends : ItemEnds sep text rest)
    (behind : rest.head? = none ∨ rest.head? = some 0) : Complete sep text
  | item {text rest : List UInt8} (ends : ItemEnds sep text rest) (later : Complete sep rest) :
    Complete sep text

/-! ## The scanners -/

variable {sep : UInt8} {dp rest text : List UInt8} {item : Item} {htab : HsearchData}
   {vars : VarSet}

theorem parseValue_backslashNul (stays : backslash ≠ sep) (rest : List UInt8) :
    parseValue sep (backslash :: 0 :: rest) = some ([backslash], rest) := by
  rw [parseValue.eq_def]
  simp [show backslash ≠ 0 by decide, stays, parseValue_end (.inl rfl)]

/-- The value loop ends in front of a rest exactly if the value does. -/
theorem valueEnds_iff :
    ValueEnds sep dp rest ↔ ∃ value, parseValue sep dp = some (value, rest) := by
  constructor
  · intro ends
    induction ends with
    | here ends => exact ⟨[], parseValue_end ends _⟩
    | escaped stays nonzero _ ih =>
      obtain ⟨value, parsed⟩ := ih
      exact ⟨_, by rw [parseValue_escaped stays nonzero, parsed]; rfl⟩
    | backslashNul stays => exact ⟨_, parseValue_backslashNul stays _⟩
    | plain goesOn _ ih =>
      obtain ⟨value, parsed⟩ := ih
      exact ⟨_, by rw [parseValue_plain goesOn.1 goesOn.2.1 goesOn.2.2, parsed]; rfl⟩
  · rintro ⟨value, parsed⟩
    fun_induction parseValue sep dp generalizing value with
    | case1 => cases parsed
    | case2 c tail ends =>
      cases parsed
      exact .here ends
    | case3 => cases parsed
    | case4 next rest' nonzero goesOn ih =>
      obtain ⟨⟨value', rest''⟩, later, same⟩ := Option.map_eq_some_iff.mp parsed
      cases same
      exact .escaped (fun same => goesOn (.inr same)) nonzero (ih _ later)
    | case5 next rest' zero goesOn ih =>
      obtain ⟨⟨value', rest''⟩, later, same⟩ := Option.map_eq_some_iff.mp parsed
      cases same
      have nul : next = 0 := by simpa using zero
      subst nul
      rw [parseValue_end (.inl rfl)] at later
      cases later
      exact .backslashNul fun same => goesOn (.inr same)
    | case6 c rest' goesOn other ih =>
      obtain ⟨⟨value', rest''⟩, later, same⟩ := Option.map_eq_some_iff.mp parsed
      cases same
      exact .plain ⟨fun zero => goesOn (.inl zero), fun same => goesOn (.inr same), other⟩
        (ih _ later)

/-- What follows a name ends in front of a rest exactly if it is parsed up to there. -/
theorem nameEnds_iff {c : UInt8} (stops : nameChar sep c = false) (name : CString)
    {tail : List UInt8} :
    NameEnds sep c tail rest ↔ ∃ item, parseAfterName sep name (c :: tail) = some (item, rest) := by
  constructor
  · rintro (_ | ⟨nonzero, other⟩ | ⟨ends⟩ | ⟨goesOn, ends⟩)
    · exact ⟨_, rfl⟩
    · exact ⟨.delete name, by simp [parseAfterName, nonzero, other]⟩
    · refine ⟨.delete name, ?_⟩
      simp only [parseAfterName, show equalsSign ≠ 0 by decide, ↓reduceIte, if_pos ends,
        List.drop_succ_cons, List.drop_zero]
    · obtain ⟨value, parsed⟩ := valueEnds_iff.mp ends
      refine ⟨.entry name value, ?_⟩
      simp only [parseAfterName, show equalsSign ≠ 0 by decide, ↓reduceIte, if_neg goesOn, parsed,
        Option.map_some]
  · rintro ⟨item, parsed⟩
    have kinds : c = equalsSign ∨ c = 0 ∨ c = sep := by
      by_contra others
      simp only [not_or] at others
      simp [nameChar, others] at stops
    rw [parseAfterName.eq_def] at parsed
    dsimp only at parsed
    split at parsed
    · rename_i zero
      subst zero
      cases parsed
      exact .nul
    · rename_i nonzero
      split at parsed
      · cases parsed
      · rename_i next more
        split at parsed
        · rename_i ends
          cases parsed
          split
          · rename_i equals
            subst equals
            exact .noValue ends
          · rename_i other
            obtain rfl := (kinds.resolve_left other).resolve_left nonzero
            exact .separator nonzero other
        · rename_i goesOn
          obtain ⟨⟨value, rest'⟩, inner, same⟩ := Option.map_eq_some_iff.mp parsed
          cases same
          have equals : c = equalsSign := by
            by_contra other
            exact goesOn (.inr (.inl ((kinds.resolve_left other).resolve_left nonzero)))
          subst equals
          exact .value goesOn (valueEnds_iff.mpr ⟨value, inner⟩)

theorem scanner_split {p : UInt8 → Bool} {list : List UInt8} {c : UInt8}
    (stopped : list.dropWhile p = c :: rest) :
    list = list.takeWhile p ++ c :: rest ∧ (∀ a ∈ list.takeWhile p, p a = true) ∧ p c = false := by
  refine ⟨?_, List.all_eq_true.mp List.all_takeWhile, ?_⟩
  · rw [← stopped, List.takeWhile_append_dropWhile]
  · have stops := List.head?_dropWhile_not p list
    rw [stopped] at stops
    exact stops

theorem scanner_append {p : UInt8 → Bool} {front rest : List UInt8} {c : UInt8}
    (passes : ∀ a ∈ front, p a = true) (stops : p c = false) :
    (front ++ c :: rest).takeWhile p = front ∧ (front ++ c :: rest).dropWhile p = c :: rest := by
  simp [List.takeWhile_append_of_pos passes, List.dropWhile_append_of_pos passes, stops]

/-- An item is parsed up to a rest exactly if it ends in front of it. -/
theorem itemEnds_iff :
    ItemEnds sep dp rest ↔ ∃ item, parseItem sep dp = some (item, rest) := by
  constructor
  · rintro (⟨blank, first, characters, ends⟩ | ⟨blank, first, characters, stops, ends⟩)
    · rename_i blanks body c
      obtain ⟨tail, split⟩ : ∃ tail, body ++ c :: rest = numberSign :: tail := by
        cases whole : body ++ c :: rest with
        | nil => simp at whole
        | cons head tail =>
          rw [whole] at first
          cases first
          exact ⟨tail, rfl⟩
      have comment := (@scanner_append (fun c => decide (c ≠ 0 ∧ c ≠ sep)) body rest c
        (by simpa using characters) (by simpa [imp_iff_not_or, or_comm] using ends)).2
      refine ⟨.comment, ?_⟩
      unfold parseItem
      rw [split] at comment ⊢
      rw [(scanner_append blank (show isblank numberSign = false by decide)).2]
      simp only [↓reduceIte, comment]
    · rename_i blanks name tail c
      obtain ⟨head, rest', split⟩ : ∃ head rest', name ++ c :: tail = head :: rest' := by
        cases whole : name ++ c :: tail with
        | nil => simp at whole
        | cons head rest' => exact ⟨head, rest', rfl⟩
      obtain ⟨notBlank, notComment⟩ := first head (by rw [split]; rfl)
      obtain ⟨taken, dropped⟩ := @scanner_append (nameChar sep) name tail c characters stops
      obtain ⟨item, parsed⟩ := (nameEnds_iff stops name).mp ends
      refine ⟨item, ?_⟩
      unfold parseItem
      rw [split] at taken dropped ⊢
      rw [(scanner_append blank notBlank).2]
      simp only [if_neg notComment, taken, dropped, parsed]
  · rintro ⟨item, parsed⟩
    unfold parseItem at parsed
    split at parsed
    · cases parsed
    · rename_i c tail trimmed
      obtain ⟨whole, blank, notBlank⟩ := scanner_split trimmed
      rw [whole]
      split at parsed
      · rename_i comment
        split at parsed
        · cases parsed
        · rename_i last rest' stopped
          cases parsed
          obtain ⟨body, characters, ends⟩ := scanner_split stopped
          rw [body]
          refine .comment blank ?_ ?_ ?_
          · rw [← body, comment]
            rfl
          · simpa using characters
          · simpa [imp_iff_not_or, or_comm] using ends
      · rename_i notComment
        cases behind : (c :: tail).dropWhile (nameChar sep) with
        | nil =>
          rw [behind] at parsed
          cases parsed
        | cons d after =>
          rw [behind] at parsed
          obtain ⟨split, characters, stops⟩ := scanner_split behind
          rw [split]
          refine .named blank ?_ characters stops ((nameEnds_iff stops _).mpr ⟨item, parsed⟩)
          intro head first
          rw [← split] at first
          cases first
          exact ⟨notBlank, notComment⟩

/-! ## Bytes behind a text -/

theorem parseValue_append {value : List UInt8} (more : List UInt8)
    (parsed : parseValue sep dp = some (value, rest)) :
    parseValue sep (dp ++ more) = some (value, rest ++ more) := by
  fun_induction parseValue sep dp generalizing value with
  | case1 => cases parsed
  | case2 c tail ends =>
    cases parsed
    exact parseValue_end ends _
  | case3 => cases parsed
  | case4 next rest' nonzero goesOn ih =>
    obtain ⟨⟨value', rest''⟩, later, same⟩ := Option.map_eq_some_iff.mp parsed
    cases same
    rw [List.cons_append, List.cons_append,
      parseValue_escaped (fun same => goesOn (.inr same)) nonzero, ih later]
    rfl
  | case5 next rest' zero goesOn ih =>
    obtain ⟨⟨value', rest''⟩, later, same⟩ := Option.map_eq_some_iff.mp parsed
    cases same
    have nul : next = 0 := by simpa using zero
    subst nul
    rw [parseValue_end (.inl rfl)] at later
    cases later
    exact parseValue_backslashNul (fun same => goesOn (.inr same)) _
  | case6 c rest' goesOn other ih =>
    obtain ⟨⟨value', rest''⟩, later, same⟩ := Option.map_eq_some_iff.mp parsed
    cases same
    rw [List.cons_append, parseValue_plain (fun zero => goesOn (.inl zero))
      (fun same => goesOn (.inr same)) other, ih later]
    rfl

theorem parseAfterName_append {name : List UInt8} (more : List UInt8)
    (parsed : parseAfterName sep name dp = some (item, rest)) :
    parseAfterName sep name (dp ++ more) = some (item, rest ++ more) := by
  cases dp with
  | nil => cases parsed
  | cons c tail =>
    rw [List.cons_append, parseAfterName.eq_def] at *
    dsimp only at parsed ⊢
    split at parsed
    · rename_i zero
      cases parsed
      rw [if_pos zero]
    · rename_i nonzero
      rw [if_neg nonzero]
      cases tail with
      | nil => cases parsed
      | cons next behind =>
        dsimp only [List.cons_append] at parsed ⊢
        split at parsed
        · rename_i ends
          cases parsed
          rw [if_pos ends]
          split <;> rfl
        · rename_i goesOn
          obtain ⟨⟨value, rest'⟩, inner, same⟩ := Option.map_eq_some_iff.mp parsed
          cases same
          have longer := parseValue_append more inner
          rw [List.cons_append] at longer
          rw [if_neg goesOn, longer]
          rfl

/-- So is an item. -/
theorem parseItem_append (more : List UInt8) (parsed : parseItem sep dp = some (item, rest)) :
    parseItem sep (dp ++ more) = some (item, rest ++ more) := by
  unfold parseItem at parsed ⊢
  split at parsed
  · cases parsed
  · rename_i c tail trimmed
    have longer : (dp ++ more).dropWhile isblank = c :: (tail ++ more) := by
      rw [List.dropWhile_append, trimmed]
      rfl
    rw [longer]
    dsimp only
    split at parsed
    · rename_i comment
      rw [if_pos comment]
      split at parsed
      · cases parsed
      · rename_i last rest' stopped
        cases parsed
        rw [← List.cons_append, List.dropWhile_append, stopped]
        rfl
    · rename_i named
      rw [if_neg named, ← List.cons_append]
      cases behind : (c :: tail).dropWhile (nameChar sep) with
      | nil =>
        rw [behind] at parsed
        cases parsed
      | cons d after =>
        rw [behind] at parsed
        obtain ⟨split, characters, stops⟩ := scanner_split behind
        have scanned := @scanner_append (nameChar sep) _ (after ++ more) d characters stops
        have whole : c :: tail ++ more =
            (c :: tail).takeWhile (nameChar sep) ++ d :: (after ++ more) := by
          conv_lhs => rw [split]
          simp
        rw [whole, scanned.1, scanned.2]
        exact parseAfterName_append more parsed

/-! ## The import -/

theorem Sound.exists_step (sound : Sound htab) (op : Op) :
    ∃ output after, Env.step htab op = some (output, after) ∧ Sound after := by
  by_cases one : htab.size = 1
  · obtain ⟨m, rep⟩ := sound.counted one
    obtain ⟨after, stepped, -⟩ := rep.step (rep.safe_of_one one op)
    exact ⟨_, after, stepped, sound.step stepped⟩
  · obtain ⟨output, after, stepped, -⟩ := sound.intact.step one op
    exact ⟨output, after, stepped, sound.step stepped⟩

theorem Sound.applyItem (sound : Sound htab) (vars : VarSet) (item : Item) :
    (∃ value, item = .entry [] value ∧ Env.applyItem htab vars item = some .einval) ∨
      (∀ value, item ≠ .entry [] value) ∧
        ∃ after vars', Env.applyItem htab vars item = some (.done after vars') ∧ Sound after := by
  cases item with
  | comment => exact .inr ⟨nofun, htab, vars, rfl, sound⟩
  | delete name =>
    refine .inr ⟨nofun, ?_⟩
    simp only [Env.applyItem]
    split
    · obtain ⟨output, after, stepped, sound'⟩ := sound.exists_step (.delete name)
      obtain ⟨⟨result, after'⟩, deleted, same⟩ := Option.map_eq_some_iff.mp stepped
      cases same
      exact ⟨_, _, by rw [deleted]; rfl, sound'⟩
    · exact ⟨_, _, rfl, sound⟩
  | entry name value =>
    by_cases nameless : name = []
    · subst nameless
      exact .inl ⟨value, rfl, rfl⟩
    · refine .inr ⟨fun other same => ?_, ?_⟩
      · cases same
        exact nameless rfl
      · simp only [Env.applyItem, if_neg nameless]
        split
        · obtain ⟨output, after, stepped, sound'⟩ := sound.exists_step (.enter name value)
          obtain ⟨⟨result, after'⟩, entered, same⟩ := Option.map_eq_some_iff.mp stepped
          cases same
          exact ⟨_, _, by rw [entered]; rfl, sound'⟩
        · exact ⟨_, _, rfl, sound⟩

/-- The item at the start of a text is an entry without a name. -/
theorem parseItem_nameless :
    (∃ value, parseItem sep dp = some (.entry [] value, rest)) ↔
      ∃ blanks text, dp = blanks ++ equalsSign :: text ∧ (∀ c ∈ blanks, isblank c = true) ∧
        (∀ c, text.head? = some c → ¬(c = 0 ∨ equalsSign = sep ∨ c = sep)) ∧
        ValueEnds sep text rest := by
  have equalsStops : nameChar sep equalsSign = false := by simp [nameChar]
  constructor
  · rintro ⟨value, parsed⟩
    unfold parseItem at parsed
    split at parsed
    · cases parsed
    · rename_i c tail trimmed
      obtain ⟨whole, blank, -⟩ := scanner_split trimmed
      split at parsed
      · split at parsed <;> cases parsed
      · generalize takenName : (c :: tail).takeWhile (nameChar sep) = name at parsed
        cases behind : (c :: tail).dropWhile (nameChar sep) with
        | nil =>
          rw [behind] at parsed
          cases parsed
        | cons d after =>
          obtain ⟨split, -, stops⟩ := scanner_split behind
          rw [behind, parseAfterName.eq_def] at parsed
          dsimp only at parsed
          split at parsed
          · cases parsed
          · rename_i nonzero
            split at parsed
            · cases parsed
            · rename_i next more
              split at parsed
              · cases parsed
              · rename_i goesOn
                obtain ⟨⟨value', rest'⟩, inner, same⟩ := Option.map_eq_some_iff.mp parsed
                cases same
                rw [takenName, List.nil_append] at split
                have equals : d = equalsSign := by
                  by_contra other
                  have notSep : d ≠ sep := fun same => goesOn (.inr (.inl same))
                  simp [nameChar, other, nonzero, notSep] at stops
                subst equals
                rw [split] at whole
                refine ⟨_, next :: more, whole, blank, ?_, valueEnds_iff.mpr ⟨value', inner⟩⟩
                intro head first
                cases first
                exact goesOn
  · rintro ⟨blanks, text, rfl, blank, goesOn, ends⟩
    obtain ⟨value, parsed⟩ := valueEnds_iff.mp ends
    refine ⟨value, ?_⟩
    cases text with
    | nil => cases parsed
    | cons next more =>
      unfold parseItem
      rw [(scanner_append blank (show isblank equalsSign = false by decide)).2]
      obtain ⟨taken, dropped⟩ := @scanner_append (nameChar sep) [] (next :: more) equalsSign
        (fun c member => absurd member List.not_mem_nil) equalsStops
      rw [List.nil_append] at taken dropped
      simp only [show equalsSign ≠ numberSign by decide, ↓reduceIte, taken, dropped,
        parseAfterName, show equalsSign ≠ 0 by decide, if_neg (goesOn next rfl), parsed,
        Option.map_some]

theorem importLoop_einval (parsed : parseItem sep dp = some (item, rest))
    (applied : applyItem htab vars item = some .einval) :
    importLoop sep htab vars dp = some (false, htab, vars) := by
  rw [importLoop]
  split
  · rename_i failed
    rw [parsed] at failed
    cases failed
  · rename_i item' rest' parsed'
    cases parsed.symm.trans parsed'
    rw [applied]

/-- The loop returns exactly if every item that it comes to ends inside the text. -/
theorem importLoop_isSome_iff (sound : Sound htab) (vars : VarSet) (dp : List UInt8) :
    (∃ result, importLoop sep htab vars dp = some result) ↔ Complete sep dp := by
  constructor
  · rintro ⟨result, imported⟩
    fun_induction importLoop sep htab vars dp with
    | case1 => cases imported
    | case2 => cases imported
    | case3 htab vars dp item rest parsed applied =>
      rcases sound.applyItem vars item with ⟨value, rfl, -⟩ | ⟨-, after, vars', applied', -⟩
      · obtain ⟨blanks, text, rfl, blank, goesOn, ends⟩ :=
          parseItem_nameless.mp ⟨value, parsed⟩
        exact .nameless blank goesOn ends
      · rw [applied] at applied'
        cases applied'
    | case4 htab vars dp item rest parsed after vars' applied ends =>
      exact .last (itemEnds_iff.mpr ⟨item, parsed⟩) ends
    | case5 htab vars dp item rest parsed after vars' applied goesOn ih =>
      rcases sound.applyItem vars item with ⟨value, -, applied'⟩ |
        ⟨-, next, vars'', applied', sound'⟩
      · rw [applied] at applied'
        cases applied'
      · rw [applied] at applied'
        cases applied'
        exact .item (itemEnds_iff.mpr ⟨item, parsed⟩) (ih sound' imported)
  · intro complete
    induction complete generalizing htab vars with
    | nameless blank goesOn ends =>
      obtain ⟨value, parsed⟩ := parseItem_nameless.mpr ⟨_, _, rfl, blank, goesOn, ends⟩
      exact ⟨_, importLoop_einval parsed rfl⟩
    | last ends behind =>
      obtain ⟨item, parsed⟩ := itemEnds_iff.mp ends
      rcases sound.applyItem vars item with ⟨value, -, applied⟩ | ⟨-, after, vars', applied, -⟩
      · exact ⟨_, importLoop_einval parsed applied⟩
      · exact ⟨_, by rw [importLoop_turn parsed applied, if_pos behind]⟩
    | item ends later ih =>
      obtain ⟨item, parsed⟩ := itemEnds_iff.mp ends
      rcases sound.applyItem vars item with ⟨value, -, applied⟩ |
        ⟨-, after, vars', applied, sound'⟩
      · exact ⟨_, importLoop_einval parsed applied⟩
      · rw [importLoop_turn parsed applied]
        split
        · exact ⟨_, rfl⟩
        · exact ih sound' vars'

theorem importLoop_append_nul {result : Bool × HsearchData × VarSet}
    (imported : importLoop sep htab vars dp = some result) :
    importLoop sep htab vars (dp ++ [0]) = some result := by
  fun_induction importLoop sep htab vars dp with
  | case1 => cases imported
  | case2 => cases imported
  | case3 htab vars dp item rest parsed applied =>
    cases imported
    exact importLoop_einval (parseItem_append [0] parsed) applied
  | case4 htab vars dp item rest parsed after vars' applied ends =>
    cases imported
    rw [importLoop_turn (parseItem_append [0] parsed) applied]
    rw [if_pos]
    rcases ends with empty | nul
    · rw [List.head?_eq_none_iff] at empty
      subst empty
      exact .inr rfl
    · cases rest with
      | nil => cases nul
      | cons c rest => exact .inr nul
  | case5 htab vars dp item rest parsed after vars' applied goesOn ih =>
    rw [importLoop_turn (parseItem_append [0] parsed) applied, if_neg, ih imported]
    cases rest with
    | nil => exact absurd (.inl rfl) goesOn
    | cons c rest => exact goesOn

theorem Sound.importLoop {result : Bool × HsearchData × VarSet} (sound : Sound htab)
    (imported : importLoop sep htab vars dp = some result) : Sound result.2.1 := by
  have kept {htab after : HsearchData} {vars vars' : VarSet} {item : Item} (sound : Sound htab)
      (applied : Env.applyItem htab vars item = some (.done after vars')) : Sound after := by
    rcases sound.applyItem vars item with ⟨value, -, applied'⟩ |
      ⟨-, next, vars'', applied', sound'⟩
    · rw [applied] at applied'
      cases applied'
    · rw [applied] at applied'
      cases applied'
      exact sound'
  fun_induction Env.importLoop sep htab vars dp with
  | case1 => cases imported
  | case2 => cases imported
  | case3 =>
    cases imported
    exact sound
  | case4 htab vars dp item rest parsed after vars' applied ends =>
    cases imported
    exact kept sound applied
  | case5 htab vars dp item rest parsed after vars' applied goesOn ih =>
    exact ih (kept sound applied) imported

theorem Sound.deleteRemaining (sound : Sound htab) (vars : VarSet) :
    ∃ after, deleteRemaining htab vars = some after := by
  induction vars generalizing htab with
  | nil => exact ⟨htab, rfl⟩
  | cons var vars ih =>
    cases var with
    | none => exact ih sound
    | some name =>
      obtain ⟨output, after, stepped, sound'⟩ := sound.exists_step (.delete name)
      obtain ⟨⟨result, after'⟩, deleted, same⟩ := Option.map_eq_some_iff.mp stepped
      cases same
      obtain ⟨last, rest⟩ := ih sound'
      exact ⟨last, by rw [Env.deleteRemaining, deleted, Option.bind_some, rest]⟩

/-- The table that an import of a text of this size starts with. -/
def startTable (table : Option HsearchData) (noclear : Bool) (size : Nat) : Option HsearchData :=
  (if noclear then table else none).orElse fun _ => hcreateR (importEntries size)

/-- The text with the carriage returns in front of line feeds left out, up to its first NUL. -/
def withoutCrs (text : List UInt8) : List UInt8 := dropCrs text ++ text.dropWhile (· ≠ 0)

/-- The text that an import is to follow. -/
def importedText (crlfIsLf : Bool) (text : List UInt8) : List UInt8 :=
  if crlfIsLf then withoutCrs text else text

/-- Whatever the table and the list of variables, the import returns without reading behind its
text, and does what the same import of the text with a NUL behind it does. -/
def FollowsText (text : List UInt8) (sep : UInt8) (crlfIsLf : Bool) : Prop :=
  ∀ table noclear vars start, startTable table noclear text.length = some start → Sound start →
    ∃ result, himportR table text sep noclear crlfIsLf vars = some result ∧
      himportR (some start) (importedText crlfIsLf text ++ [0]) sep true false vars = some result

/-- The removal of carriage returns leaves no old bytes in front of a NUL. -/
def NoOldBytes (text : List UInt8) (crlfIsLf : Bool) : Prop :=
  crlfIsLf = true → 0 ∈ text → dropCrs text = text.takeWhile (· ≠ 0)

/-- The text is not empty, no old bytes are left in it, and it ends every item that an import comes
to. -/
structure WellEnded (text : List UInt8) (sep : UInt8) (crlfIsLf : Bool) : Prop where
  nonempty : text ≠ []
  clean : NoOldBytes text crlfIsLf
  complete : Complete sep (importedText crlfIsLf text)

theorem length_dropCrs_le (text : List UInt8) : (dropCrs text).length ≤ text.length := by
  induction text with
  | nil => exact le_rfl
  | cons c rest ih =>
    rw [dropCrs]
    split
    · exact Nat.zero_le _
    · split
      · exact Nat.le_succ_of_le ih
      · exact Nat.succ_le_succ ih

theorem removeCrs_eq (clean : 0 ∈ text → dropCrs text = text.takeWhile (· ≠ 0)) :
    removeCrs text = withoutCrs text := by
  unfold removeCrs withoutCrs
  by_cases nul : (0 : UInt8) ∈ text
  · have whole : text.takeWhile (· ≠ 0) ++ text.dropWhile (· ≠ 0) = text :=
      List.takeWhile_append_dropWhile
    have behind : text.drop (text.takeWhile (· ≠ 0)).length = text.dropWhile (· ≠ 0) :=
      calc text.drop (text.takeWhile (· ≠ 0)).length
          = (text.takeWhile (· ≠ 0) ++ text.dropWhile (· ≠ 0)).drop
              (text.takeWhile (· ≠ 0)).length := by rw [whole]
        _ = text.dropWhile (· ≠ 0) := List.drop_left
    rw [clean nul, whole]
    simp only [Nat.sub_self, Nat.sub_zero, behind, whole, List.take_length]
  · have all : ∀ c ∈ text, decide (c ≠ 0) = true := by
      intro c member
      simp only [ne_eq, decide_not, Bool.not_eq_eq_eq_not, Bool.not_true, decide_eq_false_iff_not]
      rintro rfl
      exact nul member
    have taken : text.takeWhile (· ≠ 0) = text := by
      simpa using @List.takeWhile_append_of_pos _ _ text [] all
    have dropped : text.dropWhile (· ≠ 0) = [] := by
      simpa using @List.dropWhile_append_of_pos _ _ text [] all
    have shorter := length_dropCrs_le text
    rw [taken, dropped, List.append_nil]
    have left : text.length - (text.length - (dropCrs text).length) = (dropCrs text).length := by
      omega
    simp only [left, List.take_left]

-- Of the text `a=1\r\nb=2` with a NUL behind it, the last byte is left twice.
example : removeCrs [97, 0x3d, 49, 13, 10, 98, 0x3d, 50, 0] =
    [97, 0x3d, 49, 10, 98, 0x3d, 50, 50] := by decide

theorem importData_eq {crlfIsLf : Bool} (clean : NoOldBytes text crlfIsLf) :
    (if crlfIsLf then removeCrs text else text) = importedText crlfIsLf text := by
  cases crlfIsLf with
  | false => rfl
  | true => exact removeCrs_eq (clean rfl)

/-- What is done behind the loop. -/
def finishImport : Option (Bool × HsearchData × VarSet) → Option (Bool × Option HsearchData)
  | none => none
  | some (false, htab, _) => some (false, some htab)
  | some (true, htab, vars) => (deleteRemaining htab vars).map fun htab => (true, some htab)

theorem himportR_start {table : Option HsearchData} {noclear : Bool} {start : HsearchData}
    (sep : UInt8) (crlfIsLf : Bool) (vars : List CString)
    (started : startTable table noclear text.length = some start) (nonempty : text ≠ []) :
    himportR table text sep noclear crlfIsLf vars = finishImport
      (importLoop sep start (vars.map some) (if crlfIsLf then removeCrs text else text)) := by
  have some_bytes : text.length ≠ 0 := fun zero => nonempty (List.length_eq_zero_iff.mp zero)
  unfold startTable at started
  rcases ran : importLoop sep start (vars.map some) (if crlfIsLf then removeCrs text else text) with
    _ | ⟨_ | _, _, _⟩
  all_goals simp only [himportR, finishImport, started, if_neg some_bytes, ran]

theorem himportR_nul (start : HsearchData) (text : List UInt8) (sep : UInt8) (vars : List CString) :
    himportR (some start) (text ++ [0]) sep true false vars =
      finishImport (importLoop sep start (vars.map some) (text ++ [0])) :=
  himportR_start sep false vars rfl (by simp)

/-- One entry in the smallest table. -/
def oneEntry : HsearchData :=
  { fiveBuckets.setBucket 3 (.live 3 [97] [1]) with filled := 1 }

theorem oneEntry_sound : Sound oneEntry :=
  @Sound.step _ _ (.enter [97] [1]) (.entry (.ok [1])) (hcreateR_sound hcreateR_five) rfl

theorem not_followsText_nil (sep : UInt8) (crlfIsLf : Bool) : ¬FollowsText [] sep crlfIsLf := by
  intro follows
  obtain ⟨result, imported, followed⟩ :=
    follows (some oneEntry) true [[97]] oneEntry rfl oneEntry_sound
  have untouched : result = (true, some oneEntry) := by
    cases imported
    rfl
  have text : importedText crlfIsLf [] = [] := by cases crlfIsLf <;> rfl
  have parsed : parseItem sep [0] = some (.delete [], []) := by
    simp [parseItem, isblank, numberSign, nameChar, parseAfterName]
  have applied : applyItem oneEntry [some [97]] (.delete []) =
      some (.done oneEntry [some [97]]) := rfl
  rw [text, himportR_nul, List.nil_append, List.map_singleton, importLoop_turn parsed applied,
    if_pos (.inl rfl), untouched] at followed
  have tables := congrArg (fun result => (result.bind Prod.snd).map fun htab => htab.table 3)
    followed
  exact absurd tables (by decide)

theorem followsText_iff (sep : UInt8) {crlfIsLf : Bool} (clean : NoOldBytes text crlfIsLf) :
    FollowsText text sep crlfIsLf ↔ text ≠ [] ∧ Complete sep (importedText crlfIsLf text) := by
  constructor
  · intro follows
    have nonempty : text ≠ [] := by
      rintro rfl
      exact not_followsText_nil sep crlfIsLf follows
    obtain ⟨result, imported, -⟩ :=
      follows (some fiveBuckets) true [] fiveBuckets rfl (hcreateR_sound hcreateR_five)
    rw [himportR_start sep crlfIsLf [] rfl nonempty, importData_eq clean] at imported
    refine ⟨nonempty, (importLoop_isSome_iff (hcreateR_sound hcreateR_five) [] _).mp ?_⟩
    cases looped : importLoop sep fiveBuckets [] (importedText crlfIsLf text) with
    | none =>
      rw [List.map_nil, looped] at imported
      cases imported
    | some result' => exact ⟨result', rfl⟩
  · rintro ⟨nonempty, complete⟩ table noclear vars start started sound
    obtain ⟨result, looped⟩ := (importLoop_isSome_iff sound (vars.map some) _).mpr complete
    rw [himportR_start sep crlfIsLf vars started nonempty, importData_eq clean, himportR_nul,
      importLoop_append_nul looped, looped]
    obtain ⟨finished, after, left⟩ := result
    cases finished with
    | false => exact ⟨_, rfl, rfl⟩
    | true =>
      obtain ⟨last, deleted⟩ := (sound.importLoop looped).deleteRemaining left
      exact ⟨(true, some last), by simp only [finishImport, deleted, Option.map_some],
        by simp only [finishImport, deleted, Option.map_some]⟩

/-- An import follows every well-ended text; and where no old bytes are left in it, the texts that
are followed are exactly the well-ended ones. -/
theorem wellEnded_followsText (text : List UInt8) (sep : UInt8) (crlfIsLf : Bool) :
    (WellEnded text sep crlfIsLf → FollowsText text sep crlfIsLf) ∧
      (NoOldBytes text crlfIsLf → FollowsText text sep crlfIsLf →
        WellEnded text sep crlfIsLf) := by
  constructor
  · intro ended
    exact (followsText_iff sep ended.clean).mpr ⟨ended.nonempty, ended.complete⟩
  · intro clean follows
    obtain ⟨nonempty, complete⟩ := (followsText_iff sep clean).mp follows
    exact ⟨nonempty, clean, complete⟩

/-- A text of one entry and a line feed is followed. -/
theorem wellEnded_followsText_entry : FollowsText [97, equalsSign, 49, lineFeed] lineFeed false :=
  (wellEnded_followsText _ _ _).1
    ⟨by simp, nofun, .last (itemEnds_iff.mpr ⟨.entry [97] [49], rfl⟩) (.inl rfl)⟩

/-- A text of one entry that nothing ends is read beyond its last byte. -/
theorem openEntry_not_followed : ¬FollowsText [97, equalsSign, 98] lineFeed false := by
  intro follows
  obtain ⟨result, imported, -⟩ :=
    follows (some fiveBuckets) true [] fiveBuckets rfl (hcreateR_sound hcreateR_five)
  have parsed : parseItem lineFeed [97, equalsSign, 98] = none := rfl
  rw [himportR_start lineFeed false [] rfl (by simp)] at imported
  have looped : importLoop lineFeed fiveBuckets [] [97, equalsSign, 98] = none := by
    rw [importLoop]
    split
    · rfl
    · rename_i item rest parsed'
      rw [parsed] at parsed'
      cases parsed'
  rw [List.map_nil, if_neg (by decide), looped] at imported
  cases imported

end HrppBoot.Env
