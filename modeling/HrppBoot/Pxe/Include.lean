import HrppBoot.Pxe.Parser

/-!
# Included files

What a text with `include` lines says, each included file read on its own, and that the parser finds
it: the parser reads the texts in the memory into which it loads the files.
-/

namespace HrppBoot.Pxe

variable {c text rest beyond : Text} {label : Label} {cfg cfg' : Menu}

/-! ## Progress -/

theorem labelLoop_within (c : Text) (label : Label) (cfg : Menu) :
    (labelLoop c label cfg).Within c := by
  induction same : c.length using Nat.strong_induction_on generalizing c label cfg with
  | _ n ih =>
    intro value rest found
    rw [labelLoop] at found
    split at found
    · next label' cfg' rest' turn =>
      obtain ⟨shorter, within⟩ := length_labelTurn_lt turn
      exact (ih rest'.length (same ▸ shorter) rest' label' cfg' rfl value rest found).trans within
    · cases found
      exact List.suffix_rfl
    · cases found
    · cases found

theorem parseLabel_within (c : Text) (cfg : Menu) : (parseLabel c cfg).Within c := by
  intro value rest found
  have literal := parseSliteral_suffix c
  unfold parseLabel at found
  split at found
  · cases found
  · next name behind read =>
    rw [read] at literal
    have within := labelLoop_within behind { name } cfg
    split at found <;> cases found
    next loop => exact (within _ _ loop).trans literal

theorem length_skipLine_lt (ended : (getToken c .keyword).1 ≠ .eof) :
    (eolOrEof (getToken c .keyword).2).length < c.length := by
  have skipped := (skipBlanks_suffix c).length_le
  have line (text : Text) : (eolOrEof text).length ≤ text.length :=
    (List.dropWhile_suffix _).length_le
  unfold getToken at ended ⊢
  cases same : skipBlanks c with
  | nil =>
    rw [same] at ended
    exact absurd rfl ended
  | cons b rest =>
    rw [same, List.length_cons] at skipped
    dsimp only
    by_cases newline' : b = newline
    · rw [if_pos newline']
      exact (line rest).trans_lt skipped
    · by_cases nul : b = 0
      · rw [if_neg newline', if_pos nul]
        exact (line rest).trans_lt skipped
      · rw [if_neg newline', if_neg nul]
        dsimp only [getString]
        rw [List.dropWhile_cons]
        by_cases starts : inString 0x20 b = true
        · rw [if_pos starts]
          have string : (rest.dropWhile (inString 0x20)).length ≤ rest.length :=
            (List.dropWhile_suffix _).length_le
          exact (line _).trans_lt (string.trans_lt skipped)
        · rw [if_neg starts, eolOrEof, List.dropWhile_cons, if_pos (by simp [inLine, *])]
          exact (line rest).trans_lt skipped

/-- What follows a turn belongs to a text. -/
def TopTurn.Within (turn : TopTurn) (c : Text) : Prop :=
  (∀ cfg rest, turn = .turn (.next cfg rest) → rest <:+ c) ∧
    ∀ inMenu path cfg rest, turn = .included inMenu path cfg rest → rest <:+ c

theorem handleInclude_within (inMenu : Bool) (c : Text) (cfg : Menu) :
    (handleInclude inMenu c cfg).Within c := by
  have literal := parseSliteral_suffix c
  unfold handleInclude
  split
  · exact ⟨nofun, nofun⟩
  · next read =>
    rw [read] at literal
    refine ⟨nofun, fun inMenu' path cfg' rest same => ?_⟩
    cases same
    exact literal

theorem TopTurn.Within.next (inside : rest <:+ c) :
    (TopTurn.turn (.next cfg rest)).Within c := by
  refine ⟨fun cfg' rest' same => ?_, nofun⟩
  cases same
  exact inside

theorem parseMenu_within (c : Text) (cfg : Menu) : (parseMenu c cfg).Within c := by
  have token := getToken_suffix c .keyword
  have line (text : Text) : eolOrEof text <:+ text := List.dropWhile_suffix _
  unfold parseMenu
  split
  · next behind read =>
    rw [read] at token
    have literal := parseSliteral_suffix behind
    split
    · exact ⟨nofun, nofun⟩
    · next found =>
      rw [found] at literal
      exact TopTurn.Within.next ((line _).trans (literal.trans token))
  · next behind read =>
    rw [read] at token
    have inside := handleInclude_within true behind cfg
    exact ⟨fun cfg' rest same => (inside.1 cfg' rest same).trans token,
      fun inMenu path cfg' rest same => (inside.2 inMenu path cfg' rest same).trans token⟩
  · next read =>
    rw [read] at token
    exact TopTurn.Within.next ((line _).trans token)

/-- What follows a turn is shorter than the text. -/
def TopTurn.Shorter (turn : TopTurn) (c : Text) : Prop :=
  (∀ cfg rest, turn = .turn (.next cfg rest) → rest.length < c.length ∧ rest <:+ c) ∧
    ∀ inMenu path cfg rest, turn = .included inMenu path cfg rest →
      rest.length < c.length ∧ rest <:+ c

/-- Every turn that goes on reads something. -/
theorem topTurn_shorter (c : Text) (cfg : Menu) : (topTurn c cfg).Shorter c := by
  have token := getToken_suffix c .keyword
  have shorter := @length_getToken_lt c
  have skips := @length_skipLine_lt c
  have line (text : Text) : eolOrEof text <:+ text := List.dropWhile_suffix _
  unfold topTurn
  cases read : getToken c .keyword with
  | mk t behind =>
    rw [read] at token shorter skips
    have step (turn : TopTurn) (within : turn.Within behind) (ended : t ≠ .eof)
        (known : ∀ val, t ≠ .string val) : turn.Shorter c := by
      have less := shorter ended known
      exact ⟨fun cfg' rest same => ⟨(within.1 cfg' rest same).length_le.trans_lt less,
          (within.1 cfg' rest same).trans token⟩,
        fun inMenu path cfg' rest same =>
          ⟨(within.2 inMenu path cfg' rest same).length_le.trans_lt less,
            (within.2 inMenu path cfg' rest same).trans token⟩⟩
    have skip (ended : t ≠ .eof) : (TopTurn.turn (.next cfg (eolOrEof behind))).Shorter c := by
      refine ⟨fun cfg' rest same => ?_, nofun⟩
      cases same
      exact ⟨skips ended, (line behind).trans token⟩
    cases t with
    | menu => exact step _ (parseMenu_within behind _) nofun nofun
    | timeout =>
      have number := parseInteger_suffix behind
      dsimp only
      split
      · exact ⟨nofun, nofun⟩
      · next found =>
        rw [found] at number
        exact step _ (.next number) nofun nofun
    | label =>
      refine step _ ⟨fun cfg' rest same => ?_, nofun⟩ nofun nofun
      exact parseLabel_within behind cfg cfg' rest (TopTurn.turn.inj same)
    | default | ontimeout =>
      have literal := parseSliteral_suffix behind
      dsimp only
      split
      · exact ⟨nofun, nofun⟩
      · next found =>
        rw [found] at literal
        exact step _ (.next literal) nofun nofun
    | includes => exact step _ (handleInclude_within false behind cfg) nofun nofun
    | eol => exact step _ (.next List.suffix_rfl) nofun nofun
    | eof => exact ⟨nofun, nofun⟩
    | prompt | string | title | kernel | linux | append | initrd | localboot | fdt | fdtdir |
      ipappend => exact skip nofun

/-! ## What a text says -/

/-- The text of a file ends at its first NUL byte. -/
def textOf (file : Text) : Text := file.takeWhile (· ≠ 0) ++ [0]

/-- What a text says from some place on. A file that is included is read on its own, and its lines
are carried out at the place of the `include` line. What the code makes of a `menu` command that
the end of its text leaves unfinished, and of what follows an `include` line in a text whose length
is a multiple of four, is undefined. -/
def expand (getPxeFile : Text → Except Int Text) (nestLevel length : Nat) (text : Text)
    (cfg : Menu) : Outcome :=
  match _turn : topTurn text cfg with
  | .turn .done => .parsed cfg
  | .turn (.fails err) => .error err
  | .turn .undefined => .undefined
  | .turn (.next cfg rest) =>
    if rest = [] then .undefined else expand getPxeFile nestLevel length rest cfg
  | .included inMenu path cfg rest =>
    match getPxeFile path with
    | .error err => .error err
    | .ok file =>
      if _deep : maxNestLevel < nestLevel + 1 then .error (-emlink)
      else
        match expand getPxeFile (nestLevel + 1) (strlen file) (textOf file) cfg with
        | .parsed cfg =>
          if !inMenu && length % 4 = 0 then .undefined
          else expand getPxeFile nestLevel length (if inMenu then eolOrEof rest else rest) cfg
        | .error err => .error err
        | .undefined => .undefined
termination_by (maxNestLevel + 1 - nestLevel, text.length)
decreasing_by
  · exact Prod.Lex.right _ ((topTurn_shorter text _).1 _ _ _turn).1
  · exact Prod.Lex.left _ _ (by omega)
  · refine Prod.Lex.right _ (Nat.lt_of_le_of_lt ?_ ((topTurn_shorter text _).2 _ _ _ _ _turn).1)
    split
    · exact (List.dropWhile_suffix _).length_le
    · exact Nat.le_refl _

end HrppBoot.Pxe
