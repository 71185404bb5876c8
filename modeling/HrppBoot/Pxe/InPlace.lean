import HrppBoot.Pxe.Include

/-!
# Parsing in place

The parser does not look behind the NUL byte of a text, unless a `menu` command is left unfinished
there. So what a text says does not depend on what lies behind it, and is found where the text lies
in memory, as long as the files that are loaded leave the text as it is.
-/

namespace HrppBoot.Pxe

variable {s rest beyond : Text} {label : Label} {cfg : Menu}

/-- A text ends at its first NUL byte. -/
inductive Terminated : Text → Prop where
  | nul : Terminated [0]
  | cons {c : UInt8} {s : Text} (text : c ≠ 0) (rest : Terminated s) : Terminated (c :: s)

/-! ## Tokens -/

theorem Terminated.dropWhile {p : UInt8 → Bool} (ends : Terminated s) (nul : p 0 = false) :
    Terminated (s.dropWhile p) ∧
      ∀ beyond, (s ++ beyond).dropWhile p = s.dropWhile p ++ beyond ∧
        (s ++ beyond).takeWhile p = s.takeWhile p := by
  induction ends with
  | nul => simp [nul, Terminated.nul]
  | @cons c s text rest ih =>
    cases passes : p c with
    | false => simp [passes, Terminated.cons text rest]
    | true =>
      simp only [List.cons_append, List.dropWhile_cons, List.takeWhile_cons, passes, if_true]
      exact ⟨ih.1, fun beyond => ⟨(ih.2 beyond).1, by rw [(ih.2 beyond).2]⟩⟩

theorem Terminated.eolOrEof (ends : Terminated s) :
    Terminated (eolOrEof s) ∧ ∀ beyond, Pxe.eolOrEof (s ++ beyond) = Pxe.eolOrEof s ++ beyond := by
  have line := ends.dropWhile (p := inLine) rfl
  exact ⟨line.1, fun beyond => (line.2 beyond).1⟩

theorem Terminated.skipBlanks (ends : Terminated s) :
    Terminated (skipBlanks s) ∧
      ∀ beyond, Pxe.skipBlanks (s ++ beyond) = Pxe.skipBlanks s ++ beyond := by
  obtain ⟨blanks, local_⟩ := ends.dropWhile (p := isblank) (by decide)
  have heads (beyond : Text) :
      (s.dropWhile isblank ++ beyond).head? = (s.dropWhile isblank).head? := by
    cases same : s.dropWhile isblank with
    | nil =>
      rw [same] at blanks
      nomatch blanks
    | cons => rfl
  constructor
  · unfold Pxe.skipBlanks
    dsimp only
    split
    · exact blanks.eolOrEof.1
    · exact blanks
  · intro beyond
    unfold Pxe.skipBlanks
    dsimp only
    rw [(local_ beyond).1, heads]
    split
    · exact blanks.eolOrEof.2 beyond
    · rfl

theorem getKeyword_ne_eof (val : Text) : getKeyword val ≠ .eof := by
  have all : ∀ keyword ∈ keywords, keyword.2 ≠ .eof := by decide
  unfold getKeyword
  split
  · next keyword found => exact all keyword (List.mem_of_find?_eq_some found)
  · nofun

/-- So is a token; what follows it ends with the text, or it is the end of the text. -/
theorem Terminated.getToken (ends : Terminated s) (state : LexState) :
    ((getToken s state).1 = .eof ∧ (getToken s state).2 = [] ∨
        (getToken s state).1 ≠ .eof ∧ Terminated (getToken s state).2) ∧
      ∀ beyond, Pxe.getToken (s ++ beyond) state =
        ((Pxe.getToken s state).1, (Pxe.getToken s state).2 ++ beyond) := by
  obtain ⟨skipped, local_⟩ := ends.skipBlanks
  unfold Pxe.getToken
  simp only [local_]
  cases same : Pxe.skipBlanks s with
  | nil =>
    rw [same] at skipped
    nomatch skipped
  | cons c behind =>
    rw [same] at skipped
    have strings (delim : UInt8) := skipped.dropWhile (p := inString delim) rfl
    simp only [List.cons_append]
    by_cases line : c = newline
    · subst line
      cases skipped with
      | cons text rest => exact ⟨.inr ⟨nofun, rest⟩, fun beyond => rfl⟩
    · by_cases nul : c = 0
      · subst nul
        cases skipped with
        | nul => exact ⟨.inl ⟨rfl, rfl⟩, fun beyond => rfl⟩
        | cons text rest => exact absurd rfl text
      · simp only [if_neg line, if_neg nul, getString]
        cases state with
        | sliteral =>
          refine ⟨.inr ⟨nofun, (strings newline).1⟩, fun beyond => ?_⟩
          rw [← List.cons_append, ((strings newline).2 beyond).1, ((strings newline).2 beyond).2]
        | keyword =>
          refine ⟨.inr ⟨getKeyword_ne_eof _, (strings 0x20).1⟩, fun beyond => ?_⟩
          rw [← List.cons_append, ((strings 0x20).2 beyond).1, ((strings 0x20).2 beyond).2]

theorem Terminated.parseSliteral (ends : Terminated s) :
    ((parseSliteral s).1 = none ∧ (parseSliteral s).2 = [] ∨ Terminated (parseSliteral s).2) ∧
      ∀ beyond, Pxe.parseSliteral (s ++ beyond) =
        ((Pxe.parseSliteral s).1, (Pxe.parseSliteral s).2 ++ beyond) := by
  obtain ⟨token, local_⟩ := ends.getToken .sliteral
  unfold Pxe.parseSliteral
  simp only [local_]
  cases read : Pxe.getToken s .sliteral with
  | mk t behind =>
    rw [read] at token
    cases t with
    | string val =>
      exact ⟨.inr (token.resolve_left fun both => nomatch both.1).2, fun beyond => rfl⟩
    | _ => exact ⟨token.imp (fun both => ⟨rfl, both.2⟩) And.right, fun beyond => rfl⟩

theorem Terminated.parseInteger (ends : Terminated s) :
    ((parseInteger s).1 = none ∨ Terminated (parseInteger s).2) ∧
      ∀ beyond, Pxe.parseInteger (s ++ beyond) =
        ((Pxe.parseInteger s).1, (Pxe.parseInteger s).2 ++ beyond) := by
  obtain ⟨literal, local_⟩ := ends.parseSliteral
  unfold Pxe.parseInteger
  simp only [local_]
  cases read : Pxe.parseSliteral s with
  | mk val behind =>
    rw [read] at literal
    cases val with
    | some val => exact ⟨.inr (literal.resolve_left nofun), fun beyond => rfl⟩
    | none => exact ⟨.inl rfl, fun beyond => rfl⟩

/-! ## Labels -/

/-- What follows a turn, with more behind it. -/
def Turn.extend {α : Type} (beyond : Text) : Turn α → Turn α
  | .next value rest => .next value (rest ++ beyond)
  | turn => turn

/-- A turn stays in a text, or leaves nothing of it, not even the NUL byte. -/
def Local {α : Type} (turn : Text → Turn α) (s : Text) : Prop :=
  (∃ value, turn s = .next value []) ∨
    (∀ beyond, turn (s ++ beyond) = (turn s).extend beyond) ∧
      ∀ value rest, turn s = .next value rest → Terminated rest

theorem literalLine_local (ends : Terminated s) (cfg : Menu) (set : Text → Label) :
    Local (fun c => literalLine c cfg set) s := by
  obtain ⟨literal, local_⟩ := ends.parseSliteral
  refine .inr ⟨fun beyond => ?_, fun value rest same => ?_⟩
  · simp only [literalLine, local_]
    cases parseSliteral s with
    | mk val behind => cases val <;> rfl
  · simp only [literalLine] at same
    split at same <;> cases same
    next read =>
    rw [read] at literal
    exact literal.resolve_left fun both => nomatch both.1

theorem integerLine_local (ends : Terminated s) (cfg : Menu) (set : Int32 → Label) :
    Local (fun c => integerLine c cfg set) s := by
  obtain ⟨number, local_⟩ := ends.parseInteger
  refine .inr ⟨fun beyond => ?_, fun value rest same => ?_⟩
  · simp only [integerLine, local_]
    cases parseInteger s with
    | mk val behind => cases val <;> rfl
  · simp only [integerLine] at same
    split at same <;> cases same
    next read =>
    rw [read] at number
    exact number.resolve_left nofun

theorem firstLiteralLine_local (ends : Terminated s) (label : Label) (cfg : Menu)
    (field : Option Text) (set : Text → Label) :
    Local (fun c => firstLiteralLine c label cfg field set) s := by
  unfold firstLiteralLine
  cases field with
  | some val =>
    refine .inr ⟨fun beyond => rfl, fun value rest same => ?_⟩
    cases same
    exact ends
  | none => exact literalLine_local ends cfg set

theorem appendLine_local (ends : Terminated s) (label : Label) (cfg : Menu) :
    Local (fun c => appendLine c label cfg) s := by
  obtain ⟨literal, local_⟩ := ends.parseSliteral
  refine .inr ⟨fun beyond => ?_, fun value rest same => ?_⟩
  · simp only [appendLine, local_]
    split
    · rfl
    · split <;> rfl
  · simp only [appendLine] at same
    split at same
    · cases same
    · split at same <;> cases same
      next given =>
      refine literal.resolve_left fun both => ?_
      rw [both.1] at given
      cases given

/-- A `menu` line of a label stays in the text unless it ends unfinished. -/
theorem parseLabelMenu_local (ends : Terminated s) (label : Label) (cfg : Menu) :
    Local (fun c => parseLabelMenu c label cfg) s := by
  obtain ⟨token, local_⟩ := ends.getToken .keyword
  unfold parseLabelMenu Local
  simp only [local_]
  cases read : getToken s .keyword with
  | mk t behind =>
    rw [read] at token
    rcases token with ⟨rfl, rfl⟩ | ⟨ended, token⟩
    · exact .inl ⟨_, rfl⟩
    · have line := token.eolOrEof
      cases t with
      | eof => exact absurd rfl ended
      | label =>
        obtain ⟨literal, literals⟩ := token.parseSliteral
        simp only [literals]
        cases found : parseSliteral behind with
        | mk val after =>
          rw [found] at literal
          rcases literal with ⟨rfl, rfl⟩ | literal
          · exact .inl ⟨_, rfl⟩
          · have after := literal.eolOrEof
            refine .inr ⟨fun beyond => ?_, fun value rest same => ?_⟩
            · cases val <;> simp only [after.2 beyond] <;> rfl
            · cases val <;> cases same <;> exact after.1
      | _ =>
        refine .inr ⟨fun beyond => ?_, fun value rest same => ?_⟩
        · dsimp only
          rw [line.2 beyond]
          rfl
        · cases same
          exact line.1

theorem labelTurn_local (ends : Terminated s) (label : Label) (cfg : Menu) :
    Local (fun c => labelTurn c label cfg) s := by
  obtain ⟨token, local_⟩ := ends.getToken .keyword
  unfold labelTurn Local
  simp only [local_]
  cases read : getToken s .keyword with
  | mk t behind =>
    rw [read] at token
    rcases token with ⟨rfl, rfl⟩ | ⟨ended, token⟩
    · exact .inr ⟨fun beyond => rfl, fun value rest same => nomatch same⟩
    · cases t <;> dsimp only
      case menu => exact parseLabelMenu_local token label cfg
      case kernel | linux => exact literalLine_local token cfg _
      case append => exact appendLine_local token label cfg
      case initrd | fdt | fdtdir => exact firstLiteralLine_local token label cfg _ _
      case localboot =>
        exact integerLine_local token cfg fun val =>
          { label with localboot := true, localbootVal := val }
      case ipappend => exact integerLine_local token cfg fun val => { label with ipappend := val }
      case eol =>
        refine .inr ⟨fun beyond => rfl, fun value rest same => ?_⟩
        cases same
        exact token
      all_goals exact .inr ⟨fun beyond => rfl, fun value rest same => nomatch same⟩

theorem labelLoop_eq (c : Text) (label : Label) (cfg : Menu) :
    labelLoop c label cfg =
      match labelTurn c label cfg with
      | .next value rest => labelLoop rest value.1 value.2
      | .done => .next (label, cfg) c
      | .fails err => .fails err
      | .undefined => .undefined := by
  rw [labelLoop]
  split <;> next turn => rw [turn]

theorem labelLoop_local (ends : Terminated s) (label : Label) (cfg : Menu) :
    Local (fun c => labelLoop c label cfg) s := by
  induction same : s.length using Nat.strong_induction_on generalizing s label cfg with
  | _ n ih =>
    have one := labelLoop_eq s label cfg
    rcases labelTurn_local ends label cfg with ⟨value, turn⟩ | ⟨local_, inside⟩
    · dsimp only at turn
      rw [turn] at one
      exact .inl ⟨value, one.trans (labelLoop_eq [] value.1 value.2)⟩
    · dsimp only at local_ inside
      have more (beyond : Text) := labelLoop_eq (s ++ beyond) label cfg
      simp only [local_] at more
      unfold Local
      simp only [more, one]
      cases turn : labelTurn s label cfg with
      | next value rest =>
        have shorter := (length_labelTurn_lt turn).1
        exact ih rest.length (same ▸ shorter) (inside value rest turn) value.1 value.2 rfl
      | done =>
        refine .inr ⟨fun beyond => rfl, fun value rest same => ?_⟩
        cases same
        exact ends
      | fails err => exact .inr ⟨fun beyond => rfl, fun value rest same => nomatch same⟩
      | undefined => exact .inr ⟨fun beyond => rfl, fun value rest same => nomatch same⟩

theorem parseLabel_local (ends : Terminated s) (cfg : Menu) :
    Local (fun c => parseLabel c cfg) s := by
  obtain ⟨literal, local_⟩ := ends.parseSliteral
  unfold parseLabel Local
  simp only [local_]
  cases read : parseSliteral s with
  | mk val behind =>
    rw [read] at literal
    cases val with
    | none => exact .inr ⟨fun beyond => rfl, fun value rest same => nomatch same⟩
    | some name =>
      have named := literal.resolve_left fun both => nomatch both.1
      dsimp only
      rcases labelLoop_local named { name } cfg with ⟨value, loop⟩ | ⟨loops, inside⟩
      · dsimp only at loop
        rw [loop]
        exact .inl ⟨_, rfl⟩
      · dsimp only at loops inside
        simp only [loops]
        cases loop : labelLoop behind { name } cfg with
        | next value rest =>
          refine .inr ⟨fun beyond => rfl, fun cfg' rest' same => ?_⟩
          cases same
          exact inside value rest loop
        | _ => exact .inr ⟨fun beyond => rfl, fun value rest same => nomatch same⟩

/-! ## Menus -/

/-- What follows a turn, with more behind it. -/
def TopTurn.extend (beyond : Text) : TopTurn → TopTurn
  | .turn last => .turn (last.extend beyond)
  | .included inMenu path cfg rest => .included inMenu path cfg (rest ++ beyond)

/-- A turn stays in a text whatever lies behind it, or leaves nothing of it, not even the NUL
byte. -/
def TopLocal (alone : TopTurn) (more : Text → TopTurn) : Prop :=
  (∃ cfg, alone = .turn (.next cfg [])) ∨
    (∀ beyond, more beyond = alone.extend beyond) ∧
      (∀ cfg rest, alone = .turn (.next cfg rest) → Terminated rest) ∧
      ∀ inMenu path cfg rest, alone = .included inMenu path cfg rest → Terminated rest

theorem TopLocal.next {more : Text → TopTurn} (ends : Terminated rest)
    (same : ∀ beyond, more beyond = .turn (.next cfg (rest ++ beyond))) :
    TopLocal (.turn (.next cfg rest)) more := by
  refine .inr ⟨same, fun cfg' rest' found => ?_, fun _ _ _ _ found => nomatch found⟩
  cases found
  exact ends

theorem TopLocal.fails {more : Text → TopTurn} {err : Int}
    (same : ∀ beyond, more beyond = .turn (.fails err)) :
    TopLocal (.turn (.fails err)) more :=
  .inr ⟨same, fun _ _ found => (nomatch found), fun _ _ _ _ found => nomatch found⟩

theorem handleInclude_local (ends : Terminated s) (inMenu : Bool) (cfg : Menu) :
    TopLocal (handleInclude inMenu s cfg) fun beyond => handleInclude inMenu (s ++ beyond) cfg := by
  obtain ⟨literal, local_⟩ := ends.parseSliteral
  unfold handleInclude
  simp only [local_]
  cases read : parseSliteral s with
  | mk val behind =>
    rw [read] at literal
    cases val with
    | none => exact .fails fun beyond => rfl
    | some path =>
      refine .inr ⟨fun beyond => rfl, fun _ _ same => (nomatch same),
        fun inMenu' path' cfg' rest same => ?_⟩
      cases same
      exact literal.resolve_left fun both => nomatch both.1

theorem parseMenu_local (ends : Terminated s) (cfg : Menu) :
    TopLocal (parseMenu s cfg) fun beyond => parseMenu (s ++ beyond) cfg := by
  obtain ⟨token, local_⟩ := ends.getToken .keyword
  unfold parseMenu
  simp only [local_]
  cases read : getToken s .keyword with
  | mk t behind =>
    rw [read] at token
    dsimp only at token ⊢
    rcases token with ⟨rfl, rfl⟩ | ⟨ended, token⟩
    · exact .inl ⟨_, rfl⟩
    · have line := token.eolOrEof
      cases t with
      | eof => exact absurd rfl ended
      | includes => exact handleInclude_local token true cfg
      | title =>
        obtain ⟨literal, literals⟩ := token.parseSliteral
        simp only [literals]
        cases found : parseSliteral behind with
        | mk val after =>
          rw [found] at literal
          cases val with
          | none => exact .fails fun beyond => rfl
          | some val =>
            have after := (literal.resolve_left fun both => nomatch both.1).eolOrEof
            exact .next after.1 fun beyond => by simp only [after.2]
      | _ => exact .next line.1 fun beyond => by simp only [line.2]

/-- A turn of the menu stays in the text unless a `menu` command ends unfinished. -/
theorem topTurn_local (ends : Terminated s) (cfg : Menu) :
    TopLocal (topTurn s cfg) fun beyond => topTurn (s ++ beyond) cfg := by
  obtain ⟨token, local_⟩ := ends.getToken .keyword
  unfold topTurn
  simp only [local_]
  cases read : getToken s .keyword with
  | mk t behind =>
    rw [read] at token
    dsimp only at token ⊢
    rcases token with ⟨rfl, rfl⟩ | ⟨ended, token⟩
    · exact .inr ⟨fun beyond => rfl, fun _ _ same => (nomatch same),
        fun _ _ _ _ same => nomatch same⟩
    · have line := token.eolOrEof
      cases t with
      | eof => exact absurd rfl ended
      | menu => exact parseMenu_local token { cfg with prompt := true }
      | includes => exact handleInclude_local token false cfg
      | timeout =>
        obtain ⟨number, numbers⟩ := token.parseInteger
        simp only [numbers]
        cases found : parseInteger behind with
        | mk val after =>
          rw [found] at number
          cases val with
          | none => exact .fails fun beyond => rfl
          | some val =>
            exact .next (number.resolve_left fun none => nomatch none) fun beyond => rfl
      | label =>
        rcases parseLabel_local token cfg with ⟨cfg', same⟩ | ⟨more, inside⟩
        · dsimp only at same ⊢
          exact .inl ⟨cfg', congrArg TopTurn.turn same⟩
        · dsimp only at more inside ⊢
          refine .inr ⟨fun beyond => congrArg TopTurn.turn (more beyond), fun cfg' rest same => ?_,
            fun _ _ _ _ same => nomatch same⟩
          exact inside cfg' rest (TopTurn.turn.inj same)
      | default | ontimeout =>
        obtain ⟨literal, literals⟩ := token.parseSliteral
        simp only [literals]
        cases found : parseSliteral behind with
        | mk val after =>
          rw [found] at literal
          cases val with
          | none => exact .fails fun beyond => rfl
          | some val =>
            exact .next (literal.resolve_left fun both => nomatch both.1) fun beyond => rfl
      | eol => exact .next token fun beyond => rfl
      | _ => exact .next line.1 fun beyond => by simp only [line.2]

end HrppBoot.Pxe
