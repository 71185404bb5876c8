import HrppBoot.Pxe.InPlace

/-!
# Texts in memory

A file is loaded behind the text that includes it, except that the NUL byte of a text whose length
is a multiple of four is overwritten by what an `include` line loads. Where the texts stay as they
are the parser finds what they say.
-/

namespace HrppBoot.Pxe

variable {mem mem' file pre text rest whole beyond : Text} {addr base k : Nat}

/-! ## Loading -/

theorem take_store (before : k ≤ addr) (inside : k ≤ mem.length) :
    (store mem addr file).take k = mem.take k := by
  have length : ((mem ++ List.replicate (addr - mem.length) 0).take addr).length = addr := by
    rw [List.length_take, List.length_append, List.length_replicate]
    omega
  rw [store, List.append_assoc, List.take_append_of_le_length (by omega), List.take_take,
    Nat.min_eq_left before, List.take_append_of_le_length inside]

theorem drop_store : (store mem addr file).drop addr =
    file ++ 0 :: mem.drop (addr + file.length + 1) := by
  have length : ((mem ++ List.replicate (addr - mem.length) 0).take addr).length = addr := by
    rw [List.length_take, List.length_append, List.length_replicate]
    omega
  rw [store, List.append_assoc, List.drop_left' length]

theorem terminated_textOf (file : Text) : Terminated (textOf file) := by
  unfold textOf
  induction file with
  | nil => exact .nul
  | cons c file ih =>
    by_cases nul : c = 0
    · simpa [nul] using Terminated.nul
    · simpa [nul] using Terminated.cons nul ih

theorem textOf_prefix : textOf file <+: file ++ 0 :: rest := by
  unfold textOf
  induction file with
  | nil => exact ⟨rest, rfl⟩
  | cons c file ih =>
    by_cases nul : c = 0
    · exact ⟨file ++ 0 :: rest, by simp [nul]⟩
    · simpa [nul] using ih

theorem Terminated.length (ends : Terminated text) :
    strlen (text ++ beyond) + 1 = text.length := by
  unfold strlen
  rw [(ends.dropWhile (p := (· ≠ 0)) rfl).2 beyond |>.2]
  induction ends with
  | nul => rfl
  | @cons c s nonzero rest ih => simpa [nonzero] using ih

theorem prefix_of_take (lies : whole <+: mem.drop base)
    (kept : mem'.take (base + whole.length) = mem.take (base + whole.length)) :
    whole <+: mem'.drop base := by
  rw [List.prefix_iff_eq_take] at lies ⊢
  rw [List.take_drop, kept, ← List.take_drop]
  exact lies

theorem drop_of_prefix (lies : pre ++ text <+: mem.drop base) :
    ∃ beyond, mem.drop (base + pre.length) = text ++ beyond := by
  obtain ⟨beyond, same⟩ := lies
  refine ⟨beyond, ?_⟩
  rw [← List.drop_drop, ← same, List.append_assoc, List.drop_left]

theorem end_le (lies : whole <+: mem.drop base) (some : 0 < whole.length) :
    base + whole.length ≤ mem.length := by
  have length := lies.length_le
  rw [List.length_drop] at length
  omega

theorem expand_eq (getPxeFile : Text → Except Int Text) (nestLevel length : Nat) (text : Text)
    (cfg : Menu) : expand getPxeFile nestLevel length text cfg =
      match topTurn text cfg with
      | .turn .done => .parsed cfg
      | .turn (.fails err) => .error err
      | .turn .undefined => .undefined
      | .turn (.next cfg rest) =>
        if rest = [] then .undefined else expand getPxeFile nestLevel length rest cfg
      | .included inMenu path cfg rest =>
        match getPxeFile path with
        | .error err => .error err
        | .ok file =>
          if maxNestLevel < nestLevel + 1 then .error (-emlink)
          else
            match expand getPxeFile (nestLevel + 1) (strlen file) (textOf file) cfg with
            | .parsed cfg =>
              if !inMenu && length % 4 = 0 then .undefined
              else expand getPxeFile nestLevel length (if inMenu then eolOrEof rest else rest) cfg
            | .error err => .error err
            | .undefined => .undefined := by
  rw [expand]
  split <;> next turn => rw [turn] <;> rfl

section

variable {getPxeFile : Text → Except Int Text} {nestLevel length : Nat} {cfg cfg' cfg'' : Menu}

theorem expand_done (turn : topTurn text cfg = .turn .done) :
    expand getPxeFile nestLevel length text cfg = .parsed cfg := by
  rw [expand_eq, turn]

theorem expand_next (turn : topTurn text cfg = .turn (.next cfg' rest)) (more : rest ≠ []) :
    expand getPxeFile nestLevel length text cfg =
      expand getPxeFile nestLevel length rest cfg' := by
  rw [expand_eq, turn]
  exact if_neg more

theorem expand_included {inMenu : Bool} {path : Text}
    (turn : topTurn text cfg = .included inMenu path cfg' rest)
    (loaded : getPxeFile path = .ok file) (level : ¬maxNestLevel < nestLevel + 1)
    (inner : expand getPxeFile (nestLevel + 1) (strlen file) (textOf file) cfg' = .parsed cfg'')
    (kept : ¬(!inMenu && length % 4 = 0) = true) :
    expand getPxeFile nestLevel length text cfg =
      expand getPxeFile nestLevel length (if inMenu then eolOrEof rest else rest) cfg'' := by
  rw [expand_eq, turn]
  dsimp only
  rw [loaded]
  dsimp only
  rw [if_neg level, inner]
  exact if_neg kept

end

/-! ## Parsing -/

/-- What the parser does with a text in memory from some place on: the outcome, if it is defined.
The memory up to the end of the text is kept. -/
def Found (getPxeFile : Text → Except Int Text) (nestLevel length : Nat) (text : Text) (cfg : Menu)
    (outcome : Outcome) : Prop :=
  outcome ≠ .undefined → ∀ pre mem base, (pre ++ text).length = length + 1 →
    Terminated (pre ++ text) → Terminated text → pre ++ text <+: mem.drop base →
      ∃ N mem', (∀ fuel ≥ N,
          topLoop getPxeFile fuel base (base + pre.length) cfg nestLevel mem =
            some (outcome, mem')) ∧
        ∀ cfg', outcome = .parsed cfg' →
          mem'.take (base + (pre ++ text).length) = mem.take (base + (pre ++ text).length)

theorem topTurn_extend {cfg : Menu} {turn : TopTurn} (ends : Terminated text)
    (same : topTurn text cfg = turn) (stays : ∀ cfg', turn ≠ .turn (.next cfg' [])) (beyond : Text)
    : topTurn (text ++ beyond) cfg = turn.extend beyond := by
  rcases topTurn_local ends cfg with ⟨cfg', past⟩ | ⟨more, -⟩
  · exact absurd (same.symm.trans past) (stays cfg')
  · rw [← same]
    exact more beyond

def includeAddr (inMenu : Bool) (base length : Nat) : Nat :=
  base + align4 (if inMenu then length + 1 else length)

theorem includeAddr_behind {inMenu : Bool} {length : Nat}
    (kept : ¬(!inMenu && length % 4 = 0) = true) :
    base + (length + 1) ≤ includeAddr inMenu base length := by
  unfold includeAddr align4
  cases inMenu with
  | true =>
    rw [if_pos rfl]
    omega
  | false =>
    have odd : length % 4 ≠ 0 := by simpa using kept
    rw [if_neg Bool.false_ne_true]
    omega

theorem found_inner {getPxeFile : Text → Except Int Text} {nestLevel : Nat} {cfg : Menu}
    {outcome : Outcome} (found : Found getPxeFile nestLevel (strlen file) (textOf file) cfg outcome)
    (defined : outcome ≠ .undefined) :
    ∃ N mem', (∀ fuel ≥ N, topLoop getPxeFile fuel addr addr cfg nestLevel (store mem addr file) =
        some (outcome, mem')) ∧
      ∀ cfg', outcome = .parsed cfg' → mem'.take addr = (store mem addr file).take addr := by
  have lies : [] ++ textOf file <+: (store mem addr file).drop addr := by
    rw [drop_store]
    exact textOf_prefix
  have ends := terminated_textOf file
  have long : ([] ++ textOf file).length = strlen file + 1 := by
    rw [List.nil_append, textOf, List.length_append]
    rfl
  obtain ⟨N, mem', run, kept⟩ := found defined [] (store mem addr file) addr long ends ends lies
  refine ⟨N, mem', run, fun cfg' parsed => ?_⟩
  have same := congrArg (List.take addr) (kept cfg' parsed)
  rwa [List.take_take, List.take_take, Nat.min_eq_left (Nat.le_add_right _ _)] at same

variable {outcome : Outcome}

theorem found_last {getPxeFile : Text → Except Int Text} {nestLevel length : Nat} {cfg : Menu}
    {turn : TopTurn} (same : topTurn text cfg = turn)
    (stays : ∀ cfg', turn ≠ .turn (.next cfg' []))
    (last : ∀ base p mem beyond, topTurn (mem.drop p) cfg = turn.extend beyond →
      ∃ mem', (∀ fuel, topLoop getPxeFile (fuel + 1) base p cfg nestLevel mem =
          some (outcome, mem')) ∧ ∀ cfg', outcome = .parsed cfg' → mem' = mem) :
    Found getPxeFile nestLevel length text cfg outcome := by
  intro _ pre mem base _ _ ends lies
  obtain ⟨beyond, here⟩ := drop_of_prefix lies
  have turned := topTurn_extend ends same stays beyond
  rw [← here] at turned
  obtain ⟨mem', run, kept⟩ := last base (base + pre.length) mem beyond turned
  refine ⟨1, mem', fun fuel enough => ?_, fun cfg' parsed => by rw [kept cfg' parsed]⟩
  obtain ⟨fuel, rfl⟩ := Nat.exists_eq_add_of_le' enough
  exact run fuel

theorem found_next {getPxeFile : Text → Except Int Text} {nestLevel length : Nat} {cfg cfg' : Menu}
    (turn : topTurn text cfg = .turn (.next cfg' rest)) (more : rest ≠ [])
    (after : Found getPxeFile nestLevel length rest cfg' outcome) :
    Found getPxeFile nestLevel length text cfg outcome := by
  intro defined pre mem base long whole ends lies
  obtain ⟨mid, rfl⟩ := ((topTurn_shorter text cfg).1 cfg' rest turn).2
  obtain ⟨beyond, here⟩ := drop_of_prefix lies
  have stays (cfg'' : Menu) : TopTurn.turn (.next cfg' rest) ≠ .turn (.next cfg'' []) := by
    intro same
    cases same
    exact more rfl
  have inside : Terminated rest := by
    rcases topTurn_local ends cfg with ⟨cfg'', past⟩ | ⟨-, next, -⟩
    · exact absurd (turn.symm.trans past) (stays cfg'')
    · exact next cfg' rest turn
  have turned := topTurn_extend ends turn stays beyond
  rw [← List.append_assoc] at long whole lies
  obtain ⟨N, mem', run, kept⟩ := after defined (pre ++ mid) mem base long whole inside lies
  rw [List.append_assoc] at kept
  refine ⟨N + 1, mem', fun fuel enough => ?_, kept⟩
  obtain ⟨fuel, rfl⟩ := Nat.exists_eq_add_of_le' (Nat.le_of_add_left_le enough)
  have behind : base + pre.length + ((mid ++ rest ++ beyond).length - (rest ++ beyond).length) =
      base + (pre ++ mid).length := by
    simp only [List.length_append]
    omega
  rw [topLoop, here, turned]
  dsimp only [TopTurn.extend, Turn.extend]
  rw [behind]
  exact run fuel (by omega)

/-- A turn that includes a file whose text is complete. -/
theorem found_included {getPxeFile : Text → Except Int Text} {nestLevel length : Nat}
    {cfg cfg' cfg'' : Menu} {inMenu : Bool} {path : Text}
    (turn : topTurn text cfg = .included inMenu path cfg' rest)
    (loaded : getPxeFile path = .ok file) (level : ¬maxNestLevel < nestLevel + 1)
    (inner : Found getPxeFile (nestLevel + 1) (strlen file) (textOf file) cfg' (.parsed cfg''))
    (kept : ¬(!inMenu && length % 4 = 0) = true)
    (after : Found getPxeFile nestLevel length (if inMenu then eolOrEof rest else rest) cfg''
      outcome) : Found getPxeFile nestLevel length text cfg outcome := by
  intro defined pre mem base long whole ends lies
  obtain ⟨mid, rfl⟩ := ((topTurn_shorter text cfg).2 inMenu path cfg' rest turn).2
  obtain ⟨beyond, here⟩ := drop_of_prefix lies
  have turned := topTurn_extend ends turn nofun beyond
  have inside : Terminated rest := by
    rcases topTurn_local ends cfg with ⟨cfg', past⟩ | ⟨-, -, next⟩
    · exact absurd (turn.symm.trans past) nofun
    · exact next inMenu path cfg' rest turn
  -- The file lies behind the text.
  have strlen' : strlen (mem.drop base) = length := by
    obtain ⟨beyond', same⟩ := lies
    have counted := @Terminated.length _ beyond' whole
    rw [same] at counted
    omega
  have behind := @includeAddr_behind base inMenu length kept
  rw [← long] at behind
  have room := end_le lies (by omega)
  obtain ⟨M, mem', run, keeps⟩ := @found_inner mem file (includeAddr inMenu base length) getPxeFile
    (nestLevel + 1) cfg' (.parsed cfg'') inner nofun
  have same : mem'.take (base + (pre ++ (mid ++ rest)).length) =
      mem.take (base + (pre ++ (mid ++ rest)).length) := by
    have below := congrArg (List.take (base + (pre ++ (mid ++ rest)).length)) (keeps cfg'' rfl)
    rwa [List.take_take, List.take_take, Nat.min_eq_left behind, take_store behind room] at below
  have lies' := prefix_of_take lies same
  -- The parser goes on behind the line.
  obtain ⟨beyond', here'⟩ := drop_of_prefix (List.append_assoc pre mid rest ▸ lies')
  obtain ⟨next, skip, split, ends', skips⟩ : ∃ next skip, skip ++ next = rest ∧ Terminated next ∧
      (if inMenu then eolOrEof rest else rest) = next := by
    cases inMenu with
    | true =>
      obtain ⟨skip, same⟩ := List.dropWhile_suffix inLine (l := rest)
      exact ⟨_, skip, same, inside.eolOrEof.1, rfl⟩
    | false => exact ⟨rest, [], rfl, inside, rfl⟩
  have skipped : (if inMenu then (rest ++ beyond').length - (eolOrEof (rest ++ beyond')).length
      else 0) = skip.length := by
    rw [← split] at skips ⊢
    cases inMenu with
    | true =>
      rw [if_pos rfl] at skips ⊢
      have line : Terminated (skip ++ next) := split.symm ▸ inside
      rw [line.eolOrEof.2, skips]
      simp only [List.length_append]
      omega
    | false =>
      rw [if_neg Bool.false_ne_true] at skips ⊢
      have count := congrArg List.length skips
      rw [List.length_append] at count
      omega
  rw [skips] at after
  rw [← split, ← List.append_assoc mid, ← List.append_assoc pre, ← List.append_assoc pre]
    at long whole lies' same
  obtain ⟨N, mem'', run', kept'⟩ := after defined _ mem' base long whole ends' lies'
  refine ⟨max M N + 1, mem'', fun fuel enough => ?_, fun cfg' parsed => ?_⟩
  · obtain ⟨fuel, rfl⟩ := Nat.exists_eq_add_of_le' (Nat.le_of_add_left_le enough)
    have position : base + pre.length + ((mid ++ rest ++ beyond).length - (rest ++ beyond).length) =
        base + (pre ++ mid).length := by
      simp only [List.length_append]
      omega
    rw [topLoop, here, turned]
    dsimp only [TopTurn.extend]
    rw [loaded]
    dsimp only
    rw [if_neg level, strlen', ← includeAddr, run fuel (by omega)]
    dsimp only
    rw [position, here', skipped]
    have total : base + (pre ++ mid).length + skip.length =
        base + (pre ++ mid ++ skip).length := by
      simp only [List.length_append]
      omega
    rw [total]
    exact run' fuel (by omega)
  · rw [← split, ← List.append_assoc mid, ← List.append_assoc pre, ← List.append_assoc pre,
      kept' cfg' parsed, same]

/-- The parser finds what a text says. -/
theorem topLoop_expand (getPxeFile : Text → Except Int Text) (nestLevel length : Nat) (text : Text)
    (cfg : Menu) : Found getPxeFile nestLevel length text cfg
      (expand getPxeFile nestLevel length text cfg) := by
  induction nestLevel, length, text, cfg using expand.induct getPxeFile with
  | case1 nestLevel length text cfg turn =>
    rw [expand_done turn]
    refine found_last turn nofun fun base p mem beyond turned =>
      ⟨mem, fun fuel => ?_, fun _ _ => rfl⟩
    rw [topLoop, turned]
    rfl
  | case2 nestLevel length text cfg err turn =>
    rw [expand_eq, turn]
    refine found_last turn nofun fun base p mem beyond turned =>
      ⟨mem, fun fuel => ?_, fun _ _ => rfl⟩
    rw [topLoop, turned]
    rfl
  | case3 nestLevel length text cfg turn =>
    rw [expand_eq, turn]
    exact fun defined => absurd rfl defined
  | case4 nestLevel length text cfg cfg' turn =>
    rw [expand_eq, turn]
    exact fun defined => absurd rfl defined
  | case5 nestLevel length text cfg cfg' rest turn more ih =>
    rw [expand_next turn more]
    exact found_next turn more ih
  | case6 nestLevel length text cfg inMenu path cfg' rest turn err missing =>
    rw [expand_eq, turn]
    dsimp only
    rw [missing]
    refine found_last turn nofun fun base p mem beyond turned =>
      ⟨mem, fun fuel => ?_, fun _ _ => rfl⟩
    rw [topLoop, turned]
    dsimp only [TopTurn.extend]
    rw [missing]
  | case7 nestLevel length text cfg inMenu path cfg' rest turn file loaded deep =>
    rw [expand_eq, turn]
    dsimp only
    rw [loaded]
    dsimp only
    rw [if_pos deep]
    refine found_last turn nofun fun base p mem beyond turned =>
      ⟨store mem (base + align4 (if inMenu then strlen (mem.drop base) + 1
        else strlen (mem.drop base))) file, fun fuel => ?_, fun _ same => nomatch same⟩
    rw [topLoop, turned]
    dsimp only [TopTurn.extend]
    rw [loaded]
    dsimp only
    rw [if_pos deep]
  | case8 nestLevel length text cfg inMenu path cfg' rest turn file loaded level cfg'' inner lost =>
    rw [expand_eq, turn]
    dsimp only
    rw [loaded]
    dsimp only
    rw [if_neg level, inner]
    dsimp only
    rw [if_pos lost]
    exact fun defined => absurd rfl defined
  | case9 nestLevel length text cfg inMenu path cfg' rest turn file loaded level cfg'' inner kept
      ih after =>
    rw [inner] at ih
    rw [expand_included turn loaded level inner kept]
    exact found_included turn loaded level ih kept after
  | case10 nestLevel length text cfg inMenu path cfg' rest turn file loaded level err inner ih =>
    rw [inner] at ih
    rw [expand_eq, turn]
    dsimp only
    rw [loaded]
    dsimp only
    rw [if_neg level, inner]
    dsimp only
    intro _ pre mem base long whole ends lies
    obtain ⟨beyond, here⟩ := drop_of_prefix lies
    have turned := topTurn_extend ends turn nofun beyond
    obtain ⟨N, mem', run, -⟩ := @found_inner mem file (includeAddr inMenu base
      (strlen (mem.drop base))) getPxeFile (nestLevel + 1) cfg' (.error err) ih nofun
    refine ⟨N + 1, mem', fun fuel enough => ?_, nofun⟩
    obtain ⟨fuel, rfl⟩ := Nat.exists_eq_add_of_le' (Nat.le_of_add_left_le enough)
    rw [topLoop, here, turned]
    dsimp only [TopTurn.extend]
    rw [loaded]
    dsimp only
    rw [if_neg level, ← includeAddr, run fuel (by omega)]
  | case11 nestLevel length text cfg inMenu path cfg' rest turn file loaded level inner =>
    rw [expand_eq, turn]
    dsimp only
    rw [loaded]
    dsimp only
    rw [if_neg level, inner]
    exact fun defined => absurd rfl defined

/-! ## Menus -/

theorem textOf_prefix_self (nul : 0 ∈ file) : textOf file <+: file := by
  unfold textOf
  induction file with
  | nil => exact absurd nul List.not_mem_nil
  | cons c file ih =>
    by_cases here : c = 0
    · exact ⟨file, by simp [here]⟩
    · have later : 0 ∈ file := (List.mem_cons.mp nul).resolve_left fun same => here same.symm
      simpa [here] using ih later

/-- What a menu text in memory says: it and the files it includes. -/
def menuOf (getPxeFile : Text → Except Int Text) (menucfg : Nat) (mem : Text) : Outcome :=
  expand getPxeFile 1 (strlen (mem.drop menucfg)) (textOf (mem.drop menucfg)) {}

/-- The menu is what the text and the included files say. -/
theorem parsePxefile_menuOf (getPxeFile : Text → Except Int Text) (menucfg : Nat) (mem : Text)
    (nul : 0 ∈ mem.drop menucfg) (defined : menuOf getPxeFile menucfg mem ≠ .undefined) :
    ∃ N, ∀ fuel ≥ N, parsePxefile getPxeFile fuel menucfg mem =
      some (menuOf getPxeFile menucfg mem) := by
  have ends := terminated_textOf (mem.drop menucfg)
  have long : ([] ++ textOf (mem.drop menucfg)).length = strlen (mem.drop menucfg) + 1 := by
    rw [List.nil_append, textOf, List.length_append]
    rfl
  obtain ⟨N, mem', run, -⟩ := topLoop_expand getPxeFile 1 (strlen (mem.drop menucfg))
    (textOf (mem.drop menucfg)) {} defined [] mem menucfg long ends ends (textOf_prefix_self nul)
  refine ⟨N, fun fuel enough => ?_⟩
  have found := run fuel enough
  rw [List.length_nil, Nat.add_zero] at found
  rw [parsePxefile, found]
  rfl

/-- A server that has one file, with a label. -/
def labelServer (path : Text) : Except Int Text :=
  if path = ascii "f" then .ok (ascii "label a\n") else .error (-2)

/-- A text that includes it and goes on with a `kernel` line. -/
def includingText : Text := ascii "include f\nkernel k\n"

theorem menuOf_includingText :
    menuOf labelServer 0 (includingText ++ [0]) =
      .parsed { labels := [{ name := ascii "a" }] } := by
  have inner : expand labelServer 2 8 (ascii "label a\n" ++ [0]) {} =
      .parsed { labels := [{ name := ascii "a" }] } :=
    calc
      _ = expand labelServer 2 8 [0] { labels := [{ name := ascii "a" }] } :=
        expand_next (by decide +kernel) (by decide)
      _ = _ := expand_done (by decide +kernel)
  have turn : topTurn (textOf ((includingText ++ [0]).drop 0)) {} =
      .included false (ascii "f") {} (ascii "\nkernel k\n" ++ [0]) := by decide +kernel
  have loaded : labelServer (ascii "f") = .ok (ascii "label a\n") := rfl
  calc
    _ = expand labelServer 1 19 (ascii "\nkernel k\n" ++ [0])
        { labels := [{ name := ascii "a" }] } :=
      expand_included turn loaded (by decide) inner (by decide +kernel)
    _ = expand labelServer 1 19 (ascii "kernel k\n" ++ [0]) { labels := [{ name := ascii "a" }] } :=
      expand_next (by decide +kernel) (by decide)
    _ = expand labelServer 1 19 (ascii "\n" ++ [0]) { labels := [{ name := ascii "a" }] } :=
      expand_next (by decide +kernel) (by decide)
    _ = expand labelServer 1 19 [0] { labels := [{ name := ascii "a" }] } :=
      expand_next (by decide +kernel) (by decide)
    _ = _ := expand_done (by decide +kernel)

/-- The parser finds that. -/
theorem parsePxefile_includingText : 0 ∈ (includingText ++ [0]).drop 0 ∧
    menuOf labelServer 0 (includingText ++ [0]) ≠ .undefined ∧
    ∃ N, ∀ fuel ≥ N, parsePxefile labelServer fuel 0 (includingText ++ [0]) =
      some (.parsed { labels := [{ name := ascii "a" }] }) := by
  have nul : 0 ∈ (includingText ++ [0]).drop 0 := by decide +kernel
  have defined : menuOf labelServer 0 (includingText ++ [0]) ≠ .undefined := by
    rw [menuOf_includingText]
    nofun
  refine ⟨nul, defined, ?_⟩
  rw [← menuOf_includingText]
  exact parsePxefile_menuOf labelServer 0 (includingText ++ [0]) nul defined

/-! ## Replacing lines -/

/-- The file that a line includes, by itself or in a `menu` command. -/
def includedBy (line : Text) : Option Text :=
  match getToken line .keyword with
  | (.includes, rest) => (parseSliteral rest).1
  | (.menu, rest) =>
    match getToken rest .keyword with
    | (.includes, rest) => (parseSliteral rest).1
    | _ => none
  | _ => none

/-- A text with the lines that include a file replaced. -/
def replaceLines (file : Text → Except Int Text) (text : Text) : Except Int Text := do
  let lines ← (text.splitOn newline).mapM fun line =>
    match includedBy line with
    | none => .ok line
    | some path => file path
  return [newline].intercalate lines

/-- A text with the lines that include a file replaced by the file's contents, up to a depth. -/
def replaced (getPxeFile : Text → Except Int Text) : (depth : Nat) → Text → Except Int Text
  | 0 => replaceLines fun _ => .error (-emlink)
  | depth + 1 => replaceLines fun path => do
    let file ← getPxeFile path
    replaced getPxeFile depth (file.takeWhile (· ≠ 0))

/-- A label ends with its file: with the line replaced by the contents of the file the label has a
kernel. -/
theorem includingText_not_replaced : ∃ text,
    replaced labelServer maxNestLevel includingText = .ok text ∧
      parsePxefile labelServer 10 0 (includingText ++ [0]) =
        some (.parsed { labels := [{ name := ascii "a" }] }) ∧
      parsePxefile labelServer 10 0 (text ++ [0]) =
        some (.parsed { labels := [{ name := ascii "a", kernel := some (ascii "k") }] }) :=
  ⟨ascii "label a\n\nkernel k\n", by decide +kernel, by decide +kernel, by decide +kernel⟩

end HrppBoot.Pxe
