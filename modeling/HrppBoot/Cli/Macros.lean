import HrppBoot.Cli.Simple

/-!
# Macros of a command line

What a line asks for does not depend on the environment nor on the room for it: characters, and the
values of variables. `cli_simple_process_macros` writes them until the output is full, and looks up
no name that does not fit its buffer.
-/

namespace HrppBoot.Cli

/-! ## What a line asks for -/

inductive Item where
  | char (c : UInt8)
  | value (name : CString)

/-- What is written for it where there is room. -/
def Item.text (getenv : CString → Option CString) : Item → CString
  | .char c => [c]
  | .value name => (getenv name).getD []

def textOf (getenv : CString → Option CString) (items : List Item) : CString :=
  items.flatMap (Item.text getenv)

theorem textOf_append (getenv : CString → Option CString) (front back : List Item) :
    textOf getenv (front ++ back) = textOf getenv front ++ textOf getenv back :=
  List.flatMap_append

theorem textOf_cons (getenv : CString → Option CString) (item : Item) (items : List Item) :
    textOf getenv (item :: items) = item.text getenv ++ textOf getenv items :=
  List.flatMap_cons

/-- The state behind a character that takes up the characters `raw`, and what it asks for. -/
def switchItems (state : MacroState) (prev c : UInt8) (raw : List UInt8) :
    MacroState × List Item :=
  match state with
  | .dollar =>
    if c = Cli.quote ∧ prev ≠ backslash then (.quote, [])
    else if c = Cli.dollar ∧ prev ≠ backslash then (.bracket, [])
    else (.dollar, [.char c])
  | .bracket =>
    if c = 0x28 ∨ c = 0x7b then (.name [], []) else (.dollar, [.char Cli.dollar, .char c])
  | .name chars =>
    if c = 0x29 ∨ c = 0x7d then (.dollar, [.value (chars ++ raw.dropLast)])
    else (.name (chars ++ raw), [])
  | .quote =>
    if c = Cli.quote ∧ prev ≠ backslash then (.dollar, []) else (.quote, [.char c])

def itemsFrom (state : MacroState) (prev : UInt8) : List UInt8 → List Item
  | [] => []
  | c :: input =>
    if state ≠ .quote ∧ c = backslash ∧ prev ≠ backslash then
      match input with
      | [] => []
      | d :: input =>
        (switchItems state c d [c, d]).2 ++ itemsFrom (switchItems state c d [c, d]).1 d input
    else
      (switchItems state prev c [c]).2 ++ itemsFrom (switchItems state prev c [c]).1 c input

/-- What a line asks for, from its start. -/
def itemsOf (line : CString) : List Item := itemsFrom .dollar 0 line

/-! ## Writing it -/

section Budget

variable (cbsize : Nat) (getenv : CString → Option CString)

/-- What is written behind `output`, if no name is too long. -/
def perform (output : List UInt8) : List Item → Option (List UInt8)
  | [] => some output
  | .char c :: items =>
    if output.length < cbsize then perform (output ++ [c]) items else some output
  | .value name :: items =>
    if output.length < cbsize then
      if name.length < cbsize then
        perform (output ++ ((getenv name).getD []).take (cbsize - output.length)) items
      else none
    else some output

variable {output : List UInt8}

theorem perform_full (full : ¬output.length < cbsize) (items : List Item) :
    perform cbsize getenv output items = some output := by
  cases items with
  | nil => rfl
  | cons item items => cases item <;> rw [perform, if_neg full]

theorem perform_append (output : List UInt8) (front back : List Item) :
    perform cbsize getenv output (front ++ back) =
      (perform cbsize getenv output front).bind fun output =>
        perform cbsize getenv output back := by
  induction front generalizing output with
  | nil => rfl
  | cons item front ih =>
    by_cases room : output.length < cbsize
    · cases item with
      | char c => rw [List.cons_append, perform, perform, if_pos room, if_pos room, ih]
      | value name =>
        rw [List.cons_append, perform, perform, if_pos room, if_pos room]
        split
        · exact ih _
        · rfl
    · rw [perform_full _ _ room, perform_full _ _ room, Option.bind_some,
        perform_full _ _ room]

/-- A character writes what it asks for. -/
theorem macroSwitch_perform (room : output.length < cbsize) (state : MacroState) (prev c : UInt8)
    (raw : List UInt8) :
    macroSwitch cbsize getenv state prev c raw output =
      (perform cbsize getenv output (switchItems state prev c raw).2).map fun output =>
        ((switchItems state prev c raw).1, output) := by
  cases state with
  | dollar =>
    rw [macroSwitch, switchItems]
    split
    · rfl
    split
    · rfl
    · simp [perform, room]
  | bracket =>
    rw [macroSwitch, switchItems]
    split
    · rfl
    · simp only [perform, if_pos room]
      split <;> rfl
  | name chars =>
    rw [macroSwitch, switchItems]
    split
    · simp only [perform, if_pos room]
      split
      · cases getenv (chars ++ raw.dropLast) <;> simp
      · rfl
    · rfl
  | quote =>
    rw [macroSwitch, switchItems]
    split
    · rfl
    · simp [perform, room]

/-- The loop writes what the line asks for. -/
theorem macroLoop_perform (state : MacroState) (prev : UInt8) (output input : List UInt8) :
    macroLoop cbsize getenv state prev output input =
      perform cbsize getenv output (itemsFrom state prev input) := by
  induction size : input.length using Nat.strong_induction_on
    generalizing state prev output input with
  | _ size ih =>
    cases input with
    | nil => rfl
    | cons c input =>
      by_cases room : output.length < cbsize
      · -- A turn takes one character, or an escape and the next.
        have one : ((macroSwitch cbsize getenv state prev c [c] output).bind fun r =>
              macroLoop cbsize getenv r.1 c r.2 input) =
            perform cbsize getenv output ((switchItems state prev c [c]).2 ++
              itemsFrom (switchItems state prev c [c]).1 c input) := by
          rw [macroSwitch_perform _ _ room, perform_append, Option.bind_map]
          congr 1
          funext output
          exact ih input.length (by simp at size; omega) _ _ _ _ rfl
        cases input with
        | nil =>
          rw [macroLoop, if_pos room, itemsFrom]
          split
          · rfl
          · exact one
        | cons d input =>
          rw [macroLoop, if_pos room, itemsFrom]
          split
          · dsimp only
            rw [macroSwitch_perform _ _ room, perform_append, Option.bind_map]
            congr 1
            funext output
            exact ih input.length (by simp at size; omega) _ _ _ _ rfl
          · exact one
      · rw [perform_full _ _ room]
        cases input <;> rw [macroLoop, if_neg room]

/-- The names that are looked up behind `used` bytes of output are short enough. -/
def NamesFit (used : Nat) (items : List Item) : Prop :=
  ∀ front name back, items = front ++ .value name :: back →
    used + (textOf getenv front).length < cbsize → name.length < cbsize

variable {cbsize getenv}

theorem NamesFit.tail {used : Nat} {item : Item} {items : List Item}
    (fit : NamesFit cbsize getenv used (item :: items)) :
    NamesFit cbsize getenv (used + (item.text getenv).length) items := by
  rintro front name back rfl room
  refine fit (item :: front) name back rfl ?_
  rw [textOf_cons, List.length_append]
  omega

theorem NamesFit.cons {used : Nat} {item : Item} {items : List Item}
    (first : ∀ name, item = .value name → used < cbsize → name.length < cbsize)
    (rest : NamesFit cbsize getenv (used + (item.text getenv).length) items) :
    NamesFit cbsize getenv used (item :: items) := by
  intro front name back split room
  cases front with
  | nil =>
    obtain ⟨rfl, rfl⟩ := List.cons.inj split
    exact first name rfl (by simpa [textOf] using room)
  | cons other front =>
    obtain ⟨rfl, rfl⟩ := List.cons.inj split
    refine rest front name back rfl ?_
    rw [textOf_cons, List.length_append] at room
    omega

theorem NamesFit.of_full {used : Nat} (full : cbsize ≤ used) (items : List Item) :
    NamesFit cbsize getenv used items :=
  fun _ _ _ _ room => absurd room (by omega)

theorem perform_char (c : UInt8) (items : List Item) :
    perform cbsize getenv output (.char c :: items) =
      perform cbsize getenv (output ++ [c].take (cbsize - output.length)) items := by
  rw [perform]
  split
  · rw [List.take_of_length_le (by simp; omega)]
  · rename_i full
    rw [Nat.sub_eq_zero_of_le (by omega), List.take_zero, List.append_nil,
      perform_full _ _ full]

/-- What is written behind an output, and when nothing is. -/
theorem perform_eq (output : List UInt8) (items : List Item) (room : output.length ≤ cbsize) :
    (NamesFit cbsize getenv output.length items →
      perform cbsize getenv output items = some ((output ++ textOf getenv items).take cbsize)) ∧
    (¬NamesFit cbsize getenv output.length items → perform cbsize getenv output items = none) := by
  induction items generalizing output with
  | nil =>
    refine ⟨fun _ => ?_, fun other => ?_⟩
    · rw [perform, textOf, List.flatMap_nil, List.append_nil, List.take_of_length_le room]
    · exact absurd (fun _ _ _ split _ => by simp at split) other
  | cons item items ih =>
    by_cases full : cbsize ≤ output.length
    · refine ⟨fun _ => ?_, fun other => absurd (NamesFit.of_full full _) other⟩
      rw [perform_full _ _ (by omega), List.take_append_of_le_length full,
        List.take_of_length_le room]
    · -- What the first thing adds, cut to the room, and whether the room was enough for it.
      let next := output ++ (item.text getenv).take (cbsize - output.length)
      have bound : next.length ≤ cbsize := by simp [next]; omega
      have same : (next ++ textOf getenv items).take cbsize =
          (output ++ textOf getenv (item :: items)).take cbsize := by
        rw [textOf_cons, ← List.append_assoc]
        by_cases fits : (item.text getenv).length ≤ cbsize - output.length
        · rw [show next = output ++ item.text getenv by
            rw [← List.take_of_length_le fits]]
        · have whole : next = (output ++ item.text getenv).take cbsize := by
            rw [List.take_append, List.take_of_length_le room]
          have size : next.length = cbsize := by
            rw [whole, List.length_take, List.length_append]
            omega
          rw [List.take_append_of_le_length (by omega), List.take_of_length_le (by omega),
            List.take_append_of_le_length (by simp; omega), whole]
      have names : NamesFit cbsize getenv next.length items ↔
          NamesFit cbsize getenv (output.length + (item.text getenv).length) items := by
        by_cases fits : (item.text getenv).length ≤ cbsize - output.length
        · rw [show next.length = output.length + (item.text getenv).length by
            simp [next]; omega]
        · have size : cbsize ≤ next.length := by simp [next]; omega
          exact iff_of_true (.of_full size _) (.of_full (by omega) _)
      obtain ⟨written, stopped⟩ := ih next bound
      rw [names, same] at written
      rw [names] at stopped
      cases item with
      | char c =>
        rw [perform_char]
        refine ⟨fun fit => written fit.tail, fun other => stopped fun rest => other ?_⟩
        exact .cons (fun name value => by cases value) rest
      | value name =>
        rw [perform, if_pos (by omega)]
        by_cases short : name.length < cbsize
        · rw [if_pos short]
          refine ⟨fun fit => written fit.tail, fun other => stopped fun rest => other ?_⟩
          refine .cons (fun name' value _ => ?_) rest
          cases value
          exact short
        · rw [if_neg short]
          refine ⟨fun fit => ?_, fun _ => rfl⟩
          refine absurd (fit [] name items rfl ?_) short
          rw [textOf, List.flatMap_nil, List.length_nil]
          omega

end Budget

/-! ## Text and macros -/

inductive Piece where
  | text (chars : CString)
  | value (brace : Bool) (name : CString)

def Piece.render : Piece → CString
  | .text chars => chars
  | .value brace name =>
    dollar :: (if brace then 0x7b else 0x28) :: (name ++ [if brace then 0x7d else 0x29])

/-- Text has no backslash, quote or dollar sign, and a name no closing bracket. -/
def Piece.WellFormed : Piece → Prop
  | .text chars => ∀ c ∈ chars, c ≠ backslash ∧ c ≠ quote ∧ c ≠ dollar
  | .value _ name => ∀ c ∈ name, c ≠ 0x29 ∧ c ≠ 0x7d

/-- The text of a part: each macro is replaced by the value of its variable. -/
def Piece.expand (getenv : CString → Option CString) : Piece → CString
  | .text chars => chars
  | .value _ name => (getenv name).getD []

def Piece.items : Piece → List Item
  | .text chars => chars.map .char
  | .value _ name => [.value name]

theorem textOf_items (getenv : CString → Option CString) (piece : Piece) :
    textOf getenv piece.items = piece.expand getenv := by
  cases piece with
  | text chars =>
    rw [Piece.items, textOf, List.flatMap_map]
    exact List.flatMap_singleton' chars
  | value brace name =>
    rw [Piece.items, textOf_cons]
    exact List.append_nil _

theorem itemsFrom_plain {c : UInt8} (plain : c ≠ backslash) (state : MacroState) (prev : UInt8)
    (input : List UInt8) :
    itemsFrom state prev (c :: input) =
      (switchItems state prev c [c]).2 ++
        itemsFrom (switchItems state prev c [c]).1 c input := by
  have unescaped : ¬(state ≠ .quote ∧ c = backslash ∧ prev ≠ backslash) :=
    fun escape => plain escape.2.1
  cases input <;> simp only [itemsFrom, if_neg unescaped]

variable {prev : UInt8}

theorem itemsFrom_text {chars : CString}
    (text : ∀ c ∈ chars, c ≠ backslash ∧ c ≠ quote ∧ c ≠ dollar) (plain : prev ≠ backslash)
    (rest : List UInt8) :
    ∃ last, last ≠ backslash ∧ itemsFrom .dollar prev (chars ++ rest) =
      chars.map .char ++ itemsFrom .dollar last rest := by
  induction chars generalizing prev with
  | nil => exact ⟨prev, plain, rfl⟩
  | cons c chars ih =>
    obtain ⟨unescaped, unquoted, nodollar⟩ := text c List.mem_cons_self
    obtain ⟨last, plain, read⟩ := ih (fun d member => text d (List.mem_cons_of_mem _ member))
      unescaped
    refine ⟨last, plain, ?_⟩
    have step : switchItems .dollar prev c [c] = (.dollar, [.char c]) := by
      rw [switchItems, if_neg fun quoted => unquoted quoted.1,
        if_neg fun opened => nodollar opened.1]
    rw [List.cons_append, itemsFrom_plain unescaped, step, read]
    rfl

/-- A name is read up to its closing bracket, escapes included. -/
theorem itemsFrom_name {name : CString} (open' : ∀ c ∈ name, c ≠ 0x29 ∧ c ≠ 0x7d) {close : UInt8}
    (closing : close = 0x29 ∨ close = 0x7d) (chars : CString) (prev : UInt8) (rest : List UInt8) :
    itemsFrom (.name chars) prev (name ++ close :: rest) =
      .value (chars ++ name) :: itemsFrom .dollar close rest := by
  have plain : close ≠ backslash := by rcases closing with rfl | rfl <;> decide
  induction size : name.length using Nat.strong_induction_on generalizing name chars prev with
  | _ size ih =>
    cases name with
    | nil =>
      rw [List.nil_append, itemsFrom_plain plain, switchItems, if_pos closing]
      simp
    | cons c name =>
      have more : ∀ d ∈ name, d ≠ 0x29 ∧ d ≠ 0x7d :=
        fun d member => open' d (List.mem_cons_of_mem _ member)
      have stays : ¬(c = 0x29 ∨ c = 0x7d) := not_or.mpr (open' c List.mem_cons_self)
      have one : (switchItems (.name chars) prev c [c]).2 ++
            itemsFrom (switchItems (.name chars) prev c [c]).1 c (name ++ close :: rest) =
          .value (chars ++ c :: name) :: itemsFrom .dollar close rest := by
        rw [switchItems, if_neg stays]
        dsimp only
        rw [List.nil_append, ih name.length (by simp at size; omega) more _ _ rfl]
        simp
      cases name with
      | nil =>
        rw [List.cons_append, List.nil_append, itemsFrom]
        split
        · rw [switchItems, if_pos closing]
          simp
        · exact one
      | cons d name =>
        have stays : ¬(d = 0x29 ∨ d = 0x7d) := not_or.mpr (more d List.mem_cons_self)
        have rest' : ∀ d ∈ name, d ≠ 0x29 ∧ d ≠ 0x7d :=
          fun d member => more d (List.mem_cons_of_mem _ member)
        rw [List.cons_append, List.cons_append, itemsFrom]
        split
        · rw [switchItems, if_neg stays]
          dsimp only
          rw [List.nil_append, ih name.length (by simp at size; omega) rest' _ _ rfl]
          simp
        · exact one

theorem itemsFrom_piece {piece : Piece} (wellFormed : piece.WellFormed) (plain : prev ≠ backslash)
    (rest : List UInt8) :
    ∃ last, last ≠ backslash ∧ itemsFrom .dollar prev (piece.render ++ rest) =
      piece.items ++ itemsFrom .dollar last rest := by
  cases piece with
  | text chars => exact itemsFrom_text wellFormed plain rest
  | value brace name =>
    have opening : (if brace then 0x7b else 0x28 : UInt8) = 0x28 ∨
        (if brace then 0x7b else 0x28 : UInt8) = 0x7b := by cases brace <;> simp
    have closing : (if brace then 0x7d else 0x29 : UInt8) = 0x29 ∨
        (if brace then 0x7d else 0x29 : UInt8) = 0x7d := by cases brace <;> simp
    have unescaped : (if brace then 0x7b else 0x28 : UInt8) ≠ backslash := by
      cases brace <;> decide
    refine ⟨if brace then 0x7d else 0x29, by cases brace <;> decide, ?_⟩
    rw [Piece.render, List.cons_append, List.cons_append, List.append_assoc,
      itemsFrom_plain (by decide), switchItems, if_neg (fun quoted => by cases quoted.1),
      if_pos ⟨rfl, plain⟩, List.nil_append, itemsFrom_plain unescaped, switchItems,
      if_pos opening, List.nil_append, List.singleton_append, itemsFrom_name wellFormed closing]
    rfl

theorem itemsFrom_pieces {pieces : List Piece} (wellFormed : ∀ p ∈ pieces, p.WellFormed)
    (plain : prev ≠ backslash) :
    itemsFrom .dollar prev (pieces.flatMap Piece.render) = pieces.flatMap Piece.items := by
  induction pieces generalizing prev with
  | nil => rfl
  | cons piece pieces ih =>
    obtain ⟨last, plain, read⟩ := itemsFrom_piece (wellFormed piece List.mem_cons_self) plain
      (pieces.flatMap Piece.render)
    rw [List.flatMap_cons, List.flatMap_cons, read,
      ih (fun p member => wellFormed p (List.mem_cons_of_mem _ member)) plain]

theorem textOf_pieces (getenv : CString → Option CString) {pieces : List Piece}
    (wellFormed : ∀ p ∈ pieces, p.WellFormed) :
    textOf getenv (itemsOf (pieces.flatMap Piece.render)) =
      pieces.flatMap (Piece.expand getenv) := by
  rw [itemsOf, itemsFrom_pieces wellFormed (by decide)]
  induction pieces with
  | nil => rfl
  | cons piece pieces ih =>
    rw [List.flatMap_cons, List.flatMap_cons, textOf_append, textOf_items,
      ih fun p member => wellFormed p (List.mem_cons_of_mem _ member)]

/-! ## The output -/

theorem processMacros_eq {cbsize : Nat} (positive : 0 < cbsize) (getenv : CString → Option CString)
    (input : CString) :
    (NamesFit cbsize getenv 0 (itemsOf input) → processMacros cbsize getenv input =
      some ((textOf getenv (itemsOf input)).take (cbsize - 1) ++ [0])) ∧
    (¬NamesFit cbsize getenv 0 (itemsOf input) → processMacros cbsize getenv input = none) := by
  obtain ⟨written, stopped⟩ := @perform_eq cbsize getenv [] (itemsOf input) (Nat.zero_le _)
  rw [processMacros, macroLoop_perform, ← itemsOf]
  refine ⟨fun fit => ?_, fun other => by rw [stopped other]; rfl⟩
  rw [written fit, List.nil_append, Option.map_some]
  congr 1
  rw [List.length_take]
  split
  · rename_i room
    rw [List.take_of_length_le (by omega), List.take_of_length_le (by omega)]
  · rename_i full
    rw [List.dropLast_eq_take, List.take_take, List.length_take,
      show min (min cbsize (textOf getenv (itemsOf input)).length - 1) cbsize = cbsize - 1 by
        omega]

/-- What is asked of `cli_simple_process_macros`. -/
structure Expanded (cbsize : Nat) (getenv : CString → Option CString) (input : CString)
    (text : CString) : Prop where
  fits : text.length + 1 ≤ cbsize
  /-- For text and macros, it is the first of the expanded characters. -/
  expanded : ∀ pieces : List Piece, (∀ p ∈ pieces, p.WellFormed) →
    pieces.flatMap Piece.render = input →
      text = (pieces.flatMap (Piece.expand getenv)).take (cbsize - 1)

/-- The output is the NUL-terminated expansion of the input if and only if each name that is
looked up before the output is full is shorter than the buffer for it. -/
theorem processMacros_expanded {cbsize : Nat} (positive : 0 < cbsize)
    (getenv : CString → Option CString) (input : CString) :
    (∃ text, processMacros cbsize getenv input = some (text ++ [0]) ∧
      Expanded cbsize getenv input text) ↔ NamesFit cbsize getenv 0 (itemsOf input) := by
  obtain ⟨written, stopped⟩ := processMacros_eq positive getenv input
  constructor
  · rintro ⟨text, result, _⟩
    by_contra other
    rw [stopped other] at result
    cases result
  · intro fit
    refine ⟨_, written fit, ?_, ?_⟩
    · rw [List.length_take]
      omega
    · rintro pieces wellFormed rfl
      rw [textOf_pieces getenv wellFormed]

/-- A macro whose name does not fit the buffer for it. -/
def longMacro : List Piece := [.value true (List.replicate 512 0x61)]

/-- It overruns the buffer for its name. -/
theorem longMacro_overruns :
    (∀ p ∈ longMacro, p.WellFormed) ∧ ∀ text,
      processMacros 512 (fun _ => none) (longMacro.flatMap Piece.render) ≠ some (text ++ [0]) := by
  have wellFormed : ∀ p ∈ longMacro, p.WellFormed := by
    intro p member
    obtain rfl := List.mem_singleton.mp member
    intro c member
    obtain rfl := List.eq_of_mem_replicate member
    decide
  refine ⟨wellFormed, fun text result => ?_⟩
  have items : itemsOf (longMacro.flatMap Piece.render) =
      [.value (List.replicate 512 0x61)] := by
    rw [itemsOf, itemsFrom_pieces wellFormed (by decide)]
    rfl
  have overrun : ¬NamesFit 512 (fun _ => none) 0 (itemsOf (longMacro.flatMap Piece.render)) := by
    intro fit
    have short := fit [] _ [] items (by simp [textOf])
    rw [List.length_replicate] at short
    omega
  rw [(processMacros_eq (by decide) _ _).2 overrun] at result
  cases result

/-- The expansion of a macro is cut to the room for it. -/
theorem processMacros_cut :
    0 < 4 ∧ ∃ text, processMacros 4 (fun _ => some [0x62, 0x63, 0x64])
      [0x61, 0x24, 0x7b, 0x78, 0x7d] = some (text ++ [0]) ∧
        Expanded 4 (fun _ => some [0x62, 0x63, 0x64]) [0x61, 0x24, 0x7b, 0x78, 0x7d] text := by
  refine ⟨by decide, (processMacros_expanded (by decide) _ _).mpr ?_⟩
  intro front name back split _
  have items : itemsOf [0x61, 0x24, 0x7b, 0x78, 0x7d] = [.char 0x61, .value [0x78]] := by
    simp [itemsOf, itemsFrom, switchItems, backslash, Cli.dollar, Cli.quote]
  have member : Item.value name ∈ [Item.char 0x61, .value [0x78]] := by
    rw [← items, split]
    simp
  obtain rfl : name = [0x78] := by simpa using member
  decide

end HrppBoot.Cli
