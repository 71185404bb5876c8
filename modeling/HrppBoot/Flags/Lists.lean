import HrppBoot.Flags.Attr

/-!
# Entries of an attribute list

A list is entries with commas between them, each a name and possibly attributes behind a colon, with
blanks around both. `env_attr_walk` enumerates the entries with a name. `env_attr_lookup` finds the
last of those with nothing but spaces around their name, and takes its attributes up to the next
space.
-/

namespace HrppBoot.Flags

/-! ## Lists -/

/-- The attributes of an entry, with the blanks around them. -/
structure Attributes where
  lead : CString
  text : CString
  trail : CString
  lead_blank : ∀ c ∈ lead, isspace c = true
  text_plain : ∀ c ∈ text, isspace c = false ∧ c ≠ comma ∧ c ≠ colon
  trail_blank : ∀ c ∈ trail, isspace c = true

/-- A name has no delimiter or separator, and no blanks around it. -/
structure IsName (name : CString) : Prop where
  plain : ∀ c ∈ name, c ≠ comma ∧ c ≠ colon
  head : ∀ c ∈ name.head?, isspace c = false
  last : ∀ c ∈ name.getLast?, isspace c = false

/-- An entry. The name may be missing, as behind a trailing comma. -/
structure Entry where
  lead : CString
  name : CString
  trail : CString
  attributes : Option Attributes
  lead_blank : ∀ c ∈ lead, isspace c = true
  isName : IsName name
  trail_blank : ∀ c ∈ trail, isspace c = true

/-- What is behind the name of an entry. -/
def Entry.behind (entry : Entry) : CString :=
  match entry.attributes with
  | none => []
  | some a => colon :: (a.lead ++ a.text ++ a.trail)

/-- The characters of an entry. -/
def Entry.render (entry : Entry) : CString :=
  entry.lead ++ entry.name ++ entry.trail ++ entry.behind

/-- The characters of a list. -/
def renderList (entries : List Entry) : CString := [comma].intercalate (entries.map Entry.render)

theorem plain_of_isspace {c : UInt8} (blank : isspace c = true) : c ≠ comma ∧ c ≠ colon := by
  constructor <;> rintro rfl <;> revert blank <;> decide

theorem Entry.front_plain (entry : Entry) :
    ∀ c ∈ entry.lead ++ entry.name ++ entry.trail, c ≠ comma ∧ c ≠ colon := by
  intro c member
  rcases List.mem_append.mp member with member | member
  · rcases List.mem_append.mp member with member | member
    · exact plain_of_isspace (entry.lead_blank c member)
    · exact entry.isName.plain c member
  · exact plain_of_isspace (entry.trail_blank c member)

theorem Attributes.no_comma (a : Attributes) : ∀ c ∈ a.lead ++ a.text ++ a.trail, c ≠ comma := by
  intro c member
  rcases List.mem_append.mp member with member | member
  · rcases List.mem_append.mp member with member | member
    · exact (plain_of_isspace (a.lead_blank c member)).1
    · exact (a.text_plain c member).2.1
  · exact (plain_of_isspace (a.trail_blank c member)).1

theorem Entry.behind_no_comma (entry : Entry) : ∀ c ∈ entry.behind, c ≠ comma := by
  intro c member
  rw [Entry.behind] at member
  split at member
  · cases member
  · rename_i a _
    rcases List.mem_cons.mp member with rfl | member
    · decide
    · exact a.no_comma c member

theorem Entry.render_no_comma (entry : Entry) : ∀ c ∈ entry.render, c ≠ comma := by
  intro c member
  rcases List.mem_append.mp member with member | member
  · exact (entry.front_plain c member).1
  · exact entry.behind_no_comma c member

/-! ## Blanks around a text -/

theorem dropWhile_lead {p : UInt8 → Bool} {lead text : CString} (blank : ∀ c ∈ lead, p c = true)
    (stop : ∀ c ∈ text.head?, p c = false) : (lead ++ text).dropWhile p = text := by
  rw [List.dropWhile_append_of_pos blank]
  cases text with
  | nil => rfl
  | cons c text => rw [List.dropWhile_cons_of_neg (by simp [stop c rfl])]

variable {text name front : CString} {entry : Entry}

theorem rdropWhile_trail {p : UInt8 → Bool} {trail : CString} (blank : ∀ c ∈ trail, p c = true)
    (stop : ∀ c ∈ text.getLast?, p c = false) :
    (text ++ trail).rdropWhile p = text := by
  rw [List.rdropWhile, List.reverse_append, dropWhile_lead, List.reverse_reverse]
  · exact fun c member => blank c (List.mem_reverse.mp member)
  · rwa [List.head?_reverse]

theorem strim_text {lead trail : CString} (front : ∀ c ∈ lead, isspace c = true)
    (behind : ∀ c ∈ trail, isspace c = true) (head : ∀ c ∈ text.head?, isspace c = false)
    (last : ∀ c ∈ text.getLast?, isspace c = false) : strim (lead ++ text ++ trail) = text := by
  cases text with
  | nil =>
    have all : ∀ c ∈ lead ++ [] ++ trail, isspace c = true := by
      simpa [or_imp, forall_and] using ⟨front, behind⟩
    rw [strim, List.dropWhile_eq_nil_iff.mpr all]
    rfl
  | cons c text =>
    rw [strim, List.append_assoc, dropWhile_lead front, rdropWhile_trail behind last]
    simpa using head

/-! ## The walk -/

theorem Attributes.strim_eq (a : Attributes) : strim (a.lead ++ a.text ++ a.trail) = a.text :=
  strim_text a.lead_blank a.trail_blank
    (fun c found => (a.text_plain c (List.mem_of_mem_head? found)).1)
    (fun c found => (a.text_plain c (List.mem_of_getLast? found)).1)

theorem cutEntry_render (entry : Entry) :
    cutEntry entry.render = (entry.name, entry.attributes.map Attributes.text) := by
  have front : ∀ c ∈ entry.lead ++ entry.name ++ entry.trail, decide (c ≠ colon) = true :=
    fun c member => decide_eq_true (entry.front_plain c member).2
  have name : strim (entry.lead ++ entry.name ++ entry.trail) = entry.name :=
    strim_text entry.lead_blank entry.trail_blank entry.isName.head entry.isName.last
  rw [cutEntry, Entry.render, List.dropWhile_append_of_pos front,
    List.takeWhile_append_of_pos front]
  cases found : entry.attributes with
  | none => simp [Entry.behind, found, name, -List.append_assoc]
  | some a => simp [Entry.behind, found, name, a.strim_eq, -List.append_assoc]

theorem walkEntries_noted (entries : List Entry) (seen : List (CString × Option CString)) :
    walkEntries (fun name attributes seen => (0, seen ++ [(name, attributes)])) seen
        (entries.map Entry.render) =
      (0, seen ++ (entries.filter fun entry => entry.name ≠ []).map fun entry =>
        (entry.name, entry.attributes.map Attributes.text)) := by
  induction entries generalizing seen with
  | nil => simp [walkEntries]
  | cons entry entries ih =>
    rw [List.map_cons, walkEntries, walkEntry, cutEntry_render]
    by_cases named : entry.name = []
    · simp [named, ih]
    · have nonempty : entry.render ≠ [] := by simp [Entry.render, named]
      simp [named, nonempty, ih]

theorem enumerated_renderList (entries : List Entry) :
    enumerated (renderList entries) = (entries.filter fun entry => entry.name ≠ []).map
      fun entry => (entry.name, entry.attributes.map Attributes.text) := by
  cases entries with
  | nil => rfl
  | cons entry entries =>
    have split : (renderList (entry :: entries)).splitOn comma =
        (entry :: entries).map Entry.render := by
      rw [renderList]
      refine List.splitOn_intercalate comma ?_ (by simp)
      intro text member
      obtain ⟨entry, _, rfl⟩ := List.mem_map.mp member
      exact fun delimiter => entry.render_no_comma comma delimiter rfl
    rw [enumerated, attrWalk, split, walkEntries_noted, List.nil_append]

/-! ## Exact matches -/

/-- What may stand before an exact match: nothing or a delimiter, and spaces. -/
def Opens (front : CString) : Prop :=
  ∃ w lead, front = w ++ lead ∧ (∀ c ∈ lead, c = space) ∧ (w = [] ∨ ∃ w', w = w' ++ [comma])

/-- What may stand behind an exact match: spaces, and then a separator or a delimiter, or
nothing. -/
def Closes (behind : CString) : Prop :=
  ∀ c ∈ (behind.dropWhile (· = space)).head?, c = colon ∨ c = comma

/-- An exact match, by what is before and behind it. -/
theorem matchAt_iff {list : CString} (nonempty : name ≠ []) (pos : Nat) :
    MatchAt list name pos ↔ ∃ front behind, list = front ++ name ++ behind ∧
      front.length = pos ∧ Opens front ∧ Closes behind := by
  constructor
  · intro found
    have place := found.lt nonempty
    obtain ⟨⟨behind, split⟩, exact'⟩ := found
    have size : (list.take pos).length = pos := List.length_take_of_le (Nat.le_of_lt place)
    have tail : list.drop (pos + name.length) = behind := by
      rw [← List.drop_drop, ← split, List.drop_left]
    rw [exactMatch, tail] at exact'
    obtain ⟨opens, closes⟩ := of_decide_eq_true exact'
    refine ⟨list.take pos, behind, ?_, size, ?_, ?_⟩
    · rw [List.append_assoc, split, List.take_append_drop]
    · refine ⟨(list.take pos).rdropWhile (· = space), (list.take pos).rtakeWhile (· = space),
        List.rdropWhile_append_rtakeWhile.symm, ?_, ?_⟩
      · intro c member
        simpa using List.mem_rtakeWhile_imp member
      · rcases opens with rfl | delimiter | none
        · exact .inl rfl
        · exact .inr (List.getLast?_eq_some_iff.mp delimiter)
        · exact .inl none
    · intro c head
      rw [head] at closes
      simpa using closes
  · rintro ⟨front, behind, rfl, rfl, ⟨w, lead, rfl, spaces, opens⟩, closes⟩
    refine ⟨?_, ?_⟩
    · rw [List.append_assoc, List.drop_left]
      exact List.prefix_append _ _
    · have before : ((w ++ lead ++ name ++ behind).take (w ++ lead).length).rdropWhile
          (· = space) = w := by
        rw [List.append_assoc (w ++ lead), List.take_left]
        refine rdropWhile_trail (by simpa using spaces) ?_
        rcases opens with rfl | ⟨w, rfl⟩
        · intro c none
          cases none
        · intro c last
          obtain rfl : comma = c := by simpa using last
          rfl
      have tail : (w ++ lead ++ name ++ behind).drop ((w ++ lead).length + name.length) =
          behind := by rw [← List.length_append, List.drop_left]
      rw [exactMatch, before, tail]
      refine decide_eq_true ⟨?_, ?_⟩
      · rcases opens with rfl | ⟨w, rfl⟩
        · exact .inr (.inr rfl)
        · exact .inr (.inl (by simp))
      · cases head : (behind.dropWhile (· = space)).head? with
        | none => exact .inr (.inr rfl)
        | some c =>
          rcases closes c head with rfl | rfl
          · exact .inl rfl
          · exact .inr (.inl rfl)

theorem Opens.tail {item : CString} (opens : Opens (item ++ comma :: front)) :
    Opens front := by
  obtain ⟨w, lead, split, spaces, ends⟩ := opens
  rcases List.append_eq_append_iff.mp split with ⟨a, rfl, rest⟩ | ⟨a, rfl, rfl⟩
  · cases a with
    | nil =>
      have delimiter := spaces comma (by rw [← List.nil_append lead, ← rest]; simp)
      cases delimiter
    | cons d a =>
      obtain ⟨rfl, rfl⟩ := List.cons.inj rest
      refine ⟨a, lead, rfl, spaces, ?_⟩
      rcases List.eq_nil_or_concat a with rfl | ⟨a', last, rfl⟩
      · exact .inl rfl
      · rcases ends with none | ⟨w', ends⟩
        · simp at none
        · rw [List.concat_eq_append, ← List.cons_append, ← List.append_assoc] at ends
          obtain ⟨_, last⟩ := List.append_inj' ends rfl
          exact .inr ⟨a', by rw [List.concat_eq_append, last]⟩
  · have delimiter := spaces comma (by simp)
    cases delimiter

theorem Opens.spaces (opens : Opens front) (plain : comma ∉ front) :
    ∀ c ∈ front, c = space := by
  obtain ⟨w, lead, rfl, spaces, rfl | ⟨w', rfl⟩⟩ := opens
  · exact spaces
  · exact absurd (by simp) plain

theorem comma_cons_intercalate (item : CString) (items : List CString) :
    comma :: [comma].intercalate (item :: items) = (item :: items).flatMap (comma :: ·) := by
  induction items generalizing item with
  | nil => simp
  | cons next items ih =>
    rw [List.intercalate_cons_cons, List.flatMap_cons, ← ih]
    simp

/-- Where a name is found in items, it is in one of them, behind spaces. -/
theorem occurrence_items {items : List CString} (plain : ∀ item ∈ items, comma ∉ item)
    {behind : CString} (nonempty : name ≠ []) (isPlain : comma ∉ name) (opens : Opens front)
    (whole : [comma].intercalate items = front ++ name ++ behind) :
    ∃ before item after lead rest, items = before ++ item :: after ∧
      front = before.flatMap (· ++ [comma]) ++ lead ∧ (∀ c ∈ lead, c = space) ∧
      item = lead ++ name ++ rest ∧ behind = rest ++ after.flatMap (comma :: ·) := by
  induction items generalizing front with
  | nil => exact absurd (by simpa using whole) (by simp [nonempty])
  | cons item items ih =>
    have first := plain item List.mem_cons_self
    cases items with
    | nil =>
      rw [List.intercalate_singleton] at whole
      have none : comma ∉ front := fun member => first (by simp [whole, member])
      exact ⟨[], item, [], front, behind, rfl, rfl, opens.spaces none, whole, by simp⟩
    | cons next items =>
      rw [List.intercalate_cons_cons, List.append_assoc, List.append_assoc,
        List.singleton_append] at whole
      rcases List.append_eq_append_iff.mp whole with ⟨a, rfl, split⟩ | ⟨a, inside, split⟩
      · cases a with
        | nil =>
          obtain ⟨c, name, rfl⟩ := List.exists_cons_of_ne_nil nonempty
          exact absurd (List.cons.inj split).1 fun same => isPlain (by simp [same])
        | cons d a =>
          obtain ⟨rfl, later⟩ := List.cons.inj split
          obtain ⟨before, found, after, lead, rest, rfl', rfl, spaces, found', behind'⟩ :=
            ih (fun item member => plain item (List.mem_cons_of_mem _ member)) opens.tail
              (by rw [List.append_assoc]; exact later)
          exact ⟨item :: before, found, after, lead, rest, by rw [rfl']; rfl, by simp, spaces,
            found', behind'⟩
      · have none : comma ∉ front := fun member => first (by simp [inside, member])
        have found : ∃ rest, a = name ++ rest ∧
            behind = rest ++ comma :: [comma].intercalate (next :: items) := by
          rcases List.append_eq_append_iff.mp split with ⟨rest, rfl, behind'⟩ | ⟨b, rfl, rest⟩
          · exact ⟨rest, rfl, behind'⟩
          · cases b with
            | nil => exact ⟨[], by simp, rest.symm⟩
            | cons d b =>
              obtain ⟨rfl, _⟩ := List.cons.inj rest
              exact absurd (by simp) isPlain
        obtain ⟨rest, rfl, rfl⟩ := found
        refine ⟨[], item, next :: items, front, rest, rfl, rfl, opens.spaces none, ?_, ?_⟩
        · rw [inside, List.append_assoc]
        · rw [comma_cons_intercalate]

/-! ## Entries that are found -/

/-- An entry of a name with nothing but spaces around it. -/
def Visible (name : CString) (entry : Entry) : Prop :=
  entry.name = name ∧ (∀ c ∈ entry.lead, c = space) ∧ ∀ c ∈ entry.trail, c = space

/-- It is decided from the entry. -/
instance (name : CString) (entry : Entry) : Decidable (Visible name entry) :=
  @instDecidableAnd _ _ _ (@instDecidableAnd _ _ (List.decidableBAll _ _) (List.decidableBAll _ _))

theorem cut_at_colon {behind : CString} (plain : ∀ c ∈ front, c ≠ colon)
    (stop : ∀ c ∈ behind.head?, c = colon) :
    (front ++ behind).takeWhile (· ≠ colon) = front ∧
      (front ++ behind).dropWhile (· ≠ colon) = behind := by
  have all : ∀ c ∈ front, decide (c ≠ colon) = true :=
    fun c member => decide_eq_true (plain c member)
  rw [List.takeWhile_append_of_pos all, List.dropWhile_append_of_pos all]
  cases behind with
  | nil => simp
  | cons c behind => simp [stop c rfl]

theorem Entry.behind_head (entry : Entry) : ∀ c ∈ entry.behind.head?, c = colon := by
  intro c head
  rw [Entry.behind] at head
  split at head
  · cases head
  · exact (Option.some.inj head).symm

/-- A name that is found in an entry is its name. -/
theorem visible_of_occurrence {lead rest : CString} (nonempty : name ≠ []) (isName : IsName name)
    (spaces : ∀ c ∈ lead, c = space) (whole : entry.render = lead ++ name ++ rest)
    (closes : Closes rest) :
    Visible name entry ∧ lead = entry.lead := by
  have blank : ∀ {text : CString}, (∀ c ∈ text, c = space) → ∀ c ∈ text, isspace c = true := by
    intro text spaces c member
    rw [spaces c member]
    rfl
  -- Spaces, and then a separator or nothing.
  have trail : ∀ c ∈ rest.takeWhile (· = space), c = space := by
    intro c member
    simpa using List.all_eq_true.mp List.all_takeWhile c member
  have stop : ∀ c ∈ (rest.dropWhile (· = space)).head?, c = colon := by
    intro c head
    have member : c ∈ rest := (List.dropWhile_sublist _).subset (List.mem_of_mem_head? head)
    have plain := entry.render_no_comma c (by rw [whole]; exact List.mem_append_right _ member)
    exact (closes c head).resolve_right plain
  have front : ∀ c ∈ lead ++ name ++ rest.takeWhile (· = space), c ≠ colon := by
    intro c member
    rcases List.mem_append.mp member with member | member
    · rcases List.mem_append.mp member with member | member
      · exact (plain_of_isspace (blank spaces c member)).2
      · exact (isName.plain c member).2
    · exact (plain_of_isspace (blank trail c member)).2
  have whole' : entry.lead ++ entry.name ++ entry.trail ++ entry.behind =
      lead ++ name ++ rest.takeWhile (· = space) ++ rest.dropWhile (· = space) := by
    rw [List.append_assoc _ _ (rest.dropWhile _), List.takeWhile_append_dropWhile, ← whole,
      Entry.render]
  have same : entry.lead ++ entry.name ++ entry.trail =
      lead ++ name ++ rest.takeWhile (· = space) := by
    rw [← (cut_at_colon (fun c member => (entry.front_plain c member).2) entry.behind_head).1,
      whole', (cut_at_colon front stop).1]
  -- Without the blanks, both are the name.
  have equal : entry.name = name := by
    rw [← strim_text entry.lead_blank entry.trail_blank entry.isName.head entry.isName.last, same,
      strim_text (blank spaces) (blank trail) isName.head isName.last]
  have head : ∀ {text : CString}, ∀ c ∈ (name ++ text).head?, isspace c = false := by
    intro text c found
    obtain ⟨d, name, rfl⟩ := List.exists_cons_of_ne_nil nonempty
    exact isName.head c found
  have behind : entry.name ++ entry.trail = name ++ rest.takeWhile (· = space) := by
    have left := @dropWhile_lead isspace _ (entry.name ++ entry.trail) entry.lead_blank
      (equal ▸ head)
    rw [← List.append_assoc, same, List.append_assoc, dropWhile_lead (blank spaces) head] at left
    exact left.symm
  have leads : entry.lead = lead := by
    rw [List.append_assoc, List.append_assoc, behind] at same
    exact List.append_cancel_right same
  rw [equal] at behind
  refine ⟨⟨equal, leads ▸ spaces, ?_⟩, leads.symm⟩
  rw [List.append_cancel_left behind]
  exact trail

theorem renderList_split (before : List Entry) (entry : Entry) (after : List Entry) :
    renderList (before ++ entry :: after) =
      before.flatMap (fun e => e.render ++ [comma]) ++
        (entry.render ++ after.flatMap fun e => comma :: e.render) := by
  induction before with
  | nil =>
    rw [List.nil_append, List.flatMap_nil, List.nil_append, renderList, List.map_cons]
    cases after with
    | nil => simp
    | cons next after =>
      rw [List.map_cons, List.intercalate_cons_cons, List.append_assoc, List.singleton_append,
        comma_cons_intercalate, ← List.map_cons, List.flatMap_map]
  | cons first before ih =>
    rw [renderList] at ih ⊢
    have more : ∃ text texts, (before ++ entry :: after).map Entry.render = text :: texts := by
      cases before <;> exact ⟨_, _, rfl⟩
    obtain ⟨text, texts, same⟩ := more
    rw [List.cons_append, List.map_cons, same, List.intercalate_cons_cons, ← same, ih,
      List.flatMap_cons]
    simp only [List.append_assoc]

theorem closes_append (rest : CString) (entries : List Entry) :
    Closes (rest ++ entries.flatMap fun e => comma :: e.render) ↔ Closes rest := by
  rw [Closes, Closes, List.dropWhile_append]
  cases tail : rest.dropWhile (· = space) with
  | nil =>
    refine iff_of_true (fun c head => ?_) fun c none => by cases none
    cases entries with
    | nil => cases head
    | cons entry entries => exact .inr (Option.some.inj head).symm
  | cons d tail => exact Iff.rfl

/-- A name is matched exactly where an entry shows it. -/
theorem matchAt_renderList (nonempty : name ≠ []) (isName : IsName name) (entries : List Entry)
    (pos : Nat) :
    MatchAt (renderList entries) name pos ↔ ∃ before entry after,
      entries = before ++ entry :: after ∧ Visible name entry ∧
        pos = (before.flatMap fun e => e.render ++ [comma]).length + entry.lead.length := by
  rw [matchAt_iff nonempty]
  constructor
  · rintro ⟨front, behind, whole, rfl, opens, closes⟩
    have plain : ∀ item ∈ entries.map Entry.render, comma ∉ item := by
      intro item member
      obtain ⟨entry, _, rfl⟩ := List.mem_map.mp member
      exact fun delimiter => entry.render_no_comma comma delimiter rfl
    have isPlain : comma ∉ name := fun member => (isName.plain comma member).1 rfl
    obtain ⟨before, item, after, lead, rest, items, rfl, spaces, found, rfl⟩ :=
      occurrence_items plain nonempty isPlain opens whole
    obtain ⟨before, more, rfl, rfl, behind⟩ := List.map_eq_append_iff.mp items
    obtain ⟨entry, after, rfl, rfl, rfl⟩ := List.map_eq_cons_iff.mp behind
    rw [List.flatMap_map, closes_append] at closes
    obtain ⟨visible, rfl⟩ := visible_of_occurrence nonempty isName spaces found closes
    exact ⟨before, entry, after, rfl, visible, by rw [List.length_append, List.flatMap_map]⟩
  · rintro ⟨before, entry, after, rfl, ⟨rfl, lead, trail⟩, rfl⟩
    refine ⟨_, entry.trail ++ entry.behind ++ after.flatMap fun e => comma :: e.render, ?_,
      List.length_append, ⟨_, entry.lead, rfl, lead, ?_⟩, ?_⟩
    · rw [renderList_split, Entry.render]
      simp only [List.append_assoc]
    · rcases List.eq_nil_or_concat before with rfl | ⟨before, last, rfl⟩
      · exact .inl rfl
      · refine .inr ⟨before.flatMap (fun e => e.render ++ [comma]) ++ last.render, ?_⟩
        simp
    · rw [closes_append, Closes,
        dropWhile_lead (by simpa using trail) fun c head => by rw [entry.behind_head c head]; rfl]
      exact fun c head => .inl (entry.behind_head c head)

theorem last_match (nonempty : name ≠ []) (isName : IsName name) {before after : List Entry}
    (none : ∀ e ∈ after, ¬Visible name e) (pos : Nat)
    (later : (before.flatMap fun e => e.render ++ [comma]).length + entry.lead.length < pos) :
    ¬MatchAt (renderList (before ++ entry :: after)) name pos := by
  rw [matchAt_renderList nonempty isName]
  rintro ⟨before', entry', after', split, visible, rfl⟩
  rcases List.append_eq_append_iff.mp split with ⟨more, rfl, rest⟩ | ⟨more, rfl, rest⟩
  · cases more with
    | nil =>
      obtain ⟨rfl, _⟩ := List.cons.inj rest
      simp at later
    | cons e more =>
      obtain ⟨rfl, rfl⟩ := List.cons.inj rest
      exact none entry' (by simp) visible
  · cases more with
    | nil =>
      obtain ⟨rfl, _⟩ := List.cons.inj rest
      simp at later
    | cons e more =>
      obtain ⟨rfl, rfl⟩ := List.cons.inj rest
      rw [List.flatMap_append, List.flatMap_cons, Entry.render] at later
      simp only [List.length_append] at later
      omega

/-- What is taken for the attributes of an entry: what is behind the separator and spaces, up to
the next space. -/
def Entry.word (entry : Entry) : CString :=
  match entry.attributes with
  | none => []
  | some a =>
    ((a.lead ++ a.text ++ a.trail).dropWhile (· = space)).takeWhile (· ≠ space)

theorem takeWhile_entries (plain : ∀ c ∈ text, c ≠ comma) (after : List Entry) :
    (text ++ after.flatMap fun e => comma :: e.render).takeWhile
        (fun c => c ≠ comma ∧ c ≠ space) = text.takeWhile (· ≠ space) := by
  induction text with
  | nil => cases after <;> rfl
  | cons c text ih =>
    have other := plain c List.mem_cons_self
    rw [List.cons_append, List.takeWhile_cons, List.takeWhile_cons,
      ih fun d member => plain d (List.mem_cons_of_mem _ member)]
    simp [other]

/-- The attributes that are copied from behind the name of an entry. -/
theorem attributesAt_entry (trail : ∀ c ∈ entry.trail, c = space) (after : List Entry) :
    attributesAt (entry.trail ++ entry.behind ++ after.flatMap fun e => comma :: e.render) =
      entry.word := by
  have stop : ∀ {c : UInt8} {text : CString}, c ≠ space →
      (entry.trail ++ c :: text).dropWhile (· = space) = c :: text := by
    intro c text other
    exact dropWhile_lead (by simpa using trail) (by simpa using other)
  rw [Entry.word, Entry.behind]
  cases entry.attributes with
  | none =>
    cases after with
    | nil =>
      have all : (entry.trail ++ [] ++ []).dropWhile (· = space) = [] :=
        List.dropWhile_eq_nil_iff.mpr (by simpa using trail)
      rw [attributesAt, List.flatMap_nil, all]
    | cons next after =>
      rw [attributesAt, List.flatMap_cons, List.append_nil, List.cons_append, stop (by decide)]
      rfl
  | some a =>
    have inside : ∀ c ∈ a.lead ++ a.text ++ a.trail, c ≠ comma := a.no_comma
    rw [attributesAt, List.append_assoc, List.cons_append, stop (by decide)]
    dsimp only
    rw [if_neg (by simp)]
    generalize a.lead ++ a.text ++ a.trail = text at inside
    rw [List.dropWhile_append]
    cases tail : text.dropWhile (· = space) with
    | nil => cases after <;> rfl
    | cons d tail' =>
      rw [if_neg (by simp), ← tail]
      refine takeWhile_entries (fun c member => inside c ?_) after
      exact (List.dropWhile_sublist _).subset member

/-- `env_attr_lookup` of a name returns what is taken for the attributes of the last entry that
shows it. -/
theorem attrLookup_visible (nonempty : name ≠ []) (isName : IsName name) (entries : List Entry) :
    attrLookup (some (renderList entries)) name =
      match (entries.filter fun e => Visible name e).getLast? with
      | none => (-enoent, none)
      | some e => (0, some e.word) := by
  cases last : (entries.filter fun e => Visible name e).getLast? with
  | none =>
    refine attrLookup_none nonempty fun pos found => ?_
    obtain ⟨before, entry, after, rfl, visible, _⟩ :=
      (matchAt_renderList nonempty isName entries pos).mp found
    have member : entry ∈ (before ++ entry :: after).filter fun e => Visible name e := by
      simp [visible]
    rw [List.getLast?_eq_none_iff.mp last] at member
    cases member
  | some entry =>
    obtain ⟨front, split⟩ := List.getLast?_eq_some_iff.mp last
    obtain ⟨before, rest, rfl, _, split⟩ := List.filter_eq_append_iff.mp split
    obtain ⟨skipped, after, rfl, _, visible, none⟩ := List.filter_eq_cons_iff.mp split
    have visible : Visible name entry := of_decide_eq_true visible
    have none : ∀ e ∈ after, ¬Visible name e := by
      simpa using List.filter_eq_nil_iff.mp none
    have whole : before ++ (skipped ++ entry :: after) = (before ++ skipped) ++ entry :: after := by
      rw [List.append_assoc]
    rw [whole, attrLookup_last nonempty
      ((matchAt_renderList nonempty isName _ _).mpr ⟨_, entry, after, rfl, visible, rfl⟩)
      (last_match nonempty isName none)]
    have behind : (renderList (before ++ skipped ++ entry :: after)).drop
        (((before ++ skipped).flatMap fun e => e.render ++ [comma]).length + entry.lead.length +
          name.length) =
        entry.trail ++ entry.behind ++ after.flatMap fun e => comma :: e.render := by
      rw [renderList_split, Entry.render, ← visible.1, Nat.add_assoc, ← List.drop_drop,
        List.drop_left]
      simp only [List.append_assoc, ← List.length_append]
      rw [← List.append_assoc entry.lead, List.drop_left]
    rw [behind, attributesAt_entry visible.2.2]

/-! ## Lookup and walk -/

/-- What a lookup in an enumeration returns. -/
def lookupIn (entries : List (CString × Option CString)) (name : CString) : Int × Option CString :=
  match (entries.filter fun e => e.1 = name).getLast? with
  | none => (-enoent, none)
  | some (_, attributes) => (0, some (attributes.getD []))

/-- The lookup of a name agrees with the enumeration: the name is not empty; if it is a name of the
grammar, what is taken for the attributes of the last entry that shows it is the attributes of the
last entry that has it; and otherwise it nowhere stands between delimiters. -/
structure Agrees (entries : List Entry) (name : CString) : Prop where
  nonempty : name ≠ []
  /-- The last entry that shows the name has the attributes of the last that has it. -/
  last : IsName name →
    (entries.filter fun e => Visible name e).getLast?.map Entry.word =
      (entries.filter fun e => e.name = name).getLast?.map fun e =>
        (e.attributes.map Attributes.text).getD []
  other : ¬IsName name → ¬∃ front behind, renderList entries = front ++ name ++ behind ∧
    Opens front ∧ Closes behind

theorem lookupIn_enumerated (entries : List Entry) (nonempty : name ≠ []) :
    lookupIn (enumerated (renderList entries)) name =
      match (entries.filter fun e => e.name = name).getLast? with
      | none => (-enoent, none)
      | some e => (0, some ((e.attributes.map Attributes.text).getD [])) := by
  have named : ((entries.filter fun entry => entry.name ≠ []).map fun entry =>
        (entry.name, entry.attributes.map Attributes.text)).filter (fun e => e.1 = name) =
      (entries.filter fun e => e.name = name).map fun entry =>
        (entry.name, entry.attributes.map Attributes.text) := by
    rw [List.filter_map, List.filter_filter]
    congr 1
    refine List.filter_congr fun e _ => ?_
    by_cases same : e.name = name
    · simp [same, nonempty]
    · simp [same]
  rw [lookupIn, enumerated_renderList, named, List.getLast?_map]
  cases (entries.filter fun e => e.name = name).getLast? <;> rfl

/-- `env_attr_lookup` returns the attributes of the last entry of a name that `env_attr_walk`
enumerates, and `-ENOENT` if there is none, exactly where they agree. -/
theorem attrLookup_enumerated (entries : List Entry) (name : CString) :
    attrLookup (some (renderList entries)) name =
      lookupIn (enumerated (renderList entries)) name ↔ Agrees entries name := by
  by_cases empty : name = []
  · refine iff_of_false (fun same => ?_) fun agrees => agrees.nonempty empty
    have none : lookupIn (enumerated (renderList entries)) [] = (-enoent, none) := by
      rw [lookupIn, enumerated_renderList, List.filter_map, List.filter_filter]
      simp
    rw [empty, none, attrLookup, reverseNameSearch, if_pos rfl] at same
    cases (Prod.mk.inj same).2
  rw [lookupIn_enumerated entries empty]
  by_cases isName : IsName name
  · rw [attrLookup_visible empty isName]
    have last : ∀ visible named : Option Entry,
        ((match visible with
          | none => (-enoent, none)
          | some e => (0, some e.word)) =
        (match named with
          | none => (-enoent, none)
          | some e => (0, some ((e.attributes.map Attributes.text).getD [])) :
            Int × Option CString)) ↔
        visible.map Entry.word =
          named.map fun e => (e.attributes.map Attributes.text).getD [] := by
      intro visible named
      cases visible <;> cases named <;> simp [enoent]
    rw [last]
    constructor
    · exact fun same => ⟨empty, fun _ => same, fun other => absurd isName other⟩
    · exact fun agrees => agrees.last isName
  · have unnamed : (entries.filter fun e => e.name = name) = [] := by
      refine List.filter_eq_nil_iff.mpr fun e _ same => isName ?_
      rw [← of_decide_eq_true same]
      exact e.isName
    rw [unnamed]
    constructor
    · intro same
      refine ⟨empty, fun name => absurd name isName, fun _ => ?_⟩
      rintro ⟨front, behind, whole, opens, closes⟩
      have found := (matchAt_iff empty front.length).mpr
        ⟨front, behind, whole, rfl, opens, closes⟩
      rcases @exists_last_match (renderList entries) name empty with none | ⟨p, found, last⟩
      · exact none _ found
      · rw [attrLookup_last empty found last] at same
        cases (Prod.mk.inj same).2
    · intro agrees
      refine attrLookup_none empty fun pos found => ?_
      obtain ⟨front, behind, whole, _, opens, closes⟩ := (matchAt_iff empty pos).mp found
      exact agrees.other isName ⟨front, behind, whole, opens, closes⟩

/-- An entry with a tab behind its name. -/
def tabEntry : Entry where
  lead := []
  name := [0x66]
  trail := [0x09]
  attributes := some ⟨[], [0x73], [], by simp, by simp [isspace, comma, colon, space], by simp⟩
  lead_blank := by simp
  isName := by constructor <;> simp [isspace, comma, colon, space]
  trail_blank := by simp [isspace]

/-- `env_attr_walk` reports it, and `env_attr_lookup` does not find it. -/
theorem attrLookup_tabEntry :
    enumerated (renderList [tabEntry]) = [([0x66], some [0x73])] ∧
      attrLookup (some (renderList [tabEntry])) [0x66] = (-enoent, none) ∧
      lookupIn (enumerated (renderList [tabEntry])) [0x66] = (0, some [0x73]) := by
  have reported : enumerated (renderList [tabEntry]) = [([0x66], some [0x73])] := by
    rw [enumerated_renderList]
    rfl
  refine ⟨reported, ?_, by rw [reported]; rfl⟩
  exact (attrLookup_visible (by simp [tabEntry]) tabEntry.isName [tabEntry]).trans rfl

end HrppBoot.Flags
