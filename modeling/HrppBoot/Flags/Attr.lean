import HrppBoot.Flags.Types
import Mathlib.Data.List.DropRight

/-!
# Attribute lists

`common/env_attr.c` without regular expressions: `env_attr_walk` goes through the entries of a list
and `env_attr_lookup` searches backwards for a name. Allocation succeeds, and there is a buffer for
the attributes. What is read before the first character of a list does not matter, and is left out.
-/

namespace HrppBoot.Flags

/-- `ENV_ATTR_LIST_DELIM` -/
def comma : UInt8 := 0x2c

/-- `ENV_ATTR_SEP` -/
def colon : UInt8 := 0x3a

/-- `' '` -/
def space : UInt8 := 0x20

def isspace (c : UInt8) : Bool := 0x09 ≤ c ∧ c ≤ 0x0d ∨ c = space ∨ c = 0xa0

/-! ## Going through a list -/

def strim (s : CString) : CString := (s.dropWhile isspace).rdropWhile isspace

/-- The name and the attributes of an entry, as `env_attr_walk` cuts it. -/
def cutEntry (entry : CString) : CString × Option CString :=
  match entry.dropWhile (· ≠ colon) with
  | [] => (strim entry, none)
  | _ :: attributes => (strim (entry.takeWhile (· ≠ colon)), some (strim attributes))

section Walk

variable {σ : Type} (callback : CString → Option CString → σ → Int × σ)

/-- The body of the loop of `env_attr_walk`. -/
def walkEntry (entry : CString) (priv : σ) : Int × σ :=
  if entry = [] then (0, priv)
  else
    let (name, attributes) := cutEntry entry
    if name ≠ [] then callback name attributes priv else (0, priv)

/-- The loop of `env_attr_walk` over the entries. -/
def walkEntries (priv : σ) : List CString → Int × σ
  | [] => (0, priv)
  | entry :: entries =>
    let (retval, priv) := walkEntry callback entry priv
    if retval ≠ 0 then (retval, priv) else walkEntries priv entries

/-- `env_attr_walk` -/
def attrWalk (attrList : Option CString) (priv : σ) : Int × σ :=
  match attrList with
  | none => (1, priv)
  | some attrList => walkEntries callback priv (attrList.splitOn comma)

end Walk

/-- What `env_attr_walk` enumerates, by a callback that notes it. -/
def enumerated (attrList : CString) : List (CString × Option CString) :=
  (attrWalk (fun name attributes seen => (0, seen ++ [(name, attributes)])) (some attrList) []).2

/-! ## Searching for a name -/

/-- `strstr`, as an offset. -/
def strstr (s1 s2 : CString) : Option Nat :=
  if s2.isPrefixOf s1 then some 0
  else
    match s1 with
    | [] => none
    | _ :: s1 => (strstr s1 s2).map (· + 1)

/-- An occurrence of a name is an exact match: spaces aside, it is behind a delimiter or at the
start, and before a separator, a delimiter or the end. -/
def exactMatch (searched searchFor : CString) (pos : Nat) : Bool :=
  let before := (searched.take pos).rdropWhile (· = space)
  let behind := (searched.drop (pos + searchFor.length)).dropWhile (· = space)
  (pos = 0 ∨ before.getLast? = some comma ∨ before = []) ∧
    (behind.head? = some colon ∨ behind.head? = some comma ∨ behind.head? = none)

/-- The loop of `reverse_name_search` from an offset on: where the last exact match is. -/
def searchLoop (searched searchFor : CString) (cur : Nat) (result : Option Nat) : Option Nat :=
  if cur ≤ searched.length then
    match _found : strstr (searched.drop cur) searchFor with
    | none => result
    | some pos =>
      searchLoop searched searchFor (cur + pos + 1)
        (if exactMatch searched searchFor (cur + pos) then some (cur + pos) else result)
  else result
termination_by searched.length + 1 - cur

/-- `reverse_name_search`: the size and the offset. -/
def reverseNameSearch (searched searchFor : CString) : Nat × Option Nat :=
  if searchFor = [] then (searched.length, some 0)
  else
    match searchLoop searched searchFor 0 none with
    | none => (0, none)
    | some pos => (searchFor.length, some pos)

/-- The attributes that `env_attr_lookup` copies from behind a name. -/
def attributesAt (entry : CString) : CString :=
  match entry.dropWhile (· = space) with
  | [] => []
  | c :: entry =>
    if c ≠ colon then []
    else (entry.dropWhile (· = space)).takeWhile fun c => c ≠ comma ∧ c ≠ space

def einval : Int := 22

def enoent : Int := 2

/-- `env_attr_lookup`, and the string it leaves in `attributes`. -/
def attrLookup (attrList : Option CString) (name : CString) : Int × Option CString :=
  match attrList with
  | none => (-einval, none)
  | some attrList =>
    match reverseNameSearch attrList name with
    | (_, none) => (-enoent, none)
    | (entryLen, some entry) => (0, some (attributesAt (attrList.drop (entry + entryLen))))

/-! ## The last exact match -/

/-- An exact match of a name at a place of a list. -/
def MatchAt (searched searchFor : CString) (pos : Nat) : Prop :=
  searchFor <+: searched.drop pos ∧ exactMatch searched searchFor pos = true

variable {pos : Nat}

theorem strstr_some {s1 s2 : CString} (found : strstr s1 s2 = some pos) :
    s2 <+: s1.drop pos ∧ ∀ p < pos, ¬s2 <+: s1.drop p := by
  induction s1 generalizing pos with
  | nil =>
    rw [strstr] at found
    split at found
    · rename_i front
      obtain rfl := Option.some.inj found
      exact ⟨List.isPrefixOf_iff_prefix.mp front, fun p below => absurd below (Nat.not_lt_zero p)⟩
    · cases found
  | cons c s1 ih =>
    rw [strstr] at found
    split at found
    · rename_i front
      obtain rfl := Option.some.inj found
      exact ⟨List.isPrefixOf_iff_prefix.mp front, fun p below => absurd below (Nat.not_lt_zero p)⟩
    · rename_i other
      obtain ⟨p, later, rfl⟩ := Option.map_eq_some_iff.mp found
      obtain ⟨occurs, first⟩ := ih later
      refine ⟨occurs, fun q below => ?_⟩
      cases q with
      | zero => exact fun front => other (List.isPrefixOf_iff_prefix.mpr front)
      | succ q => exact first q (Nat.lt_of_succ_lt_succ below)

theorem strstr_none {s1 s2 : CString} (found : strstr s1 s2 = none) (pos : Nat)
    (inside : pos ≤ s1.length) : ¬s2 <+: s1.drop pos := by
  induction s1 generalizing pos with
  | nil =>
    rw [strstr] at found
    split at found
    · cases found
    · rename_i other
      rw [List.drop_nil]
      exact fun front => other (List.isPrefixOf_iff_prefix.mpr front)
  | cons c s1 ih =>
    rw [strstr] at found
    split at found
    · cases found
    · rename_i other
      cases pos with
      | zero => exact fun front => other (List.isPrefixOf_iff_prefix.mpr front)
      | succ pos =>
        exact ih (Option.map_eq_none_iff.mp found) pos (Nat.le_of_succ_le_succ inside)

theorem MatchAt.lt {searched searchFor : CString} (nonempty : searchFor ≠ [])
    (found : MatchAt searched searchFor pos) : pos < searched.length := by
  have size := found.1.length_le
  have positive := List.length_pos_iff.mpr nonempty
  rw [List.length_drop] at size
  omega

/-- The loop finds the last exact match from an offset on, if there is one. -/
theorem searchLoop_spec {searched searchFor : CString} (nonempty : searchFor ≠ []) (cur : Nat)
    (result : Option Nat) :
    ((∀ p, cur ≤ p → ¬MatchAt searched searchFor p) →
      searchLoop searched searchFor cur result = result) ∧
    ∀ p, cur ≤ p → MatchAt searched searchFor p → (∀ q, p < q → ¬MatchAt searched searchFor q) →
      searchLoop searched searchFor cur result = some p := by
  induction size : searched.length + 1 - cur using Nat.strong_induction_on
    generalizing cur result with
  | _ size ih =>
    rw [searchLoop]
    by_cases inside : cur ≤ searched.length
    · rw [if_pos inside]
      split
      · rename_i found
        refine ⟨fun _ => rfl, fun p behind match_ _ => ?_⟩
        have place := MatchAt.lt nonempty match_
        have none := strstr_none found (p - cur) (by rw [List.length_drop]; omega)
        rw [List.drop_drop, Nat.add_sub_cancel' behind] at none
        exact absurd match_.1 none
      · rename_i pos found
        obtain ⟨occurs, first⟩ := strstr_some found
        have early : ∀ p, cur ≤ p → p < cur + pos → ¬MatchAt searched searchFor p := by
          intro p behind before match_
          have none := first (p - cur) (by omega)
          rw [List.drop_drop, Nat.add_sub_cancel' behind] at none
          exact none match_.1
        rw [List.drop_drop] at occurs
        obtain ⟨stays, last⟩ := ih (searched.length + 1 - (cur + pos + 1)) (by omega)
          (cur + pos + 1)
          (if exactMatch searched searchFor (cur + pos) then some (cur + pos) else result) rfl
        refine ⟨fun none => ?_, fun p behind match_ none => ?_⟩
        · rw [stays fun p behind => none p (by omega), if_neg]
          exact fun exact' => none (cur + pos) (by omega) ⟨occurs, exact'⟩
        · rcases Nat.lt_trichotomy p (cur + pos) with before | rfl | later
          · exact absurd match_ (early p behind before)
          · rw [stays fun q behind => none q (by omega), if_pos match_.2]
          · exact last p (by omega) match_ none
    · rw [if_neg inside]
      refine ⟨fun _ => rfl, fun p behind match_ _ => ?_⟩
      have place := MatchAt.lt nonempty match_
      omega

theorem attrLookup_none {attrList name : CString} (nonempty : name ≠ [])
    (none : ∀ p, ¬MatchAt attrList name p) :
    attrLookup (some attrList) name = (-enoent, Option.none) := by
  have search := (searchLoop_spec nonempty 0 Option.none).1 fun p _ => none p
  rw [attrLookup, reverseNameSearch, if_neg nonempty, search]

theorem attrLookup_last {attrList name : CString} (nonempty : name ≠ [])
    (found : MatchAt attrList name pos) (last : ∀ q, pos < q → ¬MatchAt attrList name q) :
    attrLookup (some attrList) name =
      (0, some (attributesAt (attrList.drop (pos + name.length)))) := by
  have search := (searchLoop_spec nonempty 0 none).2 pos (Nat.zero_le _) found last
  rw [attrLookup, reverseNameSearch, if_neg nonempty, search]

theorem exists_last_match {attrList name : CString} (nonempty : name ≠ []) :
    (∀ p, ¬MatchAt attrList name p) ∨
      ∃ p, MatchAt attrList name p ∧ ∀ q, p < q → ¬MatchAt attrList name q := by
  by_cases none : ∀ p, ¬MatchAt attrList name p
  · exact .inl none
  · obtain ⟨p, found⟩ := not_forall_not.mp none
    have bounded : ∀ q, MatchAt attrList name q → q ≤ attrList.length :=
      fun q match_ => Nat.le_of_lt (match_.lt nonempty)
    classical
    refine .inr ⟨_, Nat.findGreatest_spec (bounded p found) found, fun q later match_ => ?_⟩
    exact Nat.findGreatest_is_greatest later (bounded q match_) match_

end HrppBoot.Flags
