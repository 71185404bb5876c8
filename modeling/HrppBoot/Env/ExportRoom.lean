import HrppBoot.Env.RoundTrip

/-!
# Room for the exported text

Pass 1 of `hexport_r` counts two bytes too many for every entry, and, with the separator NUL, none
of the backslashes that pass 2 puts before backslashes. The text fits exactly if the one makes up
for the other.
-/

namespace HrppBoot.Env

/-- The characters of the values that pass 2 writes with a backslash before them. -/
def escapes (sep : UInt8) (list : List (CString × CString)) : Nat :=
  (list.map fun entry => entry.2.countP fun c => Escaped sep c).sum

/-- The bytes that pass 2 writes, with the final NUL. -/
def writtenLength (sep : UInt8) (list : List (CString × CString)) : Nat :=
  (list.flatMap (encodeEntry sep) ++ [0]).length

theorem writtenLength_nul (list : List (CString × CString)) :
    writtenLength 0 list + 2 * list.length = totlen 0 list + 1 + escapes 0 list := by
  unfold writtenLength
  rw [List.length_append, List.length_singleton]
  induction list with
  | nil => rfl
  | cons entry list ih =>
    have own : (encodeEntry 0 entry).length + 2 =
        entryRoom 0 entry + entry.2.countP fun c => Escaped 0 c := by
      simp only [encodeEntry, entryRoom, List.length_append, List.length_cons, length_escape,
        List.length_nil, ↓reduceIte]
      omega
    simp only [List.flatMap_cons, List.length_append, totlen, escapes, List.map_cons,
      List.sum_cons, List.length_cons] at ih ⊢
    omega

theorem writtenLength_le {sep : UInt8} (counted : sep ≠ 0) (list : List (CString × CString)) :
    writtenLength sep list ≤ totlen sep list + 1 := by
  unfold writtenLength
  rw [List.length_append, List.length_singleton]
  exact Nat.succ_le_succ
    (length_flatMap_encodeEntry fun entry _ => length_encodeEntry_le counted entry)

/-- `hexport_r` stays in the result buffer exactly if the separator is not NUL, the caller's buffer
is refused, or the exported values have no more than two backslashes for every entry and one for
every byte of the caller's buffer that pass 1 does not ask for. -/
theorem hexportR_ne_overrun_iff (htab : HsearchData) (sep : UInt8)
    (selected : CString → CString → Bool) (size : Nat) :
    hexportR htab sep selected size ≠ .overrun ↔
      sep ≠ 0 ∨ (size ≠ 0 ∧ size < totlen sep (exportList htab selected) + 1) ∨
        escapes sep (exportList htab selected) ≤ 2 * (exportList htab selected).length +
          (size - (totlen sep (exportList htab selected) + 1)) := by
  by_cases small : size ≠ 0 ∧ size < totlen sep (exportList htab selected) + 1
  · simp [hexportR, small]
  · have fits : hexportR htab sep selected size ≠ .overrun ↔
        writtenLength sep (exportList htab selected) ≤
          if size ≠ 0 then size else totlen sep (exportList htab selected) + 1 := by
      simp only [hexportR, if_neg small, writtenLength]
      split <;> simp
    rw [fits, or_iff_right small]
    by_cases counted : sep = 0
    · subst counted
      have written := writtenLength_nul (exportList htab selected)
      rw [or_iff_right (by simp)]
      split <;> omega
    · have written := writtenLength_le counted (exportList htab selected)
      refine ⟨fun _ => .inl counted, fun _ => ?_⟩
      split <;> omega

/-- A table whose only value is three backslashes. -/
def threeBackslashes : HsearchData :=
  { size := 5, filled := 1,
    table := fun i => if i = 3 then .live 3 [97] [backslash, backslash, backslash] else .empty }

/-- With the separator NUL its text is one byte longer than the buffer that pass 1 asks for. -/
theorem threeBackslashes_overrun :
    hexportR threeBackslashes 0 (fun _ _ => true) 0 = .overrun := by
  have entries : tableEntries threeBackslashes = [([97], [backslash, backslash, backslash])] := rfl
  have exported : exportList threeBackslashes (fun _ _ => true) =
      [([97], [backslash, backslash, backslash])] := by
    rw [exportList, entries]
    exact List.mergeSort_singleton _
  rw [hexportR, exported]
  decide

end HrppBoot.Env
