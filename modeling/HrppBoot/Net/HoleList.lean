import HrppBoot.Net.Defragment
import Mathlib.Data.List.TakeWhile

/-!
# The hole list

`Tracks` relates the nodes in `pkt_buff` to the list of gaps they stand for, in the order of the
packet. A fragment that does not write over a node changes the list as `gapStep` says, which does
not mention memory. That includes what the code does wrong: a link to the hole at index 0 reads as
no link, so a change at the start of the second hole loses the first one.
-/

namespace HrppBoot.Net

open ByteMemory LinkedChain

/-! ## Gaps -/

/-- A hole: the block it starts at, and the byte behind it. -/
abbrev Gap := Nat × Nat

/-- Gaps in the order of the packet, with room for a node in each. -/
structure GoodGaps (gaps : List Gap) : Prop where
  sorted : gaps.Pairwise fun gap gap' => gap.1 < gap'.1 ∧ gap.2 ≤ 8 * gap'.1
  inside : ∀ gap ∈ gaps, 8 * gap.1 < gap.2 ∧ gap.2 < 65536 ∧ 8 * gap.1 + 8 ≤ ipMaxudp

/-- The nodes of the buffer stand for the gaps. -/
structure Tracks (state : Reassembly) (gaps : List Gap) : Prop extends GoodGaps gaps where
  nonempty : gaps ≠ []
  chain : Chain (holeAt state.pktBuff) 0 gaps 0
  firstHole : state.firstHole = first gaps 0

variable {gaps : List Gap} {a : Nat}

theorem GoodGaps.distinct (good : GoodGaps gaps) : (gaps.map Prod.fst).Nodup := by
  rw [List.Nodup, List.pairwise_map]
  exact good.sorted.imp fun both => Nat.ne_of_lt both.1

theorem GoodGaps.index_lt (good : GoodGaps gaps) {gap : Gap} (member : gap ∈ gaps)
    : gap.1 < 2058 := by
  have bound := (good.inside gap member).2.2
  unfold ipMaxudp ipPktsize configNetMaxdefrag ipHdrSize at bound
  omega

theorem GoodGaps.sublist {part : List Gap} (good : GoodGaps gaps) (among : part.Sublist gaps) :
    GoodGaps part :=
  ⟨good.sorted.sublist among, fun gap member => good.inside gap (among.subset member)⟩

theorem GoodGaps.length_le (good : GoodGaps gaps) : gaps.length ≤ 2058 := by
  have among : (gaps.map Prod.fst).toFinset ⊆ Finset.range 2058 := by
    intro i member
    obtain ⟨gap, here, rfl⟩ := List.mem_map.mp (List.mem_toFinset.mp member)
    exact Finset.mem_range.mpr (good.index_lt here)
  have card := Finset.card_le_card among
  rwa [List.toFinset_card_of_nodup good.distinct, List.length_map, Finset.card_range] at card

/-- The walk finds the first gap that does not end before `start`, and visits gaps only. -/
theorem findHole_chain {buff : Memory} {start fuel prev : Nat} {gaps : List Gap}
    (chain : Chain (holeAt buff) prev gaps 0) (nonempty : gaps ≠ [])
    (positive : ∀ gap ∈ gaps.tail, gap.1 ≠ 0) (enough : gaps.length ≤ fuel) :
    ∃ visited, findHole buff start fuel (first gaps 0) =
        some (visited, (gaps.find? fun gap => start ≤ gap.2).map Prod.fst) ∧
      ∀ i ∈ visited, i ∈ gaps.map Prod.fst := by
  induction gaps generalizing prev fuel with
  | nil => exact absurd rfl nonempty
  | cons gap gaps ih =>
    obtain ⟨own, rest⟩ := chain
    cases fuel with
    | zero => simp at enough
    | succ fuel =>
      rw [first, findHole, own]
      by_cases ends : gap.2 < start
      · have skip : ¬start ≤ gap.2 := by omega
        by_cases final : gaps = []
        · subst final
          refine ⟨[gap.1], ?_, by simp⟩
          simp [ends, first, List.find?, skip]
        · have linked : first gaps 0 ≠ 0 := by
            cases gaps with
            | nil => exact absurd rfl final
            | cons next gaps => exact positive next (by simp)
          obtain ⟨visited, found, among⟩ := ih rest final
            (fun other member => positive other (List.mem_of_mem_tail member))
            (by simpa using enough)
          refine ⟨gap.1 :: visited, ?_, ?_⟩
          · simp only [ends, ↓reduceIte, linked, found, Option.map_some, List.find?_cons, skip,
              decide_false]
          · intro i member
            rcases List.mem_cons.mp member with rfl | later
            · simp
            · exact List.mem_cons_of_mem _ (among i later)
      · refine ⟨[gap.1], ?_, by simp⟩
        have here : start ≤ gap.2 := by omega
        simp [ends, here]

/-! ## Repairs of the list -/

/-- The gaps that the link back from a node leads to: none if it reads as 0. -/
def kept (before : List Gap) : List Gap := if last 0 before = 0 then [] else before

/-- A repair turns a list of gaps into another one. -/
structure Repaired (buff : Memory) (repair : Repair) (old new : List Gap) : Prop where
  chain : Chain (holeAt repair.buff) 0 new 0
  firstHole : repair.firstHole = first new 0
  going : repair.done = false
  frame : ∀ a, (∀ j ∈ (old ++ new).map Prod.fst, ¬InNode j a) → repair.buff a = buff a
  touched : ∀ i ∈ repair.holes, i ∈ (old ++ new).map Prod.fst

section Repair

variable {buff : Memory} {firstHole i e : Nat} {before after : List Gap}
  (good : GoodGaps (before ++ (i, e) :: after))
  (chain : Chain (holeAt buff) 0 (before ++ (i, e) :: after) 0)
  (known : firstHole = first (before ++ (i, e) :: after) 0)

theorem GoodGaps.last_lt {gaps : List Gap} (good : GoodGaps gaps) : last 0 gaps < 65536 := by
  by_cases empty : gaps = []
  · subst empty
    decide
  · obtain ⟨gap, member, same⟩ := List.mem_map.mp (last_mem empty 0)
    have bound := good.index_lt member
    omega

include good

theorem GoodGaps.after_positive {gap : Gap} (member : gap ∈ after) : i < gap.1 := by
  have sorted := good.sorted
  rw [List.pairwise_append, List.pairwise_cons] at sorted
  exact (sorted.2.1.1 gap member).1

theorem GoodGaps.before_lt {gap : Gap} (member : gap ∈ before) : gap.1 < i := by
  have sorted := good.sorted
  rw [List.pairwise_append] at sorted
  exact (sorted.2.2 gap member (i, e) (List.mem_cons_self ..)).1

theorem GoodGaps.first_eq_zero : first after 0 = 0 ↔ after = [] := by
  cases after with
  | nil => simp [first]
  | cons gap after =>
    have positive := good.after_positive (List.mem_cons_self ..)
    simp only [first, reduceCtorEq, iff_false]
    omega

theorem GoodGaps.first_lt : first after 0 < 65536 := by
  cases after with
  | nil => decide
  | cons gap after =>
    have bound := good.index_lt (List.mem_append_right _
      (List.mem_cons_of_mem _ (List.mem_cons_self ..)) :
      gap ∈ before ++ (i, e) :: gap :: after)
    simp only [first]
    omega

theorem GoodGaps.apart : (∀ j ∈ before.map Prod.fst, j ∉ after.map Prod.fst) ∧
    i ∉ before.map Prod.fst ∧ i ∉ after.map Prod.fst := by
  refine ⟨?_, ?_, ?_⟩
  · intro j left right
    obtain ⟨gap, member, rfl⟩ := List.mem_map.mp left
    obtain ⟨gap', member', same⟩ := List.mem_map.mp right
    have low := good.before_lt member
    have high := good.after_positive member'
    omega
  · intro left
    obtain ⟨gap, member, same⟩ := List.mem_map.mp left
    have low := good.before_lt member
    omega
  · intro right
    obtain ⟨gap, member, same⟩ := List.mem_map.mp right
    have high := good.after_positive member
    omega

theorem GoodGaps.sides : GoodGaps before ∧ GoodGaps after :=
  ⟨good.sublist (List.sublist_append_left _ _),
    good.sublist ((List.sublist_cons_self _ _).trans (List.sublist_append_right _ _))⟩

end Repair

theorem setPrevHole_frame (buff : Memory) {i : Nat} (value : Nat) (outside : ¬InNode i a) :
    setPrevHole buff i value a = buff a := by
  apply Memory.storeHalf_outside
  unfold InNode at outside
  omega

theorem setNextHole_frame (buff : Memory) {i : Nat} (value : Nat) (outside : ¬InNode i a) :
    setNextHole buff i value a = buff a := by
  apply Memory.storeHalf_outside
  unfold InNode at outside
  omega

theorem setLastByte_frame (buff : Memory) {i : Nat} (value : Nat) (outside : ¬InNode i a) :
    setLastByte buff i value a = buff a := by
  apply Memory.storeHalf_outside
  unfold InNode at outside
  omega

theorem copyHole_frame (buff : Memory) {newh : Nat} (h : Nat) (outside : ¬InNode newh a) :
    copyHole buff newh h a = buff a := by
  apply Memory.copy_outside
  unfold InNode at outside
  omega

theorem mem_old {i e : Nat} {before after new : List Gap} {j : Nat}
    (member : j = i ∨ j ∈ before.map Prod.fst ∨ j ∈ after.map Prod.fst) :
    j ∈ ((before ++ (i, e) :: after) ++ new).map Prod.fst := by
  simp only [List.map_append, List.map_cons, List.mem_append, List.mem_cons]
  rcases member with own | left | right
  · exact .inl (.inr (.inl own))
  · exact .inl (.inl left)
  · exact .inl (.inr (.inr right))

theorem relinkBehind {buff : Memory} {i newh : Nat} {after : List Gap}
    (zero : first after 0 = 0 ↔ after = []) (distinct : (after.map Prod.fst).Nodup)
    (chain : Chain (holeAt buff) i after 0) (bound : newh < 65536) :
    ∃ relinked, (if first after 0 ≠ 0 then setPrevHole buff (first after 0) newh else buff) =
        relinked ∧ Chain (holeAt relinked) newh after 0 ∧
      (∀ j ∉ after.map Prod.fst, holeAt relinked j = holeAt buff j) ∧
      ∀ a, (∀ j ∈ after.map Prod.fst, ¬InNode j a) → relinked a = buff a := by
  refine ⟨_, rfl, ?_⟩
  by_cases final : after = []
  · rw [if_neg (not_not.mpr (zero.mpr final))]
    subst final
    exact ⟨trivial, fun _ _ => rfl, fun _ _ => rfl⟩
  · have linked : first after 0 ≠ 0 := fun none => final (zero.mp none)
    have there := first_mem final 0
    rw [if_pos linked, holeAt_setPrevHole _ _ _ bound]
    refine ⟨chain.setPrev final distinct newh, ?_, ?_⟩
    · intro j absent
      have different : j ≠ first after 0 := by
        rintro rfl
        exact absent there
      rw [Function.update_of_ne different]
    · intro a outside
      exact setPrevHole_frame _ _ (outside _ there)

section Repair

variable {buff : Memory} {firstHole i e : Nat} {before after : List Gap}
  (good : GoodGaps (before ++ (i, e) :: after))
  (chain : Chain (holeAt buff) 0 (before ++ (i, e) :: after) 0)
  (known : firstHole = first (before ++ (i, e) :: after) 0)
include good chain known

/-- Removing a hole takes its gap away, and those before it if the link to them reads as 0. -/
theorem removeHole_repaired (more : ¬(last 0 before = 0 ∧ after = [])) :
    Repaired buff (removeHole buff firstHole i) (before ++ (i, e) :: after)
      (kept before ++ after) := by
  obtain ⟨goodBefore, goodAfter⟩ := good.sides
  obtain ⟨apart, -, notAfter⟩ := good.apart
  obtain ⟨left, own, right⟩ := (chain_append _ _ _ _ _).mp chain
  have nextZero := good.first_eq_zero
  have nextBound := good.first_lt
  have prevBound := goodBefore.last_lt
  unfold removeHole kept
  simp only [own]
  by_cases none : last 0 before = 0
  · have behind : after ≠ [] := fun empty => more ⟨none, empty⟩
    have linked : first after 0 ≠ 0 := fun zero => behind (nextZero.mp zero)
    have there := first_mem behind 0
    simp only [none, linked, and_false, ↓reduceIte, List.nil_append]
    refine ⟨?_, rfl, rfl, ?_, ?_⟩
    · rw [holeAt_setPrevHole _ _ _ (by decide)]
      exact right.setPrev behind goodAfter.distinct 0
    · intro a outside
      exact setPrevHole_frame _ _ (outside _ (mem_old (.inr (.inr there))))
    · simp only [List.mem_cons, List.not_mem_nil, or_false]
      rintro j (rfl | rfl)
      · exact mem_old (.inl rfl)
      · exact mem_old (.inr (.inr there))
  · have ahead : before ≠ [] := by
      rintro rfl
      exact none rfl
    have there := last_mem ahead 0
    have firstSame (rest : List Gap) : firstHole = first (before ++ rest) 0 := by
      rw [known, first_append, first_append]
      cases before with
      | nil => exact absurd rfl ahead
      | cons gap before => rfl
    simp only [none, false_and, ↓reduceIte]
    by_cases final : after = []
    · simp only [nextZero.mpr final, ↓reduceIte]
      subst final
      refine ⟨?_, firstSame [], rfl, ?_, ?_⟩
      · rw [holeAt_setNextHole _ _ _ (by decide), List.append_nil]
        exact left.setNext ahead goodBefore.distinct 0
      · intro a outside
        exact setNextHole_frame _ _ (outside _ (mem_old (.inr (.inl there))))
      · simp only [List.mem_cons, List.not_mem_nil, or_false]
        rintro j (rfl | rfl)
        · exact mem_old (.inl rfl)
        · exact mem_old (.inr (.inl there))
    · have linked : first after 0 ≠ 0 := fun zero => final (nextZero.mp zero)
      have thereNext := first_mem final 0
      have otherNext : i ≠ first after 0 := fun same => notAfter (same ▸ thereNext)
      have still : holeAt (setPrevHole buff (first after 0) (last 0 before)) i =
          ⟨e, first after 0, last 0 before⟩ := by
        rw [holeAt_setPrevHole _ _ _ prevBound, Function.update_of_ne otherNext, own]
      simp only [linked, ↓reduceIte, still]
      refine ⟨?_, firstSame after, rfl, ?_, ?_⟩
      · rw [holeAt_setNextHole _ _ _ nextBound, holeAt_setPrevHole _ _ _ prevBound, chain_append]
        constructor
        · have kept : Chain (Function.update (holeAt buff) (first after 0)
              { holeAt buff (first after 0) with prev := last 0 before }) 0 before i := by
            apply left.congr
            intro j member
            have different : j ≠ first after 0 := by
              rintro rfl
              exact apart _ member thereNext
            rw [Function.update_of_ne different]
          exact kept.setNext ahead goodBefore.distinct _
        · apply (right.setPrev final goodAfter.distinct (last 0 before)).congr
          intro j member
          have different : j ≠ last 0 before := by
            rintro rfl
            exact apart _ there member
          rw [Function.update_of_ne different]
      · intro a outside
        exact (setNextHole_frame _ _ (outside _ (mem_old (.inr (.inl there))))).trans
          (setPrevHole_frame _ _ (outside _ (mem_old (.inr (.inr thereNext)))))
      · simp only [List.mem_cons, List.not_mem_nil, or_false]
        rintro j (rfl | rfl | rfl)
        · exact mem_old (.inl rfl)
        · exact mem_old (.inr (.inr thereNext))
        · exact mem_old (.inr (.inl there))

theorem shortenHole_repaired {stop : Nat} (bound : stop < 65536) :
    Repaired buff ⟨setLastByte buff i stop, firstHole, false, [i]⟩ (before ++ (i, e) :: after)
      (before ++ (i, stop) :: after) := by
  obtain ⟨-, notBefore, notAfter⟩ := good.apart
  obtain ⟨left, own, right⟩ := (chain_append _ _ _ _ _).mp chain
  have other {j : Nat} (different : j ≠ i) :
      Function.update (holeAt buff) i { holeAt buff i with value := stop } j = holeAt buff j :=
    Function.update_of_ne different _ _
  refine ⟨?_, ?_, rfl, ?_, ?_⟩
  · rw [holeAt_setLastByte _ _ _ bound, chain_append]
    refine ⟨left.congr ?_, ?_, right.congr ?_⟩
    · intro j member
      exact other fun same => notBefore (same ▸ member)
    · rw [Function.update_self, own]
    · intro j member
      exact other fun same => notAfter (same ▸ member)
  · rw [known, first_append, first_append]
    rfl
  · intro a outside
    exact setLastByte_frame _ _ (outside _ (mem_old (.inl rfl)))
  · intro j member
    exact mem_old (.inl (List.mem_singleton.mp member))

section NewNode

variable {newh : Nat} (bound : newh < 65536) (notBefore : newh ∉ before.map Prod.fst)
  (notAfter : newh ∉ after.map Prod.fst)
include bound notBefore notAfter

/-- Moving a hole moves the start of its gap, and loses the gaps before it if the link to them reads
as 0. -/
theorem moveHole_repaired :
    Repaired buff (moveHole buff firstHole i newh) (before ++ (i, e) :: after)
      (kept before ++ (newh, e) :: after) := by
  obtain ⟨goodBefore, goodAfter⟩ := good.sides
  obtain ⟨apart, -, -⟩ := good.apart
  obtain ⟨left, own, right⟩ := (chain_append _ _ _ _ _).mp chain
  have copied : holeAt (copyHole buff newh i) newh = ⟨e, first after 0, last 0 before⟩ := by
    rw [holeAt_copyHole, Function.update_self, own]
  have others {j : Nat} (different : j ≠ newh) :
      holeAt (copyHole buff newh i) j = holeAt buff j := by
    rw [holeAt_copyHole, Function.update_of_ne different]
  have right' : Chain (holeAt (copyHole buff newh i)) i after 0 := by
    apply right.congr
    intro j member
    exact others fun same => notAfter (same ▸ member)
  obtain ⟨relinked, relinks, behind, kept', frame⟩ :=
    relinkBehind good.first_eq_zero goodAfter.distinct right' bound
  have placed : holeAt relinked newh = ⟨e, first after 0, last 0 before⟩ :=
    (kept' newh notAfter).trans copied
  have newMember (list : List Gap) : newh ∈
      ((before ++ (i, e) :: after) ++ (list ++ (newh, e) :: after)).map Prod.fst := by
    simp
  have outsideNew {list : List Gap} {a : Nat} (outside : ∀ j ∈
      ((before ++ (i, e) :: after) ++ (list ++ (newh, e) :: after)).map Prod.fst, ¬InNode j a) :
      relinked a = buff a :=
    (frame a fun j member => outside j (mem_old (.inr (.inr member)))).trans
      (copyHole_frame _ _ (outside _ (newMember list)))
  have touched (list : List Gap) : ∀ j ∈ i :: newh :: (if first after 0 ≠ 0 then [first after 0]
      else []), j ∈ ((before ++ (i, e) :: after) ++ (list ++ (newh, e) :: after)).map Prod.fst := by
    intro j member
    rcases List.mem_cons.mp member with rfl | later
    · exact mem_old (.inl rfl)
    rcases List.mem_cons.mp later with rfl | last
    · exact newMember list
    by_cases linked : first after 0 = 0
    · simp [linked] at last
    · rw [if_pos linked, List.mem_singleton] at last
      have final : after ≠ [] := fun empty => linked (good.first_eq_zero.mpr empty)
      exact mem_old (.inr (.inr (last ▸ first_mem final 0)))
  unfold moveHole kept
  simp only [copied, relinks, placed]
  by_cases none : last 0 before = 0
  · simp only [none, ne_eq, not_true_eq_false, ↓reduceIte, List.nil_append]
    refine ⟨⟨placed.trans (by rw [none]), behind⟩, rfl, rfl, ?_, touched []⟩
    intro a outside
    exact @outsideNew [] a outside
  · have ahead : before ≠ [] := by
      rintro rfl
      exact none rfl
    have there := last_mem ahead 0
    have notNew : newh ≠ last 0 before := by
      intro same
      exact notBefore (same ▸ there)
    simp only [none, ne_eq, not_false_eq_true, ↓reduceIte]
    refine ⟨?_, ?_, rfl, ?_, ?_⟩
    · have linked : Chain (holeAt relinked) 0 before i := by
        apply left.congr
        intro j member
        rw [kept' j (apart j member), others fun same => notBefore (same ▸ member)]
      rw [holeAt_setNextHole _ _ _ bound, chain_append]
      refine ⟨linked.setNext ahead goodBefore.distinct newh, ?_, behind.congr ?_⟩
      · rw [Function.update_of_ne notNew, placed]
      · intro j member
        have different : j ≠ last 0 before := by
          rintro rfl
          exact apart _ there member
        rw [Function.update_of_ne different]
    · rw [known, first_append, first_append]
      cases before with
      | nil => exact absurd rfl ahead
      | cons gap before => rfl
    · intro a outside
      exact (setNextHole_frame _ _ (outside _ (mem_old (.inr (.inl there))))).trans
        (outsideNew outside)
    · intro j member
      rcases List.mem_append.mp member with early | late
      · exact touched before j early
      · rw [List.mem_singleton.mp late]
        exact mem_old (.inr (.inl there))

/-- Splitting a hole splits its gap. -/
theorem splitHole_repaired {stop : Nat} (stopBound : stop < 65536) (different : newh ≠ i) :
    Repaired buff (splitHole buff firstHole i newh stop) (before ++ (i, e) :: after)
      (before ++ (i, stop) :: (newh, e) :: after) := by
  obtain ⟨goodBefore, goodAfter⟩ := good.sides
  obtain ⟨apart, notBeforeOwn, notAfterOwn⟩ := good.apart
  obtain ⟨left, own, right⟩ := (chain_append _ _ _ _ _).mp chain
  have ownBound : i < 65536 := by
    have bound := good.index_lt (show (i, e) ∈ before ++ (i, e) :: after by simp)
    simp only at bound
    omega
  -- the two nodes before the link back from the node behind is changed
  generalize written : setPrevHole (setNextHole (setLastByte (copyHole buff newh i) i stop) i newh)
    newh i = parted
  have nodes : holeAt parted = Function.update (Function.update (holeAt buff) newh
      ⟨e, first after 0, i⟩) i ⟨stop, newh, last 0 before⟩ := by
    rw [← written, holeAt_setPrevHole _ _ _ ownBound, holeAt_setNextHole _ _ _ bound,
      holeAt_setLastByte _ _ _ stopBound, holeAt_copyHole, own]
    funext j
    by_cases isNew : j = newh
    · subst isNew
      simp [Function.update_of_ne different]
    · by_cases isOwn : j = i
      · subst isOwn
        simp [isNew, own]
      · simp [isNew, isOwn]
  have frameParted {a : Nat} (outsideNew : ¬InNode newh a) (outside : ¬InNode i a) :
      parted a = buff a := by
    rw [← written, setPrevHole_frame _ _ outsideNew, setNextHole_frame _ _ outside,
      setLastByte_frame _ _ outside, copyHole_frame _ _ outsideNew]
  have right' : Chain (holeAt parted) i after 0 := by
    apply right.congr
    intro j member
    have notNew : j ≠ newh := fun same => notAfter (same ▸ member)
    have notOwn : j ≠ i := fun same => notAfterOwn (same ▸ member)
    rw [nodes, Function.update_of_ne notOwn, Function.update_of_ne notNew]
  obtain ⟨relinked, relinks, behind, kept', frame⟩ :=
    relinkBehind good.first_eq_zero goodAfter.distinct right' bound
  have next : (holeAt parted newh).next = first after 0 := by
    rw [nodes, Function.update_of_ne different, Function.update_self]
  have repaired : (splitHole buff firstHole i newh stop).buff = relinked ∧
      (splitHole buff firstHole i newh stop).firstHole = firstHole ∧
      (splitHole buff firstHole i newh stop).done = false ∧
      ∀ j ∈ (splitHole buff firstHole i newh stop).holes,
        j = i ∨ j = newh ∨ j ∈ after.map Prod.fst := by
    simp only [splitHole, written, next]
    by_cases linked : first after 0 = 0
    · simp only [linked, ne_eq, not_true_eq_false, ↓reduceIte] at relinks ⊢
      exact ⟨relinks, trivial, trivial, by simp⟩
    · have final : after ≠ [] := fun empty => linked (good.first_eq_zero.mpr empty)
      have there := first_mem final 0
      simp only [linked, ne_eq, not_false_eq_true, ↓reduceIte] at relinks ⊢
      refine ⟨relinks, trivial, trivial, ?_⟩
      simp only [List.mem_cons, List.not_mem_nil, or_false]
      rintro j (rfl | rfl | rfl)
      · exact .inl rfl
      · exact .inr (.inl rfl)
      · exact .inr (.inr there)
  obtain ⟨sameBuff, sameFirst, notDone, touched⟩ := repaired
  have newMember : newh ∈ ((before ++ (i, e) :: after) ++
      (before ++ (i, stop) :: (newh, e) :: after)).map Prod.fst := by
    simp
  refine ⟨?_, ?_, notDone, ?_, ?_⟩
  · rw [sameBuff, chain_append]
    refine ⟨left.congr ?_, ?_, ?_, behind⟩
    · intro j member
      have notNew : j ≠ newh := fun same => notBefore (same ▸ member)
      have notOwn : j ≠ i := fun same => notBeforeOwn (same ▸ member)
      rw [kept' j (apart j member), nodes, Function.update_of_ne notOwn,
        Function.update_of_ne notNew]
    · rw [kept' i notAfterOwn, nodes, Function.update_self]
      rfl
    · rw [kept' newh notAfter, nodes, Function.update_of_ne different, Function.update_self]
  · rw [sameFirst, known, first_append, first_append]
    rfl
  · intro a outside
    rw [sameBuff, frame a fun j member => outside j (mem_old (.inr (.inr member)))]
    exact frameParted (outside _ newMember) (outside _ (mem_old (.inl rfl)))
  · intro j member
    rcases touched j member with own | new | later
    · exact mem_old (.inl own)
    · exact new ▸ newMember
    · exact mem_old (.inr (.inr later))

end NewNode

end Repair

/-! ## What a fragment does to the gaps -/

/-- What becomes of the list. -/
inductive GapStep where
  | same
  | done
  | changed (gaps : List Gap)
  deriving DecidableEq, Repr

/-- The list after a fragment of `len` bytes at block `o` has hit a gap. -/
def gapChange (before : List Gap) (gap : Gap) (after : List Gap) (o len : Nat) (more : Bool) :
    GapStep :=
  let stop := if more then gap.2 else 8 * o + len
  if o ≤ gap.1 ∧ stop ≤ 8 * o + len then
    if last 0 before = 0 ∧ after = [] then .done else .changed (kept before ++ after)
  else if stop ≤ 8 * o + len then .changed (before ++ (gap.1, 8 * o) :: after)
  else if o ≤ gap.1 then .changed (kept before ++ (o + len / 8, stop) :: after)
  else .changed (before ++ (gap.1, 8 * o) :: (o + len / 8, stop) :: after)

theorem gapChange_ne_same (before : List Gap) (gap : Gap) (after : List Gap) (o len : Nat)
    (more : Bool) : gapChange before gap after o len more ≠ .same := by
  obtain ⟨stop, stopIs⟩ : ∃ stop, (if more then gap.2 else 8 * o + len) = stop := ⟨_, rfl⟩
  simp only [gapChange, stopIs]
  split
  · split <;> simp
  · split
    · simp
    · split <;> simp

/-- The list after a fragment. -/
def gapStep (gaps : List Gap) (o len : Nat) (more : Bool) : GapStep :=
  match gaps.dropWhile fun gap => gap.2 < 8 * o with
  | [] => .same
  | gap :: after =>
    if o + (len + 7) / 8 ≤ gap.1 then .same
    else gapChange (gaps.takeWhile fun gap => gap.2 < 8 * o) gap after o len more

/-- The fragment hits the gap `gap`. -/
structure Hits (before : List Gap) (gap : Gap) (o len : Nat) : Prop where
  before : ∀ earlier ∈ before, earlier.2 < 8 * o
  here : 8 * o ≤ gap.2
  overlaps : gap.1 < o + (len + 7) / 8

/-- A fragment that hits a gap writes over no node: it does not reach the next gap, and what it
leaves of the gap behind it starts with a block of its own. -/
structure Harmless (gap : Gap) (after : List Gap) (o len : Nat) (more : Bool) : Prop where
  apart : ∀ later ∈ after, 8 * o + len ≤ 8 * later.1
  rest : more = true → 8 * o + len < gap.2 → len % 8 = 0 ∧ 8 * o + len + 8 ≤ ipMaxudp

section Change

variable {before after : List Gap} {gap : Gap} {o len : Nat} {more : Bool}
  (good : GoodGaps (before ++ gap :: after)) (hits : Hits before gap o len)
  (harmless : Harmless gap after o len more)

theorem kept_sublist (before : List Gap) : (kept before).Sublist before := by
  unfold kept
  split
  · exact List.nil_sublist before
  · exact List.Sublist.refl before

include good hits

theorem Hits.before_lt {other : Gap} (member : other ∈ before) : other.1 < o := by
  have ends := hits.before other member
  have inside := (good.inside other (List.mem_append_left _ member)).1
  omega

/-- Gaps that take the place of the one that was hit. -/
theorem GoodGaps.replace {front middle : List Gap} (some : front.Sublist before)
    (goodMiddle : GoodGaps middle) (place : ∀ other ∈ middle, other.1 = gap.1 ∨ o ≤ other.1)
    (within : ∀ other ∈ middle, 8 * other.1 < gap.2 ∧ other.2 ≤ gap.2) :
    GoodGaps (front ++ (middle ++ after)) := by
  have sorted := good.sorted
  rw [List.pairwise_append, List.pairwise_cons] at sorted
  obtain ⟨sortedBefore, ⟨behind, sortedAfter⟩, across⟩ := sorted
  constructor
  · rw [List.pairwise_append, List.pairwise_append]
    refine ⟨sortedBefore.sublist some, ⟨goodMiddle.sorted, sortedAfter, ?_⟩, ?_⟩
    · intro other member later isLater
      have inside := within other member
      have next := behind later isLater
      omega
    · intro earlier isEarlier other member
      have isBefore := some.subset isEarlier
      rcases List.mem_append.mp member with new | old
      · have ends := hits.before earlier isBefore
        have low := hits.before_lt good isBefore
        have atGap := across earlier isBefore gap (List.mem_cons_self ..)
        rcases place other new with same | beyond
        · rw [same]
          exact atGap
        · omega
      · exact across earlier isBefore other (List.mem_cons_of_mem _ old)
  · intro other member
    rcases List.mem_append.mp member with early | late
    · exact good.inside other (List.mem_append_left _ (some.subset early))
    · rcases List.mem_append.mp late with new | old
      · exact goodMiddle.inside other new
      · exact good.inside other (List.mem_append_right _ (List.mem_cons_of_mem _ old))

include harmless

/-- The new gaps are some of those before, at most two in the place of the one that was hit, and
those behind. -/
theorem gapChange_cases {new : List Gap}
    (changed : gapChange before gap after o len more = .changed new) :
    ∃ front middle, new = front ++ (middle ++ after) ∧ front.Sublist before ∧ GoodGaps middle ∧
      (∀ other ∈ middle, other.1 = gap.1 ∧ gap.1 < o ∨ 8 * other.1 = 8 * o + len) ∧
      (∀ other ∈ middle, 8 * other.1 < gap.2 ∧ other.2 ≤ gap.2) ∧ new ≠ [] := by
  obtain ⟨i, e⟩ := gap
  have own := good.inside (i, e) (by simp)
  have room : ipMaxudp < 65536 := by decide
  have here := hits.here
  simp only at own here
  obtain ⟨stop, stopIs⟩ : ∃ stop, (if more then e else 8 * o + len) = stop := ⟨_, rfl⟩
  simp only [gapChange, stopIs] at changed
  have single {gap : Gap} (inside : 8 * gap.1 < gap.2 ∧ gap.2 < 65536 ∧ 8 * gap.1 + 8 ≤ ipMaxudp) :
      GoodGaps [gap] :=
    ⟨List.pairwise_singleton _ _, fun other member => List.mem_singleton.mp member ▸ inside⟩
  split at changed
  · split at changed
    · cases changed
    · rename_i notLast
      cases changed
      refine ⟨kept before, [], rfl, kept_sublist before, ⟨List.Pairwise.nil, by simp⟩, by simp,
        by simp, ?_⟩
      intro empty
      obtain ⟨noneKept, noneAfter⟩ := List.append_eq_nil_iff.mp empty
      apply notLast
      refine ⟨?_, noneAfter⟩
      unfold kept at noneKept
      split at noneKept
      · assumption
      · rw [noneKept]
        rfl
  rename_i notWhole
  split at changed
  · rename_i whole
    cases changed
    have inner : i < o := by
      by_contra low
      exact notWhole ⟨by omega, whole⟩
    refine ⟨before, [(i, 8 * o)], rfl, List.Sublist.refl _, single ⟨?_, ?_, ?_⟩, ?_, ?_, by simp⟩
    · simp only
      omega
    · simp only
      omega
    · exact own.2.2
    · simp [inner]
    · simp only [List.mem_singleton, forall_eq]
      omega
  rename_i opens
  have isMore : more = true := by
    by_contra final
    rw [if_neg final] at stopIs
    omega
  rw [if_pos isMore] at stopIs
  subst stopIs
  obtain ⟨whole, space⟩ := harmless.rest isMore (by simp only; omega)
  have newNode : 8 * (o + len / 8) = 8 * o + len := by omega
  have goodNew : GoodGaps [(o + len / 8, e)] := by
    apply single
    simp only
    omega
  split at changed
  · cases changed
    refine ⟨kept before, [(o + len / 8, e)], rfl, kept_sublist before, goodNew, ?_, ?_, by simp⟩
    · simp [newNode]
    · simp only [List.mem_singleton, forall_eq]
      omega
  · rename_i inner
    cases changed
    refine ⟨before, [(i, 8 * o), (o + len / 8, e)], rfl, List.Sublist.refl _, ⟨?_, ?_⟩, ?_, ?_,
      by simp⟩
    · simp only [List.pairwise_cons, List.mem_singleton, forall_eq, List.not_mem_nil,
        IsEmpty.forall_iff, implies_true, List.Pairwise.nil, and_true]
      omega
    · intro other member
      rcases List.mem_cons.mp member with rfl | isNew
      · simp only
        omega
      · exact goodNew.inside other isNew
    · intro other member
      rcases List.mem_cons.mp member with rfl | isNew
      · exact .inl ⟨rfl, by omega⟩
      · rw [List.mem_singleton.mp isNew]
        exact .inr newNode
    · intro other member
      rcases List.mem_cons.mp member with rfl | isNew
      · simp only
        omega
      · rw [List.mem_singleton.mp isNew]
        simp only
        omega

theorem gapChange_good {new : List Gap}
    (changed : gapChange before gap after o len more = .changed new) :
    GoodGaps new ∧ new ≠ [] ∧
      ∀ other ∈ new, 8 * other.1 + 8 ≤ 8 * o ∨ 8 * o + len ≤ 8 * other.1 := by
  obtain ⟨front, middle, rfl, some, goodMiddle, place, within, nonempty⟩ :=
    gapChange_cases good hits harmless changed
  refine ⟨good.replace hits some goodMiddle ?_ within, nonempty, ?_⟩
  · intro other member
    rcases place other member with ⟨same, -⟩ | new
    · exact .inl same
    · exact .inr (by omega)
  · intro other member
    rcases List.mem_append.mp member with early | late
    · have low := hits.before_lt good (some.subset early)
      omega
    · rcases List.mem_append.mp late with new | old
      · rcases place other new with ⟨same, low⟩ | beyond
        · omega
        · omega
      · exact .inr (harmless.apart other old)

end Change

/-! ## The function on tracked holes -/

/-- What a fragment of `len` bytes at block `o` does to the buffer: its data are there, and besides
only nodes of the gaps before and after, and the length in the header, are written. -/
structure Added (state : Reassembly) (frame : Memory) (ip o len : Nat) (more : Bool)
    (old new : List Gap) (outcome : Outcome) : Prop where
  data : ∀ p < len, outcome.state.pktBuff (payload o + p) = frame (ip + ipHdrSize + p)
  /-- Everything else but nodes and the length in the header stays. -/
  frame : ∀ a, a ≠ 2 → a ≠ 3 → (∀ j ∈ (old ++ new).map Prod.fst, ¬InNode j a) →
    ¬(payload o ≤ a ∧ a < payload o + len) → outcome.state.pktBuff a = state.pktBuff a
  touched : ∀ j ∈ outcome.holes, j ∈ (old ++ new).map Prod.fst
  copied : outcome.copied = [⟨payload o, len⟩]
  taken : outcome.taken = [⟨ip + ipHdrSize, len⟩]
  totalLen : outcome.state.totalLen = if more then state.totalLen else 8 * o + len

theorem Added.id {state : Reassembly} {frame : Memory} {ip o len : Nat} {more : Bool}
    {old new : List Gap} {outcome : Outcome}
    (added : Added state frame ip o len more old new outcome) :
    outcome.state.pktBuff.half 4 = state.pktBuff.half 4 := by
  have kept {a : Nat} (low : 4 ≤ a) (high : a < ipHdrSize) :
      outcome.state.pktBuff a = state.pktBuff a := by
    apply added.frame a (by omega) (by omega)
    · intro j _ inside
      unfold InNode payload at inside
      omega
    · unfold payload
      omega
  exact Memory.half_congr (kept (by decide) (by decide)) (kept (by decide) (by decide))

section Fragment

variable {state : Reassembly} {before after : List Gap} {gap : Gap} {o len : Nat} {more : Bool}

theorem Tracks.ended (tracks : Tracks state (before ++ gap :: after))
    (fits : 8 * o + len ≤ ipMaxudp) :
    ∃ buff stop, (if more then state.pktBuff else setLastByte state.pktBuff gap.1 (8 * o + len)) =
        buff ∧ (if more then gap.2 else 8 * o + len) = stop ∧
      Chain (holeAt buff) 0 (before ++ (gap.1, stop) :: after) 0 ∧
      ∀ a, ¬InNode gap.1 a → buff a = state.pktBuff a := by
  have room : ipMaxudp < 65536 := by decide
  refine ⟨_, _, rfl, rfl, ?_⟩
  cases more with
  | true => exact ⟨tracks.chain, fun _ _ => rfl⟩
  | false =>
    have shortened := shortenHole_repaired tracks.toGoodGaps tracks.chain tracks.firstHole
      (show 8 * o + len < 65536 by omega)
    exact ⟨shortened.chain, fun a outside => setLastByte_frame _ _ outside⟩

/-- The gaps with that end are good. -/
theorem GoodGaps.ended (good : GoodGaps (before ++ gap :: after)) (hits : Hits before gap o len)
    (harmless : Harmless gap after o len more) (fits : 8 * o + len ≤ ipMaxudp) {stop : Nat}
    (stopIs : (if more then gap.2 else 8 * o + len) = stop) :
    GoodGaps (before ++ (gap.1, stop) :: after) := by
  have room : ipMaxudp < 65536 := by decide
  have own := good.inside gap (by simp)
  have overlaps := hits.overlaps
  have sorted := good.sorted
  rw [List.pairwise_append, List.pairwise_cons] at sorted
  obtain ⟨sortedBefore, ⟨behind, sortedAfter⟩, across⟩ := sorted
  constructor
  · rw [List.pairwise_append, List.pairwise_cons]
    refine ⟨sortedBefore, ⟨?_, sortedAfter⟩, ?_⟩
    · intro later member
      have next := behind later member
      have apart := harmless.apart later member
      refine ⟨next.1, ?_⟩
      rw [← stopIs]
      split
      · exact next.2
      · exact apart
    · intro earlier isEarlier other member
      rcases List.mem_cons.mp member with rfl | later
      · exact across earlier isEarlier gap (List.mem_cons_self ..)
      · exact across earlier isEarlier other (List.mem_cons_of_mem _ later)
  · intro other member
    rcases List.mem_append.mp member with early | late
    · exact good.inside other (List.mem_append_left _ early)
    · rcases List.mem_cons.mp late with rfl | later
      · simp only
        rw [← stopIs]
        split
        · exact own
        · omega
      · exact good.inside other (List.mem_append_right _ (List.mem_cons_of_mem _ later))

/-- The repair of a list whose gap ends at `stop`. -/
theorem fixHoles_gapChange {buff : Memory} {firstHole stop : Nat}
    (good : GoodGaps (before ++ (gap.1, stop) :: after))
    (chain : Chain (holeAt buff) 0 (before ++ (gap.1, stop) :: after) 0)
    (known : firstHole = first (before ++ (gap.1, stop) :: after) 0)
    (stopIs : (if more then gap.2 else 8 * o + len) = stop) (hits : Hits before gap o len)
    (harmless : Harmless gap after o len more) (fits : 8 * o + len ≤ ipMaxudp) :
    (gapChange before gap after o len more = .done →
      fixHoles buff firstHole gap.1 o len = ⟨buff, firstHole, true, [gap.1]⟩) ∧
    ∀ new, gapChange before gap after o len more = .changed new →
      Repaired buff (fixHoles buff firstHole gap.1 o len) (before ++ (gap.1, stop) :: after) new := by
  obtain ⟨-, own, -⟩ := (chain_append _ _ _ _ _).mp chain
  have value : (holeAt buff gap.1).value = stop := by rw [own]
  have newh : ((o : Int) + (len : Int).tdiv 8).toNat = o + len / 8 := by
    rw [Int.tdiv_eq_ediv_of_nonneg (by omega)]
    omega
  have reach : (stop : Int) ≤ ((o * 8 : Nat) : Int) + len ↔ stop ≤ 8 * o + len := by omega
  have startIs : o * 8 = 8 * o := Nat.mul_comm o 8
  have inside := good.inside (gap.1, stop) (by simp)
  have room : ipMaxudp < 65536 := by decide
  simp only at inside
  unfold fixHoles gapChange
  simp only [value, newh, reach, stopIs]
  by_cases whole : o ≤ gap.1 ∧ stop ≤ 8 * o + len
  · simp only [if_pos whole]
    by_cases only : last 0 before = 0 ∧ after = []
    · simp only [if_pos only, reduceCtorEq, IsEmpty.forall_iff, implies_true, and_true,
        forall_const]
      unfold removeHole
      simp only [own, only.1, only.2, first, and_self, ↓reduceIte]
    · simp only [if_neg only, reduceCtorEq, IsEmpty.forall_iff, true_and, GapStep.changed.injEq]
      rintro new rfl
      exact removeHole_repaired good chain known only
  simp only [if_neg whole]
  by_cases final : stop ≤ 8 * o + len
  · simp only [if_pos final, reduceCtorEq, IsEmpty.forall_iff, true_and, GapStep.changed.injEq]
    rintro new rfl
    rw [startIs]
    exact shortenHole_repaired good chain known (by omega)
  simp only [if_neg final]
  have isMore : more = true := by
    by_contra last
    rw [if_neg last] at stopIs
    omega
  rw [if_pos isMore] at stopIs
  obtain ⟨blocks, space⟩ := harmless.rest isMore (by omega)
  have overlaps := hits.overlaps
  have beyond : gap.1 < o + len / 8 := by omega
  have notBefore : o + len / 8 ∉ before.map Prod.fst := by
    intro member
    obtain ⟨other, among, same⟩ := List.mem_map.mp member
    have low := good.before_lt among
    omega
  have notAfter : o + len / 8 ∉ after.map Prod.fst := by
    intro member
    obtain ⟨other, among, same⟩ := List.mem_map.mp member
    have sorted := good.sorted
    rw [List.pairwise_append, List.pairwise_cons] at sorted
    have next := (sorted.2.1.1 other among).2
    simp only at next
    omega
  by_cases starts : o ≤ gap.1
  · simp only [if_pos starts, reduceCtorEq, IsEmpty.forall_iff, true_and, GapStep.changed.injEq]
    rintro new rfl
    exact moveHole_repaired good chain known (by omega) notBefore notAfter
  · simp only [if_neg starts, reduceCtorEq, IsEmpty.forall_iff, true_and, GapStep.changed.injEq]
    rintro new rfl
    rw [startIs]
    exact splitHole_repaired good chain known (by omega) notBefore notAfter (by omega) (by omega)

/-- A fragment that hits a gap and is harmless changes the gaps as `gapChange` says, or completes
the packet. -/
theorem Tracks.addFragment (tracks : Tracks state (before ++ gap :: after))
    (hits : Hits before gap o len) (harmless : Harmless gap after o len more)
    (fits : 8 * o + len ≤ ipMaxudp) (frame : Memory) (ip : Nat) :
    (gapChange before gap after o len more = .done →
      (Net.addFragment state frame ip gap.1 o len more).returned =
          some ((Net.addFragment state frame ip gap.1 o len more).state.totalLen + ipHdrSize) ∧
        Added state frame ip o len more (before ++ gap :: after) []
          (Net.addFragment state frame ip gap.1 o len more)) ∧
    ∀ new, gapChange before gap after o len more = .changed new →
      (Net.addFragment state frame ip gap.1 o len more).returned = none ∧
        Tracks (Net.addFragment state frame ip gap.1 o len more).state new ∧
        Added state frame ip o len more (before ++ gap :: after) new
          (Net.addFragment state frame ip gap.1 o len more) := by
  have room : ipMaxudp < 65536 := by decide
  obtain ⟨buff, stop, buffIs, stopIs, chain, frameEnd⟩ := @Tracks.ended _ _ _ _ _ _ more tracks fits
  have good := tracks.toGoodGaps.ended hits harmless fits stopIs
  have known : state.firstHole = first (before ++ (gap.1, stop) :: after) 0 := by
    rw [tracks.firstHole, first_append, first_append]
    rfl
  obtain ⟨whenDone, whenChanged⟩ :=
    fixHoles_gapChange good chain known stopIs hits harmless fits
  have count : memcpyCount len = len := by
    unfold memcpyCount
    omega
  have stopNat : ((o : Int) * 8 + (len : Int)).toNat = 8 * o + len := by omega
  have total : (8 * o + len) % 65536 = 8 * o + len := by omega
  have stored (memory : Memory) : ∀ p < len,
      memory.store (payload o) (frame.load (ip + ipHdrSize) len) (payload o + p) =
        frame (ip + ipHdrSize + p) := by
    intro p inside
    rw [Memory.store_load _ _ ⟨by omega, by omega⟩, Nat.add_sub_cancel_left]
  have apart (memory : Memory) (a : Nat) (outside : ¬(payload o ≤ a ∧ a < payload o + len)) :
      memory.store (payload o) (frame.load (ip + ipHdrSize) len) a = memory a := by
    apply Memory.store_outside
    rw [Memory.length_load]
    omega
  constructor
  · intro done
    have repaired := whenDone done
    simp only [Net.addFragment, stopNat, buffIs, repaired, count, total, ↓reduceIte, true_and]
    refine ⟨?_, ?_, ?_, rfl, rfl, rfl⟩
    · intro p inside
      refine (Memory.store_outside _ _ _ _ ?_).trans (stored buff p inside)
      simp only [List.length_cons, List.length_nil, payload, ipHdrSize]
      omega
    · intro a notHigh notLow outside notData
      refine (Memory.store_outside _ _ _ _ ?_).trans
        ((apart buff a notData).trans (frameEnd a (outside gap.1 (by simp))))
      simp only [List.length_cons, List.length_nil]
      omega
    · simp
  · intro new changed
    have repaired := whenChanged new changed
    obtain ⟨goodNew, nonempty, clear⟩ := gapChange_good tracks.toGoodGaps hits harmless changed
    have sameNodes : ((before ++ (gap.1, stop) :: after) ++ new).map Prod.fst =
        ((before ++ gap :: after) ++ new).map Prod.fst := by
      simp
    have frameRepaired := repaired.frame
    have touched := repaired.touched
    rw [sameNodes] at frameRepaired touched
    simp only [Net.addFragment, stopNat, buffIs, repaired.going, Bool.false_eq_true, ↓reduceIte,
      count, total, true_and]
    refine ⟨⟨goodNew, nonempty, ?_, repaired.firstHole⟩, ?_, ?_, touched, rfl, rfl, rfl⟩
    · apply repaired.chain.congr
      intro j member
      obtain ⟨other, among, rfl⟩ := List.mem_map.mp member
      apply holeAt_congr
      intro a inside
      apply apart
      have off := clear other among
      unfold InNode payload at *
      omega
    · exact stored _
    · intro a _ _ outside notData
      exact ((apart _ a notData).trans (frameRepaired a outside)).trans
        (frameEnd a (outside gap.1 (by simp)))

end Fragment

/-- The packet at `ip` is a fragment of `len` bytes at block `o`. -/
structure IsFragmentAt (frame : Memory) (ip o len : Nat) (more : Bool) : Prop where
  offset : ntohs frame (ip + 6) % 0x2000 = o
  length : ntohs frame (ip + 2) = ipHdrSize + len
  more : decide (ntohs frame (ip + 6) / 0x2000 % 2 = 1) = more

/-- A fragment that hits a gap is harmless. -/
def HarmlessStep (gaps : List Gap) (o len : Nat) (more : Bool) : Prop :=
  ∀ before gap after, gaps = before ++ gap :: after → Hits before gap o len →
    Harmless gap after o len more

/-- What a call does when the gaps change so. -/
def Follows (state : Reassembly) (frame : Memory) (ip o len : Nat) (more : Bool) (gaps : List Gap)
    (outcome : Outcome) : GapStep → Prop
  | .same => outcome.state = state ∧ outcome.returned = none ∧ outcome.copied = [] ∧
      outcome.taken = [] ∧ ∀ j ∈ outcome.holes, j ∈ gaps.map Prod.fst
  | .done => outcome.returned = some (outcome.state.totalLen + ipHdrSize) ∧
      Added state frame ip o len more gaps [] outcome
  | .changed new => outcome.returned = none ∧ Tracks outcome.state new ∧
      Added state frame ip o len more gaps new outcome

theorem gapStep_eq {before after : List Gap} {gap : Gap} {o len : Nat} (more : Bool)
    (hits : Hits before gap o len) :
    gapStep (before ++ gap :: after) o len more = gapChange before gap after o len more := by
  have early : ∀ other ∈ before, decide (other.2 < 8 * o) = true := by
    intro other member
    simpa using hits.before other member
  have here : ¬gap.2 < 8 * o := by
    have := hits.here
    omega
  have overlaps : ¬o + (len + 7) / 8 ≤ gap.1 := by
    have := hits.overlaps
    omega
  unfold gapStep
  rw [List.dropWhile_append_of_pos early, List.takeWhile_append_of_pos early,
    List.dropWhile_cons_of_neg (by simpa using here), List.takeWhile_cons_of_neg (by simpa using here)]
  simp only [if_neg overlaps, List.append_nil]

theorem gapStep_cases (gaps : List Gap) (o len : Nat) (more : Bool) :
    gapStep gaps o len more = .same ∨
      ∃ before gap after, gaps = before ++ gap :: after ∧ Hits before gap o len := by
  unfold gapStep
  cases rest : gaps.dropWhile fun gap => decide (gap.2 < 8 * o) with
  | nil => exact .inl rfl
  | cons gap after =>
    simp only
    split
    · exact .inl rfl
    · right
      refine ⟨gaps.takeWhile fun gap => decide (gap.2 < 8 * o), gap, after, ?_, ?_, ?_, by omega⟩
      · rw [← rest, List.takeWhile_append_dropWhile]
      · intro earlier member
        simpa using List.mem_takeWhile_imp member
      · have some : gaps.dropWhile (fun gap => decide (gap.2 < 8 * o)) ≠ [] := by simp [rest]
        have here := List.head_dropWhile_not (fun gap : Gap => decide (gap.2 < 8 * o)) some
        simp only [rest, List.head_cons, decide_eq_false_iff_not] at here
        omega

/-- A call on tracked holes does what the gaps say, and its walk ends. -/
theorem Tracks.netReassemble {state : Reassembly} (tracks : Tracks state gaps) {frame : Memory}
    {ip o len : Nat} {more : Bool} (fragment : IsFragmentAt frame ip o len more)
    (fits : 8 * o + len ≤ ipMaxudp) (harmless : HarmlessStep gaps o len more) :
    ∃ outcome, Net.netReassemble state frame ip = some outcome ∧
      Follows state frame ip o len more gaps outcome (gapStep gaps o len more) := by
  have positive : ∀ gap ∈ gaps.tail, gap.1 ≠ 0 := by
    intro gap member
    cases list : gaps with
    | nil => simp [list] at member
    | cons head tail =>
      have sorted := tracks.sorted
      rw [list, List.pairwise_cons] at sorted
      rw [list, List.tail_cons] at member
      have above := (sorted.1 gap member).1
      omega
  have enough : gaps.length ≤ 65536 := by
    have := tracks.length_le
    omega
  obtain ⟨visited, walked, among⟩ := @findHole_chain _ (o * 8) _ _ _ tracks.chain tracks.nonempty
    positive enough
  rw [← tracks.firstHole] at walked
  have lenIs : ((ipHdrSize + len : Nat) : Int) - (ipHdrSize : Int) = (len : Int) := by omega
  have ceil : ((len : Int) + 7).tdiv 8 = ((len + 7) / 8 : Nat) := by
    rw [Int.tdiv_eq_ediv_of_nonneg (by omega)]
    omega
  unfold Net.netReassemble
  simp only [fragment.offset, fragment.length, fragment.more, lenIs, walked, Option.map_some, ceil]
  cases found : gaps.find? fun gap => decide (o * 8 ≤ gap.2) with
  | none =>
    have skipped : gaps.dropWhile (fun gap => decide (gap.2 < 8 * o)) = [] := by
      rw [List.dropWhile_eq_nil_iff]
      intro gap member
      have ends := List.find?_eq_none.mp found gap member
      simp only [decide_eq_true_eq] at ends ⊢
      omega
    refine ⟨_, rfl, ?_⟩
    rw [gapStep, skipped]
    exact ⟨rfl, rfl, rfl, rfl, among⟩
  | some gap =>
    obtain ⟨here, before, after, split, early⟩ := List.find?_eq_some_iff_append.mp found
    have hitsBefore : ∀ earlier ∈ before, earlier.2 < 8 * o := by
      intro earlier member
      have ends := early earlier member
      simp only [Bool.not_eq_eq_eq_not, Bool.not_true, decide_eq_false_iff_not] at ends
      omega
    have hitsHere : 8 * o ≤ gap.2 := by
      simp only [decide_eq_true_eq] at here
      omega
    simp only [Option.map_some]
    by_cases ahead : o + (len + 7) / 8 ≤ gap.1
    · have ahead' : (o : Int) + ((len + 7) / 8 : Nat) ≤ gap.1 := by omega
      refine ⟨_, rfl, ?_⟩
      have step : gapStep gaps o len more = .same := by
        unfold gapStep
        rw [split, List.dropWhile_append_of_pos (by simpa using hitsBefore),
          List.dropWhile_cons_of_neg (by simpa using hitsHere)]
        simp only [if_pos ahead]
      rw [step, if_pos ahead']
      exact ⟨rfl, rfl, rfl, rfl, among⟩
    · have hits : Hits before gap o len := ⟨hitsBefore, hitsHere, by omega⟩
      have ahead' : ¬(o : Int) + ((len + 7) / 8 : Nat) ≤ gap.1 := by omega
      have whole := harmless before gap after split hits
      subst split
      rw [gapStep_eq more hits, if_neg ahead']
      obtain ⟨whenDone, whenChanged⟩ := tracks.addFragment hits whole fits frame ip
      refine ⟨_, rfl, ?_⟩
      have touches {new : List Gap} {outcome : Outcome}
          (added : Added state frame ip o len more (before ++ gap :: after) new outcome) :
          Added state frame ip o len more (before ++ gap :: after) new
            { outcome with holes := visited ++ outcome.holes } := by
        refine ⟨added.data, added.frame, ?_, added.copied, added.taken, added.totalLen⟩
        intro j member
        rcases List.mem_append.mp member with seen | later
        · rw [List.map_append]
          exact List.mem_append_left _ (among j seen)
        · exact added.touched j later
      cases change : gapChange before gap after o len more with
      | same => exact absurd change (gapChange_ne_same _ _ _ _ _ _)
      | done =>
        obtain ⟨returned, added⟩ := whenDone change
        exact ⟨returned, touches added⟩
      | changed new =>
        obtain ⟨returned, tracked, added⟩ := whenChanged new change
        exact ⟨returned, tracked, touches added⟩

theorem tracks_resetHoles (state : Reassembly) (frame : Memory) (ip : Nat) :
    Tracks (resetHoles state frame ip) [(0, 65535)] := by
  refine ⟨⟨List.pairwise_singleton _ _, ?_⟩, by simp, ⟨?_, trivial⟩, rfl⟩
  · simp only [List.mem_singleton, forall_eq]
    decide
  · unfold resetHoles
    have apart (buff : Memory) : holeAt (buff.store 0 (frame.load ip ipHdrSize)) 0 = holeAt buff 0 := by
      apply holeAt_congr
      intro a inside
      apply Memory.store_outside
      rw [Memory.length_load]
      unfold InNode payload at inside
      omega
    simp only [apart]
    rw [holeAt_setPrevHole _ _ _ (by decide), holeAt_setNextHole _ _ _ (by decide),
      holeAt_setLastByte _ _ _ (by decide)]
    simp [first]

theorem half_resetHoles (state : Reassembly) (frame : Memory) (ip : Nat) :
    (resetHoles state frame ip).pktBuff.half 4 = frame.half (ip + 4) := by
  have header {a : Nat} (inside : a < ipHdrSize) :
      (resetHoles state frame ip).pktBuff a = frame (ip + a) :=
    Memory.store_load _ _ ⟨Nat.zero_le a, by omega⟩
  rw [Memory.half, Memory.half, header (by decide), header (by decide), Nat.add_assoc]

end HrppBoot.Net
