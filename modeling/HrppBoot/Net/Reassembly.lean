import HrppBoot.Net.HoleList

/-!
# Datagrams put together

The fragments of a datagram arrive in any order, each of them any number of times. While no fragment
arrives right behind the lowest received part with the bytes before that part missing, the gaps are
the missing bytes, the data received are in the buffer, and the call that gets the last missing
fragment returns the payload. A fragment that does arrive so starts the second hole, whose link back
to the hole at index 0 reads as none: the first hole is lost.
-/

namespace HrppBoot.Net

open ByteMemory LinkedChain

/-! ## Fragments of a datagram -/

structure Fragment where
  block : Nat
  length : Nat
  more : Bool
  deriving DecidableEq, Repr

def Fragment.stop (fragment : Fragment) : Nat := 8 * fragment.block + fragment.length

def Fragment.Has (fragment : Fragment) (p : Nat) : Prop := 8 * fragment.block ≤ p ∧ p < fragment.stop

/-- A division of `total` bytes into fragments. -/
structure Division (total : Nat) (fragments : List Fragment) : Prop where
  nonempty : ∀ fragment ∈ fragments, 0 < fragment.length
  /-- Only the last one may have a length that is not a multiple of 8. -/
  aligned : ∀ fragment ∈ fragments, fragment.more = true → fragment.length % 8 = 0
  /-- The last one ends where the payload does, and the others do not. -/
  final : ∀ fragment ∈ fragments, fragment.more = false ↔ fragment.stop = total
  inside : ∀ fragment ∈ fragments, fragment.stop ≤ total
  covers : ∀ p < total, ∃ fragment ∈ fragments, fragment.Has p
  disjoint : ∀ fragment ∈ fragments, ∀ other ∈ fragments, ∀ p, fragment.Has p → other.Has p →
    fragment = other

def Covered (received : List Fragment) (p : Nat) : Prop := ∃ fragment ∈ received, fragment.Has p

/-- The fragment is new and starts right behind the lowest part received, and the bytes before that
part are missing. -/
def LosesFirstHole (received : List Fragment) (fragment : Fragment) : Prop :=
  fragment ∉ received ∧ ∃ low, 0 < low ∧ low < 8 * fragment.block ∧
    (∀ p < low, ¬Covered received p) ∧
    ∀ p, low ≤ p → p < 8 * fragment.block → Covered received p

/-- A packet that arrives: the frame, where the packet is in it, and the fragment it carries. -/
structure Arrival where
  frame : Memory
  ip : Nat
  fragment : Fragment

/-- The packet carries a fragment of the datagram with this id and payload. -/
structure Arrival.Carries (arrival : Arrival) (id : Nat) (content : List UInt8) : Prop where
  header : IsFragmentAt arrival.frame arrival.ip arrival.fragment.block arrival.fragment.length
    arrival.fragment.more
  id : arrival.frame.half (arrival.ip + 4) = id
  data : arrival.frame.load (arrival.ip + ipHdrSize) arrival.fragment.length =
    (content.drop (8 * arrival.fragment.block)).take arrival.fragment.length

/-- The calls for packets that arrive one after the other: the static variables afterwards, and what
the calls return. -/
def netDefragmentAll (state : Reassembly) : List Arrival → Option (Reassembly × List (Option Nat))
  | [] => some (state, [])
  | arrival :: later =>
    (netDefragment state arrival.frame arrival.ip).bind fun outcome =>
      (netDefragmentAll outcome.state later).map fun (state, returned) =>
        (state, outcome.returned :: returned)

/-- No fragment of the list loses the first hole when it arrives. -/
def KeepsFirstHole (received : List Fragment) : List Fragment → Prop
  | [] => True
  | fragment :: later =>
    ¬LosesFirstHole received fragment ∧ KeepsFirstHole (received ++ [fragment]) later

/-- The calls return `NULL` before the last one, and the last one returns the payload. -/
def Reassembles (state : Reassembly) (early : List Arrival) (last : Arrival)
    (content : List UInt8) : Prop :=
  ∃ middle outcome, netDefragmentAll state early = some (middle, early.map fun _ => none) ∧
    netDefragment middle last.frame last.ip = some outcome ∧
    outcome.returned = some (content.length + ipHdrSize) ∧
    outcome.state.pktBuff.load ipHdrSize content.length = content

/-! ## Gaps and missing bytes -/

def InGaps (gaps : List Gap) (p : Nat) : Prop := ∃ gap ∈ gaps, 8 * gap.1 ≤ p ∧ p < gap.2

/-- The byte behind everything that may still be missing. -/
def bound (total : Nat) (received : List Fragment) : Nat :=
  if ∃ fragment ∈ received, fragment.more = false then total else 65535

/-- The gaps are the bytes that are missing. -/
structure Missing (total : Nat) (received : List Fragment) (gaps : List Gap) : Prop where
  apart : gaps.Pairwise fun gap gap' => gap.2 < 8 * gap'.1
  ends : ∀ gap ∈ gaps, gap.2 % 8 = 0 ∨ gap.2 = 65535
  bytes : ∀ p, InGaps gaps p ↔ p < bound total received ∧ ¬Covered received p

/-- A fragment that lies inside a gap cuts it: what is left before it, and behind it. -/
def cut (gap : Gap) (fragment : Fragment) : List Gap :=
  (if gap.1 < fragment.block then [(gap.1, 8 * fragment.block)] else []) ++
    if fragment.more = true ∧ fragment.stop < gap.2 then
      [(fragment.block + fragment.length / 8, gap.2)] else []

/-- A fragment inside a gap cuts it, unless the link to the gaps before reads as none. -/
theorem gapChange_cut {before after : List Gap} {gap : Gap} {fragment : Fragment}
    (starts : gap.1 ≤ fragment.block) (ends : fragment.stop ≤ gap.2)
    (linked : last 0 before = 0 → before = [] ∨ gap.1 < fragment.block) :
    gapChange before gap after fragment.block fragment.length fragment.more =
      if before ++ (cut gap fragment ++ after) = [] then .done
      else .changed (before ++ (cut gap fragment ++ after)) := by
  obtain ⟨o, len, more⟩ := fragment
  obtain ⟨i, e⟩ := gap
  simp only [Fragment.stop] at *
  have keeps (same : i = o) : kept before = before := by
    unfold kept
    split
    · rename_i zero
      rcases linked zero with empty | low
      · exact empty.symm
      · omega
    · rfl
  have noneBefore (same : i = o) : last 0 before = 0 ↔ before = [] := by
    constructor
    · intro zero
      rcases linked zero with empty | low
      · exact empty
      · omega
    · rintro rfl
      rfl
  unfold gapChange cut
  cases more with
  | false =>
    simp only [Bool.false_eq_true, ↓reduceIte, le_refl, and_true, false_and, List.append_nil]
    by_cases low : i < o
    · simp [low, show ¬o ≤ i by omega]
    · have same : i = o := by omega
      simp only [low, show o ≤ i by omega, ↓reduceIte, List.nil_append, noneBefore same, keeps same,
        List.append_eq_nil_iff]
  | true =>
    simp only [↓reduceIte, true_and, Fragment.stop]
    by_cases low : i < o
    · by_cases whole : e ≤ 8 * o + len
      · simp [low, show ¬o ≤ i by omega, whole, show ¬8 * o + len < e by omega]
      · simp [low, show ¬o ≤ i by omega, whole, show 8 * o + len < e by omega]
    · have same : i = o := by omega
      by_cases whole : e ≤ 8 * o + len
      · simp only [low, show o ≤ i by omega, whole, and_self, ↓reduceIte, List.nil_append,
          noneBefore same, keeps same, List.append_eq_nil_iff, show ¬8 * o + len < e by omega]
      · simp [low, show o ≤ i by omega, whole, show 8 * o + len < e by omega, keeps same]

theorem inGaps_append (left right : List Gap) (p : Nat) :
    InGaps (left ++ right) p ↔ InGaps left p ∨ InGaps right p := by
  simp only [InGaps, List.mem_append, or_and_right, exists_or]

theorem inGaps_cons (gap : Gap) (gaps : List Gap) (p : Nat) :
    InGaps (gap :: gaps) p ↔ 8 * gap.1 ≤ p ∧ p < gap.2 ∨ InGaps gaps p := by
  simp only [InGaps, List.mem_cons, or_and_right, exists_or, exists_eq_left]

theorem not_inGaps_nil (p : Nat) : ¬InGaps [] p := by
  simp [InGaps]

theorem inGaps_cut {gap : Gap} {fragment : Fragment} (starts : gap.1 ≤ fragment.block)
    (ends : fragment.stop ≤ gap.2) (aligned : fragment.more = true → fragment.length % 8 = 0)
    (p : Nat) : InGaps (cut gap fragment) p ↔ 8 * gap.1 ≤ p ∧ p < gap.2 ∧ ¬fragment.Has p ∧
      (fragment.more = true ∨ p < fragment.stop) := by
  obtain ⟨o, len, more⟩ := fragment
  obtain ⟨i, e⟩ := gap
  have front : InGaps (if i < o then [(i, 8 * o)] else []) p ↔ 8 * i ≤ p ∧ p < 8 * o := by
    split
    · simp [inGaps_cons, not_inGaps_nil]
    · simp only [not_inGaps_nil, false_iff]
      omega
  simp only [cut, inGaps_append, front, Fragment.stop, Fragment.Has] at *
  cases more with
  | false =>
    simp only [Bool.false_eq_true, false_and, ↓reduceIte, not_inGaps_nil, or_false, false_or]
    omega
  | true =>
    have whole := aligned rfl
    by_cases rest : 8 * o + len < e
    · simp only [rest, and_self, ↓reduceIte, inGaps_cons, not_inGaps_nil, or_false, true_or,
        and_true]
      omega
    · simp only [rest, and_false, ↓reduceIte, not_inGaps_nil, or_false, true_or, and_true]
      omega

theorem parts_of_cut {gap other : Gap} {fragment : Fragment} (ends : fragment.stop ≤ gap.2)
    (aligned : fragment.more = true → fragment.length % 8 = 0) (starts : gap.1 ≤ fragment.block)
    (among : other ∈ cut gap fragment) :
    gap.1 ≤ other.1 ∧ other.2 ≤ gap.2 ∧ (other.2 = 8 * fragment.block ∨
      8 * other.1 = fragment.stop ∧ fragment.stop < gap.2 ∧ other.2 = gap.2) := by
  unfold cut at among
  rcases List.mem_append.mp among with front | back
  · split at front
    · rw [List.mem_singleton.mp front]
      unfold Fragment.stop at ends
      simp only [le_refl, true_and, true_or, and_true]
      omega
    · simp at front
  · split at back
    · rename_i rest
      rw [List.mem_singleton.mp back]
      have := aligned rest.1
      unfold Fragment.stop at *
      simp only [le_refl, true_and, and_true]
      omega
    · simp at back

theorem covered_append (received : List Fragment) (fragment : Fragment) (p : Nat) :
    Covered (received ++ [fragment]) p ↔ Covered received p ∨ fragment.Has p := by
  simp [Covered, or_and_right, exists_or]

theorem bound_append_more (total : Nat) (received : List Fragment) {fragment : Fragment}
    (more : fragment.more = true) : bound total (received ++ [fragment]) = bound total received := by
  simp [bound, or_and_right, exists_or, more]

theorem bound_append_last (total : Nat) (received : List Fragment) {fragment : Fragment}
    (last : fragment.more = false) : bound total (received ++ [fragment]) = total := by
  apply if_pos
  exact ⟨fragment, by simp, last⟩

theorem bound_append_again (total : Nat) {received : List Fragment} {fragment : Fragment}
    (again : fragment ∈ received) : bound total (received ++ [fragment]) = bound total received := by
  unfold bound
  congr 1
  apply propext
  constructor
  · rintro ⟨other, among, last⟩
    rcases List.mem_append.mp among with old | new
    · exact ⟨other, old, last⟩
    · exact ⟨fragment, again, List.mem_singleton.mp new ▸ last⟩
  · rintro ⟨other, among, last⟩
    exact ⟨other, List.mem_append_left _ among, last⟩

theorem covered_append_again {received : List Fragment} {fragment : Fragment}
    (again : fragment ∈ received) (p : Nat) :
    Covered (received ++ [fragment]) p ↔ Covered received p := by
  have twice : fragment.Has p → Covered received p := fun has => ⟨fragment, again, has⟩
  rw [covered_append, or_iff_left_of_imp twice]

section Missing

variable {total : Nat} {received : List Fragment} {gaps before after : List Gap} {gap : Gap}

theorem Missing.around (missing : Missing total received (before ++ gap :: after)) :
    (∀ earlier ∈ before, earlier.2 < 8 * gap.1) ∧ ∀ later ∈ after, gap.2 < 8 * later.1 := by
  have apart := missing.apart
  rw [List.pairwise_append, List.pairwise_cons] at apart
  exact ⟨fun earlier member => apart.2.2 earlier member gap (List.mem_cons_self ..), apart.2.1.1⟩

theorem Missing.uncovered (missing : Missing total received gaps) (member : gap ∈ gaps) {p : Nat}
    (low : 8 * gap.1 ≤ p) (high : p < gap.2) : ¬Covered received p :=
  ((missing.bytes p).mp ⟨gap, member, low, high⟩).2

theorem Missing.behind (missing : Missing total received (before ++ gap :: after))
    (good : GoodGaps (before ++ gap :: after)) : ¬InGaps (before ++ gap :: after) gap.2 := by
  obtain ⟨earlier, later⟩ := missing.around
  have own := (good.inside gap (by simp)).1
  rw [inGaps_append, inGaps_cons]
  rintro (⟨other, member, low, high⟩ | ⟨-, high⟩ | ⟨other, member, low, high⟩)
  · have := earlier other member
    omega
  · omega
  · have := later other member
    omega

end Missing

/-! ## A fragment and the gaps -/

section Step

variable {total : Nat} {fragments received : List Fragment} {gaps before after : List Gap}
  {gap : Gap}
  {fragment : Fragment} (division : Division total fragments) (fits : total ≤ ipMaxudp)
  (known : ∀ other ∈ received, other ∈ fragments) (member : fragment ∈ fragments)
  (good : GoodGaps gaps) (missing : Missing total received gaps)
include division member

theorem Division.has_start : fragment.Has (8 * fragment.block) := by
  have := division.nonempty fragment member
  unfold Fragment.Has Fragment.stop
  omega

include fits in
theorem Division.stop_le_bound (received : List Fragment) :
    fragment.stop ≤ bound total received := by
  have room : ipMaxudp < 65535 := by decide
  have inside := division.inside fragment member
  unfold bound
  split <;> omega

include known

theorem Division.new_uncovered (new : fragment ∉ received) {p : Nat} (has : fragment.Has p) :
    ¬Covered received p := by
  rintro ⟨other, among, hasToo⟩
  have same := division.disjoint fragment member other (known other among) p has hasToo
  exact new (same ▸ among)

include fits missing

theorem Missing.new_inGaps (new : fragment ∉ received) {p : Nat} (has : fragment.Has p) :
    InGaps gaps p := by
  have stop := division.stop_le_bound fits member received
  exact (missing.bytes p).mpr
    ⟨Nat.lt_of_lt_of_le has.2 stop, division.new_uncovered known member new has⟩

include good

theorem Missing.new_inside (new : fragment ∉ received) (split : gaps = before ++ gap :: after)
    (hits : Hits before gap fragment.block fragment.length) :
    gap.1 ≤ fragment.block ∧ fragment.stop ≤ gap.2 := by
  subst split
  obtain ⟨earlier, later⟩ := missing.around
  have here := hits.here
  have inGaps := missing.new_inGaps division fits known member new (division.has_start member)
  rw [inGaps_append, inGaps_cons] at inGaps
  have inGap : 8 * gap.1 ≤ 8 * fragment.block ∧ 8 * fragment.block < gap.2 := by
    rcases inGaps with ⟨other, among, low, high⟩ | own | ⟨other, among, low, high⟩
    · have := hits.before other among
      omega
    · exact own
    · have := later other among
      omega
  refine ⟨by omega, ?_⟩
  by_contra beyond
  exact missing.behind good
    (missing.new_inGaps division fits known member new ⟨by omega, by omega⟩)

theorem Missing.new_hits (new : fragment ∉ received) : ∃ before gap after,
    gaps = before ++ gap :: after ∧ Hits before gap fragment.block fragment.length := by
  have has := division.has_start member
  obtain ⟨gap, among, low, high⟩ := missing.new_inGaps division fits known member new has
  obtain ⟨before, after, rfl⟩ := List.append_of_mem among
  obtain ⟨earlier, -⟩ := missing.around
  refine ⟨before, gap, after, rfl, ?_, by omega, ?_⟩
  · intro other isBefore
    have := earlier other isBefore
    omega
  · have := division.nonempty fragment member
    omega

theorem Missing.new_harmless (new : fragment ∉ received) :
    HarmlessStep gaps fragment.block fragment.length fragment.more := by
  intro before gap after split hits
  obtain ⟨starts, ends⟩ := missing.new_inside division fits known member good new split hits
  have inside := division.inside fragment member
  subst split
  constructor
  · intro later isLater
    have := missing.around.2 later isLater
    unfold Fragment.stop at ends
    omega
  · intro more _
    have aligned := division.aligned fragment member more
    have notLast : fragment.stop ≠ total := by
      intro same
      rw [(division.final fragment member).mpr same] at more
      exact Bool.false_ne_true more
    unfold Fragment.stop at *
    unfold ipMaxudp ipPktsize configNetMaxdefrag ipHdrSize at *
    omega

/-- The last fragment lies in the last gap, if it is new. -/
theorem Missing.new_last (new : fragment ∉ received) (last : fragment.more = false)
    (split : gaps = before ++ gap :: after)
    (hits : Hits before gap fragment.block fragment.length) :
    after = [] ∧ bound total received = 65535 := by
  obtain ⟨starts, ends⟩ := missing.new_inside division fits known member good new split hits
  have stop := (division.final fragment member).mp last
  have open_ : bound total received = 65535 := by
    apply if_neg
    rintro ⟨other, among, lastToo⟩
    have stopToo := (division.final other (known other among)).mp lastToo
    have nonempty := division.nonempty fragment member
    have nonemptyToo := division.nonempty other (known other among)
    have has : fragment.Has (total - 1) := by
      unfold Fragment.Has Fragment.stop at *
      omega
    have hasToo : other.Has (total - 1) := by
      unfold Fragment.Has Fragment.stop at *
      omega
    exact division.new_uncovered known member new has ⟨other, among, hasToo⟩
  refine ⟨?_, open_⟩
  subst split
  have own := (good.inside gap (by simp)).2.1
  have isOpen : gap.2 = 65535 := by
    by_contra closed
    apply missing.behind good
    refine (missing.bytes _).mpr ⟨by omega, ?_⟩
    rintro ⟨other, among, -, high⟩
    have := division.inside other (known other among)
    omega
  cases after with
  | nil => rfl
  | cons later after =>
    have next := missing.around.2 later (List.mem_cons_self ..)
    have inside := good.inside later (by simp)
    omega

/-- The link to the gaps before reads as none only if there are none or it does not matter. -/
theorem Missing.new_linked (new : fragment ∉ received)
    (safe : ¬LosesFirstHole received fragment) (split : gaps = before ++ gap :: after)
    (hits : Hits before gap fragment.block fragment.length) (zero : last 0 before = 0) :
    before = [] ∨ gap.1 < fragment.block := by
  obtain ⟨starts, -⟩ := missing.new_inside division fits known member good new split hits
  by_contra both
  obtain ⟨nonempty, same⟩ := not_or.mp both
  subst split
  have atStart : gap.1 = fragment.block := by omega
  obtain ⟨low, rfl⟩ : ∃ low, before = [(0, low)] := by
    cases before with
    | nil => exact absurd rfl nonempty
    | cons entry rest =>
      have sorted := good.sorted
      rw [List.cons_append, List.pairwise_cons] at sorted
      by_cases single : rest = []
      · subst single
        exact ⟨entry.2, congrArg (fun i => [(i, entry.2)]) zero⟩
      · obtain ⟨other, among, isLast⟩ := List.mem_map.mp (last_mem single entry.1)
        have above := (sorted.1 other (List.mem_append_left _ among)).1
        simp only [last] at zero
        omega
  obtain ⟨earlier, later⟩ := missing.around
  have own := good.inside gap (by simp)
  have isLow := good.inside (0, low) (by simp)
  have ends := earlier (0, low) (by simp)
  simp only at isLow ends
  have top : 8 * gap.1 < bound total received :=
    ((missing.bytes (8 * gap.1)).mp ⟨gap, by simp, le_refl _, own.1⟩).1
  refine safe ⟨new, low, by omega, by omega, ?_, ?_⟩
  · intro p under
    exact @Missing.uncovered _ _ _ (0, low) missing (by simp) p (by simp) under
  · intro p above under
    by_contra uncovered
    have inGaps := (missing.bytes p).mpr ⟨by omega, uncovered⟩
    rw [List.singleton_append, inGaps_cons, inGaps_cons] at inGaps
    rcases inGaps with ⟨-, high⟩ | ⟨low', -⟩ | ⟨other, among, low', -⟩
    · simp only at high
      omega
    · omega
    · have := later other among
      omega

/-- The bytes in the gaps after a new fragment. -/
theorem Missing.cut_bytes (new : fragment ∉ received) (split : gaps = before ++ gap :: after)
    (hits : Hits before gap fragment.block fragment.length) (p : Nat) :
    InGaps (before ++ (cut gap fragment ++ after)) p ↔
      p < bound total (received ++ [fragment]) ∧ ¬Covered (received ++ [fragment]) p := by
  obtain ⟨starts, ends⟩ := missing.new_inside division fits known member good new split hits
  have lastIs (isLast : fragment.more = false) :=
    missing.new_last division fits known member good new isLast split hits
  have aligned := division.aligned fragment member
  subst split
  obtain ⟨earlier, later⟩ := missing.around
  have old := missing.bytes p
  rw [inGaps_append, inGaps_cons] at old
  rw [inGaps_append, inGaps_append, inGaps_cut starts ends aligned, covered_append, not_or]
  have low : InGaps before p → p < 8 * fragment.block := by
    rintro ⟨other, among, -, high⟩
    have := earlier other among
    omega
  have high : InGaps after p → fragment.stop ≤ p := by
    rintro ⟨other, among, above, -⟩
    have := later other among
    omega
  have free : InGaps before p ∨ InGaps after p → ¬fragment.Has p := by
    rintro (isLow | isHigh) has
    · exact absurd has.1 (Nat.not_le.mpr (low isLow))
    · exact absurd has.2 (Nat.not_lt.mpr (high isHigh))
  cases more : fragment.more with
  | true =>
    rw [bound_append_more total received more]
    constructor
    · rintro (isLow | ⟨above, under, notIn, -⟩ | isHigh)
      · have both := old.mp (.inl isLow)
        exact ⟨both.1, both.2, free (.inl isLow)⟩
      · have both := old.mp (.inr (.inl ⟨above, under⟩))
        exact ⟨both.1, both.2, notIn⟩
      · have both := old.mp (.inr (.inr isHigh))
        exact ⟨both.1, both.2, free (.inr isHigh)⟩
    · rintro ⟨inside, uncovered, notIn⟩
      rcases old.mpr ⟨inside, uncovered⟩ with isLow | ⟨above, under⟩ | isHigh
      · exact .inl isLow
      · exact .inr (.inl ⟨above, under, notIn, .inl rfl⟩)
      · exact .inr (.inr isHigh)
  | false =>
    obtain ⟨rfl, isOpen⟩ := lastIs more
    have stop := (division.final fragment member).mp more
    have room : ipMaxudp < 65535 := by decide
    rw [isOpen] at old
    rw [bound_append_last total received more]
    constructor
    · rintro (isLow | ⟨above, under, notIn, inside⟩ | isHigh)
      · have below := low isLow
        unfold Fragment.stop at stop
        exact ⟨by omega, (old.mp (.inl isLow)).2, free (.inl isLow)⟩
      · rcases inside with never | inside
        · cases never
        · exact ⟨by omega, (old.mp (.inr (.inl ⟨above, under⟩))).2, notIn⟩
      · exact absurd isHigh (not_inGaps_nil p)
    · rintro ⟨inside, uncovered, notIn⟩
      rcases old.mpr ⟨by omega, uncovered⟩ with isLow | ⟨above, under⟩ | isHigh
      · exact .inl isLow
      · exact .inr (.inl ⟨above, under, notIn, .inr (by omega)⟩)
      · exact absurd isHigh (not_inGaps_nil p)

/-- The gaps after a new fragment are the bytes that are still missing. -/
theorem Missing.cut (new : fragment ∉ received) (split : gaps = before ++ gap :: after)
    (hits : Hits before gap fragment.block fragment.length) :
    Missing total (received ++ [fragment]) (before ++ (cut gap fragment ++ after)) := by
  have bytes := missing.cut_bytes division fits known member good new split hits
  obtain ⟨starts, ends⟩ := missing.new_inside division fits known member good new split hits
  have aligned := division.aligned fragment member
  subst split
  obtain ⟨earlier, later⟩ := missing.around
  refine ⟨?_, ?_, bytes⟩
  · have apart := missing.apart
    rw [List.pairwise_append, List.pairwise_cons] at apart
    rw [List.pairwise_append, List.pairwise_append]
    refine ⟨apart.1, ⟨?_, apart.2.1.2, ?_⟩, ?_⟩
    · unfold Net.cut
      have nonempty := division.nonempty fragment member
      split <;> split <;> simp
      rename_i rest
      have := aligned rest.1
      omega
    · intro other among next isNext
      have := parts_of_cut ends aligned starts among
      have := later next isNext
      omega
    · intro other among next isNext
      have := earlier other among
      rcases List.mem_append.mp isNext with isPart | isLater
      · have := parts_of_cut ends aligned starts isPart
        omega
      · exact apart.2.2 other among next (List.mem_cons_of_mem _ isLater)
  · intro other among
    rcases List.mem_append.mp among with isEarlier | among
    · exact missing.ends other (List.mem_append_left _ isEarlier)
    · rcases List.mem_append.mp among with isPart | isLater
      · have own := missing.ends gap (by simp)
        have := parts_of_cut ends aligned starts isPart
        omega
      · exact missing.ends other (List.mem_append_right _ (List.mem_cons_of_mem _ isLater))

end Step

section Again

variable {total : Nat} {received : List Fragment} {gaps before after : List Gap} {gap : Gap}
  {fragment : Fragment} (good : GoodGaps gaps) (missing : Missing total received gaps)
  (again : fragment ∈ received)
include missing again

theorem Missing.append_again : Missing total (received ++ [fragment]) gaps := by
  refine ⟨missing.apart, missing.ends, ?_⟩
  intro p
  rw [missing.bytes p, bound_append_again total again, covered_append_again again]

include good

theorem Missing.again_behind (nonempty : 0 < fragment.length)
    (split : gaps = before ++ gap :: after)
    (hits : Hits before gap fragment.block fragment.length) :
    gap.2 = 8 * fragment.block ∧ gap.1 < fragment.block := by
  subst split
  have own := (good.inside gap (by simp)).1
  have free {p : Nat} (low : 8 * gap.1 ≤ p) (high : p < gap.2) : ¬fragment.Has p := by
    intro has
    exact missing.uncovered (by simp) low high ⟨fragment, again, has⟩
  have here := hits.here
  have overlaps := hits.overlaps
  have atStart := @free (8 * fragment.block)
  have atGap := @free (8 * gap.1) (le_refl _) own
  unfold Fragment.Has Fragment.stop at *
  omega

theorem Missing.again_harmless (nonempty : 0 < fragment.length) :
    HarmlessStep gaps fragment.block fragment.length fragment.more := by
  intro before gap after split hits
  obtain ⟨ends, low⟩ := missing.again_behind good again nonempty split hits
  constructor
  · intro later isLater
    subst split
    have next := missing.around.2 later isLater
    have own := (good.inside later (by simp [isLater])).1
    have free : ¬fragment.Has (8 * later.1) := by
      intro has
      exact missing.uncovered (by simp [isLater]) (le_refl _) own ⟨fragment, again, has⟩
    unfold Fragment.Has Fragment.stop at free
    omega
  · intro _ rest
    omega

theorem Missing.again_step (nonempty : 0 < fragment.length) :
    gapStep gaps fragment.block fragment.length fragment.more = .same ∨
      gapStep gaps fragment.block fragment.length fragment.more = .changed gaps := by
  rcases gapStep_cases gaps fragment.block fragment.length fragment.more with
    same | ⟨before, gap, after, split, hits⟩
  · exact .inl same
  · obtain ⟨ends, low⟩ := missing.again_behind good again nonempty split hits
    subst split
    right
    rw [gapStep_eq _ hits]
    unfold gapChange
    have notWhole : ¬fragment.block ≤ gap.1 := by omega
    have reaches : (if fragment.more = true then gap.2
        else 8 * fragment.block + fragment.length) ≤ 8 * fragment.block + fragment.length := by
      split <;> omega
    simp only [notWhole, false_and, ↓reduceIte, reaches]
    rw [← ends]

end Again

theorem Missing.node_uncovered {total : Nat} {received : List Fragment} {gaps : List Gap}
    (missing : Missing total received gaps) (good : GoodGaps gaps) {j p : Nat}
    (member : j ∈ gaps.map Prod.fst) (inside : InNode j (ipHdrSize + p)) :
    ¬Covered received p := by
  obtain ⟨gap, among, rfl⟩ := List.mem_map.mp member
  have ends := missing.ends gap among
  have own := good.inside gap among
  have room : ipMaxudp + 8 < 65536 := by decide
  unfold InNode payload at inside
  exact missing.uncovered among (by omega) (by omega)

theorem Missing.complete {total : Nat} {fragments received : List Fragment}
    (missing : Missing total received []) (division : Division total fragments)
    (fits : total ≤ ipMaxudp) (known : ∀ other ∈ received, other ∈ fragments) :
    bound total received = total ∧ ∀ p < total, Covered received p := by
  have all {p : Nat} (inside : p < bound total received) : Covered received p := by
    by_contra uncovered
    exact not_inGaps_nil p ((missing.bytes p).mpr ⟨inside, uncovered⟩)
  have closed : bound total received = total := by
    by_contra isOpen
    have room : ipMaxudp < 65534 := by decide
    have top : bound total received = 65535 := by
      unfold bound at isOpen ⊢
      split at isOpen
      · exact absurd rfl isOpen
      · rename_i noLast
        exact if_neg noLast
    obtain ⟨other, among, -, high⟩ := all (show 65534 < bound total received by omega)
    have := division.inside other (known other among)
    omega
  exact ⟨closed, fun p inside => all (by omega)⟩

/-! ## The call -/

/-- What the static variables hold while a datagram is put together. -/
structure Assembling (content : List UInt8) (id : Nat) (received : List Fragment)
    (state : Reassembly) (gaps : List Gap) : Prop where
  tracks : Tracks state gaps
  missing : Missing content.length received gaps
  id : state.pktBuff.half 4 = id
  /-- The length is known once the last fragment has been received. -/
  totalLen : state.totalLen = bound content.length received
  data : ∀ p (inside : p < content.length), Covered received p →
    state.pktBuff (ipHdrSize + p) = content[p]

/-- What a call leaves: more is missing, or the packet is complete and returned. -/
def Progress (content : List UInt8) (id : Nat) (received : List Fragment) (outcome : Outcome) :
    Prop :=
  (outcome.returned = none ∧ ∃ gaps, Assembling content id received outcome.state gaps) ∨
    ((∀ p < content.length, Covered received p) ∧
      outcome.returned = some (content.length + ipHdrSize) ∧
      outcome.state.pktBuff.load ipHdrSize content.length = content)

theorem Arrival.Carries.byte {arrival : Arrival} {id : Nat} {content : List UInt8}
    (carries : arrival.Carries id content) {p : Nat} (has : arrival.fragment.Has p)
    (inside : p < content.length) :
    arrival.frame (arrival.ip + ipHdrSize + (p - 8 * arrival.fragment.block)) = content[p] := by
  obtain ⟨low, high⟩ := has
  unfold Fragment.stop at high
  have bytes := congrArg (fun list => list[p - 8 * arrival.fragment.block]?) carries.data
  simp only [Memory.load, List.getElem?_map, List.getElem?_take, List.getElem?_drop,
    List.getElem?_range (show p - 8 * arrival.fragment.block < arrival.fragment.length by omega),
    Option.map_some, if_pos (show p - 8 * arrival.fragment.block < arrival.fragment.length by omega),
    show 8 * arrival.fragment.block + (p - 8 * arrival.fragment.block) = p by omega,
    List.getElem?_eq_getElem inside, Option.some.injEq] at bytes
  exact bytes

section Call

variable {content : List UInt8} {id : Nat} {fragments received : List Fragment}
  {state : Reassembly} {gaps : List Gap} {arrival : Arrival}

/-- The header and the data after a call that adds a fragment. -/
theorem Assembling.added {new : List Gap} {outcome : Outcome}
    (assembling : Assembling content id received state gaps) (carries : arrival.Carries id content)
    (added : Added state arrival.frame arrival.ip arrival.fragment.block arrival.fragment.length
      arrival.fragment.more gaps new outcome) (good : GoodGaps new)
    (missing : Missing content.length (received ++ [arrival.fragment]) new) :
    outcome.state.pktBuff.half 4 = id ∧
      ∀ p (inside : p < content.length), Covered (received ++ [arrival.fragment]) p →
        outcome.state.pktBuff (ipHdrSize + p) = content[p] := by
  constructor
  · rw [added.id, assembling.id]
  · intro p inside covered
    by_cases has : arrival.fragment.Has p
    · have low := has.1
      have address : payload arrival.fragment.block + (p - 8 * arrival.fragment.block) =
          ipHdrSize + p := by
        unfold payload
        omega
      have offset : p - 8 * arrival.fragment.block < arrival.fragment.length := by
        have high := has.2
        unfold Fragment.stop at high
        omega
      rw [← address, added.data _ offset, carries.byte has inside]
    · have old : Covered received p := by
        rcases (covered_append received arrival.fragment p).mp covered with old | own
        · exact old
        · exact absurd own has
      rw [← assembling.data p inside old]
      apply added.frame
      · unfold ipHdrSize
        omega
      · unfold ipHdrSize
        omega
      · intro j member inNode
        rw [List.map_append] at member
        rcases List.mem_append.mp member with isOld | isNew
        · exact assembling.missing.node_uncovered assembling.tracks.toGoodGaps isOld inNode old
        · exact missing.node_uncovered good isNew inNode covered
      · intro both
        apply has
        unfold Fragment.Has Fragment.stop
        unfold payload at both
        omega

variable (division : Division content.length fragments) (fits : content.length ≤ ipMaxudp)
  (known : ∀ other ∈ received, other ∈ fragments) (member : arrival.fragment ∈ fragments)
  (carries : arrival.Carries id content) (safe : ¬LosesFirstHole received arrival.fragment)
  (assembling : Assembling content id received state gaps)
include division fits known member carries safe assembling

/-- A fragment of the datagram makes progress. -/
theorem Assembling.netReassemble : ∃ outcome,
    Net.netReassemble state arrival.frame arrival.ip = some outcome ∧
      Progress content id (received ++ [arrival.fragment]) outcome := by
  have good := assembling.tracks.toGoodGaps
  have inside := division.inside arrival.fragment member
  have nonempty := division.nonempty arrival.fragment member
  have knownToo : ∀ other ∈ received ++ [arrival.fragment], other ∈ fragments := by
    intro other among
    rcases List.mem_append.mp among with old | own
    · exact known other old
    · exact List.mem_singleton.mp own ▸ member
  have stops : 8 * arrival.fragment.block + arrival.fragment.length ≤ ipMaxudp := by
    unfold Fragment.stop at inside
    omega
  have length {new : List Gap} {outcome : Outcome}
      (added : Added state arrival.frame arrival.ip arrival.fragment.block arrival.fragment.length
        arrival.fragment.more gaps new outcome) :
      outcome.state.totalLen = bound content.length (received ++ [arrival.fragment]) := by
    rw [added.totalLen]
    cases more : arrival.fragment.more with
    | true => rw [if_pos rfl, bound_append_more _ _ more, assembling.totalLen]
    | false =>
      rw [if_neg Bool.false_ne_true, bound_append_last _ _ more]
      exact (division.final arrival.fragment member).mp more
  by_cases again : arrival.fragment ∈ received
  · have missing := assembling.missing.append_again again
    obtain ⟨outcome, called, follows⟩ := assembling.tracks.netReassemble carries.header stops
      (assembling.missing.again_harmless good again nonempty)
    refine ⟨outcome, called, .inl ?_⟩
    rcases assembling.missing.again_step good again nonempty with same | changed
    · rw [same] at follows
      obtain ⟨sameState, returned, -⟩ := follows
      refine ⟨returned, gaps, ?_⟩
      rw [sameState]
      refine ⟨assembling.tracks, missing, assembling.id, ?_, ?_⟩
      · rw [bound_append_again _ again, assembling.totalLen]
      · intro p inside covered
        exact assembling.data p inside ((covered_append_again again p).mp covered)
    · rw [changed] at follows
      obtain ⟨returned, tracks, added⟩ := follows
      obtain ⟨sameId, data⟩ := assembling.added carries added tracks.toGoodGaps missing
      exact ⟨returned, gaps, tracks, missing, sameId, length added, data⟩
  · obtain ⟨before, gap, after, split, hits⟩ :=
      assembling.missing.new_hits division fits known member good again
    obtain ⟨starts, ends⟩ :=
      assembling.missing.new_inside division fits known member good again split hits
    have missing := assembling.missing.cut division fits known member good again split hits
    have step := @gapChange_cut before after _ _ starts ends
      (assembling.missing.new_linked division fits known member good again safe split hits)
    obtain ⟨outcome, called, follows⟩ := assembling.tracks.netReassemble carries.header stops
      (assembling.missing.new_harmless division fits known member good again)
    refine ⟨outcome, called, ?_⟩
    rw [split, gapStep_eq _ hits, step, ← split] at follows
    split at follows
    · rename_i empty
      rw [empty] at missing
      obtain ⟨returned, added⟩ := follows
      obtain ⟨-, data⟩ := assembling.added carries added ⟨List.Pairwise.nil, by simp⟩ missing
      obtain ⟨sameBound, complete⟩ := missing.complete division fits knownToo
      refine .inr ⟨complete, ?_, ?_⟩
      · rw [returned, length added, sameBound]
      · exact Memory.Holds.load fun p inside => data p inside (complete p inside)
    · obtain ⟨returned, tracks, added⟩ := follows
      obtain ⟨sameId, data⟩ := assembling.added carries added tracks.toGoodGaps missing
      exact .inl ⟨returned, _, tracks, missing, sameId, length added, data⟩

end Call

theorem Assembling.incomplete {content : List UInt8} {id : Nat} {fragments received : List Fragment}
    {state : Reassembly} {gaps : List Gap} (assembling : Assembling content id received state gaps)
    (division : Division content.length fragments) (positive : 0 < content.length) :
    ∃ fragment ∈ fragments, fragment ∉ received := by
  obtain ⟨gap, member⟩ := List.exists_mem_of_ne_nil _ assembling.tracks.nonempty
  have own := (assembling.tracks.inside gap member).1
  obtain ⟨under, uncovered⟩ := (assembling.missing.bytes (8 * gap.1)).mp
    ⟨gap, member, le_refl _, own⟩
  by_cases closed : ∃ fragment ∈ received, fragment.more = false
  · rw [bound, if_pos closed] at under
    obtain ⟨fragment, among, has⟩ := division.covers _ under
    exact ⟨fragment, among, fun isReceived => uncovered ⟨fragment, isReceived, has⟩⟩
  · obtain ⟨fragment, among, low, high⟩ := division.covers (content.length - 1) (by omega)
    have inside := division.inside fragment among
    have isLast := (division.final fragment among).mpr (by omega)
    exact ⟨fragment, among, fun isReceived => closed ⟨fragment, isReceived, isLast⟩⟩

theorem Division.all_received {total : Nat} {fragments received : List Fragment}
    (division : Division total fragments) (known : ∀ other ∈ received, other ∈ fragments)
    (complete : ∀ p < total, Covered received p) : ∀ fragment ∈ fragments, fragment ∈ received := by
  intro fragment member
  have has := division.has_start member
  have inside := division.inside fragment member
  obtain ⟨other, among, hasToo⟩ := complete _ (Nat.lt_of_lt_of_le has.2 inside)
  rw [division.disjoint fragment member other (known other among) _ has hasToo]
  exact among

/-- The static variables are those of another packet, or of this one. -/
def Ready (content : List UInt8) (id : Nat) (received : List Fragment) (state : Reassembly) : Prop :=
  (received = [] ∧ (state.totalLen = 0 ∨ state.pktBuff.half 4 ≠ id)) ∨
    ∃ gaps, Assembling content id received state gaps

theorem assembling_resetHoles (content : List UInt8) (state : Reassembly) (frame : Memory)
    (ip : Nat) :
    Assembling content (frame.half (ip + 4)) [] (resetHoles state frame ip) [(0, 65535)] := by
  refine ⟨tracks_resetHoles state frame ip, ⟨List.pairwise_singleton _ _, by simp, ?_⟩, ?_, ?_, ?_⟩
  · intro p
    simp [inGaps_cons, not_inGaps_nil, bound, Covered]
  · exact half_resetHoles state frame ip
  · simp [resetHoles, bound]
  · rintro p - ⟨fragment, member, -⟩
    cases member

section Run

variable {content : List UInt8} {id : Nat} {fragments received : List Fragment}
  {state : Reassembly} {arrival : Arrival}
  (division : Division content.length fragments) (fits : content.length ≤ ipMaxudp)
include division fits

/-- A call with a fragment of the datagram makes progress. -/
theorem Ready.netDefragment (ready : Ready content id received state)
    (known : ∀ other ∈ received, other ∈ fragments) (member : arrival.fragment ∈ fragments)
    (carries : arrival.Carries id content) (safe : ¬LosesFirstHole received arrival.fragment) :
    ∃ outcome, Net.netDefragment state arrival.frame arrival.ip = some outcome ∧
      Progress content id (received ++ [arrival.fragment]) outcome := by
  have inside := division.inside arrival.fragment member
  have nonempty := division.nonempty arrival.fragment member
  have near : ¬((ntohs arrival.frame (arrival.ip + 6) % 0x2000 * 8 : Nat) : Int) +
        ((ntohs arrival.frame (arrival.ip + 2) : Int) - ipHdrSize) < 0 ∧
      ¬(ipMaxudp : Int) < (ntohs arrival.frame (arrival.ip + 6) % 0x2000 * 8 : Nat) +
        ((ntohs arrival.frame (arrival.ip + 2) : Int) - ipHdrSize) := by
    rw [carries.header.offset, carries.header.length]
    unfold Fragment.stop at inside
    omega
  unfold Net.netDefragment
  simp only [near, or_self, ↓reduceIte]
  rcases ready with ⟨rfl, fresh⟩ | ⟨gaps, assembling⟩
  · have again : restarts state arrival.frame arrival.ip = true := by
      simp only [restarts, carries.id, decide_eq_true_eq]
      exact fresh
    have reset := assembling_resetHoles content state arrival.frame arrival.ip
    rw [carries.id] at reset
    obtain ⟨outcome, called, progress⟩ :=
      reset.netReassemble division fits (by simp) member carries safe
    rw [if_pos again, called]
    exact ⟨_, rfl, progress⟩
  · have going : ¬restarts state arrival.frame arrival.ip = true := by
      simp only [restarts, carries.id, assembling.id, assembling.totalLen, decide_eq_true_eq,
        ne_eq, not_true_eq_false, or_false, bound]
      unfold Fragment.stop at inside
      split <;> omega
    rw [if_neg going]
    exact assembling.netReassemble division fits known member carries safe

/-- The calls before the last missing fragment return `NULL`. -/
theorem Ready.netDefragmentAll (ready : Ready content id received state)
    (known : ∀ other ∈ received, other ∈ fragments) {early : List Arrival}
    (carried : ∀ arrival ∈ early, arrival.fragment ∈ fragments ∧ arrival.Carries id content)
    (safe : KeepsFirstHole received (early.map Arrival.fragment))
    (missing : ∃ fragment ∈ fragments, fragment ∉ received ++ early.map Arrival.fragment) :
    ∃ middle, Net.netDefragmentAll state early = some (middle, early.map fun _ => none) ∧
      Ready content id (received ++ early.map Arrival.fragment) middle := by
  induction early generalizing received state with
  | nil => exact ⟨state, rfl, by simpa using ready⟩
  | cons arrival later ih =>
    obtain ⟨member, carries⟩ := carried arrival (List.mem_cons_self ..)
    obtain ⟨outcome, called, progress⟩ :=
      ready.netDefragment division fits known member carries safe.1
    have knownToo : ∀ other ∈ received ++ [arrival.fragment], other ∈ fragments := by
      intro other among
      rcases List.mem_append.mp among with old | own
      · exact known other old
      · exact List.mem_singleton.mp own ▸ member
    have list : received ++ (arrival :: later).map Arrival.fragment =
        (received ++ [arrival.fragment]) ++ later.map Arrival.fragment := by
      simp
    rw [list] at missing ⊢
    rcases progress with ⟨returned, gaps, assembling⟩ | ⟨complete, -⟩
    · obtain ⟨middle, run, readyToo⟩ := ih (.inr ⟨gaps, assembling⟩) knownToo
        (fun other among => carried other (List.mem_cons_of_mem _ among)) safe.2 missing
      refine ⟨middle, ?_, readyToo⟩
      rw [Net.netDefragmentAll, called, Option.bind_some, run, returned]
      rfl
    · obtain ⟨fragment, among, absent⟩ := missing
      have isReceived := division.all_received knownToo complete fragment among
      exact absurd (List.mem_append_left _ isReceived) absent

end Run

theorem keepsFirstHole_append (received early : List Fragment) (fragment : Fragment) :
    KeepsFirstHole received (early ++ [fragment]) ↔
      KeepsFirstHole received early ∧ ¬LosesFirstHole (received ++ early) fragment := by
  induction early generalizing received with
  | nil => simp [KeepsFirstHole]
  | cons first early ih =>
    rw [List.cons_append, KeepsFirstHole, KeepsFirstHole, ih, and_assoc]
    simp

/-- The calls for the fragments of a datagram return `NULL` until the last missing one arrives, and
that call returns the payload: in any order and with any fragment repeated, as long as no new
fragment arrives right behind the lowest part received while the bytes before that part are missing.
-/
theorem netDefragment_reassembles {content : List UInt8} {id : Nat} {fragments : List Fragment}
    (division : Division content.length fragments) (fits : content.length ≤ ipMaxudp)
    {state : Reassembly} (fresh : state.totalLen = 0 ∨ state.pktBuff.half 4 ≠ id)
    {early : List Arrival} {last : Arrival}
    (carried : ∀ arrival ∈ early ++ [last],
      arrival.fragment ∈ fragments ∧ arrival.Carries id content)
    (missing : ∃ fragment ∈ fragments, fragment ∉ early.map Arrival.fragment)
    (complete : ∀ fragment ∈ fragments, fragment ∈ (early ++ [last]).map Arrival.fragment)
    (safe : KeepsFirstHole [] ((early ++ [last]).map Arrival.fragment)) :
    Reassembles state early last content := by
  have ready : Ready content id [] state := .inl ⟨rfl, fresh⟩
  obtain ⟨member, carries⟩ := carried last (by simp)
  have carriedEarly : ∀ arrival ∈ early,
      arrival.fragment ∈ fragments ∧ arrival.Carries id content :=
    fun arrival among => carried arrival (List.mem_append_left _ among)
  have known : ∀ other ∈ early.map Arrival.fragment, other ∈ fragments := by
    intro other among
    obtain ⟨arrival, isEarly, rfl⟩ := List.mem_map.mp among
    exact (carriedEarly arrival isEarly).1
  rw [List.map_append, List.map_singleton] at complete safe
  obtain ⟨safeEarly, safeLast⟩ := (keepsFirstHole_append [] _ _).mp safe
  obtain ⟨middle, run, readyLast⟩ :=
    ready.netDefragmentAll division fits (by simp) carriedEarly safeEarly missing
  rw [List.nil_append] at readyLast safeLast
  obtain ⟨outcome, called, progress⟩ :=
    readyLast.netDefragment division fits known member carries safeLast
  rcases progress with ⟨-, gaps, assembling⟩ | ⟨-, returned, payload⟩
  · have positive : 0 < content.length := by
      have inside := division.inside last.fragment member
      have nonempty := division.nonempty last.fragment member
      unfold Fragment.stop at inside
      omega
    obtain ⟨fragment, among, absent⟩ := assembling.incomplete division positive
    exact absurd (complete fragment among) absent
  · exact ⟨middle, outcome, run, called, returned, payload⟩

/-! ## Three fragments -/

/-- A packet with id 1 that carries a fragment of the payload. -/
def packetOf (content : List UInt8) (fragment : Fragment) : Arrival :=
  let ipLen := ipHdrSize + fragment.length
  let ipOff := fragment.block + if fragment.more then 0x2000 else 0
  ⟨Memory.blank.store 0 ([0x45, 0, UInt8.ofNat (ipLen / 256), UInt8.ofNat ipLen, 0, 1,
      UInt8.ofNat (ipOff / 256), UInt8.ofNat ipOff, 64, 17, 0, 0] ++ List.replicate 8 0 ++
      (content.drop (8 * fragment.block)).take fragment.length), 0, fragment⟩

/-- The static variables before the first packet. -/
def noPacketYet : Reassembly := ⟨Memory.blank, 0, 0⟩

/-- A payload of 20 bytes. -/
def twentyBytes : List UInt8 := (List.range 20).map UInt8.ofNat

def threeFragments : List Fragment := [⟨0, 8, true⟩, ⟨1, 8, true⟩, ⟨2, 4, false⟩]

theorem division_threeFragments : Division twentyBytes.length threeFragments := by
  have length : twentyBytes.length = 20 := rfl
  rw [length]
  refine ⟨by decide, by decide, by decide, by decide, ?_, ?_⟩
  · intro p inside
    simp only [threeFragments, List.mem_cons, List.not_mem_nil, or_false, exists_eq_or_imp,
      exists_eq_left, Fragment.Has, Fragment.stop]
    omega
  · intro fragment member other memberToo p
    simp only [threeFragments, List.mem_cons, List.not_mem_nil, or_false] at member memberToo
    unfold Fragment.Has Fragment.stop
    rcases member with rfl | rfl | rfl <;> rcases memberToo with rfl | rfl | rfl <;> simp <;> omega

theorem carries_packetOf {fragment : Fragment} (member : fragment ∈ threeFragments) :
    (packetOf twentyBytes fragment).Carries 256 twentyBytes := by
  simp only [threeFragments, List.mem_cons, List.not_mem_nil, or_false] at member
  rcases member with rfl | rfl | rfl
  · exact ⟨⟨by decide +kernel, by decide +kernel, by decide +kernel⟩, by decide +kernel,
      by decide +kernel⟩
  · exact ⟨⟨by decide +kernel, by decide +kernel, by decide +kernel⟩, by decide +kernel,
      by decide +kernel⟩
  · exact ⟨⟨by decide +kernel, by decide +kernel, by decide +kernel⟩, by decide +kernel,
      by decide +kernel⟩

theorem not_losesFirstHole {received : List Fragment} (first : Covered received 0)
    (fragment : Fragment) : ¬LosesFirstHole received fragment := by
  rintro ⟨-, low, positive, -, uncovered, -⟩
  exact uncovered 0 positive first

/-- The fragments arrive from the end, and the last one twice. -/
theorem netDefragment_reassembles_backwards : Reassembles noPacketYet
    [packetOf twentyBytes ⟨2, 4, false⟩, packetOf twentyBytes ⟨0, 8, true⟩,
      packetOf twentyBytes ⟨2, 4, false⟩] (packetOf twentyBytes ⟨1, 8, true⟩) twentyBytes := by
  have first {received : List Fragment} : Covered (⟨2, 4, false⟩ :: ⟨0, 8, true⟩ :: received) 0 :=
    ⟨⟨0, 8, true⟩, by simp, by decide, by decide⟩
  apply @netDefragment_reassembles twentyBytes 256 threeFragments division_threeFragments (by decide)
    noPacketYet (.inl rfl)
  · intro arrival member
    simp only [List.cons_append, List.nil_append, List.mem_cons, List.not_mem_nil, or_false]
      at member
    rcases member with rfl | rfl | rfl | rfl
    · exact ⟨by decide, carries_packetOf (by decide)⟩
    · exact ⟨by decide, carries_packetOf (by decide)⟩
    · exact ⟨by decide, carries_packetOf (by decide)⟩
    · exact ⟨by decide, carries_packetOf (by decide)⟩
  · exact ⟨⟨1, 8, true⟩, by decide, by decide⟩
  · decide
  · refine ⟨?_, ?_, not_losesFirstHole first _, not_losesFirstHole first _, trivial⟩
    · rintro ⟨-, low, positive, under, uncovered, covered⟩
      obtain ⟨fragment, member, -⟩ := covered low (le_refl low) under
      cases member
    · rintro ⟨-, low, positive, under, -⟩
      exact absurd under (by simp [packetOf])

/-- The fragments arrive with the first one at the end: the packet is returned without it. -/
theorem netDefragment_returns_early :
    Division twentyBytes.length threeFragments ∧ twentyBytes.length ≤ ipMaxudp ∧
      (∀ fragment ∈ threeFragments, (packetOf twentyBytes fragment).Carries 256 twentyBytes) ∧
      (netDefragmentAll noPacketYet
          [packetOf twentyBytes ⟨1, 8, true⟩, packetOf twentyBytes ⟨2, 4, false⟩]).map Prod.snd =
        some [none, some 40] ∧
      ¬Reassembles noPacketYet
        [packetOf twentyBytes ⟨1, 8, true⟩, packetOf twentyBytes ⟨2, 4, false⟩]
        (packetOf twentyBytes ⟨0, 8, true⟩) twentyBytes := by
  have early : (netDefragmentAll noPacketYet
      [packetOf twentyBytes ⟨1, 8, true⟩, packetOf twentyBytes ⟨2, 4, false⟩]).map Prod.snd =
        some [none, some 40] := by
    decide +kernel
  refine ⟨division_threeFragments, by decide, fun _ member => carries_packetOf member, early, ?_⟩
  rintro ⟨middle, outcome, run, -⟩
  rw [run] at early
  simp at early

end HrppBoot.Net
