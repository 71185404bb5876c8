import HrppBoot.Flash.NandTransfer

/-!
# What is written around bad blocks is read back

`nand_write_skip_bad` and `nand_read_skip_bad` do what they promise exactly where the 32-bit
counters hold the span of the data and the 32-bit masks of the loops find its bad blocks.
-/

namespace HrppBoot.Flash

namespace NandInfo

variable {nand : NandInfo} {flags : Flags} {p n left offset length pos : Nat}

/-! ## What a write that goes well shows -/

inductive WriteTurn (nand : NandInfo) (flags : Flags) (fuel p left pos : Nat)
    (state after : Written) : Prop
  | done (empty : left = 0)
  | skipped (marked : nand.blockIsbad (nand.blockStart32 p) = true)
      (next : ∃ l, nand.writeLoop flags (fun _ => 0) fuel (p + nand.restOfBlock p) left pos state =
        some (0, l, after))
  | wrote (k : Nat) (size : k = min left (nand.restOfBlock p)) (between : Written)
      (unmarked : nand.blockIsbad (nand.blockStart32 p) = false)
      (call : (p, k) ∈ between.writes) (verify : flags.wrVerify = true → p + k < 2 ^ 32)
      (next : ∃ l, nand.writeLoop flags (fun _ => 0) fuel (p + k) (left - k) (pos + k) between =
        some (0, l, after))

variable {after state : Written} {fuel l : Nat}

theorem writeTurn
    (run : nand.writeLoop flags (fun _ => 0) (fuel + 1) p left pos state = some (0, l, after)) :
    nand.WriteTurn flags fuel p left pos state after := by
  rw [writeLoop] at run
  by_cases empty : left = 0
  · exact .done empty
  · rw [if_neg empty] at run
    dsimp only at run
    cases mark : nand.blockIsbad (nand.blockStart32 p) with
    | true =>
      rw [mark, if_pos rfl] at run
      exact .skipped mark ⟨l, run⟩
    | false =>
      rw [mark, if_neg Bool.false_ne_true] at run
      simp only [dropFfs_zero, ite_self] at run
      split at run
      · cases run
      · next ret between written =>
        by_cases failed : ret ≠ 0
        · rw [if_pos failed] at run
          cases run
          exact absurd rfl failed
        · rw [if_neg failed] at run
          obtain rfl := not_not.mp failed
          obtain ⟨calls, -, verify⟩ := writeVerified_ok written
          refine .wrote _ ?_ between mark ?_ verify ⟨l, run⟩
          · rw [restOfBlock]
            split <;> omega
          · rw [calls]
            exact List.mem_append_right _ (List.mem_singleton_self _)

theorem writeLoop_writes {buffer : Nat → UInt8} {ret : Int}
    (run : nand.writeLoop flags buffer fuel p left pos state = some (ret, l, after)) :
    state.writes ⊆ after.writes := by
  induction fuel generalizing p left pos state with
  | zero => cases run
  | succ fuel ih =>
    rw [writeLoop] at run
    split at run
    · cases run
      exact fun _ => id
    · dsimp only at run
      split at run
      · exact ih run
      · split at run
        · cases run
        · next written =>
          split at run
          · cases run
            exact writeVerified_writes written
          · exact List.Subset.trans (writeVerified_writes written) (ih run)

theorem writeLoop_room {low high : Nat}
    (run : nand.writeLoop flags (fun _ => 0) fuel p left pos state = some (0, l, after))
    (good : ∀ write ∈ after.writes, nand.WritesGood low high write) :
    left = 0 ∨ nand.goodBelow p + left ≤ nand.goodBelow high := by
  induction fuel generalizing p left pos state l with
  | zero => cases run
  | succ fuel ih =>
    cases writeTurn run with
    | done empty => exact .inl empty
    | skipped marked next =>
      obtain ⟨l', next⟩ := next
      have above := @goodBelow_mono nand p (p + nand.restOfBlock p) (Nat.le_add_right _ _)
      exact (ih next).imp_right fun room => by omega
    | wrote k size between unmarked call verify next =>
      obtain ⟨l', next⟩ := next
      have within := good _ (writeLoop_writes next call)
      by_cases empty : left = 0
      · exact .inl empty
      · have pos' := @restOfBlock_pos nand p
        have first := (within p (Nat.le_refl p) (by dsimp only; omega)).1
        have block := @goodBelow_add nand p k (by omega)
        rw [if_pos first] at block
        have below := (within (p + k - 1) (by dsimp only; omega) (by dsimp only; omega)).2.2
        have above := @goodBelow_mono nand (p + k) high (by omega)
        rcases ih next with all | room
        · exact .inr (by omega)
        · exact .inr (by omega)

theorem blockStart32_eq : nand.blockStart32 p = nand.blockStart p % 2 ^ 32 := by
  have same : p % 2 ^ 32 % nand.erasesize = p % nand.erasesize :=
    Nat.mod_mod_of_dvd p erasesize_dvd
  have less := Nat.mod_le (p % 2 ^ 32) nand.erasesize
  rw [blockStart32, blockStart]
  rw [same] at less ⊢
  omega

theorem blockIsbad_blockStart32 (inside : p < nand.size) :
    nand.blockIsbad (nand.blockStart32 p) = nand.isbad (nand.blockStart32 p) := by
  have small := Nat.mod_le p (2 ^ 32)
  refine if_neg ?_
  unfold blockStart32
  omega

theorem Agrees.cons {k : Nat} (within : k ≤ nand.restOfBlock p)
    (mark : nand.isbad (nand.blockStart32 p) = nand.isbad (nand.blockStart p))
    (behind : nand.Agrees (p + k) (n - k)) : nand.Agrees p n := by
  intro q from_p below
  by_cases first : q < p + k
  · rw [blockStart32_eq, blockStart_eq from_p (by omega), ← blockStart32_eq, mark]
  · exact behind q (by omega) (by omega)

/-- A run that writes a span's data only to its good blocks finds the marks of its blocks. -/
theorem writeLoop_agrees {low : Nat}
    (run : nand.writeLoop flags (fun _ => 0) fuel p left pos state = some (0, l, after))
    (span : nand.IsSpan p left n) (inside : p + n ≤ nand.size)
    (good : ∀ write ∈ after.writes, nand.WritesGood low (p + n) write) :
    nand.Agrees p n ∧ (flags.wrVerify = true → n = 0 ∨ p + n < 2 ^ 32) := by
  induction fuel generalizing p left pos n state l with
  | zero => cases run
  | succ fuel ih =>
    by_cases empty : left = 0
    · subst empty
      obtain rfl := span.empty
      exact ⟨fun q from_p below => by omega, fun _ => .inl rfl⟩
    · have some : 0 < left := Nat.pos_of_ne_zero empty
      have positive := span.positive some
      have rest := @restOfBlock_pos nand p
      have found := @blockIsbad_blockStart32 nand p (by omega)
      cases writeTurn run with
      | done none => exact absurd none empty
      | skipped marked next =>
        obtain ⟨l', next⟩ := next
        -- A good block that is skipped leaves too little room for what is left.
        have bad : nand.good p = false := by
          by_contra isGood
          have block := @goodBelow_add nand p (nand.restOfBlock p) (Nat.le_refl _)
          rw [if_pos (Bool.not_eq_false _ ▸ isGood)] at block
          have room := (writeLoop_room next good).resolve_left empty
          have held := span.holds
          omega
        obtain ⟨beyond, span⟩ := span.skip some bad
        have last : p + nand.restOfBlock p + (n - nand.restOfBlock p) = p + n := by omega
        obtain ⟨agrees, verify⟩ := ih next span (by omega) (by rw [last]; exact good)
        refine ⟨agrees.cons (Nat.le_refl _) ?_, fun on => by have := verify on; omega⟩
        rw [NandInfo.good, Bool.not_eq_false'] at bad
        rw [← found, marked, bad]
      | wrote k size between unmarked call verify next =>
        obtain ⟨l', next⟩ := next
        have within := good _ (writeLoop_writes next call)
        have isGood := (within p (Nat.le_refl p) (by dsimp only; omega)).1
        obtain ⟨k', same, some', most, inside', first, span⟩ := span.transfer empty isGood
        obtain rfl : k' = k := by
          rw [size, ← same]
          split <;> omega
        have last : p + k' + (n - k') = p + n := by omega
        obtain ⟨agrees, verifies⟩ := ih next span (by omega) (by rw [last]; exact good)
        refine ⟨agrees.cons first ?_, fun on => ?_⟩
        · rw [NandInfo.good, Bool.not_eq_true'] at isGood
          rw [← found, unmarked, isGood]
        · have now := verify on
          have later := verifies on
          omega

/-! ## Writing and reading a span -/

/-- A span can be dealt with: the counters hold it and the loops find its bad blocks. -/
structure Manageable (nand : NandInfo) (flags : Flags) (offset length n : Nat) : Prop where
  short : n < 2 ^ 32
  counts : nand.Counts offset length n
  marks : flags.dropFfs = true ∨ nand.HasBad offset n → nand.Agrees offset n
  verify : flags.wrVerify = true → n = 0 ∧ flags.dropFfs = true ∨ offset + n < 2 ^ 32

theorem IsSpan.whole (span : nand.IsSpan offset length n) (good : ¬nand.HasBad offset n) :
    n = length ∧ ∀ i, offset ≤ i → i < offset + n → nand.good i = true := by
  have all (i : Nat) (low : offset ≤ i) (high : i < offset + n) : nand.good i = true := by
    by_contra bad
    exact good ⟨i, low, high, Bool.eq_false_of_not_eq_true bad⟩
  have counted := goodBelow_of_good all
  rw [span.holds] at counted
  exact ⟨by omega, all⟩

theorem goodBelow_whole {i : Nat} (all : ∀ i, offset ≤ i → i < offset + n → nand.good i = true)
    (low : offset ≤ i) (high : i < offset + n) :
    nand.goodBelow i - nand.goodBelow offset = i - offset := by
  have counted := @goodBelow_of_good nand offset (i - offset) fun j from_p below =>
    all j from_p (by omega)
  rw [Nat.add_sub_cancel' low] at counted
  omega

theorem overlaid_whole {flash buffer : Nat → UInt8}
    (all : ∀ i, offset ≤ i → i < offset + n → nand.good i = true) :
    overlaid flash buffer 0 offset n = nand.placed flash buffer 0 offset n := by
  funext i
  unfold overlaid placed
  by_cases inside : offset ≤ i ∧ i < offset + n
  · rw [if_pos inside, if_pos ⟨inside.1, inside.2, all i inside.1 inside.2⟩,
      goodBelow_whole all inside.1 inside.2]
  · rw [if_neg inside, if_neg fun both => inside ⟨both.1, both.2.1⟩]

/-- The good blocks of the device are erased. -/
def Erased (nand : NandInfo) (flash : Nat → UInt8) : Prop :=
  ∀ i < nand.size, nand.good i = true → flash i = 0xff

/-- Writing a span that can be dealt with puts the data into its good blocks. -/
theorem nandWriteSkipBad_spec {flash buffer : Nat → UInt8} {lim : Int}
    (aligned : offset % nand.writesize = 0) (span : nand.IsSpan offset length n)
    (inside : offset + n ≤ nand.size) (manageable : nand.Manageable flags offset length n)
    (fits : n ≤ lim) (erased : nand.Erased flash) :
    ∃ N writes, (∀ write ∈ writes, nand.WritesGood offset (offset + n) write) ∧ ∀ fuel ≥ N,
      nand.nandWriteSkipBad fuel flash offset length lim buffer flags =
        some ⟨0, length, n, ⟨nand.placed flash buffer 0 offset n, writes⟩⟩ := by
  obtain ⟨bad, pass, found⟩ := checkSkipLen_fits span inside manageable.counts
  rw [Nat.mod_eq_of_lt manageable.short] at pass
  simp only [nandWriteSkipBad, if_neg (not_not.mpr aligned), pass, if_neg (Int.not_lt.mpr fits)]
  by_cases simple : (!bad && !flags.dropFfs) = true
  · have ⟨isGood, kept⟩ : bad = false ∧ flags.dropFfs = false := by simpa using simple
    obtain ⟨rfl, all⟩ := span.whole fun has => by rw [found.mpr has] at isGood; cases isGood
    obtain ⟨N, written⟩ := @writeVerified_spec nand buffer offset n 0 flags ⟨flash, []⟩ inside
      (fun i low high => erased i (by omega) (all i low high))
      (fun on => (manageable.verify on).resolve_left fun both => by
        rw [kept] at both
        exact Bool.false_ne_true both.2)
    refine ⟨N, [(offset, n)], ?_, fun fuel enough => ?_⟩
    · intro write member i low high
      obtain rfl := List.mem_singleton.mp member
      exact ⟨all i low high, low, high⟩
    · rw [if_pos simple, written fuel enough, overlaid_whole all]
      rfl
  · have used : flags.dropFfs = true ∨ nand.HasBad offset n := by
      rw [← found]
      cases bad <;> cases drops : flags.dropFfs <;> simp_all
    obtain ⟨N, writes, good, run⟩ := @writeLoop_spec nand buffer offset n 0 length flags
      ⟨flash, []⟩ span inside (manageable.marks used)
      (fun i low high isGood => erased i (by omega) isGood)
      (fun on => (manageable.verify on).imp_left And.left)
    refine ⟨N, writes, good, fun fuel enough => ?_⟩
    rw [if_neg simple, run fuel enough]
    rfl

/-- Reading a span that can be dealt with gets the data from its good blocks. -/
theorem nandReadSkipBad_spec {flash source target : Nat → UInt8} {lim : Int}
    (aligned : offset % nand.writesize = 0) (span : nand.IsSpan offset length n)
    (inside : offset + n ≤ nand.size) (manageable : nand.Manageable flags offset length n)
    (fits : n ≤ lim) :
    ∃ N, ∀ fuel ≥ N,
      nand.nandReadSkipBad fuel (nand.placed flash source 0 offset n) offset length lim target =
        some ⟨0, length, n, fun i => if i < length then source i else target i⟩ := by
  obtain ⟨bad, pass, found⟩ := checkSkipLen_fits span inside manageable.counts
  rw [Nat.mod_eq_of_lt manageable.short] at pass
  simp only [nandReadSkipBad, if_neg (not_not.mpr aligned), pass, if_neg (Int.not_lt.mpr fits)]
  cases bad with
  | false =>
    obtain ⟨rfl, all⟩ := span.whole fun has => Bool.false_ne_true (found.mpr has)
    have reads : ¬(nand.size < offset ∨ nand.size - offset < n) := by omega
    refine ⟨0, fun fuel _ => ?_⟩
    rw [Bool.not_false, if_pos rfl, nandRead, if_neg reads]
    dsimp only
    congr 2
    funext i
    by_cases within : i < n
    · have here : offset ≤ offset + i ∧ offset + i < offset + n := by omega
      rw [if_pos ⟨Nat.zero_le i, by omega⟩, if_pos within, Nat.sub_zero, placed,
        if_pos ⟨here.1, here.2, all _ here.1 here.2⟩, goodBelow_whole all here.1 here.2]
      congr 1
      omega
    · rw [if_neg (by omega), if_neg within]
  | true =>
    obtain ⟨N, run⟩ := @readLoop_spec nand (nand.placed flash source 0 offset n) target offset n 0
      length source span inside (manageable.marks (.inr (found.mp rfl)))
      (fun i low high good => if_pos ⟨low, high, good⟩)
    refine ⟨N, fun fuel enough => ?_⟩
    rw [Bool.not_true, if_neg Bool.false_ne_true, run fuel enough]
    simp only [Nat.zero_le, Nat.zero_add, true_and, Nat.sub_zero]

/-! ## The promise -/

/-- What is promised of writing and reading with a limit: nothing else is written to, `*actual` is
the span of the data, and within the limit all of them are written and read back. -/
structure ReadsBack (nand : NandInfo) (flags : Flags) (offset length : Nat) (lim : Int)
    (flash buffer : Nat → UInt8) (written : WriteResult) : Prop where
  confined : ∀ write ∈ written.state.writes, ∀ i, write.1 ≤ i → i < write.1 + write.2 →
    nand.good i = true ∧ offset ≤ i ∧ i < offset + lim ∧ i < nand.size
  actual : ∀ n, nand.IsSpan offset length n → offset + n ≤ nand.size → written.actual = n
  ret : ∀ n, nand.IsSpan offset length n → offset + n ≤ nand.size → n ≤ lim →
    written.ret = 0 ∧ written.length = length
  reads : ∀ n, nand.IsSpan offset length n → offset + n ≤ nand.size → n ≤ lim → ∀ target,
    ∃ N result, (∀ fuel ≥ N,
        nand.nandReadSkipBad fuel written.state.flash offset length lim target = some result) ∧
      result.ret = 0 ∧ result.length = length ∧ result.actual = n ∧
        ∀ k < length, result.buffer k = buffer k

def Promised (nand : NandInfo) (flags : Flags) (offset length : Nat) : Prop :=
  ∀ (lim : Int) (flash buffer : Nat → UInt8), nand.Erased flash →
    ∃ N written,
      (∀ fuel ≥ N, nand.nandWriteSkipBad fuel flash offset length lim buffer flags =
        some written) ∧
      nand.ReadsBack flags offset length lim flash buffer written

/-- Spans that can be dealt with are enough. -/
theorem promised_of_manageable (aligned : offset % nand.writesize = 0)
    (all : ∀ n, nand.IsSpan offset length n → offset + n ≤ nand.size →
      nand.Manageable flags offset length n) : nand.Promised flags offset length := by
  intro lim flash buffer erased
  by_cases has : ∃ n, nand.IsSpan offset length n ∧ offset + n ≤ nand.size
  · obtain ⟨n, span, inside⟩ := has
    have same (m : Nat) (other : nand.IsSpan offset length m) : n = m :=
      Nat.le_antisymm (other.le span) (span.le other)
    have manageable := all n span inside
    by_cases fits : n ≤ lim
    · obtain ⟨N, writes, good, run⟩ :=
        @nandWriteSkipBad_spec nand flags n offset length flash buffer lim aligned span inside
          manageable fits erased
      refine ⟨N, _, run, ?_, fun m other _ => same m other, fun _ _ _ _ => ⟨rfl, rfl⟩, ?_⟩
      · intro write member i low high
        have within := good write member i low high
        exact ⟨within.1, within.2.1, by omega, by omega⟩
      · intro m other _ _ target
        obtain ⟨M, reads⟩ := @nandReadSkipBad_spec nand flags n offset length flash buffer target
          lim aligned span inside manageable fits
        exact ⟨M, _, reads, rfl, rfl, same m other, fun k less => if_pos less⟩
    · obtain ⟨bad, pass, found⟩ := checkSkipLen_fits span inside manageable.counts
      rw [Nat.mod_eq_of_lt manageable.short] at pass
      refine ⟨0, ⟨-efbig, 0, n, ⟨flash, []⟩⟩, fun fuel _ => ?_, ?_, fun m other _ => same m other,
        fun m other _ within => ?_, fun m other _ within => ?_⟩
      · simp only [nandWriteSkipBad, if_neg (not_not.mpr aligned), pass,
          if_pos (Int.not_le.mp fits)]
      · exact fun write none => absurd none List.not_mem_nil
      · exact absurd (same m other ▸ within) fits
      · exact absurd (same m other ▸ within) fits
  · -- Without a span nothing is written.
    have empty : ∃ N written, (∀ fuel ≥ N,
        nand.nandWriteSkipBad fuel flash offset length lim buffer flags = some written) ∧
        written.state.writes = [] := by
      rcases Nat.eq_zero_or_pos length with rfl | positive
      · have outside : nand.size < offset := by
          by_contra inside
          exact has ⟨0, ⟨rfl, .inl rfl⟩, by omega⟩
        have pass : nand.checkSkipLen offset 0 = some (0, false) := by
          rw [checkSkipLen, checkSkipLoop, if_neg (Nat.not_lt_zero 0)]
          rfl
        simp only [nandWriteSkipBad, if_neg (not_not.mpr aligned), pass]
        by_cases fits : lim < (0 : Nat)
        · exact ⟨0, _, fun fuel _ => if_pos fits, rfl⟩
        · have refused : nand.nandWrite flash offset 0 buffer 0 = none := if_pos (.inl outside)
          cases drops : flags.dropFfs with
          | false =>
            refine ⟨0, ⟨-einval, 0, 0, ⟨flash, []⟩⟩, fun fuel _ => ?_, rfl⟩
            rw [if_neg fits, writeVerified, refused]
            rfl
          | true =>
            refine ⟨1, ⟨0, 0, 0, ⟨flash, []⟩⟩, fun fuel enough => ?_, rfl⟩
            obtain ⟨fuel, rfl⟩ := Nat.exists_eq_add_of_le' enough
            rw [if_neg fits, writeLoop, if_pos rfl]
            rfl
      · refine ⟨0, ⟨-einval, 0, nand.usedAtEnd offset, ⟨flash, []⟩⟩, fun fuel _ => ?_, rfl⟩
        simp only [nandWriteSkipBad, if_neg (not_not.mpr aligned), checkSkipLen_full positive has]
    obtain ⟨N, written, run, none⟩ := empty
    refine ⟨N, written, run, fun write member => ?_, fun n span inside => ?_,
      fun n span inside _ => ?_, fun n span inside _ => ?_⟩
    · rw [none] at member
      exact absurd member List.not_mem_nil
    · exact absurd ⟨n, span, inside⟩ has
    · exact absurd ⟨n, span, inside⟩ has
    · exact absurd ⟨n, span, inside⟩ has

/-- What is promised shows that a span can be dealt with. -/
theorem manageable_of_promised (aligned : offset % nand.writesize = 0) (short : length < 2 ^ 32)
    (promised : nand.Promised flags offset length) (span : nand.IsSpan offset length n)
    (inside : offset + n ≤ nand.size) : nand.Manageable flags offset length n := by
  obtain ⟨N, written, runs, back⟩ := promised n (fun _ => 0xff) (fun _ => 0) fun _ _ _ => rfl
  have run := runs N (Nat.le_refl N)
  have actual := back.actual n span inside
  obtain ⟨ret, -⟩ := back.ret n span inside (Int.le_refl _)
  have counts : nand.Counts offset length n := by
    by_contra wraps
    have pass := checkSkipLen_wraps span inside short wraps
    simp only [nandWriteSkipBad, if_neg (not_not.mpr aligned), pass] at run
    cases run
    cases ret
  obtain ⟨bad, pass, found⟩ := checkSkipLen_fits span inside counts
  have fits : ¬(n : Int) < (n % 2 ^ 32 : Nat) := by
    have := Nat.mod_le n (2 ^ 32)
    omega
  have good : ∀ write ∈ written.state.writes, nand.WritesGood offset (offset + n) write :=
    fun write member i low high => by
      have within := back.confined write member i low high
      exact ⟨within.1, within.2.1, by omega⟩
  simp only [nandWriteSkipBad, if_neg (not_not.mpr aligned), pass, if_neg fits] at run
  by_cases simple : (!bad && !flags.dropFfs) = true
  · rw [if_pos simple] at run
    have ⟨isGood, kept⟩ : bad = false ∧ flags.dropFfs = false := by simpa using simple
    have noBad : ¬nand.HasBad offset n := fun has => by rw [found.mpr has] at isGood; cases isGood
    obtain ⟨same, -⟩ := span.whole noBad
    split at run
    · cases run
    · next rval state verified =>
      split at run
      · next ok =>
        cases run
        rw [ok] at verified
        obtain ⟨-, -, verify⟩ := writeVerified_ok verified
        refine ⟨?_, counts, fun used => ?_, fun on => .inr (same ▸ verify on)⟩
        · dsimp only at actual
          omega
        · rw [kept] at used
          exact absurd (used.resolve_left Bool.false_ne_true) noBad
      · next failed =>
        cases run
        exact absurd ret failed
  · rw [if_neg simple] at run
    split at run
    · cases run
    · next rval left state looped =>
      cases run
      dsimp only at ret actual good
      rw [ret] at looped
      obtain ⟨agrees, verify⟩ := writeLoop_agrees looped span inside good
      refine ⟨by omega, counts, fun _ => agrees, fun on => (verify on).imp_left fun zero => ?_⟩
      refine ⟨zero, ?_⟩
      have noBad : bad = false := by
        by_contra has
        obtain ⟨q, low, high, -⟩ := found.mp (Bool.eq_true_of_not_eq_false has)
        omega
      rw [noBad] at simple
      simpa using simple

/-- A device of 8 GiB whose block at 4 GiB is bad. -/
def eightGiB : NandInfo where
  erasesize := 2 ^ 17
  writesize := 2 ^ 11
  size := 2 ^ 33
  isbad ofs := ofs == 2 ^ 32
  trimffs := false
  erasesize_pow := pow_seventeen
  writesize_pow := pow_eleven
  pages := pow_eleven_dvd
  blocks := ⟨2 ^ 16, rfl⟩

/-- Writing keeps its promise exactly where the span of the data can be dealt with. -/
theorem promised_iff_manageable (aligned : offset % nand.writesize = 0)
    (short : length < 2 ^ 32) :
    nand.Promised flags offset length ↔
      ∀ n, nand.IsSpan offset length n → offset + n ≤ nand.size →
        nand.Manageable flags offset length n :=
  ⟨fun promised _ => manageable_of_promised aligned short promised,
    promised_of_manageable aligned⟩

/-- On a device of up to 2 GiB every span can be dealt with. -/
theorem manageable_of_small {n : Nat} (small : nand.size ≤ 2 ^ 31)
    (span : nand.IsSpan offset length n) (inside : offset + n ≤ nand.size) :
    nand.Manageable flags offset length n := by
  obtain ⟨short, counts⟩ := counts_of_small small span inside
  refine ⟨short, counts, fun _ q low high => ?_, fun _ => .inr (by omega)⟩
  rw [blockStart32, blockStart, Nat.mod_eq_of_lt (show q < 2 ^ 32 by omega)]

/-- Data with a bad block in their span are written, checked and read back. -/
theorem promised_iff_manageable_fourBlocks :
    fourBlocks.Promised ⟨true, true⟩ (2 ^ 11) (2 ^ 17 + 5) :=
  (promised_iff_manageable (by decide) (by decide)).mpr fun _ span inside =>
    manageable_of_small (by decide) span inside

/-- The bad block at 4 GiB is written to: the loop looks for its mark at address 0. -/
theorem eightGiB_not_promised : ¬eightGiB.Promised ⟨false, false⟩ (2 ^ 32) 1 := by
  have rest : eightGiB.restOfBlock (2 ^ 32) = 2 ^ 17 := by decide +kernel
  have bad : eightGiB.good (2 ^ 32) = false := by decide +kernel
  have last : eightGiB.good (2 ^ 32 + 2 ^ 17) = true := by decide +kernel
  have block := @goodBelow_add eightGiB (2 ^ 32) (2 ^ 17) (Nat.le_of_eq rest.symm)
  rw [bad, if_neg Bool.false_ne_true, Nat.add_zero] at block
  have span : eightGiB.IsSpan (2 ^ 32) 1 (2 ^ 17 + 1) := by
    refine ⟨?_, .inr last⟩
    rw [← Nat.add_assoc, goodBelow_succ, if_pos last, block]
  intro promised
  have manageable := manageable_of_promised rfl (by decide) promised span (by decide +kernel)
  have marks := manageable.marks (.inr ⟨2 ^ 32, Nat.le_refl _, by omega, bad⟩)
  have agrees := marks (2 ^ 32) (Nat.le_refl _) (by omega)
  revert agrees
  decide +kernel

end NandInfo

end HrppBoot.Flash
