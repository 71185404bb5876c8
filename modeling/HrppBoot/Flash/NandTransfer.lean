import HrppBoot.Flash.NandCheck

/-!
# The transfer loops

Both loops look at a block with 32 bits of its address. Where that finds the marks of the blocks of
a span they transfer exactly its bytes in good blocks.
-/

namespace HrppBoot.Flash

namespace NandInfo

variable {nand : NandInfo} {flash buffer : Nat → UInt8} {p n ofs len pos left stop : Nat}

/-! ## Writing and verifying -/

theorem lastUsed_spec : lastUsed buffer pos len ≤ len ∧
    ∀ k, lastUsed buffer pos len ≤ k → k < len → buffer (pos + k) = 0xff := by
  induction len with
  | zero => exact ⟨Nat.le_refl 0, fun k _ less => absurd less (Nat.not_lt_zero k)⟩
  | succ n ih =>
    rw [lastUsed]
    by_cases used : buffer (pos + n) ≠ 0xff
    · rw [if_pos used]
      exact ⟨Nat.le_refl _, fun k low high => by omega⟩
    · rw [if_neg used]
      refine ⟨Nat.le_succ_of_le ih.1, fun k low high => ?_⟩
      rcases Nat.lt_succ_iff_lt_or_eq.mp high with less | rfl
      · exact ih.2 k low less
      · exact not_not.mp used

theorem dropFfs_spec : nand.dropFfs buffer pos len ≤ len ∧
    ∀ k, nand.dropFfs buffer pos len ≤ k → k < len → buffer (pos + k) = 0xff := by
  refine ⟨Nat.min_le_right _ _, fun k low high => lastUsed_spec.2 k ?_ high⟩
  have positive := nand.writesize_pos
  have whole := Nat.div_add_mod' (lastUsed buffer pos len + nand.writesize - 1) nand.writesize
  have part := Nat.mod_lt (lastUsed buffer pos len + nand.writesize - 1) positive
  unfold dropFfs at low
  omega

theorem dropFfs_zero : nand.dropFfs (fun _ => 0) pos len = len := by
  have all : lastUsed (fun _ => 0) pos len = len := by
    cases len with
    | zero => rfl
    | succ n => exact if_pos (show (0 : UInt8) ≠ 0xff by decide)
  have positive := nand.writesize_pos
  have whole := Nat.div_add_mod' (len + nand.writesize - 1) nand.writesize
  have part := Nat.mod_lt (len + nand.writesize - 1) positive
  rw [dropFfs, all]
  omega

theorem verifyLoop_spec (low : stop < 2 ^ 32) (inside : stop ≤ nand.size) (start : p ≤ stop)
    (same : ∀ k, p + k < stop → buffer (pos + k) = flash (p + k)) :
    ∃ N, ∀ fuel ≥ N, nand.verifyLoop flash buffer stop fuel p pos = some 0 := by
  induction rest : stop - p using Nat.strong_induction_on generalizing p pos with
  | _ rest' ih =>
    by_cases more : p < stop
    · have positive := nand.writesize_pos
      have small : (stop - p) % 2 ^ 32 = stop - p := Nat.mod_eq_of_lt (by omega)
      obtain ⟨N, done⟩ := @ih (stop - (p + min nand.writesize (stop - p))) (by omega)
        (p + min nand.writesize (stop - p)) (pos + min nand.writesize (stop - p)) (by omega)
        (fun k less => by rw [Nat.add_assoc, Nat.add_assoc]; exact same _ (by omega)) rfl
      refine ⟨N + 1, fun fuel enough => ?_⟩
      obtain ⟨fuel, rfl⟩ := Nat.exists_eq_add_of_le' (Nat.le_of_add_left_le enough)
      have next : p + min nand.writesize (stop - p) < 2 ^ 32 := by omega
      have reads : ¬(nand.size < p ∨ nand.size - p < min nand.writesize (stop - p)) := by omega
      have equal : ∀ k < min nand.writesize (stop - p), buffer (pos + k) = flash (p + k) :=
        fun k less => same k (by omega)
      rw [verifyLoop, if_pos more, small]
      dsimp only
      rw [if_neg reads, if_pos equal, Nat.mod_eq_of_lt next]
      exact done fuel (by omega)
    · refine ⟨1, fun fuel enough => ?_⟩
      obtain ⟨fuel, rfl⟩ := Nat.exists_eq_add_of_le' enough
      rw [verifyLoop, if_neg more]

variable {fuel k : Nat}

theorem verifyLoop_low (small : p < 2 ^ 32)
    (done : nand.verifyLoop flash buffer stop fuel p pos = some 0) : stop < 2 ^ 32 := by
  induction fuel generalizing p pos with
  | zero => cases done
  | succ fuel ih =>
    rw [verifyLoop] at done
    by_cases more : p < stop
    · rw [if_pos more] at done
      dsimp only at done
      split at done
      · cases done
      · split at done
        · exact ih (Nat.mod_lt _ (by decide)) done
        · cases done
    · omega

/-- Flash memory with data where it was erased. -/
def overlaid (flash buffer : Nat → UInt8) (pos ofs len : Nat) : Nat → UInt8 :=
  fun i => if ofs ≤ i ∧ i < ofs + len then buffer (pos + (i - ofs)) else flash i

theorem nandWrite_erased (inside : ofs + len ≤ nand.size)
    (erased : ∀ i, ofs ≤ i → i < ofs + len → flash i = 0xff) :
    nand.nandWrite flash ofs len buffer pos = some (overlaid flash buffer pos ofs len) := by
  have writes : ¬(nand.size < ofs ∨ nand.size - ofs < len) := by omega
  rw [nandWrite, if_neg writes]
  congr 1
  funext i
  rw [overlaid]
  split
  · next within =>
    rw [erased i within.1 within.2]
    exact UInt8.neg_one_and
  · rfl

theorem writeVerified_spec {flags : Flags} {state : Written} (inside : ofs + len ≤ nand.size)
    (erased : ∀ i, ofs ≤ i → i < ofs + len → state.flash i = 0xff)
    (verify : flags.wrVerify = true → ofs + len < 2 ^ 32) :
    ∃ N, ∀ fuel ≥ N, nand.writeVerified fuel flags ofs len buffer pos state =
      some (0, ⟨overlaid state.flash buffer pos ofs len, state.writes ++ [(ofs, len)]⟩) := by
  unfold writeVerified
  rw [nandWrite_erased inside erased]
  dsimp only
  cases verifies : flags.wrVerify with
  | false => exact ⟨0, fun _ _ => rfl⟩
  | true =>
    have low := verify verifies
    have same (k : Nat) (less : ofs + k < ofs + len) :
        buffer (pos + k) = overlaid state.flash buffer pos ofs len (ofs + k) := by
      rw [overlaid, if_pos ⟨Nat.le_add_right ofs k, less⟩, Nat.add_sub_cancel_left]
    obtain ⟨N, done⟩ := verifyLoop_spec low inside (Nat.le_add_right ofs len) same
    refine ⟨N, fun fuel enough => ?_⟩
    rw [if_pos rfl, nandVerify, Nat.mod_eq_of_lt (by omega), done fuel enough]

theorem writeVerified_ok {flags : Flags} {state after : Written}
    (done : nand.writeVerified fuel flags ofs len buffer pos state = some (0, after)) :
    after.writes = state.writes ++ [(ofs, len)] ∧ ofs + len ≤ nand.size ∧
      (flags.wrVerify = true → ofs + len < 2 ^ 32) := by
  unfold writeVerified nandWrite at done
  by_cases outside : nand.size < ofs ∨ nand.size - ofs < len
  · rw [if_pos outside] at done
    cases done
  · rw [if_neg outside] at done
    dsimp only at done
    cases verifies : flags.wrVerify with
    | false =>
      rw [verifies] at done
      cases done
      exact ⟨rfl, by omega, Bool.false_ne_true.elim⟩
    | true =>
      rw [verifies, if_pos rfl] at done
      split at done
      · cases done
      · next verified =>
        cases done
        exact ⟨rfl, by omega, fun _ => verifyLoop_low (Nat.mod_lt _ (by decide)) verified⟩

theorem writeVerified_writes {flags : Flags} {state after : Written} {ret : Int}
    (done : nand.writeVerified fuel flags ofs len buffer pos state = some (ret, after)) :
    state.writes ⊆ after.writes := by
  unfold writeVerified at done
  split at done
  · cases done
    exact fun _ => id
  · dsimp only at done
    have kept : state.writes ⊆ state.writes ++ [(ofs, len)] := List.subset_append_left _ _
    split at done
    · split at done <;> cases done
      exact kept
    · cases done
      exact kept

/-! ## Data in the good blocks of a span -/

/-- Flash memory with data in the good blocks of a span. -/
def placed (nand : NandInfo) (flash buffer : Nat → UInt8) (pos p n : Nat) : Nat → UInt8 := fun i =>
  if p ≤ i ∧ i < p + n ∧ nand.good i = true then
    buffer (pos + (nand.goodBelow i - nand.goodBelow p))
  else flash i

theorem goodBelow_sub {i : Nat} (good : nand.good p = true) (low : p ≤ i)
    (high : i ≤ p + nand.restOfBlock p) : nand.goodBelow i - nand.goodBelow p = i - p := by
  have counted := @goodBelow_add nand p (i - p) (by omega)
  rw [if_pos good, Nat.add_sub_cancel' low] at counted
  omega

theorem placed_take (good : nand.good p = true) (within : k ≤ nand.restOfBlock p) (inside : k ≤ n) :
    nand.placed (overlaid flash buffer pos p k) buffer (pos + k) (p + k) (n - k) =
      nand.placed flash buffer pos p n := by
  have block := @goodBelow_add nand p k within
  rw [if_pos good] at block
  funext i
  unfold placed overlaid
  by_cases first : p ≤ i ∧ i < p + k
  · have isGood : nand.good i = true := (good_eq first.1 (by omega)).trans good
    have behind : ¬(p + k ≤ i ∧ i < p + k + (n - k) ∧ nand.good i = true) := by omega
    have before : p ≤ i ∧ i < p + n ∧ nand.good i = true := ⟨first.1, by omega, isGood⟩
    rw [if_neg behind, if_pos first, if_pos before, goodBelow_sub good first.1 (by omega)]
  · rw [if_neg first]
    by_cases later : p + k ≤ i ∧ i < p + k + (n - k) ∧ nand.good i = true
    · have whole : p ≤ i ∧ i < p + n ∧ nand.good i = true := ⟨by omega, by omega, later.2.2⟩
      have more := @goodBelow_mono nand (p + k) i later.1
      rw [if_pos later, if_pos whole]
      congr 1
      omega
    · have outside : ¬(p ≤ i ∧ i < p + n ∧ nand.good i = true) := fun both =>
        later ⟨by omega, by omega, both.2.2⟩
      rw [if_neg later, if_neg outside]

theorem placed_skip (bad : nand.good p = false) (inside : nand.restOfBlock p ≤ n) :
    nand.placed flash buffer pos (p + nand.restOfBlock p) (n - nand.restOfBlock p) =
      nand.placed flash buffer pos p n := by
  have block := @goodBelow_add nand p (nand.restOfBlock p) (Nat.le_refl _)
  rw [bad, if_neg Bool.false_ne_true, Nat.add_zero] at block
  funext i
  unfold placed
  rw [block]
  refine if_congr ⟨fun both => ⟨by omega, by omega, both.2.2⟩, fun both => ⟨?_, by omega, both.2.2⟩⟩
    rfl rfl
  by_contra first
  rw [good_eq both.1 (by omega), bad] at both
  exact Bool.false_ne_true both.2.2

theorem overlaid_truncated (less : k ≤ len) (erased : ∀ i, ofs ≤ i → i < ofs + len → flash i = 0xff)
    (dropped : ∀ i, k ≤ i → i < len → buffer (pos + i) = 0xff) :
    overlaid flash buffer pos ofs k = overlaid flash buffer pos ofs len := by
  funext i
  unfold overlaid
  by_cases first : ofs ≤ i ∧ i < ofs + k
  · rw [if_pos first, if_pos ⟨first.1, by omega⟩]
  · rw [if_neg first]
    by_cases second : ofs ≤ i ∧ i < ofs + len
    · rw [if_pos second, erased i second.1 second.2, dropped (i - ofs) (by omega) (by omega)]
    · rw [if_neg second]

theorem IsSpan.transfer (span : nand.IsSpan p left n) (more : left ≠ 0) (good : nand.good p = true)
    : ∃ k,
      (if left < nand.restOfBlock p then left else nand.restOfBlock p) = k ∧ 0 < k ∧ k ≤ left ∧
        k ≤ n ∧ k ≤ nand.restOfBlock p ∧ nand.IsSpan (p + k) (left - k) (n - k) := by
  have pos := @restOfBlock_pos nand p
  rcases span.take (Nat.pos_of_ne_zero more) good with ⟨within, rfl⟩ | ⟨beyond, further, next⟩
  · refine ⟨n, ?_, by omega, by omega, by omega, within, ?_⟩
    · split <;> omega
    · rw [Nat.sub_self]
      exact ⟨rfl, .inl rfl⟩
  · exact ⟨nand.restOfBlock p, if_neg (by omega), pos, by omega, by omega, Nat.le_refl _, next⟩

/-! ## The loops -/

/-- With 32 bits of the addresses of a span the marks of its blocks are found. -/
def Agrees (nand : NandInfo) (p n : Nat) : Prop :=
  ∀ q, p ≤ q → q < p + n → nand.isbad (nand.blockStart32 q) = nand.isbad (nand.blockStart q)

theorem Agrees.rest (agrees : nand.Agrees p n) : nand.Agrees (p + k) (n - k) :=
  fun q low high => agrees q (by omega) (by omega)

theorem Agrees.blockIsbad (agrees : nand.Agrees p n) (positive : 0 < n) (inside : p + n ≤ nand.size)
    :
    nand.blockIsbad (nand.blockStart32 p) = !nand.good p := by
  have low : nand.blockStart32 p ≤ p := by
    have := Nat.mod_le p (2 ^ 32)
    unfold blockStart32
    omega
  have found := agrees p (Nat.le_refl p) (by omega)
  rw [NandInfo.blockIsbad, if_neg (by omega), found, good, Bool.not_not]

/-- A call writes to the good blocks of a range of addresses. -/
def WritesGood (nand : NandInfo) (low high : Nat) (write : Nat × Nat) : Prop :=
  ∀ i, write.1 ≤ i → i < write.1 + write.2 → nand.good i = true ∧ low ≤ i ∧ i < high

/-- The loop of `nand_write_skip_bad` puts the data into the good blocks of their span. -/
theorem writeLoop_spec {flags : Flags} {state : Written} (span : nand.IsSpan p left n)
    (inside : p + n ≤ nand.size) (agrees : nand.Agrees p n)
    (erased : ∀ i, p ≤ i → i < p + n → nand.good i = true → state.flash i = 0xff)
    (verify : flags.wrVerify = true → n = 0 ∨ p + n < 2 ^ 32) :
    ∃ N writes, (∀ write ∈ writes, nand.WritesGood p (p + n) write) ∧ ∀ fuel ≥ N,
      nand.writeLoop flags buffer fuel p left pos state =
        some (0, 0, ⟨nand.placed state.flash buffer pos p n, state.writes ++ writes⟩) := by
  induction n using Nat.strong_induction_on generalizing p left pos state with
  | _ n ih =>
    by_cases done : left = 0
    · subst done
      obtain rfl := span.empty
      refine ⟨1, [], fun write none => absurd none List.not_mem_nil, fun fuel enough => ?_⟩
      obtain ⟨fuel, rfl⟩ := Nat.exists_eq_add_of_le' enough
      have nowhere : nand.placed state.flash buffer pos p 0 = state.flash :=
        funext fun i => if_neg (by omega)
      rw [writeLoop, if_pos rfl, nowhere, List.append_nil]
    · have positive := span.positive (Nat.pos_of_ne_zero done)
      have mark := agrees.blockIsbad positive inside
      have pos' := @restOfBlock_pos nand p
      cases isGood : nand.good p with
      | false =>
        obtain ⟨beyond, next⟩ := span.skip (Nat.pos_of_ne_zero done) isGood
        have last : p + nand.restOfBlock p + (n - nand.restOfBlock p) = p + n := by omega
        obtain ⟨N, writes, good, run⟩ := @ih (n - nand.restOfBlock p) (by omega)
          (p + nand.restOfBlock p) pos left state next (by omega) agrees.rest
          (fun i low high => erased i (by omega) (by omega)) (fun on => by have := verify on; omega)
        refine ⟨N + 1, writes, fun write member i low high => ?_, fun fuel enough => ?_⟩
        · have within := good write member i low high
          exact ⟨within.1, by omega, by omega⟩
        · obtain ⟨fuel, rfl⟩ := Nat.exists_eq_add_of_le' (Nat.le_of_add_left_le enough)
          rw [writeLoop, if_neg done]
          dsimp only
          rw [if_pos (by rw [mark, isGood]; rfl)]
          exact (run fuel (by omega)).trans (by rw [placed_skip isGood (Nat.le_of_lt beyond)])
      | true =>
        obtain ⟨k, size, some, most, within, first, next⟩ := span.transfer done isGood
        have last : p + k + (n - k) = p + n := by omega
        have inBlock (i : Nat) (low : p ≤ i) (high : i < p + k) : nand.good i = true :=
          (good_eq low (by omega)).trans isGood
        have blank (i : Nat) (low : p ≤ i) (high : i < p + k) : state.flash i = 0xff :=
          erased i low (by omega) (inBlock i low high)
        obtain ⟨t, truncated, less, dropped⟩ : ∃ t,
            (if nand.trimffs && flags.dropFfs then nand.dropFfs buffer pos k else k) = t ∧
              t ≤ k ∧ ∀ i, t ≤ i → i < k → buffer (pos + i) = 0xff := by
          split
          · exact ⟨_, rfl, dropFfs_spec.1, dropFfs_spec.2⟩
          · exact ⟨k, rfl, Nat.le_refl k, fun i low high => by omega⟩
        obtain ⟨M, written⟩ := @writeVerified_spec nand buffer p t pos flags state (by omega)
          (fun i low high => blank i low (by omega)) (fun on => by have := verify on; omega)
        rw [overlaid_truncated less blank dropped] at written
        obtain ⟨N, writes, good, run⟩ := @ih (n - k) (by omega) (p + k) (pos + k) (left - k)
          ⟨overlaid state.flash buffer pos p k, state.writes ++ [(p, t)]⟩ next (by omega)
          agrees.rest
          (fun i low high isGood => by
            dsimp only [overlaid]
            rw [if_neg (by omega)]
            exact erased i (by omega) (by omega) isGood)
          (fun on => by have := verify on; omega)
        refine ⟨max M N + 1, (p, t) :: writes, ?_, fun fuel enough => ?_⟩
        · rw [List.forall_mem_cons]
          refine ⟨fun i low high => ?_, fun write member i low high => ?_⟩
          · dsimp only at low high
            exact ⟨inBlock i low (by omega), low, by omega⟩
          · have found := good write member i low high
            exact ⟨found.1, by omega, by omega⟩
        · obtain ⟨fuel, rfl⟩ := Nat.exists_eq_add_of_le' (Nat.le_of_add_left_le enough)
          rw [writeLoop, if_neg done]
          dsimp only
          rw [if_neg (by rw [mark, isGood]; exact Bool.false_ne_true)]
          rw [restOfBlock] at size
          rw [size, truncated, written fuel (by omega)]
          dsimp only
          rw [if_neg (not_not.mpr rfl), run fuel (by omega), placed_take isGood first within,
            List.append_assoc]
          rfl

/-- The loop of `nand_read_skip_bad` gets the data from the good blocks of their span. -/
theorem readLoop_spec {source : Nat → UInt8} (span : nand.IsSpan p left n)
    (inside : p + n ≤ nand.size) (agrees : nand.Agrees p n)
    (holds : ∀ i, p ≤ i → i < p + n → nand.good i = true →
      flash i = source (pos + (nand.goodBelow i - nand.goodBelow p))) :
    ∃ N, ∀ fuel ≥ N, nand.readLoop flash fuel p left pos buffer =
      some (0, 0, fun i => if pos ≤ i ∧ i < pos + left then source i else buffer i) := by
  induction n using Nat.strong_induction_on generalizing p left pos buffer with
  | _ n ih =>
    by_cases done : left = 0
    · subst done
      refine ⟨1, fun fuel enough => ?_⟩
      obtain ⟨fuel, rfl⟩ := Nat.exists_eq_add_of_le' enough
      have nothing : (fun i => if pos ≤ i ∧ i < pos + 0 then source i else buffer i) = buffer :=
        funext fun i => if_neg (by omega)
      rw [readLoop, if_pos rfl, nothing]
    · have positive := span.positive (Nat.pos_of_ne_zero done)
      have mark := agrees.blockIsbad positive inside
      have pos' := @restOfBlock_pos nand p
      cases isGood : nand.good p with
      | false =>
        obtain ⟨beyond, next⟩ := span.skip (Nat.pos_of_ne_zero done) isGood
        have block := @goodBelow_add nand p (nand.restOfBlock p) (Nat.le_refl _)
        rw [isGood, if_neg Bool.false_ne_true, Nat.add_zero] at block
        obtain ⟨N, run⟩ := @ih (n - nand.restOfBlock p) (by omega) buffer
          (p + nand.restOfBlock p) pos left next (by omega) agrees.rest
          (fun i low high isGood => by
            rw [block]
            exact holds i (by omega) (by omega) isGood)
        refine ⟨N + 1, fun fuel enough => ?_⟩
        obtain ⟨fuel, rfl⟩ := Nat.exists_eq_add_of_le' (Nat.le_of_add_left_le enough)
        rw [readLoop, if_neg done]
        dsimp only
        rw [if_pos (by rw [mark, isGood]; rfl)]
        exact run fuel (by omega)
      | true =>
        obtain ⟨k, size, some, most, within, first, next⟩ := span.transfer done isGood
        have block := @goodBelow_add nand p k first
        rw [if_pos isGood] at block
        obtain ⟨N, run⟩ := @ih (n - k) (by omega)
          (fun i => if pos ≤ i ∧ i < pos + k then flash (p + (i - pos)) else buffer i) (p + k)
          (pos + k) (left - k) next (by omega) agrees.rest
          (fun i low high good => by
            have counted := @goodBelow_mono nand (p + k) i low
            rw [holds i (by omega) (by omega) good]
            congr 1
            omega)
        refine ⟨N + 1, fun fuel enough => ?_⟩
        obtain ⟨fuel, rfl⟩ := Nat.exists_eq_add_of_le' (Nat.le_of_add_left_le enough)
        have reads : ¬(nand.size < p ∨ nand.size - p < k) := by omega
        rw [readLoop, if_neg done]
        dsimp only
        rw [if_neg (by rw [mark, isGood]; exact Bool.false_ne_true)]
        rw [restOfBlock] at size
        rw [size, nandRead, if_neg reads]
        dsimp only
        rw [run fuel (by omega)]
        congr 3
        funext i
        by_cases later : pos + k ≤ i ∧ i < pos + k + (left - k)
        · rw [if_pos later, if_pos ⟨by omega, by omega⟩]
        · rw [if_neg later]
          by_cases now : pos ≤ i ∧ i < pos + k
          · have whole : pos ≤ i ∧ i < pos + left := by omega
            have isGood' := (@good_eq nand _ _ (Nat.le_add_right p (i - pos))
              (by omega)).trans isGood
            rw [if_pos now, if_pos whole, holds _ (Nat.le_add_right _ _) (by omega) isGood',
              goodBelow_sub isGood (Nat.le_add_right _ _) (by omega)]
            congr 1
            omega
          · rw [if_neg now, if_neg (by omega)]

end NandInfo

end HrppBoot.Flash
