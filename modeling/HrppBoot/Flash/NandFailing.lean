import HrppBoot.Flash.NandCheck

/-!
# Transfers that fail

`nand_write_skip_bad` and `nand_read_skip_bad` on a device whose transfers may fail, with what they
leave in `*length` and `*actual`. The documentation of both wants `*actual` to be 0 when the data
run beyond the end of the device; the sizing pass leaves there what it has counted up to that end.
-/

namespace HrppBoot.Flash

def erofs : Int := 30

def euclean : Int := 117

def enomem : Int := 12

/-- What a transfer to a device in a state `σ` leaves behind. -/
structure Stored (σ : Type) where
  ret : Int
  retlen : Nat
  device : σ

/-- What a transfer from a device leaves behind. -/
structure Fetched (σ : Type) extends Stored σ where
  buffer : Nat → UInt8

/-- The driver of a device: transfers that may fail. -/
structure Driver (σ : Type) where
  /-- `_write` of a number of bytes to an address. -/
  write : σ → (ofs len : Nat) → (Nat → UInt8) → Stored σ
  /-- `_read` of a number of bytes from an address, into a buffer from a position on. -/
  read : σ → (ofs len : Nat) → (buffer : Nat → UInt8) → (pos : Nat) → Fetched σ
  /-- `flags & MTD_WRITEABLE` -/
  writeable : Bool
  eccStrength : Nat
  bitflipThreshold : Int
  memalign : σ → Bool
  /-- What is read without an error, save for bits that were corrected, is read as a whole. -/
  read_whole : ∀ device ofs len buffer pos,
    0 ≤ (read device ofs len buffer pos).ret ∨ (read device ofs len buffer pos).ret = -euclean →
      (read device ofs len buffer pos).retlen = len

/-- A transfer that was tried: the bytes of the buffer it stands for, and its result. -/
structure Transfer where
  size : Nat
  rval : Int

structure Skipped (σ : Type) where
  ret : Int
  length : Nat
  actual : Nat
  device : σ
  transfers : List Transfer

namespace NandInfo

variable (nand : NandInfo) {σ : Type} (driver : Driver σ)

/-- `mtd_write` from `buffer + pos` -/
def mtdWrite (device : σ) (ofs len : Nat) (buffer : Nat → UInt8) (pos : Nat) : Stored σ :=
  if nand.size < ofs ∨ nand.size - ofs < len then ⟨-einval, 0, device⟩
  else if !driver.writeable then ⟨-erofs, 0, device⟩
  else if len = 0 then ⟨0, 0, device⟩
  else driver.write device ofs len fun k => buffer (pos + k)

/-- `mtd_read` to `buffer + pos` -/
def mtdRead (device : σ) (ofs len : Nat) (buffer : Nat → UInt8) (pos : Nat) : Fetched σ :=
  if nand.size < ofs ∨ nand.size - ofs < len then ⟨⟨-einval, 0, device⟩, buffer⟩
  else if len = 0 then ⟨⟨0, 0, device⟩, buffer⟩
  else
    let fetched := driver.read device ofs len buffer pos
    if fetched.ret < 0 then fetched
    else if driver.eccStrength = 0 then { fetched with ret := 0 }
    else if driver.bitflipThreshold ≤ fetched.ret then { fetched with ret := -euclean }
    else { fetched with ret := 0 }

/-- The loop of `nand_verify` up to `stop`, with the page `verbuf`: the result and the device. -/
def verifyFrom (buffer : Nat → UInt8) (stop : Nat) :
    (fuel verofs pos : Nat) → (verbuf : Nat → UInt8) → σ → Option (Int × σ)
  | 0, _, _, _, _ => none
  | fuel + 1, verofs, pos, verbuf, device =>
    if verofs < stop then
      let verlen := min nand.writesize ((stop - verofs) % 2 ^ 32)
      let fetched := nand.mtdRead driver device verofs verlen verbuf 0
      if fetched.ret = 0 ∨ fetched.ret = -euclean then
        if ∀ k < fetched.retlen, buffer (pos + k) = fetched.buffer k then
          verifyFrom buffer stop fuel ((verofs + fetched.retlen) % 2 ^ 32) (pos + fetched.retlen)
            fetched.buffer fetched.device
        else some (-eio, fetched.device)
      else some (-eio, fetched.device)
    else some (0, device)

/-- `nand_verify` -/
def verifyDevice (fuel : Nat) (device : σ) (ofs len : Nat) (buffer : Nat → UInt8) (pos : Nat) :
    Option (Int × σ) :=
  if !driver.memalign device then some (-enomem, device)
  else nand.verifyFrom driver buffer (ofs + len) fuel (ofs % 2 ^ 32) pos (fun _ => 0) device

/-- `nand_write` and, with `WITH_WR_VERIFY`, `nand_verify`. -/
def storeVerified (fuel : Nat) (flags : Flags) (device : σ) (ofs len : Nat)
    (buffer : Nat → UInt8) (pos : Nat) : Option (Stored σ) :=
  let stored := nand.mtdWrite driver device ofs len buffer pos
  if flags.wrVerify ∧ stored.ret = 0 then
    match nand.verifyDevice driver fuel stored.device ofs stored.retlen buffer pos with
    | none => none
    | some (rval, device) => some ⟨rval, stored.retlen, device⟩
  else some stored

/-- The loop of `nand_write_skip_bad`: the result, `left_to_write`, the device and the transfers. -/
def storeLoop (flags : Flags) (buffer : Nat → UInt8) :
    (fuel offset left pos : Nat) → σ → List Transfer → Option (Int × Nat × σ × List Transfer)
  | 0, _, _, _, _, _ => none
  | fuel + 1, offset, left, pos, device, transfers =>
    if left = 0 then some (0, 0, device, transfers)
    else
      let rest := nand.erasesize - nand.blockOffset offset
      if nand.blockIsbad (nand.blockStart32 offset) then
        storeLoop flags buffer fuel (offset + rest) left pos device transfers
      else
        let writeSize := if left < rest then left else rest
        let truncated :=
          if nand.trimffs && flags.dropFfs then nand.dropFfs buffer pos writeSize else writeSize
        match nand.storeVerified driver fuel flags device offset truncated buffer pos with
        | none => none
        | some stored =>
          let transfers := transfers ++ [⟨writeSize, stored.ret⟩]
          if stored.ret ≠ 0 then some (stored.ret, left, stored.device, transfers)
          else storeLoop flags buffer fuel (offset + writeSize) (left - writeSize)
            (pos + writeSize) stored.device transfers

/-- `nand_write_skip_bad` -/
def storeSkipBad (fuel : Nat) (device : σ) (offset length : Nat) (lim : Int)
    (buffer : Nat → UInt8) (flags : Flags) : Option (Skipped σ) :=
  if offset % nand.writesize ≠ 0 then some ⟨-einval, 0, 0, device, []⟩
  else
    match nand.checkSkipLen offset length with
    | none => some ⟨-einval, 0, nand.usedAtEnd offset, device, []⟩
    | some (used, needSkip) =>
      if lim < used then some ⟨-efbig, 0, used, device, []⟩
      else if !needSkip && !flags.dropFfs then
        match nand.storeVerified driver fuel flags device offset length buffer 0 with
        | none => none
        | some stored =>
          let transfers : List Transfer := [⟨length, stored.ret⟩]
          if stored.ret = 0 then some ⟨0, stored.retlen, used, stored.device, transfers⟩
          else some ⟨stored.ret, 0, used, stored.device, transfers⟩
      else
        match nand.storeLoop driver flags buffer fuel offset length 0 device [] with
        | none => none
        | some (rval, left, device, transfers) =>
          some ⟨rval, length - left, used, device, transfers⟩

/-- The loop of `nand_read_skip_bad`: the result, `left_to_read`, the device, the buffer and the
transfers. -/
def fetchLoop :
    (fuel offset left pos : Nat) → (Nat → UInt8) → σ → List Transfer →
      Option (Int × Nat × σ × (Nat → UInt8) × List Transfer)
  | 0, _, _, _, _, _, _ => none
  | fuel + 1, offset, left, pos, buffer, device, transfers =>
    if left = 0 then some (0, 0, device, buffer, transfers)
    else
      let rest := nand.erasesize - nand.blockOffset offset
      if nand.blockIsbad (nand.blockStart32 offset) then
        fetchLoop fuel (offset + rest) left pos buffer device transfers
      else
        let readLength := if left < rest then left else rest
        let fetched := nand.mtdRead driver device offset readLength buffer pos
        let transfers := transfers ++ [⟨readLength, fetched.ret⟩]
        if fetched.ret ≠ 0 ∧ fetched.ret ≠ -euclean then
          some (fetched.ret, left, fetched.device, fetched.buffer, transfers)
        else fetchLoop fuel (offset + fetched.retlen) (left - fetched.retlen)
          (pos + fetched.retlen) fetched.buffer fetched.device transfers

/-- `nand_read_skip_bad`: what it leaves behind, and the buffer. -/
def fetchSkipBad (fuel : Nat) (device : σ) (offset length : Nat) (lim : Int)
    (buffer : Nat → UInt8) : Option (Skipped σ × (Nat → UInt8)) :=
  if offset % nand.writesize ≠ 0 then some (⟨-einval, 0, 0, device, []⟩, buffer)
  else
    match nand.checkSkipLen offset length with
    | none => some (⟨-einval, 0, nand.usedAtEnd offset, device, []⟩, buffer)
    | some (used, needSkip) =>
      if lim < used then some (⟨-efbig, 0, used, device, []⟩, buffer)
      else if !needSkip then
        let fetched := nand.mtdRead driver device offset length buffer 0
        let transfers : List Transfer := [⟨length, fetched.ret⟩]
        if fetched.ret = 0 ∨ fetched.ret = -euclean then
          some (⟨0, fetched.retlen, used, fetched.device, transfers⟩, fetched.buffer)
        else some (⟨fetched.ret, 0, used, fetched.device, transfers⟩, fetched.buffer)
      else
        match nand.fetchLoop driver fuel offset length 0 buffer device [] with
        | none => none
        | some (rval, left, device, buffer, transfers) =>
          some (⟨rval, length - left, used, device, transfers⟩, buffer)

/-! ## What is left behind -/

def StoreOk (rval : Int) : Prop := rval = 0

/-- A transfer from the device goes well: also when bits were corrected. -/
def FetchOk (rval : Int) : Prop := rval = 0 ∨ rval = -euclean

def sizes (transfers : List Transfer) : Nat := (transfers.map Transfer.size).sum

/-- Of transfers that were tried only the last one may have failed, and a length counts the bytes of
the ones before it. -/
def Counted (ok : Int → Prop) (length : Nat) (transfers : List Transfer) : Prop :=
  ∀ done last behind, transfers = done ++ last :: behind → ¬ok last.rval →
    behind = [] ∧ length = sizes done

/-- What is documented of the outputs of a call, and what `*length` counts. -/
structure Contract (offset length : Nat) (lim : Int) (device : σ) (ok : Int → Prop)
    (run : Nat → Option (Skipped σ)) : Prop where
  unaligned : offset % nand.writesize ≠ 0 → ∀ fuel, ∃ result, run fuel = some result ∧
    result.length = 0 ∧ result.actual = 0 ∧ result.device = device
  /-- Data that run beyond the end of the device are refused, with 0 in both outputs. -/
  beyond : offset % nand.writesize = 0 →
    (¬∃ n, nand.IsSpan offset length n ∧ offset + n ≤ nand.size) →
      ∃ N result, (∀ fuel ≥ N, run fuel = some result) ∧
        result.length = 0 ∧ result.actual = 0 ∧ result.device = device
  /-- Data that exceed the limit are refused, with the required length in `*actual`. -/
  overLimit : offset % nand.writesize = 0 →
    ∀ n, nand.IsSpan offset length n → offset + n ≤ nand.size → lim < n →
      ∃ N result, (∀ fuel ≥ N, run fuel = some result) ∧
        result.length = 0 ∧ result.actual = n ∧ result.device = device
  /-- A transfer that fails is the last one, and `*length` counts the ones before it. -/
  failed : ∀ fuel result, run fuel = some result → Counted ok result.length result.transfers

/-- The sizing pass counts what is documented. -/
structure Sized (offset length : Nat) (lim : Int) : Prop where
  /-- Where the data run beyond the end, 32 bits of the length up to that end are 0. -/
  beyond : offset % nand.writesize = 0 →
    (¬∃ n, nand.IsSpan offset length n ∧ offset + n ≤ nand.size) →
      (nand.size - offset) % 2 ^ 32 = 0
  /-- Where the data exceed the limit, 32 bits hold the span, or the pass fails to count it and 32
  bits of the length up to the end of the device are as many. -/
  overLimit : offset % nand.writesize = 0 →
    ∀ n, nand.IsSpan offset length n → offset + n ≤ nand.size → lim < n →
      nand.Counts offset length n ∧ n < 2 ^ 32 ∨
        ¬nand.Counts offset length n ∧ (nand.size - offset) % 2 ^ 32 = n

/-- What both calls do with the result of the sizing pass. -/
structure Sizing (offset length : Nat) (lim : Int) (device : σ) (ok : Int → Prop)
    (run : Nat → Option (Skipped σ)) : Prop where
  unaligned : offset % nand.writesize ≠ 0 → ∀ fuel, run fuel = some ⟨-einval, 0, 0, device, []⟩
  refused : offset % nand.writesize = 0 → nand.checkSkipLen offset length = none →
    ∀ fuel, run fuel = some ⟨-einval, 0, nand.usedAtEnd offset, device, []⟩
  exceeds : offset % nand.writesize = 0 →
    ∀ used skip, nand.checkSkipLen offset length = some (used, skip) → lim < used →
      ∀ fuel, run fuel = some ⟨-efbig, 0, used, device, []⟩
  goes : offset % nand.writesize = 0 →
    ∀ used skip, nand.checkSkipLen offset length = some (used, skip) → ¬lim < used →
      ∀ fuel result, run fuel = some result → result.actual = used
  empty : offset % nand.writesize = 0 → length = 0 → nand.size < offset → ¬lim < 0 →
    ∃ N result, (∀ fuel ≥ N, run fuel = some result) ∧
      result.length = 0 ∧ result.actual = 0 ∧ result.device = device
  failed : ∀ fuel result, run fuel = some result → Counted ok result.length result.transfers

variable {nand} {driver} {offset length : Nat} {lim : Int} {device : σ} {ok : Int → Prop}
  {run : Nat → Option (Skipped σ)}

theorem checkSkipLen_zero (offset : Nat) : nand.checkSkipLen offset 0 = some (0, false) := by
  rw [checkSkipLen, checkSkipLoop, if_neg (Nat.not_lt_zero 0)]
  rfl

theorem Sizing.contract (sizing : nand.Sizing offset length lim device ok run)
    (short : length < 2 ^ 32) (sized : nand.Sized offset length lim) :
    nand.Contract offset length lim device ok run := by
  refine ⟨fun inside fuel => ⟨_, sizing.unaligned inside fuel, rfl, rfl, rfl⟩, ?_, ?_,
    sizing.failed⟩
  · intro aligned none
    rcases Nat.eq_zero_or_pos length with rfl | positive
    · by_cases less : lim < 0
      · exact ⟨0, _, fun fuel _ => sizing.exceeds aligned 0 false (checkSkipLen_zero offset) less
          fuel, rfl, rfl, rfl⟩
      · refine sizing.empty aligned rfl ?_ less
        by_contra before
        exact none ⟨0, ⟨rfl, .inl rfl⟩, by omega⟩
    · exact ⟨0, _, fun fuel _ => sizing.refused aligned (checkSkipLen_full positive none) fuel, rfl,
        sized.beyond aligned none, rfl⟩
  · intro aligned n span inside above
    rcases sized.overLimit aligned n span inside above with ⟨counts, small⟩ | ⟨wraps, same⟩
    · obtain ⟨bad, pass, -⟩ := checkSkipLen_fits span inside counts
      rw [Nat.mod_eq_of_lt small] at pass
      exact ⟨0, _, fun fuel _ => sizing.exceeds aligned n bad pass above fuel, rfl, rfl, rfl⟩
    · exact ⟨0, _, fun fuel _ => sizing.refused aligned (checkSkipLen_wraps span inside short wraps)
        fuel, rfl, same, rfl⟩

/-- If such a call keeps the contract the pass counts what is documented. -/
theorem Sizing.sized (sizing : nand.Sizing offset length lim device ok run)
    (short : length < 2 ^ 32) (contract : nand.Contract offset length lim device ok run) :
    nand.Sized offset length lim := by
  constructor
  · intro aligned none
    rcases Nat.eq_zero_or_pos length with rfl | positive
    · have behind : nand.size < offset := by
        by_contra before
        exact none ⟨0, ⟨rfl, .inl rfl⟩, by omega⟩
      rw [Nat.sub_eq_zero_of_le (Nat.le_of_lt behind), Nat.zero_mod]
    · obtain ⟨N, result, runs, -, zero, -⟩ := contract.beyond aligned none
      have run := runs N (Nat.le_refl N)
      rw [sizing.refused aligned (checkSkipLen_full positive none)] at run
      cases run
      exact zero
  · intro aligned n span inside above
    obtain ⟨N, result, runs, -, required, -⟩ := contract.overLimit aligned n span inside above
    have run := runs N (Nat.le_refl N)
    by_cases counts : nand.Counts offset length n
    · obtain ⟨bad, pass, -⟩ := checkSkipLen_fits span inside counts
      have found : result.actual = n % 2 ^ 32 := by
        by_cases less : lim < (n % 2 ^ 32 : Nat)
        · rw [sizing.exceeds aligned _ bad pass less] at run
          cases run
          rfl
        · exact sizing.goes aligned _ bad pass less N result run
      have small := Nat.mod_lt n (show 0 < 2 ^ 32 by decide)
      exact .inl ⟨counts, by omega⟩
    · rw [sizing.refused aligned (checkSkipLen_wraps span inside short counts)] at run
      cases run
      exact .inr ⟨counts, required⟩

/-! ## Transfers -/

theorem sizes_concat (transfers : List Transfer) (last : Transfer) :
    sizes (transfers ++ [last]) = sizes transfers + last.size := by
  simp [sizes]

variable {transfers : List Transfer} {buffer : Nat → UInt8} {flags : Flags} {fuel pos len : Nat}

theorem Counted.of_ok (all : ∀ transfer ∈ transfers, ok transfer.rval)
    : Counted ok length transfers :=
  fun _ _ _ split failed => absurd (all _ (by rw [split]; simp)) failed

theorem Counted.of_last {transfers : List Transfer} {last : Transfer}
    (all : ∀ transfer ∈ transfers, ok transfer.rval) (same : length = sizes transfers) :
    Counted ok length (transfers ++ [last]) := by
  intro done failing behind split failed
  rcases List.eq_nil_or_concat behind with rfl | ⟨before, end', rfl⟩
  · obtain ⟨rfl, -⟩ := List.append_inj' split rfl
    exact ⟨rfl, same⟩
  · rw [List.concat_eq_append, ← List.cons_append, ← List.append_assoc] at split
    obtain ⟨rfl, -⟩ := List.append_inj' split rfl
    exact absurd (all failing (by simp)) failed

theorem forall_concat {last : Transfer} (all : ∀ transfer ∈ transfers, ok transfer.rval)
    (more : ok last.rval) :
    ∀ transfer ∈ transfers ++ [last], ok transfer.rval := by
  intro transfer member
  rcases List.mem_append.mp member with before | one
  · exact all transfer before
  · rw [List.mem_singleton.mp one]
    exact more

theorem storeLoop_counted {offset left rest : Nat}
    {rval : Int} {after : σ} {tried : List Transfer}
    (run : nand.storeLoop driver flags buffer fuel offset left pos device transfers =
      some (rval, rest, after, tried))
    (all : ∀ transfer ∈ transfers, StoreOk transfer.rval)
    (total : sizes transfers + left = length) :
    Counted StoreOk (length - rest) tried := by
  induction fuel generalizing offset left pos device transfers with
  | zero => cases run
  | succ fuel ih =>
    rw [storeLoop] at run
    split at run
    · cases run
      exact .of_ok all
    · dsimp only at run
      split at run
      · exact ih run all total
      · split at run
        · cases run
        · next stored _ =>
          split at run
          · cases run
            exact .of_last all (by omega)
          · next fine =>
            refine ih run (forall_concat all (not_not.mp fine)) ?_
            rw [sizes_concat]
            dsimp only
            split <;> omega

theorem mtdRead_whole {ofs : Nat}
    (fine : FetchOk (nand.mtdRead driver device ofs len buffer pos).ret) :
    (nand.mtdRead driver device ofs len buffer pos).retlen = len := by
  have whole := driver.read_whole device ofs len buffer pos
  unfold mtdRead at fine ⊢
  by_cases outside : nand.size < ofs ∨ nand.size - ofs < len
  · rw [if_pos outside] at fine
    exact absurd fine (show ¬(-einval = 0 ∨ -einval = -euclean) by decide)
  · rw [if_neg outside] at fine ⊢
    by_cases nothing : len = 0
    · rw [if_pos nothing]
      exact nothing.symm
    · rw [if_neg nothing] at fine ⊢
      dsimp only at fine ⊢
      by_cases failed : (driver.read device ofs len buffer pos).ret < 0
      · rw [if_pos failed] at fine ⊢
        exact whole (.inr (fine.resolve_left (Int.ne_of_lt failed)))
      · rw [if_neg failed]
        have read := whole (.inl (Int.not_lt.mp failed))
        split
        · exact read
        · split <;> exact read

/-- So does the loop of `nand_read_skip_bad`. -/
theorem fetchLoop_counted {target : Nat → UInt8} {offset left rest : Nat}
    {rval : Int} {after : σ} {tried : List Transfer}
    (run : nand.fetchLoop driver fuel offset left pos buffer device transfers =
      some (rval, rest, after, target, tried))
    (all : ∀ transfer ∈ transfers, FetchOk transfer.rval)
    (total : sizes transfers + left = length) :
    Counted FetchOk (length - rest) tried := by
  induction fuel generalizing offset left pos buffer device transfers with
  | zero => cases run
  | succ fuel ih =>
    rw [fetchLoop] at run
    split at run
    · cases run
      exact .of_ok all
    · dsimp only at run
      obtain ⟨k, size, less⟩ : ∃ k, (if left < nand.erasesize - nand.blockOffset offset then left
          else nand.erasesize - nand.blockOffset offset) = k ∧ k ≤ left :=
        ⟨_, rfl, by split <;> omega⟩
      rw [size] at run
      split at run
      · exact ih run all total
      · split at run
        · cases run
          exact .of_last all (by omega)
        · next fine =>
          have good : FetchOk (nand.mtdRead driver device offset k buffer pos).ret := by
            by_contra bad
            exact fine (not_or.mp bad)
          refine ih run (forall_concat all good) ?_
          rw [sizes_concat, mtdRead_whole good]
          dsimp only
          omega

/-! ## The calls -/

theorem storeVerified_behind (behind : nand.size < offset) :
    nand.storeVerified driver fuel flags device offset len buffer pos =
      some ⟨-einval, 0, device⟩ := by
  have refused : nand.mtdWrite driver device offset len buffer pos = ⟨-einval, 0, device⟩ :=
    if_pos (.inl behind)
  rw [storeVerified, refused]
  exact if_neg fun both => absurd both.2 (show ¬-einval = 0 by decide)

/-- What `nand_write_skip_bad` does with the result of the sizing pass. -/
theorem storeSkipBad_sizing (driver : Driver σ) (device : σ) (buffer : Nat → UInt8) (flags : Flags)
    (offset length : Nat) (lim : Int) :
    nand.Sizing offset length lim device StoreOk fun fuel =>
      nand.storeSkipBad driver fuel device offset length lim buffer flags := by
  refine ⟨fun inside _ => if_pos inside, fun aligned pass _ => ?_,
    fun aligned used skip pass less _ => ?_, fun aligned used skip pass fits fuel result run => ?_,
    fun aligned none behind fits => ?_, fun fuel result run => ?_⟩
  · rw [storeSkipBad, if_neg (not_not.mpr aligned), pass]
  · rw [storeSkipBad, if_neg (not_not.mpr aligned), pass]
    exact if_pos less
  · rw [storeSkipBad, if_neg (not_not.mpr aligned), pass] at run
    dsimp only at run
    rw [if_neg fits] at run
    split at run
    · split at run
      · cases run
      · split at run <;> cases run <;> rfl
    · split at run
      · cases run
      · cases run
        rfl
  · subst none
    refine ⟨1, ?_⟩
    cases drops : flags.dropFfs with
    | false =>
      refine ⟨⟨-einval, 0, 0, device, [⟨0, -einval⟩]⟩, fun fuel _ => ?_, rfl, rfl, rfl⟩
      rw [storeSkipBad, if_neg (not_not.mpr aligned), checkSkipLen_zero]
      dsimp only
      rw [if_neg (by exact fits), drops, storeVerified_behind behind]
      rfl
    | true =>
      refine ⟨⟨0, 0, 0, device, []⟩, fun fuel enough => ?_, rfl, rfl, rfl⟩
      obtain ⟨fuel, rfl⟩ := Nat.exists_eq_add_of_le' enough
      rw [storeSkipBad, if_neg (not_not.mpr aligned), checkSkipLen_zero]
      dsimp only
      rw [if_neg (by exact fits), drops]
      rfl
  · have none : Counted StoreOk 0 [] := .of_ok fun _ member => absurd member List.not_mem_nil
    rw [storeSkipBad] at run
    split at run
    · cases run
      exact none
    · split at run
      · cases run
        exact none
      · split at run
        · cases run
          exact none
        · split at run
          · split at run
            · cases run
            · dsimp only at run
              split at run
              · next stored _ fine =>
                cases run
                exact .of_ok (by simpa [StoreOk] using fine)
              · cases run
                exact @Counted.of_last 0 StoreOk [] _
                  (fun _ member => absurd member List.not_mem_nil) rfl
          · split at run
            · cases run
            · next looped =>
              cases run
              exact storeLoop_counted looped (fun _ member => absurd member List.not_mem_nil)
                (Nat.zero_add length)

/-- What `nand_read_skip_bad` does with it. -/
theorem fetchSkipBad_sizing (driver : Driver σ) (device : σ) (buffer : Nat → UInt8)
    (offset length : Nat) (lim : Int) :
    nand.Sizing offset length lim device FetchOk fun fuel =>
      (nand.fetchSkipBad driver fuel device offset length lim buffer).map Prod.fst := by
  refine ⟨fun inside _ => ?_, fun aligned pass _ => ?_,
    fun aligned used skip pass less _ => ?_, fun aligned used skip pass fits fuel result run => ?_,
    fun aligned none behind fits => ?_, fun fuel result run => ?_⟩
  · rw [fetchSkipBad, if_pos inside]
    rfl
  · rw [fetchSkipBad, if_neg (not_not.mpr aligned), pass]
    rfl
  · rw [fetchSkipBad, if_neg (not_not.mpr aligned), pass]
    dsimp only
    rw [if_pos less]
    rfl
  · rw [fetchSkipBad, if_neg (not_not.mpr aligned), pass] at run
    dsimp only at run
    rw [if_neg fits] at run
    split at run
    · split at run <;> cases run <;> rfl
    · split at run
      · cases run
      · cases run
        rfl
  · subst none
    refine ⟨0, ⟨-einval, 0, 0, device, [⟨0, -einval⟩]⟩, fun fuel _ => ?_, rfl, rfl, rfl⟩
    have refused : nand.mtdRead driver device offset 0 buffer 0 =
        ⟨⟨-einval, 0, device⟩, buffer⟩ := if_pos (.inl behind)
    rw [fetchSkipBad, if_neg (not_not.mpr aligned), checkSkipLen_zero]
    dsimp only
    rw [if_neg (by exact fits), refused]
    rfl
  · have none : Counted FetchOk 0 [] := .of_ok fun _ member => absurd member List.not_mem_nil
    rw [fetchSkipBad] at run
    split at run
    · cases run
      exact none
    · split at run
      · cases run
        exact none
      · split at run
        · cases run
          exact none
        · split at run
          · dsimp only at run
            split at run
            · next fine =>
              cases run
              exact .of_ok (by simpa [FetchOk] using fine)
            · cases run
              exact @Counted.of_last 0 FetchOk [] _
                (fun _ member => absurd member List.not_mem_nil) rfl
          · split at run
            · cases run
            · next looped =>
              cases run
              exact fetchLoop_counted looped (fun _ member => absurd member List.not_mem_nil)
                (Nat.zero_add length)

/-! ## A reliable driver -/

def reliable : Driver (Nat → UInt8) where
  write flash ofs len data :=
    ⟨0, len, fun i => if ofs ≤ i ∧ i < ofs + len then flash i &&& data (i - ofs) else flash i⟩
  read flash ofs len buffer pos :=
    ⟨⟨0, len, flash⟩, fun i => if pos ≤ i ∧ i < pos + len then flash (ofs + (i - pos))
      else buffer i⟩
  writeable := true
  eccStrength := 0
  bitflipThreshold := 0
  memalign _ := true
  read_whole _ _ _ _ _ _ := rfl

theorem mtdWrite_reliable (flash buffer : Nat → UInt8) (ofs len pos : Nat) :
    nand.mtdWrite reliable flash ofs len buffer pos =
      match nand.nandWrite flash ofs len buffer pos with
      | none => ⟨-einval, 0, flash⟩
      | some after => ⟨0, len, after⟩ := by
  rw [mtdWrite, nandWrite]
  split
  · rfl
  · by_cases nothing : len = 0
    · subst nothing
      have same : (fun i => if ofs ≤ i ∧ i < ofs + 0 then flash i &&& buffer (pos + (i - ofs))
          else flash i) = flash := funext fun i => if_neg (by omega)
      rw [same]
      rfl
    · exact (if_neg Bool.false_ne_true).trans (if_neg nothing)

theorem mtdRead_reliable (flash buffer : Nat → UInt8) (ofs len pos : Nat) :
    nand.mtdRead reliable flash ofs len buffer pos =
      match nand.nandRead flash ofs len buffer pos with
      | none => ⟨⟨-einval, 0, flash⟩, buffer⟩
      | some after => ⟨⟨0, len, flash⟩, after⟩ := by
  rw [mtdRead, nandRead]
  split
  · rfl
  · by_cases nothing : len = 0
    · subst nothing
      have same : (fun i => if pos ≤ i ∧ i < pos + 0 then flash (ofs + (i - pos)) else buffer i) =
          buffer := funext fun i => if_neg (by omega)
      rw [same]
      rfl
    · rw [if_neg nothing]
      rfl

theorem verifyFrom_reliable (flash buffer verbuf : Nat → UInt8) (stop fuel verofs pos : Nat) :
    nand.verifyFrom reliable buffer stop fuel verofs pos verbuf flash =
      (nand.verifyLoop flash buffer stop fuel verofs pos).map fun rval => (rval, flash) := by
  induction fuel generalizing verofs pos verbuf with
  | zero => rfl
  | succ fuel ih =>
    rw [verifyFrom, verifyLoop]
    dsimp only
    split
    · generalize min nand.writesize ((stop - verofs) % 2 ^ 32) = verlen
      rw [mtdRead_reliable, nandRead]
      by_cases outside : nand.size < verofs ∨ nand.size - verofs < verlen
      · rw [if_pos outside, if_pos outside]
        rfl
      · have here (k : Nat) (less : k < verlen) :
            (if 0 ≤ k ∧ k < 0 + verlen then flash (verofs + (k - 0)) else verbuf k) =
              flash (verofs + k) := if_pos ⟨Nat.zero_le k, by omega⟩
        rw [if_neg outside, if_neg outside]
        dsimp only
        rw [if_pos (.inl rfl)]
        by_cases equal : ∀ k < verlen, buffer (pos + k) = flash (verofs + k)
        · rw [if_pos equal, if_pos fun k less => (equal k less).trans (here k less).symm, ih]
        · rw [if_neg equal, if_neg fun all => equal fun k less => (all k less).trans (here k less)]
          rfl
    · rfl

theorem storeVerified_reliable {flags : Flags} (fuel ofs len pos : Nat) (buffer : Nat → UInt8)
    (state : Written) :
    (nand.storeVerified reliable fuel flags state.flash ofs len buffer pos).map
        (fun stored => (stored.ret, stored.device)) =
      (nand.writeVerified fuel flags ofs len buffer pos state).map
        fun outcome => (outcome.1, outcome.2.flash) := by
  rw [storeVerified, writeVerified, mtdWrite_reliable]
  cases nand.nandWrite state.flash ofs len buffer pos with
  | none =>
    dsimp only
    rw [if_neg fun both => absurd both.2 (show ¬-einval = 0 by decide)]
    rfl
  | some flash =>
    dsimp only
    cases verify : flags.wrVerify with
    | false => rfl
    | true =>
      have memory : ¬(!reliable.memalign flash) = true := Bool.false_ne_true
      rw [if_pos ⟨rfl, rfl⟩, if_pos rfl, verifyDevice, if_neg memory, verifyFrom_reliable,
        nandVerify]
      cases nand.verifyLoop flash buffer (ofs + len) fuel (ofs % 2 ^ 32) pos <;> rfl

theorem storeVerified_whole {ofs : Nat} {flash : Nat → UInt8} {stored : Stored (Nat → UInt8)}
    (run : nand.storeVerified reliable fuel flags flash ofs len buffer pos = some stored)
    (fine : stored.ret = 0) : stored.retlen = len := by
  rw [storeVerified, mtdWrite_reliable] at run
  cases written : nand.nandWrite flash ofs len buffer pos with
  | none =>
    rw [written] at run
    dsimp only at run
    rw [if_neg fun both => absurd both.2 (show ¬-einval = 0 by decide)] at run
    cases run
    exact absurd fine (show ¬-einval = 0 by decide)
  | some after =>
    rw [written] at run
    dsimp only at run
    split at run
    · split at run
      · cases run
      · cases run
        rfl
    · cases run
      rfl

/-- The loop of `nand_write_skip_bad` with it. -/
theorem storeLoop_reliable (flags : Flags) (buffer : Nat → UInt8) (fuel offset left pos : Nat)
    (state : Written) (transfers : List Transfer) :
    (nand.storeLoop reliable flags buffer fuel offset left pos state.flash transfers).map
        (fun outcome => (outcome.1, outcome.2.1, outcome.2.2.1)) =
      (nand.writeLoop flags buffer fuel offset left pos state).map
        fun outcome => (outcome.1, outcome.2.1, outcome.2.2.flash) := by
  induction fuel generalizing offset left pos state transfers with
  | zero => rfl
  | succ fuel ih =>
    rw [storeLoop, writeLoop]
    split
    · rfl
    · dsimp only
      split
      · exact ih _ _ _ _ _
      · generalize (if left < nand.erasesize - nand.blockOffset offset then left
          else nand.erasesize - nand.blockOffset offset) = size
        generalize (if nand.trimffs && flags.dropFfs then nand.dropFfs buffer pos size
          else size) = truncated
        have same := @storeVerified_reliable nand flags fuel offset truncated pos buffer state
        cases stored : nand.storeVerified reliable fuel flags state.flash offset truncated buffer
            pos <;>
          cases written : nand.writeVerified fuel flags offset truncated buffer pos state <;>
          rw [stored, written] at same
        · rfl
        · cases same
        · cases same
        · next outcome other =>
          obtain ⟨ret, retlen, flash⟩ := outcome
          obtain ⟨rval, after⟩ := other
          cases same
          dsimp only
          split
          · rfl
          · exact ih _ _ _ _ _

/-- With a reliable driver `nand_write_skip_bad` does what it does where transfers are taken to go
well. -/
theorem storeSkipBad_reliable (fuel : Nat) (flash buffer : Nat → UInt8) (offset length : Nat)
    (lim : Int) (flags : Flags) :
    (nand.storeSkipBad reliable fuel flash offset length lim buffer flags).map
        (fun result => (result.ret, result.length, result.actual, result.device)) =
      (nand.nandWriteSkipBad fuel flash offset length lim buffer flags).map
        fun result => (result.ret, result.length, result.actual, result.state.flash) := by
  rw [storeSkipBad, nandWriteSkipBad]
  split
  · rfl
  · cases nand.checkSkipLen offset length with
    | none => rfl
    | some sizing =>
      obtain ⟨used, needSkip⟩ := sizing
      dsimp only
      split
      · rfl
      · split
        · have same := @storeVerified_reliable nand flags fuel offset length 0 buffer ⟨flash, []⟩
          dsimp only at same
          cases stored : nand.storeVerified reliable fuel flags flash offset length buffer 0 <;>
            cases written : nand.writeVerified fuel flags offset length buffer 0 ⟨flash, []⟩ <;>
            rw [stored, written] at same
          · rfl
          · cases same
          · cases same
          · next outcome other =>
            have whole := storeVerified_whole stored
            obtain ⟨ret, retlen, flash⟩ := outcome
            obtain ⟨rval, after⟩ := other
            cases same
            dsimp only at whole ⊢
            split
            · next fine =>
              rw [whole fine]
              rfl
            · rfl
        · have same := @storeLoop_reliable nand flags buffer fuel offset length 0 ⟨flash, []⟩ []
          dsimp only at same
          cases stored : nand.storeLoop reliable flags buffer fuel offset length 0 flash [] <;>
            cases written : nand.writeLoop flags buffer fuel offset length 0 ⟨flash, []⟩ <;>
            rw [stored, written] at same
          · rfl
          · cases same
          · cases same
          · next outcome other =>
            obtain ⟨ret, left, flash, transfers⟩ := outcome
            obtain ⟨rval, left', after⟩ := other
            cases same
            rfl

theorem fetchLoop_reliable (flash buffer : Nat → UInt8) (fuel offset left pos : Nat)
    (transfers : List Transfer) :
    (nand.fetchLoop reliable fuel offset left pos buffer flash transfers).map
        (fun outcome => (outcome.1, outcome.2.1, outcome.2.2.2.1)) =
      nand.readLoop flash fuel offset left pos buffer := by
  induction fuel generalizing offset left pos buffer transfers with
  | zero => rfl
  | succ fuel ih =>
    rw [fetchLoop, readLoop]
    split
    · rfl
    · dsimp only
      split
      · exact ih _ _ _ _ _
      · generalize (if left < nand.erasesize - nand.blockOffset offset then left
          else nand.erasesize - nand.blockOffset offset) = size
        rw [mtdRead_reliable]
        cases nand.nandRead flash offset size buffer pos with
        | none => rfl
        | some after => exact ih _ _ _ _ _

theorem fetchSkipBad_reliable (fuel : Nat) (flash buffer : Nat → UInt8) (offset length : Nat)
    (lim : Int) :
    (nand.fetchSkipBad reliable fuel flash offset length lim buffer).map
        (fun result => (result.1.ret, result.1.length, result.1.actual, result.2)) =
      (nand.nandReadSkipBad fuel flash offset length lim buffer).map
        fun result => (result.ret, result.length, result.actual, result.buffer) := by
  rw [fetchSkipBad, nandReadSkipBad]
  split
  · rfl
  · cases nand.checkSkipLen offset length with
    | none => rfl
    | some sizing =>
      obtain ⟨used, needSkip⟩ := sizing
      dsimp only
      split
      · rfl
      · split
        · rw [mtdRead_reliable]
          cases nand.nandRead flash offset length buffer 0 <;> rfl
        · rw [← fetchLoop_reliable flash buffer fuel offset length 0 []]
          cases nand.fetchLoop reliable fuel offset length 0 buffer flash [] <;> rfl

/-! ## The contract -/

/-- Both calls keep the contract of their outputs, whatever the driver does, exactly where the
sizing pass counts what is documented. -/
theorem contract_iff (driver : Driver σ) (device : σ) (buffer : Nat → UInt8) (flags : Flags)
    (offset length : Nat) (lim : Int) (short : length < 2 ^ 32) :
    (nand.Contract offset length lim device StoreOk (fun fuel =>
        nand.storeSkipBad driver fuel device offset length lim buffer flags) ↔
      nand.Sized offset length lim) ∧
    (nand.Contract offset length lim device FetchOk (fun fuel =>
        (nand.fetchSkipBad driver fuel device offset length lim buffer).map Prod.fst) ↔
      nand.Sized offset length lim) :=
  ⟨⟨(storeSkipBad_sizing driver device buffer flags offset length lim).sized short,
    (storeSkipBad_sizing driver device buffer flags offset length lim).contract short⟩,
   ⟨(fetchSkipBad_sizing driver device buffer offset length lim).sized short,
    (fetchSkipBad_sizing driver device buffer offset length lim).contract short⟩⟩

def twoBlocks : NandInfo where
  erasesize := 2 ^ 17
  writesize := 2 ^ 11
  size := 2 ^ 18
  isbad _ := false
  trimffs := false
  erasesize_pow := pow_seventeen
  writesize_pow := pow_eleven
  pages := pow_eleven_dvd
  blocks := ⟨2, rfl⟩

/-- Data behind a bad block need more than the limit: `*actual` is the length with that block. -/
theorem contract_iff_fourBlocks :
    fourBlocks.Contract (2 ^ 11) (2 ^ 17 + 5) (2 ^ 17 + 5) (fun _ => 0xff) StoreOk fun fuel =>
      fourBlocks.storeSkipBad reliable fuel (fun _ => 0xff) (2 ^ 11) (2 ^ 17 + 5) (2 ^ 17 + 5)
        (fun _ => 0) ⟨false, false⟩ := by
  apply (contract_iff reliable (fun _ => 0xff) (fun _ => 0) ⟨false, false⟩ (2 ^ 11) (2 ^ 17 + 5)
    (2 ^ 17 + 5) (by decide)).1.mpr
  constructor
  · intro _ none
    exact absurd ⟨_, fourBlocks_span, by decide⟩ none
  · intro _ n span inside _
    exact .inl (counts_of_small (by decide) span inside).symm

theorem twoBlocks_full : ¬∃ n, twoBlocks.IsSpan 0 (2 ^ 18 + 1) n ∧ 0 + n ≤ twoBlocks.size := by
  rintro ⟨n, span, inside⟩
  have few : twoBlocks.goodBelow (0 + n) ≤ 0 + n := Nat.count_le _
  have held := span.holds
  have device : twoBlocks.size = 2 ^ 18 := rfl
  omega

/-- One byte more than the device has: `*actual` is the size of the device, not 0. -/
theorem twoBlocks_beyond :
    ¬twoBlocks.Contract 0 (2 ^ 18 + 1) (2 ^ 18) (fun _ => 0xff) StoreOk fun fuel =>
      twoBlocks.storeSkipBad reliable fuel (fun _ => 0xff) 0 (2 ^ 18 + 1) (2 ^ 18) (fun _ => 0)
        ⟨false, false⟩ := by
  intro contract
  obtain ⟨N, result, runs, -, zero, -⟩ := contract.beyond rfl twoBlocks_full
  have run := runs N (Nat.le_refl N)
  have sizing := @storeSkipBad_sizing twoBlocks _ reliable (fun _ => 0xff) (fun _ => 0)
    ⟨false, false⟩ 0 (2 ^ 18 + 1) (2 ^ 18)
  rw [sizing.refused rfl (checkSkipLen_full (by decide) twoBlocks_full)] at run
  cases run
  revert zero
  decide

end NandInfo

end HrppBoot.Flash
