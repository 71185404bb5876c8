import HrppBoot.Flash.CfiWrite

/-!
# What a CFI flash has after a copy

A word is only written where the flash has its bits, so the conjunction of the old and the new bits
is the new word. The first and the last word have the old bytes outside the target. So each way of
writing copies the bytes that it takes and keeps the others, and a copy that succeeds leaves the
same flash whichever way it was written.
-/

namespace HrppBoot.Flash

open ByteWords

/-- The flash has `n` bytes of the source from an address on, and is as before elsewhere. -/
def Copied (before source : Nat → BitVec 8) (addr n : Nat) (after : Nat → BitVec 8) : Prop :=
  ∀ a, after a = if addr ≤ a ∧ a < addr + n then source (a - addr) else before a

theorem copied_zero (before source : Nat → BitVec 8) (addr : Nat) :
    Copied before source addr 0 before := by
  intro a
  rw [if_neg (by omega)]

theorem Copied.extend {before source byte after : Nat → BitVec 8} {addr n m : Nat}
    (copied : Copied before source addr n byte)
    (written : ∀ a, after a = if addr + n ≤ a ∧ a < addr + n + m then source (a - addr) else byte a)
    :
    Copied before source addr (n + m) after := by
  intro a
  rw [written, copied]
  by_cases here : addr + n ≤ a ∧ a < addr + n + m
  · rw [if_pos here, if_pos (by omega)]
  · rw [if_neg here]
    by_cases inside : addr ≤ a ∧ a < addr + n
    · rw [if_pos inside, if_pos (by omega)]
    · rw [if_neg inside, if_neg (by omega)]

section Words

variable {board : Board} {info : FlashInfo}

theorem flashAddByte_eq (cword : Cfiword info.portwidth) (c : BitVec 8) :
    flashAddByte board info cword c = push board.order cword c := by
  obtain ⟨portwidth, chipwidth, bufferSize, vendor⟩ := info
  obtain ⟨order, useBufferWrite, report, ctrlc⟩ := board
  cases portwidth with
  | w8 => exact (push_one cword c).symm
  | w16 => cases order <;> rfl
  | w32 => cases order <;> rfl
  | w64 => cases order <;> rfl

variable {k : Nat}

theorem byteOf_flashAddBytes (bytes : List (BitVec 8)) (cword : Cfiword info.portwidth)
    (inside : k < info.portwidth.bytes) :
    byteOf board.order (flashAddBytes board info cword bytes) k =
      if k + bytes.length < info.portwidth.bytes then byteOf board.order cword (k + bytes.length)
      else bytes.getD (k + bytes.length - info.portwidth.bytes) 0 := by
  induction bytes generalizing cword with
  | nil =>
    rw [List.length_nil, if_pos (by omega)]
    rfl
  | cons c bytes ih =>
    change byteOf board.order
      (flashAddBytes board info (flashAddByte board info cword c) bytes) k = _
    rw [ih, flashAddByte_eq, List.length_cons]
    by_cases short : k + bytes.length < info.portwidth.bytes
    · rw [if_pos short, byteOf_push _ _ short]
      by_cases last : k + bytes.length + 1 = info.portwidth.bytes
      · rw [if_pos last, if_neg (by omega), show k + (bytes.length + 1) -
          info.portwidth.bytes = 0 by omega]
        rfl
      · rw [if_neg last, if_pos (by omega)]
        rfl
    · rw [if_neg short, if_neg (by omega), show k + (bytes.length + 1) - info.portwidth.bytes =
        k + bytes.length - info.portwidth.bytes + 1 by omega]
      rfl

theorem byteOf_filled {bytes : List (BitVec 8)} (cword : Cfiword info.portwidth)
    (filled : bytes.length = info.portwidth.bytes) (inside : k < info.portwidth.bytes) :
    byteOf board.order (flashAddBytes board info cword bytes) k = bytes.getD k 0 := by
  rw [byteOf_flashAddBytes bytes cword inside, if_neg (by omega), filled, Nat.add_sub_cancel]

theorem flashWrite_of_erased {state : FlashState} {value : Cfiword info.portwidth} {addr : Nat}
    (erased : ∀ k < info.portwidth.bytes, state.byte (addr + k) &&& byteOf board.order value k =
      byteOf board.order value k) (a : Nat) :
    (flashWrite board info state value addr).byte a =
      if addr ≤ a ∧ a < addr + info.portwidth.bytes then byteOf board.order value (a - addr)
      else state.byte a := by
  change (if _ then _ else _) = _
  by_cases here : addr ≤ a ∧ a < addr + info.portwidth.bytes
  · have bits := erased (a - addr) (by omega)
    rw [show addr + (a - addr) = a by omega] at bits
    rw [if_pos here, if_pos here, bits]
  · rw [if_neg here, if_neg here]

theorem flashRead_and {byte : Nat → BitVec 8} {addr : Nat} {value : Cfiword info.portwidth}
    (erased : flashRead board info byte addr &&& value = value) (inside : k < info.portwidth.bytes)
    :
    byte (addr + k) &&& byteOf board.order value k = byteOf board.order value k := by
  have bytes := congrArg (fun word => byteOf board.order word k) erased
  rw [byteOf_and, flashRead, byteOf_ofBytes _ inside] at bytes
  exact bytes

theorem flashWriteCfiword_byte {state after : FlashState} {dest : Nat}
    {cword : Cfiword info.portwidth}
    (written : flashWriteCfiword board info state dest cword = (errOk, after)) (a : Nat) :
    after.byte a = if dest ≤ a ∧ a < dest + info.portwidth.bytes then
      byteOf board.order cword (a - dest) else state.byte a := by
  rw [flashWriteCfiword] at written
  by_cases erased : flashRead board info state.byte dest &&& cword = cword
  · rw [if_pos erased, flashStatus, Prod.mk.injEq] at written
    rw [← written.2]
    exact flashWrite_of_erased (fun k => flashRead_and erased) a
  · rw [if_neg erased, Prod.mk.injEq] at written
    exact absurd written.1 (by decide)

theorem erasedFor_bytes {state : FlashState} {source : Nat → BitVec 8} {src dst cnt : Nat}
    (erased : erasedFor board info state source src dst cnt = true) {k : Nat}
    (inside : k < cnt * info.portwidth.bytes) :
    state.byte (dst + k) &&& source (src + k) = source (src + k) := by
  induction cnt generalizing src dst k with
  | zero => omega
  | succ cnt ih =>
    rw [erasedFor] at erased
    rw [Nat.succ_mul] at inside
    by_cases word : flashRead board info state.byte dst &&& flashRead board info source src =
        flashRead board info source src
    · rw [if_pos word] at erased
      by_cases here : k < info.portwidth.bytes
      · have bits := flashRead_and word here
        rwa [flashRead, byteOf_ofBytes _ here] at bits
      · have bits := @ih (src + info.portwidth.bytes) (dst + info.portwidth.bytes) erased
          (k - info.portwidth.bytes) (by omega)
        rwa [show dst + info.portwidth.bytes + (k - info.portwidth.bytes) = dst + k by omega,
          show src + info.portwidth.bytes + (k - info.portwidth.bytes) = src + k by omega] at bits
    · rw [if_neg word] at erased
      cases erased

theorem fillBuffer_byte {state : FlashState} {source : Nat → BitVec 8} {src dst cnt : Nat}
    (erased : ∀ k < cnt * info.portwidth.bytes,
      state.byte (dst + k) &&& source (src + k) = source (src + k)) (a : Nat) :
    (fillBuffer board info state source src dst cnt).byte a =
      if dst ≤ a ∧ a < dst + cnt * info.portwidth.bytes then source (src + (a - dst))
      else state.byte a := by
  induction cnt generalizing state src dst with
  | zero =>
    rw [fillBuffer, if_neg (by omega)]
  | succ cnt ih =>
    rw [Nat.succ_mul] at erased ⊢
    have word : ∀ k < info.portwidth.bytes, byteOf board.order (flashRead board info source src) k =
        source (src + k) := fun k inside => byteOf_ofBytes _ inside
    have first := @flashWrite_of_erased board info state (flashRead board info source src) dst
      fun k inside => by rw [word k inside]; exact erased k (by omega)
    rw [fillBuffer, ih, first]
    · by_cases later : dst + info.portwidth.bytes ≤ a ∧
          a < dst + info.portwidth.bytes + cnt * info.portwidth.bytes
      · rw [if_pos later, if_pos (by omega)]
        congr 1
        omega
      · rw [if_neg later]
        by_cases here : dst ≤ a ∧ a < dst + info.portwidth.bytes
        · rw [if_pos here, if_pos (by omega), word _ (by omega)]
        · rw [if_neg here, if_neg (by omega)]
    · intro k inside
      rw [first, if_neg (by omega)]
      have bits := erased (info.portwidth.bytes + k) (by omega)
      rwa [← Nat.add_assoc, ← Nat.add_assoc] at bits

/-- The words of a chunk are what the flash has then. -/
theorem flashWriteCfibuffer_byte {state after : FlashState} {source : Nat → BitVec 8}
    {dest cp len : Nat}
    (written : flashWriteCfibuffer board info state dest source cp len = (errOk, after)) (a : Nat) :
    after.byte a = if dest ≤ a ∧ a < dest + len / info.portwidth.bytes * info.portwidth.bytes then
      source (cp + (a - dest)) else state.byte a := by
  rw [flashWriteCfibuffer] at written
  dsimp only at written
  by_cases erased : erasedFor board info state source cp dest (len / info.portwidth.bytes) = true
  · have bits := fun k => @erasedFor_bytes board info state source cp dest _ erased k
    rw [if_pos erased] at written
    cases vendor : info.vendor with
    | intel =>
      rw [vendor] at written
      by_cases ready : board.report state.checks = errOk
      · simp only [flashStatus, ready, if_true, Prod.mk.injEq] at written
        rw [← written.2]
        exact @fillBuffer_byte board info { state with checks := state.checks + 1 } source cp dest _
          bits a
      · simp only [flashStatus, ready, if_false, Prod.mk.injEq] at written
        exact absurd written.1 id
    | amd =>
      rw [vendor] at written
      dsimp only [flashStatus] at written
      rw [Prod.mk.injEq] at written
      rw [← written.2]
      exact fillBuffer_byte bits a
    | amdLegacy =>
      rw [vendor, Prod.mk.injEq] at written
      exact absurd written.1 (by decide)
  · rw [if_neg erased, Prod.mk.injEq] at written
    exact absurd written.1 (by decide)

end Words

/-! ## Copying -/

section Copy

variable {board : Board} {info : FlashInfo} {before source : Nat → BitVec 8} {addr cnt : Nat}

/-- What is copied so far, and where the copy goes on if there is more. -/
structure Progress (before source : Nat → BitVec 8) (addr cnt : Nat) (copy : Copy)
    (state : FlashState) : Prop where
  total : copy.src + copy.cnt = cnt
  next : copy.cnt = 0 ∨ copy.wp = addr + copy.src
  copied : Copied before source addr copy.src state.byte

theorem CfiWidth.bytes_pos (width : CfiWidth) : 0 < width.bytes := by
  cases width <;> decide

theorem getD_range (byte : Nat → BitVec 8) (src : Nat) {k n : Nat} (inside : k < n) :
    ((List.range n).map fun j => byte (src + j)).getD k 0 = byte (src + k) := by
  simp [List.getD_eq_getElem?_getD, inside]

variable {state after : FlashState} {blank : Nat → Cfiword info.portwidth} {copy copy' : Copy}
   {turns : Nat}

theorem getD_word {wp aln src taken behind k : Nat} (inside : k < aln + taken + behind) :
    (flashBytes state wp aln ++ sourceBytes source src taken ++
        flashBytes state (wp + aln + taken) behind).getD k 0 =
      if aln ≤ k ∧ k < aln + taken then source (src + (k - aln)) else state.byte (wp + k) := by
  have front : (flashBytes state wp aln).length = aln := by simp [flashBytes]
  have middle : (flashBytes state wp aln ++ sourceBytes source src taken).length = aln + taken := by
    simp [flashBytes, sourceBytes]
  by_cases first : k < aln
  · rw [List.getD_append _ _ _ _ (by omega), List.getD_append _ _ _ _ (by omega), flashBytes,
      getD_range _ _ first, if_neg (by omega)]
  · by_cases second : k < aln + taken
    · rw [List.getD_append _ _ _ _ (by omega), List.getD_append_right _ _ _ _ (by omega), front,
        sourceBytes, getD_range _ _ (by omega), if_pos (by omega)]
    · rw [List.getD_append_right _ _ _ _ (by omega), middle, flashBytes, getD_range _ _ (by omega),
        if_neg (by omega)]
      congr 1
      omega

theorem Copied.word {wp aln src taken behind : Nat}
    {blank : Cfiword info.portwidth} (copied : Copied before source addr src state.byte)
    (filled : aln + taken + behind = info.portwidth.bytes) (place : wp + aln = addr + src)
    (written : flashWriteCfiword board info state wp (flashAddBytes board info blank
      (flashBytes state wp aln ++ sourceBytes source src taken ++
        flashBytes state (wp + aln + taken) behind)) = (errOk, after)) :
    Copied before source addr (src + taken) after.byte := by
  apply copied.extend
  intro a
  rw [flashWriteCfiword_byte written]
  have length : (flashBytes state wp aln ++ sourceBytes source src taken ++
      flashBytes state (wp + aln + taken) behind).length = info.portwidth.bytes := by
    simp only [List.length_append, flashBytes, sourceBytes, List.length_map, List.length_range,
      filled]
  by_cases here : wp ≤ a ∧ a < wp + info.portwidth.bytes
  · rw [if_pos here, byteOf_filled _ length (by omega), getD_word (by omega)]
    by_cases inside : addr + src ≤ a ∧ a < addr + src + taken
    · rw [if_pos (by omega), if_pos inside]
      congr 1
      omega
    · rw [if_neg (by omega), if_neg inside, show wp + (a - wp) = a by omega]
  · rw [if_neg here, if_neg (by omega)]

theorem head_filled {width aln : Nat} (cnt : Nat) (short : aln < width) :
    aln + headTaken width aln cnt + headBehind width aln cnt = width ∧
      headTaken width aln cnt ≤ cnt ∧
      (cnt - headTaken width aln cnt = 0 ∨ aln + headTaken width aln cnt = width) := by
  have taken : headTaken width aln cnt = min (width - aln) cnt := rfl
  unfold headBehind
  split <;> omega

theorem writeHead_progress
    (written : writeHead board info source state blank addr cnt = (.ok copy, after)) :
    Progress state.byte source addr cnt copy after := by
  have positive := info.portwidth.bytes_pos
  have low := Align.down_le addr info.portwidth.bytes
  have high := Align.lt_down_add addr positive
  have start := copied_zero state.byte source addr
  rw [writeHead] at written
  dsimp only at written
  by_cases aligned : addr - Align.down addr info.portwidth.bytes = 0
  · rw [if_pos aligned, Prod.mk.injEq, Except.ok.injEq] at written
    obtain ⟨rfl, rfl⟩ := written
    exact ⟨Nat.zero_add _, .inr (by dsimp only; omega), start⟩
  · rw [if_neg aligned] at written
    generalize word : flashWriteCfiword board info state _ _ = result at written
    obtain ⟨rc, state'⟩ := result
    dsimp only at written
    by_cases failed : rc ≠ errOk
    · rw [if_pos failed, Prod.mk.injEq] at written
      cases written.1
    · rw [if_neg failed, Prod.mk.injEq, Except.ok.injEq] at written
      obtain ⟨rfl, rfl⟩ := written
      rw [not_not.mp failed] at word
      obtain ⟨filled, inside, rest⟩ := @head_filled info.portwidth.bytes
        (addr - Align.down addr info.portwidth.bytes) cnt (by omega)
      have copied := start.word filled (by omega) word
      rw [Nat.zero_add] at copied
      refine ⟨by dsimp only; omega, ?_, copied⟩
      dsimp only
      omega

theorem writeWord_progress (progress : Progress before source addr cnt copy state)
    (more : info.portwidth.bytes ≤ copy.cnt)
    (written : writeWord board info source state blank copy = (.ok copy', after)) :
    Progress before source addr cnt copy' after := by
  have positive := info.portwidth.bytes_pos
  have total := progress.total
  have next := progress.next
  rw [writeWord] at written
  dsimp only at written
  generalize word : flashWriteCfiword board info state _ _ = result at written
  obtain ⟨rc, state'⟩ := result
  dsimp only at written
  by_cases failed : rc ≠ errOk
  · rw [if_pos failed, Prod.mk.injEq] at written
    cases written.1
  · rw [if_neg failed, Prod.mk.injEq, Except.ok.injEq] at written
    obtain ⟨rfl, rfl⟩ := written
    rw [not_not.mp failed] at word
    have whole : flashBytes state copy.wp 0 ++ sourceBytes source copy.src info.portwidth.bytes ++
        flashBytes state (copy.wp + 0 + info.portwidth.bytes) 0 =
          sourceBytes source copy.src info.portwidth.bytes := by
      simp [flashBytes]
    rw [← whole] at word
    refine ⟨by dsimp only; omega, ?_, progress.copied.word (by omega) (by omega) word⟩
    dsimp only
    omega

theorem checkCtrlc_ok {limit : Nat} (asked : checkCtrlc board state limit copy = (.ok copy', after))
    :
    copy' = copy ∧ after.byte = state.byte := by
  rw [checkCtrlc] at asked
  by_cases now : copy.cnt % 2 ^ 16 < limit
  · rw [if_pos now] at asked
    dsimp only at asked
    by_cases key : board.ctrlc state.keys = true
    · rw [if_pos key, Prod.mk.injEq] at asked
      cases asked.1
    · rw [if_neg key, Prod.mk.injEq, Except.ok.injEq] at asked
      obtain ⟨rfl, rfl⟩ := asked
      exact ⟨rfl, rfl⟩
  · rw [if_neg now, Prod.mk.injEq, Except.ok.injEq] at asked
    obtain ⟨rfl, rfl⟩ := asked
    exact ⟨rfl, rfl⟩

/-- A turn of the loop over the aligned part. -/
theorem writeTurn_progress (progress : Progress before source addr cnt copy state)
    (more : info.portwidth.bytes ≤ copy.cnt)
    (written : writeTurn board info source state blank copy = some (.ok copy', after)) :
    Progress before source addr cnt copy' after := by
  have positive := info.portwidth.bytes_pos
  have total := progress.total
  have next := progress.next
  rw [writeTurn] at written
  dsimp only at written
  by_cases buffer : board.useBufferWrite = true
  · rw [if_pos buffer] at written
    by_cases single : info.bufferSize = 1
    · rw [if_pos single, Option.some.injEq] at written
      exact writeWord_progress progress more written
    · rw [if_neg single] at written
      by_cases zero : info.portwidth.bytes / info.chipwidth.bytes * info.bufferSize = 0
      · rw [if_pos zero] at written
        cases written
      · rw [if_neg zero] at written
        generalize room : min _ copy.cnt = i at written
        have inside : i ≤ copy.cnt := by omega
        generalize chunk : flashWriteCfibuffer board info state copy.wp source copy.src i = result
          at written
        obtain ⟨rc, state'⟩ := result
        dsimp only at written
        by_cases failed : rc ≠ errOk
        · rw [if_pos failed, Option.some.injEq, Prod.mk.injEq] at written
          cases written.1
        · rw [if_neg failed, Option.some.injEq] at written
          rw [not_not.mp failed] at chunk
          obtain ⟨rfl, same⟩ := checkCtrlc_ok written
          have words := Nat.div_add_mod' i info.portwidth.bytes
          have place : copy.wp = addr + copy.src := by omega
          refine ⟨by dsimp only; omega, .inr (by dsimp only; omega), ?_⟩
          rw [same]
          dsimp only
          apply progress.copied.extend
          intro a
          rw [flashWriteCfibuffer_byte chunk]
          by_cases here : addr + copy.src ≤ a ∧
              a < addr + copy.src + (i - i % info.portwidth.bytes)
          · rw [if_pos (by omega), if_pos here]
            congr 1
            omega
          · rw [if_neg (by omega), if_neg here]
  · rw [if_neg buffer] at written
    generalize word : writeWord board info source state blank copy = result at written
    obtain ⟨outcome, state'⟩ := result
    cases outcome with
    | error rc =>
      rw [Option.some.injEq, Prod.mk.injEq] at written
      cases written.1
    | ok copy'' =>
      have progress' := writeWord_progress progress more word
      rw [Option.some.injEq] at written
      obtain ⟨rfl, same⟩ := checkCtrlc_ok written
      exact ⟨progress'.total, progress'.next, same ▸ progress'.copied⟩

theorem writeAligned_progress (progress : Progress before source addr cnt copy state)
    (written : writeAligned board info source state blank copy turns = some (.ok copy', after)) :
    Progress before source addr cnt copy' after ∧ copy'.cnt < info.portwidth.bytes := by
  induction turns generalizing state copy with
  | zero => cases written
  | succ turns ih =>
    rw [writeAligned] at written
    by_cases done : copy.cnt < info.portwidth.bytes
    · rw [if_pos done, Option.some.injEq, Prod.mk.injEq, Except.ok.injEq] at written
      obtain ⟨rfl, rfl⟩ := written
      exact ⟨progress, done⟩
    · rw [if_neg done] at written
      generalize turn : writeTurn board info source state blank copy = result at written
      rcases result with _ | ⟨rc | copy'', state'⟩
      · cases written
      · cases written
      · exact ih (writeTurn_progress progress (by omega) turn) written

theorem writeTail_copied (progress : Progress before source addr cnt copy state)
    (short : copy.cnt < info.portwidth.bytes)
    (written : writeTail board info source state blank copy = (errOk, after)) :
    Copied before source addr cnt after.byte := by
  have total := progress.total
  have next := progress.next
  rw [writeTail] at written
  by_cases none : copy.cnt = 0
  · rw [if_pos none, Prod.mk.injEq] at written
    rw [← written.2, show cnt = copy.src by omega]
    exact progress.copied
  · rw [if_neg none, show min info.portwidth.bytes copy.cnt = copy.cnt by omega] at written
    dsimp only at written
    have whole : sourceBytes source copy.src copy.cnt ++
        flashBytes state (copy.wp + copy.cnt) (info.portwidth.bytes - copy.cnt) =
          flashBytes state copy.wp 0 ++ sourceBytes source copy.src copy.cnt ++
            flashBytes state (copy.wp + 0 + copy.cnt) (info.portwidth.bytes - copy.cnt) := by
      simp [flashBytes]
    rw [whole] at written
    rw [← total]
    exact progress.copied.word (by omega) (by omega) written

/-! ## Results -/

/-- A copy that is given up returns an error. -/
def GivesUp (result : Except Int Copy × FlashState) : Prop :=
  ∀ rc, result.1 = .error rc → rc ≠ errOk

theorem givesUp_ite {rc : Int} :
    GivesUp (if rc ≠ errOk then (.error rc, state) else (.ok copy, state)) := by
  intro rc' given
  by_cases failed : rc ≠ errOk
  · rw [if_pos failed, Except.error.injEq] at given
    exact given ▸ failed
  · rw [if_neg failed] at given
    cases given

theorem writeHead_givesUp (state : FlashState) (blank : Nat → Cfiword info.portwidth)
    (addr cnt : Nat) : GivesUp (writeHead board info source state blank addr cnt) := by
  rw [writeHead]
  dsimp only
  split
  · intro rc given
    cases given
  · exact givesUp_ite

theorem writeWord_givesUp (state : FlashState) (blank : Nat → Cfiword info.portwidth) (copy : Copy)
    : GivesUp (writeWord board info source state blank copy) := by
  rw [writeWord]
  exact givesUp_ite

theorem checkCtrlc_givesUp (state : FlashState) (limit : Nat) (copy : Copy) :
    GivesUp (checkCtrlc board state limit copy) := by
  intro rc given
  rw [checkCtrlc] at given
  by_cases now : copy.cnt % 2 ^ 16 < limit
  · rw [if_pos now] at given
    dsimp only at given
    by_cases key : board.ctrlc state.keys = true
    · rw [if_pos key, Except.error.injEq] at given
      rw [← given]
      decide
    · rw [if_neg key] at given
      cases given
  · rw [if_neg now] at given
    cases given

/-- A turn of the loop over the aligned part. -/
theorem writeTurn_givesUp {result : Except Int Copy × FlashState}
    (written : writeTurn board info source state blank copy = some result) : GivesUp result := by
  rw [writeTurn] at written
  dsimp only at written
  by_cases buffer : board.useBufferWrite = true
  · rw [if_pos buffer] at written
    by_cases single : info.bufferSize = 1
    · rw [if_pos single, Option.some.injEq] at written
      exact written ▸ writeWord_givesUp _ _ _
    · rw [if_neg single] at written
      by_cases zero : info.portwidth.bytes / info.chipwidth.bytes * info.bufferSize = 0
      · rw [if_pos zero] at written
        cases written
      · rw [if_neg zero] at written
        generalize flashWriteCfibuffer board info state copy.wp source copy.src _ = chunk at written
        obtain ⟨rc, state'⟩ := chunk
        dsimp only at written
        by_cases failed : rc ≠ errOk
        · rw [if_pos failed, Option.some.injEq] at written
          rw [← written]
          intro rc' given
          exact Except.error.inj given ▸ failed
        · rw [if_neg failed, Option.some.injEq] at written
          exact written ▸ checkCtrlc_givesUp _ _ _
  · rw [if_neg buffer] at written
    have word := @writeWord_givesUp board info source state blank copy
    generalize writeWord board info source state blank copy = outcome at word written
    obtain ⟨outcome, state'⟩ := outcome
    cases outcome with
    | error rc =>
      rw [Option.some.injEq] at written
      exact written ▸ word
    | ok copy' =>
      rw [Option.some.injEq] at written
      exact written ▸ checkCtrlc_givesUp _ _ _

theorem writeAligned_givesUp {result : Except Int Copy × FlashState}
    (written : writeAligned board info source state blank copy turns = some result) :
    GivesUp result := by
  induction turns generalizing state copy with
  | zero => cases written
  | succ turns ih =>
    rw [writeAligned] at written
    by_cases done : copy.cnt < info.portwidth.bytes
    · rw [if_pos done, Option.some.injEq] at written
      rw [← written]
      intro rc given
      cases given
    · rw [if_neg done] at written
      generalize turn : writeTurn board info source state blank copy = next at written
      rcases next with _ | ⟨rc | copy', state'⟩
      · cases written
      · rw [← Option.some.inj written]
        exact writeTurn_givesUp turn
      · exact ih written

theorem writeBuff_copied
    (written : writeBuff board info source state blank addr cnt turns = some (errOk, after)) :
    Copied state.byte source addr cnt after.byte := by
  rw [writeBuff] at written
  generalize head : writeHead board info source state blank addr cnt = start at written
  obtain ⟨outcome, state'⟩ := start
  cases outcome with
  | error rc =>
    rw [Option.some.injEq, Prod.mk.injEq] at written
    have failed := @writeHead_givesUp board info source state blank addr cnt rc (by rw [head])
    exact absurd written.1 failed
  | ok copy =>
    have progress := writeHead_progress head
    dsimp only at written
    generalize aligned : writeAligned board info source state' blank copy turns = middle at written
    rcases middle with _ | ⟨rc | copy', state''⟩
    · cases written
    · rw [Option.some.injEq, Prod.mk.injEq] at written
      exact absurd written.1 (writeAligned_givesUp aligned rc rfl)
    · obtain ⟨progress', short⟩ := writeAligned_progress progress aligned
      rw [Option.some.injEq] at written
      exact writeTail_copied progress' short written

end Copy

end HrppBoot.Flash
