import HrppBoot.Flash.CfiProgram

/-!
# Copies that succeed

Where the flash has the bits of the source, the chip reports no error and nobody breaks off, every
word and every chunk is written, and the copy comes to its end: each turn copies at least a word. A
chunk does so when the write buffer is made of words. So both ways of writing an erased target
succeed, and they leave the same flash.
-/

namespace HrppBoot.Flash

open ByteWords

/-- The chip reports no error, and the user does not break off. -/
structure Quiet (board : Board) : Prop where
  report : ∀ n, board.report n = errOk
  ctrlc : ∀ n, board.ctrlc n = false

/-- The chunks of the write buffer are made of words, if there are chunks. -/
def Chunked (board : Board) (info : FlashInfo) : Prop :=
  board.useBufferWrite = true → info.bufferSize ≠ 1 → info.vendor ≠ .amdLegacy ∧
    0 < info.portwidth.bytes / info.chipwidth.bytes * info.bufferSize ∧
    info.portwidth.bytes ∣ info.portwidth.bytes / info.chipwidth.bytes * info.bufferSize

/-- The flash has the bits of the source, as an erased flash has. -/
def Erased (before source : Nat → BitVec 8) (addr cnt : Nat) : Prop :=
  ∀ k < cnt, before (addr + k) &&& source k = source k

section Success

variable {board : Board} {info : FlashInfo} {before source : Nat → BitVec 8} {addr cnt : Nat}
  (quiet : Quiet board)
include quiet

variable {state : FlashState} {copy : Copy}

theorem flashWriteCfiword_ok {dest : Nat} {cword : Cfiword info.portwidth}
    (erased : ∀ k < info.portwidth.bytes, state.byte (dest + k) &&& byteOf board.order cword k =
      byteOf board.order cword k) :
    ∃ after, flashWriteCfiword board info state dest cword = (errOk, after) := by
  have bits : flashRead board info state.byte dest &&& cword = cword := by
    apply @ext_bytes board.order
    intro k inside
    rw [byteOf_and, flashRead, byteOf_ofBytes _ inside, erased k inside]
  rw [flashWriteCfiword, if_pos bits, flashStatus, quiet.report]
  exact ⟨_, rfl⟩

theorem Copied.word_ok {state : FlashState} {wp aln src taken behind : Nat}
    {blank : Cfiword info.portwidth} (copied : Copied before source addr src state.byte)
    (erased : Erased before source addr cnt) (room : src + taken ≤ cnt)
    (filled : aln + taken + behind = info.portwidth.bytes) (place : wp + aln = addr + src) :
    ∃ after, flashWriteCfiword board info state wp (flashAddBytes board info blank
      (flashBytes state wp aln ++ sourceBytes source src taken ++
        flashBytes state (wp + aln + taken) behind)) = (errOk, after) := by
  apply flashWriteCfiword_ok quiet
  intro k inside
  have length : (flashBytes state wp aln ++ sourceBytes source src taken ++
      flashBytes state (wp + aln + taken) behind).length = info.portwidth.bytes := by
    simp only [List.length_append, flashBytes, sourceBytes, List.length_map, List.length_range,
      filled]
  rw [byteOf_filled _ length inside, getD_word (by omega)]
  by_cases own : aln ≤ k ∧ k < aln + taken
  · have bits := erased (src + (k - aln)) (by omega)
    rw [if_pos own, copied (wp + k), if_neg (by omega)]
    rwa [show addr + (src + (k - aln)) = wp + k by omega] at bits
  · rw [if_neg own, BitVec.and_self]

theorem writeHead_ok {state : FlashState} (blank : Nat → Cfiword info.portwidth)
    (erased : Erased state.byte source addr cnt) : ∃ copy after,
      writeHead board info source state blank addr cnt = (.ok copy, after) ∧
        info.portwidth.bytes ∣ copy.wp ∧ copy.cnt ≤ cnt := by
  have positive := info.portwidth.bytes_pos
  have low := Align.down_le addr info.portwidth.bytes
  have high := Align.lt_down_add addr positive
  have multiple := Align.dvd_down addr info.portwidth.bytes
  rw [writeHead]
  dsimp only
  by_cases aligned : addr - Align.down addr info.portwidth.bytes = 0
  · rw [if_pos aligned]
    exact ⟨_, _, rfl, multiple, Nat.le_refl _⟩
  · rw [if_neg aligned]
    obtain ⟨filled, inside, -⟩ := @head_filled info.portwidth.bytes
      (addr - Align.down addr info.portwidth.bytes) cnt (by omega)
    obtain ⟨after, word⟩ := @Copied.word_ok board info state.byte source addr cnt quiet state
      (Align.down addr info.portwidth.bytes) (addr - Align.down addr info.portwidth.bytes) 0 _ _
      (blank (Align.down addr info.portwidth.bytes)) (copied_zero state.byte source addr) erased
      (by rwa [Nat.zero_add]) filled (by omega)
    rw [word]
    dsimp only
    rw [if_neg (by decide), filled]
    exact ⟨_, _, rfl, (Nat.dvd_add_right multiple).mpr (Nat.dvd_refl _), Nat.sub_le _ _⟩

theorem writeWord_ok (blank : Nat → Cfiword info.portwidth) (erased : Erased before source addr cnt)
    (progress : Progress before source addr cnt copy state) (more : info.portwidth.bytes ≤ copy.cnt)
    : ∃ after,
      writeWord board info source state blank copy = (.ok ⟨copy.wp + info.portwidth.bytes,
        copy.src + info.portwidth.bytes, copy.cnt - info.portwidth.bytes⟩, after) := by
  have positive := info.portwidth.bytes_pos
  have total := progress.total
  have next := progress.next
  obtain ⟨after, word⟩ := @Copied.word_ok board info before source addr cnt quiet state copy.wp 0
    copy.src info.portwidth.bytes 0 (blank copy.wp) progress.copied erased (by omega) (by omega)
    (by omega)
  have whole : flashBytes state copy.wp 0 ++ sourceBytes source copy.src info.portwidth.bytes ++
      flashBytes state (copy.wp + 0 + info.portwidth.bytes) 0 =
        sourceBytes source copy.src info.portwidth.bytes := by
    simp [flashBytes]
  rw [whole] at word
  rw [writeWord, word]
  exact ⟨after, rfl⟩

theorem checkCtrlc_quiet (state : FlashState) (limit : Nat) (copy : Copy) :
    ∃ after, checkCtrlc board state limit copy = (.ok copy, after) := by
  rw [checkCtrlc]
  by_cases now : copy.cnt % 2 ^ 16 < limit
  · rw [if_pos now, quiet.ctrlc]
    exact ⟨_, rfl⟩
  · rw [if_neg now]
    exact ⟨_, rfl⟩

omit quiet in
theorem erasedFor_of_bytes {src dst n : Nat}
    (erased : ∀ k < n * info.portwidth.bytes,
      state.byte (dst + k) &&& source (src + k) = source (src + k)) :
    erasedFor board info state source src dst n = true := by
  induction n generalizing src dst with
  | zero => rfl
  | succ n ih =>
    rw [Nat.succ_mul] at erased
    have word : flashRead board info state.byte dst &&& flashRead board info source src =
        flashRead board info source src := by
      apply @ext_bytes board.order
      intro k inside
      rw [byteOf_and, flashRead, flashRead, byteOf_ofBytes _ inside, byteOf_ofBytes _ inside]
      exact erased k (by omega)
    rw [erasedFor, if_pos word]
    apply ih
    intro k inside
    have bits := erased (info.portwidth.bytes + k) (by omega)
    rwa [← Nat.add_assoc, ← Nat.add_assoc] at bits

theorem flashWriteCfibuffer_ok {state : FlashState} {dest cp len : Nat}
    (known : info.vendor ≠ .amdLegacy)
    (erased : ∀ k < len, state.byte (dest + k) &&& source (cp + k) = source (cp + k)) :
    ∃ after, flashWriteCfibuffer board info state dest source cp len = (errOk, after) := by
  have words := Nat.div_mul_le_self len info.portwidth.bytes
  rw [flashWriteCfibuffer]
  dsimp only
  rw [if_pos (erasedFor_of_bytes fun k inside => erased k (by omega))]
  cases vendor : info.vendor with
  | intel =>
    simp only [flashStatus, quiet.report, if_true]
    exact ⟨_, rfl⟩
  | amd =>
    simp only [flashStatus, quiet.report]
    exact ⟨_, rfl⟩
  | amdLegacy => exact absurd vendor known

/-- A turn of the loop over the aligned part copies something. -/
theorem writeTurn_ok (blank : Nat → Cfiword info.portwidth) (chunked : Chunked board info)
    (erased : Erased before source addr cnt) (progress : Progress before source addr cnt copy state)
    (multiple : info.portwidth.bytes ∣ copy.wp) (more : info.portwidth.bytes ≤ copy.cnt) :
    ∃ copy' after, writeTurn board info source state blank copy = some (.ok copy', after) ∧
      info.portwidth.bytes ∣ copy'.wp ∧ copy'.cnt < copy.cnt := by
  have positive := info.portwidth.bytes_pos
  have total := progress.total
  have next := progress.next
  obtain ⟨after, word⟩ := writeWord_ok quiet blank erased progress more
  have advance : info.portwidth.bytes ∣ copy.wp + info.portwidth.bytes :=
    (Nat.dvd_add_right multiple).mpr (Nat.dvd_refl _)
  rw [writeTurn]
  dsimp only
  by_cases buffer : board.useBufferWrite = true
  · rw [if_pos buffer]
    by_cases single : info.bufferSize = 1
    · rw [if_pos single, word]
      exact ⟨_, _, rfl, advance, by dsimp only; omega⟩
    · obtain ⟨known, some, chunks⟩ := chunked buffer single
      rw [if_neg single, if_neg (by omega)]
      generalize size : info.portwidth.bytes / info.chipwidth.bytes * info.bufferSize = chunk
        at some chunks
      have inside := Nat.mod_lt copy.wp some
      -- the rest of the chunk is made of words too
      have rest : info.portwidth.bytes ≤ chunk - copy.wp % chunk := by
        have words := Nat.dvd_sub chunks ((Nat.dvd_mod_iff chunks).mpr multiple)
        exact Nat.le_of_dvd (by omega) words
      have least : info.portwidth.bytes ≤ min (chunk - copy.wp % chunk) copy.cnt ∧
          min (chunk - copy.wp % chunk) copy.cnt ≤ copy.cnt := by omega
      generalize min (chunk - copy.wp % chunk) copy.cnt = i at least ⊢
      have bits : ∀ k < i, state.byte (copy.wp + k) &&& source (copy.src + k) =
          source (copy.src + k) := by
        intro k below
        rw [progress.copied, if_neg (by omega), show copy.wp + k = addr + (copy.src + k) by omega]
        exact erased (copy.src + k) (by omega)
      obtain ⟨after', written⟩ := @flashWriteCfibuffer_ok board info source quiet state copy.wp
        copy.src i known bits
      rw [written]
      dsimp only
      rw [if_neg (by decide)]
      obtain ⟨after'', asked⟩ := checkCtrlc_quiet quiet after' chunk
        ⟨copy.wp + (i - i % info.portwidth.bytes), copy.src + (i - i % info.portwidth.bytes),
          copy.cnt - (i - i % info.portwidth.bytes)⟩
      rw [asked]
      have words := Nat.mod_lt i positive
      exact ⟨_, _, rfl, (Nat.dvd_add_right multiple).mpr (Nat.dvd_sub_mod i),
        by dsimp only; omega⟩
  · rw [if_neg buffer, word]
    obtain ⟨after', asked⟩ := checkCtrlc_quiet quiet after info.portwidth.bytes
      ⟨copy.wp + info.portwidth.bytes, copy.src + info.portwidth.bytes,
        copy.cnt - info.portwidth.bytes⟩
    dsimp only
    rw [asked]
    exact ⟨_, _, rfl, advance, by dsimp only; omega⟩

theorem writeAligned_ok {turns : Nat} (blank : Nat → Cfiword info.portwidth)
    (chunked : Chunked board info) (erased : Erased before source addr cnt)
    (progress : Progress before source addr cnt copy state)
    (multiple : info.portwidth.bytes ∣ copy.wp) (enough : copy.cnt < turns) :
    ∃ copy' after,
      writeAligned board info source state blank copy turns = some (.ok copy', after) := by
  induction turns generalizing state copy with
  | zero => omega
  | succ turns ih =>
    rw [writeAligned]
    by_cases done : copy.cnt < info.portwidth.bytes
    · rw [if_pos done]
      exact ⟨_, _, rfl⟩
    · obtain ⟨copy', after, turn, multiple', less⟩ :=
        writeTurn_ok quiet blank chunked erased progress multiple (by omega)
      rw [if_neg done, turn]
      exact ih (writeTurn_progress progress (by omega) turn) multiple' (by omega)

theorem writeTail_ok (blank : Nat → Cfiword info.portwidth) (erased : Erased before source addr cnt)
    (progress : Progress before source addr cnt copy state)
    (short : copy.cnt < info.portwidth.bytes) :
    ∃ after, writeTail board info source state blank copy = (errOk, after) := by
  have total := progress.total
  have next := progress.next
  rw [writeTail]
  by_cases none : copy.cnt = 0
  · rw [if_pos none]
    exact ⟨_, rfl⟩
  · obtain ⟨after, word⟩ := @Copied.word_ok board info before source addr cnt quiet state copy.wp 0
      copy.src copy.cnt (info.portwidth.bytes - copy.cnt) (blank copy.wp) progress.copied erased
      (by omega) (by omega) (by omega)
    have whole : flashBytes state copy.wp 0 ++ sourceBytes source copy.src copy.cnt ++
        flashBytes state (copy.wp + 0 + copy.cnt) (info.portwidth.bytes - copy.cnt) =
          sourceBytes source copy.src copy.cnt ++
            flashBytes state (copy.wp + copy.cnt) (info.portwidth.bytes - copy.cnt) := by
      simp [flashBytes]
    rw [whole] at word
    rw [if_neg none, show min info.portwidth.bytes copy.cnt = copy.cnt by omega]
    exact ⟨after, word⟩

theorem writeBuff_ok {state : FlashState} (blank : Nat → Cfiword info.portwidth)
    (chunked : Chunked board info) (erased : Erased state.byte source addr cnt) :
    ∃ after, writeBuff board info source state blank addr cnt (cnt + 1) = some (errOk, after) := by
  obtain ⟨copy, start, head, multiple, le⟩ := @writeHead_ok board info source addr cnt quiet state
    blank erased
  have progress := writeHead_progress head
  obtain ⟨copy', middle, aligned⟩ := writeAligned_ok quiet blank chunked erased progress multiple
    (show copy.cnt < cnt + 1 by omega)
  obtain ⟨progress', short⟩ := writeAligned_progress progress aligned
  obtain ⟨after, tail⟩ := writeTail_ok quiet blank erased progress' short
  rw [writeBuff, head]
  dsimp only
  rw [aligned]
  exact ⟨after, congrArg some tail⟩

end Success

/-! ## Both ways of writing -/

/-- A copy that succeeds leaves the bytes of the source in the target and all others as they were,
and so it leaves the same flash word by word and through the write buffer. -/
theorem writeBuff_correct (info : FlashInfo) (source : Nat → BitVec 8) (state : FlashState)
    (addr cnt : Nat) :
    (∀ board blank turns after,
      writeBuff board info source state blank addr cnt turns = some (errOk, after) →
        Copied state.byte source addr cnt after.byte) ∧
      ∀ words buffered : Board, words.useBufferWrite = false → buffered.useBufferWrite = true →
        ∀ blank blank' turns turns' after after',
          writeBuff words info source state blank addr cnt turns = some (errOk, after) →
          writeBuff buffered info source state blank' addr cnt turns' = some (errOk, after') →
          after.byte = after'.byte := by
  constructor
  · intro board blank turns after written
    exact writeBuff_copied written
  · intro words buffered _ _ blank blank' turns turns' after after' written written'
    funext a
    rw [writeBuff_copied written a, writeBuff_copied written' a]

/-- A flash of 16-bit words made of two 8-bit chips, with a write buffer of 16 bytes each. -/
def pairedChips : FlashInfo := ⟨.w16, .w8, 4, .amd⟩

/-- A board on which no chip reports an error, with and without buffered writes. -/
def quietBoard (buffered : Bool) : Board := ⟨.little, buffered, fun _ => 0, fun _ => false⟩

/-- Six bytes, written from an odd address of an erased flash on. -/
def oddWrite (buffered : Bool) : Option (Int × FlashState) :=
  writeBuff (quietBoard buffered) pairedChips (fun k => BitVec.ofNat 8 k) ⟨fun _ => 0xff, 0, 0⟩
    (fun _ => 0) 1 6 7

/-- Word by word and through the write buffer they are all stored. -/
theorem writeBuff_correct_odd :
    ∃ after after' : FlashState, oddWrite false = some (errOk, after) ∧
      oddWrite true = some (errOk, after') ∧
      Copied (fun _ => 0xff) (fun k => BitVec.ofNat 8 k) 1 6 after.byte ∧
      after.byte = after'.byte := by
  have erased : Erased (fun _ => 0xff) (fun k => BitVec.ofNat 8 k) 1 6 := fun k _ =>
    BitVec.allOnes_and
  have quiet (buffered : Bool) : Quiet (quietBoard buffered) := ⟨fun _ => rfl, fun _ => rfl⟩
  obtain ⟨after, written⟩ := @writeBuff_ok _ pairedChips _ 1 6 (quiet false) ⟨fun _ => 0xff, 0, 0⟩
    (fun _ => 0) (fun buffer => absurd buffer (by decide)) erased
  obtain ⟨after', written'⟩ := @writeBuff_ok _ pairedChips _ 1 6 (quiet true) ⟨fun _ => 0xff, 0, 0⟩
    (fun _ => 0) (fun _ _ => ⟨by decide, by decide, by decide⟩) erased
  have correct :=
    writeBuff_correct pairedChips (fun k => BitVec.ofNat 8 k) ⟨fun _ => 0xff, 0, 0⟩ 1 6
  exact ⟨after, after', written, written', correct.1 _ _ _ after written,
    correct.2 (quietBoard false) (quietBoard true) rfl rfl _ _ _ _ after after' written written'⟩

end HrppBoot.Flash
