import HrppBoot.Board.BootInfo

/-!
# Reference texts

The reference text, and the key file of the self test, are read into the 128 bytes of `FileName`.
The limit that is passed down is `READ_FILE_MAX_SIZE`, and the bytes are cleared once, before the
first of the two searches. Each read of a text is looked at with the name that it finds.
-/

open ByteMemory

namespace HrppBoot.Board

/-- `"MNT.KEY"` -/
def testTextFilename : List UInt8 := [0x4d, 0x4e, 0x54, 0x2e, 0x4b, 0x45, 0x59]

/-- A read of a text into `FileName`. -/
structure TextRead where
  /-- `FileName` before it. -/
  before : List UInt8
  /-- What `file_fat_read` did. -/
  read : FileRead

section Reads

variable {σ : Type}

/-- The read that `osBoot_fat_fsload` makes, where it gets that far. -/
def fsloadReads (layer : FatLayer σ) (medium : Medium) (filename fileName : List UInt8) (state : σ) :
    List TextRead :=
  let (present, state) := layer.getDev medium state
  if !present then []
  else
    let (ret, state) := registerPartition layer medium (· == -2) [1, 2, 3] 0 state
    if ret ≠ 0 then []
    else [⟨fileName, (layer.fileFatRead filename readFileMaxSize state).1⟩]

/-- The reads of the reference text by `osBoot_Mode_1245`, on USB and then on SD. -/
def textReads (media : BootMedia σ) (state : σ) : List TextRead :=
  let cleared := List.replicate fileNameSize 0
  fsloadReads media.toFatLayer .usb instTextFilename cleared (media.goUsbStart state) ++
    match osBootFatFsload media.toFatLayer .usb instTextFilename cleared (media.goUsbStart state) with
    | none => []
    | some ((ret, fileName), state) =>
      if ret = 0 then []
      else if ret = 1 then fsloadReads media.toFatLayer .mmc instTextFilename fileName state
      else
        let (exist, state) := media.sdCardExistCheck state
        if exist then fsloadReads media.toFatLayer .mmc instTextFilename fileName state else []

/-- `osBoot_Mode_8`: the record, with boot mode 8 where the key file was read. -/
def osBootMode8 (layer : FatLayer σ) (boardVersion : UInt8) (state : σ) (ram : Memory) :
    Outcome BspBootInfo :=
  match osBootFatFsload layer .mmc testTextFilename (List.replicate fileNameSize 0) state with
  | none => .undefined
  | some ((ret, _), _) => .done
    { bootMode := if ret = 0 then 8 else 0
      errorCode := 0
      bootDevice := 5
      strage := 0
      osImageSize := 0
      keyInfo := ram.load keyInfoAddress 16
      ubootVer := ram.load (keyInfoAddress + 16) 16
      ebootVer := ram.load (keyInfoAddress + 32) 16
      boardVersion := boardVersion }

/-- The read of the key file by `osBoot_Mode_8`. -/
def keyReads (layer : FatLayer σ) (state : σ) : List TextRead :=
  fsloadReads layer .mmc testTextFilename (List.replicate fileNameSize 0) state

end Reads

def EndsName (c : UInt8) : Prop := c = 0x00 ∨ c = 0x0d ∨ c = 0x0a

instance (c : UInt8) : Decidable (EndsName c) := inferInstanceAs (Decidable (_ ∨ _))

/-- The name in a text: its bytes up to the first NUL, carriage return or line feed. -/
def nameOf (text : List UInt8) : List UInt8 := text.takeWhile fun c => !decide (EndsName c)

/-- The text fits `FileName`, and if it was read, the string there is its name. -/
def TextRead.Right (r : TextRead) : Prop :=
  ∃ after, writeFileName r.before r.read.bytes = some after ∧
    (r.read.success = true → cString (terminateName after) = some (nameOf r.read.bytes))

/-- The text has at most 128 bytes, and if it was read, its name ends in it or at the byte that
stands behind it. -/
def TextRead.Ended (r : TextRead) : Prop :=
  r.read.bytes.length ≤ fileNameSize ∧
    (r.read.success = true → (∃ c ∈ r.read.bytes, EndsName c) ∨
      ∃ c, (r.before.drop r.read.bytes.length).head? = some c ∧ EndsName c)

/-! ## Names -/

theorem mem_terminateName {buffer : List UInt8} :
    0x00 ∈ terminateName buffer ↔ ∃ c ∈ buffer, EndsName c := by
  induction buffer with
  | nil => simp [terminateName]
  | cons c rest ih =>
    rw [terminateName]
    simp only [List.mem_cons, exists_eq_or_imp]
    split
    · rename_i zero
      exact iff_of_true (zero ▸ List.mem_cons_self) (.inl (.inl zero))
    · rename_i nonzero
      rw [List.mem_cons, ih]
      apply or_congr_left
      unfold EndsName
      split
      · rename_i lineBreak
        exact iff_of_true rfl (.inr lineBreak)
      · rename_i plain
        exact iff_of_false (Ne.symm nonzero) (not_or.mpr ⟨nonzero, plain⟩)

theorem takeWhile_terminateName (buffer : List UInt8) :
    (terminateName buffer).takeWhile (· ≠ 0x00) = nameOf buffer := by
  induction buffer with
  | nil => rfl
  | cons c rest ih =>
    unfold nameOf at ih ⊢
    rw [terminateName]
    split
    · rename_i zero
      simp [zero, EndsName]
    · rename_i nonzero
      split
      · rename_i lineBreak
        have ended : EndsName c := .inr lineBreak
        simp [ended]
      · rename_i plain
        have further : ¬EndsName c := not_or.mpr ⟨nonzero, plain⟩
        simp only [List.takeWhile_cons, further, nonzero, ne_eq, not_false_eq_true, decide_true,
          decide_false, Bool.not_false, ↓reduceIte]
        rw [← ih]

theorem cString_terminateName (buffer : List UInt8) :
    cString (terminateName buffer) =
      if ∃ c ∈ buffer, EndsName c then some (nameOf buffer) else none := by
  rw [cString, takeWhile_terminateName]
  exact if_congr mem_terminateName rfl rfl

variable {text : List UInt8}

theorem nameOf_append_of_ended (tail : List UInt8) (ended : ∃ c ∈ text, EndsName c)
    : nameOf (text ++ tail) = nameOf text := by
  induction text with
  | nil =>
    obtain ⟨c, member, -⟩ := ended
    cases member
  | cons c rest ih =>
    unfold nameOf at ih ⊢
    simp only [List.mem_cons, exists_eq_or_imp] at ended
    by_cases here : EndsName c
    · simp [here]
    · have later := ended.resolve_left here
      simp only [List.cons_append, List.takeWhile_cons, here, decide_false, Bool.not_false,
        ↓reduceIte]
      rw [ih later]

theorem nameOf_append_of_open (tail : List UInt8) (endless : ¬∃ c ∈ text, EndsName c)
    : nameOf (text ++ tail) = text ++ nameOf tail := by
  unfold nameOf
  rw [List.takeWhile_append_of_pos]
  intro c member
  have further : ¬EndsName c := fun here => endless ⟨c, member, here⟩
  simp [further]

theorem nameOf_eq_nil :
    nameOf text = [] ↔ ∀ c, text.head? = some c → EndsName c := by
  cases text with
  | nil => simp [nameOf]
  | cons c rest =>
    by_cases here : EndsName c <;> simp [nameOf, here]

/-- A read is right exactly if its text is short and ended. -/
theorem TextRead.right_iff (r : TextRead) : r.Right ↔ r.Ended := by
  unfold TextRead.Right TextRead.Ended writeFileName
  by_cases short : r.read.bytes.length ≤ fileNameSize
  · simp only [short, ↓reduceIte, Option.some.injEq, exists_eq_left', true_and]
    apply forall_congr'
    intro _
    rw [cString_terminateName]
    generalize r.before.drop r.read.bytes.length = tail
    by_cases ended : ∃ c ∈ r.read.bytes, EndsName c
    · have whole : ∃ c ∈ r.read.bytes ++ tail, EndsName c := by
        obtain ⟨c, member, here⟩ := ended
        exact ⟨c, List.mem_append_left _ member, here⟩
      rw [if_pos whole, nameOf_append_of_ended tail ended]
      exact iff_of_true rfl (.inl ended)
    · have own : nameOf r.read.bytes = r.read.bytes := by
        simpa [nameOf] using nameOf_append_of_open [] ended
      rw [nameOf_append_of_open tail ended, own, or_iff_right ended]
      constructor
      · intro same
        split at same
        · rename_i whole
          rw [Option.some.injEq, List.append_right_eq_self, nameOf_eq_nil] at same
          cases tail with
          | nil =>
            rw [List.append_nil] at whole
            exact absurd whole ended
          | cons c rest => exact ⟨c, rfl, same c rfl⟩
        · cases same
      · rintro ⟨c, first, here⟩
        have member : c ∈ tail := List.mem_of_head? first
        have empty : nameOf tail = [] := by
          rw [nameOf_eq_nil]
          intro d also
          cases first.symm.trans also
          exact here
        rw [if_pos ⟨c, List.mem_append_right _ member, here⟩, empty, List.append_nil]
  · simp [short]

/-! ## Runs -/

section Runs

variable {σ : Type}

theorem osBootFatFsload_defined_iff (layer : FatLayer σ) (medium : Medium)
    (filename fileName : List UInt8) (state : σ) :
    osBootFatFsload layer medium filename fileName state ≠ none ↔
      ∀ r ∈ fsloadReads layer medium filename fileName state,
        r.read.bytes.length ≤ fileNameSize := by
  simp only [osBootFatFsload, fsloadReads]
  split
  · simp
  split
  · simp
  · rw [List.forall_mem_singleton, writeFileName]
    dsimp only
    split
    · rename_i overrun
      split at overrun
      · cases overrun
      · rename_i long
        exact iff_of_false (fun defined => defined rfl) long
    · rename_i fits
      split at fits
      · rename_i short
        exact iff_of_true (Option.some_ne_none _) short
      · cases fits

end Runs

/-- The texts are stored inside `FileName` and their names found exactly if they are short and
ended; the key file is stored inside it exactly if it is short. -/
theorem reference_texts_right_iff {σ : Type} (media : BootMedia σ) (boardVersion : UInt8)
    (state : σ) (ram : Memory) :
    ((∀ r ∈ textReads media state, r.Right) ↔ ∀ r ∈ textReads media state, r.Ended) ∧
      ((∃ info, osBootMode8 media.toFatLayer boardVersion state ram = .done info) ↔
        ∀ r ∈ keyReads media.toFatLayer state, r.read.bytes.length ≤ fileNameSize) := by
  constructor
  · apply forall₂_congr
    intro r _
    exact r.right_iff
  · rw [keyReads, ← osBootFatFsload_defined_iff]
    unfold osBootMode8
    cases osBootFatFsload media.toFatLayer .mmc testTextFilename
      (List.replicate fileNameSize 0) state with
    | none => exact iff_of_false (fun ⟨_, done⟩ => by cases done) fun defined => defined rfl
    | some result => exact iff_of_true ⟨_, rfl⟩ (Option.some_ne_none _)

/-- A medium with a text of 129 bytes. -/
def longTextMedia : BootMedia Unit where
  toFatLayer := FatLayer.ofFile (List.replicate 129 0x41)
  goUsbStart := id
  sdCardExistCheck state := (false, state)

/-- It is stored behind the end of `FileName`. -/
theorem reference_text_overruns :
    ¬∀ (σ : Type) (media : BootMedia σ) (state : σ), ∀ r ∈ textReads media state, r.Right := by
  intro every
  have asked : (⟨List.replicate fileNameSize 0, ⟨true, List.replicate 129 0x41⟩⟩ : TextRead) ∈
      textReads longTextMedia () := by
    apply List.mem_append_left
    simp [fsloadReads, longTextMedia, FatLayer.ofFile, registerPartition, readFileMaxSize]
  have right := every Unit longTextMedia () _ asked
  rw [TextRead.right_iff] at right
  have short : (List.replicate 129 (0x41 : UInt8)).length ≤ fileNameSize := right.1
  rw [List.length_replicate] at short
  exact absurd short (by decide)

end HrppBoot.Board
