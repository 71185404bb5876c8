import HrppBoot.Board.Loader

/-!
# Where the loader writes

The walk copies every record to the address the record names and pre-fills 120 MB from the
address of the first one, without comparing either with the OS window. So the writes stay in
the window exactly when the image is laid out that way: `RecordsConfined` says so of the
staged bytes alone, by listing the records that follow each other in them, and
`osBootFatFsloadBin_confined_iff` is the equivalence. While the writes are confined they never
touch the staging area, which is why the records can be read off the staged bytes as they were
before the walk.
-/

open ByteMemory

namespace HrppBoot.Board

/-- Addresses that are not in the OS window. -/
def OutsideWindow (a : Nat) : Prop := a < nkImageRamStart ∨ nkImageRamEnd ≤ a

/-- All bytes of the record are linked inside the OS window. -/
def MdHdr.Fits (header : MdHdr) : Prop :=
  Span.Within ⟨header.pBuffer, header.dwSize.toNat⟩ nkImageRamStart nkImageRamEnd

instance (header : MdHdr) : Decidable header.Fits := inferInstanceAs (Decidable (Span.Within ..))

/-- The records that follow each other in memory from `p` on: up to a terminator, to a record
whose sum is wrong, or to the end of RAM. -/
def imageRecords (m : Memory) (p : Nat) : List MdHdr :=
  if h : p + 12 ≤ ramEnd then
    let header := mdHdrAt m p
    if header.IsTerminator then []
    else if p + 12 + header.dwSize.toNat ≤ ramEnd ∧
        header.dwSum = ataMakeSum m (p + 12) header.dwSize.toNat then
      header :: imageRecords m (p + 12 + header.dwSize.toNat)
    else [header]
  else []
termination_by ramEnd - p
decreasing_by omega

/-- The staged image header is refused: wrong signature, or an image larger than the window. -/
def HeaderRefused (m : Memory) : Prop :=
  m.load nkImageStoreStart 7 ≠ nkSignature ∨
    nkImageNorSize < (nkHdrAt m (nkImageStoreStart + 7)).dwSize.toNat

/-- The layout of the staged image keeps the walk in the window: the first record is linked at
the start of the window, and no record has a byte outside it. -/
def RecordsConfined (m : Memory) : Prop :=
  (∀ header ∈ (imageRecords m (nkImageStoreStart + 15)).head?, header.dwAddress = 0x80600000) ∧
    ∀ header ∈ imageRecords m (nkImageStoreStart + 15), header.Fits

/-- What is asked of a load: every byte written is in the OS window, and a record that leaves
the window makes the routine return an error. -/
def WritesConfined (load : ImageLoad) : Prop :=
  (∀ span ∈ load.state.writes, span.Inside nkImageRamStart nkImageRamEnd) ∧
    ∀ header ∈ load.state.records, ¬header.Fits → ∃ code, load.exit = .ret code ∧ code ≠ 0

theorem pBuffer_eq_start (header : MdHdr) :
    header.pBuffer = nkImageRamStart ↔ header.dwAddress = 0x80600000 := by
  have bound := header.dwAddress.toNat_lt
  simp only [MdHdr.pBuffer, nkImageRamStart, UInt32.toNat_sub, ← UInt32.toNat_inj]
  change (2 ^ 32 - 0x70000000 + header.dwAddress.toNat) % 2 ^ 32 = 0x10600000 ↔
    header.dwAddress.toNat = 0x80600000
  omega

theorem prefill_inside (header : MdHdr) :
    Span.Inside ⟨header.pBuffer, nkImageNorSize⟩ nkImageRamStart nkImageRamEnd ↔
      header.dwAddress = 0x80600000 := by
  rw [← pBuffer_eq_start]
  simp only [Span.Inside, nkImageRamEnd]
  omega

theorem ataMakeSumFrom_congr {left right : Memory} (count : Nat) :
    ∀ {a b : Nat} (sum : UInt32), (∀ i < count, left (a + i) = right (b + i)) →
      ataMakeSumFrom left a count sum = ataMakeSumFrom right b count sum := by
  induction count with
  | zero => intro a b sum same; rfl
  | succ count ih =>
    intro a b sum same
    have first := same 0 (by omega)
    simp only [ataMakeSumFrom, Nat.add_zero] at first ⊢
    rw [first]
    refine ih _ fun i inside => ?_
    have later := same (i + 1) (by omega)
    rwa [show a + (i + 1) = a + 1 + i by omega, show b + (i + 1) = b + 1 + i by omega] at later

theorem copyChunks_eq_copy (m : Memory) (dst src dwSize : Nat)
    (disjoint : src + dwSize ≤ dst ∨ dst + dwSize ≤ src) :
    copyChunks m dst src dwSize = m.copy dst src dwSize := by
  induction dwSize using Nat.strongRecOn generalizing m dst src with
  | ind dwSize ih =>
    rw [copyChunks]
    by_cases zero : dwSize = 0
    · simp [zero, Memory.copy_zero]
    · obtain ⟨small, positive⟩ := dwReadReqSize_bounds dwSize
      have positive := positive zero
      simp only [zero, ↓reduceIte]
      rw [ih (dwSize - dwReadReqSize dwSize) (by omega) _ _ _ (by omega),
        Memory.copy_append _ _ _ _ _ (by omega)]
      congr 1
      omega

section Confined

variable {m : Memory} {s : LoadState}

theorem header_eq_staged (same : Memory.Agree OutsideWindow m s.mem)
    (staged : nkImageStoreStart ≤ s.pCurrentAddr) : s.header = mdHdrAt m s.pCurrentAddr := by
  have word (offset : Nat) : s.mem.word32 (s.pCurrentAddr + offset) =
      m.word32 (s.pCurrentAddr + offset) := by
    refine Memory.word32_congr fun a inside => (same a ?_).symm
    simp only [OutsideWindow, nkImageRamEnd, nkImageRamStart, nkImageNorSize, nkImageStoreStart]
      at staged ⊢
    omega
  simp only [LoadState.header, mdHdrAt, word, show s.mem.word32 s.pCurrentAddr = _ from word 0]
  rfl

theorem filled_agree (same : Memory.Agree OutsideWindow m s.mem)
    (first : s.ramInit = true ∨ s.header.dwAddress = 0x80600000) :
    Memory.Agree OutsideWindow m s.filled := by
  intro a outside
  rw [LoadState.filled]
  split
  · exact same a outside
  · rename_i pending
    have start := (pBuffer_eq_start s.header).mpr (first.resolve_left (by simpa using pending))
    rw [Memory.fill_outside]
    · exact same a outside
    · rw [start]
      exact outside

theorem placed_mem (staged : nkImageStoreStart ≤ s.pCurrentAddr) (fits : s.header.Fits) :
    s.placed.mem =
      s.filled.copy s.header.pBuffer (s.pCurrentAddr + 12) s.header.dwSize.toNat := by
  rcases fits with empty | inside
  · simp only [LoadState.placed, show s.header.dwSize.toNat = 0 from empty, Memory.copy_zero]
    rw [copyChunks, if_pos rfl]
  · refine copyChunks_eq_copy _ _ _ _ (.inr ?_)
    simp only [Span.Inside, nkImageRamStart, nkImageRamEnd, nkImageNorSize, nkImageStoreStart]
      at inside staged
    omega

theorem placed_agree (same : Memory.Agree OutsideWindow m s.mem)
    (staged : nkImageStoreStart ≤ s.pCurrentAddr) (fits : s.header.Fits)
    (first : s.ramInit = true ∨ s.header.dwAddress = 0x80600000) :
    Memory.Agree OutsideWindow m s.placed.mem := by
  intro a outside
  rw [placed_mem staged fits, Memory.copy_outside]
  · exact filled_agree same first a outside
  · rcases fits with empty | inside
    · simp only [show s.header.dwSize.toNat = 0 from empty]
      omega
    · simp only [Span.Inside, OutsideWindow] at inside outside
      omega

theorem sumMatches_iff_staged (same : Memory.Agree OutsideWindow m s.mem)
    (staged : nkImageStoreStart ≤ s.pCurrentAddr) (fits : s.header.Fits)
    (first : s.ramInit = true ∨ s.header.dwAddress = 0x80600000) :
    s.SumMatches ↔
      s.header.dwSum = ataMakeSum m (s.pCurrentAddr + 12) s.header.dwSize.toNat := by
  have sum : ataMakeSum s.placed.mem s.header.pBuffer s.header.dwSize.toNat =
      ataMakeSum m (s.pCurrentAddr + 12) s.header.dwSize.toNat := by
    refine ataMakeSumFrom_congr _ _ fun i inside => ?_
    rw [placed_mem staged fits, Memory.copy_inside _ _ _ _ _ (by omega), Nat.add_sub_cancel_left]
    refine (filled_agree same first _ ?_).symm
    simp only [OutsideWindow, nkImageRamEnd, nkImageRamStart, nkImageNorSize, nkImageStoreStart]
      at staged ⊢
    omega
  rw [LoadState.SumMatches, sum]

theorem placed_writes_confined (s : LoadState) :
    (∀ span ∈ s.placed.writes, span.Inside nkImageRamStart nkImageRamEnd) ↔
      s.header.Fits ∧ ∀ span ∈ s.filledWrites, span.Inside nkImageRamStart nkImageRamEnd := by
  rw [LoadState.placed, List.forall_mem_append, chunkSpans_inside]
  rfl

theorem filledWrites_confined (s : LoadState) :
    (∀ span ∈ s.filledWrites, span.Inside nkImageRamStart nkImageRamEnd) ↔
      (s.ramInit = true ∨ s.header.dwAddress = 0x80600000) ∧
        ∀ span ∈ s.writes, span.Inside nkImageRamStart nkImageRamEnd := by
  rw [LoadState.filledWrites]
  cases init : s.ramInit with
  | true => simp
  | false => simp [prefill_inside]

variable {p : Nat}

theorem imageRecords_of_terminator (ends : (mdHdrAt m p).IsTerminator) :
    imageRecords m p = [] := by
  rw [imageRecords]
  simp [ends]

theorem imageRecords_of_outside (outside : ¬p + 12 ≤ ramEnd) : imageRecords m p = [] := by
  rw [imageRecords, dif_neg outside]

theorem imageRecords_of_record (inside : p + 12 ≤ ramEnd) (record : ¬(mdHdrAt m p).IsTerminator) :
    imageRecords m p = mdHdrAt m p ::
      if p + 12 + (mdHdrAt m p).dwSize.toNat ≤ ramEnd ∧
          (mdHdrAt m p).dwSum = ataMakeSum m (p + 12) (mdHdrAt m p).dwSize.toNat then
        imageRecords m (p + 12 + (mdHdrAt m p).dwSize.toNat)
      else [] := by
  rw [imageRecords]
  simp only [inside, ↓reduceDIte, record, ↓reduceIte]
  split <;> rfl

/-- What a walk needs of the staged records from its position on. -/
def ConfinedFrom (m : Memory) (p : Nat) (ramInit : Bool) : Prop :=
  (ramInit = true ∨ ∀ header ∈ (imageRecords m p).head?, header.dwAddress = 0x80600000) ∧
    ∀ header ∈ imageRecords m p, header.Fits

theorem confinedFrom_record (ramInit : Bool) (inside : p + 12 ≤ ramEnd)
    (record : ¬(mdHdrAt m p).IsTerminator) :
    ConfinedFrom m p ramInit ↔
      (ramInit = true ∨ (mdHdrAt m p).dwAddress = 0x80600000) ∧ (mdHdrAt m p).Fits ∧
        (p + 12 + (mdHdrAt m p).dwSize.toNat ≤ ramEnd →
          (mdHdrAt m p).dwSum = ataMakeSum m (p + 12) (mdHdrAt m p).dwSize.toNat →
          ConfinedFrom m (p + 12 + (mdHdrAt m p).dwSize.toNat) true) := by
  rw [ConfinedFrom, imageRecords_of_record inside record]
  simp only [List.head?_cons, Option.mem_some_iff, forall_eq', List.mem_cons, forall_eq_or_imp]
  split
  · rename_i continues
    simp [ConfinedFrom, continues]
  · rename_i ends
    have ends (body : p + 12 + (mdHdrAt m p).dwSize.toNat ≤ ramEnd)
        (sum : (mdHdrAt m p).dwSum = ataMakeSum m (p + 12) (mdHdrAt m p).dwSize.toNat) :
        False := ends ⟨body, sum⟩
    simp only [List.not_mem_nil, false_implies, implies_true, and_true]
    exact and_congr_right fun _ => ⟨fun fits => ⟨fits, fun body sum => (ends body sum).elim⟩,
      fun both => both.1⟩

theorem placeable_of_confined (staged : nkImageStoreStart ≤ s.pCurrentAddr) (fits : s.header.Fits)
    (first : s.ramInit = true ∨ s.header.dwAddress = 0x80600000)
    (body : s.header.dwSize.toNat = 0 ∨ s.recordEnd ≤ ramEnd) : s.Placeable where
  fill := by
    refine first.imp_right fun linked => ?_
    rw [(pBuffer_eq_start s.header).mpr linked]
    decide
  target := by
    refine fits.imp_right fun inside => ?_
    simp only [Span.Inside, ramStart, ramEnd, nkImageRamStart, nkImageRamEnd, nkImageNorSize]
      at inside ⊢
    omega
  source := by
    refine body.imp_right fun inside => ?_
    simp only [Span.Inside, LoadState.recordEnd, ramStart, nkImageStoreStart] at inside staged ⊢
    omega

/-- What is asked of the rest of a walk. -/
def WalkConfined (outcome : Exit × LoadState) : Prop :=
  (∀ span ∈ outcome.2.writes, span.Inside nkImageRamStart nkImageRamEnd) ∧
    ∀ header ∈ outcome.2.records, ¬header.Fits → ∃ code, outcome.1 = .ret code ∧ code ≠ 0

theorem walkConfined_placed (s : LoadState) (confined : WalkConfined (recordLoop s.placed)) :
    s.header.Fits ∧ (s.ramInit = true ∨ s.header.dwAddress = 0x80600000) := by
  have writes := fun span listed => confined.1 span (recordLoop_writes s.placed listed)
  obtain ⟨fits, filled⟩ := (placed_writes_confined s).mp writes
  exact ⟨fits, ((filledWrites_confined s).mp filled).1⟩

/-- A walk that has been confined so far stays so exactly when the staged records ahead are
confined. The induction is over the turns; the invariant is that RAM outside the window is
still the staged one. -/
theorem recordLoop_confined_iff (m : Memory) (s : LoadState)
    (same : Memory.Agree OutsideWindow m s.mem) (staged : nkImageStoreStart ≤ s.pCurrentAddr)
    (writes : ∀ span ∈ s.writes, span.Inside nkImageRamStart nkImageRamEnd)
    (records : ∀ header ∈ s.records, header.Fits) :
    WalkConfined (recordLoop s) ↔ ConfinedFrom m s.pCurrentAddr s.ramInit := by
  induction s using walk_induction with
  | turn s ih =>
    have header := header_eq_staged same staged
    have ramBound : ramStart ≤ s.pCurrentAddr := by
      simp only [ramStart, nkImageStoreStart] at staged ⊢
      omega
    have turn := recordStep_turn s
    cases step : recordStep s with
    | stop exit s' =>
      rw [step] at turn
      rw [recordLoop_stop step]
      cases turn with
      | headerFault outside =>
        have none : imageRecords m s.pCurrentAddr = [] :=
          imageRecords_of_outside fun inside => outside ⟨ramBound, inside⟩
        refine iff_of_true ⟨writes, fun h listed unfit => absurd (records h listed) unfit⟩ ?_
        simp [ConfinedFrom, none]
      | terminator inRam ends =>
        have none : imageRecords m s.pCurrentAddr = [] :=
          imageRecords_of_terminator (header ▸ ends)
        refine iff_of_true ⟨writes, fun h listed unfit => absurd (records h listed) unfit⟩ ?_
        simp [ConfinedFrom, none]
      | badSum inRam record placeable sum =>
        rw [confinedFrom_record _ inRam.2 (header ▸ record), ← header]
        constructor
        · rintro ⟨placedWrites, -⟩
          obtain ⟨fits, filled⟩ := (placed_writes_confined s).mp placedWrites
          have first := ((filledWrites_confined s).mp filled).1
          refine ⟨first, fits, fun _ staged' => ?_⟩
          exact absurd ((sumMatches_iff_staged same staged fits first).mpr staged') sum
        · rintro ⟨first, fits, -⟩
          refine ⟨(placed_writes_confined s).mpr ⟨fits, ?_⟩, fun _ _ _ => ⟨-3, rfl, by decide⟩⟩
          exact (filledWrites_confined s).mpr ⟨first, writes⟩
      | recordFault s' inRam record unplaceable list logged reads keptWrites keptReads =>
        rw [confinedFrom_record _ inRam.2 (header ▸ record), ← header]
        constructor
        · rintro ⟨faultWrites, noFit⟩
          have fits : s.header.Fits := by
            by_contra unfit
            obtain ⟨code, returned, -⟩ := noFit s.header (by simp [list]) unfit
            cases returned
          have filled := fun span listed => faultWrites span (keptWrites listed)
          have first := ((filledWrites_confined s).mp filled).1
          exact ⟨first, fits, fun body _ =>
            absurd (placeable_of_confined staged fits first (.inr body)) unplaceable⟩
        · rintro ⟨first, fits, -⟩
          refine ⟨fun span listed => ?_, fun h listed unfit => ?_⟩
          · rcases logged span listed with old | new
            · exact (filledWrites_confined s).mpr ⟨first, writes⟩ span old
            · have inside := fits.resolve_left fun empty =>
                unplaceable (placeable_of_confined staged fits first (.inl empty))
              simp only [Span.Inside] at inside new ⊢
              omega
          · rw [list] at listed
            rcases List.mem_cons.mp listed with rfl | old
            · exact absurd fits unfit
            · exact absurd (records h old) unfit
    | next s' =>
      rw [step] at turn
      rw [recordLoop_next step]
      cases turn with
      | next inRam record placeable sum =>
        rw [confinedFrom_record _ inRam.2 (header ▸ record), ← header]
        have onward (fits : s.header.Fits)
            (first : s.ramInit = true ∨ s.header.dwAddress = 0x80600000) :=
          ih s.placed step (placed_agree same staged fits first)
            (by simp only [LoadState.placed, LoadState.recordEnd]; omega)
            ((placed_writes_confined s).mpr
              ⟨fits, (filledWrites_confined s).mpr ⟨first, writes⟩⟩)
            (by simpa [LoadState.placed] using ⟨fits, records⟩)
        constructor
        · intro confined
          obtain ⟨fits, first⟩ := walkConfined_placed s confined
          exact ⟨first, fits, fun _ _ => (onward fits first).mp confined⟩
        · rintro ⟨first, fits, ahead⟩
          refine (onward fits first).mpr (ahead ?_ ?_)
          · rcases placeable.source with empty | inside
            · simp only at empty
              rw [empty]
              exact inRam.2
            · exact inside.2
          · exact (sumMatches_iff_staged same staged fits first).mp sum

end Confined

theorem loadImage_confined_iff (m : Memory) :
    WritesConfined (loadImage m) ↔ HeaderRefused m ∨ RecordsConfined m := by
  rw [loadImage]
  by_cases signature : m.load nkImageStoreStart 7 = nkSignature
  · by_cases size : nkImageNorSize < (nkHdrAt m (nkImageStoreStart + 7)).dwSize.toNat
    · simp only [ne_eq, signature, not_true_eq_false, ↓reduceIte, size]
      exact iff_of_true (by simp [WritesConfined, LoadState.atRecords]) (.inl (.inr size))
    · have refused : ¬HeaderRefused m := by simp [HeaderRefused, signature, size]
      have walk := recordLoop_confined_iff m (LoadState.atRecords m) (fun _ _ => rfl)
        (by simp [LoadState.atRecords]) (by simp [LoadState.atRecords])
        (by simp [LoadState.atRecords])
      have records : ConfinedFrom m (LoadState.atRecords m).pCurrentAddr
          (LoadState.atRecords m).ramInit ↔ RecordsConfined m := by
        simp [ConfinedFrom, RecordsConfined, LoadState.atRecords]
      rw [or_iff_right refused, ← records, ← walk]
      simp only [ne_eq, signature, not_true_eq_false, ↓reduceIte, size]
      split <;> rename_i outcome <;> rw [outcome] <;> rfl
  · simp only [ne_eq, signature, not_false_eq_true, ↓reduceIte]
    exact iff_of_true (by simp [WritesConfined, LoadState.initial, LoadState.logRead])
      (.inl (.inl signature))

/-- Every byte the record loop writes lies in the OS window, and a record that leaves the window
makes the routine return an error, exactly for the files whose staged image header is refused
or whose records are confined. -/
theorem osBootFatFsloadBin_confined_iff {σ : Type} (layer : FatLayer σ) (medium : Medium)
    (filename : List UInt8) (state : σ) (file : List UInt8) (ram : Memory)
    (delivers : Delivers layer medium filename state file)
    (short : file.length ≤ readFileMaxSize120) :
    WritesConfined (osBootFatFsloadBin layer medium filename state ram).1 ↔
      HeaderRefused (ram.store nkImageStoreStart file) ∨
        RecordsConfined (ram.store nkImageStoreStart file) := by
  rw [osBootFatFsloadBin_staged delivers short]
  exact loadImage_confined_iff _

/-- An image of one record at the start of the window. -/
def windowImage : List UInt8 :=
  nkSignature ++ le32Bytes 0x80600000 ++ le32Bytes 0x1000 ++
    (le32Bytes 0x80600000 ++ le32Bytes 4 ++ le32Bytes 10 ++ [1, 2, 3, 4]) ++
    (le32Bytes 0 ++ le32Bytes 0x80600000 ++ le32Bytes 0)

/-- The equivalence at an image that stays in the window. -/
theorem osBootFatFsloadBin_confined_window :
    WritesConfined (osBootFatFsloadBin (FatLayer.ofFile windowImage) .usb [] () Memory.blank).1 := by
  have records : imageRecords (Memory.blank.store nkImageStoreStart windowImage)
      (nkImageStoreStart + 15) = [⟨0x80600000, 4, 10⟩] := by
    rw [imageRecords_of_record (by decide) (by decide), if_pos (by decide),
      imageRecords_of_terminator (by decide)]
    decide
  refine (osBootFatFsloadBin_confined_iff _ .usb [] () windowImage _
    (FatLayer.ofFile_delivers ..) (by decide)).mpr (.inr ⟨?_, ?_⟩)
  · rw [records]
    decide
  · rw [records]
    decide

/-- The same image with its record 0x1000 bytes into the window. -/
def shiftedImage : List UInt8 :=
  nkSignature ++ le32Bytes 0x80600000 ++ le32Bytes 0x2000 ++
    (le32Bytes 0x80601000 ++ le32Bytes 4 ++ le32Bytes 10 ++ [1, 2, 3, 4]) ++
    (le32Bytes 0 ++ le32Bytes 0x80600000 ++ le32Bytes 0)

/-- The pre-fill of that image runs 0x1000 bytes past the end of the window, although its record
lies inside. -/
theorem osBootFatFsloadBin_prefill_escapes :
    ¬WritesConfined (osBootFatFsloadBin (FatLayer.ofFile shiftedImage) .usb [] () Memory.blank).1 := by
  rw [osBootFatFsloadBin_staged (FatLayer.ofFile_delivers ..) (by decide), loadImage_confined_iff]
  have records : imageRecords (Memory.blank.store nkImageStoreStart shiftedImage)
      (nkImageStoreStart + 15) = [⟨0x80601000, 4, 10⟩] := by
    rw [imageRecords_of_record (by decide) (by decide), if_pos (by decide),
      imageRecords_of_terminator (by decide)]
    decide
  rintro (refused | ⟨first, -⟩)
  · rcases refused with signature | size
    · exact signature (by decide)
    · exact absurd size (by decide)
  · rw [records] at first
    exact absurd (first _ rfl) (by decide)

end HrppBoot.Board
