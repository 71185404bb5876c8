import HrppBoot.Board.Image

/-!
# How far the loader reads

The walk carries no length: it takes the header and the data of one record after the other from
wherever `pCurrentAddr` has come to, and ends only at a terminator, at a wrong sum or outside
RAM. So it stays within the staged file exactly when every turn does. `Contained` is that
condition on the states at the start of the turns, and `osBootFatFsloadBin_reads_iff` shows that
nothing else decides whether the bytes read, the number of records and the return code are
those the file accounts for.
-/

open ByteMemory

namespace HrppBoot.Board

/-- The record header at the start of a byte string. -/
def mdHdrOf (bytes : List UInt8) : MdHdr := mdHdrAt (Memory.blank.store 0 bytes) 0

/-- The bytes hold complete records up to and including a terminator. -/
def recordsTerminated (bytes : List UInt8) : Bool :=
  if _long : 12 ≤ bytes.length then
    let header := mdHdrOf bytes
    if header.IsTerminator then true
    else if 12 + header.dwSize.toNat ≤ bytes.length then
      recordsTerminated (bytes.drop (12 + header.dwSize.toNat))
    else false
  else false
termination_by bytes.length
decreasing_by
  rw [List.length_drop]
  omega

/-- The file ends inside the image header, inside a record header, inside the data of a record,
or before a terminator. -/
def Truncated (file : List UInt8) : Prop :=
  file.length < 15 ∨ recordsTerminated (file.drop 15) = false

/-- What is asked of a load: it reads staged bytes of the file only, it takes no more records than
fit in the file, and it returns, with an error if the file is truncated. -/
structure ReadsFile (file : List UInt8) (load : ImageLoad) : Prop where
  reads : ∀ span ∈ load.state.reads,
    span.Inside nkImageStoreStart (nkImageStoreStart + file.length)
  records : load.state.records.length ≤ file.length / 12
  returns : ∃ code, load.exit = .ret code ∧ (Truncated file → code ≠ 0)

/-- The walk comes from the first state to the second, turn by turn. -/
def Reached : LoadState → LoadState → Prop :=
  Relation.ReflTransGen fun s s' => recordStep s = .next s'

/-- The turn about to be taken is accounted for by the file: its header lies in the file, a record
can be copied and has its data in the file, and a terminator is met in a complete file only. -/
structure TurnContained (file : List UInt8) (s : LoadState) : Prop where
  header : s.pCurrentAddr + 12 ≤ nkImageStoreStart + file.length
  record : ¬s.header.IsTerminator → s.Placeable ∧ s.recordEnd ≤ nkImageStoreStart + file.length
  terminator : s.header.IsTerminator → ¬Truncated file

/-- The parse of a staged file is accounted for by the file. -/
def Contained (file : List UInt8) (staged : Memory) : Prop :=
  7 ≤ file.length ∧ (staged.load nkImageStoreStart 7 ≠ nkSignature ∨
    15 ≤ file.length ∧
      (nkImageNorSize < (nkHdrAt staged (nkImageStoreStart + 7)).dwSize.toNat ∨
        ∀ s, Reached (LoadState.atRecords staged) s → TurnContained file s))

def WalkReadsFile (file : List UInt8) (outcome : Exit × LoadState) : Prop :=
  (∀ span ∈ outcome.2.reads, span.Inside nkImageStoreStart (nkImageStoreStart + file.length)) ∧
    outcome.2.records.length ≤ file.length / 12 ∧
    ∃ code, outcome.1 = .ret code ∧ (Truncated file → code ≠ 0)

theorem recordLoop_reads (s : LoadState) : s.reads ⊆ (recordLoop s).2.reads := by
  induction s using walk_induction with
  | turn s ih =>
    have turn := recordStep_turn s
    have logged : s.reads ⊆ s.placed.reads := fun span listed =>
      List.mem_append_right _ (List.mem_cons_of_mem _ listed)
    cases step : recordStep s with
    | next s' =>
      rw [step] at turn
      rw [recordLoop_next step]
      cases turn with
      | next => exact List.Subset.trans logged (ih _ step)
    | stop exit s' =>
      rw [step] at turn
      rw [recordLoop_stop step]
      cases turn with
      | headerFault | terminator => exact List.subset_cons_self _ _
      | badSum => exact logged
      | recordFault _ _ _ _ _ _ _ _ keptReads => exact keptReads

theorem placed_reads_inside (s : LoadState) (low high : Nat) :
    (∀ span ∈ s.placed.reads, span.Inside low high) ↔
      Span.Within ⟨s.pCurrentAddr + 12, s.header.dwSize.toNat⟩ low high ∧
        Span.Inside ⟨s.pCurrentAddr, 12⟩ low high ∧ ∀ span ∈ s.reads, span.Inside low high := by
  rw [LoadState.placed, List.forall_mem_append, chunkSpans_inside, List.forall_mem_cons]

section Walk

variable {file : List UInt8}

theorem forall_reached {motive : LoadState → Prop} (s : LoadState) :
    (∀ t, Reached s t → motive t) ↔
      motive s ∧ ∀ s', recordStep s = .next s' → ∀ t, Reached s' t → motive t := by
  constructor
  · exact fun all => ⟨all s .refl, fun s' step t reached => all t (.head step reached)⟩
  · rintro ⟨here, ahead⟩ t reached
    rcases Relation.ReflTransGen.cases_head reached with rfl | ⟨s', step, onward⟩
    · exact here
    · exact ahead s' step t onward

variable {s : LoadState}

theorem turnContained_of_reads (record : ¬s.header.IsTerminator)
    (placeable : s.Placeable) (reads : ∀ span ∈ s.placed.reads,
      span.Inside nkImageStoreStart (nkImageStoreStart + file.length)) :
    TurnContained file s := by
  obtain ⟨body, header, -⟩ := (placed_reads_inside s _ _).mp reads
  refine ⟨header.2, fun _ => ⟨placeable, ?_⟩, fun ends => absurd ends record⟩
  rcases body with empty | inside
  · have empty : s.header.dwSize.toNat = 0 := empty
    rw [LoadState.recordEnd, empty]
    exact header.2
  · exact inside.2

theorem turnContained_of_next (step : recordStep s = .next s.placed) (complete : ¬Truncated file)
    (inside : s.placed.pCurrentAddr ≤ nkImageStoreStart + file.length) :
    TurnContained file s := by
  have turn := recordStep_turn s
  rw [step] at turn
  obtain ⟨-, further⟩ := recordStep_advances step
  generalize next : s.placed = s' at turn
  cases turn with
  | next inRam record placeable sum =>
    exact ⟨by omega, fun _ => ⟨placeable, inside⟩, fun _ => complete⟩

theorem placed_contained (contained : TurnContained file s) (record : ¬s.header.IsTerminator)
    (reads : ∀ span ∈ s.reads, span.Inside nkImageStoreStart (nkImageStoreStart + file.length))
    (taken : nkImageStoreStart + 12 * s.records.length ≤ s.pCurrentAddr) :
    (∀ span ∈ s.placed.reads, span.Inside nkImageStoreStart (nkImageStoreStart + file.length)) ∧
      nkImageStoreStart + 12 * s.placed.records.length ≤ s.pCurrentAddr + 12 := by
  have header := contained.header
  have body := (contained.record record).2
  refine ⟨(placed_reads_inside s _ _).mpr ⟨.inr ?_, ?_, reads⟩, ?_⟩
  · exact ⟨by simp only; omega, body⟩
  · exact ⟨by simp only; omega, header⟩
  · simp only [LoadState.placed, List.length_cons]
    omega

/-- A walk that has read only the file so far keeps to the file exactly when every turn ahead is
contained. The invariant counts 12 bytes for every record taken. -/
theorem recordLoop_reads_iff (short : file.length ≤ readFileMaxSize120) (s : LoadState)
    (reads : ∀ span ∈ s.reads, span.Inside nkImageStoreStart (nkImageStoreStart + file.length))
    (taken : nkImageStoreStart + 12 * s.records.length ≤ s.pCurrentAddr) :
    WalkReadsFile file (recordLoop s) ↔ ∀ t, Reached s t → TurnContained file t := by
  induction s using walk_induction with
  | turn s ih =>
    have turn := recordStep_turn s
    rw [forall_reached]
    cases step : recordStep s with
    | stop exit s' =>
      rw [step] at turn
      rw [recordLoop_stop step]
      simp only [reduceCtorEq, false_implies, implies_true, and_true]
      cases turn with
      | headerFault outside =>
        apply iff_of_false
        · rintro ⟨-, -, code, returned, -⟩
          cases returned
        · intro contained
          have header := contained.header
          simp only [InRam, ramStart, ramEnd, nkImageStoreStart, readFileMaxSize120]
            at outside header taken short
          omega
      | terminator inRam ends =>
        have records (header : s.pCurrentAddr + 12 ≤ nkImageStoreStart + file.length) :
            s.records.length ≤ file.length / 12 := by omega
        constructor
        · rintro ⟨fileReads, -, code, returned, refused⟩
          refine ⟨(fileReads _ (List.mem_cons_self ..)).2, fun record => absurd ends record, ?_⟩
          intro _ truncated
          cases returned
          exact refused truncated rfl
        · intro contained
          refine ⟨List.forall_mem_cons.mpr ⟨⟨by simp only; omega, contained.header⟩, reads⟩,
            records contained.header, 0, rfl, fun truncated => ?_⟩
          exact absurd truncated (contained.terminator ends)
      | badSum inRam record placeable sum =>
        constructor
        · exact fun walk => turnContained_of_reads record placeable walk.1
        · intro contained
          obtain ⟨placedReads, placedTaken⟩ := placed_contained contained record reads taken
          have header := contained.header
          exact ⟨placedReads, by simp only; omega, -3, rfl, fun _ => by decide⟩
      | recordFault s' inRam record unplaceable =>
        apply iff_of_false
        · rintro ⟨-, -, code, returned, -⟩
          cases returned
        · intro contained
          exact unplaceable (contained.record record).1
    | next s' =>
      rw [step] at turn
      rw [recordLoop_next step]
      cases turn with
      | next inRam record placeable sum =>
        have onward (contained : TurnContained file s) :=
          have kept := placed_contained contained record reads taken
          ih s.placed step kept.1 (kept.2.trans (by
            simp only [LoadState.placed, LoadState.recordEnd]
            omega))
        constructor
        · intro walk
          have contained := turnContained_of_reads record placeable
            fun span listed => walk.1 span (recordLoop_reads s.placed listed)
          refine ⟨contained, fun s' taken => ?_⟩
          cases taken
          exact (onward contained).mp walk
        · rintro ⟨contained, ahead⟩
          exact (onward contained).mpr (ahead _ rfl)

end Walk

theorem atRecords_reads (file : List UInt8) (m : Memory) :
    (∀ span ∈ (LoadState.atRecords m).reads,
      span.Inside nkImageStoreStart (nkImageStoreStart + file.length)) ↔ 15 ≤ file.length := by
  simp only [LoadState.atRecords, List.forall_mem_cons, Span.Inside, List.not_mem_nil,
    false_implies, implies_true, and_true]
  omega

/-- The parse of a staged file keeps to the file exactly when it is contained. -/
theorem loadImage_reads_iff (file : List UInt8) (m : Memory)
    (short : file.length ≤ readFileMaxSize120) :
    ReadsFile file (loadImage m) ↔ Contained file m := by
  by_cases signature : m.load nkImageStoreStart 7 = nkSignature
  · by_cases size : nkImageNorSize < (nkHdrAt m (nkImageStoreStart + 7)).dwSize.toNat
    · have load : loadImage m = ⟨.ret (-1), none, LoadState.atRecords m⟩ := by
        simp only [loadImage, signature, ne_eq, not_true_eq_false, ↓reduceIte, size]
      have contained : Contained file m ↔ 15 ≤ file.length := by
        simp only [Contained, signature, size, ne_eq, not_true_eq_false, true_or, and_true,
          false_or]
        omega
      rw [load, contained, ← atRecords_reads file m]
      exact ⟨fun read => read.reads, fun reads => ⟨reads, by simp [LoadState.atRecords], -1, rfl,
        fun _ => by decide⟩⟩
    · have load : ReadsFile file (loadImage m) ↔
          WalkReadsFile file (recordLoop (LoadState.atRecords m)) := by
        simp only [loadImage, signature, ne_eq, not_true_eq_false, ↓reduceIte, size]
        split <;> rename_i outcome <;> rw [outcome] <;>
          exact ⟨fun read => ⟨read.reads, read.records, read.returns⟩,
            fun walk => ⟨walk.1, walk.2.1, walk.2.2⟩⟩
      have contained : Contained file m ↔ 15 ≤ file.length ∧
          ∀ s, Reached (LoadState.atRecords m) s → TurnContained file s := by
        simp only [Contained, signature, size, ne_eq, not_true_eq_false, false_or]
        exact and_iff_right_of_imp fun both => by omega
      rw [load, contained, ← atRecords_reads file m]
      have walk (reads) := recordLoop_reads_iff short (LoadState.atRecords m) reads (by
        simp only [LoadState.atRecords, List.length_nil]
        omega)
      constructor
      · intro walked
        have reads := fun span listed => walked.1 span (recordLoop_reads _ listed)
        exact ⟨reads, (walk reads).mp walked⟩
      · rintro ⟨reads, turns⟩
        exact (walk reads).mpr turns
  · have load : loadImage m = ⟨.ret (-1), none, (LoadState.initial m).logRead 7⟩ := by
      simp only [loadImage, ne_eq, signature, not_false_eq_true, ↓reduceIte]
    have contained : Contained file m ↔ 7 ≤ file.length := by
      simp only [Contained, ne_eq, signature, not_false_eq_true, true_or, and_true]
    rw [load, contained]
    constructor
    · intro read
      have inside := (read.reads _ (List.mem_cons_self ..)).2
      simp only [LoadState.initial] at inside
      omega
    · intro long
      refine ⟨?_, Nat.zero_le _, -1, rfl, fun _ => by decide⟩
      simp only [LoadState.logRead, LoadState.initial, List.mem_singleton, forall_eq, Span.Inside]
      omega

/-! ## Well-formed images -/

theorem mdHdrOf_encode (r : NkRecord) (ahead : List UInt8) :
    mdHdrOf (r.encode ++ ahead) = r.header := by
  have stands := Memory.store_holds Memory.blank 0 (r.encode ++ ahead)
  obtain ⟨here, -⟩ := (Memory.holds_append _ _ _ _).mp stands
  exact mdHdrAt_holds ((Memory.holds_append _ _ _ _).mp here).1

theorem recordsTerminated_encode {length : Nat} (fits : length ≤ nkImageNorSize) (launch : UInt32)
    (records : List NkRecord) (linked : ∀ r ∈ records, r.Linked length) :
    recordsTerminated (records.flatMap NkRecord.encode ++ terminatorBytes launch) = true := by
  induction records with
  | nil =>
    have ends : (mdHdrOf (terminatorBytes launch)).IsTerminator := by
      rw [mdHdrOf, mdHdrAt_terminator (Memory.store_holds Memory.blank 0 (terminatorBytes launch))]
      exact ⟨rfl, rfl⟩
    rw [List.flatMap_nil, List.nil_append, recordsTerminated]
    simp [ends]
  | cons r records ih =>
    have linkedHead := linked r (List.mem_cons_self ..)
    have record : ¬r.header.IsTerminator := NkRecord.not_isTerminator linkedHead
    rw [List.flatMap_cons, List.append_assoc, recordsTerminated]
    simp only [mdHdrOf_encode, record, ↓reduceIte, r.header_dwSize linkedHead fits]
    rw [← r.encode_length, List.drop_left, dif_pos (by simp; omega), if_pos (by simp)]
    exact ih fun r' listed => linked r' (List.mem_cons_of_mem _ listed)

theorem NkImage.not_truncated (image : NkImage) : ¬Truncated image.encode := by
  have complete := recordsTerminated_encode image.fits image.launch image.records image.linked
  have rest : image.encode.drop 15 =
      image.records.flatMap NkRecord.encode ++ terminatorBytes image.launch := by
    rw [NkImage.encode, ← image.headerBytes_length, List.drop_left]
  rintro (short | broken)
  · rw [NkImage.encode, List.length_append, NkImage.headerBytes_length] at short
    omega
  · rw [rest, complete] at broken
    cases broken

/-- A walk over linked records that fill the rest of a complete file takes contained turns only. -/
theorem reached_image {length : Nat} (fits : length ≤ nkImageNorSize) {file : List UInt8}
    (short : file.length ≤ readFileMaxSize120) (complete : ¬Truncated file) (launch : UInt32)
    (records : List NkRecord) (s : LoadState) (linked : ∀ r ∈ records, r.Linked length)
    (init : s.ramInit = true) (staged : nkImageStoreStart ≤ s.pCurrentAddr)
    (stands : s.mem.Holds s.pCurrentAddr
      (records.flatMap NkRecord.encode ++ terminatorBytes launch))
    (room : s.pCurrentAddr + (records.flatMap NkRecord.encode).length + 12 =
      nkImageStoreStart + file.length) :
    ∀ t, Reached s t → TurnContained file t := by
  have bound : nkImageStoreStart + file.length ≤ ramEnd := by
    simp only [nkImageStoreStart, ramEnd, readFileMaxSize120] at short ⊢
    omega
  induction records generalizing s with
  | nil =>
    rw [List.flatMap_nil, List.nil_append] at stands
    rw [List.flatMap_nil, List.length_nil] at room
    have inRam : InRam s.pCurrentAddr 12 := by
      simp only [InRam, ramStart, nkImageStoreStart] at staged room bound ⊢
      omega
    obtain ⟨ends, step⟩ := recordStep_terminator s launch inRam stands
    refine (forall_reached s).mpr ⟨⟨by omega, fun record => absurd ends record,
      fun _ => complete⟩, fun s' taken => ?_⟩
    rw [step] at taken
    cases taken
  | cons r records ih =>
    rw [List.flatMap_cons, List.append_assoc] at stands
    rw [List.flatMap_cons, List.length_append] at room
    obtain ⟨header, body⟩ := (Memory.holds_append _ _ _ _).mp
      ((List.append_assoc _ _ _).subst stands)
    have filled : s.filled = s.mem := by simp [LoadState.filled, init]
    obtain ⟨step, mem, position, ahead⟩ := recordStep_image fits s r _
      (linked r (List.mem_cons_self ..)) staged (by omega) header (by rw [filled]; exact body)
    refine (forall_reached s).mpr ⟨turnContained_of_next step complete (by omega), ?_⟩
    intro s' taken
    rw [step] at taken
    cases taken
    exact ih s.placed (fun r' listed => linked r' (List.mem_cons_of_mem _ listed)) rfl (by omega)
      ahead (by omega)

theorem NkImage.contained (image : NkImage) (m : Memory)
    (stands : m.Holds nkImageStoreStart image.encode)
    (short : image.encode.length ≤ readFileMaxSize120) (spared : image.Spared) :
    Contained image.encode m := by
  have room : nkImageStoreStart + image.encode.length ≤ ramEnd := by
    simp only [nkImageStoreStart, ramEnd, readFileMaxSize120] at short ⊢
    omega
  obtain ⟨step, mem, position, ahead⟩ := image.first_turn m stands room spared
  have size : image.encode.length = 15 + image.first.encode.length +
      (image.rest.flatMap NkRecord.encode).length + 12 := by
    rw [NkImage.encode, NkImage.records, List.flatMap_cons]
    simp only [List.length_append, NkImage.headerBytes_length, terminatorBytes_length]
    omega
  refine ⟨by omega, .inr ⟨by omega, .inr ((forall_reached _).mpr ⟨?_, ?_⟩)⟩⟩
  · exact turnContained_of_next step image.not_truncated (by omega)
  · intro s' taken
    rw [step] at taken
    cases taken
    exact reached_image image.fits short image.not_truncated image.launch image.rest _
      (fun r listed => image.linked r (List.mem_cons_of_mem _ listed)) rfl (by omega) ahead
      (by omega)

/-- A delivered file is read within its own bytes, by no more records than it has room for, and is
refused if it is truncated, exactly when it is refused within its first bytes or every turn of
the walk is contained. -/
theorem osBootFatFsloadBin_reads_iff {σ : Type} (layer : FatLayer σ) (medium : Medium)
    (filename : List UInt8) (state : σ) (file : List UInt8) (ram : Memory)
    (delivers : Delivers layer medium filename state file)
    (short : file.length ≤ readFileMaxSize120) :
    ReadsFile file (osBootFatFsloadBin layer medium filename state ram).1 ↔
      Contained file (ram.store nkImageStoreStart file) := by
  rw [osBootFatFsloadBin_staged delivers short]
  exact loadImage_reads_iff file _ short

/-- An image of one record is read within its own bytes. -/
theorem osBootFatFsloadBin_reads_gapImage :
    ReadsFile gapImage.encode (osBootFatFsloadBin (FatLayer.ofFile gapImage.encode) .usb [] ()
      Memory.blank).1 := by
  refine (osBootFatFsloadBin_reads_iff _ .usb [] () gapImage.encode _
    (FatLayer.ofFile_delivers ..) (by decide)).mpr ?_
  refine gapImage.contained _ (Memory.store_holds _ _ _) (by decide) fun i inside reached => ?_
  simp only [nkImageStoreStart, nkImageRamEnd, nkImageRamStart, nkImageNorSize,
    show gapImage.first.offset = 4 from rfl] at reached
  omega

/-- A file cut off behind its image header. -/
def headerOnly : List UInt8 := nkSignature ++ le32Bytes 0x80600000 ++ le32Bytes 0x1000

/-- That file is read beyond its end: the first record header is looked for behind it. -/
theorem osBootFatFsloadBin_reads_beyond :
    ¬ReadsFile headerOnly (osBootFatFsloadBin (FatLayer.ofFile headerOnly) .usb [] ()
      Memory.blank).1 := by
  rw [osBootFatFsloadBin_staged (FatLayer.ofFile_delivers ..) (by decide),
    loadImage_reads_iff _ _ (by decide)]
  rintro ⟨-, signature | ⟨-, size | turns⟩⟩
  · exact signature (by decide)
  · exact absurd size (by decide)
  · have header := (turns _ .refl).header
    simp only [LoadState.atRecords_pCurrentAddr, show headerOnly.length = 15 from rfl] at header
    omega

end HrppBoot.Board
