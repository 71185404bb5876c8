import HrppBoot.Board.Confinement

/-!
# What a well-formed image becomes in RAM

An `NkImage` is the content of a well-formed NK.bin: records linked inside the image, in any
order, possibly overlapping. Its flat content is what the OS window should hold after a load:
at each offset the byte of the last record that covers it, and 0xff elsewhere.

The walk places the records in order, so the flat content follows by induction over the
records. Only the pre-fill is different: it starts at the first record instead of at the
window. Below that record the old RAM content shows through, and if the record lies more than
2 MB into the window the pre-fill also reaches the staged file. `Spared` and `Cleared` say
when neither matters.
-/

open ByteMemory

namespace HrppBoot.Board

/-- The 32-bit sum of a byte string. -/
def byteSum (bytes : List UInt8) : UInt32 := bytes.foldl (fun sum b => sum + b.toUInt32) 0

/-- The address images are linked at. -/
def nkImageAddress : Nat := 0x80600000

/-- One record of an image. -/
structure NkRecord where
  address : UInt32
  data : List UInt8

namespace NkRecord

/-- Distance of the record from the start of the image. -/
def offset (r : NkRecord) : Nat := r.address.toNat - nkImageAddress

/-- The record has a byte for this offset. -/
def Covers (r : NkRecord) (o : Nat) : Prop := r.offset ≤ o ∧ o < r.offset + r.data.length

instance (r : NkRecord) (o : Nat) : Decidable (r.Covers o) := inferInstanceAs (Decidable (_ ∧ _))

/-- The byte of the record at an offset it covers. -/
def byteAt (r : NkRecord) (o : Nat) : UInt8 := r.data.getD (o - r.offset) 0

/-- The record header. -/
def header (r : NkRecord) : MdHdr := ⟨r.address, UInt32.ofNat r.data.length, byteSum r.data⟩

/-- The bytes of a record header. -/
def headerBytes (r : NkRecord) : List UInt8 :=
  le32Bytes r.header.dwAddress ++ le32Bytes r.header.dwSize ++ le32Bytes r.header.dwSum

/-- The bytes of a record: header, then data. -/
def encode (r : NkRecord) : List UInt8 := r.headerBytes ++ r.data

/-- The record lies inside an image of `length` bytes. -/
def Linked (r : NkRecord) (length : Nat) : Prop :=
  nkImageAddress ≤ r.address.toNat ∧ r.address.toNat + r.data.length ≤ nkImageAddress + length

/-- RAM after the record has been built at its place in the window. -/
def place (m : Memory) (r : NkRecord) : Memory := m.store (nkImageRamStart + r.offset) r.data

end NkRecord

/-- The byte of the last record that covers an offset, or `under` if none does. -/
def lastCovering (records : List NkRecord) (o : Nat) (under : UInt8) : UInt8 :=
  (records.reverse.find? fun r => r.Covers o).elim under fun r => r.byteAt o

/-- The bytes of a terminator; its size field is the launch address. -/
def terminatorBytes (launch : UInt32) : List UInt8 :=
  le32Bytes 0 ++ le32Bytes launch ++ le32Bytes 0

/-- The content of a well-formed NK.bin. -/
structure NkImage where
  length : UInt32
  first : NkRecord
  rest : List NkRecord
  launch : UInt32
  fits : length.toNat ≤ nkImageNorSize
  linked : ∀ r ∈ first :: rest, r.Linked length.toNat

namespace NkImage

/-- All records, in file order. -/
def records (image : NkImage) : List NkRecord := image.first :: image.rest

/-- Signature and image header. -/
def headerBytes (image : NkImage) : List UInt8 :=
  nkSignature ++ (le32Bytes 0x80600000 ++ le32Bytes image.length)

/-- The bytes after the header of the first record. -/
def tail (image : NkImage) : List UInt8 :=
  image.first.data ++ (image.rest.flatMap NkRecord.encode ++ terminatorBytes image.launch)

/-- The file. -/
def encode (image : NkImage) : List UInt8 :=
  image.headerBytes ++ (image.records.flatMap NkRecord.encode ++ terminatorBytes image.launch)

/-- The byte the window should hold at an offset. -/
def flat (image : NkImage) (o : Nat) : UInt8 := lastCovering image.records o 0xff

/-- What the pre-fill overwrites of the staged file was 0xff already, as far as it is still to be
read: the bytes after the first record header, up to the end of the pre-fill. -/
def Spared (image : NkImage) : Prop :=
  ∀ i (inside : i < image.tail.length),
    nkImageStoreStart + 27 + i < nkImageRamEnd + image.first.offset → image.tail[i] = 0xff

/-- Below the first record, RAM is 0xff wherever no record covers it. -/
def Cleared (image : NkImage) (ram : Memory) : Prop :=
  ∀ o < image.first.offset, (∀ r ∈ image.records, ¬r.Covers o) → ram (nkImageRamStart + o) = 0xff

end NkImage

/-- A load that does what the image says: it succeeds, reports the image length and leaves the
flat content in the window. -/
structure LoadsAs (image : NkImage) (load : ImageLoad) : Prop where
  exit : load.exit = .ret 0
  filesize : load.filesize = some image.length
  window : ∀ o < nkImageNorSize, load.state.mem (nkImageRamStart + o) = image.flat o

/-! ## Records in RAM -/

theorem ataMakeSumFrom_holds {m : Memory} (bytes : List UInt8) :
    ∀ {p : Nat} (sum : UInt32), m.Holds p bytes →
      ataMakeSumFrom m p bytes.length sum =
        bytes.foldl (fun sum b => sum + b.toUInt32) sum := by
  induction bytes with
  | nil => intro p sum stands; rfl
  | cons b bytes ih =>
    intro p sum stands
    have parts := (Memory.holds_append m p [b] bytes).mp stands
    have first : m p = b := parts.1 0 (by simp)
    simp only [List.length_cons, ataMakeSumFrom, List.foldl_cons, first]
    exact ih _ parts.2

section Record

variable {r : NkRecord} {length : Nat}

@[simp] theorem NkRecord.headerBytes_length (r : NkRecord) : r.headerBytes.length = 12 := rfl

@[simp] theorem terminatorBytes_length (launch : UInt32) : (terminatorBytes launch).length = 12 :=
  rfl

@[simp] theorem NkRecord.encode_length (r : NkRecord) : r.encode.length = 12 + r.data.length := by
  rw [NkRecord.encode, List.length_append, NkRecord.headerBytes_length]

theorem NkRecord.not_isTerminator (linked : r.Linked length) : ¬r.header.IsTerminator := by
  rintro ⟨address, -⟩
  have address : r.address = 0 := address
  have bound := linked.1
  rw [address] at bound
  exact absurd bound (by decide)

theorem NkRecord.header_dwSize (linked : r.Linked length) (fits : length ≤ nkImageNorSize) :
    r.header.dwSize.toNat = r.data.length := by
  simp only [NkRecord.Linked, nkImageNorSize] at linked fits
  simp only [NkRecord.header, UInt32.toNat_ofNat']
  omega

theorem NkRecord.header_pBuffer (linked : r.Linked length) (fits : length ≤ nkImageNorSize) :
    r.header.pBuffer = nkImageRamStart + r.offset := by
  have bound := r.address.toNat_lt
  simp only [NkRecord.Linked, nkImageNorSize, nkImageAddress] at linked fits
  simp only [MdHdr.pBuffer, NkRecord.header, nkImageRamStart, NkRecord.offset, nkImageAddress,
    UInt32.toNat_sub]
  change (2 ^ 32 - 0x70000000 + r.address.toNat) % 2 ^ 32 = _
  omega

theorem NkRecord.header_fits (linked : r.Linked length) (fits : length ≤ nkImageNorSize) :
    r.header.Fits := by
  refine .inr ?_
  rw [NkRecord.header_pBuffer linked fits, NkRecord.header_dwSize linked fits]
  simp only [NkRecord.Linked] at linked
  simp only [Span.Inside, NkRecord.offset, nkImageRamEnd]
  omega

theorem mdHdrAt_holds {m : Memory} {p : Nat} (stands : m.Holds p r.headerBytes) :
    mdHdrAt m p = r.header := by
  obtain ⟨front, sum⟩ := (Memory.holds_append _ _ _ _).mp stands
  obtain ⟨address, size⟩ := (Memory.holds_append _ _ _ _).mp front
  have address : m.word32 p = r.header.dwAddress := address.word32
  have size : m.word32 (p + 4) = r.header.dwSize := size.word32
  have sum : m.word32 (p + 8) = r.header.dwSum := sum.word32
  rw [mdHdrAt, address, size, sum]

theorem mdHdrAt_terminator {m : Memory} {p : Nat} {launch : UInt32}
    (stands : m.Holds p (terminatorBytes launch)) : mdHdrAt m p = ⟨0, launch, 0⟩ := by
  obtain ⟨front, sum⟩ := (Memory.holds_append _ _ _ _).mp stands
  obtain ⟨address, size⟩ := (Memory.holds_append _ _ _ _).mp front
  have address : m.word32 p = 0 := address.word32
  have size : m.word32 (p + 4) = launch := size.word32
  have sum : m.word32 (p + 8) = 0 := sum.word32
  rw [mdHdrAt, address, size, sum]

theorem NkRecord.place_outside (linked : r.Linked length) (fits : length ≤ nkImageNorSize)
    (m : Memory) {a : Nat} (outside : OutsideWindow a) : r.place m a = m a := by
  refine Memory.store_outside _ _ _ _ ?_
  simp only [NkRecord.Linked, OutsideWindow, nkImageRamEnd, NkRecord.offset] at *
  omega

end Record

/-! ## The walk over an image -/

theorem recordStep_terminator (s : LoadState) (launch : UInt32) (inRam : InRam s.pCurrentAddr 12)
    (stands : s.mem.Holds s.pCurrentAddr (terminatorBytes launch)) :
    s.header.IsTerminator ∧ recordStep s =
      .stop (.ret 0) { s.logRead 12 with pCurrentAddr := s.pCurrentAddr + 12 } := by
  have ends : s.header.IsTerminator := by
    rw [LoadState.header, mdHdrAt_terminator stands]
    exact ⟨rfl, rfl⟩
  exact ⟨ends, by simp [recordStep, inRam, ends]⟩

section Walk

variable {length : Nat} (fits : length ≤ nkImageNorSize)
include fits

/-- One turn over a linked record whose header stands at the position of the walk, and whose data
stands behind it once the pre-fill is done: the record is placed, and the walk goes on with what
stands behind the data. -/
theorem recordStep_image (s : LoadState) (r : NkRecord) (ahead : List UInt8)
    (linked : r.Linked length) (staged : nkImageStoreStart ≤ s.pCurrentAddr)
    (room : s.pCurrentAddr + r.encode.length ≤ ramEnd)
    (header : s.mem.Holds s.pCurrentAddr r.headerBytes)
    (stands : s.filled.Holds (s.pCurrentAddr + 12) (r.data ++ ahead)) :
    recordStep s = .next s.placed ∧ s.placed.mem = r.place s.filled ∧
      s.placed.pCurrentAddr = s.pCurrentAddr + r.encode.length ∧
      s.placed.mem.Holds s.placed.pCurrentAddr ahead := by
  obtain ⟨data, behind⟩ := (Memory.holds_append _ _ _ _).mp stands
  have read : s.header = r.header := mdHdrAt_holds header
  have size : s.header.dwSize.toNat = r.data.length := read ▸ r.header_dwSize linked fits
  have target : s.header.pBuffer = nkImageRamStart + r.offset :=
    read ▸ r.header_pBuffer linked fits
  have window : s.header.Fits := read ▸ r.header_fits linked fits
  rw [NkRecord.encode_length] at room
  have inRam : InRam s.pCurrentAddr 12 := by
    simp only [InRam, ramStart, nkImageStoreStart] at staged ⊢
    omega
  have mem : s.placed.mem = r.place s.filled := by
    rw [placed_mem staged window, size, target, data.copy_eq_store]
    rfl
  have placeable : s.Placeable := by
    refine ⟨.inr ?_, ?_, .inr ?_⟩
    · rw [target]
      simp only [NkRecord.Linked, nkImageAddress] at linked
      simp only [InRam, nkImageRamStart, NkRecord.offset, nkImageAddress, nkImageNorSize, ramStart,
        ramEnd] at fits ⊢
      omega
    · refine window.imp_right fun inside => ?_
      simp only [Span.Inside, ramStart, ramEnd, nkImageRamStart, nkImageRamEnd, nkImageNorSize]
        at inside ⊢
      omega
    · rw [size]
      simp only [Span.Inside, ramStart, nkImageStoreStart] at staged ⊢
      omega
  have sum : s.SumMatches := by
    have stands : s.placed.mem.Holds s.header.pBuffer r.data := by
      rw [mem, target]
      exact Memory.store_holds _ _ _
    rw [LoadState.SumMatches, size, read, ataMakeSum, ← read, ataMakeSumFrom_holds _ _ stands, read]
    rfl
  have record : ¬s.header.IsTerminator := read ▸ NkRecord.not_isTerminator linked
  have position : s.placed.pCurrentAddr = s.pCurrentAddr + 12 + r.data.length := by
    rw [LoadState.placed, LoadState.recordEnd, size]
  have onward : s.placed.mem.Holds s.placed.pCurrentAddr ahead := by
    rw [position, mem]
    refine behind.congr fun a inside => (NkRecord.place_outside linked fits _ ?_).symm
    simp only [OutsideWindow, nkImageRamEnd, nkImageRamStart, nkImageNorSize, nkImageStoreStart]
      at staged ⊢
    omega
  rcases recordStep_placeable s inRam record placeable with ⟨-, step⟩ | ⟨mismatch, -⟩
  · refine ⟨step, mem, ?_, onward⟩
    rw [position, NkRecord.encode_length, Nat.add_assoc]
  · exact absurd sum mismatch

theorem recordLoop_image (launch : UInt32) (records : List NkRecord) (s : LoadState)
    (linked : ∀ r ∈ records, r.Linked length) (init : s.ramInit = true)
    (staged : nkImageStoreStart ≤ s.pCurrentAddr)
    (stands : s.mem.Holds s.pCurrentAddr
      (records.flatMap NkRecord.encode ++ terminatorBytes launch))
    (room : s.pCurrentAddr + (records.flatMap NkRecord.encode).length + 12 ≤ ramEnd) :
    ∃ s', recordLoop s = (.ret 0, s') ∧ s'.mem = records.foldl NkRecord.place s.mem := by
  induction records generalizing s with
  | nil =>
    rw [List.flatMap_nil, List.nil_append] at stands
    have inRam : InRam s.pCurrentAddr 12 := by
      simp only [List.flatMap_nil, List.length_nil] at room
      simp only [InRam, ramStart, nkImageStoreStart] at staged ⊢
      omega
    exact ⟨_, recordLoop_stop (recordStep_terminator s launch inRam stands).2, rfl⟩
  | cons r records ih =>
    rw [List.flatMap_cons, List.append_assoc] at stands
    rw [List.flatMap_cons, List.length_append] at room
    obtain ⟨header, body⟩ := (Memory.holds_append _ _ _ _).mp
      ((List.append_assoc _ _ _).subst stands)
    have filled : s.filled = s.mem := by simp [LoadState.filled, init]
    obtain ⟨step, mem, position, ahead⟩ := recordStep_image fits s r _
      (linked r (List.mem_cons_self ..)) staged (by omega) header (by rw [filled]; exact body)
    obtain ⟨s', walk, built⟩ := ih s.placed
      (fun r' listed => linked r' (List.mem_cons_of_mem _ listed)) rfl (by omega) ahead (by omega)
    refine ⟨s', (recordLoop_next step).trans walk, ?_⟩
    rw [built, mem, filled, List.foldl_cons]

end Walk

variable {o : Nat}

theorem NkRecord.place_covered {r : NkRecord} (covers : r.Covers o) (m : Memory) :
    r.place m (nkImageRamStart + o) = r.byteAt o := by
  have inside : nkImageRamStart + r.offset ≤ nkImageRamStart + o ∧
      nkImageRamStart + o < nkImageRamStart + r.offset + r.data.length := by
    simp only [NkRecord.Covers] at covers
    omega
  rw [NkRecord.place, Memory.store_inside _ _ _ _ inside, Nat.add_sub_add_left, NkRecord.byteAt]

theorem NkRecord.place_uncovered {r : NkRecord} (uncovered : ¬r.Covers o) (m : Memory) :
    r.place m (nkImageRamStart + o) = m (nkImageRamStart + o) := by
  refine Memory.store_outside _ _ _ _ ?_
  simp only [NkRecord.Covers] at uncovered
  omega

theorem lastCovering_of_uncovered {records : List NkRecord} (uncovered : ∀ r ∈ records, ¬r.Covers o)
    (under : UInt8) :
    lastCovering records o under = under := by
  have none : (records.reverse.find? fun r => r.Covers o) = none := by simpa using uncovered
  rw [lastCovering, none, Option.elim_none]

theorem lastCovering_of_covered {records : List NkRecord} (covered : ∃ r ∈ records, r.Covers o)
    (under other : UInt8) :
    lastCovering records o under = lastCovering records o other := by
  have found : (records.reverse.find? fun r => r.Covers o).isSome := by simpa using covered
  obtain ⟨r, found⟩ := Option.isSome_iff_exists.mp found
  rw [lastCovering, lastCovering, found, Option.elim_some, Option.elim_some]

theorem foldl_place (records : List NkRecord) (m : Memory) (o : Nat) :
    records.foldl NkRecord.place m (nkImageRamStart + o) =
      lastCovering records o (m (nkImageRamStart + o)) := by
  induction records using List.reverseRecOn with
  | nil => rfl
  | append_singleton records r ih =>
    rw [List.foldl_append, List.foldl_cons, List.foldl_nil, lastCovering, List.reverse_append,
      List.reverse_singleton, List.singleton_append]
    by_cases covers : r.Covers o
    · rw [List.find?_cons_of_pos (by simpa using covers), NkRecord.place_covered covers,
        Option.elim_some]
    · rw [List.find?_cons_of_neg (by simpa using covers), NkRecord.place_uncovered covers, ih,
        lastCovering]

/-! ## The whole load -/

namespace NkImage

variable (image : NkImage)

theorem encode_eq :
    image.encode = image.headerBytes ++ (image.first.headerBytes ++ image.tail) := by
  simp only [encode, records, tail, List.flatMap_cons, NkRecord.encode, List.append_assoc]

@[simp] theorem headerBytes_length : image.headerBytes.length = 15 := rfl

theorem first_linked : image.first.Linked image.length.toNat :=
  image.linked image.first (List.mem_cons_self ..)

/-- The first turn over a staged image whose pre-fill spares the file: the first record is placed
over the pre-filled RAM, and the other records stand ahead. -/
theorem first_turn (m : Memory) (stands : m.Holds nkImageStoreStart image.encode)
    (room : nkImageStoreStart + image.encode.length ≤ ramEnd) (spared : image.Spared) :
    let s := LoadState.atRecords m
    recordStep s = .next s.placed ∧
      s.placed.mem = image.first.place
        (m.fill (nkImageRamStart + image.first.offset) nkImageNorSize 0xff) ∧
      s.placed.pCurrentAddr = nkImageStoreStart + 15 + image.first.encode.length ∧
      s.placed.mem.Holds s.placed.pCurrentAddr
        (image.rest.flatMap NkRecord.encode ++ terminatorBytes image.launch) := by
  rw [encode_eq] at stands room
  obtain ⟨-, stands⟩ := (Memory.holds_append _ _ _ _).mp stands
  obtain ⟨header, tail⟩ := (Memory.holds_append _ _ _ _).mp stands
  simp only [List.length_append, headerBytes_length, NkRecord.headerBytes_length, NkImage.tail]
    at room
  have read : (LoadState.atRecords m).header = image.first.header := mdHdrAt_holds header
  have filled : (LoadState.atRecords m).filled =
      m.fill (nkImageRamStart + image.first.offset) nkImageNorSize 0xff := by
    rw [LoadState.filled, if_neg (by simp [LoadState.atRecords]), read,
      image.first.header_pBuffer image.first_linked image.fits]
    rfl
  have survives : (LoadState.atRecords m).filled.Holds (nkImageStoreStart + 15 + 12) image.tail := by
    rw [filled]
    refine tail.fill fun i inside low high => spared i inside ?_
    simp only [headerBytes_length, NkRecord.headerBytes_length, nkImageRamEnd] at high ⊢
    omega
  have turn := recordStep_image image.fits (LoadState.atRecords m) image.first _
    image.first_linked (Nat.le_add_right ..)
    (by
      rw [LoadState.atRecords_pCurrentAddr, NkRecord.encode_length]
      omega)
    header survives
  rwa [filled] at turn

theorem recordLoop_staged (m : Memory) (stands : m.Holds nkImageStoreStart image.encode)
    (room : nkImageStoreStart + image.encode.length ≤ ramEnd) (spared : image.Spared) :
    ∃ s', recordLoop (LoadState.atRecords m) = (.ret 0, s') ∧
      s'.mem = image.records.foldl NkRecord.place
        (m.fill (nkImageRamStart + image.first.offset) nkImageNorSize 0xff) := by
  obtain ⟨step, mem, position, ahead⟩ := image.first_turn m stands room spared
  rw [encode, records, List.flatMap_cons] at room
  simp only [List.length_append, headerBytes_length, terminatorBytes_length] at room
  obtain ⟨s', walk, built⟩ := recordLoop_image image.fits image.launch image.rest
    (LoadState.atRecords m).placed (fun r listed => image.linked r (List.mem_cons_of_mem _ listed))
    rfl (by omega) ahead (by omega)
  refine ⟨s', (recordLoop_next step).trans walk, ?_⟩
  rw [built, mem, records, List.foldl_cons]

theorem loadImage_staged (m : Memory) (stands : m.Holds nkImageStoreStart image.encode)
    (room : nkImageStoreStart + image.encode.length ≤ ramEnd) (spared : image.Spared) :
    (loadImage m).exit = .ret 0 ∧ (loadImage m).filesize = some image.length ∧
      (loadImage m).state.mem = image.records.foldl NkRecord.place
        (m.fill (nkImageRamStart + image.first.offset) nkImageNorSize 0xff) := by
  obtain ⟨s', walk, built⟩ := image.recordLoop_staged m stands room spared
  rw [encode_eq] at stands
  obtain ⟨header, -⟩ := (Memory.holds_append _ _ _ _).mp stands
  obtain ⟨signature, header⟩ := (Memory.holds_append _ _ _ _).mp header
  obtain ⟨-, size⟩ := (Memory.holds_append _ _ _ _).mp header
  have signature : m.load nkImageStoreStart 7 = nkSignature := signature.load
  have size : (nkHdrAt m (nkImageStoreStart + 7)).dwSize = image.length := size.word32
  have fits : ¬nkImageNorSize < image.length.toNat := Nat.not_lt.mpr image.fits
  simp only [loadImage, signature, size, fits, walk, ne_eq, not_true_eq_false, ↓reduceIte, built,
    and_self]

end NkImage

/-- A staged image whose bytes the pre-fill spares loads as it should exactly when RAM below its
first record is clear. -/
theorem loadImage_flat_iff (image : NkImage) (ram : Memory)
    (short : image.encode.length ≤ readFileMaxSize120) (spared : image.Spared) :
    LoadsAs image (loadImage (ram.store nkImageStoreStart image.encode)) ↔ image.Cleared ram := by
  have room : nkImageStoreStart + image.encode.length ≤ ramEnd := by
    simp only [nkImageStoreStart, ramEnd, readFileMaxSize120] at short ⊢
    omega
  obtain ⟨exit, filesize, mem⟩ := image.loadImage_staged
    (ram.store nkImageStoreStart image.encode) (Memory.store_holds _ _ _) room spared
  have below : image.first.offset ≤ nkImageNorSize := by
    have linked := image.first_linked
    have fits := image.fits
    simp only [NkRecord.Linked, NkRecord.offset] at linked ⊢
    omega
  have old (o : Nat) (inside : o < image.first.offset) :
      (ram.store nkImageStoreStart image.encode).fill (nkImageRamStart + image.first.offset)
        nkImageNorSize 0xff (nkImageRamStart + o) = ram (nkImageRamStart + o) := by
    rw [Memory.fill_outside _ _ _ _ _ (by omega), Memory.store_outside]
    simp only [nkImageRamStart, nkImageStoreStart, nkImageNorSize] at below ⊢
    omega
  constructor
  · intro loads o inside uncovered
    have shown := loads.window o (by omega)
    rwa [mem, foldl_place, old o inside, NkImage.flat, lastCovering_of_uncovered uncovered,
      lastCovering_of_uncovered uncovered] at shown
  · intro cleared
    refine ⟨exit, filesize, fun o inside => ?_⟩
    rw [mem, foldl_place, NkImage.flat]
    by_cases covered : ∃ r ∈ image.records, r.Covers o
    · exact lastCovering_of_covered covered _ _
    · have uncovered : ∀ r ∈ image.records, ¬r.Covers o :=
        fun r listed covers => covered ⟨r, listed, covers⟩
      rw [lastCovering_of_uncovered uncovered, lastCovering_of_uncovered uncovered]
      by_cases low : o < image.first.offset
      · rw [old o low]
        exact cleared o low uncovered
      · exact Memory.fill_inside _ _ _ _ _ (by omega)

/-- A well-formed image that the FAT layer delivers to the staging area loads as it should whenever
the pre-fill spares its staged bytes and RAM below its first record is clear; of an image whose
bytes are spared, the second is also needed. -/
theorem osBootFatFsloadBin_flat {σ : Type} (layer : FatLayer σ) (medium : Medium)
    (filename : List UInt8) (state : σ) (image : NkImage) (ram : Memory)
    (delivers : Delivers layer medium filename state image.encode)
    (short : image.encode.length ≤ readFileMaxSize120) :
    (image.Spared ∧ image.Cleared ram →
      LoadsAs image (osBootFatFsloadBin layer medium filename state ram).1) ∧
    (image.Spared → LoadsAs image (osBootFatFsloadBin layer medium filename state ram).1 →
      image.Cleared ram) := by
  rw [osBootFatFsloadBin_staged delivers short]
  exact ⟨fun both => (loadImage_flat_iff image ram short both.1).mpr both.2,
    fun spared => (loadImage_flat_iff image ram short spared).mp⟩

/-- Two records in descending order, the second of which covers what lies below the first. -/
def descendingImage : NkImage where
  length := 0x10
  first := ⟨0x80600004, [5, 6]⟩
  rest := [⟨0x80600000, [1, 2, 3, 4, 7]⟩]
  launch := 0x80600000
  fits := by decide
  linked := by simp [NkRecord.Linked, nkImageAddress]

/-- That image loads as it should, whatever RAM held. -/
theorem osBootFatFsloadBin_flat_descending :
    LoadsAs descendingImage (osBootFatFsloadBin (FatLayer.ofFile descendingImage.encode) .usb [] ()
      Memory.blank).1 := by
  refine (osBootFatFsloadBin_flat _ .usb [] () descendingImage _
    (FatLayer.ofFile_delivers ..) (by decide)).1 ⟨?_, ?_⟩
  · intro i inside reached
    simp only [nkImageStoreStart, nkImageRamEnd, nkImageRamStart, nkImageNorSize,
      show descendingImage.first.offset = 4 from rfl] at reached
    omega
  · intro o below uncovered
    have below : o < 4 := below
    refine absurd ?_ (uncovered ⟨0x80600000, [1, 2, 3, 4, 7]⟩ (by simp [NkImage.records,
      descendingImage]))
    simp only [NkRecord.Covers, NkRecord.offset, nkImageAddress, List.length_cons, List.length_nil]
    exact ⟨Nat.zero_le _, by omega⟩

/-- One record 4 bytes into the window, with nothing below it. -/
def gapImage : NkImage where
  length := 0x10
  first := ⟨0x80600004, [5, 6]⟩
  rest := []
  launch := 0x80600000
  fits := by decide
  linked := by simp [NkRecord.Linked, nkImageAddress]

/-- The first bytes of the window keep what RAM held before that image was loaded. -/
theorem osBootFatFsloadBin_gap_not_flat :
    ¬LoadsAs gapImage (osBootFatFsloadBin (FatLayer.ofFile gapImage.encode) .usb [] ()
      Memory.blank).1 := by
  rw [osBootFatFsloadBin_staged (FatLayer.ofFile_delivers ..) (by decide)]
  have spared : gapImage.Spared := by
    intro i inside reached
    simp only [nkImageStoreStart, nkImageRamEnd, nkImageRamStart, nkImageNorSize,
      show gapImage.first.offset = 4 from rfl] at reached
    omega
  rw [loadImage_flat_iff gapImage _ (by decide) spared]
  intro cleared
  have stale := cleared 0 (by decide) (by
    intro r listed covers
    simp only [NkImage.records, gapImage, List.mem_singleton] at listed
    subst listed
    exact absurd covers.1 (by decide))
  exact absurd stale (by decide)

end HrppBoot.Board
