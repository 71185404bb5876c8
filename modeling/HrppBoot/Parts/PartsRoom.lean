import HrppBoot.Lib.Memory
import HrppBoot.Parts.Mtdparts

/-!
# The room for generated text

`part_parse` reserves 22 characters for a name that it makes up, enough for two numbers of eight
digits. `generate_mtdparts` counts what it writes behind `mtdparts=`, and not those nine characters.
-/

namespace HrppBoot.Parts

open ByteMemory

/-! ## Partitions -/

/-- `%08llx` -/
def formatHex (n : Nat) : Text :=
  List.replicate (8 - (Nat.toDigits 16 n).length) '0' ++ Nat.toDigits 16 n

def autoName (size offset : Nat) : Text :=
  ['0', 'x'] ++ (formatHex size ++ (['@', '0', 'x'] ++ formatHex offset))

/-- `sizeof(struct part_info)` -/
def partInfoSize : Nat := 48

namespace PartInfo

variable (part : PartInfo)

def nameLen : Nat :=
  match part.name with
  | some name => name.length + 1
  | none => 22

/-- The bytes that `strncpy` or `sprintf` writes. -/
def nameBytes : Nat :=
  match part.name with
  | some name => name.length
  | none => (autoName part.size part.offset).length + 1

/-- What is written from `malloc` on, counted from the start of the block. -/
def writes : List Span :=
  -- `memset`, `size`, `offset`, `mask_flags` and `name`
  [⟨0, partInfoSize + part.nameLen⟩, ⟨16, 8⟩, ⟨24, 8⟩, ⟨36, 4⟩, ⟨8, 4⟩,
    -- the characters, `auto_name`, the last character and `link`
    ⟨partInfoSize, part.nameBytes⟩, ⟨12, 1⟩, ⟨partInfoSize + (part.nameLen - 1), 1⟩, ⟨0, 8⟩]

end PartInfo

structure Block where
  size : Nat
  writes : List Span

def Block.Inside (block : Block) : Prop := ∀ span ∈ block.writes, span.Within 0 block.size

/-- The block of `part_parse`, where there is a partition and `malloc` grants it. -/
def partBlock (granted : Bool) (partdef : Text) : Option Block :=
  match partParse partdef with
  | none => none
  | some (part, _) =>
    if granted then some ⟨partInfoSize + part.nameLen, part.writes⟩ else none

/-- A partition whose name has room: a name is given, or both numbers have eight digits. -/
def PartInfo.NameFits (part : PartInfo) : Prop :=
  part.name.isSome ∨ part.size < 2 ^ 32 ∧ part.offset < 2 ^ 32

theorem length_formatHex (n : Nat) : 8 ≤ (formatHex n).length ∧
    ((formatHex n).length ≤ 8 ↔ n < 2 ^ 32) := by
  have digits : (Nat.toDigits 16 n).length ≤ 8 ↔ n < 16 ^ 8 :=
    Nat.length_toDigits_le_iff (by decide) (by decide)
  have power : (16 : Nat) ^ 8 = 2 ^ 32 := by decide
  rw [power] at digits
  rw [formatHex, List.length_append, List.length_replicate, ← digits]
  omega

theorem nameBytes_le_iff (part : PartInfo) : part.nameBytes ≤ part.nameLen ↔ part.NameFits := by
  unfold PartInfo.nameBytes PartInfo.nameLen PartInfo.NameFits
  cases part.name with
  | some name => exact iff_of_true (Nat.le_succ _) (.inl rfl)
  | none =>
    obtain ⟨leastSize, size⟩ := length_formatHex part.size
    obtain ⟨leastOffset, offset⟩ := length_formatHex part.offset
    have two : ['0', 'x'].length = 2 := rfl
    have three : ['@', '0', 'x'].length = 3 := rfl
    simp only [autoName, List.length_append, two, three, Option.isSome_none, Bool.false_eq_true,
      false_or, ← size, ← offset]
    omega

theorem writes_inside_iff (part : PartInfo) :
    (⟨partInfoSize + part.nameLen, part.writes⟩ : Block).Inside ↔ part.NameFits := by
  have positive : 0 < part.nameLen := by
    unfold PartInfo.nameLen
    split
    · exact Nat.succ_pos _
    · decide
  rw [← nameBytes_le_iff]
  simp only [Block.Inside, PartInfo.writes, List.forall_mem_cons, Span.Within, Span.Inside,
    partInfoSize]
  constructor
  · rintro ⟨-, -, -, -, -, name, -⟩
    omega
  · intro room
    exact ⟨by omega, by omega, by omega, by omega, by omega, by omega, by omega, by omega,
      by omega, fun span none => absurd none List.not_mem_nil⟩

/-! ## The list of partitions -/

/-- What is written behind `mtdparts=`. -/
structure Buffer where
  text : Text
  maxlen : Nat
  /-- The exit `cleanup` is taken. -/
  stopped : Bool

namespace Buffer

/-- A text is copied while there is room for it. -/
def put (b : Buffer) (text : Text) : Buffer :=
  if b.stopped then b
  else if b.maxlen < text.length then { b with stopped := true }
  else { b with text := b.text ++ text, maxlen := b.maxlen - text.length }

/-- A text that is copied under a condition. -/
def putIf (b : Buffer) (written : Bool) (text : Text) : Buffer :=
  if written then b.put text else b

/-- One partition of a device, with its separator. -/
def putPart (numParts : Nat) (prevPart : Option PartInfo) (part : PartInfo) (partCnt : Nat)
    (b : Buffer) : Buffer :=
  ((((b.put (memsizeFormat part.size)).putIf (gapBefore prevPart part)
    ('@' :: memsizeFormat part.offset)).putIf part.name.isSome
    ('(' :: (part.name.getD [] ++ [')']))).putIf (part.maskFlags != 0) ['r', 'o']).putIf
    (partCnt < numParts) [',']

/-- The loop over the partitions of a device. -/
def putParts (numParts : Nat) (prevPart : Option PartInfo) (partCnt : Nat) (b : Buffer) :
    List PartInfo → Buffer
  | [] => b
  | part :: parts =>
    putParts numParts (some part) (partCnt + 1) (putPart numParts prevPart part (partCnt + 1) b)
      parts

def putDevices (b : Buffer) : List MtdDevice → Buffer
  | [] => b
  | dev :: devices =>
    putDevices (((b.put (dev.id.mtdId ++ [':'])).putParts dev.numParts none 0 dev.parts).putIf
      (devices ≠ []) [';']) devices

end Buffer

/-- `generate_mtdparts`: whether it succeeds, and what is written to `buf`. -/
def generateWrites (devices : List MtdDevice) (buflen : UInt32) : Bool × List Span :=
  if devices = [] then (true, [⟨0, 1⟩])
  else
    let b := Buffer.putDevices ⟨[], (buflen - 1).toNat, false⟩ devices
    -- `sprintf` ends the nine characters with a zero byte
    (!b.stopped, [⟨0, 10⟩, ⟨9, b.text.length⟩] ++
      if b.stopped then [] else [⟨9 + b.text.length, 1⟩])

/-! ## The pieces -/

/-- A piece that is written under a condition. -/
def pieceIf (written : Bool) (text : Text) : List Text := if written then [text] else []

def partPieces (numParts : Nat) (prevPart : Option PartInfo) (part : PartInfo) (partCnt : Nat) :
    List Text :=
  memsizeFormat part.size ::
    (pieceIf (gapBefore prevPart part) ('@' :: memsizeFormat part.offset) ++
    (pieceIf part.name.isSome ('(' :: (part.name.getD [] ++ [')'])) ++
      (pieceIf (part.maskFlags != 0) ['r', 'o'] ++ pieceIf (partCnt < numParts) [','])))

/-- The pieces of the partitions of a device. -/
def partsPieces (numParts : Nat) (prevPart : Option PartInfo) (partCnt : Nat) :
    List PartInfo → List Text
  | [] => []
  | part :: parts =>
    partPieces numParts prevPart part (partCnt + 1) ++
      partsPieces numParts (some part) (partCnt + 1) parts

def pieces : List MtdDevice → List Text
  | [] => []
  | dev :: devices =>
    (dev.id.mtdId ++ [':']) :: (partsPieces dev.numParts none 0 dev.parts ++
      (pieceIf (devices ≠ []) [';'] ++ pieces devices))

/-- The pieces that are copied leave room for the nine characters, and for the end of the text where
they are all. -/
def TextFits (devices : List MtdDevice) (buflen : Nat) : Prop :=
  10 ≤ buflen ∧ ∀ front rest, pieces devices = front ++ rest →
    front.flatten.length + 1 ≤ buflen → front.flatten.length + 9 ≤ buflen ∧
      (rest = [] → front.flatten.length + 10 ≤ buflen)

namespace Buffer

variable {b : Buffer}

theorem putIf_eq (written : Bool) (text : Text) :
    b.putIf written text = (pieceIf written text).foldl put b := by
  cases written with
  | false => rfl
  | true => rfl

theorem putPart_eq (numParts : Nat) (prevPart : Option PartInfo) (part : PartInfo)
    (partCnt : Nat) :
    b.putPart numParts prevPart part partCnt =
      (partPieces numParts prevPart part partCnt).foldl put b := by
  simp only [putPart, partPieces, putIf_eq, List.foldl_cons, List.foldl_append]

theorem putParts_eq (numParts : Nat) (prevPart : Option PartInfo) (partCnt : Nat)
    (parts : List PartInfo) :
    b.putParts numParts prevPart partCnt parts =
      (partsPieces numParts prevPart partCnt parts).foldl put b := by
  induction parts generalizing b prevPart partCnt with
  | nil => rfl
  | cons part parts ih => rw [putParts, partsPieces, List.foldl_append, ih, putPart_eq]

theorem putDevices_eq (devices : List MtdDevice) :
    b.putDevices devices = (pieces devices).foldl put b := by
  induction devices generalizing b with
  | nil => rfl
  | cons dev devices ih =>
    rw [putDevices, pieces, List.foldl_cons, List.foldl_append, List.foldl_append, ih, putIf_eq,
      putParts_eq]

theorem foldl_put_stopped (stopped : b.stopped = true) (texts : List Text) :
    texts.foldl put b = b := by
  induction texts with
  | nil => rfl
  | cons text texts ih => rw [List.foldl_cons, put, if_pos stopped, ih]

/-- Pieces are copied up to the first for which there is no room. -/
theorem foldl_put_spec (running : b.stopped = false) (texts : List Text) :
    ∃ front rest, texts = front ++ rest ∧ front.flatten.length ≤ b.maxlen ∧
      (texts.foldl put b).text = b.text ++ front.flatten ∧
      ((texts.foldl put b).stopped = false ↔ rest = []) ∧
      ∀ text later, rest = text :: later → b.maxlen < front.flatten.length + text.length := by
  induction texts generalizing b with
  | nil =>
    refine ⟨[], [], rfl, Nat.zero_le _, (List.append_nil _).symm, iff_of_true running rfl, ?_⟩
    rintro text later ⟨⟩
  | cons text texts ih =>
    rw [List.foldl_cons]
    by_cases room : b.maxlen < text.length
    · have stop : b.put text = { b with stopped := true } := by
        rw [put, if_neg (Bool.not_eq_true _ ▸ running), if_pos room]
      rw [stop, foldl_put_stopped rfl]
      refine ⟨[], text :: texts, rfl, Nat.zero_le _, (List.append_nil _).symm,
        iff_of_false (by simp) (by simp), ?_⟩
      rintro first later ⟨⟩
      rwa [List.flatten_nil, List.length_nil, Nat.zero_add]
    · have copied : b.put text =
          { b with text := b.text ++ text, maxlen := b.maxlen - text.length } := by
        rw [put, if_neg (Bool.not_eq_true _ ▸ running), if_neg room]
      rw [copied]
      obtain ⟨front, rest, whole, inside, written, ended, next⟩ := @ih
        { b with text := b.text ++ text, maxlen := b.maxlen - text.length } running
      dsimp only at inside written next
      refine ⟨text :: front, rest, by rw [whole, List.cons_append], ?_, ?_, ended, ?_⟩
      · rw [List.flatten_cons, List.length_append]
        omega
      · rw [written, List.flatten_cons, List.append_assoc]
      · intro first later same
        have more := next first later same
        rw [List.flatten_cons, List.length_append]
        omega

end Buffer

/-! ## The text that is written -/

/-- Pieces for which there is room as a whole. -/
def copies (texts : List Text) (maxlen : Nat) : Option (Text × Nat) :=
  copyText texts.flatten maxlen

theorem copies_append (first second : List Text) (maxlen : Nat) :
    copies (first ++ second) maxlen =
      (copies first maxlen).bind fun front =>
        (copies second front.2).map fun back => (front.1 ++ back.1, back.2) := by
  unfold copies copyText
  rw [List.flatten_append, List.length_append]
  split
  · split
    · rfl
    · rw [Option.bind_some, if_pos (by dsimp only; omega)]
      rfl
  · rw [if_neg (by omega), Option.bind_some, if_neg (by dsimp only; omega), Option.map_some,
      Nat.sub_add_eq]

theorem copyText_eq (text : Text) (maxlen : Nat) : copyText text maxlen = copies [text] maxlen := by
  rw [copies, List.flatten_singleton]

theorem copyIf_eq (written : Bool) (text : Text) (maxlen : Nat) :
    copyIf written text maxlen = copies (pieceIf written text) maxlen := by
  cases written with
  | false => rfl
  | true => exact copyText_eq text maxlen

theorem generatePart_eq (numParts : Nat) (prevPart : Option PartInfo) (part : PartInfo)
    (partCnt maxlen : Nat) :
    generatePart numParts prevPart part partCnt maxlen =
      copies (partPieces numParts prevPart part partCnt) maxlen := by
  rw [partPieces, ← List.singleton_append]
  simp only [generatePart, copyText_eq, copyIf_eq, copies_append, Option.bind_eq_bind,
    Option.bind_assoc, Option.map_eq_bind, Option.bind_some, Function.comp_def,
    List.append_assoc]

theorem generateParts_eq (numParts : Nat) (prevPart : Option PartInfo) (partCnt maxlen : Nat)
    (parts : List PartInfo) :
    generateParts numParts prevPart partCnt maxlen parts =
      copies (partsPieces numParts prevPart partCnt parts) maxlen := by
  induction parts generalizing prevPart partCnt maxlen with
  | nil => rfl
  | cons part parts ih =>
    rw [generateParts, partsPieces, copies_append, generatePart_eq]
    simp only [ih, Option.bind_eq_bind, Option.map_eq_bind, Function.comp_def]

theorem generateDevices_eq (maxlen : Nat) (devices : List MtdDevice) :
    generateDevices maxlen devices = (copies (pieces devices) maxlen).map Prod.fst := by
  induction devices generalizing maxlen with
  | nil => rfl
  | cons dev devices ih =>
    have split : pieces (dev :: devices) = [dev.id.mtdId ++ [':']] ++
        (partsPieces dev.numParts none 0 dev.parts ++
          (pieceIf (devices ≠ []) [';'] ++ pieces devices)) := rfl
    rw [generateDevices, split]
    simp only [copyText_eq, generateParts_eq, copyIf_eq, ih, copies_append, Option.bind_eq_bind,
      Option.bind_assoc, Option.map_eq_bind, Option.bind_some, Function.comp_def,
      List.append_assoc]

theorem toNat_pred (buflen : UInt32) :
    (buflen - 1).toNat = (buflen.toNat + 2 ^ 32 - 1) % 2 ^ 32 := by
  have small := buflen.toNat_lt
  rw [UInt32.toNat_sub, UInt32.toNat_one]
  omega

/-- The text that is written is the one that is generated. -/
theorem generateMtdparts_eq (devices : List MtdDevice) (buflen : UInt32) :
    generateMtdparts devices buflen.toNat =
      if devices = [] then some []
      else
        let b := Buffer.putDevices ⟨[], (buflen - 1).toNat, false⟩ devices
        if b.stopped then none else some (mtdpartsText ++ b.text) := by
  rw [generateMtdparts, ← toNat_pred]
  split
  · rfl
  · obtain ⟨front, rest, whole, inside, written, ended, next⟩ :=
      @Buffer.foldl_put_spec ⟨[], (buflen - 1).toNat, false⟩ rfl (pieces devices)
    rw [Buffer.putDevices_eq, generateDevices_eq, copies, copyText]
    dsimp only at inside next
    cases rest with
    | nil =>
      rw [List.append_nil] at whole
      dsimp only
      rw [ended.mpr rfl, written, whole, if_neg (Nat.not_lt.mpr inside)]
      rfl
    | cons text later =>
      have more := next text later rfl
      have stopped : ((pieces devices).foldl Buffer.put ⟨[], (buflen - 1).toNat, false⟩).stopped =
          true := by
        rw [← Bool.not_eq_false, ended]
        exact List.cons_ne_nil _ _
      have long : (buflen - 1).toNat < (pieces devices).flatten.length := by
        rw [whole, List.flatten_append, List.flatten_cons, List.length_append, List.length_append]
        omega
      dsimp only
      rw [stopped, if_pos long]
      rfl

/-! ## The room -/

theorem length_le_copied {front rest other behind : List Text} {maxlen : Nat}
    (same : other ++ behind = front ++ rest) (room : other.flatten.length ≤ maxlen)
    (next : ∀ text later, rest = text :: later → maxlen < front.flatten.length + text.length) :
    other.flatten.length ≤ front.flatten.length ∧ (behind = [] → rest = [] ∧ other = front) := by
  rcases List.append_eq_append_iff.mp same with ⟨more, rfl, rfl⟩ | ⟨more, rfl, rfl⟩
  · rw [List.flatten_append, List.length_append]
    refine ⟨Nat.le_add_right _ _, fun none => ?_⟩
    obtain ⟨rfl, rfl⟩ := List.append_eq_nil_iff.mp none
    exact ⟨rfl, (List.append_nil _).symm⟩
  · cases more with
    | nil => exact ⟨by rw [List.append_nil], fun none => ⟨none, List.append_nil _⟩⟩
    | cons text later =>
      have long := next text (later ++ behind) rfl
      rw [List.flatten_append, List.flatten_cons, List.length_append, List.length_append] at room
      omega

/-- The list is written inside the buffer exactly if the pieces that are copied leave room. -/
theorem listWrites_inside_iff (devices : List MtdDevice) (buflen : UInt32) :
    (∀ span ∈ ([⟨0, 10⟩,
      ⟨9, (Buffer.putDevices ⟨[], (buflen - 1).toNat, false⟩ devices).text.length⟩] ++
      if (Buffer.putDevices ⟨[], (buflen - 1).toNat, false⟩ devices).stopped then []
      else [⟨9 + (Buffer.putDevices ⟨[], (buflen - 1).toNat, false⟩ devices).text.length, 1⟩] :
        List Span), span.Within 0 buflen.toNat) ↔ TextFits devices buflen.toNat := by
  obtain ⟨front, rest, whole, inside, written, ended, next⟩ :=
    @Buffer.foldl_put_spec ⟨[], (buflen - 1).toNat, false⟩ rfl (pieces devices)
  dsimp only at inside next
  have small := buflen.toNat_lt
  rw [List.nil_append] at written
  rw [toNat_pred] at inside next
  rw [Buffer.putDevices_eq, written]
  simp only [List.cons_append, List.nil_append, List.forall_mem_cons, Span.Within, Span.Inside]
  constructor
  · rintro ⟨start, text, last⟩
    refine ⟨by omega, fun other behind same room => ?_⟩
    obtain ⟨shorter, all⟩ := length_le_copied (same.symm.trans whole) (by omega) next
    refine ⟨by omega, fun none => ?_⟩
    obtain ⟨none, same⟩ := all none
    rw [ended.mpr none, if_neg Bool.false_ne_true, List.forall_mem_singleton] at last
    dsimp only at last
    rw [same]
    omega
  · rintro ⟨start, fits⟩
    obtain ⟨text, all⟩ := fits front rest whole (by omega)
    refine ⟨by omega, by omega, ?_⟩
    split
    · exact fun span none => absurd none List.not_mem_nil
    · next running =>
      have whole := all (ended.mp (Bool.not_eq_true _ ▸ running))
      rw [List.forall_mem_singleton]
      dsimp only
      omega

/-- For every partition definition and every list of devices: a partition is written inside its
block exactly if its name has room, and the list inside the buffer exactly if the pieces that are
copied leave room for the start of the text and its end. -/
theorem parts_room_iff (granted : Bool) (partdef : Text) (devices : List MtdDevice)
    (buflen : UInt32) :
    ((∀ block, partBlock granted partdef = some block → block.Inside) ↔
      (granted = true → ∀ part rest, partParse partdef = some (part, rest) → part.NameFits)) ∧
    ((∀ span ∈ (generateWrites devices buflen).2, span.Within 0 buflen.toNat) ↔
      (devices = [] → 1 ≤ buflen.toNat) ∧ (devices ≠ [] → TextFits devices buflen.toNat)) := by
  constructor
  · cases granted with
    | false =>
      refine iff_of_true (fun block same => ?_) fun yes => by cases yes
      rw [partBlock] at same
      split at same
      · cases same
      · cases same
    | true =>
      rw [imp_iff_right rfl]
      constructor
      · intro all part rest parsed
        rw [← writes_inside_iff]
        refine all _ ?_
        rw [partBlock, parsed]
        rfl
      · intro all block same
        cases parsed : partParse partdef with
        | none =>
          rw [partBlock, parsed] at same
          cases same
        | some found =>
          rw [partBlock, parsed] at same
          obtain rfl := Option.some.inj same
          exact (writes_inside_iff found.1).mpr (all found.1 found.2 parsed)
  · by_cases empty : devices = []
    · rw [generateWrites, if_pos empty, List.forall_mem_singleton, and_iff_left (absurd empty),
        imp_iff_right empty]
      simp only [Span.Within, Span.Inside]
      omega
    · rw [and_iff_right fun same => absurd same empty, imp_iff_right empty, generateWrites,
        if_neg empty]
      exact listWrites_inside_iff devices buflen

def oneDevice : List MtdDevice :=
  [⟨⟨1, 0, 1048576, ['n', 'a', 'n', 'd', '0']⟩, [⟨none, 4096, 0, 0⟩]⟩]

/-- A partition of all that remains, without a name, and a list of 17 characters in a buffer of
16. -/
theorem fillUp_outside :
    (¬∀ block, partBlock true ['-'] = some block → block.Inside) ∧
      ¬∀ span ∈ (generateWrites oneDevice 16).2, span.Within 0 16 := by
  constructor
  · intro all
    have inside := all ⟨70, (PartInfo.mk none sizeRemaining offsetNotSpecified 0).writes⟩ rfl
    rcases (writes_inside_iff ⟨none, sizeRemaining, offsetNotSpecified, 0⟩).mp inside with
      given | ⟨small, -⟩
    · cases given
    · exact absurd small (by decide)
  · intro all
    have written : (generateWrites oneDevice 16).2 = [⟨0, 10⟩, ⟨9, 8⟩, ⟨17, 1⟩] := rfl
    rw [written] at all
    exact absurd (all ⟨17, 1⟩ (.tail _ (.tail _ (.head _)))) (by decide)

end HrppBoot.Parts
