import HrppBoot.Parts.PartsBuilt

/-!
# The generated text

What `generate_mtdparts` writes where it does not run out of room: the partitions of a device
separated by commas, and the devices by semicolons. The offset of a partition is written only where
it is not the end of the one before it, and that is where `device_parse` puts a partition without an
offset. So the parser reads the partitions of a device back in their order, unless one that is not
the last takes the size that stands for all that remains.
-/

namespace HrppBoot.Parts

variable {table : MtdTable} {ids : List Mtdids} {id : Mtdids} {part : PartInfo}

/-! ## What is written -/

/-- A text under a condition. -/
def textIf (written : Bool) (text : Text) : Text := if written then text else []

/-- A partition without a separator. -/
def partText (prevPart : Option PartInfo) (part : PartInfo) : Text :=
  memsizeFormat part.size ++
    (textIf (gapBefore prevPart part) ('@' :: memsizeFormat part.offset) ++
      (textIf part.name.isSome ('(' :: (part.name.getD [] ++ [')'])) ++
        textIf (part.maskFlags != 0) ['r', 'o']))

/-- The partitions of a device, separated by commas. -/
def partsText (prevPart : Option PartInfo) : List PartInfo → Text
  | [] => []
  | part :: parts =>
    partText prevPart part ++ (textIf (parts ≠ []) [','] ++ partsText (some part) parts)

/-- A device. -/
def deviceText (dev : MtdDevice) : Text := dev.id.mtdId ++ ':' :: partsText none dev.parts

/-- The devices, separated by semicolons. -/
def devicesText : List MtdDevice → Text
  | [] => []
  | dev :: devices => deviceText dev ++ (textIf (devices ≠ []) [';'] ++ devicesText devices)

variable {left maxlen numParts partCnt : Nat} {text rest : Text} {prevPart : Option PartInfo}
   {parts : List PartInfo} {c : Char}

theorem copyText_some {copied : Text} (copying : copyText text maxlen = some (copied, left)) :
    copied = text ∧ copied.length + left = maxlen := by
  rw [copyText] at copying
  split at copying
  next => exact absurd copying (by simp)
  next room =>
    obtain ⟨rfl, rfl⟩ := by simpa using copying
    exact ⟨rfl, by omega⟩

theorem copyIf_some {written : Bool} {copied : Text}
    (copying : copyIf written text maxlen = some (copied, left)) :
    copied = textIf written text ∧ copied.length + left = maxlen := by
  cases written with
  | true => exact copyText_some copying
  | false =>
    obtain ⟨rfl, rfl⟩ := by simpa [copyIf] using copying
    exact ⟨rfl, by simp⟩

theorem memsizeFormat_length (size : Nat) : 0 < (memsizeFormat size).length := by
  obtain ⟨c, rest, same, _⟩ := memsizeFormat_head size
  rw [same]
  exact Nat.succ_pos _

theorem generatePart_some
    (generated : generatePart numParts prevPart part partCnt maxlen = some (text, left)) :
    text = partText prevPart part ++ textIf (partCnt < numParts) [','] ∧
      text.length + left = maxlen := by
  obtain ⟨⟨size, room₁⟩, copied₁, generated⟩ := Option.bind_eq_some_iff.mp generated
  obtain ⟨⟨offset, room₂⟩, copied₂, generated⟩ := Option.bind_eq_some_iff.mp generated
  obtain ⟨⟨name, room₃⟩, copied₃, generated⟩ := Option.bind_eq_some_iff.mp generated
  obtain ⟨⟨ro, room₄⟩, copied₄, generated⟩ := Option.bind_eq_some_iff.mp generated
  obtain ⟨⟨comma, room₅⟩, copied₅, generated⟩ := Option.bind_eq_some_iff.mp generated
  obtain ⟨rfl, rfl⟩ := by simpa using generated
  obtain ⟨rfl, taken₁⟩ := copyText_some copied₁
  obtain ⟨rfl, taken₂⟩ := copyIf_some copied₂
  obtain ⟨rfl, taken₃⟩ := copyIf_some copied₃
  obtain ⟨rfl, taken₄⟩ := copyIf_some copied₄
  obtain ⟨rfl, taken₅⟩ := copyIf_some copied₅
  refine ⟨by simp [partText], ?_⟩
  simp only [List.length_append]
  omega

theorem generateParts_room
    (generated : generateParts numParts prevPart partCnt maxlen parts = some (text, left)) :
    text.length + left = maxlen ∧ parts.length ≤ text.length := by
  induction parts generalizing prevPart partCnt maxlen text with
  | nil =>
    obtain ⟨rfl, rfl⟩ := by simpa [generateParts] using generated
    simp
  | cons part parts ih =>
    obtain ⟨⟨first, room⟩, one, generated⟩ := Option.bind_eq_some_iff.mp generated
    obtain ⟨⟨rest, room'⟩, others, generated⟩ := Option.bind_eq_some_iff.mp generated
    obtain ⟨rfl, rfl⟩ := by simpa using generated
    obtain ⟨same, taken⟩ := generatePart_some one
    obtain ⟨left, count⟩ := ih others
    have positive := memsizeFormat_length part.size
    rw [same, partText] at taken
    rw [same, partText]
    simp only [List.length_append, List.length_cons] at taken ⊢
    omega

theorem generateParts_some (counted : partCnt + parts.length = numParts)
    (generated : generateParts numParts prevPart partCnt maxlen parts = some (text, left)) :
    text = partsText prevPart parts := by
  induction parts generalizing prevPart partCnt maxlen text with
  | nil =>
    obtain ⟨rfl, rfl⟩ := by simpa [generateParts] using generated
    rfl
  | cons part parts ih =>
    obtain ⟨⟨first, room⟩, one, generated⟩ := Option.bind_eq_some_iff.mp generated
    obtain ⟨⟨rest, room'⟩, others, generated⟩ := Option.bind_eq_some_iff.mp generated
    obtain ⟨rfl, rfl⟩ := by simpa using generated
    have more : decide (partCnt + 1 < numParts) = decide (parts ≠ []) := by
      cases parts with
      | nil => simp [← counted]
      | cons => simp [← counted]
    obtain ⟨rfl, _⟩ := generatePart_some one
    rw [ih (by simp at counted; omega) others, more, partsText, List.append_assoc]

theorem generateDevices_some {devices : List MtdDevice} (room : maxlen < 2 ^ 16)
    (generated : generateDevices maxlen devices = some text) :
    text = devicesText devices ∧ ∀ dev ∈ devices, dev.parts.length < 2 ^ 16 := by
  induction devices generalizing maxlen text with
  | nil =>
    obtain rfl : [] = text := by simpa [generateDevices] using generated
    exact ⟨rfl, fun _ member => absurd member List.not_mem_nil⟩
  | cons dev devices ih =>
    obtain ⟨⟨mtdId, room₁⟩, copied, generated⟩ := Option.bind_eq_some_iff.mp generated
    obtain ⟨⟨parts, room₂⟩, written, generated⟩ := Option.bind_eq_some_iff.mp generated
    obtain ⟨⟨semicolon, room₃⟩, separated, generated⟩ := Option.bind_eq_some_iff.mp generated
    obtain ⟨rest, others, generated⟩ := Option.bind_eq_some_iff.mp generated
    obtain rfl := Option.some.inj generated
    obtain ⟨rfl, taken₁⟩ := copyText_some copied
    obtain ⟨taken₂, count⟩ := generateParts_room written
    obtain ⟨rfl, taken₃⟩ := copyIf_some separated
    have few : dev.parts.length < 2 ^ 16 := by omega
    have counted : 0 + dev.parts.length = dev.numParts := by
      rw [MtdDevice.numParts, Nat.mod_eq_of_lt few, Nat.zero_add]
    obtain ⟨rfl, counts⟩ := ih (by omega) others
    refine ⟨?_, List.forall_mem_cons.mpr ⟨few, counts⟩⟩
    rw [generateParts_some counted written, devicesText, deviceText]
    simp

theorem generateMtdparts_some {devices : List MtdDevice} {buflen : Nat} (present : devices ≠ [])
    (positive : 0 < buflen) (room : buflen ≤ 2 ^ 16)
    (generated : generateMtdparts devices buflen = some text) :
    text = mtdpartsText ++ devicesText devices ∧
      ∀ dev ∈ devices, dev.parts.length < 2 ^ 16 := by
  rw [generateMtdparts, if_neg present] at generated
  obtain ⟨written, found, rfl⟩ := Option.map_eq_some_iff.mp generated
  obtain ⟨rfl, counts⟩ := generateDevices_some (by omega) found
  exact ⟨rfl, counts⟩

/-! ## What is read back -/

theorem StartsIn.mono {few many : List Char} {rest : Text} (starts : StartsIn few rest)
    (allowed : few.all many.contains = true) : StartsIn many rest :=
  fun c head => List.contains_iff_mem.mp (List.all_eq_true.mp allowed c (starts c head))

theorem StartsIn.textIf {allowed : List Char} (starts : StartsIn allowed rest) (written : Bool)
    (first : c ∈ allowed) (text : Text) :
    StartsIn allowed (textIf written (c :: text) ++ rest) := by
  cases written with
  | true =>
    intro d head
    obtain rfl : c = d := by simpa [Parts.textIf] using head
    exact first
  | false => exact starts

theorem StartsIn.ne_cons {allowed : List Char} (starts : StartsIn allowed rest)
    (other : c ∉ allowed) (text : Text) : rest ≠ c :: text := by
  rintro rfl
  exact other (starts c rfl)

/-- What follows a partition: nothing, a comma or a semicolon. -/
abbrev PartEnd : Text → Prop := StartsIn [',', ';']

theorem fetchSize_text {size : Nat} (least : minPartSize ≤ size) (fits : size < 2 ^ 64)
    (ends : SizeEnd rest) :
    fetchSize (memsizeFormat size ++ rest) = some (size, rest) := by
  have parsed := memsizeParse_format fits ends
  obtain ⟨c, digits, same, digit⟩ := memsizeFormat_head size
  unfold fetchSize
  split
  next p minus =>
    rw [same, List.cons_append] at minus
    rw [(List.cons.inj minus).1] at digit
    exact absurd digit (by decide)
  next =>
    simp only [parsed]
    rw [if_neg (Nat.not_lt.mpr least)]

theorem checkOffset_text {offset : Nat} (fits : offset < 2 ^ 64) (written : Bool)
    (ends : StartsIn ['(', 'r', ',', ';'] rest) :
    checkOffset (textIf written ('@' :: memsizeFormat offset) ++ rest) =
      (if written then offset else offsetNotSpecified, rest) := by
  cases written with
  | true => exact memsizeParse_format fits (ends.mono (by decide))
  | false =>
    show checkOffset rest = (offsetNotSpecified, rest)
    unfold checkOffset
    split
    next => exact absurd rfl (ends.ne_cons (by decide) _)
    next => rfl

theorem strchr_text (plain : c ∉ text) (rest : Text) :
    strchr c (text ++ c :: rest) = some (text, rest) := by
  induction text with
  | nil => exact if_pos rfl
  | cons d text ih =>
    obtain ⟨other, plain⟩ := not_or.mp (List.mem_cons.not.mp plain)
    rw [List.cons_append, strchr, if_neg (Ne.symm other), ih plain]
    rfl

theorem lookForName_text {name : Option Text} (named : ∀ text ∈ name, text ≠ [] ∧ ')' ∉ text)
    {rest : Text} (ends : StartsIn ['r', ',', ';'] rest) :
    lookForName (textIf name.isSome ('(' :: (name.getD [] ++ [')'])) ++ rest) =
      some (name, rest) := by
  cases name with
  | none =>
    show lookForName rest = some (none, rest)
    unfold lookForName
    split
    next => exact absurd rfl (ends.ne_cons (by decide) _)
    next => rfl
  | some text =>
    obtain ⟨nonempty, plain⟩ := named text rfl
    show lookForName ('(' :: ((text ++ [')']) ++ rest)) = some (some text, rest)
    have found : strchr ')' ((text ++ [')']) ++ rest) = some (text, rest) := by
      rw [List.append_assoc]
      exact strchr_text plain rest
    unfold lookForName
    simp only [found]

theorem testOptions_text {flags : Nat} (single : flags ≤ 1) (ends : PartEnd rest) :
    testOptions (textIf (flags != 0) ['r', 'o'] ++ rest) = (flags, rest) := by
  rcases Nat.le_one_iff_eq_zero_or_eq_one.mp single with rfl | rfl
  · show testOptions rest = (0, rest)
    unfold testOptions
    split
    next => exact absurd rfl (ends.ne_cons (by decide) _)
    next => rfl
  · rfl

/-- The fields that are read of a partition: its offset only where it is written. -/
def PartInfo.reread (prevPart : Option PartInfo) (part : PartInfo) : PartInfo :=
  { part with offset := if gapBefore prevPart part then part.offset else offsetNotSpecified }

theorem partParse_text (read : PartRead part) (least : minPartSize ≤ part.size)
    (ends : PartEnd rest) :
    partParse (partText prevPart part ++ rest) =
      (checkNext part.size rest).map fun p => (part.reread prevPart, p) := by
  have options : StartsIn ['r', ',', ';'] (textIf (part.maskFlags != 0) ['r', 'o'] ++ rest) :=
    (ends.mono (by decide)).textIf _ (by decide) _
  have name : StartsIn ['(', 'r', ',', ';'] (textIf part.name.isSome
      ('(' :: (part.name.getD [] ++ [')'])) ++ (textIf (part.maskFlags != 0) ['r', 'o'] ++ rest)) :=
    (options.mono (by decide)).textIf _ (by decide) _
  have offset : SizeEnd (textIf (gapBefore prevPart part) ('@' :: memsizeFormat part.offset) ++
      (textIf part.name.isSome ('(' :: (part.name.getD [] ++ [')'])) ++
        (textIf (part.maskFlags != 0) ['r', 'o'] ++ rest))) :=
    (name.mono (by decide)).textIf _ (by decide) _
  rw [partText, partParse]
  simp only [List.append_assoc]
  rw [fetchSize_text least read.size offset]
  simp only [Option.bind_eq_bind, Option.bind_some]
  rw [checkOffset_text read.offset _ name]
  dsimp only
  rw [lookForName_text read.name options, Option.bind_some, testOptions_text read.flags ends]
  dsimp only
  cases checkNext part.size rest with
  | none => rfl
  | some p => rfl

/-- Where the partition before ends. -/
def endOf : Option PartInfo → Nat
  | none => 0
  | some prevPart => (prevPart.offset + prevPart.size) % 2 ^ 64

theorem gapBefore_eq (prevPart : Option PartInfo) (part : PartInfo) :
    gapBefore prevPart part = (endOf prevPart != part.offset) := by
  cases prevPart with
  | none => exact bne_comm
  | some prevPart => rfl

theorem reread_placed (ok : PartOk table id part) (prevPart : Option PartInfo) :
    (if (part.reread prevPart).offset = offsetNotSpecified then
      { part.reread prevPart with offset := endOf prevPart } else part.reread prevPart) = part := by
  have specified : part.offset ≠ offsetNotSpecified := by
    have fits := ok.fits
    have positive := ok.positive
    rw [offsetNotSpecified]
    omega
  rw [PartInfo.reread, gapBefore_eq]
  by_cases adjacent : endOf prevPart = part.offset
  · simp [adjacent]
  · simp [adjacent, specified]

/-- Only the last partition may have the size that stands for all that remains. -/
def OnlyLastRemaining (parts : List PartInfo) : Prop :=
  ∀ part ∈ parts.dropLast, part.size ≠ sizeRemaining

/-- It is decided from the sizes. -/
instance (parts : List PartInfo) : Decidable (OnlyLastRemaining parts) :=
  inferInstanceAs (Decidable (∀ part ∈ parts.dropLast, part.size ≠ sizeRemaining))

theorem onlyLastRemaining_single (part : PartInfo) : OnlyLastRemaining [part] :=
  fun _ member => absurd member List.not_mem_nil

theorem onlyLastRemaining_cons {part next : PartInfo} :
    OnlyLastRemaining (part :: next :: parts) ↔
      part.size ≠ sizeRemaining ∧ OnlyLastRemaining (next :: parts) := by
  rw [OnlyLastRemaining, List.dropLast_cons_cons, List.forall_mem_cons]
  rfl

theorem parseParts_end (ends : StartsIn [';'] rest) (offset turns : Nat) :
    parseParts table id offset rest turns = some ([], rest) := by
  cases turns with
  | zero => rfl
  | succ turns =>
    cases rest with
    | nil => rfl
    | cons c rest =>
      obtain rfl : c = ';' := by simpa using ends c rfl
      rfl

theorem parseParts_turn {p : Text} (more : ∃ c q, p = c :: q ∧ c ≠ ';') (offset turns : Nat) :
    parseParts table id offset p (turns + 1) = (nextPart table id offset p).bind fun found =>
      (parseParts table id ((found.1.offset + found.1.size) % 2 ^ 64) found.2 turns).bind
        fun others => some (found.1 :: others.1, others.2) := by
  obtain ⟨c, q, rfl, other⟩ := more
  rw [parseParts]
  · rfl
  · simp
  · simpa using other

theorem nextPart_text (ok : PartOk table id part) (least : minPartSize ≤ part.size)
    (prevPart : Option PartInfo) (ends : PartEnd rest) :
    nextPart table id (endOf prevPart) (partText prevPart part ++ rest) =
      (checkNext part.size rest).map fun p => (part, p) := by
  rw [nextPart, partParse_text ok.read least ends]
  cases checkNext part.size rest with
  | none => rfl
  | some p =>
    simp only [Option.map_some, Option.bind_eq_bind, Option.bind_some]
    rw [reread_placed ok, ok.valid, Option.bind_some]

theorem partText_head (prevPart : Option PartInfo) (part : PartInfo) (rest : Text) :
    ∃ c q, partText prevPart part ++ rest = c :: q ∧ c ≠ ';' := by
  obtain ⟨c, digits, same, digit⟩ := memsizeFormat_head part.size
  rw [partText, same, List.cons_append, List.cons_append]
  refine ⟨c, _, rfl, ?_⟩
  rintro rfl
  exact absurd digit (by decide)

/-- The partitions of a device are read back in their order, unless one in front of another has the
size that stands for all that remains. -/
theorem parseParts_text (each : ∀ part ∈ parts, PartOk table id part)
    (least : ∀ part ∈ parts, minPartSize ≤ part.size) (prevPart : Option PartInfo)
    (ends : StartsIn [';'] rest) {turns : Nat} (enough : parts.length ≤ turns) :
    parseParts table id (endOf prevPart) (partsText prevPart parts ++ rest) turns =
      if OnlyLastRemaining parts then some (parts, rest) else none := by
  induction parts generalizing prevPart turns with
  | nil => exact parseParts_end ends _ _
  | cons part parts ih =>
    obtain ⟨turns, rfl⟩ : ∃ t, turns = t + 1 := Nat.exists_eq_add_one.mpr (by simp at enough; omega)
    obtain ⟨ok, each⟩ := List.forall_mem_cons.mp each
    obtain ⟨large, least⟩ := List.forall_mem_cons.mp least
    have others := @ih each least (some part) turns (by simpa using enough)
    rw [partsText, List.append_assoc, parseParts_turn (partText_head _ _ _)]
    cases parts with
    | nil =>
      have stop : checkNext part.size rest = some rest := by
        cases rest with
        | nil => rfl
        | cons c rest =>
          obtain rfl : c = ';' := by simpa using ends c rfl
          rfl
      have behind : textIf (([] : List PartInfo) ≠ []) [','] ++ partsText (some part) [] ++ rest =
          rest := rfl
      rw [behind, nextPart_text ok large prevPart (ends.mono (by decide)), stop,
        if_pos (onlyLastRemaining_single part)]
      show Option.bind (parseParts table id _ rest turns) _ = _
      rw [parseParts_end ends]
      rfl
    | cons next parts =>
      have comma : PartEnd (',' :: (partsText (some part) (next :: parts) ++ rest)) := by
        intro c head
        obtain rfl : ',' = c := by simpa using head
        decide
      have behind : textIf (next :: parts ≠ []) [','] ++ partsText (some part) (next :: parts) ++
          rest = ',' :: (partsText (some part) (next :: parts) ++ rest) := rfl
      rw [behind, nextPart_text ok large prevPart comma, checkNext]
      by_cases remaining : part.size = sizeRemaining
      · rw [if_pos remaining, if_neg fun only =>
          (onlyLastRemaining_cons.mp only).1 remaining]
        rfl
      · rw [if_neg remaining, Option.map_some, Option.bind_some]
        show Option.bind (parseParts table id (endOf (some part)) _ turns) _ = _
        rw [others]
        by_cases only : OnlyLastRemaining (next :: parts)
        · rw [if_pos only, if_pos (onlyLastRemaining_cons.mpr ⟨remaining, only⟩)]
          rfl
        · rw [if_neg only, if_neg fun all => only (onlyLastRemaining_cons.mp all).2]
          rfl

end HrppBoot.Parts
