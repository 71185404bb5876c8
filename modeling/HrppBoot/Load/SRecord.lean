import Mathlib.Algebra.BigOperators.Group.List.Basic
import Mathlib.Tactic.Ring

/-!
# Lines of S-records

`srec_decode` of `common/s_record.c`. A line is the list of its characters and the zero byte behind
them; a character behind that is never there to be read. The characters of an accepted line are the
hex pairs of its bytes, and a byte that is read wrong changes the checksum.
-/

namespace HrppBoot.Load

/-! ## The decoder -/

inductive Scan (α : Type) where
  | past
  /-- It returns from `srec_decode`. -/
  | ret (code : Int)
  | ok (value : α)
  deriving DecidableEq

def Scan.bind {α β : Type} (first : Scan α) (next : α → Scan β) : Scan β :=
  match first with
  | past => past
  | ret code => ret code
  | ok value => next value

/-- It never reads behind the zero byte, and what it goes on with is as wanted. -/
def Scan.Keeps {α : Type} (wanted : α → Prop) : Scan α → Prop
  | past => False
  | ret _ => True
  | ok value => wanted value

def srecEmpty : Int := 10

/-- `SREC_E_BADTYPE` -/
def srecBadType : Int := -1

/-- `SREC_E_NOSREC` -/
def srecNoSrec : Int := -2

/-- `SREC_E_BADCHKS` -/
def srecBadChks : Int := -3

/-- `hex1_bin`; there is none where it is below zero. -/
def hex1Bin (c : UInt8) : Option Nat :=
  if 0x30 ≤ c.toNat ∧ c.toNat ≤ 0x39 then some (c.toNat - 0x30)
  else if 0x61 ≤ c.toNat ∧ c.toNat ≤ 0x66 then some (c.toNat + 10 - 0x61)
  else if 0x41 ≤ c.toNat ∧ c.toNat ≤ 0x46 then some (c.toNat + 10 - 0x41)
  else none

/-- `hex2_bin`, and what is returned where it is below zero. -/
def hex2Bin : List UInt8 → Scan UInt8
  | [] => .past
  | c :: s =>
    match hex1Bin c with
    | none => .ret srecNoSrec
    | some i =>
      match s with
      | [] => .past
      | d :: _ =>
        match hex1Bin d with
        | none => .ret srecNoSrec
        | some j => .ok (UInt8.ofNat (16 * i + j))

/-- Bytes that were read, with the checksum and what is left of the line. -/
structure Fields where
  bytes : List UInt8
  chksum : UInt8
  input : List UInt8

def readBytes : (n : Nat) → (input : List UInt8) → (chksum : UInt8) → Scan Fields
  | 0, input, chksum => .ok ⟨[], chksum, input⟩
  | n + 1, input, chksum =>
    (hex2Bin input).bind fun v =>
      (readBytes n (input.drop 2) (chksum + v)).bind fun rest =>
        .ok { rest with bytes := v :: rest.bytes }

/-- Skips anything before `S`, and the `S` itself. -/
def skipToS : List UInt8 → Scan (List UInt8)
  | [] => .past
  | c :: input =>
    if c = 0 then .ok (c :: input)
    else if c = 0x53 then .ok input
    else skipToS input

/-- The first switch: the record type and what `*count` is lowered by, none where it is set to
zero. -/
def recordType (v : UInt8) : Option (Int × Option Nat) :=
  if v = 0x30 then some (0, some 3)
  else if v = 0x31 then some (1, some 3)
  else if v = 0x32 then some (2, some 4)
  else if v = 0x33 then some (3, some 5)
  else if v = 0x35 then some (5, none)
  else if v = 0x37 then some (7, some 5)
  else if v = 0x38 then some (8, some 4)
  else if v = 0x39 then some (9, some 3)
  else none

/-- The second switch: how many bytes of an address are read. -/
def addressBytes (v : UInt8) : Nat :=
  if v = 0x33 ∨ v = 0x37 then 4
  else if v = 0x32 ∨ v = 0x38 then 3
  else 2

def addressOf (bytes : List UInt8) : UInt32 :=
  bytes.foldl (fun addr v => (addr <<< 8) + v.toUInt32) 0

/-- What `srec_decode` gives for a record. -/
structure Srec where
  srecType : Int
  count : Int
  addr : UInt32
  /-- What is stored in `data`. -/
  data : List UInt8
  deriving DecidableEq

/-- `*count` for a count byte. -/
def countLeft (less : Option Nat) (count : UInt8) : Int :=
  match less with
  | none => 0
  | some less => (count.toNat : Int) - less

/-- From the count byte on: the address, the data and the checksum. -/
def decodeFields (v : UInt8) (kind : Int × Option Nat) (count : UInt8) (input : List UInt8) :
    Scan Srec :=
  (readBytes (addressBytes v) input count).bind fun address =>
    (readBytes (countLeft kind.2 count).toNat address.input address.chksum).bind fun data =>
      (hex2Bin data.input).bind fun v =>
        if v ≠ ~~~data.chksum then .ret srecBadChks
        else .ok ⟨kind.1, countLeft kind.2 count, addressOf address.bytes, data.bytes⟩

/-- `srec_decode` behind the `S`. -/
def decodeRecord : List UInt8 → Scan Srec
  | [] => .past
  | v :: input =>
    if v = 0 then .ret srecEmpty
    else
      (hex2Bin input).bind fun count =>
        match recordType v with
        | none => .ret srecBadType
        | some kind => decodeFields v kind count (input.drop 2)

def srecDecode (input : List UInt8) : Scan Srec := (skipToS input).bind decodeRecord

/-! ## Hex pairs -/

/-- Characters in pairs of hex digits, and their bytes. -/
inductive HexPairs : List UInt8 → List UInt8 → Prop
  | nil : HexPairs [] []
  | cons {c d : UInt8} {i j : Nat} {chars bytes : List UInt8} (first : hex1Bin c = some i)
    (second : hex1Bin d = some j) (rest : HexPairs chars bytes) :
    HexPairs (c :: d :: chars) (UInt8.ofNat (16 * i + j) :: bytes)

def addAll (chksum : UInt8) (bytes : List UInt8) : UInt8 := bytes.foldl (· + ·) chksum

theorem hex1Bin_zero : hex1Bin 0 = none := by decide

theorem hex1Bin_lt {c : UInt8} {i : Nat} (digit : hex1Bin c = some i) : i < 16 := by
  unfold hex1Bin at digit
  split at digit
  · cases digit
    omega
  · split at digit
    · cases digit
      omega
    · split at digit
      · cases digit
        omega
      · cases digit

theorem Scan.keeps_bind {α β : Type} {first : Scan α} {next : α → Scan β} {wanted : β → Prop} :
    (first.bind next).Keeps wanted ↔ first.Keeps fun a => (next a).Keeps wanted := by
  cases first <;> rfl

theorem Scan.Keeps.imp {α : Type} {scan : Scan α} {wanted less : α → Prop}
    (keeps : scan.Keeps wanted) (implies : ∀ a, wanted a → less a) : scan.Keeps less := by
  cases scan with
  | past => exact keeps
  | ret code => trivial
  | ok value => exact implies value keeps

theorem hex2Bin_keeps {input : List UInt8} (ended : 0 ∈ input) :
    (hex2Bin input).Keeps fun v => 0 ∈ input.drop 2 ∧
      ∃ c d i j, input = c :: d :: input.drop 2 ∧ hex1Bin c = some i ∧ hex1Bin d = some j ∧
        v = UInt8.ofNat (16 * i + j) := by
  cases input with
  | nil => exact absurd ended List.not_mem_nil
  | cons c s =>
    rw [hex2Bin]
    cases first : hex1Bin c with
    | none => trivial
    | some i =>
      have more : 0 ∈ s := by
        rcases List.mem_cons.mp ended with rfl | more
        · rw [hex1Bin_zero] at first
          cases first
        · exact more
      cases s with
      | nil => exact absurd more List.not_mem_nil
      | cons d rest =>
        dsimp only
        cases second : hex1Bin d with
        | none => trivial
        | some j =>
          have last : 0 ∈ rest := by
            rcases List.mem_cons.mp more with rfl | last
            · rw [hex1Bin_zero] at second
              cases second
            · exact last
          exact ⟨last, c, d, i, j, rfl, first, second, rfl⟩

theorem readBytes_keeps (n : Nat) {input : List UInt8} (chksum : UInt8) (ended : 0 ∈ input) :
    (readBytes n input chksum).Keeps fun fields => 0 ∈ fields.input ∧
      fields.bytes.length = n ∧ fields.chksum = addAll chksum fields.bytes ∧
        ∃ chars, input = chars ++ fields.input ∧ HexPairs chars fields.bytes := by
  induction n generalizing input chksum with
  | zero => exact ⟨ended, rfl, rfl, [], rfl, .nil⟩
  | succ n ih =>
    rw [readBytes, Scan.keeps_bind]
    refine (hex2Bin_keeps ended).imp ?_
    rintro v ⟨more, c, d, i, j, parts, first, second, rfl⟩
    rw [Scan.keeps_bind]
    refine (ih (chksum + _) more).imp ?_
    rintro fields ⟨last, length, sum, chars, rest, pairs⟩
    refine ⟨last, congrArg (· + 1) length, sum, c :: d :: chars, ?_, .cons first second pairs⟩
    rw [parts, rest]
    rfl

theorem HexPairs.append {chars bytes chars' bytes' : List UInt8} (first : HexPairs chars bytes)
    (second : HexPairs chars' bytes') : HexPairs (chars ++ chars') (bytes ++ bytes') := by
  induction first with
  | nil => exact second
  | cons left right _ ih => exact .cons left right ih

theorem readBytes_pairs {chars bytes : List UInt8} (pairs : HexPairs chars bytes)
    (chksum : UInt8) (rest : List UInt8) :
    readBytes bytes.length (chars ++ rest) chksum = .ok ⟨bytes, addAll chksum bytes, rest⟩ := by
  induction pairs generalizing chksum with
  | nil => rfl
  | cons first second _ ih =>
    rw [List.length_cons, readBytes, List.cons_append, List.cons_append, hex2Bin, first]
    dsimp only
    rw [second]
    dsimp only [Scan.bind]
    rw [List.drop_succ_cons, List.drop_succ_cons, List.drop_zero, ih]
    rfl

theorem HexPairs.split {chars first second : List UInt8}
    (pairs : HexPairs chars (first ++ second)) :
    ∃ left right, chars = left ++ right ∧ HexPairs left first ∧ HexPairs right second := by
  induction first generalizing chars with
  | nil => exact ⟨[], chars, rfl, .nil, pairs⟩
  | cons byte first ih =>
    cases pairs with
    | cons one two rest =>
      obtain ⟨left, right, rfl, leftPairs, rightPairs⟩ := ih rest
      exact ⟨_ :: _ :: left, right, rfl, .cons one two leftPairs, rightPairs⟩

theorem HexPairs.first {chars bytes : List UInt8} {byte : UInt8}
    (pairs : HexPairs chars (byte :: bytes)) :
    ∃ c d i j rest, chars = c :: d :: rest ∧ hex1Bin c = some i ∧ hex1Bin d = some j ∧
      byte = UInt8.ofNat (16 * i + j) := by
  cases pairs with
  | cons one two rest => exact ⟨_, _, _, _, _, rfl, one, two, rfl⟩

theorem HexPairs.one {chars : List UInt8} {v : UInt8} (pairs : HexPairs chars [v])
    (rest : List UInt8) :
    hex2Bin (chars ++ rest) = .ok v ∧ (chars ++ rest).drop 2 = rest := by
  cases pairs with
  | cons first second none =>
    cases none
    rw [List.cons_append, List.cons_append, hex2Bin, first]
    dsimp only
    rw [second]
    exact ⟨rfl, rfl⟩

/-! ## The checksum -/

def total (bytes : List UInt8) : Nat := (bytes.map UInt8.toNat).sum

theorem toNat_addAll (chksum : UInt8) (bytes : List UInt8) :
    (addAll chksum bytes).toNat = (chksum.toNat + total bytes) % 256 := by
  induction bytes generalizing chksum with
  | nil => exact (Nat.mod_eq_of_lt chksum.toNat_lt).symm
  | cons byte bytes ih =>
    have step : addAll chksum (byte :: bytes) = addAll (chksum + byte) bytes := rfl
    have sum : total (byte :: bytes) = byte.toNat + total bytes := by simp [total]
    rw [step, ih, sum, UInt8.toNat_add]
    omega

theorem toNat_pair {i j : Nat} (first : i < 16) (second : j < 16) :
    (UInt8.ofNat (16 * i + j)).toNat = 16 * i + j := by
  rw [UInt8.toNat_ofNat']
  omega

/-- Another digit in a pair changes the sum. -/
theorem HexPairs.set {chars bytes : List UInt8} (pairs : HexPairs chars bytes) {k : Nat}
    (inside : k < chars.length) {digit : UInt8} {value : Nat}
    (isDigit : hex1Bin digit = some value) (other : hex1Bin digit ≠ hex1Bin chars[k]) :
    ∃ changed, HexPairs (chars.set k digit) changed ∧ changed.length = bytes.length ∧
      (2 ≤ k → changed.head? = bytes.head?) ∧ total changed % 256 ≠ total bytes % 256 := by
  induction pairs generalizing k with
  | nil => exact absurd inside (Nat.not_lt_zero _)
  | @cons c d i j chars bytes first second rest ih =>
    have low := hex1Bin_lt first
    have high := hex1Bin_lt second
    have bound := hex1Bin_lt isDigit
    have sum (byte : UInt8) (bytes : List UInt8) :
        total (byte :: bytes) = byte.toNat + total bytes := by simp [total]
    match k with
    | 0 =>
      have apart : value ≠ i := by
        rintro rfl
        exact other (isDigit.trans first.symm)
      refine ⟨_, .cons isDigit second rest, rfl, fun two => absurd two (by decide), ?_⟩
      rw [sum, sum, toNat_pair bound high, toNat_pair low high]
      omega
    | 1 =>
      have apart : value ≠ j := by
        rintro rfl
        exact other (isDigit.trans second.symm)
      refine ⟨_, .cons first isDigit rest, rfl, fun two => absurd two (by decide), ?_⟩
      rw [sum, sum, toNat_pair low bound, toNat_pair low high]
      omega
    | k + 2 =>
      obtain ⟨changed, changedPairs, length, -, differs⟩ :=
        ih (by simpa using inside) (by simpa using other)
      refine ⟨_, .cons first second changedPairs, congrArg (· + 1) length, fun _ => rfl, ?_⟩
      rw [sum, sum]
      omega

/-! ## Records -/

/-- The bytes of a record, as its hex pairs have them. -/
structure Record where
  count : UInt8
  address : List UInt8
  data : List UInt8
  checksum : UInt8

namespace Record

def bytes (record : Record) : List UInt8 :=
  record.count :: (record.address ++ (record.data ++ [record.checksum]))

/-- The checksum is right: it is the complement of the sum of the others. -/
def Checks (record : Record) : Prop :=
  record.checksum = ~~~(addAll (addAll record.count record.address) record.data)

/-- The record has the size that its type and its count byte ask for. -/
def Shaped (record : Record) (t : UInt8) (less : Option Nat) : Prop :=
  record.address.length = addressBytes t ∧
    record.data.length = (countLeft less record.count).toNat

end Record

theorem Record.of_bytes (record : Record) {bytes : List UInt8}
    (length : bytes.length = record.bytes.length) (head : bytes.head? = record.bytes.head?) :
    ∃ other : Record, other.bytes = bytes ∧ other.count = record.count ∧
      other.address.length = record.address.length ∧ other.data.length = record.data.length := by
  obtain ⟨count, address, data, checksum⟩ := record
  cases bytes with
  | nil => cases head
  | cons first bytes =>
    obtain rfl : first = count := by simpa [Record.bytes] using head
    have size : bytes.length = address.length + (data.length + 1) := by
      simpa [Record.bytes] using length
    have behind : (bytes.drop address.length).length = data.length + 1 := by
      rw [List.length_drop]
      omega
    obtain ⟨data', last, parts⟩ := (List.eq_nil_or_concat' (bytes.drop address.length)).resolve_left
      (by rintro empty; rw [empty] at behind; cases behind)
    refine ⟨⟨first, bytes.take address.length, data', last⟩, ?_, rfl, ?_, ?_⟩
    · rw [Record.bytes]
      dsimp only
      rw [← parts, List.take_append_drop]
    · change (bytes.take address.length).length = address.length
      rw [List.length_take, size]
      omega
    · rw [parts] at behind
      simpa using behind

theorem Record.checks_iff (record : Record) : record.Checks ↔ total record.bytes % 256 = 255 := by
  obtain ⟨count, address, data, checksum⟩ := record
  have sum : total (Record.bytes ⟨count, address, data, checksum⟩) =
      count.toNat + total address + total data + checksum.toNat := by
    simp [Record.bytes, total]
    omega
  have first := toNat_addAll count address
  have second := toNat_addAll (addAll count address) data
  have small := checksum.toNat_lt
  rw [sum, Record.Checks, ← UInt8.toNat_inj, UInt8.toNat_not, second, first]
  dsimp only
  have size : UInt8.size = 256 := rfl
  omega

/-- The hex pairs of a record are decoded. -/
theorem decodeRecord_pairs {t : UInt8} {kind : Int × Option Nat} {record : Record}
    (isType : recordType t = some kind) (shaped : record.Shaped t kind.2) {chars : List UInt8}
    (pairs : HexPairs chars record.bytes) (rest : List UInt8) :
    (record.Checks → decodeRecord (t :: (chars ++ rest)) =
      .ok ⟨kind.1, countLeft kind.2 record.count, addressOf record.address, record.data⟩) ∧
    (¬record.Checks → decodeRecord (t :: (chars ++ rest)) = .ret srecBadChks) := by
  obtain ⟨count, address, data, checksum⟩ := record
  obtain ⟨isAddress, isData⟩ := shaped
  dsimp only at isAddress isData
  have nonzero : t ≠ 0 := by
    rintro rfl
    cases isType
  obtain ⟨countChars, chars, rfl, countPairs, pairs⟩ := @HexPairs.split _ [count] _ pairs
  obtain ⟨addressChars, chars, rfl, addressPairs, pairs⟩ := pairs.split
  obtain ⟨dataChars, checkChars, rfl, dataPairs, checkPairs⟩ := pairs.split
  have decoded : decodeRecord
      (t :: (countChars ++ (addressChars ++ (dataChars ++ checkChars)) ++ rest)) =
      if checksum ≠ ~~~(addAll (addAll count address) data) then .ret srecBadChks
      else .ok ⟨kind.1, countLeft kind.2 count, addressOf address, data⟩ := by
    rw [decodeRecord, if_neg nonzero]
    simp only [List.append_assoc]
    rw [(countPairs.one _).1]
    dsimp only [Scan.bind]
    rw [isType, (countPairs.one _).2]
    dsimp only
    rw [decodeFields, ← isAddress, readBytes_pairs addressPairs]
    dsimp only [Scan.bind]
    rw [← isData, readBytes_pairs dataPairs]
    dsimp only
    rw [(checkPairs.one rest).1]
  rw [decoded]
  exact ⟨fun checks => if_neg (not_not_intro checks), fun fails => if_pos fails⟩

/-- The characters behind a type digit are the hex pairs of a record with the right checksum, and
what it encodes. -/
structure Encoded (t : UInt8) (kind : Int × Option Nat) (record : Record) (chars : List UInt8)
    (srec : Srec) : Prop where
  isType : recordType t = some kind
  shaped : record.Shaped t kind.2
  checks : record.Checks
  pairs : HexPairs chars record.bytes
  encodes : srec = ⟨kind.1, countLeft kind.2 record.count, addressOf record.address, record.data⟩

/-- What is decoded are the hex pairs of a record. -/
theorem decodeRecord_keeps {input : List UInt8} (ended : 0 ∈ input) :
    (decodeRecord input).Keeps fun srec => ∃ t kind record chars rest,
      input = t :: (chars ++ rest) ∧ 0 ∈ rest ∧ Encoded t kind record chars srec := by
  cases input with
  | nil => exact absurd ended List.not_mem_nil
  | cons t input =>
    rw [decodeRecord]
    by_cases zero : t = 0
    · rw [if_pos zero]
      trivial
    · have more : 0 ∈ input := (List.mem_cons.mp ended).resolve_left fun same => zero same.symm
      rw [if_neg zero, Scan.keeps_bind]
      refine (hex2Bin_keeps more).imp ?_
      rintro count ⟨more, c, d, i, j, parts, first, second, isCount⟩
      cases isType : recordType t with
      | none => trivial
      | some kind =>
        dsimp only
        rw [decodeFields, Scan.keeps_bind]
        refine (readBytes_keeps _ count more).imp ?_
        rintro address ⟨more, isAddress, sum, chars, behind, addressPairs⟩
        rw [Scan.keeps_bind]
        refine (readBytes_keeps _ address.chksum more).imp ?_
        rintro data ⟨more, isData, sum', chars', behind', dataPairs⟩
        rw [Scan.keeps_bind]
        refine (hex2Bin_keeps more).imp ?_
        rintro checksum ⟨more, c', d', i', j', parts', first', second', isChecksum⟩
        split
        · trivial
        · rename_i checks
          refine ⟨t, kind, ⟨count, address.bytes, data.bytes, checksum⟩,
            [c, d] ++ (chars ++ (chars' ++ [c', d'])), data.input.drop 2, ?_, more,
            ⟨isType, ⟨isAddress, isData⟩, ?_, ?_, rfl⟩⟩
          · rw [parts, behind, behind', parts']
            simp
          · rw [Record.Checks, ← sum, ← sum']
            exact not_not.mp checks
          · rw [isCount, isChecksum]
            exact (HexPairs.cons first second .nil).append
              (addressPairs.append (dataPairs.append (.cons first' second' .nil)))

theorem skipToS_append {before : List UInt8} (none : 0x53 ∉ before) (text : 0 ∉ before)
    (rest : List UInt8) : skipToS (before ++ 0x53 :: rest) = .ok rest := by
  induction before with
  | nil => rfl
  | cons c before ih =>
    rw [List.mem_cons, not_or] at none text
    rw [List.cons_append, skipToS, if_neg (fun same => text.1 same.symm),
      if_neg (fun same => none.1 same.symm)]
    exact ih none.2 text.2

theorem skipToS_none {line : List UInt8} (none : 0x53 ∉ line) (text : 0 ∉ line)
    (rest : List UInt8) : skipToS (line ++ 0 :: rest) = .ok (0 :: rest) := by
  induction line with
  | nil => rfl
  | cons c line ih =>
    rw [List.mem_cons, not_or] at none text
    rw [List.cons_append, skipToS, if_neg (fun same => text.1 same.symm),
      if_neg (fun same => none.1 same.symm)]
    exact ih none.2 text.2

theorem srecDecode_keeps {line : List UInt8} (text : 0 ∉ line) :
    (srecDecode (line ++ [0])).Keeps fun srec => ∃ before t kind record chars rest,
      line = before ++ 0x53 :: t :: (chars ++ rest) ∧ 0x53 ∉ before ∧
        Encoded t kind record chars srec := by
  by_cases there : 0x53 ∈ line
  · obtain ⟨before, after, rfl, none⟩ := List.eq_append_cons_of_mem there
    rw [List.mem_append, not_or] at text
    rw [srecDecode, List.append_assoc, List.cons_append, skipToS_append none text.1]
    refine (decodeRecord_keeps (by simp)).imp ?_
    rintro srec ⟨t, kind, record, chars, rest, parts, ended, encoded⟩
    obtain ⟨rest, last, rfl⟩ :=
      (List.eq_nil_or_concat' rest).resolve_left (List.ne_nil_of_mem ended)
    have whole : after = t :: (chars ++ rest) := by
      have parts : after ++ [0] = t :: (chars ++ rest) ++ [last] := by simpa using parts
      exact (List.append_inj' parts rfl).1
    exact ⟨before, t, kind, record, chars, rest, by rw [whole], none, encoded⟩
  · rw [srecDecode, skipToS_none there text]
    trivial

/-! ## Lines -/

/-- The count byte is not too small: it covers at least the address and the checksum, and in a count
record nothing else. -/
def Covers (t : UInt8) (kind : Int × Option Nat) (count : UInt8) : Prop :=
  addressBytes t + 1 ≤ count.toNat ∧ (kind.2 = none → count.toNat = addressBytes t + 1)

/-- Behind the first `S`, the count byte of the line is not too small. -/
def CountCovers (line : List UInt8) : Prop :=
  ∀ before t c d rest i j kind, line = before ++ 0x53 :: t :: c :: d :: rest → 0x53 ∉ before →
    hex1Bin c = some i → hex1Bin d = some j → recordType t = some kind →
    Covers t kind (UInt8.ofNat (16 * i + j))

/-- What is expected of a line that is accepted: behind the first `S` it holds a supported type
digit and the hex pairs of a record with the right checksum, whose count byte covers exactly its
other bytes; their values are given, no more than `most` data bytes; and with another digit in the
address, the data or the checksum the line is rejected. -/
def Accepted (most : Int) (line : List UInt8) (srec : Srec) : Prop :=
  ∃ before t kind record chars rest, line = before ++ 0x53 :: t :: (chars ++ rest) ∧
    0x53 ∉ before ∧ Encoded t kind record chars srec ∧
    record.count.toNat = record.address.length + record.data.length + 1 ∧
    srec.count = srec.data.length ∧ 0 ≤ srec.count ∧ srec.count ≤ most ∧
    ∀ k digit value, 2 ≤ k → (inside : k < chars.length) → hex1Bin digit = some value →
      hex1Bin digit ≠ hex1Bin chars[k] →
      srecDecode (before ++ 0x53 :: t :: (chars.set k digit ++ rest) ++ [0]) = .ret srecBadChks

theorem recordType_less {t : UInt8} {kind : Int × Option Nat} (isType : recordType t = some kind) :
    kind.2 = none ∧ addressBytes t = 2 ∨ kind.2 = some (addressBytes t + 1) := by
  unfold recordType at isType
  split_ifs at isType <;> cases isType <;> subst_vars <;> decide

theorem two_le_addressBytes (t : UInt8) : 2 ≤ addressBytes t := by
  unfold addressBytes
  split_ifs <;> omega

theorem Encoded.covered {t : UInt8} {kind : Int × Option Nat} {record : Record}
    {chars : List UInt8} {srec : Srec} (encoded : Encoded t kind record chars srec)
    (covers : Covers t kind record.count) :
    record.count.toNat = record.address.length + record.data.length + 1 ∧
      srec.count = srec.data.length := by
  obtain ⟨isAddress, isData⟩ := encoded.shaped
  obtain ⟨large, count⟩ := covers
  rw [encoded.encodes, isAddress]
  rcases recordType_less encoded.isType with ⟨none, two⟩ | less
  · rw [none] at isData ⊢
    have exact := count none
    have zero : record.data.length = 0 := isData
    refine ⟨by omega, ?_⟩
    change (0 : Int) = record.data.length
    omega
  · rw [less] at isData ⊢
    have left : record.data.length =
        ((record.count.toNat : Int) - (addressBytes t + 1 : Nat)).toNat := isData
    refine ⟨by omega, ?_⟩
    change (record.count.toNat : Int) - (addressBytes t + 1 : Nat) = record.data.length
    omega

theorem decodeRecord_changed {t : UInt8} {kind : Int × Option Nat} {record : Record}
    {chars : List UInt8} {srec : Srec} (encoded : Encoded t kind record chars srec) {k : Nat}
    {digit : UInt8} {value : Nat} (behindCount : 2 ≤ k) (inside : k < chars.length)
    (isDigit : hex1Bin digit = some value) (other : hex1Bin digit ≠ hex1Bin chars[k])
    (rest : List UInt8) :
    decodeRecord (t :: (chars.set k digit ++ rest)) = .ret srecBadChks := by
  obtain ⟨changed, pairs, length, same, differs⟩ := encoded.pairs.set inside isDigit other
  obtain ⟨changedRecord, rfl, count, address, data⟩ :=
    record.of_bytes length (same behindCount)
  have shaped : changedRecord.Shaped t kind.2 := by
    rw [Record.Shaped, count, address, data]
    exact encoded.shaped
  have fails : ¬changedRecord.Checks := by
    rw [Record.checks_iff]
    intro all
    exact differs (all.trans (record.checks_iff.mp encoded.checks).symm)
  exact (decodeRecord_pairs encoded.isType shaped pairs rest).2 fails

/-- No character behind the zero byte is read; and where the count byte is not too small, a line
that is accepted is a record. -/
theorem srec_decode_accepts (line : List UInt8) (text : 0 ∉ line) :
    srecDecode (line ++ [0]) ≠ .past ∧
      (CountCovers line → ∀ srec, srecDecode (line ++ [0]) = .ok srec →
        Accepted 252 line srec) := by
  have keeps := srecDecode_keeps text
  refine ⟨fun past => by rw [past] at keeps; exact keeps, ?_⟩
  intro covers srec decoded
  rw [decoded] at keeps
  obtain ⟨before, t, kind, record, chars, rest, rfl, none, encoded⟩ := keeps
  have noZero : 0 ∉ before := fun member => text (List.mem_append_left _ member)
  obtain ⟨c, d, i, j, behind, parts, first, second, isCount⟩ := encoded.pairs.first
  have enough : Covers t kind record.count := by
    rw [isCount]
    exact covers before t c d (behind ++ rest) i j kind (by rw [parts]; rfl) none first second
      encoded.isType
  obtain ⟨whole, count⟩ := encoded.covered enough
  have small := record.count.toNat_lt
  have two := two_le_addressBytes t
  have isAddress := encoded.shaped.1
  have isData : srec.data = record.data := by rw [encoded.encodes]
  refine ⟨before, t, kind, record, chars, rest, rfl, none, encoded, whole, count, ?_, ?_, ?_⟩
  · rw [count]
    exact Int.natCast_nonneg _
  · rw [count, isData]
    omega
  · intro k digit value behindCount inside isDigit other
    rw [srecDecode, List.append_assoc, List.cons_append, skipToS_append none noZero,
      List.cons_append, List.append_assoc]
    exact decodeRecord_changed encoded behindCount inside isDigit other (rest ++ [0])

/-- The longest record with an address of two bytes: it has 252 data bytes. -/
def longestLine : List UInt8 :=
  [0x53, 0x31, 0x46, 0x46] ++ List.replicate 510 0x30

/-- The longest record has more than 250 data bytes. -/
theorem longestLine_data :
    ¬∀ line, 0 ∉ line → srecDecode (line ++ [0]) ≠ .past ∧
      ∀ srec, srecDecode (line ++ [0]) = .ok srec → Accepted 250 line srec := by
  intro all
  have decoded : srecDecode (longestLine ++ [0]) = .ok ⟨1, 252, 0, List.replicate 252 0⟩ := by
    decide +kernel
  obtain ⟨-, -, -, -, -, -, -, -, -, -, -, -, few, -⟩ :=
    (all longestLine (by decide +kernel)).2 _ decoded
  exact absurd few (by decide)

/-- The line `S1060010010203E3`. -/
def shortLine : List UInt8 :=
  [0x53, 0x31, 0x30, 0x36, 0x30, 0x30, 0x31, 0x30, 0x30, 0x31, 0x30, 0x32, 0x30, 0x33, 0x45, 0x33]

theorem shortLine_covers : CountCovers shortLine := by
  intro before t c d rest i j kind parts none first second isType
  cases before with
  | nil =>
    obtain ⟨rfl, rfl, rfl, rfl⟩ : t = 0x31 ∧ c = 0x30 ∧ d = 0x36 ∧ rest =
        [0x30, 0x30, 0x31, 0x30, 0x30, 0x31, 0x30, 0x32, 0x30, 0x33, 0x45, 0x33] := by
      simpa [shortLine, eq_comm] using parts
    cases first
    cases second
    cases isType
    unfold Covers
    decide
  | cons b before =>
    obtain rfl : b = 0x53 := by
      have heads := congrArg List.head? parts
      simpa [shortLine, eq_comm] using heads
    exact absurd List.mem_cons_self none

/-- The line is accepted, with its address and its three data bytes. -/
theorem shortLine_accepted :
    0 ∉ shortLine ∧ CountCovers shortLine ∧ Accepted 252 shortLine ⟨1, 3, 0x10, [1, 2, 3]⟩ :=
  ⟨by decide, shortLine_covers,
    (srec_decode_accepts shortLine (by decide)).2 shortLine_covers _ (by decide +kernel)⟩

end HrppBoot.Load
