import HrppBoot.Tools.ImximageFile

/-!
# Images that boot

What the boot ROM expects of an image, and when `mkimage` makes such an image from a configuration
file of version 2: the `DATA` lines all state accesses of four bytes, no line stores into the table
when it is full, and the size of what is loaded fits into 32 bits.
-/

namespace HrppBoot.Tools

/-! ## Both passes over a file -/

namespace Statement

def offset (before : UInt32) : Statement → UInt32
  | bootFrom offset _ | bootOffset offset => offset
  | _ => before

def loadsize (before : UInt32) : Statement → UInt32
  | bootFrom offset loadsize => if loadsize < offset then offset else loadsize
  | _ => before

/-- The size of the command sequence file behind a statement. -/
def csfSize (before : UInt32) : Statement → UInt32
  | csf size => size
  | _ => before

end Statement

/-- No statement stores into the table when it has no free entry. -/
def Room : (used : Nat) → List Statement → Prop
  | _, [] => True
  | used, statement :: statements =>
    (statement.Stores → used < maxHwCfgSizeV2) ∧
      (statement.Valid → Room (used + statement.dataLine?.toList.length) statements)

namespace Imximage

/-- What statements without an error lead to. -/
structure Parsed (s : Imximage) (statements : List Statement) (t : Imximage) : Prop where
  two : s.InVersionTwo → t.InVersionTwo
  ivtOffset : t.ivtOffset = statements.foldl Statement.offset s.ivtOffset
  initLoadsize : t.initLoadsize = statements.foldl Statement.loadsize s.initLoadsize
  csfSize : t.csfSize = statements.foldl Statement.csfSize s.csfSize
  /-- The `DATA` lines are counted. -/
  dcdLen : t.dcdLen = s.dcdLen + (dataLines statements).length
  earlier : ∀ i < s.dcdLen, t.addrData i = s.addrData i
  /-- The `DATA` lines follow them. -/
  entries : ∀ i (inside : i < (dataLines statements).length),
    t.addrData (s.dcdLen + i) =
      ⟨((dataLines statements).get ⟨i, inside⟩).addr,
        ((dataLines statements).get ⟨i, inside⟩).value⟩

/-- The entries of the table that were written to when the program goes on, or exits. -/
def storesOf : Step → List Nat
  | .ok s | .error s => s.stores

theorem Parsed.refl (s : Imximage) : Parsed s [] s where
  two := id
  ivtOffset := rfl
  initLoadsize := rfl
  csfSize := rfl
  dcdLen := rfl
  earlier _ _ := rfl
  entries _ inside := absurd inside (Nat.not_lt_zero _)

variable {s t : Imximage} {statement : Statement} {statements : List Statement}

/-- A statement without an entry, before others. -/
theorem Parsed.cons_other {u : Imximage} (none : statement.dataLine? = none)
    (acts : s.act statement = .ok t) (rest : Parsed t statements u) :
    Parsed s (statement :: statements) u := by
  have lines : dataLines (statement :: statements) = dataLines statements :=
    List.filterMap_cons_none none
  obtain ⟨two, ivtOffset, initLoadsize, csfSize, dcdLen, earlier, entries⟩ := rest
  have kept : t.dcdLen = s.dcdLen ∧ (∀ i < s.dcdLen, t.addrData i = s.addrData i) ∧
      t.ivtOffset = statement.offset s.ivtOffset ∧
      t.initLoadsize = statement.loadsize s.initLoadsize ∧
      t.csfSize = statement.csfSize s.csfSize := by
    cases statement with
    | data line => cases none
    | invalid => cases acts
    | invalidValue addr => cases acts
    | dataAddr addr =>
      cases acts
      refine ⟨rfl, fun i before => ?_, rfl, rfl, rfl⟩
      exact Function.update_of_ne (Nat.ne_of_lt before) _ _
    | nothing | version | dataSize | bootFrom | bootOffset | csf =>
      cases acts
      exact ⟨rfl, fun _ _ => rfl, rfl, rfl, rfl⟩
  obtain ⟨sameLen, sameData, offset, loadsize, size⟩ := kept
  rw [sameLen] at dcdLen earlier entries
  refine ⟨fun start => two (start.act acts), ?_, ?_, ?_, ?_, ?_, ?_⟩
  · rw [ivtOffset, offset, List.foldl_cons]
  · rw [initLoadsize, loadsize, List.foldl_cons]
  · rw [csfSize, size, List.foldl_cons]
  · rw [lines, dcdLen]
  · exact fun i before => (earlier i before).trans (sameData i before)
  · rw [lines]
    exact entries

/-- A `DATA` line before other statements. -/
theorem Parsed.cons_data {u : Imximage} {line : DataLine} (acts : s.act (.data line) = .ok t)
    (rest : Parsed t statements u) :
    Parsed s (.data line :: statements) u := by
  have lines : dataLines (.data line :: statements) = line :: dataLines statements :=
    List.filterMap_cons_some rfl
  obtain ⟨two, ivtOffset, initLoadsize, csfSize, dcdLen, earlier, entries⟩ := rest
  have kept : t.dcdLen = s.dcdLen + 1 ∧
      t.addrData = Function.update s.addrData s.dcdLen ⟨line.addr, line.value⟩ ∧
      t.ivtOffset = s.ivtOffset ∧ t.initLoadsize = s.initLoadsize ∧ t.csfSize = s.csfSize := by
    simp only [act] at acts
    split at acts
    · cases acts
    · cases acts
      exact ⟨rfl, rfl, rfl, rfl, rfl⟩
  obtain ⟨nextLen, stored, offset, loadsize, size⟩ := kept
  rw [nextLen] at dcdLen earlier entries
  refine ⟨fun start => two (start.act acts), ?_, ?_, ?_, ?_, ?_, ?_⟩
  · rw [ivtOffset, offset]
    rfl
  · rw [initLoadsize, loadsize]
    rfl
  · rw [csfSize, size]
    rfl
  · rw [lines, dcdLen, List.length_cons]
    omega
  · intro i before
    rw [earlier i (by omega), stored, Function.update_of_ne (Nat.ne_of_lt before)]
  · rw [lines]
    intro i inside
    cases i with
    | zero =>
      rw [Nat.add_zero, earlier _ (Nat.lt_succ_self _), stored, Function.update_self]
      rfl
    | succ i =>
      have follows := entries i (Nat.lt_of_succ_lt_succ inside)
      rw [show s.dcdLen + (i + 1) = s.dcdLen + 1 + i by omega, follows]
      rfl

/-- Statements are read to the end if none is in error and the table has room for all `DATA` lines;
else the program exits. -/
theorem actAll_spec (few : s.dcdLen ≤ maxHwCfgSizeV2) :
    ((∀ statement ∈ statements, statement.Valid) ∧
        s.dcdLen + (dataLines statements).length ≤ maxHwCfgSizeV2 ∧
        ∃ t, actAll statements s = .ok t ∧ Parsed s statements t) ∨
      ¬((∀ statement ∈ statements, statement.Valid) ∧
        s.dcdLen + (dataLines statements).length ≤ maxHwCfgSizeV2) ∧
        ∃ t, actAll statements s = .error t := by
  induction statements generalizing s with
  | nil => exact .inl ⟨fun _ none => absurd none List.not_mem_nil, few, s, rfl, .refl s⟩
  | cons statement statements ih =>
    rw [actAll, List.forall_mem_cons]
    cases isData : statement.dataLine? with
    | none =>
      have lines : dataLines (statement :: statements) = dataLines statements :=
        List.filterMap_cons_none isData
      rw [lines]
      cases acts : s.act statement with
      | error t =>
        refine .inr ⟨fun valid => ?_, t, rfl⟩
        cases statement with
        | data line => cases isData
        | invalid => exact valid.1.1
        | invalidValue addr => exact valid.1.1
        | nothing | version | dataSize | dataAddr | bootFrom | bootOffset | csf => cases acts
      | ok t =>
        have valid : statement.Valid ∧ t.dcdLen = s.dcdLen := by
          cases statement with
          | data line => cases isData
          | invalid => cases acts
          | invalidValue addr => cases acts
          | nothing | version | dataSize | dataAddr | bootFrom | bootOffset | csf =>
            cases acts
            exact ⟨trivial, rfl⟩
        rcases @ih t (valid.2 ▸ few) with ⟨all, room, u, run, parsed⟩ | ⟨fails, u, run⟩
        · exact .inl ⟨⟨valid.1, all⟩, valid.2 ▸ room, u, run, parsed.cons_other isData acts⟩
        · refine .inr ⟨fun both => fails ⟨both.1.2, ?_⟩, u, run⟩
          rw [valid.2]
          exact both.2
    | some line =>
      obtain rfl : statement = .data line := by
        cases statement <;> cases isData
        rfl
      have lines : dataLines (.data line :: statements) = line :: dataLines statements :=
        List.filterMap_cons_some rfl
      rw [lines, List.length_cons]
      by_cases full : maxHwCfgSizeV2 < s.dcdLen + 1
      · refine .inr ⟨fun both => ?_, s.storeLine line, ?_⟩
        · have room := both.2
          omega
        · rw [act, if_pos full]
          rfl
      · have acts : s.act (.data line) = .ok (s.storeLine line) := if_neg full
        have next : (s.storeLine line).dcdLen = s.dcdLen + 1 := rfl
        rw [acts]
        rcases @ih (s.storeLine line) (by omega) with ⟨all, room, u, run, parsed⟩ |
          ⟨fails, u, run⟩
        · exact .inl ⟨⟨trivial, all⟩, by omega, u, run, parsed.cons_data acts⟩
        · refine .inr ⟨fun both => fails ⟨both.1.2, ?_⟩, u, run⟩
          have room := both.2
          omega

variable {used : Nat}

theorem room_stores (statement : Statement) (stores : statement.Stores) (valid : statement.Valid) :
    Room used (statement :: statements) ↔ used < maxHwCfgSizeV2 ∧
      Room (used + statement.dataLine?.toList.length) statements :=
  and_congr (imp_iff_right stores) (imp_iff_right valid)

theorem room_other (statement : Statement) (stores : ¬statement.Stores) (valid : statement.Valid) :
    Room used (statement :: statements) ↔
      Room (used + statement.dataLine?.toList.length) statements :=
  (and_iff_right stores.elim).trans (imp_iff_right valid)

theorem room_invalid (statement : Statement) (invalid : ¬statement.Valid) :
    Room used (statement :: statements) ↔ (statement.Stores → used < maxHwCfgSizeV2) :=
  and_iff_left invalid.elim

/-- No entry behind the table is written to exactly if there is room for what is stored. -/
theorem actAll_stores (few : s.dcdLen ≤ maxHwCfgSizeV2) :
    (∀ i ∈ storesOf (actAll statements s), i < maxHwCfgSizeV2) ↔
      (∀ i ∈ s.stores, i < maxHwCfgSizeV2) ∧ Room s.dcdLen statements := by
  induction statements generalizing s with
  | nil => exact (and_iff_left trivial).symm
  | cons statement statements ih =>
    have stored (t : Imximage) (added : t.stores = s.stores ++ [s.dcdLen]) :
        (∀ i ∈ t.stores, i < maxHwCfgSizeV2) ↔
          (∀ i ∈ s.stores, i < maxHwCfgSizeV2) ∧ s.dcdLen < maxHwCfgSizeV2 := by
      rw [added, List.forall_mem_append, List.forall_mem_singleton]
    rw [actAll]
    cases statement with
    | data line =>
      have twice : (∀ i ∈ (s.storeLine line).stores, i < maxHwCfgSizeV2) ↔
          (∀ i ∈ s.stores, i < maxHwCfgSizeV2) ∧ s.dcdLen < maxHwCfgSizeV2 := by
        simp only [storeLine, List.forall_mem_append, List.forall_mem_singleton, and_assoc,
          and_self]
      rw [act, room_stores (.data line) trivial trivial]
      by_cases full : maxHwCfgSizeV2 < s.dcdLen + 1
      · rw [if_pos full]
        refine twice.trans (and_congr_right fun _ => ?_)
        refine iff_of_false ?_ fun both => ?_
        · omega
        · have room := both.1
          omega
      · rw [if_neg full]
        refine (@ih (s.storeLine line) (by simp only [storeLine]; omega)).trans ?_
        rw [twice, and_assoc]
        rfl
    | dataAddr addr =>
      refine (@ih (s.storeAddr addr) few).trans ?_
      rw [stored (s.storeAddr addr) rfl, and_assoc, room_stores (.dataAddr addr) trivial trivial]
      rfl
    | invalidValue addr =>
      refine (stored (s.storeAddr addr) rfl).trans ?_
      rw [room_invalid (.invalidValue addr) id]
      exact and_congr_right fun _ => (imp_iff_right trivial).symm
    | invalid =>
      rw [room_invalid .invalid id]
      exact (and_iff_left False.elim).symm
    | nothing =>
      rw [room_other .nothing id trivial]
      exact ih few
    | version version =>
      rw [room_other (.version version) id trivial]
      exact ih few
    | dataSize =>
      rw [room_other .dataSize id trivial]
      exact ih few
    | bootFrom offset loadsize =>
      rw [room_other (.bootFrom offset loadsize) id trivial]
      exact @ih { s with
        ivtOffset := offset
        initLoadsize := if loadsize < offset then offset else loadsize } few
    | bootOffset offset =>
      rw [room_other (.bootOffset offset) id trivial]
      exact @ih { s with ivtOffset := offset } few
    | csf size =>
      rw [room_other (.csf size) id trivial]
      exact @ih { s with csfSize := size } few

end Imximage

/-- There is room exactly if, behind lines without an error, a line stores its address where fewer
`DATA` lines came before than the table has entries. -/
theorem room_iff {used : Nat} {statements : List Statement} :
    Room used statements ↔
      ∀ before statement after, statements = before ++ statement :: after →
        (∀ earlier ∈ before, earlier.Valid) → statement.Stores →
        used + (dataLines before).length < maxHwCfgSizeV2 := by
  induction statements generalizing used with
  | nil => simp [Room]
  | cons first rest ih =>
    have counted (before : List Statement) : (dataLines (first :: before)).length =
        first.dataLine?.toList.length + (dataLines before).length := by
      simp only [dataLines, List.filterMap_cons]
      cases first.dataLine? with
      | none => simp
      | some line => simp [Nat.add_comm]
    rw [Room]
    constructor
    · rintro ⟨here, later⟩ before statement after split valid stores
      cases before with
      | nil =>
        obtain ⟨rfl, -⟩ := List.cons.inj split
        exact here stores
      | cons earlier before =>
        obtain ⟨rfl, same⟩ := List.cons.inj split
        rw [List.forall_mem_cons] at valid
        have room := ih.mp (later valid.1) before statement after same valid.2 stores
        rw [counted]
        omega
    · intro room
      refine ⟨fun stores => ?_,
        fun valid => ih.mpr fun before statement after split all stores => ?_⟩
      · exact room [] first rest rfl (fun _ none => absurd none List.not_mem_nil) stores
      · have counts := room (first :: before) statement after (by rw [split]; rfl)
          (List.forall_mem_cons.mpr ⟨valid, all⟩) stores
        rw [counted] at counts
        omega

/-! ## The size of the header -/

def offsetOf (statements : List Statement) : UInt32 :=
  statements.foldl Statement.offset flashOffsetUndefined

/-- The size of the command sequence file that is stated last. -/
def csfSizeOf (statements : List Statement) : UInt32 := statements.foldl Statement.csfSize 0

/-- A load size with room for the header behind an offset. -/
def grown (offset loadsize : UInt32) : UInt32 :=
  if loadsize.toNat < offset.toNat + Imximage.sizeofHeader then
    UInt32.ofNat (offset.toNat + Imximage.sizeofHeader)
  else loadsize

/-- The load size: that of the device that is stated last, with room for the header. -/
def loadsizeOf (statements : List Statement) : UInt32 :=
  grown (offsetOf statements) (statements.foldl Statement.loadsize 0)

def headerSizeOf (statements : List Statement) : Nat :=
  (loadsizeOf statements - offsetOf statements).toNat

theorem grown_grown (offset loadsize : UInt32) :
    grown offset (grown offset loadsize) = grown offset loadsize := by
  unfold grown
  split
  · split
    · rfl
    · rfl
  · rfl

theorem grown_sub (offset loadsize : UInt32) :
    Imximage.sizeofHeader ≤ (grown offset loadsize - offset).toNat := by
  unfold grown Imximage.sizeofHeader
  have := offset.toNat_lt
  have := loadsize.toNat_lt
  split
  · rw [UInt32.toNat_sub, UInt32.toNat_ofNat']
    omega
  · rw [UInt32.toNat_sub]
    omega

theorem foldl_loadsize (statements : List Statement) :
    (∃ size, ∀ before, statements.foldl Statement.loadsize before = size) ∨
      ∀ before, statements.foldl Statement.loadsize before = before := by
  induction statements with
  | nil => exact .inr fun _ => rfl
  | cons statement statements ih =>
    simp only [List.foldl_cons]
    rcases ih with ⟨size, same⟩ | same
    · exact .inl ⟨size, fun _ => same _⟩
    · simp only [same]
      cases statement with
      | bootFrom offset loadsize => exact .inl ⟨_, fun _ => rfl⟩
      | nothing | version | dataSize | dataAddr | bootOffset | csf | data | invalid
      | invalidValue => exact .inr fun _ => rfl

theorem loadsize_twice (statements : List Statement) :
    grown (offsetOf statements) (statements.foldl Statement.loadsize (loadsizeOf statements)) =
      loadsizeOf statements := by
  unfold loadsizeOf
  rcases foldl_loadsize statements with ⟨size, same⟩ | same
  · rw [same, same]
  · rw [same, same, grown_grown]

/-! ## A pass -/

structure Accepted (statements : List Statement) : Prop where
  valid : ∀ statement ∈ statements, statement.Valid
  /-- The table has room for the `DATA` lines. -/
  few : (dataLines statements).length ≤ maxHwCfgSizeV2
  offset : offsetOf statements ≠ flashOffsetUndefined

/-- What a pass over a file of version 2 leads to. -/
structure Pass (statements : List Statement) (loadsize : UInt32) (t : Imximage) : Prop where
  two : t.InVersionTwo
  ivtOffset : t.ivtOffset = offsetOf statements
  initLoadsize : t.initLoadsize = statements.foldl Statement.loadsize loadsize
  csfSize : t.csfSize = csfSizeOf statements
  /-- The number of the `DATA` lines. -/
  dcdLen : t.dcdLen = (dataLines statements).length
  /-- The `DATA` lines in the table. -/
  entries : ∀ i (inside : i < (dataLines statements).length), t.addrData i =
    ⟨((dataLines statements).get ⟨i, inside⟩).addr, ((dataLines statements).get ⟨i, inside⟩).value⟩

section Passes

variable {lines : List (List Char)} {s : Imximage}

/-- A pass over a file of version 2. -/
theorem parseCfgFile_spec (two : VersionTwo (lines.map statementOfLine))
    (notLate : s.cmdVerFirst ≠ 0) :
    (Accepted (lines.map statementOfLine) ∧ ∃ t, s.parseCfgFile lines = .ok t ∧
        Pass (lines.map statementOfLine) s.initLoadsize t) ∨
      ¬Accepted (lines.map statementOfLine) ∧ ∃ t, s.parseCfgFile lines = .error t := by
  rw [Imximage.parseCfgFile]
  generalize begin : { s with
    version := (1 : UInt32), ivtOffset := flashOffsetUndefined, csfSize := (0 : UInt32)
    dcdLen := 0, addrData := fun _ => (⟨0, 0⟩ : DcdAddrData)
    typeAddrData := fun _ => (⟨0, 0, 0⟩ : DcdTypeAddrData) } = fresh
  have late : fresh.cmdVerFirst ≠ 0 := by rwa [← begin]
  have none : fresh.asVersionTwo.dcdLen = 0 := by rw [← begin]; rfl
  have offset : fresh.asVersionTwo.ivtOffset = flashOffsetUndefined := by rw [← begin]; rfl
  have loadsize : fresh.asVersionTwo.initLoadsize = s.initLoadsize := by rw [← begin]; rfl
  have size : fresh.asVersionTwo.csfSize = 0 := by rw [← begin]; rfl
  have same := Imximage.parseLines_versionTwo two late
  rcases @Imximage.actAll_spec fresh.asVersionTwo (lines.map statementOfLine)
      (by rw [none]; exact Nat.zero_le _) with ⟨valid, few, t, acts, parsed⟩ | ⟨fails, t, acts⟩
  · cases parses : Imximage.parseLines lines fresh with
    | error u =>
      rw [parses, acts] at same
      exact same.elim
    | ok u =>
      rw [parses, acts] at same
      obtain rfl : u = t := same
      have last : u.ivtOffset = offsetOf (lines.map statementOfLine) := by
        rw [parsed.ivtOffset, offset]
        rfl
      rw [none, Nat.zero_add] at few
      simp only [bind, Except.bind, last]
      by_cases undefined : offsetOf (lines.map statementOfLine) = flashOffsetUndefined
      · rw [if_pos undefined]
        exact .inr ⟨fun accepted => accepted.offset undefined, u, rfl⟩
      · rw [if_neg undefined]
        refine .inl ⟨⟨valid, few, undefined⟩, u, rfl,
          ⟨parsed.two fresh.asVersionTwo_inVersionTwo, last, ?_, ?_, ?_, ?_⟩⟩
        · rw [parsed.initLoadsize, loadsize]
        · rw [parsed.csfSize, size]
          rfl
        · rw [parsed.dcdLen, none, Nat.zero_add]
        · intro i inside
          have entry := parsed.entries i inside
          rwa [none, Nat.zero_add] at entry
  · cases parses : Imximage.parseLines lines fresh with
    | error u =>
      refine .inr ⟨fun accepted => fails ⟨accepted.valid, ?_⟩, u, rfl⟩
      rw [none, Nat.zero_add]
      exact accepted.few
    | ok u =>
      rw [parses, acts] at same
      exact same.elim

/-- What a pass writes to. -/
theorem parseCfgFile_stores (two : VersionTwo (lines.map statementOfLine))
    (notLate : s.cmdVerFirst ≠ 0) :
    (∀ i ∈ Imximage.storesOf (s.parseCfgFile lines), i < maxHwCfgSizeV2) ↔
      (∀ i ∈ s.stores, i < maxHwCfgSizeV2) ∧ Room 0 (lines.map statementOfLine) := by
  rw [Imximage.parseCfgFile]
  generalize begin : { s with
    version := (1 : UInt32), ivtOffset := flashOffsetUndefined, csfSize := (0 : UInt32)
    dcdLen := 0, addrData := fun _ => (⟨0, 0⟩ : DcdAddrData)
    typeAddrData := fun _ => (⟨0, 0, 0⟩ : DcdTypeAddrData) } = fresh
  have late : fresh.cmdVerFirst ≠ 0 := by rwa [← begin]
  have none : fresh.asVersionTwo.dcdLen = 0 := by rw [← begin]; rfl
  have before : fresh.asVersionTwo.stores = s.stores := by rw [← begin]; rfl
  have same := Imximage.parseLines_versionTwo two late
  have stores := @Imximage.actAll_stores fresh.asVersionTwo (lines.map statementOfLine)
    (by rw [none]; exact Nat.zero_le _)
  rw [before, none] at stores
  rw [← stores]
  cases parses : Imximage.parseLines lines fresh with
  | error u =>
    cases acts : Imximage.actAll (lines.map statementOfLine) fresh.asVersionTwo with
    | error t =>
      rw [parses, acts] at same
      simp only [bind, Except.bind, Imximage.storesOf]
      rw [show u.stores = t.stores from same]
    | ok t =>
      rw [parses, acts] at same
      exact same.elim
  | ok u =>
    cases acts : Imximage.actAll (lines.map statementOfLine) fresh.asVersionTwo with
    | error t =>
      rw [parses, acts] at same
      exact same.elim
    | ok t =>
      rw [parses, acts] at same
      obtain rfl : u = t := same
      simp only [bind, Except.bind]
      split <;> rfl

end Passes

/-! ## Both passes -/

section Image

variable {lines : List (List Char)} {ep : UInt32} {payload : Nat}

theorem Pass.growLoadsize {statements : List Statement} {loadsize : UInt32} {t : Imximage}
    (pass : Pass statements loadsize t) : t.growLoadsize.initLoadsize =
      grown (offsetOf statements) (statements.foldl Statement.loadsize loadsize) := by
  rw [Imximage.growLoadsize, grown, pass.ivtOffset, pass.initLoadsize]
  split
  · rfl
  · exact pass.initLoadsize

theorem growLoadsize_eq (t : Imximage) :
    t.growLoadsize = { t with initLoadsize := t.growLoadsize.initLoadsize } := by
  rw [Imximage.growLoadsize]
  split <;> rfl

/-- The image of a file of version 2. -/
theorem mkimage_spec (two : VersionTwo (lines.map statementOfLine)) :
    (Accepted (lines.map statementOfLine) ∧ ∃ written t, copyFile payload = some written ∧
        Pass (lines.map statementOfLine) (loadsizeOf (lines.map statementOfLine)) t ∧
        mkimage lines ep payload = .ok (t.growLoadsize,
          ⟨t.growLoadsize.setHeader ep (headerSizeOf (lines.map statementOfLine) + written),
            headerSizeOf (lines.map statementOfLine),
            headerSizeOf (lines.map statementOfLine) + written⟩)) ∨
      ¬(Accepted (lines.map statementOfLine) ∧ copyFile payload ≠ none) ∧
        ∃ t, mkimage lines ep payload = .error t := by
  rw [mkimage]
  rcases @parseCfgFile_spec lines Imximage.start two (by decide) with
    ⟨accepted, t, parses, pass⟩ | ⟨fails, t, parses⟩
  · have loadsize : t.growLoadsize.initLoadsize = loadsizeOf (lines.map statementOfLine) :=
      pass.growLoadsize
    have same := growLoadsize_eq t
    have version : t.growLoadsize.cmdVerFirst ≠ 0 := by
      rw [same]
      exact pass.two.first.trans_ne (by decide)
    have offset : t.growLoadsize.ivtOffset = offsetOf (lines.map statementOfLine) := by
      rw [same]
      exact pass.ivtOffset
    have header : (t.growLoadsize.initLoadsize - t.growLoadsize.ivtOffset).toNat =
        headerSizeOf (lines.map statementOfLine) := by
      rw [loadsize, offset]
      rfl
    have room : ¬headerSizeOf (lines.map statementOfLine) < Imximage.sizeofHeader :=
      Nat.not_lt.mpr (grown_sub _ _)
    rw [parses]
    simp only [bind, Except.bind]
    rw [if_neg (not_not.mpr pass.two.version), header, if_neg room]
    cases copied : copyFile payload with
    | none => exact .inr ⟨fun both => both.2 rfl, _, rfl⟩
    | some written =>
      rcases @parseCfgFile_spec lines t.growLoadsize two version with
        ⟨-, u, again, second⟩ | ⟨fails, -⟩
      · rw [loadsize] at second
        simp only [again]
        exact .inl ⟨accepted, written, u, rfl, second, rfl⟩
      · exact absurd accepted fails
  · rw [parses]
    exact .inr ⟨fun both => fails both.1, t, rfl⟩

/-- The entries of the table that were written to. -/
def imageStores (result : Except Imximage (Imximage × ImxImage)) : List Nat :=
  match result with
  | .ok (s, _) | .error s => s.stores

/-- No entry behind the table is written to exactly if there is room for what a pass stores. -/
theorem mkimage_stores (two : VersionTwo (lines.map statementOfLine)) :
    (∀ i ∈ imageStores (mkimage lines ep payload), i < maxHwCfgSizeV2) ↔
      Room 0 (lines.map statementOfLine) := by
  have first := @parseCfgFile_stores lines Imximage.start two (by decide)
  have fresh : ∀ i ∈ Imximage.start.stores, i < maxHwCfgSizeV2 :=
    fun i none => absurd none List.not_mem_nil
  rw [and_iff_right fresh] at first
  rw [mkimage]
  rcases @parseCfgFile_spec lines Imximage.start two (by decide) with
    ⟨accepted, t, parses, pass⟩ | ⟨fails, t, parses⟩
  · rw [parses] at first ⊢
    simp only [bind, Except.bind]
    have same := growLoadsize_eq t
    have version : t.growLoadsize.cmdVerFirst ≠ 0 := by
      rw [same]
      exact pass.two.first.trans_ne (by decide)
    have stores : t.growLoadsize.stores = t.stores := by rw [same]
    split
    · exact first
    split
    · simp only [imageStores, stores]
      exact first
    cases copyFile payload with
    | none =>
      simp only [imageStores, stores]
      exact first
    | some written =>
      have second := @parseCfgFile_stores lines t.growLoadsize two version
      simp only [Imximage.storesOf] at first
      rw [stores, first, and_self] at second
      rw [← second]
      cases again : t.growLoadsize.parseCfgFile lines with
      | error u => rfl
      | ok u =>
        simp only [imageStores, Imximage.storesOf]
        rw [growLoadsize_eq u]
  · rw [parses] at first ⊢
    exact first

end Image

/-! ## What the boot ROM expects -/

/-- The `DATA` lines that the ROM finds in the table: as many entries as the length of the command
says, all with the size in its parameter. -/
def decodeDcd (header : ImxHeaderV2) : List DataLine :=
  (List.range ((header.commandLength - 4) / 8)).map fun i =>
    ⟨UInt32.ofNat (header.commandParam % 8), (header.addrData i).addr, (header.addrData i).value⟩

/-- An image is what the ROM expects when the whole file is loaded at `start` with the offset. -/
structure Boots (statements : List Statement) (ep : UInt32) (payload : Nat) (image : ImxImage) :
    Prop where
  entry : image.header.entry = ep
  self : image.header.start + offsetOf statements = image.header.self
  dcdPtr : image.header.start + offsetOf statements + offsetofDcdTable = image.header.dcdPtr
  bootDataPtr :
    image.header.start + offsetOf statements + offsetofBootData = image.header.bootDataPtr
  lands : image.header.start + offsetOf statements + UInt32.ofNat image.headerSize = ep
  size : (offsetOf statements).toNat + image.headerSize + payload ≤ image.header.size.toNat
  csf : csfSizeOf statements ≠ 0 →
    (offsetOf statements).toNat + image.headerSize + payload ≤
        (image.header.csf - image.header.start).toNat ∧
      (image.header.csf - image.header.start).toNat + (csfSizeOf statements).toNat ≤
        image.header.size.toNat
  dcdLength : image.header.dcdLength = 4 + image.header.commandLength
  /-- The table holds the `DATA` lines. -/
  dcd : decodeDcd image.header = dataLines statements

/-- What a file needs for its image to boot, and for the table not to overflow. -/
structure Suitable (statements : List Statement) (payload : Nat) : Prop where
  /-- Behind lines without an error, a line stores an address only where there is an entry left. -/
  room : ∀ before statement after, statements = before ++ statement :: after →
    (∀ earlier ∈ before, earlier.Valid) → statement.Stores →
    (dataLines before).length < maxHwCfgSizeV2
  sizes : Accepted statements → copyFile payload ≠ none →
    ∀ line ∈ dataLines statements, line.size = 4
  space : Accepted statements → copyFile payload ≠ none →
    round4096 (headerSizeOf statements + round4096 payload + (offsetOf statements).toNat) +
      (csfSizeOf statements).toNat < 2 ^ 32

section Boot

variable {lines : List (List Char)} {ep : UInt32} {payload : Nat}

theorem copyFile_spec {written : Nat} (copied : copyFile payload = some written) :
    payload < 2 ^ 31 ∧ written = round4096 payload ∨ 2 ^ 32 - 1 ≤ payload := by
  rw [copyFile] at copied
  split at copied
  · cases copied
  rename_i counts
  obtain ⟨positive, enough⟩ := not_or.mp counts
  by_cases small : payload < 2 ^ 31
  · refine .inl ⟨small, ?_⟩
    have size : Int.bmod payload (2 ^ 32) = payload := by
      rw [Int.bmod_def]
      split <;> omega
    rw [size] at copied
    have tail : (payload : Int).tmod 4 = payload % 4 := rfl
    rw [tail] at copied
    obtain rfl := Option.some.inj copied
    rw [Int.toNat_natCast]
    unfold round4096
    split
    · omega
    · split <;> omega
  · refine .inr ?_
    rw [Int.bmod_def] at enough
    split at enough <;> omega

/-- The header of the image of a file, with what is written behind it. -/
theorem setHeader_boots {statements : List Statement} {t : Imximage} {written : Nat}
    (pass : Pass statements (loadsizeOf statements) t) (copied : copyFile payload = some written) :
    Boots statements ep payload ⟨t.growLoadsize.setHeader ep (headerSizeOf statements + written),
        headerSizeOf statements, headerSizeOf statements + written⟩ ↔
      (∀ line ∈ dataLines statements, line.size = 4) ∧
        round4096 (headerSizeOf statements + round4096 payload + (offsetOf statements).toNat) +
          (csfSizeOf statements).toNat < 2 ^ 32 := by
  have loadsize : t.growLoadsize.initLoadsize = loadsizeOf statements :=
    pass.growLoadsize.trans (loadsize_twice statements)
  have same := growLoadsize_eq t
  have offset : t.growLoadsize.ivtOffset = offsetOf statements := by
    rw [same]
    exact pass.ivtOffset
  have csf : t.growLoadsize.csfSize = csfSizeOf statements := by
    rw [same]
    exact pass.csfSize
  have count : t.growLoadsize.dcdLen = (dataLines statements).length := by
    rw [same]
    exact pass.dcdLen
  have table : t.growLoadsize.addrData = t.addrData := by rw [same]
  have header : Imximage.sizeofHeader ≤ headerSizeOf statements := grown_sub _ _
  -- how far behind the start the loaded image ends
  obtain ⟨ends, isEnd⟩ : ∃ ends,
      ends = round4096 (headerSizeOf statements + written + (offsetOf statements).toNat) := ⟨_, rfl⟩
  have base : (UInt32.ofNat ends).toNat = ends % 2 ^ 32 := UInt32.toNat_ofNat'
  have behind : ep - loadsizeOf statements + UInt32.ofNat ends - (ep - loadsizeOf statements) =
      UInt32.ofNat ends := add_sub_cancel_left _ _
  have rounded (n : Nat) : n ≤ round4096 n ∧ round4096 n < n + 4096 := by
    unfold round4096
    omega
  have payloadRounded := rounded payload
  constructor
  · rintro ⟨-, -, -, -, -, size, located, -, dcd⟩
    constructor
    · intro line inside
      rw [← dcd] at inside
      obtain ⟨i, -, rfl⟩ := List.mem_map.mp inside
      rfl
    · simp only [Imximage.setHeader, loadsize, offset, csf, ← isEnd] at size located
      have loaded := UInt32.toNat_lt
        (if csfSizeOf statements ≠ 0 then UInt32.ofNat ends + csfSizeOf statements
          else UInt32.ofNat ends)
      rcases copyFile_spec copied with ⟨-, rfl⟩ | large
      · have := rounded (headerSizeOf statements + round4096 payload + (offsetOf statements).toNat)
        rw [← isEnd] at this ⊢
        by_cases none : csfSizeOf statements = 0
        · rw [if_neg (not_not.mpr none), base] at size
          rw [none, UInt32.toNat_zero]
          omega
        · have located := located none
          rw [if_pos none] at located
          rw [behind, base] at located
          rw [if_pos none] at located loaded
          omega
      · unfold Imximage.sizeofHeader at header
        omega
  · rintro ⟨sizes, space⟩
    obtain rfl : written = round4096 payload := by
      rcases copyFile_spec copied with ⟨-, same⟩ | large
      · exact same
      · have := rounded (headerSizeOf statements + round4096 payload + (offsetOf statements).toNat)
        unfold Imximage.sizeofHeader at header
        omega
    have := rounded (headerSizeOf statements + round4096 payload + (offsetOf statements).toNat)
    rw [← isEnd] at this space
    have whole : (UInt32.ofNat ends).toNat = ends := by
      rw [base]
      omega
    have length : (dataLines statements).length * 8 + 4 - 4 = (dataLines statements).length * 8 :=
      Nat.add_sub_cancel _ _
    refine ⟨rfl, ?_, ?_, ?_, ?_, ?_, ?_, ?_, ?_⟩
    · simp only [Imximage.setHeader, offset]
    · simp only [Imximage.setHeader, offset]
    · simp only [Imximage.setHeader, offset]
    · simp only [Imximage.setHeader, loadsize, headerSizeOf, UInt32.ofNat_toNat]
      rw [add_assoc, add_sub_cancel, sub_add_cancel]
    · simp only [Imximage.setHeader, offset, csf, ← isEnd]
      split
      · rw [UInt32.toNat_add, whole]
        omega
      · rw [whole]
        omega
    · intro some
      simp only [Imximage.setHeader, loadsize, offset, csf, ← isEnd]
      rw [if_pos some, if_pos some, behind, UInt32.toNat_add, whole]
      omega
    · simp only [Imximage.setHeader]
      omega
    · rw [decodeDcd]
      simp only [Imximage.setHeader, count, length, table]
      rw [Nat.mul_div_cancel _ (by decide)]
      apply List.ext_getElem
      · rw [List.length_map, List.length_range]
      · intro i first inside
        rw [List.getElem_map, List.getElem_range, pass.entries i inside]
        have size := sizes _ (List.getElem_mem inside)
        rw [List.get_eq_getElem]
        generalize (dataLines statements)[i] = line at *
        obtain ⟨lineSize, addr, value⟩ := line
        simp only at size
        subst size
        rfl

/-- The images of a file of version 2 are what the ROM expects, and no line stores an entry outside
the table, exactly if the file has what is needed for that. -/
theorem mkimage_boots_iff (lines : List (List Char)) (ep : UInt32) (payload : Nat)
    (two : VersionTwo (lines.map statementOfLine)) :
    ((∀ s image, mkimage lines ep payload = .ok (s, image) →
          Boots (lines.map statementOfLine) ep payload image) ∧
        ∀ i ∈ imageStores (mkimage lines ep payload), i < maxHwCfgSizeV2) ↔
      Suitable (lines.map statementOfLine) payload := by
  rw [mkimage_stores two, room_iff]
  simp only [Nat.zero_add]
  rcases @mkimage_spec lines ep payload two with
    ⟨accepted, written, t, copied, pass, made⟩ | ⟨fails, t, made⟩
  · have boots := @setHeader_boots ep payload _ t written pass copied
    rw [made]
    constructor
    · rintro ⟨every, room⟩
      obtain ⟨sizes, space⟩ := boots.mp (every _ _ rfl)
      exact ⟨room, fun _ _ => sizes, fun _ _ => space⟩
    · rintro ⟨room, sizes, space⟩
      have fine : copyFile payload ≠ none := by
        rw [copied]
        exact Option.some_ne_none written
      refine ⟨fun s image same => ?_, room⟩
      simp only [Except.ok.injEq, Prod.mk.injEq] at same
      rw [← same.2]
      exact boots.mpr ⟨sizes accepted fine, space accepted fine⟩
  · rw [made]
    constructor
    · rintro ⟨-, room⟩
      exact ⟨room, fun accepted fine => absurd ⟨accepted, fine⟩ fails,
        fun accepted fine => absurd ⟨accepted, fine⟩ fails⟩
    · rintro ⟨room, -, -⟩
      exact ⟨fun s image same => (nomatch same), room⟩

/-- A configuration file for booting from a card. -/
def cardFile : List (List Char) :=
  ["IMAGE_VERSION 2".toList, "BOOT_FROM sd".toList, "DATA 4 0x20e05a8 0x3030 # pad".toList,
    "CSF 0x2000".toList]

theorem statements_cardFile : cardFile.map statementOfLine =
    [.version 2, .bootFrom 0x400 0x1000, .data ⟨4, 0x20e05a8, 0x3030⟩, .csf 0x2000] := by
  decide +kernel

theorem versionTwo_cardFile : VersionTwo (cardFile.map statementOfLine) := by
  rw [statements_cardFile]
  exact ⟨by decide, by simp⟩

/-- Its image boots. -/
theorem mkimage_boots_card : VersionTwo (cardFile.map statementOfLine) ∧
    (∀ s image, mkimage cardFile 0x17800000 300000 = .ok (s, image) →
      Boots (cardFile.map statementOfLine) 0x17800000 300000 image) ∧
    ∀ i ∈ imageStores (mkimage cardFile 0x17800000 300000), i < maxHwCfgSizeV2 := by
  refine ⟨versionTwo_cardFile, ?_⟩
  rw [mkimage_boots_iff cardFile 0x17800000 300000 versionTwo_cardFile, statements_cardFile]
  have room : Room 0 [.version 2, .bootFrom 0x400 0x1000, .data ⟨4, 0x20e05a8, 0x3030⟩,
      .csf 0x2000] := by
    simp [Room, Statement.Stores, Statement.dataLine?, maxHwCfgSizeV2]
  refine ⟨fun before statement after split valid stores => ?_, fun _ _ => ?_, fun _ _ => ?_⟩
  · have few := room_iff.mp room before statement after split valid stores
    rwa [Nat.zero_add] at few
  · decide
  · decide +kernel

/-- A file that states an access of one byte. -/
def byteFile : List (List Char) :=
  ["IMAGE_VERSION 2".toList, "BOOT_FROM sd".toList, "DATA 1 0x20e05a8 0x30".toList]

theorem statements_byteFile : byteFile.map statementOfLine =
    [.version 2, .bootFrom 0x400 0x1000, .data ⟨1, 0x20e05a8, 0x30⟩] := by
  decide +kernel

/-- Its table states an access of four bytes. -/
theorem mkimage_widens_byte :
    ¬∀ (lines : List (List Char)) (ep : UInt32) (payload : Nat),
      VersionTwo (lines.map statementOfLine) →
      (∀ s image, mkimage lines ep payload = .ok (s, image) →
          Boots (lines.map statementOfLine) ep payload image) ∧
        ∀ i ∈ imageStores (mkimage lines ep payload), i < maxHwCfgSizeV2 := by
  intro every
  have two : VersionTwo (byteFile.map statementOfLine) := by
    rw [statements_byteFile]
    exact ⟨by decide, by simp⟩
  obtain ⟨boots, -⟩ := every byteFile 0x17800000 300000 two
  have accepted : Accepted (byteFile.map statementOfLine) := by
    rw [statements_byteFile]
    exact ⟨by decide, by decide, by decide⟩
  have copied : copyFile 300000 ≠ none := by decide
  rcases @mkimage_spec byteFile 0x17800000 300000 two with
    ⟨-, written, t, wrote, pass, made⟩ | ⟨fails, -⟩
  · have sizes := ((setHeader_boots pass wrote).mp (boots _ _ made)).1
    rw [statements_byteFile] at sizes
    revert sizes
    decide
  · exact fails ⟨accepted, copied⟩

end Boot

end HrppBoot.Tools
