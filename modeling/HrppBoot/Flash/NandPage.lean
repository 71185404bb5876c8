import HrppBoot.Flash.NandEcc

/-!
# Pages with a software code

`nand_write_page_swecc` and `nand_read_page_swecc`: each step of a page is 256 bytes with a code of
three bytes, which stand at the `eccpos` of the spare area. What was written is read back wherever
no step has more than one flipped bit, and is never mistaken where no step has more than two.
-/

namespace HrppBoot.Flash.NandEcc

/-! ## Writing and reading a page -/

def Parities.bytes (ecc : Parities) : List UInt8 := [ecc.byte0, ecc.byte1, ecc.byte2]

def Parities.ofBytes (bytes : List UInt8) : Parities :=
  ⟨bytes.getD 0 0, bytes.getD 1 0, bytes.getD 2 0⟩

/-- The loops that fill `ecc_calc`. -/
def eccCalc : Nat → List UInt8 → List UInt8
  | 0, _ => []
  | eccsteps + 1, p => (nandCalculateEcc p).bytes ++ eccCalc eccsteps (p.drop 256)

/-- `chip->oob_poi[eccpos[i]] = ecc_calc[i]` for every `i`. -/
def placeEcc : List Nat → List UInt8 → List UInt8 → List UInt8
  | pos :: eccpos, ecc :: eccCalc, oob => placeEcc eccpos eccCalc (oob.set pos ecc)
  | _, _, oob => oob

/-- The layout of the codes and the number of steps of a page, `chip->ecc`. -/
structure EccControl where
  steps : Nat
  /-- The first `ecc.total` numbers of `eccpos`. -/
  eccpos : List Nat

variable (ecc : EccControl)

/-- `nand_write_page_swecc`: the data and the spare area that are programmed. -/
def nandWritePageSwecc (buf oob : List UInt8) : List UInt8 × List UInt8 :=
  (buf, placeEcc ecc.eccpos (eccCalc ecc.steps buf) oob)

/-- `mtd->ecc_stats` and `max_bitflips`: counters of 32 bits, which wrap. -/
structure EccStats where
  failed : UInt32
  corrected : UInt32
  maxBitflips : UInt32

/-- What the result of `nand_correct_data` changes. -/
def EccStats.count (stats : EccStats) (stat : Int) : EccStats :=
  if stat < 0 then { stats with failed := stats.failed + 1 }
  else { stats with
    corrected := stats.corrected + UInt32.ofNat stat.toNat
    maxBitflips := max stats.maxBitflips (UInt32.ofNat stat.toNat) }

def correctSteps : Nat → List UInt8 → List UInt8 → List UInt8 → EccStats → List UInt8 × EccStats
  | 0, p, _, _, stats => (p, stats)
  | eccsteps + 1, p, eccCode, eccCalc, stats =>
    let (stat, dat) := nandCorrectData (p.take 256) (.ofBytes eccCode) (.ofBytes eccCalc)
    let (rest, stats) :=
      correctSteps eccsteps (p.drop 256) (eccCode.drop 3) (eccCalc.drop 3) (stats.count stat)
    (dat ++ rest, stats)

def eccCode (oob : List UInt8) : List UInt8 := ecc.eccpos.map (oob.getD · 0)

/-- `nand_read_page_swecc`, of what the chip gives for the data and the spare area. -/
def nandReadPageSwecc (buf oob : List UInt8) (failed corrected : UInt32) :
    List UInt8 × EccStats :=
  correctSteps ecc.steps buf (eccCode ecc oob) (eccCalc ecc.steps buf) ⟨failed, corrected, 0⟩

/-! ## Pages that are read with flipped bits -/

def Chunk.parts (chunk : Chunk) : List UInt8 × Parities := (chunk.data, chunk.code)

def stepsOf : Nat → List UInt8 → List UInt8 → List (List UInt8 × Parities)
  | 0, _, _ => []
  | steps + 1, buf, code =>
    (buf.take 256, .ofBytes code) :: stepsOf steps (buf.drop 256) (code.drop 3)

/-- A step is read as it was written, or with one flipped bit. -/
def OneFlipped (written read : List UInt8 × Parities) : Prop :=
  ∃ chunk : Chunk, written = chunk.parts ∧
    (read = chunk.parts ∨ ∃ cell, read = (chunk.flip cell).parts)

/-- A step is read with at most two flipped bits. -/
def TwoFlipped (written read : List UInt8 × Parities) : Prop :=
  OneFlipped written read ∨ ∃ (chunk : Chunk) (cell other : Cell), cell ≠ other ∧
    written = chunk.parts ∧ read = ((chunk.flip cell).flip other).parts

/-- A page is read with what was written changed in every step as stated. -/
def ReadAs (changed : List UInt8 × Parities → List UInt8 × Parities → Prop)
    (written read : List UInt8 × List UInt8) : Prop :=
  List.Forall₂ changed (stepsOf ecc.steps written.1 (eccCode ecc written.2))
    (stepsOf ecc.steps read.1 (eccCode ecc read.2))

/-- A layout for pages of as many steps: the places are different, and inside the spare area. -/
structure EccControl.Suits (ecc : EccControl) (buf oob : List UInt8) : Prop where
  total : ecc.eccpos.length = 3 * ecc.steps
  distinct : ecc.eccpos.Nodup
  inside : ∀ pos ∈ ecc.eccpos, pos < oob.length
  page : buf.length = 256 * ecc.steps

variable {ecc} {buf oob : List UInt8}

theorem placeEcc_other {eccpos : List Nat} {bytes : List UInt8} {pos : Nat}
    (other : pos ∉ eccpos) : (placeEcc eccpos bytes oob).getD pos 0 = oob.getD pos 0 := by
  induction eccpos generalizing bytes oob with
  | nil => simp [placeEcc]
  | cons first rest ih =>
    obtain ⟨apart, others⟩ := List.ne_and_not_mem_of_not_mem_cons other
    cases bytes with
    | nil => simp [placeEcc]
    | cons ecc bytes =>
      rw [placeEcc, ih others, List.getD_eq_getElem?_getD, List.getD_eq_getElem?_getD,
        List.getElem?_set_ne (Ne.symm apart)]

theorem map_placeEcc {eccpos : List Nat} {bytes : List UInt8} (distinct : eccpos.Nodup)
    (inside : ∀ pos ∈ eccpos, pos < oob.length) (sized : bytes.length = eccpos.length) :
    eccpos.map ((placeEcc eccpos bytes oob).getD · 0) = bytes := by
  induction eccpos generalizing bytes oob with
  | nil => exact (List.eq_nil_of_length_eq_zero sized).symm
  | cons pos rest ih =>
    cases bytes with
    | nil => cases sized
    | cons ecc bytes =>
      obtain ⟨apart, distinct⟩ := List.nodup_cons.mp distinct
      have within := inside pos List.mem_cons_self
      have later : rest.map ((placeEcc rest bytes (oob.set pos ecc)).getD · 0) = bytes :=
        ih distinct (fun p member => by simpa using inside p (List.mem_cons_of_mem _ member))
          (Nat.succ.inj sized)
      rw [placeEcc, List.map_cons, later, placeEcc_other apart, List.getD_eq_getElem?_getD,
        List.getElem?_set_self within]
      rfl

theorem length_eccCalc (steps : Nat) : (eccCalc steps buf).length = 3 * steps := by
  induction steps generalizing buf with
  | zero => rfl
  | succ steps ih =>
    rw [eccCalc, List.length_append, ih]
    simp only [Parities.bytes, List.length_cons, List.length_nil]
    omega

/-- The codes that are written are read. -/
theorem eccCode_written (suits : ecc.Suits buf oob) :
    eccCode ecc (nandWritePageSwecc ecc buf oob).2 = eccCalc ecc.steps buf :=
  map_placeEcc suits.distinct suits.inside ((length_eccCalc _).trans suits.total.symm)

theorem nandCalculateEcc_take : nandCalculateEcc (buf.take 256) = nandCalculateEcc buf := by
  rw [nandCalculateEcc, List.take_take, Nat.min_self]
  rfl

/-! ## What a step is read as -/

/-- A step is corrected with the code that is calculated from the data read. -/
def correctedStep (step : List UInt8 × Parities) : Int × List UInt8 :=
  nandCorrectData step.1 step.2 (nandCalculateEcc step.1)

theorem correctSteps_succ (steps : Nat) (code : List UInt8) (stats : EccStats) :
    correctSteps (steps + 1) buf code (eccCalc (steps + 1) buf) stats =
      let (stat, dat) := correctedStep (buf.take 256, .ofBytes code)
      let (rest, after) := correctSteps steps (buf.drop 256) (code.drop 3)
        (eccCalc steps (buf.drop 256)) (stats.count stat)
      (dat ++ rest, after) := by
  rw [correctSteps, correctedStep, nandCalculateEcc_take]
  rfl

theorem Chunk.flip_syndrome_ne (cell : Cell) : cell.syndrome ≠ 0 := by
  intro none
  have odd := weight_syndrome cell
  rw [none] at odd
  exact absurd odd (by decide)

variable {written read : List UInt8 × Parities}

theorem OneFlipped.corrected (flipped : OneFlipped written read)
    (own : written.2 = nandCalculateEcc written.1) :
    correctedStep read = (if read = written then 0 else 1, written.1) := by
  obtain ⟨chunk, rfl, same | ⟨cell, other⟩⟩ := flipped
  · rw [same, if_pos rfl]
    have none : chunk.syndrome = 0 := by
      rw [Chunk.syndrome, show chunk.code = nandCalculateEcc chunk.data from own]
      exact Parities.xor_self _
    change chunk.corrected = _
    rw [Chunk.corrected_eq, none]
    rfl
  · have isWritten : chunk = Chunk.written chunk.data chunk.sized := by
      cases chunk
      rw [Chunk.written]
      congr 1
    have differs : read ≠ chunk.parts := by
      intro same
      have equal := other.symm.trans same
      have data : (chunk.flip cell).data = chunk.data := congrArg Prod.fst equal
      have code : (chunk.flip cell).code = chunk.code := congrArg Prod.snd equal
      have change := chunk.syndrome_flip cell
      rw [Chunk.syndrome, data, code, ← Chunk.syndrome] at change
      have none := congrArg (chunk.syndrome ^^^ ·) change
      simp only [← Parities.xor_assoc, Parities.xor_self, Parities.zero_xor] at none
      exact Chunk.flip_syndrome_ne cell none.symm
    rw [if_neg differs, other]
    change (chunk.flip cell).corrected = (1, chunk.data)
    rw [isWritten]
    exact Chunk.corrected_one _ _ cell

theorem TwoFlipped.corrected (flipped : TwoFlipped written read)
    (own : written.2 = nandCalculateEcc written.1) :
    (correctedStep read).1 < 0 ∨ (correctedStep read).2 = written.1 := by
  obtain one | ⟨chunk, cell, other, apart, rfl, rfl⟩ := flipped
  · exact .inr (congrArg Prod.snd (one.corrected own))
  · have isWritten : chunk = Chunk.written chunk.data chunk.sized := by
      cases chunk
      rw [Chunk.written]
      congr 1
    change ((chunk.flip cell).flip other).corrected.1 < 0 ∨
      ((chunk.flip cell).flip other).corrected.2 = chunk.data
    rw [isWritten]
    obtain reported | right := Chunk.corrected_two chunk.data chunk.sized apart
    · exact .inl (by rw [reported]; exact (by decide : ebadmsg < 0))
    · exact .inr (by rw [right]; rfl)

/-! ## What a page is read as -/

/-- The steps that are not read as they were written. -/
def flippedSteps (written read : List (List UInt8 × Parities)) : Nat :=
  (written.zip read).countP fun step => step.2 ≠ step.1

theorem stepsOf_own {steps : Nat} {flipped : List (List UInt8 × Parities)}
    {changed : List UInt8 × Parities → List UInt8 × Parities → Prop}
    (readAs : List.Forall₂ changed (stepsOf (steps + 1) buf (eccCalc (steps + 1) buf)) flipped) :
    ∃ first rest, flipped = first :: rest ∧ changed (buf.take 256, nandCalculateEcc buf) first ∧
      List.Forall₂ changed (stepsOf steps (buf.drop 256) (eccCalc steps (buf.drop 256))) rest := by
  rw [stepsOf, List.forall₂_cons_left_iff] at readAs
  obtain ⟨first, rest, change, others, rfl⟩ := readAs
  exact ⟨first, rest, rfl, change, others⟩

theorem correctSteps_one {steps : Nat} {read code : List UInt8} (stats : EccStats)
    (readAs : List.Forall₂ OneFlipped (stepsOf steps buf (eccCalc steps buf))
      (stepsOf steps read code))
    (page : buf.length = 256 * steps) (sized : read.length = buf.length) :
    let after := correctSteps steps read code (eccCalc steps read) stats
    after.1 = buf ∧ after.2.failed = stats.failed ∧ after.2.corrected = stats.corrected +
      UInt32.ofNat (flippedSteps (stepsOf steps buf (eccCalc steps buf))
        (stepsOf steps read code)) := by
  induction steps generalizing buf read code stats with
  | zero =>
    have empty : buf = [] := List.eq_nil_of_length_eq_zero (page.trans (Nat.mul_zero _))
    have empty' : read = [] := List.eq_nil_of_length_eq_zero (sized.trans (by rw [empty]; rfl))
    exact ⟨empty'.trans empty.symm, rfl, (UInt32.add_zero _).symm⟩
  | succ steps ih =>
    obtain ⟨first, rest, split, change, others⟩ := stepsOf_own readAs
    rw [stepsOf, List.cons.injEq] at split
    obtain ⟨rfl, rfl⟩ := split
    have step := change.corrected nandCalculateEcc_take.symm
    rw [correctSteps_succ, step]
    generalize result : (if (read.take 256, Parities.ofBytes code) =
      (buf.take 256, nandCalculateEcc buf) then 0 else 1 : Int) = stat
    obtain ⟨data, failed, corrected⟩ := ih (stats.count stat) others
      (by rw [List.length_drop]; omega) (by simp [sized])
    subst result
    refine ⟨?_, ?_, ?_⟩
    · change buf.take 256 ++ _ = buf
      rw [data, List.take_append_drop]
    · refine failed.trans ?_
      split <;> rfl
    · refine corrected.trans ?_
      rw [stepsOf, stepsOf, flippedSteps, flippedSteps, List.zip_cons_cons, List.countP_cons]
      change _ = stats.corrected + UInt32.ofNat (_ + if decide ((read.take 256,
        Parities.ofBytes code) ≠ (buf.take 256, nandCalculateEcc buf)) then 1 else 0)
      rw [Nat.add_comm (List.countP _ _), UInt32.ofNat_add, ← UInt32.add_assoc]
      congr 1
      split
      · next same => rw [same]; simp [EccStats.count]
      · next other => simp [EccStats.count, other]

/-- As many steps are counted as failed as there are, at most; if there are none, the page is read
as it was written. -/
theorem correctSteps_two {steps : Nat} {read code : List UInt8} (stats : EccStats)
    (readAs : List.Forall₂ TwoFlipped (stepsOf steps buf (eccCalc steps buf))
      (stepsOf steps read code))
    (page : buf.length = 256 * steps) (sized : read.length = buf.length) :
    let after := correctSteps steps read code (eccCalc steps read) stats
    ∃ count ≤ steps, after.2.failed = stats.failed + UInt32.ofNat count ∧
      (count = 0 → after.1 = buf) := by
  induction steps generalizing buf read code stats with
  | zero =>
    have empty : buf = [] := List.eq_nil_of_length_eq_zero (page.trans (Nat.mul_zero _))
    have empty' : read = [] := List.eq_nil_of_length_eq_zero (sized.trans (by rw [empty]; rfl))
    exact ⟨0, le_rfl, (UInt32.add_zero _).symm, fun _ => empty'.trans empty.symm⟩
  | succ steps ih =>
    obtain ⟨first, rest, split, change, others⟩ := stepsOf_own readAs
    rw [stepsOf, List.cons.injEq] at split
    obtain ⟨rfl, rfl⟩ := split
    have step := change.corrected nandCalculateEcc_take.symm
    rw [correctSteps_succ]
    generalize correctedStep (read.take 256, Parities.ofBytes code) = result at step ⊢
    obtain ⟨count, few, failed, data⟩ := ih (stats.count result.1) others
      (by rw [List.length_drop]; omega) (by simp [sized])
    by_cases reported : result.1 < 0
    · refine ⟨1 + count, by omega, ?_, fun none => by omega⟩
      rw [UInt32.ofNat_add, ← UInt32.add_assoc]
      refine failed.trans ?_
      rw [EccStats.count, if_pos reported]
      rfl
    · have right := step.resolve_left reported
      refine ⟨count, by omega, failed.trans ?_, fun none => ?_⟩
      · rw [EccStats.count, if_neg reported]
      · change result.2 ++ _ = buf
        rw [data none, right, List.take_append_drop]

section Page

variable {read spare : List UInt8} (suits : ecc.Suits buf oob) (sized : read.length = buf.length)
  (failed corrected : UInt32)
include suits sized

/-- A page with at most one flipped bit in each step, also in its code, is read as it was written,
whatever else is in the spare area: no step is counted as failed, and exactly the ones with a
flipped bit as corrected, in 32 bits. -/
theorem nandReadPageSwecc_restores
    (readAs : ReadAs ecc OneFlipped (nandWritePageSwecc ecc buf oob) (read, spare)) :
    let after := nandReadPageSwecc ecc read spare failed corrected
    after.1 = buf ∧ after.2.failed = failed ∧ after.2.corrected = corrected +
      UInt32.ofNat (flippedSteps (stepsOf ecc.steps buf (eccCalc ecc.steps buf))
        (stepsOf ecc.steps read (eccCode ecc spare))) := by
  rw [ReadAs, eccCode_written suits] at readAs
  exact correctSteps_one ⟨failed, corrected, 0⟩ readAs suits.page sized

/-- A page with at most two flipped bits in each step is read as it was written, or steps are
counted as failed; the counter falls only where it wraps. -/
theorem nandReadPageSwecc_never_mistakes (few : ecc.steps < 2 ^ 32)
    (readAs : ReadAs ecc TwoFlipped (nandWritePageSwecc ecc buf oob) (read, spare)) :
    let after := nandReadPageSwecc ecc read spare failed corrected
    (failed.toNat + ecc.steps < 2 ^ 32 → failed ≤ after.2.failed) ∧
      (after.2.failed = failed → after.1 = buf) := by
  rw [ReadAs, eccCode_written suits] at readAs
  obtain ⟨count, le, counted, right⟩ :=
    correctSteps_two ⟨failed, corrected, 0⟩ readAs suits.page sized
  have sum := congrArg UInt32.toNat counted
  rw [UInt32.toNat_add, UInt32.toNat_ofNat', Nat.mod_eq_of_lt (show count < 2 ^ 32 by omega)] at sum
  constructor
  · intro room
    rw [Nat.mod_eq_of_lt (show failed.toNat + count < 2 ^ 32 by omega)] at sum
    exact UInt32.le_iff_toNat_le.mpr (Nat.le_trans (Nat.le_add_right _ count) sum.ge)
  · intro same
    refine right ?_
    have start : failed.toNat < 2 ^ 32 := failed.toNat_lt
    have none : failed.toNat = (failed.toNat + count) % 2 ^ 32 :=
      (congrArg UInt32.toNat same).symm.trans sum
    omega

end Page

/-- `nand_oob_16`, for pages of two steps. -/
def nandOob16 : EccControl := ⟨2, [0, 1, 2, 3, 6, 7]⟩

/-- Multiples, byte by byte. -/
def ramp (factor : Nat) : List UInt8 := (List.range 256).map fun i => UInt8.ofNat (factor * i)

theorem length_ramp (factor : Nat) : (ramp factor).length = 256 := by
  simp [ramp]

/-- A step of the sample page. -/
def sampleStep (factor : Nat) : Chunk := Chunk.written (ramp factor) (length_ramp factor)

def samplePage : List UInt8 := ramp 1 ++ ramp 3

/-- What the chip gives for two steps: their data, and a spare area that holds their codes. -/
def given (first second : Chunk) : List UInt8 × List UInt8 :=
  (first.data ++ second.data,
    placeEcc nandOob16.eccpos (first.code.bytes ++ second.code.bytes) (List.replicate 16 0x5a))

/-- The spare area before the page is written. -/
def blankSpare : List UInt8 := List.replicate 16 0xff

theorem nandOob16_suits : nandOob16.Suits samplePage blankSpare := by
  constructor
  · rfl
  · decide
  · simp [nandOob16, blankSpare]
  · simp [samplePage, length_ramp, nandOob16]

theorem length_given (first second : Chunk) :
    (given first second).1.length = samplePage.length := by
  simp [given, samplePage, first.sized, second.sized, length_ramp]

theorem stepsOf_two (first second : Chunk) :
    stepsOf 2 (first.data ++ second.data) (first.code.bytes ++ second.code.bytes) =
      [first.parts, second.parts] := by
  have all : second.data.take 256 = second.data := List.take_of_length_le second.sized.le
  simp only [stepsOf, List.take_left' first.sized, List.drop_left' first.sized, all]
  rfl

theorem readAs_given {changed : List UInt8 × Parities → List UInt8 × Parities → Prop}
    {first second : Chunk} (change : changed (sampleStep 1).parts first.parts)
    (change' : changed (sampleStep 3).parts second.parts) :
    ReadAs nandOob16 changed (nandWritePageSwecc nandOob16 samplePage blankSpare)
      (given first second) := by
  have codes : eccCalc 2 samplePage = (sampleStep 1).code.bytes ++ (sampleStep 3).code.bytes := by
    have head : nandCalculateEcc samplePage = nandCalculateEcc (ramp 1) := by
      rw [← nandCalculateEcc_take, samplePage, List.take_left' (length_ramp 1)]
    rw [eccCalc, eccCalc, eccCalc, head, samplePage, List.drop_left' (length_ramp 1),
      List.append_nil]
    rfl
  have read : eccCode nandOob16 (given first second).2 = first.code.bytes ++ second.code.bytes :=
    map_placeEcc (by decide) (by simp [nandOob16]) rfl
  rw [ReadAs, read, eccCode_written nandOob16_suits]
  change List.Forall₂ changed (stepsOf 2 samplePage (eccCalc 2 samplePage)) (stepsOf 2 _ _)
  rw [codes, samplePage]
  change List.Forall₂ changed (stepsOf 2 ((sampleStep 1).data ++ (sampleStep 3).data) _) _
  rw [stepsOf_two, given, stepsOf_two]
  exact .cons change (.cons change' .nil)

/-- A bit of the first step's data and one of the second step's code are flipped. -/
theorem nandReadPageSwecc_restores_sample :
    let read := given ((sampleStep 1).flip (.data 7 3)) ((sampleStep 3).flip (.code 1 5))
    let after := nandReadPageSwecc nandOob16 read.1 read.2 4 0xffffffff
    after.1 = samplePage ∧ after.2.failed = 4 ∧ after.2.corrected = 1 := by
  intro read
  have readAs : ReadAs nandOob16 OneFlipped (nandWritePageSwecc nandOob16 samplePage blankSpare)
      (read.1, read.2) := readAs_given ⟨sampleStep 1, rfl, .inr ⟨.data 7 3, rfl⟩⟩
    ⟨sampleStep 3, rfl, .inr ⟨.code 1 5, rfl⟩⟩
  have restored := nandReadPageSwecc_restores nandOob16_suits (length_given _ _) 4 0xffffffff readAs
  exact ⟨restored.1, restored.2.1, restored.2.2.trans (by decide +kernel)⟩

/-- Two bits of the first step's data and one of the second step's are flipped. -/
theorem nandReadPageSwecc_never_mistakes_sample :
    let read := given (((sampleStep 1).flip (.data 7 3)).flip (.data 200 3))
      ((sampleStep 3).flip (.data 0 0))
    let after := nandReadPageSwecc nandOob16 read.1 read.2 4 0
    4 ≤ after.2.failed ∧ (after.2.failed = 4 → after.1 = samplePage) := by
  intro read
  have readAs : ReadAs nandOob16 TwoFlipped (nandWritePageSwecc nandOob16 samplePage blankSpare)
      (read.1, read.2) := readAs_given
    (.inr ⟨sampleStep 1, .data 7 3, .data 200 3, by decide, rfl, rfl⟩)
    (.inl ⟨sampleStep 3, rfl, .inr ⟨.data 0 0, rfl⟩⟩)
  have result := nandReadPageSwecc_never_mistakes nandOob16_suits (length_given _ _) 4 0 (by decide)
    readAs
  exact ⟨result.1 (by decide), result.2⟩

end HrppBoot.Flash.NandEcc
