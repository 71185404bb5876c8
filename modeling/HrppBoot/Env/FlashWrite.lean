import HrppBoot.Env.Flash
import Mathlib.Tactic.Ring

/-!
# What a write leaves on the device

On NAND the good blocks of the range hold the environment one after the other, and reading and
writing take the same ones, so that a write changes the bytes given and no others. On other flash
the whole range is erased and written at once from a buffer that is filled only as far as the
environment reaches into its last sector: if more sectors are configured than that, the rest is
lost.
-/

namespace HrppBoot.Env

open ByteMemory

/-! ## Blocks -/

/-- The blocks among `n` from `start` on that are not bad. -/
def goodBlocks (bad : Nat → Bool) (len : Nat) : (start n : Nat) → List Nat
  | _, 0 => []
  | start, n + 1 =>
    if bad start then goodBlocks bad len (start + len) n
    else start :: goodBlocks bad len (start + len) n

/-- What blocks hold, one after the other. -/
def contents (bytes : Memory) (len : Nat) (blocks : List Nat) : List UInt8 :=
  (blocks.map fun block => bytes.load block len).flatten

/-- Write blocks one after the other, from the buffer `data`. -/
def writeBlocks (data : Memory) (len : Nat) : (processed : Nat) → List Nat → Memory → Memory
  | _, [], bytes => bytes
  | processed, block :: blocks, bytes =>
    writeBlocks data len (processed + len) blocks (bytes.store block (data.load processed len))

section Blocks

variable {bad : Nat → Bool} {bytes data : Memory} {len : Nat}

variable {block : Nat} {blocks : List Nat}

theorem goodBlocks_le {start n : Nat} (member : block ∈ goodBlocks bad len start n) :
    start ≤ block := by
  induction n generalizing start with
  | zero => cases member
  | succ n ih =>
    unfold goodBlocks at member
    split at member
    · have := ih member
      omega
    · rcases List.mem_cons.mp member with rfl | later
      · exact le_refl _
      · have := ih later
        omega

theorem goodBlocks_apart (bad : Nat → Bool) (len start n : Nat) :
    (goodBlocks bad len start n).Pairwise fun block block' => block + len ≤ block' := by
  induction n generalizing start with
  | zero => exact List.Pairwise.nil
  | succ n ih =>
    unfold goodBlocks
    split
    · exact ih (start + len)
    · exact List.Pairwise.cons (fun block member => goodBlocks_le member) (ih (start + len))

theorem contents_cons (bytes : Memory) (len block : Nat) (blocks : List Nat) :
    contents bytes len (block :: blocks) = bytes.load block len ++ contents bytes len blocks := rfl

@[simp] theorem length_contents (bytes : Memory) (len : Nat) (blocks : List Nat) :
    (contents bytes len blocks).length = len * blocks.length := by
  induction blocks with
  | nil => rfl
  | cons block blocks ih =>
    rw [contents_cons, List.length_append, Memory.length_load, ih, List.length_cons]
    ring

theorem take_contents (bytes : Memory) (len : Nat) (blocks : List Nat) (m : Nat) :
    (contents bytes len blocks).take (len * m) = contents bytes len (blocks.take m) := by
  induction blocks generalizing m with
  | nil => simp [contents]
  | cons block blocks ih =>
    cases m with
    | zero => simp [contents]
    | succ m =>
      have split : len * (m + 1) = len + len * m := by ring
      rw [contents_cons, List.take_succ_cons, contents_cons, ← ih, List.take_append,
        Memory.length_load, split, Nat.add_sub_cancel_left]
      congr 1
      rw [List.take_of_length_le (by simp)]

theorem contents_getElem? {i r : Nat} (there : blocks[i]? = some block) (inside : r < len)
    : (contents bytes len blocks)[len * i + r]? = some (bytes (block + r)) := by
  induction blocks generalizing i with
  | nil => simp at there
  | cons first blocks ih =>
    rw [contents_cons]
    cases i with
    | zero =>
      simp only [List.getElem?_cons_zero, Option.some.injEq] at there
      subst there
      rw [Nat.mul_zero, Nat.zero_add, List.getElem?_append_left (by simpa using inside)]
      simp [Memory.load, inside]
    | succ i =>
      have split : len * (i + 1) + r = len + (len * i + r) := by ring
      rw [List.getElem?_cons_succ] at there
      rw [split, List.getElem?_append_right (by simp), Memory.length_load, Nat.add_sub_cancel_left]
      exact ih there

theorem writeBlocks_outside {processed : Nat} {a : Nat}
    (outside : ∀ block ∈ blocks, a < block ∨ block + len ≤ a) :
    writeBlocks data len processed blocks bytes a = bytes a := by
  induction blocks generalizing processed bytes with
  | nil => rfl
  | cons block blocks ih =>
    rw [writeBlocks, ih fun other member => outside other (List.mem_cons_of_mem _ member)]
    apply Memory.store_outside
    rw [Memory.length_load]
    exact outside block (List.mem_cons_self ..)

theorem writeBlocks_inside {processed : Nat}
    (apart : blocks.Pairwise fun block block' => block + len ≤ block') {i r : Nat}
    (there : blocks[i]? = some block) (inside : r < len) :
    writeBlocks data len processed blocks bytes (block + r) = data (processed + (len * i + r)) := by
  induction blocks generalizing processed bytes i with
  | nil => simp at there
  | cons first blocks ih =>
    rw [List.pairwise_cons] at apart
    cases i with
    | zero =>
      simp only [List.getElem?_cons_zero, Option.some.injEq] at there
      subst there
      have later : ∀ other ∈ blocks, first + r < other ∨ other + len ≤ first + r := by
        intro other member
        have := apart.1 other member
        omega
      rw [writeBlocks, writeBlocks_outside later,
        Memory.store_load _ _ ⟨by omega, by omega⟩, Nat.add_sub_cancel_left]
      simp
    | succ i =>
      rw [List.getElem?_cons_succ] at there
      rw [writeBlocks, ih apart.2 there]
      congr 1
      ring

theorem contents_writeBlocks (apart : blocks.Pairwise fun block block' => block + len ≤ block') :
    contents (writeBlocks data len 0 blocks bytes) len blocks =
      data.load 0 (len * blocks.length) := by
  apply List.ext_getElem?
  intro j
  by_cases inside : j < len * blocks.length
  · have positive : 0 < len := by
      rcases Nat.eq_zero_or_pos len with zero | positive
      · simp [zero] at inside
      · exact positive
    have place : len * (j / len) + j % len = j := Nat.div_add_mod j len
    have index : j / len < blocks.length := Nat.div_lt_of_lt_mul inside
    have there := List.getElem?_eq_getElem index
    have within := Nat.mod_lt j positive
    have byte := @contents_getElem? (writeBlocks data len 0 blocks bytes) _ _ _ _ _ there within
    rw [place, writeBlocks_inside apart there within, place, Nat.zero_add] at byte
    rw [byte]
    simp [Memory.load, inside]
  · rw [List.getElem?_eq_none (by simpa using inside),
      List.getElem?_eq_none (by simpa using inside)]

end Blocks

/-! ## The loops -/

def noFaults : Faults :=
  ⟨fun _ => false, fun _ => false, fun _ => false, fun _ => false, fun _ => false⟩

theorem mtdWrite_mtdErase (type : MtdType) (bytes : Memory) (start : Nat) (data : List UInt8) :
    mtdWrite type (mtdErase type bytes start data.length) start data = bytes.store start data := by
  unfold mtdWrite mtdErase
  split
  · funext a
    by_cases inside : start ≤ a ∧ a < start + data.length
    · have ones (b : UInt8) : 0xff &&& b = b := by
        apply UInt8.toBitVec_inj.mp
        rw [UInt8.toBitVec_and]
        exact BitVec.allOnes_and
      rw [if_pos inside, Memory.fill_inside _ _ _ _ _ inside, Memory.store_inside _ _ _ _ inside,
        ones]
    · rw [if_neg inside, Memory.fill_outside _ _ _ _ _ (by omega),
        Memory.store_outside _ _ _ _ (by omega)]
  · rfl

theorem store_load_inside {bytes data : Memory} {start length j : Nat} (inside : j < length) :
    bytes.store start (data.load 0 length) (start + j) = data j := by
  rw [Memory.store_load _ _ ⟨by omega, by omega⟩, Nat.add_sub_cancel_left, Nat.zero_add]

section Loops

variable {type : MtdType} {bad : Nat → Bool} {faults : Faults} {bytes data : Memory}
  {blocklen top count fuel start seek readlen processed : Nat}

theorem flashBadBlock_noFaults (type : MtdType) (bad : Nat → Bool) (start : Nat) :
    flashBadBlock type bad noFaults start = .ok (decide (type = .nand) && bad start) := by
  unfold flashBadBlock noFaults
  by_cases nand : type = .nand
  · simp [nand]
  · simp [nand]

theorem flashBadBlock_ok {isBad : Bool} (tested : flashBadBlock type bad faults start = .ok isBad) :
    isBad = (decide (type = .nand) && bad start) := by
  unfold flashBadBlock at tested
  by_cases nand : type = .nand
  · rw [if_pos nand] at tested
    split at tested
    · cases tested
    · cases tested
      simp [nand]
  · rw [if_neg nand] at tested
    cases tested
    simp [nand]

theorem readLoop_succ (type : MtdType) (bad : Nat → Bool) (bytes : Memory)
    (blocklen top count fuel start seek readlen processed : Nat) :
    readLoop type bad noFaults bytes blocklen top count (fuel + 1) start seek readlen processed =
      if count ≤ processed then some (.ok [])
      else if start + seek + readlen > top then some .error
      else if (decide (type = .nand) && bad start) = true then
        readLoop type bad noFaults bytes blocklen top count fuel (start + blocklen) seek readlen
          processed
      else
        (readLoop type bad noFaults bytes blocklen top count fuel (start + blocklen) 0
          (min blocklen (count - (processed + readlen))) (processed + readlen)).map
            (IoResult.behind (bytes.load (start + seek) readlen)) := by
  conv => lhs; unfold readLoop
  simp only [flashBadBlock_noFaults]
  simp only [noFaults, Bool.false_eq_true, ↓reduceIte]

/-- A read that succeeds does so without faults, too. -/
theorem readLoop_noFaults {read : List UInt8}
    (done : readLoop type bad faults bytes blocklen top count fuel start seek readlen processed =
      some (.ok read)) :
    readLoop type bad noFaults bytes blocklen top count fuel start seek readlen processed =
      some (.ok read) := by
  induction fuel generalizing start seek readlen processed read with
  | zero => cases done
  | succ fuel ih =>
    unfold readLoop at done
    rw [readLoop_succ]
    split at done
    · rename_i enough
      rwa [if_pos enough]
    rename_i more
    rw [if_neg more]
    split at done
    · cases done
    rename_i isBad tested
    rw [flashBadBlock_ok tested] at done
    split at done
    · cases done
    rename_i within
    rw [if_neg within]
    split at done
    · rename_i skipped
      rw [if_pos skipped]
      exact ih done
    rename_i used
    rw [if_neg used]
    split at done
    · cases done
    · obtain ⟨rest, later, joined⟩ := Option.map_eq_some_iff.mp done
      cases rest with
      | error => cases joined
      | ok more => rw [ih later, Option.map_some, joined]

theorem take_drop_contents (bytes : Memory) (rest : List UInt8) {len block seek : Nat} (want : Nat)
    (inside : seek ≤ len) :
    ((bytes.load block len ++ rest).drop seek).take want =
      bytes.load (block + seek) (min (len - seek) want) ++ rest.take (want - (len - seek)) := by
  rw [List.drop_append_of_le_length (by simpa using inside), Memory.drop_load, List.take_append,
    Memory.take_load, Memory.length_load, Nat.min_comm]

/-- The loop that reads NAND, without faults. -/
theorem readLoop_nand {n : Nat} (positive : 0 < blocklen) (enough : n + 1 ≤ fuel)
    (range : top = start + n * blocklen) (inside : seek < blocklen) (begun : processed ≤ count)
    (length : readlen = min (blocklen - seek) (count - processed)) :
    readLoop .nand bad noFaults bytes blocklen top count fuel start seek readlen processed =
      some (if count = processed ∨
          seek + (count - processed) ≤ blocklen * (goodBlocks bad blocklen start n).length then
        .ok (((contents bytes blocklen (goodBlocks bad blocklen start n)).drop seek).take
          (count - processed))
      else .error) := by
  induction n generalizing fuel start seek readlen processed with
  | zero =>
    obtain ⟨fuel, rfl⟩ : ∃ k, fuel = k + 1 := ⟨fuel - 1, by omega⟩
    rw [readLoop_succ]
    by_cases complete : count = processed
    · simp [complete]
    · rw [if_neg (by omega), if_pos (by omega), if_neg]
      simp only [complete, goodBlocks, List.length_nil, false_or]
      omega
  | succ n ih =>
    obtain ⟨fuel, rfl⟩ : ∃ k, fuel = k + 1 := ⟨fuel - 1, by omega⟩
    have product : (n + 1) * blocklen = blocklen + n * blocklen := by ring
    have range' : top = start + blocklen + n * blocklen := by omega
    rw [readLoop_succ]
    by_cases complete : count = processed
    · simp [complete]
    · rw [if_neg (by omega), if_neg (by omega)]
      by_cases skipped : bad start = true
      · have same : goodBlocks bad blocklen start (n + 1) =
            goodBlocks bad blocklen (start + blocklen) n := if_pos skipped
        rw [if_pos (by simp [skipped]), same]
        exact ih (by omega) range' inside begun length
      · have next : goodBlocks bad blocklen start (n + 1) =
            start :: goodBlocks bad blocklen (start + blocklen) n := if_neg skipped
        have later := @ih fuel (start + blocklen) 0
          (min blocklen (count - (processed + readlen))) (processed + readlen) (by omega) range'
          positive (by omega) (by simp)
        rw [if_neg (by simp [skipped]), later, next, contents_cons,
          take_drop_contents _ _ _ (by omega), ← length]
        have rest : count - (processed + readlen) = count - processed - (blocklen - seek) := by
          omega
        have grows : blocklen * (start :: goodBlocks bad blocklen (start + blocklen) n).length =
            blocklen + blocklen * (goodBlocks bad blocklen (start + blocklen) n).length := by
          rw [List.length_cons]
          ring
        rw [Option.map_some, rest, grows, List.drop_zero, Nat.zero_add]
        have same : (count = processed + readlen ∨ count - processed - (blocklen - seek) ≤
              blocklen * (goodBlocks bad blocklen (start + blocklen) n).length) ↔
            (count = processed ∨ seek + (count - processed) ≤
              blocklen + blocklen * (goodBlocks bad blocklen (start + blocklen) n).length) := by
          omega
        by_cases fits : count = processed + readlen ∨ count - processed - (blocklen - seek) ≤
            blocklen * (goodBlocks bad blocklen (start + blocklen) n).length
        · rw [if_pos fits, if_pos (same.mp fits)]
          rfl
        · rw [if_neg fits, if_neg fun others => fits (same.mpr others)]
          rfl

variable {writeTotal : Nat}

/-- A write to NAND that succeeds has written the first good blocks. -/
theorem writeLoop_nand {n m : Nat} {result : Memory} (positive : 0 < blocklen)
    (range : top = start + n * blocklen) (total : writeTotal = processed + blocklen * m)
    (done : writeLoop .nand bad faults data blocklen blocklen top writeTotal fuel start processed
      bytes = some (.ok result)) :
    m ≤ (goodBlocks bad blocklen start n).length ∧
      result = writeBlocks data blocklen processed ((goodBlocks bad blocklen start n).take m)
        bytes := by
  induction fuel generalizing start n m processed bytes with
  | zero => cases done
  | succ fuel ih =>
    unfold writeLoop at done
    split at done
    · rename_i enough
      cases done
      have none : m = 0 := by
        rcases Nat.eq_zero_or_pos m with none | some
        · exact none
        · have := Nat.mul_le_mul_left blocklen some
          omega
      subst none
      exact ⟨Nat.zero_le _, rfl⟩
    rename_i more
    split at done
    · cases done
    rename_i isBad tested
    have isBadIs := flashBadBlock_ok tested
    split at done
    · cases done
    rename_i within
    obtain ⟨n, rfl⟩ : ∃ k, n = k + 1 := by
      rcases Nat.eq_zero_or_pos n with none | some
      · subst none
        omega
      · exact ⟨n - 1, by omega⟩
    have product : (n + 1) * blocklen = blocklen + n * blocklen := by ring
    have range' : top = start + blocklen + n * blocklen := by omega
    unfold goodBlocks
    split at done
    · rename_i skipped
      have marked : bad start = true := by simpa [isBadIs] using skipped
      rw [if_pos marked]
      exact ih range' total done
    rename_i used
    have unmarked : ¬bad start = true := by simpa [isBadIs] using used
    rw [if_neg unmarked]
    split at done
    · cases done
    split at done
    · cases done
    split at done
    · cases done
    obtain ⟨m, rfl⟩ : ∃ k, m = k + 1 := by
      rcases Nat.eq_zero_or_pos m with none | some
      · subst none
        omega
      · exact ⟨m - 1, by omega⟩
    have step : blocklen * (m + 1) = blocklen + blocklen * m := by ring
    have erased := mtdWrite_mtdErase .nand bytes start (data.load processed blocklen)
    rw [Memory.length_load] at erased
    rw [erased] at done
    obtain ⟨few, written⟩ := ih (m := m) range' (by omega) done
    exact ⟨by simpa using few, written⟩

theorem readLoop_other (other : type ≠ .nand) :
    readLoop type bad noFaults bytes 0 (start + seek + count) count (fuel + 2) start seek count 0 =
      some (.ok (bytes.load (start + seek) count)) := by
  rw [readLoop_succ]
  split
  · rename_i empty
    rw [Nat.le_zero.mp empty]
    rfl
  · rw [if_neg (by omega), if_neg (by simp [other]), readLoop_succ, if_pos (by omega)]
    simp [IoResult.behind]

/-- A turn that does not fail writes a sector. -/
theorem writeLoop_turn (other : type ≠ .nand) (more : processed < writeTotal) {erasesize : Nat}
    {result : Memory} (done : writeLoop type bad faults data blocklen erasesize top writeTotal
      (fuel + 1) start processed bytes = some (.ok result)) :
    writeLoop type bad faults data blocklen erasesize top writeTotal fuel (start + erasesize)
      (processed + erasesize) (mtdWrite type (mtdErase type bytes start erasesize) start
        (data.load processed erasesize)) = some (.ok result) := by
  unfold writeLoop at done
  rw [if_neg (by omega)] at done
  split at done
  · cases done
  rename_i isBad tested
  have notBad : isBad = false := by simpa [other] using flashBadBlock_ok tested
  split at done
  · cases done
  rw [if_neg (by simp [notBad])] at done
  split at done
  · cases done
  split at done
  · cases done
  split at done
  · cases done
  exact done

theorem writeLoop_stuck (other : type ≠ .nand) (more : processed < writeTotal) (result : Memory) :
    writeLoop type bad faults data blocklen 0 top writeTotal fuel start processed bytes ≠
      some (.ok result) := by
  induction fuel generalizing bytes with
  | zero =>
    intro done
    cases done
  | succ fuel ih => exact fun done => ih (writeLoop_turn other more done)

/-- A write to other devices that succeeds has written everything at once, or nothing. -/
theorem writeLoop_other (other : type ≠ .nand) {erasesize : Nat} {result : Memory}
    (range : top = start + erasesize)
    (done : writeLoop type bad faults data blocklen erasesize top writeTotal (fuel + 2) start 0 bytes =
      some (.ok result)) :
    writeTotal = 0 ∧ result = bytes ∨
      0 < writeTotal ∧ writeTotal ≤ erasesize ∧
        result = bytes.store start (data.load 0 erasesize) := by
  rcases Nat.eq_zero_or_pos writeTotal with nothing | some
  · rw [writeLoop, if_pos (Nat.le_of_eq nothing)] at done
    cases done
    exact .inl ⟨nothing, rfl⟩
  replace done := writeLoop_turn other some done
  have erased := mtdWrite_mtdErase type bytes start (data.load 0 erasesize)
  rw [Memory.length_load] at erased
  rw [erased, Nat.zero_add] at done
  right
  by_cases whole : writeTotal ≤ erasesize
  · unfold writeLoop at done
    rw [if_pos whole] at done
    cases done
    exact ⟨by omega, whole, rfl⟩
  · rcases Nat.eq_zero_or_pos erasesize with none | positive
    · subst none
      exact absurd done (writeLoop_stuck other (by omega) result)
    · unfold writeLoop at done
      rw [if_neg whole] at done
      split at done
      · cases done
      rw [if_pos (by omega)] at done
      cases done

theorem writeLoop_other_noFaults (other : type ≠ .nand) {erasesize : Nat}
    (range : top = start + erasesize) (some : 0 < writeTotal) (whole : writeTotal ≤ erasesize) :
    writeLoop type bad noFaults data blocklen erasesize top writeTotal (fuel + 2) start 0 bytes =
      Option.some (.ok (bytes.store start (data.load 0 erasesize))) := by
  have erased := mtdWrite_mtdErase type bytes start (data.load 0 erasesize)
  rw [Memory.length_load] at erased
  unfold writeLoop
  rw [if_neg (by omega), flashBadBlock_noFaults]
  simp only [other, decide_false, Bool.false_and, Bool.false_eq_true, ↓reduceIte, erased,
    Nat.zero_add]
  rw [if_neg (by omega), if_neg (by simp [noFaults]), if_neg (by simp [noFaults]),
    if_neg (by simp [noFaults])]
  unfold writeLoop
  rw [if_pos whole]

end Loops

/-! ## The range -/

section Range

variable (dev : EnvDevice)

/-- Offset of the environment in its first sector. -/
def EnvDevice.blockSeek : Nat := dev.devoff - dev.sectorStart dev.devoff

/-- Number of sectors that `count` bytes of environment touch. -/
def EnvDevice.sectorsNeeded (count : Nat) : Nat :=
  (dev.blockSeek + count + dev.eraseSize - 1) / dev.eraseSize

theorem EnvDevice.sectorStart_add_blockSeek :
    dev.sectorStart dev.devoff + dev.blockSeek = dev.devoff := by
  have low : dev.sectorStart dev.devoff ≤ dev.devoff := Nat.div_mul_le_self _ _
  unfold EnvDevice.blockSeek
  omega

theorem EnvDevice.blockSeek_lt : dev.blockSeek < dev.eraseSize := by
  have split := Nat.div_add_mod dev.devoff dev.eraseSize
  have small := Nat.mod_lt dev.devoff dev.positive
  unfold EnvDevice.blockSeek EnvDevice.sectorStart
  rw [Nat.mul_comm]
  omega

theorem EnvDevice.sectorStart_idem (offset : Nat) :
    dev.sectorStart (dev.sectorStart offset) = dev.sectorStart offset := by
  unfold EnvDevice.sectorStart
  rw [Nat.mul_div_cancel _ dev.positive]

theorem EnvDevice.topOfRange_eq :
    dev.topOfRange = dev.sectorStart dev.devoff + dev.envSectors * dev.eraseSize := by
  unfold EnvDevice.topOfRange EnvDevice.sectorStart
  rw [Nat.add_mul]

theorem EnvDevice.writeTotal_eq (count : Nat) :
    dev.writeTotal count dev.devoff = dev.eraseSize * dev.sectorsNeeded count :=
  Nat.mul_comm _ _

theorem EnvDevice.le_writeTotal (count : Nat) :
    dev.blockSeek + count ≤ dev.eraseSize * dev.sectorsNeeded count := by
  have positive := dev.positive
  have split := Nat.div_add_mod (dev.blockSeek + count + dev.eraseSize - 1) dev.eraseSize
  have small := Nat.mod_lt (dev.blockSeek + count + dev.eraseSize - 1) positive
  unfold EnvDevice.sectorsNeeded
  omega

theorem EnvDevice.sectorsNeeded_eq_zero {count : Nat} (nothing : dev.blockSeek + count = 0) :
    dev.sectorsNeeded count = 0 := by
  have positive := dev.positive
  unfold EnvDevice.sectorsNeeded
  apply Nat.div_eq_of_lt
  omega

def EnvDevice.blocks (bad : Nat → Bool) : List Nat :=
  goodBlocks bad dev.eraseSize (dev.sectorStart dev.devoff) dev.envSectors

/-- The byte at `a` is one of the `count` bytes of environment on the device. -/
def EnvDevice.Stored (type : MtdType) (bad : Nat → Bool) (count a : Nat) : Prop :=
  if type = .nand then
    ∃ i block r, (dev.blocks bad)[i]? = some block ∧ r < dev.eraseSize ∧ a = block + r ∧
      dev.blockSeek ≤ dev.eraseSize * i + r ∧ dev.eraseSize * i + r < dev.blockSeek + count
  else dev.devoff ≤ a ∧ a < dev.devoff + count

end Range

/-- Every write that succeeds is read back, and changes no byte besides those of the environment. -/
def WritesExactly (dev : EnvDevice) (type : MtdType) (bad : Nat → Bool) (bytes : Memory)
    (buf : List UInt8) : Prop :=
  ∀ faults junk result,
    flashWriteBuf dev type bad faults junk bytes buf dev.devoff = some (.ok result) →
      flashReadBuf dev type bad noFaults result buf.length dev.devoff = some (.ok buf) ∧
        ∀ a, ¬dev.Stored type bad buf.length a → result a = bytes a

section Read

variable (dev : EnvDevice) (bad : Nat → Bool) (bytes : Memory) (count : Nat)

theorem flashReadBuf_nand {offset : Nat}
    (same : dev.sectorStart offset = dev.sectorStart dev.devoff)
    (inside : offset - dev.sectorStart offset < dev.eraseSize)
    (enough : offset - dev.sectorStart offset + count ≤ dev.eraseSize * (dev.blocks bad).length) :
    flashReadBuf dev .nand bad noFaults bytes count offset =
      some (.ok (((contents bytes dev.eraseSize (dev.blocks bad)).drop
        (offset - dev.sectorStart offset)).take count)) := by
  have range := dev.topOfRange_eq
  have sectors : dev.envSectors ≤ dev.envSectors * dev.eraseSize :=
    Nat.le_mul_of_pos_right _ dev.positive
  have length : (if count > dev.eraseSize - (offset - dev.sectorStart offset) then
        dev.eraseSize - (offset - dev.sectorStart offset) else count) =
      min (dev.eraseSize - (offset - dev.sectorStart offset)) (count - 0) := by
    split <;> omega
  unfold flashReadBuf
  simp only [↓reduceIte]
  rw [readLoop_nand (n := dev.envSectors) dev.positive (by omega) (same ▸ range) inside
    (Nat.zero_le _) length, same]
  rw [same] at enough
  exact congrArg some (if_pos (.inr enough))

theorem flashReadBuf_other {type : MtdType} (other : type ≠ .nand) (offset : Nat) :
    flashReadBuf dev type bad noFaults bytes count offset =
      some (.ok (bytes.load offset count)) := by
  have low : dev.sectorStart offset ≤ offset := Nat.div_mul_le_self _ _
  have split : dev.sectorStart offset + (offset - dev.sectorStart offset) = offset := by omega
  have read := @readLoop_other type bad bytes count (offset + count) (dev.sectorStart offset)
    (offset - dev.sectorStart offset) other
  rw [split] at read
  unfold flashReadBuf
  rw [if_neg other]
  exact read

theorem flashReadBuf_noFaults {type : MtdType} {faults : Faults} {offset : Nat} {read : List UInt8}
    (done : flashReadBuf dev type bad faults bytes count offset = some (.ok read)) :
    flashReadBuf dev type bad noFaults bytes count offset = some (.ok read) := by
  unfold flashReadBuf at done ⊢
  split at done
  · rename_i nand
    rw [if_pos nand]
    exact readLoop_noFaults done
  · rename_i other
    rw [if_neg other]
    exact readLoop_noFaults done

end Read

section Write

variable {dev : EnvDevice} {type : MtdType} {bad : Nat → Bool} {faults : Faults}
  {junk bytes data : Memory} {buf : List UInt8}

/-- The buffer that is written holds the new bytes, and around them what was read. -/
theorem writeData_ok
    (done : writeData dev type bad faults junk bytes buf dev.devoff = some (.ok data)) :
    data.Holds dev.blockSeek buf ∧
      ∀ j, ¬(dev.blockSeek ≤ j ∧ j < dev.blockSeek + buf.length) →
        j < dev.eraseSize * dev.sectorsNeeded buf.length →
        ∃ old, flashReadBuf dev type bad noFaults bytes
            (dev.eraseSize * dev.sectorsNeeded buf.length) (dev.sectorStart dev.devoff) =
              some (.ok old) ∧ (j < old.length → old[j]? = some (data j)) := by
  have enough := dev.le_writeTotal buf.length
  unfold writeData at done
  rw [dev.writeTotal_eq] at done
  split at done
  · obtain ⟨read, called, made⟩ := Option.map_eq_some_iff.mp done
    cases read with
    | error => cases made
    | ok old =>
      simp only [IoResult.ok.injEq] at made
      subst made
      refine ⟨Memory.store_holds _ _ _, ?_⟩
      intro j outside _
      refine ⟨old, flashReadBuf_noFaults _ _ _ _ called, ?_⟩
      intro inside
      have stays : ((junk.store 0 old).store dev.blockSeek buf) j = (junk.store 0 old) j :=
        Memory.store_outside _ _ _ _ (by omega)
      have stands := Memory.store_holds junk 0 old j inside
      rw [Nat.zero_add] at stands
      rw [List.getElem?_eq_getElem inside, ← stands]
      exact congrArg some stays.symm
  · rename_i whole
    cases done
    have noSeek : dev.blockSeek = 0 := by omega
    refine ⟨noSeek ▸ Memory.store_holds _ _ _, ?_⟩
    intro j outside inside
    omega

theorem readBack_nand (holds : data.Holds dev.blockSeek buf)
    (few : dev.sectorsNeeded buf.length ≤ (dev.blocks bad).length) :
    flashReadBuf dev .nand bad noFaults (writeBlocks data dev.eraseSize 0
      ((dev.blocks bad).take (dev.sectorsNeeded buf.length)) bytes) buf.length dev.devoff =
        some (.ok buf) := by
  have enough := dev.le_writeTotal buf.length
  have room := Nat.mul_le_mul_left dev.eraseSize few
  have apart : ((dev.blocks bad).take (dev.sectorsNeeded buf.length)).Pairwise
      fun block block' => block + dev.eraseSize ≤ block' :=
    (goodBlocks_apart _ _ _ _).sublist (List.take_sublist _ _)
  have seek : dev.devoff - dev.sectorStart dev.devoff = dev.blockSeek := rfl
  rw [flashReadBuf_nand dev bad _ _ rfl dev.blockSeek_lt (by omega), seek]
  obtain ⟨whole, wholeIs⟩ : ∃ list, contents (writeBlocks data dev.eraseSize 0
      ((dev.blocks bad).take (dev.sectorsNeeded buf.length)) bytes) dev.eraseSize
        (dev.blocks bad) = list := ⟨_, rfl⟩
  have start : whole.take (dev.eraseSize * dev.sectorsNeeded buf.length) =
      data.load 0 (dev.eraseSize * dev.sectorsNeeded buf.length) := by
    rw [← wholeIs, take_contents, contents_writeBlocks apart, List.length_take,
      Nat.min_eq_left few]
  have middle : (whole.drop dev.blockSeek).take buf.length =
      ((whole.take (dev.eraseSize * dev.sectorsNeeded buf.length)).drop dev.blockSeek).take
        buf.length := by
    rw [List.drop_take, List.take_take, Nat.min_eq_left (by omega)]
  rw [wholeIs, middle, start, Memory.drop_load, Memory.take_load, Nat.min_eq_left (by omega),
    Nat.zero_add, holds.load]

theorem putBack_nand (few : dev.sectorsNeeded buf.length ≤ (dev.blocks bad).length)
    (prepared : writeData dev .nand bad faults junk bytes buf dev.devoff = some (.ok data))
    {i block r : Nat}
    (there : ((dev.blocks bad).take (dev.sectorsNeeded buf.length))[i]? = some block)
    (within : r < dev.eraseSize)
    (around : ¬(dev.blockSeek ≤ dev.eraseSize * i + r ∧
      dev.eraseSize * i + r < dev.blockSeek + buf.length)) :
    data (dev.eraseSize * i + r) = bytes (block + r) := by
  have index : i < dev.sectorsNeeded buf.length := by
    have := (List.getElem?_eq_some_iff.mp there).1
    rw [List.length_take] at this
    omega
  have place : dev.eraseSize * i + r < dev.eraseSize * dev.sectorsNeeded buf.length := by
    have := Nat.mul_le_mul_left dev.eraseSize index
    rw [Nat.mul_succ] at this
    omega
  have room := Nat.mul_le_mul_left dev.eraseSize few
  have start : dev.sectorStart dev.devoff - dev.sectorStart (dev.sectorStart dev.devoff) = 0 := by
    rw [dev.sectorStart_idem, Nat.sub_self]
  obtain ⟨old, read, byte⟩ := (writeData_ok prepared).2 _ around place
  rw [flashReadBuf_nand dev bad _ _ (dev.sectorStart_idem _) (by rw [start]; exact dev.positive)
    (by rw [start, Nat.zero_add]; exact room), start, List.drop_zero, take_contents] at read
  cases read
  have same := byte (by rw [length_contents, List.length_take, Nat.min_eq_left few]; exact place)
  rw [contents_getElem? there within, Option.some.injEq] at same
  exact same.symm

/-- A write to NAND. -/
theorem writesExactly_nand (dev : EnvDevice) (bad : Nat → Bool) (bytes : Memory) (buf : List UInt8)
    : WritesExactly dev .nand bad bytes buf := by
  intro faults junk result done
  unfold flashWriteBuf at done
  rw [if_neg (by decide)] at done
  obtain ⟨made, prepared, written⟩ := Option.bind_eq_some_iff.mp done
  cases made with
  | error => cases written
  | ok data =>
    simp only [↓reduceIte] at written
    obtain ⟨few, rfl⟩ := writeLoop_nand (n := dev.envSectors)
      (m := dev.sectorsNeeded buf.length) dev.positive dev.topOfRange_eq
      (by rw [dev.writeTotal_eq, Nat.zero_add]) written
    refine ⟨readBack_nand (writeData_ok prepared).1 few, ?_⟩
    intro a notStored
    by_cases outside : ∀ block ∈ (dev.blocks bad).take (dev.sectorsNeeded buf.length),
        a < block ∨ block + dev.eraseSize ≤ a
    · exact writeBlocks_outside outside
    · obtain ⟨block, member, inside⟩ : ∃ block ∈ (dev.blocks bad).take
          (dev.sectorsNeeded buf.length), ¬(a < block ∨ block + dev.eraseSize ≤ a) := by
        simpa using outside
      obtain ⟨i, there⟩ := List.getElem?_of_mem member
      obtain ⟨r, rfl⟩ : ∃ r, a = block + r := ⟨a - block, by omega⟩
      have within : r < dev.eraseSize := by omega
      have apart : ((dev.blocks bad).take (dev.sectorsNeeded buf.length)).Pairwise
          fun block block' => block + dev.eraseSize ≤ block' :=
        (goodBlocks_apart _ _ _ _).sublist (List.take_sublist _ _)
      refine (writeBlocks_inside apart there within).trans ?_
      rw [Nat.zero_add]
      apply putBack_nand few prepared there within
      intro between
      apply notStored
      rw [EnvDevice.Stored, if_pos rfl]
      rw [List.getElem?_take] at there
      split at there
      · exact ⟨i, block, r, there, within, rfl, between⟩
      · cases there

theorem writesExactly_absent (dev : EnvDevice) (bad : Nat → Bool) (bytes : Memory)
    (buf : List UInt8) : WritesExactly dev .absent bad bytes buf := by
  intro faults junk result done
  have loaded : (junk.store 0 buf).load 0 buf.length = buf := (Memory.store_holds _ _ _).load
  have stored : result = bytes.store dev.devoff buf := by
    unfold flashWriteBuf at done
    rw [if_pos rfl] at done
    rcases writeLoop_other (by decide) rfl done with ⟨none, same⟩ | ⟨-, -, same⟩
    · rw [same, List.length_eq_zero_iff.mp none, Memory.store_nil]
    · rw [same, loaded]
  subst stored
  rw [flashReadBuf_other dev bad _ _ (by decide), (Memory.store_holds _ _ _).load]
  refine ⟨rfl, ?_⟩
  intro a notStored
  rw [EnvDevice.Stored, if_neg (by decide)] at notStored
  exact Memory.store_outside _ _ _ _ (by omega)

/-- A write to flash that is written at once, if no more sectors are configured than needed. -/
theorem writesExactly_once (erased : type ≠ .nand) (flash : type ≠ .absent)
    (fits : dev.blockSeek + buf.length = 0 ∨ dev.envSectors ≤ dev.sectorsNeeded buf.length) :
    WritesExactly dev type bad bytes buf := by
  intro faults junk result done
  have range := dev.topOfRange_eq
  have offset := dev.sectorStart_add_blockSeek
  have enough := dev.le_writeTotal buf.length
  unfold flashWriteBuf at done
  rw [if_neg flash] at done
  obtain ⟨made, prepared, written⟩ := Option.bind_eq_some_iff.mp done
  cases made with
  | error => cases written
  | ok data =>
    simp only [if_neg erased] at written
    rw [dev.writeTotal_eq] at written
    have area : dev.topOfRange - dev.sectorStart dev.devoff = dev.envSectors * dev.eraseSize := by
      omega
    rw [area] at written
    obtain ⟨holds, around⟩ := writeData_ok prepared
    rw [flashReadBuf_other dev bad _ _ erased]
    rcases writeLoop_other erased range written with ⟨none, rfl⟩ | ⟨some, whole, rfl⟩
    · have empty : buf = [] := List.length_eq_zero_iff.mp (by omega)
      subst empty
      exact ⟨rfl, fun _ _ => rfl⟩
    · have size : dev.envSectors * dev.eraseSize = dev.eraseSize * dev.sectorsNeeded buf.length := by
        rcases fits with nothing | least
        · rw [dev.sectorsNeeded_eq_zero nothing] at some
          omega
        · have := Nat.mul_le_mul_left dev.eraseSize least
          rw [Nat.mul_comm dev.envSectors] at whole ⊢
          omega
      rw [size]
      constructor
      · have back : (bytes.store (dev.sectorStart dev.devoff) (data.load 0
            (dev.eraseSize * dev.sectorsNeeded buf.length))).Holds dev.devoff buf := by
          intro k inside
          have place : dev.devoff + k = dev.sectorStart dev.devoff + (dev.blockSeek + k) := by omega
          rw [← holds k inside, place, store_load_inside (by omega)]
        rw [back.load]
      · intro a notStored
        rw [EnvDevice.Stored, if_neg erased] at notStored
        by_cases outside : a < dev.sectorStart dev.devoff ∨
            dev.sectorStart dev.devoff + dev.eraseSize * dev.sectorsNeeded buf.length ≤ a
        · exact Memory.store_outside _ _ _ _ (by rwa [Memory.length_load])
        · obtain ⟨j, rfl⟩ : ∃ j, a = dev.sectorStart dev.devoff + j :=
            ⟨a - dev.sectorStart dev.devoff, by omega⟩
          obtain ⟨old, read, byte⟩ := around j (by omega) (by omega)
          rw [flashReadBuf_other dev bad _ _ erased] at read
          cases read
          have inside : j < dev.eraseSize * dev.sectorsNeeded buf.length := by omega
          have same := byte (by simpa using inside)
          rw [store_load_inside inside]
          simpa [Memory.load, inside] using same.symm

theorem writeData_junk (erased : type ≠ .nand) :
    ∃ data, writeData dev type bad noFaults junk bytes buf dev.devoff = some (.ok data) ∧
      data (dev.eraseSize * dev.sectorsNeeded buf.length) =
        junk (dev.eraseSize * dev.sectorsNeeded buf.length) := by
  have enough := dev.le_writeTotal buf.length
  have seek : dev.devoff - dev.sectorStart dev.devoff = dev.blockSeek := rfl
  unfold writeData
  rw [dev.writeTotal_eq, seek]
  split
  · rw [flashReadBuf_other dev bad _ _ erased]
    refine ⟨_, rfl, ?_⟩
    rw [Memory.store_outside _ _ _ _ (by omega),
      Memory.store_outside _ _ _ _ (by rw [Memory.length_load]; omega)]
  · exact ⟨_, rfl, Memory.store_outside _ _ _ _ (by omega)⟩

theorem not_writesExactly (erased : type ≠ .nand) (flash : type ≠ .absent)
    (some : dev.blockSeek + buf.length ≠ 0) (more : dev.sectorsNeeded buf.length < dev.envSectors) :
    ¬WritesExactly dev type bad bytes buf := by
  intro exact_
  have range := dev.topOfRange_eq
  have offset := dev.sectorStart_add_blockSeek
  have enough := dev.le_writeTotal buf.length
  have area : dev.topOfRange - dev.sectorStart dev.devoff = dev.envSectors * dev.eraseSize := by
    omega
  have room : dev.eraseSize * dev.sectorsNeeded buf.length < dev.envSectors * dev.eraseSize := by
    rw [Nat.mul_comm dev.envSectors]
    exact Nat.mul_lt_mul_of_pos_left more dev.positive
  -- Behind the buffer lies what the device does not hold there.
  obtain ⟨data, prepared, behind⟩ := @writeData_junk dev type bad
    (fun j => bytes (dev.sectorStart dev.devoff + j) + 1) bytes buf erased
  have done : flashWriteBuf dev type bad noFaults
      (fun j => bytes (dev.sectorStart dev.devoff + j) + 1) bytes buf dev.devoff =
        Option.some (.ok (bytes.store (dev.sectorStart dev.devoff)
          (data.load 0 (dev.envSectors * dev.eraseSize)))) := by
    unfold flashWriteBuf
    rw [if_neg flash, prepared]
    simp only [if_neg erased, Option.bind_some, area, dev.writeTotal_eq]
    exact writeLoop_other_noFaults erased range (by omega) (by omega)
  have outside : ¬dev.Stored type bad buf.length
      (dev.sectorStart dev.devoff + dev.eraseSize * dev.sectorsNeeded buf.length) := by
    rw [EnvDevice.Stored, if_neg erased]
    omega
  have stays := (exact_ _ _ _ done).2 _ outside
  rw [store_load_inside room, behind] at stays
  simp at stays

end Write

/-- A write that succeeds is read back and changes nothing else, whatever calls fail and whatever
lies behind the buffer, exactly when the device is NAND or no flash, or when no more sectors are
configured than the environment touches. -/
theorem flashWriteBuf_exact (dev : EnvDevice) (type : MtdType) (bad : Nat → Bool) (bytes : Memory)
    (buf : List UInt8) : WritesExactly dev type bad bytes buf ↔
      type = .nand ∨ type = .absent ∨ dev.blockSeek + buf.length = 0 ∨
        dev.envSectors ≤ dev.sectorsNeeded buf.length := by
  constructor
  · intro exact_
    by_contra others
    simp only [not_or, not_le] at others
    exact not_writesExactly others.1 others.2.1 others.2.2.1 others.2.2.2 exact_
  · rintro (rfl | rfl | fits)
    · exact writesExactly_nand dev bad bytes buf
    · exact writesExactly_absent dev bad bytes buf
    · by_cases nand : type = .nand
      · subst nand
        exact writesExactly_nand dev bad bytes buf
      · by_cases absent : type = .absent
        · subst absent
          exact writesExactly_absent dev bad bytes buf
        · exact writesExactly_once nand absent fits

/-- NOR flash with two sectors of four bytes, of which the environment takes one byte. -/
theorem flashWriteBuf_clobbers :
    ¬WritesExactly ⟨0, 4, 2, by decide⟩ .nor (fun _ => false) (fun _ => 0) [1] :=
  not_writesExactly (by decide) (by decide) (by decide) (by decide)

end HrppBoot.Env
