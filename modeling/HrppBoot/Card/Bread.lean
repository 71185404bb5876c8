import Mathlib.Data.List.Infix
import Mathlib.Tactic.Ring

/-!
# Reading blocks of a card

`mmc_bread` checks a request against the size of the card, then reads it in chunks that the host can
transfer. The check adds the first block and the number of blocks in 32 bits, and the address of a
card of standard capacity is a product in 32 bits.
-/

namespace HrppBoot.Card

/-- What reading uses of `struct mmc`. Block numbers are `lbaint_t`, an unsigned long. -/
structure Mmc where
  /-- `high_capacity`: addresses are blocks, not bytes. -/
  highCapacity : Bool
  ddrMode : Bool
  readBlLen : UInt32
  /-- `block_dev.lba`: the number of blocks. -/
  lba : UInt32
  /-- `cfg->b_max`: the most blocks of one transfer. -/
  bMax : UInt32
  length_pos : 0 < readBlLen.toNat
  /-- `mmc_create` takes no configuration without transfers. -/
  transfer_pos : 0 < bMax.toNat

/-- A command of `mmc_send_cmd`. -/
inductive Command where
  | setBlocklen (cmdarg : UInt32)
  /-- `MMC_CMD_READ_MULTIPLE_BLOCK`, or `MMC_CMD_READ_SINGLE_BLOCK`, with its data. -/
  | read (multiple : Bool) (cmdarg dest blocks blocksize : UInt32)
  | stopTransmission
  deriving DecidableEq, Repr

/-- Which commands succeed, by their number. -/
abbrev Answers := Nat → Bool

/-- `mmc_read_blocks`: the blocks it read, and the commands issued so far. -/
def mmcReadBlocks (answers : Answers) (mmc : Mmc) (dst start blkcnt : UInt32)
    (issued : List Command) : UInt32 × List Command :=
  let cmdarg := if mmc.highCapacity then start else start * mmc.readBlLen
  let reading := issued ++ [.read (decide (1 < blkcnt)) cmdarg dst blkcnt mmc.readBlLen]
  if !answers issued.length then (0, reading)
  else if 1 < blkcnt then
    if !answers reading.length then (0, reading ++ [.stopTransmission])
    else (blkcnt, reading ++ [.stopTransmission])
  else (blkcnt, reading)

def Mmc.chunk (mmc : Mmc) (blocksTodo : UInt32) : UInt32 :=
  if mmc.bMax < blocksTodo then mmc.bMax else blocksTodo

theorem Mmc.chunk_le (mmc : Mmc) (blocksTodo : UInt32) :
    (mmc.chunk blocksTodo).toNat ≤ blocksTodo.toNat := by
  unfold Mmc.chunk
  split
  · rename_i more
    exact (UInt32.lt_iff_toNat_lt.mp more).le
  · exact le_rfl

theorem Mmc.chunk_pos (mmc : Mmc) {blocksTodo : UInt32} (left : 0 < blocksTodo.toNat) :
    0 < (mmc.chunk blocksTodo).toNat := by
  unfold Mmc.chunk
  split
  · exact mmc.transfer_pos
  · exact left

theorem Mmc.toNat_sub_chunk (mmc : Mmc) (blocksTodo : UInt32) :
    (blocksTodo - mmc.chunk blocksTodo).toNat =
      blocksTodo.toNat - (mmc.chunk blocksTodo).toNat :=
  UInt32.toNat_sub_of_le _ _ (UInt32.le_iff_toNat_le.mpr (mmc.chunk_le blocksTodo))

/-- The loop of `mmc_bread`: whether all chunks were read, and the commands issued. -/
def breadLoop (answers : Answers) (mmc : Mmc) (blocksTodo start dst : UInt32)
    (issued : List Command) : Bool × List Command :=
  let cur := mmc.chunk blocksTodo
  let (done, issued) := mmcReadBlocks answers mmc dst start cur issued
  if done ≠ cur then (false, issued)
  else if 0 < (blocksTodo - cur).toNat then
    breadLoop answers mmc (blocksTodo - cur) (start + cur) (dst + cur * mmc.readBlLen) issued
  else (true, issued)
termination_by blocksTodo.toNat
decreasing_by
  rename_i more
  rw [mmc.toNat_sub_chunk] at more ⊢
  have := @Mmc.chunk_pos mmc blocksTodo (by omega)
  omega

def mmcSetBlocklen (answers : Answers) (mmc : Mmc) (issued : List Command) :
    Bool × List Command :=
  if mmc.ddrMode then (true, issued)
  else (answers issued.length, issued ++ [.setBlocklen mmc.readBlLen])

/-- `mmc_bread` on the device that `find_mmc_device` finds: the blocks it read, and the commands it
issued. -/
def mmcBread (answers : Answers) (device : Option Mmc) (start blkcnt dst : UInt32) :
    UInt32 × List Command :=
  if blkcnt = 0 then (0, [])
  else
    match device with
    | none => (0, [])
    | some mmc =>
      if mmc.lba < start + blkcnt then (0, [])
      else
        let (set, issued) := mmcSetBlocklen answers mmc []
        if !set then (0, issued)
        else
          let (done, issued) := breadLoop answers mmc blkcnt start dst issued
          (if done then blkcnt else 0, issued)

/-! ## What the commands transfer -/

/-- Consecutive blocks, each with the address its bytes go to. -/
def blocksTo (length : UInt32) (first count : Nat) (dst : UInt32) : List (Nat × UInt32) :=
  (List.range count).map fun i => (first + i, dst + UInt32.ofNat i * length)

/-- The block that an address of a command is. -/
def Mmc.blockOf (mmc : Mmc) (cmdarg : UInt32) : Nat :=
  if mmc.highCapacity then cmdarg.toNat else cmdarg.toNat / mmc.readBlLen.toNat

/-- The blocks that a card transfers for a command, each with the address its bytes go to. -/
def Mmc.transfersOf (mmc : Mmc) : Command → List (Nat × UInt32)
  | .read _ cmdarg dest blocks blocksize =>
    blocksTo blocksize (mmc.blockOf cmdarg) blocks.toNat dest
  | .setBlocklen _ => []
  | .stopTransmission => []

def Mmc.transfers (mmc : Mmc) (issued : List Command) : List (Nat × UInt32) :=
  issued.flatMap mmc.transfersOf

/-- What was promised of a request: only blocks of the card are addressed, the blocks are those of
the request in order, each at its place, and the result is the number of blocks where all chunks
were read and 0 elsewhere. -/
structure Kept (answers : Answers) (mmc : Mmc) (start blkcnt dst : UInt32) : Prop where
  inside : ∀ block ∈ mmc.transfers (mmcBread answers (some mmc) start blkcnt dst).2,
    block.1 < mmc.lba.toNat
  order : mmc.transfers (mmcBread answers (some mmc) start blkcnt dst).2 <+:
    blocksTo mmc.readBlLen start.toNat blkcnt.toNat dst
  result : (mmcBread answers (some mmc) start blkcnt dst).1 = blkcnt ↔
    mmc.transfers (mmcBread answers (some mmc) start blkcnt dst).2 =
        blocksTo mmc.readBlLen start.toNat blkcnt.toNat dst ∧
      ∀ n < (mmcBread answers (some mmc) start blkcnt dst).2.length, answers n = true
  none_or_all : (mmcBread answers (some mmc) start blkcnt dst).1 = blkcnt ∨
    (mmcBread answers (some mmc) start blkcnt dst).1 = 0

/-- The addresses of a request fit in 32 bits: the last chunk starts below 2³². -/
def Mmc.Addressable (mmc : Mmc) (start blkcnt : Nat) : Prop :=
  mmc.highCapacity = true ∨
    (start + (blkcnt - 1) / mmc.bMax.toNat * mmc.bMax.toNat) * mmc.readBlLen.toNat < 2 ^ 32

/-- The request is refused, or neither its end nor its addresses wrap around. -/
def Mmc.Admits (mmc : Mmc) (start blkcnt : UInt32) : Prop :=
  blkcnt = 0 ∨ mmc.lba < start + blkcnt ∨
    (start.toNat + blkcnt.toNat < 2 ^ 32 ∧ mmc.Addressable start.toNat blkcnt.toNat)

/-! ## One chunk -/

theorem blocksTo_add (length : UInt32) (first a b : Nat) (dst : UInt32) :
    blocksTo length first (a + b) dst =
      blocksTo length first a dst ++
        blocksTo length (first + a) b (dst + UInt32.ofNat a * length) := by
  unfold blocksTo
  rw [List.range_add, List.map_append, List.map_map]
  congr 1
  apply List.map_congr_left
  intro i _
  simp only [Function.comp_apply, UInt32.ofNat_add, UInt32.add_mul, Nat.add_assoc,
    UInt32.add_assoc]

theorem blocksTo_inj {length : UInt32} {first second count : Nat} {dst : UInt32}
    (some_block : 0 < count) :
    blocksTo length first count dst = blocksTo length second count dst ↔ first = second := by
  constructor
  · intro same
    obtain ⟨rest, rfl⟩ : ∃ rest, count = rest + 1 := ⟨count - 1, by omega⟩
    simp only [blocksTo, List.range_succ_eq_map, List.map_cons, List.cons.injEq,
      Prod.mk.injEq] at same
    omega
  · intro same
    rw [same]

@[simp]
theorem Mmc.transfers_append (mmc : Mmc) (first second : List Command) :
    mmc.transfers (first ++ second) = mmc.transfers first ++ mmc.transfers second :=
  List.flatMap_append

theorem Mmc.blockOf_cmdarg (mmc : Mmc) (start : UInt32) :
    mmc.blockOf (if mmc.highCapacity then start else start * mmc.readBlLen) = start.toNat ↔
      mmc.highCapacity = true ∨ start.toNat * mmc.readBlLen.toNat < 2 ^ 32 := by
  unfold Mmc.blockOf
  cases mmc.highCapacity with
  | true => simp
  | false =>
    simp only [Bool.false_eq_true, ↓reduceIte, false_or, UInt32.toNat_mul]
    have length := mmc.length_pos
    constructor
    · intro same
      have below := Nat.mod_lt (start.toNat * mmc.readBlLen.toNat) (Nat.two_pow_pos 32)
      have back := Nat.div_mul_le_self
        (start.toNat * mmc.readBlLen.toNat % 2 ^ 32) mmc.readBlLen.toNat
      rw [same] at back
      omega
    · intro fits
      rw [Nat.mod_eq_of_lt fits, Nat.mul_div_cancel _ length]

/-- What reading a chunk does: it issues the read of the chunk and perhaps the stop, and gives the
number of its blocks exactly if all it issued succeeded. -/
theorem mmcReadBlocks_spec (answers : Answers) (mmc : Mmc) (dst start blkcnt : UInt32)
    (issued : List Command) (some_block : 0 < blkcnt.toNat) :
    ∃ later, (mmcReadBlocks answers mmc dst start blkcnt issued).2 = issued ++ later ∧
      mmc.transfers later = blocksTo mmc.readBlLen
        (mmc.blockOf (if mmc.highCapacity then start else start * mmc.readBlLen))
        blkcnt.toNat dst ∧
      ((mmcReadBlocks answers mmc dst start blkcnt issued).1 = blkcnt ↔
        ∀ n, issued.length ≤ n → n < (issued ++ later).length → answers n = true) := by
  have nonzero : ¬ 0 = blkcnt := by
    rintro rfl
    simp at some_block
  unfold mmcReadBlocks
  dsimp only
  by_cases answered : answers issued.length = true
  · by_cases multiple : 1 < blkcnt
    · by_cases stopped : answers (issued.length + 1) = true
      · refine ⟨_, by simp [answered, multiple, stopped, List.append_assoc]; rfl, ?_, ?_⟩
        · simp [Mmc.transfers, Mmc.transfersOf]
        · simp [answered, multiple, stopped]
          intro n from_here below
          obtain rfl | rfl : n = issued.length ∨ n = issued.length + 1 := by omega
          · exact answered
          · exact stopped
      · refine ⟨_, by simp [answered, multiple, stopped, List.append_assoc]; rfl, ?_, ?_⟩
        · simp [Mmc.transfers, Mmc.transfersOf]
        · simp [answered, multiple, stopped, nonzero]
          exact ⟨issued.length + 1, by omega, by omega, by simpa using stopped⟩
    · refine ⟨_, by simp [answered, multiple]; rfl, ?_, ?_⟩
      · simp [Mmc.transfers, Mmc.transfersOf]
      · simp [answered, multiple]
        intro n from_here below
        obtain rfl : n = issued.length := by omega
        exact answered
  · refine ⟨_, by simp [answered]; rfl, ?_, ?_⟩
    · simp [Mmc.transfers, Mmc.transfersOf]
    · simp [answered, nonzero]
      exact ⟨issued.length, le_rfl, by omega, by simpa using answered⟩

/-! ## All chunks -/

theorem Mmc.chunk_cases (mmc : Mmc) (blocksTodo : UInt32) :
    (mmc.chunk blocksTodo = blocksTodo ∧ blocksTodo.toNat ≤ mmc.bMax.toNat) ∨
      (mmc.chunk blocksTodo = mmc.bMax ∧ mmc.bMax.toNat < blocksTodo.toNat) := by
  unfold Mmc.chunk
  split
  · rename_i more
    exact .inr ⟨rfl, UInt32.lt_iff_toNat_lt.mp more⟩
  · rename_i last
    rw [UInt32.not_lt, UInt32.le_iff_toNat_le] at last
    exact .inl ⟨rfl, last⟩

variable {blkcnt start : Nat} {mmc : Mmc}

theorem Mmc.addressable_last (some_block : 0 < blkcnt) (last : blkcnt ≤ mmc.bMax.toNat) :
    mmc.Addressable start blkcnt ↔
      mmc.highCapacity = true ∨ start * mmc.readBlLen.toNat < 2 ^ 32 := by
  unfold Mmc.Addressable
  rw [Nat.div_eq_of_lt (by omega), Nat.zero_mul, Nat.add_zero]

theorem Mmc.addressable_rest (more : mmc.bMax.toNat < blkcnt) :
    mmc.Addressable start blkcnt ↔
      mmc.Addressable (start + mmc.bMax.toNat) (blkcnt - mmc.bMax.toNat) := by
  have quotient : (blkcnt - 1) / mmc.bMax.toNat =
      (blkcnt - mmc.bMax.toNat - 1) / mmc.bMax.toNat + 1 := by
    rw [← Nat.add_div_right _ mmc.transfer_pos]
    congr 1
    omega
  have position : start + (blkcnt - 1) / mmc.bMax.toNat * mmc.bMax.toNat =
      start + mmc.bMax.toNat +
        (blkcnt - mmc.bMax.toNat - 1) / mmc.bMax.toNat * mmc.bMax.toNat := by
    rw [quotient]
    ring
  unfold Mmc.Addressable
  rw [position]

theorem Mmc.Addressable.first (addressable : mmc.Addressable start blkcnt) :
    mmc.highCapacity = true ∨ start * mmc.readBlLen.toNat < 2 ^ 32 := by
  apply addressable.imp id
  intro fits
  exact lt_of_le_of_lt (Nat.mul_le_mul_right _ (Nat.le_add_right _ _)) fits

/-- The loop succeeds exactly if all that it issued succeeded. Where its end does not wrap around,
it transfers blocks of the request in order if the addresses fit; if it succeeds, it transfers all
of them exactly if the addresses fit. -/
theorem breadLoop_spec (answers : Answers) (mmc : Mmc) (blocksTodo start dst : UInt32)
    (issued : List Command) (some_block : 0 < blocksTodo.toNat) :
    ∃ later, (breadLoop answers mmc blocksTodo start dst issued).2 = issued ++ later ∧
      ((breadLoop answers mmc blocksTodo start dst issued).1 = true ↔
        ∀ n, issued.length ≤ n → n < (issued ++ later).length → answers n = true) ∧
      (start.toNat + blocksTodo.toNat < 2 ^ 32 →
        (mmc.Addressable start.toNat blocksTodo.toNat → mmc.transfers later <+:
          blocksTo mmc.readBlLen start.toNat blocksTodo.toNat dst) ∧
        ((breadLoop answers mmc blocksTodo start dst issued).1 = true →
          (mmc.transfers later = blocksTo mmc.readBlLen start.toNat blocksTodo.toNat dst ↔
            mmc.Addressable start.toNat blocksTodo.toNat))) := by
  induction size : blocksTodo.toNat using Nat.strong_induction_on
    generalizing blocksTodo start dst issued with
  | _ size' ih =>
    subst size
    have positive := mmc.chunk_pos some_block
    obtain ⟨first, read, moved, succeeded⟩ :=
      mmcReadBlocks_spec answers mmc dst start (mmc.chunk blocksTodo) issued positive
    rw [breadLoop]
    dsimp only
    by_cases done : (mmcReadBlocks answers mmc dst start (mmc.chunk blocksTodo) issued).1 =
        mmc.chunk blocksTodo
    · rw [if_neg (not_not.mpr done), read]
      rcases mmc.chunk_cases blocksTodo with ⟨whole, last⟩ | ⟨full, more⟩
      · rw [whole] at positive read moved succeeded done ⊢
        rw [if_neg (by simp)]
        refine ⟨first, rfl, ⟨fun _ => succeeded.mp done, fun _ => rfl⟩, fun _ => ⟨?_, fun _ => ?_⟩⟩
        · intro addressable
          rw [moved, (mmc.blockOf_cmdarg start).mpr addressable.first]
        · rw [moved, blocksTo_inj positive, mmc.blockOf_cmdarg, mmc.addressable_last positive last]
      · rw [full] at positive read moved succeeded done ⊢
        have rest : (blocksTodo - mmc.bMax).toNat = blocksTodo.toNat - mmc.bMax.toNat := by
          have := mmc.toNat_sub_chunk blocksTodo
          rwa [full] at this
        rw [if_pos (by omega)]
        obtain ⟨later, spoken, answered, transferred⟩ := ih _ (by omega) (blocksTodo - mmc.bMax)
          (start + mmc.bMax) (dst + mmc.bMax * mmc.readBlLen) (issued ++ first) (by omega) rfl
        refine ⟨first ++ later, by rw [spoken, List.append_assoc], ?_, ?_⟩
        · rw [answered, ← List.append_assoc]
          have early := succeeded.mp done
          constructor
          · intro late n from_here below
            rcases Nat.lt_or_ge n (issued ++ first).length with before | behind
            · exact early n from_here before
            · exact late n behind below
          · intro all n behind below
            exact all n (by rw [List.length_append] at behind; omega) below
        · intro below
          have next : (start + mmc.bMax).toNat = start.toNat + mmc.bMax.toNat := by
            rw [UInt32.toNat_add]
            exact Nat.mod_eq_of_lt (by omega)
          have parts : blocksTo mmc.readBlLen start.toNat blocksTodo.toNat dst =
              blocksTo mmc.readBlLen start.toNat mmc.bMax.toNat dst ++
                blocksTo mmc.readBlLen (start + mmc.bMax).toNat
                  (blocksTodo - mmc.bMax).toNat (dst + mmc.bMax * mmc.readBlLen) := by
            rw [next, rest]
            conv_lhs => rw [← Nat.add_sub_cancel' more.le, blocksTo_add, UInt32.ofNat_toNat]
          obtain ⟨prefixed, exact_iff⟩ := transferred (by omega)
          rw [parts, mmc.transfers_append, moved, mmc.addressable_rest more, ← rest, ← next]
          constructor
          · intro addressable
            have from_start : mmc.Addressable start.toNat blocksTodo.toNat := by
              rw [mmc.addressable_rest more, ← rest, ← next]
              exact addressable
            rw [(mmc.blockOf_cmdarg start).mpr from_start.first, List.prefix_append_right_inj]
            exact prefixed addressable
          · intro all
            rw [← exact_iff all]
            constructor
            · intro same
              exact (List.append_inj same (by simp [blocksTo])).2
            · intro same
              have from_start : mmc.Addressable start.toNat blocksTodo.toNat := by
                rw [mmc.addressable_rest more, ← rest, ← next]
                exact (exact_iff all).mp same
              rw [same, (mmc.blockOf_cmdarg start).mpr from_start.first]
    · rw [if_pos done, read]
      refine ⟨first, rfl, ⟨nofun, fun all => absurd (succeeded.mpr all) done⟩,
        fun _ => ⟨?_, nofun⟩⟩
      intro addressable
      rw [moved, (mmc.blockOf_cmdarg start).mpr addressable.first]
      have parts : blocksTodo.toNat = (mmc.chunk blocksTodo).toNat +
          (blocksTodo.toNat - (mmc.chunk blocksTodo).toNat) :=
        (Nat.add_sub_cancel' (mmc.chunk_le blocksTodo)).symm
      conv_rhs => rw [parts, blocksTo_add]
      exact List.prefix_append _ _

/-! ## A request -/

theorem mmcSetBlocklen_spec (answers : Answers) (mmc : Mmc) :
    mmc.transfers (mmcSetBlocklen answers mmc []).2 = [] ∧
      ((mmcSetBlocklen answers mmc []).1 = true ↔
        ∀ n < (mmcSetBlocklen answers mmc []).2.length, answers n = true) := by
  unfold mmcSetBlocklen
  cases mmc.ddrMode with
  | true => simp [Mmc.transfers]
  | false => simp [Mmc.transfers, Mmc.transfersOf]

/-- A request that is not refused gives the number of its blocks exactly if all commands succeeded.
Where its end does not wrap around, it transfers blocks in order if the addresses fit; if it
succeeds, it transfers all of them exactly if the addresses fit. -/
theorem mmcBread_spec (answers : Answers) {start blkcnt : UInt32} (dst : UInt32)
    (some_block : blkcnt ≠ 0) (taken : ¬ mmc.lba < start + blkcnt) :
    ∃ issued, (mmcBread answers (some mmc) start blkcnt dst).2 = issued ∧
      ((mmcBread answers (some mmc) start blkcnt dst).1 = blkcnt ↔
        ∀ n < issued.length, answers n = true) ∧
      ((mmcBread answers (some mmc) start blkcnt dst).1 = blkcnt ∨
        (mmcBread answers (some mmc) start blkcnt dst).1 = 0) ∧
      (start.toNat + blkcnt.toNat < 2 ^ 32 →
        (mmc.Addressable start.toNat blkcnt.toNat → mmc.transfers issued <+:
          blocksTo mmc.readBlLen start.toNat blkcnt.toNat dst) ∧
        ((mmcBread answers (some mmc) start blkcnt dst).1 = blkcnt →
          (mmc.transfers issued = blocksTo mmc.readBlLen start.toNat blkcnt.toNat dst ↔
            mmc.Addressable start.toNat blkcnt.toNat))) := by
  have positive : 0 < blkcnt.toNat := by
    apply Nat.pos_of_ne_zero
    intro zero
    exact some_block (UInt32.toNat_inj.mp (by simpa using zero))
  obtain ⟨silent, set_iff⟩ := mmcSetBlocklen_spec answers mmc
  simp only [mmcBread, if_neg some_block, if_neg taken]
  by_cases set : (mmcSetBlocklen answers mmc []).1 = true
  · obtain ⟨later, spoken, answered, transferred⟩ :=
      breadLoop_spec answers mmc blkcnt start dst (mmcSetBlocklen answers mmc []).2 positive
    simp only [set, Bool.not_true, Bool.false_eq_true, ↓reduceIte]
    have result : (if (breadLoop answers mmc blkcnt start dst
          (mmcSetBlocklen answers mmc []).2).1 = true then blkcnt else 0) = blkcnt ↔
        (breadLoop answers mmc blkcnt start dst (mmcSetBlocklen answers mmc []).2).1 = true := by
      split
      · simp [*]
      · simp [*, some_block.symm]
    refine ⟨_, rfl, ?_, ?_, ?_⟩
    · rw [result, answered, spoken]
      have early := set_iff.mp set
      constructor
      · intro late n below
        rcases Nat.lt_or_ge n (mmcSetBlocklen answers mmc []).2.length with before | behind
        · exact early n before
        · exact late n behind below
      · intro all n _ below
        exact all n below
    · split
      · exact .inl rfl
      · exact .inr rfl
    · rw [result, spoken, mmc.transfers_append, silent, List.nil_append]
      exact transferred
  · simp only [set, Bool.not_false, ↓reduceIte]
    refine ⟨_, rfl, ?_, .inr trivial, fun _ => ⟨?_, fun same => absurd same.symm some_block⟩⟩
    · rw [← set_iff]
      exact ⟨fun same => absurd same.symm some_block, fun all => absurd all set⟩
    · rw [silent]
      exact fun _ => List.nil_prefix

theorem mem_blocksTo {length : UInt32} {first count : Nat} {dst : UInt32} {block : Nat × UInt32} :
    block ∈ blocksTo length first count dst →
      first ≤ block.1 ∧ block.1 < first + count := by
  intro member
  obtain ⟨i, below, rfl⟩ := List.mem_map.mp member
  rw [List.mem_range] at below
  exact ⟨by simp, by simpa using below⟩

theorem mmcBread_refused (answers : Answers) {start blkcnt : UInt32} (dst : UInt32)
    (refused : blkcnt = 0 ∨ mmc.lba < start + blkcnt) :
    mmcBread answers (some mmc) start blkcnt dst = (0, []) := by
  unfold mmcBread
  split
  · rfl
  · rename_i some_block
    dsimp only
    rw [if_pos (refused.resolve_left some_block)]

/-- What is promised of a request holds whatever the card answers exactly if the request is refused
or neither its end nor its addresses wrap around. -/
theorem kept_iff_admits (mmc : Mmc) (start blkcnt dst : UInt32) :
    (∀ answers, Kept answers mmc start blkcnt dst) ↔ mmc.Admits start blkcnt := by
  by_cases refused : blkcnt = 0 ∨ mmc.lba < start + blkcnt
  · have admitted : mmc.Admits start blkcnt :=
      refused.elim (fun zero => .inl zero) (fun beyond => .inr (.inl beyond))
    refine ⟨fun _ => admitted, fun _ answers => ?_⟩
    have nothing := mmcBread_refused answers dst refused
    have empty : blkcnt = 0 ↔ blocksTo mmc.readBlLen start.toNat blkcnt.toNat dst = [] := by
      rw [blocksTo, List.map_eq_nil_iff, List.range_eq_nil, ← UInt32.toNat_inj, UInt32.toNat_zero]
    constructor
    · simp [nothing, Mmc.transfers]
    · simp [nothing, Mmc.transfers]
    · simp [nothing, Mmc.transfers, eq_comm (a := (0 : UInt32)), empty,
        eq_comm (a := ([] : List (Nat × UInt32)))]
    · exact .inr (by rw [nothing])
  · rw [not_or] at refused
    obtain ⟨some_block, taken⟩ := refused
    constructor
    · intro kept
      obtain ⟨issued, spoken, answered, -, transferred⟩ :=
        mmcBread_spec (fun _ => true) dst some_block taken
      obtain ⟨inside, -, result, -⟩ := kept fun _ => true
      have all := answered.mpr fun _ _ => rfl
      rw [spoken] at inside result
      have whole := (result.mp all).1
      have positive : 0 < blkcnt.toNat := by
        apply Nat.pos_of_ne_zero
        intro zero
        exact some_block (UInt32.toNat_inj.mp (by simpa using zero))
      have last : start.toNat + (blkcnt.toNat - 1) < mmc.lba.toNat := by
        rw [whole] at inside
        exact inside (_, _) (List.mem_map.mpr ⟨_, List.mem_range.mpr (by omega), rfl⟩)
      have size := mmc.lba.toNat_lt
      have below : start.toNat + blkcnt.toNat < 2 ^ 32 := by omega
      exact .inr (.inr ⟨below, ((transferred below).2 all).mp whole⟩)
    · intro admitted answers
      obtain ⟨below, addressable⟩ :=
        (admitted.resolve_left some_block).resolve_left taken
      obtain ⟨issued, spoken, answered, none_or_all, transferred⟩ :=
        mmcBread_spec answers dst some_block taken
      obtain ⟨prefixed, exact_iff⟩ := transferred below
      have inOrder := prefixed addressable
      have fits : start.toNat + blkcnt.toNat ≤ mmc.lba.toNat := by
        rw [UInt32.not_lt, UInt32.le_iff_toNat_le, UInt32.toNat_add,
          Nat.mod_eq_of_lt below] at taken
        exact taken
      constructor
      · intro block member
        rw [spoken] at member
        have := (mem_blocksTo (inOrder.subset member)).2
        omega
      · rw [spoken]
        exact inOrder
      · rw [spoken]
        constructor
        · intro all
          exact ⟨(exact_iff all).mpr addressable, answered.mp all⟩
        · intro whole
          exact answered.mpr whole.2
      · exact none_or_all

/-- A card of high capacity with 100 blocks. -/
def hundredBlocks : Mmc where
  highCapacity := true
  ddrMode := false
  readBlLen := 512
  lba := 100
  bMax := 65535
  length_pos := by decide
  transfer_pos := by decide

/-- Two blocks from the last 32-bit block number on end at block 1, as the check adds, and are read
from a card of 100 blocks. -/
theorem hundredBlocks_not_kept : ¬ ∀ answers, Kept answers hundredBlocks 0xffffffff 2 0 := by
  intro kept
  have inside := (kept fun _ => true).inside
  have read : mmcBread (fun _ => true) (some hundredBlocks) 0xffffffff 2 0 =
      (2, [.setBlocklen 512, .read true 0xffffffff 0 2 512, .stopTransmission]) := by
    simp [mmcBread, mmcSetBlocklen, breadLoop, mmcReadBlocks, Mmc.chunk, hundredBlocks]
  rw [read] at inside
  exact absurd (inside (0xffffffff, 0) (by decide)) (by decide)

end HrppBoot.Card
