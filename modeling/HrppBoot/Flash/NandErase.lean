import HrppBoot.Flash.NandSkip
import Mathlib.Data.Nat.Count

/-!
# Erasing around bad blocks

`nand_erase_opts` without `scrub`, for every outcome of the erase operations of the driver. The
number of blocks is a 32-bit `unsigned long`; a failed erase is reported on the console and passed
over. The messages are left out, and so is the outcome of `mtd_write_oob`, which only they show.
-/

namespace HrppBoot.Flash

/-- `nand_erase_options_t`, without `quiet` and `scrub`. -/
structure EraseOptions where
  length : Nat
  offset : Nat
  jffs2 : Bool
  spread : Bool
  /-- `lim`, 0 for no limit. -/
  lim : Nat

inductive EraseCall where
  /-- `mtd_erase`, and what it returns. -/
  | erase (addr : Nat) (result : Int)
  /-- `mtd_write_oob` of a clean marker. -/
  | writeOob (addr : Nat)
  deriving DecidableEq

/-- What `nand_erase_opts` returns, and what it has done. -/
structure EraseRun where
  ret : Int
  calls : List EraseCall

def EraseRun.after (calls : List EraseCall) (run : EraseRun) : EraseRun :=
  { run with calls := calls ++ run.calls }

namespace NandInfo

section Erase

variable (nand : NandInfo) (oobavail : Nat) (opts : EraseOptions) (outcome : Nat → Int)

def mtdBlockIsbad (ofs : Nat) : Int :=
  if nand.size < ofs then -einval else if nand.isbad ofs then 1 else 0

/-- `mtd_erase` of one block: what is outside the device is refused. -/
def mtdErase (addr : Nat) : Int :=
  if nand.size < addr ∨ nand.size - addr < nand.erasesize then -einval else outcome addr

def eraseBlock (addr : Nat) : List EraseCall :=
  let result := nand.mtdErase outcome addr
  if result ≠ 0 then [.erase addr result]
  else if opts.jffs2 ∧ 8 ≤ oobavail then [.erase addr result, .writeOob addr]
  else [.erase addr result]

/-- The loop of `nand_erase_opts`. -/
def eraseLoop (eraseLength addr erasedLength : Nat) : EraseRun :=
  if erasedLength < eraseLength then
    if opts.lim ≠ 0 ∧ opts.offset + opts.lim ≤ addr then ⟨-efbig, []⟩
    else if nand.size < addr then ⟨-1, []⟩
    else if 0 < nand.mtdBlockIsbad addr then
      eraseLoop eraseLength (addr + nand.erasesize)
        (if opts.spread then erasedLength else erasedLength + 1)
    else
      (eraseLoop eraseLength (addr + nand.erasesize) (erasedLength + 1)).after
        (nand.eraseBlock oobavail opts outcome addr)
  else ⟨0, []⟩
termination_by nand.size + 1 - addr
decreasing_by
  all_goals
    have := nand.erasesize_pos
    omega

/-- The number of blocks that are asked for. -/
def blocksAsked : Nat := (opts.length + nand.erasesize - 1) / nand.erasesize

def nandEraseOpts : EraseRun :=
  if nand.blockOffset opts.offset ≠ 0 then ⟨-1, []⟩
  else nand.eraseLoop oobavail opts outcome (nand.blocksAsked opts % 2 ^ 32) opts.offset 0

/-! ## What is asked for -/

/-- The address of a block, counted from the offset. -/
def blockAt (k : Nat) : Nat := opts.offset + k * nand.erasesize

def GoodBlock (k : Nat) : Prop := nand.mtdBlockIsbad (nand.blockAt opts k) = 0

instance (k : Nat) : Decidable (nand.GoodBlock opts k) := inferInstanceAs (Decidable (_ = _))

/-- A block counts: all do, or with `spread` the good ones. -/
def Tallied (k : Nat) : Prop := opts.spread = true → nand.GoodBlock opts k

instance (k : Nat) : Decidable (nand.Tallied opts k) := inferInstanceAs (Decidable (_ → _))

def talliedBelow (k : Nat) : Nat := Nat.count (nand.Tallied opts) k

/-- A block is to be erased if a number of blocks is asked for. -/
def ToErase (blocks k : Nat) : Prop := nand.GoodBlock opts k ∧ nand.talliedBelow opts k < blocks

/-- A block is in the device and below the limit. -/
def InReach (k : Nat) : Prop :=
  nand.blockAt opts k ≤ nand.size ∧ (opts.lim = 0 ∨ nand.blockAt opts k < opts.offset + opts.lim)

def Reaches (blocks : Nat) : Prop :=
  ∃ m, nand.talliedBelow opts m = blocks ∧ ∀ k < m, nand.InReach opts k

/-! ## The loop -/

variable {nand oobavail opts outcome} {blocks k : Nat}

theorem talliedBelow_succ : nand.talliedBelow opts (k + 1) =
    nand.talliedBelow opts k + if nand.Tallied opts k then 1 else 0 :=
  Nat.count_succ _ _

theorem talliedBelow_mono {m : Nat} (le : k ≤ m) :
    nand.talliedBelow opts k ≤ nand.talliedBelow opts m :=
  Nat.count_monotone _ le

theorem blockAt_succ : nand.blockAt opts k + nand.erasesize = nand.blockAt opts (k + 1) := by
  rw [blockAt, blockAt, Nat.succ_mul, Nat.add_assoc]

theorem blockAt_inj {j : Nat} (same : nand.blockAt opts k = nand.blockAt opts j) : k = j :=
  Nat.eq_of_mul_eq_mul_right nand.erasesize_pos (Nat.add_left_cancel same)

theorem goodBlock_iff (inside : nand.blockAt opts k ≤ nand.size) :
    nand.GoodBlock opts k ↔ ¬0 < nand.mtdBlockIsbad (nand.blockAt opts k) := by
  rw [GoodBlock, mtdBlockIsbad, if_neg (Nat.not_lt.mpr inside)]
  cases nand.isbad (nand.blockAt opts k) with
  | false => exact iff_of_true rfl (by decide)
  | true => exact iff_of_false (by decide) (not_not.mpr (by decide))

variable {addr : Nat} {result : Int}

theorem mem_eraseBlock {a : Nat} :
    EraseCall.erase addr result ∈ nand.eraseBlock oobavail opts outcome a ↔
      addr = a ∧ result = nand.mtdErase outcome a := by
  unfold eraseBlock
  dsimp only
  split
  · simp
  · split
    · simp
    · simp

theorem eraseLoop_out {n : Nat} (more : nand.talliedBelow opts k < blocks)
    (out : ¬nand.InReach opts k) (same : n = nand.talliedBelow opts k) :
    (nand.eraseLoop oobavail opts outcome blocks (nand.blockAt opts k) n).ret ≠ 0 ∧
      (nand.eraseLoop oobavail opts outcome blocks (nand.blockAt opts k) n).calls = [] := by
  rw [eraseLoop, if_pos (same ▸ more)]
  split
  · exact ⟨by decide, rfl⟩
  · next within =>
    have beyond : nand.size < nand.blockAt opts k := by
      by_contra inside
      exact out ⟨Nat.not_lt.mp inside, by omega⟩
    rw [if_pos beyond]
    exact ⟨by decide, rfl⟩

theorem eraseLoop_turn (more : nand.talliedBelow opts k < blocks) (reach : nand.InReach opts k) :
    nand.eraseLoop oobavail opts outcome blocks (nand.blockAt opts k)
        (nand.talliedBelow opts k) =
      (nand.eraseLoop oobavail opts outcome blocks (nand.blockAt opts (k + 1))
        (nand.talliedBelow opts (k + 1))).after
          (if nand.GoodBlock opts k then
            nand.eraseBlock oobavail opts outcome (nand.blockAt opts k)
          else []) := by
  have within : ¬(opts.lim ≠ 0 ∧ opts.offset + opts.lim ≤ nand.blockAt opts k) := by
    have := reach.2
    omega
  rw [eraseLoop, if_pos more, if_neg within, if_neg (Nat.not_lt.mpr reach.1), blockAt_succ,
    talliedBelow_succ]
  by_cases good : nand.GoodBlock opts k
  · rw [if_neg ((goodBlock_iff reach.1).mp good), if_pos good,
      if_pos (show nand.Tallied opts k from fun _ => good)]
  · rw [if_pos (not_not.mp (mt (goodBlock_iff reach.1).mpr good)), if_neg good]
    have counts : nand.Tallied opts k ↔ ¬opts.spread = true :=
      ⟨fun all spread => good (all spread), fun all spread => absurd spread all⟩
    simp only [counts, ite_not]
    split
    · rfl
    · rfl

variable (nand opts blocks k) in
/-- From a block on there are so many blocks in reach. -/
def ReachesFrom : Prop :=
  ∃ m, k ≤ m ∧ nand.talliedBelow opts m = blocks ∧ ∀ j, k ≤ j → j < m → nand.InReach opts j

variable (nand opts outcome blocks k) in
/-- A block that is to be erased, with those from a block up to it in reach. -/
def ErasedFrom (addr : Nat) (result : Int) : Prop :=
  ∃ j, k ≤ j ∧ addr = nand.blockAt opts j ∧ result = nand.mtdErase outcome addr ∧
    nand.ToErase opts blocks j ∧ ∀ i, k ≤ i → i ≤ j → nand.InReach opts i

theorem reachesFrom_succ (more : nand.talliedBelow opts k < blocks) (reach : nand.InReach opts k) :
    nand.ReachesFrom opts blocks (k + 1) ↔ nand.ReachesFrom opts blocks k := by
  constructor
  · rintro ⟨m, behind, all, reached⟩
    refine ⟨m, by omega, all, fun j from_k before => ?_⟩
    rcases Nat.eq_or_lt_of_le from_k with rfl | later
    · exact reach
    · exact reached j later before
  · rintro ⟨m, from_k, all, reached⟩
    have later : k ≠ m := by
      rintro rfl
      omega
    exact ⟨m, by omega, all, fun j behind before => reached j (by omega) before⟩

theorem not_reachesFrom (more : nand.talliedBelow opts k < blocks) (out : ¬nand.InReach opts k) :
    ¬nand.ReachesFrom opts blocks k := by
  rintro ⟨m, from_k, all, reached⟩
  have later : k ≠ m := by
    rintro rfl
    omega
  exact out (reached k (Nat.le_refl k) (by omega))

theorem mem_turn :
    EraseCall.erase addr result ∈ (if nand.GoodBlock opts k then
        nand.eraseBlock oobavail opts outcome (nand.blockAt opts k) else []) ↔
      nand.GoodBlock opts k ∧ addr = nand.blockAt opts k ∧ result = nand.mtdErase outcome addr := by
  by_cases good : nand.GoodBlock opts k
  · rw [if_pos good, mem_eraseBlock, and_iff_right good]
    exact and_congr_right fun same => by rw [same]
  · rw [if_neg good]
    exact iff_of_false List.not_mem_nil fun all => good all.1

theorem erasedFrom_succ (more : nand.talliedBelow opts k < blocks) (reach : nand.InReach opts k) :
    ((nand.GoodBlock opts k ∧ addr = nand.blockAt opts k ∧ result = nand.mtdErase outcome addr) ∨
      nand.ErasedFrom opts outcome blocks (k + 1) addr result) ↔
        nand.ErasedFrom opts outcome blocks k addr result := by
  constructor
  · rintro (⟨good, same, value⟩ | ⟨j, behind, same, value, wanted, reached⟩)
    · refine ⟨k, Nat.le_refl k, same, value, ⟨good, more⟩, fun i low high => ?_⟩
      rwa [Nat.le_antisymm high low]
    · refine ⟨j, by omega, same, value, wanted, fun i low high => ?_⟩
      rcases Nat.eq_or_lt_of_le low with rfl | later
      · exact reach
      · exact reached i later high
  · rintro ⟨j, from_k, same, value, wanted, reached⟩
    rcases Nat.eq_or_lt_of_le from_k with rfl | later
    · exact .inl ⟨wanted.1, same, value⟩
    · exact .inr ⟨j, later, same, value, wanted, fun i low => reached i (by omega)⟩

/-- The loop, from any block on: whether it gets to the end, and what it erases. -/
theorem eraseLoop_spec (low : nand.talliedBelow opts k ≤ blocks) :
    ((nand.eraseLoop oobavail opts outcome blocks (nand.blockAt opts k)
        (nand.talliedBelow opts k)).ret = 0 ↔ nand.ReachesFrom opts blocks k) ∧
    ∀ addr result, .erase addr result ∈ (nand.eraseLoop oobavail opts outcome blocks
        (nand.blockAt opts k) (nand.talliedBelow opts k)).calls ↔
      nand.ErasedFrom opts outcome blocks k addr result := by
  induction rest : nand.size + 1 - nand.blockAt opts k using Nat.strong_induction_on
    generalizing k with
  | _ rest' ih =>
    by_cases more : nand.talliedBelow opts k < blocks
    · by_cases reach : nand.InReach opts k
      · have further := @blockAt_succ nand opts k
        have positive := nand.erasesize_pos
        have inside := reach.1
        have low' : nand.talliedBelow opts (k + 1) ≤ blocks := by
          rw [talliedBelow_succ]
          split <;> omega
        obtain ⟨returns, erases⟩ := @ih (nand.size + 1 - nand.blockAt opts (k + 1)) (by omega)
          (k + 1) low' rfl
        rw [eraseLoop_turn more reach]
        refine ⟨returns.trans (reachesFrom_succ more reach), fun addr result => ?_⟩
        exact List.mem_append.trans
          ((or_congr mem_turn (erases addr result)).trans (erasedFrom_succ more reach))
      · obtain ⟨failed, none⟩ := @eraseLoop_out nand oobavail opts outcome blocks k _ more reach rfl
        refine ⟨iff_of_false failed (not_reachesFrom more reach), fun addr result => ?_⟩
        rw [none]
        refine iff_of_false List.not_mem_nil ?_
        rintro ⟨j, from_k, -, -, -, reached⟩
        exact reach (reached k (Nat.le_refl k) from_k)
    · rw [eraseLoop, if_neg more]
      constructor
      · exact iff_of_true rfl ⟨k, Nat.le_refl k, by omega, fun j from_k before => by omega⟩
      · intro addr result
        refine iff_of_false List.not_mem_nil ?_
        rintro ⟨j, from_k, -, -, ⟨-, fewer⟩, -⟩
        have := @talliedBelow_mono nand opts k j from_k
        omega

/-! ## What is erased -/

/-- What a success says, and that nothing else is erased. -/
structure ErasesRight (nand : NandInfo) (oobavail : Nat) (opts : EraseOptions)
    (outcome : Nat → Int) : Prop where
  complete : (nand.nandEraseOpts oobavail opts outcome).ret = 0 →
    ∀ k, nand.ToErase opts (nand.blocksAsked opts) k →
      .erase (nand.blockAt opts k) 0 ∈ (nand.nandEraseOpts oobavail opts outcome).calls
  only : ∀ addr result, .erase addr result ∈ (nand.nandEraseOpts oobavail opts outcome).calls →
    (∃ k, addr = nand.blockAt opts k ∧ nand.ToErase opts (nand.blocksAsked opts) k) ∧
      (opts.lim ≠ 0 → addr < opts.offset + opts.lim)

theorem nandEraseOpts_unaligned (unaligned : nand.blockOffset opts.offset ≠ 0) :
    nand.nandEraseOpts oobavail opts outcome = ⟨-1, []⟩ := by
  rw [nandEraseOpts, if_pos unaligned]

theorem nandEraseOpts_spec (aligned : nand.blockOffset opts.offset = 0) :
    ((nand.nandEraseOpts oobavail opts outcome).ret = 0 ↔
      nand.Reaches opts (nand.blocksAsked opts % 2 ^ 32)) ∧
    ∀ addr result, .erase addr result ∈ (nand.nandEraseOpts oobavail opts outcome).calls ↔
      ∃ k, addr = nand.blockAt opts k ∧ result = nand.mtdErase outcome addr ∧
        nand.ToErase opts (nand.blocksAsked opts % 2 ^ 32) k ∧ ∀ i ≤ k, nand.InReach opts i := by
  have start : nand.nandEraseOpts oobavail opts outcome =
      nand.eraseLoop oobavail opts outcome (nand.blocksAsked opts % 2 ^ 32)
        (nand.blockAt opts 0) (nand.talliedBelow opts 0) := by
    rw [nandEraseOpts, if_neg (not_not.mpr aligned), blockAt, Nat.zero_mul, Nat.add_zero]
    rfl
  obtain ⟨returns, erases⟩ := @eraseLoop_spec nand oobavail opts outcome
    (nand.blocksAsked opts % 2 ^ 32) 0 (Nat.zero_le _)
  simp only [← start, ReachesFrom, ErasedFrom, Nat.zero_le, true_and, forall_const]
    at returns erases
  exact ⟨returns, erases⟩

/-- For every device, options and outcomes of the erase operations, the function ends and erases
only what is asked for, below the limit, and it is right with 0 if and only if the blocks that 32
bits count are not all in reach, or all that are to be erased are among them and are erased. -/
theorem erasesRight_iff (nand : NandInfo) (oobavail : Nat) (opts : EraseOptions)
    (outcome : Nat → Int) :
    nand.ErasesRight oobavail opts outcome ↔
      (nand.blockOffset opts.offset = 0 → nand.Reaches opts (nand.blocksAsked opts % 2 ^ 32) →
        ∀ k, nand.ToErase opts (nand.blocksAsked opts) k →
          nand.ToErase opts (nand.blocksAsked opts % 2 ^ 32) k ∧
            nand.mtdErase outcome (nand.blockAt opts k) = 0) := by
  by_cases aligned : nand.blockOffset opts.offset = 0
  swap
  · have refused := @nandEraseOpts_unaligned nand oobavail opts outcome aligned
    refine iff_of_true ⟨fun success => ?_, fun addr result member => ?_⟩
      fun even => absurd even aligned
    · rw [refused] at success
      cases success
    · rw [refused] at member
      cases member
  obtain ⟨returns, erases⟩ := @nandEraseOpts_spec nand oobavail opts outcome aligned
  have fewer := Nat.mod_le (nand.blocksAsked opts) (2 ^ 32)
  constructor
  · intro right _ reaches k wanted
    obtain ⟨j, same, value, counted, -⟩ :=
      (erases _ _).mp (right.complete (returns.mpr reaches) k wanted)
    rw [blockAt_inj same] at value ⊢
    exact ⟨counted, value.symm⟩
  · intro all
    constructor
    · intro success k wanted
      obtain ⟨counted, erased⟩ := all aligned (returns.mp success) k wanted
      obtain ⟨m, total, reached⟩ := returns.mp success
      refine (erases _ _).mpr ⟨k, rfl, erased.symm, counted, fun i before => ?_⟩
      have inside : k < m := by
        by_contra beyond
        have := @talliedBelow_mono nand opts m k (by omega)
        have := counted.2
        omega
      exact reached i (by omega)
    · intro addr result member
      obtain ⟨j, same, -, ⟨good, counted⟩, reached⟩ := (erases _ _).mp member
      refine ⟨⟨j, same, good, by omega⟩, fun limited => ?_⟩
      rw [same]
      exact (reached j (Nat.le_refl j)).2.resolve_left limited

end Erase

def oneBlock : NandInfo where
  erasesize := 131072
  writesize := 2048
  size := 131072
  isbad _ := false
  trimffs := false
  erasesize_pow := ⟨17, by decide, by decide⟩
  writesize_pow := ⟨11, by decide⟩
  pages := by decide
  blocks := Nat.dvd_refl _

/-- The erase of its block fails, and 0 is returned. -/
theorem oneBlock_not_erased :
    ¬oneBlock.ErasesRight 0 ⟨131072, 0, false, false, 0⟩ fun _ => -eio := by
  rintro ⟨complete, -⟩
  obtain ⟨returns, erases⟩ := @nandEraseOpts_spec oneBlock 0 ⟨131072, 0, false, false, 0⟩
    (fun _ => -eio) rfl
  have reaches : oneBlock.Reaches ⟨131072, 0, false, false, 0⟩ 1 := by
    refine ⟨1, rfl, fun k first => ?_⟩
    obtain rfl : k = 0 := by omega
    exact ⟨by decide, .inl rfl⟩
  obtain ⟨k, -, value, -⟩ :=
    (erases _ _).mp (complete (returns.mpr reaches) 0 ⟨rfl, Nat.one_pos⟩)
  exact absurd value (by decide)

end NandInfo

end HrppBoot.Flash
