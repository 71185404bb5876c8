import Mathlib.Data.UInt

/-!
# Logical memory blocks

`lmb_reserve` and `lmb_free` keep the reserved memory in a table of regions, of which the first
`cnt` entries count. The entries behind them stay in the array, and `lmb_add_region` looks at them
when the table is empty. A loop that runs off the array has the result `none`. `phys_addr_t` and
`unsigned long` have 32 bits. The table of the memory itself is kept by the same functions.
-/

namespace HrppBoot.Lmb

def maxLmbRegions : Nat := 8

structure LmbProperty where
  base : UInt32
  size : UInt32
  deriving DecidableEq, Repr

structure LmbRegion where
  cnt : Nat
  region : Nat → LmbProperty

/-- `cnt - 1`, as an `unsigned long`. -/
def LmbRegion.last (rgn : LmbRegion) : Nat := if rgn.cnt = 0 then 2 ^ 32 - 1 else rgn.cnt - 1

def lmbAddrsAdjacent (base1 size1 base2 size2 : UInt32) : Int :=
  if base2 = base1 + size1 then 1
  else if base1 = base2 + size2 then -1
  else 0

def lmbRegionsAdjacent (rgn : LmbRegion) (r1 r2 : Nat) : Int :=
  lmbAddrsAdjacent (rgn.region r1).base (rgn.region r1).size (rgn.region r2).base
    (rgn.region r2).size

/-- The loop of `lmb_remove_region`, for the turns that are left. -/
def moveDown (region : Nat → LmbProperty) (i : Nat) : Nat → Nat → LmbProperty
  | 0 => region
  | turns + 1 => moveDown (Function.update region i (region (i + 1))) (i + 1) turns

def lmbRemoveRegion (rgn : LmbRegion) (r : Nat) : Option LmbRegion :=
  if rgn.cnt = 0 then none
  else some ⟨rgn.cnt - 1, moveDown rgn.region r (rgn.last - r)⟩

def lmbCoalesceRegions (rgn : LmbRegion) (r1 r2 : Nat) : Option LmbRegion :=
  let joined : LmbProperty :=
    ⟨(rgn.region r1).base, (rgn.region r1).size + (rgn.region r2).size⟩
  lmbRemoveRegion { rgn with region := Function.update rgn.region r1 joined } r2

/-- `reserved`, as `lmb_init` leaves it: a dummy entry. The others are as they were. -/
def lmbInit (before : Nat → LmbProperty) : LmbRegion where
  cnt := 1
  region := Function.update before 0 ⟨0, 0⟩

/-- How the first loop of `lmb_add_region` ends. -/
inductive Neighbour where
  | same
  | joins (i : Nat) (joined : LmbProperty)
  | none
  deriving DecidableEq, Repr

/-- The first loop of `lmb_add_region`, for the turns that are left. -/
def findNeighbour (region : Nat → LmbProperty) (base size : UInt32) (i : Nat) : Nat → Neighbour
  | 0 => .none
  | turns + 1 =>
    let rgn := region i
    if rgn.base = base ∧ rgn.size = size then .same
    else
      let adjacent := lmbAddrsAdjacent base size rgn.base rgn.size
      if 0 < adjacent then .joins i ⟨rgn.base - size, rgn.size + size⟩
      else if adjacent < 0 then .joins i ⟨rgn.base, rgn.size + size⟩
      else findNeighbour region base size (i + 1) turns

/-- The second loop of `lmb_add_region`, from the entry before an index down. -/
def moveUp (region : Nat → LmbProperty) (base size : UInt32) : Nat → Nat → LmbProperty
  | 0 => region
  | i + 1 =>
    if base < (region i).base then moveUp (Function.update region (i + 1) (region i)) base size i
    else Function.update region (i + 1) ⟨base, size⟩

/-- The end of `lmb_add_region`: the range becomes an entry of its own. -/
def insertRegion (rgn : LmbRegion) (base size : UInt32) : Int × LmbRegion :=
  if maxLmbRegions ≤ rgn.cnt then (-1, rgn)
  else
    let moved := moveUp rgn.region base size rgn.cnt
    let region := if base < (moved 0).base then Function.update moved 0 ⟨base, size⟩ else moved
    (0, ⟨rgn.cnt + 1, region⟩)

def lmbAddRegion (rgn : LmbRegion) (base size : UInt32) : Option (Int × LmbRegion) :=
  if rgn.cnt = 1 ∧ (rgn.region 0).size = 0 then
    some (0, { rgn with region := Function.update rgn.region 0 ⟨base, size⟩ })
  else
    match findNeighbour rgn.region base size 0 rgn.cnt with
    | .same => some (0, rgn)
    | .joins i joined =>
      let rgn := { rgn with region := Function.update rgn.region i joined }
      if i < rgn.last ∧ lmbRegionsAdjacent rgn i (i + 1) ≠ 0 then
        (lmbCoalesceRegions rgn i (i + 1)).map fun rgn => (2, rgn)
      else some (1, rgn)
    | .none =>
      if rgn.cnt < rgn.last ∧ lmbRegionsAdjacent rgn rgn.cnt (rgn.cnt + 1) ≠ 0 then
        (lmbCoalesceRegions rgn rgn.cnt (rgn.cnt + 1)).map fun rgn => (1, rgn)
      else some (insertRegion rgn base size)

def lmbReserve (rgn : LmbRegion) (base size : UInt32) : Option (Int × LmbRegion) :=
  lmbAddRegion rgn base size

/-- The loop of `lmb_free`: the entry that holds the range, for the turns that are left. -/
def findHolder (region : Nat → LmbProperty) (base last : UInt32) (i : Nat) : Nat → Option Nat
  | 0 => none
  | turns + 1 =>
    if (region i).base ≤ base ∧ last ≤ (region i).base + (region i).size then some i
    else findHolder region base last (i + 1) turns

def lmbFree (rgn : LmbRegion) (base size : UInt32) : Option (Int × LmbRegion) :=
  let last := base + size
  match findHolder rgn.region base last 0 rgn.cnt with
  | none => some (-1, rgn)
  | some i =>
    let rgnbegin := (rgn.region i).base
    let rgnend := rgnbegin + (rgn.region i).size
    if rgnbegin = base ∧ rgnend = last then (lmbRemoveRegion rgn i).map fun rgn => (0, rgn)
    else if rgnbegin = base then
      some (0, { rgn with
        region := Function.update rgn.region i ⟨last, (rgn.region i).size - size⟩ })
    else if rgnend = last then
      some (0, { rgn with
        region := Function.update rgn.region i ⟨rgnbegin, (rgn.region i).size - size⟩ })
    else
      lmbAddRegion { rgn with region := Function.update rgn.region i ⟨rgnbegin, base - rgnbegin⟩ }
        last (rgnend - last)

def lmbIsReserved (rgn : LmbRegion) (addr : UInt32) : Bool :=
  (List.range rgn.cnt).any fun i =>
    (rgn.region i).base ≤ addr ∧ addr ≤ (rgn.region i).base + (rgn.region i).size - 1

/-! ## Runs -/

/-- A call. -/
inductive Call where
  /-- `lmb_reserve` -/
  | reserve (base size : UInt32)
  /-- `lmb_free` -/
  | free (base size : UInt32)
  deriving DecidableEq, Repr

/-- What a call does. -/
def Call.run (call : Call) (rgn : LmbRegion) : Option (Int × LmbRegion) :=
  match call with
  | .reserve base size => lmbReserve rgn base size
  | .free base size => lmbFree rgn base size

/-- How a sequence of calls ends. -/
inductive RunEnd where
  | done (rgn : LmbRegion)
  | failed
  | wild

/-- The calls since `lmb_init`, the last one first. -/
def lmbRun (before : Nat → LmbProperty) : List Call → RunEnd
  | [] => .done (lmbInit before)
  | call :: earlier =>
    match lmbRun before earlier with
    | .done rgn =>
      match call.run rgn with
      | none => .wild
      | some (ret, rgn) => if ret = -1 then .failed else .done rgn
    | other => other

end HrppBoot.Lmb
