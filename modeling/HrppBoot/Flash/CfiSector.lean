import Mathlib.Order.Basic

/-!
# The sector of an address

`find_sector` of `drivers/mtd/cfi_flash.c` begins at the sector it found last and walks forwards,
then backwards. What it finds depends on the address and the start table alone, and not on the calls
before it. Every read of the table is recorded.
-/

namespace HrppBoot.Flash

/-- `flash_info_t`, as far as `find_sector` reads it. -/
structure SectorTable where
  sectorCount : UInt16
  /-- `start`, and what lies behind it. -/
  start : Nat → Nat

namespace SectorTable

variable (info : SectorTable) (addr : Nat)

/-- `sector_count - 1`, compared with a `flash_sect_t`. -/
def lastSector : Nat := (info.sectorCount.toUInt32 - 1).toNat

/-- The loop that walks forwards: the sectors whose start it reads, and where it stops. -/
def walkForwards (sector : Nat) : List Nat × Nat :=
  if info.start sector < addr ∧ sector < info.lastSector then
    let rest := walkForwards (sector + 1)
    (sector :: rest.1, rest.2)
  else ([sector], sector)
termination_by info.lastSector - sector
decreasing_by exact Nat.sub_succ_lt_self _ _ (And.right ‹_›)

def walkBackwards : Nat → List Nat × Nat
  | 0 => ([0], 0)
  | sector + 1 =>
    if info.start (sector + 1) > addr then
      let rest := walkBackwards sector
      ((sector + 1) :: rest.1, rest.2)
    else ([sector + 1], sector + 1)

end SectorTable

/-- What `find_sector` remembers. -/
structure Remembered where
  savedSector : Nat
  savedInfo : Nat
  deriving DecidableEq

def neverCalled : Remembered where
  savedSector := 0
  savedInfo := 0

/-- A call: the address of the bank, its contents at that time, and the address that is looked
for. -/
structure SectorCall where
  /-- `info` -/
  pointer : Nat
  info : SectorTable
  addr : Nat

namespace SectorCall

variable (call : SectorCall)

/-- The sector at which the search begins. -/
def firstSector (saved : Remembered) : Nat :=
  if call.pointer ≠ saved.savedInfo ∨ saved.savedSector ≥ call.info.sectorCount.toNat then 0
  else saved.savedSector

/-- `find_sector`: the sectors whose start it reads, and what it returns. -/
def findSector (saved : Remembered) : List Nat × Nat :=
  let forwards := call.info.walkForwards call.addr (call.firstSector saved)
  let backwards := call.info.walkBackwards call.addr forwards.2
  (forwards.1 ++ backwards.1, backwards.2)

def remember (saved : Remembered) : Remembered where
  savedSector := (call.findSector saved).2
  savedInfo := call.pointer

end SectorCall

def rememberAll (calls : List SectorCall) : Remembered :=
  calls.foldl (fun saved call => call.remember saved) neverCalled

/-! ## The sector -/

namespace SectorTable

variable {info : SectorTable} {addr : Nat}

/-- A bank with a start table that increases. -/
structure Increasing (info : SectorTable) : Prop where
  some : 0 < info.sectorCount.toNat
  starts : ∀ i j, i < j → j < info.sectorCount.toNat → info.start i < info.start j

/-- The address is in the sector: it is not before its start, and before that of the next one, if
there is a next one. -/
def InSector (info : SectorTable) (addr sector : Nat) : Prop :=
  sector < info.sectorCount.toNat ∧ info.start sector ≤ addr ∧
    (sector + 1 < info.sectorCount.toNat → addr < info.start (sector + 1))

theorem InSector.unique (increasing : info.Increasing) {s t : Nat} (first : info.InSector addr s)
    (second : info.InSector addr t) : s = t := by
  have before : ∀ i j, info.InSector addr i → info.InSector addr j → ¬i < j := by
    rintro i j ⟨-, -, next⟩ ⟨inside, low, -⟩ less
    have bound := next (by omega)
    rcases Nat.lt_or_ge (i + 1) j with apart | near
    · have := increasing.starts (i + 1) j apart inside
      omega
    · obtain rfl : i + 1 = j := by omega
      omega
  have := before s t first second
  have := before t s second first
  omega

theorem Increasing.lastSector (increasing : info.Increasing) :
    info.lastSector = info.sectorCount.toNat - 1 := by
  have some := increasing.some
  have small := info.sectorCount.toNat_lt
  rw [SectorTable.lastSector, UInt32.toNat_sub_of_le _ _ (UInt32.le_iff_toNat_le.mpr ?_)]
  · rfl
  · exact some

theorem Increasing.walkForwards_inside (increasing : info.Increasing) {sector : Nat}
    (inside : sector < info.sectorCount.toNat) :
    (∀ i ∈ (info.walkForwards addr sector).1, i < info.sectorCount.toNat) ∧
      (info.walkForwards addr sector).2 < info.sectorCount.toNat ∧
      ((info.walkForwards addr sector).2 + 1 < info.sectorCount.toNat →
        addr ≤ info.start (info.walkForwards addr sector).2) := by
  have last := increasing.lastSector
  induction sector using SectorTable.walkForwards.induct info addr with
  | case1 sector goes ih =>
    obtain ⟨reads, found, stops⟩ := ih (by omega)
    rw [SectorTable.walkForwards, if_pos goes]
    exact ⟨List.forall_mem_cons.mpr ⟨inside, reads⟩, found, stops⟩
  | case2 sector ends =>
    rw [SectorTable.walkForwards, if_neg ends]
    refine ⟨List.forall_mem_singleton.mpr inside, inside, fun more => ?_⟩
    dsimp only at more ⊢
    omega

theorem walkBackwards_inSector {sector : Nat}
    (inside : sector < info.sectorCount.toNat) (above : info.start 0 ≤ addr)
    (behind : sector + 1 < info.sectorCount.toNat → addr < info.start (sector + 1)) :
    (∀ i ∈ (info.walkBackwards addr sector).1, i < info.sectorCount.toNat) ∧
      info.InSector addr (info.walkBackwards addr sector).2 := by
  induction sector with
  | zero => exact ⟨List.forall_mem_singleton.mpr inside, inside, above, behind⟩
  | succ sector ih =>
    rw [SectorTable.walkBackwards]
    by_cases beyond : info.start (sector + 1) > addr
    · obtain ⟨reads, found⟩ := ih (by omega) (fun _ => beyond)
      rw [if_pos beyond]
      exact ⟨List.forall_mem_cons.mpr ⟨inside, reads⟩, found⟩
    · rw [if_neg beyond]
      exact ⟨List.forall_mem_singleton.mpr inside, inside, Nat.not_lt.mp beyond, behind⟩

end SectorTable

namespace SectorCall

variable {call : SectorCall}

theorem firstSector_lt (some : 0 < call.info.sectorCount.toNat) (saved : Remembered) :
    call.firstSector saved < call.info.sectorCount.toNat := by
  unfold firstSector
  split <;> omega

theorem findSector_inSector (increasing : call.info.Increasing)
    (above : call.info.start 0 ≤ call.addr) (saved : Remembered) :
    (∀ i ∈ (call.findSector saved).1, i < call.info.sectorCount.toNat) ∧
      call.info.InSector call.addr (call.findSector saved).2 := by
  obtain ⟨forwards, found, stops⟩ :=
    @SectorTable.Increasing.walkForwards_inside _ call.addr increasing _
      (firstSector_lt increasing.some saved)
  have behind (more : (call.info.walkForwards call.addr (call.firstSector saved)).2 + 1 <
      call.info.sectorCount.toNat) :
      call.addr < call.info.start
        ((call.info.walkForwards call.addr (call.firstSector saved)).2 + 1) :=
    Nat.lt_of_le_of_lt (stops more) (increasing.starts _ _ (Nat.lt_succ_self _) more)
  obtain ⟨backwards, inSector⟩ := SectorTable.walkBackwards_inSector found above behind
  exact ⟨List.forall_mem_append.mpr ⟨forwards, backwards⟩, inSector⟩

/-- After any calls `find_sector` reads only starts of the bank and returns the one sector in which
the address is; what is remembered makes no difference. -/
theorem find_sector_after_calls (calls : List SectorCall) (call : SectorCall)
    (increasing : call.info.Increasing) (above : call.info.start 0 ≤ call.addr) :
    (∀ i ∈ (call.findSector (rememberAll calls)).1, i < call.info.sectorCount.toNat) ∧
      (∀ sector, call.info.InSector call.addr sector ↔
        sector = (call.findSector (rememberAll calls)).2) ∧
      ∀ saved, (call.findSector saved).2 = (call.findSector (rememberAll calls)).2 := by
  have found := findSector_inSector increasing above (rememberAll calls)
  refine ⟨found.1, fun sector => ⟨fun other => other.unique increasing found.2, ?_⟩, ?_⟩
  · rintro rfl
    exact found.2
  · intro saved
    exact (findSector_inSector increasing above saved).2.unique increasing found.2

def threeSectors : SectorTable where
  sectorCount := 3
  start := fun s => 0x1000 * s

theorem threeSectors_increasing : threeSectors.Increasing :=
  ⟨by decide, fun i j less _ => by simpa [threeSectors] using less⟩

/-- After a search in the last sector an address in the second one is found. -/
theorem find_sector_after_last :
    threeSectors.Increasing ∧ threeSectors.start 0 ≤ 0x1800 ∧
      (SectorCall.findSector ⟨1, threeSectors, 0x1800⟩
        (rememberAll [⟨1, threeSectors, 0x2000⟩])).2 = 1 := by
  have found := find_sector_after_calls [⟨1, threeSectors, 0x2000⟩] ⟨1, threeSectors, 0x1800⟩
    threeSectors_increasing (by decide)
  refine ⟨threeSectors_increasing, by decide, ((found.2.1 1).mp ?_).symm⟩
  exact ⟨by decide, by decide, by decide⟩

end SectorCall

end HrppBoot.Flash
