import HrppBoot.Lib.Memory
import Mathlib.Data.Int.Bitwise
import Mathlib.Tactic.Ring

/-!
# The device below the file system

`ext4fs_devread` reads bytes from a sector of the partition on. It splits them into the rest of a
sector, whole sectors and the start of a sector, each by a read of the device that may fail, and
works with `int` for the bytes and `lbaint_t` (32 bits) for the sectors.
-/

namespace HrppBoot.Ext4

open ByteMemory

/-! ## Conversions -/

/-- A value as `int`. -/
def toInt (x : Int) : Int := x.bmod (2 ^ 32)

/-- A value as `unsigned`, `size_t` or `lbaint_t`. -/
def toUnsigned (x : Int) : Nat := (x % 2 ^ 32).toNat

theorem toInt_of_lt {x : Int} (low : -2 ^ 31 ≤ x) (high : x < 2 ^ 31) : toInt x = x := by
  unfold toInt
  rw [Int.bmod_def]
  omega

theorem toUnsigned_natCast {n : Nat} (fits : n < 2 ^ 32) : toUnsigned n = n := by
  unfold toUnsigned
  omega

theorem toUnsigned_toInt (x : Int) : toUnsigned (toInt x) = toUnsigned x := by
  unfold toUnsigned toInt
  rw [Int.bmod_def]
  omega

theorem toInt_toInt_sub (x y : Int) : toInt (toInt x - y) = toInt (x - y) := by
  unfold toInt
  rw [Int.bmod_sub_bmod]

theorem toInt_sub_toInt (x y : Int) : toInt (x - toInt y) = toInt (x - y) := by
  unfold toInt
  rw [Int.sub_bmod_bmod]

/-! ## Reading -/

/-- The device and the partition on it. -/
structure BlockDev where
  log2blksz : Nat
  start : Nat
  size : Nat
  sector : Nat → Nat → UInt8
  /-- Whether the n-th read, of some sectors from a sector on, succeeds. -/
  answers : Nat → Nat → Nat → Bool

def BlockDev.blksz (dev : BlockDev) : Nat := 2 ^ dev.log2blksz

/-- The bytes from a sector on. -/
def BlockDev.bytes (dev : BlockDev) (start offset : Nat) : UInt8 :=
  dev.sector (start + offset / dev.blksz) (offset % dev.blksz)

/-- The memory, and how many reads there were. -/
structure ReadState where
  mem : Memory
  reads : Nat

/-- `block_read`, of some sectors into a buffer; without a result when it fails. -/
def blockRead (dev : BlockDev) (start count : Nat) (s : ReadState) : Bool × ReadState :=
  (dev.answers s.reads start count, { s with reads := s.reads + 1 })

/-- The part of `ext4fs_devread` from the start of a sector on. A read of less than a sector is not
checked: when it fails the bytes are whatever was in its buffer. -/
def devreadAligned (dev : BlockDev) (stale : Nat → UInt8) (sector : Nat) (byteLen : Int) (buf : Nat)
    (s : ReadState) : Option ReadState :=
  if byteLen = 0 then some s
  else
    let first := toUnsigned (dev.start + sector)
    let blockLen := toUnsigned byteLen / dev.blksz * dev.blksz
    if blockLen = 0 then
      let (ok, s) := blockRead dev first 1 s
      let sector := if ok then dev.bytes first else stale
      some { s with mem := s.mem.place buf (toUnsigned byteLen) sector }
    else
      let (ok, s) := blockRead dev first (blockLen / dev.blksz) s
      if !ok then none
      else
        let s := { s with mem := s.mem.place buf blockLen (dev.bytes first) }
        let byteLen := toInt (byteLen - blockLen)
        if byteLen = 0 then some s
        else
          let last := toUnsigned (dev.start + toUnsigned (sector + (blockLen / dev.blksz : Nat)))
          let (ok, s) := blockRead dev last 1 s
          if !ok then none
          else some { s with mem := s.mem.place (buf + blockLen) (toUnsigned byteLen) (dev.bytes last) }

/-- `ext4fs_devread`. -/
def devread (dev : BlockDev) (stale : Nat → UInt8) (sector : Nat) (byteOffset byteLen : Int)
    (buf : Nat) (s : ReadState) : Option ReadState :=
  if dev.size ≤ toUnsigned (sector + toInt (byteOffset + byteLen - 1) / dev.blksz) then none
  else
    let sector := toUnsigned (sector + byteOffset / dev.blksz)
    let byteOffset := byteOffset % dev.blksz
    if byteOffset ≠ 0 then
      let first := toUnsigned (dev.start + sector)
      let (ok, s) := blockRead dev first 1 s
      if !ok then none
      else
        let readlen := min (dev.blksz - byteOffset) byteLen
        let rest := fun j => dev.bytes first (byteOffset.toNat + j)
        devreadAligned dev stale (toUnsigned (sector + 1)) (toInt (byteLen - readlen))
          (buf + toUnsigned readlen) { s with mem := s.mem.place buf (toUnsigned readlen) rest }
    else devreadAligned dev stale sector byteLen buf s

/-! ## Requests -/

/-- A read of the device, of whose bytes some are placed in the memory. -/
structure Request where
  sector : Nat
  count : Nat
  /-- Bytes that are left out in front. -/
  skip : Nat
  buf : Nat
  length : Nat
  /-- A failure is noticed. -/
  checked : Bool

section Requests

variable (dev : BlockDev) (stale : Nat → UInt8)

def Request.place (request : Request) (mem : Memory) : Memory :=
  mem.place request.buf request.length fun j => dev.bytes request.sector (request.skip + j)

/-- A request is made. When it fails without a check the bytes are whatever was in its buffer. -/
def Request.perform (request : Request) (s : ReadState) : Option ReadState :=
  if dev.answers s.reads request.sector request.count then
    some ⟨request.place dev s.mem, s.reads + 1⟩
  else if request.checked then none
  else some ⟨s.mem.place request.buf request.length stale, s.reads + 1⟩

/-- Requests are made one after the other. -/
def perform (requests : List Request) (s : ReadState) : Option ReadState :=
  requests.foldlM (fun s request => request.perform dev stale s) s

/-- Of these requests, the first of which is the n-th, those that matter succeed. -/
def Succeed (matters : Request → Bool) : Nat → List Request → Prop
  | _, [] => True
  | n, request :: rest =>
    (matters request = true → dev.answers n request.sector request.count = true) ∧
      Succeed matters (n + 1) rest

/-- The requests for bytes from the start of a sector on. -/
def alignedRequests (sector length buf : Nat) : List Request :=
  let blocks := length / dev.blksz
  let rest := length % dev.blksz
  if length = 0 then []
  else if length < dev.blksz then [⟨sector, 1, 0, buf, length, false⟩]
  else if rest = 0 then [⟨sector, blocks, 0, buf, blocks * dev.blksz, true⟩]
  else [⟨sector, blocks, 0, buf, blocks * dev.blksz, true⟩,
    ⟨sector + blocks, 1, 0, buf + blocks * dev.blksz, rest, true⟩]

/-- The requests for bytes at an offset from a sector on: the rest of a sector, whole sectors and
the start of a sector. -/
def requests (sector offset length buf : Nat) : List Request :=
  let first := sector + offset / dev.blksz
  let skip := offset % dev.blksz
  let head := min (dev.blksz - skip) length
  if skip = 0 then alignedRequests dev first length buf
  else ⟨first, 1, skip, buf, head, true⟩ ::
    alignedRequests dev (first + 1) (length - head) (buf + head)

/-- The bytes are taken for ones outside the partition. -/
def Refused (sector offset length : Nat) : Prop :=
  dev.size ≤ toUnsigned (sector + toInt ((offset : Int) + toInt length - 1) / dev.blksz)

instance (sector offset length : Nat) : Decidable (Refused dev sector offset length) := by
  unfold Refused
  infer_instance

end Requests

section Perform

variable {dev : BlockDev} {stale : Nat → UInt8} {s t : ReadState} {request : Request}
  {rest more : List Request} {matters : Request → Bool} {n : Nat}

theorem perform_cons : perform dev stale (request :: rest) s =
    (request.perform dev stale s).bind (perform dev stale rest) := rfl

theorem succeed_append : Succeed dev matters n (rest ++ more) ↔
    Succeed dev matters n rest ∧ Succeed dev matters (n + rest.length) more := by
  induction rest generalizing n with
  | nil => simp [Succeed]
  | cons request rest ih =>
    rw [List.cons_append, Succeed, Succeed, ih, and_assoc, List.length_cons, Nat.add_assoc,
      Nat.add_comm 1]

/-- Requests that do not matter may fail. -/
theorem succeed_of_none (none : ∀ request ∈ rest, matters request = false) :
    Succeed dev matters n rest := by
  induction rest generalizing n with
  | nil => trivial
  | cons request rest ih =>
    refine ⟨fun some => ?_, ih fun other member => none other (List.mem_cons_of_mem _ member)⟩
    rw [none request List.mem_cons_self] at some
    cases some

/-- After requests were made the checked ones have succeeded; if the others have, too, the bytes are
those of the device. -/
theorem perform_some (ran : perform dev stale rest s = some t) :
    Succeed dev (fun request => request.checked) s.reads rest ∧
      t.reads = s.reads + rest.length ∧
      (Succeed dev (fun request => !request.checked) s.reads rest →
        t.mem = rest.foldl (fun mem request => request.place dev mem) s.mem) := by
  induction rest generalizing s with
  | nil =>
    obtain rfl := Option.some.inj ran
    exact ⟨trivial, rfl, fun _ => rfl⟩
  | cons request rest ih =>
    rw [perform_cons] at ran
    obtain ⟨next, first, ran⟩ := Option.bind_eq_some_iff.mp ran
    obtain ⟨checked, reads, placed⟩ := ih ran
    unfold Request.perform at first
    split at first
    case isTrue answered =>
      obtain rfl := Option.some.inj first
      refine ⟨⟨fun _ => answered, checked⟩, ?_, fun others => placed others.2⟩
      rw [reads, List.length_cons, Nat.add_assoc, Nat.add_comm 1]
    case isFalse failed =>
      obtain ⟨unchecked, first⟩ := Option.ite_none_left_eq_some.mp first
      obtain rfl := Option.some.inj first
      refine ⟨⟨fun some => absurd some unchecked, checked⟩, ?_,
        fun others => absurd (others.1 ?_) failed⟩
      · rw [reads, List.length_cons, Nat.add_assoc, Nat.add_comm 1]
      · simpa using unchecked

theorem exists_perform (fine : Succeed dev (fun request => request.checked) s.reads rest) :
    ∃ t, perform dev stale rest s = some t := by
  induction rest generalizing s with
  | nil => exact ⟨s, rfl⟩
  | cons request rest ih =>
    rw [perform_cons]
    unfold Request.perform
    split
    case isTrue => exact ih fine.2
    case isFalse failed =>
      rw [if_neg fun checked => failed (fine.1 checked)]
      exact ih fine.2

end Perform

/-! ## What is read -/

section Spec

variable {dev : BlockDev} {stale : Nat → UInt8} {s t : ReadState} {sector offset length buf : Nat}

theorem blksz_pos : 0 < dev.blksz := Nat.two_pow_pos _

theorem blksz_le (small : dev.log2blksz ≤ 16) : dev.blksz ≤ 2 ^ 16 :=
  Nat.pow_le_pow_right (by decide) small

theorem bytes_skip (start count offset : Nat) :
    dev.bytes start (count * dev.blksz + offset) = dev.bytes (start + count) offset := by
  unfold BlockDev.bytes
  rw [Nat.add_comm (count * dev.blksz), Nat.add_mul_mod_self_right,
    Nat.add_mul_div_right _ _ blksz_pos, Nat.add_comm (offset / dev.blksz), Nat.add_assoc]

theorem bytes_offset (place offset j : Nat) : dev.bytes place (offset + j) =
    dev.bytes (place + offset / dev.blksz) (offset % dev.blksz + j) := by
  rw [← bytes_skip place, ← Nat.add_assoc, Nat.mul_comm, Nat.div_add_mod]

theorem bytes_behind (place offset j : Nat) :
    dev.bytes place (offset + (dev.blksz - offset % dev.blksz + j)) =
      dev.bytes (place + offset / dev.blksz + 1) j := by
  have below := Nat.mod_lt offset (@blksz_pos dev)
  have skip := @bytes_skip dev (place + offset / dev.blksz) 1 j
  rw [Nat.one_mul] at skip
  rw [bytes_offset, ← Nat.add_assoc (offset % dev.blksz), Nat.add_sub_cancel' (Nat.le_of_lt below),
    skip]

theorem behind_div (offset j : Nat) : (offset + (dev.blksz - offset % dev.blksz + j)) / dev.blksz =
    offset / dev.blksz + 1 + j / dev.blksz := by
  have below := Nat.mod_lt offset (@blksz_pos dev)
  have quotient := Nat.div_add_mod offset dev.blksz
  have split : offset + (dev.blksz - offset % dev.blksz + j) =
      j + (offset / dev.blksz + 1) * dev.blksz := by
    rw [Nat.add_mul, Nat.one_mul, Nat.mul_comm (offset / dev.blksz)]
    omega
  rw [split, Nat.add_mul_div_right _ _ blksz_pos, Nat.add_comm]

theorem blocks_add_rest (length : Nat) :
    length / dev.blksz * dev.blksz + length % dev.blksz = length := by
  rw [Nat.mul_comm]
  exact Nat.div_add_mod length dev.blksz

/-- The aligned part makes its requests. -/
theorem devreadAligned_eq (small : dev.log2blksz ≤ 16) (fits : length < 2 ^ 32)
    (inside : dev.start + sector + length / dev.blksz < 2 ^ 32) :
    devreadAligned dev stale sector (toInt length) buf s =
      perform dev stale (alignedRequests dev (dev.start + sector) length buf) s := by
  have size : toUnsigned (toInt length) = length := by
    rw [toUnsigned_toInt, toUnsigned_natCast fits]
  have sectorSmall := blksz_le small
  have first : toUnsigned (dev.start + sector : Int) = dev.start + sector := by
    exact_mod_cast toUnsigned_natCast (Nat.lt_of_le_of_lt (Nat.le_add_right _ _) inside)
  have some : toInt length = 0 ↔ length = 0 := by
    constructor
    · intro zero
      rw [← size, zero]
      rfl
    · rintro rfl
      rfl
  unfold devreadAligned alignedRequests
  simp only [some, size, first, blockRead]
  split
  case isTrue => rfl
  case isFalse positive =>
    simp only [Nat.mul_eq_zero, Nat.ne_of_gt (@blksz_pos dev), or_false,
      Nat.div_eq_zero_iff_lt blksz_pos]
    split
    case isTrue short =>
      simp only [perform_cons, Request.perform, Request.place, Nat.zero_add]
      split <;> simp [*, perform]
    case isFalse long =>
      have split := @blocks_add_rest dev length
      have less := Nat.mod_lt length (@blksz_pos dev)
      have rest : toInt (toInt length - (length / dev.blksz * dev.blksz : Nat)) =
          (length % dev.blksz : Nat) := by
        have difference : (length : Int) - (length / dev.blksz * dev.blksz : Nat) =
            (length % dev.blksz : Nat) := by omega
        rw [toInt_toInt_sub, difference, toInt_of_lt (by omega) (by omega)]
      have later : toUnsigned (sector + (length / dev.blksz : Nat)) =
          sector + length / dev.blksz := by
        exact_mod_cast toUnsigned_natCast (n := sector + length / dev.blksz) (by omega)
      have last : toUnsigned (dev.start + (sector + length / dev.blksz : Nat)) =
          dev.start + sector + length / dev.blksz := by
        rw [Nat.add_assoc]
        exact_mod_cast toUnsigned_natCast (n := dev.start + (sector + length / dev.blksz))
          (by omega)
      simp only [rest, Nat.mul_div_cancel _ (@blksz_pos dev), later, last,
        toUnsigned_natCast (Nat.lt_of_le_of_lt (Nat.mod_le length dev.blksz) fits),
        Nat.cast_eq_zero]
      by_cases answered : dev.answers s.reads (dev.start + sector) (length / dev.blksz) = true
      · by_cases whole : length % dev.blksz = 0
        · simp [Request.perform, Request.place, answered, whole, perform]
        · simp only [perform_cons, Request.perform, Request.place, answered, whole, Nat.zero_add,
            ↓reduceIte, Option.bind_some, Bool.not_true, Bool.false_eq_true]
          split <;> simp_all [perform]
      · by_cases whole : length % dev.blksz = 0 <;>
          simp [perform_cons, Request.perform, answered, whole]

/-- A read is refused, or it makes its requests. -/
theorem devread_eq (small : dev.log2blksz ≤ 16) (fits : length < 2 ^ 32)
    (plain : offset = 0 ∨ offset + length < 2 ^ 31)
    (inside : dev.start + sector + (offset + length) / dev.blksz < 2 ^ 32) :
    devread dev stale sector offset (toInt length) buf s =
      if Refused dev sector offset length then none
      else perform dev stale (requests dev (dev.start + sector) offset length buf) s := by
  have sectorSmall := blksz_le small
  have positive := @blksz_pos dev
  have below := Nat.mod_lt offset positive
  have front : offset / dev.blksz ≤ (offset + length) / dev.blksz :=
    Nat.div_le_div_right (Nat.le_add_right _ _)
  have moved : toUnsigned (sector + (offset : Int) / dev.blksz) = sector + offset / dev.blksz := by
    exact_mod_cast toUnsigned_natCast (n := sector + offset / dev.blksz) (by omega)
  have first : toUnsigned (dev.start + (sector + offset / dev.blksz : Nat)) =
      dev.start + sector + offset / dev.blksz := by
    rw [Nat.add_assoc]
    exact_mod_cast toUnsigned_natCast (n := dev.start + (sector + offset / dev.blksz)) (by omega)
  unfold devread requests
  refine if_congr Iff.rfl rfl ?_
  simp only [blockRead, moved, ← Int.natCast_emod]
  by_cases none : offset % dev.blksz = 0
  · have apart : (offset + length) / dev.blksz = offset / dev.blksz + length / dev.blksz :=
      Nat.add_div_of_dvd_right (Nat.dvd_of_mod_eq_zero none)
    rw [if_neg (not_not.mpr (by exact_mod_cast none)), if_pos none,
      devreadAligned_eq small fits (by omega), Nat.add_assoc]
  have short : offset + length < 2 ^ 31 := by
    rcases plain with rfl | short
    · exact absurd (Nat.zero_mod _) none
    · exact short
  have kept : toInt length = length := toInt_of_lt (by omega) (by omega)
  have readlen : min ((dev.blksz : Int) - (offset % dev.blksz : Nat)) (toInt length) =
      (min (dev.blksz - offset % dev.blksz) length : Nat) := by
    rw [kept, Nat.cast_min, Nat.cast_sub (Nat.le_of_lt below)]
  have remaining : toInt (toInt length - (min (dev.blksz - offset % dev.blksz) length : Nat)) =
      toInt (length - min (dev.blksz - offset % dev.blksz) length : Nat) := by
    rw [kept, Nat.cast_sub (Nat.min_le_right _ _)]
  rw [if_pos (by exact_mod_cast none), if_neg none, perform_cons, first]
  have headSmall := Nat.lt_of_le_of_lt (Nat.min_le_right (dev.blksz - offset % dev.blksz) _) fits
  simp only [readlen, remaining, Int.toNat_natCast, toUnsigned_natCast headSmall]
  unfold Request.perform
  by_cases answered : dev.answers s.reads (dev.start + sector + offset / dev.blksz) 1 = true
  · simp only [answered, Bool.not_true, Bool.false_eq_true, ↓reduceIte, Option.bind_some]
    rcases Nat.lt_or_ge (dev.blksz - offset % dev.blksz) length with more | done
    · -- The rest of the sector, and what is behind it.
      have whole := @behind_div dev offset (length - (dev.blksz - offset % dev.blksz))
      rw [Nat.add_sub_cancel' (Nat.le_of_lt more)] at whole
      have room : dev.start + (sector + offset / dev.blksz + 1) +
          (length - (dev.blksz - offset % dev.blksz)) / dev.blksz < 2 ^ 32 := by
        rw [whole] at inside
        linarith only [inside]
      have next : dev.start + (sector + offset / dev.blksz + 1) < 2 ^ 32 :=
        Nat.lt_of_le_of_lt (Nat.le_add_right _ _) room
      have second : toUnsigned ((sector + offset / dev.blksz : Nat) + 1) =
          sector + offset / dev.blksz + 1 := by
        exact_mod_cast toUnsigned_natCast (n := sector + offset / dev.blksz + 1) (by omega)
      rw [second, Nat.min_eq_left (Nat.le_of_lt more),
        devreadAligned_eq small (Nat.lt_of_le_of_lt (Nat.sub_le _ _) fits) room,
        ← Nat.add_assoc, ← Nat.add_assoc]
      rfl
    · -- All the bytes are in the sector.
      rw [Nat.min_eq_right done, Nat.sub_self]
      rfl
  · simp [answered]

theorem placed_aligned (start length buf : Nat) (mem : Memory) :
    (alignedRequests dev start length buf).foldl (fun mem request => request.place dev mem) mem =
      mem.place buf length (dev.bytes start) := by
  have split := @blocks_add_rest dev length
  unfold alignedRequests
  dsimp only
  split_ifs with none few whole
  · rw [none, Memory.place_zero]
    rfl
  · simp [Request.place]
  · rw [whole, Nat.add_zero] at split
    simp [Request.place, split]
  · simp only [List.foldl_cons, List.foldl_nil, Request.place, Nat.zero_add]
    conv_rhs => rw [← split]
    exact Memory.place_place _ _ _ (fun j _ => rfl) fun j _ => bytes_skip _ _ _

/-- All requests together place the bytes. -/
theorem placed_requests (start offset length buf : Nat) (mem : Memory) :
    (requests dev start offset length buf).foldl (fun mem request => request.place dev mem) mem =
      mem.place buf length fun j => dev.bytes start (offset + j) := by
  unfold requests
  dsimp only
  split_ifs with aligned
  · rw [placed_aligned]
    refine Memory.place_congr _ _ _ fun j _ => ?_
    rw [bytes_offset, aligned, Nat.zero_add]
  · rw [List.foldl_cons, placed_aligned, Request.place]
    rcases Nat.lt_or_ge (dev.blksz - offset % dev.blksz) length with more | done
    · simp only [Nat.min_eq_left (Nat.le_of_lt more)]
      conv_rhs => rw [← Nat.add_sub_cancel' (Nat.le_of_lt more)]
      exact Memory.place_place _ _ _ (fun j _ => bytes_offset _ _ _) fun j _ => bytes_behind _ _ _
    · simp only [Nat.min_eq_right done, Nat.sub_self, Memory.place_zero]
      exact Memory.place_congr _ _ _ fun j _ => (bytes_offset _ _ _).symm

/-- Requests up to the end of a sector are checked. -/
theorem requests_checked (start buf : Nat) (aligned : (offset + length) % dev.blksz = 0) :
    ∀ request ∈ requests dev start offset length buf, request.checked = true := by
  have ofAligned (start length buf : Nat) (whole : length % dev.blksz = 0) :
      ∀ request ∈ alignedRequests dev start length buf, request.checked = true := by
    unfold alignedRequests
    dsimp only
    split_ifs with none few
    · simp
    · rw [Nat.mod_eq_of_lt few] at whole
      exact absurd whole none
    · simp
  unfold requests
  dsimp only
  split_ifs with none
  · rw [Nat.add_mod, none, Nat.zero_add, Nat.mod_mod] at aligned
    exact ofAligned _ _ _ aligned
  · rw [List.forall_mem_cons]
    refine ⟨rfl, ofAligned _ _ _ ?_⟩
    have below := Nat.mod_lt offset (@blksz_pos dev)
    rcases Nat.lt_or_ge (dev.blksz - offset % dev.blksz) length with more | done
    · rw [Nat.min_eq_left (Nat.le_of_lt more)]
      have split : offset + length = (length - (dev.blksz - offset % dev.blksz)) +
          (offset / dev.blksz + 1) * dev.blksz := by
        have quotient := @blocks_add_rest dev offset
        rw [Nat.add_mul, Nat.one_mul]
        omega
      rwa [split, Nat.add_mul_mod_self_right] at aligned
    · rw [Nat.min_eq_right done, Nat.sub_self, Nat.zero_mod]

/-- Where a request that is not checked fails, a byte is what was in the buffer. -/
theorem requests_stale (start offset length buf n : Nat) (failed :
    ¬Succeed dev (fun request => !request.checked) n (requests dev start offset length buf)) :
    ∃ a, buf ≤ a ∧ a < buf + length ∧ ∀ stale s t, s.reads = n →
      perform dev stale (requests dev start offset length buf) s = some t → t.mem a = stale 0 := by
  have ofAligned (start length buf n : Nat) (failed :
      ¬Succeed dev (fun request => !request.checked) n (alignedRequests dev start length buf)) :
      ∃ a, buf ≤ a ∧ a < buf + length ∧ ∀ stale s t, s.reads = n →
        perform dev stale (alignedRequests dev start length buf) s = some t →
          t.mem a = stale 0 := by
    unfold alignedRequests at failed ⊢
    dsimp only at failed ⊢
    split_ifs at failed with none few whole
    · exact absurd trivial failed
    · rw [if_neg none, if_pos few]
      refine ⟨buf, Nat.le_refl _, Nat.lt_add_of_pos_right (Nat.pos_of_ne_zero none), ?_⟩
      rintro stale s t rfl ran
      have unanswered : ¬dev.answers s.reads start 1 = true :=
        fun answered => failed ⟨fun _ => answered, trivial⟩
      rw [perform_cons, Request.perform, if_neg unanswered] at ran
      obtain rfl := Option.some.inj ran
      simp [Memory.place, Nat.pos_of_ne_zero none]
    · exact absurd (succeed_of_none (by simp)) failed
    · exact absurd (succeed_of_none (by simp)) failed
  unfold requests at failed ⊢
  dsimp only at failed ⊢
  split_ifs at failed with none
  · rw [if_pos none]
    exact ofAligned _ _ _ _ failed
  · rw [if_neg none]
    obtain ⟨a, low, high, byte⟩ := ofAligned _ _ _ _ fun fine =>
      failed ⟨fun unchecked => by simp at unchecked, fine⟩
    refine ⟨a, by omega, by omega, ?_⟩
    rintro stale s t rfl ran
    rw [perform_cons] at ran
    obtain ⟨next, first, ran⟩ := Option.bind_eq_some_iff.mp ran
    have one := (@perform_some dev stale s next [_] (by rw [perform_cons, first]; rfl)).2.1
    exact byte stale next t one ran

theorem devread_outside (some : 0 < offset + length) (short : offset + length ≤ 2 ^ 31)
    (kept : length < 2 ^ 31)
    (far : dev.size ≤ sector + (offset + length - 1) / dev.blksz)
    (fits : sector + (offset + length - 1) / dev.blksz < 2 ^ 32) :
    devread dev stale sector offset (toInt length) buf s = none := by
  have last : toInt ((offset : Int) + toInt length - 1) = (offset + length - 1 : Nat) := by
    rw [toInt_of_lt (x := length) (by omega) (by omega), toInt_of_lt (by omega) (by omega)]
    omega
  have place : toUnsigned (sector + ((offset + length - 1 : Nat) : Int) / dev.blksz) =
      sector + (offset + length - 1) / dev.blksz := by
    exact_mod_cast toUnsigned_natCast fits
  unfold devread
  rw [last, place, if_pos far]

end Spec

end HrppBoot.Ext4
