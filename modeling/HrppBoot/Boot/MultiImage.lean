import HrppBoot.Lib.Traced
import HrppBoot.Lib.Words

/-!
# Images of several components

`image_multi_count` counts the sizes in the table at the start of the data, up to a zero, and
`image_multi_getimg` adds them up. Neither looks at the size of the data in the header. Addresses
and sums have the 32 bits of an `ulong`.
-/

namespace HrppBoot.Boot

open ByteMemory Traced

/-! ## The functions -/

/-- The word at an address, its most significant byte first: `uimage_to_cpu`. -/
def uimageToCpu (m : Memory) (a : Nat) : UInt32 :=
  Words.be32 (m a) (m (a + 1)) (m (a + 2)) (m (a + 3))

def imageGetHeaderSize : Nat := 64

def imageGetData (hdr : Nat) : Nat := (hdr + imageGetHeaderSize) % 2 ^ 32

def imageGetDataSize (m : Memory) (hdr : Nat) : Nat := (uimageToCpu m (hdr + 12)).toNat

/-- `size[i]`; it is zero in one order of its bytes as in the other. -/
def readSize (m : Memory) (data i : Nat) : Traced UInt32 := do
  access [⟨(data + 4 * i) % 2 ^ 32, 4⟩]
  pure (uimageToCpu m ((data + 4 * i) % 2 ^ 32))

/-- The loop of `image_multi_count`. It is given up while it still runs. -/
def countLoop (m : Memory) (data : Nat) : (turns i : Nat) → Traced Nat
  | 0, _ => giveUp
  | turns + 1, i => do
    let size ← readSize m data i
    if size = 0 then pure i else countLoop m data turns (i + 1)

/-- `image_multi_count`. Behind `2 ^ 30` turns it has read all words and would begin again. -/
def imageMultiCount (m : Memory) (hdr : Nat) : Traced Nat :=
  countLoop m (imageGetData hdr) (2 ^ 30) 0

/-- `(size + 3) & ~3` -/
def roundSize (size : UInt32) : Nat := (size.toNat + 3) % 2 ^ 32 / 4 * 4

/-- The loop of `image_multi_getimg`, with a number of components to go. -/
def offsetLoop (m : Memory) (data : Nat) : (left i offset : Nat) → Traced Nat
  | 0, _, offset => pure offset
  | left + 1, i, offset => do
    let size ← readSize m data i
    offsetLoop m data left (i + 1) ((offset + roundSize size) % 2 ^ 32)

/-- `image_multi_getimg`: `*data` and `*len`. -/
def imageMultiGetimg (m : Memory) (hdr idx : Nat) : Traced (Nat × Nat) := do
  let count ← imageMultiCount m hdr
  let imgData := (imageGetData hdr + (count + 1) * 4) % 2 ^ 32
  if idx < count then do
    let len ← readSize m (imageGetData hdr) idx
    let offset ← offsetLoop m (imageGetData hdr) idx 0 0
    pure ((imgData + offset) % 2 ^ 32, len.toNat)
  else pure (0, 0)

/-! ## Images -/

def sizeAt (m : Memory) (data i : Nat) : Nat := (uimageToCpu m (data + 4 * i)).toNat

/-- The table has so many sizes, and its end is inside the data. -/
structure EndsAt (m : Memory) (data size n : Nat) : Prop where
  sizes : ∀ i < n, sizeAt m data i ≠ 0
  terminator : sizeAt m data n = 0
  inside : 4 * (n + 1) ≤ size

/-- The bytes between the table and a component. -/
def before (m : Memory) (data : Nat) : Nat → Nat
  | 0 => 0
  | i + 1 => before m data i + (sizeAt m data i + 3) / 4 * 4

/-- An image in memory: its header and its data are in the address space. -/
structure Image where
  m : Memory
  hdr : Nat
  inside : hdr + imageGetHeaderSize + imageGetDataSize m hdr ≤ 2 ^ 32

namespace Image

variable (image : Image)

def data : Nat := imageGetData image.hdr

def size : Nat := imageGetDataSize image.m image.hdr

def Holds (c : Nat × Nat) : Prop := image.data ≤ c.1 ∧ c.1 + c.2 ≤ image.data + image.size

/-- What is wanted: both functions read the data only, and all components of the table are inside
it, one behind another. An image that is rejected has no components. -/
def MultiRight : Prop :=
  (imageMultiCount image.m image.hdr).Keeps image.data (image.data + image.size) fun count =>
    ∀ idx, (imageMultiGetimg image.m image.hdr idx).Keeps image.data (image.data + image.size)
      fun c => idx < count → image.Holds c ∧ ∀ later, idx < later → later < count →
        (imageMultiGetimg image.m image.hdr later).Keeps image.data (image.data + image.size)
          fun next => c.1 + c.2 ≤ next.1

/-- The table ends inside the data, and so do the components. -/
def TableFits : Prop :=
  ∃ n, EndsAt image.m image.data image.size n ∧ ∀ i < n,
    4 * (n + 1) + before image.m image.data i + sizeAt image.m image.data i ≤ image.size

end Image

/-! ## Reads -/

section Reads

variable {m : Memory} {data size : Nat}

variable {i : Nat} {wanted : Nat → Prop}

theorem keeps_readSize (inside : data + size ≤ 2 ^ 32) (index : i < 2 ^ 30) {wanted : UInt32 → Prop}
    :
    (readSize m data i).Keeps data (data + size) wanted ↔
      4 * (i + 1) ≤ size ∧ wanted (uimageToCpu m (data + 4 * i)) := by
  rw [readSize, keeps_bind, keeps_access, keeps_pure, List.forall_mem_singleton]
  have within : Span.Within ⟨(data + 4 * i) % 2 ^ 32, 4⟩ data (data + size) ↔
      4 * (i + 1) ≤ size := by
    simp only [Span.Within, Span.Inside]
    omega
  rw [within]
  refine and_congr_right fun fits => ?_
  have small : (data + 4 * i) % 2 ^ 32 = data + 4 * i := Nat.mod_eq_of_lt (by omega)
  rw [small]

/-- The loop stays in the data if a zero of the table is in there, and it finds the first one. -/
theorem keeps_countLoop (inside : data + size ≤ 2 ^ 32) {turns : Nat} (left : i + turns = 2 ^ 30) :
    (countLoop m data turns i).Keeps data (data + size) wanted ↔
      ∃ n, i ≤ n ∧ (∀ j, i ≤ j → j < n → sizeAt m data j ≠ 0) ∧ sizeAt m data n = 0 ∧
        4 * (n + 1) ≤ size ∧ wanted n := by
  induction turns generalizing i with
  | zero =>
    constructor
    · intro kept
      exact absurd kept not_keeps_giveUp
    · rintro ⟨n, behind, -, -, fits, -⟩
      omega
  | succ turns ih =>
    rw [countLoop, keeps_bind, keeps_readSize inside (by omega)]
    have zero : uimageToCpu m (data + 4 * i) = 0 ↔ sizeAt m data i = 0 := by
      rw [sizeAt, ← UInt32.toNat_inj]
      rfl
    by_cases last : sizeAt m data i = 0
    · rw [if_pos (zero.mpr last), keeps_pure]
      constructor
      · rintro ⟨fits, holds⟩
        exact ⟨i, le_rfl, fun j from_i below => absurd below (by omega), last, fits, holds⟩
      · rintro ⟨n, behind, sizes, -, fits, holds⟩
        have same : n = i := by
          by_contra other
          exact sizes i le_rfl (by omega) last
        rw [same] at fits holds
        exact ⟨fits, holds⟩
    · rw [if_neg (fun isZero => last (zero.mp isZero)), ih (by omega)]
      constructor
      · rintro ⟨-, n, behind, sizes, rest⟩
        refine ⟨n, by omega, fun j from_i below => ?_, rest⟩
        rcases Nat.eq_or_lt_of_le from_i with rfl | later
        · exact last
        · exact sizes j later below
      · rintro ⟨n, behind, sizes, terminator, fits, holds⟩
        have other : i ≠ n := by
          rintro rfl
          exact last terminator
        exact ⟨by omega, n, by omega, fun j later below => sizes j (by omega) below, terminator,
          fits, holds⟩

theorem EndsAt.unique {n k : Nat} (one : EndsAt m data size n) (other : EndsAt m data size k) :
    n = k := by
  by_contra different
  rcases Nat.lt_or_gt_of_ne different with less | more
  · exact other.sizes n less one.terminator
  · exact one.sizes k more other.terminator

theorem keeps_offsetLoop (inside : data + size ≤ 2 ^ 32) {left offset : Nat}
    (fits : 4 * (i + left) ≤ size) (sum : offset = before m data i % 2 ^ 32) :
    (offsetLoop m data left i offset).Keeps data (data + size) wanted ↔
      wanted (before m data (i + left) % 2 ^ 32) := by
  induction left generalizing i offset with
  | zero => rw [offsetLoop, keeps_pure, sum, Nat.add_zero]
  | succ left ih =>
    have next : (offset + roundSize (uimageToCpu m (data + 4 * i))) % 2 ^ 32 =
        before m data (i + 1) % 2 ^ 32 := by
      rw [before, sizeAt, roundSize]
      omega
    have here : 4 * (i + 1) ≤ size := by omega
    rw [offsetLoop, keeps_bind, keeps_readSize inside (by omega), ih (by omega) next,
      Nat.add_right_comm i 1 left, Nat.add_assoc i left 1]
    exact and_iff_right here

theorem keeps_imageMultiCount {hdr : Nat} (inside : imageGetData hdr + size ≤ 2 ^ 32) :
    (imageMultiCount m hdr).Keeps (imageGetData hdr) (imageGetData hdr + size) wanted ↔
      ∃ n, EndsAt m (imageGetData hdr) size n ∧ wanted n := by
  rw [imageMultiCount, keeps_countLoop inside (Nat.zero_add _)]
  refine exists_congr fun n => ?_
  constructor
  · rintro ⟨-, sizes, terminator, fits, holds⟩
    exact ⟨⟨fun i below => sizes i i.zero_le below, terminator, fits⟩, holds⟩
  · rintro ⟨ends, holds⟩
    exact ⟨n.zero_le, fun i _ below => ends.sizes i below, ends.terminator, ends.inside, holds⟩

def component (m : Memory) (data n i : Nat) : Nat × Nat :=
  ((data + 4 * (n + 1) + before m data i) % 2 ^ 32, sizeAt m data i)

theorem keeps_imageMultiGetimg {hdr n : Nat} (inside : imageGetData hdr + size ≤ 2 ^ 32)
    (ends : EndsAt m (imageGetData hdr) size n) {idx : Nat} {wanted : Nat × Nat → Prop} :
    (imageMultiGetimg m hdr idx).Keeps (imageGetData hdr) (imageGetData hdr + size) wanted ↔
      wanted (if idx < n then component m (imageGetData hdr) n idx else (0, 0)) := by
  have fits := ends.inside
  rw [imageMultiGetimg, keeps_bind, keeps_imageMultiCount inside]
  have only : ∀ p : Nat → Prop, (∃ k, EndsAt m (imageGetData hdr) size k ∧ p k) ↔ p n := by
    intro p
    constructor
    · rintro ⟨k, other, holds⟩
      rwa [other.unique ends] at holds
    · exact fun holds => ⟨n, ends, holds⟩
  rw [only]
  by_cases below : idx < n
  · have sum : ((imageGetData hdr + (n + 1) * 4) % 2 ^ 32 +
        before m (imageGetData hdr) (0 + idx) % 2 ^ 32) % 2 ^ 32 =
        (component m (imageGetData hdr) n idx).1 := by
      rw [component, Nat.zero_add]
      omega
    have here : 4 * (idx + 1) ≤ size := by omega
    have start : 0 = before m (imageGetData hdr) 0 % 2 ^ 32 := rfl
    simp only [if_pos below]
    rw [keeps_bind, keeps_readSize inside (by omega), keeps_bind,
      keeps_offsetLoop inside (by omega) start, keeps_pure, sum]
    exact and_iff_right here
  · simp only [if_neg below, keeps_pure]

theorem before_mono {i later : Nat} (behind : i < later) :
    before m data i + sizeAt m data i ≤ before m data later := by
  induction later with
  | zero => omega
  | succ later ih =>
    rw [before]
    rcases Nat.lt_succ_iff_lt_or_eq.mp behind with earlier | rfl
    · have := ih earlier
      omega
    · omega

end Reads

/-! ## All tables -/

namespace Image

variable (image : Image)

theorem data_add_size_le : image.data + image.size ≤ 2 ^ 32 := by
  have inside := image.inside
  have less : image.data ≤ image.hdr + imageGetHeaderSize := Nat.mod_le _ _
  rw [size]
  omega

theorem header_le_data (filled : 0 < image.size) : imageGetHeaderSize ≤ image.data := by
  have inside := image.inside
  rw [size] at filled
  have same : image.data = image.hdr + imageGetHeaderSize := Nat.mod_eq_of_lt (by omega)
  omega

/-- What is wanted of a table that ends inside the data. -/
def ComponentsRight (n : Nat) : Prop :=
  ∀ idx < n, image.Holds (component image.m image.data n idx) ∧
    ∀ later, idx < later → later < n →
      (component image.m image.data n idx).1 + (component image.m image.data n idx).2 ≤
        (component image.m image.data n later).1

theorem multiRight_iff :
    image.MultiRight ↔
      ∃ n, EndsAt image.m image.data image.size n ∧ image.ComponentsRight n := by
  rw [MultiRight]
  refine (keeps_imageMultiCount image.data_add_size_le).trans (exists_congr fun n => ?_)
  refine and_congr_right fun ends => ?_
  have getimg (idx : Nat) (wanted : Nat × Nat → Prop) :
      (imageMultiGetimg image.m image.hdr idx).Keeps image.data (image.data + image.size) wanted ↔
        wanted (if idx < n then component image.m image.data n idx else (0, 0)) :=
    keeps_imageMultiGetimg image.data_add_size_le ends
  simp only [getimg]
  refine forall_congr' fun idx => ?_
  refine forall_congr' fun below => ?_
  rw [if_pos below]
  refine and_congr_right fun _ => ?_
  refine forall_congr' fun later => ?_
  refine forall_congr' fun _ => ?_
  refine forall_congr' fun inTable => ?_
  rw [if_pos inTable]

/-- Components that are inside the data do not come to the end of the address space. -/
theorem componentsRight_iff {n : Nat} (ends : EndsAt image.m image.data image.size n) :
    image.ComponentsRight n ↔ ∀ i < n,
      4 * (n + 1) + before image.m image.data i + sizeAt image.m image.data i ≤ image.size := by
  have addresses := image.data_add_size_le
  have fits := ends.inside
  have header := image.header_le_data (by omega)
  rw [imageGetHeaderSize] at header
  constructor
  · intro right i
    induction i with
    | zero =>
      intro below
      have holds := (right 0 below).1
      simp only [Holds, component, before] at holds ⊢
      omega
    | succ i ih =>
      intro below
      have earlier := ih (by omega)
      have holds := (right (i + 1) below).1
      simp only [Holds, component, before] at holds ⊢
      omega
  · intro inside idx below
    have here := inside idx below
    have filled := ends.sizes idx below
    refine ⟨?_, fun later behind inTable => ?_⟩
    · simp only [Holds, component]
      omega
    · have there := inside later inTable
      have more := ends.sizes later inTable
      have order := @before_mono image.m image.data _ _ behind
      simp only [component]
      omega

/-- The functions do what is wanted for the images whose table ends inside the data, with all
components inside it. The others are not rejected. -/
theorem multiRight_iff_tableFits : image.MultiRight ↔ image.TableFits := by
  rw [multiRight_iff]
  refine exists_congr fun n => ?_
  exact and_congr_right fun ends => image.componentsRight_iff ends

def longComponentBytes : List UInt8 :=
  [39, 5, 25, 86, 255, 57, 93, 78, 0, 0, 0, 0, 0, 0, 0, 8, 0, 0, 0, 0, 0, 0, 0, 0, 255, 255,
    255, 255, 5, 2, 4, 0, 0, 0, 0, 0, 0, 0, 0, 0, 0, 0, 0, 0, 0, 0, 0, 0, 0, 0, 0, 0, 0, 0, 0,
    0, 0, 0, 0, 0, 0, 0, 0, 0, 255, 255, 255, 255, 0, 0, 0, 0]

/-- An image with good checksums and one component, of 4 GiB less one byte; its data has eight
bytes. -/
def longComponent : Image where
  m := fun a => longComponentBytes.getD a 0
  hdr := 0
  inside := by decide

/-- The component is not inside the data. -/
theorem longComponent_outside : ¬longComponent.MultiRight := by
  rw [multiRight_iff]
  rintro ⟨n, ends, right⟩
  have one : EndsAt longComponent.m longComponent.data longComponent.size 1 := by
    refine ⟨fun i below => ?_, by decide, by decide⟩
    rw [Nat.lt_one_iff.mp below]
    decide
  rw [ends.unique one] at right
  exact absurd (right 0 Nat.one_pos).1.2 (by decide)

end Image

end HrppBoot.Boot
