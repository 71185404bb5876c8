import Mathlib.Data.Fintype.Basic
import Mathlib.Data.Fin.VecNotation
import Mathlib.Tactic.FinCases

/-!
# Keys held at power-on

`DetectBootKey` scans the key matrix column by column and tells the keys that select a way to boot
from all others; `SetupBootMode` makes a boot mode of them. This is the build with `KEYINFO_EXIST`
and neither `BSP_SUPPORT_AUTOSELECT` nor `BSP_SUPPORT_TOYOTA`. A key connects its column KS with its
row KR; a row reads low if a pressed key connects it with a column that is driven low. `char` is
unsigned.
-/

namespace HrppBoot.Board

/-! ## The matrix -/

abbrev KeyMatrix := Fin 8 → Fin 8 → Bool

abbrev Columns := Fin 8 → Bool

/-- `gpio_get_value` of a row, true for high. -/
def rowLevel (keys : KeyMatrix) (columns : Columns) (row : Fin 8) : Bool :=
  !decide (∃ column, columns column = false ∧ keys column row = true)

/-- `gpio_set_value` of a column. -/
def setColumn (columns : Columns) (column : Fin 8) (level : Bool) : Columns :=
  fun c => if c = column then level else columns c

/-- The columns behind `key_init`. -/
def keyInit : Columns := setColumn (fun _ => true) 0 false

/-- A pass of the loop of `KeyScan`. -/
def keyScanStep (level : Fin 8 → Bool) (mtrxScan : BitVec 8) (index : Fin 8) : BitVec 8 :=
  let mtrxScan := mtrxScan ||| (BitVec.ofBool (level index)).setWidth 8
  if index ≠ 0 then mtrxScan <<< 1 else mtrxScan

def keyScan (level : Fin 8 → Bool) : BitVec 8 :=
  ~~~([7, 6, 5, 4, 3, 2, 1, 0].foldl (keyScanStep level) 0)

/-- A pass of the loop of `DetectBootKey` that scans: a column is driven low and read. -/
def scanColumn (keys : KeyMatrix) (state : Columns × List (BitVec 8)) (index : Fin 8) :
    Columns × List (BitVec 8) :=
  let columns := setColumn state.1 index false
  let mtrxScan := keyScan (rowLevel keys columns)
  (setColumn columns index true, state.2 ++ [mtrxScan])

/-- `KeyInfo` of the columns. -/
def scanColumns (keys : KeyMatrix) : List (BitVec 8) :=
  ((List.finRange 8).foldl (scanColumn keys) (keyInit, [])).2

/-- The switches `SW_…` that are not in the matrix. -/
structure Switches where
  mode1 : Bool
  mode0 : Bool
  hold : Bool
  start : Bool

/-- `KeyInfo[8]`. -/
def switchInfo (switches : Switches) : BitVec 8 :=
  let bit (level : Bool) : BitVec 8 := (BitVec.ofBool level).setWidth 8
  ((bit switches.mode1 <<< 3) &&& 0x08 ||| (bit switches.mode0 <<< 2) &&& 0x04 |||
    (bit switches.hold <<< 1) &&& 0x02 ||| bit switches.start &&& 0x01) &&& 0x0f

/-! ## The keys -/

def keyMaskHyphen : BitVec 32 := 0x01
def keyMaskPeriod : BitVec 32 := 0x02
def keyMaskNum2 : BitVec 32 := 0x04
def keyMaskNum5 : BitVec 32 := 0x08
def keyMaskNum8 : BitVec 32 := 0x10
def keyMaskLow : BitVec 32 := 0x20
def keyMaskHighspped : BitVec 32 := 0x40
def keyMaskAnykey : BitVec 32 := 0x80
def keyMaskRshift : BitVec 32 := 0x0100
def keyMaskEnt : BitVec 32 := 0x0200

/-- `KEY_MASK_KR0` to `KEY_MASK_KR7`. -/
def keyMaskKr (row : Nat) : BitVec 32 := 1 <<< row

/-- `if (mtrxScan & mask) scancode |= key`, as what it adds. -/
def onMask (mtrxScan mask key : BitVec 32) : BitVec 32 := if mtrxScan &&& mask ≠ 0 then key else 0

/-- What the switch over the columns adds to `scancode`. -/
def columnCode (index : Fin 8) (mtrxScan : BitVec 32) : BitVec 32 :=
  match index with
  | 0 | 1 | 3 => if mtrxScan ≠ 0 then keyMaskAnykey else 0
  | 2 =>
    onMask mtrxScan (keyMaskKr 5) keyMaskHighspped ||| onMask mtrxScan (keyMaskKr 7) keyMaskLow |||
      onMask mtrxScan (~~~keyMaskKr 5 &&& ~~~keyMaskKr 7) keyMaskAnykey
  | 4 =>
    onMask mtrxScan (keyMaskKr 3) keyMaskNum8 ||| onMask mtrxScan (keyMaskKr 6) keyMaskRshift |||
      onMask mtrxScan (~~~keyMaskKr 3 &&& ~~~keyMaskKr 6) keyMaskAnykey
  | 5 =>
    onMask mtrxScan (keyMaskKr 2) keyMaskNum5 ||| onMask mtrxScan (~~~keyMaskKr 2) keyMaskAnykey
  | 6 =>
    onMask mtrxScan (keyMaskKr 1) keyMaskNum2 ||| onMask mtrxScan (~~~keyMaskKr 1) keyMaskAnykey
  | 7 =>
    onMask mtrxScan (keyMaskKr 0) keyMaskPeriod ||| onMask mtrxScan (keyMaskKr 1) keyMaskHyphen |||
      onMask mtrxScan (keyMaskKr 3) keyMaskEnt |||
      onMask mtrxScan ((~~~keyMaskKr 0 &&& ~~~keyMaskKr 1 &&& ~~~keyMaskKr 3) &&& 0x1f) keyMaskAnykey

/-- `DetectBootKey`: `KeyInfo`, and `scancode`. -/
def detectBootKey (keys : KeyMatrix) (switches : Switches) : List (BitVec 8) × BitVec 32 :=
  let keyInfo := scanColumns keys ++ [switchInfo switches]
  (keyInfo, (List.finRange 8).foldl (fun scancode index =>
    scancode ||| columnCode index ((keyInfo.getD index 0).setWidth 32)) 0)

/-- The cascade of `SetupBootMode`. -/
def setupBootMode (keycode : BitVec 32) : Nat :=
  let on (mask : BitVec 32) : Bool := keycode &&& mask ≠ 0
  if on keyMaskAnykey then 0
  else if on keyMaskNum5 && on keyMaskLow && on keyMaskHighspped then 4
  else if on keyMaskNum2 && on keyMaskNum8 && on keyMaskHighspped then 5
  else if on keyMaskNum5 && on keyMaskLow then 1
  else if on keyMaskNum2 && on keyMaskNum8 then 2
  else if on keyMaskHighspped && on keyMaskLow then 3
  else if on keyMaskPeriod && on keyMaskHyphen then 6
  else if on keyMaskPeriod && on keyMaskHighspped then 7
  else if on keyMaskRshift && on keyMaskEnt then 8
  else 0

/-! ## What is scanned -/

theorem keyScan_bit (level : Fin 8 → Bool) (row : Fin 8) :
    (keyScan level).getLsbD row = !level row := by
  fin_cases row <;> simp [keyScan, keyScanStep]

theorem scanColumn_alone (keys : KeyMatrix) {columns : Columns} (info : List (BitVec 8))
    {index : Fin 8} (alone : ∀ c, c ≠ index → columns c = true) :
    scanColumn keys (columns, info) index =
      (fun _ => true, info ++ [keyScan fun row => !keys index row]) := by
  have rows : rowLevel keys (setColumn columns index false) = fun row => !keys index row := by
    funext row
    have low : (∃ column, setColumn columns index false column = false ∧ keys column row = true) ↔
        keys index row = true := by
      constructor
      · rintro ⟨column, driven, pressed⟩
        by_cases same : column = index
        · rwa [same] at pressed
        · simp [setColumn, same, alone column same] at driven
      · intro pressed
        exact ⟨index, by simp [setColumn], pressed⟩
    simp only [rowLevel, low]
    simp
  have columnsAfter : setColumn (setColumn columns index false) index true = fun _ => true := by
    funext c
    by_cases same : c = index
    · simp [setColumn, same]
    · simp [setColumn, same, alone c same]
  simp only [scanColumn, rows, columnsAfter]

theorem foldl_scanColumn (keys : KeyMatrix) (info : List (BitVec 8)) (list : List (Fin 8)) :
    list.foldl (scanColumn keys) (fun _ => true, info) =
      (fun _ => true, info ++ list.map fun index => keyScan fun row => !keys index row) := by
  induction list generalizing info with
  | nil => simp
  | cons index rest ih =>
    rw [List.foldl_cons, scanColumn_alone keys info (fun _ _ => rfl), ih, List.map_cons,
      List.append_assoc, List.singleton_append]

theorem scanColumns_eq (keys : KeyMatrix) :
    scanColumns keys = (List.finRange 8).map fun index => keyScan fun row => !keys index row := by
  have others : ∀ c, c ≠ (0 : Fin 8) → keyInit c = true := by
    intro c other
    simp [keyInit, setColumn, other]
  unfold scanColumns
  rw [List.finRange_succ, List.foldl_cons, scanColumn_alone keys [] others, foldl_scanColumn,
    List.map_cons]
  simp

theorem keyInfo_getD (keys : KeyMatrix) (switches : Switches) (index : Fin 8) :
    (detectBootKey keys switches).1.getD index 0 = keyScan fun row => !keys index row := by
  simp only [detectBootKey, scanColumns_eq]
  fin_cases index <;> rfl

/-! ## Boot keys and chords -/

inductive BootKey where
  | hyphen
  | period
  /-- `2` -/
  | num2
  /-- `5` -/
  | num5
  /-- `8` -/
  | num8
  | low
  | highspeed
  | rshift
  /-- `ENTER` -/
  | ent
  deriving DecidableEq

def bootKeys : List BootKey :=
  [.hyphen, .period, .num2, .num5, .num8, .low, .highspeed, .rshift, .ent]

def BootKey.place : BootKey → Fin 8 × Fin 8
  | .hyphen => (7, 1)
  | .period => (7, 0)
  | .num2 => (6, 1)
  | .num5 => (5, 2)
  | .num8 => (4, 3)
  | .low => (2, 7)
  | .highspeed => (2, 5)
  | .rshift => (4, 6)
  | .ent => (7, 3)

/-- The bit of a boot key in `scancode`. -/
def BootKey.mask : BootKey → BitVec 32
  | .hyphen => keyMaskHyphen
  | .period => keyMaskPeriod
  | .num2 => keyMaskNum2
  | .num5 => keyMaskNum5
  | .num8 => keyMaskNum8
  | .low => keyMaskLow
  | .highspeed => keyMaskHighspped
  | .rshift => keyMaskRshift
  | .ent => keyMaskEnt

/-- The chords of `pendant.h`, none for a normal start. -/
def chord : Nat → List BootKey
  | 1 => [.num5, .low]
  | 2 => [.num2, .num8]
  | 3 => [.highspeed, .low]
  | 4 => [.num5, .highspeed, .low]
  | 5 => [.num2, .num8, .highspeed]
  | 6 => [.period, .hyphen]
  | 7 => [.period, .highspeed]
  | 8 => [.rshift, .ent]
  | _ => []

/-- There is a key: the last three rows of the last column are not connected. -/
def Wired (column row : Fin 8) : Prop := ¬(column = 7 ∧ 5 ≤ row)

instance (column row : Fin 8) : Decidable (Wired column row) := inferInstanceAs (Decidable (¬_))

def IsBootKey (column row : Fin 8) : Prop := ∃ key ∈ bootKeys, key.place = (column, row)

instance (column row : Fin 8) : Decidable (IsBootKey column row) :=
  inferInstanceAs (Decidable (∃ key ∈ bootKeys, key.place = (column, row)))

def Held (keys : KeyMatrix) (key : BootKey) : Prop := keys key.place.1 key.place.2 = true

instance (keys : KeyMatrix) (key : BootKey) : Decidable (Held keys key) :=
  inferInstanceAs (Decidable (_ = _))

theorem and_ne_zero {w : Nat} (x mask : BitVec w) :
    x &&& mask ≠ 0 ↔ ∃ i, x.getLsbD i = true ∧ mask.getLsbD i = true := by
  constructor
  · intro nonzero
    by_contra none
    apply nonzero
    apply BitVec.eq_of_getLsbD_eq
    intro i _
    rw [BitVec.getLsbD_and, BitVec.ofNat_eq_ofNat, BitVec.getLsbD_zero]
    by_contra both
    rw [Bool.not_eq_false, Bool.and_eq_true] at both
    exact none ⟨i, both⟩
  · rintro ⟨i, left, right⟩ zero
    have bit := congrArg (fun v => v.getLsbD i) zero
    simp [left, right] at bit

theorem or_and_ne_zero {w : Nat} (x y mask : BitVec w) :
    (x ||| y) &&& mask ≠ 0 ↔ x &&& mask ≠ 0 ∨ y &&& mask ≠ 0 := by
  simp only [and_ne_zero, BitVec.getLsbD_or, Bool.or_eq_true]
  constructor
  · rintro ⟨i, left | right, asked⟩
    · exact Or.inl ⟨i, left, asked⟩
    · exact Or.inr ⟨i, right, asked⟩
  · rintro (⟨i, left, asked⟩ | ⟨i, right, asked⟩)
    · exact ⟨i, Or.inl left, asked⟩
    · exact ⟨i, Or.inr right, asked⟩

theorem onMask_and_ne_zero (mtrxScan mask key asked : BitVec 32) :
    onMask mtrxScan mask key &&& asked ≠ 0 ↔ mtrxScan &&& mask ≠ 0 ∧ key &&& asked ≠ 0 := by
  unfold onMask
  split
  case isTrue on => exact ⟨fun added => ⟨on, added⟩, fun both => both.2⟩
  case isFalse off =>
    rw [BitVec.ofNat_eq_ofNat, BitVec.zero_and]
    exact ⟨fun added => absurd rfl added, fun both => absurd both.1 off⟩

/-- The keys of a column that are no boot keys. -/
def otherRows : Fin 8 → BitVec 32
  | 0 | 1 | 3 => 0xff
  | 2 => 0x5f
  | 4 => 0xb7
  | 5 => 0xfb
  | 6 => 0xfd
  | 7 => 0x14

theorem otherRows_bit : ∀ (index row : Fin 8),
    (otherRows index).getLsbD row = true ↔ Wired index row ∧ ¬IsBootKey index row := by
  decide

theorem onMask_allOnes (mtrxScan key : BitVec 32) :
    (if mtrxScan ≠ 0 then key else 0) = onMask mtrxScan (BitVec.allOnes 32) key := by
  rw [onMask, BitVec.and_allOnes]

theorem columnCode_bootKey (key : BootKey) (index : Fin 8) (mtrxScan : BitVec 32) :
    columnCode index mtrxScan &&& key.mask ≠ 0 ↔
      key.place.1 = index ∧ mtrxScan &&& keyMaskKr key.place.2 ≠ 0 := by
  fin_cases index <;> cases key <;>
    simp only [columnCode, onMask_allOnes, or_and_ne_zero, onMask_and_ne_zero, BootKey.mask,
      BootKey.place] <;>
    simp [keyMaskHyphen, keyMaskPeriod, keyMaskNum2, keyMaskNum5, keyMaskNum8, keyMaskLow,
      keyMaskHighspped, keyMaskAnykey, keyMaskRshift, keyMaskEnt]

theorem and_low (scan : BitVec 8) (mask : BitVec 32) :
    scan.setWidth 32 &&& mask = scan.setWidth 32 &&& (mask &&& 0xff) := by
  have whole : scan.setWidth 32 &&& 0xff = scan.setWidth 32 := by
    revert scan
    decide
  rw [BitVec.and_comm mask, ← BitVec.and_assoc, whole]

theorem columnCode_anykey (index : Fin 8) (scan : BitVec 8) :
    columnCode index (scan.setWidth 32) &&& keyMaskAnykey ≠ 0 ↔
      scan.setWidth 32 &&& otherRows index ≠ 0 := by
  fin_cases index <;>
    simp only [columnCode, onMask_allOnes, or_and_ne_zero, onMask_and_ne_zero] <;>
    simp [keyMaskHyphen, keyMaskPeriod, keyMaskNum2, keyMaskNum5, keyMaskNum8, keyMaskLow,
      keyMaskHighspped, keyMaskAnykey, keyMaskRshift, keyMaskEnt, otherRows]
  -- the masks differ in bits above the rows only
  all_goals
    exact not_congr (Eq.congr_left ((and_low scan _).trans (congrArg _ (by decide))))

theorem and_keyMaskKr (scan : BitVec 8) (row : Fin 8) :
    scan.setWidth 32 &&& keyMaskKr row ≠ 0 ↔ scan.getLsbD row = true := by
  have power : keyMaskKr row = BitVec.twoPow 32 row := rfl
  have low : (row : Nat) < 32 := by omega
  rw [and_ne_zero]
  simp only [power, BitVec.getLsbD_setWidth, BitVec.getLsbD_twoPow, Bool.and_eq_true,
    decide_eq_true_iff]
  constructor
  · rintro ⟨i, ⟨-, on⟩, -, rfl⟩
    exact on
  · exact fun on => ⟨row, ⟨low, on⟩, low, rfl⟩

theorem and_otherRows (scan : BitVec 8) (index : Fin 8) :
    scan.setWidth 32 &&& otherRows index ≠ 0 ↔
      ∃ row : Fin 8, Wired index row ∧ ¬IsBootKey index row ∧ scan.getLsbD row = true := by
  rw [and_ne_zero]
  constructor
  · rintro ⟨i, on, other⟩
    rw [BitVec.getLsbD_setWidth, Bool.and_eq_true] at on
    have row : i < 8 := by
      by_contra beyond
      rw [BitVec.getLsbD_of_ge scan i (Nat.le_of_not_lt beyond)] at on
      exact absurd on.2 (by decide)
    obtain ⟨wired, key⟩ := (otherRows_bit index ⟨i, row⟩).mp other
    exact ⟨⟨i, row⟩, wired, key, on.2⟩
  · rintro ⟨row, wired, key, on⟩
    refine ⟨row, ?_, (otherRows_bit index row).mpr ⟨wired, key⟩⟩
    rw [BitVec.getLsbD_setWidth, on, Bool.and_true, decide_eq_true_iff]
    omega

theorem foldl_or_and_ne_zero (code : Fin 8 → BitVec 32) (mask start : BitVec 32)
    (list : List (Fin 8)) :
    list.foldl (fun scancode index => scancode ||| code index) start &&& mask ≠ 0 ↔
      start &&& mask ≠ 0 ∨ ∃ index ∈ list, code index &&& mask ≠ 0 := by
  induction list generalizing start with
  | nil => simp
  | cons index rest ih =>
    rw [List.foldl_cons, ih, or_and_ne_zero, or_assoc, List.exists_mem_cons_iff]

section Detected

variable (keys : KeyMatrix) (switches : Switches)

theorem scancode_and_ne_zero (mask : BitVec 32) :
    (detectBootKey keys switches).2 &&& mask ≠ 0 ↔
      ∃ index, columnCode index ((keyScan fun row => !keys index row).setWidth 32) &&& mask ≠ 0 := by
  have columns : ∀ index : Fin 8,
      ((scanColumns keys ++ [switchInfo switches]).getD index 0) =
        keyScan fun row => !keys index row := keyInfo_getD keys switches
  simp only [detectBootKey, columns]
  rw [foldl_or_and_ne_zero]
  simp

theorem scancode_bootKey (key : BootKey) :
    (detectBootKey keys switches).2 &&& key.mask ≠ 0 ↔ Held keys key := by
  rw [scancode_and_ne_zero]
  simp only [columnCode_bootKey, and_keyMaskKr, keyScan_bit, Bool.not_not]
  simp [Held]

theorem scancode_anykey :
    (detectBootKey keys switches).2 &&& keyMaskAnykey ≠ 0 ↔
      ∃ column row, Wired column row ∧ ¬IsBootKey column row ∧ keys column row = true := by
  rw [scancode_and_ne_zero]
  simp only [columnCode_anykey, and_otherRows, keyScan_bit, Bool.not_not]

end Detected

/-! ## The boot mode -/

def selectMode (other : Bool) (held : BootKey → Bool) : Nat :=
  if other then 0
  else if held .num5 && held .low && held .highspeed then 4
  else if held .num2 && held .num8 && held .highspeed then 5
  else if held .num5 && held .low then 1
  else if held .num2 && held .num8 then 2
  else if held .highspeed && held .low then 3
  else if held .period && held .hyphen then 6
  else if held .period && held .highspeed then 7
  else if held .rshift && held .ent then 8
  else 0

theorem setupBootMode_eq (keycode : BitVec 32) :
    setupBootMode keycode = selectMode (decide (keycode &&& keyMaskAnykey ≠ 0))
      fun key => decide (keycode &&& key.mask ≠ 0) := rfl

def Chorded (held : BootKey → Bool) (mode : Nat) : Prop := ∀ key ∈ chord mode, held key = true

variable {held : BootKey → Bool} {mode : Nat}

theorem chorded_ite {pressed : Bool} {next : Nat} (here : pressed = true → Chorded held mode)
    (later : Chorded held next) :
    Chorded held (if pressed then mode else next) := by
  split
  case isTrue on => exact here on
  case isFalse => exact later

theorem chorded_two {first second : BootKey} (keys : chord mode = [first, second])
    (on : (held first && held second) = true) :
    Chorded held mode := by
  rw [Bool.and_eq_true] at on
  intro key member
  rw [keys, List.mem_pair] at member
  rcases member with rfl | rfl
  · exact on.1
  · exact on.2

theorem selectMode_chorded (other : Bool) (held : BootKey → Bool) :
    Chorded held (selectMode other held) := by
  have normal : Chorded held 0 := fun key member => by cases member
  apply chorded_ite fun _ => normal
  apply chorded_ite fun on => ?_
  apply chorded_ite fun on => ?_
  apply chorded_ite fun on => chorded_two rfl on
  apply chorded_ite fun on => chorded_two rfl on
  apply chorded_ite fun on => chorded_two rfl on
  apply chorded_ite fun on => chorded_two rfl on
  apply chorded_ite fun on => chorded_two rfl on
  apply chorded_ite (fun on => chorded_two rfl on) normal
  · simp only [Bool.and_eq_true] at on
    simp [Chorded, chord, on]
  · simp only [Bool.and_eq_true] at on
    simp [Chorded, chord, on]

theorem chord_three (three : (chord mode).length = 3) : mode = 4 ∨ mode = 5 := by
  unfold chord at three
  split at three <;> simp_all

theorem selectMode_three (three : (chord mode).length = 3) (pressed : Chorded held mode)
    : (chord (selectMode false held)).length = 3 := by
  rcases chord_three three with rfl | rfl
  · have keys : held .num5 = true ∧ held .highspeed = true ∧ held .low = true := by
      simpa [Chorded, chord] using pressed
    simp [selectMode, keys, chord]
  · have keys : held .num2 = true ∧ held .num8 = true ∧ held .highspeed = true := by
      simpa [Chorded, chord] using pressed
    simp only [selectMode, keys, Bool.and_self, Bool.and_true, if_true, Bool.false_eq_true,
      if_false]
    split <;> rfl

/-- For every state of the matrix and the switches: `KeyInfo` has exactly the pressed keys of each
column; a boot mode other than 0 is selected only if every pressed key that is there is one of the
nine boot keys and the chord of the mode is pressed, one of three keys if any such chord is; and any
other key that is there forces boot mode 0. -/
theorem bootMode_selected (keys : KeyMatrix) (switches : Switches) :
    bootKeys.length = 9 ∧
    (∀ column row : Fin 8,
      ((detectBootKey keys switches).1.getD column 0).getLsbD row = keys column row) ∧
    (setupBootMode (detectBootKey keys switches).2 ≠ 0 →
      (∀ column row, Wired column row → keys column row = true → IsBootKey column row) ∧
      (∀ key ∈ chord (setupBootMode (detectBootKey keys switches).2), Held keys key) ∧
      ∀ other, (chord other).length = 3 → (∀ key ∈ chord other, Held keys key) →
        (chord (setupBootMode (detectBootKey keys switches).2)).length = 3) ∧
    ((∃ column row, Wired column row ∧ ¬IsBootKey column row ∧ keys column row = true) →
      setupBootMode (detectBootKey keys switches).2 = 0) := by
  have mode : setupBootMode (detectBootKey keys switches).2 =
      selectMode (decide (∃ column row, Wired column row ∧ ¬IsBootKey column row ∧
        keys column row = true)) fun key => decide (Held keys key) := by
    rw [setupBootMode_eq]
    simp only [scancode_anykey, scancode_bootKey]
  refine ⟨rfl, fun column row => ?_, ?_, fun other => ?_⟩
  · rw [keyInfo_getD, keyScan_bit, Bool.not_not]
  · rw [mode]
    intro selected
    have none : ¬∃ column row, Wired column row ∧ ¬IsBootKey column row ∧
      keys column row = true := by
      intro other
      rw [decide_eq_true other] at selected
      exact selected rfl
    refine ⟨fun column row wired pressed => ?_, fun key member => ?_, fun other three pressed => ?_⟩
    · by_contra key
      exact none ⟨column, row, wired, key, pressed⟩
    · exact of_decide_eq_true (selectMode_chorded _ _ key member)
    · rw [decide_eq_false none]
      exact selectMode_three three fun key member => decide_eq_true (pressed key member)
  · rw [mode, decide_eq_true other]
    rfl

/-- The keys that are there and alone are not counted as another key are nine, not ten. -/
theorem boot_keys_not_ten :
    (((List.finRange 8).flatMap fun column => (List.finRange 8).map fun row => (column, row)).filter
      fun place : Fin 8 × Fin 8 => Wired place.1 place.2 ∧
        columnCode place.1 (keyMaskKr place.2) &&& keyMaskAnykey = 0).length ≠ 10 := by
  decide +kernel

end HrppBoot.Board
