import Mathlib.Data.UInt

/-!
# Two copies of the environment

With `CONFIG_ENV_OFFSET_REDUND` an MMC card holds two copies of the environment, each with a
checksum and a serial number of eight bits. `saveenv` writes the copy that is not in use;
`env_relocate_spec` loads the newer one. A power loss leaves the copy that is written with a bad
checksum, a write that fails leaves it with a bad checksum or as it was. What `env_export` writes
and `env_import` reads of the variables is a parameter here, as is the checksum. The serial number
is counted up before the write is known to succeed.
-/

namespace HrppBoot.Env

structure EnvT (α : Type) where
  crc : UInt32
  /-- `flags`: the serial number. -/
  flags : UInt8
  data : α

/-- A copy: `gd->env_valid` is 1 if the main one is in use, and 2 if the other one is. -/
inductive Place where
  /-- At `CONFIG_ENV_OFFSET`. -/
  | main
  /-- At `CONFIG_ENV_OFFSET_REDUND`. -/
  | redundant
  deriving DecidableEq, Repr

def Place.other : Place → Place
  | .main => .redundant
  | .redundant => .main

structure Mmc (α : Type) where
  main : EnvT α
  redundant : EnvT α

namespace Mmc

variable {α : Type}

def copy (mmc : Mmc α) : Place → EnvT α
  | .main => mmc.main
  | .redundant => mmc.redundant

def write (mmc : Mmc α) (place : Place) (env : EnvT α) : Mmc α :=
  match place with
  | .main => { mmc with main := env }
  | .redundant => { mmc with redundant := env }

@[simp]
theorem copy_write (mmc : Mmc α) (place : Place) (env : EnvT α) :
    (mmc.write place env).copy place = env := by
  cases place <;> rfl

@[simp]
theorem copy_write_other (mmc : Mmc α) (place : Place) (env : EnvT α) :
    (mmc.write place.other env).copy place = mmc.copy place := by
  cases place <;> rfl

end Mmc

@[simp]
theorem Place.other_other (place : Place) : place.other.other = place := by
  cases place <;> rfl

section Protocol

variable {α : Type} (crc32 : α → UInt32)

def EnvT.Ok (env : EnvT α) : Prop := crc32 env.data = env.crc

instance (env : EnvT α) : Decidable (env.Ok crc32) := inferInstanceAs (Decidable (_ = _))

/-- The copy with the newer serial number. -/
def newer (flags1 flags2 : UInt8) : Place :=
  if flags1 = 255 ∧ flags2 = 0 then .redundant
  else if flags2 = 255 ∧ flags1 = 0 then .main
  else if flags2 < flags1 then .main
  else if flags1 < flags2 then .redundant
  else .main

/-- What is in memory while the board runs. -/
structure Running (α : Type) where
  envFlags : UInt8
  envValid : Place
  /-- The environment that was loaded, or nothing for the default environment. -/
  loaded : Option α

/-- `env_relocate_spec`, for the copies as they are read; nothing stands for a read that fails. -/
def envRelocateSpec (tmpEnv1 tmpEnv2 : Option (EnvT α)) : Running α :=
  let crc1Ok := tmpEnv1.filter (EnvT.Ok crc32 ·)
  let crc2Ok := tmpEnv2.filter (EnvT.Ok crc32 ·)
  match crc1Ok, crc2Ok with
  | none, none => ⟨0, .main, none⟩
  | some env1, none => ⟨env1.flags, .main, some env1.data⟩
  | none, some env2 => ⟨env2.flags, .redundant, some env2.data⟩
  | some env1, some env2 =>
    match newer env1.flags env2.flags with
    | .main => ⟨env1.flags, .main, some env1.data⟩
    | .redundant => ⟨env2.flags, .redundant, some env2.data⟩

/-- A boot: `env_init` and `env_relocate_spec`. -/
def boot (mmc : Mmc α) : Running α := envRelocateSpec crc32 (some mmc.main) (some mmc.redundant)

inductive Event (α : Type) where
  /-- `saveenv` returns 0. -/
  | saved (data : α)
  /-- `saveenv` returns 1 before it has a serial number: no card, or `env_export` fails. -/
  | refused
  /-- `saveenv` returns 1 because the write fails, and leaves a copy. -/
  | failed (data : α) (left : EnvT α)
  /-- The power is lost while `saveenv` writes, which leaves a copy; the board boots again. -/
  | powerLoss (data : α) (left : EnvT α)
  | reboot

structure Board (α : Type) where
  mmc : Mmc α
  running : Running α

/-- What `saveenv` writes. -/
def envNew (running : Running α) (data : α) : EnvT α :=
  ⟨crc32 data, running.envFlags + 1, data⟩

def Board.step (board : Board α) : Event α → Board α
  | .saved data =>
    ⟨board.mmc.write board.running.envValid.other (envNew crc32 board.running data),
      { board.running with
        envFlags := board.running.envFlags + 1
        envValid := board.running.envValid.other }⟩
  | .refused => board
  | .failed _ left =>
    ⟨board.mmc.write board.running.envValid.other left,
      { board.running with envFlags := board.running.envFlags + 1 }⟩
  | .powerLoss _ left =>
    let mmc := board.mmc.write board.running.envValid.other left
    ⟨mmc, boot crc32 mmc⟩
  | .reboot => ⟨board.mmc, boot crc32 board.mmc⟩

/-- The board after some events, the last one first. -/
def Board.run (mmc : Mmc α) : List (Event α) → Board α
  | [] => ⟨mmc, boot crc32 mmc⟩
  | event :: earlier => (Board.run mmc earlier).step crc32 event

/-- What a write may leave: a bad checksum, or the copy as it was if it fails before it starts. -/
def Event.Allowed (board : Board α) : Event α → Prop
  | .failed _ left => ¬left.Ok crc32 ∨ left = board.mmc.copy board.running.envValid.other
  | .powerLoss _ left => ¬left.Ok crc32
  | _ => True

def Allowed (mmc : Mmc α) : List (Event α) → Prop
  | [] => True
  | event :: earlier => Allowed mmc earlier ∧ event.Allowed crc32 (Board.run crc32 mmc earlier)

/-- The environment of the last `saveenv` that returned 0, from the one at the start on. -/
def lastSaved (start : Option α) : List (Event α) → Option α
  | [] => start
  | .saved data :: _ => some data
  | _ :: earlier => lastSaved start earlier

/-- The card at the start: two erased copies, or one that is valid. -/
def Starts (mmc : Mmc α) (start : Option α) : Prop :=
  (¬mmc.main.Ok crc32 ∧ ¬mmc.redundant.Ok crc32 ∧ start = none) ∨
    ∃ place, (mmc.copy place).Ok crc32 ∧ ¬(mmc.copy place.other).Ok crc32 ∧
      start = some (mmc.copy place).data

/-! ## Which copy is loaded -/

/-- The serial numbers of the copies say that the one at a place is newer. -/
def Mmc.Newer (mmc : Mmc α) (place : Place) : Prop :=
  newer mmc.main.flags mmc.redundant.flags = place

variable {mmc : Mmc α} {board : Board α}

theorem boot_loads {place : Place} (ok : (mmc.copy place).Ok crc32)
    (newest : (mmc.copy place.other).Ok crc32 → mmc.Newer place) :
    boot crc32 mmc = ⟨(mmc.copy place).flags, place, some (mmc.copy place).data⟩ := by
  unfold boot envRelocateSpec
  cases place with
  | main =>
    have first : mmc.main.Ok crc32 := ok
    by_cases second : mmc.redundant.Ok crc32
    · have order : newer mmc.main.flags mmc.redundant.flags = .main := newest second
      simp [Option.filter, first, second, order, Mmc.copy]
    · simp [Option.filter, first, second, Mmc.copy]
  | redundant =>
    have second : mmc.redundant.Ok crc32 := ok
    by_cases first : mmc.main.Ok crc32
    · have order : newer mmc.main.flags mmc.redundant.flags = .redundant := newest first
      simp [Option.filter, first, second, order, Mmc.copy]
    · simp [Option.filter, first, second, Mmc.copy]

theorem boot_default (first : ¬mmc.main.Ok crc32) (second : ¬mmc.redundant.Ok crc32) :
    boot crc32 mmc = ⟨0, .main, none⟩ := by
  simp [boot, envRelocateSpec, Option.filter, first, second]

/-- The serial number that `saveenv` is about to write is newer than that of the copy in use. -/
def SerialNewer (board : Board α) : Event α → Prop
  | .saved data => (board.mmc.copy board.running.envValid).Ok crc32 →
      (board.mmc.write board.running.envValid.other (envNew crc32 board.running data)).Newer
        board.running.envValid.other
  | _ => True

def SerialsNewer (mmc : Mmc α) : List (Event α) → Prop
  | [] => True
  | event :: earlier =>
      SerialsNewer mmc earlier ∧ SerialNewer crc32 (Board.run crc32 mmc earlier) event

/-- The invariant: the copy in use has the environment that was saved last, and a boot loads it. -/
structure InUse (board : Board α) (saved : Option α) : Prop where
  before : saved = none → ¬board.mmc.main.Ok crc32 ∧ ¬board.mmc.redundant.Ok crc32
  after : ∀ data, saved = some data → (board.mmc.copy board.running.envValid).Ok crc32 ∧
    (board.mmc.copy board.running.envValid).data = data ∧
    ((board.mmc.copy board.running.envValid.other).Ok crc32 →
      board.mmc.Newer board.running.envValid)

theorem InUse.boot {saved : Option α} (inUse : InUse crc32 board saved) :
    (boot crc32 board.mmc).loaded = saved ∧
      InUse crc32 ⟨board.mmc, Env.boot crc32 board.mmc⟩ saved := by
  cases saved with
  | none =>
    obtain ⟨first, second⟩ := inUse.before rfl
    rw [boot_default crc32 first second]
    refine ⟨rfl, fun _ => ⟨first, second⟩, ?_⟩
    intro data isNone
    cases isNone
  | some data =>
    obtain ⟨ok, same, newest⟩ := inUse.after data rfl
    rw [boot_loads crc32 ok newest, same]
    refine ⟨rfl, ?_, ?_⟩
    · intro isSome
      cases isSome
    · intro data' isData
      cases isData
      exact ⟨ok, same, newest⟩

theorem InUse.write {saved : Option α} (inUse : InUse crc32 board saved) {left : EnvT α}
    (allowed : ¬left.Ok crc32 ∨ left = board.mmc.copy board.running.envValid.other)
    (running : Running α) (same : running.envValid = board.running.envValid) :
    InUse crc32 ⟨board.mmc.write board.running.envValid.other left, running⟩ saved := by
  rcases allowed with bad | unchanged
  · constructor
    · intro isNone
      obtain ⟨first, second⟩ := inUse.before isNone
      cases board.running.envValid with
      | main => exact ⟨first, bad⟩
      | redundant => exact ⟨bad, second⟩
    · intro data isData
      obtain ⟨ok, sameData, -⟩ := inUse.after data isData
      simp only [same, Mmc.copy_write_other, Mmc.copy_write]
      exact ⟨ok, sameData, fun good => absurd good bad⟩
  · have nothing : board.mmc.write board.running.envValid.other left = board.mmc := by
      rw [unchanged]
      cases board.running.envValid <;> rfl
    rw [nothing]
    refine ⟨inUse.before, ?_⟩
    rw [same]
    exact inUse.after

theorem inUse_save {data : α} (serial : SerialNewer crc32 board (.saved data)) :
    InUse crc32 (board.step crc32 (.saved data)) (some data) := by
  constructor
  · intro isSome
    cases isSome
  · intro data' isData
    cases isData
    simp only [Board.step, Mmc.copy_write]
    refine ⟨rfl, rfl, ?_⟩
    intro ok
    apply serial
    rwa [Place.other_other, Mmc.copy_write_other] at ok

theorem InUse.step {board : Board α} {event : Event α} {earlier : List (Event α)} {start : Option α}
    (inUse : InUse crc32 board (lastSaved start earlier)) (allowed : event.Allowed crc32 board)
    (serial : SerialNewer crc32 board event) :
    InUse crc32 (board.step crc32 event) (lastSaved start (event :: earlier)) := by
  cases event with
  | saved data => exact inUse_save crc32 serial
  | refused => exact inUse
  | failed data left => exact inUse.write crc32 allowed _ rfl
  | powerLoss data left =>
    exact ((inUse.write crc32 (.inl allowed) board.running rfl).boot crc32).2
  | reboot => exact (inUse.boot crc32).2

theorem Starts.inUse {start : Option α} (starts : Starts crc32 mmc start) :
    InUse crc32 ⟨mmc, boot crc32 mmc⟩ start := by
  rcases starts with ⟨first, second, rfl⟩ | ⟨place, ok, bad, rfl⟩
  · refine ⟨fun _ => ⟨first, second⟩, ?_⟩
    intro data isNone
    cases isNone
  · rw [boot_loads crc32 ok (fun good => absurd good bad)]
    refine ⟨?_, ?_⟩
    · intro isSome
      cases isSome
    · intro data isData
      cases isData
      exact ⟨ok, rfl, fun good => absurd good bad⟩

theorem run_inUse {start : Option α} (starts : Starts crc32 mmc start) (events : List (Event α))
    (allowed : Allowed crc32 mmc events) (serials : SerialsNewer crc32 mmc events) :
    InUse crc32 (Board.run crc32 mmc events) (lastSaved start events) := by
  induction events with
  | nil => exact starts.inUse crc32
  | cons event earlier ih =>
    exact (ih allowed.1 serials.1).step crc32 allowed.2 serials.2

/-- In every run in which `saveenv` writes serial numbers that are newer than that of the copy in
use, a boot loads the environment that was saved last, and the default one if there is none. -/
theorem boot_loads_lastSaved (mmc : Mmc α) (start : Option α) (events : List (Event α))
    (starts : Starts crc32 mmc start) (allowed : Allowed crc32 mmc events)
    (serials : SerialsNewer crc32 mmc events) :
    (boot crc32 (Board.run crc32 mmc events).mmc).loaded = lastSaved start events :=
  ((run_inUse crc32 starts events allowed serials).boot crc32).1

end Protocol

/-! ## Serial numbers -/

theorem newer_succ (flags : UInt8) :
    newer flags (flags + 1) = .redundant ∧ newer (flags + 1) flags = .main := by
  have next : (flags + 1).toNat = (flags.toNat + 1) % 256 := UInt8.toNat_add ..
  have range := flags.toNat_lt
  simp only [newer, ← UInt8.toNat_inj, UInt8.lt_iff_toNat_lt, next, UInt8.reduceToNat]
  by_cases last : flags.toNat = 255
  · simp [last]
  · have value : (flags.toNat + 1) % 256 = flags.toNat + 1 := by omega
    rw [value]
    refine ⟨?_, ?_⟩
    · rw [if_neg (by omega), if_neg (by omega), if_neg (by omega), if_pos (by omega)]
    · rw [if_neg (by omega), if_neg (by omega), if_pos (by omega)]

section Serials

variable {α : Type} (crc32 : α → UInt32)

/-- No write fails while the board goes on. -/
def NoFailures (events : List (Event α)) : Prop :=
  ∀ event ∈ events, ∀ data left, event ≠ .failed data left

/-- The serial number in memory is that of the copy in use. -/
def InStep (board : Board α) : Prop :=
  (board.mmc.copy board.running.envValid).Ok crc32 →
    board.running.envFlags = (board.mmc.copy board.running.envValid).flags

theorem InUse.inStep {board : Board α} {saved : Option α} (inUse : InUse crc32 board saved) :
    InStep crc32 ⟨board.mmc, Env.boot crc32 board.mmc⟩ := by
  cases saved with
  | none =>
    obtain ⟨first, second⟩ := inUse.before rfl
    rw [boot_default crc32 first second]
    intro ok
    exact absurd ok first
  | some data =>
    obtain ⟨ok, -, newest⟩ := inUse.after data rfl
    rw [boot_loads crc32 ok newest]
    intro _
    rfl

theorem InStep.serialNewer {board : Board α} (inStep : InStep crc32 board) (event : Event α) :
    SerialNewer crc32 board event := by
  cases event with
  | saved data =>
    intro ok
    have same := inStep ok
    unfold Mmc.Newer envNew
    rw [same]
    cases board.running.envValid with
    | main => exact (newer_succ _).1
    | redundant => exact (newer_succ _).2
  | _ => trivial

theorem serialsNewer_of_noFailures {mmc : Mmc α} {start : Option α}
    (starts : Starts crc32 mmc start) (events : List (Event α)) (allowed : Allowed crc32 mmc events)
    (none : NoFailures events) :
    SerialsNewer crc32 mmc events ∧ InStep crc32 (Board.run crc32 mmc events) := by
  induction events with
  | nil => exact ⟨trivial, (starts.inUse crc32).inStep crc32⟩
  | cons event earlier ih =>
    have noneEarlier : NoFailures earlier := fun event member => none event (by simp [member])
    obtain ⟨serials, inStep⟩ := ih allowed.1 noneEarlier
    have inUse := run_inUse crc32 starts earlier allowed.1 serials
    refine ⟨⟨serials, inStep.serialNewer crc32 event⟩, ?_⟩
    cases event with
    | saved data =>
      intro _
      simp [Board.run, Board.step, envNew]
    | refused => exact inStep
    | failed data left => exact absurd rfl (none _ (List.mem_cons_self ..) data left)
    | powerLoss data left =>
      exact (inUse.write crc32 (.inl allowed.2) _ rfl).inStep crc32
    | reboot => exact inUse.inStep crc32

end Serials

/-! ## The wrap-around -/

/-- The shift register of `make_crc_table`. -/
def crcShift (c : UInt32) : UInt32 :=
  if c &&& 1 ≠ 0 then (0xedb88320 : UInt32) ^^^ (c >>> 1) else c >>> 1

def crcTable (n : UInt32) : UInt32 := crcShift^[8] n

def crc32 (data : List UInt8) : UInt32 :=
  let crc : UInt32 := data.foldl
    (fun crc byte => crcTable ((crc ^^^ byte.toUInt32) &&& 255) ^^^ (crc >>> 8)) 0xffffffff
  crc ^^^ 0xffffffff

/-- A card with a copy of serial number 254, and an erased one. -/
def serial254 : Mmc (List UInt8) where
  main := ⟨crc32 [0, 0], 254, [0, 0]⟩
  redundant := ⟨0xffffffff, 0xff, [0xff, 0xff]⟩

theorem serial254_starts : Starts crc32 serial254 (some [0, 0]) := by
  right
  refine ⟨.main, rfl, ?_, rfl⟩
  decide +kernel

/-- What a write leaves that does not end. -/
def torn : EnvT (List UInt8) := ⟨8, 0, [2, 0]⟩

theorem torn_bad : ¬torn.Ok crc32 := by
  decide +kernel

/-- Two saves with a power loss between them: 254, 255, and 0 which is newer. -/
theorem boot_loads_lastSaved_wraps :
    (boot crc32 (Board.run crc32 serial254
      [.saved [3, 0], .powerLoss [2, 0] torn, .saved [1, 0]]).mmc).loaded = some [3, 0] := by
  have allowed : Allowed crc32 serial254
      [.saved [3, 0], .powerLoss [2, 0] torn, .saved [1, 0]] :=
    ⟨⟨⟨trivial, trivial⟩, torn_bad⟩, trivial⟩
  have none : NoFailures
      [Event.saved ([3, 0] : List UInt8), .powerLoss [2, 0] torn, .saved [1, 0]] := by
    intro event member data left isFailed
    subst isFailed
    simp at member
  exact boot_loads_lastSaved crc32 serial254 (some [0, 0]) _ serial254_starts allowed
    (serialsNewer_of_noFailures crc32 serial254_starts _ allowed none).1

/-- After a write that fails the next serial number skips one, so that 0 is compared with 254. -/
theorem boot_loads_old_copy :
    ¬∀ (mmc : Mmc (List UInt8)) (start : Option (List UInt8)) (events : List (Event (List UInt8))),
      Starts crc32 mmc start → Allowed crc32 mmc events →
      (boot crc32 (Board.run crc32 mmc events).mmc).loaded = lastSaved start events := by
  intro claim
  have loaded := claim serial254 (some [0, 0]) [.saved [1, 0], .failed [1, 0] torn]
    serial254_starts ⟨⟨trivial, .inl torn_bad⟩, trivial⟩
  have old : (boot crc32 (Board.run crc32 serial254
      [.saved [1, 0], .failed [1, 0] torn]).mmc).loaded = some [0, 0] := by
    decide +kernel
  rw [old] at loaded
  cases loaded

end HrppBoot.Env
