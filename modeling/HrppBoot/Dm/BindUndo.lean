import Mathlib.Data.List.Basic

/-!
# Binding a device that fails

`device_bind` with its exits, with and without `CONFIG_DM_DEVICE_REMOVE`, and the two lists it puts
the new device in: the children of its parent and the devices of its uclass. A callback returns what
it likes, and may bind and unbind other devices on its way.
-/

namespace HrppBoot.Dm.BindUndo

/-! ## The lists -/

inductive Listed where
  | new
  | other (d : Nat)
  deriving DecidableEq

structure Lists (α : Type) where
  /-- `child_head` of the parent, empty without a parent. -/
  childHead : List α
  /-- `dev_head` of the uclass. -/
  devHead : List α

inductive Change where
  | linkChild (d : Nat)
  | unlinkChild (d : Nat)
  | linkUclass (d : Nat)
  | unlinkUclass (d : Nat)

/-- A change of lists in which devices have names. -/
def Lists.apply {α : Type} [DecidableEq α] (name : Nat → α) (lists : Lists α) : Change → Lists α
  | .linkChild d => { lists with childHead := lists.childHead ++ [name d] }
  | .unlinkChild d => { lists with childHead := lists.childHead.erase (name d) }
  | .linkUclass d => { lists with devHead := lists.devHead ++ [name d] }
  | .unlinkUclass d => { lists with devHead := lists.devHead.erase (name d) }

/-- The lists without the new device, as changes leave them. -/
def Lists.run (lists : Lists Nat) (changes : List Change) : Lists Nat :=
  changes.foldl (Lists.apply id) lists

/-- The same lists among those that may have the new device. -/
def Lists.others (lists : Lists Nat) : Lists Listed :=
  ⟨lists.childHead.map .other, lists.devHead.map .other⟩

/-- The lists during `device_bind`, and all that callbacks have changed. -/
structure State where
  lists : Lists Listed
  changes : List Change

def State.change (s : State) (change : Change) : State :=
  ⟨s.lists.apply .other change, s.changes ++ [change]⟩

/-- The new device enters the children of the parent. -/
def State.linkChild (s : State) : State :=
  { s with lists := { s.lists with childHead := s.lists.childHead ++ [.new] } }

def State.unlinkChild (s : State) : State :=
  { s with lists := { s.lists with childHead := s.lists.childHead.erase .new } }

/-- The new device enters the list of its uclass. -/
def State.linkUclass (s : State) : State :=
  { s with lists := { s.lists with devHead := s.lists.devHead ++ [.new] } }

def State.unlinkUclass (s : State) : State :=
  { s with lists := { s.lists with devHead := s.lists.devHead.erase .new } }

/-! ## What is bound -/

structure Reaction where
  changes : List Change
  ret : Int

/-- `struct driver`, as far as a binding uses it. A callback may be missing. -/
structure Driver where
  platdataAutoAllocSize : Nat
  bind : Option Reaction
  unbind : Option Reaction

/-- `struct uclass_driver`, as far as a binding uses it. -/
structure UclassDriver where
  perDevicePlatdataAutoAllocSize : Nat
  postBind : Option Reaction
  preUnbind : Option Reaction

/-- What a binding uses of the parent: its driver and that of its uclass. -/
structure ParentDevice where
  /-- `per_child_platdata_auto_alloc_size` of its driver -/
  driverPlatdataSize : Nat
  /-- `per_child_platdata_auto_alloc_size` of its uclass -/
  uclassPlatdataSize : Nat
  /-- `child_post_bind` of its driver -/
  childPostBind : Option Reaction
  uclassChildPostBind : Option Reaction

/-- The arguments of `device_bind`, and what happens on the way. -/
structure Binding where
  named : Bool
  platdata : Bool
  parent : Option ParentDevice
  driver : Driver
  ucDrv : UclassDriver
  uclassGet : Reaction
  deviceMemory : Bool
  platdataMemory : Bool
  uclassPlatdataMemory : Bool
  parentPlatdataMemory : Bool

/-! ## The functions -/

/-- `-EINVAL` -/
def einval : Int := -22

/-- `-ENOMEM` -/
def enomem : Int := -12

def callback (reaction : Option Reaction) (s : State) : Int × State :=
  match reaction with
  | none => (0, s)
  | some reaction => (reaction.ret, reaction.changes.foldl State.change s)

def returned (reaction : Option Reaction) : Int := (reaction.map (·.ret)).getD 0

namespace Binding

variable (b : Binding)

/-- Platform data has to be allocated, and there is no memory. -/
def platdataFails : Bool :=
  !b.platdata && b.driver.platdataAutoAllocSize != 0 && !b.platdataMemory

/-- The same for the platform data of the uclass. -/
def uclassPlatdataFails : Bool :=
  b.ucDrv.perDevicePlatdataAutoAllocSize != 0 && !b.uclassPlatdataMemory

/-- The same for the platform data of the parent. -/
def parentPlatdataFails : Bool :=
  b.parent.any fun parent =>
    (if parent.driverPlatdataSize = 0 then parent.uclassPlatdataSize
      else parent.driverPlatdataSize) != 0 && !b.parentPlatdataMemory

/-- `child_post_bind` of the driver of the parent. -/
def childPostBind : Option Reaction := b.parent.bind (·.childPostBind)

/-- `child_post_bind` of the uclass of the parent. -/
def uclassChildPostBind : Option Reaction := b.parent.bind (·.uclassChildPostBind)

def uclassBindDevice (s : State) : Int × State :=
  let child := callback b.uclassChildPostBind s.linkUclass
  if child.1 ≠ 0 then (child.1, child.2.unlinkUclass)
  else
    let post := callback b.ucDrv.postBind child.2
    if post.1 ≠ 0 then (post.1, post.2.unlinkUclass) else (0, post.2)

def uclassUnbindDevice (s : State) : State :=
  let unbound := callback b.ucDrv.preUnbind s
  if unbound.1 ≠ 0 then unbound.2 else unbound.2.unlinkUclass

/-- The exit `fail_uclass_bind`. Without a parent the device is in no list of children. -/
def failUclassBind (remove : Bool) (s : State) : State :=
  if remove && b.parent.isSome then s.unlinkChild else s

/-- The exit `fail_bind`. -/
def failBind (remove : Bool) (s : State) : State :=
  b.failUclassBind remove (if remove then b.uclassUnbindDevice s else s)

/-- The exit `fail_child_post_bind`. -/
def failChildPostBind (remove : Bool) (s : State) : State :=
  b.failBind remove (if remove then (callback b.driver.unbind s).2 else s)

/-- `device_bind` from the point at which nothing is left to allocate. -/
def bindAllocated (remove : Bool) (s : State) : Int × State :=
  let bound := b.uclassBindDevice (if b.parent.isSome then s.linkChild else s)
  if bound.1 ≠ 0 then (bound.1, b.failUclassBind remove bound.2)
  else
    let own := callback b.driver.bind bound.2
    if own.1 ≠ 0 then (own.1, b.failBind remove own.2)
    else
      let child := callback b.childPostBind own.2
      if child.1 ≠ 0 then (child.1, b.failChildPostBind remove child.2) else (0, child.2)

/-- `device_bind`; `remove` is `CONFIG_DM_DEVICE_REMOVE`. -/
def deviceBind (remove : Bool) (s : State) : Int × State :=
  if !b.named then (einval, s)
  else
    let uc := callback (some b.uclassGet) s
    if uc.1 ≠ 0 then uc
    else if !b.deviceMemory then (enomem, uc.2)
    else if b.platdataFails || b.uclassPlatdataFails || b.parentPlatdataFails then (enomem, uc.2)
    else b.bindAllocated remove uc.2

/-- What is wanted: behind a failure the lists are those that the callbacks have left, without the
new device. They are as before if the callbacks have changed nothing. -/
def Undone (remove : Bool) (before : Lists Nat) : Prop :=
  (b.deviceBind remove ⟨before.others, []⟩).1 ≠ 0 →
    (b.deviceBind remove ⟨before.others, []⟩).2.lists =
      (before.run (b.deviceBind remove ⟨before.others, []⟩).2.changes).others

/-- Nothing fails before the device enters a list. -/
def Enters : Prop :=
  b.named = true ∧ b.uclassGet.ret = 0 ∧ b.deviceMemory = true ∧ b.platdataFails = false ∧
    b.uclassPlatdataFails = false ∧ b.parentPlatdataFails = false

/-- A callback of `uclass_bind_device` fails. -/
def UclassFails : Prop := returned b.uclassChildPostBind ≠ 0 ∨ returned b.ucDrv.postBind ≠ 0

/-- `bind` of the driver or `child_post_bind` of the parent's driver fails. -/
def DriverFails : Prop := returned b.driver.bind ≠ 0 ∨ returned b.childPostBind ≠ 0

/-- The failures that are undone: those of `uclass_bind_device` in a device without a parent or with
`CONFIG_DM_DEVICE_REMOVE`, and later ones with it if `pre_unbind` succeeds. -/
def UndoFits (remove : Bool) : Prop :=
  b.Enters → (b.UclassFails → remove = true ∨ b.parent = none) ∧
    (¬b.UclassFails → b.DriverFails → remove = true ∧ returned b.ucDrv.preUnbind = 0)

end Binding

/-! ## One list -/

/-- A list with the new device or without it, and its other devices. -/
structure Placed (present : Prop) (base : List Nat) (l : List Listed) : Prop where
  others : l.erase .new = base.map .other
  mem : .new ∈ l ↔ present

theorem new_notMem_others (base : List Nat) : Listed.new ∉ base.map Listed.other := by
  intro member
  obtain ⟨d, -, same⟩ := List.mem_map.mp member
  cases same

theorem new_ne_other (d : Nat) : Listed.new ≠ .other d := by
  intro same
  cases same

theorem placed_others (base : List Nat) : Placed False base (base.map .other) :=
  ⟨List.erase_of_not_mem (new_notMem_others base), iff_of_false (new_notMem_others base) id⟩

namespace Placed

variable {present : Prop} {base : List Nat} {l : List Listed}

theorem eq_others_iff (placed : Placed present base l) : l = base.map .other ↔ ¬present := by
  constructor
  · intro same there
    have member := placed.mem.mpr there
    rw [same] at member
    exact new_notMem_others base member
  · intro absent
    have missing : Listed.new ∉ l := fun member => absent (placed.mem.mp member)
    rw [← placed.others, List.erase_of_not_mem missing]

theorem append (placed : Placed present base l) (d : Nat) :
    Placed present (base ++ [d]) (l ++ [.other d]) := by
  constructor
  · rw [List.map_append, ← placed.others]
    by_cases there : Listed.new ∈ l
    · exact List.erase_append_left _ there
    · rw [List.erase_append_right _ there, List.erase_of_not_mem there]
      rfl
  · rw [← placed.mem, List.mem_append, List.mem_singleton]
    exact or_iff_left (new_ne_other d)

theorem erase (placed : Placed present base l) (d : Nat) :
    Placed present (base.erase d) (l.erase (.other d)) := by
  constructor
  · have injective : Function.Injective Listed.other := fun _ _ same => Listed.other.inj same
    rw [List.erase_comm, placed.others, List.map_erase injective]
  · rw [List.mem_erase_of_ne (new_ne_other d)]
    exact placed.mem

theorem link (placed : Placed False base l) : Placed True base (l ++ [.new]) := by
  have missing : Listed.new ∉ l := fun member => placed.mem.mp member
  constructor
  · rw [List.erase_append_right _ missing, ← placed.others, List.erase_of_not_mem missing]
    exact List.append_nil l
  · exact iff_of_true (List.mem_append_right l List.mem_cons_self) trivial

theorem unlink (placed : Placed present base l) : Placed False base (l.erase .new) := by
  rw [placed.others]
  exact placed_others base

end Placed

/-! ## Both lists -/

/-- Which lists have the new device, in a state that was reached from some lists. -/
structure Reached (before : Lists Nat) (child uclass : Prop) (s : State) : Prop where
  childHead : Placed child (before.run s.changes).childHead s.lists.childHead
  devHead : Placed uclass (before.run s.changes).devHead s.lists.devHead

theorem reached_start (before : Lists Nat) : Reached before False False ⟨before.others, []⟩ :=
  ⟨placed_others before.childHead, placed_others before.devHead⟩

namespace Reached

variable {before : Lists Nat} {child uclass : Prop} {s : State}

theorem eq_others_iff (reached : Reached before child uclass s) :
    s.lists = (before.run s.changes).others ↔ ¬child ∧ ¬uclass := by
  rw [← reached.childHead.eq_others_iff, ← reached.devHead.eq_others_iff]
  constructor
  · intro same
    exact ⟨congrArg Lists.childHead same, congrArg Lists.devHead same⟩
  · rintro ⟨children, devices⟩
    cases lists : s.lists with
    | mk childHead devHead =>
      rw [lists] at children devices
      dsimp only at children devices
      rw [children, devices]
      rfl

theorem change (reached : Reached before child uclass s) (c : Change) :
    Reached before child uclass (s.change c) := by
  have next : before.run (s.change c).changes = (before.run s.changes).apply id c :=
    List.foldl_append
  constructor
  · rw [next]
    cases c with
    | linkChild d => exact reached.childHead.append d
    | unlinkChild d => exact reached.childHead.erase d
    | linkUclass d => exact reached.childHead
    | unlinkUclass d => exact reached.childHead
  · rw [next]
    cases c with
    | linkChild d => exact reached.devHead
    | unlinkChild d => exact reached.devHead
    | linkUclass d => exact reached.devHead.append d
    | unlinkUclass d => exact reached.devHead.erase d

theorem callback (reached : Reached before child uclass s) (reaction : Option Reaction) :
    Reached before child uclass (callback reaction s).2 := by
  cases reaction with
  | none => exact reached
  | some reaction =>
    rw [BindUndo.callback]
    dsimp only
    generalize reaction.changes = changes
    induction changes generalizing s with
    | nil => exact reached
    | cons c rest ih => exact ih (reached.change c)

theorem linkChild (reached : Reached before False uclass s) :
    Reached before True uclass s.linkChild :=
  ⟨reached.childHead.link, reached.devHead⟩

theorem unlinkChild (reached : Reached before child uclass s) :
    Reached before False uclass s.unlinkChild :=
  ⟨reached.childHead.unlink, reached.devHead⟩

theorem linkUclass (reached : Reached before child False s) :
    Reached before child True s.linkUclass :=
  ⟨reached.childHead, reached.devHead.link⟩

theorem unlinkUclass (reached : Reached before child uclass s) :
    Reached before child False s.unlinkUclass :=
  ⟨reached.childHead, reached.devHead.unlink⟩

end Reached

/-! ## The exits -/

namespace Binding

variable (b : Binding)

theorem callback_ret (reaction : Option Reaction) (s : State) :
    (callback reaction s).1 = returned reaction := by
  cases reaction <;> rfl

variable {before : Lists Nat} {child : Prop} {s : State}

theorem uclassBindDevice_ret (s : State) : (b.uclassBindDevice s).1 ≠ 0 ↔ b.UclassFails := by
  rw [uclassBindDevice, UclassFails]
  dsimp only
  by_cases one : returned b.uclassChildPostBind = 0
  · rw [callback_ret, if_neg (not_not.mpr one), callback_ret]
    by_cases other : returned b.ucDrv.postBind = 0
    · rw [if_neg (not_not.mpr other)]
      exact iff_of_false (not_not.mpr rfl) (not_or.mpr ⟨not_not.mpr one, not_not.mpr other⟩)
    · rw [if_pos other]
      exact iff_of_true other (Or.inr other)
  · rw [callback_ret, if_pos one]
    exact iff_of_true one (Or.inl one)

theorem reached_uclassBindDevice (reached : Reached before child False s) :
    Reached before child (¬b.UclassFails) (b.uclassBindDevice s).2 := by
  have first := reached.linkUclass.callback b.uclassChildPostBind
  have second := first.callback b.ucDrv.postBind
  rw [uclassBindDevice, UclassFails]
  dsimp only
  by_cases one : returned b.uclassChildPostBind = 0
  · rw [callback_ret, if_neg (not_not.mpr one), callback_ret]
    by_cases other : returned b.ucDrv.postBind = 0
    · rw [if_neg (not_not.mpr other)]
      rwa [eq_true (not_or.mpr ⟨not_not.mpr one, not_not.mpr other⟩)]
    · rw [if_pos other, eq_false (not_not.mpr (Or.inr other))]
      exact second.unlinkUclass
  · rw [callback_ret, if_pos one, eq_false (not_not.mpr (Or.inl one))]
    exact first.unlinkUclass

theorem reached_uclassUnbindDevice (reached : Reached before child True s) :
    Reached before child (returned b.ucDrv.preUnbind ≠ 0) (b.uclassUnbindDevice s) := by
  have called := reached.callback b.ucDrv.preUnbind
  rw [uclassUnbindDevice, callback_ret]
  by_cases refused : returned b.ucDrv.preUnbind ≠ 0
  · rw [if_pos refused]
    rwa [eq_true refused]
  · rw [if_neg refused, eq_false refused]
    exact called.unlinkUclass

theorem reached_failUclassBind {uclass : Prop} (remove : Bool)
    (reached : Reached before (b.parent.isSome = true) uclass s) :
    Reached before (b.parent.isSome = true ∧ remove = false) uclass
      (b.failUclassBind remove s) := by
  rw [failUclassBind]
  cases remove with
  | false =>
    rw [Bool.false_and, if_neg Bool.false_ne_true]
    rwa [and_iff_left (rfl : false = false)]
  | true =>
    have absent : ¬(b.parent.isSome = true ∧ true = false) := fun both => Bool.noConfusion both.2
    rw [Bool.true_and, eq_false absent]
    by_cases parent : b.parent.isSome = true
    · rw [if_pos parent]
      exact reached.unlinkChild
    · rw [if_neg parent]
      rwa [eq_false parent] at reached

theorem reached_failBind (remove : Bool)
    (reached : Reached before (b.parent.isSome = true) True s) :
    Reached before (b.parent.isSome = true ∧ remove = false)
      (remove = true → returned b.ucDrv.preUnbind ≠ 0) (b.failBind remove s) := by
  rw [failBind]
  apply reached_failUclassBind
  cases remove with
  | false =>
    rw [if_neg Bool.false_ne_true, eq_true (fun same : false = true => Bool.noConfusion same)]
    exact reached
  | true =>
    rw [if_pos rfl, forall_prop_of_true rfl]
    exact b.reached_uclassUnbindDevice reached

/-- Nothing is allocated any more: the failures that are undone. -/
theorem bindAllocated_undone (remove : Bool) (reached : Reached before False False s) :
    ((b.bindAllocated remove s).1 ≠ 0 → (b.bindAllocated remove s).2.lists =
        (before.run (b.bindAllocated remove s).2.changes).others) ↔
      (b.UclassFails → remove = true ∨ b.parent = none) ∧
        (¬b.UclassFails → b.DriverFails → remove = true ∧ returned b.ucDrv.preUnbind = 0) := by
  have entered : Reached before (b.parent.isSome = true) False
      (if b.parent.isSome then s.linkChild else s) := by
    by_cases parent : b.parent.isSome = true
    · rw [if_pos parent, eq_true parent]
      exact reached.linkChild
    · rw [if_neg parent, eq_false parent]
      exact reached
  have bound := b.reached_uclassBindDevice entered
  have failed := b.uclassBindDevice_ret (if b.parent.isSome then s.linkChild else s)
  rw [bindAllocated]
  dsimp only
  generalize b.uclassBindDevice (if b.parent.isSome then s.linkChild else s) = result
    at bound failed
  by_cases fails : b.UclassFails
  · rw [if_pos (failed.mpr fails), (b.reached_failUclassBind remove bound).eq_others_iff]
    rw [Option.isSome_iff_ne_none, ← Bool.not_eq_true]
    have error := failed.mpr fails
    tauto
  · rw [if_neg (fun error => fails (failed.mp error))]
    rw [eq_true fails] at bound
    have own := bound.callback b.driver.bind
    have child := own.callback b.childPostBind
    have unbound := child.callback b.driver.unbind
    rw [DriverFails, callback_ret]
    by_cases one : returned b.driver.bind = 0
    · rw [if_neg (not_not.mpr one), callback_ret]
      by_cases other : returned b.childPostBind = 0
      · rw [if_neg (not_not.mpr other)]
        tauto
      · have unlinked : Reached before (b.parent.isSome = true) True
            (if remove then (callback b.driver.unbind
              (callback b.childPostBind (callback b.driver.bind result.2).2).2).2
              else (callback b.childPostBind (callback b.driver.bind result.2).2).2) := by
          cases remove with
          | false => exact child
          | true => exact unbound
        rw [if_pos other, failChildPostBind,
          (b.reached_failBind remove unlinked).eq_others_iff, ← Bool.not_eq_true]
        tauto
    · rw [if_pos one, (b.reached_failBind remove own).eq_others_iff, ← Bool.not_eq_true]
      tauto

theorem reached_deviceBind_early (remove : Bool) (early : ¬b.Enters)
    (reached : Reached before False False s) :
    Reached before False False (b.deviceBind remove s).2 := by
  have called := reached.callback (some b.uclassGet)
  rw [Enters] at early
  rw [deviceBind]
  dsimp only
  by_cases named : b.named = true
  · rw [named, if_neg (by decide)]
    by_cases uclass : (callback (some b.uclassGet) s).1 ≠ 0
    · rwa [if_pos uclass]
    · rw [if_neg uclass]
      by_cases memory : b.deviceMemory = true
      · rw [memory, if_neg (by decide)]
        have fails :
            (b.platdataFails || b.uclassPlatdataFails || b.parentPlatdataFails) = true := by
          by_contra none
          rw [Bool.not_eq_true, Bool.or_eq_false_iff, Bool.or_eq_false_iff] at none
          exact early ⟨named, not_not.mp uclass, memory, none.1.1, none.1.2, none.2⟩
        rwa [if_pos fails]
      · rw [Bool.not_eq_true] at memory
        rwa [memory, if_pos (by decide)]
  · rw [Bool.not_eq_true] at named
    rwa [named, if_pos (by decide)]

theorem deviceBind_entered (remove : Bool) (enters : b.Enters) (s : State) :
    b.deviceBind remove s = b.bindAllocated remove (callback (some b.uclassGet) s).2 := by
  obtain ⟨named, uclass, memory, driver, own, parent⟩ := enters
  rw [deviceBind, named, memory, driver, own, parent]
  exact if_neg (not_not.mpr uclass)

/-- Behind a failure the lists are as the callbacks have left them exactly if the device came into
no list, or its exit takes it out of both. -/
theorem undone_iff_undoFits (remove : Bool) (before : Lists Nat) :
    b.Undone remove before ↔ b.UndoFits remove := by
  have start := reached_start before
  by_cases enters : b.Enters
  · rw [Undone, UndoFits, b.deviceBind_entered remove enters, forall_prop_of_true enters]
    exact b.bindAllocated_undone remove (start.callback (some b.uclassGet))
  · have early := b.reached_deviceBind_early remove enters start
    refine iff_of_true (fun _ => ?_) fun entered => absurd entered enters
    exact early.eq_others_iff.mpr ⟨id, id⟩

/-- A device without a parent, whose driver refuses to bind it. -/
def refused : Binding where
  named := true
  platdata := false
  parent := none
  driver := ⟨0, some ⟨[], -22⟩, none⟩
  ucDrv := ⟨0, none, none⟩
  uclassGet := ⟨[], 0⟩
  deviceMemory := true
  platdataMemory := true
  uclassPlatdataMemory := true
  parentPlatdataMemory := true

/-- Without `CONFIG_DM_DEVICE_REMOVE` the freed device stays in the list of its uclass. -/
theorem refused_not_undone : ¬refused.Undone false ⟨[], []⟩ := by
  intro undone
  have same := congrArg Lists.devHead (undone (by decide))
  exact absurd same (by decide)

end Binding

end HrppBoot.Dm.BindUndo
