import Mathlib.Tactic.ByContra
import Mathlib.Tactic.Tauto

/-!
# Removing a tree of devices

`device_remove` for a device with its descendants, with their private data. A callback returns what
it likes and leaves the devices as they are; each is called at most once for a device, so that its
result is part of the device.
-/

namespace HrppBoot.Dm.Removal

/-! ## The devices -/

/-- `struct driver`, as far as a removal uses it. -/
structure Driver where
  privAutoAllocSize : Nat
  perChildAutoAllocSize : Nat
  remove : Bool
  childPostRemove : Bool

/-- `struct uclass_driver`, as far as a removal uses it. -/
structure UclassDriver where
  perDeviceAutoAllocSize : Nat
  perChildAutoAllocSize : Nat
  preRemove : Bool
  postProbe : Bool

/-- What the callbacks return that are called for a device. -/
structure Results where
  /-- `pre_remove` of its uclass. -/
  preRemove : Int
  /-- `remove` of its driver. -/
  remove : Int
  /-- `child_post_remove` of the driver of its parent. -/
  childPostRemove : Int
  /-- `post_probe` of its uclass. -/
  postProbe : Int

/-- `struct udevice`, as far as a removal uses it. A pointer is none if it is null. -/
structure Udevice where
  driver : Driver
  ucDrv : UclassDriver
  results : Results
  /-- `DM_FLAG_ACTIVATED` -/
  activated : Bool
  seq : Int
  priv : Option Nat
  uclassPriv : Option Nat
  parentPriv : Option Nat

inductive DeviceTree where
  | node (dev : Udevice) (children : List DeviceTree)

namespace DeviceTree

theorem induction {one : DeviceTree → Prop} {all : List DeviceTree → Prop}
    (node : ∀ dev children, all children → one (.node dev children)) (nil : all [])
    (cons : ∀ child rest, one child → all rest → all (child :: rest)) :
    (∀ tree, one tree) ∧ ∀ trees, all trees :=
  ⟨@DeviceTree.rec one all node nil cons, @DeviceTree.rec_1 one all node nil cons⟩

def dev : DeviceTree → Udevice
  | node dev _ => dev

mutual

def devices : DeviceTree → List Udevice
  | node dev children => dev :: devicesOf children

def devicesOf : List DeviceTree → List Udevice
  | [] => []
  | child :: rest => devices child ++ devicesOf rest

end

end DeviceTree

/-! ## The functions -/

/-- The driver of the parent and that of its uclass, none for a device without a parent. -/
abbrev Parent := Option (Driver × UclassDriver)

def callback (present : Bool) (result : Int) : Int := if present then result else 0

/-- `child_post_remove` of the parent's driver. -/
def childPostRemove (parent : Parent) (dev : Udevice) : Int :=
  callback (parent.any fun p => p.1.childPostRemove) dev.results.childPostRemove

/-- The size of the parent's data for a child: that of the driver, or that of the uclass. -/
def parentSize (parent : Parent) : Nat :=
  match parent with
  | none => 0
  | some p => if p.1.perChildAutoAllocSize = 0 then p.2.perChildAutoAllocSize
    else p.1.perChildAutoAllocSize

def deviceFree (parent : Parent) (dev : Udevice) : Udevice :=
  { dev with
    priv := if dev.driver.privAutoAllocSize = 0 then dev.priv else none
    uclassPriv := if dev.ucDrv.perDeviceAutoAllocSize = 0 then dev.uclassPriv else none
    parentPriv := if parentSize parent = 0 then dev.parentPriv else none }

/-- The last steps of `device_remove`. -/
def shutDown (parent : Parent) (dev : Udevice) : Udevice :=
  { deviceFree parent dev with seq := -1, activated := false }

def uclassPostProbeDevice (dev : Udevice) : Int :=
  callback dev.ucDrv.postProbe dev.results.postProbe

/-- What `uclass_pre_remove_device` returns. -/
def preRemove (dev : Udevice) : Int := callback dev.ucDrv.preRemove dev.results.preRemove

/-- What `uclass_pre_remove_device` changes when `pre_remove` does not fail. -/
def release (dev : Udevice) : Udevice :=
  { dev with
    uclassPriv := if dev.ucDrv.perDeviceAutoAllocSize = 0 then dev.uclassPriv else none
    seq := -1 }

/-- `remove` of the driver. -/
def driverRemove (dev : Udevice) : Int := callback dev.driver.remove dev.results.remove

def asParent (dev : Udevice) : Parent := some (dev.driver, dev.ucDrv)

mutual

def deviceRemove (parent : Parent) : DeviceTree → Int × DeviceTree
  | .node dev children =>
    if !dev.activated then (0, .node dev children)
    else if preRemove dev ≠ 0 then (preRemove dev, .node dev children)
    else
      let removed := deviceRemoveChildren (asParent dev) children
      if removed.1 ≠ 0 then (uclassPostProbeDevice dev, .node (release dev) removed.2)
      else if driverRemove dev ≠ 0 then
        (uclassPostProbeDevice dev, .node (release dev) removed.2)
      else
        (childPostRemove parent dev, .node (shutDown parent (release dev)) removed.2)

def deviceRemoveChildren (parent : Parent) : List DeviceTree → Int × List DeviceTree
  | [] => (0, [])
  | child :: rest =>
    let first := deviceRemove parent child
    if first.1 ≠ 0 then (first.1, first.2 :: rest)
    else
      let others := deviceRemoveChildren parent rest
      (others.1, first.2 :: others.2)

end

/-! ## What is wanted -/

/-- The device has its number and its data as before, and is activated. -/
structure Usable (before after : Udevice) : Prop where
  activated : after.activated = true
  seq : after.seq = before.seq
  priv : after.priv = before.priv
  uclassPriv : after.uclassPriv = before.uclassPriv
  parentPriv : after.parentPriv = before.parentPriv

def AllDown (devices : List Udevice) : Prop := ∀ dev ∈ devices, dev.activated = false

/-- What is wanted of a result: it is zero for devices that are down, and with an error the device
is usable. -/
structure RemoveRight (tree : DeviceTree) (result : Int × DeviceTree) : Prop where
  zero : result.1 = 0 ↔ AllDown result.2.devices
  usable : result.1 ≠ 0 → Usable tree.dev result.2.dev

mutual

/-- No callback of an activated device of the tree fails that is called on the way, and below a
device that is not activated no other is. -/
def Goes (parent : Parent) : DeviceTree → Prop
  | .node dev children =>
    if dev.activated then
      preRemove dev = 0 ∧ AllGo (asParent dev) children ∧ driverRemove dev = 0 ∧
        childPostRemove parent dev = 0
    else AllDown (DeviceTree.devicesOf children)

def AllGo (parent : Parent) : List DeviceTree → Prop
  | [] => True
  | child :: rest => Goes parent child ∧ AllGo parent rest

end

mutual

/-- A callback fails, and no `post_probe` behind it hides that. -/
def Reports (parent : Parent) : DeviceTree → Prop
  | .node dev children =>
    dev.activated = true ∧ (preRemove dev ≠ 0 ∨
      ((OneReports (asParent dev) children ∨ driverRemove dev ≠ 0) ∧
        uclassPostProbeDevice dev ≠ 0) ∨
      (¬OneReports (asParent dev) children ∧ driverRemove dev = 0 ∧
        childPostRemove parent dev ≠ 0))

def OneReports (parent : Parent) : List DeviceTree → Prop
  | [] => False
  | child :: rest => Reports parent child ∨ OneReports parent rest

end

/-! ## One removal -/

section OneRemoval

variable (parent : Parent) (dev : Udevice) (children : List DeviceTree)

theorem deviceRemove_inactive (inactive : dev.activated = false) :
    deviceRemove parent (.node dev children) = (0, .node dev children) := by
  rw [deviceRemove, inactive]
  rfl

variable {parent dev children}

theorem deviceRemove_refused (active : dev.activated = true) (refused : preRemove dev ≠ 0) :
    deviceRemove parent (.node dev children) = (preRemove dev, .node dev children) := by
  rw [deviceRemove, active, if_neg (by decide), if_pos refused]

theorem deviceRemove_failed (active : dev.activated = true) (started : preRemove dev = 0)
    (failed : (deviceRemoveChildren (asParent dev) children).1 ≠ 0 ∨ driverRemove dev ≠ 0) :
    deviceRemove parent (.node dev children) = (uclassPostProbeDevice dev,
      .node (release dev) (deviceRemoveChildren (asParent dev) children).2) := by
  rw [deviceRemove, active, if_neg (by decide), if_neg (not_not.mpr started)]
  by_cases child : (deviceRemoveChildren (asParent dev) children).1 ≠ 0
  · exact if_pos child
  · exact (if_neg child).trans (if_pos (failed.resolve_left child))

theorem deviceRemove_down (active : dev.activated = true) (started : preRemove dev = 0)
    (below : (deviceRemoveChildren (asParent dev) children).1 = 0)
    (removed : driverRemove dev = 0) :
    deviceRemove parent (.node dev children) = (childPostRemove parent dev,
      .node (shutDown parent (release dev)) (deviceRemoveChildren (asParent dev) children).2) := by
  rw [deviceRemove, active, if_neg (by decide), if_neg (not_not.mpr started)]
  exact (if_neg (not_not.mpr below)).trans (if_neg (not_not.mpr removed))

end OneRemoval

/-! ## All trees -/

theorem allDown_node (dev : Udevice) (children : List DeviceTree) :
    AllDown (DeviceTree.devices (.node dev children)) ↔
      dev.activated = false ∧ AllDown (DeviceTree.devicesOf children) := by
  rw [DeviceTree.devices]
  exact List.forall_mem_cons

theorem allDown_cons (child : DeviceTree) (rest : List DeviceTree) :
    AllDown (DeviceTree.devicesOf (child :: rest)) ↔
      AllDown child.devices ∧ AllDown (DeviceTree.devicesOf rest) := by
  rw [DeviceTree.devicesOf]
  exact List.forall_mem_append

/-- When a removal reports an error, and when it succeeds with all devices down. -/
structure Outcome (reports goes : Prop) (result : Int) (devices : List Udevice) : Prop where
  error : result ≠ 0 ↔ reports
  success : result = 0 ∧ AllDown devices ↔ goes

/-- The outcome for a device, from that for its children. -/
theorem outcome_node {dev : Udevice} {children : List DeviceTree} {parent : Parent}
    (here : Outcome (OneReports (asParent dev) children) (AllGo (asParent dev) children)
      (deviceRemoveChildren (asParent dev) children).1
      (DeviceTree.devicesOf (deviceRemoveChildren (asParent dev) children).2)) :
    Outcome (Reports parent (.node dev children)) (Goes parent (.node dev children))
      (deviceRemove parent (.node dev children)).1
      (deviceRemove parent (.node dev children)).2.devices := by
  by_cases active : dev.activated = true
  · by_cases started : preRemove dev = 0
    · by_cases failed : (deviceRemoveChildren (asParent dev) children).1 ≠ 0 ∨
          driverRemove dev ≠ 0
      · rw [deviceRemove_failed active started failed]
        have up : (release dev).activated = true := active
        constructor
        · rw [Reports, ← here.error]
          tauto
        · rw [allDown_node, up, Goes, if_pos active, ← here.success]
          tauto
      · obtain ⟨gone, removed⟩ := not_or.mp failed
        rw [deviceRemove_down active started (not_not.mp gone) (not_not.mp removed)]
        constructor
        · rw [Reports, ← here.error]
          tauto
        · rw [allDown_node, Goes, if_pos active, ← here.success]
          tauto
    · rw [deviceRemove_refused active started]
      constructor
      · rw [Reports]
        tauto
      · rw [Goes, if_pos active]
        tauto
  · have inactive : dev.activated = false := Bool.eq_false_iff.mpr active
    rw [deviceRemove_inactive parent dev children inactive]
    constructor
    · rw [Reports]
      tauto
    · rw [allDown_node, Goes, if_neg active]
      tauto

theorem outcome_cons {child : DeviceTree} {rest : List DeviceTree} {parent : Parent}
    (one : Outcome (Reports parent child) (Goes parent child) (deviceRemove parent child).1
      (deviceRemove parent child).2.devices)
    (more : Outcome (OneReports parent rest) (AllGo parent rest)
      (deviceRemoveChildren parent rest).1
      (DeviceTree.devicesOf (deviceRemoveChildren parent rest).2)) :
    Outcome (OneReports parent (child :: rest)) (AllGo parent (child :: rest))
      (deviceRemoveChildren parent (child :: rest)).1
      (DeviceTree.devicesOf (deviceRemoveChildren parent (child :: rest)).2) := by
  rw [deviceRemoveChildren]
  dsimp only
  by_cases failed : (deviceRemove parent child).1 ≠ 0
  · rw [if_pos failed]
    constructor
    · rw [OneReports, ← one.error]
      tauto
    · rw [AllGo, ← one.success]
      tauto
  · rw [if_neg failed]
    constructor
    · rw [OneReports, ← one.error, ← more.error]
      tauto
    · rw [allDown_cons, AllGo, ← one.success, ← more.success]
      tauto

theorem outcome :
    (∀ tree parent, Outcome (Reports parent tree) (Goes parent tree) (deviceRemove parent tree).1
      (deviceRemove parent tree).2.devices) ∧
    ∀ trees parent, Outcome (OneReports parent trees) (AllGo parent trees)
      (deviceRemoveChildren parent trees).1
      (DeviceTree.devicesOf (deviceRemoveChildren parent trees).2) := by
  refine DeviceTree.induction ?node ?nil ?cons
  case node => exact fun dev children below parent => outcome_node (below (asParent dev))
  case nil =>
    intro parent
    rw [deviceRemoveChildren]
    constructor
    · rw [OneReports]
      tauto
    · rw [AllGo]
      exact iff_of_true ⟨rfl, fun dev member => absurd member List.not_mem_nil⟩ trivial
  case cons =>
    exact fun child rest first others parent => outcome_cons (first parent) (others parent)

/-- The removal goes through; or `pre_remove` refuses it; or the device has no number and no data of
its uclass, and behind a child or a driver that fails `post_probe` fails as well. -/
def RemoveFits (parent : Parent) : DeviceTree → Prop
  | .node dev children =>
    Goes parent (.node dev children) ∨ dev.activated = true ∧ (preRemove dev ≠ 0 ∨
      dev.seq = -1 ∧ (dev.ucDrv.perDeviceAutoAllocSize = 0 ∨ dev.uclassPriv = none) ∧
        (OneReports (asParent dev) children ∨ driverRemove dev ≠ 0) ∧
          uclassPostProbeDevice dev ≠ 0)

theorem usable_release (dev : Udevice) (active : dev.activated = true) :
    Usable dev (release dev) ↔
      dev.seq = -1 ∧ (dev.ucDrv.perDeviceAutoAllocSize = 0 ∨ dev.uclassPriv = none) := by
  constructor
  · intro usable
    refine ⟨usable.seq.symm, ?_⟩
    by_cases size : dev.ucDrv.perDeviceAutoAllocSize = 0
    · exact Or.inl size
    · have data := usable.uclassPriv
      simp only [release, if_neg size] at data
      exact Or.inr data.symm
  · rintro ⟨seq, data⟩
    refine ⟨active, seq.symm, rfl, ?_, rfl⟩
    by_cases size : dev.ucDrv.perDeviceAutoAllocSize = 0
    · exact if_pos size
    · exact (if_neg size).trans (data.resolve_left size).symm

/-- `device_remove` does what is wanted exactly for these devices and callbacks. -/
theorem removeRight_iff (parent : Parent) (tree : DeviceTree) :
    RemoveRight tree (deviceRemove parent tree) ↔ RemoveFits parent tree := by
  cases tree with
  | node dev children =>
    have whole := outcome.1 (.node dev children) parent
    have below := outcome.2 children (asParent dev)
    rw [RemoveFits]
    by_cases active : dev.activated = true
    · by_cases started : preRemove dev = 0
      · by_cases failed : (deviceRemoveChildren (asParent dev) children).1 ≠ 0 ∨
            driverRemove dev ≠ 0
        · rw [deviceRemove_failed active started failed] at whole ⊢
          have up : (release dev).activated = true := active
          have still : ¬AllDown (DeviceTree.devices
              (.node (release dev) (deviceRemoveChildren (asParent dev) children).2)) := by
            rw [allDown_node, up]
            tauto
          have stuck : ¬Goes parent (.node dev children) := fun goes =>
            still (whole.success.mpr goes).2
          have usable := usable_release dev active
          rw [below.error] at failed
          constructor
          · intro right
            have error : uclassPostProbeDevice dev ≠ 0 := fun zero => still (right.zero.mp zero)
            have nothing := usable.mp (right.usable error)
            exact Or.inr ⟨active, Or.inr ⟨nothing.1, nothing.2, failed, error⟩⟩
          · rintro (goes | ⟨-, refused | ⟨seq, data, -, error⟩⟩)
            · exact absurd goes stuck
            · exact absurd started refused
            · exact ⟨iff_of_false error still, fun _ => usable.mpr ⟨seq, data⟩⟩
        · rw [below.error] at failed
          obtain ⟨gone, removed⟩ := not_or.mp failed
          have down := @deviceRemove_down parent _ _ active started
            (not_not.mp (below.error.not.mpr gone)) (not_not.mp removed)
          rw [down] at whole ⊢
          constructor
          · intro right
            have zero : childPostRemove parent dev = 0 := by
              by_contra error
              exact Bool.false_ne_true (right.usable error).activated
            exact Or.inl (whole.success.mp ⟨zero, right.zero.mp zero⟩)
          · rintro (goes | ⟨-, refused | ⟨-, -, other, -⟩⟩)
            · obtain ⟨zero, allDown⟩ := whole.success.mpr goes
              exact ⟨iff_of_true zero allDown, fun error => absurd zero error⟩
            · exact absurd started refused
            · exact absurd other failed
      · rw [deviceRemove_refused active started]
        refine iff_of_true ⟨iff_of_false started ?_, fun _ => ⟨active, rfl, rfl, rfl, rfl⟩⟩
          (Or.inr ⟨active, Or.inl started⟩)
        rw [allDown_node, active]
        tauto
    · have inactive : dev.activated = false := Bool.eq_false_iff.mpr active
      rw [deviceRemove_inactive parent dev children inactive] at whole ⊢
      constructor
      · intro right
        exact Or.inl (whole.success.mp ⟨rfl, right.zero.mp rfl⟩)
      · rintro (goes | ⟨up, -⟩)
        · exact ⟨iff_of_true rfl (whole.success.mpr goes).2, fun error => absurd rfl error⟩
        · exact absurd up active

/-- A device without descendants, whose driver refuses to be removed. -/
def refusing : DeviceTree :=
  .node
    { driver := ⟨16, 0, true, false⟩
      ucDrv := ⟨16, 0, false, false⟩
      results := ⟨0, -16, 0, 0⟩
      activated := true
      seq := 0
      priv := some 0x87800000
      uclassPriv := some 0x87800100
      parentPriv := none } []

/-- The removal succeeds, and the device is still activated. -/
theorem refusing_not_right : ¬RemoveRight refusing (deviceRemove none refusing) := by
  intro right
  have down := right.zero.mp (by decide)
  have top : (deviceRemove none refusing).2.devices.head?.any (·.activated) = true := by decide
  cases result : (deviceRemove none refusing).2 with
  | node dev children =>
    rw [result] at down top
    rw [allDown_node] at down
    rw [DeviceTree.devices] at top
    exact Bool.false_ne_true (down.1.symm.trans top)

end HrppBoot.Dm.Removal
