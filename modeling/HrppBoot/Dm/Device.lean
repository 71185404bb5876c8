import HrppBoot.Lib.Steps

/-!
# Devices and their uclasses

`device_bind`, `device_probe`, `device_remove` and `device_unbind` of the driver model, with what
they call of the uclasses. A device is a number that is never given again, and a number without a
device stands for a null pointer. Callbacks of drivers, parents and uclasses are scripts: each may
make any calls of the four functions and then return anything, a missing callback makes none and
returns zero. Allocations fail as the script says. Private data, platform data and names are left
out, and `assert` is compiled out.

The source recurses to parents, to children and through callbacks, so a call has a depth it may
reach, and no result when it does not suffice. Reading a device that was freed has no result either:
the loops over the children read the list while their callbacks change it.
-/

namespace HrppBoot.Dm

open Steps

/-! ## The state -/

/-- `struct udevice`, as far as it is used. -/
structure Udevice where
  parent : Option Nat
  uclass : Nat
  ofOffset : Int
  reqSeq : Int
  seq : Int
  /-- `DM_FLAG_ACTIVATED`. -/
  activated : Bool
  deriving DecidableEq

/-- A call of the driver model: `device_…`. -/
inductive DmCall where
  /-- `device_bind`; `named` says that there is a name. -/
  | bind (named : Bool) (parent : Option Nat) (uclass : Nat) (ofOffset reqSeq : Int)
  | probe (dev : Nat)
  | remove (dev : Nat)
  | unbind (dev : Nat)

/-- The callbacks, and the allocations. -/
inductive Callback where
  | alloc
  /-- `init` of a uclass that is added. -/
  | uclassInit
  /-- `bind` of the driver. -/
  | bind
  /-- `unbind` of the driver. -/
  | unbind
  /-- `ofdata_to_platdata` of the driver. -/
  | ofdataToPlatdata
  /-- `probe` of the driver. -/
  | probe
  /-- `remove` of the driver. -/
  | remove
  /-- `child_post_bind` of the parent's driver. -/
  | childPostBind
  /-- `child_pre_probe` of the parent's driver. -/
  | childPreProbe
  /-- `child_post_remove` of the parent's driver. -/
  | childPostRemove
  /-- `child_post_bind` of the parent's uclass. -/
  | uclassChildPostBind
  /-- `child_pre_probe` of the parent's uclass. -/
  | uclassChildPreProbe
  | uclassPostBind
  | uclassPreUnbind
  | uclassPreProbe
  | uclassPostProbe
  | uclassPreRemove
  deriving DecidableEq

/-- What a callback does: its calls, and then what it returns. -/
structure Reaction where
  calls : List DmCall
  ret : Int

/-- The behaviour of all callbacks, by how many were called before. -/
abbrev Script := Nat → Callback → Nat → Reaction

/-- A call with the devices it comes in between of. -/
structure Moment where
  call : DmCall
  /-- The devices whose parents are being probed for them. -/
  waiting : List Nat
  /-- The devices between their activation and the return of `probe`. -/
  busy : List Nat

/-- What happens to a device. -/
inductive Event where
  /-- `probe` of its driver is called. -/
  | enter (dev : Nat)
  /-- `probe` of its driver returns. -/
  | leave (dev : Nat)
  | down (dev : Nat)
  deriving DecidableEq

/-- The devices, their lists, and what is observed of a run. -/
structure DmState where
  device : Nat → Option Udevice
  /-- `child_head`. -/
  children : Nat → List Nat
  /-- `dev_head` of a uclass. -/
  devHead : Nat → List Nat
  next : Nat
  invoked : Nat
  log : List Event
  /-- Devices that `device_probe_child` has found not activated and whose parents it is probing, the
  last one first. -/
  waiting : List Nat
  /-- Devices between their activation and the return of `probe`, the last one first. -/
  busy : List Nat
  /-- The calls that were made, the last one first. -/
  calls : List Moment

/-- The state before the first call. -/
def DmState.initial : DmState where
  device _ := none
  children _ := []
  devHead _ := []
  next := 0
  invoked := 0
  log := []
  waiting := []
  busy := []
  calls := []

/-- A change of one device. -/
def DmState.update (s : DmState) (dev : Nat) (change : Udevice → Udevice) : DmState :=
  { s with device := fun d => if d = dev then (s.device d).map change else s.device d }

/-- A computation of the driver model. -/
abbrev DmM (α : Type) := Comp DmState α

/-- `-EINVAL`. -/
def einval : Int := -22

/-- `-ENOMEM`. -/
def enomem : Int := -12

/-! ## Callbacks -/

/-- The calls of a callback, whatever they return. -/
def runCalls (exec : DmCall → DmM Int) : List DmCall → DmM Unit
  | [] => pure ()
  | call :: rest => do
    let _ ← exec call
    runCalls exec rest

/-- A callback for a device. -/
def callback (script : Script) (exec : DmCall → DmM Int) (which : Callback) (dev : Nat) : DmM Int := do
  let s ← get
  let reaction := script s.invoked which dev
  modify fun s => { s with invoked := s.invoked + 1 }
  runCalls exec reaction.calls
  pure reaction.ret

/-- An allocation. -/
def alloc (script : Script) (dev : Nat) : DmM Int := do
  let s ← get
  modify fun s => { s with invoked := s.invoked + 1 }
  pure (if (script s.invoked .alloc dev).ret = 0 then 0 else enomem)

/-- A callback that is only there for a device with a parent. -/
def parentCallback (script : Script) (exec : DmCall → DmM Int) (parent : Option Nat)
    (which : Callback) (dev : Nat) : DmM Int :=
  if parent.isSome then callback script exec which dev else pure 0

/-- An event is observed. -/
def observe (event : Event) : DmM Unit := modify fun s => { s with log := event :: s.log }

/-! ## Sequence numbers -/

def dmMaxSeq : Nat := 999

/-- The loop of `uclass_find_device_by_seq`: whether a device of the list has the number. -/
def findSeq (s : DmState) (seq : Int) : List Nat → Option Bool
  | [] => some false
  | d :: rest =>
    match s.device d with
    | none => none
    | some dev => if dev.seq = seq then some true else findSeq s seq rest

/-- `uclass_find_device_by_seq` for allocated numbers: whether the number is in use. -/
def findDeviceBySeq (s : DmState) (uclass : Nat) (seq : Int) : Option Bool :=
  if seq = -1 then some false else findSeq s seq (s.devHead uclass)

/-- The loop of `uclass_resolve_seq`: the first number that is not in use, or `DM_MAX_SEQ`. -/
def firstFreeSeq (s : DmState) (uclass : Nat) : List Nat → Option Int
  | [] => some dmMaxSeq
  | seq :: rest => do
    let used ← findDeviceBySeq s uclass seq
    if used then firstFreeSeq s uclass rest else some seq

def uclassResolveSeq (s : DmState) (dev : Udevice) : Option Int := do
  let used ← findDeviceBySeq s dev.uclass dev.reqSeq
  if !used && dev.reqSeq != -1 then some dev.reqSeq
  else firstFreeSeq s dev.uclass (List.range dmMaxSeq)

/-! ## Probing -/

def uclassPreProbeDevice (script : Script) (exec : DmCall → DmM Int) (parent : Option Nat)
    (dev : Nat) : DmM Int :=
  firstFailure [callback script exec .uclassPreProbe dev,
    parentCallback script exec parent .uclassChildPreProbe dev]

/-- The call of `probe` of the driver. -/
def driverProbe (script : Script) (exec : DmCall → DmM Int) (dev : Nat) : DmM Int := do
  observe (.enter dev)
  let ret ← callback script exec .probe dev
  observe (.leave dev)
  pure ret

/-- The number is stored and the device activated. -/
def activate (dev : Nat) (seq : Int) : DmM Unit :=
  modify fun s =>
    { s.update dev fun d => { d with seq := seq, activated := true } with busy := dev :: s.busy }

/-- The exit `fail` of `device_probe_child`. -/
def probeFail (dev : Nat) (ret : Int) : DmM Int := do
  modify fun s => s.update dev fun d => { d with seq := -1, activated := false }
  observe (.down dev)
  pure ret

/-- The steps of `device_probe_child` from the activation to the return of `probe`. -/
def probeSteps (script : Script) (exec : DmCall → DmM Int) (d : Udevice) (dev : Nat) (seq : Int) :
    DmM Int := do
  activate dev seq
  let ret ← firstFailure [uclassPreProbeDevice script exec d.parent dev,
    parentCallback script exec d.parent .childPreProbe dev,
    if 0 ≤ d.ofOffset then callback script exec .ofdataToPlatdata dev else pure 0,
    driverProbe script exec dev]
  modify fun s => { s with busy := s.busy.tail }
  pure ret

/-- The parent of a device is probed for it. -/
def probeParent (exec : DmCall → DmM Int) (dev parent : Nat) : DmM Int := do
  modify fun s => { s with waiting := dev :: s.waiting }
  let ret ← exec (.probe parent)
  modify fun s => { s with waiting := s.waiting.tail }
  pure ret

/-- `device_probe_child` without data of the parent, `device_probe`. -/
def deviceProbe (script : Script) (exec : DmCall → DmM Int) (dev : Nat) : DmM Int := do
  let s ← get
  match s.device dev with
  | none => pure einval
  | some d =>
    if d.activated then pure 0
    else do
      let ret ← firstFailure [alloc script dev, alloc script dev,
        match d.parent with
        | none => pure 0
        | some parent => firstFailure [alloc script dev, probeParent exec dev parent]]
      if ret ≠ 0 then probeFail dev ret
      else do
        let s ← get
        let d ← liftM (s.device dev)
        let seq ← liftM (uclassResolveSeq s d)
        if seq < 0 then probeFail dev seq
        else do
          let ret ← probeSteps script exec d dev seq
          if ret ≠ 0 then probeFail dev ret
          else do
            let ret ← callback script exec .uclassPostProbe dev
            if ret ≠ 0 then do
              let _ ← exec (.remove dev)
              probeFail dev ret
            else pure 0

/-! ## Removing -/

def uclassPreRemoveDevice (script : Script) (exec : DmCall → DmM Int) (dev : Nat) : DmM Int := do
  let ret ← callback script exec .uclassPreRemove dev
  if ret ≠ 0 then pure ret
  else do
    modify fun s => s.update dev fun d => { d with seq := -1 }
    pure 0

/-- The device is no longer activated. -/
def deactivate (dev : Nat) : DmM Unit := do
  modify fun s => s.update dev fun d => { d with seq := -1, activated := false }
  observe (.down dev)

/-- The child behind a child, or nothing for one that is not in the list. -/
def nextChild : List Nat → Nat → Option (Option Nat)
  | [], _ => none
  | child :: rest, pos => if child = pos then some rest.head? else nextChild rest pos

/-- The loop of `device_remove_children` from a child on: the child behind it is read before it is
removed. -/
def deviceRemoveChildren (exec : DmCall → DmM Int) (dev : Nat) : Nat → Option Nat → DmM Int
  | 0, _ => fun _ => none
  | _ + 1, none => pure 0
  | turns + 1, some pos => do
    let s ← get
    let n ← liftM (nextChild (s.children dev) pos)
    let ret ← exec (.remove pos)
    if ret ≠ 0 then pure ret else deviceRemoveChildren exec dev turns n

def deviceRemove (script : Script) (exec : DmCall → DmM Int) (turns dev : Nat) : DmM Int := do
  let s ← get
  match s.device dev with
  | none => pure einval
  | some d =>
    if !d.activated then pure 0
    else do
      let ret ← uclassPreRemoveDevice script exec dev
      if ret ≠ 0 then pure ret
      else do
        let s ← get
        let ret ← deviceRemoveChildren exec dev turns (s.children dev).head?
        if ret ≠ 0 then callback script exec .uclassPostProbe dev
        else do
          let ret ← callback script exec .remove dev
          if ret ≠ 0 then callback script exec .uclassPostProbe dev
          else do
            let ret ← parentCallback script exec d.parent .childPostRemove dev
            deactivate dev
            pure ret

/-! ## Binding -/

/-- A device leaves the children of its parent. -/
def DmState.unlinkChild (s : DmState) (parent : Option Nat) (dev : Nat) : DmState :=
  { s with children := fun p => if some p = parent then (s.children p).erase dev else s.children p }

/-- A device leaves the list of its uclass. -/
def DmState.unlinkUclass (s : DmState) (uclass dev : Nat) : DmState :=
  { s with devHead := fun u => if u = uclass then (s.devHead u).erase dev else s.devHead u }

/-- A device is freed. -/
def DmState.free (s : DmState) (dev : Nat) : DmState :=
  { s with device := fun d => if d = dev then none else s.device d }

def uclassUnbindDevice (script : Script) (exec : DmCall → DmM Int) (uclass dev : Nat) : DmM Int := do
  let ret ← callback script exec .uclassPreUnbind dev
  if ret ≠ 0 then pure ret
  else do
    modify fun s => s.unlinkUclass uclass dev
    pure 0

/-- The loop of `device_unbind_children` from a child on: the child behind it is read before it is
unbound. -/
def deviceUnbindChildren (exec : DmCall → DmM Int) (dev : Nat) : Nat → Option Nat → DmM Int
  | 0, _ => fun _ => none
  | _ + 1, none => pure 0
  | turns + 1, some pos => do
    let s ← get
    let n ← liftM (nextChild (s.children dev) pos)
    let ret ← exec (.unbind pos)
    let later ← deviceUnbindChildren exec dev turns n
    pure (if ret ≠ 0 then ret else later)

def deviceUnbind (script : Script) (exec : DmCall → DmM Int) (turns dev : Nat) : DmM Int := do
  let s ← get
  match s.device dev with
  | none => pure einval
  | some d =>
    if d.activated then pure einval
    else do
      let ret ← callback script exec .unbind dev
      if ret ≠ 0 then pure ret
      else do
        let s ← get
        let ret ← deviceUnbindChildren exec dev turns (s.children dev).head?
        if ret ≠ 0 then pure ret
        else do
          let ret ← uclassUnbindDevice script exec d.uclass dev
          if ret ≠ 0 then pure ret
          else do
            modify fun s => (s.unlinkChild d.parent dev).free dev
            pure 0

/-- A new device in no list. -/
def DmState.create (s : DmState) (parent : Option Nat) (uclass : Nat) (ofOffset reqSeq : Int) :
    DmState :=
  { s with
    device := fun d => if d = s.next then
      some { parent := parent, uclass := uclass, ofOffset := ofOffset, reqSeq := reqSeq, seq := -1,
             activated := false }
      else s.device d
    next := s.next + 1 }

/-- A device enters the children of its parent. -/
def DmState.linkChild (s : DmState) (parent : Option Nat) (dev : Nat) : DmState :=
  { s with children := fun p => if some p = parent then s.children p ++ [dev] else s.children p }

/-- A device enters the list of its uclass. -/
def DmState.linkUclass (s : DmState) (uclass dev : Nat) : DmState :=
  { s with devHead := fun u => if u = uclass then s.devHead u ++ [dev] else s.devHead u }

def uclassBindDevice (script : Script) (exec : DmCall → DmM Int) (parent : Option Nat)
    (uclass dev : Nat) : DmM Int := do
  modify fun s => s.linkUclass uclass dev
  let ret ← firstFailure [parentCallback script exec parent .uclassChildPostBind dev,
    callback script exec .uclassPostBind dev]
  if ret ≠ 0 then do
    modify fun s => s.unlinkUclass uclass dev
    pure ret
  else pure 0

/-- The exit `fail_uclass_bind` of `device_bind`. -/
def failUclassBind (parent : Option Nat) (dev : Nat) (ret : Int) : DmM Int := do
  modify fun s => (s.unlinkChild parent dev).free dev
  pure ret

/-- The exit `fail_bind` of `device_bind`. -/
def failBind (script : Script) (exec : DmCall → DmM Int) (parent : Option Nat) (uclass dev : Nat)
    (ret : Int) : DmM Int := do
  let _ ← uclassUnbindDevice script exec uclass dev
  failUclassBind parent dev ret

/-- The steps of `device_bind` for the device it has made. -/
def bindCreated (script : Script) (exec : DmCall → DmM Int) (parent : Option Nat)
    (uclass dev : Nat) : DmM Int := do
  let ret ← firstFailure [alloc script dev, alloc script dev,
    if parent.isSome then alloc script dev else pure 0]
  if ret ≠ 0 then do
    modify fun s => s.free dev
    pure ret
  else do
    modify fun s => s.linkChild parent dev
    let ret ← uclassBindDevice script exec parent uclass dev
    if ret ≠ 0 then failUclassBind parent dev ret
    else do
      let ret ← callback script exec .bind dev
      if ret ≠ 0 then failBind script exec parent uclass dev ret
      else do
        let ret ← parentCallback script exec parent .childPostBind dev
        if ret ≠ 0 then do
          let _ ← callback script exec .unbind dev
          failBind script exec parent uclass dev ret
        else pure 0

/-- `device_bind`. There is no result for a parent that is no device. -/
def deviceBind (script : Script) (exec : DmCall → DmM Int) (named : Bool) (parent : Option Nat)
    (uclass : Nat) (ofOffset reqSeq : Int) : DmM Int :=
  if !named then pure einval
  else do
    let s ← get
    let ret ← callback script exec .uclassInit s.next
    if ret ≠ 0 then pure ret
    else do
      let ret ← alloc script s.next
      if ret ≠ 0 then pure ret
      else do
        let s ← get
        let _ ← liftM (if parent.all fun p => (s.device p).isSome then some () else none)
        modify fun s => s.create parent uclass ofOffset reqSeq
        bindCreated script exec parent uclass s.next

/-! ## Calls -/

/-- A call; its loops have so many turns at most. -/
def perform (script : Script) (exec : DmCall → DmM Int) (turns : Nat) : DmCall → DmM Int
  | .bind named parent uclass ofOffset reqSeq =>
    deviceBind script exec named parent uclass ofOffset reqSeq
  | .probe dev => deviceProbe script exec dev
  | .remove dev => deviceRemove script exec turns dev
  | .unbind dev => deviceUnbind script exec turns dev

/-- A call with the depth it may reach. -/
def exec (script : Script) : Nat → DmCall → DmM Int
  | 0, _ => fun _ => none
  | depth + 1, call => do
    modify fun s => { s with calls := ⟨call, s.waiting, s.busy⟩ :: s.calls }
    perform script (exec script depth) depth call

/-- Calls one after the other, whatever they return. -/
def runAll (script : Script) (depth : Nat) : List DmCall → DmState → Option DmState
  | [], s => some s
  | call :: rest, s => (exec script depth call s).bind fun result => runAll script depth rest result.2

/-- The states a run of calls leads to, call by call. -/
inductive Reached (script : Script) : DmState → Prop where
  | start : Reached script .initial
  | call {s t : DmState} {depth : Nat} {call : DmCall} {ret : Int} (before : Reached script s)
      (ran : exec script depth call s = some (ret, t)) : Reached script t

theorem reached_runAll {script : Script} {depth : Nat} {calls : List DmCall} {s t : DmState}
    (before : Reached script s) (ran : runAll script depth calls s = some t) :
    Reached script t := by
  induction calls generalizing s with
  | nil =>
    obtain rfl := Option.some.inj ran
    exact before
  | cons call rest ih =>
    obtain ⟨result, first, later⟩ := Option.bind_eq_some_iff.mp ran
    exact ih (before.call first) later

/-- A parent and its child are bound. -/
def bindParentAndChild : List DmCall :=
  [.bind true none 0 (-1) (-1), .bind true (some 0) 1 (-1) (-1)]

end HrppBoot.Dm
