import HrppBoot.Dm.Device
import Mathlib.Data.List.Count

/-!
# Probing is entered once

Callbacks may call the driver model while a device is being probed. `device_probe_child` tests the
activated flag before it probes the parent, and not again. As long as nothing probes a device in
between, and nothing removes a device between its activation and the return of its `probe`, `probe`
of a driver is never called for a device that is activated already or whose `probe` has not
returned.
-/

namespace HrppBoot.Dm

open Steps

/-! ## What is observed -/

/-- `probe` was called for the device and the device was not deactivated since. -/
def up : List Event → Nat → Bool
  | [], _ => false
  | .enter d :: rest, dev => d == dev || up rest dev
  | .leave _ :: rest, dev => up rest dev
  | .down d :: rest, dev => d != dev && up rest dev

/-- How many calls of `probe` for the device have not returned. -/
def inProgress (log : List Event) (dev : Nat) : Int :=
  (log.count (.enter dev) : Int) - log.count (.leave dev)

/-- Each call of `probe` was for a device that was not activated by an earlier call and whose
`probe` was not in progress. -/
def ProbedOnce : List Event → Prop
  | [] => True
  | .enter d :: rest => up rest d = false ∧ inProgress rest d = 0 ∧ ProbedOnce rest
  | .leave _ :: rest => ProbedOnce rest
  | .down _ :: rest => ProbedOnce rest

/-- A call that does not come in between: no device is probed while its parent is being probed for
it, and none is removed between its activation and the return of its `probe`. -/
def Moment.Calm (moment : Moment) : Prop :=
  match moment.call with
  | .probe dev => dev ∉ moment.waiting
  | .remove dev => dev ∉ moment.busy
  | .bind .. | .unbind _ => True

instance (moment : Moment) : Decidable moment.Calm := by
  unfold Moment.Calm
  cases moment.call <;> infer_instance

/-- No call so far came in between. -/
def DmState.Calm (s : DmState) : Prop := ∀ moment ∈ s.calls, moment.Calm

theorem inProgress_enter (log : List Event) (d dev : Nat) :
    inProgress (.enter d :: log) dev = inProgress log dev + if d = dev then 1 else 0 := by
  simp only [inProgress, List.count_cons, beq_iff_eq, Event.enter.injEq, reduceCtorEq, if_false]
  split <;> omega

theorem inProgress_leave (log : List Event) (d dev : Nat) :
    inProgress (.leave d :: log) dev = inProgress log dev - if d = dev then 1 else 0 := by
  simp only [inProgress, List.count_cons, beq_iff_eq, Event.leave.injEq, reduceCtorEq, if_false]
  split <;> omega

theorem inProgress_down (log : List Event) (d dev : Nat) :
    inProgress (.down d :: log) dev = inProgress log dev := by
  simp [inProgress]

/-- The activated flag of a device that is there. -/
def DmState.flag (s : DmState) (dev : Nat) : Option Bool := (s.device dev).map (·.activated)

/-- The devices agree with what was observed. -/
structure Orderly (s : DmState) : Prop where
  given : ∀ d, (s.device d).isSome → d < s.next
  /-- Every call of `probe` was at a good time. -/
  once : ProbedOnce s.log
  upActive : ∀ d, up s.log d = true → d < s.next ∧ s.flag d ≠ some false
  busyActive : ∀ d ∈ s.busy, s.flag d = some true
  /-- A call of `probe` in progress belongs to a device that is being probed. -/
  progress : ∀ d, inProgress s.log d ≠ 0 → d ∈ s.busy

/-- A state is orderly unless a call came in between. -/
def Fine (s : DmState) : Prop := s.Calm → Orderly s

/-- What a part of a run without calls that come in between leaves as it was, except that `probe`
may have been called for the devices that `Spared` does not hold of. -/
structure Left (Spared : Nat → Prop) (s t : DmState) : Prop where
  calm : s.Calm
  busy : t.busy = s.busy
  waiting : t.waiting = s.waiting
  progress : ∀ d, inProgress t.log d = inProgress s.log d
  ups : ∀ d ∈ s.busy, Spared d → up t.log d = true → up s.log d = true
  /-- A device that waits for its parent is not activated. -/
  idle : ∀ d ∈ s.waiting, t.flag d = some true → s.flag d = some true

def KeptFor (Spared : Nat → Prop) (s t : DmState) : Prop :=
  Fine s → Fine t ∧ (t.Calm → Left Spared s t)

def Kept (s t : DmState) : Prop := KeptFor (fun _ => True) s t

section Kept

variable {Spared : Nat → Prop} {s t u : DmState}

theorem Left.trans (first : Left Spared s t) (second : Left Spared t u) : Left Spared s u where
  calm := first.calm
  busy := second.busy.trans first.busy
  waiting := second.waiting.trans first.waiting
  progress d := (second.progress d).trans (first.progress d)
  ups d member spared upD :=
    first.ups d member spared (second.ups d (by rwa [first.busy]) spared upD)
  idle d member active := first.idle d member (second.idle d (by rwa [first.waiting]) active)

theorem KeptFor.refl (s : DmState) : KeptFor Spared s s :=
  fun fine => ⟨fine, fun calm =>
    ⟨calm, rfl, rfl, fun _ => rfl, fun _ _ _ up => up, fun _ _ active => active⟩⟩

theorem KeptFor.trans (first : KeptFor Spared s t) (second : KeptFor Spared t u) :
    KeptFor Spared s u := by
  intro fine
  obtain ⟨fineT, keptT⟩ := first fine
  obtain ⟨fineU, keptU⟩ := second fineT
  exact ⟨fineU, fun calm => (keptT (keptU calm).calm).trans (keptU calm)⟩

theorem Kept.weaken (kept : Kept s t) : KeptFor Spared s t := by
  intro fine
  obtain ⟨fineT, keptT⟩ := kept fine
  exact ⟨fineT, fun calm =>
    { keptT calm with ups := fun d member _ upD => (keptT calm).ups d member trivial upD }⟩

instance : Std.Refl Kept := ⟨fun s => KeptFor.refl s⟩

instance : IsTrans DmState Kept := ⟨fun _ _ _ first second => KeptFor.trans first second⟩

/-- A step that activates no device and observes nothing. -/
theorem kept_quiet (log : t.log = s.log) (busy : t.busy = s.busy) (waiting : t.waiting = s.waiting)
    (calls : t.calls = s.calls) (next : s.next ≤ t.next)
    (given : (∀ d, (s.device d).isSome → d < s.next) → ∀ d, (t.device d).isSome → d < t.next)
    (flags : ∀ d, d < s.next → t.flag d = s.flag d)
    (idle : ∀ d, t.flag d = some true → s.flag d = some true) : Kept s t := by
  have same : t.Calm → s.Calm := fun calm => by rwa [DmState.Calm, ← calls]
  intro fine
  constructor
  · intro calm
    have orderly := fine (same calm)
    constructor
    · exact given orderly.given
    · rw [log]
      exact orderly.once
    · intro d upD
      rw [log] at upD
      obtain ⟨known, active⟩ := orderly.upActive d upD
      exact ⟨by omega, by rwa [flags d known]⟩
    · intro d member
      rw [busy] at member
      have active := orderly.busyActive d member
      have known : d < s.next := by
        apply orderly.given
        rw [DmState.flag] at active
        cases device : s.device d with
        | none => simp [device] at active
        | some dv => rfl
      rw [flags d known, active]
    · intro d going
      rw [log] at going
      rw [busy]
      exact orderly.progress d going
  · intro calm
    refine ⟨same calm, busy, waiting, fun d => by rw [log], fun d _ _ upD => ?_, fun d _ => idle d⟩
    rwa [log] at upD

theorem lt_of_flag {d : Nat} {active : Bool} (orderly : Orderly s) (known : s.flag d = some active)
    :
    d < s.next := by
  apply orderly.given
  rw [DmState.flag] at known
  cases device : s.device d with
  | none => simp [device] at known
  | some dv => rfl

variable {dev : Nat}

theorem flag_update_of_ne {d : Nat} (other : d ≠ dev) (change : Udevice → Udevice) :
    (s.update dev change).flag d = s.flag d := by
  simp [DmState.flag, DmState.update, other]

theorem flag_update_self (dev : Nat) (change : Udevice → Udevice) (active : Bool)
    (sets : ∀ d, (change d).activated = active) :
    (s.update dev change).flag dev = (s.flag dev).map fun _ => active := by
  simp [DmState.flag, DmState.update, Function.comp_def, sets]

theorem isSome_update (dev d : Nat) (change : Udevice → Udevice) :
    ((s.update dev change).device d).isSome = (s.device d).isSome := by
  by_cases same : d = dev <;> simp [DmState.update, same]

/-- A state that is fine and in which a device is not being probed. -/
def Apart (dev : Nat) (s : DmState) : Prop := Fine s ∧ (s.Calm → dev ∉ s.busy)

theorem Apart.stable {dev : Nat} (s t : DmState) (apart : Apart dev s) (kept : Kept s t) :
    Apart dev t := by
  obtain ⟨fine, keptT⟩ := kept apart.1
  refine ⟨fine, fun calm => ?_⟩
  rw [(keptT calm).busy]
  exact apart.2 (keptT calm).calm

/-- A device that is not being probed is deactivated. -/
theorem kept_down (apart : Apart dev s) :
    Kept s { s.update dev fun d => { d with seq := -1, activated := false } with
      log := .down dev :: s.log } := by
  intro fine
  constructor
  · intro calm
    have orderly := fine calm
    have outside := apart.2 calm
    constructor
    · intro d known
      exact orderly.given d (by rw [← isSome_update dev d]; exact known)
    · exact orderly.once
    · intro d upD
      simp only [up, Bool.and_eq_true, bne_iff_ne] at upD
      obtain ⟨known, active⟩ := orderly.upActive d upD.2
      refine ⟨known, ?_⟩
      change (s.update dev _).flag d ≠ some false
      rwa [flag_update_of_ne (Ne.symm upD.1)]
    · intro d member
      have other : d ≠ dev := fun same => outside (same ▸ member)
      change (s.update dev _).flag d = some true
      rw [flag_update_of_ne other]
      exact orderly.busyActive d member
    · intro d going
      rw [inProgress_down] at going
      exact orderly.progress d going
  · intro calm
    refine ⟨calm, rfl, rfl, fun d => inProgress_down _ _ _, fun d _ _ upD => ?_,
      fun d _ active => ?_⟩
    · simp only [up, Bool.and_eq_true] at upD
      exact upD.2
    · change (s.update dev _).flag d = some true at active
      by_cases same : d = dev
      · subst same
        rw [flag_update_self d _ false fun _ => rfl] at active
        cases known : s.flag d <;> simp [known] at active
      · rwa [flag_update_of_ne same] at active

theorem apart_of_flag (fine : Fine s) (idle : s.flag dev ≠ some true) :
    Apart dev s :=
  ⟨fine, fun calm member => idle ((fine calm).busyActive dev member)⟩

theorem kept_free (apart : Apart dev s) : Kept s (s.free dev) := by
  intro fine
  constructor
  · intro calm
    have orderly := fine calm
    have gone : ∀ d, d ≠ dev → (s.free dev).flag d = s.flag d := by
      intro d other
      simp [DmState.flag, DmState.free, other]
    have none : (s.free dev).flag dev = Option.none := by simp [DmState.flag, DmState.free]
    constructor
    · intro d known
      apply orderly.given
      by_cases same : d = dev
      · simp [DmState.free, same] at known
      · simpa [DmState.free, same] using known
    · exact orderly.once
    · intro d upD
      obtain ⟨known, active⟩ := orderly.upActive d upD
      refine ⟨known, ?_⟩
      by_cases same : d = dev
      · rw [same, none]
        simp
      · rwa [gone d same]
    · intro d member
      have other : d ≠ dev := fun same => apart.2 calm (same ▸ member)
      rw [gone d other]
      exact orderly.busyActive d member
    · exact orderly.progress
  · intro calm
    refine ⟨calm, rfl, rfl, fun _ => rfl, fun _ _ _ upD => upD, fun d _ active => ?_⟩
    by_cases same : d = dev
    · simp [DmState.flag, DmState.free, same] at active
    · simpa [DmState.flag, DmState.free, same] using active

end Kept

/-! ## The parts of a call -/

section Parts

variable {script : Script} {exec : DmCall → DmM Int}
  (called : ∀ call, Keeps (fun _ => True) Kept (exec call))

include called

theorem keeps_runCalls (calls : List DmCall) :
    Keeps (fun _ => True) Kept (runCalls exec calls) := by
  induction calls with
  | nil => exact keeps_pure ()
  | cons call rest ih => exact keeps_bind anytime (called call) fun _ => ih

theorem keeps_callback (which : Callback) (dev : Nat) :
    Keeps (fun _ => True) Kept (callback script exec which dev) := by
  refine keeps_bind anytime keeps_get fun s => ?_
  refine keeps_bind anytime (keeps_modify fun s _ => ?_) fun _ => ?_
  · exact kept_quiet rfl rfl rfl rfl (Nat.le_refl _) id (fun _ _ => rfl) fun _ active => active
  · exact keeps_bind anytime (keeps_runCalls called _) fun _ => keeps_pure _

theorem keeps_parentCallback (parent : Option Nat) (which : Callback) (dev : Nat) :
    Keeps (fun _ => True) Kept (parentCallback script exec parent which dev) :=
  keeps_ite (keeps_callback called which dev) (keeps_pure 0)

omit called in
theorem keeps_alloc (dev : Nat) : Keeps (fun _ => True) Kept (alloc script dev) := by
  refine keeps_bind anytime keeps_get fun s => ?_
  refine keeps_bind anytime (keeps_modify fun s _ => ?_) fun _ => keeps_pure _
  exact kept_quiet rfl rfl rfl rfl (Nat.le_refl _) id (fun _ _ => rfl) fun _ active => active

omit called in
theorem keeps_down (dev : Nat) (ret : Int) : Keeps (Apart dev) Kept (do
    modify fun s => s.update dev fun d => { d with seq := -1, activated := false }
    observe (.down dev)
    pure ret : DmM Int) := by
  intro s a t apart ran
  obtain ⟨_, cleared, changed, ran⟩ := bind_some.mp ran
  obtain ⟨_, observed, logged, ran⟩ := bind_some.mp ran
  obtain rfl := modify_some.mp changed
  obtain rfl := modify_some.mp logged
  obtain ⟨-, rfl⟩ := pure_some.mp ran
  exact kept_down apart

/-! ### Probing -/

/-- A state in which `probe` may be called for a device. -/
def Ready (dev : Nat) (s : DmState) : Prop :=
  Fine s ∧ (s.Calm → dev ∈ s.busy ∧ up s.log dev = false ∧ inProgress s.log dev = 0)

omit called in
theorem Ready.stable {dev : Nat} (s t : DmState) (ready : Ready dev s) (kept : Kept s t) :
    Ready dev t := by
  obtain ⟨fine, keptT⟩ := kept ready.1
  refine ⟨fine, fun calm => ?_⟩
  have left := keptT calm
  obtain ⟨member, notUp, idle⟩ := ready.2 left.calm
  refine ⟨by rwa [left.busy], ?_, by rw [left.progress, idle]⟩
  cases upT : up t.log dev with
  | false => rfl
  | true => exact absurd (left.ups dev member trivial upT) (by simp [notUp])

variable {dev : Nat}

omit called in
theorem fine_enter {s : DmState} (ready : Ready dev s) :
    Fine { s with log := .enter dev :: s.log } := by
  intro calm
  have orderly := ready.1 calm
  obtain ⟨member, notUp, idle⟩ := ready.2 calm
  have active := orderly.busyActive dev member
  constructor
  · exact orderly.given
  · exact ⟨notUp, idle, orderly.once⟩
  · intro d upD
    simp only [up, Bool.or_eq_true, beq_iff_eq] at upD
    rcases upD with rfl | upD
    · have known : dev < s.next := lt_of_flag orderly active
      refine ⟨known, ?_⟩
      change s.flag dev ≠ some false
      simp [active]
    · exact orderly.upActive d upD
  · exact orderly.busyActive
  · intro d going
    rw [inProgress_enter] at going
    by_cases same : dev = d
    · rwa [← same]
    · rw [if_neg same, Int.add_zero] at going
      exact orderly.progress d going

/-- `probe` of the driver. -/
theorem keeps_driverProbe (dev : Nat) :
    Keeps (Ready dev) (KeptFor (· ≠ dev)) (driverProbe script exec dev) := by
  intro s a t ready ran
  obtain ⟨_, entered, logged, ran⟩ := bind_some.mp ran
  obtain ⟨ret, returned, probed, ran⟩ := bind_some.mp ran
  obtain ⟨_, left, observed, ran⟩ := bind_some.mp ran
  obtain rfl := modify_some.mp logged
  obtain rfl := modify_some.mp observed
  obtain ⟨-, rfl⟩ := pure_some.mp ran
  obtain ⟨fine, kept⟩ := keeps_callback called .probe dev _ _ _ trivial probed (fine_enter ready)
  intro _
  have settled : returned.Calm → ∀ d,
      inProgress (.leave dev :: returned.log) d = inProgress s.log d := by
    intro calm d
    rw [inProgress_leave, (kept calm).progress, inProgress_enter]
    omega
  constructor
  · intro calm
    have orderly := fine calm
    have left := kept calm
    refine ⟨orderly.given, orderly.once, orderly.upActive, orderly.busyActive, ?_⟩
    intro d going
    change d ∈ returned.busy
    rw [left.busy]
    rw [settled calm] at going
    exact (ready.1 left.calm).progress d going
  · intro calm
    have left := kept calm
    refine ⟨left.calm, left.busy, left.waiting, settled calm, fun d member other upD => ?_,
      left.idle⟩
    have upE := left.ups d member trivial upD
    simp only [up, Bool.or_eq_true, beq_iff_eq] at upE
    exact upE.resolve_left (Ne.symm other)

/-- A device that is not activated and whose parent is not being probed for it. -/
def Idle (dev : Nat) (s : DmState) : Prop := s.Calm → dev ∉ s.waiting ∧ s.flag dev ≠ some true

/-- A part of a run that does not activate a device. -/
def KeptIdle (dev : Nat) (s t : DmState) : Prop := Kept s t ∧ (Fine s → Idle dev s → Idle dev t)

instance : Std.Refl (KeptIdle dev) := ⟨fun s => ⟨KeptFor.refl s, fun _ idle => idle⟩⟩

instance : IsTrans DmState (KeptIdle dev) :=
  ⟨fun _ _ _ first second => ⟨first.1.trans second.1, fun fine idle =>
    second.2 (first.1 fine).1 (first.2 fine idle)⟩⟩

omit called in
theorem keepsIdle_alloc (dev : Nat) : Keeps (fun _ => True) (KeptIdle dev) (alloc script dev) := by
  intro s a t _ ran
  refine ⟨keeps_alloc dev s a t trivial ran, ?_⟩
  obtain ⟨_, _, got, ran⟩ := bind_some.mp ran
  obtain ⟨rfl, rfl⟩ := get_some.mp got
  obtain ⟨_, _, changed, ran⟩ := bind_some.mp ran
  obtain rfl := modify_some.mp changed
  obtain ⟨-, rfl⟩ := pure_some.mp ran
  exact fun _ idle => idle

/-- A device that waits for its parent is not activated by the probing of the parent. -/
theorem keepsIdle_probeParent (dev parent : Nat) :
    Keeps (fun _ => True) (KeptIdle dev) (probeParent exec dev parent) := by
  intro s a t _ ran
  obtain ⟨_, _, changed, ran⟩ := bind_some.mp ran
  obtain rfl := modify_some.mp changed
  obtain ⟨ret, probed, parentRan, ran⟩ := bind_some.mp ran
  obtain ⟨_, _, changed, ran⟩ := bind_some.mp ran
  obtain rfl := modify_some.mp changed
  obtain ⟨-, rfl⟩ := pure_some.mp ran
  have kept := called (.probe parent) _ _ _ trivial parentRan
  have entered (fine : Fine s) : Fine { s with waiting := dev :: s.waiting } := fun calm =>
    ⟨(fine calm).given, (fine calm).once, (fine calm).upActive, (fine calm).busyActive,
      (fine calm).progress⟩
  have popped {left : List Nat} (same : probed.waiting = dev :: left) :
      probed.waiting.tail = left := by rw [same, List.tail_cons]
  constructor
  · intro fine
    obtain ⟨fineP, leftP⟩ := kept (entered fine)
    constructor
    · intro calm
      have orderly := fineP calm
      exact ⟨orderly.given, orderly.once, orderly.upActive, orderly.busyActive, orderly.progress⟩
    · intro calm
      have left := leftP calm
      exact ⟨left.calm, left.busy, popped left.waiting, left.progress, left.ups,
        fun d member => left.idle d (List.mem_cons_of_mem dev member)⟩
  · intro fine idle calm
    have left := (kept (entered fine)).2 calm
    obtain ⟨outside, off⟩ := idle left.calm
    refine ⟨?_, fun active => off (left.idle dev List.mem_cons_self active)⟩
    change dev ∉ probed.waiting.tail
    rwa [popped left.waiting]

omit called in
/-- The state behind the activation of a device. -/
theorem ready_activate {s : DmState} {seq : Int} (apart : Apart dev s) (idle : Idle dev s)
    (there : (s.device dev).isSome) {t : DmState} (ran : activate dev seq s = some ((), t)) :
    Ready dev t ∧ t.log = s.log ∧ t.busy = dev :: s.busy ∧ t.waiting = s.waiting ∧
      (t.Calm → s.Calm) ∧ ∀ d, d ≠ dev → t.flag d = s.flag d := by
  obtain rfl := modify_some.mp ran
  have off (calm : s.Calm) : s.flag dev = some false := by
    obtain ⟨d, device⟩ := Option.isSome_iff_exists.mp there
    have notActive := (idle calm).2
    simp only [DmState.flag, device, Option.map_some, ne_eq, Option.some.injEq,
      Bool.not_eq_true] at notActive ⊢
    exact notActive
  refine ⟨⟨?_, ?_⟩, rfl, rfl, rfl, fun calm => calm, fun d other => flag_update_of_ne other _⟩
  · intro calm
    have orderly := apart.1 calm
    have active : (s.update dev fun d => { d with seq := seq, activated := true }).flag dev =
        some true := by
      rw [flag_update_self dev _ true (fun _ => rfl), off calm]
      rfl
    constructor
    · intro d known
      exact orderly.given d (by rw [← isSome_update dev d]; exact known)
    · exact orderly.once
    · intro d upD
      obtain ⟨known, up⟩ := orderly.upActive d upD
      refine ⟨known, ?_⟩
      change (s.update dev _).flag d ≠ some false
      by_cases same : d = dev
      · rw [same, active]
        simp
      · rwa [flag_update_of_ne same]
    · intro d member
      change (s.update dev _).flag d = some true
      by_cases same : d = dev
      · rw [same, active]
      · rw [flag_update_of_ne same]
        exact orderly.busyActive d ((List.mem_cons.mp member).resolve_left same)
    · intro d going
      exact List.mem_cons_of_mem dev (orderly.progress d going)
  · intro calm
    have orderly := apart.1 calm
    refine ⟨List.mem_cons_self, ?_, ?_⟩
    · cases upD : up s.log dev with
      | false => exact upD
      | true => exact absurd (off calm) (orderly.upActive dev upD).2
    · by_contra going
      exact apart.2 calm (orderly.progress dev going)

theorem keeps_uclassPreProbeDevice (parent : Option Nat) (dev : Nat) :
    Keeps (fun _ => True) Kept (uclassPreProbeDevice script exec parent dev) := by
  refine keeps_firstFailure anytime fun step member => ?_
  simp only [List.mem_cons, List.not_mem_nil, or_false] at member
  rcases member with rfl | rfl
  · exact keeps_callback called _ dev
  · exact keeps_parentCallback called _ _ dev

/-- The steps from the activation to the return of `probe`. -/
theorem keeps_probeSteps (d : Udevice) (dev : Nat) (seq : Int) :
    Keeps (fun s => Apart dev s ∧ Idle dev s ∧ (s.device dev).isSome) Kept
      (probeSteps script exec d dev seq) := by
  intro s a t before ran
  obtain ⟨_, activated, raised, ran⟩ := bind_some.mp ran
  obtain ⟨ret, probed, steps, ran⟩ := bind_some.mp ran
  obtain ⟨_, popped, changed, ran⟩ := bind_some.mp ran
  obtain rfl := modify_some.mp changed
  obtain ⟨-, rfl⟩ := pure_some.mp ran
  obtain ⟨ready, log, busy, waiting, calmer, others⟩ :=
    ready_activate before.1 before.2.1 before.2.2 raised
  have each : ∀ step ∈ [uclassPreProbeDevice script exec d.parent dev,
      parentCallback script exec d.parent .childPreProbe dev,
      if 0 ≤ d.ofOffset then callback script exec .ofdataToPlatdata dev else pure 0],
      Keeps (Ready dev) Kept step := by
    intro step member
    refine Keeps.anywhere (?_ : Keeps (fun _ => True) Kept step)
    simp only [List.mem_cons, List.not_mem_nil, or_false] at member
    rcases member with rfl | rfl | rfl
    · exact keeps_uclassPreProbeDevice called d.parent dev
    · exact keeps_parentCallback called _ _ dev
    · exact keeps_ite (keeps_callback called _ dev) (keeps_pure 0)
  have kept := keeps_firstFailure_last (@Ready.stable dev) (fun _ _ => Kept.weaken)
    (fun _ _ _ first second => KeptFor.trans first.weaken second) each
    (keeps_driverProbe called dev) _ _ _ ready steps ready.1
  intro fine
  obtain ⟨fineProbed, keptProbed⟩ := kept
  constructor
  · intro calm
    have orderly := fineProbed calm
    have left := keptProbed calm
    refine ⟨orderly.given, orderly.once, orderly.upActive, ?_, ?_⟩
    · intro other member
      apply orderly.busyActive
      exact List.mem_of_mem_tail member
    · intro other going
      change other ∈ probed.busy.tail
      rw [left.busy, busy, List.tail_cons]
      rw [left.progress, log] at going
      exact (fine (calmer left.calm)).progress other going
  · intro calm
    have left := keptProbed calm
    have calmS := calmer left.calm
    refine ⟨calmS, ?_, left.waiting.trans waiting, fun other => by rw [left.progress, log],
      fun other member _ upO => ?_, fun other member active => ?_⟩
    · change probed.busy.tail = s.busy
      rw [left.busy, busy, List.tail_cons]
    · have different : other ≠ dev := fun same => before.1.2 calmS (same ▸ member)
      rw [← log]
      exact left.ups other (by rw [busy]; exact List.mem_cons_of_mem dev member) different upO
    · have different : other ≠ dev := fun same => (before.2.1 calmS).1 (same ▸ member)
      rw [← others other different]
      exact left.idle other (by rwa [waiting]) active

theorem keeps_beforeActivation (parent : Option Nat) (dev : Nat) :
    Keeps (fun _ => True) (KeptIdle dev) (firstFailure [alloc script dev, alloc script dev,
      match parent with
      | none => pure 0
      | some parent => firstFailure [alloc script dev, probeParent exec dev parent]]) := by
  refine keeps_firstFailure anytime fun step member => ?_
  simp only [List.mem_cons, List.not_mem_nil, or_false] at member
  rcases member with rfl | rfl | rfl
  · exact keepsIdle_alloc dev
  · exact keepsIdle_alloc dev
  · cases parent with
    | none => exact keeps_pure 0
    | some parent =>
      refine keeps_firstFailure anytime fun step member => ?_
      simp only [List.mem_cons, List.not_mem_nil, or_false] at member
      rcases member with rfl | rfl
      · exact keepsIdle_alloc dev
      · exact keepsIdle_probeParent called dev parent

/-- `device_probe`, for a device whose parent is not being probed for it. -/
theorem keeps_deviceProbe (dev : Nat) :
    Keeps (fun s => s.Calm → dev ∉ s.waiting) Kept (deviceProbe script exec dev) := by
  intro s a t outside ran fine
  obtain ⟨_, _, got, ran⟩ := bind_some.mp ran
  obtain ⟨rfl, rfl⟩ := get_some.mp got
  cases device : s.device dev with
  | none =>
    simp only [device] at ran
    obtain ⟨-, rfl⟩ := pure_some.mp ran
    exact KeptFor.refl s fine
  | some d =>
    simp only [device] at ran
    split at ran
    case isTrue =>
      obtain ⟨-, rfl⟩ := pure_some.mp ran
      exact KeptFor.refl s fine
    case isFalse off =>
      have notActive : s.flag dev ≠ some true := by simp [DmState.flag, device, off]
      have apart : Apart dev s := apart_of_flag fine notActive
      obtain ⟨ret, parentUp, before, ran⟩ := bind_some.mp ran
      obtain ⟨kept, idle⟩ :=
        keeps_beforeActivation called d.parent dev s ret parentUp trivial before
      have still := idle fine fun calm => ⟨outside calm, notActive⟩
      have apartP := Apart.stable s parentUp apart kept
      refine KeptFor.trans kept ((?_ : Keeps (fun s => Apart dev s ∧ Idle dev s) Kept _)
        parentUp a t ⟨apartP, still⟩ ran) fine
      refine keeps_ite (fun s a t before => keeps_down dev ret s a t before.1) ?_
      -- The device is read again behind the probing of its parent.
      intro s a t ⟨apart, idle⟩ ran
      obtain ⟨_, _, got, ran⟩ := bind_some.mp ran
      obtain ⟨rfl, rfl⟩ := get_some.mp got
      obtain ⟨d, _, read, ran⟩ := bind_some.mp ran
      obtain ⟨known, rfl⟩ := lift_some.mp read
      obtain ⟨seq, _, resolved, ran⟩ := bind_some.mp ran
      obtain ⟨-, rfl⟩ := lift_some.mp resolved
      split at ran
      case isTrue => exact keeps_down dev seq s a t apart ran
      case isFalse =>
        obtain ⟨ret, probed, steps, ran⟩ := bind_some.mp ran
        have there : (s.device dev).isSome := by rw [known, Option.isSome_some]
        have kept := keeps_probeSteps called d dev seq s ret probed ⟨apart, idle, there⟩ steps
        refine KeptFor.trans kept ((?_ : Keeps (Apart dev) Kept _) probed a t
          (Apart.stable s probed apart kept) ran)
        refine keeps_ite (keeps_down dev ret) ?_
        refine keeps_bind Apart.stable (keeps_callback called _ dev).anywhere fun ret => ?_
        refine keeps_ite ?_ (keeps_pure 0)
        exact keeps_bind Apart.stable (called (.remove dev)).anywhere fun _ => keeps_down dev ret

/-! ### Removing and binding -/

theorem keeps_uclassPreRemoveDevice (dev : Nat) :
    Keeps (fun _ => True) Kept (uclassPreRemoveDevice script exec dev) := by
  refine keeps_bind anytime (keeps_callback called _ dev) fun ret => ?_
  refine keeps_ite (keeps_pure ret) ?_
  refine keeps_bind anytime (keeps_modify fun s _ => ?_) fun _ => keeps_pure 0
  have flags (d : Nat) : (s.update dev fun d => { d with seq := -1 }).flag d = s.flag d := by
    by_cases same : d = dev
    · simp [DmState.flag, DmState.update, same, Function.comp_def]
    · exact flag_update_of_ne same _
  refine kept_quiet rfl rfl rfl rfl (Nat.le_refl _) ?_ (fun d _ => flags d) fun d active => ?_
  · intro given d known
    exact given d (by rwa [isSome_update] at known)
  · rwa [flags] at active

theorem keeps_deviceRemoveChildren (dev turns : Nat) (pos : Option Nat) :
    Keeps (fun _ => True) Kept (deviceRemoveChildren exec dev turns pos) := by
  induction turns generalizing pos with
  | zero =>
    intro s a t _ ran
    cases ran
  | succ turns ih =>
    cases pos with
    | none => exact keeps_pure 0
    | some pos =>
      refine keeps_bind anytime keeps_get fun s => ?_
      refine keeps_bind anytime (keeps_lift _) fun n => ?_
      refine keeps_bind anytime (called (.remove pos)) fun ret => ?_
      exact keeps_ite (keeps_pure ret) (ih n)

/-- `device_remove`, for a device that is not being probed. -/
theorem keeps_deviceRemove (turns dev : Nat) :
    Keeps (fun s => s.Calm → dev ∉ s.busy) Kept (deviceRemove script exec turns dev) := by
  intro s a t outside ran fine
  refine (?_ : Keeps (Apart dev) Kept (deviceRemove script exec turns dev)) s a t
    ⟨fine, outside⟩ ran fine
  refine keeps_bind Apart.stable keeps_get fun s => ?_
  cases s.device dev with
  | none => exact keeps_pure einval
  | some d =>
    have postProbe : Keeps (Apart dev) Kept (callback script exec .uclassPostProbe dev) :=
      (keeps_callback called _ dev).anywhere
    refine keeps_ite (keeps_pure 0) ?_
    refine keeps_bind Apart.stable (keeps_uclassPreRemoveDevice called dev).anywhere fun ret => ?_
    refine keeps_ite (keeps_pure ret) ?_
    refine keeps_bind Apart.stable keeps_get fun s => ?_
    refine keeps_bind Apart.stable (keeps_deviceRemoveChildren called dev turns _).anywhere
      fun ret => ?_
    refine keeps_ite postProbe ?_
    refine keeps_bind Apart.stable (keeps_callback called _ dev).anywhere fun ret => ?_
    refine keeps_ite postProbe ?_
    refine keeps_bind Apart.stable (keeps_parentCallback called _ _ dev).anywhere fun ret => ?_
    exact keeps_down dev ret

omit called in
theorem kept_lists {s : DmState} (children : Nat → List Nat) (devHead : Nat → List Nat) :
    Kept s { s with children := children, devHead := devHead } :=
  kept_quiet rfl rfl rfl rfl (Nat.le_refl _) id (fun _ _ => rfl) fun _ active => active

theorem keeps_uclassUnbindDevice (uclass dev : Nat) :
    Keeps (fun _ => True) Kept (uclassUnbindDevice script exec uclass dev) := by
  refine keeps_bind anytime (keeps_callback called _ dev) fun ret => ?_
  refine keeps_ite (keeps_pure ret) ?_
  exact keeps_bind anytime (keeps_modify fun s _ => kept_lists _ _) fun _ =>
    keeps_pure 0

omit called in
theorem kept_unlink_free {s : DmState} (parent : Option Nat) (apart : Apart dev s) :
    Kept s ((s.unlinkChild parent dev).free dev) :=
  have unlinked : Kept s (s.unlinkChild parent dev) := kept_lists _ _
  KeptFor.trans unlinked (kept_free (Apart.stable _ _ apart unlinked))

theorem keeps_deviceUnbindChildren (dev turns : Nat) (pos : Option Nat) :
    Keeps (fun _ => True) Kept (deviceUnbindChildren exec dev turns pos) := by
  induction turns generalizing pos with
  | zero =>
    intro s a t _ ran
    cases ran
  | succ turns ih =>
    cases pos with
    | none => exact keeps_pure 0
    | some pos =>
      refine keeps_bind anytime keeps_get fun s => ?_
      refine keeps_bind anytime (keeps_lift _) fun n => ?_
      refine keeps_bind anytime (called (.unbind pos)) fun ret => ?_
      exact keeps_bind anytime (ih n) fun later => keeps_pure _

theorem keeps_deviceUnbind (turns dev : Nat) :
    Keeps (fun _ => True) Kept (deviceUnbind script exec turns dev) := by
  intro s a t _ ran fine
  obtain ⟨_, _, got, ran⟩ := bind_some.mp ran
  obtain ⟨rfl, rfl⟩ := get_some.mp got
  cases device : s.device dev with
  | none =>
    simp only [device] at ran
    obtain ⟨-, rfl⟩ := pure_some.mp ran
    exact KeptFor.refl s fine
  | some d =>
    simp only [device] at ran
    split at ran
    case isTrue =>
      obtain ⟨-, rfl⟩ := pure_some.mp ran
      exact KeptFor.refl s fine
    case isFalse idle =>
      have apart : Apart dev s := apart_of_flag fine (by simp [DmState.flag, device, idle])
      refine (?_ : Keeps (Apart dev) Kept _) s a t apart ran fine
      refine keeps_bind Apart.stable (keeps_callback called _ dev).anywhere fun ret => ?_
      refine keeps_ite (keeps_pure ret) ?_
      refine keeps_bind Apart.stable keeps_get fun s => ?_
      refine keeps_bind Apart.stable (keeps_deviceUnbindChildren called dev turns _).anywhere
        fun ret => ?_
      refine keeps_ite (keeps_pure ret) ?_
      refine keeps_bind Apart.stable (keeps_uclassUnbindDevice called _ dev).anywhere fun ret => ?_
      refine keeps_ite (keeps_pure ret) ?_
      exact keeps_bind Apart.stable (keeps_modify fun s apart => kept_unlink_free _ apart) fun _ =>
        keeps_pure 0

omit called in
theorem kept_create (s : DmState) (parent : Option Nat) (uclass : Nat) (ofOffset reqSeq : Int) :
    Kept s (s.create parent uclass ofOffset reqSeq) := by
  refine kept_quiet rfl rfl rfl rfl (Nat.le_succ _) ?_ (fun d known => ?_) fun d active => ?_
  · intro given d there
    by_cases same : d = s.next
    · simp [DmState.create, same]
    · have before := given d (by simpa [DmState.create, same] using there)
      exact Nat.lt_succ_of_lt before
  · have other : d ≠ s.next := by omega
    simp [DmState.flag, DmState.create, other]
  · by_cases same : d = s.next
    · simp [DmState.flag, DmState.create, same] at active
    · simpa [DmState.flag, DmState.create, same] using active

omit called in
theorem apart_create {s : DmState} (fine : Fine s) (parent : Option Nat) (uclass : Nat)
    (ofOffset reqSeq : Int) : Apart s.next (s.create parent uclass ofOffset reqSeq) := by
  refine ⟨(kept_create s parent uclass ofOffset reqSeq fine).1, fun calm member => ?_⟩
  have orderly := fine calm
  have known := lt_of_flag orderly (orderly.busyActive s.next member)
  omega

omit called in
theorem keeps_failUclassBind (parent : Option Nat) (dev : Nat) (ret : Int) :
    Keeps (Apart dev) Kept (failUclassBind parent dev ret) :=
  keeps_bind Apart.stable (keeps_modify fun _ apart => kept_unlink_free parent apart) fun _ =>
    keeps_pure ret

theorem keeps_failBind (parent : Option Nat) (uclass dev : Nat) (ret : Int) :
    Keeps (Apart dev) Kept (failBind script exec parent uclass dev ret) :=
  keeps_bind Apart.stable (keeps_uclassUnbindDevice called uclass dev).anywhere fun _ =>
    keeps_failUclassBind parent dev ret

theorem keeps_uclassBindDevice (parent : Option Nat) (uclass dev : Nat) :
    Keeps (fun _ => True) Kept (uclassBindDevice script exec parent uclass dev) := by
  refine keeps_bind anytime (keeps_modify fun s _ => kept_lists _ _) fun _ => ?_
  refine keeps_bind anytime (keeps_firstFailure anytime fun step member => ?_) fun ret => ?_
  · simp only [List.mem_cons, List.not_mem_nil, or_false] at member
    rcases member with rfl | rfl
    · exact keeps_parentCallback called _ _ dev
    · exact keeps_callback called _ dev
  refine keeps_ite ?_ (keeps_pure 0)
  exact keeps_bind anytime (keeps_modify fun s _ => kept_lists _ _) fun _ =>
    keeps_pure ret

theorem keeps_bindCreated (parent : Option Nat) (uclass dev : Nat) :
    Keeps (Apart dev) Kept (bindCreated script exec parent uclass dev) := by
  refine keeps_bind Apart.stable (keeps_firstFailure Apart.stable fun step member => ?_) fun ret => ?_
  · simp only [List.mem_cons, List.not_mem_nil, or_false] at member
    rcases member with rfl | rfl | rfl
    · exact (keeps_alloc dev).anywhere
    · exact (keeps_alloc dev).anywhere
    · exact keeps_ite (keeps_alloc dev).anywhere (keeps_pure 0)
  refine keeps_ite ?_ ?_
  · exact keeps_bind Apart.stable (keeps_modify fun s apart => kept_free apart) fun _ =>
      keeps_pure ret
  refine keeps_bind Apart.stable (keeps_modify fun s _ => kept_lists _ _) fun _ => ?_
  refine keeps_bind Apart.stable (keeps_uclassBindDevice called parent uclass dev).anywhere fun ret => ?_
  refine keeps_ite (keeps_failUclassBind parent dev ret) ?_
  refine keeps_bind Apart.stable (keeps_callback called _ dev).anywhere fun ret => ?_
  refine keeps_ite (keeps_failBind called parent uclass dev ret) ?_
  refine keeps_bind Apart.stable (keeps_parentCallback called _ _ dev).anywhere fun ret => ?_
  refine keeps_ite ?_ (keeps_pure 0)
  exact keeps_bind Apart.stable (keeps_callback called _ dev).anywhere fun _ =>
    keeps_failBind called parent uclass dev ret

theorem keeps_deviceBind (named : Bool) (parent : Option Nat) (uclass : Nat) (ofOffset reqSeq : Int)
    :
    Keeps (fun _ => True) Kept (deviceBind script exec named parent uclass ofOffset reqSeq) := by
  refine keeps_ite (keeps_pure einval) ?_
  refine keeps_bind anytime keeps_get fun s => ?_
  refine keeps_bind anytime (keeps_callback called _ _) fun ret => ?_
  refine keeps_ite (keeps_pure ret) ?_
  refine keeps_bind anytime (keeps_alloc _) fun ret => ?_
  refine keeps_ite (keeps_pure ret) ?_
  intro s a t _ ran fine
  obtain ⟨_, _, got, ran⟩ := bind_some.mp ran
  obtain ⟨rfl, rfl⟩ := get_some.mp got
  obtain ⟨_, _, known, ran⟩ := bind_some.mp ran
  obtain ⟨-, rfl⟩ := lift_some.mp known
  obtain ⟨_, created, made, ran⟩ := bind_some.mp ran
  obtain rfl := modify_some.mp made
  have apart := apart_create fine parent uclass ofOffset reqSeq
  exact KeptFor.trans (kept_create s parent uclass ofOffset reqSeq)
    (keeps_bindCreated called parent uclass s.next _ a t apart ran) fine

end Parts

/-! ## Runs -/

theorem keeps_exec (script : Script) (depth : Nat) (call : DmCall) :
    Keeps (fun _ => True) Kept (exec script depth call) := by
  induction depth generalizing call with
  | zero =>
    intro s a t _ ran
    cases ran
  | succ depth ih =>
    intro s a t _ ran fine
    obtain ⟨_, _, changed, ran⟩ := bind_some.mp ran
    obtain rfl := modify_some.mp changed
    let moment : Moment := ⟨call, s.waiting, s.busy⟩
    let asked : DmState := { s with calls := moment :: s.calls }
    have before (calm : asked.Calm) : moment.Calm ∧ s.Calm := List.forall_mem_cons.mp calm
    have fineA : Fine asked := fun calm =>
      have orderly := fine (before calm).2
      ⟨orderly.given, orderly.once, orderly.upActive, orderly.busyActive, orderly.progress⟩
    have body : Kept asked t := by
      cases call with
      | bind named parent uclass ofOffset reqSeq =>
        exact keeps_deviceBind ih named parent uclass ofOffset reqSeq _ a t trivial ran
      | probe dev => exact keeps_deviceProbe ih dev _ a t (fun calm => (before calm).1) ran
      | remove dev => exact keeps_deviceRemove ih depth dev _ a t (fun calm => (before calm).1) ran
      | unbind dev => exact keeps_deviceUnbind ih depth dev _ a t trivial ran
    obtain ⟨fineT, leftT⟩ := body fineA
    refine ⟨fineT, fun calm => ?_⟩
    have left := leftT calm
    exact ⟨(before left.calm).2, left.busy, left.waiting, left.progress, left.ups, left.idle⟩

theorem initial_fine : Fine .initial := by
  intro _
  constructor
  · intro d known
    simp [DmState.initial] at known
  · trivial
  · intro d upD
    simp [DmState.initial, up] at upD
  · intro d member
    simp [DmState.initial] at member
  · intro d going
    simp [DmState.initial, inProgress] at going

/-- In every run in which no call comes in between, `probe` was never called for a device that was
activated already or whose `probe` was in progress. -/
theorem probe_entered_once (script : Script) (s : DmState) (reached : Reached script s)
    (calm : s.Calm) : ProbedOnce s.log := by
  have fine : Fine s := by
    clear calm
    induction reached with
    | start => exact initial_fine
    | @call s t depth call ret before ran ih =>
      exact (keeps_exec script depth call s ret t trivial ran ih).1
  exact (fine calm).once

/-- What is observed of a run from the start, and whether a call came in between. -/
def observed (script : Script) (calls : List DmCall) : Option (Bool × List Event) :=
  (runAll script 6 calls .initial).map fun s =>
    (s.calls.all fun moment => decide moment.Calm, s.log)

/-- The `probe` of a parent probes its child. -/
def busScript : Script := fun _ which dev =>
  if which = .probe ∧ dev = 0 then ⟨[.probe 1], 0⟩ else ⟨[], 0⟩

/-- Such a parent is probed, and its child inside its `probe`, each of them once. -/
theorem probe_entered_once_sample :
    ∃ s, Reached busScript s ∧ s.log = [.leave 0, .leave 1, .enter 1, .enter 0] ∧
      ProbedOnce s.log := by
  have ran : observed busScript (bindParentAndChild ++ [.probe 0, .probe 1]) =
      some (true, [.leave 0, .leave 1, .enter 1, .enter 0]) := by decide +kernel
  obtain ⟨s, run, seen⟩ := Option.map_eq_some_iff.mp ran
  have reached := reached_runAll .start run
  rw [Prod.mk.injEq, List.all_eq_true] at seen
  have calm : s.Calm := fun moment member => of_decide_eq_true (seen.1 moment member)
  exact ⟨s, reached, seen.2, probe_entered_once busScript s reached calm⟩

/-- Probing the child of such a parent calls `probe` of the child twice: once inside the probing of
the parent, and again when that has returned. -/
theorem probe_entered_twice :
    ∃ s, Reached busScript s ∧
      s.log = [.leave 1, .enter 1, .leave 0, .leave 1, .enter 1, .enter 0] ∧
      ¬ProbedOnce s.log := by
  have ran : observed busScript (bindParentAndChild ++ [.probe 1]) =
      some (false, [.leave 1, .enter 1, .leave 0, .leave 1, .enter 1, .enter 0]) := by
    decide +kernel
  obtain ⟨s, run, seen⟩ := Option.map_eq_some_iff.mp ran
  rw [Prod.mk.injEq] at seen
  refine ⟨s, reached_runAll .start run, seen.2, ?_⟩
  rw [seen.2]
  intro once
  simp [ProbedOnce, up] at once

end HrppBoot.Dm
