import Mathlib.Data.UInt

/-!
# Link-local addresses

`net/link_local.c`: the state machine that probes, announces and defends an address of 169.254/16.
Its two event handlers are `link_local_timeout` and `link_local_receive_arp`. The time and the
packet are inputs of an event; `pick` runs on fuel, and `none` stands for a draw that does not end.

`trace` is no variable of the source: it keeps what was picked, received, sent and waited for, the
latest first, so that `Proper` can say what has to come before an announcement.
-/

namespace HrppBoot.Net

/-- `enum ll_state_t` -/
inductive LlState where
  | probe
  | rateLimitProbe
  | announce
  | monitor
  | defend
  | disabled
  deriving DecidableEq, Repr

/-- The fields `ar_…` of `struct arp_hdr` that are read. -/
structure ArpHdr where
  op : Nat
  sha : List UInt8
  spa : UInt32
  tpa : UInt32
  deriving DecidableEq, Repr

def arpopRequest : Nat := 1

def arpopReply : Nat := 2

inductive Record where
  | picked (ip : UInt32)
  | received (arp : ArpHdr)
  | probe (ip : UInt32)
  | announce (ip : UInt32)
  | defend (ip : UInt32)
  /-- The address was assigned to `net_ip`. -/
  | assign (ip : UInt32)
  | wait (ms : Int)
  deriving DecidableEq, Repr

/-- The static variables, and `net_ip`. -/
structure LinkLocal where
  state : LlState
  ip : UInt32
  timeoutMs : Int
  deadlineMs : UInt32
  conflicts : Nat
  nprobes : Nat
  nclaims : Nat
  ready : Bool
  seed : UInt32
  netIp : UInt32
  trace : List Record
  deriving DecidableEq, Repr

def linklocalAddr : UInt32 := 0xa9fe0000

def inClassbNet : UInt32 := 0xffff0000

def inClassbHost : UInt32 := 0x0000ffff

def probeWait : Nat := 1

def probeMin : Nat := 1

def probeMax : Nat := 2

def probeNum : Nat := 3

def maxConflicts : Nat := 10

def rateLimitInterval : Nat := 60

def announceNum : Nat := 2

def announceInterval : Nat := 2

def defendInterval : Nat := 10

namespace LinkLocal

def note (s : LinkLocal) (record : Record) : LinkLocal := { s with trace := record :: s.trace }

/-- `rand_r`: the next seed, which is also the value. -/
def randR (seed : UInt32) : UInt32 :=
  let a := seed ^^^ (seed <<< 13)
  let b := a ^^^ (a >>> 17)
  b ^^^ (b <<< 5)

/-- The loop of `pick`: the first draw that is not reserved. -/
def drawHost : (fuel : Nat) → UInt32 → Option UInt32
  | 0, _ => none
  | fuel + 1, seed =>
    if randR seed &&& inClassbHost > inClassbHost - 0x0200 then drawHost fuel (randR seed)
    else some (randR seed)

/-- `pick`: a random address, except the first and last 256. -/
def pick (s : LinkLocal) : Option LinkLocal :=
  (drawHost (2 ^ 16) s.seed).map fun seed =>
    let ip := linklocalAddr + 0x0100 + (seed &&& inClassbHost)
    { s with seed := seed, ip := ip, trace := .picked ip :: s.trace }

/-- `random_delay_ms`: the delay, and the next seed. -/
def randomDelayMs (seed : UInt32) (secs : Nat) : Int × UInt32 :=
  ((randR seed).toNat % (secs * 1000), randR seed)

def configureWait (now : UInt32) (s : LinkLocal) : LinkLocal :=
  if s.timeoutMs = -1 then s
  else
    let s := if s.timeoutMs = 0 then
        { s with timeoutMs := (randomDelayMs s.seed probeWait).1,
                 seed := (randomDelayMs s.seed probeWait).2 }
      else s
    { s with deadlineMs := now + UInt32.ofInt s.timeoutMs }.note (.wait s.timeoutMs)

/-- What `link_local_start` begins with: `llipaddr`, or an address that is picked. -/
def linkLocalStart (now llipaddr seed netIp : UInt32) : Option LinkLocal :=
  if llipaddr ≠ 0 ∧ llipaddr &&& inClassbNet ≠ linklocalAddr then none
  else
    let s : LinkLocal := ⟨.disabled, llipaddr, 0, 0, 0, 0, 0, false, seed, netIp, []⟩
    ((if llipaddr = 0 then pick s else some (s.note (.picked llipaddr))).map fun s =>
      configureWait now { s with state := .probe })

/-- `restart the whole protocol` -/
def restart (s : LinkLocal) : Option LinkLocal :=
  (pick s).map fun s => { s with timeoutMs := 0, nprobes := 0, nclaims := 0 }

def startAnnounce (s : LinkLocal) : LinkLocal :=
  { s with state := .announce, nclaims := 0, timeoutMs := announceInterval * 1000 }.note
    (.announce s.ip)

def linkLocalTimeout (now : UInt32) (s : LinkLocal) : Option LinkLocal :=
  match s.state with
  | .probe =>
    some (configureWait now
      (if s.nprobes < probeNum then
        { s with nprobes := s.nprobes + 1,
                 timeoutMs := probeMin * 1000 + (randomDelayMs s.seed (probeMax - probeMin)).1,
                 seed := (randomDelayMs s.seed (probeMax - probeMin)).2 }.note (.probe s.ip)
      else s.startAnnounce))
  | .rateLimitProbe => some (configureWait now s.startAnnounce)
  | .announce =>
    if s.nclaims < announceNum then
      some (configureWait now
        ({ s with nclaims := s.nclaims + 1, timeoutMs := announceInterval * 1000 }.note
          (.announce s.ip)))
    else
      some ({ s with state := .monitor, netIp := s.ip, ready := true, conflicts := 0,
                     timeoutMs := -1 }.note (.assign s.ip))
  | .defend =>
    some (configureWait now { s with state := .monitor, timeoutMs := -1, conflicts := 0 })
  | _ => (restart { s with state := .probe }).map (configureWait now)

/-- Another host uses the address: `source_ip_conflict`. -/
def sourceIpConflict (ethaddr : List UInt8) (ip : UInt32) (arp : ArpHdr) : Bool :=
  arp.spa = ip ∧ arp.sha ≠ ethaddr

/-- Another host probes for the address: `target_ip_conflict`. -/
def targetIpConflict (ethaddr : List UInt8) (ip : UInt32) (arp : ArpHdr) : Bool :=
  arp.op = arpopRequest ∧ arp.spa = 0 ∧ arp.tpa = ip ∧ arp.sha ≠ ethaddr

/-- Adjust the timeout to the time that has passed. -/
def adjustTimeout (now : UInt32) (s : LinkLocal) : LinkLocal :=
  if s.timeoutMs > 0 then
    let diff := s.deadlineMs - now
    { s with timeoutMs := if 2 ^ 31 ≤ diff.toNat then 0 else (diff ||| 1).toNat }
  else s

/-- `link_local_receive_arp`, before it waits. -/
def receiveArp (ethaddr : List UInt8) (arp : ArpHdr) (s : LinkLocal) : Option LinkLocal :=
  let source := sourceIpConflict ethaddr s.ip arp
  let target := targetIpConflict ethaddr s.ip arp
  match s.state with
  | .probe | .announce =>
    if source || target then
      let s := { s with conflicts := s.conflicts + 1, state := .probe }
      let s := if s.conflicts ≥ maxConflicts then
          { s with timeoutMs := rateLimitInterval * 1000, state := .rateLimitProbe }
        else s
      restart s
    else some s
  | .monitor =>
    if source then
      some ({ s with state := .defend, timeoutMs := defendInterval * 1000 }.note (.defend s.ip))
    else some s
  | .defend =>
    if source then restart { s with state := .probe, ready := false, netIp := 0 }
    else some s
  | _ => restart { s with state := .probe }

def linkLocalReceiveArp (ethaddr : List UInt8) (now : UInt32) (arp : ArpHdr) (s : LinkLocal) :
    Option LinkLocal :=
  if s.state = .disabled then some s
  else
    let s := (adjustTimeout now s).note (.received arp)
    if arp.op ≠ arpopRequest ∧ arp.op ≠ arpopReply then some (configureWait now s)
    else (receiveArp ethaddr arp s).map (configureWait now)

end LinkLocal

inductive LlEvent where
  | timeout (now : UInt32)
  | arp (now : UInt32) (packet : ArpHdr)
  deriving DecidableEq, Repr

namespace LinkLocal

def step (ethaddr : List UInt8) (s : LinkLocal) : LlEvent → Option LinkLocal
  | .timeout now => linkLocalTimeout now s
  | .arp now packet => linkLocalReceiveArp ethaddr now packet s

def run (ethaddr : List UInt8) (s : LinkLocal) : List LlEvent → Option LinkLocal
  | [] => some s
  | event :: events => (step ethaddr s event).bind fun s => run ethaddr s events

end LinkLocal

/-! ## What has to come before an announcement -/

section Invariant

variable (ethaddr : List UInt8)

/-- The packet conflicts with the use of the address. -/
def ConflictsWith (ip : UInt32) (arp : ArpHdr) : Bool :=
  (arp.op = arpopRequest ∨ arp.op = arpopReply) ∧
    (LinkLocal.sourceIpConflict ethaddr ip arp || LinkLocal.targetIpConflict ethaddr ip arp)

/-- The number of probes sent for the address since it was picked, if it is the one picked last and
no conflicting packet was received since. -/
def clearProbes (ip : UInt32) : List Record → Option Nat
  | [] => none
  | .picked other :: _ => if other = ip then some 0 else none
  | .received arp :: earlier => if ConflictsWith ethaddr ip arp then none else clearProbes ip earlier
  | .probe other :: earlier =>
    (clearProbes ip earlier).map fun n => if other = ip then n + 1 else n
  | _ :: earlier => clearProbes ip earlier

/-- What happened allows the address to be used. -/
def MayUse (ip : UInt32) (trace : List Record) : Prop :=
  probeNum ≤ (clearProbes ethaddr ip trace).getD 0

instance (ip : UInt32) (trace : List Record) : Decidable (MayUse ethaddr ip trace) :=
  inferInstanceAs (Decidable (_ ≤ _))

/-- Every announcement and every assignment of an address came after enough probes for it, with no
conflict since it was picked. -/
def Proper : List Record → Prop
  | [] => True
  | .announce ip :: earlier => MayUse ethaddr ip earlier ∧ Proper earlier
  | .assign ip :: earlier => MayUse ethaddr ip earlier ∧ Proper earlier
  | _ :: earlier => Proper earlier

/-- The event is a conflict that is counted. -/
def CountsConflict (s : LinkLocal) : LlEvent → Prop
  | .timeout _ => False
  | .arp _ packet =>
    (s.state = .probe ∨ s.state = .announce) ∧ ConflictsWith ethaddr s.ip packet = true

/-- If the event is a conflict that brings the count to the maximum, the state machine waits for the
rate limit interval afterwards. -/
def Delays (s : LinkLocal) (event : LlEvent) : Prop :=
  CountsConflict ethaddr s event → maxConflicts ≤ s.conflicts + 1 →
    ∀ after, LinkLocal.step ethaddr s event = some after →
      after.timeoutMs = rateLimitInterval * 1000

/-- The event is no conflict that brings the count to the maximum. -/
def BelowMaximum (s : LinkLocal) (event : LlEvent) : Prop :=
  CountsConflict ethaddr s event → s.conflicts + 1 < maxConflicts

/-- A property of every event of a run, in the state it meets. -/
def Throughout (property : LinkLocal → LlEvent → Prop) (s : LinkLocal) : List LlEvent → Prop
  | [] => True
  | event :: events => property s event ∧
      ∀ after, LinkLocal.step ethaddr s event = some after → Throughout property after events

/-- What the state machine keeps while the maximum is not reached. -/
structure Careful (s : LinkLocal) : Prop where
  proper : Proper ethaddr s.trace
  probing : s.state = .probe → clearProbes ethaddr s.ip s.trace = some s.nprobes
  announcing : s.state = .announce → MayUse ethaddr s.ip s.trace
  notLimited : s.state ≠ .rateLimitProbe

variable {ethaddr} {s after : LinkLocal} {now : UInt32}

theorem configureWait_keeps (now : UInt32) (s : LinkLocal) :
    (s.configureWait now).state = s.state ∧ (s.configureWait now).ip = s.ip ∧
      (s.configureWait now).nprobes = s.nprobes ∧
        ((s.configureWait now).trace = s.trace ∨ ∃ ms, (s.configureWait now).trace =
          .wait ms :: s.trace) := by
  unfold LinkLocal.configureWait
  split
  · exact ⟨rfl, rfl, rfl, .inl rfl⟩
  · split
    · exact ⟨rfl, rfl, rfl, .inr ⟨_, rfl⟩⟩
    · exact ⟨rfl, rfl, rfl, .inr ⟨_, rfl⟩⟩

theorem Careful.configureWait (careful : Careful ethaddr s) (now : UInt32) :
    Careful ethaddr (s.configureWait now) := by
  obtain ⟨state, ip, nprobes, trace⟩ := configureWait_keeps now s
  rcases trace with same | ⟨ms, more⟩
  · constructor
    · rw [same]
      exact careful.proper
    · rw [state, ip, nprobes, same]
      exact careful.probing
    · rw [state, ip, same]
      exact careful.announcing
    · rw [state]
      exact careful.notLimited
  · constructor
    · rw [more]
      exact careful.proper
    · rw [state, ip, nprobes, more]
      exact careful.probing
    · rw [state, ip, more]
      exact careful.announcing
    · rw [state]
      exact careful.notLimited

theorem Careful.restart (restarted : s.restart = some after) (proper : Proper ethaddr s.trace)
    (probing : s.state = .probe) : Careful ethaddr after := by
  unfold LinkLocal.restart LinkLocal.pick at restarted
  rw [Option.map_map, Option.map_eq_some_iff] at restarted
  obtain ⟨seed, -, rfl⟩ := restarted
  constructor
  · exact proper
  · intro _
    simp [clearProbes]
  · intro announcing
    exact absurd (probing.symm.trans announcing) (by decide)
  · intro limited
    exact absurd (probing.symm.trans limited) (by decide)

/-- A timeout keeps the invariant. -/
theorem Careful.timeout (careful : Careful ethaddr s)
    (stepped : s.linkLocalTimeout now = some after) : Careful ethaddr after := by
  unfold LinkLocal.linkLocalTimeout at stepped
  split at stepped
  · rename_i state
    have counted := careful.probing state
    cases stepped
    apply Careful.configureWait
    split
    · constructor
      · exact careful.proper
      · intro _
        simp [LinkLocal.note, clearProbes, counted]
      · intro announcing
        exact absurd (state.symm.trans announcing) (by decide)
      · exact careful.notLimited
    · rename_i enough
      have mayUse : MayUse ethaddr s.ip s.trace := by
        unfold MayUse
        rw [counted]
        exact Nat.not_lt.mp enough
      constructor
      · exact ⟨mayUse, careful.proper⟩
      · intro probing
        cases probing
      · intro _
        exact mayUse
      · intro limited
        cases limited
  · rename_i state
    exact absurd state careful.notLimited
  · rename_i state
    have mayUse := careful.announcing state
    split at stepped
    · cases stepped
      apply Careful.configureWait
      constructor
      · exact ⟨mayUse, careful.proper⟩
      · intro probing
        exact absurd (state.symm.trans probing) (by decide)
      · intro _
        exact mayUse
      · exact careful.notLimited
    · cases stepped
      constructor
      · exact ⟨mayUse, careful.proper⟩
      all_goals
        intro other
        cases other
  · cases stepped
    apply Careful.configureWait
    constructor
    · exact careful.proper
    all_goals
      intro other
      cases other
  · obtain ⟨restarted, restarts, rfl⟩ := Option.map_eq_some_iff.mp stepped
    exact (Careful.restart restarts careful.proper rfl).configureWait now

variable {arp : ArpHdr}

theorem Careful.received (careful : Careful ethaddr s)
    (clear : (s.state = .probe ∨ s.state = .announce) → ConflictsWith ethaddr s.ip arp = false) :
    Careful ethaddr ((s.adjustTimeout now).note (.received arp)) := by
  have same : (s.adjustTimeout now).state = s.state ∧ (s.adjustTimeout now).ip = s.ip ∧
      (s.adjustTimeout now).nprobes = s.nprobes ∧ (s.adjustTimeout now).trace = s.trace := by
    unfold LinkLocal.adjustTimeout
    split
    · exact ⟨rfl, rfl, rfl, rfl⟩
    · exact ⟨rfl, rfl, rfl, rfl⟩
  obtain ⟨state, ip, nprobes, trace⟩ := same
  constructor
  · show Proper ethaddr (s.adjustTimeout now).trace
    rw [trace]
    exact careful.proper
  · intro probing
    have before : s.state = .probe := state.symm.trans probing
    show clearProbes ethaddr (s.adjustTimeout now).ip (_ :: (s.adjustTimeout now).trace) =
      some (s.adjustTimeout now).nprobes
    rw [ip, nprobes, trace, clearProbes, clear (.inl before)]
    exact careful.probing before
  · intro announcing
    have before : s.state = .announce := state.symm.trans announcing
    show MayUse ethaddr (s.adjustTimeout now).ip (_ :: (s.adjustTimeout now).trace)
    rw [ip, trace, MayUse, clearProbes, clear (.inr before)]
    exact careful.announcing before
  · show (s.adjustTimeout now).state ≠ .rateLimitProbe
    rw [state]
    exact careful.notLimited

theorem conflictsWith_otherOp {ip : UInt32} (other : arp.op ≠ arpopRequest ∧ arp.op ≠ arpopReply) :
    ConflictsWith ethaddr ip arp = false := by
  unfold ConflictsWith
  simp [other.1, other.2]

theorem conflictsWith_eq {ip : UInt32} {arp : ArpHdr}
    (known : ¬(arp.op ≠ arpopRequest ∧ arp.op ≠ arpopReply)) :
    ConflictsWith ethaddr ip arp = (LinkLocal.sourceIpConflict ethaddr ip arp ||
      LinkLocal.targetIpConflict ethaddr ip arp) := by
  have kind : arp.op = arpopRequest ∨ arp.op = arpopReply := by
    by_contra neither
    exact known (not_or.mp neither)
  unfold ConflictsWith
  simp [kind]

theorem noted_eq (now : UInt32) (arp : ArpHdr) (s : LinkLocal) :
    ((s.adjustTimeout now).note (.received arp)).state = s.state ∧
      ((s.adjustTimeout now).note (.received arp)).ip = s.ip ∧
      ((s.adjustTimeout now).note (.received arp)).conflicts = s.conflicts ∧
      ((s.adjustTimeout now).note (.received arp)).trace = .received arp :: s.trace := by
  unfold LinkLocal.adjustTimeout
  split
  · exact ⟨rfl, rfl, rfl, rfl⟩
  · exact ⟨rfl, rfl, rfl, rfl⟩

/-- A packet keeps the invariant, if it does not bring the count of conflicts to the maximum. -/
theorem Careful.receive (careful : Careful ethaddr s)
    (below : BelowMaximum ethaddr s (.arp now arp))
    (stepped : s.linkLocalReceiveArp ethaddr now arp = some after) : Careful ethaddr after := by
  unfold LinkLocal.linkLocalReceiveArp at stepped
  split at stepped
  · cases stepped
    exact careful
  obtain ⟨noted, notedIs⟩ : ∃ noted, (s.adjustTimeout now).note (.received arp) = noted := ⟨_, rfl⟩
  obtain ⟨state, ip, conflicts, trace⟩ := noted_eq now arp s
  rw [notedIs] at state ip conflicts trace
  have proper : Proper ethaddr noted.trace := by
    rw [trace]
    exact careful.proper
  have keeps (clear : (s.state = .probe ∨ s.state = .announce) →
      ConflictsWith ethaddr s.ip arp = false) : Careful ethaddr noted :=
    notedIs ▸ careful.received clear
  simp only [notedIs] at stepped
  split at stepped
  · rename_i other
    cases stepped
    exact (keeps fun _ => conflictsWith_otherOp other).configureWait now
  rename_i known
  have isConflict := @conflictsWith_eq ethaddr s.ip arp known
  obtain ⟨handled, handles, rfl⟩ := Option.map_eq_some_iff.mp stepped
  apply Careful.configureWait
  -- The cases follow those of the source; in the first the count decides about the rate limit.
  have probing (using_ : s.state = .probe ∨ s.state = .announce)
      (handles : (if LinkLocal.sourceIpConflict ethaddr noted.ip arp ||
          LinkLocal.targetIpConflict ethaddr noted.ip arp then
        LinkLocal.restart (if noted.conflicts + 1 ≥ maxConflicts then
          { noted with conflicts := noted.conflicts + 1, state := .rateLimitProbe,
                       timeoutMs := rateLimitInterval * 1000 }
          else { noted with conflicts := noted.conflicts + 1, state := .probe })
        else some noted) = some handled) : Careful ethaddr handled := by
    rw [ip, ← isConflict] at handles
    split at handles
    · rename_i conflict
      have few := below ⟨using_, conflict⟩
      rw [if_neg (by omega)] at handles
      exact Careful.restart handles proper rfl
    · rename_i clear
      cases handles
      exact keeps fun _ => by simpa using clear
  unfold LinkLocal.receiveArp at handles
  split at handles
  · rename_i at_
    exact probing (.inl (state.symm.trans at_)) handles
  · rename_i at_
    exact probing (.inr (state.symm.trans at_)) handles
  · rename_i at_
    have monitor : s.state = .monitor := state.symm.trans at_
    have kept : Careful ethaddr noted := by
      apply keeps
      rw [monitor]
      rintro (probe | announce)
      · cases probe
      · cases announce
    dsimp only at handles
    split at handles
    · cases handles
      constructor
      · exact proper
      all_goals
        intro other
        cases other
    · cases handles
      exact kept
  · rename_i at_
    have defend : s.state = .defend := state.symm.trans at_
    dsimp only at handles
    split at handles
    · exact Careful.restart handles proper rfl
    · cases handles
      apply keeps
      rw [defend]
      rintro (probe | announce)
      · cases probe
      · cases announce
  · exact Careful.restart handles proper rfl

theorem Careful.step (careful : Careful ethaddr s) {event : LlEvent}
    (below : BelowMaximum ethaddr s event) (stepped : s.step ethaddr event = some after) :
    Careful ethaddr after := by
  cases event with
  | timeout now => exact careful.timeout stepped
  | arp now packet => exact careful.receive below stepped

theorem linkLocalStart_careful {llipaddr seed netIp : UInt32}
    (started : LinkLocal.linkLocalStart now llipaddr seed netIp = some s) : Careful ethaddr s := by
  unfold LinkLocal.linkLocalStart at started
  split at started
  · cases started
  obtain ⟨chosen, chooses, rfl⟩ := Option.map_eq_some_iff.mp started
  apply Careful.configureWait
  have first : ∃ ip, chosen.ip = ip ∧ chosen.nprobes = 0 ∧ chosen.trace = [.picked ip] := by
    split at chooses
    · unfold LinkLocal.pick at chooses
      obtain ⟨drawn, -, rfl⟩ := Option.map_eq_some_iff.mp chooses
      exact ⟨_, rfl, rfl, rfl⟩
    · cases chooses
      exact ⟨_, rfl, rfl, rfl⟩
  obtain ⟨ip, isIp, none, trace⟩ := first
  constructor
  · show Proper ethaddr chosen.trace
    rw [trace]
    trivial
  · intro _
    show clearProbes ethaddr chosen.ip chosen.trace = some chosen.nprobes
    rw [trace, isIp, none]
    simp [clearProbes]
  all_goals
    intro other
    cases other

theorem Careful.run (careful : Careful ethaddr s) {events : List LlEvent}
    (below : Throughout ethaddr (BelowMaximum ethaddr) s events)
    (ran : s.run ethaddr events = some after) : Careful ethaddr after := by
  induction events generalizing s with
  | nil =>
    cases ran
    exact careful
  | cons event events ih =>
    obtain ⟨middle, stepped, rest⟩ := Option.bind_eq_some_iff.mp ran
    exact ih (careful.step below.1 stepped) (below.2 middle stepped) rest

theorem delays_of_belowMaximum {events : List LlEvent}
    (below : Throughout ethaddr (BelowMaximum ethaddr) s events) :
    Throughout ethaddr (Delays ethaddr) s events := by
  induction events generalizing s with
  | nil => trivial
  | cons event events ih =>
    constructor
    · intro counts reached
      have := below.1 counts
      omega
    · intro after stepped
      exact ih (below.2 after stepped)

end Invariant

/-- In every run in which no conflict brings the count to the maximum, each announcement and each
assignment comes after enough probes without a conflict, and every delay that is due is kept. -/
theorem linkLocal_proper (ethaddr : List UInt8) (now llipaddr seed netIp : UInt32)
    (events : List LlEvent) (s after : LinkLocal)
    (started : LinkLocal.linkLocalStart now llipaddr seed netIp = some s)
    (below : Throughout ethaddr (BelowMaximum ethaddr) s events)
    (ran : s.run ethaddr events = some after) :
    Proper ethaddr after.trace ∧ Throughout ethaddr (Delays ethaddr) s events :=
  ⟨((linkLocalStart_careful started).run below ran).proper, delays_of_belowMaximum below⟩

/-- An Ethernet address whose seed is zero, so that the address picked is always 169.254.1.0. -/
def sampleEthaddr : List UInt8 := [2, 1, 0, 0, 2, 1]

/-- Another host uses 169.254.1.0. -/
def sampleConflict : ArpHdr := ⟨arpopReply, [2, 0, 0, 0, 0, 9], 0xa9fe0100, 0⟩

/-- Three probes and three announcements, up to the assignment. -/
theorem linkLocal_proper_assigns :
    ∃ s after, LinkLocal.linkLocalStart 0 0 0 0 = some s ∧
      s.run sampleEthaddr (List.replicate 7 (.timeout 0)) = some after ∧
        after.netIp = 0xa9fe0100 ∧ Proper sampleEthaddr after.trace := by
  refine ⟨_, _, rfl, rfl, by decide, ?_⟩
  refine (linkLocal_proper sampleEthaddr 0 0 0 0 (List.replicate 7 (.timeout 0)) _ _ rfl ?_ rfl).1
  simp [List.replicate, Throughout, BelowMaximum, CountsConflict]

/-- After ten conflicts the address picked last is announced without a probe, and the tenth conflict
delays nothing. -/
theorem linkLocal_announces_unprobed :
    ∃ s after, LinkLocal.linkLocalStart 0 0 0 0 = some s ∧
      s.run sampleEthaddr (List.replicate 10 (.arp 0 sampleConflict) ++ [.timeout 0]) = some after ∧
        ¬Proper sampleEthaddr after.trace ∧
          ¬Throughout sampleEthaddr (Delays sampleEthaddr) s
            (List.replicate 10 (.arp 0 sampleConflict)) := by
  refine ⟨_, _, rfl, rfl, ?_, ?_⟩
  · intro proper
    exact absurd proper.1 (by decide)
  · intro delays
    have tenth := ((((((((delays.2 _ rfl).2 _ rfl).2 _ rfl).2 _ rfl).2 _ rfl).2 _ rfl).2 _ rfl).2 _
      rfl).2 _ rfl
    have waits := tenth.1 ⟨.inl (by decide), by decide⟩ (by decide) _ rfl
    exact absurd waits (by decide)

end HrppBoot.Net
