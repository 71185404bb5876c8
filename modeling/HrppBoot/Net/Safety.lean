import HrppBoot.Net.HoleList

/-!
# Arbitrary fragments

Any frames may arrive. `Phase` is what they leave of the packet that is being put together, in terms
of gaps only. The walk over the holes ends and everything touched lies inside `pkt_buff` and the
frame, as long as no fragment writes over the list: one that claims to be shorter than its header,
one with the id of the packet that was completed last, one that reaches from a hole into the next,
or one that leaves the rest of a hole without a block of its own.
-/

namespace HrppBoot.Net

open ByteMemory LinkedChain

/-! ## Which fragments are delivered -/

theorem receiveUdp_notFragment (config : Config) (m : Memory) (ip ip' n : Nat) :
    (receiveUdp config m ip).delivery ≠ .fragment ip' n := by
  by_cases right : config.udpChecksum = true → ntohs m (ip + 26) ≠ 0 → udpChecksumOk m ip = true
  · rw [receiveUdp_delivered right]
    exact Delivery.noConfusion
  · rw [receiveUdp_dropped right]
    exact Delivery.noConfusion

variable {config : Config} {m : Memory} {n : Nat} {phase : Phase}

theorem receiveIp_fragment {ip ip' : Nat} {len : Int}
    (delivered : (receiveIp config m ip len).delivery = .fragment ip' n) :
    ip' = ip ∧ (ipUdpHdrSize : Int) ≤ len ∧ (ntohs m (ip + 2) : Int) ≤ len ∧
      isFragment m ip = true := by
  have passes : PassesIp config m ip len := passesIp_of_delivery fun none => by
    rw [none] at delivered
    cases delivered
  have headers := passes.headers
  have whole := passes.whole
  rw [receiveIp_passed passes] at delivered
  split at delivered
  · rename_i fragmented
    cases delivered
    exact ⟨rfl, by omega, by omega, fragmented⟩
  split at delivered
  · cases delivered
  split at delivered
  · cases delivered
  exact absurd delivered (receiveUdp_notFragment _ _ _ _ _)

theorem receiveProtocol_fragment {iscdp : Bool} {ethProto vlanid ip ip' : Nat} {len : Int}
    (delivered : (receiveProtocol config m iscdp ethProto vlanid ip len).delivery = .fragment ip' n)
    : (receiveIp config m ip len).delivery = .fragment ip' n := by
  unfold receiveProtocol at delivered
  split at delivered
  · cases delivered
  split at delivered
  · cases delivered
  split at delivered
  · cases delivered
  split at delivered
  · cases delivered
  split at delivered
  · exact delivered
  · cases delivered

theorem netProcessReceivedPacket_fragment {len ip : Nat}
    (delivered : (netProcessReceivedPacket config m len).delivery = .fragment ip n) :
    ip + ipUdpHdrSize ≤ len ∧ ip + ntohs m (ip + 2) ≤ len ∧ isFragment m ip = true := by
  have inside {iscdp : Bool} {ethProto vlanid header : Nat}
      (delivered : (receiveProtocol config m iscdp ethProto vlanid header
        ((len : Int) - header)).delivery = .fragment ip n) :
      ip + ipUdpHdrSize ≤ len ∧ ip + ntohs m (ip + 2) ≤ len ∧ isFragment m ip = true := by
    obtain ⟨rfl, headers, whole, fragmented⟩ :=
      receiveIp_fragment (receiveProtocol_fragment delivered)
    exact ⟨by omega, by omega, fragmented⟩
  unfold netProcessReceivedPacket at delivered
  split at delivered
  · cases delivered
  split at delivered
  · cases delivered
  rw [reading_delivery] at delivered
  split at delivered
  · exact inside delivered
  split at delivered
  · exact inside delivered
  split at delivered
  · cases delivered
  split at delivered
  · cases delivered
  · exact inside delivered

/-! ## The run -/

/-- A received frame, with the settings it meets. -/
structure Received where
  config : Config
  frame : Memory
  len : Nat

/-- Where the frame has a fragment that is given to `__net_defragment`. -/
def Received.fragment (received : Received) : Option Nat :=
  match (netProcessReceivedPacket received.config received.frame received.len).delivery with
  | .fragment ip _ => some ip
  | _ => none

/-- The calls for frames that arrive one after the other. -/
def receiveAll (state : Reassembly) : List Received → Option (List (Received × Outcome))
  | [] => some []
  | received :: later =>
    match received.fragment with
    | none => receiveAll state later
    | some ip =>
      (netDefragment state received.frame ip).bind fun outcome =>
        (receiveAll outcome.state later).map fun calls => (received, outcome) :: calls

/-- The nodes touched and the bytes copied to lie inside `pkt_buff`, and the bytes copied from
inside a frame of `len` bytes. -/
def Outcome.Inside (outcome : Outcome) (len : Nat) : Prop :=
  (∀ i ∈ outcome.holes, payload i + 8 ≤ ipPktsize) ∧
    (∀ span ∈ outcome.copied, span.Inside 0 ipPktsize) ∧
    ∀ span ∈ outcome.taken, span.Inside 0 len

/-! ## Phases -/

/-- What is left of the packet that is being put together. -/
inductive Phase where
  | idle
  | filling (id : Nat) (gaps : List Gap)
  | complete (id : Nat)
  deriving DecidableEq, Repr

/-- The gaps that a fragment with this id meets. -/
def Phase.gaps (id : Nat) : Phase → List Gap
  | .filling id' gaps => if id = id' then gaps else [(0, 65535)]
  | _ => [(0, 65535)]

def Phase.next (phase : Phase) (id o len : Nat) (more : Bool) : Phase :=
  match gapStep (phase.gaps id) o len more with
  | .same => .filling id (phase.gaps id)
  | .done => .complete id
  | .changed new => .filling id new

/-- The block that the packet at `ip` starts at. -/
def fragmentBlock (frame : Memory) (ip : Nat) : Nat := ntohs frame (ip + 6) % 0x2000

def fragmentLen (frame : Memory) (ip : Nat) : Int := (ntohs frame (ip + 2) : Int) - ipHdrSize

def fragmentMore (frame : Memory) (ip : Nat) : Bool := ntohs frame (ip + 6) / 0x2000 % 2 = 1

/-- The fragment extends too far, or wraps around. -/
def TooFar (frame : Memory) (ip : Nat) : Prop :=
  ((fragmentBlock frame ip * 8 : Nat) : Int) + fragmentLen frame ip < 0 ∨
    (ipMaxudp : Int) < (fragmentBlock frame ip * 8 : Nat) + fragmentLen frame ip

instance (frame : Memory) (ip : Nat) : Decidable (TooFar frame ip) :=
  inferInstanceAs (Decidable (_ ∨ _))

/-- The fragment writes over no node of the list: it is not shorter than its header, it does not
belong to the packet returned last, and it is harmless where it hits a gap. -/
structure Phase.Admits (phase : Phase) (frame : Memory) (ip : Nat) : Prop where
  length : 0 ≤ fragmentLen frame ip
  current : phase ≠ .complete (frame.half (ip + 4))
  harmless : HarmlessStep (phase.gaps (frame.half (ip + 4))) (fragmentBlock frame ip)
    (fragmentLen frame ip).toNat (fragmentMore frame ip)

/-- Every fragment of the run that is not dropped for its length is admitted when it arrives. -/
def Phase.AdmitsAll (phase : Phase) : List Received → Prop
  | [] => True
  | received :: later =>
    match received.fragment with
    | none => phase.AdmitsAll later
    | some ip =>
      if TooFar received.frame ip then phase.AdmitsAll later
      else phase.Admits received.frame ip ∧
        (phase.next (received.frame.half (ip + 4)) (fragmentBlock received.frame ip)
          (fragmentLen received.frame ip).toNat (fragmentMore received.frame ip)).AdmitsAll later

/-- The static variables belong to the phase. -/
def InPhase (state : Reassembly) : Phase → Prop
  | .idle => state.totalLen = 0
  | .filling id gaps => Tracks state gaps ∧ state.totalLen ≠ 0 ∧ state.pktBuff.half 4 = id
  | .complete id => state.totalLen ≠ 0 ∧ state.pktBuff.half 4 = id

/-! ## One call -/

section Call

variable {state : Reassembly} {gaps : List Gap} {frame : Memory} {ip o len frameLen : Nat}
  {more : Bool}

theorem GoodGaps.node_inside {gaps : List Gap} (good : GoodGaps gaps) {i : Nat}
    (member : i ∈ gaps.map Prod.fst) : payload i + 8 ≤ ipPktsize := by
  obtain ⟨gap, among, rfl⟩ := List.mem_map.mp member
  have own := (good.inside gap among).2.2
  unfold ipMaxudp ipPktsize configNetMaxdefrag at *
  unfold payload ipHdrSize at *
  omega

theorem Added.inside {new : List Gap} {outcome : Outcome} (good : GoodGaps gaps)
    (added : Added state frame ip o len more gaps new outcome) (goodNew : GoodGaps new)
    (fits : 8 * o + len ≤ ipMaxudp) (whole : ip + (ipHdrSize + len) ≤ frameLen) :
    outcome.Inside frameLen := by
  refine ⟨?_, ?_, ?_⟩
  · intro i member
    have touched := added.touched i member
    rw [List.map_append] at touched
    rcases List.mem_append.mp touched with old | isNew
    · exact good.node_inside old
    · exact goodNew.node_inside isNew
  · intro span member
    rw [added.copied] at member
    rw [List.mem_singleton.mp member]
    unfold ipMaxudp ipPktsize configNetMaxdefrag at *
    unfold Span.Inside payload
    unfold ipHdrSize at *
    simp only
    omega
  · intro span member
    rw [added.taken] at member
    rw [List.mem_singleton.mp member]
    unfold Span.Inside
    simp only
    omega

theorem Added.totalLen_ne_zero {new : List Gap} {outcome : Outcome}
    (added : Added state frame ip o len more gaps new outcome) (known : state.totalLen ≠ 0)
    (fragmented : more = true ∨ o ≠ 0) : outcome.state.totalLen ≠ 0 := by
  rw [added.totalLen]
  split
  · exact known
  · rename_i last
    rcases fragmented with isMore | positive
    · exact absurd isMore last
    · omega

/-- A harmless fragment on tracked holes. -/
theorem netReassemble_inside (tracks : Tracks state gaps) (known : state.totalLen ≠ 0)
    (fragment : IsFragmentAt frame ip o len more) (fragmented : more = true ∨ o ≠ 0)
    (fits : 8 * o + len ≤ ipMaxudp) (whole : ip + (ipHdrSize + len) ≤ frameLen)
    (harmless : HarmlessStep gaps o len more) :
    ∃ outcome, netReassemble state frame ip = some outcome ∧ outcome.Inside frameLen ∧
      InPhase outcome.state
        (match gapStep gaps o len more with
          | .same => .filling (state.pktBuff.half 4) gaps
          | .done => .complete (state.pktBuff.half 4)
          | .changed new => .filling (state.pktBuff.half 4) new) := by
  obtain ⟨outcome, called, follows⟩ := tracks.netReassemble fragment fits harmless
  refine ⟨outcome, called, ?_⟩
  have good := tracks.toGoodGaps
  cases step : gapStep gaps o len more with
  | same =>
    rw [step] at follows
    obtain ⟨sameState, -, copied, taken, touched⟩ := follows
    refine ⟨⟨fun i member => good.node_inside (touched i member), ?_, ?_⟩, ?_⟩
    · simp [copied]
    · simp [taken]
    · rw [sameState]
      exact ⟨tracks, known, rfl⟩
  | done =>
    rw [step] at follows
    obtain ⟨-, added⟩ := follows
    exact ⟨added.inside good ⟨List.Pairwise.nil, by simp⟩ fits whole,
      added.totalLen_ne_zero known fragmented, added.id⟩
  | changed new =>
    rw [step] at follows
    obtain ⟨-, tracksNew, added⟩ := follows
    exact ⟨added.inside good tracksNew.toGoodGaps fits whole, tracksNew,
      added.totalLen_ne_zero known fragmented, added.id⟩

end Call

theorem isFragmentAt {frame : Memory} {ip : Nat} (length : 0 ≤ fragmentLen frame ip) :
    IsFragmentAt frame ip (fragmentBlock frame ip) (fragmentLen frame ip).toNat
      (fragmentMore frame ip) := by
  refine ⟨rfl, ?_, rfl⟩
  unfold fragmentLen at *
  omega

theorem fragment_fields {frame : Memory} {ip : Nat} (fragmented : isFragment frame ip = true) :
    fragmentMore frame ip = true ∨ fragmentBlock frame ip ≠ 0 := by
  unfold isFragment at fragmented
  unfold fragmentMore fragmentBlock
  simp only [ne_eq, decide_not, Bool.not_eq_eq_eq_not, Bool.not_true, decide_eq_false_iff_not,
    decide_eq_true_eq] at *
  omega

theorem InPhase.gaps_of_restarts {state : Reassembly} {frame : Memory} {ip : Nat}
    (inPhase : InPhase state phase) (again : restarts state frame ip = true) :
    phase.gaps (frame.half (ip + 4)) = [(0, 65535)] := by
  cases phase with
  | idle => rfl
  | complete id => rfl
  | filling id gaps =>
    obtain ⟨-, known, same⟩ := inPhase
    simp only [restarts, known, same, false_or, decide_eq_true_eq] at again
    exact if_neg (Ne.symm again)

theorem InPhase.filling_of_going {state : Reassembly} {frame : Memory} {ip : Nat}
    (inPhase : InPhase state phase) (current : phase ≠ .complete (frame.half (ip + 4)))
    (going : ¬restarts state frame ip = true) :
    ∃ gaps, phase = .filling (frame.half (ip + 4)) gaps := by
  simp only [restarts, decide_eq_true_eq, not_or, ne_eq, not_not] at going
  cases phase with
  | idle => exact absurd inPhase going.1
  | complete id =>
    rw [going.2.symm.trans inPhase.2] at current
    exact absurd rfl current
  | filling id gaps =>
    obtain ⟨-, -, same⟩ := inPhase
    exact ⟨gaps, by rw [going.2.symm.trans same]⟩

/-- A fragment that is admitted in its phase. -/
theorem netDefragment_admitted {state : Reassembly} {frame : Memory} {ip frameLen : Nat}
    (inPhase : InPhase state phase) (near : ¬TooFar frame ip)
    (fragmented : isFragment frame ip = true) (admits : phase.Admits frame ip)
    (whole : ip + ntohs frame (ip + 2) ≤ frameLen) (headers : ip + ipUdpHdrSize ≤ frameLen) :
    ∃ outcome, netDefragment state frame ip = some outcome ∧ outcome.Inside frameLen ∧
      InPhase outcome.state (phase.next (frame.half (ip + 4)) (fragmentBlock frame ip)
        (fragmentLen frame ip).toNat (fragmentMore frame ip)) := by
  have fragment := isFragmentAt admits.length
  have fields := fragment_fields fragmented
  have fits : 8 * fragmentBlock frame ip + (fragmentLen frame ip).toNat ≤ ipMaxudp := by
    have := admits.length
    unfold TooFar at near
    omega
  have wholeToo : ip + (ipHdrSize + (fragmentLen frame ip).toNat) ≤ frameLen := by
    rw [← fragment.length]
    exact whole
  have harmless := admits.harmless
  have unfolded : netDefragment state frame ip = if restarts state frame ip then
      (netReassemble (resetHoles state frame ip) frame ip).map fun outcome =>
        { outcome with
          holes := 0 :: outcome.holes
          copied := ⟨0, ipHdrSize⟩ :: outcome.copied
          taken := ⟨ip, ipHdrSize⟩ :: outcome.taken }
      else netReassemble state frame ip :=
    if_neg near
  rw [unfolded]
  by_cases again : restarts state frame ip = true
  · have gaps := inPhase.gaps_of_restarts again
    rw [gaps] at harmless
    obtain ⟨outcome, called, inside, inPhaseToo⟩ := netReassemble_inside
      (tracks_resetHoles state frame ip) (by simp [resetHoles]) fragment fields fits wholeToo harmless
    rw [if_pos again, called]
    refine ⟨_, rfl, ⟨?_, ?_, ?_⟩, ?_⟩
    · intro i member
      rcases List.mem_cons.mp member with rfl | later
      · decide
      · exact inside.1 i later
    · intro span member
      rcases List.mem_cons.mp member with rfl | later
      · decide
      · exact inside.2.1 span later
    · intro span member
      rcases List.mem_cons.mp member with rfl | later
      · unfold ipUdpHdrSize at headers
        unfold Span.Inside ipHdrSize
        simp only
        omega
      · exact inside.2.2 span later
    · rw [half_resetHoles] at inPhaseToo
      rw [Phase.next, gaps]
      exact inPhaseToo
  · obtain ⟨gaps, rfl⟩ := inPhase.filling_of_going admits.current again
    obtain ⟨tracks, known, same⟩ := inPhase
    have own : (Phase.filling (frame.half (ip + 4)) gaps).gaps (frame.half (ip + 4)) = gaps :=
      if_pos rfl
    rw [own] at harmless
    obtain ⟨outcome, called, inside, inPhaseToo⟩ :=
      netReassemble_inside tracks known fragment fields fits wholeToo harmless
    rw [if_neg again, called]
    refine ⟨outcome, rfl, inside, ?_⟩
    rw [same] at inPhaseToo
    rw [Phase.next, own]
    exact inPhaseToo

/-! ## Every run -/

theorem Received.fragment_inside {received : Received} {ip : Nat}
    (delivered : received.fragment = some ip) :
    ip + ipUdpHdrSize ≤ received.len ∧ ip + ntohs received.frame (ip + 2) ≤ received.len ∧
      isFragment received.frame ip = true := by
  unfold Received.fragment at delivered
  split at delivered
  · rename_i delivery
    cases delivered
    exact netProcessReceivedPacket_fragment delivery
  · cases delivered

/-- From any phase, frames whose fragments are all admitted. -/
theorem InPhase.receiveAll {state : Reassembly} {phase : Phase} (inPhase : InPhase state phase)
    {run : List Received} (admits : phase.AdmitsAll run) :
    ∃ calls, Net.receiveAll state run = some calls ∧
      ∀ call ∈ calls, call.2.Inside call.1.len := by
  induction run generalizing state phase with
  | nil => exact ⟨[], rfl, by simp⟩
  | cons received later ih =>
    unfold Net.receiveAll
    unfold Phase.AdmitsAll at admits
    cases delivered : received.fragment with
    | none =>
      rw [delivered] at admits
      exact ih inPhase admits
    | some ip =>
      obtain ⟨headers, whole, fragmented⟩ := Received.fragment_inside delivered
      simp only [delivered] at admits ⊢
      by_cases far : TooFar received.frame ip
      · rw [if_pos far] at admits
        obtain ⟨calls, run, inside⟩ := ih inPhase admits
        have dropped : netDefragment state received.frame ip = some (returnsNull state []) :=
          if_pos far
        rw [dropped, Option.bind_some, returnsNull, run]
        refine ⟨_, rfl, ?_⟩
        intro call member
        rcases List.mem_cons.mp member with rfl | isLater
        · exact ⟨by simp, by simp, by simp⟩
        · exact inside call isLater
      · rw [if_neg far] at admits
        obtain ⟨outcome, called, own, inPhaseToo⟩ :=
          netDefragment_admitted inPhase far fragmented admits.1 whole headers
        obtain ⟨calls, run, inside⟩ := ih inPhaseToo admits.2
        rw [called, Option.bind_some, run]
        refine ⟨_, rfl, ?_⟩
        intro call member
        rcases List.mem_cons.mp member with rfl | isLater
        · exact own
        · exact inside call isLater

/-- In every run of frames whose fragments are all admitted when they arrive, the walks end, the
holes and the bytes copied to lie inside `pkt_buff`, and the bytes copied from inside the frame. -/
theorem receiveAll_inside {state : Reassembly} (fresh : state.totalLen = 0) {run : List Received}
    (admits : Phase.idle.AdmitsAll run) :
    ∃ calls, receiveAll state run = some calls ∧ ∀ call ∈ calls, call.2.Inside call.1.len :=
  @InPhase.receiveAll state .idle fresh run admits

/-- A broadcast fragment of 8 bytes with id 0 in a plain Ethernet frame. -/
def fragmentFrame (offHigh offLow sumHigh sumLow : UInt8) : Received :=
  ⟨plainConfig, fun a =>
    [0xff, 0xff, 0xff, 0xff, 0xff, 0xff, 0x02, 0x00, 0x00, 0x00, 0x00, 0x01, 0x08, 0x00,
      0x45, 0x00, 0x00, 0x1c, 0x00, 0x00, offHigh, offLow, 0x40, 0x11, sumHigh, sumLow,
      0x0a, 0x00, 0x00, 0x01, 0xff, 0xff, 0xff, 0xff].getD a 0, 42⟩

/-- The two fragments of a packet. -/
theorem receiveAll_inside_two : ∃ calls,
    receiveAll ⟨Memory.blank, 0, 0⟩
      [fragmentFrame 0x20 0 0x50 0xd1, fragmentFrame 0 1 0x70 0xd0] = some calls ∧
      ∀ call ∈ calls, call.2.Inside call.1.len := by
  have only {gap gap' : Gap} {before after : List Gap} (split : [gap] = before ++ gap' :: after) :
      gap' = gap ∧ after = [] := by
    cases before with
    | nil => simpa [eq_comm] using split
    | cons first before => simp at split
  apply receiveAll_inside rfl
  refine ⟨⟨by decide +kernel, by decide +kernel, ?_⟩, ⟨by decide +kernel, by decide +kernel, ?_⟩,
    trivial⟩
  · intro before gap after split hits
    obtain ⟨rfl, rfl⟩ := only split
    exact ⟨by simp, by decide +kernel⟩
  · intro before gap after split hits
    obtain ⟨rfl, rfl⟩ := only split
    exact ⟨by simp, by decide +kernel⟩

/-- A fragment that ends where the buffer does, with more to follow: the node of the rest of the
hole is written behind `pkt_buff`. -/
theorem receiveAll_outside : ¬∃ calls,
    receiveAll ⟨Memory.blank, 0, 0⟩ [fragmentFrame 0x28 0x09 0x48 0xc8] = some calls ∧
      ∀ call ∈ calls, call.2.Inside call.1.len := by
  rintro ⟨calls, run, inside⟩
  have touched : (receiveAll ⟨Memory.blank, 0, 0⟩ [fragmentFrame 0x28 0x09 0x48 0xc8]).map
      (fun calls => calls.map fun call => call.2.holes) = some [[0, 0, 0, 2058]] := by
    decide +kernel
  rw [run, Option.map_some, Option.some.injEq] at touched
  cases calls with
  | nil => simp at touched
  | cons call rest =>
    have holes : call.2.holes = [0, 0, 0, 2058] := by
      rw [List.map_cons, List.cons.injEq] at touched
      exact touched.1
    have last := (inside call (List.mem_cons_self ..)).1 2058 (by simp [holes])
    exact absurd last (by decide)

end HrppBoot.Net
