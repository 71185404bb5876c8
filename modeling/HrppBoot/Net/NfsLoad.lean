import HrppBoot.Net.Nfs

/-!
# What an NFS download loads

A run of the client is a list of packets and timeouts. Beside the client it keeps the request that
is outstanding and, for each request that was answered, the first reply with its number; from these
the bytes the server delivered are computed without looking at the client. The run is right as long
as no reply comes in that the client takes for something else.
-/

namespace HrppBoot.Net

open ByteMemory

/-! ## Runs -/

/-- A client, with the requests and replies it exchanged. -/
structure NfsRun where
  client : Nfs
  pending : Option RpcCall
  /-- The requests that were answered, each with its reply, in order. -/
  answers : List (RpcCall × RpcPacket)

/-- What happens to a client. -/
inductive NfsEvent where
  | packet (p : RpcPacket)
  | timeout

/-- The outstanding request, when the packet has its number. -/
def answered (pending : Option RpcCall) (p : RpcPacket) : Option RpcCall :=
  pending.filter fun call => p.dest = nfsOurPort ∧ replyId p.buffer = call.id

namespace NfsRun

variable (loadAddr : Nat)

/-- One event; nothing happens once the loop was left. -/
def step (r : NfsRun) : NfsEvent → Option NfsRun
  | .packet p =>
    if r.client.netState ≠ .going then some r
    else (r.client.nfsHandler loadAddr p).map fun result =>
      { client := result.1
        pending := result.2.or (if answered r.pending p = none then r.pending else none)
        answers := r.answers ++ ((answered r.pending p).map fun call => (call, p)).toList }
  | .timeout =>
    if r.client.netState ≠ .going then some r
    else some { r with client := r.client.nfsTimeoutHandler.1
                       pending := r.client.nfsTimeoutHandler.2.or r.pending }

/-- A list of events. -/
def run : NfsRun → List NfsEvent → Option NfsRun
  | r, [] => some r
  | r, event :: rest => (r.step loadAddr event).bind fun next => next.run rest

end NfsRun

/-! ## What the server delivers -/

/-- The bytes a reply to a read carries. -/
def RpcPacket.carried (p : RpcPacket) : List UInt8 :=
  p.buffer.load rpcReplySize (min (replyData p.buffer 18) (p.len - rpcReplySize))

/-- What an answer adds: the bytes of a read that succeeded. A read from the start begins anew. -/
def deliver (bytes : List UInt8) (answer : RpcCall × RpcPacket) : List UInt8 :=
  match answer.1.ask with
  | .read _ offset _ =>
    if failed answer.2.buffer then bytes
    else (if offset = 0 then [] else bytes) ++ answer.2.carried
  | _ => bytes

/-- The bytes of the replies to the successive reads. -/
def delivered (answers : List (RpcCall × RpcPacket)) : List UInt8 := answers.foldl deliver []

/-! ## The condition -/

section Condition

variable (loadAddr : Nat) (s : Nfs) (p : RpcPacket)

/-- A reply to the outstanding read is taken for what it is: the number of an error is negative as
the client sees it, and the bytes it counts are in the packet and fit behind those loaded. -/
def ReadPlain : Prop :=
  if failed p.buffer then
    replyRstatus p.buffer ≠ 0 ∨ replyAstatus p.buffer ≠ 0 ∨
      0 < replyData p.buffer 0 ∧ replyData p.buffer 0 ≤ 2 ^ 31
  else
    rpcReplySize + replyData p.buffer 18 ≤ p.len ∧ s.offset + replyData p.buffer 18 < 2 ^ 31 ∧
      loadAddr + s.offset + replyData p.buffer 18 ≤ ulongSize

instance : Decidable (ReadPlain loadAddr s p) := by
  unfold ReadPlain
  infer_instance

/-- The path of a link fits its buffer and has a slash. -/
def LinkPlain : Prop :=
  replyId p.copied = s.rpcId → failed p.copied = false →
    (Nfs.linkPath p.copied s.path).any (·.contains 0x2f) = true

instance : Decidable (LinkPlain s p) := inferInstanceAs (Decidable (_ → _))

/-- A packet the client takes for what it is, by the state it arrives in. -/
def Plain : Prop :=
  p.dest = nfsOurPort →
    match s.state with
    | .readReq => (4 ≤ p.len → s.rpcId ≤ replyId p.buffer) ∧
        (replyId p.buffer = s.rpcId → ReadPlain loadAddr s p)
    | .readlinkReq => p.len ≤ rpcPktSize ∧ LinkPlain s p
    | _ => p.len ≤ rpcPktSize

instance : Decidable (Plain loadAddr s p) := by
  unfold Plain
  cases s.state <;> infer_instance

end Condition

/-- An event that is no packet, or a plain one, or comes too late. -/
def PlainEvent (loadAddr : Nat) (r : NfsRun) : NfsEvent → Prop
  | .packet p => r.client.netState = .going → Plain loadAddr r.client p
  | .timeout => True

instance (loadAddr : Nat) (r : NfsRun) (event : NfsEvent) :
    Decidable (PlainEvent loadAddr r event) := by
  cases event <;> unfold PlainEvent <;> infer_instance

/-- Every packet of a run is plain in the state it arrives in. -/
def NfsRun.AllPlain (loadAddr : Nat) : NfsRun → List NfsEvent → Prop
  | _, [] => True
  | r, event :: rest =>
    PlainEvent loadAddr r event ∧
      match r.step loadAddr event with
      | some next => next.AllPlain loadAddr rest
      | none => True

/-- Whether a run is one of plain packets can be computed. -/
def NfsRun.decideAllPlain (loadAddr : Nat) :
    (r : NfsRun) → (events : List NfsEvent) → Decidable (r.AllPlain loadAddr events)
  | _, [] => isTrue trivial
  | r, event :: rest => by
    unfold NfsRun.AllPlain
    cases r.step loadAddr event with
    | none => infer_instance
    | some next =>
      have := NfsRun.decideAllPlain loadAddr next rest
      dsimp only
      infer_instance

instance (loadAddr : Nat) (r : NfsRun) (events : List NfsEvent) :
    Decidable (r.AllPlain loadAddr events) := NfsRun.decideAllPlain loadAddr r events

/-! ## What the handlers do -/

/-- The request is a read. -/
def RpcCall.isRead (call : RpcCall) : Prop := ∃ filefh offset len, call.ask = .read filefh offset len

section Handlers

variable {s t after : Nfs} {m : Memory} {sent : Option RpcCall}

theorem nfsSend_client (s : Nfs) : ∃ id, s.nfsSend.1 = { s with rpcId := id } := by
  unfold Nfs.nfsSend
  split
  case h_4 =>
    unfold Nfs.nfsUmountallReq
    split
    case isTrue => exact ⟨s.rpcId, rfl⟩
    case isFalse => exact ⟨_, rfl⟩
  all_goals exact ⟨_, rfl⟩

@[simp] theorem nfsSend_memory (s : Nfs) : s.nfsSend.1.memory = s.memory := by
  obtain ⟨id, sends⟩ := nfsSend_client s
  rw [sends]

@[simp] theorem nfsSend_state (s : Nfs) : s.nfsSend.1.state = s.state := by
  obtain ⟨id, sends⟩ := nfsSend_client s
  rw [sends]

@[simp] theorem nfsSend_downloadState (s : Nfs) :
    s.nfsSend.1.downloadState = s.downloadState := by
  obtain ⟨id, sends⟩ := nfsSend_client s
  rw [sends]

@[simp] theorem nfsSend_netState (s : Nfs) : s.nfsSend.1.netState = s.netState := by
  obtain ⟨id, sends⟩ := nfsSend_client s
  rw [sends]

@[simp] theorem nfsSend_offset (s : Nfs) : s.nfsSend.1.offset = s.offset := by
  obtain ⟨id, sends⟩ := nfsSend_client s
  rw [sends]

/-- The read of a client: what it asks for while it reads. -/
def Nfs.readCall (s : Nfs) : RpcCall := ⟨s.rpcId, s.serverPort, .read s.filefh s.offset s.len⟩

theorem nfsSend_read (reading : s.state = .readReq) :
    s.nfsSend.2 = some s.nfsSend.1.readCall := by
  unfold Nfs.nfsSend
  rw [reading]
  rfl

theorem nfsSend_other (other : s.state ≠ .readReq) {call : RpcCall}
    (sends : s.nfsSend.2 = some call) : ¬call.isRead := by
  rintro ⟨filefh, offset, len, ask⟩
  unfold Nfs.nfsSend at sends
  split at sends
  case h_4 =>
    unfold Nfs.nfsUmountallReq at sends
    split at sends
    case isTrue => cases sends
    case isFalse =>
      obtain rfl := Option.some.inj sends
      cases ask
  case h_6 reading => exact other reading
  all_goals
    obtain rfl := Option.some.inj sends
    cases ask

/-- What a handler does outside the state for reads. -/
structure Quiet (s after : Nfs) (sent : Option RpcCall) : Prop where
  memory : after.memory = s.memory
  downloadState : after.downloadState = s.downloadState
  reading : after.state = .readReq → after.offset = 0 ∧ sent = some after.readCall
  unmounting : s.state = .umountReq →
    after.state = .umountReq ∧ after.offset = s.offset ∧ ∀ call, sent = some call → ¬call.isRead
  success : after.netState = .success → s.netState = .success ∨ s.downloadState = .success

theorem Quiet.refl (notReading : s.state ≠ .readReq) : Quiet s s none where
  memory := rfl
  downloadState := rfl
  reading := fun reading => absurd reading notReading
  unmounting := fun unmounting => ⟨unmounting, rfl, fun _ none => by cases none⟩
  success := Or.inl

theorem Quiet.send (memory : t.memory = s.memory)
    (downloadState : t.downloadState = s.downloadState) (netState : t.netState = s.netState)
    (begins : t.state = .readReq → t.offset = 0) (mounted : s.state ≠ .umountReq)
    : Quiet s t.nfsSend.1 t.nfsSend.2 := by
  constructor
  case memory => rw [nfsSend_memory, memory]
  case downloadState => rw [nfsSend_downloadState, downloadState]
  case reading =>
    intro reading
    rw [nfsSend_state] at reading
    rw [nfsSend_offset]
    exact ⟨begins reading, nfsSend_read reading⟩
  case unmounting => exact fun unmounting => absurd unmounting mounted
  case success =>
    intro success
    rw [nfsSend_netState, netState] at success
    exact Or.inl success

/-- A reply leaves what it has nothing to do with. -/
structure Kept (s after : Nfs) : Prop where
  memory : after.memory = s.memory
  downloadState : after.downloadState = s.downloadState
  netState : after.netState = s.netState
  state : after.state = s.state
  offset : after.offset = s.offset

theorem Kept.refl (s : Nfs) : Kept s s := ⟨rfl, rfl, rfl, rfl, rfl⟩

theorem rpcLookupReply_kept (prog : RpcProg) (m : Memory) (s : Nfs) :
    Kept s (s.rpcLookupReply prog m).1 := by
  unfold Nfs.rpcLookupReply
  split
  case h_1 => exact Kept.refl s
  case h_2 =>
    split
    case isTrue => exact Kept.refl s
    case isFalse => cases prog <;> exact ⟨rfl, rfl, rfl, rfl, rfl⟩

theorem nfsMountReply_kept (m : Memory) (s : Nfs) : Kept s (s.nfsMountReply m).1 := by
  unfold Nfs.nfsMountReply
  split
  case h_1 => exact Kept.refl s
  case h_2 => split <;> exact ⟨rfl, rfl, rfl, rfl, rfl⟩

theorem nfsUmountallReply_kept (m : Memory) (s : Nfs) : Kept s (s.nfsUmountallReply m).1 := by
  unfold Nfs.nfsUmountallReply
  split
  case h_1 => exact Kept.refl s
  case h_2 => split <;> exact ⟨rfl, rfl, rfl, rfl, rfl⟩

theorem nfsLookupReply_kept (m : Memory) (s : Nfs) : Kept s (s.nfsLookupReply m).1 := by
  unfold Nfs.nfsLookupReply
  split
  case h_1 => exact Kept.refl s
  case h_2 => split <;> exact ⟨rfl, rfl, rfl, rfl, rfl⟩

theorem nfsReadlinkReply_kept {result : Nfs × Int} (replied : s.nfsReadlinkReply m = some result) :
    Kept s result.1 := by
  unfold Nfs.nfsReadlinkReply at replied
  split at replied
  case h_1 =>
    obtain rfl := Option.some.inj replied
    exact Kept.refl s
  case h_2 =>
    split at replied
    case isTrue =>
      obtain rfl := Option.some.inj replied
      exact Kept.refl s
    case isFalse =>
      obtain ⟨path, -, rfl⟩ := Option.map_eq_some_iff.mp replied
      exact ⟨rfl, rfl, rfl, rfl, rfl⟩

theorem Kept.quiet (kept : Kept s t) (notReading : s.state ≠ .readReq) : Quiet s t none where
  memory := kept.memory
  downloadState := kept.downloadState
  reading := fun reading => absurd (kept.state.symm.trans reading) notReading
  unmounting := fun unmounting =>
    ⟨kept.state.trans unmounting, kept.offset, fun _ none => by cases none⟩
  success := fun success => Or.inl (kept.netState.symm.trans success)

variable {reply : Int} {rpcId : Nat}

theorem onReply_quiet {next : Nfs} (kept : Kept s t) (notReading : s.state ≠ .readReq)
    (mounted : s.state ≠ .umountReq) (goes_on : Quiet s next.nfsSend.1 next.nfsSend.2) :
    Quiet s (t.onReply reply next).1 (t.onReply reply next).2 := by
  unfold Nfs.onReply
  split
  case isTrue => exact kept.quiet notReading
  case isFalse =>
    split
    case isTrue =>
      exact Quiet.send kept.memory kept.downloadState kept.netState (fun other => by cases other)
        mounted
    case isFalse => exact goes_on

theorem onUmount_quiet (kept : Kept s t) (unmounting : s.state = .umountReq) :
    Quiet s (t.onUmount reply) none := by
  have quiet : Quiet s t none := kept.quiet (by rw [unmounting]; decide)
  unfold Nfs.onUmount
  split
  case isTrue => exact quiet
  case isFalse =>
    split
    case isTrue => exact ⟨quiet.memory, quiet.downloadState, quiet.reading, quiet.unmounting,
      fun failure => by cases failure⟩
    case isFalse =>
      refine ⟨quiet.memory, quiet.downloadState, quiet.reading, quiet.unmounting, ?_⟩
      intro success
      exact Or.inr (kept.downloadState.symm.trans success)

theorem onReadlink_quiet (kept : Kept s t) (linked : s.state = .readlinkReq)
    (handled : t.onReadlink reply = some (after, sent)) : Quiet s after sent := by
  have notReading : s.state ≠ .readReq := by rw [linked]; decide
  have mounted : s.state ≠ .umountReq := by rw [linked]; decide
  unfold Nfs.onReadlink at handled
  split at handled
  case isTrue =>
    obtain ⟨rfl, rfl⟩ := Prod.ext_iff.mp (Option.some.inj handled)
    exact kept.quiet notReading
  case isFalse =>
    split at handled
    case isTrue =>
      obtain ⟨rfl, rfl⟩ := Prod.ext_iff.mp (Option.some.inj handled)
      exact Quiet.send kept.memory kept.downloadState kept.netState (fun other => by cases other)
        mounted
    case isFalse =>
      obtain ⟨split, -, same⟩ := Option.map_eq_some_iff.mp handled
      obtain ⟨rfl, rfl⟩ := Prod.ext_iff.mp same
      exact Quiet.send kept.memory kept.downloadState kept.netState (fun other => by cases other)
        mounted

theorem port_quiet {prog : RpcProg} {next : NfsState} (notReading : s.state ≠ .readReq)
    (mounted : s.state ≠ .umountReq) (later : next ≠ .readReq)
    (handled : (if (s.rpcLookupReply prog m).2 = -nfsRpcDrop
        then some ((s.rpcLookupReply prog m).1, none)
        else some { (s.rpcLookupReply prog m).1 with state := next }.nfsSend) =
      some (after, sent)) : Quiet s after sent := by
  have kept := rpcLookupReply_kept prog m s
  split at handled
  case isTrue =>
    obtain ⟨rfl, rfl⟩ := Prod.ext_iff.mp (Option.some.inj handled)
    exact kept.quiet notReading
  case isFalse =>
    obtain ⟨rfl, rfl⟩ := Prod.ext_iff.mp (Option.some.inj handled)
    exact Quiet.send kept.memory kept.downloadState kept.netState
      (fun reading => absurd reading later) mounted

theorem copyingHandler_quiet (notReading : s.state ≠ .readReq)
    (handled : s.copyingHandler m = some (after, sent)) : Quiet s after sent := by
  unfold Nfs.copyingHandler at handled
  split at handled
  case h_1 looking =>
    have mounted : s.state ≠ .umountReq := by rw [looking]; decide
    exact @port_quiet s after m sent .mount .prclookupProgNfsReq notReading mounted (by decide)
      handled
  case h_2 looking =>
    have mounted : s.state ≠ .umountReq := by rw [looking]; decide
    exact @port_quiet s after m sent .nfs .mountReq notReading mounted (by decide) handled
  case h_3 mounting =>
    have kept := nfsMountReply_kept m s
    have mounted : s.state ≠ .umountReq := by rw [mounting]; decide
    obtain ⟨rfl, rfl⟩ := Prod.ext_iff.mp (Option.some.inj handled)
    exact onReply_quiet kept notReading mounted (Quiet.send kept.memory kept.downloadState
      kept.netState (fun other => by cases other) mounted)
  case h_4 unmounting =>
    obtain ⟨rfl, rfl⟩ := Prod.ext_iff.mp (Option.some.inj handled)
    exact onUmount_quiet (nfsUmountallReply_kept m s) unmounting
  case h_5 looking =>
    have kept := nfsLookupReply_kept m s
    have mounted : s.state ≠ .umountReq := by rw [looking]; decide
    obtain ⟨rfl, rfl⟩ := Prod.ext_iff.mp (Option.some.inj handled)
    exact onReply_quiet kept notReading mounted (Quiet.send kept.memory kept.downloadState
      kept.netState (fun _ => rfl) mounted)
  case h_6 linked =>
    obtain ⟨result, replied, goes_on⟩ := Option.bind_eq_some_iff.mp handled
    exact onReadlink_quiet (nfsReadlinkReply_kept replied) linked goes_on
  case h_7 reading => exact absurd reading notReading

theorem checkId_older (older : replyId m < rpcId) :
    checkId rpcId m = some (-nfsRpcDrop) := by
  unfold checkId
  rw [if_neg (by omega), if_pos older]

theorem checkId_newer (newer : rpcId < replyId m) :
    checkId rpcId m = some (-nfsRpcErr) := by
  unfold checkId
  rw [if_pos newer]

theorem checkId_same (same : replyId m = rpcId) : checkId rpcId m = none := by
  unfold checkId
  rw [if_neg (by omega), if_neg (by omega)]

theorem copyingHandler_older (older : replyId m < s.rpcId) :
    s.copyingHandler m = some (s, none) := by
  have dropped := checkId_older older
  unfold Nfs.copyingHandler
  split
  case h_1 => simp [Nfs.rpcLookupReply, dropped]
  case h_2 => simp [Nfs.rpcLookupReply, dropped]
  case h_3 => simp [Nfs.nfsMountReply, dropped, Nfs.onReply]
  case h_4 => simp [Nfs.nfsUmountallReply, dropped, Nfs.onUmount]
  case h_5 => simp [Nfs.nfsLookupReply, dropped, Nfs.onReply]
  case h_6 => simp [Nfs.nfsReadlinkReply, dropped, Nfs.onReadlink]
  case h_7 => rfl

theorem readlink_defined (plain : replyId m = s.rpcId → failed m = false →
      (Nfs.linkPath m s.path).any (·.contains 0x2f) = true) :
    ((s.nfsReadlinkReply m).bind fun (s, reply) => s.onReadlink reply).isSome := by
  rcases Nat.lt_trichotomy (replyId m) s.rpcId with older | same | newer
  · simp [Nfs.nfsReadlinkReply, checkId_older older, Nfs.onReadlink]
  · by_cases bad : failed m = true
    · simp [Nfs.nfsReadlinkReply, checkId_same same, bad, Nfs.onReadlink, nfsRpcErr, nfsRpcDrop]
    · have inside := plain same (by simpa using bad)
      cases link : Nfs.linkPath m s.path with
      | none => simp [link] at inside
      | some path =>
        have slash : 0x2f ∈ path := by simpa [link] using inside
        simp [Nfs.nfsReadlinkReply, checkId_same same, bad, link, Nfs.onReadlink, nfsRpcErr,
          nfsRpcDrop, splitPath, slash]
  · simp [Nfs.nfsReadlinkReply, checkId_newer newer, Nfs.onReadlink, nfsRpcErr, nfsRpcDrop]

theorem copyingHandler_defined
    (plain : s.state = .readlinkReq → replyId m = s.rpcId → failed m = false →
      (Nfs.linkPath m s.path).any (·.contains 0x2f) = true) :
    (s.copyingHandler m).isSome := by
  unfold Nfs.copyingHandler
  split
  case h_1 => dsimp only; split <;> rfl
  case h_2 => dsimp only; split <;> rfl
  case h_6 linked => exact readlink_defined (plain linked)
  all_goals rfl

theorem replyId_copied {p : RpcPacket} (numbered : 4 ≤ p.len) :
    replyId p.copied = replyId p.buffer := by
  have byte : ∀ a, a < 4 → p.copied a = p.buffer a := fun a inside => if_pos (by omega)
  simp only [replyId, netWord, Nat.zero_add, byte 0 (by decide), byte 1 (by decide),
    byte 2 (by decide), byte 3 (by decide)]

/-! ## The read reply -/

theorem toInt_negative {code : Nat} (positive : 0 < code) (small : code ≤ 2 ^ 31) :
    toInt ((ulongSize - code) % ulongSize) < 0 := by
  have negated : (ulongSize - code) % ulongSize = 2 ^ 32 - code := by
    unfold ulongSize
    omega
  rw [negated, toInt, if_neg (by omega)]
  omega

/-- The reply to a read, when the client takes it for what it is: an error, or the bytes it
carries. -/
theorem nfsReadReply_plain {loadAddr : Nat} {p : RpcPacket} (same : replyId p.buffer = s.rpcId)
    (plain : ReadPlain loadAddr s p) :
    (∃ rlen, rlen < 0 ∧ s.nfsReadReply loadAddr p.buffer = (s, rlen)) ∨
    (failed p.buffer = false ∧ s.offset + p.carried.length < 2 ^ 31 ∧
      loadAddr + s.offset + p.carried.length ≤ ulongSize ∧
      s.nfsReadReply loadAddr p.buffer =
        (s.storeBlock loadAddr p.carried, (p.carried.length : Int))) := by
  unfold ReadPlain at plain
  unfold Nfs.nfsReadReply
  rw [checkId_same same]
  by_cases bad : failed p.buffer = true
  · rw [if_pos bad] at plain
    left
    simp only [if_pos bad]
    split
    case isTrue => exact ⟨-9999, by decide, rfl⟩
    case isFalse rstatus =>
      split
      case isTrue => exact ⟨-9999, by decide, rfl⟩
      case isFalse astatus =>
        have number : 0 < replyData p.buffer 0 ∧ replyData p.buffer 0 ≤ 2 ^ 31 := by tauto
        exact ⟨_, toInt_negative number.1 number.2, rfl⟩
  · rw [if_neg bad] at plain
    obtain ⟨inside, small, room⟩ := plain
    have whole : p.carried = p.buffer.load rpcReplySize (replyData p.buffer 18) := by
      unfold RpcPacket.carried
      rw [Nat.min_eq_left (by omega)]
    have length : p.carried.length = replyData p.buffer 18 := by
      rw [whole]
      exact Memory.length_load _ _ _
    refine Or.inr ⟨by simpa using bad, by omega, by omega, ?_⟩
    simp only [if_neg bad, length, ← whole]
    rw [toInt, if_pos (by omega)]

end Handlers

/-! ## The invariant -/

/-- The memory holds what was delivered, up to the offset. -/
structure Loaded (loadAddr : Nat) (r : NfsRun) : Prop where
  holds : r.client.memory.Holds loadAddr (delivered r.answers)
  length : (delivered r.answers).length = r.client.offset

/-- What holds along a run of plain packets. -/
structure Consistent (loadAddr : Nat) (r : NfsRun) : Prop where
  /-- While the client reads, its read is outstanding, and what it read so far is loaded. -/
  reading : r.client.state = .readReq →
    r.pending = some r.client.readCall ∧ (r.client.offset ≠ 0 → Loaded loadAddr r)
  complete : r.client.downloadState = .success → r.client.state = .umountReq ∧ Loaded loadAddr r ∧
    ∀ call, r.pending = some call → ¬call.isRead
  success : r.client.netState = .success → r.client.downloadState = .success

theorem delivered_other {answers : List (RpcCall × RpcPacket)} {call : RpcCall} {p : RpcPacket}
    (other : ¬call.isRead) : delivered (answers ++ [(call, p)]) = delivered answers := by
  unfold delivered
  rw [List.foldl_append, List.foldl_cons, List.foldl_nil]
  unfold deliver
  split
  case h_1 filefh offset len ask => exact absurd ⟨filefh, offset, len, ask⟩ other
  case h_2 => rfl

theorem delivered_read {answers : List (RpcCall × RpcPacket)} {s : Nfs} {p : RpcPacket}
    (carried : failed p.buffer = false) :
    delivered (answers ++ [(s.readCall, p)]) =
      (if s.offset = 0 then [] else delivered answers) ++ p.carried := by
  unfold delivered
  rw [List.foldl_append, List.foldl_cons, List.foldl_nil]
  simp [deliver, Nfs.readCall, carried]

section Step

variable {loadAddr : Nat} {r next : NfsRun}

/-- The client after a packet it takes for what it is, outside the state for reads. -/
theorem Consistent.quiet {after : Nfs} {sent : Option RpcCall} {p : RpcPacket}
    (consistent : Consistent loadAddr r) (going : r.client.netState = .going)
    (quiet : Quiet r.client after sent) :
    Consistent loadAddr ⟨after,
      sent.or (if answered r.pending p = none then r.pending else none),
      r.answers ++ ((answered r.pending p).map fun call => (call, p)).toList⟩ := by
  constructor
  case reading =>
    intro reading
    obtain ⟨start, sends⟩ := quiet.reading reading
    rw [sends]
    exact ⟨rfl, fun other => absurd start other⟩
  case complete =>
    intro complete
    obtain ⟨unmounting, loaded, noRead⟩ :=
      consistent.complete (quiet.downloadState.symm.trans complete)
    obtain ⟨stays, offset, asks⟩ := quiet.unmounting unmounting
    have same : delivered (r.answers ++ ((answered r.pending p).map fun call => (call, p)).toList) =
        delivered r.answers := by
      cases found : answered r.pending p with
      | none => simp
      | some call =>
        exact delivered_other (noRead call (Option.filter_eq_some_iff.mp found).1)
    refine ⟨stays, ⟨?_, ?_⟩, ?_⟩
    · rw [same, quiet.memory]
      exact loaded.holds
    · rw [same, offset]
      exact loaded.length
    · intro call outstanding
      cases sends : sent with
      | some asked =>
        rw [sends] at outstanding
        exact asks call (sends.trans outstanding)
      | none =>
        rw [sends, Option.none_or] at outstanding
        split at outstanding
        case isTrue => exact noRead call outstanding
        case isFalse => cases outstanding
  case success =>
    intro success
    have done := quiet.success success
    rw [going] at done
    rw [quiet.downloadState]
    simpa using done

theorem onRead_negative {s : Nfs} {rlen : Int} (negative : rlen < 0) :
    (s.onRead rlen).1.state ≠ .readReq ∧ (s.onRead rlen).1.downloadState = s.downloadState ∧
      (s.onRead rlen).1.netState = s.netState := by
  unfold Nfs.onRead
  rw [if_neg (by omega)]
  split
  case isTrue => simp
  case isFalse =>
    have failure : rlen ≠ 0 := by omega
    simp [failure]

theorem Consistent.give_up {rlen : Int} {pending : Option RpcCall}
    {answers : List (RpcCall × RpcPacket)} (consistent : Consistent loadAddr r)
    (going : r.client.netState = .going) (reading : r.client.state = .readReq) (negative : rlen < 0)
    : Consistent loadAddr ⟨(r.client.onRead rlen).1, pending, answers⟩ := by
  obtain ⟨state, downloadState, netState⟩ := @onRead_negative r.client rlen negative
  constructor
  case reading => exact fun still => absurd still state
  case complete =>
    intro complete
    have unmounting := (consistent.complete (downloadState.symm.trans complete)).1
    rw [reading] at unmounting
    cases unmounting
  case success =>
    intro success
    rw [netState, going] at success
    cases success

theorem storeBlock_holds {p : RpcPacket} (loaded : r.client.offset ≠ 0 → Loaded loadAddr r)
    (room : loadAddr + r.client.offset + p.carried.length ≤ ulongSize) :
    (r.client.storeBlock loadAddr p.carried).memory.Holds loadAddr
      ((if r.client.offset = 0 then [] else delivered r.answers) ++ p.carried) := by
  unfold Nfs.storeBlock
  rcases Nat.eq_zero_or_pos p.carried.length with empty | some_bytes
  · rw [List.eq_nil_of_length_eq_zero empty, Memory.store_nil, List.append_nil]
    split
    case isTrue => exact fun i inside => absurd inside (by simp)
    case isFalse later => exact (loaded later).holds
  · have place : (loadAddr + r.client.offset) % ulongSize = loadAddr + r.client.offset :=
      Nat.mod_eq_of_lt (by omega)
    rw [place]
    split
    case isTrue start =>
      rw [start, List.nil_append]
      exact Memory.store_holds _ _ _
    case isFalse later =>
      have length := (loaded later).length
      refine (Memory.holds_append _ _ _ _).mpr ⟨?_, ?_⟩
      · exact (loaded later).holds.store_apart (Or.inl (by omega))
      · rw [length]
        exact Memory.store_holds _ _ _

/-- A read that was answered goes on behind the bytes it brought, or is complete. -/
theorem Consistent.read {p : RpcPacket} (consistent : Consistent loadAddr r)
    (going : r.client.netState = .going) (reading : r.client.state = .readReq)
    (carried : failed p.buffer = false) (small : r.client.offset + p.carried.length < 2 ^ 31)
    (room : loadAddr + r.client.offset + p.carried.length ≤ ulongSize) :
    Consistent loadAddr
      ⟨((r.client.storeBlock loadAddr p.carried).onRead p.carried.length).1,
        ((r.client.storeBlock loadAddr p.carried).onRead p.carried.length).2,
        r.answers ++ [(r.client.readCall, p)]⟩ := by
  obtain ⟨-, loaded⟩ := consistent.reading reading
  have holds := storeBlock_holds loaded room
  have bytes := @delivered_read r.answers r.client p carried
  have length : (delivered (r.answers ++ [(r.client.readCall, p)])).length =
      r.client.offset + p.carried.length := by
    rw [bytes, List.length_append]
    split
    case isTrue start => simp [start]
    case isFalse later => rw [(loaded later).length]
  rw [← bytes] at holds
  unfold Nfs.onRead
  rcases Nat.eq_zero_or_pos p.carried.length with empty | some_bytes
  · have zero : ¬(p.carried.length : Int) > 0 := by omega
    rw [if_neg zero, if_neg (by rw [empty]; decide)]
    constructor
    case reading =>
      intro still
      rw [nfsSend_state] at still
      cases still
    case complete =>
      intro _
      refine ⟨by rw [nfsSend_state], ⟨?_, ?_⟩, ?_⟩
      · rw [nfsSend_memory]
        exact holds
      · rw [nfsSend_offset, length, empty, Nat.add_zero]
        rfl
      · intro call sends
        exact nfsSend_other (fun other => by cases other) sends
    case success =>
      intro success
      rw [nfsSend_netState] at success
      rw [nfsSend_downloadState]
      simp [empty]
  · rw [if_pos (by omega), Int.toNat_natCast]
    have moved : (r.client.offset + p.carried.length) % ulongSize =
        r.client.offset + p.carried.length := Nat.mod_eq_of_lt (by unfold ulongSize; omega)
    constructor
    case reading =>
      intro still
      rw [nfsSend_state] at still
      refine ⟨nfsSend_read still, fun _ => ⟨?_, ?_⟩⟩
      · rw [nfsSend_memory]
        exact holds
      · rw [nfsSend_offset, length]
        exact moved.symm
    case complete =>
      intro complete
      rw [nfsSend_downloadState] at complete
      have unmounting := (consistent.complete complete).1
      rw [reading] at unmounting
      cases unmounting
    case success =>
      intro success
      rw [nfsSend_netState] at success
      exact absurd (going.symm.trans success) (by decide)

theorem answered_other {pending : Option RpcCall} {p : RpcPacket} (other : p.dest ≠ nfsOurPort) :
    answered pending p = none := by
  simp [answered, other]

theorem answered_read {s : Nfs} {p : RpcPacket} (ours : p.dest = nfsOurPort)
    (same : replyId p.buffer = s.rpcId) : answered (some s.readCall) p = some s.readCall := by
  simp [answered, ours, same, Nfs.readCall]

theorem step_packet {p : RpcPacket} {result : Nfs × Option RpcCall}
    (going : r.client.netState = .going) (handled : r.client.nfsHandler loadAddr p = some result) :
    r.step loadAddr (.packet p) = some ⟨result.1,
      result.2.or (if answered r.pending p = none then r.pending else none),
      r.answers ++ ((answered r.pending p).map fun call => (call, p)).toList⟩ := by
  unfold NfsRun.step
  simp only [going, ne_eq, not_true_eq_false, if_false, handled, Option.map_some]

theorem nfsHandler_reading {s after : Nfs} {p : RpcPacket} {rlen : Int} (ours : p.dest = nfsOurPort)
    (reading : s.state = .readReq) (reply : s.nfsReadReply loadAddr p.buffer = (after, rlen)) :
    s.nfsHandler loadAddr p = some (after.onRead rlen) := by
  unfold Nfs.nfsHandler
  rw [if_neg (not_not.mpr ours), if_pos reading, reply]

theorem Consistent.reading_packet {p : RpcPacket} (consistent : Consistent loadAddr r)
    (going : r.client.netState = .going) (reading : r.client.state = .readReq)
    (plain : Plain loadAddr r.client p) :
    ∃ after, r.step loadAddr (.packet p) = some after ∧ Consistent loadAddr after := by
  obtain ⟨pending, -⟩ := consistent.reading reading
  by_cases ours : p.dest = nfsOurPort
  · unfold Plain at plain
    rw [reading] at plain
    obtain ⟨-, same_plain⟩ := plain ours
    have give_up : ∀ rlen < 0, r.client.nfsReadReply loadAddr p.buffer = (r.client, rlen) →
        ∃ after, r.step loadAddr (.packet p) = some after ∧ Consistent loadAddr after := by
      intro rlen negative reply
      exact ⟨_, step_packet going (nfsHandler_reading ours reading reply),
        consistent.give_up going reading negative⟩
    rcases Nat.lt_trichotomy (replyId p.buffer) r.client.rpcId with older | same | newer
    · exact give_up (-nfsRpcDrop) (by decide) (by rw [Nfs.nfsReadReply, checkId_older older])
    · rcases nfsReadReply_plain same (same_plain same) with
        ⟨rlen, negative, reply⟩ | ⟨carried, small, room, reply⟩
      · exact give_up rlen negative reply
      · refine ⟨_, step_packet going (nfsHandler_reading ours reading reply), ?_⟩
        rw [pending, answered_read ours same, if_neg (by simp), Option.or_none]
        exact consistent.read going reading carried small room
    · exact give_up (-nfsRpcErr) (by decide) (by rw [Nfs.nfsReadReply, checkId_newer newer])
  · have handled : r.client.nfsHandler loadAddr p = some (r.client, none) := by
      rw [Nfs.nfsHandler, if_pos ours]
    refine ⟨_, step_packet going handled, ?_⟩
    rw [answered_other ours]
    simpa using consistent

theorem Consistent.other_packet {p : RpcPacket} (consistent : Consistent loadAddr r)
    (going : r.client.netState = .going) (notReading : r.client.state ≠ .readReq)
    (plain : Plain loadAddr r.client p) :
    ∃ after, r.step loadAddr (.packet p) = some after ∧ Consistent loadAddr after := by
  have defined : ∃ result, r.client.nfsHandler loadAddr p = some result ∧
      Quiet r.client result.1 result.2 := by
    unfold Nfs.nfsHandler
    by_cases ours : p.dest = nfsOurPort
    · have short : p.len ≤ rpcPktSize ∧ (r.client.state = .readlinkReq → LinkPlain r.client p) := by
        have fits := plain ours
        cases state : r.client.state <;> simp_all
      have inside := copyingHandler_defined short.2
      obtain ⟨result, handled⟩ := Option.isSome_iff_exists.mp inside
      rw [if_neg (not_not.mpr ours), if_neg notReading, if_neg (by omega)]
      exact ⟨result, handled, copyingHandler_quiet notReading handled⟩
    · rw [if_pos ours]
      exact ⟨_, rfl, Quiet.refl notReading⟩
  obtain ⟨result, handled, quiet⟩ := defined
  exact ⟨_, step_packet going handled, consistent.quiet going quiet⟩

/-- A timeout sends the request of the state again. -/
theorem Consistent.timeout (consistent : Consistent loadAddr r) (going : r.client.netState = .going)
    :
    Consistent loadAddr { r with client := r.client.nfsTimeoutHandler.1
                                 pending := r.client.nfsTimeoutHandler.2.or r.pending } := by
  unfold Nfs.nfsTimeoutHandler
  dsimp only
  split
  case isTrue =>
    constructor
    case reading =>
      intro reading
      obtain ⟨pending, loaded⟩ := consistent.reading reading
      exact ⟨pending, fun later => ⟨(loaded later).holds, (loaded later).length⟩⟩
    case complete =>
      intro complete
      obtain ⟨unmounting, loaded, noRead⟩ := consistent.complete complete
      exact ⟨unmounting, ⟨loaded.holds, loaded.length⟩, noRead⟩
    case success => exact fun success => by cases success
  case isFalse =>
    constructor
    case reading =>
      intro reading
      rw [nfsSend_state] at reading
      obtain ⟨-, loaded⟩ := consistent.reading reading
      refine ⟨by rw [nfsSend_read reading]; rfl, fun later => ?_⟩
      rw [nfsSend_offset] at later
      exact ⟨by rw [nfsSend_memory]; exact (loaded later).holds,
        by rw [nfsSend_offset]; exact (loaded later).length⟩
    case complete =>
      intro complete
      rw [nfsSend_downloadState] at complete
      obtain ⟨unmounting, loaded, noRead⟩ := consistent.complete complete
      refine ⟨by rw [nfsSend_state]; exact unmounting, ⟨?_, ?_⟩, fun call outstanding => ?_⟩
      · rw [nfsSend_memory]
        exact loaded.holds
      · rw [nfsSend_offset]
        exact loaded.length
      · cases sends : Nfs.nfsSend { r.client with timeoutCount := r.client.timeoutCount + 1 } with
        | mk client sent =>
          rw [sends] at outstanding
          cases sent with
          | none => exact noRead call outstanding
          | some asked =>
            have other : r.client.state ≠ .readReq := by rw [unmounting]; decide
            exact @nfsSend_other { r.client with timeoutCount := r.client.timeoutCount + 1 } other
              call (by rw [sends]; exact outstanding)
    case success =>
      intro success
      rw [nfsSend_netState] at success
      exact absurd (going.symm.trans success) (by decide)

theorem Consistent.step {event : NfsEvent} (consistent : Consistent loadAddr r)
    (plain : PlainEvent loadAddr r event) :
    ∃ after, r.step loadAddr event = some after ∧ Consistent loadAddr after := by
  by_cases going : r.client.netState = .going
  · cases event with
    | packet p =>
      by_cases reading : r.client.state = .readReq
      · exact consistent.reading_packet going reading (plain going)
      · exact consistent.other_packet going reading (plain going)
    | timeout =>
      refine ⟨_, ?_, consistent.timeout going⟩
      simp [NfsRun.step, going]
  · refine ⟨r, ?_, consistent⟩
    cases event <;> simp [NfsRun.step, going]

theorem allPlain_cons {event : NfsEvent} {rest : List NfsEvent}
    (plain : r.AllPlain loadAddr (event :: rest)) :
    PlainEvent loadAddr r event ∧
      ∀ after, r.step loadAddr event = some after → after.AllPlain loadAddr rest := by
  obtain ⟨here, later⟩ := plain
  refine ⟨here, fun after stepped => ?_⟩
  rw [stepped] at later
  exact later

theorem Consistent.run (before : List NfsEvent) {rest : List NfsEvent}
    (consistent : Consistent loadAddr r) (plain : r.AllPlain loadAddr (before ++ rest)) :
    ∃ after, r.run loadAddr before = some after ∧ Consistent loadAddr after ∧
      after.AllPlain loadAddr rest := by
  induction before generalizing r with
  | nil => exact ⟨r, rfl, consistent, plain⟩
  | cons event before ih =>
    obtain ⟨here, later⟩ := allPlain_cons plain
    obtain ⟨after, stepped, still⟩ := consistent.step here
    obtain ⟨last, ran, kept⟩ := ih still (later after stepped)
    refine ⟨last, ?_, kept⟩
    rw [NfsRun.run, stepped]
    exact ran

theorem older_unchanged {p : RpcPacket} (plain : PlainEvent loadAddr r (.packet p))
    (numbered : 4 ≤ p.len) (older : replyId p.buffer < r.client.rpcId) :
    ∃ after, r.step loadAddr (.packet p) = some after ∧ after.client = r.client := by
  by_cases going : r.client.netState = .going
  · have handled : r.client.nfsHandler loadAddr p = some (r.client, none) := by
      unfold Nfs.nfsHandler
      by_cases ours : p.dest = nfsOurPort
      · have fits := plain going ours
        have notReading : r.client.state ≠ .readReq := by
          intro reading
          rw [reading] at fits
          have newer := fits.1 numbered
          omega
        have short : p.len ≤ rpcPktSize := by
          cases state : r.client.state <;> simp_all
        rw [if_neg (not_not.mpr ours), if_neg notReading, if_neg (by omega)]
        exact copyingHandler_older (by rwa [replyId_copied numbered])
      · rw [if_pos ours]
    exact ⟨_, step_packet going handled, rfl⟩
  · exact ⟨r, by simp [NfsRun.step, going], rfl⟩

end Step

/-! ## Downloads -/

/-- A run from `nfs_start` on. -/
def NfsRun.start (path : List UInt8) (s : Nfs) : Option NfsRun :=
  (s.nfsStart path).map fun result => ⟨result.1, result.2, []⟩

/-- What is expected of a run: in every state reached, a reply with an older number changes
nothing, and success means that the bytes of the replies are loaded. -/
structure RightRun (loadAddr : Nat) (start : NfsRun) (events : List NfsEvent) : Prop where
  older : ∀ before p later, events = before ++ .packet p :: later → ∀ r,
    start.run loadAddr before = some r → 4 ≤ p.len → replyId p.buffer < r.client.rpcId →
    ∃ after, r.step loadAddr (.packet p) = some after ∧ after.client = r.client
  loaded : ∀ before later, events = before ++ later → ∀ r,
    start.run loadAddr before = some r → r.client.netState = .success → Loaded loadAddr r

theorem start_consistent {loadAddr : Nat} {path : List UInt8} {s : Nfs} {start : NfsRun}
    (started : NfsRun.start path s = some start) : Consistent loadAddr start := by
  obtain ⟨result, begun, rfl⟩ := Option.map_eq_some_iff.mp started
  obtain ⟨split, -, rfl⟩ := Option.map_eq_some_iff.mp begun
  constructor
  case reading =>
    intro reading
    rw [nfsSend_state] at reading
    cases reading
  case complete =>
    intro complete
    rw [nfsSend_downloadState] at complete
    cases complete
  case success =>
    intro success
    rw [nfsSend_netState] at success
    cases success

/-- A run in which the client takes every packet for what it is stays inside its buffers, drops old
replies in every state, and loads what the server sent. -/
theorem nfs_run_right (loadAddr : Nat) (path : List UInt8) (s : Nfs) (start : NfsRun)
    (events : List NfsEvent) (started : NfsRun.start path s = some start)
    (plain : start.AllPlain loadAddr events) :
    (∃ last, start.run loadAddr events = some last) ∧ RightRun loadAddr start events := by
  have consistent : Consistent loadAddr start := start_consistent started
  refine ⟨?_, ?_, ?_⟩
  · obtain ⟨last, ran, -⟩ := consistent.run events (by rwa [List.append_nil])
    exact ⟨last, ran⟩
  · intro before p later whole r reached numbered old
    obtain ⟨after, ran, -, rest⟩ := consistent.run before (by rwa [← whole])
    obtain rfl := Option.some.inj (reached.symm.trans ran)
    exact older_unchanged (allPlain_cons rest).1 numbered old
  · intro before later whole r reached success
    obtain ⟨after, ran, still, -⟩ := consistent.run before (by rwa [← whole])
    obtain rfl := Option.some.inj (reached.symm.trans ran)
    exact (still.complete (still.success success)).2.1

/-- A client that was never used. -/
def sampleNfs : Nfs where
  fsMounted := false
  rpcId := 0
  offset := 0
  len := 0
  dirfh := List.replicate nfsFhsize 0
  filefh := List.replicate nfsFhsize 0
  downloadState := .fail
  serverMountPort := 0
  serverPort := 0
  timeoutCount := 0
  state := .prclookupProgMountReq
  filename := []
  path := []
  netBootFileSize := 0
  netState := .going
  memory := Memory.blank

/-- A reply without errors, with a number below 256 and some bytes written over it. -/
def sampleReply (id : UInt8) (start : Nat) (bytes : List UInt8) : RpcPacket where
  dest := nfsOurPort
  len := 128
  buffer := (Memory.blank.store 3 [id]).store start bytes
  stack := Memory.blank

/-- The ports, the mount and the lookup. -/
def sampleOpening : List NfsEvent :=
  [.packet (sampleReply 1 0 []), .packet (sampleReply 2 0 []), .packet (sampleReply 3 0 []),
    .packet (sampleReply 4 0 [])]

/-- A file of two bytes, the end of the file, and the unmount. -/
def sampleDownload : List NfsEvent :=
  sampleOpening ++ [.packet (sampleReply 5 99 [2, 10, 20]), .packet (sampleReply 6 0 []),
    .packet (sampleReply 7 0 [])]

/-- The two bytes are loaded. -/
theorem nfs_run_right_sample :
    ∃ start last, NfsRun.start [0x2f, 0x61] sampleNfs = some start ∧
      start.run 4096 sampleDownload = some last ∧ last.client.netState = .success ∧
      last.client.memory.Holds 4096 [10, 20] := by
  have begins : (NfsRun.start [0x2f, 0x61] sampleNfs).isSome := by decide
  obtain ⟨start, started⟩ := Option.isSome_iff_exists.mp begins
  have ends : ((NfsRun.start [0x2f, 0x61] sampleNfs).bind fun start =>
      (start.run 4096 sampleDownload).map fun last =>
        (last.client.netState, delivered last.answers, decide (start.AllPlain 4096 sampleDownload))) =
      some (.success, [10, 20], true) := by decide +kernel
  rw [started, Option.bind_some] at ends
  obtain ⟨last, ran, facts⟩ := Option.map_eq_some_iff.mp ends
  simp only [Prod.mk.injEq, decide_eq_true_eq] at facts
  obtain ⟨success, bytes, plain⟩ := facts
  have right := (nfs_run_right 4096 [0x2f, 0x61] sampleNfs start sampleDownload started plain).2
  have loaded := right.loaded sampleDownload [] (by simp) last ran success
  exact ⟨start, last, started, ran, success, bytes ▸ loaded.holds⟩

/-- What can be seen of a run from outside. -/
def NfsRun.seen (r : NfsRun) : NfsState × NetState × Nat × List UInt8 :=
  (r.client.state, r.client.netState, r.client.offset, delivered r.answers)

/-- The lookup reply once more while the first read is outstanding. -/
def sampleDuplicate : List NfsEvent := sampleOpening ++ [.packet (sampleReply 4 0 [])]

/-- A read answered by the error number -1024, the end of the file, and the unmount. -/
def sampleError : List NfsEvent :=
  sampleOpening ++ [.packet (sampleReply 5 24 [0xff, 0xff, 0xfc, 0x00]),
    .packet (sampleReply 6 0 []), .packet (sampleReply 7 0 [])]

/-- An old reply ends a download that reads, and an error number can be taken for a count: the
download then succeeds at an offset nothing was loaded up to. -/
theorem nfs_run_wrong :
    ((NfsRun.start [0x2f, 0x61] sampleNfs).bind fun start =>
      (start.run 4096 sampleOpening).map NfsRun.seen) = some (.readReq, .going, 0, []) ∧
    ((NfsRun.start [0x2f, 0x61] sampleNfs).bind fun start =>
      (start.run 4096 sampleDuplicate).map NfsRun.seen) = some (.umountReq, .going, 0, []) ∧
    ((NfsRun.start [0x2f, 0x61] sampleNfs).bind fun start =>
      (start.run 4096 sampleError).map NfsRun.seen) = some (.umountReq, .success, 1024, []) := by
  refine ⟨by decide +kernel, by decide +kernel, by decide +kernel⟩

end HrppBoot.Net
