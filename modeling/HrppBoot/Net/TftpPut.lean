import HrppBoot.Net.TftpGet

/-!
# Uploads

An upload to a receiver that takes the blocks in order and acknowledges them by number. Every
acknowledgement of a block it has taken may arrive at any time and any number of times; data may be
lost. A receiver that knows options answers the request with an option acknowledgement; to one that
does not the client only repeats its request.

`turn`, `ended` and `emitted` are kept beside the client: the block whose turn it is, whether the
last block was acknowledged, and what was sent for which block.
-/

namespace HrppBoot.Net

open ByteMemory

structure Upload where
  client : Tftp
  got : Nat
  /-- The block whose turn it is: the one behind the block acknowledged last. -/
  turn : Nat
  ended : Bool
  emitted : List (Nat × TftpPacket)

inductive PutEvent where
  /-- An acknowledgement arrives; what the client answers is lost or not. -/
  | ack (behind : Memory) (block : Nat) (lost : Bool)
  | oack (buffer : Memory) (len : Nat) (lost : Bool)
  | timeout (lost : Bool)

section Run

variable (served : Served) (options : Bool) (loadAddr saveAddr : Nat)

/-- The receiver takes the block it waits for. -/
def receive (got : Nat) (lost : Bool) (packets : List TftpPacket) : Nat :=
  match lost, packets with
  | false, [.data block _ _] => if block = (got + 1) % tftpSequenceSize then got + 1 else got
  | _, _ => got

namespace Upload

/-- The upload after the client has handled an event. -/
def handled (u : Upload) (turn : Nat) (ended lost : Bool) (result : Tftp × List TftpPacket) : Upload :=
  ⟨result.1, receive u.got lost result.2, turn, ended, result.2.map (turn, ·) ++ u.emitted⟩

/-- One event. What cannot happen changes nothing. -/
def step (u : Upload) : PutEvent → Upload
  | .ack behind block lost =>
    if u.client.netState = .going ∧ block ≤ u.got ∧ (block = 0 → options = false) then
      u.handled (if u.client.putFinalBlockSent then u.turn else block + 1)
        (u.ended || block = served.blocks) lost
        (u.client.tftpHandler loadAddr saveAddr
          (inBuffer behind (ackPacket (block % tftpSequenceSize))) u.client.ourPort served.port
          (ackPacket (block % tftpSequenceSize)).length)
    else u
  | .oack buffer len lost =>
    if u.client.netState = .going ∧ options = true ∧ ntohs buffer 0 = 6 ∧ 2 ≤ len ∧
        Tftp.oackBlockSize buffer (len - 2) u.client.blockSize = served.blockSize then
      u.handled u.turn u.ended lost
        (u.client.tftpHandler loadAddr saveAddr buffer u.client.ourPort served.port len)
    else u
  | .timeout lost =>
    if u.client.netState = .going then
      u.handled u.turn u.ended lost (u.client.tftpTimeoutHandler saveAddr)
    else u

def run (u : Upload) (events : List PutEvent) : Upload :=
  events.foldl (step served options loadAddr saveAddr) u

/-- An upload that begins: the client has asked to write the file. -/
structure Begins (u : Upload) : Prop where
  state : u.client.state = .sendWrq ∧ u.client.netState = .going
  put : u.client.putActive = true ∧ u.client.netBootFileSize = served.file.length
  area : u.client.memory.Holds saveAddr served.file
  fresh : u.client.curBlock = 0 ∧ u.client.prevBlock = 0 ∧ u.client.blockWrapOffset = 0 ∧
    u.client.putFinalBlockSent = false
  got : u.got = 0 ∧ u.turn = 1 ∧ u.ended = false ∧ u.emitted = []

/-- The acknowledgement is not numbered 65535 while blocks are left to be sent, and once the last
block was sent it is the one of that block; options are acknowledged once. -/
def Heeded (u : Upload) : PutEvent → Prop
  | .ack _ block _ =>
    if u.client.putFinalBlockSent then block = served.blocks
    else block % tftpSequenceSize ≠ tftpSequenceSize - 1
  | .oack _ _ _ => u.client.state = .sendWrq
  | .timeout _ => True

instance (u : Upload) (event : PutEvent) : Decidable (Heeded served u event) :=
  match event with
  | .ack _ block _ => inferInstanceAs (Decidable (if u.client.putFinalBlockSent then
      block = served.blocks else block % tftpSequenceSize ≠ tftpSequenceSize - 1))
  | .oack _ _ _ => inferInstanceAs (Decidable (u.client.state = .sendWrq))
  | .timeout _ => inferInstanceAs (Decidable True)

def HeededRun (u : Upload) : List PutEvent → Prop
  | [] => True
  | event :: events =>
    Heeded served u event ∧ HeededRun (step served options loadAddr saveAddr u event) events

end Upload

/-- A block is sent under its number with its bytes, which are inside the area. -/
def RightPacket : Nat × TftpPacket → Prop
  | (n, .data block source bytes) =>
    1 ≤ n ∧ n ≤ served.blocks ∧ block = n % tftpSequenceSize ∧ bytes = served.block n ∧
      source = ⟨(n - 1) * served.blockSize, bytes.length⟩ ∧
      source.start + source.length ≤ served.file.length
  | _ => True

/-- Everything sent is right, and success comes only after the last block was acknowledged. -/
def Upload.Right (u : Upload) : Prop :=
  (∀ sent ∈ u.emitted, RightPacket served sent) ∧ (u.client.netState = .success → u.ended = true)

namespace Upload

/-- The client has asked, and was not answered with options. -/
structure Asking (u : Upload) : Prop where
  state : u.client.state = .sendWrq ∧ u.client.putActive = true ∧ u.client.netState = .going
  area : u.client.memory.Holds saveAddr served.file ∧
    u.client.netBootFileSize = served.file.length
  fresh : u.client.prevBlock = 0 ∧ u.client.blockWrapOffset = 0 ∧
    u.client.putFinalBlockSent = false ∧ (options = true → u.client.curBlock = 0)
  got : u.got = 0 ∧ u.turn = 1
  right : u.Right served

structure Sending (u : Upload) : Prop where
  state : u.client.state = .data ∧ u.client.putActive = true ∧ u.client.remotePort = served.port
  blockSize : u.client.blockSize = served.blockSize
  area : u.client.memory.Holds saveAddr served.file ∧
    u.client.netBootFileSize = served.file.length
  noWrap : u.client.prevBlock = 0 ∧ u.client.blockWrapOffset = 0
  turn : u.client.curBlock = u.turn ∧ 1 ≤ u.turn ∧ u.turn ≤ served.blocks ∧
    u.turn < tftpSequenceSize
  got : u.got ≤ served.blocks ∧ u.got < tftpSequenceSize ∧
    (u.client.putFinalBlockSent = false → u.got < served.blocks)
  final : u.client.putFinalBlockSent = true → u.turn = served.blocks
  right : u.Right served

end Upload

end Run

/-! ## The client -/

section Client

variable {served : Served} {options : Bool} {loadAddr saveAddr : Nat} {u : Upload}

theorem load_part {m : Memory} {address : Nat} {text : List UInt8} (holds : m.Holds address text)
    (k l : Nat) : m.load (address + k) (min l (text.length - k)) = (text.drop k).take l := by
  have whole := holds.load
  rw [← whole, Memory.drop_load, Memory.take_load, Memory.length_load]

/-- What is sent for the block whose turn it is. -/
theorem Upload.Sending.tftpSend_eq (fits : saveAddr + served.file.length ≤ ulongSize)
    (small : served.file.length < ulongSize) (sending : u.Sending served saveAddr) :
    u.client.tftpSend saveAddr =
      ({ u.client with putFinalBlockSent := decide (u.turn = served.blocks) },
        [.data (u.turn % tftpSequenceSize)
          ⟨(u.turn - 1) * served.blockSize, (served.block u.turn).length⟩ (served.block u.turn)]) := by
  obtain ⟨cur, low, high, -⟩ := sending.turn
  have start := served.start_le high
  have offset : ((((u.turn : Int) - 1) * served.blockSize + (0 : Nat)) % ulongSize).toNat =
      (u.turn - 1) * served.blockSize := by
    have before : (u.turn : Int) - 1 = ((u.turn - 1 : Nat) : Int) := by omega
    rw [before, Nat.cast_zero, Int.add_zero, ← Nat.cast_mul, ← Int.natCast_mod, Int.toNat_natCast]
    exact Nat.mod_eq_of_lt (by omega)
  have length : min ((served.file.length + ulongSize - (u.turn - 1) * served.blockSize) % ulongSize)
      served.blockSize = (served.block u.turn).length := by
    have rest : served.file.length + ulongSize - (u.turn - 1) * served.blockSize =
        served.file.length - (u.turn - 1) * served.blockSize + ulongSize := by omega
    rw [rest, Nat.add_mod_right, Nat.mod_eq_of_lt (by omega), served.length_block, Nat.min_comm]
  have source : u.client.loadBlock (u.turn : Int) served.blockSize =
      ⟨(u.turn - 1) * served.blockSize, (served.block u.turn).length⟩ := by
    unfold Tftp.loadBlock
    rw [sending.noWrap.2, sending.area.2]
    simp only [offset, length]
  have bytes : u.client.memory.load ((saveAddr + (u.turn - 1) * served.blockSize) % ulongSize)
      (served.block u.turn).length = served.block u.turn := by
    have part := load_part sending.area.1 ((u.turn - 1) * served.blockSize) served.blockSize
    rw [← served.length_block] at part
    by_cases inside : saveAddr + (u.turn - 1) * served.blockSize < ulongSize
    · rw [Nat.mod_eq_of_lt inside]
      exact part
    · have empty : served.block u.turn = [] := by
        apply List.length_eq_zero_iff.mp
        rw [served.length_block]
        omega
      rw [empty]
      rfl
  unfold Tftp.tftpSend
  simp only [sending.state.1, sending.state.2.1, ↓reduceIte, source, bytes, cur, sending.blockSize,
    served.length_block_lt low high]

theorem receive_cases (got : Nat) (lost : Bool) (packets : List TftpPacket) :
    receive got lost packets = got ∨
      ∃ block source bytes, packets = [.data block source bytes] ∧
        block = (got + 1) % tftpSequenceSize ∧ receive got lost packets = got + 1 := by
  unfold receive
  split
  · split
    · rename_i taken
      exact .inr ⟨_, _, _, rfl, taken, rfl⟩
    · exact .inl rfl
  · exact .inl rfl

/-- Sending the block whose turn it is. -/
theorem Upload.Sending.send (fits : saveAddr + served.file.length ≤ ulongSize)
    (small : served.file.length < ulongSize) (sending : u.Sending served saveAddr) (lost : Bool) :
    (u.handled u.turn u.ended lost (u.client.tftpSend saveAddr)).Sending served saveAddr := by
  obtain ⟨cur, low, high, number⟩ := sending.turn
  have got := sending.got
  have final := sending.final
  have start := served.start_le high
  have length := served.length_block u.turn
  have inside : (u.turn - 1) * served.blockSize + (served.block u.turn).length ≤
      served.file.length := by omega
  rw [sending.tftpSend_eq fits small]
  unfold Upload.handled
  obtain ⟨taken, takenIs⟩ : ∃ n, receive u.got lost [.data (u.turn % tftpSequenceSize)
      ⟨(u.turn - 1) * served.blockSize, (served.block u.turn).length⟩ (served.block u.turn)] = n :=
    ⟨_, rfl⟩
  have cases_ := receive_cases u.got lost [.data (u.turn % tftpSequenceSize)
    ⟨(u.turn - 1) * served.blockSize, (served.block u.turn).length⟩ (served.block u.turn)]
  simp only [takenIs] at cases_ ⊢
  have takes : taken = u.got ∨ taken = u.turn := by
    rcases cases_ with same | ⟨block, source, bytes, isData, next, more⟩
    · exact .inl same
    · cases isData
      simp only [tftpSequenceSize] at next number got
      omega
  refine ⟨sending.state, sending.blockSize, sending.area, sending.noWrap, sending.turn, ?_,
    ?_, ?_, ?_⟩
  · show taken ≤ served.blocks ∧ taken < tftpSequenceSize ∧
      (decide (u.turn = served.blocks) = false → taken < served.blocks)
    refine ⟨by omega, by omega, ?_⟩
    intro notLast
    have early : u.turn ≠ served.blocks := by simpa using notLast
    have unsent : u.client.putFinalBlockSent = false := by
      by_contra sent
      exact early (final (by simpa using sent))
    have := got.2.2 unsent
    omega
  · intro sent
    exact of_decide_eq_true sent
  · intro packet member
    rcases List.mem_append.mp member with new | old
    · simp only [List.map_cons, List.map_nil, List.mem_singleton] at new
      subst new
      exact ⟨low, high, rfl, rfl, rfl, inside⟩
    · exact sending.right.1 packet old
  · exact sending.right.2

theorem tftpAck_unsent {s : Tftp} (put : s.putActive = true) (unsent : s.putFinalBlockSent = false)
    {block : Nat} (noWrap : (block + 1) % 2 ^ 16 ≠ 0) :
    s.tftpAck saveAddr block =
      if s.curBlock = block then
        Tftp.tftpSend saveAddr { s with curBlock := (block + 1) % 2 ^ 16 }
      else ({ s with curBlock := (block + 1) % 2 ^ 16 }, []) := by
  have unchanged : Tftp.updateBlockNumber { s with curBlock := (block + 1) % 2 ^ 16 } =
      { s with curBlock := (block + 1) % 2 ^ 16 } := if_neg fun both => noWrap both.1
  unfold Tftp.tftpAck
  rw [if_pos put, if_neg (by simp [unsent]), unchanged]

theorem receive_none (got : Nat) (lost : Bool) {packets : List TftpPacket}
    (none : packets = [] ∨ packets = [.wrq]) : receive got lost packets = got := by
  rcases receive_cases got lost packets with same | ⟨_, _, _, isData, -, -⟩
  · exact same
  · rcases none with rfl | rfl
    · cases isData
    · cases isData

/-- An acknowledgement that arrives while blocks are left to be sent. -/
theorem Upload.Sending.ack (fits : saveAddr + served.file.length ≤ ulongSize)
    (small : served.file.length < ulongSize) (sending : u.Sending served saveAddr)
    (unsent : u.client.putFinalBlockSent = false) (going : u.client.netState = .going) {n : Nat}
    (taken : n ≤ u.got) (below : n % tftpSequenceSize ≠ tftpSequenceSize - 1) (ended lost : Bool) :
    (u.handled (n + 1) ended lost (u.client.tftpAck saveAddr (n % tftpSequenceSize))).Sending served
      saveAddr := by
  have got := sending.got
  have left := got.2.2 unsent
  have whole : n % tftpSequenceSize = n := Nat.mod_eq_of_lt (by omega)
  rw [whole] at below ⊢
  have next : (n + 1) % 2 ^ 16 = n + 1 := by
    simp only [tftpSequenceSize] at below got
    omega
  have number : n + 1 < tftpSequenceSize := by
    simp only [tftpSequenceSize] at below got ⊢
    omega
  -- The upload when the number of the next block is known, before it is sent.
  have ready : Upload.Sending served saveAddr
      ⟨{ u.client with curBlock := n + 1 }, u.got, n + 1, ended, u.emitted⟩ := by
    refine ⟨sending.state, sending.blockSize, sending.area, sending.noWrap,
      ⟨rfl, Nat.le_add_left 1 n, show n + 1 ≤ served.blocks by omega, number⟩, got, ?_,
        sending.right.1, ?_⟩
    · intro sent
      exact absurd (unsent.symm.trans sent) (by decide)
    · intro success
      exact absurd (going.symm.trans success) (by decide)
  rw [tftpAck_unsent sending.state.2.1 unsent (by rw [next]; exact Nat.succ_ne_zero n), next]
  split
  · exact ready.send fits small lost
  · unfold Upload.handled
    rw [receive_none u.got lost (.inl rfl)]
    exact ready

theorem Upload.Sending.timeout (fits : saveAddr + served.file.length ≤ ulongSize)
    (small : served.file.length < ulongSize) (sending : u.Sending served saveAddr) (lost : Bool) :
    (u.handled u.turn u.ended lost (u.client.tftpTimeoutHandler saveAddr)).Right served ∧
      ((u.handled u.turn u.ended lost (u.client.tftpTimeoutHandler saveAddr)).client.netState =
          .again ∨
        (u.handled u.turn u.ended lost (u.client.tftpTimeoutHandler saveAddr)).Sending served
          saveAddr) := by
  unfold Tftp.tftpTimeoutHandler
  split
  · refine ⟨⟨sending.right.1, ?_⟩, .inl rfl⟩
    intro success
    cases success
  · have ready : Upload.Sending served saveAddr
        ⟨{ u.client with timeoutCount := u.client.timeoutCount + 1 }, u.got, u.turn, u.ended,
          u.emitted⟩ :=
      ⟨sending.state, sending.blockSize, sending.area, sending.noWrap, sending.turn, sending.got,
        sending.final, sending.right⟩
    have notWaiting : u.client.state ≠ .recvWrq := by simp [sending.state.1]
    have still := ready.send fits small lost
    simp only [ne_eq, notWaiting, not_false_eq_true, ↓reduceIte]
    exact ⟨still.right, .inr still⟩

theorem Upload.Sending.complete (sending : u.Sending served saveAddr)
    (sent : u.client.putFinalBlockSent = true) (number : Nat) (ended lost : Bool)
    (isLast : ended = true) :
    (u.handled u.turn ended lost (u.client.tftpAck saveAddr number)).Right served := by
  unfold Tftp.tftpAck
  simp only [sending.state.2.1, sent, ↓reduceIte]
  exact ⟨sending.right.1, fun _ => isLast⟩

/-- The options are acknowledged. -/
theorem Upload.Asking.oack (fits : saveAddr + served.file.length ≤ ulongSize)
    (small : served.file.length < ulongSize) (asking : u.Asking served true saveAddr)
    {buffer : Memory} {len : Nat} (lost : Bool)
    (agreed : Tftp.oackBlockSize buffer len u.client.blockSize = served.blockSize) :
    (u.handled u.turn u.ended lost
      (u.client.tftpOack saveAddr buffer served.port len)).Sending served saveAddr := by
  have cur := asking.fresh.2.2.2 rfl
  have ready : Upload.Sending served saveAddr
      ⟨{ u.client with state := .data, remotePort := served.port, blockSize := served.blockSize,
                       curBlock := 1 }, u.got, u.turn, u.ended, u.emitted⟩ := by
    have some : 1 ≤ served.blocks := Nat.le_add_left 1 _
    refine ⟨⟨rfl, asking.state.2.1, rfl⟩, rfl, asking.area, ⟨asking.fresh.1, asking.fresh.2.1⟩,
      ⟨asking.got.2.symm, ?_, ?_, ?_⟩, ⟨?_, ?_, ?_⟩, ?_, asking.right⟩
    · exact asking.got.2.symm.le
    · rw [asking.got.2]
      exact some
    · rw [asking.got.2]
      decide
    · rw [asking.got.1]
      exact Nat.zero_le _
    · rw [asking.got.1]
      decide
    · intro _
      rw [asking.got.1]
      exact some
    · intro sent
      exact absurd (asking.fresh.2.2.1.symm.trans sent) (by decide)
  unfold Tftp.tftpOack
  simp only [asking.state.2.1, ↓reduceIte, agreed, cur]
  have still := ready.send fits small lost
  simp only [asking.state.2.1] at still
  exact still

theorem Upload.Asking.ack (asking : u.Asking served options saveAddr) (plain : options = false)
    (ended lost : Bool) :
    (u.handled 1 ended lost (u.client.tftpAck saveAddr 0)).Asking served options saveAddr := by
  have noSuccess : u.client.netState = .success → ended = true := fun success =>
    absurd (asking.state.2.2.symm.trans success) (by decide)
  have options_ (isTrue : options = true) : (1 : Nat) = 0 :=
    absurd (plain.symm.trans isTrue) (by decide)
  rw [tftpAck_unsent asking.state.2.1 asking.fresh.2.2.1 (by decide)]
  split
  · have again : Tftp.tftpSend saveAddr { u.client with curBlock := (0 + 1) % 2 ^ 16 } =
        ({ u.client with curBlock := 1 }, [.wrq]) := by
      simp [Tftp.tftpSend, asking.state.1]
    rw [again]
    refine ⟨asking.state, asking.area, ⟨asking.fresh.1, asking.fresh.2.1, asking.fresh.2.2.1, options_⟩,
      ⟨(receive_none u.got lost (.inr rfl)).trans asking.got.1, rfl⟩, ?_, noSuccess⟩
    intro packet member
    rcases List.mem_append.mp member with new | old
    · simp only [List.map_cons, List.map_nil, List.mem_singleton] at new
      subst new
      trivial
    · exact asking.right.1 packet old
  · exact ⟨asking.state, asking.area,
      ⟨asking.fresh.1, asking.fresh.2.1, asking.fresh.2.2.1, options_⟩,
      ⟨(receive_none u.got lost (.inl rfl)).trans asking.got.1, rfl⟩, asking.right.1, noSuccess⟩

theorem Upload.Asking.timeout (asking : u.Asking served options saveAddr) (lost : Bool) :
    (u.handled u.turn u.ended lost (u.client.tftpTimeoutHandler saveAddr)).Right served ∧
      ((u.handled u.turn u.ended lost (u.client.tftpTimeoutHandler saveAddr)).client.netState =
          .again ∨
        (u.handled u.turn u.ended lost (u.client.tftpTimeoutHandler saveAddr)).Asking served options
          saveAddr) := by
  unfold Tftp.tftpTimeoutHandler
  split
  · refine ⟨⟨asking.right.1, ?_⟩, .inl rfl⟩
    intro success
    cases success
  · have right : (u.handled u.turn u.ended lost
        ({ u.client with timeoutCount := u.client.timeoutCount + 1 }, [.wrq])).Right served := by
      refine ⟨?_, asking.right.2⟩
      intro packet member
      rcases List.mem_append.mp member with new | old
      · simp only [List.map_cons, List.map_nil, List.mem_singleton] at new
        subst new
        trivial
      · exact asking.right.1 packet old
    have quiet : receive u.got lost [.wrq] = 0 :=
      (receive_none u.got lost (.inr rfl)).trans asking.got.1
    have state : u.client.state = .sendWrq := asking.state.1
    simp only [ne_eq, state, reduceCtorEq, not_false_eq_true, ↓reduceIte, Tftp.tftpSend]
    simp only [state] at right
    exact ⟨right, .inr ⟨⟨rfl, asking.state.2.1, asking.state.2.2⟩, asking.area, asking.fresh,
      ⟨quiet, asking.got.2⟩, right⟩⟩

/-! ## Whole runs -/

structure Upload.Sound (served : Served) (options : Bool) (saveAddr : Nat) (u : Upload) : Prop where
  right : u.Right served
  going : u.client.netState = .going → u.Asking served options saveAddr ∨ u.Sending served saveAddr

theorem Upload.Sending.sound (sending : u.Sending served saveAddr) :
    u.Sound served options saveAddr :=
  ⟨sending.right, fun _ => .inr sending⟩

theorem Upload.Asking.sound (asking : u.Asking served options saveAddr) :
    u.Sound served options saveAddr :=
  ⟨asking.right, fun _ => .inl asking⟩

theorem Upload.Right.sound (right : u.Right served) (stopped : u.client.netState ≠ .going) :
    u.Sound served options saveAddr :=
  ⟨right, fun going => absurd going stopped⟩

theorem Upload.Begins.sound (begins : u.Begins served saveAddr) :
    u.Sound served options saveAddr := by
  obtain ⟨cur, prev, wrap, final⟩ := begins.fresh
  obtain ⟨got, turn, -, emitted⟩ := begins.got
  apply Upload.Asking.sound
  refine ⟨⟨begins.state.1, begins.put.1, begins.state.2⟩, ⟨begins.area, begins.put.2⟩,
    ⟨prev, wrap, final, fun _ => cur⟩, ⟨got, turn⟩, ?_, ?_⟩
  · intro packet member
    rw [emitted] at member
    cases member
  · intro success
    exact absurd (begins.state.2.symm.trans success) (by decide)

theorem Upload.Sound.ack (fits : saveAddr + served.file.length ≤ ulongSize)
    (small : served.file.length < ulongSize) (sound : u.Sound served options saveAddr)
    (behind : Memory) (block : Nat) (lost : Bool)
    (heeded : u.Heeded served (.ack behind block lost)) :
    (u.step served options loadAddr saveAddr (.ack behind block lost)).Sound served options
      saveAddr := by
  unfold Upload.step
  dsimp only
  split
  case isFalse => exact sound
  case isTrue possible =>
  obtain ⟨going, taken, plain⟩ := possible
  have number : block % tftpSequenceSize < 65536 := Nat.mod_lt block (by decide)
  rcases sound.going going with asking | sending
  · have first : block = 0 := by
      have none := asking.got.1
      omega
    subst first
    rw [tftpHandler_ack number (.inr (.inr (.inr asking.state.1))),
      if_neg (by simp [asking.fresh.2.2.1])]
    exact (asking.ack (plain rfl) _ lost).sound
  · rw [tftpHandler_ack number (.inr (.inl sending.state.2.2.symm))]
    dsimp only [Upload.Heeded] at heeded
    by_cases sent : u.client.putFinalBlockSent = true
    · rw [if_pos sent] at heeded ⊢
      have isLast : (u.ended || decide (block = served.blocks)) = true := by simp [heeded]
      apply (sending.complete sent _ _ lost isLast).sound
      simp [Upload.handled, Tftp.tftpAck, sending.state.2.1, sent, Tftp.tftpComplete]
    · rw [if_neg sent] at heeded ⊢
      exact (sending.ack fits small (by simpa using sent) going taken heeded _ lost).sound

theorem Upload.Sound.oack (fits : saveAddr + served.file.length ≤ ulongSize)
    (small : served.file.length < ulongSize) (sound : u.Sound served options saveAddr)
    (buffer : Memory) (len : Nat) (lost : Bool) (heeded : u.Heeded served (.oack buffer len lost)) :
    (u.step served options loadAddr saveAddr (.oack buffer len lost)).Sound served options
      saveAddr := by
  unfold Upload.step
  dsimp only
  split
  case isFalse => exact sound
  case isTrue possible =>
  obtain ⟨going, known, opcode, enough, agreed⟩ := possible
  subst known
  rcases sound.going going with asking | sending
  · rw [tftpHandler_oack opcode enough (.inr (.inr (.inr asking.state.1)))]
    exact (asking.oack fits small lost agreed).sound
  · exact absurd (heeded.symm.trans sending.state.1) (by decide)

theorem Upload.Sound.timeout (fits : saveAddr + served.file.length ≤ ulongSize)
    (small : served.file.length < ulongSize) (sound : u.Sound served options saveAddr)
    (lost : Bool) :
    (u.step served options loadAddr saveAddr (.timeout lost)).Sound served options saveAddr := by
  unfold Upload.step
  dsimp only
  split
  case isFalse => exact sound
  case isTrue going =>
  rcases sound.going going with asking | sending
  · obtain ⟨right, again | still⟩ := asking.timeout lost
    · exact right.sound (by simp [again])
    · exact still.sound
  · obtain ⟨right, again | still⟩ := sending.timeout fits small lost
    · exact right.sound (by simp [again])
    · exact still.sound

theorem Upload.Sound.step (fits : saveAddr + served.file.length ≤ ulongSize)
    (small : served.file.length < ulongSize) (sound : u.Sound served options saveAddr)
    (event : PutEvent) (heeded : u.Heeded served event) :
    (u.step served options loadAddr saveAddr event).Sound served options saveAddr := by
  cases event with
  | ack behind block lost => exact sound.ack fits small behind block lost heeded
  | oack buffer len lost => exact sound.oack fits small buffer len lost heeded
  | timeout lost => exact sound.timeout fits small lost

theorem Upload.Sound.run (fits : saveAddr + served.file.length ≤ ulongSize)
    (small : served.file.length < ulongSize) (events : List PutEvent)
    (sound : u.Sound served options saveAddr)
    (heeded : u.HeededRun served options loadAddr saveAddr events) :
    (u.run served options loadAddr saveAddr events).Sound served options saveAddr := by
  induction events generalizing u with
  | nil => exact sound
  | cons event events ih => exact ih (sound.step fits small event heeded.1) heeded.2

end Client

/-- In an upload whose acknowledgements are heeded, everything sent is right in every state reached,
and success comes only after the last block was acknowledged. -/
theorem upload_right (served : Served) (options : Bool) (loadAddr saveAddr : Nat) (u : Upload)
    (events : List PutEvent) (begins : u.Begins served saveAddr)
    (fits : saveAddr + served.file.length ≤ ulongSize) (small : served.file.length < ulongSize)
    (heeded : u.HeededRun served options loadAddr saveAddr events) :
    (u.run served options loadAddr saveAddr events).Right served :=
  (Upload.Sound.run fits small events begins.sound heeded).right

/-- An upload begins with `tftp_start`, where the area holds the file. -/
theorem tftpStart_puts {served : Served} {saveAddr : Nat} (s : Tftp) (ourPort timeoutCountMax : Nat)
    (area : s.memory.Holds saveAddr served.file) (small : served.file.length < ulongSize) :
    Upload.Begins served saveAddr
      ⟨s.tftpStart true ourPort served.file.length timeoutCountMax, 0, 1, false, []⟩ :=
  ⟨⟨rfl, rfl⟩, ⟨rfl, Nat.mod_eq_of_lt small⟩, area, ⟨rfl, rfl, rfl, rfl⟩, rfl, rfl, rfl, rfl⟩

/-- A file of eight bytes, sent in blocks of eight: a full block and an empty one. -/
def samplePut : Served := { sampleServed with file := [1, 2, 3, 4, 5, 6, 7, 8] }

def sampleUpload : Upload :=
  ⟨⟨.sendWrq, 69, 1024, 0, 10, 0, 0, 0, 0, 512, true, false, 8, .going,
    Memory.blank.store 0 [1, 2, 3, 4, 5, 6, 7, 8]⟩, 0, 1, false, []⟩

/-- An option acknowledgement with `blksize` 8. -/
def sampleOack : Memory := inBuffer Memory.blank (be16 6 ++ Tftp.blksizeText ++ [0x38, 0])

theorem sampleUpload_begins : sampleUpload.Begins samplePut 0 :=
  ⟨⟨rfl, rfl⟩, ⟨rfl, rfl⟩, Memory.store_holds _ _ _, ⟨rfl, rfl, rfl, rfl⟩, rfl, rfl, rfl, rfl⟩

/-- Both blocks, with the first answer lost and an acknowledgement that arrives twice. -/
theorem upload_right_blocks :
    (sampleUpload.run samplePut true 0 0 [.oack sampleOack 12 true, .timeout false,
      .ack Memory.blank 1 true, .timeout false, .ack Memory.blank 2 false,
      .ack Memory.blank 2 false]).Right samplePut := by
  apply upload_right samplePut true 0 0 sampleUpload _ sampleUpload_begins
  · decide
  · decide
  · refine ⟨?_, ?_, ?_, ?_, ?_, ?_, trivial⟩
    all_goals decide +kernel

/-- An acknowledgement of the first block that arrives again after the last block was sent ends the
upload. -/
theorem upload_unheeded :
    sampleUpload.Begins samplePut 0 ∧
      ¬(sampleUpload.run samplePut true 0 0 [.oack sampleOack 12 false, .ack Memory.blank 1 true,
        .ack Memory.blank 1 false]).Right samplePut := by
  refine ⟨sampleUpload_begins, ?_⟩
  intro right
  exact absurd (right.2 (by decide +kernel)) (by decide +kernel)

end HrppBoot.Net
