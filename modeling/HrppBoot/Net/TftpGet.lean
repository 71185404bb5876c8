import HrppBoot.Net.Tftp
import Mathlib.Tactic.Ring

/-!
# Downloads

A download against a server that sends one block at a time: it goes on to the next block when the
current one is acknowledged. Every block it has sent may arrive at any time and any number of times;
acknowledgements may be lost. An acknowledgement that is late is one that is heard at once, with
what the server sends next being late.

The client takes every block whose number differs from the last one's, at a place that it knows only
modulo 65536 blocks. `InStep` says when that place is the right one, and `download_complete` is the
result for whole runs.
-/

namespace HrppBoot.Net

open ByteMemory

/-- A file, and how it is served. -/
structure Served where
  file : List UInt8
  blockSize : Nat
  positive : 0 < blockSize
  port : Nat

namespace Served

variable (served : Served)

/-- Number of blocks; the last one is short. -/
def blocks : Nat := served.file.length / served.blockSize + 1

/-- A block, counted from one. -/
def block (n : Nat) : List UInt8 :=
  (served.file.drop ((n - 1) * served.blockSize)).take served.blockSize

end Served

/-- Client and server. -/
structure Download where
  client : Tftp
  sent : Nat
  last : Nat

/-- What happens in a download. -/
inductive GetEvent where
  | data (behind : Memory) (block : Nat) (lost : Bool)
  | timeout (lost : Bool)

section Run

variable (served : Served) (loadAddr saveAddr : Nat)

/-- The server hears what the client sends. -/
def hear (sent : Nat) (lost : Bool) (packets : List TftpPacket) : Nat :=
  match lost, packets with
  | false, [.ack block] =>
    if block = sent % tftpSequenceSize ∧ sent < served.blocks then sent + 1 else sent
  | _, _ => sent

namespace Download

/-- One event. What cannot happen changes nothing. -/
def step (d : Download) : GetEvent → Download
  | .data behind block lost =>
    if d.client.netState = .going ∧ 1 ≤ block ∧ block ≤ d.sent then
      let packet := dataPacket (block % tftpSequenceSize) (served.block block)
      let (client, answer) := d.client.tftpHandler loadAddr saveAddr (inBuffer behind packet)
        d.client.ourPort served.port packet.length
      ⟨client, hear served d.sent lost answer, if answer.isEmpty then d.last else block⟩
    else d
  | .timeout lost =>
    if d.client.netState = .going then
      let (client, answer) := d.client.tftpTimeoutHandler saveAddr
      ⟨client, hear served d.sent lost answer, d.last⟩
    else d

/-- Events one after the other. -/
def run (d : Download) (events : List GetEvent) : Download :=
  events.foldl (step served loadAddr saveAddr) d

/-- A download that begins: the client has asked for the file, and the server has sent block one. -/
structure Begins (d : Download) : Prop where
  state : d.client.state = .sendRrq ∨ d.client.state = .oack ∧ d.client.remotePort = served.port
  blockSize : d.client.blockSize = served.blockSize
  get : d.client.putActive = false
  size : d.client.netBootFileSize = 0
  curBlock : d.client.curBlock = 0
  going : d.client.netState = .going
  sent : d.sent = 1
  last : d.last = 0

/-- The block that arrives has the number of the last one, or is from the same 65536 blocks, or is
the first of the next ones. -/
def InStep (d : Download) : GetEvent → Prop
  | .data _ block _ =>
    d.client.state = .data →
      block % tftpSequenceSize = d.last % tftpSequenceSize ∨
      block % tftpSequenceSize ≠ 0 ∧ block / tftpSequenceSize = d.last / tftpSequenceSize ∨
      block % tftpSequenceSize = 0 ∧ block / tftpSequenceSize = d.last / tftpSequenceSize + 1
  | .timeout _ => True

/-- Every block that arrives in a run does so in step. -/
def InStepRun (d : Download) : List GetEvent → Prop
  | [] => True
  | event :: events =>
    InStep d event ∧ InStepRun (step served loadAddr saveAddr d event) events

/-- The file is in memory, and its size is known. -/
def Complete (d : Download) : Prop :=
  d.client.memory.Holds loadAddr served.file ∧ d.client.netBootFileSize = served.file.length

/-- The client has stored the first blocks of the file. -/
structure Receiving (d : Download) (stored : Nat) : Prop where
  state : d.client.state = .data ∧ d.client.remotePort = served.port
  blockSize : d.client.blockSize = served.blockSize
  get : d.client.putActive = false
  last : 1 ≤ d.last ∧ d.last ≤ stored
  sent : stored ≤ d.sent ∧ d.sent ≤ stored + 1 ∧ d.sent ≤ served.blocks
  /-- The last block taken and the last one stored are from the same 65536 blocks. -/
  pass : d.last / tftpSequenceSize = stored / tftpSequenceSize
  first : d.last % tftpSequenceSize = 0 → d.last = stored
  number : d.client.curBlock = d.last % tftpSequenceSize ∧
    d.client.prevBlock = d.last % tftpSequenceSize
  offset : d.client.blockWrapOffset =
    d.last / tftpSequenceSize * tftpSequenceSize * served.blockSize % ulongSize
  holds : d.client.memory.Holds loadAddr (served.file.take (stored * served.blockSize))
  size : d.client.netBootFileSize = min (stored * served.blockSize) served.file.length
  success : d.client.netState = .success → stored = served.blocks

end Download

end Run

/-! ## Blocks -/

section Blocks

variable (served : Served)

theorem Served.start_le {n : Nat} (bound : n ≤ served.blocks) :
    (n - 1) * served.blockSize ≤ served.file.length := by
  have index : n - 1 ≤ served.file.length / served.blockSize := Nat.sub_le_iff_le_add.mpr bound
  exact (Nat.mul_le_mul_right _ index).trans (Nat.div_mul_le_self _ _)

theorem Served.length_block (n : Nat) : (served.block n).length =
    min served.blockSize (served.file.length - (n - 1) * served.blockSize) := by
  simp [Served.block]

theorem Served.length_block_lt {n : Nat} (low : 1 ≤ n) (bound : n ≤ served.blocks) :
    (served.block n).length < served.blockSize ↔ n = served.blocks := by
  have start := served.start_le bound
  have split := Nat.div_add_mod served.file.length served.blockSize
  have small := Nat.mod_lt served.file.length served.positive
  rw [served.length_block]
  unfold Served.blocks at bound ⊢
  constructor
  · intro short
    by_contra early
    have next : n * served.blockSize ≤ served.file.length / served.blockSize * served.blockSize :=
      Nat.mul_le_mul_right _ (by omega)
    have step : n * served.blockSize = (n - 1) * served.blockSize + served.blockSize := by
      obtain ⟨k, rfl⟩ : ∃ k, n = k + 1 := ⟨n - 1, by omega⟩
      rw [Nat.add_sub_cancel]
      ring
    rw [Nat.mul_comm] at split
    omega
  · rintro rfl
    rw [Nat.add_sub_cancel, Nat.mul_comm]
    omega

theorem holds_store_part {m : Memory} {address n k l : Nat} {text : List UInt8}
    (holds : m.Holds address (text.take n)) (reached : k ≤ n) :
    (m.store (address + k) ((text.drop k).take l)).Holds address (text.take (max n (k + l))) := by
  intro i inside
  rw [List.getElem_take]
  have bound : i < text.length := by
    rw [List.length_take] at inside
    omega
  by_cases part : k ≤ i ∧ i < k + ((text.drop k).take l).length
  · rw [Memory.store_inside _ _ _ _ (by omega)]
    have index : address + i - (address + k) = i - k := by omega
    have place : k + (i - k) = i := by omega
    rw [index, List.getD_eq_getElem?_getD, List.getElem?_eq_getElem (by omega), Option.getD_some,
      List.getElem_take, List.getElem_drop]
    congr 1
  · have before : i < (text.take n).length := by
      simp only [List.length_take, List.length_drop] at part inside ⊢
      omega
    rw [Memory.store_outside _ _ _ _ (by omega), holds i before, List.getElem_take]

end Blocks

/-! ## The client -/

section Client

variable {loadAddr saveAddr : Nat} {s : Tftp}

theorem updateBlockNumber_eq (s : Tftp) : ∃ wrap count, s.updateBlockNumber =
    { s with blockWrap := wrap, timeoutCount := count,
             blockWrapOffset := if s.curBlock = 0 ∧ s.prevBlock ≠ 0 then
                 (s.blockWrapOffset + s.blockSize * tftpSequenceSize) % ulongSize
               else s.blockWrapOffset } := by
  unfold Tftp.updateBlockNumber
  split
  · exact ⟨_, _, rfl⟩
  · exact ⟨_, _, rfl⟩

/-- A client that has taken a block: its number, its bytes, and where they are. -/
structure Taken (loadAddr : Nat) (s after : Tftp) (number : Nat) (payload : List UInt8) (place : Nat) :
    Prop where
  state : after.state = .data ∧ after.putActive = false ∧ after.blockSize = s.blockSize
  number : after.curBlock = number ∧ after.prevBlock = number
  memory : after.memory = s.memory.store ((loadAddr + place) % ulongSize) payload
  size : after.netBootFileSize = max s.netBootFileSize ((place + payload.length) % ulongSize)
  ends : after.netState = if payload.length < s.blockSize then .success else s.netState

theorem tftpTake_taken (payload : List UInt8) (state : s.state = .data)
    (get : s.putActive = false) :
    Taken loadAddr s (s.tftpTake loadAddr saveAddr payload).1 s.curBlock payload
        ((((s.curBlock : Int) - 1) * s.blockSize + s.blockWrapOffset) % ulongSize).toNat ∧
      (s.tftpTake loadAddr saveAddr payload).1.remotePort = s.remotePort ∧
      (s.tftpTake loadAddr saveAddr payload).1.blockWrapOffset = s.blockWrapOffset ∧
      (s.tftpTake loadAddr saveAddr payload).2 = [.ack (s.curBlock % tftpSequenceSize)] := by
  have sizes (old new : Nat) : (if old < new then new else old) = max old new := by
    split
    · omega
    · omega
  unfold Tftp.tftpTake Tftp.tftpSend Tftp.storeBlock
  simp only [state, get, Bool.false_eq_true, ↓reduceIte, sizes]
  split
  · rename_i short
    refine ⟨⟨⟨rfl, rfl, rfl⟩, ⟨rfl, rfl⟩, rfl, rfl, ?_⟩, rfl, rfl, trivial⟩
    rw [if_pos short]
    rfl
  · rename_i full
    refine ⟨⟨⟨rfl, rfl, rfl⟩, ⟨rfl, rfl⟩, rfl, rfl, ?_⟩, rfl, rfl, trivial⟩
    rw [if_neg full]

theorem tftpData_same {src : Nat} (payload : List UInt8) (state : s.state = .data) :
    s.tftpData loadAddr saveAddr s.prevBlock src payload = ({ s with curBlock := s.prevBlock }, []) := by
  have noWrap : Tftp.updateBlockNumber { s with curBlock := s.prevBlock } =
      { s with curBlock := s.prevBlock } := if_neg fun both => both.2 both.1
  unfold Tftp.tftpData
  rw [noWrap]
  simp [state]

theorem tftpData_other {block src : Nat} (payload : List UInt8) (state : s.state = .data)
    (get : s.putActive = false) (other : block ≠ s.prevBlock) :
    ∃ offset, offset = (if block = 0 then
          (s.blockWrapOffset + s.blockSize * tftpSequenceSize) % ulongSize
        else s.blockWrapOffset) ∧
      Taken loadAddr s (s.tftpData loadAddr saveAddr block src payload).1 block payload
        ((((block : Int) - 1) * s.blockSize + offset) % ulongSize).toNat ∧
      (s.tftpData loadAddr saveAddr block src payload).1.remotePort = s.remotePort ∧
      (s.tftpData loadAddr saveAddr block src payload).1.blockWrapOffset = offset ∧
      (s.tftpData loadAddr saveAddr block src payload).2 = [.ack (block % tftpSequenceSize)] := by
  obtain ⟨wrap, count, updated⟩ := updateBlockNumber_eq { s with curBlock := block }
  have offset : (if block = 0 ∧ s.prevBlock ≠ 0 then
        (s.blockWrapOffset + s.blockSize * tftpSequenceSize) % ulongSize else s.blockWrapOffset) =
      if block = 0 then (s.blockWrapOffset + s.blockSize * tftpSequenceSize) % ulongSize
      else s.blockWrapOffset := by
    by_cases zero : block = 0
    · rw [if_pos ⟨zero, fun none => other (zero.trans none.symm)⟩, if_pos zero]
    · rw [if_neg fun both => zero both.1, if_neg zero]
  dsimp only at updated
  rw [offset] at updated
  refine ⟨_, rfl, ?_⟩
  unfold Tftp.tftpData
  rw [updated]
  simp only [state, reduceCtorEq, or_self, ↓reduceIte, false_and, if_neg other]
  obtain ⟨taken, rest⟩ := @tftpTake_taken loadAddr saveAddr
    { s with state := .data, curBlock := block, blockWrap := wrap, timeoutCount := count,
             blockWrapOffset := if block = 0 then
                 (s.blockWrapOffset + s.blockSize * tftpSequenceSize) % ulongSize
               else s.blockWrapOffset } payload rfl get
  exact ⟨⟨taken.state, taken.number, taken.memory, taken.size, taken.ends⟩, rest⟩

theorem tftpData_first {src : Nat} (payload : List UInt8)
    (state : s.state = .sendRrq ∨ s.state = .oack) (get : s.putActive = false) :
    Taken loadAddr s (s.tftpData loadAddr saveAddr 1 src payload).1 1 payload 0 ∧
      (s.tftpData loadAddr saveAddr 1 src payload).1.remotePort = src ∧
      (s.tftpData loadAddr saveAddr 1 src payload).1.blockWrapOffset = 0 ∧
      (s.tftpData loadAddr saveAddr 1 src payload).2 = [.ack 1] := by
  have noWrap : Tftp.updateBlockNumber { s with curBlock := 1 } = { s with curBlock := 1 } :=
    if_neg fun both => Nat.one_ne_zero both.1
  have first : s.state = .sendRrq ∨ s.state = .oack ∨ s.state = .recvWrq := by tauto
  unfold Tftp.tftpData
  rw [noWrap]
  simp only [first, ↓reduceIte, Tftp.newTransfer, ne_eq, not_true_eq_false, and_false,
    Nat.one_ne_zero]
  obtain ⟨taken, rest⟩ := @tftpTake_taken loadAddr saveAddr
    { s with curBlock := 1, state := .data, remotePort := src, prevBlock := 0, blockWrap := 0,
             blockWrapOffset := 0, putFinalBlockSent := false } payload rfl get
  have place : ((((1 : Nat) : Int) - 1) * (s.blockSize : Int) + (0 : Nat)) % ulongSize = 0 := by
    simp
  simp only [place, Int.toNat_zero] at taken
  exact ⟨⟨taken.state, taken.number, taken.memory, taken.size, taken.ends⟩, rest⟩

end Client

/-! ## Runs -/

section Runs

variable {served : Served} {loadAddr saveAddr stored : Nat} {d : Download}

theorem place_eq {q offset : Nat} (low : 1 ≤ q)
    (small : (q - 1) * served.blockSize < ulongSize)
    (known : offset = q / tftpSequenceSize * tftpSequenceSize * served.blockSize % ulongSize) :
    ((((q % tftpSequenceSize : Nat) : Int) - 1) * served.blockSize + offset) % ulongSize =
      ((q - 1) * served.blockSize : Nat) := by
  have split : q % tftpSequenceSize + q / tftpSequenceSize * tftpSequenceSize = q := by
    rw [Nat.mul_comm]
    exact Nat.mod_add_div q tftpSequenceSize
  have whole : (((q % tftpSequenceSize : Nat) : Int) - 1) * served.blockSize +
      (q / tftpSequenceSize * tftpSequenceSize * served.blockSize : Nat) =
        ((q - 1) * served.blockSize : Nat) := by
    have number : ((q % tftpSequenceSize : Nat) : Int) +
        (q / tftpSequenceSize * tftpSequenceSize : Nat) = (q : Int) := by exact_mod_cast split
    have before : ((q - 1 : Nat) : Int) = (q : Int) - 1 := by omega
    rw [Nat.cast_mul, Nat.cast_mul (q - 1), before, ← number]
    ring
  rw [known, Int.natCast_mod (q / tftpSequenceSize * tftpSequenceSize * served.blockSize),
    Int.add_emod_emod, whole]
  exact Int.emod_eq_of_lt (Int.natCast_nonneg _) (by exact_mod_cast small)

theorem hear_cases (sent : Nat) (lost : Bool) (packets : List TftpPacket) :
    hear served sent lost packets = sent ∨
      (∃ block, packets = [.ack block] ∧ block = sent % tftpSequenceSize) ∧ sent < served.blocks ∧
        hear served sent lost packets = sent + 1 := by
  unfold hear
  split
  · split
    · rename_i heard
      exact .inr ⟨⟨_, rfl, heard.1⟩, heard.2, rfl⟩
    · exact .inl rfl
  · exact .inl rfl

/-- Taking a block whose place is known. -/
theorem Download.Receiving.take (r : Download.Receiving served loadAddr d stored)
    (going : d.client.netState = .going) (fits : loadAddr + served.file.length ≤ ulongSize)
    (small : served.file.length < ulongSize) {q : Nat} (low : 1 ≤ q) (high : q ≤ d.sent)
    (inStep : q % tftpSequenceSize ≠ 0 ∧ q / tftpSequenceSize = d.last / tftpSequenceSize ∨
      q % tftpSequenceSize = 0 ∧ q / tftpSequenceSize = d.last / tftpSequenceSize + 1)
    {after : Tftp} (port : after.remotePort = served.port)
    (taken : Taken loadAddr d.client after (q % tftpSequenceSize) (served.block q)
      ((q - 1) * served.blockSize))
    (offset : after.blockWrapOffset =
      q / tftpSequenceSize * tftpSequenceSize * served.blockSize % ulongSize) (lost : Bool) :
    Download.Receiving served loadAddr ⟨after, hear served d.sent lost
      [.ack (q % tftpSequenceSize % tftpSequenceSize)], q⟩ (max stored q) := by
  obtain ⟨storedLe, sentLe, sentBound⟩ := r.sent
  have pass := r.pass
  have bound : q ≤ served.blocks := high.trans sentBound
  have start := served.start_le bound
  have ends : q * served.blockSize = (q - 1) * served.blockSize + served.blockSize := by
    obtain ⟨k, rfl⟩ : ∃ k, q = k + 1 := ⟨q - 1, by omega⟩
    rw [Nat.add_sub_cancel]
    ring
  have reached : (q - 1) * served.blockSize ≤ stored * served.blockSize :=
    Nat.mul_le_mul_right _ (by omega)
  have most : max (stored * served.blockSize) ((q - 1) * served.blockSize + served.blockSize) =
      max stored q * served.blockSize := by
    rw [← ends]
    rcases Nat.le_total stored q with later | earlier
    · rw [Nat.max_eq_right later, Nat.max_eq_right (Nat.mul_le_mul_right _ later)]
    · rw [Nat.max_eq_left earlier, Nat.max_eq_left (Nat.mul_le_mul_right _ earlier)]
  have length := served.length_block q
  constructor
  · exact ⟨taken.state.1, port⟩
  · exact taken.state.2.2.trans r.blockSize
  · exact taken.state.2.1
  · exact ⟨low, le_max_right _ _⟩
  · obtain ⟨heard, heardIs⟩ : ∃ n, hear served d.sent lost
        [.ack (q % tftpSequenceSize % tftpSequenceSize)] = n := ⟨_, rfl⟩
    have cases_ := @hear_cases served d.sent lost [.ack (q % tftpSequenceSize % tftpSequenceSize)]
    rw [heardIs] at cases_ ⊢
    show max stored q ≤ heard ∧ heard ≤ max stored q + 1 ∧ heard ≤ served.blocks
    rcases cases_ with same | ⟨⟨block, isAck, number⟩, more, next⟩
    · rw [same]
      omega
    · rw [next]
      cases isAck
      have taken : d.sent ≤ max stored q := by
        simp only [tftpSequenceSize] at number inStep pass
        omega
      omega
  · show q / tftpSequenceSize = max stored q / tftpSequenceSize
    rcases Nat.le_total stored q with later | earlier
    · rw [Nat.max_eq_right later]
    · rw [Nat.max_eq_left earlier]
      simp only [tftpSequenceSize] at inStep pass ⊢
      omega
  · intro zero
    show q = max stored q
    have zero : q % tftpSequenceSize = 0 := zero
    simp only [tftpSequenceSize] at inStep pass zero
    omega
  · exact taken.number
  · exact offset
  · show after.memory.Holds loadAddr _
    rw [taken.memory, ← most]
    have stores := holds_store_part (l := served.blockSize) r.holds reached
    by_cases inside : loadAddr + (q - 1) * served.blockSize < ulongSize
    · rw [Nat.mod_eq_of_lt inside]
      exact stores
    · have empty : served.block q = [] := by
        apply List.length_eq_zero_iff.mp
        omega
      have drop : (served.file.drop ((q - 1) * served.blockSize)).take served.blockSize = [] := empty
      rw [drop, Memory.store_nil] at stores
      rw [empty, Memory.store_nil]
      exact stores
  · show after.netBootFileSize = _
    rw [taken.size, r.size, ← most, length, Nat.mod_eq_of_lt (by omega)]
    omega
  · intro success
    have success : after.netState = .success := success
    rw [taken.ends, going, r.blockSize] at success
    split at success
    · rename_i short
      have isLast := (served.length_block_lt low bound).mp short
      omega
    · cases success

theorem Download.Receiving.offset_next (r : Download.Receiving served loadAddr d stored) {q : Nat}
    (inStep : q % tftpSequenceSize ≠ 0 ∧ q / tftpSequenceSize = d.last / tftpSequenceSize ∨
      q % tftpSequenceSize = 0 ∧ q / tftpSequenceSize = d.last / tftpSequenceSize + 1) :
    (if q % tftpSequenceSize = 0 then
        (d.client.blockWrapOffset + d.client.blockSize * tftpSequenceSize) % ulongSize
      else d.client.blockWrapOffset) =
      q / tftpSequenceSize * tftpSequenceSize * served.blockSize % ulongSize := by
  rw [r.offset, r.blockSize]
  rcases inStep with ⟨other, same⟩ | ⟨zero, next⟩
  · rw [if_neg other, same]
  · rw [if_pos zero, next, Nat.mod_add_mod]
    congr 1
    ring

theorem Download.step_data {behind : Memory} {q : Nat} {lost : Bool}
    (possible : d.client.netState = .going ∧ 1 ≤ q ∧ q ≤ d.sent)
    (accepts : d.client.state = .sendRrq ∨ served.port = d.client.remotePort ∨
      d.client.state = .recvWrq ∨ d.client.state = .sendWrq) {handled : Tftp × List TftpPacket}
    (handles : d.client.tftpData loadAddr saveAddr (q % tftpSequenceSize) served.port
      (served.block q) = handled) :
    d.step served loadAddr saveAddr (.data behind q lost) =
      ⟨handled.1, hear served d.sent lost handled.2, if handled.2.isEmpty then d.last else q⟩ := by
  have number : q % tftpSequenceSize < 65536 := Nat.mod_lt _ (by decide)
  have decoded := @tftpHandler_data loadAddr saveAddr behind served.port d.client
    (q % tftpSequenceSize) (served.block q) number accepts
  simp only [Download.step, possible, and_self, ↓reduceIte, decoded, handles]

theorem Download.step_timeout {lost : Bool} (going : d.client.netState = .going) :
    d.step served loadAddr saveAddr (.timeout lost) =
      ⟨(d.client.tftpTimeoutHandler saveAddr).1,
        hear served d.sent lost (d.client.tftpTimeoutHandler saveAddr).2, d.last⟩ := by
  simp only [Download.step, going, ↓reduceIte]

theorem Download.Receiving.step_other (r : Download.Receiving served loadAddr d stored)
    (going : d.client.netState = .going) {behind : Memory} {q : Nat} {lost : Bool} (low : 1 ≤ q)
    (high : q ≤ d.sent) (other : q % tftpSequenceSize ≠ d.last % tftpSequenceSize) :
    ∃ after offset, d.step served loadAddr saveAddr (.data behind q lost) =
        ⟨after, hear served d.sent lost [.ack (q % tftpSequenceSize % tftpSequenceSize)], q⟩ ∧
      offset = (if q % tftpSequenceSize = 0 then
          (d.client.blockWrapOffset + d.client.blockSize * tftpSequenceSize) % ulongSize
        else d.client.blockWrapOffset) ∧
      Taken loadAddr d.client after (q % tftpSequenceSize) (served.block q)
        (((((q % tftpSequenceSize : Nat) : Int) - 1) * d.client.blockSize + offset) %
          ulongSize).toNat ∧
      after.remotePort = served.port ∧ after.blockWrapOffset = offset := by
  have different : q % tftpSequenceSize ≠ d.client.prevBlock := by
    rw [r.number.2]
    exact other
  obtain ⟨offset, offsetIs, taken, port, wrap, answer⟩ := @tftpData_other loadAddr saveAddr
    d.client (q % tftpSequenceSize) served.port (served.block q) r.state.1 r.get different
  refine ⟨_, offset, ?_, offsetIs, taken, port.trans r.state.2, wrap⟩
  rw [Download.step_data ⟨going, low, high⟩ (.inr (.inl r.state.2.symm)) rfl, answer]
  rfl

theorem Download.Receiving.data_other (r : Download.Receiving served loadAddr d stored)
    (going : d.client.netState = .going) (fits : loadAddr + served.file.length ≤ ulongSize)
    (small : served.file.length < ulongSize) {behind : Memory} {q : Nat} {lost : Bool}
    (low : 1 ≤ q) (high : q ≤ d.sent) (other : q % tftpSequenceSize ≠ d.last % tftpSequenceSize)
    (moves : q % tftpSequenceSize ≠ 0 ∧ q / tftpSequenceSize = d.last / tftpSequenceSize ∨
      q % tftpSequenceSize = 0 ∧ q / tftpSequenceSize = d.last / tftpSequenceSize + 1) :
    ∃ after, d.step served loadAddr saveAddr (.data behind q lost) =
        ⟨after, hear served d.sent lost [.ack (q % tftpSequenceSize % tftpSequenceSize)], q⟩ ∧
      after.netState = (if (served.block q).length < served.blockSize then .success else .going) ∧
      Download.Receiving served loadAddr (d.step served loadAddr saveAddr (.data behind q lost))
        (max stored q) := by
  obtain ⟨after, offset, stepped, offsetIs, taken, port, wrap⟩ := @Download.Receiving.step_other
    served loadAddr saveAddr stored d r going behind q lost low high other
  rw [r.offset_next moves] at offsetIs
  have start := served.start_le (high.trans r.sent.2.2)
  have place := @place_eq served q offset low (by omega) offsetIs
  rw [r.blockSize, place, Int.toNat_natCast] at taken
  refine ⟨after, stepped, ?_, ?_⟩
  · rw [taken.ends, going, r.blockSize]
  · rw [stepped]
    exact r.take going fits small low high moves port taken (wrap.trans offsetIs) lost

theorem Download.Receiving.data (r : Download.Receiving served loadAddr d stored)
    (going : d.client.netState = .going) (fits : loadAddr + served.file.length ≤ ulongSize)
    (small : served.file.length < ulongSize) {behind : Memory} {q : Nat} {lost : Bool}
    (low : 1 ≤ q) (high : q ≤ d.sent) (inStep : d.InStep (.data behind q lost)) :
    ∃ stored', Download.Receiving served loadAddr
      (d.step served loadAddr saveAddr (.data behind q lost)) stored' := by
  by_cases same : q % tftpSequenceSize = d.last % tftpSequenceSize
  · have previous : q % tftpSequenceSize = d.client.prevBlock := same.trans r.number.2.symm
    have ignored := @tftpData_same loadAddr saveAddr d.client served.port (served.block q) r.state.1
    rw [← previous] at ignored
    rw [Download.step_data ⟨going, low, high⟩ (.inr (.inl r.state.2.symm)) ignored]
    refine ⟨stored, ?_⟩
    have heard : hear served d.sent lost [] = d.sent := by
      unfold hear
      split
      · rename_i nothing
        cases nothing
      · rfl
    rw [heard]
    exact ⟨r.state, r.blockSize, r.get, r.last, r.sent, r.pass, r.first, ⟨same, same⟩,
      r.offset, r.holds, r.size, r.success⟩
  · obtain ⟨-, -, -, still⟩ := @Download.Receiving.data_other served loadAddr saveAddr _ d r going
      fits small behind q lost low high same ((inStep r.state.1).resolve_left same)
    exact ⟨_, still⟩

/-- The first block. -/
theorem Download.Begins.data (begins : Download.Begins served d)
    (fits : loadAddr + served.file.length ≤ ulongSize) (small : served.file.length < ulongSize)
    {behind : Memory} {lost : Bool} :
    Download.Receiving served loadAddr (d.step served loadAddr saveAddr (.data behind 1 lost)) 1 := by
  have accepts : d.client.state = .sendRrq ∨ served.port = d.client.remotePort ∨
      d.client.state = .recvWrq ∨ d.client.state = .sendWrq := by
    rcases begins.state with first | second
    · exact .inl first
    · exact .inr (.inl second.2.symm)
  obtain ⟨taken, port, wrap, answer⟩ := @tftpData_first loadAddr saveAddr d.client served.port
    (served.block 1) (begins.state.imp_right And.left) begins.get
  have sent : hear served d.sent lost [.ack 1] = 1 ∨
      hear served d.sent lost [.ack 1] = 2 ∧ 2 ≤ served.blocks := by
    rcases @hear_cases served d.sent lost [.ack 1] with same | ⟨-, more, next⟩
    · exact .inl (same.trans begins.sent)
    · rw [begins.sent] at more next ⊢
      exact .inr ⟨next, more⟩
  have length := served.length_block 1
  have bound : 1 ≤ served.blocks := Nat.le_add_left 1 _
  have one : 1 % tftpSequenceSize = 1 := rfl
  rw [Download.step_data ⟨begins.going, le_refl 1, by rw [begins.sent]⟩ accepts rfl, one, answer]
  constructor
  · exact ⟨taken.state.1, port⟩
  · exact taken.state.2.2.trans begins.blockSize
  · exact taken.state.2.1
  · exact ⟨le_refl 1, le_refl 1⟩
  · rcases sent with one | ⟨two, more⟩
    · rw [one]
      exact ⟨le_refl 1, Nat.le_succ 1, bound⟩
    · rw [two]
      exact ⟨Nat.le_succ 1, le_refl 2, more⟩
  · rfl
  · exact fun _ => rfl
  · exact taken.number
  · refine wrap.trans ?_
    simp [tftpSequenceSize]
  · show Memory.Holds _ _ _
    rw [taken.memory]
    have stores := @holds_store_part d.client.memory loadAddr 0 0 served.blockSize served.file
      (by simp [Memory.Holds]) (le_refl 0)
    rw [Nat.zero_add, Nat.zero_max, Nat.add_zero] at stores
    rw [Nat.add_zero, Nat.one_mul]
    have block : served.block 1 = (served.file.drop 0).take served.blockSize := by
      simp [Served.block]
    by_cases inside : loadAddr < ulongSize
    · rw [Nat.mod_eq_of_lt inside, block]
      exact stores
    · have empty : served.block 1 = [] := by
        apply List.length_eq_zero_iff.mp
        omega
      rw [← block, empty, Memory.store_nil] at stores
      rw [empty, Memory.store_nil]
      exact stores
  · refine taken.size.trans ?_
    rw [begins.size, length, Nat.mod_eq_of_lt (by omega)]
    omega
  · intro success
    have success := taken.ends.symm.trans success
    rw [begins.going, begins.blockSize] at success
    split at success
    · rename_i short
      exact (served.length_block_lt (le_refl 1) bound).mp short
    · cases success

theorem Download.Receiving.timeout (r : Download.Receiving served loadAddr d stored)
    (going : d.client.netState = .going) (lost : Bool) :
    (d.step served loadAddr saveAddr (.timeout lost)).client.netState = .again ∨
      Download.Receiving served loadAddr (d.step served loadAddr saveAddr (.timeout lost)) stored := by
  rw [Download.step_timeout going]
  unfold Tftp.tftpTimeoutHandler
  split
  · exact .inl rfl
  · right
    simp only [ne_eq, reduceCtorEq, not_false_eq_true, ↓reduceIte, Tftp.tftpSend, r.state.1, r.get,
      Bool.false_eq_true]
    obtain ⟨heard, heardIs⟩ : ∃ n, hear served d.sent lost
        [.ack (d.client.curBlock % tftpSequenceSize)] = n := ⟨_, rfl⟩
    have cases_ := @hear_cases served d.sent lost [.ack (d.client.curBlock % tftpSequenceSize)]
    rw [heardIs] at cases_ ⊢
    have sent : stored ≤ heard ∧ heard ≤ stored + 1 ∧ heard ≤ served.blocks := by
      have bounds := r.sent
      rcases cases_ with same | ⟨⟨block, isAck, number⟩, more, next⟩
      · rw [same]
        exact bounds
      · cases isAck
        rw [r.number.1] at number
        have pass := r.pass
        have first := r.first
        have last := r.last
        simp only [tftpSequenceSize] at number pass first
        omega
    exact ⟨⟨rfl, r.state.2⟩, r.blockSize, rfl, r.last, sent, r.pass, r.first, r.number,
      r.offset, r.holds, r.size, r.success⟩

theorem Download.Begins.timeout (begins : Download.Begins served d) (lost : Bool) :
    (d.step served loadAddr saveAddr (.timeout lost)).client.netState = .again ∨
      Download.Begins served (d.step served loadAddr saveAddr (.timeout lost)) := by
  have quiet {packets : List TftpPacket}
      (other : packets = [.rrq] ∨ packets = [.ack (0 % tftpSequenceSize)]) :
      hear served d.sent lost packets = 1 := by
    rcases @hear_cases served d.sent lost packets with same | ⟨⟨_, isAck, number⟩, -, -⟩
    · exact same.trans begins.sent
    · rw [begins.sent] at number
      rcases other with rfl | rfl
      · cases isAck
      · cases isAck
        cases number
  rw [Download.step_timeout begins.going]
  unfold Tftp.tftpTimeoutHandler
  split
  · exact .inl rfl
  · right
    rcases begins.state with first | ⟨second, port⟩
    · simp only [first, ne_eq, reduceCtorEq, not_false_eq_true, ↓reduceIte, Tftp.tftpSend]
      exact ⟨.inl rfl, begins.blockSize, begins.get, begins.size, begins.curBlock, begins.going,
        quiet (.inl rfl), begins.last⟩
    · simp only [second, ne_eq, reduceCtorEq, not_false_eq_true, ↓reduceIte, Tftp.tftpSend,
        begins.get, Bool.false_eq_true, begins.curBlock]
      exact ⟨.inr ⟨rfl, port⟩, begins.blockSize, rfl, begins.size, rfl, begins.going,
        quiet (.inr rfl), begins.last⟩

/-- What every run keeps: the download has given up, or it begins, or some blocks are stored. -/
def Download.Sound (served : Served) (loadAddr : Nat) (d : Download) : Prop :=
  d.client.netState = .again ∨ Download.Begins served d ∨
    ∃ stored, Download.Receiving served loadAddr d stored

theorem Download.step_over (stopped : d.client.netState ≠ .going) (event : GetEvent) :
    d.step served loadAddr saveAddr event = d := by
  cases event with
  | data behind block lost => simp only [Download.step, stopped, false_and, ↓reduceIte]
  | timeout lost => simp only [Download.step, stopped, ↓reduceIte]

/-- A step that is in step keeps the invariant. -/
theorem Download.Sound.step (fits : loadAddr + served.file.length ≤ ulongSize)
    (small : served.file.length < ulongSize) (sound : Download.Sound served loadAddr d)
    {event : GetEvent} (inStep : d.InStep event) :
    Download.Sound served loadAddr (d.step served loadAddr saveAddr event) := by
  by_cases going : d.client.netState = .going
  · cases event with
    | data behind q lost =>
      by_cases possible : 1 ≤ q ∧ q ≤ d.sent
      · rcases sound with again | begins | ⟨stored, r⟩
        · exact absurd (again.symm.trans going) (by decide)
        · have first : q = 1 := by
            have := begins.sent
            omega
          subst first
          exact .inr (.inr ⟨1, begins.data fits small⟩)
        · exact .inr (.inr (r.data going fits small possible.1 possible.2 inStep))
      · have same : d.step served loadAddr saveAddr (.data behind q lost) = d := by
          simp only [Download.step, going, true_and, possible, ↓reduceIte]
        rw [same]
        exact sound
    | timeout lost =>
      rcases sound with again | begins | ⟨stored, r⟩
      · exact absurd (again.symm.trans going) (by decide)
      · rcases @Download.Begins.timeout served loadAddr saveAddr d begins lost with again | still
        · exact .inl again
        · exact .inr (.inl still)
      · rcases @Download.Receiving.timeout served loadAddr saveAddr _ d r going lost with again | still
        · exact .inl again
        · exact .inr (.inr ⟨stored, still⟩)
  · rw [Download.step_over going]
    exact sound

theorem Download.Sound.run (fits : loadAddr + served.file.length ≤ ulongSize)
    (small : served.file.length < ulongSize) (sound : Download.Sound served loadAddr d)
    {events : List GetEvent} (inStep : d.InStepRun served loadAddr saveAddr events) :
    Download.Sound served loadAddr (d.run served loadAddr saveAddr events) := by
  induction events generalizing d with
  | nil => exact sound
  | cons event events ih => exact ih (sound.step fits small inStep.1) inStep.2

theorem Download.Sound.complete (sound : Download.Sound served loadAddr d)
    (success : d.client.netState = .success) : d.Complete served loadAddr := by
  rcases sound with again | begins | ⟨stored, r⟩
  · exact absurd (again.symm.trans success) (by decide)
  · exact absurd (begins.going.symm.trans success) (by decide)
  · have all := r.success success
    have split := Nat.div_add_mod served.file.length served.blockSize
    have small := Nat.mod_lt served.file.length served.positive
    have enough : served.file.length ≤ stored * served.blockSize := by
      rw [all, Served.blocks, Nat.add_mul, Nat.mul_comm, Nat.one_mul]
      omega
    constructor
    · have holds := r.holds
      rwa [List.take_of_length_le enough] at holds
    · rw [r.size, Nat.min_eq_right enough]

/-- Blocks one to `n` in order, with nothing lost. -/
def inOrder (n : Nat) : List GetEvent :=
  (List.range n).map fun i => .data Memory.blank (i + 1) false

/-- Where the blocks in order lead. -/
theorem Download.Begins.inOrder (fits : loadAddr + served.file.length ≤ ulongSize)
    (small : served.file.length < ulongSize) (begins : Download.Begins served d) {n : Nat}
    (some : 1 ≤ n) (early : n < served.blocks) :
    Download.Receiving served loadAddr (d.run served loadAddr saveAddr (inOrder n)) n ∧
      (d.run served loadAddr saveAddr (inOrder n)).client.netState = .going ∧
      (d.run served loadAddr saveAddr (inOrder n)).last = n ∧
      (d.run served loadAddr saveAddr (inOrder n)).sent = n + 1 := by
  have isFull {q : Nat} (low : 1 ≤ q) (early : q < served.blocks) :
      ¬(served.block q).length < served.blockSize := by
    rw [served.length_block_lt low early.le]
    exact early.ne
  have isHeard {sent : Nat} (early : sent < served.blocks) :
      hear served sent false [.ack (sent % tftpSequenceSize % tftpSequenceSize)] = sent + 1 :=
    if_pos ⟨Nat.mod_mod _ _, early⟩
  induction n with
  | zero => omega
  | succ n ih =>
    rcases Nat.eq_zero_or_pos n with rfl | more
    · have r := @Download.Begins.data served loadAddr saveAddr d begins fits small Memory.blank false
      have accepts : d.client.state = .sendRrq ∨ served.port = d.client.remotePort ∨
          d.client.state = .recvWrq ∨ d.client.state = .sendWrq := by
        rcases begins.state with first | second
        · exact .inl first
        · exact .inr (.inl second.2.symm)
      obtain ⟨taken, -, -, answer⟩ := @tftpData_first loadAddr saveAddr d.client served.port
        (served.block 1) (begins.state.imp_right And.left) begins.get
      have heard := isHeard early
      have stepped := @Download.step_data served loadAddr saveAddr d Memory.blank 1 false
        ⟨begins.going, le_refl 1, by rw [begins.sent]⟩ accepts _ rfl
      rw [show 1 % tftpSequenceSize = 1 from rfl, answer] at stepped
      have full := isFull (le_refl 1) early
      refine ⟨r, ?_, ?_, ?_⟩
      · show (d.step served loadAddr saveAddr (.data Memory.blank 1 false)).client.netState = .going
        rw [stepped]
        refine taken.ends.trans ?_
        rw [begins.blockSize, if_neg full, begins.going]
      · show (d.step served loadAddr saveAddr (.data Memory.blank 1 false)).last = 1
        rw [stepped]
        rfl
      · show (d.step served loadAddr saveAddr (.data Memory.blank 1 false)).sent = 2
        rw [stepped, begins.sent]
        exact heard
    · obtain ⟨r, going, last, sent⟩ := ih more (by omega)
      have split : Net.inOrder (n + 1) = Net.inOrder n ++ [.data Memory.blank (n + 1) false] := by
        simp [Net.inOrder, List.range_succ]
      rw [split, Download.run, List.foldl_append]
      obtain ⟨middle, middleIs⟩ : ∃ m, List.foldl (Download.step served loadAddr saveAddr) d
        (Net.inOrder n) = m := ⟨_, rfl⟩
      rw [Download.run, middleIs] at r going last sent
      rw [middleIs]
      have other : (n + 1) % tftpSequenceSize ≠ middle.last % tftpSequenceSize := by
        rw [last]
        simp only [tftpSequenceSize]
        omega
      have moves : (n + 1) % tftpSequenceSize ≠ 0 ∧
            (n + 1) / tftpSequenceSize = middle.last / tftpSequenceSize ∨
          (n + 1) % tftpSequenceSize = 0 ∧
            (n + 1) / tftpSequenceSize = middle.last / tftpSequenceSize + 1 := by
        rw [last]
        simp only [tftpSequenceSize]
        omega
      obtain ⟨after, stepped, goes, still⟩ := @Download.Receiving.data_other served loadAddr saveAddr
        n middle r going fits small Memory.blank (n + 1) false (by omega) (by omega) other moves
      rw [sent, isHeard early] at stepped
      rw [Nat.max_eq_right (by omega)] at still
      simp only [List.foldl_cons, List.foldl_nil]
      refine ⟨still, ?_, ?_, ?_⟩
      · rw [stepped]
        exact goes.trans (if_neg (isFull (by omega) early))
      · rw [stepped]
      · rw [stepped]

end Runs

/-- In every run in which all blocks arrive in step, whatever is lost, repeated or late, a download
that succeeds has put the file into memory, however many blocks it has. -/
theorem download_complete (served : Served) (loadAddr saveAddr : Nat) (d : Download)
    (events : List GetEvent) (fits : loadAddr + served.file.length ≤ ulongSize)
    (small : served.file.length < ulongSize) (begins : d.Begins served)
    (inStep : d.InStepRun served loadAddr saveAddr events)
    (success : (d.run served loadAddr saveAddr events).client.netState = .success) :
    (d.run served loadAddr saveAddr events).Complete served loadAddr :=
  Download.Sound.complete (Download.Sound.run fits small (.inr (.inl begins)) inStep) success

/-- A download begins with `tftp_start`, where the server keeps the default block size. -/
theorem tftpStart_begins {served : Served} (size : served.blockSize = tftpBlockSize) (s : Tftp)
    (ourPort saveSize timeoutCountMax : Nat) :
    Download.Begins served ⟨s.tftpStart false ourPort saveSize timeoutCountMax, 1, 0⟩ :=
  ⟨.inl rfl, size.symm, rfl, rfl, rfl, rfl, rfl, rfl⟩

/-- A client that has asked for a file, and was answered with the block size. -/
def sampleClient (blockSize : Nat) : Tftp :=
  ⟨.oack, 2000, 1024, 0, 10, 0, 0, 0, 0, blockSize, false, false, 0, .going, Memory.blank⟩

/-- A file of twenty bytes, in two full blocks and a short one. -/
def threeBlocks : Served := ⟨(List.range 20).map UInt8.ofNat, 8, by decide, 2000⟩

/-- The first answer is lost and sent again, block one arrives twice at once and once more behind
block two, and the short block ends the download. -/
theorem download_complete_threeBlocks :
    (Download.run threeBlocks 0 0 ⟨sampleClient 8, 1, 0⟩
      [.data Memory.blank 1 true, .timeout false, .data Memory.blank 1 false,
        .data Memory.blank 2 false, .data Memory.blank 1 false,
        .data Memory.blank 3 false]).Complete threeBlocks 0 := by
  apply download_complete
  · decide
  · decide
  · exact ⟨.inr ⟨rfl, rfl⟩, rfl, rfl, rfl, rfl, rfl, rfl, rfl⟩
  · refine ⟨?_, trivial, ?_, ?_, ?_, ?_, trivial⟩
    all_goals
      intro _
      decide
  · decide

/-- 65537 blocks of eight bytes, the last one with a single byte. -/
def sampleServed : Served := ⟨List.replicate 524289 0, 8, by decide, 2000⟩

/-- A block that arrives again after the next 65536 blocks have begun is stored among those. -/
theorem download_outOfStep :
    Download.Begins sampleServed ⟨sampleClient 8, 1, 0⟩ ∧
      (Download.run sampleServed 0 0 ⟨sampleClient 8, 1, 0⟩ (inOrder 65536 ++
        [.data Memory.blank 65535 false, .data Memory.blank 65537 false])).client.netState =
          .success ∧
      ¬(Download.run sampleServed 0 0 ⟨sampleClient 8, 1, 0⟩ (inOrder 65536 ++
        [.data Memory.blank 65535 false, .data Memory.blank 65537 false])).Complete sampleServed 0 := by
  have begins : Download.Begins sampleServed ⟨sampleClient 8, 1, 0⟩ :=
    ⟨.inr ⟨rfl, rfl⟩, rfl, rfl, rfl, rfl, rfl, rfl, rfl⟩
  have length : sampleServed.file.length = 524289 := List.length_replicate
  have blocks : sampleServed.blocks = 65537 := by
    rw [Served.blocks, length]
    rfl
  obtain ⟨r, going, last, sent⟩ := @Download.Begins.inOrder sampleServed 0 0 _
    (by rw [length]; decide) (by rw [length]; decide) begins 65536 (by decide) (by rw [blocks]; decide)
  refine ⟨begins, ?_⟩
  rw [Download.run] at r going last sent
  rw [Download.run, List.foldl_append]
  obtain ⟨d, dIs⟩ : ∃ d, List.foldl (Download.step sampleServed 0 0) ⟨sampleClient 8, 1, 0⟩
    (inOrder 65536) = d := ⟨_, rfl⟩
  rw [dIs] at r going last sent ⊢
  have size : d.client.blockSize = 8 := r.blockSize
  have offset : d.client.blockWrapOffset = 524288 := by
    rw [r.offset, last]
    rfl
  -- Block 65535 once more: its number is larger than that of the last block, so no wrap is seen.
  obtain ⟨late, lateOffset, lateStep, lateOffsetIs, taken, port, -⟩ :=
    @Download.Receiving.step_other sampleServed 0 0 _ d r going Memory.blank 65535 false (by decide)
      (by omega) (by rw [last]; decide)
  rw [if_neg (by decide), offset] at lateOffsetIs
  have lateLength : (sampleServed.block 65535).length = 8 := by
    rw [sampleServed.length_block, length]
    rfl
  have lateSize : 1048568 ≤ late.netBootFileSize := by
    rw [taken.size, lateOffsetIs, size, lateLength]
    exact le_max_right _ _
  have lateGoes : late.netState = .going := by
    rw [taken.ends, lateLength, size, if_neg (by decide), going]
  have heard : hear sampleServed d.sent false
      [.ack (65535 % tftpSequenceSize % tftpSequenceSize)] = 65537 := by
    rcases @hear_cases sampleServed d.sent false
      [.ack (65535 % tftpSequenceSize % tftpSequenceSize)] with same | ⟨⟨_, isAck, number⟩, -, -⟩
    · exact same.trans sent
    · cases isAck
      rw [sent] at number
      exact absurd number (by decide)
  rw [heard] at lateStep
  -- The short block that follows ends the transfer.
  obtain ⟨_, -, lastTaken, -, -, -⟩ := @tftpData_other 0 0 late (65537 % tftpSequenceSize) 2000
    (sampleServed.block 65537) taken.state.1 taken.state.2.1 (by rw [taken.number.2]; decide)
  have lastStep := @Download.step_data sampleServed 0 0 ⟨late, 65537, 65535⟩ Memory.blank 65537 false
    ⟨lateGoes, by decide, le_refl _⟩ (.inr (.inl port.symm)) _ rfl
  have lastLength : (sampleServed.block 65537).length = 1 := by
    rw [sampleServed.length_block, length]
    rfl
  simp only [List.foldl_cons, List.foldl_nil, lateStep, lastStep]
  constructor
  · refine lastTaken.ends.trans ?_
    rw [lastLength, taken.state.2.2, size]
    rfl
  · rintro ⟨-, isLength⟩
    have more := lastTaken.size.symm.trans isLength
    rw [length] at more
    omega

end HrppBoot.Net
