import HrppBoot.Net.Receive

/-!
# TFTP

`net/tftp.c`, with `CONFIG_CMD_TFTPPUT` and without multicast, server mode, size option and direct
writes to flash. `ulong` has 32 bits. A packet lies in the receive buffer from address 0 on,
followed by whatever is there; the handlers return what they send. Texts of the first request,
printing and the arming of timers are left out.
-/

namespace HrppBoot.Net

open ByteMemory

/-- `tftp_state`: `STATE_…` of `tftp.c`. -/
inductive TftpState where
  | sendRrq
  | data
  | tooLarge
  | badMagic
  | oack
  | recvWrq
  | sendWrq
  deriving DecidableEq, Repr

inductive NetState where
  /-- `NETLOOP_CONTINUE` -/
  | going
  /-- `NETLOOP_SUCCESS` -/
  | success
  /-- `net_start_again` was called. -/
  | again
  /-- `NETLOOP_FAIL` -/
  | fail
  deriving DecidableEq, Repr

/-- The static variables `tftp_…`, with `net_boot_file_size`, `net_state` and the memory. -/
structure Tftp where
  state : TftpState
  remotePort : Nat
  ourPort : Nat
  timeoutCount : Nat
  timeoutCountMax : Nat
  curBlock : Nat
  prevBlock : Nat
  blockWrap : Nat
  blockWrapOffset : Nat
  blockSize : Nat
  putActive : Bool
  putFinalBlockSent : Bool
  netBootFileSize : Nat
  netState : NetState
  memory : Memory

/-- What is sent: the packets `TFTP_…`. -/
inductive TftpPacket where
  | rrq
  | wrq
  | ack (block : Nat)
  /-- `TFTP_DATA`, with the memory it is copied from. -/
  | data (block : Nat) (source : Span) (bytes : List UInt8)
  | error (code : Nat)

/-- The values of a `ulong`. -/
def ulongSize : Nat := 2 ^ 32

def tftpSequenceSize : Nat := 2 ^ 16

def tftpBlockSize : Nat := 512

/-- `TIMEOUT_COUNT` -/
def timeoutCountDefault : Nat := 10

def wellKnownPort : Nat := 69

namespace Tftp

section Handler

variable (loadAddr saveAddr : Nat)

def storeBlock (block : Int) (src : List UInt8) (s : Tftp) : Tftp :=
  let offset := ((block * s.blockSize + s.blockWrapOffset) % ulongSize).toNat
  let newsize := (offset + src.length) % ulongSize
  { s with memory := s.memory.store ((loadAddr + offset) % ulongSize) src,
           netBootFileSize := if s.netBootFileSize < newsize then newsize else s.netBootFileSize }

def newTransfer (s : Tftp) : Tftp :=
  { s with prevBlock := 0, blockWrap := 0, blockWrapOffset := 0, putFinalBlockSent := false }

/-- `load_block`: where in the area the block is, and how much of it there is. -/
def loadBlock (block : Int) (len : Nat) (s : Tftp) : Span :=
  let offset := (((block - 1) * len + s.blockWrapOffset) % ulongSize).toNat
  ⟨offset, min ((s.netBootFileSize + ulongSize - offset) % ulongSize) len⟩

def updateBlockNumber (s : Tftp) : Tftp :=
  if s.curBlock = 0 ∧ s.prevBlock ≠ 0 then
    { s with blockWrap := s.blockWrap + 1,
             blockWrapOffset := (s.blockWrapOffset + s.blockSize * tftpSequenceSize) % ulongSize,
             timeoutCount := 0 }
  else s

def tftpComplete (s : Tftp) : Tftp := { s with netState := .success }

def tftpSend (s : Tftp) : Tftp × List TftpPacket :=
  match s.state with
  | .sendRrq => (s, [.rrq])
  | .sendWrq => (s, [.wrq])
  | .oack | .recvWrq | .data =>
    if s.putActive then
      let source := loadBlock s.curBlock s.blockSize s
      ({ s with putFinalBlockSent := source.length < s.blockSize },
        [.data (s.curBlock % tftpSequenceSize) source
          (s.memory.load ((saveAddr + source.start) % ulongSize) source.length)])
    else (s, [.ack (s.curBlock % tftpSequenceSize)])
  | .tooLarge => (s, [.error 3])
  | .badMagic => (s, [.error 2])

/-- The digits of `simple_strtoul`, from the most significant one on. -/
def strtoulDigits (base : Nat) : (result : Nat) → List UInt8 → Nat
  | result, [] => result
  | result, c :: rest =>
    let value :=
      if 0x30 ≤ c ∧ c ≤ 0x39 then (c - 0x30).toNat
      else if 0x41 ≤ c ∧ c ≤ 0x46 then (c - 0x41 + 10).toNat
      else if 0x61 ≤ c ∧ c ≤ 0x66 then (c - 0x61 + 10).toNat
      else base
    if value < base then strtoulDigits base ((result * base + value) % ulongSize) rest else result

/-- `simple_strtoul` in base 10. -/
def simpleStrtoul : List UInt8 → Nat
  | 0x30 :: 0x78 :: rest =>
    match rest with
    | c :: _ =>
      if 0x30 ≤ c ∧ c ≤ 0x39 ∨ 0x41 ≤ c ∧ c ≤ 0x46 ∨ 0x61 ≤ c ∧ c ≤ 0x66 then
        strtoulDigits 16 0 rest
      else 0
    | [] => 0
  | text => strtoulDigits 10 0 text

/-- `"blksize"`, with its end. -/
def blksizeText : List UInt8 := [0x62, 0x6c, 0x6b, 0x73, 0x69, 0x7a, 0x65, 0]

/-- The block size option of an acknowledgement, the last one if there are several; numbers end in
the receive buffer of `PKTSIZE` bytes. -/
def oackBlockSize (m : Memory) (len : Nat) (current : Nat) : Nat :=
  (List.range (len - 8)).foldl (fun size i =>
    if m.load (2 + i) 8 = blksizeText then simpleStrtoul (m.load (2 + i + 8) 1522) % 2 ^ 16
    else size) current

/-- `case TFTP_ACK` -/
def tftpAck (block : Nat) (s : Tftp) : Tftp × List TftpPacket :=
  if s.putActive then
    if s.putFinalBlockSent then (s.tftpComplete, [])
    else
      let ackOk := s.curBlock = block
      let s := updateBlockNumber { s with curBlock := (block + 1) % 2 ^ 16 }
      if ackOk then s.tftpSend saveAddr else (s, [])
  else (s, [])

/-- `case TFTP_OACK` -/
def tftpOack (m : Memory) (src len : Nat) (s : Tftp) : Tftp × List TftpPacket :=
  let s := { s with state := .oack, remotePort := src, blockSize := oackBlockSize m len s.blockSize }
  let s := if s.putActive then { s with state := .data, curBlock := s.curBlock + 1 } else s
  s.tftpSend saveAddr

/-- A block that is not the one received last. -/
def tftpTake (payload : List UInt8) (s : Tftp) : Tftp × List TftpPacket :=
  let s := { s with prevBlock := s.curBlock, timeoutCountMax := timeoutCountDefault }
  let s := storeBlock loadAddr ((s.curBlock : Int) - 1) payload s
  let (s, sent) := s.tftpSend saveAddr
  (if payload.length < s.blockSize then s.tftpComplete else s, sent)

/-- `case TFTP_DATA` -/
def tftpData (block src : Nat) (payload : List UInt8) (s : Tftp) : Tftp × List TftpPacket :=
  let s := updateBlockNumber { s with curBlock := block }
  let first := s.state = .sendRrq ∨ s.state = .oack ∨ s.state = .recvWrq
  let s := if first then newTransfer { s with state := .data, remotePort := src } else s
  if first ∧ s.curBlock ≠ 1 then ({ s with netState := .again }, [])
  else if s.curBlock = s.prevBlock then (s, [])
  else tftpTake loadAddr saveAddr payload s

/-- `case TFTP_ERROR` -/
def tftpError (code : Nat) (s : Tftp) : Tftp × List TftpPacket :=
  ({ s with netState := if code = 1 ∨ code = 2 then .fail else .again }, [])

def tftpHandler (m : Memory) (dest src len : Nat) (s : Tftp) : Tftp × List TftpPacket :=
  if dest ≠ s.ourPort then (s, [])
  else if s.state ≠ .sendRrq ∧ src ≠ s.remotePort ∧ s.state ≠ .recvWrq ∧ s.state ≠ .sendWrq then
    (s, [])
  else if len < 2 then (s, [])
  else if ntohs m 0 = 4 then tftpAck saveAddr (ntohs m 2) s
  else if ntohs m 0 = 6 then tftpOack saveAddr m src (len - 2) s
  else if ntohs m 0 = 3 then
    if len < 4 then (s, [])
    else tftpData loadAddr saveAddr (ntohs m 2) src (m.load 4 (len - 4)) s
  else if ntohs m 0 = 5 then tftpError (ntohs m 2) s
  else (s, [])

def tftpTimeoutHandler (s : Tftp) : Tftp × List TftpPacket :=
  if s.timeoutCount + 1 > s.timeoutCountMax then
    ({ s with timeoutCount := s.timeoutCount + 1, netState := .again }, [])
  else
    let s := { s with timeoutCount := s.timeoutCount + 1 }
    if s.state ≠ .recvWrq then s.tftpSend saveAddr else (s, [])

end Handler

/-- `tftp_start`, before the first request is sent; `net_boot_file_size` is zero, as `net_loop` has
set it. -/
def tftpStart (put : Bool) (ourPort saveSize timeoutCountMax : Nat) (s : Tftp) : Tftp :=
  let s := { s with putActive := put, timeoutCountMax := timeoutCountMax, remotePort := wellKnownPort,
                    timeoutCount := 0, ourPort := ourPort, curBlock := 0, blockSize := tftpBlockSize,
                    netBootFileSize := 0, netState := .going }
  if put then newTransfer { s with netBootFileSize := saveSize % ulongSize, state := .sendWrq }
  else { s with state := .sendRrq }

end Tftp

/-- A packet in the receive buffer. -/
def inBuffer (behind : Memory) (packet : List UInt8) : Memory := behind.store 0 packet

/-- A number in network order. -/
def be16 (n : Nat) : List UInt8 := [UInt8.ofNat (n / 256), UInt8.ofNat n]

/-- A DATA packet. -/
def dataPacket (block : Nat) (payload : List UInt8) : List UInt8 := be16 3 ++ be16 block ++ payload

/-- An ACK packet. -/
def ackPacket (block : Nat) : List UInt8 := be16 4 ++ be16 block

theorem ntohs_be16 {m : Memory} {a n : Nat} (holds : m.Holds a (be16 n)) (bound : n < 65536) :
    ntohs m a = n := by
  have high : m a = UInt8.ofNat (n / 256) := holds 0 (by simp [be16])
  have low : m (a + 1) = UInt8.ofNat n := holds 1 (by simp [be16])
  unfold ntohs
  rw [high, low, UInt8.toNat_ofNat', UInt8.toNat_ofNat']
  omega

section Packets

variable {loadAddr saveAddr : Nat} {behind : Memory} {src : Nat} {s : Tftp}

theorem tftpHandler_data {block : Nat} {payload : List UInt8} (bound : block < 65536)
    (accepts : s.state = .sendRrq ∨ src = s.remotePort ∨ s.state = .recvWrq ∨ s.state = .sendWrq) :
    s.tftpHandler loadAddr saveAddr (inBuffer behind (dataPacket block payload)) s.ourPort src
        (dataPacket block payload).length =
      s.tftpData loadAddr saveAddr block src payload := by
  have holds : (inBuffer behind (dataPacket block payload)).Holds 0
      (be16 3 ++ be16 block ++ payload) := Memory.store_holds _ _ _
  rw [Memory.holds_append, Memory.holds_append] at holds
  obtain ⟨⟨kind, number⟩, data⟩ := holds
  have opcode := ntohs_be16 kind (by decide)
  have blockNumber := ntohs_be16 number bound
  have length : (dataPacket block payload).length = payload.length + 4 := by
    simp only [dataPacket, be16, List.length_append, List.length_cons, List.length_nil]
    omega
  have content : (inBuffer behind (dataPacket block payload)).load 4 payload.length = payload :=
    Memory.Holds.load data
  unfold Tftp.tftpHandler
  rw [if_neg (by simp), if_neg (by tauto), if_neg (by omega), opcode, if_neg (by decide),
    if_neg (by decide), if_pos rfl, if_neg (by omega), length, Nat.add_sub_cancel]
  rw [content]
  exact congrArg (fun n => s.tftpData loadAddr saveAddr n src payload) blockNumber

theorem tftpHandler_ack {block : Nat} (bound : block < 65536)
    (accepts : s.state = .sendRrq ∨ src = s.remotePort ∨ s.state = .recvWrq ∨ s.state = .sendWrq) :
    s.tftpHandler loadAddr saveAddr (inBuffer behind (ackPacket block)) s.ourPort src
        (ackPacket block).length = s.tftpAck saveAddr block := by
  have holds : (inBuffer behind (ackPacket block)).Holds 0 (be16 4 ++ be16 block) :=
    Memory.store_holds _ _ _
  rw [Memory.holds_append] at holds
  have opcode := ntohs_be16 holds.1 (by decide)
  have blockNumber := ntohs_be16 holds.2 bound
  have length : (ackPacket block).length = 4 := rfl
  unfold Tftp.tftpHandler
  rw [if_neg (by simp), if_neg (by tauto), if_neg (by omega), opcode, if_pos rfl]
  exact congrArg (fun n => s.tftpAck saveAddr n) blockNumber

theorem tftpHandler_oack {m : Memory} {len : Nat} (opcode : ntohs m 0 = 6) (enough : 2 ≤ len)
    (accepts : s.state = .sendRrq ∨ src = s.remotePort ∨ s.state = .recvWrq ∨ s.state = .sendWrq) :
    s.tftpHandler loadAddr saveAddr m s.ourPort src len = s.tftpOack saveAddr m src (len - 2) := by
  unfold Tftp.tftpHandler
  rw [if_neg (by simp), if_neg (by tauto), if_neg (by omega), opcode, if_neg (by decide),
    if_pos rfl]

end Packets

end HrppBoot.Net
