import HrppBoot.Lib.Memory

/-!
# USB mass storage, bulk-only transport

A command goes out in a CBW, its data come back on the bulk-in pipe and a CSW ends it. The device
is the medium together with what it does at each transfer on the bus: how the transfer ends, how
many bytes it moves and, where a CSW or sense data are asked for, what they are. The driver never
reads the memory it transfers to, so the transport returns the bytes of the data phase and
`transport` places them at `srb->pdata`. Delays and the `USB_READY` flag, which only selects one of
them, are left out.
-/

namespace HrppBoot.Usb

open ByteMemory

/-! ## The device -/

/-- How a transfer ends, by `dev->status`. -/
inductive Outcome where
  | done
  /-- `USB_ST_STALLED` -/
  | stalled
  | failed
  deriving DecidableEq, Repr

/-- `struct umass_bbb_csw`, with the fields `dCSW…` and `bCSWStatus` -/
structure Csw where
  signature : UInt32
  tag : UInt32
  /-- `dCSWDataResidue` -/
  residue : UInt32
  status : UInt8
  deriving DecidableEq, Repr

/-- What the device does at one transfer. -/
structure Transfer where
  outcome : Outcome
  length : Nat
  csw : Csw
  sense : List UInt8

/-- A device: its medium and its behaviour. -/
structure Device where
  blksz : Nat
  block : UInt32 → Nat → UInt8
  lun : UInt8
  transfer : Nat → Transfer

def scsiReqSense : UInt8 := 0x03

def scsiRead10 : UInt8 := 0x28

/-- Byte `i` of the medium from block `start` on. -/
def Device.byte (device : Device) (start : UInt32) (i : Nat) : UInt8 :=
  device.block (start + UInt32.ofNat (i / device.blksz)) (i % device.blksz)

/-- The bytes of `count` blocks from block `start` on. -/
def Device.blocks (device : Device) (start : UInt32) (count : Nat) : List UInt8 :=
  (List.range (count * device.blksz)).map (device.byte start)

/-- What the device has to send for a command: the blocks of a `READ(10)`, or sense data. -/
def Device.answer (device : Device) (cmd : List UInt8) (transfer : Transfer) : List UInt8 :=
  let at' (i : Nat) : Nat := (cmd.getD i 0).toNat
  if cmd.getD 0 0 = scsiRead10 then
    device.blocks (UInt32.ofNat (at' 2 * 2 ^ 24 + at' 3 * 2 ^ 16 + at' 4 * 2 ^ 8 + at' 5))
      (at' 7 * 2 ^ 8 + at' 8)
  else transfer.sense

/-! ## The driver -/

/-- Where the data of a command go. -/
inductive Target where
  | memory (address : Nat)
  | senseBuf
  deriving DecidableEq, Repr

structure Ccb where
  /-- `cmd`, 16 bytes. -/
  cmd : List UInt8
  senseBuf : List UInt8
  lun : UInt8
  cmdlen : Nat
  datalen : Nat
  pdata : Target

/-- State of the bus. -/
structure Session where
  cbwTag : UInt32
  transfers : Nat

/-- Result of a transport, `USB_STOR_TRANSPORT_…`. -/
inductive Verdict where
  | good
  | failed
  deriving DecidableEq, Repr

def cswSignature : UInt32 := 0x53425355

def cswStatusFailed : UInt8 := 1

def cswStatusPhase : UInt8 := 2

def cbwCdbLength : Nat := 16

/-- `us_direction` -/
def usDirectionTable : List UInt8 :=
  [0x28, 0x81, 0x14, 0x14, 0x20, 0x01, 0x90, 0x77,
    0x0c, 0x20, 0x00, 0x04, 0x00, 0x00, 0x00, 0x00,
    0x00, 0x00, 0x00, 0x00, 0x00, 0x01, 0x00, 0x01,
    0x00, 0x00, 0x00, 0x00, 0x00, 0x00, 0x00, 0x00]

/-- `US_DIRECTION`: whether a command has its data sent by the device. -/
def usDirection (command : UInt8) : Bool :=
  (usDirectionTable.getD (command.toNat / 8) 0).toNat.testBit (command.toNat % 8)

/-- The next transfer on the bus. -/
def Session.next (device : Device) (session : Session) : Transfer × Session :=
  (device.transfer session.transfers, { session with transfers := session.transfers + 1 })

/-- `usb_stor_BBB_comdat`: whether the CBW was sent. -/
def usbStorBBBComdat (device : Device) (srb : Ccb) (session : Session) : Bool × Session :=
  if cbwCdbLength < srb.cmdlen then (false, session)
  else
    let (sent, session) := { session with cbwTag := session.cbwTag + 1 }.next device
    (sent.outcome = .done, session)

def usbStorBBBReset (device : Device) (session : Session) : Session :=
  let (reset, session) := session.next device
  if reset.outcome = .stalled then session
  else
    let (_, session) := session.next device
    (session.next device).2

def usbStorBBBClearEndptStall (device : Device) (session : Session) : Bool × Session :=
  let (cleared, session) := session.next device
  (cleared.outcome = .done, session)

/-- The checks of the CSW. The residue, corrected by the number of bytes received, is computed and
not looked at. -/
def checkCsw (device : Device) (srb : Ccb) (dataActlen : Nat) (csw : Csw) (session : Session) :
    Verdict × Session :=
  let _residue := if csw.residue = 0 ∧ srb.datalen ≠ 0 ∧ srb.datalen - dataActlen ≠ 0 then
    srb.datalen - dataActlen else csw.residue.toNat
  if csw.signature ≠ cswSignature then (.failed, usbStorBBBReset device session)
  else if session.cbwTag - 1 ≠ csw.tag then (.failed, usbStorBBBReset device session)
  else if cswStatusPhase < csw.status then (.failed, usbStorBBBReset device session)
  else if csw.status = cswStatusPhase then (.failed, usbStorBBBReset device session)
  else if srb.datalen < dataActlen then (.failed, session)
  else if csw.status = cswStatusFailed then (.failed, session)
  else (.good, session)

/-- The status phase: a stall is cleared once. -/
def statusPhase (device : Device) (srb : Ccb) (dataActlen : Nat) (session : Session) :
    Verdict × Session :=
  let (status, session) := session.next device
  match status.outcome with
  | .done => checkCsw device srb dataActlen status.csw session
  | .failed => (.failed, usbStorBBBReset device session)
  | .stalled =>
    let (cleared, session) := usbStorBBBClearEndptStall device session
    if cleared then
      let (status, session) := session.next device
      if status.outcome = .done then checkCsw device srb dataActlen status.csw session
      else (.failed, usbStorBBBReset device session)
    else (.failed, usbStorBBBReset device session)

/-- `usb_stor_BBB_transport`, with the bytes received in the data phase. `usb_bulk_msg` refuses a
length that is negative as an `int`. -/
def usbStorBBBTransport (device : Device) (srb : Ccb) (session : Session) :
    Verdict × List UInt8 × Session :=
  let (sent, session) := usbStorBBBComdat device srb session
  if !sent then (.failed, [], usbStorBBBReset device session)
  else if srb.datalen = 0 then
    let (verdict, session) := statusPhase device srb 0 session
    (verdict, [], session)
  else if 2 ^ 31 ≤ srb.datalen then (.failed, [], usbStorBBBReset device session)
  else
    let (moved, session) := session.next device
    let received := if usDirection (srb.cmd.getD 0 0) then
      ((device.answer srb.cmd moved).take srb.datalen).take moved.length else []
    match moved.outcome with
    | .done =>
      let (verdict, session) := statusPhase device srb moved.length session
      (verdict, received, session)
    | .failed => (.failed, received, usbStorBBBReset device session)
    | .stalled =>
      let (cleared, session) := usbStorBBBClearEndptStall device session
      if cleared then
        let (verdict, session) := statusPhase device srb moved.length session
        (verdict, received, session)
      else (.failed, received, usbStorBBBReset device session)

/-- Everything the driver works on. -/
structure Host where
  memory : Memory
  /-- `usb_ccb` -/
  srb : Ccb
  session : Session

def transport (device : Device) (host : Host) : Verdict × Host :=
  let (verdict, received, session) := usbStorBBBTransport device host.srb host.session
  match host.srb.pdata with
  | .memory address =>
    (verdict, { host with memory := host.memory.store address received, session := session })
  | .senseBuf =>
    let senseBuf := received ++ host.srb.senseBuf.drop received.length
    (verdict, { host with srb := { host.srb with senseBuf := senseBuf }, session := session })

/-- `usb_request_sense`: the command block is used for the command, and `pdata` restored. -/
def usbRequestSense (device : Device) (host : Host) : Host :=
  let ptr := host.srb.pdata
  let cmd := [scsiReqSense, host.srb.lun <<< 5, 0, 0, 18, 0, 0, 0, 0, 0, 0, 0] ++
    host.srb.cmd.drop 12
  let srb := { host.srb with cmd := cmd, datalen := 18, pdata := .senseBuf, cmdlen := 12 }
  let (_, host) := transport device { host with srb := srb }
  { host with srb := { host.srb with pdata := ptr } }

/-- The command block of a `READ(10)`. -/
def read10Ccb (start : UInt32) (blocks : Nat) (srb : Ccb) : Ccb :=
  let byte (value shift : Nat) : UInt8 := UInt8.ofNat (value / 2 ^ shift)
  let cmd := [scsiRead10, srb.lun <<< 5, byte start.toNat 24, byte start.toNat 16,
    byte start.toNat 8, byte start.toNat 0, 0, byte blocks 8, byte blocks 0, 0, 0, 0] ++
    srb.cmd.drop 12
  { srb with cmd := cmd, cmdlen := 12 }

def usbRead10 (device : Device) (start : UInt32) (blocks : Nat) (host : Host) : Verdict × Host :=
  transport device { host with srb := read10Ccb start blocks host.srb }

def usbMaxXferBlk : Nat := 256

/-- The command block at `retry_it`. -/
def chunkCcb (device : Device) (bufAddr smallblks : Nat) (srb : Ccb) : Ccb :=
  { srb with datalen := device.blksz * smallblks % 2 ^ 32, pdata := .memory bufAddr }

/-- From `retry_it` on: attempts at one chunk, until one is good or `retry` is used up. -/
def readChunk (device : Device) (bufAddr : Nat) (start : UInt32) (smallblks : Nat) (retry : Nat)
    (host : Host) : Verdict × Host :=
  let host := { host with srb := chunkCcb device bufAddr smallblks host.srb }
  match usbRead10 device start smallblks host with
  | (.good, host) => (.good, host)
  | (.failed, host) =>
    let host := usbRequestSense device host
    match retry with
    | 0 => (.failed, host)
    | retry + 1 => readChunk device bufAddr start smallblks retry host

/-- Size of the next chunk. -/
def chunkBlks (blks : Nat) : Nat := if usbMaxXferBlk < blks then usbMaxXferBlk else blks

theorem chunkBlks_lt {blks : Nat} (more : blks - chunkBlks blks ≠ 0) :
    blks - chunkBlks blks < blks := by
  have positive : 0 < chunkBlks blks := by
    unfold chunkBlks usbMaxXferBlk at *
    split <;> omega
  omega

/-- The loop of `usb_stor_read`: the number of blocks that are not read. -/
def readLoop (device : Device) (start : UInt32) (blks bufAddr : Nat) (host : Host) : Nat × Host :=
  match readChunk device bufAddr start (chunkBlks blks) 2 host with
  | (.failed, host) => (blks, host)
  | (.good, host) =>
    if _more : blks - chunkBlks blks ≠ 0 then
      readLoop device (start + UInt32.ofNat (chunkBlks blks)) (blks - chunkBlks blks)
        ((bufAddr + host.srb.datalen) % 2 ^ 32) host
    else (0, host)
termination_by blks
decreasing_by exact chunkBlks_lt _more

/-- `usb_stor_read`: the number of blocks read, and the state after it. -/
def usbStorRead (desc : Option Device) (blknr : UInt32) (blkcnt buffer : Nat) (host : Host) :
    Nat × Host :=
  if blkcnt = 0 then (0, host)
  else
    match desc with
    | none => (0, host)
    | some device =>
      let host := { host with srb := { host.srb with lun := device.lun } }
      let (blks, host) := readLoop device blknr blkcnt buffer host
      (blkcnt - blks, host)

end HrppBoot.Usb
