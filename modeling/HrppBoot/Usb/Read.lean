import HrppBoot.Usb.Storage

/-!
# Reading blocks over USB

Every attempt at a chunk delivers some of its bytes, from the first one on, and the attempts at one
chunk go to the same place, so the chunk holds as many bytes as the best attempt delivered. No part
of the driver compares that number with the length of the chunk: a good CSW is enough. So
`usb_stor_read` is exact when every chunk it counts had an attempt that delivered all of it, and
only then, if nothing is known of the memory before.
-/

namespace HrppBoot.Usb

open ByteMemory

/-! ## One attempt -/

theorem bytes_word {n : Nat} (range : n < 2 ^ 32) :
    n / 2 ^ 24 % 2 ^ 8 * 2 ^ 24 + n / 2 ^ 16 % 2 ^ 8 * 2 ^ 16 + n / 2 ^ 8 % 2 ^ 8 * 2 ^ 8 +
      n / 2 ^ 0 % 2 ^ 8 = n := by
  omega

theorem bytes_halfword {n : Nat} (range : n < 2 ^ 16) :
    n / 2 ^ 8 % 2 ^ 8 * 2 ^ 8 + n / 2 ^ 0 % 2 ^ 8 = n := by
  omega

theorem answer_read10Ccb (device : Device) (start : UInt32) {blocks : Nat} (small : blocks < 2 ^ 16)
    (srb : Ccb) (transfer : Transfer) :
    device.answer (read10Ccb start blocks srb).cmd transfer = device.blocks start blocks := by
  simp only [Device.answer, read10Ccb, List.cons_append, List.getD_cons_zero, List.getD_cons_succ,
    UInt8.toNat_ofNat', ↓reduceIte]
  rw [bytes_word start.toNat_lt, bytes_halfword small, UInt32.ofNat_toNat]

@[simp]
theorem length_blocks (device : Device) (start : UInt32) (count : Nat) :
    (device.blocks start count).length = count * device.blksz := by
  simp [Device.blocks]

theorem received_take (device : Device) (srb : Ccb) (session : Session) :
    ∃ transfer n, (usbStorBBBTransport device srb session).2.1 =
      ((device.answer srb.cmd transfer).take srb.datalen).take n := by
  have nothing : ∃ transfer n, ([] : List UInt8) =
      ((device.answer srb.cmd transfer).take srb.datalen).take n :=
    ⟨device.transfer 0, 0, rfl⟩
  unfold usbStorBBBTransport
  obtain ⟨sent, session⟩ := usbStorBBBComdat device srb session
  simp only
  split
  · exact nothing
  · split
    · exact nothing
    · split
      · exact nothing
      · generalize (session.next device) = next
        obtain ⟨moved, session⟩ := next
        have received : ∃ transfer n, (if usDirection (srb.cmd.getD 0 0) then
            ((device.answer srb.cmd moved).take srb.datalen).take moved.length else []) =
              ((device.answer srb.cmd transfer).take srb.datalen).take n := by
          split
          · exact ⟨moved, moved.length, rfl⟩
          · exact nothing
        simp only
        split
        · exact received
        · exact received
        · split <;> exact received

def Host.withMemory (host : Host) (memory : Memory) : Host := { host with memory := memory }

def attemptBytes (device : Device) (start : UInt32) (blocks : Nat) (host : Host) : List UInt8 :=
  (usbStorBBBTransport device (read10Ccb start blocks host.srb) host.session).2.1

theorem usbRead10_withMemory (device : Device) (start : UInt32) (blocks : Nat) (host : Host)
    (address : Nat) (target : host.srb.pdata = .memory address) (memory : Memory) :
    usbRead10 device start blocks (host.withMemory memory) =
      ((usbRead10 device start blocks host).1,
        (usbRead10 device start blocks host).2.withMemory
          (memory.store address (attemptBytes device start blocks host))) := by
  have same : (read10Ccb start blocks host.srb).pdata = .memory address := target
  simp only [usbRead10, transport, Host.withMemory, attemptBytes, same]

theorem usbRequestSense_withMemory (device : Device) (host : Host) (memory : Memory) :
    usbRequestSense device (host.withMemory memory) =
      (usbRequestSense device host).withMemory memory := rfl

theorem usbRead10_datalen (device : Device) (start : UInt32) (blocks : Nat) (host : Host) :
    (usbRead10 device start blocks host).2.srb.datalen = host.srb.datalen := by
  simp only [usbRead10, transport]
  split <;> rfl

/-! ## One chunk -/

theorem store_take_store_take (memory : Memory) (address : Nat) (bytes : List UInt8) (n k : Nat) :
    (memory.store address (bytes.take n)).store address (bytes.take k) =
      memory.store address (bytes.take (max n k)) := by
  funext a
  simp only [Memory.store, List.length_take, List.getD_eq_getElem?_getD, List.getElem?_take]
  split_ifs <;> first | rfl | omega

/-- How many bytes of a chunk the attempts at it deliver. -/
def delivered (device : Device) (bufAddr : Nat) (start : UInt32) (smallblks : Nat) (retry : Nat)
    (host : Host) : Nat :=
  let host := { host with srb := chunkCcb device bufAddr smallblks host.srb }
  let here := (attemptBytes device start smallblks host).length
  match usbRead10 device start smallblks host with
  | (.good, _) => here
  | (.failed, host) =>
    match retry with
    | 0 => here
    | retry + 1 =>
      max here (delivered device bufAddr start smallblks retry (usbRequestSense device host))

section Chunk

variable {device : Device} {smallblks : Nat} (small : smallblks < 2 ^ 16)
  (fits : smallblks * device.blksz < 2 ^ 32)
include small fits

theorem attemptBytes_eq (bufAddr : Nat) (start : UInt32) (srb : Ccb) (memory : Memory)
    (session : Session) :
    attemptBytes device start smallblks ⟨memory, chunkCcb device bufAddr smallblks srb, session⟩ =
      (device.blocks start smallblks).take (attemptBytes device start smallblks
        ⟨memory, chunkCcb device bufAddr smallblks srb, session⟩).length := by
  obtain ⟨transfer, n, received⟩ := received_take device
    (read10Ccb start smallblks (chunkCcb device bufAddr smallblks srb)) session
  have datalen : (read10Ccb start smallblks (chunkCcb device bufAddr smallblks srb)).datalen =
      smallblks * device.blksz := by
    rw [Nat.mul_comm] at fits
    rw [Nat.mul_comm smallblks]
    exact Nat.mod_eq_of_lt fits
  rw [answer_read10Ccb device start small, datalen] at received
  simp only [attemptBytes, received, List.take_take, List.length_take, length_blocks]
  congr 1
  omega

theorem delivered_le (bufAddr : Nat) (start : UInt32) (retry : Nat) (host : Host) :
    delivered device bufAddr start smallblks retry host ≤ smallblks * device.blksz := by
  have attempt (host : Host) : (attemptBytes device start smallblks
      { host with srb := chunkCcb device bufAddr smallblks host.srb }).length ≤
        smallblks * device.blksz := by
    rw [attemptBytes_eq small fits, List.length_take, length_blocks]
    omega
  induction retry generalizing host with
  | zero =>
    unfold delivered
    simp only
    split <;> exact attempt host
  | succ retry ih =>
    unfold delivered
    simp only
    split
    · exact attempt host
    · exact max_le (attempt host) (ih _)

theorem attempt_withMemory (bufAddr : Nat) (start : UInt32) (host : Host) (memory : Memory) :
    ∃ verdict after,
      usbRead10 device start smallblks
        { host with srb := chunkCcb device bufAddr smallblks host.srb } = (verdict, after) ∧
      usbRead10 device start smallblks { host.withMemory memory with
        srb := chunkCcb device bufAddr smallblks (host.withMemory memory).srb } =
        (verdict, after.withMemory (memory.store bufAddr ((device.blocks start smallblks).take
          (attemptBytes device start smallblks
            { host with srb := chunkCcb device bufAddr smallblks host.srb }).length))) := by
  refine ⟨_, _, rfl, ?_⟩
  rw [← attemptBytes_eq small fits]
  exact usbRead10_withMemory device start smallblks
    { host with srb := chunkCcb device bufAddr smallblks host.srb } bufAddr rfl memory

theorem readChunk_withMemory (bufAddr : Nat) (start : UInt32) (retry : Nat) (host : Host)
    (memory : Memory) :
    readChunk device bufAddr start smallblks retry (host.withMemory memory) =
      ((readChunk device bufAddr start smallblks retry host).1,
        (readChunk device bufAddr start smallblks retry host).2.withMemory
          (memory.store bufAddr ((device.blocks start smallblks).take
            (delivered device bufAddr start smallblks retry host)))) := by
  induction retry generalizing host memory with
  | zero =>
    obtain ⟨verdict, after, taken, takenWith⟩ := attempt_withMemory small fits bufAddr start host memory
    rw [readChunk, readChunk, delivered, takenWith, taken]
    cases verdict with
    | good => rfl
    | failed => rfl
  | succ retry ih =>
    obtain ⟨verdict, after, taken, takenWith⟩ := attempt_withMemory small fits bufAddr start host memory
    rw [readChunk, readChunk, delivered, takenWith, taken]
    cases verdict with
    | good => rfl
    | failed =>
      simp only [usbRequestSense_withMemory, ih, store_take_store_take]

omit small in
/-- A chunk that is read leaves its length in the command block. -/
theorem readChunk_datalen {bufAddr : Nat} {start : UInt32} {retry : Nat} {host after : Host}
    (read : readChunk device bufAddr start smallblks retry host = (.good, after)) :
    after.srb.datalen = smallblks * device.blksz := by
  have attempt (host : Host) := usbRead10_datalen device start smallblks
    { host with srb := chunkCcb device bufAddr smallblks host.srb }
  have length : device.blksz * smallblks % 2 ^ 32 = smallblks * device.blksz := by
    rw [Nat.mul_comm] at fits
    rw [Nat.mul_comm smallblks]
    exact Nat.mod_eq_of_lt fits
  induction retry generalizing host with
  | zero =>
    unfold readChunk at read
    simp only at read
    split at read
    · rename_i here
      cases read
      rw [← length]
      have kept := attempt host
      rw [here] at kept
      exact kept
    · cases read
  | succ retry ih =>
    unfold readChunk at read
    simp only at read
    split at read
    · rename_i here
      cases read
      rw [← length]
      have kept := attempt host
      rw [here] at kept
      exact kept
    · exact ih read

end Chunk

/-! ## The whole read -/

/-- Every chunk that is counted had an attempt that delivered all of it. -/
def Complete (device : Device) (start : UInt32) (blks bufAddr : Nat) (host : Host) : Prop :=
  match readChunk device bufAddr start (chunkBlks blks) 2 host with
  | (.failed, _) => True
  | (.good, after) =>
    delivered device bufAddr start (chunkBlks blks) 2 host = chunkBlks blks * device.blksz ∧
    if _more : blks - chunkBlks blks ≠ 0 then
      Complete device (start + UInt32.ofNat (chunkBlks blks)) (blks - chunkBlks blks)
        ((bufAddr + after.srb.datalen) % 2 ^ 32) after
    else True
termination_by blks
decreasing_by exact chunkBlks_lt _more

theorem byte_add (device : Device) (start : UInt32) (count : Nat) {i : Nat}
    (positive : 0 < device.blksz) :
    device.byte (start + UInt32.ofNat count) i = device.byte start (count * device.blksz + i) := by
  unfold Device.byte
  rw [Nat.mul_comm, Nat.mul_add_div positive, Nat.mul_add_mod, UInt32.ofNat_add, UInt32.add_assoc]

/-- What the loop does: `left` blocks are not counted, the bytes `arrived` come from the medium and
all others stay, whatever memory held before. -/
structure LoopSpec (device : Device) (start : UInt32) (blks bufAddr : Nat) (host : Host)
    (left : Nat) (arrived : Nat → Prop) : Prop where
  most : left ≤ blks
  inside : ∀ a, arrived a → bufAddr ≤ a ∧ a < bufAddr + blks * device.blksz
  count : ∀ memory, (readLoop device start blks bufAddr (host.withMemory memory)).1 = left
  holds : ∀ memory a, arrived a →
    (readLoop device start blks bufAddr (host.withMemory memory)).2.memory a =
      device.byte start (a - bufAddr)
  stays : ∀ memory a, ¬arrived a →
    (readLoop device start blks bufAddr (host.withMemory memory)).2.memory a = memory a
  complete : Complete device start blks bufAddr host ↔
    ∀ i < (blks - left) * device.blksz, arrived (bufAddr + i)

theorem store_blocks_inside (device : Device) (start : UInt32) {count length address a : Nat}
    (memory : Memory) (short : length ≤ count * device.blksz)
    (inside : address ≤ a ∧ a < address + length) :
    memory.store address ((device.blocks start count).take length) a =
      device.byte start (a - address) := by
  have size : ((device.blocks start count).take length).length = length := by
    rw [List.length_take, length_blocks]
    omega
  rw [Memory.store_inside _ _ _ _ (by omega), List.getD_eq_getElem?_getD,
    List.getElem?_take_of_lt (by omega)]
  unfold Device.blocks
  rw [List.getElem?_map, List.getElem?_range (by omega)]
  rfl

theorem store_blocks_outside (device : Device) (start : UInt32) {count length address a : Nat}
    (memory : Memory) (short : length ≤ count * device.blksz)
    (outside : ¬(address ≤ a ∧ a < address + length)) :
    memory.store address ((device.blocks start count).take length) a = memory a := by
  apply Memory.store_outside
  rw [List.length_take, length_blocks]
  omega

theorem chunkBlks_le (blks : Nat) : chunkBlks blks ≤ blks ∧ chunkBlks blks < 2 ^ 16 := by
  have most : usbMaxXferBlk = 256 := rfl
  unfold chunkBlks
  split <;> omega

/-- The bytes that arrive with the first chunk. -/
def FirstArrived (device : Device) (start : UInt32) (blks bufAddr : Nat) (host : Host) (a : Nat) :
    Prop :=
  bufAddr ≤ a ∧ a < bufAddr + delivered device bufAddr start (chunkBlks blks) 2 host

section Loop

variable {device : Device} {start : UInt32} {blks bufAddr : Nat} {host after : Host}
  (fits : bufAddr + blks * device.blksz < 2 ^ 32)
include fits

theorem chunk_fits : chunkBlks blks * device.blksz ≤ blks * device.blksz ∧
    chunkBlks blks * device.blksz < 2 ^ 32 := by
  have bytes := Nat.mul_le_mul_right device.blksz (chunkBlks_le blks).1
  omega

theorem firstArrived_inside {a : Nat} (arrived : FirstArrived device start blks bufAddr host a) :
    bufAddr ≤ a ∧ a < bufAddr + chunkBlks blks * device.blksz := by
  have short := delivered_le (chunkBlks_le blks).2 (chunk_fits fits).2 bufAddr start 2 host
  unfold FirstArrived at arrived
  omega

theorem LoopSpec.failed
    (read : readChunk device bufAddr start (chunkBlks blks) 2 host = (.failed, after)) :
    LoopSpec device start blks bufAddr host blks (FirstArrived device start blks bufAddr host) := by
  have small := (chunkBlks_le blks).2
  obtain ⟨chunkBytes, chunkFits⟩ := chunk_fits fits
  have short := delivered_le small chunkFits bufAddr start 2 host
  have withMemory := readChunk_withMemory small chunkFits bufAddr start 2 host
  refine ⟨Nat.le_refl _, ?_, ?_, ?_, ?_, ?_⟩
  · intro a arrived
    have inside := firstArrived_inside fits arrived
    omega
  · intro memory
    rw [readLoop, withMemory, read]
  · intro memory a arrived
    rw [readLoop, withMemory, read]
    exact store_blocks_inside device start memory short arrived
  · intro memory a other
    rw [readLoop, withMemory, read]
    exact store_blocks_outside device start memory short other
  · rw [Complete, read]
    simp

/-- So does a first chunk that is the last one. -/
theorem LoopSpec.last
    (read : readChunk device bufAddr start (chunkBlks blks) 2 host = (.good, after))
    (last : blks - chunkBlks blks = 0) :
    LoopSpec device start blks bufAddr host 0 (FirstArrived device start blks bufAddr host) := by
  obtain ⟨chunk, small⟩ := chunkBlks_le blks
  obtain ⟨chunkBytes, chunkFits⟩ := chunk_fits fits
  have short := delivered_le small chunkFits bufAddr start 2 host
  have withMemory := readChunk_withMemory small chunkFits bufAddr start 2 host
  have whole : chunkBlks blks = blks := by omega
  refine ⟨Nat.zero_le _, ?_, ?_, ?_, ?_, ?_⟩
  · intro a arrived
    have inside := firstArrived_inside fits arrived
    omega
  · intro memory
    rw [readLoop, withMemory, read]
    simp [last]
  · intro memory a arrived
    rw [readLoop, withMemory, read]
    simp only [last, ne_eq, not_true_eq_false, ↓reduceDIte]
    exact store_blocks_inside device start memory short arrived
  · intro memory a other
    rw [readLoop, withMemory, read]
    simp only [last, ne_eq, not_true_eq_false, ↓reduceDIte]
    exact store_blocks_outside device start memory short other
  · rw [Complete, read]
    simp only [last, ne_eq, not_true_eq_false, ↓reduceDIte, and_true, FirstArrived, Nat.sub_zero]
    rw [whole] at short ⊢
    constructor
    · intro all i below
      omega
    · intro all
      by_contra missing
      have first := all (delivered device bufAddr start blks 2 host) (by omega)
      omega

/-- A first chunk that is read, and the chunks behind it. -/
theorem LoopSpec.more {left : Nat} {arrived : Nat → Prop}
    (read : readChunk device bufAddr start (chunkBlks blks) 2 host = (.good, after))
    (more : blks - chunkBlks blks ≠ 0)
    (rest : LoopSpec device (start + UInt32.ofNat (chunkBlks blks)) (blks - chunkBlks blks)
      (bufAddr + chunkBlks blks * device.blksz) after left arrived) :
    LoopSpec device start blks bufAddr host left
      fun a => FirstArrived device start blks bufAddr host a ∨ arrived a := by
  obtain ⟨chunk, small⟩ := chunkBlks_le blks
  obtain ⟨chunkBytes, chunkFits⟩ := chunk_fits fits
  have short := delivered_le small chunkFits bufAddr start 2 host
  have withMemory := readChunk_withMemory small chunkFits bufAddr start 2 host
  have next : (bufAddr + after.srb.datalen) % 2 ^ 32 = bufAddr + chunkBlks blks * device.blksz := by
    rw [readChunk_datalen chunkFits read]
    exact Nat.mod_eq_of_lt (by omega)
  have split : blks * device.blksz =
      chunkBlks blks * device.blksz + (blks - chunkBlks blks) * device.blksz := by
    rw [← Nat.add_mul]
    congr 1
    omega
  have looped (memory : Memory) : readLoop device start blks bufAddr (host.withMemory memory) =
      readLoop device (start + UInt32.ofNat (chunkBlks blks)) (blks - chunkBlks blks)
        (bufAddr + chunkBlks blks * device.blksz) (after.withMemory (memory.store bufAddr
          ((device.blocks start (chunkBlks blks)).take
            (delivered device bufAddr start (chunkBlks blks) 2 host)))) := by
    rw [readLoop, withMemory, read]
    simp only [more, ne_eq, not_false_eq_true, ↓reduceDIte]
    rw [← next]
    rfl
  have mostRest := rest.most
  refine ⟨by omega, ?_, ?_, ?_, ?_, ?_⟩
  · rintro a (here | later)
    · have inside := firstArrived_inside fits here
      omega
    · have inside := rest.inside a later
      omega
  · intro memory
    rw [looped, rest.count]
  · intro memory a came
    rw [looped]
    by_cases later : arrived a
    · have inside := rest.inside a later
      have positive : 0 < device.blksz := by
        rcases Nat.eq_zero_or_pos device.blksz with zero | positive
        · simp only [zero, Nat.mul_zero] at inside
          omega
        · exact positive
      rw [rest.holds _ a later, byte_add device start _ positive]
      congr 1
      omega
    · rw [rest.stays _ a later]
      exact store_blocks_inside device start memory short (came.resolve_right later)
  · intro memory a other
    obtain ⟨notHere, notLater⟩ := not_or.mp other
    rw [looped, rest.stays _ a notLater]
    exact store_blocks_outside device start memory short notHere
  · rw [Complete, read]
    simp only [more, ne_eq, not_false_eq_true, ↓reduceDIte, next, rest.complete]
    have counted : (blks - left) * device.blksz = chunkBlks blks * device.blksz +
        (blks - chunkBlks blks - left) * device.blksz := by
      rw [← Nat.add_mul]
      congr 1
      omega
    rw [counted]
    constructor
    · rintro ⟨all, ahead⟩ i below
      by_cases here : i < chunkBlks blks * device.blksz
      · left
        unfold FirstArrived
        omega
      · right
        have came := ahead (i - chunkBlks blks * device.blksz) (by omega)
        rwa [show bufAddr + chunkBlks blks * device.blksz + (i - chunkBlks blks * device.blksz) =
          bufAddr + i by omega] at came
    · intro all
      refine ⟨?_, ?_⟩
      · by_contra missing
        rcases all (delivered device bufAddr start (chunkBlks blks) 2 host) (by omega) with
          here | later
        · unfold FirstArrived at here
          omega
        · have inside := rest.inside _ later
          omega
      · intro i below
        rcases all (chunkBlks blks * device.blksz + i) (by omega) with here | later
        · have inside := firstArrived_inside fits here
          omega
        · rwa [← Nat.add_assoc] at later

end Loop

theorem readLoop_spec (device : Device) (start : UInt32) (blks bufAddr : Nat) (host : Host)
    (fits : bufAddr + blks * device.blksz < 2 ^ 32) :
    ∃ left arrived, LoopSpec device start blks bufAddr host left arrived := by
  induction blks using Nat.strong_induction_on generalizing start bufAddr host with
  | _ blks ih =>
    rcases read : readChunk device bufAddr start (chunkBlks blks) 2 host with ⟨verdict, after⟩
    cases verdict with
    | failed => exact ⟨_, _, LoopSpec.failed fits read⟩
    | good =>
      by_cases last : blks - chunkBlks blks = 0
      · exact ⟨_, _, LoopSpec.last fits read last⟩
      · have bytes : chunkBlks blks * device.blksz + (blks - chunkBlks blks) * device.blksz ≤
            blks * device.blksz := by
          rw [← Nat.add_mul]
          exact Nat.mul_le_mul_right _ (by omega)
        obtain ⟨left, arrived, rest⟩ := ih _ (chunkBlks_lt last)
          (start + UInt32.ofNat (chunkBlks blks)) (bufAddr + chunkBlks blks * device.blksz) after
          (by omega)
        exact ⟨_, _, rest.more fits read last⟩

/-- `usb_stor_read` did what it says: the blocks it counts stand in the buffer, and nothing outside
the buffer has changed. -/
structure ReadsBlocks (desc : Option Device) (blknr : UInt32) (blkcnt buffer : Nat)
    (before : Memory) (result : Nat × Host) : Prop where
  count : result.1 ≤ blkcnt
  blocks : ∀ device ∈ desc, ∀ i < result.1 * device.blksz, result.2.memory (buffer + i) =
    device.block (blknr + UInt32.ofNat (i / device.blksz)) (i % device.blksz)
  outside : ∀ a, (∀ device ∈ desc, ¬(buffer ≤ a ∧ a < buffer + blkcnt * device.blksz)) →
    result.2.memory a = before a

/-- Every chunk that `usb_stor_read` counts had an attempt that delivered all of it. -/
def CompleteRead (desc : Option Device) (blknr : UInt32) (blkcnt buffer : Nat) (host : Host) :
    Prop :=
  ∀ device ∈ desc, blkcnt ≠ 0 → Complete device blknr blkcnt buffer
    { host with srb := { host.srb with lun := device.lun } }

/-- Whatever the device does at each transfer, `usb_stor_read` returns the blocks it counts, from
every memory, exactly when every chunk that it counts had an attempt that delivered all of it. -/
theorem usbStorRead_readsBlocks_iff (desc : Option Device) (blknr : UInt32) (blkcnt buffer : Nat)
    (host : Host) (fits : ∀ device ∈ desc, buffer + blkcnt * device.blksz < 2 ^ 32) :
    (∀ memory, ReadsBlocks desc blknr blkcnt buffer memory
      (usbStorRead desc blknr blkcnt buffer (host.withMemory memory))) ↔
    CompleteRead desc blknr blkcnt buffer host := by
  by_cases empty : blkcnt = 0
  · have nothing : CompleteRead desc blknr blkcnt buffer host :=
      fun _ _ asked => absurd empty asked
    refine iff_of_true (fun memory => ?_) nothing
    unfold usbStorRead
    rw [if_pos empty]
    exact ⟨Nat.zero_le _, by simp, fun _ _ => rfl⟩
  · cases desc with
    | none =>
      have nothing : CompleteRead none blknr blkcnt buffer host := by simp [CompleteRead]
      refine iff_of_true (fun memory => ?_) nothing
      simp only [usbStorRead, if_neg empty]
      exact ⟨Nat.zero_le _, by simp, fun _ _ => rfl⟩
    | some device =>
      let prepared : Host := { host with srb := { host.srb with lun := device.lun } }
      obtain ⟨left, arrived, spec⟩ := readLoop_spec device blknr blkcnt buffer prepared
        (fits device rfl)
      have result (memory : Memory) :
          usbStorRead (some device) blknr blkcnt buffer (host.withMemory memory) =
            (blkcnt - left,
              (readLoop device blknr blkcnt buffer (prepared.withMemory memory)).2) := by
        unfold usbStorRead
        rw [if_neg empty, ← spec.count memory]
        rfl
      have condition : CompleteRead (some device) blknr blkcnt buffer host ↔
          ∀ i < (blkcnt - left) * device.blksz, arrived (buffer + i) := by
        rw [← spec.complete]
        simp [CompleteRead, empty, prepared]
      rw [condition]
      constructor
      · intro reads i below
        by_contra missing
        -- a memory that differs from the medium at every byte
        let other : Memory := fun a => device.byte blknr (a - buffer) + 1
        have held := (reads other).blocks device rfl i
        rw [result] at held
        have same := held below
        rw [spec.stays other _ missing] at same
        simp [other, Device.byte] at same
      · intro all memory
        rw [result]
        refine ⟨Nat.sub_le .., ?_, ?_⟩
        · intro device' same i below
          cases same
          rw [spec.holds memory _ (all i below), Nat.add_sub_cancel_left]
          rfl
        · intro a outside
          apply spec.stays
          intro came
          exact outside device rfl (spec.inside a came)

/-- A device that answers every command with a good CSW, and sends `length` bytes of data. -/
def agreeable (length : Nat) : Device where
  blksz := 512
  block := fun _ _ => 1
  lun := 0
  transfer := fun _ => ⟨.done, length, ⟨cswSignature, 0, UInt32.ofNat (512 - length), 0⟩, []⟩

/-- A host before its first command, with memory cleared. -/
def idle : Host := ⟨Memory.blank, ⟨List.replicate 16 0, [], 0, 0, 0, .senseBuf⟩, ⟨0, 0⟩⟩

/-- A block that is sent whole is read. -/
theorem usbStorRead_readsBlocks_whole :
    ReadsBlocks (some (agreeable 512)) 7 1 0x12000000 Memory.blank
      (usbStorRead (some (agreeable 512)) 7 1 0x12000000 (idle.withMemory Memory.blank)) := by
  refine (usbStorRead_readsBlocks_iff (some (agreeable 512)) 7 1 0x12000000 idle ?_).mpr ?_ _
  · rintro device ⟨⟩
    decide
  · rintro device ⟨⟩ -
    have whole : delivered (agreeable 512) 0x12000000 7 (chunkBlks 1) 2 idle = 512 := by
      decide +kernel
    rw [Complete]
    split
    · trivial
    · exact ⟨whole, trivial⟩

/-- A block of which nothing is sent is counted as read: the residue of 512 is not looked at. -/
theorem usbStorRead_counts_missing :
    ¬∀ desc blknr blkcnt buffer host,
      (∀ device ∈ desc, buffer + blkcnt * device.blksz < 2 ^ 32) →
      ReadsBlocks desc blknr blkcnt buffer host.memory
        (usbStorRead desc blknr blkcnt buffer host) := by
  intro reads
  have exact := reads (some (agreeable 0)) 7 1 0x12000000 idle (by rintro device ⟨⟩; decide)
  have chunk : (readChunk (agreeable 0) 0x12000000 7 (chunkBlks 1) 2 idle).1 = .good ∧
      (readChunk (agreeable 0) 0x12000000 7 (chunkBlks 1) 2 idle).2.memory 0x12000000 = 0 := by
    decide +kernel
  have result : usbStorRead (some (agreeable 0)) 7 1 0x12000000 idle =
      (1, (readChunk (agreeable 0) 0x12000000 7 (chunkBlks 1) 2 idle).2) := by
    have looped : readLoop (agreeable 0) 7 1 0x12000000 idle =
        (0, (readChunk (agreeable 0) 0x12000000 7 (chunkBlks 1) 2 idle).2) := by
      rw [readLoop]
      split
      · rename_i failed
        rw [failed] at chunk
        cases chunk.1
      · rename_i read
        rw [read]
        rfl
    exact congrArg (fun result : Nat × Host => (1 - result.1, result.2)) looped
  have held := exact.blocks (agreeable 0) rfl 0
  rw [result] at held
  have same := held (by decide)
  rw [Nat.add_zero, chunk.2] at same
  exact absurd same (by decide)

end HrppBoot.Usb
