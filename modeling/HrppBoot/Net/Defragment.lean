import HrppBoot.Net.Receive
import HrppBoot.Lib.Chain

/-!
# Reassembly of fragments

`__net_defragment` of `net/net.c`, after RFC 815. The holes of the packet that is being put together
are a doubly linked list whose nodes lie inside the holes themselves, in blocks of eight bytes, and
index 0 stands for no hole although a hole may start there. Data and nodes share `pkt_buff`, so the
model has the bytes of it. Addresses are those inside `pkt_buff`; the frame is another memory.

The walk over the list runs on fuel for as many nodes as 16-bit indices can tell apart: `none`
stands for a walk that does not end. Which nodes are touched and which bytes are copied is recorded.
-/

namespace HrppBoot.Net

open ByteMemory LinkedChain

/-! ## The function -/

def configNetMaxdefrag : Nat := 16384

/-- `IP_PKTSIZE`: the real data and `sizeof(rpc_specimen.u.reply)`. -/
def ipPktsize : Nat := configNetMaxdefrag + 100

def ipMaxudp : Nat := ipPktsize - ipHdrSize

/-- The static variables of the function. -/
structure Reassembly where
  pktBuff : Memory
  firstHole : Nat
  totalLen : Nat

/-- The address of `payload[i]`. -/
def payload (i : Nat) : Nat := ipHdrSize + 8 * i

/-- `payload[i]` as a hole: `last_byte`, `next_hole` and `prev_hole`. -/
def holeAt (buff : Memory) (i : Nat) : Node Nat :=
  ⟨buff.half (payload i), buff.half (payload i + 2), buff.half (payload i + 4)⟩

/-- Write `last_byte`. -/
def setLastByte (buff : Memory) (i value : Nat) : Memory := buff.storeHalf (payload i) value

/-- Write `next_hole`. -/
def setNextHole (buff : Memory) (i value : Nat) : Memory := buff.storeHalf (payload i + 2) value

/-- Write `prev_hole`. -/
def setPrevHole (buff : Memory) (i value : Nat) : Memory := buff.storeHalf (payload i + 4) value

/-- `*newh = *h` -/
def copyHole (buff : Memory) (newh h : Nat) : Memory := buff.copy (payload newh) (payload h) 8

/-- The walk to the first hole that does not end before `start`: the nodes visited and the hole. -/
def findHole (buff : Memory) (start : Nat) : Nat → Nat → Option (List Nat × Option Nat)
  | 0, _ => none
  | fuel + 1, h =>
    if (holeAt buff h).value < start then
      if (holeAt buff h).next = 0 then some ([h], none)
      else (findHole buff start fuel (holeAt buff h).next).map fun found => (h :: found.1, found.2)
    else some ([h], some h)

/-- What the repair of the list leaves. -/
structure Repair where
  buff : Memory
  firstHole : Nat
  done : Bool
  holes : List Nat

/-- The fragment covers the whole hole: remove the hole. -/
def removeHole (buff : Memory) (firstHole h : Nat) : Repair :=
  let hole := holeAt buff h
  if hole.prev = 0 ∧ hole.next = 0 then ⟨buff, firstHole, true, [h]⟩
  else if hole.prev = 0 then ⟨setPrevHole buff hole.next 0, hole.next, false, [h, hole.next]⟩
  else if hole.next = 0 then ⟨setNextHole buff hole.prev 0, firstHole, false, [h, hole.prev]⟩
  else
    let buff := setPrevHole buff hole.next hole.prev
    ⟨setNextHole buff (holeAt buff h).prev (holeAt buff h).next, firstHole, false,
      [h, hole.next, (holeAt buff h).prev]⟩

/-- The fragment covers the start of the hole: move the hole. -/
def moveHole (buff : Memory) (firstHole h newh : Nat) : Repair :=
  let buff := copyHole buff newh h
  let next := (holeAt buff newh).next
  let buff := if next ≠ 0 then setPrevHole buff next newh else buff
  let prev := (holeAt buff newh).prev
  let touched := h :: newh :: (if next ≠ 0 then [next] else [])
  if prev ≠ 0 then ⟨setNextHole buff prev newh, firstHole, false, touched ++ [prev]⟩
  else ⟨buff, newh, false, touched⟩

/-- The fragment lies in the middle: split the hole. -/
def splitHole (buff : Memory) (firstHole h newh start : Nat) : Repair :=
  let buff := copyHole buff newh h
  let buff := setLastByte buff h start
  let buff := setNextHole buff h newh
  let buff := setPrevHole buff newh h
  let next := (holeAt buff newh).next
  if next ≠ 0 then ⟨setPrevHole buff next newh, firstHole, false, [h, newh, next]⟩
  else ⟨buff, firstHole, false, [h, newh]⟩

/-- Fix the list for a fragment at block `offset8` that overlaps the hole `h`. -/
def fixHoles (buff : Memory) (firstHole h offset8 : Nat) (len : Int) : Repair :=
  let start := offset8 * 8
  let newh := (offset8 + len.tdiv 8).toNat
  if offset8 ≤ h ∧ ((holeAt buff h).value : Int) ≤ start + len then removeHole buff firstHole h
  else if ((holeAt buff h).value : Int) ≤ start + len then
    ⟨setLastByte buff h start, firstHole, false, [h]⟩
  else if offset8 ≤ h then moveHole buff firstHole h newh
  else splitHole buff firstHole h newh start

/-- What a call does. -/
structure Outcome where
  state : Reassembly
  /-- `*lenp`, if the packet is returned. -/
  returned : Option Nat
  holes : List Nat
  /-- The bytes of `pkt_buff` copied to. -/
  copied : List Span
  taken : List Span

/-- A call that returns `NULL` and has touched some nodes only. -/
def returnsNull (state : Reassembly) (holes : List Nat) : Outcome := ⟨state, none, holes, [], []⟩

/-- The packet is new, or another one: start again. -/
def restarts (state : Reassembly) (frame : Memory) (ip : Nat) : Bool :=
  state.totalLen = 0 ∨ state.pktBuff.half 4 ≠ frame.half (ip + 4)

/-- Reset the static variables for a new packet. -/
def resetHoles (state : Reassembly) (frame : Memory) (ip : Nat) : Reassembly :=
  let buff := setLastByte state.pktBuff 0 0xffff
  let buff := setNextHole buff 0 0
  let buff := setPrevHole buff 0 0
  ⟨buff.store 0 (frame.load ip ipHdrSize), 0, 0xffff⟩

/-- `memcpy` takes its count as an unsigned number. -/
def memcpyCount (len : Int) : Nat := (len % 2 ^ 32).toNat

/-- The part of the function behind the walk. -/
def addFragment (state : Reassembly) (frame : Memory) (ip h offset8 : Nat) (len : Int)
    (mfrag : Bool) : Outcome :=
  let stop := (offset8 * 8 + len).toNat
  let totalLen := if mfrag then state.totalLen else stop % 65536
  let buff := if mfrag then state.pktBuff else setLastByte state.pktBuff h stop
  let repair := fixHoles buff state.firstHole h offset8 len
  let count := memcpyCount len
  let buff := repair.buff.store (payload offset8) (frame.load (ip + ipHdrSize) count)
  let copied := [⟨payload offset8, count⟩]
  let taken := [⟨ip + ipHdrSize, count⟩]
  if repair.done then
    ⟨⟨buff.store 2 [UInt8.ofNat (totalLen / 256), UInt8.ofNat totalLen], repair.firstHole, totalLen⟩,
      some (totalLen + ipHdrSize), repair.holes, copied, taken⟩
  else ⟨⟨buff, repair.firstHole, totalLen⟩, none, repair.holes, copied, taken⟩

/-- The function once the static variables belong to the packet. -/
def netReassemble (state : Reassembly) (frame : Memory) (ip : Nat) : Option Outcome :=
  let ipOff := ntohs frame (ip + 6)
  let offset8 := ipOff % 0x2000
  let len := (ntohs frame (ip + 2) : Int) - ipHdrSize
  (findHole state.pktBuff (offset8 * 8) 65536 state.firstHole).map fun
    | (visited, none) => returnsNull state visited
    | (visited, some h) =>
      if offset8 + (len + 7).tdiv 8 ≤ h then returnsNull state visited
      else
        let outcome := addFragment state frame ip h offset8 len (ipOff / 0x2000 % 2 = 1)
        { outcome with holes := visited ++ outcome.holes }

def netDefragment (state : Reassembly) (frame : Memory) (ip : Nat) : Option Outcome :=
  let start := ntohs frame (ip + 6) % 0x2000 * 8
  let len := (ntohs frame (ip + 2) : Int) - ipHdrSize
  if start + len < 0 ∨ (ipMaxudp : Int) < start + len then some (returnsNull state [])
  else if restarts state frame ip then
    (netReassemble (resetHoles state frame ip) frame ip).map fun outcome =>
      { outcome with
        holes := 0 :: outcome.holes
        copied := ⟨0, ipHdrSize⟩ :: outcome.copied
        taken := ⟨ip, ipHdrSize⟩ :: outcome.taken }
  else netReassemble state frame ip

/-! ## Nodes in the buffer -/

/-- The bytes of a node. -/
def InNode (i a : Nat) : Prop := payload i ≤ a ∧ a < payload i + 8

theorem holeAt_congr {left right : Memory} {i : Nat} (same : ∀ a, InNode i a → left a = right a) :
    holeAt left i = holeAt right i := by
  have half {offset : Nat} (fits : offset + 2 ≤ 8) :
      left.half (payload i + offset) = right.half (payload i + offset) := by
    apply Memory.half_congr
    · exact same _ ⟨by omega, by omega⟩
    · exact same _ ⟨by omega, by omega⟩
  simp only [holeAt, half (show 2 + 2 ≤ 8 by decide), half (show 4 + 2 ≤ 8 by decide),
    Node.mk.injEq, and_true]
  exact half (show 0 + 2 ≤ 8 by decide)

section Write

variable (buff : Memory) (i value : Nat)

theorem storeHalf_otherNode {offset j a : Nat} (fits : offset + 2 ≤ 8) (inside : InNode j a)
    (different : j ≠ i) : buff.storeHalf (payload i + offset) value a = buff a := by
  apply Memory.storeHalf_outside
  unfold InNode payload at *
  omega

theorem holeAt_setLastByte (bound : value < 65536) : holeAt (setLastByte buff i value) =
    Function.update (holeAt buff) i { holeAt buff i with value := value } := by
  funext j
  by_cases same : j = i
  · subst same
    rw [Function.update_self]
    have other {b : Nat} (behind : payload j + 2 ≤ b) : setLastByte buff j value b = buff b :=
      Memory.storeHalf_outside _ _ _ (.inr behind)
    simp only [holeAt, Node.mk.injEq]
    exact ⟨Memory.half_storeHalf _ _ bound,
      Memory.half_congr (other (by omega)) (other (by omega)),
      Memory.half_congr (other (by omega)) (other (by omega))⟩
  · rw [Function.update_of_ne same]
    exact holeAt_congr fun a inside => storeHalf_otherNode buff i value (show 0 + 2 ≤ 8 by decide)
      inside same

theorem holeAt_setNextHole (bound : value < 65536) : holeAt (setNextHole buff i value) =
    Function.update (holeAt buff) i { holeAt buff i with next := value } := by
  funext j
  by_cases same : j = i
  · subst same
    rw [Function.update_self]
    have other {b : Nat} (apart : b < payload j + 2 ∨ payload j + 4 ≤ b) :
        setNextHole buff j value b = buff b :=
      Memory.storeHalf_outside _ _ _ (by omega)
    simp only [holeAt, Node.mk.injEq]
    exact ⟨Memory.half_congr (other (by omega)) (other (by omega)),
      Memory.half_storeHalf _ _ bound,
      Memory.half_congr (other (by omega)) (other (by omega))⟩
  · rw [Function.update_of_ne same]
    exact holeAt_congr fun a inside => storeHalf_otherNode buff i value (by decide) inside same

theorem holeAt_setPrevHole (bound : value < 65536) : holeAt (setPrevHole buff i value) =
    Function.update (holeAt buff) i { holeAt buff i with prev := value } := by
  funext j
  by_cases same : j = i
  · subst same
    rw [Function.update_self]
    have other {b : Nat} (before : b < payload j + 4) : setPrevHole buff j value b = buff b :=
      Memory.storeHalf_outside _ _ _ (.inl before)
    simp only [holeAt, Node.mk.injEq]
    exact ⟨Memory.half_congr (other (by omega)) (other (by omega)),
      Memory.half_congr (other (by omega)) (other (by omega)),
      Memory.half_storeHalf _ _ bound⟩
  · rw [Function.update_of_ne same]
    exact holeAt_congr fun a inside => storeHalf_otherNode buff i value (by decide) inside same

theorem holeAt_copyHole (newh h : Nat) : holeAt (copyHole buff newh h) =
    Function.update (holeAt buff) newh (holeAt buff h) := by
  funext j
  by_cases same : j = newh
  · subst same
    rw [Function.update_self]
    have byte {offset : Nat} (fits : offset < 8) :
        copyHole buff j h (payload j + offset) = buff (payload h + offset) := by
      rw [copyHole, Memory.copy_inside _ _ _ _ _ (by omega), Nat.add_sub_cancel_left]
    have half {offset : Nat} (fits : offset + 2 ≤ 8) :
        (copyHole buff j h).half (payload j + offset) = buff.half (payload h + offset) := by
      rw [Memory.half, Memory.half, byte (by omega), Nat.add_assoc, byte (by omega), Nat.add_assoc]
    simp only [holeAt, half (show 2 + 2 ≤ 8 by decide), half (show 4 + 2 ≤ 8 by decide),
      Node.mk.injEq, and_true]
    exact half (show 0 + 2 ≤ 8 by decide)
  · rw [Function.update_of_ne same]
    apply holeAt_congr
    intro a inside
    apply Memory.copy_outside
    unfold InNode payload at *
    omega

end Write

end HrppBoot.Net
