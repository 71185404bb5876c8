import HrppBoot.Lib.Memory
import Mathlib.Data.Nat.Bitwise

/-!
# Received packets

`net_process_received_packet` of `net/net.c`, from the Ethernet header to the call of the UDP
handler. The frame lies at address 0 of a memory; what is behind its `len` bytes belongs to others.
The function returns which header fields it reads, in their order, and what becomes of the packet.
Reassembly of fragments, ICMP, ARP and CDP are other functions and end the model.

The length of the UDP payload comes from the UDP header alone, and the 802.2 header is read before
any check that it is there. `netProcessReceivedPacket_inside` says for which frames everything
stays inside.
-/

namespace HrppBoot.Net

open ByteMemory

/-! ## Header fields -/

/-- `ntohs` of the half-word at an address. -/
def ntohs (m : Memory) (a : Nat) : Nat := 256 * (m a).toNat + (m (a + 1)).toNat

/-- `sizeof(struct ethernet_hdr)` -/
def etherHdrSize : Nat := 14

/-- `sizeof(struct e802_hdr)` -/
def e802HdrSize : Nat := 22

/-- `sizeof(struct vlan_ethernet_hdr)` -/
def vlanEtherHdrSize : Nat := 18

/-- `sizeof(struct ip_hdr)` -/
def ipHdrSize : Nat := 20

/-- `sizeof(struct ip_udp_hdr)` -/
def ipUdpHdrSize : Nat := 28

/-- `IP_UDP_HDR_SIZE - IP_HDR_SIZE` -/
def udpHdrSize : Nat := 8

def protIp : Nat := 0x0800

def protArp : Nat := 0x0806

def protRarp : Nat := 0x8035

def protVlan : Nat := 0x8100

def vlanNone : Nat := 4095

/-- `x & VLAN_IDMASK` -/
def vlanId (x : Nat) : Nat := x % 4096

def ipprotoIcmp : UInt8 := 1

def ipprotoUdp : UInt8 := 17

/-! ## Checksums -/

/-- The sum of the 16-bit words of `nbytes` bytes, as `read` takes them; a last odd byte is taken by
`odd`. -/
def sumWords (read odd : Nat → Nat) (a : Nat) : Nat → Nat
  | 0 => 0
  | 1 => odd a
  | nbytes + 2 => read a + sumWords read odd (a + 2) nbytes

/-- `compute_ip_checksum`: the words are little-endian. -/
def computeIpChecksum (m : Memory) (a nbytes : Nat) : Nat :=
  let sum := sumWords m.half (fun a => (m a).toNat) a nbytes
  let sum := sum / 65536 + sum % 65536
  let sum := sum + sum / 65536
  65535 - sum % 65536

def ipChecksumOk (m : Memory) (a nbytes : Nat) : Bool := computeIpChecksum m a nbytes &&& 0xfffe = 0

/-- The loop that folds the carries of a sum. -/
def foldCarries (xsum : Nat) : Nat :=
  if xsum / 65536 ≠ 0 then foldCarries (xsum % 65536 + xsum / 65536 % 65536) else xsum
termination_by xsum
decreasing_by omega

/-- The UDP checksum is right, over the pseudo header and the `udp_len` bytes from the UDP header
on. -/
def udpChecksumOk (m : Memory) (ip : Nat) : Bool :=
  let xsum := (m (ip + 9)).toNat + ntohs m (ip + 24) + ntohs m (ip + 12) + ntohs m (ip + 14) +
    ntohs m (ip + 16) + ntohs m (ip + 18) +
    sumWords (ntohs m) (fun a => 256 * (m a).toNat) (ip + 20) (ntohs m (ip + 24))
  foldCarries xsum = 0 ∨ foldCarries xsum = 0xffff

/-! ## Reception -/

/-- What the function depends on besides the frame: the options `CONFIG_…` and settings `net_…`. -/
structure Config where
  /-- `CONFIG_API` is set and `push_packet` is not `NULL`. -/
  pushPacket : Bool
  cmdCdp : Bool
  cmdRarp : Bool
  udpChecksum : Bool
  netconsole : Bool
  ourVlan : UInt16
  nativeVlan : UInt16
  /-- `net_ip.s_addr` -/
  netIp : UInt32
  /-- `net_mcast_addr`, if `CONFIG_MCAST_TFTP` is set. -/
  mcastAddr : Option UInt32

/-- What becomes of a packet. -/
inductive Delivery where
  | dropped
  /-- It goes to `push_packet`. -/
  | pushed
  /-- It goes to `cdp_receive`. -/
  | cdp (ip : Nat) (len : Int)
  /-- It goes to `arp_receive`. -/
  | arp (ip : Nat) (len : Int)
  /-- It goes to `rarp_receive`. -/
  | rarp (ip : Nat) (len : Int)
  | fragment (ip len : Nat)
  /-- It goes to `receive_icmp`. -/
  | icmp (ip len : Nat)
  /-- Its payload goes to the UDP handler, and to the network console before. -/
  | udp (netconsole : Bool) (pkt : Nat) (len : Int)
  deriving DecidableEq, Repr

/-- The header fields read and what becomes of the packet. -/
structure Receipt where
  reads : List Span
  delivery : Delivery
  deriving DecidableEq, Repr

/-- Some fields are read first. -/
def reading (fields : List Span) (receipt : Receipt) : Receipt :=
  { receipt with reads := fields ++ receipt.reads }

/-- Nothing more is read. -/
def ends (delivery : Delivery) : Receipt := ⟨[], delivery⟩

/-- `net_our_vlan` or `net_native_vlan` with -1 taken as no VLAN. -/
def vlanSetting (vlan : UInt16) : Nat := if vlan = 0xffff then vlanNone else vlan.toNat

def isCdpPacket (m : Memory) : Bool := m.load 0 6 = [0x01, 0x00, 0x0c, 0xcc, 0xcc, 0xcc]

/-- The packet is for this address, for all, or for the multicast group. -/
def forUs (config : Config) (m : Memory) (ip : Nat) : Bool :=
  config.netIp = 0 ∨ m.word32 (ip + 16) = config.netIp ∨ m.word32 (ip + 16) = 0xFFFFFFFF ∨
    config.mcastAddr = some (m.word32 (ip + 16))

/-- `ip_off & (IP_OFFS | IP_FLAGS_MFRAG)` -/
def isFragment (m : Memory) (ip : Nat) : Bool := ntohs m (ip + 6) % 0x4000 ≠ 0

/-- The part of the function that is about UDP. -/
def receiveUdp (config : Config) (m : Memory) (ip : Nat) : Receipt :=
  let deliver := reading [⟨ip + 22, 2⟩, ⟨ip + 20, 2⟩, ⟨ip + 24, 2⟩]
    (ends (.udp config.netconsole (ip + ipUdpHdrSize) ((ntohs m (ip + 24) : Int) - udpHdrSize)))
  if config.udpChecksum then
    reading [⟨ip + 26, 2⟩] <|
      if ntohs m (ip + 26) ≠ 0 then
        reading [⟨ip + 9, 1⟩, ⟨ip + 24, 2⟩, ⟨ip + 12, 8⟩] <|
          if udpChecksumOk m ip then deliver else ends .dropped
      else deliver
  else deliver

/-- The part of the function that is about IP. The first comparison is one of unsigned numbers, so
that a negative `len` passes it. -/
def receiveIp (config : Config) (m : Memory) (ip : Nat) (len : Int) : Receipt :=
  if 0 ≤ len ∧ len < ipUdpHdrSize then ends .dropped
  else reading [⟨ip + 2, 2⟩] <|
    if len < ntohs m (ip + 2) then ends .dropped
    else reading [⟨ip, 1⟩] <|
      if m ip &&& 0xf0 ≠ 0x40 then ends .dropped
      else if m ip &&& 0x0f > 0x05 then ends .dropped
      else reading [⟨ip, ipHdrSize⟩] <|
        if ¬ipChecksumOk m ip ipHdrSize then ends .dropped
        else reading [⟨ip + 16, 4⟩] <|
          if ¬forUs config m ip then ends .dropped
          else reading [⟨ip + 12, 4⟩, ⟨ip + 6, 2⟩] <|
            if isFragment m ip then ends (.fragment ip (ntohs m (ip + 2)))
            else reading [⟨ip + 9, 1⟩] <|
              if m (ip + 9) = ipprotoIcmp then ends (.icmp ip (ntohs m (ip + 2)))
              else if m (ip + 9) ≠ ipprotoUdp then ends .dropped
              else receiveUdp config m ip

/-- The packet's VLAN is not the configured one. -/
def wrongVlan (config : Config) (vlanid : Nat) : Bool :=
  vlanId (vlanSetting config.ourVlan) ≠ vlanNone ∧
    (if vlanid = vlanNone then vlanId (vlanSetting config.nativeVlan) else vlanid) ≠
      vlanId (vlanSetting config.ourVlan)

/-- The part of the function behind the Ethernet headers. -/
def receiveProtocol (config : Config) (m : Memory) (iscdp : Bool) (ethProto vlanid ip : Nat)
    (len : Int) : Receipt :=
  if iscdp then ends (.cdp ip len)
  else if wrongVlan config vlanid then ends .dropped
  else if ethProto = protArp then ends (.arp ip len)
  else if config.cmdRarp ∧ ethProto = protRarp then ends (.rarp ip len)
  else if ethProto = protIp then receiveIp config m ip len
  else ends .dropped

def netProcessReceivedPacket (config : Config) (m : Memory) (len : Nat) : Receipt :=
  if len < etherHdrSize then ends .dropped
  else if config.pushPacket then ends .pushed
  else
    let iscdp := config.cmdCdp && isCdpPacket m
    reading ((if config.cmdCdp then [⟨0, 6⟩] else []) ++ [⟨12, 2⟩]) <|
      if ntohs m 12 < 1514 then
        reading [⟨20, 2⟩]
          (receiveProtocol config m iscdp (ntohs m 20) vlanNone e802HdrSize (len - e802HdrSize))
      else if ntohs m 12 ≠ protVlan then
        receiveProtocol config m iscdp (ntohs m 12) vlanNone etherHdrSize (len - etherHdrSize)
      else if len < vlanEtherHdrSize then ends .dropped
      else if vlanId config.ourVlan.toNat = vlanNone ∧ ¬iscdp then ends .dropped
      else
        reading [⟨14, 2⟩, ⟨16, 2⟩]
          (receiveProtocol config m iscdp (ntohs m 16) (vlanId (ntohs m 14)) vlanEtherHdrSize
            (len - vlanEtherHdrSize))

/-! ## Which packets are delivered -/

/-- The frame carries an IP packet at `ip` for the configured VLAN. -/
def CarriesIp (config : Config) (m : Memory) (len ip : Nat) : Prop :=
  etherHdrSize ≤ len ∧ config.pushPacket = false ∧ (config.cmdCdp && isCdpPacket m) = false ∧
    (ip = e802HdrSize ∧ ntohs m 12 < 1514 ∧ ntohs m 20 = protIp ∧
        wrongVlan config vlanNone = false ∨
      ip = etherHdrSize ∧ ntohs m 12 = protIp ∧ wrongVlan config vlanNone = false ∨
      ip = vlanEtherHdrSize ∧ ntohs m 12 = protVlan ∧ vlanEtherHdrSize ≤ len ∧
        vlanId config.ourVlan.toNat ≠ vlanNone ∧ ntohs m 16 = protIp ∧
        wrongVlan config (vlanId (ntohs m 14)) = false)

/-- The IP packet is a UDP datagram that passes every check. -/
structure AcceptsUdp (config : Config) (m : Memory) (ip : Nat) (len : Int) : Prop where
  headers : (ipUdpHdrSize : Int) ≤ len
  whole : (ntohs m (ip + 2) : Int) ≤ len
  version : m ip &&& 0xf0 = 0x40
  options : ¬m ip &&& 0x0f > 0x05
  checksum : ipChecksumOk m ip ipHdrSize = true
  addressed : forUs config m ip = true
  unfragmented : isFragment m ip = false
  protocol : m (ip + 9) = ipprotoUdp
  udpChecksum : config.udpChecksum = true → ntohs m (ip + 26) ≠ 0 → udpChecksumOk m ip = true

section Read

variable {config : Config} {m : Memory} {ip : Nat} {len : Int}

@[simp] theorem reading_reads (fields : List Span) (receipt : Receipt) :
    (reading fields receipt).reads = fields ++ receipt.reads := rfl

@[simp] theorem reading_delivery (fields : List Span) (receipt : Receipt) :
    (reading fields receipt).delivery = receipt.delivery := rfl

@[simp] theorem ends_reads (delivery : Delivery) : (ends delivery).reads = [] := rfl

@[simp] theorem ends_delivery (delivery : Delivery) : (ends delivery).delivery = delivery := rfl

/-- The fields read lie in the headers of the packet at `ip`. -/
def InHeaders (ip : Nat) (receipt : Receipt) : Prop :=
  ∀ field ∈ receipt.reads, field.Inside ip (ip + ipUdpHdrSize)

theorem InHeaders.reading {fields : List Span} {receipt : Receipt}
    (own : ∀ field ∈ fields, field.Inside ip (ip + ipUdpHdrSize)) (rest : InHeaders ip receipt) :
    InHeaders ip (reading fields receipt) := by
  intro field member
  rcases List.mem_append.mp member with first | later
  · exact own field first
  · exact rest field later

theorem inHeaders_ends (ip : Nat) (delivery : Delivery) : InHeaders ip (ends delivery) := by
  intro field member
  cases member

theorem InHeaders.ite {c : Prop} [Decidable c] {ip : Nat} {left right : Receipt}
    (yes : InHeaders ip left) (no : InHeaders ip right) :
    InHeaders ip (if c then left else right) := by
  split
  · exact yes
  · exact no

theorem receiveUdp_inHeaders (config : Config) (m : Memory) (ip : Nat) :
    InHeaders ip (receiveUdp config m ip) := by
  have deliver (delivery : Delivery) :
      InHeaders ip (reading [⟨ip + 22, 2⟩, ⟨ip + 20, 2⟩, ⟨ip + 24, 2⟩] (ends delivery)) := by
    apply InHeaders.reading _ (inHeaders_ends ip delivery)
    simp only [List.mem_cons, List.not_mem_nil, or_false, Span.Inside, ipUdpHdrSize]
    rintro field (rfl | rfl | rfl) <;> simp
  unfold receiveUdp
  refine .ite (.reading ?_ (.ite (.reading ?_ (.ite (deliver _) (inHeaders_ends ip _)))
    (deliver _))) (deliver _)
  · simp [Span.Inside, ipUdpHdrSize]
  · simp [Span.Inside, ipUdpHdrSize]

theorem receiveIp_inHeaders (config : Config) (m : Memory) (ip : Nat) (len : Int) :
    InHeaders ip (receiveIp config m ip len) := by
  have field {start length : Nat} (fits : start + length ≤ 28) :
      ∀ field ∈ [(⟨ip + start, length⟩ : Span)], field.Inside ip (ip + ipUdpHdrSize) := by
    intro field member
    rw [List.mem_singleton.mp member]
    simp only [Span.Inside, ipUdpHdrSize]
    omega
  unfold receiveIp
  refine .ite (inHeaders_ends ip _) (.reading (field (by decide)) ?_)
  refine .ite (inHeaders_ends ip _) (.reading (field (show 0 + 1 ≤ 28 by decide)) ?_)
  refine .ite (inHeaders_ends ip _) (.ite (inHeaders_ends ip _) ?_)
  refine .reading (field (show 0 + ipHdrSize ≤ 28 by decide)) ?_
  refine .ite (inHeaders_ends ip _) (.reading (field (by decide)) ?_)
  refine .ite (inHeaders_ends ip _) (.reading ?_ ?_)
  · simp [Span.Inside, ipUdpHdrSize]
  refine .ite (inHeaders_ends ip _) (.reading (field (by decide)) ?_)
  exact .ite (inHeaders_ends ip _) (.ite (inHeaders_ends ip _) (receiveUdp_inHeaders config m ip))

theorem receiveIp_reads_short (config : Config) (m : Memory) (ip : Nat) {len : Int} (low : 0 ≤ len)
    (short : len < ipUdpHdrSize) : (receiveIp config m ip len).reads = [] := by
  rw [receiveIp, if_pos ⟨low, short⟩]
  rfl

theorem receiveUdp_delivered
    (right : config.udpChecksum = true → ntohs m (ip + 26) ≠ 0 → udpChecksumOk m ip = true) :
    (receiveUdp config m ip).delivery =
      .udp config.netconsole (ip + ipUdpHdrSize) ((ntohs m (ip + 24) : Int) - udpHdrSize) := by
  rw [receiveUdp]
  by_cases summed : config.udpChecksum = true
  · by_cases present : ntohs m (ip + 26) ≠ 0
    · rw [if_pos summed, if_pos present, if_pos (right summed present)]
      rfl
    · rw [if_pos summed, if_neg present]
      rfl
  · rw [if_neg summed]
    rfl

theorem receiveUdp_dropped
    (wrong : ¬(config.udpChecksum = true → ntohs m (ip + 26) ≠ 0 → udpChecksumOk m ip = true)) :
    (receiveUdp config m ip).delivery = .dropped := by
  simp only [Classical.not_imp] at wrong
  obtain ⟨summed, present, failed⟩ := wrong
  rw [receiveUdp]
  rw [if_pos summed, if_pos present, if_neg failed]
  rfl

theorem receiveUdp_delivery (netconsole : Bool) (pkt : Nat) (n : Int) :
    (receiveUdp config m ip).delivery = .udp netconsole pkt n ↔
      (config.udpChecksum = true → ntohs m (ip + 26) ≠ 0 → udpChecksumOk m ip = true) ∧
        config.netconsole = netconsole ∧ ip + ipUdpHdrSize = pkt ∧
        (ntohs m (ip + 24) : Int) - udpHdrSize = n := by
  by_cases right : config.udpChecksum = true → ntohs m (ip + 26) ≠ 0 → udpChecksumOk m ip = true
  · rw [receiveUdp_delivered right, Delivery.udp.injEq]
    exact (and_iff_right right).symm
  · rw [receiveUdp_dropped right]
    exact iff_of_false Delivery.noConfusion fun all => right all.1

variable (config m ip len) in
/-- The packet passes the checks of the IP part. -/
structure PassesIp : Prop where
  headers : ¬(0 ≤ len ∧ len < ipUdpHdrSize)
  whole : ¬len < ntohs m (ip + 2)
  version : m ip &&& 0xf0 = 0x40
  options : ¬m ip &&& 0x0f > 0x05
  checksum : ipChecksumOk m ip ipHdrSize = true
  addressed : forUs config m ip = true

theorem passesIp_of_delivery (kept : (receiveIp config m ip len).delivery ≠ .dropped) :
    PassesIp config m ip len := by
  rw [receiveIp] at kept
  by_cases headers : 0 ≤ len ∧ len < ipUdpHdrSize
  · exact absurd rfl (if_pos headers ▸ kept)
  rw [if_neg headers, reading_delivery] at kept
  by_cases whole : len < ntohs m (ip + 2)
  · exact absurd rfl (if_pos whole ▸ kept)
  rw [if_neg whole, reading_delivery] at kept
  by_cases version : m ip &&& 0xf0 ≠ 0x40
  · exact absurd rfl (if_pos version ▸ kept)
  rw [if_neg version] at kept
  by_cases options : m ip &&& 0x0f > 0x05
  · exact absurd rfl (if_pos options ▸ kept)
  rw [if_neg options, reading_delivery] at kept
  by_cases checksum : ¬ipChecksumOk m ip ipHdrSize
  · exact absurd rfl (if_pos checksum ▸ kept)
  rw [if_neg checksum, reading_delivery] at kept
  by_cases addressed : ¬forUs config m ip
  · exact absurd rfl (if_pos addressed ▸ kept)
  exact ⟨headers, whole, not_not.mp version, options, not_not.mp checksum, not_not.mp addressed⟩

theorem receiveIp_passed (passes : PassesIp config m ip len) :
    (receiveIp config m ip len).delivery =
      if isFragment m ip then .fragment ip (ntohs m (ip + 2))
      else if m (ip + 9) = ipprotoIcmp then .icmp ip (ntohs m (ip + 2))
      else if m (ip + 9) ≠ ipprotoUdp then .dropped
      else (receiveUdp config m ip).delivery := by
  rw [receiveIp, if_neg passes.headers, reading_delivery, if_neg passes.whole, reading_delivery,
    if_neg (not_not.mpr passes.version), if_neg passes.options, reading_delivery,
    if_neg (not_not.mpr passes.checksum), reading_delivery,
    if_neg (not_not.mpr passes.addressed), reading_delivery, apply_ite Receipt.delivery,
    reading_delivery, apply_ite Receipt.delivery, apply_ite Receipt.delivery]
  rfl

/-- The IP part delivers exactly the UDP datagrams that pass every check. -/
theorem receiveIp_delivery (netconsole : Bool) (pkt : Nat) (n : Int) :
    (receiveIp config m ip len).delivery = .udp netconsole pkt n ↔
      AcceptsUdp config m ip len ∧ config.netconsole = netconsole ∧ ip + ipUdpHdrSize = pkt ∧
        (ntohs m (ip + 24) : Int) - udpHdrSize = n := by
  constructor
  · intro delivered
    have passes : PassesIp config m ip len := passesIp_of_delivery fun none => by
      rw [none] at delivered
      cases delivered
    have headers := passes.headers
    have whole := passes.whole
    rw [receiveIp_passed passes] at delivered
    split at delivered
    · cases delivered
    rename_i unfragmented
    split at delivered
    · cases delivered
    split at delivered
    · cases delivered
    rename_i protocol
    obtain ⟨udpChecksum, rest⟩ := (receiveUdp_delivery netconsole pkt n).mp delivered
    refine ⟨⟨by omega, by omega, passes.version, passes.options, passes.checksum,
      passes.addressed, ?_, not_not.mp protocol, udpChecksum⟩, rest⟩
    simpa using unfragmented
  · rintro ⟨accepts, rest⟩
    have passes : PassesIp config m ip len := by
      have := accepts.headers
      exact ⟨by omega, not_lt.mpr accepts.whole, accepts.version, accepts.options,
        accepts.checksum, accepts.addressed⟩
    have notIcmp : m (ip + 9) ≠ ipprotoIcmp := by
      rw [accepts.protocol]
      decide
    rw [receiveIp_passed passes, if_neg (by simp [accepts.unfragmented]), if_neg notIcmp,
      if_neg (not_not.mpr accepts.protocol)]
    exact (receiveUdp_delivery netconsole pkt n).mpr ⟨accepts.udpChecksum, rest⟩

theorem receiveProtocol_delivery {iscdp : Bool} {ethProto vlanid : Nat} (netconsole : Bool)
    (pkt : Nat) (n : Int) :
    (receiveProtocol config m iscdp ethProto vlanid ip len).delivery = .udp netconsole pkt n ↔
      iscdp = false ∧ wrongVlan config vlanid = false ∧ ethProto = protIp ∧
        (receiveIp config m ip len).delivery = .udp netconsole pkt n := by
  unfold receiveProtocol
  cases iscdp with
  | true => simp
  | false =>
    cases wrongVlan config vlanid with
    | true => simp
    | false =>
      by_cases isIp : ethProto = protIp
      · have notArp : ¬protIp = protArp := by decide
        have notRarp : ¬(config.cmdRarp = true ∧ protIp = protRarp) := by
          rintro ⟨-, same⟩
          exact absurd same (by decide)
        simp [isIp, notArp, notRarp]
      · simp only [Bool.false_eq_true, ↓reduceIte, isIp, false_and, and_false, iff_false]
        split
        · simp
        · split <;> simp

theorem receiveProtocol_reads (iscdp : Bool) (ethProto vlanid : Nat) :
    (receiveProtocol config m iscdp ethProto vlanid ip len).reads = [] ∨
      (receiveProtocol config m iscdp ethProto vlanid ip len).reads =
        (receiveIp config m ip len).reads := by
  unfold receiveProtocol
  split
  · exact .inl rfl
  split
  · exact .inl rfl
  split
  · exact .inl rfl
  split
  · exact .inl rfl
  split
  · exact .inr rfl
  · exact .inl rfl

theorem receiveProtocol_inside (iscdp : Bool) (ethProto vlanid : Nat) {frame : Nat}
    (there : ip ≤ frame) :
    ∀ field ∈ (receiveProtocol config m iscdp ethProto vlanid ip ((frame : Int) - ip)).reads,
      field.Inside 0 frame := by
  intro field member
  rcases @receiveProtocol_reads config m ip ((frame : Int) - ip) iscdp ethProto vlanid with
    none | same
  · rw [none] at member
    cases member
  · rw [same] at member
    by_cases short : (frame : Int) - ip < ipUdpHdrSize
    · rw [receiveIp_reads_short config m ip (by omega) short] at member
      cases member
    · have inside := receiveIp_inHeaders config m ip ((frame : Int) - ip) field member
      unfold Span.Inside at inside ⊢
      omega

end Read

/-! ## Inside the frame -/

/-- No header field is read behind the frame, and a payload given to the UDP handler or the network
console lies inside the IP packet, which lies inside the frame. -/
def StaysInside (config : Config) (m : Memory) (len : Nat) : Prop :=
  (∀ field ∈ (netProcessReceivedPacket config m len).reads, field.Inside 0 len) ∧
    ∀ netconsole pkt n, (netProcessReceivedPacket config m len).delivery = .udp netconsole pkt n →
      0 ≤ n ∧ ∃ ip, pkt = ip + ipUdpHdrSize ∧ ip + ntohs m (ip + 2) ≤ len ∧
        (pkt : Int) + n ≤ ip + ntohs m (ip + 2)

/-- An 802.2 frame without all of its header. -/
def Short802 (config : Config) (m : Memory) (len : Nat) : Prop :=
  config.pushPacket = false ∧ etherHdrSize ≤ len ∧ len < e802HdrSize ∧ ntohs m 12 < 1514

/-- The UDP length is one that the IP packet has room for. -/
def UdpLengthFits (m : Memory) (ip : Nat) : Prop :=
  udpHdrSize ≤ ntohs m (ip + 24) ∧ ipHdrSize + ntohs m (ip + 24) ≤ ntohs m (ip + 2)

/-- The function delivers exactly the UDP datagrams that frames carry and that pass every check. -/
theorem netProcessReceivedPacket_delivery {config : Config} {m : Memory} {len : Nat}
    (netconsole : Bool) (pkt : Nat) (n : Int) :
    (netProcessReceivedPacket config m len).delivery = .udp netconsole pkt n ↔
      ∃ ip, CarriesIp config m len ip ∧ AcceptsUdp config m ip ((len : Int) - ip) ∧
        config.netconsole = netconsole ∧ ip + ipUdpHdrSize = pkt ∧
        (ntohs m (ip + 24) : Int) - udpHdrSize = n := by
  unfold netProcessReceivedPacket CarriesIp
  by_cases small : len < etherHdrSize
  · simp [small, not_le.mpr small]
  by_cases pushed : config.pushPacket = true
  · simp [small, pushed]
  have notPushed : config.pushPacket = false := by simpa using pushed
  have enough : etherHdrSize ≤ len := not_lt.mp small
  by_cases e802 : ntohs m 12 < 1514
  · have notIp : ntohs m 12 ≠ protIp := by
      unfold protIp
      omega
    have notVlan : ntohs m 12 ≠ protVlan := by
      unfold protVlan
      omega
    simp only [if_neg small, notPushed, Bool.false_eq_true, ↓reduceIte, reading_delivery,
      receiveProtocol_delivery, receiveIp_delivery, enough, e802, notIp, notVlan,
      true_and, false_and, and_false, or_false]
    constructor
    · rintro ⟨notCdp, vlan, isIp, accepts, rest⟩
      exact ⟨e802HdrSize, ⟨notCdp, rfl, isIp, vlan⟩, accepts, rest⟩
    · rintro ⟨ip, ⟨notCdp, rfl, isIp, vlan⟩, accepts, rest⟩
      exact ⟨notCdp, vlan, isIp, accepts, rest⟩
  by_cases tagged : ntohs m 12 = protVlan
  · have notIp : protVlan ≠ protIp := by decide
    have wide : ¬protVlan < 1514 := by decide
    simp only [if_neg small, notPushed, Bool.false_eq_true, ↓reduceIte, reading_delivery, enough,
      wide, tagged, ne_eq, not_true_eq_false, notIp, true_and, false_and, and_false,
      false_or]
    by_cases short : len < vlanEtherHdrSize
    · simp [short, not_le.mpr short]
    by_cases inactive : vlanId config.ourVlan.toNat = vlanNone
    · cases cdp : (config.cmdCdp && isCdpPacket m) with
      | true => simp [short, inactive, receiveProtocol_delivery]
      | false => simp [short, inactive]
    · simp only [if_neg short, inactive, false_and, ↓reduceIte, reading_delivery,
        receiveProtocol_delivery, receiveIp_delivery, not_lt.mp short, not_false_eq_true, true_and]
      constructor
      · rintro ⟨notCdp, vlan, isIp, accepts, rest⟩
        exact ⟨vlanEtherHdrSize, ⟨notCdp, rfl, isIp, vlan⟩, accepts, rest⟩
      · rintro ⟨ip, ⟨notCdp, rfl, isIp, vlan⟩, accepts, rest⟩
        exact ⟨notCdp, vlan, isIp, accepts, rest⟩
  · simp only [if_neg small, notPushed, Bool.false_eq_true, ↓reduceIte, reading_delivery, enough,
      e802, tagged, ne_eq, not_false_eq_true, receiveProtocol_delivery, receiveIp_delivery,
      true_and, false_and, and_false, false_or, or_false]
    constructor
    · rintro ⟨notCdp, vlan, isIp, accepts, rest⟩
      exact ⟨etherHdrSize, ⟨notCdp, rfl, isIp, vlan⟩, accepts, rest⟩
    · rintro ⟨ip, ⟨notCdp, rfl, isIp, vlan⟩, accepts, rest⟩
      exact ⟨notCdp, vlan, isIp, accepts, rest⟩

/-- The function reads behind the frame exactly when that is an 802.2 frame without all of its
header. -/
theorem netProcessReceivedPacket_reads {config : Config} {m : Memory} {len : Nat} :
    (∀ field ∈ (netProcessReceivedPacket config m len).reads, field.Inside 0 len) ↔
      ¬Short802 config m len := by
  unfold netProcessReceivedPacket Short802
  by_cases small : len < etherHdrSize
  · simp [small, not_le.mpr small]
  by_cases pushed : config.pushPacket = true
  · simp [small, pushed]
  have notPushed : config.pushPacket = false := by simpa using pushed
  have enough : etherHdrSize ≤ len := not_lt.mp small
  have first : ∀ field ∈ (if config.cmdCdp then [⟨0, 6⟩] else []) ++ [(⟨12, 2⟩ : Span)],
      field.Inside 0 len := by
    intro field member
    have bounds : field.start + field.length ≤ 14 := by
      rcases List.mem_append.mp member with cdp | proto
      · split at cdp
        · rw [List.mem_singleton.mp cdp]
          decide
        · cases cdp
      · rw [List.mem_singleton.mp proto]
        decide
    unfold etherHdrSize at enough
    unfold Span.Inside
    omega
  have rest {receipt : Receipt} :
      (∀ field ∈ (reading ((if config.cmdCdp then [⟨0, 6⟩] else []) ++ [⟨12, 2⟩]) receipt).reads,
        field.Inside 0 len) ↔ ∀ field ∈ receipt.reads, field.Inside 0 len := by
    rw [reading_reads, List.forall_mem_append]
    exact ⟨fun both => both.2, fun behind => ⟨first, behind⟩⟩
  simp only [if_neg small, notPushed, Bool.false_eq_true, ↓reduceIte, rest, enough, true_and]
  by_cases e802 : ntohs m 12 < 1514
  · simp only [e802, ↓reduceIte, reading_reads, List.forall_mem_append, and_true, not_lt]
    constructor
    · rintro ⟨header, -⟩
      have inside := header ⟨20, 2⟩ (List.mem_singleton_self _)
      simp only [Span.Inside] at inside
      unfold e802HdrSize
      omega
    · intro there
      refine ⟨?_, receiveProtocol_inside _ _ _ there⟩
      intro field member
      rw [List.mem_singleton.mp member]
      unfold e802HdrSize at there
      simp only [Span.Inside]
      omega
  · simp only [e802, and_false, not_false_eq_true, iff_true, ↓reduceIte]
    split
    · exact receiveProtocol_inside _ _ _ enough
    split
    · simp
    rename_i long
    split
    · simp
    · rw [reading_reads, List.forall_mem_append]
      refine ⟨?_, receiveProtocol_inside _ _ _ (not_lt.mp long)⟩
      unfold vlanEtherHdrSize at long
      simp only [List.mem_cons, List.not_mem_nil, or_false, Span.Inside]
      rintro field (rfl | rfl) <;> simp only <;> omega

/-- Everything stays inside exactly when the frame is not an 802.2 frame without all of its header,
and the UDP length of a datagram that is delivered fits the IP packet. -/
theorem netProcessReceivedPacket_inside (config : Config) (m : Memory) (len : Nat) :
    StaysInside config m len ↔ ¬Short802 config m len ∧
      ∀ ip, CarriesIp config m len ip → AcceptsUdp config m ip ((len : Int) - ip) →
        UdpLengthFits m ip := by
  unfold StaysInside
  rw [netProcessReceivedPacket_reads]
  apply and_congr_right
  intro _
  unfold UdpLengthFits
  constructor
  · intro inside ip carries accepts
    have delivered := (netProcessReceivedPacket_delivery config.netconsole (ip + ipUdpHdrSize)
      ((ntohs m (ip + 24) : Int) - udpHdrSize)).mpr ⟨ip, carries, accepts, rfl, rfl, rfl⟩
    obtain ⟨positive, ip', place, -, fits⟩ := inside _ _ _ delivered
    have same : ip' = ip := by omega
    subst same
    unfold udpHdrSize ipHdrSize at *
    unfold ipUdpHdrSize at fits
    omega
  · intro fits netconsole pkt n delivered
    obtain ⟨ip, carries, accepts, -, rfl, rfl⟩ :=
      (netProcessReceivedPacket_delivery netconsole pkt n).mp delivered
    obtain ⟨low, high⟩ := fits ip carries accepts
    have whole := accepts.whole
    unfold udpHdrSize ipHdrSize at *
    unfold ipUdpHdrSize
    exact ⟨by omega, ip, rfl, by omega, by omega⟩

/-- A configuration without VLAN, address and options. -/
def plainConfig : Config :=
  ⟨false, false, false, false, false, 0xffff, 0xffff, 0, none⟩

/-- A broadcast UDP datagram of 28 bytes in a plain Ethernet frame. -/
def datagram (udpLen : UInt8) : Memory := fun a =>
  [0xff, 0xff, 0xff, 0xff, 0xff, 0xff, 0x02, 0x00, 0x00, 0x00, 0x00, 0x01, 0x08, 0x00,
    0x45, 0x00, 0x00, 0x1c, 0x00, 0x00, 0x00, 0x00, 0x40, 0x11, 0x70, 0xd1,
    0x0a, 0x00, 0x00, 0x01, 0xff, 0xff, 0xff, 0xff,
    0x04, 0x00, 0x00, 0x45, 0x00, udpLen, 0x00, 0x00].getD a 0

/-- With a UDP length of 200 its payload is 192 bytes long, all of them behind the frame. -/
theorem netProcessReceivedPacket_outside : ¬StaysInside plainConfig (datagram 200) 42 := by
  rintro ⟨-, inside⟩
  have delivered : (netProcessReceivedPacket plainConfig (datagram 200) 42).delivery =
      .udp false 42 192 := by decide +kernel
  obtain ⟨-, ip, place, whole, fits⟩ := inside false 42 192 delivered
  unfold ipUdpHdrSize at place
  omega

end HrppBoot.Net
