import HrppBoot.Disk.Gpt
import HrppBoot.Net.DhcpInside
import HrppBoot.Net.Receive

/-!
# DHCP requests

`dhcp_extended` writes the options of a request one behind the other, some of them only when an
address or a variable is set. The length of the host name is a byte, so that the area is a list of
options, and one that decodes to what was put in, exactly for names of 1 to 255 characters. Such
requests fit the transmit buffer.
-/

namespace HrppBoot.Net

open ByteMemory Disk

/-! ## The functions -/

/-- How requests are configured: the options `CONFIG_BOOTP_…`. -/
structure BootpConfig where
  sendHostname : Bool
  /-- `CONFIG_BOOTP_PXE_CLIENTARCH`, with `CONFIG_BOOTP_PXE`. -/
  pxeClientarch : Option UInt16
  vciString : Option (List UInt8)
  /-- The string has as many characters as a byte counts, and some. -/
  vciShort : ∀ vci ∈ vciString, 0 < vci.length ∧ vci.length < 256
  subnetmask : Bool
  timeoffset : Bool
  gateway : Bool
  dns : Bool
  hostname : Bool
  bootfilesize : Bool
  bootpath : Bool
  nisdomain : Bool
  ntpserver : Bool

/-- The parameters that are asked for. -/
def BootpConfig.parameters (config : BootpConfig) : List UInt8 :=
  (if config.subnetmask then [1] else []) ++ ((if config.timeoffset then [2] else []) ++
    ((if config.gateway then [3] else []) ++ ((if config.dns then [6] else []) ++
      ((if config.hostname then [12] else []) ++ ((if config.bootfilesize then [13] else []) ++
        ((if config.bootpath then [17] else []) ++ ((if config.nisdomain then [40] else []) ++
          (if config.ntpserver then [42] else []))))))))

/-- The bytes of an address, which is given in host order. -/
def octets (ip : UInt32) : List UInt8 :=
  [(ip >>> 24).toUInt8, (ip >>> 16).toUInt8, (ip >>> 8).toUInt8, ip.toUInt8]

/-- An option with an address that is not zero. -/
def addressOption (code : UInt8) (ip : UInt32) : List UInt8 :=
  if ip ≠ 0 then code :: 4 :: octets ip else []

/-- An option with a text, whose length is cut to a byte. -/
def textOption (code : UInt8) : Option (List UInt8) → List UInt8
  | some text => code :: UInt8.ofNat text.length :: text
  | none => []

/-- `CONFIG_BOOTP_PXE`: the architecture, the interface, and a valid `pxeuuid`. -/
def pxeOptions (pxeuuid : Option (List UInt8)) : Option UInt16 → List UInt8
  | some clientarch =>
    93 :: 2 :: (clientarch >>> 8).toUInt8 :: clientarch.toUInt8 :: ([94, 3, 1, 0, 0] ++
      match pxeuuid.bind fun uuid => uuidStrToBin uuid .std with
      | some uuid => [97, 17, 0] ++ uuid.bytes
      | none => [])
  | none => []

/-- The parameter request list, which is taken back when it is empty. -/
def parameterOption (parameters : List UInt8) : List UInt8 :=
  if parameters = [] then [] else 55 :: UInt8.ofNat parameters.length :: parameters

/-- `CONFIG_DHCP_MIN_EXT_LEN`. -/
def dhcpMinExtLen : Nat := 64

/-- The host name that is sent. -/
def BootpConfig.sent (config : BootpConfig) (hostname : Option (List UInt8)) :
    Option (List UInt8) :=
  if config.sendHostname then hostname else none

/-- The options of `dhcp_extended` up to the end option. -/
def extendedOptions (config : BootpConfig) (message_type : UInt8) (server_ip requested_ip : UInt32)
    (hostname pxeuuid : Option (List UInt8)) : List UInt8 :=
  [53, 1, message_type] ++ ([57, 2, 2, 64] ++ (addressOption 54 server_ip ++
    (addressOption 50 requested_ip ++ (textOption 12 (config.sent hostname) ++
      (pxeOptions pxeuuid config.pxeClientarch ++ (textOption 60 config.vciString ++
        (parameterOption config.parameters ++ [255])))))))

def dhcpExtended (config : BootpConfig) (message_type : UInt8) (server_ip requested_ip : UInt32)
    (hostname pxeuuid : Option (List UInt8)) : List UInt8 :=
  let e := bootpVendorMagic ++
    extendedOptions config message_type server_ip requested_ip hostname pxeuuid
  e ++ List.replicate (dhcpMinExtLen - e.length) 0

/-- What `net_set_ether` returns. -/
def setEtherSize (vlan : Bool) : Nat := if vlan then vlanEtherHdrSize else etherHdrSize

def pktSize : Nat := 1518

/-- The length of the packet that `dhcp_send_request_packet` sends. -/
def requestLength (vlan : Bool) (extlen : Nat) : Nat :=
  setEtherSize vlan + ipUdpHdrSize + (bootpHdrSize - optFieldSize + extlen)

/-! ## What they are for -/

/-- The values of the options with a code. -/
def valuesOf (code : UInt8) (options : List DhcpOption) : List (List UInt8) :=
  (options.filter (·.code = code)).map (·.value)

/-- The value of an address that is not zero. -/
def addressValues (ip : UInt32) : List (List UInt8) := if ip ≠ 0 then [octets ip] else []

/-- An option area is a list of options, and they are what was put in. -/
def DecodesTo (area : List UInt8) (message_type : UInt8) (server_ip requested_ip : UInt32)
    (hostname : Option (List UInt8)) : Prop :=
  ∃ (options : List DhcpOption) (pad : Nat),
    area = bootpVendorMagic ++ (optionArea options ++ List.replicate pad 0) ∧
      valuesOf 53 options = [[message_type]] ∧ valuesOf 54 options = addressValues server_ip ∧
      valuesOf 50 options = addressValues requested_ip ∧
      valuesOf 12 options = hostname.toList

/-! ## Lists of options -/

theorem optionArea_append (first second : List DhcpOption) :
    optionArea (first ++ second) = first.flatMap DhcpOption.encode ++ optionArea second := by
  induction first with
  | nil => rfl
  | cons o rest ih =>
    rw [List.cons_append, optionArea, ih, List.flatMap_cons, List.append_assoc]

theorem valuesOf_append (code : UInt8) (first second : List DhcpOption) :
    valuesOf code (first ++ second) = valuesOf code first ++ valuesOf code second := by
  rw [valuesOf, List.filter_append, List.map_append, valuesOf, valuesOf]

variable {code : UInt8} {options : List DhcpOption}

theorem optionArea_begins {size : UInt8} {pad tail : List UInt8} (running : code ≠ 255)
    (area : optionArea options ++ pad = code :: size :: tail) :
    ∃ o rest, options = o :: rest ∧ o.code = code ∧ UInt8.ofNat o.value.length = size ∧
      o.value ++ (optionArea rest ++ pad) = tail := by
  cases options with
  | nil =>
    rw [optionArea, List.singleton_append, List.cons.injEq] at area
    exact absurd area.1.symm running
  | cons o rest =>
    rw [optionArea, DhcpOption.encode, List.cons_append, List.cons_append, List.cons_append,
      List.cons_append, List.cons.injEq, List.cons.injEq, List.append_assoc] at area
    exact ⟨o, rest, rfl, area⟩

theorem DhcpOption.toNat_length (o : DhcpOption) :
    (UInt8.ofNat o.value.length).toNat = o.value.length :=
  UInt8.toNat_ofNat_of_lt o.short

theorem optionArea_prefix (front : List DhcpOption) {pad tail : List UInt8}
    (area : optionArea options ++ pad = front.flatMap DhcpOption.encode ++ tail) :
    ∃ rest, options = front ++ rest ∧ optionArea rest ++ pad = tail := by
  induction front generalizing options with
  | nil => exact ⟨options, rfl, area⟩
  | cons o front ih =>
    rw [List.flatMap_cons, List.append_assoc, DhcpOption.encode, List.cons_append,
      List.cons_append] at area
    obtain ⟨other, rest, rfl, code, size, value⟩ := optionArea_begins o.code_ne_end area
    have length : other.value.length = o.value.length := by
      have bytes := congrArg UInt8.toNat size
      rwa [other.toNat_length, o.toNat_length] at bytes
    obtain ⟨same, behind⟩ := List.append_inj value length
    obtain ⟨last, rfl, tail⟩ := ih behind
    have equal : other = o := by
      cases other
      cases o
      cases code
      cases same
      rfl
    exact ⟨last, by rw [equal, List.cons_append], tail⟩

theorem valuesOf_cons (code : UInt8) (o : DhcpOption) (rest : List DhcpOption) :
    valuesOf code (o :: rest) =
      if o.code = code then o.value :: valuesOf code rest else valuesOf code rest := by
  unfold valuesOf
  by_cases same : o.code = code
  · rw [if_pos same, List.filter_cons_of_pos (by simpa using same), List.map_cons]
  · rw [if_neg same, List.filter_cons_of_neg (by simpa using same)]

theorem valuesOf_of_ne (other : ∀ o ∈ options, o.code ≠ code) : valuesOf code options = [] := by
  induction options with
  | nil => rfl
  | cons o rest ih =>
    obtain ⟨first, later⟩ := List.forall_mem_cons.mp other
    rw [valuesOf_cons, if_neg first, ih later]

/-! ## The options of a request -/

/-- The message type. -/
def typeOption (message_type : UInt8) : DhcpOption :=
  ⟨53, [message_type], show 1 < 256 by decide, rfl⟩

/-- The greatest size of a message. -/
def sizeOption : DhcpOption := ⟨57, [2, 64], show 2 < 256 by decide, trivial⟩

/-- The server. -/
def serverOption (ip : UInt32) : DhcpOption := ⟨54, octets ip, show 4 < 256 by decide, rfl⟩

/-- The requested address. -/
def requestedOption (ip : UInt32) : DhcpOption :=
  ⟨50, octets ip, show 4 < 256 by decide, trivial⟩

/-- The options in front of the host name. -/
def frontOptions (message_type : UInt8) (server_ip requested_ip : UInt32) : List DhcpOption :=
  [typeOption message_type, sizeOption] ++
    ((if server_ip ≠ 0 then [serverOption server_ip] else []) ++
      if requested_ip ≠ 0 then [requestedOption requested_ip] else [])

theorem encode_frontOptions (message_type : UInt8) (server_ip requested_ip : UInt32) :
    (frontOptions message_type server_ip requested_ip).flatMap DhcpOption.encode =
      [53, 1, message_type] ++ ([57, 2, 2, 64] ++ (addressOption 54 server_ip ++
        addressOption 50 requested_ip)) := by
  unfold frontOptions addressOption
  rw [List.flatMap_append, List.flatMap_append]
  by_cases server : server_ip ≠ 0
  · rw [if_pos server, if_pos server]
    by_cases requested : requested_ip ≠ 0
    · rw [if_pos requested, if_pos requested]
      rfl
    · rw [if_neg requested, if_neg requested]
      rfl
  · rw [if_neg server, if_neg server]
    by_cases requested : requested_ip ≠ 0
    · rw [if_pos requested, if_pos requested]
      rfl
    · rw [if_neg requested, if_neg requested]
      rfl

theorem valuesOf_frontOptions (message_type : UInt8) (server_ip requested_ip : UInt32) :
    valuesOf 53 (frontOptions message_type server_ip requested_ip) = [[message_type]] ∧
      valuesOf 54 (frontOptions message_type server_ip requested_ip) = addressValues server_ip ∧
      valuesOf 50 (frontOptions message_type server_ip requested_ip) =
        addressValues requested_ip ∧
      valuesOf 12 (frontOptions message_type server_ip requested_ip) = [] := by
  unfold frontOptions addressValues
  by_cases server : server_ip ≠ 0
  · rw [if_pos server, if_pos server]
    by_cases requested : requested_ip ≠ 0
    · rw [if_pos requested, if_pos requested]
      exact ⟨rfl, rfl, rfl, rfl⟩
    · rw [if_neg requested, if_neg requested]
      exact ⟨rfl, rfl, rfl, rfl⟩
  · rw [if_neg server, if_neg server]
    by_cases requested : requested_ip ≠ 0
    · rw [if_pos requested, if_pos requested]
      exact ⟨rfl, rfl, rfl, rfl⟩
    · rw [if_neg requested, if_neg requested]
      exact ⟨rfl, rfl, rfl, rfl⟩

/-- The options that are decoded. -/
def decodedCodes : List UInt8 := [53, 54, 50, 12]

/-- Bytes are options other than those. -/
def OtherOptions (bytes : List UInt8) : Prop :=
  ∃ options : List DhcpOption, options.flatMap DhcpOption.encode = bytes ∧
    ∀ o ∈ options, o.code ∉ decodedCodes

theorem otherOptions_nil : OtherOptions [] := ⟨[], rfl, fun _ none => absurd none List.not_mem_nil⟩

theorem otherOptions_encode {o : DhcpOption} (other : o.code ∉ decodedCodes) :
    OtherOptions o.encode :=
  ⟨[o], List.append_nil _, List.forall_mem_singleton.mpr other⟩

theorem OtherOptions.append {first second : List UInt8} (left : OtherOptions first)
    (right : OtherOptions second) : OtherOptions (first ++ second) := by
  obtain ⟨front, rfl, early⟩ := left
  obtain ⟨back, rfl, late⟩ := right
  exact ⟨front ++ back, List.flatMap_append, List.forall_mem_append.mpr ⟨early, late⟩⟩

theorem otherOptions_pxe (pxeuuid : Option (List UInt8)) (clientarch : Option UInt16) :
    OtherOptions (pxeOptions pxeuuid clientarch) := by
  cases clientarch with
  | none => exact otherOptions_nil
  | some clientarch =>
    have architecture := @otherOptions_encode
      ⟨93, [(clientarch >>> 8).toUInt8, clientarch.toUInt8], show 2 < 256 by decide, trivial⟩
      (show (93 : UInt8) ∉ decodedCodes by decide)
    have interface := @otherOptions_encode ⟨94, [1, 0, 0], show 3 < 256 by decide, trivial⟩
      (show (94 : UInt8) ∉ decodedCodes by decide)
    refine architecture.append (interface.append ?_)
    cases pxeuuid.bind fun uuid => uuidStrToBin uuid .std with
    | none => exact otherOptions_nil
    | some uuid =>
      have size : (0 :: uuid.bytes).length = 17 := by rw [List.length_cons, uuid.sized]
      have machine := @otherOptions_encode ⟨97, 0 :: uuid.bytes, by omega, trivial⟩
        (show (97 : UInt8) ∉ decodedCodes by decide)
      rw [DhcpOption.encode] at machine
      dsimp only at machine
      rw [size] at machine
      exact machine

theorem otherOptions_vci (config : BootpConfig) :
    OtherOptions (textOption 60 config.vciString) := by
  cases given : config.vciString with
  | none => exact otherOptions_nil
  | some vci =>
    exact @otherOptions_encode ⟨60, vci, (config.vciShort vci given).2, trivial⟩
      (show (60 : UInt8) ∉ decodedCodes by decide)

theorem length_parameters (config : BootpConfig) : config.parameters.length ≤ 9 := by
  have one (asked : Bool) (code : UInt8) : (if asked then [code] else []).length ≤ 1 := by
    cases asked with
    | false => exact Nat.zero_le 1
    | true => exact Nat.le_refl 1
  have a := one config.subnetmask 1
  have b := one config.timeoffset 2
  have c := one config.gateway 3
  have d := one config.dns 6
  have e := one config.hostname 12
  have f := one config.bootfilesize 13
  have g := one config.bootpath 17
  have h := one config.nisdomain 40
  have i := one config.ntpserver 42
  simp only [BootpConfig.parameters, List.length_append]
  omega

theorem otherOptions_parameters (config : BootpConfig) :
    OtherOptions (parameterOption config.parameters) := by
  have few := length_parameters config
  unfold parameterOption
  split
  · exact otherOptions_nil
  · exact @otherOptions_encode ⟨55, config.parameters, by omega, trivial⟩
      (show (55 : UInt8) ∉ decodedCodes by decide)

theorem valuesOf_other (other : ∀ o ∈ options, o.code ∉ decodedCodes)
    (decoded : code ∈ decodedCodes) : valuesOf code options = [] :=
  valuesOf_of_ne fun o member same => other o member (same ▸ decoded)

/-- The bytes behind the host name. -/
def backBytes (config : BootpConfig) (pxeuuid : Option (List UInt8)) : List UInt8 :=
  pxeOptions pxeuuid config.pxeClientarch ++
    (textOption 60 config.vciString ++ parameterOption config.parameters)

theorem otherOptions_backBytes (config : BootpConfig) (pxeuuid : Option (List UInt8)) :
    OtherOptions (backBytes config pxeuuid) :=
  (otherOptions_pxe _ _).append ((otherOptions_vci config).append (otherOptions_parameters config))

section Request

variable (config : BootpConfig) (message_type : UInt8) (server_ip requested_ip : UInt32)
  (hostname pxeuuid : Option (List UInt8))

theorem extendedOptions_eq :
    extendedOptions config message_type server_ip requested_ip hostname pxeuuid =
      (frontOptions message_type server_ip requested_ip).flatMap DhcpOption.encode ++
        (textOption 12 (config.sent hostname) ++ (backBytes config pxeuuid ++ [255])) := by
  simp only [extendedOptions, encode_frontOptions, backBytes, List.append_assoc]

theorem dhcpExtended_eq :
    ∃ pad, dhcpExtended config message_type server_ip requested_ip hostname pxeuuid =
      bootpVendorMagic ++ (extendedOptions config message_type server_ip requested_ip hostname
        pxeuuid ++ List.replicate pad 0) :=
  ⟨_, List.append_assoc _ _ _⟩

/-- A host name is sent in an option if it has characters, and as many as a byte counts. -/
def NameFitsOption (hostname : Option (List UInt8)) : Prop :=
  ∀ name, hostname = some name → 0 < name.length ∧ name.length < 256

theorem nameOptions {hostname : Option (List UInt8)} (fits : NameFitsOption hostname) :
    ∃ names : List DhcpOption, names.flatMap DhcpOption.encode = textOption 12 hostname ∧
      valuesOf 12 names = hostname.toList ∧ ∀ o ∈ names, o.code = 12 := by
  cases hostname with
  | none => exact ⟨[], rfl, rfl, fun _ none => absurd none List.not_mem_nil⟩
  | some name =>
    obtain ⟨some_text, short⟩ := fits name rfl
    exact ⟨[⟨12, name, short, some_text⟩], List.append_nil _, rfl,
      List.forall_mem_singleton.mpr rfl⟩

theorem decodesTo_of_fits (fits : NameFitsOption (config.sent hostname)) :
    DecodesTo (dhcpExtended config message_type server_ip requested_ip hostname pxeuuid)
      message_type server_ip requested_ip (config.sent hostname) := by
  obtain ⟨back, backBytes, other⟩ := otherOptions_backBytes config pxeuuid
  obtain ⟨names, nameBytes, name, only⟩ := nameOptions fits
  obtain ⟨type, server, requested, none⟩ :=
    valuesOf_frontOptions message_type server_ip requested_ip
  have area : extendedOptions config message_type server_ip requested_ip hostname pxeuuid =
      optionArea (frontOptions message_type server_ip requested_ip ++ (names ++ (back ++ []))) := by
    rw [extendedOptions_eq, optionArea_append, optionArea_append, optionArea_append, nameBytes,
      backBytes]
    rfl
  have split (code : UInt8) (decoded : code ∈ decodedCodes) :
      valuesOf code (frontOptions message_type server_ip requested_ip ++
          (names ++ (back ++ []))) =
        valuesOf code (frontOptions message_type server_ip requested_ip) ++
          valuesOf code names := by
    rw [valuesOf_append, valuesOf_append, List.append_nil, valuesOf_other other decoded,
      List.append_nil]
  have apart (code : UInt8) (differs : 12 ≠ code) : valuesOf code names = [] :=
    valuesOf_of_ne fun o member same => differs ((only o member).symm.trans same)
  obtain ⟨pad, whole⟩ :=
    dhcpExtended_eq config message_type server_ip requested_ip hostname pxeuuid
  refine ⟨frontOptions message_type server_ip requested_ip ++ (names ++ (back ++ [])), pad,
    by rw [whole, area], ?_, ?_, ?_, ?_⟩
  · rw [split 53 (by decide), type, apart 53 (by decide), List.append_nil]
  · rw [split 54 (by decide), server, apart 54 (by decide), List.append_nil]
  · rw [split 50 (by decide), requested, apart 50 (by decide), List.append_nil]
  · rw [split 12 (by decide), none, name, List.nil_append]

theorem fits_of_decodesTo
    (decodes : DecodesTo (dhcpExtended config message_type server_ip requested_ip hostname pxeuuid)
      message_type server_ip requested_ip (config.sent hostname)) :
    NameFitsOption (config.sent hostname) := by
  intro name given
  obtain ⟨options, pad, area, -, -, -, names⟩ := decodes
  rw [given] at names
  obtain ⟨zeros, whole⟩ :=
    dhcpExtended_eq config message_type server_ip requested_ip hostname pxeuuid
  rw [whole, List.append_right_inj, extendedOptions_eq, given, List.append_assoc] at area
  obtain ⟨rest, rfl, behind⟩ := optionArea_prefix _ area.symm
  rw [textOption, List.cons_append, List.cons_append, List.cons_append, List.cons_append] at behind
  obtain ⟨o, last, rfl, code, -, -⟩ := optionArea_begins (by decide) behind
  rw [valuesOf_append, (valuesOf_frontOptions _ _ _).2.2.2, valuesOf_cons, if_pos code,
    List.nil_append, Option.toList_some, List.cons.injEq] at names
  have right := o.right
  rw [code, names.1] at right
  exact ⟨right, names.1 ▸ o.short⟩

theorem length_textOption {code : UInt8} {text : Option (List UInt8)}
    (short : ∀ bytes, text = some bytes → bytes.length < 256) :
    (textOption code text).length ≤ 257 := by
  cases text with
  | none => exact Nat.zero_le _
  | some bytes =>
    have size := short bytes rfl
    rw [textOption, List.length_cons, List.length_cons]
    omega

theorem length_pxeOptions (clientarch : Option UInt16) :
    (pxeOptions pxeuuid clientarch).length ≤ 28 := by
  cases clientarch with
  | none => exact Nat.zero_le _
  | some clientarch =>
    rw [pxeOptions]
    cases pxeuuid.bind fun uuid => uuidStrToBin uuid .std with
    | none => exact show 9 ≤ 28 by decide
    | some uuid =>
      have sized := uuid.sized
      simp only [List.length_cons, List.length_append, List.length_nil]
      omega

theorem length_dhcpExtended (fits : NameFitsOption (config.sent hostname)) :
    (dhcpExtended config message_type server_ip requested_ip hostname pxeuuid).length ≤ 577 := by
  have name := @length_textOption 12 (config.sent hostname) fun bytes given => (fits bytes given).2
  have pxe := length_pxeOptions pxeuuid config.pxeClientarch
  have vci := @length_textOption 60 config.vciString fun bytes given =>
    (config.vciShort bytes given).2
  have parameters := length_parameters config
  have request : (parameterOption config.parameters).length ≤ 11 := by
    unfold parameterOption
    split
    · exact Nat.zero_le _
    · rw [List.length_cons, List.length_cons]
      omega
  have address (code : UInt8) (ip : UInt32) : (addressOption code ip).length ≤ 6 := by
    unfold addressOption
    split
    · exact Nat.le_refl 6
    · exact Nat.zero_le _
  have server := address 54 server_ip
  have requested := address 50 requested_ip
  have magic : bootpVendorMagic.length = 4 := rfl
  have least : dhcpMinExtLen = 64 := rfl
  simp only [dhcpExtended, extendedOptions, List.length_append, List.length_replicate,
    List.length_cons, List.length_nil]
  omega

/-- The options of a request are a list that decodes to what was put in, in a packet that fits the
transmit buffer, exactly where the host name that is sent has 1 to 255 characters. -/
theorem dhcp_request_iff (vlan : Bool) :
    (DecodesTo (dhcpExtended config message_type server_ip requested_ip hostname pxeuuid)
        message_type server_ip requested_ip (config.sent hostname) ∧
      requestLength vlan
        (dhcpExtended config message_type server_ip requested_ip hostname pxeuuid).length ≤
          pktSize) ↔
      NameFitsOption (config.sent hostname) := by
  constructor
  · rintro ⟨decodes, -⟩
    exact fits_of_decodesTo _ _ _ _ _ _ decodes
  · intro fits
    have short := length_dhcpExtended config message_type server_ip requested_ip hostname pxeuuid
      fits
    refine ⟨decodesTo_of_fits _ _ _ _ _ _ fits, ?_⟩
    have ether : setEtherSize vlan ≤ 18 := by cases vlan <;> decide
    have header : ipUdpHdrSize + (bootpHdrSize - optFieldSize) = 264 := rfl
    rw [requestLength, pktSize]
    omega

theorem dhcpMessageType_request (fits : NameFitsOption (config.sent hostname)) {packet : Memory}
    (stands : packet.Holds bpVend
      (dhcpExtended config message_type server_ip requested_ip hostname pxeuuid)) :
    ∃ least, ∀ turns, least < turns →
      dhcpMessageType turns packet bpVend = some (message_type.toNat : Int) := by
  obtain ⟨options, pad, area, type, -⟩ :=
    decodesTo_of_fits config message_type server_ip requested_ip hostname pxeuuid fits
  rw [area] at stands
  obtain ⟨magic, behind⟩ := (Memory.holds_append _ _ _ _).mp stands
  have list : packet.Holds (bpVend + 4) (optionArea options) :=
    ((Memory.holds_append _ _ _ _).mp behind).1
  have found : earliest 53 options = some [message_type] := by
    have first := congrArg List.head? type
    rwa [valuesOf, List.head?_map, List.head?_filter] at first
  refine ⟨options.length, fun turns enough => ?_⟩
  have seen : packet.load bpVend 4 = bootpVendorMagic := magic.load
  rw [dhcpMessageType, seen, if_neg (by simp), messageTypeLoop_eq options enough list, messageType,
    found]
  rfl

end Request

/-- A board that sends its host name and boots with PXE. -/
def sampleConfig : BootpConfig where
  sendHostname := true
  pxeClientarch := some 0x100
  vciString := none
  vciShort := fun _ none => absurd none (Option.not_mem_none _)
  subnetmask := true
  timeoffset := false
  gateway := true
  dns := true
  hostname := true
  bootfilesize := false
  bootpath := true
  nisdomain := false
  ntpserver := false

/-- A name of 256 characters. -/
def longHostname : List UInt8 := List.replicate 256 97

/-- The length of a name of 256 characters is sent as zero, and the name is read as options. -/
theorem longHostname_lost :
    ¬(DecodesTo (dhcpExtended sampleConfig 3 0x0a000001 0x0a000002 (some longHostname) none)
        3 0x0a000001 0x0a000002 (some longHostname) ∧
      requestLength false
        (dhcpExtended sampleConfig 3 0x0a000001 0x0a000002 (some longHostname) none).length ≤
          pktSize) := by
  rintro ⟨decodes, -⟩
  have fits := fits_of_decodesTo sampleConfig _ _ _ (some longHostname) none decodes
  have short := (fits longHostname rfl).2
  rw [longHostname, List.length_replicate] at short
  exact absurd short (Nat.lt_irrefl 256)

end HrppBoot.Net
