import HrppBoot.Net.Dhcp
import HrppBoot.Lib.Traced

/-!
# Where the DHCP options are read

`check_packet` lets a reply through that may be as short as a BOOTP header without options, and the
two walkers of the option area are not told its length. They stay in the received bytes exactly
where the area is a list of options that were received as far as they are read, with its end.
-/

namespace HrppBoot.Net

open ByteMemory Traced

/-! ## The packet -/

def portBootps : Nat := 67

def portBootpc : Nat := 68

def optFieldSize : Nat := 312

/-- `check_packet`: zero, or the number of the check that fails. The identifiers are those of the
requests, as the bytes in the packet. -/
def checkPacket (bootp_ids : List (List UInt8)) (packet : Memory) (dest src len : Nat) : Int :=
  if dest ≠ portBootpc ∨ src ≠ portBootps then -1
  else if len < bootpHdrSize - optFieldSize then -2
  else if packet 0 ≠ 1 ∧ packet 0 ≠ 2 ∧ packet 0 ≠ 5 ∧ packet 0 ≠ 6 then -3
  else if packet 1 ≠ 1 then -4
  else if packet 2 ≠ 6 then -5
  else if packet.load 4 4 ∉ bootp_ids then -6
  else 0

/-! ## The walkers -/

/-- The loop of `dhcp_message_type`; given up while it still runs. -/
def messageTypeWalk : Nat → Memory → Nat → Traced Int
  | 0, _, _ => giveUp
  | turns + 1, packet, popt => do
    let code ← readByte packet popt
    if code = 255 then pure (-1)
    else if code = 53 then do
      let type ← readByte packet (popt + 2)
      pure type.toNat
    else do
      let oplen ← readByte packet (popt + 1)
      messageTypeWalk turns packet (popt + (oplen.toNat + 2))

/-- `dhcp_message_type`, with a number of turns for its loop. -/
def dhcpMessageTypeTraced (turns : Nat) (packet : Memory) (popt : Nat) : Traced Int := do
  let magic ← readBytes packet popt 4
  if magic ≠ bootpVendorMagic then pure (-1)
  else messageTypeWalk turns packet (popt + 4)

/-- What the `switch` of `dhcp_process_options` reads behind the number and the length. -/
def optionSpans (popt : Nat) (s : Settings) : List Span :=
  let oplen := (s.packet (popt + 1)).toNat
  match (s.packet popt).toNat with
  | 1 | 3 | 6 | 51 | 54 => [⟨popt + 2, 4⟩]
  | 12 => [⟨popt + 2, truncateSz netHostnameSize oplen⟩]
  | 17 => [⟨popt + 2, truncateSz netRootPathSize oplen⟩]
  | 67 =>
    let size := truncateSz bpFileSize oplen
    ⟨bpFile, 1⟩ :: if s.packet bpFile = 0 ∧ 0 < size then [⟨popt + 2, size⟩] else []
  | _ => []

/-- The loop of `dhcp_process_options`; given up while it still runs. -/
def processWalk : Nat → Nat → Nat → Settings → Traced Settings
  | 0, _, _, _ => giveUp
  | turns + 1, popt, last, s =>
    if popt < last then do
      let code ← readByte s.packet popt
      if code = 255 then pure s
      else do
        let oplen ← readByte s.packet (popt + 1)
        access (optionSpans popt s)
        processWalk turns (popt + oplen.toNat + 2) last (dhcpOption popt s)
    else pure s

/-- `dhcp_process_options` behind the magic, as `dhcp_handler` calls it. -/
def dhcpProcessOptionsTraced (turns : Nat) (s : Settings) : Traced Settings := do
  let magic ← readBytes s.packet bpVend 4
  if magic = bootpVendorMagic then processWalk turns (bpVend + 4) (bpVend + 4 + bootpHdrSize) s
  else pure s

/-! ## What they are for -/

/-- A text in a field: it is what it was, or has its end inside. -/
def CopiedText (field kept : Memory) (start room : Nat) : Prop :=
  (∀ a, a < start ∨ start + room ≤ a → field a = kept a) ∧
    (field = kept ∨ ∃ k < room, field (start + k) = 0)

/-- The texts are copied into their fields, with their ends. -/
structure TextsInside (before after : Settings) : Prop where
  netHostname : CopiedText after.netHostname before.netHostname 0 netHostnameSize
  netRootPath : CopiedText after.netRootPath before.netRootPath 0 netRootPathSize
  file : CopiedText after.packet before.packet bpFile bpFileSize

/-- An option as it stands in the area. -/
structure RawOption where
  code : UInt8
  value : List UInt8
  short : value.length < 256
  running : code ≠ 255

namespace RawOption

/-- Its bytes. -/
def encode (o : RawOption) : List UInt8 := o.code :: UInt8.ofNat o.value.length :: o.value

/-- How many they are. -/
def size (o : RawOption) : Nat := o.value.length + 2

/-- How many bytes behind its length are read: four of an address, also where it has fewer, and what
fits the field of a text. A boot file is only read while there is none. -/
def needed (file : Bool) (o : RawOption) : Nat :=
  match o.code.toNat with
  | 1 | 3 | 6 | 51 | 54 => 4
  | 12 => min o.value.length (netHostnameSize - 1)
  | 17 => min o.value.length (netRootPathSize - 1)
  | 67 => if file then 0 else min o.value.length (bpFileSize - 1)
  | _ => 0

/-- There is a boot file behind it. -/
def givesFile (o : RawOption) : Bool := o.code = 67 && o.value.headD 0 ≠ 0

end RawOption

/-- The bytes of options in a row. -/
def rawArea (options : List RawOption) : List UInt8 := options.flatMap RawOption.encode

/-- Behind whole options of other kinds there is the end option or a message type with a byte of its
value, and they were received. -/
def TypeFits (packet : Memory) (len popt : Nat) : Prop :=
  ∃ front : List RawOption, (∀ o ∈ front, o.code ≠ 53) ∧ packet.Holds popt (rawArea front) ∧
    (packet (popt + (rawArea front).length) = 255 ∧ popt + (rawArea front).length < len ∨
      packet (popt + (rawArea front).length) = 53 ∧ popt + (rawArea front).length + 2 < len)

/-- What is read of options was received. They begin in front of `last`, and end there or with the
end option. -/
def ReadsFit (packet : Memory) (len last : Nat) : Bool → Nat → List RawOption → Prop
  | _, popt, [] => last ≤ popt ∨ packet popt = 255 ∧ popt < len
  | file, popt, o :: rest =>
    popt < last ∧ popt + 2 + o.needed file ≤ len ∧
      ReadsFit packet len last (file || o.givesFile) (popt + o.size) rest

/-- The area is a list of such options. -/
def AreaFits (packet : Memory) (len last : Nat) (file : Bool) (popt : Nat) : Prop :=
  ∃ options : List RawOption, packet.Holds popt (rawArea options) ∧
    ReadsFit packet len last file popt options

/-! ## Options in memory -/

variable {packet : Memory} {popt len last turns : Nat} {o : RawOption}

@[simp] theorem RawOption.length_encode (o : RawOption) : o.encode.length = o.size := by
  simp [encode, size]

theorem length_rawArea_cons (o : RawOption) (rest : List RawOption) :
    (rawArea (o :: rest)).length = o.size + (rawArea rest).length := by
  rw [rawArea, List.flatMap_cons, List.length_append, o.length_encode, rawArea]

theorem length_value (packet : Memory) (popt : Nat) :
    (packet.load (popt + 2) (packet (popt + 1)).toNat).length < 256 := by
  rw [Memory.length_load]
  exact UInt8.toNat_lt _

/-- The option at an address that has not the end option. -/
def optionAt (packet : Memory) (popt : Nat) (running : packet popt ≠ 255) : RawOption where
  code := packet popt
  value := packet.load (popt + 2) (packet (popt + 1)).toNat
  short := length_value packet popt
  running := running

theorem optionAt_holds (running : packet popt ≠ 255) :
    packet.Holds popt (optionAt packet popt running).encode := by
  have size : UInt8.ofNat (packet.load (popt + 2) (packet (popt + 1)).toNat).length =
      packet (popt + 1) := by
    rw [Memory.length_load, UInt8.ofNat_toNat]
  have bytes : (optionAt packet popt running).encode =
      packet.load popt 2 ++ packet.load (popt + 2) (packet (popt + 1)).toNat := by
    rw [RawOption.encode, optionAt]
    dsimp only
    rw [size]
    rfl
  rw [bytes, Memory.load_append]
  exact Memory.holds_load _ _ _

theorem holds_option {rest : List RawOption} (stands : packet.Holds popt (rawArea (o :: rest))) :
    packet popt = o.code ∧ (packet (popt + 1)).toNat = o.value.length ∧
      packet.Holds (popt + 2) o.value ∧ packet.Holds (popt + o.size) (rawArea rest) := by
  rw [rawArea, List.flatMap_cons] at stands
  obtain ⟨here, behind⟩ := (Memory.holds_append _ _ _ _).mp stands
  rw [o.length_encode] at behind
  have split : o.encode = [o.code, UInt8.ofNat o.value.length] ++ o.value := rfl
  rw [split] at here
  obtain ⟨front, value⟩ := (Memory.holds_append _ _ _ _).mp here
  have size : packet (popt + 1) = UInt8.ofNat o.value.length := front 1 Nat.one_lt_two
  refine ⟨front 0 Nat.zero_lt_two, ?_, value, behind⟩
  rw [size]
  exact UInt8.toNat_ofNat_of_lt o.short

theorem holds_cons {rest : List RawOption} (here : packet.Holds popt o.encode)
    (behind : packet.Holds (popt + o.size) (rawArea rest)) :
    packet.Holds popt (rawArea (o :: rest)) := by
  rw [rawArea, List.flatMap_cons]
  refine (Memory.holds_append _ _ _ _).mpr ⟨here, ?_⟩
  rwa [o.length_encode]

theorem eq_optionAt {rest : List RawOption} (running : packet popt ≠ 255)
    (stands : packet.Holds popt (rawArea (o :: rest))) : o = optionAt packet popt running := by
  obtain ⟨code, size, value, -⟩ := holds_option stands
  obtain ⟨number, bytes, short, other⟩ := o
  have same : packet.load (popt + 2) (packet (popt + 1)).toNat = bytes := by
    rw [size]
    exact value.load
  subst code
  subst same
  rfl

theorem holds_rawArea_cons {rest : List RawOption} :
    packet.Holds popt (rawArea (o :: rest)) ↔ ∃ running : packet popt ≠ 255,
      o = optionAt packet popt running ∧ packet.Holds (popt + o.size) (rawArea rest) := by
  constructor
  · intro stands
    have running : packet popt ≠ 255 := by
      rw [(holds_option stands).1]
      exact o.running
    exact ⟨running, eq_optionAt running stands, (holds_option stands).2.2.2⟩
  · rintro ⟨running, rfl, behind⟩
    exact holds_cons (optionAt_holds running) behind

theorem size_optionAt (running : packet popt ≠ 255) :
    (optionAt packet popt running).size = (packet (popt + 1)).toNat + 2 := by
  rw [RawOption.size, optionAt, Memory.length_load]

/-! ## The message type -/

theorem typeFits_iff :
    TypeFits packet len popt ↔ packet popt = 255 ∧ popt < len ∨
      packet popt = 53 ∧ popt + 2 < len ∨
      packet popt ≠ 255 ∧ packet popt ≠ 53 ∧
        TypeFits packet len (popt + ((packet (popt + 1)).toNat + 2)) := by
  constructor
  · rintro ⟨front, other, stands, ends⟩
    cases front with
    | nil => exact ends.imp_right .inl
    | cons o rest =>
      obtain ⟨running, rfl, behind⟩ := holds_rawArea_cons.mp stands
      obtain ⟨kind, others⟩ := List.forall_mem_cons.mp other
      rw [length_rawArea_cons, ← Nat.add_assoc] at ends
      rw [size_optionAt] at behind ends
      exact .inr (.inr ⟨running, kind, rest, others, behind, ends⟩)
  · rintro (⟨ended, inside⟩ | ⟨type, inside⟩ | ⟨running, kind, rest, others, behind, ends⟩)
    · exact ⟨[], by simp, fun _ none => absurd none (Nat.not_lt_zero _), .inl ⟨ended, inside⟩⟩
    · exact ⟨[], by simp, fun _ none => absurd none (Nat.not_lt_zero _), .inr ⟨type, inside⟩⟩
    · rw [← size_optionAt running] at behind ends
      refine ⟨optionAt packet popt running :: rest, List.forall_mem_cons.mpr ⟨kind, others⟩,
        holds_rawArea_cons.mpr ⟨running, rfl, behind⟩, ?_⟩
      rwa [length_rawArea_cons, ← Nat.add_assoc]

theorem TypeFits.begins (fits : TypeFits packet len popt) : popt < len := by
  obtain ⟨front, -, -, ends⟩ := fits
  omega

/-- The loop of `dhcp_message_type` ends and stays inside where the message type was received. -/
theorem messageTypeWalk_inside :
    (∃ turns, (messageTypeWalk turns packet popt).Keeps 0 len fun _ => True) ↔
      TypeFits packet len popt := by
  constructor
  · rintro ⟨turns, kept⟩
    induction turns generalizing popt with
    | zero => exact absurd kept not_keeps_giveUp
    | succ turns ih =>
      rw [messageTypeWalk, keeps_bind, keeps_readByte] at kept
      obtain ⟨⟨-, inside⟩, kept⟩ := kept
      rw [typeFits_iff]
      by_cases ended : packet popt = 255
      · exact .inl ⟨ended, inside⟩
      · rw [if_neg ended] at kept
        by_cases type : packet popt = 53
        · rw [if_pos type, keeps_bind, keeps_readByte] at kept
          exact .inr (.inl ⟨type, kept.1.2⟩)
        · rw [if_neg type, keeps_bind, keeps_readByte] at kept
          exact .inr (.inr ⟨ended, type, ih kept.2⟩)
  · rintro ⟨front, other, stands, ends⟩
    induction front generalizing popt with
    | nil =>
      refine ⟨1, ?_⟩
      rw [messageTypeWalk, keeps_bind, keeps_readByte]
      have here : packet popt = 255 ∧ popt < len ∨ packet popt = 53 ∧ popt + 2 < len := ends
      refine ⟨by omega, ?_⟩
      rcases here with ⟨ended, inside⟩ | ⟨type, inside⟩
      · rw [if_pos ended, keeps_pure]
        trivial
      · rw [if_neg (by rw [type]; decide), if_pos type, keeps_bind, keeps_readByte, keeps_pure]
        exact ⟨⟨Nat.zero_le _, inside⟩, trivial⟩
    | cons o rest ih =>
      obtain ⟨running, rfl, behind⟩ := holds_rawArea_cons.mp stands
      obtain ⟨kind, others⟩ := List.forall_mem_cons.mp other
      rw [length_rawArea_cons, ← Nat.add_assoc] at ends
      obtain ⟨turns, kept⟩ := ih others behind ends
      have kind : packet popt ≠ 53 := kind
      rw [size_optionAt] at kept ends
      refine ⟨turns + 1, ?_⟩
      rw [messageTypeWalk, keeps_bind, keeps_readByte, if_neg running, if_neg kind, keeps_bind,
        keeps_readByte]
      exact ⟨by omega, by omega, kept⟩

/-! ## The other options -/

theorem areaFits_iff {file : Bool} :
    AreaFits packet len last file popt ↔ last ≤ popt ∨ packet popt = 255 ∧ popt < len ∨
      ∃ running : packet popt ≠ 255, popt < last ∧
        popt + 2 + (optionAt packet popt running).needed file ≤ len ∧
        AreaFits packet len last (file || (optionAt packet popt running).givesFile)
          (popt + ((packet (popt + 1)).toNat + 2)) := by
  constructor
  · rintro ⟨options, stands, fits⟩
    cases options with
    | nil => exact fits.imp_right .inl
    | cons o rest =>
      obtain ⟨running, rfl, behind⟩ := holds_rawArea_cons.mp stands
      obtain ⟨early, inside, later⟩ := fits
      rw [size_optionAt] at behind later
      exact .inr (.inr ⟨running, early, inside, rest, behind, later⟩)
  · have empty : packet.Holds popt (rawArea []) := fun _ none => absurd none (Nat.not_lt_zero _)
    rintro (beyond | ended | ⟨running, early, inside, rest, behind, later⟩)
    · exact ⟨[], empty, .inl beyond⟩
    · exact ⟨[], empty, .inr ended⟩
    · rw [← size_optionAt running] at behind later
      exact ⟨optionAt packet popt running :: rest, holds_rawArea_cons.mpr ⟨running, rfl, behind⟩,
        early, inside, later⟩

theorem truncateSz_eq {room : Nat} (some_room : 0 < room) (n : Nat) :
    truncateSz room n = min n (room - 1) := by
  unfold truncateSz
  split <;> omega

theorem copyText_copied (field : Memory) (start : Nat) {room : Nat} {text : List UInt8}
    (fits : text.length < room) : CopiedText (copyText field start text) field start room := by
  constructor
  · intro a outside
    rw [copyText, Memory.store_outside _ _ _ _ (by simp; omega),
      Memory.store_outside _ _ _ _ (by omega)]
  · have last := ((Memory.holds_append _ _ _ _).mp (copyText_holds field start text)).2
    exact .inr ⟨text.length, fits, last 0 Nat.one_pos⟩

theorem copiedText_refl (field : Memory) (start room : Nat) : CopiedText field field start room :=
  ⟨fun _ _ => rfl, .inl rfl⟩

theorem CopiedText.trans {first second third : Memory} {start room : Nat}
    (later : CopiedText third second start room) (early : CopiedText second first start room) :
    CopiedText third first start room := by
  constructor
  · intro a outside
    rw [later.1 a outside, early.1 a outside]
  · rcases later.2 with rfl | ended
    · exact early.2
    · exact .inr ended

theorem textsInside_refl (s : Settings) : TextsInside s s where
  netHostname := copiedText_refl _ _ _
  netRootPath := copiedText_refl _ _ _
  file := copiedText_refl _ _ _

theorem TextsInside.trans {first second third : Settings} (early : TextsInside first second)
    (later : TextsInside second third) : TextsInside first third where
  netHostname := later.netHostname.trans early.netHostname
  netRootPath := later.netRootPath.trans early.netRootPath
  file := later.file.trans early.file

theorem length_truncated (packet : Memory) (a n : Nat) {room : Nat} (some_room : 0 < room) :
    (packet.load a (truncateSz room n)).length < room := by
  rw [Memory.length_load, truncateSz_eq some_room]
  omega

theorem textsInside_dhcpOption (popt : Nat) (s : Settings) :
    TextsInside s (dhcpOption popt s) := by
  have same := textsInside_refl s
  unfold dhcpOption
  dsimp only
  split
  case h_4 =>
    exact { same with
      netHostname := copyText_copied _ _ (length_truncated _ _ _ (by decide)) }
  case h_5 =>
    exact { same with
      netRootPath := copyText_copied _ _ (length_truncated _ _ _ (by decide)) }
  case h_8 =>
    split
    · exact { same with file := copyText_copied _ _ (length_truncated _ _ _ (by decide)) }
    · exact same
  all_goals exact ⟨same.1, same.2, same.3⟩

theorem dhcpOption_packet_other {s : Settings} (other : s.packet popt ≠ 67) :
    (dhcpOption popt s).packet = s.packet := by
  unfold dhcpOption
  dsimp only
  split
  case h_8 same => exact absurd (UInt8.toNat_inj.mp same) other
  all_goals rfl

theorem dhcpOption_packet_file {s : Settings} (file : s.packet popt = 67) :
    (dhcpOption popt s).packet =
      if s.packet bpFile = 0 ∧ 0 < truncateSz bpFileSize (s.packet (popt + 1)).toNat then
        copyText s.packet bpFile
          (s.packet.load (popt + 2) (truncateSz bpFileSize (s.packet (popt + 1)).toNat))
      else s.packet := by
  have number : (s.packet popt).toNat = 67 := by
    rw [file]
    rfl
  simp only [dhcpOption, number]
  split <;> rfl

theorem givesFile_optionAt (running : packet popt ≠ 255) :
    (optionAt packet popt running).givesFile = true ↔
      packet popt = 67 ∧ 0 < (packet (popt + 1)).toNat ∧ packet (popt + 2) ≠ 0 := by
  have first (n : Nat) : (packet.load (popt + 2) n).headD 0 ≠ 0 ↔
      0 < n ∧ packet (popt + 2) ≠ 0 := by
    cases n with
    | zero => simp [Memory.load]
    | succ n => simp [Memory.load_succ]
  rw [RawOption.givesFile, Bool.and_eq_true, decide_eq_true_eq, decide_eq_true_eq]
  exact and_congr_right fun _ => first _

theorem dhcpOption_file {s : Settings} (running : s.packet popt ≠ 255) :
    (dhcpOption popt s).packet bpFile = 0 ↔
      s.packet bpFile = 0 ∧ (optionAt s.packet popt running).givesFile = false := by
  rw [← Bool.not_eq_true, givesFile_optionAt]
  by_cases file : s.packet popt = 67
  · rw [dhcpOption_packet_file file, and_iff_right file]
    have size := truncateSz_eq (show 0 < bpFileSize by decide) (s.packet (popt + 1)).toNat
    by_cases copied : s.packet bpFile = 0 ∧
        0 < truncateSz bpFileSize (s.packet (popt + 1)).toNat
    · have some_text : 0 < (s.packet (popt + 1)).toNat := by omega
      have stands := ((Memory.holds_append _ _ _ _).mp (copyText_holds s.packet bpFile
        (s.packet.load (popt + 2) (truncateSz bpFileSize (s.packet (popt + 1)).toNat)))).1
      have first := stands 0 (by rw [Memory.length_load]; exact copied.2)
      have byte : copyText s.packet bpFile (s.packet.load (popt + 2)
          (truncateSz bpFileSize (s.packet (popt + 1)).toNat)) bpFile = s.packet (popt + 2) := by
        simpa [Memory.load] using first
      rw [if_pos copied, and_iff_right copied.1, byte, and_iff_right some_text, not_not]
    · have room : bpFileSize = 128 := rfl
      rw [if_neg copied]
      refine (and_iff_left_of_imp fun empty both => copied ⟨empty, ?_⟩).symm
      omega
  · rw [dhcpOption_packet_other file]
    exact (and_iff_left fun both => file both.1).symm

/-- What the walker reads of an option is what is needed of it. -/
theorem optionSpans_within {s : Settings} {file : Bool} (running : s.packet popt ≠ 255)
    (known : s.packet bpFile = 0 ↔ file = false) (behind : bpFile < popt)
    (header : popt + 2 ≤ len) :
    (∀ span ∈ optionSpans popt s, span.Within 0 len) ↔
      popt + 2 + (optionAt s.packet popt running).needed file ≤ len := by
  have hostname := truncateSz_eq (show 0 < netHostnameSize by decide) (s.packet (popt + 1)).toNat
  have rootPath := truncateSz_eq (show 0 < netRootPathSize by decide) (s.packet (popt + 1)).toNat
  have bootFile := truncateSz_eq (show 0 < bpFileSize by decide) (s.packet (popt + 1)).toNat
  have within (a n : Nat) (near : a ≤ len) : Span.Within ⟨a, n⟩ 0 len ↔ a + n ≤ len := by
    simp only [Span.Within, Span.Inside]
    omega
  unfold optionSpans RawOption.needed optionAt
  dsimp only
  rw [Memory.length_load]
  split
  case h_8 =>
    rw [List.forall_mem_cons, within _ _ (by omega), and_iff_right (by omega)]
    cases file with
    | true =>
      have given : ¬(s.packet bpFile = 0 ∧
          0 < truncateSz bpFileSize (s.packet (popt + 1)).toNat) :=
        fun both => Bool.noConfusion (known.mp both.1)
      rw [if_neg given, if_pos rfl]
      exact iff_of_true (fun _ none => absurd none List.not_mem_nil) header
    | false =>
      have empty : s.packet bpFile = 0 := known.mpr rfl
      rw [if_neg Bool.false_ne_true, ← bootFile]
      by_cases copied : 0 < truncateSz bpFileSize (s.packet (popt + 1)).toNat
      · rw [if_pos ⟨empty, copied⟩, List.forall_mem_singleton, within _ _ header]
      · rw [if_neg fun both => copied both.2]
        exact iff_of_true (fun _ none => absurd none List.not_mem_nil) (by omega)
  case h_9 => exact iff_of_true (fun _ none => absurd none List.not_mem_nil) header
  case h_6 => rw [List.forall_mem_singleton, within _ _ header, hostname]
  case h_7 => rw [List.forall_mem_singleton, within _ _ header, rootPath]
  all_goals rw [List.forall_mem_singleton, within _ _ header]

theorem dhcpOption_packet_behind (popt : Nat) (s : Settings) {a : Nat}
    (behind : bpFile + bpFileSize ≤ a) : (dhcpOption popt s).packet a = s.packet a :=
  (textsInside_dhcpOption popt s).file.1 a (.inr behind)

theorem optionAt_congr {other : Memory} (same : ∀ a, popt ≤ a → other a = packet a)
    (running : other popt ≠ 255) (still : packet popt ≠ 255) :
    optionAt other popt running = optionAt packet popt still := by
  have value : other.load (popt + 2) (other (popt + 1)).toNat =
      packet.load (popt + 2) (packet (popt + 1)).toNat := by
    rw [same (popt + 1) (by omega)]
    exact List.map_congr_left fun i _ => same _ (by omega)
  rw [optionAt, optionAt, RawOption.mk.injEq]
  exact ⟨same popt (Nat.le_refl _), value⟩

/-- The loop of `dhcp_process_options` ends and stays inside where the options were received. -/
theorem processWalk_inside {s : Settings} {file : Bool} (behind : bpFile + bpFileSize ≤ popt)
    (same : ∀ a, bpFile + bpFileSize ≤ a → s.packet a = packet a)
    (known : s.packet bpFile = 0 ↔ file = false) (enough : last - popt < turns) :
    ((processWalk turns popt last s).Keeps 0 len fun _ => True) ↔
      AreaFits packet len last file popt := by
  induction turns generalizing popt s file with
  | zero => exact absurd enough (Nat.not_lt_zero _)
  | succ turns ih =>
    rw [processWalk, areaFits_iff]
    by_cases early : popt < last
    · have field : 0 < bpFileSize := by decide
      have code := same popt behind
      have size := same (popt + 1) (by omega)
      rw [if_pos early, keeps_bind, keeps_readByte, or_iff_right (Nat.not_le.mpr early), code]
      by_cases ended : packet popt = 255
      · rw [if_pos ended, keeps_pure, and_true, and_iff_right (Nat.zero_le _), and_iff_right ended]
        exact (or_iff_left fun ⟨running, _⟩ => running ended).symm
      · have running : s.packet popt ≠ 255 := by rwa [code]
        have option := optionAt_congr (fun a from_here => same a (by omega)) running ended
        have given : (dhcpOption popt s).packet bpFile = 0 ↔
            (file || (optionAt packet popt ended).givesFile) = false := by
          rw [dhcpOption_file running, known, option, Bool.or_eq_false_iff]
        have onward : bpFile + bpFileSize ≤ popt + (packet (popt + 1)).toNat + 2 := by omega
        have rest := ih onward
          (fun a far => (dhcpOption_packet_behind popt s far).trans (same a far)) given (by omega)
        rw [if_neg ended, keeps_bind, keeps_readByte, keeps_bind, keeps_access, size, rest,
          or_iff_right fun both => ended both.1, Nat.add_assoc popt]
        constructor
        · rintro ⟨_, ⟨_, header⟩, inside, later⟩
          rw [optionSpans_within running known (by omega) (by omega), option] at inside
          exact ⟨ended, early, inside, later⟩
        · rintro ⟨_, _, inside, later⟩
          have header : popt + 2 ≤ len := by omega
          refine ⟨by omega, by omega, ?_, later⟩
          rwa [optionSpans_within running known (by omega) header, option]
    · rw [if_neg early, keeps_pure]
      exact iff_of_true trivial (.inl (Nat.not_lt.mp early))

/-! ## The results -/

theorem processWalk_result {s : Settings} (enough : last - popt ≤ turns) :
    (processWalk (turns + 1) popt last s).result = some (processLoop turns popt last s) := by
  induction turns generalizing popt s with
  | zero =>
    rw [processWalk, if_neg (by omega), processLoop]
    rfl
  | succ turns ih =>
    rw [processWalk, processLoop]
    by_cases early : popt < last
    · rw [if_pos early, result_bind, result_readByte, Option.bind_some]
      by_cases ended : s.packet popt = 255
      · rw [if_pos ended, if_neg fun both => both.2 ended]
        rfl
      · rw [if_neg ended, if_pos ⟨early, ended⟩, result_bind, result_readByte, Option.bind_some,
          result_bind, result_access, Option.bind_some, ih (by omega)]
    · rw [if_neg early, if_neg fun both => early both.1]
      rfl

theorem textsInside_processLoop (turns popt last : Nat) (s : Settings) :
    TextsInside s (processLoop turns popt last s) := by
  induction turns generalizing popt s with
  | zero => exact textsInside_refl s
  | succ turns ih =>
    rw [processLoop]
    split
    · exact (textsInside_dhcpOption popt s).trans (ih _ _)
    · exact textsInside_refl s

/-! ## Both walkers -/

/-- The turns that suffice for `dhcp_process_options`. -/
def processTurns : Nat := bootpHdrSize + 1

/-- The option area of a received packet. -/
structure OptionsReceived (s : Settings) (len : Nat) : Prop where
  magic : bpVend + 4 ≤ len
  type : s.packet.load bpVend 4 = bootpVendorMagic → TypeFits s.packet len (bpVend + 4)
  options : s.packet.load bpVend 4 = bootpVendorMagic →
    AreaFits s.packet len (bpVend + 4 + bootpHdrSize) (s.packet bpFile ≠ 0) (bpVend + 4)

theorem dhcpMessageTypeTraced_inside (packet : Memory) (len : Nat) :
    (∃ turns, (dhcpMessageTypeTraced turns packet bpVend).Keeps 0 len fun _ => True) ↔
      bpVend + 4 ≤ len ∧
        (packet.load bpVend 4 = bootpVendorMagic → TypeFits packet len (bpVend + 4)) := by
  have magic : Span.Within ⟨bpVend, 4⟩ 0 len ↔ bpVend + 4 ≤ len := by
    simp only [Span.Within, Span.Inside]
    omega
  simp only [dhcpMessageTypeTraced, keeps_bind, keeps_readBytes, magic, exists_and_left]
  refine and_congr_right fun _ => ?_
  by_cases right : packet.load bpVend 4 = bootpVendorMagic
  · simp only [right, ne_eq, not_true_eq_false, if_false, forall_const]
    exact messageTypeWalk_inside
  · simp only [right, ne_eq, not_false_eq_true, if_true, keeps_pure, exists_const, false_implies]

theorem dhcpProcessOptionsTraced_inside (s : Settings) (len : Nat) :
    (dhcpProcessOptionsTraced processTurns s).Keeps 0 len (TextsInside s) ↔
      bpVend + 4 ≤ len ∧ (s.packet.load bpVend 4 = bootpVendorMagic →
        AreaFits s.packet len (bpVend + 4 + bootpHdrSize) (s.packet bpFile ≠ 0) (bpVend + 4)) := by
  have magic : Span.Within ⟨bpVend, 4⟩ 0 len ↔ bpVend + 4 ≤ len := by
    simp only [Span.Within, Span.Inside]
    omega
  rw [dhcpProcessOptionsTraced, keeps_bind, keeps_readBytes, magic]
  refine and_congr_right fun _ => ?_
  by_cases right : s.packet.load bpVend 4 = bootpVendorMagic
  · rw [if_pos right, imp_iff_right right]
    have texts : ∀ after, (processWalk processTurns (bpVend + 4) (bpVend + 4 + bootpHdrSize)
        s).result = some after → (TextsInside s after ↔ True) := by
      intro after result
      rw [processTurns, processWalk_result (by omega)] at result
      cases result
      exact iff_true_intro (textsInside_processLoop _ _ _ _)
    rw [keeps_congr texts]
    refine processWalk_inside (by decide) (fun _ _ => rfl) ?_ (by rw [processTurns]; omega)
    rw [decide_eq_false_iff_not, not_not]
  · rw [if_neg right, keeps_pure]
    exact iff_of_true (textsInside_refl s) fun same => absurd same right

/-- For every packet, accepted by `check_packet` or not, the option walkers end, read only received
bytes and copy their texts into the fields exactly where the options were received as far as they
are read. -/
theorem dhcp_walks_inside_iff (s : Settings) (len : Nat) :
    ((∃ turns, (dhcpMessageTypeTraced turns s.packet bpVend).Keeps 0 len fun _ => True) ∧
      (dhcpProcessOptionsTraced processTurns s).Keeps 0 len (TextsInside s)) ↔
      OptionsReceived s len := by
  rw [dhcpMessageTypeTraced_inside, dhcpProcessOptionsTraced_inside]
  constructor
  · rintro ⟨⟨magic, type⟩, -, options⟩
    exact ⟨magic, type, options⟩
  · rintro ⟨magic, type, options⟩
    exact ⟨⟨magic, type⟩, magic, options⟩

/-- A reply to a request with identifier zero that ends behind the magic. -/
def magicOnly : Settings :=
  { replyWith [] with packet := (replyWith []).packet.store 0 [2, 1, 6] }

/-- It is accepted, and both walkers read the byte behind it. -/
theorem magicOnly_outside :
    checkPacket [[0, 0, 0, 0]] magicOnly.packet portBootpc portBootps 240 = 0 ∧
      ¬(∃ turns, (dhcpMessageTypeTraced turns magicOnly.packet bpVend).Keeps 0 240
        fun _ => True) ∧
      ¬(dhcpProcessOptionsTraced processTurns magicOnly).Keeps 0 240 (TextsInside magicOnly) := by
  have magic : magicOnly.packet.load bpVend 4 = bootpVendorMagic := by decide
  refine ⟨by decide, ?_, ?_⟩
  · rw [dhcpMessageTypeTraced_inside]
    rintro ⟨-, type⟩
    exact absurd (type magic).begins (Nat.lt_irrefl 240)
  · rw [dhcpProcessOptionsTraced_inside]
    rintro ⟨-, options⟩
    rcases areaFits_iff.mp (options magic) with beyond | ended | running
    · exact absurd beyond (by decide)
    · exact absurd ended.2 (Nat.lt_irrefl 240)
    · obtain ⟨_, _, inside, _⟩ := running
      have behind : bpVend + 4 + 2 ≤ 240 := Nat.le_trans (Nat.le_add_right _ _) inside
      exact absurd behind (by decide)

end HrppBoot.Net
