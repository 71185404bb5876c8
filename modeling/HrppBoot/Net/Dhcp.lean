import HrppBoot.Lib.Memory
import Mathlib.Tactic.IntervalCases

/-!
# DHCP options

The two walkers of the option area of a DHCP reply. `dhcp_process_options` stores what the
client uses and looks no further than `BOOTP_HDR_SIZE` bytes; `dhcp_message_type` looks for
option 53 and has no bound. Both are compared with a list of options: the area is the encoding
of the list and the end option.
-/

namespace HrppBoot.Net

open ByteMemory

/-- Bytes of `struct bootp_hdr`, the options included. -/
def bootpHdrSize : Nat := 548

/-- Where `bp_file` stands in the header. -/
def bpFile : Nat := 108

/-- Bytes of `bp_file`. -/
def bpFileSize : Nat := 128

/-- Where `bp_vend` stands in the header. -/
def bpVend : Nat := 236

/-- `BOOTP_VENDOR_MAGIC` in network order. -/
def bootpVendorMagic : List UInt8 := [0x63, 0x82, 0x53, 0x63]

/-- Bytes of `net_hostname`. -/
def netHostnameSize : Nat := 32

/-- Bytes of `net_root_path`. -/
def netRootPathSize : Nat := 64

/-- The packet and what the client keeps of it. -/
structure Settings where
  netNetmask : List UInt8
  netGateway : List UInt8
  netDnsServer : List UInt8
  /-- `dhcp_leasetime`, in network order. -/
  dhcpLeasetime : List UInt8
  dhcpServerIp : List UInt8
  netHostname : Memory
  netRootPath : Memory
  packet : Memory

def truncateSz (maxlen curlen : Nat) : Nat :=
  if curlen ≥ maxlen then maxlen - 1 else curlen

/-- `memcpy` of a text and the zero byte after it. -/
def copyText (field : Memory) (start : Nat) (text : List UInt8) : Memory :=
  (field.store start text).store (start + text.length) [0]

/-- The `switch` of `dhcp_process_options` on the option at `popt`. -/
def dhcpOption (popt : Nat) (s : Settings) : Settings :=
  let oplen := (s.packet (popt + 1)).toNat
  match (s.packet popt).toNat with
  | 1 => { s with netNetmask := s.packet.load (popt + 2) 4 }
  | 3 => { s with netGateway := s.packet.load (popt + 2) 4 }
  | 6 => { s with netDnsServer := s.packet.load (popt + 2) 4 }
  | 12 =>
    let size := truncateSz netHostnameSize oplen
    { s with netHostname := copyText s.netHostname 0 (s.packet.load (popt + 2) size) }
  | 17 =>
    let size := truncateSz netRootPathSize oplen
    { s with netRootPath := copyText s.netRootPath 0 (s.packet.load (popt + 2) size) }
  | 51 => { s with dhcpLeasetime := s.packet.load (popt + 2) 4 }
  | 54 => { s with dhcpServerIp := s.packet.load (popt + 2) 4 }
  | 67 =>
    let size := truncateSz bpFileSize oplen
    -- Only use the vendor boot file when the main part of the packet has none.
    if s.packet bpFile = 0 ∧ 0 < size then
      { s with packet := copyText s.packet bpFile (s.packet.load (popt + 2) size) }
    else s
  | _ => s

/-- The loop of `dhcp_process_options`. -/
def processLoop : Nat → Nat → Nat → Settings → Settings
  | 0, _, _, s => s
  | turns + 1, popt, last, s =>
    if popt < last ∧ s.packet popt ≠ 255 then
      processLoop turns (popt + (s.packet (popt + 1)).toNat + 2) last (dhcpOption popt s)
    else s

/-- `dhcp_process_options`. Every turn moves two bytes or more, so the turns suffice. -/
def dhcpProcessOptions (popt : Nat) (s : Settings) : Settings :=
  processLoop bootpHdrSize popt (popt + bootpHdrSize) s

/-- The loop of `dhcp_message_type`; `none` while it still runs. -/
def messageTypeLoop : Nat → Memory → Nat → Option Int
  | 0, _, _ => none
  | turns + 1, packet, popt =>
    if packet popt = 255 then some (-1)
    else if packet popt = 53 then some (packet (popt + 2)).toNat
    else messageTypeLoop turns packet (popt + ((packet (popt + 1)).toNat + 2))

/-- `dhcp_message_type`, with a number of turns for its loop. -/
def dhcpMessageType (turns : Nat) (packet : Memory) (popt : Nat) : Option Int :=
  if packet.load popt 4 ≠ bootpVendorMagic then some (-1)
  else messageTypeLoop turns packet (popt + 4)

/-- The length and content RFC 2132 gives the values of the options the client uses. A code of
zero stands for two pad bytes in a row. -/
def RightValue (code : UInt8) (value : List UInt8) : Prop :=
  match code.toNat with
  | 0 => value = []
  | 1 | 51 | 54 => value.length = 4
  | 3 | 6 => 4 ∣ value.length ∧ 4 ≤ value.length
  | 12 | 17 => 1 ≤ value.length
  | 53 => value.length = 1
  | 67 => value.headD 0 ≠ 0
  | 255 => False
  | _ => True

instance (code : UInt8) (value : List UInt8) : Decidable (RightValue code value) := by
  unfold RightValue
  split <;> infer_instance

/-- A well-formed option. -/
structure DhcpOption where
  code : UInt8
  value : List UInt8
  short : value.length < 256
  right : RightValue code value

namespace DhcpOption

/-- The bytes of an option. -/
def encode (o : DhcpOption) : List UInt8 := o.code :: UInt8.ofNat o.value.length :: o.value

/-- The number of bytes of an option. -/
def size (o : DhcpOption) : Nat := o.value.length + 2

end DhcpOption

/-- The bytes of an option area: the options in order and the end option. -/
def optionArea : List DhcpOption → List UInt8
  | [] => [255]
  | o :: rest => o.encode ++ optionArea rest

/-- The options that begin in the first `room` bytes of the area. -/
def reached (room : Nat) : List DhcpOption → List DhcpOption
  | [] => []
  | o :: rest => if 0 < room then o :: reached (room - o.size) rest else []

/-- The value of the last option with a code. -/
def latest (code : UInt8) (options : List DhcpOption) : Option (List UInt8) :=
  (options.findRev? (·.code = code)).map (·.value)

/-- The value of the first option with a code. -/
def earliest (code : UInt8) (options : List DhcpOption) : Option (List UInt8) :=
  (options.find? (·.code = code)).map (·.value)

/-- What an option does to the settings, by its code and value. -/
def storeOption (s : Settings) (o : DhcpOption) : Settings :=
  match o.code.toNat with
  | 1 => { s with netNetmask := o.value.take 4 }
  | 3 => { s with netGateway := o.value.take 4 }
  | 6 => { s with netDnsServer := o.value.take 4 }
  | 12 => { s with netHostname := copyText s.netHostname 0 (o.value.take (netHostnameSize - 1)) }
  | 17 => { s with netRootPath := copyText s.netRootPath 0 (o.value.take (netRootPathSize - 1)) }
  | 51 => { s with dhcpLeasetime := o.value.take 4 }
  | 54 => { s with dhcpServerIp := o.value.take 4 }
  | 67 =>
    if s.packet bpFile = 0 then
      { s with packet := copyText s.packet bpFile (o.value.take (bpFileSize - 1)) }
    else s
  | _ => s

section Walk

variable {packet : Memory} {popt : Nat} {o : DhcpOption} {rest : List UInt8}

@[simp] theorem DhcpOption.length_encode (o : DhcpOption) : o.encode.length = o.size := by
  simp [encode, size]

theorem DhcpOption.code_ne_end (o : DhcpOption) : o.code ≠ 255 := by
  intro same
  have right := o.right
  simp [same, RightValue] at right

theorem code_of_holds (stands : packet.Holds popt (o.encode ++ rest)) : packet popt = o.code := by
  simpa [DhcpOption.encode] using stands 0 (by simp [DhcpOption.size])

theorem length_of_holds (stands : packet.Holds popt (o.encode ++ rest)) :
    (packet (popt + 1)).toNat = o.value.length := by
  have byte := stands 1 (by simp [DhcpOption.size]; omega)
  simp only [DhcpOption.encode, List.cons_append, List.getElem_cons_succ,
    List.getElem_cons_zero] at byte
  rw [byte]
  exact UInt8.toNat_ofNat_of_lt o.short

theorem value_of_holds (stands : packet.Holds popt (o.encode ++ rest)) :
    packet.Holds (popt + 2) o.value := by
  have option := ((Memory.holds_append _ _ _ _).mp stands).1
  intro i inside
  have byte := option (2 + i) (by simp [DhcpOption.size]; omega)
  rw [← Nat.add_assoc] at byte
  rw [byte]
  simp [DhcpOption.encode, Nat.add_comm 2 i]

theorem rest_of_holds (stands : packet.Holds popt (o.encode ++ rest)) :
    packet.Holds (popt + o.size) rest := by
  have behind := ((Memory.holds_append _ _ _ _).mp stands).2
  rwa [DhcpOption.length_encode] at behind

theorem load_of_holds (stands : packet.Holds popt (o.encode ++ rest)) {count : Nat}
    (enough : count ≤ o.value.length) : packet.load (popt + 2) count = o.value.take count := by
  have whole := (value_of_holds stands).load
  rw [← whole, Memory.take_load, Nat.min_eq_left (by simpa using enough)]

theorem truncateSz_pos {room length : Nat} (wide : 1 < room) (some_text : 0 < length) :
    0 < truncateSz room length := by
  unfold truncateSz
  split <;> omega

theorem text_of_holds (stands : packet.Holds popt (o.encode ++ rest)) {room : Nat}
    (some_room : 0 < room) :
    packet.load (popt + 2) (truncateSz room (packet (popt + 1)).toNat) =
      o.value.take (room - 1) := by
  rw [length_of_holds stands]
  unfold truncateSz
  split
  case isTrue long => exact load_of_holds stands (by omega)
  case isFalse fits =>
    rw [load_of_holds stands le_rfl, List.take_of_length_le (le_refl _),
      List.take_of_length_le (by omega)]

theorem dhcpOption_eq {s : Settings} (stands : s.packet.Holds popt (o.encode ++ rest)) :
    dhcpOption popt s = storeOption s o := by
  have code := code_of_holds stands
  have right := o.right
  simp only [dhcpOption, storeOption, code, RightValue] at right ⊢
  generalize o.code.toNat = number at right ⊢
  split
  case h_1 => rw [load_of_holds stands (le_of_eq right.symm)]
  case h_2 => rw [load_of_holds stands right.2]
  case h_3 => rw [load_of_holds stands right.2]
  case h_4 => rw [text_of_holds stands (by decide)]
  case h_5 => rw [text_of_holds stands (by decide)]
  case h_6 => rw [load_of_holds stands (le_of_eq right.symm)]
  case h_7 => rw [load_of_holds stands (le_of_eq right.symm)]
  case h_8 =>
    have some_text : 0 < truncateSz bpFileSize (s.packet (popt + 1)).toNat := by
      rw [length_of_holds stands]
      cases value : o.value with
      | nil => simp [value] at right
      | cons head tail => exact truncateSz_pos (by decide) (by simp)
    rw [text_of_holds stands (by decide)]
    simp only [some_text, and_true]
  case h_9 => rfl

theorem copyText_outside (packet : Memory) (text : List UInt8) {a : Nat}
    (outside : a < bpFile ∨ bpFile + text.length < a) :
    copyText packet bpFile text a = packet a := by
  rw [copyText, Memory.store_outside _ _ _ _ (by simp; omega),
    Memory.store_outside _ _ _ _ (by omega)]

theorem storeOption_packet (s : Settings) (o : DhcpOption) {a : Nat}
    (outside : a < bpFile ∨ bpFile + bpFileSize ≤ a) :
    (storeOption s o).packet a = s.packet a := by
  unfold storeOption
  split <;> try rfl
  split
  case isTrue =>
    refine copyText_outside _ _ ?_
    have short : (o.value.take (bpFileSize - 1)).length ≤ bpFileSize - 1 := by simp
    have room : 0 < bpFileSize := by decide
    omega
  case isFalse => rfl

theorem storeOption_holds {s : Settings} {bytes : List UInt8} (o : DhcpOption)
    (behind : bpFile + bpFileSize ≤ popt) (stands : s.packet.Holds popt bytes) :
    (storeOption s o).packet.Holds popt bytes := by
  apply stands.congr
  intro a inside
  exact (storeOption_packet s o (Or.inr (by omega))).symm

theorem processLoop_eq (options : List DhcpOption) {turns last : Nat} {s : Settings}
    (behind : bpFile + bpFileSize ≤ popt) (enough : last - popt ≤ turns)
    (stands : s.packet.Holds popt (optionArea options)) :
    processLoop turns popt last s = (reached (last - popt) options).foldl storeOption s := by
  induction options generalizing turns popt s with
  | nil =>
    have ending : s.packet popt = 255 := by simpa [optionArea] using stands 0 (by simp [optionArea])
    cases turns <;> simp [processLoop, reached, ending]
  | cons o options ih =>
    rw [optionArea] at stands
    have code := code_of_holds stands
    cases turns with
    | zero => simp [processLoop, reached, Nat.le_zero.mp enough]
    | succ turns =>
      by_cases early : popt < last
      · have behind_rest := rest_of_holds stands
        rw [processLoop, if_pos ⟨early, by rw [code]; exact o.code_ne_end⟩, reached,
          if_pos (by omega), List.foldl_cons, dhcpOption_eq stands, length_of_holds stands,
          Nat.add_assoc]
        have moved : popt + (o.value.length + 2) = popt + o.size := rfl
        have step : 2 ≤ o.size := by simp [DhcpOption.size]
        rw [moved, Nat.sub_sub]
        exact ih (by omega) (by omega) (storeOption_holds o (by omega) behind_rest)
      · rw [processLoop, if_neg (fun running => early running.1), reached, if_neg (by omega)]
        rfl

end Walk

/-- The message type an option list announces: the value of its option 53, or -1. -/
def messageType (options : List DhcpOption) : Int :=
  match earliest 53 options with
  | some value => (value.headD 0).toNat
  | none => -1

theorem messageTypeLoop_eq {packet : Memory} (options : List DhcpOption) {turns popt : Nat}
    (enough : options.length < turns) (stands : packet.Holds popt (optionArea options)) :
    messageTypeLoop turns packet popt = some (messageType options) := by
  induction options generalizing turns popt with
  | nil =>
    have ending : packet popt = 255 := by simpa [optionArea] using stands 0 (by simp [optionArea])
    cases turns with
    | zero => simp at enough
    | succ turns => simp [messageTypeLoop, ending, messageType, earliest]
  | cons o options ih =>
    rw [optionArea] at stands
    have code := code_of_holds stands
    cases turns with
    | zero => simp at enough
    | succ turns =>
      rw [messageTypeLoop, code, if_neg o.code_ne_end, length_of_holds stands]
      by_cases announces : o.code = 53
      · have one : o.value.length = 1 := by simpa [RightValue, announces] using o.right
        obtain ⟨kind, value⟩ := List.length_eq_one_iff.mp one
        have byte := value_of_holds stands 0 (by omega)
        simp only [value, Nat.add_zero, List.getElem_cons_zero] at byte
        rw [if_pos announces, byte]
        simp [messageType, earliest, announces, value]
      · have next := ih (by simpa using enough) (rest_of_holds stands)
        have skipped : messageType (o :: options) = messageType options := by
          simp [messageType, earliest, announces]
        rw [if_neg announces, skipped]
        exact next

section Folds

variable {found : Option (List UInt8)} {s : Settings} {code : UInt8}

theorem foldl_latest (P : Option (List UInt8) → Settings → Prop)
    (kept : ∀ found s o, o.code ≠ code → P found s → P found (storeOption s o))
    (set : ∀ s (o : DhcpOption), o.code = code → P (some o.value) (storeOption s o))
    (options : List DhcpOption) (start : P found s) :
    P ((latest code options).or found) (options.foldl storeOption s) := by
  induction options generalizing s found with
  | nil => exact start
  | cons o options ih =>
    have split : (latest code (o :: options)).or found =
        (latest code options).or (if o.code = code then some o.value else found) := by
      unfold latest
      rw [List.findRev?]
      cases List.findRev? _ options with
      | some last => rfl
      | none =>
        by_cases same : o.code = code <;> simp [same]
    rw [split, List.foldl_cons]
    apply ih
    by_cases same : o.code = code
    · rw [if_pos same]
      exact set s o same
    · rw [if_neg same]
      exact kept found s o same start

theorem foldl_earliest (P : Option (List UInt8) → Settings → Prop)
    (kept : ∀ found s o, o.code ≠ code ∨ found ≠ none → P found s → P found (storeOption s o))
    (set : ∀ s (o : DhcpOption), o.code = code → P none s → P (some o.value) (storeOption s o))
    (options : List DhcpOption) (start : P found s) :
    P (found.or (earliest code options)) (options.foldl storeOption s) := by
  induction options generalizing s found with
  | nil =>
    have nothing : found.or (earliest code []) = found := by simp [earliest]
    rw [nothing]
    exact start
  | cons o options ih =>
    by_cases set_now : o.code = code ∧ found = none
    · obtain ⟨same, empty⟩ := set_now
      subst empty
      have here : earliest code (o :: options) = some o.value := by simp [earliest, same]
      have later := ih (set s o same start)
      rw [here]
      simpa using later
    · have skipped : found.or (earliest code (o :: options)) = found.or (earliest code options) := by
        cases found with
        | some value => rfl
        | none =>
          have other : o.code ≠ code := fun same => set_now ⟨same, rfl⟩
          simp [earliest, other]
      rw [skipped, List.foldl_cons]
      exact ih (kept found s o (by tauto) start)

end Folds

/-- Only the option of a field changes it. -/
structure OnlyOwn (code : UInt8) (before after : Settings) : Prop where
  netNetmask : code ≠ 1 → after.netNetmask = before.netNetmask
  netGateway : code ≠ 3 → after.netGateway = before.netGateway
  netDnsServer : code ≠ 6 → after.netDnsServer = before.netDnsServer
  netHostname : code ≠ 12 → after.netHostname = before.netHostname
  netRootPath : code ≠ 17 → after.netRootPath = before.netRootPath
  dhcpLeasetime : code ≠ 51 → after.dhcpLeasetime = before.dhcpLeasetime
  dhcpServerIp : code ≠ 54 → after.dhcpServerIp = before.dhcpServerIp
  packet : code ≠ 67 → after.packet = before.packet

theorem storeOption_onlyOwn (s : Settings) (o : DhcpOption) :
    OnlyOwn o.code s (storeOption s o) := by
  have number : ∀ code : UInt8, o.code ≠ code → o.code.toNat ≠ code.toNat := by
    intro code other same
    exact other (UInt8.toNat_inj.mp same)
  constructor <;> intro other <;> have differs := number _ other <;> unfold storeOption <;>
    split <;> first | rfl | contradiction | (split <;> rfl)

/-- The address a field holds after an option: the first four bytes of its value. -/
def addressOf (kept : List UInt8) : Option (List UInt8) → List UInt8
  | some value => value.take 4
  | none => kept

/-- The text a field of `room` bytes holds after an option: what fits, and a zero byte. -/
def TextIn (kept field : Memory) (start room : Nat) : Option (List UInt8) → Prop
  | some text => field.Holds start (text.take (room - 1) ++ [0])
  | none => field = kept

/-- What a list of options makes of the settings. -/
structure Decoded (before after : Settings) (options : List DhcpOption) : Prop where
  netNetmask : after.netNetmask = addressOf before.netNetmask (latest 1 options)
  netGateway : after.netGateway = addressOf before.netGateway (latest 3 options)
  netDnsServer : after.netDnsServer = addressOf before.netDnsServer (latest 6 options)
  netHostname : TextIn before.netHostname after.netHostname 0 netHostnameSize (latest 12 options)
  netRootPath : TextIn before.netRootPath after.netRootPath 0 netRootPathSize (latest 17 options)
  dhcpLeasetime : after.dhcpLeasetime = addressOf before.dhcpLeasetime (latest 51 options)
  dhcpServerIp : after.dhcpServerIp = addressOf before.dhcpServerIp (latest 54 options)
  fileKept : before.packet bpFile ≠ 0 → after.packet = before.packet
  fileFound : before.packet bpFile = 0 →
    TextIn before.packet after.packet bpFile bpFileSize (earliest 67 options)

theorem copyText_holds (field : Memory) (start : Nat) (text : List UInt8) :
    (copyText field start text).Holds start (text ++ [0]) := by
  rw [copyText, Memory.store_append]
  exact Memory.store_holds _ _ _

section Fields

variable (before : Settings) (options : List DhcpOption)

theorem foldl_address (field : Settings → List UInt8) {code : UInt8}
    (kept : ∀ s (o : DhcpOption), o.code ≠ code → field (storeOption s o) = field s)
    (set : ∀ s (o : DhcpOption), o.code = code → field (storeOption s o) = o.value.take 4) :
    field (options.foldl storeOption before) =
      addressOf (field before) (latest code options) := by
  have last := @foldl_latest none before code
    (fun found s => field s = addressOf (field before) found)
    (fun _ s o other same => (kept s o other).trans same) set options rfl
  rwa [Option.or_none] at last

theorem foldl_text (field : Settings → Memory) {code : UInt8} {room : Nat}
    (kept : ∀ s (o : DhcpOption), o.code ≠ code → field (storeOption s o) = field s)
    (set : ∀ s (o : DhcpOption), o.code = code →
      field (storeOption s o) = copyText (field s) 0 (o.value.take (room - 1))) :
    TextIn (field before) (field (options.foldl storeOption before)) 0 room
      (latest code options) := by
  have last := @foldl_latest none before code
    (fun found s => TextIn (field before) (field s) 0 room found)
    (fun found s o other same => by rw [kept s o other]; exact same)
    (fun s o same => by rw [set s o same]; exact copyText_holds _ _ _) options rfl
  rwa [Option.or_none] at last

theorem foldl_file_kept (given : before.packet bpFile ≠ 0) :
    (options.foldl storeOption before).packet = before.packet := by
  induction options generalizing before with
  | nil => rfl
  | cons o options ih =>
    have unchanged : (storeOption before o).packet = before.packet := by
      by_cases file : o.code = 67
      · simp [storeOption, file, given]
      · exact (storeOption_onlyOwn before o).packet file
    rw [List.foldl_cons, ih _ (by rwa [unchanged]), unchanged]

/-- Without a boot file in the packet the first option 67 gives it. -/
theorem foldl_file_found (empty : before.packet bpFile = 0) :
    TextIn before.packet (options.foldl storeOption before).packet bpFile bpFileSize
      (earliest 67 options) := by
  -- A name that was stored does not begin with zero, so later names are not used.
  have first := @foldl_earliest none before 67
    (fun found s => TextIn before.packet s.packet bpFile bpFileSize found ∧
      (s.packet bpFile = 0 ↔ found = none)) ?_ ?_ options ⟨rfl, by simp [empty]⟩
  · exact first.1
  · rintro found s o (other | stored) ⟨text, still⟩
    · rw [(storeOption_onlyOwn s o).packet other]
      exact ⟨text, still⟩
    · have unchanged : storeOption s o = s ∨ o.code ≠ 67 := by
        by_cases file : o.code = 67
        · exact Or.inl (by simp [storeOption, file, mt still.mp stored])
        · exact Or.inr file
      rcases unchanged with same | other
      · rw [same]
        exact ⟨text, still⟩
      · rw [(storeOption_onlyOwn s o).packet other]
        exact ⟨text, still⟩
  · rintro s o file ⟨-, still⟩
    have stored : (storeOption s o).packet =
        copyText s.packet bpFile (o.value.take (bpFileSize - 1)) := by
      simp [storeOption, file, still.mpr rfl]
    have holds := copyText_holds s.packet bpFile (o.value.take (bpFileSize - 1))
    rw [stored]
    refine ⟨holds, ?_⟩
    have name : o.value.headD 0 ≠ 0 := by simpa [RightValue, file] using o.right
    cases value : o.value with
    | nil => simp [value] at name
    | cons head tail =>
      rw [value] at holds name
      have byte := holds 0 (by simp)
      rw [Nat.add_zero] at byte
      rw [byte]
      simpa [bpFileSize] using name

theorem foldl_decoded : Decoded before (options.foldl storeOption before) options where
  netNetmask := foldl_address before options (·.netNetmask)
    (fun s o => (storeOption_onlyOwn s o).netNetmask) (fun s o same => by simp [storeOption, same])
  netGateway := foldl_address before options (·.netGateway)
    (fun s o => (storeOption_onlyOwn s o).netGateway) (fun s o same => by simp [storeOption, same])
  netDnsServer := foldl_address before options (·.netDnsServer)
    (fun s o => (storeOption_onlyOwn s o).netDnsServer)
    (fun s o same => by simp [storeOption, same])
  netHostname := foldl_text before options (·.netHostname)
    (fun s o => (storeOption_onlyOwn s o).netHostname)
    (fun s o same => by simp [storeOption, same])
  netRootPath := foldl_text before options (·.netRootPath)
    (fun s o => (storeOption_onlyOwn s o).netRootPath)
    (fun s o same => by simp [storeOption, same])
  dhcpLeasetime := foldl_address before options (·.dhcpLeasetime)
    (fun s o => (storeOption_onlyOwn s o).dhcpLeasetime)
    (fun s o same => by simp [storeOption, same])
  dhcpServerIp := foldl_address before options (·.dhcpServerIp)
    (fun s o => (storeOption_onlyOwn s o).dhcpServerIp)
    (fun s o same => by simp [storeOption, same])
  fileKept := foldl_file_kept before options
  fileFound := foldl_file_found before options

end Fields

/-- Both walkers agree with the list of options a reply carries: the message type is that of
option 53, and the settings are those of the options the walker reaches. -/
theorem dhcp_options_decoded (s : Settings) (options : List DhcpOption)
    (reply : s.packet.Holds bpVend (bootpVendorMagic ++ optionArea options)) :
    (∀ turns, options.length < turns →
      dhcpMessageType turns s.packet bpVend = some (messageType options)) ∧
    Decoded s (dhcpProcessOptions (bpVend + 4) s) (reached bootpHdrSize options) := by
  obtain ⟨magic, area⟩ := (Memory.holds_append _ _ _ _).mp reply
  have length : bootpVendorMagic.length = 4 := rfl
  rw [length] at area
  constructor
  · intro turns enough
    have seen : s.packet.load bpVend 4 = bootpVendorMagic := magic.load
    rw [dhcpMessageType, seen, if_neg (by simp)]
    exact messageTypeLoop_eq options enough area
  · rw [dhcpProcessOptions, processLoop_eq options (by decide) (by omega) area,
      Nat.add_sub_cancel_left]
    exact foldl_decoded s _

/-- The settings before any reply, with a packet that has nothing but an option area. -/
def replyWith (area : List UInt8) : Settings where
  netNetmask := [0, 0, 0, 0]
  netGateway := [0, 0, 0, 0]
  netDnsServer := [0, 0, 0, 0]
  dhcpLeasetime := [0, 0, 0, 0]
  dhcpServerIp := [0, 0, 0, 0]
  netHostname := Memory.blank
  netRootPath := Memory.blank
  packet := Memory.blank.store bpVend (bootpVendorMagic ++ area)

/-- An acknowledgement with two net masks. -/
def sampleAck : List DhcpOption :=
  [⟨53, [5], by decide, by decide⟩, ⟨1, [255, 0, 0, 0], by decide, by decide⟩,
    ⟨1, [255, 255, 255, 0], by decide, by decide⟩]

/-- The second net mask of the acknowledgement is kept. -/
theorem dhcp_options_decoded_ack :
    dhcpMessageType 4 (replyWith (optionArea sampleAck)).packet bpVend = some 5 ∧
    (dhcpProcessOptions (bpVend + 4) (replyWith (optionArea sampleAck))).netNetmask =
      [255, 255, 255, 0] := by
  have decoded := dhcp_options_decoded (replyWith (optionArea sampleAck)) sampleAck
    (Memory.store_holds _ _ _)
  exact ⟨decoded.1 4 (by decide), decoded.2.netNetmask⟩

/-- Two boot files, in options. -/
def sampleFiles : List DhcpOption :=
  [⟨67, [97], by decide, by decide⟩, ⟨67, [98], by decide, by decide⟩]

/-- A host name longer than the field for it. -/
def sampleLongName : List DhcpOption := [⟨12, List.replicate 40 104, by decide, by decide⟩]

/-- A net mask behind more bytes than the walker looks at. -/
def sampleFar : List DhcpOption :=
  List.replicate 3 ⟨43, List.replicate 255 1, by rw [List.length_replicate]; decide, trivial⟩ ++
    [⟨1, [255, 255, 255, 0], by decide, by decide⟩]

/-- Not every reply leaves the last value of each option: of two boot files the first is used,
a long host name is cut, a net mask behind the bound is not seen, and one pad byte takes the
code of the next option for a length. -/
theorem dhcp_options_decoded_otherwise :
    (dhcpProcessOptions (bpVend + 4) (replyWith (optionArea sampleFiles))).packet.load bpFile 2 =
      [97, 0] ∧
    (dhcpProcessOptions (bpVend + 4) (replyWith (optionArea sampleLongName))).netHostname.load 30 2 =
      [104, 0] ∧
    (dhcpProcessOptions (bpVend + 4) (replyWith (optionArea sampleFar))).netNetmask =
      [0, 0, 0, 0] ∧
    dhcpMessageType 4
      (replyWith (0 :: optionArea sampleAck ++ List.replicate 80 255)).packet bpVend =
      some (-1) := by
  refine ⟨by decide +kernel, by decide +kernel, by decide +kernel, by decide +kernel⟩

end HrppBoot.Net
