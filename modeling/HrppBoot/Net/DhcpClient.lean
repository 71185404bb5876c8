import HrppBoot.Net.DhcpRequest

/-!
# The DHCP client

Datagrams from anyone reach `dhcp_handler` between the retries. What it lets through carries an
identifier of the last four requests. It answers the first of that, whatever its message type, and
is bound to the address in the first acknowledgement behind it, whichever server sent that.
-/

namespace HrppBoot.Net

open ByteMemory

/-! ## The functions -/

/-- `dhcp_state_t`. -/
inductive DhcpState
  | init | initReboot | rebooting | selecting | requesting | rebinding | bound | renewing
  deriving DecidableEq

/-- What `dhcp_handler` is called with, and the sender in the Ethernet header. -/
structure Datagram where
  packet : Memory
  dest : Nat
  src : Nat
  len : Nat
  etSrc : List UInt8

/-- What is broadcast. The addresses are those given to `dhcp_extended`. -/
inductive DhcpSent
  | discover (bp_id bp_file : List UInt8)
  | request (bp_id server_ip requested_ip : List UInt8)
  deriving DecidableEq

structure DhcpClient where
  dhcpState : DhcpState
  bootpIds : List (List UInt8)
  netIp : List UInt8
  netServerIp : List UInt8
  netServerEthaddr : List UInt8
  netBootFileName : List UInt8
  /-- The variable of that name. -/
  bootfile : Option (List UInt8)
  /-- With the reply that was used last. -/
  settings : Settings
  sent : List DhcpSent

/-- `CONFIG_BOOTP_ID_CACHE_SIZE`. -/
def bootpIdCacheSize : Nat := 4

def bootpAddId (id : List UInt8) (bootp_ids : List (List UInt8)) : List (List UInt8) :=
  if bootpIdCacheSize ≤ bootp_ids.length then bootp_ids.tail ++ [id] else bootp_ids ++ [id]

/-- The end of the hardware address and the time, in network order. -/
def bootpId (net_ethaddr : List UInt8) (timer : UInt32) : List UInt8 :=
  let address := (net_ethaddr.drop 2).foldl (fun (id : UInt32) byte => id <<< 8 ||| byte.toUInt32) 0
  octets (address + timer)

/-- `copy_filename` of the bytes at `src`: a name may stand in quotes. -/
def copyFilename (src : List UInt8) (size : Nat) : List UInt8 :=
  let text := if src.head? = some 34 then src.tail.take (size - 2) else src.take (size - 1)
  text.takeWhile fun c => c ≠ 0 ∧ c ≠ 34

def bootpReset (c : DhcpClient) : DhcpClient := { c with bootpIds := [] }

def bootpRequest (net_ethaddr : List UInt8) (timer : UInt32) (c : DhcpClient) : DhcpClient :=
  let bootp_id := bootpId net_ethaddr timer
  { c with
    dhcpState := .selecting
    bootpIds := bootpAddId bootp_id c.bootpIds
    sent := c.sent ++ [.discover bootp_id (copyFilename c.netBootFileName bpFileSize)] }

/-- The options of a reply, which `dhcp_handler` reads behind the magic. -/
def replyOptions (d : Datagram) (c : DhcpClient) : DhcpClient :=
  let settings := { c.settings with packet := d.packet }
  { c with
    settings :=
      if d.packet.load bpVend 4 = bootpVendorMagic then dhcpProcessOptions (bpVend + 4) settings
      else settings }

def dhcpSendRequestPacket (c : DhcpClient) : DhcpClient :=
  let bp_offer := c.settings.packet
  { c with
    sent := c.sent ++ [.request (bp_offer.load 4 4) c.settings.dhcpServerIp (bp_offer.load 16 4)] }

def storeNetParams (d : Datagram) (c : DhcpClient) : DhcpClient :=
  let bp := c.settings.packet
  let siaddr := bp.load 20 4
  let name :=
    if bp bpFile ≠ 0 then copyFilename (bp.load bpFile bpFileSize) 128 else c.netBootFileName
  { c with
    netServerIp := if siaddr ≠ [0, 0, 0, 0] then siaddr else c.netServerIp
    netServerEthaddr := d.etSrc
    netBootFileName := name
    bootfile := if name ≠ [] then some name else c.bootfile
    netIp := bp.load 16 4 }

/-- The handler lets a datagram through. -/
def Accepted (bootp_ids : List (List UInt8)) (d : Datagram) : Prop :=
  checkPacket bootp_ids d.packet d.dest d.src d.len = 0

instance (bootp_ids : List (List UInt8)) : DecidablePred (Accepted bootp_ids) :=
  fun _ => inferInstanceAs (Decidable (_ = _))

/-- The test of `CONFIG_SYS_BOOTFILE_PREFIX`, which is empty where there is none. -/
def Offer (bootfile_start : List UInt8) (d : Datagram) : Prop :=
  d.packet.load bpFile bootfile_start.length = bootfile_start

instance (bootfile_start : List UInt8) : DecidablePred (Offer bootfile_start) :=
  fun _ => inferInstanceAs (Decidable (_ = _))

/-- `dhcp_handler`; `none` where the walk for the message type takes more than `turns` turns. -/
def dhcpHandler (turns : Nat) (bootfile_start : List UInt8) (c : DhcpClient) (d : Datagram) :
    Option DhcpClient :=
  if ¬ Accepted c.bootpIds d then some c
  else match c.dhcpState with
  | .selecting =>
    if Offer bootfile_start d then
      some (dhcpSendRequestPacket (replyOptions d { c with dhcpState := .requesting }))
    else some c
  | .requesting => do
    let type ← dhcpMessageType turns d.packet bpVend
    if type = 5 then
      some { storeNetParams d (replyOptions d c) with dhcpState := .bound }
    else some c
  | _ => some c

/-- What the client is called for. `net_loop` starts it, also again when the retries are over. -/
inductive DhcpEvent
  | netLoop (timer : UInt32)
  | timeout (timer : UInt32)
  | receive (d : Datagram)

section Client

variable (turns : Nat) (bootfile_start net_ethaddr : List UInt8)

/-- One call: `net_loop` resets the client and its address, `bootp_timeout_handler` asks again. -/
def dhcpStep (c : DhcpClient) : DhcpEvent → Option DhcpClient
  | .netLoop timer =>
    some (bootpRequest net_ethaddr timer { bootpReset c with netIp := [0, 0, 0, 0] })
  | .timeout timer => some (bootpRequest net_ethaddr timer c)
  | .receive d => dhcpHandler turns bootfile_start c d

/-- The client over a run. -/
def dhcpRun (c : DhcpClient) (events : List DhcpEvent) : Option DhcpClient :=
  events.foldlM (dhcpStep turns bootfile_start net_ethaddr) c

end Client

/-! ## What they are for -/

/-- What was asked and came since the client was started. -/
structure Session where
  ids : List (List UInt8)
  /-- The datagrams since the last request. -/
  ds : List Datagram

/-- A request begins another exchange. -/
def Session.step (net_ethaddr : List UInt8) (s : Session) : DhcpEvent → Session
  | .netLoop timer => ⟨[bootpId net_ethaddr timer], []⟩
  | .timeout timer => ⟨s.ids ++ [bootpId net_ethaddr timer], []⟩
  | .receive d => { s with ds := s.ds ++ [d] }

/-- The identifiers that are still known. -/
def recent (ids : List (List UInt8)) : List (List UInt8) := ids.drop (ids.length - bootpIdCacheSize)

/-- What is let through, from the first on that is answered. -/
def replies (bootfile_start : List UInt8) (bootp_ids : List (List UInt8)) (ds : List Datagram) :
    List Datagram :=
  (ds.filter (Accepted bootp_ids)).dropWhile fun d => ¬ Offer bootfile_start d

/-- The first acknowledgement, if any; `none` where a walk in front of it does not end. -/
def firstAck (turns : Nat) : List Datagram → Option (Option Datagram)
  | [] => some none
  | d :: rest => do
    let type ← dhcpMessageType turns d.packet bpVend
    if type = 5 then some (some d) else firstAck turns rest

/-- The client has answered the first reply with its identifier and address, and has the address in
the first acknowledgement behind it. -/
def Exchange (turns : Nat) (c : DhcpClient) : List Datagram → Prop
  | [] => c.dhcpState = .selecting
  | offer :: later =>
    (∃ server_ip, c.sent.getLast? =
      some (.request (offer.packet.load 4 4) server_ip (offer.packet.load 16 4))) ∧
    match firstAck turns later with
    | none => False
    | some none => c.dhcpState = .requesting
    | some (some ack) => c.dhcpState = .bound ∧ c.netIp = ack.packet.load 16 4

/-- The client is where the session has led. -/
structure InSession (turns : Nat) (bootfile_start : List UInt8) (s : Session) (c : DhcpClient) :
    Prop where
  bootpIds : c.bootpIds = recent s.ids
  discovered : ∀ id ∈ c.bootpIds, ∃ file, .discover id file ∈ c.sent
  exchange : Exchange turns c (replies bootfile_start (recent s.ids) s.ds)

/-! ## One step -/

section Steps

variable {turns : Nat} {bootfile_start net_ethaddr : List UInt8} {c b : DhcpClient} {s : Session}
  {d : Datagram}

theorem bootpAddId_recent (id : List UInt8) (ids : List (List UInt8)) :
    bootpAddId id (recent ids) = recent (ids ++ [id]) := by
  have known : (recent ids).length = ids.length - (ids.length - bootpIdCacheSize) :=
    List.length_drop
  have size : bootpIdCacheSize = 4 := rfl
  rw [size] at known
  rw [bootpAddId, known, recent, recent, List.length_append, List.length_singleton, size,
    List.drop_append_of_le_length (by omega)]
  split
  case isTrue full => rw [List.tail_drop, show ids.length + 1 - 4 = ids.length - 4 + 1 by omega]
  case isFalse room => rw [show ids.length + 1 - 4 = ids.length - 4 by omega]

theorem replyOptions_load {a n : Nat} (low : a + n ≤ bpFile) :
    (replyOptions d c).settings.packet.load a n = d.packet.load a n := by
  refine Memory.load_congr ?_
  intro i inside
  rw [replyOptions]
  dsimp only
  split
  · exact (textsInside_processLoop _ _ _ _).file.1 i (.inl (by omega))
  · rfl

theorem replies_append (ids : List (List UInt8)) (ds : List Datagram) :
    replies bootfile_start ids (ds ++ [d]) =
      match replies bootfile_start ids ds with
      | [] => if Accepted ids d ∧ Offer bootfile_start d then [d] else []
      | offer :: later => offer :: (later ++ if Accepted ids d then [d] else []) := by
  unfold replies
  rw [List.filter_append, List.dropWhile_append]
  cases List.dropWhile _ (List.filter _ ds) with
  | nil =>
    by_cases accepted : Accepted ids d <;> by_cases offer : Offer bootfile_start d <;>
      simp [accepted, offer, List.dropWhile]
  | cons offer later => by_cases accepted : Accepted ids d <;> simp [accepted]

theorem firstAck_append (ds : List Datagram) :
    firstAck turns (ds ++ [d]) = (firstAck turns ds).bind fun
      | none => firstAck turns [d]
      | some ack => some (some ack) := by
  induction ds with
  | nil => rfl
  | cons first rest ih =>
    rw [List.cons_append, firstAck, firstAck, ih]
    cases dhcpMessageType turns first.packet bpVend with
    | none => rfl
    | some type => by_cases ack : type = 5 <;> simp [ack]

theorem follows_bootpRequest {ids : List (List UInt8)} (timer : UInt32)
    (same : c.bootpIds = recent ids)
    (discovered : ∀ id ∈ c.bootpIds, ∃ file, .discover id file ∈ c.sent) :
    InSession turns bootfile_start ⟨ids ++ [bootpId net_ethaddr timer], []⟩
      (bootpRequest net_ethaddr timer c) where
  bootpIds := by rw [← bootpAddId_recent, ← same]; rfl
  discovered := by
    intro id known
    have either : id ∈ c.bootpIds ∨ id = bootpId net_ethaddr timer := by
      have added : id ∈ bootpAddId (bootpId net_ethaddr timer) c.bootpIds := known
      unfold bootpAddId at added
      split at added
      · exact (List.mem_append.mp added).imp List.mem_of_mem_tail List.mem_singleton.mp
      · exact (List.mem_append.mp added).imp_right List.mem_singleton.mp
    rcases either with old | rfl
    · obtain ⟨file, sent⟩ := discovered id old
      exact ⟨file, List.mem_append_left _ sent⟩
    · exact ⟨_, List.mem_append_right _ (List.mem_singleton_self _)⟩
  exchange := rfl

/-- What the handler does with a datagram continues the exchange. -/
theorem exchange_dhcpHandler {ds : List Datagram}
    (exchange : Exchange turns c (replies bootfile_start c.bootpIds ds))
    (handled : dhcpHandler turns bootfile_start c d = some b) :
    Exchange turns b (replies bootfile_start c.bootpIds (ds ++ [d])) := by
  rw [replies_append]
  unfold dhcpHandler at handled
  by_cases accepted : Accepted c.bootpIds d
  · rw [if_neg (not_not.mpr accepted)] at handled
    revert exchange
    cases replies bootfile_start c.bootpIds ds with
    | nil =>
      intro selecting
      rw [show c.dhcpState = .selecting from selecting] at handled
      by_cases offer : Offer bootfile_start d
      · obtain rfl := Option.some.inj ((if_pos offer).symm.trans handled)
        simp only [accepted, offer, and_self, if_true]
        refine ⟨⟨(replyOptions d c).settings.dhcpServerIp, ?_⟩, rfl⟩
        rw [dhcpSendRequestPacket, List.getLast?_concat, replyOptions_load (by decide),
          replyOptions_load (by decide)]
        rfl
      · obtain rfl := Option.some.inj ((if_neg offer).symm.trans handled)
        simp only [offer, and_false, if_false]
        exact selecting
    | cons offer later =>
      rintro ⟨asked, state⟩
      simp only [accepted, if_true]
      rw [Exchange, firstAck_append]
      cases found : firstAck turns later with
      | none =>
        rw [found] at state
        exact state.elim
      | some ack =>
        rw [found] at state
        cases ack with
        | none =>
          rw [show c.dhcpState = .requesting from state] at handled
          rw [Option.bind_some, firstAck]
          cases kind : dhcpMessageType turns d.packet bpVend with
          | none =>
            simp only [kind] at handled
            cases handled
          | some type =>
            simp only [kind, Option.bind_eq_bind, Option.bind_some] at handled ⊢
            by_cases acknowledged : type = 5
            · rw [if_pos acknowledged] at handled ⊢
              obtain rfl := Option.some.inj handled
              exact ⟨asked, rfl, replyOptions_load (by decide)⟩
            · rw [if_neg acknowledged] at handled ⊢
              obtain rfl := Option.some.inj handled
              exact ⟨asked, state⟩
        | some ack =>
          rw [state.1] at handled
          obtain rfl := Option.some.inj handled
          exact ⟨asked, state⟩
  · rw [if_pos accepted] at handled
    obtain rfl := Option.some.inj handled
    simp only [accepted, false_and, if_false, List.append_nil]
    revert exchange
    cases replies bootfile_start c.bootpIds ds <;> exact id

theorem dhcpHandler_kept (handled : dhcpHandler turns bootfile_start c d = some b) :
    b.bootpIds = c.bootpIds ∧ c.sent <+: b.sent := by
  unfold dhcpHandler at handled
  split at handled
  · obtain rfl := Option.some.inj handled
    exact ⟨rfl, List.prefix_refl _⟩
  split at handled
  · split at handled
    · obtain rfl := Option.some.inj handled
      exact ⟨rfl, List.prefix_append _ _⟩
    · obtain rfl := Option.some.inj handled
      exact ⟨rfl, List.prefix_refl _⟩
  · obtain ⟨type, -, handled⟩ := Option.bind_eq_some_iff.mp handled
    split at handled <;> obtain rfl := Option.some.inj handled <;> exact ⟨rfl, List.prefix_refl _⟩
  · obtain rfl := Option.some.inj handled
    exact ⟨rfl, List.prefix_refl _⟩

theorem follows_netLoop (c : DhcpClient) (timer : UInt32) :
    InSession turns bootfile_start ⟨[bootpId net_ethaddr timer], []⟩
      (bootpRequest net_ethaddr timer { bootpReset c with netIp := [0, 0, 0, 0] }) :=
  @follows_bootpRequest turns bootfile_start net_ethaddr _ [] timer rfl
    fun _ known => absurd known List.not_mem_nil

theorem InSession.step (follows : InSession turns bootfile_start s c) (event : DhcpEvent)
    (stepped : dhcpStep turns bootfile_start net_ethaddr c event = some b) :
    InSession turns bootfile_start (s.step net_ethaddr event) b := by
  cases event with
  | netLoop timer =>
    obtain rfl := Option.some.inj stepped
    exact follows_netLoop c timer
  | timeout timer =>
    obtain rfl := Option.some.inj stepped
    exact follows_bootpRequest timer follows.bootpIds follows.discovered
  | receive d =>
    obtain ⟨ids, sent⟩ := dhcpHandler_kept stepped
    have exchange := follows.exchange
    rw [← follows.bootpIds] at exchange
    have continued := exchange_dhcpHandler exchange stepped
    rw [follows.bootpIds] at continued
    refine ⟨ids.trans follows.bootpIds, ?_, continued⟩
    rw [ids]
    intro id known
    obtain ⟨file, was⟩ := follows.discovered id known
    exact ⟨file, sent.subset was⟩

theorem InSession.run (events : List DhcpEvent) (follows : InSession turns bootfile_start s c)
    (ran : dhcpRun turns bootfile_start net_ethaddr c events = some b) :
    InSession turns bootfile_start (events.foldl (Session.step net_ethaddr) s) b := by
  induction events generalizing c s with
  | nil =>
    obtain rfl := Option.some.inj ran
    exact follows
  | cons event rest ih =>
    rw [dhcpRun, List.foldlM_cons] at ran
    obtain ⟨next, stepped, later⟩ := Option.bind_eq_some_iff.mp ran
    exact ih (follows.step event stepped) later

theorem dhcpStep_isSome (c : DhcpClient) (event : DhcpEvent)
    (ends : ∀ d, event = .receive d → (dhcpMessageType turns d.packet bpVend).isSome) :
    (dhcpStep turns bootfile_start net_ethaddr c event).isSome := by
  cases event with
  | netLoop timer => rfl
  | timeout timer => rfl
  | receive d =>
    obtain ⟨type, kind⟩ := Option.isSome_iff_exists.mp (ends d rfl)
    rw [dhcpStep, dhcpHandler]
    split
    · rfl
    split
    · split <;> rfl
    · simp only [kind, Option.bind_eq_bind, Option.bind_some]
      split <;> rfl
    · rfl

theorem dhcpRun_isSome (c : DhcpClient) (events : List DhcpEvent)
    (ends : ∀ d, .receive d ∈ events → (dhcpMessageType turns d.packet bpVend).isSome) :
    (dhcpRun turns bootfile_start net_ethaddr c events).isSome := by
  induction events generalizing c with
  | nil => rfl
  | cons event rest ih =>
    obtain ⟨next, stepped⟩ := Option.isSome_iff_exists.mp
      (@dhcpStep_isSome turns bootfile_start net_ethaddr c event fun d here =>
        ends d (here ▸ List.mem_cons_self))
    rw [dhcpRun, List.foldlM_cons, stepped]
    exact ih next fun d behind => ends d (List.mem_cons_of_mem event behind)

end Steps

/-! ## Whole runs -/

/-- In any order of datagrams, retries and restarts the client is where the session has led, and it
comes to an end with every datagram in which the walk for the message type ends. -/
theorem dhcpRun_follows (turns : Nat) (bootfile_start net_ethaddr : List UInt8) (c : DhcpClient)
    (timer : UInt32) (events : List DhcpEvent) :
    (∀ b, dhcpRun turns bootfile_start net_ethaddr c (.netLoop timer :: events) = some b →
      InSession turns bootfile_start
        (events.foldl (Session.step net_ethaddr) ⟨[bootpId net_ethaddr timer], []⟩) b) ∧
    ((∀ d, .receive d ∈ events → (dhcpMessageType turns d.packet bpVend).isSome) →
      (dhcpRun turns bootfile_start net_ethaddr c (.netLoop timer :: events)).isSome) := by
  constructor
  · intro b ran
    rw [dhcpRun, List.foldlM_cons] at ran
    exact (follows_netLoop c timer).run events ran
  · intro ends
    refine dhcpRun_isSome c _ fun d received => ends d ?_
    rcases List.mem_cons.mp received with other | later
    · cases other
    · exact later

/-- A datagram from a server, with a message type and the address it offers. -/
def sampleDatagram (id : List UInt8) (type : UInt8) (host : UInt8) : Datagram where
  packet := ((Memory.blank.store 0 ([2, 1, 6, 0] ++ id)).store 16 [10, 0, 0, host]).store bpVend
    (bootpVendorMagic ++ [53, 1, type, 255])
  dest := portBootpc
  src := portBootps
  len := bootpHdrSize
  etSrc := [0, 0, 0, 0, 0, 1]

def sampleOff : DhcpClient where
  dhcpState := .init
  bootpIds := []
  netIp := [0, 0, 0, 0]
  netServerIp := [0, 0, 0, 0]
  netServerEthaddr := [0, 0, 0, 0, 0, 0]
  netBootFileName := []
  bootfile := none
  settings := replyWith []
  sent := []

/-- An offer to the first request and an acknowledgement to the second, of different addresses. -/
def sampleEvents : List DhcpEvent :=
  [.timeout 256, .receive (sampleDatagram [0, 0, 0, 1] 2 7),
    .receive (sampleDatagram [0, 0, 0, 2] 6 8), .receive (sampleDatagram [0, 0, 1, 1] 5 9)]

/-- The client is bound to an address that it has not asked for. -/
theorem dhcpRun_follows_other :
    ∃ b, dhcpRun 2 [] [0, 0, 0, 0, 0, 1] sampleOff (.netLoop 0 :: sampleEvents) = some b ∧
      b.dhcpState = .bound ∧ b.netIp = [10, 0, 0, 9] ∧
      ∃ server_ip, b.sent.getLast? = some (.request [0, 0, 0, 1] server_ip [10, 0, 0, 7]) := by
  have whole := dhcpRun_follows 2 [] [0, 0, 0, 0, 0, 1] sampleOff 0 sampleEvents
  have ends : ∀ d, .receive d ∈ sampleEvents → (dhcpMessageType 2 d.packet bpVend).isSome := by
    intro d member
    simp only [sampleEvents, List.mem_cons, DhcpEvent.receive.injEq, reduceCtorEq, false_or,
      List.not_mem_nil, or_false] at member
    rcases member with rfl | rfl | rfl <;> rfl
  obtain ⟨b, ran⟩ := Option.isSome_iff_exists.mp (whole.2 ends)
  have exchange : Exchange 2 b [sampleDatagram [0, 0, 0, 1] 2 7, sampleDatagram [0, 0, 1, 1] 5 9] :=
    (whole.1 b ran).exchange
  obtain ⟨asked, state⟩ := exchange
  exact ⟨b, ran, state.1, state.2, asked⟩

end HrppBoot.Net
