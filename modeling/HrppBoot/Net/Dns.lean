import HrppBoot.Lib.Traced
import HrppBoot.Net.Tftp

/-!
# DNS

`dns_send` asks for the address of one name, and `dns_handler` looks for it in the answer. It skips
the name of a record up to a zero byte, unless its first byte is `0xc0`, and takes the address of
the first A record that it comes to over CNAME records. The packet lies in memory from address 0 on.
-/

namespace HrppBoot.Net

open ByteMemory Traced

/-! ## The query -/

/-- The loop of `dns_send` over the name, with the characters of the chunk so far. -/
def encodeName (chunk : List UInt8) : List UInt8 → List UInt8
  | [] => UInt8.ofNat chunk.length :: chunk
  | c :: rest =>
    if c = 46 then UInt8.ofNat chunk.length :: (chunk ++ encodeName [] rest)
    else encodeName (chunk ++ [c]) rest

/-- `dns_send`: the query for a name. -/
def dnsSend (name : List UInt8) : List UInt8 :=
  [1, 0, 1, 0, 0, 1, 0, 0, 0, 0, 0, 0] ++ (encodeName [] name ++ [0, 0, 1, 0, 1])

/-! ## The handler -/

def dnsARecord : Nat := 1

def dnsCnameRecord : Nat := 5

/-- `get_unaligned_be16`. -/
def readHalf (m : Memory) (a : Nat) : Traced Nat := do
  access [⟨a, 2⟩]
  pure (ntohs m a)

/-- The loop over the host name, while a number of bytes are left of the packet. -/
def skipHost (m : Memory) : (left p : Nat) → Traced Nat
  | 0, p => pure p
  | left + 1, p => do
    let c ← readByte m p
    if c = 0 then pure p else skipHost m left (p + 1)

/-- The loop over the name of an answer, while a number of bytes are left in front of the last
twelve. -/
def skipName (m : Memory) : (left p : Nat) → Traced Nat
  | 0, p => do
    let _ ← readByte m p
    pure p
  | left + 1, p => do
    let c ← readByte m p
    if c = 0 then pure p else skipName m left (p + 1)

/-- The name of an answer: `p` is then two bytes in front of the type. -/
def skipAnswerName (m : Memory) (len p : Nat) : Traced Nat := do
  let c ← readByte m p
  if c ≠ 0xc0 then do
    let p ← skipName m (len - 12 - p) p
    pure (p - 1)
  else pure p

/-- The loop through the answers: where it stops with an A record. It is given up while it still
runs. -/
def answersLoop (m : Memory) (len : Nat) : (turns p : Nat) → Traced (Option Nat)
  | 0, _ => giveUp
  | turns + 1, p =>
    if p + 12 < len then do
      let p ← skipAnswerName m len p
      let type ← readHalf m (p + 2)
      if type = dnsCnameRecord then do
        let dlen ← readHalf m (p + 10)
        answersLoop m len turns (p + (12 + dlen))
      else if type = dnsARecord then pure (some p)
      else pure none
    else pure none

/-- The end of `dns_handler`: the address that is printed and stored. -/
def reportAddress (m : Memory) (len : Nat) : Option Nat → Traced (Option (List UInt8))
  | some p =>
    if p + 12 < len then do
      let dlen ← readHalf m (p + 10)
      let ip_addr ← readBytes m (p + 12) 4
      if p + 12 + dlen ≤ len then pure (some ip_addr) else pure none
    else pure none
  | none => pure none

/-- The part of `dns_handler` behind its header. -/
def dnsAnswers (m : Memory) (len : Nat) : Traced (Option (List UInt8)) := do
  let p ← skipHost m (len - 12) 12
  if p + 5 > len then pure none
  else do
    let type ← readHalf m (p + 1)
    if type ≠ dnsARecord then pure none
    else do
      let found ← answersLoop m len (len + 1) (p + 5)
      reportAddress m len found

/-- The loop that prints the packet where `DEBUG` is defined. Its counter has 16 bits. It is given
up while it still runs. -/
def debugLoop (len : Nat) : (turns i : Nat) → Traced Unit
  | 0, _ => giveUp
  | turns + 1, i => if i < len then debugLoop len turns ((i + 4) % 65536) else pure ()

/-- `dns_handler`: the address that is reported. -/
def dnsHandler (dns_our_port : Nat) (m : Memory) (dest len : Nat) :
    Traced (Option (List UInt8)) :=
  if dest ≠ dns_our_port then pure none
  else do
    debugLoop len (len + 1) 0
    let nqueries ← readHalf m 4
    if nqueries ≠ 1 then pure none
    else do
      let nanswers ← readHalf m 6
      if nanswers = 0 then pure none
      else dnsAnswers m len

/-! ## What the loops come to -/

/-- The first zero byte, or where the bytes end. -/
def firstZero (m : Memory) : (left p : Nat) → Nat
  | 0, p => p
  | left + 1, p => if m p = 0 then p else firstZero m left (p + 1)

/-- Where the handler expects the type of an answer, less two. -/
def answerName (m : Memory) (len p : Nat) : Nat :=
  if m p ≠ 0xc0 then firstZero m (len - 12 - p) p - 1 else p

/-- From the answer that begins at `p` the handler comes, over CNAME records, to one whose name it
takes to end at `q`. -/
inductive ComesTo (m : Memory) (len : Nat) : Nat → Nat → Prop
  | here {p : Nat} (inside : p + 12 < len) : ComesTo m len p (answerName m len p)
  | behind {p q : Nat} (inside : p + 12 < len)
    (cname : ntohs m (answerName m len p + 2) = dnsCnameRecord)
    (later : ComesTo m len
      (answerName m len p + (12 + ntohs m (answerName m len p + 10))) q) : ComesTo m len p q

/-- Where the loop through the answers stops with an A record. -/
def addressAt (m : Memory) (len : Nat) : (turns p : Nat) → Option Nat
  | 0, _ => none
  | turns + 1, p =>
    if p + 12 < len then
      if ntohs m (answerName m len p + 2) = dnsCnameRecord then
        addressAt m len turns (answerName m len p + (12 + ntohs m (answerName m len p + 10)))
      else if ntohs m (answerName m len p + 2) = dnsARecord then some (answerName m len p)
      else none
    else none

variable {m : Memory} {len p q left turns : Nat}

variable {wanted : Nat → Prop}

theorem keeps_readHalf {a : Nat} :
    (readHalf m a).Keeps 0 len wanted ↔ a + 2 ≤ len ∧ wanted (ntohs m a) := by
  have inside : Span.Within ⟨a, 2⟩ 0 len ↔ a + 2 ≤ len := by
    simp only [Span.Within, Span.Inside]
    omega
  rw [readHalf, keeps_bind, keeps_access, List.forall_mem_singleton, inside, keeps_pure]

theorem keeps_debugLoop {wanted : Unit → Prop} {i n : Nat} (short : len ≤ 65532)
    (enough : len - i < turns) : (debugLoop len turns i).Keeps 0 n wanted ↔ wanted () := by
  induction turns generalizing i with
  | zero => exact absurd enough (Nat.not_lt_zero _)
  | succ turns ih =>
    rw [debugLoop]
    by_cases inside : i < len
    · rw [if_pos inside, Nat.mod_eq_of_lt (by omega)]
      exact ih (by omega)
    · rw [if_neg inside]
      exact keeps_pure

theorem not_keeps_debugLoop {wanted : Unit → Prop} {i n : Nat} (long : 65532 < len)
    (aligned : i % 4 = 0) (narrow : i < 65536) : ¬(debugLoop len turns i).Keeps 0 n wanted := by
  induction turns generalizing i with
  | zero => exact not_keeps_giveUp
  | succ turns ih =>
    rw [debugLoop, if_pos (by omega)]
    exact ih (by omega) (Nat.mod_lt _ (by decide))

theorem firstZero_bounds (m : Memory) (left p : Nat) :
    p ≤ firstZero m left p ∧ firstZero m left p ≤ p + left := by
  induction left generalizing p with
  | zero => exact ⟨Nat.le_refl _, Nat.le_refl _⟩
  | succ left ih =>
    have next := ih (p + 1)
    rw [firstZero]
    split <;> omega

theorem keeps_skipHost (inside : p + left ≤ len) :
    (skipHost m left p).Keeps 0 len wanted ↔ wanted (firstZero m left p) := by
  induction left generalizing p with
  | zero => exact keeps_pure
  | succ left ih =>
    rw [skipHost, keeps_bind, keeps_readByte, firstZero,
      and_iff_right ⟨Nat.zero_le _, by omega⟩]
    by_cases zero : m p = 0
    · rw [if_pos zero, if_pos zero, keeps_pure]
    · rw [if_neg zero, if_neg zero]
      exact ih (by omega)

theorem keeps_skipName (inside : p + left < len) :
    (skipName m left p).Keeps 0 len wanted ↔ wanted (firstZero m left p) := by
  induction left generalizing p with
  | zero =>
    rw [skipName, keeps_bind, keeps_readByte, keeps_pure,
      and_iff_right ⟨Nat.zero_le _, inside⟩, firstZero]
  | succ left ih =>
    rw [skipName, keeps_bind, keeps_readByte, firstZero,
      and_iff_right ⟨Nat.zero_le _, by omega⟩]
    by_cases zero : m p = 0
    · rw [if_pos zero, if_pos zero, keeps_pure]
    · rw [if_neg zero, if_neg zero]
      exact ih (by omega)

theorem answerName_bounds (inside : p + 12 < len) :
    p ≤ answerName m len p + 1 ∧ answerName m len p + 12 < len := by
  have bounds := firstZero_bounds m (len - 12 - p) p
  unfold answerName
  split
  · by_cases first : 0 < firstZero m (len - 12 - p) p
    · omega
    · omega
  · omega

theorem keeps_skipAnswerName (inside : p + 12 < len) :
    (skipAnswerName m len p).Keeps 0 len wanted ↔ wanted (answerName m len p) := by
  rw [skipAnswerName, keeps_bind, keeps_readByte, and_iff_right ⟨Nat.zero_le _, by omega⟩,
    answerName]
  by_cases pointer : m p ≠ 0xc0
  · rw [if_pos pointer, if_pos pointer, keeps_bind, keeps_skipName (by omega), keeps_pure]
  · rw [if_neg pointer, if_neg pointer, keeps_pure]

theorem keeps_answersLoop {wanted : Option Nat → Prop} (enough : len - p < turns) :
    (answersLoop m len turns p).Keeps 0 len wanted ↔ wanted (addressAt m len turns p) := by
  induction turns generalizing p with
  | zero => exact absurd enough (Nat.not_lt_zero _)
  | succ turns ih =>
    rw [answersLoop, addressAt]
    by_cases inside : p + 12 < len
    · have bounds := @answerName_bounds m len p inside
      rw [if_pos inside, if_pos inside, keeps_bind, keeps_skipAnswerName inside, keeps_bind,
        keeps_readHalf, and_iff_right (by omega)]
      by_cases cname : ntohs m (answerName m len p + 2) = dnsCnameRecord
      · rw [if_pos cname, if_pos cname, keeps_bind, keeps_readHalf, and_iff_right (by omega)]
        exact ih (by omega)
      · rw [if_neg cname, if_neg cname]
        split
        · exact keeps_pure
        · exact keeps_pure
    · rw [if_neg inside, if_neg inside]
      exact keeps_pure

theorem keeps_reportAddress {wanted : Option (List UInt8) → Prop} {found : Option Nat}
    (inside : ∀ q, found = some q → q + 12 < len) :
    (reportAddress m len found).Keeps 0 len wanted ↔
      (∀ q, found = some q → q + 16 ≤ len) ∧ wanted (found.bind fun q =>
        if q + 12 + ntohs m (q + 10) ≤ len then some (m.load (q + 12) 4) else none) := by
  cases found with
  | none =>
    rw [reportAddress, keeps_pure]
    exact (and_iff_right fun q none => by cases none).symm
  | some q =>
    have early := inside q rfl
    have address : Span.Within ⟨q + 12, 4⟩ 0 len ↔ q + 16 ≤ len := by
      simp only [Span.Within, Span.Inside]
      omega
    have only : (∀ p, some q = some p → p + 16 ≤ len) ↔ q + 16 ≤ len :=
      ⟨fun all => all q rfl, fun fits p same => by cases same; exact fits⟩
    rw [reportAddress, if_pos early, keeps_bind, keeps_readHalf, and_iff_right (by omega),
      keeps_bind, keeps_readBytes, address, only, Option.bind_some]
    refine and_congr_right fun _ => ?_
    split
    · exact keeps_pure
    · exact keeps_pure

/-- The loop through the answers stops with an A record that it comes to. -/
theorem addressAt_eq_some (enough : len - p < turns) :
    addressAt m len turns p = some q ↔
      ComesTo m len p q ∧ ntohs m (q + 2) = dnsARecord := by
  induction turns generalizing p with
  | zero => exact absurd enough (Nat.not_lt_zero _)
  | succ turns ih =>
    rw [addressAt]
    by_cases inside : p + 12 < len
    · have bounds := @answerName_bounds m len p inside
      rw [if_pos inside]
      by_cases cname : ntohs m (answerName m len p + 2) = dnsCnameRecord
      · rw [if_pos cname, ih (by omega)]
        refine and_congr_left fun address => ⟨.behind inside cname, fun comes => ?_⟩
        cases comes with
        | here _ =>
          rw [cname] at address
          cases address
        | behind _ _ later => exact later
      · rw [if_neg cname]
        have only : ComesTo m len p q ↔ answerName m len p = q := by
          constructor
          · intro comes
            cases comes with
            | here _ => rfl
            | behind _ another _ => exact absurd another cname
          · rintro rfl
            exact .here inside
        rw [only]
        split
        · next address =>
          rw [Option.some.injEq]
          exact (and_iff_left_of_imp fun same => same ▸ address).symm
        · next address =>
          refine iff_of_false (by simp) ?_
          rintro ⟨rfl, found⟩
          exact address found
    · rw [if_neg inside]
      refine iff_of_false (by simp) ?_
      rintro ⟨comes, -⟩
      cases comes with
      | here early => exact inside early
      | behind early _ _ => exact inside early

theorem ComesTo.inside (comes : ComesTo m len p q) : q + 12 < len := by
  induction comes with
  | here early => exact (answerName_bounds early).2
  | behind _ _ _ ih => exact ih

/-! ## The handler as a whole -/

/-- The zero byte behind the host name, or where the packet ends. -/
def hostEnd (m : Memory) (len : Nat) : Nat := firstZero m (len - 12) 12

def Answered (m : Memory) (len : Nat) : Prop :=
  ntohs m 4 = 1 ∧ ntohs m 6 ≠ 0 ∧ hostEnd m len + 5 ≤ len ∧
    ntohs m (hostEnd m len + 1) = dnsARecord

instance (m : Memory) (len : Nat) : Decidable (Answered m len) :=
  inferInstanceAs (Decidable (_ ∧ _ ∧ _ ∧ _))

/-- What the handler reads of the header was received. -/
def HeaderReceived (m : Memory) (len : Nat) : Prop := 6 ≤ len ∧ (ntohs m 4 = 1 → 8 ≤ len)

/-- The address of an A record that the handler comes to was received. -/
def AddressReceived (m : Memory) (len : Nat) : Prop :=
  Answered m len → ∀ q, ComesTo m len (hostEnd m len + 5) q → ntohs m (q + 2) = dnsARecord →
    q + 16 ≤ len

def reported (m : Memory) (len : Nat) : Option (List UInt8) :=
  if Answered m len then
    (addressAt m len (len + 1) (hostEnd m len + 5)).bind fun q =>
      if q + 12 + ntohs m (q + 10) ≤ len then some (m.load (q + 12) 4) else none
  else none

theorem keeps_dnsAnswers {wanted : Option (List UInt8) → Prop} (queries : ntohs m 4 = 1)
    (answers : ntohs m 6 ≠ 0) :
    (dnsAnswers m len).Keeps 0 len wanted ↔ AddressReceived m len ∧ wanted (reported m len) := by
  by_cases short : len ≤ 12
  · have none : len - 12 = 0 := by omega
    have stop : hostEnd m len = 12 := by rw [hostEnd, none, firstZero]
    have not : ¬Answered m len := by
      rintro ⟨-, -, inside, -⟩
      omega
    rw [dnsAnswers, none, skipHost, keeps_bind, keeps_pure, if_pos (by omega), keeps_pure, reported,
      if_neg not]
    exact (and_iff_right fun answered => absurd answered not).symm
  · rw [dnsAnswers, keeps_bind, keeps_skipHost (by omega),
      show firstZero m (len - 12) 12 = hostEnd m len from rfl]
    by_cases inside : hostEnd m len + 5 ≤ len
    · rw [if_neg (Nat.not_lt.mpr inside), keeps_bind, keeps_readHalf, and_iff_right (by omega)]
      by_cases type : ntohs m (hostEnd m len + 1) = dnsARecord
      · have answered : Answered m len := ⟨queries, answers, inside, type⟩
        have found (q : Nat) := @addressAt_eq_some m len (hostEnd m len + 5) q (len + 1) (by omega)
        rw [if_neg (not_not.mpr type), keeps_bind, keeps_answersLoop (by omega),
          keeps_reportAddress fun q stops => ((found q).mp stops).1.inside, reported,
          if_pos answered, AddressReceived, imp_iff_right answered]
        refine and_congr_left fun _ => forall_congr' fun q => ?_
        rw [found q, and_imp]
      · have not : ¬Answered m len := fun answered => type answered.2.2.2
        rw [if_pos type, keeps_pure, reported, if_neg not]
        exact (and_iff_right fun answered => absurd answered not).symm
    · have not : ¬Answered m len := fun answered => inside answered.2.2.1
      rw [if_pos (Nat.not_le.mp inside), keeps_pure, reported, if_neg not]
      exact (and_iff_right fun answered => absurd answered not).symm

theorem keeps_dnsHandler (port : Nat) {wanted : Option (List UInt8) → Prop} :
    (dnsHandler port m port len).Keeps 0 len wanted ↔
      len ≤ 65532 ∧ HeaderReceived m len ∧ AddressReceived m len ∧ wanted (reported m len) := by
  rw [dnsHandler, if_neg (not_not.mpr rfl), keeps_bind]
  by_cases short : len ≤ 65532
  swap
  · exact iff_of_false (not_keeps_debugLoop (by omega) rfl (by decide)) fun all => short all.1
  rw [keeps_debugLoop short (by omega), and_iff_right short, keeps_bind, keeps_readHalf,
    HeaderReceived, and_assoc]
  refine and_congr_right fun _ => ?_
  by_cases queries : ntohs m 4 = 1
  · rw [if_neg (not_not.mpr queries), imp_iff_right queries, keeps_bind, keeps_readHalf]
    refine and_congr_right fun _ => ?_
    by_cases answers : ntohs m 6 = 0
    · have not : ¬Answered m len := fun answered => answered.2.1 answers
      rw [if_pos answers, keeps_pure, reported, if_neg not]
      exact (and_iff_right fun answered => absurd answered not).symm
    · rw [if_neg answers]
      exact keeps_dnsAnswers queries answers
  · have not : ¬Answered m len := fun answered => queries answered.1
    rw [if_pos queries, keeps_pure, reported, if_neg not,
      and_iff_right fun right => absurd right queries]
    exact (and_iff_right fun answered => absurd answered not).symm

/-! ## Responses -/

/-- A label: its length and its characters. -/
def encodeLabel (label : List UInt8) : List UInt8 := UInt8.ofNat label.length :: label

/-- A label has 1 to 63 characters, and none of them is zero. -/
def LabelOk (label : List UInt8) : Prop := (0 < label.length ∧ label.length < 64) ∧ 0 ∉ label

structure HostName where
  labels : List (List UInt8)
  nonempty : labels ≠ []
  wellFormed : ∀ label ∈ labels, LabelOk label
  dotless : ∀ label ∈ labels, 46 ∉ label

def HostName.text (host : HostName) : List UInt8 := [46].intercalate host.labels

structure WireName where
  labels : List (List UInt8)
  pointer : Option Nat
  wellFormed : ∀ label ∈ labels, LabelOk label
  narrow : ∀ offset ∈ pointer, offset < 2 ^ 14

def WireName.ending (name : WireName) : List UInt8 :=
  match name.pointer with
  | none => [0]
  | some offset => [UInt8.ofNat (0xc0 + offset / 256), UInt8.ofNat offset]

def WireName.encode (name : WireName) : List UInt8 :=
  name.labels.flatMap encodeLabel ++ name.ending

/-- A name that is skipped to its end: one without a pointer, a pointer to one of the first 256
bytes alone, or one whose pointer ends in a zero byte. -/
def WireName.Skippable (name : WireName) : Prop :=
  ∀ offset ∈ name.pointer, name.labels = [] ∧ offset < 256 ∨ offset % 256 = 0

/-- A record of class 1. -/
structure DnsRecord where
  name : WireName
  ttl : List UInt8
  ttlSize : ttl.length = 4
  rdata : List UInt8
  rdataShort : rdata.length < 65536

def DnsRecord.encode (type : Nat) (record : DnsRecord) : List UInt8 :=
  record.name.encode ++ (be16 type ++ (be16 1 ++ (record.ttl ++
    (be16 record.rdata.length ++ record.rdata))))

/-- A response to a query: CNAME records, and A records behind them. -/
structure DnsResponse where
  host : HostName
  start : List UInt8
  startSize : start.length = 4
  cnames : List DnsRecord
  first : DnsRecord
  address : first.rdata.length = 4
  more : List DnsRecord
  addresses : ∀ record ∈ more, record.rdata.length = 4
  few : cnames.length + more.length + 1 < 65536
  counts : List UInt8
  countsSize : counts.length = 4
  others : List UInt8

/-- The bytes of a response; the question is that of the query. -/
def DnsResponse.encode (r : DnsResponse) : List UInt8 :=
  r.start ++ (be16 1 ++ (be16 (r.cnames.length + r.more.length + 1) ++ (r.counts ++
    ((dnsSend r.host.text).drop 12 ++ (r.cnames.flatMap (DnsRecord.encode dnsCnameRecord) ++
      (r.first.encode dnsARecord ++ (r.more.flatMap (DnsRecord.encode dnsARecord) ++
        r.others)))))))

def DnsResponse.In (r : DnsResponse) (m : Memory) (len : Nat) : Prop :=
  m.Holds 0 r.encode ∧ r.encode.length = len

/-- The names up to the first A record are skipped to their ends. -/
def DnsResponse.Skippable (r : DnsResponse) : Prop :=
  (∀ record ∈ r.cnames, record.name.Skippable) ∧ r.first.name.Skippable

/-! ## Names -/

section Names

variable {a n type : Nat} {labels : List (List UInt8)} {tail : List UInt8} {name : WireName}
  {record : DnsRecord}

theorem encodeName_append {label : List UInt8} (dotless : 46 ∉ label) (chunk rest : List UInt8) :
    encodeName chunk (label ++ rest) = encodeName (chunk ++ label) rest := by
  induction label generalizing chunk with
  | nil => rw [List.nil_append, List.append_nil]
  | cons c label ih =>
    obtain ⟨other, later⟩ := not_or.mp (mt List.mem_cons.mpr dotless)
    rw [List.cons_append, encodeName, if_neg (Ne.symm other), ih later, List.append_assoc,
      List.singleton_append]

theorem encodeName_intercalate (nonempty : labels ≠ []) (dotless : ∀ label ∈ labels, 46 ∉ label) :
    encodeName [] ([46].intercalate labels) = labels.flatMap encodeLabel := by
  induction labels with
  | nil => exact absurd rfl nonempty
  | cons label rest ih =>
    obtain ⟨first, later⟩ := List.forall_mem_cons.mp dotless
    cases rest with
    | nil =>
      have whole := encodeName_append first [] []
      rw [List.append_nil, List.nil_append] at whole
      rw [List.intercalate_singleton, whole]
      exact (List.append_nil _).symm
    | cons next rest =>
      rw [List.intercalate_cons_cons, List.append_assoc, encodeName_append first,
        List.singleton_append, encodeName, if_pos rfl, List.nil_append,
        ih (List.cons_ne_nil _ _) later]
      rfl

theorem question_eq (host : HostName) :
    (dnsSend host.text).drop 12 = host.labels.flatMap encodeLabel ++ [0, 0, 1, 0, 1] := by
  rw [dnsSend, HostName.text, encodeName_intercalate host.nonempty host.dotless]
  rfl

theorem zero_notMem_labels (wellFormed : ∀ label ∈ labels, LabelOk label) :
    0 ∉ labels.flatMap encodeLabel := by
  intro member
  obtain ⟨label, here, zero⟩ := List.mem_flatMap.mp member
  obtain ⟨⟨some_text, short⟩, ended⟩ := wellFormed label here
  rcases List.mem_cons.mp zero with size | text
  · have value := congrArg UInt8.toNat size
    rw [UInt8.toNat_ofNat', Nat.mod_eq_of_lt (by omega)] at value
    have none : 0 = label.length := value
    omega
  · exact ended text

theorem first_of_labels {c : UInt8} (wellFormed : ∀ label ∈ labels, LabelOk label)
    (stands : m.Holds a (labels.flatMap encodeLabel ++ c :: tail)) (other : labels = [] → c ≠ 0xc0)
    : m a ≠ 0xc0 := by
  cases labels with
  | nil =>
    have byte : m a = c := stands 0 (Nat.succ_pos _)
    rw [byte]
    exact other rfl
  | cons label rest =>
    have short := (wellFormed label List.mem_cons_self).1.2
    have byte : m a = UInt8.ofNat label.length := stands 0 (Nat.succ_pos _)
    intro pointer
    have value := congrArg UInt8.toNat (byte.symm.trans pointer)
    rw [UInt8.toNat_ofNat', Nat.mod_eq_of_lt (by omega)] at value
    have big : label.length = 192 := value
    omega

theorem firstZero_eq {front : List UInt8} (stands : m.Holds p (front ++ 0 :: tail))
    (nonzero : 0 ∉ front) (room : front.length ≤ left) :
    firstZero m left p = p + front.length := by
  induction front generalizing p left with
  | nil =>
    have zero : m p = 0 := stands 0 (Nat.succ_pos _)
    cases left with
    | zero => rfl
    | succ left =>
      rw [firstZero, if_pos zero]
      rfl
  | cons c front ih =>
    obtain ⟨other, later⟩ := not_or.mp (mt List.mem_cons.mpr nonzero)
    have byte : m p = c := stands 0 (Nat.succ_pos _)
    have behind : m.Holds (p + 1) (front ++ 0 :: tail) :=
      ((Memory.holds_append _ _ [c] _).mp stands).2
    rw [List.length_cons] at room
    obtain ⟨left, rfl⟩ := Nat.exists_eq_succ_of_ne_zero (show left ≠ 0 by omega)
    rw [firstZero, if_neg (by rw [byte]; exact Ne.symm other), ih behind later (by omega),
      List.length_cons]
    omega

theorem answerName_of_last {front : List UInt8} (stands : m.Holds p (front ++ 0 :: tail))
    (nonzero : 0 ∉ front) (other : m p ≠ 0xc0) (room : p + front.length + 12 ≤ len) :
    answerName m len p = p + front.length - 1 := by
  rw [answerName, if_pos other, firstZero_eq stands nonzero (by omega)]

theorem pointer_ne_zero {offset : Nat} (narrow : offset < 2 ^ 14) :
    UInt8.ofNat (0xc0 + offset / 256) ≠ 0 ∧
      (UInt8.ofNat (0xc0 + offset / 256) = 0xc0 ↔ offset < 256) := by
  have value : (UInt8.ofNat (0xc0 + offset / 256)).toNat = 0xc0 + offset / 256 := by
    rw [UInt8.toNat_ofNat', Nat.mod_eq_of_lt (by omega)]
  constructor
  · intro zero
    rw [zero] at value
    have none : 0 = 0xc0 + offset / 256 := value
    omega
  · rw [← UInt8.toNat_inj, value]
    have pointer : (0xc0 : UInt8).toNat = 0xc0 := rfl
    rw [pointer]
    omega

theorem pointer_eq_zero (offset : Nat) : UInt8.ofNat offset = 0 ↔ offset % 256 = 0 := by
  rw [← UInt8.toNat_inj, UInt8.toNat_ofNat']
  rfl

/-- A name is skipped to its end, or one byte further. -/
theorem answerName_name (stands : m.Holds p (name.encode ++ 0 :: tail)) (positive : 0 < p)
    (room : p + name.encode.length + 12 ≤ len) :
    (name.Skippable → answerName m len p + 2 = p + name.encode.length) ∧
      (¬name.Skippable → answerName m len p + 1 = p + name.encode.length) := by
  have nonzero := zero_notMem_labels name.wellFormed
  cases pointer : name.pointer with
  | none =>
    have bytes : name.encode = name.labels.flatMap encodeLabel ++ [0] := by
      rw [WireName.encode, WireName.ending, pointer]
    have skippable : name.Skippable := by
      rw [WireName.Skippable, pointer]
      exact fun offset none => absurd none (Option.not_mem_none _)
    rw [bytes, List.append_assoc, List.singleton_append] at stands
    rw [bytes, List.length_append, List.length_singleton] at room ⊢
    have other := first_of_labels name.wellFormed stands fun _ => by decide
    have skipped := @answerName_of_last m len p _ _ stands nonzero other (by omega)
    exact ⟨fun _ => by omega, fun not => absurd skippable not⟩
  | some offset =>
    have bytes : name.encode = name.labels.flatMap encodeLabel ++
        [UInt8.ofNat (0xc0 + offset / 256), UInt8.ofNat offset] := by
      rw [WireName.encode, WireName.ending, pointer]
    have skippable : name.Skippable ↔
        name.labels = [] ∧ offset < 256 ∨ offset % 256 = 0 := by
      rw [WireName.Skippable, pointer]
      exact ⟨fun all => all offset rfl, fun fits other same => by cases same; exact fits⟩
    obtain ⟨high, direct⟩ := pointer_ne_zero (name.narrow offset pointer)
    rw [skippable]
    rw [bytes, List.append_assoc] at stands
    rw [bytes, List.length_append] at room ⊢
    have two : [UInt8.ofNat (0xc0 + offset / 256), UInt8.ofNat offset].length = 2 := rfl
    rw [two] at room ⊢
    by_cases alone : name.labels = [] ∧ offset < 256
    · rw [alone.1] at stands ⊢
      have byte : m p = UInt8.ofNat (0xc0 + offset / 256) := stands 0 (Nat.succ_pos _)
      have same : m p = 0xc0 := byte.trans (direct.mpr alone.2)
      rw [answerName, if_neg (not_not.mpr same)]
      exact ⟨fun _ => rfl, fun not => absurd (.inl ⟨rfl, alone.2⟩) not⟩
    · have other : m p ≠ 0xc0 := first_of_labels name.wellFormed stands fun empty same =>
        alone ⟨empty, direct.mp same⟩
      have front : 0 ∉ name.labels.flatMap encodeLabel ++ [UInt8.ofNat (0xc0 + offset / 256)] := by
        rw [List.mem_append, List.mem_singleton]
        exact not_or.mpr ⟨nonzero, Ne.symm high⟩
      by_cases low : offset % 256 = 0
      · rw [(pointer_eq_zero offset).mpr low, List.cons_append, List.cons_append,
          ← List.singleton_append, ← List.append_assoc] at stands
        have skipped := @answerName_of_last m len p _ _ stands front other
          (by rw [List.length_append, List.length_singleton]; omega)
        rw [List.length_append, List.length_singleton] at skipped
        exact ⟨fun _ => by omega, fun not => absurd (.inr low) not⟩
      · have whole : 0 ∉ name.labels.flatMap encodeLabel ++
            [UInt8.ofNat (0xc0 + offset / 256), UInt8.ofNat offset] := by
          rw [List.mem_append, List.mem_cons, List.mem_singleton]
          exact not_or.mpr ⟨nonzero, not_or.mpr
            ⟨Ne.symm high, fun zero => low ((pointer_eq_zero offset).mp zero.symm)⟩⟩
        rw [← List.append_assoc] at stands
        have skipped := @answerName_of_last m len p _ _ stands whole other
          (by rw [List.length_append, two]; omega)
        rw [List.length_append, two] at skipped
        exact ⟨fun skip => absurd skip (not_or.mpr ⟨alone, low⟩), fun _ => by omega⟩

/-! ## Records -/

theorem record_fields (stands : m.Holds a (record.encode type ++ tail)) :
    m.Holds a (record.name.encode ++ (be16 type ++ (be16 1 ++ (record.ttl ++
      (be16 record.rdata.length ++ (record.rdata ++ tail)))))) ∧
      m.Holds (a + record.name.encode.length) (be16 type) ∧
      m.Holds (a + record.name.encode.length + 2) (be16 1) ∧
      m.Holds (a + record.name.encode.length + 8) (be16 record.rdata.length) ∧
      m.Holds (a + record.name.encode.length + 10) record.rdata ∧
      m.Holds (a + (record.encode type).length) tail := by
  have behind := ((Memory.holds_append _ _ _ _).mp stands).2
  rw [DnsRecord.encode] at stands
  simp only [List.append_assoc] at stands
  obtain ⟨-, fields⟩ := (Memory.holds_append _ _ _ _).mp stands
  obtain ⟨type, fields⟩ := (Memory.holds_append _ _ _ _).mp fields
  obtain ⟨cls, fields⟩ := (Memory.holds_append _ _ _ _).mp fields
  obtain ⟨-, fields⟩ := (Memory.holds_append _ _ _ _).mp fields
  obtain ⟨size, fields⟩ := (Memory.holds_append _ _ _ _).mp fields
  obtain ⟨rdata, -⟩ := (Memory.holds_append _ _ _ _).mp fields
  rw [record.ttlSize] at size rdata
  exact ⟨stands, type, cls, size, rdata, behind⟩

theorem length_record (type : Nat) (record : DnsRecord) :
    (record.encode type).length = record.name.encode.length + 10 + record.rdata.length := by
  have size := record.ttlSize
  have two (n : Nat) : (be16 n).length = 2 := rfl
  simp only [DnsRecord.encode, List.length_append, two]
  omega

theorem length_name_pos (name : WireName) : 0 < name.encode.length := by
  rw [WireName.encode, List.length_append]
  have ending : 0 < name.ending.length := by
    unfold WireName.ending
    split <;> exact Nat.succ_pos _
  omega

/-- What the handler reads of a record whose name is skipped to its end, and of any other. -/
theorem answerName_record (stands : m.Holds p (record.encode type ++ tail)) (positive : 0 < p)
    (narrow : type < 256) (room : p + record.name.encode.length + 12 ≤ len) :
    (record.name.Skippable →
      ntohs m (answerName m len p + 2) = type ∧
        ntohs m (answerName m len p + 10) = record.rdata.length ∧
        m.Holds (answerName m len p + 12) record.rdata ∧
        answerName m len p + (12 + record.rdata.length) = p + (record.encode type).length) ∧
      (¬record.name.Skippable → ntohs m (answerName m len p + 2) = 256 * type) := by
  obtain ⟨whole, kind, cls, size, rdata, -⟩ := record_fields stands
  have some_name := length_name_pos record.name
  have zero : be16 type = 0 :: [UInt8.ofNat type] := by
    rw [be16, Nat.div_eq_of_lt narrow]
    rfl
  rw [zero, List.cons_append] at whole
  obtain ⟨skipped, further⟩ := answerName_name whole positive room
  have length := length_record type record
  constructor
  · intro skippable
    have ends := skipped skippable
    have ten : answerName m len p + 10 = p + record.name.encode.length + 8 := by omega
    have twelve : answerName m len p + 12 = p + record.name.encode.length + 10 := by omega
    rw [ends, ten, twelve]
    exact ⟨ntohs_be16 kind (by omega), ntohs_be16 size record.rdataShort, rdata, by omega⟩
  · intro not
    have ends := further not
    have low : m (p + record.name.encode.length + 1) = UInt8.ofNat type := kind 1 Nat.one_lt_two
    have high : m (p + record.name.encode.length + 2) = 0 := cls 0 Nat.zero_lt_two
    have next : answerName m len p + 2 = p + record.name.encode.length + 1 := by omega
    have zeroValue : (0 : UInt8).toNat = 0 := rfl
    rw [next, ntohs, low, high, UInt8.toNat_ofNat', Nat.mod_eq_of_lt narrow, zeroValue]
    rfl

/-- Over CNAME records the handler comes to the first A record if it skips their names and its name
to their ends. Otherwise it stops. -/
theorem addressAt_records {cnames : List DnsRecord} {first : DnsRecord} {turns : Nat}
    (address : first.rdata.length = 4)
    (stands : m.Holds p (cnames.flatMap (DnsRecord.encode dnsCnameRecord) ++
      (first.encode dnsARecord ++ tail))) (positive : 0 < p)
    (room : p + (cnames.flatMap (DnsRecord.encode dnsCnameRecord)).length +
      (first.encode dnsARecord).length ≤ len) (enough : len - p < turns) :
    ((∀ record ∈ cnames, record.name.Skippable) ∧ first.name.Skippable →
      ∃ q, addressAt m len turns p = some q ∧ ntohs m (q + 10) = 4 ∧
        m.Holds (q + 12) first.rdata ∧ q + 16 ≤ len) ∧
      (¬((∀ record ∈ cnames, record.name.Skippable) ∧ first.name.Skippable) →
        addressAt m len turns p = none) := by
  have firstLength := length_record dnsARecord first
  have firstName := length_name_pos first.name
  induction cnames generalizing p turns with
  | nil =>
    rw [List.flatMap_nil, List.nil_append] at stands
    rw [List.flatMap_nil, List.length_nil] at room
    obtain ⟨turns, rfl⟩ := Nat.exists_eq_succ_of_ne_zero (show turns ≠ 0 by omega)
    have enoughRoom : p + first.name.encode.length + 12 ≤ len := by omega
    obtain ⟨skipped, further⟩ := answerName_record stands positive (by decide) enoughRoom
    rw [addressAt, if_pos (show p + 12 < len by omega)]
    constructor
    · rintro ⟨-, skippable⟩
      obtain ⟨type, size, rdata, ends⟩ := skipped skippable
      rw [type, if_neg (by decide), if_pos rfl]
      exact ⟨_, rfl, size.trans address, rdata, by omega⟩
    · intro not
      have type := further fun skippable =>
        not ⟨fun _ none => absurd none List.not_mem_nil, skippable⟩
      rw [type, if_neg (by decide), if_neg (by decide)]
  | cons record rest ih =>
    have recordLength := length_record dnsCnameRecord record
    rw [List.flatMap_cons, List.append_assoc] at stands
    rw [List.flatMap_cons, List.length_append] at room
    obtain ⟨turns, rfl⟩ := Nat.exists_eq_succ_of_ne_zero (show turns ≠ 0 by omega)
    have enoughRoom : p + record.name.encode.length + 12 ≤ len := by omega
    obtain ⟨skipped, further⟩ := answerName_record stands positive (by decide) enoughRoom
    rw [addressAt, if_pos (show p + 12 < len by omega), List.forall_mem_cons, and_assoc]
    by_cases skippable : record.name.Skippable
    · obtain ⟨type, size, -, ends⟩ := skipped skippable
      have behind := (record_fields stands).2.2.2.2.2
      rw [type, if_pos rfl, size, ends, and_iff_right skippable]
      exact ih behind (by omega) (by omega) (by omega)
    · rw [further skippable, if_neg (by decide), if_neg (by decide)]
      exact ⟨fun both => absurd both.1 skippable, fun _ => rfl⟩

end Names

/-! ## Responses that are understood -/

variable {r : DnsResponse}

/-- The handler gets to the answers of a response, behind its question. -/
theorem DnsResponse.In.answered (response : r.In m len) :
    Answered m len ∧
      hostEnd m len + 5 = 12 + (r.host.labels.flatMap encodeLabel).length + 5 ∧
      m.Holds (12 + (r.host.labels.flatMap encodeLabel).length + 5)
        (r.cnames.flatMap (DnsRecord.encode dnsCnameRecord) ++ (r.first.encode dnsARecord ++
          (r.more.flatMap (DnsRecord.encode dnsARecord) ++ r.others))) ∧
      12 + (r.host.labels.flatMap encodeLabel).length + 5 +
        (r.cnames.flatMap (DnsRecord.encode dnsCnameRecord)).length +
        (r.first.encode dnsARecord).length ≤ len := by
  obtain ⟨stands, length⟩ := response
  have startSize := r.startSize
  have countsSize := r.countsSize
  have two (n : Nat) : (be16 n).length = 2 := rfl
  have five : [(0 : UInt8), 0, 1, 0, 1].length = 5 := rfl
  rw [DnsResponse.encode, question_eq] at stands length
  simp only [List.length_append, two, five, startSize, countsSize] at length
  obtain ⟨-, behind⟩ := (Memory.holds_append _ _ _ _).mp stands
  obtain ⟨queries, behind⟩ := (Memory.holds_append _ _ _ _).mp behind
  obtain ⟨answers, behind⟩ := (Memory.holds_append _ _ _ _).mp behind
  obtain ⟨-, behind⟩ := (Memory.holds_append _ _ _ _).mp behind
  rw [startSize] at queries answers behind
  rw [countsSize] at behind
  obtain ⟨question, records⟩ := (Memory.holds_append _ _ _ _).mp behind
  have name := firstZero_eq question (zero_notMem_labels r.host.wellFormed)
    (show _ ≤ len - 12 by omega)
  have stop : hostEnd m len = 12 + (r.host.labels.flatMap encodeLabel).length := name
  obtain ⟨-, qtype⟩ := (Memory.holds_append _ _ _ _).mp question
  have high : m (12 + (r.host.labels.flatMap encodeLabel).length + 1) = 0 := qtype 1 (by decide)
  have low : m (12 + (r.host.labels.flatMap encodeLabel).length + 2) = 1 := qtype 2 (by decide)
  have count := ntohs_be16 answers r.few
  refine ⟨⟨ntohs_be16 queries (by decide), ?_, by omega, ?_⟩, by omega, ?_, by omega⟩
  · have here : ntohs m 6 = r.cnames.length + r.more.length + 1 := count
    omega
  · rw [stop, ntohs, high, low]
    rfl
  · rw [List.length_append, five, ← Nat.add_assoc] at records
    exact records

theorem DnsResponse.In.reported_iff (response : r.In m len) :
    reported m len = some r.first.rdata ↔ r.Skippable := by
  obtain ⟨answered, start, stands, room⟩ := response.answered
  obtain ⟨found, lost⟩ := @addressAt_records m len _ _ _ _ (len + 1) r.address stands (by omega)
    room (by omega)
  rw [reported, if_pos answered, start]
  by_cases skippable : r.Skippable
  · obtain ⟨q, stops, size, rdata, inside⟩ := found skippable
    have bytes := rdata.load
    rw [r.address] at bytes
    rw [stops, Option.bind_some, size, if_pos (by omega), bytes]
    exact iff_of_true rfl skippable
  · rw [lost skippable]
    exact iff_of_false (fun none => by cases none) skippable

/-- For every packet, the handler ends, reads only inside, and reports the address of the first A
record of a response exactly where a counter of 16 bits gets to the end of the packet, header and
address were received, and the names of the response up to that record are skipped to their ends.
A packet to another port is not looked at. -/
theorem dns_handler_iff (dns_our_port : Nat) (m : Memory) (dest len : Nat) :
    (dnsHandler dns_our_port m dest len).Keeps 0 len (fun reported =>
        dest = dns_our_port → ∀ r : DnsResponse, r.In m len → reported = some r.first.rdata) ↔
      (dest = dns_our_port → len ≤ 65532 ∧ HeaderReceived m len ∧ AddressReceived m len ∧
        ∀ r : DnsResponse, r.In m len → r.Skippable) := by
  by_cases port : dest = dns_our_port
  · subst port
    simp only [forall_const]
    rw [keeps_dnsHandler]
    refine and_congr_right fun _ => and_congr_right fun _ => and_congr_right fun _ => ?_
    exact forall_congr' fun r => forall_congr' fun response => response.reported_iff
  · rw [dnsHandler, if_pos port, keeps_pure]
    exact iff_of_true (fun same => absurd same port) fun same => absurd same port

theorem labelOk_singleton {c : UInt8} (nonzero : 0 ≠ c) : LabelOk [c] :=
  ⟨⟨Nat.one_pos, show 1 < 64 by decide⟩, fun zero => nonzero (List.mem_singleton.mp zero)⟩

theorem labelOk_ab : ∀ label ∈ [[(97 : UInt8)], [98]], LabelOk label :=
  List.forall_mem_cons.mpr ⟨labelOk_singleton (by decide),
    List.forall_mem_singleton.mpr (labelOk_singleton (by decide))⟩

theorem dotless_ab : ∀ label ∈ [[(97 : UInt8)], [98]], 46 ∉ label :=
  List.forall_mem_cons.mpr ⟨fun dot => absurd (List.mem_singleton.mp dot) (by decide),
    List.forall_mem_singleton.mpr fun dot => absurd (List.mem_singleton.mp dot) (by decide)⟩

theorem narrow_14 : ∀ offset ∈ some 14, offset < 2 ^ 14 := by
  rintro offset ⟨⟩
  decide

/-- The name `a.b` as a label and a pointer to the `b` of the question. -/
def labelAndPointer : WireName :=
  ⟨[[97]], some 14, List.forall_mem_singleton.mpr (labelOk_singleton (by decide)), narrow_14⟩

/-- A response to the query for `a.b`, whose A record has its name so. -/
def pointerResponse : DnsResponse where
  host := ⟨[[97], [98]], List.cons_ne_nil _ _, labelOk_ab, dotless_ab⟩
  start := [1, 0, 129, 128]
  startSize := rfl
  cnames := []
  first := ⟨labelAndPointer, [0, 0, 0, 60], rfl, [10, 0, 0, 1], show 4 < 65536 by decide⟩
  address := rfl
  more := []
  addresses := fun _ none => absurd none List.not_mem_nil
  few := show 1 < 65536 by decide
  counts := [0, 0, 0, 0]
  countsSize := rfl
  others := []

/-- Its address is not reported. -/
theorem pointerResponse_lost :
    ¬(dnsHandler 4000 (Memory.blank.store 0 pointerResponse.encode) 4000 39).Keeps 0 39
      (fun reported => 4000 = 4000 → ∀ r : DnsResponse,
        r.In (Memory.blank.store 0 pointerResponse.encode) 39 → reported = some r.first.rdata) := by
  have response : pointerResponse.In (Memory.blank.store 0 pointerResponse.encode) 39 :=
    ⟨Memory.store_holds _ _ _, by decide⟩
  rw [keeps_dnsHandler]
  rintro ⟨-, -, -, right⟩
  have skippable := response.reported_iff.mp (right rfl pointerResponse response)
  rcases skippable.2 14 rfl with ⟨empty, -⟩ | zero
  · cases empty
  · exact absurd zero (by decide)

end HrppBoot.Net
