import HrppBoot.Net.NfsLoad

/-!
# Where NFS replies are written

The parsers of `net/nfs.c` take lengths from the packet as they are: its own, that of a link and
that of the bytes read. What they write and copy is listed here beside the parsers, range by range.
It is inside its storage exactly where these lengths happen to fit.
-/

namespace HrppBoot.Net

open ByteMemory

/-! ## Ranges -/

/-- The storage that replies are written to. -/
inductive Storage where
  /-- The local `rpc_pkt`. -/
  | rpcPkt
  | dirfh
  | filefh
  | nfsPathBuff
  deriving DecidableEq, Repr

/-- Its number of bytes. -/
def Storage.size : Storage → Nat
  | .rpcPkt => rpcPktSize
  | .dirfh => nfsFhsize
  | .filefh => nfsFhsize
  | .nfsPathBuff => nfsPathSize

/-- A range that is accessed. -/
inductive Access where
  | write (storage : Storage) (start : Int) (count : Nat)
  | load (start count : Nat)
  deriving DecidableEq

/-- The bytes are inside their storage, or inside a packet of `len` bytes. -/
def Access.Inside (len : Nat) : Access → Prop
  | .write storage start count => 0 < count → 0 ≤ start ∧ start + count ≤ storage.size
  | .load start count => 0 < count → start + count ≤ len

/-- `memcpy((unsigned char *)&rpc_pkt, pkt, len)` -/
def RpcPacket.copyAccess (p : RpcPacket) : Access := .write .rpcPkt 0 p.len

/-- `strcat`, `memcpy` and the zero byte of `nfs_readlink_reply`. -/
def linkAccesses (m : Memory) (path : List UInt8) : List Access :=
  let rlen := replyData m 1
  if m 32 ≠ 0x2f then
    [.write .nfsPathBuff path.length 2, .write .nfsPathBuff (path.length + 1 : Nat) rlen,
      .write .nfsPathBuff (path.length + 1 + rlen : Nat) 1]
  else [.write .nfsPathBuff 0 rlen, .write .nfsPathBuff rlen 1]

/-- The path that `nfs_readlink_reply` leaves. -/
def linkedPath (m : Memory) (path : List UInt8) : List UInt8 :=
  let text := zeroEnded (m.load 32 (replyData m 1))
  if m 32 ≠ 0x2f then path ++ 0x2f :: text else text

/-- The zero byte of `dirname`: over the last slash, or two bytes before the path if it has none. -/
def dirnameAccess (path : List UInt8) : Access :=
  let base := path.reverse.takeWhile (· ≠ 0x2f)
  .write .nfsPathBuff (if 0x2f ∈ path then (path.length - base.length - 1 : Nat) else -2) 1

namespace Nfs

/-- The reply is to the last request, and without an error. -/
def carried (s : Nfs) (m : Memory) : Bool := (checkId s.rpcId m).isNone && !failed m

/-- `rpc_lookup_reply` -/
def rpcLookupReplyAccesses (p : RpcPacket) : List Access := [p.copyAccess]

/-- `nfs_mount_reply` -/
def nfsMountReplyAccesses (p : RpcPacket) (s : Nfs) : List Access :=
  p.copyAccess :: if s.carried p.copied then [.write .dirfh 0 nfsFhsize] else []

/-- `nfs_umountall_reply` -/
def nfsUmountallReplyAccesses (p : RpcPacket) (s : Nfs) : List Access :=
  p.copyAccess ::
    if (checkId s.rpcId p.copied).isNone && !refused p.copied then [.write .dirfh 0 nfsFhsize]
    else []

/-- `nfs_lookup_reply` -/
def nfsLookupReplyAccesses (p : RpcPacket) (s : Nfs) : List Access :=
  p.copyAccess :: if s.carried p.copied then [.write .filefh 0 nfsFhsize] else []

/-- `nfs_readlink_reply`, and `dirname` behind it, which only a reply without an error gets to. -/
def nfsReadlinkReplyAccesses (p : RpcPacket) (s : Nfs) : List Access :=
  p.copyAccess ::
    if s.carried p.copied then
      linkAccesses p.copied s.path ++ [dirnameAccess (linkedPath p.copied s.path)]
    else []

/-- `nfs_read_reply` -/
def nfsReadReplyAccesses (p : RpcPacket) (s : Nfs) : List Access :=
  .write .rpcPkt 0 rpcReplySize ::
    if s.carried p.buffer then [.load rpcReplySize (replyData p.buffer 18)] else []

/-- `nfs_handler` -/
def nfsHandlerAccesses (p : RpcPacket) (s : Nfs) : List Access :=
  if p.dest ≠ nfsOurPort then []
  else
    match s.state with
    | .prclookupProgMountReq => rpcLookupReplyAccesses p
    | .prclookupProgNfsReq => rpcLookupReplyAccesses p
    | .mountReq => nfsMountReplyAccesses p s
    | .umountReq => nfsUmountallReplyAccesses p s
    | .lookupReq => nfsLookupReplyAccesses p s
    | .readReq => nfsReadReplyAccesses p s
    | .readlinkReq => nfsReadlinkReplyAccesses p s

/-! ## Lengths -/

/-- The length of a link fits the path buffer: behind the path and a slash if it is relative, and
with a character at least if it is not. -/
def LinkFits (m : Memory) (path : List UInt8) : Prop :=
  if m 32 ≠ 0x2f then path.length + 1 + replyData m 1 < nfsPathSize
  else 0 < replyData m 1 ∧ replyData m 1 < nfsPathSize

/-- The lengths in a packet fit: the bytes read are in the packet; any other reply fits `rpc_pkt`,
and a link the path buffer. -/
def LengthsFit (p : RpcPacket) (s : Nfs) : Prop :=
  p.dest = nfsOurPort →
    match s.state with
    | .readReq => s.carried p.buffer = true → 0 < replyData p.buffer 18 →
        rpcReplySize + replyData p.buffer 18 ≤ p.len
    | .readlinkReq =>
      p.len ≤ rpcPktSize ∧ (s.carried p.copied = true → LinkFits p.copied s.path)
    | _ => p.len ≤ rpcPktSize

end Nfs

theorem RpcPacket.copyAccess_inside (p : RpcPacket) (len : Nat) :
    p.copyAccess.Inside len ↔ p.len ≤ rpcPktSize := by
  simp only [RpcPacket.copyAccess, Access.Inside, Storage.size]
  omega

theorem byte_inside (storage : Storage) (start : Int) (len : Nat) :
    (Access.write storage start 1).Inside len ↔ 0 ≤ start ∧ start < storage.size := by
  simp only [Access.Inside]
  omega

theorem handle_inside (p : RpcPacket) (len : Nat) (carried : Bool) {storage : Storage}
    (handle : storage.size = nfsFhsize) :
    (∀ a ∈ p.copyAccess :: if carried then [.write storage 0 nfsFhsize] else [], a.Inside len) ↔
      p.len ≤ rpcPktSize := by
  rw [List.forall_mem_cons, p.copyAccess_inside, and_iff_left_iff_imp]
  intro _ a member
  split at member
  · obtain rfl := List.mem_singleton.mp member
    intro _
    exact ⟨Int.le_refl 0, by rw [handle]; omega⟩
  · cases member

theorem zeroEnded_length_le (m : Memory) (rlen : Nat) :
    (zeroEnded (m.load 32 rlen)).length ≤ rlen := by
  have size := (@List.takeWhile_sublist _ (m.load 32 rlen) (· ≠ 0)).length_le
  rwa [Memory.length_load] at size

variable {m : Memory}

theorem slash_mem_zeroEnded {rlen : Nat} (absolute : m 32 = 0x2f) (positive : 0 < rlen)
    : 0x2f ∈ zeroEnded (m.load 32 rlen) := by
  obtain ⟨rest, rfl⟩ := Nat.exists_eq_add_of_le positive
  have first : m.load 32 1 = [0x2f] := by rw [← absolute]; rfl
  rw [zeroEnded, ← Memory.load_append, first, List.singleton_append,
    List.takeWhile_cons_of_pos (by decide)]
  exact List.mem_cons_self

theorem dirnameAccess_inside {path : List UInt8} (slash : 0x2f ∈ path)
    (fits : path.length ≤ nfsPathSize) (len : Nat) : (dirnameAccess path).Inside len := by
  have size := (@List.takeWhile_sublist _ path.reverse (· ≠ 0x2f)).length_le
  have positive := List.length_pos_iff.mpr (List.ne_nil_of_mem slash)
  rw [dirnameAccess, if_pos slash, byte_inside]
  refine ⟨Int.natCast_nonneg _, ?_⟩
  simp only [Storage.size]
  omega

theorem dirnameAccess_outside (len : Nat) : ¬(dirnameAccess []).Inside len := by
  rw [dirnameAccess, if_neg List.not_mem_nil, byte_inside]
  omega

theorem relative_inside (relative : m 32 ≠ 0x2f) (path : List UInt8) (len : Nat) :
    (∀ a ∈ linkAccesses m path ++ [dirnameAccess (linkedPath m path)], a.Inside len) ↔
      path.length + 1 + replyData m 1 < nfsPathSize := by
  have short := zeroEnded_length_le m (replyData m 1)
  rw [linkAccesses, linkedPath, if_pos relative, if_pos relative]
  constructor
  · intro inside
    have ending := (byte_inside _ _ _).mp (inside _ (List.mem_append_left _
      (List.mem_cons_of_mem _ (List.mem_cons_of_mem _ List.mem_cons_self))))
    exact Int.ofNat_lt.mp ending.2
  · intro fits a member
    simp only [List.cons_append, List.nil_append, List.mem_cons, List.not_mem_nil,
      or_false] at member
    obtain rfl | rfl | rfl | rfl := member
    · intro _
      simp only [Storage.size]
      omega
    · intro _
      simp only [Storage.size]
      omega
    · rw [byte_inside]
      simp only [Storage.size]
      omega
    · refine dirnameAccess_inside ?_ ?_ len
      · exact List.mem_append_right _ List.mem_cons_self
      · rw [List.length_append, List.length_cons]
        omega

theorem absolute_inside (absolute : m 32 = 0x2f) (path : List UInt8) (len : Nat) :
    (∀ a ∈ linkAccesses m path ++ [dirnameAccess (linkedPath m path)], a.Inside len) ↔
      0 < replyData m 1 ∧ replyData m 1 < nfsPathSize := by
  have short := zeroEnded_length_le m (replyData m 1)
  rw [linkAccesses, linkedPath, if_neg (not_not.mpr absolute), if_neg (not_not.mpr absolute)]
  constructor
  · intro inside
    have ending := (byte_inside _ _ _).mp (inside _ (List.mem_append_left _
      (List.mem_cons_of_mem _ List.mem_cons_self)))
    refine ⟨Nat.pos_of_ne_zero fun none => ?_, Int.ofNat_lt.mp ending.2⟩
    refine dirnameAccess_outside len ?_
    have last := inside _ (List.mem_append_right _ List.mem_cons_self)
    rwa [none] at last
  · rintro ⟨positive, fits⟩ a member
    simp only [List.cons_append, List.nil_append, List.mem_cons, List.not_mem_nil,
      or_false] at member
    obtain rfl | rfl | rfl := member
    · intro _
      simp only [Storage.size]
      omega
    · rw [byte_inside]
      simp only [Storage.size]
      omega
    · exact dirnameAccess_inside (slash_mem_zeroEnded absolute positive) (by omega) len

theorem link_inside (m : Memory) (path : List UInt8) (len : Nat) :
    (∀ a ∈ linkAccesses m path ++ [dirnameAccess (linkedPath m path)], a.Inside len) ↔
      Nfs.LinkFits m path := by
  rw [Nfs.LinkFits]
  by_cases relative : m 32 ≠ 0x2f
  · rw [if_pos relative]
    exact relative_inside relative path len
  · rw [if_neg relative]
    exact absolute_inside (not_not.mp relative) path len

theorem read_inside (p : RpcPacket) (s : Nfs) :
    (∀ a ∈ s.nfsReadReplyAccesses p, a.Inside p.len) ↔
      (s.carried p.buffer = true → 0 < replyData p.buffer 18 →
        rpcReplySize + replyData p.buffer 18 ≤ p.len) := by
  have header : (Access.write .rpcPkt 0 rpcReplySize).Inside p.len := fun _ => by decide
  rw [Nfs.nfsReadReplyAccesses, List.forall_mem_cons, and_iff_right header]
  by_cases carried : s.carried p.buffer = true
  · rw [if_pos carried, List.forall_mem_singleton]
    exact ⟨fun inside _ => inside, fun inside => inside carried⟩
  · rw [if_neg carried]
    exact ⟨fun _ here => absurd here carried, fun _ _ member => by cases member⟩

theorem readlink_inside (p : RpcPacket) (s : Nfs) :
    (∀ a ∈ s.nfsReadlinkReplyAccesses p, a.Inside p.len) ↔
      p.len ≤ rpcPktSize ∧ (s.carried p.copied = true → Nfs.LinkFits p.copied s.path) := by
  rw [Nfs.nfsReadlinkReplyAccesses, List.forall_mem_cons, p.copyAccess_inside]
  refine and_congr_right fun _ => ?_
  by_cases carried : s.carried p.copied = true
  · rw [if_pos carried, link_inside]
    exact ⟨fun inside _ => inside, fun inside => inside carried⟩
  · rw [if_neg carried]
    exact ⟨fun _ here => absurd here carried, fun _ _ member => by cases member⟩

/-! ## The handler -/

theorem linkPath_fits_iff {path : List UInt8} :
    (Nfs.linkPath m path).any (·.contains 0x2f) = true ↔
      32 + replyData m 1 ≤ rpcPktSize ∧ Nfs.LinkFits m path := by
  unfold Nfs.linkPath Nfs.LinkFits
  by_cases text : rpcPktSize < 32 + replyData m 1
  · rw [if_pos text]
    exact iff_of_false (by simp) fun inside => Nat.not_lt.mpr inside.1 text
  · rw [if_neg text, and_iff_right (Nat.not_lt.mp text)]
    by_cases relative : m 32 ≠ 0x2f
    · rw [if_pos relative, if_pos relative]
      by_cases fits : path.length + 1 + replyData m 1 < nfsPathSize
      · rw [if_pos fits]
        exact iff_of_true (by simp) fits
      · rw [if_neg fits]
        exact iff_of_false (by simp) fits
    · rw [if_neg relative, if_neg relative]
      by_cases fits : replyData m 1 < nfsPathSize
      · rw [if_pos fits, and_iff_left fits]
        constructor
        · intro slash
          refine Nat.pos_of_ne_zero fun none => ?_
          rw [none] at slash
          cases slash
        · intro positive
          have slash := slash_mem_zeroEnded (not_not.mp relative) positive
          simpa using slash
      · rw [if_neg fits]
        exact iff_of_false (by simp) fun inside => fits inside.2

theorem readlink_isSome_iff {s : Nfs} :
    ((s.nfsReadlinkReply m).bind fun (s, reply) => s.onReadlink reply).isSome ↔
      (s.carried m = true → (Nfs.linkPath m s.path).any (·.contains 0x2f) = true) := by
  constructor
  · intro defined carried
    obtain ⟨numbered, succeeded⟩ := Bool.and_eq_true_iff.mp carried
    have accepted : checkId s.rpcId m = none := Option.isNone_iff_eq_none.mp numbered
    have good : ¬failed m = true := by simpa using succeeded
    rw [Nfs.nfsReadlinkReply, accepted] at defined
    dsimp only at defined
    rw [if_neg good] at defined
    cases link : Nfs.linkPath m s.path with
    | none => simp [link] at defined
    | some path =>
      by_cases slash : 0x2f ∈ path
      · simpa using slash
      · simp [link, Nfs.onReadlink, nfsRpcErr, nfsRpcDrop, splitPath, slash] at defined
  · intro plain
    refine readlink_defined fun same succeeded => plain ?_
    rw [Nfs.carried, checkId_same same, succeeded]
    rfl

/-- The handler is defined just where its writes are inside, and it reads the text of a link inside
the reply. -/
theorem nfsHandler_isSome_iff (loadAddr : Nat) (p : RpcPacket) (s : Nfs) :
    (s.nfsHandler loadAddr p).isSome ↔
      (s.state ≠ .readReq → s.LengthsFit p) ∧
        (p.dest = nfsOurPort → s.state = .readlinkReq → s.carried p.copied = true →
          32 + replyData p.copied 1 ≤ rpcPktSize) := by
  rw [Nfs.nfsHandler]
  by_cases ours : p.dest = nfsOurPort
  · rw [if_neg (not_not.mpr ours), Nfs.LengthsFit, forall_prop_of_true ours,
      forall_prop_of_true ours]
    by_cases reading : s.state = .readReq
    · rw [if_pos reading]
      refine iff_of_true rfl ⟨fun other => absurd reading other, fun linked => ?_⟩
      cases reading.symm.trans linked
    · rw [if_neg reading, forall_prop_of_true reading]
      by_cases linked : s.state = .readlinkReq
      · rw [linked, forall_prop_of_true rfl]
        by_cases long : p.len > rpcPktSize
        · rw [if_pos long]
          exact iff_of_false (by simp) fun inside => absurd inside.1.1 (Nat.not_le.mpr long)
        · rw [if_neg long, Nfs.copyingHandler, linked]
          dsimp only
          rw [readlink_isSome_iff, linkPath_fits_iff, and_iff_right (Nat.not_lt.mp long)]
          exact ⟨fun both => ⟨fun here => (both here).2, fun here => (both here).1⟩,
            fun both here => ⟨both.2 here, both.1 here⟩⟩
      · have copied : (s.copyingHandler p.copied).isSome :=
          copyingHandler_defined fun here => absurd here linked
        by_cases long : p.len > rpcPktSize
        · rw [if_pos long]
          refine iff_of_false (by simp) fun inside => Nat.not_le.mpr long ?_
          cases state : s.state <;> simp_all
        · rw [if_neg long]
          refine iff_of_true copied ⟨?_, fun here => absurd here linked⟩
          cases state : s.state <;> simp_all
  · rw [if_pos ours]
    exact iff_of_true rfl ⟨fun _ here => absurd here ours, fun here => absurd here ours⟩

/-! ## Every reply -/

/-- What a reply writes is inside its storage, and what it copies inside the packet, if and only if
its lengths fit. -/
theorem nfsHandlerAccesses_inside_iff (p : RpcPacket) (s : Nfs) :
    (∀ a ∈ s.nfsHandlerAccesses p, a.Inside p.len) ↔ s.LengthsFit p := by
  rw [Nfs.nfsHandlerAccesses, Nfs.LengthsFit]
  by_cases ours : p.dest = nfsOurPort
  · rw [if_neg (not_not.mpr ours), forall_prop_of_true ours]
    cases s.state with
    | prclookupProgMountReq =>
      exact (List.forall_mem_singleton).trans (p.copyAccess_inside p.len)
    | prclookupProgNfsReq =>
      exact (List.forall_mem_singleton).trans (p.copyAccess_inside p.len)
    | mountReq => exact handle_inside p p.len _ rfl
    | umountReq => exact handle_inside p p.len _ rfl
    | lookupReq => exact handle_inside p p.len _ rfl
    | readReq => exact read_inside p s
    | readlinkReq => exact readlink_inside p s
  · rw [if_pos ours]
    exact ⟨fun _ here => absurd here ours, fun _ _ member => by cases member⟩

/-- A reply of 2049 bytes is copied over the end of the local structure, a link of 2048 bytes over
that of the path, one without any to a path `dirname` writes before, and a read reply of 128 bytes
that counts 29 behind its fields has the byte behind it copied to the load address. -/
theorem nfs_replies_outside :
    (¬∀ a ∈ sampleNfs.nfsHandlerAccesses { sampleReply 0 0 [] with len := 2049 },
      a.Inside 2049) ∧
    (¬∀ a ∈ { sampleNfs with state := .readlinkReq, rpcId := 6 }.nfsHandlerAccesses
      (sampleReply 6 28 [0, 0, 8, 0, 0x2f]), a.Inside 128) ∧
    (¬∀ a ∈ { sampleNfs with state := .readlinkReq, rpcId := 6 }.nfsHandlerAccesses
      (sampleReply 6 28 [0, 0, 0, 0, 0x2f]), a.Inside 128) ∧
    (¬∀ a ∈ { sampleNfs with state := .readReq, rpcId := 5 }.nfsHandlerAccesses
      (sampleReply 5 99 [29]), a.Inside 128) := by
  constructor
  · intro inside
    have copied := inside (.write .rpcPkt 0 2049) (by decide) (by decide)
    exact absurd copied.2 (by decide)
  constructor
  · intro inside
    have ending := inside (.write .nfsPathBuff 2048 1) (by decide) (by decide)
    exact absurd ending.2 (by decide)
  constructor
  · intro inside
    have before := inside (.write .nfsPathBuff (-2) 1) (by decide) (by decide)
    exact absurd before.1 (by decide)
  · intro inside
    have behind := inside (.load 100 29) (by decide) (by decide)
    exact absurd behind (by decide)

end HrppBoot.Net
