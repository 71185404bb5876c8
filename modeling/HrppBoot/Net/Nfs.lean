import HrppBoot.Net.Tftp

/-!
# NFS client

`net/nfs.c`, without direct writes to flash. `int` and `ulong` have 32 bits. A reply lies in the
receive buffer from address 0 on, followed by whatever is there; all parsers but that of the read
reply first copy it over a local structure, so what they read behind its end is what the stack
held. A handler returns the request it sends; its result is `none` where it writes outside the
buffer it writes to. The layout of requests, printing and the arming of timers are left out.
-/

namespace HrppBoot.Net

open ByteMemory

/-- `nfs_state`: `STATE_…` of `nfs.c`. -/
inductive NfsState where
  | prclookupProgMountReq
  | prclookupProgNfsReq
  | mountReq
  | umountReq
  | lookupReq
  | readReq
  | readlinkReq
  deriving DecidableEq, Repr

/-- The program `PROG_…` a port is looked up for. -/
inductive RpcProg where
  | mount
  | nfs
  deriving DecidableEq, Repr

/-- What a request asks for: the procedures `NFS_…` and those of the mount program. -/
inductive NfsAsk where
  | getPort (prog : RpcProg)
  /-- `MOUNT_ADDENTRY` -/
  | mount (path : List UInt8)
  | umountAll
  | lookup (dirfh name : List UInt8)
  | read (filefh : List UInt8) (offset len : Nat)
  | readlink (filefh : List UInt8)
  deriving DecidableEq, Repr

/-- A request: its number, the port it goes to, and what it asks for. -/
structure RpcCall where
  id : Nat
  port : Nat
  ask : NfsAsk
  deriving DecidableEq, Repr

/-- A packet for the handler. -/
structure RpcPacket where
  dest : Nat
  len : Nat
  buffer : Memory
  /-- What the local structure of the parser holds before the copy. -/
  stack : Memory

/-- The static variables `nfs_…`, with `net_boot_file_size`, `net_state` and the memory. -/
structure Nfs where
  fsMounted : Bool
  rpcId : Nat
  /-- `nfs_offset`, as an unsigned number. -/
  offset : Nat
  len : Nat
  dirfh : List UInt8
  filefh : List UInt8
  downloadState : NetState
  /-- `nfs_server_mount_port`, as an unsigned number. -/
  serverMountPort : Nat
  /-- `nfs_server_port`, as an unsigned number. -/
  serverPort : Nat
  timeoutCount : Nat
  state : NfsState
  /-- `nfs_filename`, up to its zero byte. -/
  filename : List UInt8
  /-- `nfs_path`, up to its zero byte. -/
  path : List UInt8
  netBootFileSize : Nat
  netState : NetState
  memory : Memory

def nfsOurPort : Nat := 1000

def sunrpcPort : Nat := 111

def nfsRetryCount : Nat := 30

def nfsReadSize : Nat := 1024

def nfsFhsize : Nat := 32

def nfsRpcErr : Int := 1

def nfsRpcDrop : Int := 124

def nfserrIsdir : Int := 21

def nfserrInval : Int := 22

/-- `sizeof(struct rpc_t)` -/
def rpcPktSize : Nat := 2048

/-- `sizeof(rpc_pkt.u.reply)` -/
def rpcReplySize : Nat := 100

/-- `sizeof(nfs_path_buff)` -/
def nfsPathSize : Nat := 2048

/-! ## The fields of a reply -/

/-- A word in network order. -/
def netWord (m : Memory) (a : Nat) : Nat :=
  2 ^ 24 * (m a).toNat + 2 ^ 16 * (m (a + 1)).toNat + 2 ^ 8 * (m (a + 2)).toNat + (m (a + 3)).toNat

/-- `ntohl(reply.id)` -/
def replyId (m : Memory) : Nat := netWord m 0

/-- `reply.rstatus` -/
def replyRstatus (m : Memory) : Nat := netWord m 8

/-- `reply.verifier` -/
def replyVerifier (m : Memory) : Nat := netWord m 12

/-- `reply.astatus` -/
def replyAstatus (m : Memory) : Nat := netWord m 20

/-- `ntohl(reply.data[i])` -/
def replyData (m : Memory) (i : Nat) : Nat := netWord m (24 + 4 * i)

/-- The server did not carry the call out. -/
def refused (m : Memory) : Bool :=
  replyRstatus m ≠ 0 || replyVerifier m ≠ 0 || replyAstatus m ≠ 0

/-- The call was not carried out, or its result is an error. -/
def failed (m : Memory) : Bool := refused m || replyData m 0 ≠ 0

/-- A word as an `int`. -/
def toInt (word : Nat) : Int := if word < 2 ^ 31 then word else (word : Int) - 2 ^ 32

/-- The local structure after the reply was copied over it. -/
def RpcPacket.copied (p : RpcPacket) : Memory :=
  fun a => if a < p.len then p.buffer a else p.stack a

/-- The check every parser makes of the number of the reply. -/
def checkId (rpcId : Nat) (m : Memory) : Option Int :=
  if replyId m > rpcId then some (-nfsRpcErr)
  else if replyId m < rpcId then some (-nfsRpcDrop)
  else none

/-! ## Paths -/

/-- A text up to its zero byte. -/
def zeroEnded (bytes : List UInt8) : List UInt8 := bytes.takeWhile (· ≠ 0)

/-- `basename` and `dirname`: the path before its last slash, and the name behind it. Without a
slash both leave the buffer. -/
def splitPath (path : List UInt8) : Option (List UInt8 × List UInt8) :=
  if 0x2f ∈ path then
    let base := (path.reverse.takeWhile (· ≠ 0x2f)).reverse
    some (path.take (path.length - base.length - 1), base)
  else none

namespace Nfs

/-! ## Requests -/

def rpcReq (port : Nat) (ask : NfsAsk) (s : Nfs) : Nfs × Option RpcCall :=
  let id := (s.rpcId + 1) % ulongSize
  ({ s with rpcId := id }, some ⟨id, port, ask⟩)

/-- `nfs_umountall_req`: nothing is sent when nothing is mounted. -/
def nfsUmountallReq (s : Nfs) : Nfs × Option RpcCall :=
  if s.serverMountPort = ulongSize - 1 ∨ s.fsMounted = false then (s, none)
  else s.rpcReq s.serverMountPort .umountAll

def nfsSend (s : Nfs) : Nfs × Option RpcCall :=
  match s.state with
  | .prclookupProgMountReq => s.rpcReq sunrpcPort (.getPort .mount)
  | .prclookupProgNfsReq => s.rpcReq sunrpcPort (.getPort .nfs)
  | .mountReq => s.rpcReq s.serverMountPort (.mount s.path)
  | .umountReq => s.nfsUmountallReq
  | .lookupReq => s.rpcReq s.serverPort (.lookup s.dirfh s.filename)
  | .readReq => s.rpcReq s.serverPort (.read s.filefh s.offset s.len)
  | .readlinkReq => s.rpcReq s.serverPort (.readlink s.filefh)

/-! ## Replies -/

def rpcLookupReply (prog : RpcProg) (m : Memory) (s : Nfs) : Nfs × Int :=
  match checkId s.rpcId m with
  | some result => (s, result)
  | none =>
    if refused m then (s, -1)
    else
      match prog with
      | .mount => ({ s with serverMountPort := replyData m 0 }, 0)
      | .nfs => ({ s with serverPort := replyData m 0 }, 0)

def nfsMountReply (m : Memory) (s : Nfs) : Nfs × Int :=
  match checkId s.rpcId m with
  | some result => (s, result)
  | none =>
    if failed m then (s, -1)
    else ({ s with fsMounted := true, dirfh := m.load 28 nfsFhsize }, 0)

def nfsUmountallReply (m : Memory) (s : Nfs) : Nfs × Int :=
  match checkId s.rpcId m with
  | some result => (s, result)
  | none =>
    if refused m then (s, -1)
    else ({ s with fsMounted := false, dirfh := List.replicate nfsFhsize 0 }, 0)

def nfsLookupReply (m : Memory) (s : Nfs) : Nfs × Int :=
  match checkId s.rpcId m with
  | some result => (s, result)
  | none =>
    if failed m then (s, -1)
    else ({ s with filefh := m.load 28 nfsFhsize }, 0)

/-- The path a link leads to, when the text stays inside the reply and the path inside its
buffer. -/
def linkPath (m : Memory) (path : List UInt8) : Option (List UInt8) :=
  let rlen := replyData m 1
  if rpcPktSize < 32 + rlen then none
  else if m 32 ≠ 0x2f then
    if path.length + 1 + rlen < nfsPathSize then
      some (path ++ 0x2f :: zeroEnded (m.load 32 rlen))
    else none
  else if rlen < nfsPathSize then some (zeroEnded (m.load 32 rlen))
  else none

def nfsReadlinkReply (m : Memory) (s : Nfs) : Option (Nfs × Int) :=
  match checkId s.rpcId m with
  | some result => some (s, result)
  | none =>
    if failed m then some (s, -1)
    else (linkPath m s.path).map fun path => ({ s with path := path }, 0)

def storeBlock (loadAddr : Nat) (src : List UInt8) (s : Nfs) : Nfs :=
  let newsize := (s.offset + src.length) % ulongSize
  { s with memory := s.memory.store ((loadAddr + s.offset) % ulongSize) src,
           netBootFileSize := if s.netBootFileSize < newsize then newsize else s.netBootFileSize }

/-- `nfs_read_reply`. Errors, dropped replies and the number of bytes come back in one `int`. -/
def nfsReadReply (loadAddr : Nat) (m : Memory) (s : Nfs) : Nfs × Int :=
  match checkId s.rpcId m with
  | some result => (s, result)
  | none =>
    if failed m then
      if replyRstatus m ≠ 0 then (s, -9999)
      else if replyAstatus m ≠ 0 then (s, -9999)
      else (s, toInt ((ulongSize - replyData m 0) % ulongSize))
    else
      let rlen := replyData m 18
      (s.storeBlock loadAddr (m.load rpcReplySize rlen), toInt rlen)

/-! ## The handlers -/

def nfsTimeoutHandler (s : Nfs) : Nfs × Option RpcCall :=
  let s := { s with timeoutCount := s.timeoutCount + 1 }
  if s.timeoutCount > nfsRetryCount then ({ s with netState := .again }, none) else s.nfsSend

/-- A state whose error is to be unmounted: drop, give up, or go on. -/
def onReply (s : Nfs) (reply : Int) (next : Nfs) : Nfs × Option RpcCall :=
  if reply = -nfsRpcDrop then (s, none)
  else if reply = -nfsRpcErr then { s with state := .umountReq }.nfsSend
  else next.nfsSend

/-- `case STATE_READLINK_REQ`, after the reply. -/
def onReadlink (s : Nfs) (reply : Int) : Option (Nfs × Option RpcCall) :=
  if reply = -nfsRpcDrop then some (s, none)
  else if reply = -nfsRpcErr then some { s with state := .umountReq }.nfsSend
  else (splitPath s.path).map fun split =>
    { s with path := split.1, filename := split.2, state := .mountReq }.nfsSend

/-- `case STATE_READ_REQ`, after the reply. -/
def onRead (s : Nfs) (rlen : Int) : Nfs × Option RpcCall :=
  if rlen > 0 then
    { s with offset := (s.offset + rlen.toNat) % ulongSize }.nfsSend
  else if rlen = -nfserrIsdir ∨ rlen = -nfserrInval then
    { s with state := .readlinkReq }.nfsSend
  else
    { s with
      downloadState := if rlen = 0 then .success else s.downloadState
      state := .umountReq }.nfsSend

/-- `case STATE_UMOUNT_REQ`, after the reply. -/
def onUmount (s : Nfs) (reply : Int) : Nfs :=
  if reply = -nfsRpcDrop then s
  else if reply = -nfsRpcErr then { s with netState := .fail }
  else { s with netState := s.downloadState }

/-- The states whose parsers copy the reply over a local structure. -/
def copyingHandler (m : Memory) (s : Nfs) : Option (Nfs × Option RpcCall) :=
  match s.state with
  | .prclookupProgMountReq =>
    let (s, reply) := s.rpcLookupReply .mount m
    if reply = -nfsRpcDrop then some (s, none)
    else some { s with state := .prclookupProgNfsReq }.nfsSend
  | .prclookupProgNfsReq =>
    let (s, reply) := s.rpcLookupReply .nfs m
    if reply = -nfsRpcDrop then some (s, none)
    else some { s with state := .mountReq }.nfsSend
  | .mountReq =>
    let (s, reply) := s.nfsMountReply m
    some (s.onReply reply { s with state := .lookupReq })
  | .umountReq =>
    let (s, reply) := s.nfsUmountallReply m
    some (s.onUmount reply, none)
  | .lookupReq =>
    let (s, reply) := s.nfsLookupReply m
    some (s.onReply reply { s with state := .readReq, offset := 0, len := nfsReadSize })
  | .readlinkReq => (s.nfsReadlinkReply m).bind fun (s, reply) => s.onReadlink reply
  | .readReq => some (s, none)

def nfsHandler (loadAddr : Nat) (p : RpcPacket) (s : Nfs) : Option (Nfs × Option RpcCall) :=
  if p.dest ≠ nfsOurPort then some (s, none)
  else if s.state = .readReq then
    let (s, rlen) := s.nfsReadReply loadAddr p.buffer
    some (s.onRead rlen)
  else if p.len > rpcPktSize then none
  else s.copyingHandler p.copied

/-- `nfs_start`, from the path in `nfs_path_buff` on. -/
def nfsStart (path : List UInt8) (s : Nfs) : Option (Nfs × Option RpcCall) :=
  (splitPath path).map fun split =>
    { s with
      downloadState := .fail
      path := split.1
      filename := split.2
      timeoutCount := 0
      state := .prclookupProgMountReq
      netState := .going }.nfsSend

end Nfs

end HrppBoot.Net
