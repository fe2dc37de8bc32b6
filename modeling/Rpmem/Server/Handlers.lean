/-
# The server's request handlers

`rpmem_server.c`: the resource pool, one unit per connection, and the request
handlers behind `rpmem_rcv_completion`.

Pointers to a `struct rpmem_resource` are numbers (`ResId`), and so are
connections (`ConnId`, a unit with its queue pair) and memory regions.  A unit
keeps the two command buffers of its connection and the state of its queue
pair: receives posted, receive completions not handled yet, sends posted and
not yet executed.  The adapter moves bytes when a work request executes, so
`req` and `rsp` are the buffers themselves; `seq` says which request a
buffer's bytes belong to, for the proofs only.

A handler runs as one step.  Its result is the server after it, the calls it
made in order, and the value it returns, which `rpmem_rcv_completion` ignores.
Dereferencing a `NULL` pointer is a `Fault`: the process is gone.
-/

import Rpmem.Host
import Mathlib.Tactic.Simps.Basic
import Mathlib.Logic.Function.Basic

namespace Rpmem

abbrev ResId := ℕ
abbrev ConnId := ℕ

/-- `struct rpmem_resource`, less `name`, which is only printed. -/
structure Resource where
  fd : ℕ
  stSize : BitVec 64
  mr : Option ℕ
  addr : BitVec 64
  mapLen : CInt

/-- `(int)res->stbuf.st_size`. -/
def Resource.size (r : Resource) : CInt := r.stSize.setWidth 32

/-- A command buffer and the number of the request its bytes belong to. -/
structure Buffer where
  bytes : Cmd
  seq : ℕ

/-- `struct rpmem_server_unit`: the connection's buffers, its queue pair and
the resource it holds. -/
structure ServerUnit where
  req : Buffer
  rsp : Buffer
  recvs : ℕ
  pending : ℕ
  sends : ℕ
  res : Option ResId

/-- `struct rpmem_server` with the heap its pointers lead to and the host it
runs on. -/
structure Server where
  conns : List ConnId
  resList : List ResId
  totalSize : CInt
  inUseSize : CInt
  freeSize : CInt
  resource : ResId → Resource
  unit : ConnId → ServerUnit
  host : Host

/-- A `NULL` dereference in a handler. -/
inductive Fault
  | nullResource | nullMr
  deriving DecidableEq, Repr

/-- The calls a handler makes, with what came back.  A deregistration says
whether the region was still registered, an `msync` what the server's memory
held in its range. -/
inductive Call
  | postRecv (ok : Bool)
  | posixFallocate (ok : Bool)
  | mmap (addr : Option (BitVec 64))
  | regMr (mr : Option ℕ)
  | deregMr (mr : ℕ) (live : Bool)
  | munmap (addr len : BitVec 64) (ret : CInt)
  | msync (addr len : BitVec 64) (ret : CInt) (view : ℕ → Option UInt8)
  | postSend (ok : Bool)

/-- What the environment decides about the calls of one handler, and what the
uninitialised locals `addr` and `rkey` of `rpmem_handle_map` hold. -/
structure Outcomes where
  postRecv : Bool
  postSend : Bool
  posixFallocate : Bool
  mmap : Option (BitVec 64)
  regMr : Option (BitVec 32)
  munmap : Bool
  msync : Bool
  junkAddr : BitVec 64
  junkRkey : BitVec 32

/-- What a handler leaves behind. -/
structure Handled where
  server : Server
  calls : List Call
  ret : CInt

/-- An `int` length as the `size_t` it is passed as. -/
def sizeT (len : CInt) : BitVec 64 := len.signExtend 64

/-- `rpmem_post_recv` on a buffer and its queue pair's receive count: the
buffer is cleared first, whether or not the post succeeds. -/
def rpmemPostRecv (ok : Bool) (b : Buffer) (recvs : ℕ) : Buffer × ℕ :=
  ({ b with bytes := Cmd.zero }, if ok then recvs + 1 else recvs)

namespace Server

variable (s : Server)

@[simps] def setUnit (c : ConnId) (u : ServerUnit) : Server := { s with unit := Function.update s.unit c u }

@[simps] def setResource (r : ResId) (x : Resource) : Server :=
  { s with resource := Function.update s.resource r x }

/-- `rpmem_post_recv(conn, &conn->req, conn->req_mr)`. -/
@[simps!] def postRecv (c : ConnId) (ok : Bool) : Server :=
  s.setUnit c { s.unit c with
    req := (rpmemPostRecv ok (s.unit c).req (s.unit c).recvs).1
    recvs := (rpmemPostRecv ok (s.unit c).req (s.unit c).recvs).2 }

/-- `rpmem_post_send(conn, &conn->rsp, conn->rsp_mr)` after `rsp` was packed as
the answer to request `seq`. -/
@[simps!] def postSend (c : ConnId) (rsp : Cmd) (seq : ℕ) (ok : Bool) : Server :=
  s.setUnit c { s.unit c with
    rsp := ⟨rsp, seq⟩
    sends := if ok then (s.unit c).sends + 1 else (s.unit c).sends }

/-- The resource `rpmem_handle_map` would stop its scan at. -/
def fit (len : CInt) : Option ResId := s.resList.find? fun r => len.slt (s.resource r).size

/-- `unit->res = res` and the rest of the loop body of `rpmem_handle_map`. -/
@[simps!] def take (c : ConnId) (r : ResId) : Server :=
  { s.setUnit c { s.unit c with res := some r } with
    freeSize := s.freeSize - (s.resource r).size
    inUseSize := s.inUseSize + (s.resource r).size
    resList := s.resList.erase r }

/-- The locked scan of `rpmem_handle_map`: the loop variable `res` after it,
`NULL` when no resource fits, and the server. -/
def claim (c : ConnId) (len : CInt) : Option ResId × Server :=
  match s.fit len with
  | some r => (some r, s.take c r)
  | none => (none, s)

/-- The locked section of `rpmem_handle_unmap`. -/
@[simps!] def release (c : ConnId) (r : ResId) : Server :=
  { s.setUnit c { s.unit c with res := none } with
    resList := r :: s.resList
    freeSize := s.freeSize + (s.resource r).size
    inUseSize := s.inUseSize - (s.resource r).size }

end Server

/-! ### `rpmem_handle_open` and `rpmem_handle_close` -/

def rpmemHandleOpen (o : Outcomes) (s : Server) (c : ConnId) : Handled :=
  let seq := (s.unit c).req.seq
  let size := s.freeSize
  let s := s.postRecv c o.postRecv
  let s := s.postSend c (packOpenRsp size (s.unit c).rsp.bytes) seq o.postSend
  ⟨s, [.postRecv o.postRecv, .postSend o.postSend], if o.postRecv && o.postSend then 0 else -1⟩

def rpmemHandleClose (o : Outcomes) (s : Server) (c : ConnId) : Handled :=
  let seq := (s.unit c).req.seq
  let s := s.postSend c (packCloseRsp 0 (s.unit c).rsp.bytes) seq o.postSend
  ⟨s, [.postSend o.postSend], if o.postSend then 0 else -1⟩

/-! ### `rpmem_handle_map` -/

/-- Where `rpmem_handle_map` is at its label `out`. -/
structure MapOut where
  server : Server
  calls : List Call
  addr : BitVec 64
  rkey : BitVec 32
  ret : CInt

/-- From `posix_fallocate` to `out`: map and register the claimed resource.
A failed `posix_fallocate` or `mmap` is noted in `ret` and the code goes on;
a failed registration undoes the mapping, but not `res->addr` and
`res->map_len`. -/
def mapResource (o : Outcomes) (s : Server) (c : ConnId) (r : ResId) (len : CInt) : MapOut :=
  let (a, host) := s.host.mmap (s.resource r).fd .priv (sizeT len) o.mmap
  let addr := a.getD 0
  match host.regMr c addr (sizeT len) o.regMr with
  | (none, host) =>
      let s := s.setResource r { s.resource r with mr := none, addr := addr, mapLen := len }
      let (ret, host) := host.munmap addr (sizeT len) o.munmap
      ⟨{ s with host := host },
        [.posixFallocate o.posixFallocate, .mmap a, .regMr none, .munmap addr (sizeT len) ret],
        0, o.junkRkey, -1⟩
  | (some reg, host) =>
      let s := s.setResource r { s.resource r with mr := some reg.id, addr := addr, mapLen := len }
      ⟨{ s with host := host }, [.posixFallocate o.posixFallocate, .mmap a, .regMr (some reg.id)],
        addr, reg.rkey, if o.posixFallocate && a.isSome then 0 else -1⟩

/-- `rpmem_handle_map` up to `out`. -/
def rpmemHandleMapBody (o : Outcomes) (s : Server) (c : ConnId) : Except Fault MapOut :=
  let len := wordField (s.unit c).req.bytes
  let s := s.postRecv c o.postRecv
  if o.postRecv then
    let (res, s) := s.claim c len
    match (s.unit c).res, res with
    | none, _ => .ok ⟨s, [.postRecv true], o.junkAddr, o.junkRkey, -1⟩
    -- the scan found nothing, but an earlier MAP left `unit->res` set: `res->fd` with `res` NULL
    | some _, none => .error .nullResource
    | some _, some r =>
        let m := mapResource o s c r len
        .ok { m with calls := .postRecv true :: m.calls }
  else .ok ⟨s, [.postRecv false], o.junkAddr, o.junkRkey, -1⟩

def rpmemHandleMap (o : Outcomes) (s : Server) (c : ConnId) : Except Fault Handled :=
  let seq := (s.unit c).req.seq
  match rpmemHandleMapBody o s c with
  | .error e => .error e
  | .ok m =>
      let s := m.server.postSend c (packMapRsp (m.server.unit c).rsp.bytes m.rkey m.addr) seq o.postSend
      .ok ⟨s, m.calls ++ [.postSend o.postSend], if o.postSend then m.ret else -1⟩

/-! ### `rpmem_handle_unmap` -/

/-- Where `rpmem_handle_unmap` and `rpmem_handle_commit` are at their label `out`. -/
structure RetOut where
  server : Server
  calls : List Call
  ret : CInt

/-- From `ibv_dereg_mr` to `out`: the address and the length are the request's. -/
def unmapResource (o : Outcomes) (s : Server) (c : ConnId) (r : ResId) (mr : ℕ)
    (addr : BitVec 64) (len : CInt) : RetOut :=
  let live := decide (s.host.LiveMr mr)
  let s := { s.setResource r { s.resource r with mapLen := 0, addr := 0 } with
    host := s.host.deregMr mr }
  match s.host.munmap addr (sizeT len) o.munmap with
  | (ret, host) =>
      let s := { s with host := host }
      ⟨if ret = 0 then s.release c r else s,
        [.deregMr mr live, .munmap addr (sizeT len) ret], ret⟩

/-- `rpmem_handle_unmap` up to `out`. -/
def rpmemHandleUnmapBody (o : Outcomes) (s : Server) (c : ConnId) : Except Fault RetOut :=
  let res := (s.unit c).res
  let len := wordField (s.unit c).req.bytes
  let addr := addrField (s.unit c).req.bytes
  let s := s.postRecv c o.postRecv
  if o.postRecv then
    match res with
    | none => .error .nullResource
    | some r =>
        match (s.resource r).mr with
        | none => .error .nullMr
        | some mr =>
            let m := unmapResource o s c r mr addr len
            .ok { m with calls := .postRecv true :: m.calls }
  else .ok ⟨s, [.postRecv false], -1⟩

def rpmemHandleUnmap (o : Outcomes) (s : Server) (c : ConnId) : Except Fault Handled :=
  let seq := (s.unit c).req.seq
  match rpmemHandleUnmapBody o s c with
  | .error e => .error e
  | .ok m =>
      let s := m.server.postSend c (packUnmapRsp (m.server.unit c).rsp.bytes m.ret) seq o.postSend
      .ok ⟨s, m.calls ++ [.postSend o.postSend], if o.postSend then m.ret else -1⟩

/-! ### `rpmem_handle_commit` -/

/-- `rpmem_handle_commit` up to `out`. -/
def rpmemHandleCommitBody (o : Outcomes) (s : Server) (c : ConnId) : RetOut :=
  let len := wordField (s.unit c).req.bytes
  let addr := addrField (s.unit c).req.bytes
  let s := s.postRecv c o.postRecv
  if o.postRecv then
    let (ret, host) := s.host.msync addr (sizeT len) o.msync
    ⟨{ s with host := host },
      [.postRecv true,
        .msync addr (sizeT len) ret (fun i => s.host.byteAt (addr.toNat + i))], ret⟩
  else ⟨s, [.postRecv false], -1⟩

def rpmemHandleCommit (o : Outcomes) (s : Server) (c : ConnId) : Handled :=
  let seq := (s.unit c).req.seq
  let m := rpmemHandleCommitBody o s c
  let s := m.server.postSend c (packCommitRsp (m.server.unit c).rsp.bytes m.ret) seq o.postSend
  ⟨s, m.calls ++ [.postSend o.postSend], if o.postSend then m.ret else -1⟩

/-! ### `rpmem_rcv_completion` and the events of the server -/

/-- `rpmem_rcv_completion`; an unknown request is only printed. -/
def rpmemRcvCompletion (o : Outcomes) (s : Server) (c : ConnId) : Except Fault Handled :=
  match requestKind (s.unit c).req.bytes with
  | some .openReq => .ok (rpmemHandleOpen o s c)
  | some .closeReq => .ok (rpmemHandleClose o s c)
  | some .mapReq => rpmemHandleMap o s c
  | some .unmapReq => rpmemHandleUnmap o s c
  | some .commitReq => .ok (rpmemHandleCommit o s c)
  | none => .ok ⟨s, [], 0⟩

end Rpmem
