/-
# The client library

`rpmem.c`: one `rfile`, its API calls, its completion handler and its
connection-manager handler, with the queue pair they post to.

The API is sequential and blocks in `sem_wait` on `sem_command`, so a call is
cut there: `rpmemOpen`, `rpmemMap`, `rpmemUnmap`, `rpmemCommit` and
`rpmemClose` run to the first `sem_wait` or to their return, the functions
named `…AfterRsp` and `…AfterRead` from one `sem_wait` to the next or to the
return.  `pc` says where the call is.  The adapter reads and writes the buffers
when a work request executes, not when it is posted.

`seq` numbers the calls; buffers, work requests, completions and the tokens of
`sem_command` carry the number of the call they belong to, and tokens the kind
of completion they came from.  No branch looks at them: they are there for the
proofs.  Dereferencing a `NULL` pointer ends the run (`none`); a stale region
pointer is used as it is.
-/

import Rpmem.Server.Handlers

namespace Rpmem

/-- `enum file_state`. -/
inductive FileState
  | init | error | established | disconnected
  deriving DecidableEq, Repr

/-- What a `sem_wait` on `sem_command` waits for: the response to a request, or
the RDMA read of `rpmem_map`. -/
inductive Wait
  | rsp (q : ReqKind)
  | read
  deriving DecidableEq, Repr

/-- Where the client is: before `rpmem_open`, in it with the connection
established, between calls, blocked in one, or done with the file. -/
inductive Pc
  | unopened | connected | idle
  | waiting (w : Wait)
  | finished
  deriving DecidableEq, Repr

/-- A token of `sem_command`: the completion it came from. -/
inductive TokenKind
  | recv | rdmaRead
  deriving DecidableEq, Repr

structure Token where
  kind : TokenKind
  seq : ℕ
  deriving DecidableEq, Repr

/-- The arguments of `rpmem_post_rdma_wr`; the local region and the local
buffer are numbers, `none` is a `NULL` buffer. -/
structure RdmaArgs where
  rkey : BitVec 32
  lkey : ℕ
  remoteAddr : BitVec 64
  localAddr : Option ℕ
  len : CInt
  deriving DecidableEq, Repr

/-- A posted send work request. -/
inductive WrOp
  | send
  | rdmaRead (a : RdmaArgs)
  | rdmaWrite (a : RdmaArgs)
  deriving DecidableEq, Repr

structure Wr where
  op : WrOp
  seq : ℕ
  deriving DecidableEq, Repr

/-- `enum ibv_wc_opcode`, as far as `rpmem_handle_wc` tells them apart. -/
inductive WcOpcode
  | send | recv | rdmaRead | rdmaWrite
  deriving DecidableEq, Repr

/-- `enum ibv_wc_status`, as far as `rpmem_handle_wc` tells them apart. -/
inductive WcStatus
  | success | wrFlushErr | otherErr
  deriving DecidableEq, Repr

/-- A work completion. -/
structure Wc where
  opcode : WcOpcode
  status : WcStatus
  seq : ℕ
  deriving DecidableEq, Repr

def WrOp.opcode : WrOp → WcOpcode
  | .send => .send
  | .rdmaRead _ => .rdmaRead
  | .rdmaWrite _ => .rdmaWrite

/-- What the last call returned. -/
inductive Result
  | opened (ok : Bool)
  | mapped (ok : Bool)
  | unmapped (ret : CInt)
  | committed (ret : CInt)
  | closed
  deriving DecidableEq, Repr

/-- The API calls. -/
inductive Api
  | rpmemOpen
  | rpmemMap (len : BitVec 64)
  | rpmemUnmap
  | rpmemCommit
  | rpmemClose
  deriving DecidableEq, Repr

/-- `struct priv_rpmem_file` with its queue pair, its completion queue and its
memory: `bufs` are the buffers ever allocated, `live` the registered ones.
`region` is what the application knows: the last `rpmem_map` returned non-`NULL`
and no `rpmem_unmap` has been called since. -/
structure Client where
  pc : Pc
  seq : ℕ
  req : Buffer
  rsp : Buffer
  sem : List Token
  sq : List Wr
  recvs : ℕ
  cq : List Wc
  qpErr : Bool
  cmPending : Bool
  semConnect : ℕ
  state : FileState
  size : CInt
  rmrAddr : Option ℕ
  rmrLen : BitVec 64
  mr : Option ℕ
  rkey : BitVec 32
  remoteAddr : BitVec 64
  bufs : ℕ → ℕ → UInt8
  nextBuf : ℕ
  live : List ℕ
  result : Option Result
  region : Bool

/-- A client that has not called `rpmem_open`. -/
def Client.fresh : Client where
  pc := .unopened
  seq := 0
  req := ⟨Cmd.zero, 0⟩
  rsp := ⟨Cmd.zero, 0⟩
  sem := []
  sq := []
  recvs := 0
  cq := []
  qpErr := false
  cmPending := false
  semConnect := 0
  state := .init
  size := 0
  rmrAddr := none
  rmrLen := 0
  mr := none
  rkey := 0
  remoteAddr := 0
  bufs := fun _ _ => 0
  nextBuf := 0
  live := []
  result := none
  region := false

/-- What the environment decides about one stretch of a call. -/
structure ClientOutcomes where
  postRecv : Bool
  postSend : Bool
  postRdma : Bool
  calloc : Bool
  regMr : Bool
  deriving DecidableEq, Repr

/-- Every call succeeds. -/
def ClientOutcomes.allOk : ClientOutcomes := ⟨true, true, true, true, true⟩

namespace Client

/-- Enter a call. -/
def start (k : Client) : Client := { k with seq := k.seq + 1, result := none }

/-- Return from a call. -/
def leave (k : Client) (r : Result) : Client := { k with pc := .idle, result := some r }

/-- Tear down the queue pair and the completion queue, and return. -/
def destroy (k : Client) (r : Result) : Client :=
  { k with
    pc := .finished
    sem := []
    sq := []
    recvs := 0
    cq := []
    cmPending := false
    result := some r }

/-- `rpmem_post_recv(conn, &conn->rsp, conn->rsp_mr)`. -/
def postRecv (k : Client) (ok : Bool) : Client :=
  { k with
    rsp := (rpmemPostRecv ok k.rsp k.recvs).1
    recvs := (rpmemPostRecv ok k.rsp k.recvs).2 }

/-- A work request that was posted. -/
def post (k : Client) (op : WrOp) : Client := { k with sq := k.sq ++ [⟨op, k.seq⟩] }

/-- Pack a request into `conn->req`. -/
def pack (k : Client) (m : Request) : Client := { k with req := ⟨m.pack k.req.bytes, k.seq⟩ }

/-- The arguments `rpmem_map` and `rpmem_commit` post their RDMA work request
with; `rmr->len` is passed as an `int`. -/
def rdmaArgs (k : Client) (lkey : ℕ) : RdmaArgs where
  rkey := k.rkey
  lkey := lkey
  remoteAddr := k.remoteAddr
  localAddr := k.rmrAddr
  len := k.rmrLen.setWidth 32

/-- `rpmem_post_recv`, `pack_*_req` and `rpmem_post_send` in a row, as every
call but `rpmem_commit` has them; whether both posts succeeded. -/
def sendRequest (o : ClientOutcomes) (m : Request) (k : Client) : Bool × Client :=
  let k := k.postRecv o.postRecv
  if o.postRecv then
    let k := k.pack m
    if o.postSend then (true, k.post .send) else (false, k)
  else (false, k)

end Client

/-! ### `rpmem_open` and `rpmem_close` -/

/-- `rpmem_open` from the established connection on. -/
def rpmemOpen (o : ClientOutcomes) (k : Client) : Client :=
  match k.start.sendRequest o .openReq with
  | (true, k) => { k with pc := .waiting (.rsp .openReq) }
  | (false, k) => k.destroy (.opened false)

def rpmemOpenAfterRsp (k : Client) : Client :=
  let (ret, size) := unpackOpenRsp k.rsp.bytes k.size
  let k := { k with size := size }
  if ret = 0 then k.leave (.opened true) else k.destroy (.opened false)

def rpmemClose (o : ClientOutcomes) (k : Client) : Client :=
  match k.start.sendRequest o .closeReq with
  | (true, k) => { k with pc := .waiting (.rsp .closeReq) }
  | (false, k) => k.destroy .closed

/-- The response to CLOSE is unpacked and printed; either way the file goes. -/
def rpmemCloseAfterRsp (k : Client) : Client := k.destroy .closed

/-! ### `rpmem_map` -/

/-- The label `out` of `rpmem_map`. -/
def rpmemMapOut (k : Client) : Client :=
  { k with rmrLen := 0, region := false }.leave (.mapped false)

/-- The label `destroy_mr` of `rpmem_map`, with the labels after it. -/
def rpmemMapDestroyMr (id : ℕ) (k : Client) : Client :=
  rpmemMapOut { k with live := k.live.erase id }

def rpmemMap (o : ClientOutcomes) (len : BitVec 64) (k : Client) : Client :=
  let k := { k.start with rmrLen := len }
  if o.calloc then
    let k := { k with
      rmrAddr := some k.nextBuf
      bufs := Function.update k.bufs k.nextBuf (fun _ => 0)
      nextBuf := k.nextBuf + 1 }
    if o.regMr then
      let id := k.nextBuf - 1
      let k := { k with mr := some id, live := id :: k.live }
      match k.sendRequest o (.mapReq (len.setWidth 32)) with
      | (true, k) => { k with pc := .waiting (.rsp .mapReq) }
      | (false, k) => rpmemMapDestroyMr id k
    else rpmemMapOut { k with mr := none }
  else rpmemMapOut { k with rmrAddr := none }

def rpmemMapAfterRsp (o : ClientOutcomes) (k : Client) : Option Client :=
  k.mr.map fun id =>
    match unpackMapRsp k.rsp.bytes k.rkey k.remoteAddr with
    | (ret, rkey, remoteAddr) =>
        let k := { k with rkey := rkey, remoteAddr := remoteAddr }
        if ret = 0 then
          if o.postRdma then
            { k.post (.rdmaRead (k.rdmaArgs id)) with pc := .waiting .read }
          else rpmemMapDestroyMr id { k with rkey := 0, remoteAddr := 0 }
        else rpmemMapDestroyMr id k

def rpmemMapAfterRead (k : Client) : Client := { k with region := true }.leave (.mapped true)

/-! ### `rpmem_unmap` -/

/-- The label `destroy_mr` of `rpmem_unmap`. -/
def rpmemUnmapDestroyMr (ret : CInt) (k : Client) : Option Client :=
  k.mr.map fun id =>
    { k with live := k.live.erase id, rkey := 0, remoteAddr := 0, rmrLen := 0 }.leave (.unmapped ret)

def rpmemUnmap (o : ClientOutcomes) (k : Client) : Option Client :=
  let k := { k.start with region := false }
  match k.sendRequest o (.unmapReq (k.rmrLen.setWidth 32) k.remoteAddr) with
  | (true, k) => some { k with pc := .waiting (.rsp .unmapReq) }
  | (false, k) => rpmemUnmapDestroyMr (-1) k

def rpmemUnmapAfterRsp (k : Client) : Option Client :=
  let (ret, unmapRet) := unpackUnmapRsp k.rsp.bytes 0
  rpmemUnmapDestroyMr (if ret = 0 then unmapRet else ret) k

/-! ### `rpmem_commit` -/

def rpmemCommit (o : ClientOutcomes) (k : Client) : Option Client :=
  let k := k.start.postRecv o.postRecv
  if o.postRecv then
    k.mr.map fun id =>
      if o.postRdma then
        let k := k.post (.rdmaWrite (k.rdmaArgs id))
        let k := k.pack (.commitReq (k.rmrLen.setWidth 32) k.remoteAddr)
        if o.postSend then { k.post .send with pc := .waiting (.rsp .commitReq) }
        -- the RDMA write stays posted
        else k.leave (.committed (-1))
      else k.leave (.committed (-1))
  else some (k.leave (.committed (-1)))

def rpmemCommitAfterRsp (k : Client) : Client :=
  let (ret, commitRet) := unpackCommitRsp k.rsp.bytes 0
  k.leave (.committed (if ret = 0 then commitRet else ret))

/-! ### The threads of the library -/

/-- `rpmem_handle_wc`: only a successful receive or RDMA read posts `sem_command`. -/
def rpmemHandleWc (wc : Wc) (sem : List Token) : List Token :=
  if wc.status = .success then
    match wc.opcode with
    | .recv => sem ++ [⟨.recv, wc.seq⟩]
    | .send => sem
    | .rdmaRead => sem ++ [⟨.rdmaRead, wc.seq⟩]
    | .rdmaWrite => sem
  else sem

/-- `rpmem_cma_handler` for `RDMA_CM_EVENT_DISCONNECTED`: it posts `sem_connect`,
and nothing that a command waits for. -/
def rpmemCmaDisconnected (k : Client) : Client :=
  { k with state := .disconnected, semConnect := k.semConnect + 1, cmPending := false }

namespace Client

/-- A call runs to its first `sem_wait` or to its return. -/
def call (k : Client) (o : ClientOutcomes) : Api → Option Client
  | .rpmemOpen => if k.pc = .connected then some (Rpmem.rpmemOpen o k) else none
  | .rpmemMap len => if k.pc = .idle then some (Rpmem.rpmemMap o len k) else none
  | .rpmemUnmap => if k.pc = .idle then Rpmem.rpmemUnmap o k else none
  | .rpmemCommit => if k.pc = .idle then Rpmem.rpmemCommit o k else none
  | .rpmemClose => if k.pc = .idle then some (Rpmem.rpmemClose o k) else none

/-- `sem_wait` returns, and the call goes on. -/
def resume (k : Client) (o : ClientOutcomes) : Wait → Option Client
  | .rsp .openReq => some (rpmemOpenAfterRsp k)
  | .rsp .closeReq => some (rpmemCloseAfterRsp k)
  | .rsp .mapReq => rpmemMapAfterRsp o k
  | .rsp .unmapReq => rpmemUnmapAfterRsp k
  | .rsp .commitReq => some (rpmemCommitAfterRsp k)
  | .read => some (rpmemMapAfterRead k)

/-- The blocked call takes a token of `sem_command`. -/
def wake (k : Client) (o : ClientOutcomes) : Option Client :=
  match k.pc, k.sem with
  | .waiting w, _ :: sem => { k with sem := sem }.resume o w
  | _, _ => none

/-- The completion thread takes one completion off the queue. -/
def poll (k : Client) : Option Client :=
  match k.cq with
  | wc :: cq => some { k with cq := cq, sem := rpmemHandleWc wc k.sem }
  | [] => none

/-- The application writes to its region between calls. -/
def write (k : Client) (f : ℕ → UInt8) : Option Client :=
  match k.rmrAddr with
  | some b =>
      if k.pc = .idle ∧ k.region = true then
        some { k with
          bufs := Function.update k.bufs b
            (fun i => if i < k.rmrLen.toNat then f i else k.bufs b i) }
      else none
  | none => none

/-! ### What a call can do before it waits -/

/-- Both posts of a request have succeeded, and the call waits for the response. -/
def sent (k : Client) (m : Request) : Client :=
  { ((k.postRecv true).pack m).post .send with pc := .waiting (.rsp m.kind) }

/-- `rpmem_map` has allocated and registered a buffer. -/
def allocated (k : Client) (len : BitVec 64) : Client :=
  { k.start with
    rmrLen := len
    rmrAddr := some k.nextBuf
    bufs := Function.update k.bufs k.nextBuf (fun _ => 0)
    nextBuf := k.nextBuf + 1
    mr := some k.nextBuf
    live := k.nextBuf :: k.live }

/-- `rpmem_commit` has posted its RDMA write and its request. -/
def committing (k : Client) (id : ℕ) : Client :=
  { (((k.start.postRecv true).post (.rdmaWrite (k.rdmaArgs id))).pack
      (.commitReq (k.rmrLen.setWidth 32) k.remoteAddr)).post .send with
    pc := .waiting (.rsp .commitReq) }

/-- A post of a request failed; with it, `r` receives became `n`. -/
def Unsent (o : ClientOutcomes) (r n : ℕ) : Prop :=
  o.postRecv = false ∧ n = r ∨ (o.postRecv = true ∧ o.postSend = false) ∧ n = r + 1

/-- Where a call is at its first `sem_wait` or its return.  What a failed post leaves in the
command buffers is left open. -/
inductive Called (o : ClientOutcomes) (k : Client) : Api → Client → Prop
  | opens (hr : o.postRecv = true) (hs : o.postSend = true) :
      Called o k .rpmemOpen (k.start.sent .openReq)
  | openFails (req rsp : Buffer) (n : ℕ) (hn : Unsent o k.recvs n) :
      Called o k .rpmemOpen ({ k.start with req, rsp, recvs := n }.destroy (.opened false))
  | closes (hr : o.postRecv = true) (hs : o.postSend = true) :
      Called o k .rpmemClose (k.start.sent .closeReq)
  | closeFails (req rsp : Buffer) (n : ℕ) (hn : Unsent o k.recvs n) :
      Called o k .rpmemClose ({ k.start with req, rsp, recvs := n }.destroy .closed)
  | maps (len : BitVec 64) (hs : o.postSend = true) :
      Called o k (.rpmemMap len) ((k.allocated len).sent (.mapReq (len.setWidth 32)))
  | mapFails (len : BitVec 64) (req rsp : Buffer) (n : ℕ) (ha : o.calloc = true ∧ o.regMr = true)
      (hn : Unsent o k.recvs n) :
      Called o k (.rpmemMap len)
        (rpmemMapDestroyMr k.nextBuf { k.allocated len with req, rsp, recvs := n })
  | mapAllocates (len : BitVec 64) (rmrAddr mr : Option ℕ) (bufs : ℕ → ℕ → UInt8) (nextBuf : ℕ)
      (ha : o.calloc = false ∨ o.regMr = false) :
      Called o k (.rpmemMap len)
        (rpmemMapOut { k.start with rmrLen := len, rmrAddr, mr, bufs, nextBuf })
  | unmaps (hr : o.postRecv = true) (hs : o.postSend = true) :
      Called o k .rpmemUnmap
        ({ k.start with region := false }.sent (.unmapReq (k.rmrLen.setWidth 32) k.remoteAddr))
  | unmapFails (req rsp : Buffer) (n id : ℕ) (hn : Unsent o k.recvs n) :
      Called o k .rpmemUnmap
        ({ k.start with
          region := false, req, rsp, recvs := n, live := k.live.erase id, rkey := 0,
          remoteAddr := 0, rmrLen := 0 }.leave (.unmapped (-1)))
  | commits (id : ℕ) (hmr : k.mr = some id) (hw : o.postRdma = true) (hs : o.postSend = true) :
      Called o k .rpmemCommit (k.committing id)
  | commitFails (req rsp : Buffer) (n : ℕ) (sq ws : List Wr) (hsq : sq = k.sq ++ ws)
      (hws : ∀ w ∈ ws, w.op.opcode = .rdmaWrite)
      (hn : o.postRecv = false ∧ n = k.recvs ∨
        (o.postRecv = true ∧ (o.postRdma = false ∨ o.postSend = false)) ∧ n = k.recvs + 1) :
      Called o k .rpmemCommit ({ k.start with req, rsp, recvs := n, sq }.leave (.committed (-1)))

variable {o : ClientOutcomes} {k k' : Client}

/-- A request is sent, or a post of it failed. -/
theorem sendRequest_cases (o : ClientOutcomes) (m : Request) (k : Client) :
    (o.postRecv = true ∧ o.postSend = true ∧
      k.sendRequest o m = (true, ((k.postRecv true).pack m).post .send)) ∨
    ∃ req rsp n, Unsent o k.recvs n ∧
      k.sendRequest o m = (false, { k with req, rsp, recvs := n }) := by
  unfold sendRequest
  cases hr : o.postRecv with
  | false => exact .inr ⟨_, _, _, .inl ⟨hr, rfl⟩, rfl⟩
  | true =>
      cases hs : o.postSend with
      | false => exact .inr ⟨_, _, _, .inr ⟨⟨hr, hs⟩, rfl⟩, rfl⟩
      | true => exact .inl ⟨rfl, rfl, rfl⟩

end Client

theorem rpmemOpen_called (o : ClientOutcomes) (k : Client) :
    k.Called o .rpmemOpen (rpmemOpen o k) := by
  unfold rpmemOpen
  obtain ⟨hr, hs, he⟩ | ⟨req, rsp, n, hn, he⟩ := k.start.sendRequest_cases o .openReq <;> rw [he]
  · exact .opens hr hs
  · exact .openFails req rsp n hn

theorem rpmemClose_called (o : ClientOutcomes) (k : Client) :
    k.Called o .rpmemClose (rpmemClose o k) := by
  unfold rpmemClose
  obtain ⟨hr, hs, he⟩ | ⟨req, rsp, n, hn, he⟩ := k.start.sendRequest_cases o .closeReq <;> rw [he]
  · exact .closes hr hs
  · exact .closeFails req rsp n hn

theorem rpmemMap_called (o : ClientOutcomes) (len : BitVec 64) (k : Client) :
    k.Called o (.rpmemMap len) (rpmemMap o len k) := by
  cases hc : o.calloc with
  | false =>
      simp only [rpmemMap, hc, Bool.false_eq_true, if_false]
      exact .mapAllocates len _ _ _ _ (.inl hc)
  | true =>
      cases hg : o.regMr with
      | false =>
          simp only [rpmemMap, hc, hg, Bool.false_eq_true, if_false, if_true]
          exact .mapAllocates len _ _ _ _ (.inr hg)
      | true =>
          have hrun : rpmemMap o len k =
              match (k.allocated len).sendRequest o (.mapReq (len.setWidth 32)) with
              | (true, k) => { k with pc := .waiting (.rsp .mapReq) }
              | (false, k₁) => rpmemMapDestroyMr k.nextBuf k₁ := by
            simp only [rpmemMap, hc, hg, if_true]
            rfl
          rw [hrun]
          obtain ⟨-, hs, he⟩ | ⟨req, rsp, n, hn, he⟩ :=
            (k.allocated len).sendRequest_cases o (.mapReq (len.setWidth 32)) <;> rw [he]
          · exact .maps len hs
          · exact .mapFails len req rsp n ⟨hc, hg⟩ hn

section Called

variable {o : ClientOutcomes} {k k' : Client}

/-- `rpmem_unmap` sends what it knows of the region. -/
theorem rpmemUnmap_eq (o : ClientOutcomes) (k : Client) : rpmemUnmap o k =
    match ({ k.start with region := false } : Client).sendRequest o
      (.unmapReq (k.rmrLen.setWidth 32) k.remoteAddr) with
    | (true, k) => some { k with pc := .waiting (.rsp .unmapReq) }
    | (false, k) => rpmemUnmapDestroyMr (-1) k := rfl

theorem rpmemUnmap_called (h : rpmemUnmap o k = some k') : k.Called o .rpmemUnmap k' := by
  obtain ⟨hr, hs, he⟩ | ⟨req, rsp, n, hn, he⟩ := Client.sendRequest_cases o
    (.unmapReq (k.rmrLen.setWidth 32) k.remoteAddr) { k.start with region := false }
  · have hrun : rpmemUnmap o k =
        some ({ k.start with region := false }.sent
          (.unmapReq (k.rmrLen.setWidth 32) k.remoteAddr)) := by
      rw [rpmemUnmap_eq, he]
      rfl
    obtain rfl := Option.some.inj (hrun.symm.trans h)
    exact .unmaps hr hs
  · have hrun : rpmemUnmap o k =
        rpmemUnmapDestroyMr (-1) { k.start with region := false, req, rsp, recvs := n } := by
      rw [rpmemUnmap_eq, he]
    obtain ⟨id, -, rfl⟩ := Option.map_eq_some_iff.1 (hrun.symm.trans h)
    exact .unmapFails req rsp n id hn

theorem rpmemCommit_called (h : rpmemCommit o k = some k') : k.Called o .rpmemCommit k' := by
  have hnil : k.sq = k.sq ++ [] := (List.append_nil _).symm
  unfold rpmemCommit at h
  cases hr : o.postRecv with
  | false =>
      simp only [hr, Bool.false_eq_true, if_false] at h
      obtain rfl := Option.some.inj h
      exact .commitFails _ _ _ _ [] hnil (by simp) (.inl ⟨hr, rfl⟩)
  | true =>
      simp only [hr, if_true] at h
      obtain ⟨id, hmr, rfl⟩ := Option.map_eq_some_iff.1 h
      cases hw : o.postRdma with
      | false => exact .commitFails _ _ _ _ [] hnil (by simp) (.inr ⟨⟨hr, .inl hw⟩, rfl⟩)
      | true =>
          cases hs : o.postSend with
          | false => exact .commitFails _ _ _ _ _ rfl (by simp [WrOp.opcode]) (.inr ⟨⟨hr, .inr hs⟩, rfl⟩)
          | true => exact .commits id hmr hw hs

/-- A wake-up takes a token of the call that waits. -/
theorem Client.wake_cases (h : k.wake o = some k') :
    ∃ w tok sem, k.pc = .waiting w ∧ k.sem = tok :: sem ∧
      { k with sem := sem }.resume o w = some k' := by
  unfold Client.wake at h
  split at h
  · rename_i w tok sem hpc hsem
    exact ⟨w, tok, sem, hpc, hsem, h⟩
  · cases h

/-- **A call, from its entry to its first wait or its return.** -/
theorem Client.call_called {api : Api} (h : k.call o api = some k') :
    (k.pc = .idle ∨ k.pc = .connected) ∧ k.Called o api k' := by
  cases api with
  | rpmemOpen =>
      obtain ⟨hp, ⟨⟩⟩ := Option.ite_none_right_eq_some.1 h
      exact ⟨.inr hp, rpmemOpen_called o k⟩
  | rpmemMap len =>
      obtain ⟨hp, ⟨⟩⟩ := Option.ite_none_right_eq_some.1 h
      exact ⟨.inl hp, rpmemMap_called o len k⟩
  | rpmemUnmap =>
      obtain ⟨hp, h⟩ := Option.ite_none_right_eq_some.1 h
      exact ⟨.inl hp, rpmemUnmap_called h⟩
  | rpmemCommit =>
      obtain ⟨hp, h⟩ := Option.ite_none_right_eq_some.1 h
      exact ⟨.inl hp, rpmemCommit_called h⟩
  | rpmemClose =>
      obtain ⟨hp, ⟨⟩⟩ := Option.ite_none_right_eq_some.1 h
      exact ⟨.inl hp, rpmemClose_called o k⟩

end Called

end Rpmem
