/-
# The server as a transition system

The events of the server: a connection-manager event, a message that arrives
for a posted receive, and the completion thread of a connection handling one
receive completion.  Every connection has its own completion thread, so the
events of different connections come in any order; a handler is one event.

`Served` says once what a handler can do to the server, before it posts its
response: nothing but the re-posted receive, a claimed and mapped resource, an
unmapped one, or a synced range.  `rpmemRcvCompletion_cases` shows that these
are all, and everything later is proved from them.
-/

import Rpmem.Lib.Lts
import Rpmem.Server.Handlers
import Mathlib.Data.BitVec

namespace Rpmem

/-- `enum rdma_cm_event_type`. -/
inductive CmEvent
  | addrResolved | addrError | routeResolved | routeError | connectRequest | connectResponse
  | connectError | unreachable | rejected | established | disconnected | deviceRemoval
  | multicastJoin | multicastError | addrChange | timewaitExit
  deriving DecidableEq, Repr

/-- The unit `rpmem_connect_request_handler` allocates, its first receive posted. -/
def ServerUnit.fresh : ServerUnit where
  req := ⟨Cmd.zero, 0⟩
  rsp := ⟨Cmd.zero, 0⟩
  recvs := 1
  pending := 0
  sends := 0
  res := none

/-- `rpmem_connect_request_handler`; `accepted` says that every step of it
succeeded, otherwise the connection is rejected and the unit is lost. -/
def rpmemConnectRequestHandler (accepted : Bool) (s : Server) (c : ConnId) : Server :=
  if accepted then { s.setUnit c ServerUnit.fresh with conns := c :: s.conns } else s

/-- `rpmem_server_cma_handler`: every event but a connection request is
ignored, a disconnect too. -/
def rpmemServerCmaHandler (ev : CmEvent) (accepted : Bool) (s : Server) (c : ConnId) : Server :=
  match ev with
  | .connectRequest => rpmemConnectRequestHandler accepted s c
  | _ => s

namespace Server

/-- A message takes the connection's posted receive and fills its request buffer. -/
def receive (s : Server) (c : ConnId) (msg : Buffer) : Server :=
  s.setUnit c { s.unit c with
    req := msg
    recvs := (s.unit c).recvs - 1
    pending := (s.unit c).pending + 1 }

/-- Take one receive completion off the connection's completion queue. -/
def poll (s : Server) (c : ConnId) : Server :=
  s.setUnit c { s.unit c with pending := (s.unit c).pending - 1 }

/-- Handle one receive completion of a connection. -/
def handle (s : Server) (c : ConnId) (o : Outcomes) : Except Fault Handled :=
  rpmemRcvCompletion o (s.poll c) c

end Server

/-- The events of the server. -/
inductive ServerEvent
  | cm (c : ConnId) (ev : CmEvent) (accepted : Bool)
  | receive (c : ConnId) (msg : Buffer)
  | handle (c : ConnId) (o : Outcomes)

/-- One event.  A connection request comes with a connection of its own; a
message needs a posted receive, and waits without one; a fault ends the run. -/
def serverStep (s : Server) : ServerEvent → Option Server
  | .cm c ev accepted =>
      if ev = .connectRequest ∧ c ∈ s.conns then none
      else some (rpmemServerCmaHandler ev accepted s c)
  | .receive c msg =>
      if c ∈ s.conns ∧ 0 < (s.unit c).recvs then some (s.receive c msg) else none
  | .handle c o =>
      if c ∈ s.conns ∧ 0 < (s.unit c).pending then
        match s.handle c o with
        | .ok m => some m.server
        | .error _ => none
      else none

/-- **Everything an event can do.**  A connection-manager event makes a new unit
or does nothing, a message fills a posted receive, and a completion is handled. -/
theorem serverStep_cases {s t : Server} {e : ServerEvent} (h : serverStep s e = some t) :
    ((∃ c ev accepted, e = .cm c ev accepted) ∧
      (t = s ∨ ∃ c, c ∉ s.conns ∧ t = rpmemConnectRequestHandler true s c)) ∨
    (∃ c msg, e = .receive c msg ∧ c ∈ s.conns ∧ 0 < (s.unit c).recvs ∧ t = s.receive c msg) ∨
    ∃ c o m, e = .handle c o ∧ c ∈ s.conns ∧ 0 < (s.unit c).pending ∧ s.handle c o = .ok m ∧
      t = m.server := by
  cases e with
  | cm c ev accepted =>
      rw [serverStep] at h
      split_ifs at h with hc
      obtain rfl := Option.some.inj h
      refine .inl ⟨⟨c, ev, accepted, rfl⟩, ?_⟩
      unfold rpmemServerCmaHandler
      split
      · cases accepted with
        | true => exact .inr ⟨c, fun hm => hc ⟨rfl, hm⟩, rfl⟩
        | false => exact .inl rfl
      · exact .inl rfl
  | receive c msg =>
      rw [serverStep] at h
      split_ifs at h with hc
      exact .inr (.inl ⟨c, msg, rfl, hc.1, hc.2, (Option.some.inj h).symm⟩)
  | handle c o =>
      rw [serverStep] at h
      split_ifs at h with hc
      split at h
      · rename_i m hm
        exact .inr (.inr ⟨c, o, m, rfl, hc.1, hc.2, hm, (Option.some.inj h).symm⟩)
      · cases h

/-- The server `main` has set up, for a pool of any distinct resources: the
counters say so, no connection, nothing registered. -/
structure Server.Initial (s : Server) : Prop where
  nodup : s.resList.Nodup
  free : s.freeSize = (s.resList.map fun r => (s.resource r).size).sum
  total : s.totalSize = s.freeSize
  inUse : s.inUseSize = 0
  conns : s.conns = []
  res : ∀ c, (s.unit c).res = none
  mrs : s.host.mrs = []

/-- The server as `main` sets it up: one resource, its dynamic fields not
initialised. -/
def Server.main (res : Resource) (host : Host) : Server where
  conns := []
  resList := [0]
  totalSize := res.size
  inUseSize := 0
  freeSize := res.size
  resource := fun _ => res
  unit := fun _ => { ServerUnit.fresh with recvs := 0 }
  host := host

theorem Server.main_initial (res : Resource) (host : Host) (h : host.mrs = []) :
    (Server.main res host).Initial where
  nodup := List.pairwise_singleton _ _
  free := (List.sum_singleton).symm
  total := rfl
  inUse := rfl
  conns := rfl
  res _ := rfl
  mrs := h

/-- A host with nothing mapped or registered and files of zeros. -/
def Host.blank : Host where
  pages := fun _ => none
  store := fun _ _ => 0
  info := fun _ => ⟨0, .priv⟩
  nextMap := 0
  files := fun _ _ => 0
  mrs := []
  nextMr := 0

/-- Every call succeeds: `mmap` picks `addr`, the registration gets `rkey`. -/
def Outcomes.allOk (addr : BitVec 64) (rkey : BitVec 32) : Outcomes where
  postRecv := true
  postSend := true
  posixFallocate := true
  mmap := some addr
  regMr := some rkey
  munmap := true
  msync := true
  junkAddr := 0
  junkRkey := 0

/-! ### What a handler can do -/

/-- The response a request is answered with. -/
def ReqKind.rsp : ReqKind → RspKind
  | .openReq => .openRsp
  | .closeReq => .closeRsp
  | .mapReq => .mapRsp
  | .unmapReq => .unmapRsp
  | .commitReq => .commitRsp

/-- What the handlers do up to their label `out`: the fields of the response to
be sent, the server there, and the calls made so far. -/
inductive Served (o : Outcomes) (s : Server) (c : ConnId) :
    (k : RspKind) → k.Fields → Server → List Call → Prop
  | opened : Served o s c .openRsp s.freeSize (s.postRecv c o.postRecv) [.postRecv o.postRecv]
  | closed : Served o s c .closeRsp (0 : CInt) s []
  | mapRefused (h : o.postRecv = true →
        s.fit (wordField (s.unit c).req.bytes) = none ∧ (s.unit c).res = none) :
      Served o s c .mapRsp (o.junkRkey, o.junkAddr) (s.postRecv c o.postRecv)
        [.postRecv o.postRecv]
  | mapped (r : ResId) (m : MapOut) (hr : o.postRecv = true)
      (hfit : s.fit (wordField (s.unit c).req.bytes) = some r)
      (hm : mapResource o ((s.postRecv c true).take c r) c r (wordField (s.unit c).req.bytes) = m) :
      Served o s c .mapRsp (m.rkey, m.addr) m.server (.postRecv true :: m.calls)
  | unmapRefused (h : o.postRecv = false) :
      Served o s c .unmapRsp (-1 : CInt) (s.postRecv c false) [.postRecv false]
  | unmapped (r : ResId) (mr : ℕ) (m : RetOut) (hr : o.postRecv = true)
      (hres : (s.unit c).res = some r) (hmr : (s.resource r).mr = some mr)
      (hm : unmapResource o (s.postRecv c true) c r mr (addrField (s.unit c).req.bytes)
        (wordField (s.unit c).req.bytes) = m) :
      Served o s c .unmapRsp m.ret m.server (.postRecv true :: m.calls)
  | commitRefused (h : o.postRecv = false) :
      Served o s c .commitRsp (-1 : CInt) (s.postRecv c false) [.postRecv false]
  | committed (ret : CInt) (host : Host) (hr : o.postRecv = true)
      (hm : s.host.msync (addrField (s.unit c).req.bytes)
        (sizeT (wordField (s.unit c).req.bytes)) o.msync = (ret, host)) :
      Served o s c .commitRsp ret { s.postRecv c true with host := host }
        [.postRecv true, .msync (addrField (s.unit c).req.bytes)
          (sizeT (wordField (s.unit c).req.bytes)) ret
          (fun i => s.host.byteAt ((addrField (s.unit c).req.bytes).toNat + i))]

variable {o : Outcomes} {s : Server} {c : ConnId}

/-! The branches of the two handlers that can fault, one equation each. -/

theorem rpmemHandleMapBody_of_fit {r : ResId} (hr : o.postRecv = true)
    (hfit : s.fit (wordField (s.unit c).req.bytes) = some r) :
    rpmemHandleMapBody o s c = .ok
      { mapResource o ((s.postRecv c true).take c r) c r (wordField (s.unit c).req.bytes) with
        calls := .postRecv true :: (mapResource o ((s.postRecv c true).take c r) c r
          (wordField (s.unit c).req.bytes)).calls } := by
  have hclaim : (s.postRecv c true).claim c (wordField (s.unit c).req.bytes) =
      (some r, (s.postRecv c true).take c r) := by
    have : (s.postRecv c true).fit (wordField (s.unit c).req.bytes) = some r := hfit
    rw [Server.claim, this]
  unfold rpmemHandleMapBody
  simp [hr, hclaim]

theorem rpmemHandleMapBody_of_no_fit (hr : o.postRecv = true)
    (hfit : s.fit (wordField (s.unit c).req.bytes) = none) :
    rpmemHandleMapBody o s c =
      match (s.unit c).res with
      | none => .ok ⟨s.postRecv c true, [.postRecv true], o.junkAddr, o.junkRkey, -1⟩
      | some _ => .error .nullResource := by
  have hclaim : (s.postRecv c true).claim c (wordField (s.unit c).req.bytes) =
      (none, s.postRecv c true) := by
    have : (s.postRecv c true).fit (wordField (s.unit c).req.bytes) = none := hfit
    rw [Server.claim, this]
  unfold rpmemHandleMapBody
  cases hres : (s.unit c).res <;> simp [hr, hclaim, hres]

theorem rpmemHandleMapBody_of_refused (hr : o.postRecv = false) :
    rpmemHandleMapBody o s c =
      .ok ⟨s.postRecv c false, [.postRecv false], o.junkAddr, o.junkRkey, -1⟩ := by
  unfold rpmemHandleMapBody
  simp [hr]

theorem rpmemHandleUnmapBody_of_refused (hr : o.postRecv = false) :
    rpmemHandleUnmapBody o s c = .ok ⟨s.postRecv c false, [.postRecv false], -1⟩ := by
  unfold rpmemHandleUnmapBody
  simp [hr]

theorem rpmemHandleUnmapBody_of_none (hr : o.postRecv = true) (hres : (s.unit c).res = none) :
    rpmemHandleUnmapBody o s c = .error .nullResource := by
  unfold rpmemHandleUnmapBody
  simp [hr, hres]

theorem rpmemHandleUnmapBody_of_some {r : ResId} (hr : o.postRecv = true)
    (hres : (s.unit c).res = some r) :
    rpmemHandleUnmapBody o s c =
      match (s.resource r).mr with
      | none => .error .nullMr
      | some mr => .ok
          { unmapResource o (s.postRecv c true) c r mr (addrField (s.unit c).req.bytes)
              (wordField (s.unit c).req.bytes) with
            calls := .postRecv true :: (unmapResource o (s.postRecv c true) c r mr
              (addrField (s.unit c).req.bytes) (wordField (s.unit c).req.bytes)).calls } := by
  unfold rpmemHandleUnmapBody
  cases hmr : (s.resource r).mr <;> simp [hr, hres, hmr]

theorem rpmemHandleMapBody_cases {m : MapOut} (h : rpmemHandleMapBody o s c = .ok m) :
    Served o s c .mapRsp (m.rkey, m.addr) m.server m.calls := by
  cases hr : o.postRecv with
  | false =>
      rw [rpmemHandleMapBody_of_refused hr] at h
      cases h
      rw [← hr]
      exact .mapRefused fun ht => by rw [hr] at ht; cases ht
  | true =>
      cases hfit : s.fit (wordField (s.unit c).req.bytes) with
      | some r =>
          rw [rpmemHandleMapBody_of_fit hr hfit] at h
          cases h
          exact .mapped r _ hr hfit rfl
      | none =>
          rw [rpmemHandleMapBody_of_no_fit hr hfit] at h
          cases hres : (s.unit c).res with
          | none =>
              rw [hres] at h
              cases h
              rw [← hr]
              exact .mapRefused fun _ => ⟨hfit, hres⟩
          | some r =>
              rw [hres] at h
              cases h

theorem rpmemHandleUnmapBody_cases {m : RetOut} (h : rpmemHandleUnmapBody o s c = .ok m) :
    Served o s c .unmapRsp m.ret m.server m.calls := by
  cases hr : o.postRecv with
  | false =>
      rw [rpmemHandleUnmapBody_of_refused hr] at h
      cases h
      exact .unmapRefused hr
  | true =>
      cases hres : (s.unit c).res with
      | none =>
          rw [rpmemHandleUnmapBody_of_none hr hres] at h
          cases h
      | some r =>
          rw [rpmemHandleUnmapBody_of_some hr hres] at h
          cases hmr : (s.resource r).mr with
          | none =>
              rw [hmr] at h
              cases h
          | some mr =>
              rw [hmr] at h
              cases h
              exact .unmapped r mr _ hr hres hmr rfl

theorem rpmemHandleCommitBody_cases :
    Served o s c .commitRsp (rpmemHandleCommitBody o s c).ret (rpmemHandleCommitBody o s c).server
      (rpmemHandleCommitBody o s c).calls := by
  unfold rpmemHandleCommitBody
  cases hr : o.postRecv with
  | false => exact .commitRefused hr
  | true => exact .committed _ _ hr rfl

/-- **Everything a handler can do.**  An unknown request changes nothing; a
known one does what `Served` says and then posts its packed response. -/
theorem rpmemRcvCompletion_cases {m : Handled} (h : rpmemRcvCompletion o s c = .ok m) :
    (requestKind (s.unit c).req.bytes = none ∧ m.server = s ∧ m.calls = []) ∨
      ∃ q f t calls, requestKind (s.unit c).req.bytes = some q ∧ Served o s c q.rsp f t calls ∧
        m.server = t.postSend c (packRsp q.rsp f (t.unit c).rsp.bytes) (s.unit c).req.seq
          o.postSend ∧
        m.calls = calls ++ [.postSend o.postSend] := by
  unfold rpmemRcvCompletion at h
  split at h
  · rename_i hk
    cases h
    exact .inr ⟨_, _, _, _, hk, .opened, rfl, rfl⟩
  · rename_i hk
    cases h
    exact .inr ⟨_, _, _, _, hk, .closed, rfl, rfl⟩
  · rename_i hk
    unfold rpmemHandleMap at h
    simp only at h
    split at h
    · cases h
    · rename_i hb
      cases h
      exact .inr ⟨_, _, _, _, hk, rpmemHandleMapBody_cases hb, rfl, rfl⟩
  · rename_i hk
    unfold rpmemHandleUnmap at h
    simp only at h
    split at h
    · cases h
    · rename_i hb
      cases h
      exact .inr ⟨_, _, _, _, hk, rpmemHandleUnmapBody_cases hb, rfl, rfl⟩
  · rename_i hk
    cases h
    exact .inr ⟨_, _, _, _, hk, rpmemHandleCommitBody_cases, rfl, rfl⟩
  · rename_i hk
    cases h
    exact .inl ⟨hk, rfl, rfl⟩

/-- The completion is gone, the rest of the unit is as it was. -/
theorem Server.poll_unit (s : Server) (c : ConnId) :
    (s.poll c).unit c = { s.unit c with pending := (s.unit c).pending - 1 } := by
  simp [Server.poll]

/-- What handling a known request does. -/
theorem Server.handle_served {m : Handled} (h : s.handle c o = .ok m) {q : ReqKind}
    (hk : requestKind (s.unit c).req.bytes = some q) :
    ∃ f t calls, Served o (s.poll c) c q.rsp f t calls ∧
      m.server = t.postSend c (packRsp q.rsp f (t.unit c).rsp.bytes) (s.unit c).req.seq
        o.postSend ∧
      m.calls = calls ++ [.postSend o.postSend] := by
  rcases rpmemRcvCompletion_cases h with ⟨hnone, -⟩ | ⟨q', f, t, calls, hk', ht, hs, hcalls⟩
  · rw [Server.poll_unit, hk] at hnone
    cases hnone
  · rw [Server.poll_unit] at hk' hs
    obtain rfl : q = q' := Option.some.inj (hk.symm.trans hk')
    exact ⟨f, t, calls, ht, hs, hcalls⟩

/-- **Mapping a resource, outcome by outcome.**  After `mmap` the registration
fails, and the mapping is undone as far as `munmap` goes, or it succeeds. -/
theorem mapResource_cases (o : Outcomes) (s : Server) (c : ConnId) (r : ResId) (len : CInt) :
    ∃ a h₁, s.host.mmap (s.resource r).fd .priv (sizeT len) o.mmap = (a, h₁) ∧
      ((∃ ret h₂, h₁.munmap (a.getD 0) (sizeT len) o.munmap = (ret, h₂) ∧
        mapResource o s c r len =
          ⟨{ s.setResource r { s.resource r with mr := none, addr := a.getD 0, mapLen := len } with
              host := h₂ },
            [.posixFallocate o.posixFallocate, .mmap a, .regMr none,
              .munmap (a.getD 0) (sizeT len) ret], 0, o.junkRkey, -1⟩) ∨
      ∃ rkey, (∀ q ∈ h₁.mrs, q.rkey ≠ rkey) ∧
        mapResource o s c r len =
          ⟨{ s.setResource r
                { s.resource r with mr := some h₁.nextMr, addr := a.getD 0, mapLen := len } with
              host := { h₁ with
                mrs := h₁.registration c (a.getD 0) (sizeT len) rkey :: h₁.mrs
                nextMr := h₁.nextMr + 1 } },
            [.posixFallocate o.posixFallocate, .mmap a, .regMr (some h₁.nextMr)],
            a.getD 0, rkey, if o.posixFallocate && a.isSome then 0 else -1⟩) := by
  refine ⟨_, _, rfl, ?_⟩
  rcases Host.regMr_cases (h := (s.host.mmap (s.resource r).fd .priv (sizeT len) o.mmap).2) c
    ((s.host.mmap (s.resource r).fd .priv (sizeT len) o.mmap).1.getD 0) (sizeT len) o.regMr
    with hreg | ⟨rkey, hfresh, hreg⟩
  · refine .inl ⟨_, _, rfl, ?_⟩
    unfold mapResource
    simp only [hreg]
    rfl
  · refine .inr ⟨rkey, hfresh, ?_⟩
    unfold mapResource
    simp only [hreg]
    rfl

/-- **Unmapping a resource.**  The region is deregistered and the record cleared;
the resource goes back to the list when `munmap` returned `0`. -/
theorem unmapResource_cases (o : Outcomes) (s : Server) (c : ConnId) (r : ResId) (mr : ℕ)
    (addr : BitVec 64) (len : CInt) :
    ∃ ret h₁, (s.host.deregMr mr).munmap addr (sizeT len) o.munmap = (ret, h₁) ∧
      unmapResource o s c r mr addr len =
        ⟨if ret = 0 then
            Server.release { s.setResource r { s.resource r with mapLen := 0, addr := 0 } with
              host := h₁ } c r
          else { s.setResource r { s.resource r with mapLen := 0, addr := 0 } with host := h₁ },
          [.deregMr mr (decide (s.host.LiveMr mr)), .munmap addr (sizeT len) ret], ret⟩ :=
  ⟨_, _, rfl, rfl⟩

/-! ### What a handler leaves alone -/

/-- Mapping a resource changes that resource and the host, and never the file
or the size of the resource. -/
theorem mapResource_server (o : Outcomes) (s : Server) (c : ConnId) (r : ResId) (len : CInt) :
    ∃ x host, (mapResource o s c r len).server = { s.setResource r x with host := host } ∧
      x.fd = (s.resource r).fd ∧ x.stSize = (s.resource r).stSize := by
  obtain ⟨a, h₁, -, ⟨ret, h₂, -, hm⟩ | ⟨rkey, -, hm⟩⟩ := mapResource_cases o s c r len <;>
    rw [hm] <;> exact ⟨_, _, rfl, rfl, rfl⟩

/-- Unmapping a resource changes that resource and the host, and puts the
resource back when `munmap` returned `0`. -/
theorem unmapResource_server (o : Outcomes) (s : Server) (c : ConnId) (r : ResId) (mr : ℕ)
    (addr : BitVec 64) (len : CInt) :
    ∃ x host, (unmapResource o s c r mr addr len).server =
        (if (unmapResource o s c r mr addr len).ret = 0 then
          Server.release { s.setResource r x with host := host } c r
        else { s.setResource r x with host := host }) ∧
      x.fd = (s.resource r).fd ∧ x.stSize = (s.resource r).stSize :=
  ⟨_, _, rfl, rfl, rfl⟩

section Frame

variable {k : RspKind} {f : k.Fields} {t : Server} {calls : List Call}

/-- A handler touches no unit but its own. -/
theorem Served.unit_of_ne (h : Served o s c k f t calls) {d : ConnId} (hd : d ≠ c) :
    t.unit d = s.unit d := by
  cases h with
  | mapped r m _ _ hm =>
      obtain ⟨x, host, hs, -⟩ := mapResource_server o ((s.postRecv c true).take c r) c r
        (wordField (s.unit c).req.bytes)
      rw [← hm, hs]
      simp [hd]
  | unmapped r mr m _ _ _ hm =>
      obtain ⟨x, host, hs, -⟩ := unmapResource_server o (s.postRecv c true) c r mr
        (addrField (s.unit c).req.bytes) (wordField (s.unit c).req.bytes)
      rw [← hm, hs]
      split_ifs <;> simp [hd]
  | opened | closed | mapRefused | unmapRefused | commitRefused | committed => simp [hd]

/-- Of its own unit a handler changes, before it replies, the request buffer,
the posted receives and the resource. -/
theorem Served.unit_self (h : Served o s c k f t calls) :
    (t.unit c).rsp = (s.unit c).rsp ∧ (t.unit c).sends = (s.unit c).sends ∧
      (t.unit c).pending = (s.unit c).pending ∧
      (t.unit c).recvs = (if k = .closeRsp then (s.unit c).recvs
        else if o.postRecv then (s.unit c).recvs + 1 else (s.unit c).recvs) := by
  cases h with
  | mapped r m hr _ hm =>
      obtain ⟨x, host, hs, -⟩ := mapResource_server o ((s.postRecv c true).take c r) c r
        (wordField (s.unit c).req.bytes)
      rw [← hm, hs]
      simp [hr, rpmemPostRecv]
  | unmapped r mr m hr _ _ hm =>
      obtain ⟨x, host, hs, -⟩ := unmapResource_server o (s.postRecv c true) c r mr
        (addrField (s.unit c).req.bytes) (wordField (s.unit c).req.bytes)
      rw [← hm, hs]
      split_ifs <;> simp [hr, rpmemPostRecv] at *
  | unmapRefused hr | commitRefused hr | committed _ _ hr => simp [hr, rpmemPostRecv]
  | opened | closed | mapRefused => simp [rpmemPostRecv]

/-- No handler changes which connections there are, or the total size. -/
theorem Served.conns (h : Served o s c k f t calls) :
    t.conns = s.conns ∧ t.totalSize = s.totalSize := by
  cases h with
  | mapped r m _ _ hm =>
      obtain ⟨x, host, hs, -⟩ := mapResource_server o ((s.postRecv c true).take c r) c r
        (wordField (s.unit c).req.bytes)
      rw [← hm, hs]
      simp
  | unmapped r mr m _ _ _ hm =>
      obtain ⟨x, host, hs, -⟩ := unmapResource_server o (s.postRecv c true) c r mr
        (addrField (s.unit c).req.bytes) (wordField (s.unit c).req.bytes)
      rw [← hm, hs]
      split_ifs <;> simp
  | opened | closed | mapRefused | unmapRefused | commitRefused | committed => simp

/-- No handler changes the file or the size of a resource. -/
theorem Served.resource_static (h : Served o s c k f t calls) (r : ResId) :
    (t.resource r).fd = (s.resource r).fd ∧ (t.resource r).stSize = (s.resource r).stSize := by
  cases h with
  | mapped r' m _ _ hm =>
      obtain ⟨x, host, hs, hfd, hsize⟩ := mapResource_server o ((s.postRecv c true).take c r') c r'
        (wordField (s.unit c).req.bytes)
      rw [← hm, hs]
      by_cases hr : r = r'
      · subst hr
        simpa using ⟨hfd, hsize⟩
      · simp [hr]
  | unmapped r' mr m _ _ _ hm =>
      obtain ⟨x, host, hs, hfd, hsize⟩ := unmapResource_server o (s.postRecv c true) c r' mr
        (addrField (s.unit c).req.bytes) (wordField (s.unit c).req.bytes)
      rw [← hm, hs]
      by_cases hr : r = r'
      · subst hr
        split_ifs <;> simpa using ⟨hfd, hsize⟩
      · split_ifs <;> simp [hr]
  | opened | closed | mapRefused | unmapRefused | commitRefused | committed => simp

end Frame

/-- Handling a request of one connection touches no other unit. -/
theorem Server.handle_unit_of_ne {m : Handled} (h : s.handle c o = .ok m) {d : ConnId}
    (hd : d ≠ c) : m.server.unit d = s.unit d := by
  have hpoll : (s.poll c).unit d = s.unit d := by simp [Server.poll, hd]
  rcases rpmemRcvCompletion_cases h with ⟨-, hs, -⟩ | ⟨q, f, t, calls, -, ht, hs, -⟩
  · rw [hs, hpoll]
  · rw [hs, Server.postSend_unit, Function.update_of_ne hd, ht.unit_of_ne hd, hpoll]

/-- The connection an event is about. -/
def ServerEvent.conn : ServerEvent → ConnId
  | .cm c _ _ | .receive c _ | .handle c _ => c

/-- An event touches no unit but that of its connection. -/
theorem serverStep_frame {t : Server} {e : ServerEvent} (h : serverStep s e = some t) {d : ConnId}
    (hd : d ≠ e.conn) : t.unit d = s.unit d := by
  cases e with
  | cm c ev accepted =>
      change d ≠ c at hd
      rw [serverStep] at h
      split_ifs at h
      obtain rfl := Option.some.inj h
      cases ev <;> cases accepted <;>
        simp [rpmemServerCmaHandler, rpmemConnectRequestHandler, hd]
  | receive c msg =>
      change d ≠ c at hd
      rw [serverStep] at h
      split_ifs at h
      obtain rfl := Option.some.inj h
      simp [Server.receive, hd]
  | handle c o =>
      rcases serverStep_cases h with ⟨⟨_, _, _, he⟩, -⟩ | ⟨_, _, he, -⟩ |
        ⟨c', o', m, he, -, -, hm, rfl⟩
      · cases he
      · cases he
      · cases he
        exact Server.handle_unit_of_ne hm hd

/-- **What handling a request does to its own unit**: the completion is gone, and
a known request has been answered in `rsp`, under its own number. -/
theorem Server.handle_unit {m : Handled} (h : s.handle c o = .ok m) :
    (requestKind (s.unit c).req.bytes = none ∧
      m.server.unit c = { s.unit c with pending := (s.unit c).pending - 1 }) ∨
    ∃ q f b, requestKind (s.unit c).req.bytes = some q ∧
      (m.server.unit c).pending = (s.unit c).pending - 1 ∧
      (m.server.unit c).rsp = ⟨packRsp q.rsp f b, (s.unit c).req.seq⟩ ∧
      (m.server.unit c).sends =
        (if o.postSend then (s.unit c).sends + 1 else (s.unit c).sends) ∧
      (m.server.unit c).recvs = (if q = .closeReq then (s.unit c).recvs
        else if o.postRecv then (s.unit c).recvs + 1 else (s.unit c).recvs) := by
  have hpoll := s.poll_unit c
  rcases rpmemRcvCompletion_cases h with ⟨hk, hs, -⟩ | ⟨q, f, t, calls, hk, ht, hs, -⟩
  · rw [hpoll] at hk
    rw [hs, hpoll]
    exact .inl ⟨hk, rfl⟩
  · obtain ⟨-, hsends, hpending, hrecvs⟩ := ht.unit_self
    rw [hpoll] at hk hsends hpending hrecvs
    refine .inr ⟨q, f, (t.unit c).rsp.bytes, hk, ?_⟩
    rw [hs, Server.postSend_unit, Function.update_self, hpoll]
    have hclose : q.rsp = .closeRsp ↔ q = .closeReq := by cases q <;> simp [ReqKind.rsp]
    refine ⟨hpending, rfl, ?_, ?_⟩
    · simp only [hsends]
    · simp only [hrecvs, hclose]

end Rpmem
