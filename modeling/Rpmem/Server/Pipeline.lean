/-
# Handlers step by step, with requests arriving in between

`Rpmem.Server.Handlers` runs a handler as one step.  Here the completion thread
of a connection takes its handler one call at a time, the threads of all
connections interleave, and a message may arrive whenever a receive is posted:
also in the middle of a handler, once `rpmem_post_recv` has cleared `conn->req`
and posted it again.  A client sends any messages, and need not wait for a
response.

What keeps a handler from reading the next request for its own is an order in
the code: every handler reads `len` and `remote_addr` into locals before it
posts the buffer, and none looks at the buffer after that.  `PipelineInv` is the
invariant behind it: of the posted receive, the completion not handled yet and
the handler that has not posted its receive again there is at most one.

`Finishes.handler` connects the two models: the steps of a handler, one after the
other, are the handler of `Rpmem.Server.Handlers`; and a message that arrives in
the middle might as well have arrived at the end (`Finishes.receive`).  A
completion counts as pending from the arrival of its message to the call of
`rpmem_rcv_completion`, whether or not `ibv_poll_cq` has copied it already.
-/

import Rpmem.Server.Steps

namespace Rpmem

/-- The locals of a handler: the `len` and `remote_addr` it has read, the size
`rpmem_handle_open` answers with, and `unit->res` as `rpmem_handle_unmap` found it.  `seq`
is the number of the request, for its response. -/
structure Frame where
  req : ReqKind
  seq : ℕ
  len : CInt
  addr : BitVec 64
  size : CInt
  res : Option ResId

/-- Where the completion thread of a connection is: before the call that the name says. -/
inductive ThreadPc
  | idle
  | switch (seq : ℕ) (opcode : BitVec 32)
  | readSize (f : Frame)
  | readLen (f : Frame)
  | readAddr (f : Frame)
  | clear (f : Frame)
  | post (f : Frame)
  | scan (f : Frame)
  | fallocate (f : Frame) (r : ResId)
  | mmap (f : Frame) (r : ResId)
  | regMr (f : Frame) (r : ResId) (addr : BitVec 64)
  | undo (f : Frame) (addr : BitVec 64)
  | dereg (f : Frame)
  | munmap (f : Frame) (r : ResId)
  | insert (f : Frame) (r : ResId)
  | msync (f : Frame)
  | reply (f : Frame) (k : RspKind) (fields : k.Fields)

/-- The `switch` of `rpmem_rcv_completion`. -/
def requestOf (opcode : BitVec 32) : Option ReqKind :=
  if opcode = RpmemOpcode.openReq.code then some .openReq
  else if opcode = RpmemOpcode.closeReq.code then some .closeReq
  else if opcode = RpmemOpcode.mapReq.code then some .mapReq
  else if opcode = RpmemOpcode.unmapReq.code then some .unmapReq
  else if opcode = RpmemOpcode.commitReq.code then some .commitReq
  else none

theorem requestOf_opcodeField (b : Cmd) : requestOf (opcodeField b) = requestKind b := rfl

/-- The frame of a handler that has read nothing yet. -/
def Frame.enter (req : ReqKind) (seq : ℕ) (res : Option ResId) : Frame := ⟨req, seq, 0, 0, 0, res⟩

namespace Server

/-- The `memset` of `rpmem_post_recv`. -/
def clear (s : Server) (c : ConnId) : Server :=
  s.setUnit c { s.unit c with req := { (s.unit c).req with bytes := Cmd.zero } }

/-- The `ibv_post_recv` of `rpmem_post_recv`. -/
def repost (s : Server) (c : ConnId) (ok : Bool) : Server :=
  s.setUnit c { s.unit c with recvs := if ok then (s.unit c).recvs + 1 else (s.unit c).recvs }

theorem repost_clear (s : Server) (c : ConnId) (ok : Bool) :
    (s.clear c).repost c ok = s.postRecv c ok := by
  simp [clear, repost, postRecv, setUnit, rpmemPostRecv]

end Server

/-- Where a handler goes after `rpmem_post_recv`. -/
def Frame.posted (f : Frame) (o : Outcomes) : ThreadPc :=
  match f.req with
  | .openReq => .reply f .openRsp f.size
  | .closeReq => .reply f .closeRsp (0 : CInt)
  | .mapReq => if o.postRecv then .scan f else .reply f .mapRsp (o.junkRkey, o.junkAddr)
  | .unmapReq => if o.postRecv then .dereg f else .reply f .unmapRsp (-1 : CInt)
  | .commitReq => if o.postRecv then .msync f else .reply f .commitRsp (-1 : CInt)

/-- One step of the completion thread of `c`; `none` while it has nothing to do, and for
the `NULL` dereference that ends the server. -/
def threadStep (o : Outcomes) (c : ConnId) : ThreadPc → Server → Option (ThreadPc × Server)
  | .idle, s =>
      -- a receive completion, `ntohl(conn->req.opcode)`
      if 0 < (s.unit c).pending then
        some (.switch (s.unit c).req.seq (opcodeField (s.unit c).req.bytes), s.poll c)
      else none
  | .switch seq opcode, s =>
      match requestOf opcode with
      | some .openReq => some (.readSize (.enter .openReq seq none), s)
      | some .closeReq => some (.reply (.enter .closeReq seq none) .closeRsp (0 : CInt), s)
      | some .mapReq => some (.readLen (.enter .mapReq seq none), s)
      | some .unmapReq => some (.readLen (.enter .unmapReq seq (s.unit c).res), s)
      | some .commitReq => some (.readLen (.enter .commitReq seq none), s)
      | none => some (.idle, s)
  | .readSize f, s => some (.clear { f with size := s.freeSize }, s)
  | .readLen f, s =>
      let f := { f with len := wordField (s.unit c).req.bytes }
      some (if f.req = .mapReq then .clear f else .readAddr f, s)
  | .readAddr f, s => some (.clear { f with addr := addrField (s.unit c).req.bytes }, s)
  | .clear f, s => some (.post f, s.clear c)
  | .post f, s => some (f.posted o, s.repost c o.postRecv)
  | .scan f, s =>
      match s.claim c f.len with
      | (res, s) =>
          match (s.unit c).res, res with
          | none, _ => some (.reply f .mapRsp (o.junkRkey, o.junkAddr), s)
          | some _, none => none
          | some _, some r => some (.fallocate f r, s)
  | .fallocate f r, s => some (.mmap f r, s)
  | .mmap f r, s =>
      match s.host.mmap (s.resource r).fd .priv (sizeT f.len) o.mmap with
      | (a, host) => some (.regMr f r (a.getD 0),
          { s.setResource r { s.resource r with addr := a.getD 0, mapLen := f.len } with host := host })
  | .regMr f r addr, s =>
      match s.host.regMr c addr (sizeT f.len) o.regMr with
      | (none, host) =>
          some (.undo f addr, { s.setResource r { s.resource r with mr := none } with host := host })
      | (some reg, host) => some (.reply f .mapRsp (reg.rkey, addr),
          { s.setResource r { s.resource r with mr := some reg.id } with host := host })
  | .undo f addr, s =>
      some (.reply f .mapRsp (o.junkRkey, 0),
        { s with host := (s.host.munmap addr (sizeT f.len) o.munmap).2 })
  | .dereg f, s =>
      match f.res with
      | none => none
      | some r =>
          match (s.resource r).mr with
          | none => none
          | some mr => some (.munmap f r,
              { s.setResource r { s.resource r with mapLen := 0, addr := 0 } with
                host := s.host.deregMr mr })
  | .munmap f r, s =>
      match s.host.munmap f.addr (sizeT f.len) o.munmap with
      | (ret, host) =>
          some (if ret = 0 then .insert f r else .reply f .unmapRsp ret, { s with host := host })
  | .insert f r, s => some (.reply f .unmapRsp (0 : CInt), s.release c r)
  | .msync f, s =>
      match s.host.msync f.addr (sizeT f.len) o.msync with
      | (ret, host) => some (.reply f .commitRsp ret, { s with host := host })
  | .reply f k fields, s =>
      some (.idle, s.postSend c (packRsp k fields (s.unit c).rsp.bytes) f.seq o.postSend)

/-! ### What a handler works with -/

/-- The handlers that read `len`. -/
def ReqKind.readsLen : ReqKind → Bool
  | .mapReq | .unmapReq | .commitReq => true
  | .openReq | .closeReq => false

/-- The handlers that read `remote_addr`. -/
def ReqKind.readsAddr : ReqKind → Bool
  | .unmapReq | .commitReq => true
  | .openReq | .closeReq | .mapReq => false

theorem ReqKind.readsAddr_of_readsLen {q : ReqKind} (h : q.readsLen = true) (hne : q ≠ .mapReq) :
    q.readsAddr = true := by
  cases q with
  | unmapReq | commitReq => rfl
  | mapReq => exact absurd rfl hne
  | openReq | closeReq => cases h

/-- The frame of the handler of `msg`, its locals read from it. -/
structure Frame.Of (f : Frame) (msg : Cmd) : Prop where
  req : requestKind msg = some f.req
  len : f.req.readsLen = true → f.len = wordField msg
  addr : f.req.readsAddr = true → f.addr = addrField msg

/-- The handler works on `msg`: what it has read so far is what `msg` says. -/
def ThreadPc.ActsOn (msg : Cmd) : ThreadPc → Prop
  | .idle => True
  | .switch _ opcode => opcode = opcodeField msg
  | .readSize f => requestKind msg = some f.req ∧ f.req = .openReq
  | .readLen f => requestKind msg = some f.req ∧ f.req.readsLen = true
  | .readAddr f => requestKind msg = some f.req ∧ f.req.readsAddr = true ∧ f.len = wordField msg
  | .clear f | .post f | .scan f | .fallocate f _ | .mmap f _ | .regMr f _ _ | .undo f _ | .dereg f
  | .munmap f _ | .insert f _ | .msync f | .reply f _ _ => f.Of msg

/-- `conn->req` still holds the request. -/
def ThreadPc.reading : ThreadPc → Bool
  | .switch _ _ | .readSize _ | .readLen _ | .readAddr _ | .clear _ => true
  | _ => false

/-- The receive of the request has not been posted again. -/
def ThreadPc.owes : ThreadPc → ℕ
  | .switch _ _ | .readSize _ | .readLen _ | .readAddr _ | .clear _ | .post _ => 1
  | _ => 0

/-- The thread is in a handler. -/
def ThreadPc.busy : ThreadPc → Bool
  | .idle => false
  | _ => true

/-- The receive has been posted again, or never will be: the handler is past its last look
at `conn->req`. -/
def ThreadPc.late : ThreadPc → Bool
  | .scan _ | .fallocate _ _ | .mmap _ _ | .regMr _ _ _ | .undo _ _ | .dereg _ | .munmap _ _
  | .insert _ _ | .msync _ | .reply _ _ _ => true
  | .idle | .switch _ _ | .readSize _ | .readLen _ | .readAddr _ | .clear _ | .post _ => false

/-- What a step past the last look at the buffer does: it goes on past it or ends the
handler, with the same locals, and leaves the receive queue and the other connections
alone. -/
structure LateStep (c : ConnId) (s t : Server) (p q : ThreadPc) : Prop where
  next : q.late = true ∨ q = .idle
  acts : ∀ msg, p.ActsOn msg → q.ActsOn msg
  conns : t.conns = s.conns
  other : ∀ d, d ≠ c → t.unit d = s.unit d
  req : (t.unit c).req = (s.unit c).req
  recvs : (t.unit c).recvs = (s.unit c).recvs
  pending : (t.unit c).pending = (s.unit c).pending

theorem threadStep_late {o : Outcomes} {c : ConnId} {s t : Server} {p q : ThreadPc}
    (hp : p.late = true) (h : threadStep o c p s = some (q, t)) : LateStep c s t p q := by
  cases p with
  | idle | switch | readSize | readLen | readAddr | clear | post => cases hp
  | fallocate | undo | mmap | msync =>
      obtain ⟨rfl, rfl⟩ := Prod.mk.inj (Option.some.inj h)
      exact ⟨.inl rfl, fun _ => id, rfl, fun _ _ => rfl, rfl, rfl, rfl⟩
  | insert f r =>
      obtain ⟨rfl, rfl⟩ := Prod.mk.inj (Option.some.inj h)
      exact ⟨.inl rfl, fun _ => id, rfl, fun d hd => by simp [hd], by simp, by simp, by simp⟩
  | reply f k fields =>
      obtain ⟨rfl, rfl⟩ := Prod.mk.inj (Option.some.inj h)
      exact ⟨.inr rfl, fun _ _ => trivial, rfl, fun d hd => by simp [hd], by simp, by simp, by simp⟩
  | munmap f r =>
      obtain ⟨rfl, rfl⟩ := Prod.mk.inj (Option.some.inj h)
      refine ⟨?_, fun msg => ?_, rfl, fun _ _ => rfl, rfl, rfl, rfl⟩
      · split_ifs <;> exact .inl rfl
      · split_ifs <;> exact id
  | regMr f r addr =>
      simp only [threadStep] at h
      split at h <;>
        · obtain ⟨rfl, rfl⟩ := Prod.mk.inj (Option.some.inj h)
          exact ⟨.inl rfl, fun _ => id, rfl, fun _ _ => rfl, rfl, rfl, rfl⟩
  | dereg f =>
      simp only [threadStep] at h
      split at h
      · cases h
      · split at h
        · cases h
        · obtain ⟨rfl, rfl⟩ := Prod.mk.inj (Option.some.inj h)
          exact ⟨.inl rfl, fun _ => id, rfl, fun _ _ => rfl, rfl, rfl, rfl⟩
  | scan f =>
      cases hfit : s.fit f.len with
      | none =>
          simp only [threadStep, Server.claim, hfit] at h
          split at h
          · obtain ⟨rfl, rfl⟩ := Prod.mk.inj (Option.some.inj h)
            exact ⟨.inl rfl, fun _ => id, rfl, fun _ _ => rfl, rfl, rfl, rfl⟩
          · cases h
          · cases ‹none = some _›
      | some r =>
          simp only [threadStep, Server.claim, hfit, Server.take_unit, Function.update_self] at h
          obtain ⟨rfl, rfl⟩ := Prod.mk.inj (Option.some.inj h)
          exact ⟨.inl rfl, fun _ => id, rfl, fun d hd => by simp [hd], by simp, by simp, by simp⟩

/-! ### A handler undisturbed -/

/-- The handler comes to its end with no step of anything else in between. -/
inductive Finishes (o : Outcomes) (c : ConnId) : ThreadPc → Server → Server → Prop
  | idle (s : Server) : Finishes o c .idle s s
  | step {p q : ThreadPc} {s u t : Server} (hp : p.busy = true)
      (h : threadStep o c p s = some (q, u)) (hq : Finishes o c q u t) : Finishes o c p s t

section Alone

variable {o : Outcomes} {c : ConnId} {s t : Server}

theorem Finishes.reply (f : Frame) (k : RspKind) (fields : k.Fields) :
    Finishes o c (.reply f k fields) s
      (s.postSend c (packRsp k fields (s.unit c).rsp.bytes) f.seq o.postSend) :=
  .step rfl rfl (.idle _)

/-- The two steps of `rpmem_post_recv`. -/
theorem Finishes.clear {f : Frame} (h : Finishes o c (f.posted o) (s.postRecv c o.postRecv) t) :
    Finishes o c (.clear f) s t := by
  have hpost : threadStep o c (.post f) (s.clear c) = some (f.posted o, s.postRecv c o.postRecv) := by
    rw [threadStep, Server.repost_clear]
  exact .step rfl rfl (.step rfl hpost h)

/-- From `posix_fallocate` on, the steps are `mapResource`. -/
theorem Finishes.mapResource (o : Outcomes) (c : ConnId) (s : Server) (f : Frame) (r : ResId) :
    Finishes o c (.fallocate f r) s
      ((mapResource o s c r f.len).server.postSend c
        (packMapRsp ((mapResource o s c r f.len).server.unit c).rsp.bytes
          (mapResource o s c r f.len).rkey (mapResource o s c r f.len).addr) f.seq o.postSend) := by
  unfold Rpmem.mapResource
  simp only
  generalize hmm : s.host.mmap (s.resource r).fd .priv (sizeT f.len) o.mmap = p
  obtain ⟨a, host⟩ := p
  simp only
  have hmap : threadStep o c (.mmap f r) s = some (.regMr f r (a.getD 0),
      { s.setResource r { s.resource r with addr := a.getD 0, mapLen := f.len } with host := host }) := by
    simp only [threadStep, hmm]
  refine .step rfl rfl (.step rfl hmap ?_)
  generalize hreg : host.regMr c (a.getD 0) (sizeT f.len) o.regMr = p
  obtain ⟨reg, host'⟩ := p
  cases reg with
  | none =>
      refine .step rfl (by simp only [threadStep, hreg]; rfl) (.step rfl rfl ?_)
      simp only [Server.setResource, Function.update_self, Function.update_idem]
      exact Finishes.reply f .mapRsp (o.junkRkey, 0)
  | some reg =>
      refine .step rfl (by simp only [threadStep, hreg]; rfl) ?_
      simp only [Server.setResource, Function.update_self, Function.update_idem]
      exact Finishes.reply f .mapRsp (reg.rkey, a.getD 0)

/-- From `ibv_dereg_mr` on, the steps are `unmapResource`. -/
theorem Finishes.unmapResource (f : Frame) {r : ResId} {mr : ℕ} (hres : f.res = some r)
    (hmr : (s.resource r).mr = some mr) :
    Finishes o c (.dereg f) s
      ((unmapResource o s c r mr f.addr f.len).server.postSend c
        (packUnmapRsp ((unmapResource o s c r mr f.addr f.len).server.unit c).rsp.bytes
          (unmapResource o s c r mr f.addr f.len).ret) f.seq o.postSend) := by
  unfold Rpmem.unmapResource
  simp only
  have hdereg : threadStep o c (.dereg f) s = some (.munmap f r,
      { s.setResource r { s.resource r with mapLen := 0, addr := 0 } with host := s.host.deregMr mr }) := by
    simp only [threadStep, hres, hmr]
  refine .step rfl hdereg ?_
  generalize hmu : (s.host.deregMr mr).munmap f.addr (sizeT f.len) o.munmap = p
  obtain ⟨ret, host⟩ := p
  by_cases hret : ret = 0
  · subst hret
    refine .step rfl (by simp only [threadStep, hmu, if_true]; rfl) (.step rfl rfl ?_)
    simp only [if_true]
    exact Finishes.reply f .unmapRsp (0 : CInt)
  · refine .step rfl (by simp only [threadStep, hmu, if_neg hret]; rfl) ?_
    simp only [if_neg hret]
    exact Finishes.reply f .unmapRsp ret

/-- `rpmem_handle_map` after `rpmem_post_recv`. -/
theorem Finishes.handleMap {m : Handled} (hm : rpmemHandleMap o s c = .ok m) :
    Finishes o c
      (Frame.posted ⟨.mapReq, (s.unit c).req.seq, wordField (s.unit c).req.bytes, 0, 0, none⟩ o)
      (s.postRecv c o.postRecv) m.server := by
  unfold rpmemHandleMap rpmemHandleMapBody at hm
  simp only [Frame.posted]
  cases hr : o.postRecv with
  | false =>
      simp only [hr, Bool.false_eq_true, if_false] at hm ⊢
      obtain rfl := Except.ok.inj hm
      exact Finishes.reply _ .mapRsp (o.junkRkey, o.junkAddr)
  | true =>
      simp only [hr, if_true] at hm ⊢
      generalize hcl : (s.postRecv c true).claim c (wordField (s.unit c).req.bytes) = p at hm
      obtain ⟨res, u⟩ := p
      simp only at hm
      cases hres : (u.unit c).res with
      | none =>
          rw [hres] at hm
          obtain rfl := Except.ok.inj hm
          refine .step rfl (by simp only [threadStep, hcl, hres]; rfl) ?_
          exact Finishes.reply _ .mapRsp (o.junkRkey, o.junkAddr)
      | some r' =>
          rw [hres] at hm
          cases res with
          | none => cases hm
          | some r =>
              have hrest := Finishes.mapResource o c u
                ⟨.mapReq, (s.unit c).req.seq, wordField (s.unit c).req.bytes, 0, 0, none⟩ r
              obtain rfl := Except.ok.inj hm
              simp only at hrest ⊢
              generalize Rpmem.mapResource o u c r (wordField (s.unit c).req.bytes) = out at hrest ⊢
              refine .step rfl ?_ hrest
              simp only [threadStep, hcl, hres]

/-- `rpmem_handle_unmap` after `rpmem_post_recv`. -/
theorem Finishes.handleUnmap {m : Handled} (hm : rpmemHandleUnmap o s c = .ok m) :
    Finishes o c
      (Frame.posted ⟨.unmapReq, (s.unit c).req.seq, wordField (s.unit c).req.bytes,
        addrField (s.unit c).req.bytes, 0, (s.unit c).res⟩ o)
      (s.postRecv c o.postRecv) m.server := by
  unfold rpmemHandleUnmap rpmemHandleUnmapBody at hm
  simp only [Frame.posted]
  cases hr : o.postRecv with
  | false =>
      simp only [hr, Bool.false_eq_true, if_false] at hm ⊢
      obtain rfl := Except.ok.inj hm
      exact Finishes.reply _ .unmapRsp (-1 : CInt)
  | true =>
      simp only [hr, if_true] at hm ⊢
      cases hres : (s.unit c).res with
      | none =>
          rw [hres] at hm
          cases hm
      | some r =>
          rw [hres] at hm
          simp only at hm
          cases hmr : ((s.postRecv c true).resource r).mr with
          | none =>
              rw [hmr] at hm
              cases hm
          | some mr =>
              rw [hmr] at hm
              obtain rfl := Except.ok.inj hm
              exact Finishes.unmapResource _ rfl hmr

/-- `rpmem_handle_commit` after `rpmem_post_recv`. -/
theorem Finishes.handleCommit (o : Outcomes) (c : ConnId) (s : Server) :
    Finishes o c
      (Frame.posted ⟨.commitReq, (s.unit c).req.seq, wordField (s.unit c).req.bytes,
        addrField (s.unit c).req.bytes, 0, none⟩ o)
      (s.postRecv c o.postRecv) (rpmemHandleCommit o s c).server := by
  unfold rpmemHandleCommit rpmemHandleCommitBody
  simp only [Frame.posted]
  cases hr : o.postRecv with
  | false => exact Finishes.reply _ .commitRsp (-1 : CInt)
  | true => exact .step rfl rfl (Finishes.reply _ .commitRsp _)

/-- **The steps of a handler, one after the other, are the handler.** -/
theorem Finishes.handler {m : Handled} (hm : rpmemRcvCompletion o s c = .ok m) :
    Finishes o c (.switch (s.unit c).req.seq (opcodeField (s.unit c).req.bytes)) s m.server := by
  have hswitch := requestOf_opcodeField (s.unit c).req.bytes
  unfold rpmemRcvCompletion at hm
  cases hk : requestKind (s.unit c).req.bytes with
  | none =>
      rw [hk] at hm
      obtain rfl := Except.ok.inj hm
      exact .step rfl (by simp only [threadStep, hswitch, hk]) (.idle _)
  | some q =>
      rw [hk] at hm
      cases q with
      | openReq =>
          obtain rfl := Except.ok.inj hm
          refine .step rfl (by simp only [threadStep, hswitch, hk]; rfl) (.step rfl rfl (.clear ?_))
          exact Finishes.reply _ .openRsp s.freeSize
      | closeReq =>
          obtain rfl := Except.ok.inj hm
          refine .step rfl (by simp only [threadStep, hswitch, hk]; rfl) ?_
          exact Finishes.reply _ .closeRsp (0 : CInt)
      | mapReq =>
          refine .step rfl (by simp only [threadStep, hswitch, hk]; rfl) (.step rfl rfl (.clear ?_))
          exact Finishes.handleMap hm
      | unmapReq =>
          refine .step rfl (by simp only [threadStep, hswitch, hk]; rfl)
            (.step rfl rfl (.step rfl rfl (.clear ?_)))
          exact Finishes.handleUnmap hm
      | commitReq =>
          obtain rfl := Except.ok.inj hm
          refine .step rfl (by simp only [threadStep, hswitch, hk]; rfl)
            (.step rfl rfl (.step rfl rfl (.clear ?_)))
          exact Finishes.handleCommit o c s

/-- Such a step and the arrival of a message may change places. -/
theorem threadStep_receive {p : ThreadPc} (hp : p.late = true) (msg : Buffer) :
    threadStep o c p (s.receive c msg) =
      (threadStep o c p s).map fun q => (q.1, q.2.receive c msg) := by
  cases p with
  | idle | switch | readSize | readLen | readAddr | clear | post => cases hp
  | fallocate | mmap | undo | munmap | msync => rfl
  | insert f r => simp [threadStep, Server.receive, Server.release, Server.setUnit]
  | reply f k fields => simp [threadStep, Server.receive, Server.postSend, Server.setUnit]
  | regMr f r addr =>
      simp only [threadStep, Server.receive, Server.setUnit_host]
      split <;> rfl
  | dereg f =>
      simp only [threadStep, Server.receive, Server.setUnit_resource, Server.setUnit_host]
      split
      · rfl
      · split <;> rfl
  | scan f =>
      have hfit : (s.receive c msg).fit f.len = s.fit f.len := rfl
      cases h : s.fit f.len with
      | none =>
          simp only [threadStep, Server.claim, hfit, h]
          cases hres : (s.unit c).res <;> simp [Server.receive, hres]
      | some r =>
          simp only [threadStep, Server.claim, hfit, h]
          simp [Server.receive, Server.take, Server.setUnit]

/-- **A message that arrives in the middle of a handler might as well arrive at its end.** -/
theorem Finishes.receive {p : ThreadPc} (h : Finishes o c p s t) (hp : p.late = true ∨ p = .idle)
    (msg : Buffer) : Finishes o c p (s.receive c msg) (t.receive c msg) := by
  induction h with
  | idle s => exact .idle _
  | step hbusy hstep _ ih =>
      have hlate := hp.resolve_right (by rintro rfl; cases hbusy)
      refine .step hbusy ?_ (ih (threadStep_late hlate hstep).next)
      rw [threadStep_receive hlate, hstep]
      rfl

end Alone

/-! ### Every connection at once -/

/-- The server with its completion threads and what its clients have sent.  `wire` are the
messages that wait for a receive; `sent` and `dispatched`, all messages and those
`rpmem_rcv_completion` has been called for, are for the proofs. -/
structure Pipeline where
  server : Server
  thread : ConnId → ThreadPc
  wire : ConnId → List Buffer
  sent : ConnId → List Buffer
  dispatched : ConnId → List Buffer

/-- A connection request, a message sent, a message that arrives, a step of a thread. -/
inductive PipelineLabel
  | connect (c : ConnId) (accepted : Bool)
  | send (c : ConnId) (msg : Buffer)
  | arrive (c : ConnId)
  | thread (c : ConnId) (o : Outcomes)

def PipelineLabel.conn : PipelineLabel → ConnId
  | .connect c _ | .send c _ | .arrive c | .thread c _ => c

namespace Pipeline

variable (x : Pipeline)

/-- A client sends a message; it need not have had a response to the last one. -/
def send (c : ConnId) (msg : Buffer) : Pipeline :=
  { x with
    wire := Function.update x.wire c (x.wire c ++ [msg])
    sent := Function.update x.sent c (x.sent c ++ [msg]) }

/-- The next message of a connection arrives in its posted receive, in order. -/
def arrive (c : ConnId) : Option Pipeline :=
  match x.wire c with
  | [] => none
  | msg :: wire =>
      if c ∈ x.server.conns ∧ 0 < (x.server.unit c).recvs then
        some { x with server := x.server.receive c msg, wire := Function.update x.wire c wire }
      else none

/-- The thread of a connection makes a step; from `idle` it dispatches what `conn->req` holds. -/
def stepThread (c : ConnId) (o : Outcomes) : Option Pipeline :=
  (threadStep o c (x.thread c) x.server).map fun p =>
    { x with
      server := p.2
      thread := Function.update x.thread c p.1
      dispatched :=
        if (x.thread c).busy then x.dispatched
        else Function.update x.dispatched c (x.dispatched c ++ [(x.server.unit c).req]) }

def step : PipelineLabel → Option Pipeline
  | .connect c accepted =>
      if c ∈ x.server.conns then none
      else some { x with server := rpmemConnectRequestHandler accepted x.server c }
  | .send c msg => some (x.send c msg)
  | .arrive c => x.arrive c
  | .thread c o => x.stepThread c o

/-- A server just set up, no message sent. -/
structure Initial : Prop where
  conns : x.server.conns = []
  units : ∀ c, (x.server.unit c).pending = 0 ∧ (x.server.unit c).recvs = 0
  threads : ∀ c, x.thread c = .idle
  quiet : ∀ c, x.wire c = [] ∧ x.sent c = [] ∧ x.dispatched c = []

end Pipeline

/-- What holds of one connection. -/
structure PipelineInv (x : Pipeline) (c : ConnId) : Prop where
  credit : (x.server.unit c).recvs + (x.server.unit c).pending + (x.thread c).owes ≤ 1
  split : x.sent c = x.dispatched c ++
    (if 0 < (x.server.unit c).pending then [(x.server.unit c).req] else []) ++ x.wire c
  acts : (x.thread c).busy = true → ∃ msg, (x.dispatched c).getLast? = some msg ∧
    (x.thread c).ActsOn msg.bytes ∧ ((x.thread c).reading = true → (x.server.unit c).req = msg)
  fresh : c ∉ x.server.conns →
    (x.server.unit c).recvs = 0 ∧ (x.server.unit c).pending = 0 ∧ (x.thread c).busy = false

section Pipelines

variable {x y : Pipeline} {c d : ConnId} {o : Outcomes}

/-- The invariant looks at one connection only. -/
theorem PipelineInv.congr (h : PipelineInv x c) (hconns : c ∉ y.server.conns → c ∉ x.server.conns)
    (hunit : y.server.unit c = x.server.unit c) (hthread : y.thread c = x.thread c)
    (hwire : y.wire c = x.wire c) (hsent : y.sent c = x.sent c)
    (hdisp : y.dispatched c = x.dispatched c) : PipelineInv y c := by
  constructor
  · rw [hunit, hthread]
    exact h.credit
  · rw [hsent, hdisp, hunit, hwire]
    exact h.split
  · rw [hthread, hdisp, hunit]
    exact h.acts
  · rw [hunit, hthread]
    exact fun hc => h.fresh (hconns hc)

theorem PipelineInv.connect (h : PipelineInv x c) (hc : c ∉ x.server.conns) (accepted : Bool) :
    PipelineInv { x with server := rpmemConnectRequestHandler accepted x.server c } c := by
  cases accepted with
  | false => exact h.congr id rfl rfl rfl rfl rfl
  | true =>
      obtain ⟨-, hpend, hbusy⟩ := h.fresh hc
      have howes : (x.thread c).owes = 0 := by
        cases hpc : x.thread c <;> first | rfl | (rw [hpc] at hbusy; cases hbusy)
      have hsplit := h.split
      rw [hpend] at hsplit
      refine ⟨?_, ?_, ?_, ?_⟩
      · simp [rpmemConnectRequestHandler, ServerUnit.fresh, howes]
      · simpa [rpmemConnectRequestHandler, ServerUnit.fresh] using hsplit
      · intro hb
        rw [hbusy] at hb
        cases hb
      · simp [rpmemConnectRequestHandler]

theorem PipelineInv.send (h : PipelineInv x c) (msg : Buffer) : PipelineInv (x.send c msg) c := by
  refine ⟨h.credit, ?_, h.acts, h.fresh⟩
  simp only [Pipeline.send, Function.update_self]
  rw [h.split, List.append_assoc]
  rfl

/-- A message arrives: no handler is about to look at the buffer, since no receive was owed. -/
theorem PipelineInv.arrive (h : PipelineInv x c) (hx : x.arrive c = some y) : PipelineInv y c := by
  unfold Pipeline.arrive at hx
  split at hx
  · cases hx
  · rename_i msg wire hwire
    split_ifs at hx with hc
    obtain rfl := Option.some.inj hx
    have hcredit := h.credit
    have hpend : (x.server.unit c).pending = 0 := by omega
    have howes : (x.thread c).owes = 0 := by omega
    have hsplit := h.split
    rw [hpend, hwire] at hsplit
    refine ⟨?_, ?_, fun hb => ?_, fun hn => absurd hc.1 hn⟩
    · simp only [Server.receive, Server.setUnit_unit, Function.update_self]
      omega
    · simpa [Server.receive, hpend] using hsplit
    · obtain ⟨m, hlast, hacts, -⟩ := h.acts hb
      refine ⟨m, hlast, hacts, fun hr => ?_⟩
      cases hpc : x.thread c <;> simp [hpc, ThreadPc.reading] at hr <;>
        simp [hpc, ThreadPc.owes] at howes

/-- A step before the receive is posted again, with the buffer as it was. -/
theorem PipelineInv.read (h : PipelineInv x c) {q : ThreadPc} (hbusy : (x.thread c).busy = true)
    (hreading : (x.thread c).reading = true) (howes : q.owes ≤ (x.thread c).owes)
    (hacts : ∀ msg, (x.thread c).ActsOn msg → (x.server.unit c).req.bytes = msg → q.ActsOn msg) :
    PipelineInv { x with thread := Function.update x.thread c q } c := by
  have hcredit := h.credit
  refine ⟨?_, h.split, fun _ => ?_, fun hc => ?_⟩
  · simp only [Function.update_self]
    omega
  · obtain ⟨m, hlast, hm, hreq⟩ := h.acts hbusy
    have hreq := hreq hreading
    simp only [Function.update_self]
    exact ⟨m, hlast, hacts _ hm (by rw [hreq]), fun _ => hreq⟩
  · obtain ⟨-, -, hb⟩ := h.fresh hc
    rw [hbusy] at hb
    cases hb

/-- The thread takes a completion and dispatches what the buffer holds. -/
theorem PipelineInv.dispatch (h : PipelineInv x c) (hp : 0 < (x.server.unit c).pending) :
    PipelineInv { x with
      server := x.server.poll c
      thread := Function.update x.thread c
        (.switch (x.server.unit c).req.seq (opcodeField (x.server.unit c).req.bytes))
      dispatched := Function.update x.dispatched c (x.dispatched c ++ [(x.server.unit c).req]) } c := by
  have hcredit := h.credit
  have hsplit := h.split
  rw [if_pos hp] at hsplit
  refine ⟨?_, ?_, fun _ => ?_, fun hc => ?_⟩
  · simp only [Server.poll, Server.setUnit_unit, Function.update_self, ThreadPc.owes]
    omega
  · have hlast : ¬ 0 < (x.server.unit c).pending - 1 := by omega
    simpa [Server.poll, hlast] using hsplit
  · refine ⟨(x.server.unit c).req, by simp, ?_, fun _ => by simp [Server.poll]⟩
    simp [ThreadPc.ActsOn]
  · obtain ⟨-, hz, -⟩ := h.fresh hc
    omega

/-- `memset` clears the buffer: nothing but the handler was to read it. -/
theorem PipelineInv.clear (h : PipelineInv x c) {f : Frame} (hpc : x.thread c = .clear f) :
    PipelineInv { x with
      server := x.server.clear c, thread := Function.update x.thread c (.post f) } c := by
  have hcredit := h.credit
  rw [hpc] at hcredit
  simp only [ThreadPc.owes] at hcredit
  have hpend : ¬ 0 < (x.server.unit c).pending := by omega
  have hsplit := h.split
  rw [if_neg hpend] at hsplit
  refine ⟨?_, ?_, fun _ => ?_, fun hc => ?_⟩
  · simpa [Server.clear, ThreadPc.owes] using hcredit
  · simpa [Server.clear, hpend] using hsplit
  · obtain ⟨m, hlast, hacts, -⟩ := h.acts (by rw [hpc]; rfl)
    rw [hpc] at hacts
    refine ⟨m, hlast, ?_, ?_⟩
    · simpa [ThreadPc.ActsOn] using hacts
    · simp [ThreadPc.reading]
  · obtain ⟨-, -, hb⟩ := h.fresh hc
    rw [hpc] at hb
    cases hb

/-- After `rpmem_post_recv` a handler is past its last look at the buffer. -/
theorem Frame.posted_late (f : Frame) (o : Outcomes) :
    (f.posted o).owes = 0 ∧ (f.posted o).reading = false ∧
      ∀ msg, f.Of msg → (f.posted o).ActsOn msg := by
  unfold Frame.posted
  split <;> first | exact ⟨rfl, rfl, fun _ => id⟩ | (split_ifs <;> exact ⟨rfl, rfl, fun _ => id⟩)

theorem PipelineInv.post (h : PipelineInv x c) {f : Frame} (hpc : x.thread c = .post f)
    (o : Outcomes) :
    PipelineInv { x with
      server := x.server.repost c o.postRecv
      thread := Function.update x.thread c (f.posted o) } c := by
  have hcredit := h.credit
  have hsplit := h.split
  obtain ⟨howes, hreading, hof⟩ := f.posted_late o
  rw [hpc] at hcredit
  simp only [ThreadPc.owes] at hcredit
  refine ⟨?_, ?_, fun _ => ?_, fun hc => ?_⟩
  · simp only [Server.repost, Server.setUnit_unit, Function.update_self, howes]
    split_ifs <;> omega
  · simpa [Server.repost] using hsplit
  · obtain ⟨m, hlast, hacts, -⟩ := h.acts (by rw [hpc]; rfl)
    rw [hpc] at hacts
    refine ⟨m, hlast, ?_, ?_⟩
    · simpa using hof _ hacts
    · simp [hreading]
  · obtain ⟨-, -, hb⟩ := h.fresh hc
    rw [hpc] at hb
    cases hb

/-- The rest of a handler leaves the receive queue and its locals alone. -/
theorem PipelineInv.late (h : PipelineInv x c) {q : ThreadPc} {t : Server}
    (hlate : (x.thread c).late = true) (hs : LateStep c x.server t (x.thread c) q) :
    PipelineInv { x with server := t, thread := Function.update x.thread c q } c := by
  have hcredit := h.credit
  have hbusy : (x.thread c).busy = true := by
    cases hpc : x.thread c <;> first | rfl | (rw [hpc] at hlate; cases hlate)
  have howes : q.owes = 0 ∧ q.reading = false := by
    rcases hs.next with hq | rfl
    · cases q <;> first | exact ⟨rfl, rfl⟩ | cases hq
    · exact ⟨rfl, rfl⟩
  refine ⟨?_, ?_, fun _ => ?_, fun hc => ?_⟩
  · simp only [Function.update_self, hs.recvs, hs.pending, howes.1]
    omega
  · simp only [hs.pending, hs.req]
    exact h.split
  · obtain ⟨m, hlast, hacts, -⟩ := h.acts hbusy
    refine ⟨m, hlast, ?_, ?_⟩
    · simpa using hs.acts _ hacts
    · simp [howes.2]
  · obtain ⟨-, -, hb⟩ := h.fresh (hs.conns ▸ hc)
    rw [hbusy] at hb
    cases hb

/-- **One step of its thread keeps the invariant of a connection.** -/
theorem PipelineInv.thread (h : PipelineInv x c) (hx : x.stepThread c o = some y) :
    PipelineInv y c := by
  obtain ⟨⟨q, t⟩, hstep, rfl⟩ := Option.map_eq_some_iff.1 hx
  by_cases hlate : (x.thread c).late = true
  · have hbusy : (x.thread c).busy = true := by
      cases hpc : x.thread c <;> first | rfl | (rw [hpc] at hlate; cases hlate)
    simp only [hbusy, if_true]
    exact h.late hlate (threadStep_late hlate hstep)
  cases hpc : x.thread c with
  | scan | fallocate | mmap | regMr | undo | dereg | munmap | insert | msync | reply =>
      rw [hpc] at hlate
      exact absurd rfl hlate
  | idle =>
      rw [hpc] at hstep
      simp only [threadStep] at hstep
      split_ifs at hstep with hp
      obtain ⟨rfl, rfl⟩ := Prod.mk.inj (Option.some.inj hstep)
      simpa [ThreadPc.busy] using h.dispatch hp
  | clear f =>
      rw [hpc] at hstep
      obtain ⟨rfl, rfl⟩ := Prod.mk.inj (Option.some.inj hstep)
      simpa [ThreadPc.busy] using h.clear hpc
  | post f =>
      rw [hpc] at hstep
      obtain ⟨rfl, rfl⟩ := Prod.mk.inj (Option.some.inj hstep)
      simpa [ThreadPc.busy] using h.post hpc o
  | readSize f =>
      rw [hpc] at hstep
      obtain ⟨rfl, rfl⟩ := Prod.mk.inj (Option.some.inj hstep)
      simp only [ThreadPc.busy, if_true]
      refine h.read (by rw [hpc]; rfl) (by rw [hpc]; rfl) (by rw [hpc]; exact le_rfl) ?_
      rw [hpc]
      rintro msg ⟨hk, hopen⟩ -
      refine ⟨hk, ?_, ?_⟩ <;> simp [hopen, ReqKind.readsLen, ReqKind.readsAddr]
  | readLen f =>
      rw [hpc] at hstep
      obtain ⟨rfl, rfl⟩ := Prod.mk.inj (Option.some.inj hstep)
      simp only [ThreadPc.busy, if_true]
      refine h.read (by rw [hpc]; rfl) (by rw [hpc]; rfl) ?_ ?_
      · rw [hpc]
        split_ifs <;> exact le_rfl
      · rw [hpc]
        rintro msg ⟨hk, hreads⟩ rfl
        split_ifs with hmap
        · refine ⟨hk, fun _ => rfl, fun ha => ?_⟩
          simp only at ha
          rw [hmap] at ha
          cases ha
        · exact ⟨hk, ReqKind.readsAddr_of_readsLen hreads hmap, rfl⟩
  | readAddr f =>
      rw [hpc] at hstep
      obtain ⟨rfl, rfl⟩ := Prod.mk.inj (Option.some.inj hstep)
      simp only [ThreadPc.busy, if_true]
      refine h.read (by rw [hpc]; rfl) (by rw [hpc]; rfl) (by rw [hpc]; exact le_rfl) ?_
      rw [hpc]
      rintro msg ⟨hk, -, hlen⟩ rfl
      exact ⟨hk, fun _ => hlen, fun _ => rfl⟩
  | switch seq opcode =>
      rw [hpc] at hstep
      simp only [threadStep] at hstep
      have hread : ∀ q : ThreadPc, q.owes ≤ 1 →
          (∀ msg, opcode = opcodeField msg → q.ActsOn msg) →
          PipelineInv { x with thread := Function.update x.thread c q } c := by
        intro q howes hacts
        refine h.read (by rw [hpc]; rfl) (by rw [hpc]; rfl) (by rw [hpc]; exact howes) ?_
        rw [hpc]
        exact fun msg hop _ => hacts msg hop
      have hkind : ∀ {r : Option ReqKind} {msg : Cmd}, requestOf opcode = r →
          opcode = opcodeField msg → requestKind msg = r := by
        rintro r msg hr rfl
        exact hr
      split at hstep <;> rename_i hreq <;>
        obtain ⟨rfl, rfl⟩ := Prod.mk.inj (Option.some.inj hstep) <;>
        simp only [ThreadPc.busy, if_true] <;>
        refine hread _ (by simp [ThreadPc.owes]) fun msg hop => ?_
      · exact ⟨hkind hreq hop, rfl⟩
      · exact ⟨hkind hreq hop, by simp [Frame.enter, ReqKind.readsLen],
          by simp [Frame.enter, ReqKind.readsAddr]⟩
      · exact ⟨hkind hreq hop, rfl⟩
      · exact ⟨hkind hreq hop, rfl⟩
      · exact ⟨hkind hreq hop, rfl⟩
      · trivial

/-- A step of a thread touches no other connection. -/
theorem threadStep_other {p q : ThreadPc} {s t : Server} (h : threadStep o c p s = some (q, t)) :
    t.conns = s.conns ∧ ∀ d, d ≠ c → t.unit d = s.unit d := by
  by_cases hlate : p.late = true
  · have hs := threadStep_late hlate h
    exact ⟨hs.conns, hs.other⟩
  cases p with
  | scan | fallocate | mmap | regMr | undo | dereg | munmap | insert | msync | reply =>
      exact absurd rfl hlate
  | readSize | readLen | readAddr =>
      obtain ⟨-, rfl⟩ := Prod.mk.inj (Option.some.inj h)
      exact ⟨rfl, fun _ _ => rfl⟩
  | idle =>
      simp only [threadStep] at h
      split_ifs at h
      obtain ⟨-, rfl⟩ := Prod.mk.inj (Option.some.inj h)
      exact ⟨rfl, fun d hd => by simp [Server.poll, hd]⟩
  | clear f =>
      obtain ⟨-, rfl⟩ := Prod.mk.inj (Option.some.inj h)
      exact ⟨rfl, fun d hd => by simp [Server.clear, hd]⟩
  | post f =>
      obtain ⟨-, rfl⟩ := Prod.mk.inj (Option.some.inj h)
      exact ⟨rfl, fun d hd => by simp [Server.repost, hd]⟩
  | switch seq opcode =>
      simp only [threadStep] at h
      split at h <;>
        · obtain ⟨-, rfl⟩ := Prod.mk.inj (Option.some.inj h)
          exact ⟨rfl, fun _ _ => rfl⟩

theorem PipelineInv.initial (h : x.Initial) (c : ConnId) : PipelineInv x c := by
  obtain ⟨hpend, hrecvs⟩ := h.units c
  obtain ⟨hwire, hsent, hdisp⟩ := h.quiet c
  refine ⟨?_, ?_, ?_, fun _ => ⟨hrecvs, hpend, ?_⟩⟩
  · rw [hpend, hrecvs, h.threads c]
    exact Nat.zero_le _
  · simp [hpend, hwire, hsent, hdisp]
  · rw [h.threads c]
    rintro ⟨⟩
  · rw [h.threads c]
    rfl

/-- Every step keeps the invariant of every connection. -/
theorem PipelineInv.step {a : PipelineLabel} (h : ∀ c, PipelineInv x c) (hx : x.step a = some y)
    (c : ConnId) : PipelineInv y c := by
  by_cases hc : c = a.conn
  · subst hc
    cases a with
    | connect c accepted =>
        simp only [Pipeline.step] at hx
        split_ifs at hx with hmem
        obtain rfl := Option.some.inj hx
        exact (h c).connect hmem accepted
    | send c msg =>
        obtain rfl := Option.some.inj hx
        exact (h c).send msg
    | arrive c => exact (h c).arrive hx
    | thread c o => exact (h c).thread hx
  · cases a with
    | connect d accepted =>
        simp only [Pipeline.step] at hx
        split_ifs at hx with hmem
        obtain rfl := Option.some.inj hx
        change c ≠ d at hc
        cases accepted with
        | false => exact (h c).congr id rfl rfl rfl rfl rfl
        | true =>
            refine (h c).congr (fun hn => ?_) ?_ rfl rfl rfl rfl
            · simpa [rpmemConnectRequestHandler, hc] using hn
            · simp [rpmemConnectRequestHandler, hc]
    | send d msg =>
        obtain rfl := Option.some.inj hx
        change c ≠ d at hc
        exact (h c).congr id rfl rfl (by simp [Pipeline.send, hc]) (by simp [Pipeline.send, hc]) rfl
    | arrive d =>
        change c ≠ d at hc
        simp only [Pipeline.step, Pipeline.arrive] at hx
        split at hx
        · cases hx
        · split_ifs at hx
          obtain rfl := Option.some.inj hx
          exact (h c).congr id (by simp [Server.receive, hc]) rfl (by simp [hc]) rfl rfl
    | thread d o =>
        change c ≠ d at hc
        obtain ⟨⟨q, t⟩, hstep, rfl⟩ := Option.map_eq_some_iff.1 hx
        obtain ⟨hconns, hunit⟩ := threadStep_other hstep
        refine (h c).congr (fun hn => hconns ▸ hn) (hunit c hc) (by simp [hc]) rfl rfl ?_
        simp only
        split_ifs <;> simp [hc]

end Pipelines

/-- The pipeline of a server as `main` sets it up. -/
def Pipeline.main (res : Resource) (host : Host) : Pipeline :=
  ⟨Server.main res host, fun _ => .idle, fun _ => [], fun _ => [], fun _ => []⟩

theorem Pipeline.main_initial (res : Resource) (host : Host) : (Pipeline.main res host).Initial where
  conns := rfl
  units _ := ⟨rfl, rfl⟩
  threads _ := rfl
  quiet _ := ⟨rfl, rfl, rfl⟩

end Rpmem
