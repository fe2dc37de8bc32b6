/-
# Whether client and server agree on what is mapped

`region` is what the application knows of its region, `unit->res` what the
server knows.  `OneRegion` are the runs in which the application of one
connection maps only without a region and unmaps only with one, and in which
every call of the server succeeds for that connection; the client's own posts
and allocations may fail.

Two of the client's error paths forget that the server has already acted, or
never tell it: `rpmem_map` gives up when it cannot post its RDMA read, after
the server has granted the MAP, and `rpmem_unmap` gives up its region when it
cannot post the UNMAP.  `PostsGoThrough` excludes just these, and then the two
sides agree whenever no call is in progress.  A MAP the server refused cannot
break the agreement: a connection that holds nothing has no registration, so
the RDMA read with the junk key of the refusal cannot succeed (`OnlyHeld`).
-/

import Rpmem.Network.Tokens
import Rpmem.Server.Faults

namespace Rpmem

/-- The call of a handler succeeded. -/
def Call.ok : Call → Bool
  | .postRecv ok | .posixFallocate ok | .postSend ok => ok
  | .mmap addr => addr.isSome
  | .regMr mr => mr.isSome
  | .deregMr _ _ => true
  | .munmap _ _ ret | .msync _ _ ret _ => decide (ret = 0)

/-- Every call succeeds when the server handles the next request of `c`. -/
def Server.handlesOk (s : Server) (c : ConnId) (o : Outcomes) : Bool :=
  match s.handle c o with
  | .ok m => m.calls.all Call.ok
  | .error _ => true

/-- The application of `c` maps only without a region and unmaps only with one,
and no call of the server fails for `c`. -/
def OneRegion (c : ConnId) (s : System) : Action → Prop
  | .call d (.rpmemMap _) _ => d = c → (s.clients c).region = false
  | .call d .rpmemUnmap _ => d = c → (s.clients c).region = true
  | .handle d o => d = c → s.server.handlesOk c o = true
  | _ => True

/-- `rpmem_unmap` posts its request, and `rpmem_map` the RDMA read of a granted MAP. -/
def PostsGoThrough (c : ConnId) (s : System) : Action → Prop
  | .call d .rpmemUnmap o => d = c → o.postRecv = true ∧ o.postSend = true
  | .wake d o => d = c → (s.clients c).pc = .waiting (.rsp .mapReq) →
      o.postRdma = true ∨ (s.server.unit c).res = none
  | _ => True

instance (c : ConnId) (s : System) : (a : Action) → Decidable (OneRegion c s a)
  | .call _ (.rpmemMap _) _ | .call _ .rpmemUnmap _ | .handle _ _ =>
      inferInstanceAs (Decidable (_ → _))
  | .call _ .rpmemOpen _ | .call _ .rpmemCommit _ | .call _ .rpmemClose _ | .connect _ _ _
  | .wake _ _ | .write _ _ | .exec _ _ | .flushRecv _ | .poll _ | .deliver _ _ | .disconnect _
  | .cmEvent _ => isTrue trivial

instance (c : ConnId) (s : System) : (a : Action) → Decidable (PostsGoThrough c s a)
  | .call _ .rpmemUnmap _ => inferInstanceAs (Decidable (_ → _ ∧ _))
  | .wake _ _ => inferInstanceAs (Decidable (_ → _ → _ ∨ _))
  | .call _ (.rpmemMap _) _ | .call _ .rpmemOpen _ | .call _ .rpmemCommit _
  | .call _ .rpmemClose _ | .connect _ _ _ | .write _ _ | .exec _ _ | .flushRecv _ | .poll _
  | .handle _ _ | .deliver _ _ | .disconnect _ | .cmEvent _ => isTrue trivial

/-! ### The server's side -/

/-- Every registration of `c` is the one of the resource it holds. -/
def Server.OnlyHeld (s : Server) (c : ConnId) : Prop :=
  ∀ q ∈ s.host.mrs, q.pd = c → s.region c = some q.id

variable {s t : Server} {c d : ConnId} {o : Outcomes}

theorem SameRegions.onlyHeld (h : SameRegions s t) (hs : s.OnlyHeld c) : t.OnlyHeld c := by
  rw [Server.OnlyHeld, h.mrs, h.region]
  exact hs

/-- A connection that holds nothing has no registration. -/
theorem Server.OnlyHeld.isSome (h : s.OnlyHeld c) {q : Registration} (hq : q ∈ s.host.mrs)
    (hpd : q.pd = c) : (s.unit c).res.isSome := by
  have hr := h q hq hpd
  cases hres : (s.unit c).res with
  | none => simp [Server.region, hres] at hr
  | some r => rfl

/-- Requests of another connection leave the registrations of `c` alone. -/
theorem Served.onlyHeld_of_ne {k : RspKind} {f : k.Fields} {calls : List Call}
    (h : Served o s d k f t calls) (hp : s.PoolInv) (hc : c ≠ d) (hs : s.OnlyHeld c) :
    t.OnlyHeld c := by
  intro q hq hpd
  rw [h.region_of_ne hp hc]
  refine hs q ?_ hpd
  rcases h.regions with ⟨hsame, -⟩ | ⟨-, -, hmrs, -⟩ | ⟨-, -, ⟨q', -, hpd', hmrs⟩, -⟩ |
    ⟨-, mr, -, -, hmrs, -⟩
  · exact hsame.mrs ▸ hq
  · exact hmrs ▸ hq
  · rw [hmrs] at hq
    rcases List.mem_cons.1 hq with rfl | hq
    · exact absurd (hpd.symm.trans hpd') hc
    · exact hq
  · rw [hmrs] at hq
    exact (Host.mem_deregMr.1 hq).1

/-- An UNMAP whose calls succeed leaves its connection with nothing. -/
theorem Served.released_of_ok {f : RspKind.unmapRsp.Fields} {calls : List Call}
    (h : Served o s c .unmapRsp f t calls) (hok : ∀ call ∈ calls, call.ok = true) :
    (t.unit c).res = none := by
  cases h with
  | unmapRefused => simpa [Call.ok] using hok (.postRecv false) (by simp)
  | unmapped r mr m _ hres hmr hm =>
      obtain ⟨ret, h₁, -, hout⟩ := unmapResource_cases o (s.postRecv c true) c r mr
        (addrField (s.unit c).req.bytes) (wordField (s.unit c).req.bytes)
      rw [hm] at hout
      have hret := hok (.munmap (addrField (s.unit c).req.bytes)
        (sizeT (wordField (s.unit c).req.bytes)) ret) (by rw [hout]; simp)
      rw [hout, if_pos (by simpa [Call.ok] using hret)]
      simp

/-- **A handler whose calls succeed**: an UNMAP leaves its connection with nothing,
anything but MAP and UNMAP with what it had, and a MAP for a connection that
held nothing leaves no registration but the new one. -/
theorem Served.of_ok {k : RspKind} {f : k.Fields} {calls : List Call}
    (h : Served o s c k f t calls) (hok : ∀ call ∈ calls, call.ok = true)
    (hs : s.OnlyHeld c) (hmap : k = .mapRsp → (s.unit c).res = none) :
    t.OnlyHeld c ∧ (k = .unmapRsp → (t.unit c).res = none) ∧
      (k ≠ .mapRsp → k ≠ .unmapRsp → (t.unit c).res = (s.unit c).res) := by
  have hunmap : k = .unmapRsp → (t.unit c).res = none := by
    rintro rfl
    exact h.released_of_ok hok
  have hnone : k = .mapRsp → ∀ q ∈ s.host.mrs, q.pd ≠ c := by
    intro hk q hq hpd
    have := hs.isSome hq hpd
    rw [hmap hk] at this
    cases this
  rcases h.regions with ⟨hsame, -⟩ | ⟨hk, -, hmrs, -⟩ | ⟨hk, hsome, ⟨q', hid, -, hmrs⟩, -⟩ |
    ⟨hk, mr, hmr, -, hmrs, -⟩
  · exact ⟨hsame.onlyHeld hs, hunmap, fun _ _ => hsame.res c⟩
  · refine ⟨fun q hq hpd => ?_, hunmap, fun hk' => absurd hk hk'⟩
    exact absurd hpd (hnone hk q (hmrs ▸ hq))
  · refine ⟨fun q hq hpd => ?_, hunmap, fun hk' => absurd hk hk'⟩
    rw [hmrs] at hq
    rcases List.mem_cons.1 hq with rfl | hq
    · rw [hsome, hid]
    · exact absurd hpd (hnone hk q hq)
  · refine ⟨fun q hq hpd => ?_, hunmap, fun _ hk' => absurd hk hk'⟩
    -- the one registration of the connection is gone
    rw [hmrs] at hq
    obtain ⟨hq, hid⟩ := Host.mem_deregMr.1 hq
    exact absurd (Option.some.inj ((hs q hq hpd).symm.trans hmr)) hid

/-! ### The two sides together -/

/-- The two sides agree, as far as the call in progress allows: while a MAP has
not been handled the server holds nothing; once its RDMA read has succeeded the
server holds something; once an UNMAP has been handled the server holds
nothing. -/
def Agree (k : Client) (u : ServerUnit) : Prop :=
  match k.pc with
  | .finished => True
  | .waiting (.rsp .mapReq) => 0 < requestsUnderWay k u → u.res = none
  | .waiting .read => 0 < k.fetched → u.res.isSome
  | .waiting (.rsp .unmapReq) => k.region = false ∧ (0 < responsesUnderWay k u → u.res = none)
  | _ => k.region = true ↔ u.res.isSome

variable {k k' : Client} {u u' : ServerUnit}

/-- Nothing that comes closer to the client breaks the agreement. -/
theorem Agree.mono (h : Agree k u) (hpc : k'.pc = k.pc) (hregion : k'.region = k.region)
    (hres : u'.res = u.res) (hreq : requestsUnderWay k' u' ≤ requestsUnderWay k u)
    (hrsp : responsesUnderWay k' u' ≤ responsesUnderWay k u) (hfet : k'.fetched ≤ k.fetched) :
    Agree k' u' := by
  unfold Agree at h ⊢
  rw [hpc, hregion, hres]
  split at h
  · trivial
  · exact fun hpos => h (by omega)
  · exact fun hpos => h (by omega)
  · exact ⟨h.1, fun hpos => h.2 (by omega)⟩
  · exact h

/-- A call keeps the agreement, if `rpmem_unmap` posts its request. -/
theorem Agree.call (h : Agree k u) (hi : ConnInv k u) {o : ClientOutcomes} {api : Api}
    (hmap : ∀ len, api = .rpmemMap len → k.region = false)
    (hunmap : api = .rpmemUnmap → o.postRecv = true ∧ o.postSend = true)
    (hc : k.call o api = some k') : Agree k' u := by
  obtain ⟨hpc, hcalled⟩ := Client.call_called hc
  have hiff : k.region = true ↔ u.res.isSome := by
    rcases hpc with hp | hp <;> simpa [Agree, hp] using h
  have hquiet : responsesUnderWay k u = 0 := hi.responses_eq_zero_of_call hc
  have hnone : ∀ len, api = .rpmemMap len → u.res = none := fun len he => by
    simpa [hmap len he] using hiff
  cases hcalled with
  | opens | closes | commits | commitFails => exact hiff
  | openFails | closeFails => exact trivial
  | maps len => exact fun _ => hnone len rfl
  | mapFails len | mapAllocates len =>
      simp [Agree, rpmemMapOut, rpmemMapDestroyMr, Client.leave, hnone len rfl]
  | unmaps =>
      refine ⟨rfl, fun hpos => ?_⟩
      have hz : 0 < responsesUnderWay k u := hpos
      omega
  | unmapFails req rsp n id hn =>
      obtain ⟨hr, hs⟩ := hunmap rfl
      simp [Client.Unsent, hr, hs] at hn

/-- A wake-up keeps the agreement, if the RDMA read of a granted MAP is posted. -/
theorem Agree.wake (h : Agree k u) (hi : ConnInv k u) {o : ClientOutcomes}
    (hpost : k.pc = .waiting (.rsp .mapReq) → o.postRdma = true ∨ u.res = none)
    (hw : k.wake o = some k') : Agree k' u := by
  unfold Agree at h
  cases hi.woken hw with
  | opened pc =>
      rw [pc] at h
      exact h
  | closed pc => exact trivial
  | committed pc =>
      rw [pc] at h
      exact h
  | reads id pc ha =>
      -- the RDMA read has only been posted
      exact fun hpos => absurd hpos (Nat.not_lt.2 ha.fetched_eq_zero.le)
  | mapFails id pc failed =>
      have hres := (hpost pc).resolve_left (Bool.eq_false_iff.1 failed)
      simp [Agree, rpmemMapDestroyMr, rpmemMapOut, Client.leave, hres]
  | unmapped id pc ha =>
      rw [pc] at h
      simp only [Agree, Client.leave]
      rw [h.1, h.2 ha.answered]
      simp
  | fetched pc there =>
      rw [pc] at h
      simpa [Agree, rpmemMapAfterRead, Client.leave] using h there

/-- The server's handler keeps the agreement. -/
theorem Agree.handle {s : Server} (h : Agree k (s.unit c)) (hi : ConnInv k (s.unit c))
    (hs : s.OnlyHeld c) (hp : 0 < (s.unit c).pending) (hok : s.handlesOk c o = true)
    {m : Handled} (hm : s.handle c o = .ok m) :
    Agree k (m.server.unit c) ∧ m.server.OnlyHeld c := by
  have hi' := hi.handle hp hm
  obtain ⟨q, hq, hreq⟩ := hi.pending_kind hp
  have hcalls : ∀ call ∈ m.calls, call.ok = true := by
    rw [Server.handlesOk, hm] at hok
    simpa using hok
  have hpoll : SameRegions s (s.poll c) := .setUnit rfl
  obtain ⟨f, t, calls, ht, hserver, hc⟩ := Server.handle_served hm hreq
  unfold Agree at h ⊢
  rw [hq] at h ⊢
  have hmap : q.rsp = .mapRsp → ((s.poll c).unit c).res = none := by
    intro hrsp
    have hq' : q = .mapReq := by cases q <;> first | rfl | cases hrsp
    subst hq'
    rw [hpoll.res c]
    exact h (by simp only [requestsUnderWay]; omega)
  obtain ⟨honly, hun, hsame⟩ := ht.of_ok (fun call hcall => hcalls call (by rw [hc]; simp [hcall]))
    (hpoll.onlyHeld hs) hmap
  have hpost : SameRegions t m.server := by
    rw [hserver]
    exact .setUnit rfl
  refine ⟨?_, hpost.onlyHeld honly⟩
  rw [hpost.res c]
  cases q with
  | openReq | closeReq | commitReq =>
      rw [hsame (by simp [ReqKind.rsp]) (by simp [ReqKind.rsp]), hpoll.res c]
      exact h
  | unmapReq => exact ⟨h.1, fun _ => hun rfl⟩
  | mapReq =>
      -- no request is left
      exact fun hpos => absurd (hi.requests_handled hp hm) hpos.ne'

/-! ### Runs -/

variable {x y : System} {a : Action}

/-- An RDMA write leaves the pool and the registrations alone. -/
theorem SameRegions.rdmaWrite {s : Server} {pd : ℕ} {rkey : BitVec 32} {raddr : BitVec 64}
    {len : ℕ} {data : ℕ → UInt8} {host : Host}
    (h : s.host.rdmaWrite pd rkey raddr len data = some host) :
    SameRegions s { s with host := host } := by
  obtain ⟨q, -, m, -, -, rfl⟩ := Host.rdmaWrite_cases h
  exact ⟨fun _ => rfl, fun _ => rfl, rfl, rfl⟩

/-- Every action keeps the pool. -/
theorem System.poolInv_step (h : x.server.PoolInv) (hst : x.Stepped a y) : y.server.PoolInv := by
  rcases System.step_server hst with hs | ⟨d, hd, hs⟩ | ⟨d, u, hs, hu⟩ |
    ⟨d, wr, sq, ra, host, -, -, -, -, hw, hs⟩ | ⟨d, o, m, -, hd, -, hm, hs⟩ <;> rw [hs]
  · exact h
  · exact h.connect hd
  · exact h.of_pool_eq (Server.setUnit_pool hu) rfl rfl
  · exact h.of_pool_eq rfl rfl rfl
  · exact (h.of_pool_eq (t := x.server.poll d) (Server.setUnit_pool rfl) rfl rfl).handle hd hm

/-- What the runs of one connection keep. -/
structure AgreeInv (c : ConnId) (x : System) : Prop where
  tokens : x.TokenInv
  pool : x.server.PoolInv
  held : x.server.OnlyHeld c
  agree : Agree (x.clients c) (x.server.unit c)

/-- Every action keeps the registrations of `c` to the one of its resource. -/
theorem AgreeInv.held_step (h : AgreeInv c x) (hst : x.Stepped a y) (hok : OneRegion c x a) :
    y.server.OnlyHeld c := by
  rcases System.step_server hst with hs | ⟨d, hd, hs⟩ | ⟨d, u, hs, hu⟩ |
    ⟨d, wr, sq, ra, host, -, -, -, -, hw, hs⟩ | ⟨d, o, m, rfl, hd, hp, hm, hs⟩ <;> rw [hs]
  · exact h.held
  · exact (SameRegions.connect h.pool hd).onlyHeld h.held
  · exact (SameRegions.setUnit hu).onlyHeld h.held
  · exact (SameRegions.rdmaWrite hw).onlyHeld h.held
  · by_cases hdc : d = c
    · subst hdc
      exact (h.agree.handle (h.tokens d) h.held hp (hok rfl) hm).2
    · have hpoll : SameRegions x.server (x.server.poll d) := .setUnit rfl
      rcases rpmemRcvCompletion_cases hm with ⟨-, hserver, -⟩ | ⟨q, f, t, calls, -, ht, hserver, -⟩
      · rw [hserver]
        exact hpoll.onlyHeld h.held
      · have hpost : SameRegions t m.server := by
          rw [hserver]
          exact .setUnit rfl
        have hpool : (x.server.poll d).PoolInv :=
          h.pool.of_pool_eq (Server.setUnit_pool rfl) rfl rfl
        exact hpost.onlyHeld (ht.onlyHeld_of_ne hpool (Ne.symm hdc) (hpoll.onlyHeld h.held))

/-- **One action of a connection keeps its two sides in agreement**, if the posts
go through. -/
theorem AgreeInv.agree_step (hst : x.Stepped a y) (h : AgreeInv a.conn x)
    (hone : OneRegion a.conn x a) (hpost : PostsGoThrough a.conn x a) :
    Agree (y.clients a.conn) (y.server.unit a.conn) := by
  have hi := h.tokens a.conn
  have ha := h.agree
  by_cases hmv : a.moves = true
  · rcases hst.moved hmv with hm | ⟨wr, sq, ra, data, hsq, hop, -, hread, -, rfl⟩
    · exact ha.mono hm.pc hm.region hm.res hm.requests hm.responses hm.fetched
    -- the read went through a registration, and so through the held resource
    obtain ⟨q, hq, m, hcov, -⟩ := Host.rdmaRead_cases hread
    have hsome : (x.server.unit a.conn).res.isSome := h.held.isSome hq hcov.1
    have hpc := hi.reading hsq hop
    have hpc' : (((x.clients a.conn).place ra data).complete wr sq .success).pc = .waiting .read :=
      hpc
    simp [System.setClient, Agree, hpc', hsome]
  · cases hst with
    | connected c accepted established hpc hc =>
        change Agree (x.clients c) (x.server.unit c) at ha
        have hnone : (x.server.unit c).res = none := h.pool.connected c hc
        have hregion : (x.clients c).region = false := by simpa [Agree, hpc, hnone] using ha
        have hunit : ((rpmemConnectRequestHandler accepted x.server c).unit c).res = none := by
          cases accepted with
          | false => exact hnone
          | true => simp [rpmemConnectRequestHandler, ServerUnit.fresh]
        simp only [Action.conn, Function.update_self]
        split_ifs
        · simp [Agree, hregion, hunit]
        · exact trivial
    | called c api o k hk =>
        have hcall := ha.call hi (fun len hapi => by subst hapi; exact hone rfl)
          (fun hapi => by subst hapi; exact hpost rfl) hk
        simpa [System.setClient, Action.conn] using hcall
    | woken c o k hk =>
        have hwake := ha.wake hi (fun hpc => hpost rfl hpc) hk
        simpa [System.setClient, Action.conn] using hwake
    | written c f k hk =>
        obtain ⟨-, -, b, g, -, rfl⟩ := Client.write_cases hk
        simp only [System.setClient, Action.conn, Function.update_self]
        exact ha.mono rfl rfl rfl le_rfl le_rfl le_rfl
    | handled c o m hc hp hm => exact (ha.handle hi h.held hp (hone rfl) hm).1
    | sent | fetched | stored | failed | flushed | recvFlushed | polled | delivered | lost
    | disconnected | cmHandled => exact absurd rfl hmv

theorem AgreeInv.step (h : AgreeInv c x) (hone : OneRegion c x a) (hpost : PostsGoThrough c x a)
    (he : x.step a = some y) : AgreeInv c y := by
  have hst := System.step_cases he
  refine ⟨h.tokens.step he, System.poolInv_step h.pool hst, h.held_step hst hone, ?_⟩
  by_cases hc : c = a.conn
  · subst hc
    exact AgreeInv.agree_step hst h hone hpost
  · obtain ⟨hk, hu⟩ := System.step_frame hst hc
    rw [hk, hu]
    exact h.agree

end Rpmem
