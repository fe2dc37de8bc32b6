/-
# Library clients name their own mapping

The server trusts the address and the length of an UNMAP.  A library client
sends what its `priv_mr` holds, and this module shows that that is what the
server recorded for it, in any order of calls and with any failures, or a
length of `0`, which `munmap` refuses, or the server never gets to see it.  The
last case is a client whose MAP was refused because the server could not post
its receive again: the answer is junk, but the server hears nothing more on
that connection.

So a system of library clients keeps to the rule under which requests touch
their own mapping only, and every registration lies over its own, whole mapping
in every state it reaches (`System.Regions`).
-/

import Rpmem.Network.Tokens
import Rpmem.Server.Mappings

namespace Rpmem

/-- The server will never receive another request on the connection. -/
def ServerUnit.Deaf (u : ServerUnit) : Prop := u.recvs = 0 ∧ u.pending = 0

/-- The record of the resource that `c` holds is `addr` and `len`, unless `addr`
is `NULL` or the server hears nothing more from `c`. -/
def Server.Records (s : Server) (c : ConnId) (addr : BitVec 64) (len : CInt) : Prop :=
  (s.unit c).Deaf ∨ ∀ r, (s.unit c).res = some r → addr ≠ 0 →
    (s.resource r).addr = addr ∧ (s.resource r).mapLen = len

/-- `(int)rmr->len`. -/
def Client.mapLen (k : Client) : CInt := k.rmrLen.setWidth 32

/-- What the client's `priv_mr` holds is what the server recorded. -/
def Linked (k : Client) (s : Server) (c : ConnId) : Prop :=
  k.mapLen = 0 ∨ k.remoteAddr ≠ 0 ∧ s.Records c k.remoteAddr k.mapLen

/-- The request in `conn->req` carries what the client's `priv_mr` holds. -/
def Client.Carries (k : Client) : Prop :=
  wordField k.req.bytes = k.mapLen ∧ addrField k.req.bytes = k.remoteAddr

/-- `Linked`, as far as the call in progress allows: a MAP replaces the record,
and the answer to it says by what; an UNMAP clears it. -/
def RegionInv (k : Client) (s : Server) (c : ConnId) : Prop :=
  match k.pc with
  | .finished => True
  | .waiting (.rsp .mapReq) => wordField k.req.bytes = k.mapLen ∧
      (0 < responsesUnderWay k (s.unit c) → s.Records c (addrField (s.unit c).rsp.bytes) k.mapLen)
  | .waiting .read => s.Records c k.remoteAddr k.mapLen ∧ (0 < k.fetched → k.remoteAddr ≠ 0)
  | .waiting (.rsp .unmapReq) => k.Carries ∧
      (0 < requestsUnderWay k (s.unit c) → Linked k s c)
  | .waiting (.rsp .commitReq) => k.Carries ∧ Linked k s c
  | _ => Linked k s c

/-- The invariants of a system of library clients. -/
structure System.Regions (base : ℕ) (x : System) : Prop where
  tokens : x.TokenInv
  posted : ∀ c, (x.clients c).Posted
  server : x.server.Inv base
  recvs : ∀ c, (x.server.unit c).recvs + (x.server.unit c).pending ≤ 1
  regions : ∀ c, RegionInv (x.clients c) x.server c

variable {k k' : Client} {s t : Server} {c d : ConnId} {o : Outcomes} {addr : BitVec 64} {len : CInt}

/-! ### What leaves the record alone -/

theorem Server.Records.congr (h : s.Records c addr len)
    (hdeaf : (s.unit c).Deaf → (t.unit c).Deaf)
    (hres : ∀ r, (t.unit c).res = some r → (s.unit c).res = some r ∧ t.resource r = s.resource r) :
    t.Records c addr len := by
  rcases h with h | h
  · exact .inl (hdeaf h)
  · refine .inr fun r hr hne => ?_
    obtain ⟨hr', hsame⟩ := hres r hr
    rw [hsame]
    exact h r hr' hne

/-- A message moved, and the record is as before. -/
theorem RegionInv.moved (h : RegionInv k s c) (hm : Moved k k' (s.unit c) (t.unit c))
    (hrecords : ∀ addr len, s.Records c addr len → t.Records c addr len) : RegionInv k' t c := by
  have hmap : k'.mapLen = k.mapLen := by rw [Client.mapLen, Client.mapLen, hm.rmrLen]
  have hlink : Linked k s c → Linked k' t c := by
    rintro (hz | ⟨hne, hr⟩)
    · exact .inl (hmap.trans hz)
    · rw [Linked, hmap, hm.remoteAddr]
      exact .inr ⟨hne, hrecords _ _ hr⟩
  have hcarry : k.Carries → k'.Carries := by
    rw [Client.Carries, Client.Carries, hm.req, hmap, hm.remoteAddr]
    exact id
  have hreq := hm.requests
  have hrsp := hm.responses
  have hfet := hm.fetched
  unfold RegionInv at h ⊢
  rw [hm.pc]
  split at h
  · trivial
  · rw [hm.req, hmap, hm.rsp]
    exact ⟨h.1, fun hpos => hrecords _ _ (h.2 (by omega))⟩
  · rw [hm.remoteAddr, hmap]
    exact ⟨hrecords _ _ h.1, fun hpos => h.2 (by omega)⟩
  · exact ⟨hcarry h.1, fun hpos => hlink (h.2 (by omega))⟩
  · exact ⟨hcarry h.1, hlink h.2⟩
  · exact hlink h

/-! ### Calls -/

/-- A call keeps the link. -/
theorem RegionInv.call (h : RegionInv k s c) (hi : ConnInv k (s.unit c)) {o : ClientOutcomes}
    {api : Api} (hc : k.call o api = some k') : RegionInv k' s c := by
  obtain ⟨hpc, hcalled⟩ := Client.call_called hc
  have hlink : Linked k s c := by
    rcases hpc with hp | hp <;> simpa [RegionInv, hp] using h
  have hquiet : responsesUnderWay k (s.unit c) = 0 := hi.responses_eq_zero_of_call hc
  cases hcalled with
  | opens | closes | commitFails => exact hlink
  | openFails | closeFails => exact trivial
  | maps len =>
      refine ⟨?_, fun hpos => ?_⟩
      · simp [Client.sent, Client.allocated, Client.post, Client.pack, Client.postRecv,
          Client.mapLen, Client.start, Request.pack, packMapReq]
      · have hz : 0 < responsesUnderWay k (s.unit c) := hpos
        omega
  | mapFails | mapAllocates | unmapFails => exact .inl rfl
  | unmaps =>
      refine ⟨?_, fun _ => hlink⟩
      simp [Client.Carries, Client.sent, Client.post, Client.pack, Client.postRecv, Client.mapLen,
        Client.start, Request.pack, packUnmapReq]
  | commits =>
      refine ⟨?_, hlink⟩
      simp [Client.Carries, Client.committing, Client.post, Client.pack, Client.postRecv,
        Client.mapLen, Client.start, Request.pack, packCommitReq]

/-- A wake-up keeps the link. -/
theorem RegionInv.wake (h : RegionInv k s c) (hi : ConnInv k (s.unit c)) {o : ClientOutcomes}
    (hw : k.wake o = some k') : RegionInv k' s c := by
  unfold RegionInv at h
  cases hi.woken hw with
  | opened pc =>
      rw [pc] at h
      exact h
  | closed pc => exact trivial
  | committed pc =>
      rw [pc] at h
      exact h.2
  | reads id pc ha =>
      rw [pc] at h
      have hrec := h.2 ha.answered
      rw [← ha.rsp] at hrec
      -- the RDMA read has only been posted
      exact ⟨hrec, fun hfet => absurd hfet (Nat.not_lt.2 ha.fetched_eq_zero.le)⟩
  | mapFails id pc => exact .inl rfl
  | unmapped id pc => exact .inl rfl
  | fetched pc there =>
      rw [pc] at h
      exact .inr ⟨h.2 there, h.1⟩

/-! ### The server's handlers -/

/-- A client that sent an UNMAP the server can see names its own mapping. -/
theorem RegionInv.unmapNamesOwn (h : RegionInv k s c) (hi : ConnInv k (s.unit c))
    (hp : 0 < (s.unit c).pending) (hk : requestKind (s.unit c).req.bytes = some .unmapReq) :
    s.UnmapNamesOwn c := by
  obtain ⟨q, hq, hkind⟩ := hi.pending_kind hp
  have hreq := hi.pending hp
  obtain rfl : q = .unmapReq := Option.some.inj (hkind.symm.trans hk)
  unfold RegionInv at h
  rw [hq] at h
  obtain ⟨⟨hword, haddr⟩, hlink⟩ := h
  intro r hr
  rw [hreq, hword, haddr]
  rcases hlink (by simp only [requestsUnderWay]; omega) with hz | ⟨hne, hdeaf | hrec⟩
  · exact .inl (by rw [hz]; rfl)
  · exact absurd hdeaf.2 hp.ne'
  · obtain ⟨ha, hl⟩ := hrec r hr hne
    rw [ha, hl]
    exact .inr ⟨hne, rfl, le_rfl, rfl⟩

/-- The response to a MAP says what the server recorded, or `NULL`, or nobody hears
from the client again. -/
theorem Served.records {f : RspKind.mapRsp.Fields} {calls : List Call}
    (h : Served o s c .mapRsp f t calls) (hr : (s.unit c).recvs = 0) (hp : (s.unit c).pending = 0) :
    t.Records c f.2 (wordField (s.unit c).req.bytes) := by
  cases h with
  | mapRefused hno =>
      cases hpost : o.postRecv with
      | false =>
          refine .inl ⟨?_, ?_⟩
          · simpa [rpmemPostRecv] using hr
          · simpa using hp
      | true =>
          refine .inr fun r hres => ?_
          simp [(hno hpost).2] at hres
  | mapped r m _ _ hm =>
      refine .inr fun r' hres hne => ?_
      obtain ⟨a, h₁, -, ⟨ret, h₂, -, hout⟩ | ⟨rkey, -, hout⟩⟩ := mapResource_cases o
        ((s.postRecv c true).take c r) c r (wordField (s.unit c).req.bytes) <;>
        obtain rfl := hm.symm.trans hout
      · exact absurd rfl hne
      · obtain rfl : r' = r := by simpa using hres.symm
        simp

/-- The address in a posted response to a MAP is the one that was packed. -/
theorem addrField_mapRsp {s' t : Server} {f : RspKind.mapRsp.Fields} {b : Cmd} {n : ℕ} {ok : Bool}
    (h : s' = t.postSend c (packRsp .mapRsp f b) n ok) :
    addrField (s'.unit c).rsp.bytes = f.2 := by
  rw [h, Server.postSend_unit, Function.update_self]
  exact addrField_packWordAddr _ _ _ _

/-- **The server's handler keeps the link.** -/
theorem RegionInv.handle (h : RegionInv k s c) (hi : ConnInv k (s.unit c))
    (hrecvs : (s.unit c).recvs + (s.unit c).pending ≤ 1) (hp : 0 < (s.unit c).pending)
    {m : Handled} (hm : s.handle c o = .ok m) : RegionInv k m.server c := by
  obtain ⟨q, hq, hkind⟩ := hi.pending_kind hp
  have hreq := hi.pending hp
  have hpoll := s.poll_unit c
  obtain ⟨f, t, calls, ht, hserver, -⟩ := Server.handle_served hm hkind
  -- posting the response leaves the record alone
  have hpost : ∀ addr len, t.Records c addr len → m.server.Records c addr len := by
    intro addr len hrec
    rw [hserver]
    refine hrec.congr (fun hd => ?_) fun r hr => ?_
    · simpa [ServerUnit.Deaf] using hd
    · simpa using hr
  have hsame : (t.unit c).res = ((s.poll c).unit c).res → t.resource = (s.poll c).resource →
      ∀ addr len, s.Records c addr len → m.server.Records c addr len := by
    intro hres hresource addr len hrec
    refine hpost addr len (hrec.congr (fun hd => absurd hd.2 hp.ne') fun r hr => ?_)
    rw [hres, hpoll] at hr
    rw [hresource]
    exact ⟨hr, rfl⟩
  have hlink : (∀ addr len, s.Records c addr len → m.server.Records c addr len) →
      Linked k s c → Linked k m.server c :=
    fun hrec hl => hl.imp_right fun hl => ⟨hl.1, hrec _ _ hl.2⟩
  unfold RegionInv at h ⊢
  rw [hq] at h ⊢
  cases q with
  | openReq =>
      cases ht
      exact hlink (hsame (by simp) rfl) h
  | closeReq =>
      cases ht
      exact hlink (hsame rfl rfl) h
  | commitReq =>
      refine ⟨h.1, hlink ?_ h.2⟩
      cases ht with
      | commitRefused | committed => exact hsame (by simp) rfl
  | unmapReq =>
      -- no request is left
      exact ⟨h.1, fun hpos => absurd (hi.requests_handled hp hm) hpos.ne'⟩
  | mapReq =>
      refine ⟨h.1, fun _ => ?_⟩
      have hrec := ht.records (by rw [hpoll]; simp only; omega) (by rw [hpoll]; simp only; omega)
      rw [hpoll] at hrec
      simp only [hreq, h.1] at hrec
      have haddr := addrField_mapRsp hserver
      rw [haddr]
      exact hpost _ _ hrec

/-! ### Runs -/

variable {base : ℕ} {x y : System} {a : Action}

/-- An action changes no resource that another connection holds. -/
theorem System.Stepped.resource_of_held (hst : x.Stepped a y) (hp : x.server.PoolInv)
    (hd : d ≠ a.conn) {r : ResId} (hr : (x.server.unit d).res = some r) :
    y.server.resource r = x.server.resource r := by
  rcases System.step_server hst with hs | ⟨c, -, hs⟩ | ⟨c, u, hs, -⟩ |
    ⟨c, wr, sq, ra, host, -, -, -, -, -, hs⟩ | ⟨c, o, m, rfl, -, -, hm, hs⟩ <;> rw [hs]
  · rfl
  · rfl
  · rcases rpmemRcvCompletion_cases hm with ⟨-, hserver, -⟩ | ⟨q, f, t, calls, -, ht, hserver, -⟩ <;>
      rw [hserver]
    · rfl
    · have hpool : (x.server.poll c).PoolInv := hp.of_pool_eq (Server.setUnit_pool rfl) rfl rfl
      have hpoll : SameRegions x.server (x.server.poll c) := .setUnit rfl
      exact ht.resource_of_held hpool hd ((hpoll.res d).trans hr)

theorem System.Stepped.resource_of_moves (hst : x.Stepped a y) (ha : a.moves = true) :
    y.server.resource = x.server.resource := by
  rcases System.step_server hst with hs | ⟨c, -, hs⟩ | ⟨c, u, hs, -⟩ |
    ⟨c, wr, sq, ra, host, -, -, -, -, -, hs⟩ | ⟨c, o, m, rfl, -⟩
  · rw [hs]
  · rw [hs]
    rfl
  · rw [hs]
    rfl
  · rw [hs]
  · cases ha

/-- An RDMA access that succeeds has an address. -/
theorem Host.PinInv.remote_ne_zero {h : Host} (hi : h.PinInv base) {q : Registration}
    (hq : q ∈ h.mrs) {m : ℕ} (hm : q.map = some m) {pd : ℕ} {rkey : BitVec 32} {raddr : BitVec 64}
    {len : ℕ} (hcov : Host.Covers q pd rkey raddr len) : raddr ≠ 0 := by
  rintro rfl
  have hbottom := (hi.pinned q hq m hm).bottom
  have hle := hcov.2.2.1
  have hz : (0 : BitVec 64).toNat = 0 := rfl
  simp only [taskUnmappedBase] at hbottom
  omega

/-- An action keeps the link of its own connection. -/
theorem System.Regions.own_step (h : x.Regions base) (hst : x.Stepped a y) :
    RegionInv (y.clients a.conn) y.server a.conn := by
  have hi := h.tokens a.conn
  have hr := h.regions a.conn
  by_cases hmv : a.moves = true
  · rcases hst.moved hmv with hm | ⟨wr, sq, ra, data, hsq, hop, -, hread, -, rfl⟩
    · refine hr.moved hm fun addr len hrec => ?_
      refine hrec.congr (fun hd => ?_) fun r hres => ⟨hm.res ▸ hres, ?_⟩
      · have hrecvs := hm.recvs
        obtain ⟨h1, h2⟩ := hd
        exact ⟨by omega, by omega⟩
      · rw [hst.resource_of_moves hmv]
    · -- what the RDMA read went through lies above `NULL`
      obtain ⟨q, hq, m, hcov, hqm, -⟩ := Host.rdmaRead_cases hread
      have hpc := hi.reading hsq hop
      obtain ⟨rfl, -⟩ := (h.posted a.conn).read hi hsq hop
      have hne : (x.clients a.conn).remoteAddr ≠ 0 :=
        h.server.maps.pins.remote_ne_zero hq hqm hcov
      unfold RegionInv at hr
      rw [hpc] at hr
      simp only [System.setClient, Function.update_self]
      have hpc' : (((x.clients a.conn).place ((x.clients a.conn).rdmaArgs
          ((x.clients a.conn).mr.getD 0)) data).complete wr sq .success).pc = .waiting .read := hpc
      unfold RegionInv
      rw [hpc']
      exact ⟨hr.1, fun _ => hne⟩
  · cases hst with
    | connected c accepted established hpc hc =>
        change RegionInv (x.clients c) x.server c at hr
        have hlink : Linked (x.clients c) x.server c := by
          simpa [RegionInv, hpc] using hr
        have hnone : ((rpmemConnectRequestHandler accepted x.server c).unit c).res = none := by
          cases accepted with
          | false => exact h.server.pool.connected c hc
          | true => simp [rpmemConnectRequestHandler, ServerUnit.fresh]
        simp only [Action.conn, Function.update_self]
        split_ifs
        · refine hlink.imp_right fun hl => ⟨hl.1, .inr fun r hres => ?_⟩
          simp only [hnone] at hres
          cases hres
        · exact trivial
    | called c api o k hk => simpa [System.setClient, Action.conn] using hr.call hi hk
    | woken c o k hk => simpa [System.setClient, Action.conn] using hr.wake hi hk
    | written c f k hk =>
        obtain ⟨hpc, -, b, g, -, rfl⟩ := Client.write_cases hk
        simp only [System.setClient, Action.conn, Function.update_self]
        exact hr
    | handled c o m hc hp hm => exact hr.handle hi (h.recvs c) hp hm
    | sent | fetched | stored | failed | flushed | recvFlushed | polled | delivered | lost
    | disconnected | cmHandled => exact absurd rfl hmv

/-- A connection has one receive posted or one request to be handled, or neither. -/
theorem System.Regions.recvs_step (h : x.Regions base) (hst : x.Stepped a y) (c : ConnId) :
    (y.server.unit c).recvs + (y.server.unit c).pending ≤ 1 := by
  by_cases hc : c = a.conn
  swap
  · rw [(System.step_frame hst hc).2]
    exact h.recvs c
  subst hc
  have hle := h.recvs a.conn
  by_cases hmv : a.moves = true
  · rcases hst.moved hmv with hm | ⟨wr, sq, ra, data, -, -, -, -, -, rfl⟩
    · exact hm.recvs.trans_le hle
    · exact hle
  · cases hst with
    | connected c accepted =>
        cases accepted with
        | false => exact hle
        | true => simp [Action.conn, rpmemConnectRequestHandler, ServerUnit.fresh]
    | called | woken | written => exact hle
    | handled c o m hc hp hm =>
        change (x.server.unit c).recvs + (x.server.unit c).pending ≤ 1 at hle
        change (m.server.unit c).recvs + (m.server.unit c).pending ≤ 1
        rcases Server.handle_unit hm with ⟨-, hu⟩ | ⟨q, f, b, -, hp', -, -, hr'⟩
        · rw [hu]
          simp only
          omega
        · rw [hp', hr']
          split_ifs <;> omega
    | sent | fetched | stored | failed | flushed | recvFlushed | polled | delivered | lost
    | disconnected | cmHandled => exact absurd rfl hmv

/-- An RDMA write keeps the invariants of the server. -/
theorem Server.Inv.rdmaWrite (h : s.Inv base) {pd : ℕ} {rkey : BitVec 32} {raddr : BitVec 64}
    {n : ℕ} {data : ℕ → UInt8} {host : Host}
    (hw : s.host.rdmaWrite pd rkey raddr n data = some host) :
    ({ s with host := host } : Server).Inv base := by
  obtain ⟨q, -, m, -, -, rfl⟩ := Host.rdmaWrite_cases hw
  have hsame : SameRegions s
      { s with host := { s.host with
        store := Paging.storeBytes s.host.store m (raddr.toNat - q.addr.toNat) n data } } :=
    ⟨fun _ => rfl, fun _ => rfl, rfl, rfl⟩
  exact ⟨h.pool.of_pool_eq rfl rfl rfl, hsame.mrInv h.regions,
    h.maps.congr (fun _ => rfl) rfl rfl rfl rfl⟩

/-- **One action keeps every registration over its own, whole mapping.** -/
theorem System.Regions.step (h : x.Regions base) (he : x.step a = some y) : y.Regions base := by
  have hst := System.step_cases he
  refine ⟨h.tokens.step he, hst.posted h.posted, ?_, h.recvs_step hst, fun c => ?_⟩
  · rcases System.step_server hst with hs | ⟨d, hd, hs⟩ | ⟨d, u, hs, hu⟩ |
      ⟨d, wr, sq, ra, host, -, -, -, -, hw, hs⟩ | ⟨d, o, m, -, hd, hp, hm, hs⟩ <;> rw [hs]
    · exact h.server
    · exact h.server.connect hd
    · exact h.server.setUnit hu
    · exact h.server.rdmaWrite hw
    · exact h.server.handle hd (fun _ hk => (h.regions d).unmapNamesOwn (h.tokens d) hp hk) hm
  · by_cases hc : c = a.conn
    · subst hc
      exact h.own_step hst
    · -- the client and its unit are as before, and so is the resource the unit holds
      obtain ⟨hk, hu⟩ := System.step_frame hst hc
      rw [hk]
      refine (h.regions c).moved (.of_eq hu) fun addr len hrec => ?_
      refine hrec.congr (fun hd => hu ▸ hd) fun r hr => ?_
      rw [hu] at hr
      exact ⟨hr, hst.resource_of_held h.server.pool hc hr⟩

/-- A server just set up, its own memory being the first `base` mappings, and no
client has opened yet. -/
structure System.InitialAt (base : ℕ) (x : System) : Prop where
  initial : x.Initial
  server : x.server.InitialAt base

theorem System.InitialAt.regions (h : x.InitialAt base) : x.Regions base where
  tokens := h.initial.tokenInv
  posted c := by
    rw [h.initial.clients c]
    exact Client.posted_of_awaited rfl
  server := h.server.inv
  recvs c := by
    obtain ⟨hp, -, hr⟩ := h.initial.units c
    rw [hp, hr]
    exact zero_le_one
  regions c := by
    rw [h.initial.clients c]
    exact .inl rfl

/-- The system with one resource of 8192 bytes, one page of server memory and the
given files. -/
def System.oneResource (files : ℕ → ℕ → UInt8) : System :=
  System.main ⟨0, 8192, none, 0, 0⟩ { Host.oneOwnPage with files := files }

theorem System.oneResource_initialAt (files : ℕ → ℕ → UInt8) :
    (System.oneResource files).InitialAt 1 where
  initial := System.main_initial _ _ rfl
  server :=
    { initial := Server.main_initial _ _ rfl
      nextMap := rfl
      frames := (Host.oneOwnPage_initialAt ⟨0, 8192, none, 0, 0⟩).frames }

end Rpmem
