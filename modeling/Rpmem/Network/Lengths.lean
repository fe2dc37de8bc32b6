/-
# The length of a region, from the call to the mapping

`rpmem_map` takes a `size_t`, puts it on the wire as 32 bits, and the server
reads it back as an `int`; `rpmem_post_rdma_wr` takes it as an `int`, and so do
the requests of `rpmem_commit` and `rpmem_unmap`.  `rmr->len` keeps all 64 bits.

A length of `2^32` or more is cut on the way, and `rpmem_map` returns a region
of which the server has mapped and the RDMA read has fetched the low 32 bits
only.  A length from `2^31` on is negative on the server, where `mmap` fails, so
no region comes of it.  A MAP that the server refuses is answered with an
uninitialised address and key, which could name an older region of the same
connection; `LengthsKept` leaves both out, and then one length and one address
are all there is.
-/

import Rpmem.Network.Regions

namespace Rpmem

/-- What the application asked for last: `len` is the argument of `rpmem_map`, `moved` the
bytes the last RDMA read fetched, and `region` says that the last call found a region. -/
structure Asked where
  len : BitVec 64
  moved : ℕ
  region : Bool
  deriving DecidableEq, Repr

/-- The length of the RDMA read at the head of the send queue. -/
def Client.readLen (k : Client) : ℕ :=
  match k.sq with
  | ⟨.rdmaRead a, _⟩ :: _ => a.len.toNat
  | _ => 0

/-- The length a call asks for. -/
def Api.asks (api : Api) (len : BitVec 64) : BitVec 64 :=
  match api with
  | .rpmemMap len => len
  | _ => len

/-- Keep the account of the connection `c`. -/
def noteAsked (c : ConnId) (s : System) (a : Action) (t : System) (g : Asked) : Asked :=
  match a with
  | .call d api _ =>
      if d = c then { g with len := api.asks g.len, region := (s.clients c).region } else g
  | .exec _ _ =>
      if (s.clients c).fetched < (t.clients c).fetched then { g with moved := (s.clients c).readLen }
      else g
  | _ => g

/-- No registration belongs to the connection. -/
def Server.Unregistered (s : Server) (c : ConnId) : Prop := ∀ q ∈ s.host.mrs, q.pd ≠ c

instance (s : Server) (c : ConnId) : Decidable (s.Unregistered c) :=
  inferInstanceAs (Decidable (∀ q ∈ _, _))

/-- The server takes a resource for the MAP it handles next. -/
def Server.Grants (s : Server) (c : ConnId) (o : Outcomes) : Prop :=
  o.postRecv = true ∧ (s.fit (wordField (s.unit c).req.bytes)).isSome

instance (s : Server) (c : ConnId) (o : Outcomes) : Decidable (s.Grants c o) :=
  inferInstanceAs (Decidable (_ ∧ _))

/-- On the connection `c`, every length asked for fits 32 bits, and a MAP is refused only
while no registration of the connection is left that the refusal could name. -/
def LengthsKept (c : ConnId) (s : System) : Action → Prop
  | .call d (.rpmemMap len) _ => d = c → len.toNat < 2 ^ 32
  | .handle d o => d = c → requestKind (s.server.unit c).req.bytes = some .mapReq →
      s.server.Grants c o ∨ s.server.Unregistered c
  | _ => True

instance (c : ConnId) (s : System) : (a : Action) → Decidable (LengthsKept c s a)
  | .call _ (.rpmemMap _) _ => inferInstanceAs (Decidable (_ → _))
  | .handle _ _ => inferInstanceAs (Decidable (_ → _ → _ ∨ _))
  | .call _ .rpmemUnmap _ | .call _ .rpmemOpen _ | .call _ .rpmemCommit _
  | .call _ .rpmemClose _ | .connect _ _ _ | .wake _ _ | .write _ _ | .exec _ _ | .flushRecv _
  | .poll _ | .deliver _ _ | .disconnect _ | .cmEvent _ => isTrue trivial

/-- The connection holds a registered resource with this address and length. -/
def Server.Holds (s : Server) (c : ConnId) (addr : BitVec 64) (len : CInt) : Prop :=
  ∃ r, (s.unit c).res = some r ∧ (s.resource r).addr = addr ∧ (s.resource r).mapLen = len ∧
    (s.resource r).mr.isSome

/-- The region the client has is the one it asked for and the one the server holds. -/
structure Settled (g : Asked) (k : Client) (s : Server) (c : ConnId) : Prop where
  len : k.rmrLen = g.len
  fits : g.len.toNat < 2 ^ 32
  moved : g.moved = g.len.toNat
  addr : k.remoteAddr ≠ 0
  holds : s.Holds c k.remoteAddr k.mapLen

/-- The answer to a MAP gives the address of what the server holds, or nothing an RDMA
read could go through. -/
def Server.Answered (s : Server) (c : ConnId) (addr : BitVec 64) (len : CInt) : Prop :=
  s.Holds c addr len ∨ addr = 0 ∨ s.Unregistered c

/-- `Settled`, as far as the call in progress allows. -/
def LengthInv (g : Asked) (k : Client) (s : Server) (c : ConnId) : Prop :=
  match k.pc with
  | .finished => True
  | .waiting (.rsp .mapReq) => (k.rmrLen = g.len ∧ g.len.toNat < 2 ^ 32) ∧
      (0 < responsesUnderWay k (s.unit c) → s.Answered c (addrField (s.unit c).rsp.bytes) k.mapLen)
  | .waiting .read => (k.rmrLen = g.len ∧ g.len.toNat < 2 ^ 32) ∧
      s.Answered c k.remoteAddr k.mapLen ∧ (0 < k.fetched → Settled g k s c)
  | .waiting (.rsp .unmapReq) => k.region = false ∧
      (g.region = true → 0 < requestsUnderWay k (s.unit c) → Settled g k s c)
  | .waiting (.rsp .commitReq) => k.region = g.region ∧ (k.region = true → Settled g k s c)
  | _ => k.region = true → Settled g k s c

variable {g : Asked} {k k' : Client} {s t : Server} {c d : ConnId} {o : Outcomes} {addr : BitVec 64}
  {len : CInt}

/-! ### What leaves the length alone -/

theorem Server.Holds.congr (h : s.Holds c addr len) (hres : (t.unit c).res = (s.unit c).res)
    (hsame : ∀ r, (s.unit c).res = some r → t.resource r = s.resource r) : t.Holds c addr len := by
  obtain ⟨r, hr, hrest⟩ := h
  refine ⟨r, hres.trans hr, ?_⟩
  rw [hsame r hr]
  exact hrest

theorem Settled.congr (h : Settled g k s c) (hlen : k'.rmrLen = k.rmrLen)
    (haddr : k'.remoteAddr = k.remoteAddr)
    (hholds : ∀ addr len, s.Holds c addr len → t.Holds c addr len) : Settled g k' t c := by
  refine ⟨hlen.trans h.len, h.fits, h.moved, ?_, ?_⟩
  · rw [haddr]
    exact h.addr
  · rw [haddr, Client.mapLen, hlen]
    exact hholds _ _ h.holds

/-- A message moved, and the server holds what it held. -/
theorem LengthInv.moved (h : LengthInv g k s c) (hm : Moved k k' (s.unit c) (t.unit c))
    (hholds : ∀ addr len, s.Holds c addr len → t.Holds c addr len)
    (hreg : s.Unregistered c → t.Unregistered c) : LengthInv g k' t c := by
  have hmap : k'.mapLen = k.mapLen := by rw [Client.mapLen, Client.mapLen, hm.rmrLen]
  have hset : Settled g k s c → Settled g k' t c := fun hs => hs.congr hm.rmrLen hm.remoteAddr hholds
  have hans : ∀ addr len, s.Answered c addr len → t.Answered c addr len := by
    intro addr len ha
    exact ha.imp (hholds _ _) (Or.imp_right hreg)
  have hreq := hm.requests
  have hrsp := hm.responses
  have hfet := hm.fetched
  unfold LengthInv at h ⊢
  rw [hm.pc]
  split at h
  · trivial
  · rw [hm.rmrLen, hmap, hm.rsp]
    exact ⟨h.1, fun hpos => hans _ _ (h.2 (by omega))⟩
  · rw [hm.rmrLen, hmap, hm.remoteAddr]
    exact ⟨h.1, hans _ _ h.2.1, fun hpos => hset (h.2.2 (by omega))⟩
  · rw [hm.region]
    exact ⟨h.1, fun hg hpos => hset (h.2 hg (by omega))⟩
  · rw [hm.region]
    exact ⟨h.1, fun hr => hset (h.2 hr)⟩
  · rw [hm.region]
    exact fun hr => hset (h hr)

/-! ### Calls -/

/-- Another call than `rpmem_map` asks for nothing new. -/
theorem Settled.asks (h : Settled g k s c) (region : Bool) :
    Settled { g with region := region } k s c :=
  ⟨h.len, h.fits, h.moved, h.addr, h.holds⟩

/-- A call keeps the lengths together, if the one it asks for fits 32 bits. -/
theorem LengthInv.call (h : LengthInv g k s c) (hi : ConnInv k (s.unit c)) {o : ClientOutcomes}
    {api : Api} (hfits : ∀ len, api = .rpmemMap len → len.toNat < 2 ^ 32)
    (hc : k.call o api = some k') :
    LengthInv { g with len := api.asks g.len, region := k.region } k' s c := by
  obtain ⟨hpc, hcalled⟩ := Client.call_called hc
  have hset : k.region = true → Settled g k s c := by
    rcases hpc with hp | hp <;> simpa [LengthInv, hp] using h
  have hsame : ∀ k₀ : Client, k₀.rmrLen = k.rmrLen → k₀.remoteAddr = k.remoteAddr →
      k.region = true → Settled { g with region := k.region } k₀ s c :=
    fun k₀ hl ha hr => ((hset hr).asks k.region).congr hl ha fun _ _ hh => hh
  have hquiet : responsesUnderWay k (s.unit c) = 0 := hi.responses_eq_zero_of_call hc
  cases hcalled with
  | opens | closes | commitFails => exact hsame _ rfl rfl
  | openFails | closeFails => exact trivial
  | maps len =>
      refine ⟨⟨rfl, hfits len rfl⟩, fun hpos => ?_⟩
      have hz : 0 < responsesUnderWay k (s.unit c) := hpos
      omega
  | mapFails | mapAllocates | unmapFails =>
      intro hr
      cases hr
  | unmaps => exact ⟨rfl, fun hr _ => hsame _ rfl rfl hr⟩
  | commits => exact ⟨rfl, hsame _ rfl rfl⟩

/-- A wake-up keeps the lengths together. -/
theorem LengthInv.wake (h : LengthInv g k s c) (hi : ConnInv k (s.unit c)) {o : ClientOutcomes}
    (hw : k.wake o = some k') : LengthInv g k' s c := by
  unfold LengthInv at h
  cases hi.woken hw with
  | opened pc =>
      rw [pc] at h
      exact fun hr => (h hr).congr rfl rfl fun _ _ => id
  | closed pc => exact trivial
  | committed pc =>
      rw [pc] at h
      exact fun hr => (h.2 hr).congr rfl rfl fun _ _ => id
  | reads id pc ha =>
      rw [pc] at h
      have hans := h.2 ha.answered
      rw [← ha.rsp] at hans
      -- the RDMA read has only been posted
      exact ⟨h.1, hans, fun hfet => absurd hfet (Nat.not_lt.2 ha.fetched_eq_zero.le)⟩
  | mapFails id pc =>
      intro hr
      cases hr
  | unmapped id pc =>
      rw [pc] at h
      intro hr
      have hregion : k.region = true := hr
      rw [h.1] at hregion
      cases hregion
  | fetched pc there =>
      rw [pc] at h
      exact fun _ => (h.2.2 there).congr rfl rfl fun _ _ => id

/-! ### The server's handlers -/

/-- The answer to a MAP, if a refusal finds no registration of the connection. -/
theorem Served.answered {f : RspKind.mapRsp.Fields} {calls : List Call}
    (h : Served o s c .mapRsp f t calls) (hok : s.Grants c o ∨ s.Unregistered c) :
    t.Answered c f.2 (wordField (s.unit c).req.bytes) := by
  cases h with
  | mapRefused hno =>
      have hnone : ¬ s.Grants c o := by
        rintro ⟨hpost, hfit⟩
        rw [(hno hpost).1] at hfit
        cases hfit
      exact .inr (.inr (hok.resolve_left hnone))
  | mapped r m _ _ hm =>
      obtain ⟨a, h₁, -, ⟨ret, h₂, -, hout⟩ | ⟨rkey, -, hout⟩⟩ := mapResource_cases o
        ((s.postRecv c true).take c r) c r (wordField (s.unit c).req.bytes) <;>
        obtain rfl := hm.symm.trans hout
      · exact .inr (.inl rfl)
      · refine .inl ⟨r, ?_⟩
        simp

/-- A handler of another connection registers nothing for this one. -/
theorem Served.unregistered_of_ne {q : RspKind} {f : q.Fields} {calls : List Call}
    (h : Served o s d q f t calls) (hc : c ≠ d) (hs : s.Unregistered c) : t.Unregistered c := by
  intro p hp
  rcases h.regions with ⟨hsame, -⟩ | ⟨-, -, hmrs, -⟩ | ⟨-, -, ⟨p', -, hpd, hmrs⟩, -⟩ |
    ⟨-, mr, -, -, hmrs, -⟩
  · exact hs p (hsame.mrs ▸ hp)
  · exact hs p (hmrs ▸ hp)
  · rw [hmrs] at hp
    rcases List.mem_cons.1 hp with rfl | hp
    · rw [hpd]
      exact Ne.symm hc
    · exact hs p hp
  · rw [hmrs] at hp
    exact hs p (Host.mem_deregMr.1 hp).1

/-- **The server's handler keeps the lengths together**, if a refused MAP finds no
registration of the connection. -/
theorem LengthInv.handle (h : LengthInv g k s c) (hl : RegionInv k s c) (hi : ConnInv k (s.unit c))
    (hp : 0 < (s.unit c).pending)
    (hok : requestKind (s.unit c).req.bytes = some .mapReq → s.Grants c o ∨ s.Unregistered c)
    {m : Handled} (hm : s.handle c o = .ok m) : LengthInv g k m.server c := by
  obtain ⟨q, hq, hkind⟩ := hi.pending_kind hp
  have hreq := hi.pending hp
  have hpoll := s.poll_unit c
  obtain ⟨f, t, calls, ht, hserver, -⟩ := Server.handle_served hm hkind
  -- posting the response leaves the resource alone
  have hpost : ∀ addr len, t.Holds c addr len → m.server.Holds c addr len := by
    intro addr len hh
    rw [hserver]
    exact hh.congr (by simp) fun _ _ => rfl
  have hsame : (t.unit c).res = ((s.poll c).unit c).res → t.resource = (s.poll c).resource →
      Settled g k s c → Settled g k m.server c := by
    intro hres hresource hset
    refine hset.congr rfl rfl fun addr len hh => hpost addr len (hh.congr ?_ fun r _ => ?_)
    · rw [hres, hpoll]
    · rw [hresource]
      rfl
  unfold LengthInv at h ⊢
  rw [hq] at h ⊢
  cases q with
  | openReq =>
      cases ht
      exact fun hr => hsame (by simp) rfl (h hr)
  | closeReq =>
      cases ht
      exact fun hr => hsame rfl rfl (h hr)
  | commitReq =>
      refine ⟨h.1, fun hr => ?_⟩
      cases ht with
      | commitRefused | committed => exact hsame (by simp) rfl (h.2 hr)
  | unmapReq =>
      -- no request is left
      exact ⟨h.1, fun _ hpos => absurd (hi.requests_handled hp hm) hpos.ne'⟩
  | mapReq =>
      refine ⟨h.1, fun _ => ?_⟩
      have hgrant : (s.poll c).Grants c o ∨ (s.poll c).Unregistered c := by
        refine (hok hkind).imp_left fun hgr => ?_
        rw [Server.Grants, hpoll]
        exact hgr
      have hans := ht.answered hgrant
      have hword : wordField ((s.poll c).unit c).req.bytes = k.mapLen := by
        unfold RegionInv at hl
        rw [hq] at hl
        rw [hpoll]
        simp only [hreq, hl.1]
      rw [hword] at hans
      have haddr := addrField_mapRsp hserver
      rw [haddr]
      refine hans.imp (hpost _ _) (Or.imp_right fun hu => ?_)
      rw [hserver]
      exact hu

/-- An RDMA read that succeeded has fetched what was asked for. -/
theorem LengthInv.fetch {base : ℕ} (h : LengthInv g k s c) (hs : s.Inv base)
    (hi : ConnInv k (s.unit c)) (hposted : k.Posted) {wr : Wr} {sq : List Wr} (hsq : k.sq = wr :: sq)
    {ra : RdmaArgs} (hop : wr.op = .rdmaRead ra) {data : ℕ → UInt8}
    (hread : s.host.rdmaRead c ra.rkey ra.remoteAddr ra.len.toNat = some data) :
    LengthInv { g with moved := k.readLen } ((k.place ra data).complete wr sq .success) s c := by
  obtain ⟨q, hq, m, hcov, hqm, -⟩ := Host.rdmaRead_cases hread
  have hpc := hi.reading hsq hop
  obtain ⟨rfl, -⟩ := hposted.read hi hsq hop
  have hne : k.remoteAddr ≠ 0 := hs.maps.pins.remote_ne_zero hq hqm hcov
  unfold LengthInv at h
  rw [hpc] at h
  obtain ⟨⟨hlen, hfits⟩, hans, -⟩ := h
  -- the read went through a registration of this connection, so the MAP was granted
  have hholds : s.Holds c k.remoteAddr k.mapLen := by
    rcases hans with hh | hz | hu
    · exact hh
    · exact absurd hz hne
    · exact absurd hcov.1 (hu q hq)
  have hmoved : k.readLen = g.len.toNat := by
    obtain ⟨op, n⟩ := wr
    simp only at hop
    simp only [Client.readLen, hsq, hop, Client.rdmaArgs, BitVec.toNat_setWidth, hlen]
    exact Nat.mod_eq_of_lt hfits
  have hpc' : ((k.place (k.rdmaArgs (k.mr.getD 0)) data).complete wr sq .success).pc =
      .waiting .read := hpc
  unfold LengthInv
  rw [hpc']
  exact ⟨⟨hlen, hfits⟩, .inl hholds, fun _ => ⟨hlen, hfits, hmoved, hne, hholds⟩⟩

/-! ### Runs -/

variable {base : ℕ} {x y : System} {a : Action}

/-- The account changes when `c` calls and when one of its RDMA reads succeeds. -/
theorem noteAsked_of_moves (ha : a.moves = true) (hf : (y.clients c).fetched ≤ (x.clients c).fetched) :
    noteAsked c x a y g = g := by
  cases a with
  | exec d ok => exact if_neg (not_lt.2 hf)
  | flushRecv | poll | deliver | disconnect | cmEvent => rfl
  | connect | call | wake | write | handle => cases ha

/-- Another connection's actions leave the account alone. -/
theorem noteAsked_of_ne (hst : x.Stepped a y) (hc : c ≠ a.conn) : noteAsked c x a y g = g := by
  cases a with
  | call d api o => exact if_neg (Ne.symm hc)
  | exec d ok =>
      refine if_neg ?_
      rw [(System.step_frame hst hc).1]
      exact lt_irrefl _
  | connect | wake | write | flushRecv | poll | handle | deliver | disconnect | cmEvent => rfl

/-- An action of another connection, or one that moves a message, registers nothing for
this one. -/
theorem System.Stepped.unregistered (hst : x.Stepped a y) (hc : c ≠ a.conn ∨ a.moves = true)
    (hu : x.server.Unregistered c) : y.server.Unregistered c := by
  rcases System.step_server hst with hs | ⟨d, -, hs⟩ | ⟨d, u, hs, -⟩ |
    ⟨d, wr, sq, ra, host, -, -, -, -, hw, hs⟩ | ⟨d, o, m, rfl, -, -, hm, hs⟩ <;> rw [hs]
  · exact hu
  · exact hu
  · exact hu
  · obtain ⟨q, -, m, -, -, rfl⟩ := Host.rdmaWrite_cases hw
    exact hu
  · have hne : c ≠ d := by
      rcases hc with hc | hc
      · exact hc
      · cases hc
    rcases rpmemRcvCompletion_cases hm with ⟨-, hserver, -⟩ | ⟨q, f, t, calls, -, ht, hserver, -⟩ <;>
      rw [hserver]
    · exact hu
    · have hpoll : (x.server.poll d).Unregistered c := hu
      exact ht.unregistered_of_ne hne hpoll

/-- **An action of the connection keeps its lengths together.** -/
theorem LengthInv.own_step (hx : x.Regions base) (hst : x.Stepped a y)
    (hok : LengthsKept a.conn x a) (h : LengthInv g (x.clients a.conn) x.server a.conn) :
    LengthInv (noteAsked a.conn x a y g) (y.clients a.conn) y.server a.conn := by
  have hi := hx.tokens a.conn
  by_cases hmv : a.moves = true
  · rcases hst.moved hmv with hm | ⟨wr, sq, ra, data, hsq, hop, -, hread, ha, rfl⟩
    · rw [noteAsked_of_moves hmv hm.fetched]
      refine h.moved hm (fun addr len hh => ?_) (hst.unregistered (.inr hmv))
      exact hh.congr hm.res fun r _ => by rw [hst.resource_of_moves hmv]
    · have hfet : (x.clients a.conn).fetched <
          (((x.clients a.conn).place ra data).complete wr sq .success).fetched := by
        simp only [Client.fetched, Client.complete, Client.place, List.countP_append,
          List.countP_singleton, Wc.isRead, hop, WrOp.opcode, and_self, decide_true, if_true]
        omega
      have hnote : noteAsked a.conn x a (x.setClient a.conn
          (((x.clients a.conn).place ra data).complete wr sq .success)) g =
          { g with moved := (x.clients a.conn).readLen } := by
        rw [ha]
        simp only [noteAsked, System.setClient, Action.conn, Function.update_self]
        exact if_pos hfet
      rw [hnote]
      simp only [System.setClient, Function.update_self]
      exact h.fetch hx.server hi (hx.posted a.conn) hsq hop hread
  · cases hst with
    | connected c accepted established hpc hc =>
        change LengthInv g (x.clients c) x.server c at h
        have hnone : (x.server.unit c).res = none := hx.server.pool.connected c hc
        have hregion : (x.clients c).region ≠ true := by
          intro hr
          unfold LengthInv at h
          rw [hpc] at h
          obtain ⟨r, hres, -⟩ := (h hr).holds
          rw [hnone] at hres
          cases hres
        simp only [Action.conn, Function.update_self]
        split_ifs
        · exact fun hr => absurd hr hregion
        · exact trivial
    | called c api o k hk =>
        have hcall := h.call hi (fun len hapi => by subst hapi; exact hok rfl) hk
        simpa [noteAsked, System.setClient, Action.conn] using hcall
    | woken c o k hk => simpa [noteAsked, System.setClient, Action.conn] using h.wake hi hk
    | written c f k hk =>
        obtain ⟨hpc, -, b, g', -, rfl⟩ := Client.write_cases hk
        change LengthInv g (x.clients c) x.server c at h
        simp only [noteAsked, System.setClient, Action.conn, Function.update_self]
        unfold LengthInv at h ⊢
        rw [hpc] at h
        simp only [hpc]
        exact fun hr => (h hr).congr rfl rfl fun _ _ => id
    | handled c o m hc hp hm => exact h.handle (hx.regions c) hi hp (hok rfl) hm
    | sent | fetched | stored | failed | flushed | recvFlushed | polled | delivered | lost
    | disconnected | cmHandled => exact absurd rfl hmv

/-- Every action keeps the lengths of `c` together. -/
theorem LengthInv.step (hx : x.Regions base) (hok : LengthsKept c x a) (he : x.step a = some y)
    (h : LengthInv g (x.clients c) x.server c) :
    LengthInv (noteAsked c x a y g) (y.clients c) y.server c := by
  have hst := System.step_cases he
  by_cases hc : c = a.conn
  · subst hc
    exact h.own_step hx hst hok
  · obtain ⟨hk, hu⟩ := System.step_frame hst hc
    rw [noteAsked_of_ne hst hc, hk]
    refine h.moved (.of_eq hu) (fun addr len hh => ?_) (hst.unregistered (.inl hc))
    refine hh.congr (by rw [hu]) fun r hr => ?_
    exact hst.resource_of_held hx.server.pool hc hr

end Rpmem
