/-
# What a commit has written when it is synced

`rpmem_commit` posts the RDMA write of its buffer and the COMMIT request back to
back and looks at the completion of neither.  That is enough: the two go through
one queue pair, so a COMMIT that reaches the server comes after its RDMA write,
and a failed write takes the request with it (`CommitInv`).  Nobody else writes to
the mapping in between, because a registration can be reached through its own
connection only and no two lie over one mapping, and the response that ends the
wait is the one to this COMMIT (`Rpmem.Network.Tokens`).

So when `rpmem_commit` returns `0` there was an `msync` of exactly its region, it
returned `0`, and what it found in the server's memory was the buffer as it was
when `rpmem_commit` was called.
-/

import Rpmem.Network.Regions

namespace Rpmem

open Paging

variable {base : ℕ} {c d : ConnId} {o : Outcomes} {s t : Server} {k k' : Client} {x y : System}
  {a : Action}

/-! ### Bytes behind a registration -/

/-- A registration of `c` covers the `len` bytes from `addr` on, and the mapping
behind it holds `data` there. -/
def Host.Holds (h : Host) (c : ConnId) (addr : BitVec 64) (len : ℕ) (data : ℕ → UInt8) : Prop :=
  ∃ q ∈ h.mrs, ∃ m, q.pd = c ∧ q.map = some m ∧ q.addr.toNat ≤ addr.toNat ∧
    addr.toNat + len ≤ q.addr.toNat + q.len ∧
    ∀ i < len, h.store m (addr.toNat - q.addr.toNat + i) = data i

/-- What an RDMA write leaves. -/
theorem Host.holds_of_rdmaWrite {h h' : Host} {rkey : BitVec 32} {raddr : BitVec 64} {len : ℕ}
    {data : ℕ → UInt8} (hw : h.rdmaWrite c rkey raddr len data = some h') :
    h'.Holds c raddr len data := by
  obtain ⟨q, hq, m, ⟨hpd, -, hlo, hhi⟩, hm, rfl⟩ := Host.rdmaWrite_cases hw
  refine ⟨q, hq, m, hpd, hm, hlo, hhi, fun i hi => ?_⟩
  refine (storeBytes_of_mem (by omega) (by omega)).trans ?_
  rw [Nat.add_sub_cancel_left]

/-- A registration over its whole mapping: the server's process sees the same bytes. -/
theorem Host.Holds.byteAt {h : Host} (hi : h.PinInv base) {addr : BitVec 64} {len : ℕ}
    {data : ℕ → UInt8} (hh : h.Holds c addr len data) {i : ℕ} (hlt : i < len) :
    h.byteAt (addr.toNat + i) = some (data i) := by
  obtain ⟨q, hq, m, -, hm, hlo, hhi, hdata⟩ := hh
  have hpin := hi.pinned q hq m hm
  have hcount := le_pageCount q.len
  have haddr : addr.toNat + i = pageOf q.addr * 4096 + (addr.toNat - q.addr.toNat + i) := by
    have := hpin.aligned
    rw [pageOf]
    omega
  rw [Host.byteAt, haddr, hpin.maps.byteAt (by omega), hdata i hlt]

/-- The registration is still there, and so are the bytes behind it. -/
structure Host.Keeps (h h' : Host) (q : Registration) (m : ℕ) : Prop where
  mem : q ∈ h'.mrs
  info : h'.info m = h.info m
  store : h'.store m = h.store m

/-- **A handler leaves a registration and the bytes behind it alone**, unless it
unmaps for the registration's own connection. -/
theorem Served.keeps {kd : RspKind} {f : kd.Fields} {calls : List Call}
    (h : Served o s c kd f t calls) (hs : s.Inv base) {q : Registration} (hq : q ∈ s.host.mrs)
    {m : ℕ} (hm : q.map = some m) (hown : q.pd = c → kd ≠ .unmapRsp) : s.host.Keeps t.host q m := by
  have hlt := (hs.maps.pins.pinned q hq m hm).lt
  cases h with
  | opened | closed | mapRefused | unmapRefused | commitRefused => exact ⟨hq, rfl, rfl⟩
  | committed ret host _ hsync =>
      obtain ⟨files, rfl⟩ := Host.msync_eq hsync
      exact ⟨hq, rfl, rfl⟩
  | mapped r out _ _ hout =>
      obtain ⟨a, h₁, hmap, hcases⟩ := mapResource_cases o ((s.postRecv c true).take c r) c r
        (wordField (s.unit c).req.bytes)
      have hk : s.host.Keeps h₁ q m := by
        rcases Host.mmap_cases (h := s.host) (s.resource r).fd .priv
          (sizeT (wordField (s.unit c).req.bytes)) o.mmap with he | ⟨x, -, he⟩ <;>
          obtain ⟨-, rfl⟩ := Prod.mk.inj (hmap.symm.trans he)
        · exact ⟨hq, rfl, rfl⟩
        · exact ⟨hq, Function.update_of_ne hlt.ne _ _, Function.update_of_ne hlt.ne _ _⟩
      rw [← hout]
      rcases hcases with ⟨ret, h₂, hun, he⟩ | ⟨rkey, -, he⟩ <;> rw [he]
      · obtain ⟨pages, rfl⟩ := Host.munmap_eq hun
        exact ⟨hk.mem, hk.info, hk.store⟩
      · exact ⟨List.mem_cons_of_mem _ hk.mem, hk.info, hk.store⟩
  | unmapped r mr out _ hres hmr hout =>
      -- the region that goes is the one of `c`
      have hne : q.id ≠ mr := fun hid =>
        hown (hs.regions.owner c mr (Server.region_of_held hres hmr) q hq hid) rfl
      obtain ⟨ret, h₁, hun, he⟩ := unmapResource_cases o (s.postRecv c true) c r mr
        (addrField (s.unit c).req.bytes) (wordField (s.unit c).req.bytes)
      obtain ⟨pages, rfl⟩ := Host.munmap_eq hun
      rw [← hout, he]
      split_ifs <;> exact ⟨Host.mem_deregMr.2 ⟨hq, hne⟩, rfl, rfl⟩

/-- **An action leaves a registration alone**, unless it is an UNMAP of the
registration's own connection, and the bytes behind it too, unless it is an RDMA
write of that connection. -/
theorem System.Stepped.keeps (hst : x.Stepped a y) (h : x.server.Inv base) {q : Registration}
    (hq : q ∈ x.server.host.mrs) {m : ℕ} (hm : q.map = some m)
    (hunmap : ∀ o, a = .handle q.pd o →
      requestKind (x.server.unit q.pd).req.bytes ≠ some .unmapReq) :
    q ∈ y.server.host.mrs ∧ y.server.host.info m = x.server.host.info m ∧
      ((∀ wr sq ra, a = .exec q.pd true → (x.clients q.pd).sq = wr :: sq → wr.op ≠ .rdmaWrite ra) →
        y.server.host.store m = x.server.host.store m) := by
  rcases System.step_server hst with hs | ⟨d, -, hs⟩ | ⟨d, u, hs, -⟩ |
    ⟨d, wr, sq, ra, host, ha, hsq, hop, -, hw, hs⟩ | ⟨d, o, r, rfl, -, -, hr, hs⟩ <;> rw [hs]
  · exact ⟨hq, rfl, fun _ => rfl⟩
  · exact ⟨hq, rfl, fun _ => rfl⟩
  · exact ⟨hq, rfl, fun _ => rfl⟩
  · -- another connection writes through another registration, to another mapping
    obtain ⟨q', hq', m', hcov, hm', rfl⟩ := Host.rdmaWrite_cases hw
    refine ⟨hq, rfl, fun hwrite => storeBytes_of_ne ?_⟩
    rintro rfl
    obtain rfl := h.maps.pins.inj q hq q' hq' m hm hm'
    obtain rfl := hcov.1
    exact hwrite wr sq ra ha hsq hop
  · have hpoll : (x.server.poll d).Inv base := h.setUnit rfl
    rcases rpmemRcvCompletion_cases hr with ⟨-, hserver, -⟩ | ⟨kd, f, t, calls, hk, ht, hserver, -⟩ <;>
      rw [hserver]
    · exact ⟨hq, rfl, fun _ => rfl⟩
    · have hkeep := ht.keeps hpoll hq hm (by
        rintro rfl hkd
        refine hunmap o rfl ?_
        rw [Server.poll, Server.setUnit_unit, Function.update_self] at hk
        rw [hk]
        cases kd <;> first | rfl | cases hkd)
      exact ⟨hkeep.mem, hkeep.info, fun _ => hkeep.store⟩

/-- The bytes of a region of `c` stay, through everything but its own RDMA writes and
UNMAPs. -/
theorem Host.Holds.step (hst : x.Stepped a y) (h : x.server.Inv base) {addr : BitVec 64} {len : ℕ}
    {data : ℕ → UInt8} (hh : x.server.host.Holds c addr len data)
    (hwrite : ∀ wr sq ra, a = .exec c true → (x.clients c).sq = wr :: sq → wr.op ≠ .rdmaWrite ra)
    (hunmap : ∀ o, a = .handle c o → requestKind (x.server.unit c).req.bytes ≠ some .unmapReq) :
    y.server.host.Holds c addr len data := by
  obtain ⟨q, hq, m, rfl, hm, hlo, hhi, hdata⟩ := hh
  obtain ⟨hmem, -, hstore⟩ := hst.keeps h hq hm hunmap
  exact ⟨q, hmem, m, rfl, hm, hlo, hhi, fun i hi => by rw [hstore hwrite, hdata i hi]⟩

/-! ### The write comes before the request -/

/-- The region's bytes on the server are those of its buffer. -/
def Written (k : Client) (h : Host) (c : ConnId) : Prop :=
  ∃ b, (k.mapLen ≠ 0 → k.rmrAddr = some b) ∧ h.Holds c k.remoteAddr k.mapLen.toNat (k.bufs b)

/-- While a COMMIT is under way, its RDMA write is still before it in the send queue,
or the queue pair is broken and the COMMIT will not arrive, or the write is done. -/
def CommitInv (k : Client) (s : Server) (c : ConnId) : Prop :=
  k.pc = .waiting (.rsp .commitReq) → 0 < requestsUnderWay k (s.unit c) →
    k.awaited <:+ k.sq ∨ (k.qpErr = true ∧ (s.unit c).pending = 0) ∨ Written k s.host c

theorem Written.congr {h h' : Host} (hw : Written k h c) (hlen : k'.rmrLen = k.rmrLen)
    (hbuf : k'.rmrAddr = k.rmrAddr) (haddr : k'.remoteAddr = k.remoteAddr) (hbufs : k'.bufs = k.bufs)
    (hh : ∀ addr len data, h.Holds c addr len data → h'.Holds c addr len data) :
    Written k' h' c := by
  rw [Written, Client.mapLen, hlen, hbuf, haddr, hbufs]
  obtain ⟨b, hb, hd⟩ := hw
  exact ⟨b, hb, hh _ _ _ hd⟩

/-- Nothing has left the send queue. -/
theorem CommitInv.moved (h : CommitInv k s c) (hm : Moved k k' (s.unit c) (t.unit c))
    (hsq : k'.sq = k.sq) (hp : (t.unit c).pending = (s.unit c).pending)
    (hh : k.pc = .waiting (.rsp .commitReq) → ∀ addr len data, s.host.Holds c addr len data →
      t.host.Holds c addr len data) : CommitInv k' t c := by
  intro hpc hpos
  rw [hm.pc] at hpc
  have hreq := hm.requests
  rcases h hpc (by omega) with hl | ⟨hq, hz⟩ | hw
  · rw [hm.awaited, hsq]
    exact .inl hl
  · exact .inr (.inl ⟨hm.qpErr hq, hp.trans hz⟩)
  · exact .inr (.inr (hw.congr hm.rmrLen hm.rmrAddr hm.remoteAddr hm.bufs (hh hpc)))

/-- A stretch of a call that ends in a wait for a COMMIT has posted both. -/
theorem Stage.commitInv (h : Stage k k') : CommitInv k' s c := by
  intro hpc _
  cases h with
  | returned _ pc | destroyed pc =>
      rw [pc] at hpc
      cases hpc
  | sent _ _ _ _ _ _ _ _ _ _ last | reading _ _ _ _ _ _ last => exact .inl last

/-- What a `rpmem_commit` waits for, while its RDMA write is before the COMMIT. -/
theorem Client.awaited_commit (hpc : k.pc = .waiting (.rsp .commitReq)) :
    k.awaited = [⟨.rdmaWrite (k.rdmaArgs (k.mr.getD 0)), k.seq⟩, ⟨.send, k.seq⟩] := by
  rw [Client.awaited, hpc]

/-- The request at the head of the send queue is all that is left in it. -/
theorem CommitInv.not_suffix_of_head (hi : ConnInv k (s.unit c))
    (hpc : k.pc = .waiting (.rsp .commitReq)) {wr : Wr} {sq : List Wr} (hsq : k.sq = wr :: sq)
    (hop : wr.op = .send) : ¬ k.awaited <:+ k.sq := by
  have hmsg := hi.messages
  rw [hpc, requestsUnderWay, hsq, List.countP_cons] at hmsg
  simp only [Pc.messages, Wr.isSend, hop, WrOp.opcode, decide_true, if_true] at hmsg
  have hnone : sq.countP Wr.isSend = 0 := by omega
  rw [Client.awaited_commit hpc, hsq]
  intro hsuf
  rcases List.suffix_cons_iff.1 hsuf with he | he
  · rw [← (List.cons.inj he).1] at hop
    cases hop
  · exact List.countP_eq_zero.1 hnone ⟨.send, k.seq⟩ (he.subset (by simp))
      (by simp [Wr.isSend, WrOp.opcode])

/-- An RDMA write at the head of the send queue is the one of this commit, or an
older one. -/
theorem Client.Posted.write (h : k.Posted) (hpc : k.pc = .waiting (.rsp .commitReq)) {wr : Wr}
    {sq : List Wr} (hsq : k.sq = wr :: sq) {ra : RdmaArgs} (hop : wr.op = .rdmaWrite ra) :
    k.awaited <:+ sq ∨ ra = k.rdmaArgs (k.mr.getD 0) := by
  have hhead : ∀ l, wr :: sq = (⟨.rdmaWrite (k.rdmaArgs (k.mr.getD 0)), k.seq⟩ : Wr) :: l →
      ra = k.rdmaArgs (k.mr.getD 0) := by
    intro l he
    rw [(List.cons.inj he).1] at hop
    exact (WrOp.rdmaWrite.inj hop).symm
  rw [Client.Posted, Client.awaited_commit hpc, hsq] at h
  rw [Client.awaited_commit hpc]
  rcases h with h | h
  · rcases List.suffix_cons_iff.1 h with he | he
    · exact .inr (hhead _ he)
    · rcases List.suffix_cons_iff.1 he with he | he
      · rw [(List.cons.inj he).1] at hop
        cases hop
      · exact absurd (List.suffix_nil.1 he) (List.cons_ne_nil _ _)
  · rcases List.suffix_cons_iff.1 h with he | he
    · exact .inr (hhead _ he.symm)
    · exact .inl he

/-- The request is in the send queue until it has been sent. -/
theorem Client.Posted.pending_eq_zero (h : k.Posted) {u : ServerUnit} (hi : ConnInv k u)
    {q : ReqKind} (hpc : k.pc = .waiting (.rsp q)) {wr : Wr} {sq : List Wr}
    (hsq : k.sq = wr :: sq) : u.pending = 0 := by
  by_contra hne
  have hmsg := hi.messages
  rw [hpc] at hmsg
  simp only [Pc.messages, requestsUnderWay] at hmsg
  have hnil := h.sq_eq_nil hpc (by omega)
  rw [hsq] at hnil
  cases hnil

/-- A work request that is done without success: the COMMIT will not arrive. -/
theorem CommitInv.of_qpErr (hp : k.Posted) (hi : ConnInv k (s.unit c)) {wr : Wr} {sq : List Wr}
    (hsq : k.sq = wr :: sq) (hpc : k'.pc = k.pc) (hqp : k'.qpErr = true) : CommitInv k' s c := by
  intro hpc' _
  rw [hpc] at hpc'
  exact .inr (.inl ⟨hqp, hp.pending_eq_zero hi hpc' hsq⟩)

/-- **Moving a message keeps the RDMA write before the COMMIT.** -/
theorem CommitInv.moves_step (hst : x.Stepped a y) (ha : a.moves = true) (h : x.Regions base)
    (hci : CommitInv (x.clients a.conn) x.server a.conn) :
    CommitInv (y.clients a.conn) y.server a.conn := by
  have hi := h.tokens a.conn
  have hp := h.posted a.conn
  rcases hst.moved ha with hm | ⟨wr, sq, ra, data, hsq, hop, -, -, -, rfl⟩
  swap
  · -- the wait for an RDMA read is not one for a COMMIT
    simp only [System.setClient, Function.update_self]
    intro hpc
    have hread := (hi.reading hsq hop).symm.trans hpc
    cases hread
  cases hst with
  | connected | called | woken | written | handled => cases ha
  | fetched c wr sq ra data hsq _ hop =>
      intro hpc
      rw [hm.pc, hi.reading hsq hop] at hpc
      cases hpc
  | sent c wr sq hsq hqp hop hc hr =>
      simp only [System.setClient, Action.conn, Function.update_self] at hci ⊢
      intro hpc _
      have hpos : 0 < requestsUnderWay (x.clients c) (x.server.unit c) := by
        simp only [requestsUnderWay, hsq, List.countP_cons, Wr.isSend, hop, WrOp.opcode, decide_true,
          if_true]
        omega
      rcases hci hpc hpos with hl | ⟨hq, -⟩ | hw
      · exact absurd hl (CommitInv.not_suffix_of_head hi hpc hsq hop)
      · rw [hqp] at hq
        cases hq
      · exact .inr (.inr hw)
  | stored c wr sq ra host hsq hqp hop huse hwrite =>
      simp only [System.setClient, Action.conn, Function.update_self] at hci ⊢
      intro hpc _
      rcases hp.write hpc hsq hop with hl | rfl
      · exact .inl hl
      · refine .inr (.inr ⟨_, fun hne => huse.2.resolve_left hne, ?_⟩)
        exact Host.holds_of_rdmaWrite hwrite
  | failed c wr sq hsq hqp =>
      simp only [System.setClient, Action.conn, Function.update_self]
      exact CommitInv.of_qpErr hp hi hsq rfl rfl
  | flushed c wr sq hsq hqp =>
      simp only [System.setClient, Action.conn, Function.update_self]
      exact CommitInv.of_qpErr hp hi hsq rfl hqp
  | recvFlushed | disconnected | cmHandled =>
      refine hci.moved hm ?_ rfl fun _ _ _ _ => id
      simp [System.setClient, Action.conn, rpmemCmaDisconnected]
  | polled c k hk =>
      refine hci.moved hm ?_ rfl fun _ _ _ _ => id
      simpa [System.setClient, Action.conn] using (Client.poll_counts hk).2.2.1
  | delivered c | lost c =>
      refine hci.moved hm ?_ ?_ fun _ _ _ _ => id
      · simp [System.setClient, Action.conn, Client.receive]
      · simp [Server.sent, Action.conn]

/-- **One action keeps the RDMA write before the COMMIT**, on its own connection and
on every other. -/
theorem CommitInv.step (hst : x.Stepped a y) (h : x.Regions base)
    (hci : ∀ c, CommitInv (x.clients c) x.server c) (c : ConnId) :
    CommitInv (y.clients c) y.server c := by
  by_cases hc : c = a.conn
  swap
  · obtain ⟨hk, hu⟩ := System.step_frame hst hc
    rw [hk]
    refine (hci c).moved (.of_eq hu) rfl (by rw [hu]) fun _ addr len data hh => ?_
    refine hh.step hst h.server (fun wr sq ra ha => ?_) fun o ha => ?_ <;>
      exact absurd (by rw [ha]; rfl) hc
  subst hc
  by_cases hmv : a.moves = true
  · exact CommitInv.moves_step hst hmv h (hci _)
  · cases hst with
    | connected c accepted established =>
        simp only [Action.conn, Function.update_self]
        intro hpc
        split_ifs at hpc
        cases hpc
    | called c api o k hk =>
        simpa [System.setClient, Action.conn] using (Client.call_stage o hk).2.commitInv
    | woken c o k hk =>
        obtain ⟨w, tok, sem, -, -, hk⟩ := Client.wake_cases hk
        simpa [System.setClient, Action.conn] using (Client.resume_stage o hk).commitInv
    | written c f k hk =>
        obtain ⟨hpc, -, b, g, -, rfl⟩ := Client.write_cases hk
        simp only [System.setClient, Action.conn, Function.update_self]
        intro hpc'
        have hidle := hpc.symm.trans hpc'
        cases hidle
    | handled c o m hc hp hm =>
        -- no request is left
        have hmsg := (h.tokens c).messages
        intro hpc hpos
        change (x.clients c).pc = _ at hpc
        change 0 < requestsUnderWay (x.clients c) (m.server.unit c) at hpos
        rw [hpc] at hmsg
        simp only [Pc.messages, requestsUnderWay] at hmsg hpos
        rcases Server.handle_unit hm with ⟨-, hu⟩ | ⟨-, -, -, -, hp', -⟩
        · rw [hu] at hpos
          simp only at hpos
          omega
        · omega
    | sent | fetched | stored | failed | flushed | recvFlushed | polled | delivered | lost
    | disconnected | cmHandled => exact absurd rfl hmv

/-! ### The sync -/

/-- When the server has the COMMIT, the region's bytes are those of the buffer. -/
theorem CommitInv.written (h : CommitInv k s c) (hi : ConnInv k (s.unit c))
    (hpc : k.pc = .waiting (.rsp .commitReq)) (hp : 0 < (s.unit c).pending) :
    Written k s.host c := by
  rcases h hpc (by rw [requestsUnderWay]; omega) with hl | ⟨-, hz⟩ | hw
  · -- the COMMIT is not in the send queue any more
    have hmsg := hi.messages
    rw [hpc] at hmsg
    simp only [Pc.messages, requestsUnderWay] at hmsg
    have hnone : k.sq.countP Wr.isSend = 0 := by omega
    rw [Client.awaited_commit hpc] at hl
    exact absurd (by simp [Wr.isSend, WrOp.opcode])
      (List.countP_eq_zero.1 hnone ⟨.send, k.seq⟩ (hl.subset (by simp)))
  · exact absurd hz hp.ne'
  · exact hw

/-- **How the server handles a COMMIT**: it refuses it with `-1`, or it syncs the
region of the client that sent it and answers what `msync` returned. -/
theorem commit_handle_cases (hi : ConnInv k (s.unit c)) (hr : RegionInv k s c)
    (hpc : k.pc = .waiting (.rsp .commitReq)) (hp : 0 < (s.unit c).pending) {m : Handled}
    (hm : s.handle c o = .ok m) :
    (m.server.host = s.host ∧ wordField (m.server.unit c).rsp.bytes = -1) ∨
      ∃ ret host, o.postRecv = true ∧
        s.host.msync k.remoteAddr (sizeT k.mapLen) o.msync = (ret, host) ∧
        m.server.host = host ∧ wordField (m.server.unit c).rsp.bytes = ret ∧
        Call.msync k.remoteAddr (sizeT k.mapLen) ret
          (fun i => s.host.byteAt (k.remoteAddr.toNat + i)) ∈ m.calls := by
  have hreq := hi.pending hp
  unfold RegionInv at hr
  rw [hpc] at hr
  obtain ⟨⟨hword, haddr⟩, -⟩ := hr
  have hkind : requestKind (s.unit c).req.bytes = some .commitReq := by
    rw [hreq, (hi.request _ hpc).1]
  have hunit : ((s.poll c).unit c).req = k.req := by rw [Server.poll_unit, ← hreq]
  obtain ⟨f, t, calls, ht, hserver, hcalls⟩ := Server.handle_served hm hkind
  have hrsp : wordField (m.server.unit c).rsp.bytes = f := by
    rw [hserver, Server.postSend_unit, Function.update_self]
    exact wordField_packWord _ _ _
  cases ht with
  | commitRefused => exact .inl ⟨by rw [hserver]; rfl, hrsp⟩
  | committed _ host hpost hsync =>
      rw [hunit, hword, haddr] at hsync hcalls
      refine .inr ⟨f, host, hpost, hsync, by rw [hserver]; rfl, hrsp, ?_⟩
      rw [hcalls]
      simp only [List.cons_append, List.nil_append, List.mem_cons]
      exact .inr (.inl rfl)

/-- A length below `2^31` survives the two conversions on its way to `msync`. -/
theorem sizeT_setWidth {len : BitVec 64} (h : len.toNat < 2 ^ 31) :
    sizeT (len.setWidth 32) = len ∧ (len.setWidth 32 : CInt).toNat = len.toNat := by
  have hlow : (len.setWidth 32 : CInt).toNat = len.toNat := by
    rw [BitVec.toNat_setWidth]
    omega
  have hint : (len.setWidth 32 : CInt).toInt = len.toNat := by
    rw [BitVec.toInt_eq_toNat_of_lt (by omega), hlow]
  refine ⟨BitVec.eq_of_toNat_eq ?_, hlow⟩
  rcases sizeT_cases (len.setWidth 32) with ⟨-, he, -⟩ | ⟨hneg, -⟩ <;> omega

/-- A call of `rpmem_commit` on the client `k₀` has not returned `0`: it is over, it
failed, or it waits for a response that does not say `0`, with its region and its
buffer as they were. -/
inductive Uncommitted (k₀ k : Client) (u : ServerUnit) : Prop
  | past (seq : k₀.seq + 1 < k.seq)
  | failed (seq : k.seq = k₀.seq + 1) (pc : k.pc = .idle ∨ k.pc = .finished)
      (result : k.result ≠ some (.committed 0))
  | waiting (seq : k.seq = k₀.seq + 1) (pc : k.pc = .waiting (.rsp .commitReq))
      (result : k.result = none) (remoteAddr : k.remoteAddr = k₀.remoteAddr)
      (rmrLen : k.rmrLen = k₀.rmrLen) (rmrAddr : k.rmrAddr = k₀.rmrAddr) (bufs : k.bufs = k₀.bufs)
      (answer : 0 < responsesUnderWay k u → wordField u.rsp.bytes ≠ 0)

/-- In this step the server syncs the region of `k₀`, and finds its buffer there. -/
def Syncs (k₀ : Client) (c : ConnId) (x : System) (a : Action) : Prop :=
  ∃ o m view b, a = .handle c o ∧ x.server.handle c o = .ok m ∧
    Call.msync k₀.remoteAddr k₀.rmrLen 0 view ∈ m.calls ∧ k₀.rmrAddr = some b ∧
    ∀ i < k₀.rmrLen.toNat, view i = some (k₀.bufs b i)

variable {k₀ : Client} {u u' : ServerUnit}

/-- `rpmem_commit` starts without having returned `0`. -/
theorem Uncommitted.call (hi : ConnInv k₀ u) {co : ClientOutcomes}
    (hk : k₀.call co .rpmemCommit = some k) : Uncommitted k₀ k u := by
  have hquiet : responsesUnderWay k₀ u = 0 := hi.responses_eq_zero_of_call hk
  have hne : (some (Result.committed (-1)) : Option Result) ≠ some (.committed 0) := by decide
  cases (Client.call_called hk).2 with
  | commits =>
      refine .waiting rfl rfl rfl rfl rfl rfl rfl fun hpos => ?_
      have hpos' : 0 < responsesUnderWay k₀ u := hpos
      omega
  | commitFails => exact .failed rfl (.inl rfl) hne

/-- Moving a message does not return `0`. -/
theorem Uncommitted.moved (h : Uncommitted k₀ k u) (hm : Moved k k' u u') :
    Uncommitted k₀ k' u' := by
  have hrsp := hm.responses
  cases h with
  | past seq => exact .past (hm.seq ▸ seq)
  | failed seq pc result =>
      exact .failed (hm.seq.trans seq) (hm.pc ▸ pc) (hm.result ▸ result)
  | waiting seq pc result remoteAddr rmrLen rmrAddr bufs answer =>
      refine .waiting (hm.seq.trans seq) (hm.pc.trans pc) (hm.result.trans result)
        (hm.remoteAddr.trans remoteAddr) (hm.rmrLen.trans rmrLen) (hm.rmrAddr.trans rmrAddr)
        (hm.bufs.trans bufs) fun hpos => ?_
      rw [hm.rsp]
      exact answer (by omega)

/-- A wake-up on a response that does not say `0` does not return `0`. -/
theorem Uncommitted.wake (h : Uncommitted k₀ k u) (hi : ConnInv k u) {co : ClientOutcomes}
    (hw : k.wake co = some k') : Uncommitted k₀ k' u := by
  obtain ⟨w, tok, sem, hpc, -, hr⟩ := Client.wake_cases hw
  have hseq : k'.seq = k.seq := (Client.resume_stage co hr).seq
  cases h with
  | past seq => exact .past (hseq ▸ seq)
  | failed seq pc result =>
      rw [hpc] at pc
      rcases pc with pc | pc <;> cases pc
  | waiting seq hpc result remoteAddr rmrLen rmrAddr bufs answer =>
      cases hi.woken hw with
      | opened pc | closed pc | unmapped _ pc | reads _ pc | mapFails _ pc | fetched pc =>
          cases hpc.symm.trans pc
      | committed pc ha =>
          refine .failed (hseq.trans seq) (.inl rfl) fun he => answer ha.answered ?_
          rw [← ha.rsp]
          exact Result.committed.inj (Option.some.inj he)

/-- A further call is another call. -/
theorem Uncommitted.call_again (h : Uncommitted k₀ k u) {co : ClientOutcomes} {api : Api}
    (hk : k.call co api = some k') : Uncommitted k₀ k' u := by
  obtain ⟨-, hst⟩ := Client.call_stage co hk
  have hseq : k'.seq = k.seq + 1 := hst.seq
  cases h with
  | past seq => exact .past (by omega)
  | failed seq | waiting seq => exact .past (by omega)

/-- Outside the two ways a call can be waiting or have returned, it is over. -/
theorem Uncommitted.of_pc (h : Uncommitted k₀ k u) {p : Pc} (hpc : k.pc = p)
    (hp : p ≠ .idle ∧ p ≠ .finished ∧ p ≠ .waiting (.rsp .commitReq)) (hseq : k'.seq = k.seq) :
    Uncommitted k₀ k' u' := by
  subst hpc
  cases h with
  | past seq => exact .past (hseq ▸ seq)
  | failed _ pc => exact absurd pc (not_or.2 ⟨hp.1, hp.2.1⟩)
  | waiting _ pc => exact absurd pc hp.2.2

/-- **The server handles a request of the connection**: it syncs the region and finds
the buffer there, or the response does not say `0`. -/
theorem Uncommitted.handle (h : Uncommitted k₀ (x.clients c) (x.server.unit c))
    (hx : x.server.Inv base) (hi : ConnInv (x.clients c) (x.server.unit c))
    (hr : RegionInv (x.clients c) x.server c) (hci : CommitInv (x.clients c) x.server c)
    (hlen : 0 < k₀.rmrLen.toNat ∧ k₀.rmrLen.toNat < 2 ^ 31) (hp : 0 < (x.server.unit c).pending)
    {m : Handled} (hm : x.server.handle c o = .ok m) :
    Syncs k₀ c x (.handle c o) ∨ Uncommitted k₀ (x.clients c) (m.server.unit c) := by
  cases h with
  | past seq => exact .inr (.past seq)
  | failed seq pc result => exact .inr (.failed seq pc result)
  | waiting seq pc result remoteAddr rmrLen rmrAddr bufs _ =>
      obtain ⟨hsize, hnat⟩ := sizeT_setWidth hlen.2
      have hmap : (x.clients c).mapLen = k₀.rmrLen.setWidth 32 := by rw [Client.mapLen, rmrLen]
      have hwait : wordField (m.server.unit c).rsp.bytes ≠ 0 →
          Uncommitted k₀ (x.clients c) (m.server.unit c) := fun hne =>
        .waiting seq pc result remoteAddr rmrLen rmrAddr bufs fun _ => hne
      rcases commit_handle_cases hi hr pc hp hm with ⟨-, hword⟩ |
        ⟨ret, host, -, -, -, hword, hcall⟩
      · exact .inr (hwait (by rw [hword]; decide))
      by_cases hret : ret = 0
      swap
      · exact .inr (hwait (by rw [hword]; exact hret))
      subst hret
      obtain ⟨b, hb, hheld⟩ := hci.written hi pc hp
      have hne : (x.clients c).mapLen ≠ 0 := by
        intro hz
        rw [hmap] at hz
        rw [hz] at hnat
        exact absurd hnat hlen.1.ne
      rw [hmap, hsize, remoteAddr] at hcall
      refine .inl ⟨o, m, _, b, rfl, hm, hcall, rmrAddr ▸ hb hne, fun i hi => ?_⟩
      rw [remoteAddr, hmap, hnat, bufs] at hheld
      exact hheld.byteAt hx.maps.pins hi

/-! ### Every run from a call of `rpmem_commit` -/

/-- What the runs of library clients keep, with the commits in progress. -/
structure System.Commits (base : ℕ) (x : System) : Prop where
  regions : x.Regions base
  commits : ∀ c, CommitInv (x.clients c) x.server c

theorem System.Commits.step (h : x.Commits base) (he : x.step a = some y) : y.Commits base where
  regions := h.regions.step he
  commits := CommitInv.step (System.step_cases he) h.regions h.commits

theorem System.InitialAt.commits (h : x.InitialAt base) : x.Commits base where
  regions := h.regions
  commits c := by
    rw [h.initial.clients c]
    intro hpc
    cases hpc

theorem System.InitialAt.reachable_commits {ok : System → Action → Prop}
    (h : Lts.Reachable System.step ok (System.InitialAt base) x) : x.Commits base :=
  h.invariant (fun _ hx => hx.commits) fun _ _ _ hx _ he => hx.step he

/-- **One action after a call of `rpmem_commit`**: the server syncs its region, or the
call has still not returned `0`. -/
theorem Uncommitted.step (hu : Uncommitted k₀ (x.clients c) (x.server.unit c))
    (h : x.Commits base) (he : x.step a = some y)
    (hlen : 0 < k₀.rmrLen.toNat ∧ k₀.rmrLen.toNat < 2 ^ 31) :
    Syncs k₀ c x a ∨ Uncommitted k₀ (y.clients c) (y.server.unit c) := by
  have hst := System.step_cases he
  by_cases hc : c = a.conn
  swap
  · obtain ⟨hk, hunit⟩ := System.step_frame hst hc
    rw [hk, hunit]
    exact .inr hu
  subst hc
  have hi := h.regions.tokens a.conn
  by_cases hmv : a.moves = true
  · rcases hst.moved hmv with hm | ⟨wr, sq, ra, data, hsq, hop, -, -, -, rfl⟩
    · exact .inr (hu.moved hm)
    · right
      simp only [System.setClient, Function.update_self]
      exact hu.of_pc (hi.reading hsq hop) (by simp) rfl
  · cases hst with
    | connected c accepted established hpc =>
        right
        simp only [Action.conn, Function.update_self]
        exact hu.of_pc hpc (by simp) (by split_ifs <;> rfl)
    | called c api o k hk =>
        exact .inr (by simpa [System.setClient, Action.conn] using hu.call_again hk)
    | woken c o k hk => exact .inr (by simpa [System.setClient, Action.conn] using hu.wake hi hk)
    | written c f k hk =>
        obtain ⟨hpc, -, b, g, -, rfl⟩ := Client.write_cases hk
        right
        simp only [System.setClient, Action.conn, Function.update_self]
        change Uncommitted k₀ (x.clients c) (x.server.unit c) at hu
        cases hu with
        | past seq => exact .past seq
        | failed seq pc result => exact .failed seq pc result
        | waiting _ pc =>
            rw [hpc] at pc
            cases pc
    | handled c o m hc hp hm =>
        exact hu.handle h.regions.server hi (h.regions.regions c) (h.commits c) hlen hp hm
    | sent | fetched | stored | failed | flushed | recvFlushed | polled | delivered | lost
    | disconnected | cmHandled => exact absurd rfl hmv

/-- **A commit that returns `0` was written before it was synced.**  In every state
that library clients reach, over any calls, failures and delays, call
`rpmem_commit` on a region of `0 < len < 2^31` bytes: in every run from there in
which this call returns `0`, the server has at some moment handled a request of
this connection with an `msync` of exactly `[remote_addr, remote_addr + len)`, which
returned `0`, and in whose range the server's memory held the buffer as it was when
`rpmem_commit` was called. -/
theorem commit_written_before_sync
    (h : Lts.Reachable System.step Lts.anyLabel (System.InitialAt base) x) (c : ConnId)
    (hlen : 0 < (x.clients c).rmrLen.toNat ∧ (x.clients c).rmrLen.toNat < 2 ^ 31)
    {co : ClientOutcomes} (hcall : x.step (.call c .rpmemCommit co) = some y)
    {l : List Action} {z : System} (hrun : Lts.Run System.step Lts.anyLabel y l z)
    (hseq : (z.clients c).seq = (y.clients c).seq)
    (hret : (z.clients c).result = some (.committed 0)) :
    ∃ l₁ o l₂ w m view b, l = l₁ ++ .handle c o :: l₂ ∧
      Lts.Run System.step Lts.anyLabel y l₁ w ∧ w.server.handle c o = .ok m ∧
      Call.msync (x.clients c).remoteAddr (x.clients c).rmrLen 0 view ∈ m.calls ∧
      (x.clients c).rmrAddr = some b ∧
      ∀ i < (x.clients c).rmrLen.toNat, view i = some ((x.clients c).bufs b i) := by
  have hx : x.Commits base := System.InitialAt.reachable_commits h
  have hy : y.Commits base := hx.step hcall
  obtain ⟨k, hk, rfl⟩ := Option.map_eq_some_iff.1 hcall
  have hset : (x.setClient c k).clients c = k := Function.update_self _ _ _
  have hstart : Uncommitted (x.clients c) k (x.server.unit c) :=
    .call (hx.regions.tokens c) hk
  have hkseq : k.seq = (x.clients c).seq + 1 := (Client.call_stage co hk).2.seq
  rw [hset] at hseq
  have hend : ¬ (z.Commits base ∧ Uncommitted (x.clients c) (z.clients c) (z.server.unit c)) := by
    rintro ⟨-, hz⟩
    cases hz with
    | past seq => omega
    | failed _ _ result => exact result hret
    | waiting _ _ result =>
        rw [hret] at result
        cases result
  -- the call returned `0`, so some step of the run was the sync
  obtain ⟨l₁, a, l₂, w, rfl, hw, o, m, view, b, rfl, hm, hcall, hb, hview⟩ := hrun.exists_event
    (I := fun w => w.Commits base ∧
      Uncommitted (x.clients c) (w.clients c) (w.server.unit c))
    (E := Syncs (x.clients c) c)
    (fun w a v hw _ he => (hw.2.step hw.1 he hlen).imp_right fun hv => ⟨hw.1.step he, hv⟩)
    ⟨hy, by rw [hset]; exact hstart⟩ hend
  exact ⟨l₁, o, l₂, w, m, view, b, rfl, hw, hm, hcall, hb, hview⟩

/-- The actions of a successful `rpmem_commit`, from its call on. -/
def System.committed (c : ConnId) : List Action :=
  [.exec c true, .poll c] ++ System.exchange c (.allOk 0 0) ++ [.wake c .allOk]

/-- Open, map 4096 bytes, write 42 everywhere and commit. -/
theorem commit_written_before_sync_after_write :
    ∃ x y z, Lts.Reachable System.step Lts.anyLabel (System.InitialAt 1) x ∧
      ((x.clients 0).rmrLen = 4096 ∧ (x.clients 0).rmrAddr = some 0 ∧ (x.clients 0).bufs 0 5 = 42) ∧
      x.step (.call 0 .rpmemCommit .allOk) = some y ∧
      Lts.Run System.step Lts.anyLabel y (System.committed 0) z ∧
      ((z.clients 0).seq = (y.clients 0).seq ∧ (z.clients 0).result = some (.committed 0)) ∧
      ∃ l₁ o l₂ w m view, System.committed 0 = l₁ ++ .handle 0 o :: l₂ ∧
        Lts.Run System.step Lts.anyLabel y l₁ w ∧ w.server.handle 0 o = .ok m ∧
        Call.msync (x.clients 0).remoteAddr 4096 0 view ∈ m.calls ∧ view 5 = some 42 := by
  obtain ⟨x, hx, hp⟩ := Lts.exists_reachable_of_exec System.step Lts.anyLabel (System.InitialAt 1)
    (System.oneResource_initialAt fun _ _ => 0)
    (System.opens 0 ++ System.maps 0 4096 0x7f0000000000 17 ++ [.write 0 fun _ => 42])
    (fun x => decide ((x.clients 0).rmrLen = 4096 ∧ (x.clients 0).rmrAddr = some 0 ∧
        (x.clients 0).bufs 0 5 = 42) &&
      (x.step (.call 0 .rpmemCommit .allOk)).any fun y : System =>
        (Lts.exec System.step Lts.anyLabel y (System.committed 0)).any fun z : System =>
          decide ((z.clients 0).seq = (y.clients 0).seq ∧
            (z.clients 0).result = some (.committed 0))) (by decide)
  obtain ⟨hk, hrest⟩ := (Bool.and_eq_true _ _).mp hp
  have hk := of_decide_eq_true hk
  obtain ⟨y, hy, hrest⟩ := (Option.any_eq_true _ _).mp hrest
  obtain ⟨z, hz, hend⟩ := (Option.any_eq_true _ _).mp hrest
  have hend := of_decide_eq_true hend
  have hrun := Lts.run_of_exec hz
  obtain ⟨l₁, o, l₂, w, m, view, b, hl, hw, hm, hcall, hb, hview⟩ :=
    commit_written_before_sync hx 0 (by rw [hk.1]; decide) hy hrun hend.1 hend.2
  refine ⟨x, y, z, hx, hk, hy, hrun, hend, l₁, o, l₂, w, m, view, hl, hw, hm, hk.1 ▸ hcall, ?_⟩
  obtain rfl : 0 = b := Option.some.inj (hk.2.1.symm.trans hb)
  rw [hview 5 (by rw [hk.1]; decide), hk.2.2]

end Rpmem
