/-
# What the programs commit is in the file already

`rpmem_handle_map` maps the file privately, so nothing a client writes reaches
it (`commit_durable_of_syncs_nothing_new` says which commits are durable
nevertheless).  `simple_commit` does not show this: it never writes to its
region, so the bytes its `rpmem_commit` sends are those its `rpmem_map` fetched
(`MirrorInv`), every RDMA write of a program leaves the server's memory as it
is, every mapping stays a copy of its file (`Host.Copies`), and whatever the
server syncs was in the file before.  So the commits of the programs are
durable, whatever fails (`programs_commit_durably`).

For clients that do write, the files do not change either
(`files_never_change`).
-/

import Rpmem.Programs.Calls

namespace Rpmem

open Paging

variable {base : ℕ} {c : ConnId} {k k' : Client} {u : ServerUnit} {o : ClientOutcomes} {h : Host}
  {x y : System} {act : Action} {s t : Apps} {lab : AppLabel} {p : AppPc}

/-! ### Writing what is there -/

/-- Writing to memory what it holds changes nothing. -/
theorem storeBytes_eq_self {st : Store} {m off len : ℕ} {data : ℕ → UInt8}
    (hdata : ∀ i < len, st m (off + i) = data i) : storeBytes st m off len data = st := by
  funext m' i
  rw [storeBytes]
  split_ifs with hin
  · obtain ⟨rfl, hlo, hhi⟩ := hin
    rw [← hdata (i - off) (by omega), Nat.add_sub_cancel' hlo]
  · rfl

/-- An RDMA write of the bytes that are there leaves the host as it is. -/
theorem Host.Holds.rdmaWrite_eq (hi : h.PinInv base) {raddr : BitVec 64} {len : ℕ}
    {data : ℕ → UInt8} (hh : h.Holds c raddr len data) {rkey : BitVec 32} {h' : Host}
    (hw : h.rdmaWrite c rkey raddr len data = some h') : h' = h := by
  obtain ⟨q, hq, m, ⟨hpd, -, hlo, hhi⟩, hm, rfl⟩ := Host.rdmaWrite_cases hw
  -- the bytes that the write replaces, as a read would fetch them
  have hread : h.Holds c raddr len fun i => h.store m (raddr.toNat - q.addr.toNat + i) :=
    ⟨q, hq, m, hpd, hm, hlo, hhi, fun i _ => rfl⟩
  rw [storeBytes_eq_self fun i hlt =>
    Option.some.inj ((hread.byteAt hi hlt).symm.trans (hh.byteAt hi hlt))]

/-! ### The buffer of a program -/

/-- The buffer of the client is what the server has behind its region. -/
def Client.Mirrors (k : Client) (h : Host) (c : ConnId) : Prop :=
  h.Holds c k.remoteAddr k.rmrLen.toNat k.buffer

/-- No RDMA write is posted. -/
def Client.NoWrites (k : Client) : Prop := ∀ w ∈ k.sq, w.op.opcode ≠ .rdmaWrite

/-- The region of a program, from the RDMA read of its `rpmem_map` on, is a copy of the server's
memory, and the RDMA writes it has posted are of this region. -/
structure MirrorInv (k : Client) (h : Host) (c : ConnId) : Prop where
  region : k.region = true → k.Mirrors h c
  fetched : k.pc = .waiting .read → 0 < k.fetched → k.Mirrors h c
  writes : ∀ w ∈ k.sq, ∀ ra, w.op = .rdmaWrite ra →
    k.region = true ∧ ra = k.rdmaArgs (k.mr.getD 0)
  clean : k.result = some (.mapped true) ∨ k.result = some (.committed 0) → k.NoWrites

/-- Without a region, no RDMA write is posted. -/
theorem MirrorInv.noWrites (hm : MirrorInv k h c) (hr : k.region = false) : k.NoWrites := by
  intro w hw hop
  obtain ⟨op, n⟩ := w
  cases op with
  | rdmaWrite ra =>
      rw [(hm.writes _ hw ra rfl).1] at hr
      cases hr
  | send | rdmaRead => cases hop

/-- A client without a region and without RDMA writes, whose RDMA read is not done. -/
theorem MirrorInv.of_no_region (hr : k.region = false) (hno : k.NoWrites)
    (hf : k.pc = .waiting .read → k.fetched = 0) : MirrorInv k h c where
  region hreg := by cases hr.symm.trans hreg
  fetched hpc hpos := absurd (hf hpc) hpos.ne'
  writes w hw ra hop := absurd (by rw [hop]; rfl) (hno w hw)
  clean _ := hno

/-- The buffer a work request of the region names is the one the application has. -/
theorem Client.CanUse.rmrAddr (huse : k.CanUse (k.rdmaArgs (k.mr.getD 0)))
    (hlen : k.rmrLen.toNat < 2 ^ 31) {i : ℕ} (hi : i < k.rmrLen.toNat) :
    k.rmrAddr = some (k.mr.getD 0) := by
  refine huse.2.resolve_left fun hz => ?_
  have hnat : (k.rmrLen.setWidth 32 : CInt).toNat = k.rmrLen.toNat := (sizeT_setWidth hlen).2
  rw [show (k.rmrLen.setWidth 32 : CInt) = 0 from hz] at hnat
  have hzero : k.rmrLen.toNat = 0 := hnat.symm
  omega

/-- **An RDMA write of a program changes nothing.** -/
theorem MirrorInv.stored_eq (hm : MirrorInv k h c) (hi : h.PinInv base)
    (hlen : k.rmrLen.toNat < 2 ^ 31) {wr : Wr} {sq : List Wr} (hsq : k.sq = wr :: sq)
    {ra : RdmaArgs} (hop : wr.op = .rdmaWrite ra) (huse : k.CanUse ra) {h' : Host}
    (hw : h.rdmaWrite c ra.rkey ra.remoteAddr ra.len.toNat (k.bufs ra.lkey) = some h') :
    h' = h := by
  obtain ⟨hregion, rfl⟩ := hm.writes wr (hsq ▸ List.mem_cons_self) ra hop
  have hnat : (k.rmrLen.setWidth 32 : CInt).toNat = k.rmrLen.toNat := (sizeT_setWidth hlen).2
  obtain ⟨q, hq, m, hpd, hqm, hlo, hhi, hdata⟩ := hm.region hregion
  refine Host.Holds.rdmaWrite_eq hi ?_ hw
  simp only [Client.rdmaArgs, hnat]
  refine ⟨q, hq, m, hpd, hqm, hlo, hhi, fun i hlt => ?_⟩
  rw [hdata i hlt, Client.buffer, huse.rmrAddr hlen hlt]

/-- What the server has behind a region of a program stays, until it is unmapped. -/
theorem MirrorInv.holds_step (hm : MirrorInv (x.clients c) x.server.host c)
    (hs : x.server.Inv base) (hlen : (x.clients c).rmrLen.toNat < 2 ^ 31) (hst : x.Stepped act y)
    (hunmap : ∀ o, act = .handle c o → requestKind (x.server.unit c).req.bytes ≠ some .unmapReq)
    {addr : BitVec 64} {len : ℕ} {data : ℕ → UInt8} (hh : x.server.host.Holds c addr len data) :
    y.server.host.Holds c addr len data := by
  by_cases hwrite : ∀ wr sq ra, act = .exec c true → (x.clients c).sq = wr :: sq →
      wr.op ≠ .rdmaWrite ra
  · exact hh.step hst hs hwrite hunmap
  · push Not at hwrite
    obtain ⟨wr, sq, ra, rfl, hsq, hop⟩ := hwrite
    have hhost : y.server.host = x.server.host := by
      cases hst with
      | sent | fetched => rfl
      | stored _ wr' sq' ra' host hsq' _ hop' huse hw =>
          exact hm.stored_eq hs.maps.pins hlen hsq' hop' huse hw
    rw [hhost]
    exact hh

/-- The client has moved nothing that its region depends on. -/
theorem MirrorInv.congr {h' : Host} (hm : MirrorInv k h c)
    (hpc : k'.pc = .waiting .read → k.pc = k'.pc) (hregion : k'.region = k.region)
    (hlen : k'.rmrLen = k.rmrLen) (haddr : k'.rmrAddr = k.rmrAddr) (hmr : k'.mr = k.mr)
    (hkey : k'.rkey = k.rkey) (hremote : k'.remoteAddr = k.remoteAddr)
    (hbufs : k'.bufs = k.bufs) (hfet : k'.fetched ≤ k.fetched)
    (hsq : ∀ w ∈ k'.sq, w ∈ k.sq ∨ w.op.opcode ≠ .rdmaWrite)
    (hresult : k'.result = k.result ∨ k'.NoWrites ∨
      k'.result ≠ some (.mapped true) ∧ k'.result ≠ some (.committed 0))
    (hh : ∀ addr len data, h.Holds c addr len data → h'.Holds c addr len data) :
    MirrorInv k' h' c := by
  have hmirror : k.Mirrors h c → k'.Mirrors h' c := by
    rw [Client.Mirrors, Client.Mirrors, hremote, hlen, Client.buffer_congr haddr hbufs]
    exact hh _ _ _
  have hargs : k'.rdmaArgs (k'.mr.getD 0) = k.rdmaArgs (k.mr.getD 0) := by
    simp only [Client.rdmaArgs, hkey, hmr, hremote, haddr, hlen]
  refine ⟨fun hr => hmirror (hm.region (hregion ▸ hr)), fun hw hpos => ?_, fun w hw ra hop => ?_,
    fun hres => ?_⟩
  · exact hmirror (hm.fetched ((hpc hw).trans hw) (hpos.trans_le hfet))
  · rw [hregion, hargs]
    exact hm.writes w ((hsq w hw).resolve_right fun hne => hne (by rw [hop]; rfl)) ra hop
  · rcases hresult with heq | hno | ⟨hmap, hcommit⟩
    · intro w hw
      rcases hsq w hw with hw | hne
      · exact hm.clean (heq ▸ hres) w hw
      · exact hne
    · exact hno
    · exact absurd hres (not_or.2 ⟨hmap, hcommit⟩)

/-! ### Each action keeps the copy -/

/-- A message of the connection moves. -/
theorem MirrorInv.moves (hm : MirrorInv (x.clients act.conn) x.server.host act.conn)
    (hx : x.Regions base) (hat : (x.clients act.conn).At p)
    (hlen : (x.clients act.conn).rmrLen.toNat < 2 ^ 31) (hst : x.Stepped act y)
    (hmv : act.moves = true) : MirrorInv (y.clients act.conn) y.server.host act.conn := by
  have hunmap : ∀ o, act = .handle act.conn o →
      requestKind (x.server.unit act.conn).req.bytes ≠ some .unmapReq := by
    intro o ha
    rw [ha] at hmv
    cases hmv
  have hh : ∀ addr len data, x.server.host.Holds act.conn addr len data →
      y.server.host.Holds act.conn addr len data :=
    fun _ _ _ => hm.holds_step hx.server hlen hst hunmap
  rcases hst.moved hmv with hmoved | ⟨wr, sq, ra, data, hsq, hop, huse, hread, -, rfl⟩
  · refine hm.congr (fun _ => hmoved.pc.symm) hmoved.region hmoved.rmrLen hmoved.rmrAddr hmoved.mr
      hmoved.rkey hmoved.remoteAddr hmoved.bufs hmoved.fetched (fun w hw => .inl ?_)
      (.inl hmoved.result) hh
    rcases hmoved.sq with heq | ⟨wr, heq⟩
    · exact heq ▸ hw
    · rw [heq]
      exact List.mem_cons_of_mem _ hw
  · -- the RDMA read of `rpmem_map`, in whose wait there is no region yet
    have hpc := (hx.tokens act.conn).reading hsq hop
    obtain ⟨rfl, rfl⟩ := (hx.posted act.conn).read (hx.tokens act.conn) hsq hop
    obtain ⟨rfl, hresult, hregion, -⟩ := hat.of_waiting hpc
    have hno : (x.clients act.conn).region = false := hregion (by simp [Wait.call])
    simp only [System.setClient, Function.update_self]
    refine ⟨fun hr => ?_, fun _ _ => ?_, fun w hw => ?_, fun _ w hw => ?_⟩
    · cases hno.symm.trans hr
    · obtain ⟨q, hq, m, hpd, hqm, hlo, hhi, hdata⟩ := Host.holds_of_rdmaRead hread
      have hnat : ((x.clients act.conn).rmrLen.setWidth 32 : CInt).toNat =
          (x.clients act.conn).rmrLen.toNat := (sizeT_setWidth hlen).2
      simp only [Client.rdmaArgs, hnat] at hlo hhi hdata
      refine ⟨q, hq, m, hpd, hqm, hlo, hhi, fun i hi => (hdata i hi).trans ?_⟩
      have hbuf := huse.rmrAddr hlen hi
      simp only [Client.complete, Client.place] at hi
      simp only [Client.buffer, Client.complete, Client.place, hbuf, Client.rdmaArgs,
        Function.update_self, hnat, if_pos hi]
    · cases hw
    · cases hw

/-- The call of a program goes on. -/
theorem MirrorInv.wake (hm : MirrorInv k h c) (hat : k.At p) (hi : ConnInv k u) (hposted : k.Posted)
    (hw : k.wake o = some k') : MirrorInv k' h c := by
  have hfet : ({ k with sem := [] } : Client).fetched ≤ k.fetched := by simp [Client.fetched]
  cases hi.woken hw with
  | opened pc =>
      refine hm.congr (by simp [Client.leave]) rfl rfl rfl rfl rfl rfl rfl hfet
        (fun w hw => .inl hw) (.inr (.inr ?_)) fun _ _ _ => id
      simp [Client.leave]
  | closed pc =>
      refine hm.congr (by simp [Client.destroy]) rfl rfl rfl rfl rfl rfl rfl
        (by simp [Client.fetched, Client.destroy]) (by simp [Client.destroy]) (.inr (.inr ?_))
        fun _ _ _ => id
      simp [Client.destroy]
  | reads id pc hans =>
      obtain ⟨rfl, -, hregion, -⟩ := hat.of_waiting pc
      have hno : k.region = false := hregion (by simp [Wait.call])
      refine .of_no_region hno (fun w hw => ?_) fun _ => hans.fetched_eq_zero
      rcases List.mem_append.1 hw with hw | hw
      · exact hm.noWrites hno w hw
      · rw [List.mem_singleton.1 hw]
        simp [WrOp.opcode]
  | mapFails id pc =>
      obtain ⟨rfl, -, hregion, -⟩ := hat.of_waiting pc
      exact .of_no_region rfl (hm.noWrites (hregion (by simp [Wait.call]))) (by rintro ⟨⟩)
  | unmapped id pc =>
      obtain ⟨rfl, -, hregion, -⟩ := hat.of_waiting pc
      have hno : k.region = false := hregion (by simp [Wait.call])
      exact .of_no_region hno (hm.noWrites hno) (by rintro ⟨⟩)
  | committed pc hans =>
      -- the response has come, so the send queue is empty
      have hsq : k.sq = [] := hposted.sq_eq_nil pc hans.quiet.sends
      refine hm.congr (by simp [Client.leave]) rfl rfl rfl rfl rfl rfl rfl hfet
        (fun w hw => .inl hw) (.inr (.inl ?_)) fun _ _ _ => id
      simp [Client.NoWrites, Client.leave, hsq]
  | fetched pc there =>
      obtain ⟨rfl, -, hregion, -⟩ := hat.of_waiting pc
      have hno : k.NoWrites := hm.noWrites (hregion (by simp [Wait.call]))
      refine ⟨fun _ => hm.fetched pc there, by rintro ⟨⟩, fun w hw ra hop => ?_, fun _ => hno⟩
      exact absurd (by rw [hop]; rfl) (hno w hw)

/-- A request posted behind no RDMA write. -/
theorem Client.NoWrites.sent (hno : k.NoWrites) (m : Request) : (k.sent m).NoWrites := by
  intro w hw
  rcases List.mem_append.1 hw with hw | hw
  · exact hno w hw
  · rw [List.mem_singleton.1 hw]
    simp [WrOp.opcode]

/-- What `rpmem_commit` does to the client: it posts the RDMA write of the region, or does not
get as far. -/
theorem rpmemCommit_posts (hc : rpmemCommit o k = some k') :
    (k'.region = k.region ∧ k'.rmrLen = k.rmrLen ∧ k'.rmrAddr = k.rmrAddr ∧ k'.mr = k.mr ∧
      k'.rkey = k.rkey ∧ k'.remoteAddr = k.remoteAddr ∧ k'.bufs = k.bufs) ∧
    k'.pc ≠ .waiting .read ∧ (k'.result = none ∨ k'.result = some (.committed (-1))) ∧
    ∀ w ∈ k'.sq, w ∈ k.sq ∨ w.op = .send ∨ w.op = .rdmaWrite (k.rdmaArgs (k.mr.getD 0)) := by
  unfold rpmemCommit at hc
  cases hr : o.postRecv with
  | false =>
      simp only [hr, Bool.false_eq_true, if_false, Option.some.injEq] at hc
      subst hc
      exact ⟨⟨rfl, rfl, rfl, rfl, rfl, rfl, rfl⟩, by simp [Client.leave], .inr rfl,
        fun w hw => .inl hw⟩
  | true =>
      simp only [hr, if_true] at hc
      obtain ⟨id, hmr, rfl⟩ := Option.map_eq_some_iff.1 hc
      have hid : k.mr.getD 0 = id := by
        have hmr' : k.mr = some id := hmr
        rw [hmr', Option.getD_some]
      rw [hid]
      simp only [Client.start, Client.postRecv, rpmemPostRecv, Client.post, Client.pack,
        Client.leave, Client.rdmaArgs]
      split_ifs
      · refine ⟨by simp, by simp, by simp, ?_⟩
        simp only [List.mem_append, List.mem_singleton]
        rintro w ((hw | rfl) | rfl)
        · exact .inl hw
        · exact .inr (.inr rfl)
        · exact .inr (.inl rfl)
      · refine ⟨by simp, by simp, by simp, ?_⟩
        simp only [List.mem_append, List.mem_singleton]
        rintro w (hw | rfl)
        · exact .inl hw
        · exact .inr (.inr rfl)
      · exact ⟨by simp, by simp, by simp, fun w hw => .inl hw⟩

/-- `rpmem_open` has no region yet. -/
theorem MirrorInv.open (hm : MirrorInv k h c) (hr : k.region = false)
    (hc : k.Called o .rpmemOpen k') : MirrorInv k' h c := by
  have hno : k.NoWrites := hm.noWrites hr
  cases hc with
  | opens => exact .of_no_region hr (Client.NoWrites.sent (k := k.start) hno _) (by rintro ⟨⟩)
  | openFails => exact .of_no_region hr (by simp [Client.NoWrites, Client.destroy]) (by rintro ⟨⟩)

/-- **A program makes its next call**: it maps and unmaps with no RDMA write posted, and commits
the region it has. -/
theorem MirrorInv.call (hm : MirrorInv k h c) {a b : App} (hat : k.At a.pc) {r : Result}
    (hresult : k.result = some r) {api : Api} (hgo : a.Goes k.size r b (some api))
    (hc : k.call o api = some k') : MirrorInv k' h c := by
  obtain ⟨-, hnext⟩ := hat.next hresult hgo
  have hcalled := (Client.call_called hc).2
  cases api with
  | rpmemOpen => exact hnext.elim
  | rpmemMap len =>
      have hno : k.NoWrites := hm.noWrites hnext.2.1
      cases hcalled with
      | maps =>
          exact .of_no_region hnext.2.1 (Client.NoWrites.sent (k := k.allocated len) hno _)
            (by rintro ⟨⟩)
      | mapFails | mapAllocates => exact .of_no_region rfl hno (by rintro ⟨⟩)
  | rpmemUnmap =>
      have hno : k.NoWrites := by
        refine hm.clean ?_
        rw [hresult]
        cases hgo with
        | unmaps => exact .inl rfl
        | committed => exact .inr rfl
      cases hcalled with
      | unmaps =>
          exact .of_no_region rfl
            (Client.NoWrites.sent (k := { k.start with region := false }) hno _) (by rintro ⟨⟩)
      | unmapFails => exact .of_no_region rfl hno (by rintro ⟨⟩)
  | rpmemCommit =>
      obtain ⟨⟨hregion, hlen, haddr, hmr, hkey, hremote, hbufs⟩, hpc, hres, hsq⟩ :=
        rpmemCommit_posts (Option.ite_none_right_eq_some.1 hc).2
      refine ⟨fun _ => ?_, fun hw => absurd hw hpc, fun w hw ra hop => ?_, fun hbad => ?_⟩
      · rw [Client.Mirrors, hremote, hlen, Client.buffer_congr haddr hbufs]
        exact hm.region hnext.1
      · have hargs : k'.rdmaArgs (k'.mr.getD 0) = k.rdmaArgs (k.mr.getD 0) := by
          simp only [Client.rdmaArgs, hkey, hmr, hremote, haddr, hlen]
        rw [hregion, hargs]
        refine ⟨hnext.1, ?_⟩
        rcases hsq w hw with hw | hsend | hwrite
        · exact (hm.writes w hw ra hop).2
        · cases hop.symm.trans hsend
        · exact WrOp.rdmaWrite.inj (hop.symm.trans hwrite)
      · rcases hres with hres | hres <;> rw [hres] at hbad <;> simp at hbad
  | rpmemClose =>
      cases hcalled with
      | closes =>
          refine hm.congr (by rintro ⟨⟩) rfl rfl rfl rfl rfl rfl rfl le_rfl (fun w hw => ?_)
            (.inr (.inr
              (by simp [Client.sent, Client.post, Client.pack, Client.postRecv, Client.start])))
            fun _ _ _ => id
          rcases List.mem_append.1 hw with hw | hw
          · exact .inl hw
          · rw [List.mem_singleton.1 hw]
            simp [WrOp.opcode]
      | closeFails =>
          refine hm.congr (by rintro ⟨⟩) rfl rfl rfl rfl rfl rfl rfl
            (by simp [Client.fetched, Client.destroy]) (by simp [Client.destroy])
            (.inr (.inr (by simp [Client.destroy]))) fun _ _ _ => id

/-- An action of the connection that is not the program's. -/
theorem MirrorInv.lib (hm : MirrorInv (s.sys.clients act.conn) s.sys.server.host act.conn)
    (hx : s.sys.Regions base) (hat : (s.sys.clients act.conn).At (s.app act.conn).pc)
    (hlen : (s.sys.clients act.conn).rmrLen.toNat < 2 ^ 31) (hlib : s.Lib act)
    (hst : s.sys.Stepped act y) : MirrorInv (y.clients act.conn) y.server.host act.conn := by
  by_cases hmv : act.moves = true
  · exact hm.moves hx hat hlen hst hmv
  cases hst with
  | connected c accepted established hpc hc =>
      have hopen : (s.app c).pc = .opening := hlib
      obtain ⟨-, hregion⟩ := hat.of_unopened hpc fun status => by
        simp only [Action.conn, hopen]
        simp
      have hno := hm.noWrites hregion
      simp only [Action.conn, Function.update_self]
      split_ifs
      · exact .of_no_region hregion hno (by rintro ⟨⟩)
      · exact .of_no_region hregion (by simp [Client.NoWrites, Client.destroy]) (by rintro ⟨⟩)
  | called c api o k hk =>
      obtain rfl : api = .rpmemOpen := hlib
      have hpc := (Option.ite_none_right_eq_some.1 hk).1
      simp only [System.setClient, Action.conn, Function.update_self]
      exact hm.open (hat.of_connected hpc).2.2 (Client.call_called hk).2
  | woken c o k hk =>
      simp only [System.setClient, Action.conn, Function.update_self]
      exact hm.wake hat (hx.tokens c) (hx.posted c) hk
  | written => exact hlib.elim
  | handled c o m hc hp hhandle =>
      obtain ⟨q, hq, hkind⟩ := (hx.tokens c).pending_kind hp
      by_cases hunmap : q = .unmapReq
      · subst hunmap
        obtain ⟨hcall, -, hregion, -⟩ := hat.of_waiting hq
        have hno := hregion (by rw [hcall]; simp [Wait.call])
        rw [hcall] at hno
        refine .of_no_region hno (hm.noWrites hno) fun hread => ?_
        cases hq.symm.trans hread
      · refine hm.congr (fun _ => rfl) rfl rfl rfl rfl rfl rfl rfl le_rfl (fun w hw => .inl hw)
          (.inl rfl) fun _ _ _ =>
            hm.holds_step hx.server hlen (.handled c o m hc hp hhandle) fun o' _ hk => ?_
        exact hunmap (Option.some.inj (hkind.symm.trans hk))
  | sent | fetched | stored | failed | flushed | recvFlushed | polled | delivered | lost
  | disconnected | cmHandled => exact absurd rfl hmv

/-- An action of another connection. -/
theorem MirrorInv.of_ne (hm : MirrorInv (x.clients c) x.server.host c) (hx : x.Regions base)
    (hlen : (x.clients c).rmrLen.toNat < 2 ^ 31) (hst : x.Stepped act y) (hc : c ≠ act.conn) :
    MirrorInv (y.clients c) y.server.host c := by
  rw [(System.step_frame hst hc).1]
  refine hm.congr (fun _ => rfl) rfl rfl rfl rfl rfl rfl rfl le_rfl (fun w hw => .inl hw) (.inl rfl)
    fun _ _ _ => hm.holds_step hx.server hlen hst fun o ha => ?_
  rw [ha] at hc
  exact absurd rfl hc

/-! ### The server's memory -/

/-- Every mapping the server has made holds what its file holds. -/
def Host.Copies (base : ℕ) (h : Host) : Prop :=
  ∀ m, base ≤ m → m < h.nextMap → h.store m = h.files (h.info m).fd

/-- A handler makes copies, and writes to none. -/
theorem Served.copies {o : Outcomes} {sv tv : Server} {kd : RspKind} {f : kd.Fields}
    {calls : List Call} (hserved : Served o sv c kd f tv calls) (hs : sv.host.Copies base)
    (hfiles : tv.host.files = sv.host.files) : tv.host.Copies base := by
  cases hserved with
  | opened | closed | mapRefused | unmapRefused | commitRefused => exact hs
  | committed ret host _ hsync =>
      obtain ⟨files, rfl⟩ := Host.msync_eq hsync
      obtain rfl : files = sv.host.files := hfiles
      exact hs
  | mapped r out _ _ hout =>
      obtain ⟨a, h₁, hmap, hcases⟩ := mapResource_cases o ((sv.postRecv c true).take c r) c r
        (wordField (sv.unit c).req.bytes)
      have h₁c : h₁.Copies base := by
        rcases Host.mmap_cases (h := sv.host) (sv.resource r).fd .priv
          (sizeT (wordField (sv.unit c).req.bytes)) o.mmap with he | ⟨x, -, he⟩ <;>
          obtain ⟨-, rfl⟩ := Prod.mk.inj (hmap.symm.trans he)
        · exact hs
        · intro m hm hlt
          simp only [Host.mapped] at hlt ⊢
          by_cases hnew : m = sv.host.nextMap
          · rw [hnew, Function.update_self, Function.update_self]
          · rw [Function.update_of_ne hnew, Function.update_of_ne hnew]
            exact hs m hm (by omega)
      rw [← hout]
      rcases hcases with ⟨ret, h₂, hun, he⟩ | ⟨rkey, -, he⟩ <;> rw [he]
      · obtain ⟨pages, rfl⟩ := Host.munmap_eq hun
        exact h₁c
      · exact h₁c
  | unmapped r mr out _ _ _ hout =>
      obtain ⟨ret, h₁, hun, he⟩ := unmapResource_cases o (sv.postRecv c true) c r mr
        (addrField (sv.unit c).req.bytes) (wordField (sv.unit c).req.bytes)
      obtain ⟨pages, rfl⟩ := Host.munmap_eq hun
      rw [← hout, he]
      split_ifs <;> exact hs

/-- No action of the programs writes to the server's memory. -/
theorem Host.Copies.step (hcop : x.server.host.Copies base) (hx : x.Commits base)
    (hpriv : x.server.host.Private base)
    (hlens : ∀ c, (x.clients c).rmrLen.toNat < 2 ^ 31)
    (hm : ∀ c, MirrorInv (x.clients c) x.server.host c) (hst : x.Stepped act y) :
    y.server.host.Copies base := by
  have hfiles := hst.files hx hpriv
  rcases System.step_server hst with hs | ⟨d, -, hs⟩ | ⟨d, u, hs, -⟩ |
    ⟨d, wr, sq, ra, host, -, hsq, hop, huse, hw, hs⟩ | ⟨d, o, m, rfl, -, -, hr, hs⟩ <;>
    rw [hs] at hfiles ⊢
  · exact hcop
  · exact hcop
  · exact hcop
  · have hhost := (hm d).stored_eq hx.regions.server.maps.pins (hlens d) hsq hop huse hw
    rw [hhost]
    exact hcop
  · rcases rpmemRcvCompletion_cases hr with
      ⟨-, hserver, -⟩ | ⟨kd, f, tv, calls, -, hserved, hserver, -⟩ <;>
      rw [hserver] at hfiles ⊢
    · exact hcop
    · have hpoll : (x.server.poll d).host.Copies base := hcop
      exact hserved.copies hpoll hfiles

/-- **What the server syncs for a program was in the file**: the range of a COMMIT lies behind a
registration, over pages of a mapping the server made. -/
theorem Host.Copies.syncsNothingNew (hcop : x.server.host.Copies base) (hx : x.Commits base)
    (hst : x.Stepped act y) : SyncsNothingNew x act := by
  cases hst with
  | connected | called | woken | written | sent | fetched | stored | failed | flushed | recvFlushed
  | polled | delivered | lost | disconnected | cmHandled => exact trivial
  | handled c o m hc hp hm =>
      intro hk _ hsync
      have hi := hx.regions.tokens c
      obtain ⟨q, hq, hkind⟩ := hi.pending_kind hp
      obtain rfl : q = .commitReq := Option.some.inj (hkind.symm.trans hk)
      have hcarry : (x.clients c).Carries := by
        have hregion := hx.regions.regions c
        unfold RegionInv at hregion
        rw [hq] at hregion
        exact hregion.1
      rw [hi.pending hp, hcarry.1, hcarry.2] at hsync ⊢
      obtain ⟨b, -, hheld⟩ := (hx.commits c).written hi hq hp
      have hcan : x.server.host.CanSync (x.clients c).remoteAddr (sizeT (x.clients c).mapLen) := by
        rcases Host.msync_cases (h := x.server.host) (x.clients c).remoteAddr
          (sizeT (x.clients c).mapLen) o.msync with he | ⟨hcan, -⟩
        · rw [he] at hsync
          cases hsync
        · exact hcan
      have hlen : (sizeT (x.clients c).mapLen).toNat = (x.clients c).mapLen.toNat :=
        sizeT_toNat (by have := hcan.2.1; omega)
      intro i hlt f hf
      rw [hlen] at hlt
      have hcount := le_pageCount (x.clients c).mapLen.toNat
      obtain ⟨n, hmade, hn, idx, hpage⟩ := hheld.pages hx.regions.server.maps.pins hcan.1
        (j := i / 4096) (by omega)
      have hpageOf : ((x.clients c).remoteAddr.toNat + i) / 4096 =
          pageOf (x.clients c).remoteAddr + i / 4096 := by
        have := hcan.1
        unfold pageOf
        omega
      rw [hpageOf, hpage] at hf
      obtain rfl := Option.mem_some_iff.1 hf
      rw [hcop n hmade hn]

/-! ### Runs -/

/-- The journal of the library's clients, kept for the programs. -/
def noteJournal (s : Apps) (l : AppLabel) (t : Apps) (g : Journal) : Journal :=
  match s.action l with
  | some a => Journal.note s.sys a t.sys g
  | none => g

/-- The invariants of the programs with their journal. -/
structure Apps.Kept (base : ℕ) (s : Apps) (g : Journal) : Prop where
  inv : s.Inv base
  journal : Journaled base s.sys g
  mirrors : ∀ c, MirrorInv (s.sys.clients c) s.sys.server.host c
  copies : s.sys.server.host.Copies base

/-- **One step keeps it all.** -/
theorem Apps.Kept.step {g : Journal} (hk : s.Kept base g) (hs : s.step lab = some t) :
    t.Kept base (noteJournal s lab t g) := by
  have hinv := (hk.inv.step hs).1
  have hx := hk.inv.regions
  have hlens := hk.journal.lens
  -- an action of the library within the rules
  have hact {a : Action} (hrules : Rules s.sys a) (he : s.sys.step a = some t.sys)
      (hnote : noteJournal s lab t g = Journal.note s.sys a t.sys g)
      (hmirror : MirrorInv (t.sys.clients a.conn) t.sys.server.host a.conn) :
      t.Kept base (noteJournal s lab t g) := by
    have hst := System.step_cases he
    refine ⟨hinv, ?_, fun c => ?_, ?_⟩
    · rw [hnote]
      exact hk.journal.step hrules.1 (hk.copies.syncsNothingNew hk.journal.commits hst) he
    · by_cases hc : c = a.conn
      · rw [hc]
        exact hmirror
      · exact (hk.mirrors c).of_ne hx (hlens c) hst hc
    · exact hk.copies.step hk.journal.commits hk.journal.isPrivate hlens hk.mirrors hst
  cases Apps.step_cases hs with
  | started => exact ⟨hinv, hk.journal, hk.mirrors, hk.copies⟩
  | exits c o r a result next =>
      have hnote : noteJournal s (.main c o) (s.setApp c a) g = g := by
        simp only [noteJournal, Apps.action, result, next.next_eq]
      rw [hnote]
      exact ⟨hinv, hk.journal, hk.mirrors, hk.copies⟩
  | calls c o r a api sys result next call =>
      refine hact (hk.inv.rules_call result next) call ?_ ?_
      · simp only [noteJournal, Apps.action, result, next.next_eq]
      · obtain ⟨k', hk', rfl⟩ := Option.map_eq_some_iff.1 call
        simp only [System.setClient, Action.conn, Function.update_self]
        exact (hk.mirrors c).call (hk.inv.apps c).client result next hk'
  | lib a sys hlib hsys =>
      have hst := System.step_cases hsys
      refine hact (hk.inv.rules_lib hlib hst) hsys rfl ?_
      exact (hk.mirrors a.conn).lib hx (hk.inv.apps a.conn).client (hlens a.conn) hlib hst

/-- **The commits of the programs are durable.**  Over any interleaving of any number of the
programs, with any failures: every mapping of the server holds what its file holds; a
`rpmem_commit` that returned `0` finds its buffer, as it was when it was called, in the file of
its resource; and a `rpmem_map` that returned a region was given, at every offset, the byte of
the last commit to that file that returned `0`, or of the file as it was. -/
theorem programs_commit_durably {q : Apps × Journal}
    (hreach : Lts.Reachable (Lts.noted Apps.step noteJournal) Lts.anyLabel
      (fun q => q.1.InitialAt base ∧ q.2 = Journal.initial q.1.sys) q) :
    q.1.sys.server.host.Copies base ∧ ∀ c, Durable q.1.sys q.2 c := by
  have hkept : q.1.Kept base q.2 := by
    refine hreach.invariant (I := fun q => q.1.Kept base q.2) ?_ ?_
    · intro q hq
      have hjournal : Journal.InitialAt base (q.1.sys, q.2) := ⟨hq.1.sys, hq.2⟩
      refine ⟨hq.1.inv, hjournal.journaled, fun c => ?_, fun m hm hlt => ?_⟩
      · rw [hq.1.sys.initial.clients c]
        exact .of_no_region rfl (by simp [Client.NoWrites, Client.fresh]) (by rintro ⟨⟩)
      · rw [hq.1.sys.server.nextMap] at hlt
        omega
    · intro q l q' hq _ hs
      obtain ⟨hstep, hnote⟩ := Lts.noted_eq_some hs
      rw [hnote]
      exact hq.step hstep
  exact ⟨hkept.copies, hkept.journal.kept⟩

/-- `simple_commit` on a file of zeros, when its `rpmem_commit` has returned: the server has one
mapping, and commits 7168 bytes. -/
theorem programs_commit_durably_zeros :
    ∃ q : Apps × Journal, Lts.Reachable (Lts.noted Apps.step noteJournal) Lts.anyLabel
        (fun q => q.1.InitialAt 1 ∧ q.2 = Journal.initial q.1.sys) q ∧
      ((q.1.sys.clients 0).result = some (.committed 0) ∧ (q.1.sys.clients 0).rmrLen = 7168 ∧
        q.1.sys.server.host.nextMap = 2) ∧
      q.1.sys.server.host.Copies 1 ∧ ∀ c, Durable q.1.sys q.2 c := by
  obtain ⟨q, hq, htest⟩ := Lts.exists_reachable_of_exec (Lts.noted Apps.step noteJournal)
    Lts.anyLabel (fun q => q.1.InitialAt 1 ∧ q.2 = Journal.initial q.1.sys)
    (s := (Apps.all .simpleCommit, Journal.initial (Apps.all .simpleCommit).sys))
    ⟨Apps.all_initialAt _, rfl⟩ (Apps.opens 0 ++ Apps.maps 0 ++ Apps.commits 0)
    (fun q => decide ((q.1.sys.clients 0).result = some (.committed 0) ∧
      (q.1.sys.clients 0).rmrLen = 7168 ∧ q.1.sys.server.host.nextMap = 2)) (by decide)
  exact ⟨q, hq, of_decide_eq_true htest, programs_commit_durably hq⟩

/-! ### No client changes a file -/

/-- **No file ever changes.**  Over any calls of any number of clients of the library, in any
order, whatever they write to their regions and whatever fails, the files behind the server's
resources stay as they were: `rpmem_commit` returns `0` and makes nothing durable. -/
theorem files_never_change {labels : List Action}
    (hrun : Lts.Run System.step Lts.anyLabel x labels y) (hx : x.InitialAt base) :
    y.server.host.files = x.server.host.files := by
  refine (hrun.invariant (I := fun y => y.Commits base ∧ y.server.host.Private base ∧
    y.server.host.files = x.server.host.files) ?_ ⟨hx.commits, fun m hm hlt => ?_, rfl⟩).2.2
  · intro y a z ⟨hcommits, hpriv, hfiles⟩ _ he
    have hst := System.step_cases he
    exact ⟨hcommits.step he, hst.isPrivate hpriv, (hst.files hcommits hpriv).trans hfiles⟩
  · rw [hx.server.nextMap] at hlt
    omega

/-- A client writes 42 to its region of a file of zeros and commits it with success. -/
theorem files_never_change_committed :
    ∃ x labels y, Lts.Run System.step Lts.anyLabel x labels y ∧ System.InitialAt 1 x ∧
      (y.clients 0).result = some (.committed 0) ∧
      y.server.host.files = x.server.host.files := by
  obtain ⟨y, hrun, htest⟩ := Lts.exists_run_of_exec System.step Lts.anyLabel
    (s := System.oneResource fun _ _ => 0)
    (l := System.opens 0 ++ System.maps 0 8 0x7f0000000000 17 ++ [.write 0 fun _ => 42] ++
      [.call 0 .rpmemCommit .allOk] ++ System.committed 0)
    (p := fun y => decide ((y.clients 0).result = some (.committed 0))) (by decide)
  exact ⟨_, _, y, hrun, System.oneResource_initialAt _, of_decide_eq_true htest,
    files_never_change hrun (System.oneResource_initialAt _)⟩

end Rpmem
