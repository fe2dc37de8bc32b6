/-
# Whether a commit reaches the file

The server maps its files with `MAP_PRIVATE`.  What a commit writes and syncs is the
server's own copy of the pages, and the file is never changed by anything
(`System.Stepped.files`).

`Journal` says what should have happened: beside the system it keeps, for every
file, the bytes of the last commit that returned `0`, and what the buffers held at
each commit and after each map.  `Durable` is that the file has what was committed,
and that a map reads it back.  It holds in every state of a run in which nothing new
is ever synced (`SyncsNothingNew`); bytes that are new when they are synced are lost
(`committed_bytes_are_lost`).
-/

import Rpmem.Network.Commit

namespace Rpmem

open Paging

/-- What `rmr->addr` points to. -/
def Client.buffer (k : Client) (i : ℕ) : UInt8 :=
  match k.rmrAddr with
  | some b => k.bufs b i
  | none => 0

/-- What the clients have been promised.  By connection: the buffer when it last
called `rpmem_commit`, the resource the server claimed for its last MAP, and the
buffer when its last `rpmem_map` returned a region.  By file and offset: the byte of
the last commit that returned `0`, or of the file as it was. -/
structure Journal where
  committing : ConnId → ℕ → UInt8
  claimed : ConnId → Option ResId
  fetched : ConnId → ℕ → UInt8
  durable : ℕ → ℕ → UInt8

/-- Before anything was committed. -/
def Journal.initial (x : System) : Journal where
  committing := fun _ _ => 0
  claimed := fun _ => none
  fetched := fun _ _ => 0
  durable := x.server.host.files

/-- The resource the server claims for the MAP it handles next on `c`. -/
def Server.claims (s : Server) (c : ConnId) (o : Outcomes) : Option ResId :=
  if o.postRecv then s.fit (wordField (s.unit c).req.bytes) else none

/-- The commit of `c` has returned `0`: `n` bytes of its buffer are promised. -/
def Journal.commit (g : Journal) (c : ConnId) (fd n : ℕ) : Journal :=
  let bytes := fun i => if i < n then g.committing c i else g.durable fd i
  { g with durable := Function.update g.durable fd bytes }

/-- The journal after the action `a` from `x` to `y`. -/
def Journal.note (x : System) (a : Action) (y : System) (g : Journal) : Journal :=
  match a with
  | .call c .rpmemCommit _ =>
      { g with committing := Function.update g.committing c (x.clients c).buffer }
  | .handle c o =>
      if requestKind (x.server.unit c).req.bytes = some .mapReq then
        { g with claimed := Function.update g.claimed c (x.server.claims c o) }
      else g
  | .wake c _ =>
      if (y.clients c).result = some (.mapped true) then
        { g with fetched := Function.update g.fetched c (y.clients c).buffer }
      else if (y.clients c).result = some (.committed 0) then
        match g.claimed c with
        | some r => g.commit c (x.server.resource r).fd (y.clients c).rmrLen.toNat
        | none => g
      else g
  | _ => g

/-- A connection whose last call was a `rpmem_commit` that returned `0` finds what it
committed in the file of its resource; one whose last call was a `rpmem_map` that
returned a region was given what had been committed to that file. -/
structure Durable (x : System) (g : Journal) (c : ConnId) : Prop where
  file : (x.clients c).result = some (.committed 0) → ∀ r, g.claimed c = some r →
    ∀ i < (x.clients c).rmrLen.toNat,
      x.server.host.files (x.server.resource r).fd i = g.committing c i
  read : (x.clients c).result = some (.mapped true) → ∀ r, g.claimed c = some r →
    ∀ i < (x.clients c).rmrLen.toNat, g.fetched c i = g.durable (x.server.resource r).fd i

/-- The library is used as documented: `rpmem_map` without a region and for
`0 < len < 2^31` bytes, `rpmem_commit` and `rpmem_unmap` with one. -/
def Documented (x : System) : Action → Prop
  | .call c (.rpmemMap len) _ =>
      (x.clients c).region = false ∧ 0 < len.toNat ∧ len.toNat < 2 ^ 31
  | .call c .rpmemCommit _ | .call c .rpmemUnmap _ => (x.clients c).region = true
  | _ => True

/-- The server's memory in the range holds what the files behind its pages hold. -/
def Host.Clean (h : Host) (addr len : BitVec 64) : Prop :=
  ∀ i < len.toNat, ∀ f ∈ h.pages ((addr.toNat + i) / 4096),
    h.store f.map (f.idx * 4096 + (addr.toNat + i) % 4096) =
      h.files (h.info f.map).fd (f.idx * 4096 + (addr.toNat + i) % 4096)

/-- Whatever the server syncs was in the file already. -/
def SyncsNothingNew (x : System) : Action → Prop
  | .handle c o =>
      requestKind (x.server.unit c).req.bytes = some .commitReq → o.postRecv = true →
        (x.server.host.msync (addrField (x.server.unit c).req.bytes)
          (sizeT (wordField (x.server.unit c).req.bytes)) o.msync).1 = 0 →
        x.server.host.Clean (addrField (x.server.unit c).req.bytes)
          (sizeT (wordField (x.server.unit c).req.bytes))
  | _ => True

instance (x : System) : (a : Action) → Decidable (Documented x a)
  | .call _ (.rpmemMap _) _ => inferInstanceAs (Decidable (_ ∧ _ ∧ _))
  | .call _ .rpmemCommit _ | .call _ .rpmemUnmap _ => inferInstanceAs (Decidable (_ = _))
  | .call _ .rpmemOpen _ | .call _ .rpmemClose _ | .connect _ _ _ | .wake _ _ | .write _ _
  | .exec _ _ | .flushRecv _ | .poll _ | .handle _ _ | .deliver _ _ | .disconnect _ | .cmEvent _ =>
      isTrue trivial

instance (h : Host) (addr len : BitVec 64) : Decidable (h.Clean addr len) :=
  inferInstanceAs (Decidable (∀ i < len.toNat, ∀ f ∈ _, _ = _))

instance (x : System) : (a : Action) → Decidable (SyncsNothingNew x a)
  | .handle _ _ => inferInstanceAs (Decidable (_ → _ → _ → _))
  | .connect _ _ _ | .call _ _ _ | .wake _ _ | .write _ _ | .exec _ _ | .flushRecv _ | .poll _
  | .deliver _ _ | .disconnect _ | .cmEvent _ => isTrue trivial

variable {base : ℕ} {c d : ConnId} {o : Outcomes} {s t : Server} {k k' : Client} {x y : System}
  {a : Action} {g : Journal}

/-! ### The files never change -/

/-- Every mapping the server makes is private. -/
def Host.Private (base : ℕ) (h : Host) : Prop :=
  ∀ m, base ≤ m → m < h.nextMap → (h.info m).flag = .priv

/-- Syncing private pages writes nothing. -/
theorem Host.syncFiles_eq {h : Host} {first n : ℕ}
    (hp : ∀ j < n, ∀ f, h.pages (first + j) = some f → (h.info f.map).flag = .priv) :
    h.syncFiles first n = h.files := by
  induction n with
  | zero => rfl
  | succ n ih =>
      have hrest := ih fun j hj => hp j (by omega)
      funext fd i
      simp only [Host.syncFiles]
      split
      · rename_i f hf
        have hflag := hp n (Nat.lt_succ_self n) f hf
        rw [if_neg, hrest]
        rintro ⟨hshared, -⟩
        rw [hshared] at hflag
        cases hflag
      · rw [hrest]

/-- A handler makes private mappings only. -/
theorem Served.isPrivate {kd : RspKind} {f : kd.Fields} {calls : List Call}
    (h : Served o s c kd f t calls) (hs : s.host.Private base) : t.host.Private base := by
  cases h with
  | opened | closed | mapRefused | unmapRefused | commitRefused => exact hs
  | committed ret host _ hsync =>
      obtain ⟨files, rfl⟩ := Host.msync_eq hsync
      exact hs
  | mapped r out _ _ hout =>
      obtain ⟨a, h₁, hmap, hcases⟩ := mapResource_cases o ((s.postRecv c true).take c r) c r
        (wordField (s.unit c).req.bytes)
      have h₁p : h₁.Private base := by
        rcases Host.mmap_cases (h := s.host) (s.resource r).fd .priv
          (sizeT (wordField (s.unit c).req.bytes)) o.mmap with he | ⟨x, -, he⟩ <;>
          obtain ⟨-, rfl⟩ := Prod.mk.inj (hmap.symm.trans he)
        · exact hs
        · intro m hm hlt
          simp only [Host.mapped] at hlt ⊢
          by_cases hnew : m = s.host.nextMap
          · rw [hnew, Function.update_self]
          · rw [Function.update_of_ne hnew]
            exact hs m hm (by omega)
      rw [← hout]
      rcases hcases with ⟨ret, h₂, hun, he⟩ | ⟨rkey, -, he⟩ <;> rw [he]
      · obtain ⟨pages, rfl⟩ := Host.munmap_eq hun
        exact h₁p
      · exact h₁p
  | unmapped r mr out _ _ _ hout =>
      obtain ⟨ret, h₁, hun, he⟩ := unmapResource_cases o (s.postRecv c true) c r mr
        (addrField (s.unit c).req.bytes) (wordField (s.unit c).req.bytes)
      obtain ⟨pages, rfl⟩ := Host.munmap_eq hun
      rw [← hout, he]
      split_ifs <;> exact hs

theorem System.Stepped.isPrivate (hst : x.Stepped a y) (h : x.server.host.Private base) :
    y.server.host.Private base := by
  rcases System.step_server hst with hs | ⟨d, -, hs⟩ | ⟨d, u, hs, -⟩ |
    ⟨d, wr, sq, ra, host, -, -, -, -, hw, hs⟩ | ⟨d, o, r, rfl, -, -, hr, hs⟩ <;> rw [hs]
  · exact h
  · exact h
  · exact h
  · obtain ⟨q, -, m, -, -, rfl⟩ := Host.rdmaWrite_cases hw
    exact h
  · rcases rpmemRcvCompletion_cases hr with ⟨-, hserver, -⟩ | ⟨kd, f, t, calls, -, ht, hserver, -⟩ <;>
      rw [hserver]
    · exact h
    · exact ht.isPrivate (s := x.server.poll d) h

/-- The file behind a resource stays the same. -/
theorem System.Stepped.fd (hst : x.Stepped a y) (r : ResId) :
    (y.server.resource r).fd = (x.server.resource r).fd := by
  rcases System.step_server hst with hs | ⟨d, -, hs⟩ | ⟨d, u, hs, -⟩ |
    ⟨d, wr, sq, ra, host, -, -, -, -, -, hs⟩ | ⟨d, o, m, rfl, -, -, hr, hs⟩ <;> rw [hs]
  · rfl
  · rfl
  · rcases rpmemRcvCompletion_cases hr with ⟨-, hserver, -⟩ | ⟨kd, f, t, calls, -, ht, hserver, -⟩ <;>
      rw [hserver]
    · rfl
    · exact (ht.resource_static r).1

/-- The pages of a range behind a registration belong to its mapping. -/
theorem Host.Holds.pages {h : Host} (hi : h.PinInv base) {addr : BitVec 64} {len : ℕ}
    {data : ℕ → UInt8} (hh : h.Holds c addr len data) (ha : addr.toNat % 4096 = 0) {j : ℕ}
    (hj : j < pageCount len) :
    ∃ m, base ≤ m ∧ m < h.nextMap ∧ ∃ idx, h.pages (pageOf addr + j) = some ⟨m, idx⟩ := by
  obtain ⟨q, hq, m, -, hm, hlo, hhi, -⟩ := hh
  have hpin := hi.pinned q hq m hm
  have haligned := hpin.aligned
  have hpage := hpin.maps (pageOf addr + j - pageOf q.addr) (by
    unfold pageOf pageCount at *
    omega)
  rw [show pageOf q.addr + (pageOf addr + j - pageOf q.addr) = pageOf addr + j by
    unfold pageOf
    omega] at hpage
  exact ⟨m, hpin.made, hpin.lt, _, hpage⟩

/-- A handler other than the one for COMMIT has nothing to do with the files. -/
theorem Served.files {kd : RspKind} {f : kd.Fields} {calls : List Call}
    (h : Served o s c kd f t calls) (hk : kd ≠ .commitRsp) : t.host.files = s.host.files := by
  cases h with
  | opened | closed | mapRefused | unmapRefused => rfl
  | commitRefused | committed => exact absurd rfl hk
  | mapped r out _ _ hout =>
      obtain ⟨a, h₁, hmap, hcases⟩ := mapResource_cases o ((s.postRecv c true).take c r) c r
        (wordField (s.unit c).req.bytes)
      have hfiles : h₁.files = s.host.files := by
        rcases Host.mmap_cases (h := s.host) (s.resource r).fd .priv
          (sizeT (wordField (s.unit c).req.bytes)) o.mmap with he | ⟨x, -, he⟩ <;>
          obtain ⟨-, rfl⟩ := Prod.mk.inj (hmap.symm.trans he) <;> rfl
      rw [← hout]
      rcases hcases with ⟨ret, h₂, hun, he⟩ | ⟨rkey, -, he⟩ <;> rw [he]
      · obtain ⟨pages, rfl⟩ := Host.munmap_eq hun
        exact hfiles
      · exact hfiles
  | unmapped r mr out _ _ _ hout =>
      obtain ⟨ret, h₁, hun, he⟩ := unmapResource_cases o (s.postRecv c true) c r mr
        (addrField (s.unit c).req.bytes) (wordField (s.unit c).req.bytes)
      obtain ⟨pages, rfl⟩ := Host.munmap_eq hun
      rw [← hout, he]
      split_ifs <;> rfl

theorem sizeT_toNat {len : CInt} (h : (sizeT len).toNat ≤ taskSize) :
    (sizeT len).toNat = len.toNat := by
  have hint := BitVec.toInt_eq_toNat_cond len
  simp only [taskSize] at h
  rcases sizeT_cases len with ⟨hpos, heq, -⟩ | ⟨-, hbig⟩
  · split_ifs at hint <;> omega
  · omega

/-- The COMMIT of a client that wrote through its registration syncs private pages. -/
theorem CommitInv.files (h : CommitInv k s c) (hs : s.Inv base) (hi : ConnInv k (s.unit c))
    (hr : RegionInv k s c) (hp : s.host.Private base) (hpc : k.pc = .waiting (.rsp .commitReq))
    (hpend : 0 < (s.unit c).pending) {m : Handled} (hm : s.handle c o = .ok m) :
    m.server.host.files = s.host.files := by
  rcases commit_handle_cases hi hr hpc hpend hm with ⟨hhost, -⟩ | ⟨ret, host, -, hsync, hhost, -⟩
  · rw [hhost]
  rw [hhost]
  rcases Host.msync_cases (h := s.host) k.remoteAddr (sizeT k.mapLen) o.msync with he | ⟨hc, he⟩ <;>
    obtain ⟨-, rfl⟩ := Prod.mk.inj (hsync.symm.trans he)
  · rfl
  obtain ⟨b, -, hheld⟩ := h.written hi hpc hpend
  have hlen : (sizeT k.mapLen).toNat = k.mapLen.toNat := sizeT_toNat (by have := hc.2.1; omega)
  refine Host.syncFiles_eq fun j hj f hf => ?_
  rw [pagesOf, hlen] at hj
  obtain ⟨i, hmade, hlt, idx, hpage⟩ := hheld.pages hs.maps.pins hc.1 hj
  rw [hpage] at hf
  cases hf
  exact hp i hmade hlt

/-- **No commit changes a file.** -/
theorem System.Stepped.files (hst : x.Stepped a y) (h : x.Commits base)
    (hp : x.server.host.Private base) : y.server.host.files = x.server.host.files := by
  rcases System.step_server hst with hs | ⟨d, -, hs⟩ | ⟨d, u, hs, -⟩ |
    ⟨d, wr, sq, ra, host, -, -, -, -, hw, hs⟩ | ⟨d, o, m, rfl, -, hpend, hr, hs⟩ <;> rw [hs]
  · rfl
  · rfl
  · obtain ⟨q, -, m, -, -, rfl⟩ := Host.rdmaWrite_cases hw
    rfl
  · have hi := h.regions.tokens d
    obtain ⟨q, hq, hkind⟩ := hi.pending_kind hpend
    by_cases hcommit : q = .commitReq
    · subst hcommit
      exact (h.commits d).files h.regions.server hi (h.regions.regions d) hp hq hpend hr
    · obtain ⟨f, t, calls, ht, hserver, -⟩ := Server.handle_served hr hkind
      rw [hserver]
      refine ht.files (s := x.server.poll d) fun hrsp => hcommit ?_
      cases q <;> first | rfl | cases hrsp

/-! ### The mapping behind a region -/

/-- A registration of `c` is `len` bytes at `addr`, over a mapping of the file `fd`. -/
def Host.Backed (h : Host) (c : ConnId) (fd : ℕ) (addr : BitVec 64) (len : ℕ) : Prop :=
  ∃ q ∈ h.mrs, ∃ m, q.pd = c ∧ q.map = some m ∧ q.addr = addr ∧ q.len = len ∧ (h.info m).fd = fd

/-- It stays, through everything but UNMAPs of `c`. -/
theorem Host.Backed.step (hst : x.Stepped a y) (h : x.server.Inv base) {fd : ℕ}
    {addr : BitVec 64} {len : ℕ} (hb : x.server.host.Backed c fd addr len)
    (hunmap : ∀ o, a = .handle c o → requestKind (x.server.unit c).req.bytes ≠ some .unmapReq) :
    y.server.host.Backed c fd addr len := by
  obtain ⟨q, hq, m, rfl, hm, haddr, hlen, hfd⟩ := hb
  obtain ⟨hmem, hinfo, -⟩ := hst.keeps h hq hm hunmap
  exact ⟨q, hmem, m, rfl, hm, haddr, hlen, by rw [hinfo, hfd]⟩

/-- What a sync finds in a clean range of such a registration is the file. -/
theorem Host.Backed.byteAt {h : Host} (hi : h.PinInv base) {fd : ℕ} {addr len : BitVec 64}
    (hb : h.Backed c fd addr len.toNat) (hclean : h.Clean addr len) {i : ℕ} (hlt : i < len.toNat) :
    h.byteAt (addr.toNat + i) = some (h.files fd i) := by
  obtain ⟨q, hq, m, -, hm, rfl, hlen, rfl⟩ := hb
  have hpin := hi.pinned q hq m hm
  have haligned := hpin.aligned
  have hcount := le_pageCount q.len
  have hpage := hpin.maps (i / 4096) (by omega)
  have hp : (q.addr.toNat + i) / 4096 = pageOf q.addr + i / 4096 := by
    unfold pageOf
    omega
  have ho : i / 4096 * 4096 + (q.addr.toNat + i) % 4096 = i := by omega
  have hbyte := hclean i hlt ⟨m, i / 4096⟩ (by rw [hp, hpage]; rfl)
  simp only [ho] at hbyte
  rw [Host.byteAt, Paging.byteAt, hp, hpage, Option.map_some, ho, hbyte]

/-- What an RDMA read fetches is there. -/
theorem Host.holds_of_rdmaRead {h : Host} {rkey : BitVec 32} {raddr : BitVec 64} {len : ℕ}
    {data : ℕ → UInt8} (hr : h.rdmaRead c rkey raddr len = some data) : h.Holds c raddr len data := by
  obtain ⟨q, hq, m, ⟨hpd, -, hlo, hhi⟩, hm, rfl⟩ := Host.rdmaRead_cases hr
  exact ⟨q, hq, m, hpd, hm, hlo, hhi, fun i _ => rfl⟩

/-- A MAP that the server grants leaves a registration over a fresh copy of the file
at the address it answers, if that is not `NULL`. -/
theorem Served.backed {f : RspKind.mapRsp.Fields} {calls : List Call}
    (h : Served o s c .mapRsp f t calls) (hs : s.Inv base) {r : ResId}
    (hr : o.postRecv = true) (hfit : s.fit (wordField (s.unit c).req.bytes) = some r)
    (hne : f.2 ≠ 0) :
    t.host.Backed c (t.resource r).fd f.2 (sizeT (wordField (s.unit c).req.bytes)).toNat ∧
      t.host.Holds c f.2 (sizeT (wordField (s.unit c).req.bytes)).toNat
        (t.host.files (t.resource r).fd) := by
  cases h with
  | mapRefused hno =>
      rw [(hno hr).1] at hfit
      cases hfit
  | mapped r' m _ hfit' hm =>
      obtain rfl : r' = r := Option.some.inj (hfit'.symm.trans hfit)
      obtain ⟨a, h₁, hmap, ⟨ret, h₂, -, hout⟩ | ⟨rkey, -, hout⟩⟩ := mapResource_cases o
        ((s.postRecv c true).take c r') c r' (wordField (s.unit c).req.bytes) <;>
        obtain rfl := hm.symm.trans hout
      · exact absurd rfl hne
      rcases Host.mmap_cases (h := s.host) (s.resource r').fd .priv
        (sizeT (wordField (s.unit c).req.bytes)) o.mmap with he | ⟨x, hcan, he⟩ <;>
        obtain ⟨rfl, rfl⟩ := Prod.mk.inj (hmap.symm.trans he)
      · exact absurd rfl hne
      obtain ⟨hqm, -, -⟩ := hs.maps.pins.registration_mapped (s.resource r').fd .priv hcan c rkey
      refine ⟨⟨_, List.mem_cons_self, _, rfl, hqm, rfl, rfl, ?_⟩,
        ⟨_, List.mem_cons_self, _, rfl, hqm, le_rfl, le_rfl, fun i _ => ?_⟩⟩
      · simp [Host.mapped]
      · simp [Host.mapped, Host.registration]

/-! ### The journal and the calls in progress -/

/-- What the journal means while a call is in progress, for the resource `r` of the
connection's last MAP: an answered MAP names a fresh copy of the file, and its RDMA
read fetches the file; a region lies over a mapping of the file; and a COMMIT answered
with `0` committed what was in the file. -/
def Traced (k : Client) (s : Server) (c : ConnId) (g : Journal) : Prop :=
  ∀ r, g.claimed c = some r →
    match k.pc with
    | .waiting (.rsp .mapReq) =>
        0 < responsesUnderWay k (s.unit c) → addrField (s.unit c).rsp.bytes ≠ 0 →
          s.host.Backed c (s.resource r).fd (addrField (s.unit c).rsp.bytes) k.rmrLen.toNat ∧
            s.host.Holds c (addrField (s.unit c).rsp.bytes) k.rmrLen.toNat
              (s.host.files (s.resource r).fd)
    | .waiting .read =>
        k.sq <:+ k.awaited ∧
          (k.remoteAddr ≠ 0 → s.host.Backed c (s.resource r).fd k.remoteAddr k.rmrLen.toNat ∧
            s.host.Holds c k.remoteAddr k.rmrLen.toNat (s.host.files (s.resource r).fd)) ∧
          (0 < k.fetched → ∀ i < k.rmrLen.toNat, k.buffer i = s.host.files (s.resource r).fd i)
    | .waiting (.rsp .unmapReq) => k.region = false
    | .waiting (.rsp .commitReq) =>
        s.host.Backed c (s.resource r).fd k.remoteAddr k.rmrLen.toNat ∧
          g.committing c = k.buffer ∧
          (0 < responsesUnderWay k (s.unit c) → wordField (s.unit c).rsp.bytes = 0 →
            ∀ i < k.rmrLen.toNat, s.host.files (s.resource r).fd i = k.buffer i)
    | _ => k.region = true → s.host.Backed c (s.resource r).fd k.remoteAddr k.rmrLen.toNat

/-- An RDMA write in the send queue would change what the call in progress relies on. -/
def Client.Reads (k : Client) (u : ServerUnit) : Prop :=
  k.pc = .waiting (.rsp .mapReq) ∧ 0 < responsesUnderWay k u ∨ k.pc = .waiting .read

theorem Client.buffer_congr (hbuf : k'.rmrAddr = k.rmrAddr) (hbufs : k'.bufs = k.bufs) :
    k'.buffer = k.buffer := by
  funext i
  rw [Client.buffer, Client.buffer, hbuf, hbufs]

/-- A message moved, and the mapping is as before. -/
theorem Traced.moved (h : Traced k s c g) (hm : Moved k k' (s.unit c) (t.unit c))
    (hsq : k.pc = .waiting .read → k.sq <:+ k.awaited → k'.sq <:+ k'.awaited)
    (hfd : ∀ r, (t.resource r).fd = (s.resource r).fd) (hfiles : t.host.files = s.host.files)
    (hbacked : ∀ fd addr len, s.host.Backed c fd addr len → t.host.Backed c fd addr len)
    (hholds : k.Reads (s.unit c) → ∀ addr len data, s.host.Holds c addr len data →
      t.host.Holds c addr len data) : Traced k' t c g := by
  have hbuf : k'.buffer = k.buffer := Client.buffer_congr hm.rmrAddr hm.bufs
  have hrsp := hm.responses
  have hfet := hm.fetched
  intro r hr
  have hc := h r hr
  rw [hm.pc, hfd, hfiles, hm.rmrLen, hm.remoteAddr, hm.rsp, hm.region, hbuf]
  split at hc
  · rename_i hpc
    intro hpos hne
    obtain ⟨h1, h2⟩ := hc (by omega) hne
    exact ⟨hbacked _ _ _ h1, hholds (.inl ⟨hpc, by omega⟩) _ _ _ h2⟩
  · rename_i hpc
    refine ⟨hsq hpc hc.1, fun hne => ?_, fun hpos => hc.2.2 (by omega)⟩
    obtain ⟨h1, h2⟩ := hc.2.1 hne
    exact ⟨hbacked _ _ _ h1, hholds (.inr hpc) _ _ _ h2⟩
  · exact hc
  · exact ⟨hbacked _ _ _ hc.1, hc.2.1, fun hpos hz => hc.2.2 (by omega) hz⟩
  · exact fun hreg => hbacked _ _ _ (hc hreg)

/-- A call keeps the meaning of the journal. -/
theorem Traced.call (h : Traced k s c g) (hi : ConnInv k (s.unit c)) {g' : Journal}
    {co : ClientOutcomes} {api : Api}
    (hmap : ∀ len, api = .rpmemMap len → k.region = false)
    (hcommit : api = .rpmemCommit → k.region = true ∧ g'.committing c = k.buffer)
    (hclaimed : g'.claimed c = g.claimed c) (hc : k.call co api = some k') : Traced k' s c g' := by
  obtain ⟨hpc, hcalled⟩ := Client.call_called hc
  have hquiet : responsesUnderWay k (s.unit c) = 0 := hi.responses_eq_zero_of_call hc
  intro r hr
  rw [hclaimed] at hr
  have hback : k.region = true → s.host.Backed c (s.resource r).fd k.remoteAddr k.rmrLen.toNat := by
    have := h r hr
    rcases hpc with hp | hp <;> simpa [hp] using this
  cases hcalled with
  | opens | closes | openFails | closeFails | commitFails => exact hback
  | maps len =>
      intro hpos
      have hz : 0 < responsesUnderWay k (s.unit c) := hpos
      omega
  | mapFails | mapAllocates | unmapFails =>
      intro hk
      cases hk
  | unmaps => rfl
  | commits =>
      obtain ⟨hregion, hcom⟩ := hcommit rfl
      refine ⟨hback hregion, hcom, fun hpos => ?_⟩
      have hz : 0 < responsesUnderWay k (s.unit c) := hpos
      omega

/-- A wake-up keeps the meaning of the journal. -/
theorem Traced.wake (h : Traced k s c g) (hi : ConnInv k (s.unit c)) (hp : k.Posted)
    (hreg : RegionInv k s c) {g' : Journal} {co : ClientOutcomes}
    (hclaimed : g'.claimed c = g.claimed c) (hw : k.wake co = some k') : Traced k' s c g' := by
  intro r hr
  rw [hclaimed] at hr
  have hc := h r hr
  unfold RegionInv at hreg
  cases hi.woken hw with
  | opened pc =>
      rw [pc] at hc
      exact hc
  | closed pc =>
      rw [pc] at hc
      exact hc
  | committed pc =>
      rw [pc] at hc
      exact fun _ => hc.1
  | unmapped id pc =>
      rw [pc] at hc
      intro hk
      have hno : k.region = false := hc
      have hyes : k.region = true := hk
      rw [hno] at hyes
      cases hyes
  | reads id pc ha hmr =>
      rw [pc] at hc
      have hnil : k.sq = [] := hp.sq_eq_nil pc ha.quiet.sends
      refine ⟨?_, fun hne => ?_, fun hfet => ?_⟩
      · simp [Client.awaited, Client.post, Client.rdmaArgs, hnil, hmr]
      · have hfresh := hc ha.answered
        rw [← ha.rsp] at hfresh
        exact hfresh hne
      · -- the RDMA read has only been posted
        exact absurd hfet (Nat.not_lt.2 ha.fetched_eq_zero.le)
  | mapFails id pc =>
      intro hk
      cases hk
  | fetched pc there =>
      rw [pc] at hc hreg
      exact fun _ => (hc.2.1 (hreg.2 there)).1

/-- What the RDMA read of `rpmem_map` fetches is the file. -/
theorem Traced.fetch (h : Traced k s c g) (hs : s.Inv base) (hi : ConnInv k (s.unit c))
    (hp : k.Posted) (hlen : k.rmrLen.toNat < 2 ^ 31) {wr : Wr} {sq : List Wr}
    (hsq : k.sq = wr :: sq) {ra : RdmaArgs} (hop : wr.op = .rdmaRead ra) (huse : k.CanUse ra)
    {data : ℕ → UInt8}
    (hread : s.host.rdmaRead c ra.rkey ra.remoteAddr ra.len.toNat = some data) :
    Traced ((k.place ra data).complete wr sq .success) s c g := by
  have hpc := hi.reading hsq hop
  obtain ⟨rfl, rfl⟩ := hp.read hi hsq hop
  have hdata := Host.holds_of_rdmaRead hread
  obtain ⟨q, hq, m, hcov, hqm, -⟩ := Host.rdmaRead_cases hread
  have hne : k.remoteAddr ≠ 0 := hs.maps.pins.remote_ne_zero hq hqm hcov
  have hnat : (k.rmrLen.setWidth 32 : CInt).toNat = k.rmrLen.toNat := (sizeT_setWidth hlen).2
  intro r hr
  have hc := h r hr
  rw [hpc] at hc
  have hpc' : ((k.place (k.rdmaArgs (k.mr.getD 0)) data).complete wr [] .success).pc =
      .waiting .read := hpc
  rw [hpc']
  refine ⟨List.nil_suffix, fun _ => hc.2.1 hne, fun _ i hi => ?_⟩
  -- both see the server's memory at this address
  have hfile := (hc.2.1 hne).2.byteAt hs.maps.pins hi
  have hgot := hdata.byteAt hs.maps.pins (i := i) (by rw [Client.rdmaArgs, hnat]; exact hi)
  have heq : data i = s.host.files (s.resource r).fd i := Option.some.inj (hgot.symm.trans hfile)
  have hbuf : k.rmrAddr = some (k.mr.getD 0) := by
    refine huse.2.resolve_left fun hz => ?_
    have hlt : i < (k.rmrLen.setWidth 32 : CInt).toNat := hnat.symm ▸ hi
    rw [show (k.rmrLen.setWidth 32 : CInt) = 0 from hz] at hlt
    exact absurd hlt (Nat.not_lt_zero i)
  have hlt : i < (k.rdmaArgs (k.mr.getD 0)).len.toNat := by
    rw [Client.rdmaArgs, hnat]
    exact hi
  simp only [Client.buffer, Client.complete, Client.place, hbuf]
  rw [show (k.rdmaArgs (k.mr.getD 0)).lkey = k.mr.getD 0 from rfl, Function.update_self,
    if_pos hlt, heq]

/-- A COMMIT answered with `0`, in whose range nothing was new, was of what the file
holds. -/
theorem CommitInv.clean (h : CommitInv k s c) (hs : s.Inv base) (hi : ConnInv k (s.unit c))
    (hpc : k.pc = .waiting (.rsp .commitReq)) (hpend : 0 < (s.unit c).pending)
    (hlen : k.rmrLen.toNat < 2 ^ 31) {fd : ℕ}
    (hb : s.host.Backed c fd k.remoteAddr k.rmrLen.toNat)
    (hclean : s.host.Clean k.remoteAddr (sizeT k.mapLen)) {i : ℕ} (hlt : i < k.rmrLen.toNat) :
    s.host.files fd i = k.buffer i := by
  obtain ⟨hsize, hnat⟩ := sizeT_setWidth hlen
  rw [Client.mapLen, hsize] at hclean
  obtain ⟨b, hbuf, hheld⟩ := h.written hi hpc hpend
  have hne : k.mapLen ≠ 0 := by
    intro hz
    rw [Client.mapLen] at hz
    rw [hz] at hnat
    have hzero : k.rmrLen.toNat = 0 := hnat.symm
    omega
  have hfile := hb.byteAt hs.maps.pins hclean hlt
  have hwrote := hheld.byteAt hs.maps.pins (i := i) (by rw [Client.mapLen, hnat]; exact hlt)
  rw [Client.buffer, hbuf hne]
  exact Option.some.inj (hfile.symm.trans hwrote)

/-- **The server's handler keeps the meaning of the journal**, if it syncs nothing new. -/
theorem Traced.handle (h : Traced (x.clients c) x.server c g) (hx : x.Commits base)
    (hpriv : x.server.host.Private base) (hlen : (x.clients c).rmrLen.toNat < 2 ^ 31)
    (hc : c ∈ x.server.conns) (hp : 0 < (x.server.unit c).pending) {m : Handled}
    (hm : x.server.handle c o = .ok m) (hnew : SyncsNothingNew x (.handle c o)) :
    Traced (x.clients c) m.server c
      (Journal.note x (.handle c o) { x with server := m.server } g) := by
  have hst : x.Stepped (.handle c o) { x with server := m.server } := .handled c o m hc hp hm
  have hi := hx.regions.tokens c
  have hreq := hi.pending hp
  have hreg := hx.regions.regions c
  obtain ⟨q, hpc, hkind⟩ := hi.pending_kind hp
  have hfd : ∀ r, (m.server.resource r).fd = (x.server.resource r).fd := hst.fd
  have hfiles : m.server.host.files = x.server.host.files := hst.files hx hpriv
  have hback : q ≠ .unmapReq → ∀ fd addr len, x.server.host.Backed c fd addr len →
      m.server.host.Backed c fd addr len := by
    intro hq fd addr len hb
    refine hb.step hst hx.regions.server fun o' _ hk => hq ?_
    exact Option.some.inj (hkind.symm.trans hk)
  by_cases hmap : q = .mapReq
  · -- the MAP is answered with the fresh mapping of what it claimed
    subst hmap
    intro r hr
    rw [hpc]
    intro _ hne
    have hr' : x.server.claims c o = some r := by
      simpa [Journal.note, hkind] using hr
    unfold Server.claims at hr'
    split_ifs at hr' with hpost
    unfold RegionInv at hreg
    rw [hpc] at hreg
    have hunit : ((x.server.poll c).unit c).req = (x.clients c).req := by
      rw [Server.poll_unit, ← hreq]
    obtain ⟨f, t, calls, ht, hserver, -⟩ := Server.handle_served hm hkind
    have haddr := addrField_mapRsp hserver
    have hpoll : (x.server.poll c).Inv base := hx.regions.server.setUnit rfl
    have hfit : (x.server.poll c).fit (wordField ((x.server.poll c).unit c).req.bytes) = some r := by
      rw [hunit, ← hreq]
      exact hr'
    rw [haddr] at hne ⊢
    have hfresh := ht.backed hpoll hpost hfit hne
    rw [hunit, hreg.1, Client.mapLen, (sizeT_setWidth hlen).1] at hfresh
    rw [hserver]
    exact hfresh
  · have hsame : Journal.note x (.handle c o) { x with server := m.server } g = g := by
      simp only [Journal.note, hkind]
      rw [if_neg]
      exact fun he => hmap (Option.some.inj he)
    rw [hsame]
    intro r hr
    have hcur := h r hr
    rw [hpc] at hcur ⊢
    rw [hfd, hfiles]
    cases q with
    | mapReq => exact absurd rfl hmap
    | openReq | closeReq => exact fun hk => hback (by simp) _ _ _ (hcur hk)
    | unmapReq => exact hcur
    | commitReq =>
        refine ⟨hback (by simp) _ _ _ hcur.1, hcur.2.1, fun _ hz i hlt => ?_⟩
        have hcarry := hreg
        unfold RegionInv at hcarry
        rw [hpc] at hcarry
        rcases commit_handle_cases hi hreg hpc hp hm with ⟨-, hword⟩ |
          ⟨ret, host, hpost, hsync, -, hword, -⟩
        · rw [hword] at hz
          exact absurd hz (by decide)
        · have hclean := hnew hkind hpost
          rw [hreq, hcarry.1.1, hcarry.1.2, hsync] at hclean
          exact (hx.commits c).clean hx.regions.server hi hpc hp hlen hcur.1
            (hclean (hword.symm.trans hz)) hlt

/-! ### What calls return -/

/-- A call sets the length of its region to `0`, or to what `rpmem_map` was asked for,
and returns neither a region nor a successful commit before its first wait. -/
theorem Client.call_returns {co : ClientOutcomes} {api : Api} (h : k.call co api = some k') :
    (k'.rmrLen = k.rmrLen ∨ k'.rmrLen = 0 ∨ api = .rpmemMap k'.rmrLen) ∧
      k'.result ≠ some (.committed 0) ∧ k'.result ≠ some (.mapped true) := by
  have hne : (some (Result.committed (-1)) : Option Result) ≠ some (.committed 0) := by decide
  cases (Client.call_called h).2 with
  | opens | openFails | closes | closeFails | unmaps | commits =>
      exact ⟨.inl rfl, by rintro ⟨⟩, by rintro ⟨⟩⟩
  | maps => exact ⟨.inr (.inr rfl), by rintro ⟨⟩, by rintro ⟨⟩⟩
  | mapFails | mapAllocates | unmapFails => exact ⟨.inr (.inl rfl), by rintro ⟨⟩, by rintro ⟨⟩⟩
  | commitFails => exact ⟨.inl rfl, hne, by rintro ⟨⟩⟩

/-- **What a wake-up returns.**  A region is what the RDMA read of `rpmem_map` fetched,
and a commit returns `0` if the response says so. -/
theorem Client.wake_returns {u : ServerUnit} (hi : ConnInv k u) {co : ClientOutcomes}
    (hbusy : ∀ w, k.pc = .waiting w → k.result = none) (h : k.wake co = some k') :
    (k'.rmrLen = k.rmrLen ∨ k'.rmrLen = 0) ∧
      (k'.result = some (.committed 0) → k.pc = .waiting (.rsp .commitReq) ∧
        0 < responsesUnderWay k u ∧ wordField u.rsp.bytes = 0 ∧ k'.rmrLen = k.rmrLen) ∧
      (k'.result = some (.mapped true) → k.pc = .waiting .read ∧ 0 < k.fetched ∧
        k'.rmrLen = k.rmrLen ∧ k'.buffer = k.buffer) := by
  cases hi.woken h with
  | opened pc => exact ⟨.inl rfl, by rintro ⟨⟩, by rintro ⟨⟩⟩
  | closed pc => exact ⟨.inl rfl, by rintro ⟨⟩, by rintro ⟨⟩⟩
  | unmapped id pc => exact ⟨.inr rfl, by rintro ⟨⟩, by rintro ⟨⟩⟩
  | reads id pc =>
      have hnone : k.result = none := hbusy _ pc
      refine ⟨.inl rfl, fun he => ?_, fun he => ?_⟩ <;>
        · have := hnone.symm.trans he
          cases this
  | mapFails id pc => exact ⟨.inr rfl, by rintro ⟨⟩, by rintro ⟨⟩⟩
  | committed pc ha =>
      refine ⟨.inl rfl, fun he => ⟨pc, ha.answered, ?_, rfl⟩, by rintro ⟨⟩⟩
      rw [← ha.rsp]
      exact Result.committed.inj (Option.some.inj he)
  | fetched pc there => exact ⟨.inl rfl, by rintro ⟨⟩, fun _ => ⟨pc, there, rfl, rfl⟩⟩

/-! ### Runs that sync nothing new -/

/-- The system and its journal. -/
structure Journaled (base : ℕ) (x : System) (g : Journal) : Prop where
  commits : x.Commits base
  isPrivate : x.server.host.Private base
  lens : ∀ c, (x.clients c).rmrLen.toNat < 2 ^ 31
  busy : ∀ c w, (x.clients c).pc = .waiting w → (x.clients c).result = none
  durable : g.durable = x.server.host.files
  traced : ∀ c, Traced (x.clients c) x.server c g
  kept : ∀ c, Durable x g c

/-- The journal of another connection stays. -/
theorem Journal.note_of_ne (hc : c ≠ a.conn) :
    (Journal.note x a y g).claimed c = g.claimed c ∧
      (Journal.note x a y g).committing c = g.committing c ∧
      (Journal.note x a y g).fetched c = g.fetched c := by
  unfold Journal.note
  split
  · exact ⟨rfl, Function.update_of_ne hc _ _, rfl⟩
  · split_ifs
    · exact ⟨Function.update_of_ne hc _ _, rfl, rfl⟩
    · exact ⟨rfl, rfl, rfl⟩
  · split_ifs
    · exact ⟨rfl, rfl, Function.update_of_ne hc _ _⟩
    · split <;> exact ⟨rfl, rfl, rfl⟩
    · exact ⟨rfl, rfl, rfl⟩
  · exact ⟨rfl, rfl, rfl⟩

theorem Journal.note_of_moves (ha : a.moves = true) : Journal.note x a y g = g := by
  cases a <;> first | rfl | cases ha

/-- A wake-up notes nothing about commits in progress and MAPs. -/
theorem Journal.note_wake {co : ClientOutcomes} :
    (Journal.note x (.wake c co) y g).claimed = g.claimed ∧
      (Journal.note x (.wake c co) y g).committing = g.committing := by
  simp only [Journal.note]
  split_ifs
  · exact ⟨rfl, rfl⟩
  · split <;> exact ⟨rfl, rfl⟩
  · exact ⟨rfl, rfl⟩

/-- What is promised changes when a commit returns `0`. -/
theorem Journal.note_durable :
    (Journal.note x a y g).durable = g.durable ∨
      ∃ c co r, a = .wake c co ∧ (y.clients c).result = some (.committed 0) ∧
        g.claimed c = some r ∧ (Journal.note x a y g).durable =
          (g.commit c (x.server.resource r).fd (y.clients c).rmrLen.toNat).durable := by
  unfold Journal.note
  split
  · exact .inl rfl
  · split_ifs <;> exact .inl rfl
  · split_ifs with h1 h2
    · exact .inl rfl
    · split
      · rename_i r hr
        exact .inr ⟨_, _, r, rfl, h2, hr, rfl⟩
      · exact .inl rfl
    · exact .inl rfl
  · exact .inl rfl

/-- Committing what the file holds promises nothing new. -/
theorem Journal.commit_durable {fd n : ℕ} (h : ∀ i < n, g.durable fd i = g.committing c i) :
    (g.commit c fd n).durable = g.durable := by
  funext fd' i
  by_cases hfd : fd' = fd
  · subst hfd
    simp only [Journal.commit, Function.update_self]
    split_ifs with hi
    · exact (h i hi).symm
    · rfl
  · simp only [Journal.commit, Function.update_of_ne hfd]

/-- A commit that returns `0` was of what the file holds. -/
theorem Journaled.committed (h : Journaled base x g) {co : ClientOutcomes}
    (hk : (x.clients c).wake co = some k) (hret : k.result = some (.committed 0)) {r : ResId}
    (hr : g.claimed c = some r) :
    k.rmrLen = (x.clients c).rmrLen ∧ ∀ i < k.rmrLen.toNat,
      x.server.host.files (x.server.resource r).fd i = g.committing c i := by
  obtain ⟨-, hcom, -⟩ := Client.wake_returns (h.commits.regions.tokens c) (h.busy c) hk
  obtain ⟨hpc, hpos, hz, hlen⟩ := hcom hret
  have ht := h.traced c r hr
  rw [hpc] at ht
  rw [hlen, ht.2.1]
  exact ⟨rfl, ht.2.2 hpos hz⟩

/-- A `rpmem_map` that returns a region was given what the file holds. -/
theorem Journaled.mapped (h : Journaled base x g) {co : ClientOutcomes}
    (hk : (x.clients c).wake co = some k) (hret : k.result = some (.mapped true)) {r : ResId}
    (hr : g.claimed c = some r) :
    ∀ i < k.rmrLen.toNat, (Journal.note x (.wake c co) (x.setClient c k) g).fetched c i =
      x.server.host.files (x.server.resource r).fd i := by
  obtain ⟨-, -, hmap⟩ := Client.wake_returns (h.commits.regions.tokens c) (h.busy c) hk
  obtain ⟨hpc, hfet, hlen, hbuf⟩ := hmap hret
  have ht := h.traced c r hr
  rw [hpc] at ht
  have hset : (x.setClient c k).clients c = k := Function.update_self _ _ _
  have hnote : (Journal.note x (.wake c co) (x.setClient c k) g).fetched c =
      (x.clients c).buffer := by
    simp only [Journal.note, hset, hret, if_true, Function.update_self]
    exact hbuf
  rw [hlen, hnote]
  exact ht.2.2 hfet

/-- One action leaves what is promised in the files. -/
theorem Journaled.durable_step (h : Journaled base x g) (hst : x.Stepped a y) :
    (Journal.note x a y g).durable = y.server.host.files := by
  rw [hst.files h.commits h.isPrivate, ← h.durable]
  rcases Journal.note_durable (x := x) (a := a) (y := y) (g := g) with hd |
    ⟨c, co, r, rfl, hret, hr, hd⟩
  · exact hd
  rw [hd]
  cases hst with
  | woken c co k hk =>
      have hset : (x.setClient c k).clients c = k := Function.update_self _ _ _
      rw [hset] at hret ⊢
      refine Journal.commit_durable fun i hi => ?_
      rw [h.durable]
      exact (h.committed hk hret hr).2 i hi

/-- One action keeps the lengths of the regions in range. -/
theorem Journaled.lens_step (h : Journaled base x g) (hst : x.Stepped a y) (hdoc : Documented x a)
    (c : ConnId) : (y.clients c).rmrLen.toNat < 2 ^ 31 := by
  have hlt := h.lens c
  by_cases hc : c = a.conn
  swap
  · rw [(System.step_frame hst hc).1]
    exact hlt
  subst hc
  by_cases hmv : a.moves = true
  · rcases hst.moved hmv with hm | ⟨wr, sq, ra, data, -, -, -, -, -, rfl⟩
    · rw [hm.rmrLen]
      exact hlt
    · simp only [System.setClient, Function.update_self]
      exact hlt
  · cases hst with
    | connected c accepted established =>
        simp only [Action.conn, Function.update_self]
        split_ifs <;> exact hlt
    | called c api co k hk =>
        simp only [System.setClient, Action.conn, Function.update_self]
        rcases (Client.call_returns hk).1 with he | he | he
        · rw [he]
          exact hlt
        · rw [he]
          decide
        · rw [he] at hdoc
          exact hdoc.2.2
    | woken c co k hk =>
        simp only [System.setClient, Action.conn, Function.update_self]
        rcases (Client.wake_returns (h.commits.regions.tokens c) (h.busy c) hk).1 with he | he <;>
          rw [he]
        · exact hlt
        · decide
    | written c f k hk =>
        obtain ⟨-, -, b, g, -, rfl⟩ := Client.write_cases hk
        simp only [System.setClient, Action.conn, Function.update_self]
        exact hlt
    | handled => exact hlt
    | sent | fetched | stored | failed | flushed | recvFlushed | polled | delivered | lost
    | disconnected | cmHandled => exact absurd rfl hmv

/-- A call in progress has returned nothing. -/
theorem Journaled.busy_step (h : Journaled base x g) (hst : x.Stepped a y) (c : ConnId) (w : Wait)
    (hw : (y.clients c).pc = .waiting w) : (y.clients c).result = none := by
  have hstage : ∀ {k k' : Client}, Stage k k' → k'.pc = .waiting w → k'.result = k.result := by
    intro k k' hs hpc
    cases hs with
    | returned _ pc | destroyed pc =>
        rw [pc] at hpc
        cases hpc
    | sent _ _ _ _ _ _ _ _ _ _ _ result | reading _ _ _ _ _ _ _ result => exact result
  by_cases hc : c = a.conn
  swap
  · rw [(System.step_frame hst hc).1] at hw ⊢
    exact h.busy c w hw
  subst hc
  by_cases hmv : a.moves = true
  · rcases hst.moved hmv with hm | ⟨wr, sq, ra, data, -, -, -, -, -, rfl⟩
    · rw [hm.result]
      exact h.busy _ w (hm.pc ▸ hw)
    · simp only [System.setClient, Function.update_self] at hw ⊢
      exact h.busy _ w hw
  · cases hst with
    | connected c accepted established =>
        simp only [Action.conn, Function.update_self] at hw
        split_ifs at hw
        cases hw
    | called c api co k hk =>
        simp only [System.setClient, Action.conn, Function.update_self] at hw ⊢
        exact hstage (Client.call_stage co hk).2 hw
    | woken c co k hk =>
        simp only [System.setClient, Action.conn, Function.update_self] at hw ⊢
        obtain ⟨w', tok, sem, hpc, -, hk⟩ := Client.wake_cases hk
        exact (hstage (Client.resume_stage co hk) hw).trans (h.busy c w' hpc)
    | written c f k hk =>
        obtain ⟨-, -, b, g, -, rfl⟩ := Client.write_cases hk
        simp only [System.setClient, Action.conn, Function.update_self] at hw ⊢
        exact h.busy c w hw
    | handled c => exact h.busy c w hw
    | sent | fetched | stored | failed | flushed | recvFlushed | polled | delivered | lost
    | disconnected | cmHandled => exact absurd rfl hmv

theorem Traced.congr (h : Traced k s c g) {g' : Journal} (hclaimed : g'.claimed c = g.claimed c)
    (hcommitting : g'.committing c = g.committing c) : Traced k s c g' := by
  rw [Traced, hclaimed, hcommitting]
  exact h

/-- While an answered MAP has not been read, its connection writes nothing. -/
theorem Client.Reads.no_write {u : ServerUnit} (h : k.Reads u) (hi : ConnInv k u) (hp : k.Posted)
    (hsuf : k.pc = .waiting .read → k.sq <:+ k.awaited) {wr : Wr} {sq : List Wr}
    (hsq : k.sq = wr :: sq) {ra : RdmaArgs} : wr.op ≠ .rdmaWrite ra := by
  intro hop
  rcases h with ⟨hpc, hpos⟩ | hpc
  · have hmsg := hi.messages
    rw [hpc] at hmsg
    simp only [Pc.messages, requestsUnderWay] at hmsg
    have hnil := hp.sq_eq_nil hpc (by omega)
    rw [hsq] at hnil
    cases hnil
  · have hs := hsuf hpc
    rw [Client.awaited, hpc, hsq] at hs
    rcases List.suffix_cons_iff.1 hs with he | he
    · rw [(List.cons.inj he).1] at hop
      cases hop
    · exact absurd (List.suffix_nil.1 he) (List.cons_ne_nil _ _)

/-- **One action keeps the meaning of the journal.** -/
theorem Journaled.traced_step (h : Journaled base x g) (hst : x.Stepped a y)
    (hdoc : Documented x a) (hnew : SyncsNothingNew x a) (c : ConnId) :
    Traced (y.clients c) y.server c (Journal.note x a y g) := by
  have hfiles := hst.files h.commits h.isPrivate
  have hinv := h.commits.regions.server
  by_cases hc : c = a.conn
  swap
  · obtain ⟨hk, hu⟩ := System.step_frame hst hc
    obtain ⟨h1, h2, -⟩ := Journal.note_of_ne (x := x) (y := y) (g := g) hc
    rw [hk]
    refine Traced.congr ?_ h1 h2
    refine (h.traced c).moved (.of_eq hu) (fun _ => id) hst.fd hfiles (fun fd addr len hb => ?_)
      fun _ addr len data hh => ?_
    · exact hb.step hst hinv fun o ha => absurd (by rw [ha]; rfl) hc
    · refine hh.step hst hinv (fun wr sq ra ha => ?_) fun o ha => ?_ <;>
        exact absurd (by rw [ha]; rfl) hc
  subst hc
  have hi := h.commits.regions.tokens a.conn
  have hp := h.commits.regions.posted a.conn
  have ht := h.traced a.conn
  by_cases hmv : a.moves = true
  · have hnot : ∀ o, a = .handle a.conn o →
        requestKind (x.server.unit a.conn).req.bytes ≠ some .unmapReq := by
      intro o ha
      rw [ha] at hmv
      cases hmv
    rw [Journal.note_of_moves hmv]
    rcases hst.moved hmv with hm | ⟨wr, sq, ra, data, hsq, hop, huse, hread, -, rfl⟩
    · intro r hr
      refine ht.moved hm (fun _ hs => ?_) hst.fd hfiles (fun fd addr len hb => hb.step hst hinv hnot)
        (fun hreads addr len data hh => hh.step hst hinv (fun wr sq ra _ hsq => ?_) hnot) r hr
      · rw [hm.awaited]
        rcases hm.sq with hsq | ⟨wr, hsq⟩
        · rw [hsq]
          exact hs
        · rw [hsq] at hs
          exact (List.suffix_cons wr _).trans hs
      · refine hreads.no_write hi hp (fun hpc => ?_) hsq
        have hcur := ht r hr
        rw [hpc] at hcur
        exact hcur.1
    · simp only [System.setClient, Function.update_self]
      exact ht.fetch hinv hi hp (h.lens _) hsq hop huse hread
  · cases hst with
    | connected c accepted established hpc =>
        intro r hr
        have hcur := ht r hr
        rw [show (x.clients (Action.connect c accepted established).conn).pc = .unopened from hpc]
          at hcur
        simp only [Action.conn, Function.update_self]
        cases accepted <;> cases established <;> exact hcur
    | called c api co k hk =>
        have hcall : Traced k x.server c (Journal.note x (.call c api co) (x.setClient c k) g) :=
          ht.call hi (fun len hapi => by subst hapi; exact hdoc.1)
          (fun hapi => by subst hapi; exact ⟨hdoc, Function.update_self _ _ _⟩)
          (by cases api <;> rfl) hk
        simpa [System.setClient, Action.conn] using hcall
    | woken c co k hk =>
        have hwake : Traced k x.server c (Journal.note x (.wake c co) (x.setClient c k) g) :=
          ht.wake hi hp (h.commits.regions.regions c) (by rw [Journal.note_wake.1]) hk
        simpa [System.setClient, Action.conn] using hwake
    | written c f k hk =>
        obtain ⟨hpc, -, b, bytes, -, rfl⟩ := Client.write_cases hk
        intro r hr
        have hcur := ht r hr
        rw [show (x.clients (Action.write c f).conn).pc = .idle from hpc] at hcur
        simp only [System.setClient, Action.conn, Function.update_self, hpc]
        exact hcur
    | handled c o m hc hpend hm =>
        exact ht.handle h.commits h.isPrivate (h.lens c) hc hpend hm hnew
    | sent | fetched | stored | failed | flushed | recvFlushed | polled | delivered | lost
    | disconnected | cmHandled => exact absurd rfl hmv

theorem Durable.congr (h : Durable x g c) {g' : Journal}
    (hresult : (y.clients c).result = (x.clients c).result)
    (hlen : (y.clients c).rmrLen = (x.clients c).rmrLen) (hclaimed : g'.claimed c = g.claimed c)
    (hcommitting : g'.committing c = g.committing c) (hfetched : g'.fetched c = g.fetched c)
    (hdurable : g'.durable = g.durable) (hfiles : y.server.host.files = x.server.host.files)
    (hfd : ∀ r, (y.server.resource r).fd = (x.server.resource r).fd) : Durable y g' c where
  file := by
    simp only [hresult, hlen, hclaimed, hcommitting, hfiles, hfd]
    exact h.file
  read := by
    simp only [hresult, hlen, hclaimed, hfetched, hdurable, hfd]
    exact h.read

/-- A connection that has returned neither a region nor a commit asks for nothing. -/
theorem Durable.of_result (h1 : (x.clients c).result ≠ some (.committed 0))
    (h2 : (x.clients c).result ≠ some (.mapped true)) : Durable x g c :=
  ⟨fun he => absurd he h1, fun he => absurd he h2⟩

/-- **One action keeps what was promised.** -/
theorem Journaled.kept_step (h : Journaled base x g) (hst : x.Stepped a y) (c : ConnId) :
    Durable y (Journal.note x a y g) c := by
  have hfiles := hst.files h.commits h.isPrivate
  have hdurable : (Journal.note x a y g).durable = g.durable := by
    rw [h.durable_step hst, hfiles, h.durable]
  have hk := h.kept c
  by_cases hc : c = a.conn
  swap
  · obtain ⟨hsame, -⟩ := System.step_frame hst hc
    obtain ⟨h1, h2, h3⟩ := Journal.note_of_ne (x := x) (y := y) (g := g) hc
    exact hk.congr (by rw [hsame]) (by rw [hsame]) h1 h2 h3 hdurable hfiles hst.fd
  subst hc
  by_cases hmv : a.moves = true
  · rw [Journal.note_of_moves hmv]
    have hfd := hst.fd
    rcases hst.moved hmv with hm | ⟨wr, sq, ra, data, -, -, -, -, -, rfl⟩
    · exact hk.congr hm.result hm.rmrLen rfl rfl rfl rfl hfiles hfd
    · refine hk.congr ?_ ?_ rfl rfl rfl rfl hfiles hfd <;>
        simp [System.setClient, Client.complete, Client.place]
  · have hfd := hst.fd
    cases hst with
    | connected c accepted established =>
        by_cases hok : (accepted && established) = true
        · refine hk.congr ?_ ?_ rfl rfl rfl rfl hfiles hfd <;> simp [Action.conn, hok]
        · refine Durable.of_result ?_ ?_ <;> simp [Action.conn, hok, Client.destroy]
    | called c api co k hcall =>
        obtain ⟨-, h1, h2⟩ := Client.call_returns hcall
        refine Durable.of_result ?_ ?_ <;>
          simpa only [System.setClient, Action.conn, Function.update_self]
    | woken c co k hwake =>
        have hset : (x.setClient c k).clients c = k := Function.update_self _ _ _
        have hnote : (Journal.note x (.wake c co) (x.setClient c k) g).claimed = g.claimed ∧
            (Journal.note x (.wake c co) (x.setClient c k) g).committing = g.committing :=
          Journal.note_wake
        change Durable (x.setClient c k) _ c
        constructor
        · rw [hset, hnote.1, hnote.2]
          exact fun hret r hr => (h.committed hwake hret hr).2
        · rw [hset, hnote.1, hdurable, h.durable]
          exact fun hret r hr => h.mapped hwake hret hr
    | written c f k hk' =>
        obtain ⟨-, -, b, bytes, -, rfl⟩ := Client.write_cases hk'
        refine hk.congr ?_ ?_ rfl rfl rfl rfl hfiles hfd <;> simp [System.setClient, Action.conn]
    | handled c o m hc hp hm =>
        obtain ⟨q, hpc, -⟩ := (h.commits.regions.tokens c).pending_kind hp
        have hnone : (x.clients c).result = none := h.busy c _ hpc
        refine Durable.of_result ?_ ?_ <;>
          · change (x.clients c).result ≠ _
            rw [hnone]
            rintro ⟨⟩
    | sent | fetched | stored | failed | flushed | recvFlushed | polled | delivered | lost
    | disconnected | cmHandled => exact absurd rfl hmv

theorem Journaled.step (h : Journaled base x g) (hdoc : Documented x a) (hnew : SyncsNothingNew x a)
    (he : x.step a = some y) : Journaled base y (Journal.note x a y g) := by
  have hst := System.step_cases he
  exact ⟨h.commits.step he, hst.isPrivate h.isPrivate, h.lens_step hst hdoc, h.busy_step hst,
    h.durable_step hst, h.traced_step hst hdoc hnew, h.kept_step hst⟩

/-- A system just set up, and the journal before anything was committed. -/
def Journal.InitialAt (base : ℕ) (p : System × Journal) : Prop :=
  p.1.InitialAt base ∧ p.2 = Journal.initial p.1

theorem Journal.InitialAt.journaled {p : System × Journal} (h : Journal.InitialAt base p) :
    Journaled base p.1 p.2 := by
  obtain ⟨hx, hg⟩ := h
  rw [hg]
  have hfresh := hx.initial.clients
  exact
    { commits := hx.commits
      isPrivate := fun m hm hlt => by
        rw [hx.server.nextMap] at hlt
        omega
      lens := fun c => by
        rw [hfresh c]
        decide
      busy := fun c w _ => by
        rw [hfresh c]
        rfl
      durable := rfl
      traced := fun c r hr => by cases hr
      kept := fun c => .of_result (by rw [hfresh c]; rintro ⟨⟩) (by rw [hfresh c]; rintro ⟨⟩) }

/-- **A commit is durable if it commits nothing new.**  In every state reached by any
number of clients that use the library as documented, in a run in which whatever the
server syncs was in the file already, over any failures and delays: a `rpmem_commit`
that returned `0` finds its buffer, as it was when it was called, in the file of its
resource, and a `rpmem_map` that returned a region was given, at every offset, the byte
of the last commit to that file that returned `0`, or of the file as it was. -/
theorem commit_durable_of_syncs_nothing_new {p : System × Journal}
    (h : Lts.Reachable (Lts.noted System.step Journal.note)
      (fun p a => Documented p.1 a ∧ SyncsNothingNew p.1 a) (Journal.InitialAt base) p)
    (c : ConnId) : Durable p.1 p.2 c := by
  have hinv : Journaled base p.1 p.2 := by
    refine h.invariant (I := fun p => Journaled base p.1 p.2) (fun p hp => hp.journaled) ?_
    intro p a q hp hok he
    obtain ⟨hstep, hnote⟩ := Lts.noted_eq_some he
    rw [hnote]
    exact hp.step hok.1 hok.2 hstep
  exact hinv.kept c

/-- A file of sevens: map 8 bytes of it and commit them as they are. -/
theorem commit_durable_of_syncs_nothing_new_unchanged :
    ∃ p, Lts.Reachable (Lts.noted System.step Journal.note)
        (fun p a => Documented p.1 a ∧ SyncsNothingNew p.1 a) (Journal.InitialAt 1) p ∧
      ((p.1.clients 0).result = some (.committed 0) ∧ (p.1.clients 0).rmrLen = 8 ∧
        p.2.claimed 0 = some 0 ∧ p.2.committing 0 3 = 7) ∧
      p.1.server.host.files (p.1.server.resource 0).fd 3 = 7 := by
  obtain ⟨p, hp, ht⟩ := Lts.exists_reachable_of_exec (Lts.noted System.step Journal.note)
    (fun p a => Documented p.1 a ∧ SyncsNothingNew p.1 a) (Journal.InitialAt 1)
    (s := (System.oneResource fun _ _ => 7, Journal.initial (System.oneResource fun _ _ => 7)))
    ⟨System.oneResource_initialAt _, rfl⟩
    (System.opens 0 ++ System.maps 0 8 0x7f0000000000 17 ++ [.call 0 .rpmemCommit .allOk] ++
      System.committed 0)
    (fun p => decide ((p.1.clients 0).result = some (.committed 0) ∧ (p.1.clients 0).rmrLen = 8 ∧
      p.2.claimed 0 = some 0 ∧ p.2.committing 0 3 = 7)) (by decide +kernel)
  have ht := of_decide_eq_true ht
  have hd := commit_durable_of_syncs_nothing_new hp 0
  refine ⟨p, hp, ht, ?_⟩
  rw [hd.file ht.1 0 ht.2.2.1 3 (by rw [ht.2.1]; decide), ht.2.2.2]

/-- The actions of a successful `rpmem_unmap`. -/
def System.unmaps (c : ConnId) : List Action :=
  [.call c .rpmemUnmap .allOk] ++ System.exchange c (.allOk 0 0) ++ [.wake c .allOk]

/-- **A commit does not reach the file.**  A client maps 8 bytes of a file of zeros,
writes 42 everywhere and commits; every call succeeds and `rpmem_commit` returns `0`,
but the file still holds zeros.  When it unmaps and maps again, it is given zeros. -/
theorem committed_bytes_are_lost :
    (∃ p, Lts.Reachable (Lts.noted System.step Journal.note) (fun p a => Documented p.1 a)
        (Journal.InitialAt 1) p ∧
      (p.1.clients 0).result = some (.committed 0) ∧ ¬ Durable p.1 p.2 0) ∧
    ∃ p, Lts.Reachable (Lts.noted System.step Journal.note) (fun p a => Documented p.1 a)
        (Journal.InitialAt 1) p ∧
      (p.1.clients 0).result = some (.mapped true) ∧ ¬ Durable p.1 p.2 0 := by
  constructor
  · obtain ⟨p, hp, ht⟩ := Lts.exists_reachable_of_exec (Lts.noted System.step Journal.note)
      (fun p a => Documented p.1 a) (Journal.InitialAt 1)
      (s := (System.oneResource fun _ _ => 0, Journal.initial (System.oneResource fun _ _ => 0)))
      ⟨System.oneResource_initialAt _, rfl⟩
      (System.opens 0 ++ System.maps 0 8 0x7f0000000000 17 ++ [.write 0 fun _ => 42] ++
        [.call 0 .rpmemCommit .allOk] ++ System.committed 0)
      (fun p => decide (((p.1.clients 0).result = some (.committed 0) ∧
        (p.1.clients 0).rmrLen = 8 ∧ p.2.claimed 0 = some 0) ∧
        p.1.server.host.files (p.1.server.resource 0).fd 3 ≠ p.2.committing 0 3)) (by decide +kernel)
    obtain ⟨⟨h1, h2, h3⟩, hne⟩ := of_decide_eq_true ht
    exact ⟨p, hp, h1, fun hd => hne (hd.file h1 0 h3 3 (by rw [h2]; decide))⟩
  · obtain ⟨p, hp, ht⟩ := Lts.exists_reachable_of_exec (Lts.noted System.step Journal.note)
      (fun p a => Documented p.1 a) (Journal.InitialAt 1)
      (s := (System.oneResource fun _ _ => 0, Journal.initial (System.oneResource fun _ _ => 0)))
      ⟨System.oneResource_initialAt _, rfl⟩
      (System.opens 0 ++ System.maps 0 8 0x7f0000000000 17 ++ [.write 0 fun _ => 42] ++
        [.call 0 .rpmemCommit .allOk] ++ System.committed 0 ++ System.unmaps 0 ++
        System.maps 0 8 0x7f0000000000 18)
      (fun p => decide (((p.1.clients 0).result = some (.mapped true) ∧
        (p.1.clients 0).rmrLen = 8 ∧ p.2.claimed 0 = some 0) ∧
        p.2.fetched 0 3 ≠ p.2.durable (p.1.server.resource 0).fd 3)) (by decide +kernel)
    obtain ⟨⟨h1, h2, h3⟩, hne⟩ := of_decide_eq_true ht
    exact ⟨p, hp, h1, fun hd => hne (hd.read h1 0 h3 3 (by rw [h2]; decide))⟩

end Rpmem
