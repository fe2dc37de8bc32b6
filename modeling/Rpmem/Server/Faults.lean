/-
# Requests that crash the server

`rpmem_handle_unmap` dereferences `unit->res` and hands `res->mr` to
`ibv_dereg_mr` without looking at either, and `rpmem_handle_map` goes on with
its loop variable although the resource it tests is `unit->res`.  So a client
can crash the server: UNMAP before MAP, UNMAP after a MAP whose registration
failed, UNMAP again after one whose `munmap` failed, and a second MAP that finds
no room.

`Ledger` runs the server with a note per connection: whether the last MAP or
UNMAP that got past its `rpmem_post_recv` was a MAP that registered what it
claimed.  The note is a function of the requests and of what the calls
returned, and it is exactly what UNMAP depends on (`Ledger.Inv`), so
`handle_safe_iff` says for every reachable state which requests are safe.
-/

import Rpmem.Server.Pool

namespace Rpmem

/-- Handling the next request of `c` faults nowhere and deregisters only
registered regions. -/
def SafeHandling (s : Server) (c : ConnId) (o : Outcomes) : Prop :=
  ∃ m, s.handle c o = .ok m ∧ ∀ mr live, Call.deregMr mr live ∈ m.calls → live = true

/-- A call that deregisters nothing but a registered region. -/
def Call.sound : Call → Bool
  | .deregMr _ live => live
  | _ => true

theorem Call.forall_sound_iff {calls : List Call} :
    (∀ call ∈ calls, call.sound = true) ↔
      ∀ mr live, Call.deregMr mr live ∈ calls → live = true := by
  refine ⟨fun h mr live hm => h _ hm, fun h call hm => ?_⟩
  cases call with
  | deregMr mr live => exact h mr live hm
  | postRecv | posixFallocate | mmap | regMr | munmap | msync | postSend => rfl

instance (s : Server) (c : ConnId) (o : Outcomes) : Decidable (SafeHandling s c o) :=
  match h : s.handle c o with
  | .ok m =>
      decidable_of_iff (∀ call ∈ m.calls, call.sound = true)
        ⟨fun hs => ⟨m, h, Call.forall_sound_iff.1 hs⟩, fun ⟨m', hm', hs⟩ => by
          obtain rfl : m = m' := Except.ok.inj (h.symm.trans hm')
          exact Call.forall_sound_iff.2 hs⟩
  | .error _ => isFalse fun ⟨_, hm, _⟩ => by cases h.symm.trans hm

/-- The server and, per connection, whether its last MAP or UNMAP left a
registered resource. -/
structure Ledger where
  server : Server
  registered : ConnId → Bool

/-- The note after the calls of one handler. -/
def registeredAfter (calls : List Call) (b : Bool) : Bool :=
  calls.foldl (fun b call =>
    match call with
    | .regMr mr => mr.isSome
    | .deregMr _ _ => false
    | _ => b) b

/-- `serverStep`, with the note kept. -/
def ledgerStep (g : Ledger) : ServerEvent → Option Ledger
  | .handle c o =>
      if c ∈ g.server.conns ∧ 0 < (g.server.unit c).pending then
        match g.server.handle c o with
        | .ok m => some ⟨m.server,
            Function.update g.registered c (registeredAfter m.calls (g.registered c))⟩
        | .error _ => none
      else none
  | e => (serverStep g.server e).map fun s => ⟨s, g.registered⟩

/-- A server just set up, and nothing registered. -/
def Ledger.Initial (g : Ledger) : Prop := g.server.Initial ∧ ∀ c, g.registered c = false

/-- The region pointer `unit->res->mr` of a connection. -/
def Server.region (s : Server) (c : ConnId) : Option ℕ :=
  (s.unit c).res.bind fun r => (s.resource r).mr

theorem Server.region_of_held {s : Server} {c : ConnId} {r : ResId} {mr : ℕ}
    (hr : (s.unit c).res = some r) (hmr : (s.resource r).mr = some mr) : s.region c = some mr := by
  rw [Server.region, hr]
  exact hmr

/-- The connection holds a resource whose region is registered. -/
def Server.HoldsLive (s : Server) (c : ConnId) : Prop :=
  ∃ mr, s.region c = some mr ∧ s.host.LiveMr mr

/-- Regions are numbered in order, and the connections have different ones, each
made for its own protection domain. -/
structure Server.MrInv (s : Server) : Prop where
  mrs : ∀ q ∈ s.host.mrs, q.id < s.host.nextMr
  region_lt : ∀ c mr, s.region c = some mr → mr < s.host.nextMr
  region_inj : ∀ c d mr, s.region c = some mr → s.region d = some mr → c = d
  owner : ∀ c mr, s.region c = some mr → ∀ q ∈ s.host.mrs, q.id = mr → q.pd = c

/-- The note says which connections hold a registered resource. -/
structure Ledger.Inv (g : Ledger) : Prop where
  pool : g.server.PoolInv
  regions : g.server.MrInv
  note : ∀ c, g.registered c = true ↔ g.server.HoldsLive c

variable {o : Outcomes} {s t : Server} {c : ConnId}

/-! ### Which requests are safe in a given state -/

theorem rpmemRcvCompletion_unmap_safe_iff (hk : requestKind (s.unit c).req.bytes = some .unmapReq)
    (hr : o.postRecv = true) :
    (∃ m, rpmemRcvCompletion o s c = .ok m ∧
      ∀ mr live, Call.deregMr mr live ∈ m.calls → live = true) ↔ s.HoldsLive c := by
  unfold rpmemRcvCompletion
  rw [hk]
  simp only [rpmemHandleUnmap]
  cases hres : (s.unit c).res with
  | none =>
      rw [rpmemHandleUnmapBody_of_none hr hres]
      simp [Server.HoldsLive, Server.region, hres]
  | some r =>
      rw [rpmemHandleUnmapBody_of_some hr hres]
      cases hmr : (s.resource r).mr with
      | none => simp [Server.HoldsLive, Server.region, hres, hmr]
      | some mr => simp [Server.HoldsLive, Server.region, hres, hmr, unmapResource]

theorem rpmemRcvCompletion_map_safe_iff (hk : requestKind (s.unit c).req.bytes = some .mapReq)
    (hr : o.postRecv = true) :
    (∃ m, rpmemRcvCompletion o s c = .ok m ∧
      ∀ mr live, Call.deregMr mr live ∈ m.calls → live = true) ↔
      (s.unit c).res = none ∨ (s.fit (wordField (s.unit c).req.bytes)).isSome := by
  unfold rpmemRcvCompletion
  rw [hk]
  simp only [rpmemHandleMap]
  cases hfit : s.fit (wordField (s.unit c).req.bytes) with
  | none =>
      rw [rpmemHandleMapBody_of_no_fit hr hfit]
      cases hres : (s.unit c).res <;> simp
  | some r =>
      rw [rpmemHandleMapBody_of_fit hr hfit]
      obtain ⟨a, h₁, -, ⟨ret, h₂, -, hm⟩ | ⟨rkey, -, hm⟩⟩ := mapResource_cases o
        ((s.postRecv c true).take c r) c r (wordField (s.unit c).req.bytes) <;> simp [hm]

/-- A handler whose `rpmem_post_recv` failed, and every other request, is safe. -/
theorem rpmemRcvCompletion_safe_of_refused
    (h : o.postRecv = false ∨ requestKind (s.unit c).req.bytes ≠ some .unmapReq ∧
      requestKind (s.unit c).req.bytes ≠ some .mapReq) :
    ∃ m, rpmemRcvCompletion o s c = .ok m ∧
      ∀ mr live, Call.deregMr mr live ∈ m.calls → live = true := by
  unfold rpmemRcvCompletion
  split
  · exact ⟨_, rfl, by simp [rpmemHandleOpen]⟩
  · exact ⟨_, rfl, by simp [rpmemHandleClose]⟩
  · rename_i hk
    have hr : o.postRecv = false := h.resolve_right fun hn => hn.2 hk
    simp [rpmemHandleMap, rpmemHandleMapBody_of_refused hr]
  · rename_i hk
    have hr : o.postRecv = false := h.resolve_right fun hn => hn.1 hk
    simp [rpmemHandleUnmap, rpmemHandleUnmapBody_of_refused hr]
  · refine ⟨_, rfl, ?_⟩
    cases hr : o.postRecv <;> simp [rpmemHandleCommit, rpmemHandleCommitBody, hr]
  · exact ⟨_, rfl, by simp⟩

/-! ### The note is right in every reachable state -/

/-- Nothing that the note depends on has changed. -/
structure SameRegions (s t : Server) : Prop where
  res : ∀ d, (t.unit d).res = (s.unit d).res
  resource : ∀ r, (t.resource r).mr = (s.resource r).mr
  mrs : t.host.mrs = s.host.mrs
  nextMr : t.host.nextMr = s.host.nextMr

theorem SameRegions.region (h : SameRegions s t) (d : ConnId) : t.region d = s.region d := by
  simp only [Server.region, h.res, h.resource]

theorem SameRegions.holdsLive (h : SameRegions s t) (d : ConnId) :
    t.HoldsLive d ↔ s.HoldsLive d := by
  simp only [Server.HoldsLive, Host.LiveMr, h.region, h.mrs]

theorem SameRegions.mrInv (h : SameRegions s t) (hs : s.MrInv) : t.MrInv where
  mrs := by
    rw [h.mrs, h.nextMr]
    exact hs.mrs
  region_lt d mr := by
    rw [h.region, h.nextMr]
    exact hs.region_lt d mr
  region_inj d e mr := by
    rw [h.region, h.region]
    exact hs.region_inj d e mr
  owner d mr := by
    rw [h.region, h.mrs]
    exact hs.owner d mr

theorem SameRegions.setUnit {u : ServerUnit} (hu : u.res = (s.unit c).res) :
    SameRegions s (s.setUnit c u) where
  res d := by
    by_cases hd : d = c
    · subst hd
      simpa using hu
    · simp [hd]
  resource _ := rfl
  mrs := rfl
  nextMr := rfl

/-- A handler leaves the region of every other connection alone: the resource it
touches is its own, or was nobody's. -/
theorem Served.region_of_ne {k : RspKind} {f : k.Fields} {calls : List Call}
    (h : Served o s c k f t calls) (hp : s.PoolInv) {d : ConnId} (hd : d ≠ c) :
    t.region d = s.region d := by
  have hres : (t.unit d).res = (s.unit d).res := by rw [h.unit_of_ne hd]
  rw [Server.region, Server.region, hres]
  cases hr : (s.unit d).res with
  | none => rfl
  | some r => exact congrArg Resource.mr (h.resource_of_held hp hd hr)

/-- **What one handler does to the regions**: it leaves them alone, gives its
connection a resource with a new region or with none, or takes its connection's
region away. -/
theorem Served.regions {k : RspKind} {f : k.Fields} {calls : List Call}
    (h : Served o s c k f t calls) :
    (SameRegions s t ∧ ∀ b, registeredAfter calls b = b) ∨
    (k = .mapRsp ∧ t.region c = none ∧ t.host.mrs = s.host.mrs ∧ t.host.nextMr = s.host.nextMr ∧
      ∀ b, registeredAfter calls b = false) ∨
    (k = .mapRsp ∧ t.region c = some s.host.nextMr ∧
      (∃ q, q.id = s.host.nextMr ∧ q.pd = c ∧ t.host.mrs = q :: s.host.mrs) ∧
      t.host.nextMr = s.host.nextMr + 1 ∧ ∀ b, registeredAfter calls b = true) ∨
    (k = .unmapRsp ∧ ∃ mr, s.region c = some mr ∧ (t.region c = none ∨ t.region c = some mr) ∧
      t.host.mrs = (s.host.deregMr mr).mrs ∧ t.host.nextMr = s.host.nextMr ∧
      ∀ b, registeredAfter calls b = false) := by
  cases h with
  | opened | mapRefused | unmapRefused | commitRefused =>
      exact .inl ⟨.setUnit rfl, fun _ => rfl⟩
  | closed => exact .inl ⟨⟨fun _ => rfl, fun _ => rfl, rfl, rfl⟩, fun _ => rfl⟩
  | committed ret host _ hm =>
      have hsame : SameRegions s (s.postRecv c true) := .setUnit rfl
      obtain ⟨h1, h2⟩ := Host.msync_mrs hm
      exact .inl ⟨⟨hsame.res, hsame.resource, h1, h2⟩, fun _ => rfl⟩
  | mapped r m _ hfit hm =>
      obtain ⟨a, h₁, hmap, hcases⟩ := mapResource_cases o ((s.postRecv c true).take c r) c r
        (wordField (s.unit c).req.bytes)
      obtain ⟨hmrs, hnext⟩ := Host.mmap_mrs hmap
      rw [← hm]
      rcases hcases with ⟨ret, h₂, hun, hout⟩ | ⟨rkey, -, hout⟩ <;> rw [hout]
      · obtain ⟨hmrs₂, hnext₂⟩ := Host.munmap_mrs hun
        exact .inr (.inl ⟨rfl, by simp [Server.region], hmrs₂.trans hmrs, hnext₂.trans hnext,
          fun _ => rfl⟩)
      · refine .inr (.inr (.inl ⟨rfl, ?_, ⟨h₁.registration c (a.getD 0)
          (sizeT (wordField (s.unit c).req.bytes)) rkey, hnext, rfl, ?_⟩, ?_, fun _ => rfl⟩))
        · simpa [Server.region] using hnext
        · exact congrArg _ hmrs
        · exact congrArg (· + 1) hnext
  | unmapped r mr m _ hres hmr hm =>
      obtain ⟨ret, h₁, hun, hout⟩ := unmapResource_cases o (s.postRecv c true) c r mr
        (addrField (s.unit c).req.bytes) (wordField (s.unit c).req.bytes)
      obtain ⟨hmrs, hnext⟩ := Host.munmap_mrs hun
      refine .inr (.inr (.inr ⟨rfl, mr, by simp [Server.region, hres, hmr], ?_⟩))
      rw [← hm, hout]
      split_ifs
      · exact ⟨.inl (by simp [Server.region]), hmrs, hnext, fun _ => rfl⟩
      · exact ⟨.inr (by simp [Server.region, hres, hmr]), hmrs, hnext, fun _ => rfl⟩

/-- One handler keeps the numbering of the regions. -/
theorem Served.mrInv {k : RspKind} {f : k.Fields} {calls : List Call}
    (h : Served o s c k f t calls) (hp : s.PoolInv) (hs : s.MrInv) : t.MrInv := by
  -- the region of a connection after the handler is the one before, or the new one of `c`
  have key : ∀ d mr, t.region d = some mr →
      s.region d = some mr ∨ d = c ∧ mr = s.host.nextMr ∧ t.host.nextMr = s.host.nextMr + 1 := by
    intro d mr hd
    by_cases hdc : d = c
    · subst hdc
      rcases h.regions with ⟨hsame, -⟩ | ⟨-, hnone, -⟩ | ⟨-, hsome, -, hnext, -⟩ |
        ⟨-, mr', hmr', hkept, -⟩
      · exact .inl ((hsame.region d).symm.trans hd)
      · rw [hnone] at hd
        cases hd
      · exact .inr ⟨rfl, Option.some.inj (hd.symm.trans hsome), hnext⟩
      · rcases hkept with hn | hn <;> rw [hn] at hd <;> cases hd
        exact .inl hmr'
    · exact .inl ((h.region_of_ne hp hdc).symm.trans hd)
  have hnext : s.host.nextMr ≤ t.host.nextMr := by
    rcases h.regions with ⟨hsame, -⟩ | ⟨-, -, -, hn, -⟩ | ⟨-, -, -, hn, -⟩ |
      ⟨-, _, -, -, -, hn, -⟩
    · exact hsame.nextMr.ge
    · exact hn.ge
    · omega
    · exact hn.ge
  have hold : ∀ q ∈ t.host.mrs, q ∈ s.host.mrs ∨ q.id = s.host.nextMr ∧ q.pd = c ∧
      t.host.nextMr = s.host.nextMr + 1 := by
    intro q hq
    rcases h.regions with ⟨hsame, -⟩ | ⟨-, -, hmrs, -⟩ | ⟨-, -, ⟨q', hid, hpd, hmrs⟩, hn, -⟩ |
      ⟨-, _, -, -, hmrs, -⟩
    · exact .inl (hsame.mrs ▸ hq)
    · exact .inl (hmrs ▸ hq)
    · rw [hmrs] at hq
      rcases List.mem_cons.1 hq with rfl | hq
      · exact .inr ⟨hid, hpd, hn⟩
      · exact .inl hq
    · rw [hmrs] at hq
      exact .inl (Host.mem_deregMr.1 hq).1
  refine ⟨fun q hq => ?_, fun d mr hd => ?_, fun d e mr hd he => ?_, fun d mr hd q hq hid => ?_⟩
  · rcases hold q hq with hq | ⟨hid, -, hn⟩
    · have := hs.mrs q hq
      omega
    · omega
  · rcases key d mr hd with hd | ⟨-, rfl, hn⟩
    · have := hs.region_lt d mr hd
      omega
    · omega
  · rcases key d mr hd with hd | ⟨hdc, hmr, -⟩ <;> rcases key e mr he with he | ⟨hec, hmr', -⟩
    · exact hs.region_inj d e mr hd he
    · have := hs.region_lt d mr hd
      omega
    · have := hs.region_lt e mr he
      omega
    · rw [hdc, hec]
  · rcases key d mr hd with hd | ⟨hdc, hmr, -⟩ <;> rcases hold q hq with hq | ⟨hid', hpd, -⟩
    · exact hs.owner d mr hd q hq hid
    · have := hs.region_lt d mr hd
      omega
    · have := hs.mrs q hq
      omega
    · rw [hpd, hdc]

/-- A handler changes the standing of its own connection only. -/
theorem Served.holdsLive_of_ne {k : RspKind} {f : k.Fields} {calls : List Call}
    (h : Served o s c k f t calls) (hp : s.PoolInv) (hs : s.MrInv) {d : ConnId} (hd : d ≠ c) :
    t.HoldsLive d ↔ s.HoldsLive d := by
  have hlive : ∀ mr, s.region d = some mr → (t.host.LiveMr mr ↔ s.host.LiveMr mr) := by
    intro mr hmr
    rcases h.regions with ⟨hsame, -⟩ | ⟨-, -, hmrs, -⟩ | ⟨-, -, ⟨q, hid, -, hmrs⟩, -⟩ |
      ⟨-, mr', hmr', -, hmrs, -⟩
    · simp only [Host.LiveMr, hsame.mrs]
    · simp only [Host.LiveMr, hmrs]
    · have hlt := hs.region_lt d mr hmr
      have hne : q.id ≠ mr := by omega
      simp [Host.LiveMr, hmrs, hne]
    · -- the region taken away is the one of `c`, and `d` has another
      have hne : mr ≠ mr' := by
        rintro rfl
        exact hd (hs.region_inj d c mr hmr hmr')
      have heq : t.host.LiveMr mr ↔ (s.host.deregMr mr').LiveMr mr := by
        simp only [Host.LiveMr, hmrs]
      rw [heq, Host.liveMr_deregMr]
      exact and_iff_left hne
  rw [Server.HoldsLive, Server.HoldsLive, h.region_of_ne hp hd]
  exact exists_congr fun mr => and_congr_right fun hmr => hlive mr hmr

/-- After a handler, the note on its connection is right again. -/
theorem Served.note {k : RspKind} {f : k.Fields} {calls : List Call}
    (h : Served o s c k f t calls) {b : Bool} (hb : b = true ↔ s.HoldsLive c) :
    registeredAfter calls b = true ↔ t.HoldsLive c := by
  rcases h.regions with ⟨hsame, hcalls⟩ | ⟨-, hnone, -, -, hcalls⟩ |
    ⟨-, hsome, ⟨q, hid, -, hmrs⟩, -, hcalls⟩ | ⟨-, mr, -, hkept, hmrs, -, hcalls⟩ <;> rw [hcalls]
  · rw [hb, hsame.holdsLive c]
  · simp [Server.HoldsLive, hnone]
  · refine iff_of_true rfl ⟨_, hsome, q, ?_, hid⟩
    rw [hmrs]
    exact List.mem_cons_self
  · refine iff_of_false Bool.false_ne_true ?_
    rintro ⟨id, hid, q, hq, rfl⟩
    rw [hmrs, Host.mem_deregMr] at hq
    rcases hkept with hn | hn <;> rw [hn] at hid <;> cases hid
    exact hq.2 rfl

theorem registeredAfter_append_postSend (calls : List Call) (ok b : Bool) :
    registeredAfter (calls ++ [.postSend ok]) b = registeredAfter calls b := by
  simp [registeredAfter]

/-- One handled request keeps the ledger's invariant. -/
theorem Ledger.Inv.handle {g : Ledger} (h : g.Inv) (hc : c ∈ g.server.conns) {m : Handled}
    (hm : rpmemRcvCompletion o g.server c = .ok m) :
    Ledger.Inv ⟨m.server,
      Function.update g.registered c (registeredAfter m.calls (g.registered c))⟩ := by
  have hpool := h.pool.handle hc hm
  rcases rpmemRcvCompletion_cases hm with ⟨-, hs, hcalls⟩ | ⟨q, f, t, calls, -, ht, hs, hcalls⟩
  · rw [hs, hcalls]
    exact ⟨h.pool, h.regions, by simpa [registeredAfter] using h.note⟩
  have hsame : SameRegions t m.server := by
    rw [hs]
    exact .setUnit rfl
  refine ⟨hpool, hsame.mrInv (ht.mrInv h.pool h.regions), fun d => ?_⟩
  rw [hsame.holdsLive d, hcalls, registeredAfter_append_postSend]
  simp only
  by_cases hd : d = c
  · subst hd
    rw [Function.update_self]
    exact ht.note (h.note d)
  · rw [Function.update_of_ne hd, ht.holdsLive_of_ne h.pool h.regions hd]
    exact h.note d

theorem Ledger.Inv.of_same {g : Ledger} (h : g.Inv) {s : Server} (hp : s.PoolInv)
    (hs : SameRegions g.server s) : Ledger.Inv ⟨s, g.registered⟩ where
  pool := hp
  regions := hs.mrInv h.regions
  note d := by
    rw [hs.holdsLive d]
    exact h.note d

/-- A new unit changes no standing: its connection held nothing before. -/
theorem SameRegions.connect (h : s.PoolInv) (hc : c ∉ s.conns) :
    SameRegions s (rpmemConnectRequestHandler true s c) :=
  have hsame : SameRegions s (s.setUnit c ServerUnit.fresh) := .setUnit (h.connected c hc).symm
  ⟨hsame.res, hsame.resource, rfl, rfl⟩

/-- One event keeps the ledger's invariant. -/
theorem Ledger.Inv.step {g g' : Ledger} (h : g.Inv) {e : ServerEvent}
    (he : ledgerStep g e = some g') : g'.Inv := by
  cases e with
  | cm c ev accepted =>
      obtain ⟨s, hs, rfl⟩ := Option.map_eq_some_iff.1 he
      refine h.of_same (h.pool.step hs) ?_
      rcases serverStep_cases hs with ⟨-, rfl | ⟨c, hc, rfl⟩⟩ | ⟨c, msg, he, -⟩ | ⟨c, o, m, he, -⟩
      · exact ⟨fun _ => rfl, fun _ => rfl, rfl, rfl⟩
      · exact .connect h.pool hc
      · cases he
      · cases he
  | receive c msg =>
      obtain ⟨s, hs, rfl⟩ := Option.map_eq_some_iff.1 he
      refine h.of_same (h.pool.step hs) ?_
      rcases serverStep_cases hs with ⟨⟨_, _, _, he⟩, -⟩ | ⟨c, msg, -, -, -, rfl⟩ | ⟨c, o, m, he, -⟩
      · cases he
      · exact .setUnit rfl
      · cases he
  | handle c o =>
      rw [ledgerStep] at he
      split_ifs at he with hc
      split at he
      · rename_i m hm
        obtain rfl := Option.some.inj he
        have hpoll : SameRegions g.server (g.server.poll c) := .setUnit rfl
        have hpool : (g.server.poll c).PoolInv :=
          h.pool.of_pool_eq (Server.setUnit_pool rfl) rfl rfl
        exact (h.of_same hpool hpoll).handle hc.1 hm
      · cases he

theorem Ledger.Initial.inv {g : Ledger} (h : g.Initial) : g.Inv where
  pool := h.1.poolInv
  regions :=
    { mrs := fun q hq => by
        rw [h.1.mrs] at hq
        cases hq
      region_lt := fun c mr hc => by simp [Server.region, h.1.res c] at hc
      region_inj := fun c d mr hc => by simp [Server.region, h.1.res c] at hc
      owner := fun c mr hc => by simp [Server.region, h.1.res c] at hc }
  note c := by simp [h.2 c, Server.HoldsLive, Server.region, h.1.res c]

/-- **Which requests are safe.**  In every state the server reaches, over any
requests of any connections with any outcomes of the calls, the next request of
a connection is handled without a fault and without deregistering a region
twice if and only if its `rpmem_post_recv` fails, or: it is an UNMAP only if the
connection's last MAP or UNMAP was a MAP that registered what it claimed, and a
MAP only if the connection holds nothing or some resource of the list fits. -/
theorem handle_safe_iff {g : Ledger}
    (h : Lts.Reachable ledgerStep Lts.anyLabel Ledger.Initial g) (c : ConnId) (o : Outcomes) :
    SafeHandling g.server c o ↔
      (o.postRecv = true →
        (requestKind (g.server.unit c).req.bytes = some .unmapReq → g.registered c = true) ∧
        (requestKind (g.server.unit c).req.bytes = some .mapReq →
          (g.server.unit c).res = none ∨
            (g.server.fit (wordField (g.server.unit c).req.bytes)).isSome)) := by
  have hinv : g.Inv :=
    h.invariant (fun s hs => hs.inv) fun s e t hs _ he => hs.step he
  have hreq : ((g.server.poll c).unit c).req = (g.server.unit c).req := by simp [Server.poll]
  have hres : ((g.server.poll c).unit c).res = (g.server.unit c).res := by simp [Server.poll]
  have hpoll : SameRegions g.server (g.server.poll c) := .setUnit rfl
  have hlive : (g.server.poll c).HoldsLive c ↔ g.registered c = true :=
    (hpoll.holdsLive c).trans (hinv.note c).symm
  unfold SafeHandling Server.handle
  by_cases hr : o.postRecv = true
  swap
  · rw [Bool.not_eq_true] at hr
    exact iff_of_true (rpmemRcvCompletion_safe_of_refused (.inl hr)) (by simp [hr])
  simp only [hr, true_implies]
  by_cases hu : requestKind (g.server.unit c).req.bytes = some .unmapReq
  · rw [rpmemRcvCompletion_unmap_safe_iff (by rw [hreq, hu]) hr, hlive]
    simp [hu]
  by_cases hmk : requestKind (g.server.unit c).req.bytes = some .mapReq
  · rw [rpmemRcvCompletion_map_safe_iff (by rw [hreq, hmk]) hr, hreq, hres]
    simp only [hmk, true_implies, reduceCtorEq, Option.some.injEq, false_implies, true_and]
    rfl
  · exact iff_of_true (rpmemRcvCompletion_safe_of_refused (.inr (by rw [hreq]; exact ⟨hu, hmk⟩)))
      (by simp [hu, hmk])

/-- A MAP that was registered makes the UNMAP after it safe, whatever the calls
of that UNMAP return. -/
theorem handle_safe_iff_unmap_after_map :
    ∃ g, Lts.Reachable ledgerStep Lts.anyLabel Ledger.Initial g ∧
      requestKind (g.server.unit 0).req.bytes = some .unmapReq ∧
      ∀ o, SafeHandling g.server 0 o := by
  obtain ⟨g, hg, hp⟩ := Lts.exists_reachable_of_exec ledgerStep Lts.anyLabel Ledger.Initial
    (s := ⟨Server.main ⟨0, 8192, none, 0, 0⟩ Host.blank, fun _ => false⟩)
    ⟨Server.main_initial _ _ rfl, fun _ => rfl⟩
    [.cm 0 .connectRequest true, .receive 0 ⟨packMapReq Cmd.zero 4096, 1⟩,
      .handle 0 (Outcomes.allOk 0x7f0000000000 17),
      .receive 0 ⟨packUnmapReq Cmd.zero 4096 0x7f0000000000, 2⟩]
    (fun g => requestKind (g.server.unit 0).req.bytes = some .unmapReq ∧ g.registered 0 = true)
    (by decide)
  have hp' : requestKind (g.server.unit 0).req.bytes = some .unmapReq ∧ g.registered 0 = true := by
    simpa using hp
  refine ⟨g, hg, hp'.1, fun o => (handle_safe_iff hg 0 o).2 fun _ => ⟨fun _ => hp'.2, fun h => ?_⟩⟩
  rw [hp'.1] at h
  cases h

/-- **UNMAP before MAP crashes the server.**  The first request of the first
connection is an UNMAP, every call succeeds, and `res->mr` is read through a
`NULL` pointer. -/
theorem unmap_before_map_faults :
    ∃ t, Lts.Reachable serverStep Lts.anyLabel
        (· = Server.main ⟨0, 8192, none, 0, 0⟩ Host.blank) t ∧
      0 ∈ t.conns ∧ 0 < (t.unit 0).pending ∧
      ¬ SafeHandling t 0 (Outcomes.allOk 0x7f0000000000 17) := by
  obtain ⟨t, ht, hp⟩ := Lts.exists_reachable_of_exec serverStep Lts.anyLabel
    (· = Server.main ⟨0, 8192, none, 0, 0⟩ Host.blank) rfl
    [.cm 0 .connectRequest true, .receive 0 ⟨packUnmapReq Cmd.zero 4096 0, 1⟩]
    (fun t => 0 ∈ t.conns ∧ 0 < (t.unit 0).pending ∧
      (t.handle 0 (Outcomes.allOk 0x7f0000000000 17)).toOption.isNone) (by decide)
  have hp' : 0 ∈ t.conns ∧ 0 < (t.unit 0).pending ∧
      (t.handle 0 (Outcomes.allOk 0x7f0000000000 17)).toOption = none := by simpa using hp
  refine ⟨t, ht, hp'.1, hp'.2.1, ?_⟩
  rintro ⟨m, hm, -⟩
  rw [hm] at hp'
  exact Option.some_ne_none m hp'.2.2

end Rpmem
