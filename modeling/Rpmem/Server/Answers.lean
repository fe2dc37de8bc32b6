/-
# What a failed request leaves behind, and what a MAP is answered

`rpmem_handle_map` claims a resource before it knows whether it can map it.  A
`posix_fallocate` or `mmap` that fails is noted in `ret` and the code goes on; a
registration that fails undoes the mapping and not the claim.
`rpmem_handle_unmap` deregisters the region and clears the record before
`munmap`.  So a failure after the claim, or of `munmap`, changes the server.

The response to a MAP has no status: its address and its key are all the
client learns.  Both are locals that the early exits to `out` leave unset, and
the key is unset too when the registration failed.
-/

import Rpmem.Server.Steps

namespace Rpmem

/-! ### When the calls of a MAP succeed -/

/-- `mmap` succeeds: its choice is an address it can pick. -/
def Host.MmapGoes (h : Host) (len : BitVec 64) (choice : Option (BitVec 64)) : Prop :=
  ∃ a, choice = some a ∧ h.CanMap len a

/-- `ibv_reg_mr` succeeds: it finds a key that is not in use. -/
def Host.RegGoes (h : Host) (choice : Option (BitVec 32)) : Prop :=
  ∃ k, choice = some k ∧ ∀ q ∈ h.mrs, q.rkey ≠ k

variable {o : Outcomes} {s : Server} {c : ConnId} {r : ResId} {len : CInt}

theorem Host.isSome_mmap_iff (h : Host) (fd : ℕ) (flag : MapFlag) (len : BitVec 64)
    (choice : Option (BitVec 64)) :
    (h.mmap fd flag len choice).1.isSome = true ↔ h.MmapGoes len choice := by
  cases choice with
  | none => simp [Host.mmap, Host.MmapGoes]
  | some a =>
      by_cases ha : h.CanMap len a
      · simp [Host.mmap, Host.MmapGoes, ha]
      · simp [Host.mmap, Host.MmapGoes, ha]

/-- The three calls that turn a claimed resource into a region succeed. -/
def MapGoes (o : Outcomes) (h : Host) (len : CInt) : Prop :=
  o.posixFallocate = true ∧ h.MmapGoes (sizeT len) o.mmap ∧ h.RegGoes o.regMr

/-- A registration that succeeds: the response will say what was mapped. -/
theorem mapResource_of_reg (c : ConnId) (r : ResId) (len : CInt) {k : BitVec 32} (hk : o.regMr = some k)
    (hfresh : ∀ q ∈ s.host.mrs, q.rkey ≠ k) :
    ∃ a h₁ reg, s.host.mmap (s.resource r).fd .priv (sizeT len) o.mmap = (a, h₁) ∧
      reg = h₁.registration c (a.getD 0) (sizeT len) k ∧
      mapResource o s c r len =
        ⟨{ s.setResource r { s.resource r with
              mr := some reg.id, addr := a.getD 0, mapLen := len } with
            host := { h₁ with mrs := reg :: h₁.mrs, nextMr := h₁.nextMr + 1 } },
          [.posixFallocate o.posixFallocate, .mmap a, .regMr (some reg.id)], a.getD 0, k,
          if o.posixFallocate && a.isSome then 0 else -1⟩ := by
  obtain ⟨a, h₁, hmap⟩ :
      ∃ a h₁, s.host.mmap (s.resource r).fd .priv (sizeT len) o.mmap = (a, h₁) := ⟨_, _, rfl⟩
  have hfresh' : ∀ q ∈ h₁.mrs, q.rkey ≠ k := by
    rw [(Host.mmap_mrs hmap).1]
    exact hfresh
  have hreg : h₁.regMr c (a.getD 0) (sizeT len) o.regMr =
      (some (h₁.registration c (a.getD 0) (sizeT len) k),
        { h₁ with
          mrs := h₁.registration c (a.getD 0) (sizeT len) k :: h₁.mrs
          nextMr := h₁.nextMr + 1 }) := by
    rw [hk, Host.regMr, if_pos hfresh']
  refine ⟨a, h₁, _, hmap, rfl, ?_⟩
  unfold mapResource
  simp only [hmap, hreg]
  rfl

/-- A registration that fails: the address is cleared, the key was never set. -/
theorem mapResource_of_not_reg (h : ¬ s.host.RegGoes o.regMr) :
    (mapResource o s c r len).addr = 0 ∧ (mapResource o s c r len).rkey = o.junkRkey ∧
      (mapResource o s c r len).ret = -1 ∧
      ∀ id, Call.regMr (some id) ∉ (mapResource o s c r len).calls := by
  obtain ⟨a, h₁, hmap⟩ :
      ∃ a h₁, s.host.mmap (s.resource r).fd .priv (sizeT len) o.mmap = (a, h₁) := ⟨_, _, rfl⟩
  have hreg : h₁.regMr c (a.getD 0) (sizeT len) o.regMr = (none, h₁) := by
    cases hk : o.regMr with
    | none => rfl
    | some k =>
        rw [Host.regMr, if_neg]
        rw [(Host.mmap_mrs hmap).1]
        exact fun hfresh => h ⟨k, hk, hfresh⟩
  unfold mapResource
  simp only [hmap, hreg]
  exact ⟨trivial, trivial, trivial, by simp⟩

/-- **`ret` at `out`, after a claim**, is `0` if and only if the three calls succeed. -/
theorem mapResource_ret_eq_zero_iff (o : Outcomes) (s : Server) (c : ConnId) (r : ResId)
    (len : CInt) : (mapResource o s c r len).ret = 0 ↔ MapGoes o s.host len := by
  by_cases hreg : s.host.RegGoes o.regMr
  · obtain ⟨k, hk, hfresh⟩ := hreg
    obtain ⟨a, h₁, reg, hmap, -, hout⟩ := mapResource_of_reg c r len hk hfresh
    have ha : a.isSome = true ↔ s.host.MmapGoes (sizeT len) o.mmap := by
      rw [← Host.isSome_mmap_iff s.host (s.resource r).fd .priv, hmap]
    rw [hout, MapGoes, ← ha]
    cases o.posixFallocate <;> cases a.isSome <;> simp [Host.RegGoes, hk]
    exact hfresh
  · rw [(mapResource_of_not_reg hreg).2.2.1]
    exact iff_of_false (by decide) fun h => hreg h.2.2

/-! ### A failed MAP or UNMAP -/

/-- The pool, the unit's resource, the mappings, the registrations and the records
of `t` are those of `s`. -/
structure Untouched (s t : Server) (c : ConnId) : Prop where
  resList : t.resList = s.resList
  freeSize : t.freeSize = s.freeSize
  inUseSize : t.inUseSize = s.inUseSize
  res : (t.unit c).res = (s.unit c).res
  pages : t.host.pages = s.host.pages
  mrs : t.host.mrs = s.host.mrs
  records : ∀ r, (t.resource r).mr = (s.resource r).mr ∧ (t.resource r).addr = (s.resource r).addr ∧
    (t.resource r).mapLen = (s.resource r).mapLen

/-- If `rpmem_handle_map` comes to `out` with a failure, the server is as before. -/
def FailedMapUntouched (o : Outcomes) (s : Server) (c : ConnId) : Prop :=
  ∀ m, rpmemHandleMapBody o s c = .ok m → m.ret ≠ 0 → Untouched s m.server c

/-- If `rpmem_handle_unmap` comes to `out` with a failure, the server is as before. -/
def FailedUnmapUntouched (o : Outcomes) (s : Server) (c : ConnId) : Prop :=
  ∀ m, rpmemHandleUnmapBody o s c = .ok m → m.ret ≠ 0 → Untouched s m.server c

/-- Posting the receive again touches the request buffer and the queue pair only. -/
theorem untouched_postRecv (ok : Bool) : Untouched s (s.postRecv c ok) c where
  resList := rfl
  freeSize := rfl
  inUseSize := rfl
  res := by simp
  pages := rfl
  mrs := rfl
  records _ := ⟨rfl, rfl, rfl⟩

/-- A resource that was claimed has left the list. -/
theorem not_untouched_take (hr : r ∈ s.resList) {x : Resource} {host : Host} :
    ¬ Untouched s { ((s.postRecv c true).take c r).setResource r x with host := host } c := by
  intro h
  have hlen := congrArg List.length h.resList
  have hpos := List.length_pos_of_mem hr
  simp [List.length_erase_of_mem hr] at hlen
  omega

/-- **A MAP that fails leaves the server as it was** if and only if it fails before
it claims a resource. -/
theorem failedMapUntouched_iff :
    FailedMapUntouched o s c ↔
      ∀ r, o.postRecv = true → s.fit (wordField (s.unit c).req.bytes) = some r →
        MapGoes o s.host (wordField (s.unit c).req.bytes) := by
  constructor
  · intro h r hr hfit
    by_contra hgoes
    have hret := mt (mapResource_ret_eq_zero_iff o ((s.postRecv c true).take c r) c r _).1 hgoes
    obtain ⟨x, host, hs, -⟩ := mapResource_server o ((s.postRecv c true).take c r) c r
      (wordField (s.unit c).req.bytes)
    have hun := h _ (rpmemHandleMapBody_of_fit hr hfit) hret
    simp only [hs] at hun
    exact not_untouched_take (List.mem_of_find?_eq_some hfit) hun
  · intro h m hm hret
    cases hr : o.postRecv with
    | false =>
        rw [rpmemHandleMapBody_of_refused hr] at hm
        cases hm
        exact untouched_postRecv false
    | true =>
        cases hfit : s.fit (wordField (s.unit c).req.bytes) with
        | none =>
            rw [rpmemHandleMapBody_of_no_fit hr hfit] at hm
            split at hm
            · cases hm
              exact untouched_postRecv true
            · cases hm
        | some r =>
            rw [rpmemHandleMapBody_of_fit hr hfit] at hm
            cases hm
            have hzero := (mapResource_ret_eq_zero_iff o ((s.postRecv c true).take c r) c r _).2
              (h r hr hfit)
            exact absurd hzero hret

/-- Deregistering changes nothing if and only if the region was not registered. -/
theorem Host.deregMr_mrs_eq_iff (h : Host) (id : ℕ) : (h.deregMr id).mrs = h.mrs ↔ ¬ h.LiveMr id := by
  rw [Host.deregMr, List.filter_eq_self]
  constructor
  · rintro hall ⟨q, hq, rfl⟩
    simpa using hall q hq
  · intro hlive q hq
    have hne : q.id ≠ id := fun he => hlive ⟨q, hq, he⟩
    simpa using hne

/-- An UNMAP whose `munmap` failed leaves the server as it was if and only if there
was nothing to deregister and to clear. -/
theorem untouched_unmapResource_iff {mr : ℕ} {addr : BitVec 64} (hmr : (s.resource r).mr = some mr)
    (hfail : ¬ (o.munmap = true ∧ Host.CanUnmap addr (sizeT len))) :
    (unmapResource o (s.postRecv c true) c r mr addr len).ret = -1 ∧
      (Untouched s (unmapResource o (s.postRecv c true) c r mr addr len).server c ↔
        ¬ s.host.LiveMr mr ∧ (s.resource r).addr = 0 ∧ (s.resource r).mapLen = 0) := by
  have hout : unmapResource o (s.postRecv c true) c r mr addr len =
      ⟨{ (s.postRecv c true).setResource r { s.resource r with mapLen := 0, addr := 0 } with
          host := s.host.deregMr mr },
        [.deregMr mr (decide (s.host.LiveMr mr)), .munmap addr (sizeT len) (-1)], -1⟩ := by
    unfold unmapResource Host.munmap
    simp only [Server.postRecv_host, Server.postRecv_resource, if_neg hfail]
    rfl
  rw [hout]
  refine ⟨rfl, fun h => ?_, fun h => ?_⟩
  · have hrec := h.records r
    simp only [Server.setResource_resource, Function.update_self] at hrec
    exact ⟨(s.host.deregMr_mrs_eq_iff mr).1 h.mrs, hrec.2.1.symm, hrec.2.2.symm⟩
  · refine ⟨rfl, rfl, rfl, by simp, rfl, (s.host.deregMr_mrs_eq_iff mr).2 h.1, fun r' => ?_⟩
    by_cases hr : r' = r
    · subst hr
      simp [h.2.1, h.2.2]
    · simp [hr]

/-- **An UNMAP that fails leaves the server as it was** if and only if it fails in
`rpmem_post_recv`, or it had nothing to deregister and to clear. -/
theorem failedUnmapUntouched_iff :
    FailedUnmapUntouched o s c ↔
      ∀ r mr, o.postRecv = true → (s.unit c).res = some r → (s.resource r).mr = some mr →
        (o.munmap = true ∧ Host.CanUnmap (addrField (s.unit c).req.bytes)
          (sizeT (wordField (s.unit c).req.bytes))) ∨
        (¬ s.host.LiveMr mr ∧ (s.resource r).addr = 0 ∧ (s.resource r).mapLen = 0) := by
  constructor
  · intro h r mr hr hres hmr
    refine or_iff_not_imp_left.2 fun hfail => ?_
    obtain ⟨hret, hiff⟩ := untouched_unmapResource_iff (c := c) hmr hfail
    have hbody := rpmemHandleUnmapBody_of_some hr hres
    rw [hmr] at hbody
    have hne : (unmapResource o (s.postRecv c true) c r mr (addrField (s.unit c).req.bytes)
        (wordField (s.unit c).req.bytes)).ret ≠ 0 := by
      rw [hret]
      decide
    have hun := h _ hbody hne
    exact hiff.1 hun
  · intro h m hm hret
    cases hr : o.postRecv with
    | false =>
        rw [rpmemHandleUnmapBody_of_refused hr] at hm
        cases hm
        exact untouched_postRecv false
    | true =>
        cases hres : (s.unit c).res with
        | none =>
            rw [rpmemHandleUnmapBody_of_none hr hres] at hm
            cases hm
        | some r =>
            rw [rpmemHandleUnmapBody_of_some hr hres] at hm
            cases hmr : (s.resource r).mr with
            | none =>
                rw [hmr] at hm
                cases hm
            | some mr =>
                rw [hmr] at hm
                cases hm
                by_cases hok : o.munmap = true ∧ Host.CanUnmap (addrField (s.unit c).req.bytes)
                    (sizeT (wordField (s.unit c).req.bytes))
                · refine absurd ?_ hret
                  unfold unmapResource Host.munmap
                  simp only [if_pos hok]
                · exact (untouched_unmapResource_iff hmr hok).2.2
                    ((h r mr hr hres hmr).resolve_left hok)

/-- **When a failed MAP or UNMAP leaves the server as it was.**  For every state,
request and outcome of the calls: a MAP does if and only if, once it has claimed
a resource, it can allocate, map and register it; an UNMAP if and only if, once
it has posted its receive, its `munmap` succeeds or there was nothing left to
deregister and to clear. -/
theorem failed_request_untouched_iff (o : Outcomes) (s : Server) (c : ConnId) :
    (FailedMapUntouched o s c ↔
      ∀ r, o.postRecv = true → s.fit (wordField (s.unit c).req.bytes) = some r →
        MapGoes o s.host (wordField (s.unit c).req.bytes)) ∧
    (FailedUnmapUntouched o s c ↔
      ∀ r mr, o.postRecv = true → (s.unit c).res = some r → (s.resource r).mr = some mr →
        (o.munmap = true ∧ Host.CanUnmap (addrField (s.unit c).req.bytes)
          (sizeT (wordField (s.unit c).req.bytes))) ∨
        (¬ s.host.LiveMr mr ∧ (s.resource r).addr = 0 ∧ (s.resource r).mapLen = 0)) :=
  ⟨failedMapUntouched_iff, failedUnmapUntouched_iff⟩

/-- **A MAP that cannot be registered keeps the resource.**  It fails, and yet the
list is empty and the unit holds the resource. -/
theorem failed_map_keeps_resource :
    ∃ s o, Lts.Reachable serverStep Lts.anyLabel Server.Initial s ∧ 0 < (s.unit 0).pending ∧
      ¬ FailedMapUntouched o s 0 := by
  obtain ⟨s, hs, hp⟩ := Lts.exists_reachable_of_exec serverStep Lts.anyLabel Server.Initial
    (Server.main_initial ⟨0, 8192, none, 0, 0⟩ Host.blank rfl)
    [.cm 0 .connectRequest true, .receive 0 ⟨packMapReq Cmd.zero 4096, 1⟩]
    (fun s => decide (0 < (s.unit 0).pending ∧ s.resList = [0]) &&
      match rpmemHandleMapBody { Outcomes.allOk 0x7f0000000000 17 with regMr := none } s 0 with
      | .ok m => decide (m.ret = -1 ∧ m.server.resList = [])
      | .error _ => false) (by decide)
  obtain ⟨hstate, hbody⟩ := (Bool.and_eq_true _ _).mp hp
  obtain ⟨hpend, hlist⟩ := of_decide_eq_true hstate
  refine ⟨s, { Outcomes.allOk 0x7f0000000000 17 with regMr := none }, hs, hpend, fun h => ?_⟩
  split at hbody
  · rename_i m hm
    obtain ⟨hret, hlist'⟩ := of_decide_eq_true hbody
    have hun := h m hm (by rw [hret]; decide)
    rw [← hun.resList, hlist'] at hlist
    cases hlist
  · cases hbody

/-! ### The response to a MAP -/

/-- This request took a resource from the list, allocated and mapped it at `a`, and
registered the mapping under the key `k`. -/
def Granted (s : Server) (h : Handled) (c : ConnId) (a : BitVec 64) (k : BitVec 32) : Prop :=
  ∃ r ∈ s.resList, h.server.resList = s.resList.erase r ∧ (h.server.unit c).res = some r ∧
    Call.posixFallocate true ∈ h.calls ∧ Call.mmap (some a) ∈ h.calls ∧
    ∃ q ∈ h.server.host.mrs, q ∉ s.host.mrs ∧ Call.regMr (some q.id) ∈ h.calls ∧
      (h.server.resource r).mr = some q.id ∧ q.addr = a ∧ q.rkey = k

/-- The `MAP_RSP` that is sent tells the truth: it has an address if and only if the
request was granted, then the granted one and its key, and no byte of it comes
from an uninitialised local. -/
def Truthful (o : Outcomes) (s : Server) (c : ConnId) : Prop :=
  ∀ h, rpmemHandleMap o s c = .ok h → o.postSend = true →
    (addrField (h.server.unit c).rsp.bytes ≠ 0 ↔ ∃ a k, Granted s h c a k) ∧
    (∀ a k, Granted s h c a k → addrField (h.server.unit c).rsp.bytes = a ∧
      wordField (h.server.unit c).rsp.bytes = k) ∧
    ∀ addr rkey h', rpmemHandleMap { o with junkAddr := addr, junkRkey := rkey } s c = .ok h' →
      (h'.server.unit c).rsp.bytes = (h.server.unit c).rsp.bytes

/-- The handler packs what its locals hold at `out`. -/
theorem rpmemHandleMap_of_body {m : MapOut} (hm : rpmemHandleMapBody o s c = .ok m) :
    ∃ h, rpmemHandleMap o s c = .ok h ∧
      (h.server.unit c).rsp.bytes = packMapRsp (s.unit c).rsp.bytes m.rkey m.addr ∧
      h.calls = m.calls ++ [.postSend o.postSend] ∧ h.server.resList = m.server.resList ∧
      (h.server.unit c).res = (m.server.unit c).res ∧ h.server.host = m.server.host ∧
      h.server.resource = m.server.resource := by
  have hrsp := (rpmemHandleMapBody_cases hm).unit_self.1
  unfold rpmemHandleMap
  rw [hm]
  refine ⟨_, rfl, ?_, rfl, rfl, ?_, rfl, rfl⟩
  · simp [hrsp]
  · simp

/-- Two responses packed into one buffer are equal if and only if their fields are. -/
theorem packMapRsp_inj {b : Cmd} {k k' : BitVec 32} {a a' : BitVec 64} :
    packMapRsp b k a = packMapRsp b k' a' ↔ k = k' ∧ a = a' := by
  refine ⟨fun h => ⟨?_, ?_⟩, fun h => by rw [h.1, h.2]⟩
  · have := congrArg wordField h
    rwa [packMapRsp, packMapRsp, wordField_packWordAddr, wordField_packWordAddr] at this
  · have := congrArg addrField h
    rwa [packMapRsp, packMapRsp, addrField_packWordAddr, addrField_packWordAddr] at this

/-- A response with a local that was never set is not truthful. -/
theorem not_truthful_of_junk {m : MapOut} (hsend : o.postSend = true)
    (hm : rpmemHandleMapBody o s c = .ok m)
    (hjunk : ∀ k, ∃ m', rpmemHandleMapBody { o with junkRkey := k } s c = .ok m' ∧ m'.rkey = k) :
    ¬ Truthful o s c := by
  intro ht
  obtain ⟨h, hh, hbytes, -⟩ := rpmemHandleMap_of_body hm
  obtain ⟨m', hm', hkey⟩ := hjunk (m.rkey + 1)
  obtain ⟨h', hh', hbytes', -⟩ := rpmemHandleMap_of_body hm'
  have heq := (ht h hh hsend).2.2 o.junkAddr (m.rkey + 1) h' hh'
  rw [hbytes, hbytes', packMapRsp_inj, hkey] at heq
  simp at heq

/-- An unhinted `mmap` never picks `NULL`. -/
theorem Host.CanMap.ne_zero {h : Host} {len a : BitVec 64} (ha : h.CanMap len a) : a ≠ 0 := by
  rintro rfl
  have := ha.2.2.1
  simp [taskUnmappedBase] at this

/-- What `mmap` returns for the resource `r`. -/
def mappedAt (o : Outcomes) (s : Server) (r : ResId) (len : CInt) : Option (BitVec 64) :=
  (s.host.mmap (s.resource r).fd .priv (sizeT len) o.mmap).1

theorem mappedAt_ne_zero (o : Outcomes) (s : Server) (r : ResId) (len : CInt) :
    mappedAt o s r len ≠ some 0 := by
  rcases Host.mmap_cases (h := s.host) (s.resource r).fd .priv (sizeT len) o.mmap with
    he | ⟨a, ha, he⟩ <;> rw [mappedAt, he]
  · simp
  · exact fun h => ha.ne_zero (Option.some.inj h)

/-- **The response of a MAP that could register what it claimed.**  Its key is the
new one, its address what `mmap` returned or `NULL`, and the request was granted
if `mmap` and `posix_fallocate` succeeded. -/
theorem rpmemHandleMap_of_reg {k : BitVec 32} (hr : o.postRecv = true)
    (hfit : s.fit (wordField (s.unit c).req.bytes) = some r) (hk : o.regMr = some k)
    (hfresh : ∀ q ∈ s.host.mrs, q.rkey ≠ k) :
    ∃ h, rpmemHandleMap o s c = .ok h ∧
      (h.server.unit c).rsp.bytes = packMapRsp (s.unit c).rsp.bytes k
        ((mappedAt o s r (wordField (s.unit c).req.bytes)).getD 0) ∧
      ∀ a' k', Granted s h c a' k' ↔ o.posixFallocate = true ∧
        mappedAt o s r (wordField (s.unit c).req.bytes) = some a' ∧ k = k' := by
  obtain ⟨a, h₁, reg, hmap, hreg, hout⟩ := mapResource_of_reg (s := (s.postRecv c true).take c r) c r
    (wordField (s.unit c).req.bytes) hk hfresh
  obtain ⟨h, hh, hbytes, hcalls, hlist, hres, hhost, hresource⟩ :=
    rpmemHandleMap_of_body (rpmemHandleMapBody_of_fit hr hfit)
  have hmrs : h₁.mrs = s.host.mrs := (Host.mmap_mrs hmap).1
  have hmem : r ∈ s.resList := List.mem_of_find?_eq_some hfit
  have hkey : reg.rkey = k := by rw [hreg]; rfl
  simp only [hout] at hbytes hcalls hlist hres hhost hresource
  have ha : mappedAt o s r (wordField (s.unit c).req.bytes) = a := congrArg Prod.fst hmap
  rw [ha]
  refine ⟨h, hh, hbytes, fun a' k' => ⟨?_, ?_⟩⟩
  · rintro ⟨r', -, -, -, hfall, hmm, q, hq, hnew, -, -, -, hqk⟩
    rw [hcalls] at hfall hmm
    have hqreg : q = reg := by
      rw [hhost] at hq
      rcases List.mem_cons.1 hq with hq | hq
      · exact hq
      · exact absurd (hmrs ▸ hq) hnew
    refine ⟨?_, ?_, ?_⟩
    · simpa using hfall
    · exact (by simpa using hmm : some a' = a).symm
    · rw [← hkey, ← hqreg, hqk]
  · rintro ⟨hfall, rfl, rfl⟩
    refine ⟨r, hmem, ?_, ?_, ?_, ?_, reg, ?_, ?_, ?_, ?_, ?_, ?_⟩
    · simpa using hlist
    · simpa using hres
    · simp [hcalls, hfall]
    · simp [hcalls]
    · simp [hhost]
    · exact fun hold => hfresh reg hold hkey
    · simp [hcalls]
    · simp [hresource]
    · simp [hreg, Host.registration]
    · exact hkey

/-- A response whose key is that of a registration tells the truth unless its mapping
has no space behind it. -/
theorem truthful_iff_of_reg (hsend : o.postSend = true) (hr : o.postRecv = true)
    (hfit : s.fit (wordField (s.unit c).req.bytes) = some r) (hreg : s.host.RegGoes o.regMr) :
    Truthful o s c ↔ (s.host.MmapGoes (sizeT (wordField (s.unit c).req.bytes)) o.mmap →
      o.posixFallocate = true) := by
  obtain ⟨k, hk, hfresh⟩ := hreg
  obtain ⟨h, hh, hbytes, hgranted⟩ := rpmemHandleMap_of_reg hr hfit hk hfresh
  have hsome : (mappedAt o s r (wordField (s.unit c).req.bytes)).isSome = true ↔
      s.host.MmapGoes (sizeT (wordField (s.unit c).req.bytes)) o.mmap :=
    Host.isSome_mmap_iff _ _ _ _ _
  rw [← hsome]
  have hne := mappedAt_ne_zero o s r (wordField (s.unit c).req.bytes)
  have haddr : addrField (h.server.unit c).rsp.bytes =
      (mappedAt o s r (wordField (s.unit c).req.bytes)).getD 0 := by
    rw [hbytes, packMapRsp, addrField_packWordAddr]
  have hword : wordField (h.server.unit c).rsp.bytes = k := by
    rw [hbytes, packMapRsp, wordField_packWordAddr]
  constructor
  · intro ht hmap
    obtain ⟨a, ha⟩ := Option.isSome_iff_exists.1 hmap
    have hnz : addrField (h.server.unit c).rsp.bytes ≠ 0 := by
      rw [haddr, ha]
      rintro hz
      exact hne (ha.trans (congrArg some hz))
    obtain ⟨a', k', hg⟩ := (ht h hh hsend).1.1 hnz
    exact ((hgranted a' k').1 hg).1
  · intro hfall h' hh' _
    obtain rfl : h = h' := Except.ok.inj (hh.symm.trans hh')
    refine ⟨⟨fun hnz => ?_, ?_⟩, fun a k' hg => ?_, fun addr rkey h' hh' => ?_⟩
    · rw [haddr] at hnz
      cases ha : mappedAt o s r (wordField (s.unit c).req.bytes) with
      | none => simp [ha] at hnz
      | some a => exact ⟨a, k, (hgranted a k).2 ⟨hfall (by rw [ha]; rfl), ha, rfl⟩⟩
    · rintro ⟨a, k', hg⟩ hz
      obtain ⟨-, ha, -⟩ := (hgranted a k').1 hg
      rw [haddr, ha] at hz
      exact hne (ha.trans (congrArg some hz))
    · obtain ⟨-, ha, hk'⟩ := (hgranted a k').1 hg
      rw [haddr, hword, ha]
      exact ⟨rfl, hk'⟩
    · obtain ⟨h'', hh'', hbytes', -⟩ :=
        rpmemHandleMap_of_reg (o := { o with junkAddr := addr, junkRkey := rkey }) hr hfit hk hfresh
      obtain rfl : h'' = h' := Except.ok.inj (hh''.symm.trans hh')
      rw [hbytes', hbytes]
      rfl

/-- **When a MAP response tells the truth.**  For every state, length and outcome
of the calls, a response that is sent does if and only if the receive was posted
again and either nothing fits and the connection holds a resource already, where
the handler crashes before it answers, or what was claimed could be registered,
and also allocated if it could be mapped. -/
theorem map_response_truthful_iff (o : Outcomes) (s : Server) (c : ConnId) :
    Truthful o s c ↔ (o.postSend = true → o.postRecv = true ∧
      (s.fit (wordField (s.unit c).req.bytes) = none → (s.unit c).res ≠ none) ∧
      ∀ r, s.fit (wordField (s.unit c).req.bytes) = some r → s.host.RegGoes o.regMr ∧
        (s.host.MmapGoes (sizeT (wordField (s.unit c).req.bytes)) o.mmap →
          o.posixFallocate = true)) := by
  cases hsend : o.postSend with
  | false =>
      refine iff_of_true (fun h _ hs => ?_) (by simp)
      rw [hsend] at hs
      cases hs
  | true =>
  cases hr : o.postRecv with
  | false =>
      refine iff_of_false (not_truthful_of_junk hsend (rpmemHandleMapBody_of_refused hr) fun k => ?_)
        (by simp)
      exact ⟨_, rpmemHandleMapBody_of_refused hr, rfl⟩
  | true =>
  cases hfit : s.fit (wordField (s.unit c).req.bytes) with
  | none =>
      have hbody : ∀ o' : Outcomes, o'.postRecv = true → rpmemHandleMapBody o' s c = _ :=
        fun o' hr' => rpmemHandleMapBody_of_no_fit hr' hfit
      cases hres : (s.unit c).res with
      | none =>
          rw [hres] at hbody
          refine iff_of_false (not_truthful_of_junk hsend (hbody o hr) fun k => ?_) (by simp)
          exact ⟨_, hbody { o with junkRkey := k } hr, rfl⟩
      | some r =>
          rw [hres] at hbody
          refine iff_of_true (fun h hh => ?_) (by simp)
          unfold rpmemHandleMap at hh
          rw [hbody o hr] at hh
          cases hh
  | some r =>
      by_cases hreg : s.host.RegGoes o.regMr
      · rw [truthful_iff_of_reg hsend hr hfit hreg]
        simp [hreg]
      · refine iff_of_false (not_truthful_of_junk hsend (rpmemHandleMapBody_of_fit hr hfit)
          fun k => ?_) (by simp [hreg])
        refine ⟨_, rpmemHandleMapBody_of_fit (o := { o with junkRkey := k }) hr hfit, ?_⟩
        exact (mapResource_of_not_reg (s := (s.postRecv c true).take c r)
          (o := { o with junkRkey := k }) hreg).2.1

/-- **A refused MAP is answered with an address.**  Nothing fits 8192 bytes, and the
response carries whatever the locals of the handler held. -/
theorem refused_map_answers_junk :
    ∃ s, Lts.Reachable serverStep Lts.anyLabel Server.Initial s ∧ 0 < (s.unit 0).pending ∧
      ¬ Truthful (Outcomes.allOk 0x7f0000000000 17) s 0 := by
  obtain ⟨s, hs, hp⟩ := Lts.exists_reachable_of_exec serverStep Lts.anyLabel Server.Initial
    (Server.main_initial ⟨0, 8192, none, 0, 0⟩ Host.blank rfl)
    [.cm 0 .connectRequest true, .receive 0 ⟨packMapReq Cmd.zero 8192, 1⟩]
    (fun s => decide (0 < (s.unit 0).pending ∧ (s.unit 0).res = none ∧
      s.fit (wordField (s.unit 0).req.bytes) = none)) (by decide)
  obtain ⟨hpend, hres, hfit⟩ := of_decide_eq_true hp
  have hbody : ∀ o : Outcomes, o.postRecv = true → rpmemHandleMapBody o s 0 =
      .ok ⟨s.postRecv 0 true, [.postRecv true], o.junkAddr, o.junkRkey, -1⟩ := by
    intro o hr
    rw [rpmemHandleMapBody_of_no_fit hr hfit, hres]
  refine ⟨s, hs, hpend, not_truthful_of_junk rfl (hbody _ rfl) fun k => ?_⟩
  exact ⟨_, hbody { Outcomes.allOk 0x7f0000000000 17 with junkRkey := k } rfl, rfl⟩

end Rpmem
