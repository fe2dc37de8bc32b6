/-
# The resource list, pointer by pointer

`res_list` is a list of `sys/queue.h`: `slh_first` points to the first resource
and `entry.sle_next` of each one to the next.  `rpmem_handle_map` walks it with
`SLIST_FOREACH_SAFE` and unlinks the resource it takes with `SLIST_REMOVE`,
which walks from the head again; `rpmem_handle_unmap` puts a resource back with
`SLIST_INSERT_HEAD`.  Nothing checks that what is unlinked is in the list, or
that what is inserted is not: unlinking a resource that is not there follows a
null pointer, and inserting one that is there closes a cycle in which the next
walk never ends.

Here the pointers run beside the server, on what its requests make the macros
do, and the list of the server's model is never looked at.  They hold that list
in every state the server reaches, whatever is asked of it: a resource a unit
holds is not in the list (`Server.PoolInv`).
-/

import Rpmem.Lib.LinkedList
import Rpmem.Server.FirstFit

namespace Rpmem

open Linked

/-- The locked sections on `res_list`: the scan of `rpmem_handle_map`, and the insertion of
`rpmem_handle_unmap`. -/
inductive ListOp
  | claim (len : CInt)
  | insert (r : ResId)
  deriving DecidableEq, Repr

/-- A `munmap` that returned `0`. -/
def Call.unmapped : Call → Bool
  | .munmap _ _ ret => decide (ret = 0)
  | _ => false

/-- The locked section an event goes through. -/
def Server.listOp (s : Server) : ServerEvent → Option ListOp
  | .handle c o =>
      match requestKind (s.unit c).req.bytes, s.handle c o with
      | some .mapReq, _ =>
          if o.postRecv then some (.claim (wordField (s.unit c).req.bytes)) else none
      | some .unmapReq, .ok m =>
          if m.calls.any Call.unmapped then (s.unit c).res.map .insert else none
      | _, _ => none
  | .cm _ _ _ | .receive _ _ => none

/-- The scan of `rpmem_handle_map` on the pointers: `res` after the loop, and the pointers. -/
def Server.claimLinks (fuel : ℕ) (s : Server) (len : CInt) (links : Links ResId) :
    Walk (Option ResId × Links ResId) :=
  (links.scan (s.accepts len) fuel links.first).bind fun res =>
    match res with
    | none => .done (none, links)
    | some r => (links.remove fuel r).bind fun links => .done (some r, links)

/-- What a locked section does to the pointers. -/
def Server.runOp (fuel : ℕ) (s : Server) (links : Links ResId) : Option ListOp → Walk (Links ResId)
  | none => .done links
  | some (.claim len) => (s.claimLinks fuel len links).bind fun p => .done p.2
  | some (.insert r) => .done (links.insertHead r)

/-- The pointers after an event; a walk that faults or does not end stays so. -/
def noteLinks (fuel : ℕ) (s : Server) (e : ServerEvent) (_ : Server) (w : Walk (Links ResId)) :
    Walk (Links ResId) :=
  w.bind fun links => s.runOp fuel links (s.listOp e)

/-- What a locked section does to the list. -/
def Server.listAfter (s : Server) : Option ListOp → List ResId
  | none => s.resList
  | some (.claim len) => Scan.rest s.resList (s.fit len)
  | some (.insert r) => r :: s.resList

variable {o : Outcomes} {s t : Server} {c : ConnId} {fuel : ℕ}

section Lists

variable {f : RspKind.mapRsp.Fields} {f' : RspKind.unmapRsp.Fields} {calls : List Call}

/-- `rpmem_handle_map` takes what its scan stops at off the list. -/
theorem Served.resList_map (h : Served o s c .mapRsp f t calls) :
    t.resList = if o.postRecv then Scan.rest s.resList (s.fit (wordField (s.unit c).req.bytes))
      else s.resList := by
  cases h with
  | mapRefused hno =>
      split_ifs with hr
      · rw [(hno hr).1]
        rfl
      · rfl
  | mapped r m hr hfit hm =>
      obtain ⟨x, host, hs, -⟩ := mapResource_server o ((s.postRecv c true).take c r) c r
        (wordField (s.unit c).req.bytes)
      rw [if_pos hr, hfit, ← hm, hs]
      rfl

/-- `rpmem_handle_unmap` puts the resource of its unit back once `munmap` returned `0`. -/
theorem Served.resList_unmap (h : Served o s c .unmapRsp f' t calls) :
    t.resList =
      s.listAfter (if calls.any Call.unmapped then (s.unit c).res.map .insert else none) := by
  cases h with
  | unmapRefused => rfl
  | unmapped r mr m hr hres hmr hm =>
      obtain ⟨ret, host, -, hcase⟩ := unmapResource_cases o (s.postRecv c true) c r mr
        (addrField (s.unit c).req.bytes) (wordField (s.unit c).req.bytes)
      rw [← hm, hcase, hres]
      have hany : [Call.postRecv true, .deregMr mr (decide ((s.postRecv c true).host.LiveMr mr)),
          .munmap (addrField (s.unit c).req.bytes) (sizeT (wordField (s.unit c).req.bytes)) ret].any
            Call.unmapped = decide (ret = 0) := by
        simp [Call.unmapped]
      simp only [hany, decide_eq_true_eq]
      by_cases hret : ret = 0
      · rw [if_pos hret, if_pos hret]
        rfl
      · rw [if_neg hret, if_neg hret]
        rfl

/-- The other handlers leave the list. -/
theorem Served.resList_of_ne {k : RspKind} {f : k.Fields} (h : Served o s c k f t calls)
    (hmap : k ≠ .mapRsp) (hunmap : k ≠ .unmapRsp) : t.resList = s.resList := by
  cases h with
  | opened | closed | commitRefused | committed => rfl
  | mapRefused | mapped => exact absurd rfl hmap
  | unmapRefused | unmapped => exact absurd rfl hunmap

end Lists

/-- **What an event does to the list** is what its locked section does. -/
theorem serverStep_resList {e : ServerEvent} (he : serverStep s e = some t) :
    t.resList = s.listAfter (s.listOp e) := by
  rcases serverStep_cases he with ⟨⟨c, ev, accepted, rfl⟩, ht⟩ | ⟨c, msg, rfl, -, -, rfl⟩ |
    ⟨c, o, m, rfl, -, -, hm, rfl⟩
  · rcases ht with rfl | ⟨d, -, rfl⟩ <;> rfl
  · rfl
  have hreq : ((s.poll c).unit c).req = (s.unit c).req := by simp [Server.poll]
  have hres : ((s.poll c).unit c).res = (s.unit c).res := by simp [Server.poll]
  rcases rpmemRcvCompletion_cases hm with ⟨hk, hs, -⟩ | ⟨q, f, t, calls, hk, ht, hs, hcalls⟩
  · rw [hreq] at hk
    rw [hs]
    simp only [Server.listOp, hk]
    rfl
  · rw [hreq] at hk
    have hlist : m.server.resList = t.resList := by rw [hs]; rfl
    rw [hlist]
    cases q with
    | mapReq =>
        rw [ht.resList_map, hreq]
        simp only [Server.listOp, hk]
        split_ifs <;> rfl
    | unmapReq =>
        have hany : m.calls.any Call.unmapped = calls.any Call.unmapped := by
          rw [hcalls]
          simp [Call.unmapped]
        rw [ht.resList_unmap, hres]
        simp only [Server.listOp, hk, hm, hany]
        rfl
    | openReq | closeReq | commitReq =>
        rw [ht.resList_of_ne (by decide) (by decide)]
        simp only [Server.listOp, hk]
        rfl

/-- What is put back is held by a unit. -/
theorem Server.held_of_listOp {e : ServerEvent} {r : ResId} (h : s.listOp e = some (.insert r)) :
    ∃ c, (s.unit c).res = some r := by
  cases e with
  | cm | receive => cases h
  | handle c o =>
      refine ⟨c, ?_⟩
      simp only [Server.listOp] at h
      split at h
      · split at h <;> cases h
      · split at h
        · obtain ⟨r', hr, hr'⟩ := Option.map_eq_some_iff.1 h
          rw [hr]
          exact congrArg some (ListOp.insert.inj hr')
        · cases h
      · cases h

/-- **The scan on the pointers** stops where the scan of the list does, unlinks what it
stopped at, and comes back. -/
theorem Server.claimLinks_eq {links : Links ResId} (h : links.Holds s.resList) (len : CInt)
    (hfuel : s.resList.length < fuel) :
    ∃ links', s.claimLinks fuel len links = .done (s.fit len, links') ∧
      links'.Holds (Scan.rest s.resList (s.fit len)) := by
  have hscan : links.scan (s.accepts len) fuel links.first = .done (s.fit len) :=
    Links.scan_eq_find? (s.accepts len) h hfuel
  rw [Server.claimLinks, hscan, Walk.bind_done]
  cases hfit : s.fit len with
  | none => exact ⟨links, rfl, h⟩
  | some r =>
      obtain ⟨links', hremove, hholds⟩ := h.remove (List.mem_of_find?_eq_some hfit) hfuel.le
      exact ⟨links', by simp only [hremove, Walk.bind_done], hholds⟩

/-- One event keeps the pointers on the list. -/
theorem Server.PoolInv.links {links : Links ResId} (hp : s.PoolInv) (h : links.Holds s.resList)
    (hfuel : s.resList.length < fuel) {e : ServerEvent} (he : serverStep s e = some t) :
    ∃ links', s.runOp fuel links (s.listOp e) = .done links' ∧ links'.Holds t.resList := by
  rw [serverStep_resList he]
  cases hop : s.listOp e with
  | none => exact ⟨links, rfl, h⟩
  | some op =>
      cases op with
      | claim len =>
          obtain ⟨links', hclaim, hholds⟩ := Server.claimLinks_eq h len hfuel
          exact ⟨links', by simp only [Server.runOp, hclaim, Walk.bind_done], hholds⟩
      | insert r =>
          obtain ⟨c, hr⟩ := Server.held_of_listOp hop
          exact ⟨_, rfl, h.insertHead (hp.exclusive.not_free c r hr)⟩

/-- No event brings a new resource. -/
theorem serverStep_within {all : Set ResId} (h : s.pool.Within all) (hp : s.PoolInv)
    {e : ServerEvent} (he : serverStep s e = some t) : t.pool.Within all := by
  rcases serverStep_pool hp he with heq | ⟨c, o, r, -, -, -, -, hfit, heq⟩ | ⟨c, r, hres, heq⟩ <;>
    rw [heq]
  · exact h
  · exact h.take (List.mem_of_find?_eq_some hfit)
  · exact h.give hres

/-- `SLIST_INIT` and the insertions of `main` have made the list, and the walks have fuel for it. -/
def LinkedInitial (fuel : ℕ) (p : Server × Walk (Links ResId)) : Prop :=
  p.1.Initial ∧ p.1.resList.length < fuel ∧ ∃ links, p.2 = .done links ∧ links.Holds p.1.resList

/-- The pointers hold the list, which is no longer than the one `main` made. -/
structure LinkedInv (l : List ResId) (p : Server × Walk (Links ResId)) : Prop where
  pool : p.1.PoolInv
  within : p.1.pool.Within {r | r ∈ l}
  links : ∃ links, p.2 = .done links ∧ links.Holds p.1.resList

theorem LinkedInv.length_le {l : List ResId} {p : Server × Walk (Links ResId)}
    (h : LinkedInv l p) : p.1.resList.length ≤ l.length :=
  (h.pool.exclusive.nodup.subperm h.within.free).length_le

theorem LinkedInv.step {l : List ResId} {p q : Server × Walk (Links ResId)} (h : LinkedInv l p)
    (hfuel : l.length < fuel) {e : ServerEvent}
    (he : Lts.noted serverStep (noteLinks fuel) p e = some q) : LinkedInv l q := by
  obtain ⟨hstep, hnote⟩ := Lts.noted_eq_some he
  obtain ⟨links, hdone, hholds⟩ := h.links
  have hlen := h.length_le
  obtain ⟨links', hrun, hholds'⟩ := h.pool.links hholds (hlen.trans_lt hfuel) hstep
  refine ⟨h.pool.step hstep, serverStep_within h.within h.pool hstep, links', ?_, hholds'⟩
  rw [hnote, hdone, noteLinks, Walk.bind_done, hrun]

/-- **The pointers of `res_list` hold the list.**  Over any interleaving of the requests of any
number of connections with any outcomes of the calls, no walk follows a null pointer or fails to
end: from `slh_first` the pointers lead once through each resource of the list and then to
`NULL`, and the scan of the next MAP, whatever its length, stops at the first resource that fits
and unlinks it and no other. -/
theorem res_list_links_hold {p : Server × Walk (Links ResId)}
    (h : Lts.Reachable (Lts.noted serverStep (noteLinks fuel)) Lts.anyLabel (LinkedInitial fuel)
      p) :
    ∃ links, p.2 = .done links ∧ links.Holds p.1.resList ∧ p.1.resList.Nodup ∧
      ∀ len, ∃ links', p.1.claimLinks fuel len links = .done (p.1.fit len, links') ∧
        links'.Holds (Scan.rest p.1.resList (p.1.fit len)) := by
  obtain ⟨p₀, l, ⟨hinit, hfuel, hlinks⟩, hrun⟩ := h
  have hstart : LinkedInv p₀.1.resList p₀ := by
    refine ⟨hinit.poolInv, ⟨fun _ hr => hr, fun c r hr => ?_⟩, hlinks⟩
    cases (hinit.res c).symm.trans hr
  have hinv : LinkedInv p₀.1.resList p :=
    hrun.invariant (fun _ _ _ hI _ he => hI.step hfuel he) hstart
  obtain ⟨links, hdone, hholds⟩ := hinv.links
  have hlen := hinv.length_le
  exact ⟨links, hdone, hholds, hholds.nodup, fun len => Server.claimLinks_eq hholds len (by omega)⟩

/-- One connection maps the resource, another is refused, the first unmaps it again: the
pointers come round to where they began. -/
theorem res_list_links_hold_after_unmap :
    ∃ p, Lts.Reachable (Lts.noted serverStep (noteLinks 2)) Lts.anyLabel (LinkedInitial 2) p ∧
      (p.1.resList = [0] ∧ (p.1.unit 0).res = none) ∧
      ∃ links, p.2 = .done links ∧ links.Holds p.1.resList := by
  obtain ⟨p, hp, htest⟩ := Lts.exists_reachable_of_exec (Lts.noted serverStep (noteLinks 2))
    Lts.anyLabel (LinkedInitial 2)
    (s := (Server.main ⟨0, 8192, none, 0, 0⟩ Host.blank, .done (Links.empty.insertHead 0)))
    ⟨Server.main_initial _ _ rfl, by decide, _, rfl, Links.holds_empty.insertHead List.not_mem_nil⟩
    [.cm 0 .connectRequest true, .cm 1 .connectRequest true,
      .receive 0 ⟨packMapReq Cmd.zero 4096, 1⟩, .handle 0 (Outcomes.allOk 0x7f0000000000 17),
      .receive 1 ⟨packMapReq Cmd.zero 4096, 1⟩, .handle 1 (Outcomes.allOk 0x7f0000100000 18),
      .receive 0 ⟨packUnmapReq Cmd.zero 4096 0x7f0000000000, 2⟩, .handle 0 (Outcomes.allOk 0 0)]
    (fun p => p.1.resList = [0] ∧ (p.1.unit 0).res = none) (by decide)
  obtain ⟨links, hdone, hholds, -⟩ := res_list_links_hold hp
  exact ⟨p, hp, by simpa using htest, links, hdone, hholds⟩

end Rpmem
