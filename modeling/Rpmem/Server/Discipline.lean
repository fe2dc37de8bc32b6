/-
# Disciplined connections lose nothing

A connection is disciplined if it sends MAP only while it holds no resource and
UNMAP only while it holds one.  If all connections are and no call fails, the
list and the resources the units hold stay, together, a permutation of the
initial pool, in whatever order requests come.  The list itself drifts: UNMAP
inserts at the head, so every round may leave another order, and the next MAP
another first fit.
-/

import Rpmem.Server.Pool

namespace Rpmem

open Allocator

open scoped List

/-- The call succeeded, as far as MAP and UNMAP make calls that can fail. -/
def Call.Succeeded : Call → Prop
  | .postRecv ok | .posixFallocate ok | .postSend ok => ok = true
  | .mmap addr => addr.isSome = true
  | .regMr mr => mr.isSome = true
  | .munmap _ _ ret => ret = 0
  | .deregMr _ _ | .msync _ _ _ _ => True

instance : (call : Call) → Decidable call.Succeeded
  | .postRecv _ | .posixFallocate _ | .postSend _ => inferInstanceAs (Decidable (_ = _))
  | .mmap _ | .regMr _ => inferInstanceAs (Decidable (_ = _))
  | .munmap _ _ _ => inferInstanceAs (Decidable (_ = _))
  | .deregMr _ _ | .msync _ _ _ _ => isTrue trivial

/-- Every call of a handler succeeded. -/
def AllSucceeded : Except Fault Handled → Prop
  | .ok m => ∀ call ∈ m.calls, call.Succeeded
  | .error _ => True

instance : (x : Except Fault Handled) → Decidable (AllSucceeded x)
  | .ok m => inferInstanceAs (Decidable (∀ call ∈ m.calls, call.Succeeded))
  | .error _ => isTrue trivial

/-- MAP comes from a connection that holds nothing, UNMAP from one that holds a
resource, and the calls of their handlers succeed. -/
def Disciplined (s : Server) : ServerEvent → Prop
  | .handle c o =>
      (requestKind (s.unit c).req.bytes = some .mapReq →
        (s.unit c).res = none ∧ AllSucceeded (s.handle c o)) ∧
      (requestKind (s.unit c).req.bytes = some .unmapReq →
        (s.unit c).res ≠ none ∧ AllSucceeded (s.handle c o))
  | .cm _ _ _ | .receive _ _ => True

instance (s : Server) : (e : ServerEvent) → Decidable (Disciplined s e)
  | .handle _ _ => inferInstanceAs (Decidable ((_ → _ ∧ _) ∧ (_ → _ ∧ _)))
  | .cm _ _ _ | .receive _ _ => isTrue trivial

/-- Every resource of `s₀` has one place, and the sizes are those of `s₀`. -/
structure Server.Conserved (s₀ s : Server) : Prop where
  pool : s.PoolInv
  nodup : s.conns.Nodup
  placed : s.pool.placed s.conns ~ s₀.resList
  size : s.size = s₀.size
  total : s.totalSize = s₀.totalSize

variable {s₀ s t : Server} {e : ServerEvent}

/-- One event of disciplined connections keeps every resource in one place. -/
theorem Server.Conserved.step (h : s₀.Conserved s) (hok : Disciplined s e)
    (he : serverStep s e = some t) : s₀.Conserved t := by
  obtain ⟨hsize, htotal⟩ := serverStep_size he
  refine ⟨h.pool.step he, ?_, ?_, hsize.trans h.size, htotal.trans h.total⟩
  · rcases serverStep_conns he with hc | ⟨c, hc, hc', -⟩
    · rw [hc]
      exact h.nodup
    · rw [hc']
      exact List.nodup_cons.2 ⟨hc, h.nodup⟩
  · -- a new connection holds nothing, so the places are those of the old ones
    have hconns : t.pool.placed t.conns = t.pool.placed s.conns := by
      rcases serverStep_conns he with hc | ⟨c, -, hc', hnone⟩
      · rw [hc]
      · have hheld : t.pool.held c = none := hnone
        rw [hc', Pool.placed, Pool.placed, List.filterMap_cons_none hheld]
    rw [hconns]
    rcases serverStep_pool h.pool he with hp | ⟨c, o, r, rfl, hc, hk, -, hfit, hp⟩ | ⟨c, r, hr, hp⟩ <;>
      rw [hp]
    · exact h.placed
    · have hr : r ∈ s.pool.free := List.mem_of_find?_eq_some hfit
      exact (Pool.placed_take h.nodup hc (hok.1 hk).1 hr).trans h.placed
    · have hc : c ∈ s.conns := by
        by_contra hc
        rw [h.pool.connected c hc] at hr
        cases hr
      exact (Pool.placed_give h.nodup hc hr).trans h.placed

theorem Server.Initial.conserved (h : s.Initial) : s.Conserved s where
  pool := h.poolInv
  nodup := by
    rw [h.conns]
    exact List.nodup_nil
  placed := by
    rw [Pool.placed, h.conns, List.filterMap_nil, List.append_nil]
    exact List.Perm.refl _
  size := rfl
  total := rfl

/-- With nothing held, the counters are the initial ones. -/
theorem Server.Conserved.counters (h : s₀.Conserved s) (h₀ : s₀.Initial)
    (hl : s.resList ~ s₀.resList) : s.freeSize = s₀.freeSize ∧ s.inUseSize = s₀.inUseSize := by
  have hfree : s.freeSize = s₀.freeSize := by
    calc s.freeSize = (s.resList.map s.size).sum := h.pool.exclusive.freeSize
      _ = (s₀.resList.map s.size).sum := (hl.map s.size).sum_eq
      _ = (s₀.resList.map s₀.size).sum := by rw [h.size]
      _ = s₀.freeSize := h₀.free.symm
  refine ⟨hfree, ?_⟩
  have hsum : s.freeSize + s.inUseSize = s.totalSize := h.pool.exclusive.total
  rw [hfree, h.total, h₀.total] at hsum
  rw [h₀.inUse]
  simpa using hsum

/-- **Disciplined MAP and UNMAP lose nothing.**  From any pool of distinct
resources, over any interleaving of the requests of any number of disciplined
connections: the list with the resources held by the units is a permutation of
the initial pool, and whenever no connection holds a resource the list alone
is, and the three counters have their initial values. -/
theorem disciplined_pool_conserved {l : List ServerEvent} (h₀ : s₀.Initial)
    (h : Lts.Run serverStep Disciplined s₀ l t) :
    (t.resList ++ t.conns.filterMap fun c => (t.unit c).res) ~ s₀.resList ∧
      (∀ c, c ∉ t.conns → (t.unit c).res = none) ∧
      ((∀ c, (t.unit c).res = none) →
        t.resList ~ s₀.resList ∧ t.freeSize = s₀.freeSize ∧ t.inUseSize = s₀.inUseSize ∧
          t.totalSize = s₀.totalSize) := by
  have hinv : s₀.Conserved t :=
    h.invariant (fun s e t hs hok he => hs.step hok he) h₀.conserved
  refine ⟨hinv.placed, hinv.pool.connected, fun hnone => ?_⟩
  have hheld : t.conns.filterMap t.pool.held = [] :=
    List.filterMap_eq_nil_iff.2 fun c _ => hnone c
  have hl : t.resList ~ s₀.resList := by
    have := hinv.placed
    rw [Pool.placed, hheld, List.append_nil] at this
    exact this
  obtain ⟨hfree, huse⟩ := hinv.counters h₀ hl
  exact ⟨hl, hfree, huse, hinv.total⟩

/-- A pool of two resources of 8192 bytes. -/
def Server.two : Server :=
  { Server.main ⟨0, 8192, none, 0, 0⟩ Host.blank with
    resList := [0, 1], totalSize := 16384, freeSize := 16384 }

/-- Two connections map a resource each and unmap it, in the same order, so that
the list comes back reversed; then connection `1` gets its resource again. -/
theorem disciplined_pool_conserved_two_rounds :
    ∃ l t, Server.two.Initial ∧ Lts.Run serverStep Disciplined Server.two l t ∧
      (t.resList = [0] ∧ (t.unit 1).res = some 1) ∧
      (t.resList ++ t.conns.filterMap fun c => (t.unit c).res) ~ Server.two.resList := by
  have h₀ : Server.two.Initial :=
    { nodup := by decide, free := by decide, total := rfl, inUse := rfl, conns := rfl,
      res := fun _ => rfl, mrs := rfl }
  let map (c : ConnId) (a : BitVec 64) (rkey : BitVec 32) : List ServerEvent :=
    [.receive c ⟨packMapReq Cmd.zero 4096, 1⟩, .handle c (Outcomes.allOk a rkey)]
  let unmap (c : ConnId) (a : BitVec 64) : List ServerEvent :=
    [.receive c ⟨packUnmapReq Cmd.zero 4096 a, 2⟩, .handle c (Outcomes.allOk 0 0)]
  obtain ⟨t, ht, hp⟩ := Lts.exists_run_of_exec serverStep Disciplined (s := Server.two)
    (l := [.cm 0 .connectRequest true, .cm 1 .connectRequest true] ++
      map 0 0x7f0000000000 17 ++ map 1 0x7f0000100000 18 ++ unmap 0 0x7f0000000000 ++
      unmap 1 0x7f0000100000 ++ map 1 0x7f0000200000 19)
    (p := fun t => decide (t.resList = [0] ∧ (t.unit 1).res = some 1)) (by decide +kernel)
  exact ⟨_, t, h₀, ht, of_decide_eq_true hp, (disciplined_pool_conserved h₀ ht).1⟩

end Rpmem
