/-
# The resource pool: exclusive ownership and accounting

The pool of the server, read off its list, its units and its counters, is an
exclusive allocator (`Rpmem.Lib.Allocator`): the locked section of
`rpmem_handle_map` takes an item, the one of `rpmem_handle_unmap` gives one
back, and no other part of any handler touches the pool (`Served.pool`).  So
exclusive ownership survives whatever order the requests come in, repeated
MAPs, failed `munmap`s and failed MAPs included.

What the invariant does not say is that nothing is lost: a second MAP on a
connection leaves its first resource in no place at all.
-/

import Rpmem.Lib.Allocator
import Rpmem.Server.Steps

namespace Rpmem

open Allocator

/-- The abstract pool behind a server. -/
def Server.pool (s : Server) : Pool ConnId ResId CInt where
  free := s.resList
  held c := (s.unit c).res
  freeSize := s.freeSize
  inUseSize := s.inUseSize
  totalSize := s.totalSize

/-- The size the server accounts for a resource, `(int)res->stbuf.st_size`. -/
def Server.size (s : Server) (r : ResId) : CInt := (s.resource r).size

/-- The pool is exclusive, and only connections hold resources. -/
structure Server.PoolInv (s : Server) : Prop where
  exclusive : s.pool.Exclusive s.size
  connected : ∀ c, c ∉ s.conns → (s.unit c).res = none

variable {o : Outcomes} {s t : Server} {c : ConnId}

/-- Two servers with the same list, holders and counters have the same pool. -/
theorem Server.pool_congr (hl : t.resList = s.resList) (hu : ∀ d, (t.unit d).res = (s.unit d).res)
    (hf : t.freeSize = s.freeSize) (hi : t.inUseSize = s.inUseSize)
    (ht : t.totalSize = s.totalSize) : t.pool = s.pool := by
  unfold Server.pool
  rw [hl, hf, hi, ht]
  congr 1
  funext d
  exact hu d

theorem Server.setUnit_pool {u : ServerUnit} (hu : u.res = (s.unit c).res) :
    (s.setUnit c u).pool = s.pool := by
  refine Server.pool_congr rfl (fun d => ?_) rfl rfl rfl
  by_cases hd : d = c
  · subst hd
    simpa using hu
  · simp [hd]

theorem Server.postRecv_pool (s : Server) (c : ConnId) (ok : Bool) :
    (s.postRecv c ok).pool = s.pool :=
  Server.setUnit_pool rfl

theorem Server.take_pool (r : ResId) : (s.take c r).pool = s.pool.take s.size c r := by
  simp only [Server.pool, Pool.take]
  congr 1
  funext d
  by_cases hd : d = c
  · subst hd
    simp
  · simp [hd]

theorem Server.release_pool (r : ResId) : (s.release c r).pool = s.pool.give s.size c r := by
  simp only [Server.pool, Pool.give]
  congr 1
  funext d
  by_cases hd : d = c
  · subst hd
    simp
  · simp [hd]

/-- **The handlers refine the allocator.**  A handler leaves the pool alone,
takes a resource of the list for its own connection, or gives back the one its
connection holds. -/
theorem Served.pool {k : RspKind} {f : k.Fields} {calls : List Call}
    (h : Served o s c k f t calls) :
    t.pool = s.pool ∨
      (∃ r, k = .mapRsp ∧ o.postRecv = true ∧ s.fit (wordField (s.unit c).req.bytes) = some r ∧
        t.pool = s.pool.take s.size c r) ∨
      ∃ r, (s.unit c).res = some r ∧ t.pool = s.pool.give s.size c r := by
  cases h with
  | opened | mapRefused | unmapRefused | commitRefused | committed =>
      exact .inl (s.postRecv_pool c _)
  | closed => exact .inl rfl
  | mapped r m hr hfit hm =>
      obtain ⟨x, host, hs, -⟩ := mapResource_server o ((s.postRecv c true).take c r) c r
        (wordField (s.unit c).req.bytes)
      refine .inr (.inl ⟨r, rfl, hr, hfit, ?_⟩)
      calc m.server.pool = ((s.postRecv c true).take c r).pool := by rw [← hm, hs]; rfl
        _ = (s.postRecv c true).pool.take (s.postRecv c true).size c r := Server.take_pool r
        _ = s.pool.take s.size c r := by rw [Server.postRecv_pool]; rfl
  | unmapped r mr m _ hres _ hm =>
      obtain ⟨x, host, hs, -, hsize⟩ := unmapResource_server o (s.postRecv c true) c r mr
        (addrField (s.unit c).req.bytes) (wordField (s.unit c).req.bytes)
      rw [← hm, hs]
      have hpool : ({ (s.postRecv c true).setResource r x with host := host } : Server).pool =
          s.pool := s.postRecv_pool c true
      split_ifs
      · refine .inr (.inr ⟨r, hres, ?_⟩)
        rw [Server.release_pool, hpool]
        simp [Pool.give, Server.size, Resource.size, hsize]
      · exact .inl hpool

/-- A handler changes no resource that another connection holds. -/
theorem Served.resource_of_held {k : RspKind} {f : k.Fields} {calls : List Call}
    (h : Served o s c k f t calls) (hp : s.PoolInv) {d : ConnId} (hd : d ≠ c) {r : ResId}
    (hr : (s.unit d).res = some r) : t.resource r = s.resource r := by
  cases h with
  | mapped r' m _ hfit hm =>
      obtain ⟨x, host, hs, -⟩ := mapResource_server o ((s.postRecv c true).take c r') c r'
        (wordField (s.unit c).req.bytes)
      have hne : r ≠ r' := by
        rintro rfl
        exact hp.exclusive.not_free d r hr (List.mem_of_find?_eq_some hfit)
      rw [← hm, hs]
      simp [hne]
  | unmapped r' mr m _ hres _ hm =>
      obtain ⟨x, host, hs, -⟩ := unmapResource_server o (s.postRecv c true) c r' mr
        (addrField (s.unit c).req.bytes) (wordField (s.unit c).req.bytes)
      have hne : r ≠ r' := by
        rintro rfl
        exact hd (hp.exclusive.holder d c r hr hres)
      rw [← hm, hs]
      split_ifs <;> simp [hne]
  | opened | closed | mapRefused | unmapRefused | commitRefused | committed => rfl

theorem Server.PoolInv.of_pool_eq (h : s.PoolInv) (hp : t.pool = s.pool) (hs : t.size = s.size)
    (hc : t.conns = s.conns) : t.PoolInv where
  exclusive := by rw [hp, hs]; exact h.exclusive
  connected d hd := by
    have hres : (t.unit d).res = (s.unit d).res := congrFun (congrArg Pool.held hp) d
    rw [hres]
    exact h.connected d (hc ▸ hd)

/-- One handled request keeps the pool. -/
theorem Server.PoolInv.handle (h : s.PoolInv) (hc : c ∈ s.conns) {m : Handled}
    (hm : rpmemRcvCompletion o s c = .ok m) : m.server.PoolInv := by
  rcases rpmemRcvCompletion_cases hm with ⟨-, hs, -⟩ | ⟨q, f, t, calls, -, ht, hs, -⟩
  · rw [hs]
    exact h
  have hpool : m.server.pool = t.pool := by rw [hs]; exact t.setUnit_pool rfl
  have hconns : m.server.conns = s.conns := by rw [hs]; exact ht.conns.1
  have hsize : m.server.size = s.size := by
    funext r
    simp [hs, Server.size, Resource.size, (ht.resource_static r).2]
  refine ⟨?_, fun d hd => ?_⟩
  · rw [hpool, hsize]
    rcases ht.pool with hp | ⟨r, -, -, hr, hp⟩ | ⟨r, hr, hp⟩ <;> rw [hp]
    · exact h.exclusive
    · exact h.exclusive.take (List.mem_of_find?_eq_some hr)
    · exact h.exclusive.give hr
  · rw [hconns] at hd
    have hne : d ≠ c := fun he => hd (he ▸ hc)
    rw [hs, Server.postSend_unit, Function.update_of_ne hne, ht.unit_of_ne hne]
    exact h.connected d hd

/-- A new unit holds nothing, and neither did its connection before. -/
theorem Server.PoolInv.connect (h : s.PoolInv) (hc : c ∉ s.conns) :
    (rpmemConnectRequestHandler true s c).PoolInv where
  exclusive := by
    have hres : ServerUnit.fresh.res = (s.unit c).res := (h.connected c hc).symm
    have hpool : (rpmemConnectRequestHandler true s c).pool = s.pool := Server.setUnit_pool hres
    rw [hpool]
    exact h.exclusive
  connected d hd := by
    have hd' : d ∉ s.conns := fun hm => hd (List.mem_cons_of_mem _ hm)
    have hne : d ≠ c := fun he => hd (he ▸ List.mem_cons_self)
    simpa [rpmemConnectRequestHandler, hne] using h.connected d hd'

/-- One event keeps the pool. -/
theorem Server.PoolInv.step (h : s.PoolInv) {e : ServerEvent} (he : serverStep s e = some t) :
    t.PoolInv := by
  rcases serverStep_cases he with ⟨-, rfl | ⟨c, hc, rfl⟩⟩ | ⟨c, msg, -, -, -, rfl⟩ |
    ⟨c, o, m, -, hc, -, hm, rfl⟩
  · exact h
  · exact h.connect hc
  · exact h.of_pool_eq (Server.setUnit_pool rfl) rfl rfl
  · exact (h.of_pool_eq (t := s.poll c) (Server.setUnit_pool rfl) rfl rfl).handle hc hm

/-- No event changes the size of a resource or the total size. -/
theorem serverStep_size {e : ServerEvent} (he : serverStep s e = some t) :
    t.size = s.size ∧ t.totalSize = s.totalSize := by
  rcases serverStep_cases he with ⟨-, rfl | ⟨c, -, rfl⟩⟩ | ⟨c, msg, -, -, -, rfl⟩ |
    ⟨c, o, m, -, -, -, hm, rfl⟩
  · exact ⟨rfl, rfl⟩
  · exact ⟨rfl, rfl⟩
  · exact ⟨rfl, rfl⟩
  · rcases rpmemRcvCompletion_cases hm with ⟨-, hs, -⟩ | ⟨q, f, t, calls, -, ht, hs, -⟩ <;> rw [hs]
    · exact ⟨rfl, rfl⟩
    · refine ⟨funext fun r => ?_, ht.conns.2⟩
      exact congrArg (BitVec.setWidth 32) (ht.resource_static r).2

/-- An event adds at most one connection, which was not there and holds nothing. -/
theorem serverStep_conns {e : ServerEvent} (he : serverStep s e = some t) :
    t.conns = s.conns ∨
      ∃ c, c ∉ s.conns ∧ t.conns = c :: s.conns ∧ (t.unit c).res = none := by
  rcases serverStep_cases he with ⟨-, rfl | ⟨c, hc, rfl⟩⟩ | ⟨c, msg, -, -, -, rfl⟩ |
    ⟨c, o, m, -, -, -, hm, rfl⟩
  · exact .inl rfl
  · refine .inr ⟨c, hc, rfl, ?_⟩
    simp [rpmemConnectRequestHandler, ServerUnit.fresh]
  · exact .inl rfl
  · rcases rpmemRcvCompletion_cases hm with ⟨-, hs, -⟩ | ⟨q, f, t, calls, -, ht, hs, -⟩ <;> rw [hs]
    · exact .inl rfl
    · exact .inl ht.conns.1

/-- **What an event does to the pool**: nothing, unless it is a MAP that finds
room or an UNMAP of a connection that holds something. -/
theorem serverStep_pool (h : s.PoolInv) {e : ServerEvent} (he : serverStep s e = some t) :
    t.pool = s.pool ∨
      (∃ c o r, e = .handle c o ∧ c ∈ s.conns ∧
        requestKind (s.unit c).req.bytes = some .mapReq ∧ o.postRecv = true ∧
        s.fit (wordField (s.unit c).req.bytes) = some r ∧ t.pool = s.pool.take s.size c r) ∨
      ∃ c r, (s.unit c).res = some r ∧ t.pool = s.pool.give s.size c r := by
  rcases serverStep_cases he with ⟨-, rfl | ⟨c, hc, rfl⟩⟩ | ⟨c, msg, -, -, -, rfl⟩ |
    ⟨c, o, m, rfl, hc, -, hm, rfl⟩
  · exact .inl rfl
  · have hres : ServerUnit.fresh.res = (s.unit c).res := (h.connected c hc).symm
    exact .inl (Server.setUnit_pool hres)
  · exact .inl (Server.setUnit_pool rfl)
  have hpoll : (s.poll c).pool = s.pool := Server.setUnit_pool rfl
  have hreq : ((s.poll c).unit c).req = (s.unit c).req := by simp [Server.poll]
  rcases rpmemRcvCompletion_cases hm with ⟨-, hs, -⟩ | ⟨q, f, t, calls, hk, ht, hs, -⟩
  · rw [hs]
    exact .inl hpoll
  have hpost : m.server.pool = t.pool := by
    rw [hs]
    exact Server.setUnit_pool rfl
  rw [hpost]
  rw [hreq] at hk
  rcases ht.pool with hp | ⟨r, hq, hr, hfit, hp⟩ | ⟨r, hr, hp⟩
  · exact .inl (hp.trans hpoll)
  · have hq' : q = .mapReq := by cases q <;> first | rfl | cases hq
    subst hq'
    rw [hreq] at hfit
    exact .inr (.inl ⟨c, o, r, rfl, hc, hk, hr, hfit, by rw [hp, hpoll]; rfl⟩)
  · have hres : (s.unit c).res = some r := by simpa [Server.poll] using hr
    exact .inr (.inr ⟨c, r, hres, by rw [hp, hpoll]; rfl⟩)

theorem Server.Initial.poolInv (h : s.Initial) : s.PoolInv where
  exclusive :=
    { nodup := h.nodup
      holder := fun c d r hc => by
        have := h.res c
        simp only [Server.pool] at hc
        rw [this] at hc
        cases hc
      not_free := fun c r hc => by
        have := h.res c
        simp only [Server.pool] at hc
        rw [this] at hc
        cases hc
      freeSize := h.free
      total := by
        simp only [Server.pool]
        rw [h.inUse, h.total, add_zero] }
  connected c _ := h.res c

/-- **Exclusive ownership and accounting.**  In every state the server reaches
from a pool of distinct resources, over any interleaving of the requests of any
number of connections with any outcomes of the calls: the list has no
duplicates, no resource is held twice or both held and in the list, and the
two counters are right modulo `2^32`. -/
theorem resource_pool_exclusive (h : Lts.Reachable serverStep Lts.anyLabel Server.Initial t) :
    t.resList.Nodup ∧
      (∀ c d r, (t.unit c).res = some r → (t.unit d).res = some r → c = d) ∧
      (∀ c r, (t.unit c).res = some r → r ∉ t.resList) ∧
      t.freeSize = (t.resList.map fun r => (t.resource r).stSize.setWidth 32).sum ∧
      t.freeSize + t.inUseSize = t.totalSize := by
  have hinv : t.PoolInv :=
    h.invariant (fun s hs => hs.poolInv) fun s e t hs _ he => hs.step he
  exact ⟨hinv.exclusive.nodup, hinv.exclusive.holder, hinv.exclusive.not_free,
    hinv.exclusive.freeSize, hinv.exclusive.total⟩

/-- A run with one connection that maps 4096 bytes of the 8192-byte resource:
the resource is held, the list empty, the counters moved. -/
theorem resource_pool_exclusive_after_map :
    ∃ t, Lts.Reachable serverStep Lts.anyLabel Server.Initial t ∧
      ((t.unit 0).res = some 0 ∧ t.resList = [] ∧ t.inUseSize = 8192) ∧
      t.freeSize + t.inUseSize = t.totalSize := by
  obtain ⟨t, ht, hp⟩ := Lts.exists_reachable_of_exec serverStep Lts.anyLabel Server.Initial
    (Server.main_initial ⟨0, 8192, none, 0, 0⟩ Host.blank rfl)
    [.cm 0 .connectRequest true, .receive 0 ⟨packMapReq Cmd.zero 4096, 1⟩,
      .handle 0 (Outcomes.allOk 0x7f0000000000 17)]
    (fun t => (t.unit 0).res = some 0 ∧ t.resList = [] ∧ t.inUseSize = 8192) (by decide)
  exact ⟨t, ht, by simpa using hp, (resource_pool_exclusive ht).2.2.2.2⟩

end Rpmem
