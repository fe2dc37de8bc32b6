/-
# Connections that end while they hold a resource

A resource comes back to the list in one place only, the locked section of
`rpmem_handle_unmap`.  `rpmem_handle_close` does not look at `unit->res`, and
`rpmem_server_cma_handler` ignores a disconnect, so a connection that ends with
a region mapped, as `simple_commit` does when its commit fails, keeps its
resource for ever.  A second MAP on one connection is as bad: the first
resource is held by nobody and in no list.

`Roster` runs the server with a note of the connections that have ended, and
`Releases` is what would have to be true of every run: a connection ends
holding nothing, and claims only while it has not ended and holds nothing.
-/

import Rpmem.Server.Pool

namespace Rpmem

open Allocator

/-- The server, and the connections whose CLOSE request or
`RDMA_CM_EVENT_DISCONNECTED` has been handled. -/
structure Roster where
  server : Server
  finished : ConnId → Bool

/-- The event ends its connection. -/
def Server.Ends (s : Server) (c : ConnId) : ServerEvent → Prop
  | .cm d ev _ => d = c ∧ ev = .disconnected
  | .handle d _ => d = c ∧ requestKind (s.unit c).req.bytes = some .closeReq
  | .receive _ _ => False

instance (s : Server) (c : ConnId) : (e : ServerEvent) → Decidable (s.Ends c e)
  | .cm _ _ _ => inferInstanceAs (Decidable (_ ∧ _))
  | .handle _ _ => inferInstanceAs (Decidable (_ ∧ _))
  | .receive _ _ => isFalse id

/-- `serverStep`, with the note kept; the connections that end are known to the server. -/
def rosterStep (g : Roster) (e : ServerEvent) : Option Roster :=
  (serverStep g.server e).map fun s =>
    ⟨s, fun c => g.finished c || decide (c ∈ g.server.conns ∧ g.server.Ends c e)⟩

/-- A server just set up with the resources `all`. -/
structure Roster.Initial (all : List ResId) (g : Roster) : Prop where
  server : g.server.Initial
  all : g.server.resList = all
  finished : ∀ c, g.finished c = false

/-- A connection ends only when it holds nothing; a MAP claims a resource only
for a connection that holds nothing and has not ended. -/
def Releases (g : Roster) (e : ServerEvent) : Prop :=
  (∀ c ∈ g.server.conns, g.server.Ends c e → (g.server.unit c).res = none) ∧
    match e with
    | .handle c o => requestKind (g.server.unit c).req.bytes = some .mapReq → o.postRecv = true →
        (g.server.fit (wordField (g.server.unit c).req.bytes)).isSome →
        (g.server.unit c).res = none ∧ g.finished c = false
    | _ => True

instance (g : Roster) : (e : ServerEvent) → Decidable (Releases g e)
  | .handle _ _ => inferInstanceAs (Decidable ((∀ c ∈ _, _) ∧ (_ → _ → _ → _)))
  | .cm _ _ _ => inferInstanceAs (Decidable ((∀ c ∈ _, _) ∧ True))
  | .receive _ _ => inferInstanceAs (Decidable ((∀ c ∈ _, _) ∧ True))

/-- Nothing is lost, and the connections that have ended hold nothing. -/
structure Roster.Inv (all : List ResId) (g : Roster) : Prop where
  pool : g.server.PoolInv
  complete : g.server.pool.Complete {r | r ∈ all}
  released : ∀ c, g.finished c = true → (g.server.unit c).res = none

variable {e : ServerEvent} {all : List ResId} {g g' : Roster}

/-- One event that keeps to the rule loses nothing. -/
theorem Roster.Inv.step (h : g.Inv all) (hok : Releases g e) (he : rosterStep g e = some g') :
    g'.Inv all := by
  obtain ⟨s, hs, rfl⟩ := Option.map_eq_some_iff.1 he
  have hold : ∀ c, (g.finished c || decide (c ∈ g.server.conns ∧ g.server.Ends c e)) = true →
      (g.server.unit c).res = none := by
    intro c hc
    rcases (Bool.or_eq_true _ _).mp hc with hc | hc
    · exact h.released c hc
    · have hc' := of_decide_eq_true hc
      exact hok.1 c hc'.1 hc'.2
  have hheld : ∀ c, (s.unit c).res = s.pool.held c := fun _ => rfl
  refine ⟨h.pool.step hs, ?_, ?_⟩
  · rcases serverStep_pool h.pool hs with hp | ⟨c, o, r, rfl, -, hk, hr, hfit, hp⟩ | ⟨c, r, hr, hp⟩ <;>
      simp only [hp]
    · exact h.complete
    · exact h.complete.take (hok.2 hk hr (by simp [hfit])).1
    · exact h.complete.give hr
  · intro c hc
    have hc' : g.server.pool.held c = none := hold c hc
    rcases serverStep_pool h.pool hs with hp | ⟨d, o, r, rfl, -, hk, hr, hfit, hp⟩ | ⟨d, r, -, hp⟩ <;>
      simp only [hheld, hp]
    · exact hc'
    · -- the connection that claims has not ended
      have hdc : c ≠ d := by
        rintro rfl
        have hfin := (hok.2 hk hr (by simp [hfit])).2
        simp [hfin, Server.Ends, hk] at hc
      simpa [Pool.take, hdc] using hc'
    · by_cases hdc : c = d
      · simp [Pool.give, hdc]
      · simpa [Pool.give, hdc] using hc'

theorem Roster.Initial.inv (h : g.Initial all) : g.Inv all where
  pool := h.server.poolInv
  complete r hr := .inl (by rwa [Server.pool, h.all])
  released c hc := by
    rw [h.finished c] at hc
    cases hc

/-- **A finished connection keeps no resource, if it ends holding nothing.**  In
every state reached by a run in which a connection holds nothing when its CLOSE
or its disconnect is handled, and a MAP claims a resource only for a connection
that holds nothing and has not ended, every resource outside the list is held
by a connection that has not ended. -/
theorem finished_connections_hold_nothing
    (h : Lts.Reachable rosterStep Releases (Roster.Initial all) g) :
    ∀ r ∈ all, r ∉ g.server.resList →
      ∃ c, (g.server.unit c).res = some r ∧ g.finished c = false := by
  have hinv : g.Inv all :=
    h.invariant (fun g hg => hg.inv) fun g e g' hg hok he => hg.step hok he
  intro r hr hnot
  obtain ⟨c, hc⟩ := (hinv.complete r hr).resolve_left hnot
  refine ⟨c, hc, ?_⟩
  cases hfin : g.finished c with
  | false => rfl
  | true =>
      have hnone := hinv.released c hfin
      have hc' : (g.server.unit c).res = some r := hc
      rw [hnone] at hc'
      cases hc'

/-- Connection `0` maps, unmaps and closes; then connection `1` maps. -/
theorem finished_connections_hold_nothing_after_close :
    ∃ g, Lts.Reachable rosterStep Releases (Roster.Initial [0]) g ∧
      (g.server.resList = [] ∧ g.finished 0 = true) ∧
      ∃ c, (g.server.unit c).res = some 0 ∧ g.finished c = false := by
  obtain ⟨g, hg, hp⟩ := Lts.exists_reachable_of_exec rosterStep Releases (Roster.Initial [0])
    (s := ⟨Server.main ⟨0, 8192, none, 0, 0⟩ Host.blank, fun _ => false⟩)
    ⟨Server.main_initial _ _ rfl, rfl, fun _ => rfl⟩
    [.cm 0 .connectRequest true, .receive 0 ⟨packMapReq Cmd.zero 4096, 1⟩,
      .handle 0 (Outcomes.allOk 0x7f0000000000 17),
      .receive 0 ⟨packUnmapReq Cmd.zero 4096 0x7f0000000000, 2⟩,
      .handle 0 (Outcomes.allOk 0 0), .receive 0 ⟨packCloseReq Cmd.zero, 3⟩,
      .handle 0 (Outcomes.allOk 0 0), .cm 0 .disconnected true, .cm 1 .connectRequest true,
      .receive 1 ⟨packMapReq Cmd.zero 4096, 1⟩, .handle 1 (Outcomes.allOk 0x7f0000000000 18)]
    (fun g => decide (g.server.resList = [] ∧ g.finished 0 = true)) (by decide)
  have hp' := of_decide_eq_true hp
  exact ⟨g, hg, hp', finished_connections_hold_nothing hg 0 (by simp) (by simp [hp'.1])⟩

/-- **A connection that closes with a region mapped keeps its resource.**  The
requests are those of `simple_commit` when its commit fails: OPEN, MAP, CLOSE. -/
theorem close_keeps_resource :
    ∃ g, Lts.Reachable rosterStep Lts.anyLabel (Roster.Initial [0]) g ∧
      g.finished 0 = true ∧ 0 ∉ g.server.resList ∧
      ¬ ∃ c, (g.server.unit c).res = some 0 ∧ g.finished c = false := by
  obtain ⟨g, hg, hp⟩ := Lts.exists_reachable_of_exec rosterStep Lts.anyLabel (Roster.Initial [0])
    (s := ⟨Server.main ⟨0, 8192, none, 0, 0⟩ Host.blank, fun _ => false⟩)
    ⟨Server.main_initial _ _ rfl, rfl, fun _ => rfl⟩
    [.cm 0 .connectRequest true, .receive 0 ⟨packOpenReq Cmd.zero, 1⟩,
      .handle 0 (Outcomes.allOk 0 0), .receive 0 ⟨packMapReq Cmd.zero 4096, 2⟩,
      .handle 0 (Outcomes.allOk 0x7f0000000000 17), .receive 0 ⟨packCloseReq Cmd.zero, 3⟩,
      .handle 0 (Outcomes.allOk 0 0)]
    (fun g => decide (g.finished 0 = true ∧ 0 ∉ g.server.resList ∧
      (g.server.unit 0).res = some 0)) (by decide)
  obtain ⟨hfin, hnot, hres⟩ := of_decide_eq_true hp
  refine ⟨g, hg, hfin, hnot, ?_⟩
  rintro ⟨c, hc, hopen⟩
  -- nobody else can hold it
  have hpool : g.server.PoolInv := hg.invariant (fun g hg => hg.server.poolInv)
    fun g e g' hp _ he => by
      obtain ⟨s, hs, rfl⟩ := Option.map_eq_some_iff.1 he
      exact hp.step hs
  obtain rfl := hpool.exclusive.holder c 0 0 hc hres
  rw [hfin] at hopen
  cases hopen

end Rpmem
