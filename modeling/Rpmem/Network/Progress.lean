/-
# Calls that can no longer be answered

`rpmem_handle_wc` posts `sem_command` for a successful receive and a successful
RDMA read only.  A call whose request, response or RDMA read is lost in any
other way is never woken: an error or flushed completion posts nothing, and
`rpmem_cma_handler` posts `sem_connect` on a disconnect, which no command waits
for.  The plainest case is a MAP that the server cannot satisfy: its answer
carries an uninitialised key, the RDMA read fails, and `rpmem_map` sleeps for
ever.  Another is a request whose handler follows a `NULL` pointer: the server
is gone, and with it the request.

A run of `System` ends there, so here the system goes on with a server that has
crashed (`Running`).  While a call waits, its one message is under way (`Live`)
as long as nothing of the kind happens, and then something is left to do.
`Undisturbed` is that condition, step by step.
-/

import Rpmem.Network.Tokens
import Rpmem.Server.Faults

namespace Rpmem

/-- A call is blocked and nothing is left that could wake it: no request or
response, no work request, no completion, no connection-manager event.  The
requests are those a server that runs has still to handle (`Running.unit`). -/
structure Stuck (k : Client) (u : ServerUnit) : Prop where
  waiting : ∃ w, k.pc = .waiting w
  sem : k.sem = []
  sq : k.sq = []
  cq : k.cq = []
  cm : k.cmPending = false
  pending : u.pending = 0
  sends : u.sends = 0

/-- The messages and RDMA reads under way on a connection. -/
def underWay (k : Client) (u : ServerUnit) : ℕ :=
  requestsUnderWay k u + responsesUnderWay k u + k.readsUnderWay

/-- While a call waits, something it waits for is under way. -/
def Live (k : Client) (u : ServerUnit) : Prop := ∀ w, k.pc = .waiting w → 0 < underWay k u

/-- No send and no RDMA read of a client completes in error or is flushed, and
every response is posted and delivered. -/
def NothingLost (s : System) : Action → Prop
  | .exec c ok => ok = true ∨ ∀ w ∈ (s.clients c).sq.head?, w.isSend = false ∧ w.isRead = false
  | .handle _ o => o.postSend = true
  | .deliver _ ok => ok = true
  | _ => True

instance (s : System) : (a : Action) → Decidable (NothingLost s a)
  | .exec _ _ => inferInstanceAs (Decidable (_ ∨ ∀ w ∈ List.head? _, _ ∧ _))
  | .handle _ _ => inferInstanceAs (Decidable (_ = _))
  | .deliver _ _ => inferInstanceAs (Decidable (_ = _))
  | .connect _ _ _ | .call _ _ _ | .wake _ _ | .write _ _ | .flushRecv _ | .poll _ | .disconnect _
  | .cmEvent _ => isTrue trivial

variable {k k' : Client} {u u' : ServerUnit}

theorem Stuck.underWay_eq_zero (h : Stuck k u) : underWay k u = 0 := by
  simp [underWay, requestsUnderWay, responsesUnderWay, Client.readsUnderWay, Client.arrived,
    Client.fetched, h.sem, h.sq, h.cq, h.pending, h.sends]

/-- A live connection is not stuck. -/
theorem Live.not_stuck (h : Live k u) : ¬ Stuck k u := by
  intro hs
  obtain ⟨w, hw⟩ := hs.waiting
  have hpos := h w hw
  rw [hs.underWay_eq_zero] at hpos
  exact lt_irrefl 0 hpos

theorem Live.congr (h : Live k u) (hu : underWay k' u' = underWay k u) (hpc : k'.pc = k.pc) :
    Live k' u' := by
  intro w hw
  rw [hu]
  exact h w (hpc ▸ hw)

/-! ### Each action keeps a waiting call live -/

/-- A stretch of a call that ends in a wait has posted what it waits for. -/
theorem Stage.live (h : Stage k k') : Live k' u := by
  intro w hw
  cases h with
  | returned ws pc => rw [pc] at hw; cases hw
  | destroyed pc => rw [pc] at hw; cases hw
  | sent ws m b pc seq sem cq sq hws req =>
      simp only [underWay, requestsUnderWay, sq, List.countP_append, List.countP_singleton,
        Wr.isSend, WrOp.opcode, decide_true, if_true]
      omega
  | reading a pc seq sem cq sq =>
      simp only [underWay, Client.readsUnderWay, sq, List.countP_append, List.countP_singleton,
        Wr.isRead, WrOp.opcode, decide_true, if_true]
      omega

theorem Client.call_live {o : ClientOutcomes} {api : Api} (h : k.call o api = some k') :
    Live k' u :=
  (Client.call_stage o h).2.live

theorem Client.wake_live {o : ClientOutcomes} (h : k.wake o = some k') : Live k' u := by
  obtain ⟨w, tok, sem, -, -, h⟩ := Client.wake_cases h
  exact (Client.resume_stage o h).live

/-- Completing an RDMA write takes nothing away that a call waits for. -/
theorem Client.underWay_complete {wr : Wr} {sq : List Wr} (hsq : k.sq = wr :: sq)
    (hwr : wr.isSend = false ∧ wr.isRead = false) (status : WcStatus) :
    underWay (k.complete wr sq status) u = underWay k u := by
  have hop : wr.op.opcode ≠ .send ∧ wr.op.opcode ≠ .rdmaRead := by
    simpa [Wr.isSend, Wr.isRead] using hwr
  have hne : wr.op.opcode ≠ .recv := by
    obtain ⟨op, n⟩ := wr
    cases op <;> simp [WrOp.opcode]
  simp [underWay, requestsUnderWay, responsesUnderWay, Client.readsUnderWay, Client.arrived,
    Client.fetched, Client.complete, hsq, hwr, Wc.isRsp, Wc.isRead, hop, hne]

/-- A request that reaches the server is still under way. -/
theorem Client.underWay_send {wr : Wr} {sq : List Wr} (hsq : k.sq = wr :: sq) (hop : wr.op = .send)
    (hpend : u'.pending = u.pending + 1) (hsends : u'.sends = u.sends) :
    underWay (k.complete wr sq .success) u' = underWay k u := by
  simp only [underWay, requestsUnderWay, responsesUnderWay, Client.readsUnderWay, Client.arrived,
    Client.fetched, Client.complete, hsq, hpend, hsends, Wr.isSend, Wr.isRead, Wc.isRsp, Wc.isRead,
    hop, WrOp.opcode, List.countP_append, List.countP_cons, List.countP_nil, reduceCtorEq,
    decide_true, decide_false, false_and, if_true, Bool.false_eq_true, if_false]
  omega

/-- An RDMA read that has succeeded is still under way. -/
theorem Client.underWay_fetch {wr : Wr} {sq : List Wr} (hsq : k.sq = wr :: sq) {a : RdmaArgs}
    (hop : wr.op = .rdmaRead a) (data : ℕ → UInt8) :
    underWay ((k.place a data).complete wr sq .success) u = underWay k u := by
  simp only [underWay, requestsUnderWay, responsesUnderWay, Client.readsUnderWay, Client.arrived,
    Client.fetched, Client.complete, Client.place, hsq, Wr.isSend, Wr.isRead, Wc.isRsp, Wc.isRead,
    hop, WrOp.opcode, List.countP_append, List.countP_cons, List.countP_nil, reduceCtorEq,
    decide_true, decide_false, false_and, and_self, if_true, Bool.false_eq_true, if_false]
  omega

/-- A response that reaches the client is still under way. -/
theorem Client.underWay_receive (hs : 0 < u.sends) :
    underWay (k.receive u.rsp) { u with sends := u.sends - 1 } = underWay k u := by
  simp only [underWay, requestsUnderWay, responsesUnderWay, Client.readsUnderWay, Client.arrived,
    Client.fetched, Client.receive, Wc.isRsp, Wc.isRead, List.countP_append, List.countP_cons,
    List.countP_nil, reduceCtorEq, decide_true, decide_false, false_and, and_self, if_true,
    Bool.false_eq_true, if_false]
  omega

/-- Polling a completion leaves as much under way. -/
theorem Client.underWay_poll (h : k.poll = some k') :
    k'.pc = k.pc ∧ underWay k' u = underWay k u := by
  obtain ⟨hpc, -, hsq, harr, hfet⟩ := Client.poll_counts h
  refine ⟨hpc, ?_⟩
  simp only [underWay, requestsUnderWay, responsesUnderWay, Client.readsUnderWay, hsq, harr, hfet]

/-- A request that is answered leaves its response under way. -/
theorem ConnInv.underWay_handle {s : Server} {c : ConnId} (h : ConnInv k (s.unit c))
    (hpend : 0 < (s.unit c).pending) {o : Outcomes} (hsend : o.postSend = true) {m : Handled}
    (hm : s.handle c o = .ok m) : underWay k (m.server.unit c) = underWay k (s.unit c) := by
  obtain ⟨q, hq⟩ := h.waiting (by simp only [requestsUnderWay]; omega)
  rcases Server.handle_unit hm with ⟨hnone, -⟩ | ⟨q', f, b, -, hp', -, hs', -⟩
  · rw [h.pending hpend, (h.request q hq).1] at hnone
    cases hnone
  · rw [hsend, if_pos rfl] at hs'
    simp only [underWay, requestsUnderWay, responsesUnderWay, hp', hs']
    omega

variable {s t : System} {a : Action}

/-- **An action that loses nothing leaves every waiting call live.** -/
theorem Live.step (hst : s.Stepped a t) (hok : NothingLost s a)
    (hi : ConnInv (s.clients a.conn) (s.server.unit a.conn))
    (h : Live (s.clients a.conn) (s.server.unit a.conn)) :
    Live (t.clients a.conn) (t.server.unit a.conn) := by
  cases hst with
  | connected c accepted established hpc hc =>
      intro w hw
      simp only [Action.conn, Function.update_self] at hw
      split_ifs at hw
      cases hw
  | called c api o k hk => simpa [System.setClient, Action.conn] using Client.call_live hk
  | woken c o k hk => simpa [System.setClient, Action.conn] using Client.wake_live hk
  | written c f k hk =>
      unfold Client.write at hk
      split at hk
      · split_ifs at hk
        obtain rfl := Option.some.inj hk
        simp only [System.setClient, Action.conn, Function.update_self]
        exact Live.congr h rfl rfl
      · cases hk
  | sent c wr sq hsq hqp hop hc hr =>
      have hu : underWay ((s.clients c).complete wr sq .success)
          ((s.server.receive c (s.clients c).req).unit c) =
          underWay (s.clients c) (s.server.unit c) :=
        Client.underWay_send hsq hop (by simp [Server.receive]) (by simp [Server.receive])
      simpa [System.setClient, Action.conn] using Live.congr h hu rfl
  | fetched c wr sq a data hsq hqp hop =>
      simpa [System.setClient, Action.conn] using
        Live.congr h (Client.underWay_fetch hsq hop data) rfl
  | stored c wr sq a host hsq hqp hop =>
      have hwr : wr.isSend = false ∧ wr.isRead = false := by
        simp [Wr.isSend, Wr.isRead, hop, WrOp.opcode]
      simpa [System.setClient, Action.conn] using
        Live.congr h (Client.underWay_complete hsq hwr .success) rfl
  | failed c wr sq hsq =>
      have hwr : wr.isSend = false ∧ wr.isRead = false :=
        hok.resolve_left (by simp) wr (by simp [hsq])
      have hu := Client.underWay_complete (u := s.server.unit c) hsq hwr .otherErr
      simp only [System.setClient, Action.conn, Function.update_self]
      exact Live.congr h hu rfl
  | flushed c wr sq hsq =>
      have hwr : wr.isSend = false ∧ wr.isRead = false :=
        hok.resolve_left (by simp) wr (by simp [hsq])
      simpa [System.setClient, Action.conn] using
        Live.congr h (Client.underWay_complete hsq hwr .wrFlushErr) rfl
  | recvFlushed c =>
      simp only [System.setClient, Action.conn, Function.update_self]
      refine Live.congr h ?_ rfl
      simp [underWay, requestsUnderWay, responsesUnderWay, Client.readsUnderWay, Client.arrived,
        Client.fetched, Wc.isRsp, Wc.isRead, Action.conn]
  | polled c k hk =>
      obtain ⟨hpc, hu⟩ := Client.underWay_poll (u := s.server.unit c) hk
      simpa [System.setClient, Action.conn] using Live.congr h hu hpc
  | handled c o m hc hp hm => exact h.congr (hi.underWay_handle hp hok hm) rfl
  | delivered c hs =>
      simpa [System.setClient, Action.conn, Server.sent] using
        Live.congr h (Client.underWay_receive hs) rfl
  | lost c => cases hok
  | disconnected c =>
      simp only [System.setClient, Action.conn, Function.update_self]
      exact Live.congr h rfl rfl
  | cmHandled c =>
      simp only [System.setClient, Action.conn, Function.update_self]
      exact Live.congr h rfl rfl

/-- The invariant of runs that lose nothing. -/
def System.LiveInv (s : System) : Prop :=
  s.TokenInv ∧ ∀ c, Live (s.clients c) (s.server.unit c)

theorem System.LiveInv.step (h : s.LiveInv) (hok : NothingLost s a) (he : s.step a = some t) :
    t.LiveInv := by
  refine ⟨h.1.step he, fun d => ?_⟩
  have hst := System.step_cases he
  by_cases hd : d = a.conn
  · subst hd
    exact Live.step hst hok (h.1 _) (h.2 _)
  · obtain ⟨hk, hu⟩ := System.step_frame hst hd
    rw [hk, hu]
    exact h.2 d

theorem System.Initial.liveInv (h : s.Initial) : s.LiveInv := by
  refine ⟨h.tokenInv, fun c w hw => ?_⟩
  rw [h.clients c] at hw
  cases hw

/-! ### A server that can crash -/

/-- The handler of the request follows a `NULL` pointer. -/
def System.crashes (s : System) : Action → Bool
  | .handle c o =>
      decide (c ∈ s.server.conns ∧ 0 < (s.server.unit c).pending) &&
        match s.server.handle c o with
        | .ok _ => false
        | .error _ => true
  | _ => false

/-- What does not happen without the server.  What it has sent still arrives. -/
def Action.needsServer : Action → Bool
  | .connect _ accepted _ => accepted
  | .exec _ ok => ok
  | .handle _ _ => true
  | _ => false

/-- The clients and the server, and whether it has crashed. -/
structure Running where
  sys : System
  crashed : Bool

namespace Running

/-- One action, with a server that may be gone. -/
def step (x : Running) (a : Action) : Option Running :=
  if x.crashed then
    if a.needsServer then none else (x.sys.step a).map fun s => ⟨s, true⟩
  else if x.sys.crashes a then some ⟨x.sys, true⟩
  else (x.sys.step a).map fun s => ⟨s, false⟩

/-- A server just set up, and no client has opened yet. -/
def Initial (x : Running) : Prop := x.sys.Initial ∧ x.crashed = false

/-- What is left to do for a connection: a crashed server handles nothing. -/
def unit (x : Running) (c : ConnId) : ServerUnit :=
  if x.crashed then { x.sys.server.unit c with pending := 0 } else x.sys.server.unit c

/-- The call of `c` is blocked and nothing is left that could wake it. -/
def Stuck (x : Running) (c : ConnId) : Prop := Rpmem.Stuck (x.sys.clients c) (x.unit c)

/-- Nothing is lost, and every request is handled without following a `NULL`
pointer or deregistering a region twice. -/
def Undisturbed (x : Running) (a : Action) : Prop :=
  NothingLost x.sys a ∧
    match a with
    | .handle c o => SafeHandling x.sys.server c o
    | _ => True

instance (x : Running) : (a : Action) → Decidable (x.Undisturbed a)
  | .handle c o =>
      inferInstanceAs (Decidable (NothingLost x.sys (.handle c o) ∧ SafeHandling _ _ _))
  | .connect _ _ _ | .call _ _ _ | .wake _ _ | .write _ _ | .exec _ _ | .flushRecv _ | .poll _
  | .deliver _ _ | .disconnect _ | .cmEvent _ =>
      inferInstanceAs (Decidable (NothingLost _ _ ∧ True))

variable {x y : Running}

/-- A request that is handled safely does not crash the server. -/
theorem Undisturbed.crashes (h : x.Undisturbed a) : x.sys.crashes a = false := by
  cases a with
  | handle c o =>
      obtain ⟨m, hm, -⟩ := h.2
      simp [System.crashes, hm]
  | connect | call | wake | write | exec | flushRecv | poll | deliver | disconnect | cmEvent => rfl

/-- As long as the server runs and nothing crashes it, a step is one of the system. -/
theorem step_of_running (hx : x.crashed = false) (ha : x.sys.crashes a = false)
    (h : x.step a = some y) : y.crashed = false ∧ x.sys.step a = some y.sys := by
  rw [step, hx, ha] at h
  obtain ⟨s, hs, rfl⟩ := Option.map_eq_some_iff.1 h
  exact ⟨rfl, hs⟩

end Running

/-- **An undisturbed client never blocks for ever.**  In every state reached by a
run in which no send and no RDMA read of a client completes in error or is
flushed, every response is posted and delivered, and no request is handled by
following a `NULL` pointer or deregistering a region twice, no call is blocked
with nothing left that could wake it. -/
theorem undisturbed_never_stuck {x : Running}
    (h : Lts.Reachable Running.step Running.Undisturbed Running.Initial x) (c : ConnId) :
    ¬ x.Stuck c := by
  obtain ⟨hrun, hlive⟩ : x.crashed = false ∧ x.sys.LiveInv := by
    refine h.invariant (I := fun x => x.crashed = false ∧ x.sys.LiveInv)
      (fun x hx => ⟨hx.2, hx.1.liveInv⟩) fun x a y ⟨hrun, hlive⟩ hok he => ?_
    obtain ⟨hrun', hstep⟩ := Running.step_of_running hrun hok.crashes he
    exact ⟨hrun', hlive.step hok.1 hstep⟩
  have hunit : x.unit c = x.sys.server.unit c := by simp [Running.unit, hrun]
  rw [Running.Stuck, hunit]
  exact (hlive.2 c).not_stuck

/-- A client that waits for the response to its MAP, in an undisturbed run. -/
theorem undisturbed_never_stuck_map :
    ∃ x, Lts.Reachable Running.step Running.Undisturbed Running.Initial x ∧
      (x.sys.clients 0).pc = .waiting (.rsp .mapReq) ∧ (x.sys.server.unit 0).sends = 1 ∧
      ¬ x.Stuck 0 := by
  obtain ⟨x, hx, hp⟩ := Lts.exists_reachable_of_exec Running.step Running.Undisturbed
    Running.Initial (s := ⟨System.main ⟨0, 8192, none, 0, 0⟩ Host.blank, false⟩)
    ⟨System.main_initial _ _ rfl, rfl⟩
    (System.opens 0 ++ [.call 0 (.rpmemMap 4096) .allOk, .exec 0 true,
      .handle 0 (.allOk 0x7f0000000000 17)])
    (fun x => decide ((x.sys.clients 0).pc = .waiting (.rsp .mapReq) ∧
      (x.sys.server.unit 0).sends = 1)) (by decide)
  obtain ⟨hpc, hsends⟩ := of_decide_eq_true hp
  exact ⟨x, hx, hpc, hsends, undisturbed_never_stuck hx 0⟩

theorem Running.Stuck.of_test {x : Running} {c : ConnId} {w : Wait}
    (h : (x.sys.clients c).pc = .waiting w ∧ (x.sys.clients c).sem = [] ∧
      (x.sys.clients c).sq = [] ∧ (x.sys.clients c).cq = [] ∧
      (x.sys.clients c).cmPending = false ∧ (x.unit c).pending = 0 ∧ (x.unit c).sends = 0) :
    x.Stuck c := by
  obtain ⟨hpc, hsem, hsq, hcq, hcm, hpending, hsends⟩ := h
  exact ⟨⟨w, hpc⟩, hsem, hsq, hcq, hcm, hpending, hsends⟩

/-- **A MAP that the server cannot satisfy blocks its client for ever.**  The
resource has 8192 bytes and so many are asked for: no resource fits, the
answer carries an uninitialised key and address, the RDMA read cannot succeed
and completes in error, and nothing is left to wake `rpmem_map`.  A second MAP
of a file kills the server, and leaves its client the same way. -/
theorem refused_map_gets_stuck :
    (∃ x, Lts.Reachable Running.step Lts.anyLabel Running.Initial x ∧ x.crashed = false ∧
      x.Stuck 0) ∧
    ∃ x, Lts.Reachable Running.step Lts.anyLabel Running.Initial x ∧ x.crashed = true ∧
      x.Stuck 0 := by
  have hreach := Lts.exists_reachable_of_exec Running.step Lts.anyLabel Running.Initial
    (s := ⟨System.main ⟨0, 8192, none, 0, 0⟩ Host.blank, false⟩)
    ⟨System.main_initial _ _ rfl, rfl⟩
  obtain ⟨x, hx, hp⟩ := hreach
    (System.opens 0 ++ [.call 0 (.rpmemMap 8192) .allOk] ++ System.exchange 0 (.allOk 0 0) ++
      [.wake 0 .allOk, .exec 0 false, .poll 0])
    (fun x => decide (x.crashed = false ∧ (x.sys.clients 0).pc = .waiting .read ∧
      (x.sys.clients 0).sem = [] ∧ (x.sys.clients 0).sq = [] ∧ (x.sys.clients 0).cq = [] ∧
      (x.sys.clients 0).cmPending = false ∧ (x.unit 0).pending = 0 ∧ (x.unit 0).sends = 0))
    (by decide)
  obtain ⟨y, hy, hp'⟩ := hreach
    (System.opens 0 ++ System.maps 0 4096 0x7f0000000000 17 ++
      [.call 0 (.rpmemMap 4096) .allOk, .exec 0 true, .poll 0, .handle 0 (.allOk 0 0)])
    (fun x => decide (x.crashed = true ∧ (x.sys.clients 0).pc = .waiting (.rsp .mapReq) ∧
      (x.sys.clients 0).sem = [] ∧ (x.sys.clients 0).sq = [] ∧ (x.sys.clients 0).cq = [] ∧
      (x.sys.clients 0).cmPending = false ∧ (x.unit 0).pending = 0 ∧ (x.unit 0).sends = 0))
    (by decide)
  obtain ⟨hrun, hstuck⟩ := of_decide_eq_true hp
  obtain ⟨hcrash, hstuck'⟩ := of_decide_eq_true hp'
  exact ⟨⟨x, hx, hrun, .of_test hstuck⟩, y, hy, hcrash, .of_test hstuck'⟩

end Rpmem
