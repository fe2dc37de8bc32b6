/-
# Clients, server and the queue pairs between them

Any number of library clients, each with its own connection, and the server.
An action is one thing that happens: a call of the library enters or goes on, a
work request at the head of a send queue executes, the server handles a
request, a response is delivered, a completion is polled, a link goes down.
The label carries every choice, so a run is a list of labels and may come in
any order and with any delay.

A queue pair is reliable and in order: work requests execute in posting order,
a send needs a receive posted by the server, an RDMA access needs a live
registration of the connection's protection domain.  The first work request
that fails puts the queue pair in the error state, in which everything else is
flushed.  A response needs a receive posted by the client; it is lost only if
the label says so.
-/

import Rpmem.Client
import Rpmem.Server.Steps

namespace Rpmem

/-- The server and the clients, by connection. -/
structure System where
  server : Server
  clients : ConnId → Client

/-- What can happen. -/
inductive Action
  | connect (c : ConnId) (accepted established : Bool)
  | call (c : ConnId) (api : Api) (o : ClientOutcomes)
  | wake (c : ConnId) (o : ClientOutcomes)
  | write (c : ConnId) (f : ℕ → UInt8)
  | exec (c : ConnId) (ok : Bool)
  | flushRecv (c : ConnId)
  | poll (c : ConnId)
  | handle (c : ConnId) (o : Outcomes)
  | deliver (c : ConnId) (ok : Bool)
  | disconnect (c : ConnId)
  | cmEvent (c : ConnId)

/-- The connection an action is about. -/
def Action.conn : Action → ConnId
  | .connect c _ _ | .call c _ _ | .wake c _ | .write c _ | .exec c _ | .flushRecv c | .poll c
  | .handle c _ | .deliver c _ | .disconnect c | .cmEvent c => c

namespace Client

/-- The local region and buffer of an RDMA work request are usable. -/
def CanUse (k : Client) (a : RdmaArgs) : Prop :=
  a.lkey ∈ k.live ∧ (a.len = 0 ∨ a.localAddr = some a.lkey)

instance (k : Client) (a : RdmaArgs) : Decidable (k.CanUse a) :=
  inferInstanceAs (Decidable (_ ∧ _))

/-- The work request at the head of the send queue is done. -/
def complete (k : Client) (wr : Wr) (sq : List Wr) (status : WcStatus) : Client :=
  { k with sq := sq, cq := k.cq ++ [⟨wr.op.opcode, status, wr.seq⟩] }

/-- What an RDMA read fetched goes to the local buffer. -/
def place (k : Client) (a : RdmaArgs) (data : ℕ → UInt8) : Client :=
  { k with
    bufs := Function.update k.bufs a.lkey
      (fun i => if i < a.len.toNat then data i else k.bufs a.lkey i) }

/-- A response arrives in the buffer of a posted receive. -/
def receive (k : Client) (msg : Buffer) : Client :=
  { k with rsp := msg, recvs := k.recvs - 1, cq := k.cq ++ [⟨.recv, .success, msg.seq⟩] }

end Client

/-- A response has left the server. -/
def Server.sent (s : Server) (c : ConnId) : Server :=
  s.setUnit c { s.unit c with sends := (s.unit c).sends - 1 }

namespace System

variable (s : System)

def setClient (c : ConnId) (k : Client) : System :=
  { s with clients := Function.update s.clients c k }

/-- The connection is set up, or refused on one side.  A `rpmem_open` whose connection is not
set up has then returned `NULL`; that on several of these paths `rpmem.c` does not return at all,
but waits in `sem_wait` on `sem_connect` or in `rdma_destroy_id`, is left out here. -/
def connect (c : ConnId) (accepted established : Bool) : Option System :=
  if (s.clients c).pc = .unopened ∧ c ∉ s.server.conns then
    some ⟨rpmemConnectRequestHandler accepted s.server c,
      Function.update s.clients c
        (if accepted && established then
          { s.clients c with pc := .connected, state := .established }
        else (s.clients c).destroy (.opened false))⟩
  else none

/-- A work request executes without error. -/
def execute (c : ConnId) (wr : Wr) (sq : List Wr) : Option System :=
  let k := s.clients c
  match wr.op with
  | .send =>
      if c ∈ s.server.conns ∧ 0 < (s.server.unit c).recvs then
        some { s.setClient c (k.complete wr sq .success) with server := s.server.receive c k.req }
      else none
  | .rdmaRead a =>
      if k.CanUse a then
        (s.server.host.rdmaRead c a.rkey a.remoteAddr a.len.toNat).map fun data =>
          s.setClient c ((k.place a data).complete wr sq .success)
      else none
  | .rdmaWrite a =>
      if k.CanUse a then
        (s.server.host.rdmaWrite c a.rkey a.remoteAddr a.len.toNat (k.bufs a.lkey)).map
          fun host =>
            { s.setClient c (k.complete wr sq .success) with
              server := { s.server with host := host } }
      else none

/-- The work request at the head of the send queue executes, fails or is flushed. -/
def exec (c : ConnId) (ok : Bool) : Option System :=
  let k := s.clients c
  match k.sq with
  | [] => none
  | wr :: sq =>
      if k.qpErr then
        if ok then none else some (s.setClient c (k.complete wr sq .wrFlushErr))
      else if ok then s.execute c wr sq
      else some (s.setClient c { k.complete wr sq .otherErr with qpErr := true })

/-- A posted receive of a broken queue pair is flushed. -/
def flushRecv (c : ConnId) : Option System :=
  let k := s.clients c
  if k.qpErr = true ∧ 0 < k.recvs then
    some (s.setClient c { k with
      recvs := k.recvs - 1
      cq := k.cq ++ [⟨.recv, .wrFlushErr, k.seq⟩] })
  else none

/-- The server handles a request of `c`. -/
def handle (c : ConnId) (o : Outcomes) : Option System :=
  (serverStep s.server (.handle c o)).map fun server => { s with server := server }

/-- A response of the server arrives, or is lost. -/
def deliver (c : ConnId) (ok : Bool) : Option System :=
  let k := s.clients c
  if 0 < (s.server.unit c).sends then
    if ok then
      if 0 < k.recvs ∧ k.qpErr = false then
        some { s.setClient c (k.receive (s.server.unit c).rsp) with server := s.server.sent c }
      else none
    else some { s with server := s.server.sent c }
  else none

/-- The link goes down: the queue pair breaks, and an event waits for the
connection-manager thread. -/
def disconnect (c : ConnId) : Option System :=
  if (s.clients c).pc ≠ .unopened ∧ (s.clients c).pc ≠ .finished then
    some (s.setClient c { s.clients c with qpErr := true, cmPending := true })
  else none

def cmEvent (c : ConnId) : Option System :=
  if (s.clients c).cmPending then some (s.setClient c (rpmemCmaDisconnected (s.clients c)))
  else none

/-- One action. -/
def step : Action → Option System
  | .connect c accepted established => s.connect c accepted established
  | .call c api o => ((s.clients c).call o api).map (s.setClient c)
  | .wake c o => ((s.clients c).wake o).map (s.setClient c)
  | .write c f => ((s.clients c).write f).map (s.setClient c)
  | .exec c ok => s.exec c ok
  | .flushRecv c => s.flushRecv c
  | .poll c => (s.clients c).poll.map (s.setClient c)
  | .handle c o => s.handle c o
  | .deliver c ok => s.deliver c ok
  | .disconnect c => s.disconnect c
  | .cmEvent c => s.cmEvent c

/-- A server just set up, and no client has opened yet. -/
structure Initial : Prop where
  server : s.server.Initial
  units : ∀ c, (s.server.unit c).pending = 0 ∧ (s.server.unit c).sends = 0 ∧
    (s.server.unit c).recvs = 0
  clients : ∀ c, s.clients c = Client.fresh

/-- The system with the server as `main` sets it up. -/
def main (res : Resource) (host : Host) : System := ⟨Server.main res host, fun _ => Client.fresh⟩

theorem main_initial (res : Resource) (host : Host) (h : host.mrs = []) :
    (main res host).Initial where
  server := Server.main_initial res host h
  units _ := ⟨rfl, rfl, rfl⟩
  clients _ := rfl

/-- The actions from a request to the token of its response, when nothing fails. -/
def exchange (c : ConnId) (o : Outcomes) : List Action :=
  [.exec c true, .poll c, .handle c o, .deliver c true, .poll c]

/-- The actions of a successful `rpmem_open`. -/
def opens (c : ConnId) : List Action :=
  [.connect c true true, .call c .rpmemOpen .allOk] ++ exchange c (.allOk 0 0) ++ [.wake c .allOk]

/-- The actions of a successful `rpmem_map`, with the address and key it gets. -/
def maps (c : ConnId) (len addr : BitVec 64) (rkey : BitVec 32) : List Action :=
  [.call c (.rpmemMap len) .allOk] ++ exchange c (.allOk addr rkey) ++
    [.wake c .allOk, .exec c true, .poll c, .wake c .allOk]

/-- What each action can do, one constructor for each of its outcomes. -/
inductive Stepped : Action → System → Prop
  | connected (c : ConnId) (accepted established : Bool) (hpc : (s.clients c).pc = .unopened)
      (hc : c ∉ s.server.conns) :
      Stepped (.connect c accepted established)
        ⟨rpmemConnectRequestHandler accepted s.server c,
          Function.update s.clients c
            (if accepted && established then
              { s.clients c with pc := .connected, state := .established }
            else (s.clients c).destroy (.opened false))⟩
  | called (c : ConnId) (api : Api) (o : ClientOutcomes) (k : Client)
      (h : (s.clients c).call o api = some k) : Stepped (.call c api o) (s.setClient c k)
  | woken (c : ConnId) (o : ClientOutcomes) (k : Client) (h : (s.clients c).wake o = some k) :
      Stepped (.wake c o) (s.setClient c k)
  | written (c : ConnId) (f : ℕ → UInt8) (k : Client) (h : (s.clients c).write f = some k) :
      Stepped (.write c f) (s.setClient c k)
  | sent (c : ConnId) (wr : Wr) (sq : List Wr) (hsq : (s.clients c).sq = wr :: sq)
      (hqp : (s.clients c).qpErr = false) (hop : wr.op = .send) (hc : c ∈ s.server.conns)
      (hr : 0 < (s.server.unit c).recvs) :
      Stepped (.exec c true)
        { s.setClient c ((s.clients c).complete wr sq .success) with
          server := s.server.receive c (s.clients c).req }
  | fetched (c : ConnId) (wr : Wr) (sq : List Wr) (a : RdmaArgs) (data : ℕ → UInt8)
      (hsq : (s.clients c).sq = wr :: sq) (hqp : (s.clients c).qpErr = false)
      (hop : wr.op = .rdmaRead a) (huse : (s.clients c).CanUse a)
      (hread : s.server.host.rdmaRead c a.rkey a.remoteAddr a.len.toNat = some data) :
      Stepped (.exec c true)
        (s.setClient c (((s.clients c).place a data).complete wr sq .success))
  | stored (c : ConnId) (wr : Wr) (sq : List Wr) (a : RdmaArgs) (host : Host)
      (hsq : (s.clients c).sq = wr :: sq) (hqp : (s.clients c).qpErr = false)
      (hop : wr.op = .rdmaWrite a) (huse : (s.clients c).CanUse a)
      (hwrite : s.server.host.rdmaWrite c a.rkey a.remoteAddr a.len.toNat
        ((s.clients c).bufs a.lkey) = some host) :
      Stepped (.exec c true)
        { s.setClient c ((s.clients c).complete wr sq .success) with
          server := { s.server with host := host } }
  | failed (c : ConnId) (wr : Wr) (sq : List Wr) (hsq : (s.clients c).sq = wr :: sq)
      (hqp : (s.clients c).qpErr = false) :
      Stepped (.exec c false)
        (s.setClient c { (s.clients c).complete wr sq .otherErr with qpErr := true })
  | flushed (c : ConnId) (wr : Wr) (sq : List Wr) (hsq : (s.clients c).sq = wr :: sq)
      (hqp : (s.clients c).qpErr = true) :
      Stepped (.exec c false) (s.setClient c ((s.clients c).complete wr sq .wrFlushErr))
  | recvFlushed (c : ConnId) (hqp : (s.clients c).qpErr = true) (hr : 0 < (s.clients c).recvs) :
      Stepped (.flushRecv c) (s.setClient c { s.clients c with
        recvs := (s.clients c).recvs - 1
        cq := (s.clients c).cq ++ [⟨.recv, .wrFlushErr, (s.clients c).seq⟩] })
  | polled (c : ConnId) (k : Client) (h : (s.clients c).poll = some k) :
      Stepped (.poll c) (s.setClient c k)
  | handled (c : ConnId) (o : Outcomes) (m : Handled) (hc : c ∈ s.server.conns)
      (hp : 0 < (s.server.unit c).pending) (hm : s.server.handle c o = .ok m) :
      Stepped (.handle c o) { s with server := m.server }
  | delivered (c : ConnId) (hs : 0 < (s.server.unit c).sends) (hr : 0 < (s.clients c).recvs)
      (hqp : (s.clients c).qpErr = false) :
      Stepped (.deliver c true)
        { s.setClient c ((s.clients c).receive (s.server.unit c).rsp) with
          server := s.server.sent c }
  | lost (c : ConnId) (hs : 0 < (s.server.unit c).sends) :
      Stepped (.deliver c false) { s with server := s.server.sent c }
  | disconnected (c : ConnId)
      (hpc : (s.clients c).pc ≠ .unopened ∧ (s.clients c).pc ≠ .finished) :
      Stepped (.disconnect c)
        (s.setClient c { s.clients c with qpErr := true, cmPending := true })
  | cmHandled (c : ConnId) (hcm : (s.clients c).cmPending = true) :
      Stepped (.cmEvent c) (s.setClient c (rpmemCmaDisconnected (s.clients c)))

variable {s} {t : System}

theorem execute_cases {c : ConnId} {wr : Wr} {sq : List Wr} (hsq : (s.clients c).sq = wr :: sq)
    (hqp : (s.clients c).qpErr = false) (h : s.execute c wr sq = some t) :
    s.Stepped (.exec c true) t := by
  unfold execute at h
  simp only at h
  split at h
  · split_ifs at h with hr
    obtain rfl := Option.some.inj h
    exact .sent c wr sq hsq hqp ‹_› hr.1 hr.2
  · split_ifs at h with huse
    obtain ⟨data, hd, rfl⟩ := Option.map_eq_some_iff.1 h
    exact .fetched c wr sq _ data hsq hqp ‹_› huse hd
  · split_ifs at h with huse
    obtain ⟨host, hh, rfl⟩ := Option.map_eq_some_iff.1 h
    exact .stored c wr sq _ host hsq hqp ‹_› huse hh

theorem exec_cases {c : ConnId} {ok : Bool} (h : s.exec c ok = some t) :
    s.Stepped (.exec c ok) t := by
  unfold exec at h
  simp only at h
  split at h
  · cases h
  · rename_i wr sq hsq
    split_ifs at h with hqp hok
    · obtain rfl := Option.some.inj h
      have hok' : ok = false := by simpa using hok
      subst hok'
      exact .flushed c wr sq hsq hqp
    · rename_i hok
      subst hok
      exact execute_cases hsq (by simpa using hqp) h
    · rename_i hok
      obtain rfl := Option.some.inj h
      have hok' : ok = false := by simpa using hok
      subst hok'
      exact .failed c wr sq hsq (by simpa using hqp)

/-- **Everything an action can do.** -/
theorem step_cases {a : Action} (h : s.step a = some t) : s.Stepped a t := by
  cases a with
  | connect c accepted established =>
      rw [step, connect] at h
      by_cases hc : (s.clients c).pc = .unopened ∧ c ∉ s.server.conns
      · rw [if_pos hc] at h
        obtain rfl := Option.some.inj h
        exact .connected c accepted established hc.1 hc.2
      · rw [if_neg hc] at h
        cases h
  | call c api o =>
      obtain ⟨k, hk, rfl⟩ := Option.map_eq_some_iff.1 h
      exact .called c api o k hk
  | wake c o =>
      obtain ⟨k, hk, rfl⟩ := Option.map_eq_some_iff.1 h
      exact .woken c o k hk
  | write c f =>
      obtain ⟨k, hk, rfl⟩ := Option.map_eq_some_iff.1 h
      exact .written c f k hk
  | exec c ok => exact exec_cases h
  | flushRecv c =>
      simp only [step, flushRecv] at h
      split_ifs at h with hc
      obtain rfl := Option.some.inj h
      exact .recvFlushed c hc.1 hc.2
  | poll c =>
      obtain ⟨k, hk, rfl⟩ := Option.map_eq_some_iff.1 h
      exact .polled c k hk
  | handle c o =>
      obtain ⟨server, hs, rfl⟩ := Option.map_eq_some_iff.1 h
      rcases serverStep_cases hs with ⟨⟨_, _, _, he⟩, -⟩ | ⟨_, _, he, -⟩ |
        ⟨c', o', m, he, hc, hp, hm, rfl⟩
      · cases he
      · cases he
      · cases he
        exact .handled c o m hc hp hm
  | deliver c ok =>
      simp only [step, deliver] at h
      split_ifs at h with hs hok hr
      · obtain rfl := Option.some.inj h
        subst hok
        exact .delivered c hs hr.1 hr.2
      · obtain rfl := Option.some.inj h
        have hok' : ok = false := by simpa using hok
        subst hok'
        exact .lost c hs
  | disconnect c =>
      simp only [step, disconnect] at h
      split_ifs at h with hc
      obtain rfl := Option.some.inj h
      exact .disconnected c hc
  | cmEvent c =>
      simp only [step, cmEvent] at h
      split_ifs at h with hc
      obtain rfl := Option.some.inj h
      exact .cmHandled c hc

/-- **What an action does to the server**: nothing, a new connection, a change to
a unit other than its resource, an RDMA write, or a handled request. -/
theorem step_server {a : Action} (h : s.Stepped a t) :
    t.server = s.server ∨
    (∃ c, c ∉ s.server.conns ∧ t.server = rpmemConnectRequestHandler true s.server c) ∨
    (∃ c u, t.server = s.server.setUnit c u ∧ u.res = (s.server.unit c).res) ∨
    (∃ c wr sq ra host, a = .exec c true ∧ (s.clients c).sq = wr :: sq ∧ wr.op = .rdmaWrite ra ∧
      (s.clients c).CanUse ra ∧
      s.server.host.rdmaWrite c ra.rkey ra.remoteAddr ra.len.toNat
        ((s.clients c).bufs ra.lkey) = some host ∧
      t.server = { s.server with host := host }) ∨
    ∃ c o m, a = .handle c o ∧ c ∈ s.server.conns ∧ 0 < (s.server.unit c).pending ∧
      s.server.handle c o = .ok m ∧ t.server = m.server := by
  cases h with
  | connected c accepted _ _ hc =>
      cases accepted with
      | false => exact .inl rfl
      | true => exact .inr (.inl ⟨c, hc, rfl⟩)
  | called | woken | written | fetched | failed | flushed | recvFlushed | polled | disconnected
  | cmHandled => exact .inl rfl
  | sent c => exact .inr (.inr (.inl ⟨c, _, rfl, rfl⟩))
  | stored c wr sq ra host hsq _ hop huse hwrite =>
      exact .inr (.inr (.inr (.inl ⟨c, wr, sq, ra, host, rfl, hsq, hop, huse, hwrite, rfl⟩)))
  | handled c o m hc hp hm => exact .inr (.inr (.inr (.inr ⟨c, o, m, rfl, hc, hp, hm, rfl⟩)))
  | delivered c | lost c => exact .inr (.inr (.inl ⟨c, _, rfl, rfl⟩))

end System

end Rpmem
