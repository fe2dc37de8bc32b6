/-
# Receive credits

A send needs a receive posted on the other side.  The client posts one before
every request, for its response, and the server one when it accepts a
connection and another in every handler but the one of CLOSE.  So between calls
the client has none posted and the server one.

`rpmem_map`, `rpmem_unmap` and `rpmem_commit` do not take their receive back
when a post after it fails: the call returns, and the receive stays
(`Client.call_recvs_of_not_creditSafe`).  `CreditSafe` leaves these calls out.
A failed `rpmem_open` or `rpmem_close` destroys the queue pair with its
receives, and the RDMA read of `rpmem_map` is posted after the receive has been
used, so nothing is asked of them.
-/

import Rpmem.Network.Tokens
import Rpmem.Server.Pool

namespace Rpmem

/-- `max_recv_wr` of the client's queue pair. -/
def maxRecvWr : ℕ := 4

/-- No post of a call that goes on after it fails once its receive is posted. -/
def CreditSafe (o : ClientOutcomes) : Api → Prop
  | .rpmemMap _ => o.calloc = true → o.regMr = true → o.postRecv = true → o.postSend = true
  | .rpmemUnmap => o.postRecv = true → o.postSend = true
  | .rpmemCommit => o.postRecv = true → o.postRdma = true ∧ o.postSend = true
  | .rpmemOpen | .rpmemClose => True

instance (o : ClientOutcomes) : (api : Api) → Decidable (CreditSafe o api)
  | .rpmemMap _ => inferInstanceAs (Decidable (_ → _ → _ → _))
  | .rpmemUnmap => inferInstanceAs (Decidable (_ → _))
  | .rpmemCommit => inferInstanceAs (Decidable (_ → _ ∧ _))
  | .rpmemOpen | .rpmemClose => isTrue trivial

/-- On the connection `c`, the server's `rpmem_post_recv` succeeds. -/
def ServerPosts (c : ConnId) (_ : System) : Action → Prop
  | .handle d o => d = c → o.postRecv = true
  | _ => True

/-- And the calls are safe. -/
def Credited (c : ConnId) (s : System) (a : Action) : Prop :=
  ServerPosts c s a ∧ ∀ api o, a = .call c api o → CreditSafe o api

instance (c : ConnId) (s : System) : (a : Action) → Decidable (ServerPosts c s a)
  | .handle _ _ => inferInstanceAs (Decidable (_ → _))
  | .call _ _ _ | .connect _ _ _ | .wake _ _ | .write _ _ | .exec _ _ | .flushRecv _ | .poll _
  | .deliver _ _ | .disconnect _ | .cmEvent _ => isTrue trivial

instance (c : ConnId) (s : System) : (a : Action) → Decidable (Credited c s a)
  | .call d api o =>
      decidable_of_iff (d = c → CreditSafe o api)
        ⟨fun h => ⟨trivial, by rintro api o ⟨⟩; exact h rfl⟩, fun h hd => h.2 api o (hd ▸ rfl)⟩
  | .handle d o =>
      decidable_of_iff (d = c → o.postRecv = true) ⟨fun h => ⟨h, by simp⟩, fun h => h.1⟩
  | .connect _ _ _ | .wake _ _ | .write _ _ | .exec _ _ | .flushRecv _ | .poll _ | .deliver _ _
  | .disconnect _ | .cmEvent _ => isTrue ⟨trivial, by simp⟩

variable {k k' : Client} {u u' : ServerUnit}

/-! ### The client's credits -/

/-- What a call has done to the receives when it waits or returns: a safe one has posted
the receive of the response it waits for, or has torn the queue pair down; an unsafe
one has returned and left its receive posted. -/
inductive CallCredits (o : ClientOutcomes) (api : Api) (k k' : Client) : Prop
  | kept (safe : CreditSafe o api) (recvs : k'.recvs = k.recvs + k'.pc.messages)
  | destroyed (safe : CreditSafe o api) (pc : k'.pc = .finished) (recvs : k'.recvs = 0)
  | leaked (not_safe : ¬ CreditSafe o api) (pc : k'.pc = .idle) (recvs : k'.recvs = k.recvs + 1)

/-- **What a call does to the receives.** -/
theorem Client.call_credits {o : ClientOutcomes} {api : Api} (h : k.call o api = some k') :
    CallCredits o api k k' := by
  cases (Client.call_called h).2 with
  | opens | closes => exact .kept trivial rfl
  | openFails | closeFails => exact .destroyed trivial rfl rfl
  | maps len hs => exact .kept (by simp [CreditSafe, hs]) rfl
  | mapFails len req rsp n ha hn =>
      obtain ⟨hr, rfl⟩ | ⟨⟨hr, hs⟩, rfl⟩ := hn
      · exact .kept (by simp [CreditSafe, hr]) rfl
      · exact .leaked (by simp [CreditSafe, ha, hr, hs]) rfl rfl
  | mapAllocates len _ _ _ _ ha =>
      obtain hc | hg := ha
      · exact .kept (by simp [CreditSafe, hc]) rfl
      · exact .kept (by simp [CreditSafe, hg]) rfl
  | unmaps hr hs => exact .kept (by simp [CreditSafe, hs]) rfl
  | unmapFails req rsp n id hn =>
      obtain ⟨hr, rfl⟩ | ⟨⟨hr, hs⟩, rfl⟩ := hn
      · exact .kept (by simp [CreditSafe, hr]) rfl
      · exact .leaked (by simp [CreditSafe, hr, hs]) rfl rfl
  | commits id _ hw hs => exact .kept (by simp [CreditSafe, hw, hs]) rfl
  | commitFails req rsp n sq ws _ _ hn =>
      obtain ⟨hr, rfl⟩ | ⟨⟨hr, hw | hs⟩, rfl⟩ := hn
      · exact .kept (by simp [CreditSafe, hr]) rfl
      · exact .leaked (by simp [CreditSafe, hr, hw]) rfl rfl
      · exact .leaked (by simp [CreditSafe, hr, hs]) rfl rfl

/-- **An unsafe call leaves its receive behind**, so between calls the client has one
more posted than before. -/
theorem Client.call_recvs_of_not_creditSafe {o : ClientOutcomes} {api : Api}
    (h : k.call o api = some k') (hnot : ¬ CreditSafe o api) :
    k'.pc = .idle ∧ k'.recvs = k.recvs + 1 := by
  cases Client.call_credits h with
  | kept safe _ => exact absurd safe hnot
  | destroyed safe _ _ => exact absurd safe hnot
  | leaked _ pc recvs => exact ⟨pc, recvs⟩

theorem Client.call_recvs {o : ClientOutcomes} {api : Api} (h : k.call o api = some k')
    (hsafe : CreditSafe o api) (hk : k.recvs = 0) : k'.recvs = k'.pc.messages := by
  cases Client.call_credits h with
  | kept _ recvs => omega
  | destroyed _ pc recvs => simp [recvs, pc, Pc.messages]
  | leaked not_safe _ _ => exact absurd hsafe not_safe

/-- A call that goes on posts no receive, and ends before it waits for a response. -/
theorem Client.resume_recvs {o : ClientOutcomes} {w : Wait} (h : k.resume o w = some k')
    (hk : k.recvs = 0) : k'.recvs = k'.pc.messages := by
  match w with
  | .rsp .openReq =>
      obtain rfl := Option.some.inj h
      unfold rpmemOpenAfterRsp
      simp only
      split_ifs
      · exact hk
      · rfl
  | .rsp .closeReq =>
      obtain rfl := Option.some.inj h
      rfl
  | .rsp .mapReq =>
      obtain ⟨id, -, rfl⟩ := Option.map_eq_some_iff.1 h
      simp only
      split_ifs <;> exact hk
  | .rsp .unmapReq =>
      obtain ⟨id, -, rfl⟩ := Option.map_eq_some_iff.1 h
      exact hk
  | .rsp .commitReq =>
      obtain rfl := Option.some.inj h
      exact hk
  | .read =>
      obtain rfl := Option.some.inj h
      exact hk

theorem Client.poll_recvs (h : k.poll = some k') : k'.recvs = k.recvs ∧ k'.qpErr = k.qpErr := by
  unfold Client.poll at h
  split at h
  · obtain rfl := Option.some.inj h
    exact ⟨rfl, rfl⟩
  · cases h

/-- A stretch of a call makes no response arrive. -/
theorem Stage.arrived (h : Stage k k') (hk : k.arrived = 0) : k'.arrived = 0 := by
  cases h with
  | returned _ _ _ sem cq | sent _ _ _ _ _ sem cq | reading _ _ _ sem cq =>
      simpa only [Client.arrived, sem, cq] using hk
  | destroyed _ _ sem cq => simp [Client.arrived, sem, cq]

/-! ### Both ends of a connection -/

/-- CLOSE has left the client, or there is no connection. -/
def Closed (k : Client) : Prop :=
  k.pc = .unopened ∨ (k.pc = .waiting (.rsp .closeReq) ∧ k.sq.countP Wr.isSend = 0) ∨
    k.pc = .finished

/-- The credits of a connection: a call that waits for a response has one receive for it,
unless the queue pair broke; the server has one receive, or a request to handle. -/
structure CreditInv (k : Client) (u : ServerUnit) : Prop where
  spent : k.recvs + k.arrived ≤ k.pc.messages
  posted : k.qpErr = false → k.pc.messages ≤ k.recvs + k.arrived
  server : u.recvs + u.pending = 1 ∨ Closed k

/-- A call or a wake-up that starts with nothing posted. -/
theorem CreditInv.of_recvs (hr : k'.recvs = k'.pc.messages) (ha : k'.arrived = 0)
    (hu : u.recvs + u.pending = 1 ∨ Closed k') : CreditInv k' u :=
  ⟨by omega, fun _ => by omega, hu⟩

/-- Between calls the client has no receive posted. -/
theorem CreditInv.recvs_eq_zero (h : CreditInv k u) (hpc : k.pc.messages = 0) :
    k.recvs = 0 ∧ k.arrived = 0 := by
  have := h.spent
  omega

theorem CreditInv.call (h : CreditInv k u) {o : ClientOutcomes} {api : Api}
    (hk : k.call o api = some k') (hsafe : CreditSafe o api) : CreditInv k' u := by
  obtain ⟨hpc, hstage⟩ := Client.call_stage o hk
  have hzero : k.pc.messages = 0 := by
    rcases hpc with hp | hp <;> rw [hp] <;> rfl
  obtain ⟨hr, ha⟩ := h.recvs_eq_zero hzero
  refine .of_recvs (Client.call_recvs hk hsafe hr) (hstage.arrived ha) (.inl ?_)
  refine h.server.resolve_right ?_
  rcases hpc with hp | hp <;> simp [Closed, hp]

theorem CreditInv.wake (h : CreditInv k u) (hi : ConnInv k u) {o : ClientOutcomes}
    (hw : k.wake o = some k') : CreditInv k' u := by
  obtain ⟨w, t, sem, hpc, hsem, hw⟩ := Client.wake_cases hw
  obtain ⟨hquiet, hkind⟩ := hi.token hpc hsem
  -- the response that wakes the call has used its receive
  have hr : k.recvs = 0 := by
    have hspent := h.spent
    cases w with
    | read => simpa [hpc, Pc.messages] using (h.recvs_eq_zero (by rw [hpc]; rfl)).1
    | rsp q =>
        have harr : 0 < k.arrived := by
          simp only [Client.arrived, hsem, List.countP_cons, Token.isRsp, hkind, decide_true,
            if_true]
          omega
        rw [hpc] at hspent
        simp only [Pc.messages] at hspent
        omega
  have ha : Client.arrived { k with sem := sem } = 0 := by
    simp [Client.arrived, hquiet.rsps, show sem = [] from hquiet.sem]
  refine .of_recvs (Client.resume_recvs hw hr) ((Client.resume_stage o hw).arrived ha) ?_
  rcases h.server with hu | hcl
  · exact .inl hu
  · rcases hcl with hcl | ⟨hcl, -⟩ | hcl
    · cases hpc.symm.trans hcl
    · cases hpc.symm.trans hcl
      obtain rfl := Option.some.inj hw
      exact .inr (.inr (.inr rfl))
    · cases hpc.symm.trans hcl

/-- The server handles the request of the call in progress and posts its receive again,
unless it was CLOSE. -/
theorem CreditInv.handle {s : Server} {c : ConnId} (h : CreditInv k (s.unit c))
    (hi : ConnInv k (s.unit c)) (hp : 0 < (s.unit c).pending) {o : Outcomes} {m : Handled}
    (hm : s.handle c o = .ok m) (hrecv : o.postRecv = true) : CreditInv k (m.server.unit c) := by
  obtain ⟨q, hpc, hkind⟩ := hi.pending_kind hp
  refine ⟨h.spent, h.posted, ?_⟩
  rcases Server.handle_unit hm with ⟨hnone, -⟩ | ⟨q', f, b, hk, hp', -, -, hr'⟩
  · cases hkind.symm.trans hnone
  obtain rfl : q = q' := Option.some.inj (hkind.symm.trans hk)
  have hsq : k.sq.countP Wr.isSend = 0 := by
    have hmsg := hi.messages
    rw [hpc] at hmsg
    simp only [requestsUnderWay, responsesUnderWay, Pc.messages] at hmsg
    omega
  by_cases hq : q = .closeReq
  · subst hq
    exact .inr (.inr (.inl ⟨hpc, hsq⟩))
  · rw [if_neg hq, if_pos hrecv] at hr'
    have hone : (s.unit c).recvs + (s.unit c).pending = 1 := by
      refine h.server.resolve_right ?_
      simp [Closed, hpc, hq]
    exact .inl (by omega)

variable {s t : System} {a : Action}

/-- A message that moves takes its credit along. -/
theorem CreditInv.moved (h : CreditInv k u) (hpc : k'.pc = k.pc)
    (hsum : k'.recvs + k'.arrived = k.recvs + k.arrived ∨
      (k'.qpErr = true ∧ k'.recvs + k'.arrived ≤ k.recvs + k.arrived))
    (hqp : k.qpErr = true → k'.qpErr = true)
    (hsq : k'.sq.countP Wr.isSend ≤ k.sq.countP Wr.isSend)
    (hu : u'.recvs + u'.pending = u.recvs + u.pending) : CreditInv k' u' := by
  have hspent := h.spent
  refine ⟨by rw [hpc]; omega, fun hq => ?_, ?_⟩
  · have hq' : k.qpErr = false := by
      cases hk : k.qpErr with
      | false => rfl
      | true => rw [hqp hk] at hq; cases hq
    have hposted := h.posted hq'
    rw [hpc]
    rcases hsum with hsum | ⟨herr, -⟩
    · omega
    · rw [herr] at hq; cases hq
  · rw [hu]
    rcases h.server with hs | hcl | ⟨hcl, hn⟩ | hcl
    · exact .inl hs
    · exact .inr (.inl (hpc.trans hcl))
    · exact .inr (.inr (.inl ⟨hpc.trans hcl, by omega⟩))
    · exact .inr (.inr (.inr (hpc.trans hcl)))

/-- A send work request that is done is no response. -/
theorem Client.arrived_complete (k : Client) (wr : Wr) (sq : List Wr) (status : WcStatus) :
    (k.complete wr sq status).arrived = k.arrived := by
  have hne : wr.op.opcode ≠ .recv := by
    obtain ⟨op, n⟩ := wr
    cases op <;> simp [WrOp.opcode]
  simp [Client.arrived, Client.complete, Wc.isRsp, hne]

theorem CreditInv.complete (h : CreditInv k u) {wr : Wr} {sq : List Wr} (hsq : k.sq = wr :: sq)
    (status : WcStatus) (hu : u'.recvs + u'.pending = u.recvs + u.pending) :
    CreditInv (k.complete wr sq status) u' := by
  have harr := Client.arrived_complete k wr sq status
  refine h.moved rfl (.inl ?_) id ?_ hu
  · rw [harr]
    rfl
  · rw [hsq, List.countP_cons]
    exact Nat.le_add_right _ _

/-- **One action keeps the credits of its connection.** -/
theorem CreditInv.step (hst : s.Stepped a t) (hok : Credited a.conn s a)
    (hi : ConnInv (s.clients a.conn) (s.server.unit a.conn))
    (h : CreditInv (s.clients a.conn) (s.server.unit a.conn)) :
    CreditInv (t.clients a.conn) (t.server.unit a.conn) := by
  cases hst with
  | connected c accepted established hpc hc =>
      change CreditInv (s.clients c) (s.server.unit c) at h
      obtain ⟨hr, ha⟩ := h.recvs_eq_zero (by rw [hpc]; rfl)
      simp only [Action.conn, Function.update_self]
      split_ifs with hest
      · have hacc : accepted = true := (Bool.and_eq_true _ _ ▸ hest).1
        refine .of_recvs hr ha (.inl ?_)
        simp [rpmemConnectRequestHandler, hacc, ServerUnit.fresh]
      · exact .of_recvs rfl rfl (.inr (.inr (.inr rfl)))
  | called c api o k hk =>
      simpa [System.setClient, Action.conn] using CreditInv.call h hk (hok.2 api o rfl)
  | woken c o k hk => simpa [System.setClient, Action.conn] using CreditInv.wake h hi hk
  | written c f k hk =>
      obtain ⟨-, -, b, g, -, rfl⟩ := Client.write_cases hk
      simp only [System.setClient, Action.conn, Function.update_self]
      exact CreditInv.moved h rfl (.inl rfl) id le_rfl rfl
  | sent c wr sq hsq hqp hop hc hr =>
      simp only [System.setClient, Action.conn, Function.update_self]
      refine CreditInv.complete h hsq .success ?_
      simp only [Server.receive, Server.setUnit_unit, Function.update_self, Action.conn]
      omega
  | fetched c wr sq a data hsq =>
      simp only [System.setClient, Action.conn, Function.update_self]
      have hplace : CreditInv ((s.clients c).place a data) (s.server.unit c) :=
        CreditInv.moved h rfl (.inl rfl) id le_rfl rfl
      exact hplace.complete hsq .success rfl
  | stored c wr sq a host hsq =>
      simp only [System.setClient, Action.conn, Function.update_self]
      exact CreditInv.complete h hsq .success rfl
  | failed c wr sq hsq =>
      simp only [System.setClient, Action.conn, Function.update_self]
      have hc : CreditInv ((s.clients c).complete wr sq .otherErr) (s.server.unit c) :=
        CreditInv.complete h hsq .otherErr rfl
      exact hc.moved rfl (.inl rfl) (fun _ => rfl) le_rfl rfl
  | flushed c wr sq hsq =>
      simp only [System.setClient, Action.conn, Function.update_self]
      exact CreditInv.complete h hsq .wrFlushErr rfl
  | recvFlushed c hqp =>
      simp only [System.setClient, Action.conn, Function.update_self]
      refine CreditInv.moved h rfl (.inr ⟨hqp, ?_⟩) id le_rfl rfl
      simp only [Client.arrived, List.countP_append, List.countP_singleton, Wc.isRsp, reduceCtorEq,
        and_false, decide_false, Bool.false_eq_true, if_false, Action.conn]
      omega
  | polled c k hk =>
      obtain ⟨hpc, -, hsq, harr, -⟩ := Client.poll_counts hk
      obtain ⟨hr, hqp⟩ := Client.poll_recvs hk
      simp only [System.setClient, Action.conn, Function.update_self]
      refine CreditInv.moved h hpc (.inl ?_) (by rw [hqp]; exact id) (by rw [hsq]; exact le_rfl) rfl
      rw [hr, harr]
      rfl
  | handled c o m hc hp hm => exact h.handle hi hp hm (hok.1 rfl)
  | delivered c hs hr =>
      simp only [System.setClient, Action.conn, Function.update_self]
      refine CreditInv.moved h rfl (.inl ?_) id le_rfl ?_
      · simp only [Client.arrived, Client.receive, List.countP_append, List.countP_singleton,
          Wc.isRsp, and_self, decide_true, if_true, Action.conn]
        omega
      · simp [Server.sent, Action.conn]
  | lost c =>
      refine CreditInv.moved h rfl (.inl rfl) id le_rfl ?_
      simp [Server.sent, Action.conn]
  | disconnected c =>
      simp only [System.setClient, Action.conn, Function.update_self]
      exact CreditInv.moved h rfl (.inl rfl) (fun _ => rfl) le_rfl rfl
  | cmHandled c =>
      simp only [System.setClient, Action.conn, Function.update_self]
      exact CreditInv.moved h rfl (.inl rfl) id le_rfl rfl

/-! ### Every run -/

/-- No action ends a connection on the server. -/
theorem System.Stepped.mem_conns (h : s.Stepped a t) {c : ConnId} (hc : c ∈ s.server.conns) :
    c ∈ t.server.conns := by
  rcases System.step_server h with he | ⟨d, -, he⟩ | ⟨d, u, he, -⟩ |
    ⟨d, wr, sq, ra, host, -, -, -, -, -, he⟩ | ⟨d, o, m, -, hd, hp, hm, he⟩
  · rwa [he]
  · rw [he]
    exact List.mem_cons_of_mem _ hc
  · rwa [he]
  · rwa [he]
  · have hs : serverStep s.server (.handle d o) = some m.server := by
      simp [serverStep, hd, hp, hm]
    rcases serverStep_conns hs with hsame | ⟨d', -, hmore, -⟩ <;> rw [he]
    · rwa [hsame]
    · rw [hmore]
      exact List.mem_cons_of_mem _ hc

/-- A client whose connection is established and not torn down is known to the server. -/
def Known (c : ConnId) (s : System) : Prop :=
  (s.clients c).pc = .unopened ∨ (s.clients c).pc = .finished ∨ c ∈ s.server.conns

theorem Known.step (h : s.Stepped a t) {c : ConnId} (hknown : Known c s) : Known c t := by
  by_cases hmem : c ∈ s.server.conns
  · exact .inr (.inr (h.mem_conns hmem))
  have hpc : (s.clients c).pc = .unopened ∨ (s.clients c).pc = .finished := by
    rcases hknown with hopen | hdone | hin
    · exact .inl hopen
    · exact .inr hdone
    · exact absurd hin hmem
  by_cases hc : c = a.conn
  swap
  · rw [Known, (System.step_frame h hc).1]
    exact hpc.imp_right .inl
  subst hc
  -- without a connection, only `connect` takes the client anywhere
  cases h with
  | connected c accepted established =>
      simp only [Known, Action.conn, Function.update_self]
      split_ifs with hest
      · have hacc : accepted = true := (Bool.and_eq_true _ _ ▸ hest).1
        exact .inr (.inr (by simp [rpmemConnectRequestHandler, hacc]))
      · exact .inr (.inl rfl)
  | called c api o k hk =>
      obtain ⟨hp, -⟩ := Client.call_stage o hk
      change (s.clients c).pc = _ ∨ (s.clients c).pc = _ at hpc
      rcases hp with hp | hp <;> simp [hp] at hpc
  | woken c o k hk =>
      change (s.clients c).pc = _ ∨ (s.clients c).pc = _ at hpc
      obtain ⟨w, -, -, hp, -⟩ := Client.wake_cases hk
      simp [hp] at hpc
  | written c f k hk =>
      obtain ⟨hp, -⟩ := Client.write_cases hk
      change (s.clients c).pc = _ ∨ (s.clients c).pc = _ at hpc
      simp [hp] at hpc
  | polled c k hk =>
      rw [Known]
      simp only [System.setClient, Action.conn, Function.update_self, (Client.poll_counts hk).1]
      exact hpc.imp_right .inl
  | sent c | fetched c | stored c | failed c | flushed c | recvFlushed c | delivered c
  | disconnected c | cmHandled c =>
      rw [Known]
      simp only [System.setClient, Action.conn, Function.update_self]
      exact hpc.imp_right .inl
  | lost c | handled c => exact hpc.imp_right .inl

/-- The invariant of the connection `c`, with those of the tokens everywhere. -/
def System.CreditInv (c : ConnId) (s : System) : Prop :=
  s.TokenInv ∧ Rpmem.CreditInv (s.clients c) (s.server.unit c) ∧ Known c s

theorem System.Initial.creditInv (h : s.Initial) (c : ConnId) : s.CreditInv c := by
  have hpc : (s.clients c).pc = .unopened := by rw [h.clients c]; rfl
  refine ⟨h.tokenInv, ⟨?_, fun _ => ?_, .inr (.inl hpc)⟩, .inl hpc⟩
  · rw [h.clients c]
    exact le_rfl
  · rw [h.clients c]
    exact le_rfl

theorem System.CreditInv.step {c : ConnId} (h : s.CreditInv c) (hok : Credited c s a)
    (he : s.step a = some t) : t.CreditInv c := by
  have hst := System.step_cases he
  refine ⟨h.1.step he, ?_, h.2.2.step hst⟩
  by_cases hc : c = a.conn
  · subst hc
    exact Rpmem.CreditInv.step hst hok (h.1 _) h.2.1
  · obtain ⟨hk, hu⟩ := System.step_frame hst hc
    rw [hk, hu]
    exact h.2.1

/-- **Receive credits are conserved.**  In every state reached by a run in which, on the
connection `c`, the server's receives are posted and no call fails after its own: between
calls the client has no receive posted and the server one; a request or a response at
the head of its queue finds a receive; and the client's receives fit its queue pair. -/
theorem receive_credits_conserved {c : ConnId}
    (h : Lts.Reachable System.step (Credited c) System.Initial s) :
    ((s.clients c).pc = .idle → (s.clients c).recvs = 0 ∧ (s.server.unit c).recvs = 1) ∧
      (∀ wr sq, (s.clients c).sq = wr :: sq → wr.op = .send →
        c ∈ s.server.conns ∧ 0 < (s.server.unit c).recvs) ∧
      (0 < (s.server.unit c).sends → (s.clients c).qpErr = false → 0 < (s.clients c).recvs) ∧
      (s.clients c).recvs ≤ maxRecvWr := by
  obtain ⟨htok, hcred, hknown⟩ : s.CreditInv c :=
    h.invariant (fun _ hs => hs.creditInv c) fun _ _ _ hs hok he => hs.step hok he
  have hinv := htok c
  have hspent := hcred.spent
  refine ⟨fun hidle => ?_, fun wr sq hsq hop => ?_, fun hsends hqp => ?_, ?_⟩
  · have hquiet := hinv.quiet (by rw [hidle]; rfl) (by rw [hidle]; rfl)
    have hone : (s.server.unit c).recvs + (s.server.unit c).pending = 1 := by
      refine hcred.server.resolve_right ?_
      simp [Closed, hidle]
    have := hquiet.pending
    exact ⟨(hcred.recvs_eq_zero (by rw [hidle]; rfl)).1, by omega⟩
  · have hwr : 0 < (s.clients c).sq.countP Wr.isSend := by
      simp [hsq, Wr.isSend, hop, WrOp.opcode]
    obtain ⟨q, hpc⟩ := hinv.waiting (by simp only [requestsUnderWay]; omega)
    have hmsg := hinv.messages
    rw [hpc] at hmsg
    simp only [requestsUnderWay, Pc.messages] at hmsg
    have hone : (s.server.unit c).recvs + (s.server.unit c).pending = 1 := by
      refine hcred.server.resolve_right ?_
      rintro (hcl | ⟨-, hn⟩ | hcl)
      · cases hpc.symm.trans hcl
      · omega
      · cases hpc.symm.trans hcl
    refine ⟨?_, by omega⟩
    rcases hknown with hk | hk | hk
    · cases hpc.symm.trans hk
    · cases hpc.symm.trans hk
    · exact hk
  · have hmsg := hinv.messages
    have hposted := hcred.posted hqp
    simp only [requestsUnderWay, responsesUnderWay] at hmsg
    omega
  · calc (s.clients c).recvs
        ≤ (s.clients c).recvs + (s.clients c).arrived := Nat.le_add_right _ _
      _ ≤ (s.clients c).pc.messages := hspent
      _ ≤ 1 := Pc.messages_le_one _
      _ ≤ maxRecvWr := by decide

/-- After `rpmem_open` and a `rpmem_map` that could not allocate, both ends are balanced. -/
theorem receive_credits_conserved_open :
    ∃ s, Lts.Reachable System.step (Credited 0) System.Initial s ∧ (s.clients 0).pc = .idle ∧
      ((s.clients 0).recvs = 0 ∧ (s.server.unit 0).recvs = 1) := by
  obtain ⟨s, hs, hp⟩ := Lts.exists_reachable_of_exec System.step (Credited 0) System.Initial
    (System.main_initial ⟨0, 8192, none, 0, 0⟩ Host.blank rfl)
    (System.opens 0 ++ [.call 0 (.rpmemMap 4096) { ClientOutcomes.allOk with calloc := false }])
    (fun s => decide ((s.clients 0).pc = .idle)) (by decide)
  have hidle := of_decide_eq_true hp
  exact ⟨s, hs, hidle, (receive_credits_conserved hs).1 hidle⟩

/-- The actions of a `rpmem_map` whose `rpmem_post_send` fails. -/
def System.unsentMap (c : ConnId) : Action :=
  .call c (.rpmemMap 4096) { ClientOutcomes.allOk with postSend := false }

/-- **A `rpmem_post_send` that fails leaves its receive posted.**  After one such
`rpmem_map` the client has a receive between calls, after five of them more than its queue
pair can take. -/
theorem failed_send_leaks_receive :
    ∃ s t, Lts.Reachable System.step (ServerPosts 0) System.Initial s ∧
      (s.clients 0).pc = .idle ∧ (s.clients 0).recvs = 1 ∧
      Lts.Reachable System.step (ServerPosts 0) System.Initial t ∧
      (t.clients 0).pc = .idle ∧ maxRecvWr < (t.clients 0).recvs := by
  have hinit := System.main_initial ⟨0, 8192, none, 0, 0⟩ Host.blank rfl
  obtain ⟨s, hs, hps⟩ := Lts.exists_reachable_of_exec System.step (ServerPosts 0) System.Initial hinit
    (System.opens 0 ++ [System.unsentMap 0])
    (fun s => decide ((s.clients 0).pc = .idle ∧ (s.clients 0).recvs = 1)) (by decide)
  obtain ⟨t, ht, hpt⟩ := Lts.exists_reachable_of_exec System.step (ServerPosts 0) System.Initial hinit
    (System.opens 0 ++ List.replicate 5 (System.unsentMap 0))
    (fun s => decide ((s.clients 0).pc = .idle ∧ maxRecvWr < (s.clients 0).recvs)) (by decide)
  obtain ⟨hs₁, hs₂⟩ := of_decide_eq_true hps
  obtain ⟨ht₁, ht₂⟩ := of_decide_eq_true hpt
  exact ⟨s, t, hs, hs₁, hs₂, ht, ht₁, ht₂⟩

end Rpmem
