/-
# The queues of a client hold what it posts

`rpmem_route_handler` asks for a queue pair of 4 send and 4 receive work
requests, `rpmem_addr_handler` for a completion queue of 8 entries.  A work
request keeps its entry until its completion is polled, and a completion the
queue has no room for breaks it.

A call posts one receive and at most two send work requests, and does not go on
before the response.  Work requests execute in posting order and completions are
polled in theirs, so when the response has been polled, everything posted to the
send queue before it has been too: an answered call leaves that queue empty,
whatever earlier calls left there.  What grows is what calls leave behind that
return because a post failed (`CreditSafe` says which): a receive each, and the
RDMA write of a `rpmem_commit`.  After two of them there is still room for one
more call; after three the send queue can be too short.
-/

import Rpmem.Completion.Notify
import Rpmem.Network.Credits

namespace Rpmem

open Lts

def Wc.isRecv (w : Wc) : Bool := decide (w.opcode = .recv)

/-- The entries of the send queue in use: posted, or done and not polled. -/
def Client.sendsOut (k : Client) : ℕ := k.sq.length + k.cq.countP fun w => !w.isRecv

/-- The entries of the receive queue in use. -/
def Client.recvsOut (k : Client) : ℕ := k.recvs + k.cq.countP Wc.isRecv

/-- How many send work requests the call in progress has posted. -/
def Pc.posts : Pc → ℕ
  | .waiting (.rsp .commitReq) => 2
  | .waiting _ => 1
  | _ => 0

/-- The invariant, after `n` calls that left a post behind: no completion of the send queue comes
after the response, and none is left when the response has been polled. -/
structure QueueInv (n : ℕ) (k : Client) : Prop where
  sends : k.sendsOut ≤ n + k.pc.posts
  recvs : k.recvsOut + k.sem.countP Token.isRsp ≤ n + k.pc.messages
  order : k.cq.Pairwise fun w x => w.isRsp = true → x.isRecv = true
  answered : 0 < k.sem.countP Token.isRsp → k.cq.countP (fun w => !w.isRecv) = 0
  reading : k.pc = .waiting .read → k.sendsOut + k.sem.countP Token.isRead ≤ 1

variable {k k' : Client} {u : ServerUnit} {o : ClientOutcomes} {api : Api} {n : ℕ}

/-! ### What a call posts -/

/-- What a call may leave behind. -/
def leftBy (o : ClientOutcomes) (api : Api) : ℕ := if CreditSafe o api then 0 else 1

theorem rpmemCommit_sends (h : rpmemCommit o k = some k') :
    k'.sq.length ≤ k.sq.length + k'.pc.posts + leftBy o .rpmemCommit := by
  unfold rpmemCommit at h
  unfold leftBy
  cases hr : o.postRecv with
  | false =>
      simp only [hr, Bool.false_eq_true, if_false, Option.some.injEq] at h
      subst h
      exact Nat.le_add_right_of_le (Nat.le_add_right_of_le le_rfl)
  | true =>
      simp only [hr, if_true] at h
      obtain ⟨id, -, rfl⟩ := Option.map_eq_some_iff.1 h
      cases hw : o.postRdma <;> cases hs : o.postSend <;>
        simp [CreditSafe, hr, hw, hs, Client.leave, Client.start, Client.postRecv, Client.post,
          Client.pack, Pc.posts]

/-- **What a call has posted to the send queue** when it waits or returns. -/
theorem Client.call_sends (h : k.call o api = some k') :
    k'.sq.length ≤ k.sq.length + k'.pc.posts + leftBy o api := by
  by_cases hapi : api = .rpmemCommit
  · subst hapi
    exact rpmemCommit_sends (Option.ite_none_right_eq_some.1 h).2
  cases (Client.call_called h).2 with
  | opens | closes | maps | unmaps =>
      simp [Client.sent, Client.start, Client.allocated, Client.postRecv, Client.post, Client.pack,
        Pc.posts, Request.kind]
  | openFails | closeFails => exact Nat.zero_le _
  | mapFails | mapAllocates | unmapFails =>
      exact Nat.le_add_right_of_le (Nat.le_add_right_of_le le_rfl)
  | commits | commitFails => exact absurd rfl hapi

theorem Client.call_receives (h : k.call o api = some k') :
    k'.recvs ≤ k.recvs + k'.pc.messages + leftBy o api := by
  unfold leftBy
  cases Client.call_credits h with
  | kept _ recvs => omega
  | destroyed _ _ recvs => omega
  | leaked not_safe _ recvs =>
      rw [if_neg not_safe]
      omega

/-- A call leaves the completions and the tokens, or tears everything down. -/
theorem Client.call_completions (h : k.call o api = some k') :
    (k'.cq = k.cq ∨ k'.cq = []) ∧ (k'.sem = k.sem ∨ k'.sem = []) ∧ k'.pc ≠ .waiting .read := by
  cases (Client.call_called h).2 with
  | openFails | closeFails => exact ⟨.inr rfl, .inr rfl, by simp [Client.destroy]⟩
  | opens | closes | maps | unmaps | commits =>
      exact ⟨.inl rfl, .inl rfl, by simp [Client.sent, Client.committing]⟩
  | mapFails | mapAllocates | unmapFails | commitFails =>
      exact ⟨.inl rfl, .inl rfl,
        by simp [Client.leave, rpmemMapOut, rpmemMapDestroyMr]⟩

/-! ### Each action keeps the invariant -/

/-- A successful receive posts a token of its kind, and so does an RDMA read. -/
theorem rpmemHandleWc_tokens (wc : Wc) (sem : List Token) :
    (rpmemHandleWc wc sem).countP Token.isRsp =
        sem.countP Token.isRsp + (if wc.isRsp then 1 else 0) ∧
      (rpmemHandleWc wc sem).countP Token.isRead =
        sem.countP Token.isRead + if wc.isRead then 1 else 0 := by
  obtain ⟨opcode, status, m⟩ := wc
  cases status <;> cases opcode <;>
    simp [rpmemHandleWc, Wc.isRsp, Wc.isRead, Token.isRsp, Token.isRead]

namespace QueueInv

/-- **A call.** -/
theorem call (h : QueueInv n k) (hi : ConnInv k u) (hc : k.call o api = some k') :
    QueueInv (n + leftBy o api) k' := by
  have hpc : k.pc.posts = 0 ∧ k.pc.messages = 0 ∧ k.pc.reads = 0 := by
    rcases (Client.call_called hc).1 with hp | hp <;> rw [hp] <;> exact ⟨rfl, rfl, rfl⟩
  have hquiet := hi.quiet hpc.2.1 hpc.2.2
  have hsends := h.sends
  have hrecvs := h.recvs
  have hsq := Client.call_sends hc
  have hrv := Client.call_receives hc
  obtain ⟨hcq, hsem, hread⟩ := Client.call_completions hc
  have hsem' : k'.sem = [] := hsem.elim (fun he => he.trans hquiet.sem) id
  have hsub : k'.cq.Sublist k.cq := by
    rcases hcq with he | he <;> rw [he]
    exact List.nil_sublist _
  have hcount (p : Wc → Bool) : k'.cq.countP p ≤ k.cq.countP p := hsub.countP_le
  refine ⟨?_, ?_, h.order.sublist hsub, by simp [hsem'], fun hr => absurd hr hread⟩
  · have := hcount fun w => !w.isRecv
    simp only [Client.sendsOut] at hsends ⊢
    omega
  · have := hcount Wc.isRecv
    simp only [Client.recvsOut, hsem', List.countP_nil] at hrecvs ⊢
    omega

/-- When a call is woken, no work request of the send queue is left, and no more receives than
calls left behind. -/
theorem token (h : QueueInv n k) (hi : ConnInv k u) (hp : k.Posted) {w : Wait} {t : Token}
    {sem : List Token} (hpc : k.pc = .waiting w) (hsem : k.sem = t :: sem) :
    sem = [] ∧ k.sendsOut = 0 ∧ k.recvsOut ≤ n := by
  obtain ⟨hquiet, hkind⟩ := hi.token hpc hsem
  have hnil : sem = [] := hquiet.sem
  have hrecvs := h.recvs
  rw [hsem, hpc] at hrecvs
  refine ⟨hnil, ?_⟩
  cases w with
  | rsp q =>
      have htok : (t :: sem).countP Token.isRsp = 1 := by
        simp [hnil, Token.isRsp, show t.kind = .recv from hkind]
      have hsq : k.sq = [] := hp.sq_eq_nil hpc hquiet.sends
      have hcq := h.answered (by rw [hsem, htok]; exact Nat.one_pos)
      rw [htok] at hrecvs
      refine ⟨?_, Nat.le_of_add_le_add_right hrecvs⟩
      rw [Client.sendsOut, hsq, hcq]
      rfl
  | read =>
      have htok : (t :: sem).countP Token.isRead = 1 := by
        simp [hnil, Token.isRead, show t.kind = .rdmaRead from hkind]
      have hread := h.reading hpc
      rw [hsem, htok] at hread
      simp only [Pc.messages] at hrecvs
      omega

/-- **A wake-up.** -/
theorem wake (h : QueueInv n k) (hi : ConnInv k u) (hp : k.Posted) (hw : k.wake o = some k') :
    QueueInv n k' := by
  obtain ⟨w, t, sem, hpc, hsem, -⟩ := Client.wake_cases hw
  obtain ⟨-, hsends, hrecvs⟩ := h.token hi hp hpc hsem
  -- the call has returned, or torn everything down
  have hdone {r : Client} (hpc : r.pc.posts = 0) (hread : r.pc ≠ .waiting .read)
      (hsem : r.sem = []) (hsq : r.sq = k.sq) (hcq : r.cq = k.cq) (hrv : r.recvs = k.recvs) :
      QueueInv n r := by
    refine ⟨?_, ?_, hcq ▸ h.order, by simp [hsem], fun hr => absurd hr hread⟩
    · rw [Client.sendsOut, hsq, hcq, ← Client.sendsOut, hsends]
      exact Nat.zero_le _
    · rw [Client.recvsOut, hrv, hcq, ← Client.recvsOut, hsem]
      exact Nat.le_add_right_of_le hrecvs
  cases hi.woken hw with
  | opened | committed | unmapped | mapFails | fetched =>
      exact hdone rfl (by rintro ⟨⟩) rfl rfl rfl rfl
  | closed =>
      exact ⟨Nat.zero_le _, Nat.zero_le _, .nil, by rintro ⟨⟩, by rintro ⟨⟩⟩
  | reads id pc =>
      have hone : ∀ x : Wr, (k.sq ++ [x]).length + k.cq.countP (fun w => !w.isRecv) = 1 := by
        intro x
        rw [Client.sendsOut] at hsends
        rw [List.length_append, List.length_singleton]
        omega
      refine ⟨?_, ?_, h.order, by rintro ⟨⟩, fun _ => (hone _).le⟩
      · exact (hone _).le.trans (Nat.le_add_left _ _)
      · exact Nat.le_add_right_of_le hrecvs

/-- Nothing that the queues depend on has changed. -/
theorem congr (h : QueueInv n k) (hpc : k'.pc = k.pc) (hsq : k'.sq.length = k.sq.length)
    (hcq : k'.cq = k.cq) (hsem : k'.sem = k.sem) (hrv : k'.recvs = k.recvs) : QueueInv n k' := by
  obtain ⟨hs, hr, ho, ha, hd⟩ := h
  rw [Client.sendsOut, ← hsq, ← hcq] at hs hd
  rw [Client.recvsOut, ← hrv, ← hcq] at hr
  exact ⟨hpc ▸ hs, hsem ▸ hpc ▸ hr, hcq ▸ ho, hsem ▸ hcq ▸ ha, hsem ▸ hpc ▸ hd⟩

/-- While something is in the send queue, no response has arrived. -/
theorem noRsp (hi : ConnInv k u) (hp : k.Posted) {wr : Wr} {sq : List Wr} (hsq : k.sq = wr :: sq) :
    k.arrived = 0 := by
  by_contra hne
  have hpos : 0 < requestsUnderWay k u + responsesUnderWay k u := by
    simp only [responsesUnderWay]
    omega
  have hmsg := hi.messages
  obtain ⟨q, hpc⟩ := Pc.rsp_of_messages (hpos.trans_le hmsg)
  have hnone : k.sq.countP Wr.isSend = 0 := by
    rw [hpc] at hmsg
    simp only [requestsUnderWay, responsesUnderWay, Pc.messages] at hmsg
    omega
  rw [hp.sq_eq_nil hpc hnone] at hsq
  cases hsq

/-- **A work request of the send queue is done**: its entry stays in use. -/
theorem complete (h : QueueInv n k) (hi : ConnInv k u) (hp : k.Posted) {wr : Wr} {sq : List Wr}
    (hsq : k.sq = wr :: sq) (status : WcStatus) : QueueInv n (k.complete wr sq status) := by
  have hnot : (⟨wr.op.opcode, status, wr.seq⟩ : Wc).isRecv = false := by
    obtain ⟨op, m⟩ := wr
    cases op <;> rfl
  have harr := noRsp hi hp hsq
  simp only [Client.arrived] at harr
  have hsame : (k.complete wr sq status).sendsOut = k.sendsOut := by
    simp only [Client.sendsOut, Client.complete, hsq, List.countP_append, List.countP_singleton,
      hnot, Bool.not_false, if_true, List.length_cons]
    omega
  refine ⟨hsame.trans_le h.sends, ?_, ?_, fun hpos => ?_, fun hr => ?_⟩
  · simpa [Client.recvsOut, Client.complete, hnot] using h.recvs
  · refine List.pairwise_append.2 ⟨h.order, List.pairwise_singleton _ _, fun w hw x _ hrsp => ?_⟩
    exact absurd hrsp (List.countP_eq_zero.1 (Nat.eq_zero_of_add_eq_zero_right harr) w hw)
  · change 0 < k.sem.countP Token.isRsp at hpos
    omega
  · rw [hsame]
    exact h.reading hr

/-- A receive completes, with a response or flushed. -/
theorem receives (h : QueueInv n k) (hpos : 0 < k.recvs) {wc : Wc} (hwc : wc.isRecv = true)
    (b : Buffer) : QueueInv n { k with rsp := b, recvs := k.recvs - 1, cq := k.cq ++ [wc] } := by
  have hsends : (k.cq ++ [wc]).countP (fun w => !w.isRecv) = k.cq.countP fun w => !w.isRecv := by
    simp [hwc]
  have hrecvs : (k.cq ++ [wc]).countP Wc.isRecv = k.cq.countP Wc.isRecv + 1 := by simp [hwc]
  have hout := h.recvs
  obtain ⟨hs, -, ho, ha, hd⟩ := h
  simp only [Client.sendsOut, Client.recvsOut] at hs hd hout
  refine ⟨?_, ?_, ?_, ?_, ?_⟩
  · simpa only [Client.sendsOut, hsends] using hs
  · simp only [Client.recvsOut, hrecvs]
    omega
  · refine List.pairwise_append.2 ⟨ho, List.pairwise_singleton _ _, fun w _ x hx _ => ?_⟩
    rw [List.mem_singleton.1 hx, hwc]
  · simpa only [hsends] using ha
  · simpa only [Client.sendsOut, hsends] using hd

/-- **A completion is polled**: its entry is free, and the response or the RDMA read a token. -/
theorem poll (h : QueueInv n k) (hk : k.poll = some k') : QueueInv n k' := by
  unfold Client.poll at hk
  split at hk
  · rename_i wc cq hcq
    obtain rfl := Option.some.inj hk
    obtain ⟨hs, hr, ho, ha, hd⟩ := h
    simp only [Client.sendsOut, Client.recvsOut, hcq, List.countP_cons] at hs hr ha hd
    rw [hcq, List.pairwise_cons] at ho
    obtain ⟨hhead, hrest⟩ := ho
    obtain ⟨hrsp, hread⟩ := rpmemHandleWc_tokens wc k.sem
    have hle : (if wc.isRsp then 1 else 0) ≤ if wc.isRecv then 1 else 0 := by
      split_ifs with h₁ h₂ <;> simp_all [Wc.isRsp, Wc.isRecv]
    have hle' : (if wc.isRead then 1 else 0) ≤ if (!wc.isRecv) = true then 1 else 0 := by
      split_ifs with h₁ h₂ <;> simp_all [Wc.isRead, Wc.isRecv]
    refine ⟨?_, ?_, hrest, fun hpos => ?_, fun hpc => ?_⟩
    · simp only [Client.sendsOut]
      omega
    · simp only [Client.recvsOut, hrsp]
      omega
    · by_cases hw : wc.isRsp = true
      · rw [List.countP_eq_zero]
        intro x hx
        simp [hhead x hx hw]
      · rw [hrsp, if_neg hw] at hpos
        exact Nat.eq_zero_of_add_eq_zero_right (ha hpos)
    · have hone := hd hpc
      simp only [Client.sendsOut, hread]
      omega
  · cases hk

end QueueInv

theorem QueueInv.fresh : QueueInv 0 Client.fresh :=
  ⟨le_rfl, le_rfl, .nil, by rintro ⟨⟩, by rintro ⟨⟩⟩

/-- More calls may have left something behind. -/
theorem QueueInv.mono {m : ℕ} (h : QueueInv n k) (hnm : n ≤ m) : QueueInv m k :=
  ⟨h.sends.trans (Nat.add_le_add_right hnm _), h.recvs.trans (Nat.add_le_add_right hnm _),
    h.order, h.answered, h.reading⟩

theorem QueueInv.destroyed (r : Result) : QueueInv n (k.destroy r) :=
  ⟨Nat.zero_le _, Nat.zero_le _, .nil, by rintro ⟨⟩, by rintro ⟨⟩⟩

variable {s t : System} {a : Action}

/-- The calls on `c` that left a post behind. -/
def noteLeft (c : ConnId) (_ : System) (a : Action) (_ : System) (n : ℕ) : ℕ :=
  match a with
  | .call d api o => if d = c then n + leftBy o api else n
  | _ => n

/-- **One action on its own connection.** -/
theorem QueueInv.step (hst : s.Stepped a t) (hi : ConnInv (s.clients a.conn) (s.server.unit a.conn))
    (hp : (s.clients a.conn).Posted) (h : QueueInv n (s.clients a.conn)) :
    QueueInv (noteLeft a.conn s a t n) (t.clients a.conn) := by
  cases hst with
  | connected c accepted established hpc =>
      simp only [Action.conn, Function.update_self] at h ⊢
      split_ifs
      · have hsends := h.sends
        have hrecvs := h.recvs
        rw [hpc] at hsends hrecvs
        exact ⟨hsends, hrecvs, h.order, h.answered, by rintro ⟨⟩⟩
      · exact .destroyed _
  | called c api o k hk =>
      simp only [Action.conn, System.setClient, Function.update_self, noteLeft] at hi h hk ⊢
      exact h.call hi hk
  | woken c o k hk =>
      simp only [Action.conn, System.setClient, Function.update_self] at hi hp h hk ⊢
      exact h.wake hi hp hk
  | written c f k hk =>
      obtain ⟨-, -, b, g, -, rfl⟩ := Client.write_cases hk
      simp only [Action.conn, System.setClient, Function.update_self]
      exact h.congr rfl rfl rfl rfl rfl
  | polled c k hk =>
      simp only [Action.conn, System.setClient, Function.update_self]
      exact h.poll hk
  | sent c wr sq hsq | stored c wr sq _ _ hsq | failed c wr sq hsq | flushed c wr sq hsq =>
      simp only [Action.conn, System.setClient, Function.update_self]
      exact (h.complete hi hp hsq _).congr rfl rfl rfl rfl rfl
  | fetched c wr sq ra data hsq =>
      simp only [Action.conn, System.setClient, Function.update_self]
      exact (h.complete hi hp hsq .success).congr rfl rfl rfl rfl rfl
  | recvFlushed c _ hr =>
      simp only [Action.conn, System.setClient, Function.update_self]
      exact h.receives hr rfl (s.clients c).rsp
  | delivered c _ hr =>
      simp only [Action.conn, System.setClient, Function.update_self]
      exact h.receives hr rfl _
  | disconnected c | cmHandled c =>
      simp only [Action.conn, System.setClient, Function.update_self]
      exact h.congr rfl rfl rfl rfl rfl
  | handled | lost => exact h

end Rpmem
