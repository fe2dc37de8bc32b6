/-
# Every wake-up is the one waited for

`sem_command` is one anonymous semaphore for every response and every RDMA
read, and `rsp` one buffer for all responses.  What keeps them apart is that a
call sends at most one request, waits for its response before it does anything
else, and that a request makes at most one response: on each connection there
is at most one request, response, completion or token of `sem_command` under
way, and only while a call waits for it.

`ConnInv` says so for a client and its unit of the server, with what the one
message under way carries.  It needs nothing about the host, so any failure of
any call and any delay keeps it.
-/

import Rpmem.Network.System

namespace Rpmem

/-! ### What is under way on a connection -/

def Wr.isSend (w : Wr) : Bool := decide (w.op.opcode = .send)

def Wr.isRead (w : Wr) : Bool := decide (w.op.opcode = .rdmaRead)

/-- A successful receive completion. -/
def Wc.isRsp (w : Wc) : Bool := decide (w.opcode = .recv ∧ w.status = .success)

/-- A successful completion of an RDMA read. -/
def Wc.isRead (w : Wc) : Bool := decide (w.opcode = .rdmaRead ∧ w.status = .success)

def Token.isRsp (t : Token) : Bool := decide (t.kind = .recv)

def Token.isRead (t : Token) : Bool := decide (t.kind = .rdmaRead)

/-- Requests posted or received and not handled yet. -/
def requestsUnderWay (k : Client) (u : ServerUnit) : ℕ := k.sq.countP Wr.isSend + u.pending

/-- Responses that have reached the client and woken no call. -/
def Client.arrived (k : Client) : ℕ := k.cq.countP Wc.isRsp + k.sem.countP Token.isRsp

/-- Responses posted that have woken no call. -/
def responsesUnderWay (k : Client) (u : ServerUnit) : ℕ := u.sends + k.arrived

/-- RDMA reads that have succeeded and woken no call. -/
def Client.fetched (k : Client) : ℕ := k.cq.countP Wc.isRead + k.sem.countP Token.isRead

/-- RDMA reads posted that have woken no call. -/
def Client.readsUnderWay (k : Client) : ℕ := k.sq.countP Wr.isRead + k.fetched

/-- How many messages may be under way: one, if a call waits for a response. -/
def Pc.messages : Pc → ℕ
  | .waiting (.rsp _) => 1
  | _ => 0

theorem Pc.messages_le_one (pc : Pc) : pc.messages ≤ 1 := by
  unfold messages
  split
  · exact le_rfl
  · exact Nat.zero_le 1

theorem Pc.rsp_of_messages {pc : Pc} (h : 0 < pc.messages) : ∃ q, pc = .waiting (.rsp q) := by
  unfold messages at h
  split at h
  · exact ⟨_, rfl⟩
  · exact absurd h (lt_irrefl 0)

/-- How many RDMA reads may be under way: one, in the second wait of `rpmem_map`. -/
def Pc.reads : Pc → ℕ
  | .waiting .read => 1
  | _ => 0

theorem Pc.read_of_reads {pc : Pc} (h : 0 < pc.reads) : pc = .waiting .read := by
  unfold reads at h
  split at h
  · rfl
  · exact absurd h (lt_irrefl 0)

/-- The client's side of one connection and the server's. -/
structure ConnInv (k : Client) (u : ServerUnit) : Prop where
  messages : requestsUnderWay k u + responsesUnderWay k u ≤ k.pc.messages
  reads : k.readsUnderWay ≤ k.pc.reads
  request : ∀ q, k.pc = .waiting (.rsp q) →
    requestKind k.req.bytes = some q ∧ k.req.seq = k.seq
  pending : 0 < u.pending → u.req = k.req
  answer : ∀ q, k.pc = .waiting (.rsp q) → 0 < responsesUnderWay k u →
    opcodeField u.rsp.bytes = q.rsp.opcode.code ∧ u.rsp.seq = k.seq
  arrived : 0 < k.arrived → k.rsp = u.rsp
  posted : ∀ w ∈ k.sq, w.isRead = true → w.seq = k.seq
  completed : ∀ w ∈ k.cq, w.isRsp = true ∨ w.isRead = true → w.seq = k.seq
  tokens : ∀ t ∈ k.sem, t.seq = k.seq

/-- Nothing is under way. -/
structure Quiet (k : Client) (u : ServerUnit) : Prop where
  sends : k.sq.countP Wr.isSend = 0
  reads : k.sq.countP Wr.isRead = 0
  rsps : k.cq.countP Wc.isRsp = 0
  fetches : k.cq.countP Wc.isRead = 0
  sem : k.sem = []
  pending : u.pending = 0
  answers : u.sends = 0

variable {k k' : Client} {u : ServerUnit}

/-- A token is a response or an RDMA read. -/
theorem length_sem (l : List Token) :
    l.countP Token.isRsp + l.countP Token.isRead = l.length := by
  induction l with
  | nil => rfl
  | cons t l ih =>
      obtain ⟨kind, n⟩ := t
      cases kind <;> simp [Token.isRsp, Token.isRead] at ih ⊢ <;> omega

theorem Quiet.of_sum (h : k.sq.countP Wr.isSend + k.sq.countP Wr.isRead + k.cq.countP Wc.isRsp +
    k.cq.countP Wc.isRead + k.sem.length + u.pending + u.sends = 0) : Quiet k u := by
  refine ⟨?_, ?_, ?_, ?_, List.eq_nil_of_length_eq_zero ?_, ?_, ?_⟩ <;> omega

theorem ConnInv.quiet (h : ConnInv k u) (hm : k.pc.messages = 0) (hr : k.pc.reads = 0) :
    Quiet k u := by
  have hmsg := h.messages
  have hrd := h.reads
  have hlen := length_sem k.sem
  simp only [requestsUnderWay, responsesUnderWay, Client.readsUnderWay, Client.arrived,
    Client.fetched, hm, hr] at hmsg hrd
  exact .of_sum (by omega)

/-! ### What a stretch of a call leaves of the queues -/

/-- The work requests the call in progress posted before it blocked. -/
def Client.awaited (k : Client) : List Wr :=
  match k.pc with
  | .waiting (.rsp .commitReq) =>
      [⟨.rdmaWrite (k.rdmaArgs (k.mr.getD 0)), k.seq⟩, ⟨.send, k.seq⟩]
  | .waiting (.rsp _) => [⟨.send, k.seq⟩]
  | .waiting .read => [⟨.rdmaRead (k.rdmaArgs (k.mr.getD 0)), k.seq⟩]
  | _ => []

/-- They are the last ones in the send queue, as far as they are still there. -/
def Client.Posted (k : Client) : Prop := k.sq <:+ k.awaited ∨ k.awaited <:+ k.sq

/-- What a stretch of a call leaves behind: it has returned, it has torn
everything down, it waits for the response to the request it sent, or for the
RDMA read it posted. -/
inductive Stage (k : Client) : Client → Prop
  | returned (k' : Client) (ws : List Wr) (pc : k'.pc = .idle) (seq : k'.seq = k.seq)
      (sem : k'.sem = k.sem) (cq : k'.cq = k.cq) (sq : k'.sq = k.sq ++ ws)
      (hws : ∀ w ∈ ws, w.op.opcode = .rdmaWrite) : Stage k k'
  | destroyed (k' : Client) (pc : k'.pc = .finished) (seq : k'.seq = k.seq) (sem : k'.sem = [])
      (cq : k'.cq = []) (sq : k'.sq = []) : Stage k k'
  | sent (k' : Client) (ws : List Wr) (m : Request) (b : Cmd) (pc : k'.pc = .waiting (.rsp m.kind))
      (seq : k'.seq = k.seq) (sem : k'.sem = k.sem) (cq : k'.cq = k.cq)
      (sq : k'.sq = k.sq ++ (ws ++ [⟨.send, k.seq⟩])) (hws : ∀ w ∈ ws, w.op.opcode = .rdmaWrite)
      (req : k'.req = ⟨m.pack b, k.seq⟩) (last : k'.awaited <:+ k'.sq)
      (result : k'.result = k.result) : Stage k k'
  | reading (k' : Client) (a : RdmaArgs) (pc : k'.pc = .waiting .read) (seq : k'.seq = k.seq)
      (sem : k'.sem = k.sem) (cq : k'.cq = k.cq) (sq : k'.sq = k.sq ++ [⟨.rdmaRead a, k.seq⟩])
      (last : k'.awaited <:+ k'.sq) (result : k'.result = k.result) : Stage k k'

section Stretches

variable (o : ClientOutcomes) {k : Client}

theorem rpmemUnmapDestroyMr_stage {ret : CInt} (h : rpmemUnmapDestroyMr ret k = some k') :
    Stage k k' := by
  obtain ⟨id, -, rfl⟩ := Option.map_eq_some_iff.1 h
  exact .returned _ [] rfl rfl rfl rfl (List.append_nil _).symm (by simp)

/-- **A call, from its entry to its first wait.** -/
theorem Client.Called.stage {api : Api} (h : k.Called o api k') : Stage k.start k' := by
  have hnil : ∀ l : List Wr, l = l ++ [] := fun l => (List.append_nil l).symm
  cases h with
  | opens =>
      exact .sent _ [] .openReq _ rfl rfl rfl rfl rfl (by simp) rfl (List.suffix_append _ _) rfl
  | closes =>
      exact .sent _ [] .closeReq _ rfl rfl rfl rfl rfl (by simp) rfl (List.suffix_append _ _) rfl
  | maps len =>
      exact .sent _ [] (.mapReq _) _ rfl rfl rfl rfl rfl (by simp) rfl (List.suffix_append _ _) rfl
  | unmaps =>
      exact .sent _ [] (.unmapReq _ _) _ rfl rfl rfl rfl rfl (by simp) rfl (List.suffix_append _ _) rfl
  | commits id hmr =>
      refine .sent _ [_] (.commitReq _ _) _ rfl rfl rfl rfl (List.append_assoc _ _ _)
        (by simp [WrOp.opcode]) rfl ?_ rfl
      simp [Client.awaited, Client.committing, Client.post, Client.pack, Client.postRecv,
        Client.start, Client.rdmaArgs, hmr]
  | openFails | closeFails => exact .destroyed _ rfl rfl rfl rfl rfl
  | mapFails | mapAllocates | unmapFails => exact .returned _ [] rfl rfl rfl rfl (hnil _) (by simp)
  | commitFails _ _ _ _ ws hsq hws => exact .returned _ ws rfl rfl rfl rfl hsq hws

theorem Client.call_stage {api : Api} (h : k.call o api = some k') :
    (k.pc = .idle ∨ k.pc = .connected) ∧ Stage k.start k' :=
  (Client.call_called h).imp_right (Client.Called.stage o)

/-- **A call, from one wait to the next.** -/
theorem Client.resume_stage {w : Wait} (h : k.resume o w = some k') : Stage k k' := by
  have hnil : ∀ l : List Wr, l = l ++ [] := fun l => (List.append_nil l).symm
  match w with
  | .rsp .openReq =>
      obtain rfl := Option.some.inj h
      unfold rpmemOpenAfterRsp
      simp only
      split_ifs
      · exact .returned _ [] rfl rfl rfl rfl (hnil _) (by simp)
      · exact .destroyed _ rfl rfl rfl rfl rfl
  | .rsp .closeReq =>
      obtain rfl := Option.some.inj h
      exact .destroyed _ rfl rfl rfl rfl rfl
  | .rsp .mapReq =>
      obtain ⟨id, hmr, rfl⟩ := Option.map_eq_some_iff.1 h
      simp only
      split_ifs
      · refine .reading _ _ rfl rfl rfl rfl rfl ?_ rfl
        simp [Client.awaited, Client.post, Client.rdmaArgs, hmr]
      · exact .returned _ [] rfl rfl rfl rfl (hnil _) (by simp)
      · exact .returned _ [] rfl rfl rfl rfl (hnil _) (by simp)
  | .rsp .unmapReq => exact rpmemUnmapDestroyMr_stage h
  | .rsp .commitReq =>
      obtain rfl := Option.some.inj h
      exact .returned _ [] rfl rfl rfl rfl (hnil _) (by simp)
  | .read =>
      obtain rfl := Option.some.inj h
      exact .returned _ [] rfl rfl rfl rfl (hnil _) (by simp)

end Stretches

/-! ### The end of the send queue -/

theorem Client.posted_of_awaited (h : k.awaited = []) : k.Posted := by
  rw [Client.Posted, h]
  exact .inr List.nil_suffix

theorem Stage.seq (h : Stage k k') : k'.seq = k.seq := by
  cases h with
  | returned _ _ seq | destroyed _ seq | sent _ _ _ _ seq | reading _ _ seq => exact seq

theorem Stage.posted (h : Stage k k') : k'.Posted := by
  cases h with
  | returned _ pc => exact Client.posted_of_awaited (by rw [Client.awaited, pc])
  | destroyed pc => exact Client.posted_of_awaited (by rw [Client.awaited, pc])
  | sent _ _ _ _ _ _ _ _ _ _ last | reading _ _ _ _ _ _ last => exact .inr last

/-- Work requests leave the send queue from the front. -/
theorem Client.Posted.pop (h : k.Posted) {wr : Wr} {sq : List Wr} (hsq : k.sq = wr :: sq)
    (hk' : k'.awaited = k.awaited) (hsq' : k'.sq = sq) : k'.Posted := by
  rw [Client.Posted, hk', hsq']
  rw [Client.Posted, hsq] at h
  rcases h with h | h
  · exact .inl ((List.suffix_cons wr sq).trans h)
  · rcases List.suffix_cons_iff.1 h with h | h
    · rw [h]
      exact .inl (List.suffix_cons wr sq)
    · exact .inr h

theorem Client.awaited_congr (hpc : k'.pc = k.pc) (hseq : k'.seq = k.seq) (hmr : k'.mr = k.mr)
    (hrkey : k'.rkey = k.rkey) (haddr : k'.remoteAddr = k.remoteAddr)
    (hbuf : k'.rmrAddr = k.rmrAddr) (hlen : k'.rmrLen = k.rmrLen) : k'.awaited = k.awaited := by
  simp only [Client.awaited, Client.rdmaArgs, hpc, hseq, hmr, hrkey, haddr, hbuf, hlen]

/-- A call that waits for a response posted its request last. -/
theorem Client.awaited_rsp {q : ReqKind} (hpc : k.pc = .waiting (.rsp q)) :
    ∃ ws, k.awaited = ws ++ [⟨.send, k.seq⟩] ∧ ∀ w ∈ ws, w.op.opcode = .rdmaWrite := by
  rw [Client.awaited, hpc]
  cases q with
  | commitReq => exact ⟨[_], rfl, by simp [WrOp.opcode]⟩
  | openReq | closeReq | mapReq | unmapReq => exact ⟨[], rfl, by simp⟩

/-- Without its request, the send queue of a call that waits for a response is empty. -/
theorem Client.Posted.sq_eq_nil (h : k.Posted) {q : ReqKind} (hpc : k.pc = .waiting (.rsp q))
    (hs : k.sq.countP Wr.isSend = 0) : k.sq = [] := by
  obtain ⟨ws, haw, -⟩ := Client.awaited_rsp hpc
  have hnot : (⟨.send, k.seq⟩ : Wr) ∉ k.sq := fun hm =>
    List.countP_eq_zero.1 hs _ hm (by simp [Wr.isSend, WrOp.opcode])
  rw [Client.Posted, haw] at h
  rcases h with h | h
  · rcases List.suffix_concat_iff.1 h with h | ⟨l, h, -⟩
    · exact h
    · exact absurd (by rw [h]; simp) hnot
  · exact absurd (h.subset (by simp)) hnot

/-! ### Each action keeps the invariant of its connection -/

theorem countP_eq_zero_of_writes {ws : List Wr} (h : ∀ w ∈ ws, w.op.opcode = .rdmaWrite) :
    ws.countP Wr.isSend = 0 ∧ ws.countP Wr.isRead = 0 := by
  constructor <;> rw [List.countP_eq_zero] <;> intro w hw
  · simp [Wr.isSend, h w hw]
  · simp [Wr.isRead, h w hw]

/-- With nothing under way and no call waiting for a response, the invariant holds. -/
theorem Quiet.connInv (h : Quiet k u) (hpc : ∀ q, k.pc ≠ .waiting (.rsp q)) : ConnInv k u := by
  have harr : k.arrived = 0 := by simp [Client.arrived, h.rsps, h.sem]
  have hfet : k.fetched = 0 := by simp [Client.fetched, h.fetches, h.sem]
  have hp := h.pending
  constructor
  · simp [requestsUnderWay, responsesUnderWay, h.sends, h.pending, h.answers, harr]
  · simp [Client.readsUnderWay, h.reads, hfet]
  · exact fun q hq => absurd hq (hpc q)
  · omega
  · exact fun q hq => absurd hq (hpc q)
  · omega
  · exact fun w hw hr => absurd hr (List.countP_eq_zero.1 h.reads w hw)
  · exact fun w hw hor => absurd hor (not_or.2
      ⟨List.countP_eq_zero.1 h.rsps w hw, List.countP_eq_zero.1 h.fetches w hw⟩)
  · simp [h.sem]

/-- A stretch of a call that starts with nothing under way leaves at most the
message it waits for. -/
theorem Quiet.stage (h : Quiet k u) (hs : Stage k k') : ConnInv k' u := by
  have hnoread : ∀ w ∈ k.sq, w.isRead = true → w.seq = k'.seq := fun w hw hr =>
    absurd hr (List.countP_eq_zero.1 h.reads w hw)
  have hnowc : ∀ w ∈ k.cq, w.isRsp = true ∨ w.isRead = true → w.seq = k'.seq := fun w hw hor =>
    absurd hor (not_or.2 ⟨List.countP_eq_zero.1 h.rsps w hw, List.countP_eq_zero.1 h.fetches w hw⟩)
  have hp := h.pending
  cases hs with
  | returned ws pc seq sem cq sq hws =>
      obtain ⟨hw1, hw2⟩ := countP_eq_zero_of_writes hws
      refine Quiet.connInv ⟨?_, ?_, ?_, ?_, ?_, h.pending, h.answers⟩ (by simp [pc])
      · rw [sq, List.countP_append, h.sends, hw1]
      · rw [sq, List.countP_append, h.reads, hw2]
      · rw [cq, h.rsps]
      · rw [cq, h.fetches]
      · rw [sem, h.sem]
  | destroyed pc _ sem cq sq =>
      exact Quiet.connInv ⟨by rw [sq]; rfl, by rw [sq]; rfl, by rw [cq]; rfl, by rw [cq]; rfl, sem,
        h.pending, h.answers⟩ (by simp [pc])
  | sent ws m b pc seq sem cq sq hws req =>
      obtain ⟨hw1, hw2⟩ := countP_eq_zero_of_writes hws
      have hzero : k'.arrived = 0 ∧ k'.fetched = 0 := by
        simp [Client.arrived, Client.fetched, cq, sem, h.sem, h.rsps, h.fetches]
      constructor
      · simp [requestsUnderWay, responsesUnderWay, sq, h.sends, hw1, hp, h.answers, hzero.1, pc,
          Pc.messages, Wr.isSend, WrOp.opcode]
      · simp [Client.readsUnderWay, sq, h.reads, hw2, hzero.2, Wr.isRead, WrOp.opcode]
      · intro q hq
        rw [pc] at hq
        cases hq
        rw [req, seq]
        exact ⟨requestKind_pack m b, rfl⟩
      · omega
      · intro q _ hpos
        simp only [responsesUnderWay, hzero.1, h.answers] at hpos
        omega
      · omega
      · intro w hw hr
        rw [sq] at hw
        rcases List.mem_append.1 hw with hw | hw
        · exact hnoread w hw hr
        · rcases List.mem_append.1 hw with hw | hw
          · simp [Wr.isRead, hws w hw] at hr
          · rw [List.mem_singleton.1 hw, seq]
      · rw [cq]
        exact hnowc
      · simp [sem, h.sem]
  | reading a pc seq sem cq sq =>
      have hzero : k'.arrived = 0 ∧ k'.fetched = 0 := by
        simp [Client.arrived, Client.fetched, cq, sem, h.sem, h.rsps, h.fetches]
      constructor
      · simp [requestsUnderWay, responsesUnderWay, sq, h.sends, hp, h.answers, hzero.1, Wr.isSend,
          WrOp.opcode]
      · simp [Client.readsUnderWay, sq, h.reads, hzero.2, pc, Pc.reads, Wr.isRead, WrOp.opcode]
      · simp [pc]
      · omega
      · simp [pc]
      · omega
      · intro w hw hr
        rw [sq] at hw
        rcases List.mem_append.1 hw with hw | hw
        · exact hnoread w hw hr
        · rw [List.mem_singleton.1 hw, seq]
      · rw [cq]
        exact hnowc
      · simp [sem, h.sem]

/-- **The token a blocked call takes is the one it waits for**, and nothing else
is under way. -/
theorem ConnInv.token (h : ConnInv k u) {w : Wait} {t : Token} {sem : List Token}
    (hpc : k.pc = .waiting w) (hsem : k.sem = t :: sem) :
    Quiet { k with sem := sem } u ∧
      (match w with
      | .rsp _ => t.kind = .recv
      | .read => t.kind = .rdmaRead) := by
  have hmsg := h.messages
  have hrd := h.reads
  have hlen := length_sem k.sem
  rw [hsem, List.countP_cons, List.countP_cons, List.length_cons] at hlen
  simp only [requestsUnderWay, responsesUnderWay, Client.readsUnderWay, Client.arrived,
    Client.fetched, hpc, hsem, List.countP_cons] at hmsg hrd
  obtain ⟨kind, n⟩ := t
  cases w with
  | rsp q =>
      simp only [Pc.messages, Pc.reads] at hmsg hrd
      cases kind with
      | recv =>
          simp only [Token.isRsp, Token.isRead, decide_true, reduceCtorEq, decide_false,
            if_true, Bool.false_eq_true, if_false] at hmsg hrd hlen
          have hsum : k.sq.countP Wr.isSend + k.sq.countP Wr.isRead + k.cq.countP Wc.isRsp +
              k.cq.countP Wc.isRead + sem.length + u.pending + u.sends = 0 := by omega
          exact ⟨.of_sum hsum, rfl⟩
      | rdmaRead => simp [Token.isRead] at hrd
  | read =>
      simp only [Pc.messages, Pc.reads] at hmsg hrd
      cases kind with
      | recv => simp [Token.isRsp] at hmsg
      | rdmaRead =>
          simp only [Token.isRsp, Token.isRead, decide_true, reduceCtorEq, decide_false,
            if_true, Bool.false_eq_true, if_false] at hmsg hrd hlen
          have hsum : k.sq.countP Wr.isSend + k.sq.countP Wr.isRead + k.cq.countP Wc.isRsp +
              k.cq.countP Wc.isRead + sem.length + u.pending + u.sends = 0 := by omega
          exact ⟨.of_sum hsum, rfl⟩

/-- At the wake-up of a call that waits for a response, the response is there. -/
theorem ConnInv.woken_rsp (h : ConnInv k u) {q : ReqKind} {t : Token} {sem : List Token}
    (hpc : k.pc = .waiting (.rsp q)) (hsem : k.sem = t :: sem) :
    0 < responsesUnderWay k u ∧ k.rsp = u.rsp ∧ opcodeField k.rsp.bytes = q.rsp.opcode.code ∧
      k.rsp.seq = k.seq := by
  have hkind : t.kind = .recv := (h.token hpc hsem).2
  have harr : 0 < k.arrived := by
    simp only [Client.arrived, hsem, List.countP_cons, Token.isRsp, hkind, decide_true, if_true]
    omega
  have hpos : 0 < responsesUnderWay k u := Nat.lt_of_lt_of_le harr (Nat.le_add_left _ _)
  obtain ⟨hop, hseq⟩ := h.answer q hpc hpos
  rw [h.arrived harr]
  exact ⟨hpos, rfl, hop, hseq⟩

/-- At the wake-up of the second wait of `rpmem_map`, its RDMA read has succeeded. -/
theorem ConnInv.woken_read (h : ConnInv k u) {t : Token} {sem : List Token}
    (hpc : k.pc = .waiting .read) (hsem : k.sem = t :: sem) : 0 < k.fetched := by
  have hkind : t.kind = .rdmaRead := (h.token hpc hsem).2
  simp only [Client.fetched, hsem, List.countP_cons, Token.isRead, hkind, decide_true, if_true]
  omega

/-- A call keeps the invariant. -/
theorem ConnInv.call (h : ConnInv k u) {o : ClientOutcomes} {api : Api}
    (hc : k.call o api = some k') : ConnInv k' u := by
  obtain ⟨hpc, hs⟩ := Client.call_stage o hc
  have hq : Quiet k u := by
    rcases hpc with hp | hp <;> exact h.quiet (by rw [hp]; rfl) (by rw [hp]; rfl)
  have hq' : Quiet k.start u :=
    ⟨hq.sends, hq.reads, hq.rsps, hq.fetches, hq.sem, hq.pending, hq.answers⟩
  exact hq'.stage hs

/-- A wake-up keeps the invariant. -/
theorem ConnInv.wake (h : ConnInv k u) {o : ClientOutcomes} (hw : k.wake o = some k') :
    ConnInv k' u := by
  obtain ⟨w, t, sem, hpc, hsem, hw⟩ := Client.wake_cases hw
  exact (h.token hpc hsem).1.stage (Client.resume_stage o hw)

section Responses

/-! A call that goes on with a response of the kind it waits for. -/

variable {o : ClientOutcomes}

theorem rpmemOpenAfterRsp_eq (h : opcodeField k.rsp.bytes = RpmemOpcode.openRsp.code) :
    rpmemOpenAfterRsp k = { k with size := wordField k.rsp.bytes }.leave (.opened true) := by
  have hun : unpackOpenRsp k.rsp.bytes k.size = (0, wordField k.rsp.bytes) := unpackWord_of_eq _ h
  rw [rpmemOpenAfterRsp, hun]
  rfl

theorem rpmemMapAfterRsp_eq (h : opcodeField k.rsp.bytes = RpmemOpcode.mapRsp.code) :
    rpmemMapAfterRsp o k = k.mr.map fun id =>
      let k := { k with rkey := wordField k.rsp.bytes, remoteAddr := addrField k.rsp.bytes }
      if o.postRdma then { k.post (.rdmaRead (k.rdmaArgs id)) with pc := .waiting .read }
      else rpmemMapDestroyMr id { k with rkey := 0, remoteAddr := 0 } := by
  rw [rpmemMapAfterRsp, unpackMapRsp_of_eq h]
  rfl

theorem rpmemUnmapAfterRsp_eq (h : opcodeField k.rsp.bytes = RpmemOpcode.unmapRsp.code) :
    rpmemUnmapAfterRsp k = rpmemUnmapDestroyMr (wordField k.rsp.bytes) k := by
  have hun : unpackUnmapRsp k.rsp.bytes 0 = (0, wordField k.rsp.bytes) := unpackWord_of_eq 0 h
  rw [rpmemUnmapAfterRsp, hun]
  rfl

theorem rpmemCommitAfterRsp_eq (h : opcodeField k.rsp.bytes = RpmemOpcode.commitRsp.code) :
    rpmemCommitAfterRsp k = k.leave (.committed (wordField k.rsp.bytes)) := by
  have hun : unpackCommitRsp k.rsp.bytes 0 = (0, wordField k.rsp.bytes) := unpackWord_of_eq 0 h
  rw [rpmemCommitAfterRsp, hun]
  rfl

end Responses

/-- The response the call waits for is there, and nothing else is under way. -/
structure Answered (k : Client) (u : ServerUnit) : Prop where
  answered : 0 < responsesUnderWay k u
  rsp : k.rsp = u.rsp
  quiet : Quiet { k with sem := [] } u

/-- No RDMA read of the call has succeeded yet. -/
theorem Answered.fetched_eq_zero (h : Answered k u) : ({ k with sem := [] } : Client).fetched = 0 := by
  have hz : k.cq.countP Wc.isRead = 0 := h.quiet.fetches
  simp [Client.fetched, hz]

/-- Where a call is when it waits again or returns, once the response it waited for or its
RDMA read is there. -/
inductive Woken (o : ClientOutcomes) (k : Client) (u : ServerUnit) : Client → Prop
  | opened (pc : k.pc = .waiting (.rsp .openReq)) :
      Woken o k u ({ k with sem := [], size := wordField k.rsp.bytes }.leave (.opened true))
  | closed (pc : k.pc = .waiting (.rsp .closeReq)) :
      Woken o k u ({ k with sem := [] }.destroy .closed)
  | reads (id : ℕ) (pc : k.pc = .waiting (.rsp .mapReq)) (h : Answered k u) (mr : k.mr = some id) :
      Woken o k u
        { ({ k with
            sem := [], rkey := wordField k.rsp.bytes, remoteAddr := addrField k.rsp.bytes }.post
            (.rdmaRead ({ k with
              rkey := wordField k.rsp.bytes, remoteAddr := addrField k.rsp.bytes }.rdmaArgs id))) with
          pc := .waiting .read }
  | mapFails (id : ℕ) (pc : k.pc = .waiting (.rsp .mapReq)) (failed : o.postRdma = false) :
      Woken o k u (rpmemMapDestroyMr id { k with sem := [], rkey := 0, remoteAddr := 0 })
  | unmapped (id : ℕ) (pc : k.pc = .waiting (.rsp .unmapReq)) (h : Answered k u) :
      Woken o k u
        ({ k with
          sem := [], live := k.live.erase id, rkey := 0, remoteAddr := 0, rmrLen := 0 }.leave
          (.unmapped (wordField k.rsp.bytes)))
  | committed (pc : k.pc = .waiting (.rsp .commitReq)) (h : Answered k u) :
      Woken o k u ({ k with sem := [] }.leave (.committed (wordField k.rsp.bytes)))
  | fetched (pc : k.pc = .waiting .read) (there : 0 < k.fetched) :
      Woken o k u (rpmemMapAfterRead { k with sem := [] })

/-- **A wake-up, to the next wait or the return of the call.** -/
theorem ConnInv.woken (h : ConnInv k u) {o : ClientOutcomes} (hw : k.wake o = some k') :
    Woken o k u k' := by
  obtain ⟨w, t, sem, hpc, hsem, hw⟩ := Client.wake_cases hw
  have hquiet := (h.token hpc hsem).1
  obtain rfl : sem = [] := hquiet.sem
  match w with
  | .read =>
      obtain rfl := Option.some.inj hw
      exact .fetched hpc (h.woken_read hpc hsem)
  | .rsp .closeReq =>
      obtain rfl := Option.some.inj hw
      exact .closed hpc
  | .rsp .openReq =>
      obtain ⟨-, -, hop, -⟩ := h.woken_rsp hpc hsem
      obtain rfl := Option.some.inj hw
      rw [rpmemOpenAfterRsp_eq (k := { k with sem := [] }) hop]
      exact .opened hpc
  | .rsp .mapReq =>
      obtain ⟨hpos, hrsp, hop, -⟩ := h.woken_rsp hpc hsem
      rw [Client.resume, rpmemMapAfterRsp_eq (k := { k with sem := [] }) hop] at hw
      obtain ⟨id, hmr, rfl⟩ := Option.map_eq_some_iff.1 hw
      simp only
      split_ifs with hrdma
      · exact .reads id hpc ⟨hpos, hrsp, hquiet⟩ hmr
      · exact .mapFails id hpc (Bool.eq_false_iff.2 hrdma)
  | .rsp .unmapReq =>
      obtain ⟨hpos, hrsp, hop, -⟩ := h.woken_rsp hpc hsem
      rw [Client.resume, rpmemUnmapAfterRsp_eq (k := { k with sem := [] }) hop] at hw
      obtain ⟨id, -, rfl⟩ := Option.map_eq_some_iff.1 hw
      exact .unmapped id hpc ⟨hpos, hrsp, hquiet⟩
  | .rsp .commitReq =>
      obtain ⟨hpos, hrsp, hop, -⟩ := h.woken_rsp hpc hsem
      obtain rfl := Option.some.inj hw
      rw [rpmemCommitAfterRsp_eq (k := { k with sem := [] }) hop]
      exact .committed hpc ⟨hpos, hrsp, hquiet⟩

/-- A completion that no call waits for changes nothing. -/
theorem ConnInv.note (h : ConnInv k u) {wc : Wc} (hrsp : wc.isRsp = false)
    (hread : wc.isRead = false) (hcq : k'.cq = k.cq ++ [wc]) (hpc : k'.pc = k.pc)
    (hseq : k'.seq = k.seq) (hreq : k'.req = k.req) (hr : k'.rsp = k.rsp) (hsem : k'.sem = k.sem)
    (hsq : k'.sq = k.sq) : ConnInv k' u := by
  have harr : k'.arrived = k.arrived := by simp [Client.arrived, hcq, hsem, hrsp]
  have hfet : k'.fetched = k.fetched := by simp [Client.fetched, hcq, hsem, hread]
  constructor
  · simpa only [requestsUnderWay, responsesUnderWay, harr, hsq, hpc] using h.messages
  · simpa only [Client.readsUnderWay, hfet, hsq, hpc] using h.reads
  · simpa only [hpc, hreq, hseq] using h.request
  · simpa only [hreq] using h.pending
  · simpa only [responsesUnderWay, harr, hpc, hseq] using h.answer
  · simpa only [harr, hr] using h.arrived
  · simpa only [hsq, hseq] using h.posted
  · intro w hw hor
    rw [hcq] at hw
    rw [hseq]
    rcases List.mem_append.1 hw with hw | hw
    · exact h.completed w hw hor
    · rw [List.mem_singleton.1 hw, hrsp, hread] at hor
      simp at hor
  · simpa only [hsem, hseq] using h.tokens

/-- A work request leaves the send queue. -/
theorem ConnInv.pop (h : ConnInv k u) {wr : Wr} {sq : List Wr} (hsq : k.sq = wr :: sq) :
    ConnInv { k with sq := sq } u := by
  have hmsg := h.messages
  have hrd := h.reads
  simp only [requestsUnderWay, Client.readsUnderWay, hsq, List.countP_cons] at hmsg hrd
  refine ⟨?_, ?_, h.request, h.pending, h.answer, h.arrived, ?_, h.completed, h.tokens⟩
  · exact le_trans (by simp only [requestsUnderWay, responsesUnderWay, Client.arrived]; omega) hmsg
  · exact le_trans (by simp only [Client.readsUnderWay, Client.fetched]; omega) hrd
  · exact fun w hw => h.posted w (hsq ▸ List.mem_cons_of_mem _ hw)

/-- A work request that fails, is flushed, or was an RDMA write leaves nothing
behind. -/
theorem ConnInv.complete (h : ConnInv k u) {wr : Wr} {sq : List Wr} (hsq : k.sq = wr :: sq)
    (status : WcStatus) (hst : status = .success → wr.op.opcode = .rdmaWrite) :
    ConnInv (k.complete wr sq status) u := by
  have hnone : (⟨wr.op.opcode, status, wr.seq⟩ : Wc).isRsp = false ∧
      (⟨wr.op.opcode, status, wr.seq⟩ : Wc).isRead = false := by
    cases status with
    | success => simp [Wc.isRsp, Wc.isRead, hst rfl]
    | wrFlushErr | otherErr => simp [Wc.isRsp, Wc.isRead]
  exact (h.pop hsq).note hnone.1 hnone.2 rfl rfl rfl rfl rfl rfl rfl

/-- A request reaches the server. -/
theorem ConnInv.send (h : ConnInv k u) {wr : Wr} {sq : List Wr} (hsq : k.sq = wr :: sq)
    (hop : wr.op = .send) (u' : ServerUnit) (hreq : u'.req = k.req) (hrsp : u'.rsp = u.rsp)
    (hpend : u'.pending = u.pending + 1) (hsends : u'.sends = u.sends) :
    ConnInv (k.complete wr sq .success) u' := by
  have hwr : wr.isSend = true := by simp [Wr.isSend, hop, WrOp.opcode]
  have hmsg := h.messages
  simp only [requestsUnderWay, responsesUnderWay, hsq, List.countP_cons, hwr, if_true] at hmsg
  have hpop := h.pop hsq
  have hrecv : ConnInv { k with sq := sq } u' := by
    refine ⟨?_, hpop.reads, h.request, fun _ => hreq, ?_, ?_, hpop.posted, h.completed, h.tokens⟩
    · refine le_trans ?_ hmsg
      simp only [requestsUnderWay, responsesUnderWay, Client.arrived, hpend, hsends]
      omega
    · intro q hq hpos
      rw [responsesUnderWay, hsends] at hpos
      rw [hrsp]
      exact h.answer q hq hpos
    · rw [hrsp]
      exact h.arrived
  exact hrecv.note (by simp [Wc.isRsp, hop, WrOp.opcode]) (by simp [Wc.isRead, hop, WrOp.opcode])
    rfl rfl rfl rfl rfl rfl rfl

/-- An RDMA read succeeds. -/
theorem ConnInv.fetch (h : ConnInv k u) {wr : Wr} {sq : List Wr} (hsq : k.sq = wr :: sq)
    {a : RdmaArgs} (hop : wr.op = .rdmaRead a) (data : ℕ → UInt8) :
    ConnInv ((k.place a data).complete wr sq .success) u := by
  have hwc : (⟨wr.op.opcode, .success, wr.seq⟩ : Wc).isRsp = false ∧
      (⟨wr.op.opcode, .success, wr.seq⟩ : Wc).isRead = true := by
    simp [Wc.isRsp, Wc.isRead, hop, WrOp.opcode]
  have hwr : wr.isRead = true := by simp [Wr.isRead, hop, WrOp.opcode]
  have harr : ((k.place a data).complete wr sq .success).arrived = k.arrived := by
    simp [Client.arrived, Client.complete, Client.place, hwc.1]
  have hfet : ((k.place a data).complete wr sq .success).fetched = k.fetched + 1 := by
    simp only [Client.fetched, Client.complete, Client.place, List.countP_append,
      List.countP_singleton, hwc.2, if_true]
    omega
  have hpop := h.pop hsq
  have hrd := h.reads
  simp only [Client.readsUnderWay, hsq, List.countP_cons, hwr, if_true] at hrd
  refine ⟨?_, ?_, h.request, h.pending, ?_, ?_, hpop.posted, ?_, h.tokens⟩
  · have hmsg := hpop.messages
    rw [requestsUnderWay, responsesUnderWay] at hmsg ⊢
    rw [harr]
    exact hmsg
  · refine le_trans ?_ hrd
    simp only [Client.readsUnderWay, hfet]
    simp only [Client.complete, Client.place]
    omega
  · intro q hq hpos
    rw [responsesUnderWay, harr] at hpos
    exact h.answer q hq hpos
  · rw [harr]
    exact h.arrived
  · intro w hw hor
    rcases List.mem_append.1 hw with hw | hw
    · exact h.completed w hw hor
    · rw [List.mem_singleton.1 hw]
      exact h.posted wr (hsq ▸ List.mem_cons_self) hwr

/-- A call starts with no response under way. -/
theorem ConnInv.responses_eq_zero_of_call (h : ConnInv k u) {o : ClientOutcomes} {api : Api}
    (hc : k.call o api = some k') : responsesUnderWay k u = 0 := by
  obtain ⟨hpc, -⟩ := Client.call_stage o hc
  have hq : Quiet k u := by
    rcases hpc with hp | hp
    · exact h.quiet (by rw [hp]; rfl) (by rw [hp]; rfl)
    · exact h.quiet (by rw [hp]; rfl) (by rw [hp]; rfl)
  simp [responsesUnderWay, Client.arrived, hq.answers, hq.rsps, hq.sem]

/-- While a request or a response is under way, a call waits for a response. -/
theorem ConnInv.waiting (h : ConnInv k u)
    (hpos : 0 < requestsUnderWay k u + responsesUnderWay k u) : ∃ q, k.pc = .waiting (.rsp q) :=
  Pc.rsp_of_messages (lt_of_lt_of_le hpos h.messages)

/-- The request the server has is the one the call in progress waits for. -/
theorem ConnInv.pending_kind (h : ConnInv k u) (hp : 0 < u.pending) :
    ∃ q, k.pc = .waiting (.rsp q) ∧ requestKind u.req.bytes = some q := by
  obtain ⟨q, hq⟩ := h.waiting (by simp only [requestsUnderWay]; omega)
  exact ⟨q, hq, by rw [h.pending hp, (h.request q hq).1]⟩

/-- An RDMA read is posted in the second wait of `rpmem_map` only. -/
theorem ConnInv.reading (h : ConnInv k u) {wr : Wr} {sq : List Wr} (hsq : k.sq = wr :: sq)
    {a : RdmaArgs} (hop : wr.op = .rdmaRead a) : k.pc = .waiting .read := by
  refine Pc.read_of_reads (lt_of_lt_of_le ?_ h.reads)
  simp only [Client.readsUnderWay, hsq, List.countP_cons, Wr.isRead, hop, WrOp.opcode, decide_true,
    if_true]
  omega

/-- A response reaches the client. -/
theorem ConnInv.deliver (h : ConnInv k u) (hs : 0 < u.sends) :
    ConnInv (k.receive u.rsp) { u with sends := u.sends - 1 } := by
  have harr : (k.receive u.rsp).arrived = k.arrived + 1 := by
    simp only [Client.arrived, Client.receive, List.countP_append, List.countP_singleton,
      Wc.isRsp, and_self, decide_true, if_true]
    omega
  have hfet : (k.receive u.rsp).fetched = k.fetched := by
    simp [Client.fetched, Client.receive, Wc.isRead]
  have hmsg := h.messages
  have hrd := h.reads
  obtain ⟨q, hq⟩ := h.waiting (by simp only [responsesUnderWay]; omega)
  have hans := h.answer q hq (by simp only [responsesUnderWay]; omega)
  constructor
  · simp only [requestsUnderWay, responsesUnderWay, harr] at hmsg ⊢
    simp only [Client.receive]
    omega
  · simp only [Client.readsUnderWay, hfet] at hrd ⊢
    exact hrd
  · exact h.request
  · exact h.pending
  · intro q' hq' _
    obtain rfl : q' = q := by
      have := hq.symm.trans hq'
      cases this
      rfl
    exact hans
  · exact fun _ => rfl
  · exact h.posted
  · intro w hw hor
    rcases List.mem_append.1 hw with hw | hw
    · exact h.completed w hw hor
    · rw [List.mem_singleton.1 hw]
      exact hans.2
  · exact h.tokens

/-- A response is lost. -/
theorem ConnInv.lose (h : ConnInv k u) : ConnInv k { u with sends := u.sends - 1 } := by
  have hmsg := h.messages
  constructor
  · simp only [requestsUnderWay, responsesUnderWay] at hmsg ⊢
    omega
  · exact h.reads
  · exact h.request
  · exact h.pending
  · intro q hq hpos
    refine h.answer q hq ?_
    simp only [responsesUnderWay] at hpos ⊢
    omega
  · exact h.arrived
  · exact h.posted
  · exact h.completed
  · exact h.tokens

/-- A completion that a call waits for becomes a token. -/
theorem Client.poll_counts (h : k.poll = some k') :
    k'.pc = k.pc ∧ k'.region = k.region ∧ k'.sq = k.sq ∧ k'.arrived = k.arrived ∧
      k'.fetched = k.fetched := by
  unfold Client.poll at h
  split at h
  · rename_i wc cq hcq
    obtain rfl := Option.some.inj h
    refine ⟨rfl, rfl, rfl, ?_, ?_⟩ <;> obtain ⟨opcode, status, n⟩ := wc
    · cases status <;> cases opcode <;>
        simp [Client.arrived, hcq, rpmemHandleWc, Wc.isRsp, Token.isRsp]
      omega
    · cases status <;> cases opcode <;>
        simp [Client.fetched, hcq, rpmemHandleWc, Wc.isRead, Token.isRead]
      omega
  · cases h

/-- The application writes to its own buffer, between calls. -/
theorem Client.write_cases {f : ℕ → UInt8} (h : k.write f = some k') :
    k.pc = .idle ∧ k.region = true ∧ ∃ b g, k.rmrAddr = some b ∧
      k' = { k with bufs := Function.update k.bufs b g } := by
  unfold Client.write at h
  split at h
  · rename_i b hb
    split_ifs at h with hc
    exact ⟨hc.1, hc.2, b, _, hb, (Option.some.inj h).symm⟩
  · cases h

/-- A completion becomes a token, if it is one a call waits for. -/
theorem ConnInv.poll (h : ConnInv k u) (hp : k.poll = some k') : ConnInv k' u := by
  obtain ⟨-, -, -, harr, hfet⟩ := Client.poll_counts hp
  unfold Client.poll at hp
  split at hp
  · rename_i wc cq hcq
    obtain rfl := Option.some.inj hp
    have hmsg := h.messages
    have hrd := h.reads
    constructor
    · simp only [requestsUnderWay, responsesUnderWay, harr] at hmsg ⊢
      exact hmsg
    · simp only [Client.readsUnderWay, hfet] at hrd ⊢
      exact hrd
    · exact h.request
    · exact h.pending
    · intro q hq hpos
      rw [responsesUnderWay, harr] at hpos
      exact h.answer q hq hpos
    · rw [harr]
      exact h.arrived
    · exact h.posted
    · intro w hw
      exact h.completed w (hcq ▸ List.mem_cons_of_mem _ hw)
    · have hwc := h.completed wc (hcq ▸ List.mem_cons_self)
      obtain ⟨opcode, status, n⟩ := wc
      cases status <;> cases opcode <;>
        simp_all [rpmemHandleWc, Wc.isRsp, Wc.isRead, h.tokens]
      · rintro t (ht | rfl)
        · exact h.tokens t ht
        · rfl
      · rintro t (ht | rfl)
        · exact h.tokens t ht
        · rfl
  · cases hp

/-- The server handles the request that the call waits for, and answers it. -/
theorem ConnInv.handle {s : Server} {c : ConnId} (h : ConnInv k (s.unit c))
    (hpend : 0 < (s.unit c).pending) {o : Outcomes} {m : Handled} (hm : s.handle c o = .ok m) :
    ConnInv k (m.server.unit c) := by
  have hmsg := h.messages
  obtain ⟨q, hq, hkind⟩ := h.pending_kind hpend
  have hseq := (h.request q hq).2
  rw [hq] at hmsg
  simp only [requestsUnderWay, responsesUnderWay, Pc.messages] at hmsg
  have hreq := h.pending hpend
  rcases Server.handle_unit hm with ⟨hnone, -⟩ | ⟨q', f, b, hk, hp', hr', hs', -⟩
  · rw [hkind] at hnone
    cases hnone
  obtain rfl : q = q' := Option.some.inj (hkind.symm.trans hk)
  have hsends : (m.server.unit c).sends ≤ (s.unit c).sends + 1 := by
    rw [hs']
    split_ifs <;> omega
  constructor
  · simp only [requestsUnderWay, responsesUnderWay, hp', hq, Pc.messages]
    omega
  · exact h.reads
  · exact h.request
  · omega
  · intro q' hq' _
    obtain rfl : q = q' := by
      have := hq.symm.trans hq'
      cases this
      rfl
    rw [hr', hreq]
    exact ⟨opcodeField_packRsp q.rsp f b, hseq⟩
  · omega
  · exact h.posted
  · exact h.completed
  · exact h.tokens

/-- Once the server has handled the request, none is left. -/
theorem ConnInv.requests_handled {s : Server} {c : ConnId} (h : ConnInv k (s.unit c))
    (hpend : 0 < (s.unit c).pending) {o : Outcomes} {m : Handled} (hm : s.handle c o = .ok m) :
    requestsUnderWay k (m.server.unit c) = 0 := by
  have hmsg := h.messages
  have hone := k.pc.messages_le_one
  have hp' : (m.server.unit c).pending = (s.unit c).pending - 1 := by
    rcases Server.handle_unit hm with ⟨-, hu⟩ | ⟨-, -, -, -, hp', -⟩
    · rw [hu]
    · exact hp'
  simp only [requestsUnderWay, hp'] at hmsg ⊢
  omega

/-- The invariant looks at the calls and the queues only. -/
theorem ConnInv.congr (h : ConnInv k u) (hpc : k'.pc = k.pc) (hseq : k'.seq = k.seq)
    (hreq : k'.req = k.req) (hrsp : k'.rsp = k.rsp) (hsem : k'.sem = k.sem) (hsq : k'.sq = k.sq)
    (hcq : k'.cq = k.cq) : ConnInv k' u := by
  obtain ⟨h1, h2, h3, h4, h5, h6, h7, h8, h9⟩ := h
  simp only [requestsUnderWay, responsesUnderWay, Client.readsUnderWay, Client.arrived,
    Client.fetched, ← hpc, ← hseq, ← hreq, ← hrsp, ← hsem, ← hsq, ← hcq] at h1 h2 h3 h4 h5 h6 h7 h8 h9
  exact ⟨h1, h2, h3, h4, h5, h6, h7, h8, h9⟩

/-! ### Every connection of the system, in every state it reaches -/

/-- The invariant holds on every connection. -/
def System.TokenInv (s : System) : Prop := ∀ c, ConnInv (s.clients c) (s.server.unit c)

variable {u' : ServerUnit} {s t : System} {a : Action}

/-- **An action is about one connection**: the client and the unit of every other
are as before. -/
theorem System.step_frame (h : s.Stepped a t) {d : ConnId} (hd : d ≠ a.conn) :
    t.clients d = s.clients d ∧ t.server.unit d = s.server.unit d := by
  cases h with
  | connected c accepted established =>
      change d ≠ c at hd
      cases accepted <;> simp [rpmemConnectRequestHandler, hd]
  | called c | woken c | written c | fetched c | failed c | flushed c | recvFlushed c | polled c
  | disconnected c | cmHandled c | stored c =>
      change d ≠ c at hd
      simp [System.setClient, hd]
  | sent c =>
      change d ≠ c at hd
      simp [System.setClient, Server.receive, hd]
  | handled c o m hc hp hm => exact ⟨rfl, Server.handle_unit_of_ne hm hd⟩
  | delivered c =>
      change d ≠ c at hd
      simp [System.setClient, Server.sent, hd]
  | lost c =>
      change d ≠ c at hd
      simp [Server.sent, hd]

/-- The actions of the adapter and of the library's threads: a message, a completion
or an event moves, and no call and no handler runs. -/
def Action.moves : Action → Bool
  | .exec _ _ | .flushRecv _ | .poll _ | .deliver _ _ | .disconnect _ | .cmEvent _ => true
  | _ => false

/-- What such an action leaves alone on its own connection. -/
structure Moved (k k' : Client) (u u' : ServerUnit) : Prop where
  pc : k'.pc = k.pc
  seq : k'.seq = k.seq
  req : k'.req = k.req
  region : k'.region = k.region
  result : k'.result = k.result
  rmrAddr : k'.rmrAddr = k.rmrAddr
  rmrLen : k'.rmrLen = k.rmrLen
  mr : k'.mr = k.mr
  rkey : k'.rkey = k.rkey
  remoteAddr : k'.remoteAddr = k.remoteAddr
  qpErr : k.qpErr = true → k'.qpErr = true
  sq : k'.sq = k.sq ∨ ∃ wr, k.sq = wr :: k'.sq
  bufs : k'.bufs = k.bufs
  res : u'.res = u.res
  rsp : u'.rsp = u.rsp
  requests : requestsUnderWay k' u' ≤ requestsUnderWay k u
  responses : responsesUnderWay k' u' ≤ responsesUnderWay k u
  fetched : k'.fetched ≤ k.fetched
  recvs : u'.recvs + u'.pending = u.recvs + u.pending

theorem Moved.of_eq (h : u' = u) : Moved k k u u' := by
  subst h
  exact ⟨rfl, rfl, rfl, rfl, rfl, rfl, rfl, rfl, rfl, rfl, id, .inl rfl, rfl, rfl, rfl, le_rfl,
    le_rfl, le_rfl, rfl⟩

/-- A work request that is done, RDMA reads that succeeded apart. -/
theorem Moved.complete {wr : Wr} {sq : List Wr} (hsq : k.sq = wr :: sq) (status : WcStatus)
    (hst : wr.op.opcode = .rdmaRead → status ≠ .success) :
    Moved k (k.complete wr sq status) u u := by
  have hne : wr.op.opcode ≠ .recv := by
    obtain ⟨op, n⟩ := wr
    cases op <;> simp [WrOp.opcode]
  refine ⟨rfl, rfl, rfl, rfl, rfl, rfl, rfl, rfl, rfl, rfl, id, .inr ⟨wr, hsq⟩, rfl, rfl, rfl,
    ?_, ?_, ?_, rfl⟩
  · simp only [requestsUnderWay, Client.complete, hsq, List.countP_cons]
    omega
  · simp [responsesUnderWay, Client.arrived, Client.complete, Wc.isRsp, hne]
  · have hread : (⟨wr.op.opcode, status, wr.seq⟩ : Wc).isRead = false := by
      simpa [Wc.isRead] using hst
    simp [Client.fetched, Client.complete, hread]

/-- **What moving a message does to its own connection**: an RDMA read succeeds, or
nothing comes up that was not under way before, and what the call in progress
works with stays. -/
theorem System.Stepped.moved (h : s.Stepped a t) (ha : a.moves = true) :
    Moved (s.clients a.conn) (t.clients a.conn) (s.server.unit a.conn) (t.server.unit a.conn) ∨
      ∃ wr sq ra data, (s.clients a.conn).sq = wr :: sq ∧ wr.op = .rdmaRead ra ∧
        (s.clients a.conn).CanUse ra ∧
        s.server.host.rdmaRead a.conn ra.rkey ra.remoteAddr ra.len.toNat = some data ∧
        a = .exec a.conn true ∧
        t = s.setClient a.conn (((s.clients a.conn).place ra data).complete wr sq .success) := by
  cases h with
  | connected | called | woken | written | handled => cases ha
  | fetched c wr sq ra data hsq _ hop huse hread =>
      exact .inr ⟨wr, sq, ra, data, hsq, hop, huse, hread, rfl, rfl⟩
  | sent c wr sq hsq _ hop _ hr =>
      left
      simp only [System.setClient, Action.conn, Function.update_self]
      have hm : Moved (s.clients c) ((s.clients c).complete wr sq .success) (s.server.unit c)
          (s.server.unit c) := .complete hsq .success (by rw [hop]; simp [WrOp.opcode])
      refine { hm with res := ?_, rsp := ?_, requests := ?_, responses := ?_, recvs := ?_ }
      · simp [Server.receive]
      · simp [Server.receive]
      · simp only [requestsUnderWay, hsq, List.countP_cons, Client.complete, Server.receive,
          Server.setUnit_unit, Function.update_self, Wr.isSend, hop, WrOp.opcode, decide_true,
          if_true]
        omega
      · simpa [responsesUnderWay, Server.receive] using hm.responses
      · simp only [Server.receive, Server.setUnit_unit, Function.update_self]
        omega
  | stored c wr sq ra host hsq _ hop =>
      left
      simp only [System.setClient, Action.conn, Function.update_self]
      exact .complete hsq .success (by rw [hop]; simp [WrOp.opcode])
  | failed c wr sq hsq =>
      left
      simp only [System.setClient, Action.conn, Function.update_self]
      have hm : Moved (s.clients c) ((s.clients c).complete wr sq .otherErr) (s.server.unit c)
          (s.server.unit c) := .complete hsq .otherErr (by simp)
      exact { hm with qpErr := fun _ => rfl }
  | flushed c wr sq hsq =>
      left
      simp only [System.setClient, Action.conn, Function.update_self]
      exact .complete hsq .wrFlushErr (by simp)
  | recvFlushed c =>
      left
      simp only [System.setClient, Action.conn, Function.update_self]
      refine ⟨rfl, rfl, rfl, rfl, rfl, rfl, rfl, rfl, rfl, rfl, id, .inl rfl, rfl, rfl, rfl,
        le_rfl, le_of_eq ?_, le_of_eq ?_, rfl⟩
      · simp [responsesUnderWay, Client.arrived, Wc.isRsp]
      · simp [Client.fetched, Wc.isRead]
  | polled c k hk =>
      left
      simp only [System.setClient, Action.conn, Function.update_self]
      obtain ⟨-, -, -, harr, hfet⟩ := Client.poll_counts hk
      unfold Client.poll at hk
      split at hk
      · obtain rfl := Option.some.inj hk
        refine ⟨rfl, rfl, rfl, rfl, rfl, rfl, rfl, rfl, rfl, rfl, id, .inl rfl, rfl, rfl, rfl,
          le_rfl, le_of_eq ?_, hfet.le, rfl⟩
        rw [responsesUnderWay, harr]
        rfl
      · cases hk
  | delivered c hs =>
      left
      simp only [System.setClient, Action.conn, Function.update_self]
      refine ⟨rfl, rfl, rfl, rfl, rfl, rfl, rfl, rfl, rfl, rfl, id, .inl rfl, rfl, ?_, ?_, ?_,
        ?_, le_of_eq ?_, ?_⟩
      · simp [Server.sent]
      · simp [Server.sent]
      · simp [requestsUnderWay, Server.sent, Client.receive]
      · simp [responsesUnderWay, Client.arrived, Server.sent, Client.receive, Wc.isRsp]
        omega
      · simp [Client.fetched, Client.receive, Wc.isRead]
      · simp [Server.sent]
  | lost c hs =>
      left
      refine ⟨rfl, rfl, rfl, rfl, rfl, rfl, rfl, rfl, rfl, rfl, id, .inl rfl, rfl, ?_, ?_, ?_, ?_,
        le_rfl, ?_⟩ <;> simp [Server.sent, requestsUnderWay, responsesUnderWay, Action.conn]
  | disconnected c =>
      left
      simp only [System.setClient, Action.conn, Function.update_self]
      exact ⟨rfl, rfl, rfl, rfl, rfl, rfl, rfl, rfl, rfl, rfl, fun _ => rfl, .inl rfl, rfl,
        rfl, rfl, le_rfl, le_rfl, le_rfl, rfl⟩
  | cmHandled c =>
      left
      simp only [System.setClient, Action.conn, Function.update_self]
      exact ⟨rfl, rfl, rfl, rfl, rfl, rfl, rfl, rfl, rfl, rfl, id, .inl rfl, rfl,
        rfl, rfl, le_rfl, le_rfl, le_rfl, rfl⟩

theorem Moved.awaited (h : Moved k k' u u') : k'.awaited = k.awaited :=
  Client.awaited_congr h.pc h.seq h.mr h.rkey h.remoteAddr h.rmrAddr h.rmrLen

/-- The RDMA read in a send queue is the one of the `rpmem_map` in progress, and last. -/
theorem Client.Posted.read (h : k.Posted) (hi : ConnInv k u) {wr : Wr} {sq : List Wr}
    (hsq : k.sq = wr :: sq) {ra : RdmaArgs} (hop : wr.op = .rdmaRead ra) :
    ra = k.rdmaArgs (k.mr.getD 0) ∧ sq = [] := by
  have hpc := hi.reading hsq hop
  have hwr : wr.isRead = true := by simp [Wr.isRead, hop, WrOp.opcode]
  have hrest : sq.countP Wr.isRead = 0 := by
    have hrd := hi.reads
    simp only [hpc, Pc.reads, Client.readsUnderWay, hsq, List.countP_cons, hwr, if_true] at hrd
    omega
  have haw : k.awaited = [⟨.rdmaRead (k.rdmaArgs (k.mr.getD 0)), k.seq⟩] := by
    rw [Client.awaited, hpc]
  have hone : wr :: sq = k.awaited := by
    rw [Client.Posted, hsq, haw] at h
    rw [haw]
    rcases h with h | h
    · rcases List.suffix_cons_iff.1 h with h | h
      · exact h
      · exact absurd (List.suffix_nil.1 h) (List.cons_ne_nil _ _)
    · rcases List.suffix_cons_iff.1 h with h | h
      · exact h.symm
      · exact absurd (by simp [Wr.isRead, WrOp.opcode])
          (List.countP_eq_zero.1 hrest _ (h.subset List.mem_cons_self))
  rw [haw] at hone
  obtain ⟨rfl, rfl⟩ := List.cons.inj hone
  exact ⟨(WrOp.rdmaRead.inj hop).symm, rfl⟩

/-- Every action keeps what the calls posted last at the end of the send queues. -/
theorem System.Stepped.posted (h : s.Stepped a t) (hp : ∀ c, (s.clients c).Posted) :
    ∀ c, (t.clients c).Posted := by
  intro c
  by_cases hc : c = a.conn
  swap
  · rw [(System.step_frame h hc).1]
    exact hp c
  subst hc
  have hown := hp a.conn
  by_cases hmv : a.moves = true
  · rcases h.moved hmv with hm | ⟨wr, sq, ra, data, hsq, -, -, -, -, rfl⟩
    · rcases hm.sq with hsq | ⟨wr, hsq⟩
      · rw [Client.Posted, hm.awaited, hsq]
        exact hown
      · exact hown.pop hsq hm.awaited rfl
    · simp only [System.setClient, Function.update_self]
      exact hown.pop hsq rfl rfl
  · cases h with
    | connected d accepted established =>
        simp only [Action.conn, Function.update_self]
        refine Client.posted_of_awaited ?_
        split_ifs <;> rfl
    | called d api o k hk =>
        simpa [System.setClient, Action.conn] using (Client.call_stage o hk).2.posted
    | woken d o k hk =>
        obtain ⟨w, tok, sem, -, -, hk⟩ := Client.wake_cases hk
        simpa [System.setClient, Action.conn] using (Client.resume_stage o hk).posted
    | written d f k hk =>
        obtain ⟨-, -, b, g, -, rfl⟩ := Client.write_cases hk
        simp only [System.setClient, Action.conn, Function.update_self]
        exact hown
    | handled d o m hc hp hm => exact hown
    | sent | fetched | stored | failed | flushed | recvFlushed | polled | delivered | lost
    | disconnected | cmHandled => exact absurd rfl hmv

/-- What an action does to its own connection. -/
theorem ConnInv.step (h : s.Stepped a t) (hi : ConnInv (s.clients a.conn) (s.server.unit a.conn)) :
    ConnInv (t.clients a.conn) (t.server.unit a.conn) := by
  cases h with
  | connected c accepted established hpc hc =>
      change ConnInv (s.clients c) (s.server.unit c) at hi
      have hq : Quiet (s.clients c) (s.server.unit c) :=
        hi.quiet (by rw [hpc]; rfl) (by rw [hpc]; rfl)
      have hq' : Quiet (s.clients c) ((rpmemConnectRequestHandler accepted s.server c).unit c) := by
        cases accepted with
        | false => exact hq
        | true =>
            simp only [rpmemConnectRequestHandler, if_true, Server.setUnit_unit,
              Function.update_self]
            exact ⟨hq.sends, hq.reads, hq.rsps, hq.fetches, hq.sem, rfl, rfl⟩
      simp only [Action.conn, Function.update_self]
      split_ifs
      · have hopen : Quiet { s.clients c with pc := .connected, state := .established }
            ((rpmemConnectRequestHandler accepted s.server c).unit c) :=
          ⟨hq'.sends, hq'.reads, hq'.rsps, hq'.fetches, hq'.sem, hq'.pending, hq'.answers⟩
        exact hopen.connInv (by simp)
      · exact hq'.stage (.destroyed _ rfl rfl rfl rfl rfl)
  | called c api o k hk =>
      simpa [System.setClient, Action.conn] using ConnInv.call hi hk
  | woken c o k hk => simpa [System.setClient, Action.conn] using ConnInv.wake hi hk
  | written c f k hk =>
      change ConnInv (s.clients c) (s.server.unit c) at hi
      obtain ⟨-, -, b, g, -, rfl⟩ := Client.write_cases hk
      simp only [System.setClient, Action.conn, Function.update_self]
      exact hi.congr rfl rfl rfl rfl rfl rfl rfl
  | sent c wr sq hsq hqp hop hc hr =>
      change ConnInv (s.clients c) (s.server.unit c) at hi
      simpa [System.setClient, Action.conn] using
        hi.send hsq hop ((s.server.receive c (s.clients c).req).unit c)
          (by simp [Server.receive]) (by simp [Server.receive]) (by simp [Server.receive])
          (by simp [Server.receive])
  | fetched c wr sq a data hsq hqp hop =>
      simpa [System.setClient, Action.conn] using ConnInv.fetch hi hsq hop data
  | stored c wr sq a host hsq hqp hop =>
      simpa [System.setClient, Action.conn] using
        ConnInv.complete hi hsq .success fun _ => by rw [hop]; rfl
  | failed c wr sq hsq =>
      have hc := ConnInv.complete hi hsq .otherErr (by simp)
      simp only [System.setClient, Action.conn, Function.update_self]
      exact hc.congr rfl rfl rfl rfl rfl rfl rfl
  | flushed c wr sq hsq =>
      simpa [System.setClient, Action.conn] using
        ConnInv.complete hi hsq .wrFlushErr (by simp)
  | recvFlushed c =>
      simp only [System.setClient, Action.conn, Function.update_self]
      exact ConnInv.note hi (by simp [Wc.isRsp]) (by simp [Wc.isRead]) rfl rfl rfl rfl rfl rfl rfl
  | polled c k hk => simpa [System.setClient, Action.conn] using ConnInv.poll hi hk
  | handled c o m hc hp hm => exact hi.handle hp hm
  | delivered c hs =>
      simpa [System.setClient, Action.conn, Server.sent] using ConnInv.deliver hi hs
  | lost c => simpa [Action.conn, Server.sent] using ConnInv.lose hi
  | disconnected c =>
      simp only [System.setClient, Action.conn, Function.update_self]
      exact ConnInv.congr hi rfl rfl rfl rfl rfl rfl rfl
  | cmHandled c =>
      simp only [System.setClient, Action.conn, Function.update_self]
      exact ConnInv.congr hi rfl rfl rfl rfl rfl rfl rfl

/-- One action keeps the invariant on every connection. -/
theorem System.TokenInv.step (hi : s.TokenInv) (h : s.step a = some t) : t.TokenInv := by
  intro d
  have hst := System.step_cases h
  by_cases hd : d = a.conn
  · subst hd
    exact ConnInv.step hst (hi _)
  · obtain ⟨hk, hu⟩ := System.step_frame hst hd
    rw [hk, hu]
    exact hi d

theorem System.Initial.tokenInv (h : s.Initial) : s.TokenInv := by
  intro c
  rw [h.clients c]
  exact Quiet.connInv ⟨rfl, rfl, rfl, rfl, rfl, (h.units c).1, (h.units c).2.1⟩ (by simp [Client.fresh])

/-- Every reachable state keeps the invariant, whatever rule the run keeps to. -/
theorem System.Initial.reachable_tokenInv {ok : System → Action → Prop}
    (h : Lts.Reachable System.step ok System.Initial s) : s.TokenInv :=
  h.invariant (fun _ hs => hs.tokenInv) fun _ _ _ hs _ he => hs.step he

/-- **Every wake-up is the one waited for.**  In every state reached by library
clients, over any order of calls, any delays and any failures: a connection has
at most one request outstanding; between calls its `sem_command` is `0`, no
response, successful receive completion or RDMA read is under way; and a call
that takes a token of `sem_command` takes the one of the completion it waits
for: `rsp` holds the server's response to this very request and its unpacker
accepts it, or the RDMA read of this very call has succeeded. -/
theorem wakeup_is_awaited (h : Lts.Reachable System.step Lts.anyLabel System.Initial s)
    (c : ConnId) :
    requestsUnderWay (s.clients c) (s.server.unit c) +
        responsesUnderWay (s.clients c) (s.server.unit c) ≤ 1 ∧
      ((s.clients c).pc = .idle →
        (s.clients c).sem = [] ∧ (s.server.unit c).pending = 0 ∧ (s.server.unit c).sends = 0 ∧
          (∀ w ∈ (s.clients c).cq, w.isRsp = false ∧ w.isRead = false) ∧
          ∀ w ∈ (s.clients c).sq, w.isSend = false ∧ w.isRead = false) ∧
      ∀ w t sem, (s.clients c).pc = .waiting w → (s.clients c).sem = t :: sem →
        match w with
        | .rsp q => t = ⟨.recv, (s.clients c).seq⟩ ∧ (s.clients c).rsp.seq = (s.clients c).seq ∧
            ∀ out, (unpackRsp q.rsp (s.clients c).rsp.bytes out).1 = 0
        | .read => t = ⟨.rdmaRead, (s.clients c).seq⟩ := by
  have hinv : ConnInv (s.clients c) (s.server.unit c) := System.Initial.reachable_tokenInv h c
  refine ⟨hinv.messages.trans ?_, fun hidle => ?_, fun w t sem hpc hsem => ?_⟩
  · match (s.clients c).pc with
    | .waiting (.rsp q) => exact le_refl 1
    | .waiting .read | .unopened | .connected | .idle | .finished => exact Nat.zero_le 1
  · have hq := hinv.quiet (by rw [hidle]; rfl) (by rw [hidle]; rfl)
    refine ⟨hq.sem, hq.pending, hq.answers, fun w hw => ⟨?_, ?_⟩, fun w hw => ⟨?_, ?_⟩⟩
    · simpa using List.countP_eq_zero.1 hq.rsps w hw
    · simpa using List.countP_eq_zero.1 hq.fetches w hw
    · simpa using List.countP_eq_zero.1 hq.sends w hw
    · simpa using List.countP_eq_zero.1 hq.reads w hw
  · obtain ⟨-, hkind⟩ := hinv.token hpc hsem
    have hseq := hinv.tokens t (hsem ▸ List.mem_cons_self)
    obtain ⟨kind, n⟩ := t
    cases w with
    | read =>
        cases hkind
        cases hseq
        rfl
    | rsp q =>
        obtain ⟨-, -, hop, hs⟩ := hinv.woken_rsp hpc hsem
        cases hkind
        cases hseq
        exact ⟨rfl, hs, fun out => (unpackRsp_eq_zero_iff q.rsp _ out).2 hop⟩

/-- The wake-up of `rpmem_map` on the response to its MAP. -/
theorem wakeup_is_awaited_map :
    ∃ s, Lts.Reachable System.step Lts.anyLabel System.Initial s ∧
      ((s.clients 0).pc = .waiting (.rsp .mapReq) ∧ (s.clients 0).sem = [⟨.recv, 2⟩]) ∧
      (s.clients 0).rsp.seq = (s.clients 0).seq := by
  obtain ⟨s, hs, hp⟩ := Lts.exists_reachable_of_exec System.step Lts.anyLabel System.Initial
    (System.main_initial ⟨0, 8192, none, 0, 0⟩ Host.blank rfl)
    (System.opens 0 ++ [.call 0 (.rpmemMap 4096) .allOk] ++
      System.exchange 0 (.allOk 0x7f0000000000 17))
    (fun s => decide ((s.clients 0).pc = .waiting (.rsp .mapReq) ∧
      (s.clients 0).sem = [⟨.recv, 2⟩])) (by decide)
  have hp' := of_decide_eq_true hp
  exact ⟨s, hs, hp', ((wakeup_is_awaited hs 0).2.2 _ _ _ hp'.1 hp'.2).2.1⟩

end Rpmem
