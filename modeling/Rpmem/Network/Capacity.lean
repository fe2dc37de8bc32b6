/-
# The capacity a client is told

`main` puts a resource of any size into the list and its low 32 bits into
`free_size`; MAP and UNMAP move `(int)st_size` out of the counter and back.  So
`free_size` is the capacity of the list modulo `2^32`, whatever requests came
before, and that is what OPEN is answered with, put on the wire, read back and
kept in `rfile->size`.

As an `int` it is the capacity exactly if that is below `2^31`
(`advertised_size_iff`); a device of 4 GiB is advertised with 0 bytes.

The connection is one of the library.  The others need not be: beside the
actions of the system, `System.traffic` has any message on any of them.
-/

import Rpmem.Network.Agreement

namespace Rpmem

open Lts

/-- The bytes of the resources in `res_list`. -/
def Server.capacity (s : Server) : ℕ := (s.resList.map fun r => (s.resource r).stSize.toNat).sum

/-- What can happen: an action of the system, or an event of the server on a connection
whose client need not be the library. -/
inductive Traffic
  | action (a : Action)
  | foreign (e : ServerEvent)

/-- One step, with foreign events on other connections than `c` only. -/
def System.traffic (c : ConnId) (x : System) : Traffic → Option System
  | .action a => x.step a
  | .foreign e =>
      if e.conn = c then none else (serverStep x.server e).map fun s => { x with server := s }

/-- The capacity when the server handled the last OPEN of `c`. -/
def noteCapacity (c : ConnId) (x : System) (l : Traffic) (_ : System) (g : ℕ) : ℕ :=
  match l with
  | .action (.handle d _) =>
      if d = c then
        if requestKind (x.server.unit c).req.bytes = some .openReq then x.server.capacity else g
      else g
  | _ => g

/-- `rpmem_open` has returned the file, and `rpmem_close` has not freed it. -/
def Pc.hasFile : Pc → Bool
  | .idle => true
  | .waiting (.rsp .openReq) => false
  | .waiting _ => true
  | .unopened | .connected | .finished => false

/-- The answer to OPEN, and then `rfile->size`, is the capacity modulo `2^32`. -/
structure SizeInv (g : ℕ) (k : Client) (u : ServerUnit) : Prop where
  answer : k.pc = .waiting (.rsp .openReq) → 0 < responsesUnderWay k u →
    wordField u.rsp.bytes = BitVec.ofNat 32 g
  size : k.pc.hasFile = true → k.size = BitVec.ofNat 32 g

/-! ### The counter -/

theorem sum_map_ofNat (l : List ℕ) : (l.map (BitVec.ofNat 32)).sum = BitVec.ofNat 32 l.sum := by
  induction l with
  | nil => rfl
  | cons n l ih => rw [List.map_cons, List.sum_cons, ih, List.sum_cons, BitVec.ofNat_add]

/-- The counter is the capacity modulo `2^32`. -/
theorem Server.PoolInv.freeSize_eq {s : Server} (h : s.PoolInv) :
    s.freeSize = BitVec.ofNat 32 s.capacity := by
  have hfree : s.freeSize = (s.resList.map s.size).sum := h.exclusive.freeSize
  have hsize : s.size = BitVec.ofNat 32 ∘ fun r => (s.resource r).stSize.toNat := rfl
  rw [hfree, hsize, ← List.map_map, sum_map_ofNat]
  rfl

/-- As an `int`, a capacity is itself exactly below `2^31`. -/
theorem toInt_ofNat_eq_iff (n : ℕ) : (BitVec.ofNat 32 n).toInt = n ↔ n < 2 ^ 31 := by
  rw [BitVec.toInt_eq_toNat_cond, BitVec.toNat_ofNat]
  split_ifs <;> omega

/-! ### One connection -/

variable {g : ℕ} {k k' : Client} {u u' : ServerUnit} {s : Server} {c : ConnId}

/-- A message moved. -/
theorem SizeInv.moved (h : SizeInv g k u) (hpc : k'.pc = k.pc) (hsize : k'.size = k.size)
    (hrsp : u'.rsp = u.rsp) (hle : responsesUnderWay k' u' ≤ responsesUnderWay k u) :
    SizeInv g k' u' := by
  refine ⟨fun hw hpos => ?_, fun hf => ?_⟩
  · rw [hrsp]
    exact h.answer (hpc ▸ hw) (lt_of_lt_of_le hpos hle)
  · rw [hsize]
    exact h.size (hpc ▸ hf)

/-- A client without a file that waits for nothing. -/
theorem SizeInv.of_pc (hw : k.pc ≠ .waiting (.rsp .openReq)) (hf : k.pc.hasFile = false) :
    SizeInv g k u :=
  ⟨fun h => absurd h hw, fun h => absurd (hf.symm.trans h) Bool.false_ne_true⟩

/-- A client with a file. -/
theorem SizeInv.of_size (hw : k.pc ≠ .waiting (.rsp .openReq)) (hs : k.size = BitVec.ofNat 32 g) :
    SizeInv g k u :=
  ⟨fun h => absurd h hw, fun _ => hs⟩

/-- Only `rpmem_open` is called without a file. -/
theorem Client.call_hasFile {o : ClientOutcomes} {api : Api} (h : k.call o api = some k')
    (hapi : api ≠ .rpmemOpen) : k.pc.hasFile = true := by
  cases api with
  | rpmemOpen => exact absurd rfl hapi
  | rpmemMap | rpmemUnmap | rpmemCommit | rpmemClose =>
      rw [(Option.ite_none_right_eq_some.1 h).1]
      rfl

theorem SizeInv.call (h : SizeInv g k u) (hi : ConnInv k u) {o : ClientOutcomes} {api : Api}
    (hc : k.call o api = some k') : SizeInv g k' u := by
  have hquiet := hi.responses_eq_zero_of_call hc
  have hsize : api ≠ .rpmemOpen → k.size = BitVec.ofNat 32 g :=
    fun hapi => h.size (Client.call_hasFile hc hapi)
  cases (Client.call_called hc).2 with
  | opens =>
      refine ⟨fun _ hpos => ?_, by rintro ⟨⟩⟩
      have hz : 0 < responsesUnderWay k u := hpos
      omega
  | openFails | closeFails => exact .of_pc (by rintro ⟨⟩) rfl
  | closes | maps | mapFails | mapAllocates | unmaps | unmapFails | commits | commitFails =>
      exact .of_size (by rintro ⟨⟩) (hsize (by rintro ⟨⟩))

/-- The response that wakes a call is the one the server packed. -/
theorem ConnInv.answered_of_wake (h : ConnInv k u) {o : ClientOutcomes} (hw : k.wake o = some k')
    {q : ReqKind} (hpc : k.pc = .waiting (.rsp q)) : Answered k u := by
  obtain ⟨w, tok, sem, hpc', hsem, -⟩ := Client.wake_cases hw
  obtain ⟨hpos, hrsp, -⟩ := h.woken_rsp hpc hsem
  have hquiet := (h.token hpc' hsem).1
  obtain rfl : sem = [] := hquiet.sem
  exact ⟨hpos, hrsp, hquiet⟩

/-- `rpmem_open` keeps what the answer says, the other calls leave it. -/
theorem SizeInv.wake (h : SizeInv g k u) (hi : ConnInv k u) {o : ClientOutcomes}
    (hw : k.wake o = some k') : SizeInv g k' u := by
  have hsize : ∀ w, k.pc = .waiting w → w ≠ .rsp .openReq → k.size = BitVec.ofNat 32 g := by
    intro w hpc hne
    refine h.size ?_
    rw [hpc]
    cases w with
    | read => rfl
    | rsp q => cases q <;> first | rfl | exact absurd rfl hne
  cases hi.woken hw with
  | opened pc =>
      have ha := hi.answered_of_wake hw pc
      refine .of_size (by rintro ⟨⟩) ?_
      have hans := h.answer pc ha.answered
      rw [← ha.rsp] at hans
      exact hans
  | closed => exact .of_pc (by rintro ⟨⟩) rfl
  | reads _ pc | mapFails _ pc | unmapped _ pc | committed pc | fetched pc =>
      exact .of_size (by rintro ⟨⟩) (hsize _ pc (by rintro ⟨⟩))

/-- **OPEN is answered with the capacity modulo `2^32`**, and no other request changes what
the client was told. -/
theorem SizeInv.handle (h : SizeInv g k (s.unit c)) (hi : ConnInv k (s.unit c))
    (hpool : s.PoolInv) (hp : 0 < (s.unit c).pending) {o : Outcomes} {m : Handled}
    (hm : s.handle c o = .ok m) :
    SizeInv (if requestKind (s.unit c).req.bytes = some .openReq then s.capacity else g) k
      (m.server.unit c) := by
  obtain ⟨q, hpc, hkind⟩ := hi.pending_kind hp
  rw [hkind]
  by_cases hq : q = .openReq
  · subst hq
    rw [if_pos rfl]
    refine ⟨fun _ _ => ?_, fun hf => ?_⟩
    · obtain ⟨f, t, calls, ht, hserver, -⟩ := Server.handle_served hm hkind
      cases ht
      rw [hserver, Server.postSend_unit, Function.update_self]
      exact (wordField_packWord _ _ _).trans hpool.freeSize_eq
    · rw [hpc] at hf
      cases hf
  · rw [if_neg fun he => hq (Option.some.inj he)]
    refine ⟨fun hw => ?_, h.size⟩
    rw [hpc] at hw
    exact absurd (Wait.rsp.inj (Pc.waiting.inj hw)) hq

/-! ### Runs -/

variable {x y : System} {a : Action}

/-- Moving a message leaves `rfile->size` alone. -/
theorem System.Stepped.size (h : x.Stepped a y) (ha : a.moves = true) :
    (y.clients a.conn).size = (x.clients a.conn).size := by
  cases h with
  | connected | called | woken | written | handled => cases ha
  | polled c k hk =>
      unfold Client.poll at hk
      split at hk
      · obtain rfl := Option.some.inj hk
        simp [System.setClient, Action.conn]
      · cases hk
  | sent | fetched | stored | failed | flushed | recvFlushed | delivered | disconnected
  | cmHandled =>
      simp [System.setClient, Action.conn, Client.complete, Client.place, Client.receive,
        rpmemCmaDisconnected]
  | lost => rfl

/-- What an action does to its own connection. -/
theorem SizeInv.own_step (hst : x.Stepped a y) (hpool : x.server.PoolInv)
    (hi : ConnInv (x.clients a.conn) (x.server.unit a.conn))
    (h : SizeInv g (x.clients a.conn) (x.server.unit a.conn)) :
    SizeInv (noteCapacity a.conn x (.action a) y g) (y.clients a.conn) (y.server.unit a.conn) := by
  by_cases hmv : a.moves = true
  · have hnote : noteCapacity a.conn x (.action a) y g = g := by
      cases a <;> first | rfl | cases hmv
    rw [hnote]
    have hsize := hst.size hmv
    rcases hst.moved hmv with hm | ⟨wr, sq, ra, data, hsq, hop, -, -, -, rfl⟩
    · exact h.moved hm.pc hsize hm.rsp hm.responses
    · have hpc := hi.reading hsq hop
      have hpc' : (((x.clients a.conn).place ra data).complete wr sq .success).pc =
          .waiting .read := hpc
      refine .of_size ?_ (hsize.trans (h.size (by rw [hpc]; rfl)))
      simp [System.setClient, hpc']
  · cases hst with
    | connected c accepted established =>
        simp only [noteCapacity, Action.conn, Function.update_self]
        split_ifs <;> exact .of_pc (by rintro ⟨⟩) rfl
    | called c api o k hk =>
        simpa [noteCapacity, System.setClient, Action.conn] using h.call hi hk
    | woken c o k hk =>
        simpa [noteCapacity, System.setClient, Action.conn] using h.wake hi hk
    | written c f k hk =>
        obtain ⟨-, -, b, f, -, rfl⟩ := Client.write_cases hk
        simp only [noteCapacity, System.setClient, Action.conn, Function.update_self]
        exact h.moved rfl rfl rfl le_rfl
    | handled c o m hc hp hm =>
        rw [noteCapacity, Action.conn, if_pos rfl]
        exact h.handle hi hpool hp hm
    | sent | fetched | stored | failed | flushed | recvFlushed | polled | delivered | lost
    | disconnected | cmHandled => exact absurd rfl hmv

/-- What a run keeps for the connection `c`. -/
structure CapacityInv (c : ConnId) (p : System × ℕ) : Prop where
  pool : p.1.server.PoolInv
  conn : ConnInv (p.1.clients c) (p.1.server.unit c)
  size : SizeInv p.2 (p.1.clients c) (p.1.server.unit c)

theorem CapacityInv.step {p q : System × ℕ} {l : Traffic} (h : CapacityInv c p)
    (hs : noted (System.traffic c) (noteCapacity c) p l = some q) : CapacityInv c q := by
  obtain ⟨he, hnote⟩ := noted_eq_some hs
  cases l with
  | action a =>
      have hst := System.step_cases he
      have hpool := System.poolInv_step h.pool hst
      by_cases hc : c = a.conn
      · subst hc
        refine ⟨hpool, ConnInv.step hst h.conn, ?_⟩
        rw [hnote]
        exact h.size.own_step hst h.pool h.conn
      · obtain ⟨hk, hu⟩ := System.step_frame hst hc
        have hsame : noteCapacity c p.1 (.action a) q.1 p.2 = p.2 := by
          cases a with
          | handle d o => exact if_neg (Ne.symm hc)
          | connect | call | wake | write | exec | flushRecv | poll | deliver | disconnect
          | cmEvent => rfl
        refine ⟨hpool, ?_, ?_⟩
        · rw [hk, hu]
          exact h.conn
        · rw [hnote, hsame, hk, hu]
          exact h.size
  | foreign e =>
      obtain ⟨hne, he⟩ := Option.ite_none_left_eq_some.1 he
      obtain ⟨t, ht, hq⟩ := Option.map_eq_some_iff.1 he
      have hu : t.unit c = p.1.server.unit c := serverStep_frame ht (Ne.symm hne)
      refine ⟨?_, ?_, ?_⟩
      · rw [← hq]
        exact h.pool.step ht
      · rw [← hq]
        simpa only [hu] using h.conn
      · rw [hnote, ← hq]
        simpa only [noteCapacity, hu] using h.size

theorem CapacityInv.of_reachable {p : System × ℕ}
    (h : Reachable (noted (System.traffic c) (noteCapacity c)) anyLabel (fun p => p.1.Initial) p) :
    CapacityInv c p := by
  refine h.invariant (fun p hp => ⟨hp.server.poolInv, hp.tokenInv c, ?_⟩)
    fun _ _ _ hp _ hs => hp.step hs
  rw [hp.clients c]
  exact .of_pc (by rintro ⟨⟩) rfl

/-- **When the advertised size is the free capacity.**  For a pool of any resources of any
sizes, any requests before and any failures: the `rfile->size` of an open file is the sum
of the sizes in `res_list` at the moment the server handled its OPEN exactly if that sum is
below `2^31`. -/
theorem advertised_size_iff {p : System × ℕ}
    (h : Reachable (noted (System.traffic c) (noteCapacity c)) anyLabel (fun p => p.1.Initial) p)
    (hfile : (p.1.clients c).pc.hasFile = true) :
    (p.1.clients c).size.toInt = p.2 ↔ p.2 < 2 ^ 31 := by
  rw [(CapacityInv.of_reachable h).size.size hfile]
  exact toInt_ofNat_eq_iff p.2

/-- A resource of 8192 bytes. -/
theorem advertised_size_iff_two_pages :
    ∃ p : System × ℕ,
      Reachable (noted (System.traffic 0) (noteCapacity 0)) anyLabel (fun p => p.1.Initial) p ∧
      ((p.1.clients 0).result = some (.opened true) ∧ p.2 = 8192) ∧
      ((p.1.clients 0).size.toInt = p.2 ↔ p.2 < 2 ^ 31) := by
  obtain ⟨p, hp, htest⟩ := exists_reachable_of_exec (noted (System.traffic 0) (noteCapacity 0))
    anyLabel (fun p => p.1.Initial) (s := (System.main ⟨0, 8192, none, 0, 0⟩ Host.blank, 0))
    (System.main_initial _ _ rfl) ((System.opens 0).map .action)
    (fun p => decide (((p.1.clients 0).result = some (.opened true) ∧ p.2 = 8192) ∧
      (p.1.clients 0).pc.hasFile = true)) (by decide)
  obtain ⟨hend, hfile⟩ := of_decide_eq_true htest
  exact ⟨p, hp, hend, advertised_size_iff hp hfile⟩

/-- **A device of 4 GiB is advertised with 0 bytes.** -/
theorem four_gib_are_advertised_as_zero :
    ∃ p : System × ℕ,
      Reachable (noted (System.traffic 0) (noteCapacity 0)) anyLabel
        (fun p => p.1 = System.main ⟨0, 0x100000000, none, 0, 0⟩ Host.blank) p ∧
      (p.1.clients 0).result = some (.opened true) ∧ p.2 = 2 ^ 32 ∧
      (p.1.clients 0).size.toInt = 0 ∧ (p.1.clients 0).size.toInt ≠ p.2 := by
  obtain ⟨p, hp, htest⟩ := exists_reachable_of_exec (noted (System.traffic 0) (noteCapacity 0))
    anyLabel (fun p => p.1 = System.main ⟨0, 0x100000000, none, 0, 0⟩ Host.blank)
    (s := (System.main ⟨0, 0x100000000, none, 0, 0⟩ Host.blank, 0)) rfl
    ((System.opens 0).map .action)
    (fun p => decide ((p.1.clients 0).result = some (.opened true) ∧ p.2 = 2 ^ 32 ∧
      (p.1.clients 0).size.toInt = 0 ∧ (p.1.clients 0).size.toInt ≠ p.2)) (by decide)
  exact ⟨p, hp, of_decide_eq_true htest⟩

end Rpmem
