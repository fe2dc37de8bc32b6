/-
# The programs use the library as documented

A program has a region exactly from a successful `rpmem_map` to `rpmem_unmap`,
and it makes its calls accordingly: one `rpmem_map` for a file, of a length
between 1024 bytes and `2^31`, and `rpmem_commit` and `rpmem_unmap` only with
the region it returned.  So every run of the programs is a run of the library,
call by call, under the rules that its guarantees ask for
(`programs_keep_the_rules`), and the ways in which a client can make the server
follow a `NULL` pointer are not open to them (`programs_never_crash`): none is
followed on either side, whatever fails, and no region deregistered twice.  A
server that dies of something else, as of a failed `ibv_poll_cq`, is not covered.

On the client's side the invariant is `Client.At`, where the call of the
program can be.  On the server's, a connection that has not sent its MAP, or
whose MAP is not handled yet, holds nothing and has nothing registered.
-/

import Rpmem.Programs.Model
import Rpmem.Server.Faults

namespace Rpmem

/-! ### The client of a program -/

/-- The call that has the wait. -/
def Wait.call : Wait → AppPc
  | .rsp .openReq => .opening
  | .rsp .mapReq | .read => .mapping
  | .rsp .commitReq => .committing
  | .rsp .unmapReq => .unmapping
  | .rsp .closeReq => .closing

/-- The calls in which the library looks at `priv_mr.mr`. -/
def AppPc.usesMr : AppPc → Bool
  | .mapping | .committing | .unmapping => true
  | _ => false

/-- The application has a region after a call with this result. -/
def Result.region : Result → Bool
  | .mapped true | .committed _ => true
  | _ => false

/-- Where the client of a program is while its `main` is at `p`. -/
inductive Client.At (k : Client) : AppPc → Prop
  | unopened {p : AppPc} (hp : p = .start ∨ p = .opening) (pc : k.pc = .unopened)
      (result : k.result = none) (region : k.region = false) : At k p
  | connected (pc : k.pc = .connected) (result : k.result = none) (region : k.region = false) :
      At k .opening
  | waiting {w : Wait} (pc : k.pc = .waiting w) (result : k.result = none)
      (region : w.call ≠ .closing → k.region = decide (w.call = .committing))
      (mr : w.call.usesMr = true → k.mr.isSome) : At k w.call
  | returned {r : Result} (hr : r ≠ .opened false ∧ r ≠ .closed) (pc : k.pc = .idle)
      (result : k.result = some r) (region : k.region = r.region)
      (mr : r.region = true → k.mr.isSome) : At k r.call
  | destroyed {r : Result} (hr : r = .opened false ∨ r = .closed) (pc : k.pc = .finished)
      (result : k.result = some r) : At k r.call
  | exited {status : CInt} (pc : k.pc = .unopened ∨ k.pc = .finished) : At k (.exited status)

variable {k k' : Client} {p : AppPc} {o : ClientOutcomes} {u : ServerUnit}

/-- What moves a message keeps the client where it is. -/
theorem Client.At.congr (h : k.At p) (hpc : k'.pc = k.pc) (hresult : k'.result = k.result)
    (hregion : k'.region = k.region) (hmr : k'.mr = k.mr) : k'.At p := by
  cases h with
  | unopened hp pc result region =>
      exact .unopened hp (hpc.trans pc) (hresult.trans result) (hregion.trans region)
  | connected pc result region =>
      exact .connected (hpc.trans pc) (hresult.trans result) (hregion.trans region)
  | waiting pc result region mr =>
      exact .waiting (hpc.trans pc) (hresult.trans result) (fun hp => hregion.trans (region hp))
        fun hp => hmr ▸ mr hp
  | returned hr pc result region mr =>
      exact .returned hr (hpc.trans pc) (hresult.trans result) (hregion.trans region)
        fun hp => hmr ▸ mr hp
  | destroyed hr pc result => exact .destroyed hr (hpc.trans pc) (hresult.trans result)
  | exited pc => exact .exited (hpc ▸ pc)

/-! The calls, one by one. -/

theorem Client.Called.atOpening (h : k.Called o .rpmemOpen k') (hregion : k.region = false) :
    k'.At .opening := by
  cases h with
  | opens =>
      refine .waiting (w := .rsp .openReq) rfl rfl (fun _ => hregion) ?_
      simp [AppPc.usesMr, Wait.call]
  | openFails => exact .destroyed (r := .opened false) (.inl rfl) rfl rfl

theorem Client.Called.atMapping {len : BitVec 64} (h : k.Called o (.rpmemMap len) k')
    (hregion : k.region = false) : k'.At .mapping := by
  cases h with
  | maps =>
      exact .waiting (w := .rsp .mapReq) rfl rfl (fun _ => hregion)
        fun _ => rfl
  | mapFails | mapAllocates =>
      exact .returned (r := .mapped false) (by simp) rfl rfl rfl (by simp [Result.region])

theorem Client.Called.atCommitting (h : k.Called o .rpmemCommit k') (hregion : k.region = true)
    (hmr : k.mr.isSome) : k'.At .committing := by
  cases h with
  | commits id =>
      exact .waiting (w := .rsp .commitReq) rfl rfl (fun _ => hregion)
        fun _ => hmr
  | commitFails => exact .returned (r := .committed (-1)) (by simp) rfl rfl hregion fun _ => hmr

theorem Client.Called.atUnmapping (h : k.Called o .rpmemUnmap k') (hmr : k.mr.isSome) :
    k'.At .unmapping := by
  cases h with
  | unmaps =>
      exact .waiting (w := .rsp .unmapReq) rfl rfl (fun _ => rfl)
        fun _ => hmr
  | unmapFails =>
      exact .returned (r := .unmapped (-1)) (by simp) rfl rfl rfl (by simp [Result.region])

theorem Client.Called.atClosing (h : k.Called o .rpmemClose k') : k'.At .closing := by
  cases h with
  | closes =>
      refine .waiting (w := .rsp .closeReq) rfl rfl ?_ ?_
      · exact fun hp => absurd rfl hp
      · simp [AppPc.usesMr, Wait.call]
  | closeFails => exact .destroyed (r := .closed) (.inr rfl) rfl rfl

/-- A client that waits is in the call its program is in. -/
theorem Client.At.of_waiting (h : k.At p) {w : Wait} (hpc : k.pc = .waiting w) :
    p = w.call ∧ k.result = none ∧ (p ≠ .closing → k.region = decide (p = .committing)) ∧
      (p.usesMr = true → k.mr.isSome) := by
  cases h with
  | waiting pc result region mr =>
      obtain rfl := Pc.waiting.inj (hpc.symm.trans pc)
      exact ⟨rfl, result, region, mr⟩
  | unopened _ pc | connected pc | returned _ pc | destroyed _ pc => cases hpc.symm.trans pc
  | exited pc => rcases pc with pc | pc <;> cases hpc.symm.trans pc

/-- A program that has not started. -/
theorem Client.At.of_start (h : k.At p) (hp : p = .start) :
    k.pc = .unopened ∧ k.result = none ∧ k.region = false := by
  cases h with
  | unopened _ pc result region => exact ⟨pc, result, region⟩
  | @waiting w => cases w with
    | read => cases hp
    | rsp q => cases q <;> cases hp
  | @returned r | @destroyed r => cases r <;> cases hp
  | connected | exited => cases hp

/-- A program that is in `rpmem_open` with no connection yet. -/
theorem Client.At.of_unopened (h : k.At p) (hpc : k.pc = .unopened)
    (hp : ∀ status, p ≠ .exited status) : k.result = none ∧ k.region = false := by
  cases h with
  | unopened _ _ result region => exact ⟨result, region⟩
  | connected pc | waiting pc | returned _ pc | destroyed _ pc => cases hpc.symm.trans pc
  | exited => exact absurd rfl (hp _)

theorem Client.At.of_connected (h : k.At p) (hpc : k.pc = .connected) :
    p = .opening ∧ k.result = none ∧ k.region = false := by
  cases h with
  | connected _ result region => exact ⟨rfl, result, region⟩
  | unopened _ pc | waiting pc | returned _ pc | destroyed _ pc => cases hpc.symm.trans pc
  | exited pc => rcases pc with pc | pc <;> cases hpc.symm.trans pc

/-- A wake-up leaves the program in its call. -/
theorem Client.At.wake (h : k.At p) (hi : ConnInv k u) (hw : k.wake o = some k') : k'.At p := by
  have hwoken := hi.woken hw
  cases hwoken with
  | opened pc =>
      obtain ⟨rfl, hresult, hregion, hmr⟩ := h.of_waiting pc
      exact .returned (r := .opened true) (by simp) rfl rfl (hregion (by simp [Wait.call]))
        (by simp [Result.region])
  | closed pc =>
      obtain ⟨rfl, -⟩ := h.of_waiting pc
      exact .destroyed (r := .closed) (.inr rfl) rfl rfl
  | reads id pc =>
      obtain ⟨rfl, hresult, hregion, hmr⟩ := h.of_waiting pc
      exact .waiting (w := .read) rfl hresult hregion hmr
  | mapFails id pc =>
      obtain ⟨rfl, -⟩ := h.of_waiting pc
      exact .returned (r := .mapped false) (by simp) rfl rfl rfl (by simp [Result.region])
  | unmapped id pc =>
      obtain ⟨rfl, -, hregion, -⟩ := h.of_waiting pc
      exact .returned (r := .unmapped (wordField k.rsp.bytes)) (by simp) rfl rfl
        (hregion (by simp [Wait.call])) (by simp [Result.region])
  | committed pc =>
      obtain ⟨rfl, -, hregion, hmr⟩ := h.of_waiting pc
      exact .returned (r := .committed (wordField k.rsp.bytes)) (by simp) rfl rfl
        (hregion (by simp [Wait.call])) fun _ => hmr rfl
  | fetched pc =>
      obtain ⟨rfl, -, -, hmr⟩ := h.of_waiting pc
      exact .returned (r := .mapped true) (by simp) rfl rfl rfl fun _ => hmr rfl

/-- A program reads what its call returned, once it has. -/
theorem Client.At.of_result (h : k.At p) {r : Result} (hresult : k.result = some r)
    (hp : ∀ status, p ≠ .exited status) :
    p = r.call ∧ (k.pc = .idle ∧ k.region = r.region ∧ (r.region = true → k.mr.isSome) ∧
      r ≠ .opened false ∧ r ≠ .closed ∨ k.pc = .finished ∧ (r = .opened false ∨ r = .closed)) := by
  cases h with
  | returned hr pc result region mr =>
      obtain rfl := Option.some.inj (hresult.symm.trans result)
      exact ⟨rfl, .inl ⟨pc, region, mr, hr⟩⟩
  | destroyed hr pc result =>
      obtain rfl := Option.some.inj (hresult.symm.trans result)
      exact ⟨rfl, .inr ⟨pc, hr⟩⟩
  | unopened _ _ result | connected _ result | waiting _ result => cases hresult.symm.trans result
  | exited => exact absurd rfl (hp _)

/-- **A program makes its next call from the right place**: with a region if the call is for
one, and without one for `rpmem_map`. -/
theorem Client.At.next {a b : App} (h : k.At a.pc) {r : Result} (hresult : k.result = some r)
    {api : Api} (hgo : a.Goes k.size r b (some api)) :
    k.pc = .idle ∧ match api with
      | .rpmemOpen => False
      | .rpmemMap len => len = sizeT (mapSize k.size) ∧ k.region = false ∧ b.pc = .mapping
      | .rpmemCommit => k.region = true ∧ k.mr.isSome ∧ b.pc = .committing
      | .rpmemUnmap => k.region = true ∧ k.mr.isSome ∧ b.pc = .unmapping
      | .rpmemClose => b.pc = .closing := by
  have hp : ∀ status, a.pc ≠ .exited status := by
    intro status hpc
    cases hgo <;> simp_all
  obtain ⟨-, ⟨hpc, hregion, hmr, -⟩ | ⟨-, hr⟩⟩ := h.of_result hresult hp
  · refine ⟨hpc, ?_⟩
    cases hgo with
    | closes | mapFailed | commitFailed | unmapped | unmapFailed => rfl
    | maps => exact ⟨rfl, hregion, rfl⟩
    | commits | unmaps | committed => exact ⟨hregion, hmr rfl, rfl⟩
  · cases hgo <;> simp at hr

/-- The next call of a program, to its first wait or its return. -/
theorem Client.At.call {a b : App} (h : k.At a.pc) {r : Result} (hresult : k.result = some r)
    {api : Api} (hgo : a.Goes k.size r b (some api)) (hc : k.call o api = some k') :
    k'.At b.pc := by
  obtain ⟨-, hnext⟩ := h.next hresult hgo
  have hcalled := (Client.call_called hc).2
  cases api with
  | rpmemOpen => exact hnext.elim
  | rpmemMap len =>
      rw [hnext.2.2]
      exact hcalled.atMapping hnext.2.1
  | rpmemCommit =>
      rw [hnext.2.2]
      exact hcalled.atCommitting hnext.1 hnext.2.1
  | rpmemUnmap =>
      rw [hnext.2.2]
      exact hcalled.atUnmapping hnext.2.1
  | rpmemClose =>
      rw [hnext]
      exact hcalled.atClosing

/-! ### The server before it has handled the MAP of a program -/

/-- The server holds nothing for the connection. -/
structure Server.Unclaimed (s : Server) (c : ConnId) : Prop where
  res : (s.unit c).res = none
  mrs : s.Unregistered c

/-- The MAP of the program has not been handled. -/
def Unmapped (p : AppPc) (k : Client) (u : ServerUnit) : Prop :=
  p = .start ∨ p = .opening ∨ k.pc = .waiting (.rsp .mapReq) ∧ 0 < requestsUnderWay k u

variable {x y : System} {act : Action} {c : ConnId}

/-- An action of another connection claims nothing for this one. -/
theorem Server.Unclaimed.of_ne (h : x.server.Unclaimed c) (hst : x.Stepped act y)
    (hc : c ≠ act.conn) : y.server.Unclaimed c := by
  refine ⟨?_, hst.unregistered (.inl hc) h.mrs⟩
  rw [(System.step_frame hst hc).2]
  exact h.res

/-- A message of the connection that moves claims nothing for it. -/
theorem Server.Unclaimed.moves (h : x.server.Unclaimed act.conn) (hst : x.Stepped act y)
    (hmv : act.moves = true) : y.server.Unclaimed act.conn := by
  refine ⟨?_, hst.unregistered (.inr hmv) h.mrs⟩
  rcases hst.moved hmv with hm | ⟨wr, sq, ra, data, -, -, -, -, -, rfl⟩
  · rw [hm.res]
    exact h.res
  · exact h.res

/-- The answer to OPEN claims nothing. -/
theorem Server.Unclaimed.handleOpen {s : Server} (h : s.Unclaimed c) {o : Outcomes} {m : Handled}
    (hm : s.handle c o = .ok m) (hk : requestKind (s.unit c).req.bytes = some .openReq) :
    m.server.Unclaimed c := by
  obtain ⟨f, t, calls, ht, hserver, -⟩ := Server.handle_served hm hk
  cases ht
  rw [hserver]
  refine ⟨?_, h.mrs⟩
  simp [s.poll_unit c, h.res]

/-! ### One connection -/

/-- A program, its client and what the server has for them. -/
structure AppInv (p : AppPc) (k : Client) (s : Server) (c : ConnId) : Prop where
  client : k.At p
  unclaimed : Unmapped p k (s.unit c) → s.Unclaimed c
  lengths : ∃ g, LengthInv g k s c ∧ (p = .unmapping → g.region = true)

/-- The rules the programs keep to: the documented order of calls, and what keeps the lengths
of client and server together on every connection. -/
def Rules (x : System) (a : Action) : Prop := Documented x a ∧ ∀ c, LengthsKept c x a

/-- Only the connection's own calls change what its account says of the region. -/
theorem noteAsked_region {g : Asked} (h : ∀ api o, act ≠ .call c api o) :
    (noteAsked c x act y g).region = g.region := by
  unfold noteAsked
  split
  · rename_i d api o
    rw [if_neg]
    rintro rfl
    exact h api o rfl
  · split_ifs <;> rfl
  · rfl

theorem AppInv.of_ne {base : ℕ} (h : AppInv p (x.clients c) x.server c) (hx : x.Regions base)
    (hst : x.Stepped act y) (hok : LengthsKept c x act) (he : x.step act = some y)
    (hc : c ≠ act.conn) : AppInv p (y.clients c) y.server c := by
  obtain ⟨hk, hu⟩ := System.step_frame hst hc
  obtain ⟨g, hg, hr⟩ := h.lengths
  refine ⟨hk ▸ h.client, fun hun => ?_, noteAsked c x act y g, hg.step hx hok he, ?_⟩
  · rw [hk, hu] at hun
    exact (h.unclaimed hun).of_ne hst hc
  · rw [noteAsked_of_ne hst hc]
    exact hr

/-- A message that moves leaves the program where it is. -/
theorem Client.At.moves (h : (x.clients act.conn).At p) (hst : x.Stepped act y)
    (hmv : act.moves = true) : (y.clients act.conn).At p := by
  rcases hst.moved hmv with hm | ⟨wr, sq, ra, data, -, -, -, -, -, rfl⟩
  · exact h.congr hm.pc hm.result hm.region hm.mr
  · simp only [System.setClient, Function.update_self]
    exact h.congr rfl rfl rfl rfl

/-- It brings no MAP back. -/
theorem Unmapped.moves (h : Unmapped p (y.clients act.conn) (y.server.unit act.conn))
    (hi : ConnInv (x.clients act.conn) (x.server.unit act.conn)) (hst : x.Stepped act y)
    (hmv : act.moves = true) : Unmapped p (x.clients act.conn) (x.server.unit act.conn) := by
  refine h.imp_right (Or.imp_right fun ⟨hpc, hpos⟩ => ?_)
  rcases hst.moved hmv with hm | ⟨wr, sq, ra, data, hsq, hop, -, -, -, rfl⟩
  · exact ⟨hm.pc ▸ hpc, hpos.trans_le hm.requests⟩
  · simp only [System.setClient, Function.update_self] at hpc
    cases hpc.symm.trans (hi.reading hsq hop)

/-- A wake-up sends no MAP. -/
theorem ConnInv.wake_pc_ne (hi : ConnInv k u) (hw : k.wake o = some k') :
    k'.pc ≠ .waiting (.rsp .mapReq) := by
  cases hi.woken hw <;> simp [Client.leave, Client.destroy, rpmemMapDestroyMr, rpmemMapOut,
    rpmemMapAfterRead]

/-- Where the client and the server are after an action that is not the program's. -/
theorem AppInv.client_lib {s : Apps} {base : ℕ}
    (h : AppInv (s.app act.conn).pc (s.sys.clients act.conn) s.sys.server act.conn)
    (hx : s.sys.Regions base) (hlib : s.Lib act) (hst : s.sys.Stepped act y) :
    (y.clients act.conn).At (s.app act.conn).pc ∧
      (Unmapped (s.app act.conn).pc (y.clients act.conn) (y.server.unit act.conn) →
        y.server.Unclaimed act.conn) := by
  have hi := hx.tokens act.conn
  by_cases hmv : act.moves = true
  · exact ⟨h.client.moves hst hmv, fun hun => (h.unclaimed (hun.moves hi hst hmv)).moves hst hmv⟩
  cases hst with
  | connected c accepted established hpc hc =>
      change AppInv (s.app c).pc (s.sys.clients c) s.sys.server c at h
      have hopen : (s.app c).pc = .opening := hlib
      have hfresh : s.sys.server.Unclaimed c := h.unclaimed (.inr (.inl hopen))
      obtain ⟨hresult, hregion⟩ := h.client.of_unopened hpc fun status => by simp [hopen]
      simp only [Action.conn, Function.update_self, hopen]
      refine ⟨?_, fun _ => ?_⟩
      · split_ifs
        · exact .connected rfl hresult hregion
        · exact .destroyed (r := .opened false) (.inl rfl) rfl rfl
      · cases accepted with
        | false => exact hfresh
        | true => exact ⟨by simp [rpmemConnectRequestHandler, ServerUnit.fresh], hfresh.mrs⟩
  | called c api o k hk =>
      obtain rfl : api = .rpmemOpen := hlib
      change AppInv (s.app c).pc (s.sys.clients c) s.sys.server c at h
      obtain ⟨hpc, -⟩ := Option.ite_none_right_eq_some.1 hk
      obtain ⟨hopen, -, hregion⟩ := h.client.of_connected hpc
      simp only [System.setClient, Action.conn, Function.update_self, hopen]
      exact ⟨(Client.call_called hk).2.atOpening hregion, fun _ => h.unclaimed (.inr (.inl hopen))⟩
  | woken c o k hk =>
      simp only [System.setClient, Action.conn, Function.update_self]
      refine ⟨h.client.wake hi hk, fun hun => h.unclaimed (hun.imp_right (Or.imp_right ?_))⟩
      exact fun hpc => absurd hpc.1 (hi.wake_pc_ne hk)
  | written => exact hlib.elim
  | handled c o m hc hp hm =>
      refine ⟨h.client, fun hun => ?_⟩
      obtain ⟨q, hq, hkind⟩ := hi.pending_kind hp
      obtain ⟨hcall, -⟩ := h.client.of_waiting hq
      rcases hun with hstart | hopen | ⟨-, hpos⟩
      · rw [hstart] at hcall
        cases q <;> cases hcall
      · have hunclaimed := h.unclaimed (.inr (.inl hopen))
        rw [hopen] at hcall
        cases q with
        | openReq => exact hunclaimed.handleOpen hm hkind
        | closeReq | mapReq | unmapReq | commitReq => cases hcall
      · exact absurd (hi.requests_handled hp hm) hpos.ne'
  | sent | fetched | stored | failed | flushed | recvFlushed | polled | delivered | lost
  | disconnected | cmHandled => exact absurd rfl hmv

/-- An action that is not the program's. -/
theorem AppInv.lib {s : Apps} {base : ℕ}
    (h : AppInv (s.app act.conn).pc (s.sys.clients act.conn) s.sys.server act.conn)
    (hx : s.sys.Regions base) (hlib : s.Lib act) (hok : LengthsKept act.conn s.sys act)
    (he : s.sys.step act = some y) :
    AppInv (s.app act.conn).pc (y.clients act.conn) y.server act.conn := by
  have hst := System.step_cases he
  obtain ⟨hclient, hclaim⟩ := h.client_lib hx hlib hst
  obtain ⟨g, hg, hr⟩ := h.lengths
  refine ⟨hclient, hclaim, _, hg.step hx hok he, fun hp => ?_⟩
  rw [noteAsked_region, hr hp]
  -- the rest of `rpmem_open` is no call of a program that unmaps
  intro api o ha
  rw [ha] at hlib he
  obtain rfl : api = .rpmemOpen := hlib
  obtain ⟨k, hk, -⟩ := Option.map_eq_some_iff.1 he
  have hopen := (h.client.of_connected (Option.ite_none_right_eq_some.1 hk).1).1
  cases hopen.symm.trans hp

/-! ### Every connection, in every state the programs reach -/

/-- The invariant of the programs. -/
structure Apps.Inv (base : ℕ) (s : Apps) : Prop where
  regions : s.sys.Regions base
  apps : ∀ c, AppInv (s.app c).pc (s.sys.clients c) s.sys.server c

variable {base : ℕ} {s t : Apps} {l : AppLabel}

/-- What the system does by itself is within the rules: a MAP it handles is the first of its
connection. -/
theorem Apps.Inv.rules_lib (h : s.Inv base) (hlib : s.Lib act) (hst : s.sys.Stepped act y) :
    Rules s.sys act := by
  cases hst with
  | called c api o =>
      obtain rfl : api = .rpmemOpen := hlib
      exact ⟨trivial, fun _ => trivial⟩
  | handled c o m hc hp hm =>
      refine ⟨trivial, fun d hd hk => .inr ?_⟩
      subst hd
      obtain ⟨q, hq, hkind⟩ := (h.regions.tokens c).pending_kind hp
      obtain rfl : q = .mapReq := Option.some.inj (hkind.symm.trans hk)
      refine ((h.apps c).unclaimed (.inr (.inr ⟨hq, ?_⟩))).mrs
      simp only [requestsUnderWay]
      omega
  | connected | woken | written | sent | fetched | stored | failed | flushed | recvFlushed | polled
  | delivered | lost | disconnected | cmHandled => exact ⟨trivial, fun _ => trivial⟩

/-- What a program calls is within the rules. -/
theorem Apps.Inv.rules_call (h : s.Inv base) {c : ConnId} {r : Result} {a : App} {api : Api}
    (hresult : (s.sys.clients c).result = some r)
    (hgo : (s.app c).Goes (s.sys.clients c).size r a (some api)) :
    Rules s.sys (.call c api o) := by
  obtain ⟨-, hnext⟩ := (h.apps c).client.next hresult hgo
  cases api with
  | rpmemOpen | rpmemClose => exact ⟨trivial, fun _ => trivial⟩
  | rpmemMap len =>
      obtain ⟨-, hlow, hhigh⟩ := sizeT_mapSize (s.sys.clients c).size
      rw [← hnext.1] at hlow hhigh
      exact ⟨⟨hnext.2.1, by omega, hhigh⟩, fun d _ => by omega⟩
  | rpmemCommit | rpmemUnmap => exact ⟨hnext.1, fun _ => trivial⟩

/-- A program whose client does not wait, and which is past its MAP or before its start. -/
theorem AppInv.of_client {q : AppPc} {sv : Server} {c : ConnId} (h : AppInv p k sv c)
    (hclient : k.At q) (hpc : ∀ w, k.pc ≠ .waiting w) (hq : q ≠ .unmapping)
    (hun : q = .start ∨ q = .opening → p = .start) : AppInv q k sv c := by
  obtain ⟨g, hg, -⟩ := h.lengths
  refine ⟨hclient, ?_, g, hg, fun hp => absurd hp hq⟩
  rintro (hstart | hopen | ⟨hw, -⟩)
  · exact h.unclaimed (.inl (hun (.inl hstart)))
  · exact h.unclaimed (.inl (hun (.inr hopen)))
  · exact absurd hw (hpc _)

/-- A program that starts, or gives up before it has a file. -/
theorem AppInv.start {sv : Server} {c : ConnId} (h : AppInv .start k sv c) (b : Prop)
    [Decidable b] :
    AppInv (if b then .opening else .exited 1) k sv c := by
  obtain ⟨hpc, hresult, hregion⟩ := h.client.of_start rfl
  refine h.of_client ?_ (fun w hw => by rw [hpc] at hw; cases hw) (by split_ifs <;> simp)
    fun _ => rfl
  split_ifs
  · exact .unopened (.inr rfl) hpc hresult hregion
  · exact .exited (.inl hpc)

/-- A program that exits has no file any more. -/
theorem AppInv.exits {a b : App} {sv : Server} {c : ConnId} (h : AppInv a.pc k sv c) {r : Result}
    (hresult : k.result = some r) (hgo : a.Goes k.size r b none) : AppInv b.pc k sv c := by
  have hr : (r = .opened false ∨ r = .closed) ∧ (∃ status, b.pc = .exited status) ∧
      ∀ status, a.pc ≠ .exited status := by
    cases hgo with
    | openFailed pc => exact ⟨.inl rfl, ⟨_, rfl⟩, by simp [pc]⟩
    | exits pc => exact ⟨.inr rfl, ⟨_, rfl⟩, by simp [pc]⟩
  obtain ⟨hr, ⟨status, hb⟩, hp⟩ := hr
  obtain ⟨-, ⟨-, -, -, hne⟩ | ⟨hpc, -⟩⟩ := h.client.of_result hresult hp
  · exact absurd hr (not_or.2 hne)
  · rw [hb]
    exact h.of_client (.exited (.inr hpc)) (fun w hw => by rw [hpc] at hw; cases hw) (by simp)
      (by simp)

/-- The call a program is in next. -/
theorem App.Goes.pc {a b : App} {size : CInt} {r : Result} {api : Api}
    (h : a.Goes size r b (some api)) :
    b.pc ≠ .start ∧ b.pc ≠ .opening ∧ (b.pc = .mapping → a.pc = .opening) ∧
      (b.pc = .unmapping → api = .rpmemUnmap) := by
  cases h with
  | maps pc => exact ⟨by simp, by simp, fun _ => pc, by simp⟩
  | closes | mapFailed | commits | unmaps | committed | commitFailed | unmapped | unmapFailed =>
      simp

/-- A program makes its next call. -/
theorem AppInv.calls {a b : App} {c : ConnId} (h : AppInv a.pc (x.clients c) x.server c)
    (hx : x.Regions base) {r : Result} (hresult : (x.clients c).result = some r) {api : Api}
    (hgo : a.Goes (x.clients c).size r b (some api)) (hok : LengthsKept c x (.call c api o))
    (he : x.step (.call c api o) = some y) : AppInv b.pc (y.clients c) y.server c := by
  obtain ⟨k', hk', rfl⟩ := Option.map_eq_some_iff.1 he
  obtain ⟨-, hnext⟩ := h.client.next hresult hgo
  have hclient := h.client.call hresult hgo hk'
  obtain ⟨g, hg, -⟩ := h.lengths
  have hlen := hg.step hx hok he
  obtain ⟨hstart, hopen, hmap, hunmap⟩ := hgo.pc
  simp only [System.setClient, Function.update_self] at hlen ⊢
  refine ⟨hclient, fun hun => ?_, _, hlen, fun hb => ?_⟩
  · -- only `rpmem_map` leaves a MAP, and it is called right after `rpmem_open`
    rcases hun with hb | hb | ⟨hw, -⟩
    · exact absurd hb hstart
    · exact absurd hb hopen
    · exact h.unclaimed (.inr (.inl (hmap (hclient.of_waiting hw).1)))
  · obtain rfl := hunmap hb
    simp only [noteAsked, if_true]
    exact hnext.1

/-- **A step keeps the invariant, and is an action within the rules, or none of the
library's.** -/
theorem Apps.Inv.step (h : s.Inv base) (hs : s.step l = some t) :
    t.Inv base ∧ Lts.Run System.step Rules s.sys (s.action l).toList t.sys := by
  cases Apps.step_cases hs with
  | started c argc getAddr pc =>
      refine ⟨⟨h.regions, fun d => ?_⟩, .nil _⟩
      have hd := h.apps d
      simp only [Apps.setApp]
      by_cases hdc : d = c
      · subst hdc
        rw [pc] at hd
        rw [Function.update_self]
        exact hd.start _
      · rwa [Function.update_of_ne hdc]
  | exits c o r a result next =>
      have hnone : s.action (.main c o) = none := by simp only [Apps.action, result, next.next_eq]
      rw [hnone]
      refine ⟨⟨h.regions, fun d => ?_⟩, .nil _⟩
      have hd := h.apps d
      simp only [Apps.setApp]
      by_cases hdc : d = c
      · subst hdc
        rw [Function.update_self]
        exact hd.exits result next
      · rwa [Function.update_of_ne hdc]
  | calls c o r a api sys result next call =>
      have hrules := h.rules_call (o := o) result next
      have hcall : s.action (.main c o) = some (.call c api o) := by
        simp only [Apps.action, result, next.next_eq]
      rw [hcall]
      refine ⟨⟨h.regions.step call, fun d => ?_⟩, .cons hrules call (.nil _)⟩
      simp only [Apps.setApp]
      by_cases hdc : d = c
      · subst hdc
        rw [Function.update_self]
        exact (h.apps d).calls h.regions result next (hrules.2 d) call
      · rw [Function.update_of_ne hdc]
        exact (h.apps d).of_ne h.regions (System.step_cases call) (hrules.2 d) call hdc
  | lib a sys hlib hsys =>
      have hst := System.step_cases hsys
      have hrules := h.rules_lib hlib hst
      refine ⟨⟨h.regions.step hsys, fun d => ?_⟩, .cons hrules hsys (.nil _)⟩
      by_cases hdc : d = a.conn
      · subst hdc
        exact (h.apps _).lib h.regions hlib (hrules.2 _) hsys
      · exact (h.apps d).of_ne h.regions hst (hrules.2 d) hsys hdc

theorem Apps.InitialAt.inv (h : s.InitialAt base) : s.Inv base where
  regions := h.sys.regions
  apps c := by
    have hk := h.sys.initial.clients c
    rw [hk, (h.app c).1]
    refine ⟨.unopened (.inl rfl) rfl rfl rfl, fun _ => ⟨h.sys.initial.server.res c, fun q hq => ?_⟩,
      ⟨0, 0, false⟩, ?_, by simp⟩
    · rw [h.sys.initial.server.mrs] at hq
      cases hq
    · intro hr
      cases hr

/-- The programs keep the invariant, and their runs are runs of the library within the
rules. -/
theorem Apps.InitialAt.run {labels : List AppLabel} (h : s.InitialAt base)
    (hrun : Lts.Run Apps.step Lts.anyLabel s labels t) :
    t.Inv base ∧ Lts.Run System.step Rules s.sys (s.actions labels) t.sys :=
  hrun.translates (I := Apps.Inv base) (f := Apps.sys) (fun _ _ _ hs _ hstep => hs.step hstep) h.inv

theorem Apps.reachable_inv
    (h : Lts.Reachable Apps.step Lts.anyLabel (Apps.InitialAt base) s) :
    s.Inv base ∧ Lts.Reachable System.step Rules (System.InitialAt base) s.sys := by
  obtain ⟨x, labels, hx, hrun⟩ := h
  obtain ⟨hinv, hsys⟩ := hx.run hrun
  exact ⟨hinv, x.sys, _, hx.sys, hsys⟩

/-- **The programs use the library as it asks to be used.**  Over any interleaving of any
number of the programs, with any failures, what they have the library do, call by call, is a run
of the system in which every `rpmem_map` is called without a region and for `0 < len < 2^31`
bytes, every `rpmem_commit` and `rpmem_unmap` with one, and every MAP that the server refuses
finds no registration of its connection. -/
theorem programs_keep_the_rules {labels : List AppLabel} (h : s.InitialAt base)
    (hrun : Lts.Run Apps.step Lts.anyLabel s labels t) :
    Lts.Run System.step (fun x a => Documented x a ∧ ∀ c, LengthsKept c x a) s.sys
      (s.actions labels) t.sys :=
  (h.run hrun).2

/-- `simple_commit` when its `rpmem_commit` has returned. -/
theorem programs_keep_the_rules_committed :
    ∃ t : Apps, (t.sys.clients 0).result = some (.committed 0) ∧
      Lts.Run System.step (fun x a => Documented x a ∧ ∀ c, LengthsKept c x a)
        (Apps.all .simpleCommit).sys
        (System.opens 0 ++ (.call 0 (.rpmemMap 7168) .allOk ::
          System.exchange 0 (.allOk 0x7f0000000000 17) ++
          [.wake 0 .allOk, .exec 0 true, .poll 0, .wake 0 .allOk]) ++
          (.call 0 .rpmemCommit .allOk :: [.exec 0 true, .poll 0] ++
            System.exchange 0 (.allOk 0 0) ++ [.wake 0 .allOk]))
        t.sys := by
  obtain ⟨t, ht, htest⟩ := Lts.exists_run_of_exec Apps.step Lts.anyLabel
    (s := Apps.all .simpleCommit) (l := Apps.opens 0 ++ Apps.maps 0 ++ Apps.commits 0)
    (p := fun s => decide ((s.sys.clients 0).result = some (.committed 0))) (by decide)
  exact ⟨t, of_decide_eq_true htest, programs_keep_the_rules (Apps.all_initialAt _) ht⟩

/-! ### No `NULL` pointer is followed -/

/-- `rpmem_unmap` and `rpmem_commit` find the region they look at. -/
theorem rpmemUnmap_isSome (h : k.mr.isSome) : (rpmemUnmap o k).isSome := by
  obtain ⟨-, -, he⟩ | ⟨req, rsp, n, -, he⟩ := Client.sendRequest_cases o
    (.unmapReq (k.rmrLen.setWidth 32) k.remoteAddr) { k.start with region := false }
  all_goals
    rw [rpmemUnmap_eq, he]
  · rfl
  · show (Option.map _ k.mr).isSome = true
    rw [Option.isSome_map]
    exact h

theorem rpmemCommit_isSome (h : k.mr.isSome) : (rpmemCommit o k).isSome := by
  cases hr : o.postRecv with
  | true =>
      simp only [rpmemCommit, hr, if_true, Option.isSome_map]
      exact h
  | false => simp [rpmemCommit, hr]

/-- `main` can go on after any of its calls. -/
theorem Apps.Inv.main_isSome (h : s.Inv base) {c : ConnId} {r : Result}
    (hresult : (s.sys.clients c).result = some r) (hpc : ∀ status, (s.app c).pc ≠ .exited status)
    (o : ClientOutcomes) : (s.step (.main c o)).isSome := by
  have hclient := (h.apps c).client
  obtain ⟨hcall, -⟩ := hclient.of_result hresult hpc
  have hnext : (s.app c).next (s.sys.clients c).size r =
      some ((s.app c).goesOn (s.sys.clients c).size r) := if_pos hcall
  rcases hgo : (s.app c).goesOn (s.sys.clients c).size r with ⟨a, none | api⟩ <;> rw [hgo] at hnext
  · simp [Apps.step, Apps.main, hresult, hnext]
  · obtain ⟨hidle, hgoes⟩ := hclient.next hresult (App.next_goes hnext)
    have hstep : ((s.sys.clients c).call o api).isSome := by
      cases api with
      | rpmemOpen => exact hgoes.elim
      | rpmemMap | rpmemClose => simp [Client.call, hidle]
      | rpmemUnmap =>
          rw [Client.call, if_pos hidle]
          exact rpmemUnmap_isSome hgoes.2.1
      | rpmemCommit =>
          rw [Client.call, if_pos hidle]
          exact rpmemCommit_isSome hgoes.2.1
    simpa [Apps.step, Apps.main, hresult, hnext, System.step] using hstep

/-- A call that waits can go on once there is a token. -/
theorem Apps.Inv.wake_isSome (h : s.Inv base) {c : ConnId} {w : Wait}
    (hpc : (s.sys.clients c).pc = .waiting w) (hsem : (s.sys.clients c).sem ≠ [])
    (o : ClientOutcomes) : (s.step (.lib (.wake c o))).isSome := by
  obtain ⟨tok, sem, hcons⟩ := List.exists_cons_of_ne_nil hsem
  obtain ⟨hp, -, -, hmr⟩ := (h.apps c).client.of_waiting hpc
  have hwake : ((s.sys.clients c).wake o).isSome := by
    simp only [Client.wake, hpc, hcons]
    match w with
    | .rsp .openReq | .rsp .closeReq | .rsp .commitReq | .read => rfl
    | .rsp .mapReq | .rsp .unmapReq =>
        simp only [Client.resume, rpmemMapAfterRsp, rpmemUnmapAfterRsp, rpmemUnmapDestroyMr,
          Option.isSome_map]
        exact hmr (by rw [hp]; rfl)
  have hlib : s.Lib (.wake c o) := trivial
  simpa [Apps.step, hlib, System.step] using hwake

/-- Every request of a program is safe: a MAP finds nothing held, and an UNMAP the region of
the MAP before it. -/
theorem Apps.Inv.safeHandling (h : s.Inv base) {c : ConnId}
    (hp : 0 < (s.sys.server.unit c).pending) (o : Outcomes) : SafeHandling s.sys.server c o := by
  obtain ⟨q, hq, hkind⟩ := (h.regions.tokens c).pending_kind hp
  have hpos : 0 < requestsUnderWay (s.sys.clients c) (s.sys.server.unit c) := by
    simp only [requestsUnderWay]
    omega
  have hpoll := s.sys.server.poll_unit c
  unfold SafeHandling Server.handle
  by_cases hr : o.postRecv = true
  swap
  · exact rpmemRcvCompletion_safe_of_refused (.inl (by simpa using hr))
  cases q with
  | openReq | closeReq | commitReq =>
      exact rpmemRcvCompletion_safe_of_refused (.inr (by simp [hpoll, hkind]))
  | mapReq =>
      refine (rpmemRcvCompletion_map_safe_iff (by rw [hpoll]; exact hkind) hr).2 (.inl ?_)
      rw [hpoll]
      exact ((h.apps c).unclaimed (.inr (.inr ⟨hq, hpos⟩))).res
  | unmapReq =>
      refine (rpmemRcvCompletion_unmap_safe_iff (by rw [hpoll]; exact hkind) hr).2 ?_
      obtain ⟨g, hg, hregion⟩ := (h.apps c).lengths
      have hset : Settled g (s.sys.clients c) s.sys.server c := by
        unfold LengthInv at hg
        rw [hq] at hg
        exact hg.2 (hregion ((h.apps c).client.of_waiting hq).1) hpos
      obtain ⟨r, hres, haddr, -, hmr⟩ := hset.holds
      obtain ⟨m, hm, hback⟩ :=
        h.regions.server.maps.held c r hres hmr (by rw [haddr]; exact hset.addr)
      refine ⟨m.id, ?_, m, hm, rfl⟩
      exact Server.region_of_held (by rw [hpoll]; exact hres) hback.mr

/-- **The programs follow no `NULL` pointer, and make the server follow none.**  In every state
that any number of the programs reach, whatever fails: a `main` whose call has returned goes on,
without a `NULL` region; a call that waits goes on with the next token, without a `NULL`
`priv_mr.mr`; and the server handles the request that is pending on a connection, whatever its
calls return, without following a `NULL` pointer and without deregistering a region twice. -/
theorem programs_never_crash
    (h : Lts.Reachable Apps.step Lts.anyLabel (Apps.InitialAt base) s) (c : ConnId) :
    (∀ r o, (s.sys.clients c).result = some r → (∀ status, (s.app c).pc ≠ .exited status) →
        (s.step (.main c o)).isSome) ∧
      (∀ w o, (s.sys.clients c).pc = .waiting w → (s.sys.clients c).sem ≠ [] →
        (s.step (.lib (.wake c o))).isSome) ∧
      ∀ o, 0 < (s.sys.server.unit c).pending → SafeHandling s.sys.server c o := by
  have hinv := (Apps.reachable_inv h).1
  exact ⟨fun r o hr hpc => hinv.main_isSome hr hpc o, fun w o hw hsem => hinv.wake_isSome hw hsem o,
    fun o hp => hinv.safeHandling hp o⟩

/-- `simple_map_unmap` when the server has its UNMAP. -/
theorem programs_never_crash_unmap :
    ∃ s, Lts.Reachable Apps.step Lts.anyLabel (Apps.InitialAt 1) s ∧
      (s.app 0).pc = .unmapping ∧ 0 < (s.sys.server.unit 0).pending ∧
      ∀ o, SafeHandling s.sys.server 0 o := by
  obtain ⟨s, hs, htest⟩ := Lts.exists_reachable_of_exec Apps.step Lts.anyLabel (Apps.InitialAt 1)
    (Apps.all_initialAt .simpleMapUnmap)
    (Apps.opens 0 ++ Apps.maps 0 ++ [.main 0 .allOk, .lib (.exec 0 true)])
    (fun s => decide ((s.app 0).pc = .unmapping ∧ 0 < (s.sys.server.unit 0).pending)) (by decide)
  obtain ⟨hpc, hp⟩ := of_decide_eq_true htest
  exact ⟨s, hs, hpc, hp, fun o => (programs_never_crash hs 0).2.2 o hp⟩

end Rpmem
