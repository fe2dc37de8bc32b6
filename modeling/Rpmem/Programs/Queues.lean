/-
# The programs use half of their queues

A call that returns because a post failed leaves a receive and perhaps an RDMA
write in the queues of its file (`client_queues_bounded`), and the library would
let an application make such calls until the queues are full.  The programs do
not: what follows a call that failed is `rpmem_close`, which posts one send work
request and one receive and, if a post fails, destroys the queue pair.  So at
most one call leaves something behind, and then no `rpmem_commit` comes after it.
-/

import Rpmem.Network.Queues
import Rpmem.Programs.Ends

namespace Rpmem

/-- The program only has to close its file: it does or did, or its call has failed. -/
def spent (p : AppPc) (k : Client) : Bool :=
  match p with
  | .closing | .exited _ => true
  | _ => k.result.any fun r => !r.ok

variable {k k' : Client} {o : ClientOutcomes} {api : Api} {p : AppPc}

theorem spent_of_result {r : Result} (hr : k.result = some r) (hok : r.ok = false) :
    spent p k = true := by
  unfold spent
  split
  · rfl
  · rfl
  · rw [hr]
    simp [hok]

/-- It is enough that what the call returned is still there. -/
theorem spent_le (h : ∀ r, k.result = some r → (∀ status, p ≠ .exited status) →
    k'.result = some r) : (spent p k).toNat ≤ (spent p k').toNat := by
  refine Bool.toNat_le_toNat fun hs => ?_
  unfold spent at hs
  split at hs
  · rfl
  · rfl
  · rename_i hp
    obtain ⟨r, hr, hok⟩ := (Option.any_eq_true _ _).1 hs
    exact spent_of_result (h r hr hp) (by simpa using hok)

/-- A call that leaves something behind has failed. -/
theorem Client.call_left (h : k.call o api = some k') : leftBy o api ≤ (spent p k').toNat := by
  unfold leftBy
  cases Client.call_credits h with
  | kept safe | destroyed safe => simp [safe]
  | leaked not_safe pc =>
      have hspent : spent p k' = true := by
        cases (Client.call_called h).2 with
        | opens | closes | maps | unmaps | commits | openFails | closeFails => cases pc
        | mapFails | mapAllocates => exact spent_of_result (r := .mapped false) rfl rfl
        | unmapFails => exact spent_of_result (r := .unmapped (-1)) rfl rfl
        | commitFails => exact spent_of_result (r := .committed (-1)) rfl rfl
      rw [if_neg not_safe, hspent]
      rfl

/-- Only `rpmem_close` follows a call that failed. -/
theorem App.Goes.closes_of_spent {a b : App} {r : Result} (hgo : a.Goes k.size r b (some api))
    (hresult : k.result = some r) :
    spent a.pc k = false ∨ api = .rpmemClose ∧ b.pc = .closing := by
  cases hgo with
  | maps pc | commits pc | unmaps pc | committed pc =>
      left
      simp [spent, pc, hresult, Result.ok]
  | closes | mapFailed | commitFailed | unmapped | unmapFailed => exact .inr ⟨rfl, rfl⟩

/-- The queues of every client: one call may have left something behind, if the program is over
with its file. -/
def Apps.Queues (s : Apps) : Prop :=
  ∀ c, QueueInv (spent (s.app c).pc (s.sys.clients c)).toNat (s.sys.clients c)

variable {base : ℕ} {s t : Apps} {l : AppLabel} {act : Action} {y : System}

/-- An action that is not a program's does not take back that a call has failed. -/
theorem AppInv.spent_lib
    (h : AppInv (s.app act.conn).pc (s.sys.clients act.conn) s.sys.server act.conn)
    (hlib : s.Lib act) (hst : s.sys.Stepped act y) :
    (spent (s.app act.conn).pc (s.sys.clients act.conn)).toNat ≤
      (spent (s.app act.conn).pc (y.clients act.conn)).toNat := by
  refine spent_le fun r hr hp => ?_
  obtain ⟨-, hret⟩ := h.client.of_result hr hp
  have hpc : (s.sys.clients act.conn).pc = .idle ∨ (s.sys.clients act.conn).pc = .finished :=
    hret.imp And.left And.left
  by_cases hmv : act.moves = true
  · rcases hst.moved hmv with hm | ⟨wr, sq, ra, data, -, -, -, -, -, rfl⟩
    · rw [hm.result, hr]
    · simp only [System.setClient, Function.update_self]
      exact hr
  cases hst with
  | connected c accepted established hun => rcases hpc with hpc | hpc <;> cases hpc.symm.trans hun
  | called c api o k hk =>
      obtain rfl : api = .rpmemOpen := hlib
      obtain ⟨hun, -⟩ := Option.ite_none_right_eq_some.1 hk
      rcases hpc with hpc | hpc <;> cases hpc.symm.trans hun
  | woken c o k hk =>
      obtain ⟨w, tok, sem, hw, -⟩ := Client.wake_cases hk
      rcases hpc with hpc | hpc <;> cases hpc.symm.trans hw
  | written => exact hlib.elim
  | handled => exact hr
  | sent | fetched | stored | failed | flushed | recvFlushed | polled | delivered | lost
  | disconnected | cmHandled => exact absurd rfl hmv

/-- **A step of a program or of the system.** -/
theorem Apps.Queues.step (hq : s.Queues) (h : s.Inv base) (hs : s.step l = some t) :
    t.Queues := by
  have hst := Apps.step_cases hs
  intro d
  by_cases hd : d = l.conn
  swap
  · obtain ⟨happ, hclient, -⟩ := hst.frame hd
    rw [happ, hclient]
    exact hq d
  subst hd
  cases hst with
  | started c argc getAddr pc =>
      have hc := hq c
      obtain ⟨-, hresult, -⟩ := (h.apps c).client.of_start pc
      have hnone : spent (s.app c).pc (s.sys.clients c) = false := by
        simp [spent, pc, hresult]
      rw [hnone] at hc
      exact hc.mono (Nat.zero_le _)
  | exits c o r a hresult hgo =>
      have hover : spent a.pc (s.sys.clients c) = true := by cases hgo <;> rfl
      simp only [AppLabel.conn, Apps.setApp, Function.update_self, hover]
      exact (hq c).mono (Bool.toNat_le _)
  | calls c o r a api sys hresult hgo hcall =>
      obtain ⟨k', hk', rfl⟩ := Option.map_eq_some_iff.1 hcall
      have hout := (hq c).call (h.regions.tokens c) hk'
      simp only [AppLabel.conn, Apps.setApp, System.setClient, Function.update_self]
      refine hout.mono ?_
      rcases hgo.closes_of_spent hresult with hfresh | ⟨rfl, hclosing⟩
      · rw [hfresh]
        exact (Nat.zero_add _).trans_le (Client.call_left hk')
      · rw [hclosing]
        exact Bool.toNat_le _
  | lib a sys hlib hsys =>
      have hst := System.step_cases hsys
      have hstep := (QueueInv.step hst (h.regions.tokens _) (h.regions.posted _) (hq a.conn))
      refine hstep.mono ?_
      have hkept := (h.apps a.conn).spent_lib hlib hst
      cases a with
      | call c api o =>
          obtain rfl : api = .rpmemOpen := hlib
          simpa [noteLeft, leftBy, CreditSafe, AppLabel.conn, Action.conn] using hkept
      | connect | wake | write | exec | flushRecv | poll | handle | deliver | disconnect
      | cmEvent => exact hkept

end Rpmem
