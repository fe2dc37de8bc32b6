/-
# What `cm_thread` owes: a wake-up and an acknowledgement

`rpmem_open` sleeps on `sem_connect` until `cm_thread` posts it, and
`rdma_destroy_id` sleeps until `cm_thread` has acknowledged every event it has
been given.  `cm_thread` pays neither debt on every way out.

An event that ends the attempt posts the semaphore, and so does the label
`error` of `rpmem_addr_handler`; `rpmem_route_handler` has no such label, and a
failed `rdma_get_cm_event` ends the thread at once.  `Wakes` leaves these out
while `rpmem_open` waits, and then it never sleeps behind a thread that is gone.

Whenever `rpmem_cma_handler` returns an error, `pthread_exit` comes before
`rdma_ack_cm_event`.  Every event but the three that lead to the connection
does so, and so does every failing call of the two handlers.  Under
`Acknowledges` the acknowledged events are all there were, each once and in
order; any other step leaves an event that is never acknowledged, and
`rdma_destroy_id` waits for it for good.
-/

import Rpmem.Lifecycle.Balance

namespace Rpmem

open Ledger Lts

/-! ### The ways through `rpmem_cma_handler` -/

/-- With the call at hand `rpmem_cma_handler` is bound to return an error. -/
def CmPc.fails (ok : Bool) : CmPc → Bool
  | .handling .addrResolved | .handling .routeResolved | .handling .established => false
  | .handling _ => true
  | .addr .resolveRoute | .addr .allocPd | .addr .regRsp | .addr .regReq
  | .addr .createCompChannel | .addr .createCq | .addr .reqNotify => !ok
  | .route .createQp | .route .connect => !ok
  | _ => false

/-- `cm_thread` has an event, and no call has failed. -/
def CmPc.inHand : CmPc → Bool
  | .handling _ | .acking => true
  | .addr .resolveRoute | .addr .allocPd | .addr .regRsp | .addr .regReq
  | .addr .createCompChannel | .addr .createCq | .addr .reqNotify | .addr .createThread => true
  | .route .createQp | .route .connect => true
  | _ => false

/-- On the way to `pthread_exit`, past a call that failed. -/
def CmPc.failing : CmPc → Bool
  | .addr .cqError | .addr .compError | .addr .sendMrError | .addr .recvMrError | .addr .pdError
  | .addr .error => true
  | .route .destroyQp | .exiting => true
  | _ => false

/-- Past the last place where `cm_thread` could post `sem_connect`. -/
def CmPc.gone : CmPc → Bool
  | .route .destroyQp | .exiting | .exited => true
  | _ => false

/-- In `rpmem_route_handler`. -/
def CmPc.onRoute : CmPc → Bool
  | .route _ => true
  | _ => false

theorem CmPc.failing_of_inHand {cm : CmPc} (h : cm.inHand = true) : cm.failing = false := by
  cases cm with
  | route p => cases p <;> first | rfl | cases h
  | addr p => cases p <;> first | rfl | cases h
  | exiting => cases h
  | absent | waiting | handling | acking | exited => rfl

theorem CmPc.gone_of_inHand {cm : CmPc} (h : cm.inHand = true) : cm.gone = false := by
  cases cm with
  | route p => cases p <;> first | rfl | cases h
  | exiting | exited => cases h
  | absent | waiting | handling | addr | acking => rfl

/-- **Everything a step of `cm_thread` can do** to the event in hand and to `sem_connect`:
go on with the event, acknowledge it, give it up, or go on to the exit. -/
inductive File.CmStepped (s : File) (ok : Bool) (t : File) : Prop
  | advanced (hand : s.cm.inHand = true) (busy : s.cm ≠ .acking) (fails : s.cm.fails ok = false)
      (cm : t.cm.inHand = true) (unacked : t.unacked = s.unacked)
  | acked (acking : s.cm = .acking) (cm : t.cm = .waiting) (unacked : t.unacked = s.unacked - 1)
  | gaveUp (hand : s.cm.inHand = true) (fails : s.cm.fails ok = true)
      (cm : t.cm.failing = true) (unacked : t.unacked = s.unacked)
      (woken : t.cm.gone = true → s.cm.onRoute = true ∧ t.semConnect = s.semConnect ∨
        0 < t.semConnect)
  | ended (failing : s.cm.failing = true) (cm : t.cm.failing = true ∨ t.cm = .exited)
      (unacked : t.unacked = s.unacked)
      (woken : t.cm.gone = true → s.cm.gone = true ∧ t.semConnect = s.semConnect ∨
        0 < t.semConnect)

variable {s t : File} {ok : Bool}

/-- A step of `cm_thread` leaves the application's thread where it is. -/
theorem File.cmStep_stepped (h : s.cmStep ok = some t) :
    s.CmStepped ok t ∧ t.main = s.main ∧ t.cancelled = s.cancelled := by
  unfold File.cmStep at h
  cases hcm : s.cm with
  | absent | waiting | exited => simp [hcm] at h
  | acking =>
      simp only [hcm, Option.some.injEq] at h
      subst h
      exact ⟨.acked hcm rfl rfl, rfl, rfl⟩
  | exiting =>
      simp only [hcm, Option.some.injEq] at h
      subst h
      refine ⟨.ended (by rw [hcm]; rfl) (.inr rfl) rfl fun _ => .inl ⟨?_, rfl⟩, rfl, rfl⟩
      rw [hcm]
      rfl
  | handling ev =>
      simp only [hcm, Option.some.injEq] at h
      subst h
      cases ev
      case addrResolved | routeResolved | established =>
          exact ⟨.advanced (by rw [hcm]; rfl) (by simp [hcm]) (by rw [hcm]; rfl) rfl rfl, rfl, rfl⟩
      all_goals
        refine ⟨.gaveUp (by rw [hcm]; rfl) (by rw [hcm]; rfl) rfl rfl fun _ => .inr ?_, rfl, rfl⟩
        exact Nat.succ_pos _
  | route p =>
      simp only [hcm, Option.some.injEq] at h
      subst h
      cases p <;> cases ok
      case createQp.true | connect.true =>
          exact ⟨.advanced (by rw [hcm]; rfl) (by simp [hcm]) (by rw [hcm]; rfl) rfl rfl, rfl, rfl⟩
      case createQp.false | connect.false =>
          refine ⟨.gaveUp (by rw [hcm]; rfl) (by rw [hcm]; rfl) rfl rfl fun _ => .inl ⟨?_, rfl⟩,
            rfl, rfl⟩
          rw [hcm]
          rfl
      all_goals
        refine ⟨.ended (by rw [hcm]; rfl) (.inl rfl) rfl fun _ => .inl ⟨?_, rfl⟩, rfl, rfl⟩
        rw [hcm]
        rfl
  | addr p =>
      simp only [hcm, Option.some.injEq] at h
      subst h
      cases p <;> cases ok
      case error.false | error.true =>
          refine ⟨.ended (by rw [hcm]; rfl) (.inl rfl) rfl fun _ => .inr ?_, rfl, rfl⟩
          exact Nat.succ_pos _
      case cqError.false | cqError.true | compError.false | compError.true | sendMrError.false
          | sendMrError.true | recvMrError.false | recvMrError.true | pdError.false
          | pdError.true =>
          exact ⟨.ended (by rw [hcm]; rfl) (.inl rfl) rfl (by rintro ⟨⟩), rfl, rfl⟩
      case resolveRoute.false | allocPd.false | regRsp.false | regReq.false
          | createCompChannel.false | createCq.false | reqNotify.false =>
          exact ⟨.gaveUp (by rw [hcm]; rfl) (by rw [hcm]; rfl) rfl rfl (by rintro ⟨⟩), rfl, rfl⟩
      all_goals
        exact ⟨.advanced (by rw [hcm]; rfl) (by simp [hcm]) (by rw [hcm]; rfl) rfl rfl, rfl, rfl⟩

/-- `rpmem_open` is giving up, or `rpmem_close` is under way. -/
def MainPc.ending : MainPc → Bool
  | .destroyThread | .destroyId | .destroyEventChannel | .destroyRfile | .failed => true
  | .closing _ | .closed => true
  | _ => false

/-- What the application's thread does to the rest of the file. -/
structure File.MainStepped (s : File) (ok : Bool) (t : File) : Prop where
  unacked : t.unacked = s.unacked
  cm : t.cm = s.cm ∨ (s.main.early = true ∧ t.main.early = false) ∧ t.cm = .waiting
  early : t.main.early = true → s.main.early = true
  waits : t.main = .waitConnect →
    s.main = .resolveAddr ∧ ok = true ∧ t.cm = s.cm ∧ t.semConnect = s.semConnect
  cancelled : t.cancelled = true → s.cancelled = true ∨ t.main.ending = true
  ending : s.main.ending = true → t.main.ending = true
  past : t.main.past = true →
    s.main.past = true ∨ s.main = .checkState ∧ s.state = .established

/-- The application's thread goes from one place to another, whatever it acquires or
releases there. -/
theorem File.MainStepped.goto {m : MainPc} {b : Book Obj}
    (early : m.early = true → s.main.early = true) (waits : m ≠ .waitConnect)
    (ending : s.main.ending = true → m.ending = true) (past : m.past = true → s.main.past = true) :
    s.MainStepped ok { s with main := m, book := b } where
  unacked := rfl
  cm := .inl rfl
  early := early
  waits hm := absurd hm waits
  cancelled := .inl
  ending := ending
  past hm := .inl (past hm)

theorem File.rpmemClose_stepped {p : ClosePc} (hm : s.main = .closing p)
    (h : s.rpmemClose p = some t) : s.MainStepped ok t := by
  have hend : s.main.ending = true := by rw [hm]; rfl
  have hpast : s.main.past = true := by rw [hm]; rfl
  cases p with
  | cancelCm =>
      obtain rfl := Option.some.inj h
      exact ⟨rfl, .inl rfl, by rintro ⟨⟩, by rintro ⟨⟩, fun _ => .inr rfl, fun _ => rfl,
        fun _ => .inl hpast⟩
  | destroyId =>
      obtain ⟨-, h⟩ := Option.ite_none_right_eq_some.1 h
      obtain rfl := Option.some.inj h
      exact .goto (by rintro ⟨⟩) (by rintro ⟨⟩) (fun _ => rfl) fun _ => hpast
  | destroyQp | destroyEventChannel | cancelCq | destroyCq | destroyCompChannel | deallocPd
  | destroyRfile =>
      obtain rfl := Option.some.inj h
      exact .goto (by rintro ⟨⟩) (by rintro ⟨⟩) (fun _ => rfl) fun _ => hpast

theorem File.mainStep_stepped (h : s.mainStep ok = some t) : s.MainStepped ok t := by
  unfold File.mainStep at h
  cases hm : s.main with
  | opened | failed | closed => simp [hm] at h
  | closing p =>
      simp only [hm] at h
      exact File.rpmemClose_stepped hm h
  | calloc | createEventChannel | createId =>
      simp only [hm, Option.some.injEq] at h
      subst h
      cases ok <;>
        exact .goto (fun _ => by rw [hm]; rfl) (by rintro ⟨⟩) (by rw [hm]; rintro ⟨⟩)
          (by rintro ⟨⟩)
  | createThread =>
      simp only [hm] at h
      split_ifs at h <;> obtain rfl := Option.some.inj h
      · exact ⟨rfl, .inr ⟨⟨by rw [hm]; rfl, rfl⟩, rfl⟩, fun _ => by rw [hm]; rfl, by rintro ⟨⟩, .inl,
          by rw [hm]; rintro ⟨⟩, by rintro ⟨⟩⟩
      · exact .goto (by rintro ⟨⟩) (by rintro ⟨⟩) (fun _ => rfl) (by rintro ⟨⟩)
  | resolveAddr =>
      simp only [hm] at h
      split_ifs at h with hok <;> obtain rfl := Option.some.inj h
      · exact ⟨rfl, .inl rfl, by rintro ⟨⟩, fun _ => ⟨hm, hok, rfl, rfl⟩, .inl,
          by rw [hm]; rintro ⟨⟩, by rintro ⟨⟩⟩
      · exact .goto (by rintro ⟨⟩) (by rintro ⟨⟩) (fun _ => rfl) (by rintro ⟨⟩)
  | waitConnect =>
      simp only [hm] at h
      split_ifs at h
      obtain rfl := Option.some.inj h
      exact ⟨rfl, .inl rfl, by rintro ⟨⟩, by rintro ⟨⟩, .inl, by rw [hm]; rintro ⟨⟩, by rintro ⟨⟩⟩
  | checkState =>
      simp only [hm] at h
      split_ifs at h with hlock hstate <;> obtain rfl := Option.some.inj h
      · exact ⟨rfl, .inl rfl, by rintro ⟨⟩, by rintro ⟨⟩, .inl, by rw [hm]; rintro ⟨⟩,
          fun _ => .inr ⟨hm, hstate⟩⟩
      · exact .goto (by rintro ⟨⟩) (by rintro ⟨⟩) (fun _ => rfl) (by rintro ⟨⟩)
  | postRecv | postSend | waitOpen =>
      simp only [hm, Option.some.injEq] at h
      subst h
      cases ok <;>
        exact .goto (by rintro ⟨⟩) (by rintro ⟨⟩) (by rw [hm]; rintro ⟨⟩)
          fun _ => by rw [hm]; rfl
  | destroyThread =>
      simp only [hm, Option.some.injEq] at h
      subst h
      exact ⟨rfl, .inl rfl, by rintro ⟨⟩, by rintro ⟨⟩, fun _ => .inr rfl, fun _ => rfl,
        by rintro ⟨⟩⟩
  | destroyId =>
      simp only [hm] at h
      split_ifs at h
      obtain rfl := Option.some.inj h
      exact .goto (by rintro ⟨⟩) (by rintro ⟨⟩) (fun _ => rfl) (by rintro ⟨⟩)
  | destroyEventChannel | destroyRfile =>
      simp only [hm, Option.some.injEq] at h
      subst h
      exact .goto (by rintro ⟨⟩) (by rintro ⟨⟩) (fun _ => rfl) (by rintro ⟨⟩)

/-! ### Waking `rpmem_open` -/

/-- `rpmem_open` sleeps on `sem_connect`, and the thread that would post it is gone. -/
structure File.Stranded (s : File) : Prop where
  main : s.main = .waitConnect
  sem : s.semConnect = 0
  cm : s.cm = .exited

/-- The condition under which `rpmem_open` is woken.  While it waits for a semaphore that
has not been posted, neither `rdma_get_cm_event` fails nor a call of
`rpmem_route_handler`; and it does not begin to wait after that has happened. -/
def Wakes (s : File) : FileLabel → Prop
  | .main ok => s.main = .resolveAddr → ok = true → s.cm.gone = true → 0 < s.semConnect
  | .cm ok => s.main = .waitConnect → s.cm.onRoute = true → s.cm.fails ok = true → 0 < s.semConnect
  | .getEventFails => s.main = .waitConnect → 0 < s.semConnect
  | _ => True

instance (s : File) : (a : FileLabel) → Decidable (Wakes s a)
  | .main _ | .cm _ => inferInstanceAs (Decidable (_ → _ → _ → _))
  | .getEventFails => inferInstanceAs (Decidable (_ → _))
  | .map _ | .unmap | .close | .getEvent _ | .cmCancelled | .cqExit => isTrue trivial

/-- Where `cm_thread` can no longer post, it has posted; and it is cancelled only when
nobody waits any more. -/
structure File.WakeInv (s : File) : Prop where
  cancelled : s.cancelled = true → s.main.ending = true
  woken : s.main = .waitConnect → s.cm.gone = true → 0 < s.semConnect

theorem File.WakeInv.initial : File.initial.WakeInv := ⟨by rintro ⟨⟩, by rintro ⟨⟩⟩

theorem File.WakeInv.mainStep (h : s.WakeInv) (hok : Wakes s (.main ok))
    (hs : s.mainStep ok = some t) : t.WakeInv := by
  have hmain := File.mainStep_stepped hs
  refine ⟨fun hc => ?_, fun hm hg => ?_⟩
  · rcases hmain.cancelled hc with hc | hend
    · exact hmain.ending (h.cancelled hc)
    · exact hend
  · obtain ⟨hres, hyes, hcm, hsem⟩ := hmain.waits hm
    rw [hsem]
    exact hok hres hyes (hcm ▸ hg)

theorem File.WakeInv.cmStep (h : s.WakeInv) (hok : Wakes s (.cm ok))
    (hs : s.cmStep ok = some t) : t.WakeInv := by
  obtain ⟨hcm, hmain, hcancel⟩ := File.cmStep_stepped hs
  refine ⟨fun hc => ?_, fun hm hg => ?_⟩
  · rw [hmain]
    exact h.cancelled (hcancel ▸ hc)
  rw [hmain] at hm
  cases hcm with
  | advanced _ _ _ cm =>
      exact absurd (CmPc.gone_of_inHand cm ▸ hg) Bool.false_ne_true
  | acked _ cm =>
      rw [cm] at hg
      cases hg
  | gaveUp _ fails _ _ woken =>
      rcases woken hg with ⟨hroute, hsem⟩ | hpos
      · rw [hsem]
        exact hok hm hroute fails
      · exact hpos
  | ended _ _ _ woken =>
      rcases woken hg with ⟨hgone, hsem⟩ | hpos
      · rw [hsem]
        exact h.woken hm hgone
      · exact hpos

/-- Every allowed step keeps the debt paid. -/
theorem File.WakeInv.step {a : FileLabel} (h : s.WakeInv) (hok : Wakes s a)
    (hs : fileStep s a = some t) : t.WakeInv := by
  cases fileStep_cases hs with
  | main ok _ hs => exact h.mainStep hok hs
  | cm ok _ hs => exact h.cmStep hok hs
  | mapped o => cases o <;> exact ⟨h.cancelled, h.woken⟩
  | unmapped | cqExited => exact ⟨h.cancelled, h.woken⟩
  | closed => exact ⟨fun _ => rfl, by rintro ⟨⟩⟩
  | gotEvent => exact ⟨h.cancelled, by rintro - ⟨⟩⟩
  | getEventFailed => exact ⟨h.cancelled, fun hm _ => hok hm⟩
  | cancelled hc =>
      refine ⟨h.cancelled, fun hm _ => ?_⟩
      -- a thread that was cancelled has nobody waiting for it
      have hcancelled : s.cancelled = true := by
        unfold File.cancellable at hc
        split at hc
        · cases hc
        · cases hc
        · cases hc
        · exact hc
      have hend := h.cancelled hcancelled
      rw [show s.main = .waitConnect from hm] at hend
      cases hend

/-- A thread that can no longer post the semaphore goes on to its exit. -/
theorem File.strands_of_gone (hm : s.main = .waitConnect) (hsem : s.semConnect = 0)
    (hg : s.cm.gone = true) : ∃ l u, Run fileStep anyLabel s l u ∧ u.Stranded := by
  have hexit : ∀ {s : File}, s.main = .waitConnect → s.semConnect = 0 → s.cm = .exiting →
      Run fileStep anyLabel s [.cm true] s.cmExit ∧ s.cmExit.Stranded := by
    intro s hm hsem hcm
    have hs : fileStep s (.cm true) = some s.cmExit := by simp [fileStep, File.cmStep, hcm]
    exact ⟨.cons trivial hs (.nil _), ⟨hm, hsem, rfl⟩⟩
  cases hcm : s.cm with
  | exited => exact ⟨[], s, .nil s, ⟨hm, hsem, hcm⟩⟩
  | exiting => exact ⟨_, _, hexit hm hsem hcm⟩
  | route p =>
      cases p with
      | createQp | connect =>
          rw [hcm] at hg
          cases hg
      | destroyQp =>
          have hs : fileStep s (.cm true) = some (s.cmRelease .qp .exiting) := by
            simp [fileStep, File.cmStep, hcm, File.rpmemRouteHandler]
          obtain ⟨hrun, hend⟩ := hexit (s := s.cmRelease .qp .exiting) hm hsem rfl
          exact ⟨_, _, .cons trivial hs hrun, hend⟩
  | absent | waiting | handling | addr | acking =>
      rw [hcm] at hg
      cases hg

/-- **The condition is exact.**  After a step that is not allowed, `cm_thread` by itself
goes to its exit and leaves `rpmem_open` asleep. -/
theorem File.strands_of_not_wakes {a : FileLabel} (hno : ¬ Wakes s a)
    (hs : fileStep s a = some t) : ∃ l u, Run fileStep anyLabel t l u ∧ u.Stranded := by
  cases a with
  | main ok =>
      simp only [Wakes, not_forall, Nat.not_lt, Nat.le_zero] at hno
      obtain ⟨hm, rfl, hg, hsem⟩ := hno
      have ht : t = { s with phase := .addr, main := .waitConnect } := by
        simpa [fileStep, File.mainStep, hm] using hs.symm
      subst ht
      exact File.strands_of_gone rfl hsem hg
  | cm ok =>
      simp only [Wakes, not_forall, Nat.not_lt, Nat.le_zero] at hno
      obtain ⟨hm, hroute, hfails, hsem⟩ := hno
      cases hcm : s.cm with
      | route p =>
          cases p with
          | createQp | connect =>
              have hok : ok = false := by simpa [hcm, CmPc.fails] using hfails
              subst hok
              simp only [fileStep, File.cmStep, hcm, Option.some.injEq] at hs
              subst hs
              exact File.strands_of_gone hm hsem rfl
          | destroyQp =>
              rw [hcm] at hfails
              cases hfails
      | absent | waiting | handling | addr | acking | exiting | exited =>
          rw [hcm] at hroute
          cases hroute
  | getEventFails =>
      simp only [Wakes, not_forall, Nat.not_lt, Nat.le_zero] at hno
      obtain ⟨hm, hsem⟩ := hno
      obtain ⟨-, ⟨⟩⟩ := Option.ite_none_right_eq_some.1 hs
      exact ⟨[], _, .nil _, ⟨hm, hsem, rfl⟩⟩
  | map | unmap | close | getEvent | cmCancelled | cqExit => exact absurd trivial hno

/-- It sleeps for good. -/
theorem File.Stranded.step {a : FileLabel} (h : s.Stranded) (hs : fileStep s a = some t) :
    t.Stranded := by
  cases a with
  | cqExit =>
      obtain ⟨-, ⟨⟩⟩ := Option.ite_none_right_eq_some.1 hs
      exact ⟨h.main, h.sem, h.cm⟩
  | main | map | unmap | close => simp [fileStep, File.mainStep, h.main, h.sem] at hs
  | getEvent | getEventFails | cm | cmCancelled =>
      simp [fileStep, File.cmStep, File.cancellable, h.cm] at hs

/-- What `rpmem_open` read of `state` when it was woken. -/
def noteRead (s : File) (a : FileLabel) (_ : File) (read : Option FileState) : Option FileState :=
  match a with
  | .main _ => if s.main = .checkState then some s.state else read
  | _ => read

/-- Past its check, `rpmem_open` has read `ESTABLISHED`. -/
theorem read_of_past {a : FileLabel} {read : Option FileState}
    (h : s.main.past = true → read = some .established) (hs : fileStep s a = some t) :
    t.main.past = true → noteRead s a t read = some .established := by
  intro hp
  cases fileStep_cases hs with
  | main ok _ hs =>
      rcases (File.mainStep_stepped hs).past hp with hpast | ⟨hm, hstate⟩
      · have hne : s.main ≠ .checkState := by
          intro hm
          rw [hm] at hpast
          cases hpast
        exact (if_neg hne).trans (h hpast)
      · exact (if_pos hm).trans (congrArg some hstate)
  | cm ok _ hs => exact h ((File.cmStep_stepped hs).2.1 ▸ hp)
  | mapped _ hm | unmapped hm | closed hm => exact h (by rw [hm]; rfl)
  | gotEvent | getEventFailed | cancelled | cqExited => exact h hp

/-- **When connecting wakes `rpmem_open`.**  For every sequence of events and every outcome
of the calls: in a run that keeps to `Wakes`, `rpmem_open` never sleeps on `sem_connect`
behind a `cm_thread` that is gone; and in every run, an `rpmem_open` that has gone on after
it was woken has read `ESTABLISHED`. -/
theorem connecting_wakes_open (p : File × Option FileState) :
    (Reachable (noted fileStep noteRead) (fun p a => Wakes p.1 a)
      (· = (File.initial, none)) p → ¬ p.1.Stranded) ∧
    (Reachable (noted fileStep noteRead) anyLabel (· = (File.initial, none)) p →
      p.1.main.past = true → p.2 = some .established) := by
  refine ⟨fun h => ?_, fun h => ?_⟩
  · have hinv : p.1.WakeInv := by
      refine h.invariant (I := fun p => p.1.WakeInv) ?_ fun p a q hp hok hs => ?_
      · rintro _ rfl
        exact .initial
      · exact hp.step hok (noted_eq_some hs).1
    intro hst
    have hpos := hinv.woken hst.main (by rw [hst.cm]; rfl)
    rw [hst.sem] at hpos
    exact absurd hpos (lt_irrefl 0)
  · refine h.invariant (I := fun p => p.1.main.past = true → p.2 = some .established) ?_
      fun p a q hp _ hs => ?_
    · rintro _ rfl ⟨⟩
    · obtain ⟨he, hnote⟩ := noted_eq_some hs
      rw [hnote]
      exact read_of_past hp he

/-- The address and the route have been resolved, and the server rejects the connection. -/
def rejected : List FileLabel :=
  List.replicate 5 (.main true) ++ .getEvent .addrResolved :: List.replicate 10 (.cm true) ++
    .getEvent .routeResolved :: List.replicate 4 (.cm true) ++
    .getEvent .rejected :: List.replicate 2 (.cm true)

/-- A rejected connection wakes `rpmem_open` from a thread that is gone; an established one
lets it go on. -/
theorem connecting_wakes_open_rejected :
    (∃ p : File × Option FileState,
      Reachable (noted fileStep noteRead) (fun p a => Wakes p.1 a) (· = (File.initial, none)) p ∧
      (p.1.main = .waitConnect ∧ p.1.cm = .exited) ∧ ¬ p.1.Stranded) ∧
    ∃ p : File × Option FileState,
      Reachable (noted fileStep noteRead) anyLabel (· = (File.initial, none)) p ∧
      p.1.main = .opened ∧ p.2 = some .established := by
  obtain ⟨p, hp, hpm⟩ := exists_reachable_of_exec (noted fileStep noteRead)
    (fun p a => Wakes p.1 a) (· = (File.initial, none)) rfl rejected
    (fun p => decide (p.1.main = .waitConnect ∧ p.1.cm = .exited)) (by decide)
  obtain ⟨q, hq, hqm⟩ := exists_reachable_of_exec (noted fileStep noteRead) anyLabel
    (· = (File.initial, none)) rfl (connecting ++ List.replicate 5 (.main true))
    (fun p => decide (p.1.main = .opened)) (by decide)
  have hopened : q.1.main = .opened := of_decide_eq_true hqm
  refine ⟨⟨p, hp, of_decide_eq_true hpm, (connecting_wakes_open p).1 hp⟩, q, hq, hopened, ?_⟩
  exact (connecting_wakes_open q).2 hq (by rw [hopened]; rfl)

/-- **`rdma_create_qp` fails, and `rpmem_open` sleeps for good.**  The events are in order;
`rpmem_route_handler` returns without a post, `cm_thread` ends, and whatever happens
afterwards `rpmem_open` does not return. -/
theorem failed_route_strands_open :
    ∃ p : File × Option FileState,
      Reachable (noted fileStep noteRead) (fun p a => EventsInOrder p.1 a)
        (· = (File.initial, none)) p ∧
      p.1.Stranded ∧ ∀ l t, Run fileStep anyLabel p.1 l t → t.Stranded := by
  obtain ⟨p, hp, hpm⟩ := exists_reachable_of_exec (noted fileStep noteRead)
    (fun p a => EventsInOrder p.1 a) (· = (File.initial, none)) rfl
    (List.replicate 5 (.main true) ++ .getEvent .addrResolved :: List.replicate 10 (.cm true) ++
      [.getEvent .routeResolved, .cm true, .cm false, .cm true])
    (fun p => decide (p.1.main = .waitConnect ∧ p.1.semConnect = 0 ∧ p.1.cm = .exited)) (by decide)
  obtain ⟨hm, hsem, hcm⟩ := of_decide_eq_true hpm
  have hst : p.1.Stranded := ⟨hm, hsem, hcm⟩
  refine ⟨p, hp, hst, fun l t hrun => ?_⟩
  exact hrun.invariant (I := File.Stranded) (fun _ _ _ h _ hs => h.step hs) hst

/-! ### Acknowledging events -/

/-- The events `rdma_get_cm_event` has returned, and the numbers of those passed to
`rdma_ack_cm_event`, in the order of the calls. -/
structure EventLog where
  got : List CmEvent
  acks : List ℕ
  deriving DecidableEq, Repr

/-- Keep the log; `cm_thread` acknowledges the event it got last. -/
def noteEvent (s : File) (a : FileLabel) (_ : File) (g : EventLog) : EventLog :=
  match a with
  | .getEvent ev => { g with got := g.got ++ [ev] }
  | .cm _ => if s.cm = .acking then { g with acks := g.acks ++ [g.got.length - 1] } else g
  | _ => g

/-- Every event has been acknowledged exactly once, and nothing else has. -/
def EventLog.AllAcked (g : EventLog) : Prop :=
  ∀ i, g.acks.count i = if i < g.got.length then 1 else 0

/-- `cm_thread` has no event. -/
def CmPc.idle : CmPc → Bool
  | .absent | .waiting | .exited => true
  | _ => false

/-- When `cm_thread` has exited, every event has been acknowledged exactly once; and at
`rdma_destroy_id`, in `rpmem_open` or in `rpmem_close`, no event is left to wait for
unless `cm_thread` still has it. -/
structure File.Acknowledged (s : File) (g : EventLog) : Prop where
  exited : s.cm = .exited → g.AllAcked
  destroyed : s.main = .destroyId ∨ s.main = .closing .destroyId → s.cm.idle = true →
    g.AllAcked ∧ s.unacked = 0

/-- The condition under which `cm_thread` acknowledges its events: `rpmem_cma_handler`
returns no error, and a cancellation finds the thread in `rdma_get_cm_event`. -/
def Acknowledges (s : File) : FileLabel → Prop
  | .cm ok => s.cm.fails ok = false
  | .cmCancelled => s.cm = .waiting
  | _ => True

instance (s : File) : (a : FileLabel) → Decidable (Acknowledges s a)
  | .cm _ => inferInstanceAs (Decidable (_ = _))
  | .cmCancelled => inferInstanceAs (Decidable (_ = _))
  | .main _ | .map _ | .unmap | .close | .getEvent _ | .getEventFails | .cqExit => isTrue trivial

/-- All events but the last `n` have been acknowledged, in order. -/
structure File.Owes (s : File) (g : EventLog) (n : ℕ) : Prop where
  got : n ≤ g.got.length
  acks : g.acks = List.range (g.got.length - n)
  unacked : s.unacked = n

/-- The event in hand is the one that is owed. -/
structure File.AckInv (s : File) (g : EventLog) : Prop where
  early : s.main.early = true → s.cm = .absent
  owes : s.cm.idle = true ∧ s.Owes g 0 ∨ s.cm.inHand = true ∧ s.Owes g 1

/-- The last event will not be acknowledged. -/
structure File.Dropped (s : File) (g : EventLog) : Prop where
  early : s.main.early = false
  cm : s.cm.failing = true ∨ s.cm = .exited
  owes : s.Owes g 1

variable {g : EventLog}

theorem CmPc.idle_of_inHand {cm : CmPc} (h : cm.inHand = true) : cm.idle = false := by
  cases cm with
  | absent | waiting | exited => cases h
  | handling | addr | route | acking | exiting => rfl

theorem CmPc.idle_of_failing {cm : CmPc} (h : cm.failing = true) : cm.idle = false := by
  cases cm with
  | absent | waiting | exited => cases h
  | handling | addr | route | acking | exiting => rfl

theorem File.Owes.congr {n : ℕ} (h : s.Owes g n) (hu : t.unacked = s.unacked) : t.Owes g n :=
  ⟨h.got, h.acks, hu.trans h.unacked⟩

theorem File.Owes.allAcked (h : s.Owes g 0) : g.AllAcked := by
  intro i
  rw [h.acks, Nat.sub_zero, List.count_range]

/-- The event that is owed has not been acknowledged. -/
theorem File.Owes.not_allAcked (h : s.Owes g 1) : ¬ g.AllAcked := by
  intro hall
  have hlen := h.got
  have hlast := hall (g.got.length - 1)
  rw [h.acks, List.count_range, if_neg (lt_irrefl _), if_pos (by omega)] at hlast
  cases hlast

/-- `cm_thread` with an event owes it. -/
theorem File.AckInv.of_inHand (h : s.AckInv g) (hcm : s.cm.inHand = true) : s.Owes g 1 := by
  rcases h.owes with ⟨hidle, -⟩ | ⟨-, howes⟩
  · exact absurd (CmPc.idle_of_inHand hcm ▸ hidle) Bool.false_ne_true
  · exact howes

theorem File.AckInv.of_idle (h : s.AckInv g) (hcm : s.cm.idle = true) : s.Owes g 0 := by
  rcases h.owes with ⟨-, howes⟩ | ⟨hhand, -⟩
  · exact howes
  · exact absurd (CmPc.idle_of_inHand hhand ▸ hcm) Bool.false_ne_true

theorem File.AckInv.failing (h : s.AckInv g) : s.cm.failing = false := by
  rcases h.owes with ⟨hidle, -⟩ | ⟨hhand, -⟩
  · rw [Bool.eq_false_iff]
    intro hf
    exact absurd (CmPc.idle_of_failing hf ▸ hidle) Bool.false_ne_true
  · exact CmPc.failing_of_inHand hhand

theorem File.AckInv.initial : File.initial.AckInv ⟨[], []⟩ :=
  ⟨fun _ => rfl, .inl ⟨rfl, ⟨le_rfl, rfl, rfl⟩⟩⟩

/-- A step that has nothing to do with events. -/
theorem File.AckInv.congr (h : s.AckInv g) (hcm : t.cm = s.cm) (hu : t.unacked = s.unacked)
    (he : t.main.early = true → s.main.early = true) : t.AckInv g := by
  refine ⟨fun ht => hcm.trans (h.early (he ht)), ?_⟩
  rw [hcm]
  exact h.owes.imp (.imp_right (.congr · hu)) (.imp_right (.congr · hu))

/-- `cm_thread` runs only once it has been started. -/
theorem File.AckInv.started (h : s.AckInv g) (hcm : s.cm ≠ .absent) : s.main.early = false :=
  Bool.eq_false_iff.2 fun he => hcm (h.early he)

/-- The application's thread leaves the events alone. -/
theorem File.AckInv.mainStep (h : s.AckInv g) (hs : s.mainStep ok = some t) : t.AckInv g := by
  have hmain := File.mainStep_stepped hs
  rcases hmain.cm with hcm | ⟨⟨he, hlate⟩, hcm⟩
  · exact h.congr hcm hmain.unacked hmain.early
  · have hidle : s.cm.idle = true := by rw [h.early he]; rfl
    refine ⟨fun he' => absurd (hlate.symm.trans he') Bool.false_ne_true, .inl ⟨?_, ?_⟩⟩
    · rw [hcm]
      rfl
    · exact (h.of_idle hidle).congr hmain.unacked

/-- `cm_thread` goes on, or acknowledges the event it has. -/
theorem File.AckInv.cmStep (h : s.AckInv g) (hok : Acknowledges s (.cm ok))
    (hs : s.cmStep ok = some t) : t.AckInv (noteEvent s (.cm ok) t g) := by
  have hne : s.cm ≠ .absent := by
    intro hcm
    simp [File.cmStep, hcm] at hs
  obtain ⟨hcm, hmain, -⟩ := File.cmStep_stepped hs
  have hearly : t.main.early = true → t.cm = .absent := by
    intro he
    rw [hmain, h.started hne] at he
    cases he
  refine ⟨hearly, ?_⟩
  cases hcm with
  | advanced hand busy _ cm unacked =>
      rw [noteEvent, if_neg busy]
      exact .inr ⟨cm, (h.of_inHand hand).congr unacked⟩
  | acked acking cm unacked =>
      obtain ⟨hgot, hacks, hun⟩ := h.of_inHand (by rw [acking]; rfl)
      rw [noteEvent, if_pos acking]
      refine .inl ⟨by rw [cm]; rfl, Nat.zero_le _, ?_, ?_⟩
      · simp only [hacks, Nat.sub_zero]
        rw [← List.range_succ, Nat.succ_eq_add_one, Nat.sub_add_cancel hgot]
      · rw [unacked, hun]
  | gaveUp _ fails => exact absurd (hok.symm.trans fails) Bool.false_ne_true
  | ended failing => exact absurd (h.failing.symm.trans failing) Bool.false_ne_true

/-- Every allowed step keeps the debt at the event in hand. -/
theorem File.AckInv.step {a : FileLabel} (h : s.AckInv g) (hok : Acknowledges s a)
    (hs : fileStep s a = some t) : t.AckInv (noteEvent s a t g) := by
  have hexit : s.cm = .waiting → s.cmExit.AckInv g := by
    intro hcm
    refine ⟨fun he => ?_, .inl ⟨rfl, (h.of_idle (by rw [hcm]; rfl)).congr rfl⟩⟩
    exact absurd ((h.started (by simp [hcm])).symm.trans he) Bool.false_ne_true
  cases fileStep_cases hs with
  | main ok _ hs => exact h.mainStep hs
  | cm ok _ hs => exact h.cmStep hok hs
  | mapped o => cases o <;> exact h.congr rfl rfl id
  | unmapped | cqExited => exact h.congr rfl rfl id
  | closed => exact h.congr rfl rfl (by rintro ⟨⟩)
  | gotEvent ev hcm =>
      obtain ⟨-, hacks, hun⟩ := h.of_idle (by rw [hcm]; rfl)
      refine ⟨fun he => ?_, .inr ⟨rfl, ?_, ?_, ?_⟩⟩
      · exact absurd ((h.started (by simp [hcm])).symm.trans he) Bool.false_ne_true
      · simp [noteEvent]
      · simpa [noteEvent] using hacks
      · simp [hun]
  | getEventFailed hcm => exact hexit hcm
  | cancelled => exact hexit hok

/-- A step that is not allowed drops the event in hand. -/
theorem File.AckInv.drop {a : FileLabel} (h : s.AckInv g) (hno : ¬ Acknowledges s a)
    (hs : fileStep s a = some t) : t.Dropped (noteEvent s a t g) := by
  cases a with
  | cm ok =>
      have hfails : s.cm.fails ok = true := by simpa [Acknowledges] using hno
      have hne : s.cm ≠ .acking := by
        intro hcm
        rw [hcm] at hfails
        cases hfails
      rw [noteEvent, if_neg hne]
      obtain ⟨hcm, hmain, -⟩ := File.cmStep_stepped hs
      cases hcm with
      | advanced _ _ fails => exact absurd (fails.symm.trans hfails) Bool.false_ne_true
      | acked acking => exact absurd acking hne
      | gaveUp hand _ cm unacked =>
          refine ⟨?_, .inl cm, (h.of_inHand hand).congr unacked⟩
          rw [hmain]
          refine h.started fun hcm => ?_
          rw [hcm] at hand
          cases hand
      | ended failing => exact absurd (h.failing.symm.trans failing) Bool.false_ne_true
  | cmCancelled =>
      have hwait : s.cm ≠ .waiting := hno
      obtain ⟨hc, ⟨⟩⟩ := Option.ite_none_right_eq_some.1 hs
      have hne : s.cm ≠ .absent ∧ s.cm ≠ .exited := by
        constructor <;>
          · intro hcm
            simp [File.cancellable, hcm] at hc
      refine ⟨h.started hne.1, .inr rfl, ?_⟩
      rcases h.owes with ⟨hidle, -⟩ | ⟨-, howes⟩
      · cases hcm : s.cm <;> simp [hcm, CmPc.idle] at hidle hne hwait
      · exact howes.congr rfl
  | main | map | unmap | close | getEvent | getEventFails | cqExit => exact absurd trivial hno

/-- A dropped event stays so. -/
theorem File.Dropped.step {a : FileLabel} (h : s.Dropped g) (hs : fileStep s a = some t) :
    t.Dropped (noteEvent s a t g) := by
  have hwait : s.cm ≠ .waiting := by
    intro hcm
    have := h.cm
    simp [hcm, CmPc.failing] at this
  cases fileStep_cases hs with
  | main ok _ hs =>
      have hmain := File.mainStep_stepped hs
      have hearly : t.main.early = false :=
        Bool.eq_false_iff.2 fun he => Bool.false_ne_true (h.early.symm.trans (hmain.early he))
      rcases hmain.cm with hcm | ⟨⟨he, -⟩, -⟩
      · exact ⟨hearly, hcm ▸ h.cm, h.owes.congr hmain.unacked⟩
      · exact absurd (h.early.symm.trans he) Bool.false_ne_true
  | cm ok _ hs =>
      have hfailing : s.cm.failing = true := by
        refine h.cm.resolve_right fun hcm => ?_
        simp [File.cmStep, hcm] at hs
      have hne : s.cm ≠ .acking := by
        intro hcm
        rw [hcm] at hfailing
        cases hfailing
      rw [noteEvent, if_neg hne]
      obtain ⟨hcm, hmain, -⟩ := File.cmStep_stepped hs
      cases hcm with
      | advanced hand | gaveUp hand =>
          exact absurd ((CmPc.failing_of_inHand hand).symm.trans hfailing) Bool.false_ne_true
      | acked acking => exact absurd acking hne
      | ended _ cm unacked => exact ⟨hmain ▸ h.early, cm, h.owes.congr unacked⟩
  | mapped o => cases o <;> exact ⟨h.early, h.cm, h.owes.congr rfl⟩
  | unmapped | cqExited => exact ⟨h.early, h.cm, h.owes.congr rfl⟩
  | closed => exact ⟨rfl, h.cm, h.owes.congr rfl⟩
  | gotEvent _ hcm | getEventFailed hcm => exact absurd hcm hwait
  | cancelled => exact ⟨h.early, .inr rfl, h.owes.congr rfl⟩

variable {p q r : File × EventLog}

/-- **When every event is acknowledged.**  For every sequence of events and every outcome of
the calls, in a run that keeps to `Acknowledges`: when `cm_thread` exits it has
acknowledged each event it got exactly once, and `rdma_destroy_id` finds none left. -/
theorem every_event_acknowledged
    (h : Reachable (noted fileStep noteEvent) (fun p a => Acknowledges p.1 a)
      (· = (File.initial, ⟨[], []⟩)) p) : p.1.Acknowledged p.2 := by
  have hinv : p.1.AckInv p.2 := by
    refine h.invariant (I := fun p => p.1.AckInv p.2) ?_ fun p a q hp hok hs => ?_
    · rintro _ rfl
      exact .initial
    · obtain ⟨he, hnote⟩ := noted_eq_some hs
      rw [hnote]
      exact hp.step hok he
  refine ⟨fun hcm => ?_, fun _ hcm => ?_⟩
  · exact (hinv.of_idle (by rw [hcm]; rfl)).allAcked
  · have howes := hinv.of_idle hcm
    exact ⟨howes.allAcked, howes.unacked⟩

/-- In every run the event in hand is owed, or one has been dropped. -/
theorem ackInv_or_dropped
    (h : Reachable (noted fileStep noteEvent) anyLabel (· = (File.initial, ⟨[], []⟩)) p) :
    p.1.AckInv p.2 ∨ p.1.Dropped p.2 := by
  refine h.invariant (I := fun p => p.1.AckInv p.2 ∨ p.1.Dropped p.2) ?_ fun p a q hp _ hs => ?_
  · rintro _ rfl
    exact .inl .initial
  · obtain ⟨he, hnote⟩ := noted_eq_some hs
    rw [hnote]
    rcases hp with hp | hp
    · by_cases hok : Acknowledges p.1 a
      · exact .inl (hp.step hok he)
      · exact .inr (hp.drop hok he)
    · exact .inr (hp.step he)

/-- **The condition is exact.**  After a step that is not allowed, whatever comes next,
some event is never acknowledged. -/
theorem event_dropped_of_not_acknowledges
    (h : Reachable (noted fileStep noteEvent) anyLabel (· = (File.initial, ⟨[], []⟩)) p)
    {a : FileLabel} (hno : ¬ Acknowledges p.1 a) (hs : noted fileStep noteEvent p a = some q)
    {l : List FileLabel} (hrun : Run (noted fileStep noteEvent) anyLabel q l r) :
    ¬ r.2.AllAcked ∧ r.1.unacked = 1 := by
  obtain ⟨he, hnote⟩ := noted_eq_some hs
  have hq : q.1.Dropped q.2 := by
    rw [hnote]
    rcases ackInv_or_dropped h with hp | hp
    · exact hp.drop hno he
    · exact hp.step he
  have hr : r.1.Dropped r.2 := by
    refine hrun.invariant (I := fun p => p.1.Dropped p.2) (fun p a q hp _ hs => ?_) hq
    obtain ⟨he, hnote⟩ := noted_eq_some hs
    rw [hnote]
    exact hp.step he
  exact ⟨hr.owes.not_allAcked, hr.owes.unacked⟩

/-- The connection is established, `rpmem_post_recv` fails and `cm_thread` is cancelled while
it waits: three events, each acknowledged, and `rdma_destroy_id` goes on. -/
theorem every_event_acknowledged_postRecv :
    ∃ p : File × EventLog,
      Reachable (noted fileStep noteEvent) (fun p a => Acknowledges p.1 a)
        (· = (File.initial, ⟨[], []⟩)) p ∧
      (p.1.main = .destroyId ∧ p.1.cm = .exited ∧
        p.2.got = [.addrResolved, .routeResolved, .established]) ∧
      p.1.Acknowledged p.2 := by
  obtain ⟨p, hp, hpm⟩ := exists_reachable_of_exec (noted fileStep noteEvent)
    (fun p a => Acknowledges p.1 a) (· = (File.initial, ⟨[], []⟩)) rfl
    (connecting ++ [.main true, .main true, .main false, .main true, .cmCancelled])
    (fun p => decide (p.1.main = .destroyId ∧ p.1.cm = .exited ∧
      p.2.got = [.addrResolved, .routeResolved, .established])) (by decide)
  exact ⟨p, hp, of_decide_eq_true hpm, every_event_acknowledged hp⟩

/-- `rdma_destroy_id` waits for an event of a thread that is gone. -/
structure File.Hangs (s : File) : Prop where
  main : s.main = .destroyId
  cm : s.cm = .exited
  unacked : s.unacked ≠ 0

/-- It waits for good. -/
theorem File.Hangs.step {a : FileLabel} (h : s.Hangs) (hs : fileStep s a = some t) : t.Hangs := by
  cases a with
  | cqExit =>
      obtain ⟨-, ⟨⟩⟩ := Option.ite_none_right_eq_some.1 hs
      exact ⟨h.main, h.cm, h.unacked⟩
  | main | map | unmap | close => simp [fileStep, File.mainStep, h.main, h.unacked] at hs
  | getEvent | getEventFails | cm | cmCancelled =>
      simp [fileStep, File.cmStep, File.cancellable, h.cm] at hs

/-- **A rejected connection is never acknowledged.**  The events are in order; `cm_thread`
exits on `REJECTED` before `rdma_ack_cm_event`, `rpmem_open` is woken and gives up, and
`rdma_destroy_id` does not return. -/
theorem rejected_event_is_not_acknowledged :
    ∃ p : File × EventLog,
      Reachable (noted fileStep noteEvent) (fun p a => EventsInOrder p.1 a)
        (· = (File.initial, ⟨[], []⟩)) p ∧
      p.2 = ⟨[.addrResolved, .routeResolved, .rejected], [0, 1]⟩ ∧
      (p.1.main = .destroyId ∧ p.1.cm = .exited) ∧ ¬ p.1.Acknowledged p.2 ∧
      ∀ l t, Run fileStep anyLabel p.1 l t → t.main = .destroyId := by
  obtain ⟨p, hp, hpm⟩ := exists_reachable_of_exec (noted fileStep noteEvent)
    (fun p a => EventsInOrder p.1 a) (· = (File.initial, ⟨[], []⟩)) rfl
    (rejected ++ List.replicate 3 (.main true))
    (fun p => decide (p.2 = ⟨[.addrResolved, .routeResolved, .rejected], [0, 1]⟩ ∧
      p.1.main = .destroyId ∧ p.1.cm = .exited ∧ p.1.unacked ≠ 0)) (by decide)
  obtain ⟨hlog, hm, hcm, hun⟩ := of_decide_eq_true hpm
  refine ⟨p, hp, hlog, ⟨hm, hcm⟩, fun hack => ?_, fun l t hrun => ?_⟩
  · exact hun (hack.destroyed (.inl hm) (by rw [hcm]; rfl)).2
  · have hst : t.Hangs :=
      hrun.invariant (I := File.Hangs) (fun _ _ _ h _ hs => h.step hs) ⟨hm, hcm, hun⟩
    exact hst.main

end Rpmem
