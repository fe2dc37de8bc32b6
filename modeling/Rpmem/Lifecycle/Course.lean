/-
# How far a connection has come

The two threads of `rpmem_open` meet at `sem_connect` and at `state_mutex` only.  For the
runs whose connection-manager events are in order, `File.Course` says how far the
connection has come and what is there by then: before `rpmem_addr_handler` has succeeded
`rpmem_open` has not seen the connection established, and afterwards nothing ever
releases the protection domain and the regions of the two command buffers, not even
`rpmem_close`.
-/

import Rpmem.Lifecycle.Model

namespace Rpmem

open Ledger Lts

/-- The objects `rpmem_addr_handler` holds, the last one acquired first. -/
def AddrPc.held : AddrPc → List Obj
  | .resolveRoute | .allocPd | .error => []
  | .regRsp | .pdError => [.pd]
  | .regReq | .recvMrError => [.rspMr, .pd]
  | .createCompChannel | .sendMrError => [.reqMr, .rspMr, .pd]
  | .createCq | .compError => [.compChannel, .reqMr, .rspMr, .pd]
  | .reqNotify | .createThread | .cqError => [.cq, .compChannel, .reqMr, .rspMr, .pd]

/-- `cm_thread` has not been started. -/
def MainPc.early : MainPc → Bool
  | .calloc | .createEventChannel | .createId | .createThread => true
  | _ => false

/-- `rpmem_open` has found the connection established. -/
def MainPc.past : MainPc → Bool
  | .postRecv | .postSend | .waitOpen | .opened | .closing _ | .closed => true
  | _ => false

/-- The release ladder of `rpmem_open`, from `destroy_thread` on. -/
def MainPc.ladder : MainPc → Bool
  | .destroyThread | .destroyId | .destroyEventChannel | .destroyRfile | .failed => true
  | _ => false

theorem MainPc.early_of_ladder {m : MainPc} (h : m.ladder = true) : m.early = false := by
  cases m <;> simp [ladder] at h <;> rfl

def CmPhase.later : CmPhase → Bool
  | .idle | .addr => false
  | .route | .connect | .connected => true

/-- `cm_thread` is done with `rpmem_addr_handler` for good. -/
def CmPc.settled : CmPc → Bool
  | .absent | .addr _ | .handling .addrResolved => false
  | _ => true

/-- `rpmem_open` has not seen the connection established. -/
structure File.NotYet (s : File) : Prop where
  state : s.state ≠ .established
  main : s.main.past = false

/-- The protection domain and the regions of the two command buffers. -/
def setUp : List Obj := [.pd, .rspMr, .reqMr]

theorem mem_held_of_setUp {x : Obj} (h : x ∈ setUp) : x ∈ AddrPc.createThread.held := by
  revert x
  decide

/-- How far the connection has come: no thread yet, the thread there but nothing asked
for, the address being resolved, in `rpmem_addr_handler`, `cm_thread` at its end before
that has succeeded, or everything `rpmem_addr_handler` sets up there. -/
inductive File.Course (s : File) : Prop
  | fresh (not : s.NotYet) (phase : s.phase = .idle) (sem : s.semConnect = 0)
      (main : s.main.early = true ∨ s.main.ladder = true ∧ s.main ≠ .destroyThread)
      (alive : s.cancelled = false) (cm : s.cm = .absent)
  | started (not : s.NotYet) (phase : s.phase = .idle) (sem : s.semConnect = 0)
      (main : s.main = .resolveAddr ∧ s.cancelled = false ∨ s.main.ladder = true)
      (cm : s.cm = .waiting)
  | resolving (not : s.NotYet) (phase : s.phase = .addr) (sem : s.semConnect = 0)
      (main : s.main = .waitConnect) (alive : s.cancelled = false)
      (cm : s.cm = .waiting ∨ s.cm = .handling .addrResolved ∨ s.cm = .handling .addrError)
  | addr (p : AddrPc) (not : s.NotYet) (sem : s.semConnect = 0)
      (main : s.main = .waitConnect) (alive : s.cancelled = false) (cm : s.cm = .addr p)
      (phase : p = .resolveRoute ∧ s.phase = .addr ∨ p = .error ∨ s.phase = .route)
      (held : ∀ x ∈ p.held, s.book.live x = true)
  | ended (not : s.NotYet) (main : s.main.early = false) (cm : s.cm = .exiting ∨ s.cm = .exited)
  | up (phase : s.phase.later = true) (cm : s.cm.settled = true)
      (main : s.main.early = false ∧ s.main ≠ .resolveAddr)
      (live : ∀ x ∈ setUp, s.book.live x = true)

variable {s t : File} {ok : Bool}

theorem File.Course.initial : File.initial.Course :=
  .fresh ⟨by decide, rfl⟩ rfl rfl (.inl rfl) rfl rfl

attribute [local simp] MainPc.early MainPc.ladder MainPc.past CmPhase.later CmPc.settled
  File.mainAcquire File.mainRelease File.mainDestroy File.cmAcquire File.cmRelease File.cmDestroy
  File.cmExit

/-- `rpmem_close` releases nothing of `setUp`: the two regions it does not try, and the
protection domain is in use. -/
theorem File.Course.rpmemClose (phase : s.phase.later = true) (cm : s.cm.settled = true)
    (live : ∀ x ∈ setUp, s.book.live x = true) {p : ClosePc} (hs : s.rpmemClose p = some t) :
    t.Course := by
  have hpd : s.book.destroy Obj.users .pd = s.book :=
    Book.destroy_eq_self (live .pd (by simp [setUp]))
      (Book.inUse_of_live (y := .rspMr) (by simp [Obj.users]) (live .rspMr (by simp [setUp])))
  cases p <;> simp [File.rpmemClose] at hs
  case destroyId =>
      obtain ⟨-, rfl⟩ := hs
      exact .up phase cm (by simp) (Book.forall_live_release live (by decide))
  case destroyQp | destroyEventChannel | destroyRfile =>
      subst hs
      exact .up phase cm (by simp) (Book.forall_live_release live (by decide))
  case destroyCq | destroyCompChannel =>
      subst hs
      exact .up phase cm (by simp) (Book.forall_live_destroy live (by decide))
  case deallocPd =>
      subst hs
      exact .up phase cm (by simp) (by rwa [hpd])
  all_goals
    subst hs
    exact .up phase cm (by simp) live

/-- `rpmem_open` and `rpmem_close` go on. -/
theorem File.Course.mainStep (h : s.Course) (hs : s.mainStep ok = some t) : t.Course := by
  unfold File.mainStep at hs
  cases h with
  | fresh not phase sem main alive cm =>
      cases hm : s.main <;> cases ok <;> simp [hm] at hs main
      case createThread.true =>
          subst hs
          exact .started ⟨not.state, rfl⟩ phase sem (.inl ⟨rfl, alive⟩) rfl
      case destroyId.false | destroyId.true =>
          obtain ⟨-, rfl⟩ := hs
          exact .fresh ⟨not.state, rfl⟩ phase sem (by simp) alive cm
      all_goals
        subst hs
        exact .fresh ⟨not.state, rfl⟩ phase sem (by simp) alive cm
  | started not phase sem main cm =>
      cases hm : s.main <;> cases ok <;> simp [hm] at hs main
      case resolveAddr.true =>
          subst hs
          exact .resolving ⟨not.state, rfl⟩ rfl sem rfl main (.inl cm)
      case destroyId.false | destroyId.true =>
          obtain ⟨-, rfl⟩ := hs
          exact .started ⟨not.state, rfl⟩ phase sem (.inr rfl) cm
      all_goals
        subst hs
        exact .started ⟨not.state, rfl⟩ phase sem (.inr rfl) cm
  | resolving not phase sem main alive cm => simp [main, sem] at hs
  | addr p not sem main alive cm phase held => simp [main, sem] at hs
  | ended not main cm =>
      have hpast := not.main
      cases hm : s.main <;> cases ok <;> simp [hm, not.state] at hs main hpast
      case waitConnect.false | waitConnect.true | destroyId.false | destroyId.true
          | checkState.false | checkState.true =>
          obtain ⟨-, rfl⟩ := hs
          exact .ended ⟨not.state, rfl⟩ rfl cm
      all_goals
        subst hs
        exact .ended ⟨not.state, rfl⟩ rfl cm
  | up phase cm main live =>
      cases hm : s.main <;> cases ok <;> simp [hm] at hs main
      case closing.false | closing.true => exact File.Course.rpmemClose phase cm live hs
      case waitConnect.false | waitConnect.true =>
          obtain ⟨-, rfl⟩ := hs
          exact .up phase cm (by simp) live
      case checkState.false | checkState.true =>
          obtain ⟨-, rfl⟩ := hs
          refine .up phase cm ?_ live
          split <;> simp
      case destroyId.false | destroyId.true =>
          obtain ⟨-, rfl⟩ := hs
          exact .up phase cm (by simp) (Book.forall_live_release live (by decide))
      case destroyEventChannel.false | destroyEventChannel.true | destroyRfile.false
          | destroyRfile.true =>
          subst hs
          exact .up phase cm (by simp) (Book.forall_live_release live (by decide))
      all_goals
        subst hs
        exact .up phase cm (by simp) live

/-- `cm_thread` ends, by itself or cancelled. -/
theorem File.Course.cmExit (h : s.Course) (hrun : s.cm ≠ .absent) : s.cmExit.Course := by
  cases h with
  | fresh not phase sem main alive cm => exact absurd cm hrun
  | started not phase sem main cm =>
      refine .ended ⟨not.state, not.main⟩ ?_ (.inr rfl)
      obtain ⟨main, -⟩ | main := main
      · simp [main]
      · exact MainPc.early_of_ladder main
  | resolving not phase sem main alive cm =>
      exact .ended ⟨not.state, not.main⟩ (by simp [main]) (.inr rfl)
  | addr p not sem main alive cm phase held =>
      exact .ended ⟨not.state, not.main⟩ (by simp [main]) (.inr rfl)
  | ended not main cm => exact .ended ⟨not.state, not.main⟩ main (.inr rfl)
  | up phase cm main live => exact .up phase rfl main (Book.forall_live_release live (by decide))

/-- An event in order. -/
theorem File.Course.getEvent (h : s.Course) {ev : CmEvent} (hev : ev ∈ s.phase.events)
    (hcm : s.cm = .waiting) :
    ({ s with
      cm := .handling ev
      unacked := s.unacked + 1
      phase := if ev = .established then .connected else s.phase } : File).Course := by
  cases h with
  | fresh not phase sem main alive cm => simp [hcm] at cm
  | started not phase sem main cm => simp [phase, CmPhase.events] at hev
  | resolving not phase sem main alive cm =>
      obtain rfl | rfl : ev = .addrResolved ∨ ev = .addrError := by
        simpa [phase, CmPhase.events] using hev
      · exact .resolving ⟨not.state, not.main⟩ phase sem main alive (.inr (.inl rfl))
      · exact .resolving ⟨not.state, not.main⟩ phase sem main alive (.inr (.inr rfl))
  | addr p not sem main alive cm phase held => simp [hcm] at cm
  | ended not main cm => simp [hcm] at cm
  | up phase cm main live =>
      refine .up ?_ ?_ main live
      · show (if ev = .established then CmPhase.connected else s.phase).later = true
        split
        · rfl
        · exact phase
      · show (CmPc.handling ev).settled = true
        cases hp : s.phase <;> simp [hp, CmPhase.events] at phase hev <;>
          obtain rfl | rfl | rfl | rfl | rfl | rfl := hev <;> rfl

/-- `rpmem_addr_handler` goes on: it acquires on top of what it holds, and its labels
release from the top. -/
theorem File.Course.rpmemAddrHandler {p : AddrPc} (not : s.NotYet) (sem : s.semConnect = 0)
    (main : s.main = .waitConnect) (alive : s.cancelled = false)
    (phase : p = .resolveRoute ∧ s.phase = .addr ∨ p = .error ∨ s.phase = .route)
    (held : ∀ x ∈ p.held, s.book.live x = true) : (s.rpmemAddrHandler ok p).Course := by
  have below : ∀ {x : Obj} {l : List Obj}, p.held = x :: l → ∀ y ∈ l, s.book.live y = true :=
    fun hp y hy => held y (hp ▸ List.mem_cons_of_mem _ hy)
  cases p <;> cases ok <;> simp [File.rpmemAddrHandler] at phase ⊢
  case resolveRoute.true =>
      exact .addr .allocPd ⟨not.state, not.main⟩ sem main alive rfl (.inr (.inr rfl)) held
  case error.false | error.true => exact .ended ⟨not.state, not.main⟩ (by simp [main]) (.inl rfl)
  case resolveRoute.false | allocPd.false | regRsp.false | regReq.false | createCompChannel.false
      | createCq.false | reqNotify.false | reqNotify.true =>
      exact .addr _ ⟨not.state, not.main⟩ sem main alive rfl (by simp [phase]) held
  case allocPd.true | regRsp.true | regReq.true | createCompChannel.true | createCq.true =>
      exact .addr _ ⟨not.state, not.main⟩ sem main alive rfl (by simp [phase])
        (Book.forall_live_acquire held)
  case cqError.false | cqError.true | compError.false | compError.true | pdError.false
      | pdError.true =>
      exact .addr _ ⟨not.state, not.main⟩ sem main alive rfl (by simp [phase])
        (Book.forall_live_destroy (below rfl) (by decide))
  case sendMrError.false | sendMrError.true | recvMrError.false | recvMrError.true =>
      exact .addr _ ⟨not.state, not.main⟩ sem main alive rfl (by simp [phase])
        (Book.forall_live_release (below rfl) (by decide))
  case createThread.false =>
      exact .up (by simp [phase]) rfl (by simp [main]) fun x hx => held x (mem_held_of_setUp hx)
  case createThread.true =>
      exact .up (by simp [phase]) rfl (by simp [main])
        fun x hx => Book.forall_live_acquire held x (.tail _ (mem_held_of_setUp hx))

/-- `cm_thread` goes on. -/
theorem File.Course.cmStep (h : s.Course) (hs : s.cmStep ok = some t) : t.Course := by
  unfold File.cmStep at hs
  cases h with
  | fresh not phase sem main alive cm => simp [cm] at hs
  | started not phase sem main cm => simp [cm] at hs
  | resolving not phase sem main alive cm =>
      obtain cm | cm | cm := cm <;> simp [cm, File.rpmemCmaHandler, File.fail] at hs <;> subst hs
      · exact .addr .resolveRoute ⟨not.state, not.main⟩ sem main alive rfl (.inl ⟨rfl, phase⟩)
          (by simp [AddrPc.held])
      · exact .ended ⟨by simp, not.main⟩ (by simp [main]) (.inl rfl)
  | addr p not sem main alive cm phase held =>
      simp only [cm, Option.some.injEq] at hs
      subst hs
      exact File.Course.rpmemAddrHandler not sem main alive phase held
  | ended not main cm' =>
      obtain cm | cm := cm' <;> simp [cm] at hs
      subst hs
      exact .ended ⟨not.state, not.main⟩ main (.inr rfl)
  | up phase cm main live =>
      cases hcm : s.cm with
      | handling ev =>
          simp only [hcm, Option.some.injEq] at hs
          subst hs
          cases ev <;> simp [hcm] at cm <;> exact .up phase rfl main live
      | route p =>
          simp only [hcm, Option.some.injEq] at hs
          subst hs
          cases p <;> cases ok
          case createQp.true =>
              exact .up phase rfl main fun x hx => Book.forall_live_acquire live x (.tail _ hx)
          case connect.true => exact .up rfl rfl main live
          case destroyQp.false | destroyQp.true =>
              exact .up phase rfl main (Book.forall_live_release live (by decide))
          all_goals exact .up phase rfl main live
      | acking =>
          simp only [hcm, Option.some.injEq] at hs
          subst hs
          exact .up phase rfl main live
      | exiting =>
          simp only [hcm, Option.some.injEq] at hs
          subst hs
          exact .up phase rfl main (Book.forall_live_release live (by decide))
      | addr p => simp [hcm] at cm
      | absent | waiting | exited => simp [hcm] at hs

/-- `cq_thread` ends. -/
theorem File.Course.cqExit (h : s.Course) :
    ({ s with book := s.book.release Obj.users .cqThread } : File).Course := by
  cases h with
  | fresh not phase sem main alive cm => exact .fresh ⟨not.state, not.main⟩ phase sem main alive cm
  | started not phase sem main cm => exact .started ⟨not.state, not.main⟩ phase sem main cm
  | resolving not phase sem main alive cm =>
      exact .resolving ⟨not.state, not.main⟩ phase sem main alive cm
  | addr p not sem main alive cm phase held =>
      exact .addr p ⟨not.state, not.main⟩ sem main alive cm phase
        (Book.forall_live_release held (by cases p <;> decide))
  | ended not main cm => exact .ended ⟨not.state, not.main⟩ main cm
  | up phase cm main live => exact .up phase cm main (Book.forall_live_release live (by decide))

/-- Once `rpmem_open` has found the connection established, everything is set up. -/
theorem File.Course.of_past (h : s.Course) (hp : s.main.past = true) :
    s.phase.later = true ∧ s.cm.settled = true ∧ ∀ x ∈ setUp, s.book.live x = true := by
  cases h with
  | up phase cm main live => exact ⟨phase, cm, live⟩
  | fresh not | started not | resolving not | addr _ not | ended not =>
      exact absurd (not.main.symm.trans hp) Bool.false_ne_true

/-- As long as `cm_thread` has not been started, nothing has been asked for. -/
theorem File.Course.of_early (h : s.Course) (he : s.main.early = true) : s.cm = .absent := by
  have hne : s.main.early ≠ false := fun hf => Bool.false_ne_true (hf.symm.trans he)
  cases h with
  | fresh _ _ _ _ _ cm => exact cm
  | started _ _ _ main =>
      obtain ⟨hm, -⟩ | hl := main
      · simp [hm] at he
      · exact absurd (MainPc.early_of_ladder hl) hne
  | resolving _ _ _ main => simp [main] at he
  | addr _ _ _ main => simp [main] at he
  | ended _ main => exact absurd main hne
  | up _ _ main => exact absurd main.1 hne

/-- In `rpmem_addr_handler` the application waits. -/
theorem File.Course.of_addr (h : s.Course) {p : AddrPc} (hcm : s.cm = .addr p) :
    s.main = .waitConnect ∧ (p = .resolveRoute ∧ s.phase = .addr ∨ p = .error ∨ s.phase = .route) ∧
      s.cancelled = false := by
  cases h with
  | addr q _ _ main alive cm phase =>
      obtain rfl : q = p := by simpa [cm] using hcm
      exact ⟨main, phase, alive⟩
  | fresh _ _ _ _ _ cm | started _ _ _ _ cm | resolving _ _ _ _ _ cm | ended _ _ cm | up _ cm =>
      simp [hcm] at cm

/-- The event that leads to `rpmem_addr_handler` comes while the address is resolved. -/
theorem File.Course.of_addrResolved (h : s.Course) (hcm : s.cm = .handling .addrResolved) :
    s.phase = .addr := by
  cases h with
  | resolving _ phase => exact phase
  | fresh _ _ _ _ _ cm | started _ _ _ _ cm | addr _ _ _ _ _ cm | ended _ _ cm | up _ cm =>
      simp [hcm] at cm

/-- In `rpmem_route_handler` everything is set up. -/
theorem File.Course.of_route (h : s.Course) {p : RoutePc} (hcm : s.cm = .route p) :
    s.book.live .pd = true ∧ ¬ (s.main.early = true ∨ s.main = .resolveAddr) := by
  cases h with
  | up _ _ main live =>
      refine ⟨live .pd (by decide), ?_⟩
      rintro (he | hm)
      · exact absurd (main.1.symm.trans he) Bool.false_ne_true
      · exact main.2 hm
  | fresh _ _ _ _ _ cm | started _ _ _ _ cm | resolving _ _ _ _ _ cm | addr _ _ _ _ _ cm
  | ended _ _ cm => simp [hcm] at cm

/-- The calls on an open file. -/
theorem File.Course.opened (h : s.Course) (hm : s.main = .opened) {b : Book Obj} {r : Bool}
    (hb : (∀ x ∈ setUp, s.book.live x = true) → ∀ x ∈ setUp, b.live x = true) :
    ({ s with book := b, region := r } : File).Course := by
  obtain ⟨phase, cm, live⟩ := h.of_past (by simp [hm])
  exact .up phase cm (by simp [hm]) (hb live)

theorem File.Course.rpmemMap (h : s.Course) (hm : s.main = .opened) (o : MapOutcome) :
    (s.rpmemMap o).Course := by
  have buffer : (∀ x ∈ setUp, s.book.live x = true) →
      ∀ x ∈ setUp, (s.book.acquire .buffer).live x = true :=
    fun live x hx => Book.forall_live_acquire live x (.tail _ hx)
  have both : (∀ x ∈ setUp, s.book.live x = true) →
      ∀ x ∈ setUp, ((s.book.acquire .buffer).acquire .regionMr).live x = true :=
    fun live x hx => Book.forall_live_acquire (buffer live) x (.tail _ hx)
  cases o with
  | callocFails => exact h.opened hm fun live => Book.forall_live_forget live (by decide)
  | regMrFails =>
      refine h.opened hm fun live => Book.forall_live_release ?_ (by decide)
      exact Book.forall_live_forget (buffer live) (by decide)
  | laterFails =>
      refine h.opened hm fun live => Book.forall_live_release ?_ (by decide)
      exact Book.forall_live_release (both live) (by decide)
  | mapped => exact h.opened hm both

/-- A step whose event is in order. -/
theorem File.Course.step {a : FileLabel} (h : s.Course) (hok : EventsInOrder s a)
    (hs : fileStep s a = some t) : t.Course := by
  cases fileStep_cases hs with
  | main ok _ hs => exact h.mainStep hs
  | cm ok _ hs => exact h.cmStep hs
  | mapped o hm => exact h.rpmemMap hm o
  | unmapped hm =>
      exact h.opened hm fun live =>
        Book.forall_live_release (Book.forall_live_release live (by decide)) (by decide)
  | closed hm =>
      obtain ⟨phase, cm, live⟩ := h.of_past (by simp [hm])
      exact .up phase cm (by simp) live
  | gotEvent ev hcm => exact h.getEvent hok hcm
  | getEventFailed hcm => exact h.cmExit (by simp [hcm])
  | cancelled hc =>
      refine h.cmExit fun hcm => ?_
      simp [File.cancellable, hcm] at hc
  | cqExited => exact h.cqExit

/-- How far the connection has come, in every run with its events in order. -/
theorem File.Course.of_reachable (h : Reachable fileStep EventsInOrder (· = File.initial) s) :
    s.Course :=
  h.invariant (fun _ hs => hs ▸ .initial) fun _ _ _ hc hok hs => hc.step hok hs

/-- **`rpmem_close` never gives everything back:** `req_mr` and `rsp_mr` stay registered, and
with them the protection domain stays allocated. -/
theorem File.Course.not_clear_of_closed (h : s.Course) (hm : s.main = .closed) :
    ¬ s.book.Clear := by
  intro hclear
  obtain ⟨-, -, live⟩ := h.of_past (by simp [hm])
  exact absurd ((hclear.1 .rspMr).symm.trans (live .rspMr (by decide))) Bool.false_ne_true

end Rpmem
