/-
# What an open gives back

`rpmem_open` acquires in two threads and releases on a ladder of labels that knows only
of what its own thread acquired.  So it gives back what it took as long as
`rpmem_addr_handler` has not set up the protection domain and what hangs on it; and
`rpmem_close` never deregisters `req_mr` and `rsp_mr`, so that `ibv_dealloc_pd` is refused
and `priv_rfile` is freed under two registered regions.

`File.Accounts` is the ledger of an orderly run: which objects are live, given how far the
two threads are, with `CmAccounts` the part that `cm_thread` keeps.
-/

import Rpmem.Lifecycle.Course

namespace Rpmem

open Ledger Lts

variable {s t : File} {ok : Bool}

attribute [local simp] MainPc.early MainPc.ladder MainPc.past CmPhase.later CmPc.settled
  File.mainAcquire File.mainRelease File.mainDestroy File.cmAcquire File.cmRelease File.cmDestroy
  File.cmExit

/-- The objects the application's thread holds, the last one acquired first. -/
def MainPc.owned : MainPc → List Obj
  | .calloc | .failed | .closed => []
  | .createEventChannel | .destroyRfile => [.privRfile]
  | .createId | .destroyEventChannel => [.cmaChannel, .privRfile]
  | _ => [.cmaId, .cmaChannel, .privRfile]

def CmPc.running : CmPc → Bool
  | .absent | .exited => false
  | _ => true

/-- The objects of `cm_thread` and its handlers. -/
def connObjs : List Obj := [.pd, .rspMr, .reqMr, .compChannel, .cq]

/-- What `rpmem_addr_handler` sets up, given whether it has: outside of it the objects are
there together. -/
def CmPc.holds (up : Bool) (x : Obj) : CmPc → Bool
  | .addr p => decide (x ∈ p.held)
  | _ => up

/-- The queue pair is there. -/
def CmPc.queued (phase : CmPhase) : CmPc → Bool
  | .route .connect | .route .destroyQp => true
  | _ => decide (phase = .connect ∨ phase = .connected)

def CmPc.inAddr : CmPc → Bool
  | .addr _ => true
  | _ => false

/-- The event that leads to `rpmem_route_handler` is there. -/
def CmPc.routing : CmPc → Bool
  | .handling .routeResolved | .route _ => true
  | _ => false

/-- The part of the ledger `cm_thread` keeps. -/
structure CmAccounts (b : Book Obj) (cm : CmPc) (phase : CmPhase) : Prop where
  thread : b.live .cmThread = cm.running
  conn : ∀ x ∈ connObjs, b.live x = cm.holds (b.live .pd) x
  queued : b.live .qp = cm.queued phase
  qp : b.live .qp = true → b.live .pd = true
  cqThread : b.live .cqThread = true → b.live .pd = true ∧ cm.inAddr = false
  before : phase.later = false → b.live .pd = false
  route : cm.routing = true → phase = .route

/-- The objects of `rpmem_open`'s own thread. -/
def mainObjs : List Obj := [.privRfile, .cmaChannel, .cmaId]

/-- The objects `CmAccounts` is about. -/
def cmObjs : List Obj := [.cmThread, .cqThread, .qp] ++ connObjs

/-- The ledger of an orderly run. -/
structure File.Accounts (s : File) : Prop where
  lost : s.book.lost = []
  misused : s.book.misused = []
  own : ∀ x ∈ mainObjs, s.book.live x = decide (x ∈ s.main.owned)
  cm : CmAccounts s.book s.cm s.phase
  mapped : ∀ x ∈ [Obj.buffer, .regionMr], s.book.live x = s.region
  idle : s.main.early = true ∨ s.main = .resolveAddr → s.phase = .idle
  ladder : s.main.ladder = true → s.book.live .pd = false
  asked : s.cancelled = true → s.main.ladder = true
  ended : s.main = .destroyRfile ∨ s.main = .failed → s.cm.running = false
  region : s.region = true → s.main = .opened
  unclosed : s.main ≠ .closed ∧ ∀ p, s.main ≠ .closing p

theorem File.Accounts.initial : File.initial.Accounts where
  lost := rfl
  misused := rfl
  own := by decide
  cm := ⟨rfl, by decide, rfl, by decide, by decide, fun _ => rfl, by decide⟩
  mapped := by decide
  idle _ := rfl
  ladder _ := rfl
  asked := by decide
  ended _ := rfl
  region := by decide
  unclosed := by simp [File.initial]

/-- The accounts of `cm_thread` are about its objects. -/
theorem CmAccounts.frame {b b' : Book Obj} {cm : CmPc} {phase : CmPhase}
    (h : CmAccounts b cm phase) (hb : ∀ x ∈ cmObjs, b'.live x = b.live x) :
    CmAccounts b' cm phase := by
  have hconn : ∀ x ∈ connObjs, x ∈ cmObjs := by decide
  have hpd : b'.live .pd = b.live .pd := hb .pd (by decide)
  have hqp : b'.live .qp = b.live .qp := hb .qp (by decide)
  have hcq : b'.live .cqThread = b.live .cqThread := hb .cqThread (by decide)
  refine ⟨(hb .cmThread (by decide)).trans h.thread, fun x hx => ?_, hqp.trans h.queued, ?_, ?_, ?_,
    h.route⟩
  · rw [hb x (hconn x hx), hpd]
    exact h.conn x hx
  · rw [hqp, hpd]
    exact h.qp
  · rw [hcq, hpd]
    exact h.cqThread
  · rw [hpd]
    exact h.before

section Main

/-! The application's thread, on its way to the program point `m`. -/

variable {m : MainPc} {x : Obj}

/-- It goes on with what it holds. -/
theorem File.Accounts.goto (h : s.Accounts) (howned : m.owned = s.main.owned)
    (hidle : m.early = true ∨ m = .resolveAddr → s.phase = .idle)
    (hladder : m.ladder = true → s.book.live .pd = false)
    (hended : m = .destroyRfile ∨ m = .failed → s.cm.running = false)
    (hregion : s.region = true → m = .opened) (hclose : m ≠ .closed ∧ ∀ p, m ≠ .closing p)
    {c : Bool} (hasked : c = true → m.ladder = true) (n : ℕ) :
    ({ s with main := m, cancelled := c, semConnect := n } : File).Accounts where
  lost := h.lost
  misused := h.misused
  own y hy := by
    rw [h.own y hy]
    show _ = decide (y ∈ m.owned)
    rw [howned]
  cm := h.cm
  mapped := h.mapped
  idle := hidle
  ladder := hladder
  asked := hasked
  ended := hended
  region := hregion
  unclosed := hclose

theorem notMem_of_mem_mainObjs :
    ∀ x ∈ mainObjs, x ∉ cmObjs ∧ x ∉ [Obj.buffer, .regionMr] := by
  decide

/-- It acquires one more object. -/
theorem File.Accounts.mainAcquire (h : s.Accounts) (hx : x ∈ mainObjs)
    (hnew : x ∉ s.main.owned) (howned : m.owned = x :: s.main.owned)
    (hearly : s.main.early = true ∧ m.early = true) (hregion : s.region = false) :
    ({ s with book := s.book.acquire x, main := m } : File).Accounts := by
  obtain ⟨hcm, hmap⟩ := notMem_of_mem_mainObjs x hx
  have hladder : m.ladder = false := by
    cases m <;> simp at hearly ⊢
  refine ⟨?_, h.misused, fun y hy => ?_, h.cm.frame (Book.live_acquire_of_mem hcm), fun y hy => ?_,
    fun _ => h.idle (.inl hearly.1), fun hl => absurd (hladder.symm.trans hl) Bool.false_ne_true,
    fun ha => ?_, ?_, by simp [hregion], ?_⟩
  · rw [Book.lost_acquire ((h.own x hx).trans (decide_eq_false hnew))]
    exact h.lost
  · show (s.book.acquire x).live y = decide (y ∈ m.owned)
    rw [Book.live_acquire, h.own y hy, howned]
    by_cases hyx : y = x <;> simp [hyx]
  · exact (Book.live_acquire_of_mem hmap y hy).trans (h.mapped y hy)
  · have hne := MainPc.early_of_ladder (h.asked ha)
    exact absurd (hne.symm.trans hearly.1) Bool.false_ne_true
  · rintro (rfl | rfl) <;> simp at hladder
  · cases m <;> simp at hearly ⊢

/-- It releases the last object it acquired. -/
theorem File.Accounts.mainRelease (h : s.Accounts) (hx : x ∈ mainObjs)
    (howned : s.main.owned = x :: m.owned) (hnot : x ∉ m.owned)
    (hu : ∀ y ∈ x.users, s.book.live y = false)
    (hladder : s.main.ladder = true ∧ m.ladder = true) (hregion : s.region = false)
    (hended : s.cm.running = false ∨ m = .destroyEventChannel) :
    ({ s with book := s.book.release Obj.users x, main := m } : File).Accounts := by
  obtain ⟨hcm, hmap⟩ := notMem_of_mem_mainObjs x hx
  have hlive : s.book.live x = true := by simp [h.own x hx, howned]
  refine ⟨h.lost, ?_, fun y hy => ?_, h.cm.frame (Book.live_release_of_mem hcm), fun y hy => ?_,
    ?_, fun _ => ?_, fun _ => hladder.2, ?_, by simp [hregion], ?_⟩
  · rw [Book.misused_release hlive (Book.inUse_eq_false h.lost hu)]
    exact h.misused
  · show (s.book.release Obj.users x).live y = decide (y ∈ m.owned)
    rw [Book.live_release, h.own y hy, howned]
    by_cases hyx : y = x <;> simp [hyx, hnot]
  · exact (Book.live_release_of_mem hmap y hy).trans (h.mapped y hy)
  · rintro (he | rfl)
    · exact absurd ((MainPc.early_of_ladder hladder.2).symm.trans he) Bool.false_ne_true
    · simp at hladder
  · rw [Book.live_release_of_mem hcm .pd (by decide)]
    exact h.ladder hladder.1
  · rintro hm
    obtain hrun | rfl := hended
    · exact hrun
    · simp at hm
  · cases m <;> simp at hladder ⊢

/-- `rpmem_open` starts `cm_thread`. -/
theorem File.Accounts.startThread (h : s.Accounts) (hm : s.main = .createThread)
    (hcm : s.cm = .absent) (hregion : s.region = false) :
    ({ s with book := s.book.acquire .cmThread, cm := .waiting, main := .resolveAddr } :
      File).Accounts := by
  have hidle : s.phase = .idle := h.idle (by simp [hm])
  have hcq := h.cm.cqThread
  have hqueued := h.cm.queued
  rw [hcm] at hcq hqueued
  refine ⟨?_, h.misused, fun y hy => ?_, ⟨rfl, fun y hy => ?_, hqueued, h.cm.qp, hcq, h.cm.before, by simp [CmPc.routing]⟩,
    fun y hy => ?_, fun _ => hidle, by simp, fun ha => ?_, by simp, by simp [hregion], by simp⟩
  · rw [Book.lost_acquire (by simp [h.cm.thread, hcm, CmPc.running])]
    exact h.lost
  · show (s.book.acquire .cmThread).live y = decide (y ∈ MainPc.resolveAddr.owned)
    rw [Book.live_acquire_of_mem (l := mainObjs) (by decide) y hy, h.own y hy, hm]
    rfl
  · rw [Book.live_acquire_of_mem (by decide) y hy, h.cm.conn y hy, hcm]
    rfl
  · exact (Book.live_acquire_of_mem (by decide) y hy).trans (h.mapped y hy)
  · have hl := h.asked ha
    simp [hm] at hl

/-- `rdma_resolve_addr` is accepted. -/
theorem File.Accounts.resolveAddr (h : s.Accounts) (hm : s.main = .resolveAddr)
    (hregion : s.region = false) :
    ({ s with phase := .addr, main := .waitConnect } : File).Accounts := by
  have hidle : s.phase = .idle := h.idle (by simp [hm])
  have hcm : CmAccounts s.book s.cm .addr := by
    refine ⟨h.cm.thread, h.cm.conn, ?_, h.cm.qp, h.cm.cqThread,
      fun _ => h.cm.before (by simp [hidle]), fun hr => ?_⟩
    · rw [h.cm.queued, hidle]
      unfold CmPc.queued
      split <;> simp
    · have hroute := h.cm.route hr
      simp [hidle] at hroute
  refine ⟨h.lost, h.misused, fun y hy => ?_, hcm, h.mapped, by simp, by simp, fun ha => ?_, by simp,
    by simp [hregion], by simp⟩
  · rw [h.own y hy, hm]
    rfl
  · have hl := h.asked ha
    simp [hm] at hl

/-- On the release ladder the objects of the connection are not there. -/
theorem File.Accounts.unused (h : s.Accounts) (hl : s.main.ladder = true) :
    s.book.live .qp = false ∧ s.book.live .cqThread = false := by
  have hpd : s.book.live .pd ≠ true := by simp [h.ladder hl]
  exact ⟨Bool.eq_false_iff.2 fun hq => hpd (h.cm.qp hq),
    Bool.eq_false_iff.2 fun hq => hpd (h.cm.cqThread hq).1⟩

/-- With `cm_thread` gone, neither are those of `rpmem_addr_handler`. -/
theorem File.Accounts.unheld (h : s.Accounts) (hl : s.main.ladder = true)
    (hrun : s.cm.running = false) : ∀ x ∈ connObjs, s.book.live x = false := by
  intro x hx
  rw [h.cm.conn x hx, h.ladder hl]
  cases hcm : s.cm <;> simp [hcm, CmPc.running] at hrun <;> rfl

/-- `rpmem_open` goes on. -/
theorem File.Accounts.mainStep (h : s.Accounts) (hc : s.Course)
    (hgive : s.givesUp ok = true → s.book.live .pd = false)
    (hchannel : s.main = .destroyEventChannel → s.book.live .cmThread = false)
    (hs : s.mainStep ok = some t) : t.Accounts := by
  have hregion : s.main ≠ .opened → s.region = false := fun hne =>
    Bool.eq_false_iff.2 fun hr => hne (h.region hr)
  have hearly : s.main.early = true → s.cm.running = false ∧ s.book.live .pd = false := fun he =>
    ⟨by simp [hc.of_early he, CmPc.running], h.cm.before (by simp [h.idle (.inl he)])⟩
  have hasked : s.main.ladder = false → ∀ {m : MainPc}, s.cancelled = true → m.ladder = true :=
    fun hl _ ha => absurd (hl.symm.trans (h.asked ha)) Bool.false_ne_true
  unfold File.mainStep at hs
  cases hm : s.main <;> cases ok <;> simp [hm] at hs
  case calloc.true | createEventChannel.true | createId.true =>
      subst hs
      exact h.mainAcquire (by decide) (by simp [hm, MainPc.owned]) (by rw [hm]; rfl)
        (by simp [hm]) (hregion (by simp [hm]))
  case calloc.false | createEventChannel.false | createId.false | createThread.false =>
      subst hs
      obtain ⟨hrun, hpd⟩ := hearly (by simp [hm])
      exact h.goto (by rw [hm]; rfl) (by simp) (fun _ => hpd) (fun _ => hrun)
        (by simp [hregion (by simp [hm])]) (by simp) (hasked (by simp [hm])) _
  case createThread.true =>
      subst hs
      exact h.startThread hm (hc.of_early (by simp [hm])) (hregion (by simp [hm]))
  case resolveAddr.true =>
      subst hs
      exact h.resolveAddr hm (hregion (by simp [hm]))
  case resolveAddr.false | postRecv.false | postSend.false | waitOpen.false =>
      subst hs
      exact h.goto (by rw [hm]; rfl) (by simp) (fun _ => hgive (by simp [File.givesUp, hm])) (by simp)
        (by simp [hregion (by simp [hm])]) (by simp) (hasked (by simp [hm])) _
  case postRecv.true | postSend.true | waitOpen.true =>
      subst hs
      exact h.goto (by rw [hm]; rfl) (by simp) (by simp) (by simp)
        (by simp [hregion (by simp [hm])]) (by simp) (hasked (by simp [hm])) _
  case waitConnect.false | waitConnect.true =>
      obtain ⟨-, rfl⟩ := hs
      exact h.goto (by rw [hm]; rfl) (by simp) (by simp) (by simp)
        (by simp [hregion (by simp [hm])]) (by simp) (hasked (by simp [hm])) _
  case checkState.false | checkState.true =>
      obtain ⟨-, rfl⟩ := hs
      split
      next =>
        exact h.goto (by rw [hm]; rfl) (by simp) (by simp) (by simp)
          (by simp [hregion (by simp [hm])]) (by simp) (hasked (by simp [hm])) _
      next hne =>
        exact h.goto (by rw [hm]; rfl) (by simp) (fun _ => hgive (by simp [File.givesUp, hm, hne]))
          (by simp) (by simp [hregion (by simp [hm])]) (by simp) (hasked (by simp [hm])) _
  case destroyThread.false | destroyThread.true =>
      subst hs
      exact h.goto (by rw [hm]; rfl) (by simp) (fun _ => h.ladder (by simp [hm])) (by simp)
        (by simp [hregion (by simp [hm])]) (by simp) (by simp) _
  case destroyId.false | destroyId.true =>
      obtain ⟨-, rfl⟩ := hs
      refine h.mainRelease (by decide) (by rw [hm]; rfl) (by decide) ?_ (by simp [hm])
        (hregion (by simp [hm])) (.inr rfl)
      simpa [Obj.users] using (h.unused (by simp [hm])).1
  case destroyEventChannel.false | destroyEventChannel.true =>
      subst hs
      have hrun := hchannel hm
      refine h.mainRelease (by decide) (by rw [hm]; rfl) (by decide) ?_ (by simp [hm])
        (hregion (by simp [hm])) (.inl (h.cm.thread.symm.trans hrun))
      simp [Obj.users, hrun, h.own .cmaId (by decide), hm, MainPc.owned]
  case destroyRfile.false | destroyRfile.true =>
      subst hs
      have hrun := h.ended (.inl hm)
      refine h.mainRelease (by decide) (by rw [hm]; rfl) (by decide) ?_ (by simp [hm])
        (hregion (by simp [hm])) (.inl hrun)
      have hconn : ∀ x ∈ connObjs, s.book.live x = false := h.unheld (by simp [hm]) hrun
      simp [Obj.users, h.cm.thread.trans hrun, (h.unused (by simp [hm])).2,
        hconn .rspMr (by decide), hconn .reqMr (by decide)]
  case closing.false | closing.true => exact absurd hm (h.unclosed.2 _)

end Main

section Cm

/-! `cm_thread`, on its way to the program point `cm'`. -/

variable {b : Book Obj} {cm cm' : CmPc} {phase phase' : CmPhase} {p q : AddrPc} {x : Obj}

/-- It leaves the objects of the application's thread alone. -/
theorem File.Accounts.cmMove (h : s.Accounts) (hb : ∀ x, x ∉ cmObjs → b.live x = s.book.live x)
    (hlost : b.lost = []) (hmisused : b.misused = []) (hcm : CmAccounts b cm' phase')
    (hrun : s.cm.running = true ∨ cm' = s.cm)
    (hidle : s.main.early = true ∨ s.main = .resolveAddr → phase' = .idle)
    (hladder : s.main.ladder = true → b.live .pd = false) (state : FileState) (n k : ℕ) :
    ({ s with book := b, cm := cm', phase := phase', state, semConnect := n, unacked := k } :
      File).Accounts where
  lost := hlost
  misused := hmisused
  own x hx := (hb x (notMem_of_mem_mainObjs x hx).1).trans (h.own x hx)
  cm := hcm
  mapped x hx := (hb x (by revert x; decide)).trans (h.mapped x hx)
  idle := hidle
  ladder := hladder
  asked := h.asked
  ended he := by
    obtain hrun | hcm := hrun
    · exact absurd (hrun.symm.trans (h.ended he)) (by simp)
    · exact (congrArg CmPc.running hcm).trans (h.ended he)
  region := h.region
  unclosed := h.unclosed

theorem CmPc.holds_of_inAddr (h : cm.inAddr = false) (up : Bool) (x : Obj) :
    cm.holds up x = up := by
  cases cm <;> simp [inAddr] at h <;> rfl

/-- Outside `rpmem_addr_handler` it goes on with what is there. -/
theorem CmAccounts.goto (h : CmAccounts b cm phase) (haddr : cm.inAddr = false)
    (hrun : cm'.running = cm.running) (haddr' : cm'.inAddr = false)
    (hq : cm'.queued phase' = cm.queued phase) (hr : cm'.routing = true → phase' = .route)
    (hbefore : phase'.later = false → phase.later = false) : CmAccounts b cm' phase' where
  thread := h.thread.trans hrun.symm
  conn x hx := by
    rw [h.conn x hx, CmPc.holds_of_inAddr haddr, CmPc.holds_of_inAddr haddr']
  queued := h.queued.trans hq.symm
  qp := h.qp
  cqThread hc := ⟨(h.cqThread hc).1, haddr'⟩
  before hl := h.before (hbefore hl)
  route := hr

/-- It ends. -/
theorem CmAccounts.exit (h : CmAccounts b cm phase) (haddr : cm.inAddr = false)
    (hq : CmPc.exited.queued phase = cm.queued phase) :
    CmAccounts (b.release Obj.users .cmThread) .exited phase where
  thread := by simp [CmPc.running]
  conn x hx := by
    rw [Book.live_release_of_mem (by decide) x hx, h.conn x hx, CmPc.holds_of_inAddr haddr]
    rfl
  queued := h.queued.trans hq.symm
  qp := h.qp
  cqThread hc := ⟨(h.cqThread hc).1, rfl⟩
  before := h.before
  route := by simp [CmPc.routing]

/-- `rpmem_addr_handler` begins with nothing. -/
theorem CmAccounts.enterAddr (h : CmAccounts b (.handling .addrResolved) .addr) :
    CmAccounts b (.addr .resolveRoute) .addr := by
  have hpd : b.live .pd = false := h.before rfl
  refine ⟨h.thread, fun x hx => ?_, h.queued, h.qp, fun hc => ?_, h.before, by simp [CmPc.routing]⟩
  · rw [h.conn x hx]
    exact hpd
  · exact absurd (hpd.symm.trans (h.cqThread hc).1) Bool.false_ne_true

/-- `rpmem_addr_handler` goes on with what it holds. -/
theorem CmAccounts.gotoAddr (h : CmAccounts b (.addr p) phase) (hheld : q.held = p.held)
    (hq : (CmPc.addr q).queued phase' = (CmPc.addr p).queued phase)
    (hbefore : phase'.later = false → phase.later = false) : CmAccounts b (.addr q) phase' where
  thread := h.thread
  conn x hx := by
    rw [h.conn x hx]
    show decide (x ∈ p.held) = decide (x ∈ q.held)
    rw [hheld]
  queued := h.queued.trans hq.symm
  qp := h.qp
  cqThread hc := absurd (h.cqThread hc).2 (by simp [CmPc.inAddr])
  before hl := h.before (hbefore hl)
  route := by simp [CmPc.routing]

theorem notMem_of_mem_connObjs : ∀ x ∈ connObjs, x ∉ [Obj.cmThread, .cqThread, .qp] := by
  decide

/-- `rpmem_addr_handler` acquires one more object. -/
theorem CmAccounts.addrAcquire (h : CmAccounts b (.addr p) .route) (hx : x ∈ connObjs)
    (hheld : q.held = x :: p.held) : CmAccounts (b.acquire x) (.addr q) .route := by
  have hne := notMem_of_mem_connObjs x hx
  have hframe : ∀ y ∈ [Obj.cmThread, .cqThread, .qp],
      (b.acquire x).live y = b.live y := Book.live_acquire_of_mem hne
  have hqp : b.live .qp = false := h.queued
  refine ⟨(hframe .cmThread (by simp)).trans h.thread, fun y hy => ?_,
    (hframe .qp (by simp)).trans h.queued, fun hq => ?_, fun hc => ?_, by simp,
    by simp [CmPc.routing]⟩
  · show (b.acquire x).live y = decide (y ∈ q.held)
    rw [Book.live_acquire, h.conn y hy, hheld]
    show (if y = x then true else decide (y ∈ p.held)) = _
    by_cases hyx : y = x <;> simp [hyx]
  · rw [hframe .qp (by simp), hqp] at hq
    cases hq
  · rw [hframe .cqThread (by simp)] at hc
    exact absurd (h.cqThread hc).2 (by simp [CmPc.inAddr])

/-- `rpmem_addr_handler` releases the last object it acquired. -/
theorem CmAccounts.addrRelease (h : CmAccounts b (.addr p) .route) (hx : x ∈ connObjs)
    (hheld : p.held = x :: q.held) (hnot : x ∉ q.held) :
    CmAccounts (b.release Obj.users x) (.addr q) .route := by
  have hne := notMem_of_mem_connObjs x hx
  have hframe : ∀ y ∈ [Obj.cmThread, .cqThread, .qp],
      (b.release Obj.users x).live y = b.live y := Book.live_release_of_mem hne
  have hqp : b.live .qp = false := h.queued
  refine ⟨(hframe .cmThread (by simp)).trans h.thread, fun y hy => ?_,
    (hframe .qp (by simp)).trans h.queued, fun hq => ?_, fun hc => ?_, by simp,
    by simp [CmPc.routing]⟩
  · show (b.release Obj.users x).live y = decide (y ∈ q.held)
    rw [Book.live_release, h.conn y hy]
    show (if y = x then false else decide (y ∈ p.held)) = _
    by_cases hyx : y = x <;> simp [hyx, hheld, hnot]
  · rw [hframe .qp (by simp), hqp] at hq
    cases hq
  · rw [hframe .cqThread (by simp)] at hc
    exact absurd (h.cqThread hc).2 (by simp [CmPc.inAddr])

/-- `rpmem_addr_handler` is done. -/
theorem CmAccounts.leaveAddr (h : CmAccounts b (.addr .createThread) .route) :
    CmAccounts b .acking .route := by
  have hpd : b.live .pd = true := h.conn .pd (by decide)
  refine ⟨h.thread, fun x hx => ?_, h.queued, h.qp, fun hc => ⟨hpd, rfl⟩, by simp,
    by simp [CmPc.routing]⟩
  rw [h.conn x hx]
  show decide (x ∈ AddrPc.createThread.held) = b.live .pd
  rw [hpd]
  revert x
  decide

/-- `rpmem_addr_handler` has failed. -/
theorem CmAccounts.failAddr (h : CmAccounts b (.addr .error) phase) :
    CmAccounts b .exiting phase := by
  have hpd : b.live .pd = false := h.conn .pd (by decide)
  refine ⟨h.thread, fun x hx => ?_, h.queued, h.qp, fun hc => ?_, h.before, by simp [CmPc.routing]⟩
  · rw [h.conn x hx]
    exact hpd.symm
  · exact absurd (h.cqThread hc).2 (by simp [CmPc.inAddr])

/-- `rpmem_route_handler` creates the queue pair. -/
theorem CmAccounts.createQp (h : CmAccounts b (.route .createQp) .route) (hpd : b.live .pd = true) :
    CmAccounts (b.acquire .qp) (.route .connect) .route where
  thread := h.thread
  conn x hx := (Book.live_acquire_of_mem (by decide) x hx).trans (h.conn x hx)
  queued := by simp [CmPc.queued]
  qp _ := hpd
  cqThread hc := ⟨(h.cqThread hc).1, rfl⟩
  before := h.before
  route _ := rfl

/-- `rpmem_route_handler` destroys the queue pair again. -/
theorem CmAccounts.destroyQp (h : CmAccounts b (.route .destroyQp) .route) :
    CmAccounts (b.release Obj.users .qp) .exiting .route where
  thread := h.thread
  conn x hx := (Book.live_release_of_mem (by decide) x hx).trans (h.conn x hx)
  queued := by simp [CmPc.queued]
  qp hq := by simp at hq
  cqThread hc := ⟨(h.cqThread hc).1, rfl⟩
  before := h.before
  route _ := rfl

/-- `cq_thread` comes and goes without the other objects. -/
theorem CmAccounts.cqThread_acquire (h : CmAccounts b cm phase) (haddr : cm.inAddr = false)
    (hpd : b.live .pd = true) : CmAccounts (b.acquire .cqThread) cm phase where
  thread := h.thread
  conn x hx := (Book.live_acquire_of_mem (by decide) x hx).trans (h.conn x hx)
  queued := h.queued
  qp := h.qp
  cqThread _ := ⟨hpd, haddr⟩
  before := h.before
  route := h.route

theorem CmAccounts.cqThread_release (h : CmAccounts b cm phase) :
    CmAccounts (b.release Obj.users .cqThread) cm phase where
  thread := h.thread
  conn x hx := (Book.live_release_of_mem (by decide) x hx).trans (h.conn x hx)
  queued := h.queued
  qp := h.qp
  cqThread hc := by simp at hc
  before := h.before
  route := h.route

theorem mem_cmObjs_of_mem_connObjs : ∀ x ∈ connObjs, x ∈ cmObjs := by decide

/-- A call of `cm_thread` that acquires `x`. -/
theorem File.Accounts.cmAcquire (h : s.Accounts) (hx : x ∈ cmObjs) (hnew : s.book.live x = false)
    (hcm : CmAccounts (s.book.acquire x) cm' s.phase) (hrun : s.cm.running = true)
    (hladder : s.main.ladder = false) :
    ({ s with book := s.book.acquire x, cm := cm' } : File).Accounts := by
  refine h.cmMove (b := s.book.acquire x) (fun y hy => if_neg (ne_of_mem_of_not_mem hx hy).symm)
    ?_ h.misused hcm (.inl hrun) h.idle
    (fun hl => absurd (hladder.symm.trans hl) Bool.false_ne_true) _ _ _
  rw [Book.lost_acquire hnew, h.lost]

/-- A call of `cm_thread` that releases `x`. -/
theorem File.Accounts.cmRelease (h : s.Accounts) (hx : x ∈ cmObjs) (hlive : s.book.live x = true)
    (hu : s.book.inUse Obj.users x = false)
    (hcm : CmAccounts (s.book.release Obj.users x) cm' s.phase)
    (hrun : s.cm.running = true ∨ cm' = s.cm) :
    ({ s with book := s.book.release Obj.users x, cm := cm' } : File).Accounts := by
  refine h.cmMove (b := s.book.release Obj.users x)
    (fun y hy => if_neg (ne_of_mem_of_not_mem hx hy).symm) h.lost ?_ hcm hrun h.idle (fun hl => ?_)
    _ _ _
  · rw [Book.misused_release hlive hu, h.misused]
  · rw [Book.live_release, h.ladder hl, ite_self]

/-- `rpmem_addr_handler` goes on. -/
theorem File.Accounts.rpmemAddrHandler (h : s.Accounts) (hcm : s.cm = .addr p)
    (hmain : s.main = .waitConnect)
    (hphase : p = .resolveRoute ∧ s.phase = .addr ∨ p = .error ∨ s.phase = .route) :
    (s.rpmemAddrHandler ok p).Accounts := by
  have hc := h.cm
  rw [hcm] at hc
  have hrun : s.cm.running = true := by simp [hcm, CmPc.running]
  have hladder : s.main.ladder = false := by simp [hmain]
  have hregion : s.book.live .regionMr = false := by
    rw [h.mapped .regionMr (by simp), Bool.eq_false_iff]
    intro hr
    simpa [hmain] using h.region hr
  have hcq : s.book.live .cqThread = false :=
    Bool.eq_false_iff.2 fun hq => by simpa [CmPc.inAddr] using (hc.cqThread hq).2
  have hqp : s.phase = .route → s.book.live .qp = false := fun hp => by
    rw [hc.queued, hp]
    rfl
  have held : ∀ x ∈ connObjs, s.book.live x = decide (x ∈ p.held) := hc.conn
  -- the labels destroy what nothing uses any more
  have hdestroy : ∀ {y : Obj} {r : AddrPc}, y ∈ connObjs → p.held = y :: r.held → y ∉ r.held →
      s.phase = .route → (∀ z ∈ y.users, s.book.live z = false) →
      (s.cmDestroy y (.addr r)).Accounts := by
    intro y r hy hheld hnot hroute hu
    have hlive : s.book.live y = true := by simp [held y hy, hheld]
    have huse : s.book.inUse Obj.users y = false := Book.inUse_eq_false h.lost hu
    rw [File.cmDestroy, Book.destroy_eq_release huse]
    refine h.cmRelease (mem_cmObjs_of_mem_connObjs y hy) hlive huse ?_ (.inl hrun)
    rw [hroute] at hc ⊢
    exact hc.addrRelease hy hheld hnot
  cases p <;> cases ok <;> simp [File.rpmemAddrHandler] at hphase ⊢
  case resolveRoute.false =>
      refine h.cmMove (fun _ _ => rfl) h.lost h.misused ?_ (.inl hrun) h.idle (by simp [hmain]) _ _ _
      exact hc.gotoAddr rfl rfl id
  case resolveRoute.true =>
      refine h.cmMove (fun _ _ => rfl) h.lost h.misused ?_ (.inl hrun) (by simp [hmain])
        (by simp [hmain]) _ _ _
      refine hc.gotoAddr rfl ?_ (by simp)
      obtain hp | hp := hphase <;> rw [hp] <;> rfl
  case error.false | error.true =>
      exact h.cmMove (fun _ _ => rfl) h.lost h.misused hc.failAddr (.inl hrun) h.idle (by simp [hmain])
        _ _ _
  case createThread.false =>
      refine h.cmMove (fun _ _ => rfl) h.lost h.misused ?_ (.inl hrun) h.idle (by simp [hmain]) _ _ _
      rw [hphase] at hc ⊢
      exact hc.leaveAddr
  case createThread.true =>
      refine h.cmAcquire (by decide) hcq ?_ hrun hladder
      rw [hphase] at hc ⊢
      exact hc.leaveAddr.cqThread_acquire rfl (held .pd (by decide))
  case cqError.false | cqError.true =>
      exact hdestroy (by decide) rfl (by decide) hphase (by simp [Obj.users, hqp hphase, hcq])
  case compError.false | compError.true =>
      refine hdestroy (by decide) rfl (by decide) hphase ?_
      simp [Obj.users, hcq, held .cq (by decide), AddrPc.held]
  case pdError.false | pdError.true =>
      refine hdestroy (by decide) rfl (by decide) hphase ?_
      simp [Obj.users, hregion, hqp hphase, held .rspMr (by decide), held .reqMr (by decide),
        AddrPc.held]
  case reqNotify.false | reqNotify.true | allocPd.false | regRsp.false | regReq.false
      | createCompChannel.false | createCq.false =>
      refine h.cmMove (fun _ _ => rfl) h.lost h.misused ?_ (.inl hrun) h.idle (by simp [hmain]) _ _ _
      exact hc.gotoAddr rfl rfl id
  case allocPd.true | regRsp.true | regReq.true | createCompChannel.true | createCq.true =>
      refine h.cmAcquire (by decide) (held _ (by decide)) ?_ hrun hladder
      rw [hphase] at hc ⊢
      exact hc.addrAcquire (by decide) rfl
  case sendMrError.false | sendMrError.true | recvMrError.false | recvMrError.true =>
      refine h.cmRelease (by decide) (held _ (by decide)) rfl ?_ (.inl hrun)
      rw [hphase] at hc ⊢
      exact hc.addrRelease (by decide) rfl (by decide)

/-- `cm_thread` ends. -/
theorem File.Accounts.cmExit (h : s.Accounts) (hrun : s.cm.running = true)
    (haddr : s.cm.inAddr = false) (hq : CmPc.exited.queued s.phase = s.cm.queued s.phase) :
    s.cmExit.Accounts := by
  refine h.cmRelease (by decide) (h.cm.thread.trans hrun) rfl ?_ (.inl hrun)
  exact h.cm.exit haddr hq

/-- `cm_thread` goes on without touching the ledger, outside `rpmem_addr_handler`. -/
theorem File.Accounts.cmGoto (h : s.Accounts) (hrun : s.cm.running = true)
    (haddr : s.cm.inAddr = false) (hrun' : cm'.running = true) (haddr' : cm'.inAddr = false)
    (hq : cm'.queued s.phase = s.cm.queued s.phase) (hr : cm'.routing = true → s.phase = .route)
    (state : FileState) (n k : ℕ) :
    ({ s with cm := cm', state, semConnect := n, unacked := k } : File).Accounts := by
  refine h.cmMove (fun _ _ => rfl) h.lost h.misused ?_ (.inl hrun) h.idle h.ladder _ _ _
  exact h.cm.goto haddr (hrun'.trans hrun.symm) haddr' hq hr id

/-- `rpmem_cma_handler` takes the mutex. -/
theorem File.Accounts.rpmemCmaHandler (h : s.Accounts) (hc : s.Course) {ev : CmEvent}
    (hcm : s.cm = .handling ev) : (s.rpmemCmaHandler ev).Accounts := by
  have hrun : s.cm.running = true := by simp [hcm, CmPc.running]
  have haddr : s.cm.inAddr = false := by simp [hcm, CmPc.inAddr]
  have hq : ∀ {c : CmPc}, c.queued s.phase = (CmPc.handling ev).queued s.phase →
      c.queued s.phase = s.cm.queued s.phase := by simp [hcm]
  cases ev
  case addrResolved =>
      have hphase := hc.of_addrResolved hcm
      have hacc := h.cm
      rw [hcm, hphase] at hacc
      refine h.cmMove (fun _ _ => rfl) h.lost h.misused ?_ (.inl hrun) h.idle h.ladder _ _ _
      rw [hphase]
      exact hacc.enterAddr
  case routeResolved =>
      refine h.cmGoto hrun haddr (by rfl) (by rfl) (hq (by rfl)) (fun _ => ?_) _ _ _
      exact h.cm.route (by simp [hcm, CmPc.routing])
  all_goals exact h.cmGoto hrun haddr (by rfl) (by rfl) (hq (by rfl)) (by simp [CmPc.routing]) _ _ _

/-- `rpmem_route_handler` goes on. -/
theorem File.Accounts.rpmemRouteHandler (h : s.Accounts) (hc : s.Course) {r : RoutePc}
    (hcm : s.cm = .route r) : (s.rpmemRouteHandler ok r).Accounts := by
  have hrun : s.cm.running = true := by simp [hcm, CmPc.running]
  have haddr : s.cm.inAddr = false := by simp [hcm, CmPc.inAddr]
  have hphase : s.phase = .route := h.cm.route (by simp [hcm, CmPc.routing])
  obtain ⟨hpd, hmain⟩ := hc.of_route hcm
  have hladder : s.main.ladder = false :=
    Bool.eq_false_iff.2 fun hl => by simpa [hpd] using h.ladder hl
  have hacc := h.cm
  rw [hcm, hphase] at hacc
  have hq : ∀ {c : CmPc}, c.queued .route = (CmPc.route r).queued .route →
      c.queued s.phase = s.cm.queued s.phase := by simp [hcm, hphase]
  cases r <;> cases ok
  case createQp.false => exact h.cmGoto hrun haddr (by rfl) (by rfl) (hq (by rfl)) (by simp [CmPc.routing]) _ _ _
  case createQp.true =>
      refine h.cmAcquire (by decide) hacc.queued ?_ hrun hladder
      rw [hphase]
      exact hacc.createQp hpd
  case connect.false => exact h.cmGoto hrun haddr (by rfl) (by rfl) (hq (by rfl)) (fun _ => hphase) _ _ _
  case connect.true =>
      refine h.cmMove (fun _ _ => rfl) h.lost h.misused ?_ (.inl hrun) (fun hm => absurd hm hmain)
        h.ladder _ _ _
      exact hacc.goto rfl rfl rfl rfl (by simp [CmPc.routing]) (by simp)
  case destroyQp.false | destroyQp.true =>
      refine h.cmRelease (by decide) hacc.queued rfl ?_ (.inl hrun)
      rw [hphase]
      exact hacc.destroyQp

/-- `cm_thread` goes on. -/
theorem File.Accounts.cmStep (h : s.Accounts) (hc : s.Course) (hs : s.cmStep ok = some t) :
    t.Accounts := by
  unfold File.cmStep at hs
  cases hcm : s.cm with
  | handling ev =>
      simp only [hcm, Option.some.injEq] at hs
      subst hs
      exact h.rpmemCmaHandler hc hcm
  | addr p =>
      simp only [hcm, Option.some.injEq] at hs
      subst hs
      obtain ⟨hmain, hphase, -⟩ := hc.of_addr hcm
      exact h.rpmemAddrHandler hcm hmain hphase
  | route p =>
      simp only [hcm, Option.some.injEq] at hs
      subst hs
      exact h.rpmemRouteHandler hc hcm
  | acking =>
      simp only [hcm, Option.some.injEq] at hs
      subst hs
      exact h.cmGoto (by simp [hcm, CmPc.running]) (by simp [hcm, CmPc.inAddr]) rfl rfl
        (by rw [hcm]; rfl) (by simp [CmPc.routing]) _ _ _
  | exiting =>
      simp only [hcm, Option.some.injEq] at hs
      subst hs
      exact h.cmExit (by simp [hcm, CmPc.running]) (by simp [hcm, CmPc.inAddr]) (by rw [hcm]; rfl)
  | absent | waiting | exited => simp [hcm] at hs

end Cm

theorem CmPhase.of_established {f : CmPhase} (h : CmEvent.established ∈ f.events) :
    f = .connect := by
  cases f <;> simp [events] at h ⊢

theorem CmPhase.of_routeResolved {f : CmPhase} (h : CmEvent.routeResolved ∈ f.events) :
    f = .route := by
  cases f <;> simp [events] at h ⊢

/-- An event in order. -/
theorem File.Accounts.getEvent (h : s.Accounts) {ev : CmEvent} (hev : ev ∈ s.phase.events)
    (hcm : s.cm = .waiting) :
    ({ s with
      cm := .handling ev
      unacked := s.unacked + 1
      phase := if ev = .established then .connected else s.phase } : File).Accounts := by
  have hrun : s.cm.running = true := by simp [hcm, CmPc.running]
  have hacc := h.cm
  rw [hcm] at hacc
  refine h.cmMove (fun _ _ => rfl) h.lost h.misused ?_ (.inl hrun) (fun hm => ?_) h.ladder _ _ _
  · by_cases he : ev = .established
    · subst he
      rw [CmPhase.of_established hev] at hacc
      exact hacc.goto rfl rfl rfl rfl (by simp [CmPc.routing]) (by simp)
    · rw [if_neg he]
      refine hacc.goto rfl rfl rfl rfl (fun hr => CmPhase.of_routeResolved ?_) id
      cases ev <;> simp [CmPc.routing] at hr
      exact hev
  · simp [h.idle hm, CmPhase.events] at hev

/-- `cm_thread` acts on its cancellation. -/
theorem File.Accounts.cmCancelled (h : s.Accounts) (hc : s.Course) (hs : s.cancellable = true) :
    s.cmExit.Accounts := by
  have hcancel : s.cancelled = true := by
    cases hcm : s.cm <;> simp [File.cancellable, hcm] at hs <;> exact hs
  have hpd := h.ladder (h.asked hcancel)
  cases hcm : s.cm with
  | addr p => simp [(hc.of_addr hcm).2.2] at hcancel
  | route p => simp [(hc.of_route hcm).1] at hpd
  | absent | acking | exited => simp [File.cancellable, hcm] at hs
  | waiting | handling | exiting =>
      exact h.cmExit (by simp [hcm, CmPc.running]) (by simp [hcm, CmPc.inAddr]) (by rw [hcm]; rfl)

section Region

variable {b : Book Obj} {r : Bool}

/-- A call on an open file that only touches the region. -/
theorem File.Accounts.remap (h : s.Accounts) (hm : s.main = .opened)
    (hb : ∀ x, x ∉ [Obj.buffer, .regionMr] → b.live x = s.book.live x) (hlost : b.lost = [])
    (hmisused : b.misused = []) (hmapped : ∀ x ∈ [Obj.buffer, .regionMr], b.live x = r) :
    ({ s with book := b, region := r } : File).Accounts where
  lost := hlost
  misused := hmisused
  own x hx := (hb x (notMem_of_mem_mainObjs x hx).2).trans (h.own x hx)
  cm := h.cm.frame fun x hx => hb x (by revert x; decide)
  mapped := hmapped
  idle := h.idle
  ladder := by simp [hm]
  asked := h.asked
  ended := h.ended
  region _ := hm
  unclosed := h.unclosed

/-- A buffer is released rightly once its region is deregistered. -/
theorem buffer_unused (hlost : b.lost = []) (hregion : b.live .regionMr = false) :
    b.inUse Obj.users .buffer = false :=
  Book.inUse_eq_false hlost (by simpa [Obj.users] using hregion)

/-- `rpmem_map` without a region. -/
theorem File.Accounts.rpmemMap (h : s.Accounts) (hm : s.main = .opened) (hr : s.region = false)
    (o : MapOutcome) : (s.rpmemMap o).Accounts := by
  have hbuffer : s.book.live .buffer = false := (h.mapped .buffer (by simp)).trans hr
  have hregion : s.book.live .regionMr = false := (h.mapped .regionMr (by simp)).trans hr
  have hlost₁ : (s.book.acquire .buffer).lost = [] := (Book.lost_acquire hbuffer).trans h.lost
  have hlost₂ : ((s.book.acquire .buffer).acquire .regionMr).lost = [] :=
    (Book.lost_acquire (by simpa using hregion)).trans hlost₁
  cases o with
  | callocFails =>
      refine h.remap hm (fun x _ => ?_) ?_ ?_ (by simp [hregion]) <;>
        rw [Book.forget_eq_self hbuffer]
      · exact h.lost
      · exact h.misused
  | regMrFails =>
      have hforget : (s.book.acquire .buffer).forget .regionMr = s.book.acquire .buffer :=
        Book.forget_eq_self (by simpa using hregion)
      refine h.remap hm (fun x hx => ?_) ?_ ?_ ?_
      · simp only [List.mem_cons, List.not_mem_nil, or_false, not_or] at hx
        simp [hforget, hx]
      · simpa [hforget] using hlost₁
      · rw [hforget, Book.misused_release (by simp) (buffer_unused hlost₁ (by simpa using hregion))]
        exact h.misused
      · simp [hforget, hregion]
  | laterFails =>
      refine h.remap hm (fun x hx => ?_) ?_ ?_ ?_
      · simp only [List.mem_cons, List.not_mem_nil, or_false, not_or] at hx
        simp [hx]
      · simpa using hlost₂
      · rw [Book.misused_release (by simp) (buffer_unused (by simpa using hlost₂) (by simp)),
          Book.misused_release (by simp) rfl]
        exact h.misused
      · simp
  | mapped =>
      refine h.remap hm (fun x hx => ?_) hlost₂ h.misused (by simp)
      simp only [List.mem_cons, List.not_mem_nil, or_false, not_or] at hx
      simp [hx]

/-- `rpmem_unmap` of a region. -/
theorem File.Accounts.rpmemUnmap (h : s.Accounts) (hm : s.main = .opened) (hr : s.region = true) :
    s.rpmemUnmap.Accounts := by
  have hbuffer : s.book.live .buffer = true := (h.mapped .buffer (by simp)).trans hr
  have hregion : s.book.live .regionMr = true := (h.mapped .regionMr (by simp)).trans hr
  refine h.remap hm (fun x hx => ?_) h.lost ?_ (by simp)
  · simp only [List.mem_cons, List.not_mem_nil, or_false, not_or] at hx
    simp [hx]
  · rw [Book.misused_release (by simpa using hbuffer) (buffer_unused (by simpa using h.lost) (by simp)),
      Book.misused_release hregion rfl]
    exact h.misused

end Region

/-- An orderly step. -/
theorem File.Accounts.step {a : FileLabel} (h : s.Accounts) (hc : s.Course) (hok : Orderly s a)
    (hs : fileStep s a = some t) : t.Accounts := by
  cases fileStep_cases hs with
  | main ok _ hs => exact h.mainStep hc hok.1 hok.2 hs
  | cm ok _ hs => exact h.cmStep hc hs
  | mapped o hm => exact h.rpmemMap hm hok o
  | unmapped hm => exact h.rpmemUnmap hm hok
  | closed => exact hok.elim
  | gotEvent ev hcm => exact h.getEvent hok hcm
  | getEventFailed hcm =>
      exact h.cmExit (by simp [hcm, CmPc.running]) (by simp [hcm, CmPc.inAddr]) (by rw [hcm]; rfl)
  | cancelled hcancel => exact h.cmCancelled hc hcancel
  | cqExited hlive => exact h.cmRelease (by decide) hlive rfl h.cm.cqThread_release (.inr rfl)

theorem Orderly.eventsInOrder {a : FileLabel} (h : Orderly s a) : EventsInOrder s a := by
  cases a with
  | getEvent ev => exact h
  | _ => trivial

/-- The ledger of every orderly run. -/
theorem File.Accounts.of_reachable (h : Reachable fileStep Orderly (· = File.initial) s) :
    s.Course ∧ s.Accounts := by
  refine h.invariant (I := fun s => s.Course ∧ s.Accounts) ?_ ?_
  · rintro _ rfl
    exact ⟨.initial, .initial⟩
  · rintro s a t ⟨hc, ha⟩ hok hs
    exact ⟨hc.step hok.eventsInOrder hs, ha.step hc hok hs⟩

/-- The ledger is what it was before `rpmem_open` when that has returned `NULL` and when
`rpmem_close` has returned, and no object was released twice or while it was used. -/
structure File.Balanced (s : File) : Prop where
  failed : s.main = .failed → s.book.Clear
  closed : s.main = .closed → s.book.Clear
  released : s.book.misused = []

/-- What a failed `rpmem_open` has acquired is released. -/
theorem File.Accounts.clear_of_failed (h : s.Accounts) (hm : s.main = .failed) : s.book.Clear := by
  have hl : s.main.ladder = true := by simp [hm]
  have hrun := h.ended (.inr hm)
  have hconn := h.unheld hl hrun
  obtain ⟨hqp, hcq⟩ := h.unused hl
  have hown : ∀ x ∈ mainObjs, s.book.live x = false := by
    intro x hx
    rw [h.own x hx, hm]
    rfl
  have hregion : s.region = false :=
    Bool.eq_false_iff.2 fun hr => by simpa [hm] using h.region hr
  have hmapped : ∀ x ∈ [Obj.buffer, .regionMr], s.book.live x = false :=
    fun x hx => (h.mapped x hx).trans hregion
  refine ⟨fun x => ?_, h.lost⟩
  cases x
  case cmThread => exact h.cm.thread.trans hrun
  case cqThread => exact hcq
  case qp => exact hqp
  case privRfile | cmaChannel | cmaId => exact hown _ (by decide)
  case regionMr | buffer => exact hmapped _ (by decide)
  case pd | rspMr | reqMr | compChannel | cq => exact hconn _ (by decide)

theorem File.Accounts.balanced (h : s.Accounts) : s.Balanced where
  failed := h.clear_of_failed
  closed hm := absurd hm h.unclosed.1
  released := h.misused

/-- **When opening and closing balance.**  For the files of a process, one to each call of
`rpmem_open`: where the steps of a file are orderly, an `rpmem_open` that returns `NULL` has
given back all it took, and nothing is released twice or while in use; and in no run with
the file's events in order does `rpmem_close` leave the ledger as it was before `rpmem_open`. -/
theorem open_balances_close_never {ι : Type*} [DecidableEq ι] (x : ι → File) (i : ι) :
    (Reachable (each fileStep) (onlyAt i Orderly) (fun y => ∀ j, y j = File.initial) x →
      (x i).Balanced) ∧
    (Reachable (each fileStep) (onlyAt i EventsInOrder) (fun y => ∀ j, y j = File.initial) x →
      (x i).main = .closed → ¬ (x i).book.Clear) := by
  refine ⟨fun h => ?_, fun h => ?_⟩
  · exact (File.Accounts.of_reachable h.component).2.balanced
  · exact (File.Course.of_reachable h.component).not_clear_of_closed

/-- Everything goes well up to `ESTABLISHED`. -/
def connecting : List FileLabel :=
  List.replicate 5 (.main true) ++ .getEvent .addrResolved :: List.replicate 10 (.cm true) ++
    .getEvent .routeResolved :: List.replicate 4 (.cm true) ++
    .getEvent .established :: List.replicate 2 (.cm true)

/-- `rdma_resolve_addr` fails, and `cm_thread` ends. -/
def resolveAddrFails : List FileLabel :=
  List.replicate 4 (.main true) ++ [.main false, .main true, .cmCancelled] ++
    List.replicate 3 (.main true)

/-- A file is opened and closed. -/
def opensAndCloses : List FileLabel :=
  connecting ++ List.replicate 5 (.main true) ++ [.close, .main true, .cmCancelled] ++
    List.replicate 8 (.main true)

/-- The connection is established, and `rpmem_post_recv` fails. -/
def postRecvFails : List FileLabel :=
  connecting ++ [.main true, .main true, .main false, .main true, .cmCancelled] ++
    List.replicate 3 (.main true)

/-- `rdma_resolve_addr` fails: the thread ends and everything is given back.  A file that is
opened and closed again keeps its two regions and its protection domain. -/
theorem open_balances_close_never_resolveAddr :
    (∃ x : Bool → File,
      Reachable (each fileStep) (onlyAt true Orderly) (fun y => ∀ j, y j = File.initial) x ∧
      (x true).main = .failed ∧ (x true).Balanced) ∧
    ∃ x : Bool → File,
      Reachable (each fileStep) (onlyAt false EventsInOrder) (fun y => ∀ j, y j = File.initial) x ∧
      (x false).main = .closed ∧ ¬ (x false).book.Clear := by
  obtain ⟨x, hx, hmx⟩ := exists_reachable_of_exec (each fileStep) (onlyAt true Orderly)
    (fun y => ∀ j, y j = File.initial) (s := fun _ : Bool => File.initial) (fun _ => rfl)
    (resolveAddrFails.map fun a => (true, a))
    (fun y => decide ((y true).main = .failed)) (by decide)
  obtain ⟨y, hy, hmy⟩ := exists_reachable_of_exec (each fileStep) (onlyAt false EventsInOrder)
    (fun y => ∀ j, y j = File.initial) (s := fun _ : Bool => File.initial) (fun _ => rfl)
    (opensAndCloses.map fun a => (false, a))
    (fun y => decide ((y false).main = .closed)) (by decide)
  exact ⟨⟨x, hx, of_decide_eq_true hmx, (open_balances_close_never x true).1 hx⟩,
    ⟨y, hy, of_decide_eq_true hmy,
      (open_balances_close_never y false).2 hy (of_decide_eq_true hmy)⟩⟩

/-- The connection is established and `rpmem_post_recv` fails: `rpmem_open` returns `NULL` with
the protection domain, the regions, the completion queue, its thread and the queue pair
still there, and has released `cma_id` under the queue pair and `priv_rfile` under the rest. -/
theorem failed_open_keeps_connection :
    ∃ x : Unit → File,
      Reachable (each fileStep) (onlyAt () EventsInOrder) (fun y => ∀ j, y j = File.initial) x ∧
      (x ()).main = .failed ∧
      (∀ o ∈ [Obj.pd, .rspMr, .reqMr, .compChannel, .cq, .cqThread, .qp],
        (x ()).book.live o = true) ∧
      (x ()).book.misused = [.privRfile, .cmaId] ∧ ¬ (x ()).Balanced := by
  obtain ⟨x, hx, hp⟩ := exists_reachable_of_exec (each fileStep) (onlyAt () EventsInOrder)
    (fun y => ∀ j, y j = File.initial) (s := fun _ : Unit => File.initial) (fun _ => rfl)
    (postRecvFails.map fun a => ((), a))
    (fun y => decide ((y ()).main = .failed ∧
      (∀ o ∈ [Obj.pd, .rspMr, .reqMr, .compChannel, .cq, .cqThread, .qp],
        (y ()).book.live o = true) ∧
      (y ()).book.misused = [.privRfile, .cmaId])) (by decide)
  obtain ⟨hm, hlive, hmisused⟩ := of_decide_eq_true hp
  refine ⟨x, hx, hm, hlive, hmisused, fun hb => ?_⟩
  have hpd := (hb.failed hm).1 .pd
  simp [hlive .pd (by simp)] at hpd

end Rpmem
