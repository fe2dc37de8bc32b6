/-
# What a connection request leaves behind

`rpmem_conn_init` undoes what it did when one of its calls fails, in the reverse
order and each object once; `rpmem_connect_request_handler` frees the unit then
and rejects the request.  After `rpmem_conn_init` nothing is undone: if
`rpmem_create_qp` fails the unit is freed under the regions of its two command
buffers and under its completion thread, and if the first receive cannot be
posted or `rdma_accept` fails everything stays, in no list.  The id of a request
is destroyed on no path at all, and a `pthread_create` that fails is not noticed:
the request is accepted, and no thread will serve it.

`SetupPc.Inv` says what there is at each point of the handler; what a finished
request keeps is `keeps`, by the call that failed.  The handler is the only one
to touch a connection that is being set up, and nothing but its completion
thread ever ends of one that is finished, so this holds of every request of a
whole run.
-/

import Rpmem.Lifecycle.Listener

namespace Rpmem

open Ledger

/-- The objects of a connection that is set up, its thread aside. -/
def unitObjs : List ConnObj := [.qp, .cq, .compChannel, .rspMr, .reqMr, .pd, .unit, .cmaId]

/-- What a finished request keeps, its thread aside, by the call whose failure ended it. -/
def keeps : Option SetupPc → List ConnObj
  | none | some .postRecv | some .accept => unitObjs
  | some .createQp => [.cq, .compChannel, .rspMr, .reqMr, .pd, .cmaId]
  | some _ => [.cmaId]

/-- The completion thread has been started by then. -/
def started : Option SetupPc → Bool
  | none | some .createQp | some .postRecv | some .accept => true
  | some _ => false

/-- What was released wrongly: the unit, in use, when there is no queue pair. -/
def wronged : Option SetupPc → List ConnObj
  | some .createQp => [.unit]
  | _ => []

/-- The objects `l` of a connection are live, no others but perhaps its thread, and none is
lost. -/
structure ConnSetup.Has (k : ConnSetup) (l : List ConnObj) : Prop where
  live : ∀ x, x ≠ .cqThread → k.book.live x = decide (x ∈ l)
  lost : k.book.lost = []

/-- What there is once a request is finished. -/
structure ConnSetup.Left (k : ConnSetup) : Prop where
  has : k.Has (keeps k.failed)
  thread : k.book.live .cqThread = true → started k.failed = true
  misused : k.book.misused = wronged k.failed

namespace SetupPc

/-- The objects there are at each point of the handler, its thread aside. -/
def held (failed : Option SetupPc) : SetupPc → List ConnObj
  | .calloc => [.cmaId]
  | .allocPd => [.unit, .cmaId]
  | .regReq | .pdError => [.pd, .unit, .cmaId]
  | .regRsp | .recvMrError => [.reqMr, .pd, .unit, .cmaId]
  | .createCompChannel | .sendMrError => [.rspMr, .reqMr, .pd, .unit, .cmaId]
  | .createCq | .compError => [.compChannel, .rspMr, .reqMr, .pd, .unit, .cmaId]
  | .reqNotify | .createThread | .cqError | .createQp =>
      [.cq, .compChannel, .rspMr, .reqMr, .pd, .unit, .cmaId]
  | .postRecv | .accept | .insert => unitObjs
  | .freeUnit => .unit :: keeps failed
  | .reject => keeps failed

/-- The calls that can have failed by then. -/
def canFail (failed : Option SetupPc) : SetupPc → Bool
  | .cqError | .compError | .sendMrError | .recvMrError | .pdError =>
      failed.isSome && !started failed
  | .freeUnit => failed.isSome && decide (failed ≠ some .postRecv) && decide (failed ≠ some .accept)
  | .reject => failed.isSome
  | _ => failed.isNone

/-- The completion thread has been started by then. -/
def threaded (failed : Option SetupPc) : SetupPc → Bool
  | .createQp | .postRecv | .accept | .insert => true
  | .freeUnit | .reject => started failed
  | _ => false

/-- What was released wrongly by then. -/
def wronged (failed : Option SetupPc) : SetupPc → List ConnObj
  | .reject => Rpmem.wronged failed
  | _ => []

/-- What there is of the connection in hand while the handler is at `p`. -/
structure Inv (p : SetupPc) (k : ConnSetup) : Prop where
  has : k.Has (p.held k.failed)
  failed : p.canFail k.failed = true
  thread : k.book.live .cqThread = true → p.threaded k.failed = true
  misused : k.book.misused = p.wronged k.failed

end SetupPc

section Ledgers

variable {k : ConnSetup} {l : List ConnObj} {x : ConnObj}

theorem ConnSetup.Has.acquire (h : k.Has l) (hx : x ≠ .cqThread) (hn : x ∉ l) (f : Option SetupPc) :
    (ConnSetup.mk (k.book.acquire x) f).Has (x :: l) where
  live y hy := by
    by_cases hyx : y = x
    · simp [hyx]
    · simp [hyx, h.live y hy]
  lost := by
    rw [Book.lost_acquire (by simp [h.live x hx, hn]), h.lost]

theorem ConnSetup.Has.release (h : k.Has (x :: l)) (hn : x ∉ l) (f : Option SetupPc) :
    (ConnSetup.mk (k.book.release ConnObj.users x) f).Has l where
  live y hy := by
    by_cases hyx : y = x
    · simp [hyx, hn]
    · simp [hyx, h.live y hy]
  lost := h.lost

/-- Only which objects there are counts. -/
theorem ConnSetup.Has.congr {l' : List ConnObj} (h : k.Has l) (hl : ∀ y, y ∈ l ↔ y ∈ l')
    (f : Option SetupPc) : (ConnSetup.mk k.book f).Has l' :=
  ⟨fun y hy => by simp [h.live y hy, hl y], h.lost⟩

/-- The thread comes and goes. -/
theorem ConnSetup.Has.thread (h : k.Has l) (b : Book ConnObj) (f : Option SetupPc)
    (hb : ∀ y, y ≠ .cqThread → b.live y = k.book.live y) (hlost : b.lost = k.book.lost) :
    (ConnSetup.mk b f).Has l :=
  ⟨fun y hy => (hb y hy).trans (h.live y hy), hlost.trans h.lost⟩

/-- Nothing uses an object when none of its users is there. -/
theorem ConnSetup.Has.inUse (h : k.Has l) (hl : ∀ y ∈ x.users, y ∉ l)
    (ht : k.book.live .cqThread = false) : k.book.inUse ConnObj.users x = false := by
  refine Book.inUse_eq_false h.lost fun y hy => ?_
  by_cases hyt : y = .cqThread
  · rw [hyt, ht]
  · rw [h.live y hyt]
    simpa using hl y hy

end Ledgers

variable {s t : Process} {p : SetupPc} {k : ConnSetup}

theorem keeps_of_not_started {f : Option SetupPc} (h : started f = false) :
    keeps f = [.cmaId] := by
  cases f with
  | none => cases h
  | some p => cases p <;> first | rfl | cases h

theorem wronged_of_not_started {f : Option SetupPc} (h : started f = false) : wronged f = [] := by
  cases f with
  | none => cases h
  | some p => cases p <;> first | rfl | cases h

namespace SetupPc.Inv

/-- An acquisition: the handler goes on from `p` to `q` with one object more. -/
theorem acquire {x : ConnObj} {q : SetupPc} (h : p.Inv k) (hx : x ≠ .cqThread)
    (hn : x ∉ p.held none) (hp : ∀ f, p.canFail f = f.isNone) (hq : ∀ f, q.canFail f = f.isNone)
    (hheld : q.held none = x :: p.held none) (ht : p.threaded none = true → q.threaded none = true)
    (hw : p.wronged none = q.wronged none) :
    q.Inv { k with book := k.book.acquire x } := by
  obtain ⟨b, f⟩ := k
  have hf : f = none := by simpa [hp] using h.failed
  subst hf
  refine ⟨?_, by simp [hq], fun hl => ht (h.thread ?_), h.misused.trans hw⟩
  · rw [hheld]
    exact h.has.acquire hx hn none
  · simpa [hx.symm] using hl

/-- A failure: the handler goes from `p` to `q` with what it has. -/
theorem fail {q : SetupPc} (h : p.Inv k) (hp : ∀ f, p.canFail f = f.isNone)
    (hq : q.canFail (some p) = true) (hheld : ∀ y, y ∈ p.held none ↔ y ∈ q.held (some p))
    (ht : p.threaded none = true → q.threaded (some p) = true)
    (hw : p.wronged none = q.wronged (some p)) : q.Inv { k with failed := some p } := by
  obtain ⟨b, f⟩ := k
  have hf : f = none := by simpa [hp] using h.failed
  subst hf
  exact ⟨h.has.congr hheld _, hq, fun hl => ht (h.thread hl), h.misused.trans hw⟩

/-- A step of the ladder of `rpmem_conn_init`: the object acquired last is in use no more, and
goes. -/
theorem unwind {x : ConnObj} {q : SetupPc} (h : p.Inv k)
    (hp : ∀ f, p.canFail f = (f.isSome && !started f))
    (hq : ∀ f, f.isSome = true → started f = false → q.canFail f = true)
    (hheld : ∀ f, started f = false → p.held f = x :: q.held f)
    (hn : ∀ f, started f = false → x ∉ q.held f)
    (hu : ∀ f, started f = false → ∀ y ∈ x.users, y ∉ p.held f)
    (hx : x ≠ .cqThread) (ht : ∀ f, p.threaded f = false) (hw : ∀ f, p.wronged f = q.wronged f) :
    k.book.destroy ConnObj.users x = k.book.release ConnObj.users x ∧
      q.Inv { k with book := k.book.release ConnObj.users x } := by
  have hfail := h.failed
  rw [hp, Bool.and_eq_true, Bool.not_eq_true'] at hfail
  obtain ⟨hsome, hst⟩ := hfail
  have hthread : k.book.live .cqThread = false := by
    have := h.thread
    rw [ht] at this
    simpa using this
  have huse : k.book.inUse ConnObj.users x = false := h.has.inUse (hu _ hst) hthread
  have hlive : k.book.live x = true := by
    rw [h.has.live x hx, hheld _ hst]
    simp
  have hhas := h.has
  rw [hheld _ hst] at hhas
  refine ⟨Book.destroy_eq_release huse, hhas.release (hn _ hst) _, hq _ hsome hst, ?_, ?_⟩
  · simp [hx.symm, hthread]
  · exact (Book.misused_release hlive huse).trans (h.misused.trans (hw _))

end SetupPc.Inv

/-- What one call of `rpmem_connect_request_handler` does: it goes on, or the request is
finished, accepted if no call failed and rejected otherwise. -/
inductive Process.Handles (s t : Process) : Prop
  | goesOn (q : SetupPc) (k : ConnSetup) (inv : q.Inv k) (h : t = s.setCurrent k q)
  | accepted (none : s.current.failed = none) (left : s.current.Left)
      (h : t = { s with conns := s.next :: s.conns, next := s.next + 1, cm := .acking })
  | rejected (some : s.current.failed ≠ none) (left : s.current.Left)
      (h : t = { s with rejects := s.next :: s.rejects, next := s.next + 1, cm := .acking })

/-- A call that acquires an object, or fails. -/
theorem Process.Handles.acquire {x : ConnObj} {q r : SetupPc} (ok : Bool)
    (hok : q.Inv { s.current with book := s.current.book.acquire x })
    (hfail : r.Inv { s.current with failed := some p }) :
    s.Handles (s.setupAcquire p x ok q r) := by
  cases ok with
  | true => exact .goesOn q _ hok rfl
  | false => exact .goesOn r _ hfail rfl

/-- A call that acquires nothing, or fails. -/
theorem Process.Handles.check {q r : SetupPc} (ok : Bool) (hok : q.Inv s.current)
    (hfail : r.Inv { s.current with failed := some p }) :
    s.Handles (s.setupCheck p ok q r) := by
  cases ok with
  | true => exact .goesOn q _ hok rfl
  | false => exact .goesOn r _ hfail rfl

theorem SetupPc.canFail_freeUnit {f : Option SetupPc} (hf : f.isSome = true)
    (hs : started f = false) : SetupPc.freeUnit.canFail f = true := by
  rw [canFail, hf, Bool.true_and, Bool.and_eq_true, decide_eq_true_eq, decide_eq_true_eq]
  constructor <;> rintro rfl <;> cases hs

/-- The unit goes: rightly if `rpmem_conn_init` has undone the rest, else under the regions of
its buffers. -/
theorem SetupPc.Inv.freeUnit (h : SetupPc.freeUnit.Inv k) :
    SetupPc.reject.Inv { k with book := k.book.release ConnObj.users .unit } := by
  have hfail := h.failed
  simp only [canFail, Bool.and_eq_true, decide_eq_true_eq] at hfail
  obtain ⟨⟨hsome, hrecv⟩, haccept⟩ := hfail
  have hlive : k.book.live .unit = true := by
    rw [h.has.live .unit (by simp)]
    simp [held]
  have hthread : (k.book.release ConnObj.users .unit).live .cqThread = true →
      started k.failed = true := fun hl => h.thread (by simpa using hl)
  cases hst : started k.failed with
  | false =>
      have hkeeps := keeps_of_not_started hst
      have hno : k.book.live .cqThread = false := by
        have := h.thread
        rw [threaded, hst] at this
        simpa using this
      have huse : k.book.inUse ConnObj.users .unit = false :=
        h.has.inUse (by simp [held, hkeeps, ConnObj.users]) hno
      refine ⟨h.has.release (by simp [hkeeps]) _, hsome, hthread, ?_⟩
      rw [Book.misused_release hlive huse, h.misused]
      exact (wronged_of_not_started hst).symm
  | true =>
      have hqp : k.failed = some .createQp := by
        cases hf : k.failed with
        | none => simp [hf] at hsome
        | some p => cases p <;> simp_all [started]
      have huse : k.book.inUse ConnObj.users .unit = true := by
        refine Book.inUse_of_live (y := .reqMr) (by simp [ConnObj.users]) ?_
        rw [h.has.live .reqMr (by simp)]
        simp [held, hqp, keeps]
      refine ⟨h.has.release (by simp [hqp, keeps]) _, hsome, hthread, ?_⟩
      have hmis := h.misused
      simp only [Book.release, hlive, huse]
      simp [hmis, SetupPc.wronged, Rpmem.wronged, hqp]

/-- **One call of the handler.** -/
theorem SetupPc.Inv.handles (ok : Bool) (h : p.Inv s.current) :
    s.Handles (s.rpmemConnectRequest ok p) := by
  cases p with
  | calloc | allocPd | regReq | regRsp | createCompChannel | createCq =>
      refine .acquire ok ?_ ?_
      · exact h.acquire (by simp) (by simp [held]) (fun _ => rfl) (fun _ => rfl) rfl
          (by simp [threaded]) rfl
      · exact h.fail (fun _ => rfl) rfl (by simp [held, keeps]) (by simp [threaded]) rfl
  | reqNotify =>
      refine .check ok ⟨h.has, h.failed, h.thread, h.misused⟩ ?_
      exact h.fail (fun _ => rfl) rfl (by simp [held]) (by simp [threaded]) rfl
  | createThread =>
      cases ok with
      | true =>
          refine .goesOn .createQp _ ?_ rfl
          refine ⟨h.has.thread _ _ (fun y hy => by simp [hy]) ?_, h.failed, fun _ => rfl, h.misused⟩
          have := h.thread
          simp only [threaded, Bool.false_eq_true, imp_false, Bool.not_eq_true] at this
          exact Book.lost_acquire this
      | false => exact .goesOn .createQp _ ⟨h.has, h.failed, fun _ => rfl, h.misused⟩ rfl
  | createQp =>
      refine .acquire ok ?_ ?_
      · exact h.acquire (by simp) (by simp [held]) (fun _ => rfl) (fun _ => rfl) rfl
          (by simp [threaded]) rfl
      · exact h.fail (fun _ => rfl) rfl (fun y => by cases y <;> simp [held, keeps])
          (by simp [threaded, started]) rfl
  | postRecv | accept =>
      refine .check ok ⟨h.has, h.failed, h.thread, h.misused⟩ ?_
      exact h.fail (fun _ => rfl) rfl (by simp [held, keeps]) (by simp [threaded, started]) rfl
  | insert =>
      have hnone : s.current.failed = none := by simpa [canFail] using h.failed
      refine .accepted hnone ⟨?_, ?_, ?_⟩ rfl
      · rw [hnone]
        exact h.has
      · rw [hnone]
        exact fun _ => rfl
      · rw [hnone]
        exact h.misused
  | cqError =>
      obtain ⟨hd, hinv⟩ := h.unwind (x := .cq) (q := .compError) (fun _ => rfl)
        (fun f hf hs => by simp [canFail, hf, hs]) (fun _ _ => rfl) (fun _ _ => by simp [held])
        (fun _ _ => by simp [held, ConnObj.users]) (by simp) (fun _ => rfl) (fun _ => rfl)
      exact .goesOn .compError _ hinv
        (by simp only [Process.rpmemConnectRequest, Process.setupDestroy, hd])
  | compError =>
      obtain ⟨hd, hinv⟩ := h.unwind (x := .compChannel) (q := .sendMrError) (fun _ => rfl)
        (fun f hf hs => by simp [canFail, hf, hs]) (fun _ _ => rfl) (fun _ _ => by simp [held])
        (fun _ _ => by simp [held, ConnObj.users]) (by simp) (fun _ => rfl) (fun _ => rfl)
      exact .goesOn .sendMrError _ hinv
        (by simp only [Process.rpmemConnectRequest, Process.setupDestroy, hd])
  | sendMrError =>
      obtain ⟨-, hinv⟩ := h.unwind (x := .rspMr) (q := .recvMrError) (fun _ => rfl)
        (fun f hf hs => by simp [canFail, hf, hs]) (fun _ _ => rfl) (fun _ _ => by simp [held])
        (fun _ _ => by simp [held, ConnObj.users]) (by simp) (fun _ => rfl) (fun _ => rfl)
      exact .goesOn .recvMrError _ hinv rfl
  | recvMrError =>
      obtain ⟨-, hinv⟩ := h.unwind (x := .reqMr) (q := .pdError) (fun _ => rfl)
        (fun f hf hs => by simp [canFail, hf, hs]) (fun _ _ => rfl) (fun _ _ => by simp [held])
        (fun _ _ => by simp [held, ConnObj.users]) (by simp) (fun _ => rfl) (fun _ => rfl)
      exact .goesOn .pdError _ hinv rfl
  | pdError =>
      obtain ⟨hd, hinv⟩ := h.unwind (x := .pd) (q := .freeUnit) (fun _ => rfl)
        (fun f hf hs => canFail_freeUnit hf hs)
        (fun f hs => by simp [held, keeps_of_not_started hs])
        (fun f hs => by simp [held, keeps_of_not_started hs])
        (fun _ _ => by simp [held, ConnObj.users]) (by simp) (fun _ => rfl) (fun _ => rfl)
      exact .goesOn .freeUnit _ hinv
        (by simp only [Process.rpmemConnectRequest, Process.setupDestroy, hd])
  | freeUnit => exact .goesOn .reject _ h.freeUnit rfl
  | reject =>
      refine .rejected ?_ ⟨h.has, h.thread, h.misused⟩ rfl
      simpa [canFail, Option.isSome_iff_ne_none] using h.failed

/-! ### Every request of a run -/

/-- A connection nobody has touched. -/
def ConnSetup.blank : ConnSetup := ⟨Book.empty, none⟩

/-- A connection whose request has been fetched. -/
def ConnSetup.requested : ConnSetup := ⟨Book.empty.acquire .cmaId, none⟩

theorem SetupPc.Inv.calloc : SetupPc.calloc.Inv ConnSetup.requested :=
  ⟨⟨fun x _ => by cases x <;> rfl, rfl⟩, rfl, by rintro ⟨⟩, rfl⟩

/-- No request is in hand. -/
def ListenPc.atRest : ListenPc → Bool
  | .absent | .waiting | .acking => true
  | .handling ev => decide (ev ≠ .connectRequest)
  | .setup _ | .exited => false

/-- The invariant: the connection in hand is as far as the handler has come, those before are
finished, in `conns_list` or rejected, newest first, and those after are untouched. -/
structure Process.AcceptInv (s : Process) : Prop where
  current : ∀ p, s.cm = .setup p → p.Inv s.current
  fetched : s.cm = .handling .connectRequest → s.current = .requested
  untouched : s.cm.atRest = true → s.current = .blank
  later : ∀ i, s.next < i → s.conn i = .blank
  left : ∀ i, i < s.next → (s.conn i).Left
  conns : ∀ i, i ∈ s.conns ↔ i < s.next ∧ (s.conn i).failed = none
  rejects : ∀ i, i ∈ s.rejects ↔ i < s.next ∧ (s.conn i).failed ≠ none
  newest : s.conns.Pairwise (· > ·)
  refused : s.rejects.Pairwise (· > ·)
  early : s.main.early = true → s.cm = .absent

namespace Process.AcceptInv

theorem initial (junk : MainObj → Bool) (blk : Bool) : (Process.initial junk blk).AcceptInv :=
  ⟨by rintro p ⟨⟩, by rintro ⟨⟩, fun _ => rfl, fun _ _ => rfl,
    fun i hi => absurd hi (Nat.not_lt_zero i),
    fun i => by simp [Process.initial], fun i => by simp [Process.initial], .nil, .nil,
    fun _ => rfl⟩

/-- A step that leaves the connections alone. -/
theorem of_eq (h : s.AcceptInv) (hcm : ∀ p, t.cm = .setup p → s.cm = .setup p)
    (hreq : t.cm = .handling .connectRequest → s.cm = .handling .connectRequest)
    (hrest : t.cm.atRest = true → s.cm.atRest = true) (hconn : t.conn = s.conn)
    (hnext : t.next = s.next) (hconns : t.conns = s.conns) (hrej : t.rejects = s.rejects)
    (hearly : t.main.early = true → t.cm = .absent) : t.AcceptInv := by
  obtain ⟨hcur, hfet, hun, hlater, hleft, hc, hr, hnew, href, -⟩ := h
  refine ⟨fun p hp => ?_, fun ht => ?_, fun ht => ?_, ?_, ?_, ?_, ?_, ?_, ?_, hearly⟩
  · simpa only [Process.current, hconn, hnext] using hcur p (hcm p hp)
  · simpa only [Process.current, hconn, hnext] using hfet (hreq ht)
  · simpa only [Process.current, hconn, hnext] using hun (hrest ht)
  all_goals simpa only [hconn, hnext, hconns, hrej]

theorem apart (h : s.AcceptInv) (hs : s.Apart t) : t.AcceptInv := by
  have hearly (ht : t.main.early = true) : t.cm = .absent := by
    rcases hs.cm with hcm | ⟨-, -, hnot⟩
    · rw [hcm, h.early (hs.early ht)]
    · rw [hnot] at ht
      cases ht
  have hsame {c : ListenPc} (hne : c ≠ .waiting) (ht : t.cm = c) : s.cm = c := by
    rcases hs.cm with hcm | ⟨-, hcm, -⟩
    · rw [← hcm, ht]
    · exact absurd (ht.symm.trans hcm) hne
  refine h.of_eq (fun p => hsame (by simp)) (hsame (by simp)) (fun ht => ?_) hs.conn hs.next
    hs.conns hs.rejects hearly
  · rcases hs.cm with hcm | ⟨hm, -, -⟩
    · rw [← hcm, ht]
    · rw [h.early (by rw [hm]; rfl)]
      rfl

/-- `cm_thread` goes from one place to another with no request in hand. -/
theorem cm (h : s.AcceptInv) (hcm : s.cm ≠ .absent) {c : ListenPc} {n : ℕ} {b : Book MainObj}
    (hsetup : ∀ p, c ≠ .setup p) (hreq : c ≠ .handling .connectRequest)
    (hrest : c.atRest = true → s.cm.atRest = true) :
    { s with cm := c, unacked := n, book := b }.AcceptInv := by
  refine h.of_eq (fun p hp => absurd hp (hsetup p)) (fun ht => absurd ht hreq) hrest rfl rfl rfl
    rfl fun ht => ?_
  exact absurd (h.early ht) hcm

/-- A step that changes the connection in hand, and no other. -/
theorem inHand (h : s.AcceptInv) (hconn : t.conn = Function.update s.conn s.next k)
    (hsame : t.next = s.next ∧ t.conns = s.conns ∧ t.rejects = s.rejects)
    (hsetup : ∀ p, t.cm = .setup p → p.Inv k)
    (hfet : t.cm = .handling .connectRequest → k = .requested) (hrest : t.cm.atRest = false)
    (hearly : t.main.early = true → t.cm = .absent) : t.AcceptInv := by
  obtain ⟨hnext, hconns, hrej⟩ := hsame
  have hself : t.current = k := by
    rw [Process.current, hconn, hnext]
    exact Function.update_self ..
  have hne {i : ℕ} (hi : i ≠ s.next) : t.conn i = s.conn i := by
    rw [hconn]
    exact Function.update_of_ne hi ..
  refine ⟨fun p hp => ?_, fun hc => ?_, fun hc => ?_, fun i hi => ?_, fun i hi => ?_, fun i => ?_,
    fun i => ?_, hconns ▸ h.newest, hrej ▸ h.refused, hearly⟩
  · rw [hself]
    exact hsetup p hp
  · rw [hself]
    exact hfet hc
  · rw [hrest] at hc
    cases hc
  · rw [hnext] at hi
    exact (hne (Nat.ne_of_gt hi)).trans (h.later i hi)
  · rw [hnext] at hi
    rw [hne (Nat.ne_of_lt hi)]
    exact h.left i hi
  · rw [hconns, hnext]
    refine (h.conns i).trans (and_congr_right fun hi => ?_)
    rw [hne (Nat.ne_of_lt hi)]
  · rw [hrej, hnext]
    refine (h.rejects i).trans (and_congr_right fun hi => ?_)
    rw [hne (Nat.ne_of_lt hi)]

/-- An event is fetched; a connection request brings its id. -/
theorem getEvent (h : s.AcceptInv) (hcm : s.cm = .waiting) (ev : CmEvent) :
    (s.getEvent ev).AcceptInv := by
  have habs : s.cm ≠ .absent := by simp [hcm]
  cases ev with
  | connectRequest =>
      have hblank := h.untouched (by rw [hcm]; rfl)
      exact h.inHand rfl ⟨rfl, rfl, rfl⟩ (by rintro p ⟨⟩) (fun _ => by rw [hblank]; rfl) rfl
        fun ht => absurd (h.early ht) habs
  | _ => exact h.cm habs (by simp) (by simp) fun _ => by rw [hcm]; rfl

/-- A request comes to hand. -/
theorem request (h : s.AcceptInv) (hcm : s.cm = .handling .connectRequest) :
    { s with cm := .setup .calloc }.AcceptInv := by
  refine h.inHand (Function.update_eq_self s.next s.conn).symm ⟨rfl, rfl, rfl⟩ ?_ (by rintro ⟨⟩)
    rfl fun ht => absurd (h.early ht) (by simp [hcm])
  rintro p ⟨⟩
  rw [show s.conn s.next = .requested from h.fetched hcm]
  exact .calloc

/-- The handler goes on with the connection in hand. -/
theorem goesOn (h : s.AcceptInv) (habs : s.cm ≠ .absent) (hinv : p.Inv k) :
    (s.setCurrent k p).AcceptInv :=
  h.inHand rfl ⟨rfl, rfl, rfl⟩ (by rintro q ⟨⟩; exact hinv) (by rintro ⟨⟩) rfl
    fun ht => absurd (h.early ht) habs

/-- The request in hand is finished. -/
theorem finish (h : s.AcceptInv) (habs : s.cm ≠ .absent) (hleft : s.current.Left)
    {conns rejects : List ℕ}
    (hc : ∀ i, i ∈ conns ↔ i ∈ s.conns ∨ i = s.next ∧ s.current.failed = none)
    (hr : ∀ i, i ∈ rejects ↔ i ∈ s.rejects ∨ i = s.next ∧ s.current.failed ≠ none)
    (hnew : conns.Pairwise (· > ·)) (href : rejects.Pairwise (· > ·)) :
    { s with conns, rejects, next := s.next + 1, cm := .acking }.AcceptInv := by
  have hsplit (i : ℕ) (q : Option SetupPc → Prop) :
      (i < s.next + 1 ∧ q (s.conn i).failed) ↔
        (i < s.next ∧ q (s.conn i).failed) ∨ i = s.next ∧ q s.current.failed := by
    rw [Nat.lt_succ_iff_lt_or_eq, or_and_right]
    refine or_congr_right (and_congr_right ?_)
    rintro rfl
    rfl
  refine ⟨by rintro q ⟨⟩, by rintro ⟨⟩, fun _ => h.later _ (Nat.lt_succ_self _),
    fun i hi => h.later i (Nat.lt_of_succ_lt hi), fun i hi => ?_, fun i => ?_, fun i => ?_, hnew,
    href, fun ht => absurd (h.early ht) habs⟩
  · rcases Nat.lt_succ_iff_lt_or_eq.1 hi with hi | rfl
    · exact h.left i hi
    · exact hleft
  · rw [hc, h.conns]
    exact (hsplit i (· = none)).symm
  · rw [hr, h.rejects]
    exact (hsplit i (· ≠ none)).symm

/-- **One call of the handler** keeps the invariant. -/
theorem setup (h : s.AcceptInv) (hcm : s.cm = .setup p) (ok : Bool) :
    (s.rpmemConnectRequest ok p).AcceptInv := by
  have habs : s.cm ≠ .absent := by simp [hcm]
  cases (h.current p hcm).handles ok with
  | goesOn q k hinv heq =>
      rw [heq]
      exact h.goesOn habs hinv
  | accepted hnone hleft heq =>
      rw [heq]
      refine h.finish habs hleft (fun i => ?_) (fun i => ?_) ?_ h.refused
      · rw [List.mem_cons, hnone, or_comm]
        simp
      · simp [hnone]
      · exact List.pairwise_cons.2 ⟨fun i hi => ((h.conns i).1 hi).1, h.newest⟩
  | rejected hsome hleft heq =>
      rw [heq]
      refine h.finish habs hleft (fun i => ?_) (fun i => ?_) h.newest ?_
      · simp [hsome]
      · rw [List.mem_cons, or_comm]
        simp [hsome]
      · exact List.pairwise_cons.2 ⟨fun i hi => ((h.rejects i).1 hi).1, h.refused⟩

end Process.AcceptInv

/-- A connection whose completion thread has ended. -/
def ConnSetup.endThread (k : ConnSetup) : ConnSetup :=
  { k with book := k.book.release ConnObj.users .cqThread }

/-- Its thread aside, a connection is what it was. -/
theorem ConnSetup.endThread_same (hk : k.book.live .cqThread = true) :
    (∀ y, y ≠ .cqThread → k.endThread.book.live y = k.book.live y) ∧
      k.endThread.book.lost = k.book.lost ∧ k.endThread.book.misused = k.book.misused ∧
      k.endThread.book.live .cqThread = false :=
  ⟨fun y hy => by simp [ConnSetup.endThread, hy], rfl, Book.misused_release hk rfl,
    by simp [ConnSetup.endThread]⟩

theorem SetupPc.Inv.endThread (h : p.Inv k) (hk : k.book.live .cqThread = true) :
    p.Inv k.endThread := by
  obtain ⟨hlive, hlost, hmis, hoff⟩ := ConnSetup.endThread_same hk
  exact ⟨h.has.thread _ _ hlive hlost, h.failed, fun ht => absurd ht (by simp [hoff]),
    hmis.trans h.misused⟩

theorem ConnSetup.Left.endThread (h : k.Left) (hk : k.book.live .cqThread = true) :
    k.endThread.Left := by
  obtain ⟨hlive, hlost, hmis, hoff⟩ := ConnSetup.endThread_same hk
  exact ⟨h.has.thread _ _ hlive hlost, fun ht => absurd ht (by simp [hoff]), hmis.trans h.misused⟩

theorem Process.AcceptInv.cqExit (h : s.AcceptInv) {i : ℕ}
    (hi : (s.conn i).book.live .cqThread = true) : (s.cqExit i).AcceptInv := by
  have hself : (s.cqExit i).conn i = (s.conn i).endThread := Function.update_self ..
  have hne {j : ℕ} (hj : j ≠ i) : (s.cqExit i).conn j = s.conn j := Function.update_of_ne hj _ _
  have hfailed (j : ℕ) : ((s.cqExit i).conn j).failed = (s.conn j).failed := by
    by_cases hj : j = i
    · rw [hj, hself]
      rfl
    · rw [hne hj]
  -- a connection without a thread is not this one
  have hcurrent {k : ConnSetup} (hk : k.book.live .cqThread = false) (hcur : s.current = k) :
      (s.cqExit i).current = k := by
    have hne' : s.next ≠ i := by
      rintro rfl
      rw [← hcur, show s.current.book.live .cqThread = true from hi] at hk
      cases hk
    exact (hne hne').trans hcur
  refine ⟨fun q hq => ?_, fun hc => hcurrent rfl (h.fetched hc),
    fun hrest => hcurrent rfl (h.untouched hrest), fun j hj => ?_, fun j hj => ?_, fun j => ?_,
    fun j => ?_, h.newest, h.refused, h.early⟩
  · have hinv := h.current q hq
    by_cases hcur : s.next = i
    · subst hcur
      rw [Process.current, show (s.cqExit s.next).next = s.next from rfl, hself]
      exact hinv.endThread hi
    · rw [Process.current, show (s.cqExit i).next = s.next from rfl, hne hcur]
      exact hinv
  · have hblank := h.later j hj
    have hji : j ≠ i := by
      rintro rfl
      rw [hblank] at hi
      cases hi
    rw [hne hji, hblank]
  · by_cases hji : j = i
    · subst hji
      rw [hself]
      exact (h.left j hj).endThread hi
    · rw [hne hji]
      exact h.left j hj
  · rw [hfailed]
    exact h.conns j
  · rw [hfailed]
    exact h.rejects j

theorem Process.AcceptInv.step (h : s.AcceptInv) {a : ServerLabel} (hs : processStep s a = some t) :
    t.AcceptInv := by
  cases (processStep_cases hs).2 with
  | inargs opts extra hm => exact h.apart (Process.processInargs_apart extra opts hm)
  | main ok _ hmain => exact h.apart (Process.mainStep_apart hmain)
  | gotEvent ev hcm => exact h.getEvent hcm ev
  | getEventFailed hcm => exact h.cm (by simp [hcm]) (by simp) (by simp) (by rintro ⟨⟩)
  | handled ok ev hcm =>
      have habs : s.cm ≠ .absent := by simp [hcm]
      cases ev with
      | connectRequest => exact h.request hcm
      | _ => exact h.cm habs (by simp) (by simp) fun _ => by rw [hcm]; rfl
  | setUp ok p hcm => exact h.setup hcm ok
  | acked ok hcm => exact h.cm (by simp [hcm]) (by simp) (by simp) fun _ => by rw [hcm]; rfl
  | cancelled hc => exact h.cm (Process.of_cancellable hc).2.1 (by simp) (by simp) (by rintro ⟨⟩)
  | cqExited i hi => exact h.cqExit hi

/-- **What connection requests leave behind.**  In every state of the server process, over any
interleaving of `main`, `cm_thread` and the completion threads, any events and any outcomes of
the calls: a finished request is in `conns_list` if no call failed whose outcome is looked at,
which that of `pthread_create` is not, and rejected otherwise.  Its id is left in any case.  If
`calloc` or `rpmem_conn_init` failed nothing else is; if there was no queue pair its regions, its
queue, its channel and its protection domain are left and its unit was freed under them; if the
first receive or `rdma_accept` failed all of it is left.  Nothing is lost, or released twice. -/
theorem connection_requests_leave
    (h : Lts.Reachable processStep Lts.anyLabel Process.Starts s) {i : ℕ} (hi : i < s.next) :
    (i ∈ s.conns ↔ (s.conn i).failed = none) ∧ (i ∈ s.rejects ↔ (s.conn i).failed ≠ none) ∧
      (∀ x, x ≠ .cqThread → ((s.conn i).book.live x = true ↔ x ∈ keeps (s.conn i).failed)) ∧
      ((s.conn i).book.live .cqThread = true → started (s.conn i).failed = true) ∧
      (s.conn i).book.lost = [] ∧ (s.conn i).book.misused = wronged (s.conn i).failed := by
  have hinv : s.AcceptInv := h.invariant (by rintro _ ⟨junk, blk, rfl⟩; exact .initial junk blk)
    fun _ _ _ hI _ hs => hI.step hs
  have hleft := hinv.left i hi
  refine ⟨?_, ?_, fun x hx => ?_, hleft.thread, hleft.has.lost, hleft.misused⟩
  · rw [hinv.conns]
    exact and_iff_right hi
  · rw [hinv.rejects]
    exact and_iff_right hi
  · rw [hleft.has.live x hx, decide_eq_true_eq]

/-- The command line sets every field, and `main` gets to `pthread_join`. -/
def startsUp : List ServerLabel :=
  .inargs [.addr true, .port, .resource true] false :: List.replicate 9 (.main true)

/-- A request whose first `n` calls go well. -/
def request (n : ℕ) : List ServerLabel :=
  .getEvent .connectRequest :: List.replicate (n + 1) (.cm true)

/-- One request is accepted, the second gets no queue pair, the third is not accepted, and the
fourth fails in `rpmem_conn_init` and leaves its id. -/
theorem connection_requests_leave_four :
    ∃ s, Lts.Reachable processStep Lts.anyLabel Process.Starts s ∧
      s.next = 4 ∧ s.conns = [0] ∧ s.rejects = [3, 2, 1] ∧
      (s.conn 1).book.misused = wronged (some .createQp) ∧
      ((s.conn 2).book.live .qp = true ↔ ConnObj.qp ∈ keeps (some .accept)) ∧
      ((s.conn 3).book.live .pd = true ↔ ConnObj.pd ∈ keeps (some .createCq)) ∧
      (s.conn 3).book.live .cmaId = true := by
  obtain ⟨s, hs, htest⟩ := Lts.exists_reachable_of_exec processStep Lts.anyLabel Process.Starts
    ⟨fun _ => false, false, rfl⟩
    (startsUp ++ request 13 ++
      request 8 ++ .cm false :: List.replicate 3 (.cm true) ++
      request 10 ++ .cm false :: List.replicate 2 (.cm true) ++
      request 5 ++ .cm false :: List.replicate 7 (.cm true))
    (fun s => decide (s.next = 4 ∧ s.conns = [0] ∧ s.rejects = [3, 2, 1] ∧
      (s.conn 1).failed = some .createQp ∧ (s.conn 2).failed = some .accept ∧
      (s.conn 3).failed = some .createCq)) (by decide)
  obtain ⟨hnext, hconns, hrej, h1, h2, h3⟩ := of_decide_eq_true htest
  refine ⟨s, hs, hnext, hconns, hrej, ?_, ?_, ?_, ?_⟩
  · rw [← h1]
    exact (connection_requests_leave hs (by omega)).2.2.2.2.2
  · rw [← h2]
    exact (connection_requests_leave hs (by omega)).2.2.1 .qp (by simp)
  · rw [← h3]
    exact (connection_requests_leave hs (by omega)).2.2.1 .pd (by simp)
  · refine ((connection_requests_leave hs (by omega)).2.2.1 .cmaId (by simp)).2 ?_
    rw [h3]
    simp [keeps]

/-! ### Every event is acknowledged, every request answered -/

/-- The connection requests fetched so far. -/
def noteRequests (_ : Process) (a : ServerLabel) (_ : Process) (n : ℕ) : ℕ :=
  if a = .getEvent .connectRequest then n + 1 else n

/-- The events fetched and not acknowledged. -/
def ListenPc.owed : ListenPc → ℕ
  | .handling _ | .setup _ | .acking => 1
  | .absent | .waiting | .exited => 0

/-- The connection requests fetched and not answered. -/
def ListenPc.requested : ListenPc → ℕ
  | .handling .connectRequest | .setup _ => 1
  | _ => 0

theorem ListenPc.owed_le_one (c : ListenPc) : c.owed ≤ 1 := by
  cases c <;> simp [owed]

/-- `cm_thread` owes what it has in hand, and at its end nothing, or one event if it was
cancelled. -/
structure Process.AnswerInv (s : Process) (n : ℕ) : Prop where
  one : s.unacked ≤ 1
  inHand : s.cm ≠ .exited → s.unacked = s.cm.owed ∧ n = s.next + s.cm.requested
  atEnd : s.cm = .exited → s.cancelled = false → s.unacked = 0 ∧ n = s.next

namespace Process.AnswerInv

variable {n : ℕ}

theorem apart (h : s.AnswerInv n) (ha : s.AcceptInv) (hs : s.Apart t) : t.AnswerInv n := by
  refine ⟨hs.unacked ▸ h.one, fun hne => ?_, fun hex hc => ?_⟩
  · rw [hs.unacked, hs.next]
    rcases hs.cm with hcm | ⟨hm, hcm, -⟩
    · rw [hcm] at hne ⊢
      exact h.inHand hne
    · -- `cm_thread` starts: it was not there before
      have habs := ha.early (by rw [hm]; rfl)
      rw [hcm]
      have := h.inHand (by simp [habs])
      rwa [habs] at this
  · rw [hs.unacked, hs.next]
    rcases hs.cm with hcm | ⟨-, hcm, -⟩
    · exact h.atEnd (hcm.symm.trans hex) (hs.cancelled hc)
    · cases hcm.symm.trans hex

/-- The thread ends while it waits, or because it was cancelled. -/
theorem cmExit (h : s.AnswerInv n) (hcm : s.cm = .waiting ∨ s.cancelled = true) :
    s.cmExit.AnswerInv n := by
  refine ⟨h.one, fun hne => absurd rfl hne, fun _ hc => ?_⟩
  rcases hcm with hcm | hcan
  · have := h.inHand (by simp [hcm])
    rwa [hcm] at this
  · rw [show s.cancelled = false from hc] at hcan
    cases hcan

/-- What `cm_thread` owes while it is there is what it has in hand. -/
theorem of_inHand (hne : s.cm ≠ .exited) (hun : s.unacked = s.cm.owed)
    (hn : n = s.next + s.cm.requested) : s.AnswerInv n :=
  ⟨hun ▸ s.cm.owed_le_one, fun _ => ⟨hun, hn⟩, fun hex => absurd hex hne⟩

theorem step (h : s.AnswerInv n) (ha : s.AcceptInv) {a : ServerLabel}
    (hs : processStep s a = some t) : t.AnswerInv (noteRequests s a t n) := by
  cases (processStep_cases hs).2 with
  | inargs opts extra hm => exact h.apart ha (Process.processInargs_apart extra opts hm)
  | main ok _ hmain => exact h.apart ha (Process.mainStep_apart hmain)
  | getEventFailed hcm => exact h.cmExit (.inl hcm)
  | cancelled hc => exact h.cmExit (.inr (Process.of_cancellable hc).1)
  | gotEvent ev hcm =>
      obtain ⟨hun, hn⟩ := h.inHand (by simp [hcm])
      rw [hcm] at hun hn
      refine .of_inHand (by rintro ⟨⟩) (congrArg (· + 1) hun) ?_
      cases ev with
      | connectRequest => exact congrArg (· + 1) hn
      | _ => exact hn
  | handled ok ev hcm =>
      obtain ⟨hun, hn⟩ := h.inHand (by simp [hcm])
      rw [hcm] at hun hn
      cases ev with
      | connectRequest => exact .of_inHand (by rintro ⟨⟩) hun hn
      | _ => exact .of_inHand (by rintro ⟨⟩) hun hn
  | setUp ok p hcm =>
      obtain ⟨hun, hn⟩ := h.inHand (by simp [hcm])
      rw [hcm] at hun hn
      cases (ha.current p hcm).handles ok with
      | goesOn q k _ heq =>
          rw [heq]
          exact .of_inHand (by rintro ⟨⟩) hun hn
      | accepted _ _ heq =>
          rw [heq]
          exact .of_inHand (by rintro ⟨⟩) hun hn
      | rejected _ _ heq =>
          rw [heq]
          exact .of_inHand (by rintro ⟨⟩) hun hn
  | acked ok hcm =>
      obtain ⟨hun, hn⟩ := h.inHand (by simp [hcm])
      rw [hcm] at hun hn
      exact .of_inHand (by rintro ⟨⟩) (congrArg (· - 1) hun) hn
  | cqExited i hi => exact ⟨h.one, h.inHand, h.atEnd⟩

end Process.AnswerInv

/-- The ways `cm_thread` ends: `rdma_get_cm_event` fails, or `main` has cancelled it. -/
theorem processStep_exits {a : ServerLabel} (h : processStep s a = some t) (hs : s.cm ≠ .exited)
    (ht : t.cm = .exited) :
    a = .getEventFails ∧ s.cm = .waiting ∨ a = .cmCancelled ∧ s.cancelled = true := by
  have hapart (hap : s.Apart t) : t.cm ≠ .exited := by
    rcases hap.cm with hcm | ⟨-, hcm, -⟩
    · rwa [hcm]
    · simp [hcm]
  cases (processStep_cases h).2 with
  | inargs opts extra hm => exact absurd ht (hapart (Process.processInargs_apart extra opts hm))
  | main ok _ hmain => exact absurd ht (hapart (Process.mainStep_apart hmain))
  | getEventFailed hcm => exact .inl ⟨rfl, hcm⟩
  | cancelled hc => exact .inr ⟨rfl, (Process.of_cancellable hc).1⟩
  | gotEvent | acked => cases ht
  | handled ok ev => cases ev <;> cases ht
  | setUp ok p => cases p <;> cases ok <;> cases ht
  | cqExited => exact absurd ht hs

/-- **The server acknowledges every event and answers every request.**  In every state of the
server process, over any interleaving, any events and any outcomes: at most one event is not
acknowledged, and none while `cm_thread` waits for the next.  Then every connection request
fetched has been answered, once: its connection is in `conns_list`, or it was rejected.  The
thread ends in two ways, by a failed `rdma_get_cm_event` and by a cancellation of `main`; if it
was not cancelled it ends with nothing owed. -/
theorem server_answers_every_request {q : Process × ℕ}
    (h : Lts.Reachable (Lts.noted processStep noteRequests) Lts.anyLabel
      (fun q => q.1.Starts ∧ q.2 = 0) q) :
    (∀ i, i ∈ q.1.conns ∨ i ∈ q.1.rejects ↔ i < q.1.next) ∧
      (∀ i, i ∈ q.1.conns → i ∉ q.1.rejects) ∧ q.1.conns.Nodup ∧ q.1.rejects.Nodup ∧
      (q.1.cm = .waiting → q.1.unacked = 0 ∧ q.1.next = q.2) ∧
      (q.1.cm = .exited → q.1.cancelled = false → q.1.unacked = 0 ∧ q.1.next = q.2) ∧
      q.1.unacked ≤ 1 ∧
      ∀ a t, processStep q.1 a = some t → q.1.cm ≠ .exited → t.cm = .exited →
        a = .getEventFails ∧ q.1.cm = .waiting ∨ a = .cmCancelled ∧ q.1.cancelled = true := by
  obtain ⟨ha, hb⟩ : q.1.AcceptInv ∧ q.1.AnswerInv q.2 := by
    refine h.invariant (I := fun q => q.1.AcceptInv ∧ q.1.AnswerInv q.2) ?_ ?_
    · rintro ⟨s, n⟩ ⟨⟨junk, blk, rfl⟩, rfl⟩
      exact ⟨.initial junk blk, .of_inHand (by rintro ⟨⟩) rfl rfl⟩
    · rintro p a q ⟨hacc, hans⟩ - hs
      obtain ⟨hstep, hnote⟩ := Lts.noted_eq_some hs
      exact ⟨hacc.step hstep, hnote ▸ hans.step hacc hstep⟩
  refine ⟨fun i => ?_, fun i hi hr => ?_, ha.newest.imp Nat.ne_of_gt, ha.refused.imp Nat.ne_of_gt,
    fun hcm => ?_, fun hcm hc => ?_, hb.one, fun a t => processStep_exits⟩
  · rw [ha.conns, ha.rejects, ← and_or_left]
    exact and_iff_left (em _)
  · exact ((ha.rejects i).1 hr).2 ((ha.conns i).1 hi).2
  · obtain ⟨hun, hn⟩ := hb.inHand (by simp [hcm])
    rw [hcm] at hun hn
    exact ⟨hun, hn.symm⟩
  · obtain ⟨hun, hn⟩ := hb.atEnd hcm hc
    exact ⟨hun, hn.symm⟩

/-- Two requests, the second rejected, an event that is ignored, and `rdma_get_cm_event` fails. -/
theorem server_answers_every_request_two :
    ∃ q, Lts.Reachable (Lts.noted processStep noteRequests) Lts.anyLabel
        (fun q => q.1.Starts ∧ q.2 = 0) q ∧
      (q.1.cm = .exited ∧ q.1.cancelled = false ∧ q.2 = 2) ∧ q.1.unacked = 0 ∧ q.1.next = q.2 := by
  obtain ⟨q, hq, htest⟩ := Lts.exists_reachable_of_exec (Lts.noted processStep noteRequests)
    Lts.anyLabel (fun q => q.1.Starts ∧ q.2 = 0)
    (s := (Process.initial (fun _ => false) false, 0)) ⟨⟨_, _, rfl⟩, rfl⟩
    (startsUp ++ request 13 ++ request 0 ++ .cm false :: List.replicate 2 (.cm true) ++
      [.getEvent .disconnected, .cm true, .cm true, .getEventFails])
    (fun q => decide (q.1.cm = .exited ∧ q.1.cancelled = false ∧ q.2 = 2)) (by decide)
  have hfacts := of_decide_eq_true htest
  exact ⟨q, hq, hfacts, (server_answers_every_request hq).2.2.2.2.2.1 hfacts.1 hfacts.2.1⟩

/-! ### The server of the request handlers -/

/-- What a step is for the server that handles requests: an event of the connection manager has
been handled, a request accepted or not. -/
def Process.cmEvent (s : Process) : ServerLabel → Option ServerEvent
  | .cm _ =>
      match s.cm with
      | .handling .connectRequest => none
      | .handling ev => some (.cm s.next ev false)
      | .setup .insert => some (.cm s.next .connectRequest true)
      | .setup .reject => some (.cm s.next .connectRequest false)
      | _ => none
  | _ => none

/-- The server beside its process. -/
def noteServer (s : Process) (a : ServerLabel) (_ : Process) (x : Server) : Server :=
  match s.cmEvent a with
  | some (.cm c ev accepted) => rpmemServerCmaHandler ev accepted x c
  | _ => x

theorem Process.rpmemConnectRequest_conns (s : Process) (ok : Bool) (p : SetupPc) :
    (s.rpmemConnectRequest ok p).conns = if p = .insert then s.next :: s.conns else s.conns := by
  cases p <;> cases ok <;> rfl

/-- What a step does to `conns_list`: a request accepted, or nothing. -/
theorem processStep_conns {a : ServerLabel} (h : processStep s a = some t) :
    (s.cmEvent a = some (.cm s.next .connectRequest true) ∧ t.conns = s.next :: s.conns) ∨
    ((s.cmEvent a = none ∨ ∃ ev, s.cmEvent a = some (.cm s.next ev false)) ∧
      t.conns = s.conns) := by
  cases (processStep_cases h).2 with
  | inargs opts extra hm =>
      exact .inr ⟨.inl rfl, (Process.processInargs_apart extra opts hm).conns⟩
  | main ok _ hmain => exact .inr ⟨.inl rfl, (Process.mainStep_apart hmain).conns⟩
  | gotEvent | getEventFailed | cancelled | cqExited => exact .inr ⟨.inl rfl, rfl⟩
  | acked ok hcm => exact .inr ⟨.inl (by simp [Process.cmEvent, hcm]), rfl⟩
  | handled ok ev hcm =>
      have hconns : (s.cmaHandler ev).conns = s.conns := by cases ev <;> rfl
      by_cases hev : ev = .connectRequest
      · exact .inr ⟨.inl (by simp [Process.cmEvent, hcm, hev]), hconns⟩
      · exact .inr ⟨.inr ⟨ev, by simp [Process.cmEvent, hcm]⟩, hconns⟩
  | setUp ok p hcm =>
      rw [s.rpmemConnectRequest_conns]
      cases p with
      | insert => exact .inl ⟨by simp [Process.cmEvent, hcm], rfl⟩
      | reject => exact .inr ⟨.inr ⟨.connectRequest, by simp [Process.cmEvent, hcm]⟩, rfl⟩
      | _ => exact .inr ⟨.inl (by simp [Process.cmEvent, hcm]), rfl⟩

/-- **Setting connections up is the connection step of the server.**  The server that handles
requests, brought up to date at each event the process has handled, is one its own transitions
reach, and its connections are those of `conns_list`. -/
theorem setup_refines_server {q : Process × Server}
    (h : Lts.Reachable (Lts.noted processStep noteServer) Lts.anyLabel
      (fun q => q.1.Starts ∧ q.2.Initial) q) :
    q.2.conns = q.1.conns ∧ Lts.Reachable serverStep Lts.anyLabel Server.Initial q.2 := by
  refine (h.invariant (I := fun q => q.1.AcceptInv ∧ q.2.conns = q.1.conns ∧
    Lts.Reachable serverStep Lts.anyLabel Server.Initial q.2) ?_ ?_).2
  · rintro ⟨s, x⟩ ⟨⟨junk, blk, rfl⟩, hx⟩
    exact ⟨.initial junk blk, hx.conns, x, [], hx, .nil x⟩
  · rintro ⟨s, x⟩ a ⟨t, y⟩ ⟨hacc, hconns, hreach⟩ - hs
    obtain ⟨hstep, hnote⟩ := Lts.noted_eq_some hs
    refine ⟨hacc.step hstep, ?_⟩
    simp only at hconns hnote ⊢
    rcases processStep_conns hstep with ⟨hev, ht⟩ | ⟨hev | ⟨ev, hev⟩, ht⟩
    · -- the number of the request is new to the server
      have hnew : s.next ∉ x.conns := by
        rw [hconns, hacc.conns]
        simp
      rw [noteServer, hev] at hnote
      have hy : serverStep x (.cm s.next .connectRequest true) = some y := by
        rw [serverStep, if_neg (by simp [hnew]), hnote]
      refine ⟨?_, hreach.next trivial hy⟩
      rw [ht, ← hconns, hnote]
      rfl
    · rw [noteServer, hev] at hnote
      rw [hnote, ht]
      exact ⟨hconns, hreach⟩
    · have hsame : y = x := hnote.trans (by rw [noteServer, hev]; cases ev <;> rfl)
      rw [hsame, ht]
      exact ⟨hconns, hreach⟩

/-- A request is accepted, and the server that handles requests has its connection. -/
theorem setup_refines_server_accepted :
    ∃ q, Lts.Reachable (Lts.noted processStep noteServer) Lts.anyLabel
        (fun q => q.1.Starts ∧ q.2.Initial) q ∧
      q.1.conns = [0] ∧ q.2.conns = q.1.conns ∧
      Lts.Reachable serverStep Lts.anyLabel Server.Initial q.2 := by
  obtain ⟨q, hq, htest⟩ := Lts.exists_reachable_of_exec (Lts.noted processStep noteServer)
    Lts.anyLabel (fun q => q.1.Starts ∧ q.2.Initial)
    (s := (Process.initial (fun _ => false) false, Server.main ⟨0, 8192, none, 0, 0⟩ Host.blank))
    ⟨⟨_, _, rfl⟩, Server.main_initial _ _ rfl⟩ (startsUp ++ request 13)
    (fun q => decide (q.1.conns = [0])) (by decide)
  exact ⟨q, hq, of_decide_eq_true htest, setup_refines_server hq⟩

end Rpmem
