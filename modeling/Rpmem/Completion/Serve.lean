/-
# The completion thread of the server

The server's `cq_thread` goes round as the client's does, but its queue has room
for 128 completions, more than the budget of 64 of one call, and its
`cq_event_handler` takes leaving at the budget for an error: the thread
acknowledges its event and ends.  So on the server no completion is stranded
behind a thread that goes back to sleep, whatever the depth of the queue; it is
stranded behind a thread that is gone.  That takes 64 completions in one call,
which are 64 arrivals: a connection on which fewer arrive is served to the end.

The thread also ends when a verbs call fails, without an acknowledgement if it
has fetched an event.
-/

import Rpmem.Completion.Notify

namespace Rpmem

variable {α : Type*}

/-- `max_cqe` of `rpmem_conn_init`. -/
def serverMaxCqe : ℕ := 128

/-- Why the thread has ended: a verbs call failed, or `cq_event_handler` returned `-1`. -/
inductive CqExit
  | verbs | budget
  deriving DecidableEq, Repr

/-- The queue with the thread of the server: whether `cq_event_handler` returns `-1`, whether
the thread has ended, and how many completions this call of it has handled. -/
structure Serve (α : Type*) where
  notify : Notify α
  failing : Bool
  exit : Option CqExit
  served : ℕ
  deriving DecidableEq, Repr

/-- `rpmem_conn_init` has armed the queue and started the thread. -/
def Serve.initial : Serve α := ⟨.initial, false, none, 0⟩

/-- The steps of the thread and the queue, and the failure of `ibv_get_cq_event` or of
`ibv_req_notify_cq`, or an event for another queue. -/
inductive ServeLabel (α : Type*)
  | go (a : NotifyLabel α)
  | fail

/-- Whether the thread is at the end of a batch that uses up the budget. -/
def Notify.atBudget (s : Notify α) : Bool :=
  match s.pc with
  | .handling [] completed n => decide (turn completed n = .budget)
  | _ => false

/-- Whether the thread is about to hand a completion to `rpmem_handle_wc`. -/
def Notify.handles (s : Notify α) : Bool :=
  match s.pc with
  | .handling (_ :: _) _ _ => true
  | _ => false

/-- One step.  The queue goes on filling when the thread has ended. -/
def serveStep (depth : ℕ) (s : Serve α) : ServeLabel α → Option (Serve α)
  | .go (.arrive wc) => (notifyStep depth s.notify (.arrive wc)).map fun t => { s with notify := t }
  | .go .reqNotify =>
      if s.exit = none then
        (notifyStep depth s.notify .reqNotify).map fun t => { s with notify := t, served := 0 }
      else none
  | .go .handle =>
      if s.exit = none then
        (notifyStep depth s.notify .handle).map fun t =>
          { s with
            notify := t
            failing := s.notify.atBudget
            served := if s.notify.handles then s.served + 1 else s.served }
      else none
  | .go .ack =>
      if s.exit = none then
        (notifyStep depth s.notify .ack).map fun t =>
          { s with notify := t, exit := if s.failing then some .budget else none }
      else none
  | .go a =>
      if s.exit = none then (notifyStep depth s.notify a).map fun t => { s with notify := t }
      else none
  | .fail =>
      match s.exit, s.notify.pc with
      | none, .waiting | none, .gotEvent => some { s with exit := some .verbs }
      | _, _ => none

/-- How many completions this call has handled, by where the thread is. -/
def Serve.Tally (s : Serve α) : Prop :=
  match s.notify.pc with
  | .polling completed => s.served = completed.toNat
  | .handling wcs completed n => s.served + wcs.length = completed.toNat + n.toNat
  | _ => True

/-- The invariant: the client's as long as the budget lasts, then the thread acknowledges its
event and ends.  `kept` says that no completion is lost, handled twice or overtaken. -/
structure ServeInv (depth : ℕ) (s : Serve α) : Prop where
  kept : s.notify.arrived = s.notify.handled ++ s.notify.batch ++ s.notify.cq
  room : s.notify.cq.length ≤ depth
  total : s.served ≤ s.notify.handled.length
  going : s.exit = none → s.failing = false → NotifyInv depth s.notify ∧ s.Tally
  leaving : s.exit = none → s.failing = true →
    s.notify.pc = .acking ∧ s.notify.unacked = 1 ∧ 64 ≤ s.served
  budget : s.exit = some .budget → s.notify.unacked = 0 ∧ 64 ≤ s.served

variable {depth : ℕ} {s t : Serve α} {m : Notify α}

theorem ServeInv.initial : ServeInv depth (Serve.initial : Serve α) :=
  ⟨rfl, Nat.zero_le _, le_rfl, fun _ _ => ⟨.initial, trivial⟩, by rintro - ⟨⟩, by rintro ⟨⟩⟩

/-- A batch is added to the count without overflow. -/
theorem NotifyInv.toNat_add {completed n : CInt} (h : NotifyInv depth m)
    (hpc : m.pc = .handling [] completed n) :
    (completed + n).toNat = completed.toNat + n.toNat := by
  have hcounts := h.counts
  simp only [Notify.Counts, hpc] at hcounts
  rw [BitVec.toNat_add]
  exact Nat.mod_eq_of_lt (by omega)

/-- After a batch that does not use up the budget, with a queue of any depth. -/
theorem NotifyInv.afterBatch_of_ne {completed n : CInt} (h : NotifyInv depth m)
    (hpc : m.pc = .handling [] completed n) (hne : turn completed n ≠ .budget) :
    NotifyInv depth (m.afterBatch completed n) := by
  have hun := h.unacked
  have hkept := h.kept
  have hsum := h.toNat_add hpc
  have hraised : m.armed = false → m.events = 1 := by
    intro hna
    rcases h.raised hna with ⟨-, hgot⟩ | ⟨hev, -⟩
    · cases hpc.symm.trans hgot
    · exact hev
  have huntouched (ha : m.armed = true) :
      m.events = 0 ∧ completed.toNat + n.toNat + m.cq.length ≤ depth ∧ (n = 0 → m.cq = []) := by
    simpa only [Notify.Untouched, hpc] using h.armed ha
  unfold Notify.afterBatch
  unfold turn at hne ⊢
  split_ifs at hne ⊢ with hn hbudget
  · refine ⟨h.room, trivial, fun ha => ?_, fun hna => .inr ⟨hraised hna, by simp⟩, ?_, ?_⟩
    · exact ⟨(huntouched ha).1, (huntouched ha).2.2 hn⟩
    · simpa [Notify.owed, hpc] using hun
    · simpa [Notify.batch, hpc] using hkept
  · exact absurd rfl hne
  · refine ⟨h.room, ?_, fun ha => ?_, fun hna => .inr ⟨hraised hna, by simp⟩, ?_, ?_⟩
    · simpa [Notify.Counts] using hbudget
    · refine ⟨(huntouched ha).1, ?_⟩
      simp only [Notify.Untouched, hsum]
      exact (huntouched ha).2.1
    · simpa [Notify.owed, hpc] using hun
    · simpa [Notify.batch, hpc] using hkept

/-- What each step of the queue and the thread needs and does. -/
inductive Notify.Stepped (depth : ℕ) (m : Notify α) : NotifyLabel α → Notify α → Prop
  | arrived (wc : α) (room : m.cq.length < depth) : Stepped depth m (.arrive wc) (m.arrive wc)
  | gotEvent (events : ℕ) (hpc : m.pc = .waiting) (hev : m.events = events + 1) :
      Stepped depth m .getEvent { m with events, unacked := m.unacked + 1, pc := .gotEvent }
  | rearmed (hpc : m.pc = .gotEvent) :
      Stepped depth m .reqNotify { m with armed := true, pc := .polling 0 }
  | polled (completed : CInt) (n : ℕ) (hpc : m.pc = .polling completed) (h16 : n ≤ 16)
      (hlen : n ≤ m.cq.length) (hzero : n = 0 → m.cq = []) :
      Stepped depth m (.poll n) { m with
        cq := m.cq.drop n
        pc := .handling (m.cq.take n) completed (BitVec.ofNat 32 n) }
  | handled (wc : α) (wcs : List α) (completed n : CInt)
      (hpc : m.pc = .handling (wc :: wcs) completed n) :
      Stepped depth m .handle
        { m with pc := .handling wcs completed n, handled := m.handled ++ [wc] }
  | ended (completed n : CInt) (hpc : m.pc = .handling [] completed n) :
      Stepped depth m .handle (m.afterBatch completed n)
  | acked (hpc : m.pc = .acking) :
      Stepped depth m .ack { m with unacked := m.unacked - 1, pc := .waiting }

theorem notifyStep_cases {a : NotifyLabel α} {m' : Notify α} (h : notifyStep depth m a = some m') :
    m.Stepped depth a m' := by
  cases a with
  | arrive wc =>
      obtain ⟨hroom, ⟨⟩⟩ := Option.ite_none_right_eq_some.1 h
      exact .arrived wc hroom
  | getEvent =>
      simp only [notifyStep] at h
      split at h
      · rename_i hpc hev
        cases h
        exact .gotEvent _ hpc hev
      · cases h
  | reqNotify =>
      simp only [notifyStep] at h
      split at h
      · rename_i hpc
        cases h
        exact .rearmed hpc
      · cases h
  | poll n =>
      simp only [notifyStep] at h
      split at h
      · rename_i hpc
        obtain ⟨⟨h16, hlen, hzero⟩, ⟨⟩⟩ := Option.ite_none_right_eq_some.1 h
        exact .polled _ n hpc h16 hlen hzero
      · cases h
  | handle =>
      simp only [notifyStep] at h
      split at h
      · rename_i hpc
        cases h
        exact .handled _ _ _ _ hpc
      · rename_i hpc
        cases h
        exact .ended _ _ hpc
      · cases h
  | ack =>
      simp only [notifyStep] at h
      split at h
      · rename_i hpc
        cases h
        exact .acked hpc
      · cases h

namespace ServeInv

/-- An arrival, whether or not the thread is still there. -/
theorem arrive (h : ServeInv depth s) (wc : α) (hroom : s.notify.cq.length < depth) :
    ServeInv depth { s with notify := s.notify.arrive wc } where
  kept := by
    have hbatch : (s.notify.arrive wc).batch = s.notify.batch := rfl
    rw [hbatch]
    simp [Notify.arrive, h.kept]
  room := by simpa [Notify.arrive] using Nat.succ_le_of_lt hroom
  total := h.total
  going hex hf := ⟨(h.going hex hf).1.arrive wc hroom, (h.going hex hf).2⟩
  leaving := h.leaving
  budget := h.budget

/-- The thread goes on within its budget. -/
theorem goOn (hex : s.exit = none) (hf : s.failing = false) (hinv : NotifyInv depth s.notify)
    (htally : s.Tally) (htotal : s.served ≤ s.notify.handled.length) : ServeInv depth s where
  kept := hinv.kept
  room := hinv.room
  total := htotal
  going _ _ := ⟨hinv, htally⟩
  leaving _ hf' := by
    rw [hf] at hf'
    cases hf'
  budget hb := by
    rw [hex] at hb
    cases hb

/-- A thread that is not about to acknowledge its event is within its budget. -/
theorem going_of_ne (h : ServeInv depth s) (hex : s.exit = none) (hpc : s.notify.pc ≠ .acking) :
    s.failing = false ∧ NotifyInv depth s.notify ∧ s.Tally := by
  cases hf : s.failing with
  | false => exact ⟨rfl, h.going hex hf⟩
  | true => exact absurd (h.leaving hex hf).1 hpc

/-- The budget is used up: 64 completions have been handled in this call. -/
theorem atBudget (hex : s.exit = none) (hinv : NotifyInv depth s.notify) (htally : s.Tally)
    (htotal : s.served ≤ s.notify.handled.length) {completed n : CInt}
    (hpc : s.notify.pc = .handling [] completed n) (hturn : turn completed n = .budget) :
    ServeInv depth { s with notify := s.notify.afterBatch completed n, failing := true } := by
  have hun := hinv.unacked
  have hkept := hinv.kept
  simp only [Notify.owed, hpc] at hun
  simp only [Serve.Tally, hpc, List.length_nil, Nat.add_zero] at htally
  have hsum := hinv.toNat_add hpc
  have h64 : 64 ≤ (completed + n).toNat := by
    unfold turn at hturn
    split_ifs at hturn with h₁ h₂
    exact h₂
  have hserved : 64 ≤ s.served := by omega
  have hafter : s.notify.afterBatch completed n = { s.notify with pc := .acking } := by
    rw [Notify.afterBatch, hturn]
  rw [hafter]
  refine ⟨?_, hinv.room, htotal, by rintro - ⟨⟩, fun _ _ => ⟨rfl, hun, hserved⟩, fun hb => ?_⟩
  · simpa [Notify.batch, hpc] using hkept
  · rw [show s.exit = _ from hb] at hex
    cases hex

/-- The tally after a batch that does not use up the budget. -/
theorem tally_afterBatch (hinv : NotifyInv depth s.notify) (htally : s.Tally) {completed n : CInt}
    (hpc : s.notify.pc = .handling [] completed n) (hne : turn completed n ≠ .budget) :
    Serve.Tally ⟨s.notify.afterBatch completed n, false, s.exit, s.served⟩ := by
  simp only [Serve.Tally, hpc, List.length_nil, Nat.add_zero] at htally
  have hsum := hinv.toNat_add hpc
  unfold Notify.afterBatch
  unfold turn at hne ⊢
  split_ifs at hne ⊢
  · trivial
  · exact absurd rfl hne
  · exact htally.trans hsum.symm

theorem go (h : ServeInv depth s) {a : NotifyLabel α} (hs : serveStep depth s (.go a) = some t) :
    ServeInv depth t := by
  cases a with
  | arrive wc =>
      obtain ⟨m, hm, ⟨⟩⟩ := Option.map_eq_some_iff.1 hs
      cases notifyStep_cases hm with
      | arrived _ hroom => exact h.arrive wc hroom
  | getEvent =>
      obtain ⟨hex, hs⟩ := Option.ite_none_right_eq_some.1 hs
      obtain ⟨m, hm, ⟨⟩⟩ := Option.map_eq_some_iff.1 hs
      cases notifyStep_cases hm with
      | gotEvent events hpc hev =>
          obtain ⟨hf, hinv, -⟩ := h.going_of_ne hex (by simp [hpc])
          exact .goOn hex hf (hinv.getEvent hpc hev) trivial h.total
  | reqNotify =>
      obtain ⟨hex, hs⟩ := Option.ite_none_right_eq_some.1 hs
      obtain ⟨m, hm, ⟨⟩⟩ := Option.map_eq_some_iff.1 hs
      cases notifyStep_cases hm with
      | rearmed hpc =>
          obtain ⟨hf, hinv, -⟩ := h.going_of_ne hex (by simp [hpc])
          exact .goOn hex hf (hinv.reqNotify hpc) rfl (Nat.zero_le _)
  | poll n =>
      obtain ⟨hex, hs⟩ := Option.ite_none_right_eq_some.1 hs
      obtain ⟨m, hm, ⟨⟩⟩ := Option.map_eq_some_iff.1 hs
      cases notifyStep_cases hm with
      | polled completed _ hpc h16 hlen hzero =>
          obtain ⟨hf, hinv, htally⟩ := h.going_of_ne hex (by simp [hpc])
          refine .goOn hex hf (hinv.poll hpc h16 hlen hzero) ?_ h.total
          simp only [Serve.Tally, hpc] at htally
          have hn : (BitVec.ofNat 32 n).toNat = n := by
            rw [BitVec.toNat_ofNat]
            exact Nat.mod_eq_of_lt (by omega)
          simp only [Serve.Tally, List.length_take, htally, hn]
          omega
  | handle =>
      obtain ⟨hex, hs⟩ := Option.ite_none_right_eq_some.1 hs
      obtain ⟨m, hm, ⟨⟩⟩ := Option.map_eq_some_iff.1 hs
      cases notifyStep_cases hm with
      | handled wc wcs completed n hpc =>
          obtain ⟨-, hinv, htally⟩ := h.going_of_ne hex (by simp [hpc])
          have htotal := h.total
          refine .goOn hex (by simp [Notify.atBudget, hpc]) (hinv.handle hpc) ?_ ?_
          · simp only [Serve.Tally, hpc, List.length_cons] at htally
            simp only [Serve.Tally, Notify.handles, hpc, if_true]
            omega
          · simpa [Notify.handles, hpc] using htotal
      | ended completed n hpc =>
          obtain ⟨-, hinv, htally⟩ := h.going_of_ne hex (by simp [hpc])
          have hno : s.notify.handles = false := by simp [Notify.handles, hpc]
          by_cases hturn : turn completed n = .budget
          · have hb : s.notify.atBudget = true := by simp [Notify.atBudget, hpc, hturn]
            rw [hno, hb]
            exact atBudget hex hinv htally h.total hpc hturn
          · have hb : s.notify.atBudget = false := by simp [Notify.atBudget, hpc, hturn]
            rw [hno, hb]
            refine .goOn hex rfl (hinv.afterBatch_of_ne hpc hturn) ?_ ?_
            · exact tally_afterBatch hinv htally hpc hturn
            · rw [show (s.notify.afterBatch completed n).handled = s.notify.handled by
                unfold Notify.afterBatch; split <;> rfl]
              exact h.total
  | ack =>
      obtain ⟨hex, hs⟩ := Option.ite_none_right_eq_some.1 hs
      obtain ⟨m, hm, ⟨⟩⟩ := Option.map_eq_some_iff.1 hs
      cases notifyStep_cases hm with
      | acked hpc =>
          cases hf : s.failing with
          | false =>
              obtain ⟨hinv, -⟩ := h.going hex hf
              exact .goOn (by simp) rfl (hinv.ack hpc) trivial h.total
          | true =>
              obtain ⟨-, hun, h64⟩ := h.leaving hex hf
              have hkept := h.kept
              refine ⟨?_, h.room, h.total, by rintro ⟨⟩, by rintro ⟨⟩, fun _ => ⟨?_, h64⟩⟩
              · simpa [Notify.batch, hpc] using hkept
              · simp [hun]

theorem step (h : ServeInv depth s) {a : ServeLabel α} (hs : serveStep depth s a = some t) :
    ServeInv depth t := by
  cases a with
  | go a => exact h.go hs
  | fail =>
      have hgone : ServeInv depth { s with exit := some .verbs } :=
        ⟨h.kept, h.room, h.total, by rintro ⟨⟩, by rintro ⟨⟩, by rintro ⟨⟩⟩
      simp only [serveStep] at hs
      split at hs
      · cases hs
        exact hgone
      · cases hs
        exact hgone
      · cases hs

end ServeInv

/-- **The server's thread serves every completion, or has ended.**  Over any interleaving of
arrivals with the steps of the thread, and with a queue of any depth: the completions are
handled once each and in the order they arrived; a thread that waits with no event pending has
handled all of them, and its queue is empty and armed.  It ends when a verbs call fails, or when
one call of `cq_event_handler` has handled 64 completions or more, its event acknowledged; where
fewer ever arrive and no call fails, it does not end. -/
theorem server_serves_or_ends
    (h : Lts.Reachable (serveStep depth) Lts.anyLabel (· = Serve.initial) s) :
    s.notify.arrived = s.notify.handled ++ s.notify.batch ++ s.notify.cq ∧
      (s.exit = none → s.notify.pc = .waiting → s.notify.events = 0 →
        s.notify.cq = [] ∧ s.notify.armed = true ∧ s.notify.handled = s.notify.arrived) ∧
      (s.exit = some .budget → s.notify.unacked = 0 ∧ 64 ≤ s.served) ∧
      (s.notify.arrived.length < 64 → s.exit ≠ some .budget) := by
  have hinv : ServeInv depth s :=
    h.invariant (fun _ hi => hi ▸ .initial) fun _ _ _ hI _ hs => hI.step hs
  refine ⟨hinv.kept, fun hex hpc hev => ?_, hinv.budget, fun hlen hex => ?_⟩
  · obtain ⟨-, hn, -⟩ := hinv.going_of_ne hex (by simp [hpc])
    have harmed : s.notify.armed = true := by
      cases harmed : s.notify.armed with
      | true => rfl
      | false =>
          rcases hn.raised harmed with ⟨-, hgot⟩ | ⟨h1, -⟩
          · cases hpc.symm.trans hgot
          · omega
    have hcq : s.notify.cq = [] := by
      have := (hn.armed harmed).2
      simpa only [Notify.Untouched, hpc] using this
    have hkept := hinv.kept
    simp only [Notify.batch, hpc, hcq, List.append_nil] at hkept
    exact ⟨hcq, harmed, hkept.symm⟩
  · have h64 := (hinv.budget hex).2
    have htotal := hinv.total
    have hkept := congrArg List.length hinv.kept
    simp only [List.length_append] at hkept
    omega

/-- Eighty completions are queued before the thread wakes: it handles 64 of them and ends, and
the other sixteen stay. -/
theorem server_serves_or_ends_eighty :
    ∃ s : Serve ℕ, Lts.Reachable (serveStep serverMaxCqe) Lts.anyLabel (· = Serve.initial) s ∧
      (s.exit = some .budget ∧ s.notify.cq.length = 16) ∧ s.notify.unacked = 0 ∧ 64 ≤ s.served := by
  obtain ⟨s, hs, hp⟩ := Lts.exists_reachable_of_exec (serveStep serverMaxCqe) Lts.anyLabel
    (· = (Serve.initial : Serve ℕ)) rfl
    ((List.range 80).map (fun i => .go (.arrive i)) ++ [.go .getEvent, .go .reqNotify] ++
      (List.replicate 4 (.go (.poll 16) :: List.replicate 17 (.go .handle))).flatten ++ [.go .ack])
    (fun s => decide (s.exit = some .budget ∧ s.notify.cq.length = 16)) (by decide +kernel)
  have hfacts := of_decide_eq_true hp
  exact ⟨s, hs, hfacts, (server_serves_or_ends hs).2.2.1 hfacts.1⟩

end Rpmem
