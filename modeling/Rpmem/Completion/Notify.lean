/-
# Completion events of the client

`cq_thread` of `rpmem.c` sleeps in `ibv_get_cq_event`, re-arms the completion
queue, and only then polls it; `rpmem_addr_handler` arms it for the first time.
A completion that arrives while the queue is armed raises one event and disarms
it; one that arrives while it is not armed raises nothing.  `cq_event_handler`
may leave at its budget of 64 with entries still queued, so what wakes the
thread for them is an event raised since the queue was last armed.

Here completions arrive between any two steps of the thread, also between two
calls of `rpmem_handle_wc`.  The queue takes `depth` entries at a time.
-/

import Rpmem.Completion.Drain
import Rpmem.Lib.Lts

namespace Rpmem

variable {α : Type*}

/-- `max_cqe` of `rpmem_addr_handler`. -/
def maxCqe : ℕ := 8

/-- Where `cq_thread` is: in `ibv_get_cq_event`, before `ibv_req_notify_cq`, before a
call of `ibv_poll_cq`, in the `for` loop over a batch of `n` with `wcs` to go, or before
`ibv_ack_cq_events`. -/
inductive CqPc (α : Type*)
  | waiting
  | gotEvent
  | polling (completed : CInt)
  | handling (wcs : List α) (completed n : CInt)
  | acking
  deriving DecidableEq, Repr

/-- The completion queue, its channel and the thread.  `arrived` and `handled` are the
completions so far, for the proofs. -/
structure Notify (α : Type*) where
  cq : List α
  armed : Bool
  events : ℕ
  unacked : ℕ
  pc : CqPc α
  arrived : List α
  handled : List α
  deriving DecidableEq, Repr

/-- `rpmem_addr_handler` has armed the queue and started the thread. -/
def Notify.initial : Notify α := ⟨[], true, 0, 0, .waiting, [], []⟩

/-- What can happen next. -/
inductive NotifyLabel (α : Type*)
  | arrive (wc : α)
  | getEvent
  | reqNotify
  | poll (n : ℕ)
  | handle
  | ack

/-- A completion is queued. -/
def Notify.arrive (s : Notify α) (wc : α) : Notify α :=
  { s with
    cq := s.cq ++ [wc]
    events := if s.armed then s.events + 1 else s.events
    armed := false
    arrived := s.arrived ++ [wc] }

/-- `cq_thread` when `rpmem_handle_wc` has had the whole batch. -/
def Notify.afterBatch (s : Notify α) (completed n : CInt) : Notify α :=
  match turn completed n with
  | .drained | .budget => { s with pc := .acking }
  | .again completed => { s with pc := .polling completed }

/-- One step; no verbs call fails. -/
def notifyStep (depth : ℕ) (s : Notify α) : NotifyLabel α → Option (Notify α)
  | .arrive wc => if s.cq.length < depth then some (s.arrive wc) else none
  | .getEvent =>
      match s.pc, s.events with
      | .waiting, events + 1 => some { s with events, unacked := s.unacked + 1, pc := .gotEvent }
      | _, _ => none
  | .reqNotify =>
      match s.pc with
      | .gotEvent => some { s with armed := true, pc := .polling 0 }
      | _ => none
  | .poll n =>
      match s.pc with
      | .polling completed =>
          -- up to 16 entries, at least one if there is one
          if n ≤ 16 ∧ n ≤ s.cq.length ∧ (n = 0 → s.cq = []) then
            some { s with
              cq := s.cq.drop n
              pc := .handling (s.cq.take n) completed (BitVec.ofNat 32 n) }
          else none
      | _ => none
  | .handle =>
      match s.pc with
      | .handling (wc :: wcs) completed n =>
          some { s with pc := .handling wcs completed n, handled := s.handled ++ [wc] }
      | .handling [] completed n => some (s.afterBatch completed n)
      | _ => none
  | .ack =>
      match s.pc with
      | .acking => some { s with unacked := s.unacked - 1, pc := .waiting }
      | _ => none

/-- The completions taken off the queue and not yet handled. -/
def Notify.batch (s : Notify α) : List α :=
  match s.pc with
  | .handling wcs _ _ => wcs
  | _ => []

/-- What is queued, by where the thread is, while no completion has arrived since the
queue was armed: nothing once the thread has polled it empty, and no more than the
budget leaves room for before that. -/
def Notify.Untouched (depth : ℕ) (s : Notify α) : Prop :=
  match s.pc with
  | .waiting | .acking => s.cq = []
  | .gotEvent => False
  | .polling completed => completed.toNat + s.cq.length ≤ depth
  | .handling _ completed n =>
      completed.toNat + n.toNat + s.cq.length ≤ depth ∧ (n = 0 → s.cq = [])

/-- The numbers the loop keeps: the budget is not used up before a poll, and a batch has
at most 16. -/
def Notify.Counts (s : Notify α) : Prop :=
  match s.pc with
  | .polling completed => completed.toNat < 64
  | .handling _ completed n => completed.toNat < 64 ∧ n.toNat ≤ 16
  | _ => True

/-- The events fetched and not yet acknowledged. -/
def Notify.owed (s : Notify α) : ℕ :=
  match s.pc with
  | .waiting => 0
  | _ => 1

/-- The invariant.  Armed, the queue has seen no completion since; not armed, one event
is on its way, or the thread has just fetched it.  `kept` says that no completion is
lost, handled twice or overtaken. -/
structure NotifyInv (depth : ℕ) (s : Notify α) : Prop where
  room : s.cq.length ≤ depth
  counts : s.Counts
  armed : s.armed = true → s.events = 0 ∧ s.Untouched depth
  raised : s.armed = false → (s.events = 0 ∧ s.pc = .gotEvent) ∨ (s.events = 1 ∧ s.pc ≠ .gotEvent)
  unacked : s.unacked = s.owed
  kept : s.arrived = s.handled ++ s.batch ++ s.cq

variable {depth : ℕ} {s t : Notify α}

theorem NotifyInv.initial : NotifyInv depth (Notify.initial : Notify α) :=
  ⟨Nat.zero_le _, trivial, fun _ => ⟨rfl, rfl⟩, by simp [Notify.initial], rfl, rfl⟩

/-- An arrival uses up the arming, and says so with an event. -/
theorem NotifyInv.arrive (h : NotifyInv depth s) (wc : α) (hroom : s.cq.length < depth) :
    NotifyInv depth (s.arrive wc) := by
  refine ⟨?_, h.counts, ?_, fun _ => ?_, h.unacked, ?_⟩
  · simpa [Notify.arrive] using Nat.succ_le_of_lt hroom
  · simp [Notify.arrive]
  · cases harmed : s.armed with
    | false => simpa [Notify.arrive, harmed] using h.raised harmed
    | true =>
        obtain ⟨hev, hcq⟩ := h.armed harmed
        have hpc : s.pc ≠ .gotEvent := by
          intro hpc
          simp [Notify.Untouched, hpc] at hcq
        exact .inr ⟨by simp [Notify.arrive, harmed, hev], hpc⟩
  · have hbatch : (s.arrive wc).batch = s.batch := rfl
    rw [hbatch]
    simp [Notify.arrive, h.kept]

theorem NotifyInv.getEvent {events : ℕ} (h : NotifyInv depth s) (hpc : s.pc = .waiting)
    (hev : s.events = events + 1) :
    NotifyInv depth { s with events, unacked := s.unacked + 1, pc := .gotEvent } := by
  have hun := h.unacked
  have hkept := h.kept
  -- an armed queue has no event
  have harmed : s.armed = false := by
    cases harmed : s.armed with
    | false => rfl
    | true =>
        have := (h.armed harmed).1
        omega
  refine ⟨h.room, trivial, by simp [harmed], fun _ => .inl ⟨?_, rfl⟩, ?_, ?_⟩
  · rcases h.raised harmed with ⟨h0, -⟩ | ⟨h1, -⟩
    · omega
    · simpa [hev] using h1
  · simpa [Notify.owed, hpc] using hun
  · simpa [Notify.batch, hpc] using hkept

theorem NotifyInv.reqNotify (h : NotifyInv depth s) (hpc : s.pc = .gotEvent) :
    NotifyInv depth { s with armed := true, pc := .polling 0 } := by
  have hun := h.unacked
  have hkept := h.kept
  have harmed : s.armed = false := by
    cases harmed : s.armed with
    | false => rfl
    | true =>
        have := (h.armed harmed).2
        simp [Notify.Untouched, hpc] at this
  have hev : s.events = 0 := by
    rcases h.raised harmed with ⟨h0, -⟩ | ⟨-, hne⟩
    · exact h0
    · exact absurd hpc hne
  refine ⟨h.room, by simp [Notify.Counts], fun _ => ⟨hev, ?_⟩, by simp, ?_, ?_⟩
  · simpa [Notify.Untouched] using h.room
  · simpa [Notify.owed, hpc] using hun
  · simpa [Notify.batch, hpc] using hkept

theorem NotifyInv.poll {completed : CInt} {n : ℕ} (h : NotifyInv depth s)
    (hpc : s.pc = .polling completed) (h16 : n ≤ 16) (hlen : n ≤ s.cq.length)
    (hzero : n = 0 → s.cq = []) :
    NotifyInv depth { s with
      cq := s.cq.drop n
      pc := .handling (s.cq.take n) completed (BitVec.ofNat 32 n) } := by
  have hroom := h.room
  have hcounts := h.counts
  have hun := h.unacked
  have hkept := h.kept
  have hn : (BitVec.ofNat 32 n).toNat = n := by
    rw [BitVec.toNat_ofNat]
    exact Nat.mod_eq_of_lt (by omega)
  simp only [Notify.Counts, hpc] at hcounts
  refine ⟨by simp; omega, ⟨hcounts, by omega⟩, fun ha => ?_, fun hna => ?_, ?_, ?_⟩
  · obtain ⟨hev, hcq⟩ := h.armed ha
    simp only [Notify.Untouched, hpc] at hcq
    refine ⟨hev, ?_, fun hn0 => ?_⟩
    · rw [hn]
      simp
      omega
    · have : n = 0 := by
        rw [← hn, hn0]
        rfl
      simp [hzero this]
  · rcases h.raised hna with ⟨-, hgot⟩ | ⟨hev, -⟩
    · cases hpc.symm.trans hgot
    · exact .inr ⟨hev, by simp⟩
  · simpa [Notify.owed, hpc] using hun
  · simpa [Notify.batch, hpc] using hkept

theorem NotifyInv.handle {wc : α} {wcs : List α} {completed n : CInt} (h : NotifyInv depth s)
    (hpc : s.pc = .handling (wc :: wcs) completed n) :
    NotifyInv depth { s with pc := .handling wcs completed n, handled := s.handled ++ [wc] } := by
  have hcounts := h.counts
  have hun := h.unacked
  have hkept := h.kept
  simp only [Notify.Counts, hpc] at hcounts
  refine ⟨h.room, hcounts, fun ha => ?_, fun hna => ?_, ?_, ?_⟩
  · simpa [Notify.Untouched, hpc] using h.armed ha
  · simpa [hpc] using h.raised hna
  · simpa [Notify.owed, hpc] using hun
  · simpa [Notify.batch, hpc] using hkept

/-- **After a batch.**  With no arrival since the queue was armed, what the thread has
taken off it is below the budget, so it leaves the loop with the queue empty. -/
theorem NotifyInv.afterBatch {completed n : CInt} (hdepth : depth < 64) (h : NotifyInv depth s)
    (hpc : s.pc = .handling [] completed n) : NotifyInv depth (s.afterBatch completed n) := by
  have hroom := h.room
  have hcounts := h.counts
  have hun := h.unacked
  have hkept := h.kept
  simp only [Notify.Counts, hpc] at hcounts
  have hsum : (completed + n).toNat = completed.toNat + n.toNat := by
    rw [BitVec.toNat_add]
    exact Nat.mod_eq_of_lt (by omega)
  have hraised : s.armed = false → s.events = 1 := by
    intro hna
    rcases h.raised hna with ⟨-, hgot⟩ | ⟨hev, -⟩
    · cases hpc.symm.trans hgot
    · exact hev
  simp only [Notify.afterBatch, turn]
  by_cases hn : n = 0
  · rw [if_pos hn]
    refine ⟨hroom, trivial, fun ha => ?_, fun hna => .inr ⟨hraised hna, by simp⟩, ?_, ?_⟩
    · obtain ⟨hev, hcq⟩ := h.armed ha
      simp only [Notify.Untouched, hpc] at hcq
      exact ⟨hev, hcq.2 hn⟩
    · simpa [Notify.owed, hpc] using hun
    · simpa [Notify.batch, hpc] using hkept
  · rw [if_neg hn]
    by_cases hbudget : 64 ≤ (completed + n).toNat
    · rw [if_pos hbudget]
      refine ⟨hroom, trivial, fun ha => ?_, fun hna => .inr ⟨hraised hna, by simp⟩, ?_, ?_⟩
      · -- 64 completions are more than an untouched queue held
        obtain ⟨-, hcq⟩ := h.armed ha
        simp only [Notify.Untouched, hpc] at hcq
        omega
      · simpa [Notify.owed, hpc] using hun
      · simpa [Notify.batch, hpc] using hkept
    · rw [if_neg hbudget]
      refine ⟨hroom, ?_, fun ha => ?_, fun hna => .inr ⟨hraised hna, by simp⟩, ?_, ?_⟩
      · simpa [Notify.Counts] using hbudget
      · obtain ⟨hev, hcq⟩ := h.armed ha
        simp only [Notify.Untouched, hpc] at hcq
        refine ⟨hev, ?_⟩
        simp only [Notify.Untouched, hsum]
        exact hcq.1
      · simpa [Notify.owed, hpc] using hun
      · simpa [Notify.batch, hpc] using hkept

theorem NotifyInv.ack (h : NotifyInv depth s) (hpc : s.pc = .acking) :
    NotifyInv depth { s with unacked := s.unacked - 1, pc := .waiting } := by
  have hun := h.unacked
  have hkept := h.kept
  simp only [Notify.owed, hpc] at hun
  refine ⟨h.room, trivial, fun ha => ?_, fun hna => ?_, by simp [Notify.owed, hun], ?_⟩
  · simpa [Notify.Untouched, hpc] using h.armed ha
  · simpa [hpc] using h.raised hna
  · simpa [Notify.batch, hpc] using hkept

/-- One step keeps the invariant, with a queue shorter than the budget. -/
theorem NotifyInv.step {a : NotifyLabel α} (hdepth : depth < 64) (h : NotifyInv depth s)
    (hs : notifyStep depth s a = some t) : NotifyInv depth t := by
  cases a with
  | arrive wc =>
      simp only [notifyStep, Option.ite_none_right_eq_some, Option.some.injEq] at hs
      obtain ⟨hroom, rfl⟩ := hs
      exact h.arrive wc hroom
  | getEvent =>
      simp only [notifyStep] at hs
      split at hs
      · rename_i hpc hev
        cases hs
        exact h.getEvent hpc hev
      · cases hs
  | reqNotify =>
      simp only [notifyStep] at hs
      split at hs
      · rename_i hpc
        cases hs
        exact h.reqNotify hpc
      · cases hs
  | poll n =>
      simp only [notifyStep] at hs
      split at hs
      · rename_i hpc
        simp only [Option.ite_none_right_eq_some, Option.some.injEq] at hs
        obtain ⟨⟨h16, hlen, hzero⟩, rfl⟩ := hs
        exact h.poll hpc h16 hlen hzero
      · cases hs
  | handle =>
      simp only [notifyStep] at hs
      split at hs
      · rename_i hpc
        cases hs
        exact h.handle hpc
      · rename_i hpc
        cases hs
        exact h.afterBatch hdepth hpc
      · cases hs
  | ack =>
      simp only [notifyStep] at hs
      split at hs
      · rename_i hpc
        cases hs
        exact h.ack hpc
      · cases hs

theorem reachable_notifyInv (hdepth : depth < 64)
    (h : Lts.Reachable (notifyStep depth) Lts.anyLabel (· = Notify.initial) s) :
    NotifyInv depth s :=
  h.invariant (fun _ hi => hi ▸ .initial) fun _ _ _ hI _ hs => hI.step hdepth hs

/-- **No completion is stranded on the client.**  Whenever the thread waits and no event
is pending, the queue is empty and armed, and every completion that ever arrived has been
handled. -/
theorem waiting_without_event_is_drained
    (h : Lts.Reachable (notifyStep maxCqe) Lts.anyLabel (· = Notify.initial) s)
    (hpc : s.pc = .waiting) (hev : s.events = 0) :
    s.cq = [] ∧ s.armed = true ∧ s.handled = s.arrived := by
  have hinv := reachable_notifyInv (by decide) h
  have harmed : s.armed = true := by
    cases harmed : s.armed with
    | true => rfl
    | false =>
        rcases hinv.raised harmed with ⟨-, hgot⟩ | ⟨h1, -⟩
        · cases hpc.symm.trans hgot
        · omega
  have hcq : s.cq = [] := by
    have := (hinv.armed harmed).2
    simpa only [Notify.Untouched, hpc] using this
  have hkept := hinv.kept
  simp only [Notify.batch, hpc, hcq, List.append_nil] at hkept
  exact ⟨hcq, harmed, hkept.symm⟩

/-- A completion arrives after the queue has been re-armed: the thread comes round twice. -/
theorem waiting_without_event_is_drained_twice :
    ∃ s : Notify ℕ, Lts.Reachable (notifyStep maxCqe) Lts.anyLabel (· = Notify.initial) s ∧
      s.pc = .waiting ∧ s.events = 0 ∧ s.handled = [1, 2] ∧
      (s.cq = [] ∧ s.armed = true ∧ s.handled = s.arrived) := by
  obtain ⟨s, hs, hp⟩ := Lts.exists_reachable_of_exec (notifyStep maxCqe) Lts.anyLabel
    (· = (Notify.initial : Notify ℕ)) rfl
    [.arrive 1, .getEvent, .reqNotify, .poll 1, .arrive 2, .handle, .handle, .poll 1, .handle, .handle,
      .poll 0, .handle, .ack, .getEvent, .reqNotify, .poll 0, .handle, .ack]
    (fun s => decide (s.pc = .waiting ∧ s.events = 0 ∧ s.handled = [1, 2])) (by decide)
  obtain ⟨hpc, hev, hh⟩ := of_decide_eq_true hp
  exact ⟨s, hs, hpc, hev, hh, waiting_without_event_is_drained hs hpc hev⟩

end Rpmem
