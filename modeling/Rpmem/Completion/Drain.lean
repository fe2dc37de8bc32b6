/-
# The completion drain loops

`cq_event_handler`, in `rpmem.c` and again in `rpmem_server.c`:

    while ((n = ibv_poll_cq(conn->cq, 16, wc)) > 0) {
            for (i = 0; i < n; i++)
                    rpmem_handle_wc(&wc[i], …);
            completed += n;
            if (completed >= 64)
                    goto out;        /* `break` in the server */
    }
    if (n) return -1;

`n` is unsigned, so an error of `ibv_poll_cq`, a negative number, counts as a
batch of more than `2^31` completions and the `for` loop runs off the array
`wc[16]`, which ends the run here.  The budget of 64 is where the two copies
differ: after the `break` of the server `n` is still positive.

The loops are modelled on the list of what the polls return, over any type of
completions; `wc` keeps what the last polls left in it.
-/

import Rpmem.Protocol

namespace Rpmem

variable {α : Type*}

/-- What `ibv_poll_cq(cq, 16, wc)` can do: fill up to 16 entries, or fail. -/
inductive Poll (α : Type*)
  | batch (wcs : List α) (h : wcs.length ≤ 16)
  | error (ret : CInt) (h : ret.msb = true)

namespace Poll

/-- The return value. -/
def ret : Poll α → CInt
  | batch wcs _ => BitVec.ofNat 32 wcs.length
  | error ret _ => ret

/-- The completions a poll delivers. -/
def completions : Poll α → List α
  | batch wcs _ => wcs
  | error _ _ => []

def IsError : Poll α → Prop
  | batch _ _ => False
  | error _ _ => True

/-- `wc` after the poll. -/
def fill (p : Poll α) (wc : Fin 16 → α) : Fin 16 → α := fun i => (p.completions[i]?).getD (wc i)

theorem ret_batch_toNat (wcs : List α) (h : wcs.length ≤ 16) : (batch wcs h).ret.toNat = wcs.length := by
  rw [ret, BitVec.toNat_ofNat]
  exact Nat.mod_eq_of_lt (by omega)

theorem le_ret_error_toNat (ret : CInt) (h : ret.msb = true) :
    2 ^ 31 ≤ (error ret h : Poll α).ret.toNat := by
  have := BitVec.msb_eq_decide ret
  rw [h] at this
  simpa [Poll.ret] using this

/-- The entries a batch has filled are its completions. -/
theorem take_fill (wcs : List α) (h : wcs.length ≤ 16) (wc : Fin 16 → α) :
    (List.ofFn ((batch wcs h).fill wc)).take wcs.length = wcs := by
  refine List.ext_getElem (by simpa using h) fun i h₁ h₂ => ?_
  rw [List.getElem_take, List.getElem_ofFn]
  simp [fill, completions, h₂]

end Poll

/-- What becomes of the loop after a poll returned `n`. -/
inductive Turn
  | drained
  | budget
  | again (completed : CInt)
  deriving DecidableEq, Repr

/-- The conditions of the loop: `n > 0`, then `completed >= 64`, both unsigned. -/
def turn (completed n : CInt) : Turn :=
  if n = 0 then .drained
  else if 64 ≤ (completed + n).toNat then .budget
  else .again (completed + n)

/-- How the loop is left; `starved` is a poll that has not come back. -/
inductive Exit
  | drained | budget | outOfBounds | starved
  deriving DecidableEq, Repr

/-- A run of the loop: the completions handled, the polls made, and `n` and the
way out at its end. -/
structure Drain (α : Type*) where
  handled : List α
  polled : List (Poll α)
  n : CInt
  exit : Exit

/-- The loop, from what `wc` and `completed` hold. -/
def drain (wc : Fin 16 → α) (completed : CInt) : List (Poll α) → Drain α
  | [] => ⟨[], [], 0, .starved⟩
  | p :: ps =>
      let wc := p.fill wc
      -- the `for` loop; `wc[16]` does not exist
      let handled := (List.ofFn wc).take p.ret.toNat
      if 16 < p.ret.toNat then ⟨handled, [p], p.ret, .outOfBounds⟩
      else
        match turn completed p.ret with
        | .drained => ⟨handled, [p], p.ret, .drained⟩
        | .budget => ⟨handled, [p], p.ret, .budget⟩
        | .again completed =>
            let d := drain wc completed ps
            ⟨handled ++ d.handled, p :: d.polled, d.n, d.exit⟩

/-- The `if (n)` after the loop. -/
def pollError (n : CInt) : CInt := if n ≠ 0 then -1 else 0

/-- What `cq_event_handler` of the client returns, by how it left the loop; nothing
if it ran off the array. -/
def Client.cqEventRet (d : Drain α) : Option CInt :=
  match d.exit with
  | .drained => some (pollError d.n)
  | .budget => some 0
  | .outOfBounds | .starved => none

/-- The same for the server: its `break` goes on to the `if (n)`. -/
def Server.cqEventRet (d : Drain α) : Option CInt :=
  match d.exit with
  | .drained | .budget => some (pollError d.n)
  | .outOfBounds | .starved => none

/-- A call of `cq_event_handler`. -/
structure CqEvent (α : Type*) where
  run : Drain α
  ret : Option CInt

def Client.cqEventHandler (wc : Fin 16 → α) (ps : List (Poll α)) : CqEvent α :=
  ⟨drain wc 0 ps, Client.cqEventRet (drain wc 0 ps)⟩

def Server.cqEventHandler (wc : Fin 16 → α) (ps : List (Poll α)) : CqEvent α :=
  ⟨drain wc 0 ps, Server.cqEventRet (drain wc 0 ps)⟩

/-! ### What the loop does -/

/-- **One turn of the loop on a batch**: it handles the completions of the batch,
and leaves with an empty one or with 64 handled. -/
theorem drain_batch (wc : Fin 16 → α) (completed : CInt) (wcs : List α) (h : wcs.length ≤ 16)
    (ps : List (Poll α)) (hc : completed.toNat < 64) :
    (wcs = [] ∧ drain wc completed (.batch wcs h :: ps) = ⟨wcs, [.batch wcs h], 0, .drained⟩) ∨
    (wcs ≠ [] ∧ 64 ≤ completed.toNat + wcs.length ∧ drain wc completed (.batch wcs h :: ps) =
      ⟨wcs, [.batch wcs h], BitVec.ofNat 32 wcs.length, .budget⟩) ∨
    (wcs ≠ [] ∧ ∃ wc' completed', completed'.toNat = completed.toNat + wcs.length ∧
      completed'.toNat < 64 ∧
      drain wc completed (.batch wcs h :: ps) =
        ⟨wcs ++ (drain wc' completed' ps).handled, .batch wcs h :: (drain wc' completed' ps).polled,
          (drain wc' completed' ps).n, (drain wc' completed' ps).exit⟩) := by
  have hret := Poll.ret_batch_toNat wcs h
  have hin : ¬ 16 < (Poll.batch wcs h).ret.toNat := by omega
  have hzero : (Poll.batch wcs h).ret = 0 ↔ wcs = [] := by
    rw [← BitVec.toNat_inj, hret]
    exact List.length_eq_zero_iff
  have hsum : (completed + (Poll.batch wcs h).ret).toNat = completed.toNat + wcs.length := by
    rw [BitVec.toNat_add, hret]
    exact Nat.mod_eq_of_lt (by omega)
  have htake : (List.ofFn ((Poll.batch wcs h).fill wc)).take (Poll.batch wcs h).ret.toNat = wcs := by
    rw [hret, Poll.take_fill]
  by_cases hnil : wcs = []
  · refine .inl ⟨hnil, ?_⟩
    rw [drain]
    simp only [htake, if_neg hin, turn, if_pos (hzero.2 hnil)]
    rw [hzero.2 hnil]
  · by_cases hbudget : 64 ≤ completed.toNat + wcs.length
    · refine .inr (.inl ⟨hnil, hbudget, ?_⟩)
      rw [drain]
      simp only [htake, if_neg hin, turn, if_neg (mt hzero.1 hnil), hsum, if_pos hbudget]
      rfl
    · refine .inr (.inr ⟨hnil, (Poll.batch wcs h).fill wc, completed + (Poll.batch wcs h).ret, hsum,
        by omega, ?_⟩)
      rw [drain]
      simp only [htake, if_neg hin, turn, if_neg (mt hzero.1 hnil), hsum, if_neg hbudget]

/-- An error runs the `for` loop off the array. -/
theorem drain_error (wc : Fin 16 → α) (completed ret : CInt) (h : ret.msb = true)
    (ps : List (Poll α)) :
    (drain wc completed (.error ret h :: ps)).exit = .outOfBounds := by
  have hlt : 16 < (Poll.error ret h : Poll α).ret.toNat := by
    have := Poll.le_ret_error_toNat (α := α) ret h
    omega
  rw [drain]
  simp only [if_pos hlt]

/-- The polls come to an empty batch before any error, and the batches before it
have fewer than 64 completions, `c` counted in. -/
def EmptiesWithin (c : ℕ) (ps : List (Poll α)) : Prop :=
  ∃ bs h rest, ps = bs ++ .batch [] h :: rest ∧ (∀ p ∈ bs, ¬ p.IsError) ∧
    c + (bs.flatMap Poll.completions).length < 64

theorem not_emptiesWithin_error {c : ℕ} {ret : CInt} {h : ret.msb = true} {ps : List (Poll α)} :
    ¬ EmptiesWithin c (.error ret h :: ps) := by
  rintro ⟨bs, h', rest, heq, hno, -⟩
  cases bs with
  | nil => cases heq
  | cons p bs =>
      obtain ⟨rfl, -⟩ := List.cons.inj heq
      exact hno _ List.mem_cons_self trivial

/-- After a batch that is not empty, what is left of the budget counts. -/
theorem emptiesWithin_batch_iff {c : ℕ} {wcs : List α} {h : wcs.length ≤ 16} {ps : List (Poll α)}
    (hne : wcs ≠ []) : EmptiesWithin c (.batch wcs h :: ps) ↔ EmptiesWithin (c + wcs.length) ps := by
  constructor
  · rintro ⟨bs, h', rest, heq, hno, hlt⟩
    cases bs with
    | nil =>
        obtain ⟨hp, -⟩ := List.cons.inj heq
        exact absurd (Poll.batch.inj hp) hne
    | cons p bs =>
        obtain ⟨rfl, rfl⟩ := List.cons.inj heq
        refine ⟨bs, h', rest, rfl, fun q hq => hno q (List.mem_cons_of_mem _ hq), ?_⟩
        simpa [Poll.completions, Nat.add_assoc] using hlt
  · rintro ⟨bs, h', rest, rfl, hno, hlt⟩
    refine ⟨.batch wcs h :: bs, h', rest, rfl, ?_, ?_⟩
    · intro q hq
      rcases List.mem_cons.1 hq with rfl | hq
      · exact id
      · exact hno q hq
    · simpa [Poll.completions, Nat.add_assoc] using hlt

/-- **The loop is left by an empty poll** if and only if that comes before any error
and within the budget. -/
theorem drain_exit_eq_drained_iff (wc : Fin 16 → α) (completed : CInt) (ps : List (Poll α))
    (hc : completed.toNat < 64) :
    (drain wc completed ps).exit = .drained ↔ EmptiesWithin completed.toNat ps := by
  induction ps generalizing wc completed with
  | nil => simp [drain, EmptiesWithin]
  | cons p ps ih =>
      cases p with
      | error ret h =>
          rw [drain_error]
          exact iff_of_false (by simp) not_emptiesWithin_error
      | batch wcs h =>
          rcases drain_batch wc completed wcs h ps hc with
            ⟨rfl, hd⟩ | ⟨hne, hbudget, hd⟩ | ⟨hne, wc', completed', hsum, hlt, hd⟩
          · rw [hd]
            exact iff_of_true rfl ⟨[], h, ps, rfl, by simp, by simpa using hc⟩
          · rw [hd, emptiesWithin_batch_iff hne]
            refine iff_of_false (by simp) ?_
            rintro ⟨bs, -, -, -, -, hlt⟩
            omega
          · rw [hd, emptiesWithin_batch_iff hne, ← hsum]
            exact ih wc' completed' hlt

/-- **A run of the loop that stays in the array**: it made a prefix of the polls, none
of them an error, and handled their completions once, in order. -/
theorem drain_exact (wc : Fin 16 → α) (completed : CInt) (ps : List (Poll α))
    (hc : completed.toNat < 64) (hin : (drain wc completed ps).exit ≠ .outOfBounds) :
    (drain wc completed ps).polled <+: ps ∧
      (drain wc completed ps).handled = (drain wc completed ps).polled.flatMap Poll.completions ∧
      (∀ p ∈ (drain wc completed ps).polled, ¬ p.IsError) ∧
      ((drain wc completed ps).exit = .drained → (drain wc completed ps).n = 0) ∧
      ((drain wc completed ps).exit = .budget → (drain wc completed ps).n ≠ 0) := by
  induction ps generalizing wc completed with
  | nil => simp [drain]
  | cons p ps ih =>
      cases p with
      | error ret h => exact absurd (drain_error wc completed ret h ps) hin
      | batch wcs h =>
          rcases drain_batch wc completed wcs h ps hc with
            ⟨rfl, hd⟩ | ⟨hne, hbudget, hd⟩ | ⟨hne, wc', completed', hsum, hlt, hd⟩
          · rw [hd]
            simp [Poll.completions, Poll.IsError]
          · have hn : BitVec.ofNat 32 wcs.length ≠ 0 := by
              intro hz
              have hlen := Poll.ret_batch_toNat wcs h
              rw [Poll.ret, hz] at hlen
              exact hne (List.length_eq_zero_iff.1 hlen.symm)
            rw [hd]
            simpa [Poll.completions, Poll.IsError] using hn
          · rw [hd] at hin ⊢
            obtain ⟨hpre, hhandled, hno, hdr, hbu⟩ := ih wc' completed' hlt hin
            refine ⟨List.cons_prefix_cons.2 ⟨rfl, hpre⟩, ?_, ?_, hdr, hbu⟩
            · simp [hhandled, Poll.completions]
            · intro q hq
              rcases List.mem_cons.1 hq with rfl | hq
              · exact id
              · exact hno q hq

/-! ### The two copies side by side -/

/-- What a poll left in `wc` before does not change the course of the loop. -/
theorem drain_course (wc wc' : Fin 16 → α) (completed : CInt) (ps : List (Poll α)) :
    (drain wc completed ps).polled = (drain wc' completed ps).polled ∧
      (drain wc completed ps).n = (drain wc' completed ps).n ∧
      (drain wc completed ps).exit = (drain wc' completed ps).exit := by
  induction ps generalizing wc wc' completed with
  | nil => exact ⟨rfl, rfl, rfl⟩
  | cons p ps ih =>
      simp only [drain]
      split
      · exact ⟨rfl, rfl, rfl⟩
      · split
        · exact ⟨rfl, rfl, rfl⟩
        · exact ⟨rfl, rfl, rfl⟩
        · rename_i completed' _
          obtain ⟨hpolled, hn, hexit⟩ := ih (p.fill wc) (p.fill wc') completed'
          exact ⟨congrArg (p :: ·) hpolled, hn, hexit⟩

/-- The polls end, with nothing left to poll or with an error. -/
def Ends (ps : List (Poll α)) : Prop :=
  ∃ qs p, ps = qs ++ [p] ∧ (p.IsError ∨ p.completions = [])

theorem Ends.tail {p q : Poll α} {ps : List (Poll α)} (h : Ends (p :: q :: ps)) : Ends (q :: ps) := by
  obtain ⟨qs, r, heq, hr⟩ := h
  cases qs with
  | nil => cases heq
  | cons _ qs => exact ⟨qs, r, (List.cons.inj heq).2, hr⟩

/-- A loop whose polls end does not wait for one more. -/
theorem drain_exit_ne_starved (wc : Fin 16 → α) (completed : CInt) (ps : List (Poll α))
    (hc : completed.toNat < 64) (hends : Ends ps) : (drain wc completed ps).exit ≠ .starved := by
  induction ps generalizing wc completed with
  | nil =>
      obtain ⟨qs, p, heq, -⟩ := hends
      simp at heq
  | cons p ps ih =>
      cases p with
      | error ret h =>
          rw [drain_error]
          simp
      | batch wcs h =>
          rcases drain_batch wc completed wcs h ps hc with
            ⟨-, hd⟩ | ⟨-, -, hd⟩ | ⟨hne, wc', completed', -, hlt, hd⟩
          · simp [hd]
          · simp [hd]
          · rw [hd]
            cases ps with
            | cons q ps => exact ih wc' completed' hlt hends.tail
            | nil =>
                -- the batch is the last poll, so it is empty
                obtain ⟨qs, p, heq, hp⟩ := hends
                have hlast : Poll.batch wcs h = p := by
                  simpa using congrArg List.getLast? heq
                subst hlast
                exact absurd hp (by simpa [Poll.IsError, Poll.completions] using hne)

/-- An exact call: it polled a prefix of `ps`, handled the completions of these polls
once and in order, inside `wc`, and came back, with `-1` for an error among them and for
nothing else. -/
structure CqEvent.Exact (ps : List (Poll α)) (e : CqEvent α) : Prop where
  polled : e.run.polled <+: ps
  handled : e.run.handled = e.run.polled.flatMap Poll.completions
  inBounds : e.run.exit ≠ .outOfBounds
  ret : ∃ r, e.ret = some r ∧ (r = -1 ↔ ∃ p ∈ e.run.polled, p.IsError)

/-- A loop that an empty poll ended is exact, with either `if (n)` after it. -/
theorem CqEvent.Exact.of_drained (wc : Fin 16 → α) (ps : List (Poll α))
    (h : (drain wc 0 ps).exit = .drained) : CqEvent.Exact ps ⟨drain wc 0 ps, some 0⟩ := by
  have hin : (drain wc 0 ps).exit ≠ .outOfBounds := by
    rw [h]
    decide
  obtain ⟨hpre, hhandled, hno, -, -⟩ := drain_exact wc 0 ps (by simp) hin
  refine ⟨hpre, hhandled, hin, 0, rfl, iff_of_false (by decide) ?_⟩
  rintro ⟨p, hp, herr⟩
  exact hno p hp herr

theorem cqEventHandler_of_drained (wc : Fin 16 → α) (ps : List (Poll α))
    (h : (drain wc 0 ps).exit = .drained) :
    Client.cqEventHandler wc ps = ⟨drain wc 0 ps, some 0⟩ ∧
      Server.cqEventHandler wc ps = ⟨drain wc 0 ps, some 0⟩ := by
  have hin : (drain wc 0 ps).exit ≠ .outOfBounds := by
    rw [h]
    decide
  obtain ⟨-, -, -, hn, -⟩ := drain_exact wc 0 ps (by simp) hin
  have hzero : pollError (drain wc 0 ps).n = 0 := by
    rw [hn h]
    rfl
  simp only [Client.cqEventHandler, Server.cqEventHandler, Client.cqEventRet, Server.cqEventRet, h,
    hzero, and_self]

/-- An exact call of the server's copy was not cut short by the budget: its `break`
returns `-1` with no error polled. -/
theorem Server.drained_of_exact (wc : Fin 16 → α) (ps : List (Poll α)) (hends : Ends ps)
    (h : CqEvent.Exact ps (Server.cqEventHandler wc ps)) : (drain wc 0 ps).exit = .drained := by
  have hin : (drain wc 0 ps).exit ≠ .outOfBounds := h.inBounds
  obtain ⟨-, -, hno, -, hbudget⟩ := drain_exact wc 0 ps (by simp) hin
  cases hexit : (drain wc 0 ps).exit with
  | drained => rfl
  | outOfBounds => exact absurd hexit hin
  | starved => exact absurd hexit (drain_exit_ne_starved wc 0 ps (by simp) hends)
  | budget =>
      obtain ⟨r, hr, hiff⟩ := h.ret
      have hret : Server.cqEventRet (drain wc 0 ps) = some (-1) := by
        simp only [Server.cqEventRet, hexit, pollError, if_pos (hbudget hexit)]
      obtain rfl : -1 = r := Option.some.inj (hret.symm.trans hr)
      obtain ⟨p, hp, herr⟩ := hiff.1 rfl
      exact absurd herr (hno p hp)

/-- **When the drain loops are exact.**  On the same polls, which end, both copies are
exact, make the same polls and return the same code, if and only if an empty poll comes
before any error and before 64 completions. -/
theorem drain_loops_exact_iff (wc wc' : Fin 16 → α) (ps : List (Poll α)) (hends : Ends ps) :
    (CqEvent.Exact ps (Client.cqEventHandler wc ps) ∧ CqEvent.Exact ps (Server.cqEventHandler wc' ps) ∧
      (Client.cqEventHandler wc ps).run.polled = (Server.cqEventHandler wc' ps).run.polled ∧
      (Client.cqEventHandler wc ps).ret = (Server.cqEventHandler wc' ps).ret) ↔
      EmptiesWithin 0 ps := by
  obtain ⟨hpolled, -, hexit⟩ := drain_course wc wc' 0 ps
  have hiff := drain_exit_eq_drained_iff wc' 0 ps (by simp)
  rw [show (0 : CInt).toNat = 0 from rfl] at hiff
  rw [← hiff]
  constructor
  · rintro ⟨-, hserver, -, -⟩
    exact Server.drained_of_exact wc' ps hends hserver
  · intro h
    rw [(cqEventHandler_of_drained wc ps (hexit.trans h)).1, (cqEventHandler_of_drained wc' ps h).2]
    exact ⟨.of_drained wc ps (hexit.trans h), .of_drained wc' ps h, hpolled, rfl⟩

/-- Two completions, then nothing. -/
theorem drain_loops_exact_iff_two :
    Ends [Poll.batch [7, 8] (by decide), .batch [] (by decide)] ∧
      EmptiesWithin 0 [Poll.batch [7, 8] (by decide), .batch [] (by decide)] ∧
      (Client.cqEventHandler (fun _ => 0) [Poll.batch [7, 8] (by decide), .batch [] (by decide)]).ret =
        (Server.cqEventHandler (fun _ => 1)
          [Poll.batch [7, 8] (by decide), .batch [] (by decide)]).ret := by
  have hends : Ends [Poll.batch [7, 8] (by decide), .batch [] (by decide)] :=
    ⟨[.batch [7, 8] (by decide)], .batch [] (by decide), rfl, .inr rfl⟩
  have hwithin : EmptiesWithin 0 [Poll.batch [7, 8] (by decide), .batch [] (by decide)] :=
    ⟨[.batch [7, 8] (by decide)], by decide, [], rfl, by simp [Poll.IsError], by decide⟩
  exact ⟨hends, hwithin,
    ((drain_loops_exact_iff (fun _ => 0) (fun _ => 1) _ hends).2 hwithin).2.2.2⟩

/-- Four full batches, then nothing: at 64 completions the client returns 0 and the
server `-1`, with no error polled. -/
theorem budget_is_an_error_on_the_server :
    let full : Poll ℕ := .batch (List.range 16) (by decide)
    let ps := [full, full, full, full, .batch [] (by decide)]
    Ends ps ∧ (∀ p ∈ ps, ¬ p.IsError) ∧
      (Client.cqEventHandler (fun _ => 0) ps).run.polled.length = 4 ∧
      (Client.cqEventHandler (fun _ => 0) ps).ret = some 0 ∧
      (Server.cqEventHandler (fun _ => 0) ps).ret = some (-1) ∧
      ¬ CqEvent.Exact ps (Server.cqEventHandler (fun _ => 0) ps) := by
  intro full ps
  have hends : Ends ps := ⟨[full, full, full, full], .batch [] (by decide), rfl, .inr rfl⟩
  refine ⟨hends, by simp [ps, full, Poll.IsError], by decide, by decide, by decide, fun hexact => ?_⟩
  have hdrained := Server.drained_of_exact _ ps hends hexact
  revert hdrained
  decide

end Rpmem
