/-
# Labelled transition systems and the runs that keep to a rule

A system is a partial step function `step : σ → α → Option σ`: the label `α`
carries every choice of the environment, so a step is a computation, and a
label that is not enabled has no successor.  A rule `ok : σ → α → Prop` says
which labels a run may take in which state.  `Run step ok s l t` is a run that
keeps to the rule, `Reachable` the states such runs end in, and `exec` the
same run as a computation, for concrete traces.
-/

import Mathlib.Logic.Basic

namespace Lts

universe u v

variable {σ : Type u} {α : Type v}

/-- The run over the labels `l` from `s` to `t`, every label enabled and
allowed by `ok` in the state where it is taken. -/
inductive Run (step : σ → α → Option σ) (ok : σ → α → Prop) : σ → List α → σ → Prop
  | nil (s : σ) : Run step ok s [] s
  | cons {s t u : σ} {a : α} {l : List α} :
      ok s a → step s a = some t → Run step ok t l u → Run step ok s (a :: l) u

/-- The rule that allows every label. -/
def anyLabel : σ → α → Prop := fun _ _ => True

instance (s : σ) (a : α) : Decidable (anyLabel s a) := isTrue trivial

/-- The states reached from `init` by a run that keeps to `ok`. -/
def Reachable (step : σ → α → Option σ) (ok : σ → α → Prop) (init : σ → Prop) (t : σ) : Prop :=
  ∃ s l, init s ∧ Run step ok s l t

variable {step : σ → α → Option σ} {ok : σ → α → Prop}

/-- **Invariants over runs.**  What one allowed step keeps, a whole run keeps. -/
theorem Run.invariant {I : σ → Prop}
    (hstep : ∀ s a t, I s → ok s a → step s a = some t → I t)
    {s t : σ} {l : List α} (h : Run step ok s l t) : I s → I t := by
  induction h with
  | nil s => exact id
  | cons hok hs _ ih => exact fun hI => ih (hstep _ _ _ hI hok hs)

/-- An invariant of the initial states that every allowed step keeps holds in
every reachable state. -/
theorem Reachable.invariant {init : σ → Prop} {I : σ → Prop} (hinit : ∀ s, init s → I s)
    (hstep : ∀ s a t, I s → ok s a → step s a = some t → I t)
    {t : σ} (h : Reachable step ok init t) : I t := by
  obtain ⟨s, l, hs, hl⟩ := h
  exact hl.invariant hstep (hinit s hs)

/-- A stricter rule allows fewer runs. -/
theorem Run.mono {ok' : σ → α → Prop} (hok : ∀ s a, ok s a → ok' s a)
    {s t : σ} {l : List α} (h : Run step ok s l t) : Run step ok' s l t := by
  induction h with
  | nil s => exact .nil s
  | cons h₁ h₂ _ ih => exact .cons (hok _ _ h₁) h₂ ih

theorem Reachable.mono {ok' : σ → α → Prop} {init : σ → Prop} (hok : ∀ s a, ok s a → ok' s a)
    {t : σ} (h : Reachable step ok init t) : Reachable step ok' init t := by
  obtain ⟨s, l, hs, hl⟩ := h
  exact ⟨s, l, hs, hl.mono hok⟩

/-- A run goes on with one more allowed step. -/
theorem Run.snoc {s t u : σ} {a : α} {l : List α} (h : Run step ok s l t) (hok : ok t a)
    (hs : step t a = some u) : Run step ok s (l ++ [a]) u := by
  induction h with
  | nil s => exact .cons hok hs (.nil _)
  | cons h₁ h₂ _ ih => exact .cons h₁ h₂ (ih hok hs)

theorem Reachable.next {init : σ → Prop} {t u : σ} {a : α} (h : Reachable step ok init t)
    (hok : ok t a) (hs : step t a = some u) : Reachable step ok init u := by
  obtain ⟨s, l, hi, hl⟩ := h
  exact ⟨s, l ++ [a], hi, hl.snoc hok hs⟩

/-- **The step that ends an invariant.**  If every step from `I` keeps `I` or is one
of `E`, a run from `I` that ends outside it has a step of `E`, taken from `I`. -/
theorem Run.exists_event {I : σ → Prop} {E : σ → α → Prop}
    (hstep : ∀ s a t, I s → ok s a → step s a = some t → E s a ∨ I t)
    {s t : σ} {l : List α} (h : Run step ok s l t) (hs : I s) (ht : ¬ I t) :
    ∃ l₁ a l₂ u, l = l₁ ++ a :: l₂ ∧ Run step ok s l₁ u ∧ E u a := by
  induction h with
  | nil s => exact absurd hs ht
  | @cons s u t a l hok hsu _ ih =>
      rcases hstep _ _ _ hs hok hsu with he | hu
      · exact ⟨[], a, l, s, rfl, .nil s, he⟩
      · obtain ⟨l₁, b, l₂, v, rfl, hrun, he⟩ := ih hu ht
        exact ⟨a :: l₁, b, l₂, v, rfl, .cons hok hsu hrun, he⟩

/-- **Runs that use up a potential.**  If each label of `p` costs one, and no step adds more
than `n`, and that only with a label of `q`, then a run has no more labels of `p` than it had
potential and got. -/
theorem Run.countP_le {I : σ → Prop} {f : σ → Nat} {p q : α → Bool} {n : Nat}
    (hI : ∀ s a t, I s → ok s a → step s a = some t → I t)
    (hf : ∀ s a t, I s → ok s a → step s a = some t →
      f t + (if p a then 1 else 0) ≤ f s + n * (if q a then 1 else 0))
    {s t : σ} {l : List α} (h : Run step ok s l t) (hs : I s) :
    l.countP p + f t ≤ f s + n * l.countP q := by
  induction h with
  | nil s => simp
  | @cons s u t a l hok hsu _ ih =>
      have hrest := ih (hI _ _ _ hs hok hsu)
      have hstep := hf _ _ _ hs hok hsu
      rw [List.countP_cons, List.countP_cons, Nat.mul_add]
      omega

section Notes

variable {γ : Type*}

/-- The system with a note beside its state, brought up to date at every step. -/
def noted (step : σ → α → Option σ) (note : σ → α → σ → γ → γ) (p : σ × γ) (a : α) :
    Option (σ × γ) :=
  (step p.1 a).map fun t => (t, note p.1 a t p.2)

theorem noted_eq_some {note : σ → α → σ → γ → γ} {p q : σ × γ} {a : α}
    (h : noted step note p a = some q) : step p.1 a = some q.1 ∧ q.2 = note p.1 a q.1 p.2 := by
  obtain ⟨t, ht, rfl⟩ := Option.map_eq_some_iff.1 h
  exact ⟨ht, rfl⟩

end Notes

section Simulation

variable {τ : Type*} {β : Type*} {step' : τ → β → Option τ} {ok' : τ → β → Prop}

/-- Two runs in a row. -/
theorem Run.append {s t u : σ} {l l' : List α} (h : Run step ok s l t) (h' : Run step ok t l' u) :
    Run step ok s (l ++ l') u := by
  induction h with
  | nil s => exact h'
  | cons h₁ h₂ _ ih => exact .cons h₁ h₂ (ih h')

/-- What a run has been in the labels of another system, where a step is any number of them. -/
def translation (tr : σ → α → σ → List β) (s : σ) (a : α) (t : σ) (l : List β) : List β :=
  l ++ tr s a t

/-- The labels of another system that a run goes through. -/
def translated (step : σ → α → Option σ) (tr : σ → α → List β) : σ → List α → List β
  | _, [] => []
  | s, a :: l =>
      match step s a with
      | none => []
      | some t => tr s a ++ translated step tr t l

/-- **Projection.**  If every step is a run of the other system between the states that `f` sees,
every run is. -/
theorem Run.translates {I : σ → Prop} {f : σ → τ} {tr : σ → α → List β}
    (hstep : ∀ s a t, I s → ok s a → step s a = some t →
      I t ∧ Run step' ok' (f s) (tr s a) (f t))
    {s t : σ} {l : List α} (h : Run step ok s l t) (hs : I s) :
    I t ∧ Run step' ok' (f s) (translated step tr s l) (f t) := by
  induction h with
  | nil s => exact ⟨hs, .nil _⟩
  | @cons s u t a l hok hsu _ ih =>
      obtain ⟨hu, hrun⟩ := hstep _ _ _ hs hok hsu
      obtain ⟨ht, hrest⟩ := ih hu
      rw [translated, hsu]
      exact ⟨ht, hrun.append hrest⟩

/-- **Simulation.**  If the labels of every step make a run of the other system that keeps the
states related, the labels of every run do. -/
theorem Reachable.simulates {R : σ → τ → Prop} {tr : σ → α → σ → List β} {init : σ → Prop} {x₀ : τ}
    (hinit : ∀ s, init s → R s x₀)
    (hstep : ∀ s a t x, R s x → step s a = some t → ∃ y, Run step' ok' x (tr s a t) y ∧ R t y)
    {q : σ × List β}
    (h : Reachable (noted step (translation tr)) anyLabel (fun q => init q.1 ∧ q.2 = []) q) :
    ∃ x, Run step' ok' x₀ q.2 x ∧ R q.1 x := by
  refine h.invariant (I := fun q => ∃ x, Run step' ok' x₀ q.2 x ∧ R q.1 x) ?_ ?_
  · rintro ⟨s, l⟩ ⟨hs, rfl⟩
    exact ⟨x₀, .nil x₀, hinit s hs⟩
  · rintro ⟨s, l⟩ a ⟨t, l'⟩ ⟨x, hrun, hx⟩ - hs
    obtain ⟨hst, hl⟩ := noted_eq_some hs
    obtain ⟨y, hrun', hy⟩ := hstep s a t x hx hst
    exact ⟨y, hl ▸ hrun.append hrun', hy⟩

end Simulation

section Families

variable {ι : Type*} [DecidableEq ι]

/-- Many copies of one system side by side: a label names the copy that moves. -/
def each (step : σ → α → Option σ) (x : ι → σ) (l : ι × α) : Option (ι → σ) :=
  (step (x l.1) l.2).map fun t j => if j = l.1 then t else x j

/-- The rule for the steps of the copy `i`; the others move as they like. -/
def onlyAt (i : ι) (ok : σ → α → Prop) (x : ι → σ) (l : ι × α) : Prop := l.1 = i → ok (x i) l.2

instance (i : ι) [∀ s a, Decidable (ok s a)] (x : ι → σ) (l : ι × α) :
    Decidable (onlyAt i ok x l) :=
  inferInstanceAs (Decidable (l.1 = i → ok (x i) l.2))

/-- Seen from one copy, a run of the family is a run of the system. -/
theorem Reachable.component {init : σ → Prop} {x : ι → σ} {i : ι}
    (h : Reachable (each step) (onlyAt i ok) (fun x => ∀ j, init (x j)) x) :
    Reachable step ok init (x i) := by
  refine Reachable.invariant (I := fun x => Reachable step ok init (x i))
    (fun x hx => ⟨x i, [], hx i, .nil _⟩) ?_ h
  rintro x ⟨j, a⟩ y hx hok hstep
  obtain ⟨t, ht, rfl⟩ := Option.map_eq_some_iff.1 hstep
  show Reachable step ok init (if i = j then t else x i)
  split
  next hij =>
    subst hij
    exact hx.next (hok rfl) ht
  next => exact hx

end Families

/-- The run over `l` as a computation: `none` where a label is not enabled or
not allowed. -/
def exec (step : σ → α → Option σ) (ok : σ → α → Prop) [∀ s a, Decidable (ok s a)] :
    σ → List α → Option σ
  | s, [] => some s
  | s, a :: l => if ok s a then (step s a).bind fun t => exec step ok t l else none

/-- What `exec` computes is a run. -/
theorem run_of_exec [∀ s a, Decidable (ok s a)] {s t : σ} {l : List α}
    (h : exec step ok s l = some t) : Run step ok s l t := by
  induction l generalizing s with
  | nil =>
      obtain rfl : s = t := Option.some.inj h
      exact .nil s
  | cons a l ih =>
      rw [exec] at h
      split at h
      · rename_i hok
        obtain ⟨u, hu, ht⟩ := Option.bind_eq_some_iff.1 h
        exact .cons hok hu (ih ht)
      · cases h

/-- A trace that computes to a state where the test `p` holds is a run to such a state. -/
theorem exists_run_of_exec (step : σ → α → Option σ) (ok : σ → α → Prop)
    [∀ s a, Decidable (ok s a)] {s : σ} {l : List α} {p : σ → Bool}
    (h : (exec step ok s l).map p = some true) : ∃ t, Run step ok s l t ∧ p t = true := by
  obtain ⟨t, ht, hp⟩ := Option.map_eq_some_iff.1 h
  exact ⟨t, run_of_exec ht, hp⟩

theorem exists_reachable_of_exec (step : σ → α → Option σ) (ok : σ → α → Prop)
    [∀ s a, Decidable (ok s a)] (init : σ → Prop) {s : σ}
    (hs : init s) (l : List α) (p : σ → Bool) (h : (exec step ok s l).map p = some true) :
    ∃ t, Reachable step ok init t ∧ p t = true := by
  obtain ⟨t, ht, hp⟩ := exists_run_of_exec step ok h
  exact ⟨t, ⟨s, l, hs, ht⟩, hp⟩

end Lts
