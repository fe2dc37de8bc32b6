/-
# Intrusive singly linked lists

A list whose nodes carry their own `next` pointer, with a head that points to
the first of them: `Links` is the head and the `next` field of every node, in
the list or not.  The operations are those of the `SLIST` macros, pointer by
pointer: insert at the head, walk until a node passes a test, unlink a node
after a walk to the node before it.  A walk is a loop that nothing bounds, so
it runs on fuel; it can come back, dereference a null pointer, or still be
going.

`Links.Holds` says which list the pointers make up.  On pointers that make up
a list every operation comes back within its length, and does to the list what
its name says; unlinking a node that is not there runs into the null pointer.
-/

import Mathlib.Data.List.Basic
import Mathlib.Logic.Function.Basic

namespace Linked

variable {α : Type*}

/-- The head of a list and the `next` field of every node. -/
structure Links (α : Type*) where
  first : Option α
  next : α → Option α

/-- What becomes of a loop: it is left with a result, it dereferences a null
pointer, or its fuel is used up. -/
inductive Walk (β : Type*)
  | done (b : β)
  | fault
  | running
  deriving DecidableEq, Repr

namespace Walk

variable {β γ : Type*}

/-- Go on with the result. -/
def bind (w : Walk β) (f : β → Walk γ) : Walk γ :=
  match w with
  | done b => f b
  | fault => fault
  | running => running

@[simp] theorem bind_done (b : β) (f : β → Walk γ) : (done b).bind f = f b := rfl

end Walk

/-- The pointers from `p` on lead through the nodes `l` to the null pointer. -/
def Path (next : α → Option α) : Option α → List α → Prop
  | p, [] => p = none
  | p, a :: l => p = some a ∧ Path next (next a) l

namespace Path

variable {next : α → Option α} {p : Option α} {a : α} {l l' : List α}

@[simp] theorem nil_iff : Path next p [] ↔ p = none := Iff.rfl

@[simp] theorem cons_iff : Path next p (a :: l) ↔ p = some a ∧ Path next (next a) l := Iff.rfl

/-- The pointers make up one list only. -/
theorem unique (h : Path next p l) (h' : Path next p l') : l = l' := by
  induction l generalizing p l' with
  | nil =>
      cases l' with
      | nil => rfl
      | cons b l' =>
          rw [nil_iff] at h
          cases h.symm.trans h'.1
  | cons a l ih =>
      cases l' with
      | nil =>
          rw [nil_iff] at h'
          cases h'.symm.trans h.1
      | cons b l' =>
          obtain rfl : a = b := Option.some.inj (h.1.symm.trans h'.1)
          rw [ih h.2 h'.2]

/-- From a node on, the list goes on from there. -/
theorem suffix {l₁ l₂ : List α} (h : Path next p (l₁ ++ a :: l₂)) :
    Path next (some a) (a :: l₂) := by
  induction l₁ generalizing p with
  | nil => exact ⟨rfl, h.2⟩
  | cons b l₁ ih => exact ih h.2

/-- A list that comes to its end goes through no node twice. -/
theorem nodup (h : Path next p l) : l.Nodup := by
  induction l generalizing p with
  | nil => exact List.nodup_nil
  | cons a l ih =>
      refine List.nodup_cons.2 ⟨fun hmem => ?_, ih h.2⟩
      -- the list from the second time on would be shorter than itself
      obtain ⟨l₁, l₂, rfl⟩ := List.append_of_mem hmem
      have hlater : Path next (some a) (a :: l₂) := suffix h.2
      have hnow : Path next (some a) (a :: (l₁ ++ a :: l₂)) := ⟨rfl, h.2⟩
      have := congrArg List.length (unique hlater hnow)
      simp at this
      omega

/-- Writing the pointer of a node that is not in the list leaves the list. -/
theorem update [DecidableEq α] (h : Path next p l) (ha : a ∉ l) (q : Option α) :
    Path (Function.update next a q) p l := by
  induction l generalizing p with
  | nil => exact h
  | cons b l ih =>
      have hba : b ≠ a := fun hb => ha (hb ▸ List.mem_cons_self)
      refine ⟨h.1, ?_⟩
      rw [Function.update_of_ne hba]
      exact ih h.2 fun hm => ha (List.mem_cons_of_mem _ hm)

end Path

namespace Links

/-- The pointers make up the list `l`. -/
def Holds (s : Links α) (l : List α) : Prop := Path s.next s.first l

/-- The list with no node. -/
def empty : Links α := ⟨none, fun _ => none⟩

theorem holds_empty : (empty : Links α).Holds [] := rfl

/-- The loop that stops at the first node to pass the test `p`; the loop variable at its end. -/
def scan (s : Links α) (p : α → Bool) : ℕ → Option α → Walk (Option α)
  | 0, _ => .running
  | _ + 1, none => .done none
  | n + 1, some a => if p a then .done (some a) else s.scan p n (s.next a)

/-- **The scan** stops at the first node of the list to pass the test. -/
theorem scan_eq_find? {s : Links α} {l : List α} {fuel : ℕ} (p : α → Bool) {q : Option α}
    (h : Path s.next q l) (hfuel : l.length < fuel) :
    s.scan p fuel q = .done (l.find? p) := by
  induction l generalizing q fuel with
  | nil =>
      obtain ⟨n, rfl⟩ := Nat.exists_eq_add_of_lt hfuel
      rw [Path.nil_iff] at h
      subst h
      rfl
  | cons a l ih =>
      cases fuel with
      | zero => exact absurd hfuel (by omega)
      | succ n =>
          rw [h.1, scan, List.find?_cons]
          cases hp : p a with
          | true => rfl
          | false =>
              have hlen : l.length < n := by
                rw [List.length_cons] at hfuel
                omega
              simpa using ih h.2 hlen

variable [DecidableEq α]

/-- Insert a node at the head. -/
def insertHead (s : Links α) (a : α) : Links α := ⟨some a, Function.update s.next a s.first⟩

/-- The loop `while (cur->next != elm) cur = cur->next`. -/
def seek (s : Links α) (elm : α) : ℕ → Option α → Walk α
  | 0, _ => .running
  | _ + 1, none => .fault
  | n + 1, some a => if s.next a = some elm then .done a else s.seek elm n (s.next a)

/-- Unlink a node: the head when it is there, else the pointer of the node before it. -/
def remove (s : Links α) (fuel : ℕ) (elm : α) : Walk (Links α) :=
  if s.first = some elm then .done { s with first := s.next elm }
  else (s.seek elm fuel s.first).bind fun a =>
    .done { s with next := Function.update s.next a (s.next elm) }

variable {s : Links α} {l : List α} {a elm : α} {fuel : ℕ}

/-- **Insertion.**  A node from outside becomes the first one. -/
theorem Holds.insertHead (h : s.Holds l) (ha : a ∉ l) : (s.insertHead a).Holds (a :: l) := by
  refine ⟨rfl, ?_⟩
  simp only [Links.insertHead, Function.update_self]
  exact Path.update h ha _

/-- The walk to the node before `elm`, when there is one. -/
theorem seek_of_mem {q : Option α} {l₁ l₂ : List α} (h : Path s.next q (l₁ ++ a :: elm :: l₂))
    (hfuel : l₁.length < fuel) : s.seek elm fuel q = .done a := by
  have hnodup := h.nodup
  induction l₁ generalizing q fuel with
  | nil =>
      obtain ⟨n, rfl⟩ := Nat.exists_eq_add_of_lt hfuel
      obtain ⟨rfl, hnext, -⟩ := h
      simp [seek, hnext]
  | cons b l₁ ih =>
      cases fuel with
      | zero => exact absurd hfuel (by omega)
      | succ n =>
          obtain ⟨rfl, hrest⟩ := h
          have hb : s.next b ≠ some elm := by
            intro hb
            rw [hb] at hrest
            -- the list after `b` would begin with `elm`, which comes later
            cases l₁ with
            | nil =>
                obtain rfl : elm = a := Option.some.inj hrest.1
                simp at hnodup
            | cons c l₁ =>
                obtain rfl : elm = c := Option.some.inj hrest.1
                simp at hnodup
          have hlen : l₁.length < n := by
            rw [List.length_cons] at hfuel
            omega
          rw [seek, if_neg hb]
          exact ih hrest hlen (List.nodup_cons.1 hnodup).2

/-- Skipping a node takes it out of the list. -/
theorem path_skip {q : Option α} {l₁ l₂ : List α} (h : Path s.next q (l₁ ++ a :: elm :: l₂)) :
    Path (Function.update s.next a (s.next elm)) q (l₁ ++ a :: l₂) := by
  have hnodup := h.nodup
  induction l₁ generalizing q with
  | nil =>
      obtain ⟨hq, -, hrest⟩ := h
      have ha : a ∉ l₂ := fun hm => by simp [hm] at hnodup
      refine ⟨hq, ?_⟩
      rw [Function.update_self]
      exact Path.update hrest ha _
  | cons b l₁ ih =>
      have hba : b ≠ a := by
        rintro rfl
        simp at hnodup
      refine ⟨h.1, ?_⟩
      rw [Function.update_of_ne hba]
      exact ih h.2 (List.nodup_cons.1 hnodup).2

/-- **Removal.**  A node of the list is unlinked, and no other. -/
theorem Holds.remove (h : s.Holds l) (hmem : elm ∈ l) (hfuel : l.length ≤ fuel) :
    ∃ t, s.remove fuel elm = .done t ∧ t.Holds (l.erase elm) := by
  by_cases hfirst : s.first = some elm
  · refine ⟨{ s with first := s.next elm }, if_pos hfirst, ?_⟩
    cases l with
    | nil => exact absurd hmem List.not_mem_nil
    | cons b l =>
        obtain rfl : elm = b := Option.some.inj (hfirst.symm.trans h.1)
        rw [List.erase_cons_head]
        exact h.2
  · obtain ⟨l₁, l₂, rfl⟩ := List.append_of_mem hmem
    rcases List.eq_nil_or_concat' l₁ with rfl | ⟨l₁, a, rfl⟩
    · exact absurd h.1 hfirst
    · have hnot : elm ∉ l₁ ++ [a] := fun hm =>
        (List.nodup_append.1 h.nodup).2.2 elm hm elm List.mem_cons_self rfl
      rw [List.erase_append_right _ hnot, List.erase_cons_head]
      simp only [List.length_append, List.length_cons] at hfuel
      rw [List.append_assoc, List.singleton_append] at h ⊢
      refine ⟨{ s with next := Function.update s.next a (s.next elm) }, ?_, path_skip h⟩
      rw [Links.remove, if_neg hfirst, seek_of_mem h (by omega), Walk.bind_done]

/-- The walk to the node before a node that no node of the list points to. -/
theorem seek_of_not_mem {q : Option α} (h : Path s.next q l) (hmem : elm ∉ l)
    (hfuel : l.length < fuel) : s.seek elm fuel q = .fault := by
  induction l generalizing q fuel with
  | nil =>
      obtain ⟨n, rfl⟩ := Nat.exists_eq_add_of_lt hfuel
      rw [Path.nil_iff] at h
      subst h
      rfl
  | cons a l ih =>
      cases fuel with
      | zero => exact absurd hfuel (by omega)
      | succ n =>
          have hnext : s.next a ≠ some elm := by
            intro hnext
            have hrest := h.2
            rw [hnext] at hrest
            cases l with
            | nil => cases hrest
            | cons b l =>
                obtain rfl : elm = b := Option.some.inj hrest.1
                simp at hmem
          have hlen : l.length < n := by
            rw [List.length_cons] at hfuel
            omega
          rw [h.1, seek, if_neg hnext]
          exact ih h.2 (fun hm => hmem (List.mem_cons_of_mem _ hm)) hlen

/-- **Removal of a node that is not there** runs off the end of the list. -/
theorem Holds.remove_of_not_mem (h : s.Holds l) (hmem : elm ∉ l) (hfuel : l.length < fuel) :
    s.remove fuel elm = .fault := by
  have hfirst : s.first ≠ some elm := by
    intro hfirst
    cases l with
    | nil => cases hfirst.symm.trans h
    | cons a l =>
        obtain rfl : elm = a := Option.some.inj (hfirst.symm.trans h.1)
        exact hmem List.mem_cons_self
  rw [Links.remove, if_neg hfirst, seek_of_not_mem h hmem hfuel]
  rfl

end Links

end Linked
