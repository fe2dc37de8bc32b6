/-
# First fit in a list

Taking the first item of a list that passes a test, and the list without it.
`FirstFit` says what that is, `firstFit_find?` that `find?` and `erase` do it,
and `find?_eq_find?_iff` when the scans of two tests stop at the same item: the
first item that either test accepts is one that both accept.
-/

import Mathlib.Logic.Basic

namespace Scan

variable {α : Type*}

/-- First fit takes the first item that passes `p` and leaves the others in
their order, or takes nothing if there is none. -/
inductive FirstFit (p : α → Prop) : List α → Option α → List α → Prop
  | found (l₁ l₂ : List α) (r : α) (hl : ∀ x ∈ l₁, ¬ p x) (hr : p r) :
      FirstFit p (l₁ ++ r :: l₂) (some r) (l₁ ++ l₂)
  | none (l : List α) (hl : ∀ x ∈ l, ¬ p x) : FirstFit p l none l

/-- The list without the item taken from it. -/
def rest [DecidableEq α] (l : List α) : Option α → List α
  | some r => l.erase r
  | none => l

variable {p q : α → Bool} {l l' : List α} {x : Option α}

/-- **Scanning and erasing is first fit.** -/
theorem firstFit_find? [DecidableEq α] (p : α → Bool) (l : List α) :
    FirstFit (fun x => p x = true) l (l.find? p) (rest l (l.find? p)) := by
  cases hfind : l.find? p with
  | none =>
      refine .none l fun x hx => ?_
      simpa using List.find?_eq_none.1 hfind x hx
  | some r =>
      obtain ⟨hr, l₁, l₂, rfl, hl⟩ := List.find?_eq_some_iff_append.1 hfind
      have hnot : r ∉ l₁ := by
        intro hm
        have := hl r hm
        rw [hr] at this
        cases this
      have herase : rest (l₁ ++ r :: l₂) (some r) = l₁ ++ l₂ := by
        rw [rest, List.erase_append_right _ hnot, List.erase_cons_head]
      rw [herase]
      exact .found l₁ l₂ r (fun x hx => by simpa using hl x hx) hr

/-- First fit has one result. -/
theorem FirstFit.eq_find? (h : FirstFit (fun x => q x = true) l x l') : x = l.find? q := by
  cases h with
  | found l₁ l₂ r hl hr =>
      symm
      rw [List.find?_eq_some_iff_append]
      exact ⟨hr, l₁, l₂, rfl, fun x hx => by simpa using hl x hx⟩
  | none l hl =>
      symm
      rw [List.find?_eq_none]
      exact hl

/-- **Two scans stop at the same item** if and only if the first item that either
test accepts passes both. -/
theorem find?_eq_find?_iff :
    l.find? p = l.find? q ↔
      ∀ x, l.find? (fun x => p x || q x) = some x → p x = true ∧ q x = true := by
  induction l with
  | nil => simp
  | cons a l ih =>
      cases hp : p a with
      | true =>
          cases hq : q a with
          | true => simp [hp, hq]
          | false =>
              -- the scan for `q` goes on, and never comes back to `a`
              have hne : l.find? q ≠ some a := by
                intro h
                have := List.find?_some h
                rw [hq] at this
                cases this
              simpa [hp, hq] using Ne.symm hne
      | false =>
          cases hq : q a with
          | true =>
              have hne : l.find? p ≠ some a := by
                intro h
                have := List.find?_some h
                rw [hp] at this
                cases this
              simpa [hp, hq] using hne
          | false => simpa [hp, hq] using ih

/-- **Scanning with one test is first fit for another** if and only if the two
scans stop at the same item. -/
theorem firstFit_find?_iff [DecidableEq α] :
    FirstFit (fun x => q x = true) l (l.find? p) (rest l (l.find? p)) ↔
      ∀ x, l.find? (fun x => p x || q x) = some x → p x = true ∧ q x = true := by
  rw [← find?_eq_find?_iff]
  constructor
  · exact FirstFit.eq_find?
  · intro h
    rw [h]
    exact firstFit_find? q l

end Scan
