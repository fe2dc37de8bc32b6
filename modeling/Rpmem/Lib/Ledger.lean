/-
# Ledgers of acquired objects

A program reaches the objects it acquires through pointers, one for each kind
`κ` of object.  A `Book` is the ledger of such a program: the pointers that name
a live object, the live objects no pointer names any more because it was
overwritten, and the releases that were wrong, because the object was not live
or because a live object of a kind in `users` still used it.
-/

import Mathlib.Logic.Basic
import Mathlib.Data.Set.Defs

namespace Ledger

/-- The ledger: `live x` says that the pointer to the object of kind `x` names a
live one, `lost` and `misused` are the lost objects and the wrong releases. -/
structure Book (κ : Type*) where
  live : κ → Bool
  lost : List κ
  misused : List κ

namespace Book

variable {κ : Type*}

def empty : Book κ := ⟨fun _ => false, [], []⟩

@[simp] theorem live_empty (x : κ) : (empty : Book κ).live x = false := rfl

/-- No object is live. -/
def Clear (b : Book κ) : Prop := (∀ x, b.live x = false) ∧ b.lost = []

variable [DecidableEq κ]

/-- Overwrite the pointer of a kind with `NULL`. -/
def forget (b : Book κ) (x : κ) : Book κ :=
  { b with
    live := fun y => if y = x then false else b.live y
    lost := if b.live x then x :: b.lost else b.lost }

/-- Acquire an object and keep its address in the pointer of its kind. -/
def acquire (b : Book κ) (x : κ) : Book κ :=
  { b.forget x with live := fun y => if y = x then true else b.live y }

/-- Some live object uses the object of kind `x`. -/
def inUse (users : κ → List κ) (b : Book κ) (x : κ) : Bool :=
  (users x).any fun y => b.live y || decide (y ∈ b.lost)

/-- Release the object the pointer names. -/
def release (users : κ → List κ) (b : Book κ) (x : κ) : Book κ :=
  { b with
    live := fun y => if y = x then false else b.live y
    misused := if b.live x && !b.inUse users x then b.misused else x :: b.misused }

/-- Release an object that its library keeps as long as it is in use. -/
def destroy (users : κ → List κ) (b : Book κ) (x : κ) : Book κ :=
  if b.live x && b.inUse users x then b else b.release users x

variable {users : κ → List κ} {b : Book κ} {x y : κ}

/-- Overwriting a pointer to nothing changes nothing. -/
theorem forget_eq_self (hx : b.live x = false) : b.forget x = b := by
  have hlive : (fun y => if y = x then false else b.live y) = b.live := by
    funext y
    split <;> simp_all
  simp only [forget, hlive, hx, Bool.false_eq_true, if_false]

@[simp] theorem live_forget : (b.forget x).live y = if y = x then false else b.live y := rfl

@[simp] theorem live_acquire : (b.acquire x).live y = if y = x then true else b.live y := rfl

@[simp] theorem misused_acquire : (b.acquire x).misused = b.misused := rfl

@[simp] theorem live_release :
    (b.release users x).live y = if y = x then false else b.live y := rfl

@[simp] theorem lost_release : (b.release users x).lost = b.lost := rfl

/-- A pointer to nothing loses nothing. -/
theorem lost_acquire (hx : b.live x = false) : (b.acquire x).lost = b.lost := by
  simp [acquire, forget, hx]

/-- Nothing uses an object when no user is live and nothing is lost. -/
theorem inUse_eq_false (hlost : b.lost = []) (hu : ∀ y ∈ users x, b.live y = false) :
    b.inUse users x = false := by
  rw [inUse, List.any_eq_false]
  intro y hy
  simp [hu y hy, hlost]

theorem inUse_of_live (hy : y ∈ users x) (hl : b.live y = true) : b.inUse users x = true :=
  List.any_eq_true.2 ⟨y, hy, by simp [hl]⟩

/-- Releasing a live object that nothing uses is right. -/
theorem misused_release (hx : b.live x = true) (hu : b.inUse users x = false) :
    (b.release users x).misused = b.misused := by
  simp [release, hx, hu]

/-- Nothing is refused when nothing uses the object. -/
theorem destroy_eq_release (hu : b.inUse users x = false) :
    b.destroy users x = b.release users x := by
  simp [destroy, hu]

/-- An object in use outlives the attempt to destroy it. -/
theorem destroy_eq_self (hx : b.live x = true) (hu : b.inUse users x = true) :
    b.destroy users x = b := by
  simp [destroy, hx, hu]

section Frame

/-! An operation on `x` leaves the kinds `l` it is not in. -/

variable {l : List κ}

theorem live_forget_of_mem (hx : x ∉ l) : ∀ y ∈ l, (b.forget x).live y = b.live y :=
  fun _ hy => if_neg (ne_of_mem_of_not_mem hy hx)

theorem live_acquire_of_mem (hx : x ∉ l) : ∀ y ∈ l, (b.acquire x).live y = b.live y :=
  fun _ hy => if_neg (ne_of_mem_of_not_mem hy hx)

theorem live_release_of_mem (hx : x ∉ l) : ∀ y ∈ l, (b.release users x).live y = b.live y :=
  fun _ hy => if_neg (ne_of_mem_of_not_mem hy hx)

theorem live_destroy_of_mem (hx : x ∉ l) : ∀ y ∈ l, (b.destroy users x).live y = b.live y := by
  intro y hy
  unfold destroy
  split
  · rfl
  · exact live_release_of_mem hx y hy

theorem forall_live_forget (h : ∀ y ∈ l, b.live y = true) (hx : x ∉ l) :
    ∀ y ∈ l, (b.forget x).live y = true :=
  fun y hy => (live_forget_of_mem hx y hy).trans (h y hy)

theorem forall_live_release (h : ∀ y ∈ l, b.live y = true) (hx : x ∉ l) :
    ∀ y ∈ l, (b.release users x).live y = true :=
  fun y hy => (live_release_of_mem hx y hy).trans (h y hy)

theorem forall_live_destroy (h : ∀ y ∈ l, b.live y = true) (hx : x ∉ l) :
    ∀ y ∈ l, (b.destroy users x).live y = true :=
  fun y hy => (live_destroy_of_mem hx y hy).trans (h y hy)

/-- What is live stays so when more is acquired. -/
theorem forall_live_acquire (h : ∀ y ∈ l, b.live y = true) :
    ∀ y ∈ x :: l, (b.acquire x).live y = true := by
  intro y hy
  rw [live_acquire]
  split
  next => rfl
  next hne => exact h y ((List.mem_cons.1 hy).resolve_left hne)

end Frame

end Book

end Ledger
