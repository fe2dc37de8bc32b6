/-
# An exclusive allocator with size accounting

A pool of items handed out to holders: a list of free items, at most one item
per holder, and two counters in a commutative group that are meant to add up
the sizes of the free items and of the others.  `take` moves a free item to a
holder, which forgets whatever it held; `give` returns a holder's item to the
head of the list.  Both keep the pool `Exclusive`: an item is free once, or
held by one holder, or neither, never two of these.  If holders only take when
they hold nothing, the pool also stays `Complete`: no item is lost.  `placed`
lists the items of the pool with the places they are in, so that for a list of
all holders nothing lost and nothing doubled is one permutation.
-/

import Mathlib.Algebra.BigOperators.Group.List.Basic
import Mathlib.Tactic.Abel

namespace Allocator

open scoped List

variable {ι α M : Type*} [DecidableEq ι] [AddCommGroup M]

/-- The pool: free items, who holds what, and the counters. -/
structure Pool (ι α M : Type*) where
  free : List α
  held : ι → Option α
  freeSize : M
  inUseSize : M
  totalSize : M

/-- Hand the item `r` to `c`. -/
def Pool.take [DecidableEq α] (size : α → M) (p : Pool ι α M) (c : ι) (r : α) : Pool ι α M where
  free := p.free.erase r
  held := Function.update p.held c (some r)
  freeSize := p.freeSize - size r
  inUseSize := p.inUseSize + size r
  totalSize := p.totalSize

/-- Put the item `r` of `c` back in front. -/
def Pool.give (size : α → M) (p : Pool ι α M) (c : ι) (r : α) : Pool ι α M where
  free := r :: p.free
  held := Function.update p.held c none
  freeSize := p.freeSize + size r
  inUseSize := p.inUseSize - size r
  totalSize := p.totalSize

/-- No item is in two places, and the counters add up. -/
structure Pool.Exclusive (size : α → M) (p : Pool ι α M) : Prop where
  nodup : p.free.Nodup
  holder : ∀ c d r, p.held c = some r → p.held d = some r → c = d
  not_free : ∀ c r, p.held c = some r → r ∉ p.free
  freeSize : p.freeSize = (p.free.map size).sum
  total : p.freeSize + p.inUseSize = p.totalSize

/-- Every item of `all` is free or held by someone. -/
def Pool.Complete (all : Set α) (p : Pool ι α M) : Prop :=
  ∀ r ∈ all, r ∈ p.free ∨ ∃ c, p.held c = some r

/-- Every item there is one of `all`. -/
structure Pool.Within (all : Set α) (p : Pool ι α M) : Prop where
  free : ∀ r ∈ p.free, r ∈ all
  held : ∀ c r, p.held c = some r → r ∈ all

/-- The free items, then the items of the holders `hs`. -/
def Pool.placed (p : Pool ι α M) (hs : List ι) : List α := p.free ++ hs.filterMap p.held

variable {size : α → M} {p : Pool ι α M} {c : ι} {r : α}

/-- **Handing out a free item keeps the pool exclusive**, also when the holder
had another item, which is then in no place any more. -/
theorem Pool.Exclusive.take [DecidableEq α] (h : p.Exclusive size) (hr : r ∈ p.free) :
    (p.take size c r).Exclusive size where
  nodup := h.nodup.erase r
  holder := by
    intro d e x hd he
    simp only [Pool.take, Function.update_apply] at hd he
    have hnot : ∀ i, p.held i ≠ some r := fun i hi => h.not_free i r hi hr
    split_ifs at hd he with h1 h2 h2
    · rw [h1, h2]
    · cases hd
      exact absurd he (hnot e)
    · cases he
      exact absurd hd (hnot d)
    · exact h.holder d e x hd he
  not_free := by
    intro d x hd hx
    simp only [Pool.take, Function.update_apply] at hd hx
    split_ifs at hd with h1
    · cases hd
      exact absurd hx h.nodup.not_mem_erase
    · exact h.not_free d x hd (List.mem_of_mem_erase hx)
  freeSize := by
    have hsum : (p.free.map size).sum = size r + ((p.free.erase r).map size).sum := by
      rw [((List.perm_cons_erase hr).map size).sum_eq, List.map_cons, List.sum_cons]
    simp only [Pool.take]
    rw [h.freeSize, hsum]
    abel
  total := by
    simp only [Pool.take]
    rw [← h.total]
    abel

/-- **Returning a held item keeps the pool exclusive.** -/
theorem Pool.Exclusive.give (h : p.Exclusive size) (hr : p.held c = some r) :
    (p.give size c r).Exclusive size where
  nodup := List.nodup_cons.2 ⟨h.not_free c r hr, h.nodup⟩
  holder := by
    intro d e x hd he
    simp only [Pool.give, Function.update_apply] at hd he
    split_ifs at hd he
    exact h.holder d e x hd he
  not_free := by
    intro d x hd hx
    simp only [Pool.give, Function.update_apply] at hd hx
    split_ifs at hd with h1
    rcases List.mem_cons.1 hx with rfl | hx
    · exact h1 (h.holder d c x hd hr)
    · exact h.not_free d x hd hx
  freeSize := by
    simp only [Pool.give, List.map_cons, List.sum_cons]
    rw [h.freeSize]
    abel
  total := by
    simp only [Pool.give]
    rw [← h.total]
    abel

/-- **A holder that held nothing loses nothing by taking an item.** -/
theorem Pool.Complete.take [DecidableEq α] {all : Set α} (h : p.Complete all)
    (hc : p.held c = none) : (p.take size c r).Complete all := by
  intro x hx
  by_cases hxr : x = r
  · exact .inr ⟨c, by simp [Pool.take, hxr]⟩
  · rcases h x hx with hfree | ⟨d, hd⟩
    · exact .inl ((List.mem_erase_of_ne hxr).2 hfree)
    · have hdc : d ≠ c := by
        rintro rfl
        rw [hc] at hd
        cases hd
      exact .inr ⟨d, by simp [Pool.take, hdc, hd]⟩

/-- **Returning a held item loses nothing.** -/
theorem Pool.Complete.give {all : Set α} (h : p.Complete all) (hr : p.held c = some r) :
    (p.give size c r).Complete all := by
  intro x hx
  rcases h x hx with hfree | ⟨d, hd⟩
  · exact .inl (List.mem_cons_of_mem _ hfree)
  · by_cases hdc : d = c
    · subst hdc
      obtain rfl : r = x := Option.some.inj (hr.symm.trans hd)
      exact .inl List.mem_cons_self
    · exact .inr ⟨d, by simp [Pool.give, hdc, hd]⟩

/-- Handing out an item brings no new one. -/
theorem Pool.Within.take [DecidableEq α] {all : Set α} (h : p.Within all) (hr : r ∈ p.free) :
    (p.take size c r).Within all := by
  refine ⟨fun x hx => h.free x (List.mem_of_mem_erase hx), fun d x hx => ?_⟩
  simp only [Pool.take, Function.update_apply] at hx
  split_ifs at hx with hd
  · exact Option.some.inj hx ▸ h.free r hr
  · exact h.held d x hx

/-- Nor does putting one back. -/
theorem Pool.Within.give {all : Set α} (h : p.Within all) (hr : p.held c = some r) :
    (p.give size c r).Within all := by
  refine ⟨fun x hx => ?_, fun d x hx => ?_⟩
  · rcases List.mem_cons.1 hx with rfl | hx
    · exact h.held c x hr
    · exact h.free x hx
  · simp only [Pool.give, Function.update_apply] at hx
    split_ifs at hx
    exact h.held d x hx

/-- The items of the holders `hs`, with the item of `c` in front. -/
theorem filterMap_perm_cons_erase {hs : List ι} (hc : c ∈ hs) (f : ι → Option α) :
    hs.filterMap f ~ (f c).toList ++ (hs.erase c).filterMap f := by
  have hperm := (List.perm_cons_erase hc).filterMap f
  cases hf : f c with
  | none => simpa [hf] using hperm
  | some x => simpa [hf] using hperm

/-- The other holders do not see what happens to `c`. -/
theorem filterMap_erase_update {hs : List ι} (hnd : hs.Nodup) (f : ι → Option α) (x : Option α) :
    (hs.erase c).filterMap (Function.update f c x) = (hs.erase c).filterMap f := by
  refine List.filterMap_congr fun d hd => ?_
  have hdc : d ≠ c := by
    rintro rfl
    exact hnd.not_mem_erase hd
  exact Function.update_of_ne hdc x f

/-- **A holder that held nothing takes a free item**: every item keeps one place. -/
theorem Pool.placed_take [DecidableEq α] {hs : List ι} (hnd : hs.Nodup) (hmem : c ∈ hs)
    (hc : p.held c = none) (hr : r ∈ p.free) :
    (p.take size c r).placed hs ~ p.placed hs := by
  have hnew := filterMap_perm_cons_erase hmem (Function.update p.held c (some r))
  have hold := filterMap_perm_cons_erase hmem p.held
  rw [filterMap_erase_update hnd, Function.update_self] at hnew
  rw [hc] at hold
  calc p.free.erase r ++ hs.filterMap (Function.update p.held c (some r))
      ~ p.free.erase r ++ ([r] ++ hs.filterMap p.held) :=
        (hnew.trans (hold.symm.append_left [r])).append_left _
    _ = (p.free.erase r ++ [r]) ++ hs.filterMap p.held := (List.append_assoc _ _ _).symm
    _ ~ p.free ++ hs.filterMap p.held :=
        ((List.perm_append_singleton r _).trans (List.perm_cons_erase hr).symm).append_right _

/-- **A holder gives its item back**: every item keeps one place. -/
theorem Pool.placed_give {hs : List ι} (hnd : hs.Nodup) (hmem : c ∈ hs) (hr : p.held c = some r) :
    (p.give size c r).placed hs ~ p.placed hs := by
  have hnew := filterMap_perm_cons_erase hmem (Function.update p.held c none)
  have hold := filterMap_perm_cons_erase hmem p.held
  rw [filterMap_erase_update hnd, Function.update_self] at hnew
  rw [hr] at hold
  calc r :: p.free ++ hs.filterMap (Function.update p.held c none)
      ~ r :: p.free ++ (hs.erase c).filterMap p.held := hnew.append_left _
    _ ~ p.free ++ r :: (hs.erase c).filterMap p.held := List.perm_middle.symm
    _ ~ p.free ++ hs.filterMap p.held := hold.symm.append_left _

end Allocator
