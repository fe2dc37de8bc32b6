/-
# Paged address spaces and the mappings behind them

A page table sends a page number to the frame behind it: a page of some
mapping.  `mapPages` puts a whole mapping at a base page, `unmapPages` clears a
range of pages; each leaves every page outside its range alone.  The bytes
live in the mappings, not in the table: `Store` is indexed by mapping and byte
offset, so bytes written through a pinned mapping are seen by whoever has the
mapping in its table, and by nobody else.
-/

import Mathlib.Data.Nat.Basic

namespace Paging

/-- How many pages of 4096 bytes `len` bytes from a page boundary take. -/
def pageCount (len : ℕ) : ℕ := (len + 4095) / 4096

/-- Page `idx` of mapping `map`. -/
structure Frame where
  map : ℕ
  idx : ℕ
  deriving DecidableEq, Repr

/-- Page number to frame; `none` is an unmapped page. -/
abbrev PageTable := ℕ → Option Frame

/-- The bytes of every mapping. -/
abbrev Store := ℕ → ℕ → UInt8

/-- Put mapping `m` at `base`, over `n` pages. -/
def mapPages (pt : PageTable) (base n m : ℕ) : PageTable := fun p =>
  if base ≤ p ∧ p < base + n then some ⟨m, p - base⟩ else pt p

/-- Clear the `n` pages from `base`. -/
def unmapPages (pt : PageTable) (base n : ℕ) : PageTable := fun p =>
  if base ≤ p ∧ p < base + n then none else pt p

/-- No page of the range is mapped. -/
def Free (pt : PageTable) (base n : ℕ) : Prop := ∀ k < n, pt (base + k) = none

/-- Every page of the range is mapped. -/
def Mapped (pt : PageTable) (base n : ℕ) : Prop := ∀ k < n, (pt (base + k)).isSome

instance (pt : PageTable) (base n : ℕ) : Decidable (Free pt base n) :=
  inferInstanceAs (Decidable (∀ k < n, pt (base + k) = none))

instance (pt : PageTable) (base n : ℕ) : Decidable (Mapped pt base n) :=
  inferInstanceAs (Decidable (∀ k < n, (pt (base + k)).isSome))

/-- Mapping `m` lies at `base`, over `n` pages, in page order. -/
def MapsAt (pt : PageTable) (base n m : ℕ) : Prop := ∀ k < n, pt (base + k) = some ⟨m, k⟩

/-- The byte at an address, if its page is mapped. -/
def byteAt (pt : PageTable) (st : Store) (a : ℕ) : Option UInt8 :=
  (pt (a / 4096)).map fun f => st f.map (f.idx * 4096 + a % 4096)

/-- Overwrite `len` bytes of mapping `m` from offset `o`. -/
def storeBytes (st : Store) (m o len : ℕ) (data : ℕ → UInt8) : Store := fun m' i =>
  if m' = m ∧ o ≤ i ∧ i < o + len then data (i - o) else st m' i

section Tables

variable {pt : PageTable} {base n m p : ℕ}

theorem mapPages_of_mem (h : base ≤ p) (h' : p < base + n) :
    mapPages pt base n m p = some ⟨m, p - base⟩ := by
  rw [mapPages, if_pos ⟨h, h'⟩]

theorem mapPages_of_not_mem (h : p < base ∨ base + n ≤ p) : mapPages pt base n m p = pt p := by
  rw [mapPages, if_neg (by omega)]

theorem unmapPages_of_mem (h : base ≤ p) (h' : p < base + n) : unmapPages pt base n p = none := by
  rw [unmapPages, if_pos ⟨h, h'⟩]

theorem unmapPages_of_not_mem (h : p < base ∨ base + n ≤ p) : unmapPages pt base n p = pt p := by
  rw [unmapPages, if_neg (by omega)]

theorem mapsAt_mapPages (pt : PageTable) (base n m : ℕ) : MapsAt (mapPages pt base n m) base n m := by
  intro k hk
  rw [mapPages_of_mem (by omega) (by omega), Nat.add_sub_cancel_left]

/-- A mapped range and a free range have no page in common. -/
theorem MapsAt.disjoint_of_free {base' n' : ℕ} (h : MapsAt pt base n m) (hf : Free pt base' n')
    {k : ℕ} (hk : k < n) : base + k < base' ∨ base' + n' ≤ base + k := by
  by_contra hc
  have h1 := h k hk
  have h2 := hf (base + k - base') (by omega)
  rw [show base' + (base + k - base') = base + k by omega] at h2
  rw [h1] at h2
  cases h2

/-- Two mappings of one table have no page in common. -/
theorem MapsAt.disjoint_of_ne {base' n' m' : ℕ} (h : MapsAt pt base n m)
    (h' : MapsAt pt base' n' m') (hne : m ≠ m') {k : ℕ} (hk : k < n) :
    base + k < base' ∨ base' + n' ≤ base + k := by
  by_contra hc
  have h1 := h k hk
  have h2 := h' (base + k - base') (by omega)
  rw [show base' + (base + k - base') = base + k by omega, h1] at h2
  exact hne (congrArg Frame.map (Option.some.inj h2))

/-- Mapping a free range leaves the mappings already there alone. -/
theorem MapsAt.mapPages {base' n' m' : ℕ} (h : MapsAt pt base n m) (hf : Free pt base' n') :
    MapsAt (mapPages pt base' n' m') base n m := by
  intro k hk
  rw [mapPages_of_not_mem (h.disjoint_of_free hf hk), h k hk]

/-- Clearing a range leaves alone the mappings that have no page in it. -/
theorem MapsAt.unmapPages {base' n' : ℕ} (h : MapsAt pt base n m)
    (hd : ∀ k < n, base + k < base' ∨ base' + n' ≤ base + k) :
    MapsAt (unmapPages pt base' n') base n m := by
  intro k hk
  rw [unmapPages_of_not_mem (hd k hk), h k hk]

end Tables

/-- Through a mapping that starts at a page boundary, the byte at an address is
the mapping's byte at the address's offset. -/
theorem MapsAt.byteAt {pt : PageTable} {st : Store} {base n m : ℕ} (h : MapsAt pt base n m)
    {i : ℕ} (hi : i < n * 4096) : byteAt pt st (base * 4096 + i) = some (st m i) := by
  have hp : (base * 4096 + i) / 4096 = base + i / 4096 := by omega
  have ho : (base * 4096 + i) % 4096 = i % 4096 := by omega
  rw [Paging.byteAt, hp, h (i / 4096) (by omega), ho]
  simp only [Option.map_some, Option.some.injEq]
  congr 1
  omega

theorem le_pageCount (len : ℕ) : len ≤ pageCount len * 4096 := by
  unfold pageCount
  omega

theorem storeBytes_of_mem {st : Store} {m o len i : ℕ} {data : ℕ → UInt8} (h : o ≤ i)
    (h' : i < o + len) : storeBytes st m o len data m i = data (i - o) := by
  rw [storeBytes, if_pos ⟨rfl, h, h'⟩]

theorem storeBytes_of_ne {st : Store} {m m' o len : ℕ} {data : ℕ → UInt8} (h : m' ≠ m) :
    storeBytes st m o len data m' = st m' := by
  funext i
  rw [storeBytes, if_neg (fun hc => h hc.1)]

end Paging
