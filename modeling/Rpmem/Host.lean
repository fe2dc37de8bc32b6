/-
# The server's host: address space, files and memory registrations

What the server asks of the operating system and of the verbs library:
`mmap`, `munmap` and `msync` as POSIX has them, `ibv_reg_mr` and
`ibv_dereg_mr`, and what the adapter does with a registration when a remote
read or write arrives.  The environment's choice is an argument of each call
(the address `mmap` picks, the key a registration gets, whether the call
fails); a choice the call could not have made counts as a failure.

* `mmap` with no address hint picks a free page-aligned range at or above
  `TASK_UNMAPPED_BASE` and below `TASK_SIZE`; it fails for length `0`.
* `munmap` wants a page boundary and a positive length inside `TASK_SIZE`, and
  then clears every page that holds a byte of the range.
* `msync` wants a page boundary and every page of the range mapped.  It writes
  the pages of `MAP_SHARED` mappings to their file; a `MAP_PRIVATE` mapping
  never reaches its file.  Left out is that Linux rounds a length of the last
  4095 below `2 ^ 64` up to `0` and returns `0`; here it fails.
* A registration pins the mapping behind its range.  It can be used through
  queue pairs of its protection domain only, inside its range only, until it
  is deregistered; there is one protection domain per connection.  An access of
  no bytes is held to the same, though an adapter need not look at its key.
-/

import Rpmem.Lib.Paging
import Rpmem.Protocol

namespace Rpmem

open Paging

/-- The two sharing modes of `mmap`. -/
inductive MapFlag
  | shared | priv
  deriving DecidableEq, Repr

/-- What a mapping was made from: a file, from offset `0`. -/
structure MapInfo where
  fd : ℕ
  flag : MapFlag
  deriving DecidableEq, Repr

/-- A live memory region; `map` is the mapping it pins. -/
structure Registration where
  id : ℕ
  pd : ℕ
  addr : BitVec 64
  len : ℕ
  rkey : BitVec 32
  map : Option ℕ
  deriving DecidableEq, Repr

/-- The host's state. -/
structure Host where
  pages : PageTable
  store : Store
  info : ℕ → MapInfo
  nextMap : ℕ
  files : ℕ → ℕ → UInt8
  mrs : List Registration
  nextMr : ℕ

/-- `TASK_SIZE` of x86-64: the last page below `2 ^ 47` is not mapped. -/
def taskSize : ℕ := 2 ^ 47 - 4096

/-- `TASK_UNMAPPED_BASE`, a third of `TASK_SIZE`: the lowest address of an
unhinted mapping. -/
def taskUnmappedBase : ℕ := 0x2aaaaaaab000

/-- The first page of an address. -/
def pageOf (a : BitVec 64) : ℕ := a.toNat / 4096

/-- The pages a length takes from a page boundary. -/
def pagesOf (len : BitVec 64) : ℕ := pageCount len.toNat

namespace Host

variable (h : Host)

/-- Where an unhinted `mmap` of `len` bytes may land. -/
def CanMap (len a : BitVec 64) : Prop :=
  len ≠ 0 ∧ a.toNat % 4096 = 0 ∧ taskUnmappedBase ≤ a.toNat ∧
    a.toNat + pagesOf len * 4096 ≤ taskSize ∧ Free h.pages (pageOf a) (pagesOf len)

instance (len a : BitVec 64) : Decidable (h.CanMap len a) :=
  inferInstanceAs (Decidable (_ ∧ _ ∧ _ ∧ _ ∧ _))

/-- The host with `len` bytes of file `fd` mapped at `a`. -/
def mapped (fd : ℕ) (flag : MapFlag) (len a : BitVec 64) : Host :=
  { h with
    pages := mapPages h.pages (pageOf a) (pagesOf len) h.nextMap
    store := Function.update h.store h.nextMap (h.files fd)
    info := Function.update h.info h.nextMap ⟨fd, flag⟩
    nextMap := h.nextMap + 1 }

/-- `mmap(NULL, len, PROT_READ|PROT_WRITE, flag, fd, 0)`; `none` is `MAP_FAILED`. -/
def mmap (fd : ℕ) (flag : MapFlag) (len : BitVec 64) : Option (BitVec 64) → Option (BitVec 64) × Host
  | some a => if h.CanMap len a then (some a, h.mapped fd flag len a) else (none, h)
  | none => (none, h)

/-- The arguments `munmap` accepts. -/
def CanUnmap (addr len : BitVec 64) : Prop :=
  addr.toNat % 4096 = 0 ∧ len ≠ 0 ∧ addr.toNat + len.toNat ≤ taskSize

instance (addr len : BitVec 64) : Decidable (CanUnmap addr len) :=
  inferInstanceAs (Decidable (_ ∧ _ ∧ _))

/-- The host with the pages of the range cleared. -/
def unmapped (addr len : BitVec 64) : Host :=
  { h with pages := unmapPages h.pages (pageOf addr) (pagesOf len) }

/-- `munmap(addr, len)`: the return value and the host after. -/
def munmap (addr len : BitVec 64) (ok : Bool) : CInt × Host :=
  if ok = true ∧ CanUnmap addr len then (0, h.unmapped addr len) else (-1, h)

/-- The ranges `msync` accepts, less those whose length wraps to `0` when it is rounded up. -/
def CanSync (addr len : BitVec 64) : Prop :=
  addr.toNat % 4096 = 0 ∧ addr.toNat + len.toNat ≤ taskSize ∧
    Mapped h.pages (pageOf addr) (pagesOf len)

instance (addr len : BitVec 64) : Decidable (h.CanSync addr len) :=
  inferInstanceAs (Decidable (_ ∧ _ ∧ _))

/-- The files after the first `n` pages from `base` have been written back. -/
def syncFiles (base : ℕ) : ℕ → ℕ → ℕ → UInt8
  | 0 => h.files
  | n + 1 => fun fd i =>
      match h.pages (base + n) with
      | some f =>
          if (h.info f.map).flag = .shared ∧ (h.info f.map).fd = fd ∧ i / 4096 = f.idx then
            h.store f.map i
          else syncFiles base n fd i
      | none => syncFiles base n fd i

/-- `msync(addr, len, MS_SYNC)`: the return value and the host after. -/
def msync (addr len : BitVec 64) (ok : Bool) : CInt × Host :=
  if ok = true ∧ h.CanSync addr len then
    (0, { h with files := h.syncFiles (pageOf addr) (pagesOf len) })
  else (-1, h)

/-- The registration `ibv_reg_mr(pd, addr, len, …)` makes: it pins the mapping
behind `addr`; a `NULL` address has nothing to pin. -/
def registration (pd : ℕ) (addr len : BitVec 64) (rkey : BitVec 32) : Registration where
  id := h.nextMr
  pd := pd
  addr := addr
  len := len.toNat
  rkey := rkey
  map := if addr = 0 then none else (h.pages (pageOf addr)).map Frame.map

/-- `ibv_reg_mr(pd, addr, len, …)`: no two live regions have one key. -/
def regMr (pd : ℕ) (addr len : BitVec 64) : Option (BitVec 32) → Option Registration × Host
  | some rkey =>
      if ∀ r ∈ h.mrs, r.rkey ≠ rkey then
        (some (h.registration pd addr len rkey),
          { h with mrs := h.registration pd addr len rkey :: h.mrs, nextMr := h.nextMr + 1 })
      else (none, h)
  | none => (none, h)

/-- The region a pointer names is still registered. -/
def LiveMr (id : ℕ) : Prop := ∃ r ∈ h.mrs, r.id = id

instance (id : ℕ) : Decidable (h.LiveMr id) := inferInstanceAs (Decidable (∃ r ∈ h.mrs, r.id = id))

/-- `ibv_dereg_mr` of a live region; nothing happens to the others. -/
def deregMr (id : ℕ) : Host := { h with mrs := h.mrs.filter (·.id ≠ id) }

/-- The bytes a registration lets a remote access reach. -/
def Covers (r : Registration) (pd : ℕ) (rkey : BitVec 32) (raddr : BitVec 64) (len : ℕ) : Prop :=
  r.pd = pd ∧ r.rkey = rkey ∧ r.addr.toNat ≤ raddr.toNat ∧
    raddr.toNat + len ≤ r.addr.toNat + r.len

instance (r : Registration) (pd : ℕ) (rkey : BitVec 32) (raddr : BitVec 64) (len : ℕ) :
    Decidable (Covers r pd rkey raddr len) :=
  inferInstanceAs (Decidable (_ ∧ _ ∧ _ ∧ _))

/-- The mapping and the offset a remote access goes to; `none` is an access
the adapter refuses, which one of no bytes with a wrong key is here too. -/
def remote (pd : ℕ) (rkey : BitVec 32) (raddr : BitVec 64) (len : ℕ) : Option (ℕ × ℕ) :=
  (h.mrs.find? fun r => Covers r pd rkey raddr len).bind fun r =>
    r.map.map fun m => (m, raddr.toNat - r.addr.toNat)

/-- An RDMA write of `len` bytes. -/
def rdmaWrite (pd : ℕ) (rkey : BitVec 32) (raddr : BitVec 64) (len : ℕ) (data : ℕ → UInt8) :
    Option Host :=
  (h.remote pd rkey raddr len).map fun t =>
    { h with store := storeBytes h.store t.1 t.2 len data }

/-- An RDMA read of `len` bytes: byte `i` of what it fetches. -/
def rdmaRead (pd : ℕ) (rkey : BitVec 32) (raddr : BitVec 64) (len : ℕ) : Option (ℕ → UInt8) :=
  (h.remote pd rkey raddr len).map fun t i => h.store t.1 (t.2 + i)

/-- The byte the server process sees at an address. -/
def byteAt (a : ℕ) : Option UInt8 := Paging.byteAt h.pages h.store a

/-! ### What each call can do -/

variable {h}

theorem mmap_cases (fd : ℕ) (flag : MapFlag) (len : BitVec 64) (choice : Option (BitVec 64)) :
    h.mmap fd flag len choice = (none, h) ∨
      ∃ a, h.CanMap len a ∧ h.mmap fd flag len choice = (some a, h.mapped fd flag len a) := by
  unfold mmap
  split
  · split_ifs with ha
    · exact .inr ⟨_, ha, rfl⟩
    · exact .inl rfl
  · exact .inl rfl

theorem munmap_cases (addr len : BitVec 64) (ok : Bool) :
    h.munmap addr len ok = (-1, h) ∨
      CanUnmap addr len ∧ h.munmap addr len ok = (0, h.unmapped addr len) := by
  unfold munmap
  split_ifs with hc
  · exact .inr ⟨hc.2, rfl⟩
  · exact .inl rfl

theorem regMr_cases (pd : ℕ) (addr len : BitVec 64) (choice : Option (BitVec 32)) :
    h.regMr pd addr len choice = (none, h) ∨
      ∃ rkey, (∀ r ∈ h.mrs, r.rkey ≠ rkey) ∧
        h.regMr pd addr len choice = (some (h.registration pd addr len rkey),
          { h with mrs := h.registration pd addr len rkey :: h.mrs, nextMr := h.nextMr + 1 }) := by
  unfold regMr
  split
  · split_ifs with hr
    · exact .inr ⟨_, hr, rfl⟩
    · exact .inl rfl
  · exact .inl rfl

theorem msync_cases (addr len : BitVec 64) (ok : Bool) :
    h.msync addr len ok = (-1, h) ∨
      h.CanSync addr len ∧
        h.msync addr len ok = (0, { h with files := h.syncFiles (pageOf addr) (pagesOf len) }) := by
  unfold msync
  split_ifs with hc
  · exact .inr ⟨hc.2, rfl⟩
  · exact .inl rfl

/-- `munmap` changes the page table only. -/
theorem munmap_eq {addr len : BitVec 64} {ok : Bool} {ret : CInt} {h' : Host}
    (hm : h.munmap addr len ok = (ret, h')) : ∃ pages, h' = { h with pages := pages } := by
  rcases munmap_cases (h := h) addr len ok with he | ⟨-, he⟩ <;> rw [hm] at he <;> cases he <;>
    exact ⟨_, rfl⟩

/-- `msync` changes the files only. -/
theorem msync_eq {addr len : BitVec 64} {ok : Bool} {ret : CInt} {h' : Host}
    (hm : h.msync addr len ok = (ret, h')) : ∃ files, h' = { h with files := files } := by
  rcases msync_cases (h := h) addr len ok with he | ⟨-, he⟩ <;> rw [hm] at he <;> cases he <;>
    exact ⟨_, rfl⟩

/-- A remote access goes through a registration that covers it. -/
theorem remote_cases {pd : ℕ} {rkey : BitVec 32} {raddr : BitVec 64} {len : ℕ} {t : ℕ × ℕ}
    (hr : h.remote pd rkey raddr len = some t) :
    ∃ q ∈ h.mrs, Covers q pd rkey raddr len ∧ q.map = some t.1 ∧
      t.2 = raddr.toNat - q.addr.toNat := by
  obtain ⟨q, hq, hmap⟩ := Option.bind_eq_some_iff.1 hr
  obtain ⟨m, hm, rfl⟩ := Option.map_eq_some_iff.1 hmap
  exact ⟨q, List.mem_of_find?_eq_some hq, by simpa using List.find?_some hq, hm, rfl⟩

theorem rdmaWrite_cases {pd : ℕ} {rkey : BitVec 32} {raddr : BitVec 64} {len : ℕ}
    {data : ℕ → UInt8} {h' : Host} (hw : h.rdmaWrite pd rkey raddr len data = some h') :
    ∃ q ∈ h.mrs, ∃ m, Covers q pd rkey raddr len ∧ q.map = some m ∧
      h' = { h with store := storeBytes h.store m (raddr.toNat - q.addr.toNat) len data } := by
  obtain ⟨t, ht, rfl⟩ := Option.map_eq_some_iff.1 hw
  obtain ⟨q, hq, hcov, hm, hoff⟩ := remote_cases ht
  exact ⟨q, hq, t.1, hcov, hm, by rw [hoff]⟩

theorem rdmaRead_cases {pd : ℕ} {rkey : BitVec 32} {raddr : BitVec 64} {len : ℕ}
    {data : ℕ → UInt8} (hr : h.rdmaRead pd rkey raddr len = some data) :
    ∃ q ∈ h.mrs, ∃ m, Covers q pd rkey raddr len ∧ q.map = some m ∧
      data = fun i => h.store m (raddr.toNat - q.addr.toNat + i) := by
  obtain ⟨t, ht, rfl⟩ := Option.map_eq_some_iff.1 hr
  obtain ⟨q, hq, hcov, hm, hoff⟩ := remote_cases ht
  exact ⟨q, hq, t.1, hcov, hm, by rw [hoff]⟩

/-! ### Registrations are changed by registering and deregistering only -/

theorem mmap_mrs {fd : ℕ} {flag : MapFlag} {len : BitVec 64} {choice a : Option (BitVec 64)}
    {h' : Host} (hm : h.mmap fd flag len choice = (a, h')) :
    h'.mrs = h.mrs ∧ h'.nextMr = h.nextMr := by
  rcases mmap_cases (h := h) fd flag len choice with he | ⟨x, -, he⟩ <;> rw [hm] at he <;> cases he <;>
    exact ⟨rfl, rfl⟩

theorem munmap_mrs {addr len : BitVec 64} {ok : Bool} {ret : CInt} {h' : Host}
    (hm : h.munmap addr len ok = (ret, h')) : h'.mrs = h.mrs ∧ h'.nextMr = h.nextMr := by
  obtain ⟨pages, rfl⟩ := munmap_eq hm
  exact ⟨rfl, rfl⟩

theorem msync_mrs {addr len : BitVec 64} {ok : Bool} {ret : CInt} {h' : Host}
    (hm : h.msync addr len ok = (ret, h')) : h'.mrs = h.mrs ∧ h'.nextMr = h.nextMr := by
  obtain ⟨files, rfl⟩ := msync_eq hm
  exact ⟨rfl, rfl⟩

theorem mem_deregMr {id : ℕ} {q : Registration} : q ∈ (h.deregMr id).mrs ↔ q ∈ h.mrs ∧ q.id ≠ id := by
  simp [deregMr]

theorem liveMr_deregMr {id id' : ℕ} : (h.deregMr id).LiveMr id' ↔ h.LiveMr id' ∧ id' ≠ id := by
  constructor
  · rintro ⟨q, hq, rfl⟩
    obtain ⟨hq, hne⟩ := mem_deregMr.1 hq
    exact ⟨⟨q, hq, rfl⟩, hne⟩
  · rintro ⟨⟨q, hq, rfl⟩, hne⟩
    exact ⟨q, mem_deregMr.2 ⟨hq, hne⟩, rfl⟩

end Host

end Rpmem
