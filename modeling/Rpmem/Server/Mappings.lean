/-
# What UNMAP and COMMIT do to the address space

`rpmem_handle_unmap` and `rpmem_handle_commit` hand the address and the length
of the request to `munmap` and `msync`; the record the server keeps of the
mapping, `res->addr` and `res->map_len`, is cleared without being compared.  So
a request can take away another connection's mapping, or put a resource back
whose mapping is still there.

`NamesOwn` is the comparison that is missing: an UNMAP names the mapping the
server recorded for its connection, a COMMIT a range inside it.  In a run that
keeps to it every registration lies over its own, whole mapping
(`Host.PinInv`, `Server.MapInv`), and then a request touches nothing but its
connection's mapping.
-/

import Rpmem.Server.Faults

namespace Rpmem

open Paging

/-! ### Lengths -/

/-- An `int` passed as a `size_t` keeps its value or becomes very large. -/
theorem sizeT_cases (len : CInt) :
    (0 ≤ len.toInt ∧ ((sizeT len).toNat : ℤ) = len.toInt ∧ (sizeT len).toNat < 2 ^ 31) ∨
      len.toInt < 0 ∧ 2 ^ 64 - 2 ^ 31 ≤ (sizeT len).toNat := by
  have hext : (sizeT len).toInt = len.toInt := BitVec.toInt_signExtend_of_le (by decide)
  have hlow := BitVec.le_toInt len
  have hhigh : len.toInt < 2 ^ (32 - 1) := BitVec.toInt_lt
  have hcond := BitVec.toInt_eq_toNat_cond (sizeT len)
  have hlt := (sizeT len).isLt
  rw [hext] at hcond
  split_ifs at hcond <;> omega

/-! ### Registrations and the mappings they pin -/

/-- The registration lies over mapping `m`, which is whole, was made after the
first `base` mappings and is where `mmap` puts mappings. -/
structure Registration.Pins (base : ℕ) (h : Host) (q : Registration) (m : ℕ) : Prop where
  made : base ≤ m
  lt : m < h.nextMap
  aligned : q.addr.toNat % 4096 = 0
  bottom : taskUnmappedBase ≤ q.addr.toNat
  top : q.addr.toNat + pageCount q.len * 4096 ≤ taskSize
  maps : MapsAt h.pages (pageOf q.addr) (pageCount q.len) m

/-- Every registration that pins a mapping lies over it, and no two pin one. -/
structure Host.PinInv (base : ℕ) (h : Host) : Prop where
  base_le : base ≤ h.nextMap
  frames : ∀ p f, h.pages p = some f → f.map < h.nextMap
  pinned : ∀ q ∈ h.mrs, ∀ m, q.map = some m → q.Pins base h m
  inj : ∀ q ∈ h.mrs, ∀ q' ∈ h.mrs, ∀ m, q.map = some m → q'.map = some m → q = q'

namespace Host.PinInv

variable {base : ℕ} {h h' : Host}

theorem congr (hi : h.PinInv base) (hp : h'.pages = h.pages) (hm : h'.mrs = h.mrs)
    (hn : h'.nextMap = h.nextMap) : h'.PinInv base where
  base_le := hn ▸ hi.base_le
  frames := by
    rw [hp, hn]
    exact hi.frames
  pinned q hq m hqm := by
    have hpin := hi.pinned q (hm ▸ hq) m hqm
    exact ⟨hpin.made, hn ▸ hpin.lt, hpin.aligned, hpin.bottom, hpin.top, hp ▸ hpin.maps⟩
  inj := by
    rw [hm]
    exact hi.inj

/-- A new mapping is pinned by nobody, and lies where nothing was. -/
theorem mapped (hi : h.PinInv base) (fd : ℕ) (flag : MapFlag) {len a : BitVec 64}
    (hc : h.CanMap len a) : (h.mapped fd flag len a).PinInv base where
  base_le := Nat.le_succ_of_le hi.base_le
  frames p f hp := by
    by_cases hmem : pageOf a ≤ p ∧ p < pageOf a + pagesOf len
    · have hnew : (h.mapped fd flag len a).pages p = some ⟨h.nextMap, p - pageOf a⟩ :=
        mapPages_of_mem hmem.1 hmem.2
      rw [hnew] at hp
      cases hp
      exact Nat.lt_succ_self _
    · have hold : (h.mapped fd flag len a).pages p = h.pages p :=
        mapPages_of_not_mem (by omega)
      rw [hold] at hp
      exact Nat.lt_succ_of_lt (hi.frames p f hp)
  pinned q hq m hqm := by
    have hpin := hi.pinned q hq m hqm
    exact ⟨hpin.made, Nat.lt_succ_of_lt hpin.lt, hpin.aligned, hpin.bottom, hpin.top,
      hpin.maps.mapPages hc.2.2.2.2⟩
  inj := hi.inj

/-- Clearing pages that no registration lies over. -/
theorem unmapped (hi : h.PinInv base) {addr len : BitVec 64}
    (hd : ∀ q ∈ h.mrs, ∀ m, q.map = some m → ∀ k < pageCount q.len,
      pageOf q.addr + k < pageOf addr ∨ pageOf addr + pagesOf len ≤ pageOf q.addr + k) :
    (h.unmapped addr len).PinInv base where
  base_le := hi.base_le
  frames p f hp := by
    by_cases hmem : pageOf addr ≤ p ∧ p < pageOf addr + pagesOf len
    · have hnone : (h.unmapped addr len).pages p = none := unmapPages_of_mem hmem.1 hmem.2
      rw [hnone] at hp
      cases hp
    · have hold : (h.unmapped addr len).pages p = h.pages p := unmapPages_of_not_mem (by omega)
      rw [hold] at hp
      exact hi.frames p f hp
  pinned q hq m hqm := by
    have hpin := hi.pinned q hq m hqm
    exact ⟨hpin.made, hpin.lt, hpin.aligned, hpin.bottom, hpin.top,
      hpin.maps.unmapPages (hd q hq m hqm)⟩
  inj := hi.inj

theorem deregMr (hi : h.PinInv base) (id : ℕ) : (h.deregMr id).PinInv base where
  base_le := hi.base_le
  frames := hi.frames
  pinned q hq m hqm :=
    have hpin := hi.pinned q (Host.mem_deregMr.1 hq).1 m hqm
    ⟨hpin.made, hpin.lt, hpin.aligned, hpin.bottom, hpin.top, hpin.maps⟩
  inj q hq q' hq' := hi.inj q (Host.mem_deregMr.1 hq).1 q' (Host.mem_deregMr.1 hq').1

/-- Registering a range: if the new registration pins a mapping at all, that
one is whole and nobody else's. -/
theorem register (hi : h.PinInv base) (q : Registration) (n : ℕ)
    (hq : ∀ m, q.map = some m → q.Pins base h m ∧ ∀ q' ∈ h.mrs, q'.map ≠ some m) :
    Host.PinInv base { h with mrs := q :: h.mrs, nextMr := n } where
  base_le := hi.base_le
  frames := hi.frames
  pinned q' hq' m hm := by
    have hpin : q'.Pins base h m := by
      rcases List.mem_cons.1 hq' with rfl | hq'
      · exact (hq m hm).1
      · exact hi.pinned q' hq' m hm
    exact ⟨hpin.made, hpin.lt, hpin.aligned, hpin.bottom, hpin.top, hpin.maps⟩
  inj q₁ h₁ q₂ h₂ m hm₁ hm₂ := by
    rcases List.mem_cons.1 h₁ with rfl | hold₁ <;> rcases List.mem_cons.1 h₂ with rfl | hold₂
    · rfl
    · exact absurd hm₂ ((hq m hm₁).2 q₂ hold₂)
    · exact absurd hm₁ ((hq m hm₂).2 q₁ hold₁)
    · exact hi.inj q₁ hold₁ q₂ hold₂ m hm₁ hm₂

/-- What a registration pins when its range was mapped just before. -/
theorem registration_mapped (hi : h.PinInv base) (fd : ℕ) (flag : MapFlag) {len a : BitVec 64}
    (hc : h.CanMap len a) (pd : ℕ) (rkey : BitVec 32) :
    ((h.mapped fd flag len a).registration pd a len rkey).map = some h.nextMap ∧
      ((h.mapped fd flag len a).registration pd a len rkey).Pins base
        (h.mapped fd flag len a) h.nextMap ∧
      ∀ q ∈ h.mrs, q.map ≠ some h.nextMap := by
  obtain ⟨hlen, haligned, hbase, htop, hfree⟩ := hc
  have hne : a ≠ 0 := by
    rintro rfl
    exact absurd hbase (by decide)
  have hpos : 0 < pagesOf len := by
    have h0 : len.toNat ≠ 0 := fun h0 => hlen (BitVec.eq_of_toNat_eq h0)
    unfold pagesOf pageCount
    omega
  have hmaps : MapsAt (h.mapped fd flag len a).pages (pageOf a) (pagesOf len) h.nextMap :=
    mapsAt_mapPages h.pages (pageOf a) (pagesOf len) h.nextMap
  refine ⟨?_, ⟨hi.base_le, Nat.lt_succ_self _, haligned, hbase, htop, hmaps⟩, ?_⟩
  · have hpage : (h.mapped fd flag len a).pages (pageOf a) = some ⟨h.nextMap, 0⟩ := hmaps 0 hpos
    rw [Host.registration, if_neg hne, hpage]
    rfl
  · intro q hq hm
    exact absurd (hi.pinned q hq _ hm).lt (lt_irrefl _)

end Host.PinInv

/-! ### The server's record of its mappings -/

/-- The registration is the one a resource's record describes, and pins a mapping. -/
structure Registration.Backs (q : Registration) (x : Resource) (c : ConnId) : Prop where
  mr : x.mr = some q.id
  pd : q.pd = c
  addr : q.addr = x.addr
  len : q.len = (sizeT x.mapLen).toNat
  map : q.map.isSome

/-- A record with a region and an address describes a live registration. -/
structure Server.MapInv (base : ℕ) (s : Server) : Prop where
  pins : s.host.PinInv base
  held : ∀ c r, (s.unit c).res = some r → (s.resource r).mr.isSome → (s.resource r).addr ≠ 0 →
    ∃ q ∈ s.host.mrs, q.Backs (s.resource r) c

/-- The UNMAP a connection sent names the mapping recorded for its resource: the
same address, and a length that ends in the same page and not after it.  A zero
length is refused by `munmap`. -/
def Server.UnmapNamesOwn (s : Server) (c : ConnId) : Prop :=
  ∀ r ∈ (s.unit c).res,
    sizeT (wordField (s.unit c).req.bytes) = 0 ∨
      (s.resource r).addr ≠ 0 ∧ addrField (s.unit c).req.bytes = (s.resource r).addr ∧
        (sizeT (wordField (s.unit c).req.bytes)).toNat ≤ (sizeT (s.resource r).mapLen).toNat ∧
        pagesOf (sizeT (wordField (s.unit c).req.bytes)) = pagesOf (sizeT (s.resource r).mapLen)

instance (s : Server) (c : ConnId) : Decidable (s.UnmapNamesOwn c) :=
  inferInstanceAs (Decidable (∀ r ∈ (s.unit c).res, _ ∨ _))

variable {base : ℕ} {o : Outcomes} {s t : Server} {c : ConnId}

theorem Server.MapInv.congr (h : s.MapInv base) (hu : ∀ d, (t.unit d).res = (s.unit d).res)
    (hr : t.resource = s.resource) (hp : t.host.pages = s.host.pages)
    (hm : t.host.mrs = s.host.mrs) (hn : t.host.nextMap = s.host.nextMap) : t.MapInv base where
  pins := h.pins.congr hp hm hn
  held d r hd := by
    rw [hr, hm]
    exact h.held d r (hu d ▸ hd)

theorem Server.MapInv.setUnit (h : s.MapInv base) {u : ServerUnit}
    (hu : u.res = (s.unit c).res) : (s.setUnit c u).MapInv base :=
  h.congr (SameRegions.setUnit hu).res rfl rfl rfl rfl

/-- A pinned mapping lies above every page that `munmap(NULL, len)` can clear. -/
theorem Host.PinInv.unmapped_null {h : Host} (hi : h.PinInv base) (len : CInt)
    (hc : Host.CanUnmap 0 (sizeT len)) : (h.unmapped 0 (sizeT len)).PinInv base := by
  refine hi.unmapped fun q hq m hm k _ => .inr ?_
  have hbottom := (hi.pinned q hq m hm).bottom
  have htop := hc.2.2
  have hzero : (0 : BitVec 64).toNat = 0 := rfl
  have hlen : (sizeT len).toNat < 2 ^ 31 := by
    simp only [taskSize] at htop
    rcases sizeT_cases len with h | h <;> omega
  simp only [pageOf, pagesOf, pageCount, taskUnmappedBase] at *
  omega

/-- Undoing a mapping that nobody has registered. -/
theorem Host.PinInv.unmapped_mapped {h : Host} (hi : h.PinInv base) (fd : ℕ) (flag : MapFlag)
    {len a : BitVec 64} (hc : h.CanMap len a) :
    ((h.mapped fd flag len a).unmapped a len).PinInv base := by
  have hmaps : MapsAt (h.mapped fd flag len a).pages (pageOf a) (pagesOf len) h.nextMap :=
    mapsAt_mapPages h.pages (pageOf a) (pagesOf len) h.nextMap
  refine (hi.mapped fd flag hc).unmapped fun q hq m hm k hk => ?_
  have hne : m ≠ h.nextMap := (hi.pinned q hq m hm).lt.ne
  exact (((hi.mapped fd flag hc).pinned q hq m hm).maps).disjoint_of_ne hmaps hne hk

/-- **Mapping a resource keeps every registration over its mapping**, whatever
fails, and leaves a record that describes the new registration. -/
theorem mapResource_mapInv (hi : s.host.PinInv base) (o : Outcomes) (c : ConnId) (r : ResId)
    (len : CInt) :
    (mapResource o s c r len).server.host.PinInv base ∧
      (∀ q ∈ s.host.mrs, q ∈ (mapResource o s c r len).server.host.mrs) ∧
      (((mapResource o s c r len).server.resource r).mr.isSome →
        ((mapResource o s c r len).server.resource r).addr ≠ 0 →
        ∃ q ∈ (mapResource o s c r len).server.host.mrs,
          q.Backs ((mapResource o s c r len).server.resource r) c) := by
  obtain ⟨a, h₁, hmap, hcases⟩ := mapResource_cases o s c r len
  rcases Host.mmap_cases (h := s.host) (s.resource r).fd .priv (sizeT len) o.mmap with
    he | ⟨x, hcan, he⟩ <;> rw [hmap] at he <;> cases he
  · rcases hcases with ⟨ret, h₂, hun, hout⟩ | ⟨rkey, -, hout⟩ <;> rw [hout]
    · refine ⟨?_, ?_, by simp⟩
      · rcases Host.munmap_cases (h := s.host) 0 (sizeT len) o.munmap with hu | ⟨hcu, hu⟩ <;>
          rw [Option.getD_none, hu] at hun <;> cases hun
        · exact hi
        · exact hi.unmapped_null len hcu
      · rw [← (Host.munmap_mrs hun).1]
        exact fun q hq => hq
    · refine ⟨hi.register _ _ fun m hm => ?_, fun q hq => List.mem_cons_of_mem _ hq, by simp⟩
      simp [Host.registration] at hm
  · have hone := hi.registration_mapped (s.resource r).fd .priv hcan c
    rcases hcases with ⟨ret, h₂, hun, hout⟩ | ⟨rkey, -, hout⟩ <;> rw [hout]
    · refine ⟨?_, ?_, by simp⟩
      · rcases Host.munmap_cases (h := s.host.mapped (s.resource r).fd .priv (sizeT len) x) x
          (sizeT len) o.munmap with hu | ⟨-, hu⟩ <;>
          rw [Option.getD_some, hu] at hun <;> cases hun
        · exact hi.mapped _ _ hcan
        · exact hi.unmapped_mapped _ _ hcan
      · have hmrs := (Host.munmap_mrs hun).1
        exact fun q hq => hmrs ▸ hq
    · obtain ⟨hm, hpins, hfresh⟩ := hone rkey
      refine ⟨(hi.mapped _ _ hcan).register _ _ fun m hm' => ?_,
        fun q hq => List.mem_cons_of_mem _ hq, fun _ _ => ⟨_, List.mem_cons_self, ?_⟩⟩
      · rw [Option.getD_some, hm] at hm'
        cases hm'
        exact ⟨hpins, hfresh⟩
      · exact ⟨by simp [Host.registration], rfl, by simp [Host.registration],
          by simp [Host.registration], by rw [Option.getD_some, hm]; rfl⟩

/-- What `munmap` takes away in an UNMAP that names its connection's mapping:
nothing, or all pages of that mapping, which no other registration lies over. -/
theorem Server.MapInv.unmap_pages (h : s.MapInv base) {r : ResId} {mr : ℕ}
    (hres : (s.unit c).res = some r) (hmr : (s.resource r).mr = some mr)
    (hown : s.UnmapNamesOwn c)
    (hc : Host.CanUnmap (addrField (s.unit c).req.bytes)
      (sizeT (wordField (s.unit c).req.bytes))) :
    ∃ q ∈ s.host.mrs, ∃ m, q.Backs (s.resource r) c ∧ q.Pins base s.host m ∧ q.map = some m ∧
      pageOf (addrField (s.unit c).req.bytes) = pageOf q.addr ∧
      pagesOf (sizeT (wordField (s.unit c).req.bytes)) = pageCount q.len := by
  obtain hz | ⟨hne, haddr, -, hpages⟩ := hown r hres
  · exact absurd hz hc.2.1
  obtain ⟨q, hq, hback⟩ := h.held c r hres (by simp [hmr]) hne
  obtain ⟨m, hm⟩ := Option.isSome_iff_exists.1 hback.map
  refine ⟨q, hq, m, hback, h.pins.pinned q hq m hm, hm, ?_, ?_⟩
  · rw [haddr, hback.addr]
  · rw [hpages, hback.len]
    rfl

/-- After the deregistration in an UNMAP that names its connection's mapping,
its `munmap` keeps every registration over its mapping. -/
theorem Server.MapInv.unmap_pins (h : s.MapInv base) {r : ResId} {mr : ℕ}
    (hres : (s.unit c).res = some r) (hmr : (s.resource r).mr = some mr)
    (hown : s.UnmapNamesOwn c) (ok : Bool) :
    ((s.host.deregMr mr).munmap (addrField (s.unit c).req.bytes)
      (sizeT (wordField (s.unit c).req.bytes)) ok).2.PinInv base := by
  rcases Host.munmap_cases (h := s.host.deregMr mr) (addrField (s.unit c).req.bytes)
    (sizeT (wordField (s.unit c).req.bytes)) ok with hu | ⟨hc, hu⟩ <;> rw [hu]
  · exact h.pins.deregMr mr
  obtain ⟨q, hq, m, hback, hpin, hm, haddr, hpages⟩ := h.unmap_pages hres hmr hown hc
  refine (h.pins.deregMr mr).unmapped fun q' hq' m' hm' k hk => ?_
  obtain ⟨hq', hid⟩ := Host.mem_deregMr.1 hq'
  have hne : m' ≠ m := by
    rintro rfl
    have hidq : mr = q.id := Option.some.inj (hmr.symm.trans hback.mr)
    obtain rfl := h.pins.inj q' hq' q hq m' hm' hm
    exact hid hidq.symm
  rw [haddr, hpages]
  exact (h.pins.pinned q' hq' m' hm').maps.disjoint_of_ne hpin.maps hne hk

/-- One handler keeps the record, if an UNMAP names its connection's mapping. -/
theorem Served.mapInv {k : RspKind} {f : k.Fields} {calls : List Call}
    (h : Served o s c k f t calls) (hp : s.PoolInv) (hr : s.MrInv) (hs : s.MapInv base)
    (hown : k = .unmapRsp → o.postRecv = true → s.UnmapNamesOwn c) : t.MapInv base := by
  have hpool := hp.exclusive
  cases h with
  | opened | mapRefused | unmapRefused | commitRefused => exact hs.setUnit rfl
  | closed => exact hs
  | committed ret host _ hm =>
      have hsame : SameRegions s (s.postRecv c true) := .setUnit rfl
      obtain ⟨files, rfl⟩ := Host.msync_eq hm
      exact hs.congr hsame.res rfl rfl rfl rfl
  | mapped r m _ hfit hm =>
      obtain ⟨hpins, hsub, hback⟩ := mapResource_mapInv
        (s := (s.postRecv c true).take c r) hs.pins o c r (wordField (s.unit c).req.bytes)
      obtain ⟨x, host, hserver, -⟩ := mapResource_server o ((s.postRecv c true).take c r) c r
        (wordField (s.unit c).req.bytes)
      rw [hm] at hpins hsub hback hserver
      refine ⟨hpins, fun d r' hd => ?_⟩
      by_cases hdc : d = c
      · subst hdc
        have hrr : r' = r := by
          rw [hserver] at hd
          simpa using hd.symm
        subst hrr
        exact hback
      · -- another connection holds another resource, whose registration is still there
        have hd' : (s.unit d).res = some r' := by
          rw [hserver] at hd
          simpa [hdc] using hd
        have hne : r' ≠ r := by
          rintro rfl
          exact hpool.not_free d r' hd' (List.mem_of_find?_eq_some hfit)
        have hsame : m.server.resource r' = s.resource r' := by
          rw [hserver]
          simp [hne]
        rw [hsame]
        intro h1 h2
        obtain ⟨q, hq, hb⟩ := hs.held d r' hd' h1 h2
        exact ⟨q, hsub q hq, hb⟩
  | unmapped r mr m hpost hres hmr hm =>
      have hpins := hs.unmap_pins hres hmr (hown rfl hpost) o.munmap
      obtain ⟨ret, h₁, hun, hout⟩ := unmapResource_cases o (s.postRecv c true) c r mr
        (addrField (s.unit c).req.bytes) (wordField (s.unit c).req.bytes)
      have hmrs : h₁.mrs = (s.host.deregMr mr).mrs := (Host.munmap_mrs hun).1
      have hhost : h₁.PinInv base := by
        have hun' : (s.host.deregMr mr).munmap (addrField (s.unit c).req.bytes)
          (sizeT (wordField (s.unit c).req.bytes)) o.munmap = (ret, h₁) := hun
        rwa [hun'] at hpins
      -- a resource with a record is held by another connection, and has another region
      have hheld : ∀ d r', r' ≠ r → (s.unit d).res = some r' → (s.resource r').mr.isSome →
          (s.resource r').addr ≠ 0 → ∃ q ∈ h₁.mrs, q.Backs (s.resource r') d := by
        intro d r' hrr hd h1 h2
        obtain ⟨q, hq, hb⟩ := hs.held d r' hd h1 h2
        refine ⟨q, ?_, hb⟩
        rw [hmrs, Host.mem_deregMr]
        refine ⟨hq, fun he => hrr ?_⟩
        obtain rfl := hr.region_inj d c mr (Server.region_of_held hd (he ▸ hb.mr))
          (Server.region_of_held hres hmr)
        exact Option.some.inj (hd.symm.trans hres)
      have hrecord : ∀ u : ConnId → ServerUnit, (∀ d r', (u d).res = some r' →
          (s.unit d).res = some r') → ∀ d r', (u d).res = some r' →
          (Function.update s.resource r { s.resource r with mapLen := 0, addr := 0 } r').mr.isSome →
          (Function.update s.resource r { s.resource r with mapLen := 0, addr := 0 } r').addr ≠ 0 →
          ∃ q ∈ h₁.mrs, q.Backs
            (Function.update s.resource r { s.resource r with mapLen := 0, addr := 0 } r') d := by
        intro u hu d r' hd
        by_cases hrr : r' = r
        · subst hrr
          simp
        · rw [Function.update_of_ne hrr]
          exact hheld d r' hrr (hu d r' hd)
      rw [← hm, hout]
      split_ifs with hret
      · refine ⟨hhost, hrecord _ fun d r' hd => ?_⟩
        by_cases hdc : d = c
        · subst hdc
          simp at hd
        · simpa [hdc] using hd
      · refine ⟨hhost, hrecord _ fun d r' hd => ?_⟩
        by_cases hdc : d = c
        · subst hdc
          simpa using hd
        · simpa [hdc] using hd

/-! ### Runs whose requests name their own mapping -/

/-- The COMMIT a connection sent names a range inside the mapping recorded for
its resource, `[res->addr, res->addr + res->map_len)`, or an empty range. -/
def Server.CommitNamesOwn (s : Server) (c : ConnId) : Prop :=
  sizeT (wordField (s.unit c).req.bytes) = 0 ∨
    ∃ r ∈ (s.unit c).res,
      (s.resource r).addr.toNat ≤ (addrField (s.unit c).req.bytes).toNat ∧
        ((addrField (s.unit c).req.bytes).toNat +
            (sizeT (wordField (s.unit c).req.bytes)).toNat : ℤ) ≤
          (s.resource r).addr.toNat + (s.resource r).mapLen.toInt

instance (s : Server) (c : ConnId) : Decidable (s.CommitNamesOwn c) :=
  inferInstanceAs (Decidable (_ ∨ ∃ r ∈ (s.unit c).res, _ ∧ _))

/-- Requests are handled only if they name their own connection's mapping. -/
def NamesOwn (s : Server) : ServerEvent → Prop
  | .handle c o => o.postRecv = true →
      (requestKind (s.unit c).req.bytes = some .unmapReq → s.UnmapNamesOwn c) ∧
      (requestKind (s.unit c).req.bytes = some .commitReq → s.CommitNamesOwn c)
  | _ => True

instance (s : Server) : (e : ServerEvent) → Decidable (NamesOwn s e)
  | .handle _ _ => inferInstanceAs (Decidable (_ → _ ∧ _))
  | .cm _ _ _ => isTrue trivial
  | .receive _ _ => isTrue trivial

/-- The invariants of the server's pool, regions and mappings together. -/
structure Server.Inv (base : ℕ) (s : Server) : Prop where
  pool : s.PoolInv
  regions : s.MrInv
  maps : s.MapInv base

/-- The server `main` has set up, its own memory being the first `base` mappings. -/
structure Server.InitialAt (base : ℕ) (s : Server) : Prop where
  initial : s.Initial
  nextMap : s.host.nextMap = base
  frames : ∀ p f, s.host.pages p = some f → f.map < base

theorem Server.InitialAt.inv (h : s.InitialAt base) : s.Inv base where
  pool := h.initial.poolInv
  regions := (Ledger.Initial.inv (g := ⟨s, fun _ => false⟩) ⟨h.initial, fun _ => rfl⟩).regions
  maps :=
    { pins :=
        { base_le := h.nextMap.ge
          frames := fun p f hp => h.nextMap.symm ▸ h.frames p f hp
          pinned := by simp [h.initial.mrs]
          inj := by simp [h.initial.mrs] }
      held := fun c r hc => by simp [h.initial.res c] at hc }

/-- Changes to a unit other than its resource keep the invariants. -/
theorem Server.Inv.setUnit (h : s.Inv base) {u : ServerUnit} (hu : u.res = (s.unit c).res) :
    (s.setUnit c u).Inv base where
  pool := h.pool.of_pool_eq (Server.setUnit_pool hu) rfl rfl
  regions := (SameRegions.setUnit hu).mrInv h.regions
  maps := h.maps.setUnit hu

theorem Server.Inv.connect (h : s.Inv base) (hc : c ∉ s.conns) :
    (rpmemConnectRequestHandler true s c).Inv base where
  pool := h.pool.connect hc
  regions := (SameRegions.connect h.pool hc).mrInv h.regions
  maps := h.maps.congr (SameRegions.connect h.pool hc).res rfl rfl rfl rfl

/-- One handled request keeps the invariants, if an UNMAP names its own mapping. -/
theorem Server.Inv.handle (h : s.Inv base) (hc : c ∈ s.conns)
    (hown : o.postRecv = true → requestKind (s.unit c).req.bytes = some .unmapReq →
      s.UnmapNamesOwn c) {m : Handled} (hm : s.handle c o = .ok m) : m.server.Inv base := by
  have hpoll : (s.poll c).Inv base := h.setUnit rfl
  have hunit : ((s.poll c).unit c).req = (s.unit c).req := by simp [Server.poll]
  rcases rpmemRcvCompletion_cases hm with ⟨-, hs, -⟩ | ⟨q, f, t, calls, hk, ht, hs, -⟩
  · rw [hs]
    exact hpoll
  have hpool := hpoll.pool.handle (c := c) hc hm
  have htmr := ht.mrInv hpoll.pool hpoll.regions
  have htmap : t.MapInv base := by
    refine ht.mapInv hpoll.pool hpoll.regions hpoll.maps fun hq hr => ?_
    rw [hunit] at hk
    have hq' : q = .unmapReq := by cases q <;> first | rfl | cases hq
    subst hq'
    have := hown hr hk
    simpa [Server.UnmapNamesOwn, Server.poll] using this
  rw [hs] at hpool ⊢
  have hsame : SameRegions t (t.postSend c (packRsp q.rsp f (t.unit c).rsp.bytes)
    ((s.poll c).unit c).req.seq o.postSend) := .setUnit rfl
  exact ⟨hpool, hsame.mrInv htmr, htmap.setUnit rfl⟩

/-- One event keeps the invariants, if an UNMAP names its own mapping. -/
theorem Server.Inv.step (h : s.Inv base) {e : ServerEvent} (hok : NamesOwn s e)
    (he : serverStep s e = some t) : t.Inv base := by
  rcases serverStep_cases he with ⟨-, rfl | ⟨c, hc, rfl⟩⟩ | ⟨c, msg, -, -, -, rfl⟩ |
    ⟨c, o, m, rfl, hc, -, hm, rfl⟩
  · exact h
  · exact h.connect hc
  · exact h.setUnit rfl
  · exact h.handle hc (fun hr hk => (hok hr).1 hk) hm

/-! ### A request touches its own mapping only -/

/-- The byte `a` lies in `[res->addr, res->addr + res->map_len)` of the resource
that `c` holds. -/
def Server.OwnsByte (s : Server) (c : ConnId) (a : ℕ) : Prop :=
  ∃ r, (s.unit c).res = some r ∧ (s.resource r).addr.toNat ≤ a ∧
    (a : ℤ) < (s.resource r).addr.toNat + (s.resource r).mapLen.toInt

/-- The page `p` is one of the pages of that range. -/
def Server.OwnsPage (s : Server) (c : ConnId) (p : ℕ) : Prop :=
  ∃ r, (s.unit c).res = some r ∧ pageOf (s.resource r).addr ≤ p ∧
    p < pageOf (s.resource r).addr + pagesOf (sizeT (s.resource r).mapLen)

/-- The ranges handed to `munmap` or `msync`. -/
def Handled.Touches (m : Handled) (addr len : BitVec 64) : Prop :=
  (∃ ret, Call.munmap addr len ret ∈ m.calls) ∨ ∃ ret view, Call.msync addr len ret view ∈ m.calls

/-- What handling a request of `c` may do to the server's address space, of
which the first `base` mappings are the server's own memory. -/
structure TouchesOwn (base : ℕ) (s : Server) (c : ConnId) (m : Handled) : Prop where
  inside : ∀ addr len, m.Touches addr len → ∀ a, addr.toNat ≤ a → a < addr.toNat + len.toNat →
    s.OwnsByte c a
  gone : requestKind (s.unit c).req.bytes = some .unmapReq →
    (∀ out, unpackUnmapRsp (m.server.unit c).rsp.bytes out = (0, 0)) →
    (∃ r, (s.unit c).res = some r ∧ r ∉ s.resList ∧ r ∈ m.server.resList) ∧
      ∀ p, s.OwnsPage c p → m.server.host.pages p = none
  kept : ∀ p, ¬ s.OwnsPage c p → m.server.host.pages p = s.host.pages p
  others : ∀ q ∈ s.host.mrs, q.pd ≠ c → ∀ i, q.map = some i →
    MapsAt s.host.pages (pageOf q.addr) (pageCount q.len) i ∧
      MapsAt m.server.host.pages (pageOf q.addr) (pageCount q.len) i
  memory : ∀ p f, s.host.pages p = some f → f.map < base → m.server.host.pages p = some f
  bytes : m.server.host.store = s.host.store

/-- A handler that leaves the address space alone and touches no range. -/
theorem TouchesOwn.of_pages (h : s.Inv base) {m : Handled}
    (hp : m.server.host.pages = s.host.pages) (hst : m.server.host.store = s.host.store)
    (hin : ∀ addr len, m.Touches addr len → ∀ a, addr.toNat ≤ a → a < addr.toNat + len.toNat →
      s.OwnsByte c a)
    (hgone : requestKind (s.unit c).req.bytes = some .unmapReq →
      ¬ ∀ out, unpackUnmapRsp (m.server.unit c).rsp.bytes out = (0, 0)) :
    TouchesOwn base s c m where
  inside := hin
  gone hk hz := absurd hz (hgone hk)
  kept p _ := by rw [hp]
  others q hq _ i hi := by
    rw [hp]
    exact ⟨(h.maps.pins.pinned q hq i hi).maps, (h.maps.pins.pinned q hq i hi).maps⟩
  memory p f hf _ := by rw [hp, hf]
  bytes := hst

/-- The answer packed by `rpmem_handle_unmap` is the one its client reads. -/
theorem unpackUnmapRsp_ne_zero {ret : CInt} (hret : ret ≠ 0) (b : Cmd) :
    ¬ ∀ out, unpackUnmapRsp (packUnmapRsp b ret) out = (0, 0) := by
  intro h
  have h0 := h 0
  have hp : unpackUnmapRsp (packUnmapRsp b ret) 0 = (0, ret) := unpackWord_packWord ret 0
  rw [hp] at h0
  exact hret (congrArg Prod.snd h0)

/-- The range of an UNMAP that names its connection's mapping lies inside it. -/
theorem Server.MapInv.unmap_inside (h : s.MapInv base) {r : ResId} {mr : ℕ}
    (hres : (s.unit c).res = some r) (hmr : (s.resource r).mr = some mr) (hown : s.UnmapNamesOwn c)
    {a : ℕ} (hlo : (addrField (s.unit c).req.bytes).toNat ≤ a)
    (hhi : a < (addrField (s.unit c).req.bytes).toNat +
      (sizeT (wordField (s.unit c).req.bytes)).toNat) : s.OwnsByte c a := by
  obtain hz | ⟨hne, haddr, hlen, -⟩ := hown r hres
  · rw [hz] at hhi
    exact absurd hlo (not_le.2 hhi)
  obtain ⟨q, hq, hback⟩ := h.held c r hres (by simp [hmr]) hne
  obtain ⟨m, hm⟩ := Option.isSome_iff_exists.1 hback.map
  have htop := (h.pins.pinned q hq m hm).top
  have hcount := le_pageCount q.len
  -- `mmap` succeeded, so the recorded length is not negative
  have hpos : ((sizeT (s.resource r).mapLen).toNat : ℤ) = (s.resource r).mapLen.toInt := by
    rw [hback.len] at hcount htop
    simp only [taskSize] at htop
    rcases sizeT_cases (s.resource r).mapLen with h | h <;> omega
  rw [haddr] at hlo hhi
  exact ⟨r, hres, hlo, by omega⟩

/-- The range of a COMMIT that names its connection's mapping lies inside it. -/
theorem Server.CommitNamesOwn.inside (hown : s.CommitNamesOwn c) {a : ℕ}
    (hlo : (addrField (s.unit c).req.bytes).toNat ≤ a)
    (hhi : a < (addrField (s.unit c).req.bytes).toNat +
      (sizeT (wordField (s.unit c).req.bytes)).toNat) : s.OwnsByte c a := by
  obtain hz | ⟨r, hr, haddr, hlen⟩ := hown
  · rw [hz] at hhi
    exact absurd hlo (not_le.2 hhi)
  · exact ⟨r, hr, by omega, by omega⟩

/-- `rpmem_handle_unmap` touches its connection's mapping only. -/
theorem rpmemHandleUnmap_touchesOwn (h : s.Inv base) {m : Handled} {r : ResId} {mr : ℕ}
    {out : RetOut} (hres : (s.unit c).res = some r) (hmr : (s.resource r).mr = some mr)
    (hown : s.UnmapNamesOwn c)
    (hout : unmapResource o (s.postRecv c true) c r mr (addrField (s.unit c).req.bytes)
      (wordField (s.unit c).req.bytes) = out)
    (hs : m.server = out.server.postSend c (packUnmapRsp (out.server.unit c).rsp.bytes out.ret)
      (s.unit c).req.seq o.postSend)
    (hcalls : m.calls = (.postRecv true :: out.calls) ++ [.postSend o.postSend]) :
    TouchesOwn base s c m := by
  obtain ⟨ret, h₁, hun, hshape⟩ := unmapResource_cases o (s.postRecv c true) c r mr
    (addrField (s.unit c).req.bytes) (wordField (s.unit c).req.bytes)
  obtain rfl := hout.symm.trans hshape
  have hhost : m.server.host = h₁ := by
    rw [hs]
    simp only
    split_ifs <;> rfl
  have hinside : ∀ addr len, m.Touches addr len → ∀ a, addr.toNat ≤ a →
      a < addr.toNat + len.toNat → s.OwnsByte c a := by
    rintro addr len ht a hlo hhi
    simp only [Handled.Touches, hcalls, List.cons_append, List.nil_append, List.mem_cons,
      reduceCtorEq, Call.munmap.injEq, List.not_mem_nil, or_false, false_or, exists_and_left,
      exists_eq, and_true, exists_false] at ht
    obtain ⟨rfl, rfl⟩ := ht
    exact h.maps.unmap_inside hres hmr hown hlo hhi
  rcases Host.munmap_cases (h := s.host.deregMr mr) (addrField (s.unit c).req.bytes)
    (sizeT (wordField (s.unit c).req.bytes)) o.munmap with hu | ⟨hc, hu⟩ <;>
    obtain ⟨rfl, rfl⟩ := Prod.mk.inj (hun.symm.trans hu)
  · refine .of_pages h (by rw [hhost]; rfl) (by rw [hhost]; rfl) hinside fun _ => ?_
    rw [hs]
    simp only [Server.postSend_unit, Function.update_self]
    exact unpackUnmapRsp_ne_zero (by decide) _
  obtain ⟨q, hq, i, hback, hpin, hi, haddr, hpages⟩ := h.maps.unmap_pages hres hmr hown hc
  have hrange : ∀ p, s.OwnsPage c p ↔
      pageOf q.addr ≤ p ∧ p < pageOf q.addr + pageCount q.len := by
    intro p
    have hlen : pagesOf (sizeT (s.resource r).mapLen) = pageCount q.len := by
      rw [hback.len]
      rfl
    simp only [Server.OwnsPage, hres, Option.some.injEq, exists_eq_left', ← hback.addr, hlen]
  have hpt : m.server.host.pages = unmapPages s.host.pages (pageOf q.addr) (pageCount q.len) := by
    rw [hhost, ← haddr, ← hpages]
    rfl
  refine ⟨hinside, fun _ _ => ⟨⟨r, hres, h.pool.exclusive.not_free c r hres, ?_⟩, fun p hp => ?_⟩,
    fun p hp => ?_, fun q' hq' hpd j hj => ?_, fun p f hf hbase => ?_, ?_⟩
  · rw [hs]
    simp
  · rw [hrange] at hp
    rw [hpt, unmapPages_of_mem hp.1 hp.2]
  · rw [hrange] at hp
    rw [hpt, unmapPages_of_not_mem (by omega)]
  · have hne : j ≠ i := by
      rintro rfl
      obtain rfl := h.maps.pins.inj q' hq' q hq j hj hi
      exact hpd hback.pd
    have hpin' := h.maps.pins.pinned q' hq' j hj
    rw [hpt]
    exact ⟨hpin'.maps, hpin'.maps.unmapPages fun k hk => hpin'.maps.disjoint_of_ne hpin.maps hne hk⟩
  · -- a page of the mapping has a frame that is not the server's own
    rw [hpt, unmapPages_of_not_mem, hf]
    by_contra hmem
    have hk := hpin.maps (p - pageOf q.addr) (by omega)
    rw [show pageOf q.addr + (p - pageOf q.addr) = p by omega, hf] at hk
    cases hk
    exact absurd hpin.made (by simpa using hbase)
  · rw [hhost]
    rfl

/-- `rpmem_handle_commit` touches its connection's mapping only. -/
theorem rpmemHandleCommit_touchesOwn (h : s.Inv base) {m : Handled} {ret : CInt} {host : Host}
    (hk : requestKind (s.unit c).req.bytes = some .commitReq) (hown : s.CommitNamesOwn c)
    (hm : s.host.msync (addrField (s.unit c).req.bytes)
      (sizeT (wordField (s.unit c).req.bytes)) o.msync = (ret, host))
    (hhost : m.server.host = host)
    (hcalls : m.calls = [.postRecv true, .msync (addrField (s.unit c).req.bytes)
      (sizeT (wordField (s.unit c).req.bytes)) ret
      (fun i => s.host.byteAt ((addrField (s.unit c).req.bytes).toNat + i)),
      .postSend o.postSend]) :
    TouchesOwn base s c m := by
  obtain ⟨files, rfl⟩ := Host.msync_eq hm
  refine .of_pages h (by rw [hhost]) (by rw [hhost]) ?_ (by simp [hk])
  intro addr len ht a hlo hhi
  simp only [Handled.Touches, hcalls, List.mem_cons, reduceCtorEq, Call.msync.injEq,
    List.not_mem_nil, or_false, false_or, exists_and_left, exists_eq, and_true, exists_false]
    at ht
  obtain ⟨rfl, rfl⟩ := ht
  exact hown.inside hlo hhi

/-- A handler whose `rpmem_post_recv` failed touches nothing. -/
theorem touchesOwn_of_refused (h : s.Inv base) {m : Handled} (hhost : m.server.host = s.host)
    (hcalls : m.calls = [.postRecv false, .postSend o.postSend])
    (hrsp : requestKind (s.unit c).req.bytes = some .unmapReq →
      ∃ b, (m.server.unit c).rsp.bytes = packUnmapRsp b (-1)) : TouchesOwn base s c m := by
  refine .of_pages h (by rw [hhost]) (by rw [hhost]) (fun addr len ht => ?_) fun hk => ?_
  · simp [Handled.Touches, hcalls] at ht
  · obtain ⟨b, hb⟩ := hrsp hk
    rw [hb]
    exact unpackUnmapRsp_ne_zero (by decide) b

/-- **UNMAP and COMMIT touch their connection's mapping only.**  In every state
reached by a run whose UNMAP requests name the mapping recorded for their
connection and whose COMMIT requests a range inside it, such a request hands to
`munmap` or `msync` a range inside its connection's mapping; an UNMAP answered
with `0` has removed that mapping whole and put its resource back; and every
other page, the other connections' mappings and the server's own memory among
them, is as before. -/
theorem requests_touch_own_mapping {s : Server}
    (h : Lts.Reachable serverStep NamesOwn (Server.InitialAt base) s) (c : ConnId) (o : Outcomes)
    (hk : requestKind (s.unit c).req.bytes = some .unmapReq ∨
      requestKind (s.unit c).req.bytes = some .commitReq)
    (hok : NamesOwn s (.handle c o)) {m : Handled} (hm : s.handle c o = .ok m) :
    TouchesOwn base s c m := by
  have hinv : s.Inv base :=
    h.invariant (fun s hs => hs.inv) fun s e t hs hok he => hs.step hok he
  have hreq : ((s.poll c).unit c).req = (s.unit c).req := by simp [Server.poll]
  have hres : ((s.poll c).unit c).res = (s.unit c).res := by simp [Server.poll]
  have hpoll : (s.poll c).Inv base := hinv.setUnit rfl
  -- taking the completion off the queue changes nothing the property looks at
  suffices ht : TouchesOwn base (s.poll c) c m by
    have hbyte : ∀ a, (s.poll c).OwnsByte c a ↔ s.OwnsByte c a := fun a => by
      rw [Server.OwnsByte, hres]; rfl
    have hpage : ∀ p, (s.poll c).OwnsPage c p ↔ s.OwnsPage c p := fun p => by
      rw [Server.OwnsPage, hres]; rfl
    refine ⟨fun addr len h a h1 h2 => (hbyte a).1 (ht.inside addr len h a h1 h2), ?_,
      fun p hp => ht.kept p fun hp' => hp ((hpage p).1 hp'), ht.others, ht.memory, ht.bytes⟩
    intro hu hz
    obtain ⟨⟨r, hr, hnot, hmem⟩, hgone⟩ := ht.gone (by rw [hreq, hu]) hz
    exact ⟨⟨r, hres ▸ hr, hnot, hmem⟩, fun p hp => hgone p ((hpage p).2 hp)⟩
  have hun : o.postRecv = true → requestKind (s.unit c).req.bytes = some .unmapReq →
      (s.poll c).UnmapNamesOwn c := fun hr hu => by
    have := (hok hr).1 hu
    rwa [Server.UnmapNamesOwn, hreq, hres]
  have hcm : o.postRecv = true → requestKind (s.unit c).req.bytes = some .commitReq →
      (s.poll c).CommitNamesOwn c := fun hr hu => by
    have := (hok hr).2 hu
    rwa [Server.CommitNamesOwn, hreq, hres]
  rcases rpmemRcvCompletion_cases hm with ⟨hnone, -⟩ | ⟨q, f, t, calls, hq, ht, hs, hcalls⟩
  · rw [hreq] at hnone
    rw [hnone] at hk
    rcases hk with hk | hk <;> cases hk
  rw [hreq] at hq
  rcases hk with hk | hk <;> rw [hk] at hq <;> cases hq <;> cases ht
  · exact touchesOwn_of_refused hpoll (by rw [hs]; rfl) (by rw [hcalls]; rfl)
      fun _ => ⟨_, by rw [hs, Server.postSend_unit, Function.update_self]; rfl⟩
  · rename_i r mr out hr hmr hres' hout
    exact rpmemHandleUnmap_touchesOwn hpoll hmr hres' (hun hr hk) hout hs hcalls
  · exact touchesOwn_of_refused hpoll (by rw [hs]; rfl) (by rw [hcalls]; rfl)
      fun hu => by rw [hreq, hk] at hu; cases hu
  · rename_i host hr hmsync
    exact rpmemHandleCommit_touchesOwn hpoll (by rw [hreq, hk]) (hcm hr hk) hmsync
      (by rw [hs]; rfl) (by rw [hcalls]; rfl)

/-- A host whose own memory is one page at `0x400000`. -/
def Host.oneOwnPage : Host :=
  { Host.blank with pages := fun p => if p = 0x400 then some ⟨0, 0⟩ else none, nextMap := 1 }

theorem Host.oneOwnPage_initialAt (res : Resource) :
    (Server.main res Host.oneOwnPage).InitialAt 1 where
  initial := Server.main_initial _ _ rfl
  nextMap := rfl
  frames p f hp := by
    simp only [Server.main, Host.oneOwnPage] at hp
    split_ifs at hp
    cases hp
    exact Nat.one_pos

/-- An UNMAP that names its mapping, after the MAP that made it. -/
theorem requests_touch_own_mapping_unmap_after_map :
    ∃ s m, Lts.Reachable serverStep NamesOwn (Server.InitialAt 1) s ∧
      (requestKind (s.unit 0).req.bytes = some .unmapReq ∧
        NamesOwn s (.handle 0 (Outcomes.allOk 0x7f0000000000 17))) ∧
      s.handle 0 (Outcomes.allOk 0x7f0000000000 17) = .ok m ∧ TouchesOwn 1 s 0 m := by
  obtain ⟨s, hs, hp⟩ := Lts.exists_reachable_of_exec serverStep NamesOwn (Server.InitialAt 1)
    (Host.oneOwnPage_initialAt ⟨0, 8192, none, 0, 0⟩)
    [.cm 0 .connectRequest true, .receive 0 ⟨packMapReq Cmd.zero 4096, 1⟩,
      .handle 0 (Outcomes.allOk 0x7f0000000000 17),
      .receive 0 ⟨packUnmapReq Cmd.zero 4096 0x7f0000000000, 2⟩]
    (fun s => decide (requestKind (s.unit 0).req.bytes = some .unmapReq ∧
      NamesOwn s (.handle 0 (Outcomes.allOk 0x7f0000000000 17))) &&
      (s.handle 0 (Outcomes.allOk 0x7f0000000000 17)).toOption.isSome) (by decide)
  obtain ⟨hk, hok⟩ := (Bool.and_eq_true _ _).mp hp
  have hk := of_decide_eq_true hk
  cases hm : s.handle 0 (Outcomes.allOk 0x7f0000000000 17) with
  | error e =>
      rw [hm] at hok
      cases hok
  | ok m => exact ⟨s, m, hs, hk, hm, requests_touch_own_mapping hs 0 _ (.inl hk.1) hk.2 hm⟩

/-- **An UNMAP can take away the server's own memory.**  Connection `0` maps its
resource and then sends an UNMAP that names the server's page at `0x400000`:
`munmap` returns `0`, that page is gone, and the resource is back in the list
with its mapping still there. -/
theorem unmap_removes_server_memory :
    ∃ s m, Lts.Reachable serverStep Lts.anyLabel (Server.InitialAt 1) s ∧
      requestKind (s.unit 0).req.bytes = some .unmapReq ∧
      s.handle 0 (Outcomes.allOk 0x7f0000000000 17) = .ok m ∧
      (s.host.pages 0x400 = some ⟨0, 0⟩ ∧ m.server.host.pages 0x400 = none ∧
        m.server.resList = [0] ∧ m.server.host.pages 0x7f0000000 = some ⟨1, 0⟩) ∧
      ¬ TouchesOwn 1 s 0 m := by
  obtain ⟨s, hs, hp⟩ := Lts.exists_reachable_of_exec serverStep Lts.anyLabel (Server.InitialAt 1)
    (Host.oneOwnPage_initialAt ⟨0, 8192, none, 0, 0⟩)
    [.cm 0 .connectRequest true, .receive 0 ⟨packMapReq Cmd.zero 4096, 1⟩,
      .handle 0 (Outcomes.allOk 0x7f0000000000 17),
      .receive 0 ⟨packUnmapReq Cmd.zero 4096 0x400000, 2⟩]
    (fun s => decide (requestKind (s.unit 0).req.bytes = some .unmapReq ∧
        s.host.pages 0x400 = some ⟨0, 0⟩) &&
      (s.handle 0 (Outcomes.allOk 0x7f0000000000 17)).toOption.any fun m : Handled =>
        decide (m.server.host.pages 0x400 = none ∧ m.server.resList = [0] ∧
          m.server.host.pages 0x7f0000000 = some ⟨1, 0⟩)) (by decide)
  obtain ⟨hk, hok⟩ := (Bool.and_eq_true _ _).mp hp
  obtain ⟨hk, hpage⟩ := of_decide_eq_true hk
  cases hm : s.handle 0 (Outcomes.allOk 0x7f0000000000 17) with
  | error e =>
      rw [hm] at hok
      cases hok
  | ok m =>
      rw [hm] at hok
      obtain ⟨hgone, hrest⟩ := of_decide_eq_true hok
      refine ⟨s, m, hs, hk, hm, ⟨hpage, hgone, hrest⟩, fun ht => ?_⟩
      have := ht.memory 0x400 ⟨0, 0⟩ hpage Nat.one_pos
      rw [hgone] at this
      cases this

end Rpmem
