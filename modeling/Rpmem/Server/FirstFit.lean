/-
# Which resource a MAP gets

`rpmem_handle_map` takes the first resource of the list with
`len < (int)res->stbuf.st_size`, a comparison of signed 32-bit numbers, where
the sizes are 64 bits wide and the length of a request is unsigned.  First fit
proper would take the first one with `st_size >= len`.  The scan and the
removal are right; the two tests differ at equality, for sizes that do not fit
an `int`, and for lengths from `2^31` on, which compare as negative numbers.
-/

import Rpmem.Lib.FirstFit
import Rpmem.Server.Pool

namespace Rpmem

open Scan

variable {o : Outcomes} {s : Server} {c : ConnId}

/-- The resource is large enough: `st_size >= len` with no conversion. -/
def Server.holds (s : Server) (len : CInt) (r : ResId) : Bool :=
  decide (len.toNat ≤ (s.resource r).stSize.toNat)

/-- The test of `rpmem_handle_map`. -/
def Server.accepts (s : Server) (len : CInt) (r : ResId) : Bool := len.slt (s.resource r).size

/-- From `s` to `t` the connection `c` got the first resource of at least `len`
bytes, which left the list and nothing else did; without one nothing changed. -/
def FitsExactly (s t : Server) (c : ConnId) (len : CInt) : Prop :=
  FirstFit (fun r => s.holds len r = true) s.resList (t.unit c).res t.resList ∧
    ((∀ r ∈ s.resList, s.holds len r = false) →
      t.freeSize = s.freeSize ∧ t.inUseSize = s.inUseSize)

/-- On sizes and lengths that fit an `int` the test is wrong at equality only. -/
theorem Server.accepts_iff_of_lt {len : CInt} {r : ResId} (hlen : len.toNat < 2 ^ 31)
    (hsize : (s.resource r).stSize.toNat < 2 ^ 31) :
    s.accepts len r = true ↔ len.toNat < (s.resource r).stSize.toNat := by
  have hl : len.toInt = len.toNat := BitVec.toInt_eq_toNat_of_lt (by omega)
  have hw : (s.resource r).size.toNat = (s.resource r).stSize.toNat := by
    rw [Resource.size, BitVec.toNat_setWidth]
    exact Nat.mod_eq_of_lt (by omega)
  have hs : (s.resource r).size.toInt = (s.resource r).size.toNat :=
    BitVec.toInt_eq_toNat_of_lt (by omega)
  rw [Server.accepts, BitVec.slt_iff_toInt_lt, hl, hs, hw]
  exact Int.ofNat_lt

/-- **What a MAP of a connection that holds nothing does to the pool**: it takes
the first resource the test accepts, if its receive could be posted again. -/
theorem rpmemHandleMapBody_claim (hres : (s.unit c).res = none) :
    ∃ m, rpmemHandleMapBody o s c = .ok m ∧
      ((m.server.unit c).res =
        if o.postRecv then s.fit (wordField (s.unit c).req.bytes) else none) ∧
      m.server.resList = rest s.resList (m.server.unit c).res ∧
      ((m.server.unit c).res = none →
        m.server.freeSize = s.freeSize ∧ m.server.inUseSize = s.inUseSize) := by
  cases hr : o.postRecv with
  | false =>
      refine ⟨_, rpmemHandleMapBody_of_refused hr, ?_⟩
      simp [hres, rest]
  | true =>
      cases hfit : s.fit (wordField (s.unit c).req.bytes) with
      | none =>
          rw [rpmemHandleMapBody_of_no_fit hr hfit, hres]
          refine ⟨_, rfl, ?_⟩
          simp [hres, rest]
      | some r =>
          refine ⟨_, rpmemHandleMapBody_of_fit hr hfit, ?_⟩
          obtain ⟨x, host, hs, -⟩ := mapResource_server o ((s.postRecv c true).take c r) c r
            (wordField (s.unit c).req.bytes)
          simp only [hs]
          simp [rest]

/-- **First fit, exactly when.**  A MAP of a connection that holds nothing is
answered by first fit if and only if the first resource of the list that is
large enough or passes the test of the code does both; or, when the receive
cannot be posted again, there is no resource large enough. -/
theorem first_fit_exact_iff (o : Outcomes) (hres : (s.unit c).res = none) :
    ∃ m, rpmemHandleMapBody o s c = .ok m ∧
      (FitsExactly s m.server c (wordField (s.unit c).req.bytes) ↔
        if o.postRecv then
          ∀ r, s.resList.find? (fun r => s.accepts (wordField (s.unit c).req.bytes) r ||
              s.holds (wordField (s.unit c).req.bytes) r) = some r →
            s.accepts (wordField (s.unit c).req.bytes) r = true ∧
              s.holds (wordField (s.unit c).req.bytes) r = true
        else ∀ r ∈ s.resList, s.holds (wordField (s.unit c).req.bytes) r = false) := by
  obtain ⟨m, hm, hclaim, hlist, hcount⟩ := rpmemHandleMapBody_claim (o := o) hres
  refine ⟨m, hm, ?_⟩
  -- first fit takes nothing if nothing is large enough, and then nothing is counted
  have hfits : FitsExactly s m.server c (wordField (s.unit c).req.bytes) ↔
      FirstFit (fun r => s.holds (wordField (s.unit c).req.bytes) r = true) s.resList
        (m.server.unit c).res (rest s.resList (m.server.unit c).res) := by
    rw [FitsExactly, hlist]
    refine ⟨And.left, fun h => ⟨h, fun hnone => hcount ?_⟩⟩
    rw [h.eq_find?, List.find?_eq_none]
    simpa using hnone
  rw [hfits, hclaim]
  cases hr : o.postRecv with
  | false =>
      simp only [Bool.false_eq_true, if_false, rest]
      constructor
      · intro h r hr
        have hnone := List.find?_eq_none.1 h.eq_find?.symm r hr
        simpa using hnone
      · exact fun h => .none _ fun r hr => by simp [h r hr]
  | true => exact firstFit_find?_iff

/-- A resource of 8192 bytes, a connection that holds nothing and its MAP. -/
def Server.oneMap (len : CInt) : Server :=
  ((rpmemConnectRequestHandler true (Server.main ⟨0, 8192, none, 0, 0⟩ Host.blank) 0).receive 0
    ⟨packMapReq Cmd.zero len, 1⟩)

/-- The first 4096 bytes are mapped, as first fit has it. -/
theorem first_fit_exact_iff_half :
    ∃ m, rpmemHandleMapBody (Outcomes.allOk 0x7f0000000000 17) (Server.oneMap 4096) 0 = .ok m ∧
      FitsExactly (Server.oneMap 4096) m.server 0 4096 := by
  obtain ⟨m, hm, hiff⟩ := first_fit_exact_iff (s := Server.oneMap 4096) (c := 0)
    (Outcomes.allOk 0x7f0000000000 17) (by decide)
  refine ⟨m, hm, ?_⟩
  have hlen : wordField ((Server.oneMap 4096).unit 0).req.bytes = 4096 := by decide
  rw [hlen] at hiff
  refine hiff.2 fun r hr => ?_
  have hmem : r ∈ [0] := List.mem_of_find?_eq_some hr
  obtain rfl := List.mem_singleton.1 hmem
  decide

/-- **A resource is never given out whole.**  The MAP that asks for all 8192 bytes
of the only resource gets nothing. -/
theorem whole_resource_is_refused :
    ∃ s, Lts.Reachable serverStep Lts.anyLabel Server.Initial s ∧ (s.unit 0).res = none ∧
      wordField (s.unit 0).req.bytes = 8192 ∧ (s.resource 0).stSize = 8192 ∧
      ∃ m, rpmemHandleMapBody (Outcomes.allOk 0x7f0000000000 17) s 0 = .ok m ∧
        ¬ FitsExactly s m.server 0 8192 := by
  obtain ⟨s, hs, hp⟩ := Lts.exists_reachable_of_exec serverStep Lts.anyLabel Server.Initial
    (Server.main_initial ⟨0, 8192, none, 0, 0⟩ Host.blank rfl)
    [.cm 0 .connectRequest true, .receive 0 ⟨packMapReq Cmd.zero 8192, 1⟩]
    (fun s => decide ((s.unit 0).res = none ∧ wordField (s.unit 0).req.bytes = 8192 ∧
      (s.resource 0).stSize = 8192 ∧ s.fit 8192 = none ∧
      s.resList.find? (s.holds 8192) = some 0)) (by decide)
  obtain ⟨hres, hlen, hsize, hfit, hfind⟩ := of_decide_eq_true hp
  obtain ⟨m, hm, hclaim, -⟩ :=
    rpmemHandleMapBody_claim (o := Outcomes.allOk 0x7f0000000000 17) hres
  refine ⟨s, hs, hres, hlen, hsize, m, hm, fun hfits => ?_⟩
  have hgot : (m.server.unit 0).res = some 0 := hfits.1.eq_find?.trans hfind
  rw [hclaim, hlen] at hgot
  rw [show (Outcomes.allOk 0x7f0000000000 17).postRecv = true from rfl, if_pos rfl, hfit] at hgot
  cases hgot

end Rpmem
