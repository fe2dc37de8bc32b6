/-
# The programs that come with the library

`simple_open_close.c`, `simple_map_unmap.c` and `simple_commit.c`: a `main`
each, one thread, one file.  They go the same way for as long as they have
calls in common, so they are one function with the program as an argument: open
the file, map all of it but a rest, commit, unmap, close; the shorter programs
leave calls out, and a call that fails goes on at `out`, or exits if there is
no file yet.

`Apps` is the system of the library with a program on every connection.  A
program runs from the return of one library call into the next (`main`), and
nothing else calls the library: every other action, the rest of `rpmem_open`
after the connection is set up included, is the system's own (`lib`).
-/

import Rpmem.Network.Durability
import Rpmem.Network.Lengths

namespace Rpmem

/-- The programs. -/
inductive Program
  | simpleOpenClose | simpleMapUnmap | simpleCommit
  deriving DecidableEq, Repr

/-- Where a `main` is: before `rpmem_open`, in a call of the library, or gone. -/
inductive AppPc
  | start | opening | mapping | committing | unmapping | closing
  | exited (status : CInt)
  deriving DecidableEq, Repr

/-- A `main` with its local `ret`; `simple_open_close` has none and exits with 0. -/
structure App where
  program : Program
  pc : AppPc
  ret : CInt
  deriving DecidableEq, Repr

/-- `size`, from `rfile->size`. -/
def mapSize (size : CInt) : CInt :=
  if (1 : CInt).slt (size.sdiv 1024) then 1024 * (size.sdiv 1024 - 1) else 1024

/-- The call that a result comes from. -/
def Result.call : Result → AppPc
  | .opened _ => .opening
  | .mapped _ => .mapping
  | .committed _ => .committing
  | .unmapped _ => .unmapping
  | .closed => .closing

/-- `main` after a call that returned `r`: the call it makes next, if it does not exit. -/
def App.goesOn (a : App) (size : CInt) : Result → App × Option Api
  | .opened false => ({ a with pc := .exited 1 }, none)
  | .opened true =>
      match a.program with
      | .simpleOpenClose => ({ a with pc := .closing }, some .rpmemClose)
      | .simpleMapUnmap | .simpleCommit =>
          ({ a with pc := .mapping }, some (.rpmemMap (sizeT (mapSize size))))
  | .mapped false => ({ a with pc := .closing, ret := 1 }, some .rpmemClose)
  | .mapped true =>
      match a.program with
      | .simpleCommit => ({ a with pc := .committing }, some .rpmemCommit)
      | .simpleOpenClose | .simpleMapUnmap => ({ a with pc := .unmapping }, some .rpmemUnmap)
  | .committed ret =>
      if ret = 0 then ({ a with pc := .unmapping, ret := ret }, some .rpmemUnmap)
      else ({ a with pc := .closing, ret := 1 }, some .rpmemClose)
  | .unmapped ret =>
      if ret = 0 then ({ a with pc := .closing, ret := ret }, some .rpmemClose)
      else ({ a with pc := .closing, ret := 1 }, some .rpmemClose)
  -- `rpmem_close` returns 0
  | .closed => ({ a with pc := .exited a.ret }, none)

/-- `main` goes on where it made the call. -/
def App.next (a : App) (size : CInt) (r : Result) : Option (App × Option Api) :=
  if a.pc = r.call then some (a.goesOn size r) else none

/-- The system, and the program on every connection. -/
structure Apps where
  sys : System
  app : ConnId → App

/-- What can happen. -/
inductive AppLabel
  | start (c : ConnId) (argc : ℕ) (getAddr : CInt)
  | main (c : ConnId) (o : ClientOutcomes)
  | lib (a : Action)

/-- The connection a label is about. -/
def AppLabel.conn : AppLabel → ConnId
  | .start c _ _ | .main c _ => c
  | .lib a => a.conn

namespace Apps

variable (s : Apps)

def setApp (c : ConnId) (a : App) : Apps := { s with app := Function.update s.app c a }

/-- `main` up to `rpmem_open`: the arguments are counted and the address is looked up. -/
def start (c : ConnId) (argc : ℕ) (getAddr : CInt) : Option Apps :=
  if (s.app c).pc = .start then
    some (s.setApp c
      { s.app c with pc := if argc = 3 ∧ getAddr = 0 then .opening else .exited 1 })
  else none

/-- `main` from the return of one call into the next. -/
def main (c : ConnId) (o : ClientOutcomes) : Option Apps :=
  match (s.sys.clients c).result with
  | none => none
  | some r =>
      match (s.app c).next (s.sys.clients c).size r with
      | none => none
      | some (a, none) => some (s.setApp c a)
      | some (a, some api) =>
          (s.sys.step (.call c api o)).map fun sys => { s.setApp c a with sys := sys }

/-- The actions that are not a program's: a program opens its file only after the address
was found, makes its other calls itself, and never writes to its region. -/
def Lib : Action → Prop
  | .connect c _ _ => (s.app c).pc = .opening
  | .call _ api _ => api = .rpmemOpen
  | .write _ _ => False
  | _ => True

instance : (a : Action) → Decidable (s.Lib a)
  | .connect _ _ _ | .call _ _ _ => inferInstanceAs (Decidable (_ = _))
  | .write _ _ => isFalse id
  | .wake _ _ | .exec _ _ | .flushRecv _ | .poll _ | .handle _ _ | .deliver _ _ | .disconnect _
  | .cmEvent _ => isTrue trivial

/-- One step of a program or of the system. -/
def step : AppLabel → Option Apps
  | .start c argc getAddr => s.start c argc getAddr
  | .main c o => s.main c o
  | .lib a => if s.Lib a then (s.sys.step a).map fun sys => { s with sys := sys } else none

/-- The action of the library that a step is, if it is one. -/
def action : AppLabel → Option Action
  | .start _ _ _ => none
  | .main c o =>
      match (s.sys.clients c).result with
      | none => none
      | some r =>
          match (s.app c).next (s.sys.clients c).size r with
          | some (_, some api) => some (.call c api o)
          | _ => none
  | .lib a => some a

/-- The actions of the library in a run of the programs. -/
def actions (s : Apps) (labels : List AppLabel) : List Action :=
  Lts.translated step (fun s l => (s.action l).toList) s labels

/-- A server just set up, its own memory being the first `base` mappings, and no program has
started. -/
structure InitialAt (base : ℕ) (s : Apps) : Prop where
  sys : s.sys.InitialAt base
  app : ∀ c, (s.app c).pc = .start ∧ (s.app c).ret = 0

end Apps

/-! ### The length a program maps -/

/-- **The length a program maps**: all of the file but its last 1024 bytes and what is left
over of the others, and 1024 bytes of a file of less than 2048 or of a size that is negative. -/
theorem mapSize_toInt (size : CInt) :
    (mapSize size).toInt =
      if 2048 ≤ size.toInt then 1024 * (size.toInt / 1024 - 1) else 1024 := by
  have hlt : size.toInt < 2147483648 := BitVec.toInt_lt (x := size)
  have hdiv : (size.sdiv 1024).toInt = size.toInt.tdiv 1024 :=
    BitVec.toInt_sdiv_of_ne_or_ne _ _ (.inr (by decide))
  have hpos : 0 ≤ size.toInt → size.toInt.tdiv 1024 = size.toInt / 1024 :=
    Int.tdiv_eq_ediv_of_nonneg
  -- C rounds towards zero
  have hneg : size.toInt ≤ 0 → size.toInt.tdiv 1024 ≤ 0 := by
    intro h
    have hflip := Int.tdiv_nonneg (a := -size.toInt) (b := 1024) (by omega) (by omega)
    rw [Int.neg_tdiv] at hflip
    omega
  have hslt : (1 : CInt).slt (size.sdiv 1024) = decide (2048 ≤ size.toInt) := by
    rw [BitVec.slt_eq_decide, hdiv]
    refine decide_eq_decide.2 ?_
    show 1 < size.toInt.tdiv 1024 ↔ 2048 ≤ size.toInt
    omega
  unfold mapSize
  rw [hslt]
  by_cases h : 2048 ≤ size.toInt
  · have hone : (1 : CInt).toInt = 1 := rfl
    have hk : (1024 : CInt).toInt = 1024 := rfl
    rw [if_pos (decide_eq_true h), if_pos h, BitVec.toInt_mul, BitVec.toInt_sub, hdiv,
      hpos (by omega), hone, hk,
      Int.bmod_eq_of_le (n := size.toInt / 1024 - 1) (by omega) (by omega),
      Int.bmod_eq_of_le (by omega) (by omega)]
  · rw [if_neg (by simpa using h), if_neg h]
    rfl

/-- What `rpmem_map` gets is that length, between 1024 and `2^31` bytes. -/
theorem sizeT_mapSize (size : CInt) :
    ((sizeT (mapSize size)).toNat : ℤ) = (mapSize size).toInt ∧
      1024 ≤ (sizeT (mapSize size)).toNat ∧ (sizeT (mapSize size)).toNat < 2 ^ 31 := by
  have hlt : size.toInt < 2147483648 := BitVec.toInt_lt (x := size)
  have hint := mapSize_toInt size
  have hrange : 1024 ≤ (mapSize size).toInt ∧ (mapSize size).toInt < 2147483648 := by
    rw [hint]
    split_ifs <;> omega
  rcases sizeT_cases (mapSize size) with ⟨-, heq, -⟩ | ⟨hneg, -⟩
  · omega
  · omega

/-! ### What a step can do -/

/-- Where `main` goes from the return of a call. -/
inductive App.Goes (a : App) (size : CInt) : Result → App → Option Api → Prop
  | openFailed (pc : a.pc = .opening) : Goes a size (.opened false) { a with pc := .exited 1 } none
  | closes (pc : a.pc = .opening) (hp : a.program = .simpleOpenClose) :
      Goes a size (.opened true) { a with pc := .closing } (some .rpmemClose)
  | maps (pc : a.pc = .opening) (hp : a.program ≠ .simpleOpenClose) :
      Goes a size (.opened true) { a with pc := .mapping }
        (some (.rpmemMap (sizeT (mapSize size))))
  | mapFailed (pc : a.pc = .mapping) :
      Goes a size (.mapped false) { a with pc := .closing, ret := 1 } (some .rpmemClose)
  | commits (pc : a.pc = .mapping) (hp : a.program = .simpleCommit) :
      Goes a size (.mapped true) { a with pc := .committing } (some .rpmemCommit)
  | unmaps (pc : a.pc = .mapping) (hp : a.program ≠ .simpleCommit) :
      Goes a size (.mapped true) { a with pc := .unmapping } (some .rpmemUnmap)
  | committed (pc : a.pc = .committing) :
      Goes a size (.committed 0) { a with pc := .unmapping, ret := 0 } (some .rpmemUnmap)
  | commitFailed (ret : CInt) (pc : a.pc = .committing) (hret : ret ≠ 0) :
      Goes a size (.committed ret) { a with pc := .closing, ret := 1 } (some .rpmemClose)
  | unmapped (pc : a.pc = .unmapping) :
      Goes a size (.unmapped 0) { a with pc := .closing, ret := 0 } (some .rpmemClose)
  | unmapFailed (ret : CInt) (pc : a.pc = .unmapping) (hret : ret ≠ 0) :
      Goes a size (.unmapped ret) { a with pc := .closing, ret := 1 } (some .rpmemClose)
  | exits (pc : a.pc = .closing) : Goes a size .closed { a with pc := .exited a.ret } none

theorem App.next_goes {a b : App} {size : CInt} {r : Result} {api : Option Api}
    (h : a.next size r = some (b, api)) : a.Goes size r b api := by
  obtain ⟨pc, h⟩ := Option.ite_none_right_eq_some.1 h
  have hgo := Option.some.inj h
  cases r with
  | opened ok =>
      cases ok with
      | false =>
          cases hgo
          exact .openFailed pc
      | true =>
          simp only [App.goesOn] at hgo
          split at hgo
          next hp => cases hgo; exact .closes pc hp
          next hp => cases hgo; exact .maps pc (by simp [hp])
          next hp => cases hgo; exact .maps pc (by simp [hp])
  | mapped ok =>
      cases ok with
      | false =>
          cases hgo
          exact .mapFailed pc
      | true =>
          simp only [App.goesOn] at hgo
          split at hgo
          next hp => cases hgo; exact .commits pc hp
          next hp => cases hgo; exact .unmaps pc (by simp [hp])
          next hp => cases hgo; exact .unmaps pc (by simp [hp])
  | committed ret =>
      simp only [App.goesOn] at hgo
      split_ifs at hgo with hret <;> cases hgo
      · subst hret
        exact .committed pc
      · exact .commitFailed ret pc hret
  | unmapped ret =>
      simp only [App.goesOn] at hgo
      split_ifs at hgo with hret <;> cases hgo
      · subst hret
        exact .unmapped pc
      · exact .unmapFailed ret pc hret
  | closed =>
      cases hgo
      exact .exits pc

/-- `main` goes where `App.Goes` says. -/
theorem App.Goes.next_eq {a b : App} {size : CInt} {r : Result} {api : Option Api}
    (hgo : a.Goes size r b api) : a.next size r = some (b, api) := by
  obtain ⟨program, pc, ret⟩ := a
  cases hgo with
  | maps hpc hp =>
      cases program with
      | simpleOpenClose => exact absurd rfl hp
      | simpleMapUnmap | simpleCommit => exact if_pos hpc
  | unmaps hpc hp =>
      cases program with
      | simpleCommit => exact absurd rfl hp
      | simpleMapUnmap | simpleOpenClose => exact if_pos hpc
  | closes hpc hp | commits hpc hp =>
      obtain rfl := hp
      exact if_pos hpc
  | commitFailed ret' hpc hret | unmapFailed ret' hpc hret =>
      refine (if_pos hpc).trans ?_
      rw [App.goesOn, if_neg hret]
  | openFailed hpc | mapFailed hpc | committed hpc | unmapped hpc | exits hpc => exact if_pos hpc

/-- What a step can do. -/
inductive Apps.Stepped (s : Apps) : AppLabel → Apps → Prop
  | started (c : ConnId) (argc : ℕ) (getAddr : CInt) (pc : (s.app c).pc = .start) :
      Stepped s (.start c argc getAddr) (s.setApp c
        { s.app c with pc := if argc = 3 ∧ getAddr = 0 then .opening else .exited 1 })
  | exits (c : ConnId) (o : ClientOutcomes) (r : Result) (a : App)
      (result : (s.sys.clients c).result = some r)
      (next : (s.app c).Goes (s.sys.clients c).size r a none) :
      Stepped s (.main c o) (s.setApp c a)
  | calls (c : ConnId) (o : ClientOutcomes) (r : Result) (a : App) (api : Api) (sys : System)
      (result : (s.sys.clients c).result = some r)
      (next : (s.app c).Goes (s.sys.clients c).size r a (some api))
      (call : s.sys.step (.call c api o) = some sys) :
      Stepped s (.main c o) { s.setApp c a with sys := sys }
  | lib (a : Action) (sys : System) (hlib : s.Lib a) (hsys : s.sys.step a = some sys) :
      Stepped s (.lib a) { s with sys := sys }

/-- **Everything a program or the system can do.** -/
theorem Apps.step_cases {s t : Apps} {l : AppLabel} (h : s.step l = some t) : s.Stepped l t := by
  cases l with
  | start c argc getAddr =>
      obtain ⟨pc, ⟨⟩⟩ := Option.ite_none_right_eq_some.1 h
      exact .started c argc getAddr pc
  | main c o =>
      simp only [Apps.step, Apps.main] at h
      split at h
      · cases h
      · rename_i r hr
        split at h
        · cases h
        · rename_i a hnext
          obtain rfl := Option.some.inj h
          exact .exits c o r a hr (App.next_goes hnext)
        · rename_i a api hnext
          obtain ⟨sys, hsys, rfl⟩ := Option.map_eq_some_iff.1 h
          exact .calls c o r a api sys hr (App.next_goes hnext) hsys
  | lib a =>
      obtain ⟨hlib, h⟩ := Option.ite_none_right_eq_some.1 h
      obtain ⟨sys, hsys, rfl⟩ := Option.map_eq_some_iff.1 h
      exact .lib a sys hlib hsys

/-- A step is about one connection. -/
theorem Apps.Stepped.frame {s t : Apps} {l : AppLabel} (h : s.Stepped l t) {d : ConnId}
    (hd : d ≠ l.conn) : t.app d = s.app d ∧ t.sys.clients d = s.sys.clients d ∧
      t.sys.server.unit d = s.sys.server.unit d := by
  cases h with
  | started | exits => exact ⟨Function.update_of_ne hd _ _, rfl, rfl⟩
  | calls _ _ _ _ _ sys _ _ hcall =>
      exact ⟨Function.update_of_ne hd _ _, System.step_frame (System.step_cases hcall) hd⟩
  | lib a sys _ hsys => exact ⟨rfl, System.step_frame (System.step_cases hsys) hd⟩

/-! ### A run in which nothing fails -/

/-- Every connection has the program, and the server one resource of 8192 bytes. -/
def Apps.all (program : Program) : Apps :=
  ⟨System.oneResource fun _ _ => 0, fun _ => ⟨program, .start, 0⟩⟩

theorem Apps.all_initialAt (program : Program) : (Apps.all program).InitialAt 1 :=
  ⟨System.oneResource_initialAt _, fun _ => ⟨rfl, rfl⟩⟩

/-- Actions of the system, as labels. -/
def Apps.acts (l : List Action) : List AppLabel := l.map .lib

/-- A program up to the return of `rpmem_open`. -/
def Apps.opens (c : ConnId) : List AppLabel := .start c 3 0 :: Apps.acts (System.opens c)

/-- A request, its answer, and the wake-up. -/
def Apps.exchange (c : ConnId) (o : Outcomes) : List AppLabel :=
  Apps.acts (System.exchange c o ++ [.wake c .allOk])

/-- `rpmem_map`, to its return. -/
def Apps.maps (c : ConnId) : List AppLabel :=
  .main c .allOk :: Apps.exchange c (.allOk 0x7f0000000000 17) ++
    Apps.acts [.exec c true, .poll c, .wake c .allOk]

/-- `rpmem_commit`, to its return. -/
def Apps.commits (c : ConnId) : List AppLabel :=
  .main c .allOk :: Apps.acts [.exec c true, .poll c] ++ Apps.exchange c (.allOk 0 0)

/-- `rpmem_unmap` or `rpmem_close`, to its return. -/
def Apps.request (c : ConnId) : List AppLabel := .main c .allOk :: Apps.exchange c (.allOk 0 0)

end Rpmem
