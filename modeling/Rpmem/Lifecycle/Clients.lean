/-
# The client of the network and the file of the ledger

There are two models of `rpmem.c`.  `Client` has the protocol: what a call
posts, waits for and returns, with `rpmem_open` from the established connection
on.  `File` has what the calls acquire and release, with `cm_thread` beside
them, and no messages.

Every run of clients and server, seen from one connection and put into the
labels of `File`, is a run of `File`, with the events of the connection manager
in order.  The two agree on the place in the call, on `state` and on the region
the application has; and the registrations the adapter holds for a client are
those of the ledger, the ones no pointer names any more included.
-/

import Rpmem.Lifecycle.Balance
import Rpmem.Network.Tokens

namespace Rpmem

open Lts Ledger

/-! ### The labels of an action -/

/-- The connection is refused, by the server or on the side of the client. -/
def refusing (accepted : Bool) : List FileLabel :=
  List.replicate 5 (.main true) ++ .getEvent .addrResolved :: List.replicate 10 (.cm true) ++
    .getEvent .routeResolved :: List.replicate 4 (.cm true) ++
    [.getEvent (if accepted then .connectError else .rejected), .cm true, .main true, .main true]

/-- Both posts of a request succeed. -/
def ClientOutcomes.sends (o : ClientOutcomes) : Bool := o.postRecv && o.postSend

/-- What a call does to its file on the way to its first `sem_wait`. -/
def Api.fileLabels (o : ClientOutcomes) : Api → List FileLabel
  | .rpmemOpen => if o.postRecv then [.main true, .main o.postSend] else [.main false]
  | .rpmemMap _ =>
      if o.calloc then
        if o.regMr then if o.sends then [] else [.map .laterFails] else [.map .regMrFails]
      else [.map .callocFails]
  | .rpmemUnmap => if o.sends then [] else [.unmap]
  | .rpmemCommit => []
  | .rpmemClose => if o.sends then [] else [.close]

/-- What a call does to its file from one `sem_wait` to the next, or to its return. -/
def Wait.fileLabels (returns : Bool) : Wait → List FileLabel
  | .rsp .openReq => [.main returns]
  | .rsp .mapReq => if returns then [.map .laterFails] else []
  | .read => [.map .mapped]
  | .rsp .unmapReq => [.unmap]
  | .rsp .commitReq => []
  | .rsp .closeReq => [.close]

/-- An action on a connection, in the labels of its file; `k` and `k'` are the client before and
after it. -/
def Action.fileLabels (k k' : Client) : Action → List FileLabel
  | .connect _ accepted established =>
      if accepted && established then connecting ++ [.main true, .main true]
      else refusing accepted
  | .call _ api o => api.fileLabels o
  | .wake _ _ =>
      match k.pc with
      | .waiting w => w.fileLabels (decide (k'.pc = .idle))
      | _ => []
  | .cmEvent _ =>
      -- `cm_thread` ends with the first event after `ESTABLISHED`
      if k.state = .established then [.getEvent .disconnected, .cm true, .cm true] else []
  | _ => []

/-- The labels of the file of `c`. -/
def fileLabels (c : ConnId) (s : System) (a : Action) (t : System) : List FileLabel :=
  if a.conn = c then a.fileLabels (s.clients c) (t.clients c) else []

/-! ### What the two models share -/

/-- The part of a client that its file knows of. -/
structure ClientView where
  pc : Pc
  state : FileState
  region : Bool
  live : List ℕ
  mr : Option ℕ
  nextBuf : ℕ
  cmPending : Bool

def Client.view (k : Client) : ClientView :=
  ⟨k.pc, k.state, k.region, k.live, k.mr, k.nextBuf, k.cmPending⟩

/-- Where the application's thread is in its file.  A call that has given up, or closed, is
before the teardown. -/
def Pc.At (m : MainPc) : Pc → Prop
  | .unopened => m = .calloc
  | .connected => m = .postRecv
  | .waiting (.rsp .openReq) => m = .waitOpen
  | .idle | .waiting _ => m = .opened
  | .finished => m = .destroyThread ∨ m = .closing .cancelCm

/-- `rpmem_map` has registered its buffer and waits. -/
def Pc.mapping : Pc → Bool
  | .waiting (.rsp .mapReq) | .waiting .read => true
  | _ => false

/-- The registrations of regions that are live, named by a pointer or not. -/
def File.regions (f : File) : ℕ :=
  (f.book.live .regionMr).toNat + f.book.lost.count .regionMr

/-- The connection is up, and the thread waits for events, or it is down, and the thread is
gone. -/
def File.Listens (f : File) (state : FileState) : Prop :=
  f.phase = .connected ∧
    (state = .established ∧ f.cm = .waiting ∨ state = .disconnected ∧ f.cm = .exited)

/-- `f` is the file of the client. -/
structure ClientView.InFile (v : ClientView) (f : File) : Prop where
  main : v.pc.At f.main
  unopened : v.pc = .unopened → f = File.initial
  state : v.pc ≠ .finished → f.state = v.state
  listens : v.pc ≠ .unopened → v.pc ≠ .finished → f.Listens v.state
  pending : v.cmPending = true → v.pc ≠ .unopened ∧ v.pc ≠ .finished
  region : v.pc ≠ .waiting (.rsp .unmapReq) → f.region = v.region
  unmapping : v.pc = .waiting (.rsp .unmapReq) → v.region = false
  nodup : v.live.Nodup
  below : ∀ id ∈ v.live, id < v.nextBuf
  mapping : v.pc.mapping = true → ∃ id l, v.mr = some id ∧ v.live = id :: l ∧ l.length = f.regions
  held : v.pc.mapping = false → v.live.length = f.regions ∧
    (f.book.live .regionMr = true ↔ ∃ id, v.mr = some id ∧ id ∈ v.live)

variable {v w : ClientView} {f : File} {k k' : Client} {o : ClientOutcomes}

/-! ### The ledger -/

theorem count_lost_forget {b : Book Obj} {x : Obj} :
    (b.forget x).lost.count .regionMr =
      b.lost.count .regionMr + if x = .regionMr then (b.live x).toNat else 0 := by
  cases hl : b.live x with
  | false => simp [Book.forget, hl]
  | true => simp [Book.forget, hl, List.count_cons]

theorem count_lost_acquire {b : Book Obj} {x : Obj} :
    (b.acquire x).lost.count .regionMr =
      b.lost.count .regionMr + if x = .regionMr then (b.live x).toNat else 0 :=
  count_lost_forget

/-- `rpmem_map` adds a registration if it returns the region, and else none: one whose pointer it
overwrites is still there. -/
theorem File.regions_rpmemMap (m : MapOutcome) :
    (f.rpmemMap m).regions = f.regions + if m = .mapped then 1 else 0 := by
  cases m <;> simp [File.regions, File.rpmemMap, count_lost_forget, count_lost_acquire] <;> omega

theorem File.named_rpmemMap (m : MapOutcome) :
    (f.rpmemMap m).book.live .regionMr =
      match m with
      | .callocFails => f.book.live .regionMr
      | .regMrFails | .laterFails => false
      | .mapped => true := by
  cases m <;> simp [File.rpmemMap]

/-- `rpmem_unmap` gives one registration back, if the pointer names a live one. -/
theorem File.regions_rpmemUnmap :
    f.rpmemUnmap.regions + (f.book.live .regionMr).toNat = f.regions := by
  simp [File.regions, File.rpmemUnmap]
  omega

/-! ### What keeps a file -/

/-- A file is open, or on its way: the thread of the application is neither before `rpmem_open`
nor done. -/
def Pc.within (p : Pc) : Prop := p ≠ .unopened ∧ p ≠ .finished

theorem Pc.within_waiting (w : Wait) : (Pc.waiting w).within := ⟨by simp, by simp⟩

/-- Nothing is mapped, and nothing lost. -/
def File.Unmapped (f : File) : Prop :=
  f.region = false ∧ f.book.live .regionMr = false ∧ f.book.lost = []

instance (f : File) : Decidable f.Unmapped :=
  inferInstanceAs (Decidable (_ ∧ _))

namespace ClientView.InFile

/-- Before `rpmem_open`. -/
theorem fresh : Client.fresh.view.InFile File.initial :=
  ⟨rfl, fun _ => rfl, fun _ => rfl, fun hu => absurd rfl hu, by rintro ⟨⟩, fun _ => rfl,
    fun _ => rfl, .nil, by rintro id ⟨⟩, by rintro ⟨⟩,
    fun _ => ⟨rfl, by simp [Client.view, Client.fresh, File.initial]⟩⟩

/-- `rpmem_open` has its connection, or gives up. -/
theorem connects (h : v.InFile File.initial) (hv : v.pc = .unopened) {g : File} {p : Pc}
    {st : FileState} {b : Bool} (hm : p.At g.main) (hp : p = .connected ∨ p = .finished)
    (hst : p ≠ .finished → g.state = st ∧ g.Listens st) (hg : g.Unmapped)
    (hb : b = true → p ≠ .finished) :
    { v with pc := p, state := st, cmPending := b }.InFile g := by
  have hlive : v.live = [] := List.length_eq_zero_iff.1 (h.held (by rw [hv]; rfl)).1
  have hregion : v.region = false := (h.region (by simp [hv])).symm
  obtain ⟨hr, hnamed, hlost⟩ := hg
  refine ⟨hm, ?_, fun hf => (hst hf).1, fun _ hf => (hst hf).2, fun hc => ⟨?_, hb hc⟩,
    fun _ => hr.trans hregion.symm, ?_, h.nodup, h.below, ?_, fun _ => ?_⟩
  · rcases hp with rfl | rfl <;> rintro ⟨⟩
  · rcases hp with rfl | rfl <;> simp
  · rcases hp with rfl | rfl <;> rintro ⟨⟩
  · rcases hp with rfl | rfl <;> rintro ⟨⟩
  · simp [File.regions, hnamed, hlost, hlive]

/-- The call goes on and changes no registration. -/
theorem goto (h : v.InFile f) (hv : v.pc.within) {p : Pc} {m : MainPc} {r b : Bool} (hm : p.At m)
    (hp : p ≠ .unopened) (hmap : v.pc.mapping = false) (hmap' : p.mapping = false)
    (hr : if p = .waiting (.rsp .unmapReq) then r = false else f.region = r)
    (hb : b = true → v.cmPending = true ∧ p ≠ .finished) :
    { v with pc := p, region := r, cmPending := b }.InFile { f with main := m } where
  main := hm
  unopened hu := absurd hu hp
  state _ := h.state hv.2
  listens _ _ := h.listens hv.1 hv.2
  pending hc := ⟨hp, (hb hc).2⟩
  region hne := by rwa [if_neg hne] at hr
  unmapping hu := by rwa [if_pos hu] at hr
  nodup := h.nodup
  below := h.below
  mapping ht := absurd ht (by simp [hmap'])
  held _ := h.held hmap

/-- Between calls. -/
theorem of_idle (h : v.InFile f) (hpc : v.pc = .idle) :
    f.main = .opened ∧ v.pc.within ∧ v.pc.mapping = false ∧ f.region = v.region := by
  obtain ⟨pc, _⟩ := v
  obtain rfl : pc = .idle := hpc
  exact ⟨h.main, ⟨by simp, by simp⟩, rfl, h.region (by simp)⟩

/-- In a call on an open file. -/
theorem of_waiting (h : v.InFile f) {w : Wait} (hpc : v.pc = .waiting w) (hw : w ≠ .rsp .openReq) :
    f.main = .opened := by
  have hat := h.main
  rw [hpc] at hat
  cases w with
  | read => exact hat
  | rsp q => cases q <;> first | exact hat | exact absurd rfl hw

/-- `rpmem_map` or `rpmem_unmap` returns. -/
theorem idle (h : v.InFile f) (hv : v.pc.within) {g : File} {l : List ℕ} {mr : Option ℕ} {n : ℕ}
    (hmain : g.main = .opened) (hstate : g.state = f.state) (hphase : g.phase = f.phase)
    (hcm : g.cm = f.cm) (hl : l.Nodup) (hn : ∀ id ∈ l, id < n) (hlen : l.length = g.regions)
    (hmr : g.book.live .regionMr = true ↔ ∃ id, mr = some id ∧ id ∈ l) :
    { v with pc := .idle, region := g.region, live := l, mr := mr, nextBuf := n }.InFile g where
  main := hmain
  unopened hu := by cases hu
  state _ := hstate.trans (h.state hv.2)
  listens _ _ := by
    have := h.listens hv.1 hv.2
    rwa [File.Listens, ← hphase, ← hcm] at this
  pending _ := ⟨by simp, by simp⟩
  region _ := rfl
  unmapping hu := by cases hu
  nodup := hl
  below := hn
  mapping ht := by cases ht
  held _ := ⟨hlen, hmr⟩

/-- `rpmem_map` returns without a region before its buffer is registered, or takes it back. -/
theorem mapReturns (h : v.InFile f) (hv : v.pc.within) (hopened : f.main = .opened)
    {m : MapOutcome} {l : List ℕ} {mr : Option ℕ} {n : ℕ} (hl : l.Nodup) (hn : ∀ id ∈ l, id < n)
    (hlen : l.length = f.regions + if m = .mapped then 1 else 0)
    (hmr : (f.rpmemMap m).book.live .regionMr = true ↔ ∃ id, mr = some id ∧ id ∈ l) :
    { v with
      pc := .idle
      region := decide (m = MapOutcome.mapped)
      live := l
      mr := mr
      nextBuf := n }.InFile (f.rpmemMap m) := by
  have hregion : (f.rpmemMap m).region = decide (m = .mapped) := by cases m <;> rfl
  rw [← hregion]
  refine h.idle hv ?_ ?_ ?_ ?_ hl hn (hlen.trans (f.regions_rpmemMap m).symm) hmr
  · rw [← hopened]
    cases m <;> rfl
  all_goals cases m <;> rfl

/-- `rpmem_unmap` returns. -/
theorem unmapReturns (h : v.InFile f) (hv : v.pc.within) (hopened : f.main = .opened)
    (hmap : v.pc.mapping = false) {id : ℕ} (hmr : v.mr = some id) :
    { v with pc := .idle, region := false, live := v.live.erase id }.InFile f.rpmemUnmap := by
  obtain ⟨hlen, hnamed⟩ := h.held hmap
  refine h.idle (g := f.rpmemUnmap) hv hopened rfl rfl rfl (h.nodup.erase id)
    (fun i hi => h.below i (List.mem_of_mem_erase hi)) ?_ ?_
  · have hback := f.regions_rpmemUnmap
    have hone : (f.book.live .regionMr).toNat = if id ∈ v.live then 1 else 0 := by
      rw [hmr] at hnamed
      by_cases hid : id ∈ v.live
      · rw [if_pos hid, hnamed.2 ⟨id, rfl, hid⟩]
        rfl
      · have hno : f.book.live .regionMr = false := by
          rw [← Bool.not_eq_true, hnamed]
          rintro ⟨i, ⟨⟩, hi⟩
          exact hid hi
        rw [if_neg hid, hno]
        rfl
    rw [List.length_erase]
    split_ifs at hone ⊢ with hid
    · have := List.length_pos_of_mem hid
      omega
    · omega
  · have hgone : f.rpmemUnmap.book.live .regionMr = false := by simp [File.rpmemUnmap]
    rw [hgone, hmr]
    refine ⟨by rintro ⟨⟩, ?_⟩
    rintro ⟨i, ⟨⟩, hi⟩
    exact absurd hi h.nodup.not_mem_erase

end ClientView.InFile

/-! ### What the file sees of a call -/

theorem rpmemOpen_view (o : ClientOutcomes) (k : Client) :
    (rpmemOpen o k).view =
      if o.sends then { k.view with pc := .waiting (.rsp .openReq) }
      else { k.view with pc := .finished, cmPending := false } := by
  unfold rpmemOpen Client.sendRequest ClientOutcomes.sends
  cases o.postRecv <;> cases o.postSend <;> rfl

theorem rpmemClose_view (o : ClientOutcomes) (k : Client) :
    (rpmemClose o k).view =
      if o.sends then { k.view with pc := .waiting (.rsp .closeReq) }
      else { k.view with pc := .finished, cmPending := false } := by
  unfold rpmemClose Client.sendRequest ClientOutcomes.sends
  cases o.postRecv <;> cases o.postSend <;> rfl

theorem rpmemMap_view (o : ClientOutcomes) (len : BitVec 64) (k : Client) :
    (rpmemMap o len k).view =
      if o.calloc then
        if o.regMr then
          if o.sends then
            { k.view with
              pc := .waiting (.rsp .mapReq)
              live := k.nextBuf :: k.live
              mr := some k.nextBuf
              nextBuf := k.nextBuf + 1 }
          else
            { k.view with
              pc := .idle, region := false, mr := some k.nextBuf, nextBuf := k.nextBuf + 1 }
        else { k.view with pc := .idle, region := false, mr := none, nextBuf := k.nextBuf + 1 }
      else { k.view with pc := .idle, region := false } := by
  unfold rpmemMap Client.sendRequest ClientOutcomes.sends
  cases o.calloc <;> cases o.regMr <;> cases o.postRecv <;> cases o.postSend <;>
    simp [rpmemMapDestroyMr, rpmemMapOut, Client.view, Client.leave, Client.start, Client.postRecv,
      Client.pack, Client.post]

theorem rpmemUnmap_view (h : rpmemUnmap o k = some k') :
    if o.sends then k'.view = { k.view with pc := .waiting (.rsp .unmapReq), region := false }
    else ∃ id, k.mr = some id ∧
      k'.view = { k.view with pc := .idle, region := false, live := k.live.erase id } := by
  unfold rpmemUnmap Client.sendRequest at h
  unfold ClientOutcomes.sends
  cases hr : o.postRecv <;> cases hs : o.postSend <;> simp only [hr, hs] at h
  case true.true =>
    cases h
    rfl
  all_goals
    obtain ⟨id, hmr, rfl⟩ := Option.map_eq_some_iff.1 h
    exact ⟨id, hmr, rfl⟩

theorem rpmemCommit_view (h : rpmemCommit o k = some k') :
    ∃ p, (p = .idle ∨ p = .waiting (.rsp .commitReq)) ∧ k'.view = { k.view with pc := p } := by
  cases rpmemCommit_called h with
  | commits id => exact ⟨_, .inr rfl, rfl⟩
  | commitFails => exact ⟨_, .inl rfl, rfl⟩

theorem rpmemOpenAfterRsp_view (k : Client) :
    (rpmemOpenAfterRsp k).view = { k.view with pc := .idle } ∨
      (rpmemOpenAfterRsp k).view = { k.view with pc := .finished, cmPending := false } := by
  unfold rpmemOpenAfterRsp
  split
  split_ifs
  · exact .inl rfl
  · exact .inr rfl

theorem rpmemMapAfterRsp_view (h : rpmemMapAfterRsp o k = some k') :
    ∃ id, k.mr = some id ∧
      (k'.view = { k.view with pc := .waiting .read } ∨
        k'.view = { k.view with pc := .idle, region := false, live := k.live.erase id }) := by
  obtain ⟨id, hmr, rfl⟩ := Option.map_eq_some_iff.1 h
  refine ⟨id, hmr, ?_⟩
  split
  split_ifs
  · exact .inl rfl
  · exact .inr rfl
  · exact .inr rfl

theorem Client.write_view {g : ℕ → UInt8} (h : k.write g = some k') : k'.view = k.view := by
  unfold Client.write at h
  split at h
  · obtain ⟨-, ⟨⟩⟩ := Option.ite_none_right_eq_some.1 h
    rfl
  · cases h

theorem Client.poll_view (h : k.poll = some k') : k'.view = k.view := by
  unfold Client.poll at h
  split at h
  · obtain rfl := Option.some.inj h
    rfl
  · cases h

/-! ### One action -/

/-- The file follows: the labels make a run of it, to a file of the client again. -/
def Follows (f : File) (l : List FileLabel) (v : ClientView) : Prop :=
  ∃ g, Run fileStep EventsInOrder f l g ∧ v.InFile g

theorem Follows.stay (h : v.InFile f) : Follows f [] v := ⟨f, .nil f, h⟩

/-- A label that is no event of the connection manager. -/
theorem Follows.one {g : File} {a : FileLabel} (hok : EventsInOrder f a)
    (hs : fileStep f a = some g) (h : v.InFile g) : Follows f [a] v :=
  ⟨g, .cons hok hs (.nil g), h⟩

section Calls

variable (h : k.view.InFile f)
include h

theorem follows_rpmemOpen (hpc : k.pc = .connected) (o : ClientOutcomes) :
    Follows f (Api.rpmemOpen.fileLabels o) (rpmemOpen o k).view := by
  have hm : f.main = .postRecv := by simpa [Client.view, hpc, Pc.At] using h.main
  have hv : k.view.pc.within := by simp [Client.view, hpc, Pc.within]
  have hmap : k.view.pc.mapping = false := by simp [Client.view, hpc, Pc.mapping]
  have hregion := h.region (by simp [Client.view, hpc])
  have hfail := h.goto hv (p := .finished) (m := .destroyThread) (b := false) (.inl rfl) (by simp)
    hmap rfl hregion (by rintro ⟨⟩)
  rw [rpmemOpen_view, Api.fileLabels]
  unfold ClientOutcomes.sends
  cases hr : o.postRecv with
  | false => exact .one trivial (by simp [fileStep, File.mainStep, hm]) hfail
  | true =>
      have hrecv : fileStep f (.main true) = some { f with main := .postSend } := by
        simp [fileStep, File.mainStep, hm]
      refine ⟨{ f with main := if o.postSend then .waitOpen else .destroyThread }, ?_, ?_⟩
      · exact .cons trivial hrecv (.cons trivial rfl (.nil _))
      · cases o.postSend with
        | false => exact hfail
        | true => exact h.goto hv rfl (by simp) hmap rfl hregion fun hb => ⟨hb, by simp⟩

theorem follows_rpmemClose (hpc : k.pc = .idle) (o : ClientOutcomes) :
    Follows f (Api.rpmemClose.fileLabels o) (rpmemClose o k).view := by
  obtain ⟨hm, hv, hmap, hregion⟩ := h.of_idle hpc
  rw [rpmemClose_view, Api.fileLabels]
  cases o.sends with
  | true =>
      exact .stay (h.goto (m := f.main) hv hm (by simp) hmap rfl hregion
        fun hb => ⟨hb, by simp⟩)
  | false =>
      refine .one trivial (by simp [fileStep, hm]) (h.goto hv (.inr rfl) (by simp) hmap rfl
        hregion (by rintro ⟨⟩))

theorem follows_rpmemMap (hpc : k.pc = .idle) (o : ClientOutcomes) (len : BitVec 64) :
    Follows f ((Api.rpmemMap len).fileLabels o) (rpmemMap o len k).view := by
  obtain ⟨hm, hv, hmap, hregion⟩ := h.of_idle hpc
  obtain ⟨hlen, hnamed⟩ := h.held hmap
  have hnew : k.nextBuf ∉ k.view.live := fun hmem => Nat.lt_irrefl _ (h.below _ hmem)
  have hbelow : ∀ id ∈ k.live, id < k.nextBuf + 1 :=
    fun id hid => Nat.lt_succ_of_lt (h.below id hid)
  have hlater (m : MapOutcome) : fileStep f (.map m) = some (f.rpmemMap m) := by
    simp [fileStep, hm]
  rw [rpmemMap_view, Api.fileLabels]
  cases o.calloc with
  | false =>
      refine .one trivial (hlater .callocFails) (h.mapReturns hv hm (m := .callocFails) h.nodup
        h.below hlen ?_)
      rwa [f.named_rpmemMap]
  | true =>
      cases o.regMr with
      | false =>
          refine .one trivial (hlater .regMrFails) (h.mapReturns hv hm (m := .regMrFails) h.nodup
            hbelow hlen ?_)
          simp [f.named_rpmemMap]
      | true =>
          cases o.sends with
          | false =>
              refine .one trivial (hlater .laterFails) (h.mapReturns hv hm (m := .laterFails)
                h.nodup hbelow hlen ?_)
              simpa [f.named_rpmemMap] using hnew
          | true =>
              refine .stay ⟨hm, by rintro ⟨⟩, fun _ => h.state hv.2, fun _ _ => h.listens hv.1 hv.2,
                fun _ => ⟨by simp, by simp⟩, fun _ => hregion, by rintro ⟨⟩,
                List.nodup_cons.2 ⟨hnew, h.nodup⟩, ?_, fun _ => ⟨_, _, rfl, rfl, hlen⟩,
                by rintro ⟨⟩⟩
              rintro id (_ | ⟨_, hid⟩)
              · exact Nat.lt_succ_self _
              · exact hbelow id hid

theorem follows_rpmemUnmap (hpc : k.pc = .idle) (hs : rpmemUnmap o k = some k') :
    Follows f (Api.rpmemUnmap.fileLabels o) k'.view := by
  obtain ⟨hm, hv, hmap, -⟩ := h.of_idle hpc
  have hview := rpmemUnmap_view hs
  rw [Api.fileLabels]
  cases hsend : o.sends with
  | true =>
      rw [hsend, if_pos rfl] at hview
      rw [hview]
      exact .stay (h.goto (m := f.main) hv hm (by simp) hmap rfl rfl
        fun hb => ⟨hb, by simp⟩)
  | false =>
      rw [hsend, if_neg (by simp)] at hview
      obtain ⟨id, hmr, hview⟩ := hview
      rw [hview]
      exact .one trivial (by simp [fileStep, hm]) (h.unmapReturns hv hm hmap hmr)

/-- **A call**, to its first wait or its return. -/
theorem follows_call {api : Api} (hs : k.call o api = some k') :
    Follows f (api.fileLabels o) k'.view := by
  cases api with
  | rpmemOpen =>
      obtain ⟨hpc, ⟨⟩⟩ := Option.ite_none_right_eq_some.1 hs
      exact follows_rpmemOpen h hpc o
  | rpmemMap len =>
      obtain ⟨hpc, ⟨⟩⟩ := Option.ite_none_right_eq_some.1 hs
      exact follows_rpmemMap h hpc o len
  | rpmemUnmap =>
      obtain ⟨hpc, hs⟩ := Option.ite_none_right_eq_some.1 hs
      exact follows_rpmemUnmap h hpc hs
  | rpmemClose =>
      obtain ⟨hpc, ⟨⟩⟩ := Option.ite_none_right_eq_some.1 hs
      exact follows_rpmemClose h hpc o
  | rpmemCommit =>
      obtain ⟨hpc, hs⟩ := Option.ite_none_right_eq_some.1 hs
      obtain ⟨hm, hv, hmap, hregion⟩ := h.of_idle hpc
      obtain ⟨p, hp, hview⟩ := rpmemCommit_view hs
      rw [hview]
      rcases hp with rfl | rfl
      · exact .stay (h.goto (m := f.main) hv hm (by simp) hmap rfl hregion
          fun hb => ⟨hb, by simp⟩)
      · exact .stay (h.goto (m := f.main) hv hm (by simp) hmap rfl hregion
          fun hb => ⟨hb, by simp⟩)

/-- The answer to OPEN has come: `rpmem_open` returns the file, or gives up. -/
theorem follows_openAfterRsp (hpc : k.pc = .waiting (.rsp .openReq)) :
    Follows f (Wait.fileLabels (decide ((rpmemOpenAfterRsp k).view.pc = .idle)) (.rsp .openReq))
      (rpmemOpenAfterRsp k).view := by
  have hpc' : k.view.pc = .waiting (.rsp .openReq) := hpc
  have hm : f.main = .waitOpen := by simpa [hpc', Pc.At] using h.main
  have hv : k.view.pc.within := hpc' ▸ Pc.within_waiting _
  have hmap : k.view.pc.mapping = false := by rw [hpc']; rfl
  have hregion := h.region (by simp [hpc'])
  obtain hview | hview := rpmemOpenAfterRsp_view k <;> rw [hview]
  · refine .one trivial ?_ (h.goto (m := .opened) hv rfl (by simp) hmap rfl hregion
      fun hb => ⟨hb, by simp⟩)
    simp [fileStep, File.mainStep, hm]
  · refine .one trivial ?_ (h.goto (m := .destroyThread) hv (.inl rfl) (by simp) hmap rfl
      hregion (by rintro ⟨⟩))
    simp [fileStep, File.mainStep, hm]

/-- The answer to MAP has come: `rpmem_map` fetches the contents, or takes its buffer back. -/
theorem follows_mapAfterRsp (hpc : k.pc = .waiting (.rsp .mapReq))
    (hs : rpmemMapAfterRsp o k = some k') :
    Follows f (Wait.fileLabels (decide (k'.view.pc = .idle)) (.rsp .mapReq)) k'.view := by
  have hpc' : k.view.pc = .waiting (.rsp .mapReq) := hpc
  have hm := h.of_waiting hpc (by simp)
  have hv : k.view.pc.within := hpc' ▸ Pc.within_waiting _
  obtain ⟨id, l, hmr, hlive, hlen⟩ := h.mapping (by rw [hpc']; rfl)
  obtain ⟨id', hmr', hview | hview⟩ := rpmemMapAfterRsp_view hs <;> rw [hview]
  · exact .stay ⟨hm, by rintro ⟨⟩, fun _ => h.state hv.2, fun _ _ => h.listens hv.1 hv.2,
      fun _ => ⟨by simp, by simp⟩, fun _ => h.region (by simp [hpc']), by rintro ⟨⟩, h.nodup,
      h.below,
      fun _ => ⟨id, l, hmr, hlive, hlen⟩, by rintro ⟨⟩⟩
  · -- the label `destroy_mr`
    obtain rfl : id = id' := Option.some.inj (hmr.symm.trans hmr')
    have hback : k.live.erase id = l := by
      rw [show k.live = id :: l from hlive, List.erase_cons_head]
    have hnodup := h.nodup
    rw [hlive, List.nodup_cons] at hnodup
    refine .one trivial (by simp [fileStep, hm]) (h.mapReturns hv hm (m := .laterFails)
      (h.nodup.erase id) (fun i hi => h.below i (List.mem_of_mem_erase hi))
      ((congrArg List.length hback).trans hlen) ?_)
    rw [hmr, hback, f.named_rpmemMap]
    simpa using hnodup.1

/-- `sem_wait` has returned. -/
theorem follows_resume {w : Wait} (hpc : k.pc = .waiting w) (hs : k.resume o w = some k') :
    Follows f (w.fileLabels (decide (k'.pc = .idle))) k'.view := by
  have hpc' : k.view.pc = .waiting w := hpc
  have hv : k.view.pc.within := hpc' ▸ Pc.within_waiting _
  match w with
  | .rsp .openReq =>
      obtain rfl := Option.some.inj hs
      exact follows_openAfterRsp h hpc
  | .rsp .mapReq => exact follows_mapAfterRsp h hpc hs
  | .rsp .closeReq =>
      obtain rfl := Option.some.inj hs
      have hm := h.of_waiting hpc (by simp)
      have hnext := h.goto (p := .finished) (m := .closing .cancelCm) (b := false) hv (.inr rfl)
        (by simp) (by rw [hpc']; rfl) rfl (h.region (by simp [hpc'])) (by rintro ⟨⟩)
      exact .one trivial (by simp [fileStep, hm]) hnext
  | .rsp .commitReq =>
      obtain rfl := Option.some.inj hs
      exact .stay (h.goto (p := .idle) (m := f.main) hv (h.of_waiting hpc (by simp)) (by simp)
        (by rw [hpc']; rfl) rfl (h.region (by simp [hpc'])) fun hb => ⟨hb, by simp⟩)
  | .rsp .unmapReq =>
      have hm := h.of_waiting hpc (by simp)
      obtain ⟨id, hmr, rfl⟩ := Option.map_eq_some_iff.1 hs
      have hnext := h.unmapReturns hv hm (by rw [hpc']; rfl) hmr
      rw [← h.unmapping hpc] at hnext
      exact .one trivial (by simp [fileStep, hm]) hnext
  | .read =>
      obtain rfl := Option.some.inj hs
      have hm := h.of_waiting hpc (by simp)
      obtain ⟨id, l, hmr, hlive, hlen⟩ := h.mapping (by rw [hpc']; rfl)
      have hlength : k.view.live.length = f.regions + 1 := by rw [hlive, List.length_cons, hlen]
      have hnamed : (f.rpmemMap .mapped).book.live .regionMr = true ↔
          ∃ id, k.view.mr = some id ∧ id ∈ k.view.live := by
        simp [f.named_rpmemMap, hmr, hlive]
      exact .one trivial (by simp [fileStep, hm])
        (h.mapReturns hv hm (m := .mapped) h.nodup h.below hlength hnamed)

/-- **A wake-up**, to the next wait or the return of the call. -/
theorem follows_wake {c : ConnId} (hs : k.wake o = some k') :
    Follows f ((Action.wake c o).fileLabels k k') k'.view := by
  obtain ⟨w, tok, sem, hpc, -, hs⟩ := Client.wake_cases hs
  simp only [Action.fileLabels, hpc]
  exact follows_resume (k := { k with sem := sem }) h hpc hs

/-- **A disconnection**: `cm_thread` handles it and ends, unless it has ended already. -/
theorem follows_cmEvent {c : ConnId} (hcm : k.cmPending = true) :
    Follows f ((Action.cmEvent c).fileLabels k (rpmemCmaDisconnected k))
      (rpmemCmaDisconnected k).view := by
  obtain ⟨hun, hfin⟩ := h.pending hcm
  obtain ⟨hphase, ⟨hup, hwait⟩ | ⟨hdown, hgone⟩⟩ := h.listens hun hfin
  · have hstate : k.state = .established := hup
    simp only [Action.fileLabels, if_pos hstate]
    refine ⟨_, .cons (t := { f with cm := .handling .disconnected, unacked := f.unacked + 1 }) ?_ ?_
      (.cons trivial rfl (.cons trivial rfl (.nil _))), ?_⟩
    · simp [EventsInOrder, hphase, CmPhase.events]
    · simp [fileStep, hwait]
    · exact ⟨h.main, fun hu => absurd hu hun, fun _ => rfl, fun _ _ => ⟨hphase, .inr ⟨rfl, rfl⟩⟩,
        by rintro ⟨⟩, h.region, h.unmapping, h.nodup, h.below, h.mapping, h.held⟩
  · have hstate : k.state ≠ .established := by
      rw [show k.state = .disconnected from hdown]
      simp
    simp only [Action.fileLabels, if_neg hstate]
    exact .stay ⟨h.main, fun hu => absurd hu hun, fun _ => (h.state hfin).trans hdown,
      fun _ _ => ⟨hphase, .inr ⟨rfl, hgone⟩⟩, by rintro ⟨⟩, h.region, h.unmapping, h.nodup, h.below,
      h.mapping, h.held⟩

/-- **The connection is set up, or refused.** -/
theorem follows_connect (c : ConnId) (accepted established : Bool) (hpc : k.pc = .unopened)
    (hk' : k' = if accepted && established then
      { k with pc := .connected, state := .established } else k.destroy (.opened false)) :
    Follows f ((Action.connect c accepted established).fileLabels k k') k'.view := by
  obtain rfl := h.unopened hpc
  simp only [Action.fileLabels]
  rw [hk']
  cases hup : accepted && established with
  | true =>
      obtain ⟨g, hrun, htest⟩ := exists_run_of_exec fileStep EventsInOrder (s := File.initial)
        (l := connecting ++ [.main true, .main true])
        (p := fun g => decide ((g.main = .postRecv ∧ g.Unmapped) ∧ g.state = .established ∧
          g.phase = .connected ∧ g.cm = .waiting)) (by decide)
      obtain ⟨⟨hm, hclean⟩, hstate, hphase, hcm⟩ := of_decide_eq_true htest
      have hlistens : g.Listens .established := ⟨hphase, .inl ⟨rfl, hcm⟩⟩
      exact ⟨g, hrun, h.connects hpc hm (.inl rfl) (fun _ => ⟨hstate, hlistens⟩) hclean
        fun _ => by simp⟩
  | false =>
      obtain ⟨g, hrun, htest⟩ := exists_run_of_exec fileStep EventsInOrder (s := File.initial)
        (l := refusing accepted)
        (p := fun g => decide (g.main = .destroyThread ∧ g.Unmapped)) (by cases accepted <;> decide)
      obtain ⟨hm, hclean⟩ := of_decide_eq_true htest
      exact ⟨g, hrun, h.connects hpc (.inl hm) (.inr rfl) (fun hf => absurd rfl hf) hclean
        (by rintro ⟨⟩)⟩

end Calls

/-- **One action**, of any connection. -/
theorem fileLabels_follows {c : ConnId} {s t : System} {a : Action} (hst : s.Stepped a t)
    (h : (s.clients c).view.InFile f) : Follows f (fileLabels c s a t) (t.clients c).view := by
  by_cases hc : a.conn = c
  · subst hc
    rw [fileLabels, if_pos rfl]
    cases hst with
    | connected c accepted established hpc hnew =>
        exact follows_connect h c accepted established hpc (Function.update_self _ _ _)
    | called c api o k hk =>
        simp only [Action.conn, System.setClient, Function.update_self] at hk ⊢
        exact follows_call h hk
    | woken c o k hk =>
        simp only [Action.conn, System.setClient, Function.update_self] at hk ⊢
        exact follows_wake h hk
    | cmHandled c hcm =>
        simp only [Action.conn, System.setClient, Function.update_self]
        exact follows_cmEvent h hcm
    | written c g k hk =>
        simp only [Action.conn, System.setClient, Function.update_self] at hk ⊢
        exact .stay (Client.write_view hk ▸ h)
    | polled c k hk =>
        simp only [Action.conn, System.setClient, Function.update_self] at hk ⊢
        exact .stay (Client.poll_view hk ▸ h)
    | disconnected c hpc =>
        simp only [Action.conn, System.setClient, Function.update_self]
        exact .stay { h with pending := fun _ => hpc }
    | sent | fetched | stored | failed | flushed | recvFlushed | delivered =>
        simp only [Action.conn, System.setClient, Function.update_self]
        exact .stay h
    | handled | lost => exact .stay h
  · rw [fileLabels, if_neg hc, (System.step_frame hst (Ne.symm hc)).1]
    exact .stay h

/-- **Every run of clients and server is a run of the file of each client.**  Over any
interleaving, any failures and any outcomes of the calls, the labels of one connection make a run
of its file with the events of the connection manager in order.  The file is where the client is;
`state` is the same until the teardown, and what the application knows of its region, but for the
time `rpmem_unmap` takes.  Outside `rpmem_map` the adapter holds as many registrations for the
client as the ledger has, named and lost, and `mr` names a live one if the ledger says so. -/
theorem client_runs_are_file_runs {c : ConnId} {q : System × List FileLabel}
    (h : Reachable (noted System.step (translation (fileLabels c))) anyLabel
      (fun q => q.1.Initial ∧ q.2 = []) q) :
    ∃ f, Run fileStep EventsInOrder File.initial q.2 f ∧
      (q.1.clients c).pc.At f.main ∧
      ((q.1.clients c).pc ≠ .finished → f.state = (q.1.clients c).state) ∧
      ((q.1.clients c).pc ≠ .waiting (.rsp .unmapReq) → f.region = (q.1.clients c).region) ∧
      ((q.1.clients c).pc.mapping = false →
        (q.1.clients c).live.length = f.regions ∧
        (f.book.live .regionMr = true ↔
          ∃ id, (q.1.clients c).mr = some id ∧ id ∈ (q.1.clients c).live)) := by
  obtain ⟨f, hrun, hf⟩ : Follows File.initial q.2 (q.1.clients c).view := by
    refine h.simulates (R := fun s f => (s.clients c).view.InFile f) ?_ ?_
    · exact fun s hs => hs.clients c ▸ ClientView.InFile.fresh
    · exact fun s a t f hf hst => fileLabels_follows (System.step_cases hst) hf
  exact ⟨f, hrun, hf.main, hf.state, hf.region, hf.held⟩

/-- A client maps its file and then again; the second time `rpmem_post_send` fails.  The first
registration is still there, and no pointer names it. -/
theorem client_runs_are_file_runs_remapped :
    ∃ q : System × List FileLabel,
      Reachable (noted System.step (translation (fileLabels 0))) anyLabel
        (fun q => q.1.Initial ∧ q.2 = []) q ∧
      (q.1.clients 0).pc = .idle ∧ (q.1.clients 0).live = [0] ∧
      ∃ f, Run fileStep EventsInOrder File.initial q.2 f ∧ f.main = .opened ∧ f.regions = 1 ∧
        f.book.live .regionMr = false := by
  obtain ⟨q, hq, htest⟩ := exists_reachable_of_exec
    (noted System.step (translation (fileLabels 0))) anyLabel (fun q => q.1.Initial ∧ q.2 = [])
    (s := (System.main ⟨0, 8192, none, 0, 0⟩ Host.blank, [])) ⟨System.main_initial _ _ rfl, rfl⟩
    (System.opens 0 ++ System.maps 0 4096 0x7f0000000000 17 ++
      [.call 0 (.rpmemMap 4096) { ClientOutcomes.allOk with postSend := false }])
    (fun q => decide ((q.1.clients 0).pc = .idle ∧ (q.1.clients 0).live = [0] ∧
      (q.1.clients 0).mr = some 1)) (by decide)
  obtain ⟨hpc, hlive, hmr⟩ := of_decide_eq_true htest
  obtain ⟨f, hrun, hm, -, -, hheld⟩ := client_runs_are_file_runs hq
  rw [hpc] at hm hheld
  obtain ⟨hlen, hnamed⟩ := hheld rfl
  rw [hlive] at hlen
  refine ⟨q, hq, hpc, hlive, f, hrun, hm, hlen.symm, ?_⟩
  rw [← Bool.not_eq_true, hnamed, hlive, hmr]
  simp

end Rpmem
