/-
# How the server starts and stops

`main` acquires the resource file, the locks, the event channel, the listening
id and `cm_thread` one after the other, and its labels give back, in the reverse
order, what there is at the call that failed.  Whatever fails, when it returns
`1` it has released each of the objects it has a pointer to, the thread aside,
which it only asks to end; when it returns `0` it has released none.

Two things can still go wrong on the way.  The two strings of `in` are freed
whether or not an option has set them, so without `-a` or `-r`, and with a wrong
argument or `-h` before `-a`, what was on the stack is freed; and a string set
twice is lost, with no pointer left to it.  And the channel and the mutex go
while `cm_thread` may still be using them.  In the runs where none of this
happens (`Tidy`: `-a` and `-r` once each, nothing besides but `-p`) nothing is
released wrongly or lost; a `strdup` that fails does no harm.
-/

import Rpmem.Lifecycle.Listener

namespace Rpmem

open Ledger

/-- The objects of `main` but the strings of `in` and the thread, the last one acquired first. -/
def serverObjs : List MainObj := [.cmaId, .cmaChannel, .semConnect, .connsMutex, .resLock, .fd]

/-- Those there are at each point of `main`. -/
def ServerPc.held : ServerPc → List MainObj
  | .processInargs | .openRes | .out | .exits _ | .returned (_ + 1) => []
  | .fstat | .blkSize | .initServer | .closeFd => [.fd]
  | .createEventChannel | .freeInargs => [.semConnect, .connsMutex, .resLock, .fd]
  | .createId | .destroyEventChannel => [.cmaChannel, .semConnect, .connsMutex, .resLock, .fd]
  | .createThread | .destroyId | .getAddr | .bindAddr | .listen | .join | .destroyThread
  | .returned 0 => serverObjs

/-- `cm_thread` is there. -/
def ListenPc.running : ListenPc → Bool
  | .absent | .exited => false
  | .waiting | .handling _ | .setup _ | .acking => true

/-- What `main` holds, whatever has happened. -/
structure Process.MainInv (s : Process) : Prop where
  live : ∀ x ∈ serverObjs, s.book.live x = decide (x ∈ s.main.held)
  thread : s.book.live .cmThread = s.cm.running
  strings : s.main = .returned 1 → ∀ x ∈ [MainObj.resource, .serverAddr], s.book.live x = false
  joined : s.main = .returned 0 → s.cm = .exited
  code : ∀ n, s.main = .returned n → n ≤ 1

namespace Process.MainInv

variable {s t : Process}

theorem initial (junk : MainObj → Bool) (blk : Bool) : (Process.initial junk blk).MainInv :=
  ⟨fun _ _ => rfl, rfl, by rintro ⟨⟩, by rintro ⟨⟩, by rintro n ⟨⟩⟩

/-- `main` goes from one place to another. -/
theorem goto (h : s.MainInv) {m : ServerPc} {b : Book MainObj} {c : Bool}
    (hlive : ∀ x ∈ serverObjs, b.live x = decide (x ∈ m.held))
    (hthread : b.live .cmThread = s.book.live .cmThread) (hm : ∀ n, m ≠ .returned n) :
    { s with main := m, book := b, cancelled := c }.MainInv :=
  ⟨hlive, hthread.trans h.thread, fun he => absurd he (hm 1), fun he => absurd he (hm 0),
    fun n he => absurd he (hm n)⟩

/-- `main` acquires and releases nothing. -/
theorem move (h : s.MainInv) {m : ServerPc} {c : Bool} (hheld : m.held = s.main.held)
    (hm : ∀ n, m ≠ .returned n) : { s with main := m, cancelled := c }.MainInv :=
  h.goto (fun x hx => by rw [h.live x hx, hheld]) rfl hm

theorem acquire (h : s.MainInv) {x : MainObj} {m : ServerPc} (hx : x ≠ .cmThread)
    (hheld : m.held = x :: s.main.held) (hm : ∀ n, m ≠ .returned n) :
    { s with book := s.book.acquire x, main := m }.MainInv := by
  refine h.goto (fun y hy => ?_) (by simp [hx.symm]) hm
  rw [Book.live_acquire, hheld]
  split
  next hyx => simp [hyx]
  next hyx => simp [hyx, h.live y hy]

theorem release (h : s.MainInv) {x : MainObj} {m : ServerPc} (hx : x ≠ .cmThread)
    (hheld : s.main.held = x :: m.held) (hn : x ∉ m.held) (hm : ∀ n, m ≠ .returned n) :
    { s with book := s.book.release MainObj.users x, main := m }.MainInv := by
  refine h.goto (fun y hy => ?_) (by simp [hx.symm]) hm
  rw [Book.live_release]
  split
  next hyx => simp [hyx, hn]
  next hyx => simp [hyx, h.live y hy, hheld]

/-- `free` of a string leaves the other objects. -/
theorem live_freeArg (x : MainObj) {y : MainObj} (hy : y ≠ x) :
    (s.freeArg x).book.live y = s.book.live y := by
  unfold Process.freeArg
  split
  · simp [hy]
  · rfl

/-- Freed, set or not, a string is there no more. -/
theorem live_freeArg_self (x : MainObj) : (s.freeArg x).book.live x = false := by
  unfold Process.freeArg
  split
  · simp
  next hno => simp_all

theorem mainStep (h : s.MainInv) {ok : Bool} (hs : s.mainStep ok = some t) : t.MainInv := by
  unfold Process.mainStep at hs
  cases hm : s.main with
  | processInargs | returned | exits => simp [hm] at hs
  | openRes | createEventChannel | createId =>
      simp only [hm, Process.mainAcquire] at hs
      cases ok <;> cases hs
      · exact h.move (by rw [hm]; rfl) (by simp)
      · exact h.acquire (by simp) (by rw [hm]; rfl) (by simp)
  | fstat =>
      simp only [hm] at hs
      cases hs
      refine h.move ?_ ?_
      · rw [hm]
        split_ifs <;> rfl
      · split_ifs <;> simp
  | blkSize | getAddr | bindAddr | listen =>
      simp only [hm] at hs
      cases ok <;> cases hs <;> exact h.move (by rw [hm]; rfl) (by simp)
  | initServer =>
      simp only [hm] at hs
      cases hs
      have hlive := h.live
      rw [hm] at hlive
      refine h.goto (fun x hx => ?_) (by simp) (by simp)
      have hxl := hlive x hx
      cases x <;> simp_all [ServerPc.held]
  | createThread =>
      simp only [hm] at hs
      cases ok <;> cases hs
      · exact h.move (by rw [hm]; rfl) (by simp)
      · refine ⟨fun x hx => ?_, by simp [ListenPc.running], by rintro ⟨⟩, by rintro ⟨⟩,
          by rintro n ⟨⟩⟩
        have hne : x ≠ .cmThread := fun he => by simp [he, serverObjs] at hx
        have hxl := h.live x hx
        rw [hm] at hxl
        have hkeep : (s.book.acquire .cmThread).live x = s.book.live x := by simp [hne]
        exact hkeep.trans hxl
  | join =>
      simp only [hm] at hs
      obtain ⟨hex, ⟨⟩⟩ := Option.ite_none_right_eq_some.1 hs
      refine ⟨fun x hx => ?_, h.thread, by rintro ⟨⟩, fun _ => hex, ?_⟩
      · rw [h.live x hx, hm]
        rfl
      · rintro n ⟨⟩
        omega
  | destroyThread =>
      simp only [hm] at hs
      cases hs
      exact h.move (by rw [hm]; rfl) (by simp)
  | destroyId | destroyEventChannel | closeFd =>
      simp only [hm, Process.mainRelease] at hs
      cases hs
      exact h.release (by simp) (by rw [hm]; rfl) (by simp [ServerPc.held]) (by simp)
  | freeInargs =>
      simp only [hm] at hs
      cases hs
      have hlive := h.live
      rw [hm] at hlive
      refine h.goto (fun x hx => ?_) (by simp) (by simp)
      have hxl := hlive x hx
      cases x <;> simp_all [ServerPc.held]
  | out =>
      simp only [hm] at hs
      cases hs
      have hlive := h.live
      rw [hm] at hlive
      have hboth {x : MainObj} (h₁ : x ≠ .resource) (h₂ : x ≠ .serverAddr) :
          ((s.freeArg .resource).freeArg .serverAddr).book.live x = s.book.live x :=
        (live_freeArg _ h₂).trans (live_freeArg _ h₁)
      have hcm : ((s.freeArg .resource).freeArg .serverAddr).cm = s.cm := by
        obtain ⟨b, hb⟩ := s.freeArg_eq .resource
        obtain ⟨b', hb'⟩ := (s.freeArg .resource).freeArg_eq .serverAddr
        rw [hb', hb]
      refine ⟨fun x hx => ?_, ?_, fun _ x hx => ?_, by rintro ⟨⟩, ?_⟩
      · have h₁ : x ≠ .resource := fun he => by simp [he, serverObjs] at hx
        have h₂ : x ≠ .serverAddr := fun he => by simp [he, serverObjs] at hx
        exact (hboth h₁ h₂).trans (hlive x hx)
      · exact (hboth (by simp) (by simp)).trans (h.thread.trans (congrArg _ hcm.symm))
      · simp only [List.mem_cons, List.not_mem_nil, or_false] at hx
        rcases hx with rfl | rfl
        · exact (live_freeArg _ (by simp)).trans (live_freeArg_self _)
        · exact live_freeArg_self _
      · rintro n ⟨⟩
        omega

/-- `process_inargs` touches the two strings only. -/
theorem processInargs_live (extra : Bool) (opts : List Opt) {x : MainObj} (hx : x ≠ .resource)
    (hx' : x ≠ .serverAddr) : (s.processInargs extra opts).book.live x = s.book.live x := by
  have hdup (s : Process) (y : MainObj) (hy : x ≠ y) (ok : Bool) :
      (s.strdup y ok).book.live x = s.book.live x := by
    cases ok <;> simp [Process.strdup, hy]
  induction opts generalizing s with
  | nil =>
      rw [Process.processInargs]
      split
      · exact live_freeArg _ hx'
      · rfl
  | cons o opts ih =>
      cases o with
      | addr ok => exact ih.trans (hdup s _ hx' ok)
      | resource ok => exact ih.trans (hdup s _ hx ok)
      | port => exact ih
      | help => exact live_freeArg _ hx'
      | invalid => exact live_freeArg _ hx'

theorem processInargs (h : s.MainInv) (extra : Bool) (opts : List Opt)
    (hm : s.main = .processInargs) : (s.processInargs extra opts).MainInv := by
  have hlive {x : MainObj} := processInargs_live (s := s) (x := x) extra opts
  obtain ⟨b, j, m, heq, hm'⟩ := s.processInargs_eq extra opts
  rw [heq] at hlive ⊢
  have hheld : m.held = [] := by
    rcases hm' with rfl | ⟨code, rfl⟩ <;> rfl
  have hnot (n : ℕ) : m ≠ .returned n := by
    rcases hm' with rfl | ⟨code, rfl⟩ <;> simp
  refine ⟨fun x hx => ?_, (hlive (by simp) (by simp)).trans h.thread, fun he => absurd he (hnot 1),
    fun he => absurd he (hnot 0), fun n he => absurd he (hnot n)⟩
  have h₁ : x ≠ .resource := fun he => by simp [he, serverObjs] at hx
  have h₂ : x ≠ .serverAddr := fun he => by simp [he, serverObjs] at hx
  rw [hlive h₁ h₂, h.live x hx, hm, hheld]
  rfl

/-- `cm_thread` goes on. -/
theorem cm (h : s.MainInv) (hmain : t.main = s.main) (hbook : t.book = s.book)
    (hrun : t.cm.running = s.cm.running) (hex : s.cm = .exited → t.cm = .exited) : t.MainInv := by
  refine ⟨?_, ?_, ?_, ?_, ?_⟩
  · rw [hmain, hbook]
    exact h.live
  · rw [hbook, hrun]
    exact h.thread
  · rw [hmain, hbook]
    exact h.strings
  · rw [hmain]
    exact fun he => hex (h.joined he)
  · rw [hmain]
    exact h.code

theorem cmExit (h : s.MainInv) : s.cmExit.MainInv := by
  refine ⟨fun x hx => ?_, by simp [Process.cmExit, ListenPc.running], fun he x hx => ?_,
    fun _ => rfl, h.code⟩
  · have hne : x ≠ .cmThread := fun he => by simp [he, serverObjs] at hx
    have hkeep : s.cmExit.book.live x = s.book.live x := by simp [Process.cmExit, hne]
    exact hkeep.trans (h.live x hx)
  · have hne : x ≠ .cmThread := fun he => by simp [he] at hx
    have hkeep : s.cmExit.book.live x = s.book.live x := by simp [Process.cmExit, hne]
    exact hkeep.trans (h.strings he x hx)

theorem step (h : s.MainInv) {a : ServerLabel} (hs : processStep s a = some t) : t.MainInv := by
  cases (processStep_cases hs).2 with
  | inargs opts extra hm => exact h.processInargs extra opts hm
  | main ok _ hmain => exact h.mainStep hmain
  | gotEvent ev hcm => exact h.cm rfl rfl (by rw [hcm]; rfl) (by simp [hcm])
  | getEventFailed | cancelled => exact h.cmExit
  | handled ok ev hcm =>
      cases ev <;> exact h.cm rfl rfl (by rw [hcm]; rfl) (by simp [hcm])
  | setUp ok p hcm =>
      cases p <;> cases ok <;> exact h.cm rfl rfl (by rw [hcm]; rfl) (by simp [hcm])
  | acked ok hcm => exact h.cm rfl rfl (by rw [hcm]; rfl) (by simp [hcm])
  | cqExited i hi => exact h.cm rfl rfl rfl id

end Process.MainInv

/-! ### Tidy runs -/

/-- Both strings are set once, or their `strdup` fails. -/
def setsBoth : List Opt → Bool
  | [.addr _, .resource _] | [.resource _, .addr _] => true
  | _ => false

/-- The command line is `-a` and `-r` once each, any number of `-p` and nothing else, and
`cm_thread` has ended when its channel goes. -/
def Tidy (s : Process) : ServerLabel → Prop
  | .inargs opts extra => extra = false ∧ setsBoth (opts.filter (· ≠ .port)) = true
  | .main _ => s.main = .destroyEventChannel → s.book.live .cmThread = false
  | .getEvent _ | .getEventFails | .cm _ | .cmCancelled | .cqExit _ => True

instance (s : Process) (a : ServerLabel) : Decidable (Tidy s a) :=
  match a with
  | .inargs opts extra =>
      inferInstanceAs (Decidable (extra = false ∧ setsBoth (opts.filter (· ≠ .port)) = true))
  | .main _ =>
      inferInstanceAs (Decidable (s.main = .destroyEventChannel → s.book.live .cmThread = false))
  | .getEvent _ | .getEventFails | .cm _ | .cmCancelled | .cqExit _ =>
      inferInstanceAs (Decidable True)

/-- The channel is gone. -/
def ServerPc.late : ServerPc → Bool
  | .freeInargs | .closeFd | .out | .returned (_ + 1) => true
  | _ => false

/-- `in` is set, and what it names is there or `NULL`. -/
def ServerPc.named : ServerPc → Bool
  | .processInargs | .exits _ | .returned (_ + 1) => false
  | _ => true

/-- What holds of a tidy run. -/
structure Process.TidyInv (s : Process) : Prop where
  lost : s.book.lost = []
  misused : s.book.misused = []
  start : s.main = .processInargs → s.book = Book.empty
  strings : s.main.named = true → ∀ x ∈ [MainObj.resource, .serverAddr], s.junk x = false
  gone : s.main.late = true → s.book.live .cmThread = false

namespace Process.TidyInv

variable {s t : Process}

theorem initial (junk : MainObj → Bool) (blk : Bool) : (Process.initial junk blk).TidyInv :=
  ⟨rfl, rfl, fun _ => rfl, by rintro ⟨⟩, by rintro ⟨⟩⟩

/-- `main` acquires and releases nothing. -/
theorem move (h : s.TidyInv) {m : ServerPc} {c : Bool} (hm : m ≠ .processInargs)
    (hnamed : m.named = true → s.main.named = true)
    (hgone : m.late = true → s.book.live .cmThread = false) :
    { s with main := m, cancelled := c }.TidyInv :=
  ⟨h.lost, h.misused, fun he => absurd he hm, fun he => h.strings (hnamed he), hgone⟩

/-- `main` acquires an object that is not there. -/
theorem acquire (h : s.TidyInv) {x : MainObj} {m : ServerPc} (hx : s.book.live x = false)
    (hs : s.main.named = true) (hm : m ≠ .processInargs) (hlate : m.late = false) :
    { s with book := s.book.acquire x, main := m }.TidyInv := by
  refine ⟨(Book.lost_acquire hx).trans h.lost, h.misused, fun he => absurd he hm,
    fun _ => h.strings hs, fun he => ?_⟩
  rw [hlate] at he
  cases he

/-- `main` releases an object that is there and that nothing uses. -/
theorem release (h : s.TidyInv) {x : MainObj} {m : ServerPc} (hx : s.book.live x = true)
    (hu : ∀ y ∈ x.users, s.book.live y = false) (hs : s.main.named = true)
    (hm : m ≠ .processInargs)
    (hgone : m.late = true → s.book.live .cmThread = false) :
    { s with book := s.book.release MainObj.users x, main := m }.TidyInv := by
  refine ⟨h.lost, ?_, fun he => absurd he hm, fun _ => h.strings hs, fun he => ?_⟩
  · exact (Book.misused_release hx (Book.inUse_eq_false h.lost hu)).trans h.misused
  · simp [hgone he]

/-- Freeing a string that is set or `NULL` is right. -/
theorem freeArg (hlost : s.book.lost = []) (hmis : s.book.misused = []) {x : MainObj}
    (hx : s.junk x = false) (hu : x.users = []) :
    (s.freeArg x).book.lost = [] ∧ (s.freeArg x).book.misused = [] ∧
      (s.freeArg x).junk = s.junk ∧
      ∀ y, s.book.live y = false → (s.freeArg x).book.live y = false := by
  unfold Process.freeArg
  split
  next hset =>
    have hlive : s.book.live x = true := by simpa [hx] using hset
    refine ⟨hlost, ?_, rfl, fun y hy => by simp [hy]⟩
    exact (Book.misused_release hlive (Book.inUse_eq_false hlost (by simp [hu]))).trans hmis
  next => exact ⟨hlost, hmis, rfl, fun _ => id⟩

theorem mainStep (h : s.TidyInv) (hm : s.MainInv) (hearly : s.main.early = true → s.cm = .absent)
    {ok : Bool} (hok : Tidy s (.main ok)) (hs : s.mainStep ok = some t) : t.TidyInv := by
  have hthread (he : s.main.early = true) : s.book.live .cmThread = false := by
    rw [hm.thread, hearly he]
    rfl
  have hlive := hm.live
  unfold Process.mainStep at hs
  cases hpc : s.main with
  | processInargs | returned | exits => simp [hpc] at hs
  | openRes | createEventChannel | createId =>
      rw [hpc] at hlive hthread
      simp only [hpc, Process.mainAcquire] at hs
      cases ok <;> cases hs
      · exact h.move (by simp) (fun _ => by rw [hpc]; rfl) fun _ => hthread rfl
      · exact h.acquire (hlive _ (by simp [serverObjs])) (by rw [hpc]; rfl) (by simp) rfl
  | fstat =>
      rw [hpc] at hthread
      simp only [hpc] at hs
      cases hs
      refine h.move ?_ (fun _ => by rw [hpc]; rfl) fun _ => hthread rfl
      split_ifs <;> simp
  | blkSize =>
      rw [hpc] at hthread
      simp only [hpc] at hs
      cases ok <;> cases hs <;>
        exact h.move (by simp) (fun _ => by rw [hpc]; rfl) fun _ => hthread rfl
  | getAddr | bindAddr | listen | destroyThread =>
      simp only [hpc] at hs
      cases ok <;> cases hs <;> exact h.move (by simp) (fun _ => by rw [hpc]; rfl) (by rintro ⟨⟩)
  | initServer =>
      rw [hpc] at hlive
      simp only [hpc] at hs
      cases hs
      have hlock : s.book.live .resLock = false := hlive _ (by simp [serverObjs])
      have hmutex : s.book.live .connsMutex = false := hlive _ (by simp [serverObjs])
      have hsem : s.book.live .semConnect = false := hlive _ (by simp [serverObjs])
      have h₁ := h.acquire (m := .initServer) hlock (by rw [hpc]; rfl) (by simp) rfl
      have h₂ :=
        h₁.acquire (x := .connsMutex) (m := .initServer) (by simp [hmutex]) rfl (by simp) rfl
      exact h₂.acquire (x := .semConnect) (m := .createEventChannel) (by simp [hsem]) rfl (by simp)
        rfl
  | createThread =>
      rw [hpc] at hthread
      simp only [hpc] at hs
      cases ok <;> cases hs
      · exact h.move (by simp) (fun _ => by rw [hpc]; rfl) (by rintro ⟨⟩)
      · have h' := h.acquire (m := .getAddr) (hthread rfl) (by rw [hpc]; rfl) (by simp) rfl
        exact ⟨h'.lost, h'.misused, h'.start, h'.strings, h'.gone⟩
  | join =>
      simp only [hpc] at hs
      obtain ⟨hex, ⟨⟩⟩ := Option.ite_none_right_eq_some.1 hs
      exact h.move (by simp) (fun _ => by rw [hpc]; rfl) (by rintro ⟨⟩)
  | destroyId =>
      rw [hpc] at hlive
      simp only [hpc, Process.mainRelease] at hs
      cases hs
      exact h.release (hlive _ (by simp [serverObjs])) (by simp [MainObj.users]) (by rw [hpc]; rfl)
        (by simp) (by rintro ⟨⟩)
  | destroyEventChannel =>
      rw [hpc] at hlive
      simp only [hpc, Process.mainRelease] at hs
      cases hs
      have hgone := hok hpc
      refine h.release (hlive _ (by simp [serverObjs])) ?_ (by rw [hpc]; rfl) (by simp)
        fun _ => hgone
      have hid : s.book.live .cmaId = false := hlive .cmaId (by simp [serverObjs])
      simp [MainObj.users, hgone, hid]
  | freeInargs =>
      rw [hpc] at hlive
      simp only [hpc] at hs
      cases hs
      have hgone := h.gone (by rw [hpc]; rfl)
      have hsem : s.book.live .semConnect = true := hlive _ (by simp [serverObjs])
      have hmutex : s.book.live .connsMutex = true := hlive _ (by simp [serverObjs])
      have hlock : s.book.live .resLock = true := hlive _ (by simp [serverObjs])
      have h₁ := h.release (m := .freeInargs) hsem (by simp [MainObj.users]) (by rw [hpc]; rfl)
        (by simp) fun _ => hgone
      have h₂ := h₁.release (x := .connsMutex) (m := .freeInargs) (by simp [hmutex])
        (by simp [MainObj.users, hgone]) rfl (by simp) fun _ => by simp [hgone]
      exact h₂.release (x := .resLock) (m := .closeFd) (by simp [hlock]) (by simp [MainObj.users])
        rfl (by simp) fun _ => by simp [hgone]
  | closeFd =>
      rw [hpc] at hlive
      simp only [hpc, Process.mainRelease] at hs
      cases hs
      exact h.release (hlive _ (by simp [serverObjs])) (by simp [MainObj.users]) (by rw [hpc]; rfl)
        (by simp) fun _ => h.gone (by rw [hpc]; rfl)
  | out =>
      simp only [hpc] at hs
      cases hs
      have hstr := h.strings (by rw [hpc]; rfl)
      obtain ⟨hlost, hmis, hjunk, hlive⟩ :=
        freeArg h.lost h.misused (hstr .resource (by simp)) rfl
      have haddr : (s.freeArg .resource).junk .serverAddr = false := by
        rw [hjunk]
        exact hstr .serverAddr (by simp)
      obtain ⟨hlost', hmis', -, hlive'⟩ := freeArg hlost hmis haddr rfl
      exact ⟨hlost', hmis', by rintro ⟨⟩, by rintro ⟨⟩,
        fun _ => hlive' _ (hlive _ (h.gone (by rw [hpc]; rfl)))⟩

/-- The port is nothing to be freed. -/
theorem processInargs_filter (extra : Bool) (opts : List Opt) :
    s.processInargs extra opts = s.processInargs extra (opts.filter (· ≠ .port)) := by
  induction opts generalizing s with
  | nil => rfl
  | cons o opts ih =>
      cases o with
      | port => exact ih
      | addr ok => exact ih
      | resource ok => exact ih
      | help => rfl
      | invalid => rfl

theorem processInargs (h : s.TidyInv) {extra : Bool} {opts : List Opt}
    (hok : Tidy s (.inargs opts extra)) (hm : s.main = .processInargs) :
    (s.processInargs extra opts).TidyInv := by
  obtain ⟨rfl, hopts⟩ := hok
  have hbook := h.start hm
  rw [processInargs_filter]
  unfold setsBoth at hopts
  split at hopts
  case h_3 => cases hopts
  all_goals
    rename_i ok ok' heq
    rw [heq]
    refine ⟨?_, ?_, by rintro ⟨⟩, fun _ x hx => ?_, by rintro ⟨⟩⟩
    · cases ok <;> cases ok' <;>
        simp [Process.processInargs, Process.strdup, hbook, Book.lost_acquire, Book.forget,
          Book.empty]
    · cases ok <;> cases ok' <;>
        simp [Process.processInargs, Process.strdup, hbook, Book.forget, Book.empty]
    · simp only [List.mem_cons, List.not_mem_nil, or_false] at hx
      rcases hx with rfl | rfl <;> simp [Process.processInargs, Process.strdup]

/-- `cm_thread` goes on. -/
theorem cm (h : s.TidyInv) (hmain : t.main = s.main) (hbook : t.book = s.book)
    (hjunk : t.junk = s.junk) : t.TidyInv := by
  obtain ⟨hlost, hmis, hstart, hstr, hgone⟩ := h
  refine ⟨hbook ▸ hlost, hbook ▸ hmis, ?_, ?_, ?_⟩
  · rwa [hmain, hbook]
  · rwa [hmain, hjunk]
  · rwa [hmain, hbook]

/-- `cm_thread` ends: nothing uses a thread. -/
theorem cmExit (h : s.TidyInv) (hm : s.MainInv) (hearly : s.main.early = true → s.cm = .absent)
    (hrun : s.cm.running = true) : s.cmExit.TidyInv := by
  have hlive : s.book.live .cmThread = true := hm.thread.trans hrun
  have hfree : s.book.inUse MainObj.users .cmThread = false :=
    Book.inUse_eq_false h.lost (by simp [MainObj.users])
  refine ⟨h.lost, (Book.misused_release hlive hfree).trans h.misused,
    fun he => ?_, fun he x hx => ?_, fun _ => by simp [Process.cmExit]⟩
  · rw [hearly (by rw [show s.main = _ from he]; rfl)] at hrun
    cases hrun
  · exact h.strings he x hx

theorem step (h : s.TidyInv) (hm : s.MainInv) (hearly : s.main.early = true → s.cm = .absent)
    {a : ServerLabel} (hok : Tidy s a) (hs : processStep s a = some t) : t.TidyInv := by
  cases (processStep_cases hs).2 with
  | inargs opts extra hpc => exact h.processInargs hok hpc
  | main ok _ hmain => exact h.mainStep hm hearly hok hmain
  | getEventFailed hcm => exact h.cmExit hm hearly (by rw [hcm]; rfl)
  | cancelled hc =>
      obtain ⟨-, habs, hex⟩ := Process.of_cancellable hc
      refine h.cmExit hm hearly ?_
      cases hcm : s.cm <;> simp_all [ListenPc.running]
  | gotEvent | acked | cqExited => exact h.cm rfl rfl rfl
  | handled ok ev hcm => cases ev <;> exact h.cm rfl rfl rfl
  | setUp ok p hcm => cases p <;> cases ok <;> exact h.cm rfl rfl rfl

end Process.TidyInv

/-- **How `main` balances.**  In every run of the server process: a `main` that returns `1` has
no pointer left to an object that is there, the thread's aside, whichever of its calls failed and
whatever the command line was; one that returns `0` has seen the thread end and holds the file,
the locks, the channel and the listening id still.  In a tidy run, whether the `strdup`s succeed
or not, nothing is lost, no object is released that is not there or in use, and a `main` that
returns `1` leaves nothing. -/
theorem server_main_balances (s : Process) :
    (Lts.Reachable processStep Lts.anyLabel Process.Starts s →
      (s.main = .returned 1 → ∀ x, x ≠ .cmThread → s.book.live x = false) ∧
      (s.main = .returned 0 → s.cm = .exited ∧ ∀ x ∈ serverObjs, s.book.live x = true)) ∧
    (Lts.Reachable processStep Tidy Process.Starts s →
      s.book.lost = [] ∧ s.book.misused = [] ∧ (s.main = .returned 1 → s.book.Clear)) := by
  have hmain (h : Lts.Reachable processStep Lts.anyLabel Process.Starts s) : s.MainInv :=
    h.invariant (by rintro _ ⟨junk, blk, rfl⟩; exact .initial junk blk)
      fun _ _ _ hI _ hs => hI.step hs
  have hone (hI : s.MainInv) (hret : s.main = .returned 1) (x : MainObj) (hx : x ≠ .cmThread) :
      s.book.live x = false := by
    have hobjs := hI.live x
    have hstr := hI.strings hret x
    rw [hret] at hobjs
    cases x <;> simp_all [serverObjs, ServerPc.held]
  refine ⟨fun h => ⟨hone (hmain h), fun hret => ⟨(hmain h).joined hret, fun x hx => ?_⟩⟩,
    fun h => ?_⟩
  · rw [(hmain h).live x hx, hret]
    exact decide_eq_true hx
  · obtain ⟨hI, -, hT⟩ : s.MainInv ∧ (s.main.early = true → s.cm = .absent) ∧ s.TidyInv := by
      refine h.invariant
        (I := fun s => s.MainInv ∧ (s.main.early = true → s.cm = .absent) ∧ s.TidyInv) ?_ ?_
      · rintro _ ⟨junk, blk, rfl⟩
        exact ⟨.initial junk blk, fun _ => rfl, .initial junk blk⟩
      · rintro s a t ⟨hI, he, hT⟩ hok hs
        exact ⟨hI.step hs, processStep_early hs he, hT.step hI he hok hs⟩
    refine ⟨hT.lost, hT.misused, fun hret => ⟨fun x => ?_, hT.lost⟩⟩
    by_cases hx : x = .cmThread
    · rw [hx]
      exact hT.gone (by rw [hret]; rfl)
    · exact hone hI hret x hx

/-- The address could not be copied and is not found: the thread ends, and `main` gives everything
back.  Without `-a` what was on the stack is freed. -/
theorem server_main_balances_bind :
    (∃ s, Lts.Reachable processStep Tidy Process.Starts s ∧ s.main = .returned 1 ∧ s.book.Clear) ∧
    ∃ s, Lts.Reachable processStep Lts.anyLabel Process.Starts s ∧ s.main = .returned 1 ∧
      s.book.misused = [.serverAddr] ∧ ∀ x, x ≠ .cmThread → s.book.live x = false := by
  obtain ⟨s, hs, hms⟩ := Lts.exists_reachable_of_exec processStep Tidy Process.Starts
    ⟨fun _ => true, true, rfl⟩
    (.inargs [.resource true, .port, .addr false] false :: List.replicate 7 (.main true) ++
      [.main false, .main true, .main true, .cmCancelled] ++ List.replicate 4 (.main true))
    (fun s => decide (s.main = .returned 1)) (by decide)
  obtain ⟨t, ht, hmt⟩ := Lts.exists_reachable_of_exec processStep Lts.anyLabel Process.Starts
    ⟨fun _ => true, false, rfl⟩
    [.inargs [.resource true] false, .main false, .main true]
    (fun s => decide (s.main = .returned 1 ∧ s.book.misused = [.serverAddr])) (by decide)
  have hret := of_decide_eq_true hms
  obtain ⟨hret', hmis⟩ := of_decide_eq_true hmt
  exact ⟨⟨s, hs, hret, ((server_main_balances s).2 hs).2.2 hret⟩,
    ⟨t, ht, hret', hmis, ((server_main_balances t).1 ht).1 hret'⟩⟩

end Rpmem
