/-
# The server process: `main`, `cm_thread` and the connections it sets up

`main` of `rpmem_server.c` with its ladder of labels, and `cm_thread` with
`rpmem_connect_request_handler`, `rpmem_conn_init` and `rpmem_create_qp`, cut at
every call that acquires or releases an object, blocks, or can fail.  The two
threads interleave at these calls; the completion thread of a connection is
there as an object that can end.

The label of a step says how its call went.  A connection is named by the
number of its request; `failed` keeps the call whose failure ended its setup,
and `rejects` the requests answered with `rdma_reject`, for the proofs.

The fields of `in` that no option has set hold whatever was on the stack:
`junk` says that it is not `NULL`.  `rdma_destroy_id` waits for the events of
the listening id; here it comes back at any time.
-/

import Rpmem.Lib.Ledger
import Rpmem.Lib.Lts
import Rpmem.Server.Steps

namespace Rpmem

open Ledger

/-- The objects of one connection of the server.  Its `cma_id` comes with the request. -/
inductive ConnObj
  | cmaId | unit | pd | reqMr | rspMr | compChannel | cq | cqThread | qp
  deriving DecidableEq, Repr

/-- Who uses an object, as on the side of the client: `req` and `rsp` lie in the unit. -/
def ConnObj.users : ConnObj → List ConnObj
  | .cmaId => [.qp]
  | .unit => [.cqThread, .reqMr, .rspMr]
  | .pd => [.reqMr, .rspMr, .qp]
  | .compChannel => [.cq, .cqThread]
  | .cq => [.qp, .cqThread]
  | .reqMr | .rspMr | .cqThread | .qp => []

/-- The objects of `main`. -/
inductive MainObj
  | resource | serverAddr | fd | resLock | connsMutex | semConnect | cmaChannel | cmaId | cmThread
  deriving DecidableEq, Repr

/-- `cm_thread` reads the event channel and takes `conns_mutex`.  The ids of connection requests
use the channel too, but there are none unless `rdma_listen` has succeeded, and `main` destroys
nothing then. -/
def MainObj.users : MainObj → List MainObj
  | .cmaChannel => [.cmaId, .cmThread]
  | .connsMutex => [.cmThread]
  | .resource | .serverAddr | .fd | .resLock | .semConnect | .cmaId | .cmThread => []

/-- Where `rpmem_connect_request_handler` is: `rpmem_conn_init` from `allocPd` to `createThread`
and from `cqError` to `pdError`, `rpmem_create_qp` at `createQp`. -/
inductive SetupPc
  | calloc | allocPd | regReq | regRsp | createCompChannel | createCq | reqNotify | createThread
  | createQp | postRecv | accept | insert
  | cqError | compError | sendMrError | recvMrError | pdError | freeUnit | reject
  deriving DecidableEq, Repr

/-- Where `cm_thread` is. -/
inductive ListenPc
  | absent | waiting
  | handling (ev : CmEvent)
  | setup (p : SetupPc)
  | acking | exited
  deriving DecidableEq, Repr

/-- Where `main` is. -/
inductive ServerPc
  | processInargs | openRes | fstat | blkSize | initServer | createEventChannel | createId
  | createThread | getAddr | bindAddr | listen | join
  | destroyThread | destroyId | destroyEventChannel | freeInargs | closeFd | out
  | returned (code : ℕ) | exits (code : ℕ)
  deriving DecidableEq, Repr

/-- One connection: its objects, and the call whose failure ended its setup.  `pthread_create` is
never that call: its outcome is not looked at. -/
structure ConnSetup where
  book : Book ConnObj
  failed : Option SetupPc

/-- The process.  `conn` are the connections by the number of their request, `next` is the
number of the request in hand or the next to come. -/
structure Process where
  main : ServerPc
  book : Book MainObj
  junk : MainObj → Bool
  blk : Bool
  cm : ListenPc
  cancelled : Bool
  unacked : ℕ
  conn : ℕ → ConnSetup
  next : ℕ
  conns : List ℕ
  rejects : List ℕ

/-- Before `main` has done anything. -/
def Process.initial (junk : MainObj → Bool) (blk : Bool) : Process where
  main := .processInargs
  book := Book.empty
  junk := junk
  blk := blk
  cm := .absent
  cancelled := false
  unacked := 0
  conn := fun _ => ⟨Book.empty, none⟩
  next := 0
  conns := []
  rejects := []

/-- The process starts, whatever is on its stack. -/
def Process.Starts (s : Process) : Prop := ∃ junk blk, s = Process.initial junk blk

/-- What `getopt_long` returns: an option, with the outcome of its `strdup`, or something it
does not know. -/
inductive Opt
  | addr (ok : Bool)
  | port
  | resource (ok : Bool)
  | help
  | invalid
  deriving DecidableEq, Repr

/-- What can happen next.  `inargs` carries the command line: the options and whether an
argument is left over. -/
inductive ServerLabel
  | inargs (opts : List Opt) (extra : Bool)
  | main (ok : Bool)
  | getEvent (ev : CmEvent)
  | getEventFails
  | cm (ok : Bool)
  | cmCancelled
  | cqExit (i : ℕ)
  deriving DecidableEq, Repr

namespace Process

/-! ### `process_inargs` -/

/-- `strdup` into a field of `in`; the string there before is not freed. -/
def strdup (s : Process) (x : MainObj) (ok : Bool) : Process :=
  { s with
    book := if ok then s.book.acquire x else s.book.forget x
    junk := fun y => if y = x then false else s.junk y }

/-- `free` of a field of `in`: nothing for `NULL`. -/
def freeArg (s : Process) (x : MainObj) : Process :=
  if s.book.live x || s.junk x then { s with book := s.book.release MainObj.users x } else s

/-- The label `cleanup`, and `usage` for `-h`: `server_addr` goes, and the process. -/
def usageExit (s : Process) (code : ℕ) : Process :=
  { s.freeArg .serverAddr with main := .exits code }

/-- The loop of `process_inargs`. -/
def processInargs (s : Process) (extra : Bool) : List Opt → Process
  | [] => if extra then s.usageExit 1 else { s with main := .openRes }
  | .addr ok :: opts => (s.strdup .serverAddr ok).processInargs extra opts
  | .port :: opts => s.processInargs extra opts
  | .resource ok :: opts => (s.strdup .resource ok).processInargs extra opts
  | .help :: _ => s.usageExit 0
  | .invalid :: _ => s.usageExit 1

/-! ### `main` -/

/-- A call that acquires `x`, and where `main` goes on. -/
def mainAcquire (s : Process) (x : MainObj) (ok : Bool) (next fail : ServerPc) : Process :=
  if ok then { s with book := s.book.acquire x, main := next } else { s with main := fail }

def mainRelease (s : Process) (x : MainObj) (next : ServerPc) : Process :=
  { s with book := s.book.release MainObj.users x, main := next }

/-- `main`, with `rpmem_bind_server` from `getAddr` to `listen`. -/
def mainStep (s : Process) (ok : Bool) : Option Process :=
  match s.main with
  | .processInargs => none
  | .openRes => some (s.mainAcquire .fd ok .fstat .out)
  | .fstat =>
      some { s with main := if ok then if s.blk then .blkSize else .initServer else .closeFd }
  | .blkSize => some { s with main := if ok then .initServer else .closeFd }
  | .initServer =>
      some { s with
        book := ((s.book.acquire .resLock).acquire .connsMutex).acquire .semConnect
        main := .createEventChannel }
  | .createEventChannel => some (s.mainAcquire .cmaChannel ok .createId .freeInargs)
  | .createId => some (s.mainAcquire .cmaId ok .createThread .destroyEventChannel)
  | .createThread =>
      if ok then
        some { s with book := s.book.acquire .cmThread, cm := .waiting, main := .getAddr }
      else some { s with main := .destroyId }
  | .getAddr => some { s with main := if ok then .bindAddr else .destroyThread }
  | .bindAddr => some { s with main := if ok then .listen else .destroyThread }
  | .listen => some { s with main := if ok then .join else .destroyThread }
  | .join => if s.cm = .exited then some { s with main := .returned 0 } else none
  | .destroyThread => some { s with cancelled := true, main := .destroyId }
  | .destroyId => some (s.mainRelease .cmaId .destroyEventChannel)
  | .destroyEventChannel => some (s.mainRelease .cmaChannel .freeInargs)
  | .freeInargs =>
      some { s with
        book :=
          ((s.book.release MainObj.users .semConnect).release MainObj.users .connsMutex).release
            MainObj.users .resLock
        main := .closeFd }
  | .closeFd => some (s.mainRelease .fd .out)
  | .out => some { (s.freeArg .resource).freeArg .serverAddr with main := .returned 1 }
  | .returned _ | .exits _ => none

/-- `main` has returned, or the process has left it by `exit`. -/
def ended (s : Process) : Bool :=
  match s.main with
  | .returned _ | .exits _ => true
  | _ => false

/-! ### `cm_thread` -/

/-- The connection of the request in hand. -/
def current (s : Process) : ConnSetup := s.conn s.next

def setCurrent (s : Process) (k : ConnSetup) (p : SetupPc) : Process :=
  { s with conn := Function.update s.conn s.next k, cm := .setup p }

/-- A call of the handler that acquires `x`; `p` is where it is. -/
def setupAcquire (s : Process) (p : SetupPc) (x : ConnObj) (ok : Bool) (next fail : SetupPc) :
    Process :=
  if ok then s.setCurrent { s.current with book := s.current.book.acquire x } next
  else s.setCurrent { s.current with failed := some p } fail

/-- A call of the handler that acquires nothing. -/
def setupCheck (s : Process) (p : SetupPc) (ok : Bool) (next fail : SetupPc) : Process :=
  if ok then s.setCurrent s.current next
  else s.setCurrent { s.current with failed := some p } fail

def setupRelease (s : Process) (x : ConnObj) (next : SetupPc) : Process :=
  s.setCurrent { s.current with book := s.current.book.release ConnObj.users x } next

def setupDestroy (s : Process) (x : ConnObj) (next : SetupPc) : Process :=
  s.setCurrent { s.current with book := s.current.book.destroy ConnObj.users x } next

/-- `rdma_get_cm_event` returns an event.  A connection request has an id of its own, which
nothing in the program destroys. -/
def getEvent (s : Process) (ev : CmEvent) : Process :=
  { s with
    cm := .handling ev
    unacked := s.unacked + 1
    conn :=
      match ev with
      | .connectRequest =>
          Function.update s.conn s.next { s.current with book := s.current.book.acquire .cmaId }
      | _ => s.conn }

/-- `rpmem_connect_request_handler`.  The outcome of `pthread_create` is not looked at, and
`free_conn` has nothing at it but `reject`. -/
def rpmemConnectRequest (s : Process) (ok : Bool) : SetupPc → Process
  | .calloc => s.setupAcquire .calloc .unit ok .allocPd .reject
  | .allocPd => s.setupAcquire .allocPd .pd ok .regReq .freeUnit
  | .regReq => s.setupAcquire .regReq .reqMr ok .regRsp .pdError
  | .regRsp => s.setupAcquire .regRsp .rspMr ok .createCompChannel .recvMrError
  | .createCompChannel =>
      s.setupAcquire .createCompChannel .compChannel ok .createCq .sendMrError
  | .createCq => s.setupAcquire .createCq .cq ok .reqNotify .compError
  | .reqNotify => s.setupCheck .reqNotify ok .createThread .cqError
  | .createThread =>
      if ok then s.setCurrent { s.current with book := s.current.book.acquire .cqThread } .createQp
      else s.setCurrent s.current .createQp
  | .createQp => s.setupAcquire .createQp .qp ok .postRecv .freeUnit
  | .postRecv => s.setupCheck .postRecv ok .accept .reject
  | .accept => s.setupCheck .accept ok .insert .reject
  | .insert => { s with conns := s.next :: s.conns, next := s.next + 1, cm := .acking }
  | .cqError => s.setupDestroy .cq .compError
  | .compError => s.setupDestroy .compChannel .sendMrError
  | .sendMrError => s.setupRelease .rspMr .recvMrError
  | .recvMrError => s.setupRelease .reqMr .pdError
  | .pdError => s.setupDestroy .pd .freeUnit
  | .freeUnit => s.setupRelease .unit .reject
  | .reject => { s with rejects := s.next :: s.rejects, next := s.next + 1, cm := .acking }

/-- The `switch` of `rpmem_server_cma_handler`, which returns `0` for every event. -/
def cmaHandler (s : Process) : CmEvent → Process
  | .connectRequest => { s with cm := .setup .calloc }
  | _ => { s with cm := .acking }

/-- `cm_thread` ends. -/
def cmExit (s : Process) : Process :=
  { s with book := s.book.release MainObj.users .cmThread, cm := .exited }

/-- `cm_thread` from one call to the next. -/
def cmStep (s : Process) (ok : Bool) : Option Process :=
  match s.cm with
  | .handling ev => some (s.cmaHandler ev)
  | .setup p => some (s.rpmemConnectRequest ok p)
  | .acking => some { s with unacked := s.unacked - 1, cm := .waiting }
  | .absent | .waiting | .exited => none

/-- `cm_thread` can act on a cancellation: everywhere but in `rdma_ack_cm_event`. -/
def cancellable (s : Process) : Bool :=
  match s.cm with
  | .absent | .acking | .exited => false
  | _ => s.cancelled

/-- The completion thread of a connection ends. -/
def cqExit (s : Process) (i : ℕ) : Process :=
  { s with
    conn := Function.update s.conn i
      { s.conn i with book := (s.conn i).book.release ConnObj.users .cqThread } }

end Process

/-- One step. -/
def processStep (s : Process) (a : ServerLabel) : Option Process :=
  if s.ended then none
  else
    match a with
    | .inargs opts extra =>
        if s.main = .processInargs then some (s.processInargs extra opts) else none
    | .main ok => s.mainStep ok
    | .getEvent ev => if s.cm = .waiting then some (s.getEvent ev) else none
    | .getEventFails => if s.cm = .waiting then some s.cmExit else none
    | .cm ok => s.cmStep ok
    | .cmCancelled => if s.cancellable then some s.cmExit else none
    | .cqExit i => if (s.conn i).book.live .cqThread then some (s.cqExit i) else none

/-- What each label does, with what it needs. -/
inductive ProcessStepped (s : Process) : ServerLabel → Process → Prop
  | inargs (opts : List Opt) (extra : Bool) (h : s.main = .processInargs) :
      ProcessStepped s (.inargs opts extra) (s.processInargs extra opts)
  | main (ok : Bool) (t : Process) (h : s.mainStep ok = some t) : ProcessStepped s (.main ok) t
  | gotEvent (ev : CmEvent) (h : s.cm = .waiting) :
      ProcessStepped s (.getEvent ev) (s.getEvent ev)
  | getEventFailed (h : s.cm = .waiting) : ProcessStepped s .getEventFails s.cmExit
  | handled (ok : Bool) (ev : CmEvent) (h : s.cm = .handling ev) :
      ProcessStepped s (.cm ok) (s.cmaHandler ev)
  | setUp (ok : Bool) (p : SetupPc) (h : s.cm = .setup p) :
      ProcessStepped s (.cm ok) (s.rpmemConnectRequest ok p)
  | acked (ok : Bool) (h : s.cm = .acking) :
      ProcessStepped s (.cm ok) { s with unacked := s.unacked - 1, cm := .waiting }
  | cancelled (h : s.cancellable = true) : ProcessStepped s .cmCancelled s.cmExit
  | cqExited (i : ℕ) (h : (s.conn i).book.live .cqThread = true) :
      ProcessStepped s (.cqExit i) (s.cqExit i)

/-- **Everything a step can do.** -/
theorem processStep_cases {s t : Process} {a : ServerLabel} (h : processStep s a = some t) :
    s.ended = false ∧ ProcessStepped s a t := by
  unfold processStep at h
  obtain ⟨hended, h⟩ := Option.ite_none_left_eq_some.1 h
  refine ⟨by simpa using hended, ?_⟩
  cases a with
  | inargs opts extra =>
      obtain ⟨hm, ⟨⟩⟩ := Option.ite_none_right_eq_some.1 h
      exact .inargs opts extra hm
  | main ok => exact .main ok t h
  | getEvent ev =>
      obtain ⟨hcm, ⟨⟩⟩ := Option.ite_none_right_eq_some.1 h
      exact .gotEvent ev hcm
  | getEventFails =>
      obtain ⟨hcm, ⟨⟩⟩ := Option.ite_none_right_eq_some.1 h
      exact .getEventFailed hcm
  | cm ok =>
      simp only [Process.cmStep] at h
      split at h
      · rename_i ev hcm
        obtain rfl := Option.some.inj h
        exact .handled ok ev hcm
      · rename_i p hcm
        obtain rfl := Option.some.inj h
        exact .setUp ok p hcm
      · rename_i hcm
        obtain rfl := Option.some.inj h
        exact .acked ok hcm
      all_goals cases h
  | cmCancelled =>
      obtain ⟨hc, ⟨⟩⟩ := Option.ite_none_right_eq_some.1 h
      exact .cancelled hc
  | cqExit i =>
      obtain ⟨hlive, ⟨⟩⟩ := Option.ite_none_right_eq_some.1 h
      exact .cqExited i hlive

/-! ### What `main` leaves alone -/

/-- `cm_thread` has not been started. -/
def ServerPc.early : ServerPc → Bool
  | .processInargs | .openRes | .fstat | .blkSize | .initServer | .createEventChannel | .createId
  | .createThread => true
  | _ => false

/-- A step of `main` leaves the connections alone; it starts `cm_thread` once, before which it
has not been there. -/
structure Process.Apart (s t : Process) : Prop where
  cm : t.cm = s.cm ∨ s.main = .createThread ∧ t.cm = .waiting ∧ t.main.early = false
  early : t.main.early = true → s.main.early = true
  conn : t.conn = s.conn
  next : t.next = s.next
  conns : t.conns = s.conns
  rejects : t.rejects = s.rejects
  unacked : t.unacked = s.unacked
  cancelled : t.cancelled = false → s.cancelled = false

variable {s t : Process}

theorem Process.freeArg_eq (s : Process) (x : MainObj) :
    ∃ b, s.freeArg x = { s with book := b } := by
  unfold Process.freeArg
  split
  · exact ⟨_, rfl⟩
  · exact ⟨_, rfl⟩

/-- `process_inargs` sets the fields of `in` and nothing else; it returns or exits. -/
theorem Process.processInargs_eq (s : Process) (extra : Bool) (opts : List Opt) :
    ∃ b j m, s.processInargs extra opts = { s with book := b, junk := j, main := m } ∧
      (m = .openRes ∨ ∃ code, m = .exits code) := by
  have hexit (s : Process) (code : ℕ) : ∃ b, s.usageExit code =
      { s with book := b, main := .exits code } := by
    obtain ⟨b, hb⟩ := s.freeArg_eq .serverAddr
    exact ⟨b, by rw [Process.usageExit, hb]⟩
  induction opts generalizing s with
  | nil =>
      rw [Process.processInargs]
      split
      · obtain ⟨b, hb⟩ := hexit s 1
        exact ⟨b, s.junk, _, hb, .inr ⟨1, rfl⟩⟩
      · exact ⟨s.book, s.junk, _, rfl, .inl rfl⟩
  | cons o opts ih =>
      cases o with
      | addr ok =>
          obtain ⟨b, j, m, heq, hm⟩ := ih (s.strdup .serverAddr ok)
          exact ⟨b, j, m, heq, hm⟩
      | resource ok =>
          obtain ⟨b, j, m, heq, hm⟩ := ih (s.strdup .resource ok)
          exact ⟨b, j, m, heq, hm⟩
      | port => exact ih s
      | help =>
          obtain ⟨b, hb⟩ := hexit s 0
          exact ⟨b, s.junk, _, hb, .inr ⟨0, rfl⟩⟩
      | invalid =>
          obtain ⟨b, hb⟩ := hexit s 1
          exact ⟨b, s.junk, _, hb, .inr ⟨1, rfl⟩⟩

theorem Process.processInargs_apart (extra : Bool) (opts : List Opt) (h : s.main = .processInargs) :
    s.Apart (s.processInargs extra opts) := by
  obtain ⟨b, j, m, heq, -⟩ := s.processInargs_eq extra opts
  rw [heq]
  exact ⟨.inl rfl, fun _ => by rw [h]; rfl, rfl, rfl, rfl, rfl, rfl, id⟩

/-- `main` goes from one place to another, whatever it acquires, releases or asks for there. -/
theorem Process.Apart.goto {m : ServerPc} {b : Book MainObj} {c : Bool}
    (early : m.early = true → s.main.early = true) (hc : c = false → s.cancelled = false) :
    s.Apart { s with main := m, book := b, cancelled := c } :=
  ⟨.inl rfl, early, rfl, rfl, rfl, rfl, rfl, hc⟩

theorem Process.mainStep_apart {ok : Bool} (h : s.mainStep ok = some t) : s.Apart t := by
  unfold Process.mainStep at h
  cases hm : s.main with
  | processInargs | returned | exits => simp [hm] at h
  | openRes | fstat | blkSize | initServer | createEventChannel | createId =>
      have hearly : s.main.early = true := by rw [hm]; rfl
      simp only [hm, Process.mainAcquire] at h
      cases ok <;> cases h <;> exact .goto (fun _ => hearly) id
  | createThread =>
      simp only [hm] at h
      cases ok with
      | false =>
          cases h
          exact .goto (by rintro ⟨⟩) id
      | true =>
          cases h
          exact ⟨.inr ⟨hm, rfl, rfl⟩, by rintro ⟨⟩, rfl, rfl, rfl, rfl, rfl, id⟩
  | destroyThread =>
      simp only [hm] at h
      cases h
      exact .goto (by rintro ⟨⟩) (by rintro ⟨⟩)
  | getAddr | bindAddr | listen | destroyId | destroyEventChannel | freeInargs | closeFd =>
      simp only [hm, Process.mainRelease] at h
      cases ok <;> cases h <;> exact .goto (by rintro ⟨⟩) id
  | join =>
      simp only [hm] at h
      obtain ⟨-, ⟨⟩⟩ := Option.ite_none_right_eq_some.1 h
      exact .goto (by rintro ⟨⟩) id
  | out =>
      simp only [hm] at h
      obtain ⟨b, hb⟩ := s.freeArg_eq .resource
      obtain ⟨b', hb'⟩ := (s.freeArg .resource).freeArg_eq .serverAddr
      rw [hb', hb] at h
      cases h
      exact .goto (by rintro ⟨⟩) id

/-- A thread that can act on its cancellation is there. -/
theorem Process.of_cancellable (h : s.cancellable = true) :
    s.cancelled = true ∧ s.cm ≠ .absent ∧ s.cm ≠ .exited := by
  unfold Process.cancellable at h
  split at h
  · cases h
  · cases h
  · cases h
  next habs _ hex => exact ⟨h, habs, hex⟩

/-- Before `main` has started it `cm_thread` is not there. -/
theorem processStep_early {a : ServerLabel} (hs : processStep s a = some t)
    (h : s.main.early = true → s.cm = .absent) : t.main.early = true → t.cm = .absent := by
  have hmain (hap : s.Apart t) (ht : t.main.early = true) : t.cm = .absent := by
    rcases hap.cm with hcm | ⟨-, -, hnot⟩
    · rw [hcm, h (hap.early ht)]
    · rw [hnot] at ht
      cases ht
  have hcm (hne : s.cm ≠ .absent) (heq : t.main = s.main) (ht : t.main.early = true) :
      t.cm = .absent :=
    absurd (h (heq ▸ ht)) hne
  cases (processStep_cases hs).2 with
  | inargs opts extra hm => exact hmain (Process.processInargs_apart extra opts hm)
  | main ok _ hs => exact hmain (Process.mainStep_apart hs)
  | gotEvent _ h | getEventFailed h | acked _ h => exact hcm (by simp [h]) rfl
  | handled ok ev h => exact hcm (by simp [h]) (by cases ev <;> rfl)
  | setUp ok p h => exact hcm (by simp [h]) (by cases p <;> cases ok <;> rfl)
  | cancelled hc => exact hcm (Process.of_cancellable hc).2.1 rfl
  | cqExited => exact h

end Rpmem
