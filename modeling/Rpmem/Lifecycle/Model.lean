/-
# Opening and closing a file: what the client acquires and releases

`rpmem_open`, `rpmem_close`, `rpmem_map`, `rpmem_unmap`, `cm_thread`,
`rpmem_cma_handler`, `rpmem_addr_handler` and `rpmem_route_handler` of `rpmem.c`,
cut at every call that acquires or releases an object, blocks, or can fail.  The
application's thread and `cm_thread` interleave at these calls; `cq_thread` is
there as an object that can end.

The label of a step says how its call went.  What `librdmacm` is doing for the
`cma_id` is `CmPhase`: under `EventsInOrder` the events are the ones its manual names
for that phase, without it they come in any order.

`rdma_destroy_id` blocks until every reported event is acknowledged, and
`ibv_dealloc_pd`, `ibv_destroy_cq` and `ibv_destroy_comp_channel` fail with `EBUSY`
on an object in use, which no caller looks at.  `pthread_cancel` only asks: the
thread ends later, at a cancellation point, and nobody joins it.
-/

import Rpmem.Client
import Rpmem.Lib.Ledger
import Rpmem.Lib.Lts
import Rpmem.Server.Steps

namespace Rpmem

open Ledger

/-- The objects of one `rpmem_open`, with those of the region mapped on its file. -/
inductive Obj
  | privRfile | cmaChannel | cmaId | cmThread
  | pd | rspMr | reqMr | compChannel | cq | cqThread | qp
  | regionMr | buffer
  deriving DecidableEq, Repr

/-- Who uses an object: the threads what they are handed, a memory region its protection
domain and the memory under it, a queue pair its `cma_id`, its protection domain and its
completion queue.  `req` and `rsp` lie in `priv_rfile`. -/
def Obj.users : Obj → List Obj
  | .privRfile => [.cmThread, .cqThread, .rspMr, .reqMr]
  | .cmaChannel => [.cmaId, .cmThread]
  | .cmaId => [.qp]
  | .pd => [.rspMr, .reqMr, .regionMr, .qp]
  | .compChannel => [.cq, .cqThread]
  | .cq => [.qp, .cqThread]
  | .buffer => [.regionMr]
  | .cmThread | .rspMr | .reqMr | .cqThread | .qp | .regionMr => []

/-- Where `rpmem_close` is once its request is done with, whatever came of it. -/
inductive ClosePc
  | cancelCm | destroyQp | destroyId | destroyEventChannel
  | cancelCq | destroyCq | destroyCompChannel | deallocPd | destroyRfile
  deriving DecidableEq, Repr

/-- Where the application's thread is: before a call of `rpmem_open`, at one of its labels,
between the calls on an open file, in `rpmem_close`, or done with the file. -/
inductive MainPc
  | calloc | createEventChannel | createId | createThread | resolveAddr
  | waitConnect | checkState | postRecv | postSend | waitOpen | opened
  | destroyThread | destroyId | destroyEventChannel | destroyRfile | failed
  | closing (p : ClosePc) | closed
  deriving DecidableEq, Repr

/-- Where `rpmem_addr_handler` is. -/
inductive AddrPc
  | resolveRoute | allocPd | regRsp | regReq | createCompChannel | createCq | reqNotify
  | createThread
  | cqError | compError | sendMrError | recvMrError | pdError | error
  deriving DecidableEq, Repr

/-- Where `rpmem_route_handler` is. -/
inductive RoutePc
  | createQp | connect | destroyQp
  deriving DecidableEq, Repr

/-- Where `cm_thread` is: not started, in `rdma_get_cm_event`, in `rpmem_cma_handler` before
it takes `state_mutex`, in one of the handlers with the mutex held, before
`rdma_ack_cm_event`, before `pthread_exit`, or gone. -/
inductive CmPc
  | absent | waiting
  | handling (ev : CmEvent)
  | addr (p : AddrPc)
  | route (p : RoutePc)
  | acking | exiting | exited
  deriving DecidableEq, Repr

/-- What `librdmacm` has been asked to do for the `cma_id` last, and whether the connection
has been reported. -/
inductive CmPhase
  | idle | addr | route | connect | connected
  deriving DecidableEq, Repr

/-- The events the manual names for each phase. -/
def CmPhase.events : CmPhase → List CmEvent
  | .idle => []
  | .addr => [.addrResolved, .addrError]
  | .route => [.routeResolved, .routeError, .addrChange, .deviceRemoval]
  | .connect => [.established, .connectError, .unreachable, .rejected, .addrChange, .deviceRemoval]
  | .connected => [.disconnected, .timewaitExit, .addrChange, .deviceRemoval]

/-- One file of the client.  `cancelled` says that `cmthread` was asked to end, `unacked`
counts the events fetched and not acknowledged, and `region` is what the application knows:
the last `rpmem_map` returned non-`NULL` and no `rpmem_unmap` has been called since. -/
structure File where
  book : Book Obj
  main : MainPc
  cm : CmPc
  cancelled : Bool
  phase : CmPhase
  state : FileState
  semConnect : ℕ
  unacked : ℕ
  region : Bool

/-- Before `rpmem_open` is called. -/
def File.initial : File := ⟨Book.empty, .calloc, .absent, false, .idle, .init, 0, 0, false⟩

/-- How `rpmem_map` goes: its `calloc` or its `ibv_reg_mr` fails, something after that
fails, or it returns the region. -/
inductive MapOutcome
  | callocFails | regMrFails | laterFails | mapped
  deriving DecidableEq, Repr

/-- What can happen next: the application's thread or `cm_thread` goes on, with `ok` the
outcome of the call it is at, the application calls the library, `rdma_get_cm_event` returns,
`cm_thread` acts on its cancellation, or `cq_thread` ends. -/
inductive FileLabel
  | main (ok : Bool)
  | map (o : MapOutcome)
  | unmap
  | close
  | getEvent (ev : CmEvent)
  | getEventFails
  | cm (ok : Bool)
  | cmCancelled
  | cqExit
  deriving DecidableEq, Repr

namespace File

/-- A call that acquires `x`, and where its caller goes on. -/
def mainAcquire (s : File) (x : Obj) (ok : Bool) (next fail : MainPc) : File :=
  if ok then { s with book := s.book.acquire x, main := next } else { s with main := fail }

def mainRelease (s : File) (x : Obj) (next : MainPc) : File :=
  { s with book := s.book.release Obj.users x, main := next }

def mainDestroy (s : File) (x : Obj) (next : MainPc) : File :=
  { s with book := s.book.destroy Obj.users x, main := next }

/-- `state_mutex` is held by `cm_thread`. -/
def locked (s : File) : Bool :=
  match s.cm with
  | .addr _ | .route _ => true
  | _ => false

/-- The part of `rpmem_close` after the label `out`. -/
def rpmemClose (s : File) : ClosePc → Option File
  | .cancelCm => some { s with cancelled := true, main := .closing .destroyQp }
  | .destroyQp => some (s.mainRelease .qp (.closing .destroyId))
  | .destroyId =>
      if s.unacked = 0 then some (s.mainRelease .cmaId (.closing .destroyEventChannel)) else none
  | .destroyEventChannel => some (s.mainRelease .cmaChannel (.closing .cancelCq))
  | .cancelCq => some { s with main := .closing .destroyCq }
  | .destroyCq => some (s.mainDestroy .cq (.closing .destroyCompChannel))
  | .destroyCompChannel => some (s.mainDestroy .compChannel (.closing .deallocPd))
  | .deallocPd => some (s.mainDestroy .pd (.closing .destroyRfile))
  | .destroyRfile => some (s.mainRelease .privRfile .closed)

/-- `rpmem_open`, with its ladder of labels, and `rpmem_close`. -/
def mainStep (s : File) (ok : Bool) : Option File :=
  match s.main with
  | .calloc => some (s.mainAcquire .privRfile ok .createEventChannel .failed)
  | .createEventChannel => some (s.mainAcquire .cmaChannel ok .createId .destroyRfile)
  | .createId => some (s.mainAcquire .cmaId ok .createThread .destroyEventChannel)
  | .createThread =>
      if ok then
        some { s with book := s.book.acquire .cmThread, cm := .waiting, main := .resolveAddr }
      else some { s with main := .destroyId }
  | .resolveAddr =>
      if ok then some { s with phase := .addr, main := .waitConnect }
      else some { s with main := .destroyThread }
  | .waitConnect =>
      if 0 < s.semConnect then
        some { s with semConnect := s.semConnect - 1, main := .checkState }
      else none
  | .checkState =>
      if s.locked then none
      else some { s with main := if s.state = .established then .postRecv else .destroyThread }
  | .postRecv => some { s with main := if ok then .postSend else .destroyThread }
  | .postSend => some { s with main := if ok then .waitOpen else .destroyThread }
  | .waitOpen => some { s with main := if ok then .opened else .destroyThread }
  | .destroyThread => some { s with cancelled := true, main := .destroyId }
  | .destroyId =>
      if s.unacked = 0 then some (s.mainRelease .cmaId .destroyEventChannel) else none
  | .destroyEventChannel => some (s.mainRelease .cmaChannel .destroyRfile)
  | .destroyRfile => some (s.mainRelease .privRfile .failed)
  | .closing p => s.rpmemClose p
  | .opened | .failed | .closed => none

/-- `rpmem_map`.  A region already there is not looked at: its pointers are overwritten. -/
def rpmemMap (s : File) : MapOutcome → File
  | .callocFails => { s with book := s.book.forget .buffer, region := false }
  | .regMrFails =>
      { s with
        book := ((s.book.acquire .buffer).forget .regionMr).release Obj.users .buffer
        region := false }
  | .laterFails =>
      { s with
        book := (((s.book.acquire .buffer).acquire .regionMr).release Obj.users .regionMr).release
          Obj.users .buffer
        region := false }
  | .mapped => { s with book := (s.book.acquire .buffer).acquire .regionMr, region := true }

/-- `rpmem_unmap`. -/
def rpmemUnmap (s : File) : File :=
  { s with
    book := (s.book.release Obj.users .regionMr).release Obj.users .buffer
    region := false }

/-- A call of a handler that acquires `x`, and where the handler goes on. -/
def cmAcquire (s : File) (x : Obj) (ok : Bool) (next fail : CmPc) : File :=
  if ok then { s with book := s.book.acquire x, cm := next } else { s with cm := fail }

def cmRelease (s : File) (x : Obj) (next : CmPc) : File :=
  { s with book := s.book.release Obj.users x, cm := next }

def cmDestroy (s : File) (x : Obj) (next : CmPc) : File :=
  { s with book := s.book.destroy Obj.users x, cm := next }

/-- `rpmem_addr_handler`.  The outcome of `pthread_create` is not looked at. -/
def rpmemAddrHandler (s : File) (ok : Bool) : AddrPc → File
  | .resolveRoute =>
      if ok then { s with phase := .route, cm := .addr .allocPd } else { s with cm := .addr .error }
  | .allocPd => s.cmAcquire .pd ok (.addr .regRsp) (.addr .error)
  | .regRsp => s.cmAcquire .rspMr ok (.addr .regReq) (.addr .pdError)
  | .regReq => s.cmAcquire .reqMr ok (.addr .createCompChannel) (.addr .recvMrError)
  | .createCompChannel => s.cmAcquire .compChannel ok (.addr .createCq) (.addr .sendMrError)
  | .createCq => s.cmAcquire .cq ok (.addr .reqNotify) (.addr .compError)
  | .reqNotify => { s with cm := if ok then .addr .createThread else .addr .cqError }
  | .createThread => s.cmAcquire .cqThread ok .acking .acking
  | .cqError => s.cmDestroy .cq (.addr .compError)
  | .compError => s.cmDestroy .compChannel (.addr .sendMrError)
  | .sendMrError => s.cmRelease .reqMr (.addr .recvMrError)
  | .recvMrError => s.cmRelease .rspMr (.addr .pdError)
  | .pdError => s.cmDestroy .pd (.addr .error)
  | .error => { s with semConnect := s.semConnect + 1, cm := .exiting }

/-- `rpmem_route_handler`: its failures post nothing. -/
def rpmemRouteHandler (s : File) (ok : Bool) : RoutePc → File
  | .createQp => s.cmAcquire .qp ok (.route .connect) .exiting
  | .connect =>
      if ok then { s with phase := .connect, cm := .acking } else { s with cm := .route .destroyQp }
  | .destroyQp => s.cmRelease .qp .exiting

/-- An event that ends the connection, or the attempt at it. -/
def fail (s : File) (state : FileState) : File :=
  { s with state, semConnect := s.semConnect + 1, cm := .exiting }

/-- The `switch` of `rpmem_cma_handler`. -/
def rpmemCmaHandler (s : File) : CmEvent → File
  | .addrResolved => { s with cm := .addr .resolveRoute }
  | .routeResolved => { s with cm := .route .createQp }
  | .established =>
      { s with state := .established, semConnect := s.semConnect + 1, cm := .acking }
  | .addrError | .routeError | .connectError | .unreachable | .rejected => s.fail .error
  | .disconnected | .addrChange | .timewaitExit => s.fail .disconnected
  | .connectRequest | .connectResponse | .deviceRemoval | .multicastJoin | .multicastError =>
      s.fail .error

/-- `cm_thread` ends. -/
def cmExit (s : File) : File := s.cmRelease .cmThread .exited

/-- `cm_thread` from one call to the next. -/
def cmStep (s : File) (ok : Bool) : Option File :=
  match s.cm with
  | .handling ev => some (s.rpmemCmaHandler ev)
  | .addr p => some (s.rpmemAddrHandler ok p)
  | .route p => some (s.rpmemRouteHandler ok p)
  | .acking => some { s with unacked := s.unacked - 1, cm := .waiting }
  | .exiting => some s.cmExit
  | .absent | .waiting | .exited => none

/-- `cm_thread` can act on a cancellation: everywhere but in `rdma_ack_cm_event`. -/
def cancellable (s : File) : Bool :=
  match s.cm with
  | .absent | .acking | .exited => false
  | _ => s.cancelled

end File

/-- One step. -/
def fileStep (s : File) : FileLabel → Option File
  | .main ok => s.mainStep ok
  | .map o => if s.main = .opened then some (s.rpmemMap o) else none
  | .unmap => if s.main = .opened then some s.rpmemUnmap else none
  | .close => if s.main = .opened then some { s with main := .closing .cancelCm } else none
  | .getEvent ev =>
      if s.cm = .waiting then
        some { s with
          cm := .handling ev
          unacked := s.unacked + 1
          phase := if ev = .established then .connected else s.phase }
      else none
  | .getEventFails => if s.cm = .waiting then some s.cmExit else none
  | .cm ok => s.cmStep ok
  | .cmCancelled => if s.cancellable then some s.cmExit else none
  | .cqExit =>
      if s.book.live .cqThread then
        some { s with book := s.book.release Obj.users .cqThread }
      else none

/-- What each label does, with what it needs. -/
inductive FileStepped (s : File) : FileLabel → File → Prop
  | main (ok : Bool) (t : File) (h : s.mainStep ok = some t) : FileStepped s (.main ok) t
  | mapped (o : MapOutcome) (opened : s.main = .opened) : FileStepped s (.map o) (s.rpmemMap o)
  | unmapped (opened : s.main = .opened) : FileStepped s .unmap s.rpmemUnmap
  | closed (opened : s.main = .opened) :
      FileStepped s .close { s with main := .closing .cancelCm }
  | gotEvent (ev : CmEvent) (waiting : s.cm = .waiting) :
      FileStepped s (.getEvent ev)
        { s with
          cm := .handling ev
          unacked := s.unacked + 1
          phase := if ev = .established then .connected else s.phase }
  | getEventFailed (waiting : s.cm = .waiting) : FileStepped s .getEventFails s.cmExit
  | cm (ok : Bool) (t : File) (h : s.cmStep ok = some t) : FileStepped s (.cm ok) t
  | cancelled (h : s.cancellable = true) : FileStepped s .cmCancelled s.cmExit
  | cqExited (live : s.book.live .cqThread = true) :
      FileStepped s .cqExit { s with book := s.book.release Obj.users .cqThread }

/-- **Everything a step can do.** -/
theorem fileStep_cases {s t : File} {a : FileLabel} (h : fileStep s a = some t) :
    FileStepped s a t := by
  cases a with
  | main ok => exact .main ok t h
  | cm ok => exact .cm ok t h
  | map o =>
      obtain ⟨hm, ⟨⟩⟩ := Option.ite_none_right_eq_some.1 h
      exact .mapped o hm
  | unmap =>
      obtain ⟨hm, ⟨⟩⟩ := Option.ite_none_right_eq_some.1 h
      exact .unmapped hm
  | close =>
      obtain ⟨hm, ⟨⟩⟩ := Option.ite_none_right_eq_some.1 h
      exact .closed hm
  | getEvent ev =>
      obtain ⟨hcm, ⟨⟩⟩ := Option.ite_none_right_eq_some.1 h
      exact .gotEvent ev hcm
  | getEventFails =>
      obtain ⟨hcm, ⟨⟩⟩ := Option.ite_none_right_eq_some.1 h
      exact .getEventFailed hcm
  | cmCancelled =>
      obtain ⟨hc, ⟨⟩⟩ := Option.ite_none_right_eq_some.1 h
      exact .cancelled hc
  | cqExit =>
      obtain ⟨hlive, ⟨⟩⟩ := Option.ite_none_right_eq_some.1 h
      exact .cqExited hlive

/-- The events are those the manual of `librdmacm` names. -/
def EventsInOrder (s : File) : FileLabel → Prop
  | .getEvent ev => ev ∈ s.phase.events
  | _ => True

/-- At this step `rpmem_open` goes to `destroy_thread`. -/
def File.givesUp (s : File) (ok : Bool) : Bool :=
  match s.main with
  | .resolveAddr | .postRecv | .postSend | .waitOpen => !ok
  | .checkState => decide (s.state ≠ .established)
  | _ => false

/-- The condition under which `rpmem_open` gives back what it took: it gives up only while
`rpmem_addr_handler` has set nothing up, and `cm_thread` has ended when its channel goes.
The file is not closed, a region is unmapped before the next is mapped, and only then. -/
def Orderly (s : File) : FileLabel → Prop
  | .main ok =>
      (s.givesUp ok = true → s.book.live .pd = false) ∧
        (s.main = .destroyEventChannel → s.book.live .cmThread = false)
  | .map _ => s.region = false
  | .unmap => s.region = true
  | .close => False
  | .getEvent ev => ev ∈ s.phase.events
  | .getEventFails | .cm _ | .cmCancelled | .cqExit => True

instance (s : File) (a : FileLabel) : Decidable (EventsInOrder s a) :=
  match a with
  | .getEvent ev => inferInstanceAs (Decidable (ev ∈ s.phase.events))
  | .main _ | .map _ | .unmap | .close | .getEventFails | .cm _ | .cmCancelled | .cqExit =>
      inferInstanceAs (Decidable True)

instance (s : File) (a : FileLabel) : Decidable (Orderly s a) :=
  match a with
  | .main ok =>
      inferInstanceAs (Decidable ((s.givesUp ok = true → s.book.live .pd = false) ∧
        (s.main = .destroyEventChannel → s.book.live .cmThread = false)))
  | .map _ => inferInstanceAs (Decidable (s.region = false))
  | .unmap => inferInstanceAs (Decidable (s.region = true))
  | .close => inferInstanceAs (Decidable False)
  | .getEvent ev => inferInstanceAs (Decidable (ev ∈ s.phase.events))
  | .getEventFails | .cm _ | .cmCancelled | .cqExit => inferInstanceAs (Decidable True)

end Rpmem
