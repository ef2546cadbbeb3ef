import Kirilock.Runs

/-!
`libs/auth/src/fingerprint.cpp`: the object `auth::Fingerprint` and the threads that
use it.

One client thread calls `start`, `stop` and the destructor; any number of other
threads call `stop`; `worker_thread_` runs `run_worker`.  A step is one atomic
operation, one call of the bus or the pipe, or one handler.  A handler that calls
`stop` is a `stop` of another thread here: that only adds interleavings.

The device emits `VerifyStatus` signals when it likes.  They are queued in order
(`queue`) and `sd_bus_process` gives the oldest to `fprint_signal_cb`, or finds
none yet, or does other work, or fails.  Signals are numbered as they are emitted.
-/

namespace Auth.Fingerprint

open Runs

/-! ## Handlers and signals -/

/-- `FingerprintError`. -/
inductive Error where
  | notMatch
  | notFound
  | system
  deriving DecidableEq, Repr

/-- A call of one of the `FingerprintHandlers`. -/
inductive Handler where
  | onStart
  | onLoop
  | onFinish
  | onError (e : Error) (msg : String)
  | onEnd
  | onStop
  | onDelete
  deriving DecidableEq, Repr

/-- Which of the `FingerprintHandlers` are set. -/
structure Handlers where
  onStart : Bool
  onLoop : Bool
  onFinish : Bool
  onError : Bool
  onEnd : Bool
  onStop : Bool
  onDelete : Bool
  deriving DecidableEq, Repr

def Handlers.has (hs : Handlers) : Handler → Bool
  | .onStart => hs.onStart
  | .onLoop => hs.onLoop
  | .onFinish => hs.onFinish
  | .onError _ _ => hs.onError
  | .onEnd => hs.onEnd
  | .onStop => hs.onStop
  | .onDelete => hs.onDelete

/-- The body of a `VerifyStatus` signal. -/
inductive Signal where
  | status (result : String) (done : Bool)
  | unreadable
  deriving DecidableEq, Repr

/-- The handler that `fprint_signal_cb` chooses. -/
def verdict (result : String) : Handler :=
  if result = "verify-match" then .onFinish
  else if result = "verify-no-match" then .onError .notMatch "Fingerprint did not match"
  else .onError .system "Internal sensor error"

/-! ## The object -/

/-- The members that the threads share; `device` is `bus_ && !device_path_.empty()`, and
`cancelPipe` is the number of bytes in the pipe where there is one. -/
structure Members where
  handlers : Handlers
  isRunning : Bool
  checkInProgress : Bool
  cancelPipe : Option Nat
  device : Bool
  deriving DecidableEq, Repr

inductive StartResult where
  | started
  | running
  | threw
  deriving DecidableEq, Repr

inductive Item where
  | start
  | startReturned (r : StartResult)
  | stop
  /-- `found`: `is_running_` was true -/
  | stopReturned (found : Bool)
  | delete
  | deleted
  | started
  | joined
  /-- a handler, with the signal that made `fprint_signal_cb` call it -/
  | handler (signal : Option Nat) (h : Handler)
  /-- `fprint_signal_cb` ends the scan for this signal -/
  | scanEnded (signal : Nat)
  | verifyStart (ok : Bool)
  | verifyStop
  | release
  | emitted (signal : Nat) (body : Signal)
  deriving DecidableEq, Repr

/-- `if (handlers_.h) handlers_.h(…)`. -/
def Members.invoke (p : Members) (signal : Option Nat) (h : Handler) : List Item :=
  if p.handlers.has h then [.handler signal h] else []

/-! ## `stop` -/

/-- Where a call of `stop` is; `found` says that it found `is_running_` true. -/
inductive StopPc where
  | compareRunning
  | write
  | compareCheck (found : Bool)
  | onEnd (found : Bool)
  | onStop (found : Bool)
  deriving DecidableEq, Repr

/-- One step of `stop`; `ok` says that `write` writes.  Without a next place it has
returned. -/
def Members.stop (p : Members) (ok : Bool) : StopPc → Option StopPc × Members × List Item
  | .compareRunning =>
    if p.isRunning then (some .write, { p with isRunning := false }, [])
    else (some (.compareCheck false), p, [])
  | .write =>
    (some (.compareCheck true),
      { p with cancelPipe := if ok then p.cancelPipe.map (· + 1) else p.cancelPipe }, [])
  | .compareCheck found =>
    if p.checkInProgress then (some (.onEnd found), { p with checkInProgress := false }, [])
    else (none, p, [.stopReturned found])
  | .onEnd found => (some (.onStop found), p, p.invoke none .onEnd)
  | .onStop found => (none, p, p.invoke none .onStop ++ [.stopReturned found])

/-! ## The worker -/

/-- Where `run_worker` is; `signal` and `body` are those that `fprint_signal_cb` handles. -/
inductive WorkerPc where
  /-- at the condition of the outer loop -/
  | loadRunning
  | notFound
  | verifyStart
  | startFailed (msg : Option String)
  /-- at a `break` of the outer loop -/
  | leave
  | storeCheck
  | onLoop
  /-- at the condition of the inner loop -/
  | loadInner
  | loadCheck
  | process
  | callback (signal : Nat) (body : Signal)
  | compareCheck (signal : Nat)
  | callbackEnd (signal : Nat)
  | select
  | verifyStop
  | pause
  | exited
  deriving DecidableEq, Repr

/-- Where the client is. -/
inductive ClientPc where
  | idle
  /-- `start`: at `joinable` and the load of `is_running_` -/
  | load
  | join
  | drain
  | storeRunning
  | storeCheck
  | onStart
  | create
  /-- `catch (...)` -/
  | catchStore
  | stop (pc : StopPc)
  | deleteStop (pc : StopPc)
  | deleteJoin
  | release
  | close
  | onDelete
  | deleted
  deriving DecidableEq, Repr

structure State where
  obj : Members
  /-- `worker_thread_`, where it is joinable -/
  worker : Option WorkerPc
  client : ClientPc
  /-- the calls of `stop` on other threads -/
  stops : List StopPc
  queue : List (Nat × Signal)
  /-- how many signals were emitted -/
  emissions : Nat
  deriving DecidableEq, Repr

/-- How `VerifyStart` answers; an error has a message or not. -/
inductive StartOutcome where
  | ok
  | failed (msg : Option String)
  deriving DecidableEq, Repr

/-- What `sd_bus_process` does. -/
inductive ProcessOutcome where
  | failed
  | nothing
  | other
  | signal
  deriving DecidableEq, Repr

structure WorkerOutcomes where
  verifyStart : StartOutcome
  process : ProcessOutcome
  deriving DecidableEq, Repr

def State.setObj (s : State) (p : Members) : State := { s with obj := p }

/-- `run_worker` moves on. -/
def State.goto (s : State) (pc : WorkerPc) (out : List Item) : Option (State × List Item) :=
  some ({ s with worker := some pc }, out)

/-- One step of `run_worker`, with `fprint_signal_cb` in it. -/
def State.runWorker (s : State) (o : WorkerOutcomes) : WorkerPc → Option (State × List Item)
  | .loadRunning =>
    s.goto (if s.obj.isRunning then if s.obj.device then .verifyStart else .notFound
      else .exited) []
  | .notFound =>
    s.goto .leave (s.obj.invoke none (.onError .notFound "D-Bus or device not found"))
  | .verifyStart =>
    match o.verifyStart with
    | .ok => s.goto .storeCheck [.verifyStart true]
    | .failed msg => s.goto (.startFailed msg) [.verifyStart false]
  | .startFailed msg =>
    s.goto .leave (s.obj.invoke none (.onError .system (msg.getD "Failed to start scanning")))
  | .leave => s.goto .exited []
  | .storeCheck => (s.setObj { s.obj with checkInProgress := true }).goto .onLoop []
  | .onLoop => s.goto .loadInner (s.obj.invoke none .onLoop)
  | .loadInner => s.goto (if s.obj.isRunning then .loadCheck else .verifyStop) []
  | .loadCheck => s.goto (if s.obj.checkInProgress then .process else .verifyStop) []
  | .process =>
    match o.process with
    | .failed => s.goto .verifyStop []
    | .nothing => s.goto .select []
    | .other => s.goto .loadInner []
    | .signal =>
      match s.queue with
      | [] => none
      | x :: queue => State.goto { s with queue := queue } (.callback x.1 x.2) []
  | .callback k (.status result done) =>
    s.goto (if done then .compareCheck k else .loadInner) (s.obj.invoke (some k) (verdict result))
  | .callback _ .unreadable => s.goto .loadInner []
  | .compareCheck k =>
    if s.obj.checkInProgress then
      (s.setObj { s.obj with checkInProgress := false }).goto (.callbackEnd k) [.scanEnded k]
    else s.goto .loadInner []
  | .callbackEnd k => s.goto .loadInner (s.obj.invoke (some k) .onEnd)
  | .select => s.goto .loadInner []
  | .verifyStop => s.goto .pause [.verifyStop]
  | .pause => s.goto .loadRunning []
  | .exited => none

/-! ## The client -/

def State.clientAt (s : State) (pc : ClientPc) (out : List Item) : Option (State × List Item) :=
  some ({ s with client := pc }, out)

/-- One step of the client's call; `ok` says that what it calls throws nothing, and reads or
writes. -/
def State.runClient (s : State) (ok : Bool) : Option (State × List Item) :=
  let p := s.obj
  match s.client with
  | .load =>
    if s.worker.isSome then
      if p.isRunning then s.clientAt .idle [.startReturned .running] else s.clientAt .join []
    else s.clientAt .drain []
  | .join =>
    if ok = false then s.clientAt .catchStore []
    else if s.worker = some .exited then State.clientAt { s with worker := none } .drain [.joined]
    else none
  | .drain =>
    -- one `select` and `read`; it goes on while there are bytes
    match p.cancelPipe with
    | some (n + 1) =>
      if ok then (s.setObj { p with cancelPipe := some (n + 1 - 64) }).clientAt .drain []
      else s.clientAt .storeRunning []
    | _ => s.clientAt .storeRunning []
  | .storeRunning => (s.setObj { p with isRunning := true }).clientAt .storeCheck []
  | .storeCheck => (s.setObj { p with checkInProgress := false }).clientAt .onStart []
  | .onStart =>
    -- only a handler that is set can throw
    s.clientAt (if ok = false ∧ p.handlers.onStart then .catchStore else .create)
      (p.invoke none .onStart)
  | .create =>
    if ok then
      State.clientAt { s with worker := some .loadRunning } .idle
        [.started, .startReturned .started]
    else s.clientAt .catchStore []
  | .catchStore =>
    (s.setObj { p with isRunning := false }).clientAt .idle [.startReturned .threw]
  | .stop pc =>
    let r := p.stop ok pc
    (s.setObj r.2.1).clientAt (r.1.elim .idle .stop) r.2.2
  | .deleteStop pc =>
    let r := p.stop ok pc
    (s.setObj r.2.1).clientAt (r.1.elim .deleteJoin .deleteStop) r.2.2
  | .deleteJoin =>
    if s.worker = none then s.clientAt .release []
    else if s.worker = some .exited then
      State.clientAt { s with worker := none } .release [.joined]
    else none
  | .release => s.clientAt .close (if p.device then [.release] else [])
  | .close => (s.setObj { p with cancelPipe := none }).clientAt .onDelete []
  | .onDelete =>
    -- no other thread is in a member function of an object that is gone
    if s.stops = [] then s.clientAt .deleted (p.invoke none .onDelete ++ [.deleted]) else none
  | .idle | .deleted => none

/-! ## The machine -/

inductive Input where
  /-- the client calls -/
  | start
  | stop
  | delete
  /-- the client's call goes on -/
  | client (ok : Bool)
  /-- another thread calls `stop` -/
  | otherStop
  /-- the `i`-th of these calls goes on -/
  | other (i : Nat) (ok : Bool)
  | worker (o : WorkerOutcomes)
  /-- the device emits a signal -/
  | emit (body : Signal)
  deriving DecidableEq, Repr

def State.step (s : State) : Input → Option (State × List Item)
  | .start => if s.client = .idle then s.clientAt .load [.start] else none
  | .stop => if s.client = .idle then s.clientAt (.stop .compareRunning) [.stop] else none
  | .delete =>
    if s.client = .idle then s.clientAt (.deleteStop .compareRunning) [.delete, .stop] else none
  | .client ok => s.runClient ok
  | .otherStop =>
    if s.client = .deleted then none
    else some ({ s with stops := .compareRunning :: s.stops }, [.stop])
  | .other i ok =>
    match s.stops[i]? with
    | none => none
    | some pc =>
      let r := s.obj.stop ok pc
      some ({ s.setObj r.2.1 with
        stops := s.stops.take i ++ r.1.toList ++ s.stops.drop (i + 1) }, r.2.2)
  | .worker o => s.worker.bind (s.runWorker o)
  | .emit body =>
    some ({ s with queue := s.queue ++ [(s.emissions, body)], emissions := s.emissions + 1 },
      [.emitted s.emissions body])

/-- An object whose handlers were set; the pipe or the device may be missing. -/
def start (handlers : Handlers) (pipe device : Bool) : State where
  obj := ⟨handlers, false, false, if pipe then some 0 else none, device⟩
  worker := none
  client := .idle
  stops := []
  queue := []
  emissions := 0

def machine : Machine State Input Item where
  init s := ∃ handlers pipe device, s = start handlers pipe device
  step := State.step

theorem start_init (handlers : Handlers) (pipe device : Bool) :
    machine.init (start handlers pipe device) :=
  ⟨handlers, pipe, device, rfl⟩

end Auth.Fingerprint
