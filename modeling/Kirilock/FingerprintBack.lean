import Kirilock.Fingerprint

/-!
`auth.back/src/fingerprint.c`: the component that `auth::Fingerprint` was ported from.

The threads, the bus and the device are those of `Fingerprint`; the context, the worker and
the calls are the C code's own.  `has_thread` is set where the worker is created and cleared
only in `kl_fingerprint_delete`; `kl_fingerprint_start` is refused while it is set.
-/

namespace Auth.Back.Fingerprint

open Runs
open Auth.Fingerprint (Signal StartOutcome ProcessOutcome WorkerOutcomes Input)

/-! ## The context -/

/-- `kl_fingerprint_error_t`. -/
inductive KlFingerprintError where
  | notMatch
  | notFound
  | system
  deriving DecidableEq, Repr

/-- A call of one of the `kl_fingerprint_handlers_t`. -/
inductive Handler where
  | onStart
  | onLoop
  | onFinish
  | onError (err : KlFingerprintError) (msg : String)
  | onEnd
  | onStop
  | onDelete
  deriving DecidableEq, Repr

/-- `kl_fingerprint_handlers_t`: which of the pointers are not `NULL`. -/
structure KlFingerprintHandlers where
  onStart : Bool
  onLoop : Bool
  onFinish : Bool
  onError : Bool
  onEnd : Bool
  onStop : Bool
  onDelete : Bool
  deriving DecidableEq, Repr

def KlFingerprintHandlers.has (hs : KlFingerprintHandlers) : Handler → Bool
  | .onStart => hs.onStart
  | .onLoop => hs.onLoop
  | .onFinish => hs.onFinish
  | .onError _ _ => hs.onError
  | .onEnd => hs.onEnd
  | .onStop => hs.onStop
  | .onDelete => hs.onDelete

/-- `struct kl_fingerprint_ctx`; `device` is `bus && device_path`, and `cancelPipe` is the
number of bytes in the pipe until it is closed. -/
structure KlFingerprintCtx where
  handlers : KlFingerprintHandlers
  hasThread : Bool
  isRunning : Bool
  checkInProgress : Bool
  cancelPipe : Option Nat
  device : Bool
  deriving DecidableEq, Repr

inductive Item where
  | start
  | startReturned (ret : Int32)
  | stop
  | stopReturned
  | delete
  | deleted
  | created
  | joined
  /-- a handler, with the signal that made `fprint_signal_cb` call it -/
  | handler (signal : Option Nat) (h : Handler)
  /-- `fprint_signal_cb` ends the scan for this signal -/
  | scanEnded (signal : Nat)
  | verifyStart (ok : Bool)
  | verifyStop
  | release
  | emitted (signal : Nat) (body : Signal)
  deriving DecidableEq, Repr

/-- `if (ctx->handlers.h) ctx->handlers.h(…)` -/
def KlFingerprintCtx.invoke (ctx : KlFingerprintCtx) (signal : Option Nat) (h : Handler) :
    List Item :=
  if ctx.handlers.has h then [.handler signal h] else []

/-- The handler that `fprint_signal_cb` chooses. -/
def fprintVerdict (result : String) : Handler :=
  if result = "verify-match" then .onFinish
  else if result = "verify-no-match" then .onError .notMatch "Fingerprint did not match"
  else .onError .system "Internal sensor error"

/-! ## `kl_fingerprint_stop` -/

inductive StopPc where
  | compareRunning
  | write
  | compareCheck
  | onEnd
  | onStop
  deriving DecidableEq, Repr

/-- One step of `kl_fingerprint_stop`; without a next place it has returned. -/
def klFingerprintStop (ctx : KlFingerprintCtx) (ok : Bool) :
    StopPc → Option StopPc × KlFingerprintCtx × List Item
  | .compareRunning =>
    if ctx.isRunning then (some .write, { ctx with isRunning := false }, [])
    else (some .compareCheck, ctx, [])
  | .write =>
    (some .compareCheck,
      { ctx with cancelPipe := if ok then ctx.cancelPipe.map (· + 1) else ctx.cancelPipe }, [])
  | .compareCheck =>
    if ctx.checkInProgress then (some .onEnd, { ctx with checkInProgress := false }, [])
    else (none, ctx, [.stopReturned])
  | .onEnd => (some .onStop, ctx, ctx.invoke none .onEnd)
  | .onStop => (none, ctx, ctx.invoke none .onStop ++ [.stopReturned])

/-! ## `fp_worker` -/

/-- Where `fp_worker` is; `signal` and `body` are those that `fprint_signal_cb` handles. -/
inductive WorkerPc where
  /-- at the condition of the outer loop -/
  | loadRunning
  | notFound
  | verifyStart
  | startFailed (msg : Option String)
  /-- at a `break` of the outer loop -/
  | leave
  | storeCheck
  | onLoop
  /-- at the condition of the inner loop -/
  | loadInner
  | loadCheck
  | process
  | callback (signal : Nat) (body : Signal)
  | compareCheck (signal : Nat)
  | callbackEnd (signal : Nat)
  | select
  | verifyStop
  | usleep
  | exited
  deriving DecidableEq, Repr

/-- Where the client is. -/
inductive ClientPc where
  | idle
  /-- `kl_fingerprint_start`: at the test of `has_thread` -/
  | test
  | drain
  | storeRunning
  | storeCheck
  | onStart
  | create
  /-- `pthread_create` failed -/
  | createStore
  | stop (pc : StopPc)
  | deleteStop (pc : StopPc)
  | deleteJoin
  | release
  | close
  | onDelete
  | deleted
  deriving DecidableEq, Repr

structure State where
  ctx : KlFingerprintCtx
  /-- the thread that was created and not joined -/
  thread : Option WorkerPc
  client : ClientPc
  /-- the calls of `kl_fingerprint_stop` on other threads -/
  stops : List StopPc
  queue : List (Nat × Signal)
  /-- how many signals were emitted -/
  emissions : Nat
  deriving DecidableEq, Repr

def State.setCtx (s : State) (ctx : KlFingerprintCtx) : State := { s with ctx := ctx }

def State.goto (s : State) (pc : WorkerPc) (out : List Item) : Option (State × List Item) :=
  some ({ s with thread := some pc }, out)

/-- One step of `fp_worker`, with `fprint_signal_cb` in it. -/
def State.fpWorker (s : State) (o : WorkerOutcomes) : WorkerPc → Option (State × List Item)
  | .loadRunning =>
    s.goto (if s.ctx.isRunning then if s.ctx.device then .verifyStart else .notFound
      else .exited) []
  | .notFound =>
    s.goto .leave (s.ctx.invoke none (.onError .notFound "D-Bus or device not found"))
  | .verifyStart =>
    match o.verifyStart with
    | .ok => s.goto .storeCheck [.verifyStart true]
    | .failed msg => s.goto (.startFailed msg) [.verifyStart false]
  | .startFailed msg =>
    s.goto .leave (s.ctx.invoke none (.onError .system (msg.getD "Failed to start scanning")))
  | .leave => s.goto .exited []
  | .storeCheck => (s.setCtx { s.ctx with checkInProgress := true }).goto .onLoop []
  | .onLoop => s.goto .loadInner (s.ctx.invoke none .onLoop)
  | .loadInner => s.goto (if s.ctx.isRunning then .loadCheck else .verifyStop) []
  | .loadCheck => s.goto (if s.ctx.checkInProgress then .process else .verifyStop) []
  | .process =>
    match o.process with
    | .failed => s.goto .verifyStop []
    | .nothing => s.goto .select []
    | .other => s.goto .loadInner []
    | .signal =>
      match s.queue with
      | [] => none
      | x :: queue => State.goto { s with queue := queue } (.callback x.1 x.2) []
  | .callback k (.status result done) =>
    s.goto (if done then .compareCheck k else .loadInner)
      (s.ctx.invoke (some k) (fprintVerdict result))
  | .callback _ .unreadable => s.goto .loadInner []
  | .compareCheck k =>
    if s.ctx.checkInProgress then
      (s.setCtx { s.ctx with checkInProgress := false }).goto (.callbackEnd k) [.scanEnded k]
    else s.goto .loadInner []
  | .callbackEnd k => s.goto .loadInner (s.ctx.invoke (some k) .onEnd)
  | .select => s.goto .loadInner []
  | .verifyStop => s.goto .usleep [.verifyStop]
  | .usleep => s.goto .loadRunning []
  | .exited => none

/-! ## The client's calls -/

def State.clientAt (s : State) (pc : ClientPc) (out : List Item) : Option (State × List Item) :=
  some ({ s with client := pc }, out)

/-- One step of the client's call; `ok` says that what it calls reads, writes or succeeds. -/
def State.klFingerprintCall (s : State) (ok : Bool) : Option (State × List Item) :=
  let ctx := s.ctx
  match s.client with
  | .test =>
    if ctx.hasThread then s.clientAt .idle [.startReturned (-1)] else s.clientAt .drain []
  | .drain =>
    -- one `select` and `read`; it goes on while there are bytes
    match ctx.cancelPipe with
    | some (n + 1) =>
      if ok then (s.setCtx { ctx with cancelPipe := some (n + 1 - 64) }).clientAt .drain []
      else s.clientAt .storeRunning []
    | _ => s.clientAt .storeRunning []
  | .storeRunning => (s.setCtx { ctx with isRunning := true }).clientAt .storeCheck []
  | .storeCheck => (s.setCtx { ctx with checkInProgress := false }).clientAt .onStart []
  | .onStart => s.clientAt .create (ctx.invoke none .onStart)
  | .create =>
    if ok then
      State.clientAt { s.setCtx { ctx with hasThread := true } with thread := some .loadRunning }
        .idle [.created, .startReturned 0]
    else s.clientAt .createStore []
  | .createStore =>
    (s.setCtx { ctx with isRunning := false }).clientAt .idle [.startReturned (-1)]
  | .stop pc =>
    let r := klFingerprintStop ctx ok pc
    (s.setCtx r.2.1).clientAt (r.1.elim .idle .stop) r.2.2
  | .deleteStop pc =>
    let r := klFingerprintStop ctx ok pc
    (s.setCtx r.2.1).clientAt (r.1.elim .deleteJoin .deleteStop) r.2.2
  | .deleteJoin =>
    -- `pthread_join` waits for the thread's end
    if ctx.hasThread then
      if s.thread = some .exited then
        State.clientAt { s.setCtx { ctx with hasThread := false } with thread := none } .release
          [.joined]
      else none
    else s.clientAt .release []
  | .release => s.clientAt .close (if ctx.device then [.release] else [])
  | .close => (s.setCtx { ctx with cancelPipe := none }).clientAt .onDelete []
  | .onDelete =>
    -- no other thread is in a function that has a context that is freed
    if s.stops = [] then s.clientAt .deleted (ctx.invoke none .onDelete ++ [.deleted]) else none
  | .idle | .deleted => none

/-! ## The machine -/

def State.step (s : State) : Input → Option (State × List Item)
  | .start => if s.client = .idle then s.clientAt .test [.start] else none
  | .stop => if s.client = .idle then s.clientAt (.stop .compareRunning) [.stop] else none
  | .delete =>
    if s.client = .idle then s.clientAt (.deleteStop .compareRunning) [.delete, .stop] else none
  | .client ok => s.klFingerprintCall ok
  | .otherStop =>
    if s.client = .deleted then none
    else some ({ s with stops := .compareRunning :: s.stops }, [.stop])
  | .other i ok =>
    match s.stops[i]? with
    | none => none
    | some pc =>
      let r := klFingerprintStop s.ctx ok pc
      some ({ s.setCtx r.2.1 with
        stops := s.stops.take i ++ r.1.toList ++ s.stops.drop (i + 1) }, r.2.2)
  | .worker o => s.thread.bind (s.fpWorker o)
  | .emit body =>
    some ({ s with queue := s.queue ++ [(s.emissions, body)], emissions := s.emissions + 1 },
      [.emitted s.emissions body])

/-- `kl_fingerprint_init` and `kl_fingerprint_set_handlers`: without a pipe there is no
context. -/
def start (handlers : KlFingerprintHandlers) (device : Bool) : State where
  ctx := ⟨handlers, false, false, false, some 0, device⟩
  thread := none
  client := .idle
  stops := []
  queue := []
  emissions := 0

def machine : Machine State Input Item where
  init s := ∃ handlers device, s = start handlers device
  step := State.step

theorem start_init (handlers : KlFingerprintHandlers) (device : Bool) :
    machine.init (start handlers device) :=
  ⟨handlers, device, rfl⟩

end Auth.Back.Fingerprint
