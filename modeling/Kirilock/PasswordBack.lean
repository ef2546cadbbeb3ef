import Kirilock.PasswordConv

/-!
`auth.back/src/password.c`: the component that `auth::Password` was ported from.

The threads, the kernel and PAM are those of `Password`; the context, the worker and
the client's calls are the C code's own.  A password is the bytes that the caller's
pointer leads to, with a NUL behind them; `strdup` copies what stands before the first
NUL.  `garbage` is what an uninitialised `status` holds.
-/

namespace Auth.Back

open Runs
open Auth.Password (Pid PamOutcomes ChildRun pamSuccess wIfExited wExitStatus cString)

/-! ## The context -/

/-- `kl_password_error_t`. -/
inductive KlPasswordError where
  | authFailed
  | system
  deriving DecidableEq, Repr

/-- A call of one of the `kl_password_handlers_t`. -/
inductive Handler where
  | onBegin
  | onFinish
  | onError (err : KlPasswordError) (msg : String)
  | onEnd
  | onStop
  | onDelete
  deriving DecidableEq, Repr

/-- `kl_password_handlers_t`: which of the pointers are not `NULL`. -/
structure KlPasswordHandlers where
  onBegin : Bool
  onFinish : Bool
  onError : Bool
  onEnd : Bool
  onStop : Bool
  onDelete : Bool
  deriving DecidableEq, Repr

def KlPasswordHandlers.has (hs : KlPasswordHandlers) : Handler → Bool
  | .onBegin => hs.onBegin
  | .onFinish => hs.onFinish
  | .onError _ _ => hs.onError
  | .onEnd => hs.onEnd
  | .onStop => hs.onStop
  | .onDelete => hs.onDelete

/-- `struct kl_password_ctx`; `candidate` is `NULL` or a C string without its NUL. -/
structure KlPasswordCtx where
  handlers : KlPasswordHandlers
  hasThread : Bool
  isRunning : Bool
  activePamPid : Pid
  candidate : Option (List UInt8)
  deriving DecidableEq, Repr

inductive Item where
  | verify (pass : List UInt8)
  | verifyReturned (ret : Int32)
  | stop
  | stopReturned
  | delete
  | handler (h : Handler)
  | deleted
  | forked (pid : Option Pid)
  | childEnded (run : ChildRun)
  | waited (pid : Pid) (status : Option Nat)
  /-- `SIGKILL` -/
  | kill (pid : Pid)
  | pthreadCreate (ok : Bool)
  /-- `strdup`, and the `free` that goes with it after an `explicit_bzero` -/
  | strdup (ret : Option (List UInt8))
  | freeCandidate (bytes : List UInt8)
  deriving DecidableEq, Repr

/-- `if (ctx->handlers.h) ctx->handlers.h(…)` -/
def KlPasswordCtx.invoke (ctx : KlPasswordCtx) (h : Handler) : List Item :=
  if ctx.handlers.has h then [.handler h] else []

/-- `explicit_bzero` and `free` of a candidate that is not `NULL`. -/
def KlPasswordCtx.freeCandidate (ctx : KlPasswordCtx) : List Item :=
  ctx.candidate.toList.map fun bytes => .freeCandidate (bytes.map fun _ => 0)

/-! ## The child -/

/-- `ret` at the end of the child. -/
def pwChildRet (o : PamOutcomes) : Int32 :=
  if o.start = pamSuccess then
    if o.authenticate = pamSuccess then o.acctMgmt else o.authenticate
  else o.start

/-- The status of a child that ended so. -/
def pwChildStatus : ChildRun → Nat
  | .pam o => (if pwChildRet o = pamSuccess then 0 else 1) * 256
  | .exits code => code.toNat * 256
  | .signaled sig core => sig + 1 + if core then 128 else 0

/-- A child that was not reaped: the string its `ctx->candidate` points to, and how it ended. -/
structure Child where
  pid : Pid
  candidate : List UInt8
  ended : Option ChildRun
  deriving DecidableEq, Repr

/-- The child `pid` ends. -/
def endChild (pid : Pid) (run : ChildRun) (c : Child) : Child :=
  if c.pid = pid then { c with ended := some run } else c

/-- The handler that `pw_worker` chooses for a status. -/
def pwVerdict (status : Nat) : Handler :=
  if wIfExited status && wExitStatus status == 0 then .onFinish
  else .onError .authFailed "Invalid password or access denied"

/-! ## `kl_password_stop` -/

inductive StopPc where
  | compare
  | exchange
  | kill (pid : Pid)
  deriving DecidableEq, Repr

/-- One step of `kl_password_stop`; without a next place it has returned. -/
def klPasswordStop (ctx : KlPasswordCtx) : StopPc → Option StopPc × KlPasswordCtx × List Item
  | .compare =>
    if ctx.isRunning then (some .exchange, { ctx with isRunning := false }, [])
    else (none, ctx, [.stopReturned])
  | .exchange =>
    let pamPid := ctx.activePamPid
    if pamPid > 0 then (some (.kill pamPid), { ctx with activePamPid := 0 }, [])
    else (none, { ctx with activePamPid := 0 }, [.stopReturned])
  | .kill pamPid => (none, ctx, [.kill pamPid, .stopReturned])

/-! ## `pw_worker` -/

/-- Where `pw_worker` is, from `onEnd` on behind the label `cleanup`. -/
inductive WorkerPc where
  | onBegin
  | fork
  | forkFailed
  | store (pid : Pid)
  | load (pid : Pid)
  | exchange (pid : Pid)
  | kill (pid toKill : Pid)
  | waitpid (pid : Pid)
  | reset (status : Nat)
  | loadVerdict (status : Nat)
  | report (status : Nat)
  | onEnd
  | loadStop
  | onStop
  | freeCandidate
  | storeStopped
  | exited
  deriving DecidableEq, Repr

/-- Where the client is. -/
inductive ClientPc where
  | idle
  | compare (pass : List UInt8)
  | join (pass : List UInt8)
  | strdup (pass : List UInt8)
  /-- `strdup` returned `NULL` -/
  | strdupStore
  | strdupReturn
  | create
  /-- `pthread_create` failed -/
  | createStore
  | createFree
  | stop (pc : StopPc)
  | deleteStop (pc : StopPc)
  | deleteJoin
  | deleteFree
  | onDelete
  | deleted
  deriving DecidableEq, Repr

structure State where
  ctx : KlPasswordCtx
  /-- the thread that was created and not joined -/
  thread : Option WorkerPc
  client : ClientPc
  /-- the calls of `kl_password_stop` on other threads -/
  stops : List StopPc
  children : List Child
  deriving DecidableEq, Repr

structure WorkerOutcomes where
  fork : Option Pid
  waitpid : Bool
  garbage : Nat
  deriving DecidableEq, Repr

def State.setCtx (s : State) (ctx : KlPasswordCtx) : State := { s with ctx := ctx }

def State.goto (s : State) (pc : WorkerPc) (out : List Item) : Option (State × List Item) :=
  some ({ s with thread := some pc }, out)

/-- One step of `pw_worker`. -/
def State.pwWorker (s : State) (pc : WorkerPc) (o : WorkerOutcomes) :
    Option (State × List Item) :=
  let ctx := s.ctx
  match pc with
  | .onBegin => s.goto .fork (ctx.invoke .onBegin)
  | .fork =>
    match o.fork with
    | none => s.goto .forkFailed [.forked none]
    | some pid =>
      if pid > 0 ∧ ∀ c ∈ s.children, c.pid ≠ pid then
        State.goto { s with children := ⟨pid, ctx.candidate.getD [], none⟩ :: s.children }
          (.store pid) [.forked (some pid)]
      else none
  | .forkFailed => s.goto .onEnd (ctx.invoke (.onError .system "fork() failed"))
  | .store pid => (s.setCtx { ctx with activePamPid := pid }).goto (.load pid) []
  | .load pid => s.goto (if ctx.isRunning = false then .exchange pid else .waitpid pid) []
  | .exchange pid =>
    let toKill := ctx.activePamPid
    (s.setCtx { ctx with activePamPid := 0 }).goto
      (if toKill > 0 then .kill pid toKill else .waitpid pid) []
  | .kill pid toKill => s.goto (.waitpid pid) [.kill toKill]
  | .waitpid pid =>
    if o.waitpid then
      match s.children.find? (·.pid = pid) with
      | some ⟨_, _, some run⟩ =>
        State.goto { s with children := s.children.filter (·.pid ≠ pid) }
          (.reset (pwChildStatus run)) [.waited pid (some (pwChildStatus run))]
      | _ => none
    else s.goto (.reset o.garbage) [.waited pid none]
  | .reset status => (s.setCtx { ctx with activePamPid := 0 }).goto (.loadVerdict status) []
  | .loadVerdict status => s.goto (if ctx.isRunning then .report status else .onEnd) []
  | .report status => s.goto .onEnd (ctx.invoke (pwVerdict status))
  | .onEnd => s.goto .loadStop (ctx.invoke .onEnd)
  | .loadStop => s.goto (if ctx.isRunning = false then .onStop else .freeCandidate) []
  | .onStop => s.goto .freeCandidate (ctx.invoke .onStop)
  | .freeCandidate =>
    (s.setCtx { ctx with candidate := none }).goto .storeStopped ctx.freeCandidate
  | .storeStopped => (s.setCtx { ctx with isRunning := false }).goto .exited []
  | .exited => none

/-! ## The client's calls -/

def State.clientAt (s : State) (pc : ClientPc) (out : List Item) : Option (State × List Item) :=
  some ({ s with client := pc }, out)

/-- `if (ctx->has_thread)`: `pthread_join`, which waits for the thread's end. -/
def State.pthreadJoin (s : State) (pc : ClientPc) : Option (State × List Item) :=
  if s.ctx.hasThread then
    match s.thread with
    | some .exited =>
      State.clientAt { s.setCtx { s.ctx with hasThread := false } with thread := none } pc []
    | _ => none
  else s.clientAt pc []

/-- One step of the client's call; `ok` says that what it calls succeeds. -/
def State.klPasswordCall (s : State) (ok : Bool) : Option (State × List Item) :=
  let ctx := s.ctx
  match s.client with
  | .compare pass =>
    if ctx.isRunning then s.clientAt .idle [.verifyReturned (-1)]
    else (s.setCtx { ctx with isRunning := true }).clientAt (.join pass) []
  | .join pass => s.pthreadJoin (.strdup pass)
  | .strdup pass =>
    if ok then
      let copy := cString (pass ++ [0])
      (s.setCtx { ctx with candidate := some copy, hasThread := true }).clientAt .create
        [.strdup (some copy)]
    else (s.setCtx { ctx with candidate := none }).clientAt .strdupStore [.strdup none]
  | .strdupStore => (s.setCtx { ctx with isRunning := false }).clientAt .strdupReturn []
  | .strdupReturn => s.clientAt .idle [.verifyReturned (-1)]
  | .create =>
    if ok then
      State.clientAt { s with thread := some .onBegin } .idle
        [.pthreadCreate true, .verifyReturned 0]
    else (s.setCtx { ctx with hasThread := false }).clientAt .createStore [.pthreadCreate false]
  | .createStore => (s.setCtx { ctx with isRunning := false }).clientAt .createFree []
  | .createFree =>
    (s.setCtx { ctx with candidate := none }).clientAt .idle
      (ctx.freeCandidate ++ [.verifyReturned (-1)])
  | .stop pc =>
    let r := klPasswordStop ctx pc
    (s.setCtx r.2.1).clientAt (r.1.elim .idle .stop) r.2.2
  | .deleteStop pc =>
    let r := klPasswordStop ctx pc
    (s.setCtx r.2.1).clientAt (r.1.elim .deleteJoin .deleteStop) r.2.2
  | .deleteJoin => s.pthreadJoin .deleteFree
  -- the pointer is left as it is: the context is freed next
  | .deleteFree => s.clientAt .onDelete ctx.freeCandidate
  | .onDelete =>
    if s.stops = [] then s.clientAt .deleted (ctx.invoke .onDelete ++ [.deleted]) else none
  | .idle | .deleted => none

/-! ## The machine -/

inductive Input where
  | verify (pass : List UInt8)
  | stop
  | delete
  /-- the client's call goes on -/
  | client (ok : Bool)
  | otherStop
  | other (i : Nat)
  | worker (o : WorkerOutcomes)
  | childEnds (pid : Pid) (run : ChildRun)
  deriving DecidableEq, Repr

def State.step (s : State) : Input → Option (State × List Item)
  | .verify pass => if s.client = .idle then s.clientAt (.compare pass) [.verify pass] else none
  | .stop => if s.client = .idle then s.clientAt (.stop .compare) [.stop] else none
  | .delete => if s.client = .idle then s.clientAt (.deleteStop .compare) [.delete, .stop] else none
  | .client ok => s.klPasswordCall ok
  | .otherStop =>
    if s.client = .deleted then none else some ({ s with stops := .compare :: s.stops }, [.stop])
  | .other i =>
    match s.stops[i]? with
    | none => none
    | some pc =>
      let r := klPasswordStop s.ctx pc
      some ({ s.setCtx r.2.1 with
        stops := s.stops.take i ++ r.1.toList ++ s.stops.drop (i + 1) }, r.2.2)
  | .worker o => s.thread.bind fun pc => s.pwWorker pc o
  | .childEnds pid run =>
    match s.children.find? (·.pid = pid) with
    | some ⟨_, _, none⟩ =>
      some ({ s with children := s.children.map (endChild pid run) }, [.childEnded run])
    | _ => none

/-- `kl_password_init` and `kl_password_set_handlers`. -/
def start (handlers : KlPasswordHandlers) : State where
  ctx := ⟨handlers, false, false, 0, none⟩
  thread := none
  client := .idle
  stops := []
  children := []

def machine : Machine State Input Item where
  init s := ∃ handlers, s = start handlers
  step := State.step

end Auth.Back
