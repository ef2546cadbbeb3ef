import Kirilock.Runs

/-!
`libs/auth/src/password.cpp`: the object `auth::Password` and the threads that use it.

One client thread calls `verify`, `stop` and the destructor; any number of other
threads call `stop`; `worker_thread_` runs `run_worker`.  A step is one atomic
operation, one system call or one handler, so a run of the machine is an
interleaving of the threads.  A handler that calls `stop` is a `stop` of another
thread here: that only adds interleavings.

The kernel's part is the list of children that were not reaped.  A child ends when
it likes and how it likes (`ChildRun`); `waitpid` gives the status of one that has
ended, or fails and leaves `status` alone.

Attempts are numbered by the `verify` call that started them; `n` in an item is
such a number.
-/

namespace Auth.Password

open Runs

/-! ## Handlers -/

/-- `PasswordError`. -/
inductive Error where
  | authFailed
  | system
  deriving DecidableEq, Repr

/-- A call of one of the `PasswordHandlers`. -/
inductive Handler where
  | onBegin
  | onFinish
  | onError (e : Error) (msg : String)
  | onEnd
  | onStop
  | onDelete
  deriving DecidableEq, Repr

/-- Which of the `PasswordHandlers` are set. -/
structure Handlers where
  onBegin : Bool
  onFinish : Bool
  onError : Bool
  onEnd : Bool
  onStop : Bool
  onDelete : Bool
  deriving DecidableEq, Repr

def Handlers.has (hs : Handlers) : Handler → Bool
  | .onBegin => hs.onBegin
  | .onFinish => hs.onFinish
  | .onError _ _ => hs.onError
  | .onEnd => hs.onEnd
  | .onStop => hs.onStop
  | .onDelete => hs.onDelete

/-! ## The child -/

/-- A positive `pid_t`; 0 in `active_pam_pid_` is no process. -/
abbrev Pid := Nat

def pamSuccess : Int32 := 0

/-- What `pam_start`, `pam_authenticate` and `pam_acct_mgmt` return, where they are called. -/
structure PamOutcomes where
  start : Int32
  authenticate : Int32
  acctMgmt : Int32
  deriving DecidableEq, Repr

/-- `ret` at the end of the child. -/
def PamOutcomes.ret (o : PamOutcomes) : Int32 :=
  if o.start = pamSuccess then
    if o.authenticate = pamSuccess then o.acctMgmt else o.authenticate
  else o.start

/-- The argument of the child's `_exit`. -/
def PamOutcomes.exitCode (o : PamOutcomes) : UInt8 := if o.ret = pamSuccess then 0 else 1

/-- How a child ends: it runs to its `_exit`, something that PAM runs exits before,
or a signal ends it. -/
inductive ChildRun where
  | pam (o : PamOutcomes)
  | exits (code : UInt8)
  | signaled (sig : Fin 126) (core : Bool)
  deriving DecidableEq, Repr

/-- Ended by `SIGKILL`. -/
def ChildRun.killed : ChildRun := .signaled 8 false

/-- The status that `waitpid` stores; signal `sig + 1`. -/
def ChildRun.status : ChildRun → Nat
  | .pam o => o.exitCode.toNat * 256
  | .exits code => code.toNat * 256
  | .signaled sig core => sig + 1 + if core then 128 else 0

/-- `WIFEXITED(status)`. -/
def wIfExited (status : Nat) : Bool := status % 128 == 0

/-- `WEXITSTATUS(status)`. -/
def wExitStatus (status : Nat) : Nat := status / 256 % 256

/-- The handler that `run_worker` chooses for a status. -/
def verdict (status : Nat) : Handler :=
  if wIfExited status && wExitStatus status == 0 then .onFinish
  else .onError .authFailed "Invalid password or access denied"

/-- A child that was not reaped: the attempt it is of, its copy of `candidate_`, and how
it ended. -/
structure Child where
  pid : Pid
  attempt : Nat
  candidate : List UInt8
  ended : Option ChildRun
  deriving DecidableEq, Repr

/-! ## The object -/

/-- The members that the threads share. -/
structure Members where
  handlers : Handlers
  isRunning : Bool
  activePamPid : Pid
  candidate : List UInt8
  deriving DecidableEq, Repr

inductive Item where
  | verify (n : Nat) (pass : List UInt8)
  | verifyReturned (n : Nat) (ok : Bool)
  | stop
  /-- `found`: `is_running_` was true -/
  | stopReturned (found : Bool)
  | delete
  | deleted
  | started (n : Nat)
  | handler (n : Nat) (h : Handler)
  | onDelete
  | forked (n : Nat) (pid : Option Pid)
  | childEnded (n : Nat) (run : ChildRun)
  /-- `waitpid` returned the child's status, or -1 -/
  | waited (n : Nat) (pid : Pid) (status : Option Nat)
  /-- `SIGKILL` -/
  | kill (pid : Pid)
  /-- `candidate_` is emptied; its bytes before that -/
  | cleared (bytes : List UInt8)
  deriving DecidableEq, Repr

def secureClear : List UInt8 → List UInt8
  | [] => []
  | _ :: v => 0 :: secureClear v

def Members.clearCandidate (p : Members) : Members × List Item :=
  if p.candidate.isEmpty then (p, [])
  else ({ p with candidate := [] }, [.cleared (secureClear p.candidate)])

@[simp] theorem Members.clearCandidate_candidate (p : Members) :
    p.clearCandidate.1.candidate = [] := by
  unfold Members.clearCandidate
  split
  · rename_i h
    exact List.isEmpty_iff.mp h
  · rfl

@[simp] theorem Members.clearCandidate_handlers (p : Members) :
    p.clearCandidate.1.handlers = p.handlers := by
  unfold Members.clearCandidate
  split <;> rfl

@[simp] theorem Members.clearCandidate_isRunning (p : Members) :
    p.clearCandidate.1.isRunning = p.isRunning := by
  unfold Members.clearCandidate
  split <;> rfl

@[simp] theorem Members.clearCandidate_activePamPid (p : Members) :
    p.clearCandidate.1.activePamPid = p.activePamPid := by
  unfold Members.clearCandidate
  split <;> rfl

/-- `if (handlers_.h) handlers_.h(…)` on the worker of attempt `n`. -/
def Members.invoke (p : Members) (n : Nat) (h : Handler) : List Item :=
  if p.handlers.has h then [.handler n h] else []

/-! ## `stop` -/

/-- Where a call of `stop` is. -/
inductive StopPc where
  | compare
  | exchange
  | kill (pid : Pid)
  deriving DecidableEq, Repr

/-- One step of `stop`; without a next place it has returned. -/
def Members.stop (p : Members) : StopPc → Option StopPc × Members × List Item
  | .compare =>
    if p.isRunning then (some .exchange, { p with isRunning := false }, [])
    else (none, p, [.stopReturned false])
  | .exchange =>
    let pamPid := p.activePamPid
    if pamPid > 0 then (some (.kill pamPid), { p with activePamPid := 0 }, [])
    else (none, { p with activePamPid := 0 }, [.stopReturned true])
  | .kill pamPid => (none, p, [.kill pamPid, .stopReturned true])

/-! ## The worker -/

/-- Where `run_worker` is, from `onEnd` on in `cleanup`. -/
inductive WorkerPc where
  | onBegin
  | fork
  | forkFailed
  | store (pid : Pid)
  | load (pid : Pid)
  | exchange (pid : Pid)
  | kill (pid toKill : Pid)
  | waitpid (pid : Pid)
  /-- `active_pam_pid_.store(0)` -/
  | reset (status : Nat)
  /-- `is_running_.load()` before the verdict -/
  | loadVerdict (status : Nat)
  | report (status : Nat)
  | onEnd
  | loadStop
  | onStop
  | clearCandidate
  | storeStopped
  | exited
  deriving DecidableEq, Repr

/-- `worker_thread_` where it is joinable. -/
structure Worker where
  attempt : Nat
  pc : WorkerPc
  deriving DecidableEq, Repr

/-- Where the client is. -/
inductive ClientPc where
  | idle
  | compare (pass : List UInt8)
  | join (pass : List UInt8)
  | assign (pass : List UInt8)
  | create
  /-- `catch (...)` -/
  | catchStore
  | catchClear
  | stop (pc : StopPc)
  | deleteStop (pc : StopPc)
  | deleteJoin
  | deleteClear
  | onDelete
  | deleted
  deriving DecidableEq, Repr

structure State where
  obj : Members
  worker : Option Worker
  client : ClientPc
  /-- the calls of `stop` on other threads -/
  stops : List StopPc
  children : List Child
  /-- how often `verify` was called -/
  verifies : Nat
  deriving DecidableEq, Repr

structure WorkerOutcomes where
  fork : Option Pid
  /-- whether `waitpid` returns the child's pid -/
  waitpid : Bool
  deriving DecidableEq, Repr

/-- `run_worker` moves on. -/
def State.goto (s : State) (w : Worker) (pc : WorkerPc) (out : List Item) :
    Option (State × List Item) :=
  some ({ s with worker := some { w with pc := pc } }, out)

def State.setObj (s : State) (p : Members) : State := { s with obj := p }

/-- One step of `run_worker`. -/
def State.runWorker (s : State) (w : Worker) (o : WorkerOutcomes) : Option (State × List Item) :=
  let p := s.obj
  match w.pc with
  | .onBegin => s.goto w .fork (p.invoke w.attempt .onBegin)
  | .fork =>
    match o.fork with
    | none => s.goto w .forkFailed [.forked w.attempt none]
    | some pid =>
      if pid > 0 ∧ ∀ c ∈ s.children, c.pid ≠ pid then
        State.goto { s with children := ⟨pid, w.attempt, p.candidate, none⟩ :: s.children } w
          (.store pid) [.forked w.attempt (some pid)]
      else none
  | .forkFailed => s.goto w .onEnd (p.invoke w.attempt (.onError .system "fork() failed"))
  | .store pid => (s.setObj { p with activePamPid := pid }).goto w (.load pid) []
  | .load pid => s.goto w (if p.isRunning = false then .exchange pid else .waitpid pid) []
  | .exchange pid =>
    let toKill := p.activePamPid
    (s.setObj { p with activePamPid := 0 }).goto w
      (if toKill > 0 then .kill pid toKill else .waitpid pid) []
  | .kill pid toKill => s.goto w (.waitpid pid) [.kill toKill]
  | .waitpid pid =>
    if o.waitpid then
      match s.children.find? (·.pid = pid) with
      | some ⟨_, _, _, some run⟩ =>
        State.goto { s with children := s.children.filter (·.pid ≠ pid) } w (.reset run.status)
          [.waited w.attempt pid (some run.status)]
      | _ => none
    else s.goto w (.reset 0) [.waited w.attempt pid none]
  | .reset status => (s.setObj { p with activePamPid := 0 }).goto w (.loadVerdict status) []
  | .loadVerdict status => s.goto w (if p.isRunning then .report status else .onEnd) []
  | .report status => s.goto w .onEnd (p.invoke w.attempt (verdict status))
  | .onEnd => s.goto w .loadStop (p.invoke w.attempt .onEnd)
  | .loadStop => s.goto w (if p.isRunning = false then .onStop else .clearCandidate) []
  | .onStop => s.goto w .clearCandidate (p.invoke w.attempt .onStop)
  | .clearCandidate => (s.setObj p.clearCandidate.1).goto w .storeStopped p.clearCandidate.2
  | .storeStopped => (s.setObj { p with isRunning := false }).goto w .exited []
  | .exited => none

/-! ## The client -/

def State.clientAt (s : State) (pc : ClientPc) (out : List Item) : Option (State × List Item) :=
  some ({ s with client := pc }, out)

/-- One step of the client's call; `ok` says that what it calls throws nothing. -/
def State.runClient (s : State) (ok : Bool) : Option (State × List Item) :=
  let p := s.obj
  match s.client with
  | .compare pass =>
    if p.isRunning then s.clientAt .idle [.verifyReturned s.verifies false]
    else (s.setObj { p with isRunning := true }).clientAt (.join pass) []
  | .join pass =>
    match s.worker with
    | none => s.clientAt (.assign pass) []
    | some w =>
      if ok = false then s.clientAt .catchStore []
      else if w.pc = .exited then State.clientAt { s with worker := none } (.assign pass) []
      else none
  | .assign pass =>
    if ok then (s.setObj { p with candidate := pass }).clientAt .create []
    else s.clientAt .catchStore []
  | .create =>
    if ok then
      State.clientAt { s with worker := some ⟨s.verifies, .onBegin⟩ } .idle
        [.started s.verifies, .verifyReturned s.verifies true]
    else s.clientAt .catchStore []
  | .catchStore => (s.setObj { p with isRunning := false }).clientAt .catchClear []
  | .catchClear =>
    (s.setObj p.clearCandidate.1).clientAt .idle
      (p.clearCandidate.2 ++ [.verifyReturned s.verifies false])
  | .stop pc =>
    let r := p.stop pc
    (s.setObj r.2.1).clientAt (r.1.elim .idle .stop) r.2.2
  | .deleteStop pc =>
    let r := p.stop pc
    (s.setObj r.2.1).clientAt (r.1.elim .deleteJoin .deleteStop) r.2.2
  | .deleteJoin =>
    match s.worker with
    | none => s.clientAt .deleteClear []
    | some w =>
      if w.pc = .exited then State.clientAt { s with worker := none } .deleteClear [] else none
  | .deleteClear => (s.setObj p.clearCandidate.1).clientAt .onDelete p.clearCandidate.2
  | .onDelete =>
    -- no other thread is in a member function of an object that is gone
    if s.stops = [] then
      s.clientAt .deleted ((if p.handlers.onDelete then [.onDelete] else []) ++ [.deleted])
    else none
  | .idle | .deleted => none

/-! ## The machine -/

inductive Input where
  /-- the client calls -/
  | verify (pass : List UInt8)
  | stop
  | delete
  /-- the client's call goes on -/
  | client (ok : Bool)
  /-- another thread calls `stop` -/
  | otherStop
  /-- the `i`-th of these calls goes on -/
  | other (i : Nat)
  | worker (o : WorkerOutcomes)
  | childEnds (pid : Pid) (run : ChildRun)
  deriving DecidableEq, Repr

/-- The child `pid` ends. -/
def endChild (pid : Pid) (run : ChildRun) (c : Child) : Child :=
  if c.pid = pid then { c with ended := some run } else c

def State.step (s : State) : Input → Option (State × List Item)
  | .verify pass =>
    if s.client = .idle then
      State.clientAt { s with verifies := s.verifies + 1 } (.compare pass)
        [.verify (s.verifies + 1) pass]
    else none
  | .stop => if s.client = .idle then s.clientAt (.stop .compare) [.stop] else none
  | .delete => if s.client = .idle then s.clientAt (.deleteStop .compare) [.delete, .stop] else none
  | .client ok => s.runClient ok
  | .otherStop =>
    if s.client = .deleted then none else some ({ s with stops := .compare :: s.stops }, [.stop])
  | .other i =>
    match s.stops[i]? with
    | none => none
    | some pc =>
      let r := s.obj.stop pc
      some ({ s.setObj r.2.1 with
        stops := s.stops.take i ++ r.1.toList ++ s.stops.drop (i + 1) }, r.2.2)
  | .worker o => s.worker.bind fun w => s.runWorker w o
  | .childEnds pid run =>
    match s.children.find? (·.pid = pid) with
    | some ⟨_, n, _, none⟩ =>
      some ({ s with children := s.children.map (endChild pid run) }, [.childEnded n run])
    | _ => none

/-- An object whose handlers were set. -/
def start (handlers : Handlers) : State where
  obj := ⟨handlers, false, 0, []⟩
  worker := none
  client := .idle
  stops := []
  children := []
  verifies := 0

def machine : Machine State Input Item where
  init s := ∃ handlers, s = start handlers
  step := State.step

theorem start_init (handlers : Handlers) : machine.init (start handlers) := ⟨handlers, rfl⟩

end Auth.Password
