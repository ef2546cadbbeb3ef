import Kirilock.Fingerprint
import Kirilock.Password

/-!
`libs/auth/example/main.cpp`: the program that asks for a finger or a password.

`main` owns both objects and is the client of both.  Their handlers run on the
workers, and a worker that called one goes on when it has returned.  Handlers that
only print are no steps here.

`main` destroys the objects at its end and joins only their own workers.  Where an
object goes while `stop` runs on it, or `stop` is called on it afterwards, it is
`misused`: what follows is undefined, so the run ends there.
-/

namespace Auth.Coordinator

open Runs

/-- The two objects, and the workers of the two. -/
inductive Obj where
  | fp
  | pw
  deriving DecidableEq, Repr

/-! ## The handlers -/

/-- Where a handler is, with the objects that it calls `stop` on after that. -/
inductive HandlerPc where
  /-- `compare_exchange_strong` -/
  | exchange
  | call (objs : List Obj)
  | inFp (pc : Fingerprint.StopPc) (objs : List Obj)
  | inPw (pc : Password.StopPc) (objs : List Obj)
  deriving DecidableEq, Repr

/-- `fp_handlers`, where they do more than print. -/
def fpHandlers : Fingerprint.Handler → Option HandlerPc
  | .onFinish => some .exchange
  | .onError .notFound _ => some (.call [.fp])
  | _ => none

/-- `pw_handlers`, where they do more than print. -/
def pwHandlers : Password.Handler → Option HandlerPc
  | .onFinish => some .exchange
  | _ => none

/-- What the `on_finish` that won the exchange stops: the other object first. -/
def Obj.stops : Obj → List Obj
  | .fp => [.pw, .fp]
  | .pw => [.fp, .pw]

/-- The handler that a step of the worker has called. -/
def fpCalled : List Fingerprint.Item → Option HandlerPc
  | [.handler _ h] => fpHandlers h
  | _ => none

def pwCalled : List Password.Item → Option HandlerPc
  | [.handler _ h] => pwHandlers h
  | _ => none

/-! ## Keys -/

def maxPassLen : Nat := 512

def isNewline (c : UInt8) : Bool := c == 10 || c == 13

def isErase (c : UInt8) : Bool := c == 127 || c == 8

def isPrintable (c : UInt8) : Bool := 32 ≤ c && c ≤ 126

/-- `pass_buf` after a key that ends no line. -/
def edit (passBuf : List UInt8) (c : UInt8) : List UInt8 :=
  if isErase c then passBuf.dropLast
  else if isPrintable c then
    if passBuf.length < maxPassLen - 1 then passBuf ++ [c] else passBuf
  else passBuf

/-! ## The program -/

/-- Where `main` is; `ret` is what it returns. -/
inductive MainPc where
  | start
  | starting
  /-- at the condition of the loop -/
  | loadAuthenticated
  | loadInterrupted
  /-- `is_running` -/
  | loadFp
  | loadPw
  /-- `select` and `read` -/
  | select
  | verifying
  | clear
  /-- after the loop -/
  | wipe
  | stopFp
  | stoppingFp
  | stopPw
  | stoppingPw
  /-- `is_auth` -/
  | result
  | deletePw (ret : Int32)
  | deletingPw (ret : Int32)
  | deleteFp (ret : Int32)
  | deletingFp (ret : Int32)
  | returned (ret : Int32)
  deriving DecidableEq, Repr

inductive Item where
  | fp (x : Fingerprint.Item)
  | pw (x : Password.Item)
  | key (c : UInt8)
  /-- `pass_buf` is emptied; its bytes before that -/
  | wiped (bytes : List UInt8)
  /-- the `on_finish` of the object won the exchange -/
  | granted (obj : Obj)
  /-- `ACCESS GRANTED`, or `ACCESS DENIED` -/
  | result (isAuth : Bool)
  | misused (obj : Obj)
  deriving DecidableEq, Repr

structure State where
  fp : Fingerprint.State
  pw : Password.State
  /-- the handlers that run on the workers -/
  fpHandler : Option HandlerPc
  pwHandler : Option HandlerPc
  authenticated : Bool
  /-- `g_interrupted` -/
  interrupted : Bool
  passBuf : List UInt8
  main : MainPc
  misused : Option Obj
  deriving DecidableEq, Repr

def State.fpStep (s : State) (i : Fingerprint.Input) : Option (State × List Item) :=
  (s.fp.step i).map fun r => ({ s with fp := r.1 }, r.2.map .fp)

def State.pwStep (s : State) (i : Password.Input) : Option (State × List Item) :=
  (s.pw.step i).map fun r => ({ s with pw := r.1 }, r.2.map .pw)

def State.misuse (s : State) (obj : Obj) : Option (State × List Item) :=
  some ({ s with misused := some obj }, [.misused obj])

/-! ## `main` -/

def State.mainAt (s : State) (pc : MainPc) : State := { s with main := pc }

/-- `main` is in a call on `fp`, or it has returned. -/
def State.inFp (s : State) (ok : Bool) (next : MainPc) : Option (State × List Item) :=
  if s.fp.client = .idle then some (s.mainAt next, []) else s.fpStep (.client ok)

def State.inPw (s : State) (ok : Bool) (next : MainPc) : Option (State × List Item) :=
  if s.pw.client = .idle then some (s.mainAt next, []) else s.pwStep (.client ok)

/-- The destructors wait for no other thread than the worker. -/
def State.inFpDelete (s : State) (ok : Bool) (next : MainPc) : Option (State × List Item) :=
  if s.fp.client = .deleted then some (s.mainAt next, [])
  else if s.fp.client = .onDelete ∧ s.fp.stops ≠ [] then s.misuse .fp
  else s.fpStep (.client ok)

def State.inPwDelete (s : State) (ok : Bool) (next : MainPc) : Option (State × List Item) :=
  if s.pw.client = .deleted then some (s.mainAt next, [])
  else if s.pw.client = .onDelete ∧ s.pw.stops ≠ [] then s.misuse .pw
  else s.pwStep (.client ok)

/-- `explicit_bzero` and `clear`. -/
def State.wipe (s : State) (next : MainPc) : Option (State × List Item) :=
  some ({ s.mainAt next with passBuf := [] },
    if s.passBuf.isEmpty then [] else [.wiped (s.passBuf.map fun _ => 0)])

/-- One step of `main`; `ok` says that what it calls throws nothing, and reads or writes. -/
def State.runMain (s : State) (ok : Bool) : Option (State × List Item) :=
  match s.main with
  | .start => (s.mainAt .starting).fpStep .start
  | .starting => s.inFp ok .loadAuthenticated
  | .loadAuthenticated =>
    some (s.mainAt (if s.authenticated then .wipe else .loadInterrupted), [])
  | .loadInterrupted => some (s.mainAt (if s.interrupted then .wipe else .loadFp), [])
  | .loadFp => some (s.mainAt (if s.fp.obj.isRunning then .select else .loadPw), [])
  | .loadPw => some (s.mainAt (if s.pw.obj.isRunning then .select else .wipe), [])
  | .verifying => s.inPw ok .clear
  | .clear => s.wipe .loadAuthenticated
  | .wipe => s.wipe .stopFp
  | .stopFp => (s.mainAt .stoppingFp).fpStep .stop
  | .stoppingFp => s.inFp ok .stopPw
  | .stopPw => (s.mainAt .stoppingPw).pwStep .stop
  | .stoppingPw => s.inPw ok .result
  | .result =>
    some (s.mainAt (.deletePw (if s.authenticated then 0 else 1)), [.result s.authenticated])
  | .deletePw ret => (s.mainAt (.deletingPw ret)).pwStep .delete
  | .deletingPw ret => s.inPwDelete ok (.deleteFp ret)
  | .deleteFp ret => (s.mainAt (.deletingFp ret)).fpStep .delete
  | .deletingFp ret => s.inFpDelete ok (.returned ret)
  | .select | .returned _ => none

/-- `main` has read the key `c`. -/
def State.key (s : State) (c : UInt8) : Option (State × List Item) :=
  if isNewline c then
    if s.passBuf.isEmpty then some (s.mainAt .loadAuthenticated, [.key c])
    else ((s.mainAt .verifying).pwStep (.verify s.passBuf)).map fun r => (r.1, .key c :: r.2)
  else some ({ s.mainAt .loadAuthenticated with passBuf := edit s.passBuf c }, [.key c])

/-- `select` and `read`, which may give no key. -/
def State.read (s : State) (c : Option UInt8) : Option (State × List Item) :=
  if s.main = .select then c.elim (some (s.mainAt .loadAuthenticated, [])) s.key else none

/-! ## The workers -/

def State.runFpWorker (s : State) (o : Fingerprint.WorkerOutcomes) : Option (State × List Item) :=
  if s.fpHandler.isSome then none
  else (s.fp.step (.worker o)).map fun r =>
    ({ s with fp := r.1, fpHandler := fpCalled r.2 }, r.2.map .fp)

def State.runPwWorker (s : State) (o : Password.WorkerOutcomes) : Option (State × List Item) :=
  if s.pwHandler.isSome then none
  else (s.pw.step (.worker o)).map fun r =>
    ({ s with pw := r.1, pwHandler := pwCalled r.2 }, r.2.map .pw)

def State.handler (s : State) : Obj → Option HandlerPc
  | .fp => s.fpHandler
  | .pw => s.pwHandler

def State.setHandler (s : State) (obj : Obj) (h : Option HandlerPc) : State :=
  match obj with
  | .fp => { s with fpHandler := h }
  | .pw => { s with pwHandler := h }

/-- One step of a handler on the worker of `obj`.  Calls of `stop` that are at one place are
alike, so it is the first of those in `stops`. -/
def State.runHandler (s : State) (obj : Obj) (ok : Bool) : HandlerPc → Option (State × List Item)
  | .exchange =>
    if s.authenticated then some (s.setHandler obj none, [])
    else
      some ({ s.setHandler obj (some (.call obj.stops)) with authenticated := true },
        [.granted obj])
  | .call [] => some (s.setHandler obj none, [])
  | .call (.fp :: objs) =>
    if s.fp.client = .deleted then s.misuse .fp
    else (s.setHandler obj (some (.inFp .compareRunning objs))).fpStep .otherStop
  | .call (.pw :: objs) =>
    if s.pw.client = .deleted then s.misuse .pw
    else (s.setHandler obj (some (.inPw .compare objs))).pwStep .otherStop
  | .inFp pc objs =>
    let pc' := (s.fp.obj.stop ok pc).1
    (s.setHandler obj (some (pc'.elim (.call objs) (.inFp · objs)))).fpStep
      (.other (s.fp.stops.idxOf pc) ok)
  | .inPw pc objs =>
    let pc' := (s.pw.obj.stop pc).1
    (s.setHandler obj (some (pc'.elim (.call objs) (.inPw · objs)))).pwStep
      (.other (s.pw.stops.idxOf pc))

/-! ## The machine -/

inductive Input where
  | main (ok : Bool)
  | read (c : Option UInt8)
  /-- `SIGINT` or `SIGTERM` -/
  | interrupt
  | fpWorker (o : Fingerprint.WorkerOutcomes)
  | pwWorker (o : Password.WorkerOutcomes)
  | handler (obj : Obj) (ok : Bool)
  | emit (body : Fingerprint.Signal)
  | childEnds (pid : Password.Pid) (run : Password.ChildRun)
  deriving DecidableEq, Repr

def State.step (s : State) (i : Input) : Option (State × List Item) :=
  if s.misused.isSome then none
  else match i with
    | .main ok => s.runMain ok
    | .read c => s.read c
    | .interrupt => some ({ s with interrupted := true }, [])
    | .fpWorker o => s.runFpWorker o
    | .pwWorker o => s.runPwWorker o
    | .handler obj ok => (s.handler obj).bind (s.runHandler obj ok)
    | .emit body => s.fpStep (.emit body)
    | .childEnds pid run => s.pwStep (.childEnds pid run)

/-- Both objects are there, with their handlers; the scanner or its pipe may be missing. -/
def start (pipe device : Bool) : State where
  fp := Fingerprint.start ⟨true, true, true, true, true, true, true⟩ pipe device
  pw := Password.start ⟨true, true, true, true, true, true⟩
  fpHandler := none
  pwHandler := none
  authenticated := false
  interrupted := false
  passBuf := []
  main := .start
  misused := none

def machine : Machine State Input Item where
  init s := ∃ pipe device, s = start pipe device
  step := State.step

theorem start_init (pipe device : Bool) : machine.init (start pipe device) := ⟨pipe, device, rfl⟩

end Auth.Coordinator
