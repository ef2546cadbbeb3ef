import Kirilock.Lock
import Kirilock.SurfaceRun

/-!
`main.c`: the whole run of the locker, as a machine.

`MainPc` says where `main` is; it stops wherever libwayland or the kernel is
waited for.  At a place where events are dispatched the input is an event for a
live proxy that has a listener (`deliver`), or the return of the call
(`returned`).  The table of proxies is libwayland's: what is destroyed delivers
nothing more, and a created proxy is new.  So is a surface that `calloc` returns:
`allocated` lists those there ever were.
-/

namespace Kirilock

open Runs Ownership

/-- Where `main` is; the number is what it is going to return. -/
inductive MainPc where
  | start
  /-- in the roundtrip of `kl_context_init` -/
  | initRoundtrip
  | lockSession
  /-- at the condition of the dispatch loop of `kl_context_lock_session` -/
  | lockLoop
  | lockDispatch
  | lockFlush
  /-- between `kl_context_lock_session` and the loop -/
  | setup
  | loopTop
  | prepareRead
  | prepareDispatch
  | flush
  | epollWait
  | loopDispatch
  | unlock (ret : Int32)
  | unlockRoundtrip (ret : Int32)
  | destroy (ret : Int32)
  | destroyRoundtrip (ret : Int32)
  | exited (ret : Int32)
  deriving DecidableEq, Repr

/-- The places where libwayland dispatches events. -/
def MainPc.dispatching : MainPc → Bool
  | .initRoundtrip => true
  | .lockDispatch => true
  | .prepareDispatch => true
  | .loopDispatch => true
  | .unlockRoundtrip _ => true
  | .destroyRoundtrip _ => true
  | _ => false

structure MainState where
  pc : MainPc
  ctx : KlContext
  appStartTimeNs : UInt64
  table : Table Proxy Listener
  /-- every surface that was ever allocated -/
  allocated : List SurfaceRef

/-- An `epoll_event`: whether it is for the display, `EPOLLHUP | EPOLLERR` and `EPOLLIN`. -/
structure EpollEvent where
  display : Bool
  error : Bool
  readable : Bool
  deriving DecidableEq, Repr

inductive EpollResult where
  | interrupted
  | failed
  | events (evs : List EpollEvent)
  deriving DecidableEq, Repr

structure SetupOutcomes where
  getFd : Bool
  epollCreate : Bool
  epollCtl : Bool
  clock : Option Timespec

structure WaitOutcomes where
  wait : EpollResult
  readEvents : Bool

inductive MainInput where
  | init (o : ConnectOutcomes)
  | deliver (p : Proxy) (e : ProxyEvent) (o : HandlerOutcomes)
  /-- the call that dispatches returns -/
  | returned (ok : Bool)
  | lock (o : LockOutcomes)
  | test
  | flushed (ret : FlushResult)
  | setup (o : SetupOutcomes)
  | clock (ts : Option Timespec)
  | prepared (ok : Bool)
  | waited (o : WaitOutcomes)
  | unlock
  | destroy (releasable : SurfaceRef → Bool)

/-! ## The steps -/

/-- The surfaces that the calls allocated. -/
def Call.allocates : Call → Option SurfaceRef
  | .callocSurface ret => ret
  | _ => none

/-- A move, refused if the outside returned a proxy or a surface that is not new. -/
def MainState.move (s : MainState) (pre : List Item) (pc : MainPc) (ctx : KlContext)
    (cs : List Call) : Option (MainState × List Item) :=
  if Fresh s.table (acts cs) ∧ ∀ a ∈ cs.filterMap Call.allocates, a ∉ s.allocated then
    some ({ s with
        pc := pc
        ctx := ctx
        table := run s.table (acts cs)
        allocated := cs.filterMap Call.allocates ++ s.allocated },
      pre ++ calls cs)
  else none

/-- A request on the display. -/
def KlContext.onDisplay (ctx : KlContext) (f : Proxy → Call) : List Call :=
  ctx.display.toList.map f

/-- Five seconds. -/
def totalDemoDurationNs : UInt64 := 5 * klNsPerSec

/-- The label `loop_exit`, up to the unlocking. -/
def MainState.loopExit (s : MainState) (cs : List Call) : Option (MainState × List Item) :=
  s.move [] (.unlock 0) s.ctx (cs ++ [.closeEpoll])

/-- The end of the loop body: a session that was finished ends the loop. -/
def MainState.loopEnd (s : MainState) (cs : List Call) : Option (MainState × List Item) :=
  if s.ctx.isFinished then s.loopExit cs else s.move [] .loopTop s.ctx cs

/-- From the return of `epoll_wait` on. -/
def MainState.waited (s : MainState) (o : WaitOutcomes) : Option (MainState × List Item) :=
  let cancel := s.ctx.onDisplay .wlDisplayCancelRead
  match o.wait with
  | .interrupted => s.move [] .loopTop s.ctx (.epollWait :: cancel)
  | .failed => s.loopExit (.epollWait :: cancel)
  | .events evs =>
    if evs = [] then s.move [] .loopTop s.ctx (.epollWait :: cancel)
    else if evs.any fun ev => ev.display && ev.error then s.loopExit (.epollWait :: cancel)
    else if evs.any fun ev => ev.display && ev.readable then
      let c := .epollWait :: s.ctx.onDisplay (.wlDisplayReadEvents · o.readEvents)
      if o.readEvents = false then s.loopExit c
      else s.move [] .loopDispatch s.ctx (c ++ s.ctx.onDisplay .wlDisplayDispatchPending)
    else s.loopEnd (.epollWait :: cancel)

/-- From the lock to the loop of `main`. -/
def MainState.setUp (s : MainState) (o : SetupOutcomes) : Option (MainState × List Item) :=
  let c := s.ctx.onDisplay (.wlDisplayGetFd · o.getFd)
  if o.getFd = false then s.move [] (.unlock (-1)) s.ctx c
  else if o.epollCreate = false then s.move [] (.unlock (-1)) s.ctx (c ++ [.epollCreate false])
  else if o.epollCtl = false then
    s.move [] (.unlock (-1)) s.ctx (c ++ [.epollCreate true, .epollCtl false, .closeEpoll])
  else
    MainState.move { s with appStartTimeNs := klGetTimeNs o.clock } [] .loopTop s.ctx
      (c ++ [.epollCreate true, .epollCtl true])

def MainState.step (s : MainState) : MainInput → Option (MainState × List Item)
  | .deliver p e o =>
    match s.table p with
    | .live (some d) =>
      if s.pc.dispatching ∧ d.hasEvent e then
        let r := klContextDispatch s.ctx p d e o
        s.move [.event p d e] s.pc r.1 r.2
      else none
    | _ => none
  | .init o =>
    match s.pc with
    | .start =>
      let r := klContextInitConnect o
      s.move [] (if r.1 then .initRoundtrip else .destroy (-1)) r.2.1 r.2.2
    | _ => none
  | .lock o =>
    match s.pc with
    | .lockSession =>
      let r := klContextLockSession s.ctx o
      s.move [] (if r.1 then .lockLoop else .destroy (-1)) r.2.1 r.2.2
    | _ => none
  | .test =>
    match s.pc with
    | .lockLoop =>
      if s.ctx.isLocked = false ∧ s.ctx.isFinished = false then
        s.move [] .lockDispatch s.ctx (s.ctx.onDisplay .wlDisplayDispatch)
      else s.move [] .lockFlush s.ctx []
    | _ => none
  | .flushed ret =>
    match s.pc with
    | .lockFlush =>
      s.move [] (if ret = .failed then .destroy (-1) else if s.ctx.isLocked then .setup
        else .destroy (-1)) s.ctx (s.ctx.onDisplay (.wlDisplayFlush · ret))
    | .flush =>
      if ret = .failed then
        s.loopExit (s.ctx.onDisplay (.wlDisplayFlush · ret) ++
          s.ctx.onDisplay .wlDisplayCancelRead)
      else s.move [] .epollWait s.ctx (s.ctx.onDisplay (.wlDisplayFlush · ret))
    | _ => none
  | .setup o =>
    match s.pc with
    | .setup => s.setUp o
    | _ => none
  | .clock ts =>
    match s.pc with
    | .loopTop =>
      if klGetTimeNs ts - s.appStartTimeNs ≥ totalDemoDurationNs then s.loopExit []
      else s.move [] .prepareRead s.ctx []
    | _ => none
  | .prepared ok =>
    match s.pc with
    | .prepareRead =>
      let c := s.ctx.onDisplay (.wlDisplayPrepareRead · ok)
      if ok then s.move [] .flush s.ctx c
      else s.move [] .prepareDispatch s.ctx (c ++ s.ctx.onDisplay .wlDisplayDispatchPending)
    | _ => none
  | .waited o =>
    match s.pc with
    | .epollWait => s.waited o
    | _ => none
  | .returned ok =>
    match s.pc with
    | .initRoundtrip =>
      s.move [] (if klContextInitCheck s.ctx ok then .lockSession else .destroy (-1)) s.ctx []
    | .lockDispatch => s.move [] (if ok then .lockLoop else .destroy (-1)) s.ctx []
    | .prepareDispatch => if ok then s.move [] .prepareRead s.ctx [] else s.loopExit []
    | .loopDispatch => if ok then s.loopEnd [] else s.loopExit []
    | .unlockRoundtrip ret => s.move [] (.destroy ret) s.ctx []
    | .destroyRoundtrip ret =>
      let r := klContextDestroyDisplay s.ctx
      s.move [] (.exited ret) r.1 r.2
    | _ => none
  | .unlock =>
    match s.pc with
    | .unlock ret =>
      let r := klContextUnlockSession s.ctx
      s.move [] (if r.1 then .unlockRoundtrip ret else .destroy ret) r.2.1 r.2.2
    | _ => none
  | .destroy releasable =>
    match s.pc with
    | .destroy ret =>
      let r := klContextDestroyObjects s.ctx releasable
      if s.ctx.display.isSome then s.move [] (.destroyRoundtrip ret) r.1 r.2
      else s.move [] (.exited ret) (klContextDestroyDisplay r.1).1 r.2
    | _ => none

def mainMachine : Machine MainState MainInput Item where
  init s := s.pc = .start ∧ s.ctx = .zeroed ∧ s.table = (fun _ => .unborn) ∧ s.allocated = []
  step := MainState.step

end Kirilock
