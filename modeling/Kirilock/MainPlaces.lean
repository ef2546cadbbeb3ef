import Kirilock.Main

/-!
Where a step of `main` leads.

`Passes` lists the branches of `main` and of the functions it waits in, with the test of
each, the place it goes to, the context it leaves and its calls; `LeavesLoop` are those that
leave the loop.  A step that delivers no event is one of them (`mainMachine_passes`), and
what is said of `main` elsewhere is read off that list.
-/

namespace Kirilock

open Runs Ownership

structure MainState.Moved (s : MainState) (pre : List Item) (pc : MainPc) (ctx : KlContext)
    (cs : List Call) (s' : MainState) (out : List Item) : Prop where
  pc : s'.pc = pc
  ctx : s'.ctx = ctx
  table : s'.table = run s.table (acts cs)
  allocated : s'.allocated = cs.filterMap Call.allocates ++ s.allocated
  items : out = pre ++ calls cs
  fresh : Fresh s.table (acts cs)
  new : ∀ a ∈ cs.filterMap Call.allocates, a ∉ s.allocated

theorem MainState.move_some {s s' : MainState} {pre out : List Item} {pc : MainPc}
    {ctx : KlContext} {cs : List Call} (h : s.move pre pc ctx cs = some (s', out)) :
    s.Moved pre pc ctx cs s' out := by
  unfold MainState.move at h
  split at h
  · rename_i hf
    obtain ⟨rfl, rfl⟩ := Prod.mk.inj (Option.some.inj h)
    exact ⟨rfl, rfl, rfl, rfl, rfl, hf.1, hf.2⟩
  · cases h

theorem MainState.move_start {s s' : MainState} {pre out : List Item} {pc : MainPc}
    {ctx : KlContext} {cs : List Call} (h : s.move pre pc ctx cs = some (s', out)) :
    s'.appStartTimeNs = s.appStartTimeNs := by
  unfold MainState.move at h
  split at h
  · obtain ⟨rfl, -⟩ := Prod.mk.inj (Option.some.inj h)
    rfl
  · cases h

/-! ## The branches -/

/-- The ways out of the loop, with the calls before the descriptor is closed. -/
inductive LeavesLoop (s : MainState) : MainInput → List Call → Prop
  | expired (ts : Option Timespec) (hpc : s.pc = .loopTop)
      (hts : totalDemoDurationNs ≤ klGetTimeNs ts - s.appStartTimeNs) : LeavesLoop s (.clock ts) []
  | drainFailed (hpc : s.pc = .prepareDispatch) : LeavesLoop s (.returned false) []
  | flushFailed (hpc : s.pc = .flush) :
      LeavesLoop s (.flushed .failed)
        (s.ctx.onDisplay (.wlDisplayFlush · .failed) ++ s.ctx.onDisplay .wlDisplayCancelRead)
  /-- `epoll_wait` fails, the display has an error, or the session is finished -/
  | waitFailed (o : WaitOutcomes) (hpc : s.pc = .epollWait) :
      LeavesLoop s (.waited o) (.epollWait :: s.ctx.onDisplay .wlDisplayCancelRead)
  | readFailed (o : WaitOutcomes) (hpc : s.pc = .epollWait) :
      LeavesLoop s (.waited o) (.epollWait :: s.ctx.onDisplay (.wlDisplayReadEvents · o.readEvents))
  | dispatchFailed (ok : Bool) (hpc : s.pc = .loopDispatch)
      (h : ok = false ∨ s.ctx.isFinished = true) : LeavesLoop s (.returned ok) []

/-- The calls of `main` before its loop where one of them fails. -/
inductive SetupFails (s : MainState) (o : SetupOutcomes) : List Call → Prop
  | getFd : SetupFails s o (s.ctx.onDisplay (.wlDisplayGetFd · o.getFd))
  | epollCreate :
      SetupFails s o (s.ctx.onDisplay (.wlDisplayGetFd · o.getFd) ++ [.epollCreate false])
  | epollCtl :
      SetupFails s o (s.ctx.onDisplay (.wlDisplayGetFd · o.getFd) ++
        [.epollCreate true, .epollCtl false, .closeEpoll])

/-- Everything before the reading of `app_start_time_ns` succeeds. -/
def SetupOutcomes.starts (o : SetupOutcomes) : Bool := o.getFd && o.epollCreate && o.epollCtl

/-- A step that delivers no event: the place it goes to, the context it leaves, its calls, and
`app_start_time_ns` after it. -/
inductive Passes (s : MainState) : MainInput → MainPc → KlContext → List Call → UInt64 → Prop
  | connects (o : ConnectOutcomes) (hpc : s.pc = .start) :
      Passes s (.init o) (if (klContextInitConnect o).1 then .initRoundtrip else .destroy (-1))
        (klContextInitConnect o).2.1 (klContextInitConnect o).2.2 s.appStartTimeNs
  | checks (ok : Bool) (hpc : s.pc = .initRoundtrip) :
      Passes s (.returned ok) (if klContextInitCheck s.ctx ok then .lockSession else .destroy (-1))
        s.ctx [] s.appStartTimeNs
  | locks (o : LockOutcomes) (hpc : s.pc = .lockSession) :
      Passes s (.lock o) (if (klContextLockSession s.ctx o).1 then .lockLoop else .destroy (-1))
        (klContextLockSession s.ctx o).2.1 (klContextLockSession s.ctx o).2.2 s.appStartTimeNs
  | awaits (hpc : s.pc = .lockLoop) :
      Passes s .test .lockDispatch s.ctx (s.ctx.onDisplay .wlDisplayDispatch) s.appStartTimeNs
  | awaited (hpc : s.pc = .lockLoop) : Passes s .test .lockFlush s.ctx [] s.appStartTimeNs
  | dispatched (ok : Bool) (hpc : s.pc = .lockDispatch) :
      Passes s (.returned ok) (if ok then .lockLoop else .destroy (-1)) s.ctx [] s.appStartTimeNs
  | locked (ret : FlushResult) (hpc : s.pc = .lockFlush) (hl : s.ctx.isLocked = true) :
      Passes s (.flushed ret) .setup s.ctx (s.ctx.onDisplay (.wlDisplayFlush · ret))
        s.appStartTimeNs
  | refused (ret : FlushResult) (hpc : s.pc = .lockFlush) :
      Passes s (.flushed ret) (.destroy (-1)) s.ctx (s.ctx.onDisplay (.wlDisplayFlush · ret))
        s.appStartTimeNs
  | fails (o : SetupOutcomes) (cs : List Call) (hpc : s.pc = .setup) (h : SetupFails s o cs) :
      Passes s (.setup o) (.unlock (-1)) s.ctx cs s.appStartTimeNs
  | enters (o : SetupOutcomes) (hpc : s.pc = .setup) (ho : o.starts = true) :
      Passes s (.setup o) .loopTop s.ctx
        (s.ctx.onDisplay (.wlDisplayGetFd · o.getFd) ++ [.epollCreate true, .epollCtl true])
        (klGetTimeNs o.clock)
  | ticks (ts : Option Timespec) (hpc : s.pc = .loopTop) :
      Passes s (.clock ts) .prepareRead s.ctx [] s.appStartTimeNs
  | prepares (hpc : s.pc = .prepareRead) :
      Passes s (.prepared true) .flush s.ctx (s.ctx.onDisplay (.wlDisplayPrepareRead · true))
        s.appStartTimeNs
  | drains (hpc : s.pc = .prepareRead) :
      Passes s (.prepared false) .prepareDispatch s.ctx
        (s.ctx.onDisplay (.wlDisplayPrepareRead · false) ++
          s.ctx.onDisplay .wlDisplayDispatchPending) s.appStartTimeNs
  | drained (hpc : s.pc = .prepareDispatch) :
      Passes s (.returned true) .prepareRead s.ctx [] s.appStartTimeNs
  | flushes (ret : FlushResult) (hpc : s.pc = .flush) (hret : ret ≠ .failed) :
      Passes s (.flushed ret) .epollWait s.ctx (s.ctx.onDisplay (.wlDisplayFlush · ret))
        s.appStartTimeNs
  | cancels (o : WaitOutcomes) (hpc : s.pc = .epollWait) :
      Passes s (.waited o) .loopTop s.ctx (.epollWait :: s.ctx.onDisplay .wlDisplayCancelRead)
        s.appStartTimeNs
  | reads (o : WaitOutcomes) (hpc : s.pc = .epollWait) :
      Passes s (.waited o) .loopDispatch s.ctx
        (.epollWait :: s.ctx.onDisplay (.wlDisplayReadEvents · o.readEvents) ++
          s.ctx.onDisplay .wlDisplayDispatchPending) s.appStartTimeNs
  | goesOn (hpc : s.pc = .loopDispatch) (hf : s.ctx.isFinished = false) :
      Passes s (.returned true) .loopTop s.ctx [] s.appStartTimeNs
  | leaves {i : MainInput} {cs : List Call} (h : LeavesLoop s i cs) :
      Passes s i (.unlock 0) s.ctx (cs ++ [.closeEpoll]) s.appStartTimeNs
  | unlocks (ret : Int32) (hpc : s.pc = .unlock ret) :
      Passes s .unlock
        (if (klContextUnlockSession s.ctx).1 then .unlockRoundtrip ret else .destroy ret)
        (klContextUnlockSession s.ctx).2.1 (klContextUnlockSession s.ctx).2.2 s.appStartTimeNs
  | unlocked (ok : Bool) (ret : Int32) (hpc : s.pc = .unlockRoundtrip ret) :
      Passes s (.returned ok) (.destroy ret) s.ctx [] s.appStartTimeNs
  | destroys (releasable : SurfaceRef → Bool) (ret : Int32) (hpc : s.pc = .destroy ret)
      (hd : s.ctx.display.isSome = true) :
      Passes s (.destroy releasable) (.destroyRoundtrip ret)
        (klContextDestroyObjects s.ctx releasable).1 (klContextDestroyObjects s.ctx releasable).2
        s.appStartTimeNs
  | destroysAll (releasable : SurfaceRef → Bool) (ret : Int32) (hpc : s.pc = .destroy ret)
      (hd : s.ctx.display = none) :
      Passes s (.destroy releasable) (.exited ret)
        (klContextDestroyDisplay (klContextDestroyObjects s.ctx releasable).1).1
        (klContextDestroyObjects s.ctx releasable).2 s.appStartTimeNs
  | disconnects (ok : Bool) (ret : Int32) (hpc : s.pc = .destroyRoundtrip ret) :
      Passes s (.returned ok) (.exited ret) (klContextDestroyDisplay s.ctx).1
        (klContextDestroyDisplay s.ctx).2 s.appStartTimeNs

/-! ## Every step is one of them -/

/-- What a step that delivers no event is. -/
def MainState.Passed (s : MainState) (i : MainInput) (s' : MainState) (out : List Item) : Prop :=
  ∃ pc ctx cs, s.Moved [] pc ctx cs s' out ∧ Passes s i pc ctx cs s'.appStartTimeNs

theorem MainState.move_passed {s s' : MainState} {i : MainInput} {out : List Item} {pc : MainPc}
    {ctx : KlContext} {cs : List Call} (h : s.move [] pc ctx cs = some (s', out))
    (hp : Passes s i pc ctx cs s.appStartTimeNs) : s.Passed i s' out :=
  ⟨pc, ctx, cs, MainState.move_some h, MainState.move_start h ▸ hp⟩

theorem MainState.loopExit_passed {s s' : MainState} {i : MainInput} {out : List Item}
    {cs : List Call} (h : s.loopExit cs = some (s', out)) (hl : LeavesLoop s i cs) :
    s.Passed i s' out :=
  MainState.move_passed h (.leaves hl)

theorem MainState.waited_passed {s s' : MainState} {o : WaitOutcomes} {out : List Item}
    (h : s.waited o = some (s', out)) (hpc : s.pc = .epollWait) : s.Passed (.waited o) s' out := by
  simp only [MainState.waited] at h
  split at h
  · exact MainState.move_passed h (.cancels o hpc)
  · exact MainState.loopExit_passed h (.waitFailed o hpc)
  · split at h
    · exact MainState.move_passed h (.cancels o hpc)
    · split at h
      · exact MainState.loopExit_passed h (.waitFailed o hpc)
      · split at h
        · split at h
          · exact MainState.loopExit_passed h (.readFailed o hpc)
          · exact MainState.move_passed h (.reads o hpc)
        · unfold MainState.loopEnd at h
          split at h
          · exact MainState.loopExit_passed h (.waitFailed o hpc)
          · exact MainState.move_passed h (.cancels o hpc)

theorem MainState.setUp_passed {s s' : MainState} {o : SetupOutcomes} {out : List Item}
    (h : s.setUp o = some (s', out)) (hpc : s.pc = .setup) : s.Passed (.setup o) s' out := by
  simp only [MainState.setUp] at h
  split at h
  · exact MainState.move_passed h (.fails o _ hpc .getFd)
  · split at h
    · exact MainState.move_passed h (.fails o _ hpc .epollCreate)
    · split at h
      · exact MainState.move_passed h (.fails o _ hpc .epollCtl)
      · rename_i hfd hcreate hctl
        simp only [Bool.not_eq_false] at hfd hcreate hctl
        have hm := MainState.move_some h
        have hstart : s'.appStartTimeNs = klGetTimeNs o.clock := MainState.move_start h
        refine ⟨_, _, _, ⟨hm.pc, hm.ctx, hm.table, hm.allocated, hm.items, hm.fresh, hm.new⟩, ?_⟩
        rw [hstart]
        exact .enters o hpc (by rw [SetupOutcomes.starts, hfd, hcreate, hctl]; rfl)

/-- An event leaves `main` where it is. -/
theorem mainMachine_deliver_stays {s s' : MainState} {p : Proxy} {e : ProxyEvent}
    {o : HandlerOutcomes} {out : List Item}
    (h : mainMachine.step s (.deliver p e o) = some (s', out)) :
    s'.pc = s.pc ∧ s'.appStartTimeNs = s.appStartTimeNs := by
  simp only [mainMachine, MainState.step] at h
  split at h
  · split at h
    · exact ⟨(MainState.move_some h).pc, MainState.move_start h⟩
    · cases h
  · cases h

/-- **Where a step leads.** -/
theorem mainMachine_passes {s s' : MainState} {i : MainInput} {out : List Item}
    (h : mainMachine.step s i = some (s', out)) (hi : ∀ p e o, i ≠ .deliver p e o) :
    s.Passed i s' out := by
  cases i <;> simp only [mainMachine, MainState.step] at h
  case deliver p e o => exact absurd rfl (hi p e o)
  case init o =>
    split at h
    · rename_i hpc
      exact MainState.move_passed h (.connects o hpc)
    · cases h
  case lock o =>
    split at h
    · rename_i hpc
      exact MainState.move_passed h (.locks o hpc)
    · cases h
  case test =>
    split at h
    · rename_i hpc
      split at h
      · exact MainState.move_passed h (.awaits hpc)
      · exact MainState.move_passed h (.awaited hpc)
    · cases h
  case flushed ret =>
    split at h
    · rename_i hpc
      split at h
      · exact MainState.move_passed h (.refused ret hpc)
      · split at h
        · rename_i hl
          exact MainState.move_passed h (.locked ret hpc hl)
        · exact MainState.move_passed h (.refused ret hpc)
    · rename_i hpc
      split at h
      · rename_i hret
        subst hret
        exact MainState.loopExit_passed h (.flushFailed hpc)
      · rename_i hret
        exact MainState.move_passed h (.flushes ret hpc hret)
    · cases h
  case setup o =>
    split at h
    · rename_i hpc
      exact MainState.setUp_passed h hpc
    · cases h
  case clock ts =>
    split at h
    · rename_i hpc
      split at h
      · rename_i hts
        exact MainState.loopExit_passed h (.expired ts hpc hts)
      · exact MainState.move_passed h (.ticks ts hpc)
    · cases h
  case prepared ok =>
    split at h
    · rename_i hpc
      cases ok with
      | true => exact MainState.move_passed h (.prepares hpc)
      | false => exact MainState.move_passed h (.drains hpc)
    · cases h
  case waited o =>
    split at h
    · rename_i hpc
      exact MainState.waited_passed h hpc
    · cases h
  case returned ok =>
    split at h
    · rename_i hpc
      exact MainState.move_passed h (.checks ok hpc)
    · rename_i hpc
      exact MainState.move_passed h (.dispatched ok hpc)
    · rename_i hpc
      cases ok with
      | true =>
        rw [if_pos rfl] at h
        exact MainState.move_passed h (.drained hpc)
      | false => exact MainState.loopExit_passed h (.drainFailed hpc)
    · rename_i hpc
      cases ok with
      | true =>
        simp only [MainState.loopEnd, if_true] at h
        split at h
        · rename_i hf
          exact MainState.loopExit_passed h (.dispatchFailed true hpc (Or.inr hf))
        · rename_i hf
          exact MainState.move_passed h (.goesOn hpc (by simpa using hf))
      | false => exact MainState.loopExit_passed h (.dispatchFailed false hpc (Or.inl rfl))
    · rename_i ret hpc
      exact MainState.move_passed h (.unlocked ok ret hpc)
    · rename_i ret hpc
      exact MainState.move_passed h (.disconnects ok ret hpc)
    · cases h
  case unlock =>
    split at h
    · rename_i ret hpc
      exact MainState.move_passed h (.unlocks ret hpc)
    · cases h
  case destroy releasable =>
    split at h
    · rename_i ret hpc
      split at h
      · rename_i hd
        exact MainState.move_passed h (.destroys releasable ret hpc hd)
      · rename_i hd
        exact MainState.move_passed h (.destroysAll releasable ret hpc (by simpa using hd))
    · cases h

end Kirilock
