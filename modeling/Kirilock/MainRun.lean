import Kirilock.MainPlaces
import Kirilock.LockOwn
import Kirilock.LockLive

/-!
Runs of the locker.

`mainMachine_step` says what a step can do (`MainStep`), in the words of the
functions of `lock.c`.  `MainOk` holds in every run (`mainMachine_ok`): the table of
proxies is the one the history makes, the live proxies are what the context owns
and some that it has left behind, and the list of surfaces is right about what is
still there.
-/

namespace Kirilock

open Runs Ownership

/-! ## Phases -/

/-- The part of `main` a place belongs to. -/
inductive Phase where
  | start
  | early
  /-- from the end of the attach loop to the unlocking -/
  | session
  | unlocked
  | ending
  | closing
  | exited
  deriving DecidableEq

def MainPc.phase : MainPc → Phase
  | .start => .start
  | .initRoundtrip => .early
  | .lockSession => .early
  | .lockLoop => .session
  | .lockDispatch => .session
  | .lockFlush => .session
  | .setup => .session
  | .loopTop => .session
  | .prepareRead => .session
  | .prepareDispatch => .session
  | .flush => .session
  | .epollWait => .session
  | .loopDispatch => .session
  | .unlock _ => .session
  | .unlockRoundtrip _ => .unlocked
  | .destroy _ => .ending
  | .destroyRoundtrip _ => .closing
  | .exited _ => .exited

/-- What `main` does between the functions of `lock.c`: it goes on, or it gives up. -/
inductive PlainMove : Phase → Phase → Prop
  | stays (ph : Phase) : PlainMove ph ph
  | early : PlainMove .early .ending
  | session : PlainMove .session .ending
  | unlocked : PlainMove .unlocked .ending

/-! ## The steps -/

/-- What a step can do: the items before its calls, where it goes, the context it
leaves, and its calls. -/
inductive MainStep (s : MainState) :
    MainInput → List Item → MainPc → KlContext → List Call → Prop
  | deliver (p : Proxy) (d : Listener) (e : ProxyEvent) (o : HandlerOutcomes) (ctx : KlContext)
      (cs : List Call) (hpc : s.pc.dispatching = true) (hp : s.table p = .live (some d))
      (h : Dispatched s.ctx p d e ctx cs) :
      MainStep s (.deliver p e o) [.event p d e] s.pc ctx cs
  | plain (i : MainInput) (pc : MainPc) (cs : List Call) (hcs : Plain s.ctx cs)
      (hpc : PlainMove s.pc.phase pc.phase) : MainStep s i [] pc s.ctx cs
  | connect (o : ConnectOutcomes) (pc : MainPc) (hpc : s.pc = .start)
      (hpc' : pc.phase = .early ∧ (klContextInitConnect o).2.1.display.isSome = true ∨
        pc.phase = .ending) :
      MainStep s (.init o) [] pc (klContextInitConnect o).2.1 (klContextInitConnect o).2.2
  | lock (o : LockOutcomes) (ok : Bool) (ctx : KlContext) (cs : List Call)
      (hpc : s.pc = .lockSession) (h : LockStep s.ctx ok ctx cs) :
      MainStep s (.lock o) [] (if ok then .lockLoop else .destroy (-1)) ctx cs
  | unlock (ret : Int32) (ok : Bool) (ctx : KlContext) (cs : List Call)
      (hpc : s.pc = .unlock ret) (h : UnlockStep s.ctx ok ctx cs) :
      MainStep s .unlock [] (if ok then .unlockRoundtrip ret else .destroy ret) ctx cs
  | destroyObjects (releasable : SurfaceRef → Bool) (ret : Int32) (hpc : s.pc = .destroy ret)
      (hd : s.ctx.display.isSome = true) :
      MainStep s (.destroy releasable) [] (.destroyRoundtrip ret)
        (klContextDestroyObjects s.ctx releasable).1 (klContextDestroyObjects s.ctx releasable).2
  /-- there is no display to wait on -/
  | destroyAll (releasable : SurfaceRef → Bool) (ret : Int32) (hpc : s.pc = .destroy ret)
      (hd : s.ctx.display = none) :
      MainStep s (.destroy releasable) [] (.exited ret)
        (klContextDestroyDisplay (klContextDestroyObjects s.ctx releasable).1).1
        (klContextDestroyObjects s.ctx releasable).2
  | destroyDisplay (ok : Bool) (ret : Int32) (hpc : s.pc = .destroyRoundtrip ret) :
      MainStep s (.returned ok) [] (.exited ret) (klContextDestroyDisplay s.ctx).1
        (klContextDestroyDisplay s.ctx).2

theorem plain_cons {ctx : KlContext} {c : Call} {cs : List Call} (h : c.plain = true)
    (ha : c.acts = []) (hcs : Plain ctx cs) : Plain ctx (c :: cs) :=
  List.forall_mem_cons.mpr ⟨⟨h, by simp [ha]⟩, hcs⟩

theorem plain_single (ctx : KlContext) {c : Call} (h : c.plain = true) (ha : c.acts = []) :
    Plain ctx [c] :=
  plain_cons h ha (plain_nil ctx)

/-- What an event needs of the context: its listener is one of the context's, and no
two surfaces have one address. -/
def MainState.Listening (s : MainState) : Prop :=
  (∀ p d, s.table p = .live (some d) → s.ctx.Listens p d) ∧
    (s.ctx.surfaces.map KlSurface.addr).Nodup ∧ ∀ surf ∈ s.ctx.surfaces, surf.WellFormed

theorem klContextInitConnect_display {o : ConnectOutcomes}
    (h : (klContextInitConnect o).1 = true) :
    (klContextInitConnect o).2.1.display.isSome = true := by
  cases hd : o.display with
  | none => simp [klContextInitConnect, hd] at h
  | some display =>
    cases hr : o.registry with
    | none => simp [klContextInitConnect, hd, hr] at h
    | some registry =>
      cases hl : o.addListener with
      | false => simp [klContextInitConnect, hd, hr, hl] at h
      | true => simp [klContextInitConnect, hd, hr, hl]

/-- The step that delivers an event. -/
theorem mainMachine_deliver {s s' : MainState} {p : Proxy} {e : ProxyEvent} {o : HandlerOutcomes}
    {out : List Item} (hl : s.Listening)
    (h : mainMachine.step s (.deliver p e o) = some (s', out)) :
    ∃ d ctx cs, s.pc.dispatching = true ∧ s.table p = .live (some d) ∧ d.hasEvent e = true ∧
      Dispatched s.ctx p d e ctx cs ∧ s.Moved [.event p d e] s.pc ctx cs s' out := by
  obtain ⟨hlisten, hn, hwf⟩ := hl
  simp only [mainMachine, MainState.step] at h
  split at h
  · rename_i d hp
    split at h
    · rename_i hd
      exact ⟨d, _, _, hd.1, hp, hd.2, klContextDispatch_step (hlisten p d hp) hd.2 hn hwf o,
        MainState.move_some h⟩
    · cases h
  · cases h

theorem SetupFails.plain {s : MainState} {o : SetupOutcomes} {cs : List Call}
    (h : SetupFails s o cs) : Plain s.ctx cs := by
  have hfd : Plain s.ctx (s.ctx.onDisplay (.wlDisplayGetFd · o.getFd)) :=
    plain_display _ _ fun _ => ⟨rfl, rfl⟩
  cases h with
  | getFd => exact hfd
  | epollCreate => exact hfd.append (plain_single _ rfl rfl)
  | epollCtl =>
    exact hfd.append (plain_cons rfl rfl (plain_cons rfl rfl (plain_single _ rfl rfl)))

theorem LeavesLoop.plain {s : MainState} {i : MainInput} {cs : List Call} (h : LeavesLoop s i cs) :
    Plain s.ctx cs ∧ s.pc.phase = .session := by
  have hdisplay : ∀ f : Proxy → Call, (∀ p, (f p).plain = true ∧ (f p).acts = [.use p]) →
      Plain s.ctx (s.ctx.onDisplay f) := plain_display s.ctx
  cases h with
  | expired ts hpc | drainFailed hpc | dispatchFailed ok hpc =>
    exact ⟨plain_nil _, by rw [hpc]; rfl⟩
  | flushFailed hpc =>
    exact ⟨(hdisplay _ fun _ => ⟨rfl, rfl⟩).append (hdisplay _ fun _ => ⟨rfl, rfl⟩),
      by rw [hpc]; rfl⟩
  | waitFailed o hpc | readFailed o hpc =>
    exact ⟨plain_cons rfl rfl (hdisplay _ fun _ => ⟨rfl, rfl⟩), by rw [hpc]; rfl⟩

/-- What a step is that delivers no event. -/
theorem Passes.step {s : MainState} {i : MainInput} {pc : MainPc} {ctx : KlContext}
    {cs : List Call} {start : UInt64} (h : Passes s i pc ctx cs start)
    (hwf : ∀ surf ∈ s.ctx.surfaces, surf.WellFormed) : MainStep s i [] pc ctx cs := by
  have hdisplay : ∀ f : Proxy → Call, (∀ p, (f p).plain = true ∧ (f p).acts = [.use p]) →
      Plain s.ctx (s.ctx.onDisplay f) := plain_display s.ctx
  have hsession : ∀ {pc : MainPc}, s.pc.phase = .session → pc.phase = .session →
      PlainMove s.pc.phase pc.phase := by
    intro pc h h'
    rw [h, h']
    exact .stays _
  cases h with
  | connects o hpc =>
    refine .connect o _ hpc ?_
    split
    · rename_i hok
      exact Or.inl ⟨rfl, klContextInitConnect_display hok⟩
    · exact Or.inr rfl
  | checks ok hpc =>
    refine .plain _ _ _ (plain_nil _) ?_
    rw [hpc]
    split
    · exact .stays _
    · exact .early
  | locks o hpc => exact .lock o _ _ _ hpc (klContextLockSession_step hwf o)
  | awaits hpc | flushes ret hpc hret | prepares hpc | locked ret hpc hl =>
    exact .plain _ _ _ (hdisplay _ fun _ => ⟨rfl, rfl⟩) (hsession (by rw [hpc]; rfl) rfl)
  | awaited hpc | ticks ts hpc | drained hpc | goesOn hpc hf =>
    exact .plain _ _ _ (plain_nil _) (hsession (by rw [hpc]; rfl) rfl)
  | dispatched ok hpc =>
    refine .plain _ _ _ (plain_nil _) ?_
    rw [hpc]
    split
    · exact .stays _
    · exact .session
  | refused ret hpc =>
    refine .plain _ _ _ (hdisplay _ fun _ => ⟨rfl, rfl⟩) ?_
    rw [hpc]
    exact .session
  | fails o cs hpc h => exact .plain _ _ _ h.plain (hsession (by rw [hpc]; rfl) rfl)
  | enters o hpc ho =>
    exact .plain _ _ _ ((hdisplay _ fun _ => ⟨rfl, rfl⟩).append
      (plain_cons rfl rfl (plain_single _ rfl rfl))) (hsession (by rw [hpc]; rfl) rfl)
  | drains hpc =>
    exact .plain _ _ _ ((hdisplay _ fun _ => ⟨rfl, rfl⟩).append (hdisplay _ fun _ => ⟨rfl, rfl⟩))
      (hsession (by rw [hpc]; rfl) rfl)
  | cancels o hpc =>
    exact .plain _ _ _ (plain_cons rfl rfl (hdisplay _ fun _ => ⟨rfl, rfl⟩))
      (hsession (by rw [hpc]; rfl) rfl)
  | reads o hpc =>
    exact .plain _ _ _ (plain_cons rfl rfl ((hdisplay _ fun _ => ⟨rfl, rfl⟩).append
      (hdisplay _ fun _ => ⟨rfl, rfl⟩))) (hsession (by rw [hpc]; rfl) rfl)
  | leaves h =>
    obtain ⟨hcs, hpc⟩ := h.plain
    exact .plain _ _ _ (hcs.append (plain_single _ rfl rfl)) (hsession hpc rfl)
  | unlocks ret hpc => exact .unlock ret _ _ _ hpc (klContextUnlockSession_step s.ctx)
  | unlocked ok ret hpc =>
    refine .plain _ _ _ (plain_nil _) ?_
    rw [hpc]
    exact .unlocked
  | destroys releasable ret hpc hd => exact .destroyObjects releasable ret hpc hd
  | destroysAll releasable ret hpc hd => exact .destroyAll releasable ret hpc hd
  | disconnects ok ret hpc => exact .destroyDisplay ok ret hpc

/-- **What a step can do.** -/
theorem mainMachine_step {s s' : MainState} {i : MainInput} {out : List Item}
    (hl : s.Listening) (h : mainMachine.step s i = some (s', out)) :
    ∃ pre pc ctx cs, s.Moved pre pc ctx cs s' out ∧ MainStep s i pre pc ctx cs := by
  by_cases hi : ∃ p e o, i = .deliver p e o
  · obtain ⟨p, e, o, rfl⟩ := hi
    obtain ⟨d, ctx, cs, hd, hp, -, hdispatched, hm⟩ := mainMachine_deliver hl h
    exact ⟨_, _, _, _, hm, .deliver p d e o _ _ hd hp hdispatched⟩
  · obtain ⟨pc, ctx, cs, hm, hp⟩ := mainMachine_passes h fun p e o he => hi ⟨p, e, o, he⟩
    exact ⟨[], pc, ctx, cs, hm, hp.step hl.2.2⟩

/-! ## What holds in every run -/

def itemActs (tr : List Item) : List (Act Proxy Listener) := tr.flatMap Item.acts

@[simp] theorem itemActs_append (tr out : List Item) :
    itemActs (tr ++ out) = itemActs tr ++ itemActs out := by
  simp [itemActs]

@[simp] theorem itemActs_calls (cs : List Call) : itemActs (calls cs) = acts cs := by
  induction cs with
  | nil => rfl
  | cons c cs ih =>
    rw [calls_cons, acts_cons, ← ih]
    rfl

@[simp] theorem itemActs_event (p : Proxy) (d : Listener) (e : ProxyEvent) :
    itemActs [.event p d e] = [.use p] := rfl

structure MainOk (s : MainState) (tr : List Item) : Prop where
  table : s.table = run (fun _ => .unborn) (itemActs tr)
  fresh : Fresh (fun _ => .unborn) (itemActs tr)
  sound : Sound (fun _ => .unborn) (itemActs tr)
  inventory : ∃ own left, ContextOwn s.ctx own ∧ Inventory s.table (own + bare left)
  start : s.pc = .start → s.ctx = .zeroed
  early : s.pc.phase = .early → s.ctx.lock = none
  allocated : ∀ a, .call (.callocSurface (some a)) ∈ tr → a ∈ s.allocated
  roster : Roster tr s.ctx.surfaces

/-- What was used was created. -/
theorem create_of_use {as : List (Act Proxy Listener)} {p : Proxy}
    (hs : Sound (fun _ => .unborn) as) (hf : Fresh (fun _ => .unborn) as) (hp : .use p ∈ as) :
    .create p ∈ as := by
  obtain ⟨pre, post, rfl⟩ := List.append_of_mem hp
  exact List.mem_append_left _ ((sound_history hs hf) pre _ post rfl p rfl).1

/-- A proxy that is created now was not created before. -/
theorem MainOk.not_created {s : MainState} {tr : List Item} (h : MainOk s tr) {p : Proxy}
    (hp : s.table p = .unborn) : .create p ∉ itemActs tr := fun hm => by
  rw [h.table] at hp
  exact run_of_create hm hp

theorem MainOk.listening {s : MainState} {tr : List Item} (h : MainOk s tr) : s.Listening := by
  obtain ⟨own, left, hown, hi⟩ := h.inventory
  refine ⟨fun p d hp => ?_, h.roster.nodup, hown.wellFormed⟩
  rcases Multiset.mem_add.mp ((hi.live_iff _ _).mp hp) with hm | hm
  · exact hown.listens hm
  · cases (mem_bare.mp hm).2

/-- The handler of an event runs with what is alive. -/
theorem Roster.live_event {tr : List Item} {ctx : KlContext} (h : Roster tr ctx.surfaces)
    {p : Proxy} {d : Listener} (hl : ctx.Listens p d) (e : ProxyEvent) :
    LiveRule tr (.event p d e) := by
  rcases hl with ⟨rfl, -⟩ | ⟨rfl, -⟩ | ⟨surf, hs, lo, le, hm⟩
  · exact ⟨fun a ha => (by cases ha), fun q buf e' he => (by cases he)⟩
  · exact ⟨fun a ha => (by cases ha), fun q buf e' he => (by cases he)⟩
  · refine ⟨fun a ha => ?_, fun q buf e' he => ?_⟩
    · rw [Item.subject, listener_surface_of_own hm, Option.some.injEq] at ha
      exact ha ▸ h.alive surf hs
    · rcases mem_own_listener hm with ⟨rfl, -⟩ | ⟨rfl, -⟩ | ⟨rfl, -⟩ | ⟨i, rfl, hwb⟩
      · cases he
      · cases he
      · cases he
      · cases he
        rw [h.noted surf hs i, hwb]

theorem Turns.inventory {ctx ctx' : KlContext} {cs : List Call} (h : Turns ctx cs ctx')
    {t : Table Proxy Listener} {own : Multiset (Proxy × Option Listener)} {left : List Proxy}
    (hown : ContextOwn ctx own) (hi : Inventory t (own + bare left)) (hf : Fresh t (acts cs)) :
    Sound t (acts cs) ∧ ∃ own' left', ContextOwn ctx' own' ∧
      Inventory (run t (acts cs)) (own' + bare left') := by
  obtain ⟨own', ps, hown', ht⟩ := h own hown
  obtain ⟨hs, hi'⟩ := ht.leave hi hf
  exact ⟨hs, own', ps ++ left, hown', hi'⟩

/-- What a step leaves behind is what its event's handler overwrites. -/
theorem MainStep.leaves {s : MainState} {tr : List Item} (hok : MainOk s tr) {i : MainInput}
    {pre : List Item} {pc : MainPc} {ctx : KlContext} {cs : List Call}
    (h : MainStep s i pre pc ctx cs) : Leaves s.ctx cs ctx (pre.flatMap s.ctx.overwritten) := by
  cases h with
  | deliver p d e o ctx cs hpc hp h =>
    rw [List.flatMap_singleton]
    exact h.leaves
  | plain i pc cs hcs hpc => exact hcs.leaves
  | connect o pc hpc hpc' =>
    rw [hok.start hpc]
    exact klContextInitConnect_leaves o
  | lock o ok ctx cs hpc h => exact h.leaves (hok.early (by rw [hpc]; rfl))
  | unlock ret ok ctx cs hpc h => exact h.leaves
  | destroyObjects releasable ret hpc hd => exact klContextDestroyObjects_leaves s.ctx releasable
  | destroyAll releasable ret hpc hd =>
    have h := (klContextDestroyObjects_leaves s.ctx releasable).trans
      (klContextDestroyDisplay_leaves (klContextDestroyObjects s.ctx releasable).1)
    have hnone : (klContextDestroyDisplay (klContextDestroyObjects s.ctx releasable).1).2 = [] := by
      simp [klContextDestroyDisplay, klContextDestroyObjects, hd]
    rwa [hnone, List.append_nil] at h
  | destroyDisplay ok ret hpc => exact klContextDestroyDisplay_leaves s.ctx

/-! ## The surfaces in every run -/

theorem Plain.remote {ctx : KlContext} {cs : List Call} (h : Plain ctx cs) : Remote cs := by
  intro c hc
  have hp := (h c hc).1
  cases c <;> first
    | rfl
    | exact absurd hp Bool.false_ne_true

theorem remote_toList_map (x : Option Proxy) (f : Proxy → Call)
    (h : ∀ p, (f p).subject = none) : Remote (x.toList.map f) := by
  intro c hc
  obtain ⟨p, -, rfl⟩ := List.mem_map.mp hc
  exact h p

/-- The surfaces that calls allocate are new to the history. -/
def NewSurfaces (tr : List Item) (cs : List Call) : Prop :=
  ∀ a, .callocSurface (some a) ∈ cs → .call (.callocSurface (some a)) ∉ tr

theorem Dispatched.roster {ctx ctx' : KlContext} {p : Proxy} {d : Listener} {e : ProxyEvent}
    {cs : List Call} (h : Dispatched ctx p d e ctx' cs) {tr : List Item}
    (hr : Roster tr ctx.surfaces) (hnew : NewSurfaces tr cs) :
    Roster (tr ++ calls cs) ctx'.surfaces := by
  have hbind : ∀ name iface ret, Remote [.wlRegistryBind p name iface ret] := by
    simp [Remote, Call.subject]
  -- the bind comes first, and what it allocates is still new
  have hcreate : ∀ {name output surf cs}, Created output name surf cs →
      (∀ a, .callocSurface (some a) ∈ cs → .call (.callocSurface (some a)) ∉ tr) →
      Roster (tr ++ calls (.wlRegistryBind p name .wlOutput (some output) :: cs))
        (surf :: ctx.surfaces) := by
    intro name output surf cs hs hnew
    have hsurf : .callocSurface (some surf.addr) ∈ cs := by
      obtain ⟨ok, rfl⟩ := hs.calls
      simp
    have h1 := (hr.remote (hbind name .wlOutput (some output))).created hs
      (List.not_mem_append (hnew _ hsurf) (by simp))
    simpa using h1
  cases h with
  | bindFailed | compositor | shm | lockManager => exact hr.remote (hbind _ _ _)
  | createFailed name output cs releasable hp hcs =>
    have hdrop : Remote (wlOutputDrop output releasable) := by
      cases releasable <;> simp [Remote, wlOutputDrop, Call.subject]
    have h1 := (hr.remote (hbind name .wlOutput (some output))).createFailed hcs fun a ha =>
      List.not_mem_append (hnew a (by simp [ha])) (by simp)
    simpa using h1.remote hdrop
  | created name output surf cs hp hs hl => exact hcreate hs fun a ha => hnew a (by simp [ha])
  | plugged name output surf surf' cs ds o ok flush hp hs hl hf ha =>
    have h1 := hcreate hs fun a ha => hnew a (by simp [ha])
    have hnew' : Roster _ ([] ++ surf :: ctx.surfaces) := h1
    have h2 := hnew'.op (.attached ha)
    have h3 := h2.remote (remote_toList_map ctx.display (.wlDisplayFlush · flush) fun _ => rfl)
    simpa using h3
  | other | notFound | locked | finished => simpa using hr
  | removed name l1 l2 surf releasable hs hn hfirst =>
    rw [hs] at hr
    have hop : SurfaceOp ctx.refs surf none _ := .destroyed releasable
    simpa using hr.op hop
  | handled l1 l2 surf surf' d e cs hs hd hm h =>
    rw [hs] at hr
    simpa using hr.op (.handled h)

/-- Nothing but the display and the registry is there after connecting. -/
theorem klContextInitConnect_fields (o : ConnectOutcomes) :
    (klContextInitConnect o).2.1.surfaces = [] ∧ (klContextInitConnect o).2.1.lock = none ∧
      (klContextInitConnect o).2.1.isLocked = false ∧
      (klContextInitConnect o).2.1.isFinished = false := by
  cases hd : o.display with
  | none => simp [klContextInitConnect, hd, KlContext.zeroed]
  | some display =>
    cases hr : o.registry with
    | none => simp [klContextInitConnect, hd, hr, KlContext.zeroed]
    | some registry =>
      cases hl : o.addListener <;> simp [klContextInitConnect, hd, hr, hl, KlContext.zeroed]

theorem klContextInitConnect_remote (o : ConnectOutcomes) :
    Remote (klContextInitConnect o).2.2 := by
  intro c hc
  have h := klContextInitConnect_calls o c hc
  cases c <;> first
    | rfl
    | exact absurd h Bool.false_ne_true

theorem LockStep.roster {ctx ctx' : KlContext} {ok : Bool} {cs : List Call}
    (h : LockStep ctx ok ctx' cs) {tr : List Item} (hr : Roster tr ctx.surfaces) :
    Roster (tr ++ calls cs) ctx'.surfaces := by
  cases h with
  | refused => simpa using hr
  | noLock => exact hr.remote (by simp [Remote, Call.subject])
  | noListener => exact hr.remote (by simp [Remote, Call.subject])
  | attached manager lock ok surfs cs hm ha =>
    have hmade : Remote [.extSessionLockManagerV1Lock manager (some lock),
        .extSessionLockV1AddListener lock true] := by
      simp [Remote, Call.subject]
    simpa using ha.step.roster (hr.remote hmade)

theorem UnlockStep.roster {ctx ctx' : KlContext} {ok : Bool} {cs : List Call}
    (h : UnlockStep ctx ok ctx' cs) {tr : List Item} (hr : Roster tr ctx.surfaces) :
    Roster (tr ++ calls cs) ctx'.surfaces := by
  cases h with
  | refused => simpa using hr
  | unlocked lock hl hlocked hf =>
    have hrest : Remote (.extSessionLockV1UnlockAndDestroy lock ::
        ctx.display.toList.map .wlDisplayRoundtrip) :=
      List.forall_mem_cons.mpr ⟨rfl, remote_toList_map _ _ fun _ => rfl⟩
    have h1 := ((klContextDetachAll_step ctx.refs ctx.surfaces).roster hr).remote hrest
    simpa only [calls_append, List.append_assoc] using h1

theorem klContextDestroyObjects_roster {ctx : KlContext} (releasable : SurfaceRef → Bool)
    {tr : List Item} (hr : Roster tr ctx.surfaces) :
    Roster (tr ++ calls (klContextDestroyObjects ctx releasable).2) [] := by
  obtain ⟨cs, he, hends⟩ := klContextDestroyObjects_calls ctx releasable
  have hcs : Remote cs := by
    intro c hc
    have h := hends c hc
    cases c <;> first
      | rfl
      | exact absurd h Bool.false_ne_true
  have h1 := (klSurfaceDestroyAll_step ctx.refs releasable ctx.surfaces).roster hr
  have h2 := h1.remote (remote_toList_map ctx.lock (klContextDestroyLock ctx) fun p => by
    unfold klContextDestroyLock
    split <;> rfl)
  have h3 := h2.remote hcs
  rw [he]
  simpa only [calls_append, List.append_assoc] using h3

theorem MainStep.roster {s : MainState} {i : MainInput} {pre : List Item} {pc : MainPc}
    {ctx : KlContext} {cs : List Call} (h : MainStep s i pre pc ctx cs) {tr : List Item}
    (hok : MainOk s tr) (hnew : NewSurfaces tr cs) :
    Roster (tr ++ (pre ++ calls cs)) ctx.surfaces := by
  have hr := hok.roster
  rw [← List.append_assoc]
  cases h with
  | deliver p d e o ctx cs hpc hp h =>
    exact h.roster (hr.event (hr.live_event (hok.listening.1 p d hp) e))
      fun a ha => List.not_mem_append (hnew a ha) (by simp)
  | plain i pc cs hcs hpc =>
    rw [List.append_nil]
    exact hr.remote hcs.remote
  | connect o pc hpc hpc' =>
    rw [List.append_nil, (klContextInitConnect_fields o).1]
    rw [hok.start hpc] at hr
    exact hr.remote (klContextInitConnect_remote o)
  | lock o ok ctx cs hpc h =>
    rw [List.append_nil]
    exact h.roster hr
  | unlock ret ok ctx cs hpc h =>
    rw [List.append_nil]
    exact h.roster hr
  | destroyObjects releasable ret hpc hd =>
    rw [List.append_nil]
    exact klContextDestroyObjects_roster releasable hr
  | destroyAll releasable ret hpc hd =>
    rw [List.append_nil]
    exact klContextDestroyObjects_roster releasable hr
  | destroyDisplay ok ret hpc =>
    rw [List.append_nil]
    exact hr.remote (remote_toList_map _ _ fun _ => rfl)

theorem Dispatched.lock {ctx ctx' : KlContext} {p : Proxy} {d : Listener} {e : ProxyEvent}
    {cs : List Call} (h : Dispatched ctx p d e ctx' cs) : ctx'.lock = ctx.lock := by
  cases h <;> rfl

theorem MainStep.early {s : MainState} {i : MainInput} {pre : List Item} {pc : MainPc}
    {ctx : KlContext} {cs : List Call} (h : MainStep s i pre pc ctx cs)
    (hs : s.pc.phase = .early → s.ctx.lock = none) (hpc : pc.phase = .early) : ctx.lock = none := by
  cases h with
  | deliver p d e o ctx cs _ hp h => exact h.lock.trans (hs hpc)
  | plain i pc cs hcs hmove =>
    rw [hpc] at hmove
    generalize hph : s.pc.phase = ph at hmove
    cases hmove
    exact hs hph
  | connect o pc _ _ => exact (klContextInitConnect_fields o).2.1
  | lock o ok | unlock ret ok => cases ok <;> cases hpc
  | destroyObjects | destroyAll | destroyDisplay => cases hpc

theorem MainStep.not_start {s : MainState} {i : MainInput} {pre : List Item} {pc : MainPc}
    {ctx : KlContext} {cs : List Call} (h : MainStep s i pre pc ctx cs) (hpc : pc = .start) :
    s.pc = .start ∧ ctx = s.ctx := by
  subst hpc
  generalize hpc' : MainPc.start = pc at h
  cases h with
  | deliver p d e o ctx cs hd =>
    rw [← hpc'] at hd
    cases hd
  | plain i pc cs hcs hmove =>
    rw [← hpc'] at hmove
    generalize hph : s.pc.phase = ph at hmove
    cases hmove
    refine ⟨?_, rfl⟩
    cases hs : s.pc <;> rw [hs] at hph <;> cases hph
    exact hpc'
  | connect o pc _ h =>
    rw [← hpc'] at h
    rcases h with ⟨h, -⟩ | h <;> cases h
  | lock o ok | unlock ret ok => cases ok <;> cases hpc'
  | destroyObjects | destroyAll | destroyDisplay => cases hpc'

/-- Before its calls a step has at most an event. -/
theorem MainStep.not_call {s : MainState} {i : MainInput} {pre : List Item} {pc : MainPc}
    {ctx : KlContext} {cs : List Call} (h : MainStep s i pre pc ctx cs) (c : Call) :
    .call c ∉ pre := by
  cases h <;> simp

theorem mainMachine_ok {s : MainState} {tr : List Item} (h : mainMachine.Reach s tr) :
    MainOk s tr := by
  refine h.invariant ?_ ?_
  · rintro s ⟨hpc, hctx, ht, ha⟩
    have hown : ContextOwn s.ctx 0 := by
      rw [hctx]
      exact ⟨false, false, 0, .nil, rfl⟩
    refine ⟨ht, trivial, trivial, ⟨0, [], hown, ?_⟩, fun _ => hctx, fun he => ?_, by simp, ?_⟩
    · rw [ht]
      exact inventory_empty
    · rw [hpc] at he
      cases he
    · rw [hctx]
      exact roster_nil
  · intro s tr i s' out hok _ hs
    obtain ⟨pre, pc, ctx, cs, hm, hstep⟩ := mainMachine_step hok.listening hs
    obtain ⟨own, left, hown, hi⟩ := hok.inventory
    obtain ⟨hsound, own', left', hown', hi'⟩ := (hstep.leaves hok).turns.inventory hown hi hm.fresh
    -- the event before the calls uses a live proxy and changes nothing
    have hpre : Sound s.table (itemActs pre) ∧ Fresh s.table (itemActs pre) ∧
        run s.table (itemActs pre) = s.table := by
      cases hstep with
      | deliver p d e o ctx cs hpc hp h =>
        refine ⟨⟨fun q hq => ?_, trivial⟩, ⟨trivial, trivial⟩, rfl⟩
        exact ⟨_, Option.some.inj hq ▸ hp⟩
      | _ => exact ⟨trivial, trivial, rfl⟩
    have hacts : itemActs (tr ++ out) = itemActs tr ++ (itemActs pre ++ acts cs) := by
      rw [hm.items]
      simp
    have hnew : NewSurfaces tr cs := by
      intro a ha htr
      refine hm.new a ?_ (hok.allocated a htr)
      exact List.mem_filterMap.mpr ⟨_, ha, rfl⟩
    refine ⟨?_, ?_, ?_, ⟨own', left', hm.ctx ▸ hown', hm.table ▸ hi'⟩, fun hpc => ?_, fun hpc => ?_,
      fun a ha => ?_, ?_⟩
    · rw [hacts, run_append, run_append, ← hok.table, hpre.2.2]
      exact hm.table
    · rw [hacts, fresh_append, fresh_append, ← hok.table, hpre.2.2]
      exact ⟨hok.fresh, hpre.2.1, hm.fresh⟩
    · rw [hacts, sound_append, sound_append, ← hok.table, hpre.2.2]
      exact ⟨hok.sound, hpre.1, hsound⟩
    · obtain ⟨h1, h2⟩ := hstep.not_start (hm.pc ▸ hpc)
      rw [hm.ctx, h2]
      exact hok.start h1
    · rw [hm.ctx]
      exact hstep.early hok.early (hm.pc ▸ hpc)
    · rw [hm.allocated]
      rw [hm.items] at ha
      have hcall : .call (.callocSurface (some a)) ∈ tr ∨ .callocSurface (some a) ∈ cs := by
        rcases List.mem_append.mp ha with ha | ha
        · exact Or.inl ha
        · refine Or.inr ?_
          rcases List.mem_append.mp ha with ha | ha
          · exact absurd ha (hstep.not_call _)
          · exact call_mem_calls.mp ha
      rcases hcall with hcall | hcall
      · exact List.mem_append_right _ (hok.allocated a hcall)
      · exact List.mem_append_left _ (List.mem_filterMap.mpr ⟨_, hcall, rfl⟩)
    · rw [hm.items, hm.ctx]
      exact hstep.roster hok hnew

/-! ## A run to evaluate -/

/-- A global is bound to `bind`; an output becomes the surface at `addr` and is
attached with the proxies `ws` and `ls`. -/
def sampleGlobal (bind : Proxy) (addr : SurfaceRef) (ws ls : Proxy) : HandlerOutcomes where
  global := ⟨some bind, ⟨some addr, true, true⟩, true, ⟨some ws, some ls, true⟩, .done⟩
  frame := sampleFrame 0 0
  releasable := true

/-- A frame is drawn with these proxies. -/
def sampleDraw (wlBuffer callback : Proxy) : HandlerOutcomes :=
  { sampleGlobal 0 0 0 0 with frame := sampleFrame wlBuffer callback }

def mainStart : MainState := ⟨.start, .zeroed, 0, fun _ => .unborn, []⟩

/-- One output is locked and drawn, a second one is plugged in, and the session is on. -/
def sampleLocking : List MainInput :=
  [.init ⟨some 1, some 2, true⟩,
    .deliver 2 (.global 1 .wlCompositor) (sampleGlobal 3 0 0 0),
    .deliver 2 (.global 2 .wlShm) (sampleGlobal 4 0 0 0),
    .deliver 2 (.global 3 .extSessionLockManagerV1) (sampleGlobal 5 0 0 0),
    .deliver 2 (.global 4 .wlOutput) (sampleGlobal 6 0 0 0),
    .returned true,
    .lock ⟨some 7, true, fun _ => ⟨some 8, some 9, true⟩⟩,
    .test,
    .deliver 9 (.configure 1 640 480) (sampleDraw 20 21),
    .deliver 7 .locked (sampleDraw 0 0),
    .deliver 2 (.global 5 .wlOutput) (sampleGlobal 30 1 31 32),
    .returned true,
    .test,
    .flushed .done,
    .setup ⟨true, true, true, some ⟨1, 0⟩⟩]

/-- The first output is unplugged with a frame outstanding, and the session ends. -/
def sampleEnding : List MainInput :=
  [.clock (some ⟨2, 0⟩),
    .prepared true,
    .flushed .done,
    .waited ⟨.events [⟨true, false, true⟩], true⟩,
    .deliver 2 (.globalRemove 4) (sampleDraw 0 0),
    .returned true,
    .clock (some ⟨6, 0⟩),
    .unlock,
    .returned true,
    .destroy fun _ => true,
    .returned true]

theorem mainStart_init : mainMachine.init mainStart := ⟨rfl, rfl, rfl, rfl⟩

theorem lockedRun_isSome : (mainMachine.exec mainStart sampleLocking).isSome = true := by
  decide

/-- In the session, with two surfaces. -/
def lockedRun : MainState × List Item :=
  (mainMachine.exec mainStart sampleLocking).get lockedRun_isSome

theorem endedRun_isSome :
    (mainMachine.exec mainStart (sampleLocking ++ sampleEnding)).isSome = true := by
  decide

/-- To the end of `main`. -/
def endedRun : MainState × List Item :=
  (mainMachine.exec mainStart (sampleLocking ++ sampleEnding)).get endedRun_isSome

theorem endedRun_reach : mainMachine.Reach endedRun.1 endedRun.2 :=
  Machine.reach_exec mainStart_init endedRun_isSome

end Kirilock
