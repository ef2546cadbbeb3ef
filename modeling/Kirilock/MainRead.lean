import Kirilock.MainLock

/-!
The prepared reads of the loop of `main`.

A successful `wl_display_prepare_read` has to be followed by `wl_display_read_events` or
`wl_display_cancel_read`.  `ReadStep` says what a step does in this respect, `ReadInv` that a
read is prepared just where `main` flushes and sleeps, and `reads_matched` that the two kinds
of calls take turns.
-/

namespace Kirilock

open Runs Ownership

/-! ## The calls -/

/-- A successful `wl_display_prepare_read`. -/
def Item.prepares : Item → Bool
  | .call (.wlDisplayPrepareRead _ ok) => ok
  | _ => false

def Item.releases : Item → Bool
  | .call (.wlDisplayReadEvents ..) => true
  | .call (.wlDisplayCancelRead _) => true
  | _ => false

/-- A read is prepared. -/
def readPrepared (tr : List Item) : Bool := isOpen Item.prepares Item.releases tr

def Item.sleeps : Item → Bool
  | .call .epollWait => true
  | _ => false

/-- Calls that must not be made while a read is prepared: another `wl_display_prepare_read`,
a roundtrip, and the close of the epoll descriptor, where the loop is left. -/
def Item.settled : Item → Bool
  | .call (.wlDisplayPrepareRead ..) => true
  | .call (.wlDisplayRoundtrip _) => true
  | .call .closeEpoll => true
  | _ => false

/-- Calls that only the loop of `main` and its preparation make. -/
def Call.ofLoop : Call → Bool
  | .wlDisplayPrepareRead .. => true
  | .wlDisplayReadEvents .. => true
  | .wlDisplayCancelRead .. => true
  | .wlDisplayDispatchPending .. => true
  | .epollCreate .. => true
  | .epollCtl .. => true
  | .epollWait => true
  | .closeEpoll => true
  | _ => false

/-- Calls that the functions of `lock.c` and `surface.c` make. -/
def Outside (cs : List Call) : Prop := ∀ c ∈ cs, c.ofLoop = false

/-- Items that neither prepare nor release a read, nor sleep. -/
def Readless (out : List Item) : Prop :=
  ∀ it ∈ out, it.prepares = false ∧ it.releases = false ∧ it.sleeps = false

theorem Outside.append {cs ds : List Call} (h1 : Outside cs) (h2 : Outside ds) :
    Outside (cs ++ ds) :=
  List.forall_mem_append.mpr ⟨h1, h2⟩

theorem Outside.readless {cs : List Call} (h : Outside cs) : Readless (calls cs) := by
  intro it hit
  obtain ⟨c, hc, rfl⟩ := List.mem_map.mp hit
  have hc := h c hc
  cases c <;> first
    | exact ⟨rfl, rfl, rfl⟩
    | cases hc

theorem outside_of_ofSurface {cs : List Call} (h : cs.all Call.ofSurface) : Outside cs := by
  intro c hc
  have h := List.all_eq_true.mp h c hc
  cases c <;> first
    | rfl
    | exact absurd h Bool.false_ne_true

theorem outside_toList_map (x : Option Proxy) (f : Proxy → Call)
    (h : ∀ p, (f p).ofLoop = false) : Outside (x.toList.map f) := by
  intro c hc
  obtain ⟨p, -, rfl⟩ := List.mem_map.mp hc
  exact h p

theorem Dispatched.outside {ctx ctx' : KlContext} {p : Proxy} {d : Listener} {e : ProxyEvent}
    {cs : List Call} (h : Dispatched ctx p d e ctx' cs) : Outside cs := by
  have hcreated : ∀ {name output surf cs}, Created output name surf cs →
      Outside (.wlRegistryBind p name .wlOutput (some output) :: cs) := by
    intro name output surf cs hs
    obtain ⟨ok, rfl⟩ := hs.calls
    simp [Outside, Call.ofLoop]
  cases h with
  | bindFailed | compositor | shm | lockManager | other | notFound | locked | finished =>
    simp [Outside, Call.ofLoop]
  | createFailed name output cs releasable hp hcs =>
    cases hcs <;> cases releasable <;> simp [Outside, wlOutputDrop, Call.ofLoop]
  | created name output surf cs hp hs hl => exact hcreated hs
  | plugged name output surf surf' cs ds o ok flush hp hs hl hf ha =>
    exact ((hcreated hs).append (outside_of_ofSurface (SurfaceOp.attached ha).ofSurface)).append
      (outside_toList_map _ _ fun _ => rfl)
  | removed name l1 l2 surf releasable =>
    have hop : SurfaceOp ctx.refs surf none _ := .destroyed releasable
    exact outside_of_ofSurface hop.ofSurface
  | handled l1 l2 surf surf' d e cs hs hd hm h =>
    exact outside_of_ofSurface (ofSurface_of_drawing h.drawing)

theorem klContextInitConnect_outside (o : ConnectOutcomes) :
    Outside (klContextInitConnect o).2.2 := by
  intro c hc
  have h := klContextInitConnect_calls o c hc
  cases c <;> first
    | rfl
    | exact absurd h Bool.false_ne_true

theorem LockStep.outside {ctx ctx' : KlContext} {ok : Bool} {cs : List Call}
    (h : LockStep ctx ok ctx' cs) : Outside cs := by
  cases h with
  | refused | noLock | noListener => simp [Outside, Call.ofLoop]
  | attached manager lock ok surfs cs hm ha =>
    exact List.forall_mem_cons.mpr ⟨rfl, List.forall_mem_cons.mpr ⟨rfl,
      outside_of_ofSurface ha.step.ofSurface⟩⟩

theorem UnlockStep.outside {ctx ctx' : KlContext} {ok : Bool} {cs : List Call}
    (h : UnlockStep ctx ok ctx' cs) : Outside cs := by
  cases h with
  | refused => simp [Outside]
  | unlocked lock hl hlocked hf =>
    exact (outside_of_ofSurface (klContextDetachAll_step ctx.refs ctx.surfaces).ofSurface).append
      (List.forall_mem_cons.mpr ⟨rfl, outside_toList_map _ _ fun _ => rfl⟩)

theorem klContextDestroyObjects_outside (ctx : KlContext) (releasable : SurfaceRef → Bool) :
    Outside (klContextDestroyObjects ctx releasable).2 := by
  obtain ⟨cs, he, hcs⟩ := klContextDestroyObjects_calls ctx releasable
  rw [he]
  refine Outside.append (Outside.append ?_ ?_) fun c hc => ?_
  · exact outside_of_ofSurface (klSurfaceDestroyAll_step ctx.refs releasable ctx.surfaces).ofSurface
  · refine outside_toList_map _ _ fun p => ?_
    rw [klContextDestroyLock_eq]
    split <;> rfl
  · have h := hcs c hc
    cases c <;> first
      | rfl
      | exact absurd h Bool.false_ne_true

theorem klContextDestroyDisplay_outside (ctx : KlContext) :
    Outside (klContextDestroyDisplay ctx).2 :=
  outside_toList_map _ _ fun _ => rfl

/-! ## The steps -/

/-- A read is prepared here. -/
def MainPc.reading : MainPc → Bool
  | .flush => true
  | .epollWait => true
  | _ => false

/-- What a step does with the prepared read. -/
inductive ReadStep (s : MainState) : MainInput → MainPc → List Item → Prop
  | other (i : MainInput) (pc : MainPc) (out : List Item) (hs : s.pc.reading = false)
      (hpc : pc.reading = false) (hout : Readless out) : ReadStep s i pc out
  | prepares (hs : s.pc = .prepareRead) :
      ReadStep s (.prepared true) .flush
        (calls (s.ctx.onDisplay (.wlDisplayPrepareRead · true)))
  | flushes (ret : FlushResult) (hs : s.pc = .flush) (hret : ret ≠ .failed) :
      ReadStep s (.flushed ret) .epollWait (calls (s.ctx.onDisplay (.wlDisplayFlush · ret)))
  | gaveUp (hs : s.pc = .flush) :
      ReadStep s (.flushed .failed) (.unlock 0)
        (calls (s.ctx.onDisplay (.wlDisplayFlush · .failed) ++
          s.ctx.onDisplay .wlDisplayCancelRead ++ [.closeEpoll]))
  | woken (o : WaitOutcomes) (pc : MainPc) (c : Proxy → Call) (post : List Call)
      (hs : s.pc = .epollWait) (hpc : pc.reading = false)
      (hc : ∀ p, (Item.call (c p)).releases = true) (hpost : Readless (calls post)) :
      ReadStep s (.waited o) pc (calls (.epollWait :: s.ctx.onDisplay c ++ post))

@[simp] theorem readless_nil : Readless [] := by simp [Readless]

theorem Readless.append {tr out : List Item} (h1 : Readless tr) (h2 : Readless out) :
    Readless (tr ++ out) :=
  List.forall_mem_append.mpr ⟨h1, h2⟩

theorem Readless.neither {out : List Item} (h : Readless out) :
    ∀ it ∈ out, it.prepares = false ∧ it.releases = false :=
  fun it hit => ⟨(h it hit).1, (h it hit).2.1⟩

theorem readless_onDisplay (ctx : KlContext) (f : Proxy → Call)
    (h : ∀ p, (Item.call (f p)).prepares = false ∧ (Item.call (f p)).releases = false ∧
      (Item.call (f p)).sleeps = false) : Readless (calls (ctx.onDisplay f)) := by
  intro it hit
  obtain ⟨c, hc, rfl⟩ := List.mem_map.mp hit
  obtain ⟨p, -, rfl⟩ := List.mem_map.mp hc
  exact h p

theorem readless_closeEpoll : Readless (calls [Call.closeEpoll]) :=
  List.forall_mem_singleton.mpr ⟨rfl, rfl, rfl⟩

/-- No event is dispatched while a read is prepared. -/
theorem MainPc.not_reading {pc : MainPc} (h : pc.dispatching = true) : pc.reading = false := by
  cases pc <;> first
    | rfl
    | exact absurd h Bool.false_ne_true

theorem SetupFails.readless {s : MainState} {o : SetupOutcomes} {cs : List Call}
    (h : SetupFails s o cs) : Readless (calls cs) := by
  have hfd : Readless (calls (s.ctx.onDisplay (.wlDisplayGetFd · o.getFd))) :=
    readless_onDisplay _ _ fun _ => ⟨rfl, rfl, rfl⟩
  cases h with
  | getFd => exact hfd
  | epollCreate | epollCtl =>
    rw [calls_append]
    exact hfd.append (by simp [Readless, calls, Item.prepares, Item.releases, Item.sleeps])

/-- The ways out of the loop release the read where one is prepared. -/
theorem LeavesLoop.readStep {s : MainState} {i : MainInput} {cs : List Call}
    (h : LeavesLoop s i cs) : ReadStep s i (.unlock 0) (calls (cs ++ [.closeEpoll])) := by
  cases h with
  | expired ts hpc | drainFailed hpc | dispatchFailed ok hpc =>
    exact .other _ _ _ (by rw [hpc]; rfl) rfl readless_closeEpoll
  | flushFailed hpc => exact .gaveUp hpc
  | waitFailed o hpc | readFailed o hpc =>
    exact .woken o _ _ [.closeEpoll] hpc rfl (fun _ => rfl) readless_closeEpoll

theorem Passes.readStep {s : MainState} {i : MainInput} {pc : MainPc} {ctx : KlContext}
    {cs : List Call} {start : UInt64} (h : Passes s i pc ctx cs start)
    (hwf : ∀ surf ∈ s.ctx.surfaces, surf.WellFormed) : ReadStep s i pc (calls cs) := by
  have hdisplay : ∀ f : Proxy → Call, (∀ p, (Item.call (f p)).prepares = false ∧
      (Item.call (f p)).releases = false ∧ (Item.call (f p)).sleeps = false) →
      Readless (calls (s.ctx.onDisplay f)) := readless_onDisplay s.ctx
  cases h with
  | connects o hpc =>
    refine .other _ _ _ (by rw [hpc]; rfl) ?_ (klContextInitConnect_outside o).readless
    split <;> rfl
  | checks ok hpc | dispatched ok hpc =>
    refine .other _ _ _ (by rw [hpc]; rfl) ?_ readless_nil
    split <;> rfl
  | locks o hpc =>
    refine .other _ _ _ (by rw [hpc]; rfl) ?_ (klContextLockSession_step hwf o).outside.readless
    split <;> rfl
  | awaits hpc | locked ret hpc hl | refused ret hpc =>
    exact .other _ _ _ (by rw [hpc]; rfl) rfl (hdisplay _ fun _ => ⟨rfl, rfl, rfl⟩)
  | awaited hpc | ticks ts hpc | drained hpc | goesOn hpc hf | unlocked ok ret hpc =>
    exact .other _ _ _ (by rw [hpc]; rfl) rfl readless_nil
  | fails o cs hpc h => exact .other _ _ _ (by rw [hpc]; rfl) rfl h.readless
  | enters o hpc ho =>
    refine .other _ _ _ (by rw [hpc]; rfl) rfl ?_
    rw [calls_append]
    exact (hdisplay _ fun _ => ⟨rfl, rfl, rfl⟩).append
      (by simp [Readless, calls, Item.prepares, Item.releases, Item.sleeps])
  | prepares hpc => exact .prepares hpc
  | drains hpc =>
    refine .other _ _ _ (by rw [hpc]; rfl) rfl ?_
    rw [calls_append]
    exact (hdisplay _ fun _ => ⟨rfl, rfl, rfl⟩).append (hdisplay _ fun _ => ⟨rfl, rfl, rfl⟩)
  | flushes ret hpc hret => exact .flushes ret hpc hret
  | cancels o hpc =>
    have hwoken := ReadStep.woken o .loopTop .wlDisplayCancelRead [] hpc rfl (fun _ => rfl)
      readless_nil
    rwa [List.append_nil] at hwoken
  | reads o hpc =>
    exact .woken o _ _ _ hpc rfl (fun _ => rfl) (hdisplay _ fun _ => ⟨rfl, rfl, rfl⟩)
  | leaves h => exact h.readStep
  | unlocks ret hpc =>
    refine .other _ _ _ (by rw [hpc]; rfl) ?_ (klContextUnlockSession_step s.ctx).outside.readless
    split <;> rfl
  | destroys releasable ret hpc hd | destroysAll releasable ret hpc hd =>
    exact .other _ _ _ (by rw [hpc]; rfl) rfl
      (klContextDestroyObjects_outside s.ctx releasable).readless
  | disconnects ok ret hpc =>
    exact .other _ _ _ (by rw [hpc]; rfl) rfl (klContextDestroyDisplay_outside s.ctx).readless

/-- **What a step does with the prepared read.** -/
theorem mainMachine_reads {s s' : MainState} {i : MainInput} {out : List Item}
    (hl : s.Listening) (h : mainMachine.step s i = some (s', out)) :
    ReadStep s i s'.pc out := by
  by_cases hi : ∃ p e o, i = .deliver p e o
  · obtain ⟨p, e, o, rfl⟩ := hi
    obtain ⟨d, ctx, cs, hpc, -, -, hd, hm⟩ := mainMachine_deliver hl h
    rw [hm.pc, hm.items]
    refine .other _ _ _ (MainPc.not_reading hpc) (MainPc.not_reading hpc) ?_
    exact List.forall_mem_append.mpr ⟨by simp [Item.prepares, Item.releases, Item.sleeps],
      hd.outside.readless⟩
  · obtain ⟨pc, ctx, cs, hm, hp⟩ := mainMachine_passes h fun p e o he => hi ⟨p, e, o, he⟩
    rw [hm.pc, hm.items]
    exact hp.readStep hl.2.2

/-! ## Every run -/

theorem Dispatched.display {ctx ctx' : KlContext} {p : Proxy} {d : Listener} {e : ProxyEvent}
    {cs : List Call} (h : Dispatched ctx p d e ctx' cs) : ctx'.display = ctx.display := by
  cases h <;> rfl

/-- Until the session ends there is a display. -/
theorem display_reach {s : MainState} {tr : List Item} (h : mainMachine.Reach s tr)
    (hpc : s.pc.phase = .early ∨ s.pc.phase = .session) : s.ctx.display.isSome = true := by
  refine h.invariant_of (I := fun s _ => s.pc.phase = .early ∨ s.pc.phase = .session →
    s.ctx.display.isSome = true) mainMachine_ok ?_ ?_ hpc
  · rintro s ⟨hpc, -⟩ h
    rw [hpc] at h
    rcases h with h | h <;> cases h
  · intro s tr i s' out hok hinv _ hs hph
    obtain ⟨pre, pc, ctx, cs, hm, hstep⟩ := mainMachine_step hok.listening hs
    rw [hm.pc] at hph
    rw [hm.ctx]
    cases hstep with
    | deliver p d e o ctx cs hpc hp h =>
      rw [h.display]
      exact hinv hph
    | plain i pc cs hcs hmove =>
      generalize s.pc.phase = ph at hinv hmove
      generalize pc.phase = ph' at hmove hph
      cases hmove with
      | stays => exact hinv hph
      | early | session | unlocked => rcases hph with h | h <;> cases h
    | connect o pc hpc hpc' =>
      rcases hpc' with ⟨-, hd⟩ | h
      · exact hd
      · rw [h] at hph
        rcases hph with h | h <;> cases h
    | lock o ok ctx cs hpc h =>
      have hd := hinv (Or.inl (by rw [hpc]; rfl))
      cases h <;> exact hd
    | unlock ret ok ctx cs hpc h => cases ok <;> rcases hph with h | h <;> cases h
    | destroyObjects | destroyAll | destroyDisplay => rcases hph with h | h <;> cases h

theorem calls_onDisplay {ctx : KlContext} (h : ctx.display.isSome = true) :
    ∃ display, ∀ f : Proxy → Call, calls (ctx.onDisplay f) = [.call (f display)] := by
  obtain ⟨display, hd⟩ := Option.isSome_iff_exists.mp h
  exact ⟨display, fun f => by simp [KlContext.onDisplay, hd, calls]⟩

/-- A read is prepared where `main` flushes and sleeps. -/
structure ReadInv (s : MainState) (tr : List Item) : Prop where
  turns : Alternate Item.prepares Item.releases tr
  settled : Always (fun pre it => it.settled = true → readPrepared pre = false) tr
  prepared : readPrepared tr = s.pc.reading

/-- Where no read is prepared anything else may be called. -/
theorem ReadInv.extend {s s' : MainState} {tr out : List Item} (h : ReadInv s tr)
    (hs : s.pc.reading = false) (hs' : s'.pc.reading = false) (hout : Readless out) :
    ReadInv s' (tr ++ out) := by
  have hclosed : readPrepared tr = false := h.prepared.trans hs
  have hkept : ∀ pre, Readless pre → readPrepared (tr ++ pre) = false := fun pre hpre =>
    (isOpen_append_of_neither hpre.neither).trans hclosed
  refine ⟨h.turns.append_of_neither hout.neither, always_append.mpr ⟨h.settled, ?_⟩, ?_⟩
  · rintro pre it post he -
    exact hkept pre fun x hx => hout x (by rw [he]; exact List.mem_append_left _ hx)
  · rw [hs']
    exact hkept out hout

/-- While a read is prepared only what may come before its release is called. -/
theorem ReadInv.hold {s s' : MainState} {tr out : List Item} (h : ReadInv s tr)
    (hs : s'.pc.reading = s.pc.reading)
    (hout : ∀ it ∈ out, it.prepares = false ∧ it.releases = false)
    (hwaits : ∀ it ∈ out, it.settled = false) : ReadInv s' (tr ++ out) := by
  refine ⟨h.turns.append_of_neither hout, ?_, ?_⟩
  · exact h.settled.append_of_forall fun it hit _ hx => absurd (hwaits it hit) (by simp [hx])
  · rw [hs]
    exact (isOpen_append_of_neither hout).trans h.prepared

/-- A release. -/
theorem ReadInv.release {s s' : MainState} {tr : List Item} (h : ReadInv s tr)
    (hs : s.pc.reading = true) (hs' : s'.pc.reading = false) {c : Call}
    (hc : (Item.call c).releases = true) : ReadInv s' (tr ++ [.call c]) := by
  have hopen : readPrepared tr = true := h.prepared.trans hs
  have hneither : (Item.call c).prepares = false ∧ (Item.call c).settled = false := by
    cases c <;> first
      | exact ⟨rfl, rfl⟩
      | cases hc
  refine ⟨h.turns.closed hopen hneither.1, ?_, ?_⟩
  · exact always_snoc.mpr ⟨h.settled, fun hx => absurd hneither.2 (by simp [hx])⟩
  · rw [hs', readPrepared, isOpen_snoc]
    simp [Brackets.next, hneither.1, hc]

theorem ReadInv.step {s s' : MainState} {tr out : List Item} {i : MainInput} (h : ReadInv s tr)
    (hd : s.pc.phase = .session → s.ctx.display.isSome = true) (hstep : ReadStep s i s'.pc out) :
    ReadInv s' (tr ++ out) := by
  generalize hpc : s'.pc = pc at hstep
  cases hstep with
  | other i pc out hs hpc' hout => exact h.extend hs (hpc ▸ hpc') hout
  | prepares hs =>
    obtain ⟨display, hon⟩ := calls_onDisplay (hd (by rw [hs]; rfl))
    have hclosed : readPrepared tr = false := by
      rw [h.prepared, hs]
      rfl
    rw [hon]
    refine ⟨h.turns.opened hclosed rfl, always_snoc.mpr ⟨h.settled, fun _ => hclosed⟩, ?_⟩
    rw [hpc, readPrepared, isOpen_snoc]
    rfl
  | flushes ret hs hret =>
    obtain ⟨display, hon⟩ := calls_onDisplay (hd (by rw [hs]; rfl))
    rw [hon]
    exact h.hold (by rw [hpc, hs]; rfl) (by simp [Item.prepares, Item.releases])
      (by simp [Item.settled])
  | gaveUp hs =>
    obtain ⟨display, hon⟩ := calls_onDisplay (hd (by rw [hs]; rfl))
    have h1 : ReadInv s (tr ++ [.call (.wlDisplayFlush display .failed)]) :=
      h.hold rfl (by simp [Item.prepares, Item.releases]) (by simp [Item.settled])
    have h2 : ReadInv s' _ :=
      h1.release (by rw [hs]; rfl) (by rw [hpc]; rfl) (c := .wlDisplayCancelRead display) rfl
    have h3 : ReadInv s' _ := h2.extend (by rw [hpc]; rfl) (by rw [hpc]; rfl) readless_closeEpoll
    rw [calls_append, calls_append, hon, hon]
    simpa only [List.append_assoc] using h3
  | woken o pc c post hs hpc' hc hpost =>
    obtain ⟨display, hon⟩ := calls_onDisplay (hd (by rw [hs]; rfl))
    have h1 : ReadInv s (tr ++ [.call .epollWait]) :=
      h.hold rfl (by simp [Item.prepares, Item.releases]) (by simp [Item.settled])
    have h2 : ReadInv s' _ := h1.release (by rw [hs]; rfl) (hpc ▸ hpc') (hc display)
    have h3 : ReadInv s' _ := h2.extend (hpc ▸ hpc') (hpc ▸ hpc') hpost
    rw [List.cons_append, calls_cons, calls_append, hon]
    simpa only [List.append_assoc, List.cons_append, List.nil_append] using h3

theorem readInv_reach {s : MainState} {tr : List Item} (h : mainMachine.Reach s tr) :
    ReadInv s tr := by
  refine h.invariant_of (I := ReadInv)
    (J := fun s tr => MainOk s tr ∧ (s.pc.phase = .session → s.ctx.display.isSome = true))
    (fun h => ⟨mainMachine_ok h, fun hpc => display_reach h (Or.inr hpc)⟩) ?_ ?_
  · rintro s ⟨hpc, -⟩
    refine ⟨always_nil _, always_nil _, ?_⟩
    rw [hpc]
    rfl
  · rintro s tr i s' out ⟨hok, hd⟩ hinv - hs
    exact hinv.step hd (mainMachine_reads hok.listening hs)

/-- Each read that is prepared is released, once, before the next one is prepared, before
anything waits for the compositor in a roundtrip and before the loop is left. -/
structure ReadsMatched (pc : MainPc) (tr : List Item) : Prop where
  /-- prepares and releases take turns, and a prepare comes first -/
  turns : Alternate Item.prepares Item.releases tr
  settled : Always (fun pre it => it.settled = true → readPrepared pre = false) tr
  prepared : readPrepared tr = true ↔ pc = .flush ∨ pc = .epollWait

/-- **The prepared reads** are matched, in every run. -/
theorem reads_matched {s : MainState} {tr : List Item} (h : mainMachine.Reach s tr) :
    ReadsMatched s.pc tr := by
  have hinv := readInv_reach h
  refine ⟨hinv.turns, hinv.settled, ?_⟩
  rw [hinv.prepared]
  cases s.pc <;> simp [MainPc.reading]

/-- To the end of `main`. -/
theorem reads_matched_endedRun : ReadsMatched endedRun.1.pc endedRun.2 :=
  reads_matched endedRun_reach

end Kirilock
