import Kirilock.MainAttach
import Kirilock.MainLock

/-!
A session that the compositor has finished, and the sleep in `epoll_wait`.

`is_finished` is tested at the end of the loop of `main` and in the loop of
`kl_context_lock_session`, but events are dispatched in the drain before the sleep as
well, and `kl_context_lock_session` returns as soon as it is locked.  `main` does not
sleep on a finished session in the runs where `finished` is dispatched in neither place
(`FinishedTested`), and wherever it is, `main` can go on to the sleep
(`sleeps_of_untested`).
-/

namespace Kirilock

open Runs Ownership

/-- `finished` is dispatched before a test that can see it: not in the drain, and not
in one dispatch with `locked` while the session is being locked. -/
def FinishedTested (s : MainState) (_ : List Item) : MainInput → Prop
  | .deliver _ .finished _ =>
    s.pc ≠ .prepareDispatch ∧ (s.pc = .lockDispatch → s.ctx.isLocked = false)
  | .deliver _ .locked _ => s.pc = .lockDispatch → s.ctx.isFinished = false
  | _ => True

instance (s : MainState) (tr : List Item) (i : MainInput) : Decidable (FinishedTested s tr i) := by
  rcases i with _ | _
  case deliver p e o => rcases e with _ | _ <;> dsimp only [FinishedTested] <;> infer_instance
  all_goals exact isTrue trivial

/-! ## Between the events -/

/-- In the dispatch loop of `kl_context_lock_session`. -/
def MainPc.locking : MainPc → Bool
  | .lockLoop => true
  | .lockDispatch => true
  | .lockFlush => true
  | _ => false

/-- On the way to `epoll_wait`, with no test before it. -/
def MainPc.looping : MainPc → Bool
  | .setup => true
  | .loopTop => true
  | .prepareRead => true
  | .prepareDispatch => true
  | .flush => true
  | .epollWait => true
  | _ => false

/-- Where a step that delivers no event goes, as far as the two loops are concerned. -/
inductive Goes (s : MainState) (pc : MainPc) : Prop
  | elsewhere (hk : pc.locking = false) (hl : pc.looping = false)
  | locks (hk : pc.locking = true) (hs : s.pc = .lockSession ∨ s.pc.locking = true)
  | locked (hpc : pc = .setup) (hs : s.pc = .lockFlush) (hl : s.ctx.isLocked = true)
  | tested (hpc : pc = .loopTop) (hs : s.pc = .loopDispatch) (hf : s.ctx.isFinished = false)
  | loops (hl : pc.looping = true) (hs : s.pc.looping = true)

theorem Passes.goes {s : MainState} {i : MainInput} {pc : MainPc} {ctx : KlContext}
    {cs : List Call} {start : UInt64} (h : Passes s i pc ctx cs start) : Goes s pc := by
  cases h with
  | connects o hpc | checks ok hpc | unlocks ret hpc => split <;> exact .elsewhere rfl rfl
  | locks o hpc =>
    split
    · exact .locks rfl (Or.inl hpc)
    · exact .elsewhere rfl rfl
  | dispatched ok hpc =>
    split
    · exact .locks rfl (Or.inr (by rw [hpc]; rfl))
    · exact .elsewhere rfl rfl
  | awaits hpc | awaited hpc => exact .locks rfl (Or.inr (by rw [hpc]; rfl))
  | locked ret hpc hl => exact .locked rfl hpc hl
  | goesOn hpc hf => exact .tested rfl hpc hf
  | enters o hpc | ticks ts hpc | prepares hpc | drains hpc | drained hpc | flushes ret hpc
  | cancels o hpc =>
    exact .loops rfl (by rw [hpc]; rfl)
  | refused | fails | reads | leaves | unlocked | destroys | destroysAll | disconnects =>
    exact .elsewhere rfl rfl

/-- **Where a step goes.** -/
theorem mainMachine_goes {s s' : MainState} {i : MainInput} {out : List Item}
    (h : mainMachine.step s i = some (s', out)) (hi : ∀ p e o, i ≠ .deliver p e o) :
    Goes s s'.pc := by
  obtain ⟨pc, ctx, cs, hm, hp⟩ := mainMachine_passes h hi
  rw [hm.pc]
  exact hp.goes

/-! ## The flags -/

theorem MainPc.phase_of_loops {pc : MainPc} (h : pc.locking = true ∨ pc.looping = true) :
    pc.phase = .session := by
  cases pc <;> first
    | rfl
    | (rcases h with h | h <;> cases h)

theorem MainPc.not_looping {pc : MainPc} (h : pc.locking = true) : pc.looping = false := by
  cases pc <;> first
    | rfl
    | exact absurd h Bool.false_ne_true

/-- Each of the two loops has one place where events are dispatched before a test. -/
theorem MainPc.lockDispatch_of {pc : MainPc} (h : pc.locking = true)
    (hd : pc.dispatching = true) : pc = .lockDispatch := by
  cases pc <;> first
    | rfl
    | exact absurd h Bool.false_ne_true
    | exact absurd hd Bool.false_ne_true

theorem MainPc.prepareDispatch_of {pc : MainPc} (h : pc.looping = true)
    (hd : pc.dispatching = true) : pc = .prepareDispatch := by
  cases pc <;> first
    | rfl
    | exact absurd h Bool.false_ne_true
    | exact absurd hd Bool.false_ne_true

/-- What an event does to the flags. -/
theorem Dispatched.flags {ctx ctx' : KlContext} {p : Proxy} {d : Listener} {e : ProxyEvent}
    {cs : List Call} (h : Dispatched ctx p d e ctx' cs) :
    (ctx'.isLocked = true ↔ ctx.isLocked = true ∨ d = .lock ∧ e = .locked) ∧
      (ctx'.isFinished = true ↔ ctx.isFinished = true ∨ d = .lock ∧ e = .finished) := by
  cases h with
  | handled l1 l2 surf surf' d e cs hs hd hm h =>
    have hne : d ≠ .lock := by
      rintro rfl
      cases hd
    simp [hne]
  | _ => simp

/-- A step that goes to one of the loops and delivers nothing leaves the flags. -/
theorem MainStep.flags {s : MainState} {i : MainInput} {pre : List Item} {pc : MainPc}
    {ctx : KlContext} {cs : List Call} (h : MainStep s i pre pc ctx cs)
    (hi : ∀ p e o, i ≠ .deliver p e o) (hpc : pc.phase = .session) :
    ctx.isLocked = s.ctx.isLocked ∧ ctx.isFinished = s.ctx.isFinished := by
  cases h with
  | deliver p d e o => exact absurd rfl (hi p e o)
  | plain => exact ⟨rfl, rfl⟩
  | connect o pc _ h => rcases h with ⟨h, -⟩ | h <;> rw [h] at hpc <;> cases hpc
  | lock o ok ctx cs _ h => cases h <;> exact ⟨rfl, rfl⟩
  | unlock ret ok ctx cs _ h => cases ok <;> cases hpc
  | destroyObjects | destroyAll | destroyDisplay => cases hpc

/-! ## The invariant -/

/-- Until the session ends the flag says whether `finished` was dispatched.  While the
session is being locked it is not set with `is_locked`, and it is not set in the loop. -/
structure Awake (s : MainState) (tr : List Item) : Prop where
  seen : s.pc.phase = .start ∨ s.pc.phase = .early ∨ s.pc.phase = .session → FinishedIn tr →
    s.ctx.isFinished = true
  locking : s.pc.locking = true → s.ctx.isLocked = true → s.ctx.isFinished = false
  looping : s.pc.looping = true → s.ctx.isFinished = false

theorem finishedIn_calls {tr : List Item} {cs : List Call} :
    FinishedIn (tr ++ calls cs) ↔ FinishedIn tr := by
  simp [FinishedIn, calls]

theorem Awake.deliver {s s' : MainState} {tr out : List Item} (h : Awake s tr) {p : Proxy}
    {d : Listener} {e : ProxyEvent} {o : HandlerOutcomes} {ctx : KlContext} {cs : List Call}
    (hpc : s.pc.dispatching = true) (hok : FinishedTested s tr (.deliver p e o))
    (hd : Dispatched s.ctx p d e ctx cs) (hm : s.Moved [.event p d e] s.pc ctx cs s' out) :
    Awake s' (tr ++ out) := by
  obtain ⟨hlocked, hfinished⟩ := hd.flags
  have hfalse : ∀ {b : Bool}, ¬b = true → b = false := fun hb => by simpa using hb
  refine ⟨fun hph hfin => ?_, fun hk hl => ?_, fun hl => ?_⟩
  · rw [hm.pc] at hph
    rw [hm.items, ← List.append_assoc, finishedIn_calls] at hfin
    rw [hm.ctx]
    obtain ⟨q, hq⟩ := hfin
    rcases List.mem_append.mp hq with hq | hq
    · exact hfinished.mpr (Or.inl (h.seen hph ⟨q, hq⟩))
    · cases List.mem_singleton.mp hq
      exact hfinished.mpr (Or.inr ⟨rfl, rfl⟩)
  · rw [hm.pc] at hk
    rw [hm.ctx] at hl ⊢
    have hdispatch := MainPc.lockDispatch_of hk hpc
    refine hfalse fun hf => ?_
    rcases hlocked.mp hl with hl | ⟨-, rfl⟩ <;> rcases hfinished.mp hf with hf | ⟨-, hf⟩
    · exact absurd hf (by rw [h.locking hk hl]; exact Bool.false_ne_true)
    · subst hf
      rw [hok.2 hdispatch] at hl
      cases hl
    · rw [hok hdispatch] at hf
      cases hf
    · cases hf
  · rw [hm.pc] at hl
    rw [hm.ctx]
    refine hfalse fun hf => ?_
    rcases hfinished.mp hf with hf | ⟨-, rfl⟩
    · rw [h.looping hl] at hf
      cases hf
    · exact hok.1 (MainPc.prepareDispatch_of hl hpc)

theorem Awake.goes {s s' : MainState} {tr out : List Item} (h : Awake s tr)
    (hinv : LockInv s.pc.phase s.ctx tr) (hok : MainOk s tr) {i : MainInput} {pre : List Item}
    {pc : MainPc} {ctx : KlContext} {cs : List Call} (hi : ∀ p e o, i ≠ .deliver p e o)
    (hstep : MainStep s i pre pc ctx cs) (hgoes : Goes s pc) (hm : s.Moved pre pc ctx cs s' out) :
    Awake s' (tr ++ out) := by
  have hpre : pre = [] := by
    cases hstep with
    | deliver p d e o => exact absurd rfl (hi p e o)
    | _ => rfl
  have hflags := hstep.flags hi
  rw [hpre] at hm
  refine ⟨fun hph hfin => ?_, fun hk hl => ?_, fun hl => ?_⟩
  · rw [hm.pc] at hph
    rw [hm.items, List.nil_append, finishedIn_calls] at hfin
    rw [hm.ctx]
    cases hstep with
    | deliver p d e o => exact absurd rfl (hi p e o)
    | plain i pc cs hcs hmove =>
      generalize hph' : s.pc.phase = ph at hmove
      generalize pc.phase = ph' at hph hmove
      cases hmove with
      | stays => exact h.seen (hph' ▸ hph) hfin
      | early | session | unlocked => simp at hph
    | connect o pc hpc _ =>
      have hset := h.seen (Or.inl (by rw [hpc]; rfl)) hfin
      rw [hok.start hpc] at hset
      cases hset
    | lock o ok ctx cs hpc hlock =>
      have hset := h.seen (Or.inr (Or.inl (by rw [hpc]; rfl))) hfin
      cases hlock <;> exact hset
    | unlock ret ok ctx cs _ hunlock => cases ok <;> simp [MainPc.phase] at hph
    | destroyObjects | destroyAll | destroyDisplay => simp [MainPc.phase] at hph
  · rw [hm.pc] at hk
    rw [hm.ctx] at hl ⊢
    obtain ⟨h1, h2⟩ := hflags (MainPc.phase_of_loops (Or.inl hk))
    rw [h1] at hl
    rw [h2]
    cases hgoes with
    | elsewhere hk' => exact absurd (hk.symm.trans hk') nofun
    | locks _ hs =>
      rcases hs with hs | hs
      · exact (hinv.early (Or.inr (by rw [hs]; rfl))).2.2
      · exact h.locking hs hl
    | locked hpc | tested hpc =>
      rw [hpc] at hk
      cases hk
    | loops hl' => exact absurd (hl'.symm.trans (MainPc.not_looping hk)) nofun
  · rw [hm.pc] at hl
    rw [hm.ctx, (hflags (MainPc.phase_of_loops (Or.inr hl))).2]
    cases hgoes with
    | elsewhere _ hl' => exact absurd (hl.symm.trans hl') nofun
    | locks hk => exact absurd (hl.symm.trans (MainPc.not_looping hk)) nofun
    | locked hpc hs hl => exact h.locking (by rw [hs]; rfl) hl
    | tested hpc hs hf => exact hf
    | loops _ hs => exact h.looping hs

theorem awake_reach {s : MainState} {tr : List Item}
    (h : mainMachine.ReachIf FinishedTested s tr) : Awake s tr := by
  refine h.invariant_of (I := Awake)
    (J := fun s tr => MainOk s tr ∧ LockInv s.pc.phase s.ctx tr)
    (fun h => ⟨mainMachine_ok h.reach, lockInv_reach h.reach⟩) ?_ ?_
  · rintro s ⟨hpc, -⟩
    refine ⟨fun _ hfin => ?_, fun hk => ?_, fun hl => ?_⟩
    · obtain ⟨p, hp⟩ := hfin
      cases hp
    · rw [hpc] at hk
      cases hk
    · rw [hpc] at hl
      cases hl
  · rintro s tr i s' out ⟨hok, hlock⟩ hinv htested hs
    by_cases hi : ∃ p e o, i = .deliver p e o
    · obtain ⟨p, e, o, rfl⟩ := hi
      obtain ⟨d, ctx, cs, hpc, -, -, hd, hm⟩ := mainMachine_deliver hok.listening hs
      exact hinv.deliver hpc htested hd hm
    · obtain ⟨pre, pc, ctx, cs, hm, hstep⟩ := mainMachine_step hok.listening hs
      have hi' : ∀ p e o, i ≠ .deliver p e o := fun p e o he => hi ⟨p, e, o, he⟩
      exact hinv.goes hlock hok hi' hstep (hm.pc ▸ mainMachine_goes hs hi') hm

/-- **No sleep on a finished session**: `main` is not about to wait in `epoll_wait` when
`finished` was dispatched, if it was where a test can see it. -/
theorem sleep_safe {s : MainState} {tr : List Item}
    (h : mainMachine.ReachIf FinishedTested s tr) (hpc : s.pc = .epollWait) : ¬FinishedIn tr := by
  intro hfin
  have hinv := awake_reach h
  have hset := hinv.seen (Or.inr (Or.inr (by rw [hpc]; rfl))) hfin
  rw [hinv.looping (by rw [hpc]; rfl)] at hset
  cases hset

/-- From the locked session to the sleep. -/
def sampleSleeping : List MainInput :=
  sampleLocking ++ [MainInput.clock (some ⟨2, 0⟩), .prepared true, .flushed .done]

theorem sleepingRun_isSome : (mainMachine.exec mainStart sampleSleeping).isSome = true := by
  decide

theorem sleepingRun_meets : mainMachine.Meets FinishedTested mainStart [] sampleSleeping := by
  decide

def sleepingRun : MainState × List Item :=
  (mainMachine.exec mainStart sampleSleeping).get sleepingRun_isSome

theorem sleep_safe_sleepingRun :
    sleepingRun.1.pc = .epollWait ∧ ¬FinishedIn sleepingRun.2 :=
  have hpc : sleepingRun.1.pc = .epollWait := by decide
  ⟨hpc, sleep_safe (Machine.reachIf_exec mainStart_init sleepingRun_meets sleepingRun_isSome) hpc⟩

/-! ## Where it is not tested -/

/-- `main` can come to `pc` from `s`. -/
def ComesTo (s : MainState) (pc : MainPc) : Prop :=
  ∃ s' out, (mainMachine.after s).Reach s' out ∧ s'.pc = pc

theorem ComesTo.step {s s' : MainState} {i : MainInput} {out : List Item} {pc : MainPc}
    (h : mainMachine.step s i = some (s', out)) (hc : ComesTo s' pc) : ComesTo s pc := by
  obtain ⟨s'', out', hr, hpc⟩ := hc
  have hone : (mainMachine.after s).Reach s' ([] ++ out) := .step (.init rfl) trivial h
  exact ⟨s'', _, Machine.reach_append hone hr, hpc⟩

/-- Calls that wait, flush or read are never refused. -/
theorem Plain.move {s : MainState} {cs : List Call} (h : Plain s.ctx cs) (pre : List Item)
    (pc : MainPc) : s.move pre pc s.ctx cs = some ({ s with pc := pc }, pre ++ calls cs) := by
  have huse : ∀ a ∈ acts cs, ∃ p, a = .use p := by
    intro a ha
    obtain ⟨c, hc, ha⟩ := List.mem_flatMap.mp ha
    obtain ⟨p, -, hp⟩ := (h c hc).2 a ha
    exact ⟨p, hp⟩
  have hnone : cs.filterMap Call.allocates = [] := by
    refine List.filterMap_eq_nil_iff.mpr fun c hc => ?_
    have hp := (h c hc).1
    cases c <;> first
      | rfl
      | exact absurd hp Bool.false_ne_true
  obtain ⟨hf, hr⟩ := fresh_of_use huse s.table
  simp [MainState.move, hnone, hf, hr]

/-- A step whose calls are such. -/
theorem ComesTo.plain {s : MainState} (i : MainInput) (pc : MainPc) {cs : List Call} {pc' : MainPc}
    (hcs : Plain s.ctx cs) (hs : mainMachine.step s i = s.move [] pc s.ctx cs)
    (hc : ComesTo { s with pc := pc } pc') : ComesTo s pc' :=
  .step (hs.trans (hcs.move [] pc)) hc

theorem comesTo_of_prepareRead {s : MainState} (hpc : s.pc = .prepareRead) :
    ComesTo s .epollWait := by
  refine .plain (.prepared true) .flush
    (plain_display s.ctx (.wlDisplayPrepareRead · true) fun _ => ⟨rfl, rfl⟩) ?_ ?_
  · simp only [mainMachine, MainState.step, hpc]
    rfl
  refine .plain (.flushed .done) .epollWait
    (plain_display s.ctx (.wlDisplayFlush · .done) fun _ => ⟨rfl, rfl⟩) rfl ?_
  exact ⟨_, [], .init rfl, rfl⟩

/-- From the set-up on, with a clock that fails both times. -/
theorem comesTo_of_setup {s : MainState} (hpc : s.pc = .setup) : ComesTo s .epollWait := by
  have hset : Plain s.ctx (s.ctx.onDisplay (.wlDisplayGetFd · true) ++
      [.epollCreate true, .epollCtl true]) :=
    Plain.append (plain_display s.ctx _ fun _ => ⟨rfl, rfl⟩)
      (plain_cons rfl rfl (plain_single s.ctx rfl rfl))
  have hmove := hset.move (s := { s with appStartTimeNs := klGetTimeNs none }) [] .loopTop
  refine .step (i := .setup ⟨true, true, true, none⟩) (Eq.trans ?_ hmove) ?_
  · simp only [mainMachine, MainState.step, hpc, MainState.setUp, reduceCtorEq, if_false]
  refine .plain (.clock none) .prepareRead (plain_nil s.ctx) ?_ (comesTo_of_prepareRead rfl)
  have hnow : ¬klGetTimeNs none - klGetTimeNs none ≥ totalDemoDurationNs := by decide
  exact if_neg hnow

theorem comesTo_of_lockDispatch {s : MainState} (hpc : s.pc = .lockDispatch)
    (hl : s.ctx.isLocked = true) : ComesTo s .epollWait := by
  refine .plain (.returned true) .lockLoop (plain_nil s.ctx) ?_ ?_
  · simp only [mainMachine, MainState.step, hpc]
    rfl
  refine .plain .test .lockFlush (plain_nil s.ctx) ?_ ?_
  · simp only [mainMachine, MainState.step, hl, reduceCtorEq, false_and, if_false]
  refine .plain (.flushed .done) .setup
    (plain_display s.ctx (.wlDisplayFlush · .done) fun _ => ⟨rfl, rfl⟩) ?_ (comesTo_of_setup rfl)
  simp only [mainMachine, MainState.step, hl, reduceCtorEq, if_false, if_true]
  rfl

/-- **The condition is exact**: after a step that breaks it `main` can come to wait in
`epoll_wait` with `finished` dispatched. -/
theorem sleeps_of_untested {s s' : MainState} {tr out : List Item} {i : MainInput}
    (h : mainMachine.Reach s tr) (hs : mainMachine.step s i = some (s', out))
    (hn : ¬FinishedTested s tr i) : FinishedIn (tr ++ out) ∧ ComesTo s' .epollWait := by
  have hok := mainMachine_ok h
  have hlock : ∀ {d : Listener} {e}, d.hasEvent e = true → e = .locked ∨ e = .finished →
      d = .lock := by
    rintro d e hd (rfl | rfl) <;> cases d <;> first
      | rfl
      | cases hd
  unfold FinishedTested at hn
  split at hn
  · rename_i p o
    obtain ⟨d, ctx, cs, -, -, he, hd, hm⟩ := mainMachine_deliver hok.listening hs
    obtain rfl := hlock he (Or.inr rfl)
    refine ⟨⟨p, by simp [hm.items]⟩, ?_⟩
    by_cases hdrain : s.pc = .prepareDispatch
    · refine .plain (.returned true) .prepareRead (plain_nil s'.ctx) ?_ (comesTo_of_prepareRead rfl)
      simp only [mainMachine, MainState.step, hm.pc, hdrain]
      rfl
    · rw [not_and, Classical.not_imp, Bool.not_eq_false] at hn
      obtain ⟨hpc, hl⟩ := hn hdrain
      exact comesTo_of_lockDispatch (hm.pc.trans hpc)
        (hm.ctx ▸ hd.flags.1.mpr (Or.inl hl))
  · rename_i p o
    obtain ⟨d, ctx, cs, -, -, he, hd, hm⟩ := mainMachine_deliver hok.listening hs
    obtain rfl := hlock he (Or.inl rfl)
    rw [Classical.not_imp, Bool.not_eq_false] at hn
    obtain ⟨q, hq⟩ := (attachInv_reach h).finished hn.2
    exact ⟨⟨q, List.mem_append_left _ hq⟩, comesTo_of_lockDispatch (hm.pc.trans hn.1)
      (hm.ctx ▸ hd.flags.1.mpr (Or.inr ⟨rfl, rfl⟩))⟩
  · exact absurd trivial hn

/-- `locked` and `finished` are dispatched by one `wl_display_dispatch` while the session is
being locked, and `main` goes on to the sleep. -/
def sampleBatched : List MainInput :=
  sampleLocking.take 10 ++ [MainInput.deliver 7 .finished (sampleDraw 0 0),
    .returned true,
    .test,
    .flushed .done,
    .setup ⟨true, true, true, some ⟨1, 0⟩⟩,
    .clock (some ⟨2, 0⟩),
    .prepared true,
    .flushed .done]

theorem batchedRun_isSome : (mainMachine.exec mainStart sampleBatched).isSome = true := by
  decide

def batchedRun : MainState × List Item :=
  (mainMachine.exec mainStart sampleBatched).get batchedRun_isSome

/-- **Not in every run**: `main` waits, and `finished` was dispatched right after `locked`. -/
theorem sleep_finished :
    ¬∀ s tr, mainMachine.Reach s tr → s.pc = .epollWait → ¬FinishedIn tr := by
  intro h
  have hreach : mainMachine.Reach batchedRun.1 batchedRun.2 :=
    Machine.reach_exec mainStart_init batchedRun_isSome
  have hreceived : Received batchedRun.2 7 .finished := by decide
  exact h _ _ hreach (by decide) ⟨7, hreceived⟩

end Kirilock
