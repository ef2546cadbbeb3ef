import Kirilock.MainRun
import Kirilock.SurfaceClock

/-!
The clock, and how long the session lasts.

`kl_get_monotonic_time_ns` returns 0 where `clock_gettime` fails, and neither `main` nor
`kl_surface_render_frame` tells that from a time.  In the loop of `main`, a reading that
fails after a start that did not lies before the start; the difference wraps, passes the
test against the five seconds, and the session is unlocked.

* `main_elapsed_iff`: the condition on one pass of the loop (`MainClockKept`).
* `clock_sound`: the runs of `main` and of a surface whose durations are right.
* `clock_lost`: a run that leaves the loop after one second.
-/

namespace Kirilock

open Runs Ownership

/-! ## The loop of `main` -/

/-- In the loop, after `app_start_time_ns` was read. -/
def MainPc.inLoop : MainPc → Bool
  | .loopTop => true
  | .prepareRead => true
  | .prepareDispatch => true
  | .flush => true
  | .epollWait => true
  | .loopDispatch => true
  | _ => false

/-- The reading of the clock that comes with an input. -/
def MainInput.reading : MainInput → Option Timespec
  | .setup o => o.clock
  | .clock ts => ts
  | .deliver _ _ o => o.frame.clock
  | _ => none

/-- How a step gets to a place in the loop: the loop is entered, or the step is one of it. -/
inductive LoopStep (s : MainState) (i : MainInput) (s' : MainState) : Prop
  | enters (o : SetupOutcomes) (hi : i = .setup o) (ho : o.starts = true)
      (hstart : s'.appStartTimeNs = klGetTimeNs o.clock)
  | stays (hi : ∀ o, i ≠ .setup o) (hl : s.pc.inLoop = true)
      (hstart : s'.appStartTimeNs = s.appStartTimeNs)

theorem Passes.loops {s s' : MainState} {i : MainInput} {pc : MainPc} {ctx : KlContext}
    {cs : List Call} (h : Passes s i pc ctx cs s'.appStartTimeNs) (hl : pc.inLoop = true) :
    LoopStep s i s' := by
  generalize hstart : s'.appStartTimeNs = start at h
  cases h with
  | enters o hpc ho => exact .enters o rfl ho hstart
  | ticks ts hpc | prepares hpc | drains hpc | drained hpc | flushes ret hpc hret | cancels o hpc
  | reads o hpc | goesOn hpc hf =>
    exact .stays (by simp) (by rw [hpc]; rfl) hstart
  | connects | checks | locks | dispatched | unlocks => split at hl <;> cases hl
  | _ => cases hl

/-- **How the loop is reached.** -/
theorem mainMachine_loops {s s' : MainState} {i : MainInput} {out : List Item}
    (h : mainMachine.step s i = some (s', out)) (hl : s'.pc.inLoop = true) : LoopStep s i s' := by
  by_cases hi : ∃ p e o, i = .deliver p e o
  · obtain ⟨p, e, o, rfl⟩ := hi
    obtain ⟨hpc, hstart⟩ := mainMachine_deliver_stays h
    exact .stays (by simp) (hpc ▸ hl) hstart
  · obtain ⟨pc, ctx, cs, hm, hp⟩ := mainMachine_passes h fun p e o he => hi ⟨p, e, o, he⟩
    exact hp.loops (hm.pc ▸ hl)

/-! ## Timed runs -/

def MainInput.starts : MainInput → Bool
  | .setup o => o.starts
  | _ => false

/-- The runs of `main` in time; the session starts where the loop is entered. -/
def timedMain : Machine (Timed MainState) (UInt64 × MainInput) Item :=
  mainMachine.timed (fun now i => readingAgrees now i.reading) fun _ i => i.starts

/-- Where the step is a test of the duration: the difference does not wrap and is not more
than what has passed since the start, and the loop is left only after the whole duration. -/
def MainElapsedSound (s : Timed MainState) (_ : List Item) (i : UInt64 × MainInput) : Prop :=
  ∀ ts, i.2 = .clock ts → s.state.pc = .loopTop →
    Elapsed s.start i.1 s.state.appStartTimeNs (klGetTimeNs ts)
      (klGetTimeNs ts - s.state.appStartTimeNs) ∧
    ∀ s' out, timedMain.step s i = some (s', out) → s'.state.pc = .unlock 0 →
      s.start.toNat + totalDemoDurationNs.toNat ≤ i.1.toNat

/-- The condition: the clock is read for a test if and only if it was read for the start. -/
def MainClockKept (s : Timed MainState) (_ : List Item) (i : UInt64 × MainInput) : Prop :=
  ∀ ts, i.2 = .clock ts → s.state.pc = .loopTop →
    s.start = 0 ∨ (ts.isSome = true ↔ s.state.appStartTimeNs = s.start)

theorem timedMain_noted {s : Timed MainState} {tr : List Item} (h : timedMain.Reach s tr) :
    s.Noted (fun s => s.pc.inLoop = true) fun s => s.appStartTimeNs := by
  refine Machine.timed_noted ?_ ?_ h
  · rintro s ⟨hpc, -⟩ hl
    rw [hpc] at hl
    cases hl
  · intro s tr i s' out _ hs hl
    cases mainMachine_loops hs hl with
    | enters o hi ho hstart =>
      subst hi
      refine Or.inl ⟨ho, fun now hnow => ?_⟩
      obtain ⟨hsome, hnone⟩ := klGetTimeNs_agrees hnow
      rw [hstart]
      cases ho : o.clock.isSome with
      | true => exact Or.inl (hsome ho)
      | false => exact Or.inr (hnone ho)
    | stays hi hl hstart =>
      refine Or.inr ⟨?_, hl, hstart⟩
      cases i <;> first
        | rfl
        | exact absurd rfl (hi _)

/-- The loop is left on account of the clock where the difference reaches the duration. -/
theorem mainMachine_expires {s s' : MainState} {ts : Option Timespec} {out : List Item}
    (h : mainMachine.step s (.clock ts) = some (s', out)) (hpc : s.pc = .loopTop)
    (hpc' : s'.pc = .unlock 0) : totalDemoDurationNs ≤ klGetTimeNs ts - s.appStartTimeNs := by
  simp only [mainMachine, MainState.step, hpc] at h
  split at h
  · assumption
  · rw [(MainState.move_some h).pc] at hpc'
    cases hpc'

/-- **A test of the duration in time.** -/
theorem main_elapsed_iff {s s' : Timed MainState} {tr out : List Item} {i : UInt64 × MainInput}
    (hr : timedMain.Reach s tr) (h : timedMain.step s i = some (s', out)) :
    MainElapsedSound s tr i ↔ MainClockKept s tr i := by
  obtain ⟨hm, hle, hagrees, -⟩ := Machine.timed_step h
  refine forall_congr' fun ts => forall_congr' fun hi => forall_congr' fun hpc => ?_
  have hl : s.state.pc.inLoop = true := by
    rw [hpc]
    rfl
  obtain ⟨hvalue, hstart⟩ : (s.state.appStartTimeNs = s.start ∨ s.state.appStartTimeNs = 0) ∧
      s.start ≤ s.now := timedMain_noted hr hl
  rw [hi] at hagrees
  obtain ⟨hsome, hnone⟩ : (ts.isSome = true → klGetTimeNs ts = i.1) ∧
      (ts.isSome = false → klGetTimeNs ts = 0) := klGetTimeNs_agrees hagrees
  -- the second half of what is sound follows from the first
  have hexpires : Elapsed s.start i.1 s.state.appStartTimeNs (klGetTimeNs ts)
      (klGetTimeNs ts - s.state.appStartTimeNs) → ∀ s' out,
      timedMain.step s i = some (s', out) → s'.state.pc = .unlock 0 →
        s.start.toNat + totalDemoDurationNs.toNat ≤ i.1.toNat := by
    intro he s1 out1 h1 hpc1
    obtain ⟨hm1, -⟩ := Machine.timed_step h1
    rw [hi] at hm1
    have hlong := UInt64.le_iff_toNat_le.mp (mainMachine_expires hm1 hpc hpc1)
    have hbound := he.bound
    omega
  rw [and_iff_left_of_imp hexpires]
  have hreading : klGetTimeNs ts = i.1 ∨ klGetTimeNs ts = 0 := by
    cases hts : ts.isSome with
    | true => exact Or.inl (hsome hts)
    | false => exact Or.inr (hnone hts)
  by_cases h0 : s.start = 0
  · refine iff_of_true ?_ (Or.inl h0)
    rw [h0, or_self] at hvalue
    rw [h0, hvalue]
    exact elapsed_of_zero hreading
  · rw [or_iff_right h0, elapsed_iff hvalue hreading (UInt64.le_trans hstart hle) h0]
    refine iff_congr ?_ Iff.rfl
    -- after a start that is not 0 a reading of the time is not 0
    cases hts : ts.isSome with
    | true => exact iff_of_true (hsome hts) rfl
    | false =>
      refine iff_of_false (fun hnow => h0 ?_) Bool.false_ne_true
      rw [hnone hts] at hnow
      rw [← hnow] at hle
      exact UInt64.le_zero_iff.mp (UInt64.le_trans hstart hle)

/-! ## Every run -/

/-- **Durations**: the runs of `main` and of a surface in which what is taken for the time
that has passed never exceeds it. -/
theorem clock_sound (s : Timed MainState) (tr : List Item) (env : List Proxy)
    (s' : Timed SurfaceState) (tr' : List Item) :
    (timedMain.ReachIf MainElapsedSound s tr ↔ timedMain.ReachIf MainClockKept s tr) ∧
    ((timedSurface env).ReachIf (FrameElapsedSound env) s' tr' ↔
      (timedSurface env).ReachIf FrameClockKept s' tr') :=
  ⟨Machine.reachIf_congr fun _ _ _ _ _ hr h => main_elapsed_iff hr h,
    Machine.reachIf_congr fun _ _ _ _ _ hr h => frame_elapsed_iff hr h⟩

/-! ## A reading that fails -/

/-- The session is locked and the loop entered, one second after the clock began. -/
def lostInputs : List (UInt64 × MainInput) :=
  sampleLocking.map fun i => (klNsPerSec, i)

theorem lostRun_isSome : (timedMain.exec ⟨mainStart, 0, 0⟩ lostInputs).isSome = true := by
  decide

def lostRun : Timed MainState × List Item :=
  (timedMain.exec ⟨mainStart, 0, 0⟩ lostInputs).get lostRun_isSome

/-- One second later the clock cannot be read. -/
def lostInput : UInt64 × MainInput := (2 * klNsPerSec, .clock none)

theorem lostStep_isSome : (timedMain.step lostRun.1 lostInput).isSome = true := by
  decide

def lostStep : Timed MainState × List Item :=
  (timedMain.step lostRun.1 lostInput).get lostStep_isSome

/-- **The session ends after one second** where the clock fails once. -/
theorem clock_lost :
    timedMain.Reach lostRun.1 lostRun.2 ∧ timedMain.step lostRun.1 lostInput = some lostStep ∧
    lostStep.1.state.pc = .unlock 0 ∧ lostStep.1.now - lostStep.1.start = klNsPerSec ∧
    ¬MainElapsedSound lostRun.1 lostRun.2 lostInput := by
  have hinit : timedMain.init ⟨mainStart, 0, 0⟩ := mainStart_init
  have hstep := (Option.some_get lostStep_isSome).symm
  refine ⟨Machine.reach_exec hinit lostRun_isSome, hstep, by decide, by decide, fun h => ?_⟩
  obtain ⟨-, hexpires⟩ := h none rfl (by decide)
  have hshort : ¬lostRun.1.start.toNat + totalDemoDurationNs.toNat ≤ lostInput.1.toNat := by
    decide
  exact hshort (hexpires _ _ hstep (by decide))

end Kirilock
