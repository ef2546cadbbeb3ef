import Kirilock.SurfacePaint
import Kirilock.Timed

/-!
The time that a frame is drawn for.

`kl_surface_render_frame` takes the first reading of `CLOCK_MONOTONIC` as the start of the
animation, and what has passed since then is the time of the frame.  `start_time_ns` is 0
until there is a start; a reading that failed is 0 as well.

* `surfaceMachine_times`: what a step does to `start_time_ns`, and the times it draws for.
* `frame_elapsed_iff`: in timed runs, the time of every frame is one that has really passed
  in exactly the steps that can read the clock once there is a start.
-/

namespace Kirilock

open Runs Ownership

/-! ## One frame -/

/-- The time that a call draws for. -/
def Call.elapsed : Call → Option UInt64
  | .klRenderEngineDraw _ _ _ _ _ elapsedNs => some elapsedNs
  | _ => none

theorem elapsed_of_backing {cs : List Call} (h : cs.all Call.backing) :
    cs.filterMap Call.elapsed = [] := by
  refine List.filterMap_eq_nil_iff.mpr fun c hc => ?_
  have hb := List.all_eq_true.mp h c hc
  cases c <;> first
    | exact absurd hb Bool.false_ne_true
    | rfl

theorem klSurfaceRenderFrameCommit_times (surf : KlSurface) (ws : Proxy) (i : Slot)
    (o : FrameOutcomes) :
    (klSurfaceRenderFrameCommit surf ws i o).1.startTimeNs = surf.startTimeNs ∧
      (klSurfaceRenderFrameCommit surf ws i o).2.filterMap Call.elapsed = [] := by
  unfold klSurfaceRenderFrameCommit
  cases o.frame with
  | none => exact ⟨rfl, rfl⟩
  | some cb => cases o.addListener <;> exact ⟨rfl, rfl⟩

theorem klSurfaceRenderFrameDraw_times (surf : KlSurface) (i : Slot) (o : FrameOutcomes) :
    (klSurfaceRenderFrameDraw surf i o).1.startTimeNs = surf.startTime (klGetTimeNs o.clock) ∧
      (klSurfaceRenderFrameDraw surf i o).2.filterMap Call.elapsed =
        [klGetTimeNs o.clock - surf.startTime (klGetTimeNs o.clock)] := by
  refine ⟨rfl, ?_⟩
  have hprepare := elapsed_of_backing (klBufferPrepare_inert (surf.buffers i)).backing
  have hflush := elapsed_of_backing (klBufferFlush_inert (surf.buffers i)).backing
  have hdraw := elapsed_of_backing (klRenderEngineDraw_inert surf.engine (surf.buffers i).cr
    surf.width surf.height surf.scale o.bake).backing
  simp only [klSurfaceRenderFrameDraw, List.filterMap_append, List.filterMap_cons, hprepare,
    hflush, hdraw, Call.elapsed]
  rfl

/-- The start and the times drawn for, of a frame that is drawn and of one that is not. -/
theorem klSurfaceRenderFrame_times (refs : CtxRefs) {surf : KlSurface} (hwf : surf.WellFormed)
    (o : FrameOutcomes) :
    (surf.Draws refs o →
      (klSurfaceRenderFrame refs surf o).1.startTimeNs = surf.startTime (klGetTimeNs o.clock) ∧
      (klSurfaceRenderFrame refs surf o).2.filterMap Call.elapsed =
        [klGetTimeNs o.clock - surf.startTime (klGetTimeNs o.clock)]) ∧
    (¬surf.Draws refs o →
      (klSurfaceRenderFrame refs surf o).1.startTimeNs = surf.startTimeNs ∧
      (klSurfaceRenderFrame refs surf o).2.filterMap Call.elapsed = []) := by
  have hbuffer : ∀ i, (surf.buffers i).busy = false →
      ∃ b, (klSurfaceRenderFrameBuffer refs (surf.setCurrent i) i o).2.1 =
          (surf.setCurrent i).setBuffer i b ∧
        (klSurfaceRenderFrameBuffer refs (surf.setCurrent i) i o).2.2.filterMap Call.elapsed =
          [] := by
    intro i hfree
    obtain ⟨b, hb, hcalls, -⟩ :=
      klSurfaceRenderFrameBuffer_spec refs (hwf.setCurrent i) (i := i) hfree o
    exact ⟨b, hb, elapsed_of_backing hcalls.backing⟩
  have hmade := fun i => klSurfaceRenderFrameBuffer_true_iff refs (surf.setCurrent i) i o
  have hcase := klSurfaceRenderFrame_case refs surf o
  generalize (klSurfaceRenderFrame refs surf o).1 = surf' at hcase ⊢
  generalize (klSurfaceRenderFrame refs surf o).2 = cs at hcase ⊢
  cases hcase with
  | skipped hno => exact ⟨fun hd => absurd hd.1 hno, fun _ => ⟨rfl, rfl⟩⟩
  | noBuffer _ hi =>
    refine ⟨fun hd => ?_, fun _ => ⟨rfl, rfl⟩⟩
    obtain ⟨-, j, hj, -⟩ := hd
    rw [hi] at hj
    cases hj
  | createFailed _ i hi hfree buf hbuf hr =>
    obtain ⟨b, hb, hcalls⟩ := hbuffer i hfree
    rw [hbuf] at hb hcalls
    refine ⟨fun hd => ?_, fun _ => ⟨by rw [hb]; rfl, ?_⟩⟩
    · obtain ⟨-, j, hj, hm⟩ := hd
      obtain rfl : i = j := Option.some.inj (hi.symm.trans hj)
      rw [← hbuf, (hmade i).mpr hm] at hr
      cases hr
    · rw [List.filterMap_append, hcalls]
      rfl
  | drawn h ws hws i hi hfree buf hbuf hr draw hdraw =>
    obtain ⟨b, hb, hcalls⟩ := hbuffer i hfree
    rw [hbuf] at hb hcalls
    refine ⟨fun _ => ?_, fun hd => ?_⟩
    · obtain ⟨hstart, helapsed⟩ := klSurfaceRenderFrameDraw_times buf.2.1 i o
      obtain ⟨hkept, hnone⟩ := klSurfaceRenderFrameCommit_times draw.1 ws i o
      have hbefore : buf.2.1.startTime (klGetTimeNs o.clock) =
          surf.startTime (klGetTimeNs o.clock) := by
        rw [hb]
        rfl
      rw [hdraw, hbefore] at hstart helapsed
      refine ⟨hkept.trans hstart, ?_⟩
      simp only [List.filterMap_append, hcalls, helapsed, hnone]
      rfl
    · rw [← hbuf] at hr
      exact absurd ⟨h, i, hi, (hmade i).mp hr⟩ hd

/-! ## One step -/

/-- The reading of the clock that comes with an input. -/
def SurfaceInput.reading : SurfaceInput → Option Timespec
  | .deliver _ _ _ o => o.clock
  | _ => none

/-- The step draws a frame. -/
def FrameDrawn (s : SurfaceState) : SurfaceInput → Prop
  | .deliver refs p e o =>
    ∃ d mid, s.table p = .live (some d) ∧ s.surf.entry d e = some mid ∧ mid.Draws refs o
  | _ => False

def Item.elapsed : Item → Option UInt64
  | .call c => c.elapsed
  | _ => none

theorem filterMap_calls_elapsed (cs : List Call) :
    (calls cs).filterMap Item.elapsed = cs.filterMap Call.elapsed := by
  unfold calls
  rw [List.filterMap_map]
  rfl

theorem Prepared.times {surf mid : KlSurface} {p : Proxy} {d : Listener} {e : ProxyEvent}
    {pre : List Call} (h : Prepared surf p d e mid pre) :
    mid.startTimeNs = surf.startTimeNs ∧ pre.filterMap Call.elapsed = [] := by
  cases h <;> exact ⟨rfl, rfl⟩

/-- **What a step does to the start**, and the times that it draws for. -/
theorem surfaceMachine_times {env : List Proxy} {s s' : SurfaceState} {i : SurfaceInput}
    {out : List Item} (hok : SurfaceOk env s)
    (h : (surfaceMachine env).step s i = some (s', out)) :
    (FrameDrawn s i →
      s'.surf.startTimeNs = s.surf.startTime (klGetTimeNs i.reading) ∧
      out.filterMap Item.elapsed =
        [klGetTimeNs i.reading - s.surf.startTime (klGetTimeNs i.reading)]) ∧
    (¬FrameDrawn s i →
      (s'.surf.startTimeNs = s.surf.startTimeNs ∨ s'.surf.startTimeNs = 0) ∧
      out.filterMap Item.elapsed = []) := by
  cases i with
  | attach refs o =>
    obtain ⟨surf, pre, cs, hmove, -, rfl, rfl⟩ := surfaceMachine_step hok h
    refine ⟨False.elim, fun _ => ?_⟩
    cases hmove with
    | attach refs o ok surf cs hrefs ha =>
      rw [List.nil_append, filterMap_calls_elapsed]
      cases ha <;> exact ⟨Or.inl rfl, rfl⟩
  | detach =>
    obtain ⟨-, surf', cs, hbufs, hcalls⟩ := klSurfaceDetachLock_spec s.surf
    obtain ⟨-, rfl, rfl⟩ := SurfaceState.move_eq_some h
    refine ⟨False.elim, fun _ => ⟨Or.inr rfl, ?_⟩⟩
    rw [List.nil_append, filterMap_calls_elapsed, hcalls]
    simp only [detachCalls, List.filterMap_append, List.filterMap_cons,
      elapsed_of_backing hbufs.backing]
    cases s.surf.frameCallback <;> cases s.surf.extLockSurface <;> cases s.surf.wlSurface <;> rfl
  | deliver refs p e o =>
    obtain ⟨d, r, -, hlive, hentry, -, rfl, rfl⟩ := surfaceMachine_deliver hok h
    have hitems : ([Item.event p d e] ++ calls r.2).filterMap Item.elapsed =
        r.2.filterMap Call.elapsed := filterMap_calls_elapsed r.2
    rw [hitems]
    cases hentry with
    | rests mid pre hpre hentry hrest =>
      refine ⟨fun hd => ?_, fun _ => ⟨Or.inl hpre.times.1, hpre.times.2⟩⟩
      obtain ⟨d', mid', hlive', hentry', -⟩ := hd
      rw [hlive] at hlive'
      cases hlive'
      rw [hentry] at hentry'
      cases hentry'
    | draws mid pre hpre hentry =>
      obtain ⟨hstart, hpre0⟩ := hpre.times
      have hwf := (hpre.handled refs hok.wellFormed).wellFormed
      obtain ⟨hdrawn, hstill⟩ := klSurfaceRenderFrame_times refs hwf o
      have hbefore : mid.startTime (klGetTimeNs o.clock) =
          s.surf.startTime (klGetTimeNs o.clock) := by
        unfold KlSurface.startTime
        rw [hstart]
      rw [hbefore] at hdrawn
      rw [hstart] at hstill
      rw [List.filterMap_append, hpre0, List.nil_append]
      refine ⟨fun hd => ?_, fun hd => ?_⟩
      · obtain ⟨d', mid', hlive', hentry', hd⟩ := hd
        rw [hlive] at hlive'
        cases hlive'
        rw [hentry] at hentry'
        cases hentry'
        exact hdrawn hd
      · have hno : ¬mid.Draws refs o := fun h => hd ⟨d, mid, hlive, hentry, h⟩
        exact ⟨Or.inl (hstill hno).1, (hstill hno).2⟩

/-! ## Timed runs -/

/-- A reading of the clock is the time. -/
def readingAgrees (now : UInt64) (ts : Option Timespec) : Bool :=
  ts.all fun ts => klGetTimeNs (some ts) = now

theorem klGetTimeNs_agrees {now : UInt64} {ts : Option Timespec}
    (h : readingAgrees now ts = true) :
    (ts.isSome = true → klGetTimeNs ts = now) ∧ (ts.isSome = false → klGetTimeNs ts = 0) := by
  cases ts with
  | none => exact ⟨nofun, fun _ => rfl⟩
  | some ts =>
    unfold readingAgrees at h
    rw [Option.all_some, decide_eq_true_eq] at h
    exact ⟨fun _ => h, nofun⟩

/-- The runs of a surface in time; the animation starts where `start_time_ns` is still 0. -/
def timedSurface (env : List Proxy) : Machine (Timed SurfaceState) (UInt64 × SurfaceInput) Item :=
  (surfaceMachine env).timed (fun now i => readingAgrees now i.reading)
    fun s _ => s.surf.startTimeNs = 0

/-- The times that the step draws for are differences that do not wrap, and not more than
what has passed since the start. -/
def FrameElapsedSound (env : List Proxy) (s : Timed SurfaceState) (_ : List Item)
    (i : UInt64 × SurfaceInput) : Prop :=
  ∀ s' out, (timedSurface env).step s i = some (s', out) →
    ∀ elapsedNs ∈ out.filterMap Item.elapsed,
      Elapsed s'.start s'.now s'.state.surf.startTimeNs (klGetTimeNs i.2.reading) elapsedNs

/-- The condition: the clock is read for every frame after the one that started it. -/
def FrameClockKept (s : Timed SurfaceState) (_ : List Item) (i : UInt64 × SurfaceInput) : Prop :=
  FrameDrawn s.state i.2 → s.state.surf.startTimeNs = 0 ∨ i.2.reading.isSome = true

theorem timedSurface_noted {env : List Proxy} {s : Timed SurfaceState} {tr : List Item}
    (h : (timedSurface env).Reach s tr) :
    s.Noted (fun s => s.surf.startTimeNs ≠ 0) fun s => s.surf.startTimeNs := by
  refine Machine.timed_noted ?_ ?_ h
  · intro s hs hne
    obtain ⟨-, output, name, o, hc⟩ := surfaceMachine_init hs
    obtain ⟨addr, hc⟩ := klSurfaceCreate_some hc
    exact hne (by rw [hc])
  · intro s tr i s' out hreach hs hne
    obtain ⟨hdrawn, hstill⟩ := surfaceMachine_times (surfaceMachine_ok hreach) hs
    by_cases hd : FrameDrawn s i
    · obtain ⟨hstart, -⟩ := hdrawn hd
      by_cases h0 : s.surf.startTimeNs = 0
      · refine Or.inl ⟨by simpa using h0, fun now hnow => ?_⟩
        rw [hstart, KlSurface.startTime, if_pos h0]
        obtain ⟨hsome, hnone⟩ := klGetTimeNs_agrees hnow
        cases hi : i.reading.isSome with
        | true => exact Or.inl (hsome hi)
        | false => exact Or.inr (hnone hi)
      · refine Or.inr ⟨by simpa using h0, h0, ?_⟩
        rw [hstart, KlSurface.startTime, if_neg h0]
    · obtain ⟨hstart, -⟩ := hstill hd
      have hsame := hstart.resolve_right hne
      refine Or.inr ⟨?_, ?_, hsame⟩
      · rw [hsame] at hne
        simpa using hne
      · rwa [hsame] at hne

/-- **A frame in time.** -/
theorem frame_elapsed_iff {env : List Proxy} {s s' : Timed SurfaceState} {tr out : List Item}
    {i : UInt64 × SurfaceInput} (hr : (timedSurface env).Reach s tr)
    (h : (timedSurface env).step s i = some (s', out)) :
    FrameElapsedSound env s tr i ↔ FrameClockKept s tr i := by
  have hnoted := timedSurface_noted hr
  obtain ⟨hm, hle, hagrees, hnow, hstart⟩ := Machine.timed_step h
  obtain ⟨hdrawn, hstill⟩ := surfaceMachine_times (surfaceMachine_ok hr.of_timed) hm
  obtain ⟨hsome, hnone⟩ := klGetTimeNs_agrees hagrees
  have hsound : FrameElapsedSound env s tr i ↔ ∀ elapsedNs ∈ out.filterMap Item.elapsed,
      Elapsed s'.start s'.now s'.state.surf.startTimeNs (klGetTimeNs i.2.reading) elapsedNs := by
    refine ⟨fun hs => hs s' out h, fun hs s1 out1 h1 => ?_⟩
    rw [h] at h1
    cases h1
    exact hs
  rw [hsound]
  by_cases hd : FrameDrawn s.state i.2
  · obtain ⟨hvalue, helapsed⟩ := hdrawn hd
    rw [helapsed, hvalue, hnow, hstart]
    simp only [List.mem_singleton, forall_eq]
    by_cases h0 : s.state.surf.startTimeNs = 0
    · -- the start is the reading itself
      refine iff_of_true ?_ fun _ => Or.inl h0
      rw [KlSurface.startTime, if_pos h0, if_pos (by simpa using h0)]
      exact elapsed_self (UInt64.le_refl _) _
    · obtain ⟨hs0, hsle⟩ := hnoted h0
      have hs0 : s.state.surf.startTimeNs = s.start := hs0.resolve_right h0
      rw [KlSurface.startTime, if_neg h0, if_neg (by simpa using h0), hs0]
      rw [hs0] at h0
      cases hi : i.2.reading.isSome with
      | true =>
        rw [hsome hi]
        exact iff_of_true (elapsed_of_le (UInt64.le_trans hsle hle)) fun _ => Or.inr hi
      | false =>
        rw [hnone hi]
        refine iff_of_false (not_elapsed_failed h0) fun hk => ?_
        rcases hk hd with hk | hk
        · exact h0 (hs0.symm.trans hk)
        · rw [hi] at hk
          cases hk
  · obtain ⟨-, helapsed⟩ := hstill hd
    rw [helapsed]
    exact iff_of_true nofun fun h => absurd h hd

end Kirilock
