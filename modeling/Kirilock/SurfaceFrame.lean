import Kirilock.Surface

/-!
What one call of `kl_surface_render_frame` can do.

`KlSurface.WellFormed` holds of every surface between two handlers.  On a well
formed surface `klSurfaceRenderFrame_step` gives the four things a call can do
(`FrameStep`), with the buffer it picked and the calls it made; everything about
runs of a surface is read off that.
-/

namespace Kirilock

open Ownership

/-- What holds of every surface between two handlers. -/
structure KlSurface.WellFormed (surf : KlSurface) : Prop where
  pending : surf.framePending = surf.frameCallback.isSome
  configured : surf.configured = true → surf.extLockSurface.isSome = true
  role : surf.wlSurface.isSome = surf.extLockSurface.isSome
  callback : ∀ i wb, (surf.buffers i).wlBuffer = some wb →
    (surf.buffers i).onRelease = some .klSurfaceOnBufferRelease ∧
    (surf.buffers i).userData = some surf.addr
  idle : ∀ i, (surf.buffers i).wlBuffer = none → (surf.buffers i).busy = false
  current : surf.currentBuffer < klSurfaceBufferCount
  output : surf.wlOutput.isSome = true

@[simp] theorem setBuffer_self (surf : KlSurface) (i : Slot) (b : KlBuffer) :
    (surf.setBuffer i b).buffers i = b := by
  simp [KlSurface.setBuffer]

theorem setBuffer_of_ne (surf : KlSurface) {i j : Slot} (b : KlBuffer) (h : j ≠ i) :
    (surf.setBuffer i b).buffers j = surf.buffers j := by
  simp [KlSurface.setBuffer, h]

theorem setBuffer_eq_self (surf : KlSurface) (i : Slot) :
    surf.setBuffer i (surf.buffers i) = surf := by
  simp [KlSurface.setBuffer]

/-! ## The buffer that is drawn -/

/-- A buffer of the wanted size. -/
def KlBuffer.Fits (surf : KlSurface) (b : KlBuffer) (wb : Proxy) : Prop :=
  b.Made surf.width surf.height surf.scale (some .klSurfaceOnBufferRelease) (some surf.addr) wb

/-- The calls that replace the buffer in slot `i` by `b`. -/
structure BufferCalls (refs : CtxRefs) (surf : KlSurface) (i : Slot) (b : KlBuffer)
    (cs : List Call) : Prop where
  backing : cs.all Call.backing
  destroys : ∀ p, .wlBufferDestroy p ∈ cs →
    (surf.buffers i).wlBuffer = some p ∨ .create p ∈ acts cs
  kept_or_created : (b.wlBuffer = (surf.buffers i).wlBuffer ∧ b = surf.buffers i ∧ cs = []) ∨
    .klBufferCreate (surf.ref i) none surf.width surf.height surf.scale b.wlBuffer ∈ cs
  triple : ∀ B, (∀ p, refs.shm = some p → p ∈ B) →
    Triple B ((surf.buffers i).own (surf.ref i)) (acts cs) (b.own (surf.ref i))
  notes : NotesOnly (surf.ref i) cs
  names : Names surf.addr cs
  noted : ∀ f, f (surf.ref i) = (surf.buffers i).wlBuffer →
    noteAll f cs (surf.ref i) = b.wlBuffer

theorem BufferCalls.of_setCurrent {refs : CtxRefs} {surf : KlSurface} {i j : Slot} {b : KlBuffer}
    {cs : List Call} (h : BufferCalls refs (surf.setCurrent j) i b cs) :
    BufferCalls refs surf i b cs :=
  ⟨h.backing, h.destroys, h.kept_or_created, h.triple, h.notes, h.names, h.noted⟩

theorem destroy_mem_acts {cs : List Call} {p : Proxy} (h : .wlBufferDestroy p ∈ cs) :
    .destroy p ∈ acts cs :=
  List.mem_flatMap.mpr ⟨_, h, List.mem_singleton_self _⟩

theorem klSurfaceRenderFrameBuffer_spec (refs : CtxRefs) {surf : KlSurface}
    (hwf : surf.WellFormed) {i : Slot} (hfree : (surf.buffers i).busy = false)
    (o : FrameOutcomes) :
    ∃ b, (klSurfaceRenderFrameBuffer refs surf i o).2.1 = surf.setBuffer i b ∧
      BufferCalls refs surf i b (klSurfaceRenderFrameBuffer refs surf i o).2.2 ∧
      ((klSurfaceRenderFrameBuffer refs surf i o).1 = true → ∃ wb, b.Fits surf wb) ∧
      ((klSurfaceRenderFrameBuffer refs surf i o).1 = false → b.Blank ∧
        .klBufferCreate (surf.ref i) none surf.width surf.height surf.scale none ∈
          (klSurfaceRenderFrameBuffer refs surf i o).2.2) := by
  simp only [klSurfaceRenderFrameBuffer]
  split
  · -- the buffer is replaced
    have hnew := klBufferCreate_creation refs.shm (surf.ref i)
      (klBufferDestroy (surf.ref i) (surf.buffers i)).1 (klBufferDestroy_blank _ _)
      surf.width surf.height surf.scale (some .klSurfaceOnBufferRelease) (some surf.addr) o.buffer
    have hmem := klBufferCreate_mem refs.shm (surf.ref i)
      (klBufferDestroy (surf.ref i) (surf.buffers i)).1 (klBufferDestroy_blank _ _)
      surf.width surf.height surf.scale (some .klSurfaceOnBufferRelease) (some surf.addr) o.buffer
    obtain ⟨hmade, hblank, hback, hnotes, hnames, hdestroys⟩ := hnew
    have hold := klBufferDestroy_notes (surf.ref i) (surf.buffers i)
    refine ⟨_, rfl, ⟨?_, ?_, ?_, ?_, hold.1.append hnotes,
      (klBufferDestroy_names _ _).append hnames, fun f _ => ?_⟩, fun h => ?_,
      fun h => ⟨hblank h, ?_⟩⟩
    · rw [List.all_append, klBufferDestroy_backing, hback]
      rfl
    · intro p hp
      rcases List.mem_append.mp hp with hp | hp
      · left
        have hd := destroy_mem_acts hp
        rw [acts_klBufferDestroy] at hd
        simpa using hd
      · right
        rw [acts_append]
        exact List.mem_append_right _ (hdestroys p hp)
    · right
      exact List.mem_append_right _ hmem
    · intro B hB
      rw [acts_append]
      exact (klBufferDestroy_triple B _ _).append (klBufferCreate_triple hB _ _ rfl _ _ _ _ _ _)
    · rw [noteAll_append]
      exact klBufferCreate_noted refs.shm (surf.ref i) _ (klBufferDestroy_blank _ _) _ _ _ _ _ _ _
    · obtain ⟨wb, -, hwb⟩ := hmade h
      exact ⟨wb, hwb⟩
    · rw [(hblank h).wlBuffer] at hmem
      exact List.mem_append_right _ hmem
  · -- the buffer already fits
    rename_i hfit
    simp only [not_or, not_not] at hfit
    obtain ⟨hw, hh, hs, hwb⟩ := hfit
    obtain ⟨wb, hwb⟩ := Option.ne_none_iff_exists'.mp hwb
    obtain ⟨hcb, hud⟩ := hwf.callback i wb hwb
    refine ⟨surf.buffers i, (setBuffer_eq_self surf i).symm, ⟨rfl, ?_, Or.inl ⟨rfl, rfl, rfl⟩, ?_,
      ?_, ?_, fun _ hf => hf⟩, fun _ => ⟨wb, hwb, hw, hh, hs, hfree, hcb, hud⟩,
      fun h => by simp at h⟩
    · intro p hp
      cases hp
    · intro B _
      exact triple_nil B _
    · intro c hc
      cases hc
    · intro c hc
      cases hc

/-! ## One frame -/

/-- The callback a frame leaves pending, if it leaves one. -/
def FrameOutcomes.callback (o : FrameOutcomes) : Option Proxy :=
  if o.addListener then o.frame else none

/-- The surface after a commit of the buffer `b` in slot `i`. -/
def KlSurface.committed (surf : KlSurface) (i : Slot) (b : KlBuffer)
    (engine : Option KlRenderEngine) (t0 t1 : UInt64) (cb : Option Proxy) : KlSurface :=
  { surf with
    currentBuffer := i.val
    buffers := Function.update surf.buffers i { b with busy := true }
    engine := engine
    startTimeNs := t0
    lastFrameTimeNs := t1
    frameCallback := cb
    framePending := cb.isSome
    dirty := if cb.isSome then false else surf.dirty }

/-- The calls between `wl_surface_frame` and the commit. -/
def frameListen (surf : KlSurface) (o : FrameOutcomes) : List Call :=
  match o.frame with
  | none => []
  | some cb =>
    .wlCallbackAddListener cb surf.addr o.addListener ::
      if o.addListener then [] else [.wlCallbackDestroy cb]

/-- The requests of a commit of the `wl_buffer` `wb`. -/
def frameCommit (surf : KlSurface) (ws wb : Proxy) (o : FrameOutcomes) : List Call :=
  [.wlSurfaceSetBufferScale ws surf.scale, .wlSurfaceAttach ws (some wb),
    .wlSurfaceDamage ws surf.width.toInt32 surf.height.toInt32, .wlSurfaceFrame ws o.frame] ++
  frameListen surf o ++ [.wlSurfaceCommit ws]

/-- What one call of `kl_surface_render_frame` can do. -/
inductive FrameStep (refs : CtxRefs) (surf : KlSurface) (o : FrameOutcomes) :
    KlSurface → List Call → Prop
  /-- nothing to draw on, or a frame is pending -/
  | skipped (h : surf.configured = false ∨ surf.framePending = true ∨ surf.wlSurface = none ∨
      surf.width = 0 ∨ surf.height = 0) :
      FrameStep refs surf o surf [.klSurfaceRenderFrame surf.addr]
  | noBuffer (hc : surf.configured = true) (hp : surf.framePending = false)
      (hbusy : ∀ i, (surf.buffers i).busy = true) :
      FrameStep refs surf o surf.setDirty (frameEntry surf none)
  | createFailed (hc : surf.configured = true) (hp : surf.framePending = false) (i : Slot)
      (hfree : (surf.buffers i).busy = false) (b : KlBuffer) (hb : b.Blank) (c1 : List Call)
      (hc1 : BufferCalls refs surf i b c1)
      (hfail : .klBufferCreate (surf.ref i) none surf.width surf.height surf.scale none ∈ c1) :
      FrameStep refs surf o ((surf.setCurrent i).setBuffer i b) (frameEntry surf (some i) ++ c1)
  | committed (hc : surf.configured = true) (hp : surf.framePending = false) (ws : Proxy)
      (hws : surf.wlSurface = some ws) (hw : surf.width ≠ 0) (hh : surf.height ≠ 0) (i : Slot)
      (hfree : (surf.buffers i).busy = false) (b : KlBuffer) (wb : Proxy) (hb : b.Fits surf wb)
      (c1 c2 c3 : List Call) (hc1 : BufferCalls refs surf i b c1) (hc2 : Inert c2)
      (hc3 : Inert c3) (engine : Option KlRenderEngine) (t0 t1 elapsedNs : UInt64) :
      FrameStep refs surf o (surf.committed i b engine t0 t1 o.callback)
        (frameEntry surf (some i) ++ c1 ++ c2 ++
          .klRenderEngineDraw (surf.ref i) (some wb) surf.width surf.height surf.scale
            elapsedNs :: c3 ++ frameCommit surf ws wb o)

theorem klBufferPrepare_inert (buf : KlBuffer) : Inert (klBufferPrepare buf) := by
  unfold klBufferPrepare
  cases buf.cr with
  | none => rfl
  | some cr => by_cases h : 1 < buf.scale <;> simp only [h, if_true, if_false] <;> rfl

theorem klBufferFlush_inert (buf : KlBuffer) : Inert (klBufferFlush buf) := by
  unfold klBufferFlush
  cases buf.cairoSurface <;> rfl

/-- The surface that is drawn, before its new frame state is set. -/
theorem klSurfaceRenderFrameDraw_eq (surf : KlSurface) (i : Slot) (b : KlBuffer)
    (o : FrameOutcomes) :
    (klSurfaceRenderFrameDraw ((surf.setCurrent i).setBuffer i b) i o).1 =
      { surf with
        currentBuffer := i.val
        buffers := Function.update surf.buffers i { b with busy := true }
        engine := (klRenderEngineDraw surf.engine b.cr surf.width surf.height surf.scale o.bake).1
        startTimeNs := surf.startTime (klGetTimeNs o.clock)
        lastFrameTimeNs := klGetTimeNs o.clock } := by
  simp only [klSurfaceRenderFrameDraw, KlSurface.setBuffer, Function.update_self,
    Function.update_idem]
  rfl

/-- The drawing and the commit of the buffer that was picked. -/
theorem klSurfaceRenderFrameCommit_eq (surf : KlSurface) (ws : Proxy) (i : Slot) (b : KlBuffer)
    {wb : Proxy} (hwb : b.wlBuffer = some wb) (o : FrameOutcomes)
    (draw : KlSurface × List Call)
    (hd : klSurfaceRenderFrameDraw ((surf.setCurrent i).setBuffer i b) i o = draw)
    (sprite : Option KlRenderEngine × List Call)
    (hs : klRenderEngineDraw surf.engine b.cr surf.width surf.height surf.scale o.bake = sprite) :
    ∃ t0 t1 elapsedNs,
      (klSurfaceRenderFrameCommit draw.1 ws i o).1 =
        surf.committed i b sprite.1 t0 t1 o.callback ∧
      draw.2 = klBufferPrepare b ++ .klRenderEngineDraw (surf.ref i) (some wb) surf.width
        surf.height surf.scale elapsedNs :: (sprite.2 ++ klBufferFlush b) ∧
      (klSurfaceRenderFrameCommit draw.1 ws i o).2 = frameCommit surf ws wb o := by
  subst hd hs
  let t1 := klGetTimeNs o.clock
  let t0 := surf.startTime t1
  refine ⟨t0, t1, t1 - t0, ?_, ?_, ?_⟩
  · rw [klSurfaceRenderFrameDraw_eq]
    cases hf : o.frame with
    | none => simp only [klSurfaceRenderFrameCommit, FrameOutcomes.callback, hf, ite_self]; rfl
    | some cb =>
      cases hl : o.addListener <;>
        simp only [klSurfaceRenderFrameCommit, FrameOutcomes.callback, hf, hl] <;> rfl
  · simp only [klSurfaceRenderFrameDraw, setBuffer_self, hwb, List.append_assoc]
    rfl
  · rw [klSurfaceRenderFrameDraw_eq]
    cases hf : o.frame with
    | none => simp [klSurfaceRenderFrameCommit, frameCommit, frameListen, hf, hwb]
    | some cb =>
      cases hl : o.addListener <;>
        simp [klSurfaceRenderFrameCommit, frameCommit, frameListen, hf, hl, hwb]

theorem KlSurface.WellFormed.setCurrent {surf : KlSurface} (h : surf.WellFormed) (i : Slot) :
    (surf.setCurrent i).WellFormed :=
  ⟨h.pending, h.configured, h.role, h.callback, h.idle, i.isLt, h.output⟩

/-- A call of `kl_surface_render_frame` gets past its checks. -/
structure KlSurface.Entered (surf : KlSurface) : Prop where
  configured : surf.configured = true
  pending : surf.framePending = false
  wlSurface : surf.wlSurface.isSome = true
  width : surf.width ≠ 0
  height : surf.height ≠ 0

instance (surf : KlSurface) : Decidable surf.Entered :=
  decidable_of_iff (surf.configured = true ∧ surf.framePending = false ∧
      surf.wlSurface.isSome = true ∧ surf.width ≠ 0 ∧ surf.height ≠ 0)
    ⟨fun ⟨h1, h2, h3, h4, h5⟩ => ⟨h1, h2, h3, h4, h5⟩, fun ⟨h1, h2, h3, h4, h5⟩ =>
      ⟨h1, h2, h3, h4, h5⟩⟩

/-- Where a call of `kl_surface_render_frame` ends, in its own terms. -/
inductive FrameCase (refs : CtxRefs) (surf : KlSurface) (o : FrameOutcomes) :
    KlSurface → List Call → Prop
  | skipped (h : ¬surf.Entered) : FrameCase refs surf o surf [.klSurfaceRenderFrame surf.addr]
  | noBuffer (h : surf.Entered) (hi : (klSurfaceGetFreeBuffer surf).2 = none)
      (hbusy : ∀ i, (surf.buffers i).busy = true) :
      FrameCase refs surf o surf.setDirty (frameEntry surf none)
  | createFailed (h : surf.Entered) (i : Slot) (hi : (klSurfaceGetFreeBuffer surf).2 = some i)
      (hfree : (surf.buffers i).busy = false) (buf : Bool × KlSurface × List Call)
      (hbuf : klSurfaceRenderFrameBuffer refs (surf.setCurrent i) i o = buf) (hr : buf.1 = false) :
      FrameCase refs surf o buf.2.1 (frameEntry surf (some i) ++ buf.2.2)
  | drawn (h : surf.Entered) (ws : Proxy) (hws : surf.wlSurface = some ws) (i : Slot)
      (hi : (klSurfaceGetFreeBuffer surf).2 = some i) (hfree : (surf.buffers i).busy = false)
      (buf : Bool × KlSurface × List Call)
      (hbuf : klSurfaceRenderFrameBuffer refs (surf.setCurrent i) i o = buf) (hr : buf.1 = true)
      (draw : KlSurface × List Call) (hdraw : klSurfaceRenderFrameDraw buf.2.1 i o = draw) :
      FrameCase refs surf o (klSurfaceRenderFrameCommit draw.1 ws i o).1
        (frameEntry surf (some i) ++ buf.2.2 ++ draw.2 ++
          (klSurfaceRenderFrameCommit draw.1 ws i o).2)

theorem klSurfaceRenderFrame_case (refs : CtxRefs) (surf : KlSurface) (o : FrameOutcomes) :
    FrameCase refs surf o (klSurfaceRenderFrame refs surf o).1
      (klSurfaceRenderFrame refs surf o).2 := by
  by_cases hskip : surf.configured = false ∨ surf.framePending
  · simp only [klSurfaceRenderFrame, if_pos hskip]
    exact .skipped fun h => by simp [h.configured, h.pending] at hskip
  · cases hws : surf.wlSurface with
    | none =>
      simp only [klSurfaceRenderFrame, if_neg hskip, hws]
      exact .skipped fun h => by simpa [hws] using h.wlSurface
    | some ws =>
      by_cases hz : surf.width = 0 ∨ surf.height = 0
      · simp only [klSurfaceRenderFrame, if_neg hskip, hws, if_pos hz]
        exact .skipped fun h => hz.elim h.width h.height
      · have hentered : surf.Entered := by
          obtain ⟨hw, hh⟩ := not_or.mp hz
          exact ⟨by simpa using fun h => hskip (Or.inl h), by simpa using fun h => hskip (Or.inr h),
            by rw [hws]; rfl, hw, hh⟩
        rcases klSurfaceGetFreeBuffer_cases surf with ⟨i, hi, hfree⟩ | ⟨hi, hbusy⟩
        · by_cases hr : (klSurfaceRenderFrameBuffer refs (surf.setCurrent i) i o).1 = false
          · simp only [klSurfaceRenderFrame, if_neg hskip, hws, if_neg hz, hi, if_pos hr]
            exact .createFailed hentered i (by rw [hi]) hfree _ rfl hr
          · simp only [klSurfaceRenderFrame, if_neg hskip, hws, if_neg hz, hi, if_neg hr]
            exact .drawn hentered ws hws i (by rw [hi]) hfree _ rfl (by simpa using hr) _ rfl
        · simp only [klSurfaceRenderFrame, if_neg hskip, hws, if_neg hz, hi]
          exact .noBuffer hentered (by rw [hi]) hbusy

/-- **One frame.** -/
theorem klSurfaceRenderFrame_step (refs : CtxRefs) {surf : KlSurface} (hwf : surf.WellFormed)
    (o : FrameOutcomes) :
    FrameStep refs surf o (klSurfaceRenderFrame refs surf o).1
      (klSurfaceRenderFrame refs surf o).2 := by
  have hcase := klSurfaceRenderFrame_case refs surf o
  generalize (klSurfaceRenderFrame refs surf o).1 = surf' at hcase ⊢
  generalize (klSurfaceRenderFrame refs surf o).2 = cs at hcase ⊢
  cases hcase with
  | skipped h =>
    refine .skipped ?_
    by_contra hno
    simp only [not_or, ← ne_eq, Bool.not_eq_false, Bool.not_eq_true] at hno
    obtain ⟨hc, hp, hws, hw, hh⟩ := hno
    exact h ⟨hc, hp, Option.isSome_iff_ne_none.mpr hws, hw, hh⟩
  | noBuffer h hi hbusy => exact .noBuffer h.configured h.pending hbusy
  | createFailed h i hi hfree buf hbuf hr =>
    obtain ⟨b, hb, hcalls, -, hblank⟩ :=
      klSurfaceRenderFrameBuffer_spec refs (hwf.setCurrent i) (i := i) hfree o
    rw [hbuf] at hb hcalls hblank
    rw [hb]
    exact .createFailed h.configured h.pending i hfree b (hblank hr).1 _ hcalls.of_setCurrent
      (hblank hr).2
  | drawn h ws hws i hi hfree buf hbuf hr draw hdraw =>
    obtain ⟨b, hb, hcalls, hfits, -⟩ :=
      klSurfaceRenderFrameBuffer_spec refs (hwf.setCurrent i) (i := i) hfree o
    rw [hbuf] at hb hcalls hfits
    obtain ⟨wb, hwb⟩ := hfits hr
    rw [hb] at hdraw
    obtain ⟨t0, t1, el, hs, hd, hcommit⟩ :=
      klSurfaceRenderFrameCommit_eq surf ws i b hwb.wlBuffer o draw hdraw _ rfl
    rw [hs, hd, hcommit]
    have hstep := FrameStep.committed (o := o) h.configured h.pending ws hws h.width h.height i
      hfree b wb hwb buf.2.2 _ _ hcalls.of_setCurrent (klBufferPrepare_inert b)
      ((klRenderEngineDraw_inert surf.engine b.cr surf.width surf.height surf.scale o.bake).append
        (klBufferFlush_inert b)) (klRenderEngineDraw surf.engine b.cr surf.width surf.height
          surf.scale o.bake).1 t0 t1 el
    simpa only [List.append_assoc, List.cons_append] using hstep

end Kirilock
