import Kirilock.LockLive
import Kirilock.SurfaceRun

/-!
What a detached surface does, against one that was just created.

`kl_surface_detach_lock` does not restore what `calloc` left: buffers that were destroyed
have scale 1 and not 0, the engine keeps its sprite, and the surface is at another address.
None of this is seen from the outside.  `SurfaceAlike` says what is: two surfaces that are
alike stay alike whatever happens to both, and make the same requests.

* `BufferAlike`, `SurfaceAlike`: what later requests depend on.
* `KlSurface.handle_alike`: every event.
* `surfaceMachine_events`: what happens to a surface in a run is a list of events.
* `detach_anew`: a detached surface and a new one, for any list of events.
-/

namespace Kirilock

open Runs Ownership

/-! ## Requests -/

/-- A call of a surface that asks something of a Wayland proxy. -/
def Call.asks : Call → Bool
  | .extSessionLockV1GetLockSurface .. => true
  | .extSessionLockSurfaceV1AckConfigure .. => true
  | .extSessionLockSurfaceV1Destroy _ => true
  | .wlCompositorCreateSurface .. => true
  | .wlSurfaceDestroy _ => true
  | .wlSurfaceSetBufferScale .. => true
  | .wlSurfaceAttach .. => true
  | .wlSurfaceDamage .. => true
  | .wlSurfaceFrame .. => true
  | .wlSurfaceCommit _ => true
  | .wlCallbackDestroy _ => true
  | .wlShmCreatePool .. => true
  | .wlShmPoolCreateBuffer .. => true
  | .wlShmPoolDestroy _ => true
  | .wlBufferDestroy _ => true
  | _ => false

/-- The requests among calls, in their order and with what came back. -/
def asked (cs : List Call) : List Call := cs.filter Call.asks

@[simp] theorem asked_append (cs ds : List Call) : asked (cs ++ ds) = asked cs ++ asked ds :=
  List.filter_append ..

theorem asked_cons (c : Call) (cs : List Call) :
    asked (c :: cs) = if c.asks then c :: asked cs else asked cs :=
  List.filter_cons

theorem asked_of_inert {cs : List Call} (h : Inert cs) : asked cs = [] := by
  refine List.filter_eq_nil_iff.mpr fun c hc => ?_
  have hi := List.all_eq_true.mp h c hc
  cases c <;> first
    | exact absurd hi Bool.false_ne_true
    | exact Bool.false_ne_true

/-! ## Buffers -/

/-- Buffers of the surfaces `a` and `a'` that are alike: a size counts where there is a
`wl_buffer` of it, and the user data is the own surface. -/
structure BufferAlike (a a' : SurfaceRef) (b b' : KlBuffer) : Prop where
  wlBuffer : b.wlBuffer = b'.wlBuffer
  size : b.wlBuffer ≠ none → b.width = b'.width ∧ b.height = b'.height ∧ b.scale = b'.scale
  busy : b.busy = b'.busy
  onRelease : b.onRelease = b'.onRelease
  userData : (b.userData = some a ∧ b'.userData = some a') ∨
    (b.userData = none ∧ b'.userData = none)

/-- Two results of a creation. -/
structure CreatedAlike (a a' : SurfaceRef) (r r' : Bool × KlBuffer × List Call) : Prop where
  ok : r.1 = r'.1
  buffer : BufferAlike a a' r.2.1 r'.2.1
  asked : asked r.2.2 = asked r'.2.2

section Buffers

variable {a a' : SurfaceRef} {b b' : KlBuffer}

theorem klBufferDestroy_asked (self : BufferRef) (buf : KlBuffer) :
    asked (klBufferDestroy self buf).2 = buf.wlBuffer.toList.map .wlBufferDestroy := by
  unfold klBufferDestroy
  cases buf.cr <;> cases buf.cairoSurface <;> cases buf.wlBuffer <;> cases buf.data <;> rfl

/-- Destroyed buffers are alike, whatever they were. -/
theorem klBufferDestroy_alike (self self' : BufferRef) (buf buf' : KlBuffer) :
    BufferAlike a a' (klBufferDestroy self buf).1 (klBufferDestroy self' buf').1 :=
  ⟨rfl, fun h => absurd rfl h, rfl, rfl, Or.inr ⟨rfl, rfl⟩⟩

theorem CreatedAlike.refused (h : BufferAlike a a' b b') (cs : List Call) :
    CreatedAlike a a' (false, b, cs) (false, b', cs) :=
  ⟨rfl, h, rfl⟩

/-- Requests before and after. -/
theorem CreatedAlike.around {r r' : Bool × KlBuffer × List Call} (h : CreatedAlike a a' r r')
    (pre : List Call) :
    CreatedAlike a a' (r.1, r.2.1, pre ++ r.2.2) (r'.1, r'.2.1, pre ++ r'.2.2) :=
  ⟨h.ok, h.buffer, by rw [asked_append, asked_append, h.asked]⟩

/-- A buffer whose `wl_buffer` is gone again. -/
theorem BufferAlike.gone (h : BufferAlike a a' b b') (cr cr' cs cs' : Option CairoRef) :
    BufferAlike a a' { b with wlBuffer := none, cairoSurface := cs, cr := cr }
      { b' with wlBuffer := none, cairoSurface := cs', cr := cr' } :=
  ⟨rfl, fun h => absurd rfl h, h.busy, h.onRelease, h.userData⟩

theorem klBufferCreateObjects_alike (h : BufferAlike a a' b b') (self self' : BufferRef)
    (width height : UInt32) (scale : Int32) (onRelease : Option ReleaseCb) (pool : Proxy)
    (data : Mapping) (size : UInt64) (physWidth physHeight stride : UInt32) (o : BufferOutcomes) :
    CreatedAlike a a'
      (klBufferCreateObjects self b width height scale onRelease (some a) pool data size physWidth
        physHeight stride o)
      (klBufferCreateObjects self' b' width height scale onRelease (some a') pool data size
        physWidth physHeight stride o) := by
  cases hw : o.wlBuffer with
  | none =>
    simp only [klBufferCreateObjects, hw]
    exact .refused (h.gone _ _ _ _) _
  | some wb =>
    by_cases hs : o.cairoSurfaceOk = false
    · simp only [klBufferCreateObjects, hw, if_pos hs]
      exact .refused (h.gone _ _ _ _) _
    · by_cases hc : o.crOk = false
      · simp only [klBufferCreateObjects, hw, if_neg hs, if_pos hc]
        exact .refused (h.gone _ _ _ _) _
      · by_cases hl : o.addListener = false
        · simp only [klBufferCreateObjects, hw, if_neg hs, if_neg hc, if_pos hl]
          refine ⟨rfl, ?_, ?_⟩
          · dsimp only
            exact klBufferDestroy_alike self self' _ _
          · simp only [asked_append, klBufferDestroy_asked]
            rfl
        · simp only [klBufferCreateObjects, hw, if_neg hs, if_neg hc, if_neg hl]
          exact ⟨rfl, ⟨rfl, fun _ => ⟨rfl, rfl, rfl⟩, rfl, rfl, Or.inl ⟨rfl, rfl⟩⟩, rfl⟩

theorem klBufferCreatePool_alike (h : BufferAlike a a' b b') (shm : Proxy)
    (self self' : BufferRef) (width height : UInt32) (scale : Int32)
    (onRelease : Option ReleaseCb) (fd : Fd) (data : Mapping) (size : UInt64)
    (physWidth physHeight stride : UInt32) (o : BufferOutcomes) :
    CreatedAlike a a'
      (klBufferCreatePool shm self b width height scale onRelease (some a) fd data size physWidth
        physHeight stride o)
      (klBufferCreatePool shm self' b' width height scale onRelease (some a') fd data size
        physWidth physHeight stride o) := by
  unfold klBufferCreatePool
  cases o.pool with
  | none => exact .refused h _
  | some pool =>
    exact (klBufferCreateObjects_alike h self self' width height scale onRelease pool data size
      physWidth physHeight stride o).around _

theorem klBufferCreateFile_alike (h : BufferAlike a a' b b') (shm : Proxy)
    (self self' : BufferRef) (width height : UInt32) (scale : Int32)
    (onRelease : Option ReleaseCb) (size : UInt64) (physWidth physHeight stride : UInt32)
    (o : BufferOutcomes) :
    CreatedAlike a a'
      (klBufferCreateFile shm self b width height scale onRelease (some a) size physWidth
        physHeight stride o)
      (klBufferCreateFile shm self' b' width height scale onRelease (some a') size physWidth
        physHeight stride o) := by
  unfold klBufferCreateFile
  generalize klBufferAllocateShmFile size o = file
  cases hf : file.1 with
  | none => simpa only [hf] using CreatedAlike.refused h file.2
  | some fd =>
    cases hm : o.mmap with
    | none => simpa only [hf, hm] using CreatedAlike.refused h _
    | some data =>
      simpa only [hf, hm] using (klBufferCreatePool_alike h shm self self' width height scale
        onRelease fd data size physWidth physHeight stride o).around _

theorem klBufferCreateBody_alike (h : BufferAlike a a' b b') (shm : Option Proxy)
    (self self' : BufferRef) (width height : UInt32) (scale : Int32)
    (onRelease : Option ReleaseCb) (o : BufferOutcomes) :
    CreatedAlike a a'
      (klBufferCreateBody shm self b width height scale onRelease (some a) o)
      (klBufferCreateBody shm self' b' width height scale onRelease (some a') o) := by
  unfold klBufferCreateBody
  cases shm with
  | none => exact .refused h _
  | some shm =>
    by_cases hz : width = 0 ∨ height = 0 ∨ scale ≤ 0
    · simp only [if_pos hz]
      exact .refused h _
    · by_cases hs : o.stride ≤ 0
      · simp only [if_neg hz, if_pos hs]
        exact .refused h _
      · by_cases hm : (height * scale.toUInt32).toUInt64 > sizeMax / o.stride.toUInt32.toUInt64
        · simp only [if_neg hz, if_neg hs, if_pos hm]
          exact .refused h _
        · simp only [if_neg hz, if_neg hs, if_neg hm]
          exact (klBufferCreateFile_alike h shm self self' width height scale onRelease _ _ _ _
            o).around _

/-- **A creation**, on whatever buffer of whatever surface. -/
theorem klBufferCreate_alike (h : BufferAlike a a' b b') (shm : Option Proxy)
    (self self' : BufferRef) (width height : UInt32) (scale : Int32)
    (onRelease : Option ReleaseCb) (o : BufferOutcomes) :
    CreatedAlike a a'
      (klBufferCreate shm self b width height scale onRelease (some a) o)
      (klBufferCreate shm self' b' width height scale onRelease (some a') o) := by
  obtain ⟨hok, hbuffer, hasked⟩ := klBufferCreateBody_alike h shm self self' width height scale
    onRelease o
  refine ⟨hok, hbuffer, ?_⟩
  simp only [klBufferCreate, asked_append, hasked]
  rfl

/-- The callback to run, with its user data. -/
theorem klBufferHandleRelease_snd (buf : KlBuffer) :
    (klBufferHandleRelease buf).2 = buf.onRelease.map fun cb => (cb, buf.userData) := by
  unfold klBufferHandleRelease
  cases buf.onRelease <;> rfl

theorem klBufferHandleRelease_alike (h : BufferAlike a a' b b') :
    BufferAlike a a' (klBufferHandleRelease b).1 (klBufferHandleRelease b').1 := by
  rw [klBufferHandleRelease_fst, klBufferHandleRelease_fst]
  exact ⟨h.wlBuffer, h.size, rfl, h.onRelease, h.userData⟩

end Buffers

/-! ## Surfaces -/

/-- Surfaces that are alike: everything is the same but the address, the name, the engine, the
times, and what their buffers may differ in. -/
structure SurfaceAlike (s t : KlSurface) : Prop where
  wlOutput : s.wlOutput = t.wlOutput
  wlSurface : s.wlSurface = t.wlSurface
  extLockSurface : s.extLockSurface = t.extLockSurface
  frameCallback : s.frameCallback = t.frameCallback
  buffers : ∀ i, BufferAlike s.addr t.addr (s.buffers i) (t.buffers i)
  currentBuffer : s.currentBuffer = t.currentBuffer
  width : s.width = t.width
  height : s.height = t.height
  scale : s.scale = t.scale
  configured : s.configured = t.configured
  framePending : s.framePending = t.framePending
  dirty : s.dirty = t.dirty

/-- The same requests were made, and the surfaces are still alike. -/
structure MovedAlike (r r' : KlSurface × List Call) : Prop where
  surf : SurfaceAlike r.1 r'.1
  asked : asked r.2 = asked r'.2

section Surfaces

variable {s t : KlSurface}

theorem SurfaceAlike.setBuffer (h : SurfaceAlike s t) (i : Slot) {b b' : KlBuffer}
    (hb : BufferAlike s.addr t.addr b b') : SurfaceAlike (s.setBuffer i b) (t.setBuffer i b') := by
  refine ⟨h.wlOutput, h.wlSurface, h.extLockSurface, h.frameCallback, fun j => ?_,
    h.currentBuffer, h.width, h.height, h.scale, h.configured, h.framePending, h.dirty⟩
  by_cases hj : j = i
  · subst hj
    rw [setBuffer_self, setBuffer_self]
    exact hb
  · rw [setBuffer_of_ne _ _ hj, setBuffer_of_ne _ _ hj]
    exact h.buffers j

theorem SurfaceAlike.setCurrent (h : SurfaceAlike s t) (i : Slot) :
    SurfaceAlike (s.setCurrent i) (t.setCurrent i) :=
  ⟨h.wlOutput, h.wlSurface, h.extLockSurface, h.frameCallback, h.buffers, rfl, h.width, h.height,
    h.scale, h.configured, h.framePending, h.dirty⟩

theorem SurfaceAlike.setDirty (h : SurfaceAlike s t) : SurfaceAlike s.setDirty t.setDirty :=
  ⟨h.wlOutput, h.wlSurface, h.extLockSurface, h.frameCallback, h.buffers, h.currentBuffer, h.width,
    h.height, h.scale, h.configured, h.framePending, rfl⟩

theorem SurfaceAlike.setFrame (h : SurfaceAlike s t) (cb : Option Proxy) (pending : Bool) :
    SurfaceAlike { s with frameCallback := cb, framePending := pending }
      { t with frameCallback := cb, framePending := pending } :=
  ⟨h.wlOutput, h.wlSurface, h.extLockSurface, rfl, h.buffers, h.currentBuffer, h.width, h.height,
    h.scale, h.configured, rfl, h.dirty⟩

theorem SurfaceAlike.clean (h : SurfaceAlike s t) :
    SurfaceAlike { s with dirty := false } { t with dirty := false } :=
  ⟨h.wlOutput, h.wlSurface, h.extLockSurface, h.frameCallback, h.buffers, h.currentBuffer, h.width,
    h.height, h.scale, h.configured, h.framePending, rfl⟩

/-! ### One frame -/

theorem klSurfaceGetFreeBufferFrom_alike (h : SurfaceAlike s t) (n : Nat) :
    ∀ i, klSurfaceGetFreeBufferFrom s i n = klSurfaceGetFreeBufferFrom t i n := by
  have hslot : ∀ i, s.slotAfter i = t.slotAfter i := by
    intro i
    unfold KlSurface.slotAfter
    simp only [h.currentBuffer]
  induction n with
  | zero => exact fun _ => rfl
  | succ n ih =>
    intro i
    simp only [klSurfaceGetFreeBufferFrom, hslot, (h.buffers _).busy, ih]

theorem klSurfaceGetFreeBuffer_alike (h : SurfaceAlike s t) :
    (klSurfaceGetFreeBuffer s).2 = (klSurfaceGetFreeBuffer t).2 ∧
      SurfaceAlike (klSurfaceGetFreeBuffer s).1 (klSurfaceGetFreeBuffer t).1 := by
  unfold klSurfaceGetFreeBuffer
  rw [klSurfaceGetFreeBufferFrom_alike h]
  cases klSurfaceGetFreeBufferFrom t 0 klSurfaceBufferCount with
  | none => exact ⟨rfl, h⟩
  | some i => exact ⟨rfl, h.setCurrent i⟩

/-- The sizes are compared only where there is a `wl_buffer`. -/
theorem klSurfaceRenderFrameBuffer_alike (h : SurfaceAlike s t) (refs : CtxRefs) (i : Slot)
    (o : FrameOutcomes) :
    (klSurfaceRenderFrameBuffer refs s i o).1 = (klSurfaceRenderFrameBuffer refs t i o).1 ∧
      MovedAlike (klSurfaceRenderFrameBuffer refs s i o).2
        (klSurfaceRenderFrameBuffer refs t i o).2 := by
  obtain ⟨hwb, hsize, -⟩ := h.buffers i
  have hfits : ((s.buffers i).width ≠ s.width ∨ (s.buffers i).height ≠ s.height ∨
      (s.buffers i).scale ≠ s.scale ∨ (s.buffers i).wlBuffer = none) ↔
      ((t.buffers i).width ≠ t.width ∨ (t.buffers i).height ≠ t.height ∨
        (t.buffers i).scale ≠ t.scale ∨ (t.buffers i).wlBuffer = none) := by
    by_cases hnone : (s.buffers i).wlBuffer = none
    · exact iff_of_true (Or.inr (Or.inr (Or.inr hnone)))
        (Or.inr (Or.inr (Or.inr (hwb ▸ hnone))))
    · obtain ⟨hw, hh, hs⟩ := hsize hnone
      rw [hw, hh, hs, hwb, h.width, h.height, h.scale]
  unfold klSurfaceRenderFrameBuffer
  dsimp only
  by_cases hfit : (s.buffers i).width ≠ s.width ∨ (s.buffers i).height ≠ s.height ∨
      (s.buffers i).scale ≠ s.scale ∨ (s.buffers i).wlBuffer = none
  · rw [if_pos hfit, if_pos (hfits.mp hfit), h.width, h.height, h.scale]
    obtain ⟨hok, hbuffer, hasked⟩ := klBufferCreate_alike
      (klBufferDestroy_alike (s.ref i) (t.ref i) (s.buffers i) (t.buffers i)) refs.shm (s.ref i)
      (t.ref i) t.width t.height t.scale (some .klSurfaceOnBufferRelease) o.buffer
    refine ⟨hok, h.setBuffer i hbuffer, ?_⟩
    rw [asked_append, asked_append, klBufferDestroy_asked, klBufferDestroy_asked, hwb, hasked]
  · rw [if_neg hfit, if_neg fun hf => hfit (hfits.mpr hf)]
    exact ⟨rfl, h, rfl⟩

theorem klSurfaceRenderFrameDraw_asked (surf : KlSurface) (i : Slot) (o : FrameOutcomes) :
    asked (klSurfaceRenderFrameDraw surf i o).2 = [] := by
  have hprepare := asked_of_inert (klBufferPrepare_inert (surf.buffers i))
  have hflush := asked_of_inert (klBufferFlush_inert (surf.buffers i))
  have hdraw := asked_of_inert (klRenderEngineDraw_inert surf.engine (surf.buffers i).cr surf.width
    surf.height surf.scale o.bake)
  simp only [klSurfaceRenderFrameDraw, asked_append, asked_cons, hprepare, hdraw, hflush]
  rfl

/-- What is drawn, with whatever sprite and for whatever time, is no request. -/
theorem klSurfaceRenderFrameDraw_alike (h : SurfaceAlike s t) (i : Slot) (o : FrameOutcomes) :
    MovedAlike (klSurfaceRenderFrameDraw s i o) (klSurfaceRenderFrameDraw t i o) := by
  refine ⟨?_, ?_⟩
  · obtain ⟨hwb, hsize, -, hcb, hdata⟩ := h.buffers i
    have hbusy : BufferAlike s.addr t.addr { s.buffers i with busy := true }
        { t.buffers i with busy := true } := ⟨hwb, hsize, rfl, hcb, hdata⟩
    have hdrawn := h.setBuffer i hbusy
    exact ⟨hdrawn.wlOutput, hdrawn.wlSurface, hdrawn.extLockSurface, hdrawn.frameCallback,
      hdrawn.buffers, hdrawn.currentBuffer, hdrawn.width, hdrawn.height, hdrawn.scale,
      hdrawn.configured, hdrawn.framePending, hdrawn.dirty⟩
  · rw [klSurfaceRenderFrameDraw_asked, klSurfaceRenderFrameDraw_asked]

theorem klSurfaceRenderFrameCommit_alike (h : SurfaceAlike s t) (ws : Proxy) (i : Slot)
    (o : FrameOutcomes) :
    MovedAlike (klSurfaceRenderFrameCommit s ws i o) (klSurfaceRenderFrameCommit t ws i o) := by
  have hreq : ∀ ret,
      [Call.wlSurfaceSetBufferScale ws s.scale, .wlSurfaceAttach ws (s.buffers i).wlBuffer,
        .wlSurfaceDamage ws s.width.toInt32 s.height.toInt32, .wlSurfaceFrame ws ret] =
      [Call.wlSurfaceSetBufferScale ws t.scale, .wlSurfaceAttach ws (t.buffers i).wlBuffer,
        .wlSurfaceDamage ws t.width.toInt32 t.height.toInt32, .wlSurfaceFrame ws ret] := by
    intro ret
    rw [h.scale, h.width, h.height, (h.buffers i).wlBuffer]
  unfold klSurfaceRenderFrameCommit
  cases o.frame with
  | none =>
    refine ⟨h.setFrame none false, ?_⟩
    simp only [asked_append, hreq]
  | some cb =>
    cases o.addListener with
    | false =>
      refine ⟨h.setFrame none false, ?_⟩
      simp only [hreq]
      rfl
    | true =>
      refine ⟨(h.setFrame (some cb) true).clean, ?_⟩
      simp only [hreq]
      rfl

/-- **One frame** of surfaces that are alike. -/
theorem klSurfaceRenderFrame_alike (h : SurfaceAlike s t) (refs : CtxRefs) (o : FrameOutcomes) :
    MovedAlike (klSurfaceRenderFrame refs s o) (klSurfaceRenderFrame refs t o) := by
  unfold klSurfaceRenderFrame
  dsimp only
  rw [h.configured, h.framePending, h.wlSurface, h.width, h.height]
  by_cases hskip : t.configured = false ∨ t.framePending = true
  · rw [if_pos hskip, if_pos hskip]
    exact ⟨h, rfl⟩
  · rw [if_neg hskip, if_neg hskip]
    cases t.wlSurface with
    | none => exact ⟨h, rfl⟩
    | some ws =>
      by_cases hz : t.width = 0 ∨ t.height = 0
      · simp only [if_pos hz]
        exact ⟨h, rfl⟩
      · simp only [if_neg hz]
        obtain ⟨hfree, hcur⟩ := klSurfaceGetFreeBuffer_alike h
        rw [hfree]
        cases (klSurfaceGetFreeBuffer t).2 with
        | none => exact ⟨hcur.setDirty, rfl⟩
        | some i =>
          obtain ⟨hok, hbuf⟩ := klSurfaceRenderFrameBuffer_alike hcur refs i o
          dsimp only
          rw [hok]
          by_cases hr : (klSurfaceRenderFrameBuffer refs (klSurfaceGetFreeBuffer t).1 i o).1 = false
          · rw [if_pos hr, if_pos hr]
            refine ⟨hbuf.surf, ?_⟩
            simp only [asked_append, hbuf.asked]
            rfl
          · rw [if_neg hr, if_neg hr]
            have hdraw := klSurfaceRenderFrameDraw_alike hbuf.surf i o
            have hcommit := klSurfaceRenderFrameCommit_alike hdraw.surf ws i o
            refine ⟨hcommit.surf, ?_⟩
            simp only [asked_append, hbuf.asked, hdraw.asked, hcommit.asked]
            rfl

theorem klSurfaceRequestRender_alike (h : SurfaceAlike s t) (refs : CtxRefs) (o : FrameOutcomes) :
    MovedAlike (klSurfaceRequestRender refs s o) (klSurfaceRequestRender refs t o) := by
  unfold klSurfaceRequestRender
  dsimp only
  rw [show s.setDirty.framePending = t.setDirty.framePending from h.framePending,
    show s.setDirty.configured = t.setDirty.configured from h.configured]
  by_cases hr : t.setDirty.framePending = false ∧ t.setDirty.configured = true
  · rw [if_pos hr, if_pos hr]
    exact klSurfaceRenderFrame_alike h.setDirty refs o
  · rw [if_neg hr, if_neg hr]
    exact ⟨h.setDirty, rfl⟩

/-! ### Handlers -/

theorem klOutputHandleScale_alike (h : SurfaceAlike s t) (refs : CtxRefs) (factor : Int32)
    (o : FrameOutcomes) :
    MovedAlike (klOutputHandleScale refs s factor o) (klOutputHandleScale refs t factor o) := by
  unfold klOutputHandleScale
  rw [h.scale]
  by_cases hf : 0 < factor ∧ t.scale ≠ factor
  · rw [if_pos hf, if_pos hf]
    refine klSurfaceRequestRender_alike (SurfaceAlike.setDirty ?_) refs o
    exact ⟨h.wlOutput, h.wlSurface, h.extLockSurface, h.frameCallback, h.buffers, h.currentBuffer,
      h.width, h.height, rfl, h.configured, h.framePending, h.dirty⟩
  · rw [if_neg hf, if_neg hf]
    exact ⟨h, rfl⟩

theorem klSurfaceFrameHandleDone_alike (h : SurfaceAlike s t) (refs : CtxRefs) (callback : Proxy)
    (o : FrameOutcomes) :
    MovedAlike (klSurfaceFrameHandleDone refs s callback o)
      (klSurfaceFrameHandleDone refs t callback o) := by
  obtain ⟨hsurf, hasked⟩ := klSurfaceRenderFrame_alike (h.setFrame none false) refs o
  refine ⟨hsurf, ?_⟩
  simp only [klSurfaceFrameHandleDone, asked_cons, hasked]

theorem klSurfaceOnBufferRelease_alike (h : SurfaceAlike s t) (refs : CtxRefs)
    (o : FrameOutcomes) :
    MovedAlike (klSurfaceOnBufferRelease refs s o) (klSurfaceOnBufferRelease refs t o) := by
  unfold klSurfaceOnBufferRelease
  rw [h.dirty, h.framePending, h.configured]
  by_cases hr : t.dirty = true ∧ t.framePending = false ∧ t.configured = true
  · rw [if_pos hr, if_pos hr]
    exact klSurfaceRenderFrame_alike h refs o
  · rw [if_neg hr, if_neg hr]
    exact ⟨h, rfl⟩

/-- The callback of either buffer has its own surface as user data, or there is none. -/
theorem klSurfaceBufferRelease_alike (h : SurfaceAlike s t) (refs : CtxRefs) (i : Slot)
    (o : FrameOutcomes) :
    MovedAlike (klSurfaceBufferRelease refs s i o) (klSurfaceBufferRelease refs t i o) := by
  have hset := h.setBuffer i (klBufferHandleRelease_alike (h.buffers i))
  obtain ⟨-, -, -, hcb, hdata⟩ := h.buffers i
  unfold klSurfaceBufferRelease
  dsimp only
  rw [klBufferHandleRelease_snd, klBufferHandleRelease_snd, hcb]
  cases (t.buffers i).onRelease with
  | none => exact ⟨hset, rfl⟩
  | some cb =>
    cases cb
    rcases hdata with ⟨hs, ht⟩ | ⟨hs, ht⟩
    · have hown : ∀ surf : KlSurface, ∀ b, (surf.setBuffer i b).addr = surf.addr := fun _ _ => rfl
      simp only [hs, ht, Option.map_some, hown, if_true]
      obtain ⟨hsurf, hasked⟩ := klSurfaceOnBufferRelease_alike hset refs o
      exact ⟨hsurf, hasked⟩
    · rw [hs, ht]
      exact ⟨hset, rfl⟩

theorem klLockSurfaceHandleConfigure_alike (h : SurfaceAlike s t) (refs : CtxRefs)
    (extSurface : Proxy) (serial width height : UInt32) (o : FrameOutcomes) :
    MovedAlike (klLockSurfaceHandleConfigure refs s extSurface serial width height o)
      (klLockSurfaceHandleConfigure refs t extSurface serial width height o) := by
  have hsized : SurfaceAlike { s with width := width, height := height, configured := true }
      { t with width := width, height := height, configured := true } :=
    ⟨h.wlOutput, h.wlSurface, h.extLockSurface, h.frameCallback, h.buffers, h.currentBuffer, rfl,
      rfl, h.scale, rfl, h.framePending, h.dirty⟩
  obtain ⟨hsurf, hasked⟩ := klSurfaceRequestRender_alike hsized refs o
  refine ⟨hsurf, ?_⟩
  simp only [klLockSurfaceHandleConfigure, asked_cons, hasked]

/-! ### Attachment and detachment -/

theorem SurfaceAlike.setRole (h : SurfaceAlike s t) (output ws ls : Option Proxy) :
    SurfaceAlike { s with wlOutput := output, wlSurface := ws, extLockSurface := ls }
      { t with wlOutput := output, wlSurface := ws, extLockSurface := ls } :=
  ⟨rfl, rfl, rfl, h.frameCallback, h.buffers, h.currentBuffer, h.width, h.height, h.scale,
    h.configured, h.framePending, h.dirty⟩

theorem klSurfaceAttachLock_alike (h : SurfaceAlike s t) (refs : CtxRefs) (o : AttachOutcomes) :
    MovedAlike (klSurfaceAttachLock refs s o).2 (klSurfaceAttachLock refs t o).2 := by
  have hbody : MovedAlike (klSurfaceAttachLockBody refs s o).2
      (klSurfaceAttachLockBody refs t o).2 := by
    unfold klSurfaceAttachLockBody
    rw [h.extLockSurface, h.wlOutput]
    cases refs.lock with
    | none => exact ⟨h, rfl⟩
    | some lock =>
      cases refs.compositor with
      | none => exact ⟨h, rfl⟩
      | some compositor =>
        by_cases hl : t.extLockSurface.isSome = true
        · simp only [if_pos hl]
          exact ⟨h, rfl⟩
        · simp only [if_neg hl]
          cases o.surface with
          | none => exact ⟨h.setRole t.wlOutput none t.extLockSurface, rfl⟩
          | some ws =>
            cases t.wlOutput with
            | none => exact ⟨h.setRole none (some ws) t.extLockSurface, rfl⟩
            | some output =>
              cases o.lockSurface with
              | none => exact ⟨h.setRole (some output) none none, rfl⟩
              | some ls => exact ⟨h.setRole (some output) (some ws) (some ls), rfl⟩
  refine ⟨hbody.surf, ?_⟩
  simp only [klSurfaceAttachLock, asked_append, hbody.asked]
  rfl

theorem klSurfaceDetachBuffers_alike (is : List Slot) (h : SurfaceAlike s t) :
    MovedAlike (klSurfaceDetachBuffers s is) (klSurfaceDetachBuffers t is) := by
  induction is generalizing s t with
  | nil => exact ⟨h, rfl⟩
  | cons i is ih =>
    have hrest := ih (h.setBuffer i (klBufferDestroy_alike (s.ref i) (t.ref i) (s.buffers i)
      (t.buffers i)))
    refine ⟨hrest.surf, ?_⟩
    simp only [klSurfaceDetachBuffers, asked_append, klBufferDestroy_asked,
      (h.buffers i).wlBuffer, hrest.asked]

theorem klSurfaceDetachLock_alike (h : SurfaceAlike s t) :
    MovedAlike (klSurfaceDetachLock s) (klSurfaceDetachLock t) := by
  have hcb : SurfaceAlike { s with frameCallback := none } { t with frameCallback := none } :=
    ⟨h.wlOutput, h.wlSurface, h.extLockSurface, rfl, h.buffers, h.currentBuffer, h.width, h.height,
      h.scale, h.configured, h.framePending, h.dirty⟩
  obtain ⟨hsurf, hasked⟩ := klSurfaceDetachBuffers_alike (List.finRange klSurfaceBufferCount) hcb
  refine ⟨⟨hsurf.wlOutput, rfl, rfl, hsurf.frameCallback, hsurf.buffers, rfl, rfl, rfl, hsurf.scale,
    rfl, rfl, rfl⟩, ?_⟩
  simp only [klSurfaceDetachLock, asked_append, asked_cons, hasked, h.frameCallback,
    hsurf.extLockSurface, hsurf.wlSurface]
  rfl

end Surfaces

/-! ## Events -/

/-- What can happen to a surface, with what the outside answers. -/
inductive SurfaceEvent where
  | attach (refs : CtxRefs) (o : AttachOutcomes)
  | detach
  | scale (refs : CtxRefs) (factor : Int32) (o : FrameOutcomes)
  | configure (refs : CtxRefs) (extSurface : Proxy) (serial width height : UInt32)
      (o : FrameOutcomes)
  | done (refs : CtxRefs) (callback : Proxy) (o : FrameOutcomes)
  | release (refs : CtxRefs) (i : Slot) (o : FrameOutcomes)

def KlSurface.handle (surf : KlSurface) : SurfaceEvent → KlSurface × List Call
  | .attach refs o => (klSurfaceAttachLock refs surf o).2
  | .detach => klSurfaceDetachLock surf
  | .scale refs factor o => klOutputHandleScale refs surf factor o
  | .configure refs extSurface serial width height o =>
    klLockSurfaceHandleConfigure refs surf extSurface serial width height o
  | .done refs callback o => klSurfaceFrameHandleDone refs surf callback o
  | .release refs i o => klSurfaceBufferRelease refs surf i o

/-- One event after the other. -/
def KlSurface.handleAll (surf : KlSurface) : List SurfaceEvent → KlSurface × List Call
  | [] => (surf, [])
  | ev :: evs =>
    let r := surf.handle ev
    let rest := r.1.handleAll evs
    (rest.1, r.2 ++ rest.2)

theorem KlSurface.handleAll_append (surf : KlSurface) (evs evs' : List SurfaceEvent) :
    surf.handleAll (evs ++ evs') =
      (((surf.handleAll evs).1.handleAll evs').1,
        (surf.handleAll evs).2 ++ ((surf.handleAll evs).1.handleAll evs').2) := by
  induction evs generalizing surf with
  | nil => rfl
  | cons ev evs ih =>
    simp only [List.cons_append, KlSurface.handleAll, ih, List.append_assoc]

/-- **Every event.** -/
theorem KlSurface.handle_alike {s t : KlSurface} (h : SurfaceAlike s t) (ev : SurfaceEvent) :
    MovedAlike (s.handle ev) (t.handle ev) := by
  cases ev with
  | attach refs o => exact klSurfaceAttachLock_alike h refs o
  | detach => exact klSurfaceDetachLock_alike h
  | scale refs factor o => exact klOutputHandleScale_alike h refs factor o
  | configure refs extSurface serial width height o =>
    exact klLockSurfaceHandleConfigure_alike h refs extSurface serial width height o
  | done refs callback o => exact klSurfaceFrameHandleDone_alike h refs callback o
  | release refs i o => exact klSurfaceBufferRelease_alike h refs i o

theorem KlSurface.handleAll_alike {s t : KlSurface} (h : SurfaceAlike s t)
    (evs : List SurfaceEvent) : MovedAlike (s.handleAll evs) (t.handleAll evs) := by
  induction evs generalizing s t with
  | nil => exact ⟨h, rfl⟩
  | cons ev evs ih =>
    have hev := KlSurface.handle_alike h ev
    have hrest := ih hev.surf
    refine ⟨hrest.surf, ?_⟩
    simp only [KlSurface.handleAll, asked_append, hev.asked, hrest.asked]

/-! ### The events of a run -/

theorem klSurfaceHandle_events {refs : CtxRefs} {surf : KlSurface} {p : Proxy} {d : Listener}
    {e : ProxyEvent} {o : FrameOutcomes} {r : KlSurface × List Call}
    (h : klSurfaceHandle refs surf p d e o = some r) : ∃ evs, surf.handleAll evs = r := by
  have hone : ∀ ev, surf.handleAll [ev] = surf.handle ev := by
    intro ev
    simp only [KlSurface.handleAll, List.append_nil]
  unfold klSurfaceHandle at h
  split at h
  · split at h <;> cases h
    exact ⟨_, hone (.scale refs _ o)⟩
  · split at h <;> cases h
    exact ⟨[], rfl⟩
  · split at h <;> cases h
    exact ⟨_, hone (.configure refs p _ _ _ o)⟩
  · split at h <;> cases h
    exact ⟨_, hone (.done refs p o)⟩
  · split at h <;> cases h
    exact ⟨_, hone (.release refs _ o)⟩
  · cases h

/-- **What happens to a surface in a run** from any state is a list of events. -/
theorem surfaceMachine_events {env : List Proxy} {s s' : SurfaceState} {tr : List Item}
    (h : ((surfaceMachine env).after s).Reach s' tr) :
    ∃ evs, s.surf.handleAll evs = (s'.surf, callsOf tr) := by
  have hmove : ∀ {s s' : SurfaceState} {pre out : List Item} {r : KlSurface × List Call},
      s.move pre r = some (s', out) → callsOf pre = [] → (s'.surf, callsOf out) = r := by
    intro s s' pre out r hm hpre
    obtain ⟨-, rfl, rfl⟩ := SurfaceState.move_eq_some hm
    rw [callsOf_append, hpre, callsOf_calls]
    rfl
  have hstep : ∀ {s s' : SurfaceState} {i : SurfaceInput} {out : List Item},
      (surfaceMachine env).step s i = some (s', out) →
      ∃ evs, s.surf.handleAll evs = (s'.surf, callsOf out) := by
    intro s s' i out hs
    cases i <;> simp only [surfaceMachine, SurfaceState.step] at hs
    case attach refs o =>
      split at hs
      · refine ⟨[.attach refs o], ?_⟩
        rw [hmove hs rfl]
        simp only [KlSurface.handleAll, KlSurface.handle, List.append_nil]
      · cases hs
    case detach =>
      refine ⟨[.detach], ?_⟩
      rw [hmove hs rfl]
      simp only [KlSurface.handleAll, KlSurface.handle, List.append_nil]
    case deliver refs p e o =>
      split at hs
      · split at hs
        · split at hs
          · rename_i r hr
            obtain ⟨evs, hevs⟩ := klSurfaceHandle_events hr
            exact ⟨evs, by rw [hmove hs rfl, hevs]⟩
          · cases hs
        · cases hs
      · cases hs
  induction h with
  | init he =>
    cases he
    exact ⟨[], rfl⟩
  | step _ _ hs ih =>
    obtain ⟨evs, hevs⟩ := ih
    obtain ⟨evs', hevs'⟩ := hstep hs
    refine ⟨evs ++ evs', ?_⟩
    rw [KlSurface.handleAll_append, hevs, hevs', callsOf_append]

/-! ## A surface as if it were new -/

/-- Nothing is attached, drawn or pending. -/
structure KlSurface.Anew (surf : KlSurface) : Prop where
  wlSurface : surf.wlSurface = none
  extLockSurface : surf.extLockSurface = none
  frameCallback : surf.frameCallback = none
  blank : ∀ i, (surf.buffers i).Blank
  released : ∀ i, (surf.buffers i).onRelease = none ∧ (surf.buffers i).userData = none
  currentBuffer : surf.currentBuffer = 0
  size : surf.width = 0 ∧ surf.height = 0
  configured : surf.configured = false
  framePending : surf.framePending = false
  dirty : surf.dirty = true
  times : surf.startTimeNs = 0 ∧ surf.lastFrameTimeNs = 0

theorem KlSurface.Anew.alike {s t : KlSurface} (hs : s.Anew) (ht : t.Anew)
    (hout : s.wlOutput = t.wlOutput) (hscale : s.scale = t.scale) : SurfaceAlike s t where
  wlOutput := hout
  wlSurface := hs.wlSurface.trans ht.wlSurface.symm
  extLockSurface := hs.extLockSurface.trans ht.extLockSurface.symm
  frameCallback := hs.frameCallback.trans ht.frameCallback.symm
  buffers i :=
    { wlBuffer := (hs.blank i).wlBuffer.trans (ht.blank i).wlBuffer.symm
      size := fun h => absurd (hs.blank i).wlBuffer h
      busy := (hs.blank i).busy.trans (ht.blank i).busy.symm
      onRelease := (hs.released i).1.trans (ht.released i).1.symm
      userData := Or.inr ⟨(hs.released i).2, (ht.released i).2⟩ }
  currentBuffer := hs.currentBuffer.trans ht.currentBuffer.symm
  width := hs.size.1.trans ht.size.1.symm
  height := hs.size.2.trans ht.size.2.symm
  scale := hscale
  configured := hs.configured.trans ht.configured.symm
  framePending := hs.framePending.trans ht.framePending.symm
  dirty := hs.dirty.trans ht.dirty.symm

theorem klSurfaceCreate_anew {output : Proxy} {name : UInt32} {o : CreateOutcomes}
    {surf : KlSurface} (h : (klSurfaceCreate output name o).1 = some surf) : surf.Anew := by
  obtain ⟨addr, rfl⟩ := klSurfaceCreate_some h
  exact ⟨rfl, rfl, rfl, fun _ => ⟨rfl, rfl⟩, fun _ => ⟨rfl, rfl⟩, rfl, ⟨rfl, rfl⟩, rfl, rfl, rfl,
    ⟨rfl, rfl⟩⟩

/-- As `kl_buffer_destroy` leaves it. -/
def KlBuffer.Destroyed (buf : KlBuffer) : Prop := ∃ self old, buf = (klBufferDestroy self old).1

theorem KlBuffer.Destroyed.again {buf : KlBuffer} (h : buf.Destroyed) (self : BufferRef) :
    klBufferDestroy self buf = (buf, [.klBufferDestroy self]) := by
  obtain ⟨self', old, rfl⟩ := h
  unfold klBufferDestroy
  cases old.data <;> rfl

theorem klSurfaceDetachBuffers_destroyed (surf : KlSurface) (is : List Slot) :
    ∀ i ∈ is, ((klSurfaceDetachBuffers surf is).1.buffers i).Destroyed := by
  induction is generalizing surf with
  | nil => nofun
  | cons i is ih =>
    intro j hj
    have hrest := klSurfaceDetachBuffers_spec
      (surf.setBuffer i (klBufferDestroy (surf.ref i) (surf.buffers i)).1) is
    by_cases hji : j ∈ is
    · exact ih _ j hji
    · obtain rfl : j = i := (List.mem_cons.mp hj).resolve_right hji
      refine ⟨surf.ref j, surf.buffers j, ?_⟩
      exact (hrest.kept j hji).trans (setBuffer_self _ _ _)

/-- Buffers that were destroyed are left as they are. -/
theorem klSurfaceDetachBuffers_again (surf : KlSurface) (is : List Slot)
    (h : ∀ i, (surf.buffers i).Destroyed) :
    klSurfaceDetachBuffers surf is = (surf, is.map fun i => .klBufferDestroy (surf.ref i)) := by
  induction is with
  | nil => rfl
  | cons i is ih =>
    simp only [klSurfaceDetachBuffers, (h i).again, setBuffer_eq_self, ih, List.map_cons]
    rfl

theorem klSurfaceDetachLock_destroyed (surf : KlSurface) (i : Slot) :
    ((klSurfaceDetachLock surf).1.buffers i).Destroyed :=
  klSurfaceDetachBuffers_destroyed _ _ i (List.mem_finRange i)

theorem klSurfaceDetachLock_anew (surf : KlSurface) : (klSurfaceDetachLock surf).1.Anew := by
  obtain ⟨hd, -⟩ := klSurfaceDetachLock_spec surf
  refine ⟨hd.wlSurface, hd.extLockSurface, hd.frameCallback, hd.blank, fun i => ?_, hd.current,
    ⟨rfl, rfl⟩, hd.configured, hd.framePending, rfl, ⟨rfl, rfl⟩⟩
  obtain ⟨self, old, hold⟩ := klSurfaceDetachLock_destroyed surf i
  rw [hold]
  exact ⟨rfl, rfl⟩

/-- Detaching what is as good as new, and whose buffers were destroyed, does nothing. -/
theorem KlSurface.Anew.detach {surf : KlSurface} (h : surf.Anew)
    (hbufs : ∀ i, (surf.buffers i).Destroyed) :
    klSurfaceDetachLock surf = (surf, .klSurfaceDetachLock surf.addr ::
      (List.finRange klSurfaceBufferCount).map fun i => .klBufferDestroy (surf.ref i)) := by
  obtain ⟨hws, hls, hcb, -, -, hcur, ⟨hw, hh⟩, hconf, hp, hdirty, hstart, hlast⟩ := h
  cases surf
  subst hws hls hcb hcur hw hh hconf hp hdirty hstart hlast
  unfold klSurfaceDetachLock
  rw [klSurfaceDetachBuffers_again _ _ hbufs]
  simp

/-- **A detached surface is as good as new**: whatever happens next, it makes the requests that
a new surface of its output and scale makes; detaching it again leaves it as it is, and
makes no request. -/
theorem detach_anew {env : List Proxy} {s : SurfaceState} {tr : List Item}
    (h : (surfaceMachine env).Reach s tr) :
    ∃ output, s.surf.wlOutput = some output ∧
      (∀ name o fresh, (klSurfaceCreate output name o).1 = some fresh → ∀ evs,
        asked ((klSurfaceDetachLock s.surf).1.handleAll evs).2 =
          asked (KlSurface.handleAll { fresh with scale := s.surf.scale } evs).2) ∧
      (klSurfaceDetachLock (klSurfaceDetachLock s.surf).1).1 = (klSurfaceDetachLock s.surf).1 ∧
      asked (klSurfaceDetachLock (klSurfaceDetachLock s.surf).1).2 = [] := by
  obtain ⟨output, hout⟩ := Option.isSome_iff_exists.mp (surfaceMachine_ok h).wellFormed.output
  obtain ⟨hd, -⟩ := klSurfaceDetachLock_spec s.surf
  have hanew := klSurfaceDetachLock_anew s.surf
  have hagain := hanew.detach (klSurfaceDetachLock_destroyed s.surf)
  refine ⟨output, hout, fun name o fresh hf evs => ?_, ?_, ?_⟩
  · obtain ⟨h1, h2, h3, h4, h5, h6, h7, h8, h9, h10, h11⟩ := klSurfaceCreate_anew hf
    have hfresh : KlSurface.Anew { fresh with scale := s.surf.scale } :=
      ⟨h1, h2, h3, h4, h5, h6, h7, h8, h9, h10, h11⟩
    have houtput : fresh.wlOutput = some output := by
      obtain ⟨addr, rfl⟩ := klSurfaceCreate_some hf
      rfl
    have halike := hanew.alike hfresh (hd.output.trans (hout.trans houtput.symm)) hd.scale
    exact (KlSurface.handleAll_alike halike evs).asked
  · rw [hagain]
  · rw [hagain]
    rfl

/-- Attached again, resized and drawn, after a run with frames and a change of size. -/
def sampleEvents : List SurfaceEvent :=
  [.attach sampleRefs ⟨some 40, some 41, true⟩,
    .configure sampleRefs 41 9 800 600 (sampleFrame 42 43),
    .scale sampleRefs 2 (sampleFrame 44 45),
    .done sampleRefs 43 (sampleFrame 46 47)]

theorem detach_anew_sampleRun :
    (asked ((klSurfaceDetachLock sampleRun.1.surf).1.handleAll sampleEvents).2).length = 20 ∧
    asked ((klSurfaceDetachLock sampleRun.1.surf).1.handleAll sampleEvents).2 =
      asked (KlSurface.handleAll { sampleStart.surf with scale := sampleRun.1.surf.scale }
        sampleEvents).2 := by
  obtain ⟨output, hout, hnew, -⟩ := detach_anew sampleRun_reach
  obtain rfl : 0 = output := Option.some.inj hout
  exact ⟨by decide, hnew 40 ⟨some 0, true, true⟩ _ rfl sampleEvents⟩

end Kirilock
