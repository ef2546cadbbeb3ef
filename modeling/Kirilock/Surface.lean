import Kirilock.Buffer
import Kirilock.Render

/-!
`surface.c`: one output, its lock surface, its frame callback and its three buffers.

Every function returns the surface it leaves and the calls it makes; what the
outside answers is in `FrameOutcomes` (one frame), `AttachOutcomes` and
`CreateOutcomes`.  A `struct kl_surface *` that the code checks for `NULL` is a
surface here, and `surf->ctx` is the record `CtxRefs` of the three fields of the
context that this file reads.

What a call of `kl_surface_render_frame` can do is said once in `SurfaceFrame`.
-/

namespace Kirilock

/-- The fields of `struct kl_context` that `surface.c` reads. -/
structure CtxRefs where
  compositor : Option Proxy
  shm : Option Proxy
  lock : Option Proxy
  deriving DecidableEq, Repr

/-- `struct kl_surface`; `addr` is its address and `none` is `NULL`. -/
structure KlSurface where
  addr : SurfaceRef
  globalName : UInt32
  wlOutput : Option Proxy
  wlSurface : Option Proxy
  extLockSurface : Option Proxy
  frameCallback : Option Proxy
  buffers : Slot → KlBuffer
  currentBuffer : Nat
  width : UInt32
  height : UInt32
  scale : Int32
  configured : Bool
  framePending : Bool
  dirty : Bool
  engine : Option KlRenderEngine
  startTimeNs : UInt64
  lastFrameTimeNs : UInt64

def KlSurface.setBuffer (surf : KlSurface) (i : Slot) (buf : KlBuffer) : KlSurface :=
  { surf with buffers := Function.update surf.buffers i buf }

def KlSurface.setCurrent (surf : KlSurface) (idx : Slot) : KlSurface :=
  { surf with currentBuffer := idx.val }

def KlSurface.setDirty (surf : KlSurface) : KlSurface := { surf with dirty := true }

def KlSurface.ref (surf : KlSurface) (i : Slot) : BufferRef := ⟨surf.addr, i⟩

/-! ## Outcomes -/

/-- A `struct timespec`. -/
structure Timespec where
  sec : Int64
  nsec : Int64
  deriving DecidableEq, Repr

/-- `KL_NS_PER_SEC` -/
def klNsPerSec : UInt64 := 1000000000

/-- `none`: `clock_gettime` failed. -/
def klGetTimeNs (ts : Option Timespec) : UInt64 :=
  match ts with
  | none => 0
  | some ts => ts.sec.toUInt64 * klNsPerSec + ts.nsec.toUInt64

/-- What the outside answers while one frame is rendered. -/
structure FrameOutcomes where
  buffer : BufferOutcomes
  clock : Option Timespec
  bake : BakeOutcomes
  frame : Option Proxy
  addListener : Bool

structure AttachOutcomes where
  surface : Option Proxy
  lockSurface : Option Proxy
  addListener : Bool

structure CreateOutcomes where
  calloc : Option SurfaceRef
  engine : Bool
  addListener : Bool

/-! ## Rendering -/

/-- The slot tried at step `i` of the search. -/
def KlSurface.slotAfter (surf : KlSurface) (i : Nat) : Slot :=
  ⟨(surf.currentBuffer + 1 + i) % klSurfaceBufferCount, Nat.mod_lt _ (by decide)⟩

/-- The search loop, with `n` steps left after the first `i`. -/
def klSurfaceGetFreeBufferFrom (surf : KlSurface) (i : Nat) : Nat → Option Slot
  | 0 => none
  | n + 1 =>
    if (surf.buffers (surf.slotAfter i)).busy then klSurfaceGetFreeBufferFrom surf (i + 1) n
    else some (surf.slotAfter i)

def klSurfaceGetFreeBuffer (surf : KlSurface) : KlSurface × Option Slot :=
  match klSurfaceGetFreeBufferFrom surf 0 klSurfaceBufferCount with
  | some idx => (surf.setCurrent idx, some idx)
  | none => (surf, none)

/-- The free buffer is replaced unless it has the wanted size and scale. -/
def klSurfaceRenderFrameBuffer (refs : CtxRefs) (surf : KlSurface) (i : Slot)
    (o : FrameOutcomes) : Bool × KlSurface × List Call :=
  let buf := surf.buffers i
  if buf.width ≠ surf.width ∨ buf.height ≠ surf.height ∨ buf.scale ≠ surf.scale ∨
      buf.wlBuffer = none then
    let old := klBufferDestroy (surf.ref i) buf
    let new := klBufferCreate refs.shm (surf.ref i) old.1 surf.width surf.height surf.scale
      (some .klSurfaceOnBufferRelease) (some surf.addr) o.buffer
    (new.1, surf.setBuffer i new.2.1, old.2 ++ new.2.2)
  else (true, surf, [])

/-- `start_time_ns` once a frame has read the clock: 0 means that it is not set yet. -/
def KlSurface.startTime (surf : KlSurface) (currentTimeNs : UInt64) : UInt64 :=
  if surf.startTimeNs = 0 then currentTimeNs else surf.startTimeNs

/-- The clock and the drawing; the buffer is busy afterwards. -/
def klSurfaceRenderFrameDraw (surf : KlSurface) (i : Slot) (o : FrameOutcomes) :
    KlSurface × List Call :=
  let currentTimeNs := klGetTimeNs o.clock
  let startTimeNs := surf.startTime currentTimeNs
  let elapsedNs := currentTimeNs - startTimeNs
  let buf := surf.buffers i
  let draw := klRenderEngineDraw surf.engine buf.cr surf.width surf.height surf.scale o.bake
  let surf := { surf with
    startTimeNs := startTimeNs
    lastFrameTimeNs := currentTimeNs
    engine := draw.1 }
  (surf.setBuffer i { buf with busy := true },
    klBufferPrepare buf ++
      .klRenderEngineDraw (surf.ref i) buf.wlBuffer surf.width surf.height surf.scale elapsedNs ::
      draw.2 ++ klBufferFlush buf)

/-- From `wl_surface_set_buffer_scale` on. -/
def klSurfaceRenderFrameCommit (surf : KlSurface) (ws : Proxy) (i : Slot) (o : FrameOutcomes) :
    KlSurface × List Call :=
  let c := [.wlSurfaceSetBufferScale ws surf.scale, .wlSurfaceAttach ws (surf.buffers i).wlBuffer,
    .wlSurfaceDamage ws surf.width.toInt32 surf.height.toInt32, .wlSurfaceFrame ws o.frame]
  match o.frame with
  | none =>
    ({ surf with frameCallback := none, framePending := false }, c ++ [.wlSurfaceCommit ws])
  | some cb =>
    if o.addListener = false then
      ({ surf with frameCallback := none, framePending := false },
        c ++ [.wlCallbackAddListener cb surf.addr false, .wlCallbackDestroy cb,
          .wlSurfaceCommit ws])
    else
      ({ surf with frameCallback := some cb, framePending := true, dirty := false },
        c ++ [.wlCallbackAddListener cb surf.addr true, .wlSurfaceCommit ws])

def klSurfaceRenderFrame (refs : CtxRefs) (surf : KlSurface) (o : FrameOutcomes) :
    KlSurface × List Call :=
  let entry := .klSurfaceRenderFrame surf.addr
  if surf.configured = false ∨ surf.framePending then (surf, [entry])
  else
    match surf.wlSurface with
    | none => (surf, [entry])
    | some ws =>
      if surf.width = 0 ∨ surf.height = 0 then (surf, [entry])
      else
        let free := klSurfaceGetFreeBuffer surf
        let c := [entry, .klSurfaceGetFreeBuffer surf.addr (fun i => (surf.buffers i).wlBuffer)
          free.2]
        match free.2 with
        | none => (free.1.setDirty, c)
        | some i =>
          let buf := klSurfaceRenderFrameBuffer refs free.1 i o
          if buf.1 = false then (buf.2.1, c ++ buf.2.2)
          else
            let draw := klSurfaceRenderFrameDraw buf.2.1 i o
            let r := klSurfaceRenderFrameCommit draw.1 ws i o
            (r.1, c ++ buf.2.2 ++ draw.2 ++ r.2)

def klSurfaceRequestRender (refs : CtxRefs) (surf : KlSurface) (o : FrameOutcomes) :
    KlSurface × List Call :=
  let surf := surf.setDirty
  if surf.framePending = false ∧ surf.configured then klSurfaceRenderFrame refs surf o
  else (surf, [])

/-! ## Handlers -/

def klOutputHandleScale (refs : CtxRefs) (surf : KlSurface) (factor : Int32)
    (o : FrameOutcomes) : KlSurface × List Call :=
  if 0 < factor ∧ surf.scale ≠ factor then
    klSurfaceRequestRender refs (KlSurface.setDirty { surf with scale := factor }) o
  else (surf, [])

/-- `callback` is the proxy the event came on. -/
def klSurfaceFrameHandleDone (refs : CtxRefs) (surf : KlSurface) (callback : Proxy)
    (o : FrameOutcomes) : KlSurface × List Call :=
  let r := klSurfaceRenderFrame refs { surf with frameCallback := none, framePending := false } o
  (r.1, .wlCallbackDestroy callback :: r.2)

def klSurfaceOnBufferRelease (refs : CtxRefs) (surf : KlSurface) (o : FrameOutcomes) :
    KlSurface × List Call :=
  if surf.dirty ∧ surf.framePending = false ∧ surf.configured then klSurfaceRenderFrame refs surf o
  else (surf, [])

/-- `kl_buffer_handle_release` on the buffer in slot `i`, with the callback it
runs.  The callback's user data is noted; it acts on `surf` when that is the
surface it points to. -/
def klSurfaceBufferRelease (refs : CtxRefs) (surf : KlSurface) (i : Slot) (o : FrameOutcomes) :
    KlSurface × List Call :=
  let buf := klBufferHandleRelease (surf.buffers i)
  let surf := surf.setBuffer i buf.1
  match buf.2 with
  | some (.klSurfaceOnBufferRelease, some userData) =>
    if userData = surf.addr then
      let r := klSurfaceOnBufferRelease refs surf o
      (r.1, .klSurfaceOnBufferRelease userData :: r.2)
    else (surf, [.klSurfaceOnBufferRelease userData])
  | _ => (surf, [])

/-- `extSurface` is the proxy the event came on. -/
def klLockSurfaceHandleConfigure (refs : CtxRefs) (surf : KlSurface) (extSurface : Proxy)
    (serial width height : UInt32) (o : FrameOutcomes) : KlSurface × List Call :=
  let r := klSurfaceRequestRender refs
    { surf with width := width, height := height, configured := true } o
  (r.1, .extSessionLockSurfaceV1AckConfigure extSurface serial :: r.2)

/-! ## Creation, attachment and the end -/

def klSurfaceCreate (output : Proxy) (name : UInt32) (o : CreateOutcomes) :
    Option KlSurface × List Call :=
  match o.calloc with
  | none => (none, [.callocSurface none])
  | some addr =>
    let engine := klRenderEngineCreate o.engine
    match engine.1 with
    | none => (none, .callocSurface (some addr) :: engine.2 ++ [.freeSurface addr])
    | some e =>
      (some {
          addr := addr
          globalName := name
          wlOutput := some output
          wlSurface := none
          extLockSurface := none
          frameCallback := none
          buffers := fun _ => .zeroed
          currentBuffer := 0
          width := 0
          height := 0
          scale := 1
          configured := false
          framePending := false
          dirty := true
          engine := some e
          startTimeNs := 0
          lastFrameTimeNs := 0 },
        .callocSurface (some addr) :: engine.2 ++
          [.wlOutputAddListener output addr o.addListener])

/-- `kl_surface_attach_lock` without the note of its return. -/
def klSurfaceAttachLockBody (refs : CtxRefs) (surf : KlSurface) (o : AttachOutcomes) :
    Bool × KlSurface × List Call :=
  match refs.lock, refs.compositor with
  | some lock, some compositor =>
    if surf.extLockSurface.isSome then (true, surf, [])
    else
      let surf := { surf with wlSurface := o.surface }
      let c := [.wlCompositorCreateSurface compositor o.surface]
      match o.surface, surf.wlOutput with
      | none, _ => (false, surf, c)
      | some _, none => (false, surf, c)
      | some ws, some output =>
        let surf := { surf with extLockSurface := o.lockSurface }
        let c := c ++ [.extSessionLockV1GetLockSurface lock ws output o.lockSurface]
        match o.lockSurface with
        | none => (false, { surf with wlSurface := none }, c ++ [.wlSurfaceDestroy ws])
        | some ls =>
          (o.addListener, surf,
            c ++ [.extSessionLockSurfaceV1AddListener ls surf.addr o.addListener])
  | _, _ => (false, surf, [])

def klSurfaceAttachLock (refs : CtxRefs) (surf : KlSurface) (o : AttachOutcomes) :
    Bool × KlSurface × List Call :=
  let r := klSurfaceAttachLockBody refs surf o
  (r.1, r.2.1, r.2.2 ++ [.klSurfaceAttachLock surf.addr r.1])

/-- The loop of `kl_surface_detach_lock` over the buffers from slot `i` on. -/
def klSurfaceDetachBuffers (surf : KlSurface) : List Slot → KlSurface × List Call
  | [] => (surf, [])
  | i :: is =>
    let buf := klBufferDestroy (surf.ref i) (surf.buffers i)
    let r := klSurfaceDetachBuffers (surf.setBuffer i buf.1) is
    (r.1, buf.2 ++ r.2)

def klSurfaceDetachLock (surf : KlSurface) : KlSurface × List Call :=
  let c := surf.frameCallback.toList.map .wlCallbackDestroy
  let r := klSurfaceDetachBuffers { surf with frameCallback := none }
    (List.finRange klSurfaceBufferCount)
  let surf := r.1
  ({ surf with
      extLockSurface := none
      wlSurface := none
      configured := false
      framePending := false
      dirty := true
      width := 0
      height := 0
      currentBuffer := 0
      startTimeNs := 0
      lastFrameTimeNs := 0 },
    .klSurfaceDetachLock surf.addr :: c ++ r.2 ++
      surf.extLockSurface.toList.map .extSessionLockSurfaceV1Destroy ++
      surf.wlSurface.toList.map .wlSurfaceDestroy)

/-- `wl_output_release` where the version has it, else `wl_output_destroy`. -/
def wlOutputDrop (output : Proxy) (releasable : Bool) : List Call :=
  [.wlOutputGetVersion output releasable,
    if releasable then .wlOutputRelease output else .wlOutputDestroy output]

def klSurfaceDestroy (surf : KlSurface) (releasable : Bool) : List Call :=
  let r := klSurfaceDetachLock surf
  r.2 ++ klRenderEngineDestroy r.1.engine ++
    r.1.wlOutput.toList.flatMap (wlOutputDrop · releasable) ++ [.freeSurface surf.addr]

/-- The handler that runs on `surf` when its listener `d` gets event `e` on
proxy `p`; `none` where the listener has no such event or is not this surface's. -/
def klSurfaceHandle (refs : CtxRefs) (surf : KlSurface) (p : Proxy) (d : Listener)
    (e : ProxyEvent) (o : FrameOutcomes) : Option (KlSurface × List Call) :=
  match d, e with
  | .output a, .scale factor =>
    if a = surf.addr then some (klOutputHandleScale refs surf factor o) else none
  | .output a, .outputOther => if a = surf.addr then some (surf, []) else none
  | .lockSurface a, .configure serial width height =>
    if a = surf.addr then some (klLockSurfaceHandleConfigure refs surf p serial width height o)
    else none
  | .frame a, .done =>
    if a = surf.addr then some (klSurfaceFrameHandleDone refs surf p o) else none
  | .buffer b, .release =>
    if b.surface = surf.addr then some (klSurfaceBufferRelease refs surf b.slot o) else none
  | _, _ => none

/-! ## What the functions can do -/

theorem klSurfaceGetFreeBufferFrom_some {surf : KlSurface} {idx : Slot} (n : Nat) :
    ∀ i, klSurfaceGetFreeBufferFrom surf i n = some idx → (surf.buffers idx).busy = false := by
  induction n with
  | zero => intro i h; simp [klSurfaceGetFreeBufferFrom] at h
  | succ n ih =>
    intro i h
    unfold klSurfaceGetFreeBufferFrom at h
    split at h
    · exact ih (i + 1) h
    · rename_i hb
      simp only [Option.some.injEq] at h
      simpa [h] using hb

theorem klSurfaceGetFreeBufferFrom_none {surf : KlSurface} (n : Nat) :
    ∀ i, klSurfaceGetFreeBufferFrom surf i n = none →
      ∀ k, i ≤ k → k < i + n → (surf.buffers (surf.slotAfter k)).busy = true := by
  induction n with
  | zero => intro i _ k h1 h2; omega
  | succ n ih =>
    intro i h k h1 h2
    unfold klSurfaceGetFreeBufferFrom at h
    split at h
    · rename_i hb
      rcases Nat.eq_or_lt_of_le h1 with rfl | h1
      · exact hb
      · exact ih (i + 1) h k h1 (by omega)
    · cases h

/-- The search visits every slot. -/
theorem exists_slotAfter (surf : KlSurface) (j : Slot) :
    ∃ k, k < klSurfaceBufferCount ∧ surf.slotAfter k = j := by
  obtain ⟨j, hj⟩ := j
  unfold klSurfaceBufferCount at hj
  refine ⟨(j + 2 * (surf.currentBuffer + 1)) % 3, Nat.mod_lt _ (by decide), Fin.ext ?_⟩
  simp only [KlSurface.slotAfter, klSurfaceBufferCount]
  omega

/-- **`kl_surface_get_free_buffer`** returns a buffer that is not busy, or `NULL`
when all are. -/
theorem klSurfaceGetFreeBuffer_cases (surf : KlSurface) :
    (∃ i, klSurfaceGetFreeBuffer surf = (surf.setCurrent i, some i) ∧
      (surf.buffers i).busy = false) ∨
    (klSurfaceGetFreeBuffer surf = (surf, none) ∧ ∀ i, (surf.buffers i).busy = true) := by
  cases h : klSurfaceGetFreeBufferFrom surf 0 klSurfaceBufferCount with
  | some idx =>
    refine Or.inl ⟨idx, by simp [klSurfaceGetFreeBuffer, h], ?_⟩
    exact klSurfaceGetFreeBufferFrom_some _ 0 h
  | none =>
    refine Or.inr ⟨by simp [klSurfaceGetFreeBuffer, h], fun i => ?_⟩
    obtain ⟨k, hk, rfl⟩ := exists_slotAfter surf i
    exact klSurfaceGetFreeBufferFrom_none _ 0 h k (Nat.zero_le k) (by omega)

/-- The calls of `kl_surface_render_frame` up to the search for a buffer. -/
def frameEntry (surf : KlSurface) (ret : Option Slot) : List Call :=
  [.klSurfaceRenderFrame surf.addr,
    .klSurfaceGetFreeBuffer surf.addr (fun i => (surf.buffers i).wlBuffer) ret]

end Kirilock
