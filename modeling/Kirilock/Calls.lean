import Kirilock.Ownership

/-!
What the locker calls and what is delivered to it.

A `Call` is a call the code makes on the outside (libwayland, cairo, the kernel)
together with what came back, or the entry or return of one of its own functions
that the properties speak of.  An `Item` of a run's history is a call or an event
delivered to a listener.  `Call.acts` says what a call does to the Wayland proxies:
which it creates, needs and destroys, and where a listener is registered.
-/

namespace Kirilock

open Ownership

/-- `KL_SURFACE_BUFFER_COUNT` -/
def klSurfaceBufferCount : Nat := 3

/-- A `struct wl_proxy`; every proxy ever created has its own number. -/
abbrev Proxy := Nat

/-- A `struct kl_surface`; every one that was ever allocated has its own number. -/
abbrev SurfaceRef := Nat

abbrev Slot := Fin klSurfaceBufferCount

/-- The address of a `struct kl_buffer`: `&surf->buffers[slot]`. -/
structure BufferRef where
  surface : SurfaceRef
  slot : Slot
  deriving DecidableEq, Repr

/-- A listener and the `data` it was registered with. -/
inductive Listener where
  | registry
  | lock
  | output (surf : SurfaceRef)
  | lockSurface (surf : SurfaceRef)
  | frame (surf : SurfaceRef)
  | buffer (buf : BufferRef)
  deriving DecidableEq, Repr

/-- The interfaces `kl_registry_handle_global` compares with. -/
inductive Interface where
  | wlOutput
  | wlCompositor
  | wlShm
  | extSessionLockManagerV1
  | other (name : String)
  deriving DecidableEq, Repr

/-- What `wl_display_flush` can report: all sent, `EAGAIN` with data left, or an error. -/
inductive FlushResult where
  | done
  | again
  | failed
  deriving DecidableEq, Repr

/-- Events that have a handler in the code. -/
inductive ProxyEvent where
  | global (name : UInt32) (interface : Interface)
  | globalRemove (name : UInt32)
  | locked
  | finished
  | scale (factor : Int32)
  /-- `geometry`, `mode` and `done` of an output, whose handlers do nothing -/
  | outputOther
  | configure (serial width height : UInt32)
  | done
  | release
  deriving DecidableEq, Repr

/-- A file descriptor, a mapping and a cairo object are numbered by the outside. -/
abbrev Fd := Nat
abbrev Mapping := Nat
abbrev CairoRef := Nat

inductive Call where
  -- display and registry
  | wlDisplayConnect (ret : Option Proxy)
  | wlDisplayGetRegistry (display : Proxy) (ret : Option Proxy)
  | wlRegistryAddListener (registry : Proxy) (ok : Bool)
  | wlDisplayRoundtrip (display : Proxy)
  | wlDisplayDispatch (display : Proxy)
  | wlDisplayDispatchPending (display : Proxy)
  | wlDisplayFlush (display : Proxy) (ret : FlushResult)
  | wlDisplayGetFd (display : Proxy) (ok : Bool)
  | wlDisplayPrepareRead (display : Proxy) (ok : Bool)
  | wlDisplayCancelRead (display : Proxy)
  | wlDisplayReadEvents (display : Proxy) (ok : Bool)
  | wlDisplayDisconnect (display : Proxy)
  | wlRegistryBind (registry : Proxy) (name : UInt32) (interface : Interface) (ret : Option Proxy)
  | wlRegistryDestroy (registry : Proxy)
  | wlCompositorDestroy (compositor : Proxy)
  | wlShmDestroy (shm : Proxy)
  -- session lock
  | extSessionLockManagerV1Lock (manager : Proxy) (ret : Option Proxy)
  | extSessionLockManagerV1Destroy (manager : Proxy)
  | extSessionLockV1AddListener (lock : Proxy) (ok : Bool)
  | extSessionLockV1GetLockSurface (lock surface output : Proxy) (ret : Option Proxy)
  | extSessionLockV1UnlockAndDestroy (lock : Proxy)
  | extSessionLockV1Destroy (lock : Proxy)
  | extSessionLockSurfaceV1AddListener (lockSurface : Proxy) (surf : SurfaceRef) (ok : Bool)
  | extSessionLockSurfaceV1AckConfigure (lockSurface : Proxy) (serial : UInt32)
  | extSessionLockSurfaceV1Destroy (lockSurface : Proxy)
  -- outputs and surfaces
  | wlOutputAddListener (output : Proxy) (surf : SurfaceRef) (ok : Bool)
  | wlOutputGetVersion (output : Proxy) (releasable : Bool)
  | wlOutputRelease (output : Proxy)
  | wlOutputDestroy (output : Proxy)
  | wlCompositorCreateSurface (compositor : Proxy) (ret : Option Proxy)
  | wlSurfaceDestroy (surface : Proxy)
  | wlSurfaceSetBufferScale (surface : Proxy) (scale : Int32)
  | wlSurfaceAttach (surface : Proxy) (buffer : Option Proxy)
  | wlSurfaceDamage (surface : Proxy) (width height : Int32)
  | wlSurfaceFrame (surface : Proxy) (ret : Option Proxy)
  | wlSurfaceCommit (surface : Proxy)
  | wlCallbackAddListener (callback : Proxy) (surf : SurfaceRef) (ok : Bool)
  | wlCallbackDestroy (callback : Proxy)
  -- buffers
  | cairoFormatStrideForWidth (width ret : Int32)
  | memfdCreate (ret : Option Fd)
  | ftruncate (fd : Fd) (size : UInt64) (ok : Bool)
  | fcntlAddSeals (fd : Fd) (ok : Bool)
  | mmap (size : UInt64) (fd : Fd) (ret : Option Mapping)
  | munmap (data : Mapping) (size : UInt64)
  | close (fd : Fd)
  | wlShmCreatePool (shm : Proxy) (fd : Fd) (size : Int32) (ret : Option Proxy)
  | wlShmPoolCreateBuffer (pool : Proxy) (width height stride : Int32) (ret : Option Proxy)
  | wlShmPoolDestroy (pool : Proxy)
  | wlBufferAddListener (buffer : Proxy) (buf : BufferRef) (ok : Bool)
  | wlBufferDestroy (buffer : Proxy)
  -- cairo
  | cairoImageSurfaceCreateForData (data : Mapping) (width height stride : Int32) (ret : CairoRef)
      (ok : Bool)
  | cairoImageSurfaceCreate (dim : Int32) (ret : CairoRef) (ok : Bool)
  | cairoSurfaceFlush (surface : CairoRef)
  | cairoSurfaceDestroy (surface : CairoRef)
  | cairoCreate (surface ret : CairoRef) (ok : Bool)
  | cairoDestroy (cr : CairoRef)
  | cairoIdentityMatrix (cr : CairoRef)
  | cairoScale (cr : CairoRef) (scale : Int32)
  | cairoPatternCreateForSurface (surface ret : CairoRef) (ok : Bool)
  | cairoPatternDestroy (pattern : CairoRef)
  | cairoPaintBackground (cr : CairoRef)
  | cairoPaintSprite (cr pattern : CairoRef) (scale : Int32)
  -- memory
  | callocSurface (ret : Option SurfaceRef)
  | callocEngine (ok : Bool)
  | freeSurface (surf : SurfaceRef)
  | freeEngine
  -- the kernel's side of the event loop
  | epollCreate (ok : Bool)
  | epollCtl (ok : Bool)
  | epollWait
  | closeEpoll
  -- the code's own functions
  | klSurfaceRenderFrame (surf : SurfaceRef)
  | klSurfaceGetFreeBuffer (surf : SurfaceRef) (wlBuffers : Slot → Option Proxy)
      (ret : Option Slot)
  | klSurfaceOnBufferRelease (userData : SurfaceRef)
  | klSurfaceAttachLock (surf : SurfaceRef) (ok : Bool)
  | klSurfaceDetachLock (surf : SurfaceRef)
  /-- `old` is the `wl_buffer` on entry -/
  | klBufferCreate (buf : BufferRef) (old : Option Proxy) (width height : UInt32) (scale : Int32)
      (ret : Option Proxy)
  | klBufferDestroy (buf : BufferRef)
  | klRenderEngineDraw (buf : BufferRef) (wlBuffer : Option Proxy) (width height : UInt32)
      (scale : Int32) (elapsedNs : UInt64)

/-- The result of a creating call: nothing was created when it returned `NULL`. -/
def created : Option Proxy → List (Act Proxy Listener)
  | none => []
  | some p => [.create p]

/-- The result of an `add_listener` call: `-1` registers nothing. -/
def listened (p : Proxy) (d : Listener) (ok : Bool) : List (Act Proxy Listener) :=
  if ok then [.use p, .listen p d] else [.use p]

/-- What a call does to the proxies. -/
def Call.acts : Call → List (Act Proxy Listener)
  | .wlDisplayConnect ret => created ret
  | .wlDisplayGetRegistry display ret => .use display :: created ret
  | .wlRegistryAddListener registry ok => listened registry .registry ok
  | .wlDisplayRoundtrip display => [.use display]
  | .wlDisplayDispatch display => [.use display]
  | .wlDisplayDispatchPending display => [.use display]
  | .wlDisplayFlush display _ => [.use display]
  | .wlDisplayGetFd display _ => [.use display]
  | .wlDisplayPrepareRead display _ => [.use display]
  | .wlDisplayCancelRead display => [.use display]
  | .wlDisplayReadEvents display _ => [.use display]
  | .wlDisplayDisconnect display => [.destroy display]
  | .wlRegistryBind registry _ _ ret => .use registry :: created ret
  | .wlRegistryDestroy registry => [.destroy registry]
  | .wlCompositorDestroy compositor => [.destroy compositor]
  | .wlShmDestroy shm => [.destroy shm]
  | .extSessionLockManagerV1Lock manager ret => .use manager :: created ret
  | .extSessionLockManagerV1Destroy manager => [.destroy manager]
  | .extSessionLockV1AddListener lock ok => listened lock .lock ok
  | .extSessionLockV1GetLockSurface lock surface output ret =>
    .use lock :: .use surface :: .use output :: created ret
  | .extSessionLockV1UnlockAndDestroy lock => [.destroy lock]
  | .extSessionLockV1Destroy lock => [.destroy lock]
  | .extSessionLockSurfaceV1AddListener lockSurface surf ok =>
    listened lockSurface (.lockSurface surf) ok
  | .extSessionLockSurfaceV1AckConfigure lockSurface _ => [.use lockSurface]
  | .extSessionLockSurfaceV1Destroy lockSurface => [.destroy lockSurface]
  | .wlOutputAddListener output surf ok => listened output (.output surf) ok
  | .wlOutputGetVersion output _ => [.use output]
  | .wlOutputRelease output => [.destroy output]
  | .wlOutputDestroy output => [.destroy output]
  | .wlCompositorCreateSurface compositor ret => .use compositor :: created ret
  | .wlSurfaceDestroy surface => [.destroy surface]
  | .wlSurfaceSetBufferScale surface _ => [.use surface]
  | .wlSurfaceAttach surface none => [.use surface]
  | .wlSurfaceAttach surface (some buffer) => [.use surface, .use buffer]
  | .wlSurfaceDamage surface _ _ => [.use surface]
  | .wlSurfaceFrame surface ret => .use surface :: created ret
  | .wlSurfaceCommit surface => [.use surface]
  | .wlCallbackAddListener callback surf ok => listened callback (.frame surf) ok
  | .wlCallbackDestroy callback => [.destroy callback]
  | .wlShmCreatePool shm _ _ ret => .use shm :: created ret
  | .wlShmPoolCreateBuffer pool _ _ _ ret => .use pool :: created ret
  | .wlShmPoolDestroy pool => [.destroy pool]
  | .wlBufferAddListener buffer buf ok => listened buffer (.buffer buf) ok
  | .wlBufferDestroy buffer => [.destroy buffer]
  | _ => []

/-- Calls that only concern the memory behind a buffer: those of `buffer.c`, where a
buffer is created only if it has no `wl_buffer`, and the cairo calls of `render.c`. -/
def Call.backing : Call → Bool
  | .cairoFormatStrideForWidth .. => true
  | .memfdCreate .. => true
  | .ftruncate .. => true
  | .fcntlAddSeals .. => true
  | .mmap .. => true
  | .munmap .. => true
  | .close .. => true
  | .wlShmCreatePool .. => true
  | .wlShmPoolCreateBuffer .. => true
  | .wlShmPoolDestroy .. => true
  | .wlBufferAddListener .. => true
  | .wlBufferDestroy .. => true
  | .cairoImageSurfaceCreateForData .. => true
  | .cairoImageSurfaceCreate .. => true
  | .cairoSurfaceFlush .. => true
  | .cairoSurfaceDestroy .. => true
  | .cairoCreate .. => true
  | .cairoDestroy .. => true
  | .cairoIdentityMatrix .. => true
  | .cairoScale .. => true
  | .cairoPatternCreateForSurface .. => true
  | .cairoPatternDestroy .. => true
  | .cairoPaintBackground .. => true
  | .cairoPaintSprite .. => true
  | .klBufferCreate _ old _ _ _ _ => old.isNone
  | .klBufferDestroy .. => true
  | _ => false

/-- A buffer that the call says was created, with its `wl_buffer`, or destroyed. -/
def Call.note : Call → Option (BufferRef × Option Proxy)
  | .klBufferCreate buf _ _ _ _ ret => some (buf, ret)
  | .klBufferDestroy buf => some (buf, none)
  | _ => none

def Call.setNote (f : BufferRef → Option Proxy) (c : Call) : BufferRef → Option Proxy :=
  match c.note with
  | some (buf, ret) => Function.update f buf ret
  | none => f

/-- The `wl_buffer` of every buffer, as the calls say. -/
def noteAll (f : BufferRef → Option Proxy) (cs : List Call) : BufferRef → Option Proxy :=
  cs.foldl Call.setNote f

@[simp] theorem noteAll_nil (f : BufferRef → Option Proxy) : noteAll f [] = f := rfl

theorem noteAll_append (f : BufferRef → Option Proxy) (cs ds : List Call) :
    noteAll f (cs ++ ds) = noteAll (noteAll f cs) ds := by
  simp [noteAll]

/-- Calls that say something of the buffer `self` only. -/
def NotesOnly (self : BufferRef) (cs : List Call) : Prop :=
  ∀ c ∈ cs, ∀ buf ret, c.note = some (buf, ret) → buf = self

theorem NotesOnly.append {self : BufferRef} {cs ds : List Call} (h1 : NotesOnly self cs)
    (h2 : NotesOnly self ds) : NotesOnly self (cs ++ ds) :=
  List.forall_mem_append.mpr ⟨h1, h2⟩

theorem noteAll_of_not_noted (f : BufferRef → Option Proxy) {cs : List Call} {buf : BufferRef}
    (h : ∀ c ∈ cs, ∀ ret, c.note ≠ some (buf, ret)) : noteAll f cs buf = f buf := by
  induction cs generalizing f with
  | nil => rfl
  | cons c cs ih =>
    obtain ⟨hc, hcs⟩ := List.forall_mem_cons.mp h
    refine (ih _ hcs).trans ?_
    cases hn : c.note with
    | none => rw [Call.setNote, hn]
    | some n =>
      obtain ⟨b, ret⟩ := n
      have hb : buf ≠ b := by
        rintro rfl
        exact hc ret hn
      rw [Call.setNote, hn]
      exact Function.update_of_ne hb _ _

theorem noteAll_of_ne {self : BufferRef} {cs : List Call} (h : NotesOnly self cs)
    (f : BufferRef → Option Proxy) {buf : BufferRef} (hb : buf ≠ self) :
    noteAll f cs buf = f buf :=
  noteAll_of_not_noted f fun c hc ret hn => hb (h c hc buf ret hn)

/-- Calls that say nothing of any buffer. -/
def Noteless (cs : List Call) : Prop := ∀ c ∈ cs, c.note = none

theorem Noteless.append {cs ds : List Call} (h1 : Noteless cs) (h2 : Noteless ds) :
    Noteless (cs ++ ds) :=
  List.forall_mem_append.mpr ⟨h1, h2⟩

theorem noteless_of_all {cs : List Call} (h : cs.all (fun c => c.note.isNone) = true) :
    Noteless cs :=
  fun c hc => Option.isNone_iff_eq_none.mp (List.all_eq_true.mp h c hc)

theorem Noteless.noteAll {cs : List Call} (h : Noteless cs) (f : BufferRef → Option Proxy) :
    noteAll f cs = f := by
  funext buf
  refine noteAll_of_not_noted f fun c hc ret hn => ?_
  rw [h c hc] at hn
  cases hn

theorem Noteless.notesOnly {cs : List Call} (h : Noteless cs) (self : BufferRef) :
    NotesOnly self cs := by
  intro c hc buf ret hn
  rw [h c hc] at hn
  cases hn

/-- The surface that a call is given, as listener data or as the object it works on. -/
def Call.subject : Call → Option SurfaceRef
  | .extSessionLockSurfaceV1AddListener _ surf _ => some surf
  | .wlOutputAddListener _ surf _ => some surf
  | .wlCallbackAddListener _ surf _ => some surf
  | .wlBufferAddListener _ buf _ => some buf.surface
  | .freeSurface surf => some surf
  | .klSurfaceRenderFrame surf => some surf
  | .klSurfaceGetFreeBuffer surf _ _ => some surf
  | .klSurfaceOnBufferRelease userData => some userData
  | .klSurfaceAttachLock surf _ => some surf
  | .klSurfaceDetachLock surf => some surf
  | .klBufferCreate buf .. => some buf.surface
  | .klBufferDestroy buf => some buf.surface
  | .klRenderEngineDraw buf .. => some buf.surface
  | _ => none

/-- Calls that are given no surface but `a`. -/
def Names (a : SurfaceRef) (cs : List Call) : Prop := ∀ c ∈ cs, ∀ b, c.subject = some b → b = a

theorem names_of_forall {a : SurfaceRef} {cs : List Call} (h : ∀ c ∈ cs, c.subject = none) :
    Names a cs := by
  intro c hc b hb
  rw [h c hc] at hb
  cases hb

theorem names_of_all {a : SurfaceRef} {cs : List Call}
    (h : cs.all (fun c => c.subject.isNone) = true) : Names a cs :=
  names_of_forall fun c hc => Option.isNone_iff_eq_none.mp (List.all_eq_true.mp h c hc)

theorem Names.append {a : SurfaceRef} {cs ds : List Call} (h1 : Names a cs) (h2 : Names a ds) :
    Names a (cs ++ ds) :=
  List.forall_mem_append.mpr ⟨h1, h2⟩

/-- Calls of the handlers of a surface that are not behind a buffer. -/
def Call.requests : Call → Bool
  | .extSessionLockSurfaceV1AckConfigure .. => true
  | .wlSurfaceSetBufferScale .. => true
  | .wlSurfaceAttach .. => true
  | .wlSurfaceDamage .. => true
  | .wlSurfaceFrame .. => true
  | .wlSurfaceCommit .. => true
  | .wlCallbackAddListener .. => true
  | .wlCallbackDestroy .. => true
  | .klSurfaceRenderFrame .. => true
  | .klSurfaceGetFreeBuffer .. => true
  | .klSurfaceOnBufferRelease .. => true
  | .klRenderEngineDraw .. => true
  | _ => false

/-- Calls a handler of a surface makes. -/
def Call.drawing (c : Call) : Bool := c.backing || c.requests

theorem drawing_of_backing {cs : List Call} (h : cs.all Call.backing) : cs.all Call.drawing := by
  refine List.all_eq_true.mpr fun c hc => ?_
  rw [Call.drawing, List.all_eq_true.mp h c hc, Bool.true_or]

/-- An item of a run's history. -/
inductive Item where
  /-- the listener registered with `d` on proxy `p` runs for event `e` -/
  | event (p : Proxy) (d : Listener) (e : ProxyEvent)
  | call (c : Call)

/-- What the calls of a handler do to the proxies. -/
def acts (cs : List Call) : List (Act Proxy Listener) := cs.flatMap Call.acts

@[simp] theorem acts_nil : acts [] = [] := rfl

@[simp] theorem acts_cons (c : Call) (cs : List Call) : acts (c :: cs) = c.acts ++ acts cs := rfl

@[simp] theorem acts_append (cs ds : List Call) : acts (cs ++ ds) = acts cs ++ acts ds := by
  simp [acts]

/-- What an item of the history does to the proxies: a listener runs only on a live proxy. -/
def Item.acts : Item → List (Act Proxy Listener)
  | .event p _ _ => [.use p]
  | .call c => c.acts

/-- Calls on files, memory and cairo objects, which concern no proxy. -/
def Call.inert : Call → Bool
  | .cairoFormatStrideForWidth .. => true
  | .memfdCreate .. => true
  | .ftruncate .. => true
  | .fcntlAddSeals .. => true
  | .mmap .. => true
  | .munmap .. => true
  | .close .. => true
  | .cairoImageSurfaceCreateForData .. => true
  | .cairoImageSurfaceCreate .. => true
  | .cairoSurfaceFlush .. => true
  | .cairoSurfaceDestroy .. => true
  | .cairoCreate .. => true
  | .cairoDestroy .. => true
  | .cairoIdentityMatrix .. => true
  | .cairoScale .. => true
  | .cairoPatternCreateForSurface .. => true
  | .cairoPatternDestroy .. => true
  | .cairoPaintBackground .. => true
  | .cairoPaintSprite .. => true
  | _ => false

def Inert (cs : List Call) : Prop := cs.all Call.inert = true

theorem Call.inert_spec {c : Call} (h : c.inert = true) :
    c.acts = [] ∧ c.backing = true ∧ c.note = none ∧ c.subject = none := by
  cases c <;> first
    | exact absurd h Bool.false_ne_true
    | exact ⟨rfl, rfl, rfl, rfl⟩

theorem Inert.append {cs ds : List Call} (h1 : Inert cs) (h2 : Inert ds) : Inert (cs ++ ds) := by
  rw [Inert, List.all_append, h1, h2]
  rfl

theorem Inert.acts {cs : List Call} (h : Inert cs) : acts cs = [] :=
  List.flatMap_eq_nil_iff.mpr fun _ hc => (Call.inert_spec (List.all_eq_true.mp h _ hc)).1

theorem Inert.backing {cs : List Call} (h : Inert cs) : cs.all Call.backing :=
  List.all_eq_true.mpr fun _ hc => (Call.inert_spec (List.all_eq_true.mp h _ hc)).2.1

theorem Inert.noteless {cs : List Call} (h : Inert cs) : Noteless cs :=
  fun _ hc => (Call.inert_spec (List.all_eq_true.mp h _ hc)).2.2.1

theorem Inert.names {cs : List Call} (h : Inert cs) (a : SurfaceRef) : Names a cs := by
  intro c hc b hb
  rw [(Call.inert_spec (List.all_eq_true.mp h _ hc)).2.2.2] at hb
  cases hb

theorem Inert.not_mem {cs : List Call} (h : Inert cs) (p : Proxy) : .wlBufferDestroy p ∉ cs :=
  fun hp => absurd (List.all_eq_true.mp h _ hp) Bool.false_ne_true

end Kirilock
