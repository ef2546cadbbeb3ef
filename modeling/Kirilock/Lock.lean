import Kirilock.Surface

/-!
`lock.c`: the context, the registry and lock handlers, and the four functions of
the life of a session.

A function that waits in libwayland, where events are dispatched, is cut there:
`klContextInitConnect` and `klContextInitCheck`, `klContextLockSession` up to its
dispatch loop (which is in `Main`), `klContextUnlockSession` up to its roundtrip, and
`klContextDestroyObjects` and `klContextDestroyDisplay`.
-/

namespace Kirilock

/-- `struct kl_context`; the head of `surfaces` is the surface inserted last. -/
structure KlContext where
  display : Option Proxy
  registry : Option Proxy
  compositor : Option Proxy
  shm : Option Proxy
  lockManager : Option Proxy
  lock : Option Proxy
  surfaces : List KlSurface
  isLocked : Bool
  isFinished : Bool
  failed : Bool

/-- As `memset` and `wl_list_init` leave it. -/
def KlContext.zeroed : KlContext :=
  ⟨none, none, none, none, none, none, [], false, false, false⟩

/-- What a surface reads of its context. -/
def KlContext.refs (ctx : KlContext) : CtxRefs := ⟨ctx.compositor, ctx.shm, ctx.lock⟩

/-! ## Outcomes -/

structure ConnectOutcomes where
  display : Option Proxy
  registry : Option Proxy
  addListener : Bool

/-- What the outside answers while one global is handled. -/
structure GlobalOutcomes where
  bind : Option Proxy
  create : CreateOutcomes
  releasable : Bool
  attach : AttachOutcomes
  flush : FlushResult

structure LockOutcomes where
  lock : Option Proxy
  addListener : Bool
  attach : SurfaceRef → AttachOutcomes

/-- What the outside answers while one event is handled. -/
structure HandlerOutcomes where
  global : GlobalOutcomes
  frame : FrameOutcomes
  releasable : Bool

/-! ## Handlers -/

def klLockHandleLocked (ctx : KlContext) : KlContext := { ctx with isLocked := true }

def klLockHandleFinished (ctx : KlContext) : KlContext := { ctx with isFinished := true }

/-- A `wl_output` was announced. -/
def klRegistryHandleOutput (ctx : KlContext) (registry : Proxy) (name : UInt32)
    (o : GlobalOutcomes) : KlContext × List Call :=
  let c := [.wlRegistryBind registry name .wlOutput o.bind]
  match o.bind with
  | none => ({ ctx with failed := true }, c)
  | some output =>
    let r := klSurfaceCreate output name o.create
    match r.1 with
    | none => ({ ctx with failed := true }, c ++ r.2 ++ wlOutputDrop output o.releasable)
    | some surf =>
      -- an output plugged in while the session is locked is attached at once
      if ctx.lock.isSome ∧ ctx.isFinished = false then
        let a := klSurfaceAttachLock ctx.refs surf o.attach
        ({ ctx with surfaces := a.2.1 :: ctx.surfaces },
          c ++ r.2 ++ a.2.2 ++ ctx.display.toList.map (.wlDisplayFlush · o.flush))
      else ({ ctx with surfaces := surf :: ctx.surfaces }, c ++ r.2)

def klRegistryHandleGlobal (ctx : KlContext) (registry : Proxy) (name : UInt32)
    (interface : Interface) (o : GlobalOutcomes) : KlContext × List Call :=
  match interface with
  | .wlOutput => klRegistryHandleOutput ctx registry name o
  | .wlCompositor =>
    ({ ctx with compositor := o.bind, failed := ctx.failed || o.bind.isNone },
      [.wlRegistryBind registry name .wlCompositor o.bind])
  | .wlShm =>
    ({ ctx with shm := o.bind, failed := ctx.failed || o.bind.isNone },
      [.wlRegistryBind registry name .wlShm o.bind])
  | .extSessionLockManagerV1 =>
    ({ ctx with lockManager := o.bind, failed := ctx.failed || o.bind.isNone },
      [.wlRegistryBind registry name .extSessionLockManagerV1 o.bind])
  | .other _ => (ctx, [])

/-- The search of `kl_registry_handle_global_remove`: the first surface of that name goes. -/
def klRegistryRemoveFrom (name : UInt32) (releasable : Bool) :
    List KlSurface → List KlSurface × List Call
  | [] => ([], [])
  | surf :: surfs =>
    if surf.globalName = name then (surfs, klSurfaceDestroy surf releasable)
    else
      let r := klRegistryRemoveFrom name releasable surfs
      (surf :: r.1, r.2)

def klRegistryHandleGlobalRemove (ctx : KlContext) (name : UInt32) (releasable : Bool) :
    KlContext × List Call :=
  let r := klRegistryRemoveFrom name releasable ctx.surfaces
  ({ ctx with surfaces := r.1 }, r.2)

/-- The surface whose listener data the event came with handles it; `none` where the
data is the address of no surface in the list. -/
def klSurfacesHandle (refs : CtxRefs) (p : Proxy) (d : Listener) (e : ProxyEvent)
    (o : FrameOutcomes) : List KlSurface → Option (List KlSurface × List Call)
  | [] => none
  | surf :: surfs =>
    match klSurfaceHandle refs surf p d e o with
    | some r => some (r.1 :: surfs, r.2)
    | none =>
      match klSurfacesHandle refs p d e o surfs with
      | some r => some (surf :: r.1, r.2)
      | none => none

/-- The events of the interface a listener is for. -/
def Listener.hasEvent : Listener → ProxyEvent → Bool
  | .registry, .global .. => true
  | .registry, .globalRemove .. => true
  | .lock, .locked => true
  | .lock, .finished => true
  | .output _, .scale _ => true
  | .output _, .outputOther => true
  | .lockSurface _, .configure .. => true
  | .frame _, .done => true
  | .buffer _, .release => true
  | _, _ => false

/-- The handler that runs when listener `d` gets event `e` on proxy `p`.  A listener
whose surface is gone would run on freed memory: the event is then on record and the
context left as it is. -/
def klContextDispatch (ctx : KlContext) (p : Proxy) (d : Listener) (e : ProxyEvent)
    (o : HandlerOutcomes) : KlContext × List Call :=
  match d, e with
  | .registry, .global name interface => klRegistryHandleGlobal ctx p name interface o.global
  | .registry, .globalRemove name => klRegistryHandleGlobalRemove ctx name o.releasable
  | .lock, .locked => (klLockHandleLocked ctx, [])
  | .lock, .finished => (klLockHandleFinished ctx, [])
  | d, e =>
    match klSurfacesHandle ctx.refs p d e o.frame ctx.surfaces with
    | some r => ({ ctx with surfaces := r.1 }, r.2)
    | none => (ctx, [])

/-! ## The life of a session -/

/-- `kl_context_init` up to its roundtrip; `false` where it has failed. -/
def klContextInitConnect (o : ConnectOutcomes) : Bool × KlContext × List Call :=
  let ctx := { KlContext.zeroed with display := o.display }
  let c := [.wlDisplayConnect o.display]
  match o.display with
  | none => (false, ctx, c)
  | some display =>
    let ctx := { ctx with registry := o.registry }
    let c := c ++ [.wlDisplayGetRegistry display o.registry]
    match o.registry with
    | none => (false, ctx, c)
    | some registry =>
      let c := c ++ [.wlRegistryAddListener registry o.addListener]
      if o.addListener = false then (false, ctx, c)
      else (true, ctx, c ++ [.wlDisplayRoundtrip display])

/-- The checks of `kl_context_init` after its roundtrip. -/
def klContextInitCheck (ctx : KlContext) (roundtrip : Bool) : Bool :=
  roundtrip && !ctx.failed && ctx.compositor.isSome && ctx.shm.isSome && ctx.lockManager.isSome &&
    !ctx.surfaces.isEmpty

/-- The attach loop of `kl_context_lock_session`. -/
def klContextAttachAll (refs : CtxRefs) (o : SurfaceRef → AttachOutcomes) :
    List KlSurface → Bool × List KlSurface × List Call
  | [] => (true, [], [])
  | surf :: surfs =>
    let a := klSurfaceAttachLock refs surf (o surf.addr)
    if a.1 = false then (false, a.2.1 :: surfs, a.2.2)
    else
      let r := klContextAttachAll refs o surfs
      (r.1, a.2.1 :: r.2.1, a.2.2 ++ r.2.2)

/-- `kl_context_lock_session` up to its dispatch loop. -/
def klContextLockSession (ctx : KlContext) (o : LockOutcomes) : Bool × KlContext × List Call :=
  match ctx.lockManager, ctx.compositor with
  | some manager, some _ =>
    if ctx.surfaces.isEmpty then (false, ctx, [])
    else
      let ctx := { ctx with lock := o.lock }
      let c := [.extSessionLockManagerV1Lock manager o.lock]
      match o.lock with
      | none => (false, ctx, c)
      | some lock =>
        let c := c ++ [.extSessionLockV1AddListener lock o.addListener]
        if o.addListener = false then (false, ctx, c)
        else
          let r := klContextAttachAll ctx.refs o.attach ctx.surfaces
          (r.1, { ctx with surfaces := r.2.1 }, c ++ r.2.2)
  | _, _ => (false, ctx, [])

/-- The loop of `kl_context_unlock_session`. -/
def klContextDetachAll : List KlSurface → List KlSurface × List Call
  | [] => ([], [])
  | surf :: surfs =>
    let d := klSurfaceDetachLock surf
    let r := klContextDetachAll surfs
    (d.1 :: r.1, d.2 ++ r.2)

/-- `kl_context_unlock_session` up to its roundtrip; `false` where it is refused. -/
def klContextUnlockSession (ctx : KlContext) : Bool × KlContext × List Call :=
  match ctx.lock with
  | none => (false, ctx, [])
  | some lock =>
    if ctx.isLocked = false ∨ ctx.isFinished then (false, ctx, [])
    else
      let r := klContextDetachAll ctx.surfaces
      (true, { ctx with surfaces := r.1, lock := none, isLocked := false, isFinished := false },
        r.2 ++ .extSessionLockV1UnlockAndDestroy lock ::
          ctx.display.toList.map .wlDisplayRoundtrip)

/-- The destructor request for the lock in `kl_context_destroy`. -/
def klContextDestroyLock (ctx : KlContext) (lock : Proxy) : Call :=
  if ctx.isLocked ∧ ctx.isFinished = false then .extSessionLockV1UnlockAndDestroy lock
  else .extSessionLockV1Destroy lock

/-- `kl_context_destroy` up to the roundtrip on the display. -/
def klContextDestroyObjects (ctx : KlContext) (releasable : SurfaceRef → Bool) :
    KlContext × List Call :=
  ({ ctx with
      surfaces := []
      lock := none
      lockManager := none
      shm := none
      compositor := none
      registry := none },
    ctx.surfaces.flatMap (fun surf => klSurfaceDestroy surf (releasable surf.addr)) ++
      ctx.lock.toList.map (klContextDestroyLock ctx) ++
      ctx.lockManager.toList.map .extSessionLockManagerV1Destroy ++
      ctx.shm.toList.map .wlShmDestroy ++
      ctx.compositor.toList.map .wlCompositorDestroy ++
      ctx.registry.toList.map .wlRegistryDestroy ++
      ctx.display.toList.map .wlDisplayRoundtrip)

/-- The rest of `kl_context_destroy`. -/
def klContextDestroyDisplay (ctx : KlContext) : KlContext × List Call :=
  ({ ctx with display := none, isLocked := false, isFinished := false, failed := false },
    ctx.display.toList.map .wlDisplayDisconnect)

end Kirilock
