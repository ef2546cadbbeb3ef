import Kirilock.Lock
import Kirilock.SurfaceOwn

/-!
What the handlers of `lock.c` and its loops over the surfaces can do.

`SurfaceOp` is one function of `surface.c` run on one surface of the list, and
`SurfacesStep` is a chain of them; the loops of `lock.c` are such chains.
`SurfacesOwn` lists what the surfaces own together, so that a chain is a triple
over it.  `Dispatched` is what one event does to the context
(`klContextDispatch_step`).
-/

namespace Kirilock

open Ownership

/-! ## One surface of the list -/

/-- One function of `surface.c` run on `surf`: what is left of it, and the calls. -/
inductive SurfaceOp (refs : CtxRefs) (surf : KlSurface) : Option KlSurface → List Call → Prop
  | handled {surf' : KlSurface} {cs : List Call} (h : Handled refs surf surf' cs) :
      SurfaceOp refs surf (some surf') cs
  | attached {o : AttachOutcomes} {ok : Bool} {surf' : KlSurface} {cs : List Call}
      (h : AttachStep refs surf o ok surf' cs) : SurfaceOp refs surf (some surf') cs
  | detached : SurfaceOp refs surf (some (klSurfaceDetachLock surf).1) (klSurfaceDetachLock surf).2
  | destroyed (releasable : Bool) : SurfaceOp refs surf none (klSurfaceDestroy surf releasable)

theorem AttachStep.addr {refs : CtxRefs} {surf surf' : KlSurface} {o : AttachOutcomes}
    {ok : Bool} {cs : List Call} (h : AttachStep refs surf o ok surf' cs) :
    surf'.addr = surf.addr := by
  cases h <;> rfl

theorem SurfaceOp.wellFormed {refs : CtxRefs} {surf surf' : KlSurface} {cs : List Call}
    (h : SurfaceOp refs surf (some surf') cs) (hwf : surf.WellFormed) : surf'.WellFormed := by
  cases h with
  | handled h => exact h.wellFormed
  | attached h => exact h.wellFormed hwf
  | detached => exact (klSurfaceDetachLock_spec surf).1.wellFormed hwf

theorem SurfaceOp.addr {refs : CtxRefs} {surf surf' : KlSurface} {cs : List Call}
    (h : SurfaceOp refs surf (some surf') cs) : surf'.addr = surf.addr := by
  cases h with
  | handled h => exact h.addr
  | attached h => exact h.addr
  | detached => exact (klSurfaceDetachLock_spec surf).1.addr

/-! ## What the surfaces own -/

/-- What the surfaces own together; all of them are well formed. -/
inductive SurfacesOwn : List KlSurface → Multiset (Proxy × Option Listener) → Prop
  | nil : SurfacesOwn [] 0
  | cons {surf : KlSurface} {surfs : List KlSurface} {own : Multiset (Proxy × Option Listener)}
      (lo le : Bool) (hwf : surf.WellFormed) (h : SurfacesOwn surfs own) :
      SurfacesOwn (surf :: surfs) (surf.own lo le + own)

theorem SurfacesOwn.wellFormed {surfs : List KlSurface} {own : Multiset (Proxy × Option Listener)}
    (h : SurfacesOwn surfs own) : ∀ surf ∈ surfs, surf.WellFormed := by
  induction h with
  | nil => simp
  | cons lo le hwf _ ih => exact List.forall_mem_cons.mpr ⟨hwf, ih⟩

theorem SurfacesOwn.append {l1 l2 : List KlSurface} {o1 o2 : Multiset (Proxy × Option Listener)}
    (h1 : SurfacesOwn l1 o1) (h2 : SurfacesOwn l2 o2) : SurfacesOwn (l1 ++ l2) (o1 + o2) := by
  induction h1 with
  | nil => simpa using h2
  | cons lo le hwf _ ih =>
    rw [add_assoc]
    exact .cons lo le hwf ih

theorem SurfacesOwn.split {l1 l2 : List KlSurface} {own : Multiset (Proxy × Option Listener)}
    (h : SurfacesOwn (l1 ++ l2) own) :
    ∃ o1 o2, SurfacesOwn l1 o1 ∧ SurfacesOwn l2 o2 ∧ own = o1 + o2 := by
  induction l1 generalizing own with
  | nil => exact ⟨0, own, .nil, h, (zero_add _).symm⟩
  | cons surf l1 ih =>
    cases h with
    | cons lo le hwf h =>
      obtain ⟨o1, o2, h1, h2, rfl⟩ := ih h
      exact ⟨_, o2, .cons lo le hwf h1, h2, (add_assoc _ _ _).symm⟩

theorem SurfacesOwn.of_mem {surfs : List KlSurface} {own : Multiset (Proxy × Option Listener)}
    (h : SurfacesOwn surfs own) {x : Proxy × Option Listener} (hx : x ∈ own) :
    ∃ surf ∈ surfs, ∃ lo le, x ∈ surf.own lo le := by
  induction h with
  | nil => simp at hx
  | cons lo le _ _ ih =>
    rcases Multiset.mem_add.mp hx with hx | hx
    · exact ⟨_, List.mem_cons_self, lo, le, hx⟩
    · obtain ⟨surf, hs, h⟩ := ih hx
      exact ⟨surf, List.mem_cons_of_mem _ hs, h⟩

theorem SurfaceOp.triple {refs : CtxRefs} {surf : KlSurface} {r : Option KlSurface}
    {cs : List Call} (h : SurfaceOp refs surf r cs) (hwf : surf.WellFormed) {B : List Proxy}
    (hc : ∀ p, refs.compositor = some p → p ∈ B) (hs : ∀ p, refs.shm = some p → p ∈ B)
    (hl : ∀ p, refs.lock = some p → p ∈ B) (lo le : Bool) :
    ∃ own, SurfacesOwn r.toList own ∧ Triple B (surf.own lo le) (acts cs) own := by
  have hsome : ∀ (lo le : Bool) {surf'}, surf'.WellFormed →
      SurfacesOwn (some surf').toList (surf'.own lo le) := by
    intro lo le surf' hwf'
    rw [← add_zero (surf'.own lo le)]
    exact .cons lo le hwf' .nil
  have hwf' := fun surf' (hr : r = some surf') => (hr ▸ h : SurfaceOp _ _ _ _).wellFormed hwf
  cases h with
  | handled h => exact ⟨_, hsome _ _ (hwf' _ rfl), h.triple B lo le hs⟩
  | attached h =>
    obtain ⟨le', ht⟩ := h.triple hwf hl hc lo le
    exact ⟨_, hsome _ _ (hwf' _ rfl), ht⟩
  | detached =>
    refine ⟨_, hsome lo false (hwf' _ rfl), ?_⟩
    rw [(klSurfaceDetachLock_spec surf).1.own]
    exact klSurfaceDetachLock_triple B surf lo le
  | destroyed releasable => exact ⟨0, .nil, klSurfaceDestroy_triple B surf lo le releasable⟩

/-! ## Chains -/

/-- A chain of functions run on surfaces of the list, and its calls. -/
inductive SurfacesStep (refs : CtxRefs) : List KlSurface → List Call → List KlSurface → Prop
  | refl (l : List KlSurface) : SurfacesStep refs l [] l
  | op {l1 l2 l' : List KlSurface} {surf : KlSurface} {r : Option KlSurface} {cs ds : List Call}
      (h : SurfaceOp refs surf r cs) (hrest : SurfacesStep refs (l1 ++ r.toList ++ l2) ds l') :
      SurfacesStep refs (l1 ++ surf :: l2) (cs ++ ds) l'

theorem SurfacesStep.single {refs : CtxRefs} (l1 l2 : List KlSurface) {surf : KlSurface}
    {r : Option KlSurface} {cs : List Call} (h : SurfaceOp refs surf r cs) :
    SurfacesStep refs (l1 ++ surf :: l2) cs (l1 ++ r.toList ++ l2) := by
  rw [← List.append_nil cs]
  exact .op h (.refl _)

theorem SurfacesStep.cons {refs : CtxRefs} (surf : KlSurface) {l l' : List KlSurface}
    {cs : List Call} (h : SurfacesStep refs l cs l') :
    SurfacesStep refs (surf :: l) cs (surf :: l') := by
  induction h with
  | refl l => exact .refl _
  | @op l1 l2 l' surf' r cs ds h _ ih =>
    exact @SurfacesStep.op refs (surf :: l1) l2 _ surf' r cs ds h ih

/-- The first surface is done, and then the others. -/
theorem SurfacesStep.head {refs : CtxRefs} {surf : KlSurface} {l l' : List KlSurface}
    {r : Option KlSurface} {cs ds : List Call} (h : SurfaceOp refs surf r cs)
    (hrest : SurfacesStep refs l ds l') :
    SurfacesStep refs (surf :: l) (cs ++ ds) (r.toList ++ l') := by
  refine @SurfacesStep.op refs [] l _ surf r cs ds h ?_
  cases r with
  | none => exact hrest
  | some surf' => exact hrest.cons surf'

theorem SurfacesStep.triple {refs : CtxRefs} {l l' : List KlSurface} {cs : List Call}
    (h : SurfacesStep refs l cs l') {B : List Proxy}
    (hc : ∀ p, refs.compositor = some p → p ∈ B) (hs : ∀ p, refs.shm = some p → p ∈ B)
    (hl : ∀ p, refs.lock = some p → p ∈ B) {own : Multiset (Proxy × Option Listener)}
    (hown : SurfacesOwn l own) : ∃ own', SurfacesOwn l' own' ∧ Triple B own (acts cs) own' := by
  induction h generalizing own with
  | refl l => exact ⟨own, hown, triple_nil B own⟩
  | @op l1 l2 l' surf r cs ds hop _ ih =>
    obtain ⟨o1, o2, h1, h2, rfl⟩ := hown.split
    cases h2 with
    | @cons _ _ o2 lo le hwf h2 =>
      obtain ⟨o, ho, ht⟩ := hop.triple hwf hc hs hl lo le
      obtain ⟨own', hown', ht'⟩ := ih ((h1.append ho).append h2)
      refine ⟨own', hown', ?_⟩
      rw [acts_append]
      refine ((ht.frame (o1 + o2)).cast ?_ ?_).append ht'
      · abel
      · abel

theorem klContextDetachAll_step (refs : CtxRefs) (surfs : List KlSurface) :
    SurfacesStep refs surfs (klContextDetachAll surfs).2 (klContextDetachAll surfs).1 := by
  induction surfs with
  | nil => exact .refl _
  | cons surf surfs ih =>
    have hop : SurfaceOp refs surf _ _ := .detached
    exact .head hop ih

theorem klSurfaceDestroyAll_step (refs : CtxRefs) (releasable : SurfaceRef → Bool)
    (surfs : List KlSurface) :
    SurfacesStep refs surfs (surfs.flatMap fun surf => klSurfaceDestroy surf (releasable surf.addr))
      [] := by
  induction surfs with
  | nil => exact .refl _
  | cons surf surfs ih => exact .head (.destroyed (releasable surf.addr)) ih

/-- What the attach loop can do: `false` where it stopped at a surface. -/
inductive AttachedAll (refs : CtxRefs) : Bool → List KlSurface → List KlSurface → List Call → Prop
  | nil : AttachedAll refs true [] [] []
  | failed {surf surf' : KlSurface} {o : AttachOutcomes} {cs : List Call} (surfs : List KlSurface)
      (h : AttachStep refs surf o false surf' cs) :
      AttachedAll refs false (surf :: surfs) (surf' :: surfs) cs
  | cons {surf surf' : KlSurface} {o : AttachOutcomes} {cs ds : List Call} {ok : Bool}
      {surfs surfs' : List KlSurface} (h : AttachStep refs surf o true surf' cs)
      (hrest : AttachedAll refs ok surfs surfs' ds) :
      AttachedAll refs ok (surf :: surfs) (surf' :: surfs') (cs ++ ds)

theorem klContextAttachAll_step (refs : CtxRefs) (o : SurfaceRef → AttachOutcomes)
    {surfs : List KlSurface} (hwf : ∀ surf ∈ surfs, surf.WellFormed) :
    AttachedAll refs (klContextAttachAll refs o surfs).1 surfs (klContextAttachAll refs o surfs).2.1
      (klContextAttachAll refs o surfs).2.2 := by
  induction surfs with
  | nil => exact .nil
  | cons surf surfs ih =>
    obtain ⟨hsurf, hsurfs⟩ := List.forall_mem_cons.mp hwf
    have h := klSurfaceAttachLock_step refs hsurf (o surf.addr)
    simp only [klContextAttachAll]
    split
    · rename_i hf
      rw [hf] at h
      exact .failed surfs h
    · rename_i ht
      rw [Bool.not_eq_false] at ht
      rw [ht] at h
      exact .cons h (ih hsurfs)

theorem AttachedAll.step {refs : CtxRefs} {ok : Bool} {surfs surfs' : List KlSurface}
    {cs : List Call} (h : AttachedAll refs ok surfs surfs' cs) :
    SurfacesStep refs surfs cs surfs' := by
  induction h with
  | nil => exact .refl _
  | failed surfs h => exact .single [] surfs (.attached h)
  | cons h _ ih => exact .head (.attached h) ih

/-- What `kl_context_lock_session` can do before its dispatch loop. -/
inductive LockStep (ctx : KlContext) : Bool → KlContext → List Call → Prop
  | refused : LockStep ctx false ctx []
  | noLock (manager : Proxy) (hm : ctx.lockManager = some manager) :
      LockStep ctx false { ctx with lock := none } [.extSessionLockManagerV1Lock manager none]
  | noListener (manager lock : Proxy) (hm : ctx.lockManager = some manager) :
      LockStep ctx false { ctx with lock := some lock }
        [.extSessionLockManagerV1Lock manager (some lock), .extSessionLockV1AddListener lock false]
  | attached (manager lock : Proxy) (ok : Bool) (surfs : List KlSurface) (cs : List Call)
      (hm : ctx.lockManager = some manager)
      (ha : AttachedAll { ctx.refs with lock := some lock } ok ctx.surfaces surfs cs) :
      LockStep ctx ok { ctx with lock := some lock, surfaces := surfs }
        (.extSessionLockManagerV1Lock manager (some lock) ::
          .extSessionLockV1AddListener lock true :: cs)

theorem klContextLockSession_step {ctx : KlContext} (hwf : ∀ surf ∈ ctx.surfaces, surf.WellFormed)
    (o : LockOutcomes) :
    LockStep ctx (klContextLockSession ctx o).1 (klContextLockSession ctx o).2.1
      (klContextLockSession ctx o).2.2 := by
  obtain ⟨display, registry, compositor, shm, lockManager, lock, surfaces⟩ := ctx
  cases lockManager with
  | none => exact .refused
  | some manager =>
    cases compositor with
    | none => exact .refused
    | some compositor =>
      by_cases he : surfaces.isEmpty = true
      · simp only [klContextLockSession, if_pos he]
        exact .refused
      · simp only [klContextLockSession, if_neg he]
        cases hl : o.lock with
        | none => exact .noLock manager rfl
        | some lock =>
          cases ha : o.addListener with
          | false => exact .noListener manager lock rfl
          | true => exact .attached manager lock _ _ _ rfl (klContextAttachAll_step _ o.attach hwf)

/-- What `kl_context_unlock_session` can do before its roundtrip. -/
inductive UnlockStep (ctx : KlContext) : Bool → KlContext → List Call → Prop
  | refused (h : ctx.lock = none ∨ ctx.isLocked = false ∨ ctx.isFinished = true) :
      UnlockStep ctx false ctx []
  | unlocked (lock : Proxy) (hl : ctx.lock = some lock) (hlocked : ctx.isLocked = true)
      (hf : ctx.isFinished = false) :
      UnlockStep ctx true
        { ctx with
          surfaces := (klContextDetachAll ctx.surfaces).1
          lock := none
          isLocked := false
          isFinished := false }
        ((klContextDetachAll ctx.surfaces).2 ++ .extSessionLockV1UnlockAndDestroy lock ::
          ctx.display.toList.map .wlDisplayRoundtrip)

theorem klContextUnlockSession_step (ctx : KlContext) :
    UnlockStep ctx (klContextUnlockSession ctx).1 (klContextUnlockSession ctx).2.1
      (klContextUnlockSession ctx).2.2 := by
  cases hl : ctx.lock with
  | none =>
    simp only [klContextUnlockSession, hl]
    exact .refused (Or.inl hl)
  | some lock =>
    simp only [klContextUnlockSession, hl]
    split
    · rename_i h
      exact .refused (Or.inr h)
    · rename_i h
      obtain ⟨h1, h2⟩ := not_or.mp h
      exact .unlocked lock hl (by simpa using h1) (by simpa using h2)

/-! ## Connecting and disconnecting -/

def Call.connects : Call → Bool
  | .wlDisplayConnect .. => true
  | .wlDisplayGetRegistry .. => true
  | .wlRegistryAddListener .. => true
  | .wlDisplayRoundtrip .. => true
  | _ => false

theorem klContextInitConnect_calls (o : ConnectOutcomes) :
    ∀ c ∈ (klContextInitConnect o).2.2, c.connects = true := by
  cases hd : o.display with
  | none => simp [klContextInitConnect, hd, Call.connects]
  | some display =>
    cases hr : o.registry with
    | none => simp [klContextInitConnect, hd, hr, Call.connects]
    | some registry =>
      cases hl : o.addListener <;> simp [klContextInitConnect, hd, hr, hl, Call.connects]

/-- The calls of `kl_context_destroy` after those on the surfaces and the lock. -/
def Call.ends : Call → Bool
  | .extSessionLockManagerV1Destroy .. => true
  | .wlShmDestroy .. => true
  | .wlCompositorDestroy .. => true
  | .wlRegistryDestroy .. => true
  | .wlDisplayRoundtrip .. => true
  | _ => false

theorem klContextDestroyObjects_calls (ctx : KlContext) (releasable : SurfaceRef → Bool) :
    ∃ cs, (klContextDestroyObjects ctx releasable).2 =
      ctx.surfaces.flatMap (fun surf => klSurfaceDestroy surf (releasable surf.addr)) ++
        ctx.lock.toList.map (klContextDestroyLock ctx) ++ cs ∧ ∀ c ∈ cs, c.ends = true := by
  refine ⟨ctx.lockManager.toList.map .extSessionLockManagerV1Destroy ++
    ctx.shm.toList.map .wlShmDestroy ++ ctx.compositor.toList.map .wlCompositorDestroy ++
    ctx.registry.toList.map .wlRegistryDestroy ++ ctx.display.toList.map .wlDisplayRoundtrip,
    by simp [klContextDestroyObjects], fun c hc => ?_⟩
  simp only [List.mem_append, List.mem_map] at hc
  rcases hc with (((⟨p, -, rfl⟩ | ⟨p, -, rfl⟩) | ⟨p, -, rfl⟩) | ⟨p, -, rfl⟩) | ⟨p, -, rfl⟩ <;> rfl

/-! ## A new surface -/

/-- The calls of a `kl_surface_create` that failed. -/
inductive CreateFailed : List Call → Prop
  | calloc : CreateFailed [.callocSurface none]
  | engine (a : SurfaceRef) :
      CreateFailed [.callocSurface (some a), .callocEngine false, .freeSurface a]

/-- The surface that `kl_surface_create` made of `output`, and its calls. -/
structure Created (output : Proxy) (name : UInt32) (surf : KlSurface) (cs : List Call) : Prop where
  calls : ∃ ok, cs = [.callocSurface (some surf.addr), .callocEngine true,
    .wlOutputAddListener output surf.addr ok]
  wellFormed : surf.WellFormed
  wlOutput : surf.wlOutput = some output
  globalName : surf.globalName = name
  unattached : surf.extLockSurface = none
  blank : ∀ i, (surf.buffers i).wlBuffer = none
  triple : ∀ B : List Proxy, ∃ lo, ∀ le, Triple B {(output, none)} (acts cs) (surf.own lo le)

theorem klSurfaceCreate_cases (output : Proxy) (name : UInt32) (o : CreateOutcomes) :
    (∃ surf, (klSurfaceCreate output name o).1 = some surf ∧
      Created output name surf (klSurfaceCreate output name o).2) ∨
    ((klSurfaceCreate output name o).1 = none ∧
      CreateFailed (klSurfaceCreate output name o).2) := by
  cases hs : (klSurfaceCreate output name o).1 with
  | none =>
    refine Or.inr ⟨rfl, ?_⟩
    cases hc : o.calloc with
    | none =>
      simp only [klSurfaceCreate, hc]
      exact .calloc
    | some a =>
      cases he : o.engine with
      | true => simp [klSurfaceCreate, klRenderEngineCreate, hc, he] at hs
      | false =>
        simp only [klSurfaceCreate, klRenderEngineCreate, hc, he]
        exact .engine a
  | some surf =>
    obtain ⟨-, hext, -, hbufs⟩ := klSurfaceCreate_fields hs
    have htriple : ∀ B : List Proxy, ∃ lo, ∀ le, Triple B {(output, none)}
        (acts (klSurfaceCreate output name o).2) (surf.own lo le) := by
      intro B
      rcases klSurfaceCreate_triple B output name o with ⟨surf', h1, -, -, -, -, h⟩ | ⟨h1, -⟩
      · rw [hs] at h1
        cases h1
        exact ⟨_, h⟩
      · rw [hs] at h1
        cases h1
    rcases klSurfaceCreate_triple [] output name o with ⟨surf', h1, hwf, hout, hname, -⟩ | ⟨h1, -⟩
    · rw [hs] at h1
      cases h1
      refine Or.inl ⟨surf, rfl, ⟨?_, hwf, hout, hname, hext, fun i => ?_, htriple⟩⟩
      · cases hc : o.calloc with
        | none => simp [klSurfaceCreate, hc] at hs
        | some a =>
          cases he : o.engine with
          | false => simp [klSurfaceCreate, klRenderEngineCreate, hc, he] at hs
          | true =>
            simp only [klSurfaceCreate, klRenderEngineCreate, hc, he, if_true,
              Option.some.injEq] at hs ⊢
            subst hs
            exact ⟨_, rfl⟩
      · rw [hbufs i]
        rfl
    · rw [hs] at h1
      cases h1

/-! ## One event -/

/-- The context registered the listener `d` on `p`. -/
def KlContext.Listens (ctx : KlContext) (p : Proxy) (d : Listener) : Prop :=
  (d = .registry ∧ ctx.registry = some p) ∨ (d = .lock ∧ ctx.lock = some p) ∨
    ∃ surf ∈ ctx.surfaces, ∃ lo le, (p, some d) ∈ surf.own lo le

/-- The surface a listener was registered with. -/
def Listener.surface : Listener → Option SurfaceRef
  | .registry => none
  | .lock => none
  | .output surf => some surf
  | .lockSurface surf => some surf
  | .frame surf => some surf
  | .buffer buf => some buf.surface

/-- What one event does to the context, and the calls of its handler. -/
inductive Dispatched (ctx : KlContext) (p : Proxy) :
    Listener → ProxyEvent → KlContext → List Call → Prop
  | bindFailed (name : UInt32) (hp : ctx.registry = some p) :
      Dispatched ctx p .registry (.global name .wlOutput) { ctx with failed := true }
        [.wlRegistryBind p name .wlOutput none]
  | createFailed (name : UInt32) (output : Proxy) (cs : List Call) (releasable : Bool)
      (hp : ctx.registry = some p) (hcs : CreateFailed cs) :
      Dispatched ctx p .registry (.global name .wlOutput) { ctx with failed := true }
        (.wlRegistryBind p name .wlOutput (some output) :: cs ++ wlOutputDrop output releasable)
  | created (name : UInt32) (output : Proxy) (surf : KlSurface) (cs : List Call)
      (hp : ctx.registry = some p) (hs : Created output name surf cs)
      (hl : ctx.lock = none ∨ ctx.isFinished = true) :
      Dispatched ctx p .registry (.global name .wlOutput)
        { ctx with surfaces := surf :: ctx.surfaces }
        (.wlRegistryBind p name .wlOutput (some output) :: cs)
  | plugged (name : UInt32) (output : Proxy) (surf surf' : KlSurface) (cs ds : List Call)
      (o : AttachOutcomes) (ok : Bool) (flush : FlushResult) (hp : ctx.registry = some p)
      (hs : Created output name surf cs) (hl : ctx.lock.isSome = true)
      (hf : ctx.isFinished = false) (ha : AttachStep ctx.refs surf o ok surf' ds) :
      Dispatched ctx p .registry (.global name .wlOutput)
        { ctx with surfaces := surf' :: ctx.surfaces }
        (.wlRegistryBind p name .wlOutput (some output) :: cs ++ ds ++
          ctx.display.toList.map (.wlDisplayFlush · flush))
  | compositor (name : UInt32) (ret : Option Proxy) (hp : ctx.registry = some p) :
      Dispatched ctx p .registry (.global name .wlCompositor)
        { ctx with compositor := ret, failed := ctx.failed || ret.isNone }
        [.wlRegistryBind p name .wlCompositor ret]
  | shm (name : UInt32) (ret : Option Proxy) (hp : ctx.registry = some p) :
      Dispatched ctx p .registry (.global name .wlShm)
        { ctx with shm := ret, failed := ctx.failed || ret.isNone }
        [.wlRegistryBind p name .wlShm ret]
  | lockManager (name : UInt32) (ret : Option Proxy) (hp : ctx.registry = some p) :
      Dispatched ctx p .registry (.global name .extSessionLockManagerV1)
        { ctx with lockManager := ret, failed := ctx.failed || ret.isNone }
        [.wlRegistryBind p name .extSessionLockManagerV1 ret]
  | other (name : UInt32) (interface : String) :
      Dispatched ctx p .registry (.global name (.other interface)) ctx []
  | removed (name : UInt32) (l1 l2 : List KlSurface) (surf : KlSurface) (releasable : Bool)
      (hs : ctx.surfaces = l1 ++ surf :: l2) (hn : surf.globalName = name)
      (hfirst : ∀ surf' ∈ l1, surf'.globalName ≠ name) :
      Dispatched ctx p .registry (.globalRemove name) { ctx with surfaces := l1 ++ l2 }
        (klSurfaceDestroy surf releasable)
  | notFound (name : UInt32) (h : ∀ surf ∈ ctx.surfaces, surf.globalName ≠ name) :
      Dispatched ctx p .registry (.globalRemove name) ctx []
  | locked (hp : ctx.lock = some p) :
      Dispatched ctx p .lock .locked { ctx with isLocked := true } []
  | finished (hp : ctx.lock = some p) :
      Dispatched ctx p .lock .finished { ctx with isFinished := true } []
  | handled (l1 l2 : List KlSurface) (surf surf' : KlSurface) (d : Listener) (e : ProxyEvent)
      (cs : List Call) (hs : ctx.surfaces = l1 ++ surf :: l2) (hd : d.surface = some surf.addr)
      (hm : ∃ lo le, (p, some d) ∈ surf.own lo le) (h : Handled ctx.refs surf surf' cs) :
      Dispatched ctx p d e { ctx with surfaces := l1 ++ surf' :: l2 } cs

theorem klRegistryHandleGlobal_step {ctx : KlContext} {p : Proxy} (hp : ctx.registry = some p)
    (name : UInt32) (interface : Interface) (o : GlobalOutcomes) :
    Dispatched ctx p .registry (.global name interface)
      (klRegistryHandleGlobal ctx p name interface o).1
      (klRegistryHandleGlobal ctx p name interface o).2 := by
  cases interface with
  | wlCompositor => exact .compositor name o.bind hp
  | wlShm => exact .shm name o.bind hp
  | extSessionLockManagerV1 => exact .lockManager name o.bind hp
  | other interface => exact .other name interface
  | wlOutput =>
    simp only [klRegistryHandleGlobal, klRegistryHandleOutput]
    cases hb : o.bind with
    | none => exact .bindFailed name hp
    | some output =>
      rcases klSurfaceCreate_cases output name o.create with ⟨surf, hs, hc⟩ | ⟨hs, hc⟩
      · simp only [hs]
        split
        · rename_i hl
          exact .plugged name output surf _ _ _ _ _ o.flush hp hc hl.1 hl.2
            (klSurfaceAttachLock_step ctx.refs hc.wellFormed o.attach)
        · rename_i hl
          refine .created name output surf _ hp hc ?_
          cases hlock : ctx.lock with
          | none => exact Or.inl rfl
          | some lock => exact Or.inr (by simpa [hlock] using hl)
      · simp only [hs]
        exact .createFailed name output _ o.releasable hp hc

theorem klRegistryRemoveFrom_cases (name : UInt32) (releasable : Bool) (surfs : List KlSurface) :
    (∃ l1 surf l2, surfs = l1 ++ surf :: l2 ∧ surf.globalName = name ∧
      (∀ surf' ∈ l1, surf'.globalName ≠ name) ∧
      klRegistryRemoveFrom name releasable surfs = (l1 ++ l2, klSurfaceDestroy surf releasable)) ∨
    ((∀ surf ∈ surfs, surf.globalName ≠ name) ∧
      klRegistryRemoveFrom name releasable surfs = (surfs, [])) := by
  induction surfs with
  | nil => exact Or.inr ⟨by simp, rfl⟩
  | cons surf surfs ih =>
    by_cases hn : surf.globalName = name
    · refine Or.inl ⟨[], surf, surfs, rfl, hn, by simp, ?_⟩
      simp [klRegistryRemoveFrom, hn]
    · rcases ih with ⟨l1, surf', l2, rfl, h1, h2, h3⟩ | ⟨h1, h2⟩
      · refine Or.inl ⟨surf :: l1, surf', l2, rfl, h1, List.forall_mem_cons.mpr ⟨hn, h2⟩, ?_⟩
        simp only [klRegistryRemoveFrom, hn, if_false, h3]
        rfl
      · refine Or.inr ⟨List.forall_mem_cons.mpr ⟨hn, h1⟩, ?_⟩
        simp only [klRegistryRemoveFrom, hn, if_false, h2]

/-- The surface that handles an event is the one its listener was registered with. -/
theorem klSurfaceHandle_surface {refs : CtxRefs} {surf : KlSurface} {p : Proxy} {d : Listener}
    {e : ProxyEvent} {o : FrameOutcomes} {r : KlSurface × List Call}
    (h : klSurfaceHandle refs surf p d e o = some r) : d.surface = some surf.addr := by
  unfold klSurfaceHandle at h
  split at h <;> first
    | cases h
    | (split at h
       · rename_i ha
         exact congrArg some ha
       · cases h)

theorem klSurfacesHandle_some {refs : CtxRefs} {p : Proxy} {d : Listener} {e : ProxyEvent}
    {o : FrameOutcomes} {surfs : List KlSurface} {r : List KlSurface × List Call}
    (h : klSurfacesHandle refs p d e o surfs = some r) :
    ∃ l1 surf l2 surf', surfs = l1 ++ surf :: l2 ∧
      klSurfaceHandle refs surf p d e o = some (surf', r.2) ∧ r.1 = l1 ++ surf' :: l2 := by
  induction surfs generalizing r with
  | nil => cases h
  | cons surf surfs ih =>
    simp only [klSurfacesHandle] at h
    split at h
    · rename_i r1 hr
      cases h
      exact ⟨[], surf, surfs, r1.1, rfl, hr, rfl⟩
    · split at h
      · rename_i r1 hr
        cases h
        obtain ⟨l1, surf1, l2, surf', rfl, h1, h2⟩ := ih hr
        exact ⟨surf :: l1, surf1, l2, surf', rfl, h1, by simp [h2]⟩
      · cases h

/-- A surface has a handler for every event of its listeners. -/
theorem klSurfacesHandle_isSome (refs : CtxRefs) (p : Proxy) {d : Listener} {e : ProxyEvent}
    (o : FrameOutcomes) {surfs : List KlSurface} {surf : KlSurface} (hs : surf ∈ surfs)
    (hd : d.surface = some surf.addr) (he : d.hasEvent e = true) :
    (klSurfacesHandle refs p d e o surfs).isSome = true := by
  have hsurf : (klSurfaceHandle refs surf p d e o).isSome = true := by
    cases d <;> cases e <;> cases he <;> simp_all [Listener.surface, klSurfaceHandle]
  induction surfs with
  | nil => cases hs
  | cons surf' surfs ih =>
    simp only [klSurfacesHandle]
    rcases List.mem_cons.mp hs with rfl | hs
    · obtain ⟨r, hr⟩ := Option.isSome_iff_exists.mp hsurf
      simp [hr]
    · obtain ⟨r, hr⟩ := Option.isSome_iff_exists.mp (ih hs)
      cases klSurfaceHandle refs surf' p d e o <;> simp [hr]

theorem listener_surface_of_own {surf : KlSurface} {lo le : Bool} {p : Proxy} {d : Listener}
    (h : (p, some d) ∈ surf.own lo le) : d.surface = some surf.addr := by
  rcases mem_own_listener h with ⟨rfl, -⟩ | ⟨rfl, -⟩ | ⟨rfl, -⟩ | ⟨i, rfl, -⟩ <;> rfl

/-- The events of the two other listeners are told apart first. -/
theorem klContextDispatch_some {ctx : KlContext} {p : Proxy} {d : Listener} {e : ProxyEvent}
    {o : HandlerOutcomes} {surf : SurfaceRef} {r : List KlSurface × List Call}
    (hd : d.surface = some surf)
    (hr : klSurfacesHandle ctx.refs p d e o.frame ctx.surfaces = some r) :
    klContextDispatch ctx p d e o = ({ ctx with surfaces := r.1 }, r.2) := by
  cases d with
  | registry => cases hd
  | lock => cases hd
  | _ =>
    unfold klContextDispatch
    dsimp only
    rw [hr]

/-- **What one event can do.** -/
theorem klContextDispatch_step {ctx : KlContext} {p : Proxy} {d : Listener} {e : ProxyEvent}
    (hl : ctx.Listens p d) (he : d.hasEvent e = true)
    (hn : (ctx.surfaces.map KlSurface.addr).Nodup) (hwf : ∀ surf ∈ ctx.surfaces, surf.WellFormed)
    (o : HandlerOutcomes) :
    Dispatched ctx p d e (klContextDispatch ctx p d e o).1 (klContextDispatch ctx p d e o).2 := by
  rcases hl with ⟨rfl, hp⟩ | ⟨rfl, hp⟩ | ⟨surf, hs, lo, le, hm⟩
  · cases e <;> cases he
    case global.refl name interface => exact klRegistryHandleGlobal_step hp name interface o.global
    case globalRemove.refl name =>
      have hdispatch : klContextDispatch ctx p .registry (.globalRemove name) o =
          ({ ctx with surfaces := (klRegistryRemoveFrom name o.releasable ctx.surfaces).1 },
            (klRegistryRemoveFrom name o.releasable ctx.surfaces).2) := rfl
      rw [hdispatch]
      rcases klRegistryRemoveFrom_cases name o.releasable ctx.surfaces with
        ⟨l1, surf, l2, hs, hname, hfirst, hr⟩ | ⟨hname, hr⟩
      · rw [hr]
        exact .removed name l1 l2 surf o.releasable hs hname hfirst
      · rw [hr]
        exact .notFound name hname
  · cases e <;> cases he
    case locked.refl => exact .locked hp
    case finished.refl => exact .finished hp
  · have hd := listener_surface_of_own hm
    obtain ⟨r, hr⟩ := Option.isSome_iff_exists.mp
      (klSurfacesHandle_isSome ctx.refs p o.frame hs hd he)
    have hdispatch := klContextDispatch_some hd hr
    obtain ⟨l1, surf1, l2, surf', hsplit, h1, h2⟩ := klSurfacesHandle_some hr
    simp only [hdispatch, h2]
    -- no other surface has this address
    have hsame : surf1 = surf := by
      have ha := klSurfaceHandle_surface h1
      rw [hd, Option.some.injEq] at ha
      exact List.inj_on_of_nodup_map hn (by simp [hsplit]) hs ha.symm
    subst hsame
    have hstep := klSurfaceHandle_step (hwf surf1 hs) hm h1
    exact .handled l1 l2 surf1 surf' d e r.2 hsplit hd ⟨lo, le, hm⟩ (hstep.handled (hwf surf1 hs))

end Kirilock
