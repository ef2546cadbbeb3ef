import Kirilock.LockStep

/-!
The proxies the context owns.

`ContextOwn ctx own`: `own` lists them with their listeners.  `Leaves ctx cs ctx' ps`
is the ownership rule of a function of `lock.c`: its calls take what `ctx` owns to
what `ctx'` owns, and leave the proxies `ps` behind, without a listener.  Only the
handler of a global leaves any: the one that its field held (`overwritten`).
-/

namespace Kirilock

open Ownership

/-- What the context owns besides its surfaces; `lr` and `ll` say whether the
registry and the lock have their listeners. -/
def KlContext.globalsOwn (ctx : KlContext) (lr ll : Bool) : Multiset (Proxy × Option Listener) :=
  held ctx.display none + held ctx.registry (listenerIf lr .registry) + held ctx.compositor none +
    held ctx.shm none + held ctx.lockManager none + held ctx.lock (listenerIf ll .lock)

def ContextOwn (ctx : KlContext) (own : Multiset (Proxy × Option Listener)) : Prop :=
  ∃ lr ll surfsOwn, SurfacesOwn ctx.surfaces surfsOwn ∧ own = ctx.globalsOwn lr ll + surfsOwn

def Turns (ctx : KlContext) (cs : List Call) (ctx' : KlContext) : Prop :=
  ∀ own, ContextOwn ctx own → ∃ own' ps, ContextOwn ctx' own' ∧
    Triple [] own (acts cs) (own' + bare ps)

/-- The turn leaves exactly `ps` behind. -/
def Leaves (ctx : KlContext) (cs : List Call) (ctx' : KlContext) (ps : List Proxy) : Prop :=
  ∀ own, ContextOwn ctx own → ∃ own', ContextOwn ctx' own' ∧
    Triple [] own (acts cs) (own' + bare ps)

theorem Leaves.turns {ctx ctx' : KlContext} {cs : List Call} {ps : List Proxy}
    (h : Leaves ctx cs ctx' ps) : Turns ctx cs ctx' := by
  intro own hown
  obtain ⟨own', hown', ht⟩ := h own hown
  exact ⟨own', ps, hown', ht⟩

/-- The field that keeps the proxy of a global, where there is one field for it. -/
def KlContext.field (ctx : KlContext) : Interface → Option Proxy
  | .wlCompositor => ctx.compositor
  | .wlShm => ctx.shm
  | .extSessionLockManagerV1 => ctx.lockManager
  | _ => none

/-- What the handler of an event overwrites. -/
def KlContext.overwritten (ctx : KlContext) : Item → List Proxy
  | .event _ .registry (.global _ interface) => (ctx.field interface).toList
  | _ => []

theorem ContextOwn.wellFormed {ctx : KlContext} {own : Multiset (Proxy × Option Listener)}
    (h : ContextOwn ctx own) : ∀ surf ∈ ctx.surfaces, surf.WellFormed := by
  obtain ⟨lr, ll, so, hso, -⟩ := h
  exact hso.wellFormed

/-- A proxy with a listener is the registry, the lock or one of a surface. -/
theorem ContextOwn.listens {ctx : KlContext} {own : Multiset (Proxy × Option Listener)}
    (h : ContextOwn ctx own) {p : Proxy} {d : Listener} (hp : (p, some d) ∈ own) :
    ctx.Listens p d := by
  obtain ⟨lr, ll, so, hso, rfl⟩ := h
  rcases Multiset.mem_add.mp hp with hp | hp
  · have hif : ∀ {b : Bool} {d' : Listener}, some d = listenerIf b d' → d = d' := by
      intro b d' hb
      cases b
      · cases hb
      · simpa [listenerIf] using hb
    simp only [KlContext.globalsOwn, Multiset.mem_add, mem_held, reduceCtorEq, and_false, or_false,
      false_or] at hp
    rcases hp with ⟨hp, hd⟩ | ⟨hp, hd⟩
    · exact Or.inl ⟨hif hd, hp⟩
    · exact Or.inr (Or.inl ⟨hif hd, hp⟩)
  · exact Or.inr (Or.inr (hso.of_mem hp))

/-! ## Composition -/

theorem Leaves.trans {ctx mid ctx' : KlContext} {cs ds : List Call} {ps qs : List Proxy}
    (h1 : Leaves ctx cs mid ps) (h2 : Leaves mid ds ctx' qs) :
    Leaves ctx (cs ++ ds) ctx' (qs ++ ps) := by
  intro own hown
  obtain ⟨own1, hown1, ht1⟩ := h1 own hown
  obtain ⟨own2, hown2, ht2⟩ := h2 own1 hown1
  refine ⟨own2, hown2, ?_⟩
  rw [acts_append]
  refine ht1.append ((ht2.frame (bare ps)).cast rfl ?_)
  rw [bare_append, add_assoc]

/-- A triple between what the two contexts own, with nothing left behind. -/
theorem leaves_of_triple {ctx ctx' : KlContext} {cs : List Call}
    (h : ∀ own, ContextOwn ctx own → ∃ own', ContextOwn ctx' own' ∧
      Triple [] own (acts cs) own') : Leaves ctx cs ctx' [] := by
  intro own hown
  obtain ⟨own', hown', ht⟩ := h own hown
  refine ⟨own', hown', ht.cast rfl ?_⟩
  simp [bare]

/-- A change of fields that own nothing. -/
theorem leaves_of_own {ctx ctx' : KlContext}
    (h : ∀ own, ContextOwn ctx own → ContextOwn ctx' own) : Leaves ctx [] ctx' [] :=
  leaves_of_triple fun own hown => ⟨own, h own hown, triple_nil [] own⟩

theorem leaves_refl (ctx : KlContext) : Leaves ctx [] ctx [] := leaves_of_own fun _ h => h

/-- A chain on the surfaces: the proxies of the context are only borrowed. -/
theorem SurfacesStep.leaves {ctx : KlContext} {l' : List KlSurface} {cs : List Call}
    (h : SurfacesStep ctx.refs ctx.surfaces cs l') :
    Leaves ctx cs { ctx with surfaces := l' } [] := by
  refine leaves_of_triple fun own hown => ?_
  obtain ⟨lr, ll, so, hso, rfl⟩ := hown
  let B := ctx.compositor.toList ++ ctx.shm.toList ++ ctx.lock.toList
  obtain ⟨so', hso', ht⟩ := h.triple (B := B) (fun p hp => by simp_all [B, KlContext.refs])
    (fun p hp => by simp_all [B, KlContext.refs]) (fun p hp => by simp_all [B, KlContext.refs]) hso
  refine ⟨ctx.globalsOwn lr ll + so', ⟨lr, ll, so', hso', rfl⟩, ?_⟩
  rw [add_comm _ so, add_comm _ so']
  refine ht.lend fun q hq => Or.inr ?_
  simp only [B, List.mem_append, Option.mem_toList, or_assoc] at hq
  rcases hq with hq | hq | hq <;> simp [KlContext.globalsOwn, hq]

/-! ## Requests on the display -/

/-- Calls on the display and the kernel that only wait, flush or read. -/
def Call.plain : Call → Bool
  | .wlDisplayRoundtrip .. => true
  | .wlDisplayDispatch .. => true
  | .wlDisplayDispatchPending .. => true
  | .wlDisplayFlush .. => true
  | .wlDisplayGetFd .. => true
  | .wlDisplayPrepareRead .. => true
  | .wlDisplayCancelRead .. => true
  | .wlDisplayReadEvents .. => true
  | .epollCreate .. => true
  | .epollCtl .. => true
  | .epollWait => true
  | .closeEpoll => true
  | _ => false

/-- Plain calls, on no other display than the context's. -/
def Plain (ctx : KlContext) (cs : List Call) : Prop :=
  ∀ c ∈ cs, c.plain = true ∧ ∀ a ∈ c.acts, ∃ p, ctx.display = some p ∧ a = .use p

theorem plain_nil (ctx : KlContext) : Plain ctx [] := by simp [Plain]

theorem Plain.append {ctx : KlContext} {cs ds : List Call} (h1 : Plain ctx cs) (h2 : Plain ctx ds) :
    Plain ctx (cs ++ ds) :=
  List.forall_mem_append.mpr ⟨h1, h2⟩

theorem plain_display (ctx : KlContext) (f : Proxy → Call)
    (h : ∀ p, (f p).plain = true ∧ (f p).acts = [.use p]) :
    Plain ctx (ctx.display.toList.map f) := by
  cases hd : ctx.display with
  | none => exact plain_nil ctx
  | some p =>
    have hf := h p
    simpa [Plain, hd, hf.2] using hf.1

theorem Plain.leaves {ctx : KlContext} {cs : List Call} (h : Plain ctx cs) :
    Leaves ctx cs ctx [] := by
  refine leaves_of_triple fun own hown => ⟨own, hown, ?_⟩
  have huse : ∀ a ∈ acts cs, ∃ p, ctx.display = some p ∧ a = .use p := by
    intro a ha
    obtain ⟨c, hc, ha⟩ := List.mem_flatMap.mp ha
    exact (h c hc).2 a ha
  obtain ⟨lr, ll, so, -, rfl⟩ := hown
  generalize acts cs = as at huse
  induction as with
  | nil => exact triple_nil [] _
  | cons a as ih =>
    obtain ⟨⟨p, hp, rfl⟩, has⟩ := List.forall_mem_cons.mp huse
    refine Triple.cons (triple_use [] (l := none) ?_) (ih has)
    simp [KlContext.globalsOwn, hp]

/-! ## Events -/

theorem triple_bind_none {ctx : KlContext} {p : Proxy} (hp : ctx.registry = some p)
    {own : Multiset (Proxy × Option Listener)} (hown : ContextOwn ctx own) :
    Triple [] own [.use p] own := by
  obtain ⟨lr, ll, so, -, rfl⟩ := hown
  exact triple_use [] (l := listenerIf lr .registry) (by simp [KlContext.globalsOwn, hp])

/-- A global is bound; the proxy of an earlier one is left behind. -/
theorem triple_bind {ctx : KlContext} {p : Proxy} (hp : ctx.registry = some p)
    {own : Multiset (Proxy × Option Listener)} (hown : ContextOwn ctx own) (ret : Option Proxy) :
    Triple [] own (.use p :: created ret) (own + held ret none) := by
  refine (triple_bind_none hp hown).cons ?_
  cases ret with
  | none => simpa [created] using triple_nil [] own
  | some q => exact (triple_create [] q own).cast rfl (add_comm _ _)

theorem bare_toList (x : Option Proxy) :
    (bare x.toList : Multiset (Proxy × Option Listener)) = held x none := by
  cases x <;> simp [bare]

theorem Created.leaves {ctx : KlContext} {p output : Proxy} {name : UInt32} {surf : KlSurface}
    {cs : List Call} (h : Created output name surf cs) (hp : ctx.registry = some p) :
    Leaves ctx (.wlRegistryBind p name .wlOutput (some output) :: cs)
      { ctx with surfaces := surf :: ctx.surfaces } [] := by
  refine leaves_of_triple fun own hown => ?_
  have hbind := triple_bind hp hown (some output)
  obtain ⟨lo, ht⟩ := h.triple []
  obtain ⟨lr, ll, so, hso, rfl⟩ := hown
  refine ⟨_, ⟨lr, ll, _, .cons lo false h.wellFormed hso, rfl⟩, ?_⟩
  refine hbind.append (((ht false).frame (ctx.globalsOwn lr ll + so)).cast ?_ ?_)
  · rw [held_some, add_comm]
  · simp only [KlContext.globalsOwn]
    abel

theorem CreateFailed.acts {cs : List Call} (h : CreateFailed cs) : acts cs = [] := by
  cases h <;> rfl

/-- A global is bound for a field that held `x`. -/
theorem leaves_bind {ctx ctx' : KlContext} {p : Proxy} (hp : ctx.registry = some p) (name : UInt32)
    (interface : Interface) (ret x : Option Proxy)
    (h : ∀ own, ContextOwn ctx own →
      ∃ own', ContextOwn ctx' own' ∧ own + held ret none = own' + held x none) :
    Leaves ctx [.wlRegistryBind p name interface ret] ctx' x.toList := by
  intro own hown
  obtain ⟨own', hown', he⟩ := h own hown
  refine ⟨own', hown', ?_⟩
  rw [acts_cons, acts_nil, List.append_nil, bare_toList]
  exact (triple_bind hp hown ret).cast rfl he

theorem Dispatched.leaves {ctx ctx' : KlContext} {p : Proxy} {d : Listener} {e : ProxyEvent}
    {cs : List Call} (h : Dispatched ctx p d e ctx' cs) :
    Leaves ctx cs ctx' (ctx.overwritten (.event p d e)) := by
  cases h with
  | bindFailed name hp =>
    exact leaves_of_triple fun own hown => ⟨own, hown, triple_bind_none hp hown⟩
  | createFailed name output cs releasable hp hcs =>
    refine leaves_of_triple fun own hown => ⟨own, hown, ?_⟩
    have hbind := triple_bind hp hown (some output)
    have hdrop := (wlOutputDrop_triple [] output none releasable).frame own
    rw [acts_append, acts_cons, hcs.acts, List.append_nil]
    exact hbind.append (hdrop.cast (add_comm _ _) (zero_add _))
  | created name output surf cs hp hs hl => exact hs.leaves hp
  | plugged name output surf surf' cs ds o ok flush hp hs hl hf ha =>
    have hattach : SurfacesStep ctx.refs (surf :: ctx.surfaces) ds (surf' :: ctx.surfaces) :=
      .single [] ctx.surfaces (.attached ha)
    have h1 := hs.leaves hp
    have h2 : Leaves { ctx with surfaces := surf :: ctx.surfaces } ds
        { ctx with surfaces := surf' :: ctx.surfaces } [] := hattach.leaves
    have h3 := (plain_display { ctx with surfaces := surf' :: ctx.surfaces }
      (.wlDisplayFlush · flush) fun _ => ⟨rfl, rfl⟩).leaves
    exact (h1.trans h2).trans h3
  | compositor name ret hp =>
    refine leaves_bind hp name _ ret ctx.compositor fun own ⟨lr, ll, so, hso, he⟩ => ?_
    refine ⟨_, ⟨lr, ll, so, hso, rfl⟩, ?_⟩
    simp only [he, KlContext.globalsOwn]
    abel
  | shm name ret hp =>
    refine leaves_bind hp name _ ret ctx.shm fun own ⟨lr, ll, so, hso, he⟩ => ?_
    refine ⟨_, ⟨lr, ll, so, hso, rfl⟩, ?_⟩
    simp only [he, KlContext.globalsOwn]
    abel
  | lockManager name ret hp =>
    refine leaves_bind hp name _ ret ctx.lockManager fun own ⟨lr, ll, so, hso, he⟩ => ?_
    refine ⟨_, ⟨lr, ll, so, hso, rfl⟩, ?_⟩
    simp only [he, KlContext.globalsOwn]
    abel
  | other => exact leaves_refl _
  | notFound => exact leaves_refl _
  | removed name l1 l2 surf releasable hs hn hfirst =>
    have h : SurfacesStep ctx.refs (l1 ++ surf :: l2) (klSurfaceDestroy surf releasable)
        (l1 ++ l2) := by
      have hop : SurfaceOp ctx.refs surf none _ := .destroyed releasable
      simpa using SurfacesStep.single l1 l2 hop
    exact (hs ▸ h : SurfacesStep ctx.refs ctx.surfaces _ _).leaves
  | locked => exact leaves_of_own fun _ h => h
  | finished => exact leaves_of_own fun _ h => h
  | handled l1 l2 surf surf' d e cs hs hd hm h =>
    have h : SurfacesStep ctx.refs (l1 ++ surf :: l2) cs (l1 ++ surf' :: l2) := by
      simpa using SurfacesStep.single l1 l2 (.handled h)
    have hnone : ctx.overwritten (.event p d e) = [] := by
      cases d <;> first
        | rfl
        | cases hd
    rw [hnone]
    exact (hs ▸ h : SurfacesStep ctx.refs ctx.surfaces _ _).leaves

/-! ## The life of a session -/

theorem contextOwn_zeroed {own : Multiset (Proxy × Option Listener)}
    (h : ContextOwn .zeroed own) : own = 0 := by
  obtain ⟨lr, ll, so, hso, rfl⟩ := h
  cases hso
  rfl

theorem klContextInitConnect_leaves (o : ConnectOutcomes) :
    Leaves .zeroed (klContextInitConnect o).2.2 (klContextInitConnect o).2.1 [] := by
  refine leaves_of_triple fun own hown => ?_
  rw [contextOwn_zeroed hown]
  have hown' : ∀ (lr : Bool) {display registry}, ContextOwn
      { KlContext.zeroed with display := display, registry := registry }
      (held registry (listenerIf lr .registry) + held display none) := by
    intro lr display registry
    refine ⟨lr, false, 0, .nil, ?_⟩
    simp [KlContext.globalsOwn, KlContext.zeroed, add_comm]
  have huse : ∀ {p l} {a : Multiset (Proxy × Option Listener)},
      Triple [] ({(p, l)} + a) [.use p] ({(p, l)} + a) := fun {p l a} =>
    triple_use [] (l := l) (by simp)
  cases hd : o.display with
  | none =>
    simp only [klContextInitConnect, hd]
    exact ⟨_, hown' false, triple_nil [] _⟩
  | some display =>
    have h1 := (triple_create [] display (0 : Multiset (Proxy × Option Listener))).append huse
    cases hr : o.registry with
    | none =>
      simp only [klContextInitConnect, hd, hr]
      exact ⟨_, hown' false, h1.cast rfl (add_comm _ _)⟩
    | some registry =>
      have h2 := (h1.append (triple_create [] registry _)).append huse
      cases hl : o.addListener with
      | false =>
        simp only [klContextInitConnect, hd, hr, hl]
        exact ⟨_, hown' false, h2.cast rfl (by rw [add_zero]; rfl)⟩
      | true =>
        simp only [klContextInitConnect, hd, hr, hl]
        refine ⟨_, hown' true, ?_⟩
        have h3 := (h2.append (triple_listen [] registry none .registry _)).append
          (triple_use [] (p := display) (l := none) (by simp))
        exact h3.cast rfl (by rw [add_zero]; rfl)

theorem LockStep.leaves {ctx ctx' : KlContext} {ok : Bool} {cs : List Call}
    (h : LockStep ctx ok ctx' cs) (hlock : ctx.lock = none) : Leaves ctx cs ctx' [] := by
  have huse : ∀ {manager lr ll so}, ctx.lockManager = some manager →
      Triple [] (ctx.globalsOwn lr ll + so) [.use manager] (ctx.globalsOwn lr ll + so) :=
    fun hm => triple_use [] (l := none) (by simp [KlContext.globalsOwn, hm])
  -- the lock is made, and has its listener where `add_listener` succeeds
  have hmade : ∀ {manager} lock ok, ctx.lockManager = some manager →
      Leaves ctx [.extSessionLockManagerV1Lock manager (some lock),
        .extSessionLockV1AddListener lock ok] { ctx with lock := some lock } [] := by
    intro manager lock ok hm
    refine leaves_of_triple fun own ⟨lr, ll, so, hso, he⟩ => ⟨_, ⟨lr, ok, so, hso, rfl⟩, ?_⟩
    have hown : ∀ l, {(lock, l)} + own =
        held ctx.display none + held ctx.registry (listenerIf lr .registry) +
          held ctx.compositor none + held ctx.shm none + held ctx.lockManager none +
          held (some lock) l + so := by
      intro l
      simp only [he, KlContext.globalsOwn, hlock, held_none, held_some, add_zero]
      abel
    have h1 := ((he ▸ huse hm).append (triple_create [] lock own)).append
      (triple_use [] (p := lock) (l := none) (by simp))
    cases ok with
    | false => exact h1.cast rfl (hown _)
    | true => exact (h1.append (triple_listen [] lock none .lock own)).cast rfl (hown _)
  cases h with
  | refused => exact leaves_refl ctx
  | noLock manager hm =>
    refine leaves_of_triple fun own ⟨lr, ll, so, hso, he⟩ => ⟨own, ⟨lr, ll, so, hso, ?_⟩, ?_⟩
    · simp [he, KlContext.globalsOwn, hlock]
    · exact he ▸ huse hm
  | noListener manager lock hm => exact hmade lock false hm
  | attached manager lock ok surfs cs hm ha =>
    have hattach : Leaves { ctx with lock := some lock } cs
        { ctx with lock := some lock, surfaces := surfs } [] := ha.step.leaves
    exact (hmade lock true hm).trans hattach

/-- An optional proxy of the context is destroyed. -/
theorem leaves_destroy {ctx ctx' : KlContext} (x : Option Proxy) (f : Proxy → Call)
    (hf : ∀ p, (f p).acts = [.destroy p])
    (h : ∀ own, ContextOwn ctx own → ∃ l own', ContextOwn ctx' own' ∧ own = held x l + own') :
    Leaves ctx (x.toList.map f) ctx' [] := by
  refine leaves_of_triple fun own hown => ?_
  obtain ⟨l, own', hown', rfl⟩ := h own hown
  refine ⟨own', hown', ?_⟩
  have hacts : acts (x.toList.map f) = x.toList.map .destroy := by
    cases x with
    | none => rfl
    | some p => simp [hf]
  rw [hacts]
  exact triple_destroy_held [] x l own'

theorem lock_leaves (ctx : KlContext) {x : Option Proxy} (hx : ctx.lock = x) (f : Proxy → Call)
    (hf : ∀ p, (f p).acts = [.destroy p]) :
    Leaves ctx (x.toList.map f) { ctx with lock := none } [] := by
  refine leaves_destroy x f hf fun own ⟨lr, ll, so, hso, he⟩ => ?_
  refine ⟨listenerIf ll .lock, _, ⟨lr, ll, so, hso, rfl⟩, he.trans ?_⟩
  simp only [KlContext.globalsOwn, held_none, hx]
  abel

theorem UnlockStep.leaves {ctx ctx' : KlContext} {ok : Bool} {cs : List Call}
    (h : UnlockStep ctx ok ctx' cs) : Leaves ctx cs ctx' [] := by
  cases h with
  | refused => exact leaves_refl ctx
  | unlocked lock hl hlocked hf =>
    have h1 := (klContextDetachAll_step ctx.refs ctx.surfaces).leaves
    have h2 := lock_leaves { ctx with surfaces := (klContextDetachAll ctx.surfaces).1 } hl
      .extSessionLockV1UnlockAndDestroy fun _ => rfl
    have h3 := (plain_display { ctx with
      surfaces := (klContextDetachAll ctx.surfaces).1
      lock := none } .wlDisplayRoundtrip fun _ => ⟨rfl, rfl⟩).leaves
    have h4 : Leaves { ctx with surfaces := (klContextDetachAll ctx.surfaces).1, lock := none } _
        { ctx with
          surfaces := (klContextDetachAll ctx.surfaces).1
          lock := none
          isLocked := false
          isFinished := false } [] := h3.trans (leaves_of_own fun _ h => h)
    rw [List.append_nil] at h4
    exact h1.trans (h2.trans h4)

theorem klContextDestroyObjects_leaves (ctx : KlContext) (releasable : SurfaceRef → Bool) :
    Leaves ctx (klContextDestroyObjects ctx releasable).2
      (klContextDestroyObjects ctx releasable).1 [] := by
  have h1 := (klSurfaceDestroyAll_step ctx.refs releasable ctx.surfaces).leaves
  have h2 := lock_leaves { ctx with surfaces := [] } rfl (klContextDestroyLock ctx)
    fun p => by
      unfold klContextDestroyLock
      split <;> rfl
  have h3 : Leaves { ctx with surfaces := [], lock := none }
      (ctx.lockManager.toList.map .extSessionLockManagerV1Destroy)
      { ctx with surfaces := [], lock := none, lockManager := none } [] := by
    refine leaves_destroy _ _ (fun _ => rfl) fun own ⟨lr, ll, so, hso, he⟩ => ?_
    refine ⟨none, _, ⟨lr, ll, so, hso, rfl⟩, he.trans ?_⟩
    simp only [KlContext.globalsOwn, held_none]
    abel
  have h4 : Leaves { ctx with surfaces := [], lock := none, lockManager := none }
      (ctx.shm.toList.map .wlShmDestroy)
      { ctx with surfaces := [], lock := none, lockManager := none, shm := none } [] := by
    refine leaves_destroy _ _ (fun _ => rfl) fun own ⟨lr, ll, so, hso, he⟩ => ?_
    refine ⟨none, _, ⟨lr, ll, so, hso, rfl⟩, he.trans ?_⟩
    simp only [KlContext.globalsOwn, held_none]
    abel
  have h5 : Leaves { ctx with surfaces := [], lock := none, lockManager := none, shm := none }
      (ctx.compositor.toList.map .wlCompositorDestroy)
      { ctx with
        surfaces := [], lock := none, lockManager := none, shm := none, compositor := none }
      [] := by
    refine leaves_destroy _ _ (fun _ => rfl) fun own ⟨lr, ll, so, hso, he⟩ => ?_
    refine ⟨none, _, ⟨lr, ll, so, hso, rfl⟩, he.trans ?_⟩
    simp only [KlContext.globalsOwn, held_none]
    abel
  have h6 : Leaves { ctx with
        surfaces := [], lock := none, lockManager := none, shm := none, compositor := none }
      (ctx.registry.toList.map .wlRegistryDestroy) (klContextDestroyObjects ctx releasable).1
      [] := by
    refine leaves_destroy _ _ (fun _ => rfl) fun own ⟨lr, ll, so, hso, he⟩ => ?_
    refine ⟨listenerIf lr .registry, _, ⟨lr, ll, so, hso, rfl⟩, he.trans ?_⟩
    simp only [KlContext.globalsOwn, klContextDestroyObjects, held_none]
    abel
  have h7 := (plain_display (klContextDestroyObjects ctx releasable).1 .wlDisplayRoundtrip
    fun _ => ⟨rfl, rfl⟩).leaves
  exact (((((h1.trans h2).trans h3).trans h4).trans h5).trans h6).trans h7

theorem klContextDestroyDisplay_leaves (ctx : KlContext) :
    Leaves ctx (klContextDestroyDisplay ctx).2 (klContextDestroyDisplay ctx).1 [] := by
  refine leaves_destroy _ _ (fun _ => rfl) fun own ⟨lr, ll, so, hso, he⟩ => ?_
  refine ⟨none, _, ⟨lr, ll, so, hso, rfl⟩, he.trans ?_⟩
  simp only [KlContext.globalsOwn, klContextDestroyDisplay, held_none]
  abel

end Kirilock
