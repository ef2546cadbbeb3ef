import Kirilock.MainRun

/-!
What a step of `main` does to its surfaces, one function at a time.

A `Scene` is what the surfaces of the context see of `main`.  A `Move` is one function of
`surface.c` run on one of them, a surface that comes or goes, or calls of `main` that are not
about surfaces; every step of `main` is a chain of moves (`mainMachine_moves`).  The
functions stand in the moves as they are, so whatever is true of one function of
`surface.c` can be put together to what is true of `main`.

Every item of a move is tagged with the surface whose function made it.
-/

namespace Kirilock

open Runs Ownership

/-! ## Tagged histories -/

/-- An item, with the surface whose function it belongs to. -/
abbrev Tagged := Option SurfaceRef × Item

def tagged (a : Option SurfaceRef) (items : List Item) : List Tagged := items.map (a, ·)

/-- The items without their tags. -/
def itemsOf (tt : List Tagged) : List Item := tt.map Prod.snd

/-- The history of the surface `a`. -/
def historyOf (a : SurfaceRef) (tt : List Tagged) : List Item :=
  tt.filterMap fun x => if x.1 = some a then some x.2 else none

@[simp] theorem itemsOf_nil : itemsOf [] = [] := rfl

@[simp] theorem itemsOf_append (tt uu : List Tagged) :
    itemsOf (tt ++ uu) = itemsOf tt ++ itemsOf uu := List.map_append

@[simp] theorem itemsOf_tagged (a : Option SurfaceRef) (items : List Item) :
    itemsOf (tagged a items) = items := by
  simp [itemsOf, tagged, Function.comp_def]

@[simp] theorem historyOf_append (a : SurfaceRef) (tt uu : List Tagged) :
    historyOf a (tt ++ uu) = historyOf a tt ++ historyOf a uu := List.filterMap_append

theorem historyOf_tagged (a : SurfaceRef) (items : List Item) :
    historyOf a (tagged (some a) items) = items := by
  simp [historyOf, tagged, List.filterMap_map]

theorem historyOf_tagged_of_ne {a : SurfaceRef} {b : Option SurfaceRef} (h : b ≠ some a)
    (items : List Item) : historyOf a (tagged b items) = [] := by
  simp [historyOf, tagged, List.filterMap_map, h]

theorem run_event (t : Table Proxy Listener) (p : Proxy) (d : Listener) (e : ProxyEvent)
    (cs : List Call) : run t (itemActs (.event p d e :: calls cs)) = run t (acts cs) := by
  rw [← itemActs_calls cs]
  rfl

/-! ## Moves -/

structure Scene where
  table : Table Proxy Listener
  /-- the proxies of the context that a surface may be handed -/
  lent : List Proxy
  /-- the surfaces there ever were -/
  taken : List SurfaceRef
  surfs : List KlSurface

/-- Calls of `main` and of `lock.c` itself. -/
def Call.ofMain : Call → Bool
  | .wlDisplayConnect .. => true
  | .wlDisplayGetRegistry .. => true
  | .wlRegistryAddListener .. => true
  | .wlDisplayRoundtrip .. => true
  | .wlDisplayDispatch .. => true
  | .wlDisplayDispatchPending .. => true
  | .wlDisplayFlush .. => true
  | .wlDisplayGetFd .. => true
  | .wlDisplayPrepareRead .. => true
  | .wlDisplayCancelRead .. => true
  | .wlDisplayReadEvents .. => true
  | .wlDisplayDisconnect .. => true
  | .wlRegistryBind .. => true
  | .wlRegistryDestroy .. => true
  | .wlCompositorDestroy .. => true
  | .wlShmDestroy .. => true
  | .extSessionLockManagerV1Lock .. => true
  | .extSessionLockManagerV1Destroy .. => true
  | .extSessionLockV1AddListener .. => true
  | .extSessionLockV1UnlockAndDestroy .. => true
  | .extSessionLockV1Destroy .. => true
  | .wlOutputGetVersion .. => true
  | .wlOutputRelease .. => true
  | .wlOutputDestroy .. => true
  | .epollCreate .. => true
  | .epollCtl .. => true
  | .epollWait => true
  | .closeEpoll => true
  | _ => false

/-- Items that are about no surface. -/
def Item.ofMain : Item → Bool
  | .event _ d _ => d.surface.isNone
  | .call c => c.ofMain

/-- What `kl_surface_destroy` does to the detached surface. -/
def klSurfaceDestroyRest (surf : KlSurface) (releasable : Bool) : List Call :=
  klRenderEngineDestroy surf.engine ++
    (surf.wlOutput.toList.flatMap (wlOutputDrop · releasable) ++ [.freeSurface surf.addr])

theorem klSurfaceDestroy_eq (surf : KlSurface) (releasable : Bool) :
    klSurfaceDestroy surf releasable = (klSurfaceDetachLock surf).2 ++
      klSurfaceDestroyRest (klSurfaceDetachLock surf).1 releasable := by
  have haddr := (klSurfaceDetachLock_spec surf).1.addr
  simp only [klSurfaceDestroy, klSurfaceDestroyRest, haddr, List.append_assoc]

/-- A function of `surface.c` that leaves the surface in the list: what it leaves, and its
items. -/
inductive SurfaceFn (refs : CtxRefs) (t : Table Proxy Listener) (surf : KlSurface) :
    KlSurface → List Item → Prop
  | handle (p : Proxy) (d : Listener) (e : ProxyEvent) (o : FrameOutcomes)
      (r : KlSurface × List Call) (hp : t p = .live (some d))
      (hr : klSurfaceHandle refs surf p d e o = some r) :
      SurfaceFn refs t surf r.1 (.event p d e :: calls r.2)
  | attach (o : AttachOutcomes) :
      SurfaceFn refs t surf (klSurfaceAttachLock refs surf o).2.1
        (calls (klSurfaceAttachLock refs surf o).2.2)
  | detach : SurfaceFn refs t surf (klSurfaceDetachLock surf).1 (calls (klSurfaceDetachLock surf).2)

inductive Move : Scene → List Tagged → Scene → Prop
  | rest (S : Scene) (items : List Item) (x : Option Proxy)
      (hitems : ∀ x ∈ items, x.ofMain = true) (hx : ∀ p, x = some p → .create p ∈ itemActs items) :
      Move S (tagged none items)
        { S with table := run S.table (itemActs items), lent := x.toList ++ S.lent }
  | createFailed (S : Scene) (cs : List Call) (hcs : CreateFailed cs) :
      Move S (tagged none (calls cs)) S
  | created (S : Scene) (output : Proxy) (name : UInt32) (o : CreateOutcomes) (surf : KlSurface)
      (cs : List Call) (hs : klSurfaceCreate output name o = (some surf, cs))
      (hout : S.table output = .live none) (hlent : output ∉ S.lent)
      (hnew : surf.addr ∉ S.taken) :
      Move S (tagged none (calls cs))
        { S with
          table := run S.table (acts cs)
          taken := surf.addr :: S.taken
          surfs := surf :: S.surfs }
  | fn (S : Scene) (l1 l2 : List KlSurface) (surf surf' : KlSurface) (refs : CtxRefs)
      (items : List Item) (hS : S.surfs = l1 ++ surf :: l2) (hrefs : refs.Within S.lent)
      (h : SurfaceFn refs S.table surf surf' items) :
      Move S (tagged (some surf.addr) items)
        { S with table := run S.table (itemActs items), surfs := l1 ++ surf' :: l2 }
  | destroyed (S : Scene) (l1 l2 : List KlSurface) (surf : KlSurface) (releasable : Bool)
      (hS : S.surfs = l1 ++ surf :: l2) :
      Move S (tagged (some surf.addr) (calls (klSurfaceDetachLock surf).2) ++
          tagged none (calls (klSurfaceDestroyRest (klSurfaceDetachLock surf).1 releasable)))
        { S with
          table := run S.table (acts (klSurfaceDestroy surf releasable))
          surfs := l1 ++ l2 }

/-- A chain of moves. -/
inductive Moves : Scene → List Tagged → Scene → Prop
  | nil (S : Scene) : Moves S [] S
  | cons {S S' S'' : Scene} {out out' : List Tagged} (h : Move S out S')
      (hrest : Moves S' out' S'') : Moves S (out ++ out') S''

theorem Move.single {S S' : Scene} {out : List Tagged} (h : Move S out S') : Moves S out S' := by
  rw [← List.append_nil out]
  exact .cons h (.nil S')

theorem Moves.trans {S S' S'' : Scene} {out out' : List Tagged} (h : Moves S out S')
    (h' : Moves S' out' S'') : Moves S (out ++ out') S'' := by
  induction h with
  | nil S => exact h'
  | cons hm _ ih =>
    rw [List.append_assoc]
    exact .cons hm (ih h')

/-- A move makes the table that its items make. -/
theorem Move.table {S S' : Scene} {out : List Tagged} (h : Move S out S') :
    S'.table = run S.table (itemActs (itemsOf out)) := by
  cases h with
  | rest | fn => rw [itemsOf_tagged]
  | createFailed cs hcs =>
    rw [itemsOf_tagged, itemActs_calls, hcs.acts]
    rfl
  | created => rw [itemsOf_tagged, itemActs_calls]
  | destroyed l1 l2 surf releasable hS =>
    rw [klSurfaceDestroy_eq]
    simp

theorem Moves.table {S S' : Scene} {out : List Tagged} (h : Moves S out S') :
    S'.table = run S.table (itemActs (itemsOf out)) := by
  induction h with
  | nil S => rfl
  | cons hm _ ih => rw [ih, hm.table, itemsOf_append, itemActs_append, run_append]

/-! ## The loops over the surfaces -/

/-- The scene after calls that left the surfaces `surfs`. -/
def Scene.after (S : Scene) (cs : List Call) (surfs : List KlSurface) : Scene :=
  { S with table := run S.table (acts cs), surfs := surfs }

theorem Scene.after_after (S : Scene) (cs ds : List Call) (l l' : List KlSurface) :
    (S.after cs l).after ds l' = S.after (cs ++ ds) l' := by
  simp only [Scene.after, acts_append, run_append]

/-- Moves from `S` by the calls `cs`, to the surfaces `surfs`. -/
def Scene.Goes (S : Scene) (cs : List Call) (surfs : List KlSurface) : Prop :=
  ∃ tt, itemsOf tt = calls cs ∧ Moves S tt (S.after cs surfs)

theorem Scene.goes_nil (S : Scene) : S.Goes [] S.surfs := ⟨[], rfl, .nil S⟩

theorem Scene.Goes.append {S : Scene} {cs ds : List Call} {l l' : List KlSurface}
    (h : S.Goes cs l) (h' : (S.after cs l).Goes ds l') : S.Goes (cs ++ ds) l' := by
  obtain ⟨tt, ht, hm⟩ := h
  obtain ⟨uu, hu, hm'⟩ := h'
  refine ⟨tt ++ uu, by simp [ht, hu], ?_⟩
  rw [Scene.after_after] at hm'
  exact hm.trans hm'

/-- Calls of `main`. -/
theorem Scene.goes_rest (S : Scene) {cs : List Call} (h : ∀ c ∈ cs, c.ofMain = true) :
    S.Goes cs S.surfs := by
  have hitems : ∀ x ∈ calls cs, x.ofMain = true := by
    intro x hx
    obtain ⟨c, hc, rfl⟩ := List.mem_map.mp hx
    exact h c hc
  have hm := Move.rest S (calls cs) none hitems nofun
  rw [itemActs_calls] at hm
  exact ⟨_, itemsOf_tagged _ _, hm.single⟩

theorem Scene.goes_fn (S : Scene) (l1 l2 : List KlSurface) {surf surf' : KlSurface}
    {refs : CtxRefs} {cs : List Call} (hS : S.surfs = l1 ++ surf :: l2)
    (hrefs : refs.Within S.lent) (h : SurfaceFn refs S.table surf surf' (calls cs)) :
    S.Goes cs (l1 ++ surf' :: l2) := by
  have hm := Move.fn S l1 l2 surf surf' refs (calls cs) hS hrefs h
  rw [itemActs_calls] at hm
  exact ⟨_, itemsOf_tagged _ _, hm.single⟩

theorem Scene.goes_destroyed (S : Scene) {l1 l2 : List KlSurface} {surf : KlSurface}
    (releasable : Bool) (hS : S.surfs = l1 ++ surf :: l2) :
    S.Goes (klSurfaceDestroy surf releasable) (l1 ++ l2) := by
  refine ⟨_, ?_, (Move.destroyed S l1 l2 surf releasable hS).single⟩
  rw [klSurfaceDestroy_eq]
  simp

theorem within_none (lent : List Proxy) : CtxRefs.Within ⟨none, none, none⟩ lent := by
  simp [CtxRefs.Within]

theorem klContextDetachAll_goes {S : Scene} (l : List KlSurface) {surfs : List KlSurface}
    (hS : S.surfs = l ++ surfs) :
    S.Goes (klContextDetachAll surfs).2 (l ++ (klContextDetachAll surfs).1) := by
  induction surfs generalizing S l with
  | nil =>
    rw [klContextDetachAll, ← hS]
    exact S.goes_nil
  | cons surf surfs ih =>
    have hfirst := S.goes_fn l surfs hS (within_none S.lent) .detach
    refine hfirst.append ?_
    have hrest := @ih (S.after (klSurfaceDetachLock surf).2
      (l ++ (klSurfaceDetachLock surf).1 :: surfs)) (l ++ [(klSurfaceDetachLock surf).1])
      (by simp [Scene.after])
    rwa [List.append_assoc] at hrest

theorem klContextAttachAll_goes {S : Scene} {refs : CtxRefs} (o : SurfaceRef → AttachOutcomes)
    (l : List KlSurface) {surfs : List KlSurface} (hrefs : refs.Within S.lent)
    (hS : S.surfs = l ++ surfs) :
    S.Goes (klContextAttachAll refs o surfs).2.2 (l ++ (klContextAttachAll refs o surfs).2.1) := by
  induction surfs generalizing S l with
  | nil =>
    rw [klContextAttachAll, ← hS]
    exact S.goes_nil
  | cons surf surfs ih =>
    have hfirst := S.goes_fn l surfs hS hrefs (.attach (o surf.addr))
    simp only [klContextAttachAll]
    split
    · exact hfirst
    · refine hfirst.append ?_
      have hrest := @ih (S.after (klSurfaceAttachLock refs surf (o surf.addr)).2.2
        (l ++ (klSurfaceAttachLock refs surf (o surf.addr)).2.1 :: surfs))
        (l ++ [(klSurfaceAttachLock refs surf (o surf.addr)).2.1]) hrefs (by simp [Scene.after])
      rwa [List.append_assoc] at hrest

theorem klSurfaceDestroyAll_goes {S : Scene} (releasable : SurfaceRef → Bool)
    {surfs : List KlSurface} (hS : S.surfs = surfs) :
    S.Goes (surfs.flatMap fun surf => klSurfaceDestroy surf (releasable surf.addr)) [] := by
  induction surfs generalizing S with
  | nil =>
    have hnil := S.goes_nil
    rw [hS] at hnil
    exact hnil
  | cons surf surfs ih =>
    have hfirst := @Scene.goes_destroyed S [] surfs surf (releasable surf.addr) hS
    exact hfirst.append (ih rfl)

/-! ## One event -/

/-- The scene that the surfaces of `ctx` see. -/
structure Scene.Shows (S : Scene) (ctx : KlContext) : Prop where
  surfs : S.surfs = ctx.surfaces
  lent : ctx.refs.Within S.lent

/-- What an event does to the scene: the items are the event and the calls of its handler. -/
structure EventMoves (S : Scene) (p : Proxy) (d : Listener) (e : ProxyEvent)
    (r : KlContext × List Call) (tt : List Tagged) (S' : Scene) : Prop where
  items : itemsOf tt = .event p d e :: calls r.2
  moves : Moves S tt S'
  shows : S'.Shows r.1
  taken : ∀ a ∈ S'.taken, a ∈ r.2.filterMap Call.allocates ∨ a ∈ S.taken

/-- An event that is not for a surface, and calls of `main`. -/
theorem Scene.move_event (S : Scene) {d : Listener} (hd : d.surface = none) (p : Proxy)
    (e : ProxyEvent) (cs : List Call) (x : Option Proxy) (hcs : ∀ c ∈ cs, c.ofMain = true)
    (hx : ∀ p, x = some p → .create p ∈ acts cs) :
    Move S (tagged none (.event p d e :: calls cs))
      { S with table := run S.table (acts cs), lent := x.toList ++ S.lent } := by
  rw [← run_event S.table p d e cs]
  refine .rest S (.event p d e :: calls cs) x ?_ ?_
  · refine List.forall_mem_cons.mpr ⟨?_, fun x hx => ?_⟩
    · rw [Item.ofMain, hd]
      rfl
    · obtain ⟨c, hc, rfl⟩ := List.mem_map.mp hx
      exact hcs c hc
  · intro q hq
    refine List.mem_append_right _ ?_
    show _ ∈ itemActs (calls cs)
    rw [itemActs_calls]
    exact hx q hq

/-- An event that is not for a surface, with a handler that calls nothing. -/
theorem Scene.move_quiet (S : Scene) {d : Listener} (hd : d.surface = none) (p : Proxy)
    (e : ProxyEvent) : Move S (tagged none [.event p d e]) S :=
  S.move_event hd p e [] none (by simp) nofun

/-- A global that is kept in a field. -/
theorem Scene.Shows.bound {S : Scene} {ctx ctx' : KlContext} (h : S.Shows ctx) {p : Proxy}
    (name : UInt32) (iface : Interface) (bind : Option Proxy)
    (hsurfs : ctx'.surfaces = ctx.surfaces)
    (hrefs : ctx'.refs.Within (bind.toList ++ S.lent)) :
    ∃ tt S', EventMoves S p .registry (.global name iface)
      (ctx', [.wlRegistryBind p name iface bind]) tt S' := by
  have hcreate : ∀ q, bind = some q → .create q ∈ acts [.wlRegistryBind p name iface bind] := by
    rintro q rfl
    simp [Call.acts, created]
  exact ⟨_, _, itemsOf_tagged _ _,
    (S.move_event rfl p (.global name iface) _ _ (by simp [Call.ofMain]) hcreate).single,
    ⟨h.surfs.trans hsurfs.symm, hrefs⟩, fun a ha => Or.inr ha⟩

theorem CtxRefs.Within.mono {refs : CtxRefs} {ps qs : List Proxy} (h : refs.Within ps)
    (hsub : ∀ p ∈ ps, p ∈ qs) : refs.Within qs :=
  ⟨fun p hp => hsub p (h.1 p hp), fun p hp => hsub p (h.2.1 p hp),
    fun p hp => hsub p (h.2.2 p hp)⟩

theorem wlOutputDrop_ofMain (output : Proxy) (releasable : Bool) :
    ∀ c ∈ wlOutputDrop output releasable, c.ofMain = true := by
  cases releasable <;> simp [wlOutputDrop, Call.ofMain]

theorem ofMain_toList_map (x : Option Proxy) (f : Proxy → Call) (h : ∀ p, (f p).ofMain = true) :
    ∀ c ∈ x.toList.map f, c.ofMain = true := by
  intro c hc
  obtain ⟨p, -, rfl⟩ := List.mem_map.mp hc
  exact h p

/-- What the handler of an event needs of the scene: the proxies that are lent are not new,
those that it creates are, and so are the surfaces. -/
structure Scene.Takes (S : Scene) (cs : List Call) : Prop where
  born : ∀ p ∈ S.lent, S.table p ≠ .unborn
  fresh : Fresh S.table (acts cs)
  new : ∀ a ∈ cs.filterMap Call.allocates, a ∉ S.taken

/-- The scene after an output was bound: nobody is lent the output. -/
def Scene.outputBound (S : Scene) (p : Proxy) (name : UInt32) (output : Proxy) : Scene :=
  { S with table := run S.table (acts [.wlRegistryBind p name .wlOutput (some output)]) }

/-- The scene after a surface was made for an output. -/
def Scene.outputMade (S : Scene) (p : Proxy) (name : UInt32) (output : Proxy) (surf : KlSurface)
    (ds : List Call) : Scene :=
  { S with
    table := run (S.outputBound p name output).table (acts ds)
    taken := surf.addr :: S.taken
    surfs := surf :: S.surfs }

theorem Scene.move_outputBound (S : Scene) (p : Proxy) (name : UInt32) (output : Proxy) :
    Move S (tagged none [.event p .registry (.global name .wlOutput),
      .call (.wlRegistryBind p name .wlOutput (some output))]) (S.outputBound p name output) := by
  have hcs : ∀ c ∈ [Call.wlRegistryBind p name .wlOutput (some output)], c.ofMain = true := by
    simp [Call.ofMain]
  exact S.move_event rfl p (.global name .wlOutput) _ none hcs nofun

/-- A surface is made of the output that was bound. -/
theorem Scene.moves_outputMade {S : Scene} {p output : Proxy} {name : UInt32}
    {o : CreateOutcomes} {surf : KlSurface} (rest : List Call)
    (ht : S.Takes (.wlRegistryBind p name .wlOutput (some output) ::
      ((klSurfaceCreate output name o).2 ++ rest)))
    (hs : (klSurfaceCreate output name o).1 = some surf)
    (hc : Created output name surf (klSurfaceCreate output name o).2) :
    Moves S (tagged none [.event p .registry (.global name .wlOutput),
        .call (.wlRegistryBind p name .wlOutput (some output))] ++
        tagged none (calls (klSurfaceCreate output name o).2))
      (S.outputMade p name output surf (klSurfaceCreate output name o).2) := by
  refine (S.move_outputBound p name output).single.trans (Move.single ?_)
  refine .created _ output name o surf _ (Prod.ext hs rfl) ?_ ?_ ?_
  · simp [Scene.outputBound, Call.acts, created, Act.apply]
  · intro hm
    exact ht.born output hm ht.fresh.2.1
  · obtain ⟨ok, hds⟩ := hc.calls
    exact ht.new _ (by simp [hds, Call.allocates])

theorem klRegistryHandleOutput_moves {S : Scene} {ctx : KlContext} (hS : S.Shows ctx) (p : Proxy)
    (name : UInt32) (o : GlobalOutcomes)
    (ht : S.Takes (klRegistryHandleOutput ctx p name o).2) :
    ∃ tt S', EventMoves S p .registry (.global name .wlOutput)
      (klRegistryHandleOutput ctx p name o) tt S' := by
  unfold klRegistryHandleOutput at ht ⊢
  cases hb : o.bind with
  | none => exact hS.bound name .wlOutput none rfl hS.lent
  | some output =>
    simp only [hb] at ht ⊢
    rcases klSurfaceCreate_cases output name o.create with ⟨surf, hs, hc⟩ | ⟨hs, hc⟩
    · simp only [hs] at ht ⊢
      have htaken : ∀ a ∈ surf.addr :: S.taken, ∀ rest,
          a ∈ (.wlRegistryBind p name .wlOutput (some output) ::
            ((klSurfaceCreate output name o.create).2 ++ rest)).filterMap Call.allocates ∨
          a ∈ S.taken := by
        intro a ha rest
        rcases List.mem_cons.mp ha with rfl | ha
        · obtain ⟨ok, hds⟩ := hc.calls
          exact Or.inl (by simp [hds, Call.allocates])
        · exact Or.inr ha
      split at ht
      · -- an output that is plugged in while the session is locked
        rename_i hl
        rw [if_pos hl]
        simp only [List.append_assoc, List.singleton_append] at ht ⊢
        have hmade := Scene.moves_outputMade _ ht hs hc
        have hattach := (S.outputMade p name output surf (klSurfaceCreate output name o.create).2
          ).goes_fn [] S.surfs rfl hS.lent (.attach o.attach)
        obtain ⟨uu, hu, hm⟩ := hattach.append (Scene.goes_rest _
          (ofMain_toList_map ctx.display (.wlDisplayFlush · o.flush) fun q => rfl))
        refine ⟨_, _, ?_, hmade.trans hm, ⟨?_, hS.lent⟩, fun a ha => htaken a ha _⟩
        · rw [itemsOf_append, itemsOf_append, itemsOf_tagged, itemsOf_tagged, hu]
          simp
        · show (klSurfaceAttachLock ctx.refs surf o.attach).2.1 :: S.surfs = _
          rw [hS.surfs]
      · rename_i hl
        rw [if_neg hl]
        have hmade := Scene.moves_outputMade [] (by simpa using ht) hs hc
        refine ⟨_, _, ?_, hmade, ⟨?_, hS.lent⟩, fun a ha => ?_⟩
        · rw [itemsOf_append, itemsOf_tagged, itemsOf_tagged]
          rfl
        · show surf :: S.surfs = _
          rw [hS.surfs]
        · simpa using htaken a ha []
    · simp only [hs] at ht ⊢
      have hfailed := (S.move_outputBound p name output).single.trans
        (Move.createFailed (S.outputBound p name output) _ hc).single
      obtain ⟨uu, hu, hm⟩ := (S.outputBound p name output).goes_rest
        (wlOutputDrop_ofMain output o.releasable)
      refine ⟨_, _, ?_, hfailed.trans hm, ⟨hS.surfs, hS.lent⟩, fun a ha => Or.inr ha⟩
      rw [itemsOf_append, itemsOf_append, itemsOf_tagged, itemsOf_tagged, hu]
      simp

theorem klRegistryHandleGlobal_moves {S : Scene} {ctx : KlContext} (hS : S.Shows ctx) (p : Proxy)
    (name : UInt32) (iface : Interface) (o : GlobalOutcomes)
    (ht : S.Takes (klRegistryHandleGlobal ctx p name iface o).2) :
    ∃ tt S', EventMoves S p .registry (.global name iface)
      (klRegistryHandleGlobal ctx p name iface o) tt S' := by
  have hkeep : ∀ q ∈ S.lent, q ∈ o.bind.toList ++ S.lent := fun q hq =>
    List.mem_append_right _ hq
  have hbind : ∀ q, o.bind = some q → q ∈ o.bind.toList ++ S.lent := fun q hq =>
    List.mem_append_left _ (Option.mem_toList.mpr hq)
  obtain ⟨hc, hs, hl⟩ := hS.lent.mono hkeep
  cases iface with
  | wlOutput => exact klRegistryHandleOutput_moves hS p name o ht
  | wlCompositor => exact hS.bound name .wlCompositor o.bind rfl ⟨hbind, hs, hl⟩
  | wlShm => exact hS.bound name .wlShm o.bind rfl ⟨hc, hbind, hl⟩
  | extSessionLockManagerV1 =>
    exact hS.bound name .extSessionLockManagerV1 o.bind rfl ⟨hc, hs, hl⟩
  | other iface =>
    exact ⟨_, S, itemsOf_tagged _ _, (S.move_quiet rfl p _).single, hS, fun a ha => Or.inr ha⟩

theorem klRegistryHandleGlobalRemove_moves {S : Scene} {ctx : KlContext} (hS : S.Shows ctx)
    (p : Proxy) (name : UInt32) (releasable : Bool) :
    ∃ tt S', EventMoves S p .registry (.globalRemove name)
      (klRegistryHandleGlobalRemove ctx name releasable) tt S' := by
  have hm : Move S (tagged none [.event p .registry (.globalRemove name)]) S :=
    S.move_quiet rfl p (.globalRemove name)
  unfold klRegistryHandleGlobalRemove
  rcases klRegistryRemoveFrom_cases name releasable ctx.surfaces with
    ⟨l1, surf, l2, hsplit, -, -, hr⟩ | ⟨-, hr⟩
  · rw [hr]
    obtain ⟨uu, hu, hm'⟩ := Scene.goes_destroyed S releasable (hS.surfs.trans hsplit)
    refine ⟨_, _, ?_, hm.single.trans hm', ⟨rfl, hS.lent⟩, fun a ha => Or.inr ha⟩
    rw [itemsOf_append, itemsOf_tagged, hu]
    rfl
  · rw [hr]
    exact ⟨_, _, itemsOf_tagged _ _, hm.single, ⟨hS.surfs, hS.lent⟩, fun a ha => Or.inr ha⟩

/-- An event of a surface runs one function of that surface. -/
theorem klContextDispatch_fn {ctx : KlContext} {p : Proxy} {d : Listener} {e : ProxyEvent}
    (o : HandlerOutcomes) {surf : KlSurface} (hs : surf ∈ ctx.surfaces)
    (hd : d.surface = some surf.addr) (he : d.hasEvent e = true) :
    ∃ l1 surf1 l2 surf', ctx.surfaces = l1 ++ surf1 :: l2 ∧
      klSurfaceHandle ctx.refs surf1 p d e o.frame =
        some (surf', (klContextDispatch ctx p d e o).2) ∧
      (klContextDispatch ctx p d e o).1 = { ctx with surfaces := l1 ++ surf' :: l2 } := by
  obtain ⟨r, hr⟩ := Option.isSome_iff_exists.mp
    (klSurfacesHandle_isSome ctx.refs p o.frame hs hd he)
  obtain ⟨l1, surf1, l2, surf', hsplit, h1, h2⟩ := klSurfacesHandle_some hr
  rw [klContextDispatch_some hd hr, h2]
  exact ⟨l1, surf1, l2, surf', hsplit, h1, rfl⟩

theorem klContextDispatch_moves {S : Scene} {ctx : KlContext} (hS : S.Shows ctx) {p : Proxy}
    {d : Listener} {e : ProxyEvent} (hp : S.table p = .live (some d)) (hl : ctx.Listens p d)
    (he : d.hasEvent e = true) (o : HandlerOutcomes)
    (ht : S.Takes (klContextDispatch ctx p d e o).2) :
    ∃ tt S', EventMoves S p d e (klContextDispatch ctx p d e o) tt S' := by
  rcases hl with ⟨rfl, -⟩ | ⟨rfl, -⟩ | ⟨surf, hs, lo, le, hm⟩
  · cases e <;> cases he
    case global.refl name iface => exact klRegistryHandleGlobal_moves hS p name iface o.global ht
    case globalRemove.refl name =>
      exact klRegistryHandleGlobalRemove_moves hS p name o.releasable
  · have hmove : Move S (tagged none [.event p .lock e]) S := S.move_quiet rfl p e
    cases e <;> cases he
    case locked.refl =>
      exact ⟨_, _, itemsOf_tagged _ _, hmove.single, ⟨hS.surfs, hS.lent⟩, fun a ha => Or.inr ha⟩
    case finished.refl =>
      exact ⟨_, _, itemsOf_tagged _ _, hmove.single, ⟨hS.surfs, hS.lent⟩, fun a ha => Or.inr ha⟩
  · obtain ⟨l1, surf1, l2, surf', hsplit, hr, hctx⟩ :=
      klContextDispatch_fn o hs (listener_surface_of_own hm) he
    have hmove := Move.fn S l1 l2 surf1 surf' ctx.refs _ (hS.surfs.trans hsplit) hS.lent
      (.handle p d e o.frame _ hp hr)
    refine ⟨_, _, itemsOf_tagged _ _, hmove.single, ⟨?_, ?_⟩, fun a ha => Or.inr ha⟩
    · rw [hctx]
    · rw [hctx]
      exact hS.lent

/-! ## One step of `main` -/

/-- What a step does to the scene. -/
structure StepMoves (S : Scene) (ctx : KlContext) (allocated : List SurfaceRef) (out : List Item)
    (tt : List Tagged) (S' : Scene) : Prop where
  items : itemsOf tt = out
  moves : Moves S tt S'
  shows : S'.Shows ctx
  taken : ∀ a ∈ S'.taken, a ∈ allocated

theorem plain_ofMain {ctx : KlContext} {cs : List Call} (h : Plain ctx cs) :
    ∀ c ∈ cs, c.ofMain = true := by
  intro c hc
  have hp := (h c hc).1
  cases c <;> first
    | rfl
    | exact absurd hp Bool.false_ne_true

/-- A step whose calls leave the surfaces `surfs`. -/
theorem Scene.Goes.step {S : Scene} {s s' : MainState} {pc : MainPc} {ctx : KlContext}
    {cs : List Call} {out : List Item} (h : S.Goes cs ctx.surfaces)
    (hm : s.Moved [] pc ctx cs s' out) (hrefs : ctx.refs.Within S.lent)
    (ht : ∀ a ∈ S.taken, a ∈ s.allocated) :
    ∃ tt S', StepMoves S s'.ctx s'.allocated out tt S' := by
  obtain ⟨tt, hitems, hmoves⟩ := h
  refine ⟨tt, _, hitems.trans hm.items.symm, hmoves, ⟨?_, ?_⟩, fun a ha => ?_⟩
  · rw [hm.ctx]
    rfl
  · rw [hm.ctx]
    exact hrefs
  · rw [hm.allocated]
    exact List.mem_append_right _ (ht a ha)

theorem klContextLockSession_moves {S : Scene} {ctx : KlContext} (hS : S.Shows ctx)
    (o : LockOutcomes) :
    ∃ tt S', itemsOf tt = calls (klContextLockSession ctx o).2.2 ∧ Moves S tt S' ∧
      S'.Shows (klContextLockSession ctx o).2.1 ∧ S'.taken = S.taken := by
  have hrefused : ∃ tt S', itemsOf tt = calls [] ∧ Moves S tt S' ∧ S'.Shows ctx ∧
      S'.taken = S.taken := ⟨[], S, rfl, .nil S, hS, rfl⟩
  unfold klContextLockSession
  split
  · rename_i manager compositor _ _
    split
    · exact hrefused
    · -- the lock is lent to the surfaces from here on
      have hlent : CtxRefs.Within { ctx.refs with lock := o.lock } (o.lock.toList ++ S.lent) := by
        have hkept : ctx.refs.Within (o.lock.toList ++ S.lent) :=
          hS.lent.mono fun q hq => List.mem_append_right _ hq
        exact ⟨hkept.1, hkept.2.1, fun q hq => List.mem_append_left _ (Option.mem_toList.mpr hq)⟩
      have hask : ∀ cs : List Call, (∀ c ∈ cs, c.ofMain = true) →
          ∃ S1, Move S
            (tagged none (calls (.extSessionLockManagerV1Lock manager o.lock :: cs))) S1 ∧
            S1.surfs = ctx.surfaces ∧ S1.lent = o.lock.toList ++ S.lent ∧ S1.taken = S.taken := by
        intro cs hcs
        refine ⟨_, .rest S _ o.lock (fun x hx => ?_) (fun q hq => ?_), hS.surfs, rfl, rfl⟩
        · obtain ⟨c, hc, rfl⟩ := List.mem_map.mp hx
          rcases List.mem_cons.mp hc with rfl | hc
          · rfl
          · exact hcs c hc
        · rw [itemActs_calls, hq]
          simp [Call.acts, created]
      cases hlock : o.lock with
      | none =>
        rw [hlock] at hask hlent
        obtain ⟨S1, hmade, hsurfs, hlent1, htaken⟩ := hask [] (by simp)
        exact ⟨_, S1, itemsOf_tagged _ _, hmade.single, ⟨hsurfs, hlent1 ▸ hlent⟩, htaken⟩
      | some lock =>
        rw [hlock] at hask hlent
        dsimp only
        obtain ⟨S1, hmade, hsurfs, hlent1, htaken⟩ :=
          hask [.extSessionLockV1AddListener lock o.addListener] (by simp [Call.ofMain])
        rw [← hlent1] at hlent
        split
        · exact ⟨_, S1, itemsOf_tagged _ _, hmade.single, ⟨hsurfs, hlent⟩, htaken⟩
        · obtain ⟨uu, hu, hm⟩ := klContextAttachAll_goes o.attach [] hlent hsurfs
          refine ⟨_, _, ?_, hmade.single.trans hm, ⟨rfl, hlent⟩, htaken⟩
          rw [itemsOf_append, itemsOf_tagged, hu, ← calls_append]
          rfl
  · exact hrefused

theorem UnlockStep.goes {S : Scene} {ctx ctx' : KlContext} {ok : Bool} {cs : List Call}
    (h : UnlockStep ctx ok ctx' cs) (hS : S.Shows ctx) :
    S.Goes cs ctx'.surfaces ∧ ctx'.refs.Within S.lent := by
  cases h with
  | refused h =>
    rw [← hS.surfs]
    exact ⟨S.goes_nil, hS.lent⟩
  | unlocked lock hl hlocked hf =>
    have hdetach := klContextDetachAll_goes [] hS.surfs
    refine ⟨hdetach.append (Scene.goes_rest _ ?_), hS.lent.1, hS.lent.2.1, by simp [KlContext.refs]⟩
    exact List.forall_mem_cons.mpr ⟨rfl, ofMain_toList_map ctx.display _ fun q => rfl⟩

theorem klContextInitConnect_refs (o : ConnectOutcomes) :
    (klContextInitConnect o).2.1.refs = ⟨none, none, none⟩ := by
  cases hd : o.display with
  | none => simp [klContextInitConnect, hd, KlContext.zeroed, KlContext.refs]
  | some display =>
    cases hr : o.registry with
    | none => simp [klContextInitConnect, hd, hr, KlContext.zeroed, KlContext.refs]
    | some registry =>
      cases hl : o.addListener <;>
        simp [klContextInitConnect, hd, hr, hl, KlContext.zeroed, KlContext.refs]

theorem klContextDestroyObjects_goes {S : Scene} {ctx : KlContext} (hS : S.Shows ctx)
    (releasable : SurfaceRef → Bool) :
    S.Goes (klContextDestroyObjects ctx releasable).2 [] := by
  obtain ⟨cs, he, hends⟩ := klContextDestroyObjects_calls ctx releasable
  have hcs : ∀ c ∈ cs, c.ofMain = true := by
    intro c hc
    have h := hends c hc
    cases c <;> first
      | rfl
      | exact absurd h Bool.false_ne_true
  have hlock : ∀ c ∈ ctx.lock.toList.map (klContextDestroyLock ctx), c.ofMain = true := by
    refine ofMain_toList_map ctx.lock _ fun p => ?_
    unfold klContextDestroyLock
    split <;> rfl
  rw [he, List.append_assoc]
  exact (klSurfaceDestroyAll_goes releasable hS.surfs).append
    (Scene.goes_rest _ (List.forall_mem_append.mpr ⟨hlock, hcs⟩))

/-- **Every step of `main`** is a chain of moves. -/
theorem mainMachine_moves {s s' : MainState} {tr : List Item} {i : MainInput} {out : List Item}
    (hok : MainOk s tr) (h : mainMachine.step s i = some (s', out)) {S : Scene}
    (hS : S.Shows s.ctx) (ht : S.table = s.table) (hborn : ∀ p ∈ S.lent, S.table p ≠ .unborn)
    (htaken : ∀ a ∈ S.taken, a ∈ s.allocated) :
    ∃ tt S', StepMoves S s'.ctx s'.allocated out tt S' := by
  by_cases hi : ∃ p e o, i = .deliver p e o
  · obtain ⟨p, e, o, rfl⟩ := hi
    simp only [mainMachine, MainState.step] at h
    split at h
    · rename_i d hp
      split at h
      · rename_i hd
        have hm := MainState.move_some h
        rw [← ht] at hp
        obtain ⟨tt, S', hmoves⟩ := klContextDispatch_moves hS hp
          (hok.listening.1 p d (ht ▸ hp)) hd.2 o
          ⟨hborn, ht ▸ hm.fresh, fun a ha hta => hm.new a ha (htaken a hta)⟩
        refine ⟨tt, S', hmoves.items.trans hm.items.symm, hmoves.moves, hm.ctx ▸ hmoves.shows,
          fun a ha => ?_⟩
        rw [hm.allocated]
        rcases hmoves.taken a ha with ha | ha
        · exact List.mem_append_left _ ha
        · exact List.mem_append_right _ (htaken a ha)
      · cases h
    · cases h
  by_cases hi' : ∃ o, i = .lock o
  · obtain ⟨o, rfl⟩ := hi'
    simp only [mainMachine, MainState.step] at h
    split at h
    · have hm := MainState.move_some h
      obtain ⟨tt, S', hitems, hmoves, hshows, htaken'⟩ := klContextLockSession_moves hS o
      refine ⟨tt, S', hitems.trans hm.items.symm, hmoves, hm.ctx ▸ hshows, fun a ha => ?_⟩
      rw [hm.allocated]
      exact List.mem_append_right _ (htaken a (htaken' ▸ ha))
    · cases h
  obtain ⟨pre, pc, ctx, cs, hm, hstep⟩ := mainMachine_step hok.listening h
  cases hstep with
  | deliver p d e o => exact absurd ⟨p, e, o, rfl⟩ hi
  | lock o => exact absurd ⟨o, rfl⟩ hi'
  | plain i pc cs hcs hpc =>
    have hgoes := S.goes_rest (plain_ofMain hcs)
    rw [hS.surfs] at hgoes
    exact hgoes.step hm hS.lent htaken
  | connect o pc hpc hpc' =>
    have hcs : ∀ c ∈ (klContextInitConnect o).2.2, c.ofMain = true := by
      intro c hc
      have h := klContextInitConnect_calls o c hc
      cases c <;> first
        | rfl
        | exact absurd h Bool.false_ne_true
    have hgoes := S.goes_rest hcs
    have hsurfs : S.surfs = (klContextInitConnect o).2.1.surfaces := by
      rw [hS.surfs, hok.start hpc, (klContextInitConnect_fields o).1]
      rfl
    rw [hsurfs] at hgoes
    refine hgoes.step hm ?_ htaken
    rw [klContextInitConnect_refs]
    exact within_none S.lent
  | unlock ret ok ctx cs hpc h =>
    obtain ⟨hgoes, hrefs⟩ := h.goes hS
    exact hgoes.step hm hrefs htaken
  | destroyObjects releasable ret hpc hd =>
    exact (klContextDestroyObjects_goes hS releasable).step hm (within_none S.lent) htaken
  | destroyAll releasable ret hpc hd =>
    exact (klContextDestroyObjects_goes hS releasable).step hm (within_none S.lent) htaken
  | destroyDisplay ok ret hpc =>
    have hcs : ∀ c ∈ (klContextDestroyDisplay s.ctx).2, c.ofMain = true :=
      ofMain_toList_map s.ctx.display _ fun q => rfl
    have hgoes := S.goes_rest hcs
    rw [hS.surfs] at hgoes
    have hsurfs : s.ctx.surfaces = (klContextDestroyDisplay s.ctx).1.surfaces := rfl
    rw [hsurfs] at hgoes
    exact hgoes.step hm hS.lent htaken

end Kirilock
