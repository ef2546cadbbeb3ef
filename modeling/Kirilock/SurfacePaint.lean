import Kirilock.SurfaceRetry

/-!
What a committed buffer shows.

`kl_surface_render_frame` draws into the buffer it has picked and commits it.  Whether
`kl_render_engine_draw` painted anything it is not told: where the sprite has to be baked
anew and cairo refuses, nothing is painted, not even the background, and the buffer is
committed as it is.

* `KlRenderEngine.Baked`: the sprite is cached at the scale, or baking it succeeds.
* `painted_iff`: the runs in which every commit is of a painted buffer are those in which
  every frame that is drawn finds its sprite.
-/

namespace Kirilock

open Runs Ownership

/-! ## The engine -/

/-- The sprite is cached at `scale`, or baking it succeeds. -/
def KlRenderEngine.Baked (engine : KlRenderEngine) (scale : Int32) (o : BakeOutcomes) : Prop :=
  (engine.bakedSurface.isSome = true ∧ engine.bakedPattern.isSome = true ∧
    engine.cachedScale = scale) ∨
  o.surfaceOk = true ∧ o.crOk = true ∧ o.patternOk = true

def Call.paints : Call → Bool
  | .cairoPaintBackground _ => true
  | .cairoPaintSprite .. => true
  | _ => false

theorem BakeStep.made_iff {scale : Int32} {o : BakeOutcomes} {ok : Bool} {engine : KlRenderEngine}
    {cs : List Call} (h : BakeStep scale o ok engine cs) :
    ok = true ↔ o.surfaceOk = true ∧ o.crOk = true ∧ o.patternOk = true := by
  cases h with
  | noSurface hs => simp [hs]
  | noContext hs hc => simp [hc]
  | noPattern hs hc hp => simp [hp]
  | baked hs hc hp => exact iff_of_true rfl ⟨hs, hc, hp⟩

theorem EnsureStep.baked_iff {engine engine' : KlRenderEngine} {scale : Int32} {o : BakeOutcomes}
    {ok : Bool} {cs : List Call} (h : EnsureStep engine scale o ok engine' cs) :
    ok = true ↔ engine.Baked scale o := by
  cases h with
  | cached h => exact iff_of_true rfl (Or.inl h)
  | rebuilt hmiss h => exact h.made_iff.trans (or_iff_right hmiss).symm

theorem EnsureStep.unpainted {engine engine' : KlRenderEngine} {scale : Int32} {o : BakeOutcomes}
    {ok : Bool} {cs : List Call} (h : EnsureStep engine scale o ok engine' cs) :
    ∀ c ∈ cs, c.paints = false := by
  have hclean : ∀ c ∈ (klRenderCleanupBaked engine).2, c.paints = false := by
    unfold klRenderCleanupBaked
    cases engine.bakedPattern <;> cases engine.bakedSurface <;> simp [Call.paints]
  cases h with
  | cached h => nofun
  | rebuilt hmiss h =>
    refine List.forall_mem_append.mpr ⟨hclean, ?_⟩
    cases h <;> simp [Call.paints, bakeCalls]

/-- **What `kl_render_engine_draw` paints**: background and sprite, or nothing. -/
theorem klRenderEngineDraw_spec (engine : KlRenderEngine) (cr : CairoRef) {width height : UInt32}
    (hw : width ≠ 0) (hh : height ≠ 0) (scale : Int32) (o : BakeOutcomes) :
    (klRenderEngineDraw (some engine) (some cr) width height scale o).1.isSome = true ∧
    (engine.Baked (klRenderScale scale) o → ∃ cs pattern,
      (klRenderEngineDraw (some engine) (some cr) width height scale o).2 =
        cs ++ [Call.cairoPaintBackground cr, .cairoPaintSprite cr pattern (klRenderScale scale)]) ∧
    (¬engine.Baked (klRenderScale scale) o →
      ∀ c ∈ (klRenderEngineDraw (some engine) (some cr) width height scale o).2,
        c.paints = false) := by
  obtain ⟨engine', he, hstep⟩ := klRenderEngineDraw_step engine (some cr) width height scale o
  refine ⟨by rw [he]; rfl, ?_⟩
  generalize (klRenderEngineDraw (some engine) (some cr) width height scale o).2 = cs at hstep ⊢
  cases hstep with
  | skipped h => exact absurd h (by simp [hw, hh])
  | failed h =>
    exact ⟨fun hb => absurd (h.baked_iff.mpr hb) Bool.false_ne_true, fun _ => h.unpainted⟩
  | @blitted _ cs c pattern hcr hsize h hp =>
    cases hcr
    exact ⟨fun _ => ⟨cs, pattern, rfl⟩, fun hb => absurd (h.baked_iff.mp rfl) hb⟩

/-! ## One frame -/

/-- What the drawing relies on: there is an engine, and a buffer with a `wl_buffer` has its
cairo context. -/
structure KlSurface.Paintable (surf : KlSurface) : Prop where
  engine : surf.engine.isSome = true
  scale : 0 < surf.scale
  cr : ∀ i, (surf.buffers i).wlBuffer.isSome = true → (surf.buffers i).cr.isSome = true

/-- A frame is drawn: past the checks a buffer is free, and fits or is created. -/
def KlSurface.Draws (refs : CtxRefs) (surf : KlSurface) (o : FrameOutcomes) : Prop :=
  surf.Entered ∧ ∃ i, (klSurfaceGetFreeBuffer surf).2 = some i ∧ surf.BufferMade refs i o

/-- The sprite of the surface's scale is cached in its engine, or cairo makes it. -/
def KlSurface.SpriteMade (surf : KlSurface) (o : BakeOutcomes) : Prop :=
  ∀ engine ∈ surf.engine, engine.Baked surf.scale o

def Call.commits : Call → Bool
  | .wlSurfaceCommit _ => true
  | _ => false

/-- In the calls of a handler, a commit follows the drawing of the committed buffer: its
background and then its sprite, at its scale, into its context and for its size. -/
def Paints (surf : KlSurface) (cs : List Call) : Prop :=
  ∀ pre ws post, cs = pre ++ .wlSurfaceCommit ws :: post →
    ∃ i wb cr pattern elapsedNs, (surf.buffers i).wlBuffer = some wb ∧
      (surf.buffers i).cr = some cr ∧
      List.Sublist (Call.klSurfaceRenderFrame surf.addr :: klBufferPrepare (surf.buffers i) ++
        [Call.klRenderEngineDraw (surf.ref i) (some wb) (surf.buffers i).width
            (surf.buffers i).height (surf.buffers i).scale elapsedNs,
          .cairoPaintBackground cr, .cairoPaintSprite cr pattern (surf.buffers i).scale,
          .wlSurfaceAttach ws (some wb)]) pre

theorem Call.Sized.unpainted {physWidth physHeight : UInt32} {stride : Int32} {c : Call}
    (h : c.Sized physWidth physHeight stride) : c.paints = false ∧ c.commits = false := by
  cases c <;> first
    | exact absurd h not_false
    | exact ⟨rfl, rfl⟩

theorem klRenderScale_of_pos {scale : Int32} (h : 0 < scale) : klRenderScale scale = scale := by
  unfold klRenderScale
  refine if_neg fun hlt => ?_
  rw [Int32.lt_iff_toInt_lt] at h hlt
  simp at h hlt
  omega

/-- The buffer that is drawn into, and what was done for it. -/
theorem klSurfaceRenderFrameBuffer_cr (refs : CtxRefs) {surf : KlSurface} (hp : surf.Paintable)
    (i : Slot) (o : FrameOutcomes) :
    (∀ c ∈ (klSurfaceRenderFrameBuffer refs surf i o).2.2, c.paints = false ∧ c.commits = false) ∧
    ((klSurfaceRenderFrameBuffer refs surf i o).1 = true →
      ((klSurfaceRenderFrameBuffer refs surf i o).2.1.buffers i).cr.isSome = true) := by
  unfold klSurfaceRenderFrameBuffer
  dsimp only
  split
  · have hd := klBufferDestroy_sized (surf.ref i) (surf.buffers i) 0 0 0
    have hc := klBufferCreate_sized refs.shm (surf.ref i)
      (klBufferDestroy (surf.ref i) (surf.buffers i)).1 surf.width surf.height surf.scale
      (some .klSurfaceOnBufferRelease) (some surf.addr) o.buffer
    refine ⟨List.forall_mem_append.mpr ⟨fun c h => (hd c h).1.unpainted, fun c h =>
      (hc c h).unpainted⟩, fun h => ?_⟩
    obtain ⟨hacc, hheight, ho⟩ := (klBufferCreate_true_iff _ _ _ _ _ _ _ _ _).mp h
    obtain ⟨shm, hshm⟩ := Option.isSome_iff_exists.mp hacc.shm
    rw [hshm] at hacc
    obtain ⟨fd, data, pool, wb, cs, ds, -, -, -, -, hb, -⟩ := klBufferCreate_succeed (surf.ref i)
      (klBufferDestroy (surf.ref i) (surf.buffers i)).1 surf.width surf.height surf.scale
      (some .klSurfaceOnBufferRelease) (some surf.addr) o.buffer hacc hheight ho
    rw [setBuffer_self, hshm, hb]
    rfl
  · rename_i hsize
    push Not at hsize
    exact ⟨nofun, fun _ => hp.cr i (Option.isSome_iff_ne_none.mpr hsize.2.2.2)⟩

/-- A frame that is drawn: its buffer, its calls and the surface it leaves. -/
theorem klSurfaceRenderFrame_drawn (refs : CtxRefs) {surf : KlSurface} (hwf : surf.WellFormed)
    (hp : surf.Paintable) (o : FrameOutcomes) (hd : surf.Draws refs o) :
    ∃ ws i b wb cr c1 t0 t1 elapsedNs, b.Fits surf wb ∧ b.cr = some cr ∧
      (∀ c ∈ c1, c.paints = false ∧ c.commits = false) ∧
      (klSurfaceRenderFrame refs surf o).1 = surf.committed i b
        (klRenderEngineDraw surf.engine (some cr) surf.width surf.height surf.scale o.bake).1 t0 t1
        o.callback ∧
      (klSurfaceRenderFrame refs surf o).2 = frameEntry surf (some i) ++ c1 ++
        (klBufferPrepare b ++ [Call.klRenderEngineDraw (surf.ref i) (some wb) surf.width
          surf.height surf.scale elapsedNs] ++
          (klRenderEngineDraw surf.engine (some cr) surf.width surf.height surf.scale o.bake).2 ++
          klBufferFlush b) ++ frameCommit surf ws wb o := by
  obtain ⟨hentered, j, hj, hmade⟩ := hd
  have hcase := klSurfaceRenderFrame_case refs surf o
  generalize (klSurfaceRenderFrame refs surf o).1 = surf' at hcase ⊢
  generalize (klSurfaceRenderFrame refs surf o).2 = cs at hcase ⊢
  cases hcase with
  | skipped hno => exact absurd hentered hno
  | noBuffer _ hi => exact absurd (hi.symm.trans hj) nofun
  | createFailed _ i hi hfree buf hbuf hr =>
    obtain rfl : i = j := Option.some.inj (hi.symm.trans hj)
    rw [← hbuf] at hr
    rw [(klSurfaceRenderFrameBuffer_true_iff refs (surf.setCurrent i) i o).mpr hmade] at hr
    cases hr
  | drawn _ ws hws i hi hfree buf hbuf hr draw hdraw =>
    obtain ⟨b, hb, -, hfits, -⟩ :=
      klSurfaceRenderFrameBuffer_spec refs (hwf.setCurrent i) (i := i) hfree o
    have hp' : (surf.setCurrent i).Paintable := ⟨hp.engine, hp.scale, hp.cr⟩
    obtain ⟨hcalls, hcr⟩ := klSurfaceRenderFrameBuffer_cr refs hp' i o
    rw [hbuf] at hb hfits hcalls hcr
    obtain ⟨wb, hwb⟩ := hfits hr
    have hcr := hcr hr
    rw [hb, setBuffer_self] at hcr
    obtain ⟨cr, hcr⟩ := Option.isSome_iff_exists.mp hcr
    rw [hb] at hdraw
    obtain ⟨t0, t1, el, hs, hdr, hcommit⟩ :=
      klSurfaceRenderFrameCommit_eq surf ws i b hwb.wlBuffer o draw hdraw _ rfl
    rw [hcr] at hs hdr
    refine ⟨ws, i, b, wb, cr, buf.2.2, t0, t1, el, hwb, hcr, hcalls, hs, ?_⟩
    rw [hdr, hcommit]
    simp only [List.append_assoc, List.cons_append, List.nil_append]

theorem klSurfaceRenderFrame_still (refs : CtxRefs) {surf : KlSurface} (hp : surf.Paintable)
    (o : FrameOutcomes) (hd : ¬surf.Draws refs o) :
    ∀ c ∈ (klSurfaceRenderFrame refs surf o).2, c.commits = false := by
  have hcase := klSurfaceRenderFrame_case refs surf o
  generalize (klSurfaceRenderFrame refs surf o).1 = surf' at hcase
  generalize (klSurfaceRenderFrame refs surf o).2 = cs at hcase ⊢
  cases hcase with
  | skipped => simp [Call.commits]
  | noBuffer => simp [frameEntry, Call.commits]
  | createFailed _ i hi hfree buf hbuf hr =>
    have hp' : (surf.setCurrent i).Paintable := ⟨hp.engine, hp.scale, hp.cr⟩
    have hcalls := (klSurfaceRenderFrameBuffer_cr refs hp' i o).1
    rw [hbuf] at hcalls
    exact List.forall_mem_append.mpr ⟨by simp [frameEntry, Call.commits], fun c h =>
      (hcalls c h).2⟩
  | drawn hentered ws hws i hi hfree buf hbuf hr draw hdraw =>
    rw [← hbuf] at hr
    exact absurd ⟨hentered, i, hi, (klSurfaceRenderFrameBuffer_true_iff refs (surf.setCurrent i) i
      o).mp hr⟩ hd

theorem klSurfaceRenderFrame_paintable (refs : CtxRefs) {surf : KlSurface}
    (hwf : surf.WellFormed) (hp : surf.Paintable) (o : FrameOutcomes) :
    (klSurfaceRenderFrame refs surf o).1.Paintable := by
  by_cases hd : surf.Draws refs o
  · obtain ⟨ws, i, b, wb, cr, c1, t0, t1, el, hfits, hcr, -, hs, -⟩ :=
      klSurfaceRenderFrame_drawn refs hwf hp o hd
    obtain ⟨engine, he⟩ := Option.isSome_iff_exists.mp hp.engine
    have hengine := (klRenderEngineDraw_spec engine cr hd.1.width hd.1.height surf.scale o.bake).1
    rw [hs, he]
    refine ⟨hengine, hp.scale, fun j hj => ?_⟩
    by_cases hji : j = i
    · subst hji
      simp [KlSurface.committed, hcr]
    · simp only [KlSurface.committed, Function.update_of_ne hji] at hj ⊢
      exact hp.cr j hj
  · have hcase := klSurfaceRenderFrame_case refs surf o
    generalize (klSurfaceRenderFrame refs surf o).1 = surf' at hcase ⊢
    generalize (klSurfaceRenderFrame refs surf o).2 = cs at hcase
    cases hcase with
    | skipped => exact hp
    | noBuffer => exact ⟨hp.engine, hp.scale, hp.cr⟩
    | createFailed _ i hi hfree buf hbuf hr =>
      obtain ⟨b, hb, -, -, hblank⟩ :=
        klSurfaceRenderFrameBuffer_spec refs (hwf.setCurrent i) (i := i) hfree o
      rw [hbuf] at hb hblank
      rw [hb]
      refine ⟨hp.engine, hp.scale, fun j hj => ?_⟩
      by_cases hji : j = i
      · subst hji
        rw [setBuffer_self, (hblank hr).1.wlBuffer] at hj
        cases hj
      · rw [setBuffer_of_ne _ _ hji] at hj ⊢
        exact hp.cr j hj
    | drawn hentered ws hws i hi hfree buf hbuf hr draw hdraw =>
      rw [← hbuf] at hr
      exact absurd ⟨hentered, i, hi, (klSurfaceRenderFrameBuffer_true_iff refs (surf.setCurrent i)
        i o).mp hr⟩ hd

/-- The last call of a frame is the only commit. -/
theorem eq_of_append_commit {init pre post : List Call} {ws ws' : Proxy}
    (hinit : ∀ c ∈ init, c.commits = false)
    (h : init ++ [Call.wlSurfaceCommit ws] = pre ++ .wlSurfaceCommit ws' :: post) :
    pre = init ∧ ws' = ws := by
  rcases List.append_eq_append_iff.mp h with ⟨as, rfl, has⟩ | ⟨bs, rfl, hbs⟩
  · cases as with
    | nil =>
      simp only [List.nil_append, List.cons.injEq, Call.wlSurfaceCommit.injEq] at has
      exact ⟨List.append_nil _, has.1.symm⟩
    | cons a as => simp at has
  · cases bs with
    | nil =>
      simp only [List.nil_append, List.cons.injEq, Call.wlSurfaceCommit.injEq] at hbs
      exact ⟨(List.append_nil _).symm, hbs.1⟩
    | cons b bs =>
      simp only [List.cons_append, List.cons.injEq] at hbs
      have hb := hinit b (by simp)
      rw [← hbs.1] at hb
      cases hb

theorem frameListen_uncommitted (surf : KlSurface) (o : FrameOutcomes) :
    ∀ c ∈ frameListen surf o, c.paints = false ∧ c.commits = false := by
  unfold frameListen
  cases o.frame with
  | none => simp
  | some cb => cases o.addListener <;> simp [Call.paints, Call.commits]

theorem klBufferPrepare_still (buf : KlBuffer) :
    ∀ c ∈ klBufferPrepare buf, c.paints = false ∧ c.commits = false := by
  unfold klBufferPrepare
  cases buf.cr with
  | none => simp
  | some cr => by_cases h : 1 < buf.scale <;> simp [h, Call.paints, Call.commits]

theorem klBufferFlush_still (buf : KlBuffer) :
    ∀ c ∈ klBufferFlush buf, c.paints = false ∧ c.commits = false := by
  unfold klBufferFlush
  cases buf.cairoSurface <;> simp [Call.paints, Call.commits]

theorem uncommitted_of_backing {cs : List Call} (h : cs.all Call.backing) :
    ∀ c ∈ cs, c.commits = false := by
  intro c hc
  have hb := List.all_eq_true.mp h c hc
  cases c <;> first
    | exact absurd hb Bool.false_ne_true
    | rfl

/-- **One frame that is drawn** is painted if its sprite is made, and otherwise commits a
buffer that nothing was painted on. -/
theorem klSurfaceRenderFrame_paints (refs : CtxRefs) {surf : KlSurface} (hwf : surf.WellFormed)
    (hp : surf.Paintable) (o : FrameOutcomes) (hd : surf.Draws refs o) {cs : List Call}
    (hcs : ∀ c ∈ cs, c.paints = false ∧ c.commits = false) :
    Paints (klSurfaceRenderFrame refs surf o).1 (cs ++ (klSurfaceRenderFrame refs surf o).2) ↔
      surf.SpriteMade o.bake := by
  obtain ⟨ws, i, b, wb, cr, c1, t0, t1, el, hfits, hcr, hc1, hs, hcalls⟩ :=
    klSurfaceRenderFrame_drawn refs hwf hp o hd
  obtain ⟨engine, he⟩ := Option.isSome_iff_exists.mp hp.engine
  obtain ⟨-, hbaked, hunbaked⟩ := klRenderEngineDraw_spec engine cr hd.1.width hd.1.height
    surf.scale o.bake
  have hinert := klRenderEngineDraw_inert surf.engine (some cr) surf.width surf.height surf.scale
    o.bake
  rw [klRenderScale_of_pos hp.scale] at hbaked hunbaked
  rw [hs, hcalls]
  rw [he] at hinert ⊢
  generalize klRenderEngineDraw (some engine) (some cr) surf.width surf.height surf.scale o.bake =
    sprite at hbaked hunbaked hinert ⊢
  have hsprite : surf.SpriteMade o.bake ↔ engine.Baked surf.scale o.bake := by
    simp [KlSurface.SpriteMade, he]
  let init := cs ++ (frameEntry surf (some i) ++ c1) ++ (klBufferPrepare b ++
    [Call.klRenderEngineDraw (surf.ref i) (some wb) surf.width surf.height surf.scale el]) ++
    (sprite.2 ++ klBufferFlush b) ++ ([Call.wlSurfaceSetBufferScale ws surf.scale,
      .wlSurfaceAttach ws (some wb), .wlSurfaceDamage ws surf.width.toInt32 surf.height.toInt32,
      .wlSurfaceFrame ws o.frame] ++ frameListen surf o)
  have hsplit : cs ++ (frameEntry surf (some i) ++ c1 ++ (klBufferPrepare b ++
      [Call.klRenderEngineDraw (surf.ref i) (some wb) surf.width surf.height surf.scale el] ++
        sprite.2 ++ klBufferFlush b) ++ frameCommit surf ws wb o) =
      init ++ [Call.wlSurfaceCommit ws] := by
    simp [init, frameCommit]
  have hinit : ∀ c ∈ init, c.commits = false := by
    simp only [init, List.forall_mem_append]
    refine ⟨⟨⟨⟨fun c h => (hcs c h).2, by simp [frameEntry, Call.commits], fun c h => (hc1 c h).2⟩,
      fun c h => (klBufferPrepare_still b c h).2, by simp [Call.commits]⟩,
      uncommitted_of_backing hinert.backing, fun c h => (klBufferFlush_still b c h).2⟩,
      by simp [Call.commits], fun c h => (frameListen_uncommitted surf o c h).2⟩
  rw [hsplit, hsprite]
  constructor
  · intro h
    by_contra hb
    have hunpainted : ∀ c ∈ init, c.paints = false := by
      simp only [init, List.forall_mem_append]
      exact ⟨⟨⟨⟨fun c h => (hcs c h).1, by simp [frameEntry, Call.paints], fun c h => (hc1 c h).1⟩,
        fun c h => (klBufferPrepare_still b c h).1, by simp [Call.paints]⟩, hunbaked hb,
        fun c h => (klBufferFlush_still b c h).1⟩, by simp [Call.paints], fun c h =>
        (frameListen_uncommitted surf o c h).1⟩
    obtain ⟨j, wb', cr', pattern, el', -, -, hsub⟩ := h init ws [] rfl
    exact absurd (hunpainted (.cairoPaintBackground cr') (hsub.subset (by simp))) (by rintro ⟨⟩)
  · intro hb pre ws' post hpre
    obtain ⟨rfl, rfl⟩ := eq_of_append_commit hinit hpre
    obtain ⟨cs0, pattern, hpaint⟩ := hbaked hb
    have hdrawn : (surf.committed i b sprite.1 t0 t1 o.callback).buffers i =
        { b with busy := true } := by simp [KlSurface.committed]
    refine ⟨i, wb, cr, pattern, el, ?_, ?_, ?_⟩
    · rw [hdrawn]
      exact hfits.wlBuffer
    · rw [hdrawn]
      exact hcr
    · rw [hdrawn]
      have hentry : [Call.klSurfaceRenderFrame surf.addr].Sublist
          (cs ++ (frameEntry surf (some i) ++ c1)) :=
        List.singleton_sublist.mpr (by simp [frameEntry])
      have hpainted : [Call.cairoPaintBackground cr, .cairoPaintSprite cr pattern
          surf.scale].Sublist (sprite.2 ++ klBufferFlush b) := by
        rw [hpaint, List.append_assoc]
        exact (List.sublist_append_left _ _).trans (List.sublist_append_right _ _)
      have hattach : [Call.wlSurfaceAttach ws' (some wb)].Sublist
          ([Call.wlSurfaceSetBufferScale ws' surf.scale, .wlSurfaceAttach ws' (some wb),
            .wlSurfaceDamage ws' surf.width.toInt32 surf.height.toInt32,
            .wlSurfaceFrame ws' o.frame] ++ frameListen surf o) :=
        List.singleton_sublist.mpr (by simp)
      have hall := ((hentry.append (List.Sublist.refl (klBufferPrepare b ++
        [Call.klRenderEngineDraw (surf.ref i) (some wb) surf.width surf.height surf.scale
          el]))).append hpainted).append hattach
      have hprepare : klBufferPrepare { b with busy := true } = klBufferPrepare b := rfl
      have haddr : (surf.committed i b sprite.1 t0 t1 o.callback).addr = surf.addr := rfl
      have href : (surf.committed i b sprite.1 t0 t1 o.callback).ref i = surf.ref i := rfl
      rw [hprepare, haddr, href]
      simp only [hfits.width, hfits.height, hfits.scale]
      simpa [init] using hall

/-! ## Every run -/

/-- The condition on a step: a frame that it draws finds its sprite, or can make it. -/
def SpritesMade (s : SurfaceState) : SurfaceInput → Prop
  | .deliver refs p e o => ∀ d mid, s.table p = .live (some d) → s.surf.entry d e = some mid →
      mid.Draws refs o → mid.SpriteMade o.bake
  | _ => True

def Item.call? : Item → Option Call
  | .call c => some c
  | _ => none

theorem filterMap_call? (cs : List Call) : (calls cs).filterMap Item.call? = cs := by
  induction cs with
  | nil => rfl
  | cons c cs ih =>
    show c :: (calls cs).filterMap Item.call? = c :: cs
    rw [ih]

/-- Every commit of a step is of a painted buffer. -/
def CommitsPainted (env : List Proxy) (s : SurfaceState) (i : SurfaceInput) : Prop :=
  ∀ s' out, (surfaceMachine env).step s i = some (s', out) →
    Paints s'.surf (out.filterMap Item.call?)

theorem paints_of_uncommitted (surf : KlSurface) {cs : List Call}
    (h : ∀ c ∈ cs, c.commits = false) : Paints surf cs := by
  rintro pre ws post rfl
  exact absurd (h (.wlSurfaceCommit ws) (by simp)) nofun

theorem Prepared.still {surf mid : KlSurface} {p : Proxy} {d : Listener} {e : ProxyEvent}
    {pre : List Call} (h : Prepared surf p d e mid pre) :
    ∀ c ∈ pre, c.paints = false ∧ c.commits = false := by
  cases h <;> simp [Call.paints, Call.commits]

theorem Prepared.paintable {surf mid : KlSurface} {p : Proxy} {d : Listener} {e : ProxyEvent}
    {pre : List Call} (h : Prepared surf p d e mid pre) (hp : surf.Paintable) :
    mid.Paintable := by
  cases h with
  | other | sameScale => exact hp
  | scale factor hf => exact ⟨hp.engine, hf, hp.cr⟩
  | configure | done => exact ⟨hp.engine, hp.scale, hp.cr⟩
  | release i hwb =>
    refine ⟨hp.engine, hp.scale, fun j hj => ?_⟩
    rw [KlSurface.released, klBufferHandleRelease_fst] at hj ⊢
    by_cases hji : j = i
    · subst hji
      rw [setBuffer_self] at hj ⊢
      exact hp.cr j hj
    · rw [setBuffer_of_ne _ _ hji] at hj ⊢
      exact hp.cr j hj

/-- What a step does to a surface that can be painted. -/
theorem surfaceMachine_paints {env : List Proxy} {s s' : SurfaceState} {i : SurfaceInput}
    {out : List Item} (hok : SurfaceOk env s) (hp : s.surf.Paintable)
    (h : (surfaceMachine env).step s i = some (s', out)) :
    s'.surf.Paintable ∧ (Paints s'.surf (out.filterMap Item.call?) ↔ SpritesMade s i) := by
  cases i with
  | attach refs o =>
    obtain ⟨surf, pre, cs, hmove, -, rfl, rfl⟩ := surfaceMachine_step hok h
    cases hmove with
    | attach refs o ok surf cs hrefs ha =>
      rw [List.nil_append, filterMap_call?]
      refine ⟨?_, iff_of_true (paints_of_uncommitted _ ?_) trivial⟩
      · cases ha <;> exact ⟨hp.engine, hp.scale, hp.cr⟩
      · cases ha <;> simp [Call.commits]
  | detach =>
    obtain ⟨surf, pre, cs, hmove, -, rfl, rfl⟩ := surfaceMachine_step hok h
    cases hmove with
    | detach surf surf' cs hd hbufs =>
      rw [List.nil_append, filterMap_call?]
      refine ⟨⟨?_, ?_, fun i hi => ?_⟩, iff_of_true (paints_of_uncommitted _ ?_) trivial⟩
      · show surf.engine.isSome = true
        rw [hd.engine]
        exact hp.engine
      · show 0 < surf.scale
        rw [hd.scale]
        exact hp.scale
      · change (surf.buffers i).wlBuffer.isSome = true at hi
        rw [(hd.blank i).wlBuffer] at hi
        cases hi
      · simp only [detachCalls, List.cons_append, List.forall_mem_cons, List.forall_mem_append]
        refine ⟨rfl, ⟨⟨?_, uncommitted_of_backing hbufs.backing⟩, ?_⟩, ?_⟩
        · cases s.surf.frameCallback <;> simp [Call.commits]
        · cases s.surf.extLockSurface <;> simp [Call.commits]
        · cases s.surf.wlSurface <;> simp [Call.commits]
  | deliver refs p e o =>
    obtain ⟨d, r, -, hlive, hentry, -, rfl, rfl⟩ := surfaceMachine_deliver hok h
    have hcond : SpritesMade s (.deliver refs p e o) ↔ ∀ mid, s.surf.entry d e = some mid →
        mid.Draws refs o → mid.SpriteMade o.bake := by
      refine ⟨fun h mid => h d mid hlive, fun h d' mid hlive' => ?_⟩
      rw [hlive] at hlive'
      cases hlive'
      exact h mid
    have hcalls : ([Item.event p d e] ++ calls r.2).filterMap Item.call? = r.2 := by
      rw [List.filterMap_append, filterMap_call?]
      rfl
    rw [hcalls, hcond]
    cases hentry with
    | rests mid pre hpre hentry hrest =>
      refine ⟨hpre.paintable hp, iff_of_true (paints_of_uncommitted _ fun c hc =>
        (hpre.still c hc).2) fun mid' he => ?_⟩
      rw [hentry] at he
      cases he
    | draws mid pre hpre hentry =>
      have hwf := (hpre.handled refs hok.wellFormed).wellFormed
      have hmid := hpre.paintable hp
      refine ⟨klSurfaceRenderFrame_paintable refs hwf hmid o, ?_⟩
      have hcond' : (∀ mid', s.surf.entry d e = some mid' → mid'.Draws refs o →
          mid'.SpriteMade o.bake) ↔ (mid.Draws refs o → mid.SpriteMade o.bake) := by
        refine ⟨fun h => h mid hentry, fun h mid' he => ?_⟩
        rw [hentry] at he
        cases he
        exact h
      rw [hcond']
      by_cases hd : mid.Draws refs o
      · exact (klSurfaceRenderFrame_paints refs hwf hmid o hd hpre.still).trans
          ⟨fun h _ => h, fun h => h hd⟩
      · refine iff_of_true (paints_of_uncommitted _ (List.forall_mem_append.mpr ⟨fun c hc =>
          (hpre.still c hc).2, klSurfaceRenderFrame_still refs hmid o hd⟩)) fun h => absurd h hd

theorem klSurfaceCreate_paintable {output : Proxy} {name : UInt32} {o : CreateOutcomes}
    {surf : KlSurface} (h : (klSurfaceCreate output name o).1 = some surf) : surf.Paintable := by
  obtain ⟨addr, rfl⟩ := klSurfaceCreate_some h
  have hscale : (0 : Int32) < 1 := by decide
  refine ⟨rfl, hscale, fun i hi => ?_⟩
  cases hi

theorem surfaceMachine_paintable {env : List Proxy} {s : SurfaceState} {tr : List Item}
    (h : (surfaceMachine env).Reach s tr) : s.surf.Paintable := by
  refine h.invariant_of (I := fun s _ => s.surf.Paintable) surfaceMachine_ok (fun s hi => ?_) ?_
  · obtain ⟨-, output, name, o, hc⟩ := surfaceMachine_init hi
    exact klSurfaceCreate_paintable hc
  · intro s tr i s' out hok hp _ hs
    exact (surfaceMachine_paints hok hp hs).1

/-- **The runs in which every committed buffer was painted in the same call** are those in
which every frame that is drawn finds its sprite, or can make it. -/
theorem painted_iff {env : List Proxy} {s : SurfaceState} {tr : List Item} :
    (surfaceMachine env).ReachIf (fun s _ i => CommitsPainted env s i) s tr ↔
      (surfaceMachine env).ReachIf (fun s _ i => SpritesMade s i) s tr := by
  refine Machine.reachIf_congr fun s tr i s' out hr hs => ?_
  have hp := (surfaceMachine_paints (surfaceMachine_ok hr) (surfaceMachine_paintable hr) hs).2
  rw [← hp]
  constructor
  · exact fun h => h s' out hs
  · intro h s1 out1 hs1
    rw [hs] at hs1
    cases hs1
    exact h

/-- The first frame, for which cairo has no surface to bake the sprite on. -/
def unbakedFrame : FrameOutcomes :=
  { sampleFrame 12 13 with bake := { (sampleFrame 12 13).bake with surfaceOk := false } }

def unbakedInputs : List SurfaceInput :=
  [.attach sampleRefs ⟨some 10, some 11, true⟩]

theorem unbakedRun_isSome :
    ((surfaceMachine [1, 2, 3]).exec sampleStart unbakedInputs).isSome = true := by
  decide

def unbakedRun : SurfaceState × List Item :=
  ((surfaceMachine [1, 2, 3]).exec sampleStart unbakedInputs).get unbakedRun_isSome

def unbakedInput : SurfaceInput :=
  .deliver sampleRefs 11 (.configure 7 1920 1080) unbakedFrame

theorem unbakedStep_isSome :
    ((surfaceMachine [1, 2, 3]).step unbakedRun.1 unbakedInput).isSome = true := by
  decide

def unbakedStep : SurfaceState × List Item :=
  ((surfaceMachine [1, 2, 3]).step unbakedRun.1 unbakedInput).get unbakedStep_isSome

/-- **A buffer is committed that nothing was painted on** where the sprite cannot be baked. -/
theorem commit_unpainted :
    (surfaceMachine [1, 2, 3]).Reach unbakedRun.1 unbakedRun.2 ∧
    (surfaceMachine [1, 2, 3]).step unbakedRun.1 unbakedInput = some unbakedStep ∧
    (unbakedStep.2.filterMap Item.call?).any Call.commits = true ∧
    (unbakedStep.2.filterMap Item.call?).any Call.paints = false ∧
    ¬CommitsPainted [1, 2, 3] unbakedRun.1 unbakedInput := by
  have hstep := (Option.some_get unbakedStep_isSome).symm
  have hcommits : (unbakedStep.2.filterMap Item.call?).any Call.commits = true := by
    decide
  have hpaints : (unbakedStep.2.filterMap Item.call?).any Call.paints = false := by
    decide
  refine ⟨Machine.reach_exec sampleStart_init unbakedRun_isSome, hstep, hcommits, hpaints,
    fun h => ?_⟩
  obtain ⟨c, hc, hcommit⟩ := List.any_eq_true.mp hcommits
  obtain ⟨pre, post, he⟩ := List.append_of_mem hc
  obtain ⟨ws, rfl⟩ : ∃ ws, c = .wlSurfaceCommit ws := by
    cases c <;> first
      | exact absurd hcommit Bool.false_ne_true
      | exact ⟨_, rfl⟩
  obtain ⟨i, wb, cr, pattern, el, -, -, hsub⟩ := h _ _ hstep pre ws post he
  have hmem : Call.cairoPaintBackground cr ∈ unbakedStep.2.filterMap Item.call? := by
    rw [he]
    exact List.mem_append_left _ (hsub.subset (by simp))
  exact List.any_eq_false.mp hpaints _ hmem rfl

end Kirilock
