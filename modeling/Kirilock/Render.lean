import Kirilock.Calls

/-!
`render.c`: the baked sprite, cached by scale, and the drawing of one frame.

The doubles (the pulse of the animation, the centring of the sprite) have no
effect on which calls are made and are left out; the scale crosses as a double
only to be cast back to `int`, which is exact for an `int32_t`.
-/

namespace Kirilock

/-- `KL_BASE_TEXTURE_DIM` -/
def klBaseTextureDim : Int32 := 256

/-- `struct kl_render_engine`; `none` is `NULL`. -/
structure KlRenderEngine where
  bakedSurface : Option CairoRef
  bakedPattern : Option CairoRef
  cachedScale : Int32
  bakedDim : Int32
  deriving DecidableEq, Repr

/-- What cairo answers while a sprite is baked. -/
structure BakeOutcomes where
  surface : CairoRef
  surfaceOk : Bool
  cr : CairoRef
  crOk : Bool
  pattern : CairoRef
  patternOk : Bool

def klRenderEngineCreate (calloc : Bool) : Option KlRenderEngine × List Call :=
  if calloc then (some ⟨none, none, 0, 0⟩, [.callocEngine true]) else (none, [.callocEngine false])

def klRenderCleanupBaked (engine : KlRenderEngine) : KlRenderEngine × List Call :=
  ({ engine with bakedPattern := none, bakedSurface := none, cachedScale := 0, bakedDim := 0 },
    engine.bakedPattern.toList.map .cairoPatternDestroy ++
      engine.bakedSurface.toList.map .cairoSurfaceDestroy)

/-- The baking itself, once the old sprite is gone. -/
def klRenderBake (engine : KlRenderEngine) (scale : Int32) (o : BakeOutcomes) :
    Bool × KlRenderEngine × List Call :=
  let dim := klBaseTextureDim * scale
  let engine := { engine with bakedSurface := some o.surface }
  let c := [.cairoImageSurfaceCreate dim o.surface o.surfaceOk]
  if o.surfaceOk = false then
    let r := klRenderCleanupBaked engine
    (false, r.1, c ++ r.2)
  else
    let c := c ++ [.cairoCreate o.surface o.cr o.crOk]
    if o.crOk = false then
      let r := klRenderCleanupBaked engine
      (false, r.1, c ++ [.cairoDestroy o.cr] ++ r.2)
    else
      -- the ring and the circle are drawn between the two calls
      let c := c ++ [.cairoScale o.cr scale, .cairoDestroy o.cr,
        .cairoPatternCreateForSurface o.surface o.pattern o.patternOk]
      let engine := { engine with bakedPattern := some o.pattern }
      if o.patternOk = false then
        let r := klRenderCleanupBaked engine
        (false, r.1, c ++ r.2)
      else (true, { engine with cachedScale := scale, bakedDim := dim }, c)

def klRenderEnsureBakedSurface (engine : KlRenderEngine) (scale : Int32) (o : BakeOutcomes) :
    Bool × KlRenderEngine × List Call :=
  if engine.bakedSurface.isSome ∧ engine.bakedPattern.isSome ∧ engine.cachedScale = scale then
    (true, engine, [])
  else
    let clean := klRenderCleanupBaked engine
    let r := klRenderBake clean.1 scale o
    (r.1, r.2.1, clean.2 ++ r.2.2)

/-- `scale_int` of `kl_render_engine_draw` -/
def klRenderScale (scale : Int32) : Int32 := if scale < 1 then 1 else scale

def klRenderEngineDraw (engine : Option KlRenderEngine) (cr : Option CairoRef)
    (width height : UInt32) (scale : Int32) (o : BakeOutcomes) :
    Option KlRenderEngine × List Call :=
  match engine, cr with
  | some engine, some cr =>
    if width = 0 ∨ height = 0 then (some engine, [])
    else
      let r := klRenderEnsureBakedSurface engine (klRenderScale scale) o
      if r.1 = false then (some r.2.1, r.2.2)
      else
        (some r.2.1, r.2.2 ++ .cairoPaintBackground cr ::
          r.2.1.bakedPattern.toList.map (.cairoPaintSprite cr · (klRenderScale scale)))
  | engine, _ => (engine, [])

def klRenderEngineDestroy (engine : Option KlRenderEngine) : List Call :=
  match engine with
  | none => []
  | some engine => (klRenderCleanupBaked engine).2 ++ [.freeEngine]

/-! ## What the engine can do -/

/-- An engine that has nothing cached. -/
def KlRenderEngine.empty : KlRenderEngine := ⟨none, none, 0, 0⟩

/-- The calls that bake a sprite. -/
def bakeCalls (scale : Int32) (o : BakeOutcomes) : List Call :=
  [.cairoImageSurfaceCreate (klBaseTextureDim * scale) o.surface true,
    .cairoCreate o.surface o.cr true, .cairoScale o.cr scale, .cairoDestroy o.cr,
    .cairoPatternCreateForSurface o.surface o.pattern true]

/-- The baking of a sprite and the three points where it fails. -/
inductive BakeStep (scale : Int32) (o : BakeOutcomes) :
    Bool → KlRenderEngine → List Call → Prop
  | noSurface (hs : o.surfaceOk = false) :
      BakeStep scale o false .empty
        [.cairoImageSurfaceCreate (klBaseTextureDim * scale) o.surface false,
          .cairoSurfaceDestroy o.surface]
  | noContext (hs : o.surfaceOk = true) (hc : o.crOk = false) :
      BakeStep scale o false .empty
        [.cairoImageSurfaceCreate (klBaseTextureDim * scale) o.surface true,
          .cairoCreate o.surface o.cr false, .cairoDestroy o.cr, .cairoSurfaceDestroy o.surface]
  | noPattern (hs : o.surfaceOk = true) (hc : o.crOk = true) (hp : o.patternOk = false) :
      BakeStep scale o false .empty
        [.cairoImageSurfaceCreate (klBaseTextureDim * scale) o.surface true,
          .cairoCreate o.surface o.cr true, .cairoScale o.cr scale, .cairoDestroy o.cr,
          .cairoPatternCreateForSurface o.surface o.pattern false, .cairoPatternDestroy o.pattern,
          .cairoSurfaceDestroy o.surface]
  | baked (hs : o.surfaceOk = true) (hc : o.crOk = true) (hp : o.patternOk = true) :
      BakeStep scale o true ⟨some o.surface, some o.pattern, scale, klBaseTextureDim * scale⟩
        (bakeCalls scale o)

theorem klRenderBake_step (scale : Int32) (o : BakeOutcomes) :
    BakeStep scale o (klRenderBake .empty scale o).1 (klRenderBake .empty scale o).2.1
      (klRenderBake .empty scale o).2.2 := by
  unfold klRenderBake
  cases hs : o.surfaceOk with
  | false => exact .noSurface hs
  | true =>
    cases hc : o.crOk with
    | false => exact .noContext hs hc
    | true =>
      cases hp : o.patternOk with
      | false => exact .noPattern hs hc hp
      | true => exact .baked hs hc hp

/-- The sprite is cached at `scale`. -/
def KlRenderEngine.Cached (engine : KlRenderEngine) (scale : Int32) : Prop :=
  engine.bakedSurface.isSome = true ∧ engine.bakedPattern.isSome = true ∧
    engine.cachedScale = scale

/-- What one call of `kl_render_ensure_baked_surface` can do. -/
inductive EnsureStep (engine : KlRenderEngine) (scale : Int32) (o : BakeOutcomes) :
    Bool → KlRenderEngine → List Call → Prop
  | cached (h : engine.Cached scale) : EnsureStep engine scale o true engine []
  | rebuilt {ok : Bool} {engine' : KlRenderEngine} {cs : List Call} (hmiss : ¬engine.Cached scale)
      (h : BakeStep scale o ok engine' cs) :
      EnsureStep engine scale o ok engine' ((klRenderCleanupBaked engine).2 ++ cs)

theorem klRenderEnsureBakedSurface_step (engine : KlRenderEngine) (scale : Int32)
    (o : BakeOutcomes) :
    EnsureStep engine scale o (klRenderEnsureBakedSurface engine scale o).1
      (klRenderEnsureBakedSurface engine scale o).2.1
      (klRenderEnsureBakedSurface engine scale o).2.2 := by
  unfold klRenderEnsureBakedSurface
  split
  · rename_i h
    exact .cached h
  · rename_i hmiss
    exact .rebuilt hmiss (klRenderBake_step scale o)

/-- Where the function succeeds there is a pattern. -/
theorem EnsureStep.pattern {engine engine' : KlRenderEngine} {scale : Int32} {o : BakeOutcomes}
    {ok : Bool} {cs : List Call} (h : EnsureStep engine scale o ok engine' cs) (hok : ok = true) :
    ∃ pattern, engine'.bakedPattern = some pattern := by
  cases h with
  | cached h => exact Option.isSome_iff_exists.mp h.2.1
  | rebuilt hmiss h =>
    cases h with
    | baked hs hc hp => exact ⟨_, rfl⟩
    | _ => cases hok

/-- What one call of `kl_render_engine_draw` can do. -/
inductive DrawStep (engine : KlRenderEngine) (cr : Option CairoRef) (width height : UInt32)
    (scale : Int32) (o : BakeOutcomes) : KlRenderEngine → List Call → Prop
  | skipped (h : cr = none ∨ width = 0 ∨ height = 0) :
      DrawStep engine cr width height scale o engine []
  | failed {engine' : KlRenderEngine} {cs : List Call}
      (h : EnsureStep engine (klRenderScale scale) o false engine' cs) :
      DrawStep engine cr width height scale o engine' cs
  | blitted {engine' : KlRenderEngine} {cs : List Call} (c : CairoRef) (pattern : CairoRef)
      (hcr : cr = some c) (hsize : ¬(width = 0 ∨ height = 0))
      (h : EnsureStep engine (klRenderScale scale) o true engine' cs)
      (hp : engine'.bakedPattern = some pattern) :
      DrawStep engine cr width height scale o engine'
        (cs ++ [.cairoPaintBackground c, .cairoPaintSprite c pattern (klRenderScale scale)])

/-- **What a call of `kl_render_engine_draw` can do.** -/
theorem klRenderEngineDraw_step (engine : KlRenderEngine) (cr : Option CairoRef)
    (width height : UInt32) (scale : Int32) (o : BakeOutcomes) :
    ∃ engine', (klRenderEngineDraw (some engine) cr width height scale o).1 = some engine' ∧
      DrawStep engine cr width height scale o engine'
        (klRenderEngineDraw (some engine) cr width height scale o).2 := by
  cases hcr : cr with
  | none => exact ⟨engine, rfl, .skipped (Or.inl rfl)⟩
  | some c =>
    have hensure := klRenderEnsureBakedSurface_step engine (klRenderScale scale) o
    simp only [klRenderEngineDraw]
    split
    · rename_i hsize
      exact ⟨engine, rfl, .skipped (Or.inr hsize)⟩
    · rename_i hsize
      split
      · rename_i hfail
        rw [hfail] at hensure
        exact ⟨_, rfl, .failed hensure⟩
      · rename_i hok
        have hok := Bool.eq_true_of_not_eq_false hok
        rw [hok] at hensure
        obtain ⟨pattern, hp⟩ := hensure.pattern rfl
        rw [hp]
        exact ⟨_, rfl, .blitted c pattern rfl hsize hensure hp⟩

/-! ## What the engine touches -/

theorem klRenderCleanupBaked_inert (engine : KlRenderEngine) :
    Inert (klRenderCleanupBaked engine).2 := by
  unfold klRenderCleanupBaked
  cases engine.bakedPattern <;> cases engine.bakedSurface <;> rfl

theorem BakeStep.inert {scale : Int32} {o : BakeOutcomes} {ok : Bool} {engine : KlRenderEngine}
    {cs : List Call} (h : BakeStep scale o ok engine cs) : Inert cs := by
  cases h <;> rfl

theorem EnsureStep.inert {engine engine' : KlRenderEngine} {scale : Int32} {o : BakeOutcomes}
    {ok : Bool} {cs : List Call} (h : EnsureStep engine scale o ok engine' cs) : Inert cs := by
  cases h with
  | cached h => rfl
  | rebuilt hmiss h => exact (klRenderCleanupBaked_inert engine).append h.inert

theorem klRenderEngineDraw_inert (engine : Option KlRenderEngine) (cr : Option CairoRef)
    (width height : UInt32) (scale : Int32) (o : BakeOutcomes) :
    Inert (klRenderEngineDraw engine cr width height scale o).2 := by
  cases engine with
  | none => rfl
  | some engine =>
    obtain ⟨engine', -, hstep⟩ := klRenderEngineDraw_step engine cr width height scale o
    generalize (klRenderEngineDraw (some engine) cr width height scale o).2 = cs at hstep ⊢
    cases hstep with
    | skipped h => rfl
    | failed h => exact h.inert
    | blitted c pattern hcr hsize h hp => exact h.inert.append rfl

theorem klRenderEngineDestroy_acts (engine : Option KlRenderEngine) :
    acts (klRenderEngineDestroy engine) = [] := by
  cases engine with
  | none => rfl
  | some engine =>
    simp only [klRenderEngineDestroy, acts_append, (klRenderCleanupBaked_inert engine).acts]
    rfl

end Kirilock
