import Kirilock.BufferLedger

/-!
The sprite that `kl_render_engine_draw` blits.

An engine is drawn with any number of times, at any scales, and cairo may refuse anything.
`pictures` says what calls of cairo put on a window's context: `CairoStore` follows which
surface a pattern shows, how large it is and at which scale the sprite was drawn on it.

* `EngineHolds`: the engine has nothing, or a pattern of a sprite at its `cached_scale`.
* `cache_sound`: in every run what is blitted is a sprite of the call's scale, as if it had
  been baked anew, a bake that fails leaves nothing cached, and nothing baked is lost or
  destroyed twice.
-/

namespace Kirilock

open Runs Ledger

/-! ## A call -/

/-- A finite `double`: `num / 2 ^ exp`. -/
structure Double where
  num : Int
  exp : Nat
  deriving DecidableEq, Repr

/-- The cast to `int`, toward zero. -/
def Double.toInt32 (x : Double) : Int32 := Int32.ofInt (x.num.tdiv (2 ^ x.exp))

def Double.ofInt32 (n : Int32) : Double := ⟨n.toInt, 0⟩

/-- `256 * x` is within `int`. -/
def Double.InRange (x : Double) : Prop :=
  -2147483648 * 2 ^ x.exp ≤ 256 * x.num ∧ 256 * x.num ≤ 2147483647 * 2 ^ x.exp

instance (x : Double) : Decidable x.InRange := inferInstanceAs (Decidable (_ ∧ _))

/-- A scale that a surface passes comes back. -/
theorem Double.toInt32_ofInt32 (n : Int32) : (Double.ofInt32 n).toInt32 = n := by
  rw [Double.toInt32, Double.ofInt32, pow_zero, Int.tdiv_one, Int32.ofInt_toInt]

theorem Double.trunc_bounds {x : Double} (h : x.InRange) :
    -8388608 ≤ x.num.tdiv (2 ^ x.exp) ∧ x.num.tdiv (2 ^ x.exp) ≤ 8388607 := by
  obtain ⟨h1, h2⟩ := h
  have hpos : (0 : Int) < 2 ^ x.exp := by positivity
  generalize (2 : Int) ^ x.exp = d at h1 h2 hpos
  have hsum := Int.tdiv_mul_add_tmod x.num d
  have hlt := Int.tmod_lt_of_pos x.num hpos
  have hgt := Int.lt_tmod_of_pos x.num hpos
  constructor
  · by_contra hn
    have hle : x.num.tdiv d * d ≤ -8388609 * d :=
      Int.mul_le_mul_of_nonneg_right (by omega) (by omega)
    omega
  · by_contra hn
    have hle : 8388608 * d ≤ x.num.tdiv d * d :=
      Int.mul_le_mul_of_nonneg_right (by omega) (by omega)
    have hnum : 0 ≤ x.num := by omega
    have hmod := Int.tmod_nonneg d hnum
    omega

theorem Double.toInt_toInt32 {x : Double} (h : x.InRange) :
    x.toInt32.toInt = x.num.tdiv (2 ^ x.exp) := by
  obtain ⟨h1, h2⟩ := Double.trunc_bounds h
  exact Int32.toInt_ofInt_of_le (by omega) (by omega)

/-- The arguments of one `kl_render_engine_draw`, and what cairo answers. -/
structure DrawCall where
  cr : Option CairoRef
  width : UInt32
  height : UInt32
  scale : Double
  bake : BakeOutcomes

/-- `scale_int` of the call -/
def DrawCall.scaleInt (d : DrawCall) : Int32 := klRenderScale d.scale.toInt32

/-- The side of a sprite does not overflow. -/
theorem DrawCall.side_toInt {d : DrawCall} (h : d.scale.InRange) :
    1 ≤ d.scaleInt.toInt ∧ (klBaseTextureDim * d.scaleInt).toInt = 256 * d.scaleInt.toInt := by
  obtain ⟨h1, h2⟩ := Double.trunc_bounds h
  have hcast := Double.toInt_toInt32 h
  have hbounds : 1 ≤ d.scaleInt.toInt ∧ d.scaleInt.toInt ≤ 8388607 := by
    unfold DrawCall.scaleInt klRenderScale
    split
    · exact ⟨by decide, by decide⟩
    · rename_i hlt
      rw [Int32.lt_iff_toInt_lt] at hlt
      have hone : (1 : Int32).toInt = 1 := rfl
      omega
  refine ⟨hbounds.1, ?_⟩
  have hdim : klBaseTextureDim.toInt = 256 := rfl
  rw [Int32.toInt_mul, hdim]
  exact Int.bmod_eq_of_le (by omega) (by omega)

/-! ## The engine over many calls -/

def KlRenderEngine.draw (engine : KlRenderEngine) (d : DrawCall) :
    Option (KlRenderEngine × List Call) :=
  let r := klRenderEngineDraw (some engine) d.cr d.width d.height d.scale.toInt32 d.bake
  r.1.map fun engine => (engine, r.2)

/-- One engine, from its creation on. -/
def engineMachine : Machine KlRenderEngine DrawCall Call where
  init engine := (klRenderEngineCreate true).1 = some engine
  step engine d := if d.scale.InRange then engine.draw d else none

theorem KlRenderEngine.draw_step {engine engine' : KlRenderEngine} {d : DrawCall} {cs : List Call}
    (h : engine.draw d = some (engine', cs)) :
    DrawStep engine d.cr d.width d.height d.scale.toInt32 d.bake engine' cs := by
  obtain ⟨engine1, he, hstep⟩ := klRenderEngineDraw_step engine d.cr d.width d.height
    d.scale.toInt32 d.bake
  simp only [KlRenderEngine.draw, he, Option.map_some] at h
  cases h
  exact hstep

theorem engineMachine_step {engine engine' : KlRenderEngine} {d : DrawCall} {cs : List Call}
    (h : engineMachine.step engine d = some (engine', cs)) :
    d.scale.InRange ∧
      DrawStep engine d.cr d.width d.height d.scale.toInt32 d.bake engine' cs := by
  simp only [engineMachine] at h
  split at h
  · rename_i hr
    exact ⟨hr, KlRenderEngine.draw_step h⟩
  · cases h

theorem engineMachine_init {engine : KlRenderEngine} (h : engineMachine.init engine) :
    engine = .empty := by
  cases h
  rfl

/-! ## What is drawn -/

/-- What a pattern shows: the side of its surface, and the scale that was set on the context
when the ring and the circle were drawn on it. -/
structure Sprite where
  side : Int32
  scale : Int32
  deriving DecidableEq, Repr

/-- What there is of cairo's objects. -/
structure CairoStore where
  side : CairoRef → Option Int32
  drawn : CairoRef → Option Int32
  target : CairoRef → Option CairoRef
  source : CairoRef → Option CairoRef

def CairoStore.nothing : CairoStore := ⟨fun _ => none, fun _ => none, fun _ => none, fun _ => none⟩

def CairoStore.step (st : CairoStore) : Call → CairoStore
  | .cairoImageSurfaceCreate dim surface true =>
    { st with
      side := Function.update st.side surface (some dim)
      drawn := Function.update st.drawn surface none }
  | .cairoSurfaceDestroy surface => { st with side := Function.update st.side surface none }
  | .cairoCreate surface cr true =>
    { st with target := Function.update st.target cr (some surface) }
  | .cairoDestroy cr => { st with target := Function.update st.target cr none }
  | .cairoScale cr scale =>
    -- the drawing follows at once
    match st.target cr with
    | some surface => { st with drawn := Function.update st.drawn surface (some scale) }
    | none => st
  | .cairoPatternCreateForSurface surface pattern true =>
    { st with source := Function.update st.source pattern (some surface) }
  | .cairoPatternDestroy pattern => { st with source := Function.update st.source pattern none }
  | _ => st

def CairoStore.run (st : CairoStore) (cs : List Call) : CairoStore := cs.foldl CairoStore.step st

theorem CairoStore.run_append (st : CairoStore) (cs ds : List Call) :
    st.run (cs ++ ds) = (st.run cs).run ds :=
  List.foldl_append

/-- What a blit of the pattern shows. -/
def CairoStore.shows (st : CairoStore) (pattern : CairoRef) : Option Sprite :=
  match st.source pattern with
  | none => none
  | some surface =>
    match st.side surface, st.drawn surface with
    | some side, some scale => some ⟨side, scale⟩
    | _, _ => none

/-- What is put on a window's context: the background, or a sprite, blitted for `scale`. -/
inductive Picture where
  | background (cr : CairoRef)
  | sprite (cr : CairoRef) (shown : Option Sprite) (scale : Int32)
  deriving DecidableEq, Repr

def Call.picture (st : CairoStore) : Call → Option Picture
  | .cairoPaintBackground cr => some (.background cr)
  | .cairoPaintSprite cr pattern scale => some (.sprite cr (st.shows pattern) scale)
  | _ => none

def pictures : CairoStore → List Call → List Picture
  | _, [] => []
  | st, c :: cs => (c.picture st).toList ++ pictures (st.step c) cs

theorem pictures_append (st : CairoStore) (cs ds : List Call) :
    pictures st (cs ++ ds) = pictures st cs ++ pictures (st.run cs) ds := by
  induction cs generalizing st with
  | nil => rfl
  | cons c cs ih =>
    simp only [List.cons_append, pictures, ih, List.append_assoc]
    rfl

/-- The sprite of a scale. -/
def Sprite.of (scale : Int32) : Sprite := ⟨klBaseTextureDim * scale, scale⟩

/-- The engine has nothing, or a pattern of the sprite of its `cached_scale`. -/
inductive EngineHolds (st : CairoStore) : KlRenderEngine → Prop
  | empty : EngineHolds st .empty
  | sprite (surface pattern : CairoRef) (scale : Int32)
      (h : st.shows pattern = some (Sprite.of scale)) :
      EngineHolds st ⟨some surface, some pattern, scale, klBaseTextureDim * scale⟩

theorem EngineHolds.cached {st : CairoStore} {engine : KlRenderEngine} (h : EngineHolds st engine)
    {scale : Int32} (hc : engine.Cached scale) {pattern : CairoRef}
    (hp : engine.bakedPattern = some pattern) : st.shows pattern = some (Sprite.of scale) := by
  obtain ⟨hsurface, -, rfl⟩ := hc
  cases h with
  | empty => cases hsurface
  | sprite surface pattern' scale h =>
    cases hp
    exact h

/-- A bake puts nothing on a window, and leaves the sprite or nothing. -/
theorem BakeStep.holds {scale : Int32} {o : BakeOutcomes} {ok : Bool} {engine : KlRenderEngine}
    {cs : List Call} (h : BakeStep scale o ok engine cs) (st : CairoStore) :
    pictures st cs = [] ∧ EngineHolds (st.run cs) engine ∧
      (ok = true → ∃ pattern, engine.bakedPattern = some pattern ∧
        (st.run cs).shows pattern = some (Sprite.of scale)) := by
  cases h with
  | noSurface hs | noContext hs hc | noPattern hs hc hp => exact ⟨rfl, .empty, nofun⟩
  | baked hs hc hp =>
    have hshows : (st.run (bakeCalls scale o)).shows o.pattern = some (Sprite.of scale) := by
      simp [CairoStore.run, bakeCalls, CairoStore.step, CairoStore.shows, Sprite.of]
    exact ⟨rfl, .sprite _ _ _ hshows, fun _ => ⟨_, rfl, hshows⟩⟩

theorem klRenderCleanupBaked_pictures (st : CairoStore) (engine : KlRenderEngine) :
    pictures st (klRenderCleanupBaked engine).2 = [] := by
  unfold klRenderCleanupBaked
  cases engine.bakedPattern <;> cases engine.bakedSurface <;> rfl

theorem EnsureStep.holds {engine engine' : KlRenderEngine} {scale : Int32} {o : BakeOutcomes}
    {ok : Bool} {cs : List Call} (h : EnsureStep engine scale o ok engine' cs) {st : CairoStore}
    (hst : EngineHolds st engine) :
    pictures st cs = [] ∧ EngineHolds (st.run cs) engine' ∧
      (ok = true → ∀ pattern, engine'.bakedPattern = some pattern →
        (st.run cs).shows pattern = some (Sprite.of scale)) := by
  cases h with
  | cached hc => exact ⟨rfl, hst, fun _ pattern hp => hst.cached hc hp⟩
  | @rebuilt _ _ cs hmiss h =>
    obtain ⟨hpics, hholds, hshows⟩ := h.holds (st.run (klRenderCleanupBaked engine).2)
    rw [pictures_append, CairoStore.run_append, klRenderCleanupBaked_pictures, hpics]
    refine ⟨rfl, hholds, fun hok pattern hp => ?_⟩
    obtain ⟨pattern', hp', hs⟩ := hshows hok
    rw [hp] at hp'
    cases hp'
    exact hs

/-- The pictures of a drawing that blits: the background and the sprite of its scale. -/
def drawnPictures (cr : CairoRef) (scale : Int32) : List Picture :=
  [.background cr, .sprite cr (some (Sprite.of scale)) scale]

theorem DrawStep.holds {engine engine' : KlRenderEngine} {cr : Option CairoRef}
    {width height : UInt32} {scale : Int32} {o : BakeOutcomes} {cs : List Call}
    (h : DrawStep engine cr width height scale o engine' cs) {st : CairoStore}
    (hst : EngineHolds st engine) :
    EngineHolds (st.run cs) engine' ∧ (pictures st cs = [] ∨
      ∃ c, cr = some c ∧ ¬(width = 0 ∨ height = 0) ∧
        pictures st cs = drawnPictures c (klRenderScale scale)) := by
  cases h with
  | skipped h => exact ⟨hst, Or.inl rfl⟩
  | failed h => exact ⟨(h.holds hst).2.1, Or.inl (h.holds hst).1⟩
  | blitted c pattern hcr hsize h hp =>
    obtain ⟨hpics, hholds, hshows⟩ := h.holds hst
    rw [pictures_append, CairoStore.run_append, hpics]
    refine ⟨hholds, Or.inr ⟨c, hcr, hsize, ?_⟩⟩
    have hshown := hshows rfl pattern hp
    simp only [pictures, Call.picture, CairoStore.step, hshown]
    rfl

/-- A drawing by an engine with nothing cached, for which cairo refuses nothing. -/
theorem DrawStep.anew {engine' : KlRenderEngine} {c : CairoRef} {width height : UInt32}
    {scale : Int32} {o : BakeOutcomes} {cs : List Call}
    (h : DrawStep .empty (some c) width height scale o engine' cs)
    (hsize : ¬(width = 0 ∨ height = 0))
    (ho : o.surfaceOk = true ∧ o.crOk = true ∧ o.patternOk = true) (st : CairoStore) :
    pictures st cs = drawnPictures c (klRenderScale scale) := by
  obtain ⟨hs, hc, hp⟩ := ho
  have hempty : EngineHolds st .empty := .empty
  rcases (h.holds hempty).2 with hnone | ⟨c', hcr, -, hpics⟩
  · cases h with
    | skipped h =>
      rcases h with h | h
      · cases h
      · exact absurd h hsize
    | failed h =>
      cases h with
      | rebuilt hmiss h =>
        cases h with
        | noSurface hs' => exact absurd (hs'.symm.trans hs) Bool.false_ne_true
        | noContext _ hc' => exact absurd (hc'.symm.trans hc) Bool.false_ne_true
        | noPattern _ _ hp' => exact absurd (hp'.symm.trans hp) Bool.false_ne_true
    | blitted c pattern hcr hsize h hp =>
      rw [pictures_append] at hnone
      exact absurd (List.append_eq_nil_iff.mp hnone).2 (List.cons_ne_nil _ _)
  · cases hcr
    exact hpics

/-! ## What is held -/

/-- The cairo objects that the fields of an engine hold. -/
def KlRenderEngine.recorded (engine : KlRenderEngine) : Multiset Resource :=
  optional .cairoPattern engine.bakedPattern + optional .cairoSurface engine.bakedSurface

theorem klRenderCleanupBaked_settles (engine : KlRenderEngine) :
    Settles engine.recorded (entries (klRenderCleanupBaked engine).2) 0 := by
  have hentries : entries (klRenderCleanupBaked engine).2 =
      (engine.bakedPattern.toList.map fun p => .release (.cairoPattern p)) ++
        (engine.bakedSurface.toList.map fun s => .release (.cairoSurface s)) := by
    unfold klRenderCleanupBaked
    cases engine.bakedPattern <;> cases engine.bakedSurface <;> rfl
  rw [hentries]
  refine (settles_release_option Resource.cairoPattern engine.bakedPattern _).append ?_
  exact (settles_release_option Resource.cairoSurface engine.bakedSurface 0).cast (add_zero _) rfl

theorem BakeStep.settles {scale : Int32} {o : BakeOutcomes} {ok : Bool} {engine : KlRenderEngine}
    {cs : List Call} (h : BakeStep scale o ok engine cs) :
    Settles 0 (entries cs) engine.recorded := by
  have hsurface := settles_acquire (Resource.cairoSurface o.surface) 0
  have hcontext : ∀ held, Settles held
      [.acquire (Resource.cairo o.cr), .release (Resource.cairo o.cr)] held :=
    fun held => (settles_acquire (Resource.cairo o.cr) held).append (settles_release _ held)
  have hpattern := settles_acquire (Resource.cairoPattern o.pattern)
  have hgone := settles_release (Resource.cairoSurface o.surface) 0
  cases h with
  | noSurface hs => exact hsurface.append hgone
  | noContext hs hc => exact (hsurface.append (hcontext _)).append hgone
  | noPattern hs hc hp =>
    exact (((hsurface.append (hcontext _)).append (hpattern _)).append
      (settles_release _ _)).append hgone
  | baked hs hc hp =>
    exact ((hsurface.append (hcontext _)).append (hpattern _)).cast rfl
      (by simp [KlRenderEngine.recorded])

theorem EnsureStep.settles {engine engine' : KlRenderEngine} {scale : Int32} {o : BakeOutcomes}
    {ok : Bool} {cs : List Call} (h : EnsureStep engine scale o ok engine' cs) :
    Settles engine.recorded (entries cs) engine'.recorded := by
  cases h with
  | cached h => exact settles_nil _
  | rebuilt hmiss h =>
    rw [entries_append]
    exact (klRenderCleanupBaked_settles engine).append h.settles

theorem DrawStep.settles {engine engine' : KlRenderEngine} {cr : Option CairoRef}
    {width height : UInt32} {scale : Int32} {o : BakeOutcomes} {cs : List Call}
    (h : DrawStep engine cr width height scale o engine' cs) :
    Settles engine.recorded (entries cs) engine'.recorded := by
  cases h with
  | skipped h => exact settles_nil _
  | failed h => exact h.settles
  | blitted c pattern hcr hsize h hp =>
    rw [entries_append]
    exact h.settles.append (settles_nil _)

/-! ## Every run -/

/-- A cairo call of the baking that fails. -/
def Call.bakeFails : Call → Bool
  | .cairoImageSurfaceCreate _ _ ok => !ok
  | .cairoCreate _ _ ok => !ok
  | .cairoPatternCreateForSurface _ _ ok => !ok
  | _ => false

theorem EnsureStep.fails {engine engine' : KlRenderEngine} {scale : Int32} {o : BakeOutcomes}
    {ok : Bool} {cs : List Call} (h : EnsureStep engine scale o ok engine' cs)
    (hf : ∃ c ∈ cs, c.bakeFails = true) : engine' = .empty := by
  obtain ⟨c, hc, hf⟩ := hf
  have hclean : ∀ c ∈ (klRenderCleanupBaked engine).2, c.bakeFails = false := by
    unfold klRenderCleanupBaked
    cases engine.bakedPattern <;> cases engine.bakedSurface <;> simp [Call.bakeFails]
  cases h with
  | cached h => cases hc
  | rebuilt hmiss h =>
    rcases List.mem_append.mp hc with hc | hc
    · rw [hclean c hc] at hf
      cases hf
    · cases h with
      | baked hs ho hp =>
        have hnone : ∀ c ∈ bakeCalls scale o, c.bakeFails = false := by
          simp [bakeCalls, Call.bakeFails]
        rw [hnone c hc] at hf
        cases hf
      | _ => rfl

/-- The engine after the calls `tr`. -/
structure CacheSound (engine : KlRenderEngine) (tr : List Call) : Prop where
  /-- a call that reaches the blit blits a sprite of its own scale and of its side, … -/
  blit : ∀ d engine' cs, engineMachine.step engine d = some (engine', cs) →
    ∀ cr shown scale, .sprite cr shown scale ∈ pictures (.run .nothing tr) cs →
      d.cr = some cr ∧ scale = d.scaleInt ∧ ∃ sprite, shown = some sprite ∧
        sprite.scale = d.scaleInt ∧ sprite.side.toInt = 256 * d.scaleInt.toInt
  /-- … and what it draws is what it would draw after baking anew -/
  anew : ∀ d engine' cs, engineMachine.step engine d = some (engine', cs) →
    pictures (.run .nothing tr) cs ≠ [] → ∀ st o engine'' cs',
      o.surfaceOk = true ∧ o.crOk = true ∧ o.patternOk = true →
      KlRenderEngine.draw .empty { d with bake := o } = some (engine'', cs') →
      pictures (.run .nothing tr) cs = pictures st cs'
  /-- a bake that fails leaves nothing cached -/
  failed : ∀ d engine' cs, engineMachine.step engine d = some (engine', cs) →
    (∃ c ∈ cs, c.bakeFails = true) → engine' = ⟨none, none, 0, 0⟩
  /-- what was made is what the fields hold, … -/
  held : Settles 0 (entries tr) engine.recorded
  /-- … and destroyed with the engine, … -/
  destroyed : Settles 0 (entries (tr ++ klRenderEngineDestroy (some engine))) 0
  /-- … each object as often as it was made -/
  once : ∀ r, (entries (tr ++ klRenderEngineDestroy (some engine))).count (.release r) =
    (entries (tr ++ klRenderEngineDestroy (some engine))).count (.acquire r)

theorem engineHolds_reach {engine : KlRenderEngine} {tr : List Call}
    (h : engineMachine.Reach engine tr) :
    EngineHolds (.run .nothing tr) engine ∧ Settles 0 (entries tr) engine.recorded := by
  refine h.invariant (I := fun engine tr =>
    EngineHolds (.run .nothing tr) engine ∧ Settles 0 (entries tr) engine.recorded) ?_ ?_
  · intro engine hinit
    rw [engineMachine_init hinit]
    exact ⟨.empty, settles_nil 0⟩
  · intro engine tr d engine' cs hinv _ hs
    obtain ⟨hholds, hheld⟩ := hinv
    have hstep := (engineMachine_step hs).2
    rw [CairoStore.run_append, entries_append]
    exact ⟨(hstep.holds hholds).1, hheld.append hstep.settles⟩

/-- **Drawing from the cache is drawing what was baked for the call.** -/
theorem cache_sound {engine : KlRenderEngine} {tr : List Call}
    (h : engineMachine.Reach engine tr) : CacheSound engine tr := by
  obtain ⟨hholds, hheld⟩ := engineHolds_reach h
  have hdestroyed : Settles 0 (entries (tr ++ klRenderEngineDestroy (some engine))) 0 := by
    have hfree := (klRenderCleanupBaked_settles engine).append (settles_nil 0)
    rw [entries_append, klRenderEngineDestroy, entries_append]
    exact hheld.append hfree
  refine ⟨?_, ?_, ?_, hheld, hdestroyed, fun r => ?_⟩
  · intro d engine' cs hs cr shown scale hm
    obtain ⟨hrange, hstep⟩ := engineMachine_step hs
    rcases (hstep.holds hholds).2 with hnone | ⟨c, hcr, -, hpics⟩
    · rw [hnone] at hm
      cases hm
    · rw [hpics] at hm
      simp only [drawnPictures, List.mem_cons, reduceCtorEq, false_or, List.not_mem_nil, or_false,
        Picture.sprite.injEq] at hm
      obtain ⟨rfl, rfl, rfl⟩ := hm
      exact ⟨hcr, rfl, _, rfl, rfl, (DrawCall.side_toInt hrange).2⟩
  · intro d engine' cs hs hblit st o engine'' cs' ho hdraw
    obtain ⟨-, hstep⟩ := engineMachine_step hs
    rcases (hstep.holds hholds).2 with hnone | ⟨c, hcr, hsize, hpics⟩
    · exact absurd hnone hblit
    · have hnew := KlRenderEngine.draw_step hdraw
      simp only [hcr] at hnew
      rw [hpics, hnew.anew hsize ho st]
  · intro d engine' cs hs hf
    obtain ⟨-, hstep⟩ := engineMachine_step hs
    cases hstep with
    | skipped h =>
      obtain ⟨c, hc, -⟩ := hf
      cases hc
    | failed h => exact h.fails hf
    | blitted c pattern hcr hsize h hp =>
      obtain ⟨c', hc, hf⟩ := hf
      rcases List.mem_append.mp hc with hc | hc
      · exact h.fails ⟨c', hc, hf⟩
      · simp only [List.mem_cons, List.not_mem_nil, or_false] at hc
        rcases hc with rfl | rfl <;> cases hf
  · have hcount := hdestroyed.count r
    simpa using hcount

/-- A draw at scale 1, one at 3/2 that finds it cached, one at 2 that cairo refuses, and two
at 2. -/
def sampleDraws : List DrawCall :=
  [⟨some 9, 1920, 1080, ⟨1, 0⟩, ⟨1, true, 2, true, 3, true⟩⟩,
    ⟨some 9, 1920, 1080, ⟨3, 1⟩, ⟨4, true, 5, true, 6, true⟩⟩,
    ⟨some 9, 1920, 1080, .ofInt32 2, ⟨4, true, 5, true, 6, false⟩⟩,
    ⟨some 9, 1920, 1080, .ofInt32 2, ⟨4, true, 5, true, 6, true⟩⟩,
    ⟨some 9, 1920, 1080, .ofInt32 2, ⟨7, true, 8, true, 9, true⟩⟩]

theorem bakedRun_isSome : (engineMachine.exec .empty sampleDraws).isSome = true := by
  decide

def bakedRun : KlRenderEngine × List Call :=
  (engineMachine.exec .empty sampleDraws).get bakedRun_isSome

theorem cache_sound_bakedRun : CacheSound bakedRun.1 bakedRun.2 :=
  cache_sound (Machine.reach_exec rfl bakedRun_isSome)

end Kirilock
