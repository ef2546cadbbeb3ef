import Kirilock.SurfaceRun

/-!
The two flags of a surface and its frame callback.

`outstanding` reads off a history which frame callbacks were asked for and are not yet
destroyed.  `FlagsInv` ties the fields to it:

    outstanding    =  frame_callback, if there is one
    frame_pending  →  configured
    nothing is drawn while a callback is outstanding

and with `KlSurface.WellFormed` that is `flags_sound`.
-/

namespace Kirilock

open Runs Ownership

/-! ## The history -/

/-- The frame callbacks after an item. -/
def Item.outstanding (cbs : List Proxy) : Item → List Proxy
  | .call (.wlSurfaceFrame _ (some cb)) => cb :: cbs
  | .call (.wlCallbackDestroy cb) => cbs.erase cb
  | _ => cbs

/-- The frame callbacks that were created and not destroyed. -/
def outstanding (tr : List Item) : List Proxy := tr.foldl Item.outstanding []

theorem outstanding_append (tr out : List Item) :
    outstanding (tr ++ out) = out.foldl Item.outstanding (outstanding tr) := by
  simp [outstanding]

def Item.asksFrame : Item → Bool
  | .call (.wlSurfaceFrame ..) => true
  | _ => false

def Item.commits : Item → Bool
  | .call (.wlSurfaceCommit ..) => true
  | _ => false

/-- The calls of a frame up to `wl_surface_frame`, past the checks of
`kl_surface_render_frame`. -/
def Item.draws : Item → Bool
  | .call (.klSurfaceGetFreeBuffer ..) => true
  | .call (.klRenderEngineDraw ..) => true
  | .call (.wlSurfaceSetBufferScale ..) => true
  | .call (.wlSurfaceAttach ..) => true
  | .call (.wlSurfaceDamage ..) => true
  | .call (.wlSurfaceFrame ..) => true
  | _ => false

/-- Nothing is drawn while a callback is outstanding. -/
def DrawsAlone (tr : List Item) : Prop :=
  Always (fun pre it => it.draws = true → outstanding pre = []) tr

/-- Items that concern no frame callback and no commit. -/
def Item.calm : Item → Bool
  | .call (.wlSurfaceFrame ..) => false
  | .call (.wlCallbackDestroy _) => false
  | .call (.wlSurfaceCommit _) => false
  | _ => true

theorem Item.calm_spec {it : Item} (h : it.calm = true) :
    (∀ cbs, Item.outstanding cbs it = cbs) ∧ it.asksFrame = false ∧ it.commits = false := by
  cases it with
  | event p d e => exact ⟨fun _ => rfl, rfl, rfl⟩
  | call c =>
    cases c <;> first
      | exact absurd h Bool.false_ne_true
      | exact ⟨fun _ => rfl, rfl, rfl⟩

def Calm (out : List Item) : Prop := ∀ it ∈ out, it.calm = true

theorem Calm.append {out out' : List Item} (h1 : Calm out) (h2 : Calm out') :
    Calm (out ++ out') :=
  List.forall_mem_append.mpr ⟨h1, h2⟩

theorem Calm.outstanding {out : List Item} (h : Calm out) (tr : List Item) :
    outstanding (tr ++ out) = outstanding tr := by
  rw [outstanding_append]
  generalize Kirilock.outstanding tr = cbs
  induction out with
  | nil => rfl
  | cons it out ih =>
    obtain ⟨hit, hout⟩ := List.forall_mem_cons.mp h
    rw [List.foldl_cons, (Item.calm_spec hit).1, ih hout]

theorem calm_of_backing {cs : List Call} (h : cs.all Call.backing) :
    Calm (calls cs) ∧ ∀ it ∈ calls cs, it.draws = false := by
  refine ⟨fun it hit => ?_, fun it hit => ?_⟩ <;>
  · obtain ⟨c, hc, rfl⟩ := List.mem_map.mp hit
    have hb := List.all_eq_true.mp h c hc
    cases c <;> first
      | exact absurd hb Bool.false_ne_true
      | rfl

/-! ## The invariant -/

structure FlagsInv (surf : KlSurface) (tr : List Item) : Prop where
  outstanding : outstanding tr = surf.frameCallback.toList
  configured : surf.framePending = true → surf.configured = true
  turns : Alternate Item.asksFrame Item.commits tr
  committed : isOpen Item.asksFrame Item.commits tr = false
  alone : DrawsAlone tr

/-- Only the callback and the two flags matter. -/
theorem FlagsInv.congr {surf surf' : KlSurface} {tr : List Item} (h : FlagsInv surf tr)
    (hcb : surf'.frameCallback = surf.frameCallback)
    (hc : surf'.framePending = true → surf'.configured = true) : FlagsInv surf' tr :=
  ⟨by rw [hcb]; exact h.outstanding, hc, h.turns, h.committed, h.alone⟩

/-- Calm items that draw nothing, or that draw while no callback is outstanding. -/
theorem FlagsInv.calm {surf : KlSurface} {tr : List Item} (h : FlagsInv surf tr)
    (out : List Item) (hout : Calm out)
    (hdraws : (∀ it ∈ out, it.draws = false) ∨ Kirilock.outstanding tr = []) :
    FlagsInv surf (tr ++ out) := by
  have hneither : ∀ it ∈ out, it.asksFrame = false ∧ it.commits = false := fun it hit =>
    (Item.calm_spec (hout it hit)).2
  refine ⟨(hout.outstanding tr).trans h.outstanding, h.configured,
    h.turns.append_of_neither hneither, (isOpen_append_of_neither hneither).trans h.committed, ?_⟩
  refine always_append.mpr ⟨h.alone, ?_⟩
  rintro pre it post rfl hit
  rcases hdraws with hd | hd
  · rw [hd it (by simp)] at hit
    cases hit
  · have hpre : Calm pre := fun x hx => hout x (List.mem_append_left _ hx)
    rw [hpre.outstanding tr, hd]

/-- The items of `wl_surface_frame` and the commit after it. -/
theorem FlagsInv.ask {surf : KlSurface} {tr : List Item} (h : FlagsInv surf tr)
    (hcb : surf.frameCallback = none) (ws : Proxy) (o : FrameOutcomes) {surf' : KlSurface}
    (hcb' : surf'.frameCallback = o.callback) (hc : surf'.configured = true) :
    FlagsInv surf' (tr ++ calls ([Call.wlSurfaceFrame ws o.frame] ++ frameListen surf o ++
      [Call.wlSurfaceCommit ws])) := by
  have hnone : Kirilock.outstanding tr = [] := by
    rw [h.outstanding, hcb]
    rfl
  have hmid : ∀ it ∈ calls (frameListen surf o),
      it.asksFrame = false ∧ it.commits = false ∧ it.draws = false := by
    unfold frameListen
    cases o.frame with
    | none => simp
    | some cb => cases o.addListener <;> simp [Item.asksFrame, Item.commits, Item.draws]
  have hmid' : ∀ it ∈ calls (frameListen surf o), it.asksFrame = false ∧ it.commits = false :=
    fun it hit => ⟨(hmid it hit).1, (hmid it hit).2.1⟩
  have hasked : isOpen Item.asksFrame Item.commits
      (tr ++ [.call (.wlSurfaceFrame ws o.frame)]) = true := by
    rw [isOpen_snoc]
    rfl
  have hopen : isOpen Item.asksFrame Item.commits
      (tr ++ [.call (.wlSurfaceFrame ws o.frame)] ++ calls (frameListen surf o)) = true :=
    (isOpen_append_of_neither hmid').trans hasked
  have hsplit : tr ++ calls ([Call.wlSurfaceFrame ws o.frame] ++ frameListen surf o ++
      [Call.wlSurfaceCommit ws]) = tr ++ [.call (.wlSurfaceFrame ws o.frame)] ++
        calls (frameListen surf o) ++ [.call (.wlSurfaceCommit ws)] := by simp
  rw [hsplit]
  refine ⟨?_, fun _ => hc, ?_, ?_, ?_⟩
  · -- the callback is outstanding if its listener was added
    simp only [outstanding_append, hnone, hcb', FrameOutcomes.callback, frameListen]
    cases o.frame with
    | none => cases o.addListener <;> rfl
    | some cb => cases o.addListener <;> simp [Item.outstanding]
  · exact ((h.turns.opened h.committed rfl).append_of_neither hmid').closed hopen rfl
  · rw [isOpen_snoc]
    rfl
  · refine always_snoc.mpr ⟨?_, by rintro ⟨⟩⟩
    refine Always.append_of_forall (always_snoc.mpr ⟨h.alone, fun _ => hnone⟩) fun it hit pre hd =>
      ?_
    rw [(hmid it hit).2.2] at hd
    cases hd

/-! ## Every run -/

theorem FlagsInv.frame {refs : CtxRefs} {surf surf' : KlSurface} {o : FrameOutcomes}
    {cs : List Call} {tr : List Item} (hwf : surf.WellFormed) (h : FlagsInv surf tr)
    (hf : FrameStep refs surf o surf' cs) : FlagsInv surf' (tr ++ calls cs) := by
  have hnone : surf.framePending = false → surf.frameCallback = none := by
    intro hp
    have h := hwf.pending
    rw [hp] at h
    simpa using h.symm
  have hfree : surf.framePending = false → Kirilock.outstanding tr = [] := by
    intro hp
    rw [h.outstanding, hnone hp]
    rfl
  have hentry : ∀ ret, Calm (calls (frameEntry surf ret)) := by
    simp [Calm, frameEntry, Item.calm]
  cases hf with
  | skipped => exact h.calm _ (by simp [Calm, Item.calm]) (Or.inl (by simp [Item.draws]))
  | noBuffer hc hp hbusy =>
    exact (h.calm _ (hentry none) (Or.inr (hfree hp))).congr rfl h.configured
  | createFailed hc hp i hslot b hb c1 hc1 hfail =>
    refine (h.calm _ ?_ (Or.inr (hfree hp))).congr rfl h.configured
    rw [calls_append]
    exact (hentry _).append (calm_of_backing hc1.backing).1
  | committed hc hp ws hws hw hh i hslot b wb hb c1 c2 c3 hc1 hc2 hc3 engine t0 t1 el =>
    have hsplit : frameEntry surf (some i) ++ c1 ++ c2 ++
        Call.klRenderEngineDraw (surf.ref i) (some wb) surf.width surf.height surf.scale el :: c3 ++
          frameCommit surf ws wb o =
        (frameEntry surf (some i) ++ c1 ++ c2 ++ (Call.klRenderEngineDraw (surf.ref i) (some wb)
          surf.width surf.height surf.scale el :: c3) ++
            [Call.wlSurfaceSetBufferScale ws surf.scale, .wlSurfaceAttach ws (some wb),
              .wlSurfaceDamage ws surf.width.toInt32 surf.height.toInt32]) ++
          ([Call.wlSurfaceFrame ws o.frame] ++ frameListen surf o ++
            [Call.wlSurfaceCommit ws]) := by
      simp [frameCommit]
    have hdraw : Calm (calls (frameEntry surf (some i) ++ c1 ++ c2 ++
        (Call.klRenderEngineDraw (surf.ref i) (some wb) surf.width surf.height surf.scale el ::
          c3) ++ [Call.wlSurfaceSetBufferScale ws surf.scale, .wlSurfaceAttach ws (some wb),
            .wlSurfaceDamage ws surf.width.toInt32 surf.height.toInt32])) := by
      rw [calls_append, calls_append, calls_append, calls_append]
      refine ((((hentry _).append (calm_of_backing hc1.backing).1).append
        (calm_of_backing hc2.backing).1).append ?_).append ?_
      · exact List.forall_mem_cons.mpr ⟨rfl, (calm_of_backing hc3.backing).1⟩
      · simp [Calm, Item.calm]
    rw [hsplit, calls_append, ← List.append_assoc]
    exact (h.calm _ hdraw (Or.inr (hfree hp))).ask (hnone hp) ws o rfl hc

theorem klSurfaceCreate_pending {output : Proxy} {name : UInt32} {o : CreateOutcomes}
    {surf : KlSurface} (h : (klSurfaceCreate output name o).1 = some surf) :
    surf.frameCallback = none ∧ surf.framePending = false := by
  unfold klSurfaceCreate at h
  split at h
  · cases h
  · dsimp only at h
    split at h
    · cases h
    · cases h
      exact ⟨rfl, rfl⟩

/-- The frame callback is destroyed. -/
theorem FlagsInv.destroyed {surf surf' : KlSurface} {tr : List Item} (h : FlagsInv surf tr)
    {cb : Proxy} (hcb : surf.frameCallback = some cb) (hcb' : surf'.frameCallback = none)
    (hp : surf'.framePending = false) :
    FlagsInv surf' (tr ++ [.call (.wlCallbackDestroy cb)]) := by
  refine ⟨?_, fun h => ?_, h.turns.append_of_neither (by simp [Item.asksFrame, Item.commits]), ?_,
    always_snoc.mpr ⟨h.alone, nofun⟩⟩
  · rw [outstanding_append, h.outstanding, hcb, hcb']
    simp [Item.outstanding]
  · rw [hp] at h
    cases h
  · rw [isOpen_snoc]
    exact h.committed

theorem FlagsInv.detach {surf surf' surf'' : KlSurface} {cs : List Call} {tr : List Item}
    (h : FlagsInv surf tr) (hd : Detached surf surf')
    (hbufs : DetachedBuffers { surf with frameCallback := none }
      (List.finRange klSurfaceBufferCount) surf'' cs) :
    FlagsInv surf' (tr ++ calls (detachCalls surf cs)) := by
  have hstart := h.calm [.call (.klSurfaceDetachLock surf.addr)] (by simp [Calm, Item.calm])
    (Or.inl (by simp [Item.draws]))
  have hrest : Calm (calls (cs ++ surf.extLockSurface.toList.map .extSessionLockSurfaceV1Destroy ++
        surf.wlSurface.toList.map .wlSurfaceDestroy)) ∧
      ∀ it ∈ calls (cs ++ surf.extLockSurface.toList.map .extSessionLockSurfaceV1Destroy ++
        surf.wlSurface.toList.map .wlSurfaceDestroy), it.draws = false := by
    obtain ⟨hcalm, hdraws⟩ := calm_of_backing hbufs.backing
    rw [calls_append, calls_append]
    refine ⟨(hcalm.append ?_).append ?_, List.forall_mem_append.mpr
      ⟨List.forall_mem_append.mpr ⟨hdraws, ?_⟩, ?_⟩⟩
    · cases surf.extLockSurface <;> simp [Calm, Item.calm]
    · cases surf.wlSurface <;> simp [Calm, Item.calm]
    · cases surf.extLockSurface <;> simp [Item.draws]
    · cases surf.wlSurface <;> simp [Item.draws]
  have hsplit : tr ++ calls (detachCalls surf cs) =
      tr ++ [.call (.klSurfaceDetachLock surf.addr)] ++
        calls (surf.frameCallback.toList.map .wlCallbackDestroy) ++
        calls (cs ++ surf.extLockSurface.toList.map .extSessionLockSurfaceV1Destroy ++
          surf.wlSurface.toList.map .wlSurfaceDestroy) := by
    simp [detachCalls]
  rw [hsplit]
  refine FlagsInv.calm ?_ _ hrest.1 (Or.inl hrest.2)
  cases hcb : surf.frameCallback with
  | none =>
    rw [Option.toList_none, List.map_nil, calls_nil, List.append_nil]
    refine hstart.congr (hd.frameCallback.trans hcb.symm) fun hp => ?_
    rw [hd.framePending] at hp
    cases hp
  | some cb => exact hstart.destroyed hcb hd.frameCallback hd.framePending

theorem flagsInvariant (env : List Proxy) :
    SurfaceInvariant env fun s tr => FlagsInv s.surf tr where
  init := by
    intro s hs
    obtain ⟨-, output, name, o, hc⟩ := surfaceMachine_init hs
    obtain ⟨hcb, hp⟩ := klSurfaceCreate_pending hc
    refine ⟨by rw [hcb]; rfl, fun h => ?_, always_nil _, rfl, always_nil _⟩
    rw [hp] at h
    cases h
  attach := by
    intro s tr refs o ok surf cs hok hf h ha
    have hcs : Calm (calls cs) ∧ ∀ it ∈ calls cs, it.draws = false := by
      cases ha <;> simp [Calm, Item.calm, Item.draws]
    refine (h.calm _ hcs.1 (Or.inl hcs.2)).congr ?_ ?_
    · cases ha <;> rfl
    · cases ha <;> exact h.configured
  detach := fun _ h hd hbufs => h.detach hd hbufs
  prepared := by
    intro s tr p d e mid cs hok h hpre
    have hevent := h.calm [.event p d e] (by simp [Calm, Item.calm])
      (Or.inl (by simp [Item.draws]))
    rw [List.append_cons]
    cases hpre with
    | other | sameScale | scale =>
      rw [calls_nil, List.append_nil]
      exact hevent.congr rfl h.configured
    | configure serial width height hext =>
      exact (hevent.calm _ (by simp [Calm, Item.calm]) (Or.inl (by simp [Item.draws]))).congr rfl
        fun _ => rfl
    | done hcb => exact hevent.destroyed hcb rfl rfl
    | release i hwb =>
      exact (hevent.calm _ (by simp [Calm, Item.calm]) (Or.inl (by simp [Item.draws]))).congr rfl
        h.configured
  frame := fun hok _ _ h hf => h.frame hok.wellFormed hf

/-- What holds of the flags and the frame callback after a handled event. -/
structure FlagsSound (surf : KlSurface) (tr : List Item) : Prop where
  pending : surf.framePending = true ↔ surf.frameCallback ≠ none
  /-- the callbacks that are outstanding are the one in the field -/
  outstanding : outstanding tr = surf.frameCallback.toList
  configured : surf.framePending = true → surf.configured = true
  role : surf.configured = true → surf.wlSurface ≠ none ∧ surf.extLockSurface ≠ none
  /-- no frame is begun, and no commit made without one, while a callback is outstanding -/
  alone : DrawsAlone tr
  turns : Alternate Item.asksFrame Item.commits tr
  /-- entered by any handler while a callback is outstanding, the frame makes no call -/
  skips : ∀ p d e mid pre, Prepared surf p d e mid pre → mid.frameCallback ≠ none → ∀ refs o,
    klSurfaceRenderFrame refs mid o = (mid, [.klSurfaceRenderFrame mid.addr])

/-- **The flags of a surface** tell its frame callback, in every run. -/
theorem flags_sound {env : List Proxy} {s : SurfaceState} {tr : List Item}
    (h : (surfaceMachine env).Reach s tr) : FlagsSound s.surf tr := by
  have hok := surfaceMachine_ok h
  have hwf := hok.wellFormed
  have hinv := (flagsInvariant env).reach h
  refine ⟨?_, hinv.outstanding, hinv.configured, fun hc => ?_, hinv.alone, hinv.turns, ?_⟩
  · rw [hwf.pending, Option.isSome_iff_ne_none]
  · have hext := hwf.configured hc
    exact ⟨Option.isSome_iff_ne_none.mp (hwf.role.trans hext), Option.isSome_iff_ne_none.mp hext⟩
  · intro p d e mid pre hpre hcb refs o
    have hmid := (hpre.handled refs hwf).wellFormed
    have hp : mid.framePending = true := by
      rw [hmid.pending]
      exact Option.isSome_iff_ne_none.mpr hcb
    unfold klSurfaceRenderFrame
    exact if_pos (Or.inr hp)

/-- After the sample run. -/
theorem flags_sound_sampleRun : FlagsSound sampleRun.1.surf sampleRun.2 :=
  flags_sound sampleRun_reach

end Kirilock
