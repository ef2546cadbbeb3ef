import Kirilock.RenderCache
import Kirilock.MainMoves

/-!
What a surface holds of the outside: the memory of its own and of its engine, the cairo objects
of the engine, and what its buffers hold.

Every function of `surface.c` keeps the books: it acquires and releases so that the surface
holds what its fields say, whatever fails (`SurfaceFn.settles`), and `kl_surface_destroy`
leaves nothing (`klSurfaceDestroy_settles`).
-/

namespace Kirilock

open Runs Ownership Ledger

/-! ## Assets -/

/-- A resource of the outside, or what is allocated for a surface. -/
inductive Asset where
  | resource (r : Resource)
  | surface (addr : SurfaceRef)
  | engine
  deriving DecidableEq, Repr

def Call.assets : Call → List (Entry Asset)
  | .callocSurface ret => ret.toList.map fun addr => .acquire (.surface addr)
  | .callocEngine ok => if ok then [.acquire .engine] else []
  | .freeSurface addr => [.release (.surface addr)]
  | .freeEngine => [.release .engine]
  | c => c.entries.map (Entry.map Asset.resource)

def assets (cs : List Call) : List (Entry Asset) := cs.flatMap Call.assets

@[simp] theorem assets_nil : assets [] = [] := rfl

@[simp] theorem assets_cons (c : Call) (cs : List Call) :
    assets (c :: cs) = c.assets ++ assets cs := rfl

@[simp] theorem assets_append (cs ds : List Call) : assets (cs ++ ds) = assets cs ++ assets ds := by
  simp [assets]

/-- Calls that are only about resources of `buffer.c` and `render.c`. -/
theorem assets_of_backing {cs : List Call} (h : cs.all Call.backing) :
    assets cs = (entries cs).map (Entry.map Asset.resource) := by
  induction cs with
  | nil => rfl
  | cons c cs ih =>
    rw [List.all_cons, Bool.and_eq_true] at h
    rw [assets_cons, entries_cons, List.map_append, ih h.2]
    congr 1
    have hc := h.1
    cases c <;> first
      | rfl
      | exact absurd hc Bool.false_ne_true

theorem settles_resources {cs : List Call} {held held' : Multiset Resource}
    (h : Settles held (entries cs) held') (hb : cs.all Call.backing) :
    Settles (held.map Asset.resource) (assets cs) (held'.map Asset.resource) := by
  rw [assets_of_backing hb]
  exact h.map Asset.resource

/-! ## What a surface records -/

/-- What the engine of a surface holds. -/
def engineAssets : Option KlRenderEngine → Multiset Asset
  | none => 0
  | some engine => {.engine} + engine.recorded.map Asset.resource

def KlSurface.buffersRecorded (surf : KlSurface) : Multiset Resource :=
  ∑ i, (surf.buffers i).recorded

/-- What the fields of a surface say it holds. -/
def KlSurface.assets (surf : KlSurface) : Multiset Asset :=
  {.surface surf.addr} + (engineAssets surf.engine + surf.buffersRecorded.map Asset.resource)

/-- What the buffers in the other slots hold. -/
def KlSurface.restRecorded (surf : KlSurface) (i : Slot) : Multiset Resource :=
  ∑ j ∈ Finset.univ.erase i, (surf.buffers j).recorded

theorem buffersRecorded_split (surf : KlSurface) (i : Slot) :
    surf.buffersRecorded = (surf.buffers i).recorded + surf.restRecorded i :=
  (Finset.add_sum_erase _ _ (Finset.mem_univ i)).symm

theorem setBuffer_buffersRecorded (surf : KlSurface) (i : Slot) (b : KlBuffer) :
    (surf.setBuffer i b).buffersRecorded = b.recorded + surf.restRecorded i := by
  rw [buffersRecorded_split _ i, setBuffer_self]
  congr 1
  refine Finset.sum_congr rfl fun j hj => ?_
  rw [setBuffer_of_ne surf b (Finset.ne_of_mem_erase hj)]

/-- A change of one buffer. -/
theorem setBuffer_settles {surf : KlSurface} {i : Slot} {b : KlBuffer} {cs : List Call}
    (h : Settles (surf.buffers i).recorded (entries cs) b.recorded) (hb : cs.all Call.backing) :
    Settles surf.assets (assets cs) (surf.setBuffer i b).assets := by
  have hall := (settles_resources h hb).frame
    ({.surface surf.addr} + (engineAssets surf.engine + (surf.restRecorded i).map Asset.resource))
  refine hall.cast ?_ ?_
  · rw [KlSurface.assets, buffersRecorded_split surf i, Multiset.map_add]
    abel
  · rw [KlSurface.assets, setBuffer_buffersRecorded, Multiset.map_add]
    show _ = {Asset.surface surf.addr} + (engineAssets surf.engine + _)
    abel

/-! ## One frame -/

/-- Calls that hold and release nothing. -/
theorem settles_of_assets {cs : List Call} (h : assets cs = []) (held : Multiset Asset) :
    Settles held (assets cs) held := by
  rw [h]
  exact settles_nil held

theorem klSurfaceRenderFrameBuffer_settles (refs : CtxRefs) (surf : KlSurface) (i : Slot)
    (o : FrameOutcomes) :
    Settles surf.assets (assets (klSurfaceRenderFrameBuffer refs surf i o).2.2)
      (klSurfaceRenderFrameBuffer refs surf i o).2.1.assets := by
  unfold klSurfaceRenderFrameBuffer
  dsimp only
  split
  · refine setBuffer_settles ?_ ?_
    · rw [entries_append]
      exact (klBufferDestroy_settles _ _).append (klBufferCreate_settles _ _ _ _ _ _ _ _
        (klBufferDestroy_empty _ _) _)
    · rw [List.all_append, Bool.and_eq_true]
      exact ⟨klBufferDestroy_backing _ _, (klBufferCreate_creation _ _ _
        (klBufferDestroy_blank _ _) _ _ _ _ _ _).backing⟩
  · exact settles_nil _

theorem klRenderEngineDraw_settles (engine : Option KlRenderEngine) (cr : Option CairoRef)
    (width height : UInt32) (scale : Int32) (o : BakeOutcomes) :
    Settles (engineAssets engine)
      (assets (klRenderEngineDraw engine cr width height scale o).2)
      (engineAssets (klRenderEngineDraw engine cr width height scale o).1) := by
  cases engine with
  | none => exact settles_nil 0
  | some engine =>
    obtain ⟨engine', he, hstep⟩ := klRenderEngineDraw_step engine cr width height scale o
    have hb := (klRenderEngineDraw_inert (some engine) cr width height scale o).backing
    have h := (settles_resources hstep.settles hb).frame {Asset.engine}
    rw [he]
    exact h.cast (add_comm _ _) (add_comm _ _)

theorem klSurfaceRenderFrameDraw_settles (surf : KlSurface) (i : Slot) (o : FrameOutcomes) :
    Settles surf.assets (assets (klSurfaceRenderFrameDraw surf i o).2)
      (klSurfaceRenderFrameDraw surf i o).1.assets := by
  have hprepare : assets (klBufferPrepare (surf.buffers i)) = [] := by
    unfold klBufferPrepare
    split
    · rfl
    · split <;> rfl
  have hflush : assets (klBufferFlush (surf.buffers i)) = [] := by
    unfold klBufferFlush
    split <;> rfl
  have hdraw := (klRenderEngineDraw_settles surf.engine (surf.buffers i).cr surf.width surf.height
    surf.scale o.bake).frame
      ({.surface surf.addr} + surf.buffersRecorded.map Asset.resource)
  have hcalls : assets (klSurfaceRenderFrameDraw surf i o).2 = assets (klRenderEngineDraw
      surf.engine (surf.buffers i).cr surf.width surf.height surf.scale o.bake).2 := by
    simp only [klSurfaceRenderFrameDraw, assets_append, assets_cons, hprepare, hflush,
      List.nil_append, List.append_nil]
    rfl
  rw [hcalls]
  refine hdraw.cast ?_ ?_
  · rw [KlSurface.assets]
    abel
  · have hbufs : (klSurfaceRenderFrameDraw surf i o).1.buffersRecorded = surf.buffersRecorded := by
      rw [buffersRecorded_split surf i]
      exact setBuffer_buffersRecorded _ i _
    rw [KlSurface.assets, hbufs]
    show _ = {Asset.surface surf.addr} + (engineAssets (klRenderEngineDraw surf.engine
      (surf.buffers i).cr surf.width surf.height surf.scale o.bake).1 + _)
    abel

theorem klSurfaceRenderFrameCommit_settles (surf : KlSurface) (ws : Proxy) (i : Slot)
    (o : FrameOutcomes) :
    Settles surf.assets (assets (klSurfaceRenderFrameCommit surf ws i o).2)
      (klSurfaceRenderFrameCommit surf ws i o).1.assets := by
  unfold klSurfaceRenderFrameCommit
  dsimp only
  split
  · exact settles_nil _
  · split <;> exact settles_nil _

theorem klSurfaceRenderFrame_settles (refs : CtxRefs) (surf : KlSurface) (o : FrameOutcomes) :
    Settles surf.assets (assets (klSurfaceRenderFrame refs surf o).2)
      (klSurfaceRenderFrame refs surf o).1.assets := by
  have hcase := klSurfaceRenderFrame_case refs surf o
  generalize (klSurfaceRenderFrame refs surf o).1 = surf' at hcase ⊢
  generalize (klSurfaceRenderFrame refs surf o).2 = cs at hcase ⊢
  cases hcase with
  | skipped h => exact settles_nil _
  | noBuffer h hi hbusy => exact settles_nil _
  | createFailed h i hi hfree buf hbuf hr =>
    rw [assets_append, ← hbuf]
    exact (settles_of_assets rfl _).append
      (klSurfaceRenderFrameBuffer_settles refs (surf.setCurrent i) i o)
  | drawn h ws hws i hi hfree buf hbuf hr draw hdraw =>
    have hentry : Settles surf.assets (assets (frameEntry surf (some i)))
      (surf.setCurrent i).assets := settles_nil _
    have hbuffer := klSurfaceRenderFrameBuffer_settles refs (surf.setCurrent i) i o
    have hdrawn := klSurfaceRenderFrameDraw_settles buf.2.1 i o
    rw [hbuf] at hbuffer
    rw [hdraw] at hdrawn
    simp only [assets_append]
    exact ((hentry.append hbuffer).append hdrawn).append
      (klSurfaceRenderFrameCommit_settles draw.1 ws i o)

/-! ## The functions of a surface -/

theorem klSurfaceRequestRender_settles (refs : CtxRefs) (surf : KlSurface) (o : FrameOutcomes) :
    Settles surf.assets (assets (klSurfaceRequestRender refs surf o).2)
      (klSurfaceRequestRender refs surf o).1.assets := by
  unfold klSurfaceRequestRender
  dsimp only
  split
  · exact klSurfaceRenderFrame_settles refs surf.setDirty o
  · exact settles_nil _

theorem klSurfaceBufferRelease_settles (refs : CtxRefs) (surf : KlSurface) (i : Slot)
    (o : FrameOutcomes) :
    Settles surf.assets (assets (klSurfaceBufferRelease refs surf i o).2)
      (klSurfaceBufferRelease refs surf i o).1.assets := by
  have hfree : (surf.setBuffer i (klBufferHandleRelease (surf.buffers i)).1).assets =
      surf.assets := by
    rw [KlSurface.assets, KlSurface.assets, setBuffer_buffersRecorded,
      buffersRecorded_split surf i, klBufferHandleRelease_fst]
    rfl
  rw [← hfree]
  unfold klSurfaceBufferRelease
  dsimp only
  split
  · split
    · unfold klSurfaceOnBufferRelease
      split
      · exact klSurfaceRenderFrame_settles refs _ o
      · exact settles_nil _
    · exact settles_nil _
  · exact settles_nil _

theorem klOutputHandleScale_settles (refs : CtxRefs) (surf : KlSurface) (factor : Int32)
    (o : FrameOutcomes) :
    Settles surf.assets (assets (klOutputHandleScale refs surf factor o).2)
      (klOutputHandleScale refs surf factor o).1.assets := by
  unfold klOutputHandleScale
  split
  · exact klSurfaceRequestRender_settles refs (KlSurface.setDirty { surf with scale := factor }) o
  · exact settles_nil _

theorem klSurfaceFrameHandleDone_settles (refs : CtxRefs) (surf : KlSurface) (callback : Proxy)
    (o : FrameOutcomes) :
    Settles surf.assets (assets (klSurfaceFrameHandleDone refs surf callback o).2)
      (klSurfaceFrameHandleDone refs surf callback o).1.assets :=
  klSurfaceRenderFrame_settles refs
    { surf with frameCallback := none, framePending := false } o

theorem klLockSurfaceHandleConfigure_settles (refs : CtxRefs) (surf : KlSurface)
    (extSurface : Proxy) (serial width height : UInt32) (o : FrameOutcomes) :
    Settles surf.assets
      (assets (klLockSurfaceHandleConfigure refs surf extSurface serial width height o).2)
      (klLockSurfaceHandleConfigure refs surf extSurface serial width height o).1.assets :=
  klSurfaceRequestRender_settles refs
    { surf with width := width, height := height, configured := true } o

theorem klSurfaceHandle_settles {refs : CtxRefs} {surf : KlSurface} {p : Proxy} {d : Listener}
    {e : ProxyEvent} {o : FrameOutcomes} {r : KlSurface × List Call}
    (h : klSurfaceHandle refs surf p d e o = some r) :
    Settles surf.assets (assets r.2) r.1.assets := by
  unfold klSurfaceHandle at h
  split at h <;> first
    | cases h
    | (split at h
       · obtain rfl := Option.some.inj h
         first
           | exact klOutputHandleScale_settles refs surf _ o
           | exact klLockSurfaceHandleConfigure_settles refs surf p _ _ _ o
           | exact klSurfaceFrameHandleDone_settles refs surf p o
           | exact klSurfaceBufferRelease_settles refs surf _ o
           | exact settles_nil _
       · cases h)

theorem klSurfaceAttachLock_settles (refs : CtxRefs) (surf : KlSurface) (o : AttachOutcomes) :
    Settles surf.assets (assets (klSurfaceAttachLock refs surf o).2.2)
      (klSurfaceAttachLock refs surf o).2.1.assets := by
  have hbody : assets (klSurfaceAttachLockBody refs surf o).2.2 = [] ∧
      (klSurfaceAttachLockBody refs surf o).2.1.assets = surf.assets := by
    unfold klSurfaceAttachLockBody
    dsimp only
    split
    · split
      · exact ⟨rfl, rfl⟩
      · split
        · exact ⟨rfl, rfl⟩
        · exact ⟨rfl, rfl⟩
        · split <;> exact ⟨rfl, rfl⟩
    · exact ⟨rfl, rfl⟩
  rw [klSurfaceAttachLock, assets_append, hbody.1, hbody.2]
  exact settles_nil _

/-- The loop destroys the buffers it comes to. -/
theorem klSurfaceDetachBuffers_settles (surf : KlSurface) (is : List Slot) :
    Settles surf.assets (assets (klSurfaceDetachBuffers surf is).2)
      (klSurfaceDetachBuffers surf is).1.assets := by
  induction is generalizing surf with
  | nil => exact settles_nil _
  | cons i is ih =>
    rw [klSurfaceDetachBuffers, assets_append]
    refine (setBuffer_settles ?_ (klBufferDestroy_backing _ _)).append (ih _)
    rw [(klBufferDestroy_empty (surf.ref i) (surf.buffers i)).recorded]
    exact klBufferDestroy_settles (surf.ref i) (surf.buffers i)

/-- What the loop has come to holds nothing. -/
theorem klSurfaceDetachBuffers_empty (surf : KlSurface) (is : List Slot) :
    ∀ i, i ∈ is ∨ (surf.buffers i).Empty →
      ((klSurfaceDetachBuffers surf is).1.buffers i).Empty := by
  induction is generalizing surf with
  | nil => exact fun i hi => hi.resolve_left (by simp)
  | cons j is ih =>
    intro i hi
    rw [klSurfaceDetachBuffers]
    refine ih _ i ?_
    by_cases hj : i = j
    · subst hj
      rw [setBuffer_self]
      exact Or.inr (klBufferDestroy_empty _ _)
    · rw [setBuffer_of_ne surf _ hj]
      exact hi.imp_left fun hm => (List.mem_cons.mp hm).resolve_left hj

/-- A detached surface holds its memory and its engine. -/
theorem klSurfaceDetachLock_settles (surf : KlSurface) :
    Settles surf.assets (assets (klSurfaceDetachLock surf).2)
        (klSurfaceDetachLock surf).1.assets ∧
      (klSurfaceDetachLock surf).1.buffersRecorded = 0 := by
  have hbufs := klSurfaceDetachBuffers_settles { surf with frameCallback := none }
    (List.finRange klSurfaceBufferCount)
  have hempty := klSurfaceDetachBuffers_empty { surf with frameCallback := none }
    (List.finRange klSurfaceBufferCount)
  have hfield : ∀ (x : Option Proxy) (f : Proxy → Call), (∀ p, (f p).assets = []) →
      assets (x.toList.map f) = [] := by
    intro x f hf
    cases x with
    | none => rfl
    | some p => simp [hf]
  constructor
  · have hcalls : assets (klSurfaceDetachLock surf).2 =
        assets (klSurfaceDetachBuffers { surf with frameCallback := none }
          (List.finRange klSurfaceBufferCount)).2 := by
      simp only [klSurfaceDetachLock, assets_append, assets_cons, hfield _ Call.wlCallbackDestroy
        fun _ => rfl, hfield _ Call.extSessionLockSurfaceV1Destroy fun _ => rfl,
        hfield _ Call.wlSurfaceDestroy fun _ => rfl, List.append_nil]
      rfl
    rw [hcalls]
    exact hbufs
  · refine Finset.sum_eq_zero fun i _ => (hempty i ?_).recorded
    exact Or.inl (List.mem_finRange i)

theorem klRenderEngineDestroy_settles (engine : Option KlRenderEngine) :
    Settles (engineAssets engine) (assets (klRenderEngineDestroy engine)) 0 := by
  cases engine with
  | none => exact settles_nil 0
  | some engine =>
    have hclean := settles_resources (klRenderCleanupBaked_settles engine)
      (klRenderCleanupBaked_inert engine).backing
    rw [klRenderEngineDestroy, assets_append]
    exact ((hclean.frame {Asset.engine}).cast (add_comm _ _) rfl).append
      ((settles_release Asset.engine 0).cast (add_comm _ _) rfl)

theorem klSurfaceDestroyRest_settles {surf : KlSurface} (h : surf.buffersRecorded = 0)
    (releasable : Bool) :
    Settles surf.assets (assets (klSurfaceDestroyRest surf releasable)) 0 := by
  have hdrop : assets (surf.wlOutput.toList.flatMap (wlOutputDrop · releasable)) = [] := by
    cases surf.wlOutput with
    | none => rfl
    | some output => cases releasable <;> rfl
  have hengine := (klRenderEngineDestroy_settles surf.engine).frame {Asset.surface surf.addr}
  have hfree : Settles ({Asset.surface surf.addr} + 0) [.release (.surface surf.addr)] 0 :=
    settles_release _ 0
  rw [klSurfaceDestroyRest, assets_append, assets_append, hdrop, List.nil_append]
  refine (hengine.cast ?_ (add_comm _ _)).append hfree
  rw [KlSurface.assets, h, Multiset.map_zero, add_zero, add_comm]

/-- **`kl_surface_destroy`** releases all that the surface holds. -/
theorem klSurfaceDestroy_settles (surf : KlSurface) (releasable : Bool) :
    Settles surf.assets (assets (klSurfaceDestroy surf releasable)) 0 := by
  obtain ⟨hdetach, hbufs⟩ := klSurfaceDetachLock_settles surf
  rw [klSurfaceDestroy_eq, assets_append]
  exact hdetach.append (klSurfaceDestroyRest_settles hbufs releasable)

/-- A surface that was just created holds its memory and its engine. -/
theorem assets_new {surf : KlSurface} (hbufs : surf.buffers = fun _ => .zeroed)
    (hengine : surf.engine = some .empty) :
    surf.assets = {.engine} + {.surface surf.addr} := by
  have hnone : surf.buffersRecorded = 0 := by
    rw [KlSurface.buffersRecorded, hbufs]
    exact Finset.sum_eq_zero fun i _ => rfl
  have hempty : KlRenderEngine.empty.recorded = 0 := rfl
  rw [KlSurface.assets, hnone, hengine, engineAssets, hempty, Multiset.map_zero, add_zero,
    add_zero, add_comm]

/-- **`kl_surface_create`** holds what the surface it returns records, or nothing. -/
theorem klSurfaceCreate_settles (output : Proxy) (name : UInt32) (o : CreateOutcomes) :
    Settles 0 (assets (klSurfaceCreate output name o).2)
      ((klSurfaceCreate output name o).1.elim 0 KlSurface.assets) := by
  unfold klSurfaceCreate
  cases ha : o.calloc with
  | none => exact settles_nil 0
  | some addr =>
    have hsurf := settles_acquire (Asset.surface addr) 0
    cases he : o.engine with
    | false => exact hsurf.append (settles_release (Asset.surface addr) 0)
    | true =>
      refine (hsurf.append (settles_acquire Asset.engine _)).cast rfl ?_
      symm
      apply assets_new <;> rfl

/-! ## Items -/

def Item.assets : Item → List (Entry Asset)
  | .event .. => []
  | .call c => c.assets

def itemAssets (tr : List Item) : List (Entry Asset) := tr.flatMap Item.assets

@[simp] theorem itemAssets_append (tr out : List Item) :
    itemAssets (tr ++ out) = itemAssets tr ++ itemAssets out := by
  simp [itemAssets]

theorem itemAssets_calls (cs : List Call) : itemAssets (calls cs) = assets cs := by
  induction cs with
  | nil => rfl
  | cons c cs ih =>
    rw [calls_cons, assets_cons, ← ih]
    rfl

/-- **Every function of `surface.c`** keeps the books. -/
theorem SurfaceFn.settles {refs : CtxRefs} {t : Table Proxy Listener} {surf surf' : KlSurface}
    {items : List Item} (h : SurfaceFn refs t surf surf' items) :
    Settles surf.assets (itemAssets items) surf'.assets := by
  cases h with
  | handle p d e o r hp hr =>
    show Settles _ (itemAssets (calls r.2)) _
    rw [itemAssets_calls]
    exact klSurfaceHandle_settles hr
  | attach o =>
    rw [itemAssets_calls]
    exact klSurfaceAttachLock_settles refs surf o
  | detach =>
    rw [itemAssets_calls]
    exact (klSurfaceDetachLock_settles surf).1

end Kirilock
