import Kirilock.SurfaceRun

/-!
What is committed: the size, scale and buffer of every `wl_surface` commit.

`CommitView` reads a history the way the compositor does: which lock surface is
attached, which size was acked last, what is attached to the `wl_surface` and at
which scale.  `CommitInv` ties the fields of the surface to it:

    configured            →  the acked size is (width, height)
    buffers[i].wl_buffer  →  made by kl_buffer_create at the size in buffers[i]
    scale                 =  the last positive output scale

and `commit_sound` reads the protocol's conditions on a commit off it.
-/

namespace Kirilock

open Runs Ownership

/-! ## The compositor's view -/

structure CommitView where
  /-- the attached lock surface and its `wl_surface` -/
  role : Option (Proxy × Proxy)
  /-- the last configure event: lock surface, serial, width and height -/
  configure : Option (Proxy × UInt32 × UInt32 × UInt32)
  /-- the size of the most recently acked configure of the attached lock surface -/
  acked : Option (UInt32 × UInt32)
  /-- what was attached, and at which scale, since the last commit -/
  attached : Option (Proxy × Option Proxy)
  bufferScale : Option (Proxy × Int32)
  /-- the last positive output scale -/
  outputScale : Int32

def CommitView.start : CommitView := ⟨none, none, none, none, none, 1⟩

def CommitView.item (v : CommitView) : Item → CommitView
  | .event _ _ (.scale factor) => if 0 < factor then { v with outputScale := factor } else v
  | .event p _ (.configure serial width height) =>
    { v with configure := some (p, serial, width, height) }
  | .call (.extSessionLockV1GetLockSurface _ ws _ (some ls)) =>
    { v with role := some (ls, ws), configure := none, acked := none }
  | .call (.extSessionLockSurfaceV1AckConfigure p serial) =>
    match v.configure with
    | some (q, serial', width, height) =>
      if q = p ∧ serial' = serial ∧ v.role.map Prod.fst = some p then
        { v with acked := some (width, height) }
      else v
    | none => v
  | .call (.extSessionLockSurfaceV1Destroy _) => { v with role := none, acked := none }
  | .call (.wlSurfaceSetBufferScale ws scale) => { v with bufferScale := some (ws, scale) }
  | .call (.wlSurfaceAttach ws buffer) => { v with attached := some (ws, buffer) }
  | .call (.wlSurfaceCommit _) => { v with bufferScale := none, attached := none }
  | _ => v

def commitView (tr : List Item) : CommitView := tr.foldl CommitView.item .start

theorem commitView_append (tr out : List Item) :
    commitView (tr ++ out) = out.foldl CommitView.item (commitView tr) := by
  simp [commitView]

/-- The configure events, and the acks, of a history. -/
def Item.configure : Item → Option (Proxy × UInt32)
  | .event p _ (.configure serial _ _) => some (p, serial)
  | _ => none

def Item.ack : Item → Option (Proxy × UInt32)
  | .call (.extSessionLockSurfaceV1AckConfigure p serial) => some (p, serial)
  | _ => none

def configures (tr : List Item) : List (Proxy × UInt32) := tr.filterMap Item.configure

def acks (tr : List Item) : List (Proxy × UInt32) := tr.filterMap Item.ack

/-- What the protocol asks of a commit of `ws` after the history `pre`. -/
structure CommitOk (pre : List Item) (ws : Proxy) : Prop where
  role : ∃ ls, (commitView pre).role = some (ls, ws)
  buffer : ∃ width height scale wb buf old, (commitView pre).acked = some (width, height) ∧
    (commitView pre).bufferScale = some (ws, scale) ∧
    (commitView pre).attached = some (ws, some wb) ∧
    .call (.klBufferCreate buf old width height scale (some wb)) ∈ pre ∧
    (commitView pre).outputScale = scale
  acked : acks pre = configures pre

def CommitsOk (tr : List Item) : Prop :=
  Always (fun pre it => ∀ ws, it = .call (.wlSurfaceCommit ws) → CommitOk pre ws) tr

/-! ## Calls that no view sees -/

/-- Calls that neither configure, attach nor commit. -/
def Call.quiet : Call → Bool
  | .extSessionLockV1GetLockSurface _ _ _ (some _) => false
  | .extSessionLockSurfaceV1AckConfigure .. => false
  | .extSessionLockSurfaceV1Destroy .. => false
  | .wlSurfaceSetBufferScale .. => false
  | .wlSurfaceAttach .. => false
  | .wlSurfaceCommit .. => false
  | _ => true

/-- What being quiet means. -/
theorem Call.quiet_spec {c : Call} (h : c.quiet = true) :
    (∀ v, CommitView.item v (.call c) = v) ∧ Item.ack (.call c) = none ∧
      ∀ ws, c ≠ .wlSurfaceCommit ws := by
  cases c
  case extSessionLockV1GetLockSurface lock ws output ret =>
    cases ret with
    | none => exact ⟨fun _ => rfl, rfl, fun _ => Call.noConfusion⟩
    | some ls => cases h
  all_goals first
    | exact absurd h Bool.false_ne_true
    | exact ⟨fun _ => rfl, rfl, fun _ => Call.noConfusion⟩

def Quiet (cs : List Call) : Prop := cs.all Call.quiet = true

theorem Quiet.append {cs ds : List Call} (h1 : Quiet cs) (h2 : Quiet ds) : Quiet (cs ++ ds) := by
  rw [Quiet, List.all_append, h1, h2]
  rfl

theorem Quiet.cons {c : Call} {cs : List Call} (h : c.quiet = true) (hs : Quiet cs) :
    Quiet (c :: cs) := by
  rw [Quiet, List.all_cons, h, hs]
  rfl

theorem Quiet.mem {cs : List Call} (h : Quiet cs) {c : Call} (hc : c ∈ cs) : c.quiet = true :=
  List.all_eq_true.mp h c hc

theorem quiet_of_backing {cs : List Call} (h : cs.all Call.backing) : Quiet cs := by
  refine List.all_eq_true.mpr fun c hc => ?_
  have hb := List.all_eq_true.mp h c hc
  cases c <;> first
    | exact absurd hb Bool.false_ne_true
    | rfl

theorem Quiet.commitView {cs : List Call} (h : Quiet cs) (tr : List Item) :
    commitView (tr ++ calls cs) = commitView tr := by
  rw [commitView_append]
  generalize Kirilock.commitView tr = v
  induction cs with
  | nil => rfl
  | cons c cs ih =>
    have hc := (Call.quiet_spec (h.mem List.mem_cons_self)).1 v
    rw [calls_cons, List.foldl_cons, hc, ih ((Bool.and_eq_true_iff.mp h).2)]

theorem Quiet.acks {cs : List Call} (h : Quiet cs) (tr : List Item) :
    acks (tr ++ calls cs) = acks tr := by
  have hn : (calls cs).filterMap Item.ack = [] := by
    rw [List.filterMap_eq_nil_iff]
    intro it hit
    obtain ⟨c, hc, rfl⟩ := List.mem_map.mp hit
    exact (Call.quiet_spec (h.mem hc)).2.1
  rw [Kirilock.acks, List.filterMap_append, hn, List.append_nil]
  rfl

/-- Calls deliver no configure event. -/
theorem configures_calls (tr : List Item) (cs : List Call) :
    configures (tr ++ calls cs) = configures tr := by
  have hn : (calls cs).filterMap Item.configure = [] := by
    rw [List.filterMap_eq_nil_iff]
    intro it hit
    obtain ⟨c, -, rfl⟩ := List.mem_map.mp hit
    rfl
  rw [configures, List.filterMap_append, hn, List.append_nil]
  rfl

theorem Quiet.commitsOk {cs : List Call} (h : Quiet cs) {tr : List Item} (htr : CommitsOk tr) :
    CommitsOk (tr ++ calls cs) := by
  refine Always.append_of_forall htr fun it hit pre ws he => ?_
  obtain ⟨c, hc, rfl⟩ := List.mem_map.mp hit
  exact absurd (Item.call.inj he) ((Call.quiet_spec (h.mem hc)).2.2 ws)

/-! ## The invariant -/

/-- The surface's fields agree with the compositor's view, and every commit so far was right. -/
structure CommitInv (surf : KlSurface) (tr : List Item) : Prop where
  role : ∀ ls ws, surf.extLockSurface = some ls → surf.wlSurface = some ws →
    (commitView tr).role = some (ls, ws)
  size : surf.configured = true → (commitView tr).acked = some (surf.width, surf.height)
  scale : (commitView tr).outputScale = surf.scale
  made : ∀ i wb, (surf.buffers i).wlBuffer = some wb → ∃ buf old,
    .call (.klBufferCreate buf old (surf.buffers i).width (surf.buffers i).height
      (surf.buffers i).scale (some wb)) ∈ tr
  acked : acks tr = configures tr
  commits : CommitsOk tr

/-- Items that change neither the role, the acked size nor the output scale. -/
theorem CommitInv.extend {surf : KlSurface} {tr out : List Item} (h : CommitInv surf tr)
    (hrole : (commitView (tr ++ out)).role = (commitView tr).role)
    (hacked : (commitView (tr ++ out)).acked = (commitView tr).acked)
    (hscale : (commitView (tr ++ out)).outputScale = (commitView tr).outputScale)
    (hacks : acks (tr ++ out) = configures (tr ++ out)) (hcommits : CommitsOk (tr ++ out)) :
    CommitInv surf (tr ++ out) := by
  refine ⟨?_, ?_, ?_, fun i wb hwb => ?_, hacks, hcommits⟩
  · rw [hrole]
    exact h.role
  · rw [hacked]
    exact h.size
  · rw [hscale]
    exact h.scale
  · obtain ⟨buf, old, hm⟩ := h.made i wb hwb
    exact ⟨buf, old, List.mem_append_left _ hm⟩

theorem CommitInv.quiet {surf : KlSurface} {tr : List Item} (h : CommitInv surf tr)
    {cs : List Call} (hq : Quiet cs) : CommitInv surf (tr ++ calls cs) := by
  have hv := hq.commitView tr
  refine h.extend (by rw [hv]) (by rw [hv]) (by rw [hv]) ?_ (hq.commitsOk h.commits)
  rw [hq.acks, configures_calls]
  exact h.acked

/-! ## One frame -/

theorem frameEntry_quiet (surf : KlSurface) (ret : Option Slot) : Quiet (frameEntry surf ret) :=
  rfl

theorem frameListen_quiet (surf : KlSurface) (o : FrameOutcomes) : Quiet (frameListen surf o) := by
  unfold frameListen
  cases o.frame with
  | none => rfl
  | some cb => cases o.addListener <;> rfl

/-- The view once a buffer is attached at a scale, before the commit. -/
theorem commitView_attach (tr : List Item) (ws wb : Proxy) (scale : Int32) :
    commitView (tr ++ calls [.wlSurfaceSetBufferScale ws scale, .wlSurfaceAttach ws (some wb)]) =
      { commitView tr with
        bufferScale := some (ws, scale)
        attached := some (ws, some wb) } := by
  rw [commitView_append]
  rfl

theorem CommitInv.attachBuffer {surf : KlSurface} {tr : List Item} (h : CommitInv surf tr)
    (ws wb : Proxy) (scale : Int32) : CommitInv surf
      (tr ++ calls [.wlSurfaceSetBufferScale ws scale, .wlSurfaceAttach ws (some wb)]) := by
  have hv := commitView_attach tr ws wb scale
  refine h.extend (by rw [hv]) (by rw [hv]) (by rw [hv]) ?_ ?_
  · rw [configures_calls, ← h.acked]
    simp [acks, Item.ack]
  · refine Always.append_of_forall h.commits fun it hit pre ws' he => ?_
    subst he
    simp at hit

theorem CommitInv.snocCommit {surf : KlSurface} {tr : List Item} (h : CommitInv surf tr)
    {ws : Proxy} (hok : CommitOk tr ws) :
    CommitInv surf (tr ++ [Item.call (.wlSurfaceCommit ws)]) := by
  have hv : commitView (tr ++ [Item.call (.wlSurfaceCommit ws)]) =
      { commitView tr with bufferScale := none, attached := none } := by
    rw [commitView_append]
    rfl
  refine h.extend (by rw [hv]) (by rw [hv]) (by rw [hv]) ?_
    (always_snoc.mpr ⟨h.commits, fun ws' he => ?_⟩)
  · simp only [acks, configures, List.filterMap_append]
    exact congrArg₂ (· ++ ·) h.acked rfl
  · cases he
    exact hok

/-- A commit of the buffer `wb` at the acked size and the surface's scale is right. -/
theorem CommitInv.commit {surf : KlSurface} {tr : List Item} (h : CommitInv surf tr)
    {ws wb : Proxy} (hc : surf.configured = true) (hext : surf.extLockSurface.isSome = true)
    (hws : surf.wlSurface = some ws) {buf : BufferRef} {old : Option Proxy}
    (hm : .call (.klBufferCreate buf old surf.width surf.height surf.scale (some wb)) ∈ tr)
    (o : FrameOutcomes) : CommitInv surf (tr ++ calls (frameCommit surf ws wb o)) := by
  obtain ⟨ls, hls⟩ := Option.isSome_iff_exists.mp hext
  -- the quiet requests between `wl_surface_attach` and `wl_surface_commit`
  let mid := [.wlSurfaceDamage ws surf.width.toInt32 surf.height.toInt32,
    .wlSurfaceFrame ws o.frame] ++ frameListen surf o
  have hmid : Quiet mid := Quiet.append rfl (frameListen_quiet surf o)
  let pre := tr ++ calls [.wlSurfaceSetBufferScale ws surf.scale, .wlSurfaceAttach ws (some wb)] ++
    calls mid
  have hview : commitView pre = { commitView tr with
      bufferScale := some (ws, surf.scale)
      attached := some (ws, some wb) } :=
    (hmid.commitView _).trans (commitView_attach tr ws wb surf.scale)
  have hpre : CommitInv surf pre := (h.attachBuffer ws wb surf.scale).quiet hmid
  have hok : CommitOk pre ws := by
    refine ⟨⟨ls, hpre.role ls ws hls hws⟩, ⟨surf.width, surf.height, surf.scale, wb, buf, old,
      hpre.size hc, by rw [hview], by rw [hview], ?_, hpre.scale⟩, hpre.acked⟩
    exact List.mem_append_left _ (List.mem_append_left _ hm)
  have hsplit : tr ++ calls (frameCommit surf ws wb o) = pre ++ [.call (.wlSurfaceCommit ws)] := by
    simp [pre, mid, frameCommit]
  rw [hsplit]
  exact hpre.snocCommit hok

/-- The buffer in slot `i` was made at the size it records, once the calls that may
replace it have been made. -/
theorem BufferCalls.made {refs : CtxRefs} {surf : KlSurface} {tr : List Item}
    (h : CommitInv surf tr) {i : Slot} {b : KlBuffer} {cs : List Call}
    (hcs : BufferCalls refs surf i b cs) {wb : Proxy} (hb : b.Fits surf wb) :
    ∃ buf old, .call (.klBufferCreate buf old surf.width surf.height surf.scale (some wb)) ∈
      tr ++ calls cs := by
  rcases hcs.kept_or_created with ⟨hwb, rfl, rfl⟩ | hm
  · obtain ⟨buf, old, hm⟩ := h.made i wb hb.wlBuffer
    rw [hb.width, hb.height, hb.scale] at hm
    exact ⟨buf, old, List.mem_append_left _ hm⟩
  · rw [hb.wlBuffer] at hm
    exact ⟨_, _, List.mem_append_right _ (List.mem_map_of_mem hm)⟩

theorem CommitInv.frame {refs : CtxRefs} {surf surf' : KlSurface} {o : FrameOutcomes}
    {cs : List Call} {tr : List Item} (hwf : surf.WellFormed) (h : CommitInv surf tr)
    (hf : FrameStep refs surf o surf' cs) : CommitInv surf' (tr ++ calls cs) := by
  cases hf with
  | skipped => exact h.quiet rfl
  | noBuffer hc hp hbusy =>
    have h' := h.quiet (frameEntry_quiet surf none)
    exact ⟨h'.role, h'.size, h'.scale, h'.made, h'.acked, h'.commits⟩
  | createFailed hc hp i hfree b hb c1 hc1 hfail =>
    have h' := h.quiet ((frameEntry_quiet surf (some i)).append (quiet_of_backing hc1.backing))
    refine ⟨h'.role, h'.size, h'.scale, fun j wb hj => ?_, h'.acked, h'.commits⟩
    by_cases hji : j = i
    · subst hji
      rw [setBuffer_self, hb.wlBuffer] at hj
      cases hj
    · rw [setBuffer_of_ne _ _ hji] at hj ⊢
      exact h'.made j wb hj
  | committed hc hp ws hws hw hh i hfree b wb hb c1 c2 c3 hc1 hc2 hc3 engine t0 t1 el =>
    have hquiet : Quiet (frameEntry surf (some i) ++ c1 ++ c2 ++
        .klRenderEngineDraw (surf.ref i) (some wb) surf.width surf.height surf.scale el :: c3) :=
      (((frameEntry_quiet surf (some i)).append (quiet_of_backing hc1.backing)).append
        (quiet_of_backing hc2.backing)).append (Quiet.cons rfl (quiet_of_backing hc3.backing))
    obtain ⟨buf, old, hm⟩ := hc1.made h hb
    have hm' : .call (.klBufferCreate buf old surf.width surf.height surf.scale (some wb)) ∈
        tr ++ calls (frameEntry surf (some i) ++ c1 ++ c2 ++
          .klRenderEngineDraw (surf.ref i) (some wb) surf.width surf.height surf.scale el ::
          c3) := by
      simp only [calls_append, List.mem_append] at hm ⊢
      tauto
    have h' := (h.quiet hquiet).commit hc (hwf.configured hc) hws hm' o
    rw [List.append_assoc, ← calls_append] at h'
    refine ⟨h'.role, h'.size, h'.scale, fun j wb' hj => ?_, h'.acked, h'.commits⟩
    by_cases hji : j = i
    · subst hji
      simp only [KlSurface.committed, Function.update_self] at hj ⊢
      rw [hb.wlBuffer] at hj
      cases hj
      rw [hb.width, hb.height, hb.scale, calls_append, ← List.append_assoc]
      exact ⟨buf, old, List.mem_append_left _ hm'⟩
    · simp only [KlSurface.committed, Function.update_of_ne hji] at hj ⊢
      exact h'.made j wb' hj

/-! ## Attachment, detachment and events -/

theorem KlSurface.WellFormed.not_configured {surf : KlSurface} (hwf : surf.WellFormed)
    (hn : surf.extLockSurface = none) : surf.configured = false := by
  cases hc : surf.configured with
  | false => rfl
  | true => simpa [hn] using hwf.configured hc

theorem CommitInv.attach {refs : CtxRefs} {surf surf' : KlSurface} {o : AttachOutcomes} {ok : Bool}
    {cs : List Call} {tr : List Item} (hwf : surf.WellFormed) (h : CommitInv surf tr)
    (ha : AttachStep refs surf o ok surf' cs) : CommitInv surf' (tr ++ calls cs) := by
  cases ha with
  | refused => exact h.quiet rfl
  | already => exact h.quiet rfl
  | noSurface => exact h.quiet rfl
  | noLockSurface => exact h.quiet rfl
  | attached lock compositor ws output ls ok hl hc ho hn =>
    have h1 : CommitInv surf (tr ++ calls [.wlCompositorCreateSurface compositor (some ws)]) :=
      h.quiet rfl
    have hview : ∀ t, commitView (t ++
        calls [.extSessionLockV1GetLockSurface lock ws output (some ls)]) =
        { commitView t with role := some (ls, ws), configure := none, acked := none } := by
      intro t
      rw [commitView_append]
      rfl
    -- the new role: nothing is acked yet, and the surface is not configured
    have h2 : CommitInv { surf with wlSurface := some ws, extLockSurface := some ls }
        (tr ++ calls [.wlCompositorCreateSurface compositor (some ws)] ++
          calls [.extSessionLockV1GetLockSurface lock ws output (some ls)]) := by
      refine ⟨fun ls' ws' he he' => ?_, fun hc => ?_, ?_, fun i wb hwb => ?_, ?_, ?_⟩
      · cases he
        cases he'
        rw [hview]
      · exact absurd hc (by simp [hwf.not_configured hn])
      · rw [hview]
        exact h1.scale
      · obtain ⟨buf, old, hm⟩ := h1.made i wb hwb
        exact ⟨buf, old, List.mem_append_left _ hm⟩
      · rw [configures_calls, ← h1.acked]
        exact List.filterMap_append.trans (List.append_nil _)
      · exact Always.append_of_forall h1.commits (by simp)
    have h3 := h2.quiet (show Quiet [.extSessionLockSurfaceV1AddListener ls surf.addr ok,
      .klSurfaceAttachLock surf.addr ok] from rfl)
    simpa using h3

theorem CommitInv.detach {surf surf' surf'' : KlSurface} {cs : List Call} {tr : List Item}
    (h : CommitInv surf tr) (hd : Detached surf surf')
    (hbufs : DetachedBuffers { surf with frameCallback := none }
      (List.finRange klSurfaceBufferCount) surf'' cs) :
    CommitInv surf' (tr ++ calls (detachCalls surf cs)) := by
  have hcb : Quiet (surf.frameCallback.toList.map .wlCallbackDestroy) := by
    cases surf.frameCallback <;> rfl
  have hws : Quiet (surf.wlSurface.toList.map .wlSurfaceDestroy) := by
    cases surf.wlSurface <;> rfl
  have h1 : CommitInv surf (tr ++ calls (.klSurfaceDetachLock surf.addr ::
      surf.frameCallback.toList.map .wlCallbackDestroy ++ cs)) :=
    h.quiet ((Quiet.cons rfl hcb).append (quiet_of_backing hbufs.backing))
  -- a detached surface only keeps its scale
  have hdetached : ∀ {t}, (commitView t).outputScale = surf.scale → acks t = configures t →
      CommitsOk t → CommitInv surf' t := by
    intro t hs ha hc
    refine ⟨fun ls ws he => ?_, fun he => ?_, ?_, fun i wb hwb => ?_, ha, hc⟩
    · rw [hd.extLockSurface] at he
      cases he
    · rw [hd.configured] at he
      cases he
    · rw [hs, hd.scale]
    · rw [(hd.blank i).wlBuffer] at hwb
      cases hwb
  have h2 : CommitInv surf' (tr ++ calls (.klSurfaceDetachLock surf.addr ::
      surf.frameCallback.toList.map .wlCallbackDestroy ++ cs) ++
      calls (surf.extLockSurface.toList.map .extSessionLockSurfaceV1Destroy)) := by
    cases surf.extLockSurface with
    | none =>
      rw [Option.toList_none, List.map_nil, calls_nil, List.append_nil]
      exact hdetached h1.scale h1.acked h1.commits
    | some ls =>
      refine hdetached ?_ ?_ (Always.append_of_forall h1.commits (by simp))
      · rw [commitView_append]
        exact h1.scale
      · rw [configures_calls, ← h1.acked]
        exact List.filterMap_append.trans (List.append_nil _)
  have h3 := h2.quiet hws
  simpa [detachCalls] using h3

theorem CommitInv.prepared {surf mid : KlSurface} {p : Proxy} {d : Listener} {e : ProxyEvent}
    {cs : List Call} {tr : List Item} (hwf : surf.WellFormed) (h : CommitInv surf tr)
    (hp : Prepared surf p d e mid cs) : CommitInv mid (tr ++ .event p d e :: calls cs) := by
  -- an event the view does not see
  have hevent : (∀ v, CommitView.item v (.event p d e) = v) → Item.configure (.event p d e) = none →
      CommitInv surf (tr ++ [Item.event p d e]) := by
    intro hv hc
    have hv' : commitView (tr ++ [Item.event p d e]) = commitView tr := by
      rw [commitView_append]
      exact hv _
    refine h.extend (by rw [hv']) (by rw [hv']) (by rw [hv']) ?_
      (Always.append_of_forall h.commits (by simp))
    simp only [acks, configures, List.filterMap_append, List.filterMap_cons, hc]
    exact congrArg₂ (· ++ ·) h.acked rfl
  have hcons : ∀ it out, tr ++ it :: out = (tr ++ [it]) ++ out := fun it out => by simp
  -- histories that end in an event commit nothing new
  have hcommits : ∀ it, (∀ c, it ≠ .call c) → CommitsOk (tr ++ [it]) := fun it hit =>
    Always.append_of_forall h.commits fun it' hm _ _ he =>
      absurd ((List.mem_singleton.mp hm).symm.trans he) (hit _)
  cases hp with
  | other => exact hevent (fun _ => rfl) rfl
  | sameScale factor hf =>
    have hscale : CommitView.item (commitView tr) (.event p (.output surf.addr) (.scale factor)) =
        commitView tr := by
      by_cases hpos : 0 < factor
      · have hs : surf.scale = factor := by simpa [hpos] using hf
        simp only [CommitView.item, if_pos hpos]
        rw [← hs, ← h.scale]
      · simp only [CommitView.item, if_neg hpos]
    have hv : commitView (tr ++ [Item.event p (.output surf.addr) (.scale factor)]) =
        commitView tr := by
      rw [commitView_append]
      exact hscale
    rw [calls_nil]
    refine h.extend (by rw [hv]) (by rw [hv]) (by rw [hv]) ?_ (hcommits _ (by simp))
    simp only [acks, configures, List.filterMap_append]
    exact congrArg₂ (· ++ ·) h.acked rfl
  | scale factor hf =>
    have hv : commitView (tr ++ [Item.event p (.output surf.addr) (.scale factor)]) =
        { commitView tr with outputScale := factor } := by
      rw [commitView_append]
      simp only [List.foldl_cons, List.foldl_nil, CommitView.item, if_pos hf]
    refine ⟨?_, ?_, ?_, fun i wb hwb => ?_, ?_, hcommits _ (by simp)⟩
    · rw [calls_nil, hv]
      exact h.role
    · rw [calls_nil, hv]
      exact h.size
    · rw [calls_nil, hv]
    · obtain ⟨buf, old, hm⟩ := h.made i wb hwb
      exact ⟨buf, old, List.mem_append_left _ hm⟩
    · simp only [calls_nil, acks, configures, List.filterMap_append]
      exact congrArg₂ (· ++ ·) h.acked rfl
  | configure serial width height he =>
    have hsome : surf.wlSurface.isSome = true := by
      rw [hwf.role, he]
      rfl
    obtain ⟨ws, hws⟩ := Option.isSome_iff_exists.mp hsome
    have hrole := h.role p ws he hws
    -- the ack finds the event it answers
    have hv : commitView (tr ++
        [Item.event p (.lockSurface surf.addr) (.configure serial width height),
        .call (.extSessionLockSurfaceV1AckConfigure p serial)]) =
        { commitView tr with
          configure := some (p, serial, width, height)
          acked := some (width, height) } := by
      rw [commitView_append]
      simp [CommitView.item, hrole]
    refine ⟨?_, fun _ => ?_, ?_, fun i wb hwb => ?_, ?_, ?_⟩
    · rw [calls_cons, calls_nil, hv]
      exact h.role
    · rw [calls_cons, calls_nil, hv]
    · rw [calls_cons, calls_nil, hv]
      exact h.scale
    · obtain ⟨buf, old, hm⟩ := h.made i wb hwb
      exact ⟨buf, old, List.mem_append_left _ hm⟩
    · simp only [calls_cons, calls_nil, acks, configures, List.filterMap_append]
      exact congrArg₂ (· ++ ·) h.acked rfl
    · rw [hcons]
      exact Always.append_of_forall (hcommits _ (by simp)) (by simp)
  | done hcb =>
    rw [hcons]
    have h' := (hevent (fun _ => rfl) rfl).quiet (show Quiet [.wlCallbackDestroy p] from rfl)
    exact ⟨h'.role, h'.size, h'.scale, h'.made, h'.acked, h'.commits⟩
  | release i hwb =>
    rw [hcons]
    have h' := (hevent (fun _ => rfl) rfl).quiet
      (show Quiet [.klSurfaceOnBufferRelease surf.addr] from rfl)
    refine ⟨h'.role, h'.size, h'.scale, fun j wb hj => ?_, h'.acked, h'.commits⟩
    rw [KlSurface.released, klBufferHandleRelease_fst] at hj ⊢
    by_cases hji : j = i
    · subst hji
      rw [setBuffer_self] at hj ⊢
      exact h'.made j wb hj
    · rw [setBuffer_of_ne _ _ hji] at hj ⊢
      exact h'.made j wb hj

/-! ## Every run -/

theorem commitInv_invariant (env : List Proxy) :
    SurfaceInvariant env fun s tr => CommitInv s.surf tr where
  init hs := by
    obtain ⟨-, output, name, o, hc⟩ := surfaceMachine_init hs
    obtain ⟨hscale, hext, hconf, hbufs⟩ := klSurfaceCreate_fields hc
    refine ⟨fun ls ws he => ?_, fun he => ?_, hscale.symm, fun i wb hwb => ?_, rfl, always_nil _⟩
    · rw [hext] at he
      cases he
    · rw [hconf] at he
      cases he
    · rw [hbufs i] at hwb
      cases hwb
  attach hok _ h ha := h.attach hok.wellFormed ha
  detach _ h hd hbufs := h.detach hd hbufs
  prepared hok h hp := h.prepared hok.wellFormed hp
  frame hok _ _ h hf := h.frame hok.wellFormed hf

/-- **Commits.**  In every run of a surface each commit is of an attached lock
surface whose last configure was acked, with a buffer made by `kl_buffer_create` at
that size and at the scale set for the commit, which is the last positive output
scale; and the acks are the configure events, in order, also at every commit. -/
theorem commit_sound {env : List Proxy} {s : SurfaceState} {tr : List Item}
    (h : (surfaceMachine env).Reach s tr) :
    Always (fun pre it => ∀ ws, it = .call (.wlSurfaceCommit ws) → CommitOk pre ws) tr ∧
      acks tr = configures tr :=
  have hinv := (commitInv_invariant env).reach h
  ⟨hinv.commits, hinv.acked⟩

/-- The `wl_surface`s that were committed. -/
def Item.committed : Item → Option Proxy
  | .call (.wlSurfaceCommit ws) => some ws
  | _ => none

/-- A run with two frames, one of them after a resize. -/
theorem commit_sound_sampleRun :
    sampleRun.2.filterMap Item.committed = [10, 10] ∧ acks sampleRun.2 = [(11, 7), (11, 8)] ∧
      CommitsOk sampleRun.2 ∧ acks sampleRun.2 = configures sampleRun.2 :=
  ⟨by decide, by decide, commit_sound sampleRun_reach⟩

end Kirilock
