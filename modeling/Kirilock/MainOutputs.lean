import Kirilock.MainRun

/-!
The surfaces of the context are the outputs that the registry has announced.

`liveOutputs` reads off the history which outputs are announced and not removed, as
far as they were bound and got their surface; until the context is destroyed its
list is exactly these (`OutputsInv`).  The one assumption is the registry's: a name
is announced only while no global has it (`DistinctGlobals`).
-/

namespace Kirilock

open Runs Ownership

/-! ## What the registry has said -/

def nameItem (names : List UInt32) : Item → List UInt32
  | .event _ .registry (.global name _) => name :: names
  | .event _ .registry (.globalRemove name) => names.filter (· ≠ name)
  | _ => names

/-- The names of the globals announced and not removed. -/
def liveNames (tr : List Item) : List UInt32 := tr.foldl nameItem []

/-- The outputs that have a surface, the last one first, and one that is bound and
waits for its surface. -/
structure OutputsView where
  outputs : List (UInt32 × Proxy)
  bound : Option (UInt32 × Proxy)

def OutputsView.item (v : OutputsView) : Item → OutputsView
  | .event _ .registry (.globalRemove name) =>
    { v with outputs := v.outputs.filter fun e => e.1 ≠ name }
  | .call (.wlRegistryBind _ name .wlOutput (some output)) =>
    { v with bound := some (name, output) }
  | .call (.callocSurface none) => { v with bound := none }
  | .call (.callocEngine ok) => ⟨if ok then v.bound.toList ++ v.outputs else v.outputs, none⟩
  | _ => v

def outputsView (tr : List Item) : OutputsView := tr.foldl OutputsView.item ⟨[], none⟩

/-- Name and proxy of each output that is announced and not removed, that was bound
and whose surface was created. -/
def liveOutputs (tr : List Item) : List (UInt32 × Proxy) := (outputsView tr).outputs

/-- The registry announces a name only while no global has it. -/
def DistinctGlobals (_ : MainState) (tr : List Item) : MainInput → Prop
  | .deliver _ (.global name _) _ => name ∉ liveNames tr
  | _ => True

instance (s : MainState) (tr : List Item) (i : MainInput) : Decidable (DistinctGlobals s tr i) := by
  unfold DistinctGlobals
  split <;> infer_instance

theorem outputsView_append (tr out : List Item) :
    outputsView (tr ++ out) = out.foldl OutputsView.item (outputsView tr) := by
  simp [outputsView]

/-- Calls that bind an output or make its surface. -/
def Call.announces : Call → Bool
  | .wlRegistryBind _ _ .wlOutput (some _) => true
  | .callocSurface .. => true
  | .callocEngine .. => true
  | _ => false

theorem OutputsView.item_call (v : OutputsView) {c : Call} (h : c.announces = false) :
    v.item (.call c) = v := by
  unfold OutputsView.item
  split <;> first
    | rfl
    | simp_all [Call.announces]

theorem outputsView_calls (tr : List Item) {cs : List Call} (h : ∀ c ∈ cs, c.announces = false) :
    outputsView (tr ++ calls cs) = outputsView tr := by
  rw [outputsView_append]
  generalize outputsView tr = v
  induction cs with
  | nil => rfl
  | cons c cs ih =>
    obtain ⟨hc, hcs⟩ := List.forall_mem_cons.mp h
    rw [calls_cons, List.foldl_cons, v.item_call hc]
    exact ih hcs

theorem liveNames_calls (tr : List Item) (cs : List Call) :
    liveNames (tr ++ calls cs) = liveNames tr := by
  simp only [liveNames, List.foldl_append]
  generalize tr.foldl nameItem [] = names
  induction cs with
  | nil => rfl
  | cons c cs ih => exact ih

theorem announces_of_ofSurface {cs : List Call} (h : cs.all Call.ofSurface) :
    ∀ c ∈ cs, c.announces = false := by
  intro c hc
  have h := List.all_eq_true.mp h c hc
  cases c <;> first
    | rfl
    | exact absurd h Bool.false_ne_true

theorem Plain.announces {ctx : KlContext} {cs : List Call} (h : Plain ctx cs) :
    ∀ c ∈ cs, c.announces = false := by
  intro c hc
  have h := (h c hc).1
  cases c <;> first
    | rfl
    | exact absurd h Bool.false_ne_true

theorem announces_toList_map (x : Option Proxy) (f : Proxy → Call)
    (h : ∀ p, (f p).announces = false) : ∀ c ∈ x.toList.map f, c.announces = false := by
  intro c hc
  obtain ⟨p, -, rfl⟩ := List.mem_map.mp hc
  exact h p

/-! ## The list of the context -/

/-- The output of a surface: its name and its proxy. -/
def KlSurface.key (surf : KlSurface) : UInt32 × Option Proxy := (surf.globalName, surf.wlOutput)

/-- The surfaces are those of the live outputs, in the same order. -/
structure OutputsInv (tr : List Item) (surfs : List KlSurface) : Prop where
  bound : (outputsView tr).bound = none
  listed : surfs.map KlSurface.key = (liveOutputs tr).map fun e => (e.1, some e.2)
  names : ((liveOutputs tr).map Prod.fst).Nodup
  live : ∀ e ∈ liveOutputs tr, e.1 ∈ liveNames tr
  proxies : ((liveOutputs tr).map Prod.snd).Nodup
  made : ∀ e ∈ liveOutputs tr, .create e.2 ∈ itemActs tr

theorem outputsInv_nil : OutputsInv [] [] :=
  ⟨rfl, rfl, by simp [liveOutputs, outputsView], by simp [liveOutputs, outputsView],
    by simp [liveOutputs, outputsView], by simp [liveOutputs, outputsView]⟩

theorem OutputsInv.extend {tr : List Item} {surfs surfs' : List KlSurface} (h : OutputsInv tr surfs)
    {cs : List Call} (hcs : ∀ c ∈ cs, c.announces = false)
    (hs : surfs'.map KlSurface.key = surfs.map KlSurface.key) :
    OutputsInv (tr ++ calls cs) surfs' := by
  have hv := outputsView_calls tr hcs
  have hl : liveOutputs (tr ++ calls cs) = liveOutputs tr := congrArg OutputsView.outputs hv
  refine ⟨by rw [hv, h.bound], ?_, ?_, ?_, ?_, ?_⟩ <;> rw [hl]
  · rw [hs, h.listed]
  · exact h.names
  · rw [liveNames_calls]
    exact h.live
  · exact h.proxies
  · intro e he
    rw [itemActs_append]
    exact List.mem_append_left _ (h.made e he)

/-- Any event but a `global_remove`. -/
theorem OutputsInv.event {tr : List Item} {surfs : List KlSurface} (h : OutputsInv tr surfs)
    (p : Proxy) {d : Listener} {e : ProxyEvent}
    (he : d ≠ .registry ∨ ∀ name, e ≠ .globalRemove name) :
    OutputsInv (tr ++ [Item.event p d e]) surfs := by
  have hv : outputsView (tr ++ [Item.event p d e]) = outputsView tr := by
    rw [outputsView_append]
    cases d <;> cases e <;> first
      | rfl
      | simp at he
  have hl : liveOutputs (tr ++ [Item.event p d e]) = liveOutputs tr :=
    congrArg OutputsView.outputs hv
  refine ⟨by rw [hv, h.bound], ?_, ?_, ?_, ?_, ?_⟩ <;> rw [hl]
  · exact h.listed
  · exact h.names
  · intro x hx
    have hx := h.live x hx
    simp only [liveNames, List.foldl_append, List.foldl_cons, List.foldl_nil] at hx ⊢
    cases d <;> cases e <;> first
      | exact hx
      | exact List.mem_cons_of_mem _ hx
      | simp at he
  · exact h.proxies
  · intro x hx
    rw [itemActs_append]
    exact List.mem_append_left _ (h.made x hx)

/-- The output of that name goes, and its surface with it. -/
theorem OutputsInv.removed {tr : List Item} {surfs surfs' : List KlSurface}
    (h : OutputsInv tr surfs) (p : Proxy) (name : UInt32)
    (hs : surfs'.map KlSurface.key = (surfs.map KlSurface.key).filter fun k => k.1 ≠ name) :
    OutputsInv (tr ++ [Item.event p .registry (.globalRemove name)]) surfs' := by
  have hv : outputsView (tr ++ [Item.event p .registry (.globalRemove name)]) =
      { outputsView tr with outputs := (liveOutputs tr).filter fun e => e.1 ≠ name } := by
    rw [outputsView_append]
    rfl
  have hl : liveOutputs (tr ++ [Item.event p .registry (.globalRemove name)]) =
      (liveOutputs tr).filter fun e => e.1 ≠ name := congrArg OutputsView.outputs hv
  have hnames : liveNames (tr ++ [Item.event p .registry (.globalRemove name)]) =
      (liveNames tr).filter (· ≠ name) := by
    simp [liveNames, nameItem]
  refine ⟨by rw [hv]; exact h.bound, ?_, ?_, ?_, ?_, ?_⟩ <;> rw [hl]
  · rw [hs, h.listed, List.filter_map]
    rfl
  · exact h.names.sublist (List.filter_sublist.map _)
  · intro e he
    rw [hnames]
    obtain ⟨he, hne⟩ := List.mem_filter.mp he
    exact List.mem_filter.mpr ⟨h.live e he, hne⟩
  · exact h.proxies.sublist (List.filter_sublist.map _)
  · intro e he
    rw [itemActs_append]
    exact List.mem_append_left _ (h.made e (List.mem_filter.mp he).1)

/-- An output of a new name is bound and gets its surface. -/
theorem OutputsInv.created {tr : List Item} {surfs : List KlSurface} (h : OutputsInv tr surfs)
    {p output : Proxy} {name : UInt32} {surf : KlSurface} {cs : List Call}
    (hs : Created output name surf cs) (hname : ∀ e ∈ liveOutputs tr, e.1 ≠ name)
    (hlive : name ∈ liveNames tr) (hnew : .create output ∉ itemActs tr) :
    OutputsInv (tr ++ calls (.wlRegistryBind p name .wlOutput (some output) :: cs))
      (surf :: surfs) := by
  obtain ⟨ok, rfl⟩ := hs.calls
  let bound : List Call := [.wlRegistryBind p name .wlOutput (some output),
    .callocSurface (some surf.addr), .callocEngine true, .wlOutputAddListener output surf.addr ok]
  have hv : outputsView (tr ++ calls bound) = ⟨(name, output) :: liveOutputs tr, none⟩ := by
    rw [outputsView_append]
    rfl
  have hl : liveOutputs (tr ++ calls bound) = (name, output) :: liveOutputs tr :=
    congrArg OutputsView.outputs hv
  have hmade : ∀ e ∈ liveOutputs tr, e.2 ≠ output := fun e he heq => hnew (heq ▸ h.made e he)
  refine ⟨by rw [hv], ?_, ?_, ?_, ?_, ?_⟩ <;> rw [hl]
  · rw [List.map_cons, List.map_cons, h.listed, KlSurface.key, hs.globalName, hs.wlOutput]
  · rw [List.map_cons, List.nodup_cons]
    refine ⟨fun hm => ?_, h.names⟩
    obtain ⟨e, he, heq⟩ := List.mem_map.mp hm
    exact hname e he heq
  · rw [liveNames_calls]
    exact List.forall_mem_cons.mpr ⟨hlive, h.live⟩
  · rw [List.map_cons, List.nodup_cons]
    refine ⟨fun hm => ?_, h.proxies⟩
    obtain ⟨e, he, heq⟩ := List.mem_map.mp hm
    exact hmade e he heq
  · rw [itemActs_append, itemActs_calls]
    refine List.forall_mem_cons.mpr ⟨List.mem_append_right _ ?_, fun e he =>
      List.mem_append_left _ (h.made e he)⟩
    simp [Call.acts, Kirilock.created]

theorem OutputsInv.createFailed {tr : List Item} {surfs : List KlSurface}
    (h : OutputsInv tr surfs) {p output : Proxy} {name : UInt32} {cs : List Call}
    (hcs : CreateFailed cs) (releasable : Bool) :
    OutputsInv (tr ++ calls (.wlRegistryBind p name .wlOutput (some output) :: cs ++
      wlOutputDrop output releasable)) surfs := by
  have hv : outputsView (tr ++ calls (.wlRegistryBind p name .wlOutput (some output) :: cs ++
      wlOutputDrop output releasable)) = outputsView tr := by
    rw [outputsView_append]
    have hbound := h.bound
    generalize outputsView tr = v at hbound
    obtain ⟨outputs, bound⟩ := v
    simp only at hbound
    subst hbound
    cases hcs <;> cases releasable <;> rfl
  have hl := congrArg OutputsView.outputs hv
  refine ⟨by rw [hv, h.bound], ?_, ?_, ?_, ?_, ?_⟩ <;> rw [liveOutputs, hl]
  · exact h.listed
  · exact h.names
  · rw [liveNames_calls]
    exact h.live
  · exact h.proxies
  · intro e he
    rw [itemActs_append]
    exact List.mem_append_left _ (h.made e he)

theorem Handled.key {refs : CtxRefs} {surf surf' : KlSurface} {cs : List Call}
    (h : Handled refs surf surf' cs) : surf'.key = surf.key := by
  rw [KlSurface.key, KlSurface.key, h.name, h.output]

theorem AttachStep.key {refs : CtxRefs} {surf surf' : KlSurface} {o : AttachOutcomes}
    {ok : Bool} {cs : List Call} (h : AttachStep refs surf o ok surf' cs) :
    surf'.key = surf.key := by
  cases h <;> rfl

theorem AttachedAll.keys {refs : CtxRefs} {ok : Bool} {surfs surfs' : List KlSurface}
    {cs : List Call} (h : AttachedAll refs ok surfs surfs' cs) :
    surfs'.map KlSurface.key = surfs.map KlSurface.key := by
  induction h with
  | nil => rfl
  | failed surfs h => rw [List.map_cons, List.map_cons, h.key]
  | cons h _ ih => rw [List.map_cons, List.map_cons, h.key, ih]

theorem klContextDetachAll_keys (surfs : List KlSurface) :
    (klContextDetachAll surfs).1.map KlSurface.key = surfs.map KlSurface.key := by
  induction surfs with
  | nil => rfl
  | cons surf surfs ih =>
    have hd := (klSurfaceDetachLock_spec surf).1
    rw [klContextDetachAll, List.map_cons, List.map_cons, ih, KlSurface.key, KlSurface.key, hd.name,
      hd.output]

/-- Only the first surface of a name goes, and by `hn` it is the only one. -/
theorem filter_keys {l1 l2 : List KlSurface} {surf : KlSurface} {name : UInt32}
    (hsurf : surf.globalName = name)
    (hn : (((l1 ++ surf :: l2).map KlSurface.key).map Prod.fst).Nodup) :
    (l1 ++ l2).map KlSurface.key =
      ((l1 ++ surf :: l2).map KlSurface.key).filter fun k => k.1 ≠ name := by
  have hmid : ((surf :: (l1 ++ l2)).map KlSurface.globalName).Nodup := by
    rw [List.map_map, List.map_append, List.map_cons] at hn
    rw [List.map_cons, List.map_append]
    exact List.nodup_middle.mp hn
  have hne : ∀ x ∈ l1 ++ l2, x.globalName ≠ name := by
    rw [List.map_cons, List.nodup_cons] at hmid
    exact fun x hx he => hmid.1 (hsurf ▸ he ▸ List.mem_map_of_mem hx)
  have hkeep : ∀ l : List KlSurface, (∀ x ∈ l, x.globalName ≠ name) →
      (l.map KlSurface.key).filter (fun k => k.1 ≠ name) = l.map KlSurface.key := by
    intro l hl
    refine List.filter_eq_self.mpr fun k hk => ?_
    obtain ⟨x, hx, rfl⟩ := List.mem_map.mp hk
    exact decide_eq_true (hl x hx)
  have h1 := hkeep l1 fun x hx => hne x (List.mem_append_left _ hx)
  have h2 := hkeep l2 fun x hx => hne x (List.mem_append_right _ hx)
  simp only [List.map_append, List.map_cons, List.filter_append, List.filter_cons, h1, h2]
  simp [KlSurface.key, hsurf]

theorem Dispatched.outputs {ctx ctx' : KlContext} {p : Proxy} {d : Listener} {e : ProxyEvent}
    {cs : List Call} (h : Dispatched ctx p d e ctx' cs) {tr : List Item}
    (hinv : OutputsInv tr ctx.surfaces)
    (hname : ∀ name interface, e = .global name interface → name ∉ liveNames tr)
    (hnew : ∀ output, .create output ∈ acts cs → .create output ∉ itemActs tr) :
    OutputsInv (tr ++ [Item.event p d e] ++ calls cs) ctx'.surfaces := by
  -- the new output has a name and a proxy of its own
  have hcreated : ∀ {name output surf cs'}, e = .global name .wlOutput → d = .registry →
      Created output name surf cs' → .create output ∈ acts cs →
      OutputsInv (tr ++ [Item.event p d e] ++
        calls (.wlRegistryBind p name .wlOutput (some output) :: cs')) (surf :: ctx.surfaces) := by
    rintro name output surf cs' rfl rfl hs hc
    have hl : liveOutputs (tr ++ [Item.event p .registry (.global name .wlOutput)]) =
        liveOutputs tr := by
      rw [liveOutputs, outputsView_append]
      rfl
    refine (hinv.event p (Or.inr fun _ => ProxyEvent.noConfusion)).created hs (fun x hx heq => ?_)
      ?_ ?_
    · rw [hl] at hx
      exact hname name .wlOutput rfl (heq ▸ hinv.live x hx)
    · simp [liveNames, nameItem]
    · rw [itemActs_append, List.mem_append, not_or]
      exact ⟨hnew output hc, by simp⟩
  cases h with
  | bindFailed | compositor | shm | lockManager =>
    exact (hinv.event p (Or.inr fun _ => ProxyEvent.noConfusion)).extend
      (by simp [Call.announces]) rfl
  | createFailed name output cs releasable hp hcs =>
    exact (hinv.event p (Or.inr fun _ => ProxyEvent.noConfusion)).createFailed hcs releasable
  | created name output surf cs hp hs hl =>
    exact hcreated rfl rfl hs (by simp [Call.acts, Kirilock.created])
  | plugged name output surf surf' cs ds o ok flush hp hs hl hf ha =>
    have h1 := hcreated rfl rfl hs (by simp [Call.acts, Kirilock.created])
    have h2 : OutputsInv _ (surf' :: ctx.surfaces) := h1.extend
      (announces_of_ofSurface (SurfaceOp.attached ha).ofSurface)
      (by rw [List.map_cons, List.map_cons, ha.key])
    have h3 := h2.extend (announces_toList_map ctx.display (.wlDisplayFlush · flush) fun _ => rfl)
      rfl
    simpa using h3
  | other =>
    simpa using hinv.event p (Or.inr fun _ => ProxyEvent.noConfusion)
  | removed name l1 l2 surf releasable hs hn hfirst =>
    have hkeys : (l1 ++ l2).map KlSurface.key =
        (ctx.surfaces.map KlSurface.key).filter fun k => k.1 ≠ name := by
      have hnames := hinv.names
      rw [hs]
      refine filter_keys hn ?_
      rw [← hs, hinv.listed, List.map_map]
      exact hnames
    have hop : SurfaceOp ctx.refs surf none _ := .destroyed releasable
    exact (hinv.removed p name hkeys).extend (announces_of_ofSurface hop.ofSurface) rfl
  | notFound name h =>
    have hkeys : ctx.surfaces.map KlSurface.key =
        (ctx.surfaces.map KlSurface.key).filter fun k => k.1 ≠ name := by
      refine (List.filter_eq_self.mpr fun k hk => ?_).symm
      obtain ⟨x, hx, rfl⟩ := List.mem_map.mp hk
      exact decide_eq_true (h x hx)
    simpa using hinv.removed p name hkeys
  | locked | finished =>
    simpa using hinv.event p (Or.inr fun _ => ProxyEvent.noConfusion)
  | handled l1 l2 surf surf' d e cs hs hd hm h =>
    have hreg : d ≠ .registry := by
      rintro rfl
      cases hd
    refine (hinv.event p (Or.inl hreg)).extend
      (announces_of_ofSurface (ofSurface_of_drawing h.drawing)) ?_
    rw [hs]
    simp [h.key]

theorem LockStep.outputs {ctx ctx' : KlContext} {ok : Bool} {cs : List Call}
    (h : LockStep ctx ok ctx' cs) :
    (∀ c ∈ cs, c.announces = false) ∧
      ctx'.surfaces.map KlSurface.key = ctx.surfaces.map KlSurface.key := by
  cases h with
  | refused => exact ⟨by simp, rfl⟩
  | noLock | noListener => exact ⟨by simp [Call.announces], rfl⟩
  | attached manager lock ok surfs cs hm ha =>
    refine ⟨?_, ha.keys⟩
    exact List.forall_mem_cons.mpr ⟨rfl, List.forall_mem_cons.mpr ⟨rfl,
      announces_of_ofSurface ha.step.ofSurface⟩⟩

theorem UnlockStep.outputs {ctx ctx' : KlContext} {ok : Bool} {cs : List Call}
    (h : UnlockStep ctx ok ctx' cs) :
    (∀ c ∈ cs, c.announces = false) ∧
      ctx'.surfaces.map KlSurface.key = ctx.surfaces.map KlSurface.key := by
  cases h with
  | refused => exact ⟨by simp, rfl⟩
  | unlocked lock hl hlocked hf =>
    refine ⟨?_, klContextDetachAll_keys ctx.surfaces⟩
    refine List.forall_mem_append.mpr ⟨announces_of_ofSurface
      (klContextDetachAll_step ctx.refs ctx.surfaces).ofSurface, ?_⟩
    exact List.forall_mem_cons.mpr ⟨rfl, announces_toList_map _ _ fun _ => rfl⟩

theorem klContextInitConnect_announces (o : ConnectOutcomes) :
    ∀ c ∈ (klContextInitConnect o).2.2, c.announces = false := by
  intro c hc
  have h := klContextInitConnect_calls o c hc
  cases c <;> first
    | rfl
    | exact absurd h Bool.false_ne_true

/-- The end has not begun: the surfaces are not destroyed yet. -/
def Phase.open : Phase → Bool
  | .closing => false
  | .exited => false
  | _ => true

theorem PlainMove.open {ph ph' : Phase} (h : PlainMove ph ph') (ho : ph'.open = true) :
    ph.open = true := by
  cases h <;> exact ho

theorem outputsInv_reach {s : MainState} {tr : List Item}
    (h : mainMachine.ReachIf DistinctGlobals s tr) :
    s.pc.phase.open = true → OutputsInv tr s.ctx.surfaces := by
  refine h.invariant_of (I := fun s tr => s.pc.phase.open = true → OutputsInv tr s.ctx.surfaces)
    (fun h => mainMachine_ok h.reach) ?_ ?_
  · rintro s ⟨-, hctx, -, -⟩ -
    rw [hctx]
    exact outputsInv_nil
  · intro s tr i s' out hok hinv hcond hs hopen
    obtain ⟨pre, pc, ctx, cs, hm, hstep⟩ := mainMachine_step hok.listening hs
    rw [hm.pc] at hopen
    rw [hm.ctx, hm.items]
    have hnew : ∀ output, .create output ∈ acts cs → .create output ∉ itemActs tr :=
      fun output ho => hok.not_created (unborn_of_create hm.fresh ho)
    rw [← List.append_assoc]
    cases hstep with
    | deliver p d e o ctx cs hpc hp h =>
      refine h.outputs (hinv hopen) (fun name interface he => ?_) hnew
      subst he
      exact hcond
    | plain i pc cs hcs hmove =>
      rw [List.append_nil]
      exact (hinv (hmove.open hopen)).extend hcs.announces rfl
    | connect o pc hpc hpc' =>
      have hstart := hok.start hpc
      have h0 := hinv (by rw [hpc]; rfl)
      rw [List.append_nil, (klContextInitConnect_fields o).1]
      rw [hstart] at h0
      exact h0.extend (klContextInitConnect_announces o) rfl
    | lock o ok ctx cs hpc h =>
      rw [List.append_nil]
      exact (hinv (by rw [hpc]; rfl)).extend h.outputs.1 h.outputs.2
    | unlock ret ok ctx cs hpc h =>
      rw [List.append_nil]
      exact (hinv (by rw [hpc]; rfl)).extend h.outputs.1 h.outputs.2
    | destroyObjects | destroyAll | destroyDisplay => cases hopen

end Kirilock
