import Kirilock.MainLock
import Kirilock.MainOutputs

/-!
What the registry handler binds, and the locks, are given back.

After `kl_context_destroy` the context is empty (`GlobalsInv.exited`), and every
output and every lock has had its destructor.  The compositor, the shared memory and
the lock manager are each kept in one field, which the handler writes whether or not
it holds a proxy.  The one that it held is then left behind (`KlContext.overwritten`),
so that all of them are given back exactly in the runs where no such global is
announced after one of its interface was bound (`released_iff`).
-/

namespace Kirilock

open Runs Ownership

/-- The registry handler bound `p` for a global of `interface`. -/
def Bound (tr : List Item) (interface : Interface) (p : Proxy) : Prop :=
  ∃ registry name, .call (.wlRegistryBind registry name interface (some p)) ∈ tr

/-- What is to be given back: all that was bound, and every lock. -/
def Acquired (tr : List Item) (p : Proxy) : Prop :=
  (∃ interface, Bound tr interface p) ∨ LockMade tr p

structure Released (s : MainState) (tr : List Item) : Prop where
  once : ∀ p, Acquired tr p → (itemActs tr).count (.destroy p) = 1
  empty : s.ctx = .zeroed

/-- The context has one field for the proxy. -/
def Interface.single : Interface → Bool
  | .wlCompositor => true
  | .wlShm => true
  | .extSessionLockManagerV1 => true
  | _ => false

/-- A global with one field is not announced after one of its interface was bound. -/
def SingleRule (pre : List Item) (x : Item) : Prop :=
  ∀ p name interface, x = .event p .registry (.global name interface) → interface.single = true →
    ∀ q, ¬Bound pre interface q

def BoundOnce (tr : List Item) : Prop := Always SingleRule tr

/-! ## Runs to evaluate -/

/-- Interface and proxy of every global that was bound. -/
def bindings (tr : List Item) : List (Interface × Proxy) :=
  (callsOf tr).filterMap fun
    | .wlRegistryBind _ _ interface (some p) => some (interface, p)
    | _ => none

theorem bound_iff {tr : List Item} {interface : Interface} {p : Proxy} :
    Bound tr interface p ↔ (interface, p) ∈ bindings tr := by
  rw [bindings, List.mem_filterMap]
  constructor
  · rintro ⟨registry, name, h⟩
    exact ⟨_, mem_callsOf.mpr h, rfl⟩
  · rintro ⟨c, hc, he⟩
    split at he
    · cases he
      exact ⟨_, _, mem_callsOf.mp hc⟩
    · cases he

instance (tr : List Item) (interface : Interface) (p : Proxy) :
    Decidable (Bound tr interface p) :=
  decidable_of_iff _ bound_iff.symm

/-- The rule for the announcement of a global, to be checked. -/
def announcedOnce (pre : List Item) : Item → Bool
  | .event _ .registry (.global _ interface) =>
    interface.single → (bindings pre).all fun b => b.1 ≠ interface
  | _ => true

theorem singleRule_iff {pre : List Item} {x : Item} :
    SingleRule pre x ↔ announcedOnce pre x = true := by
  unfold announcedOnce
  split
  · rename_i p name interface
    simp only [decide_eq_true_eq, List.all_eq_true]
    constructor
    · intro h hs b hb he
      subst he
      exact h p name b.1 rfl hs b.2 (bound_iff.mpr hb)
    · rintro h q name' interface' he hs r hr
      cases he
      exact h hs _ (bound_iff.mp hr) rfl
  · rename_i hx
    refine iff_of_true ?_ rfl
    rintro p name interface rfl
    exact absurd rfl (hx p name interface)

instance (pre : List Item) (x : Item) : Decidable (SingleRule pre x) :=
  decidable_of_iff _ singleRule_iff.symm

instance (tr : List Item) : Decidable (BoundOnce tr) := decidableAlways tr

/-! ## Calls that bind nothing for a field -/

def Call.bindsSingle : Call → Bool
  | .wlRegistryBind _ _ interface _ => interface.single
  | _ => false

def Bindless (cs : List Call) : Prop := ∀ c ∈ cs, c.bindsSingle = false

theorem Bindless.append {cs ds : List Call} (h1 : Bindless cs) (h2 : Bindless ds) :
    Bindless (cs ++ ds) :=
  List.forall_mem_append.mpr ⟨h1, h2⟩

theorem bindless_of_ofSurface {cs : List Call} (h : cs.all Call.ofSurface) : Bindless cs := by
  intro c hc
  have h := List.all_eq_true.mp h c hc
  cases c <;> first
    | rfl
    | exact absurd h Bool.false_ne_true

theorem Plain.bindless {ctx : KlContext} {cs : List Call} (h : Plain ctx cs) : Bindless cs := by
  intro c hc
  have h := (h c hc).1
  cases c <;> first
    | rfl
    | exact absurd h Bool.false_ne_true

theorem klContextInitConnect_bindless (o : ConnectOutcomes) :
    Bindless (klContextInitConnect o).2.2 := by
  intro c hc
  have h := klContextInitConnect_calls o c hc
  cases c <;> first
    | rfl
    | exact absurd h Bool.false_ne_true

theorem klContextDestroyObjects_bindless (ctx : KlContext) (releasable : SurfaceRef → Bool) :
    Bindless (klContextDestroyObjects ctx releasable).2 := by
  obtain ⟨cs, he, hends⟩ := klContextDestroyObjects_calls ctx releasable
  have hsurfs := bindless_of_ofSurface
    (klSurfaceDestroyAll_step ctx.refs releasable ctx.surfaces).ofSurface
  have hlock : Bindless (ctx.lock.toList.map (klContextDestroyLock ctx)) := by
    intro c hc
    obtain ⟨p, -, rfl⟩ := List.mem_map.mp hc
    unfold klContextDestroyLock
    split <;> rfl
  have hcs : Bindless cs := by
    intro c hc
    have h := hends c hc
    cases c <;> first
      | rfl
      | exact absurd h Bool.false_ne_true
  rw [he]
  exact (hsurfs.append hlock).append hcs

/-! ## The fields -/

/-- What a step does to the fields: it leaves them, sets one to what it has bound for
it, or clears them at the end. -/
inductive FieldStep (s : MainState) (pc : MainPc) (ctx : KlContext) :
    List Item → List Call → Prop
  | kept {pre : List Item} {cs : List Call}
      (hpre : ∀ p name interface, .event p .registry (.global name interface) ∈ pre →
        interface.single = false)
      (hcs : Bindless cs) (hfield : ctx.field = s.ctx.field) : FieldStep s pc ctx pre cs
  | bound (p : Proxy) (name : UInt32) (interface : Interface) (ret : Option Proxy)
      (hs : interface.single = true) (hpc : pc = s.pc) (hp : s.ctx.registry = some p)
      (hfield : ctx.field = Function.update s.ctx.field interface ret) :
      FieldStep s pc ctx [.event p .registry (.global name interface)]
        [.wlRegistryBind p name interface ret]
  | released {cs : List Call} (hcs : Bindless cs) (hpc : pc.phase.open = false)
      (hfield : ∀ interface, ctx.field interface = none) : FieldStep s pc ctx [] cs

theorem Dispatched.fields {s : MainState} {ctx : KlContext} {p : Proxy} {d : Listener}
    {e : ProxyEvent} {cs : List Call} (h : Dispatched s.ctx p d e ctx cs) :
    FieldStep s s.pc ctx [.event p d e] cs := by
  have hcreated : ∀ {name output surf cs}, Created output name surf cs →
      Bindless (.wlRegistryBind p name .wlOutput (some output) :: cs) := by
    intro name output surf cs hs
    obtain ⟨ok, rfl⟩ := hs.calls
    simp [Bindless, Call.bindsSingle, Interface.single]
  have hset : ∀ {interface ret} {ctx : KlContext},
      (∀ i, ctx.field i = if i = interface then ret else s.ctx.field i) →
      ctx.field = Function.update s.ctx.field interface ret := by
    intro interface ret ctx h
    funext i
    rw [h, Function.update_apply]
  have hglobal : ∀ {name interface}, interface.single = false → ∀ q name' interface',
      Item.event q .registry (.global name' interface') ∈
        [Item.event p .registry (.global name interface)] → interface'.single = false := by
    intro name interface hs q name' interface' hq
    obtain ⟨-, -, he⟩ := Item.event.inj (List.mem_singleton.mp hq)
    cases he
    exact hs
  cases h with
  | compositor name ret hp =>
    exact .bound p name _ ret rfl rfl hp (hset fun i => by cases i <;> rfl)
  | shm name ret hp =>
    exact .bound p name _ ret rfl rfl hp (hset fun i => by cases i <;> rfl)
  | lockManager name ret hp =>
    exact .bound p name _ ret rfl rfl hp (hset fun i => by cases i <;> rfl)
  | bindFailed name hp =>
    exact .kept (hglobal rfl) (by simp [Bindless, Call.bindsSingle, Interface.single]) rfl
  | createFailed name output cs releasable hp hcs =>
    refine .kept (hglobal rfl) ?_ rfl
    cases hcs <;> cases releasable <;>
      simp [Bindless, wlOutputDrop, Call.bindsSingle, Interface.single]
  | created name output surf cs hp hs hl =>
    exact .kept (hglobal rfl) (hcreated hs) rfl
  | plugged name output surf surf' cs ds o ok flush hp hs hl hf ha =>
    refine .kept (hglobal rfl) (((hcreated hs).append ?_).append ?_) rfl
    · exact bindless_of_ofSurface (SurfaceOp.attached ha).ofSurface
    · exact (plain_display s.ctx (.wlDisplayFlush · flush) fun _ => ⟨rfl, rfl⟩).bindless
  | other name interface => exact .kept (hglobal rfl) (by simp [Bindless]) rfl
  | removed name l1 l2 surf releasable hs hn hfirst =>
    have hop : SurfaceOp s.ctx.refs surf none _ := .destroyed releasable
    exact .kept (by simp) (bindless_of_ofSurface hop.ofSurface) rfl
  | notFound | locked | finished => exact .kept (by simp) (by simp [Bindless]) rfl
  | handled l1 l2 surf surf' d e cs hs hd hm h =>
    refine .kept (fun q name interface hq => ?_)
      (bindless_of_ofSurface (ofSurface_of_drawing h.drawing)) rfl
    obtain ⟨-, rfl, -⟩ := Item.event.inj (List.mem_singleton.mp hq)
    cases hd

theorem klContextInitConnect_field (o : ConnectOutcomes) :
    (klContextInitConnect o).2.1.field = KlContext.zeroed.field := by
  cases hd : o.display with
  | none =>
    simp only [klContextInitConnect, hd]
    rfl
  | some display =>
    cases hr : o.registry with
    | none =>
      simp only [klContextInitConnect, hd, hr]
      rfl
    | some registry =>
      cases hl : o.addListener <;> simp only [klContextInitConnect, hd, hr, hl] <;> rfl

theorem MainStep.fields {s : MainState} {tr : List Item} (hok : MainOk s tr) {i : MainInput}
    {pre : List Item} {pc : MainPc} {ctx : KlContext} {cs : List Call}
    (h : MainStep s i pre pc ctx cs) : FieldStep s pc ctx pre cs := by
  cases h with
  | deliver p d e o ctx cs hpc hp h => exact h.fields
  | plain i pc cs hcs hmove => exact .kept (by simp) hcs.bindless rfl
  | connect o pc hpc hpc' =>
    refine .kept (by simp) (klContextInitConnect_bindless o) ?_
    rw [klContextInitConnect_field, hok.start hpc]
  | lock o ok ctx cs hpc h =>
    cases h with
    | refused => exact .kept (by simp) (by simp [Bindless]) rfl
    | noLock | noListener =>
      exact .kept (by simp) (by simp [Bindless, Call.bindsSingle]) rfl
    | attached manager lock ok surfs cs hm ha =>
      refine .kept (by simp) ?_ rfl
      exact List.forall_mem_cons.mpr ⟨rfl, List.forall_mem_cons.mpr ⟨rfl,
        bindless_of_ofSurface ha.step.ofSurface⟩⟩
  | unlock ret ok ctx cs hpc h =>
    cases h with
    | refused => exact .kept (by simp) (by simp [Bindless]) rfl
    | unlocked lock hl hlocked hf =>
      refine .kept (by simp) (Bindless.append ?_ ?_) rfl
      · exact bindless_of_ofSurface
          (klContextDetachAll_step s.ctx.refs s.ctx.surfaces).ofSurface
      · exact List.forall_mem_cons.mpr ⟨rfl,
          (plain_display s.ctx .wlDisplayRoundtrip fun _ => ⟨rfl, rfl⟩).bindless⟩
  | destroyObjects releasable ret hpc hd =>
    exact .released (klContextDestroyObjects_bindless s.ctx releasable) rfl
      fun i => by cases i <;> rfl
  | destroyAll releasable ret hpc hd =>
    exact .released (klContextDestroyObjects_bindless s.ctx releasable) rfl
      fun i => by cases i <;> rfl
  | destroyDisplay ok ret hpc =>
    refine .kept (by simp) (fun c hc => ?_) rfl
    obtain ⟨p, -, rfl⟩ := List.mem_map.mp hc
    rfl

/-! ## The history -/

theorem Bound.append {tr : List Item} {interface : Interface} {p : Proxy}
    (h : Bound tr interface p) (out : List Item) : Bound (tr ++ out) interface p := by
  obtain ⟨registry, name, h⟩ := h
  exact ⟨registry, name, List.mem_append_left _ h⟩

theorem Acquired.append {tr : List Item} {p : Proxy} (h : Acquired tr p) (out : List Item) :
    Acquired (tr ++ out) p :=
  h.imp (fun ⟨interface, h⟩ => ⟨interface, h.append out⟩) fun h => h.append out

theorem Bindless.bound {pre : List Item} {cs : List Call} (h : Bindless cs)
    (hpre : ∀ c, .call c ∉ pre) {tr : List Item} {interface : Interface}
    (hs : interface.single = true) {p : Proxy} :
    Bound (tr ++ (pre ++ calls cs)) interface p ↔ Bound tr interface p := by
  refine ⟨fun ⟨registry, name, hc⟩ => ⟨registry, name, ?_⟩, fun h => h.append _⟩
  refine (List.mem_append.mp hc).resolve_right fun hc => ?_
  have hbind := h _ (call_mem_calls.mp ((List.mem_append.mp hc).resolve_left (hpre _)))
  exact absurd (hs.symm.trans hbind) nofun

/-- Only the announcement of a global with a field is restricted. -/
theorem boundOnce_kept {tr pre : List Item} (cs : List Call)
    (hpre : ∀ p name interface, .event p .registry (.global name interface) ∈ pre →
      interface.single = false) :
    BoundOnce (tr ++ (pre ++ calls cs)) ↔ BoundOnce tr := by
  refine ⟨fun h => (always_append.mp h).1, fun h => Always.append_of_forall h fun x hx _ => ?_⟩
  rintro p name interface rfl hs
  rcases List.mem_append.mp hx with hx | hx
  · exact absurd ((hpre p name interface hx).symm.trans hs) nofun
  · obtain ⟨c, -, hc⟩ := List.mem_map.mp hx
    cases hc

theorem boundOnce_bound {tr : List Item} (p : Proxy) (name : UInt32) {interface : Interface}
    (ret : Option Proxy) (hs : interface.single = true) :
    BoundOnce (tr ++ ([Item.event p .registry (.global name interface)] ++
        calls [.wlRegistryBind p name interface ret])) ↔
      BoundOnce tr ∧ ∀ q, ¬Bound tr interface q := by
  have hcall : ∀ pre, SingleRule pre (.call (.wlRegistryBind p name interface ret)) := by
    rintro pre q name' interface' he
    cases he
  rw [← List.append_assoc, calls_cons, calls_nil, BoundOnce, always_snoc, always_snoc]
  constructor
  · rintro ⟨⟨h1, h2⟩, -⟩
    exact ⟨h1, h2 p name interface rfl hs⟩
  · rintro ⟨h1, h2⟩
    refine ⟨⟨h1, ?_⟩, hcall _⟩
    rintro q name' interface' he -
    cases he
    exact h2

/-! ## The invariant -/

/-- Until the end a field holds what was bound for it last.  The proxies left behind
were acquired, and there is none just where every field was bound for once. -/
structure GlobalsInv (s : MainState) (tr : List Item) : Prop where
  inventory : ∃ own left, ContextOwn s.ctx own ∧ Inventory s.table (own + bare left) ∧
    (∀ p ∈ left, Acquired tr p) ∧ (left = [] ↔ BoundOnce tr)
  bound : ∀ interface p, s.ctx.field interface = some p → Bound tr interface p
  held : s.pc.phase.open = true → BoundOnce tr → ∀ interface p, interface.single = true →
    Bound tr interface p → (s.ctx.field interface).isSome = true
  closing : s.pc.phase = .closing → (klContextDestroyDisplay s.ctx).1 = .zeroed
  exited : s.pc.phase = .exited → s.ctx = .zeroed

/-- When the objects are destroyed no listener is left. -/
theorem GlobalsInv.open_of_listens {s : MainState} {tr : List Item} (h : GlobalsInv s tr)
    {p : Proxy} {d : Listener} (hl : s.ctx.Listens p d) (hpc : s.pc.dispatching = true) :
    s.pc.phase.open = true := by
  have hclosing : s.pc.phase ≠ .closing := by
    intro hph
    have hz := h.closing hph
    have hregistry : s.ctx.registry = none := congrArg KlContext.registry hz
    have hlock : s.ctx.lock = none := congrArg KlContext.lock hz
    have hsurfaces : s.ctx.surfaces = [] := congrArg KlContext.surfaces hz
    rcases hl with ⟨-, hp⟩ | ⟨-, hp⟩ | ⟨surf, hs, -⟩
    · rw [hregistry] at hp
      cases hp
    · rw [hlock] at hp
      cases hp
    · rw [hsurfaces] at hs
      cases hs
  cases hpc' : s.pc <;> rw [hpc'] at hpc hclosing <;> first
    | rfl
    | exact absurd rfl hclosing
    | cases hpc

theorem overwritten_eq_nil {ctx : KlContext} {pre : List Item}
    (hpre : ∀ p name interface, .event p .registry (.global name interface) ∈ pre →
      interface.single = false) : pre.flatMap ctx.overwritten = [] := by
  refine List.flatMap_eq_nil_iff.mpr fun x hx => ?_
  unfold KlContext.overwritten
  split
  · rename_i p name interface
    have hs := hpre p name interface hx
    cases interface <;> first
      | rfl
      | cases hs
  · rfl

/-- What the step leaves behind, in the words of the history. -/
theorem FieldStep.inventory {s s' : MainState} {tr pre out : List Item} {pc : MainPc}
    {ctx : KlContext} {cs : List Call} (h : FieldStep s pc ctx pre cs)
    (hinv : GlobalsInv s tr) (hopen : s.pc.phase.open = true ∨ pre = [])
    (hm : s.Moved pre pc ctx cs s' out)
    (hl : Leaves s.ctx cs ctx (pre.flatMap s.ctx.overwritten)) :
    ∃ own left, ContextOwn s'.ctx own ∧ Inventory s'.table (own + bare left) ∧
      (∀ p ∈ left, Acquired (tr ++ out) p) ∧ (left = [] ↔ BoundOnce (tr ++ out)) := by
  obtain ⟨own, left, hown, hi, hleft, hnil⟩ := hinv.inventory
  obtain ⟨own', hown', ht⟩ := hl own hown
  obtain ⟨-, hi'⟩ := ht.leave hi hm.fresh
  rw [hm.ctx, hm.table, hm.items]
  refine ⟨own', _, hown', hi', fun p hp => ?_, ?_⟩
  · rcases List.mem_append.mp hp with hp | hp
    · obtain ⟨x, -, hx⟩ := List.mem_flatMap.mp hp
      unfold KlContext.overwritten at hx
      split at hx
      · rename_i interface
        exact Or.inl ⟨interface, (hinv.bound interface p (Option.mem_toList.mp hx)).append _⟩
      · cases hx
    · exact (hleft p hp).append _
  · cases h with
    | kept hpre hcs hfield =>
      rw [overwritten_eq_nil hpre, List.nil_append, boundOnce_kept cs hpre]
      exact hnil
    | released hcs hpc hfield =>
      rw [List.flatMap_nil, List.nil_append, boundOnce_kept cs (by simp)]
      exact hnil
    | bound p name interface ret hs hpc hp hfield =>
      have hph := hopen.resolve_right (by simp)
      rw [boundOnce_bound p name ret hs, List.flatMap_singleton, List.append_eq_nil_iff, hnil,
        and_comm]
      refine and_congr_right fun honce => ⟨fun hnone q hq => ?_, fun hnone => ?_⟩
      · have hsome := hinv.held hph honce interface q hs hq
        have hfield : s.ctx.field interface = none := Option.toList_eq_nil_iff.mp hnone
        rw [hfield] at hsome
        cases hsome
      · cases hf : s.ctx.field interface with
        | none => simp [KlContext.overwritten, hf]
        | some q => exact absurd (hinv.bound interface q hf) (hnone q)

/-- The end does not go back. -/
theorem MainStep.open {s : MainState} {i : MainInput} {pre : List Item} {pc : MainPc}
    {ctx : KlContext} {cs : List Call} (h : MainStep s i pre pc ctx cs)
    (hpc : pc.phase.open = true) : s.pc.phase.open = true := by
  cases h with
  | deliver => exact hpc
  | plain i pc cs hcs hmove => exact hmove.open hpc
  | connect o pc hs | lock o ok ctx cs hs | unlock ret ok ctx cs hs =>
    rw [hs]
    rfl
  | destroyObjects | destroyAll | destroyDisplay => cases hpc

/-- What was bound for a field is there, until the end. -/
theorem FieldStep.held {s : MainState} {tr pre : List Item} {pc : MainPc} {ctx : KlContext}
    {cs : List Call} (h : FieldStep s pc ctx pre cs) (hinv : GlobalsInv s tr)
    (hcall : ∀ c, .call c ∉ pre) (hopen : s.pc.phase.open = true) (hpc : pc.phase.open = true)
    (honce : BoundOnce (tr ++ (pre ++ calls cs))) {interface : Interface} {p : Proxy}
    (hi : interface.single = true) (hb : Bound (tr ++ (pre ++ calls cs)) interface p) :
    (ctx.field interface).isSome = true := by
  cases h with
  | kept hpre hcs hfield =>
    rw [hfield]
    exact hinv.held hopen ((boundOnce_kept cs hpre).mp honce) interface p hi
      ((hcs.bound hcall hi).mp hb)
  | released hcs hends hfield =>
    rw [hends] at hpc
    cases hpc
  | bound q name single ret hs _ hq hfield =>
    have hold := ((boundOnce_bound q name ret hs).mp honce).1
    rw [hfield, Function.update_apply]
    obtain ⟨registry, name', hc⟩ := hb
    rcases List.mem_append.mp hc with hb | hb
    · -- a field that was bound for before is another one
      have hne : interface ≠ single := by
        rintro rfl
        exact ((boundOnce_bound q name ret hs).mp honce).2 p ⟨registry, name', hb⟩
      rw [if_neg hne]
      exact hinv.held hopen hold interface p hi ⟨registry, name', hb⟩
    · have he : interface = single ∧ some p = ret := by
        simp at hb
        exact ⟨hb.2.2.1, hb.2.2.2⟩
      rw [if_pos he.1, ← he.2]
      rfl

/-- What is left when the objects are destroyed, and when all is. -/
theorem MainStep.emptied {s : MainState} {tr : List Item} (hinv : GlobalsInv s tr)
    (hlisten : s.Listening) {i : MainInput} {pre : List Item} {pc : MainPc} {ctx : KlContext}
    {cs : List Call} (h : MainStep s i pre pc ctx cs) :
    (pc.phase = .closing → (klContextDestroyDisplay ctx).1 = .zeroed) ∧
      (pc.phase = .exited → ctx = .zeroed) := by
  cases h with
  | deliver p d e o ctx cs hpc hp h =>
    have hopen := hinv.open_of_listens (hlisten.1 p d hp) hpc
    constructor <;> intro hph <;> rw [hph] at hopen <;> cases hopen
  | plain i pc cs hcs hmove =>
    constructor <;> intro hph <;> rw [hph] at hmove
    · generalize hph' : s.pc.phase = ph at hmove
      cases hmove
      exact hinv.closing hph'
    · generalize hph' : s.pc.phase = ph at hmove
      cases hmove
      exact hinv.exited hph'
  | connect o pc hpc hpc' =>
    rcases hpc' with ⟨hpc', -⟩ | hpc' <;> rw [hpc'] <;> exact ⟨nofun, nofun⟩
  | lock o ok | unlock ret ok => cases ok <;> exact ⟨nofun, nofun⟩
  | destroyObjects => exact ⟨fun _ => rfl, nofun⟩
  | destroyAll => exact ⟨nofun, fun _ => rfl⟩
  | destroyDisplay ok ret hpc => exact ⟨nofun, fun _ => hinv.closing (by rw [hpc]; rfl)⟩

theorem globalsInv_reach {s : MainState} {tr : List Item} (h : mainMachine.Reach s tr) :
    GlobalsInv s tr := by
  refine h.invariant_of (I := GlobalsInv) mainMachine_ok ?_ ?_
  · rintro s ⟨hpc, hctx, ht, -⟩
    refine ⟨⟨0, [], ?_, ?_, by simp, by simp [BoundOnce]⟩, fun i p hp => ?_,
      fun _ _ i p _ hb => ?_, fun hph => ?_, fun _ => hctx⟩
    · rw [hctx]
      exact ⟨false, false, 0, .nil, rfl⟩
    · rw [ht]
      exact inventory_empty
    · rw [hctx] at hp
      cases i <;> cases hp
    · obtain ⟨registry, name, hm⟩ := hb
      cases hm
    · rw [hpc] at hph
      cases hph
  · intro s tr i s' out hok hinv _ hs
    obtain ⟨pre, pc, ctx, cs, hm, hstep⟩ := mainMachine_step hok.listening hs
    have hfields := hstep.fields hok
    have hopen : s.pc.phase.open = true ∨ pre = [] := by
      cases hstep with
      | deliver p d e o ctx cs hpc hp h =>
        exact Or.inl (hinv.open_of_listens (hok.listening.1 p d hp) hpc)
      | _ => exact Or.inr rfl
    have hcall := hstep.not_call
    refine ⟨hfields.inventory hinv hopen hm (hstep.leaves hok), fun i p hp => ?_,
      fun hph honce i p hi hb => ?_, fun hph => ?_, fun hph => ?_⟩
    · rw [hm.ctx] at hp
      rw [hm.items]
      cases hfields with
      | kept hpre hcs hfield => exact (hinv.bound i p (hfield ▸ hp)).append _
      | released hcs hpc hfield =>
        rw [hfield] at hp
        cases hp
      | bound q name interface ret hs hpc hq hfield =>
        rw [hfield, Function.update_apply] at hp
        split at hp
        · rename_i he
          exact ⟨q, name, by simp [he, hp]⟩
        · exact (hinv.bound i p hp).append _
    · rw [hm.pc] at hph
      rw [hm.items] at honce hb
      rw [hm.ctx]
      exact hfields.held hinv hstep.not_call (hstep.open hph) hph honce hi hb
    · rw [hm.ctx]
      exact (hstep.emptied hinv hok.listening).1 (hm.pc ▸ hph)
    · rw [hm.ctx]
      exact (hstep.emptied hinv hok.listening).2 (hm.pc ▸ hph)

/-! ## Every run -/

theorem create_of_acquired {tr : List Item} {p : Proxy} (h : Acquired tr p) :
    .create p ∈ itemActs tr := by
  have hmem : ∀ c, .call c ∈ tr → .create p ∈ c.acts → .create p ∈ itemActs tr := fun c hc hp =>
    List.mem_flatMap.mpr ⟨_, hc, hp⟩
  rcases h with ⟨interface, registry, name, hc⟩ | ⟨manager, hc⟩
  · exact hmem _ hc (by simp [Call.acts, created])
  · exact hmem _ hc (by simp [Call.acts, created])

/-- **Given back.**  When `main` has ended, whatever was announced and whatever failed,
the context is empty, and every proxy that the registry handler bound and every lock has
had one destructor if and only if no compositor, shared memory or lock manager was
announced after one was bound. -/
theorem released_iff {s : MainState} {tr : List Item} (h : mainMachine.Reach s tr) {ret : Int32}
    (hpc : s.pc = .exited ret) : Released s tr ↔ BoundOnce tr := by
  have hok := mainMachine_ok h
  have hinv := globalsInv_reach h
  have hempty : s.ctx = .zeroed := hinv.exited (by rw [hpc]; rfl)
  obtain ⟨own, left, hown, hi, hleft, hnil⟩ := hinv.inventory
  rw [hempty] at hown
  rw [contextOwn_zeroed hown, zero_add] at hi
  have hlive : ∀ p l, s.table p = .live l ↔ p ∈ left ∧ l = none := fun p l => by
    rw [hi.live_iff, mem_bare]
  have hdead : ∀ p, (itemActs tr).count (.destroy p) = 1 ↔ s.table p = .dead := fun p => by
    rw [hok.table]
    exact count_destroy_eq_one_iff hok.sound hok.fresh
  rw [← hnil]
  constructor
  · intro hr
    refine List.eq_nil_iff_forall_not_mem.mpr fun p hp => ?_
    have h1 := (hdead p).mp (hr.once p (hleft p hp))
    rw [(hlive p none).mpr ⟨hp, rfl⟩] at h1
    cases h1
  · rintro rfl
    refine ⟨fun p hp => (hdead p).mpr ?_, hempty⟩
    have hborn : s.table p ≠ .unborn := by
      rw [hok.table]
      exact run_of_create (create_of_acquired hp)
    cases ht : s.table p with
    | unborn => exact absurd ht hborn
    | dead => rfl
    | live l => cases ((hlive p l).mp ht).1

/-- The ended run bound two outputs, and each field once. -/
theorem released_iff_endedRun :
    (Bound endedRun.2 .wlOutput 6 ∧ Bound endedRun.2 .wlOutput 30) ∧
      Released endedRun.1 endedRun.2 :=
  have hpc : endedRun.1.pc = .exited 0 := by decide
  ⟨by decide +kernel, (released_iff endedRun_reach hpc).mpr (by decide +kernel)⟩

/-! ## A second compositor -/

/-- A session like that of the ended run, where the compositor is announced twice. -/
def sampleAgain : List MainInput :=
  sampleLocking.take 1 ++ MainInput.deliver 2 (.global 9 .wlCompositor) (sampleGlobal 40 0 0 0) ::
    sampleLocking.drop 1 ++ sampleEnding

theorem againRun_isSome : (mainMachine.exec mainStart sampleAgain).isSome = true := by
  decide

def againRun : MainState × List Item :=
  (mainMachine.exec mainStart sampleAgain).get againRun_isSome

/-- **Not in every run**: the first of two compositors is never destroyed. -/
theorem released_overwritten :
    ¬∀ s tr, mainMachine.Reach s tr → ∀ ret, s.pc = .exited ret → Released s tr := by
  intro h
  have hreach : mainMachine.Reach againRun.1 againRun.2 :=
    Machine.reach_exec mainStart_init againRun_isSome
  have hreleased := h _ _ hreach 0 (by decide)
  have hbound : Bound againRun.2 .wlCompositor 40 := by decide
  have hcount : (itemActs againRun.2).count (.destroy 40) = 0 := by decide
  have hone := hreleased.once 40 (Or.inl ⟨_, hbound⟩)
  omega

end Kirilock
