import Kirilock.SurfaceRun

/-!
Who holds a buffer: the compositor, from the commit that attaches it until its
release event or the destruction of its `wl_buffer`.

`HoldView` reads the held buffers off a history.  `HoldInv` ties them to the busy
flags,

    held p  ↔  some slot has p as its wl_buffer and is busy,

and from it no frame touches a held buffer, and the search for a free buffer
fails exactly when all of them are held (`buffers_sound`).
-/

namespace Kirilock

open Runs Ownership

/-! ## The compositor's hold -/

structure HoldView where
  /-- the buffer attached since the last commit -/
  attached : Option Proxy
  held : Proxy → Bool
  /-- whether the code is in `kl_surface_render_frame` -/
  inFrame : Bool

def HoldView.start : HoldView := ⟨none, fun _ => false, false⟩

def HoldView.setHeld (v : HoldView) (p : Proxy) (b : Bool) : HoldView :=
  { v with held := Function.update v.held p b }

def HoldView.item (v : HoldView) : Item → HoldView
  | .event p _ .release => { v.setHeld p false with inFrame := false }
  | .event _ _ _ => { v with inFrame := false }
  | .call (.klSurfaceAttachLock ..) => { v with inFrame := false }
  | .call (.klSurfaceDetachLock ..) => { v with inFrame := false }
  | .call (.klSurfaceRenderFrame ..) => { v with inFrame := true }
  | .call (.wlSurfaceAttach _ buffer) => { v with attached := buffer }
  | .call (.wlSurfaceCommit _) =>
    match v.attached with
    | some p => { v.setHeld p true with attached := none }
    | none => v
  | .call (.wlBufferDestroy p) => v.setHeld p false
  | _ => v

def holdView (tr : List Item) : HoldView := tr.foldl HoldView.item .start

def Held (tr : List Item) (p : Proxy) : Prop := (holdView tr).held p = true

theorem holdView_snoc (tr : List Item) (it : Item) :
    holdView (tr ++ [it]) = (holdView tr).item it := by
  simp [holdView]

/-- The `wl_buffer` a call draws into, recreates, destroys or attaches. -/
def Call.touches : Call → Option Proxy
  | .klRenderEngineDraw _ wb _ _ _ _ => wb
  | .klBufferCreate _ old _ _ _ _ => old
  | .wlBufferDestroy p => some p
  | .wlSurfaceAttach _ wb => wb
  | _ => none

/-- The rules for an item after the history `pre`: a frame touches no held buffer, and
no buffer is found exactly when all are held. -/
structure HoldRule (pre : List Item) (it : Item) : Prop where
  touch : ∀ c p, it = .call c → (holdView pre).inFrame = true → c.touches = some p → ¬Held pre p
  free : ∀ a wbs ret, it = .call (.klSurfaceGetFreeBuffer a wbs ret) →
    (ret = none ↔ ∀ i, ∃ wb, wbs i = some wb ∧ Held pre wb)

def HoldsOk (tr : List Item) : Prop := Always HoldRule tr

theorem HoldsOk.snoc {tr : List Item} (h : HoldsOk tr) {it : Item} (hit : HoldRule tr it) :
    HoldsOk (tr ++ [it]) :=
  always_snoc.mpr ⟨h, hit⟩

/-- A call that touches no buffer and is not the search. -/
theorem holdRule_plain {tr : List Item} {c : Call} (ht : c.touches = none)
    (hf : ∀ a wbs ret, c ≠ .klSurfaceGetFreeBuffer a wbs ret) : HoldRule tr (.call c) := by
  refine ⟨fun c' p he _ hp => ?_, fun a wbs ret he => absurd (Item.call.inj he) (hf a wbs ret)⟩
  rw [← Item.call.inj he, ht] at hp
  cases hp

theorem holdRule_event {tr : List Item} {p : Proxy} {d : Listener} {e : ProxyEvent} :
    HoldRule tr (.event p d e) := by
  constructor
  · intro c q he
    cases he
  · intro a wbs ret he
    cases he

/-- A call that touches buffers which are not held. -/
theorem holdRule_touch {tr : List Item} {c : Call}
    (ht : ∀ p, c.touches = some p → ¬Held tr p)
    (hf : ∀ a wbs ret, c ≠ .klSurfaceGetFreeBuffer a wbs ret) : HoldRule tr (.call c) := by
  refine ⟨fun c' p he _ hp => ?_, fun a wbs ret he => absurd (Item.call.inj he) (hf a wbs ret)⟩
  rw [← Item.call.inj he] at hp
  exact ht p hp

/-! ## Calls behind a buffer -/

theorem backing_touches {c : Call} (hb : c.backing = true) {p : Proxy}
    (h : c.touches = some p) : c = .wlBufferDestroy p := by
  cases c
  case klBufferCreate buf old width height scale ret =>
    cases old with
    | none => cases h
    | some q => cases hb
  case wlBufferDestroy q => exact congrArg _ (Option.some.inj h)
  case klRenderEngineDraw => cases hb
  case wlSurfaceAttach => cases hb
  all_goals cases h

/-- What calls behind a buffer do to the view: they only drop destroyed buffers. -/
theorem holdView_backing {cs : List Call} (hb : cs.all Call.backing) (tr : List Item) :
    (holdView (tr ++ calls cs)).inFrame = (holdView tr).inFrame ∧
      ∀ p, Held (tr ++ calls cs) p ↔ Held tr p ∧ .wlBufferDestroy p ∉ cs := by
  induction cs generalizing tr with
  | nil => simp
  | cons c cs ih =>
    simp only [List.all_cons, Bool.and_eq_true] at hb
    obtain ⟨h1, h2⟩ := ih hb.2 (tr ++ [Item.call c])
    rw [List.append_assoc] at h1 h2
    have hc : (holdView (tr ++ [Item.call c])).inFrame = (holdView tr).inFrame ∧
        ∀ p, Held (tr ++ [Item.call c]) p ↔ Held tr p ∧ .wlBufferDestroy p ≠ c := by
      simp only [Held, holdView_snoc]
      cases c
      case wlBufferDestroy q =>
        refine ⟨rfl, fun p => ?_⟩
        by_cases hq : p = q <;> simp [HoldView.item, HoldView.setHeld, hq]
      all_goals first
        | exact absurd hb.1 Bool.false_ne_true
        | exact ⟨rfl, fun p => ⟨fun h => ⟨h, Call.noConfusion⟩, fun h => h.1⟩⟩
    refine ⟨h1.trans hc.1, fun p => ?_⟩
    rw [calls_cons, ← List.singleton_append, h2, hc.2, List.mem_cons, not_or, and_assoc]

theorem all_singleton {c : Call} (hb : c.backing = true) : [c].all Call.backing := by
  simpa using hb

theorem HoldsOk.backing {cs : List Call} (hb : cs.all Call.backing) {tr : List Item}
    (h : HoldsOk tr) (hd : ∀ p, .wlBufferDestroy p ∈ cs → ¬Held tr p) :
    HoldsOk (tr ++ calls cs) := by
  induction cs generalizing tr with
  | nil => simpa using h
  | cons c cs ih =>
    simp only [List.all_cons, Bool.and_eq_true] at hb
    have hc : HoldsOk (tr ++ [Item.call c]) := by
      refine h.snoc (holdRule_touch (fun p hp => ?_) fun a wbs ret he => ?_)
      · have := backing_touches hb.1 hp
        exact hd p (this ▸ List.mem_cons_self)
      · rw [he] at hb
        cases hb.1
    have hrest := ih hb.2 hc fun p hp hh => by
      have := ((holdView_backing (all_singleton hb.1) tr).2 p).mp hh
      exact hd p (List.mem_cons_of_mem _ hp) this.1
    simpa using hrest

/-- Outside of a frame buffers may be destroyed whether held or not. -/
theorem HoldsOk.backing_outside {cs : List Call} (hb : cs.all Call.backing) {tr : List Item}
    (h : HoldsOk tr) (hout : (holdView tr).inFrame = false) : HoldsOk (tr ++ calls cs) := by
  induction cs generalizing tr with
  | nil => simpa using h
  | cons c cs ih =>
    simp only [List.all_cons, Bool.and_eq_true] at hb
    have hc : HoldsOk (tr ++ [Item.call c]) := by
      refine h.snoc ⟨fun c' p _ hin => ?_, fun a wbs ret he => ?_⟩
      · rw [hout] at hin
        cases hin
      · cases Item.call.inj he
        cases hb.1
    have hframe := (holdView_backing (all_singleton hb.1) tr).1
    have hrest := ih hb.2 hc (hframe.trans hout)
    simpa using hrest

/-! ## The invariant -/

/-- The held buffers are those of the busy slots, and every item so far kept the rules. -/
structure HoldInv (surf : KlSurface) (tr : List Item) : Prop where
  exact : ∀ p, Held tr p ↔ ∃ i, (surf.buffers i).wlBuffer = some p ∧ (surf.buffers i).busy = true
  rules : HoldsOk tr

/-- No two slots of a surface have the same `wl_buffer`. -/
theorem wlBuffer_unique {t : Table Proxy Listener} {surf : KlSurface} {lo le : Bool}
    {rest : Multiset (Proxy × Option Listener)} (hi : Inventory t (surf.own lo le + rest))
    {i j : Slot} {p : Proxy} (h1 : (surf.buffers i).wlBuffer = some p)
    (h2 : (surf.buffers j).wlBuffer = some p) : i = j := by
  have hmem : ∀ k, (surf.buffers k).wlBuffer = some p →
      (p, some (Listener.buffer (surf.ref k))) ∈ surf.own lo le + rest := fun k hk =>
    Multiset.mem_add.mpr (Or.inl (by
      simp [KlSurface.own, buffersOwn_split surf k, KlBuffer.own, hk]))
  have he := hi.entry_unique (hmem i h1) (hmem j h2)
  simpa [KlSurface.ref] using he

theorem HoldInv.not_held_of_free {surf : KlSurface} {tr : List Item} (h : HoldInv surf tr)
    {t : Table Proxy Listener} {lo le : Bool} {rest : Multiset (Proxy × Option Listener)}
    (hi : Inventory t (surf.own lo le + rest)) {i : Slot} (hfree : (surf.buffers i).busy = false)
    {p : Proxy} (hp : (surf.buffers i).wlBuffer = some p) : ¬Held tr p := by
  intro hh
  obtain ⟨j, hj, hbusy⟩ := (h.exact p).mp hh
  rw [wlBuffer_unique hi hj hp, hfree] at hbusy
  cases hbusy

/-- A held buffer is a live proxy. -/
theorem HoldInv.live {surf : KlSurface} {tr : List Item} (h : HoldInv surf tr)
    {t : Table Proxy Listener} {lo le : Bool} {rest : Multiset (Proxy × Option Listener)}
    (hi : Inventory t (surf.own lo le + rest)) {p : Proxy} (hp : Held tr p) :
    ∃ l, t p = .live l := by
  obtain ⟨i, hwb, -⟩ := (h.exact p).mp hp
  refine ⟨some (.buffer (surf.ref i)), (hi.live_iff _ _).mpr (Multiset.mem_add.mpr (Or.inl ?_))⟩
  simp [KlSurface.own, buffersOwn_split surf i, KlBuffer.own, hwb]

/-! ## One frame -/

/-- The items up to the search for a buffer. -/
theorem HoldInv.entry {surf : KlSurface} {tr : List Item} (h : HoldInv surf tr)
    (hwf : surf.WellFormed) {t : Table Proxy Listener} {lo le : Bool}
    {rest : Multiset (Proxy × Option Listener)} (hi : Inventory t (surf.own lo le + rest))
    (ret : Option Slot) (hret : ∀ i, ret = some i → (surf.buffers i).busy = false)
    (hnone : ret = none → ∀ i, (surf.buffers i).busy = true) :
    HoldInv surf (tr ++ calls (frameEntry surf ret)) := by
  have hheld : ∀ {t' p},
      Held (t' ++ [Item.call (.klSurfaceRenderFrame surf.addr)]) p ↔ Held t' p := by
    intro t' p
    rw [Held, holdView_snoc]
    rfl
  have hheld2 : ∀ {t' p wbs},
      Held (t' ++ [Item.call (.klSurfaceGetFreeBuffer surf.addr wbs ret)]) p ↔ Held t' p := by
    intro t' p wbs
    rw [Held, holdView_snoc]
    rfl
  have hsplit : tr ++ calls (frameEntry surf ret) =
      tr ++ [Item.call (.klSurfaceRenderFrame surf.addr)] ++
        [.call (.klSurfaceGetFreeBuffer surf.addr (fun i => (surf.buffers i).wlBuffer) ret)] := by
    simp [frameEntry]
  rw [hsplit]
  refine ⟨fun p => ?_, (h.rules.snoc (holdRule_plain rfl fun _ _ _ => Call.noConfusion)).snoc
    ⟨fun c p he _ hp => ?_, fun a wbs ret' he => ?_⟩⟩
  · rw [hheld2, hheld]
    exact h.exact p
  · rw [← Item.call.inj he] at hp
    cases hp
  · cases he
    simp only [hheld]
    constructor
    · intro hn i
      have hbusy := hnone hn i
      have hwb : (surf.buffers i).wlBuffer ≠ none := fun hn' => by
        rw [hwf.idle i hn'] at hbusy
        cases hbusy
      obtain ⟨wb, hwb⟩ := Option.ne_none_iff_exists'.mp hwb
      exact ⟨wb, hwb, (h.exact wb).mpr ⟨i, hwb, hbusy⟩⟩
    · intro hall
      cases hr : ret with
      | none => rfl
      | some i =>
        obtain ⟨wb, hwb, hh⟩ := hall i
        exact absurd hh (h.not_held_of_free hi (hret i hr) hwb)

/-- What replacing the free buffer in slot `i` destroys was not held. -/
theorem BufferCalls.not_held {refs : CtxRefs} {surf : KlSurface} {tr : List Item}
    (h : HoldInv surf tr) {t : Table Proxy Listener} {lo le : Bool}
    {rest : Multiset (Proxy × Option Listener)} (hi : Inventory t (surf.own lo le + rest))
    {i : Slot} (hfree : (surf.buffers i).busy = false) {b : KlBuffer} {cs : List Call}
    (hcs : BufferCalls refs surf i b cs) (hf : Fresh t (acts cs)) {p : Proxy}
    (hp : .wlBufferDestroy p ∈ cs) : ¬Held tr p := by
  rcases hcs.destroys p hp with hwb | hc
  · exact h.not_held_of_free hi hfree hwb
  · intro hh
    obtain ⟨l, hl⟩ := h.live hi hh
    rw [unborn_of_create hf hc] at hl
    cases hl

/-- The `wl_buffer` that slot `i` has after its buffer may have been replaced was not held. -/
theorem BufferCalls.drawn_not_held {refs : CtxRefs} {surf : KlSurface} {tr : List Item}
    (h : HoldInv surf tr) {env : List Proxy} {t : Table Proxy Listener} {lo le : Bool}
    (hi : Inventory t (surf.own lo le + bare env)) (hrefs : refs.Within env) {i : Slot}
    (hfree : (surf.buffers i).busy = false) {b : KlBuffer} {cs : List Call}
    (hcs : BufferCalls refs surf i b cs) (hf : Fresh t (acts cs)) {wb : Proxy}
    (hwb : b.wlBuffer = some wb) : ¬Held tr wb := by
  intro hh
  obtain ⟨j, hj, hbusy⟩ := (h.exact wb).mp hh
  have hji : j ≠ i := by
    rintro rfl
    rw [hfree] at hbusy
    cases hbusy
  have htriple := hcs.triple_own (B := env) hrefs.2.1 lo le t (bare env)
    (fun q hq => by rw [fst_bare]; exact hq) hi hf
  refine hji (wlBuffer_unique htriple.2 (p := wb) ?_ ?_)
  · rw [setBuffer_of_ne _ _ hji]
    exact hj
  · rw [setBuffer_self]
    exact hwb

/-- Calls the view does not see. -/
def HoldPlain (cs : List Call) : Prop :=
  ∀ c ∈ cs, (∀ v, HoldView.item v (.call c) = v) ∧ c.touches = none ∧
    ∀ a wbs ret, c ≠ .klSurfaceGetFreeBuffer a wbs ret

/-- Calls that the view sees, or that touch a buffer, or that search for one. -/
def Call.watched : Call → Bool
  | .klSurfaceAttachLock .. => true
  | .klSurfaceDetachLock .. => true
  | .klSurfaceRenderFrame .. => true
  | .klSurfaceGetFreeBuffer .. => true
  | .wlSurfaceAttach .. => true
  | .wlSurfaceCommit .. => true
  | .wlBufferDestroy .. => true
  | .klRenderEngineDraw .. => true
  | .klBufferCreate .. => true
  | _ => false

theorem holdPlain_of_all {cs : List Call} (h : cs.all (fun c => !c.watched) = true) :
    HoldPlain cs := by
  intro c hc
  have hw := List.all_eq_true.mp h c hc
  cases c <;> first
    | exact absurd hw Bool.false_ne_true
    | exact ⟨fun _ => rfl, rfl, fun _ _ _ => Call.noConfusion⟩

theorem HoldPlain.extend {cs : List Call} (hp : HoldPlain cs) {tr : List Item} (h : HoldsOk tr) :
    HoldsOk (tr ++ calls cs) ∧ holdView (tr ++ calls cs) = holdView tr := by
  induction cs generalizing tr with
  | nil => simpa using h
  | cons c cs ih =>
    obtain ⟨⟨hv, ht, hf⟩, hcs⟩ := List.forall_mem_cons.mp hp
    obtain ⟨h1, h2⟩ := ih hcs (h.snoc (holdRule_plain (c := c) ht hf))
    rw [List.append_assoc] at h1 h2
    refine ⟨h1, h2.trans ?_⟩
    rw [holdView_snoc, hv]

theorem frameListen_plain (surf : KlSurface) (o : FrameOutcomes) :
    HoldPlain (frameListen surf o) := by
  unfold frameListen
  cases o.frame with
  | none => exact holdPlain_of_all rfl
  | some cb => cases o.addListener <;> exact holdPlain_of_all rfl

/-- A commit of a buffer that is not held: it is held afterwards, and no other changes. -/
theorem HoldsOk.commit {tr : List Item} (h : HoldsOk tr) (surf : KlSurface) (ws : Proxy)
    {wb : Proxy} (hwb : ¬Held tr wb) (o : FrameOutcomes) :
    HoldsOk (tr ++ calls (frameCommit surf ws wb o)) ∧
      ∀ p, Held (tr ++ calls (frameCommit surf ws wb o)) p ↔ Held tr p ∨ p = wb := by
  have hscale : HoldPlain [.wlSurfaceSetBufferScale ws surf.scale] := holdPlain_of_all rfl
  have hdamage : HoldPlain [.wlSurfaceDamage ws surf.width.toInt32 surf.height.toInt32,
      .wlSurfaceFrame ws o.frame] := holdPlain_of_all rfl
  have hmid := List.forall_mem_append.mpr ⟨hdamage, frameListen_plain surf o⟩
  obtain ⟨h1, hv1⟩ := hscale.extend h
  have h2 := h1.snoc (holdRule_touch (c := .wlSurfaceAttach ws (some wb))
    (fun p hp => by
      cases hp
      rwa [Held, hv1]) fun _ _ _ => Call.noConfusion)
  obtain ⟨h3, hv3⟩ := HoldPlain.extend hmid h2
  have h4 := h3.snoc (holdRule_plain (c := .wlSurfaceCommit ws) rfl fun _ _ _ => Call.noConfusion)
  have hsplit : tr ++ calls (frameCommit surf ws wb o) =
      tr ++ calls [.wlSurfaceSetBufferScale ws surf.scale] ++
        [.call (.wlSurfaceAttach ws (some wb))] ++
        calls ([.wlSurfaceDamage ws surf.width.toInt32 surf.height.toInt32,
          .wlSurfaceFrame ws o.frame] ++ frameListen surf o) ++ [.call (.wlSurfaceCommit ws)] := by
    simp [frameCommit]
  rw [hsplit]
  refine ⟨h4, fun p => ?_⟩
  rw [Held, holdView_snoc, hv3, holdView_snoc, hv1]
  by_cases hp : p = wb <;> simp [HoldView.item, HoldView.setHeld, Held, hp]

/-- From `base` to `tr` the rules were kept and no hold began or ended. -/
structure Undisturbed (base tr : List Item) : Prop where
  rules : HoldsOk tr
  same : ∀ p, Held tr p ↔ Held base p

theorem Undisturbed.backing {base tr : List Item} (h : Undisturbed base tr) {cs : List Call}
    (hb : cs.all Call.backing) (hd : ∀ p, .wlBufferDestroy p ∈ cs → ¬Held base p) :
    Undisturbed base (tr ++ calls cs) := by
  refine ⟨h.rules.backing hb fun p hp hh => hd p hp ((h.same p).mp hh), fun p => ?_⟩
  rw [(holdView_backing hb tr).2, h.same]
  exact and_iff_left_of_imp fun hh hp => hd p hp hh

theorem Undisturbed.inert {base tr : List Item} (h : Undisturbed base tr) {cs : List Call}
    (hc : Inert cs) : Undisturbed base (tr ++ calls cs) :=
  h.backing hc.backing fun p hp => absurd hp (hc.not_mem p)

theorem Undisturbed.draw {base tr : List Item} (h : Undisturbed base tr) {wb : Proxy}
    (hwb : ¬Held base wb) (buf : BufferRef) (width height : UInt32) (scale : Int32)
    (elapsedNs : UInt64) : Undisturbed base
      (tr ++ calls [.klRenderEngineDraw buf (some wb) width height scale elapsedNs]) := by
  refine ⟨h.rules.snoc (holdRule_touch (fun p hp hh => ?_) fun _ _ _ => Call.noConfusion),
    fun p => ?_⟩
  · cases hp
    exact hwb ((h.same wb).mp hh)
  · rw [← h.same p, calls_cons, calls_nil, Held, holdView_snoc]
    rfl

theorem HoldInv.frame {refs : CtxRefs} {surf surf' : KlSurface} {o : FrameOutcomes}
    {cs : List Call} {tr : List Item} {env : List Proxy} {s : SurfaceState}
    (hok : SurfaceOk env s) (hs : s.surf = surf) (hrefs : refs.Within env)
    (hf : Fresh s.table (acts cs)) (h : HoldInv surf tr) (hframe : FrameStep refs surf o surf' cs) :
    HoldInv surf' (tr ++ calls cs) := by
  subst hs
  obtain ⟨lo, le, hi⟩ := hok.inventory
  have hwf := hok.wellFormed
  cases hframe with
  | skipped =>
    refine ⟨fun p => ?_, h.rules.snoc (holdRule_plain rfl fun _ _ _ => Call.noConfusion)⟩
    rw [← h.exact p, calls_cons, calls_nil, Held, holdView_snoc]
    rfl
  | noBuffer hc hp hbusy =>
    have he := h.entry hwf hi none (fun i hr => by cases hr) fun _ => hbusy
    exact ⟨he.exact, he.rules⟩
  | createFailed hc hp i hfree b hb c1 hc1 hfail =>
    have hf1 : Fresh s.table (acts c1) := by simpa [frameEntry, Call.acts] using hf
    have he := h.entry hwf hi (some i) (fun j hr => by rwa [← Option.some.inj hr])
      fun hr => by cases hr
    have hreplaced := (Undisturbed.mk he.rules fun p => Iff.rfl).backing hc1.backing
      fun p hp => hc1.not_held he hi hfree hf1 hp
    rw [calls_append, ← List.append_assoc]
    refine ⟨fun p => ?_, hreplaced.rules⟩
    rw [hreplaced.same, he.exact]
    constructor
    · rintro ⟨j, hj, hbusy⟩
      have hji : j ≠ i := by
        rintro rfl
        rw [hfree] at hbusy
        cases hbusy
      refine ⟨j, ?_, ?_⟩ <;> rw [setBuffer_of_ne _ _ hji] <;> assumption
    · rintro ⟨j, hj, hbusy⟩
      have hji : j ≠ i := by
        rintro rfl
        rw [setBuffer_self, hb.busy] at hbusy
        cases hbusy
      rw [setBuffer_of_ne _ _ hji] at hj hbusy
      exact ⟨j, hj, hbusy⟩
  | committed hc hp ws hws hw hht i hfree b wb hb c1 c2 c3 hc1 hc2 hc3 engine t0 t1 el =>
    have hf1 : Fresh s.table (acts c1) := by
      have h' := hf
      simp only [acts_append, fresh_append] at h'
      exact h'.1.1.1.2
    have he := h.entry hwf hi (some i) (fun j hr => by rwa [← Option.some.inj hr])
      fun hr => by cases hr
    have hwb := hc1.drawn_not_held he hi hrefs hfree hf1 hb.wlBuffer
    -- the buffer is replaced and drawn, and then committed
    have hdrawn := ((((Undisturbed.mk he.rules fun p => Iff.rfl).backing hc1.backing
      fun p hp => hc1.not_held he hi hfree hf1 hp).inert hc2).draw hwb (s.surf.ref i)
        s.surf.width s.surf.height s.surf.scale el).inert hc3
    obtain ⟨hrules, hheld⟩ :=
      hdrawn.rules.commit s.surf ws (fun hh => hwb ((hdrawn.same wb).mp hh)) o
    have hsplit : tr ++ calls (frameEntry s.surf (some i) ++ c1 ++ c2 ++
        .klRenderEngineDraw (s.surf.ref i) (some wb) s.surf.width s.surf.height s.surf.scale el ::
          c3 ++ frameCommit s.surf ws wb o) =
        tr ++ calls (frameEntry s.surf (some i)) ++ calls c1 ++ calls c2 ++
        calls [.klRenderEngineDraw (s.surf.ref i) (some wb) s.surf.width s.surf.height
          s.surf.scale el] ++ calls c3 ++ calls (frameCommit s.surf ws wb o) := by
      simp
    rw [hsplit]
    refine ⟨fun p => ?_, hrules⟩
    rw [hheld, hdrawn.same, he.exact]
    constructor
    · rintro (⟨j, hj, hbusy⟩ | rfl)
      · have hji : j ≠ i := by
          rintro rfl
          rw [hfree] at hbusy
          cases hbusy
        exact ⟨j, by simpa [KlSurface.committed, hji] using hj,
          by simpa [KlSurface.committed, hji] using hbusy⟩
      · exact ⟨i, by simp [KlSurface.committed, hb.wlBuffer], by simp [KlSurface.committed]⟩
    · rintro ⟨j, hj, hbusy⟩
      by_cases hji : j = i
      · subst hji
        simp only [KlSurface.committed, Function.update_self, hb.wlBuffer, Option.some.injEq] at hj
        exact Or.inr hj.symm
      · exact Or.inl ⟨j, by simpa [KlSurface.committed, hji] using hj,
          by simpa [KlSurface.committed, hji] using hbusy⟩

/-! ## Attachment, detachment and events -/

theorem HoldInv.attach {refs : CtxRefs} {surf surf' : KlSurface} {o : AttachOutcomes} {ok : Bool}
    {cs : List Call} {tr : List Item} (h : HoldInv surf tr)
    (ha : AttachStep refs surf o ok surf' cs) : HoldInv surf' (tr ++ calls cs) := by
  have hbufs : surf'.buffers = surf.buffers := by cases ha <;> rfl
  -- the calls before the note of the return
  obtain ⟨ds, hds, hplain⟩ : ∃ ds, cs = ds ++ [.klSurfaceAttachLock surf.addr ok] ∧
      HoldPlain ds := by
    cases ha with
    | refused => exact ⟨[], rfl, holdPlain_of_all rfl⟩
    | already => exact ⟨[], rfl, holdPlain_of_all rfl⟩
    | noSurface compositor => exact ⟨[_], rfl, holdPlain_of_all rfl⟩
    | noLockSurface lock compositor ws output => exact ⟨[_, _, _], rfl, holdPlain_of_all rfl⟩
    | attached lock compositor ws output ls => exact ⟨[_, _, _], rfl, holdPlain_of_all rfl⟩
  obtain ⟨hrules, hview⟩ := hplain.extend h.rules
  rw [hds, calls_append, ← List.append_assoc]
  refine ⟨fun p => ?_, hrules.snoc (holdRule_plain rfl fun _ _ _ => Call.noConfusion)⟩
  rw [hbufs, ← h.exact p, calls_cons, calls_nil, Held, holdView_snoc, hview]
  rfl

theorem HoldInv.detach {surf surf' surf'' : KlSurface} {cs : List Call} {tr : List Item}
    (h : HoldInv surf tr) (hd : Detached surf surf')
    (hbufs : DetachedBuffers { surf with frameCallback := none }
      (List.finRange klSurfaceBufferCount) surf'' cs) :
    HoldInv surf' (tr ++ calls (detachCalls surf cs)) := by
  have hplain : ∀ (x : Option Proxy) (f : Proxy → Call), (∀ p, (f p).watched = false) →
      HoldPlain (x.toList.map f) := by
    intro x f hf
    refine holdPlain_of_all ?_
    cases x with
    | none => rfl
    | some p => simp [hf p]
  have hcb := hplain surf.frameCallback .wlCallbackDestroy fun _ => rfl
  have hls := hplain surf.extLockSurface .extSessionLockSurfaceV1Destroy fun _ => rfl
  have hws := hplain surf.wlSurface .wlSurfaceDestroy fun _ => rfl
  -- outside of a frame the rules let the buffers be destroyed
  have h1 := h.rules.snoc (holdRule_plain (c := .klSurfaceDetachLock surf.addr) rfl
    fun _ _ _ => Call.noConfusion)
  obtain ⟨h2, hv2⟩ := hcb.extend h1
  have hout : (holdView (tr ++ [Item.call (.klSurfaceDetachLock surf.addr)] ++
      calls (surf.frameCallback.toList.map .wlCallbackDestroy))).inFrame = false := by
    rw [hv2, holdView_snoc]
    rfl
  have h3 := h2.backing_outside hbufs.backing hout
  have hv3 := (holdView_backing hbufs.backing (tr ++ [Item.call (.klSurfaceDetachLock surf.addr)] ++
    calls (surf.frameCallback.toList.map .wlCallbackDestroy))).2
  obtain ⟨h4, hv4⟩ := hls.extend h3
  obtain ⟨h5, hv5⟩ := hws.extend h4
  have hsplit : tr ++ calls (detachCalls surf cs) =
      tr ++ [Item.call (.klSurfaceDetachLock surf.addr)] ++
        calls (surf.frameCallback.toList.map .wlCallbackDestroy) ++ calls cs ++
        calls (surf.extLockSurface.toList.map .extSessionLockSurfaceV1Destroy) ++
        calls (surf.wlSurface.toList.map .wlSurfaceDestroy) := by
    simp [detachCalls]
  rw [hsplit]
  refine ⟨fun p => ⟨fun hh => ?_, ?_⟩, h5⟩
  · -- every held buffer was destroyed
    rw [Held, hv5, hv4] at hh
    obtain ⟨hh, hnot⟩ := (hv3 p).mp hh
    rw [Held, hv2, holdView_snoc] at hh
    obtain ⟨i, hwb, -⟩ := (h.exact p).mp hh
    exact absurd (hbufs.destroys i (List.mem_finRange i) p hwb) hnot
  · rintro ⟨i, -, hbusy⟩
    rw [(hd.blank i).busy] at hbusy
    cases hbusy

theorem HoldInv.prepared {surf mid : KlSurface} {p : Proxy} {d : Listener} {e : ProxyEvent}
    {cs : List Call} {tr : List Item} {t : Table Proxy Listener} {lo le : Bool}
    {rest : Multiset (Proxy × Option Listener)} (hi : Inventory t (surf.own lo le + rest))
    (h : HoldInv surf tr) (hp : Prepared surf p d e mid cs) :
    HoldInv mid (tr ++ .event p d e :: calls cs) := by
  have hevent : HoldsOk (tr ++ [Item.event p d e]) := h.rules.snoc holdRule_event
  have hcalls : HoldPlain cs := by
    cases hp <;> exact holdPlain_of_all rfl
  obtain ⟨hrules, hview⟩ := hcalls.extend hevent
  have hsplit : tr ++ .event p d e :: calls cs = tr ++ [Item.event p d e] ++ calls cs := by simp
  rw [hsplit]
  refine ⟨fun q => ?_, hrules⟩
  rw [Held, hview, holdView_snoc]
  cases hp with
  | other => exact h.exact q
  | sameScale => exact h.exact q
  | scale => exact h.exact q
  | configure => exact h.exact q
  | done => exact h.exact q
  | release i hwb =>
    -- the release ends the hold and clears the flag of the same buffer
    have hbuf : ∀ j, ((surf.released i).buffers j).wlBuffer = (surf.buffers j).wlBuffer ∧
        ((surf.released i).buffers j).busy = (if j = i then false else (surf.buffers j).busy) := by
      intro j
      rw [KlSurface.released, klBufferHandleRelease_fst]
      by_cases hji : j = i
      · subst hji
        simp
      · simp [setBuffer_of_ne _ _ hji, hji]
    by_cases hq : q = p
    · subst hq
      refine ⟨fun hh => by simp [HoldView.item, HoldView.setHeld] at hh, ?_⟩
      rintro ⟨j, hj, hbusy⟩
      rw [(hbuf j).1] at hj
      rw [(hbuf j).2, if_pos (wlBuffer_unique hi hj hwb)] at hbusy
      cases hbusy
    · have hiff := h.exact q
      simp only [Held] at hiff
      simp only [HoldView.item, HoldView.setHeld, Function.update_of_ne hq, hiff]
      refine exists_congr fun j => ?_
      rw [(hbuf j).1, (hbuf j).2]
      by_cases hji : j = i
      · subst hji
        simp [hwb, Ne.symm hq]
      · simp [hji]

/-! ## Every run -/

theorem holdInv_invariant (env : List Proxy) :
    SurfaceInvariant env fun s tr => HoldInv s.surf tr where
  init hs := by
    obtain ⟨-, output, name, o, hc⟩ := surfaceMachine_init hs
    obtain ⟨-, -, -, hbufs⟩ := klSurfaceCreate_fields hc
    refine ⟨fun p => ⟨fun hh => absurd hh Bool.false_ne_true, ?_⟩, always_nil _⟩
    rintro ⟨i, hwb, -⟩
    rw [hbufs i] at hwb
    cases hwb
  attach _ _ h ha := h.attach ha
  detach _ h hd hbufs := h.detach hd hbufs
  prepared hok h hp := by
    obtain ⟨lo, le, hi⟩ := hok.inventory
    exact h.prepared hi hp
  frame hok hrefs hf h hframe := h.frame hok rfl hrefs hf hframe

/-- **Buffers.**  In every run of a surface no frame draws into, recreates, destroys
or attaches a held buffer, and no free buffer is found exactly when all are held;
after every event a buffer is busy exactly when it is held, and `current_buffer` is
an index of the buffers. -/
theorem buffers_sound {env : List Proxy} {s : SurfaceState} {tr : List Item}
    (h : (surfaceMachine env).Reach s tr) :
    Always HoldRule tr ∧
      (∀ i, (s.surf.buffers i).busy = true ↔
        ∃ wb, (s.surf.buffers i).wlBuffer = some wb ∧ Held tr wb) ∧
      s.surf.currentBuffer < klSurfaceBufferCount := by
  have hinv := (holdInv_invariant env).reach h
  have hok := surfaceMachine_ok h
  obtain ⟨lo, le, hi⟩ := hok.inventory
  refine ⟨hinv.rules, fun i => ⟨fun hbusy => ?_, ?_⟩, hok.wellFormed.current⟩
  · have hwb : (s.surf.buffers i).wlBuffer ≠ none := fun hn => by
      rw [hok.wellFormed.idle i hn] at hbusy
      cases hbusy
    obtain ⟨wb, hwb⟩ := Option.ne_none_iff_exists'.mp hwb
    exact ⟨wb, hwb, (hinv.exact wb).mpr ⟨i, hwb, hbusy⟩⟩
  · rintro ⟨wb, hwb, hh⟩
    cases hbusy : (s.surf.buffers i).busy with
    | true => rfl
    | false => exact absurd hh (hinv.not_held_of_free hi hbusy hwb)

/-- After the sample run one buffer is free again and one is held. -/
theorem buffers_sound_sampleRun :
    ((holdView sampleRun.2).held 12 = false ∧ (holdView sampleRun.2).held 18 = true) ∧
      Always HoldRule sampleRun.2 ∧
      (∀ i, (sampleRun.1.surf.buffers i).busy = true ↔
        ∃ wb, (sampleRun.1.surf.buffers i).wlBuffer = some wb ∧ Held sampleRun.2 wb) ∧
      sampleRun.1.surf.currentBuffer < klSurfaceBufferCount :=
  ⟨by decide, buffers_sound sampleRun_reach⟩

end Kirilock
