import Kirilock.LockStep
import Kirilock.SurfaceRun

/-!
Which surfaces and buffers are still there, as the history says.

A surface is alive from the `calloc` that returned it to its `free`, and a buffer
has the `wl_buffer` that its last creation returned, until it is destroyed
(`notes`).  `LiveRule` is what an item of the history owes to the items before it:
a listener runs with a surface that is alive and, where it listens to a buffer,
on the very `wl_buffer` that buffer has; and every call is given a surface that is
alive.  `Roster` says that the list of the context is right about all this, and
every chain of functions on the list keeps it (`SurfacesStep.roster`).
-/

namespace Kirilock

open Runs

/-! ## The history of surfaces and buffers -/

def Alive (tr : List Item) (a : SurfaceRef) : Prop :=
  .call (.callocSurface (some a)) ∈ tr ∧ .call (.freeSurface a) ∉ tr

def callsOf (tr : List Item) : List Call :=
  tr.filterMap fun
    | .event .. => none
    | .call c => some c

@[simp] theorem callsOf_append (tr out : List Item) :
    callsOf (tr ++ out) = callsOf tr ++ callsOf out :=
  List.filterMap_append

@[simp] theorem callsOf_nil : callsOf [] = [] := rfl

@[simp] theorem callsOf_event_cons (p : Proxy) (d : Listener) (e : ProxyEvent) (tr : List Item) :
    callsOf (.event p d e :: tr) = callsOf tr := rfl

@[simp] theorem callsOf_calls (cs : List Call) : callsOf (calls cs) = cs := by
  induction cs with
  | nil => rfl
  | cons c cs ih =>
    rw [calls_cons]
    exact congrArg (c :: ·) ih

theorem mem_callsOf {tr : List Item} {c : Call} : c ∈ callsOf tr ↔ .call c ∈ tr := by
  simp only [callsOf, List.mem_filterMap]
  constructor
  · rintro ⟨x, hx, he⟩
    cases x with
    | event => cases he
    | call c' => exact Option.some.inj he ▸ hx
  · exact fun h => ⟨_, h, rfl⟩

theorem call_mem_calls {cs : List Call} {c : Call} : .call c ∈ calls cs ↔ c ∈ cs := by
  simp [calls]

/-- The `wl_buffer` that every buffer has. -/
def notes (tr : List Item) : BufferRef → Option Proxy := noteAll (fun _ => none) (callsOf tr)

theorem notes_calls (tr : List Item) (cs : List Call) :
    notes (tr ++ calls cs) = noteAll (notes tr) cs := by
  simp [notes, noteAll_append]

theorem notes_event (tr : List Item) (p : Proxy) (d : Listener) (e : ProxyEvent) :
    notes (tr ++ [Item.event p d e]) = notes tr := by
  simp [notes]

/-- The surface an item is about. -/
def Item.subject : Item → Option SurfaceRef
  | .event _ d _ => d.surface
  | .call c => c.subject

/-- No listener runs with, and no call is given, a surface that is not alive, and no
listener runs with a buffer that has lost the `wl_buffer` it listens to. -/
def LiveRule (pre : List Item) (x : Item) : Prop :=
  (∀ a, x.subject = some a → Alive pre a) ∧
    ∀ p buf e, x = .event p (.buffer buf) e → notes pre buf = some p

theorem Alive.append {tr out : List Item} {a : SurfaceRef} (h : Alive tr a)
    (hout : .call (.freeSurface a) ∉ out) : Alive (tr ++ out) a :=
  ⟨List.mem_append_left _ h.1, List.not_mem_append h.2 hout⟩

/-- Whatever is named was allocated. -/
theorem born_of_named {tr : List Item} (h : Always LiveRule tr) {c : Call} {a : SurfaceRef}
    (hc : .call c ∈ tr) (ha : c.subject = some a) : .call (.callocSurface (some a)) ∈ tr := by
  obtain ⟨pre, post, rfl⟩ := List.append_of_mem hc
  exact List.mem_append_left _ ((h pre _ post rfl).1 a ha).1

theorem Call.subject_of_note {c : Call} {buf : BufferRef} {ret : Option Proxy}
    (h : c.note = some (buf, ret)) : c.subject = some buf.surface := by
  cases c <;> simp only [Call.note, reduceCtorEq, Option.some.injEq, Prod.mk.injEq] at h <;>
    exact congrArg (fun b => some (BufferRef.surface b)) h.1

theorem notes_of_unborn {tr : List Item} (h : Always LiveRule tr) {buf : BufferRef}
    (hb : .call (.callocSurface (some buf.surface)) ∉ tr) : notes tr buf = none := by
  refine noteAll_of_not_noted _ fun c hc ret hn => hb ?_
  exact born_of_named h (mem_callsOf.mp hc) (Call.subject_of_note hn)

/-! ## Calls that keep the surfaces -/

/-- Calls that allocate or free a surface. -/
def Call.memory : Call → Bool
  | .callocSurface .. => true
  | .freeSurface .. => true
  | _ => false

def Memoryless (cs : List Call) : Prop := ∀ c ∈ cs, c.memory = false

theorem Memoryless.append {cs ds : List Call} (h1 : Memoryless cs) (h2 : Memoryless ds) :
    Memoryless (cs ++ ds) :=
  List.forall_mem_append.mpr ⟨h1, h2⟩

theorem memoryless_of_all {cs : List Call} (h : cs.all (fun c => !c.memory) = true) :
    Memoryless cs :=
  fun c hc => (Bool.not_eq_true' _).mp (List.all_eq_true.mp h c hc)

theorem Memoryless.not_mem {cs : List Call} (h : Memoryless cs) (a : SurfaceRef) :
    .freeSurface a ∉ cs :=
  fun hc => absurd (h _ hc) (by simp [Call.memory])

theorem memoryless_of_drawing {cs : List Call} (h : cs.all Call.drawing) : Memoryless cs := by
  intro c hc
  have hd := List.all_eq_true.mp h c hc
  cases c <;> first
    | rfl
    | exact absurd hd Bool.false_ne_true

theorem memoryless_toList_map (x : Option Proxy) (f : Proxy → Call)
    (h : ∀ p, (f p).memory = false) : Memoryless (x.toList.map f) := by
  cases x <;> simp [Memoryless, h]

theorem names_toList_map {a : SurfaceRef} (x : Option Proxy) (f : Proxy → Call)
    (h : ∀ p, (f p).subject = none) : Names a (x.toList.map f) := by
  refine names_of_forall fun c hc => ?_
  obtain ⟨p, -, rfl⟩ := List.mem_map.mp hc
  exact h p

/-- Calls that are given the living surface `a` and free nothing. -/
theorem always_calls {tr : List Item} (h : Always LiveRule tr) {a : SurfaceRef} (ha : Alive tr a)
    {cs : List Call} (hn : Names a cs) (hq : Memoryless cs) : Always LiveRule (tr ++ calls cs) := by
  refine always_append.mpr ⟨h, fun pre x post he => ?_⟩
  have hmem : ∀ y ∈ pre ++ x :: post, y ∈ calls cs := fun y hy => he ▸ hy
  obtain ⟨c, hc, rfl⟩ := List.mem_map.mp (hmem x (by simp))
  refine ⟨fun b hb => ?_, fun p buf e hx => by cases hx⟩
  rw [hn c hc b hb]
  refine ha.append fun hf => ?_
  exact hq.not_mem a (call_mem_calls.mp (hmem _ (List.mem_append_left _ hf)))

/-! ## One function of a surface -/

theorem AttachStep.memoryless {refs : CtxRefs} {surf surf' : KlSurface} {o : AttachOutcomes}
    {ok : Bool} {cs : List Call} (h : AttachStep refs surf o ok surf' cs) :
    Names surf.addr cs ∧ Memoryless cs ∧ Noted surf surf' cs := by
  have hbufs : ∀ i, (surf'.buffers i).wlBuffer = (surf.buffers i).wlBuffer := by
    cases h <;> exact fun _ => rfl
  have hcs : Names surf.addr cs ∧ Memoryless cs ∧ Noteless cs := by
    cases h <;>
      exact ⟨by simp [Names, Call.subject], memoryless_of_all rfl, noteless_of_all rfl⟩
  exact ⟨hcs.1, hcs.2.1, .of_noteless hcs.2.2 h.addr hbufs⟩

theorem klSurfaceDetachLock_memoryless (surf : KlSurface) :
    Names surf.addr (klSurfaceDetachLock surf).2 ∧ Memoryless (klSurfaceDetachLock surf).2 ∧
      Noted surf (klSurfaceDetachLock surf).1 (klSurfaceDetachLock surf).2 := by
  obtain ⟨hd, surf', cs, hbufs, he⟩ := klSurfaceDetachLock_spec surf
  rw [he]
  have hhead : ∀ {P : Call → Prop}, P (.klSurfaceDetachLock surf.addr) →
      (∀ c ∈ surf.frameCallback.toList.map Call.wlCallbackDestroy, P c) →
      (∀ c ∈ cs, P c) →
      (∀ c ∈ surf.extLockSurface.toList.map Call.extSessionLockSurfaceV1Destroy, P c) →
      (∀ c ∈ surf.wlSurface.toList.map Call.wlSurfaceDestroy, P c) →
      ∀ c ∈ detachCalls surf cs, P c := by
    intro P h1 h2 h3 h4 h5 c hc
    simp only [detachCalls, List.mem_append, List.mem_cons] at hc
    rcases hc with (((rfl | hc) | hc) | hc) | hc
    exacts [h1, h2 c hc, h3 c hc, h4 c hc, h5 c hc]
  refine ⟨hhead (fun b hb => (Option.some.inj hb).symm) (names_toList_map _ _ fun _ => rfl)
    hbufs.names (names_toList_map _ _ fun _ => rfl) (names_toList_map _ _ fun _ => rfl),
    hhead rfl (memoryless_toList_map _ _ fun _ => rfl) (memoryless_of_drawing (drawing_of_backing
      hbufs.backing)) (memoryless_toList_map _ _ fun _ => rfl)
      (memoryless_toList_map _ _ fun _ => rfl), ?_⟩
  -- only the destruction of the buffers is noted
  have hnote : ∀ f, noteAll f (detachCalls surf cs) = noteAll f cs := by
    intro f
    have hnil : ∀ (x : Option Proxy) (g : Proxy → Call) f, (∀ p, (g p).note = none) →
        noteAll f (x.toList.map g) = f := by
      intro x g f hg
      cases x with
      | none => rfl
      | some p => simp [noteAll, Call.setNote, hg]
    simp only [detachCalls, noteAll_append,
      hnil _ Call.extSessionLockSurfaceV1Destroy _ fun _ => rfl,
      hnil _ Call.wlSurfaceDestroy _ fun _ => rfl]
    congr 1
    exact hnil _ Call.wlCallbackDestroy _ fun _ => rfl
  refine ⟨fun f _ i => ?_, fun f buf hb => ?_⟩
  · rw [hnote, hbufs.notes, (hd.blank i).wlBuffer, KlSurface.ref, hd.addr]
    exact if_pos ⟨rfl, List.mem_finRange i⟩
  · rw [hnote, hbufs.notes]
    exact if_neg fun h => hb h.1

theorem klRenderEngineDestroy_memoryless (engine : Option KlRenderEngine) (a : SurfaceRef) :
    Names a (klRenderEngineDestroy engine) ∧ Memoryless (klRenderEngineDestroy engine) ∧
      Noteless (klRenderEngineDestroy engine) := by
  cases engine with
  | none => exact ⟨names_of_all rfl, memoryless_of_all rfl, noteless_of_all rfl⟩
  | some engine =>
    have hin := klRenderCleanupBaked_inert engine
    have hm := memoryless_of_drawing (drawing_of_backing hin.backing)
    exact ⟨(hin.names a).append (names_of_all rfl), hm.append (memoryless_of_all rfl),
      hin.noteless.append (noteless_of_all rfl)⟩

theorem wlOutputDrop_memoryless (output : Proxy) (releasable : Bool) (a : SurfaceRef) :
    Names a (wlOutputDrop output releasable) ∧ Memoryless (wlOutputDrop output releasable) ∧
      Noteless (wlOutputDrop output releasable) := by
  cases releasable <;> exact ⟨names_of_all rfl, memoryless_of_all rfl, noteless_of_all rfl⟩

/-- The last call of a function that destroys the surface frees it. -/
def freed (a : SurfaceRef) : Option KlSurface → List Call
  | none => [.freeSurface a]
  | some _ => []

/-- What any function of a surface calls and notes. -/
structure OpCalls (surf : KlSurface) (r : Option KlSurface) (ds : List Call) : Prop where
  names : Names surf.addr ds
  memoryless : Memoryless ds
  noted : ∀ surf', r = some surf' → Noted surf surf' ds
  others : ∀ f buf, buf.surface ≠ surf.addr → noteAll f ds buf = f buf

theorem SurfaceOp.calls {refs : CtxRefs} {surf : KlSurface} {r : Option KlSurface}
    {cs : List Call} (h : SurfaceOp refs surf r cs) :
    ∃ ds, cs = ds ++ freed surf.addr r ∧ OpCalls surf r ds := by
  have hsome : ∀ {surf' ds}, Names surf.addr ds → Memoryless ds → Noted surf surf' ds →
      ∃ ds', ds = ds' ++ freed surf.addr (some surf') ∧ OpCalls surf (some surf') ds' := by
    intro surf' ds hn hq hnoted
    refine ⟨ds, (List.append_nil ds).symm, hn, hq, fun x hx => ?_, hnoted.others⟩
    rw [← Option.some.inj hx]
    exact hnoted
  cases h with
  | handled h => exact hsome h.names (memoryless_of_drawing h.drawing) h.noted
  | attached h =>
    obtain ⟨hn, hq, hnoted⟩ := h.memoryless
    exact hsome hn hq hnoted
  | detached =>
    obtain ⟨hn, hq, hnoted⟩ := klSurfaceDetachLock_memoryless surf
    exact hsome hn hq hnoted
  | destroyed releasable =>
    obtain ⟨hn1, hq1, hnoted⟩ := klSurfaceDetachLock_memoryless surf
    obtain ⟨hn2, hq2, hnone2⟩ :=
      klRenderEngineDestroy_memoryless (klSurfaceDetachLock surf).1.engine surf.addr
    have hdrop : ∀ x : Option Proxy,
        Names surf.addr (x.toList.flatMap (wlOutputDrop · releasable)) ∧
        Memoryless (x.toList.flatMap (wlOutputDrop · releasable)) ∧
        Noteless (x.toList.flatMap (wlOutputDrop · releasable)) := by
      intro x
      cases x with
      | none => exact ⟨names_of_all rfl, memoryless_of_all rfl, noteless_of_all rfl⟩
      | some output => simpa using wlOutputDrop_memoryless output releasable surf.addr
    obtain ⟨hn3, hq3, hnone3⟩ := hdrop (klSurfaceDetachLock surf).1.wlOutput
    refine ⟨_, rfl, (hn1.append hn2).append hn3, (hq1.append hq2).append hq3,
      fun _ he => (by cases he), fun f buf hb => ?_⟩
    rw [noteAll_append, noteAll_append, hnone2.noteAll, hnone3.noteAll]
    exact hnoted.others f buf hb

/-! ## The calls of `surface.c` -/

/-- Calls that attach, detach and destroy a surface. -/
def Call.attaching : Call → Bool
  | .wlCompositorCreateSurface .. => true
  | .extSessionLockV1GetLockSurface .. => true
  | .extSessionLockSurfaceV1AddListener .. => true
  | .extSessionLockSurfaceV1Destroy .. => true
  | .wlSurfaceDestroy .. => true
  | .wlOutputGetVersion .. => true
  | .wlOutputRelease .. => true
  | .wlOutputDestroy .. => true
  | .freeEngine => true
  | .freeSurface .. => true
  | .klSurfaceAttachLock .. => true
  | .klSurfaceDetachLock .. => true
  | _ => false

/-- Calls that the functions run on a surface make. -/
def Call.ofSurface (c : Call) : Bool := c.drawing || c.attaching

theorem ofSurface_of_drawing {cs : List Call} (h : cs.all Call.drawing) :
    cs.all Call.ofSurface := by
  refine List.all_eq_true.mpr fun c hc => ?_
  rw [Call.ofSurface, List.all_eq_true.mp h c hc, Bool.true_or]

theorem ofSurface_toList_map (x : Option Proxy) (f : Proxy → Call)
    (h : ∀ p, (f p).ofSurface = true) : (x.toList.map f).all Call.ofSurface := by
  cases x with
  | none => rfl
  | some p => simp [h]

theorem klSurfaceDetachLock_ofSurface (surf : KlSurface) :
    (klSurfaceDetachLock surf).2.all Call.ofSurface := by
  obtain ⟨-, surf', cs, hbufs, he⟩ := klSurfaceDetachLock_spec surf
  have h1 : (surf.frameCallback.toList.map Call.wlCallbackDestroy).all Call.ofSurface :=
    ofSurface_toList_map _ _ fun _ => rfl
  have h2 := ofSurface_of_drawing (drawing_of_backing hbufs.backing)
  have h3 : (surf.extLockSurface.toList.map Call.extSessionLockSurfaceV1Destroy).all
      Call.ofSurface := ofSurface_toList_map _ _ fun _ => rfl
  have h4 : (surf.wlSurface.toList.map Call.wlSurfaceDestroy).all Call.ofSurface :=
    ofSurface_toList_map _ _ fun _ => rfl
  simp only [he, detachCalls, List.all_append, List.all_cons, h1, h2, h3, h4, Bool.and_true]
  rfl

theorem SurfaceOp.ofSurface {refs : CtxRefs} {surf : KlSurface} {r : Option KlSurface}
    {cs : List Call} (h : SurfaceOp refs surf r cs) : cs.all Call.ofSurface := by
  cases h with
  | handled h => exact ofSurface_of_drawing h.drawing
  | attached h => cases h <;> rfl
  | detached => exact klSurfaceDetachLock_ofSurface surf
  | destroyed releasable =>
    have hengine : (klRenderEngineDestroy (klSurfaceDetachLock surf).1.engine).all
        Call.ofSurface := by
      cases (klSurfaceDetachLock surf).1.engine with
      | none => rfl
      | some engine =>
        have hin := (klRenderCleanupBaked_inert engine).backing
        simp only [klRenderEngineDestroy, List.all_append,
          ofSurface_of_drawing (drawing_of_backing hin)]
        rfl
    have hdrop : ((klSurfaceDetachLock surf).1.wlOutput.toList.flatMap
        (wlOutputDrop · releasable)).all Call.ofSurface := by
      cases (klSurfaceDetachLock surf).1.wlOutput <;> cases releasable <;> rfl
    simp only [klSurfaceDestroy, List.all_append, klSurfaceDetachLock_ofSurface, hengine, hdrop,
      Bool.true_and]
    rfl

theorem SurfacesStep.ofSurface {refs : CtxRefs} {l l' : List KlSurface} {cs : List Call}
    (h : SurfacesStep refs l cs l') : cs.all Call.ofSurface := by
  induction h with
  | refl l => rfl
  | op hop _ ih =>
    rw [List.all_append, hop.ofSurface, ih]
    rfl

/-! ## The list of the context -/

/-- The surfaces of the list are alive and apart from each other, their buffers have
the `wl_buffer`s that the history says, and the history keeps the rule. -/
structure Roster (tr : List Item) (surfs : List KlSurface) : Prop where
  nodup : (surfs.map KlSurface.addr).Nodup
  alive : ∀ surf ∈ surfs, Alive tr surf.addr
  noted : ∀ surf ∈ surfs, ∀ i, notes tr (surf.ref i) = (surf.buffers i).wlBuffer
  rules : Always LiveRule tr

theorem roster_nil : Roster [] [] := ⟨by simp, by simp, by simp, always_nil _⟩

/-- Calls that are given no surface. -/
def Remote (cs : List Call) : Prop := ∀ c ∈ cs, c.subject = none

theorem Remote.noteless {cs : List Call} (h : Remote cs) : Noteless cs := by
  intro c hc
  cases hn : c.note with
  | none => rfl
  | some n =>
    have := Call.subject_of_note (show c.note = some (n.1, n.2) from hn)
    rw [h c hc] at this
    cases this

theorem Roster.remote {tr : List Item} {surfs : List KlSurface} (h : Roster tr surfs)
    {cs : List Call} (hcs : Remote cs) : Roster (tr ++ calls cs) surfs := by
  refine ⟨h.nodup, fun surf hs => (h.alive surf hs).append fun hf => ?_, fun surf hs i => ?_, ?_⟩
  · have := hcs _ (call_mem_calls.mp hf)
    cases this
  · rw [notes_calls, hcs.noteless.noteAll]
    exact h.noted surf hs i
  · refine h.rules.append_of_forall fun x hx pre => ?_
    obtain ⟨c, hc, rfl⟩ := List.mem_map.mp hx
    refine ⟨fun a ha => ?_, fun p buf e he => by cases he⟩
    rw [Item.subject, hcs c hc] at ha
    cases ha

theorem Roster.event {tr : List Item} {surfs : List KlSurface} (h : Roster tr surfs) {p : Proxy}
    {d : Listener} {e : ProxyEvent} (hx : LiveRule tr (.event p d e)) :
    Roster (tr ++ [Item.event p d e]) surfs :=
  ⟨h.nodup, fun surf hs => (h.alive surf hs).append (by simp), fun surf hs i => by
    rw [notes_event]
    exact h.noted surf hs i, always_snoc.mpr ⟨h.rules, hx⟩⟩

theorem Roster.op {tr : List Item} {l1 l2 : List KlSurface} {surf : KlSurface}
    (h : Roster tr (l1 ++ surf :: l2)) {refs : CtxRefs} {r : Option KlSurface} {cs : List Call}
    (hop : SurfaceOp refs surf r cs) : Roster (tr ++ calls cs) (l1 ++ r.toList ++ l2) := by
  obtain ⟨ds, rfl, hds⟩ := hop.calls
  have halive := h.alive surf (by simp)
  have hnodup := h.nodup
  simp only [List.map_append, List.map_cons] at hnodup
  -- the other surfaces have other addresses
  have hother : ∀ x ∈ l1 ++ l2, x.addr ≠ surf.addr := by
    have hmid := List.nodup_middle.mp hnodup
    rw [List.nodup_cons, ← List.map_append] at hmid
    exact fun x hx he => hmid.1 (he ▸ List.mem_map_of_mem hx)
  have hfreed : ∀ {a}, a ≠ surf.addr → .freeSurface a ∉ freed surf.addr r := by
    intro a ha hf
    cases r with
    | none => exact ha (by simpa [freed] using hf)
    | some surf' => cases hf
  have hrules := always_calls h.rules halive hds.names hds.memoryless
  have hnoteless : Noteless (freed surf.addr r) := by
    cases r <;> exact noteless_of_all rfl
  have hkeep : ∀ x ∈ l1 ++ l2, Alive (tr ++ calls (ds ++ freed surf.addr r)) x.addr ∧
      ∀ i, notes (tr ++ calls (ds ++ freed surf.addr r)) (x.ref i) = (x.buffers i).wlBuffer := by
    intro x hx
    have hxs : x ∈ l1 ++ surf :: l2 := by
      simp only [List.mem_append, List.mem_cons] at hx ⊢
      tauto
    refine ⟨(h.alive x hxs).append fun hf => ?_, fun i => ?_⟩
    · rcases List.mem_append.mp (call_mem_calls.mp hf) with hf | hf
      · exact hds.memoryless.not_mem _ hf
      · exact hfreed (hother x hx) hf
    · rw [notes_calls, noteAll_append, hnoteless.noteAll, hds.others _ _ (hother x hx)]
      exact h.noted x hxs i
  cases r with
  | none =>
    simp only [Option.toList_none, List.append_nil]
    refine ⟨?_, fun x hx => (hkeep x hx).1, fun x hx => (hkeep x hx).2, ?_⟩
    · rw [List.map_append]
      exact (List.nodup_cons.mp (List.nodup_middle.mp hnodup)).2
    · rw [calls_append, ← List.append_assoc]
      refine always_snoc.mpr ⟨hrules, fun a ha => ?_, fun p buf e hx => by cases hx⟩
      rw [← Option.some.inj ha]
      exact halive.append fun hf => hds.memoryless.not_mem _ (call_mem_calls.mp hf)
  | some surf' =>
    have haddr := hop.addr
    simp only [freed, List.append_nil] at hkeep hop ⊢
    have hsurf' : Alive (tr ++ calls ds) surf'.addr ∧
        ∀ i, notes (tr ++ calls ds) (surf'.ref i) = (surf'.buffers i).wlBuffer := by
      refine ⟨haddr ▸ halive.append fun hf => hds.memoryless.not_mem _ (call_mem_calls.mp hf),
        fun i => ?_⟩
      rw [notes_calls]
      exact (hds.noted surf' rfl).agrees _ (h.noted surf (by simp)) i
    have hall : ∀ x ∈ l1 ++ (some surf').toList ++ l2, x ∈ l1 ++ l2 ∨ x = surf' := by
      intro x hx
      simp only [List.mem_append, Option.mem_toList, Option.some.injEq] at hx ⊢
      tauto
    refine ⟨?_, fun x hx => ?_, fun x hx => ?_, hrules⟩
    · simpa [haddr] using hnodup
    · rcases hall x hx with hx | rfl
      · exact (hkeep x hx).1
      · exact hsurf'.1
    · rcases hall x hx with hx | rfl
      · exact (hkeep x hx).2
      · exact hsurf'.2

theorem SurfacesStep.roster {refs : CtxRefs} {l l' : List KlSurface} {cs : List Call}
    (h : SurfacesStep refs l cs l') {tr : List Item} (hr : Roster tr l) :
    Roster (tr ++ calls cs) l' := by
  induction h generalizing tr with
  | refl l => simpa using hr
  | op hop _ ih =>
    rw [calls_append, ← List.append_assoc]
    exact ih (hr.op hop)

/-- A surface of its own is added. -/
theorem Roster.created {tr : List Item} {surfs : List KlSurface} (h : Roster tr surfs)
    {output : Proxy} {name : UInt32} {surf : KlSurface} {cs : List Call}
    (hs : Created output name surf cs) (hnew : .call (.callocSurface (some surf.addr)) ∉ tr) :
    Roster (tr ++ calls cs) (surf :: surfs) := by
  obtain ⟨ok, rfl⟩ := hs.calls
  have hnotes : ∀ buf, notes (tr ++ calls [.callocSurface (some surf.addr), .callocEngine true,
      .wlOutputAddListener output surf.addr ok]) buf = notes tr buf := by
    intro buf
    rw [notes_calls]
    rfl
  refine ⟨?_, ?_, ?_, ?_⟩
  · rw [List.map_cons, List.nodup_cons]
    refine ⟨fun ha => hnew ?_, h.nodup⟩
    obtain ⟨x, hx, he⟩ := List.mem_map.mp ha
    exact he ▸ (h.alive x hx).1
  · refine List.forall_mem_cons.mpr ⟨⟨by simp, ?_⟩, fun x hx => (h.alive x hx).append (by simp)⟩
    refine List.not_mem_append (fun hf => hnew ?_) (by simp)
    exact born_of_named h.rules hf rfl
  · refine List.forall_mem_cons.mpr ⟨fun i => ?_, fun x hx i => ?_⟩
    · rw [hnotes, hs.blank i]
      exact notes_of_unborn h.rules hnew
    · rw [hnotes]
      exact h.noted x hx i
  · simp only [calls_cons, calls_nil]
    refine always_append.mpr ⟨h.rules, ?_⟩
    have hfree : .call (.freeSurface surf.addr) ∉ tr := fun hf =>
      hnew (born_of_named h.rules hf rfl)
    simp [LiveRule, Item.subject, Call.subject, Alive, hfree]

/-- Nothing is added, and what was allocated is freed. -/
theorem Roster.createFailed {tr : List Item} {surfs : List KlSurface} (h : Roster tr surfs)
    {cs : List Call} (hcs : CreateFailed cs)
    (hnew : ∀ a, .callocSurface (some a) ∈ cs → .call (.callocSurface (some a)) ∉ tr) :
    Roster (tr ++ calls cs) surfs := by
  cases hcs with
  | calloc => exact h.remote (by simp [Remote, Call.subject])
  | engine a =>
    have hnew := hnew a (by simp)
    have hfree : .call (.freeSurface a) ∉ tr := fun hf => hnew (born_of_named h.rules hf rfl)
    refine ⟨h.nodup, fun x hx => (h.alive x hx).append ?_, fun x hx i => ?_, ?_⟩
    · have : x.addr ≠ a := fun he => hnew (he ▸ (h.alive x hx).1)
      simpa using this
    · rw [notes_calls]
      exact h.noted x hx i
    · simp only [calls_cons, calls_nil]
      refine always_append.mpr ⟨h.rules, ?_⟩
      simp [LiveRule, Item.subject, Call.subject, Alive, hfree]

end Kirilock
