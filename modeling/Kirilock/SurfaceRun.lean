import Kirilock.SurfaceOwn

/-!
Runs of one surface: attached, detached and handed events in any order.

A run starts with the surface that `kl_surface_create` returned.  An input says
who moves and what the outside answers; `deliver` runs the listener that the
proxy table has for the proxy, so a proxy without a listener or already destroyed
delivers nothing.  `env` lists the proxies of the context that the surface may be
handed (compositors, shm, locks); the surface owns none of them.

* `SurfaceOk`: the surface is well formed and the live proxies are exactly its
  own and those of `env`.
* `surfaceMachine_step`: what a step can do, in the words of `AttachStep`,
  `Detached`, `Prepared` and `FrameStep`.
* `SurfaceInvariant.reach`: an invariant of these four holds in every run.
-/

namespace Kirilock

open Runs Ownership

/-- The context's proxies are among `env`. -/
def CtxRefs.Within (refs : CtxRefs) (env : List Proxy) : Prop :=
  (∀ p ∈ refs.compositor, p ∈ env) ∧ (∀ p ∈ refs.shm, p ∈ env) ∧ ∀ p ∈ refs.lock, p ∈ env

instance (refs : CtxRefs) (env : List Proxy) : Decidable (refs.Within env) :=
  inferInstanceAs (Decidable (_ ∧ _ ∧ _))

def calls (cs : List Call) : List Item := cs.map .call

@[simp] theorem calls_nil : calls [] = [] := rfl

@[simp] theorem calls_cons (c : Call) (cs : List Call) : calls (c :: cs) = .call c :: calls cs :=
  rfl

@[simp] theorem calls_append (cs ds : List Call) : calls (cs ++ ds) = calls cs ++ calls ds := by
  simp [calls]

/-! ## The machine -/

structure SurfaceState where
  surf : KlSurface
  table : Table Proxy Listener

inductive SurfaceInput where
  | attach (refs : CtxRefs) (o : AttachOutcomes)
  | detach
  | deliver (refs : CtxRefs) (p : Proxy) (e : ProxyEvent) (o : FrameOutcomes)

/-- The state after the calls `cs` left the surface `surf`. -/
def SurfaceState.moved (s : SurfaceState) (surf : KlSurface) (cs : List Call) : SurfaceState :=
  ⟨surf, run s.table (acts cs)⟩

/-- A move, refused if the outside returned a proxy that is not new. -/
def SurfaceState.move (s : SurfaceState) (pre : List Item) (r : KlSurface × List Call) :
    Option (SurfaceState × List Item) :=
  if Fresh s.table (acts r.2) then some (s.moved r.1 r.2, pre ++ calls r.2) else none

def SurfaceState.step (env : List Proxy) (s : SurfaceState) :
    SurfaceInput → Option (SurfaceState × List Item)
  | .attach refs o =>
    if refs.Within env then s.move [] (klSurfaceAttachLock refs s.surf o).2 else none
  | .detach => s.move [] (klSurfaceDetachLock s.surf)
  | .deliver refs p e o =>
    match s.table p with
    | .live (some d) =>
      if refs.Within env then
        match klSurfaceHandle refs s.surf p d e o with
        | some r => s.move [.event p d e] r
        | none => none
      else none
    | _ => none

def surfaceMachine (env : List Proxy) : Machine SurfaceState SurfaceInput Item where
  init s := ∃ output name o, (output :: env).Nodup ∧
    (klSurfaceCreate output name o).1 = some s.surf ∧
    s.table = run (born (output :: env)) (acts (klSurfaceCreate output name o).2)
  step := SurfaceState.step env

/-! ## The steps -/

/-- What holds between two steps of a run. -/
structure SurfaceOk (env : List Proxy) (s : SurfaceState) : Prop where
  wellFormed : s.surf.WellFormed
  inventory : ∃ lo le, Inventory s.table (s.surf.own lo le + bare env)

theorem SurfaceOk.triple {env : List Proxy} {s : SurfaceState} (h : SurfaceOk env s)
    {surf : KlSurface} {cs : List Call} (hwf : surf.WellFormed)
    (ht : ∀ lo le, ∃ le', Triple env (s.surf.own lo le) (acts cs) (surf.own lo le'))
    (hf : Fresh s.table (acts cs)) : SurfaceOk env (s.moved surf cs) := by
  obtain ⟨lo, le, hi⟩ := h.inventory
  obtain ⟨le', ht⟩ := ht lo le
  refine ⟨hwf, lo, le', (ht s.table (bare env) (fun b hb => ?_) hi hf).2⟩
  rw [fst_bare]
  exact hb

theorem SurfaceOk.handled {env : List Proxy} {s : SurfaceState} (h : SurfaceOk env s)
    {refs : CtxRefs} (hrefs : refs.Within env) {surf : KlSurface} {cs : List Call}
    (hh : Handled refs s.surf surf cs) (hf : Fresh s.table (acts cs)) :
    SurfaceOk env (s.moved surf cs) :=
  h.triple hh.wellFormed (fun lo le => ⟨le, hh.triple env lo le hrefs.2.1⟩) hf

/-- A live proxy that has a listener is one of the surface's. -/
theorem SurfaceOk.mem_own {env : List Proxy} {s : SurfaceState} (h : SurfaceOk env s)
    {p : Proxy} {d : Listener} (hp : s.table p = .live (some d)) :
    ∃ lo le, (p, some d) ∈ s.surf.own lo le := by
  obtain ⟨lo, le, hi⟩ := h.inventory
  refine ⟨lo, le, ?_⟩
  rcases Multiset.mem_add.mp ((hi.live_iff _ _).mp hp) with hm | hm
  · exact hm
  · cases (mem_bare.mp hm).2

/-- What a step does to the surface, the items before its calls, and its calls. -/
inductive SurfaceStep (env : List Proxy) (s : SurfaceState) :
    SurfaceInput → KlSurface → List Item → List Call → Prop
  | attach (refs : CtxRefs) (o : AttachOutcomes) (ok : Bool) (surf : KlSurface) (cs : List Call)
      (hrefs : refs.Within env) (h : AttachStep refs s.surf o ok surf cs) :
      SurfaceStep env s (.attach refs o) surf [] cs
  | detach (surf surf' : KlSurface) (cs : List Call) (h : Detached s.surf surf)
      (hbufs : DetachedBuffers { s.surf with frameCallback := none }
        (List.finRange klSurfaceBufferCount) surf' cs) :
      SurfaceStep env s .detach surf [] (detachCalls s.surf cs)
  | deliver (refs : CtxRefs) (p : Proxy) (d : Listener) (e : ProxyEvent) (o : FrameOutcomes)
      (surf : KlSurface) (cs : List Call) (hrefs : refs.Within env)
      (hp : s.table p = .live (some d)) (h : HandlerStep refs s.surf p d e o surf cs) :
      SurfaceStep env s (.deliver refs p e o) surf [.event p d e] cs

theorem SurfaceState.move_eq_some {s s' : SurfaceState} {pre out : List Item}
    {r : KlSurface × List Call} (h : s.move pre r = some (s', out)) :
    Fresh s.table (acts r.2) ∧ s' = s.moved r.1 r.2 ∧ out = pre ++ calls r.2 := by
  unfold SurfaceState.move at h
  split at h
  · rename_i hf
    obtain ⟨rfl, rfl⟩ := Prod.mk.inj (Option.some.inj h)
    exact ⟨hf, rfl, rfl⟩
  · cases h

/-- An event that is delivered runs the handler of a listener of the surface. -/
theorem surfaceMachine_deliver {env : List Proxy} {s s' : SurfaceState} {refs : CtxRefs}
    {p : Proxy} {e : ProxyEvent} {o : FrameOutcomes} {out : List Item} (hok : SurfaceOk env s)
    (h : (surfaceMachine env).step s (.deliver refs p e o) = some (s', out)) :
    ∃ d r, refs.Within env ∧ s.table p = .live (some d) ∧ HandlerEntry refs s.surf p d e o r ∧
      Fresh s.table (acts r.2) ∧ s' = s.moved r.1 r.2 ∧ out = [.event p d e] ++ calls r.2 := by
  simp only [surfaceMachine, SurfaceState.step] at h
  split at h
  · rename_i d hp
    split at h
    · rename_i hrefs
      split at h
      · rename_i r hr
        obtain ⟨lo, le, hm⟩ := hok.mem_own hp
        exact ⟨d, r, hrefs, hp, klSurfaceHandle_entry hok.wellFormed hm hr,
          SurfaceState.move_eq_some h⟩
      · cases h
    · cases h
  · cases h

/-- **What a step can do.** -/
theorem surfaceMachine_step {env : List Proxy} {s s' : SurfaceState} {i : SurfaceInput}
    {out : List Item} (hok : SurfaceOk env s)
    (h : (surfaceMachine env).step s i = some (s', out)) :
    ∃ surf pre cs, SurfaceStep env s i surf pre cs ∧ Fresh s.table (acts cs) ∧
      s' = s.moved surf cs ∧ out = pre ++ calls cs := by
  cases i with
  | attach refs o =>
    simp only [surfaceMachine, SurfaceState.step] at h
    split at h
    · rename_i hrefs
      exact ⟨_, _, _, .attach refs o _ _ _ hrefs
        (klSurfaceAttachLock_step refs hok.wellFormed o), SurfaceState.move_eq_some h⟩
    · cases h
  | detach =>
    obtain ⟨hd, surf', cs, hbufs, he⟩ := klSurfaceDetachLock_spec s.surf
    have hm := SurfaceState.move_eq_some h
    rw [he] at hm
    exact ⟨_, _, _, .detach _ surf' cs hd hbufs, hm⟩
  | deliver refs p e o =>
    obtain ⟨d, r, hrefs, hp, hentry, hm⟩ := surfaceMachine_deliver hok h
    exact ⟨_, _, _, .deliver refs p d e o _ _ hrefs hp (hentry.step hok.wellFormed), hm⟩

theorem SurfaceStep.ok {env : List Proxy} {s : SurfaceState} {i : SurfaceInput}
    {surf : KlSurface} {pre : List Item} {cs : List Call} (h : SurfaceStep env s i surf pre cs)
    (hok : SurfaceOk env s) (hf : Fresh s.table (acts cs)) : SurfaceOk env (s.moved surf cs) := by
  cases h with
  | attach refs o ok surf cs hrefs h =>
    exact hok.triple (h.wellFormed hok.wellFormed)
      (fun lo le => h.triple hok.wellFormed hrefs.2.2 hrefs.1 lo le) hf
  | detach surf surf' cs h hbufs =>
    refine hok.triple (h.wellFormed hok.wellFormed) (fun lo le => ⟨false, ?_⟩) hf
    rw [h.own]
    exact detachCalls_triple env hbufs lo le
  | deliver refs p d e o surf cs hrefs hp h =>
    exact hok.handled hrefs (h.handled hok.wellFormed) hf

theorem surfaceMachine_init {env : List Proxy} {s : SurfaceState}
    (h : (surfaceMachine env).init s) :
    SurfaceOk env s ∧ ∃ output name o, (klSurfaceCreate output name o).1 = some s.surf := by
  obtain ⟨output, name, o, hn, hs, ht⟩ := h
  refine ⟨?_, output, name, o, hs⟩
  rcases klSurfaceCreate_triple env output name o with ⟨surf, h1, hwf, -, -, -, htr⟩ | ⟨h1, -⟩
  · rw [h1] at hs
    cases hs
    refine ⟨hwf, o.addListener, false, ?_⟩
    have hborn : Inventory (born (output :: env) : Table Proxy Listener)
        ({(output, none)} + bare env) := by
      rw [← bare_cons]
      exact inventory_born hn
    have hf : Fresh (born (output :: env)) (acts (klSurfaceCreate output name o).2) :=
      klSurfaceCreate_fresh output name o _
    rw [ht]
    refine (htr false _ (bare env) (fun b hb => ?_) hborn hf).2
    rw [fst_bare]
    exact hb
  · rw [h1] at hs
    cases hs

theorem surfaceMachine_ok {env : List Proxy} {s : SurfaceState} {tr : List Item}
    (h : (surfaceMachine env).Reach s tr) : SurfaceOk env s := by
  refine h.invariant (I := fun s _ => SurfaceOk env s) (fun s hs => (surfaceMachine_init hs).1) ?_
  intro s tr i s' out hok _ hs
  obtain ⟨surf, pre, cs, hstep, hf, rfl, -⟩ := surfaceMachine_step hok hs
  exact hstep.ok hok hf

/-! ## Invariants -/

/-- What makes `I` an invariant: it holds at the start and is kept by an
attachment, a detachment, what a handler does before it draws, and a frame. -/
structure SurfaceInvariant (env : List Proxy) (I : SurfaceState → List Item → Prop) : Prop where
  init : ∀ {s}, (surfaceMachine env).init s → I s []
  attach : ∀ {s tr refs o ok surf cs}, SurfaceOk env s → Fresh s.table (acts cs) → I s tr →
    AttachStep refs s.surf o ok surf cs → I (s.moved surf cs) (tr ++ calls cs)
  detach : ∀ {s tr surf surf' cs}, SurfaceOk env s → I s tr → Detached s.surf surf →
    DetachedBuffers { s.surf with frameCallback := none } (List.finRange klSurfaceBufferCount)
      surf' cs →
    I (s.moved surf (detachCalls s.surf cs)) (tr ++ calls (detachCalls s.surf cs))
  prepared : ∀ {s tr p d e mid cs}, SurfaceOk env s → I s tr → Prepared s.surf p d e mid cs →
    I (s.moved mid cs) (tr ++ .event p d e :: calls cs)
  frame : ∀ {s tr refs o surf cs}, SurfaceOk env s → refs.Within env →
    Fresh s.table (acts cs) → I s tr → FrameStep refs s.surf o surf cs →
    I (s.moved surf cs) (tr ++ calls cs)

theorem SurfaceInvariant.reach {env : List Proxy} {I : SurfaceState → List Item → Prop}
    (hI : SurfaceInvariant env I) {s : SurfaceState} {tr : List Item}
    (h : (surfaceMachine env).Reach s tr) : I s tr := by
  refine h.invariant_of surfaceMachine_ok (fun s hs => hI.init hs) ?_
  intro s tr i s' out hok hinv _ hs
  obtain ⟨surf, pre, cs, hstep, hf, rfl, rfl⟩ := surfaceMachine_step hok hs
  cases hstep with
  | attach refs o ok surf cs hrefs h => exact hI.attach hok hf hinv h
  | detach surf surf' cs h hbufs => exact hI.detach hok hinv h hbufs
  | deliver refs p d e o surf cs hrefs hp h =>
    cases h with
    | rests mid pre hpre hrest => exact hI.prepared hok hinv hpre
    | draws mid surf pre cs hpre hframe =>
      rw [acts_append, fresh_append] at hf
      have hmid := hok.handled hrefs (hpre.handled refs hok.wellFormed) hf.1
      have h := hI.frame (s := s.moved mid pre) hmid hrefs hf.2 (hI.prepared hok hinv hpre) hframe
      simpa [SurfaceState.moved, run_append] using h

/-! ## A run to evaluate -/

/-- Compositor 1, shm 2 and lock 3; the output is proxy 0. -/
def sampleRefs : CtxRefs := ⟨some 1, some 2, some 3⟩

/-- A frame for which everything succeeds. -/
def sampleFrame (wlBuffer callback : Proxy) : FrameOutcomes where
  buffer := ⟨7680, some 5, true, true, some 1, some (wlBuffer + 100), some wlBuffer, 1, true, 2,
    true, true⟩
  clock := some ⟨1, 0⟩
  bake := ⟨3, true, 4, true, 5, true⟩
  frame := some callback
  addListener := true

def sampleStart : SurfaceState where
  surf := ((klSurfaceCreate 0 40 ⟨some 0, true, true⟩).1).get rfl
  table := run (born [0, 1, 2, 3]) (acts (klSurfaceCreate 0 40 ⟨some 0, true, true⟩).2)

/-- Attached, configured, resized while the frame was pending, and drawn again. -/
def sampleInputs : List SurfaceInput :=
  [.attach sampleRefs ⟨some 10, some 11, true⟩,
    .deliver sampleRefs 11 (.configure 7 1920 1080) (sampleFrame 12 13),
    .deliver sampleRefs 11 (.configure 8 1280 720) (sampleFrame 14 15),
    .deliver sampleRefs 12 .release (sampleFrame 16 17),
    .deliver sampleRefs 13 .done (sampleFrame 18 19)]

theorem sampleRun_isSome :
    ((surfaceMachine [1, 2, 3]).exec sampleStart sampleInputs).isSome = true := by
  decide

def sampleRun : SurfaceState × List Item :=
  ((surfaceMachine [1, 2, 3]).exec sampleStart sampleInputs).get sampleRun_isSome

theorem sampleStart_init : (surfaceMachine [1, 2, 3]).init sampleStart :=
  ⟨0, 40, ⟨some 0, true, true⟩, by decide, rfl, rfl⟩

theorem sampleRun_reach : (surfaceMachine [1, 2, 3]).Reach sampleRun.1 sampleRun.2 :=
  Machine.reach_exec sampleStart_init sampleRun_isSome

end Kirilock
