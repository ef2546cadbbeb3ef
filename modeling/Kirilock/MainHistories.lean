import Kirilock.MainMoves
import Kirilock.Parts

/-!
Every surface of the locker runs as it would alone.

A run of `main` is a run of the whole locker, and the machine of `SurfaceRun` is one
surface by itself.  The items of a run of `main` can be tagged so that, surface by surface,
what is tagged with its address is a run of its own machine that ends in the very surface
that the context has (`main_histories`).  So what holds in every run of a surface holds of
every surface in every run of the locker.

`Follows T lent surf h`: `surf` and its history `h` are such a run, and its table is that of
one part of the program (`Part`) that made `T`.
-/

namespace Kirilock

open Runs Ownership

/-! ## A proxy more -/

/-- The state of a surface that may also be handed `p`. -/
def SurfaceState.lend (s : SurfaceState) (p : Proxy) : SurfaceState :=
  { s with table := Function.update s.table p (.live none) }

theorem SurfaceState.moved_lend {s : SurfaceState} {surf : KlSurface} {cs : List Call} {p : Proxy}
    (hp : (s.moved surf cs).table p = .unborn) :
    (s.lend p).moved surf cs = (s.moved surf cs).lend p := by
  simp only [SurfaceState.moved, SurfaceState.lend, run_update hp]

theorem SurfaceState.move_lend {s s' : SurfaceState} {pre out : List Item}
    {r : KlSurface × List Call} {p : Proxy} (h : s.move pre r = some (s', out))
    (hp : s'.table p = .unborn) : (s.lend p).move pre r = some (s'.lend p, out) := by
  obtain ⟨hf, rfl, rfl⟩ := SurfaceState.move_eq_some h
  have hfresh : Fresh (s.lend p).table (acts r.2) := fresh_update hp _ hf
  rw [SurfaceState.move, if_pos hfresh, SurfaceState.moved_lend hp]

theorem surfaceMachine_unborn {env : List Proxy} {s s' : SurfaceState} {i : SurfaceInput}
    {out : List Item} (hok : SurfaceOk env s)
    (h : (surfaceMachine env).step s i = some (s', out)) {p : Proxy} (hp : s'.table p = .unborn) :
    s.table p = .unborn := by
  obtain ⟨surf, pre, cs, -, -, rfl, -⟩ := surfaceMachine_step hok h
  by_contra hb
  exact run_born (acts cs) hb hp

theorem within_cons {refs : CtxRefs} {env : List Proxy} (h : refs.Within env) (p : Proxy) :
    refs.Within (p :: env) :=
  h.mono fun _ hq => List.mem_cons_of_mem _ hq

theorem SurfaceState.step_deliver {env : List Proxy} {s : SurfaceState} {refs : CtxRefs}
    {p : Proxy} {d : Listener} {e : ProxyEvent} {o : FrameOutcomes} {r : KlSurface × List Call}
    (hp : s.table p = .live (some d)) (hrefs : refs.Within env)
    (hr : klSurfaceHandle refs s.surf p d e o = some r) :
    s.step env (.deliver refs p e o) = s.move [.event p d e] r := by
  simp only [SurfaceState.step, hp, if_pos hrefs, hr]

/-- A step that does not touch `p` can be taken where `p` is lent. -/
theorem surfaceMachine_lend {env : List Proxy} {s s' : SurfaceState} {i : SurfaceInput}
    {out : List Item} (hok : SurfaceOk env s)
    (h : (surfaceMachine env).step s i = some (s', out)) {p : Proxy} (hp : s'.table p = .unborn) :
    (surfaceMachine (p :: env)).step (s.lend p) i = some (s'.lend p, out) := by
  have hunborn := surfaceMachine_unborn hok h hp
  simp only [surfaceMachine] at h ⊢
  cases i with
  | attach refs o =>
    simp only [SurfaceState.step] at h ⊢
    split at h
    · rename_i hrefs
      rw [if_pos (within_cons hrefs p)]
      exact SurfaceState.move_lend h hp
    · cases h
  | detach => exact SurfaceState.move_lend h hp
  | deliver refs q e o =>
    simp only [SurfaceState.step] at h ⊢
    split at h
    · rename_i d hq
      split at h
      · rename_i hrefs
        have hne : q ≠ p := by
          rintro rfl
          rw [hunborn] at hq
          cases hq
        have hq' : (s.lend p).table q = .live (some d) := by
          simp only [SurfaceState.lend, Function.update_of_ne hne, hq]
        cases hr : klSurfaceHandle refs s.surf q d e o with
        | none => simp [hr] at h
        | some r =>
          simp only [hr] at h
          exact (SurfaceState.step_deliver (s := s.lend p) hq' (within_cons hrefs p) hr).trans
            (SurfaceState.move_lend h hp)
      · cases h
    · cases h

theorem surfaceMachine_init_lend {env : List Proxy} {s : SurfaceState}
    (h : (surfaceMachine env).init s) {p : Proxy} (hp : s.table p = .unborn) :
    (surfaceMachine (p :: env)).init (s.lend p) := by
  obtain ⟨output, name, o, hn, hs, ht⟩ := h
  have hborn : ∀ q ∈ output :: env, q ≠ p := by
    rintro q hq rfl
    rw [ht] at hp
    refine run_born (acts (klSurfaceCreate output name o).2) ?_ hp
    rw [born_eq, if_pos hq]
    exact nofun
  obtain ⟨hout, henv⟩ := List.nodup_cons.mp hn
  refine ⟨output, name, o, ?_, hs, ?_⟩
  · refine List.nodup_cons.mpr ⟨?_, List.nodup_cons.mpr ⟨fun hm => ?_, henv⟩⟩
    · refine fun hm => (List.mem_cons.mp hm).elim (fun he => ?_) hout
      exact hborn output List.mem_cons_self he
    · exact hborn p (List.mem_cons_of_mem _ hm) rfl
  · rw [ht] at hp
    have hmem : ∀ q, q ∈ output :: p :: env ↔ q = p ∨ q ∈ output :: env := by
      intro q
      simp only [List.mem_cons]
      tauto
    rw [born_update hmem, run_update hp]
    simp only [SurfaceState.lend, ht]

/-- **A run of a surface** is one, too, where it may be handed a proxy that it never saw. -/
theorem surfaceMachine_reach_lend {env : List Proxy} {s : SurfaceState} {h : List Item}
    (hr : (surfaceMachine env).Reach s h) {p : Proxy} (hp : s.table p = .unborn) :
    (surfaceMachine (p :: env)).Reach (s.lend p) h := by
  induction hr with
  | init hi => exact .init (surfaceMachine_init_lend hi hp)
  | step hr _ hs ih =>
    have hok := surfaceMachine_ok hr
    exact .step (ih (surfaceMachine_unborn hok hs hp)) trivial (surfaceMachine_lend hok hs hp)

/-! ## One function of a surface -/

/-- The listeners of the surface at `a`. -/
def Listener.Of (a : SurfaceRef) (d : Listener) : Prop := d.surface = some a

theorem surfaceMachine_addr {env : List Proxy} {s s' : SurfaceState} {i : SurfaceInput}
    {out : List Item} (hok : SurfaceOk env s)
    (h : (surfaceMachine env).step s i = some (s', out)) : s'.surf.addr = s.surf.addr := by
  obtain ⟨surf, pre, cs, hstep, -, rfl, -⟩ := surfaceMachine_step hok h
  show surf.addr = s.surf.addr
  cases hstep with
  | attach refs o ok surf cs hrefs ha => exact ha.addr
  | detach surf surf' cs hd hbufs => exact hd.addr
  | deliver refs p d e o surf cs hrefs hp hh => exact (hh.handled hok.wellFormed).addr

/-- A listener of a surface's table is one of its own. -/
theorem SurfaceOk.listener {env : List Proxy} {s : SurfaceState} (h : SurfaceOk env s)
    {p : Proxy} {d : Listener} (hp : s.table p = .live (some d)) : d.Of s.surf.addr := by
  obtain ⟨lo, le, hm⟩ := h.mem_own hp
  exact listener_surface_of_own hm

/-- A function of `surface.c` is a step of the surface that it runs on. -/
theorem SurfaceFn.step {refs : CtxRefs} {T : Table Proxy Listener} {s : SurfaceState}
    {surf' : KlSurface} {items : List Item} {env : List Proxy}
    (h : SurfaceFn refs T s.surf surf' items) (hrefs : refs.Within env)
    (hpart : Part (Listener.Of s.surf.addr) T s.table) (hf : Fresh T (itemActs items)) :
    ∃ i, (surfaceMachine env).step s i = some (⟨surf', run s.table (itemActs items)⟩, items) := by
  have hmove : ∀ {pre : List Item} {r : KlSurface × List Call}, Fresh T (acts r.2) →
      s.move pre r = some (s.moved r.1 r.2, pre ++ calls r.2) :=
    fun hf => if_pos (hpart.fresh hf)
  cases h with
  | attach o =>
    rw [itemActs_calls] at hf ⊢
    refine ⟨.attach refs o, ?_⟩
    show (if refs.Within env then _ else _) = _
    rw [if_pos hrefs]
    exact hmove hf
  | detach =>
    rw [itemActs_calls] at hf ⊢
    exact ⟨.detach, hmove hf⟩
  | handle p d e o r hp hr =>
    have hlive := hpart.listener p d hp (klSurfaceHandle_surface hr)
    have hfresh : Fresh T (acts r.2) := by
      rw [← itemActs_calls]
      exact hf.2
    refine ⟨.deliver refs p e o, ?_⟩
    rw [run_event]
    show s.step env (.deliver refs p e o) = _
    rw [SurfaceState.step_deliver hlive hrefs hr]
    exact hmove hfresh

/-! ## One surface of the whole -/

/-- `surf` is what a run of its own machine made of it, by the items `h` and with the proxies
`lent` to be handed, while the whole made the table `T`. -/
def Follows (T : Table Proxy Listener) (lent : List Proxy) (surf : KlSurface)
    (h : List Item) : Prop :=
  ∃ env s, (∀ p ∈ lent, p ∈ env) ∧ (surfaceMachine env).Reach s h ∧ s.surf = surf ∧
    Part (Listener.Of surf.addr) T s.table

section Follows

variable {T : Table Proxy Listener} {lent : List Proxy} {surf surf' : KlSurface}
  {h items : List Item}

/-- The surface runs one of its functions. -/
theorem Follows.fn (hfol : Follows T lent surf h) {refs : CtxRefs} (hrefs : refs.Within lent)
    (hfn : SurfaceFn refs T surf surf' items) (hf : Fresh T (itemActs items)) :
    surf'.addr = surf.addr ∧ Follows (run T (itemActs items)) lent surf' (h ++ items) ∧
      ∃ t, ∀ p d, run t (itemActs items) p = .live (some d) → d.Of surf.addr := by
  obtain ⟨env, s, henv, hr, rfl, hpart⟩ := hfol
  obtain ⟨i, hstep⟩ := hfn.step (hrefs.mono henv) hpart hf
  have haddr := surfaceMachine_addr (surfaceMachine_ok hr) hstep
  have hr' := hr.step trivial hstep
  have hown : ∀ p d, run s.table (itemActs items) p = .live (some d) → d.Of s.surf.addr := by
    intro p d hp
    rw [← haddr]
    exact (surfaceMachine_ok hr').listener hp
  refine ⟨haddr, ⟨env, _, henv, hr', rfl, ?_⟩, s.table, hown⟩
  show Part (Listener.Of surf'.addr) _ _
  rw [show surf'.addr = s.surf.addr from haddr]
  exact hpart.run _

/-- Another part of the program goes on. -/
theorem Follows.others (hfol : Follows T lent surf h) {as : List (Act Proxy Listener)}
    (t : Table Proxy Listener)
    (hl : ∀ p d, run t as p = .live (some d) → ¬d.Of surf.addr) :
    Follows (run T as) lent surf h := by
  obtain ⟨env, s, henv, hr, hs, hpart⟩ := hfol
  exact ⟨env, s, henv, hr, hs, hpart.others t hl⟩

/-- A proxy that the surface never saw joins those that it may be handed. -/
theorem Follows.lend (hfol : Follows T lent surf h) {as : List (Act Proxy Listener)} {p : Proxy}
    (hf : Fresh T as) (hp : .create p ∈ as) (t : Table Proxy Listener)
    (hl : ∀ p d, run t as p = .live (some d) → ¬d.Of surf.addr) :
    Follows (run T as) (p :: lent) surf h := by
  obtain ⟨env, s, henv, hr, rfl, hpart⟩ := hfol
  have hnew := unborn_of_create hf hp
  refine ⟨p :: env, s.lend p, ?_, surfaceMachine_reach_lend hr (hpart.unborn p hnew), rfl,
    (hpart.others t hl).lent (run_of_create hp) fun d hd => ?_⟩
  · intro q hq
    rcases List.mem_cons.mp hq with rfl | hq
    · exact List.mem_cons_self
    · exact List.mem_cons_of_mem _ (henv q hq)
  · rcases run_agree T t as p with he | he
    · rw [he, hnew] at hd
      cases hd
    · exact hl p d (he ▸ hd)

/-- A surface that was made just now. -/
theorem follows_created {output : Proxy} {name : UInt32} {o : CreateOutcomes}
    (hs : (klSurfaceCreate output name o).1 = some surf) (hout : T output ≠ .unborn)
    (hlent : output ∉ lent) (hborn : ∀ p ∈ lent, T p ≠ .unborn)
    (hl : ∀ p d, T p = .live (some d) → ¬d.Of surf.addr) :
    Follows (run T (acts (klSurfaceCreate output name o).2)) lent surf [] := by
  have hmem : ∀ p, p ∈ output :: lent.dedup ↔ p = output ∨ p ∈ lent := by simp
  refine ⟨lent.dedup, ⟨surf, _⟩, fun p hp => List.mem_dedup.mpr hp, .init ⟨output, name, o, ?_, hs,
    rfl⟩, rfl, (part_born (fun p hp => ?_) hl).run _⟩
  · exact List.nodup_cons.mpr ⟨fun hm => hlent (List.mem_dedup.mp hm), List.nodup_dedup _⟩
  · rcases (hmem p).mp hp with rfl | hp
    · exact hout
    · exact hborn p hp

end Follows

/-! ## The surfaces of a scene -/

/-- Calls that make a surface, and those that are left of it once it is detached. -/
def Call.ofOutput : Call → Bool
  | .callocSurface .. => true
  | .callocEngine .. => true
  | .wlOutputAddListener .. => true
  | .cairoPatternDestroy .. => true
  | .cairoSurfaceDestroy .. => true
  | .freeEngine => true
  | .wlOutputGetVersion .. => true
  | .wlOutputRelease .. => true
  | .wlOutputDestroy .. => true
  | .freeSurface .. => true
  | _ => false

/-- Items that are in no surface's history. -/
def Item.outside : Item → Bool
  | .event _ d _ => d.surface.isNone
  | .call c => c.ofMain || c.ofOutput

/-- Every surface of the scene is a run of its own, and so was every other one. -/
structure Histories (S : Scene) (tt : List Tagged) : Prop where
  lent : ∀ p ∈ S.lent, S.table p ≠ .unborn
  listeners : ∀ p d a, S.table p = .live (some d) → d.Of a → a ∈ S.taken
  taken : ∀ surf ∈ S.surfs, surf.addr ∈ S.taken
  nodup : (S.surfs.map KlSurface.addr).Nodup
  follows : ∀ surf ∈ S.surfs, Follows S.table S.lent surf (historyOf surf.addr tt)
  former : ∀ a ∈ S.taken, ∃ env s, (surfaceMachine env).Reach s (historyOf a tt) ∧ s.surf.addr = a
  silent : ∀ a, a ∉ S.taken → historyOf a tt = []
  outside : ∀ x, (none, x) ∈ tt → x.outside = true

theorem notMem_created (ret : Option Proxy) (p : Proxy) (d : Listener) :
    .listen p d ∉ created ret := by
  cases ret <;> simp [created]

theorem eq_of_mem_listened {p q : Proxy} {d d' : Listener} {ok : Bool}
    (h : .listen p d ∈ listened q d' ok) : d = d' := by
  cases ok <;> simp [listened] at h
  exact h.2

/-- The listener that a call registers. -/
def Call.listens : Call → Option Listener
  | .wlRegistryAddListener .. => some .registry
  | .extSessionLockV1AddListener .. => some .lock
  | .extSessionLockSurfaceV1AddListener _ surf _ => some (.lockSurface surf)
  | .wlOutputAddListener _ surf _ => some (.output surf)
  | .wlCallbackAddListener _ surf _ => some (.frame surf)
  | .wlBufferAddListener _ buf _ => some (.buffer buf)
  | _ => none

theorem Call.listens_of_mem {c : Call} {p : Proxy} {d : Listener} (h : .listen p d ∈ c.acts) :
    c.listens = some d := by
  cases c
  case wlSurfaceAttach surface buffer => cases buffer <;> simp [Call.acts] at h
  all_goals first
    | exact congrArg some (eq_of_mem_listened h).symm
    | (simp [Call.acts, notMem_created] at h)

theorem listens_of_mem {items : List Item} {p : Proxy} {d : Listener}
    (h : .listen p d ∈ itemActs items) : ∃ c, .call c ∈ items ∧ c.listens = some d := by
  obtain ⟨x, hx, hm⟩ := List.mem_flatMap.mp h
  cases x with
  | event q d' e => simp [Item.acts] at hm
  | call c => exact ⟨c, hx, Call.listens_of_mem hm⟩

theorem historyOf_untagged (a : SurfaceRef) (tt : List Tagged) (items : List Item) :
    historyOf a (tt ++ tagged none items) = historyOf a tt := by
  rw [historyOf_append, historyOf_tagged_of_ne (Option.some_ne_none a).symm, List.append_nil]

/-- No listener of a surface is registered, so every listener was there before. -/
theorem not_of_run {items : List Item} {a : SurfaceRef}
    (h : ∀ c, .call c ∈ items → ∀ d, c.listens = some d → ¬d.Of a) (p : Proxy) (d : Listener)
    (hr : run (fun _ => .unborn) (itemActs items) p = .live (some d)) : ¬d.Of a := by
  obtain ⟨c, hc, hd⟩ := listens_of_mem (listen_of_run hr)
  exact h c hc d hd

/-- What the table of the whole knows of a surface's listeners, after a step of the part that
has the table `t`. -/
theorem Histories.listeners_run {S : Scene} {tt : List Tagged} (h : Histories S tt)
    {as : List (Act Proxy Listener)} (t : Table Proxy Listener) {taken : List SurfaceRef}
    (hsub : ∀ a ∈ S.taken, a ∈ taken)
    (hl : ∀ p d a, run t as p = .live (some d) → d.Of a → a ∈ taken) (p : Proxy) (d : Listener)
    (a : SurfaceRef) (hp : run S.table as p = .live (some d)) (hd : d.Of a) : a ∈ taken := by
  rcases run_agree S.table t as p with he | he
  · exact hsub a (h.listeners p d a (he ▸ hp) hd)
  · exact hl p d a (he ▸ hp) hd

theorem Histories.lent_run {S : Scene} {tt : List Tagged} (h : Histories S tt)
    (as : List (Act Proxy Listener)) : ∀ p ∈ S.lent, run S.table as p ≠ .unborn :=
  fun p hp => run_born as (h.lent p hp)

/-- Items that are in no history, and after which the surfaces are those there were. -/
theorem Histories.untagged {S : Scene} {tt : List Tagged} (h : Histories S tt)
    {items : List Item} (hout : ∀ x ∈ items, x.outside = true)
    (hl : ∀ c, .call c ∈ items → ∀ d, c.listens = some d → ∀ a, ¬d.Of a) :
    Histories { S with table := run S.table (itemActs items) } (tt ++ tagged none items) := by
  have hnot : ∀ (a : SurfaceRef) p d,
      run (fun _ => .unborn) (itemActs items) p = .live (some d) → ¬d.Of a := fun a =>
    not_of_run fun c hc d hd => hl c hc d hd a
  refine ⟨h.lent_run _, ?_, h.taken, h.nodup, ?_, ?_, ?_, ?_⟩
  · exact h.listeners_run (fun _ => .unborn) (fun a ha => ha) fun p d a hp hd =>
      absurd hd (hnot a p d hp)
  · intro surf hs
    rw [historyOf_untagged]
    exact (h.follows surf hs).others (fun _ => .unborn) (hnot surf.addr)
  · intro a ha
    rw [historyOf_untagged]
    exact h.former a ha
  · intro a ha
    rw [historyOf_untagged]
    exact h.silent a ha
  · intro x hx
    rcases List.mem_append.mp hx with hx | hx
    · exact h.outside x hx
    · obtain ⟨y, hy, he⟩ := List.mem_map.mp hx
      cases he
      exact hout x hy

/-- A proxy that was created is lent to the surfaces. -/
theorem Histories.rest {S : Scene} {tt : List Tagged} (h : Histories S tt) {items : List Item}
    {x : Option Proxy} (hitems : ∀ x ∈ items, x.ofMain = true)
    (hx : ∀ p, x = some p → .create p ∈ itemActs items) (hf : Fresh S.table (itemActs items)) :
    Histories
      { S with table := run S.table (itemActs items), lent := x.toList ++ S.lent }
      (tt ++ tagged none items) := by
  have hl : ∀ c, .call c ∈ items → ∀ d, c.listens = some d → ∀ a, ¬d.Of a := by
    intro c hc d hd a
    have hmain : c.ofMain = true := hitems _ hc
    cases c <;> cases hd <;> first
      | exact absurd hmain Bool.false_ne_true
      | nofun
  have hout : ∀ x ∈ items, x.outside = true := by
    intro y hy
    have hmain := hitems y hy
    cases y with
    | event p d e => exact hmain
    | call c =>
      show (c.ofMain || c.ofOutput) = true
      rw [show c.ofMain = true from hmain]
      rfl
  have h' := h.untagged hout hl
  cases x with
  | none => exact h'
  | some p =>
    refine ⟨?_, h'.listeners, h'.taken, h'.nodup, ?_, h'.former, h'.silent, h'.outside⟩
    · intro q hq
      rcases List.mem_cons.mp hq with rfl | hq
      · exact run_of_create (hx _ rfl)
      · exact h'.lent q hq
    · intro surf hs
      have hfol := (h.follows surf hs).lend hf (hx p rfl) (fun _ => .unborn)
        (not_of_run fun c hc d hd => hl c hc d hd surf.addr)
      rw [historyOf_untagged]
      exact hfol

theorem CreateFailed.outside {cs : List Call} (h : CreateFailed cs) :
    ∀ x ∈ calls cs, x.outside = true := by
  cases h <;> simp [Item.outside, Call.ofOutput]

theorem Histories.createFailed {S : Scene} {tt : List Tagged} (h : Histories S tt)
    {cs : List Call} (hcs : CreateFailed cs) : Histories S (tt ++ tagged none (calls cs)) := by
  have h' := h.untagged hcs.outside fun c hc d hd => by
    cases hcs <;> simp at hc <;> rcases hc with rfl | rfl | rfl <;> cases hd
  rwa [itemActs_calls, hcs.acts] at h'

theorem Histories.created {S : Scene} {tt : List Tagged} (h : Histories S tt) {output : Proxy}
    {name : UInt32} {o : CreateOutcomes} {surf : KlSurface} {cs : List Call}
    (hs : klSurfaceCreate output name o = (some surf, cs)) (hout : S.table output = .live none)
    (hlent : output ∉ S.lent) (hnew : surf.addr ∉ S.taken) :
    Histories
      { S with
        table := run S.table (acts cs)
        taken := surf.addr :: S.taken
        surfs := surf :: S.surfs }
      (tt ++ tagged none (calls cs)) := by
  have hcs : (klSurfaceCreate output name o).2 = cs := by rw [hs]
  obtain ⟨ok, hcalls⟩ : ∃ ok, cs = [.callocSurface (some surf.addr), .callocEngine true,
      .wlOutputAddListener output surf.addr ok] := by
    rcases klSurfaceCreate_cases output name o with ⟨surf', hs', hc⟩ | ⟨hs', -⟩
    · rw [hs] at hs' hc
      cases hs'
      exact hc.calls
    · rw [hs] at hs'
      cases hs'
  have hlistens : ∀ p d, run (fun _ => .unborn) (acts cs) p = .live (some d) → d.Of surf.addr := by
    intro p d hp
    rw [← itemActs_calls] at hp
    obtain ⟨c, hc, hd⟩ := listens_of_mem (listen_of_run hp)
    rw [hcalls] at hc
    simp only [calls_cons, calls_nil, List.mem_cons, Item.call.injEq, List.not_mem_nil,
      or_false] at hc
    rcases hc with rfl | rfl | rfl <;> cases hd
    rfl
  have hfol : Follows (run S.table (acts cs)) S.lent surf [] := by
    rw [← hcs]
    refine follows_created (by rw [hs]) (by simp [hout]) hlent h.lent fun p d hp hd => ?_
    exact hnew (h.listeners p d _ hp hd)
  refine ⟨h.lent_run _, ?_, ?_, ?_, ?_, ?_, ?_, ?_⟩
  · refine h.listeners_run (fun _ => .unborn) (fun a ha => List.mem_cons_of_mem _ ha) ?_
    intro p d a hp hd
    have he := (hlistens p d hp).symm.trans hd
    cases he
    exact List.mem_cons_self
  · intro surf1 hs1
    rcases List.mem_cons.mp hs1 with rfl | hs1
    · exact List.mem_cons_self
    · exact List.mem_cons_of_mem _ (h.taken surf1 hs1)
  · refine List.nodup_cons.mpr ⟨fun hm => ?_, h.nodup⟩
    obtain ⟨surf1, hs1, he⟩ := List.mem_map.mp hm
    exact hnew (he ▸ h.taken surf1 hs1)
  · intro surf1 hs1
    rw [historyOf_untagged]
    rcases List.mem_cons.mp hs1 with rfl | hs1
    · rw [h.silent _ hnew]
      exact hfol
    · refine (h.follows surf1 hs1).others (fun _ => .unborn) fun p d hp hd => ?_
      have he := (hlistens p d hp).symm.trans hd
      exact hnew (Option.some.inj he ▸ h.taken surf1 hs1)
  · intro a ha
    rw [historyOf_untagged]
    rcases List.mem_cons.mp ha with rfl | ha
    · obtain ⟨env, s, -, hr, he, -⟩ := hfol
      rw [h.silent _ hnew]
      exact ⟨env, s, hr, he ▸ rfl⟩
    · exact h.former a ha
  · intro a ha
    rw [historyOf_untagged]
    exact h.silent a fun hm => ha (List.mem_cons_of_mem _ hm)
  · intro x hx
    rcases List.mem_append.mp hx with hx | hx
    · exact h.outside x hx
    · rw [hcalls] at hx
      simp only [tagged, calls_cons, calls_nil, List.map_cons, List.map_nil, List.mem_cons,
        Prod.mk.injEq, true_and, List.not_mem_nil, or_false] at hx
      rcases hx with rfl | rfl | rfl <;> rfl

/-- A surface runs one of its functions; the others are not touched. -/
theorem Histories.fn {S : Scene} {tt : List Tagged} (h : Histories S tt)
    {l1 l2 : List KlSurface} {surf surf' : KlSurface} {refs : CtxRefs} {items : List Item}
    (hS : S.surfs = l1 ++ surf :: l2) (hrefs : refs.Within S.lent)
    (hfn : SurfaceFn refs S.table surf surf' items) (hf : Fresh S.table (itemActs items)) :
    Histories
      { S with table := run S.table (itemActs items), surfs := l1 ++ surf' :: l2 }
      (tt ++ tagged (some surf.addr) items) := by
  have hmem : surf ∈ S.surfs := by simp [hS]
  have hnodup := h.nodup
  obtain ⟨haddr, hfol, t, hlistens⟩ := (h.follows surf hmem).fn hrefs hfn hf
  have hmap : (l1 ++ surf' :: l2).map KlSurface.addr = S.surfs.map KlSurface.addr := by
    simp [hS, haddr]
  have hother : ∀ surf1 ∈ l1 ++ surf' :: l2, surf1 = surf' ∨
      surf1 ∈ S.surfs ∧ surf1.addr ≠ surf.addr := by
    intro surf1 hs1
    rw [hS, List.map_append, List.map_cons, List.nodup_middle] at hnodup
    obtain ⟨hnot, -⟩ := List.nodup_cons.mp hnodup
    rcases List.mem_append.mp hs1 with hs1 | hs1
    · refine Or.inr ⟨by simp [hS, hs1], fun he => hnot ?_⟩
      exact List.mem_append_left _ (List.mem_map.mpr ⟨surf1, hs1, he⟩)
    · rcases List.mem_cons.mp hs1 with he | hs1
      · exact Or.inl he
      · refine Or.inr ⟨by simp [hS, hs1], fun he => hnot ?_⟩
        exact List.mem_append_right _ (List.mem_map.mpr ⟨surf1, hs1, he⟩)
  have hhist : ∀ a, a ≠ surf.addr →
      historyOf a (tt ++ tagged (some surf.addr) items) = historyOf a tt := by
    intro a ha
    rw [historyOf_append, historyOf_tagged_of_ne fun he => ha (Option.some.inj he).symm,
      List.append_nil]
  have hown : historyOf surf.addr (tt ++ tagged (some surf.addr) items) =
      historyOf surf.addr tt ++ items := by
    rw [historyOf_append, historyOf_tagged]
  refine ⟨h.lent_run _, ?_, ?_, ?_, ?_, ?_, ?_, ?_⟩
  · refine h.listeners_run t (fun a ha => ha) fun p d a hp hd => ?_
    have he := (hlistens p d hp).symm.trans hd
    exact Option.some.inj he ▸ h.taken surf hmem
  · intro surf1 hs1
    rcases hother surf1 hs1 with rfl | ⟨hs1, -⟩
    · exact haddr ▸ h.taken surf hmem
    · exact h.taken surf1 hs1
  · show ((l1 ++ surf' :: l2).map KlSurface.addr).Nodup
    rw [hmap]
    exact h.nodup
  · intro surf1 hs1
    rcases hother surf1 hs1 with rfl | ⟨hs1, hne⟩
    · rw [haddr, hown]
      exact hfol
    · rw [hhist _ hne]
      refine (h.follows surf1 hs1).others t fun p d hp hd => ?_
      exact hne (Option.some.inj (hd.symm.trans (hlistens p d hp)))
  · intro a ha
    by_cases he : a = surf.addr
    · subst he
      obtain ⟨env, s, -, hr, hs, -⟩ := hfol
      rw [hown]
      exact ⟨env, s, hr, by rw [hs, haddr]⟩
    · rw [hhist a he]
      exact h.former a ha
  · intro a ha
    rw [hhist a fun he => ha (he ▸ h.taken surf hmem)]
    exact h.silent a ha
  · intro x hx
    rcases List.mem_append.mp hx with hx | hx
    · exact h.outside x hx
    · obtain ⟨y, -, he⟩ := List.mem_map.mp hx
      cases he

/-- A surface leaves the list. -/
theorem Histories.forget {S : Scene} {tt : List Tagged} (h : Histories S tt)
    {surfs : List KlSurface} (hsub : surfs.Sublist S.surfs) :
    Histories { S with surfs := surfs } tt :=
  ⟨h.lent, h.listeners, fun surf hs => h.taken surf (hsub.subset hs),
    h.nodup.sublist (hsub.map _), fun surf hs => h.follows surf (hsub.subset hs), h.former,
    h.silent, h.outside⟩

theorem klSurfaceDestroyRest_calls (surf : KlSurface) (releasable : Bool) :
    ∀ c ∈ klSurfaceDestroyRest surf releasable, c.ofOutput = true ∧ c.listens = none := by
  intro c hc
  simp only [klSurfaceDestroyRest, klRenderEngineDestroy, klRenderCleanupBaked, wlOutputDrop,
    List.mem_append, List.mem_singleton, List.mem_flatMap] at hc
  rcases hc with hc | ⟨p, -, hc⟩ | rfl
  · split at hc
    · cases hc
    · simp only [List.mem_append, List.mem_map, List.mem_singleton] at hc
      rcases hc with (⟨q, -, rfl⟩ | ⟨q, -, rfl⟩) | rfl <;> exact ⟨rfl, rfl⟩
  · split at hc <;> simp at hc <;> rcases hc with rfl | rfl <;> exact ⟨rfl, rfl⟩
  · exact ⟨rfl, rfl⟩

/-- A surface is detached, leaves the list, and is freed. -/
theorem Histories.destroyed {S : Scene} {tt : List Tagged} (h : Histories S tt)
    {l1 l2 : List KlSurface} {surf : KlSurface} {releasable : Bool}
    (hS : S.surfs = l1 ++ surf :: l2)
    (hf : Fresh S.table (acts (klSurfaceDestroy surf releasable))) :
    Histories
      { S with
        table := run S.table (acts (klSurfaceDestroy surf releasable))
        surfs := l1 ++ l2 }
      (tt ++ (tagged (some surf.addr) (calls (klSurfaceDetachLock surf).2) ++
        tagged none (calls (klSurfaceDestroyRest (klSurfaceDetachLock surf).1 releasable)))) := by
  have hrest := klSurfaceDestroyRest_calls (klSurfaceDetachLock surf).1 releasable
  rw [klSurfaceDestroy_eq, acts_append] at hf ⊢
  rw [fresh_append] at hf
  have hdetached := h.fn hS (within_none S.lent) .detach (by rw [itemActs_calls]; exact hf.1)
  have hsub : (l1 ++ l2).Sublist (l1 ++ (klSurfaceDetachLock surf).1 :: l2) := by simp
  have hout : ∀ x ∈ calls (klSurfaceDestroyRest (klSurfaceDetachLock surf).1 releasable),
      x.outside = true := by
    intro x hx
    obtain ⟨c, hc, rfl⟩ := List.mem_map.mp hx
    show (c.ofMain || c.ofOutput) = true
    rw [(hrest c hc).1, Bool.or_true]
  have hfreed := (hdetached.forget hsub).untagged hout fun c hc d hd => by
    obtain ⟨c', hc', he⟩ := List.mem_map.mp hc
    cases he
    rw [(hrest c hc').2] at hd
    cases hd
  rw [run_append]
  rw [List.append_assoc] at hfreed
  simpa only [itemActs_calls] using hfreed

theorem Histories.move {S S' : Scene} {tt out : List Tagged} (h : Histories S tt)
    (hm : Move S out S') (hf : Fresh S.table (itemActs (itemsOf out))) :
    Histories S' (tt ++ out) := by
  cases hm with
  | rest items x hitems hx =>
    rw [itemsOf_tagged] at hf
    exact h.rest hitems hx hf
  | createFailed cs hcs => exact h.createFailed hcs
  | created output name o surf cs hs hout hlent hnew => exact h.created hs hout hlent hnew
  | fn l1 l2 surf surf' refs items hS hrefs hfn =>
    rw [itemsOf_tagged] at hf
    exact h.fn hS hrefs hfn hf
  | destroyed l1 l2 surf releasable hS =>
    rw [itemsOf_append, itemsOf_tagged, itemsOf_tagged, ← calls_append, ← klSurfaceDestroy_eq,
      itemActs_calls] at hf
    exact h.destroyed hS hf

theorem Histories.moves {I : Scene → List Tagged → Prop}
    (hmove : ∀ {S S' : Scene} {tt out : List Tagged}, Histories S tt → I S tt → Move S out S' →
      I S' (tt ++ out)) {S S' : Scene} {tt out : List Tagged} (h : Histories S tt) (hI : I S tt)
    (hm : Moves S out S') (hf : Fresh S.table (itemActs (itemsOf out))) :
    Histories S' (tt ++ out) ∧ I S' (tt ++ out) := by
  induction hm generalizing tt with
  | nil S =>
    rw [List.append_nil]
    exact ⟨h, hI⟩
  | cons hm _ ih =>
    rw [itemsOf_append, itemActs_append, fresh_append] at hf
    rw [← List.append_assoc]
    refine ih (h.move hm hf.1) (hmove h hI hm) ?_
    rw [hm.table]
    exact hf.2

/-! ## Runs of `main` -/

/-- **What every move keeps** holds in every run. -/
theorem main_moves {I : Scene → List Tagged → Prop} (hinit : ∀ S, S.surfs = [] → I S [])
    (hmove : ∀ {S S' : Scene} {tt out : List Tagged}, Histories S tt → I S tt → Move S out S' →
      I S' (tt ++ out)) {s : MainState} {tr : List Item} (h : mainMachine.Reach s tr) :
    ∃ tt S, itemsOf tt = tr ∧ Histories S tt ∧ I S tt ∧ S.Shows s.ctx ∧ S.table = s.table ∧
      ∀ a ∈ S.taken, a ∈ s.allocated := by
  induction h with
  | init hi =>
    obtain ⟨-, hctx, ht, -⟩ := hi
    refine ⟨[], ⟨fun _ => .unborn, [], [], []⟩, rfl, ?_, hinit _ rfl, ⟨?_, ?_⟩, ht.symm, by simp⟩
    · constructor <;> simp [historyOf]
    · rw [hctx]
      rfl
    · rw [hctx]
      exact within_none []
  | @step s s' tr out i hr _ hs ih =>
    obtain ⟨tt, S, hitems, hhist, hI, hshows, htable, htaken⟩ := ih
    have hok := mainMachine_ok hr
    have hok' := mainMachine_ok (hr.step trivial hs)
    obtain ⟨uu, S', hmoves⟩ := mainMachine_moves hok hs hshows htable hhist.lent htaken
    have hfresh := hok'.fresh
    rw [itemActs_append, fresh_append, ← hok.table, ← htable, ← hmoves.items] at hfresh
    obtain ⟨hhist', hI'⟩ := hhist.moves hmove hI hmoves.moves hfresh.2
    refine ⟨tt ++ uu, S', ?_, hhist', hI', hmoves.shows, ?_, hmoves.taken⟩
    · rw [itemsOf_append, hitems, hmoves.items]
    · rw [hmoves.moves.table, htable, hmoves.items, hok'.table, itemActs_append, run_append,
        ← hok.table]

/-- The scene of a run of `main`. -/
theorem main_scene {s : MainState} {tr : List Item} (h : mainMachine.Reach s tr) :
    ∃ tt S, itemsOf tt = tr ∧ Histories S tt ∧ S.Shows s.ctx ∧ S.table = s.table := by
  obtain ⟨tt, S, hitems, hhist, -, hshows, htable, -⟩ := main_moves (I := fun _ _ => True)
    (fun _ _ => trivial) (fun _ _ _ => trivial) h
  exact ⟨tt, S, hitems, hhist, hshows, htable⟩

/-- **The surfaces of the locker run as they would alone.**  The items of a run of `main` can be
tagged with surfaces so that the history of every one there ever was is a run of its own
machine; for those of the context, a run that ends in the very surface that the context has.
What is in no history are calls of `main` and those that make or free a surface. -/
theorem main_histories {s : MainState} {tr : List Item} (h : mainMachine.Reach s tr) :
    ∃ tt, itemsOf tt = tr ∧ (∀ x, (none, x) ∈ tt → x.outside = true) ∧
      (∀ a, historyOf a tt ≠ [] →
        ∃ env st, (surfaceMachine env).Reach st (historyOf a tt) ∧ st.surf.addr = a) ∧
      ∀ surf ∈ s.ctx.surfaces, ∃ env t, s.ctx.refs.Within env ∧
        (surfaceMachine env).Reach ⟨surf, t⟩ (historyOf surf.addr tt) := by
  obtain ⟨tt, S, hitems, hhist, hshows, -⟩ := main_scene h
  refine ⟨tt, hitems, hhist.outside, fun a ha => ?_, fun surf hs => ?_⟩
  · by_contra hn
    exact ha (hhist.silent a fun hm => hn (hhist.former a hm))
  · rw [← hshows.surfs] at hs
    obtain ⟨env, st, henv, hr, rfl, -⟩ := hhist.follows surf hs
    exact ⟨env, st.table, hshows.lent.mono henv, hr⟩

/-- The ended run, where one surface was unplugged and the other freed at the end. -/
theorem main_histories_endedRun :
    endedRun.1.pc = .exited 0 ∧
      ∃ tt, itemsOf tt = endedRun.2 ∧ (∀ x, (none, x) ∈ tt → x.outside = true) ∧
        (∀ a, historyOf a tt ≠ [] →
          ∃ env st, (surfaceMachine env).Reach st (historyOf a tt) ∧ st.surf.addr = a) ∧
        ∀ surf ∈ endedRun.1.ctx.surfaces, ∃ env t, endedRun.1.ctx.refs.Within env ∧
          (surfaceMachine env).Reach ⟨surf, t⟩ (historyOf surf.addr tt) :=
  ⟨rfl, main_histories endedRun_reach⟩

end Kirilock
