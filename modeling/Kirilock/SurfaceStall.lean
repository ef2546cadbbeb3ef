import Kirilock.SurfaceRun

/-!
No stall: a configured surface of non-zero size always has something to wake it.

While `kl_buffer_create`, `wl_surface_frame` and `wl_callback_add_listener`
succeed, after every event such a surface has a frame pending, or it is dirty and
all its buffers are busy (`KlSurface.Driven`).  In the first case its frame
callback is live with the surface as data, and its done event commits a frame
unless every buffer is busy; in the second each buffer's `wl_buffer` is live with
the release listener, and any release commits a frame (`Wakes`).
-/

namespace Kirilock

open Runs Ownership

/-- The creations that are assumed to succeed. -/
def Call.succeeds : Call → Bool
  | .klBufferCreate _ _ _ _ _ none => false
  | .wlSurfaceFrame _ none => false
  | .wlCallbackAddListener _ _ false => false
  | _ => true

def Succeeds (tr : List Item) : Prop := ∀ c, .call c ∈ tr → c.succeeds = true

theorem Succeeds.left {tr out : List Item} (h : Succeeds (tr ++ out)) : Succeeds tr :=
  fun c hc => h c (List.mem_append_left _ hc)

theorem Succeeds.of_calls {tr : List Item} {cs : List Call} (h : Succeeds (tr ++ calls cs)) :
    ∀ c ∈ cs, c.succeeds = true :=
  fun c hc => h c (List.mem_append_right _ (List.mem_map_of_mem hc))

def AllBusy (surf : KlSurface) : Prop := ∀ i, (surf.buffers i).busy = true

/-- A configured surface with a size has a frame pending, or waits for a buffer. -/
def KlSurface.Driven (surf : KlSurface) : Prop :=
  surf.configured = true → surf.width ≠ 0 → surf.height ≠ 0 →
    surf.framePending = true ∨ surf.dirty = true ∧ AllBusy surf

def Commits (cs : List Call) : Prop := ∃ ws, .wlSurfaceCommit ws ∈ cs

/-! ## One frame -/

/-- Where every creation succeeds, a frame that is not pending is committed, unless
the surface has no size or no free buffer. -/
theorem FrameStep.draws {refs : CtxRefs} {surf surf' : KlSurface} {o : FrameOutcomes}
    {cs : List Call} (h : FrameStep refs surf o surf' cs) (hwf : surf.WellFormed)
    (hs : ∀ c ∈ cs, c.succeeds = true) (hc : surf.configured = true)
    (hp : surf.framePending = false) (hw : surf.width ≠ 0) (hh : surf.height ≠ 0) :
    (Commits cs ∧ surf'.framePending = true) ∨
      (surf'.framePending = false ∧ surf'.dirty = true ∧ AllBusy surf ∧ AllBusy surf') := by
  cases h with
  | skipped hskip =>
    have hws : surf.wlSurface ≠ none := by
      rw [← Option.isSome_iff_ne_none, hwf.role]
      exact hwf.configured hc
    simp [hc, hp, hw, hh, hws] at hskip
  | noBuffer _ _ hbusy => exact Or.inr ⟨hp, rfl, hbusy, hbusy⟩
  | createFailed _ _ i hfree b hb c1 hc1 hfail =>
    cases hs _ (List.mem_append_right _ hfail)
  | committed _ _ ws hws _ _ i hfree b wb hb c1 c2 c3 hc1 hc2 hc3 engine t0 t1 el =>
    left
    have hmem : ∀ c ∈ frameCommit surf ws wb o, c.succeeds = true := fun c hc =>
      hs c (List.mem_append_right _ hc)
    refine ⟨⟨ws, List.mem_append_right _ (List.mem_append_right _ (List.mem_singleton_self _))⟩, ?_⟩
    cases hf : o.frame with
    | none =>
      have := hmem (.wlSurfaceFrame ws none) (by simp [frameCommit, hf])
      cases this
    | some cb =>
      cases hl : o.addListener with
      | false =>
        have := hmem (.wlCallbackAddListener cb surf.addr false)
          (by simp [frameCommit, frameListen, hf, hl])
        cases this
      | true => simp [KlSurface.committed, FrameOutcomes.callback, hf, hl]

theorem FrameStep.driven {refs : CtxRefs} {surf surf' : KlSurface} {o : FrameOutcomes}
    {cs : List Call} (h : FrameStep refs surf o surf' cs) (hwf : surf.WellFormed)
    (hs : ∀ c ∈ cs, c.succeeds = true) : surf'.Driven := by
  have hsame : surf'.configured = surf.configured ∧ surf'.width = surf.width ∧
      surf'.height = surf.height := by
    cases h <;> exact ⟨rfl, rfl, rfl⟩
  intro hc hw hh
  rw [hsame.1] at hc
  rw [hsame.2.1] at hw
  rw [hsame.2.2] at hh
  cases hp : surf.framePending with
  | true =>
    have hskip : surf' = surf := by
      cases h with
      | skipped => rfl
      | noBuffer _ hp' => simp [hp] at hp'
      | createFailed _ hp' => simp [hp] at hp'
      | committed _ hp' => simp [hp] at hp'
    rw [hskip]
    exact Or.inl hp
  | false =>
    rcases h.draws hwf hs hc hp hw hh with ⟨-, h⟩ | ⟨-, h1, -, h2⟩
    · exact Or.inl h
    · exact Or.inr ⟨h1, h2⟩

/-! ## One event -/

theorem Prepared.released_fields {surf mid : KlSurface} {p : Proxy} {d : Listener} {cs : List Call}
    (h : Prepared surf p d .release mid cs) :
    mid.configured = surf.configured ∧ mid.width = surf.width ∧ mid.height = surf.height ∧
      mid.framePending = surf.framePending ∧ mid.dirty = surf.dirty := by
  cases h
  exact ⟨rfl, rfl, rfl, rfl, rfl⟩

theorem HandlerStep.driven {refs : CtxRefs} {surf surf' : KlSurface} {p : Proxy} {d : Listener}
    {e : ProxyEvent} {o : FrameOutcomes} {cs : List Call}
    (h : HandlerStep refs surf p d e o surf' cs) (hwf : surf.WellFormed) (hd : surf.Driven)
    (hs : ∀ c ∈ cs, c.succeeds = true) : surf'.Driven := by
  cases h with
  | rests mid pre hpre hrest =>
    rcases hrest with ⟨rfl, -, -⟩ | ⟨-, h⟩ | ⟨rfl, hdirty⟩
    · exact hd
    · intro hc _ _
      rcases h with h | h
      · exact Or.inl h
      · rw [h] at hc
        cases hc
    · -- a release that finds nothing to draw: the frame is still pending
      obtain ⟨h1, h2, h3, h4, h5⟩ := hpre.released_fields
      intro hc hw hh
      rw [h1] at hc
      rw [h2] at hw
      rw [h3] at hh
      rcases hd hc hw hh with h | ⟨h, -⟩
      · exact Or.inl (h4.trans h)
      · rw [h5, h] at hdirty
        cases hdirty
  | draws mid surf' pre cs hpre hframe =>
    exact hframe.driven (hpre.handled refs hwf).wellFormed fun c hc =>
      hs c (List.mem_append_right _ hc)

/-! ## Every run -/

theorem driven_of_not_configured {surf : KlSurface} (h : surf.configured = false) :
    surf.Driven := by
  intro hc
  rw [h] at hc
  cases hc

theorem AttachStep.driven {refs : CtxRefs} {surf surf' : KlSurface} {o : AttachOutcomes}
    {ok : Bool} {cs : List Call} (h : AttachStep refs surf o ok surf' cs)
    (hd : surf.Driven) : surf'.Driven := by
  cases h with
  | refused | already | noSurface | noLockSurface => exact hd
  | attached => exact hd

theorem surface_driven {env : List Proxy} {s : SurfaceState} {tr : List Item}
    (h : (surfaceMachine env).Reach s tr) (hs : Succeeds tr) : s.surf.Driven := by
  refine h.invariant_of (I := fun s tr => Succeeds tr → s.surf.Driven) surfaceMachine_ok
    (fun s hi _ => ?_) ?_ hs
  · obtain ⟨-, output, name, o, hc⟩ := surfaceMachine_init hi
    exact driven_of_not_configured (klSurfaceCreate_fields hc).2.2.1
  · intro s tr i s' out hok ih _ hstep hs
    obtain ⟨surf, pre, cs, hmove, -, rfl, rfl⟩ := surfaceMachine_step hok hstep
    have hd := ih hs.left
    rw [← List.append_assoc] at hs
    cases hmove with
    | attach refs o ok surf cs hrefs ha => exact ha.driven hd
    | detach surf surf' cs hdet hbufs => exact driven_of_not_configured hdet.configured
    | deliver refs p d e o surf cs hrefs hp hh => exact hh.driven hok.wellFormed hd hs.of_calls

/-- What wakes a surface: an event on a live proxy whose handler draws. -/
inductive Wakes (env : List Proxy) (s : SurfaceState) : Prop
  /-- the done event of the pending frame commits, or all buffers are busy after it -/
  | frame (cb : Proxy) (hp : s.surf.framePending = true)
      (hcb : s.table cb = .live (some (.frame s.surf.addr)))
      (hdone : ∀ refs o s' out, (surfaceMachine env).step s (.deliver refs cb .done o) =
        some (s', out) → Succeeds out → (∃ ws, .call (.wlSurfaceCommit ws) ∈ out) ∨
          s'.surf.dirty = true ∧ AllBusy s'.surf)
  /-- the release of any buffer commits -/
  | release (hp : s.surf.framePending = false) (hd : s.surf.dirty = true) (hb : AllBusy s.surf)
      (hrelease : ∀ i, ∃ wb, s.table wb = .live (some (.buffer (s.surf.ref i))) ∧
        ∀ refs o s' out, (surfaceMachine env).step s (.deliver refs wb .release o) =
          some (s', out) → Succeeds out → ∃ ws, .call (.wlSurfaceCommit ws) ∈ out)

theorem commits_mem {cs : List Call} (h : Commits cs) (pre : List Item) (ds : List Call) :
    ∃ ws, .call (.wlSurfaceCommit ws) ∈ pre ++ calls (ds ++ cs) := by
  obtain ⟨ws, hm⟩ := h
  exact ⟨ws, List.mem_append_right _ (List.mem_map_of_mem (List.mem_append_right _ hm))⟩

/-- The done event of a pending frame. -/
theorem done_wakes {env : List Proxy} {s s' : SurfaceState} (hok : SurfaceOk env s)
    (hc : s.surf.configured = true) (hw : s.surf.width ≠ 0) (hh : s.surf.height ≠ 0) {cb : Proxy}
    {refs : CtxRefs} {o : FrameOutcomes} {out : List Item}
    (hstep : (surfaceMachine env).step s (.deliver refs cb .done o) = some (s', out))
    (hs : Succeeds out) : (∃ ws, .call (.wlSurfaceCommit ws) ∈ out) ∨
      s'.surf.dirty = true ∧ AllBusy s'.surf := by
  obtain ⟨surf, pre, cs, hmove, -, rfl, rfl⟩ := surfaceMachine_step hok hstep
  cases hmove with
  | deliver refs p d e o surf cs hrefs hp h =>
    cases h with
    | rests mid pre hpre hrest => simp at hrest
    | draws mid surf pre cs hpre hframe =>
      have hwf := (hpre.handled refs hok.wellFormed).wellFormed
      cases hpre with
      | done hcb =>
        rcases hframe.draws hwf (fun c hc => hs.of_calls c (List.mem_append_right _ hc)) hc rfl hw
          hh with ⟨h, -⟩ | ⟨-, h1, -, h2⟩
        · exact Or.inl (commits_mem h _ _)
        · exact Or.inr ⟨h1, h2⟩

/-- A release while the surface waits for a buffer. -/
theorem release_wakes {env : List Proxy} {s s' : SurfaceState} (hok : SurfaceOk env s)
    (hc : s.surf.configured = true) (hw : s.surf.width ≠ 0) (hh : s.surf.height ≠ 0)
    (hp : s.surf.framePending = false) (hd : s.surf.dirty = true) {wb : Proxy}
    {refs : CtxRefs} {o : FrameOutcomes} {out : List Item}
    (hstep : (surfaceMachine env).step s (.deliver refs wb .release o) = some (s', out))
    (hs : Succeeds out) : ∃ ws, .call (.wlSurfaceCommit ws) ∈ out := by
  obtain ⟨surf, pre, cs, hmove, -, rfl, rfl⟩ := surfaceMachine_step hok hstep
  cases hmove with
  | deliver refs p d e o surf cs hrefs hp' h =>
    cases h with
    | rests mid pre hpre hrest =>
      obtain ⟨h1, -, -, h4, h5⟩ := hpre.released_fields
      simp [h1, h4, h5, hc, hp, hd] at hrest
    | draws mid surf pre cs hpre hframe =>
      have hwf := (hpre.handled refs hok.wellFormed).wellFormed
      cases hpre with
      | release i hwb =>
        rcases hframe.draws hwf (fun c hc => hs.of_calls c (List.mem_append_right _ hc)) hc hp hw
          hh with ⟨h, -⟩ | ⟨-, -, h, -⟩
        · exact commits_mem h _ _
        · -- the buffer just released is not busy
          have hfree := h i
          rw [KlSurface.released, setBuffer_self, klBufferHandleRelease_fst] at hfree
          cases hfree

/-- **No stall.**  After every event of a run in which the creations succeed, a
configured surface of non-zero size has a frame pending, or is dirty with all its
buffers busy; and either way an event is outstanding that makes it draw. -/
theorem no_stall {env : List Proxy} {s : SurfaceState} {tr : List Item}
    (h : (surfaceMachine env).Reach s tr) (hs : Succeeds tr) (hc : s.surf.configured = true)
    (hw : s.surf.width ≠ 0) (hh : s.surf.height ≠ 0) :
    (s.surf.framePending = true ∨
      s.surf.dirty = true ∧ ∀ i, (s.surf.buffers i).busy = true) ∧ Wakes env s := by
  have hok := surfaceMachine_ok h
  have hdriven := surface_driven h hs hc hw hh
  refine ⟨hdriven, ?_⟩
  obtain ⟨lo, le, hi⟩ := hok.inventory
  cases hp : s.surf.framePending with
  | true =>
    have hsome : s.surf.frameCallback.isSome = true := hok.wellFormed.pending.symm.trans hp
    obtain ⟨cb, hcb⟩ := Option.isSome_iff_exists.mp hsome
    refine .frame cb hp ((hi.live_iff _ _).mpr (Multiset.mem_add.mpr (Or.inl ?_)))
      fun refs o s' out => done_wakes hok hc hw hh
    simp [KlSurface.own, hcb]
  | false =>
    obtain ⟨hd, hb⟩ : s.surf.dirty = true ∧ AllBusy s.surf := by simpa [hp] using hdriven
    refine .release hp hd hb fun i => ?_
    have hsome : (s.surf.buffers i).wlBuffer ≠ none := fun hn => by
      have := hok.wellFormed.idle i hn
      rw [hb i] at this
      cases this
    obtain ⟨wb, hwb⟩ := Option.ne_none_iff_exists'.mp hsome
    refine ⟨wb, (hi.live_iff _ _).mpr (Multiset.mem_add.mpr (Or.inl ?_)),
      fun refs o s' out => release_wakes hok hc hw hh hp hd⟩
    simp [KlSurface.own, buffersOwn_split s.surf i, KlBuffer.own, hwb]

def Item.succeeds : Item → Bool
  | .call c => c.succeeds
  | .event .. => true

/-- After the sample run a frame is pending. -/
theorem no_stall_sampleRun : (sampleRun.1.surf.framePending = true ∨
    sampleRun.1.surf.dirty = true ∧ ∀ i, (sampleRun.1.surf.buffers i).busy = true) ∧
      Wakes [1, 2, 3] sampleRun.1 :=
  have hs : sampleRun.2.all Item.succeeds = true := by decide
  no_stall sampleRun_reach (fun c hc => List.all_eq_true.mp hs _ hc) (by decide)
    (by decide) (by decide)

end Kirilock
