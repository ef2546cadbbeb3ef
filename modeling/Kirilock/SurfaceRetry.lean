import Kirilock.BufferSize
import Kirilock.SurfaceRun

/-!
A redraw that could not be done, and whether it is tried again.

A surface without a pending frame is redrawn by the next release of a buffer, if it is
dirty.  `kl_surface_render_frame` makes it dirty where no buffer is free; where a creation
fails it leaves `dirty` as it finds it.  That is `true` for every caller except the done
event of a frame (`RedrawsKept`).

* `klSurfaceRenderFrame_kept_iff`: one call, past its checks.
* `redraw_kept`: every run; `KlSurface.Kept` is the invariant.
-/

namespace Kirilock

open Runs Ownership

/-! ## One frame -/

/-- The free buffer has the wanted size and scale, or its creation succeeds. -/
def KlSurface.BufferMade (refs : CtxRefs) (surf : KlSurface) (i : Slot) (o : FrameOutcomes) :
    Prop :=
  ((surf.buffers i).width = surf.width ∧ (surf.buffers i).height = surf.height ∧
    (surf.buffers i).scale = surf.scale ∧ (surf.buffers i).wlBuffer ≠ none) ∨
  Accepted refs.shm surf.width surf.height surf.scale o.buffer.stride ∧
    physical surf.height surf.scale ≠ 0 ∧ o.buffer.Succeed

/-- Nothing fails once a buffer is free. -/
def KlSurface.Drawn (refs : CtxRefs) (surf : KlSurface) (i : Slot) (o : FrameOutcomes) : Prop :=
  surf.BufferMade refs i o ∧ o.frame.isSome = true ∧ o.addListener = true

/-- The surface is dirty already, no buffer is free, or nothing fails. -/
def KlSurface.RedrawKept (refs : CtxRefs) (surf : KlSurface) (o : FrameOutcomes) : Prop :=
  surf.dirty = true ∨ ∀ i, (klSurfaceGetFreeBuffer surf).2 = some i → surf.Drawn refs i o

instance (refs : CtxRefs) (surf : KlSurface) (i : Slot) (o : FrameOutcomes) :
    Decidable (surf.BufferMade refs i o) :=
  inferInstanceAs (Decidable (_ ∨ _))

instance (refs : CtxRefs) (surf : KlSurface) (i : Slot) (o : FrameOutcomes) :
    Decidable (surf.Drawn refs i o) :=
  inferInstanceAs (Decidable (_ ∧ _))

instance (refs : CtxRefs) (surf : KlSurface) (o : FrameOutcomes) :
    Decidable (surf.RedrawKept refs o) :=
  inferInstanceAs (Decidable (_ ∨ _))

theorem klSurfaceRenderFrameBuffer_true_iff (refs : CtxRefs) (surf : KlSurface) (i : Slot)
    (o : FrameOutcomes) :
    (klSurfaceRenderFrameBuffer refs surf i o).1 = true ↔ surf.BufferMade refs i o := by
  unfold klSurfaceRenderFrameBuffer KlSurface.BufferMade
  dsimp only
  split
  · rename_i hsize
    rw [klBufferCreate_true_iff]
    refine ⟨Or.inr, ?_⟩
    rintro (⟨hw, hh, hs, hwb⟩ | h)
    · rcases hsize with h | h | h | h
      · exact absurd hw h
      · exact absurd hh h
      · exact absurd hs h
      · exact absurd h hwb
    · exact h
  · rename_i hsize
    push Not at hsize
    exact iff_of_true rfl (Or.inl hsize)

/-- A replaced buffer changes nothing else. -/
theorem klSurfaceRenderFrameBuffer_fields (refs : CtxRefs) (surf : KlSurface) (i : Slot)
    (o : FrameOutcomes) :
    (klSurfaceRenderFrameBuffer refs surf i o).2.1.framePending = surf.framePending ∧
      (klSurfaceRenderFrameBuffer refs surf i o).2.1.dirty = surf.dirty := by
  unfold klSurfaceRenderFrameBuffer
  dsimp only
  split <;> exact ⟨rfl, rfl⟩

theorem klSurfaceRenderFrameCommit_fields (surf : KlSurface) (ws : Proxy) (i : Slot)
    (o : FrameOutcomes) :
    (o.frame.isSome = true ∧ o.addListener = true →
      (klSurfaceRenderFrameCommit surf ws i o).1.framePending = true) ∧
    (¬(o.frame.isSome = true ∧ o.addListener = true) →
      (klSurfaceRenderFrameCommit surf ws i o).1.framePending = false ∧
        (klSurfaceRenderFrameCommit surf ws i o).1.dirty = surf.dirty) := by
  unfold klSurfaceRenderFrameCommit
  cases o.frame with
  | none => simp
  | some cb => cases o.addListener <;> simp

/-- What a call that gets past its checks leaves in the two flags. -/
theorem klSurfaceRenderFrame_flags (refs : CtxRefs) {surf : KlSurface} (h : surf.Entered)
    (o : FrameOutcomes) :
    ((klSurfaceGetFreeBuffer surf).2 = none → (klSurfaceRenderFrame refs surf o).1.dirty = true) ∧
    ∀ i, (klSurfaceGetFreeBuffer surf).2 = some i →
      (surf.Drawn refs i o → (klSurfaceRenderFrame refs surf o).1.framePending = true) ∧
      (¬surf.Drawn refs i o → (klSurfaceRenderFrame refs surf o).1.framePending = false ∧
        (klSurfaceRenderFrame refs surf o).1.dirty = surf.dirty) := by
  have hcase := klSurfaceRenderFrame_case refs surf o
  generalize (klSurfaceRenderFrame refs surf o).1 = surf' at hcase ⊢
  generalize (klSurfaceRenderFrame refs surf o).2 = cs at hcase
  cases hcase with
  | skipped hno => exact absurd h hno
  | noBuffer _ hi => exact ⟨fun _ => rfl, fun i hi' => absurd (hi.symm.trans hi') nofun⟩
  | createFailed _ i hi hfree buf hbuf hr =>
    refine ⟨fun hn => absurd (hi.symm.trans hn) nofun, fun j hj => ?_⟩
    obtain rfl : i = j := Option.some.inj (hi.symm.trans hj)
    have hmade := klSurfaceRenderFrameBuffer_true_iff refs (surf.setCurrent i) i o
    obtain ⟨hp, hd⟩ := klSurfaceRenderFrameBuffer_fields refs (surf.setCurrent i) i o
    rw [hbuf] at hmade hp hd
    refine ⟨fun hdrawn => ?_, fun _ => ⟨hp.trans h.pending, hd⟩⟩
    rw [hmade.mpr hdrawn.1] at hr
    cases hr
  | drawn _ ws hws i hi hfree buf hbuf hr draw hdraw =>
    refine ⟨fun hn => absurd (hi.symm.trans hn) nofun, fun j hj => ?_⟩
    obtain rfl : i = j := Option.some.inj (hi.symm.trans hj)
    have hmade := klSurfaceRenderFrameBuffer_true_iff refs (surf.setCurrent i) i o
    obtain ⟨-, hd⟩ := klSurfaceRenderFrameBuffer_fields refs (surf.setCurrent i) i o
    rw [hbuf] at hmade hd
    obtain ⟨hlistened, hfailed⟩ := klSurfaceRenderFrameCommit_fields draw.1 ws i o
    refine ⟨fun hdrawn => hlistened hdrawn.2, fun hdrawn => ?_⟩
    obtain ⟨hp', hd'⟩ := hfailed fun hl => hdrawn ⟨hmade.mp hr, hl⟩
    refine ⟨hp', hd'.trans ?_⟩
    rw [← hdraw]
    exact hd

/-- **One call.**  Past its checks, a call that leaves no frame pending leaves the surface
dirty, if and only if it was dirty, no buffer was free, or nothing failed. -/
theorem klSurfaceRenderFrame_kept_iff (refs : CtxRefs) {surf : KlSurface} (h : surf.Entered)
    (o : FrameOutcomes) :
    ((klSurfaceRenderFrame refs surf o).1.framePending = false →
      (klSurfaceRenderFrame refs surf o).1.dirty = true) ↔ surf.RedrawKept refs o := by
  obtain ⟨hnone, hsome⟩ := klSurfaceRenderFrame_flags refs h o
  unfold KlSurface.RedrawKept
  cases hi : (klSurfaceGetFreeBuffer surf).2 with
  | none => exact iff_of_true (fun _ => hnone hi) (Or.inr nofun)
  | some i =>
    obtain ⟨hdrawn, hfailed⟩ := hsome i hi
    by_cases hd : surf.Drawn refs i o
    · refine iff_of_true (fun hp => ?_) (Or.inr fun j hj => by cases hj; exact hd)
      rw [hdrawn hd] at hp
      cases hp
    · obtain ⟨hp, hdirty⟩ := hfailed hd
      rw [hp, hdirty]
      constructor
      · exact fun h => Or.inl (h rfl)
      · rintro (h | h)
        · exact fun _ => h
        · exact absurd (h i rfl) hd

/-! ## Every run -/

/-- A redraw that is wanted is marked, or follows the frame that is pending. -/
def KlSurface.Kept (surf : KlSurface) : Prop :=
  surf.dirty = true ∨
    surf.framePending = true ∧ surf.configured = true ∧ surf.width ≠ 0 ∧ surf.height ≠ 0

theorem KlSurface.Kept.dirty {surf : KlSurface} (h : surf.Kept) (hp : surf.framePending = false) :
    surf.dirty = true := by
  rcases h with h | ⟨h, -⟩
  · exact h
  · rw [hp] at h
    cases h

/-- The surface when the done event of its frame callback draws. -/
def KlSurface.done (surf : KlSurface) : KlSurface :=
  { surf with frameCallback := none, framePending := false }

/-- The condition on a step: a done event that draws finds the surface dirty, or no free
buffer, or nothing fails. -/
def RedrawsKept (s : SurfaceState) : SurfaceInput → Prop
  | .deliver refs _ e o => e = .done → s.surf.done.Entered → s.surf.done.RedrawKept refs o
  | _ => True

instance (s : SurfaceState) (i : SurfaceInput) : Decidable (RedrawsKept s i) :=
  match i with
  | .deliver _ _ _ _ => inferInstanceAs (Decidable (_ → _))
  | .attach _ _ | .detach => .isTrue trivial

/-- A frame keeps what is kept: it draws nothing while one is pending. -/
theorem FrameStep.kept {refs : CtxRefs} {surf surf' : KlSurface} {o : FrameOutcomes}
    {cs : List Call} (h : FrameStep refs surf o surf' cs) (hk : surf.Kept) : surf'.Kept := by
  cases h with
  | skipped => exact hk
  | noBuffer => exact Or.inl rfl
  | createFailed _ hp => exact Or.inl (hk.dirty hp)
  | committed hc hp ws hws hw hh i hfree b wb hb c1 c2 c3 hc1 hc2 hc3 engine t0 t1 el =>
    cases hcb : o.callback with
    | none => exact Or.inl (hk.dirty hp)
    | some cb => exact Or.inr ⟨rfl, hc, hw, hh⟩

theorem FrameStep.fields {refs : CtxRefs} {surf surf' : KlSurface} {o : FrameOutcomes}
    {cs : List Call} (h : FrameStep refs surf o surf' cs) :
    surf'.configured = surf.configured ∧ surf'.width = surf.width ∧
      surf'.height = surf.height := by
  cases h <;> exact ⟨rfl, rfl, rfl⟩

/-- The done event runs `kl_surface_render_frame`. -/
theorem surfaceMachine_done {env : List Proxy} {s s' : SurfaceState} {refs : CtxRefs} {p : Proxy}
    {o : FrameOutcomes} {out : List Item} (hok : SurfaceOk env s)
    (h : (surfaceMachine env).step s (.deliver refs p .done o) = some (s', out)) :
    s'.surf = (klSurfaceRenderFrame refs s.surf.done o).1 := by
  obtain ⟨d, r, -, -, hentry, -, rfl, -⟩ := surfaceMachine_deliver hok h
  cases hentry with
  | rests mid pre hpre hentry => cases hentry
  | draws mid pre hpre hentry =>
    cases hentry
    rfl

/-- A frame of a surface that is `Kept`, entered by the done event. -/
theorem KlSurface.Kept.done {surf : KlSurface} (hk : surf.Kept) (hwf : surf.WellFormed)
    (refs : CtxRefs) (o : FrameOutcomes) :
    ((surf.done.Entered → surf.done.RedrawKept refs o) ∧
        (klSurfaceRenderFrame refs surf.done o).1.Kept) ∨
      (¬(surf.done.Entered → surf.done.RedrawKept refs o) ∧
        (klSurfaceRenderFrame refs surf.done o).1.framePending = false ∧
        (klSurfaceRenderFrame refs surf.done o).1.dirty = false) := by
  have hdone : surf.done.WellFormed := ⟨rfl, hwf.configured, hwf.role, hwf.callback, hwf.idle,
    hwf.current, hwf.output⟩
  have hstep := klSurfaceRenderFrame_step refs hdone o
  by_cases hd : surf.dirty = true
  · exact Or.inl ⟨fun _ => Or.inl hd, hstep.kept (Or.inl hd)⟩
  · obtain ⟨-, hc, hw, hh⟩ := hk.resolve_left hd
    have hentered : surf.done.Entered := ⟨hc, rfl, hwf.role.trans (hwf.configured hc), hw, hh⟩
    obtain ⟨hnone, hsome⟩ := klSurfaceRenderFrame_flags refs hentered o
    cases hi : (klSurfaceGetFreeBuffer surf.done).2 with
    | none =>
      refine Or.inl ⟨fun _ => Or.inr fun i h => ?_, Or.inl (hnone hi)⟩
      rw [hi] at h
      cases h
    | some i =>
      obtain ⟨hdrawn, hfailed⟩ := hsome i hi
      by_cases hr : surf.done.Drawn refs i o
      · obtain ⟨h1, h2, h3⟩ := hstep.fields
        refine Or.inl ⟨fun _ => Or.inr fun j h => ?_, Or.inr ⟨hdrawn hr, h1.trans hc, ?_, ?_⟩⟩
        · rw [hi] at h
          cases h
          exact hr
        · rw [h2]
          exact hw
        · rw [h3]
          exact hh
      · obtain ⟨hp, hdirty⟩ := hfailed hr
        refine Or.inr ⟨fun h => ?_, hp, ?_⟩
        · rcases h hentered with h | h
          · exact hd h
          · exact hr (h i hi)
        · rw [hdirty]
          exact Bool.eq_false_of_not_eq_true hd

theorem Prepared.kept {surf mid : KlSurface} {p : Proxy} {d : Listener} {e : ProxyEvent}
    {cs : List Call} (h : Prepared surf p d e mid cs) (he : e ≠ .done) (hk : surf.Kept) :
    mid.Kept := by
  cases h with
  | other | sameScale => exact hk
  | scale | configure => exact Or.inl rfl
  | done => exact absurd rfl he
  | release => exact hk

theorem HandlerStep.kept {refs : CtxRefs} {surf surf' : KlSurface} {p : Proxy} {d : Listener}
    {e : ProxyEvent} {o : FrameOutcomes} {cs : List Call}
    (h : HandlerStep refs surf p d e o surf' cs) (he : e ≠ .done) (hk : surf.Kept) :
    surf'.Kept := by
  cases h with
  | rests mid pre hpre => exact hpre.kept he hk
  | draws mid surf' pre cs hpre hframe => exact hframe.kept (hpre.kept he hk)

theorem klSurfaceCreate_dirty {output : Proxy} {name : UInt32} {o : CreateOutcomes}
    {surf : KlSurface} (h : (klSurfaceCreate output name o).1 = some surf) :
    surf.dirty = true := by
  unfold klSurfaceCreate at h
  split at h
  · cases h
  · dsimp only at h
    split at h
    · cases h
    · cases h
      rfl

/-- What a step does to a surface that is `Kept`: it stays so, or the step breaks the
condition and the redraw is lost. -/
theorem RedrawsKept.step {env : List Proxy} {s s' : SurfaceState} {i : SurfaceInput}
    {out : List Item} (hok : SurfaceOk env s) (hk : s.surf.Kept)
    (h : (surfaceMachine env).step s i = some (s', out)) :
    (RedrawsKept s i ∧ s'.surf.Kept) ∨
      (¬RedrawsKept s i ∧ s'.surf.framePending = false ∧ s'.surf.dirty = false) := by
  cases i with
  | attach refs o =>
    obtain ⟨surf, pre, cs, hmove, -, rfl, -⟩ := surfaceMachine_step hok h
    refine Or.inl ⟨trivial, ?_⟩
    cases hmove with
    | attach refs o ok surf cs hrefs ha => cases ha <;> exact hk
  | detach =>
    refine Or.inl ⟨trivial, Or.inl ?_⟩
    rw [(SurfaceState.move_eq_some h).2.1]
    rfl
  | deliver refs p e o =>
    by_cases he : e = .done
    · subst he
      rw [surfaceMachine_done hok h]
      rcases hk.done hok.wellFormed refs o with ⟨hcond, hkept⟩ | ⟨hcond, hlost⟩
      · exact Or.inl ⟨fun _ => hcond, hkept⟩
      · exact Or.inr ⟨fun hc => hcond (hc rfl), hlost⟩
    · refine Or.inl ⟨fun hd => absurd hd he, ?_⟩
      obtain ⟨surf, pre, cs, hmove, -, rfl, -⟩ := surfaceMachine_step hok h
      cases hmove with
      | deliver refs p d e o surf cs hrefs hp hh => exact hh.kept he hk

/-- **No redraw is lost**, as long as the steps meet the condition: after every event of
such a run a surface without a pending frame is dirty, and it stays so in the next step if
and only if that step meets the condition too. -/
theorem redraw_kept {env : List Proxy} {s : SurfaceState} {tr : List Item}
    (h : (surfaceMachine env).ReachIf (fun s _ i => RedrawsKept s i) s tr) :
    (s.surf.framePending = false → s.surf.dirty = true) ∧
      ∀ i s' out, (surfaceMachine env).step s i = some (s', out) →
        ((s'.surf.framePending = false → s'.surf.dirty = true) ↔ RedrawsKept s i) := by
  have hkept : s.surf.Kept := by
    refine h.invariant_of (I := fun s _ => s.surf.Kept) (fun h => surfaceMachine_ok h.reach)
      (fun s hi => ?_) ?_
    · obtain ⟨-, output, name, o, hc⟩ := surfaceMachine_init hi
      exact Or.inl (klSurfaceCreate_dirty hc)
    · intro s tr i s' out hok hk hcond hs
      rcases RedrawsKept.step hok hk hs with ⟨-, h⟩ | ⟨h, -⟩
      · exact h
      · exact absurd hcond h
  refine ⟨hkept.dirty, fun i s' out hs => ?_⟩
  rcases RedrawsKept.step (surfaceMachine_ok h.reach) hkept hs with ⟨hcond, hk⟩ | ⟨hcond, hp, hd⟩
  · exact iff_of_true hk.dirty hcond
  · refine iff_of_false (fun hl => ?_) hcond
    rw [hd] at hl
    exact absurd (hl hp) nofun

theorem redraw_kept_sampleRun :
    (sampleRun.1.surf.framePending = false → sampleRun.1.surf.dirty = true) ∧
      ∀ i s' out, (surfaceMachine [1, 2, 3]).step sampleRun.1 i = some (s', out) →
        ((s'.surf.framePending = false → s'.surf.dirty = true) ↔ RedrawsKept sampleRun.1 i) :=
  redraw_kept (Machine.reachIf_exec sampleStart_init (by decide) sampleRun_isSome)

/-- The first frame is done, and there is no file for the second buffer. -/
def failedFrame : FrameOutcomes :=
  { sampleFrame 14 15 with buffer := { (sampleFrame 14 15).buffer with memfd := none } }

def drawnInputs : List SurfaceInput :=
  [.attach sampleRefs ⟨some 10, some 11, true⟩,
    .deliver sampleRefs 11 (.configure 7 1920 1080) (sampleFrame 12 13)]

theorem drawnRun_isSome :
    ((surfaceMachine [1, 2, 3]).exec sampleStart drawnInputs).isSome = true := by
  decide

def drawnRun : SurfaceState × List Item :=
  ((surfaceMachine [1, 2, 3]).exec sampleStart drawnInputs).get drawnRun_isSome

/-- **A redraw is lost** when the creation of a buffer fails after a done event: the call gets
past its checks, and the surface is left without a frame, and not dirty. -/
theorem redraw_lost :
    (surfaceMachine [1, 2, 3]).Reach drawnRun.1 drawnRun.2 ∧ drawnRun.1.surf.done.Entered ∧
    ∃ s' out, (surfaceMachine [1, 2, 3]).step drawnRun.1
        (.deliver sampleRefs 13 .done failedFrame) = some (s', out) ∧
      s'.surf.framePending = false ∧ s'.surf.dirty = false := by
  refine ⟨Machine.reach_exec sampleStart_init drawnRun_isSome, by decide, ?_⟩
  have hsome : ((surfaceMachine [1, 2, 3]).step drawnRun.1
      (.deliver sampleRefs 13 .done failedFrame)).isSome = true := by decide
  refine ⟨_, _, (Option.some_get hsome).symm, ?_⟩
  exact ⟨by decide, by decide⟩

end Kirilock
