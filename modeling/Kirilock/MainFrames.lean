import Kirilock.MainHistories
import Kirilock.SurfaceCommit
import Kirilock.SurfaceHold
import Kirilock.SurfaceFlags
import Kirilock.SurfaceStall

/-!
The frames of all the surfaces of a locker, in one run.

What `SurfaceCommit`, `SurfaceHold`, `SurfaceFlags` and `SurfaceStall` keep in a run of one
surface holds of every surface in every run of `main`: whatever the other outputs do, and
also of those that were unplugged since (`main_frames_sound`).  And the event that makes a
surface draw again has its listener in the table of the whole locker (`main_no_stall`).
-/

namespace Kirilock

open Runs Ownership

/-- The rules for the history of one surface: what may be committed, what may be touched, and
when. -/
structure FramesOk (h : List Item) : Prop where
  commits : CommitsOk h
  holds : HoldsOk h
  alone : DrawsAlone h
  turns : Alternate Item.asksFrame Item.commits h

theorem framesOk_nil : FramesOk [] :=
  ⟨always_nil _, always_nil _, always_nil _, always_nil _⟩

theorem surfaceMachine_framesOk {env : List Proxy} {s : SurfaceState} {h : List Item}
    (hr : (surfaceMachine env).Reach s h) : FramesOk h := by
  have hflags := (flagsInvariant env).reach hr
  exact ⟨((commitInv_invariant env).reach hr).commits, ((holdInv_invariant env).reach hr).rules,
    hflags.alone, hflags.turns⟩

/-- The fields of a surface tell what its history left. -/
structure FieldsOk (surf : KlSurface) (h : List Item) : Prop where
  outstanding : outstanding h = surf.frameCallback.toList
  held : ∀ p, Held h p ↔ ∃ i, (surf.buffers i).wlBuffer = some p ∧ (surf.buffers i).busy = true
  acked : surf.configured = true → (commitView h).acked = some (surf.width, surf.height)
  acks : acks h = configures h

theorem surfaceMachine_fieldsOk {env : List Proxy} {s : SurfaceState} {h : List Item}
    (hr : (surfaceMachine env).Reach s h) : FieldsOk s.surf h :=
  ⟨((flagsInvariant env).reach hr).outstanding, ((holdInv_invariant env).reach hr).exact,
    ((commitInv_invariant env).reach hr).size, ((commitInv_invariant env).reach hr).acked⟩

theorem historyOf_subset {a : SurfaceRef} {tt : List Tagged} {x : Item} (h : x ∈ historyOf a tt) :
    x ∈ itemsOf tt := by
  obtain ⟨y, hy, he⟩ := List.mem_filterMap.mp h
  split at he
  · cases he
    exact List.mem_map_of_mem hy
  · cases he

/-- **The frames of the locker.**  The items of a run can be dealt out to the surfaces, all
but those that make and free them and those of `main` itself, so that every surface there
ever was kept the rules of `FramesOk`, and the fields of those that are left tell what their
histories left. -/
theorem main_frames_sound {s : MainState} {tr : List Item} (h : mainMachine.Reach s tr) :
    ∃ tt, itemsOf tt = tr ∧ (∀ x, (none, x) ∈ tt → x.outside = true) ∧
      (∀ a, FramesOk (historyOf a tt)) ∧
      ∀ surf ∈ s.ctx.surfaces, FieldsOk surf (historyOf surf.addr tt) := by
  obtain ⟨tt, S, hitems, hhist, hshows, -⟩ := main_scene h
  refine ⟨tt, hitems, hhist.outside, fun a => ?_, fun surf hs => ?_⟩
  · by_cases ha : a ∈ S.taken
    · obtain ⟨env, st, hr, -⟩ := hhist.former a ha
      exact surfaceMachine_framesOk hr
    · rw [hhist.silent a ha]
      exact framesOk_nil
  · rw [← hshows.surfs] at hs
    obtain ⟨env, st, -, hr, rfl, -⟩ := hhist.follows surf hs
    exact surfaceMachine_fieldsOk hr

/-- In the ended run a surface that had drawn was unplugged. -/
theorem main_frames_sound_endedRun :
    endedRun.1.pc = .exited 0 ∧
      ∃ tt, itemsOf tt = endedRun.2 ∧ (∀ x, (none, x) ∈ tt → x.outside = true) ∧
        (∀ a, FramesOk (historyOf a tt)) ∧
        ∀ surf ∈ endedRun.1.ctx.surfaces, FieldsOk surf (historyOf surf.addr tt) :=
  ⟨rfl, main_frames_sound endedRun_reach⟩

/-! ## No stall -/

theorem SurfacesOwn.mem_own {surfs : List KlSurface} {own : Multiset (Proxy × Option Listener)}
    (h : SurfacesOwn surfs own) {surf : KlSurface} (hs : surf ∈ surfs) :
    ∃ lo le, ∀ x ∈ surf.own lo le, x ∈ own := by
  induction h with
  | nil => cases hs
  | cons lo le hwf _ ih =>
    rcases List.mem_cons.mp hs with rfl | hs
    · exact ⟨lo, le, fun x hx => Multiset.mem_add.mpr (Or.inl hx)⟩
    · obtain ⟨lo', le', hall⟩ := ih hs
      exact ⟨lo', le', fun x hx => Multiset.mem_add.mpr (Or.inr (hall x hx))⟩

/-- What a surface of the context owns has its listener in the table. -/
theorem MainOk.live_of_own {s : MainState} {tr : List Item} (h : MainOk s tr) {surf : KlSurface}
    (hs : surf ∈ s.ctx.surfaces) :
    surf.WellFormed ∧ ∃ lo le, ∀ p l, (p, l) ∈ surf.own lo le → s.table p = .live l := by
  obtain ⟨own, left, ⟨lr, ll, surfsOwn, hso, rfl⟩, hi⟩ := h.inventory
  refine ⟨hso.wellFormed surf hs, ?_⟩
  obtain ⟨lo, le, hall⟩ := hso.mem_own hs
  refine ⟨lo, le, fun p l hp => (hi.live_iff p l).mpr ?_⟩
  exact Multiset.mem_add.mpr (Or.inl (Multiset.mem_add.mpr (Or.inr (hall _ hp))))

/-- The event that the surface waits for can be delivered: the done event of its frame, or the
release of any of its buffers. -/
inductive Awaits (s : MainState) (surf : KlSurface) : Prop
  | frame (cb : Proxy) (hcb : surf.frameCallback = some cb)
      (hlive : s.table cb = .live (some (.frame surf.addr)))
  | release (hdirty : surf.dirty = true)
      (hlive : ∀ i, (surf.buffers i).busy = true ∧ ∃ wb, (surf.buffers i).wlBuffer = some wb ∧
        s.table wb = .live (some (.buffer (surf.ref i))))

/-- **No surface of the locker stalls.**  As long as the creations succeed, every configured
surface with a size waits for an event that the table of the locker can deliver, whichever
outputs were plugged in and unplugged before. -/
theorem main_no_stall {s : MainState} {tr : List Item} (h : mainMachine.Reach s tr)
    (hsucc : Succeeds tr) : ∀ surf ∈ s.ctx.surfaces, surf.configured = true → surf.width ≠ 0 →
      surf.height ≠ 0 → Awaits s surf := by
  intro surf hs hc hw hh
  obtain ⟨tt, S, hitems, hhist, hshows, -⟩ := main_scene h
  obtain ⟨hwf, lo, le, hlive⟩ := (mainMachine_ok h).live_of_own hs
  have hdriven : surf.Driven := by
    rw [← hshows.surfs] at hs
    obtain ⟨env, st, -, hr, rfl, -⟩ := hhist.follows surf hs
    refine surface_driven hr fun c hc => hsucc c ?_
    rw [← hitems]
    exact historyOf_subset hc
  rcases hdriven hc hw hh with hp | ⟨hdirty, hbusy⟩
  · have hsome : surf.frameCallback.isSome = true := hwf.pending.symm.trans hp
    obtain ⟨cb, hcb⟩ := Option.isSome_iff_exists.mp hsome
    refine .frame cb hcb (hlive _ _ ?_)
    simp [KlSurface.own, hcb]
  · refine .release hdirty fun i => ⟨hbusy i, ?_⟩
    have hsome : (surf.buffers i).wlBuffer ≠ none := by
      intro hn
      have hidle := hwf.idle i hn
      rw [hbusy i] at hidle
      cases hidle
    obtain ⟨wb, hwb⟩ := Option.ne_none_iff_exists'.mp hsome
    refine ⟨wb, hwb, hlive _ _ ?_⟩
    simp [KlSurface.own, buffersOwn_split surf i, KlBuffer.own, hwb]

/-- In the session, with one surface that draws and one that is not configured yet. -/
theorem main_no_stall_lockedRun : ∃ surf ∈ lockedRun.1.ctx.surfaces, surf.configured = true ∧
    surf.width ≠ 0 ∧ surf.height ≠ 0 ∧ Awaits lockedRun.1 surf := by
  have hs : lockedRun.2.all Item.succeeds = true := by decide
  obtain ⟨surf, hm, hc, hw, hh⟩ : ∃ surf ∈ lockedRun.1.ctx.surfaces, surf.configured = true ∧
      surf.width ≠ 0 ∧ surf.height ≠ 0 := by decide
  have hawaits := main_no_stall (Machine.reach_exec mainStart_init lockedRun_isSome)
    (fun c hc => List.all_eq_true.mp hs _ hc) surf hm hc hw hh
  exact ⟨surf, hm, hc, hw, hh, hawaits⟩

end Kirilock
