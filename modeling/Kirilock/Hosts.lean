import Kirilock.Runs

/-!
Machines that run other machines.

`M.Hosts N part view drives`: every step of `M` leaves its part alone, or is a step of `N` on it
that `drives` relates it to.  So a run of `M` is a run of `N` as far as the part goes
(`Hosts.reachIf`), and what `N` always does `M` always does (`always_view`).
-/

namespace Runs

variable {σ ι ω τ κ υ : Type} {M : Machine σ ι ω} {N : Machine τ κ υ} {part : σ → τ}
  {view : ω → Option υ} {drives : ι → κ → Prop}

structure Machine.Hosts (M : Machine σ ι ω) (N : Machine τ κ υ) (part : σ → τ)
    (view : ω → Option υ) (drives : ι → κ → Prop) : Prop where
  init : ∀ s, M.init s → N.init (part s)
  step : ∀ s i s' out, M.step s i = some (s', out) →
    part s' = part s ∧ out.filterMap view = [] ∨
      ∃ j, drives i j ∧ N.step (part s) j = some (part s', out.filterMap view)

/-- A condition on the steps of the whole that says enough of those of the part. -/
theorem Machine.Hosts.reachIf (h : M.Hosts N part view drives) {ok : σ → List ω → ι → Prop}
    {ok' : τ → List υ → κ → Prop}
    (hok : ∀ s tr i j, ok s tr i → drives i j → ok' (part s) (tr.filterMap view) j)
    {s : σ} {tr : List ω} (hr : M.ReachIf ok s tr) :
    N.ReachIf ok' (part s) (tr.filterMap view) := by
  induction hr with
  | init hi => exact .init (h.init _ hi)
  | @step s s' tr out i _ hi hs ih =>
    rw [List.filterMap_append]
    rcases h.step s i s' out hs with ⟨hpart, hout⟩ | ⟨j, hd, hj⟩
    · rw [hpart, hout, List.append_nil]
      exact ih
    · exact .step ih (hok s tr i j hi hd) hj

theorem Machine.Hosts.reach (h : M.Hosts N part view drives) {ok : σ → List ω → ι → Prop} {s : σ}
    {tr : List ω} (hr : M.ReachIf ok s tr) : N.Reach (part s) (tr.filterMap view) :=
  h.reachIf (fun _ _ _ _ _ _ => trivial) hr

/-- A rule that the items of the part obey, read off the whole. -/
theorem always_view {P : List υ → υ → Prop} {tr : List ω} (h : Always P (tr.filterMap view)) :
    Always (fun pre c => ∀ x, view c = some x → P (pre.filterMap view) x) tr := by
  rintro pre c post rfl x hx
  refine h (pre.filterMap view) x (post.filterMap view) ?_
  rw [List.filterMap_append, List.filterMap_cons, hx]

end Runs
