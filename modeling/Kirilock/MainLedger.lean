import Kirilock.MainHistories
import Kirilock.MainGlobals
import Kirilock.SurfaceLedger

/-!
What the whole locker holds of the outside.

Every move keeps the books (`Move.settles`), so in every state of every run of `main` files,
mappings, pools, buffers, cairo objects and memory are held as the fields of the surfaces say,
nothing was released more often than it was acquired, and at the end nothing is held
(`main_settled`).
-/

namespace Kirilock

open Runs Ownership Ledger

/-- What a list of surfaces holds. -/
def surfacesAssets (surfs : List KlSurface) : Multiset Asset := (surfs.map KlSurface.assets).sum

theorem surfacesAssets_cons (surf : KlSurface) (surfs : List KlSurface) :
    surfacesAssets (surf :: surfs) = surf.assets + surfacesAssets surfs := rfl

theorem surfacesAssets_middle (l1 l2 : List KlSurface) (surf : KlSurface) :
    surfacesAssets (l1 ++ surf :: l2) = surf.assets + surfacesAssets (l1 ++ l2) := by
  simp only [surfacesAssets, List.map_append, List.map_cons, List.sum_append, List.sum_cons]
  abel

theorem Call.assets_of_ofMain {c : Call} (h : c.ofMain = true) : c.assets = [] := by
  cases c <;> first
    | rfl
    | exact absurd h Bool.false_ne_true

theorem itemAssets_of_ofMain {items : List Item} (h : ∀ x ∈ items, x.ofMain = true) :
    itemAssets items = [] := by
  refine List.flatMap_eq_nil_iff.mpr fun x hx => ?_
  cases x with
  | event p d e => rfl
  | call c => exact Call.assets_of_ofMain (h _ hx)

theorem CreateFailed.settles {cs : List Call} (h : CreateFailed cs) (held : Multiset Asset) :
    Settles held (assets cs) held := by
  cases h with
  | calloc => exact settles_nil held
  | engine a => exact (settles_acquire (Asset.surface a) held).append (settles_release _ held)

/-- **Every move** keeps the books. -/
theorem Move.settles {S S' : Scene} {out : List Tagged} (h : Move S out S') :
    Settles (surfacesAssets S.surfs) (itemAssets (itemsOf out)) (surfacesAssets S'.surfs) := by
  cases h with
  | rest items x hitems hx =>
    rw [itemsOf_tagged, itemAssets_of_ofMain hitems]
    exact settles_nil _
  | createFailed cs hcs =>
    rw [itemsOf_tagged, itemAssets_calls]
    exact hcs.settles _
  | created output name o surf cs hs hout hlent hnew =>
    have hcreate := klSurfaceCreate_settles output name o
    rw [hs] at hcreate
    rw [itemsOf_tagged, itemAssets_calls, surfacesAssets_cons]
    exact (hcreate.frame _).cast (zero_add _) rfl
  | fn l1 l2 surf surf' refs items hS hrefs hfn =>
    rw [itemsOf_tagged, hS, surfacesAssets_middle, surfacesAssets_middle]
    exact hfn.settles.frame _
  | destroyed l1 l2 surf releasable hS =>
    rw [itemsOf_append, itemsOf_tagged, itemsOf_tagged, ← calls_append, ← klSurfaceDestroy_eq,
      itemAssets_calls, hS, surfacesAssets_middle]
    exact ((klSurfaceDestroy_settles surf releasable).frame _).cast rfl (zero_add _)

/-- What is held in a state of a run. -/
theorem main_held {s : MainState} {tr : List Item} (h : mainMachine.Reach s tr) :
    Settles 0 (itemAssets tr) (surfacesAssets s.ctx.surfaces) := by
  obtain ⟨tt, S, rfl, -, hheld, hshows, -, -⟩ := main_moves
    (I := fun S tt => Settles 0 (itemAssets (itemsOf tt)) (surfacesAssets S.surfs))
    (fun S hS => by rw [hS]; exact settles_nil 0)
    (fun _ hI hm => by
      rw [itemsOf_append, itemAssets_append]
      exact hI.append hm.settles) h
  rw [← hshows.surfs]
  exact hheld

/-- The books of a run. -/
structure MainSettled (s : MainState) (tr : List Item) : Prop where
  /-- what is held is what the fields of the surfaces say -/
  held : Settles 0 (itemAssets tr) (surfacesAssets s.ctx.surfaces)
  /-- at no point was anything released more often than it was acquired -/
  once : ∀ es fs, itemAssets tr = es ++ fs → ∀ a,
    es.count (.release a) ≤ es.count (.acquire a)
  /-- at the end everything was released -/
  gone : ∀ ret, s.pc = .exited ret → ∀ a,
    (itemAssets tr).count (.release a) = (itemAssets tr).count (.acquire a)

/-- **The books of the locker.** -/
theorem main_settled {s : MainState} {tr : List Item} (h : mainMachine.Reach s tr) :
    MainSettled s tr := by
  have hheld := main_held h
  refine ⟨hheld, fun es fs he a => ?_, fun ret hpc a => ?_⟩
  · rw [he] at hheld
    have hle := hheld.release_le a
    rwa [Multiset.count_zero, zero_add] at hle
  · have hempty : s.ctx = .zeroed := (globalsInv_reach h).exited (by rw [hpc]; rfl)
    rw [hempty] at hheld
    have hcount := hheld.count a
    rwa [show surfacesAssets KlContext.zeroed.surfaces = 0 from rfl, Multiset.count_zero, zero_add,
      zero_add] at hcount

/-- The ended run drew a frame, and unplugged and freed the surface. -/
theorem main_settled_endedRun :
    (endedRun.1.pc = .exited 0 ∧ .acquire (.surface 0) ∈ itemAssets endedRun.2) ∧
      MainSettled endedRun.1 endedRun.2 :=
  ⟨⟨rfl, by decide⟩, main_settled endedRun_reach⟩

end Kirilock
