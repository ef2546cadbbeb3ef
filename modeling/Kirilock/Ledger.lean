import Mathlib.Algebra.Order.Group.Multiset

/-!
What is acquired and released, where the names of resources come back.

A file descriptor or an address that was released can be handed out again, so a ledger
counts: `settle held es` is what is held after the entries `es`, and `none` where something
is released that is not held.  `Settles held es held'` is the rule for a piece of code: it
frames (`Settles.frame`) and composes (`Settles.append`).

    Settles 0 [acquire r, release r] 0
    Settles 0 [acquire r] {r}
    Settles {r} [release r] 0

What settles releases nothing more often than it was acquired, at any point
(`Settles.release_le`), and holds the difference at the end (`Settles.count`).
-/

namespace Ledger

inductive Entry (ρ : Type) where
  | acquire (r : ρ)
  | release (r : ρ)
  deriving DecidableEq

variable {ρ : Type} [DecidableEq ρ]

/-- What is held after the entries; `none` if something was released that was not held. -/
def settle : Multiset ρ → List (Entry ρ) → Option (Multiset ρ)
  | held, [] => some held
  | held, .acquire r :: es => settle (r ::ₘ held) es
  | held, .release r :: es => if r ∈ held then settle (held.erase r) es else none

/-- The entries turn `held` into `held'` and release nothing that is not held. -/
def Settles (held : Multiset ρ) (es : List (Entry ρ)) (held' : Multiset ρ) : Prop :=
  settle held es = some held'

instance (held : Multiset ρ) (es : List (Entry ρ)) (held' : Multiset ρ) :
    Decidable (Settles held es held') :=
  inferInstanceAs (Decidable (_ = _))

theorem settles_nil (held : Multiset ρ) : Settles held [] held := rfl

theorem Settles.cast {h1 h2 h1' h2' : Multiset ρ} {es : List (Entry ρ)} (h : Settles h1 es h2)
    (e1 : h1 = h1') (e2 : h2 = h2') : Settles h1' es h2' := by
  subst e1 e2
  exact h

theorem settles_acquire (r : ρ) (held : Multiset ρ) :
    Settles held [.acquire r] ({r} + held) := by
  rw [Multiset.singleton_add]
  rfl

theorem settles_release (r : ρ) (held : Multiset ρ) :
    Settles ({r} + held) [.release r] held := by
  rw [Multiset.singleton_add, Settles, settle, if_pos (Multiset.mem_cons_self r held),
    Multiset.erase_cons_head]
  rfl

theorem Settles.append {h1 h2 h3 : Multiset ρ} {es fs : List (Entry ρ)} (h : Settles h1 es h2)
    (h' : Settles h2 fs h3) : Settles h1 (es ++ fs) h3 := by
  induction es generalizing h1 with
  | nil =>
    cases h
    exact h'
  | cons e es ih =>
    cases e with
    | acquire r => exact ih h
    | release r =>
      unfold Settles settle at h
      split at h
      · rename_i hr
        rw [List.cons_append, Settles, settle, if_pos hr]
        exact ih h
      · cases h

theorem settles_append {h1 h3 : Multiset ρ} {es fs : List (Entry ρ)}
    (h : Settles h1 (es ++ fs) h3) : ∃ h2, Settles h1 es h2 ∧ Settles h2 fs h3 := by
  induction es generalizing h1 with
  | nil => exact ⟨h1, rfl, h⟩
  | cons e es ih =>
    cases e with
    | acquire r => exact ih h
    | release r =>
      rw [List.cons_append, Settles, settle] at h
      split at h
      · rename_i hr
        obtain ⟨h2, hes, hfs⟩ := ih h
        refine ⟨h2, ?_, hfs⟩
        rw [Settles, settle, if_pos hr]
        exact hes
      · cases h

/-- What else is held stays. -/
theorem Settles.frame {held held' : Multiset ρ} {es : List (Entry ρ)} (h : Settles held es held')
    (rest : Multiset ρ) : Settles (held + rest) es (held' + rest) := by
  induction es generalizing held with
  | nil =>
    cases h
    rfl
  | cons e es ih =>
    cases e with
    | acquire r =>
      rw [Settles, settle, ← Multiset.cons_add]
      exact ih h
    | release r =>
      unfold Settles settle at h
      split at h
      · rename_i hr
        rw [Settles, settle, if_pos (Multiset.mem_add.mpr (Or.inl hr)),
          Multiset.erase_add_left_pos _ hr]
        exact ih h
      · cases h

/-- A resource that may be missing. -/
def optional {α : Type} (f : α → ρ) (x : Option α) : Multiset ρ := (x.toList.map f : List ρ)

omit [DecidableEq ρ] in
@[simp] theorem optional_none {α : Type} (f : α → ρ) : optional f none = 0 := rfl

omit [DecidableEq ρ] in
@[simp] theorem optional_some {α : Type} (f : α → ρ) (a : α) : optional f (some a) = {f a} := rfl

theorem settles_release_option {α : Type} (f : α → ρ) (x : Option α) (held : Multiset ρ) :
    Settles (optional f x + held) (x.toList.map fun a => .release (f a)) held := by
  cases x with
  | none => exact (settles_nil held).cast (zero_add held).symm rfl
  | some a => exact settles_release (f a) held

/-! ## Resources that are named anew -/

/-- The entry of the resource that `f` makes of this one's. -/
def Entry.map {σ : Type} (f : ρ → σ) : Entry ρ → Entry σ
  | .acquire r => .acquire (f r)
  | .release r => .release (f r)

theorem Settles.map {σ : Type} [DecidableEq σ] (f : ρ → σ) {held held' : Multiset ρ}
    {es : List (Entry ρ)} (h : Settles held es held') :
    Settles (held.map f) (es.map (Entry.map f)) (held'.map f) := by
  induction es generalizing held with
  | nil =>
    cases h
    rfl
  | cons e es ih =>
    cases e with
    | acquire r =>
      have hrest := ih h
      rw [Multiset.map_cons] at hrest
      exact hrest
    | release r =>
      unfold Settles settle at h
      split at h
      · rename_i hr
        have hrest := ih h
        rw [Multiset.map_erase_of_mem f held hr] at hrest
        show settle _ (.release (f r) :: _) = _
        rw [settle, if_pos (Multiset.mem_map_of_mem f hr)]
        exact hrest
      · cases h

/-! ## What is counted -/

/-- **The balance** of each resource. -/
theorem Settles.count {held held' : Multiset ρ} {es : List (Entry ρ)} (h : Settles held es held')
    (r : ρ) : held'.count r + es.count (.release r) = held.count r + es.count (.acquire r) := by
  induction es generalizing held with
  | nil =>
    cases h
    rfl
  | cons e es ih =>
    cases e with
    | acquire q =>
      have hc := ih h
      by_cases hq : q = r
      · subst hq
        rw [Multiset.count_cons_self] at hc
        rw [List.count_cons_of_ne (by simp), List.count_cons_self]
        omega
      · rw [Multiset.count_cons_of_ne (Ne.symm hq)] at hc
        rw [List.count_cons_of_ne (by simp), List.count_cons_of_ne (by simpa using hq)]
        exact hc
    | release q =>
      unfold Settles settle at h
      split at h
      · rename_i hm
        have hc := ih h
        by_cases hq : q = r
        · subst hq
          have hpos := Multiset.count_pos.mpr hm
          rw [Multiset.count_erase_self] at hc
          rw [List.count_cons_self, List.count_cons_of_ne (by simp)]
          omega
        · rw [Multiset.count_erase_of_ne (Ne.symm hq)] at hc
          rw [List.count_cons_of_ne (by simpa using hq), List.count_cons_of_ne (by simp)]
          exact hc
      · cases h

/-- **Never released twice**: at any point what was released was there before, or was
acquired as often. -/
theorem Settles.release_le {held held' : Multiset ρ} {es fs : List (Entry ρ)}
    (h : Settles held (es ++ fs) held') (r : ρ) :
    es.count (.release r) ≤ held.count r + es.count (.acquire r) := by
  obtain ⟨h2, hes, -⟩ := settles_append h
  have hc := hes.count r
  omega

end Ledger
