import Kirilock.Ownership

/-!
The table of a whole program, and the table that one part of it makes.

`Part mine T t`: the part made `t` while the whole made `T`.  What is unborn in the whole
is unborn in the part, and the listeners of the part (`mine`) are where the whole has them.
An action of the part moves both tables (`Part.run`), those of the others only the whole
(`Part.others`), and a handle of the others can be handed to the part (`Part.lent`).

`run_update` and `fresh_update`: a history is the same whether or not a handle that it
never touches was there before it.
-/

namespace Ownership

variable {ρ δ : Type} [DecidableEq ρ]

/-! ## Handles that are left alone -/

/-- The handle whose life the action changes. -/
def Act.changes : Act ρ δ → Option ρ
  | .create p => some p
  | .use _ => none
  | .listen p _ => some p
  | .destroy p => some p

theorem Act.apply_of_ne {t : Table ρ δ} {a : Act ρ δ} {p : ρ} (h : a.changes ≠ some p) :
    a.apply t p = t p := by
  cases a with
  | use q => rfl
  | create q | listen q d | destroy q =>
    have hq : p ≠ q := fun he => h (by rw [he]; rfl)
    simp [Act.apply, hq]

theorem Act.born_of_changes {t : Table ρ δ} {a : Act ρ δ} {p : ρ} (h : a.changes = some p) :
    a.apply t p ≠ .unborn := by
  cases a with
  | use q => cases h
  | create q | listen q d | destroy q =>
    cases h
    simp [Act.apply]

theorem Act.apply_update {a : Act ρ δ} {p : ρ} (h : a.changes ≠ some p) (t : Table ρ δ)
    (l : Life δ) : a.apply (Function.update t p l) = Function.update (a.apply t) p l := by
  cases a with
  | use q => rfl
  | create q | listen q d | destroy q =>
    have hq : p ≠ q := fun he => h (by rw [he]; rfl)
    exact Function.update_comm hq _ _ _

/-- The first of the actions leaves alone what is unborn after the last. -/
theorem changes_of_run_unborn {t : Table ρ δ} {a : Act ρ δ} {as : List (Act ρ δ)} {p : ρ}
    (h : run t (a :: as) p = .unborn) : a.changes ≠ some p := by
  intro hc
  exact run_born as (Act.born_of_changes hc) h

theorem run_update {t : Table ρ δ} {as : List (Act ρ δ)} {p : ρ} (h : run t as p = .unborn)
    (l : Life δ) : run (Function.update t p l) as = Function.update (run t as) p l := by
  induction as generalizing t with
  | nil => rfl
  | cons a as ih =>
    rw [run_cons, Act.apply_update (changes_of_run_unborn h)]
    exact ih h

theorem fresh_update {t : Table ρ δ} {as : List (Act ρ δ)} {p : ρ} (h : run t as p = .unborn)
    (l : Life δ) (hf : Fresh t as) : Fresh (Function.update t p l) as := by
  induction as generalizing t with
  | nil => trivial
  | cons a as ih =>
    have hc := changes_of_run_unborn h
    refine ⟨?_, ?_⟩
    · cases a with
      | create q =>
        have hq : q ≠ p := fun he => hc (by rw [he]; rfl)
        show Function.update t p l q = .unborn
        rw [Function.update_of_ne hq]
        exact hf.1
      | use q | listen q d | destroy q => trivial
    · rw [Act.apply_update hc]
      exact ih h hf.2

/-- What a history does to a handle does not depend on where it starts. -/
theorem run_agree (T t : Table ρ δ) (as : List (Act ρ δ)) (p : ρ) :
    run T as p = T p ∨ run T as p = run t as p := by
  induction as generalizing T t with
  | nil => exact Or.inl rfl
  | cons a as ih =>
    by_cases hc : a.changes = some p
    · have hsame : a.apply T p = a.apply t p := by
        cases a with
        | use q => cases hc
        | create q | listen q d | destroy q =>
          cases hc
          simp [Act.apply]
      refine Or.inr ?_
      rcases ih (a.apply T) (a.apply t) with h | h
      · rcases ih (a.apply t) (a.apply T) with h' | h'
        · rw [run_cons, run_cons, h, h', hsame]
        · rw [run_cons, run_cons, h']
      · exact h
    · rcases ih (a.apply T) (a.apply t) with h | h
      · rw [run_cons, h, Act.apply_of_ne hc]
        exact Or.inl rfl
      · exact Or.inr h

/-- A listener that nobody had before was registered. -/
theorem listen_of_run {as : List (Act ρ δ)} {p : ρ} {d : δ}
    (h : run (fun _ => .unborn) as p = .live (some d)) : .listen p d ∈ as := by
  have hgen : ∀ t : Table ρ δ, t p ≠ .live (some d) → run t as p = .live (some d) →
      .listen p d ∈ as := by
    clear h
    induction as with
    | nil => exact fun t ht h => absurd h ht
    | cons a as ih =>
      intro t ht h
      by_cases ha : a = .listen p d
      · exact ha ▸ List.mem_cons_self
      · refine List.mem_cons_of_mem _ (ih (a.apply t) ?_ h)
        cases a with
        | use q => exact ht
        | create q | destroy q =>
          by_cases hq : p = q
          · simp [Act.apply, hq]
          · simpa [Act.apply, hq] using ht
        | listen q d' =>
          by_cases hq : p = q
          · subst hq
            have hd : d' ≠ d := fun he => ha (by rw [he])
            simp [Act.apply, hd]
          · simpa [Act.apply, hq] using ht
  exact hgen _ (by simp) h

theorem run_creates (t : Table ρ δ) (ps : List ρ) (q : ρ) :
    run t (ps.map .create) q = if q ∈ ps then .live none else t q := by
  induction ps generalizing t with
  | nil => rfl
  | cons p ps ih =>
    rw [List.map_cons, run_cons, ih]
    by_cases hq : q = p
    · subst hq
      simp [Act.apply]
    · simp [Act.apply, hq]

theorem born_eq (ps : List ρ) (q : ρ) :
    (born ps : Table ρ δ) q = if q ∈ ps then .live none else .unborn :=
  run_creates _ ps q

/-- One more handle is born with the others. -/
theorem born_update {ps qs : List ρ} {p : ρ} (h : ∀ q, q ∈ qs ↔ q = p ∨ q ∈ ps) :
    (born qs : Table ρ δ) = Function.update (born ps) p (.live none) := by
  funext q
  rw [born_eq]
  by_cases hq : q = p
  · subst hq
    rw [Function.update_self, if_pos ((h q).mpr (Or.inl rfl))]
  · rw [Function.update_of_ne hq, born_eq]
    simp [h, hq]

/-! ## Parts -/

/-- `t` is what one part of a program made of its handles while the whole made `T`; its
listeners are those that meet `mine`. -/
structure Part (mine : δ → Prop) (T t : Table ρ δ) : Prop where
  unborn : ∀ p, T p = .unborn → t p = .unborn
  listener : ∀ p d, T p = .live (some d) → mine d → t p = .live (some d)

variable {mine : δ → Prop} {T t : Table ρ δ}

theorem Part.act (h : Part mine T t) (a : Act ρ δ) : Part mine (a.apply T) (a.apply t) := by
  have hsame : ∀ p, a.changes = some p → a.apply T p = a.apply t p := by
    intro p hp
    cases a with
    | use q => cases hp
    | create q | listen q d | destroy q =>
      cases hp
      simp [Act.apply]
  constructor
  · intro p hp
    by_cases hc : a.changes = some p
    · rw [← hsame p hc]
      exact hp
    · rw [Act.apply_of_ne hc] at hp ⊢
      exact h.unborn p hp
  · intro p d hp hd
    by_cases hc : a.changes = some p
    · rw [← hsame p hc]
      exact hp
    · rw [Act.apply_of_ne hc] at hp ⊢
      exact h.listener p d hp hd

/-- The part goes on. -/
theorem Part.run (h : Part mine T t) (as : List (Act ρ δ)) :
    Part mine (run T as) (run t as) := by
  induction as generalizing T t with
  | nil => exact h
  | cons a as ih => exact ih (h.act a)

/-- What is new to the whole is new to the part. -/
theorem Part.fresh (h : Part mine T t) {as : List (Act ρ δ)} (hf : Fresh T as) : Fresh t as := by
  induction as generalizing T t with
  | nil => trivial
  | cons a as ih =>
    refine ⟨?_, ih (h.act a) hf.2⟩
    cases a with
    | create p => exact h.unborn p hf.1
    | use p | listen p d | destroy p => trivial

/-- The other parts go on, and register no listeners of this one. -/
theorem Part.others (h : Part mine T t) {as : List (Act ρ δ)} (u : Table ρ δ)
    (hl : ∀ p d, Ownership.run u as p = .live (some d) → ¬mine d) :
    Part mine (Ownership.run T as) t := by
  constructor
  · intro p hp
    refine h.unborn p ?_
    by_contra hb
    exact run_born as hb hp
  · intro p d hp hd
    rcases run_agree T u as p with he | he
    · exact h.listener p d (he ▸ hp) hd
    · exact absurd hd (hl p d (he ▸ hp))

/-- A handle that the part has not seen is handed to it. -/
theorem Part.lent (h : Part mine T t) {p : ρ} (hp : T p ≠ .unborn)
    (hl : ∀ d, T p = .live (some d) → ¬mine d) :
    Part mine T (Function.update t p (.live none)) := by
  constructor
  · intro q hq
    have hne : q ≠ p := fun he => hp (he ▸ hq)
    rw [Function.update_of_ne hne]
    exact h.unborn q hq
  · intro q d hq hd
    have hne : q ≠ p := fun he => hl d (he ▸ hq) hd
    rw [Function.update_of_ne hne]
    exact h.listener q d hq hd

/-- A part that begins with the handles of `ps`. -/
theorem part_born {ps : List ρ} (hps : ∀ p ∈ ps, T p ≠ .unborn)
    (hl : ∀ p d, T p = .live (some d) → ¬mine d) : Part mine T (born ps) := by
  refine ⟨fun p hp => ?_, fun p d hp hd => absurd hd (hl p d hp)⟩
  rw [born_eq, if_neg fun hm => hps p hm hp]

end Ownership
