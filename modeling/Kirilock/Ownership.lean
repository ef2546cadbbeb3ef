import Mathlib.Algebra.Order.Group.Multiset
import Mathlib.Logic.Function.Basic
import Mathlib.Tactic.Abel
import Kirilock.Runs

/-!
Handles that are created, used, listened to and destroyed, and who owns them.

A `Table` records for each handle whether it is unborn, live (with the data its
listener was registered with, if it has one) or dead.  A list of actions is
`Sound` when every use, registration and destruction meets a live handle, and
`Fresh` when every creation returns a handle never seen before: the first is
what a program owes, the second what its environment does.

`Inventory t own`: `own` lists exactly the live handles, each once, with their
listener.  `Triple B own acts own'` is the ownership rule for a piece of code:
run where `own` and any further handles (among them those of `B`, which the code
only borrows) are the inventory, it is sound and turns `own` into `own'`.
The further handles are arbitrary, so triples frame (`Triple.frame`) and
compose (`Triple.append`).

    Triple [] 0 [create p, destroy p] 0
    Triple B {(p, l)} [destroy p] 0
    p ∈ B → Triple B own [use p] own
-/

namespace Ownership

open Runs

/-- The life of a handle whose listener data has type `δ`. -/
inductive Life (δ : Type) where
  | unborn
  | live (listener : Option δ)
  | dead
  deriving DecidableEq

inductive Act (ρ δ : Type) where
  | create (p : ρ)
  | use (p : ρ)
  | listen (p : ρ) (d : δ)
  | destroy (p : ρ)
  deriving DecidableEq

abbrev Table (ρ δ : Type) := ρ → Life δ

variable {ρ δ : Type} [DecidableEq ρ]

def Act.apply (t : Table ρ δ) : Act ρ δ → Table ρ δ
  | .create p => Function.update t p (.live none)
  | .use _ => t
  | .listen p d => Function.update t p (.live (some d))
  | .destroy p => Function.update t p .dead

/-- The handle the action needs to be live. -/
def Act.needs : Act ρ δ → Option ρ
  | .create _ => none
  | .use p => some p
  | .listen p _ => some p
  | .destroy p => some p

def Act.Sound (t : Table ρ δ) (a : Act ρ δ) : Prop := ∀ p, a.needs = some p → ∃ l, t p = .live l

def Act.Fresh (t : Table ρ δ) : Act ρ δ → Prop
  | .create p => t p = .unborn
  | _ => True

def run (t : Table ρ δ) (as : List (Act ρ δ)) : Table ρ δ := as.foldl Act.apply t

def Sound (t : Table ρ δ) : List (Act ρ δ) → Prop
  | [] => True
  | a :: as => a.Sound t ∧ Sound (a.apply t) as

def Fresh (t : Table ρ δ) : List (Act ρ δ) → Prop
  | [] => True
  | a :: as => a.Fresh t ∧ Fresh (a.apply t) as

instance [DecidableEq δ] (t : Table ρ δ) (a : Act ρ δ) : Decidable (a.Fresh t) :=
  match a with
  | .create p => inferInstanceAs (Decidable (t p = .unborn))
  | .use _ => .isTrue trivial
  | .listen _ _ => .isTrue trivial
  | .destroy _ => .isTrue trivial

instance decidableFresh [DecidableEq δ] : (t : Table ρ δ) → (as : List (Act ρ δ)) →
    Decidable (Fresh t as)
  | _, [] => .isTrue trivial
  | t, a :: as =>
    have := decidableFresh (a.apply t) as
    inferInstanceAs (Decidable (_ ∧ _))

@[simp] theorem run_nil (t : Table ρ δ) : run t [] = t := rfl

@[simp] theorem run_cons (t : Table ρ δ) (a : Act ρ δ) (as : List (Act ρ δ)) :
    run t (a :: as) = run (a.apply t) as := rfl

theorem run_append (t : Table ρ δ) (as bs : List (Act ρ δ)) :
    run t (as ++ bs) = run (run t as) bs := by
  simp [run]

theorem sound_append (t : Table ρ δ) (as bs : List (Act ρ δ)) :
    Sound t (as ++ bs) ↔ Sound t as ∧ Sound (run t as) bs := by
  induction as generalizing t with
  | nil => simp [Sound]
  | cons a as ih => simp [Sound, ih, and_assoc]

theorem fresh_append (t : Table ρ δ) (as bs : List (Act ρ δ)) :
    Fresh t (as ++ bs) ↔ Fresh t as ∧ Fresh (run t as) bs := by
  induction as generalizing t with
  | nil => simp [Fresh]
  | cons a as ih => simp [Fresh, ih, and_assoc]

/-- Uses create nothing and change nothing. -/
theorem fresh_of_use {as : List (Act ρ δ)} (h : ∀ a ∈ as, ∃ p, a = .use p) (t : Table ρ δ) :
    Fresh t as ∧ run t as = t := by
  induction as with
  | nil => exact ⟨trivial, rfl⟩
  | cons a as ih =>
    obtain ⟨⟨p, rfl⟩, has⟩ := List.forall_mem_cons.mp h
    obtain ⟨hf, hr⟩ := ih has
    exact ⟨⟨trivial, hf⟩, hr⟩

/-! ## What soundness says about a history -/

/-- A dead handle stays dead and was not created again. -/
theorem run_dead {t : Table ρ δ} {as : List (Act ρ δ)} {p : ρ} (hs : Sound t as) (hf : Fresh t as)
    (hp : t p = .dead) : run t as p = .dead := by
  induction as generalizing t with
  | nil => exact hp
  | cons a as ih =>
    obtain ⟨hs1, hs2⟩ := hs
    obtain ⟨hf1, hf2⟩ := hf
    refine ih hs2 hf2 ?_
    cases a with
    | use q => exact hp
    | create q =>
      have hq : p ≠ q := by
        rintro rfl
        simp only [Act.Fresh] at hf1
        rw [hf1] at hp
        cases hp
      simp [Act.apply, hq, hp]
    | listen q d =>
      have hq : p ≠ q := by
        rintro rfl
        obtain ⟨l, hl⟩ := hs1 p rfl
        rw [hl] at hp
        cases hp
      simp [Act.apply, hq, hp]
    | destroy q =>
      by_cases hq : p = q
      · simp [Act.apply, hq]
      · simp [Act.apply, hq, hp]

/-- A handle that was destroyed is dead from then on. -/
theorem run_dead_of_mem {t : Table ρ δ} {as : List (Act ρ δ)} {p : ρ} (hs : Sound t as)
    (hf : Fresh t as) (hp : .destroy p ∈ as) : run t as p = .dead := by
  obtain ⟨bs, cs, rfl⟩ := List.append_of_mem hp
  rw [show bs ++ Act.destroy p :: cs = (bs ++ [Act.destroy p]) ++ cs by simp] at hs hf ⊢
  rw [sound_append] at hs
  rw [fresh_append] at hf
  rw [run_append]
  refine run_dead hs.2 hf.2 ?_
  rw [run_append]
  simp [Act.apply]

/-- A handle that was not created in `as` is no more live after `as` than before. -/
theorem run_unborn {t : Table ρ δ} {as : List (Act ρ δ)} {p : ρ} (hs : Sound t as)
    (hp : t p = .unborn) (hc : .create p ∉ as) : run t as p = .unborn := by
  induction as generalizing t with
  | nil => exact hp
  | cons a as ih =>
    obtain ⟨hs1, hs2⟩ := hs
    simp only [List.mem_cons, not_or] at hc
    refine ih hs2 ?_ hc.2
    cases a with
    | use q => exact hp
    | create q =>
      have hq : p ≠ q := fun h => hc.1 (by rw [h])
      simp [Act.apply, hq, hp]
    | listen q d =>
      have hq : p ≠ q := by
        rintro rfl
        obtain ⟨l, hl⟩ := hs1 p rfl
        rw [hl] at hp
        cases hp
      simp [Act.apply, hq, hp]
    | destroy q =>
      have hq : p ≠ q := by
        rintro rfl
        obtain ⟨l, hl⟩ := hs1 p rfl
        rw [hl] at hp
        cases hp
      simp [Act.apply, hq, hp]

/-- What was born once is never unborn again. -/
theorem run_born {t : Table ρ δ} (as : List (Act ρ δ)) {p : ρ}
    (hp : t p ≠ .unborn) : run t as p ≠ .unborn := by
  induction as generalizing t with
  | nil => exact hp
  | cons a as ih =>
    refine ih ?_
    cases a with
    | use q => exact hp
    | create q | listen q d | destroy q =>
      by_cases hq : p = q
      · simp [Act.apply, hq]
      · simpa [Act.apply, hq] using hp

theorem run_of_create {t : Table ρ δ} {as : List (Act ρ δ)} {p : ρ} (hp : .create p ∈ as) :
    run t as p ≠ .unborn := by
  obtain ⟨bs, cs, rfl⟩ := List.append_of_mem hp
  rw [run_append, run_cons]
  exact run_born cs (by simp [Act.apply])

/-- A handle that is created was never seen before. -/
theorem unborn_of_create {t : Table ρ δ} {as : List (Act ρ δ)} {p : ρ} (hf : Fresh t as)
    (hp : .create p ∈ as) : t p = .unborn := by
  obtain ⟨bs, cs, rfl⟩ := List.append_of_mem hp
  rw [fresh_append] at hf
  by_contra hb
  exact run_born bs hb hf.2.1

/-- **Soundness of a whole history.**  From a table where nothing exists yet,
whatever an action needs was created before it and not destroyed before it. -/
theorem sound_history {as : List (Act ρ δ)} (hs : Sound (fun _ => .unborn) as)
    (hf : Fresh (fun _ => .unborn) as) :
    Always (fun pre a => ∀ p, a.needs = some p → .create p ∈ pre ∧ .destroy p ∉ pre) as := by
  rintro pre a post rfl p hp
  rw [sound_append] at hs
  rw [fresh_append] at hf
  obtain ⟨l, hl⟩ := hs.2.1 p hp
  constructor
  · by_contra hc
    rw [run_unborn hs.1 rfl hc] at hl
    cases hl
  · intro hd
    rw [run_dead_of_mem hs.1 hf.1 hd] at hl
    cases hl

theorem not_destroy_of_dead {t : Table ρ δ} {as : List (Act ρ δ)} {p : ρ} (hs : Sound t as)
    (hf : Fresh t as) (hp : t p = .dead) : .destroy p ∉ as := by
  intro hm
  obtain ⟨bs, cs, rfl⟩ := List.append_of_mem hm
  rw [sound_append] at hs
  rw [fresh_append] at hf
  obtain ⟨l, hl⟩ := hs.2.1 p rfl
  rw [run_dead hs.1 hf.1 hp] at hl
  cases hl

theorem destroy_of_dead {t : Table ρ δ} {as : List (Act ρ δ)} {p : ρ} (hp : t p ≠ .dead)
    (h : run t as p = .dead) : .destroy p ∈ as := by
  induction as generalizing t with
  | nil => exact absurd h hp
  | cons a as ih =>
    by_cases ha : a = .destroy p
    · exact ha ▸ List.mem_cons_self
    · refine List.mem_cons_of_mem _ (ih ?_ h)
      cases a with
      | use q => exact hp
      | create q | listen q d =>
        by_cases hq : p = q
        · simp [Act.apply, hq]
        · simpa [Act.apply, hq] using hp
      | destroy q =>
        have hq : p ≠ q := fun he => ha (by rw [he])
        simpa [Act.apply, hq] using hp

/-- **Once.**  No handle is destroyed twice. -/
theorem count_destroy_le_one [DecidableEq δ] {t : Table ρ δ} {as : List (Act ρ δ)}
    (hs : Sound t as) (hf : Fresh t as) (p : ρ) : as.count (.destroy p) ≤ 1 := by
  induction as generalizing t with
  | nil => simp
  | cons a as ih =>
    obtain ⟨-, hs⟩ := hs
    obtain ⟨-, hf⟩ := hf
    by_cases ha : a = .destroy p
    · subst ha
      have hdead : Act.apply t (.destroy p) p = .dead := by simp [Act.apply]
      rw [List.count_cons_self, List.count_eq_zero.mpr (not_destroy_of_dead hs hf hdead)]
    · rw [List.count_cons_of_ne ha]
      exact ih hs hf

/-- In a whole history the dead handles are those that were destroyed once. -/
theorem count_destroy_eq_one_iff [DecidableEq δ] {as : List (Act ρ δ)} {p : ρ}
    (hs : Sound (fun _ => .unborn) as) (hf : Fresh (fun _ => .unborn) as) :
    as.count (.destroy p) = 1 ↔ run (fun _ => .unborn) as p = .dead := by
  constructor
  · intro h
    exact run_dead_of_mem hs hf (List.count_pos_iff.mp (by omega))
  · intro h
    have hpos := List.count_pos_iff.mpr (destroy_of_dead (by simp) h)
    have hle := count_destroy_le_one hs hf p
    omega

/-! ## Inventories -/

/-- `own` lists exactly the live handles of `t`, each once and with its listener. -/
structure Inventory (t : Table ρ δ) (own : Multiset (ρ × Option δ)) : Prop where
  nodup : (own.map Prod.fst).Nodup
  live_iff : ∀ p l, t p = .live l ↔ (p, l) ∈ own

omit [DecidableEq ρ] in
theorem inventory_empty : Inventory (fun _ : ρ => (.unborn : Life δ)) 0 :=
  ⟨by simp, by simp⟩

omit [DecidableEq ρ] in
theorem Inventory.live_of_mem {t : Table ρ δ} {own : Multiset (ρ × Option δ)} {p : ρ}
    (h : Inventory t own) (hp : p ∈ own.map Prod.fst) : ∃ l, t p = .live l := by
  obtain ⟨⟨q, l⟩, hm, rfl⟩ := Multiset.mem_map.mp hp
  exact ⟨l, (h.live_iff _ _).mpr hm⟩

omit [DecidableEq ρ] in
/-- Two entries of an inventory with the same handle are the same entry. -/
theorem Inventory.entry_unique {t : Table ρ δ} {own : Multiset (ρ × Option δ)} {p : ρ}
    {l l' : Option δ} (h : Inventory t own) (h1 : (p, l) ∈ own) (h2 : (p, l') ∈ own) : l = l' := by
  have e1 := (h.live_iff p l).mpr h1
  have e2 := (h.live_iff p l').mpr h2
  rw [e1] at e2
  simpa using e2

theorem Inventory.create {t : Table ρ δ} {own : Multiset (ρ × Option δ)} {p : ρ}
    (h : Inventory t own) (hp : t p = .unborn) :
    Inventory (Act.apply t (.create p)) ({(p, none)} + own) := by
  have hfresh : ∀ l, (p, l) ∉ own := by
    intro l hm
    rw [(h.live_iff p l).mpr hm] at hp
    cases hp
  constructor
  · rw [Multiset.map_add, Multiset.map_singleton, Multiset.singleton_add, Multiset.nodup_cons]
    refine ⟨fun hm => ?_, h.nodup⟩
    obtain ⟨⟨q, l⟩, hm, he⟩ := Multiset.mem_map.mp hm
    simp only at he
    exact hfresh l (he ▸ hm)
  · intro q l
    by_cases hq : q = p
    · subst hq
      simp [Act.apply, hfresh, eq_comm]
    · simp [Act.apply, hq, h.live_iff]

omit [DecidableEq ρ] in
theorem Inventory.not_mem_rest {t : Table ρ δ} {own : Multiset (ρ × Option δ)} {p : ρ}
    {l : Option δ} (h : Inventory t ({(p, l)} + own)) (l' : Option δ) : (p, l') ∉ own := by
  have hn := h.nodup
  rw [Multiset.map_add, Multiset.map_singleton, Multiset.singleton_add, Multiset.nodup_cons] at hn
  exact fun hm => hn.1 (Multiset.mem_map.mpr ⟨_, hm, rfl⟩)

theorem Inventory.listen {t : Table ρ δ} {own : Multiset (ρ × Option δ)} {p : ρ} {l : Option δ}
    (h : Inventory t ({(p, l)} + own)) (d : δ) :
    Inventory (Act.apply t (.listen p d)) ({(p, some d)} + own) := by
  constructor
  · simpa using h.nodup
  · intro q l'
    by_cases hq : q = p
    · subst hq
      simp [Act.apply, h.not_mem_rest, eq_comm]
    · have := h.live_iff q l'
      simp only [Multiset.mem_add, Multiset.mem_singleton, Prod.mk.injEq, hq, false_and,
        false_or] at this
      simp [Act.apply, hq, this]

theorem Inventory.destroy {t : Table ρ δ} {own : Multiset (ρ × Option δ)} {p : ρ} {l : Option δ}
    (h : Inventory t ({(p, l)} + own)) : Inventory (Act.apply t (.destroy p)) own := by
  constructor
  · have hn := h.nodup
    rw [Multiset.map_add] at hn
    exact (Multiset.nodup_add.mp hn).2.1
  · intro q l'
    by_cases hq : q = p
    · subst hq
      simp [Act.apply, h.not_mem_rest]
    · have := h.live_iff q l'
      simp only [Multiset.mem_add, Multiset.mem_singleton, Prod.mk.injEq, hq, false_and,
        false_or] at this
      simp [Act.apply, hq, this]

/-- Handles without listeners. -/
def bare (ps : List ρ) : Multiset (ρ × Option δ) := (ps : Multiset ρ).map fun p => (p, none)

omit [DecidableEq ρ] in
theorem bare_cons (p : ρ) (ps : List ρ) :
    (bare (p :: ps) : Multiset (ρ × Option δ)) = {(p, none)} + bare ps := by
  rw [bare, ← Multiset.cons_coe, Multiset.map_cons, ← Multiset.singleton_add]
  rfl

omit [DecidableEq ρ] in
theorem bare_append (ps qs : List ρ) :
    (bare (ps ++ qs) : Multiset (ρ × Option δ)) = bare ps + bare qs := by
  rw [bare, ← Multiset.coe_add, Multiset.map_add]
  rfl

omit [DecidableEq ρ] in
theorem fst_bare (ps : List ρ) :
    (bare ps : Multiset (ρ × Option δ)).map Prod.fst = (ps : Multiset ρ) := by
  rw [bare, Multiset.map_map]
  exact Multiset.map_id _

omit [DecidableEq ρ] in
theorem mem_bare {ps : List ρ} {p : ρ} {l : Option δ} :
    (p, l) ∈ (bare ps : Multiset (ρ × Option δ)) ↔ p ∈ ps ∧ l = none := by
  simp [bare, eq_comm]

/-- The table where exactly the handles of `ps` were created. -/
def born (ps : List ρ) : Table ρ δ := run (fun _ => .unborn) (ps.map .create)

theorem Inventory.createAll {t : Table ρ δ} {own : Multiset (ρ × Option δ)} (ps : List ρ)
    (h : Inventory t own) (hn : ps.Nodup) (hu : ∀ p ∈ ps, t p = .unborn) :
    Inventory (run t (ps.map .create)) (bare ps + own) := by
  induction ps generalizing t own with
  | nil => simpa [bare] using h
  | cons p ps ih =>
    obtain ⟨hp, hn⟩ := List.nodup_cons.mp hn
    have h' := ih (h.create (hu p List.mem_cons_self)) hn fun q hq => by
      have hne : q ≠ p := fun he => hp (he ▸ hq)
      simp [Act.apply, hne, hu q (List.mem_cons_of_mem _ hq)]
    have he : bare ps + ({(p, none)} + own) = bare (p :: ps) + own := by
      rw [bare_cons]
      abel
    exact he ▸ h'

theorem inventory_born {ps : List ρ} (h : ps.Nodup) :
    Inventory (born ps : Table ρ δ) (bare ps) := by
  rw [← add_zero (bare ps)]
  exact inventory_empty.createAll ps h fun _ _ => rfl

/-! ## Triples -/

/-- Run where `own` and further handles, those of `B` among them, are the
inventory, `acts` is sound and leaves `own'` and the same further handles. -/
def Triple (B : List ρ) (own : Multiset (ρ × Option δ)) (acts : List (Act ρ δ))
    (own' : Multiset (ρ × Option δ)) : Prop :=
  ∀ t rest, (∀ b ∈ B, b ∈ rest.map Prod.fst) → Inventory t (own + rest) → Fresh t acts →
    Sound t acts ∧ Inventory (run t acts) (own' + rest)

variable {B : List ρ} {a b c r : Multiset (ρ × Option δ)} {as bs : List (Act ρ δ)} {p : ρ}
  {l : Option δ}

theorem triple_nil (B : List ρ) (a : Multiset (ρ × Option δ)) : Triple B a [] a :=
  fun _ _ _ h _ => ⟨trivial, h⟩

theorem Triple.append (h1 : Triple B a as b) (h2 : Triple B b bs c) : Triple B a (as ++ bs) c := by
  intro t rest hB hi hf
  rw [fresh_append] at hf
  obtain ⟨hs, hi'⟩ := h1 t rest hB hi hf.1
  obtain ⟨hs', hi''⟩ := h2 _ rest hB hi' hf.2
  rw [run_append, sound_append]
  exact ⟨⟨hs, hs'⟩, hi''⟩

theorem Triple.cons {x : Act ρ δ} (h1 : Triple B a [x] b) (h2 : Triple B b bs c) :
    Triple B a (x :: bs) c :=
  h1.append h2

theorem Triple.cast {a' b' : Multiset (ρ × Option δ)} (h : Triple B a as b) (ha : a = a')
    (hb : b = b') : Triple B a' as b' :=
  ha ▸ hb ▸ h

/-- **Frame rule.** -/
theorem Triple.frame (r : Multiset (ρ × Option δ)) (h : Triple B a as b) :
    Triple B (a + r) as (b + r) := by
  intro t rest hB hi hf
  rw [add_assoc] at hi ⊢
  refine h t (r + rest) (fun q hq => ?_) hi hf
  rw [Multiset.map_add, Multiset.mem_add]
  exact Or.inr (hB q hq)

/-- What code leaves behind joins what was left before. -/
theorem Triple.leave {ps qs : List ρ} {t : Table ρ δ} (h : Triple [] a as (b + bare ps))
    (hi : Inventory t (a + bare qs)) (hf : Fresh t as) :
    Sound t as ∧ Inventory (run t as) (b + bare (ps ++ qs)) := by
  have h := h t (bare qs) (by simp) hi hf
  rwa [add_assoc, ← bare_append] at h

/-- Code that borrows handles may be run where they are owned. -/
theorem Triple.lend {B' : List ρ} (h : Triple B a as b)
    (hr : ∀ q ∈ B, q ∈ B' ∨ q ∈ r.map Prod.fst) : Triple B' (a + r) as (b + r) := by
  intro t rest hB hi hf
  rw [add_assoc] at hi ⊢
  refine h t (r + rest) (fun q hq => ?_) hi hf
  rw [Multiset.map_add, Multiset.mem_add]
  rcases hr q hq with hq | hq
  · exact Or.inr (hB q hq)
  · exact Or.inl hq

theorem triple_create (B : List ρ) (p : ρ) (a : Multiset (ρ × Option δ)) :
    Triple B a [.create p] ({(p, none)} + a) := by
  intro t rest _ hi hf
  refine ⟨⟨fun q hq => by simp [Act.needs] at hq, trivial⟩, ?_⟩
  rw [add_assoc]
  exact hi.create hf.1

theorem triple_use_of_borrowed (hp : p ∈ B) (a : Multiset (ρ × Option δ)) :
    Triple B a [.use p] a := by
  intro t rest hB hi _
  refine ⟨⟨fun q hq => ?_, trivial⟩, hi⟩
  simp only [Act.needs, Option.some.injEq] at hq
  subst hq
  refine hi.live_of_mem ?_
  rw [Multiset.map_add, Multiset.mem_add]
  exact Or.inr (hB _ hp)

theorem triple_use (B : List ρ) (hp : (p, l) ∈ a) : Triple B a [.use p] a := by
  intro t rest _ hi _
  refine ⟨⟨fun q hq => ?_, trivial⟩, hi⟩
  simp only [Act.needs, Option.some.injEq] at hq
  subst hq
  exact ⟨l, (hi.live_iff _ _).mpr (Multiset.mem_add.mpr (Or.inl hp))⟩

theorem triple_listen (B : List ρ) (p : ρ) (l : Option δ) (d : δ) (a : Multiset (ρ × Option δ)) :
    Triple B ({(p, l)} + a) [.listen p d] ({(p, some d)} + a) := by
  intro t rest _ hi _
  rw [add_assoc] at hi ⊢
  refine ⟨⟨fun q hq => ?_, trivial⟩, hi.listen d⟩
  simp only [Act.needs, Option.some.injEq] at hq
  subst hq
  exact hi.live_of_mem (by simp)

theorem triple_destroy (B : List ρ) (p : ρ) (l : Option δ) (a : Multiset (ρ × Option δ)) :
    Triple B ({(p, l)} + a) [.destroy p] a := by
  intro t rest _ hi _
  rw [add_assoc] at hi
  refine ⟨⟨fun q hq => ?_, trivial⟩, hi.destroy⟩
  simp only [Act.needs, Option.some.injEq] at hq
  subst hq
  exact hi.live_of_mem (by simp)

/-! ## Optional handles -/

/-- What a field that is `NULL` or a handle with listener `l` owns. -/
def held (p : Option ρ) (l : Option δ) : Multiset (ρ × Option δ) :=
  match p with
  | none => 0
  | some p => {(p, l)}

omit [DecidableEq ρ] in
@[simp] theorem held_none (l : Option δ) : held (none : Option ρ) l = 0 := rfl

omit [DecidableEq ρ] in
@[simp] theorem held_some (p : ρ) (l : Option δ) : held (some p) l = {(p, l)} := rfl

omit [DecidableEq ρ] in
theorem mem_held {q : Option ρ} {l' : Option δ} : (p, l) ∈ held q l' ↔ q = some p ∧ l = l' := by
  cases q with
  | none => simp
  | some q => simp [eq_comm]

/-- Destroying what a field owns, if it owns anything. -/
theorem triple_destroy_held (B : List ρ) (q : Option ρ) (l : Option δ)
    (a : Multiset (ρ × Option δ)) : Triple B (held q l + a) (q.toList.map Act.destroy) a := by
  cases q with
  | none => simpa using triple_nil B a
  | some q => exact triple_destroy B q l a

end Ownership
