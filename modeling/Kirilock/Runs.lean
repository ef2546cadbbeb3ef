import Mathlib.Data.List.Basic

/-!
Machines and the runs they can make.

A machine takes one input at a time (who moves next, and what the outside
answers) and either refuses it or moves and emits a list of items.  A run is
a state together with everything emitted so far (`ReachIf`); `ok` is the set of
steps a run may take, so "every run whose steps all meet a condition" is
`ReachIf ok` and "every run" is `Reach`.

* `ReachIf.invariant`: what holds at the start and is kept by every step holds
  in every run.
* `Always P tr`: `P` holds of every item of `tr` together with the items before it.
* `exec`: runs that can be evaluated, and `reachIf_of_exec` which makes them runs.
* `InStep`: two machines that answer alike, step by step, answer alike over whole runs.
* `after`: the runs that begin in a given state.  `noting`: a history variable.
* `Breaks`: a run can go on against a rule.
* `Alternate`: items that open and items that close take turns.
-/

namespace Runs

/-- `step s i = none`: the input is not possible in `s`. -/
structure Machine (σ ι ω : Type) where
  init : σ → Prop
  step : σ → ι → Option (σ × List ω)

variable {σ ι ω : Type} {M : Machine σ ι ω}

/-! ## Runs -/

/-- The runs of `M` whose steps all meet `ok` (a condition on the state before
the step, the items so far and the input). -/
inductive Machine.ReachIf (M : Machine σ ι ω) (ok : σ → List ω → ι → Prop) : σ → List ω → Prop
  | init {s : σ} : M.init s → M.ReachIf ok s []
  | step {s s' : σ} {tr out : List ω} {i : ι} : M.ReachIf ok s tr → ok s tr i →
      M.step s i = some (s', out) → M.ReachIf ok s' (tr ++ out)

/-- All the runs of `M`. -/
abbrev Machine.Reach (M : Machine σ ι ω) : σ → List ω → Prop := M.ReachIf fun _ _ _ => True

theorem Machine.ReachIf.invariant {ok : σ → List ω → ι → Prop} {I : σ → List ω → Prop}
    (hinit : ∀ s, M.init s → I s [])
    (hstep : ∀ s tr i s' out, I s tr → ok s tr i → M.step s i = some (s', out) → I s' (tr ++ out))
    {s : σ} {tr : List ω} (h : M.ReachIf ok s tr) : I s tr := by
  induction h with
  | init h => exact hinit _ h
  | step _ hok hs ih => exact hstep _ _ _ _ _ ih hok hs

theorem Machine.ReachIf.mono {ok ok' : σ → List ω → ι → Prop}
    (himp : ∀ s tr i, ok s tr i → ok' s tr i) {s : σ} {tr : List ω} (h : M.ReachIf ok s tr) :
    M.ReachIf ok' s tr := by
  induction h with
  | init h => exact .init h
  | step _ hok hs ih => exact .step ih (himp _ _ _ hok) hs

theorem Machine.ReachIf.reach {ok : σ → List ω → ι → Prop} {s : σ} {tr : List ω}
    (h : M.ReachIf ok s tr) : M.Reach s tr :=
  h.mono fun _ _ _ _ => trivial

/-- An invariant of all runs may be used in the proof of another one. -/
theorem Machine.ReachIf.invariant_of {ok : σ → List ω → ι → Prop} {J I : σ → List ω → Prop}
    (hJ : ∀ {s tr}, M.ReachIf ok s tr → J s tr)
    (hinit : ∀ s, M.init s → I s [])
    (hstep : ∀ s tr i s' out, J s tr → I s tr → ok s tr i → M.step s i = some (s', out) →
      I s' (tr ++ out))
    {s : σ} {tr : List ω} (h : M.ReachIf ok s tr) : I s tr := by
  induction h with
  | init h => exact hinit _ h
  | step hr hok hs ih => exact hstep _ _ _ _ _ (hJ hr) ih hok hs

/-- Conditions that agree on every step that a run can take have the same runs. -/
theorem Machine.reachIf_congr {ok ok' : σ → List ω → ι → Prop}
    (h : ∀ s tr i s' out, M.Reach s tr → M.step s i = some (s', out) →
      (ok s tr i ↔ ok' s tr i)) {s : σ} {tr : List ω} :
    M.ReachIf ok s tr ↔ M.ReachIf ok' s tr := by
  constructor
  · intro hr
    induction hr with
    | init hi => exact .init hi
    | step hr hok hs ih => exact .step ih ((h _ _ _ _ _ hr.reach hs).mp hok) hs
  · intro hr
    induction hr with
    | init hi => exact .init hi
    | step hr hok hs ih => exact .step ih ((h _ _ _ _ _ hr.reach hs).mpr hok) hs

/-- A property that is kept by exactly the steps that meet `ok`. -/
theorem Machine.reachIf_iff {ok : σ → List ω → ι → Prop} {P : σ → List ω → Prop}
    (hinit : ∀ s, M.init s → P s [])
    (hstep : ∀ s tr i s' out, M.Reach s tr → M.step s i = some (s', out) →
      (P s' (tr ++ out) ↔ P s tr ∧ ok s tr i)) {s : σ} {tr : List ω} :
    M.ReachIf ok s tr ↔ M.Reach s tr ∧ P s tr := by
  constructor
  · intro h
    refine ⟨h.reach, ?_⟩
    induction h with
    | init hi => exact hinit _ hi
    | step hr hok hs ih => exact (hstep _ _ _ _ _ hr.reach hs).mpr ⟨ih, hok⟩
  · rintro ⟨h, hP⟩
    induction h with
    | init hi => exact .init hi
    | step hr _ hs ih =>
      obtain ⟨hP', hok⟩ := (hstep _ _ _ _ _ hr hs).mp hP
      exact .step (ih hP') hok hs

/-! ## Runs from a state -/

/-- `M`, begun in `s`. -/
def Machine.after (M : Machine σ ι ω) (s : σ) : Machine σ ι ω := { M with init := (· = s) }

/-- A run and one that begins where it ends are one run. -/
theorem Machine.reach_append {ok ok' : σ → List ω → ι → Prop} {s s' : σ} {tr out : List ω}
    (h : M.ReachIf ok s tr) (h' : (M.after s).ReachIf ok' s' out) : M.Reach s' (tr ++ out) := by
  induction h' with
  | init he =>
    cases he
    simpa using h.reach
  | step _ _ hs ih =>
    rw [← List.append_assoc]
    exact .step ih trivial hs

/-! ## History variables -/

/-- `M` with a variable that every step updates and none reads. -/
def Machine.noting {γ : Type} (M : Machine σ ι ω) (g0 : γ) (note : γ → σ → ι → γ) :
    Machine (σ × γ) ι ω where
  init s := M.init s.1 ∧ s.2 = g0
  step s i := (M.step s.1 i).map fun r => ((r.1, note s.2 s.1 i), r.2)

section Noting

variable {γ : Type} {g0 : γ} {note : γ → σ → ι → γ}

theorem Machine.noting_step {s : σ × γ} {i : ι} {s' : σ × γ} {out : List ω}
    (h : (M.noting g0 note).step s i = some (s', out)) :
    M.step s.1 i = some (s'.1, out) ∧ s'.2 = note s.2 s.1 i := by
  obtain ⟨r, hr, he⟩ := Option.map_eq_some_iff.mp h
  cases he
  exact ⟨hr, rfl⟩

/-- The variable changes no run, … -/
theorem Machine.ReachIf.of_noting {ok : σ × γ → List ω → ι → Prop} {s : σ × γ} {tr : List ω}
    (h : (M.noting g0 note).ReachIf ok s tr) : M.Reach s.1 tr := by
  induction h with
  | init h => exact .init h.1
  | step _ _ hs ih => exact .step ih trivial (Machine.noting_step hs).1

/-- … and every run has it. -/
theorem Machine.ReachIf.noting {ok : σ → List ω → ι → Prop} {s : σ} {tr : List ω}
    (h : M.ReachIf ok s tr) :
    ∃ g, (M.noting g0 note).ReachIf (fun s tr i => ok s.1 tr i) (s, g) tr := by
  induction h with
  | init h => exact ⟨g0, .init ⟨h, rfl⟩⟩
  | @step s s' _ _ i _ hok hs ih =>
    obtain ⟨g, hg⟩ := ih
    exact ⟨note g s i, .step hg hok (by simp [Machine.noting, hs])⟩

end Noting

/-! ## Runs that can be evaluated -/

/-- The run that the inputs `is` make from `s`, `none` where one is refused. -/
def Machine.exec (M : Machine σ ι ω) : σ → List ι → Option (σ × List ω)
  | s, [] => some (s, [])
  | s, i :: is =>
    match M.step s i with
    | none => none
    | some (s', out) =>
      match M.exec s' is with
      | none => none
      | some (s'', out') => some (s'', out ++ out')

/-- Every step of the run that `is` makes from `s` (after the items `tr`) meets `ok`. -/
def Machine.Meets (M : Machine σ ι ω) (ok : σ → List ω → ι → Prop) : σ → List ω → List ι → Prop
  | _, _, [] => True
  | s, tr, i :: is => ok s tr i ∧
    match M.step s i with
    | none => True
    | some (s', out) => M.Meets ok s' (tr ++ out) is

instance Machine.decidableMeets {ok : σ → List ω → ι → Prop} [∀ s tr i, Decidable (ok s tr i)] :
    (s : σ) → (tr : List ω) → (is : List ι) → Decidable (M.Meets ok s tr is)
  | _, _, [] => .isTrue trivial
  | s, tr, i :: is =>
    have : Decidable (match M.step s i with
        | none => True
        | some (s', out) => M.Meets ok s' (tr ++ out) is) :=
      match M.step s i with
      | none => .isTrue trivial
      | some (s', out) => Machine.decidableMeets s' (tr ++ out) is
    inferInstanceAs (Decidable (_ ∧ _))

theorem Machine.reachIf_append_exec {ok : σ → List ω → ι → Prop} (is : List ι) {s s' : σ}
    {tr out : List ω} (h : M.ReachIf ok s tr) (hok : M.Meets ok s tr is)
    (he : M.exec s is = some (s', out)) : M.ReachIf ok s' (tr ++ out) := by
  induction is generalizing s tr out with
  | nil =>
    simp only [Machine.exec, Option.some.injEq, Prod.mk.injEq] at he
    obtain ⟨rfl, rfl⟩ := he
    simpa using h
  | cons i is ih =>
    obtain ⟨h1, h2⟩ := hok
    cases hs : M.step s i with
    | none => simp [Machine.exec, hs] at he
    | some r =>
      obtain ⟨s1, out1⟩ := r
      simp only [Machine.exec, hs] at he
      simp only [hs] at h2
      cases hr : M.exec s1 is with
      | none => simp [hr] at he
      | some r2 =>
        obtain ⟨s2, out2⟩ := r2
        simp only [hr, Option.some.injEq, Prod.mk.injEq] at he
        obtain ⟨rfl, rfl⟩ := he
        rw [← List.append_assoc]
        exact ih (h.step h1 hs) h2 hr

theorem Machine.reachIf_of_exec {ok : σ → List ω → ι → Prop} (is : List ι) {s s' : σ} {out : List ω}
    (h0 : M.init s) (hok : M.Meets ok s [] is) (he : M.exec s is = some (s', out)) :
    M.ReachIf ok s' out :=
  Machine.reachIf_append_exec is (.init h0) hok he

theorem Machine.meets_true (is : List ι) (s : σ) (tr : List ω) :
    M.Meets (fun _ _ _ => True) s tr is := by
  induction is generalizing s tr with
  | nil => trivial
  | cons i is ih =>
    refine ⟨trivial, ?_⟩
    cases M.step s i with
    | none => trivial
    | some r => exact ih _ _

/-- A run that was evaluated, all of whose steps meet `ok`. -/
theorem Machine.reachIf_exec {ok : σ → List ω → ι → Prop} {s : σ} {is : List ι} (h0 : M.init s)
    (hok : M.Meets ok s [] is) (h : (M.exec s is).isSome) :
    M.ReachIf ok ((M.exec s is).get h).1 ((M.exec s is).get h).2 :=
  Machine.reachIf_of_exec is h0 hok (Option.some_get h).symm

/-- A run that was evaluated is a run. -/
theorem Machine.reach_exec {s : σ} {is : List ι} (h0 : M.init s) (h : (M.exec s is).isSome) :
    M.Reach ((M.exec s is).get h).1 ((M.exec s is).get h).2 :=
  Machine.reachIf_exec h0 (Machine.meets_true is s []) h

/-- After the items `tr` the machine can go on from `s` against the rule. -/
def Machine.Breaks (M : Machine σ ι ω) (rule : List ω → Prop) (s : σ) (tr : List ω) : Prop :=
  ∃ is s' out, M.exec s is = some (s', out) ∧ ¬rule (tr ++ out)

theorem Machine.Breaks.now {rule : List ω → Prop} {s : σ} {tr : List ω} (h : ¬rule tr) :
    M.Breaks rule s tr :=
  ⟨[], s, [], rfl, by rwa [List.append_nil]⟩

theorem Machine.Breaks.step {rule : List ω → Prop} {s : σ} {tr : List ω} (i : ι) (s' : σ)
    (out : List ω) (hs : M.step s i = some (s', out)) (h : M.Breaks rule s' (tr ++ out)) :
    M.Breaks rule s tr := by
  obtain ⟨is, s2, out2, he, hnot⟩ := h
  refine ⟨i :: is, s2, out ++ out2, ?_, by rwa [← List.append_assoc]⟩
  simp [Machine.exec, hs, he]

/-! ## Two machines in step -/

section InStep

variable {σ' ι' ω' θ : Type} {N : Machine σ' ι' ω'}

/-- Neither machine moves, or both do, to states that are related and with the same view. -/
inductive InStep (R : σ → σ' → Prop) (view : ω → Option θ) (view' : ω' → Option θ) :
    Option (σ × List ω) → Option (σ' × List ω') → Prop
  | refused : InStep R view view' none none
  | moved {s : σ} {t : σ'} {out : List ω} {out' : List ω'} (hR : R s t)
      (hv : out.filterMap view = out'.filterMap view') :
      InStep R view view' (some (s, out)) (some (t, out'))

/-- Machines that keep in step on corresponding inputs keep in step over whole runs. -/
theorem Machine.exec_inStep {R : σ → σ' → Prop} {view : ω → Option θ} {view' : ω' → Option θ}
    {ok : σ → List ω → ι → Prop} {C : ι → ι' → Prop}
    (hstep : ∀ s tr t i j, R s t → ok s tr i → C i j →
      InStep R view view' (M.step s i) (N.step t j))
    {is : List ι} {js : List ι'} (hC : List.Forall₂ C is js) {s : σ} {t : σ'} {tr : List ω}
    (hR : R s t) (hok : M.Meets ok s tr is) :
    InStep R view view' (M.exec s is) (N.exec t js) := by
  induction hC generalizing s t tr with
  | nil => exact .moved hR rfl
  | @cons i j is js hij _ ih =>
    obtain ⟨hi, hrest⟩ := hok
    have hs := hstep s tr t i j hR hi hij
    unfold Machine.exec
    generalize M.step s i = r at hs hrest ⊢
    generalize N.step t j = r' at hs ⊢
    cases hs with
    | refused => exact .refused
    | @moved s1 t1 out out' hR1 hv1 =>
      have hs' := ih hR1 hrest
      show InStep R view view'
        (match M.exec s1 is with
          | none => none
          | some (s2, out2) => some (s2, out ++ out2))
        (match N.exec t1 js with
          | none => none
          | some (t2, out2') => some (t2, out' ++ out2'))
      generalize M.exec s1 is = r at hs' ⊢
      generalize N.exec t1 js = r' at hs' ⊢
      cases hs' with
      | refused => exact .refused
      | moved hR2 hv2 =>
        refine .moved hR2 ?_
        rw [List.filterMap_append, List.filterMap_append, hv1, hv2]

end InStep

/-! ## History predicates -/

/-- `P` holds of every item of `tr` together with the items before it. -/
def Always (P : List ω → ω → Prop) (tr : List ω) : Prop :=
  ∀ pre c post, tr = pre ++ c :: post → P pre c

theorem always_nil (P : List ω → ω → Prop) : Always P [] := by
  intro pre c post h
  simp at h

theorem always_append {P : List ω → ω → Prop} {tr out : List ω} :
    Always P (tr ++ out) ↔ Always P tr ∧ Always (fun pre c => P (tr ++ pre) c) out := by
  constructor
  · intro h
    refine ⟨fun pre c post he => h pre c (post ++ out) (by simp [he]), fun pre c post he => ?_⟩
    exact h (tr ++ pre) c post (by simp [he])
  · rintro ⟨h1, h2⟩ pre c post he
    rcases List.append_eq_append_iff.mp he with ⟨as, rfl, has⟩ | ⟨bs, rfl, hbs⟩
    · exact h2 as c post has
    · cases bs with
      | nil =>
        have := h2 [] c post (by simpa using hbs.symm)
        simpa using this
      | cons b bs =>
        simp only [List.cons_append, List.cons.injEq] at hbs
        obtain ⟨rfl, rfl⟩ := hbs
        exact h1 pre c bs rfl

@[simp] theorem always_nil_iff (P : List ω → ω → Prop) : Always P [] ↔ True :=
  iff_true_intro (always_nil P)

@[simp] theorem always_cons {P : List ω → ω → Prop} {c : ω} {tr : List ω} :
    Always P (c :: tr) ↔ P [] c ∧ Always (fun pre d => P (c :: pre) d) tr := by
  constructor
  · intro h
    exact ⟨h [] c tr rfl, fun pre d post he => h (c :: pre) d post (by simp [he])⟩
  · rintro ⟨h1, h2⟩ pre d post he
    cases pre with
    | nil =>
      simp only [List.nil_append, List.cons.injEq] at he
      rw [← he.1]
      exact h1
    | cons b pre =>
      simp only [List.cons_append, List.cons.injEq] at he
      obtain ⟨rfl, rfl⟩ := he
      exact h2 pre d post rfl

theorem always_snoc {P : List ω → ω → Prop} {tr : List ω} {c : ω} :
    Always P (tr ++ [c]) ↔ Always P tr ∧ P tr c := by
  simp [always_append]

/-- The first item that meets `p`, with the items before it. -/
theorem Always.first {P : List ω → ω → Prop} {tr : List ω} (h : Always P tr) {p : ω → Bool}
    (hp : tr.any p = true) : ∃ c, p c = true ∧ P (tr.takeWhile fun x => !p x) c := by
  induction tr generalizing P with
  | nil => simp at hp
  | cons d tr ih =>
    obtain ⟨hd, htr⟩ := always_cons.mp h
    by_cases hpd : p d = true
    · exact ⟨d, hpd, by simpa [hpd] using hd⟩
    · obtain ⟨c, hc, hP⟩ := ih htr (by simpa [hpd] using hp)
      exact ⟨c, hc, by simpa [hpd] using hP⟩

/-- A condition that does not look at the past. -/
theorem always_of_forall {P : List ω → ω → Prop} {tr : List ω} (h : ∀ c ∈ tr, ∀ pre, P pre c) :
    Always P tr := by
  rintro pre c post rfl
  exact h c (by simp) pre

theorem Always.append_of_forall {P : List ω → ω → Prop} {tr out : List ω} (h : Always P tr)
    (hout : ∀ c ∈ out, ∀ pre, P pre c) : Always P (tr ++ out) :=
  always_append.mpr ⟨h, always_of_forall fun c hc pre => hout c hc (tr ++ pre)⟩

/-- A rule that can be checked can be checked along a trace. -/
instance decidableAlways : {P : List ω → ω → Prop} → [∀ pre c, Decidable (P pre c)] →
    (tr : List ω) → Decidable (Always P tr)
  | P, _, [] => .isTrue (always_nil P)
  | P, _, c :: tr =>
    have := decidableAlways (P := fun pre d => P (c :: pre) d) tr
    decidable_of_iff (P [] c ∧ Always (fun pre d => P (c :: pre) d) tr) always_cons.symm

/-! ## Openings and closings -/

section Alternate

variable {opens closes : ω → Bool}

def Brackets.next (opens closes : ω → Bool) (b : Bool) (x : ω) : Bool :=
  if opens x then true else if closes x then false else b

/-- The last item that opened or closed opened. -/
def isOpen (opens closes : ω → Bool) (tr : List ω) : Bool :=
  tr.foldl (Brackets.next opens closes) false

def AlternateRule (opens closes : ω → Bool) (pre : List ω) (c : ω) : Prop :=
  (opens c = true → isOpen opens closes pre = false) ∧
    (closes c = true → isOpen opens closes pre = true)

/-- Items that open and items that close take turns, and the first one opens. -/
def Alternate (opens closes : ω → Bool) (tr : List ω) : Prop :=
  Always (AlternateRule opens closes) tr

instance (pre : List ω) (c : ω) : Decidable (AlternateRule opens closes pre c) :=
  inferInstanceAs (Decidable (_ ∧ _))

instance (tr : List ω) : Decidable (Alternate opens closes tr) := decidableAlways tr

@[simp] theorem isOpen_snoc (tr : List ω) (x : ω) :
    isOpen opens closes (tr ++ [x]) = Brackets.next opens closes (isOpen opens closes tr) x := by
  simp [isOpen]

theorem isOpen_append_of_neither {tr out : List ω}
    (h : ∀ x ∈ out, opens x = false ∧ closes x = false) :
    isOpen opens closes (tr ++ out) = isOpen opens closes tr := by
  induction out generalizing tr with
  | nil => simp
  | cons x out ih =>
    obtain ⟨ho, hc⟩ := h x (by simp)
    rw [List.append_cons, ih fun y hy => h y (by simp [hy]), isOpen_snoc]
    simp [Brackets.next, ho, hc]

theorem Alternate.append_of_neither {tr out : List ω} (h : Alternate opens closes tr)
    (hout : ∀ x ∈ out, opens x = false ∧ closes x = false) :
    Alternate opens closes (tr ++ out) :=
  Always.append_of_forall h fun x hx _ => by
    obtain ⟨ho, hc⟩ := hout x hx
    simp [AlternateRule, ho, hc]

theorem Alternate.opened {tr : List ω} {x : ω} (h : Alternate opens closes tr)
    (hopen : isOpen opens closes tr = false) (hc : closes x = false) :
    Alternate opens closes (tr ++ [x]) :=
  always_snoc.mpr ⟨h, fun _ => hopen, fun hx => by rw [hc] at hx; cases hx⟩

theorem Alternate.closed {tr : List ω} {x : ω} (h : Alternate opens closes tr)
    (hopen : isOpen opens closes tr = true) (ho : opens x = false) :
    Alternate opens closes (tr ++ [x]) :=
  always_snoc.mpr ⟨h, fun hx => absurd (ho.symm.trans hx) nofun, fun _ => hopen⟩

end Alternate

end Runs
