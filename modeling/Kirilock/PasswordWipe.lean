import Kirilock.PasswordVerdict

/-!
Where the password is.

`verify` sets `candidate_` only where no worker is left, and hands it to the worker
it makes, or wipes it where it makes none; `cleanup` wipes what the worker had.  So
there is a password only while `verify` or a worker holds it, every one is wiped
before the next, and none is dropped unwiped (`Hygienic`), in every run.
-/

namespace Auth.Password

open Runs

theorem secureClear_eq (v : List UInt8) : secureClear v = List.replicate v.length 0 := by
  induction v with
  | nil => rfl
  | cons b v ih => rw [secureClear, ih, List.length_cons, List.replicate_succ]

/-! ## The rule -/

/-- `cleanup` is past its `clear_candidate`. -/
def WorkerPc.cleared : WorkerPc → Bool
  | .storeStopped => true
  | .exited => true
  | _ => false

structure Hygienic (s : State) : Prop where
  /-- outside `verify` and the worker there is no password -/
  empty : s.client.verifying = false → (∀ w, s.worker = some w → w.pc.cleared = true) →
    s.obj.candidate = []
  /-- a password that goes away was overwritten with zeros -/
  wiped : ∀ i s' out, machine.step s i = some (s', out) → s.obj.candidate ≠ [] →
    s'.obj.candidate = [] → .cleared (List.replicate s.obj.candidate.length 0) ∈ out
  /-- `verify` assigns where there is none -/
  assigned : ∀ pass, s.client = .assign pass → s.obj.candidate = []

/-! ## The invariant -/

/-- `verify` has assigned the password and has not returned. -/
def ClientPc.holds : ClientPc → Bool
  | .create => true
  | .catchStore => true
  | .catchClear => true
  | _ => false

/-- The client or the worker holds the password. -/
def Held (s : State) : Prop :=
  s.obj.candidate = [] ∨ s.client.holds = true ∨
    ∃ w, s.worker = some w ∧ w.pc.cleared = false

theorem Members.clearCandidate_wiped (p : Members) (h : p.candidate ≠ []) :
    p.clearCandidate.2 = [.cleared (List.replicate p.candidate.length 0)] := by
  unfold Members.clearCandidate
  rw [if_neg fun he => h (List.isEmpty_iff.mp he), secureClear_eq]

theorem StopStep.candidate {p p' : Members} {pc : StopPc} {pc' : Option StopPc}
    {out : List Item} (h : StopStep p pc pc' p' out) : p'.candidate = p.candidate := by
  cases h <;> rfl

theorem Replaces.holds {s : State} {pc : StopPc} {pc' : Option StopPc} {client : ClientPc}
    {stops : List StopPc} (h : Replaces s pc pc' client stops) : client.holds = s.client.holds := by
  cases h with
  | client hpc => cases pc' <;> rw [hpc] <;> rfl
  | delete hpc => cases pc' <;> rw [hpc] <;> rfl
  | other l1 l2 hs => rfl

/-- The worker leaves the password as it is, or wipes it. -/
theorem WorkerStep.candidate {s : State} {w : Worker} {o : WorkerOutcomes} {p : Members}
    {cs : List Child} {pc : WorkerPc} {out : List Item} (h : WorkerStep s w o p cs pc out) :
    p.candidate = s.obj.candidate ∧ (w.pc.cleared = false → pc.cleared = false) ∨
      p.candidate = [] ∧ out = s.obj.clearCandidate.2 := by
  cases h with
  | cleared hpc => exact Or.inr ⟨s.obj.clearCandidate_candidate, rfl⟩
  | stopped hpc => exact Or.inl ⟨rfl, fun h => by rw [hpc] at h; cases h⟩
  | called hpc =>
    refine Or.inl ⟨rfl, fun _ => ?_⟩
    generalize w.pc = wpc at hpc
    cases hpc <;> rfl
  | tested hpc =>
    generalize w.pc = wpc at hpc ⊢
    generalize s.obj.isRunning = running at hpc
    refine Or.inl ⟨rfl, fun _ => ?_⟩
    cases hpc <;> rfl
  | _ => exact Or.inl ⟨rfl, fun _ => rfl⟩

/-- The client leaves the password as it is, or wipes it, or sets it. -/
theorem ClientStep.candidate {s : State} {p : Members} {w : Option Worker} {pc : ClientPc}
    {out : List Item} (h : ClientStep s p w pc out) :
    p.candidate = s.obj.candidate ∨
      p.candidate = [] ∧ (∀ x ∈ s.obj.clearCandidate.2, x ∈ out) ∨
      ∃ pass, s.client = .assign pass := by
  cases h with
  | assigned pass hpc => exact Or.inr (Or.inr ⟨pass, hpc⟩)
  | failed hpc =>
    exact Or.inr (Or.inl ⟨s.obj.clearCandidate_candidate, fun x hx => List.mem_append_left _ hx⟩)
  | deleteCleared hpc => exact Or.inr (Or.inl ⟨s.obj.clearCandidate_candidate, fun x hx => hx⟩)
  | _ => exact Or.inl rfl

section Steps

variable {s s' : State}

theorem Held.keeps (h : Held s) (hc : s'.obj.candidate = s.obj.candidate)
    (hcl : s.client.holds = true → s'.client.holds = true) (hw : s'.worker = s.worker) :
    Held s' := by
  rcases h with h | h | ⟨w, h⟩
  · exact Or.inl (hc.trans h)
  · exact Or.inr (Or.inl (hcl h))
  · exact Or.inr (Or.inr ⟨w, hw ▸ h⟩)

/-- Where neither holds it there is none. -/
theorem Held.empty (h : Held s) (hc : s.client.holds = false)
    (hw : ∀ w, s.worker = some w → w.pc.cleared = true) : s.obj.candidate = [] := by
  rcases h with h | h | ⟨w, hworker, h⟩
  · exact h
  · rw [hc] at h
    cases h
  · rw [hw w hworker] at h
    cases h

theorem ClientStep.held {p : Members} {w : Option Worker} {pc : ClientPc} {out : List Item}
    (h : ClientStep s p w pc out) (hinv : Held s) :
    Held { s with obj := p, worker := w, client := pc } := by
  have hexited : (∀ w, s.worker = some w → w.pc = .exited) → s.client.holds = false →
      s.obj.candidate = [] := fun hw hc =>
    hinv.empty hc fun w hworker => by rw [hw w hworker]; rfl
  cases h with
  | refused pass hpc hr => exact hinv.keeps rfl (fun h => by rw [hpc] at h; cases h) rfl
  | claimed pass hpc hr => exact hinv.keeps rfl (fun h => by rw [hpc] at h; cases h) rfl
  | joined pass hpc hw => exact Or.inl (hexited hw (by rw [hpc]; rfl))
  | threw hpc => exact Or.inr (Or.inl rfl)
  | assigned pass hpc => exact Or.inr (Or.inl rfl)
  | created hpc => exact Or.inr (Or.inr ⟨_, rfl, rfl⟩)
  | caught hpc => exact Or.inr (Or.inl rfl)
  | failed hpc => exact Or.inl s.obj.clearCandidate_candidate
  | deleteJoined hpc hw => exact Or.inl (hexited hw (by rw [hpc]; rfl))
  | deleteCleared hpc => exact Or.inl s.obj.clearCandidate_candidate
  | deleted hpc hs => exact hinv.keeps rfl (fun h => by rw [hpc] at h; cases h) rfl

end Steps

theorem held_reach {s : State} {tr : List Item} (h : machine.Reach s tr) : Held s := by
  refine h.invariant (I := fun s _ => Held s) ?_ ?_
  · rintro s ⟨handlers, rfl⟩
    exact Or.inl rfl
  · intro s tr i s' out hinv _ hs
    cases machine_step hs with
    | verify pass hpc => exact hinv.keeps rfl (fun h => by rw [hpc] at h; cases h) rfl
    | stop hpc => exact hinv.keeps rfl (fun h => by rw [hpc] at h; cases h) rfl
    | delete hpc => exact hinv.keeps rfl (fun h => by rw [hpc] at h; cases h) rfl
    | client ok p w pc out h => exact h.held hinv
    | otherStop hpc => exact hinv.keeps rfl id rfl
    | stopStep i pc pc' client stops p out hi hr h =>
      exact hinv.keeps h.candidate (fun hc => hr.holds.trans hc) rfl
    | worker o w p cs pc out hw h =>
      rcases h.candidate with ⟨hc, hcleared⟩ | ⟨hc, -⟩
      · rcases hinv with h0 | h0 | ⟨w', hw', h0⟩
        · exact Or.inl (hc.trans h0)
        · exact Or.inr (Or.inl h0)
        · rw [hw] at hw'
          cases hw'
          exact Or.inr (Or.inr ⟨_, rfl, hcleared h0⟩)
      · exact Or.inl hc
    | childEnds pid run c hc hpid hrun => exact hinv.keeps rfl id rfl

/-- What a step does to the password. -/
theorem step_candidate {s s' : State} {i : Input} {out : List Item}
    (hs : machine.step s i = some (s', out)) :
    s'.obj.candidate = s.obj.candidate ∨
      s'.obj.candidate = [] ∧ (∀ x ∈ s.obj.clearCandidate.2, x ∈ out) ∨
      ∃ pass, s.client = .assign pass := by
  cases machine_step hs with
  | client ok p w pc out h => exact h.candidate
  | stopStep i pc pc' client stops p out hi hr h => exact Or.inl h.candidate
  | worker o w p cs pc out hw h =>
    rcases h.candidate with ⟨hc, -⟩ | ⟨hc, rfl⟩
    · exact Or.inl hc
    · exact Or.inr (Or.inl ⟨hc, fun x hx => hx⟩)
  | _ => exact Or.inl rfl

/-! ## Every run -/

/-- **A password is there only while `verify` or the worker holds it, and every one is wiped**,
in every run. -/
theorem password_hygienic {s : State} {tr : List Item} (h : machine.Reach s tr) : Hygienic s := by
  have hheld := held_reach h
  have hassigned : ∀ pass, s.client = .assign pass → s.obj.candidate = [] := by
    intro pass hpc
    have hw := unjoinable_reach h (by rw [hpc]; rfl)
    exact hheld.empty (by rw [hpc]; rfl) fun w hworker => by rw [hw] at hworker; cases hworker
  refine ⟨fun hc hw => ?_, fun i s' out hs hne hempty => ?_, hassigned⟩
  · refine hheld.empty ?_ hw
    cases hpc : s.client with
    | create | catchStore | catchClear => rw [hpc] at hc; cases hc
    | _ => rfl
  · rcases step_candidate hs with hsame | ⟨-, hcleared⟩ | ⟨pass, hpc⟩
    · exact absurd (hsame.symm.trans hempty) hne
    · apply hcleared
      rw [s.obj.clearCandidate_wiped hne]
      exact List.mem_singleton_self _
    · exact absurd (hassigned pass hpc) hne

/-- The attempt succeeded there, and its password is gone. -/
theorem password_hygienic_successRun :
    (successRun.1.client.verifying = false ∧ .cleared [0, 0] ∈ successRun.2) ∧
      Hygienic successRun.1 :=
  ⟨by decide, password_hygienic (Machine.reach_exec (start_init _) successRun_isSome)⟩

end Auth.Password
