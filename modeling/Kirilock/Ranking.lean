import Mathlib.Data.List.Count
import Kirilock.Runs

/-!
Runs that come to an end.

`Ranked M I rank cost gain`: in the phase `I` every step takes its cost off the rank, except
that some steps add to it.  So whatever the schedule, what it costs is bounded by the rank and
what was added (`Ranked.exec`).  And where before the end some step always lowers the rank, the
end can be reached (`completes`, `Ranked.completes`).
-/

namespace Runs

variable {σ ι ω : Type}

/-- What a list adds up to. -/
def total (f : ι → Nat) : List ι → Nat
  | [] => 0
  | i :: is => f i + total f is

@[simp]
theorem total_nil (f : ι → Nat) : total f [] = 0 := rfl

@[simp]
theorem total_cons (f : ι → Nat) (i : ι) (is : List ι) : total f (i :: is) = f i + total f is := rfl

@[simp]
theorem total_append (f : ι → Nat) (is js : List ι) :
    total f (is ++ js) = total f is + total f js := by
  induction is with
  | nil => rw [List.nil_append, total_nil, Nat.zero_add]
  | cons i is ih => rw [List.cons_append, total_cons, total_cons, ih, Nat.add_assoc]

theorem total_const (n : Nat) (is : List ι) : total (fun _ => n) is = n * is.length := by
  induction is with
  | nil => rfl
  | cons i is ih => rw [total_cons, ih, List.length_cons, Nat.mul_succ, Nat.add_comm]

/-- What costs something except where it adds something. -/
theorem total_ite (p : ι → Bool) (n : Nat) (is : List ι) :
    total (fun i => if p i then n else 0) is = n * is.countP p := by
  induction is with
  | nil => rfl
  | cons i is ih =>
    rw [total_cons, ih, List.countP_cons]
    split
    · rw [Nat.mul_add, Nat.mul_one, Nat.add_comm]
    · rw [Nat.zero_add, Nat.add_zero]

theorem total_le {f : ι → Nat} {n : Nat} (hf : ∀ i, f i ≤ n) (is : List ι) :
    total f is ≤ n * is.length := by
  induction is with
  | nil => exact Nat.zero_le _
  | cons i is ih =>
    have hi := hf i
    rw [total_cons, List.length_cons, Nat.mul_succ]
    omega

structure Machine.Ranked (M : Machine σ ι ω) (I : σ → Prop) (rank : σ → Nat)
    (cost gain : ι → Nat) : Prop where
  keeps : ∀ {s s' : σ} {i : ι} {out : List ω}, I s → M.step s i = some (s', out) → I s'
  pays : ∀ {s s' : σ} {i : ι} {out : List ω}, I s → M.step s i = some (s', out) →
    rank s' + cost i ≤ rank s + gain i

variable {M : Machine σ ι ω} {I : σ → Prop} {rank : σ → Nat} {cost gain : ι → Nat}

/-- The inputs of a run, split at the first. -/
theorem Machine.exec_cons {s s' : σ} {i : ι} {is : List ι} {out : List ω}
    (h : M.exec s (i :: is) = some (s', out)) :
    ∃ s1 out1 out2, M.step s i = some (s1, out1) ∧ M.exec s1 is = some (s', out2) := by
  cases hs : M.step s i with
  | none => simp [Machine.exec, hs] at h
  | some r =>
    obtain ⟨s1, out1⟩ := r
    simp only [Machine.exec, hs] at h
    cases hr : M.exec s1 is with
    | none => simp [hr] at h
    | some r' =>
      obtain ⟨s2, out2⟩ := r'
      simp only [hr, Option.some.injEq, Prod.mk.injEq] at h
      obtain ⟨rfl, -⟩ := h
      exact ⟨s1, out1, out2, rfl, hr⟩

/-- **Every schedule** is bounded. -/
theorem Machine.Ranked.exec (h : M.Ranked I rank cost gain) {is : List ι} {s s' : σ}
    {out : List ω} (hs : I s) (he : M.exec s is = some (s', out)) :
    I s' ∧ rank s' + total cost is ≤ rank s + total gain is := by
  induction is generalizing s out with
  | nil =>
    simp only [Machine.exec, Option.some.injEq, Prod.mk.injEq] at he
    obtain ⟨rfl, -⟩ := he
    exact ⟨hs, Nat.le_refl _⟩
  | cons i is ih =>
    obtain ⟨s1, out1, out2, hstep, hrest⟩ := Machine.exec_cons he
    obtain ⟨hI, hle⟩ := ih (h.keeps hs hstep) hrest
    have hpay := h.pays hs hstep
    rw [total_cons, total_cons]
    exact ⟨hI, by omega⟩

/-- **The end can be reached** where before it some step always lowers the rank. -/
theorem Machine.completes {ok : ι → Prop} {done : σ → Prop}
    (hgo : ∀ s, I s → ¬done s → ∃ i s' out, ok i ∧ M.step s i = some (s', out) ∧ I s' ∧
      rank s' < rank s)
    {s : σ} (hs : I s) :
    ∃ is s' out, (∀ i ∈ is, ok i) ∧ M.exec s is = some (s', out) ∧ I s' ∧ done s' ∧
      is.length ≤ rank s := by
  induction hn : rank s using Nat.strongRecOn generalizing s with
  | ind n ih =>
    by_cases hd : done s
    · exact ⟨[], s, [], by simp, rfl, hs, hd, Nat.zero_le _⟩
    · obtain ⟨i, s1, out1, hok, hstep, hI1, hlt⟩ := hgo s hs hd
      obtain ⟨is, s', out, hoks, hexec, hI, hdone, hle⟩ := ih (rank s1) (by omega) hI1 rfl
      refine ⟨i :: is, s', out1 ++ out, List.forall_mem_cons.mpr ⟨hok, hoks⟩, ?_, hI, hdone, ?_⟩
      · simp only [Machine.exec, hstep, hexec]
      · rw [List.length_cons]
        omega

/-- So it is where a step that costs something and adds nothing is always possible. -/
theorem Machine.Ranked.completes {ok : ι → Prop} {done : σ → Prop}
    (h : M.Ranked I rank cost gain)
    (hgo : ∀ s, I s → ¬done s → ∃ i, ok i ∧ gain i = 0 ∧ 0 < cost i ∧ (M.step s i).isSome = true)
    {s : σ} (hs : I s) :
    ∃ is s' out, (∀ i ∈ is, ok i) ∧ M.exec s is = some (s', out) ∧ I s' ∧ done s' ∧
      is.length ≤ rank s := by
  refine Machine.completes (fun s hs hd => ?_) hs
  obtain ⟨i, hok, hgain, hcost, hsome⟩ := hgo s hs hd
  obtain ⟨⟨s1, out1⟩, hstep⟩ := Option.isSome_iff_exists.mp hsome
  have hpay := h.pays hs hstep
  exact ⟨i, s1, out1, hok, hstep, h.keeps hs hstep, by omega⟩

end Runs
