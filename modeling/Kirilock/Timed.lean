import Kirilock.Runs

/-!
Machines that read a clock which only goes forward.

Every step of `Machine.timed` is taken at a time, not before the time of the last one,
and the readings of its input agree with it (`agrees`).  The time of the last step that
met `starts` is noted: it is when a duration began.  A program measures the duration
with two readings, each of which is the time or, where the clock could not be read, 0.

* `elapsed_iff`: the difference of the two readings is exact and not more than the time
  that has passed if and only if both were read, or neither.
* `Machine.timed_noted`: a value that is the noted start or 0.
-/

namespace Runs

/-! ## Two readings -/

/-- `e` is the difference of the readings `r0` and `r`, without wrapping, and not more than
what has passed from `start` to `now`. -/
structure Elapsed (start now r0 r e : UInt64) : Prop where
  exact : r0.toNat + e.toNat = r.toNat
  bound : start.toNat + e.toNat ≤ now.toNat

instance (start now r0 r e : UInt64) : Decidable (Elapsed start now r0 r e) :=
  decidable_of_iff (r0.toNat + e.toNat = r.toNat ∧ start.toNat + e.toNat ≤ now.toNat)
    ⟨fun ⟨h1, h2⟩ => ⟨h1, h2⟩, fun ⟨h1, h2⟩ => ⟨h1, h2⟩⟩

theorem elapsed_self {start now : UInt64} (h : start ≤ now) (r : UInt64) :
    Elapsed start now r r (r - r) := by
  rw [UInt64.le_iff_toNat_le] at h
  refine ⟨?_, ?_⟩ <;> rw [UInt64.sub_self]
  · rfl
  · exact h

theorem elapsed_of_le {start now : UInt64} (h : start ≤ now) : Elapsed start now start now
    (now - start) := by
  have hsub := UInt64.toNat_sub_of_le now start h
  rw [UInt64.le_iff_toNat_le] at h
  constructor <;> omega

/-- A start of 0 lies behind every clock. -/
theorem not_elapsed_zero {start now : UInt64} (h0 : start ≠ 0) :
    ¬Elapsed start now 0 now (now - 0) := by
  intro h
  have hb := h.bound
  rw [UInt64.sub_zero] at hb
  exact h0 (UInt64.toNat_inj.mp (by rw [UInt64.toNat_zero]; omega))

/-- A reading of 0 lies before every start. -/
theorem not_elapsed_failed {start now e : UInt64} (h0 : start ≠ 0) :
    ¬Elapsed start now start 0 e := by
  intro h
  have he := h.exact
  rw [UInt64.toNat_zero] at he
  exact h0 (UInt64.toNat_inj.mp (by rw [UInt64.toNat_zero]; omega))

/-- **Two readings**, either of which may have failed. -/
theorem elapsed_iff {start now r0 r : UInt64} (h0 : r0 = start ∨ r0 = 0) (h : r = now ∨ r = 0)
    (hle : start ≤ now) (hs : start ≠ 0) :
    Elapsed start now r0 r (r - r0) ↔ (r = now ↔ r0 = start) := by
  have hnow : now ≠ 0 := by
    rintro rfl
    exact hs (UInt64.le_zero_iff.mp hle)
  rcases h0 with rfl | rfl
  · rcases h with rfl | rfl
    · exact iff_of_true (elapsed_of_le hle) (iff_of_true rfl rfl)
    · exact iff_of_false (not_elapsed_failed hs) fun h => hnow (h.mpr rfl).symm
  · rcases h with rfl | rfl
    · exact iff_of_false (not_elapsed_zero hs) fun h => hs (h.mp rfl).symm
    · exact iff_of_true (elapsed_self hle 0) (iff_of_false hnow.symm hs.symm)

/-- A duration that began when the clock stood at 0. -/
theorem elapsed_of_zero {now r : UInt64} (h : r = now ∨ r = 0) : Elapsed 0 now 0 r (r - 0) := by
  rw [UInt64.sub_zero]
  rcases h with rfl | rfl
  · exact ⟨Nat.zero_add _, by simp⟩
  · exact ⟨rfl, Nat.zero_le _⟩

/-! ## The machine -/

/-- A state, the time of the last step, and the time that was noted as the start. -/
structure Timed (σ : Type) where
  state : σ
  now : UInt64
  start : UInt64

variable {σ ι ω : Type}

def Machine.timed (M : Machine σ ι ω) (agrees : UInt64 → ι → Bool) (starts : σ → ι → Bool) :
    Machine (Timed σ) (UInt64 × ι) ω where
  init s := M.init s.state
  step s i :=
    if s.now ≤ i.1 ∧ agrees i.1 i.2 then
      (M.step s.state i.2).map fun r =>
        (⟨r.1, i.1, if starts s.state i.2 then i.1 else s.start⟩, r.2)
    else none

section Timed

variable {M : Machine σ ι ω} {agrees : UInt64 → ι → Bool} {starts : σ → ι → Bool}

theorem Machine.timed_step {s s' : Timed σ} {i : UInt64 × ι} {out : List ω}
    (h : (M.timed agrees starts).step s i = some (s', out)) :
    M.step s.state i.2 = some (s'.state, out) ∧ s.now ≤ i.1 ∧ agrees i.1 i.2 = true ∧
      s'.now = i.1 ∧ s'.start = if starts s.state i.2 then i.1 else s.start := by
  simp only [Machine.timed] at h
  split at h
  · rename_i hi
    obtain ⟨r, hr, he⟩ := Option.map_eq_some_iff.mp h
    obtain ⟨rfl, rfl⟩ := Prod.mk.inj he
    exact ⟨hr, hi.1, hi.2, rfl, rfl⟩
  · cases h

/-- A timed run is a run. -/
theorem Machine.ReachIf.of_timed {ok : Timed σ → List ω → UInt64 × ι → Prop} {s : Timed σ}
    {tr : List ω} (h : (M.timed agrees starts).ReachIf ok s tr) : M.Reach s.state tr := by
  induction h with
  | init h => exact .init h
  | step _ _ hs ih => exact .step ih trivial (Machine.timed_step hs).1

/-- Where a state relies on its start (`live`), the value is the noted time or 0, and the
time was not in the future. -/
def Timed.Noted (live : σ → Prop) (value : σ → UInt64) (s : Timed σ) : Prop :=
  live s.state → (value s.state = s.start ∨ value s.state = 0) ∧ s.start ≤ s.now

/-- **The noted start**, if every step keeps the value, or notes the time and sets it to that. -/
theorem Machine.timed_noted {live : σ → Prop} {value : σ → UInt64}
    (hinit : ∀ s, M.init s → ¬live s)
    (hstep : ∀ s tr i s' out, M.Reach s tr → M.step s i = some (s', out) → live s' →
      starts s i = true ∧ (∀ now, agrees now i = true → value s' = now ∨ value s' = 0) ∨
      starts s i = false ∧ live s ∧ value s' = value s)
    {s : Timed σ} {tr : List ω} (h : (M.timed agrees starts).Reach s tr) :
    s.Noted live value := by
  refine h.invariant_of (J := fun s tr => M.Reach s.state tr) (I := fun s _ => s.Noted live value)
    (fun hr => hr.of_timed) (fun s hs hl => absurd hl (hinit _ hs)) ?_
  intro s tr i s' out hreach hI _ hs hlive
  obtain ⟨hm, hle, hagrees, hnow, hstart⟩ := Machine.timed_step hs
  rw [hstart, hnow]
  rcases hstep _ _ _ _ _ hreach hm hlive with ⟨hst, hv⟩ | ⟨hst, hl, hv⟩
  · rw [if_pos hst]
    exact ⟨hv _ hagrees, UInt64.le_refl _⟩
  · rw [hst, if_neg Bool.false_ne_true, hv]
    exact ⟨(hI hl).1, UInt64.le_trans (hI hl).2 hle⟩

end Timed

end Runs
