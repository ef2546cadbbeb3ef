import Kirilock.FingerprintSignals

/-!
What the callback says of the signals of the device.

A signal waits in the queue until the callback has it; the callback judges it once and
drops it.  So every verdict is the one of a signal that the device emitted (`VerdictRule`),
and signals are judged in their order, none twice (`judged`), however often the scans, the
starts and the stops break off.
-/

namespace Auth.Fingerprint

open Runs

/-- The signal that a handler of the callback judges; `on_end` judges none. -/
def Item.judges : Item → Option Nat
  | .handler _ .onEnd => none
  | .handler k _ => k
  | _ => none

/-- The signals that were judged. -/
def judged (tr : List Item) : List Nat := tr.filterMap Item.judges

/-- A verdict is that of a signal that was emitted. -/
def VerdictRule (pre : List Item) (c : Item) : Prop :=
  ∀ k h, c = .handler (some k) h → h ≠ .onEnd →
    ∃ result done, .emitted k (.status result done) ∈ pre ∧ h = verdict result

/-- The signal that the callback has. -/
def WorkerPc.holding : WorkerPc → List Nat
  | .callback k _ => [k]
  | _ => []

/-- The signals that were not judged yet. -/
def State.waiting (s : State) : List Nat :=
  s.worker.elim [] WorkerPc.holding ++ s.queue.map Prod.fst

structure VerdictInv (s : State) (tr : List Item) : Prop where
  ordered : (judged tr ++ s.waiting).Pairwise (· < ·)
  below : ∀ k ∈ judged tr ++ s.waiting, k < s.emissions
  queue : ∀ x ∈ s.queue, .emitted x.1 x.2 ∈ tr
  current : ∀ k body, s.worker = some (.callback k body) → .emitted k body ∈ tr
  rule : Always VerdictRule tr

/-- Items that judge nothing. -/
def Blind (out : List Item) : Prop := ∀ k h, .handler (some k) h ∈ out → h = .onEnd

theorem Blind.judged {out : List Item} (h : Blind out) : judged out = [] := by
  refine List.filterMap_eq_nil_iff.mpr fun x hx => ?_
  unfold Item.judges
  split
  · rfl
  · rename_i k g hg
    cases k with
    | none => rfl
    | some k => exact absurd (h k g hx) hg
  · rfl

theorem Blind.rule {tr out : List Item} (h : Blind out) (hr : Always VerdictRule tr) :
    Always VerdictRule (tr ++ out) := by
  refine hr.append_of_forall fun c hc pre k g he hg => ?_
  rw [he] at hc
  exact absurd (h k g hc) hg

theorem judged_append (tr out : List Item) : judged (tr ++ out) = judged tr ++ judged out :=
  List.filterMap_append

theorem blind_invoke (p : Members) (h : Handler) : Blind (p.invoke none h) := by
  intro k g hm
  cases p.invoke_items none h _ hm

theorem StopStep.blind {p p' : Members} {ok : Bool} {pc : StopPc} {pc' : Option StopPc}
    {out : List Item} (h : StopStep p ok pc pc' p' out) : Blind out := by
  intro k g hm
  cases h.idle.cause _ hm

theorem ClientStep.blind {s : State} {ok : Bool} {p : Members} {w : Option WorkerPc}
    {pc : ClientPc} {out : List Item} (h : ClientStep s ok p w pc out) : Blind out := by
  intro k g hm
  cases h.idle.cause _ hm

section Steps

variable {s s' : State} {tr out : List Item}

/-- Nothing is judged, and what waits goes on waiting, or is dropped. -/
theorem VerdictInv.keeps (h : VerdictInv s tr) (hout : Blind out)
    (hw : s'.waiting.Sublist s.waiting) (he : s.emissions ≤ s'.emissions)
    (hq : ∀ x ∈ s'.queue, x ∈ s.queue)
    (hc : ∀ k body, s'.worker = some (.callback k body) → .emitted k body ∈ tr) :
    VerdictInv s' (tr ++ out) := by
  have hsub : (judged (tr ++ out) ++ s'.waiting).Sublist (judged tr ++ s.waiting) := by
    rw [judged_append, hout.judged, List.append_nil]
    exact (List.Sublist.refl _).append hw
  refine ⟨h.ordered.sublist hsub, fun k hk => ?_, fun x hx => ?_, fun k body hk => ?_,
    hout.rule h.rule⟩
  · exact Nat.lt_of_lt_of_le (h.below k (hsub.subset hk)) he
  · exact List.mem_append_left _ (h.queue x (hq x hx))
  · exact List.mem_append_left _ (hc k body hk)

/-- A step of the worker that leaves the queue alone and gets no signal. -/
theorem VerdictInv.works (h : VerdictInv s tr) {pc' : WorkerPc} {p : Members}
    (hout : Blind out) (hpc : pc'.holding = []) :
    VerdictInv (s.worked p s.queue pc') (tr ++ out) := by
  refine h.keeps hout ?_ (Nat.le_refl _) (fun x hx => hx) fun k body hk => ?_
  · simp only [State.waiting, State.worked, Option.elim, hpc, List.nil_append]
    exact List.sublist_append_right _ _
  · cases hk
    cases hpc

theorem verdict_judges (k : Nat) (result : String) :
    judged [.handler (some k) (verdict result)] = [k] := by
  unfold verdict
  split
  · rfl
  · split <;> rfl

/-- The signal that the callback has is judged. -/
theorem VerdictInv.judges (h : VerdictInv s tr) {k : Nat} {result : String} {done : Bool}
    (hw : s.worker = some (.callback k (.status result done))) {pc' : WorkerPc}
    (hpc : pc'.holding = []) :
    VerdictInv (s.worked s.obj s.queue pc')
      (tr ++ [.handler (some k) (verdict result)]) := by
  have hwait : judged (tr ++ [Item.handler (some k) (verdict result)]) ++
      (s.worked s.obj s.queue pc').waiting = judged tr ++ s.waiting := by
    rw [judged_append, verdict_judges]
    simp only [State.waiting, State.worked, hw, Option.elim, hpc, List.nil_append,
      List.append_assoc]
    rfl
  refine ⟨?_, ?_, fun x hx => List.mem_append_left _ (h.queue x hx), fun j body hb => ?_,
    always_snoc.mpr ⟨h.rule, fun j g he _ => ?_⟩⟩
  · rw [hwait]
    exact h.ordered
  · rw [hwait]
    exact h.below
  · cases hb
    cases hpc
  · cases he
    exact ⟨result, done, h.current k _ hw, rfl⟩

theorem Goes.holding {p : Members} {pc pc' : WorkerPc} (h : Goes p pc pc') :
    pc'.holding = [] := by
  cases h <;> rfl

theorem WorkerStep.verdictInv {o : WorkerOutcomes} {pc pc' : WorkerPc} {p : Members}
    {queue : List (Nat × Signal)} (h : WorkerStep s o pc p queue pc' out)
    (hw : s.worker = some pc) (hinv : VerdictInv s tr) :
    VerdictInv (s.worked p queue pc') (tr ++ out) := by
  have hnone : ∀ {x : Item}, (∀ k g, x ≠ .handler (some k) g) → Blind [x] := by
    intro x hx k g hm
    exact absurd (List.mem_singleton.mp hm).symm (hx k g)
  cases h with
  | goes hg => exact hinv.works (fun k g hm => by cases hm) hg.holding
  | @called _ _ k g hc =>
    cases hc with
    | notFound | startFailed msg | onLoop => exact hinv.works (blind_invoke _ _) rfl
    | callbackEnd k =>
      refine hinv.works (fun j g hm => ?_) rfl
      cases s.obj.invoke_items _ _ _ hm
      rfl
    | verdict k result done =>
      have hhold : (if done then WorkerPc.compareCheck k else .loadInner).holding = [] := by
        cases done <;> rfl
      by_cases hset : s.obj.handlers.has (verdict result) = true
      · rw [Members.invoke, if_pos hset]
        exact hinv.judges hw hhold
      · rw [Members.invoke, if_neg hset]
        exact hinv.works (fun j g hm => by cases hm) hhold
  | verifyStarted ho => exact hinv.works (hnone fun k g he => by cases he) rfl
  | verifyFailed msg ho => exact hinv.works (hnone fun k g he => by cases he) rfl
  | checkStored => exact hinv.works (fun k g hm => by cases hm) rfl
  | dispatched x rest ho hq =>
    obtain ⟨k, body⟩ := x
    refine hinv.keeps (fun k g hm => by cases hm) ?_ (Nat.le_refl _) (fun y hy => ?_)
      fun j b hb => ?_
    · simp only [State.waiting, State.worked, hw, hq, Option.elim, WorkerPc.holding, List.map_cons,
        List.nil_append]
      exact List.Sublist.refl _
    · rw [hq]
      exact List.mem_cons_of_mem _ hy
    · cases hb
      exact hinv.queue (k, body) (by rw [hq]; exact List.mem_cons_self)
  | scanEnded k hc => exact hinv.works (hnone fun k g he => by cases he) rfl
  | verifyStopped => exact hinv.works (hnone fun k g he => by cases he) rfl

end Steps

theorem verdictInv_reach {s : State} {tr : List Item} (h : machine.Reach s tr) :
    VerdictInv s tr := by
  refine h.invariant ?_ ?_
  · rintro s ⟨handlers, pipe, device, rfl⟩
    exact ⟨List.Pairwise.nil, fun k hk => (List.not_mem_nil hk).elim,
      fun x hx => (List.not_mem_nil hx).elim, fun k body hk => (by cases hk), always_nil _⟩
  · intro s tr i s' out hinv _ hs
    have hsame : ∀ {s' : State} {out : List Item}, Blind out → s'.worker = s.worker →
        s'.queue = s.queue → s'.emissions = s.emissions → VerdictInv s' (tr ++ out) := by
      intro s' out hout hw hq he
      refine hinv.keeps hout ?_ (Nat.le_of_eq he.symm) (fun x hx => hq ▸ hx) fun k body hk => ?_
      · rw [State.waiting, State.waiting, hw, hq]
      · exact hinv.current k body (hw ▸ hk)
    cases machine_step hs with
    | start hpc | stop hpc | delete hpc | otherStop hpc =>
      exact hsame (fun k g hm => by simp at hm) rfl rfl rfl
    | client ok p w pc out hc =>
      rcases hc.worker with rfl | rfl | rfl
      · exact hsame hc.blind rfl rfl rfl
      · refine hinv.keeps hc.blind ?_ (Nat.le_refl _) (fun x hx => hx) fun k body hk => by cases hk
        exact List.sublist_append_right _ _
      · refine hinv.keeps hc.blind ?_ (Nat.le_refl _) (fun x hx => hx) fun k body hk => by cases hk
        exact List.sublist_append_right _ _
    | stopStep i ok pc pc' client stops p out hi hr hstop => exact hsame hstop.blind rfl rfl rfl
    | worker o pc p queue pc' out hw hstep => exact hstep.verdictInv hw hinv
    | emit body =>
      have hout : Blind [Item.emitted s.emissions body] := fun k g hm => by
        cases List.mem_singleton.mp hm
      have hwait : judged (tr ++ [Item.emitted s.emissions body]) ++
          State.waiting
            { s with
              queue := s.queue ++ [(s.emissions, body)]
              emissions := s.emissions + 1 } =
          (judged tr ++ s.waiting) ++ [s.emissions] := by
        rw [judged_append, hout.judged, List.append_nil]
        simp only [State.waiting, List.map_append, List.map_cons, List.map_nil, List.append_assoc]
      refine ⟨?_, fun k hk => ?_, fun x hx => ?_, fun k b hk => ?_, hout.rule hinv.rule⟩
      · -- the new number is above all others
        rw [hwait, List.pairwise_append]
        refine ⟨hinv.ordered, List.pairwise_singleton _ _, fun k hk j hj => ?_⟩
        rw [List.mem_singleton.mp hj]
        exact hinv.below k hk
      · rw [hwait] at hk
        show k < s.emissions + 1
        rcases List.mem_append.mp hk with hk | hk
        · have hlt := hinv.below k hk
          omega
        · rw [List.mem_singleton.mp hk]
          omega
      · rcases List.mem_append.mp hx with hx | hx
        · exact List.mem_append_left _ (hinv.queue x hx)
        · rw [List.mem_singleton.mp hx]
          exact List.mem_append_right _ (List.mem_singleton_self _)
      · exact List.mem_append_left _ (hinv.current k b hk)

theorem invoke_finishless (p : Members) {k : Option Nat} {h : Handler} (hh : h ≠ .onFinish)
    (j : Option Nat) : .handler j .onFinish ∉ p.invoke k h := by
  intro hm
  cases p.invoke_items k h _ hm
  exact hh rfl

/-- `on_finish` is called by the callback, for a match. -/
theorem step_finish {s s' : State} {i : Input} {out : List Item}
    (hs : machine.step s i = some (s', out)) {k : Option Nat}
    (hm : .handler k .onFinish ∈ out) :
    ∃ j done, k = some j ∧ s.worker = some (.callback j (.status "verify-match" done)) := by
  cases machine_step hs with
  | start hpc | stop hpc | delete hpc | otherStop hpc | emit body => simp at hm
  | client ok p w pc out hc =>
    cases hc with
    | called pc hpc hc => exact absurd hm (invoke_finishless _ Handler.noConfusion _)
    | released hpc => split at hm <;> simp at hm
    | deleted hpc hstops =>
      rcases List.mem_append.mp hm with hm | hm
      · exact absurd hm (invoke_finishless _ Handler.noConfusion _)
      · cases List.mem_singleton.mp hm
    | _ => simp at hm
  | stopStep i ok pc pc' client stops p out hi hr hstop =>
    cases hstop with
    | ended found => exact absurd hm (invoke_finishless _ Handler.noConfusion _)
    | stopped found =>
      rcases List.mem_append.mp hm with hm | hm
      · exact absurd hm (invoke_finishless _ Handler.noConfusion _)
      · cases List.mem_singleton.mp hm
    | _ => simp at hm
  | worker o pc p queue pc' out hw hstep =>
    cases hstep with
    | called hc =>
      cases hc with
      | verdict j result done =>
        have he := s.obj.invoke_items _ _ _ hm
        rw [Item.handler.injEq] at he
        rw [verdict_onFinish.mp he.2.symm] at hw
        exact ⟨j, done, he.1, hw⟩
      | _ => exact absurd hm (invoke_finishless _ Handler.noConfusion _)
    | _ => simp at hm

/-- What the callback says in a run. -/
structure Verdicts (tr : List Item) : Prop where
  /-- every verdict is that of a signal that was emitted before … -/
  rule : Always VerdictRule tr
  /-- … and signals are judged in the order in which they came, none twice -/
  ordered : (judged tr).Pairwise (· < ·)

/-- **The verdicts of `fprint_signal_cb`** in every run. -/
theorem verdicts_ordered {s : State} {tr : List Item} (h : machine.Reach s tr) : Verdicts tr :=
  ⟨(verdictInv_reach h).rule, (verdictInv_reach h).ordered.sublist (List.sublist_append_left _ _)⟩

/-- The run where an old match is judged judges it once. -/
theorem verdicts_ordered_staleRun :
    judged staleRun.2 = [0] ∧ Verdicts staleRun.2 :=
  ⟨by decide, verdicts_ordered (Machine.reach_exec (start_init _ true true) staleRun_isSome)⟩

end Auth.Fingerprint
