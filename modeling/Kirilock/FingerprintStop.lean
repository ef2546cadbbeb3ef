import Kirilock.FingerprintLoop

/-!
What `is_running_` says, and what a `stop` stops.

A worker that finds no device, or whose `VerifyStart` fails, breaks out of its loop
and leaves `is_running_` set.  The flag is clear once the worker has ended
(`RunningSafe`) in the runs where such a worker was stopped (`BreaksStopped`), and
`running_stale` is a run where `start` refuses an object that has no worker.

The callback looks at neither flag.  After a `stop` returned `on_finish` is not
called (`FinishSafe`) in the runs where no match is processed any more, or was being
processed (`MatchesDropped`), and `finish_late` is a run where one is.
-/

namespace Auth.Fingerprint

open Runs

/-! ## `is_running_` -/

/-- `start` has set `is_running_` and has neither made a worker nor given up. -/
def ClientPc.starting : ClientPc → Bool
  | .storeCheck => true
  | .onStart => true
  | .create => true
  | .catchStore => true
  | _ => false

structure RunningSafe (s : State) : Prop where
  /-- where the worker has ended and no other is being made, the flag is clear -/
  ended : s.workerEnded = true → s.client.starting = false → s.obj.isRunning = false
  /-- `start` refuses only where a worker runs -/
  refused : ∀ i s' out, machine.step s i = some (s', out) →
    .startReturned .running ∈ out → s.workerEnded = false

/-- The worker breaks out of its loop only after a `stop`. -/
def BreaksStopped (s : State) : Input → Prop
  | .worker _ => s.worker = some .leave → s.obj.isRunning = false
  | _ => True

instance (s : State) (i : Input) : Decidable (BreaksStopped s i) := by
  rcases i with _ | _
  case worker ok => exact inferInstanceAs (Decidable (_ → _))
  all_goals exact isTrue trivial

def RunningInv (s : State) : Prop :=
  s.workerEnded = true → s.client.starting = false → s.obj.isRunning = false

theorem ClientStep.runningInv {s : State} {ok : Bool} {p : Members} {w : Option WorkerPc}
    {pc : ClientPc} {out : List Item} (h : ClientStep s ok p w pc out) (hinv : RunningInv s) :
    RunningInv { s with obj := p, worker := w, client := pc } := by
  intro hw hpc'
  cases h with
  | refused hpc _ _ => exact hinv hw (by rw [hpc]; rfl)
  | loaded hpc _ hr => exact hr
  | unjoinable hpc _ => exact hinv hw (by rw [hpc]; rfl)
  | threw hpc ho => cases hpc'
  | joined hpc ho hexited => exact hinv (by rw [State.workerEnded, hexited]; rfl) (by rw [hpc]; rfl)
  | drains n hpc _ => exact hinv hw (by rw [hpc]; rfl)
  | drained hpc _ => exact hinv hw (by rw [hpc]; rfl)
  | runningStored hpc => cases hpc'
  | checkStored hpc => cases hpc'
  | called pc hpc h => rcases h with rfl | rfl <;> cases hpc'
  | created hpc => cases hw
  | caught hpc => rfl
  | deleteUnjoinable hpc _ => exact hinv hw (by rw [hpc]; rfl)
  | deleteJoined hpc hexited =>
    exact hinv (by rw [State.workerEnded, hexited]; rfl) (by rw [hpc]; rfl)
  | released hpc => exact hinv hw (by rw [hpc]; rfl)
  | closed hpc => exact hinv hw (by rw [hpc]; rfl)
  | deleted hpc _ => exact hinv hw (by rw [hpc]; rfl)

/-- The worker ends where it finds the flag clear, or by a `break`. -/
theorem WorkerStep.exits {s : State} {o : WorkerOutcomes} {pc : WorkerPc} {p : Members}
    {queue : List (Nat × Signal)} {out : List Item} (h : WorkerStep s o pc p queue .exited out) :
    p = s.obj ∧ (s.obj.isRunning = false ∨ pc = .leave) := by
  generalize hpc' : WorkerPc.exited = pc' at h
  cases h with
  | goes h =>
    subst hpc'
    cases h with
    | exits hr => exact ⟨rfl, Or.inl hr⟩
    | leaves => exact ⟨rfl, Or.inr rfl⟩
  | called hpc =>
    subst hpc'
    generalize hpc1 : WorkerPc.exited = pc1 at hpc
    cases hpc with
    | verdict k result done => cases done <;> cases hpc1
    | _ => cases hpc1
  | _ => cases hpc'

theorem runningInv_reach {s : State} {tr : List Item}
    (h : machine.ReachIf (fun s _ i => BreaksStopped s i) s tr) : RunningInv s := by
  refine h.invariant (I := fun s _ => RunningInv s) ?_ ?_
  · rintro s ⟨handlers, pipe, device, rfl⟩ _ _
    rfl
  · intro s tr i s' out hinv hok hs
    cases machine_step hs with
    | start hpc => exact fun hw _ => hinv hw (by rw [hpc]; rfl)
    | stop hpc => exact fun hw _ => hinv hw (by rw [hpc]; rfl)
    | delete hpc => exact fun hw _ => hinv hw (by rw [hpc]; rfl)
    | client ok p w pc out h => exact h.runningInv hinv
    | otherStop hpc => exact hinv
    | stopStep i ok pc pc' client stops p out hi hr h =>
      intro hw hstarts
      rcases h.isRunning with hp | hp
      · have hstarting : s.client.starting = false := by
          cases hr with
          | client hpc => rw [hpc]; rfl
          | delete hpc => rw [hpc]; rfl
          | other l1 l2 hs => exact hstarts
        exact hp.trans (hinv hw hstarting)
      · exact hp
    | worker o pc p queue pc' out hw h =>
      intro hended hpc
      have hexited : pc' = .exited := by simpa [State.workerEnded, State.worked] using hended
      subst hexited
      obtain ⟨rfl, hr | rfl⟩ := h.exits
      · exact hr
      · exact hok hw
    | emit body => exact hinv

/-- The step in which `start` refuses. -/
theorem step_refused {s s' : State} {i : Input} {out : List Item}
    (hs : machine.step s i = some (s', out)) (hx : .startReturned .running ∈ out) :
    s.client = .load ∧ s.obj.isRunning = true := by
  cases machine_step hs with
  | client ok p w pc out h =>
    cases h with
    | refused hpc hw hr => exact ⟨hpc, hr⟩
    | called pc hpc h => cases s.obj.invoke_items none _ _ hx
    | released hpc => split at hx <;> simp at hx
    | deleted hpc hs => cases s.obj.invoke_items none _ _ (by simpa using hx)
    | _ => simp at hx
  | stopStep i ok pc pc' client stops p out hi hr h =>
    cases h with
    | ended found => cases s.obj.invoke_items none _ _ hx
    | stopped found => cases s.obj.invoke_items none _ _ (by simpa using hx)
    | _ => simp at hx
  | worker o pc p queue pc' out hw h =>
    cases h with
    | called hpc => cases s.obj.invoke_items _ _ _ hx
    | _ => simp at hx
  | _ => simp at hx

/-- **Once the worker has ended `is_running_` is clear, and `start` refuses only where a worker
runs**, in every run where a worker breaks out of its loop only after a `stop`. -/
theorem running_safe {s : State} {tr : List Item}
    (h : machine.ReachIf (fun s _ i => BreaksStopped s i) s tr) : RunningSafe s := by
  have hinv := runningInv_reach h
  refine ⟨hinv, fun i s' out hs hout => ?_⟩
  obtain ⟨hpc, hr⟩ := step_refused hs hout
  by_contra hne
  have hclear := hinv (by simpa using hne) (by rw [hpc]; rfl)
  rw [hr] at hclear
  cases hclear

theorem matchedRun_stopped : machine.Meets (fun s _ i => BreaksStopped s i)
    (start allHandlers true true) [] sampleMatched := by
  decide

/-- The worker has ended there. -/
theorem running_safe_matchedRun :
    (matchedRun.1.workerEnded = true ∧ matchedRun.1.client.starting = false) ∧
      RunningSafe matchedRun.1 :=
  ⟨by decide,
    running_safe (Machine.reachIf_exec (start_init _ _ _) matchedRun_stopped matchedRun_isSome)⟩

/-- There is no device. -/
def sampleMissing : List Input :=
  [Input.start] ++ List.replicate 6 (Input.client true) ++ sampleWorker 3 .nothing

theorem missingRun_isSome :
    (machine.exec (start allHandlers true false) sampleMissing).isSome = true := by
  decide

def missingRun : State × List Item :=
  (machine.exec (start allHandlers true false) sampleMissing).get missingRun_isSome

/-- **Not in every run**: a worker that found no device ended and left the flag. -/
theorem running_stale : ¬∀ s tr, machine.Reach s tr → RunningSafe s := by
  intro h
  have hsafe := h _ _ (Machine.reach_exec (start_init _ _ _) missingRun_isSome)
  have hstale : missingRun.1.obj.isRunning = true := by decide
  have hclear := hsafe.ended (by decide) (by decide)
  exact absurd (hclear.symm.trans hstale) nofun

/-! ## `on_finish` after a `stop` -/

def Item.isStopped (x : Item) : Bool := x == .stopReturned true

def Item.isStart (x : Item) : Bool := x == .start

/-- A `stop` that found `is_running_` true has returned, and `start` was not called since. -/
abbrev cancelled (tr : List Item) : Bool := isOpen Item.isStopped Item.isStart tr

def Item.isOnFinish : Item → Bool
  | .handler _ .onFinish => true
  | _ => false

/-- `on_finish` is not called from the return of such a `stop` until the next `start`. -/
def FinishSafe (tr : List Item) : Prop :=
  Always (fun pre c => c.isOnFinish = true → cancelled pre = false) tr

def Signal.isMatch : Signal → Bool
  | .status result _ => result == "verify-match"
  | .unreadable => false

/-- The callback has a match and is to call `on_finish`. -/
def WorkerPc.atMatch : WorkerPc → Bool
  | .callback _ body => body.isMatch
  | _ => false

/-- The step ends a `stop` that found `is_running_` true. -/
def State.endsStop (s : State) (i : Input) : Bool :=
  match s.moving i with
  | some (.compareCheck found) => found && !s.obj.checkInProgress
  | some (.onStop found) => found
  | _ => false

/-- The step gives a match to the callback. -/
def State.takesMatch (s : State) : Input → Bool
  | .worker o =>
    s.worker == some .process && o.process == .signal && s.queue.head?.any (·.2.isMatch)
  | _ => false

/-- Where `on_finish` is set no match is processed after a `stop`, and no `stop` returns while one
is. -/
def MatchesDropped (s : State) (tr : List Item) (i : Input) : Prop :=
  s.obj.handlers.onFinish = true →
    (s.takesMatch i = true → cancelled tr = false) ∧
    (s.endsStop i = true → s.worker.any WorkerPc.atMatch = false)

instance (s : State) (tr : List Item) (i : Input) : Decidable (MatchesDropped s tr i) :=
  inferInstanceAs (Decidable (_ → _))

structure FinishInv (s : State) (tr : List Item) : Prop where
  rule : FinishSafe tr
  dropped : s.obj.handlers.onFinish = true → cancelled tr = true →
    s.worker.any WorkerPc.atMatch = false

/-- Items that neither end a `stop` that found the flag, nor call `start` or `on_finish`. -/
structure Plain (out : List Item) : Prop where
  calls : ∀ x ∈ out, x.isStopped = false ∧ x.isStart = false
  finish : ∀ x ∈ out, x.isOnFinish = false

theorem plain_nil : Plain [] := ⟨nofun, nofun⟩

theorem plain_singleton {x : Item} (h : x.isStopped = false ∧ x.isStart = false)
    (hf : x.isOnFinish = false) : Plain [x] := by
  refine ⟨fun y hy => ?_, fun y hy => ?_⟩
  · rw [List.mem_singleton.mp hy]
    exact h
  · rw [List.mem_singleton.mp hy]
    exact hf

theorem Plain.append {out out' : List Item} (h : Plain out) (h' : Plain out') :
    Plain (out ++ out') where
  calls x hx := (List.mem_append.mp hx).elim (h.calls x) (h'.calls x)
  finish x hx := (List.mem_append.mp hx).elim (h.finish x) (h'.finish x)

theorem plain_invoke (p : Members) (k : Option Nat) {h : Handler} (hf : h ≠ .onFinish) :
    Plain (p.invoke k h) := by
  refine ⟨fun x hx => ?_, fun x hx => ?_⟩
  · rw [p.invoke_items k h x hx]
    exact ⟨rfl, rfl⟩
  · rw [p.invoke_items k h x hx]
    cases h with
    | onFinish => exact absurd rfl hf
    | _ => rfl

section Steps

variable {s s' : State} {tr : List Item}

theorem FinishInv.extend (h : FinishInv s tr) {out : List Item} (hout : Plain out)
    (hset : s'.obj.handlers = s.obj.handlers)
    (hw : s'.worker.any WorkerPc.atMatch = true → s.worker.any WorkerPc.atMatch = true) :
    FinishInv s' (tr ++ out) where
  rule := h.rule.append_of_forall fun x hx _ he => absurd ((hout.finish x hx).symm.trans he) nofun
  dropped hf hc := by
    rw [hset] at hf
    rw [cancelled, isOpen_append_of_neither hout.calls] at hc
    by_contra hne
    rw [Bool.not_eq_false] at hne
    exact absurd ((h.dropped hf hc).symm.trans (hw hne)) nofun

/-- A `stop` that found `is_running_` true returns. -/
theorem FinishInv.returns (h : FinishInv s tr) (hset : s'.obj.handlers = s.obj.handlers)
    (hw : s'.worker = s.worker)
    (hmatch : s.obj.handlers.onFinish = true → s.worker.any WorkerPc.atMatch = false) :
    FinishInv s' (tr ++ [Item.stopReturned true]) where
  rule := h.rule.append_of_forall (by simp [Item.isOnFinish])
  dropped hf _ := by
    rw [hset] at hf
    rw [hw]
    exact hmatch hf

theorem StopStep.finishInv {ok : Bool} {pc : StopPc} {pc' : Option StopPc} {p : Members}
    {out : List Item} (h : StopStep s.obj ok pc pc' p out) {i : Input}
    (hi : s.moving i = some pc) (hinv : FinishInv s tr)
    (hends : s.obj.handlers.onFinish = true → s.endsStop i = true →
      s.worker.any WorkerPc.atMatch = false) (client : ClientPc) (stops : List StopPc) :
    FinishInv { s with obj := p, client := client, stops := stops } (tr ++ out) := by
  cases h with
  | ended found => exact hinv.extend (plain_invoke _ _ nofun) rfl id
  | returned found hc =>
    cases found with
    | false => exact hinv.extend (plain_singleton ⟨rfl, rfl⟩ rfl) rfl id
    | true => exact hinv.returns rfl rfl fun hf => hends hf (by simp [State.endsStop, hi, hc])
  | stopped found =>
    have hcalled : FinishInv s (tr ++ s.obj.invoke none .onStop) :=
      hinv.extend (plain_invoke _ _ nofun) rfl id
    rw [← List.append_assoc]
    cases found with
    | false => exact hcalled.extend (plain_singleton ⟨rfl, rfl⟩ rfl) rfl id
    | true => exact hcalled.returns rfl rfl fun hf => hends hf (by simp [State.endsStop, hi])
  | _ => exact hinv.extend plain_nil rfl id

theorem Goes.atMatch {p : Members} {pc pc' : WorkerPc} (h : Goes p pc pc') :
    pc'.atMatch = false := by
  cases h <;> rfl

theorem WorkerStep.finishInv {o : WorkerOutcomes} {pc : WorkerPc} {p : Members}
    {queue : List (Nat × Signal)} {pc' : WorkerPc} {out : List Item}
    (h : WorkerStep s o pc p queue pc' out) (hw : s.worker = some pc) (hinv : FinishInv s tr)
    (htakes : s.obj.handlers.onFinish = true → s.takesMatch (.worker o) = true →
      cancelled tr = false) :
    FinishInv (s.worked p queue pc') (tr ++ out) := by
  have hmoves : ∀ {p : Members} {queue : List (Nat × Signal)} {pc' : WorkerPc} {out : List Item},
      Plain out → p.handlers = s.obj.handlers → pc'.atMatch = false →
      FinishInv (s.worked p queue pc') (tr ++ out) := fun hout hset hpc =>
    hinv.extend hout hset fun he => absurd (hpc.symm.trans he) nofun
  cases h with
  | goes h => exact hmoves plain_nil rfl h.atMatch
  | called hpc =>
    cases hpc with
    | notFound => exact hmoves (plain_invoke _ _ nofun) rfl rfl
    | startFailed msg => exact hmoves (plain_invoke _ _ nofun) rfl rfl
    | onLoop => exact hmoves (plain_invoke _ _ nofun) rfl rfl
    | callbackEnd k => exact hmoves (plain_invoke _ _ nofun) rfl rfl
    | verdict k result done =>
      have hpc : (if done then WorkerPc.compareCheck k else .loadInner).atMatch = false := by
        cases done <;> rfl
      by_cases hf : verdict result = .onFinish
      · rw [hf]
        by_cases hset : s.obj.handlers.has .onFinish = true
        · rw [s.obj.invoke_set _ hset]
          -- a match that is processed was not so after a `stop`
          have hopen : cancelled tr = false := by
            by_contra hne
            rw [Bool.not_eq_false] at hne
            have hdropped := hinv.dropped hset hne
            rw [hw] at hdropped
            simp [WorkerPc.atMatch, Signal.isMatch, verdict_onFinish.mp hf] at hdropped
          exact ⟨always_snoc.mpr ⟨hinv.rule, fun _ => hopen⟩, fun _ _ => hpc⟩
        · rw [s.obj.invoke_unset _ hset]
          exact hmoves plain_nil rfl hpc
      · exact hmoves (plain_invoke _ _ hf) rfl hpc
  | verifyStarted ho => exact hmoves (plain_singleton ⟨rfl, rfl⟩ rfl) rfl rfl
  | verifyFailed msg ho => exact hmoves (plain_singleton ⟨rfl, rfl⟩ rfl) rfl rfl
  | checkStored => exact hmoves plain_nil rfl rfl
  | dispatched x queue ho hq =>
    by_cases hm : x.2.isMatch = true
    · have htaken : s.takesMatch (.worker o) = true := by
        simp [State.takesMatch, hw, ho, hq, hm]
      refine ⟨by simpa using hinv.rule, fun hf hc => ?_⟩
      rw [List.append_nil, htakes hf htaken] at hc
      cases hc
    · rw [Bool.not_eq_true] at hm
      exact hmoves plain_nil rfl hm
  | scanEnded k hc => exact hmoves (plain_singleton ⟨rfl, rfl⟩ rfl) rfl rfl
  | verifyStopped => exact hmoves (plain_singleton ⟨rfl, rfl⟩ rfl) rfl rfl

theorem ClientStep.finishInv {ok : Bool} {p : Members} {w : Option WorkerPc} {pc : ClientPc}
    {out : List Item} (h : ClientStep s ok p w pc out) (hinv : FinishInv s tr) :
    FinishInv { s with obj := p, worker := w, client := pc } (tr ++ out) := by
  have hplain : Plain out := by
    cases h with
    | called pc hpc h => exact plain_invoke _ _ nofun
    | released hpc =>
      split
      · exact plain_singleton ⟨rfl, rfl⟩ rfl
      · exact plain_nil
    | created hpc =>
      exact (plain_singleton (x := .started) ⟨rfl, rfl⟩ rfl).append
        (plain_singleton (x := .startReturned .started) ⟨rfl, rfl⟩ rfl)
    | deleted hpc hs =>
      exact (plain_invoke s.obj none (h := .onDelete) nofun).append
        (plain_singleton (x := .deleted) ⟨rfl, rfl⟩ rfl)
    | refused | joined | caught | deleteJoined => exact plain_singleton ⟨rfl, rfl⟩ rfl
    | _ => exact plain_nil
  refine hinv.extend hplain h.handlers.1 fun he => ?_
  rcases h.worker with rfl | rfl | rfl
  · exact he
  · cases he
  · cases he

end Steps

theorem finishInv_reach {s : State} {tr : List Item} (h : machine.ReachIf MatchesDropped s tr) :
    FinishInv s tr := by
  refine h.invariant ?_ ?_
  · rintro s ⟨handlers, pipe, device, rfl⟩
    exact ⟨always_nil _, fun _ _ => rfl⟩
  · intro s tr i s' out hinv hok hs
    cases machine_step hs with
    | start hpc =>
      refine ⟨hinv.rule.append_of_forall (by simp [Item.isOnFinish]), fun _ hc => ?_⟩
      rw [cancelled, isOpen_snoc] at hc
      cases hc
    | stop hpc => exact hinv.extend (plain_singleton ⟨rfl, rfl⟩ rfl) rfl id
    | delete hpc =>
      exact hinv.extend ((plain_singleton (x := .delete) ⟨rfl, rfl⟩ rfl).append
        (plain_singleton (x := .stop) ⟨rfl, rfl⟩ rfl)) rfl id
    | client ok p w pc out h => exact h.finishInv hinv
    | otherStop hpc => exact hinv.extend (plain_singleton ⟨rfl, rfl⟩ rfl) rfl id
    | stopStep i ok pc pc' client stops p out hi hr h =>
      have hstep := h.finishInv hi hinv (fun hf => (hok hf).2) client stops
      exact hstep
    | worker o pc p queue pc' out hw h => exact h.finishInv hw hinv fun hf => (hok hf).1
    | emit body => exact hinv.extend (plain_singleton ⟨rfl, rfl⟩ rfl) rfl id

/-- **After a `stop` that found `is_running_` true has returned `on_finish` is not called until
the next `start`**, in every run where matches are dropped from then on. -/
theorem finish_in_time {s : State} {tr : List Item} (h : machine.ReachIf MatchesDropped s tr) :
    FinishSafe tr :=
  (finishInv_reach h).rule

/-- The scan is stopped, and then another finds a match. -/
def sampleStopped : List Input :=
  sampleStart ++ sampleStop ++ sampleWorker 6 .nothing ++ [Input.start] ++
  List.replicate 8 (Input.client true) ++ sampleWorker 6 .nothing ++
  [Input.emit (.status "verify-match" true)] ++ sampleWorker 2 .signal

theorem stoppedRun_isSome :
    (machine.exec (start allHandlers true true) sampleStopped).isSome = true := by
  decide

def stoppedRun : State × List Item :=
  (machine.exec (start allHandlers true true) sampleStopped).get stoppedRun_isSome

theorem stoppedRun_dropped :
    machine.Meets MatchesDropped (start allHandlers true true) [] sampleStopped := by
  decide

/-- A `stop` returns there, and the match is reported to the next `start`. -/
theorem finish_in_time_stoppedRun :
    (.stopReturned true ∈ stoppedRun.2 ∧ .handler (some 0) .onFinish ∈ stoppedRun.2) ∧
      FinishSafe stoppedRun.2 :=
  ⟨by decide,
    finish_in_time (Machine.reachIf_exec (start_init _ _ _) stoppedRun_dropped stoppedRun_isSome)⟩

/-- The bus gives a match to the callback after the scan was stopped. -/
def sampleLate : List Input :=
  sampleStart ++ [Input.emit (.status "verify-match" true)] ++ sampleStop ++ sampleWorker 2 .signal

theorem lateRun_isSome :
    (machine.exec (start allHandlers true true) sampleLate).isSome = true := by
  decide

def lateRun : State × List Item :=
  (machine.exec (start allHandlers true true) sampleLate).get lateRun_isSome

/-- **Not in every run**: `on_finish` is called after the `stop` has returned. -/
theorem finish_late : ¬∀ s tr, machine.Reach s tr → FinishSafe tr := by
  intro h
  have hsafe := h _ _ (Machine.reach_exec (start_init _ _ _) lateRun_isSome)
  have hnot : ¬FinishSafe lateRun.2 := by
    unfold FinishSafe
    decide
  exact hnot hsafe

end Auth.Fingerprint
