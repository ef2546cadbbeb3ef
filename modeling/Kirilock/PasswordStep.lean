import Kirilock.Password

/-!
What a step of `auth::Password` can do.

`Calls`, `Tests` and `WorkerStep` are the steps of the worker, `StopStep` those of a
`stop` wherever it runs (`Replaces`), `ClientStep` the client's other steps;
`machine_step` puts them together.
-/

namespace Auth.Password

open Runs

/-! ## `stop` -/

inductive StopStep (p : Members) : StopPc → Option StopPc → Members → List Item → Prop
  | refused (hr : p.isRunning = false) : StopStep p .compare none p [.stopReturned false]
  | claimed (hr : p.isRunning = true) :
      StopStep p .compare (some .exchange) { p with isRunning := false } []
  | took (hp : 0 < p.activePamPid) :
      StopStep p .exchange (some (.kill p.activePamPid)) { p with activePamPid := 0 } []
  | tookNone (hp : p.activePamPid = 0) : StopStep p .exchange none p [.stopReturned true]
  | killed (pid : Pid) : StopStep p (.kill pid) none p [.kill pid, .stopReturned true]

theorem Members.stop_step (p : Members) (pc : StopPc) :
    StopStep p pc (p.stop pc).1 (p.stop pc).2.1 (p.stop pc).2.2 := by
  cases pc with
  | compare =>
    cases hr : p.isRunning with
    | false => simpa [Members.stop, hr] using StopStep.refused hr
    | true => simpa [Members.stop, hr] using StopStep.claimed hr
  | exchange =>
    by_cases hp : 0 < p.activePamPid
    · simpa [Members.stop, hp] using StopStep.took hp
    · have hp0 : p.activePamPid = 0 := Nat.eq_zero_of_not_pos hp
      have hobj : { p with activePamPid := 0 } = p := by rw [← hp0]
      simpa [Members.stop, hp0, hobj] using StopStep.tookNone hp0
  | kill pid => exact .killed pid

/-- A `stop` that the client is in. -/
def ClientPc.stops : ClientPc → List StopPc
  | .stop pc => [pc]
  | .deleteStop pc => [pc]
  | _ => []

/-- Every `stop` that was called and has not returned. -/
def State.allStops (s : State) : List StopPc := s.client.stops ++ s.stops

/-- The `stop` that an input moves. -/
def State.moving (s : State) : Input → Option StopPc
  | .client _ => s.client.stops.head?
  | .other i => s.stops[i]?
  | _ => none

/-- One `stop` at `pc` goes on to `pc'`, or returns. -/
inductive Replaces (s : State) (pc : StopPc) (pc' : Option StopPc) :
    ClientPc → List StopPc → Prop
  | client (hpc : s.client = .stop pc) : Replaces s pc pc' (pc'.elim .idle .stop) s.stops
  | delete (hpc : s.client = .deleteStop pc) :
      Replaces s pc pc' (pc'.elim .deleteJoin .deleteStop) s.stops
  | other (l1 l2 : List StopPc) (hs : s.stops = l1 ++ pc :: l2) :
      Replaces s pc pc' s.client (l1 ++ pc'.toList ++ l2)

theorem Replaces.allStops {s : State} {pc : StopPc} {pc' : Option StopPc} {client : ClientPc}
    {stops : List StopPc} (h : Replaces s pc pc' client stops) :
    ∃ l1 l2, s.allStops = l1 ++ pc :: l2 ∧ client.stops ++ stops = l1 ++ pc'.toList ++ l2 := by
  cases h with
  | client hpc => exact ⟨[], s.stops, by simp [State.allStops, hpc, ClientPc.stops], by
      cases pc' <;> rfl⟩
  | delete hpc => exact ⟨[], s.stops, by simp [State.allStops, hpc, ClientPc.stops], by
      cases pc' <;> rfl⟩
  | other l1 l2 hs => exact ⟨s.client.stops ++ l1, l2, by simp [State.allStops, hs], by simp⟩

/-! ## The worker -/

/-- The places of `run_worker` that call a handler. -/
inductive Calls : WorkerPc → Handler → WorkerPc → Prop
  | onBegin : Calls .onBegin .onBegin .fork
  | forkFailed : Calls .forkFailed (.onError .system "fork() failed") .onEnd
  | report (status : Nat) : Calls (.report status) (verdict status) .onEnd
  | onEnd : Calls .onEnd .onEnd .loadStop
  | onStop : Calls .onStop .onStop .clearCandidate

/-- The places of `run_worker` that load `is_running_`. -/
inductive Tests : WorkerPc → Bool → WorkerPc → Prop
  | load (pid : Pid) : Tests (.load pid) true (.waitpid pid)
  | loadStopped (pid : Pid) : Tests (.load pid) false (.exchange pid)
  | verdict (status : Nat) : Tests (.loadVerdict status) true (.report status)
  | verdictStopped (status : Nat) : Tests (.loadVerdict status) false .onEnd
  | stop : Tests .loadStop true .clearCandidate
  | stopStopped : Tests .loadStop false .onStop

inductive WorkerStep (s : State) (w : Worker) (o : WorkerOutcomes) :
    Members → List Child → WorkerPc → List Item → Prop
  | called {h : Handler} {pc : WorkerPc} (hpc : Calls w.pc h pc) :
      WorkerStep s w o s.obj s.children pc (s.obj.invoke w.attempt h)
  | tested {pc : WorkerPc} (hpc : Tests w.pc s.obj.isRunning pc) :
      WorkerStep s w o s.obj s.children pc []
  | notForked (hpc : w.pc = .fork) (ho : o.fork = none) :
      WorkerStep s w o s.obj s.children .forkFailed [.forked w.attempt none]
  | forked (pid : Pid) (hpc : w.pc = .fork) (hpid : 0 < pid)
      (hnew : ∀ c ∈ s.children, c.pid ≠ pid) :
      WorkerStep s w o s.obj (⟨pid, w.attempt, s.obj.candidate, none⟩ :: s.children) (.store pid)
        [.forked w.attempt (some pid)]
  | stored (pid : Pid) (hpc : w.pc = .store pid) :
      WorkerStep s w o { s.obj with activePamPid := pid } s.children (.load pid) []
  | took (pid : Pid) (hpc : w.pc = .exchange pid) (hp : 0 < s.obj.activePamPid) :
      WorkerStep s w o { s.obj with activePamPid := 0 } s.children (.kill pid s.obj.activePamPid) []
  | tookNone (pid : Pid) (hpc : w.pc = .exchange pid) (hp : s.obj.activePamPid = 0) :
      WorkerStep s w o s.obj s.children (.waitpid pid) []
  | killed (pid toKill : Pid) (hpc : w.pc = .kill pid toKill) :
      WorkerStep s w o s.obj s.children (.waitpid pid) [.kill toKill]
  | reaped (pid : Pid) (c : Child) (run : ChildRun) (hpc : w.pc = .waitpid pid)
      (ho : o.waitpid = true) (hc : c ∈ s.children) (hpid : c.pid = pid)
      (hrun : c.ended = some run) :
      WorkerStep s w o s.obj (s.children.filter (·.pid ≠ pid)) (.reset run.status)
        [.waited w.attempt pid (some run.status)]
  | waitFailed (pid : Pid) (hpc : w.pc = .waitpid pid) (ho : o.waitpid = false) :
      WorkerStep s w o s.obj s.children (.reset 0) [.waited w.attempt pid none]
  | reset (status : Nat) (hpc : w.pc = .reset status) :
      WorkerStep s w o { s.obj with activePamPid := 0 } s.children (.loadVerdict status) []
  | cleared (hpc : w.pc = .clearCandidate) :
      WorkerStep s w o s.obj.clearCandidate.1 s.children .storeStopped s.obj.clearCandidate.2
  | stopped (hpc : w.pc = .storeStopped) :
      WorkerStep s w o { s.obj with isRunning := false } s.children .exited []

/-- The state after the worker moved. -/
def State.worked (s : State) (w : Worker) (p : Members) (cs : List Child) (pc : WorkerPc) : State :=
  { s with obj := p, children := cs, worker := some { w with pc := pc } }

theorem runWorker_step {s s' : State} {w : Worker} {o : WorkerOutcomes} {out : List Item}
    (h : s.runWorker w o = some (s', out)) :
    ∃ p cs pc, WorkerStep s w o p cs pc out ∧ s' = s.worked w p cs pc := by
  simp only [State.runWorker, State.goto] at h
  split at h
  case h_1 hpc =>
    cases h
    exact ⟨_, _, _, .called (hpc ▸ .onBegin), rfl⟩
  case h_2 hpc =>
    split at h
    · rename_i ho
      cases h
      exact ⟨_, _, _, .notForked hpc ho, rfl⟩
    · split at h
      · rename_i hnew
        cases h
        exact ⟨_, _, _, .forked _ hpc hnew.1 hnew.2, rfl⟩
      · cases h
  case h_3 hpc =>
    cases h
    exact ⟨_, _, _, .called (hpc ▸ .forkFailed), rfl⟩
  case h_4 hpc =>
    cases h
    exact ⟨_, _, _, .stored _ hpc, rfl⟩
  case h_5 pid hpc =>
    cases h
    refine ⟨_, _, _, .tested (hpc ▸ ?_), rfl⟩
    cases s.obj.isRunning with
    | true => exact .load pid
    | false => exact .loadStopped pid
  case h_6 pid hpc =>
    cases h
    by_cases hp : s.obj.activePamPid > 0
    · rw [if_pos hp]
      exact ⟨_, _, _, .took pid hpc hp, rfl⟩
    · have hp0 : s.obj.activePamPid = 0 := Nat.eq_zero_of_not_pos hp
      have hobj : { s.obj with activePamPid := 0 } = s.obj := by rw [← hp0]
      rw [if_neg hp, hobj]
      exact ⟨_, _, _, .tookNone pid hpc hp0, rfl⟩
  case h_7 pid toKill hpc =>
    cases h
    exact ⟨_, _, _, .killed pid toKill hpc, rfl⟩
  case h_8 pid hpc =>
    split at h
    · rename_i ho
      split at h
      · rename_i hf
        cases h
        exact ⟨_, _, _, .reaped pid _ _ hpc ho (List.mem_of_find?_eq_some hf)
          (by simpa using List.find?_some hf) rfl, rfl⟩
      · cases h
    · rename_i ho
      cases h
      exact ⟨_, _, _, .waitFailed pid hpc (by simpa using ho), rfl⟩
  case h_9 hpc =>
    cases h
    exact ⟨_, _, _, .reset _ hpc, rfl⟩
  case h_10 status hpc =>
    cases h
    refine ⟨_, _, _, .tested (hpc ▸ ?_), rfl⟩
    cases s.obj.isRunning with
    | true => exact .verdict status
    | false => exact .verdictStopped status
  case h_11 status hpc =>
    cases h
    exact ⟨_, _, _, .called (hpc ▸ .report status), rfl⟩
  case h_12 hpc =>
    cases h
    exact ⟨_, _, _, .called (hpc ▸ .onEnd), rfl⟩
  case h_13 hpc =>
    cases h
    refine ⟨_, _, _, .tested (hpc ▸ ?_), rfl⟩
    cases s.obj.isRunning with
    | true => exact .stop
    | false => exact .stopStopped
  case h_14 hpc =>
    cases h
    exact ⟨_, _, _, .called (hpc ▸ .onStop), rfl⟩
  case h_15 hpc =>
    cases h
    exact ⟨_, _, _, .cleared hpc, rfl⟩
  case h_16 hpc =>
    cases h
    exact ⟨_, _, _, .stopped hpc, rfl⟩
  case h_17 => cases h

/-! ## The client -/

/-- The places of `verify` whose call can throw. -/
inductive Throws : ClientPc → Prop
  | join (pass : List UInt8) : Throws (.join pass)
  | assign (pass : List UInt8) : Throws (.assign pass)
  | create : Throws .create

/-- A step of the client outside `stop`. -/
inductive ClientStep (s : State) : Members → Option Worker → ClientPc → List Item → Prop
  | refused (pass : List UInt8) (hpc : s.client = .compare pass) (hr : s.obj.isRunning = true) :
      ClientStep s s.obj s.worker .idle [.verifyReturned s.verifies false]
  | claimed (pass : List UInt8) (hpc : s.client = .compare pass) (hr : s.obj.isRunning = false) :
      ClientStep s { s.obj with isRunning := true } s.worker (.join pass) []
  | joined (pass : List UInt8) (hpc : s.client = .join pass)
      (hw : ∀ w, s.worker = some w → w.pc = .exited) :
      ClientStep s s.obj none (.assign pass) []
  | threw (hpc : Throws s.client) : ClientStep s s.obj s.worker .catchStore []
  | assigned (pass : List UInt8) (hpc : s.client = .assign pass) :
      ClientStep s { s.obj with candidate := pass } s.worker .create []
  | created (hpc : s.client = .create) :
      ClientStep s s.obj (some ⟨s.verifies, .onBegin⟩) .idle
        [.started s.verifies, .verifyReturned s.verifies true]
  | caught (hpc : s.client = .catchStore) :
      ClientStep s { s.obj with isRunning := false } s.worker .catchClear []
  | failed (hpc : s.client = .catchClear) :
      ClientStep s s.obj.clearCandidate.1 s.worker .idle
        (s.obj.clearCandidate.2 ++ [.verifyReturned s.verifies false])
  | deleteJoined (hpc : s.client = .deleteJoin) (hw : ∀ w, s.worker = some w → w.pc = .exited) :
      ClientStep s s.obj none .deleteClear []
  | deleteCleared (hpc : s.client = .deleteClear) :
      ClientStep s s.obj.clearCandidate.1 s.worker .onDelete s.obj.clearCandidate.2
  | deleted (hpc : s.client = .onDelete) (hs : s.stops = []) :
      ClientStep s s.obj s.worker .deleted
        ((if s.obj.handlers.onDelete then [.onDelete] else []) ++ [.deleted])

/-! ## The machine -/

inductive Step (s : State) : Input → State → List Item → Prop
  | verify (pass : List UInt8) (hpc : s.client = .idle) :
      Step s (.verify pass) { s with verifies := s.verifies + 1, client := .compare pass }
        [.verify (s.verifies + 1) pass]
  | stop (hpc : s.client = .idle) : Step s .stop { s with client := .stop .compare } [.stop]
  | delete (hpc : s.client = .idle) :
      Step s .delete { s with client := .deleteStop .compare } [.delete, .stop]
  | client (ok : Bool) (p : Members) (w : Option Worker) (pc : ClientPc) (out : List Item)
      (h : ClientStep s p w pc out) :
      Step s (.client ok) { s with obj := p, worker := w, client := pc } out
  | otherStop (hpc : s.client ≠ .deleted) :
      Step s .otherStop { s with stops := .compare :: s.stops } [.stop]
  | stopStep (i : Input) (pc : StopPc) (pc' : Option StopPc) (client : ClientPc)
      (stops : List StopPc) (p : Members) (out : List Item)
      (hi : s.moving i = some pc) (hr : Replaces s pc pc' client stops)
      (h : StopStep s.obj pc pc' p out) :
      Step s i { s with obj := p, client := client, stops := stops } out
  | worker (o : WorkerOutcomes) (w : Worker) (p : Members) (cs : List Child) (pc : WorkerPc)
      (out : List Item) (hw : s.worker = some w) (h : WorkerStep s w o p cs pc out) :
      Step s (.worker o) (s.worked w p cs pc) out
  | childEnds (pid : Pid) (run : ChildRun) (c : Child) (hc : c ∈ s.children) (hpid : c.pid = pid)
      (hrun : c.ended = none) :
      Step s (.childEnds pid run) { s with children := s.children.map (endChild pid run) }
        [.childEnded c.attempt run]

theorem runClient_step {s s' : State} {ok : Bool} {out : List Item}
    (h : s.runClient ok = some (s', out)) : Step s (.client ok) s' out := by
  simp only [State.runClient, State.clientAt] at h
  split at h
  case h_1 pass hpc =>
    split at h
    · rename_i hr
      cases h
      exact .client ok _ _ _ _ (.refused pass hpc hr)
    · rename_i hr
      cases h
      exact .client ok _ _ _ _ (.claimed pass hpc (by simpa using hr))
  case h_2 pass hpc =>
    split at h
    · rename_i hw
      cases h
      have hs := Step.client ok _ _ _ _ (.joined pass hpc (by simp [hw]))
      rwa [← hw] at hs
    · rename_i w hw
      split at h
      · cases h
        exact .client ok _ _ _ _ (.threw (hpc ▸ .join pass))
      · split at h
        · rename_i hexited
          cases h
          refine .client ok _ _ _ _ (.joined pass hpc fun w' hw' => ?_)
          rw [hw, Option.some.injEq] at hw'
          exact hw' ▸ hexited
        · cases h
  case h_3 pass hpc =>
    split at h
    · cases h
      exact .client ok _ _ _ _ (.assigned pass hpc)
    · cases h
      exact .client ok _ _ _ _ (.threw (hpc ▸ .assign pass))
  case h_4 hpc =>
    split at h
    · cases h
      exact .client ok _ _ _ _ (.created hpc)
    · cases h
      exact .client ok _ _ _ _ (.threw (hpc ▸ .create))
  case h_5 hpc =>
    cases h
    exact .client ok _ _ _ _ (.caught hpc)
  case h_6 hpc =>
    cases h
    exact .client ok _ _ _ _ (.failed hpc)
  case h_7 pc hpc =>
    cases h
    exact .stopStep _ pc _ _ _ _ _ (by simp [State.moving, hpc, ClientPc.stops]) (.client hpc)
      (s.obj.stop_step pc)
  case h_8 pc hpc =>
    cases h
    exact .stopStep _ pc _ _ _ _ _ (by simp [State.moving, hpc, ClientPc.stops]) (.delete hpc)
      (s.obj.stop_step pc)
  case h_9 hpc =>
    split at h
    · rename_i hw
      cases h
      have hs := Step.client ok _ _ _ _ (.deleteJoined hpc (by simp [hw]))
      rwa [← hw] at hs
    · rename_i w hw
      split at h
      · rename_i hexited
        cases h
        refine .client ok _ _ _ _ (.deleteJoined hpc fun w' hw' => ?_)
        rw [hw, Option.some.injEq] at hw'
        exact hw' ▸ hexited
      · cases h
  case h_10 hpc =>
    cases h
    exact .client ok _ _ _ _ (.deleteCleared hpc)
  case h_11 hpc =>
    split at h
    · rename_i hs
      cases h
      exact .client ok _ _ _ _ (.deleted hpc hs)
    · cases h
  case h_12 | h_13 => cases h

/-- **What a step can do.** -/
theorem machine_step {s s' : State} {i : Input} {out : List Item}
    (h : machine.step s i = some (s', out)) : Step s i s' out := by
  cases i with
  | verify pass =>
    simp only [machine, State.step, State.clientAt] at h
    split at h
    · rename_i hpc
      cases h
      exact .verify pass hpc
    · cases h
  | stop =>
    simp only [machine, State.step, State.clientAt] at h
    split at h
    · rename_i hpc
      cases h
      exact .stop hpc
    · cases h
  | delete =>
    simp only [machine, State.step, State.clientAt] at h
    split at h
    · rename_i hpc
      cases h
      exact .delete hpc
    · cases h
  | client ok => exact runClient_step h
  | otherStop =>
    simp only [machine, State.step] at h
    split at h
    · cases h
    · rename_i hpc
      cases h
      exact .otherStop hpc
  | other i =>
    simp only [machine, State.step] at h
    split at h
    · cases h
    · rename_i pc hat
      cases h
      obtain ⟨hi, hpc⟩ := List.getElem?_eq_some_iff.mp hat
      have hsplit : s.stops = s.stops.take i ++ pc :: s.stops.drop (i + 1) := by
        rw [← hpc, List.getElem_cons_drop, List.take_append_drop]
      exact .stopStep _ pc _ _ _ _ _ hat (.other _ _ hsplit) (s.obj.stop_step pc)
  | worker o =>
    obtain ⟨w, hw, hrun⟩ := Option.bind_eq_some_iff.mp h
    obtain ⟨p, cs, pc, hstep, rfl⟩ := runWorker_step hrun
    exact .worker o w p cs pc out hw hstep
  | childEnds pid run =>
    simp only [machine, State.step] at h
    split at h
    · rename_i hf
      cases h
      exact .childEnds pid run _ (List.mem_of_find?_eq_some hf)
        (by simpa using List.find?_some hf) rfl
    · cases h

theorem ClientStep.noStop {s : State} {p : Members} {w : Option Worker} {pc : ClientPc}
    {out : List Item} (h : ClientStep s p w pc out) : s.client.stops = [] := by
  cases h with
  | threw hpc =>
    generalize s.client = client at hpc
    cases hpc <;> rfl
  | refused pass hpc | claimed pass hpc | joined pass hpc | assigned pass hpc | created hpc
  | caught hpc | failed hpc | deleteJoined hpc | deleteCleared hpc | deleted hpc =>
    rw [hpc]
    rfl

/-- The step of a `stop` that moves. -/
theorem step_moving {s s' : State} {i : Input} {pc : StopPc} {out : List Item}
    (hi : s.moving i = some pc) (hs : machine.step s i = some (s', out)) :
    ∃ pc', StopStep s.obj pc pc' s'.obj out := by
  cases machine_step hs with
  | stopStep i pc1 pc' client stops p out hi' hr h =>
    cases hi'.symm.trans hi
    exact ⟨pc', h⟩
  | client ok p w pc1 out h =>
    rw [State.moving, h.noStop] at hi
    cases hi
  | _ => cases hi

/-! ## The thread object -/

/-- The places of the client where `worker_thread_` is not joinable. -/
def ClientPc.unjoinable : ClientPc → Bool
  | .assign _ => true
  | .create => true
  | .deleteClear => true
  | .onDelete => true
  | .deleted => true
  | _ => false

theorem Replaces.unjoinable {s : State} {pc : StopPc} {pc' : Option StopPc} {client : ClientPc}
    {stops : List StopPc} (h : Replaces s pc pc' client stops) (hj : client.unjoinable = true) :
    client = s.client := by
  cases h with
  | client hpc => cases pc' <;> cases hj
  | delete hpc => cases pc' <;> cases hj
  | other l1 l2 hs => rfl

theorem unjoinable_reach {ok : State → List Item → Input → Prop} {s : State} {tr : List Item}
    (h : machine.ReachIf ok s tr) : s.client.unjoinable = true → s.worker = none := by
  refine h.invariant (I := fun s _ => s.client.unjoinable = true → s.worker = none) ?_ ?_
  · rintro s ⟨handlers, rfl⟩ -
    rfl
  · intro s tr i s' out hinv _ hs hj
    cases machine_step hs with
    | verify pass hpc => cases hj
    | stop hpc => cases hj
    | delete hpc => cases hj
    | client ok p w pc out h =>
      cases h with
      | joined => rfl
      | deleteJoined => rfl
      | assigned pass hpc => exact hinv (by rw [hpc]; rfl)
      | deleteCleared hpc => exact hinv (by rw [hpc]; rfl)
      | deleted hpc => exact hinv (by rw [hpc]; rfl)
      | _ => cases hj
    | otherStop hpc => exact hinv hj
    | stopStep i pc pc' client stops p out hi hr h =>
      exact hinv (hr.unjoinable hj ▸ hj)
    | worker o w p cs pc out hw h => rw [hinv hj] at hw; cases hw
    | childEnds pid run c hc hpid hrun => exact hinv hj

/-- The `join` of `verify` does not throw. -/
def JoinReturns (s : State) (_ : List Item) (i : Input) : Prop :=
  match s.client with
  | .join _ => i ≠ .client false
  | _ => True

instance (s : State) (tr : List Item) (i : Input) : Decidable (JoinReturns s tr i) := by
  unfold JoinReturns
  split <;> infer_instance

/-- The places of the client where no thread is left. -/
def ClientPc.alone : ClientPc → Bool
  | .catchStore => true
  | .catchClear => true
  | pc => pc.unjoinable

theorem Replaces.alone {s : State} {pc : StopPc} {pc' : Option StopPc} {client : ClientPc}
    {stops : List StopPc} (h : Replaces s pc pc' client stops) (ha : client.alone = true) :
    client = s.client := by
  cases h with
  | client hpc => cases pc' <;> cases ha
  | delete hpc => cases pc' <;> cases ha
  | other l1 l2 hs => rfl

theorem step_join {s s' : State} {pass : List UInt8} {out : List Item}
    (hpc : s.client = .join pass) (hs : machine.step s (.client true) = some (s', out)) :
    s'.client = .assign pass := by
  simp only [machine, State.step, State.runClient, hpc, State.clientAt] at hs
  split at hs
  · cases hs
    rfl
  · split at hs
    · rename_i hok
      cases hok
    · split at hs
      · cases hs
        rfl
      · cases hs

/-- A `verify` that fails has joined the last thread. -/
theorem alone_reach {s : State} {tr : List Item} (h : machine.ReachIf JoinReturns s tr) :
    s.client.alone = true → s.worker = none := by
  refine h.invariant_of (J := fun s _ => s.client.unjoinable = true → s.worker = none)
    (I := fun s _ => s.client.alone = true → s.worker = none) unjoinable_reach ?_ ?_
  · rintro s ⟨handlers, rfl⟩ -
    rfl
  · intro s tr i s' out hj hinv hok hs ha
    cases machine_step hs with
    | verify pass hpc | stop hpc | delete hpc => cases ha
    | client ok p w pc out h =>
      cases h with
      | joined => rfl
      | deleteJoined => rfl
      | threw hpc =>
        generalize hc : s.client = client at hpc
        cases hpc with
        | join pass =>
          simp only [JoinReturns, hc] at hok
          cases ok with
          | false => exact absurd rfl hok
          | true => cases step_join hc hs
        | assign pass => exact hj (by rw [hc]; rfl)
        | create => exact hj (by rw [hc]; rfl)
      | assigned pass hpc => exact hj (by rw [hpc]; rfl)
      | caught hpc | failed hpc | deleteCleared hpc | deleted hpc => exact hinv (by rw [hpc]; rfl)
      | _ => cases ha
    | otherStop hpc => exact hinv ha
    | stopStep i pc pc' client stops p out hi hr h => exact hinv (hr.alone ha ▸ ha)
    | worker o w p cs pc out hw h => rw [hinv ha] at hw; cases hw
    | childEnds pid run c hc hpid hrun => exact hinv ha

/-! ## The numbers of the attempts -/

/-- The attempt that an item of its worker is of. -/
def Item.attempt : Item → Option Nat
  | .started n => some n
  | .handler n _ => some n
  | .forked n _ => some n
  | .waited n _ _ => some n
  | _ => none

/-- In a call of `verify`. -/
def ClientPc.verifying : ClientPc → Bool
  | .compare _ => true
  | .join _ => true
  | .assign _ => true
  | .create => true
  | .catchStore => true
  | .catchClear => true
  | _ => false

/-- The attempt that the next thread would be of, and all later ones. -/
def State.unborn (s : State) (n : Nat) : Prop :=
  s.verifies < n ∨ s.client.verifying = true ∧ n = s.verifies

/-- The worker is of a started attempt, and nothing is known of an attempt before its thread
is created. -/
structure Numbered (s : State) (tr : List Item) : Prop where
  worker : ∀ w, s.worker = some w →
    (∃ pass, .verify w.attempt pass ∈ tr) ∧ .started w.attempt ∈ tr
  calling : s.client.verifying = true → ∃ pass, .verify s.verifies pass ∈ tr
  unborn : ∀ n, s.unborn n → ∀ x ∈ tr, x.attempt ≠ some n

theorem Members.clearCandidate_items (p : Members) :
    ∀ c ∈ p.clearCandidate.2, ∃ bytes, c = .cleared bytes := by
  unfold Members.clearCandidate
  split <;> simp

theorem Members.clearCandidate_attempt (p : Members) :
    ∀ x ∈ p.clearCandidate.2, x.attempt = none := by
  intro x hx
  obtain ⟨bytes, rfl⟩ := p.clearCandidate_items x hx
  rfl

theorem Members.invoke_items (p : Members) (n : Nat) (h : Handler) :
    ∀ x ∈ p.invoke n h, x = .handler n h := by
  unfold Members.invoke
  split <;> simp

theorem WorkerStep.attempts {s : State} {w : Worker} {o : WorkerOutcomes} {p : Members}
    {cs : List Child} {pc : WorkerPc} {out : List Item} (h : WorkerStep s w o p cs pc out) :
    ∀ x ∈ out, x.attempt = none ∨ x.attempt = some w.attempt := by
  intro x hx
  cases h with
  | called hpc =>
    rw [s.obj.invoke_items _ _ x hx]
    exact Or.inr rfl
  | cleared hpc => exact Or.inl (s.obj.clearCandidate_attempt x hx)
  | _ => simp at hx <;> simp [hx, Item.attempt]

theorem StopStep.attempts {p p' : Members} {pc : StopPc} {pc' : Option StopPc}
    {out : List Item} (h : StopStep p pc pc' p' out) : ∀ x ∈ out, x.attempt = none := by
  cases h <;> simp [Item.attempt]

/-- The client's step in `verify` goes on there, starts the attempt, or returns. -/
theorem ClientStep.attempts {s : State} {p : Members} {w : Option Worker} {pc : ClientPc}
    {out : List Item} (h : ClientStep s p w pc out) :
    (∀ x ∈ out, x.attempt = none) ∧ (pc.verifying = true → s.client.verifying = true) ∧
        (w = s.worker ∨ w = none) ∨
      s.client = .create ∧ pc = .idle ∧ w = some ⟨s.verifies, .onBegin⟩ ∧
        out = [.started s.verifies, .verifyReturned s.verifies true] := by
  cases h with
  | created hpc => exact Or.inr ⟨hpc, rfl, rfl, rfl⟩
  | threw hpc =>
    refine Or.inl ⟨nofun, fun _ => ?_, Or.inl rfl⟩
    generalize s.client = client at hpc
    cases hpc <;> rfl
  | failed hpc =>
    refine Or.inl ⟨fun x hx => ?_, nofun, Or.inl rfl⟩
    rcases List.mem_append.mp hx with hx | hx
    · exact s.obj.clearCandidate_attempt x hx
    · rw [List.mem_singleton.mp hx]
      rfl
  | deleteCleared hpc => exact Or.inl ⟨s.obj.clearCandidate_attempt, nofun, Or.inl rfl⟩
  | deleted hpc hs =>
    refine Or.inl ⟨?_, nofun, Or.inl rfl⟩
    split <;> simp [Item.attempt]
  | _ => exact Or.inl ⟨by simp [Item.attempt], by simp [*, ClientPc.verifying], by simp⟩

theorem Replaces.verifying {s : State} {pc : StopPc} {pc' : Option StopPc} {client : ClientPc}
    {stops : List StopPc} (h : Replaces s pc pc' client stops) :
    client.verifying = s.client.verifying := by
  cases h with
  | client hpc => cases pc' <;> rw [hpc] <;> rfl
  | delete hpc => cases pc' <;> rw [hpc] <;> rfl
  | other l1 l2 hs => rfl

theorem numbered_reach {ok : State → List Item → Input → Prop} {s : State} {tr : List Item}
    (h : machine.ReachIf ok s tr) : Numbered s tr := by
  refine h.invariant ?_ ?_
  · rintro s ⟨handlers, rfl⟩
    exact ⟨nofun, nofun, nofun⟩
  · intro s tr i s' out hinv _ hs
    -- no attempt starts, and the items are of none or of a started one
    have hkeeps : ∀ {s' : State} {out}, s'.verifies = s.verifies →
        (s'.client.verifying = true → s.client.verifying = true) →
        (∀ w, s'.worker = some w → ∃ w0, s.worker = some w0 ∧ w.attempt = w0.attempt) →
        (∀ x ∈ out, x.attempt = none ∨ ∃ w, s.worker = some w ∧ x.attempt = some w.attempt) →
        Numbered s' (tr ++ out) := by
      intro s' out hv hc hw hout
      refine ⟨fun w hw' => ?_, fun hc' => ?_, fun n hn x hx => ?_⟩
      · obtain ⟨w0, hw0, he⟩ := hw w hw'
        obtain ⟨⟨pass, hp⟩, hstart⟩ := hinv.worker w0 hw0
        rw [he]
        exact ⟨⟨pass, List.mem_append_left _ hp⟩, List.mem_append_left _ hstart⟩
      · obtain ⟨pass, hp⟩ := hinv.calling (hc hc')
        exact ⟨pass, List.mem_append_left _ (hv ▸ hp)⟩
      · have hn' : s.unborn n := by
          unfold State.unborn at hn ⊢
          rw [hv] at hn
          exact hn.imp_right fun ⟨h1, h2⟩ => ⟨hc h1, h2⟩
        rcases List.mem_append.mp hx with hx | hx
        · exact hinv.unborn n hn' x hx
        · rcases hout x hx with h0 | ⟨w, hw, he⟩
          · rw [h0]
            exact nofun
          · rw [he]
            rintro ⟨rfl⟩
            exact hinv.unborn _ hn' _ (hinv.worker w hw).2 rfl
    have hplain : ∀ {out : List Item}, (∀ x ∈ out, x.attempt = none) →
        ∀ x ∈ out, x.attempt = none ∨ ∃ w, s.worker = some w ∧ x.attempt = some w.attempt :=
      fun h x hx => Or.inl (h x hx)
    cases machine_step hs with
    | verify pass hpc =>
      refine ⟨fun w hw => ?_, fun _ => ⟨pass, by simp⟩, fun n hn x hx => ?_⟩
      · obtain ⟨⟨pass, hp⟩, hstart⟩ := hinv.worker w hw
        exact ⟨⟨pass, List.mem_append_left _ hp⟩, List.mem_append_left _ hstart⟩
      · have hn' : s.verifies < n := by
          rcases hn with hn | ⟨-, rfl⟩
          · exact Nat.lt_of_succ_lt hn
          · exact Nat.lt_succ_self _
        rcases List.mem_append.mp hx with hx | hx
        · exact hinv.unborn n (Or.inl hn') x hx
        · rw [List.mem_singleton.mp hx]
          exact nofun
    | stop hpc | delete hpc =>
      exact hkeeps rfl nofun (fun w hw => ⟨w, hw, rfl⟩) (hplain (by simp [Item.attempt]))
    | client ok p w pc out h =>
      rcases h.attempts with ⟨hout, hc, hw⟩ | ⟨hpc, rfl, rfl, rfl⟩
      · refine hkeeps rfl hc (fun w' hw' => ?_) (hplain hout)
        rcases hw with rfl | rfl
        · exact ⟨w', hw', rfl⟩
        · cases hw'
      · -- the attempt of this `verify` is born
        obtain ⟨pass, hp⟩ := hinv.calling (by rw [hpc]; rfl)
        refine ⟨fun w hw => ?_, nofun, fun n hn x hx => ?_⟩
        · cases hw
          exact ⟨⟨pass, List.mem_append_left _ hp⟩, by simp⟩
        · have hn' : s.verifies < n := hn.resolve_right nofun
          rcases List.mem_append.mp hx with hx | hx
          · exact hinv.unborn n (Or.inl hn') x hx
          · simp only [List.mem_cons, List.not_mem_nil, or_false] at hx
            rcases hx with rfl | rfl
            · simp only [Item.attempt, ne_eq, Option.some.injEq]
              omega
            · exact nofun
    | otherStop hpc =>
      exact hkeeps rfl id (fun w hw => ⟨w, hw, rfl⟩) (hplain (by simp [Item.attempt]))
    | stopStep i pc pc' client stops p out hi hr h =>
      exact hkeeps rfl (fun hv => hr.verifying ▸ hv) (fun w hw => ⟨w, hw, rfl⟩) (hplain h.attempts)
    | worker o w p cs pc out hw h =>
      refine hkeeps rfl id (fun w' hw' => ?_) fun x hx => (h.attempts x hx).imp_right fun he =>
        ⟨w, hw, he⟩
      cases hw'
      exact ⟨w, hw, rfl⟩
    | childEnds pid run c hc hpid hrun =>
      exact hkeeps rfl id (fun w hw => ⟨w, hw, rfl⟩) (hplain (by simp [Item.attempt]))

end Auth.Password
