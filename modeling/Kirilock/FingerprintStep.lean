import Kirilock.Fingerprint

/-!
What a step of `auth::Fingerprint` can do.

`Goes`, `Calls` and `WorkerStep` are the steps of the worker, `StopStep` those of a
`stop` wherever it runs (`Replaces`), `ClientStep` the client's other steps;
`machine_step` puts them together.
-/

namespace Auth.Fingerprint

open Runs

/-! ## `stop` -/

inductive StopStep (p : Members) (ok : Bool) : StopPc → Option StopPc → Members → List Item → Prop
  | claimed (hr : p.isRunning = true) :
      StopStep p ok .compareRunning (some .write) { p with isRunning := false } []
  | missed (hr : p.isRunning = false) :
      StopStep p ok .compareRunning (some (.compareCheck false)) p []
  | wrote :
      StopStep p ok .write (some (.compareCheck true))
        { p with cancelPipe := if ok then p.cancelPipe.map (· + 1) else p.cancelPipe } []
  | took (found : Bool) (hc : p.checkInProgress = true) :
      StopStep p ok (.compareCheck found) (some (.onEnd found))
        { p with checkInProgress := false } []
  | returned (found : Bool) (hc : p.checkInProgress = false) :
      StopStep p ok (.compareCheck found) none p [.stopReturned found]
  | ended (found : Bool) :
      StopStep p ok (.onEnd found) (some (.onStop found)) p (p.invoke none .onEnd)
  | stopped (found : Bool) :
      StopStep p ok (.onStop found) none p (p.invoke none .onStop ++ [.stopReturned found])

theorem Members.stop_step (p : Members) (ok : Bool) (pc : StopPc) :
    StopStep p ok pc (p.stop ok pc).1 (p.stop ok pc).2.1 (p.stop ok pc).2.2 := by
  cases pc with
  | compareRunning =>
    cases hr : p.isRunning with
    | false => simpa [Members.stop, hr] using StopStep.missed hr
    | true => simpa [Members.stop, hr] using StopStep.claimed hr
  | write => exact .wrote
  | compareCheck found =>
    cases hc : p.checkInProgress with
    | false => simpa [Members.stop, hc] using StopStep.returned found hc
    | true => simpa [Members.stop, hc] using StopStep.took found hc
  | onEnd found => exact .ended found
  | onStop found => exact .stopped found

/-- A `stop` that the client is in. -/
def ClientPc.stops : ClientPc → List StopPc
  | .stop pc => [pc]
  | .deleteStop pc => [pc]
  | _ => []

/-- Every `stop` that was called and has not returned. -/
def State.allStops (s : State) : List StopPc := s.client.stops ++ s.stops

/-- The `stop` that an input moves. -/
def State.moving (s : State) : Input → Option StopPc
  | .client _ => s.client.stops.head?
  | .other i _ => s.stops[i]?
  | _ => none

/-- One `stop` at `pc` goes on to `pc'`, or returns. -/
inductive Replaces (s : State) (pc : StopPc) (pc' : Option StopPc) :
    ClientPc → List StopPc → Prop
  | client (hpc : s.client = .stop pc) : Replaces s pc pc' (pc'.elim .idle .stop) s.stops
  | delete (hpc : s.client = .deleteStop pc) :
      Replaces s pc pc' (pc'.elim .deleteJoin .deleteStop) s.stops
  | other (l1 l2 : List StopPc) (hs : s.stops = l1 ++ pc :: l2) :
      Replaces s pc pc' s.client (l1 ++ pc'.toList ++ l2)

theorem Replaces.allStops {s : State} {pc : StopPc} {pc' : Option StopPc} {client : ClientPc}
    {stops : List StopPc} (h : Replaces s pc pc' client stops) :
    ∃ l1 l2, s.allStops = l1 ++ pc :: l2 ∧ client.stops ++ stops = l1 ++ pc'.toList ++ l2 := by
  cases h with
  | client hpc => exact ⟨[], s.stops, by simp [State.allStops, hpc, ClientPc.stops], by
      cases pc' <;> rfl⟩
  | delete hpc => exact ⟨[], s.stops, by simp [State.allStops, hpc, ClientPc.stops], by
      cases pc' <;> rfl⟩
  | other l1 l2 hs => exact ⟨s.client.stops ++ l1, l2, by simp [State.allStops, hs], by simp⟩

/-! ## The worker -/

/-- The steps of `run_worker` that only look. -/
inductive Goes (p : Members) : WorkerPc → WorkerPc → Prop
  | running (hr : p.isRunning = true) (hd : p.device = true) : Goes p .loadRunning .verifyStart
  | noDevice (hr : p.isRunning = true) (hd : p.device = false) : Goes p .loadRunning .notFound
  | exits (hr : p.isRunning = false) : Goes p .loadRunning .exited
  | leaves : Goes p .leave .exited
  | inner (hr : p.isRunning = true) : Goes p .loadInner .loadCheck
  | innerStopped (hr : p.isRunning = false) : Goes p .loadInner .verifyStop
  | check (hc : p.checkInProgress = true) : Goes p .loadCheck .process
  | checkDone (hc : p.checkInProgress = false) : Goes p .loadCheck .verifyStop
  | processFailed : Goes p .process .verifyStop
  | processNothing : Goes p .process .select
  | processOther : Goes p .process .loadInner
  | unreadable (k : Nat) : Goes p (.callback k .unreadable) .loadInner
  | notInProgress (k : Nat) (hc : p.checkInProgress = false) : Goes p (.compareCheck k) .loadInner
  | select : Goes p .select .loadInner
  | pause : Goes p .pause .loadRunning

/-- The places of the worker that call a handler. -/
inductive Calls : WorkerPc → Option Nat → Handler → WorkerPc → Prop
  | notFound : Calls .notFound none (.onError .notFound "D-Bus or device not found") .leave
  | startFailed (msg : Option String) :
      Calls (.startFailed msg) none (.onError .system (msg.getD "Failed to start scanning")) .leave
  | onLoop : Calls .onLoop none .onLoop .loadInner
  | verdict (k : Nat) (result : String) (done : Bool) :
      Calls (.callback k (.status result done)) (some k) (verdict result)
        (if done then .compareCheck k else .loadInner)
  | callbackEnd (k : Nat) : Calls (.callbackEnd k) (some k) .onEnd .loadInner

inductive WorkerStep (s : State) (o : WorkerOutcomes) :
    WorkerPc → Members → List (Nat × Signal) → WorkerPc → List Item → Prop
  | goes {pc pc' : WorkerPc} (h : Goes s.obj pc pc') : WorkerStep s o pc s.obj s.queue pc' []
  | called {pc pc' : WorkerPc} {k : Option Nat} {h : Handler} (hpc : Calls pc k h pc') :
      WorkerStep s o pc s.obj s.queue pc' (s.obj.invoke k h)
  | verifyStarted (ho : o.verifyStart = .ok) :
      WorkerStep s o .verifyStart s.obj s.queue .storeCheck [.verifyStart true]
  | verifyFailed (msg : Option String) (ho : o.verifyStart = .failed msg) :
      WorkerStep s o .verifyStart s.obj s.queue (.startFailed msg) [.verifyStart false]
  | checkStored :
      WorkerStep s o .storeCheck { s.obj with checkInProgress := true } s.queue .onLoop []
  | dispatched (x : Nat × Signal) (queue : List (Nat × Signal)) (ho : o.process = .signal)
      (hq : s.queue = x :: queue) :
      WorkerStep s o .process s.obj queue (.callback x.1 x.2) []
  | scanEnded (k : Nat) (hc : s.obj.checkInProgress = true) :
      WorkerStep s o (.compareCheck k) { s.obj with checkInProgress := false } s.queue
        (.callbackEnd k) [.scanEnded k]
  | verifyStopped : WorkerStep s o .verifyStop s.obj s.queue .pause [.verifyStop]

theorem verdict_onFinish {result : String} :
    verdict result = .onFinish ↔ result = "verify-match" := by
  unfold verdict
  split
  · rename_i h
    simp [h]
  · rename_i h
    split <;> simp [h]

/-- The state after the worker moved. -/
def State.worked (s : State) (p : Members) (queue : List (Nat × Signal)) (pc : WorkerPc) : State :=
  { s with obj := p, queue := queue, worker := some pc }

theorem runWorker_step {s s' : State} {o : WorkerOutcomes} {pc : WorkerPc} {out : List Item}
    (h : s.runWorker o pc = some (s', out)) :
    ∃ p queue pc', WorkerStep s o pc p queue pc' out ∧ s' = s.worked p queue pc' := by
  cases pc with
  | loadRunning =>
    cases h
    refine ⟨_, _, _, .goes ?_, rfl⟩
    cases hr : s.obj.isRunning with
    | false => exact .exits hr
    | true =>
      cases hd : s.obj.device with
      | false => exact .noDevice hr hd
      | true => exact .running hr hd
  | notFound => cases h; exact ⟨_, _, _, .called .notFound, rfl⟩
  | verifyStart =>
    simp only [State.runWorker, State.goto] at h
    split at h
    · rename_i ho
      cases h
      exact ⟨_, _, _, .verifyStarted ho, rfl⟩
    · rename_i msg ho
      cases h
      exact ⟨_, _, _, .verifyFailed msg ho, rfl⟩
  | startFailed msg => cases h; exact ⟨_, _, _, .called (.startFailed msg), rfl⟩
  | leave => cases h; exact ⟨_, _, _, .goes .leaves, rfl⟩
  | storeCheck => cases h; exact ⟨_, _, _, .checkStored, rfl⟩
  | onLoop => cases h; exact ⟨_, _, _, .called .onLoop, rfl⟩
  | loadInner =>
    cases h
    refine ⟨_, _, _, .goes ?_, rfl⟩
    cases hr : s.obj.isRunning with
    | false => exact .innerStopped hr
    | true => exact .inner hr
  | loadCheck =>
    cases h
    refine ⟨_, _, _, .goes ?_, rfl⟩
    cases hc : s.obj.checkInProgress with
    | false => exact .checkDone hc
    | true => exact .check hc
  | process =>
    simp only [State.runWorker, State.goto] at h
    split at h
    · cases h; exact ⟨_, _, _, .goes .processFailed, rfl⟩
    · cases h; exact ⟨_, _, _, .goes .processNothing, rfl⟩
    · cases h; exact ⟨_, _, _, .goes .processOther, rfl⟩
    · rename_i ho
      split at h
      · cases h
      · rename_i x queue hq
        cases h
        exact ⟨_, _, _, .dispatched x queue ho hq, rfl⟩
  | callback k body =>
    cases body with
    | status result done => cases h; exact ⟨_, _, _, .called (.verdict k result done), rfl⟩
    | unreadable => cases h; exact ⟨_, _, _, .goes (.unreadable k), rfl⟩
  | compareCheck k =>
    simp only [State.runWorker, State.goto] at h
    split at h
    · rename_i hc
      cases h
      exact ⟨_, _, _, .scanEnded k hc, rfl⟩
    · rename_i hc
      cases h
      exact ⟨_, _, _, .goes (.notInProgress k (by simpa using hc)), rfl⟩
  | callbackEnd k => cases h; exact ⟨_, _, _, .called (.callbackEnd k), rfl⟩
  | select => cases h; exact ⟨_, _, _, .goes .select, rfl⟩
  | verifyStop => cases h; exact ⟨_, _, _, .verifyStopped, rfl⟩
  | pause => cases h; exact ⟨_, _, _, .goes .pause, rfl⟩
  | exited => cases h

/-! ## The client -/

/-- A step of the client outside `stop`. -/
inductive ClientStep (s : State) (ok : Bool) :
    Members → Option WorkerPc → ClientPc → List Item → Prop
  | refused (hpc : s.client = .load) (hw : s.worker.isSome = true) (hr : s.obj.isRunning = true) :
      ClientStep s ok s.obj s.worker .idle [.startReturned .running]
  | loaded (hpc : s.client = .load) (hw : s.worker.isSome = true) (hr : s.obj.isRunning = false) :
      ClientStep s ok s.obj s.worker .join []
  | unjoinable (hpc : s.client = .load) (hw : s.worker = none) :
      ClientStep s ok s.obj s.worker .drain []
  | threw (hpc : s.client = .join ∨ s.client = .create) (ho : ok = false) :
      ClientStep s ok s.obj s.worker .catchStore []
  | joined (hpc : s.client = .join) (ho : ok = true) (hw : s.worker = some .exited) :
      ClientStep s ok s.obj none .drain [.joined]
  | drains (n : Nat) (hpc : s.client = .drain) (hp : s.obj.cancelPipe = some (n + 1)) :
      ClientStep s ok { s.obj with cancelPipe := some (n + 1 - 64) } s.worker .drain []
  | drained (hpc : s.client = .drain)
      (hp : s.obj.cancelPipe = none ∨ s.obj.cancelPipe = some 0 ∨ ok = false) :
      ClientStep s ok s.obj s.worker .storeRunning []
  | runningStored (hpc : s.client = .storeRunning) :
      ClientStep s ok { s.obj with isRunning := true } s.worker .storeCheck []
  | checkStored (hpc : s.client = .storeCheck) :
      ClientStep s ok { s.obj with checkInProgress := false } s.worker .onStart []
  | called (pc : ClientPc) (hpc : s.client = .onStart) (h : pc = .create ∨ pc = .catchStore) :
      ClientStep s ok s.obj s.worker pc (s.obj.invoke none .onStart)
  | created (hpc : s.client = .create) :
      ClientStep s ok s.obj (some .loadRunning) .idle [.started, .startReturned .started]
  | caught (hpc : s.client = .catchStore) :
      ClientStep s ok { s.obj with isRunning := false } s.worker .idle [.startReturned .threw]
  | deleteUnjoinable (hpc : s.client = .deleteJoin) (hw : s.worker = none) :
      ClientStep s ok s.obj s.worker .release []
  | deleteJoined (hpc : s.client = .deleteJoin) (hw : s.worker = some .exited) :
      ClientStep s ok s.obj none .release [.joined]
  | released (hpc : s.client = .release) :
      ClientStep s ok s.obj s.worker .close (if s.obj.device then [.release] else [])
  | closed (hpc : s.client = .close) :
      ClientStep s ok { s.obj with cancelPipe := none } s.worker .onDelete []
  | deleted (hpc : s.client = .onDelete) (hs : s.stops = []) :
      ClientStep s ok s.obj s.worker .deleted (s.obj.invoke none .onDelete ++ [.deleted])

/-! ## The machine -/

inductive Step (s : State) : Input → State → List Item → Prop
  | start (hpc : s.client = .idle) : Step s .start { s with client := .load } [.start]
  | stop (hpc : s.client = .idle) : Step s .stop { s with client := .stop .compareRunning } [.stop]
  | delete (hpc : s.client = .idle) :
      Step s .delete { s with client := .deleteStop .compareRunning } [.delete, .stop]
  | client (ok : Bool) (p : Members) (w : Option WorkerPc) (pc : ClientPc) (out : List Item)
      (h : ClientStep s ok p w pc out) :
      Step s (.client ok) { s with obj := p, worker := w, client := pc } out
  | otherStop (hpc : s.client ≠ .deleted) :
      Step s .otherStop { s with stops := .compareRunning :: s.stops } [.stop]
  | stopStep (i : Input) (ok : Bool) (pc : StopPc) (pc' : Option StopPc) (client : ClientPc)
      (stops : List StopPc) (p : Members) (out : List Item) (hi : s.moving i = some pc)
      (hr : Replaces s pc pc' client stops) (h : StopStep s.obj ok pc pc' p out) :
      Step s i { s with obj := p, client := client, stops := stops } out
  | worker (o : WorkerOutcomes) (pc : WorkerPc) (p : Members) (queue : List (Nat × Signal))
      (pc' : WorkerPc) (out : List Item) (hw : s.worker = some pc)
      (h : WorkerStep s o pc p queue pc' out) : Step s (.worker o) (s.worked p queue pc') out
  | emit (body : Signal) :
      Step s (.emit body)
        { s with queue := s.queue ++ [(s.emissions, body)], emissions := s.emissions + 1 }
        [.emitted s.emissions body]

theorem runClient_step {s s' : State} {ok : Bool} {out : List Item}
    (h : s.runClient ok = some (s', out)) : Step s (.client ok) s' out := by
  simp only [State.runClient, State.clientAt] at h
  split at h
  case h_1 hpc =>
    split at h
    · rename_i hw
      split at h
      · rename_i hr
        cases h
        exact .client ok _ _ _ _ (.refused hpc hw hr)
      · rename_i hr
        cases h
        exact .client ok _ _ _ _ (.loaded hpc hw (by simpa using hr))
    · rename_i hw
      cases h
      exact .client ok _ _ _ _ (.unjoinable hpc (by simpa using hw))
  case h_2 hpc =>
    split at h
    · rename_i ho
      cases h
      exact .client ok _ _ _ _ (.threw (Or.inl hpc) ho)
    · rename_i ho
      split at h
      · rename_i hw
        cases h
        exact .client ok _ _ _ _ (.joined hpc (by simpa using ho) hw)
      · cases h
  case h_3 hpc =>
    split at h
    · rename_i n hp
      split at h
      · cases h
        exact .client ok _ _ _ _ (.drains n hpc hp)
      · rename_i ho
        cases h
        exact .client ok _ _ _ _ (.drained hpc (Or.inr (Or.inr (by simpa using ho))))
    · rename_i hp
      cases h
      refine .client ok _ _ _ _ (.drained hpc ?_)
      cases hpipe : s.obj.cancelPipe with
      | none => exact Or.inl rfl
      | some n =>
        cases n with
        | zero => exact Or.inr (Or.inl rfl)
        | succ n => exact absurd hpipe (hp n)
  case h_4 hpc => cases h; exact .client ok _ _ _ _ (.runningStored hpc)
  case h_5 hpc => cases h; exact .client ok _ _ _ _ (.checkStored hpc)
  case h_6 hpc =>
    cases h
    refine .client ok _ _ _ _ (.called _ hpc ?_)
    split
    · exact Or.inr rfl
    · exact Or.inl rfl
  case h_7 hpc =>
    split at h
    · cases h
      exact .client ok _ _ _ _ (.created hpc)
    · rename_i ho
      cases h
      exact .client ok _ _ _ _ (.threw (Or.inr hpc) (by simpa using ho))
  case h_8 hpc => cases h; exact .client ok _ _ _ _ (.caught hpc)
  case h_9 pc hpc =>
    cases h
    exact .stopStep _ ok pc _ _ _ _ _ (by simp [State.moving, hpc, ClientPc.stops]) (.client hpc)
      (s.obj.stop_step ok pc)
  case h_10 pc hpc =>
    cases h
    exact .stopStep _ ok pc _ _ _ _ _ (by simp [State.moving, hpc, ClientPc.stops]) (.delete hpc)
      (s.obj.stop_step ok pc)
  case h_11 hpc =>
    split at h
    · rename_i hw
      cases h
      exact .client ok _ _ _ _ (.deleteUnjoinable hpc hw)
    · split at h
      · rename_i hw
        cases h
        exact .client ok _ _ _ _ (.deleteJoined hpc hw)
      · cases h
  case h_12 hpc => cases h; exact .client ok _ _ _ _ (.released hpc)
  case h_13 hpc => cases h; exact .client ok _ _ _ _ (.closed hpc)
  case h_14 hpc =>
    split at h
    · rename_i hs
      cases h
      exact .client ok _ _ _ _ (.deleted hpc hs)
    · cases h
  case h_15 | h_16 => cases h

/-- **What a step can do.** -/
theorem machine_step {s s' : State} {i : Input} {out : List Item}
    (h : machine.step s i = some (s', out)) : Step s i s' out := by
  cases i with
  | start =>
    simp only [machine, State.step, State.clientAt] at h
    split at h
    · rename_i hpc
      cases h
      exact .start hpc
    · cases h
  | stop =>
    simp only [machine, State.step, State.clientAt] at h
    split at h
    · rename_i hpc
      cases h
      exact .stop hpc
    · cases h
  | delete =>
    simp only [machine, State.step, State.clientAt] at h
    split at h
    · rename_i hpc
      cases h
      exact .delete hpc
    · cases h
  | client ok => exact runClient_step h
  | otherStop =>
    simp only [machine, State.step] at h
    split at h
    · cases h
    · rename_i hpc
      cases h
      exact .otherStop hpc
  | other i ok =>
    simp only [machine, State.step] at h
    split at h
    · cases h
    · rename_i pc hat
      cases h
      obtain ⟨hi, hpc⟩ := List.getElem?_eq_some_iff.mp hat
      have hsplit : s.stops = s.stops.take i ++ pc :: s.stops.drop (i + 1) := by
        rw [← hpc, List.getElem_cons_drop, List.take_append_drop]
      exact .stopStep _ ok pc _ _ _ _ _ hat (.other _ _ hsplit) (s.obj.stop_step ok pc)
  | worker o =>
    obtain ⟨pc, hw, hrun⟩ := Option.bind_eq_some_iff.mp h
    obtain ⟨p, queue, pc', hstep, rfl⟩ := runWorker_step hrun
    exact .worker o pc p queue pc' out hw hstep
  | emit body => cases h; exact .emit body

theorem ClientStep.stops {s : State} {ok : Bool} {p : Members} {w : Option WorkerPc}
    {pc : ClientPc} {out : List Item} (h : ClientStep s ok p w pc out) : s.client.stops = [] := by
  cases h with
  | threw hpc ho => rcases hpc with hpc | hpc <;> rw [hpc] <;> rfl
  | refused hpc | loaded hpc | unjoinable hpc | joined hpc | drains n hpc | drained hpc
  | runningStored hpc | checkStored hpc | called pc hpc | created hpc | caught hpc
  | deleteUnjoinable hpc | deleteJoined hpc | released hpc | closed hpc | deleted hpc =>
    rw [hpc]
    rfl

theorem ClientStep.stops' {s : State} {ok : Bool} {p : Members} {w : Option WorkerPc}
    {pc : ClientPc} {out : List Item} (h : ClientStep s ok p w pc out) : pc.stops = [] := by
  cases h with
  | called pc hpc h => rcases h with rfl | rfl <;> rfl
  | _ => rfl

/-- The step of a `stop` that moves. -/
theorem step_moving {s s' : State} {i : Input} {pc : StopPc} {out : List Item}
    (hi : s.moving i = some pc) (hs : machine.step s i = some (s', out)) :
    ∃ ok pc', StopStep s.obj ok pc pc' s'.obj out := by
  cases machine_step hs with
  | stopStep i ok pc1 pc' client stops p out hi' hr h =>
    cases hi'.symm.trans hi
    exact ⟨ok, pc', h⟩
  | client ok p w pc1 out h =>
    rw [State.moving, h.stops] at hi
    cases hi
  | _ => cases hi

end Auth.Fingerprint
