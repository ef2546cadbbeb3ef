import Kirilock.FingerprintStep
import Kirilock.Ranking

/-!
The destructor of `auth::Fingerprint` comes to its end.

Its `stop` clears `is_running_`, and nothing sets it again; from there on `run_worker` leaves
its loops, wherever it is, and every thread has only so many steps left (`State.rank`), however
many signals the device emits.
-/

namespace Auth.Fingerprint

open Runs

/-! ## The flag -/

/-- The destructor was called. -/
def ClientPc.deleting : ClientPc → Bool
  | .deleteStop _ => true
  | .deleteJoin => true
  | .release => true
  | .close => true
  | .onDelete => true
  | .deleted => true
  | _ => false

/-- The destructor is past the exchange on `is_running_`. -/
def ClientPc.ending (pc : ClientPc) : Prop :=
  pc.deleting = true ∧ pc ≠ .deleteStop .compareRunning

/-- From there on `is_running_` is false. -/
def EndingInv (s : State) : Prop := s.client.ending → s.obj.isRunning = false

theorem StopStep.keepsStopped {p p' : Members} {ok : Bool} {pc : StopPc} {pc' : Option StopPc}
    {out : List Item} (h : StopStep p ok pc pc' p' out) :
    (p.isRunning = false → p'.isRunning = false) ∧
      (pc = .compareRunning → p'.isRunning = false) ∧ pc' ≠ some .compareRunning := by
  cases h with
  | claimed hr => exact ⟨fun _ => rfl, fun _ => rfl, nofun⟩
  | missed hr => exact ⟨id, fun _ => hr, nofun⟩
  | _ => exact ⟨id, nofun, nofun⟩

theorem WorkerStep.keepsRunning {s : State} {o : WorkerOutcomes} {pc pc' : WorkerPc} {p : Members}
    {queue : List (Nat × Signal)} {out : List Item} (h : WorkerStep s o pc p queue pc' out) :
    p.isRunning = s.obj.isRunning := by
  cases h <;> rfl

/-- A step of the client that leads past the exchange begins there. -/
theorem ClientStep.ending {s : State} {ok : Bool} {p : Members} {w : Option WorkerPc}
    {pc : ClientPc} {out : List Item} (h : ClientStep s ok p w pc out) (hpc : pc.ending) :
    s.client.ending ∧ p.isRunning = s.obj.isRunning := by
  cases h with
  | deleteUnjoinable hc hw | deleteJoined hc hw | released hc | closed hc | deleted hc hs =>
    rw [hc]
    exact ⟨⟨rfl, nofun⟩, rfl⟩
  | called pc hc h => rcases h with rfl | rfl <;> cases hpc.1
  | _ => cases hpc.1

theorem EndingInv.step {s s' : State} {i : Input} {out : List Item} (hinv : EndingInv s)
    (hs : machine.step s i = some (s', out)) : EndingInv s' := by
  intro hend
  cases machine_step hs with
  | start hpc | stop hpc => cases hend.1
  | delete hpc => exact absurd rfl hend.2
  | client ok p w pc out hc =>
    obtain ⟨hend', hr⟩ := hc.ending hend
    exact hr.trans (hinv hend')
  | otherStop hpc => exact hinv hend
  | stopStep i ok pc pc' client stops p out hi hr hstop =>
    obtain ⟨hkeep, hclear, hnext⟩ := hstop.keepsStopped
    cases hr with
    | client hpc =>
      cases pc' with
      | none => cases hend.1
      | some pc' => cases hend.1
    | delete hpc =>
      by_cases hc : pc = .compareRunning
      · exact hclear hc
      · refine hkeep (hinv ?_)
        rw [hpc]
        exact ⟨rfl, fun he => hc (ClientPc.deleteStop.inj he)⟩
    | other l1 l2 hs => exact hkeep (hinv hend)
  | worker o pc p queue pc' out hw hstep => exact hstep.keepsRunning.trans (hinv hend)
  | emit body => exact hinv hend

theorem endingInv_reach {s : State} {tr : List Item} (h : machine.Reach s tr) : EndingInv s := by
  refine h.invariant (I := fun s _ => EndingInv s) ?_ fun s tr i s' out hinv _ hs => hinv.step hs
  rintro s ⟨hs, pipe, device, rfl⟩ hend
  cases hend.1

/-! ## What is left to do -/

def StopPc.rank : StopPc → Nat
  | .compareRunning => 5
  | .write => 4
  | .compareCheck _ => 3
  | .onEnd _ => 2
  | .onStop _ => 1

def ClientPc.rank : ClientPc → Nat
  | .deleteStop pc => 4 + pc.rank
  | .deleteJoin => 4
  | .release => 3
  | .close => 2
  | .onDelete => 1
  | _ => 0

/-- How many steps the worker has left once `is_running_` is false. -/
def WorkerPc.rank : WorkerPc → Nat
  | .loadCheck => 9
  | .process => 8
  | .callback _ _ => 7
  | .verifyStart => 7
  | .compareCheck _ => 6
  | .storeCheck => 6
  | .callbackEnd _ => 5
  | .select => 5
  | .onLoop => 5
  | .loadInner => 4
  | .verifyStop => 3
  | .pause => 2
  | .notFound => 2
  | .startFailed _ => 2
  | .loadRunning => 1
  | .leave => 1
  | .exited => 0

def State.rank (s : State) : Nat :=
  s.client.rank + total StopPc.rank s.stops + s.worker.elim 0 WorkerPc.rank

/-- A new call of `stop`. -/
def Input.isOtherStop : Input → Bool
  | .otherStop => true
  | _ => false

/-- A step of one of the threads. -/
def Input.ofThread : Input → Bool
  | .emit _ => false
  | _ => true

theorem StopStep.rank {p p' : Members} {ok : Bool} {pc : StopPc} {pc' : Option StopPc}
    {out : List Item} (h : StopStep p ok pc pc' p' out) :
    pc'.elim 0 StopPc.rank + 1 ≤ pc.rank := by
  cases h <;> simp [StopPc.rank]

theorem Goes.rank {p : Members} {pc pc' : WorkerPc} (h : Goes p pc pc')
    (hr : p.isRunning = false) : pc'.rank + 1 ≤ pc.rank := by
  cases h with
  | running hr' | noDevice hr' | inner hr' =>
    rw [hr] at hr'
    cases hr'
  | _ => simp [WorkerPc.rank]

theorem Calls.rank {pc pc' : WorkerPc} {k : Option Nat} {h : Handler} (hc : Calls pc k h pc') :
    pc'.rank + 1 ≤ pc.rank := by
  cases hc with
  | verdict k result done => cases done <;> simp [WorkerPc.rank]
  | _ => simp [WorkerPc.rank]

theorem WorkerStep.rank {s : State} {o : WorkerOutcomes} {pc pc' : WorkerPc} {p : Members}
    {queue : List (Nat × Signal)} {out : List Item} (h : WorkerStep s o pc p queue pc' out)
    (hr : s.obj.isRunning = false) : pc'.rank + 1 ≤ pc.rank := by
  cases h with
  | goes hg => exact hg.rank hr
  | called hc => exact hc.rank
  | _ => simp [WorkerPc.rank]

theorem Replaces.rank {s : State} {pc : StopPc} {pc' : Option StopPc} {client : ClientPc}
    {stops : List StopPc} (h : Replaces s pc pc' client stops) (hd : s.client.deleting = true)
    (hpc : pc'.elim 0 StopPc.rank + 1 ≤ pc.rank) :
    client.deleting = true ∧ client.rank + total StopPc.rank stops + 1 ≤
      s.client.rank + total StopPc.rank s.stops := by
  cases h with
  | client hc =>
    rw [hc] at hd
    cases hd
  | delete hc =>
    rw [hc]
    cases pc' <;> simp only [Option.elim, ClientPc.rank, ClientPc.deleting] at hpc ⊢ <;>
      exact ⟨trivial, by omega⟩
  | other l1 l2 hs =>
    rw [hs]
    refine ⟨hd, ?_⟩
    cases pc' <;> simp only [Option.elim, Option.toList, total_append, total_cons,
      total_nil] at hpc ⊢ <;> omega

theorem ClientStep.rank {s : State} {ok : Bool} {p : Members} {w : Option WorkerPc}
    {pc : ClientPc} {out : List Item} (h : ClientStep s ok p w pc out)
    (hd : s.client.deleting = true) :
    pc.deleting = true ∧ pc.rank + w.elim 0 WorkerPc.rank + 1 ≤
      s.client.rank + s.worker.elim 0 WorkerPc.rank := by
  cases h with
  | deleteUnjoinable hpc hw | released hpc | closed hpc | deleted hpc hs =>
    rw [hpc]
    simp only [ClientPc.rank]
    exact ⟨rfl, by omega⟩
  | deleteJoined hpc hw =>
    rw [hpc]
    simp only [ClientPc.rank, Option.elim]
    exact ⟨rfl, by omega⟩
  | threw hpc ho => rcases hpc with hpc | hpc <;> rw [hpc] at hd <;> cases hd
  | refused hpc | loaded hpc | unjoinable hpc | joined hpc | drains n hpc | drained hpc
    | runningStored hpc | checkStored hpc | called pc hpc | created hpc | caught hpc =>
    rw [hpc] at hd
    cases hd

/-! ## The end -/

/-- From the exchange of the destructor on. -/
structure Ending (s : State) : Prop where
  deleting : s.client.deleting = true
  stopped : s.obj.isRunning = false

/-- The client goes on with the destructor. -/
theorem ClientStep.keepsRunning {s : State} {ok : Bool} {p : Members} {w : Option WorkerPc}
    {pc : ClientPc} {out : List Item} (h : ClientStep s ok p w pc out)
    (hd : s.client.deleting = true) : p.isRunning = s.obj.isRunning := by
  cases h with
  | runningStored hpc | caught hpc =>
    rw [hpc] at hd
    cases hd
  | _ => rfl

theorem ending_ranked : machine.Ranked Ending State.rank
    (fun i => if i.ofThread then 1 else 0) (fun i => if i.isOtherStop then 6 else 0) := by
  have hboth : ∀ {s s' : State} {i : Input} {out : List Item}, Ending s →
      machine.step s i = some (s', out) → Ending s' ∧
        s'.rank + (if i.ofThread then 1 else 0) ≤
          s.rank + if i.isOtherStop then 6 else 0 := by
    intro s s' i out hd hs
    have hdel := hd.deleting
    have hr := hd.stopped
    cases machine_step hs with
    | start hpc | stop hpc | delete hpc =>
      rw [hpc] at hdel
      cases hdel
    | client ok p w pc out hc =>
      obtain ⟨hdel', hle⟩ := hc.rank hdel
      refine ⟨⟨hdel', (hc.keepsRunning hdel).trans hr⟩, ?_⟩
      simp only [State.rank, Input.ofThread, Input.isOtherStop, if_true]
      omega
    | otherStop hpc =>
      refine ⟨⟨hdel, hr⟩, ?_⟩
      simp only [State.rank, Input.ofThread, Input.isOtherStop, total_cons, StopPc.rank,
        if_true]
      omega
    | stopStep i ok pc pc' client stops p out hi hrep hstop =>
      obtain ⟨hdel', hle⟩ := hrep.rank hdel hstop.rank
      have hcost : (if i.ofThread then 1 else 0) ≤ 1 := by split <;> omega
      refine ⟨⟨hdel', hstop.keepsStopped.1 hr⟩, ?_⟩
      simp only [State.rank]
      omega
    | worker o pc p queue pc' out hw hstep =>
      have hle := hstep.rank hr
      refine ⟨⟨hdel, hstep.keepsRunning.trans hr⟩, ?_⟩
      simp only [State.rank, State.worked, Input.ofThread, Input.isOtherStop, hw, Option.elim,
        if_true]
      omega
    | emit body => exact ⟨⟨hdel, hr⟩, Nat.le_refl _⟩
  exact ⟨fun hd hs => (hboth hd hs).1, fun hd hs => (hboth hd hs).2⟩

/-- What the end waits for: a step of a thread that runs already. -/
def Input.goesOn : Input → Bool
  | .client _ => true
  | .other _ _ => true
  | .worker _ => true
  | _ => false

theorem Input.goesOn_cost {i : Input} (hi : i.goesOn = true) :
    i.isOtherStop = false ∧ i.ofThread = true := by
  cases i with
  | client | other | worker => exact ⟨rfl, rfl⟩
  | _ => cases hi

/-- The worker goes on until it exits; where it reads the bus, the bus may have nothing. -/
theorem worker_goes {s : State} {pc : WorkerPc} (hw : s.worker = some pc) (hpc : pc ≠ .exited) :
    (machine.step s (.worker ⟨.ok, .nothing⟩)).isSome = true := by
  show (s.worker.bind (s.runWorker ⟨.ok, .nothing⟩)).isSome = true
  rw [hw]
  show (s.runWorker ⟨.ok, .nothing⟩ pc).isSome = true
  cases pc with
  | exited => exact absurd rfl hpc
  | callback k body => cases body <;> rfl
  | compareCheck k =>
    simp only [State.runWorker]
    by_cases hc : s.obj.checkInProgress = true
    · rw [if_pos hc]
      rfl
    · rw [if_neg hc]
      rfl
  | _ => rfl

/-- **Something can go on** until the object is gone. -/
theorem ending_goes {s : State} (hd : Ending s) (hpc : s.client ≠ .deleted) :
    ∃ i, Input.goesOn i = true ∧ (machine.step s i).isSome = true := by
  have hclient : (s.runClient true).isSome = true → ∃ i, Input.goesOn i = true ∧
      (machine.step s i).isSome = true := fun hr => ⟨.client true, rfl, hr⟩
  have hdel := hd.deleting
  cases hcs : s.client with
  | deleteStop pc | release | close =>
    refine hclient ?_
    simp only [State.runClient, hcs]
    rfl
  | deleteJoin =>
    cases hw : s.worker with
    | none =>
      refine hclient ?_
      simp only [State.runClient, hcs, hw]
      rfl
    | some pc =>
      by_cases he : pc = .exited
      · refine hclient ?_
        simp only [State.runClient, hcs, hw, he, if_true]
        rfl
      · exact ⟨_, rfl, worker_goes hw he⟩
  | onDelete =>
    cases hs : s.stops with
    | nil =>
      refine hclient ?_
      simp only [State.runClient, hcs, hs, if_true]
      rfl
    | cons pc stops =>
      refine ⟨.other 0 true, rfl, ?_⟩
      simp only [machine, State.step, hs, List.getElem?_cons_zero, Option.isSome_some]
  | deleted => exact absurd hcs hpc
  | idle | load | join | drain | storeRunning | storeCheck | onStart | create | catchStore
    | stop =>
    rw [hcs] at hdel
    cases hdel

theorem State.rank_le (s : State) : s.rank ≤ 18 + 5 * s.stops.length := by
  have hclient : s.client.rank ≤ 9 := by
    cases s.client with
    | deleteStop pc => cases pc <;> simp [ClientPc.rank, StopPc.rank]
    | _ => simp [ClientPc.rank]
  have hworker : s.worker.elim 0 WorkerPc.rank ≤ 9 := by
    cases s.worker with
    | none => simp
    | some pc => cases pc <;> simp [WorkerPc.rank]
  have hstops : total StopPc.rank s.stops ≤ 5 * s.stops.length :=
    total_le (fun pc => by cases pc <;> simp [StopPc.rank]) s.stops
  unfold State.rank
  omega

/-- How the destructor ends. -/
structure DeleteEnds (s : State) : Prop where
  /-- however many signals arrive, the threads have only so many steps left -/
  bounded : ∀ is s' out, machine.exec s is = some (s', out) →
    is.countP Input.ofThread ≤ 18 + 5 * s.stops.length + 6 * is.countP Input.isOtherStop
  /-- and until the object is gone one of them can go on -/
  goes : ∀ is s' out, machine.exec s is = some (s', out) → s'.client ≠ .deleted →
    ∃ i, Input.goesOn i = true ∧ (machine.step s' i).isSome = true
  /-- so it is gone in the end -/
  ends : ∃ is s' out, (∀ i ∈ is, Input.goesOn i = true) ∧
    machine.exec s is = some (s', out) ∧ s'.client = .deleted

/-- **The destructor of `auth::Fingerprint` ends** once it is past its exchange, wherever the
worker is and whatever the device sends. -/
theorem fingerprint_delete_ends {s : State} {tr : List Item} (h : machine.Reach s tr)
    (hend : s.client.ending) : DeleteEnds s := by
  have hd : Ending s := ⟨hend.1, endingInv_reach h hend⟩
  refine ⟨fun is s' out he => ?_, fun is s' out he hpc => ?_, ?_⟩
  · obtain ⟨-, hle⟩ := ending_ranked.exec hd he
    rw [total_ite, total_ite, Nat.one_mul] at hle
    have hrank := s.rank_le
    omega
  · exact ending_goes (ending_ranked.exec hd he).1 hpc
  · have hgo : ∀ s, Ending s → ¬s.client = .deleted → ∃ i, Input.goesOn i = true ∧
        (if i.isOtherStop then 6 else 0) = 0 ∧ 0 < (if i.ofThread then 1 else 0) ∧
          (machine.step s i).isSome = true := by
      intro s hd hpc
      obtain ⟨i, hi, hsome⟩ := ending_goes hd hpc
      obtain ⟨hgain, hcost⟩ := Input.goesOn_cost hi
      refine ⟨i, hi, ?_, ?_, hsome⟩
      · rw [hgain]
        rfl
      · rw [hcost]
        exact Nat.one_pos
    obtain ⟨is, s', out, hok, he, -, hdone, -⟩ := ending_ranked.completes hgo hd
    exact ⟨is, s', out, hok, he, hdone⟩

/-- The object is deleted while the worker scans. -/
def sampleEnding : List Input :=
  [.start, .client true, .client true, .client true, .client true, .client true, .client true] ++
    List.replicate 6 (.worker ⟨.ok, .nothing⟩) ++ [Input.delete, Input.client true]

theorem endingRun_isSome :
    (machine.exec (start ⟨true, true, true, true, true, true, true⟩ true true)
      sampleEnding).isSome = true := by
  decide

def endingRun : State × List Item :=
  (machine.exec (start ⟨true, true, true, true, true, true, true⟩ true true) sampleEnding).get
    endingRun_isSome

theorem fingerprint_delete_ends_endingRun :
    endingRun.1.worker = some .process ∧ DeleteEnds endingRun.1 :=
  ⟨by decide, fingerprint_delete_ends (Machine.reach_exec (start_init _ _ _) endingRun_isSome)
    ⟨by decide, by decide⟩⟩

end Auth.Fingerprint
