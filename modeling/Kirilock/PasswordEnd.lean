import Kirilock.PasswordVerdict
import Kirilock.Ranking

/-!
The destructor of `auth::Password` comes to its end.

From the call on, every thread has only so many steps left (`State.rank`): the `stop` of the
destructor and those of the other threads, the worker wherever it is, the join.  Another call
of `stop` adds its own steps and no more.  And something can always go on: where the worker
waits for its child, the child can end.
-/

namespace Auth.Password

open Runs

/-! ## The child that is waited for -/

/-- The worker's child is there until it was reaped. -/
def ChildInv (s : State) : Prop :=
  ∀ w pid, s.worker = some w → w.pc.pid = some pid → ∃ c ∈ s.children, c.pid = pid

theorem Calls.pid {pc pc' : WorkerPc} {h : Handler} (hc : Calls pc h pc') : pc'.pid = none := by
  cases hc <;> rfl

theorem Tests.pid {pc pc' : WorkerPc} {b : Bool} (ht : Tests pc b pc') {pid : Pid}
    (hp : pc'.pid = some pid) : pc.pid = some pid := by
  cases ht <;> exact hp

theorem WorkerStep.childInv {s : State} {w : Worker} {o : WorkerOutcomes} {p : Members}
    {cs : List Child} {pc : WorkerPc} {out : List Item} (h : WorkerStep s w o p cs pc out)
    (hw : s.worker = some w) (hinv : ChildInv s) : ChildInv (s.worked w p cs pc) := by
  intro w' pid hw' hpid
  cases hw'
  -- the child that the worker has
  have hkeep : w.pc.pid = some pid → ∃ c ∈ s.children, c.pid = pid := hinv w pid hw
  cases h with
  | called hpc =>
    rw [hpc.pid] at hpid
    cases hpid
  | tested hpc => exact hkeep (hpc.pid hpid)
  | forked q hpc hq hnew =>
    cases hpid
    exact ⟨_, List.mem_cons_self, rfl⟩
  | stored q hpc | took q hpc hp | tookNone q hpc hp | killed q k hpc =>
    rw [hpc] at hkeep
    exact hkeep hpid
  | notForked hpc ho | reaped q c run hpc ho hc hq hrun | waitFailed q hpc ho | reset st hpc
    | cleared hpc | stopped hpc => cases hpid

theorem ChildInv.step {s s' : State} {i : Input} {out : List Item} (hinv : ChildInv s)
    (hs : machine.step s i = some (s', out)) : ChildInv s' := by
  cases machine_step hs with
  | verify | stop | delete | otherStop | stopStep => exact hinv
  | client ok p w pc out hc =>
    intro w' pid hw' hpid
    change w = some w' at hw'
    cases hc with
    | joined | deleteJoined => cases hw'
    | created =>
      cases hw'
      cases hpid
    | _ => exact hinv w' pid hw' hpid
  | worker o w p cs pc out hw hstep => exact hstep.childInv hw hinv
  | childEnds pid run c hc hpid hrun =>
    intro w q hw hq
    obtain ⟨d, hd, rfl⟩ := hinv w q hw hq
    refine ⟨endChild pid run d, List.mem_map_of_mem hd, ?_⟩
    unfold endChild
    split <;> rfl

theorem childInv_reach {s : State} {tr : List Item} (h : machine.Reach s tr) : ChildInv s := by
  refine h.invariant (I := fun s _ => ChildInv s) ?_ fun s tr i s' out hinv _ hs => hinv.step hs
  rintro s ⟨hs, rfl⟩ w pid hw
  cases hw

/-! ## What is left to do -/

/-- The destructor was called. -/
def ClientPc.deleting : ClientPc → Bool
  | .deleteStop _ => true
  | .deleteJoin => true
  | .deleteClear => true
  | .onDelete => true
  | .deleted => true
  | _ => false

def StopPc.rank : StopPc → Nat
  | .compare => 3
  | .exchange => 2
  | .kill _ => 1

def ClientPc.rank : ClientPc → Nat
  | .deleteStop pc => 3 + pc.rank
  | .deleteJoin => 3
  | .deleteClear => 2
  | .onDelete => 1
  | _ => 0

/-- A fork leaves a child, too, that has to end. -/
def WorkerPc.rank : WorkerPc → Nat
  | .onBegin => 16
  | .fork => 15
  | .store _ => 13
  | .load _ => 12
  | .exchange _ => 11
  | .kill _ _ => 10
  | .waitpid _ => 9
  | .reset _ => 8
  | .loadVerdict _ => 7
  | .report _ => 6
  | .forkFailed => 6
  | .onEnd => 5
  | .loadStop => 4
  | .onStop => 3
  | .clearCandidate => 2
  | .storeStopped => 1
  | .exited => 0

def Child.running (c : Child) : Bool := c.ended.isNone

/-- How many steps are left from the call of the destructor on. -/
def State.rank (s : State) : Nat :=
  s.client.rank + total StopPc.rank s.stops + s.worker.elim 0 (·.pc.rank) +
    s.children.countP Child.running

/-- The inputs that the end waits for: `waitpid` returns, and nobody calls `stop` again. -/
def Input.returns : Input → Bool
  | .worker o => o.waitpid
  | .otherStop => false
  | _ => true

def Input.isOtherStop : Input → Bool
  | .otherStop => true
  | _ => false

theorem StopStep.rank {p p' : Members} {pc : StopPc} {pc' : Option StopPc} {out : List Item}
    (h : StopStep p pc pc' p' out) : pc'.elim 0 StopPc.rank + 1 ≤ pc.rank := by
  cases h <;> simp [StopPc.rank]

theorem Calls.rank {pc pc' : WorkerPc} {h : Handler} (hc : Calls pc h pc') :
    pc'.rank + 1 ≤ pc.rank := by
  cases hc <;> simp [WorkerPc.rank]

theorem Tests.rank {pc pc' : WorkerPc} {b : Bool} (ht : Tests pc b pc') :
    pc'.rank + 1 ≤ pc.rank := by
  cases ht <;> simp [WorkerPc.rank]

theorem WorkerStep.rank {s : State} {w : Worker} {o : WorkerOutcomes} {p : Members}
    {cs : List Child} {pc : WorkerPc} {out : List Item} (h : WorkerStep s w o p cs pc out) :
    pc.rank + cs.countP Child.running + 1 ≤ w.pc.rank + s.children.countP Child.running := by
  cases h with
  | called hpc =>
    have hle := hpc.rank
    omega
  | tested hpc =>
    have hle := hpc.rank
    omega
  | forked pid hpc hpid hnew =>
    rw [hpc, List.countP_cons]
    simp only [WorkerPc.rank, Child.running, Option.isNone_none, if_true]
    omega
  | reaped pid c run hpc ho hc hpid hrun =>
    rw [hpc, List.countP_filter]
    have hle : s.children.countP (fun c => Child.running c && decide (c.pid ≠ pid)) ≤
        s.children.countP Child.running :=
      List.countP_mono_left fun c _ hc => (Bool.and_eq_true _ _ ▸ hc).1
    simp only [WorkerPc.rank]
    omega
  | notForked hpc ho | stored pid hpc | took pid hpc hp | tookNone pid hpc hp | killed pid k hpc
    | waitFailed pid hpc ho | reset st hpc | cleared hpc | stopped hpc =>
    rw [hpc]
    simp only [WorkerPc.rank]
    omega

theorem Replaces.rank {s : State} {pc : StopPc} {pc' : Option StopPc} {client : ClientPc}
    {stops : List StopPc} (h : Replaces s pc pc' client stops)
    (hd : s.client.deleting = true) (hpc : pc'.elim 0 StopPc.rank + 1 ≤ pc.rank) :
    client.deleting = true ∧ client.rank + total StopPc.rank stops + 1 ≤
      s.client.rank + total StopPc.rank s.stops := by
  cases h with
  | client hc =>
    rw [hc] at hd
    cases hd
  | delete hc =>
    rw [hc]
    cases pc' <;> simp only [Option.elim, ClientPc.rank, ClientPc.deleting] at hpc ⊢ <;>
      exact ⟨trivial, by omega⟩
  | other l1 l2 hs =>
    rw [hs]
    refine ⟨hd, ?_⟩
    cases pc' <;> simp only [Option.elim, Option.toList, total_append, total_cons,
      total_nil] at hpc ⊢ <;> omega

theorem ClientStep.rank {s : State} {p : Members} {w : Option Worker} {pc : ClientPc}
    {out : List Item} (h : ClientStep s p w pc out) (hd : s.client.deleting = true) :
    pc.deleting = true ∧ pc.rank + w.elim 0 (·.pc.rank) + 1 ≤
      s.client.rank + s.worker.elim 0 (·.pc.rank) := by
  cases h with
  | deleteJoined hpc hw =>
    rw [hpc]
    simp only [ClientPc.rank, Option.elim]
    exact ⟨rfl, by omega⟩
  | deleteCleared hpc | deleted hpc hs =>
    rw [hpc]
    simp only [ClientPc.rank]
    exact ⟨rfl, by omega⟩
  | threw hpc =>
    generalize s.client = client at hpc hd
    cases hpc <;> cases hd
  | refused pass hpc hr | claimed pass hpc hr | joined pass hpc hw | assigned pass hpc | created hpc
    | caught hpc | failed hpc =>
    rw [hpc] at hd
    cases hd

/-- The end of a child takes a running one away. -/
theorem countP_endChild (run : ChildRun) {pid : Pid} {l : List Child} {c : Child} (hc : c ∈ l)
    (hpid : c.pid = pid) (hrun : c.ended = none) :
    (l.map (endChild pid run)).countP Child.running + 1 ≤ l.countP Child.running := by
  have hended : ∀ d : Child, d.pid = pid → (endChild pid run d).running = false := by
    intro d hd
    rw [endChild, if_pos hd]
    rfl
  have hle : ∀ d : Child, (endChild pid run d).running = true → d.running = true := by
    intro d hd
    by_cases hp : d.pid = pid
    · rw [hended d hp] at hd
      cases hd
    · rwa [endChild, if_neg hp] at hd
  obtain ⟨l1, l2, rfl⟩ := List.append_of_mem hc
  have hmono : ∀ l : List Child,
      (l.map (endChild pid run)).countP Child.running ≤ l.countP Child.running := by
    intro l
    rw [List.countP_map]
    exact List.countP_mono_left fun d _ hd => hle d hd
  have h1 := hmono l1
  have h2 := hmono l2
  have hone : c.running = true := by
    rw [Child.running, hrun]
    rfl
  rw [List.map_append, List.map_cons, List.countP_append, List.countP_cons, List.countP_append,
    List.countP_cons, hended c hpid, hone]
  simp only [Bool.false_eq_true, if_false, if_true]
  omega

/-! ## The end -/

/-- From the call of the destructor on. -/
structure Deleting (s : State) : Prop where
  deleting : s.client.deleting = true
  child : ChildInv s

theorem deleting_ranked : machine.Ranked Deleting State.rank (fun _ => 1)
    (fun i => if i.isOtherStop then 4 else 0) := by
  have hboth : ∀ {s s' : State} {i : Input} {out : List Item}, Deleting s →
      machine.step s i = some (s', out) → s'.client.deleting = true ∧
        s'.rank + 1 ≤ s.rank + if i.isOtherStop then 4 else 0 := by
    intro s s' i out hd hs
    have hdel := hd.deleting
    cases machine_step hs with
    | verify pass hpc | stop hpc | delete hpc =>
      rw [hpc] at hdel
      cases hdel
    | client ok p w pc out hc =>
      obtain ⟨hdel', hle⟩ := hc.rank hdel
      refine ⟨hdel', ?_⟩
      simp only [State.rank, Input.isOtherStop]
      omega
    | otherStop hpc =>
      refine ⟨hdel, ?_⟩
      simp only [State.rank, Input.isOtherStop, total_cons, StopPc.rank, if_true]
      omega
    | stopStep i pc pc' client stops p out hi hr hstop =>
      obtain ⟨hdel', hle⟩ := hr.rank hdel hstop.rank
      refine ⟨hdel', ?_⟩
      simp only [State.rank]
      omega
    | worker o w p cs pc out hw hstep =>
      have hle := hstep.rank
      refine ⟨hdel, ?_⟩
      simp only [State.rank, State.worked, Input.isOtherStop, hw, Option.elim]
      omega
    | childEnds pid run c hc hpid hrun =>
      have hle := countP_endChild run hc hpid hrun
      refine ⟨hdel, ?_⟩
      simp only [State.rank, Input.isOtherStop]
      omega
  exact ⟨fun hd hs => ⟨(hboth hd hs).1, hd.child.step hs⟩, fun hd hs => (hboth hd hs).2⟩

/-- The worker goes on, or its child can end. -/
theorem worker_goes {s : State} (hchild : ChildInv s) {w : Worker} (hw : s.worker = some w)
    (hpc : w.pc ≠ .exited) : (machine.step s (.worker ⟨none, true⟩)).isSome = true ∨
      ∃ pid, (machine.step s (.childEnds pid .killed)).isSome = true := by
  have hgo : (s.runWorker w ⟨none, true⟩).isSome = true →
      (machine.step s (.worker ⟨none, true⟩)).isSome = true ∨
        ∃ pid, (machine.step s (.childEnds pid .killed)).isSome = true := by
    intro hr
    left
    simp only [machine, State.step, hw, Option.bind_some, hr]
  obtain ⟨attempt, pc⟩ := w
  cases pc with
  | exited => exact absurd rfl hpc
  | waitpid pid =>
    obtain ⟨c, hc, hpid⟩ := hchild _ pid hw rfl
    have hfound : (s.children.find? (·.pid = pid)).isSome = true :=
      List.find?_isSome.mpr ⟨c, hc, by simpa using hpid⟩
    obtain ⟨⟨q, n, candidate, ended⟩, hf⟩ := Option.isSome_iff_exists.mp hfound
    cases ended with
    | some run =>
      refine hgo ?_
      simp only [State.runWorker, if_true, hf]
      rfl
    | none =>
      refine Or.inr ⟨pid, ?_⟩
      simp only [machine, State.step, hf, Option.isSome_some]
  | _ => exact hgo rfl

/-- **Something can go on** until the object is gone. -/
theorem deleting_goes {s : State} (hd : Deleting s) (hpc : s.client ≠ .deleted) :
    ∃ i, Input.returns i = true ∧ (machine.step s i).isSome = true := by
  have hclient : (s.runClient true).isSome = true → ∃ i, Input.returns i = true ∧
      (machine.step s i).isSome = true := fun hr => ⟨.client true, rfl, hr⟩
  have hdel := hd.deleting
  cases hcs : s.client with
  | deleteStop pc | deleteClear =>
    refine hclient ?_
    simp only [State.runClient, hcs]
    rfl
  | deleteJoin =>
    cases hw : s.worker with
    | none =>
      refine hclient ?_
      simp only [State.runClient, hcs, hw]
      rfl
    | some w =>
      by_cases he : w.pc = .exited
      · refine hclient ?_
        simp only [State.runClient, hcs, hw, he, if_true]
        rfl
      · rcases worker_goes hd.child hw he with hgo | ⟨pid, hgo⟩
        · exact ⟨_, rfl, hgo⟩
        · exact ⟨_, rfl, hgo⟩
  | onDelete =>
    cases hs : s.stops with
    | nil =>
      refine hclient ?_
      simp only [State.runClient, hcs, hs, if_true]
      rfl
    | cons pc stops =>
      refine ⟨.other 0, rfl, ?_⟩
      simp only [machine, State.step, hs, List.getElem?_cons_zero, Option.isSome_some]
  | deleted => exact absurd hcs hpc
  | idle | compare | join | assign | create | catchStore | catchClear | stop =>
    rw [hcs] at hdel
    cases hdel

theorem State.rank_le (s : State) :
    s.rank ≤ 22 + 3 * s.stops.length + s.children.length := by
  have hclient : s.client.rank ≤ 6 := by
    cases s.client with
    | deleteStop pc => cases pc <;> simp [ClientPc.rank, StopPc.rank]
    | _ => simp [ClientPc.rank]
  have hworker : s.worker.elim 0 (·.pc.rank) ≤ 16 := by
    cases s.worker with
    | none => simp
    | some w =>
      obtain ⟨n, pc⟩ := w
      cases pc <;> simp [WorkerPc.rank]
  have hstops : total StopPc.rank s.stops ≤ 3 * s.stops.length :=
    total_le (fun pc => by cases pc <;> simp [StopPc.rank]) s.stops
  have hchildren : s.children.countP Child.running ≤ s.children.length := List.countP_le_length
  unfold State.rank
  omega

/-- How the destructor ends. -/
structure DeleteEnds (s : State) : Prop where
  /-- in any order the threads have only so many steps left, the children that end among them -/
  bounded : ∀ is s' out, machine.exec s is = some (s', out) →
    is.length ≤ 22 + 3 * s.stops.length + s.children.length + 4 * is.countP Input.isOtherStop
  /-- and until the object is gone something can go on, a new call of `stop` apart -/
  goes : ∀ is s' out, machine.exec s is = some (s', out) → s'.client ≠ .deleted →
    ∃ i, Input.returns i = true ∧ (machine.step s' i).isSome = true
  /-- so it is gone in the end -/
  ends : ∃ is s' out, (∀ i ∈ is, Input.returns i = true) ∧
    machine.exec s is = some (s', out) ∧ s'.client = .deleted

/-- **The destructor of `auth::Password` ends**, wherever the other threads are. -/
theorem password_delete_ends {s : State} {tr : List Item} (h : machine.Reach s tr)
    (hdel : s.client.deleting = true) : DeleteEnds s := by
  have hd : Deleting s := ⟨hdel, childInv_reach h⟩
  refine ⟨fun is s' out he => ?_, fun is s' out he hpc => ?_, ?_⟩
  · obtain ⟨-, hle⟩ := deleting_ranked.exec hd he
    rw [total_ite, total_const, Nat.one_mul] at hle
    have hrank := s.rank_le
    omega
  · exact deleting_goes (deleting_ranked.exec hd he).1 hpc
  · have hgo : ∀ s, Deleting s → ¬s.client = .deleted → ∃ i, Input.returns i = true ∧
        (if i.isOtherStop then 4 else 0) = 0 ∧ 0 < 1 ∧ (machine.step s i).isSome = true := by
      intro s hd hpc
      obtain ⟨i, hi, hsome⟩ := deleting_goes hd hpc
      refine ⟨i, hi, ?_, Nat.one_pos, hsome⟩
      cases i <;> first
        | rfl
        | cases hi
    obtain ⟨is, s', out, hok, he, -, hdone, -⟩ := deleting_ranked.completes hgo hd
    exact ⟨is, s', out, hok, he, hdone⟩

/-- The object is deleted while the worker waits for its child. -/
def sampleDeleting : List Input := sampleVerify [115] 7 ++ [Input.delete]

theorem deletingRun_isSome : (machine.exec (start allHandlers) sampleDeleting).isSome = true := by
  decide

def deletingRun : State × List Item :=
  (machine.exec (start allHandlers) sampleDeleting).get deletingRun_isSome

theorem password_delete_ends_deletingRun :
    deletingRun.1.worker = some ⟨1, .waitpid 7⟩ ∧ DeleteEnds deletingRun.1 :=
  ⟨by decide, password_delete_ends
    (Machine.reach_exec (start_init allHandlers) deletingRun_isSome) (by decide)⟩

end Auth.Password
