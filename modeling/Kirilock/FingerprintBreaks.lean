import Kirilock.FingerprintLoop

/-!
Nothing less than `EndsPaired` will do.

Where both handlers are set, each of its clauses keeps out steps after which `on_loop`
and `on_end` can stop taking turns, or the worker can be joined before its `on_end`
(`breaks_of_unpaired`): the worker goes on to another `on_loop` by itself, and the
client comes to the join wherever it is.
-/

namespace Auth.Fingerprint

open Runs

section Breaks

variable {s : State} {tr : List Item}

/-- A second `on_loop`. -/
theorem breaks_of_onLoop (hset : s.obj.handlers.onLoop = true) (hw : s.worker = some .onLoop)
    (hopen : loopOpen tr = true) : machine.Breaks LoopsSafe s tr := by
  refine .step (.worker ⟨.ok, .nothing⟩) { s with worker := some .loadInner }
    (s.obj.invoke none .onLoop)
    (by simp [machine, State.step, hw, State.runWorker, State.goto]) (.now fun h => ?_)
  rw [s.obj.invoke_set none (h := .onLoop) hset] at h
  have hrule := (h.turns tr _ [] rfl).1 rfl
  cases hrule.symm.trans hopen

theorem breaks_of_storeCheck (hset : s.obj.handlers.onLoop = true)
    (hw : s.worker = some .storeCheck) (hopen : loopOpen tr = true) :
    machine.Breaks LoopsSafe s tr := by
  refine .step (.worker ⟨.ok, .nothing⟩)
    { s with obj := { s.obj with checkInProgress := true }, worker := some .onLoop } []
    (by simp [machine, State.step, hw, State.runWorker, State.goto, State.setObj]) ?_
  exact breaks_of_onLoop hset rfl (by rwa [List.append_nil])

/-- The worker goes on to another scan. -/
theorem breaks_of_running (hset : s.obj.handlers.onLoop = true) (hr : s.obj.isRunning = true)
    (hd : s.obj.device = true) (hw : s.worker = some .verifyStop) (hopen : loopOpen tr = true) :
    machine.Breaks LoopsSafe s tr := by
  have hstop : Mute [.verifyStop] := ⟨by simp [Item.isOnLoop, Item.isOnEnd], by simp⟩
  have hbegun : Mute [.verifyStart true] := ⟨by simp [Item.isOnLoop, Item.isOnEnd], by simp⟩
  refine .step (.worker ⟨.ok, .nothing⟩) { s with worker := some .pause } [.verifyStop]
    (by simp [machine, State.step, hw, State.runWorker, State.goto]) ?_
  refine .step (.worker ⟨.ok, .nothing⟩) { s with worker := some .loadRunning } []
    (by simp [machine, State.step, State.runWorker, State.goto]) ?_
  refine .step (.worker ⟨.ok, .nothing⟩) { s with worker := some .verifyStart } []
    (by simp [machine, State.step, State.runWorker, State.goto, hr, hd]) ?_
  refine .step (.worker ⟨.ok, .nothing⟩) { s with worker := some .storeCheck }
    [.verifyStart true] (by simp [machine, State.step, State.runWorker, State.goto]) ?_
  refine breaks_of_storeCheck hset rfl ?_
  rw [hbegun.loopOpen_eq, List.append_nil, List.append_nil, hstop.loopOpen_eq]
  exact hopen

/-- The worker is joined before the `on_end`. -/
theorem breaks_of_join (hpc : s.client = .join ∨ s.client = .deleteJoin)
    (hw : s.worker = some .exited) (hopen : loopOpen tr = true) :
    machine.Breaks LoopsSafe s tr := by
  have hnot : ¬LoopsSafe (tr ++ [Item.joined]) := fun h =>
    Bool.noConfusion ((h.joined tr _ [] rfl rfl).symm.trans hopen)
  rcases hpc with hpc | hpc
  · exact .step (.client true) { s with worker := none, client := .drain } [.joined]
      (by simp [machine, State.step, State.runClient, State.clientAt, hpc, hw]) (.now hnot)
  · exact .step (.client true) { s with worker := none, client := .release } [.joined]
      (by simp [machine, State.step, State.runClient, State.clientAt, hpc, hw]) (.now hnot)

theorem breaks_of_idle (hpc : s.client = .idle) (hw : s.worker = some .exited)
    (hr : s.obj.isRunning = false) (hopen : loopOpen tr = true) :
    machine.Breaks LoopsSafe s tr := by
  have hstart : Mute [.start] := ⟨by simp [Item.isOnLoop, Item.isOnEnd], by simp⟩
  refine .step .start { s with client := .load } [.start]
    (by simp [machine, State.step, State.clientAt, hpc]) ?_
  refine .step (.client true) { s with client := .join } []
    (by simp [machine, State.step, State.runClient, State.clientAt, hw, hr]) ?_
  refine breaks_of_join (Or.inl rfl) hw ?_
  rw [List.append_nil, hstart.loopOpen_eq]
  exact hopen

/-- Wherever the client is, it comes to join a worker that has ended. -/
theorem breaks_of_exited (hw : s.worker = some .exited) (hr : s.obj.isRunning = false)
    (hj : s.client.joined = false) (hstops : s.coming = 0 ∧ s.ending = 0)
    (hopen : loopOpen tr = true) : machine.Breaks LoopsSafe s tr := by
  have hat : ∀ pc ∈ s.client.stops, pc.looks = false ∧ pc.atEnd = false := fun pc hpc => by
    have hmem : pc ∈ s.allStops := List.mem_append_left _ hpc
    exact ⟨by simpa using List.countP_eq_zero.mp hstops.1 pc hmem,
      by simpa using List.countP_eq_zero.mp hstops.2 pc hmem⟩
  have hstopped : ∀ found, loopOpen (tr ++ (s.obj.invoke none .onStop ++
      [.stopReturned found])) = true := fun found => by
    have hout : Mute (s.obj.invoke none .onStop ++ [.stopReturned found]) :=
      (mute_invoke s.obj none (h := .onStop) (by simp) (by simp)).append
        ⟨by simp [Item.isOnLoop, Item.isOnEnd], by simp⟩
    rw [hout.loopOpen_eq]
    exact hopen
  cases hpc : s.client with
  | idle => exact breaks_of_idle hpc hw hr hopen
  | load =>
    refine .step (.client true) { s with client := .join } []
      (by simp [machine, State.step, State.runClient, State.clientAt, hpc, hw, hr]) ?_
    exact breaks_of_join (Or.inl rfl) hw (by rwa [List.append_nil])
  | join => exact breaks_of_join (Or.inl hpc) hw hopen
  | catchStore =>
    have hthrew : Mute [.startReturned .threw] :=
      ⟨by simp [Item.isOnLoop, Item.isOnEnd], by simp⟩
    refine .step (.client true)
      { s with obj := { s.obj with isRunning := false }, client := .idle } [.startReturned .threw]
      (by simp [machine, State.step, State.runClient, State.clientAt, State.setObj, hpc]) ?_
    exact breaks_of_idle rfl hw rfl (by rwa [hthrew.loopOpen_eq])
  | stop pc =>
    have hpc' := hat pc (by rw [hpc]; exact List.mem_singleton.mpr rfl)
    cases pc with
    | onStop found =>
      refine .step (.client true) { s with client := .idle }
        (s.obj.invoke none .onStop ++ [.stopReturned found])
        (by simp [machine, State.step, State.runClient, State.clientAt, State.setObj, hpc,
          Members.stop]) ?_
      exact breaks_of_idle rfl hw hr (hstopped found)
    | compareRunning | write | compareCheck found => cases hpc'.1
    | onEnd found => cases hpc'.2
  | deleteStop pc =>
    have hpc' := hat pc (by rw [hpc]; exact List.mem_singleton.mpr rfl)
    cases pc with
    | onStop found =>
      refine .step (.client true) { s with client := .deleteJoin }
        (s.obj.invoke none .onStop ++ [.stopReturned found])
        (by simp [machine, State.step, State.runClient, State.clientAt, State.setObj, hpc,
          Members.stop]) ?_
      exact breaks_of_join (Or.inr rfl) hw (hstopped found)
    | compareRunning | write | compareCheck found => cases hpc'.1
    | onEnd found => cases hpc'.2
  | deleteJoin => exact breaks_of_join (Or.inr hpc) hw hopen
  | drain | storeRunning | storeCheck | onStart | create | release | close | onDelete | deleted =>
    rw [hpc] at hj
    cases hj

/-- The worker ends with the flag set. -/
theorem breaks_of_stopped (hw : s.worker = some .verifyStop) (hr : s.obj.isRunning = false)
    (hj : s.client.joined = false) (hstops : s.coming = 0 ∧ s.ending = 0)
    (hopen : loopOpen tr = true) : machine.Breaks LoopsSafe s tr := by
  have hstop : Mute [.verifyStop] := ⟨by simp [Item.isOnLoop, Item.isOnEnd], by simp⟩
  refine .step (.worker ⟨.ok, .nothing⟩) { s with worker := some .pause } [.verifyStop]
    (by simp [machine, State.step, hw, State.runWorker, State.goto]) ?_
  refine .step (.worker ⟨.ok, .nothing⟩) { s with worker := some .loadRunning } []
    (by simp [machine, State.step, State.runWorker, State.goto]) ?_
  refine .step (.worker ⟨.ok, .nothing⟩) { s with worker := some .exited } []
    (by simp [machine, State.step, State.runWorker, State.goto, hr]) ?_
  refine breaks_of_exited rfl hr hj hstops ?_
  rw [List.append_nil, List.append_nil, hstop.loopOpen_eq]
  exact hopen

end Breaks

/-! ## The device -/

/-- A worker that scans has a device. -/
def DeviceInv (s : State) : Prop :=
  ∀ pc, s.worker = some pc → pc = .verifyStart ∨ pc.holdsScan = true → s.obj.device = true

theorem StopStep.device {p p' : Members} {ok : Bool} {pc : StopPc} {pc' : Option StopPc}
    {out : List Item} (h : StopStep p ok pc pc' p' out) : p'.device = p.device := by
  cases h <;> rfl

theorem ClientStep.device {s : State} {ok : Bool} {p : Members} {w : Option WorkerPc}
    {pc : ClientPc} {out : List Item} (h : ClientStep s ok p w pc out) :
    p.device = s.obj.device := by
  cases h <;> rfl

theorem WorkerStep.deviceInv {s : State} {o : WorkerOutcomes} {pc : WorkerPc} {p : Members}
    {queue : List (Nat × Signal)} {pc' : WorkerPc} {out : List Item}
    (h : WorkerStep s o pc p queue pc' out) (hw : s.worker = some pc) (hinv : DeviceInv s)
    (hpc' : pc' = .verifyStart ∨ pc'.holdsScan = true) : p.device = true := by
  have hpc : (pc = .verifyStart ∨ pc.holdsScan = true) → s.obj.device = true := hinv pc hw
  cases h with
  | goes h =>
    rcases hpc' with rfl | hheld
    · cases h with
      | running hr hd => exact hd
    · exact hpc (Or.inr (h.holdsScan ▸ hheld))
  | called hc =>
    rcases hpc' with rfl | hheld
    · generalize hv : WorkerPc.verifyStart = pc' at hc
      cases hc with
      | verdict k result done => cases done <;> cases hv
      | _ => cases hv
    · exact hpc (Or.inr (hc.holdsScan ▸ hheld))
  | verifyStarted ho => exact hpc (Or.inl rfl)
  | verifyFailed msg ho => rcases hpc' with hpc' | hpc' <;> cases hpc'
  | checkStored | dispatched | scanEnded | verifyStopped => exact hpc (Or.inr rfl)

theorem deviceInv_reach {s : State} {tr : List Item} (h : machine.Reach s tr) : DeviceInv s := by
  refine h.invariant (I := fun s _ => DeviceInv s) ?_ ?_
  · rintro s ⟨handlers, pipe, device, rfl⟩ pc hw
    cases hw
  · intro s tr i s' out hinv _ hs
    cases machine_step hs with
    | client ok p w pc out h =>
      intro pc1 hw hpc1
      rw [h.device]
      rcases h.worker with hw' | hw' | hw' <;> rw [show _ = _ from hw'] at hw
      · exact hinv pc1 hw hpc1
      · cases hw
      · cases hw
        rcases hpc1 with hpc1 | hpc1 <;> cases hpc1
    | stopStep i ok pc pc' client stops p out hi hr h =>
      intro pc1 hw hpc1
      rw [h.device]
      exact hinv pc1 hw hpc1
    | worker o pc p queue pc' out hw h =>
      intro pc1 hw1 hpc1
      cases hw1
      exact h.deviceInv hw hinv hpc1
    | _ => exact hinv

/-! ## Steps that break the condition -/

/-- A step that leaves a scan. -/
theorem leavesScan_step {s s' : State} {i : Input} {out : List Item}
    (hl : s.leavesScan i = true) (hs : machine.step s i = some (s', out)) :
    (s.worker = some .loadInner ∧ s.obj.isRunning = false ∨ s.worker = some .process) ∧
      s' = { s with worker := some .verifyStop } ∧ out = [] := by
  cases i with
  | worker o =>
    obtain ⟨pc, hw, hrun⟩ := Option.bind_eq_some_iff.mp hs
    rw [State.leavesScan, hw] at hl
    cases pc with
    | loadInner =>
      have hr : s.obj.isRunning = false := by simpa using hl
      simp only [State.runWorker, State.goto, hr, Bool.false_eq_true, if_false] at hrun
      cases hrun
      exact ⟨Or.inl ⟨hw, hr⟩, rfl, rfl⟩
    | process =>
      have ho : o.process = .failed := by simpa using hl
      simp only [State.runWorker, State.goto, ho] at hrun
      cases hrun
      exact ⟨Or.inr hw, rfl, rfl⟩
    | _ => cases hl
  | _ => cases hl

/-- A step that joins the worker. -/
theorem joins_step {s s' : State} {i : Input} {out : List Item} (hj : s.joins i = true)
    (hs : machine.step s i = some (s', out)) : s.worker = some .exited ∧ out = [.joined] := by
  cases i with
  | client ok =>
    obtain ⟨hpc, hw⟩ := Bool.and_eq_true_iff.mp hj
    have hw : s.worker = some .exited := beq_iff_eq.mp hw
    refine ⟨hw, ?_⟩
    rcases Bool.or_eq_true_iff.mp hpc with hpc | hpc
    · obtain ⟨hat, hok⟩ := Bool.and_eq_true_iff.mp hpc
      subst hok
      simp only [machine, State.step, State.runClient, State.clientAt, beq_iff_eq.mp hat, hw] at hs
      cases hs
      rfl
    · simp only [machine, State.step, State.runClient, State.clientAt, beq_iff_eq.mp hpc, hw] at hs
      cases hs
      rfl
  | _ => cases hj

/-- **The condition is exact**: after a step that breaks it, with both handlers set, the rule
can be broken. -/
theorem breaks_of_unpaired {s s' : State} {tr out : List Item} {i : Input}
    (h : machine.ReachIf (fun s _ i => EndsPaired s i) s tr)
    (hset : s.obj.handlers.onLoop = true ∧ s.obj.handlers.onEnd = true)
    (hs : machine.step s i = some (s', out)) (hn : ¬EndsPaired s i) :
    machine.Breaks LoopsSafe s' (tr ++ out) := by
  have hinv := loopInv_reach h hset
  have hopen : s.worker ≠ some .onLoop → s.obj.checkInProgress = true ∨ s.ending ≠ 0 →
      loopOpen tr = true := by
    intro hw howed
    refine (hinv.open_iff (by simpa [State.atLoop] using hw)).mpr ?_
    unfold State.owed
    rcases howed with hc | hend
    · rw [hc, Bool.toNat_true]
      omega
    · omega
  by_contra hb
  refine hn ⟨hset.1.trans hset.2.symm, fun hl hc => ?_, fun hi hw => ?_, fun hm hw => ?_,
    fun hj => ?_⟩
  · -- the scan is left with the flag set, and no `stop` is to take it
    by_contra hne
    obtain ⟨hat, rfl, rfl⟩ := leavesScan_step hl hs
    have hloop : s.worker ≠ some .onLoop := by
      rcases hat with ⟨hat, -⟩ | hat <;> simp [hat]
    have hopen' : loopOpen (tr ++ []) = true := by
      rw [List.append_nil]
      exact hopen hloop (Or.inl hc)
    cases hr : s.obj.isRunning with
    | true =>
      rcases hat with ⟨-, hr'⟩ | hat
      · cases hr.symm.trans hr'
      · have hd := deviceInv_reach h.reach .process hat (Or.inr rfl)
        exact hb (breaks_of_running hset.1 hr hd rfl hopen')
    | false =>
      have hcoming : s.coming = 0 := by
        rw [hr] at hne
        simpa using hne
      have howed := hinv.owed
      have hending : s.ending = 0 := by
        have hat0 : s.atLoop = false := by simpa [State.atLoop] using hloop
        rw [State.owed, hc, hat0, Bool.toNat_true, Bool.toNat_false] at howed
        have hle := Bool.toNat_le (loopOpen tr)
        omega
      refine hb (breaks_of_stopped rfl hr ?_ ⟨hcoming, hending⟩ hopen')
      by_contra hj
      rw [Bool.not_eq_false] at hj
      have hnone := (scanInv_reach h.reach).joined hj
      rcases hat with ⟨hat, -⟩ | hat <;> cases hnone.symm.trans hat
  · -- the flag is stored before the `on_end` of the scan before
    by_contra hne
    cases i with
    | worker o =>
      obtain ⟨pc, hpc, hrun⟩ := Option.bind_eq_some_iff.mp hs
      cases hw.symm.trans hpc
      simp only [State.runWorker, State.goto, State.setObj] at hrun
      cases hrun
      have hopen' : loopOpen (tr ++ []) = true := by
        rw [List.append_nil]
        exact hopen (by simp [hw]) (Or.inr hne)
      exact hb (breaks_of_onLoop hset.1 rfl hopen')
    | _ => cases hi
  · -- `on_end` comes before `on_loop`
    have hfresh : loopOpen tr = false := hinv.fresh (by rw [State.atLoop, hw]; rfl)
    cases machine_step hs with
    | stopStep i ok pc pc' client stops p out hi hr hstop =>
      rw [hi] at hm
      cases hstop with
      | ended found =>
        rw [s.obj.invoke_set none (h := .onEnd) hset.2] at hb
        refine hb (.now fun hsafe => ?_)
        cases ((hsafe.turns tr _ [] rfl).2 rfl).symm.trans hfresh
      | _ => cases hm
    | client ok p w pc out hc =>
      rw [State.moving, hc.stops] at hm
      cases hm
    | _ => cases hm
  · -- the worker is joined before its `on_end`
    by_contra hne
    obtain ⟨hw, rfl⟩ := joins_step hj hs
    have hnow : s.obj.checkInProgress = true ∨ s.ending ≠ 0 := by
      by_cases hend : s.ending = 0
      · exact Or.inl (Classical.not_imp.mp fun hc => hne ⟨hend, hc⟩).1
      · exact Or.inr hend
    have hopen' := hopen (by simp [hw]) hnow
    exact hb (.now fun hsafe => Bool.noConfusion ((hsafe.joined tr _ [] rfl rfl).symm.trans hopen'))

end Auth.Fingerprint
