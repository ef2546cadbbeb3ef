import Kirilock.FingerprintSession
import Kirilock.FingerprintBreaks
import Mathlib.Data.List.Induction

/-!
Nothing less than `StopsMeet` will do.

Where `on_start` and `on_stop` are set, each of its clauses keeps out steps after which a
session can end without an `on_stop`, or can have a second one (`breaks_of_unmet`): the
worker comes to its end or to another scan by itself, the client comes from wherever it is
to the next `on_start` or to `on_delete`, and another thread can always call `stop`.
-/

namespace Auth.Fingerprint

open Runs

section Breaks

variable {s s' : State} {tr out : List Item}

/-! ## To the end of a session -/

theorem not_stopsSafe {h : Handler} (hh : h = .onStart ∨ h = .onDelete) {post : List Item}
    (hsince : stopsSince tr = some 0) : ¬StopsSafe (tr ++ .handler none h :: post) := by
  intro hsafe
  have hends : (Item.handler none h).endsSession = true := by rcases hh with rfl | rfl <;> rfl
  exact absurd ((hsafe tr _ post rfl).1 hends 0 hsince) Nat.zero_ne_one

/-- `on_start` was called, and no `on_stop` since. -/
structure Unstopped (s : State) (tr : List Item) : Prop where
  set : s.obj.handlers.onStart = true
  since : stopsSince tr = some 0

theorem Unstopped.step (h : Unstopped s tr) {i : Input} (hs : machine.step s i = some (s', out))
    (hout : Hushed out) : Unstopped s' (tr ++ out) :=
  ⟨(step_handlers hs).1 ▸ h.set, (stopsSince_append hout).trans h.since⟩

theorem Unstopped.breaks (h : Unstopped s tr) (i : Input) (s' : State) (out : List Item)
    (hs : machine.step s i = some (s', out)) (hout : Hushed out)
    (hb : Unstopped s' (tr ++ out) → machine.Breaks StopsSafe s' (tr ++ out)) :
    machine.Breaks StopsSafe s tr :=
  .step i s' out hs (hb (h.step hs hout))

/-! ### To `on_start` -/

theorem breaks_of_onStart (h : Unstopped s tr) (hpc : s.client = .onStart) :
    machine.Breaks StopsSafe s tr := by
  refine .step (.client true) { s with client := .create } [.handler none .onStart]
    (by simp [machine, State.step, State.runClient, State.clientAt, hpc,
      s.obj.invoke_set none (h := .onStart) h.set]) (.now ?_)
  exact not_stopsSafe (Or.inl rfl) h.since

theorem breaks_of_drained (h : Unstopped s tr)
    (hpc : s.client = .drain ∨ s.client = .storeRunning ∨ s.client = .storeCheck) :
    machine.Breaks StopsSafe s tr := by
  have hcheck : ∀ {s : State} {tr : List Item}, Unstopped s tr → s.client = .storeCheck →
      machine.Breaks StopsSafe s tr := fun {s tr} h hpc =>
    h.breaks (.client true)
      { s with obj := { s.obj with checkInProgress := false }, client := .onStart } []
      (by simp [machine, State.step, State.runClient, State.clientAt, State.setObj, hpc]) hushed_nil
      fun h => breaks_of_onStart h rfl
  have hrunning : ∀ {s : State} {tr : List Item}, Unstopped s tr → s.client = .storeRunning →
      machine.Breaks StopsSafe s tr := fun {s tr} h hpc =>
    h.breaks (.client true)
      { s with obj := { s.obj with isRunning := true }, client := .storeCheck } []
      (by simp [machine, State.step, State.runClient, State.clientAt, State.setObj, hpc]) hushed_nil
      fun h => hcheck h rfl
  rcases hpc with hpc | hpc | hpc
  · refine h.breaks (.client false) { s with client := .storeRunning } [] ?_ hushed_nil
      fun h => hrunning h rfl
    simp only [machine, State.step, State.runClient, State.clientAt, hpc]
    split <;> rfl
  · exact hrunning h hpc
  · exact hcheck h hpc

theorem breaks_of_joining (h : Unstopped s tr) (hpc : s.client = .join)
    (hw : s.worker = some .exited) : machine.Breaks StopsSafe s tr :=
  h.breaks (.client true) { s with worker := none, client := .drain } [.joined]
    (by simp [machine, State.step, State.runClient, State.clientAt, hpc, hw])
    (by simp [Hushed, Item.endsSession, Item.isOnStop]) fun h => breaks_of_drained h (Or.inl rfl)

theorem breaks_of_loading (h : Unstopped s tr) (hpc : s.client = .load)
    (hw : s.worker = none ∨ s.worker = some .exited) (hr : s.obj.isRunning = false) :
    machine.Breaks StopsSafe s tr := by
  rcases hw with hw | hw
  · exact h.breaks (.client true) { s with client := .drain } []
      (by simp [machine, State.step, State.runClient, State.clientAt, hpc, hw]) hushed_nil
      fun h => breaks_of_drained h (Or.inl rfl)
  · exact h.breaks (.client true) { s with client := .join } []
      (by simp [machine, State.step, State.runClient, State.clientAt, hpc, hw, hr]) hushed_nil
      fun h => breaks_of_joining h rfl hw

theorem breaks_of_resting (h : Unstopped s tr) (hpc : s.client = .idle)
    (hw : s.worker = none ∨ s.worker = some .exited) (hr : s.obj.isRunning = false) :
    machine.Breaks StopsSafe s tr :=
  h.breaks .start { s with client := .load } [.start]
    (by simp [machine, State.step, State.clientAt, hpc])
    (by simp [Hushed, Item.endsSession, Item.isOnStop]) fun h => breaks_of_loading h rfl hw hr

theorem breaks_of_caught (h : Unstopped s tr) (hpc : s.client = .catchStore)
    (hw : s.worker = none ∨ s.worker = some .exited) : machine.Breaks StopsSafe s tr :=
  h.breaks (.client true)
    { s with obj := { s.obj with isRunning := false }, client := .idle } [.startReturned .threw]
    (by simp [machine, State.step, State.runClient, State.clientAt, State.setObj, hpc])
    (by simp [Hushed, Item.endsSession, Item.isOnStop]) fun h => breaks_of_resting h rfl hw rfl

/-- The worker that is made finds `is_running_` false. -/
theorem breaks_of_creating (h : Unstopped s tr) (hpc : s.client = .create)
    (hr : s.obj.isRunning = false) : machine.Breaks StopsSafe s tr :=
  h.breaks (.client true) { s with worker := some .loadRunning, client := .idle }
    [.started, .startReturned .started]
    (by simp [machine, State.step, State.runClient, State.clientAt, hpc])
    (by simp [Hushed, Item.endsSession, Item.isOnStop]) fun h =>
  h.breaks (.worker ⟨.ok, .nothing⟩)
    { s with worker := some .exited, client := .idle } []
    (by simp [machine, State.step, State.runWorker, State.goto, hr]) hushed_nil
    fun h => breaks_of_resting h rfl (Or.inr rfl) hr

/-! ### To `on_delete` -/

theorem breaks_of_onDelete (h : Unstopped s tr)
    (hpc : s.client = .release ∨ s.client = .close ∨ s.client = .onDelete)
    (hset : s.obj.handlers.onDelete = true) (hstops : s.stops = []) :
    machine.Breaks StopsSafe s tr := by
  have hdelete : ∀ {s : State} {tr : List Item}, Unstopped s tr → s.client = .onDelete →
      s.obj.handlers.onDelete = true → s.stops = [] → machine.Breaks StopsSafe s tr :=
    fun {s tr} h hpc hset hstops =>
    .step (.client true) { s with client := .deleted } [.handler none .onDelete, .deleted]
      (by simp [machine, State.step, State.runClient, State.clientAt, hpc, hstops,
        s.obj.invoke_set none (h := .onDelete) hset])
      (.now (not_stopsSafe (Or.inr rfl) h.since))
  have hclose : ∀ {s : State} {tr : List Item}, Unstopped s tr → s.client = .close →
      s.obj.handlers.onDelete = true → s.stops = [] → machine.Breaks StopsSafe s tr :=
    fun {s tr} h hpc hset hstops =>
    h.breaks (.client true)
      { s with obj := { s.obj with cancelPipe := none }, client := .onDelete } []
      (by simp [machine, State.step, State.runClient, State.clientAt, State.setObj, hpc]) hushed_nil
      fun h => hdelete h rfl hset hstops
  rcases hpc with hpc | hpc | hpc
  · refine h.breaks (.client true) { s with client := .close }
      (if s.obj.device then [.release] else [])
      (by simp [machine, State.step, State.runClient, State.clientAt, hpc]) ?_
      fun h => hclose h rfl hset hstops
    split <;> simp [Hushed, Item.endsSession, Item.isOnStop]
  · exact hclose h hpc hset hstops
  · exact hdelete h hpc hset hstops

theorem breaks_of_deleting (h : Unstopped s tr) (hpc : s.client = .deleteJoin)
    (hw : s.worker = some .exited) (hset : s.obj.handlers.onDelete = true)
    (hstops : s.stops = []) : machine.Breaks StopsSafe s tr :=
  h.breaks (.client true) { s with worker := none, client := .release } [.joined]
    (by simp [machine, State.step, State.runClient, State.clientAt, hpc, hw])
    (by simp [Hushed, Item.endsSession, Item.isOnStop])
    fun h => breaks_of_onDelete h (Or.inl rfl) hset hstops

/-! ### From everywhere -/

/-- Wherever the client is, it comes to the end of a session whose worker has ended. -/
theorem breaks_of_worked (h : Unstopped s tr)
    (hw : s.worker = some .exited ∨ s.worker = none ∧ s.client.joined = true)
    (hr : s.cleared = true) (hstops : s.allStops = []) (hdel : s.unasked = false)
    (hne : s.client ≠ .deleted) : machine.Breaks StopsSafe s tr := by
  obtain ⟨hclient, hothers⟩ := List.append_eq_nil_iff.mp hstops
  have hgone : s.worker = none ∨ s.worker = some .exited := hw.symm.imp_left And.left
  have hrunning : s.client ≠ .storeCheck → s.client ≠ .onStart → s.obj.isRunning = false := by
    intro h1 h2
    simpa [State.cleared, h1, h2] using hr
  have hset : s.client.deleting = true → s.obj.handlers.onDelete = true := by
    intro hd
    simpa [State.unasked, hd] using hdel
  have hexited : s.client.joined = false → s.worker = some .exited := by
    intro hj
    exact hw.resolve_right fun hn => Bool.noConfusion (hj.symm.trans hn.2)
  cases hpc : s.client with
  | idle => exact breaks_of_resting h hpc hgone (hrunning (by simp [hpc]) (by simp [hpc]))
  | load => exact breaks_of_loading h hpc hgone (hrunning (by simp [hpc]) (by simp [hpc]))
  | join => exact breaks_of_joining h hpc (hexited (by rw [hpc]; rfl))
  | drain => exact breaks_of_drained h (Or.inl hpc)
  | storeRunning => exact breaks_of_drained h (Or.inr (Or.inl hpc))
  | storeCheck => exact breaks_of_drained h (Or.inr (Or.inr hpc))
  | onStart => exact breaks_of_onStart h hpc
  | create => exact breaks_of_creating h hpc (hrunning (by simp [hpc]) (by simp [hpc]))
  | catchStore => exact breaks_of_caught h hpc hgone
  | stop pc | deleteStop pc =>
    rw [hpc] at hclient
    cases hclient
  | deleteJoin =>
    exact breaks_of_deleting h hpc (hexited (by rw [hpc]; rfl)) (hset (by rw [hpc]; rfl)) hothers
  | release => exact breaks_of_onDelete h (Or.inl hpc) (hset (by rw [hpc]; rfl)) hothers
  | close => exact breaks_of_onDelete h (Or.inr (Or.inl hpc)) (hset (by rw [hpc]; rfl)) hothers
  | onDelete => exact breaks_of_onDelete h (Or.inr (Or.inr hpc)) (hset (by rw [hpc]; rfl)) hothers
  | deleted => exact absurd hpc hne

/-- The worker ends by itself where `is_running_` is false. -/
theorem breaks_of_working {pc : WorkerPc} (n : Nat) (hn : pc.rank ≤ n) (h : Unstopped s tr)
    (hw : s.worker = some pc) (hr : s.obj.isRunning = false)
    (hb : ∀ s' tr', Unstopped s' tr' → s'.worker = some .exited → s'.client = s.client →
      s'.stops = s.stops → s'.obj.isRunning = false → s'.obj.handlers = s.obj.handlers →
      machine.Breaks StopsSafe s' tr') : machine.Breaks StopsSafe s tr := by
  induction n generalizing s tr pc with
  | zero =>
    have he : pc = .exited := by
      cases pc <;> first
        | rfl
        | cases hn
    exact hb s tr h (he ▸ hw) rfl rfl hr rfl
  | succ n ih =>
    by_cases he : pc = .exited
    · exact hb s tr h (he ▸ hw) rfl rfl hr rfl
    · obtain ⟨⟨s1, out⟩, hs⟩ := Option.isSome_iff_exists.mp (worker_goes hw he)
      refine .step _ s1 out hs ?_
      cases hstep : machine_step hs with
      | stopStep i ok pc pc' client stops p out hi hrep hstop => cases hi
      | worker o pc1 p queue pc' out hw1 hwork =>
        cases hw.symm.trans hw1
        have hle := hwork.rank hr
        refine ih (by omega) (h.step hs hwork.hushed) rfl (hwork.keepsRunning.trans hr) ?_
        intro s' tr' h1 h2 h3 h4 h5 h6
        exact hb s' tr' h1 h2 h3 h4 h5 (h6.trans hwork.handlers.1)

/-- No `stop` is left to end the session. -/
theorem breaks_of_left (h : Unstopped s tr)
    (hw : s.worker = none → s.client.joined = true)
    (hscan : s.client.joined = true → s.worker = none)
    (hr : s.cleared = true) (hstops : s.allStops = []) (hdel : s.unasked = false)
    (hne : s.client ≠ .deleted) : machine.Breaks StopsSafe s tr := by
  cases hpc : s.worker with
  | none => exact breaks_of_worked h (Or.inr ⟨hpc, hw hpc⟩) hr hstops hdel hne
  | some pc =>
    have hj : s.client.joined = false := by
      by_contra hj
      rw [Bool.not_eq_false] at hj
      cases hpc.symm.trans (hscan hj)
    have hrunning : s.obj.isRunning = false := by
      rw [cleared_of_unjoined hj] at hr
      exact (Bool.not_eq_true' _).mp hr
    refine breaks_of_working pc.rank (Nat.le_refl _) h hpc hrunning ?_
    intro s' tr' h' hw' hclient hothers hr' hset
    refine breaks_of_worked h' (Or.inl hw') ?_ ?_ ?_ (hclient ▸ hne)
    · rw [State.cleared, hr']
      rfl
    · rw [State.allStops, hclient, hothers]
      exact hstops
    · rw [State.unasked, hclient, hset]
      exact hdel

/-! ## To a second `on_stop` -/

theorem StopsSafe.most (h : StopsSafe tr) : ∀ k, stopsSince tr = some k → k ≤ 1 := by
  induction tr using List.reverseRecOn with
  | nil => exact fun k hk => by cases hk
  | append_singleton tr x ih =>
    obtain ⟨hsafe, hrule⟩ := always_snoc.mp h
    intro k hk
    rw [stopsSince_snoc] at hk
    cases x with
    | handler n hd =>
      cases hd with
      | onStart =>
        cases hk
        exact Nat.zero_le _
      | onStop =>
        obtain ⟨m, hm, rfl⟩ := Option.map_eq_some_iff.mp hk
        have hfirst : m = 0 := hrule.2 rfl m hm
        omega
      | _ => exact ih hsafe k hk
    | _ => exact ih hsafe k hk

/-- Every `stop` that has not returned can take its next step. -/
theorem stop_goes {pc : StopPc} (hm : pc ∈ s.allStops) :
    ∃ i client stops, Replaces s pc (s.obj.stop true pc).1 client stops ∧
      machine.step s i = some
        ({ s with obj := (s.obj.stop true pc).2.1, client := client, stops := stops },
          (s.obj.stop true pc).2.2) := by
  rcases List.mem_append.mp hm with hc | ho
  · cases hpc : s.client with
    | stop pc1 =>
      rw [hpc] at hc
      cases List.mem_singleton.mp hc
      exact ⟨.client true, _, _, .client hpc,
        by simp [machine, State.step, State.runClient, State.clientAt, State.setObj, hpc]⟩
    | deleteStop pc1 =>
      rw [hpc] at hc
      cases List.mem_singleton.mp hc
      exact ⟨.client true, _, _, .delete hpc,
        by simp [machine, State.step, State.runClient, State.clientAt, State.setObj, hpc]⟩
    | _ =>
      rw [hpc] at hc
      cases hc
  · obtain ⟨k, hk, he⟩ := List.getElem_of_mem ho
    have hsplit : s.stops = s.stops.take k ++ pc :: s.stops.drop (k + 1) := by
      rw [← he, List.getElem_cons_drop, List.take_append_drop]
    refine ⟨.other k true, _, _, .other _ _ hsplit, ?_⟩
    simp [machine, State.step, List.getElem?_eq_getElem hk, he, State.setObj]

/-- A `stop` that finds the flag set comes to its `on_stop`. -/
theorem breaks_of_stop (pc : StopPc) (n : Nat) (hn : pc.rank ≤ n) (hm : pc ∈ s.allStops)
    (hset : s.obj.handlers.onStop = true) (hflag : pc.looks = true → s.obj.checkInProgress = true)
    (hne : s.client ≠ .deleted)
    (hb : ∀ s' tr', stopsSince tr' = (stopsSince tr).map (· + 1) → s'.client ≠ .deleted →
      (pc.looks = false → s'.obj = s.obj) → machine.Breaks StopsSafe s' tr') :
    machine.Breaks StopsSafe s tr := by
  induction n generalizing s tr pc with
  | zero => cases pc <;> cases hn
  | succ n ih =>
    obtain ⟨i, client, stops, hr, hs⟩ := stop_goes hm
    have hstop := s.obj.stop_step true pc
    generalize (s.obj.stop true pc).1 = pc' at hr hs hstop
    generalize (s.obj.stop true pc).2.1 = p at hr hs hstop
    generalize (s.obj.stop true pc).2.2 = out at hr hs hstop
    refine .step i _ out hs ?_
    have hnext : ∀ pc1, pc' = some pc1 → pc1 ∈ client.stops ++ stops := by
      rintro pc1 rfl
      obtain ⟨l1, l2, -, he⟩ := hr.allStops
      rw [he]
      simp
    have hne' : client ≠ .deleted := by
      rcases hr.client_of with rfl | ⟨hj, -, -⟩
      · exact hne
      · rintro rfl
        cases hj
    have hrank := hstop.rank
    -- a step before `on_stop`
    have hgo : ∀ pc1, pc' = some pc1 → Hushed out → p.handlers = s.obj.handlers →
        (pc1.looks = true → p.checkInProgress = true) →
        (pc.looks = false → pc1.looks = false ∧ p = s.obj) →
        machine.Breaks StopsSafe { s with obj := p, client := client, stops := stops }
          (tr ++ out) := by
      rintro pc1 rfl hout hh hf hsame
      refine ih pc1 ?_ (hnext pc1 rfl) (hh ▸ hset) hf hne' fun s' tr' h1 h2 h3 => ?_
      · simp only [Option.elim] at hrank
        omega
      · refine hb s' tr' ?_ h2 fun hl => ?_
        · rw [h1, stopsSince_append hout]
        · exact (h3 (hsame hl).1).trans (hsame hl).2
    cases hstop with
    | claimed hrun | missed hrun | wrote =>
      exact hgo _ rfl hushed_nil rfl (fun _ => hflag rfl) fun hl => by cases hl
    | took found hc => exact hgo _ rfl hushed_nil rfl (fun hl => by cases hl) fun hl => by cases hl
    | returned found hc => cases hc.symm.trans (hflag rfl)
    | ended found =>
      have hout := hushed_invoke s.obj none (h := .onEnd) (by simp) (by simp) (by simp)
      exact hgo _ rfl hout rfl (fun hl => by cases hl) fun _ => ⟨rfl, rfl⟩
    | stopped found =>
      refine hb _ _ ?_ hne' fun _ => rfl
      rw [s.obj.invoke_set none (h := .onStop) hset, ← List.append_assoc,
        stopsSince_append (by simp [Hushed, Item.endsSession, Item.isOnStop]), stopsSince_snoc]
      rfl

/-- A second `stop` ends a scan of the session. -/
theorem breaks_of_again {found : Bool} (hm : .onEnd found ∈ s.allStops)
    (hset : s.obj.handlers.onStop = true) (hc : s.obj.checkInProgress = true)
    (hne : s.client ≠ .deleted) (hsince : stopsSince tr = some 0) :
    machine.Breaks StopsSafe s tr := by
  refine breaks_of_stop (.onEnd found) _ (Nat.le_refl _) hm hset (fun hl => by cases hl) hne ?_
  intro s1 tr1 hsince1 hne1 hobj
  have hobj : s1.obj = s.obj := hobj rfl
  refine .step .otherStop { s1 with stops := .compareRunning :: s1.stops } [.stop]
    (by simp [machine, State.step, hne1]) ?_
  refine breaks_of_stop .compareRunning _ (Nat.le_refl _)
    (List.mem_append_right _ (List.mem_cons_self ..)) (hobj ▸ hset) (fun _ => hobj ▸ hc) hne1 ?_
  intro s2 tr2 hsince2 _ _
  refine .now fun hsafe => ?_
  rw [stopsSince_append (by simp [Hushed, Item.endsSession, Item.isOnStop]), hsince1, hsince]
    at hsince2
  have hmost := hsafe.most 2 hsince2
  omega

/-- How far the worker is from the store of the flag, where it is not set. -/
def WorkerPc.toScan : WorkerPc → Nat
  | .storeCheck => 1
  | .verifyStart => 2
  | .loadRunning => 3
  | .pause => 4
  | .verifyStop => 5
  | .loadCheck => 6
  | .loadInner => 7
  | .select => 8
  | .onLoop => 8
  | .callbackEnd _ => 8
  | .compareCheck _ => 8
  | .process => 9
  | .callback _ _ => 9
  | _ => 0

theorem WorkerPc.toScan_pos {pc : WorkerPc} {r : Bool} (h : pc.mayScan r = true) :
    0 < pc.toScan := by
  revert h
  cases pc <;> simp [WorkerPc.mayScan, WorkerPc.toScan]

theorem WorkerStep.toScan {pc pc' : WorkerPc} {p : Members} {queue : List (Nat × Signal)}
    (h : WorkerStep s ⟨.ok, .nothing⟩ pc p queue pc' out)
    (hm : pc.mayScan s.obj.isRunning = true) (hd : s.obj.device = true)
    (hc : s.obj.checkInProgress = false) :
    p = { s.obj with checkInProgress := true } ∨
      p = s.obj ∧ pc'.mayScan s.obj.isRunning = true ∧ pc'.toScan + 1 ≤ pc.toScan := by
  have hflag : s.obj.checkInProgress = true → False := fun h => Bool.noConfusion (hc.symm.trans h)
  cases h with
  | goes h =>
    right
    cases h with
    | noDevice hr hd' => cases hd'.symm.trans hd
    | exits hr | innerStopped hr =>
      rw [hr] at hm
      cases hm
    | leaves => cases hm
    | check hc' => exact (hflag hc').elim
    | running => exact ⟨rfl, rfl, by simp [WorkerPc.toScan]⟩
    | inner | checkDone | processFailed | processNothing | processOther | unreadable
    | notInProgress | select | pause =>
      exact ⟨rfl, hm, by simp [WorkerPc.toScan]⟩
  | called hcall =>
    right
    cases hcall with
    | notFound | startFailed => cases hm
    | verdict k result done => cases done <;> exact ⟨rfl, hm, by simp [WorkerPc.toScan]⟩
    | onLoop | callbackEnd => exact ⟨rfl, hm, by simp [WorkerPc.toScan]⟩
  | verifyStarted ho => exact Or.inr ⟨rfl, rfl, by simp [WorkerPc.toScan]⟩
  | verifyFailed msg ho => cases ho
  | checkStored => exact Or.inl rfl
  | dispatched x queue ho hq => cases ho
  | scanEnded k hc' => exact (hflag hc').elim
  | verifyStopped => exact Or.inr ⟨rfl, hm, by simp [WorkerPc.toScan]⟩

/-- The worker goes on to another scan. -/
theorem breaks_of_scan {pc : WorkerPc} (n : Nat) (hn : pc.toScan ≤ n) (hw : s.worker = some pc)
    (hm : pc.mayScan s.obj.isRunning = true) (hd : s.obj.device = true)
    (hc : s.obj.checkInProgress = false)
    (hb : ∀ s' tr', stopsSince tr' = stopsSince tr → s'.obj.checkInProgress = true →
      s'.obj.handlers = s.obj.handlers → s'.client = s.client → s'.stops = s.stops →
      machine.Breaks StopsSafe s' tr') : machine.Breaks StopsSafe s tr := by
  have hne : pc ≠ .exited := by
    rintro rfl
    cases hm
  induction n generalizing s tr pc with
  | zero =>
    have hpos := WorkerPc.toScan_pos hm
    omega
  | succ n ih =>
    obtain ⟨⟨s1, out⟩, hs⟩ := Option.isSome_iff_exists.mp (worker_goes hw hne)
    refine .step _ s1 out hs ?_
    cases machine_step hs with
    | stopStep i ok pc pc' client stops p out hi hrep hstop => cases hi
    | worker o pc1 p queue pc' out hw1 hwork =>
      cases hw.symm.trans hw1
      have hsince : stopsSince (tr ++ out) = stopsSince tr := stopsSince_append hwork.hushed
      rcases hwork.toScan hm hd hc with rfl | ⟨rfl, hm', hle⟩
      · exact hb _ _ hsince rfl rfl rfl rfl
      · refine ih (by omega) rfl hm' hd hc (fun s' tr' h1 h2 h3 h4 h5 => ?_) ?_
        · exact hb s' tr' (h1.trans hsince) h2 h3 h4 h5
        · rintro rfl
          cases hm'

end Breaks

/-! ## Steps that break the condition -/

/-- The flag is set only where there is a device. -/
theorem flag_device {s : State} {tr : List Item} (h : machine.Reach s tr) :
    s.obj.checkInProgress = true → s.obj.device = true := by
  refine h.invariant_of (I := fun s _ => s.obj.checkInProgress = true → s.obj.device = true)
    (J := fun s _ => DeviceInv s) deviceInv_reach ?_ ?_
  · rintro s ⟨handlers, pipe, device, rfl⟩ hc
    cases hc
  · intro s tr i s' out hdev hinv _ hs
    cases machine_step hs with
    | client ok p w pc out h =>
      intro hc
      rw [h.device]
      by_contra hd
      have hc0 : s.obj.checkInProgress = false := by simpa using mt hinv hd
      cases (h.unset hc0).symm.trans hc
    | stopStep i ok pc pc' client stops p out hi hr h =>
      intro hc
      rw [h.device]
      by_contra hd
      have hc0 : s.obj.checkInProgress = false := by simpa using mt hinv hd
      cases (h.unset hc0).symm.trans hc
    | worker o pc p queue pc' out hw h =>
      cases h with
      | checkStored => exact fun _ => hdev _ hw (Or.inr rfl)
      | scanEnded k hc' => exact fun hc => by cases hc
      | _ => exact hinv
    | _ => exact hinv

section Unmet

variable {s s' : State} {g : Option Bool} {tr out : List Item} {i : Input}

/-- A step of `start` that calls `on_start`. -/
theorem onStart_step {ok : Bool} (hpc : s.client = .onStart)
    (hset : s.obj.handlers.onStart = true) (hs : machine.step s (.client ok) = some (s', out)) :
    (s' = { s with client := .catchStore } ∨ s' = { s with client := .create } ∧ ok = true) ∧
      out = [.handler none .onStart] := by
  simp only [machine, State.step, State.runClient, hpc, State.clientAt,
    s.obj.invoke_set none (h := .onStart) hset] at hs
  cases ok with
  | true =>
    cases hs
    exact ⟨Or.inr ⟨rfl, rfl⟩, rfl⟩
  | false =>
    rw [if_pos ⟨rfl, hset⟩] at hs
    cases hs
    exact ⟨Or.inl rfl, rfl⟩

/-- `start` calls `on_start` and throws, or its worker cannot be made. -/
theorem breaks_of_unmade (hset : s.obj.handlers.onStart = true)
    (hjoined : s.client.joined = true → s.worker = none)
    (hmade : s.client = .create → stopsSince tr = some 0)
    (hpc : s.client = .onStart ∨ s.client = .create)
    (hs : machine.step s (.client false) = some (s', out)) :
    machine.Breaks StopsSafe s' (tr ++ out) := by
  rcases hpc with hpc | hpc
  · obtain ⟨hs' | ⟨-, hok⟩, rfl⟩ := onStart_step hpc hset hs
    · subst hs'
      refine breaks_of_caught ⟨hset, ?_⟩ rfl (Or.inl (hjoined (by rw [hpc]; rfl)))
      rw [stopsSince_snoc]
      rfl
    · cases hok
  · simp only [machine, State.step, State.runClient, hpc, State.clientAt, Bool.false_eq_true,
      if_false] at hs
    cases hs
    refine breaks_of_caught ⟨hset, ?_⟩ rfl (Or.inl (hjoined (by rw [hpc]; rfl)))
    rw [List.append_nil]
    exact hmade hpc

/-- A `stop` came before `on_start`. -/
theorem breaks_of_unbegun (hset : s.obj.handlers.onStart = true)
    (hjoined : s.client.joined = true → s.worker = none)
    (hat : s.clientStep .onStart i = true) (hr : s.obj.isRunning = false)
    (hs : machine.step s i = some (s', out)) : machine.Breaks StopsSafe s' (tr ++ out) := by
  have hpc := clientStep_eq hat
  have hw : s.worker = none := hjoined (by rw [hpc]; rfl)
  have hsince : stopsSince (tr ++ [Item.handler none .onStart]) = some 0 := by
    rw [stopsSince_snoc]
    rfl
  cases i with
  | client ok =>
    obtain ⟨hs', rfl⟩ := onStart_step hpc hset hs
    rcases hs' with rfl | ⟨rfl, -⟩
    · exact breaks_of_caught ⟨hset, hsince⟩ rfl (Or.inl hw)
    · exact breaks_of_creating ⟨hset, hsince⟩ rfl hr
  | _ => cases hat

/-- No thread is in a member function of an object that is gone. -/
theorem deleted_stops {s : State} {tr : List Item} (h : machine.Reach s tr) :
    s.client = .deleted → s.allStops = [] := by
  refine h.invariant (I := fun s _ => s.client = .deleted → s.allStops = []) ?_ ?_
  · rintro s ⟨handlers, pipe, device, rfl⟩ hpc
    cases hpc
  · intro s tr i s' out hinv _ hs hpc
    cases machine_step hs with
    | start | stop | delete => cases hpc
    | client ok p w pc out h =>
      cases h with
      | deleted hpc hstops => exact hstops
      | called pc hpc' h =>
        have hdel : pc = .deleted := hpc
        rcases h with rfl | rfl <;> cases hdel
      | _ => cases hpc
    | otherStop hne => exact absurd hpc hne
    | stopStep i ok pc pc' client stops p out hi hr h =>
      obtain ⟨l1, l2, hbefore, -⟩ := hr.allStops
      rcases hr.client_of with rfl | ⟨hj, -, -⟩
      · rw [hinv hpc] at hbefore
        simp at hbefore
      · rw [show client = .deleted from hpc] at hj
        cases hj
    | worker o pc p queue pc' out hw h => exact hinv hpc
    | emit body => exact hinv hpc

/-- The last `stop` that has yet to look at the flag, where none is to call its handlers. -/
theorem allStops_last {pc : StopPc} {l1 l2 : List StopPc} (hs : s.allStops = l1 ++ pc :: l2)
    (hpc : pc.looks = true) (hcoming : s.coming ≤ 1) (hpend : s.pending = 0) : l1 ++ l2 = [] := by
  have hlooks : s.allStops.countP StopPc.looks ≤ 1 := hcoming
  have hends : s.allStops.countP StopPc.atHandlers = 0 := hpend
  rw [hs, List.countP_append, List.countP_cons] at hlooks hends
  rw [if_pos hpc] at hlooks
  have h1 : (l1 ++ l2).countP StopPc.looks = 0 := by
    rw [List.countP_append]
    omega
  have h2 : (l1 ++ l2).countP StopPc.atHandlers = 0 := by
    rw [List.countP_append]
    omega
  refine List.eq_nil_iff_forall_not_mem.mpr fun pc' hpc' => ?_
  have hp1 := List.countP_eq_zero.mp h1 pc' hpc'
  have hp2 := List.countP_eq_zero.mp h2 pc' hpc'
  cases pc' <;> first
    | exact hp1 rfl
    | exact hp2 rfl

/-- The last `stop` finds no scan on. -/
theorem breaks_of_missed (hreach : machine.Reach s tr) (h : Unstopped s tr)
    (hplace : PlaceInv (s, some false)) (hpend : s.pending = 0) (hmiss : s.missesCheck i = true)
    (hcleared : s.cleared = true) (hcoming : s.coming ≤ 1) (hdel : s.unasked = false)
    (hs : machine.step s i = some (s', out)) : machine.Breaks StopsSafe s' (tr ++ out) := by
  have hscan := scanInv_reach (hreach.step trivial hs)
  have hgone := deleted_stops hreach
  cases hstep : machine_step hs with
  | stopStep i ok pc pc' client stops p out hi hr hstop =>
    have htakes : s.takesCheck i = false := by
      rw [State.missesCheck, hi] at hmiss
      rw [State.takesCheck, hi]
      cases pc with
      | compareCheck found => simpa using hmiss
      | _ => rfl
    have hplace' := hstop.placeInv hi hr hplace
    rw [noteMet_of_not (clientStep_of_moving hi) htakes] at hplace'
    rw [State.missesCheck, hi] at hmiss
    obtain ⟨l1, l2, hbefore, hafter⟩ := hr.allStops
    have hclient : client = s.client ∨ client.joined = false ∧ s.client.joined = false :=
      hr.client_of.imp_right fun h => ⟨h.1, h.2.2⟩
    have hne : client ≠ .deleted := by
      rcases hclient with rfl | ⟨hj, -⟩
      · intro hpc
        rw [hgone hpc] at hbefore
        simp at hbefore
      · rintro rfl
        cases hj
    cases hstop with
    | took found hc => simp [hc] at hmiss
    | returned found hc =>
      have hstops : client.stops ++ stops = [] := by
        rw [hafter, Option.toList_none, List.append_nil]
        exact allStops_last hbefore rfl hcoming hpend
      refine breaks_of_left (h.step hs (by simp [Hushed, Item.endsSession, Item.isOnStop]))
        (fun hw => hplace'.worker (by simp) hw) hscan.joined ?_ hstops ?_ hne
      · rcases hclient with rfl | ⟨-, hj⟩
        · exact hcleared
        · rw [cleared_of_unjoined hj] at hcleared
          simp [State.cleared, hcleared]
      · show (client.deleting && !s.obj.handlers.onDelete) = false
        rw [hr.deleting]
        exact hdel
    | _ => cases hmiss
  | client ok p w pc out hc =>
    rw [State.missesCheck, State.moving, hc.stops] at hmiss
    cases hmiss
  | _ => cases hmiss

/-- A `stop` ends a scan that another one can follow. -/
theorem breaks_of_taken (hreach : machine.Reach s tr) (hset : s.obj.handlers.onStop = true)
    (hsince : stopsSince tr = some 0) (htakes : s.takesCheck i = true) (hm : s.mayScan = true)
    (hs : machine.step s i = some (s', out)) : machine.Breaks StopsSafe s' (tr ++ out) := by
  have hscan := scanInv_reach (hreach.step trivial hs)
  have hdevice := flag_device hreach
  obtain ⟨pc, hw, hm⟩ := (Option.any_eq_true _ _).mp hm
  cases hstep : machine_step hs with
  | stopStep i ok pc1 pc' client stops p out hi hr hstop =>
    rw [State.takesCheck, hi] at htakes
    cases hstop with
    | took found hc =>
      have hmem : StopPc.onEnd found ∈ client.stops ++ stops := by
        obtain ⟨l1, l2, -, hafter⟩ := hr.allStops
        rw [hafter]
        simp
      have hne : client ≠ .deleted := by
        rintro rfl
        have hnone : s.worker = none := hscan.joined rfl
        cases hw.symm.trans hnone
      refine breaks_of_scan _ (Nat.le_refl _) hw hm (hdevice hc) rfl ?_
      intro s2 tr2 hsince2 hc2 hset2 hclient2 hstops2
      refine breaks_of_again (show StopPc.onEnd found ∈ s2.allStops from ?_) (hset2 ▸ hset) hc2
        (hclient2 ▸ hne) ?_
      · rw [State.allStops, hclient2, hstops2]
        exact hmem
      · rw [hsince2, List.append_nil, hsince]
    | returned found hc => simp [hc] at htakes
    | _ => cases htakes
  | client ok p w pc out hc =>
    rw [State.takesCheck, State.moving, hc.stops] at htakes
    cases htakes
  | _ => cases htakes

/-- A session ends without an `on_stop`. -/
theorem breaks_of_unended (hset : s.obj.handlers.onStart = true) (hsince : stopsSince tr = some 0)
    (hend : s.endsSession i = true) (hs : machine.step s i = some (s', out)) :
    machine.Breaks StopsSafe s' (tr ++ out) := by
  rcases Bool.or_eq_true_iff.mp hend with hat | hat
  · have hpc := clientStep_eq hat
    cases i with
    | client ok =>
      obtain ⟨-, rfl⟩ := onStart_step hpc hset hs
      exact .now (not_stopsSafe (Or.inl rfl) hsince)
    | _ => cases hat
  · obtain ⟨hat, hdelete⟩ := Bool.and_eq_true_iff.mp hat
    have hpc := clientStep_eq hat
    cases i with
    | client ok =>
      simp only [machine, State.step, State.runClient, hpc, State.clientAt,
        s.obj.invoke_set none (h := .onDelete) hdelete] at hs
      split at hs
      · cases hs
        exact .now (not_stopsSafe (Or.inr rfl) hsince)
      · cases hs
    | _ => cases hat

end Unmet

/-- **The condition is exact**: after a step that breaks it, with `on_start` and `on_stop` set,
the rule can be broken. -/
theorem breaks_of_unmet {s : State × Option Bool} {s' : State} {tr out : List Item} {i : Input}
    (h : sessions.ReachIf (fun s _ i => StopsMeet s i) s tr)
    (hset : s.1.obj.handlers.onStart = true ∧ s.1.obj.handlers.onStop = true)
    (hs : machine.step s.1 i = some (s', out)) (hn : ¬StopsMeet s i) :
    machine.Breaks StopsSafe s' (tr ++ out) := by
  obtain ⟨s, g⟩ := s
  have hreach : machine.Reach s tr := h.of_noting
  obtain ⟨hplace, hmet, hinv⟩ := sessionInv_reach h hset.1
  have hjoined := (scanInv_reach hreach).joined
  have hnone : g = some false → stopsSince tr = some 0 ∧ s.pending = 0 := by
    intro hg
    obtain ⟨m, hm, hsum⟩ := hinv.count false hg hset.2
    have hzero : m + s.pending = 0 := hsum
    obtain rfl : m = 0 := by omega
    exact ⟨hm, by omega⟩
  by_contra hb
  refine hn fun _ => ⟨?_, fun hat => ?_, fun hmiss hg => ?_, fun htakes => ?_, fun hend => ?_⟩
  · rintro rfl
    have hunmade := fun hpc => hb (breaks_of_unmade hset.1 hjoined
      (fun hc => (hnone (hplace.made hc)).1) hpc hs)
    exact ⟨fun hpc => hunmade (Or.inl hpc), fun hpc => hunmade (Or.inr hpc)⟩
  · by_contra hr
    exact hb (breaks_of_unbegun hset.1 hjoined hat (by simpa using hr) hs)
  · by_contra hne
    obtain ⟨hcleared, hcoming, hdel⟩ : s.cleared = true ∧ s.coming ≤ 1 ∧ s.unasked = false := by
      simp only [not_or, Bool.not_eq_false, Bool.not_eq_true, Nat.not_le] at hne
      exact ⟨hne.1, by omega, hne.2.2⟩
    have hg : g = some false := hg
    subst hg
    obtain ⟨hsince, hpend⟩ := hnone rfl
    exact hb (breaks_of_missed hreach ⟨hset.1, hsince⟩ hplace hpend hmiss hcleared hcoming hdel hs)
  · by_contra hm
    rw [Bool.not_eq_false] at hm
    have hflag : s.obj.checkInProgress = true := by
      by_contra hc
      rw [Bool.not_eq_true] at hc
      cases (takesCheck_unset hc).symm.trans htakes
    exact hb (breaks_of_taken hreach hset.2 (hnone (hmet.waiting hflag)).1 htakes hm hs)
  · cases hg : g with
    | none => exact Or.inl rfl
    | some met =>
      refine Or.inr ⟨hset.2, ?_⟩
      obtain ⟨m, hm, hsum⟩ := hinv.count met hg hset.2
      have hcount : m + s.pending = met.toNat := hsum
      have hpos : m ≠ 0 := fun h0 =>
        hb (breaks_of_unended hset.1 (by rw [hm, h0]) hend hs)
      have hle := Bool.toNat_le met
      refine ⟨by show s.pending = 0; omega, fun hf => ?_⟩
      cases hf
      have hzero : m + s.pending = 0 := hcount
      omega

end Auth.Fingerprint
