import Kirilock.Coordinator
import Kirilock.Hosts

/-!
What a step of the coordinator can do, and that it runs the two objects: a run of it is a
run of either (`fp_reach`, `pw_reach`).
-/

namespace Auth.Coordinator

open Runs

/-! ## `main` -/

/-- The steps of `main` that only look. -/
inductive Goes (s : State) : MainPc → MainPc → Prop
  | started (hc : s.fp.client = .idle) : Goes s .starting .loadAuthenticated
  | granted (ha : s.authenticated = true) : Goes s .loadAuthenticated .wipe
  | notGranted (ha : s.authenticated = false) : Goes s .loadAuthenticated .loadInterrupted
  | interrupted (hi : s.interrupted = true) : Goes s .loadInterrupted .wipe
  | notInterrupted (hi : s.interrupted = false) : Goes s .loadInterrupted .loadFp
  | fpRunning (hr : s.fp.obj.isRunning = true) : Goes s .loadFp .select
  | fpStopped (hr : s.fp.obj.isRunning = false) : Goes s .loadFp .loadPw
  | pwRunning (hr : s.pw.obj.isRunning = true) : Goes s .loadPw .select
  | pwStopped (hr : s.pw.obj.isRunning = false) : Goes s .loadPw .wipe
  | verified (hc : s.pw.client = .idle) : Goes s .verifying .clear
  | stoppedFp (hc : s.fp.client = .idle) : Goes s .stoppingFp .stopPw
  | stoppedPw (hc : s.pw.client = .idle) : Goes s .stoppingPw .result
  | deletedPw (ret : Int32) (hc : s.pw.client = .deleted) : Goes s (.deletingPw ret) (.deleteFp ret)
  | deletedFp (ret : Int32) (hc : s.fp.client = .deleted) : Goes s (.deletingFp ret) (.returned ret)

/-- The calls on `fp`, as they begin and as they go on. -/
inductive CallsFp (s : State) (ok : Bool) : MainPc → Fingerprint.Input → MainPc → Prop
  | start : CallsFp s ok .start .start .starting
  | starting (hc : s.fp.client ≠ .idle) : CallsFp s ok .starting (.client ok) .starting
  | stop : CallsFp s ok .stopFp .stop .stoppingFp
  | stopping (hc : s.fp.client ≠ .idle) : CallsFp s ok .stoppingFp (.client ok) .stoppingFp
  | delete (ret : Int32) : CallsFp s ok (.deleteFp ret) .delete (.deletingFp ret)
  | deleting (ret : Int32) (hc : s.fp.client ≠ .deleted) :
      CallsFp s ok (.deletingFp ret) (.client ok) (.deletingFp ret)

/-- The calls on `pw`, but for the beginning of `verify`. -/
inductive CallsPw (s : State) (ok : Bool) : MainPc → Password.Input → MainPc → Prop
  | verifying (hc : s.pw.client ≠ .idle) : CallsPw s ok .verifying (.client ok) .verifying
  | stop : CallsPw s ok .stopPw .stop .stoppingPw
  | stopping (hc : s.pw.client ≠ .idle) : CallsPw s ok .stoppingPw (.client ok) .stoppingPw
  | delete (ret : Int32) : CallsPw s ok (.deletePw ret) .delete (.deletingPw ret)
  | deleting (ret : Int32) (hc : s.pw.client ≠ .deleted) :
      CallsPw s ok (.deletingPw ret) (.client ok) (.deletingPw ret)

/-- The places where `pass_buf` is wiped. -/
inductive Wipes : MainPc → MainPc → Prop
  | clear : Wipes .clear .loadAuthenticated
  | wipe : Wipes .wipe .stopFp

/-! ## The machine -/

/-- The object is gone. -/
def State.gone (s : State) : Obj → Prop
  | .fp => s.fp.client = .deleted
  | .pw => s.pw.client = .deleted

inductive Step (s : State) : Input → State → List Item → Prop
  | goes (ok : Bool) (pc : MainPc) (h : Goes s s.main pc) :
      Step s (.main ok) { s with main := pc } []
  | wipes (ok : Bool) (pc : MainPc) (h : Wipes s.main pc) :
      Step s (.main ok) { s with main := pc, passBuf := [] }
        (if s.passBuf.isEmpty then [] else [.wiped (s.passBuf.map fun _ => 0)])
  | result (ok : Bool) (hpc : s.main = .result) :
      Step s (.main ok) { s with main := .deletePw (if s.authenticated then 0 else 1) }
        [.result s.authenticated]
  | callsFp (ok : Bool) (j : Fingerprint.Input) (pc : MainPc) (fp : Fingerprint.State)
      (out : List Fingerprint.Item) (h : CallsFp s ok s.main j pc)
      (hs : Fingerprint.machine.step s.fp j = some (fp, out)) :
      Step s (.main ok) { s with fp := fp, main := pc } (out.map .fp)
  | callsPw (ok : Bool) (j : Password.Input) (pc : MainPc) (pw : Password.State)
      (out : List Password.Item) (h : CallsPw s ok s.main j pc)
      (hs : Password.machine.step s.pw j = some (pw, out)) :
      Step s (.main ok) { s with pw := pw, main := pc } (out.map .pw)
  | fpInUse (ok : Bool) (ret : Int32) (hpc : s.main = .deletingFp ret)
      (hc : s.fp.client = .onDelete) (hstops : s.fp.stops ≠ []) :
      Step s (.main ok) { s with misused := some .fp } [.misused .fp]
  | pwInUse (ok : Bool) (ret : Int32) (hpc : s.main = .deletingPw ret)
      (hc : s.pw.client = .onDelete) (hstops : s.pw.stops ≠ []) :
      Step s (.main ok) { s with misused := some .pw } [.misused .pw]
  | noKey (hpc : s.main = .select) : Step s (.read none) { s with main := .loadAuthenticated } []
  | emptyLine (c : UInt8) (hpc : s.main = .select) (hc : isNewline c = true)
      (hb : s.passBuf = []) :
      Step s (.read (some c)) { s with main := .loadAuthenticated } [.key c]
  | line (c : UInt8) (pw : Password.State) (out : List Password.Item) (hpc : s.main = .select)
      (hc : isNewline c = true) (hb : s.passBuf ≠ [])
      (hs : Password.machine.step s.pw (.verify s.passBuf) = some (pw, out)) :
      Step s (.read (some c)) { s with pw := pw, main := .verifying } (.key c :: out.map .pw)
  | edited (c : UInt8) (hpc : s.main = .select) (hc : isNewline c = false) :
      Step s (.read (some c))
        { s with main := .loadAuthenticated, passBuf := edit s.passBuf c } [.key c]
  | interrupt : Step s .interrupt { s with interrupted := true } []
  | fpWorker (o : Fingerprint.WorkerOutcomes) (fp : Fingerprint.State)
      (out : List Fingerprint.Item) (hh : s.fpHandler = none)
      (hs : Fingerprint.machine.step s.fp (.worker o) = some (fp, out)) :
      Step s (.fpWorker o) { s with fp := fp, fpHandler := fpCalled out } (out.map .fp)
  | pwWorker (o : Password.WorkerOutcomes) (pw : Password.State) (out : List Password.Item)
      (hh : s.pwHandler = none)
      (hs : Password.machine.step s.pw (.worker o) = some (pw, out)) :
      Step s (.pwWorker o) { s with pw := pw, pwHandler := pwCalled out } (out.map .pw)
  | returns (obj : Obj) (ok : Bool) (h : HandlerPc) (hh : s.handler obj = some h)
      (hr : h = .exchange ∧ s.authenticated = true ∨ h = .call []) :
      Step s (.handler obj ok) (s.setHandler obj none) []
  | wins (obj : Obj) (ok : Bool) (hh : s.handler obj = some .exchange)
      (ha : s.authenticated = false) :
      Step s (.handler obj ok)
        { s.setHandler obj (some (.call obj.stops)) with authenticated := true } [.granted obj]
  | stale (obj : Obj) (ok : Bool) (o : Obj) (objs : List Obj)
      (hh : s.handler obj = some (.call (o :: objs))) (hgone : s.gone o) :
      Step s (.handler obj ok) { s with misused := some o } [.misused o]
  | stopsFp (obj : Obj) (ok : Bool) (objs : List Obj) (fp : Fingerprint.State)
      (out : List Fingerprint.Item) (hh : s.handler obj = some (.call (.fp :: objs)))
      (hs : Fingerprint.machine.step s.fp .otherStop = some (fp, out)) :
      Step s (.handler obj ok)
        { s.setHandler obj (some (.inFp .compareRunning objs)) with fp := fp } (out.map .fp)
  | stopsPw (obj : Obj) (ok : Bool) (objs : List Obj) (pw : Password.State)
      (out : List Password.Item) (hh : s.handler obj = some (.call (.pw :: objs)))
      (hs : Password.machine.step s.pw .otherStop = some (pw, out)) :
      Step s (.handler obj ok)
        { s.setHandler obj (some (.inPw .compare objs)) with pw := pw } (out.map .pw)
  | inFp (obj : Obj) (ok : Bool) (pc : Fingerprint.StopPc) (objs : List Obj)
      (fp : Fingerprint.State) (out : List Fingerprint.Item)
      (hh : s.handler obj = some (.inFp pc objs))
      (hs : Fingerprint.machine.step s.fp (.other (s.fp.stops.idxOf pc) ok) = some (fp, out)) :
      Step s (.handler obj ok)
        { s.setHandler obj (some ((s.fp.obj.stop ok pc).1.elim (.call objs) (.inFp · objs))) with
          fp := fp } (out.map .fp)
  | inPw (obj : Obj) (ok : Bool) (pc : Password.StopPc) (objs : List Obj)
      (pw : Password.State) (out : List Password.Item)
      (hh : s.handler obj = some (.inPw pc objs))
      (hs : Password.machine.step s.pw (.other (s.pw.stops.idxOf pc)) = some (pw, out)) :
      Step s (.handler obj ok)
        { s.setHandler obj (some ((s.pw.obj.stop pc).1.elim (.call objs) (.inPw · objs))) with
          pw := pw } (out.map .pw)
  | emit (body : Fingerprint.Signal) (fp : Fingerprint.State) (out : List Fingerprint.Item)
      (hs : Fingerprint.machine.step s.fp (.emit body) = some (fp, out)) :
      Step s (.emit body) { s with fp := fp } (out.map .fp)
  | childEnds (pid : Password.Pid) (run : Password.ChildRun) (pw : Password.State)
      (out : List Password.Item)
      (hs : Password.machine.step s.pw (.childEnds pid run) = some (pw, out)) :
      Step s (.childEnds pid run) { s with pw := pw } (out.map .pw)

/-! ## Inversion -/

theorem State.fpStep_some {s s' : State} {j : Fingerprint.Input} {out : List Item}
    (h : s.fpStep j = some (s', out)) :
    ∃ fp items, Fingerprint.machine.step s.fp j = some (fp, items) ∧ s' = { s with fp := fp } ∧
      out = items.map .fp := by
  obtain ⟨⟨fp, items⟩, hs, he⟩ := Option.map_eq_some_iff.mp h
  cases he
  exact ⟨fp, items, hs, rfl, rfl⟩

theorem State.pwStep_some {s s' : State} {j : Password.Input} {out : List Item}
    (h : s.pwStep j = some (s', out)) :
    ∃ pw items, Password.machine.step s.pw j = some (pw, items) ∧ s' = { s with pw := pw } ∧
      out = items.map .pw := by
  obtain ⟨⟨pw, items⟩, hs, he⟩ := Option.map_eq_some_iff.mp h
  cases he
  exact ⟨pw, items, hs, rfl, rfl⟩

/-- `main` begins a call on `fp`. -/
theorem callsFp_step {s s' : State} {ok : Bool} {j : Fingerprint.Input} {pc : MainPc}
    {out : List Item} (hc : CallsFp s ok s.main j pc)
    (h : (s.mainAt pc).fpStep j = some (s', out)) : Step s (.main ok) s' out := by
  obtain ⟨fp, items, hs, rfl, rfl⟩ := State.fpStep_some h
  exact .callsFp ok j pc fp items hc hs

theorem callsPw_step {s s' : State} {ok : Bool} {j : Password.Input} {pc : MainPc}
    {out : List Item} (hc : CallsPw s ok s.main j pc)
    (h : (s.mainAt pc).pwStep j = some (s', out)) : Step s (.main ok) s' out := by
  obtain ⟨pw, items, hs, rfl, rfl⟩ := State.pwStep_some h
  exact .callsPw ok j pc pw items hc hs

/-- `main` is in a call on `fp`. -/
theorem inFp_step {s s' : State} {ok : Bool} {next : MainPc} {out : List Item}
    (hnext : s.fp.client = .idle → Goes s s.main next)
    (hin : s.fp.client ≠ .idle → CallsFp s ok s.main (.client ok) s.main)
    (h : s.inFp ok next = some (s', out)) : Step s (.main ok) s' out := by
  unfold State.inFp at h
  split at h
  · rename_i hc
    cases h
    exact .goes ok next (hnext hc)
  · rename_i hc
    exact callsFp_step (hin hc) h

theorem inPw_step {s s' : State} {ok : Bool} {next : MainPc} {out : List Item}
    (hnext : s.pw.client = .idle → Goes s s.main next)
    (hin : s.pw.client ≠ .idle → CallsPw s ok s.main (.client ok) s.main)
    (h : s.inPw ok next = some (s', out)) : Step s (.main ok) s' out := by
  unfold State.inPw at h
  split at h
  · rename_i hc
    cases h
    exact .goes ok next (hnext hc)
  · rename_i hc
    exact callsPw_step (hin hc) h

theorem runMain_step {s s' : State} {ok : Bool} {out : List Item}
    (h : s.runMain ok = some (s', out)) : Step s (.main ok) s' out := by
  have hgoes : ∀ {pc : MainPc}, Goes s s.main pc → some (s.mainAt pc, []) = some (s', out) →
      Step s (.main ok) s' out := by
    intro pc hg he
    cases he
    exact .goes ok pc hg
  have hwipes : ∀ {pc : MainPc}, Wipes s.main pc → s.wipe pc = some (s', out) →
      Step s (.main ok) s' out := by
    intro pc hw he
    cases he
    exact .wipes ok pc hw
  cases hpc : s.main with
  | start =>
    simp only [State.runMain, hpc] at h
    exact callsFp_step (hpc ▸ .start) h
  | starting =>
    simp only [State.runMain, hpc] at h
    exact inFp_step (fun hc => hpc ▸ .started hc) (fun hc => hpc ▸ .starting hc) h
  | loadAuthenticated =>
    simp only [State.runMain, hpc] at h
    refine hgoes ?_ h
    rw [hpc]
    split
    · rename_i ha
      exact .granted ha
    · rename_i ha
      exact .notGranted (Bool.eq_false_iff.mpr ha)
  | loadInterrupted =>
    simp only [State.runMain, hpc] at h
    refine hgoes ?_ h
    rw [hpc]
    split
    · rename_i hi
      exact .interrupted hi
    · rename_i hi
      exact .notInterrupted (Bool.eq_false_iff.mpr hi)
  | loadFp =>
    simp only [State.runMain, hpc] at h
    refine hgoes ?_ h
    rw [hpc]
    split
    · rename_i hr
      exact .fpRunning hr
    · rename_i hr
      exact .fpStopped (Bool.eq_false_iff.mpr hr)
  | loadPw =>
    simp only [State.runMain, hpc] at h
    refine hgoes ?_ h
    rw [hpc]
    split
    · rename_i hr
      exact .pwRunning hr
    · rename_i hr
      exact .pwStopped (Bool.eq_false_iff.mpr hr)
  | select | returned ret =>
    simp only [State.runMain, hpc] at h
    cases h
  | verifying =>
    simp only [State.runMain, hpc] at h
    exact inPw_step (fun hc => hpc ▸ .verified hc) (fun hc => hpc ▸ .verifying hc) h
  | clear =>
    simp only [State.runMain, hpc] at h
    exact hwipes (hpc ▸ .clear) h
  | wipe =>
    simp only [State.runMain, hpc] at h
    exact hwipes (hpc ▸ .wipe) h
  | stopFp =>
    simp only [State.runMain, hpc] at h
    exact callsFp_step (hpc ▸ .stop) h
  | stoppingFp =>
    simp only [State.runMain, hpc] at h
    exact inFp_step (fun hc => hpc ▸ .stoppedFp hc) (fun hc => hpc ▸ .stopping hc) h
  | stopPw =>
    simp only [State.runMain, hpc] at h
    exact callsPw_step (hpc ▸ .stop) h
  | stoppingPw =>
    simp only [State.runMain, hpc] at h
    exact inPw_step (fun hc => hpc ▸ .stoppedPw hc) (fun hc => hpc ▸ .stopping hc) h
  | result =>
    simp only [State.runMain, hpc] at h
    cases h
    exact .result ok hpc
  | deletePw ret =>
    simp only [State.runMain, hpc] at h
    exact callsPw_step (hpc ▸ .delete ret) h
  | deletingPw ret =>
    simp only [State.runMain, State.inPwDelete, hpc] at h
    split at h
    · rename_i hc
      exact hgoes (hpc ▸ .deletedPw ret hc) h
    · rename_i hc
      split at h
      · rename_i huse
        cases h
        exact .pwInUse ok ret hpc huse.1 huse.2
      · have hcall : CallsPw s ok s.main (.client ok) s.main := by
          rw [hpc]
          exact .deleting ret hc
        exact callsPw_step hcall h
  | deleteFp ret =>
    simp only [State.runMain, hpc] at h
    exact callsFp_step (hpc ▸ .delete ret) h
  | deletingFp ret =>
    simp only [State.runMain, State.inFpDelete, hpc] at h
    split at h
    · rename_i hc
      exact hgoes (hpc ▸ .deletedFp ret hc) h
    · rename_i hc
      split at h
      · rename_i huse
        cases h
        exact .fpInUse ok ret hpc huse.1 huse.2
      · have hcall : CallsFp s ok s.main (.client ok) s.main := by
          rw [hpc]
          exact .deleting ret hc
        exact callsFp_step hcall h

theorem runHandler_step {s s' : State} {obj : Obj} {ok : Bool} {pc : HandlerPc} {out : List Item}
    (hh : s.handler obj = some pc) (h : s.runHandler obj ok pc = some (s', out)) :
    Step s (.handler obj ok) s' out := by
  have hfp : ∀ (h : Option HandlerPc), (s.setHandler obj h).fp = s.fp := by
    intro h
    cases obj <;> rfl
  have hpw : ∀ (h : Option HandlerPc), (s.setHandler obj h).pw = s.pw := by
    intro h
    cases obj <;> rfl
  cases pc with
  | exchange =>
    simp only [State.runHandler] at h
    split at h
    · rename_i ha
      cases h
      exact .returns obj ok _ hh (Or.inl ⟨rfl, ha⟩)
    · rename_i ha
      cases h
      exact .wins obj ok hh (Bool.eq_false_iff.mpr ha)
  | call objs =>
    cases objs with
    | nil =>
      simp only [State.runHandler] at h
      cases h
      exact .returns obj ok _ hh (Or.inr rfl)
    | cons o objs =>
      cases o with
      | fp =>
        simp only [State.runHandler] at h
        split at h
        · rename_i hgone
          cases h
          exact .stale obj ok .fp objs hh hgone
        · obtain ⟨fp, items, hs, rfl, rfl⟩ := State.fpStep_some h
          rw [hfp] at hs
          exact .stopsFp obj ok objs fp items hh hs
      | pw =>
        simp only [State.runHandler] at h
        split at h
        · rename_i hgone
          cases h
          exact .stale obj ok .pw objs hh hgone
        · obtain ⟨pw, items, hs, rfl, rfl⟩ := State.pwStep_some h
          rw [hpw] at hs
          exact .stopsPw obj ok objs pw items hh hs
  | inFp pc objs =>
    simp only [State.runHandler] at h
    obtain ⟨fp, items, hs, rfl, rfl⟩ := State.fpStep_some h
    rw [hfp] at hs
    exact .inFp obj ok pc objs fp items hh hs
  | inPw pc objs =>
    simp only [State.runHandler] at h
    obtain ⟨pw, items, hs, rfl, rfl⟩ := State.pwStep_some h
    rw [hpw] at hs
    exact .inPw obj ok pc objs pw items hh hs

theorem machine_step {s s' : State} {i : Input} {out : List Item}
    (h : machine.step s i = some (s', out)) : Step s i s' out := by
  simp only [machine, State.step] at h
  split at h
  · cases h
  cases i with
  | main ok => exact runMain_step h
  | read c =>
    simp only [State.read] at h
    split at h
    · rename_i hpc
      cases c with
      | none =>
        cases h
        exact .noKey hpc
      | some c =>
        simp only [Option.elim, State.key] at h
        split at h
        · rename_i hc
          split at h
          · rename_i hb
            cases h
            exact .emptyLine c hpc hc (List.isEmpty_iff.mp hb)
          · rename_i hb
            obtain ⟨⟨s1, out1⟩, hverify, he⟩ := Option.map_eq_some_iff.mp h
            obtain ⟨pw, items, hs, rfl, rfl⟩ := State.pwStep_some hverify
            cases he
            exact .line c pw items hpc hc (fun he => hb (List.isEmpty_iff.mpr he)) hs
        · rename_i hc
          cases h
          exact .edited c hpc (Bool.eq_false_iff.mpr hc)
    · cases h
  | interrupt =>
    cases h
    exact .interrupt
  | fpWorker o =>
    simp only [State.runFpWorker] at h
    split at h
    · cases h
    · rename_i hh
      obtain ⟨⟨fp, items⟩, hs, he⟩ := Option.map_eq_some_iff.mp h
      cases he
      exact .fpWorker o fp items (by simpa using hh) hs
  | pwWorker o =>
    simp only [State.runPwWorker] at h
    split at h
    · cases h
    · rename_i hh
      obtain ⟨⟨pw, items⟩, hs, he⟩ := Option.map_eq_some_iff.mp h
      cases he
      exact .pwWorker o pw items (by simpa using hh) hs
  | handler obj ok =>
    obtain ⟨pc, hh, hrun⟩ := Option.bind_eq_some_iff.mp h
    exact runHandler_step hh hrun
  | emit body =>
    obtain ⟨fp, items, hs, rfl, rfl⟩ := State.fpStep_some h
    exact .emit body fp items hs
  | childEnds pid run =>
    obtain ⟨pw, items, hs, rfl, rfl⟩ := State.pwStep_some h
    exact .childEnds pid run pw items hs

/-! ## The two objects -/

def Item.fp? : Item → Option Fingerprint.Item
  | .fp x => some x
  | _ => none

def Item.pw? : Item → Option Password.Item
  | .pw x => some x
  | _ => none

/-- What `fp` does in a run. -/
def ofFp (tr : List Item) : List Fingerprint.Item := tr.filterMap Item.fp?

def ofPw (tr : List Item) : List Password.Item := tr.filterMap Item.pw?

@[simp]
theorem ofFp_append (tr out : List Item) : ofFp (tr ++ out) = ofFp tr ++ ofFp out :=
  List.filterMap_append

@[simp]
theorem ofPw_append (tr out : List Item) : ofPw (tr ++ out) = ofPw tr ++ ofPw out :=
  List.filterMap_append

@[simp]
theorem ofFp_fp (out : List Fingerprint.Item) : ofFp (out.map .fp) = out := by
  rw [ofFp, List.filterMap_map]
  exact List.filterMap_some

@[simp]
theorem ofPw_pw (out : List Password.Item) : ofPw (out.map .pw) = out := by
  rw [ofPw, List.filterMap_map]
  exact List.filterMap_some

@[simp]
theorem ofFp_pw (out : List Password.Item) : ofFp (out.map .pw) = [] := by
  rw [ofFp, List.filterMap_map]
  exact List.filterMap_none out

@[simp]
theorem ofPw_fp (out : List Fingerprint.Item) : ofPw (out.map .fp) = [] := by
  rw [ofPw, List.filterMap_map]
  exact List.filterMap_none out

@[simp]
theorem State.setHandler_fp (s : State) (obj : Obj) (h : Option HandlerPc) :
    (s.setHandler obj h).fp = s.fp := by
  cases obj <;> rfl

@[simp]
theorem State.setHandler_pw (s : State) (obj : Obj) (h : Option HandlerPc) :
    (s.setHandler obj h).pw = s.pw := by
  cases obj <;> rfl

/-- Who moves `fp`. -/
def DrivesFp : Input → Fingerprint.Input → Prop
  | .main ok, j => ∃ s pc pc', CallsFp s ok pc j pc'
  | .fpWorker o, j => j = .worker o
  | .handler _ ok, j => j = .otherStop ∨ ∃ n, j = .other n ok
  | .emit body, j => j = .emit body
  | _, _ => False

/-- Who moves `pw`. -/
def DrivesPw : Input → Password.Input → Prop
  | .main ok, j => ∃ s pc pc', CallsPw s ok pc j pc'
  | .read _, j => ∃ pass, j = .verify pass
  | .pwWorker o, j => j = .worker o
  | .handler _ _, j => j = .otherStop ∨ ∃ n, j = .other n
  | .childEnds pid run, j => j = .childEnds pid run
  | _, _ => False

theorem Step.fp {s s' : State} {i : Input} {out : List Item} (h : Step s i s' out) :
    s'.fp = s.fp ∧ ofFp out = [] ∨
      ∃ j, DrivesFp i j ∧ Fingerprint.machine.step s.fp j = some (s'.fp, ofFp out) := by
  have hruns : ∀ {j : Fingerprint.Input} {fp : Fingerprint.State} {items : List Fingerprint.Item},
      DrivesFp i j → Fingerprint.machine.step s.fp j = some (fp, items) →
      ∃ j, DrivesFp i j ∧ Fingerprint.machine.step s.fp j = some (fp, ofFp (items.map .fp)) := by
    intro j fp items hd hs
    rw [ofFp_fp]
    exact ⟨j, hd, hs⟩
  cases h with
  | callsFp ok j pc fp items h hs => exact Or.inr (hruns ⟨s, _, pc, h⟩ hs)
  | fpWorker o fp items hh hs => exact Or.inr (hruns rfl hs)
  | stopsFp obj ok objs fp items hh hs => exact Or.inr (hruns (Or.inl rfl) hs)
  | inFp obj ok pc objs fp items hh hs => exact Or.inr (hruns (Or.inr ⟨_, rfl⟩) hs)
  | emit body fp items hs => exact Or.inr (hruns rfl hs)
  | wipes ok pc hpc =>
    refine Or.inl ⟨rfl, ?_⟩
    split <;> rfl
  | line c pw items hpc hc hb hs => exact Or.inl ⟨rfl, ofFp_pw items⟩
  | callsPw ok j pc pw items hpc hs => exact Or.inl ⟨rfl, ofFp_pw items⟩
  | pwWorker o pw items hh hs => exact Or.inl ⟨rfl, ofFp_pw items⟩
  | childEnds pid run pw items hs => exact Or.inl ⟨rfl, ofFp_pw items⟩
  | stopsPw obj ok objs pw items hh hs => exact Or.inl ⟨s.setHandler_fp obj _, ofFp_pw items⟩
  | inPw obj ok pc objs pw items hh hs => exact Or.inl ⟨s.setHandler_fp obj _, ofFp_pw items⟩
  | returns obj ok h hh hr => exact Or.inl ⟨s.setHandler_fp obj _, rfl⟩
  | wins obj ok hh ha => exact Or.inl ⟨s.setHandler_fp obj _, rfl⟩
  | _ => exact Or.inl ⟨rfl, rfl⟩

theorem Step.pw {s s' : State} {i : Input} {out : List Item} (h : Step s i s' out) :
    s'.pw = s.pw ∧ ofPw out = [] ∨
      ∃ j, DrivesPw i j ∧ Password.machine.step s.pw j = some (s'.pw, ofPw out) := by
  have hruns : ∀ {j : Password.Input} {pw : Password.State} {items : List Password.Item},
      DrivesPw i j → Password.machine.step s.pw j = some (pw, items) →
      ∃ j, DrivesPw i j ∧ Password.machine.step s.pw j = some (pw, ofPw (items.map .pw)) := by
    intro j pw items hd hs
    rw [ofPw_pw]
    exact ⟨j, hd, hs⟩
  cases h with
  | callsPw ok j pc pw items h hs => exact Or.inr (hruns ⟨s, _, pc, h⟩ hs)
  | line c pw items hpc hc hb hs => exact Or.inr (hruns ⟨_, rfl⟩ hs)
  | pwWorker o pw items hh hs => exact Or.inr (hruns rfl hs)
  | stopsPw obj ok objs pw items hh hs => exact Or.inr (hruns (Or.inl rfl) hs)
  | inPw obj ok pc objs pw items hh hs => exact Or.inr (hruns (Or.inr ⟨_, rfl⟩) hs)
  | childEnds pid run pw items hs => exact Or.inr (hruns rfl hs)
  | wipes ok pc hpc =>
    refine Or.inl ⟨rfl, ?_⟩
    split <;> rfl
  | callsFp ok j pc fp items h hs => exact Or.inl ⟨rfl, ofPw_fp items⟩
  | fpWorker o fp items hh hs => exact Or.inl ⟨rfl, ofPw_fp items⟩
  | emit body fp items hs => exact Or.inl ⟨rfl, ofPw_fp items⟩
  | stopsFp obj ok objs fp items hh hs => exact Or.inl ⟨s.setHandler_pw obj _, ofPw_fp items⟩
  | inFp obj ok pc objs fp items hh hs => exact Or.inl ⟨s.setHandler_pw obj _, ofPw_fp items⟩
  | returns obj ok h hh hr => exact Or.inl ⟨s.setHandler_pw obj _, rfl⟩
  | wins obj ok hh ha => exact Or.inl ⟨s.setHandler_pw obj _, rfl⟩
  | _ => exact Or.inl ⟨rfl, rfl⟩

/-- **The coordinator runs `auth::Fingerprint`.** -/
theorem hosts_fp : machine.Hosts Fingerprint.machine State.fp Item.fp? DrivesFp where
  init := by
    rintro s ⟨pipe, device, rfl⟩
    exact Fingerprint.start_init _ pipe device
  step s i s' out h := (machine_step h).fp

/-- **The coordinator runs `auth::Password`.** -/
theorem hosts_pw : machine.Hosts Password.machine State.pw Item.pw? DrivesPw where
  init := by
    rintro s ⟨pipe, device, rfl⟩
    exact Password.start_init _
  step s i s' out h := (machine_step h).pw

theorem fp_reach {s : State} {tr : List Item} (h : machine.Reach s tr) :
    Fingerprint.machine.Reach s.fp (ofFp tr) := hosts_fp.reach h

theorem pw_reach {s : State} {tr : List Item} (h : machine.Reach s tr) :
    Password.machine.Reach s.pw (ofPw tr) := hosts_pw.reach h

end Auth.Coordinator
