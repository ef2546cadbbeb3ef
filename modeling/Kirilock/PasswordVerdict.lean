import Mathlib.Data.List.Nodup
import Kirilock.PasswordStep

/-!
When `on_finish` is called.

`run_worker` reads its verdict from `status`, which is 0 before `waitpid` and is still
0 after a `waitpid` that fails; 0 is the status of a child that exited with 0.  So
`on_finish` is right (`FinishSafe`) in the runs where no failed `waitpid` is judged
(`Judged`), and `finish_unsafe` is a run where one is.
-/

namespace Auth.Password

open Runs

/-! ## Statuses -/

/-- The code of a normal exit. -/
def ChildRun.exitCode : ChildRun → Option UInt8
  | .pam o => some o.exitCode
  | .exits code => some code
  | .signaled _ _ => none

theorem PamOutcomes.exitCode_eq_zero {o : PamOutcomes} :
    o.exitCode = 0 ↔
      o.start = pamSuccess ∧ o.authenticate = pamSuccess ∧ o.acctMgmt = pamSuccess := by
  unfold PamOutcomes.exitCode PamOutcomes.ret
  by_cases h1 : o.start = pamSuccess
  · by_cases h2 : o.authenticate = pamSuccess <;> by_cases h3 : o.acctMgmt = pamSuccess <;>
      simp [h1, h2, h3]
  · simp [h1]

theorem verdict_exited (code : UInt8) :
    verdict (code.toNat * 256) = .onFinish ↔ code = 0 := by
  have hlt : code.toNat < 256 := code.toNat_lt
  have h1 : code.toNat * 256 % 128 = 0 := by omega
  have h2 : code.toNat * 256 / 256 % 256 = code.toNat := by omega
  by_cases hc : code = 0
  · simp [hc, verdict, wIfExited, wExitStatus]
  · have hne : code.toNat ≠ 0 := fun h => hc (UInt8.toNat_inj.mp h)
    simp [hc, verdict, wIfExited, wExitStatus, h1, hne]

/-- The verdict is `on_finish` exactly where the child exited with 0. -/
theorem verdict_status (run : ChildRun) :
    verdict run.status = .onFinish ↔ run.exitCode = some 0 := by
  cases run with
  | pam o => simp [ChildRun.status, ChildRun.exitCode, verdict_exited]
  | exits code => simp [ChildRun.status, ChildRun.exitCode, verdict_exited]
  | signaled sig core =>
    have h : ((sig : Nat) + 1 + if core then 128 else 0) % 128 ≠ 0 := by
      have := sig.isLt
      cases core <;> simp <;> omega
    simp [ChildRun.status, ChildRun.exitCode, verdict, wIfExited, h]

/-! ## The rule -/

/-- `on_finish` is called for an attempt whose child exited with 0; where the child ran to
its `_exit`, the three PAM calls succeeded. -/
def FinishRule (pre : List Item) (c : Item) : Prop :=
  ∀ n, c = .handler n .onFinish →
    ∃ run, .childEnded n run ∈ pre ∧ run.exitCode = some 0 ∧
      ∀ o, run = .pam o →
        o.start = pamSuccess ∧ o.authenticate = pamSuccess ∧ o.acctMgmt = pamSuccess

def FinishSafe (tr : List Item) : Prop := Always FinishRule tr

/-- The child of the attempt exited with 0. -/
def exitedZero (n : Nat) (tr : List Item) : Bool :=
  tr.any fun
    | .childEnded m run => m == n && run.exitCode == some 0
    | _ => false

/-- A `waitpid` of the attempt failed. -/
def waitpidFailed (n : Nat) (tr : List Item) : Bool :=
  tr.any fun
    | .waited m _ none => m == n
    | _ => false

/-- Where the verdict is about to be taken and `is_running_` is still set, `waitpid` did not
fail, or the child exited with 0 all the same. -/
def Judged (s : State) (tr : List Item) : Input → Prop
  | .worker _ =>
    match s.worker with
    | some ⟨n, .loadVerdict _⟩ =>
      s.obj.isRunning = true → waitpidFailed n tr = true → exitedZero n tr = true
    | _ => True
  | _ => True

instance (s : State) (tr : List Item) (i : Input) : Decidable (Judged s tr i) := by
  unfold Judged
  split
  · split <;> infer_instance
  · infer_instance

theorem exitedZero_iff {n : Nat} {tr : List Item} :
    exitedZero n tr = true ↔ ∃ run, .childEnded n run ∈ tr ∧ run.exitCode = some 0 := by
  unfold exitedZero
  rw [List.any_eq_true]
  constructor
  · rintro ⟨x, hx, h⟩
    split at h
    · simp only [Bool.and_eq_true, beq_iff_eq] at h
      obtain ⟨rfl, h0⟩ := h
      exact ⟨_, hx, h0⟩
    · cases h
  · rintro ⟨run, hx, h0⟩
    exact ⟨_, hx, by simp [h0]⟩

theorem waitpidFailed_append {n : Nat} {tr out : List Item} (h : waitpidFailed n tr = true) :
    waitpidFailed n (tr ++ out) = true := by
  simp only [waitpidFailed, List.any_append, Bool.or_eq_true]
  exact Or.inl h

theorem exitedZero_append {n : Nat} {tr out : List Item} (h : exitedZero n tr = true) :
    exitedZero n (tr ++ out) = true := by
  simp only [exitedZero, List.any_append, Bool.or_eq_true]
  exact Or.inl h

theorem finishRule_of_exitedZero {n : Nat} {pre : List Item} (h : exitedZero n pre = true) :
    ∃ run, .childEnded n run ∈ pre ∧ run.exitCode = some 0 ∧
      ∀ o, run = .pam o →
        o.start = pamSuccess ∧ o.authenticate = pamSuccess ∧ o.acctMgmt = pamSuccess := by
  obtain ⟨run, hrun, h0⟩ := exitedZero_iff.mp h
  refine ⟨run, hrun, h0, ?_⟩
  rintro o rfl
  exact PamOutcomes.exitCode_eq_zero.mp (Option.some.inj h0)

/-! ## Children -/

/-- No two children have one pid, and the ended ones have ended. -/
structure ChildrenOk (cs : List Child) (tr : List Item) : Prop where
  nodup : (cs.map Child.pid).Nodup
  ended : ∀ c ∈ cs, ∀ run, c.ended = some run → .childEnded c.attempt run ∈ tr

theorem ChildrenOk.extend {cs : List Child} {tr : List Item} (h : ChildrenOk cs tr)
    (out : List Item) : ChildrenOk cs (tr ++ out) :=
  ⟨h.nodup, fun c hc run hrun => List.mem_append_left _ (h.ended c hc run hrun)⟩

theorem ChildrenOk.forked {cs : List Child} {tr : List Item} (h : ChildrenOk cs tr) {pid : Pid}
    (hnew : ∀ c ∈ cs, c.pid ≠ pid) (n : Nat) (bytes : List UInt8) :
    ChildrenOk (⟨pid, n, bytes, none⟩ :: cs) tr := by
  refine ⟨?_, ?_⟩
  · rw [List.map_cons, List.nodup_cons]
    refine ⟨?_, h.nodup⟩
    rw [List.mem_map]
    rintro ⟨c, hc, hpid⟩
    exact hnew c hc hpid
  · rintro c hc run hrun
    rcases List.mem_cons.mp hc with rfl | hc
    · cases hrun
    · exact h.ended c hc run hrun

theorem ChildrenOk.reaped {cs : List Child} {tr : List Item} (h : ChildrenOk cs tr) (pid : Pid) :
    ChildrenOk (cs.filter (·.pid ≠ pid)) tr :=
  ⟨h.nodup.sublist (List.filter_sublist.map _), fun c hc => h.ended c (List.mem_filter.mp hc).1⟩

theorem endChild_pid (pid : Pid) (run : ChildRun) (c : Child) :
    (endChild pid run c).pid = c.pid := by
  unfold endChild
  split <;> rfl

theorem endChild_attempt (pid : Pid) (run : ChildRun) (c : Child) :
    (endChild pid run c).attempt = c.attempt := by
  unfold endChild
  split <;> rfl

theorem ChildrenOk.childEnds {cs : List Child} {tr : List Item} (h : ChildrenOk cs tr) {c : Child}
    (hc : c ∈ cs) (run : ChildRun) :
    ChildrenOk (cs.map (endChild c.pid run)) (tr ++ [Item.childEnded c.attempt run]) := by
  refine ⟨?_, ?_⟩
  · have hmap : (cs.map (endChild c.pid run)).map Child.pid = cs.map Child.pid := by
      simp [Function.comp_def, endChild_pid]
    rw [hmap]
    exact h.nodup
  · intro c' hc' run' hrun'
    obtain ⟨c0, hc0, rfl⟩ := List.mem_map.mp hc'
    rw [endChild_attempt]
    unfold endChild at hrun'
    split at hrun'
    · rename_i hpid
      have : c0 = c := List.inj_on_of_nodup_map h.nodup hc0 hc hpid
      subst this
      cases hrun'
      exact List.mem_append_right _ (List.mem_singleton.mpr rfl)
    · exact List.mem_append_left _ (h.ended c0 hc0 run' hrun')

/-! ## The invariant -/

/-- The pid that the worker waits for, or is going to. -/
def WorkerPc.pid : WorkerPc → Option Pid
  | .store pid => some pid
  | .load pid => some pid
  | .exchange pid => some pid
  | .kill pid _ => some pid
  | .waitpid pid => some pid
  | _ => none

/-- `status` after `waitpid`. -/
def WorkerPc.status : WorkerPc → Option Nat
  | .reset status => some status
  | .loadVerdict status => some status
  | .report status => some status
  | _ => none

/-- What is known of the worker: its pid is of its own child, and its status is that of its
child or of no child. -/
structure WorkerOk (cs : List Child) (tr : List Item) (w : Worker) : Prop where
  own : ∀ pid, w.pc.pid = some pid → ∀ c ∈ cs, c.pid = pid → c.attempt = w.attempt
  status : ∀ status, w.pc.status = some status →
    (∃ run, .childEnded w.attempt run ∈ tr ∧ status = run.status) ∨
      waitpidFailed w.attempt tr = true ∧ status = 0

structure StatusInv (s : State) (tr : List Item) : Prop where
  children : ChildrenOk s.children tr
  worker : ∀ w, s.worker = some w → WorkerOk s.children tr w

theorem WorkerOk.extend {cs : List Child} {tr : List Item} {w : Worker} (h : WorkerOk cs tr w)
    (out : List Item) : WorkerOk cs (tr ++ out) w where
  own := h.own
  status status hst := (h.status status hst).imp
    (fun ⟨run, hrun, he⟩ => ⟨run, List.mem_append_left _ hrun, he⟩)
    fun ⟨hf, he⟩ => ⟨waitpidFailed_append hf, he⟩

/-- A place without pid and status. -/
theorem workerOk_of_plain {cs : List Child} {tr : List Item} {w : Worker} (hp : w.pc.pid = none)
    (hs : w.pc.status = none) : WorkerOk cs tr w where
  own pid h := by
    rw [hp] at h
    cases h
  status status h := by
    rw [hs] at h
    cases h

/-- A place with a pid. -/
theorem workerOk_of_pid {cs : List Child} {tr : List Item} {n : Nat} {pc : WorkerPc} {pid : Pid}
    (hp : pc.pid = some pid) (hown : ∀ c ∈ cs, c.pid = pid → c.attempt = n) :
    WorkerOk cs tr ⟨n, pc⟩ where
  own pid' h := by
    have he := hp.symm.trans h
    rw [Option.some.injEq] at he
    exact he ▸ hown
  status status h := by cases pc <;> simp [WorkerPc.pid, WorkerPc.status] at hp h

/-- A place with a status. -/
theorem workerOk_of_status {cs : List Child} {tr : List Item} {n : Nat} {pc : WorkerPc}
    {status : Nat} (hpc : pc.status = some status)
    (hst : (∃ run, .childEnded n run ∈ tr ∧ status = run.status) ∨
      waitpidFailed n tr = true ∧ status = 0) : WorkerOk cs tr ⟨n, pc⟩ where
  own pid h := by cases pc <;> simp [WorkerPc.pid, WorkerPc.status] at hpc h
  status status' h := by
    have he := hpc.symm.trans h
    rw [Option.some.injEq] at he
    exact he ▸ hst

/-- The client leaves the worker as it is, joins it, or starts one. -/
theorem ClientStep.worker {s : State} {p : Members} {w : Option Worker} {pc : ClientPc}
    {out : List Item} (h : ClientStep s p w pc out) :
    w = s.worker ∨ w = none ∨ w = some ⟨s.verifies, .onBegin⟩ := by
  cases h with
  | joined => exact Or.inr (Or.inl rfl)
  | deleteJoined => exact Or.inr (Or.inl rfl)
  | created => exact Or.inr (Or.inr rfl)
  | _ => exact Or.inl rfl

theorem Calls.plain {pc pc' : WorkerPc} {h : Handler} (hc : Calls pc h pc') :
    pc'.pid = none ∧ pc'.status = none := by
  cases hc <;> exact ⟨rfl, rfl⟩

theorem Tests.keeps {pc pc' : WorkerPc} {running : Bool} (h : Tests pc running pc') :
    (pc'.pid = pc.pid ∨ pc'.pid = none) ∧ (pc'.status = pc.status ∨ pc'.status = none) := by
  cases h <;> simp [WorkerPc.pid, WorkerPc.status]

theorem WorkerStep.statusInv {s : State} {w : Worker} {o : WorkerOutcomes} {p : Members}
    {cs : List Child} {pc : WorkerPc} {out tr : List Item} (h : WorkerStep s w o p cs pc out)
    (hw : s.worker = some w) (hinv : StatusInv s tr) :
    StatusInv (s.worked w p cs pc) (tr ++ out) := by
  have hwork := hinv.worker w hw
  -- the worker is all that changes
  have hmoved : ∀ {p pc out}, WorkerOk s.children (tr ++ out) ⟨w.attempt, pc⟩ →
      StatusInv (s.worked w p s.children pc) (tr ++ out) := by
    intro p pc out h
    refine ⟨hinv.children.extend out, fun w' hw' => ?_⟩
    cases hw'
    exact h
  have hpid : ∀ {pc pid out}, w.pc.pid = some pid → pc.pid = some pid →
      WorkerOk s.children (tr ++ out) ⟨w.attempt, pc⟩ := fun h1 h2 =>
    workerOk_of_pid h2 (hwork.own _ h1)
  cases h with
  | called hpc => exact hmoved (workerOk_of_plain hpc.plain.1 hpc.plain.2)
  | tested hpc =>
    refine hmoved ⟨fun pid h => ?_, fun status h => ?_⟩
    · rcases hpc.keeps.1 with he | he
      · exact hwork.own pid (he ▸ h)
      · cases he.symm.trans h
    · rw [List.append_nil]
      rcases hpc.keeps.2 with he | he
      · exact hwork.status status (he ▸ h)
      · cases he.symm.trans h
  | notForked hpc ho => exact hmoved (workerOk_of_plain rfl rfl)
  | forked pid hpc hpid hnew =>
    refine ⟨(hinv.children.extend _).forked hnew _ _, fun w' hw' => ?_⟩
    cases hw'
    refine workerOk_of_pid rfl fun c hc hpid' => ?_
    rcases List.mem_cons.mp hc with rfl | hc
    · rfl
    · exact absurd hpid' (hnew c hc)
  | stored pid hpc => exact hmoved (hpid (by rw [hpc]; rfl) rfl)
  | took pid hpc hp => exact hmoved (hpid (by rw [hpc]; rfl) rfl)
  | tookNone pid hpc hp => exact hmoved (hpid (by rw [hpc]; rfl) rfl)
  | killed pid toKill hpc => exact hmoved (hpid (by rw [hpc]; rfl) rfl)
  | reaped pid c run hpc ho hc hcpid hrun =>
    refine ⟨(hinv.children.extend _).reaped pid, fun w' hw' => ?_⟩
    cases hw'
    refine workerOk_of_status rfl (Or.inl ⟨run, ?_, rfl⟩)
    rw [← hwork.own pid (by rw [hpc]; rfl) c hc hcpid]
    exact List.mem_append_left _ (hinv.children.ended c hc run hrun)
  | waitFailed pid hpc ho =>
    exact hmoved (workerOk_of_status rfl (Or.inr ⟨by simp [waitpidFailed], rfl⟩))
  | reset status hpc =>
    refine hmoved ?_
    rw [List.append_nil]
    exact workerOk_of_status rfl (hwork.status status (by rw [hpc]; rfl))
  | cleared hpc => exact hmoved (workerOk_of_plain rfl rfl)
  | stopped hpc => exact hmoved (workerOk_of_plain rfl rfl)

theorem statusInv_reach {ok : State → List Item → Input → Prop} {s : State} {tr : List Item}
    (h : machine.ReachIf ok s tr) : StatusInv s tr := by
  refine h.invariant ?_ ?_
  · rintro s ⟨handlers, rfl⟩
    exact ⟨⟨List.nodup_nil, nofun⟩, nofun⟩
  · intro s tr i s' out hinv _ hs
    -- neither the worker nor a child moves
    have hquiet : ∀ {s' : State} {out}, s'.worker = s.worker → s'.children = s.children →
        StatusInv s' (tr ++ out) := by
      intro s' out hw hc
      refine ⟨hc ▸ hinv.children.extend out, fun w hw' => ?_⟩
      rw [hw] at hw'
      exact hc ▸ (hinv.worker w hw').extend out
    cases machine_step hs with
    | verify pass hpc => exact hquiet rfl rfl
    | stop hpc => exact hquiet rfl rfl
    | delete hpc => exact hquiet rfl rfl
    | client ok p w pc out h =>
      refine ⟨hinv.children.extend out, fun w' hw' => ?_⟩
      rcases h.worker with rfl | rfl | rfl
      · exact (hinv.worker w' hw').extend out
      · cases hw'
      · cases hw'
        exact workerOk_of_plain rfl rfl
    | otherStop hpc => exact hquiet rfl rfl
    | stopStep i pc pc' client stops p out hi hr h => exact hquiet rfl rfl
    | worker o w p cs pc out hw h => exact h.statusInv hw hinv
    | childEnds pid run c hc hpid hrun =>
      subst hpid
      refine ⟨hinv.children.childEnds hc run, fun w hw => ?_⟩
      have hwork := (hinv.worker w hw).extend [.childEnded c.attempt run]
      refine ⟨fun pid hpid c' hc' => ?_, hwork.status⟩
      obtain ⟨c0, hc0, rfl⟩ := List.mem_map.mp hc'
      rw [endChild_pid, endChild_attempt]
      exact hwork.own pid hpid c0 hc0

/-! ## `on_finish` -/

/-- The items do not say that `on_finish` is called. -/
def Finishless (out : List Item) : Prop := ∀ n, .handler n .onFinish ∉ out

theorem Finishless.rule {tr out : List Item} (h : FinishSafe tr) (hout : Finishless out) :
    FinishSafe (tr ++ out) :=
  Always.append_of_forall h fun _ hc _ n he => absurd (he ▸ hc) (hout n)

theorem Members.clearCandidate_finishless (p : Members) : Finishless p.clearCandidate.2 := by
  intro n hc
  obtain ⟨bytes, he⟩ := p.clearCandidate_items _ hc
  cases he

theorem StopStep.finishless {p p' : Members} {pc : StopPc} {pc' : Option StopPc}
    {out : List Item} (h : StopStep p pc pc' p' out) : Finishless out := by
  cases h <;> simp [Finishless]

theorem ClientStep.finishless {s : State} {p : Members} {w : Option Worker} {pc : ClientPc}
    {out : List Item} (h : ClientStep s p w pc out) : Finishless out := by
  cases h with
  | failed hpc =>
    intro n hc
    rcases List.mem_append.mp hc with hc | hc
    · exact s.obj.clearCandidate_finishless n hc
    · simp at hc
  | deleteCleared hpc => exact s.obj.clearCandidate_finishless
  | deleted hpc hs => split <;> simp [Finishless]
  | _ => simp [Finishless]

theorem invoke_rule {tr : List Item} {p : Members} {n : Nat} {h : Handler} (hsafe : FinishSafe tr)
    (hf : h = .onFinish → exitedZero n tr = true) : FinishSafe (tr ++ p.invoke n h) := by
  unfold Members.invoke
  split
  · refine always_snoc.mpr ⟨hsafe, fun m he => ?_⟩
    cases he
    exact finishRule_of_exitedZero (hf rfl)
  · simpa using hsafe

/-- An `on_finish` that the worker is about to call is right. -/
structure VerdictInv (s : State) (tr : List Item) : Prop where
  report : ∀ w, s.worker = some w → ∀ status, w.pc = .report status →
    verdict status = .onFinish → exitedZero w.attempt tr = true
  rule : FinishSafe tr

theorem WorkerStep.verdictInv {s : State} {w : Worker} {o : WorkerOutcomes} {p : Members}
    {cs : List Child} {pc : WorkerPc} {out tr : List Item} (h : WorkerStep s w o p cs pc out)
    (hw : s.worker = some w) (hstatus : StatusInv s tr) (hinv : VerdictInv s tr)
    (hok : ∀ status, w.pc = .loadVerdict status → s.obj.isRunning = true →
      waitpidFailed w.attempt tr = true → exitedZero w.attempt tr = true) :
    VerdictInv (s.worked w p cs pc) (tr ++ out) := by
  -- the worker does not come to its verdict
  have hquiet : ∀ {p cs pc out}, (∀ status, pc ≠ .report status) → FinishSafe (tr ++ out) →
      VerdictInv (s.worked w p cs pc) (tr ++ out) := by
    intro p cs pc out hpc hrule
    refine ⟨fun w' hw' status he => ?_, hrule⟩
    cases hw'
    exact absurd he (hpc status)
  have hsilent : ∀ {out}, Finishless out → FinishSafe (tr ++ out) := fun h => h.rule hinv.rule
  cases h with
  | called hpc =>
    refine hquiet (fun status he => ?_) (invoke_rule hinv.rule fun hf => ?_)
    · generalize w.pc = wpc at hpc
      subst he
      cases hpc
    · generalize hwpc : w.pc = wpc at hpc
      cases hpc with
      | report status => exact hinv.report w hw status hwpc hf
      | _ => cases hf
  | tested hpc =>
    refine ⟨fun w' hw' status he hv => ?_, hsilent (by simp [Finishless])⟩
    cases hw'
    rw [List.append_nil]
    generalize hr : s.obj.isRunning = running at hpc
    generalize hwpc : w.pc = wpc at hpc
    cases hpc with
    | verdict status' =>
      cases he
      rcases (hstatus.worker w hw).status status (by rw [hwpc]; rfl) with
        ⟨run, hrun, rfl⟩ | ⟨hf, -⟩
      · exact exitedZero_iff.mpr ⟨run, hrun, (verdict_status run).mp hv⟩
      · exact hok status hwpc hr hf
    | _ => cases he
  | cleared hpc => exact hquiet nofun (hsilent s.obj.clearCandidate_finishless)
  | _ => exact hquiet nofun (hsilent (by simp [Finishless]))

theorem verdictInv_reach {s : State} {tr : List Item} (h : machine.ReachIf Judged s tr) :
    VerdictInv s tr := by
  refine h.invariant_of statusInv_reach ?_ ?_
  · rintro s ⟨handlers, rfl⟩
    exact ⟨nofun, always_nil _⟩
  · intro s tr i s' out hstatus hinv hok hs
    have hquiet : ∀ {s' : State} {out}, Finishless out → s'.worker = s.worker →
        VerdictInv s' (tr ++ out) := by
      intro s' out hout hw
      refine ⟨fun w hw' status hpc hv => ?_, hout.rule hinv.rule⟩
      exact exitedZero_append (hinv.report w (hw ▸ hw') status hpc hv)
    cases machine_step hs with
    | verify pass hpc => exact hquiet (by simp [Finishless]) rfl
    | stop hpc => exact hquiet (by simp [Finishless]) rfl
    | delete hpc => exact hquiet (by simp [Finishless]) rfl
    | client ok p w pc out h =>
      refine ⟨fun w' hw' status hpc hv => ?_, h.finishless.rule hinv.rule⟩
      rcases h.worker with rfl | rfl | rfl
      · exact exitedZero_append (hinv.report w' hw' status hpc hv)
      · cases hw'
      · cases hw'
        cases hpc
    | otherStop hpc => exact hquiet (by simp [Finishless]) rfl
    | stopStep i pc pc' client stops p out hi hr h => exact hquiet h.finishless rfl
    | worker o w p cs pc out hw h =>
      refine h.verdictInv hw hstatus hinv fun status hpc => ?_
      obtain ⟨n, wpc⟩ := w
      obtain rfl : wpc = .loadVerdict status := hpc
      simpa only [Judged, hw] using hok
    | childEnds pid run c hc hpid hrun => exact hquiet (by simp [Finishless]) rfl

/-! ## Every run -/

/-- **`on_finish` means that the attempt's own child succeeded**, in every run where no
failed `waitpid` is judged. -/
theorem finish_safe {s : State} {tr : List Item} (h : machine.ReachIf Judged s tr) :
    FinishSafe tr :=
  (verdictInv_reach h).rule

/-- Every handler is set. -/
def allHandlers : Handlers := ⟨true, true, true, true, true, true⟩

/-- `verify` starts a worker, which forks the child `pid`. -/
def sampleVerify (pass : List UInt8) (pid : Pid) : List Input :=
  [.verify pass, .client true, .client true, .client true, .client true,
    .worker ⟨none, true⟩, .worker ⟨some pid, true⟩, .worker ⟨none, true⟩, .worker ⟨none, true⟩]

/-- The worker goes on from `waitpid` to its end. -/
def sampleVerdict (ok : Bool) : List Input := List.replicate 8 (.worker ⟨none, ok⟩)

/-- The right password. -/
def sampleSuccess : List Input :=
  sampleVerify [115, 101] 7 ++ [Input.childEnds 7 (.pam ⟨0, 0, 0⟩)] ++ sampleVerdict true

theorem successRun_isSome : (machine.exec (start allHandlers) sampleSuccess).isSome = true := by
  decide

def successRun : State × List Item :=
  (machine.exec (start allHandlers) sampleSuccess).get successRun_isSome

theorem successRun_meets : machine.Meets Judged (start allHandlers) [] sampleSuccess := by
  decide

/-- `on_finish` is called there, and its child succeeded. -/
theorem finish_safe_successRun :
    .handler 1 .onFinish ∈ successRun.2 ∧ FinishSafe successRun.2 :=
  ⟨by decide,
    finish_safe (Machine.reachIf_exec (start_init _) successRun_meets successRun_isSome)⟩

/-! ## A `waitpid` that fails -/

/-- A signal interrupts `waitpid` while the child asks for the password. -/
def sampleInterrupted : List Input := sampleVerify [115, 101] 7 ++ sampleVerdict false

theorem interruptedRun_isSome :
    (machine.exec (start allHandlers) sampleInterrupted).isSome = true := by
  decide

def interruptedRun : State × List Item :=
  (machine.exec (start allHandlers) sampleInterrupted).get interruptedRun_isSome

/-- **Not in every run**: `on_finish` is called and no child has ended. -/
theorem finish_unsafe : ¬∀ s tr, machine.Reach s tr → FinishSafe tr := by
  intro h
  have hsafe := h _ _ (Machine.reach_exec (start_init _) interruptedRun_isSome)
  obtain ⟨c, hc, hrule⟩ := hsafe.first (p := (· == .handler 1 .onFinish)) (by decide)
  obtain ⟨run, hrun, -⟩ := hrule 1 (beq_iff_eq.mp hc)
  have hnone : interruptedRun.2.all fun
      | .childEnded _ _ => false
      | _ => true := by decide
  have := List.all_eq_true.mp hnone _ ((List.takeWhile_sublist _).subset hrun)
  cases this

end Auth.Password
