import Kirilock.CoordinatorStep
import Kirilock.FingerprintVerdicts
import Kirilock.PasswordVerdict

/-!
Who is let in.

Both `on_finish` handlers race for `authenticated`, on two threads.  One of them wins
(`Grants.once`), and what it rests on is a match that the device reported, or a line that was
passed to `verify` and whose child exited with 0, or whose `waitpid` failed (`Earned`).  `main`
says so at its end if the winner was there before it looked (`Grants.printed`).
-/

namespace Auth.Password

open Runs

theorem invoke_finishless (p : Members) {n : Nat} {h : Handler} (hh : h ≠ .onFinish) :
    Finishless (p.invoke n h) := by
  intro m hm
  cases p.invoke_items n h _ hm
  exact hh rfl

/-- `on_finish` is called by the worker, for the status that it has. -/
theorem step_finish {s s' : State} {i : Input} {out : List Item}
    (hs : machine.step s i = some (s', out)) {n : Nat} (hm : .handler n .onFinish ∈ out) :
    ∃ status, s.worker = some ⟨n, .report status⟩ ∧ verdict status = .onFinish := by
  cases machine_step hs with
  | verify pass hpc | stop hpc | delete hpc | otherStop hpc | childEnds pid run c hc hpid hrun =>
    simp at hm
  | client ok p w pc out hc => exact absurd hm (hc.finishless n)
  | stopStep i pc pc' client stops p out hi hr hstop => exact absurd hm (hstop.finishless n)
  | worker o w p cs pc out hw hstep =>
    obtain ⟨m, wpc⟩ := w
    cases hstep with
    | called hc =>
      cases hc with
      | report status =>
        have he := s.obj.invoke_items _ _ _ hm
        rw [Item.handler.injEq] at he
        obtain ⟨rfl, hv⟩ := he
        exact ⟨status, hw, hv.symm⟩
      | forkFailed => exact absurd hm (invoke_finishless _ Handler.noConfusion n)
      | _ => exact absurd hm (invoke_finishless _ Handler.noConfusion n)
    | cleared hpc => exact absurd hm (s.obj.clearCandidate_finishless n)
    | _ => simp at hm

end Auth.Password

namespace Auth.Coordinator

open Runs

/-- What lets somebody in by the object. -/
def Earned (tr : List Item) : Obj → Prop
  | .fp => ∃ k done, .emitted k (.status "verify-match" done) ∈ ofFp tr
  | .pw => ∃ n, (∃ pass, .verify n pass ∈ ofPw tr) ∧
      (Password.exitedZero n (ofPw tr) = true ∨ Password.waitpidFailed n (ofPw tr) = true)

def GrantRule (pre : List Item) (c : Item) : Prop := ∀ obj, c = .granted obj → Earned pre obj

def Item.grants : Item → Bool
  | .granted _ => true
  | _ => false

/-- `main` looks whether somebody was let in. -/
def ResultRule (pre : List Item) (c : Item) : Prop :=
  ∀ isAuth, c = .result isAuth → isAuth = pre.any Item.grants

theorem Earned.append {tr : List Item} {obj : Obj} (h : Earned tr obj) (out : List Item) :
    Earned (tr ++ out) obj := by
  cases obj with
  | fp =>
    obtain ⟨k, done, hm⟩ := h
    exact ⟨k, done, by rw [ofFp_append]; exact List.mem_append_left _ hm⟩
  | pw =>
    obtain ⟨n, ⟨pass, hp⟩, he⟩ := h
    refine ⟨n, ⟨pass, ?_⟩, ?_⟩
    · rw [ofPw_append]
      exact List.mem_append_left _ hp
    · rw [ofPw_append]
      exact he.imp Password.exitedZero_append Password.waitpidFailed_append

/-- A match that `fp` reports. -/
theorem earned_fp {s : State} {tr : List Item} (h : machine.Reach s tr) {fp : Fingerprint.State}
    {j : Fingerprint.Input} {items : List Fingerprint.Item}
    (hs : Fingerprint.machine.step s.fp j = some (fp, items)) {k : Option Nat}
    (hm : .handler k .onFinish ∈ items) : Earned tr .fp := by
  obtain ⟨j, done, -, hw⟩ := Fingerprint.step_finish hs hm
  exact ⟨j, done, (Fingerprint.verdictInv_reach (fp_reach h)).current _ _ hw⟩

/-- A success that `pw` reports. -/
theorem earned_pw {s : State} {tr : List Item} (h : machine.Reach s tr) {pw : Password.State}
    {j : Password.Input} {items : List Password.Item}
    (hs : Password.machine.step s.pw j = some (pw, items)) {n : Nat}
    (hm : .handler n .onFinish ∈ items) : Earned tr .pw := by
  obtain ⟨status, hw, hv⟩ := Password.step_finish hs hm
  have hpw := pw_reach h
  obtain ⟨hpass, -⟩ := (Password.numbered_reach hpw).worker _ hw
  refine ⟨n, hpass, ?_⟩
  rcases ((Password.statusInv_reach hpw).worker _ hw).status status rfl with
    ⟨run, hrun, rfl⟩ | ⟨hfailed, -⟩
  · exact Or.inl (Password.exitedZero_iff.mpr ⟨run, hrun, (Password.verdict_status run).mp hv⟩)
  · exact Or.inr hfailed

/-! ## The invariant -/

/-- What `main` returns, from where it has looked. -/
def MainPc.ret : MainPc → Option Int32
  | .deletePw ret => some ret
  | .deletingPw ret => some ret
  | .deleteFp ret => some ret
  | .deletingFp ret => some ret
  | .returned ret => some ret
  | _ => none

def Item.isAuth : Item → Option Bool
  | .result isAuth => some isAuth
  | _ => none

/-- What `main` has printed, by what it returns. -/
def Printed (printed : List Bool) (ret : Option Int32) : Prop :=
  ret = none ∧ printed = [] ∨ ∃ isAuth : Bool, ret = some (if isAuth then 0 else 1) ∧
    printed = [isAuth]

structure GrantInv (s : State) (tr : List Item) : Prop where
  count : tr.countP Item.grants = if s.authenticated then 1 else 0
  racing : ∀ obj, s.handler obj = some .exchange → Earned tr obj
  earned : Always GrantRule tr
  rule : Always ResultRule tr
  printed : Printed (tr.filterMap Item.isAuth) s.main.ret

theorem GrantInv.any {s : State} {tr : List Item} (h : GrantInv s tr) :
    tr.any Item.grants = s.authenticated := by
  have hc := h.count
  rw [Bool.eq_iff_iff, List.any_eq_true, ← List.countP_pos_iff]
  split at hc <;> simp_all

/-- Items that grant nothing and print no result. -/
structure Quiet (out : List Item) : Prop where
  grants : ∀ c ∈ out, c.grants = false
  isAuth : ∀ c ∈ out, c.isAuth = none

theorem quiet_nil : Quiet [] := ⟨List.forall_mem_nil _, List.forall_mem_nil _⟩

theorem quiet_singleton {c : Item} (h1 : c.grants = false) (h2 : c.isAuth = none) : Quiet [c] :=
  ⟨List.forall_mem_singleton.mpr h1, List.forall_mem_singleton.mpr h2⟩

theorem quiet_fp (items : List Fingerprint.Item) : Quiet (items.map .fp) := by
  constructor
  · intro c hc
    obtain ⟨x, -, rfl⟩ := List.mem_map.mp hc
    rfl
  · intro c hc
    obtain ⟨x, -, rfl⟩ := List.mem_map.mp hc
    rfl

theorem quiet_pw (items : List Password.Item) : Quiet (items.map .pw) := by
  constructor
  · intro c hc
    obtain ⟨x, -, rfl⟩ := List.mem_map.mp hc
    rfl
  · intro c hc
    obtain ⟨x, -, rfl⟩ := List.mem_map.mp hc
    rfl

theorem Quiet.cons {c : Item} {out : List Item} (h1 : c.grants = false) (h2 : c.isAuth = none)
    (h : Quiet out) : Quiet (c :: out) :=
  ⟨List.forall_mem_cons.mpr ⟨h1, h.grants⟩, List.forall_mem_cons.mpr ⟨h2, h.isAuth⟩⟩

section Steps

variable {s s' : State} {tr out : List Item}

theorem GrantInv.quiet (h : GrantInv s tr) (hout : Quiet out)
    (ha : s'.authenticated = s.authenticated) (hm : s'.main.ret = s.main.ret)
    (hracing : ∀ obj, s'.handler obj = some .exchange → Earned tr obj) :
    GrantInv s' (tr ++ out) := by
  refine ⟨?_, fun obj hx => (hracing obj hx).append out, ?_, ?_, ?_⟩
  · have hzero : out.countP Item.grants = 0 := by
      rw [List.countP_eq_zero]
      intro c hc
      simp [hout.grants c hc]
    rw [List.countP_append, hzero, Nat.add_zero, ha]
    exact h.count
  · refine h.earned.append_of_forall fun c hc pre obj he => ?_
    have hg := hout.grants c hc
    rw [he] at hg
    cases hg
  · refine h.rule.append_of_forall fun c hc pre b he => ?_
    have hb := hout.isAuth c hc
    rw [he] at hb
    cases hb
  · rw [List.filterMap_append, List.filterMap_eq_nil_iff.mpr hout.isAuth, List.append_nil, hm]
    exact h.printed

/-- The handler of `obj` goes on, and not to its exchange. -/
theorem GrantInv.handled (h : GrantInv s tr) (obj : Obj) {pc : Option HandlerPc}
    (hpc : pc ≠ some .exchange) : ∀ o, (s.setHandler obj pc).handler o = some .exchange →
      Earned tr o := by
  intro o ho
  cases obj <;> cases o <;> first
    | exact absurd ho hpc
    | exact h.racing _ ho

theorem Goes.ret {pc pc' : MainPc} (h : Goes s pc pc') : pc'.ret = pc.ret := by
  cases h <;> rfl

theorem CallsFp.ret {ok : Bool} {pc pc' : MainPc} {j : Fingerprint.Input}
    (h : CallsFp s ok pc j pc') : pc'.ret = pc.ret := by
  cases h <;> rfl

theorem CallsPw.ret {ok : Bool} {pc pc' : MainPc} {j : Password.Input}
    (h : CallsPw s ok pc j pc') : pc'.ret = pc.ret := by
  cases h <;> rfl

theorem Wipes.ret {pc pc' : MainPc} (h : Wipes pc pc') : pc'.ret = pc.ret := by
  cases h <;> rfl

/-- The `on_finish` of `fp` is called for a match. -/
theorem fpCalled_exchange {items : List Fingerprint.Item} (h : fpCalled items = some .exchange) :
    ∃ k, .handler k .onFinish ∈ items := by
  unfold fpCalled at h
  split at h
  · rename_i k g
    cases g with
    | onFinish => exact ⟨k, List.mem_singleton_self _⟩
    | onError e msg => cases e <;> cases h
    | _ => cases h
  · cases h

theorem pwCalled_exchange {items : List Password.Item} (h : pwCalled items = some .exchange) :
    ∃ n, .handler n .onFinish ∈ items := by
  unfold pwCalled at h
  split at h
  · rename_i n g
    cases g with
    | onFinish => exact ⟨n, List.mem_singleton_self _⟩
    | _ => cases h
  · cases h

theorem Step.grantInv {i : Input} (hr : machine.Reach s tr) (hs : Step s i s' out)
    (h : GrantInv s tr) : GrantInv s' (tr ++ out) := by
  cases hs with
  | goes ok pc hg => exact h.quiet quiet_nil rfl hg.ret h.racing
  | wipes ok pc hw =>
    refine h.quiet ?_ rfl hw.ret h.racing
    split
    · exact quiet_nil
    · exact quiet_singleton rfl rfl
  | result ok hpc =>
    have hcount : (tr ++ [Item.result s.authenticated]).countP Item.grants =
        tr.countP Item.grants := by
      rw [List.countP_append]
      rfl
    refine ⟨hcount ▸ h.count, fun obj hx => (h.racing obj hx).append _,
      always_snoc.mpr ⟨h.earned, fun obj he => by cases he⟩,
      always_snoc.mpr ⟨h.rule, fun b he => ?_⟩, ?_⟩
    · cases he
      exact h.any.symm
    · -- it was not printed before
      have hp := h.printed
      rw [hpc] at hp
      rcases hp with ⟨-, hnone⟩ | ⟨b, hb, -⟩
      · refine Or.inr ⟨s.authenticated, rfl, ?_⟩
        rw [List.filterMap_append, hnone]
        rfl
      · cases hb
  | callsFp ok j pc fp items hc hs => exact h.quiet (quiet_fp items) rfl hc.ret h.racing
  | callsPw ok j pc pw items hc hs => exact h.quiet (quiet_pw items) rfl hc.ret h.racing
  | fpInUse | pwInUse => exact h.quiet (quiet_singleton rfl rfl) rfl rfl h.racing
  | noKey hpc => exact h.quiet quiet_nil rfl (by rw [hpc]; rfl) h.racing
  | emptyLine c hpc hc hb =>
    exact h.quiet (quiet_singleton rfl rfl) rfl (by rw [hpc]; rfl) h.racing
  | line c pw items hpc hc hb hs =>
    exact h.quiet (.cons rfl rfl (quiet_pw items)) rfl (by rw [hpc]; rfl) h.racing
  | edited c hpc hc => exact h.quiet (quiet_singleton rfl rfl) rfl (by rw [hpc]; rfl) h.racing
  | interrupt => exact h.quiet quiet_nil rfl rfl h.racing
  | fpWorker o fp items hh hs =>
    refine h.quiet (quiet_fp items) rfl rfl fun obj hx => ?_
    cases obj with
    | fp =>
      obtain ⟨k, hm⟩ := fpCalled_exchange hx
      exact earned_fp hr hs hm
    | pw => exact h.racing .pw hx
  | pwWorker o pw items hh hs =>
    refine h.quiet (quiet_pw items) rfl rfl fun obj hx => ?_
    cases obj with
    | fp => exact h.racing .fp hx
    | pw =>
      obtain ⟨n, hm⟩ := pwCalled_exchange hx
      exact earned_pw hr hs hm
  | returns obj ok pc hh hpc =>
    refine h.quiet quiet_nil ?_ ?_ (h.handled obj (by simp)) <;> cases obj <;> rfl
  | wins obj ok hh ha =>
    have hcount : (tr ++ [Item.granted obj]).countP Item.grants = tr.countP Item.grants + 1 := by
      rw [List.countP_append]
      rfl
    have hprev := h.count
    rw [ha] at hprev
    refine ⟨?_, fun o ho => ?_, always_snoc.mpr ⟨h.earned, fun o he => ?_⟩,
      always_snoc.mpr ⟨h.rule, fun b he => by cases he⟩, ?_⟩
    · rw [hcount, hprev]
      rfl
    · have hpc : some (HandlerPc.call obj.stops) ≠ some .exchange := by simp
      refine (h.handled obj hpc o ?_).append _
      cases obj <;> cases o <;> exact ho
    · cases he
      exact h.racing _ hh
    · rw [List.filterMap_append]
      show Printed (tr.filterMap Item.isAuth ++ []) _
      rw [List.append_nil]
      cases obj <;> exact h.printed
  | stale obj ok o objs hh hgone => exact h.quiet (quiet_singleton rfl rfl) rfl rfl h.racing
  | stopsFp obj ok objs fp items hh hs =>
    refine h.quiet (quiet_fp items) ?_ ?_ fun o ho => ?_
    · cases obj <;> rfl
    · cases obj <;> rfl
    · have hpc : some (HandlerPc.inFp .compareRunning objs) ≠ some .exchange := by simp
      refine h.handled obj hpc o ?_
      cases obj <;> cases o <;> exact ho
  | stopsPw obj ok objs pw items hh hs =>
    refine h.quiet (quiet_pw items) ?_ ?_ fun o ho => ?_
    · cases obj <;> rfl
    · cases obj <;> rfl
    · have hpc : some (HandlerPc.inPw .compare objs) ≠ some .exchange := by simp
      refine h.handled obj hpc o ?_
      cases obj <;> cases o <;> exact ho
  | inFp obj ok pc objs fp items hh hs =>
    refine h.quiet (quiet_fp items) ?_ ?_ fun o ho => ?_
    · cases obj <;> rfl
    · cases obj <;> rfl
    · have hpc : some ((s.fp.obj.stop ok pc).1.elim (HandlerPc.call objs) (.inFp · objs)) ≠
          some .exchange := by
        cases (s.fp.obj.stop ok pc).1 <;> simp
      refine h.handled obj hpc o ?_
      cases obj <;> cases o <;> exact ho
  | inPw obj ok pc objs pw items hh hs =>
    refine h.quiet (quiet_pw items) ?_ ?_ fun o ho => ?_
    · cases obj <;> rfl
    · cases obj <;> rfl
    · have hpc : some ((s.pw.obj.stop pc).1.elim (HandlerPc.call objs) (.inPw · objs)) ≠
          some .exchange := by
        cases (s.pw.obj.stop pc).1 <;> simp
      refine h.handled obj hpc o ?_
      cases obj <;> cases o <;> exact ho
  | emit body fp items hs => exact h.quiet (quiet_fp items) rfl rfl h.racing
  | childEnds pid run pw items hs => exact h.quiet (quiet_pw items) rfl rfl h.racing

end Steps

theorem grantInv_reach {s : State} {tr : List Item} (h : machine.Reach s tr) : GrantInv s tr := by
  refine h.invariant_of (J := machine.Reach) (I := GrantInv) id ?_ ?_
  · rintro s ⟨pipe, device, rfl⟩
    refine ⟨rfl, fun obj hx => ?_, always_nil _, always_nil _, Or.inl ⟨rfl, rfl⟩⟩
    cases obj <;> cases hx
  · intro s tr i s' out hr hinv _ hs
    exact (machine_step hs).grantInv hr hinv

/-- How somebody is let in. -/
structure Grants (s : State) (tr : List Item) : Prop where
  /-- one handler wins … -/
  once : tr.countP Item.grants ≤ 1
  /-- … for what its object found … -/
  earned : Always GrantRule tr
  /-- … `main` says what it finds when it looks … -/
  printed : Always ResultRule tr
  /-- … once, and returns 0 just where it says `ACCESS GRANTED` -/
  status : ∀ ret, s.main = .returned ret → (ret = 0 ∨ ret = 1) ∧
    tr.filterMap Item.isAuth = [decide (ret = 0)]

/-- **`ACCESS GRANTED` is earned**, in every run and however the threads race. -/
theorem coordinator_grants {s : State} {tr : List Item} (h : machine.Reach s tr) :
    Grants s tr := by
  have hinv := grantInv_reach h
  refine ⟨?_, hinv.earned, hinv.rule, fun ret hpc => ?_⟩
  · rw [hinv.count]
    split <;> omega
  · have hp := hinv.printed
    rw [hpc] at hp
    rcases hp with ⟨hnone, -⟩ | ⟨isAuth, hret, hone⟩
    · cases hnone
    · rw [hone]
      cases isAuth with
      | true =>
        cases hret
        exact ⟨Or.inl rfl, rfl⟩
      | false =>
        cases hret
        exact ⟨Or.inr rfl, rfl⟩

/-! ## A run -/

def mainSteps (n : Nat) : List Input := List.replicate n (.main true)

def fpWorks (n : Nat) (process : Fingerprint.ProcessOutcome) : List Input :=
  List.replicate n (.fpWorker ⟨.ok, process⟩)

def pwWorks (n : Nat) (fork : Option Password.Pid) : List Input :=
  List.replicate n (.pwWorker ⟨fork, true⟩)

def handles (obj : Obj) (n : Nat) : List Input := List.replicate n (.handler obj true)

/-- The scanner starts; then a key is pressed, and the line ends. -/
def sampleTyped : List Input :=
  mainSteps 11 ++ [.read (some 115)] ++ mainSteps 3 ++ [.read (some 10)] ++ mainSteps 6

/-- The password was right. -/
def sampleRight : List Input :=
  pwWorks 1 none ++ pwWorks 3 (some 7) ++ [.childEnds 7 (.pam ⟨0, 0, 0⟩)] ++ pwWorks 4 none ++
  handles .pw 9 ++ pwWorks 5 none ++ fpWorks 1 .nothing ++ mainSteps 24

theorem passwordRun_isSome :
    (machine.exec (start true true) (sampleTyped ++ sampleRight)).isSome = true := by
  decide

/-- Somebody types the password. -/
def passwordRun : State × List Item :=
  (machine.exec (start true true) (sampleTyped ++ sampleRight)).get passwordRun_isSome

theorem coordinator_grants_passwordRun :
    passwordRun.1.main = .returned 0 ∧ .granted .pw ∈ passwordRun.2 ∧
      Grants passwordRun.1 passwordRun.2 :=
  ⟨by decide, by decide,
    coordinator_grants (Machine.reach_exec (start_init true true) passwordRun_isSome)⟩

end Auth.Coordinator
