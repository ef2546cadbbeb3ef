import Kirilock.CoordinatorGrant
import Kirilock.PasswordStop

/-!
The handlers as they run.

A worker that runs a handler has not come to its end (`Step.works`), and what is left of the
calls of `stop` on an object are those that a handler is in (`Step.fpStops`, `Step.pwStops`).
A handler of `fp` that stops `pw` has won the exchange (`Step.won`).
-/

namespace Auth

/-- One element is replaced, or goes. -/
theorem count_replace {α : Type} [DecidableEq α] {l : List α} {a : α} (h : l.idxOf a < l.length)
    (l' : List α) (p : α) :
    (l.take (l.idxOf a) ++ l' ++ l.drop (l.idxOf a + 1)).count p + [a].count p =
      l.count p + l'.count p := by
  have hsplit : l.count p = (l.take (l.idxOf a) ++ ([a] ++ l.drop (l.idxOf a + 1))).count p := by
    have ha : l[l.idxOf a] = a := List.getElem_idxOf h
    have hdrop : [a] ++ l.drop (l.idxOf a + 1) = l.drop (l.idxOf a) := by
      rw [← List.getElem_cons_drop h, ha]
      rfl
    rw [hdrop, List.take_append_drop]
  rw [hsplit]
  simp only [List.count_append]
  omega

end Auth

namespace Auth.Fingerprint

open Runs

/-- The worker has not come to its end. -/
def Works (s : State) : Prop := ∃ pc, s.worker = some pc ∧ pc ≠ .exited

theorem Works.step {s s' : State} {i : Input} {out : List Item} (h : Works s)
    (hs : machine.step s i = some (s', out)) (hi : ∀ o, i ≠ .worker o) : Works s' := by
  obtain ⟨pc, hw, hne⟩ := h
  cases machine_step hs with
  | client ok p w pc' out hc =>
    cases hc with
    | joined hpc ho hex => exact absurd (Option.some.inj (hw.symm.trans hex)) hne
    | deleteJoined hpc hex => exact absurd (Option.some.inj (hw.symm.trans hex)) hne
    | created hpc => exact ⟨.loadRunning, rfl, WorkerPc.noConfusion⟩
    | _ => exact ⟨pc, hw, hne⟩
  | worker o => exact absurd rfl (hi o)
  | _ => exact ⟨pc, hw, hne⟩

/-- A worker that has called a handler goes on after that. -/
theorem step_works {s s' : State} {o : WorkerOutcomes} {out : List Item} {k : Option Nat}
    {h : Handler} (hs : machine.step s (.worker o) = some (s', out)) (hm : .handler k h ∈ out) :
    Works s' := by
  cases machine_step hs with
  | stopStep i ok pc pc' client stops p out hi hr hstop => cases hi
  | worker o pc p queue pc' out hw hstep =>
    refine ⟨pc', rfl, ?_⟩
    cases hstep with
    | goes hg => cases hm
    | called hpc =>
      cases hpc with
      | verdict k result done => cases done <;> simp
      | _ => exact WorkerPc.noConfusion
    | _ => exact WorkerPc.noConfusion

theorem runClient_stops {s s' : State} {ok : Bool} {out : List Item}
    (h : s.runClient ok = some (s', out)) : s'.stops = s.stops := by
  simp only [State.runClient, State.clientAt, State.setObj] at h
  repeat' split at h
  all_goals first
    | (cases h; rfl)
    | cases h

/-- Only the other calls of `stop` change what is left of them. -/
theorem step_stops {s s' : State} {i : Input} {out : List Item}
    (hs : machine.step s i = some (s', out)) (hi : i ≠ .otherStop) (hi' : ∀ n ok, i ≠ .other n ok) :
    s'.stops = s.stops := by
  cases i with
  | start | stop | delete =>
    simp only [machine, State.step, State.clientAt] at hs
    split at hs
    · cases hs
      rfl
    · cases hs
  | client ok => exact runClient_stops hs
  | otherStop => exact absurd rfl hi
  | other n ok => exact absurd rfl (hi' n ok)
  | worker o =>
    cases machine_step hs with
    | stopStep i ok pc pc' client stops p out hi hr hstop => cases hi
    | worker o pc p queue pc' out hw hstep => rfl
  | emit body =>
    cases hs
    rfl

theorem otherStop_count {s s' : State} {out : List Item}
    (hs : machine.step s .otherStop = some (s', out)) (p : StopPc) :
    s'.stops.count p = s.stops.count p + [StopPc.compareRunning].count p := by
  simp only [machine, State.step] at hs
  split at hs
  · cases hs
  · cases hs
    rw [List.count_cons, List.count_singleton]

theorem other_count {s s' : State} {pc : StopPc} {ok : Bool} {out : List Item}
    (hs : machine.step s (.other (s.stops.idxOf pc) ok) = some (s', out)) (p : StopPc) :
    s'.stops.count p + [pc].count p =
      s.stops.count p + (s.obj.stop ok pc).1.toList.count p := by
  simp only [machine, State.step] at hs
  split at hs
  · cases hs
  · rename_i pc' hat
    obtain ⟨hlt, hpc⟩ := List.getElem?_eq_some_iff.mp hat
    rw [List.getElem_idxOf] at hpc
    subst hpc
    cases hs
    exact count_replace hlt _ p

end Auth.Fingerprint

namespace Auth.Password

open Runs

/-- The worker has not come to its end. -/
def Works (s : State) : Prop := ∃ w, s.worker = some w ∧ w.pc ≠ .exited

theorem Works.step {s s' : State} {i : Input} {out : List Item} (h : Works s)
    (hs : machine.step s i = some (s', out)) (hi : ∀ o, i ≠ .worker o) : Works s' := by
  obtain ⟨w, hw, hne⟩ := h
  cases machine_step hs with
  | client ok p w' pc out hc =>
    cases hc with
    | joined pass hpc hex => exact absurd (hex w hw) hne
    | deleteJoined hpc hex => exact absurd (hex w hw) hne
    | created hpc => exact ⟨_, rfl, WorkerPc.noConfusion⟩
    | _ => exact ⟨w, hw, hne⟩
  | worker o => exact absurd rfl (hi o)
  | _ => exact ⟨w, hw, hne⟩

/-- A worker that has called a handler goes on after that. -/
theorem step_works {s s' : State} {o : WorkerOutcomes} {out : List Item} {n : Nat} {h : Handler}
    (hs : machine.step s (.worker o) = some (s', out)) (hm : .handler n h ∈ out) : Works s' := by
  cases machine_step hs with
  | stopStep i pc pc' client stops p out hi hr hstop => cases hi
  | worker o w p cs pc out hw hstep =>
    refine ⟨_, rfl, ?_⟩
    cases hstep with
    | called hpc =>
      generalize w.pc = wpc at hpc
      cases hpc <;> exact WorkerPc.noConfusion
    | stopped hpc => cases hm
    | tested hpc => cases hm
    | _ => exact WorkerPc.noConfusion

theorem step_stops {s s' : State} {i : Input} {out : List Item}
    (hs : machine.step s i = some (s', out)) (hi : i ≠ .otherStop) (hi' : ∀ n, i ≠ .other n) :
    s'.stops = s.stops := by
  cases i with
  | verify | stop | delete =>
    simp only [machine, State.step, State.clientAt] at hs
    split at hs
    · cases hs
      rfl
    · cases hs
  | client ok => exact runClient_stops hs
  | otherStop => exact absurd rfl hi
  | other n => exact absurd rfl (hi' n)
  | worker o =>
    cases machine_step hs with
    | stopStep i pc pc' client stops p out hi hr hstop => cases hi
    | worker o w p cs pc out hw hstep => rfl
  | childEnds pid run =>
    cases machine_step hs with
    | stopStep i pc pc' client stops p out hi hr hstop => cases hi
    | childEnds => rfl

theorem otherStop_count {s s' : State} {out : List Item}
    (hs : machine.step s .otherStop = some (s', out)) (p : StopPc) :
    s'.stops.count p = s.stops.count p + [StopPc.compare].count p := by
  simp only [machine, State.step] at hs
  split at hs
  · cases hs
  · cases hs
    rw [List.count_cons, List.count_singleton]

theorem other_count {s s' : State} {pc : StopPc} {out : List Item}
    (hs : machine.step s (.other (s.stops.idxOf pc)) = some (s', out)) (p : StopPc) :
    s'.stops.count p + [pc].count p = s.stops.count p + (s.obj.stop pc).1.toList.count p := by
  obtain ⟨pc', hat, -, hstops⟩ := other_stops hs
  obtain ⟨hlt, hpc⟩ := List.getElem?_eq_some_iff.mp hat
  rw [List.getElem_idxOf] at hpc
  subst hpc
  rw [hstops]
  exact count_replace hlt _ p

end Auth.Password

namespace Auth.Coordinator

open Runs

/-! ## The workers that run a handler -/

def State.works (s : State) : Obj → Prop
  | .fp => Fingerprint.Works s.fp
  | .pw => Password.Works s.pw

theorem fpCalled_some {items : List Fingerprint.Item} {pc : HandlerPc}
    (h : fpCalled items = some pc) :
    (∃ k g, .handler k g ∈ items) ∧ (pc = .exchange ∨ pc = .call [.fp]) := by
  unfold fpCalled at h
  split at h
  · rename_i k g
    refine ⟨⟨k, g, List.mem_singleton_self _⟩, ?_⟩
    cases g with
    | onFinish =>
      cases h
      exact Or.inl rfl
    | onError e msg =>
      cases e with
      | notFound =>
        cases h
        exact Or.inr rfl
      | _ => cases h
    | _ => cases h
  · cases h

theorem pwCalled_some {items : List Password.Item} {pc : HandlerPc}
    (h : pwCalled items = some pc) : (∃ n g, .handler n g ∈ items) ∧ pc = .exchange := by
  unfold pwCalled at h
  split at h
  · rename_i n g
    refine ⟨⟨n, g, List.mem_singleton_self _⟩, ?_⟩
    cases g with
    | onFinish =>
      cases h
      rfl
    | _ => cases h
  · cases h

theorem CallsFp.client {s : State} {ok : Bool} {pc pc' : MainPc} {j : Fingerprint.Input}
    (h : CallsFp s ok pc j pc') :
    (∀ o, j ≠ .worker o) ∧ j ≠ .otherStop ∧ ∀ n ok, j ≠ .other n ok := by
  cases h <;> simp

theorem CallsPw.client {s : State} {ok : Bool} {pc pc' : MainPc} {j : Password.Input}
    (h : CallsPw s ok pc j pc') :
    (∀ o, j ≠ .worker o) ∧ j ≠ .otherStop ∧ ∀ n, j ≠ .other n := by
  cases h <;> simp

theorem DrivesFp.ne_worker {i : Input} {j : Fingerprint.Input} (h : DrivesFp i j)
    (hi : ∀ o, i ≠ .fpWorker o) : ∀ o, j ≠ .worker o := by
  cases i with
  | main ok =>
    obtain ⟨s, pc, pc', hc⟩ := h
    exact hc.client.1
  | fpWorker o => exact absurd rfl (hi o)
  | handler obj ok => rcases h with rfl | ⟨n, rfl⟩ <;> simp
  | emit body =>
    cases h
    simp
  | read | interrupt | pwWorker | childEnds => cases h

theorem DrivesPw.ne_worker {i : Input} {j : Password.Input} (h : DrivesPw i j)
    (hi : ∀ o, i ≠ .pwWorker o) : ∀ o, j ≠ .worker o := by
  cases i with
  | main ok =>
    obtain ⟨s, pc, pc', hc⟩ := h
    exact hc.client.1
  | read c =>
    obtain ⟨pass, rfl⟩ := h
    simp
  | pwWorker o => exact absurd rfl (hi o)
  | handler obj ok => rcases h with rfl | ⟨n, rfl⟩ <;> simp
  | childEnds pid run =>
    cases h
    simp
  | interrupt | fpWorker | emit => cases h

section Steps

variable {s s' : State} {i : Input} {tr out : List Item}

theorem handler_of_setHandler {obj : Obj} {pc : HandlerPc} {h : Option HandlerPc}
    (hh : s.handler obj = some pc) (o : Obj) (hn : (s.setHandler obj h).handler o ≠ none) :
    s.handler o ≠ none := by
  cases obj <;> cases o <;> first
    | exact hn
    | exact Option.ne_none_iff_exists'.mpr ⟨pc, hh⟩

/-- Only its worker calls a handler of an object. -/
theorem Step.handler_kept (hs : Step s i s' out) (o : Obj)
    (hi : match o with
      | .fp => ∀ w, i ≠ .fpWorker w
      | .pw => ∀ w, i ≠ .pwWorker w)
    (hn : s'.handler o ≠ none) : s.handler o ≠ none := by
  cases hs with
  | fpWorker w fp items hh hs =>
    cases o with
    | fp => exact absurd rfl (hi w)
    | pw => exact hn
  | pwWorker w pw items hh hs =>
    cases o with
    | fp => exact hn
    | pw => exact absurd rfl (hi w)
  | returns obj ok pc hh hr => exact handler_of_setHandler hh o hn
  | wins obj ok hh ha => exact handler_of_setHandler hh o (by cases o <;> exact hn)
  | stopsFp obj ok objs fp items hh hs =>
    exact handler_of_setHandler hh o (by cases o <;> exact hn)
  | stopsPw obj ok objs pw items hh hs =>
    exact handler_of_setHandler hh o (by cases o <;> exact hn)
  | inFp obj ok pc objs fp items hh hs =>
    exact handler_of_setHandler hh o (by cases o <;> exact hn)
  | inPw obj ok pc objs pw items hh hs =>
    exact handler_of_setHandler hh o (by cases o <;> exact hn)
  | _ => cases o <;> exact hn

theorem Step.works (hs : Step s i s' out) (h : ∀ o, s.handler o ≠ none → s.works o) :
    ∀ o, s'.handler o ≠ none → s'.works o := by
  intro o hn
  cases o with
  | fp =>
    by_cases hi : ∀ w, i ≠ .fpWorker w
    · have hold := h .fp (hs.handler_kept .fp hi hn)
      rcases hs.fp with ⟨he, -⟩ | ⟨j, hd, hj⟩
      · exact (congrArg Fingerprint.Works he).mpr hold
      · exact hold.step hj (hd.ne_worker hi)
    · push Not at hi
      obtain ⟨w, rfl⟩ := hi
      cases hs with
      | fpWorker w fp items hh hs =>
        obtain ⟨pc, hc⟩ := Option.ne_none_iff_exists'.mp hn
        obtain ⟨⟨k, g, hm⟩, -⟩ := fpCalled_some hc
        exact Fingerprint.step_works hs hm
  | pw =>
    by_cases hi : ∀ w, i ≠ .pwWorker w
    · have hold := h .pw (hs.handler_kept .pw hi hn)
      rcases hs.pw with ⟨he, -⟩ | ⟨j, hd, hj⟩
      · exact (congrArg Password.Works he).mpr hold
      · exact hold.step hj (hd.ne_worker hi)
    · push Not at hi
      obtain ⟨w, rfl⟩ := hi
      cases hs with
      | pwWorker w pw items hh hs =>
        obtain ⟨pc, hc⟩ := Option.ne_none_iff_exists'.mp hn
        obtain ⟨⟨n, g, hm⟩, -⟩ := pwCalled_some hc
        exact Password.step_works hs hm

/-! ## The calls of `stop` -/

/-- The calls of `stop` on `fp` at a place that a handler is in. -/
def fpUses (p : Fingerprint.StopPc) : Option HandlerPc → Nat
  | some (.inFp pc _) => [pc].count p
  | _ => 0

def pwUses (p : Password.StopPc) : Option HandlerPc → Nat
  | some (.inPw pc _) => [pc].count p
  | _ => 0

def State.fpUses (s : State) (p : Fingerprint.StopPc) : Nat :=
  Coordinator.fpUses p s.fpHandler + Coordinator.fpUses p s.pwHandler

def State.pwUses (s : State) (p : Password.StopPc) : Nat :=
  Coordinator.pwUses p s.fpHandler + Coordinator.pwUses p s.pwHandler

theorem State.setHandler_fpUses {obj : Obj} {pc : HandlerPc} (hh : s.handler obj = some pc)
    (h : Option HandlerPc) (p : Fingerprint.StopPc) :
    (s.setHandler obj h).fpUses p + Coordinator.fpUses p (some pc) =
      s.fpUses p + Coordinator.fpUses p h := by
  rw [← hh]
  cases obj <;> simp only [State.fpUses, State.setHandler, State.handler] <;> omega

theorem State.setHandler_pwUses {obj : Obj} {pc : HandlerPc} (hh : s.handler obj = some pc)
    (h : Option HandlerPc) (p : Password.StopPc) :
    (s.setHandler obj h).pwUses p + Coordinator.pwUses p (some pc) =
      s.pwUses p + Coordinator.pwUses p h := by
  rw [← hh]
  cases obj <;> simp only [State.pwUses, State.setHandler, State.handler] <;> omega

/-- A handler that is in `stop` of `fp` goes on. -/
theorem uses_inFp (pc : Option Fingerprint.StopPc) (objs : List Obj) :
    (∀ p, fpUses p (some (pc.elim (.call objs) (.inFp · objs))) = pc.toList.count p) ∧
      ∀ p, pwUses p (some (pc.elim (.call objs) (.inFp · objs))) = 0 := by
  cases pc <;> exact ⟨fun _ => rfl, fun _ => rfl⟩

theorem uses_inPw (pc : Option Password.StopPc) (objs : List Obj) :
    (∀ p, fpUses p (some (pc.elim (.call objs) (.inPw · objs))) = 0) ∧
      ∀ p, pwUses p (some (pc.elim (.call objs) (.inPw · objs))) = pc.toList.count p := by
  cases pc <;> exact ⟨fun _ => rfl, fun _ => rfl⟩

theorem fpCalled_uses (items : List Fingerprint.Item) :
    (∀ p, fpUses p (fpCalled items) = 0) ∧ ∀ p, pwUses p (fpCalled items) = 0 := by
  cases hc : fpCalled items with
  | none => exact ⟨fun _ => rfl, fun _ => rfl⟩
  | some pc => rcases (fpCalled_some hc).2 with rfl | rfl <;> exact ⟨fun _ => rfl, fun _ => rfl⟩

theorem pwCalled_uses (items : List Password.Item) :
    (∀ p, fpUses p (pwCalled items) = 0) ∧ ∀ p, pwUses p (pwCalled items) = 0 := by
  cases hc : pwCalled items with
  | none => exact ⟨fun _ => rfl, fun _ => rfl⟩
  | some pc =>
    cases (pwCalled_some hc).2
    exact ⟨fun _ => rfl, fun _ => rfl⟩

theorem Step.fpStops (hs : Step s i s' out) (h : ∀ p, s.fp.stops.count p = s.fpUses p) :
    ∀ p, s'.fp.stops.count p = s'.fpUses p := by
  intro p
  have h := h p
  cases hs with
  | callsFp ok j pc fp items hc hs =>
    show fp.stops.count p = s.fpUses p
    rw [Fingerprint.step_stops hs hc.client.2.1 hc.client.2.2, h]
  | fpWorker o fp items hh hs =>
    have hstops := Fingerprint.step_stops hs Fingerprint.Input.noConfusion
      fun _ _ => Fingerprint.Input.noConfusion
    show fp.stops.count p = fpUses p (fpCalled items) + fpUses p s.pwHandler
    rw [hstops, h, State.fpUses, hh, (fpCalled_uses items).1 p]
    rfl
  | pwWorker o pw items hh hs =>
    show s.fp.stops.count p = fpUses p s.fpHandler + fpUses p (pwCalled items)
    rw [h, State.fpUses, hh, (pwCalled_uses items).1 p]
    rfl
  | returns obj ok pc hh hr =>
    have huses := State.setHandler_fpUses hh none p
    rw [State.setHandler_fp, h]
    rcases hr with ⟨rfl, -⟩ | rfl <;> exact huses.symm
  | wins obj ok hh ha =>
    show (s.setHandler obj _).fp.stops.count p = (s.setHandler obj _).fpUses p
    rw [State.setHandler_fp, h]
    exact (State.setHandler_fpUses hh (some (.call obj.stops)) p).symm
  | stopsFp obj ok objs fp items hh hs =>
    show fp.stops.count p = (s.setHandler obj _).fpUses p
    rw [Fingerprint.otherStop_count hs p, h]
    exact (State.setHandler_fpUses hh (some (.inFp .compareRunning objs)) p).symm
  | stopsPw obj ok objs pw items hh hs =>
    show (s.setHandler obj _).fp.stops.count p = (s.setHandler obj _).fpUses p
    rw [State.setHandler_fp, h]
    exact (State.setHandler_fpUses hh (some (.inPw .compare objs)) p).symm
  | inFp obj ok pc objs fp items hh hs =>
    have hcount := Fingerprint.other_count hs p
    rw [h, ← (uses_inFp (s.fp.obj.stop ok pc).1 objs).1 p] at hcount
    exact Nat.add_right_cancel (hcount.trans (State.setHandler_fpUses hh _ p).symm)
  | inPw obj ok pc objs pw items hh hs =>
    have huses := State.setHandler_fpUses hh
      (some ((s.pw.obj.stop pc).1.elim (.call objs) (.inPw · objs))) p
    rw [(uses_inPw (s.pw.obj.stop pc).1 objs).1 p] at huses
    show (s.setHandler obj _).fp.stops.count p = (s.setHandler obj _).fpUses p
    rw [State.setHandler_fp, h]
    exact huses.symm
  | emit body fp items hs =>
    show fp.stops.count p = s.fpUses p
    rw [Fingerprint.step_stops hs Fingerprint.Input.noConfusion
      fun _ _ => Fingerprint.Input.noConfusion, h]
  | _ => exact h

theorem Step.pwStops (hs : Step s i s' out) (h : ∀ p, s.pw.stops.count p = s.pwUses p) :
    ∀ p, s'.pw.stops.count p = s'.pwUses p := by
  intro p
  have h := h p
  cases hs with
  | callsPw ok j pc pw items hc hs =>
    show pw.stops.count p = s.pwUses p
    rw [Password.step_stops hs hc.client.2.1 hc.client.2.2, h]
  | line c pw items hpc hc hb hs =>
    show pw.stops.count p = s.pwUses p
    rw [Password.step_stops hs Password.Input.noConfusion fun _ => Password.Input.noConfusion, h]
  | pwWorker o pw items hh hs =>
    have hstops := Password.step_stops hs Password.Input.noConfusion
      fun _ => Password.Input.noConfusion
    show pw.stops.count p = pwUses p s.fpHandler + pwUses p (pwCalled items)
    rw [hstops, h, State.pwUses, hh, (pwCalled_uses items).2 p]
    rfl
  | fpWorker o fp items hh hs =>
    show s.pw.stops.count p = pwUses p (fpCalled items) + pwUses p s.pwHandler
    rw [h, State.pwUses, hh, (fpCalled_uses items).2 p]
    rfl
  | returns obj ok pc hh hr =>
    have huses := State.setHandler_pwUses hh none p
    rw [State.setHandler_pw, h]
    rcases hr with ⟨rfl, -⟩ | rfl <;> exact huses.symm
  | wins obj ok hh ha =>
    show (s.setHandler obj _).pw.stops.count p = (s.setHandler obj _).pwUses p
    rw [State.setHandler_pw, h]
    exact (State.setHandler_pwUses hh (some (.call obj.stops)) p).symm
  | stopsPw obj ok objs pw items hh hs =>
    show pw.stops.count p = (s.setHandler obj _).pwUses p
    rw [Password.otherStop_count hs p, h]
    exact (State.setHandler_pwUses hh (some (.inPw .compare objs)) p).symm
  | stopsFp obj ok objs fp items hh hs =>
    show (s.setHandler obj _).pw.stops.count p = (s.setHandler obj _).pwUses p
    rw [State.setHandler_pw, h]
    exact (State.setHandler_pwUses hh (some (.inFp .compareRunning objs)) p).symm
  | inPw obj ok pc objs pw items hh hs =>
    have hcount := Password.other_count hs p
    rw [h, ← (uses_inPw (s.pw.obj.stop pc).1 objs).2 p] at hcount
    exact Nat.add_right_cancel (hcount.trans (State.setHandler_pwUses hh _ p).symm)
  | inFp obj ok pc objs fp items hh hs =>
    have huses := State.setHandler_pwUses hh
      (some ((s.fp.obj.stop ok pc).1.elim (.call objs) (.inFp · objs))) p
    rw [(uses_inFp (s.fp.obj.stop ok pc).1 objs).2 p] at huses
    show (s.setHandler obj _).pw.stops.count p = (s.setHandler obj _).pwUses p
    rw [State.setHandler_pw, h]
    exact huses.symm
  | childEnds pid run pw items hs =>
    show pw.stops.count p = s.pwUses p
    rw [Password.step_stops hs Password.Input.noConfusion fun _ => Password.Input.noConfusion, h]
  | _ => exact h

/-- What the handlers do. -/
structure HandlerInv (s : State) : Prop where
  works : ∀ o, s.handler o ≠ none → s.works o
  fpStops : ∀ p, s.fp.stops.count p = s.fpUses p
  pwStops : ∀ p, s.pw.stops.count p = s.pwUses p

/-! ## Who stops `pw` -/

/-- The handler is in `stop` of `pw`, or will call it. -/
def HandlerPc.stopsPw : HandlerPc → Bool
  | .exchange => false
  | .call objs => objs.contains .pw
  | .inFp _ objs => objs.contains .pw
  | .inPw _ _ => true

/-- The handler of `fp` stops `pw` if it has won. -/
def Won (s : State) (tr : List Item) : Prop :=
  ∀ h, s.fpHandler = some h → h.stopsPw = true → .granted .fp ∈ tr

theorem Won.append (h : Won s tr) (out : List Item) : Won s (tr ++ out) :=
  fun pc hh hp => List.mem_append_left _ (h pc hh hp)

theorem Won.handled (h : Won s tr) {obj : Obj} {pc pc' : HandlerPc}
    (hh : s.handler obj = some pc) (himp : pc'.stopsPw = true → pc.stopsPw = true) :
    Won (s.setHandler obj (some pc')) tr := by
  intro x hx hp
  cases obj with
  | fp =>
    cases hx
    exact h pc hh (himp hp)
  | pw => exact h x hx hp

theorem Step.won (hs : Step s i s' out) (h : Won s tr) : Won s' (tr ++ out) := by
  cases hs with
  | fpWorker o fp items hh hs =>
    intro pc hc hp
    rcases (fpCalled_some hc).2 with rfl | rfl <;> cases hp
  | returns obj ok pc hh hr =>
    intro x hx hp
    cases obj with
    | fp => cases hx
    | pw => exact List.mem_append_left _ (h x hx hp)
  | wins obj ok hh ha =>
    intro x hx hp
    cases obj with
    | fp => exact List.mem_append_right _ (List.mem_singleton_self _)
    | pw => exact List.mem_append_left _ (h x hx hp)
  | stopsFp obj ok objs fp items hh hs =>
    refine (h.handled hh fun hp => ?_).append _
    simpa [HandlerPc.stopsPw] using hp
  | stopsPw obj ok objs pw items hh hs => exact (h.handled hh fun _ => rfl).append _
  | inFp obj ok pc objs fp items hh hs =>
    refine Won.append (s := s.setHandler obj _) (h.handled hh fun hp => ?_) _
    cases hpc : (s.fp.obj.stop ok pc).1 <;> rw [hpc] at hp <;> exact hp
  | inPw obj ok pc objs pw items hh hs => exact (h.handled hh fun _ => rfl).append _
  | _ => exact h.append _

end Steps

end Auth.Coordinator
