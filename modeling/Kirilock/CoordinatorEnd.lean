import Kirilock.CoordinatorHandlers
import Kirilock.CoordinatorLine
import Kirilock.FingerprintEnd
import Kirilock.FingerprintScan
import Kirilock.PasswordWipe

/-!
When the objects go.

`main` destroys `pw` and then `fp`, and with each it joins the worker of that one.  The handler
of `pw` stops `fp` on a worker that is joined before `fp` goes.  But the handler of `fp` stops
`pw` on the worker of `fp`, and nobody has joined that when `pw` goes: this is the only way in
which an object is used too late (`Ends.misused`).
-/

namespace Auth.Fingerprint

open Runs

theorem deleting_step {s s' : State} {i : Input} {out : List Item}
    (hs : machine.step s i = some (s', out)) (hi : i ≠ .delete)
    (h : s'.client.deleting = true) : s.client.deleting = true := by
  cases machine_step hs with
  | start hpc | stop hpc => cases h
  | delete hpc => exact absurd rfl hi
  | client ok p w pc out hc =>
    cases hc with
    | called pc hpc hp => rcases hp with rfl | rfl <;> cases h
    | deleteUnjoinable hpc | deleteJoined hpc | released hpc | closed hpc | deleted hpc =>
      rw [hpc]
      rfl
    | _ => cases h
  | stopStep i ok pc pc' client stops p out hi' hr hstop =>
    cases hr with
    | client hpc => cases pc' <;> cases h
    | delete hpc =>
      rw [hpc]
      rfl
    | other l1 l2 hs => exact h
  | _ => exact h

theorem deleted_step {s s' : State} {i : Input} {out : List Item}
    (hs : machine.step s i = some (s', out)) (h : s.client = .deleted) :
    s'.client = .deleted := by
  have hclient : ∀ ok, i ≠ .client ok := by
    rintro ok rfl
    have hnone : machine.step s (.client ok) = none := by
      simp only [machine, State.step, State.runClient, h]
    cases hnone.symm.trans hs
  cases machine_step hs with
  | start hpc | stop hpc | delete hpc => cases h.symm.trans hpc
  | client ok => exact absurd rfl (hclient ok)
  | stopStep i ok pc pc' client stops p out hi hr hstop =>
    cases hr with
    | client hpc | delete hpc => cases h.symm.trans hpc
    | other l1 l2 hs => exact h
  | _ => exact h

end Auth.Fingerprint

namespace Auth.Password

open Runs

theorem deleted_step {s s' : State} {i : Input} {out : List Item}
    (hs : machine.step s i = some (s', out)) (h : s.client = .deleted) :
    s'.client = .deleted := by
  have hclient : ∀ ok, i ≠ .client ok := by
    rintro ok rfl
    have hnone : machine.step s (.client ok) = none := by
      simp only [machine, State.step, State.runClient, h]
    cases hnone.symm.trans hs
  cases machine_step hs with
  | verify pass hpc | stop hpc | delete hpc => cases h.symm.trans hpc
  | client ok => exact absurd rfl (hclient ok)
  | stopStep i pc pc' client stops p out hi hr hstop =>
    cases hr with
    | client hpc | delete hpc => cases h.symm.trans hpc
    | other l1 l2 hs => exact h
  | _ => exact h

end Auth.Password

namespace Auth.Coordinator

open Runs

section Steps

variable {s s' : State} {i : Input} {tr out : List Item}

/-! ## The end of `main` -/

def MainPc.deletesFp : MainPc → Bool
  | .deletingFp _ => true
  | .returned _ => true
  | _ => false

def MainPc.pwGone : MainPc → Bool
  | .deleteFp _ => true
  | .deletingFp _ => true
  | .returned _ => true
  | _ => false

/-- `pw` goes, and then `fp`. -/
structure PhaseInv (s : State) : Prop where
  deleting : s.fp.client.deleting = true → s.main.deletesFp = true
  pw : s.main.pwGone = true → s.pw.client = .deleted
  fp : ∀ ret, s.main = .returned ret → s.fp.client = .deleted

theorem Step.deleted (hs : Step s i s' out) :
    (s.fp.client = .deleted → s'.fp.client = .deleted) ∧
      (s.pw.client = .deleted → s'.pw.client = .deleted) := by
  constructor
  · intro h
    rcases hs.fp with ⟨he, -⟩ | ⟨j, -, hj⟩
    · rw [he]
      exact h
    · exact Fingerprint.deleted_step hj h
  · intro h
    rcases hs.pw with ⟨he, -⟩ | ⟨j, -, hj⟩
    · rw [he]
      exact h
    · exact Password.deleted_step hj h

/-- `main` goes on, before its end. -/
theorem PhaseInv.before (h : PhaseInv s) (hfp : s'.fp = s.fp)
    (hold : s.main.deletesFp = true → s'.main.deletesFp = true)
    (hpw : s'.main.pwGone = false) : PhaseInv s' := by
  refine ⟨fun hd => hold (h.deleting (hfp ▸ hd)), fun hp => ?_, fun ret he => ?_⟩
  · rw [hpw] at hp
    cases hp
  · rw [he] at hpw
    cases hpw

/-- The step is not one of `main`. -/
theorem PhaseInv.aside (h : PhaseInv s) (hs : Step s i s' out) (hm : s'.main = s.main)
    (hd : s'.fp.client.deleting = true → s.fp.client.deleting = true) : PhaseInv s' :=
  ⟨fun hdel => hm ▸ h.deleting (hd hdel), fun hp => hs.deleted.2 (h.pw (hm ▸ hp)),
    fun ret he => hs.deleted.1 (h.fp ret (hm ▸ he))⟩

theorem Goes.phases {pc pc' : MainPc} (h : Goes s pc pc') :
    (pc.deletesFp = true → pc'.deletesFp = true) ∧
      (pc'.pwGone = true → pc.pwGone = true ∨ s.pw.client = .deleted) ∧
      ∀ ret, pc' = .returned ret → s.fp.client = .deleted := by
  cases h with
  | deletedPw ret hc => exact ⟨id, fun _ => Or.inr hc, fun ret he => by cases he⟩
  | deletedFp ret hc => exact ⟨id, fun _ => Or.inl rfl, fun _ _ => hc⟩
  | _ => exact ⟨id, Or.inl, fun ret he => by cases he⟩

theorem CallsFp.phases {ok : Bool} {pc pc' : MainPc} {j : Fingerprint.Input}
    (h : CallsFp s ok pc j pc') :
    (pc'.deletesFp = true ∨ j ≠ .delete ∧ (pc.deletesFp = true → pc'.deletesFp = true)) ∧
      pc'.pwGone = pc.pwGone ∧ ∀ ret, pc' ≠ .returned ret := by
  cases h <;> simp [MainPc.deletesFp, MainPc.pwGone]

theorem CallsPw.phases {ok : Bool} {pc pc' : MainPc} {j : Password.Input}
    (h : CallsPw s ok pc j pc') :
    (pc.deletesFp = true → pc'.deletesFp = true) ∧ pc'.pwGone = false := by
  cases h <;> exact ⟨id, rfl⟩

theorem Wipes.phases {pc pc' : MainPc} (h : Wipes pc pc') :
    (pc.deletesFp = true → pc'.deletesFp = true) ∧ pc'.pwGone = false := by
  cases h <;> exact ⟨id, rfl⟩

theorem Step.phases (hs : Step s i s' out) (h : PhaseInv s) : PhaseInv s' := by
  have hs0 := hs
  have hselect : s.main = .select → s.main.deletesFp = true → False := by
    intro hpc hd
    rw [hpc] at hd
    cases hd
  cases hs with
  | goes ok pc hg =>
    obtain ⟨hdel, hpw, hfp⟩ := hg.phases
    exact ⟨fun hd => hdel (h.deleting hd), fun hp => (hpw hp).elim h.pw id, hfp⟩
  | wipes ok pc hw => exact h.before rfl hw.phases.1 hw.phases.2
  | result ok hpc =>
    refine h.before rfl (fun hd => ?_) rfl
    rw [hpc] at hd
    cases hd
  | callsFp ok j pc fp items hc hs =>
    obtain ⟨hdel, hpw, hret⟩ := hc.phases
    refine ⟨fun hd => ?_, fun hp => h.pw (hpw ▸ hp), fun ret he => absurd he (hret ret)⟩
    rcases hdel with hdel | ⟨hj, hdel⟩
    · exact hdel
    · exact hdel (h.deleting (Fingerprint.deleting_step hs hj hd))
  | callsPw ok j pc pw items hc hs => exact h.before rfl hc.phases.1 hc.phases.2
  | noKey hpc => exact h.before rfl (fun hd => (hselect hpc hd).elim) rfl
  | emptyLine c hpc hc hb => exact h.before rfl (fun hd => (hselect hpc hd).elim) rfl
  | line c pw items hpc hc hb hs => exact h.before rfl (fun hd => (hselect hpc hd).elim) rfl
  | edited c hpc hc => exact h.before rfl (fun hd => (hselect hpc hd).elim) rfl
  | fpWorker o fp items hh hs =>
    exact h.aside hs0 rfl (Fingerprint.deleting_step hs Fingerprint.Input.noConfusion)
  | stopsFp obj ok objs fp items hh hs =>
    refine h.aside hs0 ?_ (Fingerprint.deleting_step hs Fingerprint.Input.noConfusion)
    cases obj <;> rfl
  | inFp obj ok pc objs fp items hh hs =>
    refine h.aside hs0 ?_ (Fingerprint.deleting_step hs Fingerprint.Input.noConfusion)
    cases obj <;> rfl
  | emit body fp items hs =>
    exact h.aside hs0 rfl (Fingerprint.deleting_step hs Fingerprint.Input.noConfusion)
  | returns obj | wins obj | stopsPw obj | inPw obj =>
    refine h.aside hs0 ?_ fun hd => ?_
    · cases obj <;> rfl
    · cases obj <;> exact hd
  | _ => exact h.aside hs0 rfl id

/-! ## Uses -/

/-- An object is used too late: it is `pw`, and the handler of `fp` has won. -/
def UseRule (pre : List Item) (c : Item) : Prop :=
  ∀ obj, c = .misused obj → obj = .pw ∧ .granted .fp ∈ pre

theorem handler_fp_joined (hr : machine.Reach s tr) (h : HandlerInv s)
    (hj : s.fp.client.joined = true) : s.fpHandler = none := by
  by_contra hn
  obtain ⟨pc, hw, -⟩ := h.works .fp hn
  have hnone := (Fingerprint.scanInv_reach (fp_reach hr)).joined hj
  cases hnone.symm.trans hw

theorem handler_pw_joined (hr : machine.Reach s tr) (h : HandlerInv s)
    (hj : s.pw.client.unjoinable = true) : s.pwHandler = none := by
  by_contra hn
  obtain ⟨w, hw, -⟩ := h.works .pw hn
  have hnone := Password.unjoinable_reach (pw_reach hr) hj
  cases hnone.symm.trans hw

theorem pwUses_pos {p : Password.StopPc} {h : Option HandlerPc} (hpos : 0 < pwUses p h) :
    ∃ pc, h = some pc ∧ pc.stopsPw = true := by
  unfold pwUses at hpos
  split at hpos
  · exact ⟨_, rfl, rfl⟩
  · cases hpos

/-- No handler is left where `fp` is going. -/
theorem handlers_over (hr : machine.Reach s tr) (h : HandlerInv s) (hp : PhaseInv s)
    (hj : s.fp.client.joined = true) (hm : s.main.pwGone = true) :
    ∀ o, s.handler o = none := by
  intro o
  cases o with
  | fp => exact handler_fp_joined hr h hj
  | pw => exact handler_pw_joined hr h (by rw [hp.pw hm]; rfl)

theorem Step.uses (hr : machine.Reach s tr) (hs : Step s i s' out) (h : HandlerInv s)
    (hp : PhaseInv s) (hwon : Won s tr) (obj : Obj) (hm : .misused obj ∈ out) :
    obj = .pw ∧ .granted .fp ∈ tr := by
  have hfp : ∀ items : List Fingerprint.Item, .misused obj ∉ items.map Item.fp := by simp
  have hpw : ∀ items : List Password.Item, .misused obj ∉ items.map Item.pw := by simp
  cases hs with
  | fpInUse ok ret hpc hc hstops =>
    exfalso
    have hover := handlers_over hr h hp (by rw [hc]; rfl) (by rw [hpc]; rfl)
    have hfpNone : s.fpHandler = none := hover .fp
    have hpwNone : s.pwHandler = none := hover .pw
    obtain ⟨p, hmem⟩ := List.exists_mem_of_ne_nil _ hstops
    have hpos := List.count_pos_iff.mpr hmem
    rw [h.fpStops p, State.fpUses, hfpNone, hpwNone] at hpos
    exact Nat.lt_irrefl 0 hpos
  | pwInUse ok ret hpc hc hstops =>
    cases List.mem_singleton.mp hm
    -- the call is not of its own worker
    have hnone := handler_pw_joined hr h (by rw [hc]; rfl)
    obtain ⟨p, hmem⟩ := List.exists_mem_of_ne_nil _ hstops
    have hpos := List.count_pos_iff.mpr hmem
    rw [h.pwStops p, State.pwUses, hnone] at hpos
    obtain ⟨pc, hh, hstop⟩ := pwUses_pos hpos
    exact ⟨rfl, hwon pc hh hstop⟩
  | stale o ok obj' objs hh hgone =>
    cases List.mem_singleton.mp hm
    cases obj with
    | fp =>
      exfalso
      have hdel : s.main.deletesFp = true := hp.deleting (by rw [hgone]; rfl)
      have hgone' : s.main.pwGone = true := by
        cases hpc : s.main <;> rw [hpc] at hdel <;> first
          | rfl
          | cases hdel
      have hover := handlers_over hr h hp (by rw [hgone]; rfl) hgone'
      cases (hover o).symm.trans hh
    | pw =>
      have hnone := handler_pw_joined hr h (by rw [hgone]; rfl)
      cases o with
      | fp => exact ⟨rfl, hwon _ hh rfl⟩
      | pw => cases hnone.symm.trans hh
  | callsFp ok j pc fp items hc hs => exact absurd hm (hfp items)
  | fpWorker o fp items hh hs => exact absurd hm (hfp items)
  | stopsFp o ok objs fp items hh hs => exact absurd hm (hfp items)
  | inFp o ok pc objs fp items hh hs => exact absurd hm (hfp items)
  | emit body fp items hs => exact absurd hm (hfp items)
  | callsPw ok j pc pw items hc hs => exact absurd hm (hpw items)
  | pwWorker o pw items hh hs => exact absurd hm (hpw items)
  | stopsPw o ok objs pw items hh hs => exact absurd hm (hpw items)
  | inPw o ok pc objs pw items hh hs => exact absurd hm (hpw items)
  | childEnds pid run pw items hs => exact absurd hm (hpw items)
  | line c pw items hpc hc hb hs =>
    exact absurd ((List.mem_cons.mp hm).resolve_left Item.noConfusion) (hpw items)
  | wipes ok pc hw => split at hm <;> simp at hm
  | _ => simp at hm

structure EndInv (s : State) (tr : List Item) : Prop where
  handlers : HandlerInv s
  phases : PhaseInv s
  won : Won s tr
  rule : Always UseRule tr

end Steps

theorem endInv_reach {s : State} {tr : List Item} (h : machine.Reach s tr) : EndInv s tr := by
  refine h.invariant_of (J := machine.Reach) (I := EndInv) id ?_ ?_
  · rintro s ⟨pipe, device, rfl⟩
    refine ⟨⟨fun o hn => ?_, fun _ => rfl, fun _ => rfl⟩,
      ⟨fun hd => ?_, fun hp => ?_, fun ret he => ?_⟩, fun x hx => ?_, always_nil _⟩
    · cases o <;> exact absurd rfl hn
    · cases hd
    · cases hp
    · cases he
    · cases hx
  · intro s tr i s' out hr hinv _ hs
    have hstep := machine_step hs
    refine ⟨⟨hstep.works hinv.handlers.works, hstep.fpStops hinv.handlers.fpStops,
      hstep.pwStops hinv.handlers.pwStops⟩, hstep.phases hinv.phases, hstep.won hinv.won,
      always_append.mpr ⟨hinv.rule, always_of_forall fun c hc pre obj he => ?_⟩⟩
    obtain ⟨hobj, hm⟩ := hstep.uses hr hinv.handlers hinv.phases hinv.won obj (he ▸ hc)
    exact ⟨hobj, List.mem_append_left _ hm⟩

/-- How the objects go. -/
structure Ends (s : State) (tr : List Item) : Prop where
  /-- `fp` is never used too late, `pw` only by a handler of `fp` that has won … -/
  misused : Always UseRule tr
  /-- … and where `main` returns both are gone, every handler is over … -/
  returned : ∀ ret, s.main = .returned ret → ∀ obj, s.gone obj ∧ s.handler obj = none
  /-- … and no password is left -/
  clean : ∀ ret, s.main = .returned ret → s.passBuf = [] ∧ s.pw.obj.candidate = []

/-- **Only `pw` can be used too late**, and only where a finger has let somebody in. -/
theorem coordinator_ends {s : State} {tr : List Item} (h : machine.Reach s tr) : Ends s tr := by
  have hinv := endInv_reach h
  have hgone : ∀ ret, s.main = .returned ret → s.pw.client = .deleted := fun ret hpc =>
    hinv.phases.pw (by rw [hpc]; rfl)
  refine ⟨hinv.rule, fun ret hpc obj => ?_, fun ret hpc => ⟨?_, ?_⟩⟩
  · have hfp := hinv.phases.fp ret hpc
    have hover := handlers_over h hinv.handlers hinv.phases (by rw [hfp]; rfl) (by rw [hpc]; rfl)
    cases obj with
    | fp => exact ⟨hfp, hover .fp⟩
    | pw => exact ⟨hgone ret hpc, hover .pw⟩
  · have hholds := (lineInv_reach h).holds
    rw [hpc] at hholds
    exact hholds.1
  · have hpw := pw_reach h
    have hnone := Password.unjoinable_reach hpw (by rw [hgone ret hpc]; rfl)
    refine (Password.held_reach hpw).empty (by rw [hgone ret hpc]; rfl) fun w hw => ?_
    cases hnone.symm.trans hw

/-! ## A run -/

/-- A finger matches; `main` comes to its end before the handler has stopped `pw`. -/
def sampleMisuse : List Input :=
  mainSteps 9 ++ fpWorks 6 .nothing ++ [.emit (.status "verify-match" true)] ++
  fpWorks 2 .signal ++ handles .fp 1 ++ mainSteps 2 ++ [.read none] ++ mainSteps 19 ++
  handles .fp 1

theorem misuseRun_isSome : (machine.exec (start true true) sampleMisuse).isSome = true := by
  decide

/-- `stop` is called on a `pw` that is gone. -/
def misuseRun : State × List Item :=
  (machine.exec (start true true) sampleMisuse).get misuseRun_isSome

theorem coordinator_ends_misuseRun :
    .misused .pw ∈ misuseRun.2 ∧ Ends misuseRun.1 misuseRun.2 :=
  ⟨by decide, coordinator_ends (Machine.reach_exec (start_init true true) misuseRun_isSome)⟩

end Auth.Coordinator
