import Kirilock.CoordinatorEnd
import Kirilock.PasswordEnd

/-!
The program goes on.

`main` waits for nothing but keys and the workers that it joins (`client_goes`), and a worker that
it joins goes on itself, or the handler that it runs does, or its child can end: no thread waits
for one that waits for it (`GoesOn`).
-/

namespace Auth.Fingerprint

open Runs

/-- The worker that `start` joins is there. -/
theorem join_reach {s : State} {tr : List Item} (h : machine.Reach s tr) :
    s.client = .join → s.worker.isSome = true := by
  refine h.invariant (I := fun s _ => s.client = .join → s.worker.isSome = true) ?_ ?_
  · rintro s ⟨handlers, pipe, device, rfl⟩ hpc
    cases hpc
  · intro s tr i s' out hinv _ hs hpc
    cases machine_step hs with
    | start | stop | delete => cases hpc
    | client ok p w pc out hc =>
      cases hc with
      | loaded hl hw hr => exact hw
      | called pc hl hp => rcases hp with rfl | rfl <;> cases hpc
      | _ => cases hpc
    | stopStep i ok pc pc' client stops p out hi hr hstop =>
      cases hr with
      | client hl | delete hl => cases pc' <;> cases hpc
      | other l1 l2 hs => exact hinv hpc
    | worker o pc p queue pc' out hw hstep => rfl
    | _ => exact hinv hpc

/-- The client's calls and their steps. -/
def Input.ofClient : Input → Bool
  | .start => true
  | .stop => true
  | .delete => true
  | .client _ => true
  | _ => false

theorem client_kept {s s' : State} {i : Input} {out : List Item}
    (hs : machine.step s i = some (s', out)) (hi : i.ofClient = false) :
    s'.client = s.client := by
  cases i with
  | start | stop | delete | client => cases hi
  | otherStop | other =>
    simp only [machine, State.step] at hs
    split at hs
    · cases hs
    · cases hs
      rfl
  | worker o =>
    cases machine_step hs with
    | stopStep i ok pc pc' client stops p out hi hr hstop => cases hi
    | worker o pc p queue pc' out hw hstep => rfl
  | emit body =>
    cases hs
    rfl

theorem delete_deleting {s s' : State} {out : List Item}
    (hs : machine.step s .delete = some (s', out)) : s'.client.deleting = true := by
  simp only [machine, State.step, State.clientAt] at hs
  split at hs
  · cases hs
    rfl
  · cases hs

/-- From the destructor there is no way back. -/
theorem deleting_kept {s s' : State} {i : Input} {out : List Item}
    (hs : machine.step s i = some (s', out)) (h : s.client.deleting = true) :
    s'.client.deleting = true := by
  cases machine_step hs with
  | start hpc | stop hpc | delete hpc =>
    rw [hpc] at h
    cases h
  | client ok p w pc out hc =>
    cases hc with
    | deleteUnjoinable | deleteJoined | released | closed | deleted => rfl
    | threw hpc => rcases hpc with hpc | hpc <;> rw [hpc] at h <;> cases h
    | refused hpc | loaded hpc | unjoinable hpc | joined hpc | drains n hpc | drained hpc
    | runningStored hpc | checkStored hpc | called pc hpc | created hpc | caught hpc =>
      rw [hpc] at h
      cases h
  | stopStep i ok pc pc' client stops p out hi hr hstop =>
    cases hr with
    | client hpc =>
      rw [hpc] at h
      cases h
    | delete hpc => cases pc' <;> rfl
    | other l1 l2 hs => exact h
  | _ => exact h

/-- The client is at a `join`. -/
def ClientPc.joins : ClientPc → Bool
  | .join => true
  | .deleteJoin => true
  | _ => false

/-- The client waits for nothing but the worker. -/
theorem client_goes {s : State} (hjoin : s.client = .join → s.worker.isSome = true)
    (hidle : s.client ≠ .idle) (hdel : s.client ≠ .deleted)
    (hstops : s.client = .onDelete → s.stops = []) :
    (machine.step s (.client true)).isSome = true ∨ s.client.joins = true ∧ Works s := by
  show (s.runClient true).isSome = true ∨ s.client.joins = true ∧ Works s
  cases hcs : s.client with
  | idle => exact absurd hcs hidle
  | deleted => exact absurd hcs hdel
  | join =>
    obtain ⟨pc, hw⟩ := Option.isSome_iff_exists.mp (hjoin hcs)
    by_cases he : pc = .exited
    · left
      simp only [State.runClient, hcs, hw, he]
      rfl
    · exact Or.inr ⟨rfl, pc, hw, he⟩
  | deleteJoin =>
    cases hw : s.worker with
    | none =>
      left
      simp only [State.runClient, hcs, hw]
      rfl
    | some pc =>
      by_cases he : pc = .exited
      · left
        simp only [State.runClient, hcs, hw, he]
        rfl
      · exact Or.inr ⟨rfl, pc, hw, he⟩
  | onDelete =>
    left
    simp only [State.runClient, hcs, hstops hcs]
    rfl
  | load | drain =>
    left
    simp only [State.runClient, hcs]
    repeat' split
    all_goals rfl
  | storeRunning | storeCheck | onStart | create | catchStore | stop | deleteStop | release
  | close =>
    left
    simp only [State.runClient, hcs]
    rfl

end Auth.Fingerprint

namespace Auth.Password

open Runs

/-- The client's calls and their steps. -/
def Input.ofClient : Input → Bool
  | .verify _ => true
  | .stop => true
  | .delete => true
  | .client _ => true
  | _ => false

theorem client_kept {s s' : State} {i : Input} {out : List Item}
    (hs : machine.step s i = some (s', out)) (hi : i.ofClient = false) :
    s'.client = s.client := by
  cases i with
  | verify | stop | delete | client => cases hi
  | otherStop | other =>
    simp only [machine, State.step] at hs
    split at hs
    · cases hs
    · cases hs
      rfl
  | worker o =>
    cases machine_step hs with
    | stopStep i pc pc' client stops p out hi hr hstop => cases hi
    | worker o w p cs pc out hw hstep => rfl
  | childEnds pid run =>
    cases machine_step hs with
    | stopStep i pc pc' client stops p out hi hr hstop => cases hi
    | childEnds => rfl

theorem delete_deleting {s s' : State} {out : List Item}
    (hs : machine.step s .delete = some (s', out)) : s'.client.deleting = true := by
  simp only [machine, State.step, State.clientAt] at hs
  split at hs
  · cases hs
    rfl
  · cases hs

theorem deleting_step {s s' : State} {i : Input} {out : List Item}
    (hs : machine.step s i = some (s', out)) (hi : i ≠ .delete)
    (h : s'.client.deleting = true) : s.client.deleting = true := by
  cases machine_step hs with
  | verify pass hpc | stop hpc => cases h
  | delete hpc => exact absurd rfl hi
  | client ok p w pc out hc =>
    cases hc with
    | deleteJoined hpc | deleteCleared hpc | deleted hpc =>
      rw [hpc]
      rfl
    | _ => cases h
  | stopStep i pc pc' client stops p out hi' hr hstop =>
    cases hr with
    | client hpc => cases pc' <;> cases h
    | delete hpc =>
      rw [hpc]
      rfl
    | other l1 l2 hs => exact h
  | _ => exact h

/-- From the destructor there is no way back. -/
theorem deleting_kept {s s' : State} {i : Input} {out : List Item}
    (hs : machine.step s i = some (s', out)) (h : s.client.deleting = true) :
    s'.client.deleting = true := by
  cases machine_step hs with
  | verify pass hpc | stop hpc | delete hpc =>
    rw [hpc] at h
    cases h
  | client ok p w pc out hc =>
    cases hc with
    | deleteJoined | deleteCleared | deleted => rfl
    | threw hpc =>
      generalize s.client = c at hpc h
      cases hpc <;> cases h
    | refused pass hpc | claimed pass hpc | joined pass hpc | assigned pass hpc | created hpc
    | caught hpc | failed hpc =>
      rw [hpc] at h
      cases h
  | stopStep i pc pc' client stops p out hi hr hstop =>
    cases hr with
    | client hpc =>
      rw [hpc] at h
      cases h
    | delete hpc => cases pc' <;> rfl
    | other l1 l2 hs => exact h
  | _ => exact h

/-- The client is at a `join`. -/
def ClientPc.joins : ClientPc → Bool
  | .join _ => true
  | .deleteJoin => true
  | _ => false

/-- The client waits for nothing but the worker. -/
theorem client_goes {s : State} (hidle : s.client ≠ .idle) (hdel : s.client ≠ .deleted)
    (hstops : s.client = .onDelete → s.stops = []) :
    (machine.step s (.client true)).isSome = true ∨ s.client.joins = true ∧ Works s := by
  show (s.runClient true).isSome = true ∨ s.client.joins = true ∧ Works s
  cases hcs : s.client with
  | idle => exact absurd hcs hidle
  | deleted => exact absurd hcs hdel
  | join | deleteJoin =>
    cases hw : s.worker with
    | none =>
      left
      simp only [State.runClient, hcs, hw]
      rfl
    | some w =>
      by_cases he : w.pc = .exited
      · left
        simp only [State.runClient, hcs, hw, he]
        rfl
      · exact Or.inr ⟨rfl, w, hw, he⟩
  | onDelete =>
    left
    simp only [State.runClient, hcs, hstops hcs]
    rfl
  | compare pass =>
    left
    simp only [State.runClient, hcs]
    split <;> rfl
  | assign | create | catchStore | catchClear | stop | deleteStop | deleteClear =>
    left
    simp only [State.runClient, hcs]
    rfl

end Auth.Password

namespace Auth.Coordinator

open Runs

/-! ## The calls -/

/-- `main` is in a call on `fp`, or has destroyed it. -/
def MainPc.inFp : MainPc → Bool
  | .starting => true
  | .stoppingFp => true
  | .deletingFp _ => true
  | .returned _ => true
  | _ => false

def MainPc.inPw : MainPc → Bool
  | .verifying => true
  | .stoppingPw => true
  | .deletingPw _ => true
  | .deleteFp _ => true
  | .deletingFp _ => true
  | .returned _ => true
  | _ => false

def MainPc.deletesPw : MainPc → Bool
  | .deletingPw _ => true
  | .deleteFp _ => true
  | .deletingFp _ => true
  | .returned _ => true
  | _ => false

/-- Where `main` is, and its calls. -/
structure CallInv (s : State) : Prop where
  fp : s.fp.client ≠ .idle → s.main.inFp = true
  pw : s.pw.client ≠ .idle → s.main.inPw = true
  pwDeletes : s.pw.client.deleting = true → s.main.deletesPw = true
  fpGoes : ∀ ret, s.main = .deletingFp ret → s.fp.client.deleting = true
  pwGoes : ∀ ret, s.main = .deletingPw ret → s.pw.client.deleting = true

section Steps

variable {s s' : State} {i : Input} {tr out : List Item}

/-- The step is not one of `main`. -/
theorem CallInv.aside (h : CallInv s) (hm : s'.main = s.main)
    (hfp : s'.fp.client = s.fp.client) (hpw : s'.pw.client = s.pw.client) : CallInv s' := by
  refine ⟨?_, ?_, ?_, ?_, ?_⟩
  · rw [hm, hfp]
    exact h.fp
  · rw [hm, hpw]
    exact h.pw
  · rw [hm, hpw]
    exact h.pwDeletes
  · rw [hm, hfp]
    exact h.fpGoes
  · rw [hm, hpw]
    exact h.pwGoes

/-- `main` goes on from `pc` to `pc'`, and is in no call or its call has returned. -/
structure Moves (s : State) (pc pc' : MainPc) : Prop where
  fp : pc.inFp = true → pc'.inFp = true ∨ s.fp.client = .idle
  pw : pc.inPw = true → pc'.inPw = true ∨ s.pw.client = .idle
  pwDeletes : pc.deletesPw = true → pc'.deletesPw = true
  fpGoes : ∀ ret, pc' ≠ .deletingFp ret
  pwGoes : ∀ ret, pc' ≠ .deletingPw ret

theorem CallInv.moves (h : CallInv s) (hm : Moves s s.main s'.main) (hfp : s'.fp = s.fp)
    (hpw : s'.pw = s.pw) : CallInv s' := by
  refine ⟨fun hne => ?_, fun hne => ?_, fun hd => ?_, fun ret he => absurd he (hm.fpGoes ret),
    fun ret he => absurd he (hm.pwGoes ret)⟩
  · rw [hfp] at hne
    exact (hm.fp (h.fp hne)).resolve_right hne
  · rw [hpw] at hne
    exact (hm.pw (h.pw hne)).resolve_right hne
  · rw [hpw] at hd
    exact hm.pwDeletes (h.pwDeletes hd)

theorem Goes.moves {pc pc' : MainPc} (h : Goes s pc pc') : Moves s pc pc' := by
  cases h with
  | started hc | stoppedFp hc =>
    exact ⟨fun _ => Or.inr hc, Or.inl, id, fun _ => MainPc.noConfusion, fun _ => MainPc.noConfusion⟩
  | verified hc | stoppedPw hc =>
    exact ⟨Or.inl, fun _ => Or.inr hc, id, fun _ => MainPc.noConfusion, fun _ => MainPc.noConfusion⟩
  | _ => exact ⟨Or.inl, Or.inl, id, fun _ => MainPc.noConfusion, fun _ => MainPc.noConfusion⟩

theorem Wipes.moves {pc pc' : MainPc} (h : Wipes pc pc') : Moves s pc pc' := by
  cases h <;>
    exact ⟨Or.inl, Or.inl, id, fun _ => MainPc.noConfusion, fun _ => MainPc.noConfusion⟩

/-- `main` has read a key, or prints its result. -/
theorem moves_between {pc' : MainPc} (hpc : s.main = .select ∨ s.main = .result)
    (hf : ∀ ret, pc' ≠ .deletingFp ret) (hp : ∀ ret, pc' ≠ .deletingPw ret) :
    Moves s s.main pc' := by
  rcases hpc with hpc | hpc <;> rw [hpc] <;>
    exact ⟨Bool.noConfusion, Bool.noConfusion, Bool.noConfusion, hf, hp⟩

theorem CallsFp.calls {ok : Bool} {pc pc' : MainPc} {j : Fingerprint.Input}
    (h : CallsFp s ok pc j pc') :
    pc'.inFp = true ∧ (pc.inPw = true → pc'.inPw = true) ∧
      (pc.deletesPw = true → pc'.deletesPw = true) ∧
      (∀ ret, pc' = .deletingFp ret → j = .delete ∨ pc = pc') ∧ ∀ ret, pc' ≠ .deletingPw ret := by
  cases h <;> simp [MainPc.inFp, MainPc.inPw, MainPc.deletesPw]

theorem CallsPw.calls {ok : Bool} {pc pc' : MainPc} {j : Password.Input}
    (h : CallsPw s ok pc j pc') :
    pc'.inPw = true ∧ (pc.inFp = true → pc'.inFp = true) ∧
      (pc'.deletesPw = true ∨ j ≠ .delete ∧ (pc.deletesPw = true → pc'.deletesPw = true)) ∧
      (∀ ret, pc' = .deletingPw ret → j = .delete ∨ pc = pc') ∧ ∀ ret, pc' ≠ .deletingFp ret := by
  cases h <;> simp [MainPc.inFp, MainPc.inPw, MainPc.deletesPw]

theorem Step.callInv (hs : Step s i s' out) (h : CallInv s) : CallInv s' := by
  cases hs with
  | goes ok pc hg => exact h.moves hg.moves rfl rfl
  | wipes ok pc hw => exact h.moves hw.moves rfl rfl
  | result ok hpc =>
    refine h.moves (moves_between (Or.inr hpc) ?_ ?_) rfl rfl <;>
      exact fun _ => MainPc.noConfusion
  | noKey hpc | emptyLine c hpc hc hb | edited c hpc hc =>
    refine h.moves (moves_between (Or.inl hpc) ?_ ?_) rfl rfl <;>
      exact fun _ => MainPc.noConfusion
  | callsFp ok j pc fp items hc hs =>
    obtain ⟨hin, hpw, hdel, hgoes, hnot⟩ := hc.calls
    refine ⟨fun _ => hin, fun hne => hpw (h.pw hne), fun hd => hdel (h.pwDeletes hd),
      fun ret he => ?_, fun ret he => absurd he (hnot ret)⟩
    rcases hgoes ret he with rfl | hsame
    · exact Fingerprint.delete_deleting hs
    · exact Fingerprint.deleting_kept hs (h.fpGoes ret (hsame.trans he))
  | callsPw ok j pc pw items hc hs =>
    obtain ⟨hin, hfp, hdel, hgoes, hnot⟩ := hc.calls
    refine ⟨fun hne => hfp (h.fp hne), fun _ => hin, fun hd => ?_,
      fun ret he => absurd he (hnot ret), fun ret he => ?_⟩
    · rcases hdel with hdel | ⟨hj, hdel⟩
      · exact hdel
      · exact hdel (h.pwDeletes (Password.deleting_step hs hj hd))
    · rcases hgoes ret he with rfl | hsame
      · exact Password.delete_deleting hs
      · exact Password.deleting_kept hs (h.pwGoes ret (hsame.trans he))
  | line c pw items hpc hc hb hs =>
    refine ⟨fun hne => ?_, fun _ => rfl, fun hd => ?_, fun _ => MainPc.noConfusion,
      fun _ => MainPc.noConfusion⟩
    · have hin := h.fp hne
      rw [hpc] at hin
      cases hin
    · have hdel := h.pwDeletes (Password.deleting_step hs Password.Input.noConfusion hd)
      rw [hpc] at hdel
      cases hdel
  | fpWorker o fp items hh hs => exact h.aside rfl (Fingerprint.client_kept hs rfl) rfl
  | emit body fp items hs => exact h.aside rfl (Fingerprint.client_kept hs rfl) rfl
  | pwWorker o pw items hh hs => exact h.aside rfl rfl (Password.client_kept hs rfl)
  | childEnds pid run pw items hs => exact h.aside rfl rfl (Password.client_kept hs rfl)
  | stopsFp obj ok objs fp items hh hs =>
    have hkept := Fingerprint.client_kept hs rfl
    cases obj <;> exact h.aside rfl hkept rfl
  | inFp obj ok pc objs fp items hh hs =>
    have hkept := Fingerprint.client_kept hs rfl
    cases obj <;> exact h.aside rfl hkept rfl
  | stopsPw obj ok objs pw items hh hs =>
    have hkept := Password.client_kept hs rfl
    cases obj <;> exact h.aside rfl rfl hkept
  | inPw obj ok pc objs pw items hh hs =>
    have hkept := Password.client_kept hs rfl
    cases obj <;> exact h.aside rfl rfl hkept
  | returns obj | wins obj => cases obj <;> exact h.aside rfl rfl rfl
  | _ => exact h.aside rfl rfl rfl

end Steps

theorem callInv_reach {s : State} {tr : List Item} (h : machine.Reach s tr) : CallInv s := by
  refine h.invariant (I := fun s _ => CallInv s) ?_ fun s tr i s' out hinv _ hs =>
    (machine_step hs).callInv hinv
  rintro s ⟨pipe, device, rfl⟩
  exact ⟨fun hne => absurd rfl hne, fun hne => absurd rfl hne, Bool.noConfusion,
    fun _ => MainPc.noConfusion, fun _ => MainPc.noConfusion⟩

/-! ## Who goes on -/

/-- `main` joins the worker of the object. -/
def State.joins (s : State) : Obj → Prop
  | .fp => s.fp.client.joins = true
  | .pw => s.pw.client.joins = true

/-- `main` is in no call on the object. -/
def State.idle (s : State) : Obj → Prop
  | .fp => s.fp.client = .idle
  | .pw => s.pw.client = .idle

/-- `main` is in the destructor of the object, or has left it. -/
def State.deleting (s : State) : Obj → Prop
  | .fp => s.fp.client.deleting = true
  | .pw => s.pw.client.deleting = true

/-- The members of the object are about to go while `stop` runs on it. -/
def State.inUse (s : State) : Obj → Prop
  | .fp => s.fp.client = .onDelete ∧ s.fp.stops ≠ []
  | .pw => s.pw.client = .onDelete ∧ s.pw.stops ≠ []

/-- What `main` does in a call on the object, in its destructor, and on the object there. -/
def State.inCall (s : State) : Obj → Bool → MainPc → Option (State × List Item)
  | .fp => s.inFp
  | .pw => s.inPw

def State.inDelete (s : State) : Obj → Bool → MainPc → Option (State × List Item)
  | .fp => s.inFpDelete
  | .pw => s.inPwDelete

def State.clientStep (s : State) (ok : Bool) : Obj → Option (State × List Item)
  | .fp => s.fpStep (.client ok)
  | .pw => s.pwStep (.client ok)

/-- Steps of the worker of the object, of the handler that it runs, or of its child. -/
def Input.worksFor : Obj → Input → Bool
  | .fp, .fpWorker _ => true
  | .pw, .pwWorker o => o.waitpid
  | .pw, .childEnds _ _ => true
  | obj, .handler obj' _ => obj == obj'
  | _, _ => false

/-- `main` goes on, or it joins a worker that does. -/
def GoesOn (s : State) : Prop :=
  (machine.step s (.main true)).isSome = true ∨ (machine.step s (.read none)).isSome = true ∨
    ∃ obj, s.joins obj ∧ ∃ i, Input.worksFor obj i = true ∧ (machine.step s i).isSome = true

section Goes

variable {s : State} {tr : List Item}

theorem goes_main (hm : s.misused = none) (hr : (s.runMain true).isSome = true) : GoesOn s := by
  left
  have hstep : machine.step s (.main true) = s.runMain true := by
    simp [machine, State.step, hm]
  rw [hstep]
  exact hr

theorem fpUses_handler {obj : Obj} {pc : Fingerprint.StopPc} {objs : List Obj}
    (hh : s.handler obj = some (.inFp pc objs)) : 0 < s.fpUses pc := by
  have hone : 0 < fpUses pc (some (.inFp pc objs)) :=
    List.count_pos_iff.mpr (List.mem_singleton_self pc)
  cases obj with
  | fp =>
    have hf : s.fpHandler = some (.inFp pc objs) := hh
    rw [State.fpUses, hf]
    exact Nat.add_pos_left hone _
  | pw =>
    have hp : s.pwHandler = some (.inFp pc objs) := hh
    rw [State.fpUses, hp]
    exact Nat.add_pos_right _ hone

theorem pwUses_handler {obj : Obj} {pc : Password.StopPc} {objs : List Obj}
    (hh : s.handler obj = some (.inPw pc objs)) : 0 < s.pwUses pc := by
  have hone : 0 < pwUses pc (some (.inPw pc objs)) :=
    List.count_pos_iff.mpr (List.mem_singleton_self pc)
  cases obj with
  | fp =>
    have hf : s.fpHandler = some (.inPw pc objs) := hh
    rw [State.pwUses, hf]
    exact Nat.add_pos_left hone _
  | pw =>
    have hp : s.pwHandler = some (.inPw pc objs) := hh
    rw [State.pwUses, hp]
    exact Nat.add_pos_right _ hone

/-- A handler waits for nothing. -/
theorem handler_goes (h : HandlerInv s) {obj : Obj} {pc : HandlerPc}
    (hh : s.handler obj = some pc) : (s.runHandler obj true pc).isSome = true := by
  cases pc with
  | exchange =>
    simp only [State.runHandler]
    split <;> rfl
  | call objs =>
    cases objs with
    | nil => rfl
    | cons o objs =>
      cases o with
      | fp =>
        simp only [State.runHandler]
        split
        · rfl
        · rename_i hd
          simp [State.fpStep, Fingerprint.State.step, hd]
      | pw =>
        simp only [State.runHandler]
        split
        · rfl
        · rename_i hd
          simp [State.pwStep, Password.State.step, hd]
  | inFp pc objs =>
    have hpos := fpUses_handler hh
    rw [← h.fpStops pc] at hpos
    have hlt := List.idxOf_lt_length_of_mem (List.count_pos_iff.mp hpos)
    simp [State.runHandler, State.fpStep, Fingerprint.State.step, hlt]
  | inPw pc objs =>
    have hpos := pwUses_handler hh
    rw [← h.pwStops pc] at hpos
    have hlt := List.idxOf_lt_length_of_mem (List.count_pos_iff.mp hpos)
    simp [State.runHandler, State.pwStep, Password.State.step, hlt]

theorem step_handler (h : HandlerInv s) (hm : s.misused = none) (obj : Obj) {pc : HandlerPc}
    (hh : s.handler obj = some pc) : (machine.step s (.handler obj true)).isSome = true := by
  have hstep : machine.step s (.handler obj true) = s.runHandler obj true pc := by
    simp [machine, State.step, hm, hh]
  rw [hstep]
  exact handler_goes h hh

/-- A worker that `main` joins goes on. -/
theorem goes_worker (hr : machine.Reach s tr) (h : HandlerInv s) (hm : s.misused = none) {obj : Obj}
    (hjoin : s.joins obj) (hw : s.works obj) : GoesOn s := by
  refine Or.inr (Or.inr ⟨obj, hjoin, ?_⟩)
  cases hh : s.handler obj with
  | some pc =>
    refine ⟨.handler obj true, ?_, step_handler h hm obj hh⟩
    cases obj <;> rfl
  | none =>
    cases obj with
    | fp =>
      obtain ⟨pc, hw, hne⟩ := hw
      have hnone : s.fpHandler = none := hh
      refine ⟨.fpWorker ⟨.ok, .nothing⟩, rfl, ?_⟩
      simp only [machine, State.step, hm, State.runFpWorker, hnone, Option.isSome_none,
        Bool.false_eq_true, if_false, Option.isSome_map]
      exact Fingerprint.worker_goes hw hne
    | pw =>
      obtain ⟨w, hw, hne⟩ := hw
      have hnone : s.pwHandler = none := hh
      rcases Password.worker_goes (Password.childInv_reach (pw_reach hr)) hw hne with
        hgo | ⟨pid, hgo⟩
      · refine ⟨.pwWorker ⟨none, true⟩, rfl, ?_⟩
        simp only [machine, State.step, hm, State.runPwWorker, hnone, Option.isSome_none,
          Bool.false_eq_true, if_false, Option.isSome_map]
        exact hgo
      · refine ⟨.childEnds pid .killed, rfl, ?_⟩
        simp only [machine, State.step, hm, State.pwStep, Option.isSome_none, Bool.false_eq_true,
          if_false, Option.isSome_map]
        exact hgo

/-- The client of an object waits for nothing but its worker. -/
theorem clientStep_goes (hr : machine.Reach s tr) {obj : Obj} (hidle : ¬s.idle obj)
    (hgone : ¬s.gone obj) (huse : ¬s.inUse obj) :
    (s.clientStep true obj).isSome = true ∨ s.joins obj ∧ s.works obj := by
  cases obj with
  | fp =>
    have hstops : s.fp.client = .onDelete → s.fp.stops = [] :=
      fun he => by_contra fun hne => huse ⟨he, hne⟩
    rw [State.clientStep, State.fpStep, Option.isSome_map]
    exact Fingerprint.client_goes (Fingerprint.join_reach (fp_reach hr)) hidle hgone hstops
  | pw =>
    have hstops : s.pw.client = .onDelete → s.pw.stops = [] :=
      fun he => by_contra fun hne => huse ⟨he, hne⟩
    rw [State.clientStep, State.pwStep, Option.isSome_map]
    exact Password.client_goes hidle hgone hstops

/-- The client of the object is not at the end of its destructor. -/
theorem not_deleting {obj : Obj} (h : ¬s.deleting obj) : ¬s.gone obj ∧ ¬s.inUse obj := by
  cases obj with
  | fp =>
    have hne : ∀ pc, s.fp.client = pc → pc.deleting = false := fun pc he => by
      rw [← he]
      exact Bool.eq_false_iff.mpr h
    exact ⟨fun he => Bool.noConfusion (hne _ he), fun he => Bool.noConfusion (hne _ he.1)⟩
  | pw =>
    have hne : ∀ pc, s.pw.client = pc → pc.deleting = false := fun pc he => by
      rw [← he]
      exact Bool.eq_false_iff.mpr h
    exact ⟨fun he => Bool.noConfusion (hne _ he), fun he => Bool.noConfusion (hne _ he.1)⟩

theorem not_idle {obj : Obj} (h : s.deleting obj) : ¬s.idle obj := by
  cases obj with
  | fp =>
    intro he
    rw [State.deleting, show s.fp.client = .idle from he] at h
    cases h
  | pw =>
    intro he
    rw [State.deleting, show s.pw.client = .idle from he] at h
    cases h

/-- A call that has not returned goes on as its object's client does. -/
theorem inCall_eq (s : State) (obj : Obj) (ok : Bool) (next : MainPc) :
    s.idle obj ∧ s.inCall obj ok next = some (s.mainAt next, []) ∨
      ¬s.idle obj ∧ s.inCall obj ok next = s.clientStep ok obj := by
  cases obj with
  | fp => exact (em _).imp (fun h => ⟨h, if_pos h⟩) (fun h => ⟨h, if_neg h⟩)
  | pw => exact (em _).imp (fun h => ⟨h, if_pos h⟩) (fun h => ⟨h, if_neg h⟩)

theorem inDelete_eq (s : State) (obj : Obj) (ok : Bool) (next : MainPc) :
    (s.inDelete obj ok next).isSome = true ∨
      ¬s.gone obj ∧ ¬s.inUse obj ∧ s.inDelete obj ok next = s.clientStep ok obj := by
  cases obj with
  | fp =>
    simp only [State.inDelete, State.inFpDelete]
    split
    · exact Or.inl rfl
    · split
      · exact Or.inl rfl
      · rename_i hgone huse
        exact Or.inr ⟨hgone, huse, rfl⟩
  | pw =>
    simp only [State.inDelete, State.inPwDelete]
    split
    · exact Or.inl rfl
    · split
      · exact Or.inl rfl
      · rename_i hgone huse
        exact Or.inr ⟨hgone, huse, rfl⟩

/-- `main` is in a call on an object that it does not destroy. -/
theorem goes_inCall (obj : Obj) (hr : machine.Reach s tr) (h : HandlerInv s)
    (hm : s.misused = none) (hdel : ¬s.deleting obj) {next : MainPc}
    (hrun : s.runMain true = s.inCall obj true next) : GoesOn s := by
  rcases inCall_eq s obj true next with ⟨-, he⟩ | ⟨hidle, he⟩
  · refine goes_main hm ?_
    rw [hrun, he]
    rfl
  · obtain ⟨hgone, huse⟩ := not_deleting hdel
    rcases clientStep_goes hr hidle hgone huse with hgo | ⟨hjoin, hw⟩
    · refine goes_main hm ?_
      rw [hrun, he]
      exact hgo
    · exact goes_worker hr h hm hjoin hw

/-- `main` is in the destructor of an object. -/
theorem goes_inDelete (obj : Obj) (hr : machine.Reach s tr) (h : HandlerInv s)
    (hm : s.misused = none) (hdel : s.deleting obj) {next : MainPc}
    (hrun : s.runMain true = s.inDelete obj true next) : GoesOn s := by
  rcases inDelete_eq s obj true next with hsome | ⟨hgone, huse, he⟩
  · refine goes_main hm ?_
    rw [hrun]
    exact hsome
  · rcases clientStep_goes hr (not_idle hdel) hgone huse with hgo | ⟨hjoin, hw⟩
    · refine goes_main hm ?_
      rw [hrun, he]
      exact hgo
    · exact goes_worker hr h hm hjoin hw

end Goes

/-- **`main` never hangs**: until it has returned, or an object is misused, it goes on or joins a
worker that does. -/
theorem coordinator_goes_on {s : State} {tr : List Item} (h : machine.Reach s tr)
    (hm : s.misused = none) (hret : ∀ ret, s.main ≠ .returned ret) : GoesOn s := by
  have hend := endInv_reach h
  have hcall := callInv_reach h
  have hfpIdle : s.main.inFp = false → s.fp.client = .idle := by
    intro hin
    by_contra hne
    exact Bool.noConfusion (hin.symm.trans (hcall.fp hne))
  have hpwIdle : s.main.inPw = false → s.pw.client = .idle := by
    intro hin
    by_contra hne
    exact Bool.noConfusion (hin.symm.trans (hcall.pw hne))
  have hfpDel : s.main.deletesFp = false → ¬s.deleting .fp := fun hdel hd =>
    Bool.noConfusion (hdel.symm.trans (hend.phases.deleting hd))
  have hpwDel : s.main.deletesPw = false → ¬s.deleting .pw := fun hdel hd =>
    Bool.noConfusion (hdel.symm.trans (hcall.pwDeletes hd))
  have hhand := hend.handlers
  cases hpc : s.main with
  | returned ret => exact absurd hpc (hret ret)
  | select =>
    refine Or.inr (Or.inl ?_)
    simp [machine, State.step, hm, State.read, hpc]
  | loadAuthenticated | loadInterrupted | loadFp | loadPw | clear | wipe | result =>
    refine goes_main hm ?_
    simp only [State.runMain, hpc]
    rfl
  | start | stopFp | deleteFp =>
    refine goes_main hm ?_
    have hidle := hfpIdle (by rw [hpc]; rfl)
    simp [State.runMain, hpc, State.fpStep, State.mainAt, Fingerprint.State.step,
      Fingerprint.State.clientAt, hidle]
  | stopPw | deletePw =>
    refine goes_main hm ?_
    have hidle := hpwIdle (by rw [hpc]; rfl)
    simp [State.runMain, hpc, State.pwStep, State.mainAt, Password.State.step,
      Password.State.clientAt, hidle]
  | starting | stoppingFp =>
    exact goes_inCall .fp h hhand hm (hfpDel (by rw [hpc]; rfl))
      (by simp only [State.runMain, hpc]; rfl)
  | verifying | stoppingPw =>
    exact goes_inCall .pw h hhand hm (hpwDel (by rw [hpc]; rfl))
      (by simp only [State.runMain, hpc]; rfl)
  | deletingPw ret =>
    exact goes_inDelete .pw h hhand hm (hcall.pwGoes ret hpc)
      (by simp only [State.runMain, hpc]; rfl)
  | deletingFp ret =>
    exact goes_inDelete .fp h hhand hm (hcall.fpGoes ret hpc)
      (by simp only [State.runMain, hpc]; rfl)

/-! ## A run -/

/-- A line is typed and the program interrupted while the child runs. -/
def sampleJoining : List Input :=
  sampleTyped ++ pwWorks 1 none ++ pwWorks 3 (some 7) ++ [.interrupt] ++ mainSteps 16

theorem joiningRun_isSome : (machine.exec (start true true) sampleJoining).isSome = true := by
  decide

/-- `main` waits for the worker, and that for the child. -/
def joiningRun : State × List Item :=
  (machine.exec (start true true) sampleJoining).get joiningRun_isSome

theorem coordinator_goes_on_joiningRun :
    joiningRun.1.main = .deletingPw 1 ∧ GoesOn joiningRun.1 := by
  have hmain : joiningRun.1.main = .deletingPw 1 := by decide
  refine ⟨hmain, coordinator_goes_on (Machine.reach_exec (start_init true true) joiningRun_isSome)
    (by decide) fun ret he => ?_⟩
  rw [hmain] at he
  cases he

end Auth.Coordinator
