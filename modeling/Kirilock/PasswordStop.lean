import Kirilock.PasswordAnswer

/-!
Answers after a `stop`.

A call of `stop` is followed through the run, from the step in which it clears
`is_running_` (`followed`), and no `verify` sets the flag again (`NoVerify`).  Once the
call has returned, the worker calls neither `on_finish` nor `on_error` (`Quiet`): the
flag it tests is clear.  But it may have tested it before, and it does not test it
where `fork` fails.  So this holds in the runs without these two (`Unanswered`), and
`stop_answered` is a run where the attempt that was stopped is reported as a success.
-/

namespace Auth.Password

open Runs

/-! ## One call of `stop` -/

/-- Who called it: the client, or the `i`-th of the other threads. -/
inductive Caller where
  | client
  | other (i : Nat)
  deriving DecidableEq, Repr

def State.stopAt (s : State) : Caller → Option StopPc
  | .client => s.client.stops.head?
  | .other i => s.stops[i]?

/-- The step is one of this call. -/
def Caller.moves : Caller → Input → Bool
  | .client, .client _ => true
  | .other i, .other j => i == j
  | _, _ => false

/-- A call of `stop` returns in this step. -/
def State.returns (s : State) (i : Input) : Bool :=
  (s.moving i).any fun pc => (s.obj.stop pc).1.isNone

/-- The name of a call after a step in which it does not return; `gone` says that one does. -/
def Caller.shift (gone : Bool) : Caller → Input → Caller
  | .other k, .otherStop => .other (k + 1)
  | .other k, .other j => .other (if j < k ∧ gone = true then k - 1 else k)
  | c, _ => c

/-- Where the call is after a step; nowhere, where it returned. -/
def State.follow (s : State) (i : Input) (c : Caller) : Option Caller :=
  if c.moves i && s.returns i then none else some (c.shift (s.returns i) i)

/-- The runs from `s1` on, with the call `c`. -/
def followed (s1 : State) (c : Caller) : Machine (State × Option Caller) Input Item :=
  (machine.after s1).noting (some c) fun c s i => c.bind (s.follow i)

theorem followed_init (s1 : State) (c : Caller) : (followed s1 c).init (s1, some c) := ⟨rfl, rfl⟩

/-! ## The rule -/

/-- No `verify` sets `is_running_`. -/
def NoVerify (s : State) : Input → Prop
  | .client _ =>
    match s.client with
    | .compare _ => s.obj.isRunning = true
    | _ => True
  | _ => True

instance (s : State) (i : Input) : Decidable (NoVerify s i) := by
  rcases i with _ | _
  case client ok =>
    dsimp only [NoVerify]
    rcases s.client with _ | _ <;> dsimp only <;> infer_instance
  all_goals exact isTrue trivial

/-- No step from here calls `on_finish` or `on_error`. -/
def Quiet (s : State) : Prop :=
  ∀ i s' out, machine.step s i = some (s', out) → ∀ n h, .handler n h ∈ out → h.isVerdict = false

/-- The handler that the worker is about to call for a verdict. -/
def WorkerPc.verdict : WorkerPc → Option Handler
  | .report status => some (Password.verdict status)
  | .forkFailed => some (.onError .system "fork() failed")
  | _ => none

/-- The worker is about to call `on_finish` or `on_error`, and it is set. -/
def State.answers (s : State) : Bool :=
  s.worker.any fun w => w.pc.verdict.any s.obj.handlers.has

/-- `fork` fails in this step, and `on_error` is set. -/
def State.forkFails (s : State) : Input → Bool
  | .worker o => s.worker.any (·.pc == .fork) && o.fork.isNone && s.obj.handlers.onError
  | _ => false

/-- The call does not return where the worker is about to answer, and `fork` does not fail after
it. -/
@[mk_iff]
structure Unanswered (s : State × Option Caller) (i : Input) : Prop where
  answer : s.2.isSome = true → s.2.bind (s.1.follow i) = none → s.1.answers = false
  fork : s.2 = none → s.1.forkFails i = false

instance (s : State × Option Caller) (i : Input) : Decidable (Unanswered s i) :=
  decidable_of_iff _ (unanswered_iff s i).symm

/-- In this step the call finds `is_running_` true. -/
structure Clears (s0 : State) (c : Caller) (i : Input) (s1 : State) : Prop where
  moves : c.moves i = true
  called : s0.stopAt c = some .compare
  running : s0.obj.isRunning = true
  step : ∃ out, machine.step s0 i = some (s1, out)

/-! ## Following a call -/

section Follow

variable {s s' : State} {i : Input} {out : List Item}

theorem runClient_stops {ok : Bool} (h : s.runClient ok = some (s', out)) :
    s'.stops = s.stops := by
  simp only [State.runClient, State.clientAt, State.setObj] at h
  repeat' split at h
  all_goals first | (cases h; done) | (cases h; rfl)

/-- The client in `stop`. -/
theorem runClient_stop {ok : Bool} {pc : StopPc} (hpc : s.client.stops.head? = some pc)
    (h : s.runClient ok = some (s', out)) :
    s'.client.stops.head? = (s.obj.stop pc).1 := by
  cases hcl : s.client with
  | stop pc' =>
    rw [hcl] at hpc
    cases hpc
    rw [State.runClient, hcl] at h
    cases h
    cases (s.obj.stop pc).1 <;> rfl
  | deleteStop pc' =>
    rw [hcl] at hpc
    cases hpc
    rw [State.runClient, hcl] at h
    cases h
    cases (s.obj.stop pc).1 <;> rfl
  | _ =>
    rw [hcl] at hpc
    cases hpc

theorem moving_of_moves {c : Caller} (h : c.moves i = true) : s.moving i = s.stopAt c := by
  cases c with
  | client =>
    cases i with
    | client ok => rfl
    | _ => cases h
  | other k =>
    cases i with
    | other j =>
      have hk : k = j := by simpa [Caller.moves] using h
      rw [hk]
      rfl
    | _ => cases h

/-- The other calls keep their places where the `j`-th goes on or returns. -/
theorem getElem?_replace {l : List StopPc} {j k : Nat} (hj : j < l.length) (hk : k ≠ j)
    (pc' : Option StopPc) :
    (l.take j ++ pc'.toList ++ l.drop (j + 1))[if j < k ∧ pc'.isNone = true then k - 1 else k]? =
      l[k]? := by
  rcases Nat.lt_or_gt_of_ne hk with hlt | hgt
  · have hif : ¬(j < k ∧ pc'.isNone = true) := fun h => by omega
    rw [if_neg hif, List.append_assoc, List.getElem?_append_left (by simp; omega),
      List.getElem?_take_of_lt hlt]
  · cases pc' with
    | none =>
      rw [if_pos ⟨hgt, rfl⟩, Option.toList_none, List.append_nil,
        List.getElem?_append_right (by simp; omega), List.getElem?_drop, List.length_take]
      congr 1
      omega
    | some pc' =>
      rw [if_neg fun h => absurd h.2 nofun, List.getElem?_append_right (by simp; omega),
        List.getElem?_drop]
      congr 1
      simp
      omega

/-- The `stop` of another thread goes on. -/
theorem other_stops {j : Nat} (hs : machine.step s (.other j) = some (s', out)) :
    ∃ pc, s.stops[j]? = some pc ∧ s'.client = s.client ∧
      s'.stops = s.stops.take j ++ (s.obj.stop pc).1.toList ++ s.stops.drop (j + 1) := by
  simp only [machine, State.step] at hs
  split at hs
  · cases hs
  · rename_i pc hat
    cases hs
    exact ⟨pc, hat, rfl, rfl⟩

/-- An idle client is in no `stop`. -/
theorem stopAt_of_idle {c : Caller} {pc : StopPc} (hpc : s.client = .idle)
    (hc : s.stopAt c = some pc) (hstops : s'.stops = s.stops) : s'.stopAt c = some pc := by
  cases c with
  | client =>
    rw [State.stopAt, hpc] at hc
    cases hc
  | other k =>
    show s'.stops[k]? = some pc
    rw [hstops]
    exact hc

/-- A step leaves the calls that are not its own. -/
theorem stopAt_shift {c : Caller} {pc : StopPc} (hc : s.stopAt c = some pc)
    (hm : c.moves i = false) (hs : machine.step s i = some (s', out)) :
    s'.stopAt (c.shift (s.returns i) i) = some pc := by
  cases i with
  | other j =>
    obtain ⟨pcj, hat, hclient, hstops⟩ := other_stops hs
    cases c with
    | client =>
      show s'.client.stops.head? = some pc
      rw [hclient]
      exact hc
    | other k =>
      have hk : k ≠ j := by simpa [Caller.moves] using hm
      have hreturns : s.returns (.other j) = (s.obj.stop pcj).1.isNone := by
        simp [State.returns, State.moving, hat]
      show s'.stops[if j < k ∧ s.returns (.other j) = true then k - 1 else k]? = some pc
      rw [hstops, hreturns, getElem?_replace (List.getElem?_eq_some_iff.mp hat).1 hk]
      exact hc
  | client ok =>
    cases c with
    | client => cases hm
    | other k =>
      show s'.stops[k]? = some pc
      rw [runClient_stops hs]
      exact hc
  | otherStop =>
    cases machine_step hs with
    | otherStop hpc => cases c <;> exact hc
    | stopStep _ _ _ _ _ _ _ hi => cases hi
  | worker o =>
    cases machine_step hs with
    | worker => cases c <;> exact hc
    | stopStep _ _ _ _ _ _ _ hi => cases hi
  | childEnds pid run =>
    cases machine_step hs with
    | childEnds => cases c <;> exact hc
    | stopStep _ _ _ _ _ _ _ hi => cases hi
  | verify pass =>
    cases machine_step hs with
    | verify _ hpc => cases c <;> exact stopAt_of_idle hpc hc rfl
    | stopStep _ _ _ _ _ _ _ hi => cases hi
  | stop =>
    cases machine_step hs with
    | stop hpc => cases c <;> exact stopAt_of_idle hpc hc rfl
    | stopStep _ _ _ _ _ _ _ hi => cases hi
  | delete =>
    cases machine_step hs with
    | delete hpc => cases c <;> exact stopAt_of_idle hpc hc rfl
    | stopStep _ _ _ _ _ _ _ hi => cases hi

/-- The call that is followed is one call: it goes on in its own steps, and stays where it is in
the others. -/
theorem follow_stopAt {c : Caller} {pc : StopPc} (hc : s.stopAt c = some pc)
    (hs : machine.step s i = some (s', out)) :
    (s.follow i c).bind s'.stopAt = if c.moves i then (s.obj.stop pc).1 else some pc := by
  cases hm : c.moves i with
  | false =>
    rw [State.follow, hm]
    exact stopAt_shift hc hm hs
  | true =>
    have hmoving : s.moving i = some pc := (moving_of_moves hm).trans hc
    have hreturns : s.returns i = (s.obj.stop pc).1.isNone := by simp [State.returns, hmoving]
    cases hr : (s.obj.stop pc).1 with
    | none =>
      rw [State.follow, hm, hreturns, hr]
      rfl
    | some pc' =>
      have hfollow : s.follow i c = some (c.shift false i) := by
        rw [State.follow, hm, hreturns, hr]
        rfl
      rw [hfollow]
      cases c with
      | client =>
        cases i with
        | client ok => exact (runClient_stop hc hs).trans hr
        | _ => cases hm
      | other k =>
        cases i with
        | other j =>
          have hk : k = j := by simpa [Caller.moves] using hm
          subst hk
          obtain ⟨pc1, hat, -, hstops⟩ := other_stops hs
          have hsame : pc1 = pc := Option.some.inj (hat.symm.trans hc)
          have hlt := (List.getElem?_eq_some_iff.mp hat).1
          show s'.stops[if k < k ∧ false = true then k - 1 else k]? = some pc'
          rw [hstops, hsame, hr, if_neg fun h => absurd h.2 nofun]
          simp [Nat.min_eq_left (Nat.le_of_lt hlt)]
        | _ => cases hm

end Follow

/-! ## The invariant -/

structure QuietInv (s : State × Option Caller) : Prop where
  cleared : s.1.obj.isRunning = false
  call : ∀ c, s.2 = some c → ∃ pc, s.1.stopAt c = some pc ∧ pc ≠ .compare
  quiet : s.2 = none → s.1.answers = false

section Steps

variable {s s' : State}

theorem StopStep.keepsCleared {p p' : Members} {pc : StopPc} {pc' : Option StopPc} {out : List Item}
    (h : StopStep p pc pc' p' out) (hp : p.isRunning = false) : p'.isRunning = false := by
  cases h with
  | claimed hr => rfl
  | _ => exact hp

theorem StopStep.handlers {p p' : Members} {pc : StopPc} {pc' : Option StopPc} {out : List Item}
    (h : StopStep p pc pc' p' out) : p'.handlers = p.handlers := by
  cases h <;> rfl

/-- Without a `verify` the client does not set the flag. -/
theorem ClientStep.keepsCleared {p : Members} {w : Option Worker} {pc : ClientPc} {out : List Item}
    (h : ClientStep s p w pc out) {ok : Bool} (hok : NoVerify s (.client ok))
    (hp : s.obj.isRunning = false) : p.isRunning = false := by
  cases h with
  | claimed pass hpc hr =>
    simp only [NoVerify, hpc] at hok
    rw [hr] at hok
    cases hok
  | caught hpc => rfl
  | failed hpc => exact s.obj.clearCandidate_isRunning.trans hp
  | deleteCleared hpc => exact s.obj.clearCandidate_isRunning.trans hp
  | _ => exact hp

/-- The client answers nothing. -/
theorem ClientStep.answers {p : Members} {w : Option Worker} {pc : ClientPc} {out : List Item}
    (h : ClientStep s p w pc out) (hs : s.answers = false) :
    ({ s with obj := p, worker := w, client := pc } : State).answers = false := by
  cases h with
  | failed hpc =>
    show (s.worker.any fun w => w.pc.verdict.any s.obj.clearCandidate.1.handlers.has) = false
    rw [s.obj.clearCandidate_handlers]
    exact hs
  | deleteCleared hpc =>
    show (s.worker.any fun w => w.pc.verdict.any s.obj.clearCandidate.1.handlers.has) = false
    rw [s.obj.clearCandidate_handlers]
    exact hs
  | joined => rfl
  | created => rfl
  | deleteJoined => rfl
  | _ => exact hs

theorem WorkerStep.keepsCleared {w : Worker} {o : WorkerOutcomes} {p : Members} {cs : List Child}
    {pc : WorkerPc} {out : List Item} (h : WorkerStep s w o p cs pc out)
    (hp : s.obj.isRunning = false) : p.isRunning = false := by
  cases h with
  | cleared hpc => exact s.obj.clearCandidate_isRunning.trans hp
  | stopped hpc => rfl
  | _ => exact hp

/-- Where the flag is clear the worker comes to an answer only by a `fork` that fails. -/
theorem WorkerStep.answers {w : Worker} {o : WorkerOutcomes} {p : Members} {cs : List Child}
    {pc : WorkerPc} {out : List Item} (h : WorkerStep s w o p cs pc out) (hw : s.worker = some w)
    (hp : s.obj.isRunning = false) (hfork : s.forkFails (.worker o) = false) :
    (s.worked w p cs pc).answers = false := by
  have hnone : ∀ {p : Members} {cs : List Child} {pc : WorkerPc}, pc.verdict = none →
      (s.worked w p cs pc).answers = false := fun {p cs pc} hpc => by
    show pc.verdict.any p.handlers.has = false
    rw [hpc]
    rfl
  cases h with
  | called hpc =>
    generalize w.pc = wpc at hpc
    refine hnone ?_
    cases hpc <;> rfl
  | tested hpc =>
    rw [hp] at hpc
    generalize w.pc = wpc at hpc
    refine hnone ?_
    cases hpc <;> rfl
  | notForked hpc ho =>
    show s.obj.handlers.onError = false
    simpa [State.forkFails, hw, hpc, ho] using hfork
  | _ => exact hnone rfl

end Steps

theorem answers_step {s s' : State} {i : Input} {out : List Item}
    (hs : machine.step s i = some (s', out)) (hp : s.obj.isRunning = false)
    (hfork : s.forkFails i = false) (ha : s.answers = false) : s'.answers = false := by
  cases machine_step hs with
  | client ok p w pc out h => exact h.answers ha
  | stopStep i pc pc' client stops p out hi hr h =>
    show (s.worker.any fun w => w.pc.verdict.any p.handlers.has) = false
    rw [h.handlers]
    exact ha
  | worker o w p cs pc out hw h => exact h.answers hw hp hfork
  | _ => exact ha

theorem cleared_step {s s' : State} {i : Input} {out : List Item}
    (hs : machine.step s i = some (s', out)) (hok : NoVerify s i) (hp : s.obj.isRunning = false) :
    s'.obj.isRunning = false := by
  cases machine_step hs with
  | client ok p w pc out h => exact h.keepsCleared hok hp
  | stopStep i pc pc' client stops p out hi hr h => exact h.keepsCleared hp
  | worker o w p cs pc out hw h => exact h.keepsCleared hp
  | _ => exact hp

/-- A call goes on past its compare-exchange. -/
theorem follow_some {s s' : State} {i : Input} {out : List Item} {c c' : Caller} {pc : StopPc}
    (hc : s.stopAt c = some pc) (hs : machine.step s i = some (s', out))
    (hf : s.follow i c = some c') (hpc : c.moves i = false → pc ≠ .compare) :
    ∃ pc', s'.stopAt c' = some pc' ∧ pc' ≠ .compare := by
  have hat := follow_stopAt hc hs
  rw [hf] at hat
  cases hm : c.moves i with
  | false =>
    rw [hm] at hat
    exact ⟨pc, hat, hpc hm⟩
  | true =>
    rw [hm] at hat
    have hmoving : s.moving i = some pc := (moving_of_moves hm).trans hc
    have hstep := s.obj.stop_step pc
    cases hr : (s.obj.stop pc).1 with
    | none =>
      have hreturns : s.returns i = true := by simp [State.returns, hmoving, hr]
      rw [State.follow, hm, hreturns] at hf
      cases hf
    | some pc' =>
      rw [hr] at hat hstep
      refine ⟨pc', hat, ?_⟩
      generalize (s.obj.stop pc).2.1 = p, (s.obj.stop pc).2.2 = out at hstep
      cases hstep <;> exact nofun

theorem Caller.shift_self {c : Caller} {i : Input} (h : c.moves i = true) :
    c.shift false i = c := by
  cases c with
  | client => cases i <;> rfl
  | other k =>
    cases i with
    | other j =>
      show Caller.other (if j < k ∧ false = true then k - 1 else k) = .other k
      rw [if_neg fun h => absurd h.2 nofun]
    | _ => cases h

theorem quietInv_reach {s0 s1 : State} {c : Caller} {i : Input} (h0 : Clears s0 c i s1)
    {s : State × Option Caller} {tr : List Item}
    (h : (followed s1 c).ReachIf (fun s _ i => NoVerify s.1 i ∧ Unanswered s i) s tr) :
    QuietInv s := by
  refine h.invariant (I := fun s _ => QuietInv s) ?_ ?_
  · rintro ⟨s, w⟩ ⟨rfl, rfl⟩
    obtain ⟨out, hs⟩ := h0.step
    have hmoving : s0.moving i = some .compare := (moving_of_moves h0.moves).trans h0.called
    have hfollow : s0.follow i c = some c := by
      have hreturns : s0.returns i = false := by
        simp [State.returns, hmoving, Members.stop, h0.running]
      rw [State.follow, hreturns, Bool.and_false, Caller.shift_self h0.moves]
      rfl
    refine ⟨?_, fun c' hc' => ?_, by rintro ⟨⟩⟩
    · obtain ⟨pc', hstop⟩ := step_moving hmoving hs
      generalize s.obj = p at hstop
      cases hstop with
      | claimed hr => rfl
      | refused hr => exact hr
    · cases hc'
      refine follow_some h0.called hs hfollow fun hm => ?_
      exact absurd (h0.moves.symm.trans hm) (by simp)
  · rintro ⟨s, w⟩ tr i ⟨s', w'⟩ out ⟨hclear, hcall, hquiet⟩ ⟨hverify, hok⟩ hs
    obtain ⟨hs, rfl⟩ := Machine.noting_step hs
    refine ⟨cleared_step hs hverify hclear, fun c' hc' => ?_, fun hw => ?_⟩
    · obtain ⟨c, rfl, hf⟩ := Option.bind_eq_some_iff.mp hc'
      obtain ⟨pc, hat, hpc⟩ := hcall c rfl
      exact follow_some hat hs hf fun _ => hpc
    · cases w with
      | none => exact answers_step hs hclear (hok.fork rfl) (hquiet rfl)
      | some c =>
        -- the step is one of the call, which returns
        have hf : s.follow i c = none := hw
        have hfork : s.forkFails i = false := by
          cases i with
          | worker o =>
            have hreturns : s.returns (.worker o) = false := rfl
            rw [State.follow, hreturns, Bool.and_false] at hf
            cases hf
          | _ => rfl
        exact answers_step hs hclear hfork (hok.answer rfl hw)

/-! ## Every run -/

theorem ClientStep.handlerless {s : State} {p : Members} {w : Option Worker} {pc : ClientPc}
    {out : List Item} (h : ClientStep s p w pc out) (n : Nat) (hd : Handler) :
    .handler n hd ∉ out := by
  cases h with
  | failed hpc =>
    intro hx
    rcases List.mem_append.mp hx with hx | hx
    · obtain ⟨bytes, he⟩ := s.obj.clearCandidate_items _ hx
      cases he
    · cases List.mem_singleton.mp hx
  | deleteCleared hpc =>
    intro hx
    obtain ⟨bytes, he⟩ := s.obj.clearCandidate_items _ hx
    cases he
  | deleted hpc hs => split <;> simp
  | _ => simp

/-- A worker that is not about to answer does not. -/
theorem WorkerStep.quiet {s : State} {w : Worker} {o : WorkerOutcomes} {p : Members}
    {cs : List Child} {pc : WorkerPc} {out : List Item} (h : WorkerStep s w o p cs pc out)
    (ha : w.pc.verdict.any s.obj.handlers.has = false) {n : Nat} {hd : Handler}
    (hx : .handler n hd ∈ out) : hd.isVerdict = false := by
  cases h with
  | @called h pc hpc =>
    have hset : s.obj.handlers.has h = true := by
      by_contra hset
      rw [Members.invoke, if_neg hset] at hx
      cases hx
    cases s.obj.invoke_items _ _ _ hx
    generalize w.pc = wpc at hpc ha
    cases hpc with
    | report status => exact absurd (ha.symm.trans hset) nofun
    | forkFailed => exact absurd (ha.symm.trans hset) nofun
    | _ => rfl
  | cleared hpc =>
    obtain ⟨bytes, he⟩ := s.obj.clearCandidate_items _ hx
    cases he
  | _ => simp at hx

theorem quiet_of_answers {s : State} (ha : s.answers = false) : Quiet s := by
  intro i s' out hs n hd hx
  cases machine_step hs with
  | client ok p w pc out h => exact absurd hx (h.handlerless n hd)
  | stopStep i pc pc' client stops p out hi hr h => cases h <;> simp at hx
  | worker o w p cs pc out hw h =>
    rw [State.answers, hw] at ha
    exact h.quiet ha hx
  | _ => simp at hx

/-- **Once a `stop` that found `is_running_` true has returned the worker does not answer**, in
every run where it does not return between the test and the answer, and `fork` does not fail
after it. -/
theorem stop_quiet {s0 s1 : State} {c : Caller} {i : Input} (h0 : Clears s0 c i s1)
    {s : State × Option Caller} {tr : List Item}
    (h : (followed s1 c).ReachIf (fun s _ i => NoVerify s.1 i ∧ Unanswered s i) s tr) :
    (∀ c, s.2 = some c → ∃ pc, s.1.stopAt c = some pc ∧ pc ≠ .compare) ∧
      (s.2 = none → Quiet s.1) := by
  have hinv := quietInv_reach h0 h
  exact ⟨hinv.call, fun hw => quiet_of_answers (hinv.quiet hw)⟩

/-- A run up to a call of `stop` on another thread. -/
def calledAfter (is : List Input) (h : (machine.exec (start allHandlers) is).isSome) : State :=
  ((machine.exec (start allHandlers) is).get h).1

/-- The child asks for the password. -/
def sampleAsked : List Input := sampleVerify [115, 101] 7 ++ [Input.otherStop]

/-- The child has succeeded, and the worker has tested the flag. -/
def sampleTested : List Input :=
  sampleVerify [115, 101] 7 ++ [Input.childEnds 7 (.pam ⟨0, 0, 0⟩)] ++
  List.replicate 3 (Input.worker ⟨none, true⟩) ++ [Input.otherStop]

theorem sampleAsked_isSome : (machine.exec (start allHandlers) sampleAsked).isSome = true := by
  decide

theorem sampleTested_isSome : (machine.exec (start allHandlers) sampleTested).isSome = true := by
  decide

def askedState : State := calledAfter sampleAsked sampleAsked_isSome

def testedState : State := calledAfter sampleTested sampleTested_isSome

/-- The call goes past its compare-exchange. -/
def State.cleared (s : State) (h : (machine.step s (.other 0)).isSome) : State :=
  ((machine.step s (.other 0)).get h).1

theorem asked_isSome : (machine.step askedState (.other 0)).isSome = true := by decide

theorem tested_isSome : (machine.step testedState (.other 0)).isSome = true := by decide

theorem clears_of_step {s : State} (h : (machine.step s (.other 0)).isSome)
    (hc : s.stopAt (.other 0) = some .compare) (hr : s.obj.isRunning = true) :
    Clears s (.other 0) (.other 0) (s.cleared h) :=
  ⟨rfl, hc, hr, _, (Option.some_get h).symm⟩

/-- The `stop` kills the child and returns; the worker reaps it. -/
def sampleKilled : List Input :=
  [Input.other 0, .other 0, .childEnds 7 .killed] ++
  List.replicate 3 (Input.worker ⟨none, true⟩)

abbrev askedRuns : Machine (State × Option Caller) Input Item :=
  followed (askedState.cleared asked_isSome) (.other 0)

theorem killedRun_isSome :
    (askedRuns.exec (askedState.cleared asked_isSome, some (.other 0)) sampleKilled).isSome =
      true := by
  decide

def killedRun : (State × Option Caller) × List Item :=
  (askedRuns.exec (askedState.cleared asked_isSome, some (.other 0)) sampleKilled).get
    killedRun_isSome

theorem killedRun_unanswered : askedRuns.Meets (fun s _ i => NoVerify s.1 i ∧ Unanswered s i)
    (askedState.cleared asked_isSome, some (.other 0)) [] sampleKilled := by
  decide

/-- The call has returned there, and the worker is past its test. -/
theorem stop_quiet_killedRun :
    (killedRun.1.2 = none ∧ killedRun.1.1.worker = some ⟨1, .onEnd⟩) ∧
      (∀ c, killedRun.1.2 = some c → ∃ pc, killedRun.1.1.stopAt c = some pc ∧ pc ≠ .compare) ∧
      (killedRun.1.2 = none → Quiet killedRun.1.1) :=
  ⟨by decide,
    stop_quiet (clears_of_step asked_isSome (by decide) (by decide))
      (Machine.reachIf_exec (followed_init _ _) killedRun_unanswered killedRun_isSome)⟩

abbrev testedRuns : Machine (State × Option Caller) Input Item :=
  followed (testedState.cleared tested_isSome) (.other 0)

theorem returnedRun_isSome :
    (testedRuns.exec (testedState.cleared tested_isSome, some (.other 0)) [.other 0]).isSome =
      true := by
  decide

def returnedRun : (State × Option Caller) × List Item :=
  (testedRuns.exec (testedState.cleared tested_isSome, some (.other 0)) [.other 0]).get
    returnedRun_isSome

theorem returnedRun_noVerify : testedRuns.Meets (fun s _ i => NoVerify s.1 i)
    (testedState.cleared tested_isSome, some (.other 0)) [] [.other 0] := by
  decide

/-- **Not in every run**: the `stop` has returned, and the worker calls `on_finish`. -/
theorem stop_answered :
    ¬∀ s0 tr0 c i s1, machine.Reach s0 tr0 → Clears s0 c i s1 → ∀ s tr,
      (followed s1 c).ReachIf (fun s _ i => NoVerify s.1 i) s tr → s.2 = none → Quiet s.1 := by
  intro h
  have hquiet := h _ _ _ _ _ (Machine.reach_exec (start_init _) sampleTested_isSome)
    (clears_of_step tested_isSome (by decide) (by decide)) _ _
    (Machine.reachIf_exec (followed_init _ _) returnedRun_noVerify returnedRun_isSome)
    (by decide)
  have hs : (machine.step returnedRun.1.1 (.worker ⟨none, true⟩)).isSome = true := by
    decide
  have hanswer := hquiet _ _ _ (Option.some_get hs).symm 1 .onFinish (by decide)
  cases hanswer

end Auth.Password
