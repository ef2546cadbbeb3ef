import Kirilock.PasswordVerdict

/-!
One answer for each attempt.

A client alone calls `verify` and `stop`, and `fork` and `waitpid` succeed
(`Alone`).  An attempt that is not stopped is answered before its `on_end`: by
`on_finish` or `on_error`, as its child's status says (`AnswerSafe`).

`cleanup` stores false in `is_running_` even where a later `verify` has already set
it, and then the later attempt is taken for a stopped one.  So the answer comes in
the runs where `verify` sets the flag only after the worker before it has stored
(`ClaimsIdle`), and `answer_missing` is a run where it does not.
-/

namespace Auth.Password

open Runs

/-! ## The answer -/

/-- The call `n` of `verify`. -/
def Item.isVerify (n : Nat) : Item → Bool
  | .verify m _ => m == n
  | _ => false

/-- `stop` was called after the call `n` of `verify`. -/
def stopAfter (n : Nat) : List Item → Bool
  | [] => false
  | x :: tr => if x.isVerify n then tr.contains .stop else stopAfter n tr

def Handler.isVerdict : Handler → Bool
  | .onFinish => true
  | .onError _ _ => true
  | _ => false

def Item.verdictOf (n : Nat) : Item → Option Handler
  | .handler m h => if m = n ∧ h.isVerdict then some h else none
  | _ => none

/-- The calls of `on_finish` and `on_error` for an attempt. -/
def verdictsOf (n : Nat) (tr : List Item) : List Handler := tr.filterMap (Item.verdictOf n)

/-- From `on_end` on. -/
def WorkerPc.ending : WorkerPc → Bool
  | .onEnd => true
  | .loadStop => true
  | .onStop => true
  | .clearCandidate => true
  | .storeStopped => true
  | .exited => true
  | _ => false

/-- The attempt was started, and its worker has come to its `on_end`. -/
def Ended (s : State) (tr : List Item) (n : Nat) : Prop :=
  .started n ∈ tr ∧ ∀ w, s.worker = some w → w.attempt = n → w.pc.ending = true

/-- The handler of a verdict, once, where it is set. -/
def Handlers.answer (hs : Handlers) (h : Handler) : List Handler := if hs.has h then [h] else []

/-- An attempt that came to its `on_end` and was not stopped had its answer. -/
def AnswerSafe (s : State) (tr : List Item) : Prop :=
  ∀ n, Ended s tr n → stopAfter n tr = false →
    ∃ run, .childEnded n run ∈ tr ∧
      verdictsOf n tr = s.obj.handlers.answer (verdict run.status)

/-! ## The runs -/

/-- No thread but the client stops, and `fork` and `waitpid` succeed. -/
def Alone (s : State) : Input → Prop
  | .otherStop => False
  | .worker o =>
    match s.worker with
    | some ⟨_, .fork⟩ => o.fork.isSome = true
    | some ⟨_, .waitpid _⟩ => o.waitpid = true
    | _ => True
  | _ => True

/-- `verify` sets `is_running_` only where no worker has still to store false. -/
def ClaimsIdle (s : State) : Input → Prop
  | .client _ =>
    match s.client, s.worker with
    | .compare _, some w => s.obj.isRunning = false → w.pc = .exited
    | _, _ => True
  | _ => True

instance (s : State) (i : Input) : Decidable (Alone s i) := by
  rcases i with _ | _
  case otherStop => exact isFalse id
  case worker o =>
    dsimp only [Alone]
    rcases s.worker with - | ⟨n, _ | _⟩ <;> dsimp only <;> infer_instance
  all_goals exact isTrue trivial

instance (s : State) (i : Input) : Decidable (ClaimsIdle s i) := by
  rcases i with _ | _
  case client ok =>
    dsimp only [ClaimsIdle]
    rcases s.client with _ | _ <;> rcases s.worker with - | w <;> dsimp only <;> infer_instance
  all_goals exact isTrue trivial

theorem stopAfter_append {n : Nat} {tr out : List Item} (h : stopAfter n tr = true) :
    stopAfter n (tr ++ out) = true := by
  induction tr with
  | nil => cases h
  | cons x tr ih =>
    by_cases hx : x.isVerify n = true
    · have hs : Item.stop ∈ tr := by simpa [stopAfter, hx] using h
      simp [stopAfter, hx, hs]
    · simpa [stopAfter, hx] using ih (by simpa [stopAfter, hx] using h)

theorem stopAfter_stop {n : Nat} {tr out : List Item} {pass : List UInt8}
    (hv : .verify n pass ∈ tr) (hs : .stop ∈ out) : stopAfter n (tr ++ out) = true := by
  induction tr with
  | nil => cases hv
  | cons x tr ih =>
    by_cases hx : x.isVerify n = true
    · simp [stopAfter, hx, hs]
    · have hmem : Item.verify n pass ∈ tr :=
        (List.mem_cons.mp hv).resolve_left fun he => hx (by rw [← he]; simp [Item.isVerify])
      simpa [stopAfter, hx] using ih hmem

theorem not_stopAfter_of_append {n : Nat} {tr out : List Item}
    (h : stopAfter n (tr ++ out) = false) : stopAfter n tr = false := by
  by_contra hne
  have hstop : stopAfter n tr = true := by simpa using hne
  rw [stopAfter_append hstop] at h
  cases h

@[simp] theorem verdictsOf_append (n : Nat) (tr out : List Item) :
    verdictsOf n (tr ++ out) = verdictsOf n tr ++ verdictsOf n out := by
  simp [verdictsOf]

theorem verdictsOf_invoke (p : Members) (n m : Nat) (h : Handler) :
    verdictsOf m (p.invoke n h) =
      if n = m ∧ h.isVerdict = true then p.handlers.answer h else [] := by
  unfold Members.invoke Handlers.answer
  split
  · simp only [verdictsOf, List.filterMap_cons, List.filterMap_nil, Item.verdictOf]
    split <;> rename_i he <;> split at he <;> simp_all
  · split <;> rfl

/-- Items that call neither handler. -/
def Unjudged (out : List Item) : Prop := ∀ n, verdictsOf n out = []

/-! ## The invariant -/

/-- `verify` has set `is_running_`. -/
def ClientPc.claimed : ClientPc → Bool
  | .join _ => true
  | .assign _ => true
  | .create => true
  | .catchStore => true
  | .catchClear => true
  | _ => false

/-- `verify` is going to start its worker. -/
def ClientPc.launching : ClientPc → Bool
  | .join _ => true
  | .assign _ => true
  | .create => true
  | _ => false

structure AnswerInv (s : State) (tr : List Item) : Prop where
  stops : s.stops = []
  waited : ∀ n, waitpidFailed n tr = false
  forked : ∀ w, s.worker = some w → w.pc ≠ .forkFailed
  /-- the worker before has ended where `verify` has set the flag -/
  claimed : s.client.claimed = true → ∀ w, s.worker = some w → w.pc = .exited
  flag : s.client.launching = true → s.obj.isRunning = true
  stopping : s.client.stops ≠ [] → ∀ w, s.worker = some w → stopAfter w.attempt tr = true
  /-- only a `stop` clears the flag of an attempt that goes on -/
  running : ∀ w, s.worker = some w → w.pc ≠ .exited → stopAfter w.attempt tr = false →
    s.obj.isRunning = true
  unanswered : ∀ w, s.worker = some w → w.pc.ending = false → verdictsOf w.attempt tr = []
  answered : AnswerSafe s tr

/-- Items that call neither handler, start no attempt and wait for no child in vain. -/
structure Silent (out : List Item) : Prop where
  unjudged : Unjudged out
  started : ∀ n, .started n ∉ out
  waited : ∀ n pid, .waited n pid none ∉ out

theorem silent_of_attempt {out : List Item} (h : ∀ x ∈ out, x.attempt = none) : Silent out := by
  refine ⟨fun n => ?_, fun n hx => ?_, fun n pid hx => ?_⟩
  · unfold verdictsOf
    rw [List.filterMap_eq_nil_iff]
    intro x hx
    have hx := h x hx
    unfold Item.verdictOf
    split
    · cases hx
    · rfl
  · cases h _ hx
  · cases h _ hx

theorem Silent.waitpidFailed {tr out : List Item} (h : Silent out) {n : Nat}
    (hf : waitpidFailed n tr = false) : waitpidFailed n (tr ++ out) = false := by
  unfold Password.waitpidFailed at hf ⊢
  rw [List.any_append, hf, Bool.false_or, List.any_eq_false]
  intro x hx
  split
  · exact absurd hx (h.waited _ _)
  · exact Bool.false_ne_true

theorem Ended.of_append {s s' : State} {tr out : List Item} {n : Nat} (h : Ended s' (tr ++ out) n)
    (hout : .started n ∉ out)
    (hw : ∀ w, s.worker = some w → w.attempt = n → w.pc.ending = false →
      ∃ w', s'.worker = some w' ∧ w'.attempt = n ∧ w'.pc.ending = false) : Ended s tr n := by
  refine ⟨(List.mem_append.mp h.1).resolve_right hout, fun w hworker hn => ?_⟩
  by_contra hne
  obtain ⟨w', hw', hn', he⟩ := hw w hworker hn (by simpa using hne)
  rw [h.2 w' hw' hn'] at he
  cases he

/-- The worker does not come to its `on_end`. -/
theorem AnswerSafe.extend {s s' : State} {tr out : List Item} (h : AnswerSafe s tr)
    (hh : s'.obj.handlers = s.obj.handlers) (hout : Unjudged out) (hstart : ∀ n, .started n ∉ out)
    (hw : ∀ w, s.worker = some w → w.pc.ending = false →
      ∃ w', s'.worker = some w' ∧ w'.attempt = w.attempt ∧ w'.pc.ending = false) :
    AnswerSafe s' (tr ++ out) := by
  intro n he hs
  have hbefore : Ended s tr n := he.of_append (hstart n) fun w hworker hn hend => by
    obtain ⟨w', h1, h2, h3⟩ := hw w hworker hend
    exact ⟨w', h1, h2.trans hn, h3⟩
  obtain ⟨run, hrun, hv⟩ := h n hbefore (not_stopAfter_of_append hs)
  exact ⟨run, List.mem_append_left _ hrun,
      by rw [verdictsOf_append, hout n, List.append_nil, hv, hh]⟩

section Steps

variable {s : State} {tr : List Item}

/-- The worker stays where it is. -/
theorem AnswerInv.still (h : AnswerInv s tr) {s' : State} {out : List Item} (hout : Silent out)
    (hw : s'.worker = s.worker) (hstops : s'.stops = s.stops)
    (hh : s'.obj.handlers = s.obj.handlers)
    (hclaimed : s'.client.claimed = true → ∀ w, s.worker = some w → w.pc = .exited)
    (hflag : s'.client.launching = true → s'.obj.isRunning = true)
    (hstopping : s'.client.stops ≠ [] → ∀ w, s.worker = some w →
      stopAfter w.attempt (tr ++ out) = true)
    (hrunning : ∀ w, s.worker = some w → w.pc ≠ .exited → stopAfter w.attempt (tr ++ out) = false →
      s'.obj.isRunning = true) : AnswerInv s' (tr ++ out) where
  stops := hstops.trans h.stops
  waited n := hout.waitpidFailed (h.waited n)
  forked := hw ▸ h.forked
  claimed := hw ▸ hclaimed
  flag := hflag
  stopping := hw ▸ hstopping
  running := hw ▸ hrunning
  unanswered w hworker he := by
    rw [verdictsOf_append, hout.unjudged, List.append_nil]
    exact h.unanswered w (hw ▸ hworker) he
  answered := h.answered.extend hh hout.unjudged hout.started fun w hworker he =>
    ⟨w, hw ▸ hworker, rfl, he⟩

theorem ClientPc.claimed_of_launching {pc : ClientPc} (h : pc.launching = true) :
    pc.claimed = true := by
  cases pc <;> first
    | rfl
    | exact absurd h Bool.false_ne_true

/-- Nobody judges or starts an attempt, and `verify` has not set the flag. -/
theorem AnswerInv.unclaimed (h : AnswerInv s tr) {s' : State} {out : List Item}
    (hout : ∀ x ∈ out, x.attempt = none) (hw : s'.worker = s.worker)
    (hstops : s'.stops = s.stops) (hh : s'.obj.handlers = s.obj.handlers)
    (hpc : s'.client.claimed = false)
    (hstopping : s'.client.stops ≠ [] → ∀ w, s.worker = some w →
      stopAfter w.attempt (tr ++ out) = true)
    (hrunning : ∀ w, s.worker = some w → w.pc ≠ .exited → stopAfter w.attempt (tr ++ out) = false →
      s'.obj.isRunning = true) : AnswerInv s' (tr ++ out) := by
  refine h.still (silent_of_attempt hout) hw hstops hh (fun hc => ?_) (fun hl => ?_) hstopping
    hrunning
  · exact absurd (hpc.symm.trans hc) Bool.false_ne_true
  · exact absurd (hpc.symm.trans (ClientPc.claimed_of_launching hl)) Bool.false_ne_true

/-- The worker is joined. -/
theorem AnswerInv.joined (h : AnswerInv s tr) {s' : State}
    (hw : ∀ w, s.worker = some w → w.pc = .exited) (hw' : s'.worker = none)
    (hstops : s'.stops = s.stops) (hobj : s'.obj = s.obj)
    (hflag : s'.client.launching = true → s.obj.isRunning = true) :
    AnswerInv s' tr where
  stops := hstops.trans h.stops
  waited := h.waited
  forked w hworker := by rw [hw'] at hworker; cases hworker
  claimed _ w hworker := by rw [hw'] at hworker; cases hworker
  flag hl := hobj ▸ hflag hl
  stopping _ w hworker := by rw [hw'] at hworker; cases hworker
  running w hworker := by rw [hw'] at hworker; cases hworker
  unanswered w hworker := by rw [hw'] at hworker; cases hworker
  answered n he hs := by
    refine hobj ▸ h.answered n ⟨he.1, fun w hworker _ => ?_⟩ hs
    rw [hw w hworker]
    rfl

/-- The worker moves, and neither comes to its `on_end` nor calls one of the two handlers. -/
theorem AnswerInv.moves (h : AnswerInv s tr) {w : Worker} (hw : s.worker = some w)
    (hpc : w.pc ≠ .exited) {p : Members} {cs : List Child} {pc : WorkerPc} {out : List Item}
    (hout : Silent out) (hh : p.handlers = s.obj.handlers)
    (hrunning : pc = .exited ∨ p.isRunning = s.obj.isRunning) (hforked : pc ≠ .forkFailed)
    (hend : w.pc.ending = false → pc.ending = false)
    (hend' : pc.ending = false → w.pc.ending = false) :
    AnswerInv (s.worked w p cs pc) (tr ++ out) := by
  -- the client is in no `verify` that has set the flag
  have hclaimed : s.client.claimed = false := by
    by_contra hc
    exact hpc (h.claimed (by simpa using hc) w hw)
  have hlaunching : s.client.launching = false := by
    by_contra hl
    revert hclaimed hl
    cases s.client <;> simp [ClientPc.claimed, ClientPc.launching]
  refine ⟨h.stops, fun n => hout.waitpidFailed (h.waited n), fun w' hw' => ?_, fun hc => ?_,
    fun hl => ?_, fun hs w' hw' => ?_, fun w' hw' hne hs => ?_, fun w' hw' he => ?_, ?_⟩
  · cases hw'
    exact hforked
  · exact absurd (hclaimed.symm.trans hc) Bool.false_ne_true
  · exact absurd (hlaunching.symm.trans hl) Bool.false_ne_true
  · cases hw'
    exact stopAfter_append (h.stopping hs w hw)
  · cases hw'
    rcases hrunning with he | he
    · exact absurd he hne
    · exact he.trans (h.running w hw hpc (not_stopAfter_of_append hs))
  · cases hw'
    rw [verdictsOf_append, hout.unjudged, List.append_nil]
    exact h.unanswered w hw (hend' he)
  · refine h.answered.extend hh hout.unjudged hout.started fun w' hw' he => ?_
    rw [hw, Option.some.injEq] at hw'
    subst hw'
    exact ⟨_, rfl, rfl, hend he⟩

/-- The worker comes to its `on_end`. -/
theorem AnswerInv.ends (h : AnswerInv s tr) {w : Worker} (hw : s.worker = some w)
    (hpc : w.pc ≠ .exited) {out : List Item} (hstart : ∀ n, .started n ∉ out)
    (hwaited : ∀ n pid, .waited n pid none ∉ out)
    (hother : ∀ n, n ≠ w.attempt → verdictsOf n out = [])
    (hanswer : stopAfter w.attempt tr = false → ∃ run, .childEnded w.attempt run ∈ tr ∧
      verdictsOf w.attempt (tr ++ out) = s.obj.handlers.answer (verdict run.status)) :
    AnswerInv (s.worked w s.obj s.children .onEnd) (tr ++ out) := by
  have hclaimed : s.client.claimed = false := by
    by_contra hc
    exact hpc (h.claimed (by simpa using hc) w hw)
  have hlaunching : s.client.launching = false := by
    by_contra hl
    revert hclaimed hl
    cases s.client <;> simp [ClientPc.claimed, ClientPc.launching]
  refine ⟨h.stops, fun n => ?_, fun w' hw' => ?_, fun hc => ?_,
    fun hl => ?_, fun hs w' hw' => ?_, fun w' hw' hne hs => ?_, fun w' hw' he => ?_,
    fun n he hs => ?_⟩
  · have := h.waited n
    unfold Password.waitpidFailed at this ⊢
    rw [List.any_append, this, Bool.false_or, List.any_eq_false]
    intro x hx
    split
    · exact absurd hx (hwaited _ _)
    · exact Bool.false_ne_true
  · cases hw'
    exact nofun
  · exact absurd (hclaimed.symm.trans hc) Bool.false_ne_true
  · exact absurd (hlaunching.symm.trans hl) Bool.false_ne_true
  · cases hw'
    exact stopAfter_append (h.stopping hs w hw)
  · cases hw'
    exact h.running w hw hpc (not_stopAfter_of_append hs)
  · cases hw'
    cases he
  · by_cases hn : n = w.attempt
    · subst hn
      obtain ⟨run, hrun, hv⟩ := hanswer (not_stopAfter_of_append hs)
      exact ⟨run, List.mem_append_left _ hrun, hv⟩
    · have hbefore : Ended s tr n := he.of_append (hstart n) fun w' hw' hn' => by
        rw [hw, Option.some.injEq] at hw'
        exact absurd (hw' ▸ hn').symm hn
      obtain ⟨run, hrun, hv⟩ := h.answered n hbefore (not_stopAfter_of_append hs)
      refine ⟨run, List.mem_append_left _ hrun, ?_⟩
      rw [verdictsOf_append, hother n hn, List.append_nil]
      exact hv

end Steps

theorem verdict_isVerdict (status : Nat) : (verdict status).isVerdict = true := by
  unfold verdict
  split <;> rfl

theorem silent_invoke (p : Members) (n : Nat) {h : Handler} (hv : h.isVerdict = false) :
    Silent (p.invoke n h) := by
  refine ⟨fun m => ?_, fun m hx => ?_, fun m pid hx => ?_⟩
  · rw [verdictsOf_invoke, hv]
    simp
  · cases p.invoke_items n h _ hx
  · cases p.invoke_items n h _ hx

theorem WorkerStep.answerInv {s : State} {w : Worker} {o : WorkerOutcomes} {p : Members}
    {cs : List Child} {pc : WorkerPc} {out tr : List Item} (h : WorkerStep s w o p cs pc out)
    (hw : s.worker = some w) (hstatus : StatusInv s tr) (hinv : AnswerInv s tr)
    (hfork : w.pc = .fork → o.fork.isSome = true)
    (hwait : ∀ pid, w.pc = .waitpid pid → o.waitpid = true) :
    AnswerInv (s.worked w p cs pc) (tr ++ out) := by
  have hnil : Silent [] := ⟨fun _ => rfl, nofun, nofun⟩
  cases h with
  | called hpc =>
    generalize hwpc : w.pc = wpc at hpc
    cases hpc with
    | onBegin =>
      exact hinv.moves hw (by simp [hwpc]) (silent_invoke _ _ rfl) rfl (Or.inr rfl) nofun
        (fun _ => rfl) fun _ => by rw [hwpc]; rfl
    | forkFailed => exact absurd hwpc (hinv.forked w hw)
    | report status =>
      refine hinv.ends hw (by simp [hwpc]) (fun n hx => ?_) (fun n pid hx => ?_) (fun n hn => ?_)
        fun _ => ?_
      · cases s.obj.invoke_items _ _ _ hx
      · cases s.obj.invoke_items _ _ _ hx
      · rw [verdictsOf_invoke, if_neg fun he => hn he.1.symm]
      · rcases (hstatus.worker w hw).status status (by rw [hwpc]; rfl) with
          ⟨run, hrun, rfl⟩ | ⟨hf, -⟩
        · refine ⟨run, hrun, ?_⟩
          rw [verdictsOf_append, hinv.unanswered w hw (by rw [hwpc]; rfl), List.nil_append,
            verdictsOf_invoke, if_pos ⟨rfl, verdict_isVerdict _⟩]
        · rw [hinv.waited] at hf
          cases hf
    | onEnd =>
      exact hinv.moves hw (by simp [hwpc]) (silent_invoke _ _ rfl) rfl (Or.inr rfl) nofun
        (by simp [hwpc, WorkerPc.ending]) nofun
    | onStop =>
      exact hinv.moves hw (by simp [hwpc]) (silent_invoke _ _ rfl) rfl (Or.inr rfl) nofun
        (by simp [hwpc, WorkerPc.ending]) nofun
  | tested hpc =>
    generalize hr : s.obj.isRunning = running at hpc
    generalize hwpc : w.pc = wpc at hpc
    cases hpc with
    | verdictStopped status =>
      refine hinv.ends hw (by simp [hwpc]) nofun nofun (fun _ _ => rfl) fun hs => ?_
      -- the flag is false, so the attempt was stopped
      rw [hinv.running w hw (by simp [hwpc]) hs] at hr
      cases hr
    | _ =>
      exact hinv.moves hw (by simp [hwpc]) hnil rfl (Or.inr rfl) nofun
        (by simp [hwpc, WorkerPc.ending]) (by simp [hwpc, WorkerPc.ending])
  | notForked hpc ho =>
    have := hfork hpc
    rw [ho] at this
    cases this
  | waitFailed pid hpc ho =>
    rw [hwait pid hpc] at ho
    cases ho
  | cleared hpc =>
    exact hinv.moves hw (by simp [hpc]) (silent_of_attempt s.obj.clearCandidate_attempt)
      s.obj.clearCandidate_handlers (Or.inr s.obj.clearCandidate_isRunning) nofun
      (by simp [hpc, WorkerPc.ending]) nofun
  | stopped hpc =>
    exact hinv.moves hw (by simp [hpc]) hnil rfl (Or.inl rfl) nofun
      (by simp [hpc, WorkerPc.ending]) nofun
  | _ =>
    exact hinv.moves hw (by simp [*]) ⟨fun _ => rfl, by simp, by simp⟩ rfl (Or.inr rfl) nofun
      (by simp [*, WorkerPc.ending]) (by simp [*, WorkerPc.ending])

/-- Where nothing was stopped, the flag is what it was for the worker. -/
theorem AnswerInv.runs (h : AnswerInv s tr) {out : List Item} (w : Worker)
    (hw : s.worker = some w) (hne : w.pc ≠ .exited)
    (hs : stopAfter w.attempt (tr ++ out) = false) : s.obj.isRunning = true :=
  h.running w hw hne (not_stopAfter_of_append hs)

/-- Nothing was known of an attempt that did not exist. -/
theorem verdictsOf_unborn {n : Nat} {tr : List Item} (h : ∀ x ∈ tr, x.attempt ≠ some n) :
    verdictsOf n tr = [] := by
  unfold verdictsOf
  refine List.filterMap_eq_nil_iff.mpr fun x hx => ?_
  have hne := h x hx
  unfold Item.verdictOf
  split
  · exact if_neg fun he => hne (congrArg some he.1)
  · rfl

theorem ClientStep.answerInv {s : State} {ok : Bool} {p : Members} {w : Option Worker}
    {pc : ClientPc} {out tr : List Item} (h : ClientStep s p w pc out) (hnumbered : Numbered s tr)
    (hjoin : s.client.unjoinable = true → s.worker = none) (hidle : ClaimsIdle s (.client ok))
    (hinv : AnswerInv s tr) :
    AnswerInv { s with obj := p, worker := w, client := pc } (tr ++ out) := by
  have hnone : ∀ x ∈ ([] : List Item), x.attempt = none := by simp
  cases h with
  | refused pass hpc hr =>
    exact hinv.unclaimed (by simp [Item.attempt]) rfl rfl rfl rfl (fun h => absurd rfl h) hinv.runs
  | claimed pass hpc hr =>
    refine hinv.still (silent_of_attempt hnone) rfl rfl rfl (fun _ w hw => ?_) (fun _ => rfl)
      (fun h => absurd rfl h) fun _ _ _ _ => rfl
    simp only [ClaimsIdle, hpc, hw] at hidle
    exact hidle hr
  | joined pass hpc hw =>
    rw [List.append_nil]
    exact hinv.joined hw rfl rfl rfl fun _ => hinv.flag (by rw [hpc]; rfl)
  | threw hpc =>
    refine hinv.still (silent_of_attempt hnone) rfl rfl rfl (fun _ => hinv.claimed ?_)
      (by rintro ⟨⟩) (fun h => absurd rfl h) hinv.runs
    generalize s.client = client at hpc
    cases hpc <;> rfl
  | assigned pass hpc =>
    exact hinv.still (silent_of_attempt hnone) rfl rfl rfl
      (fun _ => hinv.claimed (by rw [hpc]; rfl)) (fun _ => hinv.flag (by rw [hpc]; rfl))
      (fun h => absurd rfl h) hinv.runs
  | created hpc =>
    have hgone := hjoin (by rw [hpc]; rfl)
    have hborn := hnumbered.unborn s.verifies (Or.inr ⟨by rw [hpc]; rfl, rfl⟩)
    refine ⟨hinv.stops, fun n => ?_, fun w hw => ?_, by rintro ⟨⟩, by rintro ⟨⟩,
      fun h => absurd rfl h, fun w hw _ _ => ?_, fun w hw _ => ?_, fun n he hs => ?_⟩
    · have := hinv.waited n
      simpa [waitpidFailed] using this
    · cases hw
      rintro ⟨⟩
    · exact hinv.flag (by rw [hpc]; rfl)
    · cases hw
      rw [verdictsOf_append, verdictsOf_unborn hborn]
      rfl
    · by_cases hn : n = s.verifies
      · exact absurd (he.2 _ rfl hn.symm) (by simp [WorkerPc.ending])
      · have hbefore : Ended s tr n := by
          refine ⟨(List.mem_append.mp he.1).resolve_right ?_, fun w hw => ?_⟩
          · simp [hn]
          · rw [hgone] at hw
            cases hw
        obtain ⟨run, hrun, hv⟩ := hinv.answered n hbefore (not_stopAfter_of_append hs)
        refine ⟨run, List.mem_append_left _ hrun, ?_⟩
        rw [verdictsOf_append, hv]
        exact List.append_nil _
  | caught hpc =>
    refine hinv.still (silent_of_attempt hnone) rfl rfl rfl
      (fun _ => hinv.claimed (by rw [hpc]; rfl)) (by rintro ⟨⟩) (fun h => absurd rfl h)
      fun w hw hne => ?_
    exact absurd (hinv.claimed (by rw [hpc]; rfl) w hw) hne
  | failed hpc =>
    refine hinv.unclaimed (fun x hx => ?_) rfl rfl s.obj.clearCandidate_handlers rfl
      (fun h => absurd rfl h) fun w hw hne hs => ?_
    · rcases List.mem_append.mp hx with hx | hx
      · exact s.obj.clearCandidate_attempt x hx
      · rw [List.mem_singleton.mp hx]
        rfl
    · exact s.obj.clearCandidate_isRunning.trans (hinv.runs w hw hne hs)
  | deleteJoined hpc hw =>
    rw [List.append_nil]
    exact hinv.joined hw rfl rfl rfl (by rintro ⟨⟩)
  | deleteCleared hpc =>
    refine hinv.unclaimed s.obj.clearCandidate_attempt rfl rfl s.obj.clearCandidate_handlers rfl
      (fun h => absurd rfl h) fun w hw hne hs => ?_
    exact s.obj.clearCandidate_isRunning.trans (hinv.runs w hw hne hs)
  | deleted hpc hs' =>
    refine hinv.unclaimed ?_ rfl rfl rfl rfl (fun h => absurd rfl h) hinv.runs
    split <;> simp [Item.attempt]

theorem answerInv_reach {s : State} {tr : List Item}
    (h : machine.ReachIf (fun s _ i => Alone s i ∧ ClaimsIdle s i) s tr) : AnswerInv s tr := by
  refine h.invariant_of (J := fun s tr => StatusInv s tr ∧ Numbered s tr ∧
    (s.client.unjoinable = true → s.worker = none))
    (fun h => ⟨statusInv_reach h, numbered_reach h, unjoinable_reach h⟩) ?_ ?_
  · rintro s ⟨handlers, rfl⟩
    exact ⟨rfl, fun _ => rfl, by rintro _ ⟨⟩, by rintro ⟨⟩, by rintro ⟨⟩, fun h => absurd rfl h,
      by rintro _ ⟨⟩, by rintro _ ⟨⟩, fun n he => absurd he.1 List.not_mem_nil⟩
  · rintro s tr i s' out ⟨hstatus, hnumbered, hjoin⟩ hinv ⟨halone, hidle⟩ hs
    have hstopped : ∀ {out}, .stop ∈ out → ∀ w, s.worker = some w →
        stopAfter w.attempt (tr ++ out) = true := by
      intro out hs w hw
      obtain ⟨⟨pass, hp⟩, -⟩ := hnumbered.worker w hw
      exact stopAfter_stop hp hs
    cases machine_step hs with
    | verify pass hpc =>
      exact hinv.unclaimed (by simp [Item.attempt]) rfl rfl rfl rfl (fun h => absurd rfl h)
        hinv.runs
    | stop hpc | delete hpc =>
      exact hinv.unclaimed (by simp [Item.attempt]) rfl rfl rfl rfl (fun _ => hstopped (by simp))
        hinv.runs
    | client ok p w pc out h => exact h.answerInv hnumbered hjoin hidle hinv
    | otherStop hpc => cases halone
    | stopStep i pc pc' client stops p out hi hr h =>
      have hclient : s.client.stops ≠ [] ∧ stops = s.stops ∧ client.claimed = false := by
        cases hr with
        | client hpc | delete hpc => cases pc' <;> simp [hpc, ClientPc.stops, ClientPc.claimed]
        | other l1 l2 hsplit => simp [hinv.stops] at hsplit
      obtain ⟨hne, hstops, hclaimed⟩ := hclient
      have hh : p.handlers = s.obj.handlers := by cases h <;> rfl
      refine hinv.unclaimed h.attempts rfl hstops hh hclaimed
        (fun _ w hw => stopAfter_append (hinv.stopping hne w hw)) fun w hw _ hs => ?_
      rw [stopAfter_append (hinv.stopping hne w hw)] at hs
      cases hs
    | worker o w p cs pc out hw h =>
      refine h.answerInv hw hstatus hinv (fun hpc => ?_) fun pid hpc => ?_
      · obtain ⟨n, wpc⟩ := w
        obtain rfl : wpc = .fork := hpc
        simpa only [Alone, hw] using halone
      · obtain ⟨n, wpc⟩ := w
        obtain rfl : wpc = .waitpid pid := hpc
        simpa only [Alone, hw] using halone
    | childEnds pid run c hc hpid hrun =>
      exact hinv.still (silent_of_attempt (by simp [Item.attempt])) rfl rfl rfl hinv.claimed
        hinv.flag (fun hs w hw => stopAfter_append (hinv.stopping hs w hw)) hinv.runs

/-! ## Every run -/

/-- **An attempt that is not stopped is answered before its `on_end`**, once and as its
child's status says, in every run where `verify` sets the flag only after the worker
before it has stored false. -/
theorem answer_safe {s : State} {tr : List Item}
    (h : machine.ReachIf (fun s _ i => Alone s i ∧ ClaimsIdle s i) s tr) : AnswerSafe s tr :=
  (answerInv_reach h).answered

theorem successRun_alone : machine.Meets (fun s _ i => Alone s i ∧ ClaimsIdle s i)
    (start allHandlers) [] sampleSuccess := by
  decide

/-- The attempt of the run came to its end, and was not stopped. -/
theorem answer_safe_successRun :
    (.started 1 ∈ successRun.2 ∧ stopAfter 1 successRun.2 = false ∧
        verdictsOf 1 successRun.2 = [.onFinish]) ∧ AnswerSafe successRun.1 successRun.2 :=
  ⟨by decide,
    answer_safe (Machine.reachIf_exec (start_init _) successRun_alone successRun_isSome)⟩

/-! ## A flag that is cleared late -/

/-- The first attempt is stopped when its worker is past the last look at the flag; the
second `verify` sets the flag, and waits for that worker, which clears it. -/
def sampleLateStore : List Input :=
  sampleVerify [115, 101] 7 ++ [Input.childEnds 7 (.pam ⟨0, 0, 0⟩)] ++
  List.replicate 6 (Input.worker ⟨none, true⟩) ++
  [Input.stop, .client true, .client true, .verify [115], .client true] ++
  List.replicate 2 (Input.worker ⟨none, true⟩) ++
  List.replicate 3 (Input.client true) ++
  [Input.worker ⟨none, true⟩, .worker ⟨some 8, true⟩] ++
  List.replicate 4 (Input.worker ⟨none, true⟩) ++
  [Input.childEnds 8 .killed] ++ List.replicate 3 (Input.worker ⟨none, true⟩)

theorem lateStoreRun_isSome :
    (machine.exec (start allHandlers) sampleLateStore).isSome = true := by
  decide

def lateStoreRun : State × List Item :=
  (machine.exec (start allHandlers) sampleLateStore).get lateStoreRun_isSome

theorem lateStoreRun_alone :
    machine.Meets (fun s _ i => Alone s i) (start allHandlers) [] sampleLateStore := by
  decide

/-- **Not in every run**: the second attempt was not stopped, and has no answer. -/
theorem answer_missing :
    ¬∀ s tr, machine.ReachIf (fun s _ i => Alone s i) s tr → AnswerSafe s tr := by
  intro h
  have hsafe : AnswerSafe lateStoreRun.1 lateStoreRun.2 :=
    h _ _ (Machine.reachIf_exec (start_init _) lateStoreRun_alone lateStoreRun_isSome)
  have hworker : lateStoreRun.1.worker = some ⟨2, .onEnd⟩ := by decide
  have hended : Ended lateStoreRun.1 lateStoreRun.2 2 := by
    refine ⟨by decide, fun w hw _ => ?_⟩
    rw [hworker, Option.some.injEq] at hw
    rw [← hw]
    rfl
  obtain ⟨run, -, hv⟩ := hsafe 2 hended (by decide)
  have hnone : verdictsOf 2 lateStoreRun.2 = [] := by decide
  have hset : lateStoreRun.1.obj.handlers = allHandlers := by decide
  rw [hnone, hset] at hv
  unfold Handlers.answer verdict at hv
  split at hv <;> cases hv

end Auth.Password
