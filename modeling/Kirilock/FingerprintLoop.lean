import Kirilock.FingerprintScan

/-!
`on_loop` and `on_end`.

`check_in_progress_` stands for an `on_end` that is owed.  The worker sets it before
it calls `on_loop`; the callback or a `stop` takes it and then calls `on_end`.  A scan
that a bus error or a cleared `is_running_` breaks off leaves the flag as it is, and
nothing makes `start` or the destructor wait for a `stop` on another thread.  So the
two handlers take turns (`LoopsSafe`) in the runs where the bus fails in no scan, and
each `stop` looks at the flag after the scan's store of it and is past its `on_end`
before the next scan and the join (`EndsPaired`); `loops_unpaired` is a run where
`on_loop` is called twice.
-/

namespace Auth.Fingerprint

open Runs

/-! ## The rule -/

def Item.isOnLoop : Item → Bool
  | .handler _ .onLoop => true
  | _ => false

def Item.isOnEnd : Item → Bool
  | .handler _ .onEnd => true
  | _ => false

/-- An `on_loop` has not been followed by its `on_end`. -/
abbrev loopOpen (tr : List Item) : Bool := isOpen Item.isOnLoop Item.isOnEnd tr

structure LoopsSafe (tr : List Item) : Prop where
  turns : Alternate Item.isOnLoop Item.isOnEnd tr
  /-- a worker is joined after the last `on_end` -/
  joined : Always (fun pre c => c = .joined → loopOpen pre = false) tr

/-! ## The runs -/

/-- It has yet to look at `check_in_progress_`. -/
def StopPc.looks : StopPc → Bool
  | .compareRunning => true
  | .write => true
  | .compareCheck _ => true
  | _ => false

/-- It took `check_in_progress_` and is to call `on_end`. -/
def StopPc.atEnd : StopPc → Bool
  | .onEnd _ => true
  | _ => false

/-- How many calls of `stop` have yet to look at the flag. -/
def State.coming (s : State) : Nat := s.allStops.countP StopPc.looks

/-- How many are between taking it and their `on_end`. -/
def State.ending (s : State) : Nat := s.allStops.countP StopPc.atEnd

def Input.isWorker : Input → Bool
  | .worker _ => true
  | _ => false

/-- The worker goes on to `VerifyStop` for `is_running_`, or because `sd_bus_process` fails. -/
def State.leavesScan (s : State) : Input → Bool
  | .worker o =>
    match s.worker with
    | some .loadInner => !s.obj.isRunning
    | some .process => o.process == .failed
    | _ => false
  | _ => false

/-- The step joins the worker. -/
def State.joins (s : State) : Input → Bool
  | .client ok => (s.client == .join && ok || s.client == .deleteJoin) && s.worker == some .exited
  | _ => false

@[mk_iff]
structure EndsPaired (s : State) (i : Input) : Prop where
  handlers : s.obj.handlers.onLoop = s.obj.handlers.onEnd
  /-- a scan that is on is left only for a `stop` that is on its way to end it: not on a bus
  error, nor where the `stop` looked at the flag before it was set -/
  left : s.leavesScan i = true → s.obj.checkInProgress = true →
    s.obj.isRunning = false ∧ 0 < s.coming
  /-- a `stop` that ended a scan calls `on_end` before the next one begins, … -/
  begun : i.isWorker = true → s.worker = some .storeCheck → s.ending = 0
  /-- … not before `on_loop` was called, … -/
  ended : (s.moving i).any StopPc.atEnd = true → s.worker ≠ some .onLoop
  /-- … and before the join -/
  joined : s.joins i = true → s.ending = 0 ∧ (s.obj.checkInProgress = true → s.coming = 0)

instance (s : State) (i : Input) : Decidable (EndsPaired s i) :=
  decidable_of_iff _ (endsPaired_iff s i).symm

/-! ## Handlers that are set -/

theorem Members.has_of_invoke {p : Members} {k k' : Option Nat} {h h' : Handler}
    (hx : .handler k' h' ∈ p.invoke k h) : p.handlers.has h' = true := by
  unfold Members.invoke at hx
  split at hx
  · rename_i hset
    cases List.mem_singleton.mp hx
    exact hset
  · cases hx

theorem StopStep.handlers {p p' : Members} {ok : Bool} {pc : StopPc} {pc' : Option StopPc}
    {out : List Item} (h : StopStep p ok pc pc' p' out) :
    p'.handlers = p.handlers ∧ ∀ k h, .handler k h ∈ out → p.handlers.has h = true := by
  cases h with
  | ended found => exact ⟨rfl, fun k h hx => Members.has_of_invoke hx⟩
  | stopped found =>
    refine ⟨rfl, fun k h hx => ?_⟩
    rcases List.mem_append.mp hx with hx | hx
    · exact Members.has_of_invoke hx
    · cases List.mem_singleton.mp hx
  | _ => exact ⟨rfl, by simp⟩

theorem ClientStep.handlers {s : State} {ok : Bool} {p : Members} {w : Option WorkerPc}
    {pc : ClientPc} {out : List Item} (h : ClientStep s ok p w pc out) :
    p.handlers = s.obj.handlers ∧ ∀ k h, .handler k h ∈ out → s.obj.handlers.has h = true := by
  cases h with
  | called pc hpc h => exact ⟨rfl, fun k h hx => Members.has_of_invoke hx⟩
  | released hpc =>
    refine ⟨rfl, ?_⟩
    split <;> simp
  | deleted hpc hs =>
    refine ⟨rfl, fun k h hx => ?_⟩
    rcases List.mem_append.mp hx with hx | hx
    · exact Members.has_of_invoke hx
    · cases List.mem_singleton.mp hx
  | _ => exact ⟨rfl, by simp⟩

theorem WorkerStep.handlers {s : State} {o : WorkerOutcomes} {pc : WorkerPc} {p : Members}
    {queue : List (Nat × Signal)} {pc' : WorkerPc} {out : List Item}
    (h : WorkerStep s o pc p queue pc' out) :
    p.handlers = s.obj.handlers ∧ ∀ k h, .handler k h ∈ out → s.obj.handlers.has h = true := by
  cases h with
  | called hpc => exact ⟨rfl, fun k h hx => Members.has_of_invoke hx⟩
  | _ => exact ⟨rfl, by simp⟩

theorem step_handlers {s s' : State} {i : Input} {out : List Item}
    (hs : machine.step s i = some (s', out)) :
    s'.obj.handlers = s.obj.handlers ∧
      ∀ k h, .handler k h ∈ out → s.obj.handlers.has h = true := by
  cases machine_step hs with
  | client ok p w pc out h => exact h.handlers
  | stopStep i ok pc pc' client stops p out hi hr h => exact h.handlers
  | worker o pc p queue pc' out hw h => exact h.handlers
  | _ => exact ⟨rfl, by simp⟩

/-- Only handlers that are set are called. -/
theorem handler_set {s : State} {tr : List Item} (h : machine.Reach s tr) {k : Option Nat}
    {hd : Handler} (hx : .handler k hd ∈ tr) : s.obj.handlers.has hd = true := by
  revert k hd
  refine h.invariant (I := fun s tr => ∀ {k hd}, .handler k hd ∈ tr → s.obj.handlers.has hd = true)
    (fun s _ k hd hx => by cases hx) fun s tr i s' out hinv _ hs k hd hx => ?_
  obtain ⟨hsame, hout⟩ := step_handlers hs
  rw [hsame]
  rcases List.mem_append.mp hx with hx | hx
  · exact hinv hx
  · exact hout k hd hx

theorem Members.invoke_set (p : Members) (k : Option Nat) {h : Handler}
    (hset : p.handlers.has h = true) : p.invoke k h = [.handler k h] :=
  if_pos hset

theorem Members.invoke_unset (p : Members) (k : Option Nat) {h : Handler}
    (hset : ¬p.handlers.has h = true) : p.invoke k h = [] :=
  if_neg hset

/-! ## Where the flag is set -/

/-- From the store of the flag to the end of the inner loop. -/
def WorkerPc.inLoop (pc : WorkerPc) : Bool := pc.scanning && pc != .storeCheck

/-- From the inner loop to the end of the thread, where `is_running_` is false. -/
def WorkerPc.leaving : WorkerPc → Bool
  | .verifyStop => true
  | .pause => true
  | .loadRunning => true
  | .exited => true
  | _ => false

/-- The flag is set in a scan, and after one that a `stop` is on its way to end. -/
def FlagInv (s : State) : Prop :=
  s.obj.checkInProgress = true → ∃ pc, s.worker = some pc ∧
    (pc.inLoop = true ∨ pc.leaving = true ∧ s.obj.isRunning = false ∧ 0 < s.coming)

/-- Without a worker it is not set. -/
theorem FlagInv.unset {s : State} (h : FlagInv s) (hw : s.worker = none) :
    s.obj.checkInProgress = false := by
  by_contra hne
  rw [Bool.not_eq_false] at hne
  obtain ⟨pc, hpc, -⟩ := h hne
  cases hw.symm.trans hpc

theorem allStops_idle {s : State} (hpc : s.client = .idle) : s.allStops = s.stops := by
  rw [State.allStops, hpc]
  rfl

theorem Replaces.countP {s : State} {pc : StopPc} {pc' : Option StopPc} {client : ClientPc}
    {stops : List StopPc} (h : Replaces s pc pc' client stops) (p : StopPc → Bool) :
    (client.stops ++ stops).countP p + (p pc).toNat = s.allStops.countP p + (pc'.any p).toNat := by
  obtain ⟨l1, l2, hs, hs'⟩ := h.allStops
  rw [hs, hs', List.countP_append, List.countP_append, List.countP_append, List.countP_cons]
  cases pc' with
  | none => cases p pc <;> simp [Nat.add_assoc]
  | some pc' => cases h1 : p pc <;> cases h2 : p pc' <;> simp [h2] <;> omega

/-- A `stop` that leaves the flag set has yet to look at it, if it had before. -/
theorem StopStep.looks {p p' : Members} {ok : Bool} {pc : StopPc} {pc' : Option StopPc}
    {out : List Item} (h : StopStep p ok pc pc' p' out) (hc : p'.checkInProgress = true) :
    p.checkInProgress = true ∧ (pc.looks = true → pc'.any StopPc.looks = true) := by
  cases h with
  | took found hf => cases hc
  | returned found hf =>
    rw [hf] at hc
    cases hc
  | claimed hr | missed hr | wrote => exact ⟨hc, fun _ => rfl⟩
  | ended found | stopped found => exact ⟨hc, fun h => by cases h⟩

theorem Goes.leaving {p : Members} {pc pc' : WorkerPc} (h : Goes p pc pc') :
    (pc.inLoop = true → pc'.inLoop = true ∨ pc' = .verifyStop) ∧
      (pc.leaving = true → p.isRunning = false → pc'.leaving = true) := by
  cases h with
  | running hr hd | noDevice hr hd =>
    refine ⟨by rintro ⟨⟩, fun _ hr' => ?_⟩
    rw [hr] at hr'
    cases hr'
  | _ => simp [WorkerPc.inLoop, WorkerPc.scanning, WorkerPc.leaving]

theorem Calls.inLoop {pc pc' : WorkerPc} {k : Option Nat} {h : Handler} (hc : Calls pc k h pc') :
    (pc.inLoop = true → pc'.inLoop = true) ∧ pc.leaving = false := by
  cases hc with
  | verdict k result done => cases done <;> exact ⟨fun _ => rfl, rfl⟩
  | notFound | startFailed msg => exact ⟨by rintro ⟨⟩, rfl⟩
  | onLoop | callbackEnd k => exact ⟨fun _ => rfl, rfl⟩

/-- The worker goes from `sd_bus_process` to `VerifyStop` because it failed. -/
theorem process_failed {s s' : State} {o : WorkerOutcomes} {out : List Item}
    (hs : machine.step s (.worker o) = some (s', out)) (hw : s.worker = some .process)
    (hw' : s'.worker = some .verifyStop) : o.process = .failed := by
  obtain ⟨pc, hpc, hrun⟩ := Option.bind_eq_some_iff.mp hs
  cases hw.symm.trans hpc
  simp only [State.runWorker, State.goto] at hrun
  split at hrun
  · assumption
  · cases hrun
    cases hw'
  · cases hrun
    cases hw'
  · split at hrun
    · cases hrun
    · cases hrun
      cases hw'

theorem WorkerStep.leavesScan {s s' : State} {o : WorkerOutcomes} {pc : WorkerPc} {p : Members}
    {queue : List (Nat × Signal)} {out : List Item}
    (h : WorkerStep s o pc p queue .verifyStop out)
    (hs : machine.step s (.worker o) = some (s', out)) (hw : s.worker = some pc)
    (hw' : s'.worker = some .verifyStop) (hc : s.obj.checkInProgress = true) :
    s.leavesScan (.worker o) = true := by
  generalize hv : WorkerPc.verifyStop = pc' at h
  cases h with
  | goes h =>
    cases h with
    | innerStopped hr => simp [State.leavesScan, hw, hr]
    | checkDone hf =>
      rw [hf] at hc
      cases hc
    | processFailed => simp [State.leavesScan, hw, process_failed hs hw hw']
    | _ => cases hv
  | called hpc =>
    cases hpc with
    | verdict k result done => cases done <;> cases hv
    | _ => cases hv
  | _ => cases hv

theorem WorkerStep.flagInv {s : State} {o : WorkerOutcomes} {pc : WorkerPc} {p : Members}
    {queue : List (Nat × Signal)} {pc' : WorkerPc} {out : List Item}
    (h : WorkerStep s o pc p queue pc' out) (hw : s.worker = some pc) (hinv : FlagInv s)
    (hleft : pc' = .verifyStop → s.obj.checkInProgress = true →
      s.obj.isRunning = false ∧ 0 < s.coming) : FlagInv (s.worked p queue pc') := by
  -- a step that leaves the members alone
  have hmoves : ∀ {queue : List (Nat × Signal)},
      (pc.inLoop = true → pc'.inLoop = true ∨ pc' = .verifyStop) →
      (pc.leaving = true → s.obj.isRunning = false → pc'.leaving = true) →
      FlagInv (s.worked s.obj queue pc') := by
    intro queue hin hout hc
    obtain ⟨pc1, hw1, hat⟩ := hinv hc
    cases hw.symm.trans hw1
    refine ⟨pc', rfl, ?_⟩
    rcases hat with hat | ⟨hat, hr, hcoming⟩
    · rcases hin hat with hat' | rfl
      · exact Or.inl hat'
      · exact Or.inr ⟨rfl, hleft rfl hc⟩
    · exact Or.inr ⟨hout hat hr, hr, hcoming⟩
  cases h with
  | goes h => exact hmoves h.leaving.1 h.leaving.2
  | called hpc =>
    obtain ⟨hin, hout⟩ := hpc.inLoop
    exact hmoves (fun hat => Or.inl (hin hat)) fun hat => by rw [hout] at hat; cases hat
  | verifyStarted ho | verifyFailed msg ho => exact hmoves (fun h => by cases h) fun h => by cases h
  | checkStored => exact fun _ => ⟨.onLoop, rfl, Or.inl rfl⟩
  | dispatched x queue ho hq => exact hmoves (fun _ => Or.inl rfl) fun h => by cases h
  | scanEnded k hf => exact fun h => by cases h
  | verifyStopped => exact hmoves (fun h => by cases h) fun _ _ => rfl

theorem StopStep.flagInv {s : State} {ok : Bool} {pc : StopPc} {pc' : Option StopPc} {p : Members}
    {out : List Item} (h : StopStep s.obj ok pc pc' p out) {client : ClientPc}
    {stops : List StopPc} (hr : Replaces s pc pc' client stops) (hinv : FlagInv s) :
    FlagInv { s with obj := p, client := client, stops := stops } := by
  intro hc
  obtain ⟨hf, hlooks⟩ := h.looks hc
  obtain ⟨pc1, hw, hat⟩ := hinv hf
  refine ⟨pc1, hw, hat.imp_right fun ⟨hat, hrun, hcoming⟩ => ⟨hat, h.cleared hrun, ?_⟩⟩
  have hcount := hr.countP StopPc.looks
  show 0 < (client.stops ++ stops).countP StopPc.looks
  have hbefore : 0 < s.allStops.countP StopPc.looks := hcoming
  cases hpc : pc.looks with
  | false =>
    rw [hpc, Bool.toNat_false] at hcount
    omega
  | true =>
    rw [hpc, hlooks hpc] at hcount
    omega

theorem ClientStep.flagInv {s : State} {tr : List Item} {ok : Bool} {p : Members}
    {w : Option WorkerPc} {pc : ClientPc} {out : List Item} (h : ClientStep s ok p w pc out)
    (hinv : FlagInv s) (hscan : ScanInv s tr)
    (hjoined : s.joins (.client ok) = true → s.obj.checkInProgress = true → s.coming = 0) :
    FlagInv { s with obj := p, worker := w, client := pc } := by
  have hstops : pc.stops ++ s.stops = s.allStops := by
    rw [State.allStops, h.stops, h.stops']
  -- a step that leaves the worker where it is
  have hstay : (s.obj.checkInProgress = p.checkInProgress) → w = s.worker →
      (s.worker ≠ none → s.obj.isRunning = false → p.isRunning = false) →
      FlagInv { s with obj := p, worker := w, client := pc } := by
    rintro hp rfl hrun hc
    obtain ⟨pc1, hw, hat⟩ := hinv (hp.trans hc)
    refine ⟨pc1, hw, ?_⟩
    rcases hat with hat | ⟨hat, hr, hcoming⟩
    · exact Or.inl hat
    · refine Or.inr ⟨hat, hrun (by simp [hw]) hr, ?_⟩
      show 0 < (pc.stops ++ s.stops).countP StopPc.looks
      rw [hstops]
      exact hcoming
  -- a worker that is joined has no flag to take
  have hgone : s.worker = some .exited → s.joins (.client ok) = true →
      s.obj.checkInProgress = false := by
    intro hw hj
    by_contra hne
    rw [Bool.not_eq_false] at hne
    obtain ⟨pc1, hw1, hat⟩ := hinv hne
    cases hw.symm.trans hw1
    rcases hat with hat | ⟨-, -, hcoming⟩
    · cases hat
    · rw [hjoined hj hne] at hcoming
      cases hcoming
  cases h with
  | joined hpc ho hw =>
    intro hc
    have hf := hgone hw (by simp [State.joins, hpc, hw, ho])
    cases hf.symm.trans hc
  | deleteJoined hpc hw =>
    intro hc
    have hf := hgone hw (by simp [State.joins, hpc, hw])
    cases hf.symm.trans hc
  | created hpc =>
    intro hc
    obtain ⟨pc1, hw, -⟩ := hinv hc
    rw [hscan.joined (by rw [hpc]; rfl)] at hw
    cases hw
  | runningStored hpc =>
    exact hstay rfl rfl fun hw => absurd (hscan.joined (by rw [hpc]; rfl)) hw
  | checkStored hpc => exact fun h => by cases h
  | caught hpc => exact hstay rfl rfl fun _ _ => rfl
  | _ => exact hstay rfl rfl fun _ => id

theorem flagInv_reach {s : State} {tr : List Item}
    (h : machine.ReachIf (fun s _ i => EndsPaired s i) s tr) : FlagInv s := by
  refine h.invariant_of (J := ScanInv) (I := fun s _ => FlagInv s)
    (fun h => scanInv_reach h.reach) ?_ ?_
  · rintro s ⟨handlers, pipe, device, rfl⟩ hc
    cases hc
  · intro s tr i s' out hscan hinv hok hs
    -- a call that begins
    have hcalls : ∀ {s' : State}, s'.obj = s.obj → s'.worker = s.worker →
        s.coming ≤ s'.coming → FlagInv s' := by
      intro s' hobj hw hcoming hc
      rw [hobj] at hc
      rw [hobj, hw]
      obtain ⟨pc, hpc, hat⟩ := hinv hc
      exact ⟨pc, hpc, hat.imp_right fun ⟨hat, hr, h0⟩ => ⟨hat, hr, Nat.lt_of_lt_of_le h0 hcoming⟩⟩
    cases machine_step hs with
    | start hpc =>
      exact hcalls rfl rfl (by rw [State.coming, allStops_idle hpc]; exact Nat.le_refl _)
    | stop hpc | delete hpc =>
      have hcons : s.coming ≤ (StopPc.compareRunning :: s.stops).countP StopPc.looks := by
        simp [State.coming, allStops_idle hpc, List.countP_cons]
      exact hcalls rfl rfl hcons
    | client ok p w pc out h => exact h.flagInv hinv hscan fun hj => (hok.joined hj).2
    | otherStop hpc =>
      exact hcalls rfl rfl (by simp [State.coming, State.allStops, List.countP_cons])
    | stopStep i ok pc pc' client stops p out hi hr h => exact h.flagInv hr hinv
    | worker o pc p queue pc' out hw h =>
      refine h.flagInv hw hinv ?_
      rintro rfl hc
      exact hok.left (h.leavesScan hs hw rfl hc) hc
    | emit body => exact hcalls rfl rfl (Nat.le_refl _)

/-! ## The invariant -/

def WorkerPc.atEnd : WorkerPc → Bool
  | .callbackEnd _ => true
  | _ => false

/-- The `on_end` calls that are owed: one where the flag is set, and one for each thread that
took it and has not called yet. -/
def State.owed (s : State) : Nat :=
  s.obj.checkInProgress.toNat + s.ending + (s.worker.any WorkerPc.atEnd).toNat

def State.atLoop (s : State) : Bool := s.worker == some .onLoop

/-- The handlers are set: what is owed is the `on_loop` that was called, and the one that is
about to be. -/
structure LoopInv (s : State) (tr : List Item) : Prop where
  safe : LoopsSafe tr
  owed : s.owed = (loopOpen tr).toNat + s.atLoop.toNat
  fresh : s.atLoop = true → loopOpen tr = false

/-- No calls of `on_loop` or `on_end`, and no join. -/
structure Mute (out : List Item) : Prop where
  loop : ∀ x ∈ out, x.isOnLoop = false ∧ x.isOnEnd = false
  joined : .joined ∉ out

theorem mute_nil : Mute [] := ⟨by simp, by simp⟩

theorem Mute.append {out out' : List Item} (h : Mute out) (h' : Mute out') :
    Mute (out ++ out') where
  loop x hx := (List.mem_append.mp hx).elim (h.loop x) (h'.loop x)
  joined hx := (List.mem_append.mp hx).elim h.joined h'.joined

theorem mute_invoke (p : Members) (k : Option Nat) {h : Handler} (hl : h ≠ .onLoop)
    (he : h ≠ .onEnd) : Mute (p.invoke k h) := by
  refine ⟨fun x hx => ?_, fun hx => ?_⟩
  · rw [p.invoke_items k h x hx]
    cases h <;> simp_all [Item.isOnLoop, Item.isOnEnd]
  · cases p.invoke_items k h _ hx

theorem Mute.loopOpen_eq {tr out : List Item} (h : Mute out) :
    loopOpen (tr ++ out) = loopOpen tr :=
  isOpen_append_of_neither h.loop

theorem LoopsSafe.append {tr out : List Item} (h : LoopsSafe tr) (hout : Mute out) :
    LoopsSafe (tr ++ out) where
  turns := h.turns.append_of_neither hout.loop
  joined := h.joined.append_of_forall fun _ hx _ he => absurd (he ▸ hx) hout.joined

section Steps

variable {s s' : State} {tr : List Item}

theorem LoopInv.extend (h : LoopInv s tr) {out : List Item} (hout : Mute out)
    (howed : s'.owed = s.owed) (hat : s'.atLoop = s.atLoop) : LoopInv s' (tr ++ out) where
  safe := h.safe.append hout
  owed := by rw [howed, hat, hout.loopOpen_eq, h.owed]
  fresh he := hout.loopOpen_eq.trans (h.fresh (hat ▸ he))

/-- An `on_end` that is owed is called. -/
theorem LoopInv.ends (h : LoopInv s tr) (k : Option Nat) (hopen : loopOpen tr = true)
    (howed : s'.owed + 1 = s.owed) (hat : s'.atLoop = s.atLoop) :
    LoopInv s' (tr ++ [Item.handler k .onEnd]) where
  safe := ⟨h.safe.turns.closed hopen rfl, h.safe.joined.append_of_forall (by simp)⟩
  owed := by
    have hs := h.owed
    rw [hopen, Bool.toNat_true] at hs
    rw [hat, loopOpen, isOpen_snoc]
    show s'.owed = false.toNat + s.atLoop.toNat
    rw [Bool.toNat_false]
    omega
  fresh _ := isOpen_snoc tr _

/-- What is owed after `on_loop` is its `on_end`. -/
theorem LoopInv.open_iff (h : LoopInv s tr) (hat : s.atLoop = false) :
    loopOpen tr = true ↔ 1 ≤ s.owed := by
  rw [h.owed, hat]
  cases loopOpen tr <;> decide

theorem StopStep.loopInv {ok : Bool} {pc : StopPc} {pc' : Option StopPc} {p : Members}
    {out : List Item} (h : StopStep s.obj ok pc pc' p out) {client : ClientPc}
    {stops : List StopPc} (hr : Replaces s pc pc' client stops) (hinv : LoopInv s tr)
    (hset : s.obj.handlers.onEnd = true)
    (hended : pc.atEnd = true → s.worker ≠ some .onLoop) :
    LoopInv { s with obj := p, client := client, stops := stops } (tr ++ out) := by
  have hcount := hr.countP StopPc.atEnd
  have howed : ({ s with obj := p, client := client, stops := stops } : State).owed +
      s.obj.checkInProgress.toNat + pc.atEnd.toNat =
      s.owed + p.checkInProgress.toNat + (pc'.any StopPc.atEnd).toNat := by
    show p.checkInProgress.toNat + (client.stops ++ stops).countP StopPc.atEnd +
      (s.worker.any WorkerPc.atEnd).toNat + s.obj.checkInProgress.toNat + pc.atEnd.toNat = _
    unfold State.owed State.ending
    omega
  cases h with
  | claimed hr | missed hr | wrote => exact hinv.extend mute_nil (Nat.add_right_cancel howed) rfl
  | took found hc =>
    rw [hc] at howed
    exact hinv.extend mute_nil (Nat.add_right_cancel howed) rfl
  | returned found hc =>
    exact hinv.extend ⟨by simp [Item.isOnLoop, Item.isOnEnd], by simp⟩
      (Nat.add_right_cancel howed) rfl
  | ended found =>
    have hat : s.atLoop = false := by simpa [State.atLoop] using hended rfl
    simp only [StopPc.atEnd, Option.any_some, Bool.toNat_true, Bool.toNat_false] at howed
    rw [s.obj.invoke_set none (h := .onEnd) hset]
    exact hinv.ends none ((hinv.open_iff hat).mpr (by omega)) (by omega) rfl
  | stopped found =>
    have hout : Mute [.stopReturned found] := ⟨by simp [Item.isOnLoop, Item.isOnEnd], by simp⟩
    exact hinv.extend ((mute_invoke s.obj none (h := .onStop) (by simp) (by simp)).append hout)
      (Nat.add_right_cancel howed) rfl

/-! ### The worker -/

theorem Goes.atEnd {p : Members} {pc pc' : WorkerPc} (h : Goes p pc pc') :
    pc.atEnd = false ∧ pc'.atEnd = false ∧ pc ≠ .onLoop ∧ pc' ≠ .onLoop := by
  cases h <;> exact ⟨rfl, rfl, by simp, by simp⟩

theorem WorkerStep.loopInv {o : WorkerOutcomes} {pc : WorkerPc} {p : Members}
    {queue : List (Nat × Signal)} {pc' : WorkerPc} {out : List Item}
    (h : WorkerStep s o pc p queue pc' out) (hw : s.worker = some pc) (hinv : LoopInv s tr)
    (hloop : s.obj.handlers.onLoop = true) (hend : s.obj.handlers.onEnd = true)
    (hflag : FlagInv s) (hbegun : pc = .storeCheck → s.ending = 0) :
    LoopInv (s.worked p queue pc') (tr ++ out) := by
  have howed : (s.worked p queue pc').owed + s.obj.checkInProgress.toNat + pc.atEnd.toNat =
      s.owed + p.checkInProgress.toNat + pc'.atEnd.toNat := by
    show p.checkInProgress.toNat + s.ending + pc'.atEnd.toNat +
      s.obj.checkInProgress.toNat + pc.atEnd.toNat = _
    have hs : s.owed = s.obj.checkInProgress.toNat + s.ending + pc.atEnd.toNat := by
      rw [State.owed, hw]
      rfl
    omega
  have hat : (s.worked p queue pc').atLoop = (pc' == .onLoop) := rfl
  have hat0 : s.atLoop = (pc == .onLoop) := by
    rw [State.atLoop, hw]
    rfl
  have hstay : ∀ {out}, Mute out →
      p.checkInProgress.toNat + pc'.atEnd.toNat = s.obj.checkInProgress.toNat + pc.atEnd.toNat →
      (pc' == .onLoop) = (pc == .onLoop) → LoopInv (s.worked p queue pc') (tr ++ out) :=
    fun hout h1 h2 => hinv.extend hout (by omega) (hat.trans (h2.trans hat0.symm))
  cases h with
  | goes h =>
    obtain ⟨h1, h2, h3, h4⟩ := h.atEnd
    exact hstay mute_nil (by rw [h1, h2]) (by simp [h3, h4])
  | called hpc =>
    cases hpc with
    | notFound => exact hstay (mute_invoke _ _ (by simp) (by simp)) rfl rfl
    | startFailed msg => exact hstay (mute_invoke _ _ (by simp) (by simp)) rfl rfl
    | verdict k result done =>
      have hmute : Mute (s.obj.invoke (some k) (verdict result)) := by
        refine mute_invoke _ _ ?_ ?_ <;> (unfold verdict; split; simp; split <;> simp)
      cases done <;> exact hstay hmute rfl rfl
    | callbackEnd k =>
      simp only [WorkerPc.atEnd, Bool.toNat_true, Bool.toNat_false] at howed
      rw [s.obj.invoke_set _ (h := .onEnd) hend]
      exact hinv.ends _ ((hinv.open_iff hat0).mpr (by omega)) (by omega) (hat.trans hat0.symm)
    | onLoop =>
      have hopen := hinv.fresh hat0
      have h1 := hinv.owed
      rw [hopen, hat0] at h1
      rw [s.obj.invoke_set _ (h := .onLoop) hloop]
      refine ⟨⟨hinv.safe.turns.opened hopen rfl, hinv.safe.joined.append_of_forall (by simp)⟩,
        ?_, fun h => by cases h⟩
      have hsame : (s.worked s.obj s.queue .loadInner).owed = s.owed := Nat.add_right_cancel howed
      rw [loopOpen, isOpen_snoc, hat, hsame]
      exact h1
  | verifyStarted ho => exact hstay ⟨by simp [Item.isOnLoop, Item.isOnEnd], by simp⟩ rfl rfl
  | verifyFailed msg ho => exact hstay ⟨by simp [Item.isOnLoop, Item.isOnEnd], by simp⟩ rfl rfl
  | checkStored =>
    -- nothing is owed where a scan begins
    have hc : s.obj.checkInProgress = false := by
      by_contra hne
      rw [Bool.not_eq_false] at hne
      obtain ⟨pc1, hw1, hpc1⟩ := hflag hne
      cases hw.symm.trans hw1
      rcases hpc1 with hpc1 | ⟨hpc1, -, -⟩ <;> cases hpc1
    have h0 : s.owed = 0 := by
      rw [State.owed, hc, hbegun rfl, hw]
      rfl
    have hopen : loopOpen tr = false := by
      by_contra hne
      rw [Bool.not_eq_false, hinv.open_iff hat0, h0] at hne
      cases hne
    simp only [hc, h0, WorkerPc.atEnd, Bool.toNat_true, Bool.toNat_false] at howed
    refine ⟨hinv.safe.append mute_nil, ?_, fun _ => ?_⟩
    · rw [List.append_nil, hopen, hat]
      exact howed
    · rw [List.append_nil, hopen]
  | dispatched x queue ho hq => exact hstay mute_nil rfl rfl
  | scanEnded k hc =>
    refine hstay ⟨by simp [Item.isOnLoop, Item.isOnEnd], by simp⟩ ?_ rfl
    rw [hc]
    rfl
  | verifyStopped => exact hstay ⟨by simp [Item.isOnLoop, Item.isOnEnd], by simp⟩ rfl rfl

/-! ### The client -/

theorem ClientStep.owed {ok : Bool} {p : Members} {w : Option WorkerPc} {pc : ClientPc}
    {out : List Item} (h : ClientStep s ok p w pc out)
    (hp : p.checkInProgress = s.obj.checkInProgress)
    (hw : w.any WorkerPc.atEnd = s.worker.any WorkerPc.atEnd) :
    ({ s with obj := p, worker := w, client := pc } : State).owed = s.owed := by
  have hstops : pc.stops ++ s.stops = s.allStops := by
    rw [State.allStops, h.stops, h.stops']
  show p.checkInProgress.toNat + (pc.stops ++ s.stops).countP StopPc.atEnd +
    (w.any WorkerPc.atEnd).toNat = s.owed
  rw [hp, hw, hstops]
  rfl

/-- The client joins the worker. -/
theorem LoopInv.join (h : LoopInv s tr) (hw : s.worker = some .exited)
    (hc : s.obj.checkInProgress = false) (hend : s.ending = 0) {pc : ClientPc}
    (hpc : pc.stops = []) (hstops : s.client.stops = []) :
    LoopInv { s with worker := none, client := pc } (tr ++ [Item.joined]) := by
  have hneither : ∀ x ∈ [Item.joined], x.isOnLoop = false ∧ x.isOnEnd = false := by
    simp [Item.isOnLoop, Item.isOnEnd]
  have hat : s.atLoop = false := by
    rw [State.atLoop, hw]
    rfl
  have howed : s.owed = 0 := by
    rw [State.owed, hc, hend, hw]
    rfl
  have hopen : loopOpen tr = false := by
    by_contra hne
    rw [Bool.not_eq_false, h.open_iff hat, howed] at hne
    cases hne
  have hgone : ({ s with worker := none, client := pc } : State).owed = 0 := by
    have hsame : ({ s with worker := none, client := pc } : State).owed = s.owed := by
      rw [State.owed, State.owed, State.ending, State.ending, State.allStops, State.allStops, hpc,
        hstops, hw]
      rfl
    rw [hsame, howed]
  refine ⟨⟨h.safe.turns.append_of_neither hneither,
      always_snoc.mpr ⟨h.safe.joined, fun _ => hopen⟩⟩, ?_, fun h => by cases h⟩
  rw [hgone, loopOpen, isOpen_append_of_neither hneither]
  show 0 = (loopOpen tr).toNat + 0
  rw [hopen]
  rfl

theorem ClientStep.loopInv {ok : Bool} {p : Members} {w : Option WorkerPc} {pc : ClientPc}
    {out : List Item} (h : ClientStep s ok p w pc out) (hinv : LoopInv s tr)
    (hscan : ScanInv s tr) (hflag : FlagInv s)
    (hflag' : FlagInv { s with obj := p, worker := w, client := pc })
    (hjoined : s.joins (.client ok) = true → s.ending = 0) :
    LoopInv { s with obj := p, worker := w, client := pc } (tr ++ out) := by
  have hstay : ∀ {out}, Mute out → p.checkInProgress = s.obj.checkInProgress → w = s.worker →
      LoopInv { s with obj := p, worker := w, client := pc } (tr ++ out) := fun hout hp hw =>
    hinv.extend hout (h.owed hp (by rw [hw])) (by rw [State.atLoop, hw]; rfl)
  have howed := h.owed
  have hstops := h.stops
  cases h with
  | called pc hpc h => exact hstay (mute_invoke _ _ (by simp) (by simp)) rfl rfl
  | joined hpc ho hw =>
    have hj : s.joins (.client ok) = true := by simp [State.joins, hpc, hw, ho]
    exact hinv.join hw (hflag'.unset rfl) (hjoined hj) rfl hstops
  | deleteJoined hpc hw =>
    have hj : s.joins (.client ok) = true := by simp [State.joins, hpc, hw]
    exact hinv.join hw (hflag'.unset rfl) (hjoined hj) rfl hstops
  | created hpc =>
    have hw := hscan.joined (by rw [hpc]; rfl)
    refine hinv.extend ⟨by simp [Item.isOnLoop, Item.isOnEnd], by simp⟩ (howed rfl ?_) ?_
    · rw [hw]
      rfl
    · unfold State.atLoop
      rw [hw]
      rfl
  | checkStored hpc =>
    exact hstay mute_nil (hflag.unset (hscan.joined (by rw [hpc]; rfl))).symm rfl
  | released hpc =>
    refine hstay ⟨?_, ?_⟩ rfl rfl
    · split <;> simp [Item.isOnLoop, Item.isOnEnd]
    · split <;> simp
  | deleted hpc hs =>
    have hout : Mute [.deleted] := ⟨by simp [Item.isOnLoop, Item.isOnEnd], by simp⟩
    exact hstay ((mute_invoke s.obj none (h := .onDelete) (by simp) (by simp)).append hout) rfl rfl
  | _ => exact hstay ⟨by simp [Item.isOnLoop, Item.isOnEnd], by simp⟩ rfl rfl

end Steps

/-! ## Every run -/

/-- Handlers that are not both set are both not set, and not called. -/
theorem neither_called {s : State} {tr : List Item}
    (h : machine.ReachIf (fun s _ i => EndsPaired s i) s tr)
    (hset : ¬(s.obj.handlers.onLoop = true ∧ s.obj.handlers.onEnd = true)) :
    ∀ x ∈ tr, x.isOnLoop = false ∧ x.isOnEnd = false := by
  cases h with
  | init h => exact fun _ hx => by cases hx
  | @step s0 _ tr0 out i h hok hs =>
    have hreach := (Machine.ReachIf.step h hok hs).reach
    have hsame : s.obj.handlers.onLoop = s.obj.handlers.onEnd := by
      rw [(step_handlers hs).1]
      exact hok.handlers
    rw [← hsame, and_self] at hset
    intro x hx
    constructor
    · cases x with
      | handler k hd =>
        cases hd with
        | onLoop => exact absurd (handler_set hreach hx) hset
        | _ => rfl
      | _ => rfl
    · cases x with
      | handler k hd =>
        cases hd with
        | onEnd => exact absurd (hsame.trans (handler_set hreach hx)) hset
        | _ => rfl
      | _ => rfl

theorem loopInv_reach {s : State} {tr : List Item}
    (h : machine.ReachIf (fun s _ i => EndsPaired s i) s tr)
    (hset : s.obj.handlers.onLoop = true ∧ s.obj.handlers.onEnd = true) : LoopInv s tr := by
  revert hset
  refine h.invariant_of (J := fun s tr => ScanInv s tr ∧ FlagInv s)
    (I := fun s tr => s.obj.handlers.onLoop = true ∧ s.obj.handlers.onEnd = true → LoopInv s tr)
    (fun h => ⟨scanInv_reach h.reach, flagInv_reach h⟩) ?_ ?_
  · rintro s ⟨handlers, pipe, device, rfl⟩ _
    exact ⟨⟨always_nil _, always_nil _⟩, rfl, fun h => by cases h⟩
  · rintro s tr i s' out ⟨hscan, hflag⟩ hinv hok hs hset
    rw [(step_handlers hs).1] at hset
    have hinv := hinv hset
    cases machine_step hs with
    | start hpc =>
      refine hinv.extend ⟨by simp [Item.isOnLoop, Item.isOnEnd], by simp⟩ ?_ rfl
      simp [State.owed, State.ending, State.allStops, hpc, ClientPc.stops]
    | stop hpc =>
      refine hinv.extend ⟨by simp [Item.isOnLoop, Item.isOnEnd], by simp⟩ ?_ rfl
      simp [State.owed, State.ending, State.allStops, hpc, ClientPc.stops, StopPc.atEnd]
    | delete hpc =>
      refine hinv.extend ⟨by simp [Item.isOnLoop, Item.isOnEnd], by simp⟩ ?_ rfl
      simp [State.owed, State.ending, State.allStops, hpc, ClientPc.stops, StopPc.atEnd]
    | client ok p w pc out h =>
      have hflag' := h.flagInv hflag hscan fun hj => (hok.joined hj).2
      exact h.loopInv hinv hscan hflag hflag' fun hj => (hok.joined hj).1
    | otherStop hpc =>
      refine hinv.extend ⟨by simp [Item.isOnLoop, Item.isOnEnd], by simp⟩ ?_ rfl
      simp [State.owed, State.ending, State.allStops, StopPc.atEnd]
    | stopStep i ok pc pc' client stops p out hi hr h =>
      exact h.loopInv hr hinv hset.2 fun hpc => hok.ended (by rw [hi]; exact hpc)
    | worker o pc p queue pc' out hw h =>
      exact h.loopInv hw hinv hset.1 hset.2 hflag fun hpc => hok.begun rfl (hpc ▸ hw)
    | emit body => exact hinv.extend ⟨by simp [Item.isOnLoop, Item.isOnEnd], by simp⟩ rfl rfl

/-- **`on_loop` and `on_end` take turns, and a worker is joined after its last `on_end`**, in
every run where each is owed what it calls. -/
theorem loops_safe {s : State} {tr : List Item}
    (h : machine.ReachIf (fun s _ i => EndsPaired s i) s tr) : LoopsSafe tr := by
  by_cases hset : s.obj.handlers.onLoop = true ∧ s.obj.handlers.onEnd = true
  · exact (loopInv_reach h hset).safe
  · -- neither is set, and neither is called
    have hcalls := neither_called h hset
    refine ⟨Alternate.append_of_neither (always_nil _) hcalls, ?_⟩
    rintro pre c post rfl _
    have hopen : loopOpen ([] ++ pre) = false :=
      isOpen_append_of_neither fun x hx => hcalls x (List.mem_append_left _ hx)
    exact hopen

/-- The finger matches, and the object is destroyed. -/
def sampleMatched : List Input :=
  sampleMatch ++ [Input.delete] ++ List.replicate 3 (Input.client true) ++
  sampleWorker 4 .nothing ++ List.replicate 4 (Input.client true)

theorem matchedRun_isSome :
    (machine.exec (start allHandlers true true) sampleMatched).isSome = true := by
  decide

def matchedRun : State × List Item :=
  (machine.exec (start allHandlers true true) sampleMatched).get matchedRun_isSome

theorem matchedRun_paired : machine.Meets (fun s _ i => EndsPaired s i)
    (start allHandlers true true) [] sampleMatched := by
  decide

/-- The scan has its `on_end` there, and the worker is joined. -/
theorem loops_safe_matchedRun :
    (.handler (some 0) .onEnd ∈ matchedRun.2 ∧ .joined ∈ matchedRun.2) ∧ LoopsSafe matchedRun.2 :=
  ⟨by decide,
    loops_safe (Machine.reachIf_exec (start_init _ _ _) matchedRun_paired matchedRun_isSome)⟩

/-! ## A scan that is broken off -/

/-- The bus fails in the scan. -/
def sampleFailed : List Input :=
  sampleStart ++ sampleWorker 1 .failed ++ sampleWorker 6 .nothing

theorem failedRun_isSome :
    (machine.exec (start allHandlers true true) sampleFailed).isSome = true := by
  decide

def failedRun : State × List Item :=
  (machine.exec (start allHandlers true true) sampleFailed).get failedRun_isSome

/-- **Not in every run**: `on_loop` is called twice, and no `on_end`. -/
theorem loops_unpaired : ¬∀ s tr, machine.Reach s tr → LoopsSafe tr := by
  intro h
  have hsafe := h _ _ (Machine.reach_exec (start_init _ _ _) failedRun_isSome)
  have hnot : ¬Alternate Item.isOnLoop Item.isOnEnd failedRun.2 := by decide
  exact hnot hsafe.turns

end Auth.Fingerprint
