import Kirilock.FingerprintEnd
import Kirilock.FingerprintLoop

/-!
`on_start` and `on_stop`.

`on_stop` is called by the `stop` that takes `check_in_progress_`, and by nothing
else: a session whose worker breaks out of its loop, that cannot make its worker, or
that is stopped between two scans has none, and one where a late `stop` ends a scan
and the worker begins another has two.  So each `on_start` has its `on_stop`
(`StopsSafe`) in the runs where the worker is made, the `stop` that clears
`is_running_` comes in a scan, that scan is the session's last, and the `stop` is
past its `on_stop` when the session ends (`StopsMeet`); `stops_missing` is a run
without an `on_stop`.
-/

namespace Auth.Fingerprint

open Runs

/-! ## The rule -/

/-- The calls of `on_stop` since the last `on_start`; `none` before one. -/
def Item.stopsNext (acc : Option Nat) : Item → Option Nat
  | .handler _ .onStart => some 0
  | .handler _ .onStop => acc.map (· + 1)
  | _ => acc

def stopsSince (tr : List Item) : Option Nat := tr.foldl Item.stopsNext none

/-- A session ends here. -/
def Item.endsSession : Item → Bool
  | .handler _ .onStart => true
  | .handler _ .onDelete => true
  | _ => false

def Item.isOnStop : Item → Bool
  | .handler _ .onStop => true
  | _ => false

/-- A session ends after one `on_stop`, and a second one is not called in it. -/
def StopRule (pre : List Item) (c : Item) : Prop :=
  (c.endsSession = true → ∀ k, stopsSince pre = some k → k = 1) ∧
    (c.isOnStop = true → ∀ k, stopsSince pre = some k → k = 0)

/-- Each `on_start` is followed by one `on_stop` before the next `on_start` and before
`on_delete`. -/
def StopsSafe (tr : List Item) : Prop := Always StopRule tr

/-! ## The runs -/

/-- It took `check_in_progress_` and has not come past its `on_stop`. -/
def StopPc.atHandlers : StopPc → Bool
  | .onEnd _ => true
  | .onStop _ => true
  | _ => false

def State.pending (s : State) : Nat := s.allStops.countP StopPc.atHandlers

/-- The step is that of a `stop` that takes `check_in_progress_`. -/
def State.takesCheck (s : State) (i : Input) : Bool :=
  match s.moving i with
  | some (.compareCheck _) => s.obj.checkInProgress
  | _ => false

/-- The step is that of a `stop` that finds no scan on. -/
def State.missesCheck (s : State) (i : Input) : Bool :=
  match s.moving i with
  | some (.compareCheck _) => !s.obj.checkInProgress
  | _ => false

/-- The client's step at one of its places. -/
def State.clientStep (s : State) (pc : ClientPc) : Input → Bool
  | .client _ => s.client == pc
  | _ => false

/-- Whether a `stop` found a scan on since `start` called `on_start`; `none` before that. -/
def State.noteMet (g : Option Bool) (s : State) (i : Input) : Option Bool :=
  if s.clientStep .onStart i then some false
  else if s.takesCheck i then g.map fun _ => true
  else g

abbrev sessions : Machine (State × Option Bool) Input Item := machine.noting none State.noteMet

/-- The step calls `on_start`, or `on_delete` where it is set. -/
def State.endsSession (s : State) (i : Input) : Bool :=
  s.clientStep .onStart i || s.clientStep .onDelete i && s.obj.handlers.onDelete

/-- The worker can come to the store of the flag: it is on its way from `VerifyStart`, or
`is_running_` is true and it did not break out of its loop. -/
def WorkerPc.mayScan (running : Bool) : WorkerPc → Bool
  | .verifyStart => true
  | .storeCheck => true
  | .notFound => false
  | .startFailed _ => false
  | .leave => false
  | .exited => false
  | _ => running

def State.mayScan (s : State) : Bool := s.worker.any (WorkerPc.mayScan s.obj.isRunning)

/-- `is_running_` is false, or true for a session that is yet to call `on_start`. -/
def State.cleared (s : State) : Bool :=
  !s.obj.isRunning || s.client == .storeCheck || s.client == .onStart

/-- The destructor runs, and calls no `on_delete`. -/
def State.unasked (s : State) : Bool := s.client.deleting && !s.obj.handlers.onDelete

/-- A session has one `stop` that finds a scan on. -/
@[mk_iff]
structure MetOnce (s : State × Option Bool) (i : Input) : Prop where
  /-- `on_start` throws nothing, and the thread is made, … -/
  made : i = .client false → s.1.client ≠ .onStart ∧ s.1.client ≠ .create
  /-- … and no `stop` came before them -/
  begun : s.1.clientStep .onStart i = true → s.1.obj.isRunning = true
  /-- a `stop` that comes between scans, or after the last one, is not the one that the session
  waits for -/
  met : s.1.missesCheck i = true → s.2 = some false →
    s.1.cleared = false ∨ 2 ≤ s.1.coming ∨ s.1.unasked = true
  /-- the scan that a `stop` ends is the last one -/
  last : s.1.takesCheck i = true → s.1.mayScan = false
  /-- the session ends after that `stop` -/
  ended : s.1.endsSession i = true → s.2 = none ∨
    s.1.obj.handlers.onStop = true ∧ s.1.pending = 0 ∧ (s.2 = some false → s.1.coming = 0)

instance (s : State × Option Bool) (i : Input) : Decidable (MetOnce s i) :=
  decidable_of_iff _ (metOnce_iff s i).symm

/-- Where `on_start` is set. -/
abbrev StopsMeet (s : State × Option Bool) (i : Input) : Prop :=
  s.1.obj.handlers.onStart = true → MetOnce s i

/-! ## What a `stop` finds -/

/-- Places of `start` after the end of a session. -/
def ClientPc.halted : ClientPc → Bool
  | .join => true
  | .drain => true
  | .storeRunning => true
  | .catchStore => true
  | _ => false

/-- Where the client is in the course of a session. -/
structure PlaceInv (s : State × Option Bool) : Prop where
  worker : s.2 ≠ none → s.1.worker = none → s.1.client.joined = true
  halted : s.2 ≠ none → s.1.client.halted = true → s.1.obj.isRunning = false
  unset : s.1.client = .onStart ∨ s.1.client = .create → s.1.obj.checkInProgress = false
  made : s.1.client = .create → s.2 = some false

/-- A session that was stopped waits for a `stop` to end its scan, or had its last scan. -/
structure MetInv (s : State × Option Bool) : Prop where
  before : s.2 = none → s.1.obj.checkInProgress = false ∧ s.1.worker = none
  waits : s.2 = some false → s.1.cleared = true → 0 < s.1.coming ∨ s.1.unasked = true
  last : s.2 = some true → s.1.obj.checkInProgress = false ∧ s.1.mayScan = false

section Finds

variable {s s' : State} {g : Option Bool} {tr : List Item}

/-- `start` goes on from `on_start` to the thread. -/
theorem onStart_create {out : List Item} (hpc : s.client = .onStart)
    (hs : machine.step s (.client true) = some (s', out)) : s'.client = .create := by
  simp only [machine, State.step, State.runClient, hpc, State.clientAt] at hs
  cases hs
  rfl

theorem clientStep_eq {pc : ClientPc} {i : Input} (h : s.clientStep pc i = true) :
    s.client = pc := by
  cases i with
  | client ok => simpa [State.clientStep] using h
  | _ => cases h

/-- A `stop` is not where `start` calls `on_start`. -/
theorem clientStep_of_moving {i : Input} {pc : StopPc} (hi : s.moving i = some pc) :
    s.clientStep .onStart i = false := by
  by_contra hne
  rw [Bool.not_eq_false] at hne
  cases i with
  | client ok =>
    rw [State.moving, clientStep_eq hne] at hi
    cases hi
  | _ => cases hne

theorem cleared_of_unjoined (hj : s.client.joined = false) : s.cleared = !s.obj.isRunning := by
  unfold State.cleared
  cases hpc : s.client with
  | storeCheck | onStart =>
    rw [hpc] at hj
    cases hj
  | _ => cases s.obj.isRunning <;> rfl

theorem noteMet_of_not {i : Input} (hat : s.clientStep .onStart i = false)
    (ht : s.takesCheck i = false) : State.noteMet g s i = g := by
  simp [State.noteMet, hat, ht]

theorem ClientStep.takesCheck {ok : Bool} {p : Members} {w : Option WorkerPc} {pc : ClientPc}
    {out : List Item} (h : ClientStep s ok p w pc out) : s.takesCheck (.client ok) = false := by
  simp [State.takesCheck, State.moving, h.stops]

theorem ClientStep.note {ok : Bool} {p : Members} {w : Option WorkerPc} {pc : ClientPc}
    {out : List Item} (h : ClientStep s ok p w pc out) (hne : s.client ≠ .onStart) :
    State.noteMet g s (.client ok) = g :=
  noteMet_of_not (by simpa [State.clientStep] using hne) h.takesCheck

/-! ### The client's places -/

theorem ClientStep.placeInv {ok : Bool} {p : Members} {w : Option WorkerPc} {pc : ClientPc}
    {out : List Item} (h : ClientStep s ok p w pc out) (hinv : PlaceInv (s, g))
    (hok : s.client = .create → ok = true) (hcreate : s.client = .onStart → pc = .create) :
    PlaceInv ({ s with obj := p, worker := w, client := pc },
      State.noteMet g s (.client ok)) := by
  -- a step from another place than `on_start`
  have hstay : s.client ≠ .onStart → (g ≠ none → w = none → pc.joined = true) →
      (g ≠ none → pc.halted = true → p.isRunning = false) →
      (pc = .onStart → p.checkInProgress = false) → pc ≠ .create →
      PlaceInv ({ s with obj := p, worker := w, client := pc },
        State.noteMet g s (.client ok)) := by
    intro hne hw hr hu hc
    rw [h.note hne]
    exact ⟨hw, hr, fun hpc => hpc.elim hu fun he => absurd he hc, fun he => absurd he hc⟩
  -- a step to a place where nothing is asked of the members
  have hleaves : pc.halted = false → pc ≠ .onStart → pc ≠ .create → s.client ≠ .onStart →
      (g ≠ none → w = none → pc.joined = true) →
      PlaceInv ({ s with obj := p, worker := w, client := pc },
        State.noteMet g s (.client ok)) := fun h1 h2 h3 hne hw =>
    hstay hne hw (fun _ hpc => Bool.noConfusion (h1.symm.trans hpc)) (fun hpc => absurd hpc h2) h3
  have hworker : g ≠ none → s.worker = none → s.client.joined = true := hinv.worker
  have hhalted : g ≠ none → s.client.halted = true → s.obj.isRunning = false := hinv.halted
  cases h with
  | refused hpc hw hr =>
    refine hleaves rfl (by simp) (by simp) (by simp [hpc]) fun _ h0 => ?_
    rw [h0] at hw
    cases hw
  | loaded hpc hw hr =>
    refine hstay (by simp [hpc]) (fun _ h0 => ?_) (fun _ _ => hr) (by simp) (by simp)
    rw [h0] at hw
    cases hw
  | unjoinable hpc hw =>
    refine hstay (by simp [hpc]) (fun _ _ => rfl) (fun hg _ => ?_) (by simp) (by simp)
    have hjoined := hworker hg hw
    rw [hpc] at hjoined
    cases hjoined
  | threw hpc ho =>
    have hjoin : s.client = .join := hpc.resolve_right fun hc => by
      rw [hok hc] at ho
      cases ho
    rw [hjoin] at hworker hhalted
    refine hstay (by simp [hjoin]) (fun hg h0 => ?_) (fun hg _ => hhalted hg rfl) (by simp)
      (by simp)
    cases hworker hg h0
  | joined hpc ho hw =>
    rw [hpc] at hhalted
    exact hstay (by simp [hpc]) (fun _ _ => rfl) (fun hg _ => hhalted hg rfl) (by simp) (by simp)
  | drains n hpc hp | drained hpc hp =>
    rw [hpc] at hhalted
    exact hstay (by simp [hpc]) (fun _ _ => rfl) (fun hg _ => hhalted hg rfl) (by simp) (by simp)
  | runningStored hpc => exact hleaves rfl (by simp) (by simp) (by simp [hpc]) fun _ _ => rfl
  | checkStored hpc =>
    exact hstay (by simp [hpc]) (fun _ _ => rfl) (by simp [ClientPc.halted]) (fun _ => rfl)
      (by simp)
  | called pc hpc h =>
    rw [hcreate hpc]
    have hnote : State.noteMet g s (.client ok) = some false := by
      simp [State.noteMet, State.clientStep, hpc]
    exact ⟨fun _ _ => rfl, by simp [ClientPc.halted], fun _ => hinv.unset (Or.inl hpc),
      fun _ => hnote⟩
  | created hpc => exact hleaves rfl (by simp) (by simp) (by simp [hpc]) (by simp)
  | caught hpc =>
    rw [hpc] at hworker
    refine hleaves rfl (by simp) (by simp) (by simp [hpc]) fun hg h0 => ?_
    cases hworker hg h0
  | deleteUnjoinable hpc | deleteJoined hpc | released hpc | closed hpc | deleted hpc =>
    exact hleaves rfl (by simp) (by simp) (by simp [hpc]) fun _ _ => rfl

/-- A `stop` moves the client only between places without a session's end. -/
theorem Replaces.client_of {pc : StopPc} {pc' : Option StopPc} {client : ClientPc}
    {stops : List StopPc} (h : Replaces s pc pc' client stops) : client = s.client ∨
      client.joined = false ∧ client.halted = false ∧ s.client.joined = false := by
  cases h with
  | client hpc =>
    rw [hpc]
    cases pc' <;> exact Or.inr ⟨rfl, rfl, rfl⟩
  | delete hpc =>
    rw [hpc]
    cases pc' <;> exact Or.inr ⟨rfl, rfl, rfl⟩
  | other l1 l2 hs => exact Or.inl rfl

theorem StopStep.unset {p p' : Members} {ok : Bool} {pc : StopPc} {pc' : Option StopPc}
    {out : List Item} (h : StopStep p ok pc pc' p' out) (hc : p.checkInProgress = false) :
    p'.checkInProgress = false := by
  cases h with
  | took found hf => rfl
  | _ => exact hc

theorem takesCheck_unset {i : Input} (hc : s.obj.checkInProgress = false) :
    s.takesCheck i = false := by
  unfold State.takesCheck
  split
  · exact hc
  · rfl

theorem noteMet_none {i : Input} (h : State.noteMet g s i ≠ none)
    (hat : s.clientStep .onStart i = false) : g ≠ none := by
  rintro rfl
  refine h ?_
  unfold State.noteMet
  rw [hat]
  split
  · contradiction
  · split <;> rfl

theorem StopStep.placeInv {ok : Bool} {pc : StopPc} {pc' : Option StopPc} {p : Members}
    {out : List Item} (h : StopStep s.obj ok pc pc' p out) {i : Input}
    (hi : s.moving i = some pc) {client : ClientPc} {stops : List StopPc}
    (hr : Replaces s pc pc' client stops) (hinv : PlaceInv (s, g)) :
    PlaceInv ({ s with obj := p, client := client, stops := stops }, State.noteMet g s i) := by
  have hat := clientStep_of_moving hi
  have hg : State.noteMet g s i ≠ none → g ≠ none := fun hne => noteMet_none hne hat
  rcases hr.client_of with rfl | ⟨hjoined, hhalted, hbefore⟩
  · refine ⟨fun hne => hinv.worker (hg hne), fun hne hpc => h.cleared (hinv.halted (hg hne) hpc),
      fun hpc => h.unset (hinv.unset hpc), fun hpc => ?_⟩
    rw [noteMet_of_not hat (takesCheck_unset (hinv.unset (Or.inr hpc)))]
    exact hinv.made hpc
  · refine ⟨fun hne hw => ?_, fun _ hpc => ?_, fun hpc => ?_, fun hpc => ?_⟩
    · cases hbefore.symm.trans (hinv.worker (hg hne) hw)
    · cases hhalted.symm.trans hpc
    · rcases hpc with rfl | rfl <;> cases hjoined
    · have hcreate : client = .create := hpc
      rw [hcreate] at hjoined
      cases hjoined

theorem placeInv_step {s' : State} {i : Input} {out : List Item} (hinv : PlaceInv (s, g))
    (hscan : ScanInv s tr) (hmade : i = .client false → s.client ≠ .onStart ∧ s.client ≠ .create)
    (hs : machine.step s i = some (s', out)) : PlaceInv (s', State.noteMet g s i) := by
  cases hstep : machine_step hs with
  | start hpc | stop hpc | delete hpc =>
    have hw : g ≠ none → s.worker ≠ none := fun hg h0 => by
      have hjoined := hinv.worker hg h0
      have hidle : s.client = .idle := hpc
      rw [hidle] at hjoined
      cases hjoined
    exact ⟨fun hg h0 => absurd h0 (hw hg), by simp [ClientPc.halted], by simp, by simp⟩
  | client ok p w pc out h =>
    have hok : ok = false → s.client ≠ .onStart ∧ s.client ≠ .create := fun he => hmade (he ▸ rfl)
    refine h.placeInv hinv (fun hpc => ?_) fun hpc => ?_
    · cases ok with
      | true => rfl
      | false => exact absurd hpc (hok rfl).2
    · cases ok with
      | true => exact onStart_create hpc hs
      | false => exact absurd hpc (hok rfl).1
  | otherStop hpc => exact ⟨hinv.worker, hinv.halted, hinv.unset, hinv.made⟩
  | stopStep i ok pc pc' client stops p out hi hr h => exact h.placeInv hi hr hinv
  | worker o pc p queue pc' out hw h =>
    have hne : s.client.joined = true → False := fun hj => by
      rw [hscan.joined hj] at hw
      cases hw
    refine ⟨fun _ h0 => ?_, fun hg hpc => h.keepsRunning.trans (hinv.halted hg hpc),
      fun hpc => ?_, hinv.made⟩
    · cases h0
    · exact (hne (by rcases hpc with hpc | hpc <;> (rw [show s.client = _ from hpc]; rfl))).elim
  | emit body => exact ⟨hinv.worker, hinv.halted, hinv.unset, hinv.made⟩

/-! ### The last scan -/

theorem WorkerPc.mayScan_mono {pc : WorkerPc} {r : Bool} (h : pc.mayScan r = false) :
    pc.mayScan false = false := by
  cases pc <;> first | rfl | exact h

/-- What the worker can come to it can come to only on the way to a scan. -/
theorem WorkerStep.mayScan {o : WorkerOutcomes} {pc : WorkerPc} {p : Members}
    {queue : List (Nat × Signal)} {pc' : WorkerPc} {out : List Item}
    (h : WorkerStep s o pc p queue pc' out) (hpc : pc.mayScan s.obj.isRunning = false) :
    pc'.mayScan s.obj.isRunning = false := by
  cases h with
  | goes h =>
    cases h with
    | running hr hd | noDevice hr hd | inner hr =>
      rw [hr] at hpc
      cases hpc
    | exits hr | leaves => rfl
    | _ => exact hpc
  | called hc =>
    cases hc with
    | verdict k result done => cases done <;> exact hpc
    | notFound | startFailed msg => rfl
    | _ => exact hpc
  | verifyStarted ho | verifyFailed msg ho | checkStored => cases hpc
  | _ => exact hpc

theorem ClientStep.unset {ok : Bool} {p : Members} {w : Option WorkerPc} {pc : ClientPc}
    {out : List Item} (h : ClientStep s ok p w pc out) (hc : s.obj.checkInProgress = false) :
    p.checkInProgress = false := by
  cases h with
  | checkStored hpc => rfl
  | _ => exact hc

theorem ClientStep.mayScan {ok : Bool} {p : Members} {w : Option WorkerPc} {pc : ClientPc}
    {out : List Item} (h : ClientStep s ok p w pc out) (hscan : ScanInv s tr)
    (hne : s.client ≠ .create) (hm : s.mayScan = false) :
    ({ s with obj := p, worker := w, client := pc } : State).mayScan = false := by
  cases h with
  | created hpc => exact absurd hpc hne
  | joined | deleteJoined => rfl
  | runningStored hpc =>
    unfold State.mayScan
    rw [hscan.joined (by rw [hpc]; rfl)]
    rfl
  | caught hpc =>
    unfold State.mayScan at hm ⊢
    cases hw : s.worker with
    | none => rfl
    | some pc =>
      rw [hw] at hm
      exact WorkerPc.mayScan_mono hm
  | _ => exact hm

/-- A session that is stopped was stopped, or has ended. -/
theorem ClientStep.cleared' {ok : Bool} {p : Members} {w : Option WorkerPc} {pc : ClientPc}
    {out : List Item} (h : ClientStep s ok p w pc out) (hplace : PlaceInv (s, some false))
    (hne : s.client ≠ .onStart)
    (hc : ({ s with obj := p, worker := w, client := pc } : State).cleared = true) :
    s.cleared = true := by
  have hhalted : s.client.halted = true → s.cleared = true := fun hpc => by
    have hr : s.obj.isRunning = false := hplace.halted (by simp) hpc
    rw [State.cleared, hr]
    rfl
  cases h with
  | runningStored hpc | caught hpc => exact hhalted (by rw [hpc]; rfl)
  | checkStored hpc => simp [State.cleared, hpc]
  | called pc hpc => exact absurd hpc hne
  | _ =>
    have hr : s.obj.isRunning = false := by simpa [State.cleared] using hc
    simp [State.cleared, hr]

theorem ClientStep.unasked {ok : Bool} {p : Members} {w : Option WorkerPc} {pc : ClientPc}
    {out : List Item} (h : ClientStep s ok p w pc out) (hu : s.unasked = true) :
    ({ s with obj := p, worker := w, client := pc } : State).unasked = true := by
  obtain ⟨hd, hset⟩ := Bool.and_eq_true_iff.mp hu
  show (pc.deleting && !p.handlers.onDelete) = true
  rw [(h.rank hd).1, h.handlers.1, hset]
  rfl

theorem ClientStep.metInv {ok : Bool} {p : Members} {w : Option WorkerPc} {pc : ClientPc}
    {out : List Item} (h : ClientStep s ok p w pc out) (hinv : MetInv (s, g))
    (hplace : PlaceInv (s, g)) (hscan : ScanInv s tr) (hcreate : s.client = .onStart → pc = .create)
    (hbegun : s.clientStep .onStart (.client ok) = true → s.obj.isRunning = true) :
    MetInv ({ s with obj := p, worker := w, client := pc }, State.noteMet g s (.client ok)) := by
  by_cases hpc : s.client = .onStart
  · -- a session begins, and nothing has stopped it
    have hat : s.clientStep .onStart (.client ok) = true := by simp [State.clientStep, hpc]
    rw [State.noteMet, if_pos hat]
    refine ⟨by simp, fun _ hc => ?_, by simp⟩
    have hr := hbegun hat
    cases hcreate hpc
    cases h with
    | called pc hpc h =>
      rw [State.cleared, hr] at hc
      cases hc
  · rw [h.note hpc]
    have hcoming : ({ s with obj := p, worker := w, client := pc } : State).coming = s.coming := by
      show (pc.stops ++ s.stops).countP StopPc.looks = s.allStops.countP StopPc.looks
      rw [State.allStops, h.stops, h.stops']
    refine ⟨fun hg => ?_, fun hg hc => ?_, fun hg => ?_⟩
    · obtain ⟨hf, hw⟩ := hinv.before hg
      refine ⟨h.unset hf, ?_⟩
      cases h with
      | created hpc => cases (hplace.made hpc).symm.trans hg
      | joined | deleteJoined => rfl
      | _ => exact hw
    · have hg : g = some false := hg
      subst hg
      rw [hcoming]
      exact (hinv.waits rfl (h.cleared' hplace hpc hc)).imp_right h.unasked
    · obtain ⟨hf, hm⟩ := hinv.last hg
      refine ⟨h.unset hf, h.mayScan hscan (fun he => ?_) hm⟩
      cases (hplace.made he).symm.trans hg

theorem Replaces.deleting {pc : StopPc} {pc' : Option StopPc} {client : ClientPc}
    {stops : List StopPc} (h : Replaces s pc pc' client stops) :
    client.deleting = s.client.deleting := by
  cases h with
  | client hpc =>
    rw [hpc]
    cases pc' <;> rfl
  | delete hpc =>
    rw [hpc]
    cases pc' <;> rfl
  | other l1 l2 hs => rfl

theorem StopStep.metInv {ok : Bool} {pc : StopPc} {pc' : Option StopPc} {p : Members}
    {out : List Item} (h : StopStep s.obj ok pc pc' p out) {i : Input}
    (hi : s.moving i = some pc) {client : ClientPc} {stops : List StopPc}
    (hr : Replaces s pc pc' client stops) (hinv : MetInv (s, g))
    (hmet : s.missesCheck i = true → g = some false →
      s.cleared = false ∨ 2 ≤ s.coming ∨ s.unasked = true)
    (hlast : s.takesCheck i = true → s.mayScan = false) :
    MetInv ({ s with obj := p, client := client, stops := stops }, State.noteMet g s i) := by
  have hat := clientStep_of_moving hi
  have hcount := hr.countP StopPc.looks
  have hmay : s.mayScan = false → s.worker.any (WorkerPc.mayScan p.isRunning) = false := by
    unfold State.mayScan
    cases s.worker with
    | none => exact fun _ => rfl
    | some pc =>
      intro hm
      rcases h.isRunning with hp | hp
      · rw [hp]
        exact hm
      · rw [hp]
        exact WorkerPc.mayScan_mono hm
  have hunasked : s.unasked = true → (client.deleting && !p.handlers.onDelete) = true := by
    intro hu
    obtain ⟨hd, hset⟩ := Bool.and_eq_true_iff.mp hu
    rw [hr.deleting, hd, h.handlers.1, hset]
    rfl
  -- a step that does not take the flag
  have hkeeps : s.takesCheck i = false →
      (g = some false →
        ({ s with obj := p, client := client, stops := stops } : State).cleared = true →
        0 < (client.stops ++ stops).countP StopPc.looks ∨ s.unasked = true) →
      MetInv ({ s with obj := p, client := client, stops := stops }, State.noteMet g s i) := by
    intro ht hw
    rw [noteMet_of_not hat ht]
    refine ⟨fun hg => ⟨h.unset (hinv.before hg).1, (hinv.before hg).2⟩,
      fun hg hc => (hw hg hc).imp_right hunasked, fun hg => ?_⟩
    obtain ⟨hf, hm⟩ := hinv.last hg
    exact ⟨h.unset hf, hmay hm⟩
  -- and that leaves `is_running_` alone
  have hcleared : p.isRunning = s.obj.isRunning →
      ({ s with obj := p, client := client, stops := stops } : State).cleared = true →
      s.cleared = true := by
    intro hp hc
    rcases hr.client_of with rfl | ⟨hjoined, -, hbefore⟩
    · rw [State.cleared, hp] at hc
      exact hc
    · rw [cleared_of_unjoined hjoined] at hc
      rw [cleared_of_unjoined hbefore, ← hp]
      exact hc
  have hstays : s.takesCheck i = false → p.isRunning = s.obj.isRunning →
      pc.looks.toNat ≤ (pc'.any StopPc.looks).toNat →
      MetInv ({ s with obj := p, client := client, stops := stops }, State.noteMet g s i) := by
    intro ht hp hlooks
    refine hkeeps ht fun hg hc => (hinv.waits hg (hcleared hp hc)).imp_left fun h0 => ?_
    have hbefore : 0 < s.allStops.countP StopPc.looks := h0
    omega
  cases h with
  | claimed hr' =>
    refine hkeeps (by simp [State.takesCheck, hi]) fun _ _ => Or.inl ?_
    obtain ⟨l1, l2, -, hs'⟩ := hr.allStops
    exact List.countP_pos_iff.mpr ⟨.write, by simp [hs'], rfl⟩
  | missed hr' => exact hstays (by simp [State.takesCheck, hi]) rfl (Nat.le_refl _)
  | wrote => exact hstays (by simp [State.takesCheck, hi]) rfl (Nat.le_refl _)
  | took found hf =>
    have ht : s.takesCheck i = true := by simp [State.takesCheck, hi, hf]
    have hg : State.noteMet g s i = g.map fun _ => true := by simp [State.noteMet, hat, ht]
    rw [hg]
    refine ⟨fun hg => ⟨rfl, (hinv.before (Option.map_eq_none_iff.mp hg)).2⟩, fun hg => ?_,
      fun _ => ⟨rfl, hmay (hlast ht)⟩⟩
    cases g <;> cases hg
  | returned found hf =>
    refine hkeeps (by simp [State.takesCheck, hi, hf]) fun hg hc => ?_
    have hcl := hcleared rfl hc
    rcases hmet (by simp [State.missesCheck, hi, hf]) hg with hn | h2 | hu
    · cases hn.symm.trans hcl
    · have hbefore : 2 ≤ s.allStops.countP StopPc.looks := h2
      simp only [StopPc.looks, Option.any_none, Bool.toNat_true, Bool.toNat_false] at hcount
      exact Or.inl (by omega)
    · exact Or.inr hu
  | ended found => exact hstays (by simp [State.takesCheck, hi]) rfl (Nat.le_refl _)
  | stopped found => exact hstays (by simp [State.takesCheck, hi]) rfl (Nat.le_refl _)

theorem metInv_step {s' : State} {i : Input} {out : List Item} (hinv : MetInv (s, g))
    (hplace : PlaceInv (s, g)) (hscan : ScanInv s tr) (hok : MetOnce (s, g) i)
    (hs : machine.step s i = some (s', out)) : MetInv (s', State.noteMet g s i) := by
  cases machine_step hs with
  | start hpc =>
    refine ⟨hinv.before, fun hg hc => ?_, hinv.last⟩
    have hidle : s.client = .idle := hpc
    have hr : s.obj.isRunning = false := by simpa [State.cleared] using hc
    rcases hinv.waits hg (by simp [State.cleared, hr]) with h0 | hu
    · rw [State.coming, allStops_idle hidle] at h0
      exact Or.inl h0
    · rw [State.unasked, hidle] at hu
      cases hu
  | stop hpc | delete hpc =>
    have hcons : 0 < (StopPc.compareRunning :: s.stops).countP StopPc.looks :=
      List.countP_pos_iff.mpr ⟨.compareRunning, List.mem_cons_self .., rfl⟩
    exact ⟨hinv.before, fun _ _ => Or.inl hcons, hinv.last⟩
  | client ok p w pc out h =>
    refine h.metInv hinv hplace hscan (fun hpc => ?_) hok.begun
    cases ok with
    | true => exact onStart_create hpc hs
    | false => exact absurd hpc (hok.made rfl).1
  | otherStop hpc =>
    have hcons : StopPc.compareRunning ∈ s.client.stops ++ StopPc.compareRunning :: s.stops := by
      simp
    exact ⟨hinv.before, fun _ _ => Or.inl (List.countP_pos_iff.mpr ⟨_, hcons, rfl⟩), hinv.last⟩
  | stopStep i ok pc pc' client stops p out hi hr h =>
    exact h.metInv hi hr hinv hok.met hok.last
  | worker o pc p queue pc' out hw h =>
    refine ⟨fun hg => ?_, fun hg hc => ?_, fun hg => ?_⟩
    · have h0 := (hinv.before hg).2
      have hw' : s.worker = none := h0
      rw [hw] at hw'
      cases hw'
    · have hr : p.isRunning = s.obj.isRunning := h.keepsRunning
      rw [State.cleared, State.worked, hr] at hc
      refine (hinv.waits hg hc).imp_right fun hu => ?_
      rw [State.unasked, State.worked, h.handlers.1]
      exact hu
    · obtain ⟨hf, hm⟩ := hinv.last hg
      have hpc : pc.mayScan s.obj.isRunning = false := by simpa [State.mayScan, hw] using hm
      refine ⟨?_, ?_⟩
      · cases h with
        | checkStored => cases hpc
        | scanEnded k hc => rfl
        | _ => exact hf
      · show pc'.mayScan p.isRunning = false
        rw [h.keepsRunning]
        exact h.mayScan hpc
  | emit body => exact ⟨hinv.before, hinv.waits, hinv.last⟩

end Finds

/-! ## The invariant -/

/-- The `stop` that found a scan on in this session has called `on_stop` or is to. -/
structure SessionInv (s : State × Option Bool) (tr : List Item) : Prop where
  rule : StopsSafe tr
  before : s.2 = none → stopsSince tr = none ∧ s.1.pending = 0
  count : ∀ met, s.2 = some met → s.1.obj.handlers.onStop = true →
    ∃ m, stopsSince tr = some m ∧ m + s.1.pending = met.toNat

/-- No calls of `on_start`, `on_stop` or `on_delete`. -/
def Hushed (out : List Item) : Prop :=
  ∀ x ∈ out, x.endsSession = false ∧ x.isOnStop = false

theorem hushed_nil : Hushed [] := List.forall_mem_nil _

theorem hushed_invoke (p : Members) (k : Option Nat) {h : Handler} (h1 : h ≠ .onStart)
    (h2 : h ≠ .onStop) (h3 : h ≠ .onDelete) : Hushed (p.invoke k h) := by
  intro x hx
  rw [p.invoke_items k h x hx]
  cases h with
  | onStart => exact absurd rfl h1
  | onStop => exact absurd rfl h2
  | onDelete => exact absurd rfl h3
  | _ => exact ⟨rfl, rfl⟩

@[simp] theorem stopsSince_snoc (tr : List Item) (x : Item) :
    stopsSince (tr ++ [x]) = Item.stopsNext (stopsSince tr) x := by
  simp [stopsSince]

theorem stopsNext_of_hushed {x : Item} (h : x.endsSession = false ∧ x.isOnStop = false)
    (acc : Option Nat) : Item.stopsNext acc x = acc := by
  cases x with
  | handler k hd =>
    cases hd with
    | onStart => cases h.1
    | onStop => cases h.2
    | _ => rfl
  | _ => rfl

theorem stopsSince_append {tr out : List Item} (h : Hushed out) :
    stopsSince (tr ++ out) = stopsSince tr := by
  induction out generalizing tr with
  | nil => simp
  | cons x out ih =>
    rw [List.append_cons, ih fun y hy => h y (List.mem_cons_of_mem _ hy), stopsSince_snoc,
      stopsNext_of_hushed (h x (List.mem_cons_self ..))]

theorem StopsSafe.append {tr out : List Item} (h : StopsSafe tr) (hout : Hushed out) :
    StopsSafe (tr ++ out) :=
  Always.append_of_forall h fun x hx _ => by
    obtain ⟨h1, h2⟩ := hout x hx
    simp [StopRule, h1, h2]

section Steps

variable {s : State} {g : Option Bool} {tr : List Item}

theorem SessionInv.extend (h : SessionInv (s, g) tr) {s' : State} {out : List Item}
    (hout : Hushed out) (hset : s'.obj.handlers = s.obj.handlers) (hp : s'.pending = s.pending) :
    SessionInv (s', g) (tr ++ out) where
  rule := h.rule.append hout
  before hg := by
    rw [stopsSince_append hout, hp]
    exact h.before hg
  count k hg hon := by
    rw [stopsSince_append hout, hp]
    exact h.count k hg (hset ▸ hon)

/-- A session that ends with its `on_stop`. -/
def Done (s : State) (g : Option Bool) : Prop :=
  g = none ∨ g = some true ∧ s.pending = 0 ∧ s.obj.handlers.onStop = true

theorem SessionInv.done (h : SessionInv (s, g) tr) (hdone : Done s g) :
    s.pending = 0 ∧ ∀ k, stopsSince tr = some k → k = 1 := by
  rcases hdone with rfl | ⟨rfl, hpend, hon⟩
  · obtain ⟨h1, h2⟩ := h.before rfl
    exact ⟨h2, fun k hk => by cases h1.symm.trans hk⟩
  · obtain ⟨m, hm, hsum⟩ := h.count true rfl hon
    have hm1 : m + s.pending = 1 := hsum
    refine ⟨hpend, fun k hk => ?_⟩
    rw [hm] at hk
    cases hk
    omega

/-- `start` calls `on_start`. -/
theorem SessionInv.starts (h : SessionInv (s, g) tr) {s' : State} (hp : s'.pending = s.pending)
    (hdone : Done s g) : SessionInv (s', some false) (tr ++ [Item.handler none .onStart]) where
  rule := always_snoc.mpr ⟨h.rule, fun _ => (h.done hdone).2, by simp [Item.isOnStop]⟩
  before := by simp
  count k hk _ := by
    cases hk
    refine ⟨0, by rw [stopsSince_snoc]; rfl, ?_⟩
    show 0 + s'.pending = 0
    rw [hp, (h.done hdone).1]

/-- The destructor calls `on_delete`. -/
theorem SessionInv.deletes (h : SessionInv (s, g) tr) {s' : State}
    (hset : s'.obj.handlers = s.obj.handlers) (hp : s'.pending = s.pending) (hdone : Done s g) :
    SessionInv (s', g) (tr ++ [Item.handler none .onDelete]) where
  rule := always_snoc.mpr ⟨h.rule, fun _ => (h.done hdone).2, by simp [Item.isOnStop]⟩
  before hg := by
    rw [stopsSince_snoc, hp]
    exact h.before hg
  count k hg hon := by
    rw [stopsSince_snoc, hp]
    exact h.count k hg (hset ▸ hon)

/-- A `stop` takes `check_in_progress_`. -/
theorem SessionInv.takes (h : SessionInv (s, some false) tr) {s' : State}
    (hset : s'.obj.handlers = s.obj.handlers) (hp : s'.pending = s.pending + 1) :
    SessionInv (s', some true) (tr ++ []) where
  rule := h.rule.append hushed_nil
  before := by simp
  count k hk hon := by
    cases hk
    obtain ⟨m, hm, hsum⟩ := h.count false rfl (hset ▸ hon)
    refine ⟨m, by rw [List.append_nil, hm], ?_⟩
    have hpend : m + s.pending = 0 := hsum
    show m + s'.pending = 1
    omega

theorem SessionInv.silent (h : SessionInv (s, g) tr) {s' : State}
    (hset : s'.obj.handlers = s.obj.handlers) (hp : s'.pending ≤ s.pending)
    (hon : ¬s.obj.handlers.onStop = true) : SessionInv (s', g) (tr ++ []) where
  rule := h.rule.append hushed_nil
  before hg := by
    obtain ⟨h1, h2⟩ := h.before hg
    have hpend : s.pending = 0 := h2
    exact ⟨by rw [List.append_nil, h1], show s'.pending = 0 by omega⟩
  count k _ hon' := absurd (hset ▸ hon') hon

/-- A `stop` calls `on_stop`. -/
theorem SessionInv.stops (h : SessionInv (s, g) tr) {s' : State} (hp : s'.pending + 1 = s.pending)
    (hon : s.obj.handlers.onStop = true) :
    SessionInv (s', g) (tr ++ [Item.handler none .onStop]) := by
  cases g with
  | none =>
    have hpend : s.pending = 0 := (h.before rfl).2
    omega
  | some met =>
    obtain ⟨m, hm, hsum⟩ := h.count met rfl hon
    have hmost : met.toNat ≤ 1 := Bool.toNat_le met
    have hpend : m + s.pending = met.toNat := hsum
    exact {
      rule := always_snoc.mpr ⟨h.rule, by simp [Item.endsSession], fun _ k' hk' => by
        rw [hm] at hk'
        cases hk'
        omega⟩
      before := by simp
      count := fun k' hk' _ => ⟨m + 1, by rw [stopsSince_snoc, hm]; rfl, by
        cases hk'
        show m + 1 + s'.pending = met.toNat
        omega⟩ }

theorem StopStep.sessionInv {ok : Bool} {pc : StopPc} {pc' : Option StopPc} {p : Members}
    {out : List Item} (h : StopStep s.obj ok pc pc' p out) {i : Input}
    (hi : s.moving i = some pc) {client : ClientPc} {stops : List StopPc}
    (hr : Replaces s pc pc' client stops) (hinv : SessionInv (s, g) tr)
    (htaken : s.takesCheck i = true → g = some false) :
    SessionInv ({ s with obj := p, client := client, stops := stops }, State.noteMet g s i)
      (tr ++ out) := by
  have hpend : ({ s with obj := p, client := client, stops := stops } : State).pending +
      pc.atHandlers.toNat = s.pending + (pc'.any StopPc.atHandlers).toNat :=
    hr.countP StopPc.atHandlers
  have hat := clientStep_of_moving hi
  have hnote : s.takesCheck i = false → State.noteMet g s i = g := noteMet_of_not hat
  cases h with
  | claimed hr =>
    rw [hnote (by simp [State.takesCheck, hi])]
    exact hinv.extend hushed_nil rfl hpend
  | missed hr =>
    rw [hnote (by simp [State.takesCheck, hi])]
    exact hinv.extend hushed_nil rfl hpend
  | wrote =>
    rw [hnote (by simp [State.takesCheck, hi])]
    exact hinv.extend hushed_nil rfl hpend
  | took found hc =>
    have htakes : s.takesCheck i = true := by simp [State.takesCheck, hi, hc]
    cases htaken htakes
    rw [State.noteMet, hat, htakes]
    exact hinv.takes rfl hpend
  | returned found hc =>
    rw [hnote (by simp [State.takesCheck, hi, hc])]
    exact hinv.extend (by simp [Hushed, Item.endsSession, Item.isOnStop]) rfl hpend
  | ended found =>
    rw [hnote (by simp [State.takesCheck, hi])]
    have hout := hushed_invoke s.obj none (h := .onEnd) (by simp) (by simp) (by simp)
    exact hinv.extend hout rfl (Nat.add_right_cancel hpend)
  | stopped found =>
    rw [hnote (by simp [State.takesCheck, hi]), ← List.append_assoc]
    have hout : Hushed [.stopReturned found] := by simp [Hushed, Item.endsSession, Item.isOnStop]
    by_cases hon : s.obj.handlers.has .onStop = true
    · rw [s.obj.invoke_set _ hon]
      exact (hinv.stops hpend hon).extend hout rfl rfl
    · rw [s.obj.invoke_unset _ hon]
      have hsilent : SessionInv ({ s with client := client, stops := stops }, g) (tr ++ []) :=
        hinv.silent rfl (Nat.le.intro hpend) hon
      exact hsilent.extend hout rfl rfl

theorem WorkerStep.hushed {o : WorkerOutcomes} {pc : WorkerPc} {p : Members}
    {queue : List (Nat × Signal)} {pc' : WorkerPc} {out : List Item}
    (h : WorkerStep s o pc p queue pc' out) : Hushed out := by
  cases h with
  | called hpc =>
    cases hpc with
    | verdict k result done =>
      refine hushed_invoke _ _ ?_ ?_ ?_ <;> (unfold verdict; split; simp; split <;> simp)
    | _ => exact hushed_invoke _ _ (by simp) (by simp) (by simp)
  | _ => simp [Hushed, Item.endsSession, Item.isOnStop]

theorem ClientStep.sessionInv {ok : Bool} {p : Members} {w : Option WorkerPc} {pc : ClientPc}
    {out : List Item} (h : ClientStep s ok p w pc out) (hinv : SessionInv (s, g) tr)
    (hset : s.obj.handlers.onStart = true)
    (hended : s.endsSession (.client ok) = true → Done s g) :
    SessionInv ({ s with obj := p, worker := w, client := pc }, State.noteMet g s (.client ok))
      (tr ++ out) := by
  have hpend : ({ s with obj := p, worker := w, client := pc } : State).pending = s.pending := by
    show (pc.stops ++ s.stops).countP StopPc.atHandlers = s.allStops.countP StopPc.atHandlers
    rw [State.allStops, h.stops, h.stops']
  have hnote : s.client ≠ .onStart → State.noteMet g s (.client ok) = g := h.note
  have hstay : s.client ≠ .onStart → Hushed out →
      SessionInv ({ s with obj := p, worker := w, client := pc }, State.noteMet g s (.client ok))
        (tr ++ out) := fun hpc hout => by
    rw [hnote hpc]
    exact hinv.extend hout h.handlers.1 hpend
  cases h with
  | called pc hpc h =>
    have hat : s.clientStep .onStart (.client ok) = true := by simp [State.clientStep, hpc]
    rw [State.noteMet, if_pos hat, s.obj.invoke_set none (h := .onStart) hset]
    exact hinv.starts hpend (hended (by simp [State.endsSession, hat]))
  | deleted hpc hs =>
    have hout : Hushed [.deleted] := by simp [Hushed, Item.endsSession, Item.isOnStop]
    by_cases hdel : s.obj.handlers.has .onDelete = true
    · have hends : s.endsSession (.client ok) = true := by
        have hset' : s.obj.handlers.onDelete = true := hdel
        simp [State.endsSession, State.clientStep, hpc, hset']
      rw [s.obj.invoke_set _ hdel, hnote (by simp [hpc]), ← List.append_assoc]
      exact (hinv.deletes rfl rfl (hended hends)).extend hout rfl hpend
    · exact hstay (by simp [hpc]) (by rw [s.obj.invoke_unset _ hdel]; exact hout)
  | released hpc =>
    refine hstay (by simp [hpc]) ?_
    split <;> simp [Hushed, Item.endsSession, Item.isOnStop]
  | threw hpc ho =>
    refine hstay ?_ hushed_nil
    rcases hpc with hpc | hpc <;> simp [hpc]
  | created hpc =>
    exact hstay (by simp [hpc]) (by simp [Hushed, Item.endsSession, Item.isOnStop])
  | refused hpc | loaded hpc | unjoinable hpc | joined hpc | drains n hpc | drained hpc
  | runningStored hpc | checkStored hpc | caught hpc | deleteUnjoinable hpc | deleteJoined hpc
  | closed hpc =>
    exact hstay (by simp [hpc]) (by simp [Hushed, Item.endsSession, Item.isOnStop])

end Steps

/-- Where a session ends a `stop` has found its scan. -/
theorem session_done {s : State} {g : Option Bool} {i : Input} (hinv : MetInv (s, g))
    (hend : EndingInv s) (hok : MetOnce (s, g) i) (hi : s.endsSession i = true) : Done s g := by
  rcases hok.ended hi with hg | ⟨hon, hpend, hcoming⟩
  · exact Or.inl hg
  · cases g with
    | none => exact Or.inl rfl
    | some met =>
      cases met with
      | true => exact Or.inr ⟨rfl, hpend, hon⟩
      | false =>
        -- it would have a `stop` to wait for
        have hwaits : s.cleared = true ∧ s.unasked = false := by
          rcases Bool.or_eq_true_iff.mp hi with hpc | hpc
          · have hat := clientStep_eq hpc
            exact ⟨by simp [State.cleared, hat], by rw [State.unasked, hat]; rfl⟩
          · obtain ⟨hpc, hset⟩ := Bool.and_eq_true_iff.mp hpc
            have hat := clientStep_eq hpc
            have hr : s.obj.isRunning = false := hend (by rw [hat]; exact ⟨rfl, by simp⟩)
            exact ⟨by simp [State.cleared, hr], by simp [State.unasked, hset]⟩
        rcases hinv.waits rfl hwaits.1 with h0 | hu
        · have hzero : s.coming = 0 := hcoming rfl
          have hpos : 0 < s.coming := h0
          omega
        · cases hwaits.2.symm.trans hu

/-- A flag that is set is that of a session that waits for its `stop`. -/
theorem MetInv.waiting {s : State} {g : Option Bool} (h : MetInv (s, g))
    (hc : s.obj.checkInProgress = true) : g = some false := by
  cases g with
  | none => cases (h.before rfl).1.symm.trans hc
  | some met =>
    cases met with
    | false => rfl
    | true => cases (h.last rfl).1.symm.trans hc

theorem sessionInv_reach {s : State × Option Bool} {tr : List Item}
    (h : sessions.ReachIf (fun s _ i => StopsMeet s i) s tr)
    (hset : s.1.obj.handlers.onStart = true) :
    PlaceInv s ∧ MetInv s ∧ SessionInv s tr := by
  revert hset
  refine h.invariant_of (J := fun s tr => ScanInv s.1 tr ∧ EndingInv s.1)
    (I := fun s tr => s.1.obj.handlers.onStart = true → PlaceInv s ∧ MetInv s ∧ SessionInv s tr)
    (fun h => ⟨scanInv_reach h.of_noting, endingInv_reach h.of_noting⟩) ?_ ?_
  · rintro ⟨s, g⟩ ⟨⟨handlers, pipe, device, rfl⟩, rfl⟩ _
    exact ⟨⟨by simp, by simp, fun _ => rfl, fun h => by cases h⟩,
      ⟨fun _ => ⟨rfl, rfl⟩, by simp, by simp⟩,
      ⟨always_nil _, fun _ => ⟨rfl, rfl⟩, by simp⟩⟩
  · rintro ⟨s, g⟩ tr i ⟨s', g'⟩ out ⟨hscan, hend⟩ hinv hok hs hset
    obtain ⟨hs, rfl⟩ := Machine.noting_step hs
    have hstart : s.obj.handlers.onStart = true := (step_handlers hs).1 ▸ hset
    obtain ⟨hplace, hmet, hinv⟩ := hinv hstart
    have hok : MetOnce (s, g) i := hok hstart
    refine ⟨placeInv_step hplace hscan hok.made hs, metInv_step hmet hplace hscan hok hs, ?_⟩
    cases machine_step hs with
    | start hpc =>
      refine hinv.extend (by simp [Hushed, Item.endsSession, Item.isOnStop]) rfl ?_
      have hat : s.client = .idle := hpc
      simp [State.pending, State.allStops, hat, ClientPc.stops]
    | stop hpc =>
      refine hinv.extend (by simp [Hushed, Item.endsSession, Item.isOnStop]) rfl ?_
      have hat : s.client = .idle := hpc
      simp [State.pending, State.allStops, hat, ClientPc.stops, StopPc.atHandlers]
    | delete hpc =>
      refine hinv.extend (by simp [Hushed, Item.endsSession, Item.isOnStop]) rfl ?_
      have hat : s.client = .idle := hpc
      simp [State.pending, State.allStops, hat, ClientPc.stops, StopPc.atHandlers]
    | client ok p w pc out h => exact h.sessionInv hinv hstart (session_done hmet hend hok)
    | otherStop hpc =>
      refine hinv.extend (by simp [Hushed, Item.endsSession, Item.isOnStop]) rfl ?_
      simp [State.pending, State.allStops, StopPc.atHandlers]
    | stopStep i ok pc pc' client stops p out hi hr h =>
      refine h.sessionInv hi hr hinv fun ht => hmet.waiting ?_
      by_contra hne
      rw [Bool.not_eq_true] at hne
      cases (takesCheck_unset hne).symm.trans ht
    | worker o pc p queue pc' out hw h => exact hinv.extend h.hushed h.handlers.1 rfl
    | emit body => exact hinv.extend (by simp [Hushed, Item.endsSession, Item.isOnStop]) rfl rfl

/-! ## Every run -/

/-- Without an `on_start` there is no session. -/
theorem stopsSince_none {tr : List Item} (h : ∀ k, .handler k .onStart ∉ tr) :
    stopsSince tr = none := by
  unfold stopsSince
  induction tr with
  | nil => rfl
  | cons x tr ih =>
    have hx : Item.stopsNext none x = none := by
      cases x with
      | handler k hd =>
        cases hd with
        | onStart => exact absurd (List.mem_cons_self ..) (h k)
        | _ => rfl
      | _ => rfl
    rw [List.foldl_cons, hx]
    exact ih fun k hk => h k (List.mem_cons_of_mem _ hk)

/-- **Each `on_start` has one `on_stop` before the next and before `on_delete`**, in every run
where the worker is made, and one `stop` ends the last scan of the session. -/
theorem stops_safe {s : State × Option Bool} {tr : List Item}
    (h : sessions.ReachIf (fun s _ i => StopsMeet s i) s tr) : StopsSafe tr := by
  by_cases hset : s.1.obj.handlers.onStart = true
  · exact (sessionInv_reach h hset).2.2.rule
  · rintro pre c post rfl
    have hnone : stopsSince pre = none := stopsSince_none fun k hk =>
      hset (handler_set h.of_noting (List.mem_append_left _ hk))
    rw [StopRule, hnone]
    simp

theorem sessions_init (handlers : Handlers) (pipe device : Bool) :
    sessions.init (start handlers pipe device, none) :=
  ⟨start_init handlers pipe device, rfl⟩

theorem sessionRun_isSome :
    (sessions.exec (start allHandlers true true, none) sampleDelete).isSome = true := by
  decide

def sessionRun : (State × Option Bool) × List Item :=
  (sessions.exec (start allHandlers true true, none) sampleDelete).get sessionRun_isSome

theorem sessionRun_stopped : sessions.Meets (fun s _ i => StopsMeet s i)
    (start allHandlers true true, none) [] sampleDelete := by
  decide

/-- `on_start`, `on_stop` and `on_delete` are called there. -/
theorem stops_safe_sessionRun :
    (.handler none .onStart ∈ sessionRun.2 ∧ .handler none .onStop ∈ sessionRun.2 ∧
      .handler none .onDelete ∈ sessionRun.2) ∧ StopsSafe sessionRun.2 :=
  ⟨by decide,
    stops_safe (Machine.reachIf_exec (sessions_init _ _ _) sessionRun_stopped sessionRun_isSome)⟩

/-- There is no device, and the object is destroyed. -/
def sampleSilent : List Input :=
  [Input.start] ++ List.replicate 6 (Input.client true) ++ sampleWorker 3 .nothing ++
  [Input.delete] ++ List.replicate 7 (Input.client true)

theorem silentRun_isSome :
    (machine.exec (start allHandlers true false) sampleSilent).isSome = true := by
  decide

def silentRun : State × List Item :=
  (machine.exec (start allHandlers true false) sampleSilent).get silentRun_isSome

/-- **Not in every run**: the `stop` that ends the session calls no `on_stop`. -/
theorem stops_missing : ¬∀ s tr, machine.Reach s tr → StopsSafe tr := by
  intro h
  have hsafe : StopsSafe silentRun.2 :=
    h silentRun.1 _ (Machine.reach_exec (start_init _ _ _) silentRun_isSome)
  obtain ⟨c, hc, hrule⟩ :=
    hsafe.first (p := (· == .handler none .onDelete)) (by decide)
  rw [beq_iff_eq.mp hc] at hrule
  cases hrule.1 rfl 0 (by decide)

end Auth.Fingerprint
