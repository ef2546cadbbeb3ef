import Kirilock.FingerprintSignals

/-!
Scans and the workers that make them.

`VerifyStart` and `VerifyStop` are called on the worker alone, and `start` and the
destructor join a worker before they do anything that needs it gone.  So the scans
of all workers are closed one after the other (`Disciplined`), whatever the other
threads do to the flags, and a `stop` that clears `is_running_` leaves the worker at
most the `VerifyStart` it is about to call (`StopsScans`).
-/

namespace Auth.Fingerprint

open Runs

/-! ## The rules -/

def Item.isStarted (x : Item) : Bool := x == .started

def Item.isJoined (x : Item) : Bool := x == .joined

def Item.opensScan (x : Item) : Bool := x == .verifyStart true

def Item.closesScan (x : Item) : Bool := x == .verifyStop

def Item.isVerifyStart : Item → Bool
  | .verifyStart _ => true
  | _ => false

/-- A `VerifyStart` that succeeded has not been followed by its `VerifyStop`. -/
abbrev scanOpen (tr : List Item) : Bool := isOpen Item.opensScan Item.closesScan tr

/-- No thread runs `run_worker`. -/
def State.workerEnded (s : State) : Bool := s.worker.all (· == .exited)

structure Disciplined (s : State) (tr : List Item) : Prop where
  /-- a thread is made only after the one before it was joined, … -/
  workers : Alternate Item.isStarted Item.isJoined tr
  /-- … which is after it ended -/
  alone : ∀ i s' out, machine.step s i = some (s', out) →
    (.started ∈ out → s.worker = none) ∧ (.joined ∈ out → s.worker = some .exited)
  scans : Alternate Item.opensScan Item.closesScan tr
  ended : s.workerEnded = true → scanOpen tr = false
  released : Always (fun pre c => c = .release → scanOpen pre = false) tr

/-- `start` does not set `is_running_`. -/
def NoStart (s : State) : Input → Prop
  | .client _ => s.client ≠ .storeRunning
  | _ => True

/-- After a `stop` that clears `is_running_` at most one `VerifyStart` is made before `start`
sets it again. -/
def StopsScans (s : State) : Prop :=
  ∀ i s1 out1 s2 out2, s.moving i = some .compareRunning → s.obj.isRunning = true →
    machine.step s i = some (s1, out1) →
    (machine.after s1).ReachIf (fun s _ i => NoStart s i) s2 out2 →
      out2.countP Item.isVerifyStart ≤ 1

/-! ## The invariant -/

/-- From a `VerifyStart` that succeeded to its `VerifyStop`. -/
def WorkerPc.holdsScan (pc : WorkerPc) : Bool := pc.scanning || pc == .verifyStop

/-- The client has joined the worker, or found none. -/
def ClientPc.joined : ClientPc → Bool
  | .drain => true
  | .storeRunning => true
  | .storeCheck => true
  | .onStart => true
  | .create => true
  | .release => true
  | .close => true
  | .onDelete => true
  | .deleted => true
  | _ => false

structure ScanInv (s : State) (tr : List Item) : Prop where
  workers : Alternate Item.isStarted Item.isJoined tr
  worker : isOpen Item.isStarted Item.isJoined tr = s.worker.isSome
  joined : s.client.joined = true → s.worker = none
  scans : Alternate Item.opensScan Item.closesScan tr
  scan : scanOpen tr = s.worker.any WorkerPc.holdsScan
  released : Always (fun pre c => c = .release → scanOpen pre = false) tr

/-- Items that neither make nor join a worker, nor are calls of the device. -/
structure Still (out : List Item) : Prop where
  worker : ∀ x ∈ out, x.isStarted = false ∧ x.isJoined = false
  scan : ∀ x ∈ out, x.opensScan = false ∧ x.closesScan = false
  release : .release ∉ out

theorem still_nil : Still [] := ⟨nofun, nofun, nofun⟩

theorem still_singleton {x : Item} (h : x.isStarted = false ∧ x.isJoined = false)
    (h' : x.opensScan = false ∧ x.closesScan = false) (hr : x ≠ .release) : Still [x] := by
  refine ⟨fun y hy => ?_, fun y hy => ?_, fun hy => hr (List.mem_singleton.mp hy).symm⟩
  · rw [List.mem_singleton.mp hy]
    exact h
  · rw [List.mem_singleton.mp hy]
    exact h'

theorem Still.append {out out' : List Item} (h : Still out) (h' : Still out') :
    Still (out ++ out') where
  worker x hx := (List.mem_append.mp hx).elim (h.worker x) (h'.worker x)
  scan x hx := (List.mem_append.mp hx).elim (h.scan x) (h'.scan x)
  release hx := (List.mem_append.mp hx).elim h.release h'.release

theorem still_invoke (p : Members) (k : Option Nat) (h : Handler) : Still (p.invoke k h) := by
  refine ⟨fun x hx => ?_, fun x hx => ?_, fun hx => ?_⟩
  · rw [p.invoke_items k h x hx]
    exact ⟨rfl, rfl⟩
  · rw [p.invoke_items k h x hx]
    exact ⟨rfl, rfl⟩
  · cases p.invoke_items k h _ hx

theorem StopStep.still {p p' : Members} {ok : Bool} {pc : StopPc} {pc' : Option StopPc}
    {out : List Item} (h : StopStep p ok pc pc' p' out) : Still out := by
  cases h with
  | ended found => exact still_invoke p none .onEnd
  | stopped found =>
    exact (still_invoke p none .onStop).append (still_singleton ⟨rfl, rfl⟩ ⟨rfl, rfl⟩ nofun)
  | returned found hc => exact still_singleton ⟨rfl, rfl⟩ ⟨rfl, rfl⟩ nofun
  | _ => exact still_nil

section Steps

variable {s : State} {tr : List Item}

/-- A step that changes nothing of the worker but a place without a scan, or with one. -/
theorem ScanInv.extend (h : ScanInv s tr) {s' : State} {out : List Item} (hout : Still out)
    (hw : s'.worker.isSome = s.worker.isSome)
    (hscan : s'.worker.any WorkerPc.holdsScan = s.worker.any WorkerPc.holdsScan)
    (hjoined : s'.client.joined = true → s'.worker = none) : ScanInv s' (tr ++ out) where
  workers := h.workers.append_of_neither hout.worker
  worker := by rw [isOpen_append_of_neither hout.worker, h.worker, hw]
  joined := hjoined
  scans := h.scans.append_of_neither hout.scan
  scan := (isOpen_append_of_neither hout.scan).trans (h.scan.trans hscan.symm)
  released := Always.append_of_forall h.released fun x hx _ he => absurd (he ▸ hx) hout.release

theorem Goes.holdsScan {p : Members} {pc pc' : WorkerPc} (h : Goes p pc pc') :
    pc'.holdsScan = pc.holdsScan := by
  cases h <;> rfl

theorem Calls.holdsScan {pc pc' : WorkerPc} {k : Option Nat} {h : Handler}
    (hc : Calls pc k h pc') : pc'.holdsScan = pc.holdsScan := by
  cases hc with
  | verdict k result done => cases done <;> rfl
  | _ => rfl

theorem WorkerStep.scanInv {o : WorkerOutcomes} {pc : WorkerPc} {p : Members}
    {queue : List (Nat × Signal)} {pc' : WorkerPc} {out : List Item}
    (h : WorkerStep s o pc p queue pc' out) (hw : s.worker = some pc) (hinv : ScanInv s tr) :
    ScanInv (s.worked p queue pc') (tr ++ out) := by
  have hscan := hinv.scan
  rw [hw] at hscan
  have hjoined : s.client.joined = true → (s.worked p queue pc').worker = none := by
    intro hj
    rw [hinv.joined hj] at hw
    cases hw
  have hmoves : ∀ {out}, Still out → pc'.holdsScan = pc.holdsScan →
      ScanInv (s.worked p queue pc') (tr ++ out) := fun hout hpc =>
    hinv.extend hout (by simp [State.worked, hw]) (by simpa [State.worked, hw] using hpc) hjoined
  cases h with
  | goes h => exact hmoves still_nil h.holdsScan
  | called hpc => exact hmoves (still_invoke _ _ _) hpc.holdsScan
  | verifyFailed msg ho => exact hmoves (still_singleton ⟨rfl, rfl⟩ ⟨rfl, rfl⟩ nofun) rfl
  | checkStored => exact hmoves still_nil rfl
  | dispatched x queue ho hq => exact hmoves still_nil rfl
  | scanEnded k hc => exact hmoves (still_singleton ⟨rfl, rfl⟩ ⟨rfl, rfl⟩ nofun) rfl
  | verifyStarted ho =>
    have hout : ∀ x ∈ [Item.verifyStart true], x.isStarted = false ∧ x.isJoined = false := by
      simp [Item.isStarted, Item.isJoined]
    exact {
      workers := hinv.workers.append_of_neither hout
      worker := (isOpen_append_of_neither hout).trans (hinv.worker.trans (by rw [hw]; rfl))
      joined := hjoined
      scans := hinv.scans.opened hscan rfl
      scan := isOpen_snoc tr _
      released := hinv.released.append_of_forall (by simp) }
  | verifyStopped =>
    have hout : ∀ x ∈ [Item.verifyStop], x.isStarted = false ∧ x.isJoined = false := by
      simp [Item.isStarted, Item.isJoined]
    exact {
      workers := hinv.workers.append_of_neither hout
      worker := (isOpen_append_of_neither hout).trans (hinv.worker.trans (by rw [hw]; rfl))
      joined := hjoined
      scans := hinv.scans.closed hscan rfl
      scan := isOpen_snoc tr _
      released := hinv.released.append_of_forall (by simp) }

/-- The client joins the worker. -/
theorem ScanInv.join (h : ScanInv s tr) (hw : s.worker = some .exited) (pc : ClientPc) :
    ScanInv { s with worker := none, client := pc } (tr ++ [Item.joined]) := by
  have hopen := h.worker
  have hscan := h.scan
  rw [hw] at hopen hscan
  have hout : ∀ x ∈ [Item.joined], x.opensScan = false ∧ x.closesScan = false := by
    simp [Item.opensScan, Item.closesScan]
  exact {
    workers := h.workers.closed hopen rfl
    worker := isOpen_snoc tr _
    joined := fun _ => rfl
    scans := h.scans.append_of_neither hout
    scan := (isOpen_append_of_neither hout).trans hscan
    released := h.released.append_of_forall (by simp) }

/-- `start` makes a worker. -/
theorem ScanInv.create (h : ScanInv s tr) (hw : s.worker = none) :
    ScanInv { s with worker := some .loadRunning, client := .idle } (tr ++ [Item.started]) := by
  have hopen := h.worker
  have hscan := h.scan
  rw [hw] at hopen hscan
  have hout : ∀ x ∈ [Item.started], x.opensScan = false ∧ x.closesScan = false := by
    simp [Item.opensScan, Item.closesScan]
  exact {
    workers := h.workers.opened hopen rfl
    worker := isOpen_snoc tr _
    joined := nofun
    scans := h.scans.append_of_neither hout
    scan := (isOpen_append_of_neither hout).trans hscan
    released := h.released.append_of_forall (by simp) }

/-- The destructor calls `Release`. -/
theorem ScanInv.release (h : ScanInv s tr) (hw : s.worker = none) :
    ScanInv { s with client := .close } (tr ++ [Item.release]) := by
  have hscan := h.scan
  rw [hw] at hscan
  have hworker : ∀ x ∈ [Item.release], x.isStarted = false ∧ x.isJoined = false := by
    simp [Item.isStarted, Item.isJoined]
  have hout : ∀ x ∈ [Item.release], x.opensScan = false ∧ x.closesScan = false := by
    simp [Item.opensScan, Item.closesScan]
  exact {
    workers := h.workers.append_of_neither hworker
    worker := (isOpen_append_of_neither hworker).trans h.worker
    joined := fun _ => hw
    scans := h.scans.append_of_neither hout
    scan := (isOpen_append_of_neither hout).trans h.scan
    released := always_snoc.mpr ⟨h.released, fun _ => hscan⟩ }

theorem ClientStep.scanInv {ok : Bool} {p : Members} {w : Option WorkerPc} {pc : ClientPc}
    {out : List Item} (h : ClientStep s ok p w pc out) (hinv : ScanInv s tr) :
    ScanInv { s with obj := p, worker := w, client := pc } (tr ++ out) := by
  have hstays : ∀ {p : Members} {pc : ClientPc} {out : List Item}, Still out →
      (pc.joined = true → s.client.joined = true) →
      ScanInv { s with obj := p, client := pc } (tr ++ out) := fun hout hj =>
    hinv.extend hout rfl rfl fun hpc => hinv.joined (hj hpc)
  have hone : ∀ (r : StartResult), Still [.startReturned r] := fun r =>
    still_singleton ⟨rfl, rfl⟩ ⟨rfl, rfl⟩ nofun
  cases h with
  | refused hpc hw hr => exact hstays (hone .running) nofun
  | loaded hpc hw hr => exact hstays still_nil nofun
  | unjoinable hpc hw => exact hinv.extend still_nil rfl rfl fun _ => hw
  | threw hpc ho => exact hstays still_nil nofun
  | joined hpc ho hw => exact hinv.join hw .drain
  | drains n hpc hp => exact hstays still_nil fun _ => by rw [hpc]; rfl
  | drained hpc hp => exact hstays still_nil fun _ => by rw [hpc]; rfl
  | runningStored hpc => exact hstays still_nil fun _ => by rw [hpc]; rfl
  | checkStored hpc => exact hstays still_nil fun _ => by rw [hpc]; rfl
  | called pc hpc h => exact hstays (still_invoke _ _ _) fun _ => by rw [hpc]; rfl
  | created hpc =>
    have hmade := hinv.create (hinv.joined (by rw [hpc]; rfl))
    rw [List.append_cons]
    exact hmade.extend (hone .started) rfl rfl nofun
  | caught hpc => exact hstays (hone .threw) nofun
  | deleteUnjoinable hpc hw => exact hinv.extend still_nil rfl rfl fun _ => hw
  | deleteJoined hpc hw => exact hinv.join hw .release
  | released hpc =>
    have hw : s.worker = none := hinv.joined (by rw [hpc]; rfl)
    split
    · exact hinv.release hw
    · exact hinv.extend still_nil rfl rfl fun _ => hw
  | closed hpc => exact hstays still_nil fun _ => by rw [hpc]; rfl
  | deleted hpc hs =>
    exact hstays ((still_invoke _ _ _).append (still_singleton ⟨rfl, rfl⟩ ⟨rfl, rfl⟩ nofun))
      fun _ => by rw [hpc]; rfl

end Steps

theorem scanInv_reach {s : State} {tr : List Item} (h : machine.Reach s tr) : ScanInv s tr := by
  refine h.invariant ?_ ?_
  · rintro s ⟨handlers, pipe, device, rfl⟩
    exact ⟨always_nil _, rfl, nofun, always_nil _, rfl, always_nil _⟩
  · intro s tr i s' out hinv _ hs
    cases machine_step hs with
    | start hpc => exact hinv.extend (still_singleton ⟨rfl, rfl⟩ ⟨rfl, rfl⟩ nofun) rfl rfl nofun
    | stop hpc => exact hinv.extend (still_singleton ⟨rfl, rfl⟩ ⟨rfl, rfl⟩ nofun) rfl rfl nofun
    | delete hpc =>
      have hout : Still [.delete, .stop] :=
        (still_singleton (x := .delete) ⟨rfl, rfl⟩ ⟨rfl, rfl⟩ nofun).append
          (still_singleton (x := .stop) ⟨rfl, rfl⟩ ⟨rfl, rfl⟩ nofun)
      exact hinv.extend hout rfl rfl nofun
    | client ok p w pc out h => exact h.scanInv hinv
    | otherStop hpc =>
      exact hinv.extend (still_singleton ⟨rfl, rfl⟩ ⟨rfl, rfl⟩ nofun) rfl rfl hinv.joined
    | stopStep i ok pc pc' client stops p out hi hr h =>
      refine hinv.extend h.still rfl rfl fun hj => ?_
      cases hr with
      | client hpc => cases pc' <;> cases hj
      | delete hpc => cases pc' <;> cases hj
      | other l1 l2 hs => exact hinv.joined hj
    | worker o pc p queue pc' out hw h => exact h.scanInv hw hinv
    | emit body =>
      exact hinv.extend (still_singleton ⟨rfl, rfl⟩ ⟨rfl, rfl⟩ nofun) rfl rfl hinv.joined

/-- A worker is made at `create`, and joined where it has ended. -/
def Threads (s : State) (out : List Item) : Prop :=
  (.started ∈ out → s.client = .create) ∧ (.joined ∈ out → s.worker = some .exited)

theorem Still.threads {s : State} {out : List Item} (h : Still out) : Threads s out :=
  ⟨fun hx => absurd (h.worker _ hx).1 nofun, fun hx => absurd (h.worker _ hx).2 nofun⟩

theorem ClientStep.threads {s : State} {ok : Bool} {p : Members} {w : Option WorkerPc}
    {pc : ClientPc} {out : List Item} (h : ClientStep s ok p w pc out) : Threads s out := by
  cases h with
  | joined hpc ho hw => exact ⟨by simp, fun _ => hw⟩
  | deleteJoined hpc hw => exact ⟨by simp, fun _ => hw⟩
  | created hpc => exact ⟨fun _ => hpc, by simp⟩
  | called pc hpc h => exact (still_invoke _ _ _).threads
  | released hpc => split <;> simp [Threads]
  | deleted hpc hs =>
    exact ((still_invoke _ _ _).append
      (still_singleton (x := .deleted) ⟨rfl, rfl⟩ ⟨rfl, rfl⟩ nofun)).threads
  | _ => simp [Threads]

theorem WorkerStep.threads {s : State} {o : WorkerOutcomes} {pc : WorkerPc} {p : Members}
    {queue : List (Nat × Signal)} {pc' : WorkerPc} {out : List Item}
    (h : WorkerStep s o pc p queue pc' out) : Threads s out := by
  cases h with
  | called hpc => exact (still_invoke _ _ _).threads
  | _ => simp [Threads]

theorem step_threads {s s' : State} {i : Input} {out : List Item}
    (hs : machine.step s i = some (s', out)) : Threads s out := by
  cases machine_step hs with
  | client ok p w pc out h => exact h.threads
  | stopStep i ok pc pc' client stops p out hi hr h => exact h.still.threads
  | worker o pc p queue pc' out hw h => exact h.threads
  | _ => simp [Threads]

/-! ## After a `stop` -/

/-- What holds from a `stop` that cleared `is_running_` until `start` sets it. -/
structure StoppedInv (s : State) (out : List Item) : Prop where
  cleared : s.obj.isRunning = false
  scans : out.countP Item.isVerifyStart + (if s.worker = some .verifyStart then 1 else 0) ≤ 1

theorem countP_invoke (p : Members) (k : Option Nat) (h : Handler) :
    (p.invoke k h).countP Item.isVerifyStart = 0 := by
  rw [List.countP_eq_zero]
  intro x hx
  rw [p.invoke_items k h x hx]
  exact nofun

theorem StopStep.isRunning {p p' : Members} {ok : Bool} {pc : StopPc} {pc' : Option StopPc}
    {out : List Item} (h : StopStep p ok pc pc' p' out) :
    p'.isRunning = p.isRunning ∨ p'.isRunning = false := by
  cases h with
  | claimed hr => exact Or.inr rfl
  | _ => exact Or.inl rfl

theorem StopStep.cleared {p p' : Members} {ok : Bool} {pc : StopPc} {pc' : Option StopPc}
    {out : List Item} (h : StopStep p ok pc pc' p' out) (hp : p.isRunning = false) :
    p'.isRunning = false := by
  cases h with
  | claimed hr => rfl
  | _ => exact hp

theorem StopStep.countP {p p' : Members} {ok : Bool} {pc : StopPc} {pc' : Option StopPc}
    {out : List Item} (h : StopStep p ok pc pc' p' out) : out.countP Item.isVerifyStart = 0 := by
  cases h with
  | ended found => exact countP_invoke p none .onEnd
  | stopped found =>
    rw [List.countP_append, countP_invoke]
    rfl
  | _ => rfl

theorem ClientStep.countP {s : State} {ok : Bool} {p : Members} {w : Option WorkerPc}
    {pc : ClientPc} {out : List Item} (h : ClientStep s ok p w pc out) :
    out.countP Item.isVerifyStart = 0 := by
  cases h with
  | called pc hpc h => exact countP_invoke s.obj none .onStart
  | released hpc => split <;> rfl
  | deleted hpc hs =>
    rw [List.countP_append, countP_invoke]
    rfl
  | _ => rfl

theorem ClientStep.cleared {s : State} {ok : Bool} {p : Members} {w : Option WorkerPc}
    {pc : ClientPc} {out : List Item} (h : ClientStep s ok p w pc out)
    (hs : s.client ≠ .storeRunning) (hp : s.obj.isRunning = false) : p.isRunning = false := by
  cases h with
  | runningStored hpc => exact absurd hpc hs
  | caught hpc => rfl
  | _ => exact hp

section Stopped

variable {s : State} {out0 : List Item}

theorem StoppedInv.extend (h : StoppedInv s out0) {s' : State} {out : List Item}
    (hcleared : s'.obj.isRunning = false) (hout : out.countP Item.isVerifyStart = 0)
    (hw : s'.worker = some .verifyStart → s.worker = some .verifyStart) :
    StoppedInv s' (out0 ++ out) := by
  refine ⟨hcleared, ?_⟩
  have hscans := h.scans
  rw [List.countP_append, hout]
  split
  · rename_i hpc
    rw [if_pos (hw hpc)] at hscans
    exact hscans
  · omega

theorem WorkerStep.stoppedInv {o : WorkerOutcomes} {pc : WorkerPc} {p : Members}
    {queue : List (Nat × Signal)} {pc' : WorkerPc} {out : List Item}
    (h : WorkerStep s o pc p queue pc' out) (hw : s.worker = some pc) (hinv : StoppedInv s out0) :
    StoppedInv (s.worked p queue pc') (out0 ++ out) := by
  have hmoves : ∀ {p : Members} {queue : List (Nat × Signal)} {pc' : WorkerPc} {out : List Item},
      p.isRunning = false → out.countP Item.isVerifyStart = 0 → pc' ≠ .verifyStart →
      StoppedInv (s.worked p queue pc') (out0 ++ out) := fun hp hout hpc =>
    hinv.extend hp hout fun he => absurd (Option.some.inj he) hpc
  -- a call that is made uses up the place before it
  have hcalls : pc = .verifyStart → ∀ {out : List Item} {pc' : WorkerPc},
      out.countP Item.isVerifyStart = 1 → pc' ≠ .verifyStart →
      StoppedInv (s.worked s.obj s.queue pc') (out0 ++ out) := by
    intro hpc out pc' hout hne
    refine ⟨hinv.cleared, ?_⟩
    have hscans := hinv.scans
    rw [hw, hpc, if_pos rfl] at hscans
    have hat : ¬(s.worked s.obj s.queue pc').worker = some .verifyStart :=
      fun he => hne (Option.some.inj he)
    rw [List.countP_append, hout, if_neg hat]
    omega
  cases h with
  | goes h =>
    refine hmoves hinv.cleared rfl fun he => ?_
    subst he
    cases h with
    | running hr hd =>
      rw [hinv.cleared] at hr
      cases hr
  | called hpc =>
    refine hmoves hinv.cleared (countP_invoke _ _ _) fun he => ?_
    cases hpc with
    | verdict k result done => cases done <;> cases he
    | _ => cases he
  | verifyStarted ho => exact hcalls rfl rfl nofun
  | verifyFailed msg ho => exact hcalls rfl rfl nofun
  | checkStored => exact hmoves hinv.cleared rfl nofun
  | dispatched x queue ho hq => exact hmoves hinv.cleared rfl nofun
  | scanEnded k hc => exact hmoves hinv.cleared rfl nofun
  | verifyStopped => exact hmoves hinv.cleared rfl nofun

end Stopped

theorem stoppedInv_reach {s1 s : State} {out : List Item} (h1 : s1.obj.isRunning = false)
    (h : (machine.after s1).ReachIf (fun s _ i => NoStart s i) s out) : StoppedInv s out := by
  refine h.invariant ?_ ?_
  · rintro s rfl
    refine ⟨h1, ?_⟩
    split <;> decide
  · intro s out0 i s' out hinv hok hs
    cases machine_step hs with
    | client ok p w pc out h =>
      refine hinv.extend (h.cleared hok hinv.cleared) h.countP fun hpc => ?_
      rcases h.worker with rfl | rfl | rfl
      · exact hpc
      · cases hpc
      · cases hpc
    | stopStep i ok pc pc' client stops p out hi hr h =>
      exact hinv.extend (h.cleared hinv.cleared) h.countP id
    | worker o pc p queue pc' out hw h => exact h.stoppedInv hw hinv
    | _ => exact hinv.extend hinv.cleared rfl id

/-! ## Every run -/

/-- **The device is used in turns**, by one worker at a time, in every run. -/
theorem device_disciplined {s : State} {tr : List Item} (h : machine.Reach s tr) :
    Disciplined s tr ∧ StopsScans s := by
  have hinv := scanInv_reach h
  refine ⟨⟨hinv.workers, fun i s' out hs => ⟨fun hx => ?_, (step_threads hs).2⟩, hinv.scans,
    fun hw => ?_, hinv.released⟩, fun i s1 out1 s2 out2 hi hr hs h2 => ?_⟩
  · exact hinv.joined (by rw [(step_threads hs).1 hx]; rfl)
  · rw [hinv.scan]
    cases hpc : s.worker with
    | none => rfl
    | some pc =>
      have hexited : pc = .exited := by simpa [State.workerEnded, hpc] using hw
      rw [hexited]
      rfl
  · obtain ⟨ok, pc', hstop⟩ := step_moving hi hs
    have hcleared : s1.obj.isRunning = false := by
      generalize s1.obj = p at hstop
      cases hstop with
      | claimed hr => rfl
      | missed hr' => exact hr'
    have hscans := (stoppedInv_reach hcleared h2).scans
    omega

/-- The object is destroyed in the middle of a scan. -/
def sampleDelete : List Input :=
  sampleStart ++ [Input.delete] ++ List.replicate 5 (Input.client true) ++
  sampleWorker 6 .nothing ++ List.replicate 4 (Input.client true)

theorem deletedRun_isSome :
    (machine.exec (start allHandlers true true) sampleDelete).isSome = true := by
  decide

def deletedRun : State × List Item :=
  (machine.exec (start allHandlers true true) sampleDelete).get deletedRun_isSome

/-- The scan is closed there and the device released. -/
theorem device_disciplined_deletedRun :
    (.verifyStop ∈ deletedRun.2 ∧ .release ∈ deletedRun.2) ∧
      Disciplined deletedRun.1 deletedRun.2 ∧ StopsScans deletedRun.1 :=
  ⟨by decide,
    device_disciplined (Machine.reach_exec (start_init _ _ _) deletedRun_isSome)⟩

end Auth.Fingerprint
