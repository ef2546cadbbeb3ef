import Kirilock.FingerprintSignals

/-!
The bytes of the cancel pipe.

A `stop` that has cleared `is_running_` writes its byte only afterwards, and from then on
`start` may go on.  `start` drains the pipe once; a byte written later stays, since nothing
else reads the pipe, and the worker's `select` returns at once for the whole session.

* `DrainsLast`: a drain ends with the pipe empty, when no `stop` has its byte still to write.
* `pipe_safe`: in the runs whose drains all do, no session has a byte of an earlier one, and
  nothing less will do: after a drain that ends otherwise `select` can find one.  `pipe_stale`
  is a run where a byte comes late.
-/

namespace Auth.Fingerprint

open Runs

/-! ## What is in the pipe -/

def Members.bytes (p : Members) : Nat := p.cancelPipe.getD 0

/-- `select` on the pipe returns at once. -/
def Members.selectReady (p : Members) : Bool := decide (0 < p.bytes)

/-- A session is on, or `start` has drained the pipe for it. -/
def State.opened (s : State) : Prop := s.obj.isRunning = true ∨ s.client = .storeRunning

/-- In the scanning loop with `is_running_` set, `select` waits. -/
def Waits (s : State) : Prop :=
  ∀ pc, s.worker = some pc → pc.scanning = true → s.obj.isRunning = true →
    s.obj.selectReady = false

/-- No session is left a byte of an earlier one.  While `is_running_` is set no `stop` has
won its compare-exchange in this session, so a byte that is there, or is still to be written,
is an earlier one's. -/
structure PipeSafe (s : State) : Prop where
  waits : Waits s
  clean : s.opened → s.obj.bytes = 0 ∧ .write ∉ s.allStops

/-- The input ends the drain: there is nothing to read, or `select` or `read` fails. -/
def State.drainEnds (s : State) : Input → Bool
  | .client ok => s.client == .drain && (s.obj.bytes == 0 || !ok)
  | _ => false

/-- A drain ends with the pipe empty and no `stop` between its compare-exchange and its
write. -/
def DrainsLast (s : State) (i : Input) : Prop :=
  s.drainEnds i = true → s.obj.bytes = 0 ∧ .write ∉ s.allStops

instance (s : State) (i : Input) : Decidable (DrainsLast s i) :=
  inferInstanceAs (Decidable (_ → _ ∧ _))

/-- In every run that goes on from `s`, with drains that end so, `select` waits. -/
def KeepsWaiting (s : State) : Prop :=
  ∀ s' out, (machine.after s).ReachIf (fun s _ i => DrainsLast s i) s' out → Waits s'

/-! ## What holds in a run -/

/-- `start` has found `is_running_` clear and has not set it yet. -/
def ClientPc.preparing : ClientPc → Bool
  | .join => true
  | .drain => true
  | .storeRunning => true
  | _ => false

/-- The client may call `start`, or is about to look whether there is a worker. -/
def ClientPc.callable : ClientPc → Bool
  | .idle => true
  | .load => true
  | .stop _ => true
  | _ => false

structure PipeInv (s : State) : Prop where
  clean : s.opened → s.obj.bytes = 0 ∧ .write ∉ s.allStops
  preparing : s.client.preparing = true → s.obj.isRunning = false
  unjoinable : s.client.callable = true → s.worker = none → s.obj.isRunning = false

theorem PipeInv.safe {s : State} (h : PipeInv s) : PipeSafe s := by
  refine ⟨fun pc _ _ hr => ?_, h.clean⟩
  have hbytes := (h.clean (Or.inl hr)).1
  rw [Members.selectReady, hbytes]
  rfl

/-- A step that leaves the pipe and the flag alone. -/
theorem PipeInv.keep {s s' : State} (h : PipeInv s) (hobj : s'.obj = s.obj)
    (hopen : s'.client = .storeRunning → s.obj.isRunning = true ∨ s.client = .storeRunning)
    (hstops : .write ∈ s'.allStops → .write ∈ s.allStops)
    (hprep : s'.client.preparing = true → s.obj.isRunning = false)
    (hjoin : s'.client.callable = true → s'.worker = none → s.obj.isRunning = false) :
    PipeInv s' := by
  refine ⟨fun ho => ?_, fun hp => by rw [hobj]; exact hprep hp,
    fun hc hw => by rw [hobj]; exact hjoin hc hw⟩
  have hopened : s.opened := ho.elim (fun hr => Or.inl (hobj ▸ hr)) hopen
  obtain ⟨hb, hw⟩ := h.clean hopened
  rw [hobj]
  exact ⟨hb, fun hm => hw (hstops hm)⟩

/-- A step that leaves them alone, and puts the client in no place the invariant speaks of. -/
theorem PipeInv.leave {s s' : State} (h : PipeInv s) (hobj : s'.obj = s.obj)
    (hstops : .write ∈ s'.allStops → .write ∈ s.allStops)
    (hpc : s'.client ≠ .storeRunning ∧ s'.client.preparing = false ∧
      s'.client.callable = false) : PipeInv s' := by
  obtain ⟨hstore, hprep, hcall⟩ := hpc
  refine h.keep hobj (fun he => absurd he hstore) hstops (fun hp => ?_) fun hc => ?_
  · rw [hprep] at hp
    cases hp
  · rw [hcall] at hc
    cases hc

theorem ClientStep.pipeInv {s : State} {ok : Bool} {p : Members} {w : Option WorkerPc}
    {pc : ClientPc} {out : List Item} (h : ClientStep s ok p w pc out) (hinv : PipeInv s)
    (hlast : DrainsLast s (.client ok)) :
    PipeInv { s with obj := p, worker := w, client := pc } := by
  have hstops : State.allStops { s with obj := p, worker := w, client := pc } = s.allStops := by
    rw [State.allStops, State.allStops, h.stops, h.stops']
  have hwrite : .write ∈ State.allStops { s with obj := p, worker := w, client := pc } →
      .write ∈ s.allStops := fun hm => hstops ▸ hm
  cases h with
  | refused hpc hw hr =>
    refine hinv.keep rfl (by rintro ⟨⟩) hwrite (by rintro ⟨⟩) fun _ hn => ?_
    change s.worker = none at hn
    rw [hn] at hw
    cases hw
  | loaded hpc hw hr =>
    exact hinv.keep rfl (by rintro ⟨⟩) hwrite (fun _ => hr) (by rintro ⟨⟩)
  | unjoinable hpc hw =>
    refine hinv.keep rfl (by rintro ⟨⟩) hwrite (fun _ => ?_) (by rintro ⟨⟩)
    exact hinv.unjoinable (by rw [hpc]; rfl) hw
  | joined hpc ho hw =>
    refine hinv.keep rfl (by rintro ⟨⟩) hwrite (fun _ => ?_) (by rintro ⟨⟩)
    exact hinv.preparing (by rw [hpc]; rfl)
  | drains n hpc hp =>
    have hr := hinv.preparing (by rw [hpc]; rfl)
    refine ⟨?_, fun _ => hr, by rintro ⟨⟩⟩
    rintro (ho | ho)
    · rw [hr] at ho
      cases ho
    · cases ho
  | drained hpc hp =>
    -- the pipe was found empty, or could not be read
    have hr := hinv.preparing (by rw [hpc]; rfl)
    have hends : s.drainEnds (.client ok) = true := by
      rcases hp with hp | hp | hp <;> simp [State.drainEnds, hpc, Members.bytes, hp]
    obtain ⟨hb, hw⟩ := hlast hends
    exact ⟨fun _ => ⟨hb, fun hm => hw (hwrite hm)⟩, fun _ => hr, by rintro ⟨⟩⟩
  | runningStored hpc =>
    obtain ⟨hb, hw⟩ := hinv.clean (Or.inr hpc)
    exact ⟨fun _ => ⟨hb, fun hm => hw (hwrite hm)⟩, by rintro ⟨⟩, by rintro ⟨⟩⟩
  | checkStored hpc =>
    refine ⟨?_, by rintro ⟨⟩, by rintro ⟨⟩⟩
    rintro (ho | ho)
    · obtain ⟨hb, hw⟩ := hinv.clean (Or.inl ho)
      exact ⟨hb, fun hm => hw (hwrite hm)⟩
    · cases ho
  | caught hpc =>
    refine ⟨?_, by rintro ⟨⟩, fun _ _ => rfl⟩
    rintro (ho | ho) <;> cases ho
  | called pc hpc h =>
    rcases h with rfl | rfl <;> exact hinv.leave rfl hwrite ⟨by rintro ⟨⟩, rfl, rfl⟩
  | created hpc => exact hinv.keep rfl (by rintro ⟨⟩) hwrite (by rintro ⟨⟩) fun _ hn => by cases hn
  | threw hpc ho | deleteUnjoinable hpc hw | deleteJoined hpc hw | released hpc
  | deleted hpc hs =>
    exact hinv.leave rfl hwrite ⟨by rintro ⟨⟩, rfl, rfl⟩
  | closed hpc =>
    refine ⟨?_, by rintro ⟨⟩, by rintro ⟨⟩⟩
    rintro (ho | ho)
    · exact ⟨rfl, fun hm => (hinv.clean (Or.inl ho)).2 (hwrite hm)⟩
    · cases ho

/-- A `stop` that moves puts the client in no place of `start`. -/
theorem Replaces.places {s : State} {pc : StopPc} {pc' : Option StopPc} {client : ClientPc}
    {stops : List StopPc} (h : Replaces s pc pc' client stops) :
    (client = .storeRunning → s.client = .storeRunning) ∧
      (client.preparing = true → s.client.preparing = true) ∧
      (client.callable = true → s.client.callable = true) := by
  cases h with
  | client hpc =>
    have hcall : s.client.callable = true := by rw [hpc]; rfl
    cases pc' with
    | none => exact ⟨nofun, nofun, fun _ => hcall⟩
    | some pc' => exact ⟨nofun, nofun, fun _ => hcall⟩
  | delete hpc =>
    cases pc' with
    | none => exact ⟨nofun, nofun, nofun⟩
    | some pc' => exact ⟨nofun, nofun, nofun⟩
  | other l1 l2 hs => exact ⟨id, id, id⟩

theorem StopStep.pipeInv {s : State} {ok : Bool} {pc : StopPc} {pc' : Option StopPc} {p : Members}
    {client : ClientPc} {stops : List StopPc} {out : List Item}
    (h : StopStep s.obj ok pc pc' p out) (hr : Replaces s pc pc' client stops)
    (hinv : PipeInv s) : PipeInv { s with obj := p, client := client, stops := stops } := by
  obtain ⟨l1, l2, hold, hnew⟩ := hr.allStops
  obtain ⟨hstore, hprep, hcall⟩ := hr.places
  have hnext : ∀ {p' : Members}, (p'.isRunning = s.obj.isRunning ∨ p'.isRunning = false) →
      (State.opened { s with obj := p', client := client, stops := stops } →
        p'.bytes = 0 ∧ .write ∉ l1 ++ pc'.toList ++ l2) →
      PipeInv { s with obj := p', client := client, stops := stops } := by
    intro p' hr' hclean
    refine ⟨fun ho => ?_, fun hp => ?_, fun hc hw => ?_⟩
    · rw [State.allStops, hnew]
      exact hclean ho
    · exact hr'.elim (fun he => he.trans (hinv.preparing (hprep hp))) id
    · exact hr'.elim (fun he => he.trans (hinv.unjoinable (hcall hc) hw)) id
  -- a `stop` that changes neither the flag nor the pipe, and goes on to no `write`
  have hkeep : ∀ {p' : Members}, p'.isRunning = s.obj.isRunning → p'.bytes = s.obj.bytes →
      pc' ≠ some .write → PipeInv { s with obj := p', client := client, stops := stops } := by
    intro p' hr' hb hne
    refine hnext (Or.inl hr') fun ho => ?_
    obtain ⟨hbytes, hwrite⟩ := hinv.clean (ho.imp (fun h => hr'.symm.trans h) hstore)
    rw [hold] at hwrite
    refine ⟨hb.trans hbytes, fun hm => hwrite ?_⟩
    simp only [List.mem_append, List.mem_cons, Option.mem_toList] at hm ⊢
    rcases hm with (hm | hm) | hm
    · exact Or.inl hm
    · exact absurd hm hne
    · exact Or.inr (Or.inr hm)
  cases h with
  | claimed hrun =>
    refine hnext (Or.inr rfl) ?_
    rintro (ho | ho)
    · cases ho
    · have hclear := hinv.preparing (by rw [hstore ho]; rfl)
      rw [hclear] at hrun
      cases hrun
  | missed hrun => exact hkeep rfl rfl (by rintro ⟨⟩)
  | wrote =>
    refine hnext (Or.inl rfl) fun ho => ?_
    have hwrite := (hinv.clean (ho.imp id hstore)).2
    rw [hold] at hwrite
    exact absurd (by simp) hwrite
  | took found hc => exact hkeep rfl rfl (by rintro ⟨⟩)
  | returned found hc => exact hkeep rfl rfl (by rintro ⟨⟩)
  | ended found => exact hkeep rfl rfl (by rintro ⟨⟩)
  | stopped found => exact hkeep rfl rfl (by rintro ⟨⟩)

theorem WorkerStep.isRunning {s : State} {o : WorkerOutcomes} {pc : WorkerPc} {p : Members}
    {queue : List (Nat × Signal)} {pc' : WorkerPc} {out : List Item}
    (h : WorkerStep s o pc p queue pc' out) :
    p.isRunning = s.obj.isRunning ∧ p.cancelPipe = s.obj.cancelPipe := by
  cases h <;> exact ⟨rfl, rfl⟩

theorem pipeInv_start (handlers : Handlers) (pipe device : Bool) :
    PipeInv (start handlers pipe device) := by
  refine ⟨?_, fun _ => rfl, fun _ _ => rfl⟩
  rintro (ho | ho) <;> cases ho

/-- A step that meets the condition keeps the invariant. -/
theorem PipeInv.step {s s' : State} {i : Input} {out : List Item} (h : PipeInv s)
    (hok : DrainsLast s i) (hs : machine.step s i = some (s', out)) : PipeInv s' := by
  cases machine_step hs with
  | start hpc =>
    refine h.keep rfl (by rintro ⟨⟩) (fun hm => ?_) (by rintro ⟨⟩)
      (fun _ hw => h.unjoinable (by rw [hpc]; rfl) hw)
    simpa [State.allStops, ClientPc.stops, hpc] using hm
  | stop hpc =>
    refine h.keep rfl (by rintro ⟨⟩) (fun hm => ?_) (by rintro ⟨⟩)
      (fun _ hw => h.unjoinable (by rw [hpc]; rfl) hw)
    simpa [State.allStops, ClientPc.stops, hpc] using hm
  | delete hpc =>
    refine h.keep rfl (by rintro ⟨⟩) (fun hm => ?_) (by rintro ⟨⟩) (by rintro ⟨⟩)
    simpa [State.allStops, ClientPc.stops, hpc] using hm
  | client ok p w pc out h' => exact h'.pipeInv h hok
  | otherStop hpc =>
    refine h.keep rfl Or.inr (fun hm => ?_) h.preparing h.unjoinable
    simpa [State.allStops] using hm
  | stopStep i ok pc pc' client stops p out hi hr h' => exact h'.pipeInv hr h
  | worker o pc p queue pc' out hw h' =>
    obtain ⟨hrun, hpipe⟩ := h'.isRunning
    refine ⟨fun ho => ?_, fun hp => hrun.trans (h.preparing hp), fun _ hn => by cases hn⟩
    have hclean := h.clean (ho.imp (fun hr => hrun.symm.trans hr) id)
    have hbytes : p.bytes = s.obj.bytes := by rw [Members.bytes, hpipe, Members.bytes]
    exact ⟨hbytes.trans hclean.1, hclean.2⟩
  | emit body => exact h.keep rfl Or.inr id h.preparing h.unjoinable

theorem pipeInv_reach {s : State} {tr : List Item}
    (h : machine.ReachIf (fun s _ i => DrainsLast s i) s tr) : PipeInv s := by
  refine h.invariant (I := fun s _ => PipeInv s) ?_ ?_
  · rintro s ⟨handlers, pipe, device, rfl⟩
    exact pipeInv_start handlers pipe device
  · intro s tr i s' out hinv hok hs
    exact hinv.step hok hs

/-- And from a state that has it on. -/
theorem PipeInv.after {s s' : State} {out : List Item} (h : PipeInv s)
    (hr : (machine.after s).ReachIf (fun s _ i => DrainsLast s i) s' out) : PipeInv s' := by
  refine hr.invariant (I := fun s _ => PipeInv s) ?_ ?_
  · rintro s rfl
    exact h
  · intro s tr i s' out hinv hok hs
    exact hinv.step hok hs

/-! ## A drain that ends otherwise -/

/-- The step that ends a drain. -/
theorem step_drainEnds {s : State} {i : Input} (h : s.drainEnds i = true) :
    s.client = .drain ∧ machine.step s i = some ({ s with client := .storeRunning }, []) := by
  cases i with
  | client ok =>
    simp only [State.drainEnds, Bool.and_eq_true, beq_iff_eq, Bool.or_eq_true,
      Bool.not_eq_true'] at h
    obtain ⟨hpc, hends⟩ := h
    refine ⟨hpc, ?_⟩
    simp only [machine, State.step, State.runClient, hpc, State.clientAt]
    split
    · rename_i n hp
      rcases hends with hb | hok
      · rw [Members.bytes, hp] at hb
        cases hb
      · rw [if_neg (by simp [hok])]
    · rfl
  | _ => cases h

/-- The next session: `start` sets the flags and makes the worker, which begins a scan. -/
def State.restarted (s : State) : State :=
  { s with
    obj := { s.obj with isRunning := true, checkInProgress := false }
    worker := some .storeCheck
    client := .idle }

/-- The steps to it: four of `start`, and two of the worker. -/
def restartSteps : List Input :=
  List.replicate 4 (Input.client true) ++ List.replicate 2 (Input.worker ⟨.ok, .nothing⟩)

theorem restarted_reach {s : State} (hpc : s.client = .storeRunning)
    (hdev : s.obj.device = true) :
    ∃ out, (machine.after s).ReachIf (fun s _ i => DrainsLast s i) s.restarted out := by
  have hmeets : (machine.after s).Meets (fun s _ i => DrainsLast s i) s [] restartSteps := by
    simp [restartSteps, List.replicate, Machine.Meets, Machine.after, machine, State.step,
      State.runClient, State.runWorker, State.clientAt, State.setObj, State.goto, DrainsLast,
      State.drainEnds, hpc, hdev]
  have hexec : ∃ out, (machine.after s).exec s restartSteps = some (s.restarted, out) := by
    simp [restartSteps, List.replicate, Machine.exec, Machine.after, machine, State.step,
      State.runClient, State.runWorker, State.clientAt, State.setObj, State.goto, State.restarted,
      Members.invoke, hpc, hdev]
  obtain ⟨out, he⟩ := hexec
  exact ⟨_, Machine.reachIf_append_exec restartSteps (.init rfl) hmeets he⟩

/-- A byte that is there, or that a `stop` is to write, can be there when the next session
scans. -/
theorem stale_of_storeRunning {s : State} {n : Nat} (hpc : s.client = .storeRunning)
    (hpipe : s.obj.cancelPipe = some n) (hdev : s.obj.device = true)
    (hleft : ¬(s.obj.bytes = 0 ∧ .write ∉ s.stops)) : ¬KeepsWaiting s := by
  obtain ⟨out, hr⟩ := restarted_reach hpc hdev
  -- in the scan that begins, `select` finds a byte
  have hfinds : ∀ s', s'.worker = some .storeCheck → s'.obj.isRunning = true →
      s'.obj.bytes ≠ 0 → ¬Waits s' := by
    intro s' hw hrun hb hwaits
    have hready := hwaits _ hw rfl hrun
    rw [Members.selectReady, decide_eq_false_iff_not] at hready
    omega
  by_cases hb : s.obj.bytes = 0
  · have hw : .write ∈ s.stops := not_not.mp fun hw => hleft ⟨hb, hw⟩
    obtain ⟨i, hi, hat⟩ := List.getElem_of_mem hw
    have hstop : s.stops[i]? = some .write := by rw [List.getElem?_eq_getElem hi, hat]
    have hwrites : ∃ s', (machine.after s).step s.restarted (.other i true) = some (s', []) ∧
        s'.worker = some .storeCheck ∧ s'.obj.isRunning = true ∧ s'.obj.bytes ≠ 0 := by
      simp [Machine.after, machine, State.step, State.restarted, hstop, Members.stop, State.setObj,
        Members.bytes, hpipe]
    obtain ⟨s', hs, hworker, hrun, hbytes⟩ := hwrites
    have hlast : DrainsLast s.restarted (.other i true) := fun h => absurd h Bool.false_ne_true
    exact fun hkeeps => hfinds s' hworker hrun hbytes (hkeeps _ _ (hr.step hlast hs))
  · exact fun hkeeps => hfinds s.restarted rfl rfl hb (hkeeps _ _ hr)

/-- **No byte written for one session's `stop` is left to a later session**, in every run where
the drains end with none to come; and where there is a pipe and a device, a step meets the
condition exactly if `select` waits in all runs that go on from it. -/
theorem pipe_safe {s : State} {tr : List Item}
    (h : machine.ReachIf (fun s _ i => DrainsLast s i) s tr) :
    PipeSafe s ∧ ∀ i s' out, machine.step s i = some (s', out) →
      s.obj.cancelPipe.isSome = true → s.obj.device = true →
      (DrainsLast s i ↔ KeepsWaiting s') := by
  have hinv := pipeInv_reach h
  refine ⟨hinv.safe, fun i s' out hs hpipe hdev => ⟨fun hok s'' out' hr => ?_, fun hkeeps => ?_⟩⟩
  · exact ((hinv.step hok hs).after hr).safe.waits
  · intro hends
    obtain ⟨hpc, hstep⟩ := step_drainEnds hends
    cases hstep.symm.trans hs
    obtain ⟨n, hn⟩ := Option.isSome_iff_exists.mp hpipe
    by_contra hleft
    rw [State.allStops, hpc] at hleft
    have hnot : ¬KeepsWaiting { s with client := .storeRunning } :=
      stale_of_storeRunning rfl hn hdev hleft
    exact hnot hkeeps

/-! ## Runs to evaluate -/

/-- The session is stopped, the pipe drained, and another session is on. -/
def sampleRestarted : List Input :=
  sampleStart ++ sampleStop ++ sampleWorker 6 .nothing ++ [Input.start] ++
  List.replicate 8 (Input.client true) ++ sampleWorker 7 .nothing

theorem restartedRun_isSome :
    (machine.exec (start allHandlers true true) sampleRestarted).isSome = true := by
  decide

def restartedRun : State × List Item :=
  (machine.exec (start allHandlers true true) sampleRestarted).get restartedRun_isSome

theorem restartedRun_meets : machine.Meets (fun s _ i => DrainsLast s i)
    (start allHandlers true true) [] sampleRestarted := by
  decide

theorem pipe_safe_restartedRun :
    PipeSafe restartedRun.1 ∧ ∀ i s' out, machine.step restartedRun.1 i = some (s', out) →
      restartedRun.1.obj.cancelPipe.isSome = true → restartedRun.1.obj.device = true →
      (DrainsLast restartedRun.1 i ↔ KeepsWaiting s') :=
  pipe_safe (Machine.reachIf_exec (start_init _ _ _) restartedRun_meets restartedRun_isSome)

/-- Another thread's `stop` has won its compare-exchange; the worker ends, `start` drains the
pipe and makes the next worker; then the byte is written. -/
def sampleLeft : List Input :=
  sampleStart ++ [Input.otherStop, .other 0 true] ++ sampleWorker 6 .nothing ++ [Input.start] ++
  List.replicate 7 (Input.client true) ++ sampleWorker 7 .nothing ++ [Input.other 0 true]

theorem leftRun_isSome :
    (machine.exec (start allHandlers true true) sampleLeft).isSome = true := by
  decide

def leftRun : State × List Item :=
  (machine.exec (start allHandlers true true) sampleLeft).get leftRun_isSome

/-- **A `stop` can leave its byte to the next session**, whose `select` no longer waits. -/
theorem pipe_stale : ¬∀ s tr, machine.Reach s tr → PipeSafe s := by
  intro h
  have hsafe := h _ _ (Machine.reach_exec (start_init _ _ _) leftRun_isSome)
  have hready : leftRun.1.obj.selectReady = true := by decide
  have hwaits := hsafe.waits .select (by decide) rfl (by decide)
  exact absurd (hwaits.symm.trans hready) Bool.false_ne_true

end Auth.Fingerprint
