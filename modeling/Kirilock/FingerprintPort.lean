import Kirilock.FingerprintBack
import Kirilock.FingerprintSignals

/-!
`auth::Fingerprint` and the component it was ported from.

`State.back` is what the C code has of an object, and `step_back` says that the two take the
same steps with the same items, except where the port joins a worker that has ended and
starts anew: there the C code refuses the start.  So every run of the C code, with the starts
that it refuses left out, is a run of the port (`port_refines`).
-/

namespace Auth.Fingerprint

open Runs

/-! ## What the C code has -/

def Error.back : Error → Back.Fingerprint.KlFingerprintError
  | .notMatch => .notMatch
  | .notFound => .notFound
  | .system => .system

def Handler.back : Handler → Back.Fingerprint.Handler
  | .onStart => .onStart
  | .onLoop => .onLoop
  | .onFinish => .onFinish
  | .onError e msg => .onError e.back msg
  | .onEnd => .onEnd
  | .onStop => .onStop
  | .onDelete => .onDelete

def Handlers.back (hs : Handlers) : Back.Fingerprint.KlFingerprintHandlers :=
  ⟨hs.onStart, hs.onLoop, hs.onFinish, hs.onError, hs.onEnd, hs.onStop, hs.onDelete⟩

def Item.back : Item → Back.Fingerprint.Item
  | .start => .start
  | .startReturned r => .startReturned (if r = .started then 0 else -1)
  | .stop => .stop
  | .stopReturned _ => .stopReturned
  | .delete => .delete
  | .deleted => .deleted
  | .started => .created
  | .joined => .joined
  | .handler k h => .handler k h.back
  | .scanEnded k => .scanEnded k
  | .verifyStart ok => .verifyStart ok
  | .verifyStop => .verifyStop
  | .release => .release
  | .emitted k body => .emitted k body

def StopPc.back : StopPc → Back.Fingerprint.StopPc
  | .compareRunning => .compareRunning
  | .write => .write
  | .compareCheck _ => .compareCheck
  | .onEnd _ => .onEnd
  | .onStop _ => .onStop

def WorkerPc.back : WorkerPc → Back.Fingerprint.WorkerPc
  | .loadRunning => .loadRunning
  | .notFound => .notFound
  | .verifyStart => .verifyStart
  | .startFailed msg => .startFailed msg
  | .leave => .leave
  | .storeCheck => .storeCheck
  | .onLoop => .onLoop
  | .loadInner => .loadInner
  | .loadCheck => .loadCheck
  | .process => .process
  | .callback k body => .callback k body
  | .compareCheck k => .compareCheck k
  | .callbackEnd k => .callbackEnd k
  | .select => .select
  | .verifyStop => .verifyStop
  | .pause => .usleep
  | .exited => .exited

/-- The C code has no place for the port's `join`. -/
def ClientPc.back : ClientPc → Back.Fingerprint.ClientPc
  | .idle => .idle
  | .load => .test
  | .join => .test
  | .drain => .drain
  | .storeRunning => .storeRunning
  | .storeCheck => .storeCheck
  | .onStart => .onStart
  | .create => .create
  | .catchStore => .createStore
  | .stop pc => .stop pc.back
  | .deleteStop pc => .deleteStop pc.back
  | .deleteJoin => .deleteJoin
  | .release => .release
  | .close => .close
  | .onDelete => .onDelete
  | .deleted => .deleted

def Members.back (p : Members) (hasThread : Bool) : Back.Fingerprint.KlFingerprintCtx :=
  ⟨p.handlers.back, hasThread, p.isRunning, p.checkInProgress, p.cancelPipe, p.device⟩

def State.back (s : State) : Back.Fingerprint.State where
  ctx := s.obj.back s.worker.isSome
  thread := s.worker.map WorkerPc.back
  client := s.client.back
  stops := s.stops.map StopPc.back
  queue := s.queue
  emissions := s.emissions

/-- What the C code has of a step. -/
def both (r : State × List Item) : Back.Fingerprint.State × List Back.Fingerprint.Item :=
  (r.1.back, r.2.map Item.back)

/-! ## One step of both -/

theorem Handlers.back_has (hs : Handlers) (h : Handler) : hs.back.has h.back = hs.has h := by
  cases h <;> rfl

theorem Members.back_invoke (p : Members) (b : Bool) (k : Option Nat) (h : Handler) :
    (p.back b).invoke k h.back = (p.invoke k h).map Item.back := by
  unfold Back.Fingerprint.KlFingerprintCtx.invoke Members.invoke
  rw [show (p.back b).handlers.has h.back = p.handlers.has h from p.handlers.back_has h]
  split <;> rfl

theorem verdict_back (result : String) :
    Back.Fingerprint.fprintVerdict result = (verdict result).back := by
  unfold Back.Fingerprint.fprintVerdict verdict
  split
  · rfl
  · split <;> rfl

theorem Members.back_stop (p : Members) (b ok : Bool) (pc : StopPc) :
    Back.Fingerprint.klFingerprintStop (p.back b) ok pc.back =
      ((p.stop ok pc).1.map StopPc.back, (p.stop ok pc).2.1.back b,
        (p.stop ok pc).2.2.map Item.back) := by
  cases pc with
  | compareRunning =>
    cases hr : p.isRunning <;>
      simp [StopPc.back, Back.Fingerprint.klFingerprintStop, Members.stop, Members.back, hr]
  | write => rfl
  | compareCheck found =>
    cases hc : p.checkInProgress <;>
      simp [StopPc.back, Item.back, Back.Fingerprint.klFingerprintStop, Members.stop, Members.back,
        hc]
  | onEnd found =>
    simp only [StopPc.back, Back.Fingerprint.klFingerprintStop, Members.stop]
    rw [← p.back_invoke b none .onEnd]
    rfl
  | onStop found =>
    simp only [StopPc.back, Back.Fingerprint.klFingerprintStop, Members.stop]
    rw [List.map_append, ← p.back_invoke b none .onStop]
    rfl

theorem State.back_goto (s : State) (hw : s.worker.isSome = true) (pc : WorkerPc)
    {out : List Item} {out' : List Back.Fingerprint.Item} (hout : out' = out.map Item.back) :
    s.back.goto pc.back out' = (s.goto pc out).map both := by
  simp [State.back, Back.Fingerprint.State.goto, State.goto, both, hw, hout]

theorem State.back_worker (s : State) (hw : s.worker.isSome = true) (o : WorkerOutcomes)
    (pc : WorkerPc) : s.back.fpWorker o pc.back = (s.runWorker o pc).map both := by
  -- the worker goes on with other flags, or with another queue
  have hset : ∀ p : Members, s.back.setCtx (p.back true) = (s.setObj p).back := by
    intro p
    simp [State.back, Back.Fingerprint.State.setCtx, State.setObj, hw]
  have hctx : s.back.ctx = s.obj.back true := by
    simp [State.back, hw]
  have hgo : ∀ t : State, t.worker.isSome = true → ∀ pc : WorkerPc,
      t.back.goto pc.back [] = (t.goto pc []).map both := fun t h pc => t.back_goto h pc rfl
  cases pc with
  | loadRunning =>
    simp only [WorkerPc.back, Back.Fingerprint.State.fpWorker, State.runWorker, hctx]
    rw [← hgo s hw]
    cases hr : s.obj.isRunning <;> cases hd : s.obj.device <;> simp [Members.back, hr, hd] <;> rfl
  | notFound =>
    simp only [WorkerPc.back, Back.Fingerprint.State.fpWorker, State.runWorker, hctx]
    exact s.back_goto hw .leave
      (s.obj.back_invoke true none (.onError .notFound "D-Bus or device not found"))
  | verifyStart =>
    simp only [WorkerPc.back, Back.Fingerprint.State.fpWorker, State.runWorker]
    cases o.verifyStart with
    | ok => exact s.back_goto hw .storeCheck rfl
    | failed msg => exact s.back_goto hw (.startFailed msg) rfl
  | startFailed msg =>
    simp only [WorkerPc.back, Back.Fingerprint.State.fpWorker, State.runWorker, hctx]
    exact s.back_goto hw .leave (s.obj.back_invoke true none (.onError .system _))
  | leave => exact hgo s hw .exited
  | storeCheck =>
    simp only [WorkerPc.back, Back.Fingerprint.State.fpWorker, State.runWorker, hctx]
    rw [← hgo (s.setObj { s.obj with checkInProgress := true }) hw, ← hset]
    rfl
  | onLoop =>
    simp only [WorkerPc.back, Back.Fingerprint.State.fpWorker, State.runWorker, hctx]
    exact s.back_goto hw .loadInner (s.obj.back_invoke true none .onLoop)
  | loadInner =>
    simp only [WorkerPc.back, Back.Fingerprint.State.fpWorker, State.runWorker, hctx]
    rw [← hgo s hw]
    cases hr : s.obj.isRunning <;> simp [Members.back, hr] <;> rfl
  | loadCheck =>
    simp only [WorkerPc.back, Back.Fingerprint.State.fpWorker, State.runWorker, hctx]
    rw [← hgo s hw]
    cases hc : s.obj.checkInProgress <;> simp [Members.back, hc] <;> rfl
  | process =>
    simp only [WorkerPc.back, Back.Fingerprint.State.fpWorker, State.runWorker]
    cases o.process with
    | failed => exact hgo s hw .verifyStop
    | nothing => exact hgo s hw .select
    | other => exact hgo s hw .loadInner
    | signal =>
      simp only [show s.back.queue = s.queue from rfl]
      cases s.queue with
      | nil => rfl
      | cons x queue => exact hgo { s with queue := queue } hw (.callback x.1 x.2)
  | callback k body =>
    cases body with
    | unreadable => exact hgo s hw .loadInner
    | status result done =>
      have hout := s.obj.back_invoke true (some k) (verdict result)
      rw [← verdict_back, ← hctx] at hout
      cases done with
      | false => exact s.back_goto hw .loadInner hout
      | true => exact s.back_goto hw (.compareCheck k) hout
  | compareCheck k =>
    simp only [WorkerPc.back, Back.Fingerprint.State.fpWorker, State.runWorker, hctx]
    cases hc : s.obj.checkInProgress with
    | false =>
      simp only [Members.back, hc, Bool.false_eq_true, if_false]
      exact hgo s hw .loadInner
    | true =>
      simp only [Members.back, hc, if_true]
      have hout : [Back.Fingerprint.Item.scanEnded k] = [Item.scanEnded k].map Item.back := rfl
      rw [← State.back_goto (s.setObj { s.obj with checkInProgress := false }) hw (.callbackEnd k)
        hout, ← hset]
      rfl
  | callbackEnd k =>
    simp only [WorkerPc.back, Back.Fingerprint.State.fpWorker, State.runWorker, hctx]
    exact s.back_goto hw .loadInner (s.obj.back_invoke true (some k) .onEnd)
  | select => exact hgo s hw .loadInner
  | verifyStop => exact s.back_goto hw .pause rfl
  | pause => exact hgo s hw .loadRunning
  | exited => rfl

/-- A step that the C code takes, too: no worker that has ended is joined by a start, and
`on_start` does not throw. -/
def Portable (s : State) : Input → Prop
  | .client ok => (s.client = .load → s.worker.isSome = true → s.obj.isRunning = true) ∧
      (s.client = .onStart → s.obj.handlers.onStart = true → ok = true)
  | _ => True

theorem State.back_clientAt (s : State) (pc : ClientPc) {out : List Item}
    {out' : List Back.Fingerprint.Item} (hout : out' = out.map Item.back) :
    s.back.clientAt pc.back out' = (s.clientAt pc out).map both := by
  rw [hout]
  rfl

theorem State.back_client (s : State) {ok : Bool} (hjoin : s.client ≠ .join)
    (hport : Portable s (.client ok)) :
    s.back.klFingerprintCall ok = (s.runClient ok).map both := by
  have hset : ∀ p : Members, s.back.setCtx (p.back s.worker.isSome) = (s.setObj p).back :=
    fun _ => rfl
  have hat : ∀ (t : State) (pc : ClientPc), t.back.clientAt pc.back [] =
      (t.clientAt pc []).map both := fun t pc => t.back_clientAt pc rfl
  have hstop : ∀ (next : Option StopPc → ClientPc)
      (next' : Option Back.Fingerprint.StopPc → Back.Fingerprint.ClientPc),
      (∀ r, next' (r.map StopPc.back) = (next r).back) → ∀ pc : StopPc,
      (s.back.setCtx (Back.Fingerprint.klFingerprintStop s.back.ctx ok pc.back).2.1).clientAt
          (next' (Back.Fingerprint.klFingerprintStop s.back.ctx ok pc.back).1)
          (Back.Fingerprint.klFingerprintStop s.back.ctx ok pc.back).2.2 =
        ((s.setObj (s.obj.stop ok pc).2.1).clientAt (next (s.obj.stop ok pc).1)
          (s.obj.stop ok pc).2.2).map both := by
    intro next next' hnext pc
    have hs := s.obj.back_stop s.worker.isSome ok pc
    rw [show s.back.ctx = s.obj.back s.worker.isSome from rfl, hs, hset, hnext]
    exact State.back_clientAt _ _ rfl
  unfold State.runClient Back.Fingerprint.State.klFingerprintCall
  rw [show s.back.client = s.client.back from rfl, show s.back.ctx = s.obj.back s.worker.isSome
    from rfl]
  cases hc : s.client with
  | idle | deleted => rfl
  | join => exact absurd hc hjoin
  | load =>
    simp only [ClientPc.back, Members.back]
    cases hw : s.worker with
    | none => exact hat s .drain
    | some pc =>
      have hr := hport.1 hc (by rw [hw]; rfl)
      simp only [Option.isSome_some, if_true, hr]
      exact s.back_clientAt .idle rfl
  | drain =>
    simp only [ClientPc.back, Members.back]
    cases hp : s.obj.cancelPipe with
    | none => exact hat s .storeRunning
    | some n =>
      cases n with
      | zero => exact hat s .storeRunning
      | succ n =>
        cases ok with
        | false => exact hat s .storeRunning
        | true => exact hat (s.setObj { s.obj with cancelPipe := some (n + 1 - 64) }) .drain
  | storeRunning => exact hat (s.setObj { s.obj with isRunning := true }) .storeCheck
  | storeCheck => exact hat (s.setObj { s.obj with checkInProgress := false }) .onStart
  | onStart =>
    have hok : ¬(ok = false ∧ s.obj.handlers.onStart = true) := by
      rintro ⟨hf, ho⟩
      rw [hport.2 hc ho] at hf
      cases hf
    simp only [ClientPc.back, if_neg hok]
    exact s.back_clientAt .create (s.obj.back_invoke s.worker.isSome none .onStart)
  | create =>
    cases ok with
    | true => rfl
    | false => exact hat s .catchStore
  | catchStore => rfl
  | stop pc =>
    exact hstop (fun r => r.elim .idle .stop) (fun r => r.elim .idle .stop)
      (fun r => by cases r <;> rfl) pc
  | deleteStop pc =>
    exact hstop (fun r => r.elim .deleteJoin .deleteStop) (fun r => r.elim .deleteJoin .deleteStop)
      (fun r => by cases r <;> rfl) pc
  | deleteJoin =>
    simp only [ClientPc.back, Members.back]
    cases hw : s.worker with
    | none =>
      simp only [Option.isSome_none, Bool.false_eq_true, if_false, if_true]
      exact hat s .release
    | some pc =>
      have hexited : s.back.thread = some .exited ↔ pc = .exited := by
        rw [show s.back.thread = s.worker.map WorkerPc.back from rfl, hw]
        cases pc <;> simp [WorkerPc.back]
      simp only [Option.isSome_some, if_true, reduceCtorEq, if_false, hexited, Option.some.injEq]
      split
      · rfl
      · rfl
  | release =>
    refine s.back_clientAt .close ?_
    rw [show (s.obj.back s.worker.isSome).device = s.obj.device from rfl]
    cases s.obj.device <;> rfl
  | close => exact hat (s.setObj { s.obj with cancelPipe := none }) .onDelete
  | onDelete =>
    have hstops : s.back.stops = [] ↔ s.stops = [] := List.map_eq_nil_iff
    simp only [ClientPc.back, hstops]
    split
    · refine s.back_clientAt .deleted ?_
      rw [List.map_append, ← s.obj.back_invoke s.worker.isSome none .onDelete]
      rfl
    · rfl

theorem ClientPc.back_idle (pc : ClientPc) : pc.back = .idle ↔ pc = .idle := by
  cases pc <;> simp [ClientPc.back]

theorem ClientPc.back_deleted (pc : ClientPc) : pc.back = .deleted ↔ pc = .deleted := by
  cases pc <;> simp [ClientPc.back]

/-- **One step of both.** -/
theorem step_back {s : State} {i : Input} (hjoin : s.client ≠ .join) (hport : Portable s i) :
    Back.Fingerprint.machine.step s.back i = (machine.step s i).map both := by
  have hidle : s.back.client = .idle ↔ s.client = .idle := s.client.back_idle
  cases i with
  | start | stop | delete =>
    simp only [machine, Back.Fingerprint.machine, State.step, Back.Fingerprint.State.step, hidle]
    split
    · rfl
    · rfl
  | client ok => exact s.back_client hjoin hport
  | otherStop =>
    have hdeleted : s.back.client = .deleted ↔ s.client = .deleted := s.client.back_deleted
    simp only [machine, Back.Fingerprint.machine, State.step, Back.Fingerprint.State.step, hdeleted]
    split
    · rfl
    · rfl
  | other n ok =>
    simp only [machine, Back.Fingerprint.machine, State.step, Back.Fingerprint.State.step,
      show s.back.stops = s.stops.map StopPc.back from rfl, List.getElem?_map]
    cases s.stops[n]? with
    | none => rfl
    | some pc =>
      have hs := s.obj.back_stop s.worker.isSome ok pc
      simp only [Option.map_some, show s.back.ctx = s.obj.back s.worker.isSome from rfl, hs, both]
      congr 2
      rw [← List.map_take, ← List.map_drop]
      cases (s.obj.stop ok pc).1 <;> simp [State.back, State.setObj, Back.Fingerprint.State.setCtx]
  | worker o =>
    simp only [machine, Back.Fingerprint.machine, State.step, Back.Fingerprint.State.step,
      show s.back.thread = s.worker.map WorkerPc.back from rfl]
    cases hw : s.worker with
    | none => rfl
    | some pc => exact s.back_worker (by rw [hw]; rfl) o pc
  | emit body => rfl

/-! ## The runs -/

/-- The C code and the port are at the same place, or the C code is in a start that it is
going to refuse. -/
inductive Refines : Back.Fingerprint.State → State → Prop
  | together {s : State} (hjoin : s.client ≠ .join)
      (hload : s.client = .load → s.worker = none) : Refines s.back s
  | refusing {s : State} (hidle : s.client = .idle) (hw : s.worker.isSome = true) :
      Refines { s.back with client := .test } s

/-- What is done besides the calls of `kl_fingerprint_start` and their results. -/
def doings (tr : List Back.Fingerprint.Item) : List Back.Fingerprint.Item :=
  tr.filter fun
    | .start => false
    | .startReturned _ => false
    | _ => true

theorem doings_append (tr out : List Back.Fingerprint.Item) :
    doings (tr ++ out) = doings tr ++ doings out := List.filter_append ..

/-- Where the C code starts nothing anew, no step of the port leads to its `join`. -/
theorem Step.together {s s' : State} {i : Input} {out : List Item} (h : Step s i s' out)
    (hi : i = .start → s.worker = none) (hjoin : s.client ≠ .join)
    (hload : s.client = .load → s.worker = none) :
    s'.client ≠ .join ∧ (s'.client = .load → s'.worker = none) := by
  cases h with
  | start hpc => exact ⟨nofun, fun _ => hi rfl⟩
  | stop | delete => exact ⟨nofun, nofun⟩
  | client ok p w pc out hc =>
    cases hc with
    | loaded hpc hw =>
      rw [hload hpc] at hw
      cases hw
    | called pc hpc hpc' => rcases hpc' with rfl | rfl <;> exact ⟨nofun, nofun⟩
    | _ => exact ⟨nofun, nofun⟩
  | otherStop | emit => exact ⟨hjoin, hload⟩
  | stopStep i ok pc pc' client stops p out hpc hr =>
    cases hr with
    | client | delete => cases pc' <;> exact ⟨nofun, nofun⟩
    | other => exact ⟨hjoin, hload⟩
  | worker o pc p queue pc' out hw =>
    refine ⟨hjoin, fun hl => ?_⟩
    rw [hload hl] at hw
    cases hw

/-- A step of another thread, of the worker or of the device. -/
def Input.elsewhere : Input → Bool
  | .otherStop => true
  | .other _ _ => true
  | .worker _ => true
  | .emit _ => true
  | _ => false

theorem fpWorker_client (t : Back.Fingerprint.State) (c : Back.Fingerprint.ClientPc)
    (o : WorkerOutcomes) (pc : Back.Fingerprint.WorkerPc) :
    Back.Fingerprint.State.fpWorker { t with client := c } o pc =
      (t.fpWorker o pc).map fun r => ({ r.1 with client := c }, r.2) := by
  cases pc with
  | verifyStart =>
    simp only [Back.Fingerprint.State.fpWorker]
    cases o.verifyStart <;> rfl
  | process =>
    simp only [Back.Fingerprint.State.fpWorker]
    cases o.process with
    | signal =>
      simp only
      cases t.queue <;> rfl
    | _ => rfl
  | callback k body => cases body <;> rfl
  | compareCheck k =>
    simp only [Back.Fingerprint.State.fpWorker]
    split <;> rfl
  | _ => rfl

/-- It does not look at the client that is in a call. -/
theorem step_elsewhere {s : State} (hidle : s.client = .idle) {i : Input}
    (hi : i.elsewhere = true) :
    Back.Fingerprint.machine.step { s.back with client := .test } i =
      (Back.Fingerprint.machine.step s.back i).map
        fun r => ({ r.1 with client := .test }, r.2) := by
  have hclient : s.back.client = .idle := s.client.back_idle.mpr hidle
  cases i with
  | start | stop | delete | client => cases hi
  | otherStop =>
    simp only [Back.Fingerprint.machine, Back.Fingerprint.State.step, hclient]
    rfl
  | other n ok =>
    simp only [Back.Fingerprint.machine, Back.Fingerprint.State.step]
    cases s.back.stops[n]? <;> rfl
  | worker o =>
    simp only [Back.Fingerprint.machine, Back.Fingerprint.State.step]
    cases s.back.thread with
    | none => rfl
    | some pc => exact fpWorker_client s.back .test o pc
  | emit body => rfl

theorem Step.elsewhere {s s' : State} {i : Input} {out : List Item} (h : Step s i s' out)
    (hi : i.elsewhere = true) (hidle : s.client = .idle) (hw : s.worker.isSome = true) :
    s'.client = .idle ∧ s'.worker.isSome = true := by
  cases h with
  | start | stop | delete | client => cases hi
  | otherStop | emit => exact ⟨hidle, hw⟩
  | stopStep i ok pc pc' client stops p out hpc hr =>
    cases hr with
    | client hc | delete hc =>
      rw [hidle] at hc
      cases hc
    | other => exact ⟨hidle, hw⟩
  | worker => exact ⟨hidle, rfl⟩

/-- **One step of the C code** is one of the port, or it is about a start that is refused. -/
theorem Refines.step {t t' : Back.Fingerprint.State} {s : State} {i : Input}
    {out' : List Back.Fingerprint.Item} (h : Refines t s)
    (hs : Back.Fingerprint.machine.step t i = some (t', out')) :
    (∃ j s' out, machine.step s j = some (s', out) ∧ Refines t' s' ∧
      doings out' = doings (out.map Item.back)) ∨ Refines t' s ∧ doings out' = [] := by
  cases h with
  | together hjoin hload =>
    -- a step that the port takes, too
    have hboth : ∀ j, Back.Fingerprint.machine.step s.back j = some (t', out') → Portable s j →
        (j = .start → s.worker = none) → ∃ j s' out, machine.step s j = some (s', out) ∧
          Refines t' s' ∧ doings out' = doings (out.map Item.back) := by
      intro j hj hport hstart
      rw [step_back hjoin hport] at hj
      obtain ⟨⟨s', out⟩, hm, he⟩ := Option.map_eq_some_iff.mp hj
      cases he
      obtain ⟨hjoin', hload'⟩ := (machine_step hm).together hstart hjoin hload
      exact ⟨j, s', out, hm, .together hjoin' hload', rfl⟩
    cases i with
    | start =>
      by_cases hw : s.worker.isSome = true
      · right
        simp only [Back.Fingerprint.machine, Back.Fingerprint.State.step] at hs
        split at hs
        · rename_i hidle
          cases hs
          exact ⟨.refusing (s.client.back_idle.mp hidle) hw, rfl⟩
        · cases hs
      · exact Or.inl (hboth .start hs trivial fun _ => by simpa using hw)
    | client ok =>
      have hnone : s.client = .load → s.worker.isSome = true → s.obj.isRunning = true := by
        intro hl hw
        rw [hload hl] at hw
        cases hw
      left
      by_cases hc : s.client = .onStart
      · -- the C code's handler has no outcome
        refine hboth (.client true) ?_ ⟨hnone, fun _ _ => rfl⟩ nofun
        rw [← hs]
        simp only [Back.Fingerprint.machine, Back.Fingerprint.State.step,
          Back.Fingerprint.State.klFingerprintCall, show s.back.client = s.client.back from rfl, hc,
          ClientPc.back]
      · exact hboth (.client ok) hs ⟨hnone, fun h => absurd h hc⟩ nofun
    | _ => exact Or.inl (hboth _ hs trivial nofun)
  | refusing hidle hw =>
    by_cases hi : i.elsewhere = true
    · left
      have hport : Portable s i := by
        cases i <;> trivial
      rw [step_elsewhere hidle hi, step_back (by rw [hidle]; nofun) hport] at hs
      obtain ⟨⟨t1, out1⟩, hb, he⟩ := Option.map_eq_some_iff.mp hs
      obtain ⟨⟨s', out⟩, hm, he1⟩ := Option.map_eq_some_iff.mp hb
      cases he1
      cases he
      obtain ⟨hidle', hw'⟩ := (machine_step hm).elsewhere hi hidle hw
      exact ⟨i, s', out, hm, .refusing hidle' hw', rfl⟩
    · right
      cases i with
      | client ok =>
        simp only [Back.Fingerprint.machine, Back.Fingerprint.State.step,
          Back.Fingerprint.State.klFingerprintCall,
          show s.back.ctx.hasThread = s.worker.isSome from rfl, hw, if_true] at hs
        cases hs
        have hclient : s.back.client = .idle := s.client.back_idle.mpr hidle
        have he : ({ s.back with client := .idle } : Back.Fingerprint.State) = s.back := by
          rw [← hclient]
        refine ⟨?_, rfl⟩
        show Refines { s.back with client := .idle } s
        rw [he]
        exact .together (by rw [hidle]; nofun) (by rw [hidle]; nofun)
      | start | stop | delete => cases hs
      | _ => exact absurd rfl hi

/-- **The port keeps what the C code does**: every run of the C code, with the starts that it
refuses left out, is a run of the port. -/
theorem port_refines {t : Back.Fingerprint.State} {tr' : List Back.Fingerprint.Item}
    (h : Back.Fingerprint.machine.Reach t tr') :
    ∃ s tr, machine.Reach s tr ∧ Refines t s ∧ doings tr' = doings (tr.map Item.back) := by
  induction h with
  | init h =>
    obtain ⟨hs, device, rfl⟩ := h
    let s := start ⟨hs.onStart, hs.onLoop, hs.onFinish, hs.onError, hs.onEnd, hs.onStop,
      hs.onDelete⟩ true device
    have hback : s.back = Back.Fingerprint.start hs device := rfl
    refine ⟨s, [], .init (start_init _ _ _), ?_, rfl⟩
    rw [← hback]
    exact .together nofun nofun
  | step _ _ hs ih =>
    obtain ⟨s, tr, hr, href, htr⟩ := ih
    rcases href.step hs with ⟨j, s', out, hm, href', hout⟩ | ⟨href', hout⟩
    · refine ⟨s', tr ++ out, hr.step trivial hm, href', ?_⟩
      rw [doings_append, htr, hout, List.map_append, doings_append]
    · refine ⟨s, tr, hr, href', ?_⟩
      rw [doings_append, htr, hout, List.append_nil]

/-- A session is stopped, its worker ends, and `kl_fingerprint_start` is called again. -/
def sampleAgain : List Input :=
  sampleStart ++ sampleStop ++ sampleWorker 6 .nothing ++ [Input.start, Input.client true]

theorem againRun_isSome : (Back.Fingerprint.machine.exec
    (Back.Fingerprint.start allHandlers.back true) sampleAgain).isSome = true := by
  decide

def againRun : Back.Fingerprint.State × List Back.Fingerprint.Item :=
  (Back.Fingerprint.machine.exec (Back.Fingerprint.start allHandlers.back true) sampleAgain).get
    againRun_isSome

/-- The second start is refused, and the port's run has only the first. -/
theorem port_refines_againRun :
    .startReturned (-1) ∈ againRun.2 ∧
    ∃ s tr, machine.Reach s tr ∧ Refines againRun.1 s ∧
      doings againRun.2 = doings (tr.map Item.back) :=
  ⟨by decide, port_refines
    (Machine.reach_exec (Back.Fingerprint.start_init _ _) againRun_isSome)⟩

end Auth.Fingerprint
