import Kirilock.FingerprintPort

/-!
The C component of the fingerprint scanner can be started once.

`has_thread` is set where the thread is created, `kl_fingerprint_start` is refused while it is
set, and only `kl_fingerprint_delete` clears it: where `fp_worker` ends it stays.  A comment in
`kl_fingerprint_stop` says that a later start reaps the thread; the port does (`port_refines`).
-/

namespace Auth.Back.Fingerprint

open Runs
open Auth.Fingerprint (WorkerOutcomes Input allHandlers sampleStart sampleStop sampleWorker
  againRun againRun_isSome)

/-! ## Items that start something -/

/-- Something is started: `on_start`, the thread, and the result that says so. -/
def Item.begins : Item → Bool
  | .created => true
  | .startReturned ret => ret = 0
  | .handler _ .onStart => true
  | _ => false

/-- In `kl_fingerprint_start`, past its test. -/
def ClientPc.starting : ClientPc → Bool
  | .drain => true
  | .storeRunning => true
  | .storeCheck => true
  | .onStart => true
  | .create => true
  | .createStore => true
  | _ => false

/-- In `kl_fingerprint_delete`, past the join. -/
def ClientPc.gone : ClientPc → Bool
  | .release => true
  | .close => true
  | .onDelete => true
  | .deleted => true
  | _ => false

/-- The context has had its thread. -/
def Spent (t : State) : Prop :=
  t.client.starting = false ∧ (t.ctx.hasThread = true ∨ t.client.gone = true)

/-- Items that start nothing. -/
def Idle (out : List Item) : Prop := ∀ x ∈ out, x.begins = false

theorem idle_nil : Idle [] := List.forall_mem_nil _

theorem idle_singleton {x : Item} (h : x.begins = false) : Idle [x] :=
  List.forall_mem_singleton.mpr h

theorem idle_invoke (ctx : KlFingerprintCtx) (k : Option Nat) {h : Handler} (hh : h ≠ .onStart) :
    Idle (ctx.invoke k h) := by
  unfold KlFingerprintCtx.invoke
  split
  · refine List.forall_mem_singleton.mpr ?_
    cases h <;> first
      | rfl
      | exact absurd rfl hh
  · exact idle_nil

theorem idle_verdict (ctx : KlFingerprintCtx) (k : Option Nat) (result : String) :
    Idle (ctx.invoke k (fprintVerdict result)) := by
  refine idle_invoke ctx k ?_
  unfold fprintVerdict
  split
  · exact Handler.noConfusion
  · split <;> exact Handler.noConfusion

theorem klFingerprintStop_idle (ctx : KlFingerprintCtx) (ok : Bool) (pc : StopPc) :
    (klFingerprintStop ctx ok pc).2.1.hasThread = ctx.hasThread ∧
      (ctx.isRunning = false → (klFingerprintStop ctx ok pc).2.1.isRunning = false) ∧
      Idle (klFingerprintStop ctx ok pc).2.2 := by
  cases pc with
  | compareRunning =>
    by_cases hr : ctx.isRunning = true
    · simp only [klFingerprintStop, if_pos hr]
      exact ⟨trivial, fun _ => trivial, idle_nil⟩
    · simp only [klFingerprintStop, if_neg hr]
      exact ⟨trivial, id, idle_nil⟩
  | write => exact ⟨rfl, id, idle_nil⟩
  | compareCheck =>
    by_cases hc : ctx.checkInProgress = true
    · simp only [klFingerprintStop, if_pos hc]
      exact ⟨trivial, id, idle_nil⟩
    · simp only [klFingerprintStop, if_neg hc]
      exact ⟨trivial, id, idle_singleton rfl⟩
  | onEnd => exact ⟨rfl, id, idle_invoke ctx none Handler.noConfusion⟩
  | onStop =>
    exact ⟨rfl, id, List.forall_mem_append.mpr
      ⟨idle_invoke ctx none Handler.noConfusion, idle_singleton rfl⟩⟩

theorem fpWorker_idle {t t' : State} {o : WorkerOutcomes} {pc : WorkerPc} {out : List Item}
    (h : t.fpWorker o pc = some (t', out)) :
    t'.ctx.hasThread = t.ctx.hasThread ∧ t'.ctx.isRunning = t.ctx.isRunning ∧
      t'.client = t.client ∧ Idle out := by
  have hgo : ∀ {s : State} {pc' : WorkerPc} {items : List Item},
      s.goto pc' items = some (t', out) → s.ctx.hasThread = t.ctx.hasThread →
      s.ctx.isRunning = t.ctx.isRunning → s.client = t.client → Idle items →
      t'.ctx.hasThread = t.ctx.hasThread ∧ t'.ctx.isRunning = t.ctx.isRunning ∧
        t'.client = t.client ∧ Idle out := by
    intro s pc' items he h1 h2 h3 h4
    cases he
    exact ⟨h1, h2, h3, h4⟩
  cases pc with
  | loadRunning | leave | loadInner | loadCheck | select | usleep =>
    exact hgo h rfl rfl rfl idle_nil
  | notFound => exact hgo h rfl rfl rfl (idle_invoke _ _ Handler.noConfusion)
  | verifyStart =>
    simp only [State.fpWorker] at h
    split at h
    · exact hgo h rfl rfl rfl (idle_singleton rfl)
    · exact hgo h rfl rfl rfl (idle_singleton rfl)
  | startFailed msg => exact hgo h rfl rfl rfl (idle_invoke _ _ Handler.noConfusion)
  | storeCheck => exact hgo h rfl rfl rfl idle_nil
  | onLoop => exact hgo h rfl rfl rfl (idle_invoke _ _ Handler.noConfusion)
  | process =>
    simp only [State.fpWorker] at h
    split at h
    · exact hgo h rfl rfl rfl idle_nil
    · exact hgo h rfl rfl rfl idle_nil
    · exact hgo h rfl rfl rfl idle_nil
    · split at h
      · cases h
      · exact hgo h rfl rfl rfl idle_nil
  | callback k body =>
    cases body with
    | status result done => exact hgo h rfl rfl rfl (idle_verdict _ _ _)
    | unreadable => exact hgo h rfl rfl rfl idle_nil
  | compareCheck k =>
    simp only [State.fpWorker] at h
    split at h
    · exact hgo h rfl rfl rfl (idle_singleton rfl)
    · exact hgo h rfl rfl rfl idle_nil
  | callbackEnd k => exact hgo h rfl rfl rfl (idle_invoke _ _ Handler.noConfusion)
  | verifyStop => exact hgo h rfl rfl rfl (idle_singleton rfl)
  | exited => cases h

/-! ## The steps -/

/-- **Nothing starts anew**: with its thread created, the context starts nothing more, and once
`is_running` is false it stays false. -/
theorem spent_step {t t' : State} {i : Input} {out : List Item} (hspent : Spent t)
    (h : machine.step t i = some (t', out)) :
    Spent t' ∧ Idle out ∧ (t.ctx.isRunning = false → t'.ctx.isRunning = false) := by
  obtain ⟨hstart, hor⟩ := hspent
  -- a call that begins finds the client idle, so there is a thread
  have hcall : ∀ {pc : ClientPc} {items : List Item},
      (if t.client = .idle then t.clientAt pc items else none) = some (t', out) →
      pc.starting = false → Idle items →
      Spent t' ∧ Idle out ∧ (t.ctx.isRunning = false → t'.ctx.isRunning = false) := by
    intro pc items h hpc hitems
    split at h
    · rename_i hidle
      cases h
      rw [hidle] at hor
      have hthread : t.ctx.hasThread = true := hor.resolve_right Bool.noConfusion
      exact ⟨⟨hpc, Or.inl hthread⟩, hitems, id⟩
    · cases h
  cases i with
  | start => exact hcall h rfl (idle_singleton rfl)
  | stop => exact hcall h rfl (idle_singleton rfl)
  | delete =>
    exact hcall h rfl (List.forall_mem_cons.mpr ⟨rfl, idle_singleton rfl⟩)
  | client ok =>
    simp only [machine, State.step, State.klFingerprintCall] at h
    cases hc : t.client with
    | idle | deleted =>
      rw [hc] at h
      cases h
    | drain | storeRunning | storeCheck | onStart | create | createStore =>
      rw [hc] at hstart
      cases hstart
    | test =>
      rw [hc] at hor
      have hthread : t.ctx.hasThread = true := hor.resolve_right Bool.noConfusion
      simp only [hc, if_pos hthread] at h
      cases h
      exact ⟨⟨rfl, Or.inl hthread⟩, idle_singleton rfl, id⟩
    | stop pc =>
      rw [hc] at hor
      have hthread : t.ctx.hasThread = true := hor.resolve_right Bool.noConfusion
      obtain ⟨hkeep, hrunning, hidle⟩ := klFingerprintStop_idle t.ctx ok pc
      simp only [hc] at h
      cases h
      refine ⟨⟨?_, Or.inl (hkeep.trans hthread)⟩, hidle, hrunning⟩
      show ((klFingerprintStop t.ctx ok pc).1.elim ClientPc.idle ClientPc.stop).starting = false
      cases (klFingerprintStop t.ctx ok pc).1 <;> rfl
    | deleteStop pc =>
      rw [hc] at hor
      have hthread : t.ctx.hasThread = true := hor.resolve_right Bool.noConfusion
      obtain ⟨hkeep, hrunning, hidle⟩ := klFingerprintStop_idle t.ctx ok pc
      simp only [hc] at h
      cases h
      refine ⟨⟨?_, Or.inl (hkeep.trans hthread)⟩, hidle, hrunning⟩
      show ((klFingerprintStop t.ctx ok pc).1.elim ClientPc.deleteJoin
        ClientPc.deleteStop).starting = false
      cases (klFingerprintStop t.ctx ok pc).1 <;> rfl
    | deleteJoin =>
      simp only [hc] at h
      split at h
      · split at h
        · cases h
          exact ⟨⟨rfl, Or.inr rfl⟩, idle_singleton rfl, id⟩
        · cases h
      · cases h
        exact ⟨⟨rfl, Or.inr rfl⟩, idle_nil, id⟩
    | release =>
      simp only [hc] at h
      cases h
      refine ⟨⟨rfl, Or.inr rfl⟩, ?_, id⟩
      split
      · exact idle_singleton rfl
      · exact idle_nil
    | close =>
      simp only [hc] at h
      cases h
      exact ⟨⟨rfl, Or.inr rfl⟩, idle_nil, id⟩
    | onDelete =>
      simp only [hc] at h
      split at h
      · cases h
        exact ⟨⟨rfl, Or.inr rfl⟩, List.forall_mem_append.mpr
          ⟨idle_invoke t.ctx none Handler.noConfusion, idle_singleton rfl⟩, id⟩
      · cases h
  | otherStop =>
    simp only [machine, State.step] at h
    split at h
    · cases h
    · cases h
      exact ⟨⟨hstart, hor⟩, idle_singleton rfl, id⟩
  | other n ok =>
    simp only [machine, State.step] at h
    split at h
    · cases h
    · rename_i pc hpc
      obtain ⟨hkeep, hrunning, hidle⟩ := klFingerprintStop_idle t.ctx ok pc
      cases h
      exact ⟨⟨hstart, hor.imp hkeep.trans id⟩, hidle, hrunning⟩
  | worker o =>
    obtain ⟨pc, hpc, hrun⟩ := Option.bind_eq_some_iff.mp h
    obtain ⟨hkeep, hrunning, hclient, hidle⟩ := fpWorker_idle hrun
    refine ⟨⟨?_, ?_⟩, hidle, hrunning.trans⟩
    · rw [hclient]
      exact hstart
    · rw [hclient, hkeep]
      exact hor
  | emit body =>
    cases h
    exact ⟨⟨hstart, hor⟩, idle_singleton rfl, id⟩

/-- The thread is created, and `kl_fingerprint_start` says so. -/
def Item.succeeds : Item → Bool
  | .created => true
  | .startReturned ret => ret = 0
  | _ => false

def Barren (out : List Item) : Prop := ∀ x ∈ out, x.succeeds = false

theorem barren_nil : Barren [] := List.forall_mem_nil _

theorem barren_singleton {x : Item} (h : x.succeeds = false) : Barren [x] :=
  List.forall_mem_singleton.mpr h

theorem Idle.barren {out : List Item} (h : Idle out) : Barren out := by
  intro x hx
  have hb := h x hx
  cases x <;> first
    | rfl
    | exact hb

theorem barren_invoke (ctx : KlFingerprintCtx) (k : Option Nat) (h : Handler) :
    Barren (ctx.invoke k h) := by
  unfold KlFingerprintCtx.invoke
  split
  · exact barren_singleton rfl
  · exact barren_nil

/-- A context without its thread goes on without it, or creates it. -/
theorem unspent_step {t t' : State} {i : Input} {out : List Item} (hno : t.ctx.hasThread = false)
    (h : machine.step t i = some (t', out)) :
    t'.ctx.hasThread = false ∧ Barren out ∨ Spent t' ∧ out = [.created, .startReturned 0] := by
  have hat : ∀ {s : State} {pc : ClientPc} {items : List Item},
      s.clientAt pc items = some (t', out) → s.ctx.hasThread = false → Barren items →
      t'.ctx.hasThread = false ∧ Barren out ∨ Spent t' ∧ out = [.created, .startReturned 0] := by
    intro s pc items h hs hitems
    cases h
    exact Or.inl ⟨hs, hitems⟩
  have hcall : ∀ {pc : ClientPc} {items : List Item},
      (if t.client = .idle then t.clientAt pc items else none) = some (t', out) →
      Barren items →
      t'.ctx.hasThread = false ∧ Barren out ∨ Spent t' ∧ out = [.created, .startReturned 0] := by
    intro pc items h hitems
    split at h
    · exact hat h hno hitems
    · cases h
  cases i with
  | start => exact hcall h (barren_singleton rfl)
  | stop => exact hcall h (barren_singleton rfl)
  | delete => exact hcall h (List.forall_mem_cons.mpr ⟨rfl, barren_singleton rfl⟩)
  | client ok =>
    simp only [machine, State.step, State.klFingerprintCall] at h
    cases hc : t.client with
    | idle | deleted =>
      rw [hc] at h
      cases h
    | test =>
      simp only [hc, hno, Bool.false_eq_true, if_false] at h
      exact hat h hno barren_nil
    | drain =>
      simp only [hc] at h
      split at h
      · split at h
        · exact hat h hno barren_nil
        · exact hat h hno barren_nil
      · exact hat h hno barren_nil
    | storeRunning | storeCheck | close =>
      simp only [hc] at h
      exact hat h hno barren_nil
    | onStart =>
      simp only [hc] at h
      exact hat h hno (barren_invoke t.ctx none .onStart)
    | create =>
      simp only [hc] at h
      split at h
      · cases h
        exact Or.inr ⟨⟨rfl, Or.inl rfl⟩, rfl⟩
      · exact hat h hno barren_nil
    | createStore =>
      simp only [hc] at h
      exact hat h hno (barren_singleton rfl)
    | stop pc | deleteStop pc =>
      obtain ⟨hkeep, -, hidle⟩ := klFingerprintStop_idle t.ctx ok pc
      simp only [hc] at h
      exact hat h (hkeep.trans hno) hidle.barren
    | deleteJoin =>
      simp only [hc, hno, Bool.false_eq_true, if_false] at h
      exact hat h hno barren_nil
    | release =>
      simp only [hc] at h
      refine hat h hno ?_
      split
      · exact barren_singleton rfl
      · exact barren_nil
    | onDelete =>
      simp only [hc] at h
      split at h
      · exact hat h hno (List.forall_mem_append.mpr
          ⟨barren_invoke t.ctx none _, barren_singleton rfl⟩)
      · cases h
  | otherStop =>
    simp only [machine, State.step] at h
    split at h
    · cases h
    · cases h
      exact Or.inl ⟨hno, barren_singleton rfl⟩
  | other n ok =>
    simp only [machine, State.step] at h
    split at h
    · cases h
    · rename_i pc hpc
      obtain ⟨hkeep, -, hidle⟩ := klFingerprintStop_idle t.ctx ok pc
      cases h
      exact Or.inl ⟨hkeep.trans hno, hidle.barren⟩
  | worker o =>
    obtain ⟨pc, hpc, hrun⟩ := Option.bind_eq_some_iff.mp h
    obtain ⟨hkeep, -, -, hidle⟩ := fpWorker_idle hrun
    exact Or.inl ⟨hkeep.trans hno, hidle.barren⟩
  | emit body =>
    cases h
    exact Or.inl ⟨hno, barren_singleton rfl⟩

/-! ## Every run -/

/-- Before the thread there was no success, and after it there is no other. -/
def OneInv (t : State) (tr : List Item) : Prop :=
  t.ctx.hasThread = false ∧ Barren tr ∨ Spent t ∧ tr.count .created ≤ 1

theorem Barren.count {out : List Item} (h : Barren out) : out.count .created = 0 := by
  rw [List.count_eq_zero]
  intro hm
  cases h _ hm

theorem oneInv_reach {t : State} {tr : List Item} (h : machine.Reach t tr) : OneInv t tr := by
  refine h.invariant ?_ ?_
  · rintro t ⟨hs, device, rfl⟩
    exact Or.inl ⟨rfl, barren_nil⟩
  · rintro t tr i t' out (⟨hno, htr⟩ | ⟨hspent, hone⟩) _ hs
    · rcases unspent_step hno hs with ⟨hno', hout⟩ | ⟨hspent, rfl⟩
      · exact Or.inl ⟨hno', List.forall_mem_append.mpr ⟨htr, hout⟩⟩
      · refine Or.inr ⟨hspent, ?_⟩
        rw [List.count_append, htr.count]
        exact Nat.le_refl _
    · obtain ⟨hspent', hidle, -⟩ := spent_step hspent hs
      refine Or.inr ⟨hspent', ?_⟩
      rw [List.count_append, hidle.barren.count]
      exact hone

/-- What is left of a context once it was started. -/
structure OneShot (t : State) (tr : List Item) : Prop where
  /-- one thread is created … -/
  once : tr.count .created ≤ 1
  /-- … and after the start that created it no other gets as far as `on_start`, and
  `is_running` is not set again -/
  spent : .startReturned 0 ∈ tr → ∀ t' out, (machine.after t).Reach t' out →
    Idle out ∧ (t.ctx.isRunning = false → t'.ctx.isRunning = false)

/-- **The C component can be started once**: `has_thread` is not cleared where the worker ends,
so that a start after a stop is refused. -/
theorem fingerprint_back_one_shot {t : State} {tr : List Item} (h : machine.Reach t tr) :
    OneShot t tr := by
  have hinv := oneInv_reach h
  refine ⟨?_, fun hm t' out hr => ?_⟩
  · rcases hinv with ⟨-, htr⟩ | ⟨-, hone⟩
    · rw [htr.count]
      exact Nat.zero_le _
    · exact hone
  · have hspent : Spent t := by
      rcases hinv with ⟨-, htr⟩ | ⟨hspent, -⟩
      · cases htr _ hm
      · exact hspent
    have hafter : Spent t' ∧ Idle out ∧ (t.ctx.isRunning = false → t'.ctx.isRunning = false) := by
      refine hr.invariant (I := fun t' out => Spent t' ∧ Idle out ∧
        (t.ctx.isRunning = false → t'.ctx.isRunning = false)) ?_ ?_
      · rintro s rfl
        exact ⟨hspent, idle_nil, id⟩
      · rintro s out i s' out' ⟨hs, hidle, hrunning⟩ _ hstep
        obtain ⟨hs', hidle', hrunning'⟩ := spent_step hs hstep
        exact ⟨hs', List.forall_mem_append.mpr ⟨hidle, hidle'⟩, fun hf => hrunning' (hrunning hf)⟩
    exact hafter.2

/-- The C code refuses a start after a stop; the port starts anew. -/
theorem fingerprint_back_one_shot_againRun :
    (againRun.2.getLast? = some (.startReturned (-1)) ∧ .startReturned 0 ∈ againRun.2 ∧
      againRun.1.thread = some .exited) ∧ OneShot againRun.1 againRun.2 ∧
    (Auth.Fingerprint.machine.exec (Auth.Fingerprint.start allHandlers true true)
      (sampleStart ++ sampleStop ++ sampleWorker 6 .nothing ++ [Input.start] ++
        List.replicate 8 (Input.client true))).any
          (fun r => r.2.count (.startReturned .started) = 2) = true :=
  ⟨by decide, fingerprint_back_one_shot (Machine.reach_exec (start_init _ _) againRun_isSome),
    by decide⟩

end Auth.Back.Fingerprint
