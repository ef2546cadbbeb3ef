import Kirilock.PasswordBack
import Kirilock.PasswordVerdict

/-!
`auth::Password` and the component it was ported from, step for step.

`Agrees` is the simulation: the atomics, the places of the threads and the children are
the same, and the candidates are where a child may still be forked or a thread
started.  On corresponding inputs (`Corresponds`) both machines move alike
(`step_inStep`), so they do over whole runs.  A `join` that throws has no
counterpart: `pthread_join` has no outcome that the C code looks at.
-/

namespace Auth.Password

open Runs

/-! ## What is compared -/

/-- What a caller or a process can see. -/
inductive Observed where
  | verified (ok : Bool)
  | handler (h : Handler)
  | kill (pid : Pid)
  deriving DecidableEq, Repr

def Item.observed : Item → Option Observed
  | .verifyReturned _ ok => some (.verified ok)
  | .handler _ h => some (.handler h)
  | .onDelete => some (.handler .onDelete)
  | .kill pid => some (.kill pid)
  | _ => none

end Auth.Password

namespace Auth.Back

open Auth.Password (Observed)

def KlPasswordError.port : KlPasswordError → Password.Error
  | .authFailed => .authFailed
  | .system => .system

def Handler.port : Handler → Password.Handler
  | .onBegin => .onBegin
  | .onFinish => .onFinish
  | .onError err msg => .onError err.port msg
  | .onEnd => .onEnd
  | .onStop => .onStop
  | .onDelete => .onDelete

def Item.observed : Item → Option Observed
  | .verifyReturned ret => some (.verified (ret = 0))
  | .handler h => some (.handler h.port)
  | .kill pid => some (.kill pid)
  | _ => none

end Auth.Back

namespace Auth.Password

open Runs

def Handlers.back (hs : Handlers) : Back.KlPasswordHandlers :=
  ⟨hs.onBegin, hs.onFinish, hs.onError, hs.onEnd, hs.onStop, hs.onDelete⟩

def StopPc.back : StopPc → Back.StopPc
  | .compare => .compare
  | .exchange => .exchange
  | .kill pid => .kill pid

def WorkerPc.back : WorkerPc → Back.WorkerPc
  | .onBegin => .onBegin
  | .fork => .fork
  | .forkFailed => .forkFailed
  | .store pid => .store pid
  | .load pid => .load pid
  | .exchange pid => .exchange pid
  | .kill pid toKill => .kill pid toKill
  | .waitpid pid => .waitpid pid
  | .reset status => .reset status
  | .loadVerdict status => .loadVerdict status
  | .report status => .report status
  | .onEnd => .onEnd
  | .loadStop => .loadStop
  | .onStop => .onStop
  | .clearCandidate => .freeCandidate
  | .storeStopped => .storeStopped
  | .exited => .exited

def Child.back (c : Child) : Back.Child := ⟨c.pid, c.candidate, c.ended⟩

/-- Inputs that say the same: the passwords have no NUL byte and `waitpid` succeeds. -/
inductive Corresponds : Input → Back.Input → Prop
  | verify (pass : List UInt8) (hp : 0 ∉ pass) : Corresponds (.verify pass) (.verify pass)
  | stop : Corresponds .stop .stop
  | delete : Corresponds .delete .delete
  | client (ok : Bool) : Corresponds (.client ok) (.client ok)
  | otherStop : Corresponds .otherStop .otherStop
  | other (i : Nat) : Corresponds (.other i) (.other i)
  | worker (fork : Option Pid) (garbage : Nat) :
      Corresponds (.worker ⟨fork, true⟩) (.worker ⟨fork, true, garbage⟩)
  | childEnds (pid : Pid) (run : ChildRun) :
      Corresponds (.childEnds pid run) (.childEnds pid run)

/-! ## The simulation -/

/-- Where the clients are; a password on its way has no NUL byte. -/
inductive AtClient : ClientPc → Back.ClientPc → Prop
  | idle : AtClient .idle .idle
  | compare (pass : List UInt8) (hp : 0 ∉ pass) : AtClient (.compare pass) (.compare pass)
  | join (pass : List UInt8) (hp : 0 ∉ pass) : AtClient (.join pass) (.join pass)
  | assign (pass : List UInt8) (hp : 0 ∉ pass) : AtClient (.assign pass) (.strdup pass)
  | create : AtClient .create .create
  -- the port has one handler for both failures
  | strdupStore : AtClient .catchStore .strdupStore
  | strdupReturn : AtClient .catchClear .strdupReturn
  | createStore : AtClient .catchStore .createStore
  | createFree : AtClient .catchClear .createFree
  | stop (pc : StopPc) : AtClient (.stop pc) (.stop pc.back)
  | deleteStop (pc : StopPc) : AtClient (.deleteStop pc) (.deleteStop pc.back)
  | deleteJoin : AtClient .deleteJoin .deleteJoin
  | deleteClear : AtClient .deleteClear .deleteFree
  | onDelete : AtClient .onDelete .onDelete
  | deleted : AtClient .deleted .deleted

/-- The members that both have, outside the candidate. -/
structure Shared (p : Members) (ctx : Back.KlPasswordCtx) : Prop where
  handlers : ctx.handlers = p.handlers.back
  isRunning : ctx.isRunning = p.isRunning
  activePamPid : ctx.activePamPid = p.activePamPid

structure Agrees (s : State) (t : Back.State) : Prop where
  shared : Shared s.obj t.ctx
  thread : t.thread = s.worker.map (·.pc.back)
  hasThread : t.ctx.hasThread = (s.worker.isSome || decide (s.client = .create))
  client : AtClient s.client t.client
  alone : s.client.alone = true → s.worker = none
  stops : t.stops = s.stops.map StopPc.back
  children : t.children = s.children.map Child.back
  candidate : s.client = .create ∨ (∃ w, s.worker = some w ∧ w.pc.forks = true) →
    t.ctx.candidate = some s.obj.candidate

abbrev Together : Option (State × List Item) → Option (Back.State × List Back.Item) → Prop :=
  InStep Agrees Item.observed Back.Item.observed

theorem Shared.invoke {p : Members} {ctx : Back.KlPasswordCtx} (h : Shared p ctx) (n : Nat)
    (bh : Back.Handler) :
    (p.invoke n bh.port).filterMap Item.observed =
      (ctx.invoke bh).filterMap Back.Item.observed := by
  have hhas : ctx.handlers.has bh = p.handlers.has bh.port := by
    rw [h.handlers]
    cases bh <;> rfl
  unfold Members.invoke Back.KlPasswordCtx.invoke
  rw [hhas]
  split <;> rfl

theorem pwVerdict_port (status : Nat) : (Back.pwVerdict status).port = verdict status := by
  unfold Back.pwVerdict verdict
  split <;> rfl

theorem pwChildStatus_eq (run : ChildRun) : Back.pwChildStatus run = run.status := by
  cases run with
  | pam o =>
    have hret : Back.pwChildRet o = o.ret := rfl
    simp only [Back.pwChildStatus, ChildRun.status, PamOutcomes.exitCode, hret]
    split <;> rfl
  | exits code => rfl
  | signaled sig core => rfl

theorem Members.clearCandidate_unobserved (p : Members) :
    p.clearCandidate.2.filterMap Item.observed = [] := by
  refine List.filterMap_eq_nil_iff.mpr fun x hx => ?_
  obtain ⟨bytes, rfl⟩ := p.clearCandidate_items x hx
  rfl

theorem freeCandidate_unobserved (ctx : Back.KlPasswordCtx) :
    ctx.freeCandidate.filterMap Back.Item.observed = [] := by
  unfold Back.KlPasswordCtx.freeCandidate
  cases ctx.candidate <;> rfl

theorem Shared.clearCandidate {p : Members} {ctx : Back.KlPasswordCtx} (h : Shared p ctx) :
    Shared p.clearCandidate.1 ctx := by
  unfold Members.clearCandidate
  split
  · exact h
  · exact ⟨h.handlers, h.isRunning, h.activePamPid⟩

/-! ## `stop` -/

/-- One step of a `stop` on both sides. -/
structure StopTogether (p : Members) (ctx : Back.KlPasswordCtx) (pc : StopPc) : Prop where
  next : (Back.klPasswordStop ctx pc.back).1 = (p.stop pc).1.map StopPc.back
  shared : Shared (p.stop pc).2.1 (Back.klPasswordStop ctx pc.back).2.1
  hasThread : (Back.klPasswordStop ctx pc.back).2.1.hasThread = ctx.hasThread
  candidate : (p.stop pc).2.1.candidate = p.candidate
  backCandidate : (Back.klPasswordStop ctx pc.back).2.1.candidate = ctx.candidate
  view : (p.stop pc).2.2.filterMap Item.observed =
    (Back.klPasswordStop ctx pc.back).2.2.filterMap Back.Item.observed

theorem Shared.stop {p : Members} {ctx : Back.KlPasswordCtx} (h : Shared p ctx) (pc : StopPc) :
    StopTogether p ctx pc := by
  obtain ⟨hh, hr, hp⟩ := h
  cases pc with
  | compare =>
    cases hrun : p.isRunning with
    | false =>
      rw [hrun] at hr
      constructor <;> simp [Members.stop, Back.klPasswordStop, StopPc.back, hrun, hr]
      · exact ⟨hh, hr.trans hrun.symm, hp⟩
      · rfl
    | true =>
      rw [hrun] at hr
      constructor <;> simp [Members.stop, Back.klPasswordStop, StopPc.back, hrun, hr]
      exact ⟨hh, rfl, hp⟩
  | exchange =>
    by_cases hpos : 0 < p.activePamPid
    · constructor <;> simp [Members.stop, Back.klPasswordStop, StopPc.back, hp, hpos]
      exact ⟨hh, hr, rfl⟩
    · constructor <;> simp [Members.stop, Back.klPasswordStop, StopPc.back, hp, hpos]
      · exact ⟨hh, hr, rfl⟩
      · rfl
  | kill pid =>
    constructor <;> simp [Members.stop, Back.klPasswordStop, StopPc.back]
    · exact ⟨hh, hr, hp⟩
    · rfl

/-! ## The worker -/

/-- The worker goes on, and both have done the same to what they share. -/
theorem Agrees.goto {s : State} {t : Back.State} (h : Agrees s t) {w : Worker}
    (hw : s.worker = some w) {p : Members} {ctx : Back.KlPasswordCtx} (hs : Shared p ctx)
    (hthread : ctx.hasThread = t.ctx.hasThread) (cs : List Child) (pc : WorkerPc)
    (hforks : pc.forks = true → ctx.candidate = some p.candidate) (out : List Item)
    (out' : List Back.Item)
    (hv : out.filterMap Item.observed = out'.filterMap Back.Item.observed) :
    Together (State.goto { s with obj := p, children := cs } w pc out)
      (Back.State.goto { t with ctx := ctx, children := cs.map Child.back } pc.back out') := by
  have hcreate : s.client ≠ .create := by
    intro hc
    rw [h.alone (by rw [hc]; rfl)] at hw
    cases hw
  refine .moved ⟨hs, rfl, ?_, h.client, fun ha => ?_, h.stops, rfl, ?_⟩ hv
  · show ctx.hasThread = (true || decide (s.client = .create))
    rw [hthread, h.hasThread, hw]
    rfl
  · rw [h.alone ha] at hw
    cases hw
  · rintro (hc | ⟨w', hw', hf⟩)
    · exact absurd hc hcreate
    · cases hw'
      exact hforks hf

theorem find_back (cs : List Child) (pid : Pid) :
    (cs.map Child.back).find? (·.pid = pid) = (cs.find? (·.pid = pid)).map Child.back := by
  rw [List.find?_map]
  rfl

theorem Agrees.runWorker {s : State} {t : Back.State} (h : Agrees s t) {w : Worker}
    (hw : s.worker = some w) (fork : Option Pid) (garbage : Nat) :
    Together (s.runWorker w ⟨fork, true⟩) (t.pwWorker w.pc.back ⟨fork, true, garbage⟩) := by
  obtain ⟨hh, hr, hp⟩ := h.shared
  have hgoto : ∀ (pc : WorkerPc) {out : List Item} {out' : List Back.Item},
      (pc.forks = true → w.pc.forks = true) →
      out.filterMap Item.observed = out'.filterMap Back.Item.observed →
      Together (s.goto w pc out) (t.goto pc.back out') := by
    intro pc out out' hf hv
    have hg := h.goto hw h.shared rfl s.children pc
      (fun hpc => h.candidate (Or.inr ⟨w, hw, hf hpc⟩)) out out' hv
    rwa [← h.children] at hg
  have hset : ∀ (pc : WorkerPc) {p : Members} {ctx : Back.KlPasswordCtx} {out : List Item}
      {out' : List Back.Item}, Shared p ctx → ctx.hasThread = t.ctx.hasThread →
      pc.forks = false → out.filterMap Item.observed = out'.filterMap Back.Item.observed →
      Together ((s.setObj p).goto w pc out) ((t.setCtx ctx).goto pc.back out') := by
    intro pc p ctx out out' hs ht hf hv
    have hg := h.goto hw hs ht s.children pc (fun hpc => by rw [hf] at hpc; cases hpc) out out' hv
    rwa [← h.children] at hg
  cases hpc : w.pc with
  | onBegin =>
    simp only [State.runWorker, Back.State.pwWorker, WorkerPc.back, hpc]
    exact hgoto .fork (fun _ => by rw [hpc]; rfl) (h.shared.invoke w.attempt .onBegin)
  | fork =>
    have hcand := h.candidate (Or.inr ⟨w, hw, by rw [hpc]; rfl⟩)
    simp only [State.runWorker, Back.State.pwWorker, WorkerPc.back, hpc]
    cases fork with
    | none => exact hgoto .forkFailed nofun rfl
    | some pid =>
      have hnew : (∀ c ∈ t.children, c.pid ≠ pid) ↔ ∀ c ∈ s.children, c.pid ≠ pid := by
        rw [h.children, List.forall_mem_map]
        rfl
      simp only [hnew]
      split
      · have hg := h.goto hw h.shared rfl (⟨pid, w.attempt, s.obj.candidate, none⟩ :: s.children)
          (.store pid) nofun [.forked w.attempt (some pid)] [.forked (some pid)] rfl
        rw [List.map_cons, ← h.children] at hg
        rw [hcand]
        exact hg
      · exact .refused
  | forkFailed =>
    simp only [State.runWorker, Back.State.pwWorker, WorkerPc.back, hpc]
    exact hgoto .onEnd nofun
      (h.shared.invoke w.attempt (.onError .system "fork() failed"))
  | store pid =>
    simp only [State.runWorker, Back.State.pwWorker, WorkerPc.back, hpc]
    exact hset (.load pid) ⟨hh, hr, rfl⟩ rfl rfl rfl
  | load pid =>
    simp only [State.runWorker, Back.State.pwWorker, WorkerPc.back, hpc, hr]
    split
    · exact hgoto (.exchange pid) nofun rfl
    · exact hgoto (.waitpid pid) nofun rfl
  | exchange pid =>
    simp only [State.runWorker, Back.State.pwWorker, WorkerPc.back, hpc, hp]
    split
    · exact hset (.kill pid s.obj.activePamPid) ⟨hh, hr, rfl⟩ rfl rfl rfl
    · exact hset (.waitpid pid) ⟨hh, hr, rfl⟩ rfl rfl rfl
  | kill pid toKill =>
    simp only [State.runWorker, Back.State.pwWorker, WorkerPc.back, hpc]
    exact hgoto (.waitpid pid) nofun rfl
  | waitpid pid =>
    simp only [State.runWorker, Back.State.pwWorker, WorkerPc.back, hpc, h.children, find_back]
    cases hf : s.children.find? (·.pid = pid) with
    | none => exact .refused
    | some c =>
      obtain ⟨pid', n, candidate, ended⟩ := c
      cases ended with
      | none => exact .refused
      | some run =>
        have hg := h.goto hw h.shared rfl (s.children.filter (·.pid ≠ pid)) (.reset run.status)
          nofun [.waited w.attempt pid (some run.status)] [.waited pid (some run.status)] rfl
        have hfilter : (s.children.filter (·.pid ≠ pid)).map Child.back =
            (s.children.map Child.back).filter (·.pid ≠ pid) := by
          rw [List.filter_map]
          rfl
        rw [hfilter] at hg
        simpa only [if_true, Option.map_some, Child.back, pwChildStatus_eq, WorkerPc.back] using hg
  | reset status =>
    simp only [State.runWorker, Back.State.pwWorker, WorkerPc.back, hpc]
    exact hset (.loadVerdict status) ⟨hh, hr, rfl⟩ rfl rfl rfl
  | loadVerdict status =>
    simp only [State.runWorker, Back.State.pwWorker, WorkerPc.back, hpc, hr]
    split
    · exact hgoto (.report status) nofun rfl
    · exact hgoto .onEnd nofun rfl
  | report status =>
    simp only [State.runWorker, Back.State.pwWorker, WorkerPc.back, hpc]
    refine hgoto .onEnd nofun ?_
    rw [← pwVerdict_port]
    exact h.shared.invoke w.attempt (Back.pwVerdict status)
  | onEnd =>
    simp only [State.runWorker, Back.State.pwWorker, WorkerPc.back, hpc]
    exact hgoto .loadStop nofun (h.shared.invoke w.attempt .onEnd)
  | loadStop =>
    simp only [State.runWorker, Back.State.pwWorker, WorkerPc.back, hpc, hr]
    split
    · exact hgoto .onStop nofun rfl
    · exact hgoto .clearCandidate nofun rfl
  | onStop =>
    simp only [State.runWorker, Back.State.pwWorker, WorkerPc.back, hpc]
    exact hgoto .clearCandidate nofun (h.shared.invoke w.attempt .onStop)
  | clearCandidate =>
    simp only [State.runWorker, Back.State.pwWorker, WorkerPc.back, hpc]
    obtain ⟨hh', hr', hp'⟩ := h.shared.clearCandidate
    exact hset .storeStopped ⟨hh', hr', hp'⟩ rfl rfl
      (s.obj.clearCandidate_unobserved.trans (freeCandidate_unobserved t.ctx).symm)
  | storeStopped =>
    simp only [State.runWorker, Back.State.pwWorker, WorkerPc.back, hpc]
    exact hset .exited ⟨hh, rfl, hp⟩ rfl rfl rfl
  | exited =>
    simp only [State.runWorker, Back.State.pwWorker, WorkerPc.back, hpc]
    exact .refused

/-! ## The client -/

/-- The client goes on where no thread may be started. -/
theorem Agrees.clientAt {s : State} {t : Back.State} (h : Agrees s t) {p : Members}
    {ctx : Back.KlPasswordCtx} (hs : Shared p ctx) {w : Option Worker}
    (hw : w = s.worker ∨ w = none) {pc : ClientPc} {pc' : Back.ClientPc} (hpc : AtClient pc pc')
    (hcreate : pc ≠ .create) (hthread : ctx.hasThread = w.isSome)
    (halone : pc.alone = true → w = none)
    (hcand : w.isSome = true → p.candidate = s.obj.candidate ∧ ctx.candidate = t.ctx.candidate)
    {out : List Item} {out' : List Back.Item}
    (hv : out.filterMap Item.observed = out'.filterMap Back.Item.observed) :
    Together (State.clientAt { s with obj := p, worker := w } pc out)
      (Back.State.clientAt { t with ctx := ctx, thread := w.map (·.pc.back) } pc' out') := by
  refine .moved ⟨hs, rfl, ?_, hpc, halone, h.stops, h.children, ?_⟩ hv
  · show ctx.hasThread = (w.isSome || decide (pc = .create))
    rw [hthread, decide_eq_false hcreate, Bool.or_false]
  · rintro (hc | ⟨w', hw', hf⟩)
    · exact absurd hc hcreate
    · change w = some w' at hw'
      subst hw'
      obtain ⟨hc1, hc2⟩ := hcand rfl
      have hw := hw.resolve_right nofun
      show ctx.candidate = some p.candidate
      rw [hc1, hc2]
      exact h.candidate (Or.inr ⟨w', hw.symm, hf⟩)

/-- The thread is joined. -/
theorem Agrees.join {s : State} {t : Back.State} (h : Agrees s t) {pc : ClientPc}
    {pc' : Back.ClientPc} (hpc : AtClient pc pc') (hc : s.client ≠ .create) (hne : pc ≠ .create) :
    Together
      (match s.worker with
        | none => s.clientAt pc []
        | some w => if w.pc = .exited then State.clientAt { s with worker := none } pc [] else none)
      (t.pthreadJoin pc') := by
  have hthread : t.ctx.hasThread = s.worker.isSome := by
    rw [h.hasThread, decide_eq_false hc, Bool.or_false]
  have hnil : ([] : List Item).filterMap Item.observed =
      ([] : List Back.Item).filterMap Back.Item.observed := rfl
  unfold Back.State.pthreadJoin
  rw [hthread, h.thread]
  cases hw : s.worker with
  | none =>
    have hg := h.clientAt h.shared (Or.inl rfl) hpc hne hthread (fun _ => hw)
      (fun hsome => by rw [hw] at hsome; cases hsome) hnil
    rw [← h.thread] at hg
    exact hg
  | some w =>
    have hexited : w.pc.back = .exited ↔ w.pc = .exited := by
      cases w.pc <;> simp [WorkerPc.back]
    simp only [Option.isSome_some, if_true, Option.map_some]
    by_cases he : w.pc = .exited
    · rw [hexited.mpr he, if_pos he]
      obtain ⟨hh, hr, hp⟩ := h.shared
      have hs : Shared s.obj { t.ctx with hasThread := false } := ⟨hh, hr, hp⟩
      exact h.clientAt hs (Or.inr rfl) hpc hne rfl (fun _ => rfl) (by simp) hnil
    · rw [if_neg he]
      split
      · rename_i hx
        exact absurd (hexited.mp (Option.some.inj hx)) he
      · exact .refused

theorem Agrees.runClient {s : State} {t : Back.State} (h : Agrees s t) (ok : Bool)
    (hok : ∀ pass, s.client = .join pass → ok = true) :
    Together (s.runClient ok) (t.klPasswordCall ok) := by
  have hshared := h.shared
  obtain ⟨hh, hr, hp⟩ := h.shared
  have hthread : s.client ≠ .create → t.ctx.hasThread = s.worker.isSome := by
    intro hc
    rw [h.hasThread, decide_eq_false hc, Bool.or_false]
  -- the thread stays
  have hkeep : ∀ {p : Members} {ctx : Back.KlPasswordCtx} {pc : ClientPc} {pc' : Back.ClientPc}
      {out : List Item} {out' : List Back.Item}, s.client ≠ .create → Shared p ctx →
      ctx.hasThread = t.ctx.hasThread → p.candidate = s.obj.candidate →
      ctx.candidate = t.ctx.candidate → AtClient pc pc' → pc.alone = false →
      out.filterMap Item.observed = out'.filterMap Back.Item.observed →
      Together ((s.setObj p).clientAt pc out) ((t.setCtx ctx).clientAt pc' out') := by
    intro p ctx pc pc' out out' hc hs ht hp1 hp2 hpc ha hv
    have hne : pc ≠ .create := by
      rintro rfl
      cases ha
    have hg := h.clientAt hs (Or.inl rfl) hpc hne (ht.trans (hthread hc))
      (fun ha' => by rw [ha] at ha'; cases ha') (fun _ => ⟨hp1, hp2⟩) hv
    rwa [← h.thread] at hg
  -- there is no thread
  have hnone : ∀ {p : Members} {ctx : Back.KlPasswordCtx} {pc : ClientPc} {pc' : Back.ClientPc}
      {out : List Item} {out' : List Back.Item}, s.client.alone = true → Shared p ctx →
      ctx.hasThread = false → pc ≠ .create → AtClient pc pc' →
      out.filterMap Item.observed = out'.filterMap Back.Item.observed →
      Together ((s.setObj p).clientAt pc out) ((t.setCtx ctx).clientAt pc' out') := by
    intro p ctx pc pc' out out' ha hs ht hne hpc hv
    have hw := h.alone ha
    have hg := h.clientAt hs (Or.inl rfl) hpc hne (by rw [ht, hw]; rfl) (fun _ => hw)
      (fun hsome => by rw [hw] at hsome; cases hsome) hv
    rwa [← h.thread] at hg
  have hclient := h.client
  simp only [State.runClient, Back.State.klPasswordCall]
  generalize hcs : s.client = client at hclient
  generalize t.client = client' at hclient
  cases hclient with
  | idle | deleted => exact .refused
  | compare pass hpass =>
    have hne : s.client ≠ .create := by simp [hcs]
    simp only [hr]
    split
    · exact hkeep hne hshared rfl rfl rfl .idle rfl rfl
    · exact hkeep hne ⟨hh, rfl, hp⟩ rfl rfl rfl (.join pass hpass) rfl rfl
  | join pass hpass =>
    have hj := h.join (.assign pass hpass) (by simp [hcs]) (by simp)
    have hok' := hok pass hcs
    subst hok'
    simp only [Bool.true_eq_false, if_false]
    exact hj
  | assign pass hpass =>
    have ha : s.client.alone = true := by rw [hcs]; rfl
    have hw := h.alone ha
    cases ok with
    | false =>
      refine hnone ha ⟨hh, hr, hp⟩ ?_ (by simp) .strdupStore rfl
      rw [hthread (by simp [hcs]), hw]
      rfl
    | true =>
      refine .moved ⟨⟨hh, hr, hp⟩, h.thread, ?_, .create, fun _ => hw, h.stops, h.children, ?_⟩ rfl
      · show true = (s.worker.isSome || true)
        rw [Bool.or_true]
      · intro _
        show some (cString (pass ++ [0])) = some pass
        rw [cString_eq_iff.mpr hpass]
  | create =>
    have ha : s.client.alone = true := by rw [hcs]; rfl
    cases ok with
    | false => exact hnone ha ⟨hh, hr, hp⟩ rfl (by simp) .createStore rfl
    | true =>
      refine .moved ⟨hshared, rfl, ?_, .idle, by rintro ⟨⟩, h.stops, h.children, ?_⟩ rfl
      · show t.ctx.hasThread = true
        rw [h.hasThread, hcs]
        simp
      · intro _
        exact h.candidate (Or.inl hcs)
  | strdupStore | createStore =>
    have ha : s.client.alone = true := by rw [hcs]; rfl
    have ht : t.ctx.hasThread = false := by
      rw [hthread (by simp [hcs]), h.alone ha]
      rfl
    first
      | exact hnone ha ⟨hh, rfl, hp⟩ ht (by simp) .strdupReturn rfl
      | exact hnone ha ⟨hh, rfl, hp⟩ ht (by simp) .createFree rfl
  | strdupReturn =>
    have ha : s.client.alone = true := by rw [hcs]; rfl
    have ht : t.ctx.hasThread = false := by
      rw [hthread (by simp [hcs]), h.alone ha]
      rfl
    refine hnone ha hshared.clearCandidate ht (by simp) .idle ?_
    rw [List.filterMap_append, s.obj.clearCandidate_unobserved]
    rfl
  | createFree =>
    have ha : s.client.alone = true := by rw [hcs]; rfl
    have ht : t.ctx.hasThread = false := by
      rw [hthread (by simp [hcs]), h.alone ha]
      rfl
    obtain ⟨hh', hr', hp'⟩ := hshared.clearCandidate
    refine hnone ha ⟨hh', hr', hp'⟩ ht (by simp) .idle ?_
    rw [List.filterMap_append, List.filterMap_append, s.obj.clearCandidate_unobserved,
      freeCandidate_unobserved]
    rfl
  | stop pc =>
    have hs := hshared.stop pc
    refine hkeep (by simp [hcs]) hs.shared hs.hasThread hs.candidate hs.backCandidate ?_ ?_ hs.view
    · rw [hs.next]
      cases (s.obj.stop pc).1 with
      | none => exact .idle
      | some pc' => exact .stop pc'
    · cases (s.obj.stop pc).1 <;> rfl
  | deleteStop pc =>
    have hs := hshared.stop pc
    refine hkeep (by simp [hcs]) hs.shared hs.hasThread hs.candidate hs.backCandidate ?_ ?_ hs.view
    · rw [hs.next]
      cases (s.obj.stop pc).1 with
      | none => exact .deleteJoin
      | some pc' => exact .deleteStop pc'
    · cases (s.obj.stop pc).1 <;> rfl
  | deleteJoin => exact h.join .deleteClear (by simp [hcs]) (by simp)
  | deleteClear =>
    have ha : s.client.alone = true := by rw [hcs]; rfl
    have ht : t.ctx.hasThread = false := by
      rw [hthread (by simp [hcs]), h.alone ha]
      rfl
    exact hnone ha hshared.clearCandidate ht (by simp) .onDelete
      (s.obj.clearCandidate_unobserved.trans (freeCandidate_unobserved t.ctx).symm)
  | onDelete =>
    have ha : s.client.alone = true := by rw [hcs]; rfl
    have ht : t.ctx.hasThread = false := by
      rw [hthread (by simp [hcs]), h.alone ha]
      rfl
    have hstops : t.stops = [] ↔ s.stops = [] := by
      rw [h.stops, List.map_eq_nil_iff]
    simp only [hstops]
    split
    · refine hnone ha hshared ht (by simp) .deleted ?_
      unfold Back.KlPasswordCtx.invoke
      rw [show t.ctx.handlers.has .onDelete = s.obj.handlers.onDelete by rw [hh]; rfl]
      cases s.obj.handlers.onDelete <;> rfl
    · exact .refused

/-! ## The runs -/

/-- **One step of both.** -/
theorem Agrees.step {s : State} {t : Back.State} (h : Agrees s t) {tr : List Item} {i : Input}
    {j : Back.Input} (hok : JoinReturns s tr i) (hij : Corresponds i j) :
    Together (machine.step s i) (Back.machine.step t j) := by
  have hidle : t.client = .idle ↔ s.client = .idle := by
    have hclient := h.client
    generalize s.client = client at hclient
    generalize t.client = client' at hclient
    cases hclient <;> simp
  -- a call begins
  have hcall : ∀ {pc : ClientPc} {pc' : Back.ClientPc} {out : List Item} {out' : List Back.Item},
      s.client = .idle → AtClient pc pc' → pc ≠ .create → pc.alone = false →
      out.filterMap Item.observed = out'.filterMap Back.Item.observed →
      ∀ n, Together (State.clientAt { s with verifies := n } pc out) (t.clientAt pc' out') := by
    intro pc pc' out out' hc hpc hne ha hv n
    have hthread : t.ctx.hasThread = s.worker.isSome := by
      rw [h.hasThread, hc]
      exact Bool.or_false _
    refine .moved ⟨h.shared, h.thread, ?_, hpc, fun ha' => ?_, h.stops, h.children, ?_⟩ hv
    · show t.ctx.hasThread = (s.worker.isSome || decide (pc = .create))
      rw [hthread, decide_eq_false hne, Bool.or_false]
    · change pc.alone = true at ha'
      rw [ha] at ha'
      cases ha'
    · exact fun hcand => h.candidate (hcand.imp (fun hc' => absurd hc' hne) id)
  simp only [machine, Back.machine]
  cases hij with
  | verify pass hpass =>
    simp only [State.step, Back.State.step, hidle]
    split
    · rename_i hc
      exact hcall hc (.compare pass hpass) (by simp) rfl rfl _
    · exact .refused
  | stop =>
    simp only [State.step, Back.State.step, hidle]
    split
    · rename_i hc
      exact hcall hc (.stop .compare) (by simp) rfl rfl s.verifies
    · exact .refused
  | delete =>
    simp only [State.step, Back.State.step, hidle]
    split
    · rename_i hc
      exact hcall hc (.deleteStop .compare) (by simp) rfl rfl s.verifies
    · exact .refused
  | client ok =>
    refine h.runClient ok fun pass hc => ?_
    unfold JoinReturns at hok
    simp only [hc] at hok
    cases ok with
    | true => rfl
    | false => exact absurd rfl hok
  | otherStop =>
    have hdeleted : t.client = .deleted ↔ s.client = .deleted := by
      have hclient := h.client
      generalize s.client = client at hclient
      generalize t.client = client' at hclient
      cases hclient <;> simp
    simp only [State.step, Back.State.step, hdeleted]
    split
    · exact .refused
    · refine .moved ⟨h.shared, h.thread, h.hasThread, h.client, h.alone, ?_, h.children,
        h.candidate⟩ rfl
      show .compare :: t.stops = (StopPc.compare :: s.stops).map StopPc.back
      rw [h.stops]
      rfl
  | other n =>
    simp only [State.step, Back.State.step, h.stops, List.getElem?_map]
    cases s.stops[n]? with
    | none => exact .refused
    | some pc =>
      have hs := h.shared.stop pc
      refine .moved ⟨hs.shared, h.thread, hs.hasThread.trans h.hasThread, h.client, h.alone, ?_,
        h.children, fun hcand => ?_⟩ hs.view
      · show (s.stops.map StopPc.back).take n ++ (Back.klPasswordStop t.ctx pc.back).1.toList ++
          (s.stops.map StopPc.back).drop (n + 1) =
            (s.stops.take n ++ (s.obj.stop pc).1.toList ++ s.stops.drop (n + 1)).map StopPc.back
        rw [hs.next, List.map_append, List.map_append, List.map_take, List.map_drop]
        cases (s.obj.stop pc).1 <;> rfl
      · show (Back.klPasswordStop t.ctx pc.back).2.1.candidate = some (s.obj.stop pc).2.1.candidate
        rw [hs.candidate, hs.backCandidate]
        exact h.candidate hcand
  | worker fork garbage =>
    simp only [State.step, Back.State.step, h.thread]
    cases hw : s.worker with
    | none => exact .refused
    | some w => exact h.runWorker hw fork garbage
  | childEnds pid run =>
    simp only [State.step, Back.State.step, h.children, find_back]
    cases s.children.find? (·.pid = pid) with
    | none => exact .refused
    | some c =>
      obtain ⟨pid', n, candidate, ended⟩ := c
      cases ended with
      | some run' => exact .refused
      | none =>
        refine .moved ⟨h.shared, h.thread, h.hasThread, h.client, h.alone, h.stops, ?_,
          h.candidate⟩ rfl
        show (s.children.map Child.back).map (Back.endChild pid run) =
          (s.children.map (endChild pid run)).map Child.back
        rw [List.map_map, List.map_map]
        refine List.map_congr_left fun c _ => ?_
        by_cases hc : c.pid = pid <;> simp [endChild, Back.endChild, Child.back, hc]

theorem agrees_start (handlers : Handlers) : Agrees (start handlers) (Back.start handlers.back) :=
  ⟨⟨rfl, rfl, rfl⟩, rfl, rfl, .idle, nofun, rfl, rfl, fun h => by
    rcases h with h | ⟨w, hw, -⟩
    · cases h
    · cases hw⟩

/-- What can be seen of a run, and the children that are left with the password of each. -/
def seen (r : State × List Item) : List Observed × List Back.Child :=
  (r.2.filterMap Item.observed, r.1.children.map Child.back)

def seenBack (r : Back.State × List Back.Item) : List Observed × List Back.Child :=
  (r.2.filterMap Back.Item.observed, r.1.children)

/-- **The port preserves the component**: from whatever calls, interleaving and outcomes,
the same results of `verify`, handler calls and kills in the same order. -/
theorem port_preserves (handlers : Handlers) {is : List Input} {js : List Back.Input}
    (hij : List.Forall₂ Corresponds is js)
    (hjoin : machine.Meets JoinReturns (start handlers) [] is) :
    (machine.exec (start handlers) is).map seen =
      (Back.machine.exec (Back.start handlers.back) js).map seenBack := by
  have hstep := Machine.exec_inStep (fun s tr t i j h hok hc => Agrees.step h hok hc) hij
    (agrees_start handlers) hjoin
  generalize machine.exec (start handlers) is = r at hstep ⊢
  generalize Back.machine.exec (Back.start handlers.back) js = r' at hstep ⊢
  cases hstep with
  | refused => rfl
  | moved hR hv =>
    simp only [Option.map_some, seen, seenBack, hv, hR.children]

def Input.back : Input → Back.Input
  | .verify pass => .verify pass
  | .stop => .stop
  | .delete => .delete
  | .client ok => .client ok
  | .otherStop => .otherStop
  | .other i => .other i
  | .worker o => .worker ⟨o.fork, o.waitpid, 0⟩
  | .childEnds pid run => .childEnds pid run

/-- An input that has a counterpart. -/
def Input.portable : Input → Bool
  | .verify pass => !pass.contains 0
  | .worker o => o.waitpid
  | _ => true

theorem corresponds_back {i : Input} (h : i.portable = true) : Corresponds i i.back := by
  cases i with
  | verify pass => exact .verify pass (by simpa [Input.portable] using h)
  | worker o =>
    obtain ⟨fork, waitpid⟩ := o
    cases h
    exact .worker fork 0
  | stop => exact .stop
  | delete => exact .delete
  | client ok => exact .client ok
  | otherStop => exact .otherStop
  | other i => exact .other i
  | childEnds pid run => exact .childEnds pid run

theorem forall₂_back {is : List Input} (h : ∀ i ∈ is, i.portable = true) :
    List.Forall₂ Corresponds is (is.map Input.back) :=
  List.forall₂_map_right_iff.mpr (List.forall₂_same.mpr fun i hi => corresponds_back (h i hi))

/-- A thread that is not created, a success, and a child that is killed by a late `stop`. -/
def samplePorted : List Input :=
  [Input.verify [115], Input.client true, Input.client true, Input.client true,
    Input.client false, Input.client true, Input.client true] ++ sampleSuccess ++
  sampleVerify [97] 8 ++ [Input.otherStop, Input.other 0, Input.other 0, Input.other 0,
    Input.childEnds 8 .killed] ++ sampleVerdict true ++ [Input.delete]

theorem port_preserves_sampleRun :
    ((machine.exec (start allHandlers) samplePorted).map seen =
      (Back.machine.exec (Back.start allHandlers.back) (samplePorted.map Input.back)).map
        seenBack) ∧
    (machine.exec (start allHandlers) samplePorted).map seen =
      some ([.verified false, .verified true, .handler .onBegin, .handler .onFinish,
        .handler .onEnd, .verified true, .handler .onBegin, .kill 8, .handler .onEnd,
        .handler .onStop], []) :=
  ⟨port_preserves allHandlers (forall₂_back (by decide)) (by decide), by decide⟩

end Auth.Password
