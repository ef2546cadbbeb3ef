import Kirilock.PasswordVerdict

/-!
Whom `SIGKILL` hits.

`active_pam_pid_` is taken with an exchange, so at most one party has the pid; but
`waitpid` does not know that it was taken, and `active_pam_pid_` is reset only after
`waitpid` has returned.  A kill can therefore come after the reaping in two ways: the
pid was taken before and not yet killed, or it is taken after.  In the runs with
neither (`Ordered`) every kill hits a child that was not reaped (`kill_safe`);
`kill_unsafe` is a run of the first kind.
-/

namespace Auth.Password

open Runs

/-! ## The rule -/

/-- Whether the child of `pid` is there, after the item. -/
def Item.alive (pid : Pid) (b : Bool) : Item → Bool
  | .forked _ (some p) => if p = pid then true else b
  | .waited _ p (some _) => if p = pid then false else b
  | _ => b

/-- `pid` was forked, and no `waitpid` has reaped it since. -/
def unreaped (pid : Pid) (tr : List Item) : Bool := tr.foldl (Item.alive pid) false

def KillRule (pre : List Item) (c : Item) : Prop :=
  ∀ pid, c = .kill pid → unreaped pid pre = true

/-- Every `SIGKILL` is for a child that was not reaped. -/
def KillSafe (tr : List Item) : Prop := Always KillRule tr

/-- The attempt's child was reaped. -/
def reaped (n : Nat) (tr : List Item) : Bool :=
  tr.any fun
    | .waited m _ (some _) => m == n
    | _ => false

/-- No child is reaped while a `stop` that took its pid has not called `kill`. -/
def ReapsUntaken (s : State) : Input → Prop
  | .worker o =>
    match s.worker with
    | some ⟨_, .waitpid pid⟩ => o.waitpid = true → .kill pid ∉ s.allStops
    | _ => True
  | _ => True

/-- No `stop` takes the pid between a `waitpid` that reaped the child and the store of 0. -/
def TakesUnreaped (s : State) (tr : List Item) (i : Input) : Prop :=
  s.moving i = some .exchange →
    match s.worker with
    | some ⟨n, .reset _⟩ => reaped n tr = true → s.obj.activePamPid = 0
    | _ => True

def Ordered (s : State) (tr : List Item) (i : Input) : Prop :=
  ReapsUntaken s i ∧ TakesUnreaped s tr i

instance (s : State) (i : Input) : Decidable (ReapsUntaken s i) := by
  rcases i with _ | _
  case worker o =>
    dsimp only [ReapsUntaken]
    rcases s.worker with - | ⟨n, _ | _⟩ <;> dsimp only <;> infer_instance
  all_goals exact isTrue trivial

instance (s : State) (tr : List Item) (i : Input) : Decidable (TakesUnreaped s tr i) := by
  dsimp only [TakesUnreaped]
  rcases s.worker with - | ⟨n, _ | _⟩ <;> dsimp only <;> infer_instance

instance (s : State) (tr : List Item) (i : Input) : Decidable (Ordered s tr i) :=
  inferInstanceAs (Decidable (_ ∧ _))

theorem unreaped_append {pid : Pid} {tr out : List Item} (h : unreaped pid tr = true)
    (hout : ∀ n status, .waited n pid (some status) ∉ out) : unreaped pid (tr ++ out) = true := by
  unfold unreaped at h ⊢
  rw [List.foldl_append, h]
  induction out with
  | nil => rfl
  | cons x out ih =>
    have hx : x.alive pid true = true := by
      unfold Item.alive
      split
      · split <;> rfl
      · rename_i n p status
        split
        · rename_i hp
          exact absurd (by simp [hp]) (hout n status)
        · rfl
      · rfl
    rw [List.foldl_cons, hx]
    exact ih fun n status hm => hout n status (List.mem_cons_of_mem _ hm)

theorem unreaped_forked (pid : Pid) (n : Nat) (tr : List Item) :
    unreaped pid (tr ++ [Item.forked n (some pid)]) = true := by
  simp [unreaped, Item.alive]

theorem reaped_append {n : Nat} {tr out : List Item} (h : reaped n tr = true) :
    reaped n (tr ++ out) = true := by
  simp only [reaped, List.any_append, Bool.or_eq_true]
  exact Or.inl h

/-! ## The invariant -/

/-- Between `waitpid` and the store of 0 the pid is still there, but a reaping is in the
trace. -/
def Resetting (tr : List Item) (w : Worker) (pid : Pid) : Prop :=
  (∃ status, w.pc = .reset status) ∧ (reaped w.attempt tr = true ∨ unreaped pid tr = true)

structure KillInv (s : State) (tr : List Item) : Prop where
  /-- the worker's child is there until it is waited for -/
  own : ∀ w, s.worker = some w → ∀ pid, w.pc.pid = some pid → unreaped pid tr = true
  /-- the worker is about to kill its own child only -/
  toKill : ∀ w, s.worker = some w → ∀ pid toKill, w.pc = .kill pid toKill → toKill = pid
  /-- what `active_pam_pid_` holds is the pid of the worker's child -/
  active : s.obj.activePamPid ≠ 0 → ∃ w, s.worker = some w ∧
    (w.pc.pid = some s.obj.activePamPid ∨ Resetting tr w s.obj.activePamPid)
  /-- what a `stop` has taken is there -/
  taken : ∀ pid, .kill pid ∈ s.allStops → unreaped pid tr = true
  rule : KillSafe tr

/-- No child is reaped in the items, and none is killed. -/
def Harmless (out : List Item) : Prop :=
  (∀ n pid status, .waited n pid (some status) ∉ out) ∧ ∀ pid, .kill pid ∉ out

theorem Harmless.rule {tr out : List Item} (h : KillSafe tr) (hout : Harmless out) :
    KillSafe (tr ++ out) :=
  Always.append_of_forall h fun _ hc _ pid he => absurd (he ▸ hc) (hout.2 pid)

theorem harmless_nil : Harmless [] := by simp [Harmless]

theorem Members.clearCandidate_harmless (p : Members) : Harmless p.clearCandidate.2 := by
  constructor
  · intro n pid status hc
    obtain ⟨bytes, he⟩ := p.clearCandidate_items _ hc
    cases he
  · intro pid hc
    obtain ⟨bytes, he⟩ := p.clearCandidate_items _ hc
    cases he

theorem Members.invoke_harmless (p : Members) (n : Nat) (h : Handler) :
    Harmless (p.invoke n h) := by
  unfold Members.invoke
  split <;> simp [Harmless]

theorem ClientStep.harmless {s : State} {p : Members} {w : Option Worker} {pc : ClientPc}
    {out : List Item} (h : ClientStep s p w pc out) : Harmless out := by
  cases h with
  | failed hpc =>
    obtain ⟨h1, h2⟩ := s.obj.clearCandidate_harmless
    exact ⟨fun n pid status => by simp [h1], fun pid => by simp [h2]⟩
  | deleteCleared hpc => exact s.obj.clearCandidate_harmless
  | deleted hpc hs => split <;> simp [Harmless]
  | _ => simp [Harmless]

theorem ClientStep.activePamPid {s : State} {p : Members} {w : Option Worker} {pc : ClientPc}
    {out : List Item} (h : ClientStep s p w pc out) :
    p.activePamPid = s.obj.activePamPid := by
  cases h with
  | failed hpc => exact s.obj.clearCandidate_activePamPid
  | deleteCleared hpc => exact s.obj.clearCandidate_activePamPid
  | _ => rfl

/-- The client does not leave a `stop` here, and enters none. -/
theorem ClientStep.stops {s : State} {p : Members} {w : Option Worker} {pc : ClientPc}
    {out : List Item} (h : ClientStep s p w pc out) : pc.stops = [] := by
  cases h <;> rfl

section Steps

variable {s : State} {tr : List Item}

theorem KillInv.append (h : KillInv s tr) {out : List Item}
    (hout : ∀ n pid status, .waited n pid (some status) ∉ out) (hrule : KillSafe (tr ++ out)) :
    KillInv s (tr ++ out) where
  own w hw pid hpid := unreaped_append (h.own w hw pid hpid) fun n => hout n pid
  toKill := h.toKill
  active ha := by
    obtain ⟨w, hw, hor⟩ := h.active ha
    refine ⟨w, hw, hor.imp_right fun ⟨hpc, hr⟩ => ⟨hpc, hr.imp reaped_append fun hu => ?_⟩⟩
    exact unreaped_append hu fun n => hout n _
  taken pid hpid := unreaped_append (h.taken pid hpid) fun n => hout n pid
  rule := hrule

theorem KillInv.extend (h : KillInv s tr) {o : List Item} (hout : Harmless o) :
    KillInv s (tr ++ o) :=
  h.append hout.1 (hout.rule h.rule)

theorem KillInv.kill (h : KillInv s tr) {pid : Pid} (hu : unreaped pid tr = true) :
    KillInv s (tr ++ [Item.kill pid]) := by
  refine h.append (by simp) (always_snoc.mpr ⟨h.rule, fun pid' he => ?_⟩)
  cases he
  exact hu

/-- Where the worker has no pid to publish or to reset, `active_pam_pid_` is 0. -/
theorem KillInv.inactive (h : KillInv s tr) (hw : ∀ w, s.worker = some w → w.pc.pid = none ∧
    ∀ status, w.pc ≠ .reset status) : s.obj.activePamPid = 0 := by
  by_contra ha
  obtain ⟨w, hworker, hor⟩ := h.active ha
  obtain ⟨hpid, hreset⟩ := hw w hworker
  rcases hor with hp | ⟨⟨status, hpc⟩, -⟩
  · rw [hpid] at hp
    cases hp
  · exact hreset status hpc

/-- A worker without a pid, where `active_pam_pid_` is 0. -/
theorem KillInv.plain (h : KillInv s tr) {s' : State} (hstops : s'.allStops = s.allStops)
    (hactive : s'.obj.activePamPid = 0)
    (hw : ∀ w, s'.worker = some w → w.pc.pid = none) : KillInv s' tr where
  own w hworker pid hpid := by
    rw [hw w hworker] at hpid
    cases hpid
  toKill w hworker pid toKill hpc := by
    have := hw w hworker
    rw [hpc] at this
    cases this
  active ha := absurd hactive ha
  taken pid hpid := h.taken pid (hstops ▸ hpid)
  rule := h.rule

/-- The worker goes on with its pid. -/
theorem KillInv.keeps (h : KillInv s tr) {w : Worker} (hw : s.worker = some w) {pid : Pid}
    (hpid : w.pc.pid = some pid) {p : Members}
    (hactive : p.activePamPid = 0 ∨ p.activePamPid = s.obj.activePamPid ∨ p.activePamPid = pid)
    {pc : WorkerPc} (hpc : pc.pid = some pid)
    (hkill : ∀ p toKill, pc = .kill p toKill → toKill = p) :
    KillInv (s.worked w p s.children pc) tr where
  own w' hw' pid' hpid' := by
    cases hw'
    have he := hpc.symm.trans hpid'
    rw [Option.some.injEq] at he
    exact he ▸ h.own w hw pid hpid
  toKill w' hw' pid' toKill hpc' := by
    cases hw'
    exact hkill pid' toKill hpc'
  active ha := by
    refine ⟨_, rfl, Or.inl (hpc.trans (congrArg some ?_))⟩
    have ha : p.activePamPid ≠ 0 := ha
    rcases hactive with h0 | heq | heq
    · exact absurd h0 ha
    · -- what was there is this worker's pid
      obtain ⟨w', hw', hor⟩ := h.active (heq ▸ ha)
      rw [hw, Option.some.injEq] at hw'
      subst hw'
      rcases hor with hp | ⟨⟨status, hreset⟩, -⟩
      · exact (Option.some.inj (hpid.symm.trans hp)).trans heq.symm
      · rw [hreset] at hpid
        cases hpid
    · exact heq.symm
  taken := h.taken
  rule := h.rule

theorem WorkerStep.killInv {w : Worker} {o : WorkerOutcomes} {p : Members} {cs : List Child}
    {pc : WorkerPc} {out : List Item} (h : WorkerStep s w o p cs pc out) (hw : s.worker = some w)
    (hinv : KillInv s tr)
    (hok : ∀ pid, w.pc = .waitpid pid → o.waitpid = true → .kill pid ∉ s.allStops) :
    KillInv (s.worked w p cs pc) (tr ++ out) := by
  -- a place where `active_pam_pid_` is 0
  have hidle : w.pc.pid = none → (∀ status, w.pc ≠ .reset status) → s.obj.activePamPid = 0 :=
    fun hpid hreset => hinv.inactive fun w' hw' => by
      rw [hw, Option.some.injEq] at hw'
      exact hw' ▸ ⟨hpid, hreset⟩
  have hplain : ∀ {p pc}, p.activePamPid = 0 → pc.pid = none →
      KillInv (s.worked w p s.children pc) tr := fun ha hpc =>
    hinv.plain rfl ha fun w' hw' => by cases hw'; exact hpc
  cases h with
  | called hpc =>
    refine KillInv.extend ?_ (s.obj.invoke_harmless _ _)
    generalize hwpc : w.pc = wpc at hpc
    refine hplain (hidle ?_ ?_) hpc.plain.1 <;> rw [hwpc] <;> cases hpc <;> simp [WorkerPc.pid]
  | tested hpc =>
    rw [List.append_nil]
    generalize s.obj.isRunning = running at hpc
    generalize hwpc : w.pc = wpc at hpc
    cases hpc with
    | load pid => exact hinv.keeps hw (by rw [hwpc]; rfl) (Or.inr (Or.inl rfl)) rfl (by simp)
    | loadStopped pid =>
      exact hinv.keeps hw (by rw [hwpc]; rfl) (Or.inr (Or.inl rfl)) rfl (by simp)
    | _ => exact hplain (hidle (by rw [hwpc]; rfl) (by simp [hwpc])) rfl
  | notForked hpc ho =>
    exact (hplain (hidle (by rw [hpc]; rfl) (by simp [hpc])) rfl).extend (by simp [Harmless])
  | forked pid hpc hpid hnew =>
    have ha := hidle (by rw [hpc]; rfl) (by simp [hpc])
    have hinv' := hinv.extend (o := [.forked w.attempt (some pid)]) (by simp [Harmless])
    refine ⟨fun w' hw' pid' hpid' => ?_, fun w' hw' => ?_, fun h => absurd ha h, hinv'.taken,
      hinv'.rule⟩
    · cases hw'
      cases hpid'
      exact unreaped_forked pid _ tr
    · cases hw'
      simp
  | stored pid hpc =>
    rw [List.append_nil]
    exact hinv.keeps hw (by rw [hpc]; rfl) (Or.inr (Or.inr rfl)) rfl (by simp)
  | took pid hpc hp =>
    rw [List.append_nil]
    refine hinv.keeps hw (by rw [hpc]; rfl) (Or.inl rfl) rfl fun p' toKill he => ?_
    cases he
    -- what it took is its own pid
    obtain ⟨w', hw', hor⟩ := hinv.active (Nat.pos_iff_ne_zero.mp hp)
    rw [hw, Option.some.injEq] at hw'
    subst hw'
    rcases hor with h | ⟨⟨status, h⟩, -⟩
    · rw [hpc] at h
      exact (Option.some.inj h).symm
    · rw [hpc] at h
      cases h
  | tookNone pid hpc hp =>
    rw [List.append_nil]
    exact hinv.keeps hw (by rw [hpc]; rfl) (Or.inr (Or.inl rfl)) rfl (by simp)
  | killed pid toKill hpc =>
    have hkeeps : KillInv (s.worked w s.obj s.children (.waitpid pid)) tr :=
      hinv.keeps hw (by rw [hpc]; rfl) (Or.inr (Or.inl rfl)) rfl (by simp)
    rw [hinv.toKill w hw pid toKill hpc]
    exact hkeeps.kill (hinv.own w hw pid (by rw [hpc]; rfl))
  | reaped pid c run hpc ho hc hcpid hrun =>
    have hrule : KillSafe (tr ++ [Item.waited w.attempt pid (some run.status)]) :=
      Always.append_of_forall hinv.rule fun c hc _ pid' he => by simp [he] at hc
    refine ⟨fun w' hw' => ?_, fun w' hw' => ?_, fun _ => ?_, fun pid' hpid' => ?_, hrule⟩
    · cases hw'
      simp [WorkerPc.pid]
    · cases hw'
      simp
    · exact ⟨_, rfl, Or.inr ⟨⟨_, rfl⟩, Or.inl (by simp [Password.reaped])⟩⟩
    · refine unreaped_append (hinv.taken pid' hpid') fun n status hm => ?_
      -- the pid that is reaped here was not taken
      cases List.mem_singleton.mp hm
      exact hok pid hpc ho hpid'
  | waitFailed pid hpc ho =>
    have hinv' := hinv.extend (o := [.waited w.attempt pid none]) (by simp [Harmless])
    refine ⟨fun w' hw' => ?_, fun w' hw' => ?_, fun ha => ?_, hinv'.taken, hinv'.rule⟩
    · cases hw'
      simp [WorkerPc.pid]
    · cases hw'
      simp
    · refine ⟨_, rfl, Or.inr ⟨⟨_, rfl⟩, Or.inr ?_⟩⟩
      obtain ⟨w', hw', hor⟩ := hinv.active ha
      rw [hw, Option.some.injEq] at hw'
      subst hw'
      rcases hor with hp | ⟨⟨status, hreset⟩, -⟩
      · exact hinv'.own w hw _ hp
      · rw [hpc] at hreset
        cases hreset
  | reset status hpc =>
    rw [List.append_nil]
    exact hplain rfl rfl
  | cleared hpc =>
    refine (hplain ?_ rfl).extend s.obj.clearCandidate_harmless
    rw [s.obj.clearCandidate_activePamPid]
    exact hidle (by rw [hpc]; rfl) (by simp [hpc])
  | stopped hpc =>
    rw [List.append_nil]
    exact hplain (hidle (by rw [hpc]; rfl) (by simp [hpc])) rfl

end Steps

/-- A `stop` moves. -/
theorem StopStep.killInv {s : State} {tr : List Item} {pc : StopPc} {pc' : Option StopPc}
    {p : Members} {out : List Item} (h : StopStep s.obj pc pc' p out) {client : ClientPc}
    {stops : List StopPc} (hr : Replaces s pc pc' client stops) (hinv : KillInv s tr)
    (hok : pc = .exchange → ∀ w status, s.worker = some w → w.pc = .reset status →
      reaped w.attempt tr = true → s.obj.activePamPid = 0) :
    KillInv { s with obj := p, client := client, stops := stops } (tr ++ out) := by
  obtain ⟨l1, l2, hbefore, hafter⟩ := hr.allStops
  -- what the others have taken, and what this one has now
  have htaken : (∀ pid, pc' = some (.kill pid) → unreaped pid tr = true) →
      ∀ pid, StopPc.kill pid ∈ client.stops ++ stops → unreaped pid tr = true := by
    intro hnew pid hpid
    rw [hafter] at hpid
    simp only [List.mem_append, Option.mem_toList] at hpid
    rcases hpid with (hpid | hpid) | hpid
    · exact hinv.taken pid (by simp [hbefore, hpid])
    · exact hnew pid hpid
    · exact hinv.taken pid (by simp [hbefore, hpid])
  have hquiet : ∀ {p : Members} {out : List Item}, Harmless out →
      p.activePamPid = s.obj.activePamPid ∨ p.activePamPid = 0 →
      (∀ pid, pc' = some (.kill pid) → unreaped pid tr = true) →
      KillInv { s with obj := p, client := client, stops := stops } (tr ++ out) := by
    intro p out hout hp hnew
    refine KillInv.extend (s := { s with obj := p, client := client, stops := stops })
      ⟨hinv.own, hinv.toKill, fun ha => ?_, htaken hnew, hinv.rule⟩ hout
    have ha : p.activePamPid ≠ 0 := ha
    rcases hp with hp | hp
    · exact hp ▸ hinv.active (hp ▸ ha)
    · exact absurd hp ha
  cases h with
  | refused hrun => exact hquiet (by simp [Harmless]) (Or.inl rfl) nofun
  | claimed hrun => exact hquiet harmless_nil (Or.inl rfl) nofun
  | took hp =>
    refine hquiet harmless_nil (Or.inr rfl) fun pid he => ?_
    cases he
    obtain ⟨w, hw, hor⟩ := hinv.active (Nat.pos_iff_ne_zero.mp hp)
    rcases hor with hpid | ⟨⟨status, hreset⟩, hreaped | hu⟩
    · exact hinv.own w hw _ hpid
    · exact absurd (hok rfl w status hw hreset hreaped) (Nat.pos_iff_ne_zero.mp hp)
    · exact hu
  | tookNone hp => exact hquiet (by simp [Harmless]) (Or.inl rfl) nofun
  | killed pid =>
    have hu : unreaped pid tr = true := hinv.taken pid (by simp [hbefore])
    have hk : KillInv { s with client := client, stops := stops } (tr ++ [Item.kill pid]) :=
      KillInv.kill (s := { s with client := client, stops := stops })
        ⟨hinv.own, hinv.toKill, hinv.active, htaken nofun, hinv.rule⟩ hu
    simpa using hk.extend (o := [.stopReturned true]) (by simp [Harmless])

theorem killInv_reach {s : State} {tr : List Item} (h : machine.ReachIf Ordered s tr) :
    KillInv s tr := by
  refine h.invariant_of unjoinable_reach ?_ ?_
  · rintro s ⟨handlers, rfl⟩
    exact ⟨by rintro _ ⟨⟩, by rintro _ ⟨⟩, fun ha => absurd rfl ha, by rintro _ ⟨⟩, always_nil _⟩
  · intro s tr i s' out hjoin hinv hok hs
    -- nothing moves, and the `stop`s that come are at their start
    have hquiet : ∀ {s' : State} {out}, Harmless out → s'.obj = s.obj → s'.worker = s.worker →
        (∀ pid, .kill pid ∈ s'.allStops → .kill pid ∈ s.allStops) → KillInv s' (tr ++ out) := by
      intro s' out hout hobj hw hstops
      refine KillInv.extend (s := s') ⟨?_, ?_, ?_, fun pid hpid =>
        hinv.taken pid (hstops pid hpid), hinv.rule⟩ hout
      · rw [hw]
        exact hinv.own
      · rw [hw]
        exact hinv.toKill
      · rw [hw, hobj]
        exact hinv.active
    cases machine_step hs with
    | verify pass hpc =>
      exact hquiet (by simp [Harmless]) rfl rfl (by simp [State.allStops, hpc, ClientPc.stops])
    | stop hpc =>
      exact hquiet (by simp [Harmless]) rfl rfl (by simp [State.allStops, hpc, ClientPc.stops])
    | delete hpc =>
      exact hquiet (by simp [Harmless]) rfl rfl (by simp [State.allStops, hpc, ClientPc.stops])
    | client ok p w pc out h =>
      have hstops : ∀ pid, StopPc.kill pid ∈ pc.stops ++ s.stops → unreaped pid tr = true := by
        intro pid hpid
        rw [h.stops, List.nil_append] at hpid
        exact hinv.taken pid (List.mem_append_right _ hpid)
      -- the worker stays, or had ended
      have hkeeps : w = s.worker → KillInv { s with obj := p, worker := w, client := pc }
          (tr ++ out) := by
        intro hw
        refine KillInv.extend (s := { s with obj := p, worker := w, client := pc })
          ⟨hw ▸ hinv.own, hw ▸ hinv.toKill, fun ha => ?_, hstops, hinv.rule⟩ h.harmless
        have ha : p.activePamPid ≠ 0 := ha
        rw [h.activePamPid] at ha
        simpa only [h.activePamPid, hw] using hinv.active ha
      have hreplaced : (∀ w', w = some w' → w'.pc = .onBegin) → s.obj.activePamPid = 0 →
          KillInv { s with obj := p, worker := w, client := pc } (tr ++ out) := by
        intro hw ha
        refine KillInv.extend (s := { s with obj := p, worker := w, client := pc })
          ⟨fun w' hw' pid hpid => ?_, fun w' hw' => ?_, fun ha' => ?_, hstops, hinv.rule⟩ h.harmless
        · rw [hw w' hw'] at hpid
          cases hpid
        · rw [hw w' hw']
          simp
        · exact absurd (h.activePamPid.trans ha) ha'
      have hexited : (∀ w, s.worker = some w → w.pc = .exited) → s.obj.activePamPid = 0 :=
        fun hw => hinv.inactive fun w hworker => by simp [hw w hworker, WorkerPc.pid]
      cases h with
      | joined pass hpc hw => exact hreplaced (by simp) (hexited hw)
      | deleteJoined hpc hw => exact hreplaced (by simp) (hexited hw)
      | created hpc =>
        have hnone : s.worker = none := hjoin (by rw [hpc]; rfl)
        refine hreplaced (fun w' hw' => by cases hw'; rfl) (hexited ?_)
        rw [hnone]
        simp
      | _ => exact hkeeps rfl
    | otherStop hpc =>
      exact hquiet (by simp [Harmless]) rfl rfl (by simp [State.allStops])
    | stopStep i pc pc' client stops p out hi hr h =>
      refine h.killInv hr hinv fun hpc w status hw hreset hreaped => ?_
      obtain ⟨n, wpc⟩ := w
      obtain rfl : wpc = .reset status := hreset
      subst hpc
      have htakes := hok.2 hi
      simp only [hw] at htakes
      exact htakes hreaped
    | worker o w p cs pc out hw h =>
      refine h.killInv hw hinv fun pid hpc ho => ?_
      obtain ⟨n, wpc⟩ := w
      obtain rfl : wpc = .waitpid pid := hpc
      have huntaken := hok.1
      simp only [ReapsUntaken, hw] at huntaken
      exact huntaken ho
    | childEnds pid run c hc hpid hrun =>
      exact hquiet (by simp [Harmless]) rfl rfl fun _ h => h

/-! ## Every run -/

/-- **`SIGKILL` hits only children that were not reaped**, in every run where no child is
reaped while its pid is taken, and no pid is taken after the reaping. -/
theorem kill_safe {s : State} {tr : List Item} (h : machine.ReachIf Ordered s tr) : KillSafe tr :=
  (killInv_reach h).rule

/-- Another thread stops the attempt while its child runs, and the child dies. -/
def sampleStopped : List Input :=
  sampleVerify [115, 101] 7 ++ [Input.otherStop, .other 0, .other 0, .other 0,
    .childEnds 7 .killed] ++ sampleVerdict true

theorem stoppedRun_isSome : (machine.exec (start allHandlers) sampleStopped).isSome = true := by
  decide

def stoppedRun : State × List Item :=
  (machine.exec (start allHandlers) sampleStopped).get stoppedRun_isSome

theorem stoppedRun_meets : machine.Meets Ordered (start allHandlers) [] sampleStopped := by
  decide

/-- The child is killed there. -/
theorem kill_safe_stoppedRun : .kill 7 ∈ stoppedRun.2 ∧ KillSafe stoppedRun.2 :=
  ⟨by decide,
    kill_safe (Machine.reachIf_exec (start_init _) stoppedRun_meets stoppedRun_isSome)⟩

/-! ## A kill that comes late -/

/-- The child ends and is reaped between the exchange of `stop` and its `kill`. -/
def sampleLateKill : List Input :=
  sampleVerify [115, 101] 7 ++ [Input.otherStop, .other 0, .other 0,
    .childEnds 7 (.pam ⟨0, 0, 0⟩), .worker ⟨none, true⟩, .other 0]

theorem lateKillRun_isSome : (machine.exec (start allHandlers) sampleLateKill).isSome = true := by
  decide

def lateKillRun : State × List Item :=
  (machine.exec (start allHandlers) sampleLateKill).get lateKillRun_isSome

/-- **Not in every run**: the pid is killed after the `waitpid` that reaped it. -/
theorem kill_unsafe : ¬∀ s tr, machine.Reach s tr → KillSafe tr := by
  intro h
  have hsafe := h _ _ (Machine.reach_exec (start_init _) lateKillRun_isSome)
  obtain ⟨c, hc, hrule⟩ := hsafe.first (p := (· == .kill 7)) (by decide)
  have hu := hrule 7 (beq_iff_eq.mp hc)
  have hgone : unreaped 7 (lateKillRun.2.takeWhile fun x => !(x == .kill 7)) = false := by
    decide
  exact Bool.false_ne_true (hgone.symm.trans hu)

end Auth.Password
