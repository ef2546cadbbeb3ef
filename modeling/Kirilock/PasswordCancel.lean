import Kirilock.PasswordKill
import Kirilock.PasswordStop

/-!
No cancellation is lost.

The worker publishes the pid and then reads the flag; `stop` clears the flag and then
takes the pid.  Whichever comes second sees the other, and the exchange on
`active_pam_pid_` lets one of them have the pid.  So where the worker waits and the
flag is clear, the pid was taken, or a `stop` is about to take it (`CancelInv`), and
what is taken for an attempt is one pid (`BudgetInv`).

An attempt is seen from the step that makes its worker.  A `stop` that took the pid of
an attempt before may still be about to kill it (`inHand`).
-/

namespace Auth.Password

open Runs

/-! ## The rule -/

def Item.isKill : Item → Bool
  | .kill _ => true
  | _ => false

/-- It took a pid and is to kill it. -/
def StopPc.inHand : StopPc → Bool
  | .kill _ => true
  | _ => false

def WorkerPc.inHand : WorkerPc → Bool
  | .kill _ _ => true
  | _ => false

/-- The pids that were taken and not yet killed. -/
def State.inHand (s : State) : Nat :=
  s.allStops.countP StopPc.inHand + (s.worker.any (·.pc.inHand)).toNat

/-- `SIGKILL` was sent to the child `pid` of the attempt. -/
def Killed (n : Nat) (pid : Pid) (tr : List Item) : Prop :=
  ∃ pre post, tr = pre ++ .forked n (some pid) :: post ∧ .kill pid ∈ post

/-- An attempt whose worker was made in `s1`. -/
structure Cancels (s1 s : State) (tr : List Item) : Prop where
  /-- one pid is taken, at most -/
  once : tr.countP Item.isKill + s.inHand ≤ s1.inHand + 1
  /-- where the worker waits, the flag is clear and no `stop` is on its way, the child was
  killed -/
  kept : ∀ n pid, s.worker = some ⟨n, .waitpid pid⟩ → s.obj.isRunning = false →
    (∀ pc ∈ s.allStops, pc = .compare) → Killed n pid tr

/-! ## One pid for an attempt -/

/-- The worker has not published its pid yet. -/
def WorkerPc.unpublished : WorkerPc → Bool
  | .onBegin => true
  | .fork => true
  | .store _ => true
  | _ => false

def Members.takeable (p : Members) : Nat := if p.activePamPid = 0 then 0 else 1

theorem Members.takeable_le_one (p : Members) : p.takeable ≤ 1 := by
  unfold Members.takeable
  split <;> omega

theorem Members.takeable_eq_one (p : Members) (h : 0 < p.activePamPid) : p.takeable = 1 :=
  if_neg (Nat.pos_iff_ne_zero.mp h)

/-- The pids that can still be taken. -/
def State.takeable (s : State) : Nat :=
  s.obj.takeable + (s.worker.any (·.pc.unpublished)).toNat

structure BudgetInv (k : Nat) (s : State) (tr : List Item) : Prop where
  client : s.client.claimed = false
  budget : tr.countP Item.isKill + s.inHand + s.takeable ≤ k

section Budget

variable {s s' : State} {tr : List Item} {k : Nat}

theorem Replaces.countP {pc : StopPc} {pc' : Option StopPc} {client : ClientPc}
    {stops : List StopPc} (h : Replaces s pc pc' client stops) (p : StopPc → Bool) :
    (client.stops ++ stops).countP p + (p pc).toNat = s.allStops.countP p + (pc'.any p).toNat := by
  obtain ⟨l1, l2, hs, hs'⟩ := h.allStops
  rw [hs, hs', List.countP_append, List.countP_append, List.countP_append, List.countP_cons]
  cases pc' with
  | none => cases p pc <;> simp [Nat.add_assoc]
  | some pc' => cases h1 : p pc <;> cases h2 : p pc' <;> simp [h2] <;> omega

theorem Replaces.claimed {pc : StopPc} {pc' : Option StopPc} {client : ClientPc}
    {stops : List StopPc} (h : Replaces s pc pc' client stops) :
    client.claimed = s.client.claimed := by
  cases h with
  | client hpc => cases pc' <;> rw [hpc] <;> rfl
  | delete hpc => cases pc' <;> rw [hpc] <;> rfl
  | other l1 l2 hs => rfl

/-- Without a `verify` that sets the flag the client makes no worker and leaves the flag. -/
theorem ClientStep.unclaimed {p : Members} {w : Option Worker} {pc : ClientPc} {out : List Item}
    (h : ClientStep s p w pc out) {ok : Bool} (hok : NoVerify s (.client ok))
    (hc : s.client.claimed = false) :
    pc.claimed = false ∧ p.isRunning = s.obj.isRunning ∧
      (w = s.worker ∨ w = none ∧ ∀ w, s.worker = some w → w.pc = .exited) := by
  cases h with
  | claimed pass hpc hr =>
    simp only [NoVerify, hpc] at hok
    rw [hr] at hok
    cases hok
  | threw hpc =>
    generalize s.client = client at hpc hc
    cases hpc <;> cases hc
  | joined pass hpc => rw [hpc] at hc; cases hc
  | assigned pass hpc => rw [hpc] at hc; cases hc
  | created hpc => rw [hpc] at hc; cases hc
  | caught hpc => rw [hpc] at hc; cases hc
  | failed hpc => rw [hpc] at hc; cases hc
  | refused pass hpc hr => exact ⟨rfl, rfl, Or.inl rfl⟩
  | deleteJoined hpc hw => exact ⟨rfl, rfl, Or.inr ⟨rfl, hw⟩⟩
  | deleteCleared hpc => exact ⟨rfl, s.obj.clearCandidate_isRunning, Or.inl rfl⟩
  | deleted hpc hs => exact ⟨rfl, rfl, Or.inl rfl⟩

theorem Harmless.countP {out : List Item} (h : Harmless out) : out.countP Item.isKill = 0 := by
  rw [List.countP_eq_zero]
  intro x hx
  cases x with
  | kill pid => exact absurd hx (h.2 pid)
  | _ => exact nofun

theorem BudgetInv.extend (h : BudgetInv k s tr) {out : List Item} (hout : Harmless out)
    (hc : s'.client.claimed = false) (hh : s'.inHand ≤ s.inHand)
    (ht : s'.takeable ≤ s.takeable) : BudgetInv k s' (tr ++ out) := by
  refine ⟨hc, ?_⟩
  have hbudget := h.budget
  rw [List.countP_append, hout.countP]
  omega

theorem StopStep.budgetInv {pc : StopPc} {pc' : Option StopPc} {p : Members} {out : List Item}
    (h : StopStep s.obj pc pc' p out) {client : ClientPc} {stops : List StopPc}
    (hr : Replaces s pc pc' client stops) (hinv : BudgetInv k s tr) :
    BudgetInv k { s with obj := p, client := client, stops := stops } (tr ++ out) := by
  refine ⟨hr.claimed.trans hinv.client, ?_⟩
  have hcount := hr.countP StopPc.inHand
  have hbudget := hinv.budget
  -- a pid that is taken is in hand, one in hand is killed
  have hstep : out.countP Item.isKill + (pc'.any StopPc.inHand).toNat + p.takeable ≤
      pc.inHand.toNat + s.obj.takeable := by
    cases h with
    | took hp =>
      show 0 + 1 + 0 ≤ 0 + s.obj.takeable
      have htakeable := s.obj.takeable_eq_one hp
      omega
    | killed pid => exact Nat.le_refl _
    | _ => exact Nat.le_refl _
  show (tr ++ out).countP Item.isKill + ((client.stops ++ stops).countP StopPc.inHand +
    (s.worker.any (·.pc.inHand)).toNat) +
    (p.takeable + (s.worker.any (·.pc.unpublished)).toNat) ≤ k
  rw [List.countP_append]
  unfold State.inHand State.takeable at hbudget
  omega

theorem Members.clearCandidate_takeable (p : Members) :
    p.clearCandidate.1.takeable = p.takeable := by
  rw [Members.takeable, p.clearCandidate_activePamPid]
  rfl

/-- What the worker has in hand it took, and what can be taken it published. -/
theorem WorkerStep.takes {w : Worker} {o : WorkerOutcomes} {p : Members} {cs : List Child}
    {pc : WorkerPc} {out : List Item} (h : WorkerStep s w o p cs pc out) :
    out.countP Item.isKill + pc.inHand.toNat + p.takeable + pc.unpublished.toNat ≤
      w.pc.inHand.toNat + s.obj.takeable + w.pc.unpublished.toNat := by
  cases h with
  | called hpc =>
    rw [(s.obj.invoke_harmless _ _).countP]
    generalize w.pc = wpc at hpc
    cases hpc <;> simp [WorkerPc.inHand, WorkerPc.unpublished]
  | tested hpc =>
    generalize s.obj.isRunning = running at hpc
    generalize w.pc = wpc at hpc
    cases hpc <;> simp [WorkerPc.inHand, WorkerPc.unpublished]
  | stored pid hpc =>
    have hone := ({ s.obj with activePamPid := pid } : Members).takeable_le_one
    rw [hpc]
    show 0 + 0 + _ + 0 ≤ 0 + s.obj.takeable + 1
    rw [Nat.zero_add, Nat.zero_add, Nat.add_zero]
    exact Nat.le_trans hone (Nat.le_add_left 1 _)
  | took pid hpc hp =>
    rw [hpc]
    show 0 + 1 + 0 + 0 ≤ 0 + s.obj.takeable + 0
    have htakeable := s.obj.takeable_eq_one hp
    omega
  | killed pid toKill hpc =>
    rw [hpc]
    simp [Item.isKill, WorkerPc.inHand, WorkerPc.unpublished]
  | cleared hpc =>
    rw [hpc, s.obj.clearCandidate_takeable, s.obj.clearCandidate_harmless.countP]
    exact Nat.le_refl _
  | tookNone pid hpc hp => rw [hpc]; exact Nat.le_refl _
  | notForked hpc ho =>
    rw [hpc]
    exact Nat.le_add_right _ 1
  | forked pid hpc => rw [hpc]; exact Nat.le_refl _
  | reaped pid c run hpc => rw [hpc]; exact Nat.le_refl _
  | waitFailed pid hpc ho => rw [hpc]; exact Nat.le_refl _
  | reset status hpc =>
    rw [hpc]
    exact Nat.zero_le _
  | stopped hpc => rw [hpc]; exact Nat.le_refl _

theorem WorkerStep.budgetInv {w : Worker} {o : WorkerOutcomes} {p : Members} {cs : List Child}
    {pc : WorkerPc} {out : List Item} (h : WorkerStep s w o p cs pc out) (hw : s.worker = some w)
    (hinv : BudgetInv k s tr) : BudgetInv k (s.worked w p cs pc) (tr ++ out) := by
  refine ⟨hinv.client, ?_⟩
  have htakes := h.takes
  have hbudget := hinv.budget
  unfold State.inHand State.takeable at hbudget
  rw [hw] at hbudget
  show (tr ++ out).countP Item.isKill + (s.allStops.countP StopPc.inHand + pc.inHand.toNat) +
    (p.takeable + pc.unpublished.toNat) ≤ k
  rw [List.countP_append]
  have hany : ∀ f : Worker → Bool, (some w).any f = f w := fun _ => rfl
  rw [hany, hany] at hbudget
  omega

end Budget

/-! ## The handshake -/

/-- The child was forked. -/
def Forked (n : Nat) (pid : Pid) (tr : List Item) : Prop :=
  ∃ pre post, tr = pre ++ .forked n (some pid) :: post

theorem Forked.append {n : Nat} {pid : Pid} {tr : List Item} (h : Forked n pid tr)
    (out : List Item) : Forked n pid (tr ++ out) := by
  obtain ⟨pre, post, rfl⟩ := h
  exact ⟨pre, post ++ out, by simp⟩

theorem Forked.killed {n : Nat} {pid : Pid} {tr : List Item} (h : Forked n pid tr)
    {out : List Item} (hout : .kill pid ∈ out) : Killed n pid (tr ++ out) := by
  obtain ⟨pre, post, rfl⟩ := h
  exact ⟨pre, post ++ out, by simp, List.mem_append_right _ hout⟩

theorem Killed.append {n : Nat} {pid : Pid} {tr : List Item} (h : Killed n pid tr)
    (out : List Item) : Killed n pid (tr ++ out) := by
  obtain ⟨pre, post, rfl, hk⟩ := h
  exact ⟨pre, post ++ out, by simp, List.mem_append_left _ hk⟩

/-- The pid that the worker has published. -/
def WorkerPc.published : WorkerPc → Option Pid
  | .load pid => some pid
  | .exchange pid => some pid
  | .waitpid pid => some pid
  | _ => none

structure CancelInv (s : State) (tr : List Item) : Prop where
  forked : ∀ w pid, s.worker = some w → w.pc.pid = some pid → 0 < pid ∧ Forked w.attempt pid tr
  /-- the pid is there, or it was taken and killed, or is about to be -/
  taken : ∀ w pid, s.worker = some w → w.pc.published = some pid →
    s.obj.activePamPid = pid ∨
      s.obj.activePamPid = 0 ∧ (Killed w.attempt pid tr ∨ .kill pid ∈ s.allStops)
  toKill : ∀ w pid toKill, s.worker = some w → w.pc = .kill pid toKill →
    toKill = pid ∧ s.obj.activePamPid = 0
  /-- where the worker waits with the flag clear and the pid is there, a `stop` is about to take
  it -/
  waits : ∀ w pid, s.worker = some w → w.pc = .waitpid pid → s.obj.isRunning = false →
    s.obj.activePamPid ≠ 0 → .exchange ∈ s.allStops

section Handshake

variable {s s' : State} {tr : List Item}

theorem cancelInv_of_none (hw : s.worker = none) : CancelInv s tr where
  forked w pid hw' := by rw [hw] at hw'; cases hw'
  taken w pid hw' := by rw [hw] at hw'; cases hw'
  toKill w pid toKill hw' := by rw [hw] at hw'; cases hw'
  waits w pid hw' := by rw [hw] at hw'; cases hw'

theorem WorkerPc.pid_of_published {pc : WorkerPc} {pid : Pid} (h : pc.published = some pid) :
    pc.pid = some pid := by
  cases pc <;> first | exact h | cases h

/-- A step of another thread that takes no pid and leaves the flag. -/
theorem CancelInv.extend (h : CancelInv s tr) (out : List Item) (hw : s'.worker = s.worker)
    (ha : s'.obj.activePamPid = s.obj.activePamPid) (hr : s'.obj.isRunning = s.obj.isRunning)
    (hstops : ∀ pc ∈ s.allStops, pc ≠ .compare → pc ∈ s'.allStops) :
    CancelInv s' (tr ++ out) where
  forked w pid hw' hpid := (h.forked w pid (hw ▸ hw') hpid).imp_right fun hf => hf.append out
  taken w pid hw' hpid := by
    rw [ha]
    exact (h.taken w pid (hw ▸ hw') hpid).imp_right fun ⟨h0, hk⟩ =>
      ⟨h0, hk.imp (·.append out) fun hm => hstops _ hm nofun⟩
  toKill w pid toKill hw' hpc := by
    rw [ha]
    exact h.toKill w pid toKill (hw ▸ hw') hpc
  waits w pid hw' hpc hrun hne :=
    hstops _ (h.waits w pid (hw ▸ hw') hpc (hr ▸ hrun) (ha ▸ hne)) nofun

theorem StopStep.cancelInv {pc : StopPc} {pc' : Option StopPc} {p : Members} {out : List Item}
    (h : StopStep s.obj pc pc' p out) {client : ClientPc} {stops : List StopPc}
    (hr : Replaces s pc pc' client stops) (hinv : CancelInv s tr) :
    CancelInv { s with obj := p, client := client, stops := stops } (tr ++ out) := by
  obtain ⟨l1, l2, hs, hs'⟩ := hr.allStops
  have hstays : ∀ q ∈ s.allStops, q ≠ pc → q ∈ client.stops ++ stops := by
    intro q hq hne
    rw [hs] at hq
    rw [hs']
    simp only [List.mem_append, List.mem_cons] at hq ⊢
    rcases hq with hq | hq | hq
    · exact Or.inl (Or.inl hq)
    · exact absurd hq hne
    · exact Or.inr hq
  have hcomes : ∀ q, pc' = some q → q ∈ client.stops ++ stops := by
    rintro q rfl
    rw [hs']
    simp
  have hforked : ∀ w pid, s.worker = some w → w.pc.pid = some pid →
      0 < pid ∧ Forked w.attempt pid (tr ++ out) := fun w pid hw hpid =>
    (hinv.forked w pid hw hpid).imp_right fun hf => hf.append out
  cases h with
  | refused hr => exact hinv.extend _ rfl rfl rfl fun q hq hne => hstays q hq hne
  | claimed hr =>
    refine ⟨hforked, fun w pid hw hpid => ?_, hinv.toKill, fun _ _ _ _ _ _ => hcomes _ rfl⟩
    exact (hinv.taken w pid hw hpid).imp_right fun ⟨h0, hk⟩ =>
      ⟨h0, hk.imp (·.append []) fun hm => hstays _ hm nofun⟩
  | took hp =>
    refine ⟨hforked, fun w pid hw hpid => Or.inr ⟨rfl, Or.inr ?_⟩, fun w pid toKill hw hpc => ?_,
      fun _ _ _ _ _ hne => absurd rfl hne⟩
    · -- the pid that is there is the one that was published
      rcases hinv.taken w pid hw hpid with ha | ⟨h0, -⟩
      · exact hcomes _ (by rw [ha])
      · rw [h0] at hp
        exact absurd hp (Nat.lt_irrefl 0)
    · exact ⟨(hinv.toKill w pid toKill hw hpc).1, rfl⟩
  | tookNone hp =>
    refine ⟨hforked, fun w pid hw hpid => ?_, hinv.toKill, fun _ _ _ _ _ hne => absurd hp hne⟩
    exact (hinv.taken w pid hw hpid).imp_right fun ⟨h0, hk⟩ =>
      ⟨h0, hk.imp (·.append _) fun hm => hstays _ hm nofun⟩
  | killed pid0 =>
    refine ⟨hforked, fun w pid hw hpid => ?_, hinv.toKill, fun w pid hw hpc hrun hne => ?_⟩
    · refine (hinv.taken w pid hw hpid).imp_right fun ⟨h0, hk⟩ => ⟨h0, ?_⟩
      rcases hk with hk | hm
      · exact Or.inl (hk.append _)
      · by_cases he : pid = pid0
        · rw [he] at hpid ⊢
          have hf := (hinv.forked w pid0 hw (WorkerPc.pid_of_published hpid)).2
          exact Or.inl (hf.killed (List.mem_cons_self ..))
        · exact Or.inr (hstays _ hm fun h => he (StopPc.kill.inj h))
    · exact hstays _ (hinv.waits w pid hw hpc hrun hne) nofun

theorem ClientStep.cancelInv {p : Members} {w : Option Worker} {pc : ClientPc} {out : List Item}
    (h : ClientStep s p w pc out) (hinv : CancelInv s tr)
    (hw : w = s.worker ∨ w = none) (hr : p.isRunning = s.obj.isRunning) :
    CancelInv { s with obj := p, worker := w, client := pc } (tr ++ out) := by
  rcases hw with rfl | rfl
  · refine hinv.extend out rfl h.activePamPid hr fun q hq _ => ?_
    show q ∈ pc.stops ++ s.stops
    rw [State.allStops, h.noStop] at hq
    rw [h.stops]
    exact hq
  · exact cancelInv_of_none rfl

/-- A worker that waits for no pid. -/
theorem cancelInv_of_plain (hw : ∀ w, s.worker = some w → w.pc.pid = none) : CancelInv s tr where
  forked w pid hw' hpid := by rw [hw w hw'] at hpid; cases hpid
  taken w pid hw' hpid := by
    exact absurd ((hw w hw').symm.trans (WorkerPc.pid_of_published hpid)) nofun
  toKill w pid toKill hw' hpc := absurd (hw w hw') (by rw [hpc]; exact nofun)
  waits w pid hw' hpc := absurd (hw w hw') (by rw [hpc]; exact nofun)

/-- The worker goes on with its pid. -/
theorem CancelInv.goesOn (h : CancelInv s tr) {w : Worker} (hw : s.worker = some w) {pid : Pid}
    (hpid : w.pc.pid = some pid) {p : Members} {cs : List Child} {pc : WorkerPc}
    (hpc : pc.pid = some pid) (out : List Item)
    (htaken : pc.published = some pid → p.activePamPid = pid ∨
      p.activePamPid = 0 ∧ (Killed w.attempt pid (tr ++ out) ∨ .kill pid ∈ s.allStops))
    (htoKill : ∀ toKill, pc = .kill pid toKill → toKill = pid ∧ p.activePamPid = 0)
    (hwaits : pc = .waitpid pid → p.isRunning = false → p.activePamPid ≠ 0 →
      .exchange ∈ s.allStops) : CancelInv (s.worked w p cs pc) (tr ++ out) where
  forked w' pid' hw' hpid' := by
    cases hw'
    cases hpc.symm.trans hpid'
    exact (h.forked w pid hw hpid).imp_right fun hf => hf.append out
  taken w' pid' hw' hpid' := by
    cases hw'
    cases hpc.symm.trans (WorkerPc.pid_of_published hpid')
    exact htaken hpid'
  toKill w' pid' toKill hw' hpc' := by
    cases hw'
    have hpc' : pc = .kill pid' toKill := hpc'
    subst hpc'
    cases hpc
    exact htoKill toKill rfl
  waits w' pid' hw' hpc' := by
    cases hw'
    have hpc' : pc = .waitpid pid' := hpc'
    subst hpc'
    cases hpc
    exact hwaits rfl

theorem WorkerStep.cancelInv {w : Worker} {o : WorkerOutcomes} {p : Members} {cs : List Child}
    {pc : WorkerPc} {out : List Item} (h : WorkerStep s w o p cs pc out) (hw : s.worker = some w)
    (hinv : CancelInv s tr) : CancelInv (s.worked w p cs pc) (tr ++ out) := by
  have hplain : ∀ {p cs pc tr}, pc.pid = none → CancelInv (s.worked w p cs pc) tr :=
    fun hpc => cancelInv_of_plain fun w' hw' => by cases hw'; exact hpc
  have htaken : ∀ {pid}, w.pc.published = some pid → s.obj.activePamPid = pid ∨
      s.obj.activePamPid = 0 ∧
        (Killed w.attempt pid (tr ++ out) ∨ .kill pid ∈ s.allStops) := fun hpid =>
    (hinv.taken w _ hw hpid).imp_right fun ⟨h0, hk⟩ => ⟨h0, hk.imp_left (·.append out)⟩
  cases h with
  | called hpc => exact hplain hpc.plain.1
  | tested hpc =>
    generalize hrun : s.obj.isRunning = running at hpc
    generalize hwpc : w.pc = wpc at hpc
    cases hpc with
    | load pid =>
      refine hinv.goesOn hw (by rw [hwpc]; rfl) rfl _ (fun _ => htaken (by rw [hwpc]; rfl)) nofun ?_
      intro _ hstopped
      exact absurd (hrun.symm.trans hstopped) nofun
    | loadStopped pid =>
      exact hinv.goesOn hw (by rw [hwpc]; rfl) rfl _ (fun _ => htaken (by rw [hwpc]; rfl)) nofun
        nofun
    | _ => exact hplain rfl
  | notForked hpc ho => exact hplain rfl
  | forked pid hpc hpid hnew =>
    refine ⟨fun w' pid' hw' hpid' => ?_, fun w' pid' hw' hpid' => ?_, fun w' _ _ hw' hpc' => ?_,
      fun w' _ hw' hpc' => ?_⟩ <;> cases hw'
    · cases hpid'
      exact ⟨hpid, tr, [], rfl⟩
    · cases hpid'
    · cases hpc'
    · cases hpc'
  | stored pid hpc =>
    exact hinv.goesOn hw (by rw [hpc]; rfl) rfl _ (fun _ => Or.inl rfl) nofun nofun
  | took pid hpc hp =>
    refine hinv.goesOn hw (by rw [hpc]; rfl) rfl _ nofun (fun toKill he => ?_) nofun
    cases he
    have hpublished : w.pc.published = some pid := by rw [hpc]; rfl
    rcases htaken hpublished with ha | ⟨h0, -⟩
    · exact ⟨ha, rfl⟩
    · rw [h0] at hp
      exact absurd hp (Nat.lt_irrefl 0)
  | tookNone pid hpc hp =>
    exact hinv.goesOn hw (by rw [hpc]; rfl) rfl _ (fun _ => htaken (by rw [hpc]; rfl)) nofun
      fun _ _ hne => absurd hp hne
  | killed pid toKill hpc =>
    obtain ⟨rfl, h0⟩ := hinv.toKill w pid toKill hw hpc
    have hf := (hinv.forked w toKill hw (by rw [hpc]; rfl)).2
    exact hinv.goesOn hw (by rw [hpc]; rfl) rfl _
      (fun _ => Or.inr ⟨h0, Or.inl (hf.killed (List.mem_singleton_self _))⟩) nofun
      fun _ _ hne => absurd h0 hne
  | reaped pid c run hpc => exact hplain rfl
  | waitFailed pid hpc ho => exact hplain rfl
  | reset status hpc => exact hplain rfl
  | cleared hpc => exact hplain rfl
  | stopped hpc => exact hplain rfl

end Handshake

/-! ## Where no worker has published -/

/-- The places of the worker where `active_pam_pid_` can hold a pid. -/
def WorkerPc.active : WorkerPc → Bool
  | .load _ => true
  | .exchange _ => true
  | .waitpid _ => true
  | .reset _ => true
  | _ => false

def ActiveInv (s : State) : Prop :=
  s.obj.activePamPid ≠ 0 → ∃ w, s.worker = some w ∧ w.pc.active = true

theorem WorkerStep.activeInv {s : State} {w : Worker} {o : WorkerOutcomes} {p : Members}
    {cs : List Child} {pc : WorkerPc} {out : List Item} (h : WorkerStep s w o p cs pc out)
    (hw : s.worker = some w) (hinv : ActiveInv s) : ActiveInv (s.worked w p cs pc) := by
  have hat : w.pc.active = false → s.obj.activePamPid = 0 := fun hpc => by
    by_contra hne
    obtain ⟨w', hw', hactive⟩ := hinv hne
    rw [hw] at hw'
    cases hw'
    exact absurd (hpc.symm.trans hactive) nofun
  have hidle : p.activePamPid = 0 → ActiveInv (s.worked w p cs pc) := fun h0 hne => absurd h0 hne
  have hgoes : pc.active = true → ActiveInv (s.worked w p cs pc) := fun hpc _ => ⟨_, rfl, hpc⟩
  cases h with
  | called hpc =>
    generalize hwpc : w.pc = wpc at hpc hat
    exact hidle (hat (by cases hpc <;> rfl))
  | tested hpc =>
    generalize s.obj.isRunning = running at hpc
    generalize w.pc = wpc at hpc hat
    cases hpc with
    | load pid => exact hgoes rfl
    | loadStopped pid => exact hgoes rfl
    | _ => exact hidle (hat rfl)
  | notForked hpc ho => exact hidle (hat (by rw [hpc]; rfl))
  | forked pid hpc hpid hnew => exact hidle (hat (by rw [hpc]; rfl))
  | stored pid hpc => exact hgoes rfl
  | took pid hpc hp => exact hidle rfl
  | tookNone pid hpc hp => exact hidle hp
  | killed pid toKill hpc => exact hidle (hat (by rw [hpc]; rfl))
  | reaped pid c run hpc => exact hgoes rfl
  | waitFailed pid hpc ho => exact hgoes rfl
  | reset status hpc => exact hidle rfl
  | cleared hpc =>
    exact hidle (s.obj.clearCandidate_activePamPid.trans (hat (by rw [hpc]; rfl)))
  | stopped hpc => exact hidle (hat (by rw [hpc]; rfl))

theorem activeInv_reach {s : State} {tr : List Item} (h : machine.Reach s tr) : ActiveInv s := by
  refine h.invariant_of (J := fun s _ => s.client.unjoinable = true → s.worker = none)
    (I := fun s _ => ActiveInv s) unjoinable_reach ?_ ?_
  · rintro s ⟨handlers, rfl⟩ hne
    exact absurd rfl hne
  · intro s tr i s' out hjoin hinv _ hs
    cases machine_step hs with
    | client ok p w pc out h =>
      intro hne
      obtain ⟨w0, hw0, hactive⟩ := hinv (h.activePamPid ▸ hne)
      -- a worker with a pid has not ended
      have hkeeps : w = s.worker := by
        cases h with
        | joined pass hpc hw => rw [hw w0 hw0] at hactive; cases hactive
        | deleteJoined hpc hw => rw [hw w0 hw0] at hactive; cases hactive
        | created hpc => rw [hjoin (by rw [hpc]; rfl)] at hw0; cases hw0
        | _ => rfl
      exact ⟨w0, hkeeps.trans hw0, hactive⟩
    | stopStep i pc pc' client stops p out hi hr h =>
      intro hne
      refine hinv fun h0 => hne ?_
      cases h with
      | took hp => rfl
      | _ => exact h0
    | worker o w p cs pc out hw h => exact h.activeInv hw hinv
    | _ => exact hinv

/-! ## Every run -/

/-- `verify` makes the worker of its attempt. -/
structure Launches (s0 s1 : State) : Prop where
  client : s0.client = .create
  step : ∃ out, machine.step s0 (.client true) = some (s1, out)

theorem Launches.eq {s0 s1 : State} (h : Launches s0 s1) :
    s1 = { s0 with worker := some ⟨s0.verifies, .onBegin⟩, client := .idle } := by
  obtain ⟨out, hs⟩ := h.step
  have hrun : s0.runClient true = some (s1, out) := hs
  rw [State.runClient, h.client] at hrun
  cases hrun
  rfl

theorem attempt_reach {s0 s1 : State} {tr0 : List Item} (h0 : machine.Reach s0 tr0)
    (hl : Launches s0 s1) {s : State} {tr : List Item}
    (h : (machine.after s1).ReachIf (fun s _ i => NoVerify s i) s tr) :
    BudgetInv (s1.inHand + 1) s tr ∧ CancelInv s tr := by
  refine h.invariant (I := fun s tr => BudgetInv (s1.inHand + 1) s tr ∧ CancelInv s tr) ?_ ?_
  · rintro s rfl
    have hactive : s.obj.activePamPid = 0 := by
      by_contra hne
      rw [hl.eq] at hne
      obtain ⟨w, hw, -⟩ := activeInv_reach h0 hne
      rw [unjoinable_reach h0 (by rw [hl.client]; rfl)] at hw
      cases hw
    have hw : s.worker = some ⟨s0.verifies, .onBegin⟩ := by rw [hl.eq]
    refine ⟨⟨by rw [hl.eq]; rfl, ?_⟩, cancelInv_of_plain fun w hw' => ?_⟩
    · have htakeable : s.takeable = 1 := by
        rw [State.takeable, Members.takeable, if_pos hactive, hw]
        rfl
      rw [List.countP_nil]
      omega
    · rw [hw] at hw'
      cases hw'
      rfl
  · rintro s tr i s' out ⟨hbudget, hcancel⟩ hok hs
    have hplain : ∀ {s' : State} {out : List Item}, Harmless out → s'.client.claimed = false →
        s'.obj = s.obj → s'.worker = s.worker → s'.inHand = s.inHand →
        (∀ pc ∈ s.allStops, pc ≠ .compare → pc ∈ s'.allStops) →
        BudgetInv (s1.inHand + 1) s' (tr ++ out) ∧ CancelInv s' (tr ++ out) :=
      fun {s' out} hout hc hobj hw hh hstops =>
        ⟨hbudget.extend hout hc (Nat.le_of_eq hh)
          (Nat.le_of_eq (by rw [State.takeable, State.takeable, hobj, hw])),
          hcancel.extend out hw (by rw [hobj]) (by rw [hobj]) hstops⟩
    cases machine_step hs with
    | verify pass hpc =>
      refine hplain (by simp [Harmless]) rfl rfl rfl ?_ fun pc hmem _ => ?_
      · simp [State.inHand, State.allStops, hpc, ClientPc.stops]
      · simpa [State.allStops, hpc, ClientPc.stops] using hmem
    | stop hpc =>
      refine hplain (by simp [Harmless]) rfl rfl rfl ?_ fun pc hmem _ => ?_
      · simp [State.inHand, State.allStops, hpc, ClientPc.stops, StopPc.inHand]
      · rw [State.allStops, hpc] at hmem
        exact List.mem_cons_of_mem _ hmem
    | delete hpc =>
      refine hplain (by simp [Harmless]) rfl rfl rfl ?_ fun pc hmem _ => ?_
      · simp [State.inHand, State.allStops, hpc, ClientPc.stops, StopPc.inHand]
      · rw [State.allStops, hpc] at hmem
        exact List.mem_cons_of_mem _ hmem
    | client ok p w pc out h =>
      obtain ⟨hc, hr, hw⟩ := h.unclaimed hok hbudget.client
      refine ⟨hbudget.extend h.harmless hc ?_ ?_, h.cancelInv hcancel (hw.imp_right (·.1)) hr⟩
      · show (pc.stops ++ s.stops).countP StopPc.inHand + (w.any (·.pc.inHand)).toNat ≤ s.inHand
        rw [State.inHand, State.allStops, h.noStop, h.stops]
        rcases hw with rfl | ⟨rfl, -⟩
        · exact Nat.le_refl _
        · exact Nat.add_le_add_left (Nat.zero_le _) _
      · show p.takeable + (w.any (·.pc.unpublished)).toNat ≤ s.takeable
        rw [State.takeable, Members.takeable, h.activePamPid]
        rcases hw with rfl | ⟨rfl, -⟩
        · exact Nat.le_refl _
        · exact Nat.add_le_add_left (Nat.zero_le _) _
    | otherStop hpc =>
      refine hplain (by simp [Harmless]) hbudget.client rfl rfl ?_ fun pc hmem _ => ?_
      · simp [State.inHand, State.allStops, StopPc.inHand]
      · simp only [State.allStops, List.mem_append, List.mem_cons] at hmem ⊢
        exact hmem.imp_right Or.inr
    | stopStep i pc pc' client stops p out hi hr h =>
      exact ⟨h.budgetInv hr hbudget, h.cancelInv hr hcancel⟩
    | worker o w p cs pc out hw h => exact ⟨h.budgetInv hw hbudget, h.cancelInv hw hcancel⟩
    | childEnds pid run c hc hpid hrun =>
      exact hplain (by simp [Harmless]) hbudget.client rfl rfl rfl fun pc hmem _ => hmem

/-- **No cancellation is lost**: in every run of an attempt, whatever `stop` calls come, one pid
is taken at most, and the worker does not wait for a child that a `stop` left alive. -/
theorem stop_kept {s0 s1 : State} {tr0 : List Item} (h0 : machine.Reach s0 tr0)
    (hl : Launches s0 s1) {s : State} {tr : List Item}
    (h : (machine.after s1).ReachIf (fun s _ i => NoVerify s i) s tr) : Cancels s1 s tr := by
  obtain ⟨hbudget, hcancel⟩ := attempt_reach h0 hl h
  refine ⟨Nat.le_trans (Nat.le_add_right _ _) hbudget.budget, fun n pid hw hrun hstops => ?_⟩
  have hexchange : s.obj.activePamPid = 0 := by
    by_contra hne
    exact absurd (hstops _ (hcancel.waits _ pid hw rfl hrun hne)) nofun
  have hpos := (hcancel.forked _ pid hw rfl).1
  rcases hcancel.taken _ pid hw rfl with ha | ⟨-, hk | hm⟩
  · rw [← ha, hexchange] at hpos
    exact absurd hpos (Nat.lt_irrefl 0)
  · exact hk
  · exact absurd (hstops _ hm) nofun

/-- `verify`, up to where it makes the worker. -/
def sampleCreate : List Input := [.verify [115, 101], .client true, .client true, .client true]

theorem createRun_isSome : (machine.exec (start allHandlers) sampleCreate).isSome = true := by
  decide

def createRun : State × List Item :=
  (machine.exec (start allHandlers) sampleCreate).get createRun_isSome

theorem launched_isSome : (machine.step createRun.1 (.client true)).isSome = true := by
  decide

def launchedState : State := ((machine.step createRun.1 (.client true)).get launched_isSome).1

theorem launches_launchedState : Launches createRun.1 launchedState :=
  ⟨by decide, _, (Option.some_get launched_isSome).symm⟩

/-- Another thread stops the attempt while the worker waits. -/
def sampleCancel : List Input :=
  [.worker ⟨none, true⟩, .worker ⟨some 7, true⟩, .worker ⟨none, true⟩, .worker ⟨none, true⟩,
    .otherStop, .other 0, .other 0, .other 0]

theorem cancelRun_isSome :
    ((machine.after launchedState).exec launchedState sampleCancel).isSome = true := by
  decide

def cancelRun : State × List Item :=
  ((machine.after launchedState).exec launchedState sampleCancel).get cancelRun_isSome

theorem cancelRun_noVerify : (machine.after launchedState).Meets (fun s _ i => NoVerify s i)
    launchedState [] sampleCancel := by
  decide

/-- The worker waits there for the child that was killed. -/
theorem stop_kept_cancelRun :
    (cancelRun.1.worker = some ⟨1, .waitpid 7⟩ ∧ cancelRun.1.obj.isRunning = false ∧
      .kill 7 ∈ cancelRun.2) ∧ Cancels launchedState cancelRun.1 cancelRun.2 :=
  ⟨by decide,
    stop_kept (Machine.reach_exec (start_init _) createRun_isSome) launches_launchedState
      (Machine.reachIf_exec rfl cancelRun_noVerify cancelRun_isSome)⟩

end Auth.Password
