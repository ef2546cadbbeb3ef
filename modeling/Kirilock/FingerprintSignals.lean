import Kirilock.FingerprintStep

/-!
Which signals decide a scan.

The match slot and the queue of the bus outlive a scan, and nothing drains them: a
signal that was not processed when its scan was broken off is processed in a later
one.  So the callback acts only on signals of its own scan (`CausesSafe`) in the runs
where nothing is queued when `VerifyStart` succeeds (`StartsDrained`), and
`causes_stale` is a run where an old match authenticates.
-/

namespace Auth.Fingerprint

open Runs

/-! ## The rule -/

/-- The signals emitted since the last `VerifyStart` that succeeded; `none` before one. -/
def Item.since (acc : Option (List Nat)) : Item → Option (List Nat)
  | .verifyStart true => some []
  | .emitted k _ => acc.map (k :: ·)
  | _ => acc

def emittedSince (tr : List Item) : Option (List Nat) := tr.foldl Item.since none

/-- The signal that made the callback call a handler or end the scan. -/
def Item.cause : Item → Option Nat
  | .handler k _ => k
  | .scanEnded k => some k
  | _ => none

/-- The signal was emitted after the last `VerifyStart` that succeeded. -/
def Fresh (tr : List Item) (k : Nat) : Prop := ∃ ks, emittedSince tr = some ks ∧ k ∈ ks

def CauseRule (pre : List Item) (c : Item) : Prop := ∀ k, c.cause = some k → Fresh pre k

/-- What the callback does is caused by a signal of the scan that is on. -/
def CausesSafe (tr : List Item) : Prop := Always CauseRule tr

/-- Where `VerifyStart` succeeds no signal is queued that the callback can read. -/
def StartsDrained (s : State) : Input → Prop
  | .worker o =>
    s.worker = some .verifyStart → o.verifyStart = .ok → ∀ x ∈ s.queue, x.2 = .unreadable
  | _ => True

instance (s : State) (i : Input) : Decidable (StartsDrained s i) := by
  unfold StartsDrained
  split <;> infer_instance

theorem since_of_ne {x : Item} (h : x ≠ .verifyStart true) (ks : List Nat) :
    ∃ ks', x.since (some ks) = some ks' ∧ ∀ k ∈ ks, k ∈ ks' := by
  unfold Item.since
  split
  · exact absurd rfl h
  · exact ⟨_, rfl, fun k hk => List.mem_cons_of_mem _ hk⟩
  · exact ⟨ks, rfl, fun k hk => hk⟩

theorem emittedSince_append {tr out : List Item} {ks : List Nat} (h : emittedSince tr = some ks)
    (hout : .verifyStart true ∉ out) :
    ∃ ks', emittedSince (tr ++ out) = some ks' ∧ ∀ k ∈ ks, k ∈ ks' := by
  unfold emittedSince at h ⊢
  rw [List.foldl_append, h]
  clear h
  induction out generalizing ks with
  | nil => exact ⟨ks, rfl, fun k hk => hk⟩
  | cons x out ih =>
    obtain ⟨ks1, h1, hsub1⟩ := since_of_ne (x := x) (fun he => hout (by simp [he])) ks
    rw [List.foldl_cons, h1]
    obtain ⟨ks2, h2, hsub2⟩ := @ih ks1 fun hx => hout (List.mem_cons_of_mem _ hx)
    exact ⟨ks2, h2, fun k hk => hsub2 k (hsub1 k hk)⟩

theorem Fresh.append {tr out : List Item} {k : Nat} (h : Fresh tr k)
    (hout : .verifyStart true ∉ out) : Fresh (tr ++ out) k := by
  obtain ⟨ks, hks, hk⟩ := h
  obtain ⟨ks', hks', hsub⟩ := emittedSince_append hks hout
  exact ⟨ks', hks', hsub k hk⟩

/-! ## The invariant -/

/-- From a `VerifyStart` that succeeded to the end of its inner loop. -/
def WorkerPc.scanning : WorkerPc → Bool
  | .storeCheck => true
  | .onLoop => true
  | .loadInner => true
  | .loadCheck => true
  | .process => true
  | .callback _ _ => true
  | .compareCheck _ => true
  | .callbackEnd _ => true
  | .select => true
  | _ => false

/-- The signal that the callback acts on. -/
def WorkerPc.signal : WorkerPc → Option Nat
  | .callback k (.status _ _) => some k
  | .compareCheck k => some k
  | .callbackEnd k => some k
  | _ => none

structure CauseInv (s : State) (tr : List Item) : Prop where
  begun : ∀ pc, s.worker = some pc → pc.scanning = true → (emittedSince tr).isSome = true
  queue : ∀ pc, s.worker = some pc → pc.scanning = true →
    ∀ x ∈ s.queue, x.2 ≠ .unreadable → Fresh tr x.1
  current : ∀ pc, s.worker = some pc → ∀ k, pc.signal = some k → Fresh tr k
  rule : CausesSafe tr

/-- Items without a cause, and no `VerifyStart` that succeeded. -/
structure Idle (out : List Item) : Prop where
  cause : ∀ x ∈ out, x.cause = none
  verifyStart : .verifyStart true ∉ out

theorem Idle.rule {tr out : List Item} (h : CausesSafe tr) (hout : Idle out) :
    CausesSafe (tr ++ out) :=
  Always.append_of_forall h fun x hx _ k hk => by rw [hout.cause x hx] at hk; cases hk

theorem idle_nil : Idle [] := ⟨nofun, nofun⟩

theorem Members.invoke_items (p : Members) (k : Option Nat) (h : Handler) :
    ∀ x ∈ p.invoke k h, x = .handler k h := by
  unfold Members.invoke
  split <;> simp

theorem idle_invoke (p : Members) (h : Handler) : Idle (p.invoke none h) := by
  refine ⟨fun x hx => ?_, fun hx => ?_⟩
  · rw [p.invoke_items none h x hx]
    rfl
  · cases p.invoke_items none h _ hx

theorem StopStep.idle {p p' : Members} {ok : Bool} {pc : StopPc} {pc' : Option StopPc}
    {out : List Item} (h : StopStep p ok pc pc' p' out) : Idle out := by
  cases h with
  | ended found => exact idle_invoke p .onEnd
  | stopped found =>
    obtain ⟨h1, h2⟩ := idle_invoke p .onStop
    refine ⟨fun x hx => ?_, by simp [h2]⟩
    rcases List.mem_append.mp hx with hx | hx
    · exact h1 x hx
    · rw [List.mem_singleton.mp hx]
      rfl
  | _ => exact ⟨by simp [Item.cause], by simp⟩

theorem ClientStep.idle {s : State} {ok : Bool} {p : Members} {w : Option WorkerPc}
    {pc : ClientPc} {out : List Item} (h : ClientStep s ok p w pc out) : Idle out := by
  cases h with
  | called pc hpc h => exact idle_invoke s.obj .onStart
  | released hpc => split <;> exact ⟨by simp [Item.cause], by simp⟩
  | deleted hpc hs =>
    obtain ⟨h1, h2⟩ := idle_invoke s.obj .onDelete
    refine ⟨fun x hx => ?_, by simp [h2]⟩
    rcases List.mem_append.mp hx with hx | hx
    · exact h1 x hx
    · rw [List.mem_singleton.mp hx]
      rfl
  | _ => exact ⟨by simp [Item.cause], by simp⟩

/-- The client leaves the worker as it is, joins it, or starts one. -/
theorem ClientStep.worker {s : State} {ok : Bool} {p : Members} {w : Option WorkerPc}
    {pc : ClientPc} {out : List Item} (h : ClientStep s ok p w pc out) :
    w = s.worker ∨ w = none ∨ w = some .loadRunning := by
  cases h with
  | joined => exact Or.inr (Or.inl rfl)
  | deleteJoined => exact Or.inr (Or.inl rfl)
  | created => exact Or.inr (Or.inr rfl)
  | _ => exact Or.inl rfl

section Steps

variable {s : State} {tr : List Item}

theorem CauseInv.extend (h : CauseInv s tr) {s' : State} {out : List Item} (hout : Idle out)
    (hw : ∀ pc, s'.worker = some pc → s.worker = some pc ∨ pc = .loadRunning)
    (hq : s'.queue = s.queue) : CauseInv s' (tr ++ out) where
  begun pc hpc hscan := by
    rcases hw pc hpc with hpc | rfl
    · obtain ⟨ks, hks⟩ := Option.isSome_iff_exists.mp (h.begun pc hpc hscan)
      obtain ⟨ks', hks', -⟩ := emittedSince_append hks hout.verifyStart
      rw [hks']
      rfl
    · cases hscan
  queue pc hpc hscan x hx hread := by
    rcases hw pc hpc with hpc | rfl
    · exact (h.queue pc hpc hscan x (hq ▸ hx) hread).append hout.verifyStart
    · cases hscan
  current pc hpc k hk := by
    rcases hw pc hpc with hpc | rfl
    · exact (h.current pc hpc k hk).append hout.verifyStart
    · cases hk
  rule := hout.rule h.rule

/-- The worker goes on in its scan, or out of it. -/
theorem CauseInv.moves (h : CauseInv s tr) {pc : WorkerPc} (hw : s.worker = some pc)
    {p : Members} {pc' : WorkerPc} {out : List Item} (hstart : .verifyStart true ∉ out)
    (hrule : CausesSafe (tr ++ out)) (hscan : pc'.scanning = true → pc.scanning = true)
    (hsignal : ∀ k, pc'.signal = some k → pc.signal = some k) :
    CauseInv (s.worked p s.queue pc') (tr ++ out) where
  begun pc1 hpc1 hscan1 := by
    cases hpc1
    obtain ⟨ks, hks⟩ := Option.isSome_iff_exists.mp (h.begun pc hw (hscan hscan1))
    obtain ⟨ks', hks', -⟩ := emittedSince_append hks hstart
    rw [hks']
    rfl
  queue pc1 hpc1 hscan1 x hx hread := by
    cases hpc1
    exact (h.queue pc hw (hscan hscan1) x hx hread).append hstart
  current pc1 hpc1 k hk := by
    cases hpc1
    exact (h.current pc hw k (hsignal k hk)).append hstart
  rule := hrule

theorem Goes.scan {p : Members} {pc pc' : WorkerPc} (h : Goes p pc pc') :
    (pc'.scanning = true → pc.scanning = true) ∧ pc'.signal = none := by
  cases h <;> simp [WorkerPc.scanning, WorkerPc.signal]

theorem Calls.scan {pc pc' : WorkerPc} {k : Option Nat} {h : Handler} (hc : Calls pc k h pc') :
    (pc'.scanning = true → pc.scanning = true) ∧ (k = none ∨ k = pc.signal) ∧
      ∀ k', pc'.signal = some k' → pc.signal = some k' := by
  cases hc with
  | verdict k result done =>
    refine ⟨fun _ => rfl, Or.inr rfl, fun k' h => ?_⟩
    cases done <;> cases h
    rfl
  | callbackEnd k => exact ⟨fun _ => rfl, Or.inr rfl, nofun⟩
  | _ => exact ⟨by simp [WorkerPc.scanning], Or.inl rfl, nofun⟩

theorem WorkerStep.causeInv {o : WorkerOutcomes} {pc : WorkerPc} {p : Members}
    {queue : List (Nat × Signal)} {pc' : WorkerPc} {out : List Item}
    (h : WorkerStep s o pc p queue pc' out) (hw : s.worker = some pc) (hinv : CauseInv s tr)
    (hok : pc = .verifyStart → o.verifyStart = .ok → ∀ x ∈ s.queue, x.2 = .unreadable) :
    CauseInv (s.worked p queue pc') (tr ++ out) := by
  have hidle : ∀ {out}, Idle out → CausesSafe (tr ++ out) := fun h => h.rule hinv.rule
  cases h with
  | goes h =>
    refine hinv.moves hw nofun (hidle idle_nil) h.scan.1 fun k hk => ?_
    rw [h.scan.2] at hk
    cases hk
  | @called _ _ k h hpc =>
    obtain ⟨hscan, hk, hsignal⟩ := hpc.scan
    have hstart : Item.verifyStart true ∉ s.obj.invoke k h := fun hx => by
      cases s.obj.invoke_items k h _ hx
    refine hinv.moves hw hstart ?_ hscan hsignal
    -- the handler is called for the signal that is handled
    unfold Members.invoke
    split
    · refine always_snoc.mpr ⟨hinv.rule, fun k' he => ?_⟩
      rcases hk with rfl | rfl
      · cases he
      · exact hinv.current pc hw k' he
    · simpa using hinv.rule
  | verifyStarted ho =>
    have hqueue := hok rfl ho
    have hsince : emittedSince (tr ++ [Item.verifyStart true]) = some [] := by
      simp [emittedSince, Item.since]
    refine ⟨fun _ _ _ => by rw [hsince]; rfl, fun _ _ _ x hx hread => ?_, fun pc1 hpc1 k hk => ?_,
      Always.append_of_forall hinv.rule fun x hx _ k hk => ?_⟩
    · exact absurd (hqueue x hx) hread
    · cases hpc1
      cases hk
    · rw [List.mem_singleton.mp hx] at hk
      cases hk
  | verifyFailed msg ho =>
    exact hinv.moves hw (by simp) (hidle ⟨by simp [Item.cause], by simp⟩) nofun nofun
  | checkStored => exact hinv.moves hw nofun (hidle idle_nil) (fun _ => rfl) nofun
  | dispatched x rest ho hq =>
    have hfresh : ∀ y ∈ s.queue, y.2 ≠ .unreadable → Fresh tr y.1 := hinv.queue _ hw rfl
    rw [hq] at hfresh
    refine ⟨fun _ _ _ => ?_, fun _ _ _ y hy hread => ?_, fun pc1 hpc1 k hk => ?_, ?_⟩
    · rw [List.append_nil]
      exact hinv.begun _ hw rfl
    · rw [List.append_nil]
      exact hfresh y (List.mem_cons_of_mem _ hy) hread
    · cases hpc1
      rw [List.append_nil]
      obtain ⟨k', body⟩ := x
      cases body with
      | unreadable => cases hk
      | status result done =>
        cases hk
        exact hfresh _ (List.mem_cons_self ..) nofun
    · rw [List.append_nil]
      exact hinv.rule
  | scanEnded k hc =>
    refine hinv.moves hw (by simp) ?_ (fun _ => rfl) fun k' hk' => hk'
    refine always_snoc.mpr ⟨hinv.rule, fun k' he => ?_⟩
    cases he
    exact hinv.current _ hw _ rfl
  | verifyStopped =>
    exact hinv.moves hw (by simp) (hidle ⟨by simp [Item.cause], by simp⟩) nofun nofun

end Steps

theorem causeInv_reach {s : State} {tr : List Item}
    (h : machine.ReachIf (fun s _ i => StartsDrained s i) s tr) : CauseInv s tr := by
  refine h.invariant ?_ ?_
  · rintro s ⟨handlers, pipe, device, rfl⟩
    exact ⟨nofun, nofun, nofun, always_nil _⟩
  · intro s tr i s' out hinv hok hs
    cases machine_step hs with
    | start hpc => exact hinv.extend ⟨by simp [Item.cause], by simp⟩ (fun _ h => Or.inl h) rfl
    | stop hpc => exact hinv.extend ⟨by simp [Item.cause], by simp⟩ (fun _ h => Or.inl h) rfl
    | delete hpc => exact hinv.extend ⟨by simp [Item.cause], by simp⟩ (fun _ h => Or.inl h) rfl
    | client ok p w pc out h =>
      refine hinv.extend h.idle (fun pc' hpc' => ?_) rfl
      rcases h.worker with rfl | rfl | rfl
      · exact Or.inl hpc'
      · cases hpc'
      · cases hpc'
        exact Or.inr rfl
    | otherStop hpc =>
      exact hinv.extend ⟨by simp [Item.cause], by simp⟩ (fun _ h => Or.inl h) rfl
    | stopStep i ok pc pc' client stops p out hi hr h =>
      exact hinv.extend h.idle (fun _ h => Or.inl h) rfl
    | worker o pc p queue pc' out hw h =>
      exact h.causeInv hw hinv fun hpc => hok (hpc ▸ hw)
    | emit body =>
      have hidle : Idle [.emitted s.emissions body] := ⟨by simp [Item.cause], by simp⟩
      have h : CauseInv s _ := hinv.extend hidle (fun _ h => Or.inl h) rfl
      refine ⟨h.begun, fun pc hpc hscan x hx hread => ?_, h.current, h.rule⟩
      rcases List.mem_append.mp hx with hx | hx
      · exact h.queue pc hpc hscan x hx hread
      · -- the new signal is of this scan
        obtain ⟨ks, hks⟩ := Option.isSome_iff_exists.mp (hinv.begun pc hpc hscan)
        rw [List.mem_singleton.mp hx]
        refine ⟨s.emissions :: ks, ?_, List.mem_cons_self ..⟩
        unfold emittedSince at hks ⊢
        rw [List.foldl_append, hks]
        rfl

/-! ## Every run -/

/-- **The callback acts only on signals of the scan that is on**, in every run where nothing
is queued when `VerifyStart` succeeds. -/
theorem causes_safe {s : State} {tr : List Item}
    (h : machine.ReachIf (fun s _ i => StartsDrained s i) s tr) : CausesSafe tr :=
  (causeInv_reach h).rule

/-- Every handler is set. -/
def allHandlers : Handlers := ⟨true, true, true, true, true, true, true⟩

/-- Steps of the worker for which the bus does what is asked and has no signal. -/
def sampleWorker (n : Nat) (process : ProcessOutcome) : List Input :=
  List.replicate n (.worker ⟨.ok, process⟩)

/-- `start` makes a worker, which begins a scan and is about to look for signals. -/
def sampleStart : List Input :=
  [Input.start] ++ List.replicate 6 (Input.client true) ++ sampleWorker 6 .nothing

/-- The finger matches. -/
def sampleMatch : List Input :=
  sampleStart ++ [Input.emit (.status "verify-match" true)] ++ sampleWorker 4 .signal

theorem matchRun_isSome :
    (machine.exec (start allHandlers true true) sampleMatch).isSome = true := by
  decide

def matchRun : State × List Item :=
  (machine.exec (start allHandlers true true) sampleMatch).get matchRun_isSome

theorem matchRun_drained : machine.Meets (fun s _ i => StartsDrained s i)
    (start allHandlers true true) [] sampleMatch := by
  decide

/-- The match is reported there and ends the scan. -/
theorem causes_safe_matchRun :
    (.handler (some 0) .onFinish ∈ matchRun.2 ∧ .scanEnded 0 ∈ matchRun.2) ∧
      CausesSafe matchRun.2 :=
  ⟨by decide,
    causes_safe (Machine.reachIf_exec (start_init _ _ _) matchRun_drained matchRun_isSome)⟩

/-! ## An old signal -/

/-- A `stop` of another thread, from its call to its return. -/
def sampleStop : List Input := [Input.otherStop] ++ List.replicate 5 (Input.other 0 true)

/-- A match comes after the scan was stopped; the next scan processes it. -/
def sampleStale : List Input :=
  sampleStart ++ sampleStop ++ [Input.emit (.status "verify-match" true)] ++
  sampleWorker 6 .nothing ++ [Input.start] ++ List.replicate 8 (Input.client true) ++
  sampleWorker 6 .nothing ++ sampleWorker 2 .signal

theorem staleRun_isSome :
    (machine.exec (start allHandlers true true) sampleStale).isSome = true := by
  decide

def staleRun : State × List Item :=
  (machine.exec (start allHandlers true true) sampleStale).get staleRun_isSome

/-- **Not in every run**: `on_finish` is called for a signal of the scan before. -/
theorem causes_stale : ¬∀ s tr, machine.Reach s tr → CausesSafe tr := by
  intro h
  have hsafe := h _ _ (Machine.reach_exec (start_init _ _ _) staleRun_isSome)
  obtain ⟨c, hc, hrule⟩ :=
    hsafe.first (p := (· == .handler (some 0) .onFinish)) (by decide)
  obtain ⟨ks, hks, hk⟩ := hrule 0 (by rw [beq_iff_eq.mp hc]; rfl)
  have hnone : emittedSince (staleRun.2.takeWhile fun x => !(x == .handler (some 0) .onFinish)) =
      some [] := by decide
  rw [show ks = [] from Option.some.inj (hks.symm.trans hnone)] at hk
  cases hk

end Auth.Fingerprint
