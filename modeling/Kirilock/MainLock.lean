import Kirilock.MainRun

/-!
The end of a session lock.

Every lock that is made gets one destructor request before the display is
disconnected.  In every run it is `unlock_and_destroy` exactly where `locked` was
received for the lock and `finished` was not (`LockInv`).  The listener's contract asks
for it wherever `locked` was received, so the two agree in the runs in which no lock
is finished after it was locked (`FinishedUnlocked`), and a lock that is gets the
wrong request (`lock_destructors_finished`).
-/

namespace Kirilock

open Runs Ownership

/-! ## What is asked -/

/-- The destructor requests on the lock `l`: `true` for `unlock_and_destroy`. -/
def lockDestructors (l : Proxy) (cs : List Call) : List Bool :=
  cs.filterMap fun
    | .extSessionLockV1UnlockAndDestroy p => if p = l then some true else none
    | .extSessionLockV1Destroy p => if p = l then some false else none
    | _ => none

def LockMade (tr : List Item) (l : Proxy) : Prop :=
  ∃ manager, .call (.extSessionLockManagerV1Lock manager (some l)) ∈ tr

/-- `e` was received for the lock `l`. -/
def Received (tr : List Item) (l : Proxy) (e : ProxyEvent) : Prop := .event l .lock e ∈ tr

/-- The lock got the one request that the contract of its listener asks for. -/
def LockEnded (tr : List Item) (l : Proxy) : Prop :=
  ∃ unlock, lockDestructors l (callsOf tr) = [unlock] ∧ (unlock = true ↔ Received tr l .locked)

/-- When the display is disconnected `P` holds of every lock. -/
def AtDisconnect (P : List Item → Proxy → Prop) (pre : List Item) (x : Item) : Prop :=
  ∀ display, x = .call (.wlDisplayDisconnect display) → ∀ l, LockMade pre l → P pre l

/-- Every lock ends, and before the display is disconnected, which it is in the end. -/
structure LockSafe (s : MainState) (tr : List Item) : Prop where
  ended : Always (AtDisconnect LockEnded) tr
  exited : ∀ ret, s.pc = .exited ret → ∀ l, LockMade tr l →
    ∃ display, .call (.wlDisplayDisconnect display) ∈ tr

/-! ## What the compositor may send -/

def receives (l : Proxy) (e : ProxyEvent) : Item → Bool
  | .event p .lock e' => p == l && e' == e
  | _ => false

theorem received_iff {tr : List Item} {l : Proxy} {e : ProxyEvent} :
    Received tr l e ↔ tr.any (receives l e) = true := by
  rw [List.any_eq_true]
  constructor
  · exact fun h => ⟨_, h, by simp [receives]⟩
  · rintro ⟨x, hx, hr⟩
    unfold receives at hr
    split at hr
    · simp only [Bool.and_eq_true, beq_iff_eq] at hr
      obtain ⟨rfl, rfl⟩ := hr
      exact hx
    · cases hr

instance (tr : List Item) (l : Proxy) (e : ProxyEvent) : Decidable (Received tr l e) :=
  decidable_of_iff _ received_iff.symm

/-- `locked` and `finished` come at most once, and `locked` not after `finished`. -/
def LockProtocol (_ : MainState) (tr : List Item) : MainInput → Prop
  | .deliver l .locked _ => ¬Received tr l .locked ∧ ¬Received tr l .finished
  | .deliver l .finished _ => ¬Received tr l .finished
  | _ => True

/-- No lock is finished that was locked. -/
def FinishedUnlocked (_ : MainState) (tr : List Item) : MainInput → Prop
  | .deliver l .finished _ => ¬Received tr l .locked
  | _ => True

instance (s : MainState) (tr : List Item) (i : MainInput) : Decidable (LockProtocol s tr i) := by
  unfold LockProtocol
  split <;> infer_instance

instance (s : MainState) (tr : List Item) (i : MainInput) :
    Decidable (FinishedUnlocked s tr i) := by
  unfold FinishedUnlocked
  split <;> infer_instance

/-! ## Calls that end no lock -/

/-- Calls that make or end a lock, or disconnect. -/
def Call.locks : Call → Bool
  | .extSessionLockManagerV1Lock .. => true
  | .extSessionLockV1UnlockAndDestroy .. => true
  | .extSessionLockV1Destroy .. => true
  | .wlDisplayDisconnect .. => true
  | _ => false

def Lockless (cs : List Call) : Prop := ∀ c ∈ cs, c.locks = false

theorem Lockless.append {cs ds : List Call} (h1 : Lockless cs) (h2 : Lockless ds) :
    Lockless (cs ++ ds) :=
  List.forall_mem_append.mpr ⟨h1, h2⟩

theorem lockless_of_ofSurface {cs : List Call} (h : cs.all Call.ofSurface) : Lockless cs := by
  intro c hc
  have h := List.all_eq_true.mp h c hc
  cases c <;> first
    | rfl
    | exact absurd h Bool.false_ne_true

theorem Plain.lockless {ctx : KlContext} {cs : List Call} (h : Plain ctx cs) : Lockless cs := by
  intro c hc
  have h := (h c hc).1
  cases c <;> first
    | rfl
    | exact absurd h Bool.false_ne_true

theorem lockless_toList_map (x : Option Proxy) (f : Proxy → Call)
    (h : ∀ p, (f p).locks = false) : Lockless (x.toList.map f) := by
  intro c hc
  obtain ⟨p, -, rfl⟩ := List.mem_map.mp hc
  exact h p

theorem Dispatched.lockless {ctx ctx' : KlContext} {p : Proxy} {d : Listener} {e : ProxyEvent}
    {cs : List Call} (h : Dispatched ctx p d e ctx' cs) : Lockless cs := by
  have hcreated : ∀ {name output surf cs}, Created output name surf cs →
      Lockless (.wlRegistryBind p name .wlOutput (some output) :: cs) := by
    intro name output surf cs hs
    obtain ⟨ok, rfl⟩ := hs.calls
    simp [Lockless, Call.locks]
  cases h with
  | bindFailed | compositor | shm | lockManager | other | notFound | locked | finished =>
    simp [Lockless, Call.locks]
  | createFailed name output cs releasable hp hcs =>
    cases hcs <;> cases releasable <;> simp [Lockless, wlOutputDrop, Call.locks]
  | created name output surf cs hp hs hl => exact hcreated hs
  | plugged name output surf surf' cs ds o ok flush hp hs hl hf ha =>
    exact ((hcreated hs).append (lockless_of_ofSurface (SurfaceOp.attached ha).ofSurface)).append
      (lockless_toList_map _ _ fun _ => rfl)
  | removed name l1 l2 surf releasable =>
    have hop : SurfaceOp ctx.refs surf none _ := .destroyed releasable
    exact lockless_of_ofSurface hop.ofSurface
  | handled l1 l2 surf surf' d e cs hs hd hm h =>
    exact lockless_of_ofSurface (ofSurface_of_drawing h.drawing)

theorem klContextInitConnect_lockless (o : ConnectOutcomes) :
    Lockless (klContextInitConnect o).2.2 := by
  intro c hc
  have h := klContextInitConnect_calls o c hc
  cases c <;> first
    | rfl
    | exact absurd h Bool.false_ne_true

@[simp] theorem lockDestructors_append (l : Proxy) (cs ds : List Call) :
    lockDestructors l (cs ++ ds) = lockDestructors l cs ++ lockDestructors l ds :=
  List.filterMap_append

theorem Lockless.destructors {cs : List Call} (h : Lockless cs) (l : Proxy) :
    lockDestructors l cs = [] := by
  refine List.filterMap_eq_nil_iff.mpr fun c hc => ?_
  have := h c hc
  cases c <;> first
    | rfl
    | exact absurd this (by simp [Call.locks])

theorem Lockless.made {cs : List Call} (h : Lockless cs) {tr : List Item} {l : Proxy}
    (hm : LockMade (tr ++ calls cs) l) : LockMade tr l := by
  obtain ⟨manager, hm⟩ := hm
  refine ⟨manager, (List.mem_append.mp hm).resolve_right fun hc => ?_⟩
  exact absurd (h _ (call_mem_calls.mp hc)) (by simp [Call.locks])

theorem Lockless.connected {cs : List Call} (h : Lockless cs) (p : Proxy) :
    .wlDisplayDisconnect p ∉ cs := fun hc => absurd (h _ hc) (by simp [Call.locks])

theorem LockMade.append {tr : List Item} {l : Proxy} (h : LockMade tr l) (out : List Item) :
    LockMade (tr ++ out) l := by
  obtain ⟨manager, h⟩ := h
  exact ⟨manager, List.mem_append_left _ h⟩

theorem received_calls {tr : List Item} {cs : List Call} {l : Proxy} {e : ProxyEvent} :
    Received (tr ++ calls cs) l e ↔ Received tr l e := by
  simp [Received, calls]

/-! ## The invariant -/

/-- What the code does: `unlock_and_destroy` where the lock was locked and not finished. -/
def LockDecided (tr : List Item) (l : Proxy) : Prop :=
  ∃ unlock, lockDestructors l (callsOf tr) = [unlock] ∧
    (unlock = true ↔ Received tr l .locked ∧ ¬Received tr l .finished)

theorem atDisconnect_calls {P : List Item → Proxy → Prop} {tr : List Item}
    (h : Always (AtDisconnect P) tr) {cs : List Call} (hcs : ∀ p, .wlDisplayDisconnect p ∉ cs) :
    Always (AtDisconnect P) (tr ++ calls cs) := by
  refine h.append_of_forall fun x hx pre display he => ?_
  obtain ⟨c, hc, rfl⟩ := List.mem_map.mp hx
  cases he
  exact absurd hc (hcs display)

/-- The lock that the context holds has had no destructor request and the flags say
what was received for it; every other lock has been decided. -/
structure LockInv (ph : Phase) (ctx : KlContext) (tr : List Item) : Prop where
  early : ph = .start ∨ ph = .early →
    (∀ l, ¬LockMade tr l) ∧ ctx.isLocked = false ∧ ctx.isFinished = false
  held : ∀ l, ctx.lock = some l → LockMade tr l ∧ lockDestructors l (callsOf tr) = [] ∧
    (ctx.isLocked = true ↔ Received tr l .locked) ∧
      (ctx.isFinished = true ↔ Received tr l .finished)
  decided : ∀ l, LockMade tr l → ctx.lock ≠ some l → LockDecided tr l
  gone : ph = .closing ∨ ph = .exited → ctx.lock = none
  display : (ph = .early ∨ ∃ l, LockMade tr l) → ph ≠ .exited → ctx.display.isSome = true
  rule : Always (AtDisconnect LockDecided) tr
  exited : ph = .exited → ∀ l, LockMade tr l → ∃ display, .call (.wlDisplayDisconnect display) ∈ tr

/-- Items that concern no lock leave what is known of the locks. -/
theorem LockDecided.extend {tr : List Item} {l : Proxy} (h : LockDecided tr l) {cs : List Call}
    (hcs : lockDestructors l cs = []) : LockDecided (tr ++ calls cs) l := by
  obtain ⟨unlock, h1, h2⟩ := h
  refine ⟨unlock, ?_, ?_⟩
  · rw [callsOf_append, callsOf_calls, lockDestructors_append, h1, hcs, List.append_nil]
  · rw [received_calls, received_calls]
    exact h2

/-- A step that makes and ends no lock and leaves the lock and its flags. -/
theorem LockInv.extend {ph ph' : Phase} {ctx ctx' : KlContext} {tr : List Item}
    (h : LockInv ph ctx tr) {cs : List Call} (hcs : Lockless cs) (hlock : ctx'.lock = ctx.lock)
    (hlocked : ctx'.isLocked = ctx.isLocked) (hfinished : ctx'.isFinished = ctx.isFinished)
    (hdisplay : ctx'.display = ctx.display) (hmove : PlainMove ph ph') :
    LockInv ph' ctx' (tr ++ calls cs) := by
  have hmade : ∀ {l}, LockMade (tr ++ calls cs) l → LockMade tr l := fun hm => hcs.made hm
  refine ⟨fun he => ?_, fun l hl => ?_, fun l hm hl => ?_, fun he => ?_, fun he hx => ?_, ?_,
    fun he l hm => ?_⟩
  · have he' : ph = .start ∨ ph = .early := by
      cases hmove <;> first
        | exact he
        | simp at he
    obtain ⟨h1, h2, h3⟩ := h.early he'
    exact ⟨fun l hm => h1 l (hmade hm), hlocked.trans h2, hfinished.trans h3⟩
  · obtain ⟨h1, h2, h3, h4⟩ := h.held l (hlock ▸ hl)
    refine ⟨h1.append _, ?_, ?_, ?_⟩
    · rw [callsOf_append, callsOf_calls, lockDestructors_append, h2, hcs.destructors]
      rfl
    · rw [hlocked, received_calls]
      exact h3
    · rw [hfinished, received_calls]
      exact h4
  · exact (h.decided l (hmade hm) (hlock ▸ hl)).extend (hcs.destructors l)
  · rw [hlock]
    cases hmove <;> first
      | exact h.gone he
      | simp at he
  · rw [hdisplay]
    have hx' : ph ≠ .exited := by
      cases hmove <;> first
        | exact hx
        | exact Phase.noConfusion
    refine h.display (he.imp (fun he => ?_) fun ⟨l, hm⟩ => ⟨l, hmade hm⟩) hx'
    cases hmove <;> first
      | exact he
      | cases he
  · exact atDisconnect_calls h.rule hcs.connected
  · have he' : ph = .exited := by
      cases hmove <;> first
        | exact he
        | cases he
    obtain ⟨display, hd⟩ := h.exited he' l (hmade hm)
    exact ⟨display, List.mem_append_left _ hd⟩

/-- An event that is not for a lock. -/
theorem LockInv.event {ph : Phase} {ctx : KlContext} {tr : List Item} (h : LockInv ph ctx tr)
    (p : Proxy) {d : Listener} (e : ProxyEvent) (hd : d ≠ .lock) :
    LockInv ph ctx (tr ++ [Item.event p d e]) := by
  have hmade : ∀ {l}, LockMade (tr ++ [Item.event p d e]) l ↔ LockMade tr l := by
    simp [LockMade]
  have hreceived : ∀ {l e'}, Received (tr ++ [Item.event p d e]) l e' ↔ Received tr l e' := by
    intro l e'
    simp only [Received, List.mem_append, List.mem_singleton, Item.event.injEq]
    exact or_iff_left fun he => hd he.2.1.symm
  have hcalls : callsOf (tr ++ [Item.event p d e]) = callsOf tr := by simp
  refine ⟨fun he => ?_, fun l hl => ?_, fun l hm hl => ?_, h.gone, fun he hx => ?_,
    always_snoc.mpr ⟨h.rule, fun display he => by cases he⟩, fun he l hm => ?_⟩
  · obtain ⟨h1, h2⟩ := h.early he
    exact ⟨fun l hm => h1 l (hmade.mp hm), h2⟩
  · rw [hmade, hcalls, hreceived, hreceived]
    exact h.held l hl
  · rw [LockDecided, hcalls, hreceived, hreceived]
    exact h.decided l (hmade.mp hm) hl
  · exact h.display (he.imp id fun ⟨l, hm⟩ => ⟨l, hmade.mp hm⟩) hx
  · obtain ⟨display, hc⟩ := h.exited he l (hmade.mp hm)
    exact ⟨display, List.mem_append_left _ hc⟩

/-- The lock received `locked` or `finished`, and the flag for it is set. -/
theorem LockInv.received {ph : Phase} {ctx ctx' : KlContext} {tr : List Item}
    (h : LockInv ph ctx tr) {p : Proxy} {e : ProxyEvent} (hp : ctx.lock = some p)
    (hlock : ctx'.lock = ctx.lock) (hdisplay : ctx'.display = ctx.display)
    (hlocked : ctx'.isLocked = true ↔ ctx.isLocked = true ∨ e = .locked)
    (hfinished : ctx'.isFinished = true ↔ ctx.isFinished = true ∨ e = .finished) :
    LockInv ph ctx' (tr ++ [Item.event p .lock e]) := by
  have hmade : ∀ {l}, LockMade (tr ++ [Item.event p .lock e]) l ↔ LockMade tr l := by
    simp [LockMade]
  have hcalls : callsOf (tr ++ [Item.event p .lock e]) = callsOf tr := by simp
  obtain ⟨h1, h2, h3, h4⟩ := h.held p hp
  have hreceived : ∀ {l e'}, Received (tr ++ [Item.event p .lock e]) l e' ↔
      Received tr l e' ∨ l = p ∧ e' = e := by
    simp [Received]
  refine ⟨fun he => ?_, fun l hl => ?_, fun l hm hl => ?_, fun he => ?_, fun he hx => ?_,
    always_snoc.mpr ⟨h.rule, fun display he => by cases he⟩, fun he l hm => ?_⟩
  · exact absurd h1 ((h.early he).1 p)
  · rw [hlock, hp, Option.some.injEq] at hl
    subst hl
    rw [hmade, hcalls, hreceived, hreceived, hlocked, hfinished, h3, h4]
    exact ⟨h1, h2, by simp [eq_comm], by simp [eq_comm]⟩
  · have hne : l ≠ p := fun he => hl (he ▸ hlock.trans hp)
    obtain ⟨unlock, hu1, hu2⟩ := h.decided l (hmade.mp hm) (hlock ▸ hl)
    refine ⟨unlock, hcalls ▸ hu1, ?_⟩
    rw [hreceived, hreceived]
    simpa [hne] using hu2
  · have hn := h.gone he
    rw [hp] at hn
    cases hn
  · rw [hdisplay]
    exact h.display (he.imp id fun ⟨l, hm⟩ => ⟨l, hmade.mp hm⟩) hx
  · obtain ⟨display, hc⟩ := h.exited he l (hmade.mp hm)
    exact ⟨display, List.mem_append_left _ hc⟩

theorem LockInv.dispatched {ph : Phase} {ctx ctx' : KlContext} {tr : List Item}
    (h : LockInv ph ctx tr) {p : Proxy} {d : Listener} {e : ProxyEvent} {cs : List Call}
    (hd : Dispatched ctx p d e ctx' cs) :
    LockInv ph ctx' (tr ++ [Item.event p d e] ++ calls cs) := by
  have hcs := hd.lockless
  cases hd with
  | locked hp =>
    rw [calls_nil, List.append_nil]
    exact h.received hp rfl rfl (by simp) (by simp)
  | finished hp =>
    rw [calls_nil, List.append_nil]
    exact h.received hp rfl rfl (by simp) (by simp)
  | handled l1 l2 surf surf' d e cs hs hd hm hh =>
    have hne : d ≠ .lock := by
      rintro rfl
      cases hd
    exact (h.event p e hne).extend hcs rfl rfl rfl rfl (.stays ph)
  | _ => exact (h.event p _ Listener.noConfusion).extend hcs rfl rfl rfl rfl (.stays ph)

/-! ## The functions of the session -/

/-- A proxy that is created now was not named by a lock's event or destructor before. -/
theorem MainOk.unlocked {s : MainState} {tr : List Item} (h : MainOk s tr) {l : Proxy}
    (hl : .create l ∉ itemActs tr) :
    lockDestructors l (callsOf tr) = [] ∧ ∀ e, ¬Received tr l e := by
  constructor
  · refine List.filterMap_eq_nil_iff.mpr fun c hc => ?_
    have hdead : .destroy l ∉ c.acts := by
      intro hd
      have hm : .destroy l ∈ itemActs tr := List.mem_flatMap.mpr ⟨_, mem_callsOf.mp hc, hd⟩
      obtain ⟨pre, post, he⟩ := List.append_of_mem hm
      have hcreate := (sound_history h.sound h.fresh pre _ post he l rfl).1
      exact hl (he ▸ List.mem_append_left _ hcreate)
    split
    · rename_i p
      exact if_neg fun he => hdead (by simp [Call.acts, he])
    · rename_i p
      exact if_neg fun he => hdead (by simp [Call.acts, he])
    · rfl
  · intro e he
    have huse : .use l ∈ itemActs tr :=
      List.mem_flatMap.mpr ⟨_, he, List.mem_singleton_self _⟩
    exact hl (create_of_use h.sound h.fresh huse)

/-- A lock is made where there was none. -/
theorem LockInv.made {s : MainState} {tr : List Item} (hok : MainOk s tr)
    (h : LockInv .early s.ctx tr) {manager l : Proxy} (hl : .create l ∉ itemActs tr)
    {surfs : List KlSurface} {cs : List Call} (hcs : Lockless cs) {ph : Phase}
    (hph : ph = .session ∨ ph = .ending) :
    LockInv ph { s.ctx with lock := some l, surfaces := surfs }
      (tr ++ calls (.extSessionLockManagerV1Lock manager (some l) :: cs)) := by
  obtain ⟨hnone, hlocked, hfinished⟩ := h.early (Or.inr rfl)
  obtain ⟨hdestructors, hreceived⟩ := hok.unlocked hl
  have hmade : ∀ {l'},
      LockMade (tr ++ calls (.extSessionLockManagerV1Lock manager (some l) :: cs)) l' →
      l' = l := by
    rintro l' ⟨m, hm⟩
    rcases List.mem_append.mp hm with hm | hm
    · exact absurd ⟨m, hm⟩ (hnone l')
    · rcases List.mem_cons.mp (call_mem_calls.mp hm) with he | hm
      · cases he
        rfl
      · exact absurd (hcs _ hm) (by simp [Call.locks])
  have hph' : ph ≠ .start ∧ ph ≠ .early ∧ ph ≠ .closing ∧ ph ≠ .exited := by
    rcases hph with rfl | rfl <;> decide
  refine ⟨fun he => absurd he (by simp [hph']), fun l' hl' => ?_, fun l' hm hl' => ?_,
    fun he => absurd he (by simp [hph']), fun _ _ => h.display (Or.inl rfl) nofun, ?_,
    fun he => absurd he hph'.2.2.2⟩
  · cases hl'
    refine ⟨⟨manager, by simp⟩, ?_, ?_, ?_⟩
    · rw [callsOf_append, callsOf_calls, lockDestructors_append, hdestructors]
      exact hcs.destructors l
    · rw [received_calls]
      simp [hlocked, hreceived]
    · rw [received_calls]
      simp [hfinished, hreceived]
  · exact absurd (congrArg some (hmade hm).symm) hl'
  · refine atDisconnect_calls h.rule fun p hp => ?_
    rcases List.mem_cons.mp hp with he | hp
    · cases he
    · exact hcs.connected p hp

theorem LockInv.locked {s : MainState} {tr : List Item} (hok : MainOk s tr)
    (h : LockInv .early s.ctx tr) {ok : Bool} {ctx : KlContext} {cs : List Call}
    (hl : LockStep s.ctx ok ctx cs)
    (hnew : ∀ p, .create p ∈ acts cs → .create p ∉ itemActs tr) :
    LockInv (if ok then .session else .ending) ctx (tr ++ calls cs) := by
  cases hl with
  | refused => exact h.extend (by simp [Lockless]) rfl rfl rfl rfl .early
  | noLock manager hm =>
    -- nothing was made
    have hcs : ∀ l, LockMade (tr ++ calls [.extSessionLockManagerV1Lock manager none]) l →
        LockMade tr l := by
      rintro l ⟨m, hm⟩
      exact ⟨m, by simpa using hm⟩
    have hnone := fun l hm => (h.early (Or.inr rfl)).1 l (hcs l hm)
    exact ⟨nofun, nofun, fun l hm => absurd hm (hnone l), nofun,
      fun _ _ => h.display (Or.inl rfl) nofun, atDisconnect_calls h.rule (by simp), nofun⟩
  | noListener manager lock hm =>
    exact h.made hok (hnew lock (by simp [Call.acts, created])) (by simp [Lockless, Call.locks])
      (Or.inr rfl)
  | attached manager lock ok surfs cs hm ha =>
    refine h.made hok (hnew lock (by simp [Call.acts, created])) ?_ (by cases ok <;> simp)
    exact List.forall_mem_cons.mpr ⟨rfl, lockless_of_ofSurface ha.step.ofSurface⟩

/-- The lock that is held gets its destructor request. -/
theorem LockInv.ended {ph : Phase} {ctx : KlContext} {tr : List Item} (h : LockInv ph ctx tr)
    (ph' : Phase) (ctx' : KlContext) {cs ds : List Call} (hcs : Lockless cs) (hds : Lockless ds)
    (request : Proxy → Call) (unlock : Bool)
    (hrequest : request = if unlock then .extSessionLockV1UnlockAndDestroy
      else .extSessionLockV1Destroy)
    (hunlock : unlock = true ↔ ctx.isLocked = true ∧ ctx.isFinished = false)
    (hlock : ctx'.lock = none) (hdisplay : ctx'.display = ctx.display)
    (hph : ph ≠ .exited ∧ ph' ≠ .start ∧ ph' ≠ .early ∧ ph' ≠ .exited) :
    LockInv ph' ctx' (tr ++ calls (cs ++ ctx.lock.toList.map request ++ ds)) := by
  have hdestructors : ∀ l, lockDestructors l (cs ++ ctx.lock.toList.map request ++ ds) =
      if ctx.lock = some l then [unlock] else [] := by
    intro l
    rw [lockDestructors_append, lockDestructors_append, hcs.destructors, hds.destructors,
      List.append_nil, List.nil_append, hrequest]
    cases ctx.lock with
    | none => rfl
    | some p => cases unlock <;> by_cases hp : p = l <;> simp [lockDestructors, hp]
  have hmade : ∀ {l}, LockMade (tr ++ calls (cs ++ ctx.lock.toList.map request ++ ds)) l →
      LockMade tr l := by
    rintro l ⟨m, hm⟩
    refine ⟨m, (List.mem_append.mp hm).resolve_right fun hc => ?_⟩
    have hc := call_mem_calls.mp hc
    simp only [List.mem_append, List.mem_map] at hc
    rcases hc with (hc | ⟨p, -, he⟩) | hc
    · exact absurd (hcs _ hc) (by simp [Call.locks])
    · rw [hrequest] at he
      cases unlock <;> simp at he
    · exact absurd (hds _ hc) (by simp [Call.locks])
  refine ⟨fun he => absurd he (by simp [hph]), fun l hl => ?_, fun l hm _ => ?_, fun _ => hlock,
    fun he _ => ?_, atDisconnect_calls h.rule fun p hp => ?_, fun he => absurd he hph.2.2.2⟩
  · rw [hlock] at hl
    cases hl
  · by_cases hl : ctx.lock = some l
    · obtain ⟨-, h2, h3, h4⟩ := h.held l hl
      refine ⟨unlock, ?_, ?_⟩
      · rw [callsOf_append, callsOf_calls, lockDestructors_append, h2, hdestructors, if_pos hl]
        rfl
      · rw [received_calls, received_calls, hunlock, h3, ← h4, Bool.not_eq_true]
    · exact (h.decided l (hmade hm) hl).extend (by rw [hdestructors, if_neg hl])
  · rw [hdisplay]
    refine h.display (Or.inr (he.elim (fun he => absurd he hph.2.2.1) ?_)) hph.1
    exact fun ⟨l, hm⟩ => ⟨l, hmade hm⟩
  · simp only [List.mem_append, List.mem_map] at hp
    rcases hp with (hp | ⟨q, -, he⟩) | hp
    · exact hcs.connected p hp
    · rw [hrequest] at he
      cases unlock <;> simp at he
    · exact hds.connected p hp

theorem klContextDestroyLock_eq (ctx : KlContext) :
    klContextDestroyLock ctx =
      if ctx.isLocked && !ctx.isFinished then .extSessionLockV1UnlockAndDestroy
      else .extSessionLockV1Destroy := by
  funext l
  unfold klContextDestroyLock
  cases ctx.isLocked <;> cases ctx.isFinished <;> rfl

/-- All that `kl_context_destroy` asks for before it waits. -/
theorem LockInv.destroyed {ph : Phase} {ctx : KlContext} {tr : List Item} (h : LockInv ph ctx tr)
    (hph : ph ≠ .exited) (releasable : SurfaceRef → Bool) :
    LockInv .closing (klContextDestroyObjects ctx releasable).1
      (tr ++ calls (klContextDestroyObjects ctx releasable).2) := by
  have hsurfs := lockless_of_ofSurface
    (klSurfaceDestroyAll_step ctx.refs releasable ctx.surfaces).ofSurface
  obtain ⟨cs, he, hends⟩ := klContextDestroyObjects_calls ctx releasable
  have hcs : Lockless cs := by
    intro c hc
    have h := hends c hc
    cases c <;> first
      | rfl
      | exact absurd h Bool.false_ne_true
  rw [he]
  exact h.ended .closing (klContextDestroyObjects ctx releasable).1 hsurfs hcs
    (klContextDestroyLock ctx) _ (klContextDestroyLock_eq ctx)
    (by simp) rfl rfl ⟨hph, nofun, nofun, nofun⟩

theorem lockInv_reach {s : MainState} {tr : List Item} (h : mainMachine.Reach s tr) :
    LockInv s.pc.phase s.ctx tr := by
  refine h.invariant_of (I := fun s tr => LockInv s.pc.phase s.ctx tr) mainMachine_ok ?_ ?_
  · rintro s ⟨hpc, hctx, -, -⟩
    have hnone : ∀ l, ¬LockMade [] l := by simp [LockMade]
    rw [hpc, hctx]
    refine ⟨fun _ => ⟨hnone, rfl, rfl⟩, by rintro _ ⟨⟩, fun l hm => absurd hm (hnone l),
      fun he => ?_, fun he => ?_, always_nil _, fun he => ?_⟩
    · rcases he with he | he <;> cases he
    · rcases he with he | ⟨l, hm⟩
      · cases he
      · exact absurd hm (hnone l)
    · cases he
  · intro s tr i s' out hok hinv _ hs
    obtain ⟨pre, pc, ctx, cs, hm, hstep⟩ := mainMachine_step hok.listening hs
    have hnew : ∀ p, .create p ∈ acts cs → .create p ∉ itemActs tr := fun p hp =>
      hok.not_created (unborn_of_create hm.fresh hp)
    rw [hm.pc, hm.ctx, hm.items, ← List.append_assoc]
    cases hstep with
    | deliver p d e o ctx cs hpc hp h => exact hinv.dispatched h
    | plain i pc cs hcs hmove =>
      rw [List.append_nil]
      exact hinv.extend hcs.lockless rfl rfl rfl rfl hmove
    | connect o pc hpc hpc' =>
      rw [List.append_nil]
      obtain ⟨-, h2, h3, h4⟩ := klContextInitConnect_fields o
      have hnone : ∀ l, ¬LockMade (tr ++ calls (klContextInitConnect o).2.2) l := fun l hm =>
        (hinv.early (Or.inl (by rw [hpc]; rfl))).1 l ((klContextInitConnect_lockless o).made hm)
      have hph : pc.phase ≠ .closing ∧ pc.phase ≠ .exited := by
        rcases hpc' with ⟨h, -⟩ | h <;> simp [h]
      refine ⟨fun _ => ⟨hnone, h3, h4⟩, fun l hl => ?_, fun l hm => absurd hm (hnone l),
        fun he => absurd he (by simp [hph]), fun he _ => ?_,
        atDisconnect_calls hinv.rule (klContextInitConnect_lockless o).connected,
        fun he => absurd he hph.2⟩
      · rw [h2] at hl
        cases hl
      · rcases he with he | ⟨l, hm⟩
        · rcases hpc' with ⟨-, hd⟩ | h
          · exact hd
          · rw [h] at he
            cases he
        · exact absurd hm (hnone l)
    | lock o ok ctx cs hpc h =>
      rw [List.append_nil]
      rw [hpc] at hinv
      have hl := hinv.locked hok h hnew
      cases ok <;> exact hl
    | unlock ret ok ctx cs hpc h =>
      rw [List.append_nil]
      rw [hpc] at hinv
      cases h with
      | refused => exact hinv.extend (by simp [Lockless]) rfl rfl rfl rfl .session
      | unlocked lock hl hlocked hf =>
        have hended := hinv.ended .unlocked { s.ctx with
            surfaces := (klContextDetachAll s.ctx.surfaces).1
            lock := none
            isLocked := false
            isFinished := false }
          (lockless_of_ofSurface (klContextDetachAll_step s.ctx.refs s.ctx.surfaces).ofSurface)
          (lockless_toList_map s.ctx.display .wlDisplayRoundtrip fun _ => rfl)
          .extSessionLockV1UnlockAndDestroy true rfl
          (by simp [hlocked, hf]) rfl rfl
          ⟨by rintro ⟨⟩, by rintro ⟨⟩, by rintro ⟨⟩, by rintro ⟨⟩⟩
        rw [hl, List.append_assoc] at hended
        exact hended
    | destroyObjects releasable ret hpc hd =>
      rw [List.append_nil]
      exact hinv.destroyed (by rw [hpc]; exact Phase.noConfusion) releasable
    | destroyAll releasable ret hpc hd =>
      rw [List.append_nil]
      have h := hinv.destroyed (by rw [hpc]; exact Phase.noConfusion) releasable
      -- without a display no lock was made
      have hnone : ∀ l, ¬LockMade (tr ++ calls (klContextDestroyObjects s.ctx releasable).2) l := by
        intro l hm
        have := h.display (Or.inr ⟨l, hm⟩) (by rintro ⟨⟩)
        simp [klContextDestroyObjects, hd] at this
      refine ⟨fun he => ?_, by rintro _ ⟨⟩, fun l hm => absurd hm (hnone l), fun _ => rfl,
        fun _ he => absurd rfl he, h.rule, fun _ l hm => absurd hm (hnone l)⟩
      rcases he with he | he <;> cases he
    | destroyDisplay ok ret hpc =>
      rw [List.append_nil]
      rw [hpc] at hinv
      have hgone := hinv.gone (Or.inl rfl)
      have hdecided : ∀ l, LockMade tr l → LockDecided tr l := fun l hm =>
        hinv.decided l hm (by rw [hgone]; rintro ⟨⟩)
      have hmade : ∀ {l}, LockMade (tr ++ calls (klContextDestroyDisplay s.ctx).2) l →
          LockMade tr l := by
        rintro l ⟨m, hm⟩
        refine ⟨m, (List.mem_append.mp hm).resolve_right fun hc => ?_⟩
        obtain ⟨p, -, he⟩ := List.mem_map.mp (call_mem_calls.mp hc)
        cases he
      have hnone : ∀ l, lockDestructors l (klContextDestroyDisplay s.ctx).2 = [] := by
        intro l
        unfold klContextDestroyDisplay
        cases s.ctx.display <;> rfl
      refine ⟨fun he => ?_, fun l hl => ?_,
        fun l hm _ => (hdecided l (hmade hm)).extend (hnone l), fun _ => hgone,
        fun _ he => absurd rfl he, ?_, fun _ l hm => ?_⟩
      · rcases he with he | he <;> cases he
      · rw [klContextDestroyDisplay, hgone] at hl
        cases hl
      · unfold klContextDestroyDisplay
        cases s.ctx.display with
        | none => simpa using hinv.rule
        | some display =>
          exact always_snoc.mpr ⟨hinv.rule, fun _ _ => hdecided⟩
      · obtain ⟨display, hd⟩ := Option.isSome_iff_exists.mp
          (hinv.display (Or.inr ⟨l, hmade hm⟩) (by rintro ⟨⟩))
        exact ⟨display, by simp [klContextDestroyDisplay, hd]⟩

/-! ## Every run -/

theorem lockEnded_iff {tr : List Item} {l : Proxy} (h : LockDecided tr l) :
    LockEnded tr l ↔ ¬(Received tr l .locked ∧ Received tr l .finished) := by
  obtain ⟨unlock, h1, h2⟩ := h
  have hended : LockEnded tr l ↔ (unlock = true ↔ Received tr l .locked) := by
    rw [LockEnded, h1]
    constructor
    · rintro ⟨unlock', he, hu⟩
      rw [List.cons.injEq] at he
      exact he.1 ▸ hu
    · exact fun hu => ⟨unlock, rfl, hu⟩
  rw [hended, h2]
  tauto

/-- **What a lock gets.**  In every run, a lock that was made has the right destructor
request when the display is disconnected if and only if it was not finished, or was
not locked. -/
theorem lockEnded_iff_reach {s : MainState} {tr : List Item} (h : mainMachine.Reach s tr) :
    Always (AtDisconnect fun pre l =>
      (LockEnded pre l ↔ ¬(Received pre l .locked ∧ Received pre l .finished))) tr :=
  fun pre x post he display hx l hm =>
    lockEnded_iff ((lockInv_reach h).rule pre x post he display hx l hm)

/-- In the runs allowed here no lock receives both events. -/
theorem not_both_reach {s : MainState} {tr : List Item}
    (h : mainMachine.ReachIf (fun s tr i => LockProtocol s tr i ∧ FinishedUnlocked s tr i) s tr) :
    ∀ l, ¬(Received tr l .locked ∧ Received tr l .finished) := by
  refine h.invariant_of (I := fun _ tr => ∀ l, ¬(Received tr l .locked ∧ Received tr l .finished))
    (fun h => mainMachine_ok h.reach) ?_ ?_
  · rintro s - l ⟨hl, -⟩
    cases hl
  · rintro s tr i s' out hok hinv ⟨hprotocol, hfinished⟩ hs l ⟨hl, hf⟩
    obtain ⟨pre, pc, ctx, cs, hm, hstep⟩ := mainMachine_step hok.listening hs
    rw [hm.items, ← List.append_assoc, received_calls] at hl hf
    have hold : ∀ e, Received (tr ++ []) l e → Received tr l e := fun e h => by simpa using h
    cases hstep with
    | deliver p d e o ctx cs hpc hp h =>
      have hnew : ∀ e', Received (tr ++ [Item.event p d e]) l e' →
          Received tr l e' ∨ l = p ∧ e' = e := by
        intro e' h
        simp only [Received, List.mem_append, List.mem_singleton, Item.event.injEq] at h
        exact h.imp id fun h => ⟨h.1, h.2.2⟩
      rcases hnew _ hl with hl' | ⟨rfl, rfl⟩
      · rcases hnew _ hf with hf' | ⟨rfl, rfl⟩
        · exact hinv l ⟨hl', hf'⟩
        · exact hfinished hl'
      · rcases hnew _ hf with hf' | ⟨-, he⟩
        · exact hprotocol.2 hf'
        · cases he
    | _ => exact hinv l ⟨hold _ hl, hold _ hf⟩

/-- **Locks end as their listener's contract asks**, in every run that keeps the protocol
and in which no lock is finished after it was locked. -/
theorem lock_safe {s : MainState} {tr : List Item}
    (h : mainMachine.ReachIf (fun s tr i => LockProtocol s tr i ∧ FinishedUnlocked s tr i) s tr) :
    LockSafe s tr := by
  have hinv := lockInv_reach h.reach
  refine ⟨fun pre x post he display hx l hm => ?_, fun ret hpc l hm => ?_⟩
  · refine (lockEnded_iff (hinv.rule pre x post he display hx l hm)).mpr fun hboth => ?_
    refine not_both_reach h l ?_
    rw [he]
    exact ⟨List.mem_append_left _ hboth.1, List.mem_append_left _ hboth.2⟩
  · exact hinv.exited (by rw [hpc]; rfl) l hm

theorem endedRun_meets : mainMachine.Meets
    (fun s tr i => LockProtocol s tr i ∧ FinishedUnlocked s tr i) mainStart []
    (sampleLocking ++ sampleEnding) := by
  decide

/-- The lock of the ended run was locked and is unlocked. -/
theorem lock_safe_endedRun :
    (lockDestructors 7 (callsOf endedRun.2) = [true] ∧ Received endedRun.2 7 .locked) ∧
      LockSafe endedRun.1 endedRun.2 :=
  ⟨by decide,
    lock_safe (Machine.reachIf_exec mainStart_init endedRun_meets endedRun_isSome)⟩

/-! ## A lock that is finished -/

/-- The session is on, and the compositor finishes it. -/
def sampleFinishing : List MainInput :=
  sampleLocking ++
  [MainInput.clock (some ⟨2, 0⟩),
    .prepared true,
    .flushed .done,
    .waited ⟨.events [⟨true, false, true⟩], true⟩,
    .deliver 7 .finished (sampleDraw 0 0),
    .returned true,
    .unlock,
    .destroy fun _ => true,
    .returned true]

theorem finishedRun_isSome : (mainMachine.exec mainStart sampleFinishing).isSome = true := by
  decide

def finishedRun : MainState × List Item :=
  (mainMachine.exec mainStart sampleFinishing).get finishedRun_isSome

theorem finishedRun_meets : mainMachine.Meets LockProtocol mainStart [] sampleFinishing := by
  decide

def Item.disconnects : Item → Bool
  | .call (.wlDisplayDisconnect _) => true
  | _ => false

/-- What came before the display was disconnected. -/
def beforeDisconnect (tr : List Item) : List Item := tr.takeWhile fun x => !x.disconnects

theorem lockMade_of_any {tr : List Item} {l : Proxy}
    (h : (callsOf tr).any (fun
      | .extSessionLockManagerV1Lock _ (some p) => p == l
      | _ => false) = true) : LockMade tr l := by
  obtain ⟨c, hc, hp⟩ := List.any_eq_true.mp h
  split at hp
  · rename_i manager p
    rw [← beq_iff_eq.mp hp]
    exact ⟨manager, mem_callsOf.mp hc⟩
  · cases hp

/-- **Not in every run**: the lock was locked and is given `destroy`. -/
theorem lock_destructors_finished :
    ¬∀ s tr, mainMachine.ReachIf LockProtocol s tr → LockSafe s tr := by
  intro h
  have hsafe := h _ _ (Machine.reachIf_exec mainStart_init finishedRun_meets finishedRun_isSome)
  obtain ⟨x, hx, hrule⟩ := hsafe.ended.first (p := Item.disconnects) (by decide)
  obtain ⟨display, rfl⟩ : ∃ display, x = .call (.wlDisplayDisconnect display) := by
    unfold Item.disconnects at hx
    split at hx
    · exact ⟨_, rfl⟩
    · cases hx
  obtain ⟨unlock, h1, h2⟩ := hrule display rfl 7 (lockMade_of_any (by decide))
  have hdestroy : lockDestructors 7 (callsOf (beforeDisconnect finishedRun.2)) = [false] := by
    decide
  have hlocked : Received (beforeDisconnect finishedRun.2) 7 .locked := by decide
  have he : [unlock] = [false] := h1.symm.trans hdestroy
  rw [List.cons.injEq] at he
  rw [he.1] at h2
  exact absurd (h2.mpr hlocked) Bool.false_ne_true

end Kirilock
