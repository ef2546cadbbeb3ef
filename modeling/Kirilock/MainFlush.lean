import Kirilock.MainRead

/-!
What is left in the output buffer of the display when `main` sleeps.

The loop of `main` flushes in one place, before the sleep, and goes on when the flush
reports `EAGAIN`.  The epoll descriptor does not wait for the display to become writable, so
that what was left is not sent before the compositor sends something.  The runs that never
sleep so are those in which no flush of the loop leaves anything (`sleeps_sent_iff`).
-/

namespace Kirilock

open Runs Ownership

/-! ## The output buffer -/

inductive EpollFlag where
  | epollin
  | epollout
  | epollhup
  | epollerr
  deriving DecidableEq, Repr

/-- The events of `ev_wl`. -/
def evWl : List EpollFlag := [.epollin, .epollhup, .epollerr]

/-- The events of the display that `epoll_wait` waits for. -/
def interest (tr : List Item) : List EpollFlag :=
  (callsOf tr).flatMap fun
    | .epollCtl true => evWl
    | _ => []

/-- Calls that put a request into the output buffer.  A call that returns `NULL` puts none,
and some destructors are libwayland's own. -/
def Call.queues : Call → Bool
  | .wlDisplayGetRegistry _ ret => ret.isSome
  | .wlRegistryBind _ _ _ ret => ret.isSome
  | .extSessionLockManagerV1Lock _ ret => ret.isSome
  | .extSessionLockManagerV1Destroy _ => true
  | .extSessionLockV1GetLockSurface _ _ _ ret => ret.isSome
  | .extSessionLockV1UnlockAndDestroy _ => true
  | .extSessionLockV1Destroy _ => true
  | .extSessionLockSurfaceV1AckConfigure .. => true
  | .extSessionLockSurfaceV1Destroy _ => true
  | .wlOutputRelease _ => true
  | .wlCompositorCreateSurface _ ret => ret.isSome
  | .wlSurfaceDestroy _ => true
  | .wlSurfaceSetBufferScale .. => true
  | .wlSurfaceAttach .. => true
  | .wlSurfaceDamage .. => true
  | .wlSurfaceFrame _ ret => ret.isSome
  | .wlSurfaceCommit _ => true
  | .wlShmCreatePool _ _ _ ret => ret.isSome
  | .wlShmPoolCreateBuffer _ _ _ _ ret => ret.isSome
  | .wlShmPoolDestroy _ => true
  | .wlBufferDestroy _ => true
  | _ => false

/-- Whether something is in the output buffer after an item.  A flush that is not complete
leaves something, if there was anything.  The flushes that libwayland makes by itself where
it waits are not in the loop of `main`, and `kl_context_lock_session` flushes after them. -/
def Item.unsent (left : Bool) : Item → Bool
  | .call (.wlDisplayFlush _ .done) => false
  | .call c => left || c.queues
  | .event .. => left

/-- Requests remain in the output buffer. -/
def unsent (tr : List Item) : Bool := tr.foldl Item.unsent false

/-- Nothing remains, or what remains is sent as soon as the display is writable. -/
def Sent (tr : List Item) : Prop := unsent tr = false ∨ .epollout ∈ interest tr

theorem unsent_snoc (tr : List Item) (it : Item) : unsent (tr ++ [it]) = it.unsent (unsent tr) := by
  simp [unsent]

theorem not_interest (tr : List Item) : .epollout ∉ interest tr := by
  intro h
  obtain ⟨c, -, hc⟩ := List.mem_flatMap.mp h
  split at hc
  · exact absurd hc (by decide)
  · cases hc

theorem sent_iff {tr : List Item} : Sent tr ↔ unsent tr = false :=
  or_iff_left (not_interest tr)

/-! ## The sleep -/

/-- Wherever `main` slept or is about to sleep, nothing remained unsent. -/
structure SleepsSent (s : MainState) (tr : List Item) : Prop where
  slept : Always (fun pre it => it.sleeps = true → Sent pre) tr
  sleeping : s.pc = .epollWait → Sent tr

/-- A flush of the loop leaves nothing. -/
def FlushCompletes (s : MainState) (tr : List Item) : MainInput → Prop
  | .flushed .again => s.pc = .flush → unsent tr = false
  | _ => True

instance (s : MainState) (tr : List Item) (i : MainInput) : Decidable (FlushCompletes s tr i) := by
  unfold FlushCompletes
  split <;> infer_instance

/-- Items that do not sleep say nothing of it. -/
theorem always_sent_append (tr : List Item) {out : List Item}
    (hout : ∀ it ∈ out, it.sleeps = false) :
    Always (fun pre it => it.sleeps = true → Sent pre) (tr ++ out) ↔
      Always (fun pre it => it.sleeps = true → Sent pre) tr := by
  refine always_append.trans (and_iff_left ?_)
  exact always_of_forall fun it hit _ hx => absurd (hout it hit) (by simp [hx])

/-- A step from a place where `main` does not sleep to another one. -/
theorem sleepsSent_awake {s s' : MainState} {tr out : List Item} {i : MainInput}
    (hs : s.pc ≠ .epollWait) (hs' : s'.pc ≠ .epollWait) (hout : ∀ it ∈ out, it.sleeps = false)
    (hi : FlushCompletes s tr i) :
    SleepsSent s' (tr ++ out) ↔ SleepsSent s tr ∧ FlushCompletes s tr i := by
  have hslept := always_sent_append tr hout
  constructor
  · intro h
    exact ⟨⟨hslept.mp h.slept, fun hpc => absurd hpc hs⟩, hi⟩
  · rintro ⟨h, -⟩
    exact ⟨hslept.mpr h.slept, fun hpc => absurd hpc hs'⟩

theorem flushCompletes_of_ne {s : MainState} (tr : List Item) (i : MainInput)
    (h : s.pc ≠ .flush) : FlushCompletes s tr i := by
  unfold FlushCompletes
  split
  · exact fun hpc => absurd hpc h
  · trivial

/-- **Exactly the complete flushes** keep `main` from sleeping with requests unsent. -/
theorem sleepsSent_step {s s' : MainState} {tr out : List Item} {i : MainInput}
    (hd : s.pc.phase = .session → s.ctx.display.isSome = true) (hstep : ReadStep s i s'.pc out) :
    SleepsSent s' (tr ++ out) ↔ SleepsSent s tr ∧ FlushCompletes s tr i := by
  generalize hpc : s'.pc = pc at hstep
  have hne : ∀ {pc : MainPc}, pc.reading = false → pc ≠ .epollWait ∧ pc ≠ .flush := by
    intro pc h
    constructor <;> rintro rfl <;> cases h
  cases hstep with
  | other i pc out hs hpc' hout =>
    refine sleepsSent_awake (hne hs).1 (hpc ▸ (hne hpc').1) (fun it hit => (hout it hit).2.2) ?_
    exact flushCompletes_of_ne tr i (hne hs).2
  | prepares hs =>
    obtain ⟨display, hon⟩ := calls_onDisplay (hd (by rw [hs]; rfl))
    rw [hon]
    exact sleepsSent_awake (by simp [hs]) (by simp [hpc])
      (by simp [Item.sleeps]) trivial
  | gaveUp hs =>
    obtain ⟨display, hon⟩ := calls_onDisplay (hd (by rw [hs]; rfl))
    rw [calls_append, calls_append, hon, hon]
    exact sleepsSent_awake (by simp [hs]) (by simp [hpc])
      (by simp [Item.sleeps, calls]) trivial
  | flushes ret hs hret =>
    obtain ⟨display, hon⟩ := calls_onDisplay (hd (by rw [hs]; rfl))
    rw [hon]
    have hflush : ∀ it ∈ [Item.call (.wlDisplayFlush display ret)], it.sleeps = false := by
      simp [Item.sleeps]
    have hslept := always_sent_append tr hflush
    -- the flush decides
    have hsent : Sent (tr ++ [.call (.wlDisplayFlush display ret)]) ↔
        FlushCompletes s tr (.flushed ret) := by
      rw [sent_iff, unsent_snoc]
      cases ret with
      | done => exact iff_of_true rfl trivial
      | again => simp [Item.unsent, Call.queues, FlushCompletes, hs]
      | failed => exact absurd rfl hret
    constructor
    · intro h
      exact ⟨⟨hslept.mp h.slept, fun hpc' => by rw [hs] at hpc'; cases hpc'⟩,
        hsent.mp (h.sleeping hpc)⟩
    · rintro ⟨h, hi⟩
      exact ⟨hslept.mpr h.slept, fun _ => hsent.mpr hi⟩
  | woken o pc c post hs hpc' hc hpost =>
    obtain ⟨display, hon⟩ := calls_onDisplay (hd (by rw [hs]; rfl))
    have hrest : ∀ it ∈ Item.call (c display) :: calls post, it.sleeps = false := by
      refine List.forall_mem_cons.mpr ⟨?_, fun it hit => (hpost it hit).2.2⟩
      have hc := hc display
      cases hcd : c display <;> rw [hcd] at hc <;> first
        | rfl
        | cases hc
    have hitems : tr ++ calls (.epollWait :: s.ctx.onDisplay c ++ post) =
        tr ++ [.call .epollWait] ++ (.call (c display) :: calls post) := by
      rw [List.cons_append, calls_cons, calls_append, hon, List.append_assoc]
      rfl
    rw [hitems]
    have hslept := always_sent_append (tr ++ [.call .epollWait]) hrest
    rw [always_snoc] at hslept
    constructor
    · intro h
      obtain ⟨h1, h2⟩ := hslept.mp h.slept
      exact ⟨⟨h1, fun _ => h2 rfl⟩, trivial⟩
    · rintro ⟨h, -⟩
      exact ⟨hslept.mpr ⟨h.slept, fun _ => h.sleeping hs⟩,
        fun hpc'' => absurd (hpc.symm.trans hpc'') (hne hpc').1⟩

/-- **The runs that never sleep with requests unsent** are those in which every flush of the
loop is complete. -/
theorem sleeps_sent_iff {s : MainState} {tr : List Item} :
    mainMachine.ReachIf FlushCompletes s tr ↔ mainMachine.Reach s tr ∧ SleepsSent s tr := by
  refine Machine.reachIf_iff ?_ fun s tr i s' out hr hs => ?_
  · rintro s ⟨hpc, -⟩
    exact ⟨always_nil _, fun h => by rw [hpc] at h; cases h⟩
  · exact sleepsSent_step (fun hpc => display_reach hr (Or.inr hpc))
      (mainMachine_reads (mainMachine_ok hr).listening hs)

/-- The second output is configured in the session, and the flush that follows leaves its
requests. -/
def sampleCongested : List MainInput :=
  sampleLocking ++ [MainInput.clock (some ⟨2, 0⟩),
    .prepared true,
    .flushed .done,
    .waited ⟨.events [⟨true, false, true⟩], true⟩,
    .deliver 32 (.configure 2 800 600) (sampleDraw 40 41),
    .returned true,
    .clock (some ⟨3, 0⟩),
    .prepared true,
    .flushed .again]

theorem congestedRun_isSome : (mainMachine.exec mainStart sampleCongested).isSome = true := by
  decide

def congestedRun : MainState × List Item :=
  (mainMachine.exec mainStart sampleCongested).get congestedRun_isSome

/-- **Not in every run**: `main` sleeps with the requests of a configure unsent. -/
theorem sleep_unsent : ¬∀ s tr, mainMachine.Reach s tr → s.pc = .epollWait → Sent tr := by
  intro h
  have hreach : mainMachine.Reach congestedRun.1 congestedRun.2 :=
    Machine.reach_exec mainStart_init congestedRun_isSome
  have hsent := sent_iff.mp (h _ _ hreach (by decide))
  have hleft : unsent congestedRun.2 = true := by decide
  exact absurd (hleft.symm.trans hsent) nofun

end Kirilock
