import Kirilock.MainRead
import Kirilock.MainFinish
import Kirilock.MainClock
import Kirilock.Ranking

/-!
How `main` ends.

`EpollStep` says what a step does to the epoll descriptor and to the status that `main` is
going to return.  The descriptor is open just while `main` is in its loop
(`main_epoll_held`), and the status is 0 just where the loop was entered, which takes a
`locked` event (`main_exit_status`).  From the unlocking on four steps are left, however
many events are dispatched, and the end can be reached from everywhere
(`main_teardown_ends`).
-/

namespace Kirilock

open Runs Ownership

/-! ## Before, in and after the loop -/

inductive Stage where
  | before
  | loop
  | ended (ret : Int32)
  deriving DecidableEq

def MainPc.stage : MainPc → Stage
  | .unlock ret => .ended ret
  | .unlockRoundtrip ret => .ended ret
  | .destroy ret => .ended ret
  | .destroyRoundtrip ret => .ended ret
  | .exited ret => .ended ret
  | pc => if pc.inLoop then .loop else .before

/-- The epoll descriptor is created. -/
def Item.opensEpoll : Item → Bool
  | .call (.epollCreate ok) => ok
  | _ => false

def Item.closesEpoll : Item → Bool
  | .call .closeEpoll => true
  | _ => false

/-- The display is registered with it. -/
def Item.registers : Item → Bool
  | .call (.epollCtl ok) => ok
  | _ => false

/-- The descriptor is open. -/
def epollOpen (tr : List Item) : Bool := isOpen Item.opensEpoll Item.closesEpoll tr

/-- Items that neither open, close nor register. -/
def Idle (out : List Item) : Prop :=
  ∀ it ∈ out, it.opensEpoll = false ∧ it.closesEpoll = false ∧ it.registers = false

def Sleepless (out : List Item) : Prop := ∀ it ∈ out, it.sleeps = false

theorem Idle.append {tr out : List Item} (h1 : Idle tr) (h2 : Idle out) : Idle (tr ++ out) :=
  List.forall_mem_append.mpr ⟨h1, h2⟩

theorem Idle.neither {out : List Item} (h : Idle out) :
    ∀ it ∈ out, it.opensEpoll = false ∧ it.closesEpoll = false :=
  fun it hit => ⟨(h it hit).1, (h it hit).2.1⟩

theorem Idle.not_registers {out : List Item} (h : Idle out) : out.any Item.registers = false := by
  rw [List.any_eq_false]
  intro it hit
  rw [(h it hit).2.2]
  exact Bool.false_ne_true

theorem Idle.opens {out : List Item} (h : Idle out) : out.countP Item.opensEpoll = 0 := by
  rw [List.countP_eq_zero]
  intro it hit
  rw [(h it hit).1]
  exact Bool.false_ne_true

theorem Outside.idle {cs : List Call} (h : Outside cs) : Idle (calls cs) := by
  intro it hit
  obtain ⟨c, hc, rfl⟩ := List.mem_map.mp hit
  have hc := h c hc
  cases c <;> first
    | exact ⟨rfl, rfl, rfl⟩
    | cases hc

theorem Outside.sleepless {cs : List Call} (h : Outside cs) : Sleepless (calls cs) :=
  fun it hit => (h.readless it hit).2.2

theorem idle_onDisplay (ctx : KlContext) (f : Proxy → Call)
    (h : ∀ p, (Item.call (f p)).opensEpoll = false ∧ (Item.call (f p)).closesEpoll = false ∧
      (Item.call (f p)).registers = false) : Idle (calls (ctx.onDisplay f)) := by
  intro it hit
  obtain ⟨c, hc, rfl⟩ := List.mem_map.mp hit
  obtain ⟨p, -, rfl⟩ := List.mem_map.mp hc
  exact h p

theorem sleepless_onDisplay (ctx : KlContext) (f : Proxy → Call)
    (h : ∀ p, (Item.call (f p)).sleeps = false) : Sleepless (calls (ctx.onDisplay f)) := by
  intro it hit
  obtain ⟨c, hc, rfl⟩ := List.mem_map.mp hit
  obtain ⟨p, -, rfl⟩ := List.mem_map.mp hc
  exact h p

/-! ## The steps -/

/-- What a step does to the descriptor and the status. -/
inductive EpollStep (s : MainState) (pc : MainPc) : List Item → Prop
  | stays (out : List Item) (hpc : pc.stage = s.pc.stage) (hout : Idle out)
      (hsleep : s.pc.stage = .loop ∨ Sleepless out)
      (hsetup : pc = .setup → s.pc = .lockFlush ∧ s.ctx.isLocked = true) : EpollStep s pc out
  | failed (out : List Item) (hs : s.pc.stage = .before) (hpc : pc.stage = .ended (-1))
      (hout : Idle out) (hsleep : Sleepless out) : EpollStep s pc out
  | dropped (cs : List Call) (hs : s.pc = .setup) (hpc : pc.stage = .ended (-1))
      (hcs : Idle (calls cs)) (hsleep : Sleepless (calls cs)) :
      EpollStep s pc (calls (cs ++ [.epollCreate true, .epollCtl false, .closeEpoll]))
  | entered (cs : List Call) (hs : s.pc = .setup) (hpc : pc.stage = .loop)
      (hcs : Idle (calls cs)) (hsleep : Sleepless (calls cs)) :
      EpollStep s pc (calls (cs ++ [.epollCreate true, .epollCtl true]))
  | left (cs : List Call) (hs : s.pc.stage = .loop) (hpc : pc.stage = .ended 0)
      (hcs : Idle (calls cs)) : EpollStep s pc (calls (cs ++ [.closeEpoll]))

/-- The loop goes on. -/
theorem EpollStep.loops {s : MainState} {pc : MainPc} {cs : List Call}
    (hs : s.pc.stage = .loop) (hpc : pc.stage = .loop) (hcs : Idle (calls cs)) :
    EpollStep s pc (calls cs) := by
  refine .stays _ (hpc.trans hs.symm) hcs (Or.inl hs) ?_
  rintro rfl
  cases hpc

/-- A move that is not about the descriptor. -/
theorem EpollStep.quiet {s : MainState} {pc : MainPc} {cs : List Call}
    (hst : pc.stage = s.pc.stage ∨ s.pc.stage = .before ∧ pc.stage = .ended (-1))
    (hcs : Idle (calls cs) ∧ Sleepless (calls cs))
    (hsetup : pc = .setup → s.pc = .lockFlush ∧ s.ctx.isLocked = true) :
    EpollStep s pc (calls cs) := by
  rcases hst with hst | ⟨hs, hpc⟩
  · exact .stays _ hst hcs.1 (Or.inr hcs.2) hsetup
  · exact .failed _ hs hpc hcs.1 hcs.2

theorem SetupFails.epoll {s : MainState} {o : SetupOutcomes} {cs : List Call}
    (h : SetupFails s o cs) (hpc : s.pc = .setup) : EpollStep s (.unlock (-1)) (calls cs) := by
  have hs : s.pc.stage = .before := by rw [hpc]; rfl
  have hfd : Idle (calls (s.ctx.onDisplay (.wlDisplayGetFd · o.getFd))) :=
    idle_onDisplay _ _ fun _ => ⟨rfl, rfl, rfl⟩
  have hsleep : Sleepless (calls (s.ctx.onDisplay (.wlDisplayGetFd · o.getFd))) :=
    sleepless_onDisplay _ _ fun _ => rfl
  cases h with
  | getFd => exact .failed _ hs rfl hfd hsleep
  | epollCreate =>
    rw [calls_append]
    exact .failed _ hs rfl (hfd.append (List.forall_mem_singleton.mpr ⟨rfl, rfl, rfl⟩))
      (List.forall_mem_append.mpr ⟨hsleep, List.forall_mem_singleton.mpr rfl⟩)
  | epollCtl => exact .dropped _ hpc rfl hfd hsleep

theorem LeavesLoop.epoll {s : MainState} {i : MainInput} {cs : List Call}
    (h : LeavesLoop s i cs) : s.pc.stage = .loop ∧ Idle (calls cs) := by
  cases h with
  | expired ts hpc | drainFailed hpc | dispatchFailed ok hpc =>
    exact ⟨by rw [hpc]; rfl, List.forall_mem_nil _⟩
  | flushFailed hpc =>
    refine ⟨by rw [hpc]; rfl, ?_⟩
    rw [calls_append]
    exact (idle_onDisplay _ _ fun _ => ⟨rfl, rfl, rfl⟩).append
      (idle_onDisplay _ _ fun _ => ⟨rfl, rfl, rfl⟩)
  | waitFailed o hpc | readFailed o hpc =>
    exact ⟨by rw [hpc]; rfl, List.forall_mem_cons.mpr
      ⟨⟨rfl, rfl, rfl⟩, idle_onDisplay _ _ fun _ => ⟨rfl, rfl, rfl⟩⟩⟩

theorem Passes.epoll {s : MainState} {i : MainInput} {pc : MainPc} {ctx : KlContext}
    {cs : List Call} {start : UInt64} (h : Passes s i pc ctx cs start)
    (hwf : ∀ surf ∈ s.ctx.surfaces, surf.WellFormed) : EpollStep s pc (calls cs) := by
  have hnone : Idle (calls []) ∧ Sleepless (calls []) :=
    ⟨List.forall_mem_nil _, List.forall_mem_nil _⟩
  have hdisplay : ∀ f : Proxy → Call, (∀ p, (f p).ofLoop = false) →
      Idle (calls (s.ctx.onDisplay f)) ∧ Sleepless (calls (s.ctx.onDisplay f)) := by
    intro f hf
    have ho : Outside (s.ctx.onDisplay f) := outside_toList_map _ _ hf
    exact ⟨ho.idle, ho.sleepless⟩
  have hread : ∀ f : Proxy → Call, (∀ p, (Item.call (f p)).opensEpoll = false ∧
      (Item.call (f p)).closesEpoll = false ∧ (Item.call (f p)).registers = false) →
      Idle (calls (s.ctx.onDisplay f)) := idle_onDisplay s.ctx
  cases h with
  | connects o hpc =>
    have ho := klContextInitConnect_outside o
    refine .quiet ?_ ⟨ho.idle, ho.sleepless⟩ ?_
    · rw [hpc]
      split
      · exact Or.inl rfl
      · exact Or.inr ⟨rfl, rfl⟩
    · split <;> intro he <;> cases he
  | locks o hpc =>
    have ho := (klContextLockSession_step hwf o).outside
    refine .quiet ?_ ⟨ho.idle, ho.sleepless⟩ ?_
    · rw [hpc]
      split
      · exact Or.inl rfl
      · exact Or.inr ⟨rfl, rfl⟩
    · split <;> intro he <;> cases he
  | checks ok hpc | dispatched ok hpc =>
    refine .quiet ?_ hnone ?_
    · rw [hpc]
      split
      · exact Or.inl rfl
      · exact Or.inr ⟨rfl, rfl⟩
    · split <;> intro he <;> cases he
  | awaits hpc =>
    exact .quiet (Or.inl (by rw [hpc]; rfl)) (hdisplay _ fun _ => rfl) (fun he => by cases he)
  | awaited hpc | unlocked ok ret hpc =>
    exact .quiet (Or.inl (by rw [hpc]; rfl)) hnone (fun he => by cases he)
  | locked ret hpc hl =>
    exact .quiet (Or.inl (by rw [hpc]; rfl)) (hdisplay _ fun _ => rfl) fun _ => ⟨hpc, hl⟩
  | refused ret hpc =>
    exact .quiet (Or.inr ⟨by rw [hpc]; rfl, rfl⟩) (hdisplay _ fun _ => rfl)
      (fun he => by cases he)
  | fails o cs hpc h => exact h.epoll hpc
  | enters o hpc ho =>
    exact .entered _ hpc rfl (hread _ fun _ => ⟨rfl, rfl, rfl⟩)
      (sleepless_onDisplay _ _ fun _ => rfl)
  | ticks ts hpc | drained hpc | goesOn hpc hf => exact .loops (by rw [hpc]; rfl) rfl hnone.1
  | prepares hpc | flushes ret hpc hret =>
    exact .loops (by rw [hpc]; rfl) rfl (hread _ fun _ => ⟨rfl, rfl, rfl⟩)
  | drains hpc =>
    refine .loops (by rw [hpc]; rfl) rfl ?_
    rw [calls_append]
    exact (hread _ fun _ => ⟨rfl, rfl, rfl⟩).append (hread _ fun _ => ⟨rfl, rfl, rfl⟩)
  | cancels o hpc =>
    exact .loops (by rw [hpc]; rfl) rfl (List.forall_mem_cons.mpr
      ⟨⟨rfl, rfl, rfl⟩, hread _ fun _ => ⟨rfl, rfl, rfl⟩⟩)
  | reads o hpc =>
    refine .loops (by rw [hpc]; rfl) rfl ?_
    rw [calls_append]
    have hwait : Idle (calls
        (.epollWait :: s.ctx.onDisplay (.wlDisplayReadEvents · o.readEvents))) :=
      List.forall_mem_cons.mpr ⟨⟨rfl, rfl, rfl⟩, hread _ fun _ => ⟨rfl, rfl, rfl⟩⟩
    exact hwait.append (hread _ fun _ => ⟨rfl, rfl, rfl⟩)
  | leaves h => exact .left _ h.epoll.1 rfl h.epoll.2
  | unlocks ret hpc =>
    have ho := (klContextUnlockSession_step s.ctx).outside
    refine .quiet (Or.inl ?_) ⟨ho.idle, ho.sleepless⟩ ?_
    · rw [hpc]
      split <;> rfl
    · split <;> intro he <;> cases he
  | destroys releasable ret hpc hd | destroysAll releasable ret hpc hd =>
    have ho := klContextDestroyObjects_outside s.ctx releasable
    exact .quiet (Or.inl (by rw [hpc]; rfl)) ⟨ho.idle, ho.sleepless⟩ (fun he => by cases he)
  | disconnects ok ret hpc =>
    have ho := klContextDestroyDisplay_outside s.ctx
    exact .quiet (Or.inl (by rw [hpc]; rfl)) ⟨ho.idle, ho.sleepless⟩ (fun he => by cases he)

/-- **What a step does to the descriptor and the status.** -/
theorem mainMachine_epoll {s s' : MainState} {i : MainInput} {out : List Item}
    (hl : s.Listening) (h : mainMachine.step s i = some (s', out)) : EpollStep s s'.pc out := by
  by_cases hi : ∃ p e o, i = .deliver p e o
  · obtain ⟨p, e, o, rfl⟩ := hi
    obtain ⟨d, ctx, cs, hpc, -, -, hd, hm⟩ := mainMachine_deliver hl h
    rw [hm.pc, hm.items]
    refine .stays _ rfl ?_ (Or.inr ?_) fun he => ?_
    · exact List.forall_mem_append.mpr
        ⟨List.forall_mem_singleton.mpr ⟨rfl, rfl, rfl⟩, hd.outside.idle⟩
    · exact List.forall_mem_append.mpr
        ⟨List.forall_mem_singleton.mpr rfl, hd.outside.sleepless⟩
    · rw [he] at hpc
      cases hpc
  · obtain ⟨pc, ctx, cs, hm, hp⟩ := mainMachine_passes h fun p e o he => hi ⟨p, e, o, he⟩
    rw [hm.pc, hm.items]
    exact hp.epoll hl.2.2

/-! ## The descriptor in every run -/

/-- `epoll_wait` is called on an open descriptor. -/
def SleepRule (pre : List Item) (it : Item) : Prop := it.sleeps = true → epollOpen pre = true

structure EpollFacts (tr : List Item) (o : Bool) (n : Nat) : Prop where
  turns : Alternate Item.opensEpoll Item.closesEpoll tr
  count : tr.countP Item.opensEpoll = n
  isOpen : epollOpen tr = o
  slept : Always SleepRule tr

theorem EpollFacts.append {tr out : List Item} {o : Bool} {n : Nat} (h : EpollFacts tr o n)
    (hout : ∀ it ∈ out, it.opensEpoll = false ∧ it.closesEpoll = false)
    (hsleep : o = true ∨ Sleepless out) : EpollFacts (tr ++ out) o n := by
  have hcount : out.countP Item.opensEpoll = 0 := by
    rw [List.countP_eq_zero]
    intro it hit
    rw [(hout it hit).1]
    exact Bool.false_ne_true
  refine ⟨h.turns.append_of_neither hout, ?_, ?_, always_append.mpr ⟨h.slept, ?_⟩⟩
  · rw [List.countP_append, hcount, h.count, Nat.add_zero]
  · rw [← h.isOpen]
    exact isOpen_append_of_neither hout
  · rintro pre it post rfl hit
    rcases hsleep with rfl | hsleep
    · have hpre : epollOpen (tr ++ pre) = epollOpen tr :=
        isOpen_append_of_neither fun x hx => hout x (List.mem_append_left _ hx)
      exact hpre.trans h.isOpen
    · have hfalse := hsleep it (by simp)
      rw [hit] at hfalse
      cases hfalse

theorem EpollFacts.opened {tr : List Item} {n : Nat} (h : EpollFacts tr false n) :
    EpollFacts (tr ++ [.call (.epollCreate true)]) true (n + 1) := by
  refine ⟨h.turns.opened h.isOpen rfl, ?_, ?_, always_snoc.mpr ⟨h.slept, nofun⟩⟩
  · rw [List.countP_append, h.count]
    rfl
  · rw [epollOpen, isOpen_snoc]
    rfl

theorem EpollFacts.closed {tr : List Item} {n : Nat} (h : EpollFacts tr true n) :
    EpollFacts (tr ++ [.call .closeEpoll]) false n := by
  refine ⟨h.turns.closed h.isOpen rfl, ?_, ?_, always_snoc.mpr ⟨h.slept, nofun⟩⟩
  · rw [List.countP_append, h.count]
    rfl
  · rw [epollOpen, isOpen_snoc]
    rfl

/-- The registration of the display neither opens nor closes. -/
theorem EpollFacts.registered {tr : List Item} {o : Bool} {n : Nat} (h : EpollFacts tr o n)
    (ok : Bool) : EpollFacts (tr ++ [.call (.epollCtl ok)]) o n :=
  h.append (List.forall_mem_singleton.mpr ⟨rfl, rfl⟩)
    (Or.inr (List.forall_mem_singleton.mpr rfl))

theorem Received.append {tr : List Item} {l : Proxy} {e : ProxyEvent} (h : Received tr l e)
    (out : List Item) : Received (tr ++ out) l e :=
  List.mem_append_left out h

/-- `is_locked` says that a lock was locked. -/
theorem received_reach {s : MainState} {tr : List Item} (h : mainMachine.Reach s tr) :
    s.ctx.isLocked = true → ∃ l, Received tr l .locked := by
  refine h.invariant_of (J := MainOk)
    (I := fun s tr => s.ctx.isLocked = true → ∃ l, Received tr l .locked) mainMachine_ok ?_ ?_
  · rintro s ⟨-, hctx, -, -⟩ hl
    rw [hctx] at hl
    cases hl
  · intro s tr i s' out hok hinv _ hs hl
    obtain ⟨pre, pc, ctx, cs, hm, hstep⟩ := mainMachine_step hok.listening hs
    rw [hm.ctx] at hl
    have hkeep : s.ctx.isLocked = true → ∃ l, Received (tr ++ out) l .locked := by
      intro hlocked
      obtain ⟨l, hr⟩ := hinv hlocked
      exact ⟨l, hr.append out⟩
    cases hstep with
    | deliver p d e o ctx cs hpc hp hd =>
      rcases hd.flags.1.mp hl with hlocked | ⟨rfl, rfl⟩
      · exact hkeep hlocked
      · rw [hm.items]
        exact ⟨p, List.mem_append_right _ List.mem_cons_self⟩
    | plain | destroyObjects => exact hkeep hl
    | connect o pc hpc =>
      rw [(klContextInitConnect_fields o).2.2.1] at hl
      cases hl
    | lock o ok ctx cs hpc h => cases h <;> exact hkeep hl
    | unlock ret ok ctx cs hpc h =>
      cases h with
      | refused => exact hkeep hl
      | unlocked => cases hl
    | destroyAll | destroyDisplay => cases hl

structure EpollInv (pc : MainPc) (tr : List Item) : Prop where
  facts : ∃ n, EpollFacts tr (decide (pc.stage = .loop)) n ∧ n ≤ 1 ∧ (pc.stage = .before → n = 0)
  before : pc.stage = .before → tr.any Item.registers = false
  loop : pc.stage = .loop → tr.any Item.registers = true
  ended : ∀ ret, pc.stage = .ended ret → ret = if tr.any Item.registers then 0 else -1
  locked : tr.any Item.registers = true ∨ pc = .setup → ∃ l, Received tr l .locked

theorem Idle.any_append {out : List Item} (h : Idle out) (tr : List Item) :
    (tr ++ out).any Item.registers = tr.any Item.registers := by
  rw [List.any_append, h.not_registers, Bool.or_false]

theorem EpollInv.step {s : MainState} {pc : MainPc} {tr out : List Item}
    (hinv : EpollInv s.pc tr) (h : EpollStep s pc out)
    (hlocked : s.pc = .lockFlush → s.ctx.isLocked = true → ∃ l, Received tr l .locked) :
    EpollInv pc (tr ++ out) := by
  obtain ⟨n, hfacts, hn, hzero⟩ := hinv.facts
  have hkeep : (∃ l, Received tr l .locked) → ∃ l, Received (tr ++ out) l .locked :=
    fun ⟨l, hl⟩ => ⟨l, hl.append out⟩
  cases h with
  | stays out hpc hout hsleep hsetup =>
    have hany := hout.any_append tr
    refine ⟨⟨n, ?_, hn, ?_⟩, ?_, ?_, ?_, ?_⟩
    · rw [hpc]
      refine hfacts.append hout.neither ?_
      rcases hsleep with hs | hs
      · exact Or.inl (by rw [hs]; rfl)
      · exact Or.inr hs
    · rw [hpc]
      exact hzero
    · rw [hpc, hany]
      exact hinv.before
    · rw [hpc, hany]
      exact hinv.loop
    · rw [hpc, hany]
      exact hinv.ended
    · rw [hany]
      rintro (hr | he)
      · exact hkeep (hinv.locked (Or.inl hr))
      · obtain ⟨hs, hl⟩ := hsetup he
        exact hkeep (hlocked hs hl)
  | failed out hs hpc hout hsleep =>
    have hany := hout.any_append tr
    have hbefore := hinv.before hs
    rw [hs] at hfacts
    refine ⟨⟨n, ?_, hn, ?_⟩, ?_, ?_, ?_, ?_⟩
    · rw [hpc]
      exact hfacts.append hout.neither (Or.inr hsleep)
    · rw [hpc]
      nofun
    · rw [hpc]
      nofun
    · rw [hpc]
      nofun
    · intro ret hret
      rw [hpc] at hret
      cases hret
      rw [hany, hbefore]
      rfl
    · rw [hany, hbefore]
      rintro (hr | rfl)
      · cases hr
      · cases hpc
  | dropped cs hs hpc hcs hsleep =>
    have hstage : s.pc.stage = .before := by rw [hs]; rfl
    have hbefore := hinv.before hstage
    rw [hstage] at hfacts
    have hout : tr ++ calls (cs ++ [.epollCreate true, .epollCtl false, .closeEpoll]) =
        tr ++ calls cs ++ [.call (.epollCreate true)] ++ [.call (.epollCtl false)] ++
          [.call .closeEpoll] := by
      simp
    have hany : (tr ++ calls (cs ++ [.epollCreate true, .epollCtl false,
        .closeEpoll])).any Item.registers = false := by
      rw [hout, List.any_append, List.any_append, List.any_append, hcs.any_append, hbefore]
      rfl
    refine ⟨⟨n + 1, ?_, ?_, ?_⟩, ?_, ?_, ?_, ?_⟩
    · rw [hpc, hout]
      exact (((hfacts.append hcs.neither (Or.inr hsleep)).opened).registered false).closed
    · have hn0 := hzero hstage
      omega
    · rw [hpc]
      nofun
    · rw [hpc]
      nofun
    · rw [hpc]
      nofun
    · intro ret hret
      rw [hpc] at hret
      cases hret
      rw [hany]
      rfl
    · rw [hany]
      rintro (hr | rfl)
      · cases hr
      · cases hpc
  | entered cs hs hpc hcs hsleep =>
    have hstage : s.pc.stage = .before := by rw [hs]; rfl
    rw [hstage] at hfacts
    have hout : tr ++ calls (cs ++ [.epollCreate true, .epollCtl true]) =
        tr ++ calls cs ++ [.call (.epollCreate true)] ++ [.call (.epollCtl true)] := by
      simp
    have hany : (tr ++ calls (cs ++ [.epollCreate true, .epollCtl true])).any
        Item.registers = true := by
      rw [hout, List.any_append]
      exact Bool.or_true _
    refine ⟨⟨n + 1, ?_, ?_, ?_⟩, ?_, ?_, ?_, ?_⟩
    · rw [hpc, hout]
      exact ((hfacts.append hcs.neither (Or.inr hsleep)).opened).registered true
    · have hn0 := hzero hstage
      omega
    · rw [hpc]
      nofun
    · rw [hpc]
      nofun
    · exact fun _ => hany
    · rw [hpc]
      nofun
    · exact fun _ => hkeep (hinv.locked (Or.inr hs))
  | left cs hs hpc hcs =>
    rw [hs] at hfacts
    have hout : tr ++ calls (cs ++ [.closeEpoll]) = tr ++ calls cs ++ [.call .closeEpoll] := by
      simp
    have hany : (tr ++ calls (cs ++ [.closeEpoll])).any Item.registers = true := by
      rw [hout, List.any_append, hcs.any_append, hinv.loop hs]
      rfl
    refine ⟨⟨n, ?_, hn, ?_⟩, ?_, ?_, ?_, ?_⟩
    · rw [hpc, hout]
      exact (hfacts.append hcs.neither (Or.inl rfl)).closed
    · rw [hpc]
      nofun
    · rw [hpc]
      nofun
    · rw [hpc]
      nofun
    · intro ret hret
      rw [hpc] at hret
      cases hret
      rw [hany]
      rfl
    · exact fun _ => hkeep (hinv.locked (Or.inl (hinv.loop hs)))

theorem epollInv_reach {s : MainState} {tr : List Item} (h : mainMachine.Reach s tr) :
    EpollInv s.pc tr := by
  refine h.invariant_of (J := mainMachine.Reach) (I := fun s tr => EpollInv s.pc tr) id ?_ ?_
  · rintro s ⟨hpc, -, -, -⟩
    rw [hpc]
    refine ⟨⟨0, ⟨always_nil _, rfl, rfl, always_nil _⟩, Nat.zero_le _, fun _ => rfl⟩,
      fun _ => rfl, nofun, nofun, ?_⟩
    rintro (hr | he)
    · cases hr
    · cases he
  · intro s tr i s' out hr hinv _ hs
    exact hinv.step (mainMachine_epoll (mainMachine_ok hr).listening hs) fun _ =>
      received_reach hr

/-- How `main` holds its epoll descriptor. -/
structure EpollHeld (s : MainState) (tr : List Item) : Prop where
  /-- it is closed after it was opened, once … -/
  turns : Alternate Item.opensEpoll Item.closesEpoll tr
  /-- … and opened once … -/
  once : tr.countP Item.opensEpoll ≤ 1
  /-- … it is open just while `main` is in its loop … -/
  open_iff : epollOpen tr = true ↔ s.pc.stage = .loop
  /-- … and `epoll_wait` is called while it is -/
  slept : Always SleepRule tr

/-- **The epoll descriptor of `main`** in every run: in particular it is closed before the
session is unlocked, on every way out. -/
theorem main_epoll_held {s : MainState} {tr : List Item} (h : mainMachine.Reach s tr) :
    EpollHeld s tr := by
  obtain ⟨n, hfacts, hn, -⟩ := (epollInv_reach h).facts
  refine ⟨hfacts.turns, ?_, ?_, hfacts.slept⟩
  · rw [hfacts.count]
    exact hn
  · rw [hfacts.isOpen, decide_eq_true_iff]

/-- The ended run opened its descriptor and closed it. -/
theorem main_epoll_held_endedRun :
    endedRun.2.countP Item.opensEpoll = 1 ∧ EpollHeld endedRun.1 endedRun.2 :=
  ⟨by decide, main_epoll_held endedRun_reach⟩

/-- What the status of `main` says. -/
structure ExitStatus (s : MainState) (tr : List Item) : Prop where
  /-- from the end of the loop on it is decided: 0 where the loop was entered, else -1 -/
  decided : ∀ ret, s.pc.stage = .ended ret → ret = if tr.any Item.registers then 0 else -1
  /-- and the loop is entered with a session that was locked -/
  locked : tr.any Item.registers = true → ∃ l, Received tr l .locked

/-- **The status of `main`**: it returns 0 just where it has entered its loop, and then the
compositor has locked the session. -/
theorem main_exit_status {s : MainState} {tr : List Item} (h : mainMachine.Reach s tr) :
    ExitStatus s tr :=
  ⟨(epollInv_reach h).ended, fun hr => (epollInv_reach h).locked (Or.inl hr)⟩

theorem main_exit_status_endedRun :
    endedRun.1.pc = .exited 0 ∧ ExitStatus endedRun.1 endedRun.2 :=
  ⟨by decide, main_exit_status endedRun_reach⟩

/-! ## The way to the end -/

def createsProxy : Act Proxy Listener → Bool
  | .create _ => true
  | _ => false

/-- A call that brings nothing new. -/
def Call.barren (c : Call) : Bool := !c.acts.any createsProxy && c.allocates.isNone

def Barren (cs : List Call) : Prop := ∀ c ∈ cs, c.barren = true

theorem Barren.append {cs ds : List Call} (h1 : Barren cs) (h2 : Barren ds) : Barren (cs ++ ds) :=
  List.forall_mem_append.mpr ⟨h1, h2⟩

theorem Barren.flatMap {α : Type} {l : List α} {f : α → List Call} (h : ∀ x, Barren (f x)) :
    Barren (l.flatMap f) := by
  intro c hc
  obtain ⟨x, -, hc⟩ := List.mem_flatMap.mp hc
  exact h x c hc

theorem barren_toList_map {α : Type} (x : Option α) (f : α → Call) (h : ∀ a, (f a).barren = true) :
    Barren (x.toList.map f) := by
  intro c hc
  obtain ⟨a, -, rfl⟩ := List.mem_map.mp hc
  exact h a

theorem fresh_of_no_create {as : List (Act Proxy Listener)} (h : ∀ a ∈ as, createsProxy a = false)
    (t : Table Proxy Listener) : Fresh t as := by
  induction as generalizing t with
  | nil => trivial
  | cons a as ih =>
    obtain ⟨ha, has⟩ := List.forall_mem_cons.mp h
    refine ⟨?_, ih has _⟩
    cases a with
    | create p => cases ha
    | _ => trivial

/-- Calls that bring nothing new are never refused. -/
theorem MainState.move_barren (s : MainState) (pre : List Item) (pc : MainPc) (ctx : KlContext)
    {cs : List Call} (h : Barren cs) :
    ∃ s' out, s.move pre pc ctx cs = some (s', out) ∧ s'.pc = pc := by
  have hbarren : ∀ c ∈ cs, (∀ a ∈ c.acts, createsProxy a = false) ∧ c.allocates = none := by
    intro c hc
    have hc := h c hc
    simpa [Call.barren] using hc
  have hacts : Fresh s.table (acts cs) := by
    refine fresh_of_no_create (fun a ha => ?_) _
    obtain ⟨c, hc, hm⟩ := List.mem_flatMap.mp ha
    exact (hbarren c hc).1 a hm
  have halloc : cs.filterMap Call.allocates = [] :=
    List.filterMap_eq_nil_iff.mpr fun c hc => (hbarren c hc).2
  refine ⟨_, _, if_pos ⟨hacts, ?_⟩, rfl⟩
  rw [halloc]
  nofun

theorem klBufferDestroy_barren (self : BufferRef) (buf : KlBuffer) :
    Barren (klBufferDestroy self buf).2 := by
  refine List.forall_mem_cons.mpr ⟨rfl, Barren.append (Barren.append (Barren.append ?_ ?_) ?_) ?_⟩
  · exact barren_toList_map _ _ fun _ => rfl
  · exact barren_toList_map _ _ fun _ => rfl
  · exact barren_toList_map _ _ fun _ => rfl
  · split
    · exact List.forall_mem_singleton.mpr rfl
    · nofun

theorem klSurfaceDetachBuffers_barren (surf : KlSurface) (is : List Slot) :
    Barren (klSurfaceDetachBuffers surf is).2 := by
  induction is generalizing surf with
  | nil => nofun
  | cons i is ih => exact (klBufferDestroy_barren _ _).append (ih _)

theorem klSurfaceDetachLock_barren (surf : KlSurface) : Barren (klSurfaceDetachLock surf).2 := by
  refine Barren.append (Barren.append (Barren.append (List.forall_mem_cons.mpr ⟨rfl, ?_⟩) ?_) ?_) ?_
  · exact barren_toList_map _ _ fun _ => rfl
  · exact klSurfaceDetachBuffers_barren _ _
  · exact barren_toList_map _ _ fun _ => rfl
  · exact barren_toList_map _ _ fun _ => rfl

theorem klRenderEngineDestroy_barren (engine : Option KlRenderEngine) :
    Barren (klRenderEngineDestroy engine) := by
  cases engine with
  | none => nofun
  | some engine =>
    refine Barren.append (Barren.append ?_ ?_) (List.forall_mem_singleton.mpr rfl)
    · exact barren_toList_map _ _ fun _ => rfl
    · exact barren_toList_map _ _ fun _ => rfl

theorem wlOutputDrop_barren (output : Proxy) (releasable : Bool) :
    Barren (wlOutputDrop output releasable) := by
  refine List.forall_mem_cons.mpr ⟨rfl, List.forall_mem_singleton.mpr ?_⟩
  split <;> rfl

theorem klSurfaceDestroy_barren (surf : KlSurface) (releasable : Bool) :
    Barren (klSurfaceDestroy surf releasable) :=
  (((klSurfaceDetachLock_barren surf).append (klRenderEngineDestroy_barren _)).append
    (Barren.flatMap fun p => wlOutputDrop_barren p releasable)).append
      (List.forall_mem_singleton.mpr rfl)

theorem klContextDetachAll_barren (surfs : List KlSurface) :
    Barren (klContextDetachAll surfs).2 := by
  induction surfs with
  | nil => nofun
  | cons surf surfs ih => exact (klSurfaceDetachLock_barren surf).append ih

theorem klContextUnlockSession_barren (ctx : KlContext) :
    Barren (klContextUnlockSession ctx).2.2 := by
  have h := klContextUnlockSession_step ctx
  generalize klContextUnlockSession ctx = r at h ⊢
  obtain ⟨ok, ctx', cs⟩ := r
  cases h with
  | refused => nofun
  | unlocked lock hl hlocked hf =>
    exact (klContextDetachAll_barren _).append
      (List.forall_mem_cons.mpr ⟨rfl, barren_toList_map _ _ fun _ => rfl⟩)

theorem klContextDestroyObjects_barren (ctx : KlContext) (releasable : SurfaceRef → Bool) :
    Barren (klContextDestroyObjects ctx releasable).2 := by
  have hlock : Barren (ctx.lock.toList.map (klContextDestroyLock ctx)) := by
    refine barren_toList_map _ _ fun p => ?_
    unfold klContextDestroyLock
    split <;> rfl
  exact ((((((Barren.flatMap fun surf => klSurfaceDestroy_barren surf _).append hlock).append
    (barren_toList_map _ _ fun _ => rfl)).append (barren_toList_map _ _ fun _ => rfl)).append
    (barren_toList_map _ _ fun _ => rfl)).append (barren_toList_map _ _ fun _ => rfl)).append
    (barren_toList_map _ _ fun _ => rfl)

/-- How many steps are left: from the unlocking on always, before it where `main` gives up. -/
def MainPc.rank : MainPc → Nat
  | .start => 3
  | .initRoundtrip => 3
  | .lockSession => 3
  | .lockLoop => 4
  | .lockDispatch => 3
  | .lockFlush => 3
  | .setup => 5
  | .loopTop => 7
  | .prepareRead => 6
  | .prepareDispatch => 5
  | .flush => 5
  | .epollWait => 5
  | .loopDispatch => 5
  | .unlock _ => 4
  | .unlockRoundtrip _ => 3
  | .destroy _ => 2
  | .destroyRoundtrip _ => 1
  | .exited _ => 0

theorem MainPc.rank_le (pc : MainPc) : pc.rank ≤ 7 := by
  cases pc <;> simp [MainPc.rank]

theorem MainPc.rank_of_ended {pc : MainPc} {ret : Int32} (h : pc.stage = .ended ret) :
    pc.rank ≤ 4 := by
  cases pc with
  | unlock | unlockRoundtrip | destroy | destroyRoundtrip | exited => simp [MainPc.rank]
  | _ => cases h

def MainInput.isDeliver : MainInput → Bool
  | .deliver .. => true
  | _ => false

/-- Once the status is decided it stays, and each step but an event is one of those left. -/
theorem Passes.ended {s : MainState} {i : MainInput} {pc : MainPc} {ctx : KlContext}
    {cs : List Call} {start : UInt64} {ret : Int32} (h : Passes s i pc ctx cs start)
    (hs : s.pc.stage = .ended ret) : pc.stage = .ended ret ∧ pc.rank + 1 ≤ s.pc.rank := by
  cases h with
  | leaves h =>
    rw [h.epoll.1] at hs
    cases hs
  | unlocks r hpc =>
    rw [hpc] at hs ⊢
    split
    · exact ⟨hs, Nat.le_refl _⟩
    · exact ⟨hs, Nat.le_succ _⟩
  | unlocked ok r hpc | destroys releasable r hpc | disconnects ok r hpc =>
    rw [hpc] at hs ⊢
    exact ⟨hs, Nat.le_refl _⟩
  | destroysAll releasable r hpc =>
    rw [hpc] at hs ⊢
    exact ⟨hs, Nat.le_succ _⟩
  | connects o hpc | checks ok hpc | locks o hpc | awaits hpc | awaited hpc | dispatched ok hpc
  | locked r hpc | refused r hpc | fails o cs hpc | enters o hpc | ticks ts hpc | prepares hpc
  | drains hpc | drained hpc | flushes r hpc | cancels o hpc | reads o hpc | goesOn hpc =>
    rw [hpc] at hs
    cases hs

theorem teardown_ranked (ret : Int32) :
    mainMachine.Ranked (fun s => s.pc.stage = .ended ret) (fun s => s.pc.rank)
      (fun i => if !i.isDeliver then 1 else 0) (fun _ => 0) := by
  have hboth : ∀ {s s' : MainState} {i : MainInput} {out : List Item}, s.pc.stage = .ended ret →
      mainMachine.step s i = some (s', out) → s'.pc.stage = .ended ret ∧
        s'.pc.rank + (if !i.isDeliver then 1 else 0) ≤ s.pc.rank := by
    intro s s' i out hs h
    by_cases hi : ∃ p e o, i = .deliver p e o
    · obtain ⟨p, e, o, rfl⟩ := hi
      rw [(mainMachine_deliver_stays h).1]
      exact ⟨hs, Nat.le_refl _⟩
    · obtain ⟨pc, ctx, cs, hm, hp⟩ := mainMachine_passes h fun p e o he => hi ⟨p, e, o, he⟩
      obtain ⟨hst, hle⟩ := hp.ended hs
      rw [hm.pc]
      refine ⟨hst, ?_⟩
      split <;> omega
  exact ⟨fun hs h => (hboth hs h).1, fun hs h => (hboth hs h).2⟩

/-- The input with which a place goes to the end, or one step nearer. -/
def MainPc.failing : MainPc → MainInput
  | .start => .init ⟨none, none, false⟩
  | .lockSession => .lock ⟨none, false, fun _ => ⟨none, none, false⟩⟩
  | .lockLoop => .test
  | .lockFlush => .flushed .failed
  | .setup => .setup ⟨false, false, false, none⟩
  | .loopTop => .clock none
  | .prepareRead => .prepared true
  | .flush => .flushed .failed
  | .epollWait => .waited ⟨.failed, false⟩
  | .unlock _ => .unlock
  | .destroy _ => .destroy fun _ => false
  | _ => .returned false

theorem klContextLockSession_refused (ctx : KlContext) {o : LockOutcomes} (ho : o.lock = none) :
    ∃ ctx' cs, klContextLockSession ctx o = (false, ctx', cs) ∧ Barren cs := by
  unfold klContextLockSession
  split
  · split
    · exact ⟨_, _, rfl, nofun⟩
    · rw [ho]
      exact ⟨_, _, rfl, List.forall_mem_singleton.mpr rfl⟩
  · exact ⟨_, _, rfl, nofun⟩

/-- **`main` can come to its end**, from everywhere: each place that waits for something gives
up where that fails. -/
theorem mainMachine_failing (s : MainState) (hpc : ∀ ret, s.pc ≠ .exited ret) :
    ∃ s' out, mainMachine.step s s.pc.failing = some (s', out) ∧ s'.pc.rank < s.pc.rank := by
  have hmove : ∀ {i : MainInput} {n : Nat} (pc : MainPc) (ctx : KlContext) {cs : List Call},
      Barren cs → mainMachine.step s i = s.move [] pc ctx cs → pc.rank < n →
      ∃ s' out, mainMachine.step s i = some (s', out) ∧ s'.pc.rank < n := by
    intro i n pc ctx cs hcs hstep hlt
    obtain ⟨s', out, hm, hpc'⟩ := s.move_barren [] pc ctx hcs
    exact ⟨s', out, hstep.trans hm, hpc'.symm ▸ hlt⟩
  have hnone : Barren [] := nofun
  have hclose : ∀ {cs : List Call}, Barren cs → Barren (cs ++ [.closeEpoll]) :=
    fun h => h.append (List.forall_mem_singleton.mpr rfl)
  have hdisplay : ∀ f : Proxy → Call, (∀ p, (f p).barren = true) → Barren (s.ctx.onDisplay f) :=
    fun f hf => barren_toList_map _ _ hf
  cases hs : s.pc with
  | start =>
    refine hmove (.destroy (-1)) { KlContext.zeroed with display := none }
      (List.forall_mem_singleton.mpr (rfl : (Call.wlDisplayConnect none).barren = true)) ?_
      (by decide)
    simp only [mainMachine, MainState.step, MainPc.failing, hs]
    rfl
  | initRoundtrip =>
    refine hmove (.destroy (-1)) s.ctx hnone ?_ (by decide)
    simp only [mainMachine, MainState.step, MainPc.failing, hs]
    rfl
  | lockSession =>
    obtain ⟨ctx, cs, he, hbarren⟩ := klContextLockSession_refused s.ctx
      (o := ⟨none, false, fun _ => ⟨none, none, false⟩⟩) rfl
    refine hmove (.destroy (-1)) ctx hbarren ?_ (by decide)
    simp only [mainMachine, MainState.step, MainPc.failing, hs, he]
    rfl
  | lockLoop =>
    by_cases hl : s.ctx.isLocked = false ∧ s.ctx.isFinished = false
    · refine hmove .lockDispatch s.ctx (hdisplay .wlDisplayDispatch fun _ => rfl) ?_ (by decide)
      simp only [mainMachine, MainState.step, MainPc.failing, hs, if_pos hl]
    · refine hmove .lockFlush s.ctx hnone ?_ (by decide)
      simp only [mainMachine, MainState.step, MainPc.failing, hs, if_neg hl]
  | lockDispatch =>
    refine hmove (.destroy (-1)) s.ctx hnone ?_ (by decide)
    simp only [mainMachine, MainState.step, MainPc.failing, hs]
    rfl
  | lockFlush =>
    refine hmove (.destroy (-1)) s.ctx (hdisplay (.wlDisplayFlush · .failed) fun _ => rfl) ?_
      (by decide)
    simp only [mainMachine, MainState.step, MainPc.failing, hs]
    rfl
  | setup =>
    refine hmove (.unlock (-1)) s.ctx (hdisplay (.wlDisplayGetFd · false) fun _ => rfl) ?_
      (by decide)
    simp only [mainMachine, MainState.step, MainPc.failing, hs]
    rfl
  | loopTop =>
    by_cases hd : klGetTimeNs none - s.appStartTimeNs ≥ totalDemoDurationNs
    · refine hmove (.unlock 0) s.ctx (hclose hnone) ?_ (by decide)
      simp only [mainMachine, MainState.step, MainPc.failing, hs, if_pos hd]
      rfl
    · refine hmove .prepareRead s.ctx hnone ?_ (by decide)
      simp only [mainMachine, MainState.step, MainPc.failing, hs, if_neg hd]
  | prepareRead =>
    refine hmove .flush s.ctx (hdisplay (.wlDisplayPrepareRead · true) fun _ => rfl) ?_ (by decide)
    simp only [mainMachine, MainState.step, MainPc.failing, hs]
    rfl
  | prepareDispatch =>
    refine hmove (.unlock 0) s.ctx (hclose hnone) ?_ (by decide)
    simp only [mainMachine, MainState.step, MainPc.failing, hs]
    rfl
  | flush =>
    have hflush : Barren (s.ctx.onDisplay (.wlDisplayFlush · .failed)) := hdisplay _ fun _ => rfl
    refine hmove (.unlock 0) s.ctx (hclose (hflush.append
      (hdisplay .wlDisplayCancelRead fun _ => rfl))) ?_ (by decide)
    simp only [mainMachine, MainState.step, MainPc.failing, hs]
    rfl
  | epollWait =>
    have hwait : Barren (.epollWait :: s.ctx.onDisplay .wlDisplayCancelRead) :=
      List.forall_mem_cons.mpr ⟨rfl, hdisplay .wlDisplayCancelRead fun _ => rfl⟩
    refine hmove (.unlock 0) s.ctx (hclose hwait) ?_ (by decide)
    simp only [mainMachine, MainState.step, MainPc.failing, hs]
    rfl
  | loopDispatch =>
    refine hmove (.unlock 0) s.ctx (hclose hnone) ?_ (by decide)
    simp only [mainMachine, MainState.step, MainPc.failing, hs]
    rfl
  | unlock ret =>
    have hbarren := klContextUnlockSession_barren s.ctx
    by_cases hok : (klContextUnlockSession s.ctx).1 = true
    · refine hmove (.unlockRoundtrip ret) (klContextUnlockSession s.ctx).2.1 hbarren ?_
        (Nat.lt_succ_self 3)
      simp only [mainMachine, MainState.step, MainPc.failing, hs, if_pos hok]
    · refine hmove (.destroy ret) (klContextUnlockSession s.ctx).2.1 hbarren ?_
        (show 2 < 4 by decide)
      simp only [mainMachine, MainState.step, MainPc.failing, hs, if_neg hok]
  | unlockRoundtrip ret =>
    refine hmove (.destroy ret) s.ctx hnone ?_ (Nat.lt_succ_self 2)
    simp only [mainMachine, MainState.step, MainPc.failing, hs]
  | destroy ret =>
    have hbarren := klContextDestroyObjects_barren s.ctx fun _ => false
    by_cases hd : s.ctx.display.isSome = true
    · refine hmove (.destroyRoundtrip ret)
        (klContextDestroyObjects s.ctx fun _ => false).1 hbarren ?_ (Nat.lt_succ_self 1)
      simp only [mainMachine, MainState.step, MainPc.failing, hs, if_pos hd]
    · refine hmove (.exited ret)
        (klContextDestroyDisplay (klContextDestroyObjects s.ctx fun _ => false).1).1 hbarren ?_
        (Nat.succ_pos 1)
      simp only [mainMachine, MainState.step, MainPc.failing, hs, if_neg hd]
  | destroyRoundtrip ret =>
    have hbarren : Barren (klContextDestroyDisplay s.ctx).2 := barren_toList_map _ _ fun _ => rfl
    refine hmove (.exited ret) (klContextDestroyDisplay s.ctx).1 hbarren ?_ (Nat.succ_pos 0)
    simp only [mainMachine, MainState.step, MainPc.failing, hs]
  | exited ret => exact absurd hs (hpc ret)

/-- How `main` ends. -/
structure TeardownEnds (s : MainState) : Prop where
  /-- once the status is decided it stays, and four steps are left besides the events -/
  bounded : ∀ ret, s.pc.stage = .ended ret → ∀ is s' out, mainMachine.exec s is = some (s', out) →
    s'.pc.stage = .ended ret ∧ is.countP (fun i => !i.isDeliver) ≤ 4
  /-- from everywhere the end can be reached, in seven steps and without an event -/
  ends : ∃ is s' out ret, (∀ i ∈ is, i.isDeliver = false) ∧
    mainMachine.exec s is = some (s', out) ∧ s'.pc = .exited ret ∧ is.length ≤ 7

/-- **`main` is never stuck**, and its teardown is bounded whatever is dispatched meanwhile. -/
theorem main_teardown_ends (s : MainState) : TeardownEnds s := by
  refine ⟨fun ret hs is s' out he => ?_, ?_⟩
  · obtain ⟨hs', hle⟩ := (teardown_ranked ret).exec hs he
    have hrank := MainPc.rank_of_ended hs
    have hcost := total_ite (fun i : MainInput => !i.isDeliver) 1 is
    rw [total_const, Nat.zero_mul] at hle
    refine ⟨hs', ?_⟩
    omega
  · have hgo : ∀ s : MainState, True → ¬(∃ ret, s.pc = .exited ret) →
        ∃ i s' out, i.isDeliver = false ∧ mainMachine.step s i = some (s', out) ∧ True ∧
          s'.pc.rank < s.pc.rank := by
      intro s _ hpc
      obtain ⟨s', out, hstep, hlt⟩ := mainMachine_failing s fun ret he => hpc ⟨ret, he⟩
      exact ⟨s.pc.failing, s', out, by cases s.pc <;> rfl, hstep, trivial, hlt⟩
    obtain ⟨is, s', out, hok, he, -, ⟨ret, hpc⟩, hle⟩ :=
      Machine.completes hgo trivial
    exact ⟨is, s', out, ret, hok, he, hpc, Nat.le_trans hle s.pc.rank_le⟩

end Kirilock
