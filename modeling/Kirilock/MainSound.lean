import Kirilock.MainRun

/-!
No proxy after its destructor, and no listener on what is gone.

Along every run of the locker, whatever the compositor sends and whichever outside
calls fail, a request is made only on proxies that were created before and not
destroyed before (an event is delivered only on such), and the data of a listener
and the surface a function is called with are alive (`LiveRule`).
-/

namespace Kirilock

open Runs Ownership

/-- Whatever the action needs was created before it and not destroyed before it. -/
def ProxyRule (pre : List (Act Proxy Listener)) (a : Act Proxy Listener) : Prop :=
  ∀ p, a.needs = some p → .create p ∈ pre ∧ .destroy p ∉ pre

/-- **Proxies and listeners.**  In every run no proxy is used or destroyed after its
destructor, and no listener runs with a surface or a buffer that was destroyed. -/
theorem objects_sound {s : MainState} {tr : List Item} (h : mainMachine.Reach s tr) :
    Always ProxyRule (itemActs tr) ∧ Always LiveRule tr := by
  have hok := mainMachine_ok h
  exact ⟨sound_history hok.sound hok.fresh, hok.roster.rules⟩

/-- The ended run destroyed a surface whose frame was outstanding. -/
theorem objects_sound_endedRun :
    (Act.destroy 21 ∈ itemActs endedRun.2 ∧ Act.destroy 30 ∈ itemActs endedRun.2) ∧
      Always ProxyRule (itemActs endedRun.2) ∧ Always LiveRule endedRun.2 :=
  ⟨by decide, objects_sound endedRun_reach⟩

end Kirilock
