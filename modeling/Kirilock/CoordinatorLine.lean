import Kirilock.CoordinatorGrant
import Kirilock.PasswordConv
import Mathlib.Data.List.Induction

/-!
What is typed.

`main` edits the line in `pass_buf`, passes it to `verify` where it ends, and overwrites it
after that.  So a child's conversation gives PAM what was typed since the line before
(`Types.children`), and nothing of a line is left for the next one or for the end of `main`.
-/

namespace Auth.Password

open Runs

/-- No other step passes a password. -/
theorem step_passes {s s' : State} {i : Input} {out : List Item}
    (hs : machine.step s i = some (s', out)) (hi : ∀ pass, i ≠ .verify pass) (n : Nat)
    (pass : List UInt8) : .verify n pass ∉ out := by
  have hv : s'.verifies = s.verifies := by
    cases machine_step hs with
    | verify pass hpc => exact absurd rfl (hi pass)
    | _ => rfl
  rcases step_verify hs with ⟨p, -, -, rfl⟩ | ⟨hout, -⟩
  · exact absurd hv (Nat.succ_ne_self _)
  · exact hout n pass

end Auth.Password

namespace Auth.Coordinator

open Runs

/-! ## Lines -/

/-- What can stand in `pass_buf`. -/
structure IsLine (line : List UInt8) : Prop where
  fits : line.length < maxPassLen
  printable : ∀ c ∈ line, isPrintable c = true

theorem isLine_nil : IsLine [] := ⟨by decide, List.forall_mem_nil _⟩

theorem isLine_edit {line : List UInt8} (h : IsLine line) (c : UInt8) : IsLine (edit line c) := by
  have hfits := h.fits
  unfold edit
  split
  · refine ⟨?_, fun d hd => h.printable d (line.dropLast_subset hd)⟩
    rw [List.length_dropLast]
    omega
  · split
    · rename_i hc
      split
      · rename_i hlen
        refine ⟨?_, List.forall_mem_append.mpr ⟨h.printable, List.forall_mem_singleton.mpr hc⟩⟩
        rw [List.length_append, List.length_singleton]
        omega
      · exact h
    · exact h

/-- What the keys since the last line end leave. -/
def typed (keys : List UInt8) : List UInt8 :=
  keys.foldl (fun line c => if isNewline c then [] else edit line c) []

theorem typed_snoc (keys : List UInt8) (c : UInt8) :
    typed (keys ++ [c]) = if isNewline c then [] else edit (typed keys) c := by
  rw [typed, List.foldl_append]
  rfl

theorem isLine_typed (keys : List UInt8) : IsLine (typed keys) := by
  induction keys using List.reverseRecOn with
  | nil => exact isLine_nil
  | append_singleton keys c ih =>
    rw [typed_snoc]
    split
    · exact isLine_nil
    · exact isLine_edit ih c

/-! ## What a run says of it -/

def Item.key? : Item → Option UInt8
  | .key c => some c
  | _ => none

def keysOf (tr : List Item) : List UInt8 := tr.filterMap Item.key?

theorem keysOf_append (tr out : List Item) : keysOf (tr ++ out) = keysOf tr ++ keysOf out :=
  List.filterMap_append

def unwipedStep (unwiped : Option (List UInt8)) : Item → Option (List UInt8)
  | .pw (.verify _ pass) => some pass
  | .wiped _ => none
  | _ => unwiped

/-- The password that was passed to `verify` and not overwritten since. -/
def unwiped (tr : List Item) : Option (List UInt8) := tr.foldl unwipedStep none

theorem unwiped_append (tr out : List Item) :
    unwiped (tr ++ out) = out.foldl unwipedStep (unwiped tr) :=
  List.foldl_append

/-- `verify` gets what was typed, where the line has ended. -/
def LineRule (pre : List Item) (c : Item) : Prop :=
  ∀ n pass, c = .pw (.verify n pass) → pass ≠ [] ∧ IsLine pass ∧
    ∃ before k, pre = before ++ [.key k] ∧ isNewline k = true ∧ pass = typed (keysOf before)

/-- No key is read before what was passed to `verify` is overwritten, every byte of it. -/
def WipeRule (pre : List Item) (c : Item) : Prop :=
  (∀ k, c = .key k → unwiped pre = none) ∧
  ∀ bytes, c = .wiped bytes → ∀ pass, unwiped pre = some pass →
    bytes = List.replicate pass.length 0

/-- The items that these are about. -/
def Item.types : Item → Bool
  | .key _ => true
  | .pw (.verify _ _) => true
  | .wiped _ => true
  | _ => false

section Items

variable {tr out : List Item}

theorem keysOf_idle (h : ∀ c ∈ out, c.types = false) : keysOf out = [] := by
  rw [keysOf, List.filterMap_eq_nil_iff]
  intro c hc
  have htypes := h c hc
  cases c with
  | key k => cases htypes
  | _ => rfl

theorem unwipedStep_idle (unwiped : Option (List UInt8)) {c : Item} (h : c.types = false) :
    unwipedStep unwiped c = unwiped := by
  cases c with
  | pw x =>
    cases x with
    | verify n pass => cases h
    | _ => rfl
  | wiped bytes => cases h
  | _ => rfl

theorem unwiped_idle (h : ∀ c ∈ out, c.types = false) : unwiped (tr ++ out) = unwiped tr := by
  rw [unwiped_append]
  generalize unwiped tr = o
  induction out with
  | nil => rfl
  | cons c out ih =>
    rw [List.forall_mem_cons] at h
    rw [List.foldl_cons, unwipedStep_idle o h.1]
    exact ih h.2

theorem types_fp (items : List Fingerprint.Item) :
    ∀ c ∈ items.map Item.fp, c.types = false := by
  intro c hc
  obtain ⟨x, -, rfl⟩ := List.mem_map.mp hc
  rfl

theorem types_pw {items : List Password.Item} (h : ∀ n pass, .verify n pass ∉ items) :
    ∀ c ∈ items.map Item.pw, c.types = false := by
  intro c hc
  obtain ⟨x, hx, rfl⟩ := List.mem_map.mp hc
  cases x with
  | verify n pass => exact absurd hx (h n pass)
  | _ => rfl

end Items

/-! ## The invariant -/

/-- What `main` does with `pass_buf`. -/
inductive Stage where
  | typing
  | passed
  | ended
  deriving DecidableEq, Repr

def MainPc.stage : MainPc → Stage
  | .start => .typing
  | .starting => .typing
  | .loadAuthenticated => .typing
  | .loadInterrupted => .typing
  | .loadFp => .typing
  | .loadPw => .typing
  | .select => .typing
  | .wipe => .typing
  | .verifying => .passed
  | .clear => .passed
  | _ => .ended

/-- What `pass_buf` holds, of what is typed and of what was passed and is not overwritten. -/
def Holds (passBuf line : List UInt8) (unwiped : Option (List UInt8)) : Stage → Prop
  | .typing => passBuf = line ∧ unwiped = none
  | .passed => passBuf ≠ [] ∧ line = [] ∧ unwiped = some passBuf
  | .ended => passBuf = [] ∧ unwiped = none

structure LineInv (s : State) (tr : List Item) : Prop where
  holds : Holds s.passBuf (typed (keysOf tr)) (unwiped tr) s.main.stage
  lines : Always LineRule tr
  wipes : Always WipeRule tr

section Steps

variable {s s' : State} {tr out : List Item}

theorem LineInv.idle (h : LineInv s tr) (hout : ∀ c ∈ out, c.types = false)
    (hb : s'.passBuf = s.passBuf) (hm : s'.main.stage = s.main.stage) :
    LineInv s' (tr ++ out) := by
  refine ⟨?_, ?_, ?_⟩
  · rw [hb, hm, keysOf_append, keysOf_idle hout, List.append_nil, unwiped_idle hout]
    exact h.holds
  · refine h.lines.append_of_forall fun c hc pre n pass he => ?_
    have htypes := hout c hc
    rw [he] at htypes
    cases htypes
  · refine h.wipes.append_of_forall fun c hc pre => ⟨fun k he => ?_, fun bytes he => ?_⟩
    · have htypes := hout c hc
      rw [he] at htypes
      cases htypes
    · have htypes := hout c hc
      rw [he] at htypes
      cases htypes

/-- Where `main` reads, `pass_buf` is what was typed. -/
theorem LineInv.selecting (h : LineInv s tr) (hpc : s.main = .select) :
    s.passBuf = typed (keysOf tr) ∧ unwiped tr = none := by
  have hholds := h.holds
  rw [hpc] at hholds
  exact hholds

theorem keyRules {k : UInt8} (h : LineInv s tr) (hpc : s.main = .select) :
    Always LineRule (tr ++ [.key k]) ∧ Always WipeRule (tr ++ [.key k]) := by
  refine ⟨always_snoc.mpr ⟨h.lines, fun n pass he => ?_⟩,
    always_snoc.mpr ⟨h.wipes, fun _ _ => (h.selecting hpc).2, fun bytes he => ?_⟩⟩
  · cases he
  · cases he

/-- `main` has read a key that does not end a line with something in it. -/
theorem LineInv.keyed (h : LineInv s tr) (hpc : s.main = .select) {k : UInt8}
    (hm : s'.main.stage = .typing)
    (hb : s'.passBuf = if isNewline k then [] else edit s.passBuf k) :
    LineInv s' (tr ++ [.key k]) := by
  obtain ⟨hbuf, hun⟩ := h.selecting hpc
  obtain ⟨hlines, hwipes⟩ := keyRules (k := k) h hpc
  refine ⟨?_, hlines, hwipes⟩
  rw [hm, keysOf_append]
  refine ⟨?_, ?_⟩
  · show s'.passBuf = typed (keysOf tr ++ [k])
    rw [typed_snoc, hb, hbuf]
  · rw [unwiped_append]
    exact hun

theorem Goes.stage {pc pc' : MainPc} (h : Goes s pc pc') : pc'.stage = pc.stage := by
  cases h <;> rfl

theorem CallsFp.stage {ok : Bool} {pc pc' : MainPc} {j : Fingerprint.Input}
    (h : CallsFp s ok pc j pc') : pc'.stage = pc.stage := by
  cases h <;> rfl

theorem CallsPw.stage {ok : Bool} {pc pc' : MainPc} {j : Password.Input}
    (h : CallsPw s ok pc j pc') : pc'.stage = pc.stage := by
  cases h <;> rfl

theorem CallsPw.passes {ok : Bool} {pc pc' : MainPc} {j : Password.Input}
    (h : CallsPw s ok pc j pc') : ∀ pass, j ≠ .verify pass := by
  cases h <;> exact fun _ => Password.Input.noConfusion

theorem State.setHandler_passBuf (s : State) (obj : Obj) (h : Option HandlerPc) :
    (s.setHandler obj h).passBuf = s.passBuf := by
  cases obj <;> rfl

theorem State.setHandler_main (s : State) (obj : Obj) (h : Option HandlerPc) :
    (s.setHandler obj h).main = s.main := by
  cases obj <;> rfl

/-- `main` overwrites `pass_buf`. -/
theorem LineInv.wipe (h : LineInv s tr) {pc : MainPc}
    (hun : ∀ pass, unwiped tr = some pass → s.passBuf = pass ∧ pass ≠ [])
    (hholds : Holds [] (typed (keysOf tr)) none pc.stage) :
    LineInv { s with main := pc, passBuf := [] }
      (tr ++ if s.passBuf.isEmpty then [] else [.wiped (s.passBuf.map fun _ => 0)]) := by
  split
  · rename_i hempty
    have hnone : unwiped tr = none := by
      rw [Option.eq_none_iff_forall_ne_some]
      intro pass he
      obtain ⟨hb, hne⟩ := hun pass he
      exact hne (hb ▸ List.isEmpty_iff.mp hempty)
    rw [List.append_nil]
    refine ⟨?_, h.lines, h.wipes⟩
    rw [hnone]
    exact hholds
  · refine ⟨?_, always_snoc.mpr ⟨h.lines, fun n pass he => ?_⟩,
      always_snoc.mpr ⟨h.wipes, fun k he => ?_, fun bytes he pass hp => ?_⟩⟩
    · rw [keysOf_append, unwiped_append]
      show Holds [] (typed (keysOf tr ++ [])) none pc.stage
      rw [List.append_nil]
      exact hholds
    · cases he
    · cases he
    · cases he
      rw [(hun pass hp).1]
      exact List.map_const' ..

/-- A line ends and is passed to `verify`. -/
theorem LineInv.pass (h : LineInv s tr) (hpc : s.main = .select) {c : UInt8}
    (hc : isNewline c = true) (hb : s.passBuf ≠ []) (pw : Password.State) (n : Nat) :
    LineInv { s with pw := pw, main := .verifying }
      (tr ++ [.key c, .pw (.verify n s.passBuf)]) := by
  obtain ⟨hbuf, -⟩ := h.selecting hpc
  obtain ⟨hlines, hwipes⟩ := keyRules (k := c) h hpc
  rw [List.append_cons]
  refine ⟨⟨hb, ?_, ?_⟩, always_snoc.mpr ⟨hlines, fun m pass he => ?_⟩,
    always_snoc.mpr ⟨hwipes, fun k he => ?_, fun bytes he => ?_⟩⟩
  · rw [keysOf_append, keysOf_append]
    show typed (keysOf tr ++ [c] ++ []) = []
    rw [List.append_nil, typed_snoc, if_pos hc]
  · rw [unwiped_append]
    rfl
  · cases he
    exact ⟨hb, hbuf ▸ isLine_typed _, tr, c, rfl, hc, hbuf⟩
  · cases he
  · cases he

theorem Step.lineInv {i : Input} (hs : Step s i s' out) (h : LineInv s tr) :
    LineInv s' (tr ++ out) := by
  have hnil : ∀ c ∈ ([] : List Item), c.types = false := List.forall_mem_nil _
  cases hs with
  | goes ok pc hg => exact h.idle hnil rfl hg.stage
  | wipes ok pc hw =>
    have hholds := h.holds
    generalize s.main = p at hw hholds
    cases hw with
    | clear =>
      obtain ⟨hne, hline, hun⟩ := hholds
      refine h.wipe (fun pass he => ?_) ⟨hline.symm, rfl⟩
      have hpass : s.passBuf = pass := Option.some.inj (hun.symm.trans he)
      exact ⟨hpass, hpass ▸ hne⟩
    | wipe =>
      refine h.wipe (fun pass he => ?_) ⟨rfl, rfl⟩
      cases hholds.2.symm.trans he
  | result ok hpc =>
    refine h.idle (List.forall_mem_singleton.mpr rfl) rfl ?_
    rw [hpc]
    rfl
  | callsFp ok j pc fp items hc hs => exact h.idle (types_fp items) rfl hc.stage
  | callsPw ok j pc pw items hc hs =>
    exact h.idle (types_pw (Password.step_passes hs hc.passes)) rfl hc.stage
  | fpInUse | pwInUse => exact h.idle (List.forall_mem_singleton.mpr rfl) rfl rfl
  | noKey hpc =>
    refine h.idle hnil rfl ?_
    rw [hpc]
    rfl
  | emptyLine c hpc hc hb =>
    refine h.keyed hpc rfl ?_
    rw [if_pos hc]
    exact hb
  | line c pw items hpc hc hb hs =>
    cases Password.machine_step hs with
    | verify pass hidle => exact h.pass hpc hc hb _ _
    | stopStep i pc pc' client stops p out hi hr hstop => cases hi
  | edited c hpc hc =>
    refine h.keyed hpc rfl ?_
    rw [hc]
    rfl
  | interrupt => exact h.idle hnil rfl rfl
  | fpWorker o fp items hh hs => exact h.idle (types_fp items) rfl rfl
  | pwWorker o pw items hh hs =>
    have hno := Password.step_passes hs fun _ => Password.Input.noConfusion
    exact h.idle (types_pw hno) rfl rfl
  | returns obj ok pc hh hpc =>
    exact h.idle hnil (s.setHandler_passBuf obj _) (congrArg MainPc.stage (s.setHandler_main obj _))
  | wins obj ok hh ha =>
    exact h.idle (List.forall_mem_singleton.mpr rfl) (s.setHandler_passBuf obj _)
      (congrArg MainPc.stage (s.setHandler_main obj _))
  | stale obj ok o objs hh hgone => exact h.idle (List.forall_mem_singleton.mpr rfl) rfl rfl
  | stopsFp obj ok objs fp items hh hs =>
    exact h.idle (types_fp items) (s.setHandler_passBuf obj _)
      (congrArg MainPc.stage (s.setHandler_main obj _))
  | stopsPw obj ok objs pw items hh hs =>
    have hno := Password.step_passes hs fun _ => Password.Input.noConfusion
    exact h.idle (types_pw hno) (s.setHandler_passBuf obj _)
      (congrArg MainPc.stage (s.setHandler_main obj _))
  | inFp obj ok pc objs fp items hh hs =>
    exact h.idle (types_fp items) (s.setHandler_passBuf obj _)
      (congrArg MainPc.stage (s.setHandler_main obj _))
  | inPw obj ok pc objs pw items hh hs =>
    have hno := Password.step_passes hs fun _ => Password.Input.noConfusion
    exact h.idle (types_pw hno) (s.setHandler_passBuf obj _)
      (congrArg MainPc.stage (s.setHandler_main obj _))
  | emit body fp items hs => exact h.idle (types_fp items) rfl rfl
  | childEnds pid run pw items hs =>
    have hno := Password.step_passes hs fun _ => Password.Input.noConfusion
    exact h.idle (types_pw hno) rfl rfl

end Steps

theorem lineInv_reach {s : State} {tr : List Item} (h : machine.Reach s tr) : LineInv s tr := by
  refine h.invariant ?_ ?_
  · rintro s ⟨pipe, device, rfl⟩
    exact ⟨⟨rfl, rfl⟩, always_nil _, always_nil _⟩
  · intro s tr i s' out hinv _ hs
    exact (machine_step hs).lineInv hinv

/-! ## From the keys to the child -/

/-- The `join` of `verify` does not throw. -/
def Joins (s : State) (_ : List Item) : Input → Prop
  | .main ok => Password.JoinReturns s.pw [] (.client ok)
  | _ => True

instance (s : State) (tr : List Item) (i : Input) : Decidable (Joins s tr i) := by
  cases i <;> unfold Joins <;> infer_instance

theorem Joins.returns {s : State} {tr : List Item} {i : Input} {j : Password.Input}
    (h : Joins s tr i) (hd : DrivesPw i j) : Password.JoinReturns s.pw (ofPw tr) j := by
  unfold Password.JoinReturns
  split
  · rename_i pass hjoin
    cases i with
    | main ok =>
      have hne : Password.Input.client ok ≠ .client false := by
        have hret := h
        simp only [Joins, Password.JoinReturns, hjoin] at hret
        exact hret
      obtain ⟨s0, pc, pc', hc⟩ := hd
      cases hc with
      | verifying | stopping | deleting => exact hne
      | stop | delete => exact Password.Input.noConfusion
    | read c =>
      obtain ⟨p, rfl⟩ := hd
      exact Password.Input.noConfusion
    | pwWorker o =>
      cases hd
      exact Password.Input.noConfusion
    | handler obj ok =>
      rcases hd with rfl | ⟨n, rfl⟩
      · exact Password.Input.noConfusion
      · exact Password.Input.noConfusion
    | childEnds pid run =>
      cases hd
      exact Password.Input.noConfusion
    | interrupt | fpWorker | emit => cases hd
  · trivial

/-- What becomes of what is typed. -/
structure Types (s : State) (tr : List Item) : Prop where
  /-- `verify` gets what was typed since the line before … -/
  lines : Always LineRule tr
  /-- … which is overwritten before another key is read … -/
  wipes : Always WipeRule tr
  /-- … and where `main` stops the two nothing is left … -/
  ended : s.main.stage = .ended → s.passBuf = [] ∧ unwiped tr = none
  /-- … and where no `join` threw, what was typed is what a child's conversation gives PAM -/
  children : machine.ReachIf Joins s tr → ∀ c ∈ s.pw.children, ∃ pre k post,
    tr = pre ++ .key k :: .pw (.verify c.attempt c.candidate) :: post ∧ isNewline k = true ∧
    ∀ msgs, msgs ≠ [] → ∀ resp o, Password.Delivers (typed (keysOf pre)) msgs
      (Password.internalPamConv msgs resp (some c.data) o)

theorem mem_of_ofPw {tr : List Item} {x : Password.Item} (h : x ∈ ofPw tr) : .pw x ∈ tr := by
  obtain ⟨c, hc, hx⟩ := List.mem_filterMap.mp h
  cases c with
  | pw y =>
    cases hx
    exact hc
  | _ => cases hx

/-- **PAM is asked about what was typed**, in every run, and `main` keeps none of it. -/
theorem coordinator_types {s : State} {tr : List Item} (h : machine.Reach s tr) : Types s tr := by
  have hinv := lineInv_reach h
  refine ⟨hinv.lines, hinv.wipes, fun hover => ?_, fun hjoins c hc => ?_⟩
  · have hholds := hinv.holds
    rw [hover] at hholds
    exact hholds
  · have hpw : Password.machine.ReachIf Password.JoinReturns s.pw (ofPw tr) :=
      hosts_pw.reachIf (fun _ _ _ _ hok hd => hok.returns hd) hjoins
    have hverify := mem_of_ofPw ((Password.carried_reach hpw).children c hc)
    obtain ⟨pre, post, rfl⟩ := List.append_of_mem hverify
    obtain ⟨-, hline, before, k, rfl, hk, htyped⟩ :=
      hinv.lines pre _ post rfl c.attempt c.candidate rfl
    refine ⟨before, k, post, by simp, hk, fun msgs hm resp o => ?_⟩
    have hnul : 0 ∉ c.candidate := by
      intro h0
      exact absurd (hline.printable 0 h0) (by decide)
    have hall := (Password.delivers_iff c hm).mpr (Or.inl hnul) resp o
    rwa [htyped] at hall

/-! ## A run -/

/-- Two keys, of which one is taken back. -/
def sampleEdited : List Input :=
  mainSteps 11 ++ [.read (some 115)] ++ mainSteps 3 ++ [.read (some 120)] ++ mainSteps 3 ++
  [.read (some 127)] ++ mainSteps 3 ++ [.read (some 10)] ++ mainSteps 6 ++ pwWorks 1 none ++
  pwWorks 3 (some 7)

theorem askedRun_isSome : (machine.exec (start true true) sampleEdited).isSome = true := by
  decide

/-- The child of the attempt asks for the password. -/
def askedRun : State × List Item :=
  (machine.exec (start true true) sampleEdited).get askedRun_isSome

/-- No `join` threw there, and the child has what was typed. -/
theorem coordinator_types_askedRun :
    (⟨7, 1, [115], none⟩ ∈ askedRun.1.pw.children ∧ machine.ReachIf Joins askedRun.1 askedRun.2) ∧
      Types askedRun.1 askedRun.2 :=
  ⟨⟨by decide, Machine.reachIf_exec (start_init true true) (by decide) askedRun_isSome⟩,
    coordinator_types (Machine.reach_exec (start_init true true) askedRun_isSome)⟩

end Auth.Coordinator
