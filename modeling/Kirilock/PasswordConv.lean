import Kirilock.PasswordWipe
import Mathlib.Data.List.Forall2
import Mathlib.Data.List.TakeWhile

/-!
The conversation of the child: `internal_pam_conv` of `password.cpp`.

PAM hands over messages and `candidate_.data()`; the function answers each prompt with
a copy of the string there.  `HeapCall` is what it does to the heap.  The password is
counted by its length on the way to `candidate_` and ends at its first NUL byte from
there on, so PAM gets what was passed to `verify` where there is none
(`conv_exact`).
-/

namespace Auth.Password

open Runs

/-! ## The function -/

def pamPromptEchoOff : Int32 := 1
def pamPromptEchoOn : Int32 := 2
def pamBufErr : Int32 := 5
def pamConvErr : Int32 := 19

/-- `struct pam_message`, whose text is not read. -/
structure PamMessage where
  msgStyle : Int32
  deriving DecidableEq, Repr

def PamMessage.prompts (msg : PamMessage) : Bool :=
  msg.msgStyle == pamPromptEchoOff || msg.msgStyle == pamPromptEchoOn

/-- An address that the heap returned. -/
abbrev Ptr := Nat

/-- A string that `strdup` made, without its NUL. -/
structure CString where
  addr : Ptr
  bytes : List UInt8
  deriving DecidableEq, Repr

/-- `struct pam_response`; `none` is `NULL`. -/
structure PamResponse where
  resp : Option CString
  respRetcode : Int32
  deriving DecidableEq, Repr

/-- As `calloc` leaves it. -/
def PamResponse.zeroed : PamResponse := ⟨none, 0⟩

/-- A `struct pam_response *`: `NULL`, or an array and its address. -/
abbrev Reply := Option (Ptr × List PamResponse)

inductive HeapCall where
  | calloc (n : Nat) (ret : Option Ptr)
  | strdup (bytes : List UInt8) (ret : Option Ptr)
  /-- `none` is `free(NULL)` -/
  | free (p : Option Ptr)
  deriving DecidableEq, Repr

/-- What the heap answers: `strdup i` at message `i`. -/
structure ConvOutcomes where
  calloc : Option Ptr
  strdup : Nat → Option Ptr

/-- What a C function finds at a pointer to `bytes`. -/
def cString (bytes : List UInt8) : List UInt8 := bytes.takeWhile (· ≠ 0)

/-- `while (i > 0) free(reply[--i].resp)` -/
def convUnwind (reply : List PamResponse) : Nat → List HeapCall
  | 0 => []
  | i + 1 => .free ((reply[i]?.bind (·.resp)).map (·.addr)) :: convUnwind reply i

/-- The loop over the messages from the `i`-th on; `false` where it gives up. -/
def convFill (o : ConvOutcomes) (appdata : List UInt8) (base : Ptr) :
    Nat → List PamMessage → List PamResponse → Bool × List PamResponse × List HeapCall
  | _, [], reply => (true, reply, [])
  | i, msg :: msgs, reply =>
    if msg.prompts then
      match o.strdup i with
      | none =>
        (false, reply, .strdup (cString appdata) none ::
          (convUnwind reply i ++ [.free (some base)]))
      | some addr =>
        let r := convFill o appdata base (i + 1) msgs
          (reply.set i ⟨some ⟨addr, cString appdata⟩, 0⟩)
        (r.1, r.2.1, .strdup (cString appdata) (some addr) :: r.2.2)
    else convFill o appdata base (i + 1) msgs reply

/-- `resp` is `NULL` or leads to a reply, which is returned as the function leaves it;
`msgs` are the `num_msg` messages. -/
def internalPamConv (msgs : List PamMessage) (resp : Option Reply) (appdata : Option (List UInt8))
    (o : ConvOutcomes) : Int32 × Option Reply × List HeapCall :=
  match resp, appdata with
  | some _, some bytes =>
    if msgs = [] then (pamConvErr, resp, [])
    else
      match o.calloc with
      | none => (pamBufErr, resp, [.calloc msgs.length none])
      | some base =>
        let r := convFill o bytes base 0 msgs (List.replicate msgs.length .zeroed)
        let c := .calloc msgs.length (some base) :: r.2.2
        if r.1 then (pamSuccess, some (some (base, r.2.1)), c) else (pamBufErr, resp, c)
  | _, _ => (pamConvErr, resp, [])

/-! ## What it answers -/

theorem cString_eq_iff {bytes : List UInt8} : cString (bytes ++ [0]) = bytes ↔ 0 ∉ bytes := by
  constructor
  · intro h h0
    rw [← h, cString] at h0
    simpa using List.mem_takeWhile_imp h0
  · intro h
    have htake : bytes.takeWhile (· ≠ 0) = bytes := by
      rw [List.takeWhile_eq_self_iff]
      intro b hb
      have hne : b ≠ 0 := fun h0 => h (h0 ▸ hb)
      simpa using hne
    rw [cString, List.takeWhile_append, if_pos (by rw [htake])]
    simp

/-- The response that a message is to have: the password for a prompt, else nothing. -/
structure Answers (pass : List UInt8) (msg : PamMessage) (r : PamResponse) : Prop where
  prompt : msg.prompts = true → r.resp.map (·.bytes) = some pass
  other : msg.prompts = false → r.resp = none

/-- If it succeeds, one response for each message, and the right one. -/
def Delivers (pass : List UInt8) (msgs : List PamMessage)
    (r : Int32 × Option Reply × List HeapCall) : Prop :=
  r.1 = pamSuccess →
    ∃ base reply, r.2.1 = some (some (base, reply)) ∧ List.Forall₂ (Answers pass) msgs reply

/-- The loop over `msgs` where the responses `done` are filled in: it returns `ok`, the
array and its calls. -/
inductive Fills (o : ConvOutcomes) (appdata : List UInt8) (base : Ptr) :
    List PamResponse → List PamMessage → Bool → List PamResponse → List HeapCall → Prop
  | nil (done : List PamResponse) : Fills o appdata base done [] true done []
  | failed (done : List PamResponse) (msg : PamMessage) (msgs : List PamMessage)
      (hp : msg.prompts = true) :
      Fills o appdata base done (msg :: msgs) false
        (done ++ List.replicate (msgs.length + 1) .zeroed)
        (.strdup (cString appdata) none ::
          (convUnwind (done ++ List.replicate (msgs.length + 1) .zeroed) done.length ++
            [.free (some base)]))
  | copied {done : List PamResponse} {msg : PamMessage} {msgs : List PamMessage} {ok : Bool}
      {reply : List PamResponse} {cs : List HeapCall} (addr : Ptr) (hp : msg.prompts = true)
      (h : Fills o appdata base (done ++ [⟨some ⟨addr, cString appdata⟩, 0⟩]) msgs ok reply cs) :
      Fills o appdata base done (msg :: msgs) ok reply
        (.strdup (cString appdata) (some addr) :: cs)
  | other {done : List PamResponse} {msg : PamMessage} {msgs : List PamMessage} {ok : Bool}
      {reply : List PamResponse} {cs : List HeapCall} (hp : msg.prompts = false)
      (h : Fills o appdata base (done ++ [.zeroed]) msgs ok reply cs) :
      Fills o appdata base done (msg :: msgs) ok reply cs

/-- **What the loop can do**, from a message on with the rest of the array zeroed. -/
theorem convFill_fills (o : ConvOutcomes) (appdata : List UInt8) (base : Ptr)
    (msgs : List PamMessage) (done : List PamResponse) :
    Fills o appdata base done msgs
      (convFill o appdata base done.length msgs
        (done ++ List.replicate msgs.length .zeroed)).1
      (convFill o appdata base done.length msgs
        (done ++ List.replicate msgs.length .zeroed)).2.1
      (convFill o appdata base done.length msgs
        (done ++ List.replicate msgs.length .zeroed)).2.2 := by
  induction msgs generalizing done with
  | nil =>
    have hnil : done ++ List.replicate ([] : List PamMessage).length .zeroed = done :=
      List.append_nil done
    rw [hnil]
    exact .nil done
  | cons msg msgs ih =>
    have hset : ∀ r : PamResponse,
        (done ++ List.replicate (msgs.length + 1) PamResponse.zeroed).set done.length r =
          done ++ [r] ++ List.replicate msgs.length .zeroed := by
      intro r
      rw [List.set_append_right _ _ (Nat.le_refl _), Nat.sub_self, List.replicate_succ,
        List.set_cons_zero, List.append_assoc]
      rfl
    have hrest : ∀ r : PamResponse,
        Fills o appdata base (done ++ [r]) msgs
          (convFill o appdata base (done.length + 1) msgs
            (done ++ [r] ++ List.replicate msgs.length .zeroed)).1
          (convFill o appdata base (done.length + 1) msgs
            (done ++ [r] ++ List.replicate msgs.length .zeroed)).2.1
          (convFill o appdata base (done.length + 1) msgs
            (done ++ [r] ++ List.replicate msgs.length .zeroed)).2.2 := by
      intro r
      have h := ih (done ++ [r])
      rwa [List.length_append, List.length_singleton] at h
    simp only [convFill, List.length_cons]
    by_cases hp : msg.prompts = true
    · simp only [hp, if_true]
      cases hs : o.strdup done.length with
      | none => exact .failed done msg msgs hp
      | some addr =>
        simp only [hset]
        exact .copied addr hp (hrest _)
    · have hkeep : done ++ List.replicate (msgs.length + 1) PamResponse.zeroed =
          done ++ [.zeroed] ++ List.replicate msgs.length .zeroed := by
        rw [List.replicate_succ, List.append_assoc]
        rfl
      simp only [hp]
      rw [hkeep]
      exact .other (by simpa using hp) (hrest .zeroed)

/-- A loop that runs to its end answers every message. -/
theorem Fills.answers {o : ConvOutcomes} {appdata : List UInt8} {base : Ptr}
    {done reply : List PamResponse} {msgs : List PamMessage} {ok : Bool} {cs : List HeapCall}
    (h : Fills o appdata base done msgs ok reply cs) (hok : ok = true) :
    ∃ rs, reply = done ++ rs ∧ List.Forall₂ (Answers (cString appdata)) msgs rs := by
  induction h with
  | nil done => exact ⟨[], (List.append_nil done).symm, .nil⟩
  | failed done msg msgs hp => cases hok
  | copied addr hp h ih =>
    obtain ⟨rs, rfl, hrs⟩ := ih hok
    refine ⟨_ :: rs, List.append_assoc .., .cons ⟨fun _ => rfl, fun hn => ?_⟩ hrs⟩
    rw [hp] at hn
    cases hn
  | other hp h ih =>
    obtain ⟨rs, rfl, hrs⟩ := ih hok
    refine ⟨_ :: rs, List.append_assoc .., .cons ⟨fun hy => ?_, fun _ => rfl⟩ hrs⟩
    rw [hp] at hy
    cases hy

theorem convFill_succeeds {o : ConvOutcomes} (ho : ∀ i, (o.strdup i).isSome = true)
    (appdata : List UInt8) (base : Ptr) (i : Nat) (msgs : List PamMessage)
    (reply : List PamResponse) : (convFill o appdata base i msgs reply).1 = true := by
  induction msgs generalizing i reply with
  | nil => rfl
  | cons msg msgs ih =>
    unfold convFill
    split
    · obtain ⟨addr, ha⟩ := Option.isSome_iff_exists.mp (ho i)
      rw [ha]
      exact ih _ _
    · exact ih _ _

/-- **A success delivers the string that `appdata_ptr` leads to.** -/
theorem internalPamConv_delivers (msgs : List PamMessage) (resp : Option Reply)
    (bytes : List UInt8) (o : ConvOutcomes) :
    Delivers (cString bytes) msgs (internalPamConv msgs resp (some bytes) o) := by
  intro h
  cases resp with
  | none =>
    change pamConvErr = pamSuccess at h
    exact absurd h (by decide)
  | some old =>
    by_cases hm : msgs = []
    · simp only [internalPamConv, if_pos hm] at h
      exact absurd h (by decide)
    · cases hc : o.calloc with
      | none =>
        simp only [internalPamConv, if_neg hm, hc] at h
        exact absurd h (by decide)
      | some base =>
        simp only [internalPamConv, if_neg hm, hc] at h ⊢
        by_cases hf : (convFill o bytes base 0 msgs (List.replicate msgs.length .zeroed)).1 = true
        · obtain ⟨rs, he, hrs⟩ := (convFill_fills o bytes base msgs []).answers hf
          simp only [hf, if_true]
          exact ⟨base, rs, congrArg (fun l => some (some (base, l))) he, hrs⟩
        · rw [if_neg hf] at h
          change pamBufErr = pamSuccess at h
          exact absurd h (by decide)

/-- What `candidate_.data()` leads to: the bytes and the NUL that ends a `std::string`. -/
def Child.data (c : Child) : List UInt8 := c.candidate ++ [0]

/-- **The conversation gives PAM the child's candidate exactly when it has no NUL byte**, or
when PAM does not ask for it. -/
theorem delivers_iff (c : Child) {msgs : List PamMessage} (hm : msgs ≠ []) :
    (∀ resp o, Delivers c.candidate msgs (internalPamConv msgs resp (some c.data) o)) ↔
      0 ∉ c.candidate ∨ ∀ msg ∈ msgs, msg.prompts = false := by
  have hall := fun resp o => internalPamConv_delivers msgs resp c.data o
  constructor
  · intro h
    by_contra hno
    obtain ⟨h0, hprompt⟩ := not_or.mp hno
    obtain ⟨msg, hmem, hp⟩ : ∃ msg ∈ msgs, msg.prompts = true := by
      by_contra hnone
      exact hprompt fun msg hmem => by simpa using fun hp => hnone ⟨msg, hmem, hp⟩
    -- nothing fails
    let o : ConvOutcomes := ⟨some 1, fun i => some (i + 2)⟩
    have hok : (internalPamConv msgs (some none) (some c.data) o).1 = pamSuccess := by
      have hf := convFill_succeeds (o := o) (fun _ => rfl) c.data 1 0 msgs
        (List.replicate msgs.length .zeroed)
      simp only [internalPamConv, if_neg hm, o]
      rw [if_pos hf]
    obtain ⟨base, rs, hr, hrs⟩ := h (some none) o hok
    obtain ⟨base', rs', hr', hrs'⟩ := hall (some none) o hok
    cases hr.symm.trans hr'
    obtain ⟨i, hi, rfl⟩ := List.getElem_of_mem hmem
    have hi' : i < rs.length := hrs.length_eq ▸ hi
    have h1 := (hrs.get hi hi').prompt hp
    have h2 := (hrs'.get hi hi').prompt hp
    exact h0 (cString_eq_iff.mp (Option.some.inj (h2.symm.trans h1)))
  · rintro (h0 | hnone) resp o
    · have hd := hall resp o
      rwa [Child.data, cString_eq_iff.mpr h0] at hd
    · intro hok
      obtain ⟨base, rs, hr, hrs⟩ := hall resp o hok
      refine ⟨base, rs, hr, ?_⟩
      rw [List.forall₂_iff_get] at hrs ⊢
      refine ⟨hrs.1, fun i h1 h2 => ⟨fun hp => ?_, (hrs.2 i h1 h2).other⟩⟩
      rw [hnone _ (List.get_mem _ _)] at hp
      cases hp

/-! ## From `verify` to the child -/

/-- A child may still be forked with the candidate that is there. -/
def WorkerPc.forks : WorkerPc → Bool
  | .onBegin => true
  | .fork => true
  | _ => false

/-- The password of the call of `verify` that the client is in. -/
def ClientPc.passing : ClientPc → Option (List UInt8)
  | .compare pass => some pass
  | .join pass => some pass
  | .assign pass => some pass
  | _ => none

/-- The password is carried unchanged from the call to the child. -/
structure Carried (s : State) (tr : List Item) : Prop where
  numbers : ∀ n pass, .verify n pass ∈ tr → n ≤ s.verifies
  unique : ∀ n pass pass', .verify n pass ∈ tr → .verify n pass' ∈ tr → pass = pass'
  passing : ∀ pass, s.client.passing = some pass → .verify s.verifies pass ∈ tr
  created : s.client = .create → .verify s.verifies s.obj.candidate ∈ tr
  forking : ∀ w, s.worker = some w → w.pc.forks = true → .verify w.attempt s.obj.candidate ∈ tr
  children : ∀ c ∈ s.children, .verify c.attempt c.candidate ∈ tr

/-- Only a call of `verify` says so. -/
theorem step_verify {s s' : State} {i : Input} {out : List Item}
    (hs : machine.step s i = some (s', out)) :
    (∃ pass, s.client = .idle ∧ out = [.verify (s.verifies + 1) pass] ∧
      s' = { s with verifies := s.verifies + 1, client := .compare pass }) ∨
    (∀ n pass, .verify n pass ∉ out) ∧ s'.verifies = s.verifies := by
  have hcleared : ∀ n pass, .verify n pass ∉ s.obj.clearCandidate.2 := by
    intro n pass hm
    obtain ⟨bytes, hb⟩ := s.obj.clearCandidate_items _ hm
    cases hb
  cases machine_step hs with
  | verify pass hpc => exact Or.inl ⟨pass, hpc, rfl, rfl⟩
  | stop | delete | otherStop | childEnds => exact Or.inr ⟨by simp, rfl⟩
  | client ok p w pc out h =>
    refine Or.inr ⟨fun n pass hm => ?_, rfl⟩
    cases h with
    | failed hpc =>
      rcases List.mem_append.mp hm with hm | hm
      · exact hcleared n pass hm
      · cases List.mem_singleton.mp hm
    | deleteCleared hpc => exact hcleared n pass hm
    | deleted hpc hstops => split at hm <;> simp at hm
    | _ => simp at hm
  | stopStep i pc pc' client stops p out hi hr h =>
    refine Or.inr ⟨fun n pass hm => ?_, rfl⟩
    cases h <;> simp at hm
  | worker o w p cs pc out hw h =>
    refine Or.inr ⟨fun n pass hm => ?_, rfl⟩
    cases h with
    | called hpc => cases s.obj.invoke_items _ _ _ hm
    | cleared hpc => exact hcleared n pass hm
    | _ => simp at hm

/-- A step that is not a call of `verify` forgets no call. -/
theorem Carried.extend {s s' : State} {tr out : List Item} (h : Carried s tr)
    (hout : ∀ n pass, .verify n pass ∉ out) (hv : s'.verifies = s.verifies)
    (hpassing : ∀ pass, s'.client.passing = some pass → s.client.passing = some pass)
    (hcreated : s'.client = .create →
      s.client = .create ∧ s'.obj.candidate = s.obj.candidate ∨
        s.client.passing = some s'.obj.candidate)
    (hforking : ∀ w, s'.worker = some w → w.pc.forks = true →
      .verify w.attempt s'.obj.candidate ∈ tr)
    (hchildren : ∀ c ∈ s'.children, .verify c.attempt c.candidate ∈ tr) :
    Carried s' (tr ++ out) := by
  have hold : ∀ {n pass}, .verify n pass ∈ tr ++ out → .verify n pass ∈ tr := fun hm =>
    (List.mem_append.mp hm).resolve_right (hout _ _)
  refine ⟨fun n pass hm => ?_,
    fun n pass pass' hm hm' => h.unique n pass pass' (hold hm) (hold hm'),
    fun pass hp => ?_, fun hc => ?_, fun w hw hf => List.mem_append_left _ (hforking w hw hf),
    fun c hc => List.mem_append_left _ (hchildren c hc)⟩
  · rw [hv]
    exact h.numbers n pass (hold hm)
  · rw [hv]
    exact List.mem_append_left _ (h.passing pass (hpassing pass hp))
  · rw [hv]
    refine List.mem_append_left _ ?_
    rcases hcreated hc with ⟨hc, he⟩ | hp
    · rw [he]
      exact h.created hc
    · exact h.passing _ hp

theorem Replaces.place {s : State} {pc : StopPc} {pc' : Option StopPc} {client : ClientPc}
    {stops : List StopPc} (h : Replaces s pc pc' client stops) :
    client = s.client ∨ client.passing = none ∧ client ≠ .create := by
  cases h with
  | client hpc => cases pc' <;> exact Or.inr ⟨rfl, nofun⟩
  | delete hpc => cases pc' <;> exact Or.inr ⟨rfl, nofun⟩
  | other l1 l2 hs => exact Or.inl rfl

/-- A worker that may still fork has changed no candidate, and its child gets it. -/
theorem WorkerStep.forks {s : State} {w : Worker} {o : WorkerOutcomes} {p : Members}
    {cs : List Child} {pc : WorkerPc} {out : List Item} (h : WorkerStep s w o p cs pc out) :
    (pc.forks = true → w.pc.forks = true ∧ p.candidate = s.obj.candidate) ∧
      ∀ c ∈ cs, c ∈ s.children ∨
        w.pc.forks = true ∧ c.attempt = w.attempt ∧ c.candidate = s.obj.candidate := by
  cases h with
  | called hpc =>
    refine ⟨fun hf => ⟨?_, rfl⟩, fun c hc => Or.inl hc⟩
    generalize w.pc = wpc at hpc
    cases hpc <;> first
      | rfl
      | cases hf
  | tested hpc =>
    refine ⟨fun hf => ⟨?_, rfl⟩, fun c hc => Or.inl hc⟩
    generalize w.pc = wpc at hpc
    generalize s.obj.isRunning = running at hpc
    cases hpc <;> cases hf
  | forked pid hpc hpid hnew =>
    refine ⟨nofun, fun c hc => ?_⟩
    rcases List.mem_cons.mp hc with rfl | hc
    · exact Or.inr ⟨by rw [hpc]; rfl, rfl, rfl⟩
    · exact Or.inl hc
  | reaped pid c run hpc ho hc hpid hrun =>
    exact ⟨nofun, fun c hc => Or.inl (List.mem_filter.mp hc).1⟩
  | _ => exact ⟨nofun, fun c hc => Or.inl hc⟩

theorem carried_reach {s : State} {tr : List Item} (h : machine.ReachIf JoinReturns s tr) :
    Carried s tr := by
  refine h.invariant_of (J := fun s _ => s.client.alone = true → s.worker = none) alone_reach ?_ ?_
  · rintro s ⟨handlers, rfl⟩
    exact ⟨nofun, nofun, nofun, nofun, nofun, nofun⟩
  · intro s tr i s' out halone hinv _ hs
    rcases step_verify hs with ⟨pass, hpc, rfl, rfl⟩ | ⟨hout, hv⟩
    · -- a call of `verify` has the next number
      have hnew : ∀ {n p}, .verify n p ∈ tr ++ [Item.verify (s.verifies + 1) pass] →
          .verify n p ∈ tr ∧ n ≤ s.verifies ∨ n = s.verifies + 1 ∧ p = pass := by
        intro n p hm
        rcases List.mem_append.mp hm with hm | hm
        · exact Or.inl ⟨hm, hinv.numbers n p hm⟩
        · cases List.mem_singleton.mp hm
          exact Or.inr ⟨rfl, rfl⟩
      refine ⟨fun n p hm => ?_, fun n p p' hm hm' => ?_, fun p hp => ?_, nofun, fun w hw hf =>
        List.mem_append_left _ (hinv.forking w hw hf), fun c hc =>
        List.mem_append_left _ (hinv.children c hc)⟩
      · show n ≤ s.verifies + 1
        rcases hnew hm with ⟨-, hn⟩ | ⟨hn, -⟩ <;> omega
      · rcases hnew hm with ⟨h1, hn⟩ | ⟨hn, rfl⟩ <;> rcases hnew hm' with ⟨h2, hn'⟩ | ⟨hn', rfl⟩
        · exact hinv.unique n p p' h1 h2
        · omega
        · omega
        · rfl
      · cases hp
        exact List.mem_append_right _ (List.mem_singleton_self _)
    · cases machine_step hs with
      | verify pass hpc => exact absurd (List.mem_singleton_self _) (hout _ _)
      | stop hpc | delete hpc => exact hinv.extend hout hv nofun nofun hinv.forking hinv.children
      | otherStop hpc =>
        exact hinv.extend hout hv (fun _ hp => hp) (fun hc => Or.inl ⟨hc, rfl⟩) hinv.forking
          hinv.children
      | childEnds pid run c hc hpid hrun =>
        refine hinv.extend hout hv (fun _ hp => hp) (fun hc => Or.inl ⟨hc, rfl⟩) hinv.forking ?_
        intro c' hc'
        obtain ⟨c0, hc0, rfl⟩ := List.mem_map.mp hc'
        unfold endChild
        split <;> exact hinv.children c0 hc0
      | client ok p w pc out h =>
        have hgone : s.client.alone = true → ∀ {candidate} w, s.worker = some w →
            w.pc.forks = true → .verify w.attempt candidate ∈ tr := by
          intro ha _ w hw _
          rw [halone ha] at hw
          cases hw
        cases h with
        | refused pass hpc hr => exact hinv.extend hout hv nofun nofun hinv.forking hinv.children
        | claimed pass hpc hr =>
          refine hinv.extend hout hv (fun p hp => ?_) nofun hinv.forking hinv.children
          rw [hpc]
          exact hp
        | joined pass hpc hw =>
          refine hinv.extend hout hv (fun p hp => ?_) nofun nofun hinv.children
          rw [hpc]
          exact hp
        | threw hpc => exact hinv.extend hout hv nofun nofun hinv.forking hinv.children
        | assigned pass hpc =>
          refine hinv.extend hout hv nofun (fun _ => Or.inr ?_) (hgone (by rw [hpc]; rfl))
            hinv.children
          rw [hpc]
          rfl
        | created hpc =>
          refine hinv.extend hout hv nofun nofun (fun w hw _ => ?_) hinv.children
          cases hw
          exact hinv.created hpc
        | caught hpc => exact hinv.extend hout hv nofun nofun hinv.forking hinv.children
        | failed hpc | deleteCleared hpc =>
          exact hinv.extend hout hv nofun nofun (hgone (by rw [hpc]; rfl)) hinv.children
        | deleteJoined hpc hw => exact hinv.extend hout hv nofun nofun nofun hinv.children
        | deleted hpc hstops => exact hinv.extend hout hv nofun nofun hinv.forking hinv.children
      | stopStep i pc pc' client stops p out hi hr h =>
        have hc := h.candidate
        have hplace := hr.place
        refine hinv.extend hout hv (fun pass hp => ?_) (fun hcreate => ?_) (fun w hw hf => ?_)
          hinv.children
        · rcases hplace with he | ⟨hn, -⟩
          · rwa [← he]
          · rw [hn] at hp
            cases hp
        · rcases hplace with he | ⟨-, hn⟩
          · exact Or.inl ⟨he ▸ hcreate, hc⟩
          · exact absurd hcreate hn
        · show .verify w.attempt p.candidate ∈ tr
          rw [hc]
          exact hinv.forking w hw hf
      | worker o w p cs pc out hw h =>
        obtain ⟨hforks, hcs⟩ := h.forks
        have hne : s.client ≠ .create := by
          intro hc
          rw [halone (by rw [hc]; rfl)] at hw
          cases hw
        refine hinv.extend hout hv (fun _ hp => hp) (fun hc => absurd hc hne) (fun w' hw' hf => ?_)
          (fun c hc => ?_)
        · cases hw'
          obtain ⟨hwf, hc⟩ := hforks hf
          show .verify w.attempt p.candidate ∈ tr
          rw [hc]
          exact hinv.forking w hw hwf
        · rcases hcs c hc with hc | ⟨hf, ha, hc⟩
          · exact hinv.children c hc
          · rw [ha, hc]
            exact hinv.forking w hw hf

/-- **Every child gets from its conversation exactly the password that was passed to
`verify`, if and only if the password has no NUL byte** or PAM does not ask for it. -/
theorem conv_exact {s : State} {tr : List Item} (h : machine.ReachIf JoinReturns s tr) {c : Child}
    (hc : c ∈ s.children) {pass : List UInt8} (hp : .verify c.attempt pass ∈ tr)
    {msgs : List PamMessage} (hm : msgs ≠ []) :
    (∀ resp o, Delivers pass msgs (internalPamConv msgs resp (some c.data) o)) ↔
      0 ∉ pass ∨ ∀ msg ∈ msgs, msg.prompts = false := by
  have hinv := carried_reach h
  rw [hinv.unique c.attempt pass c.candidate hp (hinv.children c hc)]
  exact delivers_iff c hm

/-- An informational message and a prompt. -/
def sampleMsgs : List PamMessage := [⟨4⟩, ⟨pamPromptEchoOff⟩]

theorem waitingRun_isSome :
    (machine.exec (start allHandlers) (sampleVerify [115, 101] 7)).isSome = true := by
  decide

/-- The child of an attempt asks for the password. -/
def waitingRun : State × List Item :=
  (machine.exec (start allHandlers) (sampleVerify [115, 101] 7)).get waitingRun_isSome

theorem conv_exact_waitingRun :
    Delivers [115, 101] sampleMsgs (internalPamConv sampleMsgs (some none) (some [115, 101, 0])
      ⟨some 1, fun i => some (i + 2)⟩) :=
  (conv_exact (s := waitingRun.1) (c := ⟨7, 1, [115, 101], none⟩)
    (Machine.reachIf_exec (start_init _) (by decide) waitingRun_isSome)
    (by decide) (by decide) (by decide)).mpr (Or.inl (by decide)) _ _

theorem truncatedRun_isSome :
    (machine.exec (start allHandlers) (sampleVerify [115, 0, 101] 7)).isSome = true := by
  decide

/-- The password has a NUL byte. -/
def truncatedRun : State × List Item :=
  (machine.exec (start allHandlers) (sampleVerify [115, 0, 101] 7)).get truncatedRun_isSome

theorem conv_truncates : internalPamConv sampleMsgs (some none) (some [115, 0, 101, 0])
    ⟨some 1, fun i => some (i + 2)⟩ =
      (pamSuccess, some (some (1, [⟨none, 0⟩, ⟨some ⟨3, [115]⟩, 0⟩])),
        [.calloc 2 (some 1), .strdup [115] (some 3)]) := by
  decide

/-- **Not for every password**: PAM is given the first byte of three. -/
theorem conv_truncated :
    machine.ReachIf JoinReturns truncatedRun.1 truncatedRun.2 ∧
    ∃ c ∈ truncatedRun.1.children, .verify c.attempt [115, 0, 101] ∈ truncatedRun.2 ∧
      ¬Delivers [115, 0, 101] sampleMsgs (internalPamConv sampleMsgs (some none) (some c.data)
        ⟨some 1, fun i => some (i + 2)⟩) := by
  refine ⟨Machine.reachIf_exec (start_init _) (by decide) truncatedRun_isSome,
    ⟨7, 1, [115, 0, 101], none⟩, by decide, by decide, fun h => ?_⟩
  obtain ⟨base, reply, he, hreply⟩ := h (by decide)
  cases (congrArg (·.2.1) conv_truncates).symm.trans he
  rcases hreply with _ | ⟨-, _ | ⟨hanswer, -⟩⟩
  exact absurd (hanswer.prompt (by decide)) (by decide)

end Auth.Password
