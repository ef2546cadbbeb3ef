import Kirilock.MainOutputs

/-!
Every output gets its lock surface, and asks for it once.

Before the lock no surface is attached (`Unattached`); from the end of the attach
loop on, until the session is finished, each has been attached exactly once, by the
loop or by the hotplug path (`Attached`), and a successful attachment left it a lock
surface.  `lockRequests` lists what was asked of each lock.
-/

namespace Kirilock

open Runs Ownership

/-! ## Attachments -/

/-- What the attach calls on the surface `a` returned. -/
def attachResults (a : SurfaceRef) (cs : List Call) : List Bool :=
  cs.filterMap fun
    | .klSurfaceAttachLock b ok => if b = a then some ok else none
    | _ => none

/-- The lock surfaces asked for: lock and output. -/
def lockRequests (cs : List Call) : List (Proxy × Proxy) :=
  cs.filterMap fun
    | .extSessionLockV1GetLockSurface lock _ output _ => some (lock, output)
    | _ => none

/-- A lock surface for the output of `surf`, from the lock that is held. -/
def HasLockSurface (tr : List Item) (lock : Option Proxy) (surf : KlSurface) : Prop :=
  ∃ l ws output ls, lock = some l ∧ surf.wlOutput = some output ∧ surf.extLockSurface = some ls ∧
    .call (.extSessionLockV1GetLockSurface l ws output (some ls)) ∈ tr

def Unattached (tr : List Item) (surf : KlSurface) : Prop :=
  attachResults surf.addr (callsOf tr) = [] ∧ surf.extLockSurface = none

/-- Attached once; a successful attachment left a lock surface. -/
def Attached (tr : List Item) (lock : Option Proxy) (surf : KlSurface) : Prop :=
  ∃ ok, attachResults surf.addr (callsOf tr) = [ok] ∧ (ok = true → HasLockSurface tr lock surf)

@[simp] theorem attachResults_append (a : SurfaceRef) (cs ds : List Call) :
    attachResults a (cs ++ ds) = attachResults a cs ++ attachResults a ds :=
  List.filterMap_append

@[simp] theorem lockRequests_append (cs ds : List Call) :
    lockRequests (cs ++ ds) = lockRequests cs ++ lockRequests ds :=
  List.filterMap_append

theorem attachResults_eq_nil {a : SurfaceRef} {cs : List Call}
    (h : ∀ ok, .klSurfaceAttachLock a ok ∉ cs) : attachResults a cs = [] := by
  refine List.filterMap_eq_nil_iff.mpr fun c hc => ?_
  split
  · rename_i b ok
    refine if_neg ?_
    rintro rfl
    exact h ok hc
  · rfl

theorem lockRequests_eq_nil {cs : List Call}
    (h : ∀ l ws output ret, .extSessionLockV1GetLockSurface l ws output ret ∉ cs) :
    lockRequests cs = [] := by
  refine List.filterMap_eq_nil_iff.mpr fun c hc => ?_
  split
  · exact absurd hc (h _ _ _ _)
  · rfl

/-- Calls that attach nothing. -/
def Call.attaches : Call → Bool
  | .klSurfaceAttachLock .. => true
  | .extSessionLockV1GetLockSurface .. => true
  | _ => false

def Detaching (cs : List Call) : Prop := ∀ c ∈ cs, c.attaches = false

theorem Detaching.results {cs : List Call} (h : Detaching cs) (a : SurfaceRef) :
    attachResults a cs = [] :=
  attachResults_eq_nil fun _ hc => absurd (h _ hc) (by simp [Call.attaches])

theorem Detaching.requests {cs : List Call} (h : Detaching cs) : lockRequests cs = [] :=
  lockRequests_eq_nil fun _ _ _ _ hc => absurd (h _ hc) (by simp [Call.attaches])

theorem detaching_of_drawing {cs : List Call} (h : cs.all Call.drawing) : Detaching cs := by
  intro c hc
  have h := List.all_eq_true.mp h c hc
  cases c <;> first
    | rfl
    | exact absurd h Bool.false_ne_true

theorem Plain.detaching {ctx : KlContext} {cs : List Call} (h : Plain ctx cs) : Detaching cs := by
  intro c hc
  have h := (h c hc).1
  cases c <;> first
    | rfl
    | exact absurd h Bool.false_ne_true

theorem Detaching.append {cs ds : List Call} (h1 : Detaching cs) (h2 : Detaching ds) :
    Detaching (cs ++ ds) :=
  List.forall_mem_append.mpr ⟨h1, h2⟩

theorem detaching_toList_map (x : Option Proxy) (f : Proxy → Call)
    (h : ∀ p, (f p).attaches = false) : Detaching (x.toList.map f) := by
  intro c hc
  obtain ⟨p, -, rfl⟩ := List.mem_map.mp hc
  exact h p

theorem klSurfaceDetachLock_detaching (surf : KlSurface) :
    Detaching (klSurfaceDetachLock surf).2 := by
  obtain ⟨-, surf', cs, hbufs, he⟩ := klSurfaceDetachLock_spec surf
  rw [he]
  have hcb := detaching_toList_map surf.frameCallback .wlCallbackDestroy fun _ => rfl
  have hcs := detaching_of_drawing (drawing_of_backing hbufs.backing)
  have hls := detaching_toList_map surf.extLockSurface .extSessionLockSurfaceV1Destroy fun _ => rfl
  have hws := detaching_toList_map surf.wlSurface .wlSurfaceDestroy fun _ => rfl
  have hhead : Detaching [.klSurfaceDetachLock surf.addr] := by simp [Detaching, Call.attaches]
  exact (((hhead.append hcb).append hcs).append hls).append hws

theorem klSurfaceDestroy_detaching (surf : KlSurface) (releasable : Bool) :
    Detaching (klSurfaceDestroy surf releasable) := by
  have hengine : Detaching (klRenderEngineDestroy (klSurfaceDetachLock surf).1.engine) := by
    cases (klSurfaceDetachLock surf).1.engine with
    | none => simp [Detaching, klRenderEngineDestroy]
    | some engine =>
      exact (detaching_of_drawing (drawing_of_backing
        (klRenderCleanupBaked_inert engine).backing)).append (by simp [Detaching, Call.attaches])
  have hdrop : Detaching ((klSurfaceDetachLock surf).1.wlOutput.toList.flatMap
      (wlOutputDrop · releasable)) := by
    cases (klSurfaceDetachLock surf).1.wlOutput <;> cases releasable <;>
      simp [Detaching, wlOutputDrop, Call.attaches]
  exact (((klSurfaceDetachLock_detaching surf).append hengine).append hdrop).append
    (by simp [Detaching, Call.attaches])

/-! ## What later calls leave of an attachment -/

theorem HasLockSurface.append {tr : List Item} {lock : Option Proxy} {surf surf' : KlSurface}
    (h : HasLockSurface tr lock surf) (out : List Item) (ho : surf'.wlOutput = surf.wlOutput)
    (he : surf'.extLockSurface = surf.extLockSurface) :
    HasLockSurface (tr ++ out) lock surf' := by
  obtain ⟨l, ws, output, ls, h1, h2, h3, h4⟩ := h
  exact ⟨l, ws, output, ls, h1, ho.trans h2, he.trans h3, List.mem_append_left _ h4⟩

/-- The surface is as before but for what no attachment sees. -/
structure SameRole (surf surf' : KlSurface) : Prop where
  addr : surf'.addr = surf.addr
  output : surf'.wlOutput = surf.wlOutput
  lockSurface : surf'.extLockSurface = surf.extLockSurface

theorem SameRole.refl (surf : KlSurface) : SameRole surf surf := ⟨rfl, rfl, rfl⟩

theorem Handled.sameRole {refs : CtxRefs} {surf surf' : KlSurface} {cs : List Call}
    (h : Handled refs surf surf' cs) : SameRole surf surf' :=
  ⟨h.addr, h.output, h.role.2⟩

theorem Unattached.extend {tr out : List Item} {surf surf' : KlSurface} (h : Unattached tr surf)
    (hs : SameRole surf surf') (hout : attachResults surf.addr (callsOf out) = []) :
    Unattached (tr ++ out) surf' := by
  refine ⟨?_, hs.lockSurface.trans h.2⟩
  rw [callsOf_append, attachResults_append, hs.addr, h.1, hout]
  rfl

theorem Unattached.extendCalls {tr : List Item} {surf surf' : KlSurface} (h : Unattached tr surf)
    (hs : SameRole surf surf') {cs : List Call} (hcs : attachResults surf.addr cs = []) :
    Unattached (tr ++ calls cs) surf' :=
  h.extend hs (by rw [callsOf_calls, hcs])

theorem Attached.extend {tr out : List Item} {lock : Option Proxy} {surf surf' : KlSurface}
    (h : Attached tr lock surf) (hs : SameRole surf surf')
    (hout : attachResults surf.addr (callsOf out) = []) : Attached (tr ++ out) lock surf' := by
  obtain ⟨ok, hr, hlock⟩ := h
  refine ⟨ok, ?_, fun hok => (hlock hok).append out hs.output hs.lockSurface⟩
  rw [callsOf_append, attachResults_append, hs.addr, hr, hout, List.append_nil]

theorem Attached.extendCalls {tr : List Item} {lock : Option Proxy} {surf surf' : KlSurface}
    (h : Attached tr lock surf) (hs : SameRole surf surf') {cs : List Call}
    (hcs : attachResults surf.addr cs = []) : Attached (tr ++ calls cs) lock surf' :=
  h.extend hs (by rw [callsOf_calls, hcs])

/-- One attach call on a surface that was not attached. -/
theorem Unattached.attach {tr : List Item} {refs : CtxRefs} {surf surf' : KlSurface}
    {o : AttachOutcomes} {ok : Bool} {cs : List Call} (h : Unattached tr surf)
    (ha : AttachStep refs surf o ok surf' cs) : Attached (tr ++ calls cs) refs.lock surf' := by
  have hresults : attachResults surf'.addr (callsOf (tr ++ calls cs)) = [ok] := by
    rw [callsOf_append, callsOf_calls, attachResults_append, ha.addr, h.1]
    cases ha <;> simp [attachResults]
  refine ⟨ok, hresults, fun hok => ?_⟩
  cases ha with
  | refused | noSurface | noLockSurface => cases hok
  | already hext => simp [h.2] at hext
  | attached lock compositor ws output ls ok hl hc ho hn =>
    exact ⟨lock, ws, output, ls, hl, ho, rfl, List.mem_append_right _ (by simp)⟩

theorem attachResults_of_names {a b : SurfaceRef} {cs : List Call} (h : Names a cs) (hb : b ≠ a) :
    attachResults b cs = [] :=
  attachResults_eq_nil fun _ hc => hb (h _ hc b rfl)

theorem AttachedAll.names {refs : CtxRefs} {ok : Bool} {surfs surfs' : List KlSurface}
    {cs : List Call} (h : AttachedAll refs ok surfs surfs' cs) :
    ∀ c ∈ cs, ∀ a, c.subject = some a → a ∈ surfs.map KlSurface.addr := by
  induction h with
  | nil => simp
  | failed surfs h =>
    intro c hc a ha
    rw [h.memoryless.1 c hc a ha]
    exact List.mem_cons_self
  | cons h _ ih =>
    intro c hc a ha
    rcases List.mem_append.mp hc with hc | hc
    · rw [h.memoryless.1 c hc a ha]
      exact List.mem_cons_self
    · exact List.mem_cons_of_mem _ (ih c hc a ha)

/-- **The attach loop**: every surface it has passed is attached, the others are not. -/
theorem AttachedAll.attached {refs : CtxRefs} {ok : Bool} {surfs surfs' : List KlSurface}
    {cs : List Call} (h : AttachedAll refs ok surfs surfs' cs) {tr : List Item}
    (hn : (surfs.map KlSurface.addr).Nodup) (hu : ∀ surf ∈ surfs, Unattached tr surf) :
    ∀ surf' ∈ surfs', Attached (tr ++ calls cs) refs.lock surf' ∨
      ok = false ∧ Unattached (tr ++ calls cs) surf' := by
  induction h generalizing tr with
  | nil => simp
  | @failed surf surf' o cs surfs h =>
    obtain ⟨hsurf, hsurfs⟩ := List.forall_mem_cons.mp hu
    rw [List.map_cons, List.nodup_cons] at hn
    refine List.forall_mem_cons.mpr ⟨Or.inl (hsurf.attach h), fun x hx => Or.inr ⟨rfl, ?_⟩⟩
    exact (hsurfs x hx).extendCalls (SameRole.refl x)
      (attachResults_of_names h.memoryless.1 fun he => hn.1 (he ▸ List.mem_map_of_mem hx))
  | @cons surf surf' o cs ds ok surfs surfs' h hrest ih =>
    obtain ⟨hsurf, hsurfs⟩ := List.forall_mem_cons.mp hu
    rw [List.map_cons, List.nodup_cons] at hn
    rw [calls_append, ← List.append_assoc]
    have hothers : ∀ x ∈ surfs, Unattached (tr ++ calls cs) x := fun x hx =>
      (hsurfs x hx).extendCalls (SameRole.refl x)
        (attachResults_of_names h.memoryless.1 fun he => hn.1 (he ▸ List.mem_map_of_mem hx))
    refine List.forall_mem_cons.mpr ⟨Or.inl ((hsurf.attach h).extendCalls (SameRole.refl surf') ?_),
      ih hn.2 hothers⟩
    rw [h.addr]
    exact attachResults_eq_nil fun _ hc => hn.1 (hrest.names _ hc _ rfl)

/-! ## Requests for lock surfaces -/

theorem AttachStep.requests {refs : CtxRefs} {surf surf' : KlSurface} {o : AttachOutcomes}
    {ok : Bool} {cs : List Call} (h : AttachStep refs surf o ok surf' cs) :
    lockRequests cs = [] ∨ ∃ lock output, refs.lock = some lock ∧ surf.wlOutput = some output ∧
      lockRequests cs = [(lock, output)] := by
  cases h with
  | refused | already | noSurface => exact Or.inl rfl
  | noLockSurface lock compositor ws output hl hc ho hn => exact Or.inr ⟨lock, output, hl, ho, rfl⟩
  | attached lock compositor ws output ls ok hl hc ho hn =>
    exact Or.inr ⟨lock, output, hl, ho, rfl⟩

/-- The loop asks at most once for each surface's output. -/
theorem AttachedAll.requests {refs : CtxRefs} {ok : Bool} {surfs surfs' : List KlSurface}
    {cs : List Call} (h : AttachedAll refs ok surfs surfs' cs) {lock : Proxy}
    (hl : refs.lock = some lock) :
    (lockRequests cs).Sublist (surfs.filterMap fun surf => surf.wlOutput.map (lock, ·)) := by
  have hone : ∀ {surf surf' o ok cs rest requests}, AttachStep refs surf o ok surf' cs →
      List.Sublist requests rest →
      (lockRequests cs ++ requests).Sublist
        ((surf.wlOutput.map (lock, ·)).toList ++ rest) := by
    intro surf surf' o ok cs rest requests h hsub
    rcases h.requests with hr | ⟨l, output, hl', ho, hr⟩
    · rw [hr]
      exact hsub.trans (List.sublist_append_right _ _)
    · rw [hl, Option.some.injEq] at hl'
      rw [hr, ho, hl']
      exact hsub.cons_cons _
  have hcons : ∀ (surf : KlSurface) surfs,
      ((surf :: surfs).filterMap fun surf => surf.wlOutput.map (lock, ·)) =
        (surf.wlOutput.map (lock, ·)).toList ++
          surfs.filterMap fun surf => surf.wlOutput.map (lock, ·) := by
    intro surf surfs
    rw [List.filterMap_cons]
    cases surf.wlOutput <;> rfl
  induction h with
  | nil => exact List.nil_sublist _
  | failed surfs h =>
    rw [hcons, ← List.append_nil (lockRequests _)]
    exact hone h (List.nil_sublist _)
  | cons h _ ih =>
    rw [hcons, lockRequests_append]
    exact hone h ih

/-- The lock and the output of a request were created before. -/
theorem MainOk.requested {s : MainState} {tr : List Item} (h : MainOk s tr) {lock output : Proxy}
    (hr : (lock, output) ∈ lockRequests (callsOf tr)) :
    .create lock ∈ itemActs tr ∧ .create output ∈ itemActs tr := by
  obtain ⟨c, hc, he⟩ := List.mem_filterMap.mp hr
  split at he
  · rename_i l ws out ret
    simp only [Option.some.injEq, Prod.mk.injEq] at he
    obtain ⟨rfl, rfl⟩ := he
    have hmem := mem_callsOf.mp hc
    have huse : ∀ a ∈ Call.acts (.extSessionLockV1GetLockSurface l ws out ret),
        a ∈ itemActs tr := fun a ha => List.mem_flatMap.mpr ⟨_, hmem, ha⟩
    exact ⟨create_of_use h.sound h.fresh (huse _ (by simp [Call.acts])),
      create_of_use h.sound h.fresh (huse _ (by simp [Call.acts]))⟩
  · cases he

theorem Created.detaching {output : Proxy} {name : UInt32} {surf : KlSurface} {cs : List Call}
    (h : Created output name surf cs) : Detaching cs := by
  obtain ⟨ok, rfl⟩ := h.calls
  simp [Detaching, Call.attaches]

/-! ## Events -/

theorem wlOutputDrop_detaching (output : Proxy) (releasable : Bool) :
    Detaching (wlOutputDrop output releasable) := by
  cases releasable <;> simp [Detaching, wlOutputDrop, Call.attaches]

/-- A surface after an event was there before, or is new: then it is attached at once
where the lock is held and not finished. -/
theorem Dispatched.roles {ctx ctx' : KlContext} {p : Proxy} {d : Listener} {e : ProxyEvent}
    {cs : List Call} (h : Dispatched ctx p d e ctx' cs) {tr : List Item}
    (hr : Roster tr ctx.surfaces) (hnew : NewSurfaces tr cs) :
    ∀ surf' ∈ ctx'.surfaces,
      (∃ surf ∈ ctx.surfaces, SameRole surf surf' ∧ attachResults surf.addr cs = []) ∨
      ((ctx.lock = none ∨ ctx.isFinished = true) ∧
        Unattached (tr ++ [Item.event p d e] ++ calls cs) surf') ∨
      ((ctx.lock.isSome = true ∧ ctx.isFinished = false) ∧
        Attached (tr ++ [Item.event p d e] ++ calls cs) ctx.lock surf') := by
  have hsame : ∀ {cs : List Call}, Detaching cs → ∀ surf ∈ ctx.surfaces,
      ∃ surf0 ∈ ctx.surfaces, SameRole surf0 surf ∧ attachResults surf0.addr cs = [] :=
    fun hcs surf hs => ⟨surf, hs, SameRole.refl surf, hcs.results _⟩
  -- a new surface was never named
  have hfresh : ∀ {output name surf cs}, Created output name surf cs →
      NewSurfaces tr cs → Unattached (tr ++ [Item.event p d e]) surf := by
    intro output name surf cs hs hnew
    refine ⟨?_, hs.unattached⟩
    rw [callsOf_append, callsOf_event_cons, callsOf_nil, List.append_nil]
    refine attachResults_eq_nil fun ok hc => ?_
    have hborn := born_of_named hr.rules (mem_callsOf.mp hc) rfl
    obtain ⟨ok', rfl⟩ := hs.calls
    exact hnew surf.addr (by simp) hborn
  have hbound : ∀ name output {cs}, Detaching cs →
      Detaching (.wlRegistryBind p name .wlOutput (some output) :: cs) :=
    fun _ _ _ h => List.forall_mem_cons.mpr ⟨rfl, h⟩
  cases h with
  | bindFailed | compositor | shm | lockManager =>
    exact fun x hx => Or.inl (hsame (by simp [Detaching, Call.attaches]) x hx)
  | createFailed name output cs releasable hp hcs =>
    refine fun x hx => Or.inl (hsame ((hbound _ _ ?_).append (wlOutputDrop_detaching _ _)) x hx)
    cases hcs <;> simp [Detaching, Call.attaches]
  | created name output surf cs hp hs hl =>
    have hcs := hbound name output hs.detaching
    refine List.forall_mem_cons.mpr ⟨Or.inr (Or.inl ⟨hl, ?_⟩), fun x hx =>
      Or.inl (hsame hcs x hx)⟩
    exact (hfresh hs fun a ha => hnew a (by simp [ha])).extendCalls (SameRole.refl surf)
      (hcs.results _)
  | plugged name output surf surf' cs ds o ok flush hp hs hl hf ha =>
    have hcs := hbound name output hs.detaching
    have hflush := detaching_toList_map ctx.display (.wlDisplayFlush · flush) fun _ => rfl
    have hn : NewSurfaces tr cs := fun a ha => hnew a (by simp [ha])
    refine List.forall_mem_cons.mpr ⟨Or.inr (Or.inr ⟨⟨hl, hf⟩, ?_⟩), fun x hx =>
      Or.inl ⟨x, hx, SameRole.refl x, ?_⟩⟩
    · have h1 := (hfresh hs hn).extendCalls (SameRole.refl surf) (hcs.results _)
      have h2 : Attached _ ctx.lock surf' :=
        (h1.attach ha).extendCalls (SameRole.refl surf') (hflush.results _)
      simpa only [calls_append, List.append_assoc] using h2
    · have hx' : x.addr ≠ surf.addr := by
        intro he
        obtain ⟨ok', rfl⟩ := hs.calls
        exact hn surf.addr (by simp) (he ▸ (hr.alive x hx).1)
      rw [attachResults_append, attachResults_append, hcs.results, hflush.results,
        attachResults_of_names ha.memoryless.1 hx']
      rfl
  | other | notFound | locked | finished =>
    exact fun x hx => Or.inl (hsame (by simp [Detaching]) x hx)
  | removed name l1 l2 surf releasable hs hn hfirst =>
    intro x hx
    refine Or.inl (hsame (klSurfaceDestroy_detaching surf releasable) x ?_)
    rw [hs]
    simp only [List.mem_append, List.mem_cons] at hx ⊢
    tauto
  | handled l1 l2 surf surf' d e cs hs hd hm h =>
    intro x hx
    have hcs := detaching_of_drawing h.drawing
    simp only [List.mem_append, List.mem_cons] at hx
    rcases hx with hx | rfl | hx
    · exact Or.inl (hsame hcs x (by simp [hs, hx]))
    · exact Or.inl ⟨surf, by simp [hs], h.sameRole, hcs.results _⟩
    · exact Or.inl (hsame hcs x (by simp [hs, hx]))

/-- The one request an event can make is for an output that was just bound. -/
theorem Dispatched.requests {ctx ctx' : KlContext} {p : Proxy} {d : Listener} {e : ProxyEvent}
    {cs : List Call} (h : Dispatched ctx p d e ctx' cs) :
    lockRequests cs = [] ∨ ∃ lock output, .create output ∈ acts cs ∧
      lockRequests cs = [(lock, output)] := by
  cases h with
  | bindFailed | compositor | shm | lockManager | other | notFound | locked | finished =>
    exact Or.inl rfl
  | createFailed name output cs releasable hp hcs =>
    exact Or.inl (by cases hcs <;> cases releasable <;> rfl)
  | created name output surf cs hp hs hl =>
    obtain ⟨ok, rfl⟩ := hs.calls
    exact Or.inl rfl
  | plugged name output surf surf' cs ds o ok flush hp hs hl hf ha =>
    have hcs : lockRequests (.wlRegistryBind p name .wlOutput (some output) :: cs) = [] := by
      obtain ⟨ok', rfl⟩ := hs.calls
      rfl
    have hflush := (detaching_toList_map ctx.display (.wlDisplayFlush · flush)
      fun _ => rfl).requests
    rw [lockRequests_append, lockRequests_append, hcs, hflush, List.append_nil, List.nil_append]
    rcases ha.requests with h | ⟨lock, output', -, ho, h⟩
    · exact Or.inl h
    · rw [hs.wlOutput, Option.some.injEq] at ho
      exact Or.inr ⟨lock, output', by simp [ho, Call.acts, Kirilock.created], h⟩
  | removed name l1 l2 surf releasable => exact Or.inl (klSurfaceDestroy_detaching _ _).requests
  | handled l1 l2 surf surf' d e cs hs hd hm h =>
    exact Or.inl (detaching_of_drawing h.drawing).requests

theorem Dispatched.finished_of {ctx ctx' : KlContext} {p : Proxy} {d : Listener} {e : ProxyEvent}
    {cs : List Call} (h : Dispatched ctx p d e ctx' cs) :
    ctx'.isFinished = ctx.isFinished ∨ d = .lock ∧ e = .finished ∧ ctx'.isFinished = true := by
  cases h with
  | finished => exact Or.inr ⟨rfl, rfl, rfl⟩
  | _ => exact Or.inl rfl

/-! ## Every run -/

/-- The attachments in each phase. -/
structure AttachInv (ph : Phase) (ctx : KlContext) (tr : List Item) : Prop where
  early : ph = .early → ∀ surf ∈ ctx.surfaces, Unattached tr surf
  session : ph = .session → ctx.isFinished = false →
    ∀ surf ∈ ctx.surfaces, Attached tr ctx.lock surf
  held : ph = .session → ctx.lock.isSome = true
  ending : ph = .ending → ctx.isFinished = false → ctx.lock.isSome = true →
    ∀ surf ∈ ctx.surfaces, Attached tr ctx.lock surf ∨ Unattached tr surf
  unlocked : ph = .unlocked → ctx.lock = none
  finished : ctx.isFinished = true → ∃ p, .event p .lock .finished ∈ tr

theorem nodup_filterMap_outputs {surfs : List KlSurface} {es : List (UInt32 × Proxy)}
    (h : surfs.map KlSurface.key = es.map fun e => (e.1, some e.2))
    (hn : (es.map Prod.snd).Nodup) (lock : Proxy) :
    (surfs.filterMap fun surf => surf.wlOutput.map (lock, ·)).Nodup := by
  have heq : (surfs.filterMap fun surf => surf.wlOutput.map (lock, ·)) =
      (es.map Prod.snd).map (lock, ·) := by
    have hk : (surfs.filterMap fun surf => surf.wlOutput.map (lock, ·)) =
        (surfs.map KlSurface.key).filterMap fun k => k.2.map (lock, ·) := by
      rw [List.filterMap_map]
      rfl
    rw [hk, h, List.filterMap_map, List.map_map, ← List.filterMap_eq_map]
    rfl
  rw [heq]
  exact hn.map fun _ _ he => (Prod.mk.inj he).2

theorem AttachInv.dispatched {ph : Phase} {ctx ctx' : KlContext} {tr : List Item}
    (h : AttachInv ph ctx tr) {p : Proxy} {d : Listener} {e : ProxyEvent} {cs : List Call}
    (hd : Dispatched ctx p d e ctx' cs) (hr : Roster tr ctx.surfaces) (hnew : NewSurfaces tr cs)
    (hearly : ph = .early → ctx.lock = none) (hph : ph ≠ .ending) :
    AttachInv ph ctx' (tr ++ [Item.event p d e] ++ calls cs) := by
  have hroles := hd.roles hr hnew
  have hlock := hd.lock
  have hold : ∀ {surf : KlSurface}, attachResults surf.addr cs = [] →
      attachResults surf.addr (callsOf ([Item.event p d e] ++ calls cs)) = [] := by
    intro surf h
    simpa using h
  refine ⟨fun he surf' hs' => ?_, fun he hf surf' hs' => ?_, fun he => ?_, fun he => absurd he hph,
    fun he => hlock.trans (h.unlocked he), fun hf => ?_⟩
  · rcases hroles surf' hs' with ⟨surf, hs, hsame, hres⟩ | ⟨-, hu⟩ | ⟨hl, -⟩
    · rw [List.append_assoc]
      exact (h.early he surf hs).extend hsame (hold hres)
    · exact hu
    · simp [hearly he] at hl
  · have hf' : ctx.isFinished = false := by
      rcases hd.finished_of with h1 | ⟨-, -, h1⟩
      · rw [← h1, hf]
      · rw [h1] at hf
        cases hf
    rw [hlock]
    rcases hroles surf' hs' with ⟨surf, hs, hsame, hres⟩ | ⟨hl, -⟩ | ⟨-, ha⟩
    · rw [List.append_assoc]
      exact (h.session he hf' surf hs).extend hsame (hold hres)
    · have hheld := h.held he
      rcases hl with hl | hl
      · simp [hl] at hheld
      · rw [hl] at hf'
        cases hf'
    · exact ha
  · rw [hlock]
    exact h.held he
  · rw [List.append_assoc]
    rcases hd.finished_of with h1 | ⟨rfl, rfl, -⟩
    · obtain ⟨q, hq⟩ := h.finished (h1 ▸ hf)
      exact ⟨q, List.mem_append_left _ hq⟩
    · exact ⟨p, by simp⟩

theorem AttachInv.plain {ph ph' : Phase} {ctx : KlContext} {tr : List Item}
    (h : AttachInv ph ctx tr) {cs : List Call} (hcs : Detaching cs) (hmove : PlainMove ph ph')
    (hearly : ph = .early → ctx.lock = none) : AttachInv ph' ctx (tr ++ calls cs) := by
  have hu : ∀ {surf}, Unattached tr surf → Unattached (tr ++ calls cs) surf :=
    fun hs => hs.extendCalls (SameRole.refl _) (hcs.results _)
  have ha : ∀ {surf}, Attached tr ctx.lock surf → Attached (tr ++ calls cs) ctx.lock surf :=
    fun hs => hs.extendCalls (SameRole.refl _) (hcs.results _)
  have hfin : ctx.isFinished = true → ∃ p, .event p .lock .finished ∈ tr ++ calls cs := by
    intro hf
    obtain ⟨p, hp⟩ := h.finished hf
    exact ⟨p, List.mem_append_left _ hp⟩
  cases hmove with
  | stays ph =>
    exact ⟨fun he surf hs => hu (h.early he surf hs),
      fun he hf surf hs => ha (h.session he hf surf hs), h.held,
      fun he hf hl surf hs => (h.ending he hf hl surf hs).imp ha hu, h.unlocked, hfin⟩
  | early =>
    refine ⟨nofun, nofun, nofun, fun _ _ hl => ?_, nofun, hfin⟩
    simp [hearly rfl] at hl
  | session =>
    exact ⟨nofun, nofun, nofun, fun _ hf _ surf hs => Or.inl (ha (h.session rfl hf surf hs)), nofun,
      hfin⟩
  | unlocked =>
    refine ⟨nofun, nofun, nofun, fun _ _ hl => ?_, nofun, hfin⟩
    simp [h.unlocked rfl] at hl

theorem AttachInv.lock {ctx ctx' : KlContext} {tr : List Item} (h : AttachInv .early ctx tr)
    {ok : Bool} {cs : List Call} (hl : LockStep ctx ok ctx' cs)
    (hn : (ctx.surfaces.map KlSurface.addr).Nodup) (hlock : ctx.lock = none) :
    AttachInv (if ok then .session else .ending) ctx' (tr ++ calls cs) := by
  have hfin : ctx.isFinished = true → ∃ p, .event p .lock .finished ∈ tr ++ calls cs := by
    intro hf
    obtain ⟨p, hp⟩ := h.finished hf
    exact ⟨p, List.mem_append_left _ hp⟩
  cases hl with
  | refused =>
    refine ⟨nofun, nofun, nofun, fun _ _ hl => ?_, nofun, hfin⟩
    simp [hlock] at hl
  | noLock manager hm => exact ⟨nofun, nofun, nofun, fun _ _ hl => (nomatch hl), nofun, hfin⟩
  | noListener manager lock hm =>
    refine ⟨nofun, nofun, nofun, fun _ _ _ surf hs => Or.inr ?_, nofun, hfin⟩
    exact (h.early rfl surf hs).extendCalls (SameRole.refl surf) rfl
  | attached manager lock ok surfs cs hm ha =>
    have hmade : ∀ surf ∈ ctx.surfaces, Unattached (tr ++ calls
        [.extSessionLockManagerV1Lock manager (some lock),
          .extSessionLockV1AddListener lock true]) surf := fun surf hs =>
      (h.early rfl surf hs).extendCalls (SameRole.refl surf) rfl
    have hall := ha.attached hn hmade
    simp only [List.append_assoc, ← calls_append] at hall
    cases ok with
    | true =>
      refine ⟨nofun, fun _ _ surf hs => ?_, fun _ => rfl, nofun, nofun, hfin⟩
      exact (hall surf hs).resolve_right fun h => nomatch h.1
    | false =>
      exact ⟨nofun, nofun, nofun, fun _ _ _ surf hs => (hall surf hs).imp id And.right, nofun, hfin⟩

theorem MainPc.phase_of_dispatching {pc : MainPc} (h : pc.dispatching = true) :
    pc.phase ≠ .ending := by
  cases pc <;> first
    | exact Phase.noConfusion
    | cases h

theorem attachInv_reach {s : MainState} {tr : List Item} (h : mainMachine.Reach s tr) :
    AttachInv s.pc.phase s.ctx tr := by
  refine h.invariant_of (I := fun s tr => AttachInv s.pc.phase s.ctx tr) mainMachine_ok ?_ ?_
  · rintro s ⟨hpc, hctx, -, -⟩
    rw [hpc, hctx]
    exact ⟨nofun, nofun, nofun, nofun, nofun, fun hf => nomatch hf⟩
  · intro s tr i s' out hok hinv _ hs
    obtain ⟨pre, pc, ctx, cs, hm, hstep⟩ := mainMachine_step hok.listening hs
    have hnew : NewSurfaces tr cs := fun a ha htr =>
      hm.new a (List.mem_filterMap.mpr ⟨_, ha, rfl⟩) (hok.allocated a htr)
    rw [hm.pc, hm.ctx, hm.items, ← List.append_assoc]
    cases hstep with
    | deliver p d e o ctx cs hpc hp h =>
      exact hinv.dispatched h hok.roster hnew hok.early (MainPc.phase_of_dispatching hpc)
    | plain i pc cs hcs hmove =>
      rw [List.append_nil]
      exact hinv.plain hcs.detaching hmove hok.early
    | connect o pc hpc hpc' =>
      obtain ⟨h1, h2, -, h3⟩ := klContextInitConnect_fields o
      refine ⟨fun _ => by simp [h1], fun _ _ => by simp [h1], fun he => ?_,
        fun _ _ _ => by simp [h1], fun _ => h2, fun hf => by simp [h3] at hf⟩
      rcases hpc' with ⟨h, -⟩ | h <;> rw [h] at he <;> cases he
    | lock o ok ctx cs hpc h =>
      rw [List.append_nil]
      rw [hpc] at hinv
      have hl := hinv.lock h hok.roster.nodup (hok.early (by rw [hpc]; rfl))
      cases ok <;> exact hl
    | unlock ret ok ctx cs hpc h =>
      rw [List.append_nil]
      rw [hpc] at hinv
      cases h with
      | refused =>
        have hnone : Detaching [] := by simp [Detaching]
        exact hinv.plain hnone .session nofun
      | unlocked lock hl hlocked hf => exact ⟨nofun, nofun, nofun, nofun, fun _ => rfl, nofun⟩
    | destroyObjects releasable ret hpc hd =>
      refine ⟨nofun, nofun, nofun, nofun, nofun, fun hf => ?_⟩
      obtain ⟨p, hp⟩ := hinv.finished hf
      exact ⟨p, by simp [hp]⟩
    | destroyAll => exact ⟨nofun, nofun, nofun, nofun, nofun, nofun⟩
    | destroyDisplay => exact ⟨nofun, nofun, nofun, nofun, nofun, nofun⟩

/-! ## Asked once -/

theorem klContextDetachAll_detaching (surfs : List KlSurface) :
    Detaching (klContextDetachAll surfs).2 := by
  induction surfs with
  | nil => simp [Detaching, klContextDetachAll]
  | cons surf surfs ih => exact (klSurfaceDetachLock_detaching surf).append ih

theorem klContextDestroyObjects_detaching (ctx : KlContext) (releasable : SurfaceRef → Bool) :
    Detaching (klContextDestroyObjects ctx releasable).2 := by
  have hsurfs : Detaching (ctx.surfaces.flatMap fun surf =>
      klSurfaceDestroy surf (releasable surf.addr)) := by
    intro c hc
    obtain ⟨surf, -, hc⟩ := List.mem_flatMap.mp hc
    exact klSurfaceDestroy_detaching surf _ c hc
  have hlock := detaching_toList_map ctx.lock (klContextDestroyLock ctx) fun p => by
    unfold klContextDestroyLock
    split <;> rfl
  obtain ⟨cs, he, hends⟩ := klContextDestroyObjects_calls ctx releasable
  have hcs : Detaching cs := by
    intro c hc
    have h := hends c hc
    cases c <;> first
      | rfl
      | exact absurd h Bool.false_ne_true
  rw [he]
  exact (hsurfs.append hlock).append hcs

theorem klContextInitConnect_detaching (o : ConnectOutcomes) :
    Detaching (klContextInitConnect o).2.2 := by
  intro c hc
  have h := klContextInitConnect_calls o c hc
  cases c <;> first
    | rfl
    | exact absurd h Bool.false_ne_true

/-- What a step asks for is new: of a lock it has just made, or for an output it has
just bound. -/
theorem MainStep.requests {s : MainState} {tr : List Item} (hok : MainOk s tr)
    (hout : s.pc.phase.open = true → OutputsInv tr s.ctx.surfaces) {i : MainInput}
    {pre : List Item} {pc : MainPc} {ctx : KlContext} {cs : List Call}
    (h : MainStep s i pre pc ctx cs) (hnew : ∀ p, .create p ∈ acts cs → .create p ∉ itemActs tr) :
    (lockRequests cs).Nodup ∧ ∀ r ∈ lockRequests cs, r ∉ lockRequests (callsOf tr) := by
  have hnone : ∀ {cs}, lockRequests cs = [] →
      (lockRequests cs).Nodup ∧ ∀ r ∈ lockRequests cs, r ∉ lockRequests (callsOf tr) := by
    intro cs h
    simp [h]
  cases h with
  | deliver p d e o ctx cs hpc hp h =>
    rcases h.requests with h | ⟨lock, output, hc, h⟩
    · exact hnone h
    · rw [h]
      refine ⟨List.nodup_singleton _, List.forall_mem_singleton.mpr fun hr => ?_⟩
      exact hnew output hc (hok.requested hr).2
  | plain i pc cs hcs hmove => exact hnone hcs.detaching.requests
  | connect o pc hpc hpc' => exact hnone (klContextInitConnect_detaching o).requests
  | lock o ok ctx cs hpc h =>
    cases h with
    | refused | noLock | noListener => exact hnone rfl
    | attached manager lock ok surfs cs hm ha =>
      have hinv := hout (by rw [hpc]; rfl)
      have hsub : List.Sublist (lockRequests (.extSessionLockManagerV1Lock manager (some lock) ::
          .extSessionLockV1AddListener lock true :: cs))
          (s.ctx.surfaces.filterMap fun surf => surf.wlOutput.map (lock, ·)) := ha.requests rfl
      refine ⟨(nodup_filterMap_outputs hinv.listed hinv.proxies lock).sublist hsub,
        fun r hr hold => ?_⟩
      obtain ⟨surf, -, he⟩ := List.mem_filterMap.mp (hsub.subset hr)
      obtain ⟨output, -, rfl⟩ := Option.map_eq_some_iff.mp he
      exact hnew lock (by simp [Call.acts, created]) (hok.requested hold).1
  | unlock ret ok ctx cs hpc h =>
    cases h with
    | refused => exact hnone rfl
    | unlocked lock hl hlocked hf =>
      refine hnone (Detaching.requests ?_)
      refine (klContextDetachAll_detaching s.ctx.surfaces).append ?_
      exact List.forall_mem_cons.mpr ⟨rfl, detaching_toList_map _ _ fun _ => rfl⟩
  | destroyObjects | destroyAll =>
    exact hnone (klContextDestroyObjects_detaching s.ctx _).requests
  | destroyDisplay ok ret hpc =>
    exact hnone (detaching_toList_map _ _ fun _ => rfl).requests

theorem lockRequests_nodup {s : MainState} {tr : List Item}
    (h : mainMachine.ReachIf DistinctGlobals s tr) : (lockRequests (callsOf tr)).Nodup := by
  refine h.invariant_of (I := fun _ tr => (lockRequests (callsOf tr)).Nodup)
    (J := fun s tr => MainOk s tr ∧ (s.pc.phase.open = true → OutputsInv tr s.ctx.surfaces))
    (fun h => ⟨mainMachine_ok h.reach, outputsInv_reach h⟩) ?_ ?_
  · exact fun _ _ => List.nodup_nil
  · rintro s tr i s' out ⟨hok, hout⟩ hn _ hs
    obtain ⟨pre, pc, ctx, cs, hm, hstep⟩ := mainMachine_step hok.listening hs
    have hcalls : callsOf (tr ++ out) = callsOf tr ++ cs := by
      rw [hm.items]
      cases hstep <;> simp
    obtain ⟨h1, h2⟩ := hstep.requests hok hout fun p hp =>
      hok.not_created (unborn_of_create hm.fresh hp)
    rw [hcalls, lockRequests_append]
    exact List.nodup_append.mpr ⟨hn, h1, fun r hr r' hr' he => h2 r' hr' (he ▸ hr)⟩

/-- The event `finished` was received. -/
def FinishedIn (tr : List Item) : Prop := ∃ p, .event p .lock .finished ∈ tr

/-- Surfaces, outputs and lock surfaces after the items `tr`. -/
structure OutputsCovered (s : MainState) (tr : List Item) : Prop where
  /-- until the context is destroyed its surfaces are the live outputs, one for each -/
  listed : s.pc.phase.open = true →
    s.ctx.surfaces.map KlSurface.key = (liveOutputs tr).map (fun e => (e.1, some e.2)) ∧
      ((liveOutputs tr).map Prod.fst).Nodup
  /-- from the end of the attach loop on the lock is held, and each was attached once -/
  attached : s.pc.phase = .session → s.ctx.lock.isSome = true ∧ (¬FinishedIn tr →
    ∀ surf ∈ s.ctx.surfaces, ∃ ok, attachResults surf.addr (callsOf tr) = [ok])
  /-- until the lock is released, one whose attachment succeeded has its lock surface -/
  lockSurface : s.pc.phase = .session ∨ s.pc.phase = .ending → s.ctx.lock.isSome = true →
    ¬FinishedIn tr → ∀ surf ∈ s.ctx.surfaces, attachResults surf.addr (callsOf tr) = [true] →
      HasLockSurface tr s.ctx.lock surf
  /-- no lock is asked twice for an output -/
  once : (lockRequests (callsOf tr)).Nodup

/-- **Outputs and lock surfaces**, for any order of the registry's events and any
failures. -/
theorem outputs_covered {s : MainState} {tr : List Item}
    (h : mainMachine.ReachIf DistinctGlobals s tr) : OutputsCovered s tr := by
  have hinv := attachInv_reach h.reach
  have hfin : ¬FinishedIn tr → s.ctx.isFinished = false := by
    intro hnot
    cases hf : s.ctx.isFinished with
    | false => rfl
    | true => exact absurd (hinv.finished hf) hnot
  have hlock : ∀ {surf}, Attached tr s.ctx.lock surf →
      attachResults surf.addr (callsOf tr) = [true] → HasLockSurface tr s.ctx.lock surf := by
    rintro surf ⟨ok, hr, hl⟩ ht
    rw [hr, List.cons.injEq] at ht
    exact hl ht.1
  refine ⟨fun hopen => ?_, fun hph => ⟨hinv.held hph, fun hnot surf hs => ?_⟩,
    fun hph hheld hnot surf hs hr => ?_, lockRequests_nodup h⟩
  · have hout := outputsInv_reach h hopen
    exact ⟨hout.listed, hout.names⟩
  · obtain ⟨ok, hr, -⟩ := hinv.session hph (hfin hnot) surf hs
    exact ⟨ok, hr⟩
  · rcases hph with hph | hph
    · exact hlock (hinv.session hph (hfin hnot) surf hs) hr
    · rcases hinv.ending hph (hfin hnot) hheld surf hs with ha | hu
      · exact hlock ha hr
      · rw [hu.1] at hr
        cases hr

theorem lockedRun_distinct : mainMachine.Meets DistinctGlobals mainStart [] sampleLocking := by
  decide

/-- In the locked run both outputs have their lock surfaces. -/
theorem outputs_covered_lockedRun :
    (liveOutputs lockedRun.2 = [(5, 30), (4, 6)] ∧
      lockRequests (callsOf lockedRun.2) = [(7, 6), (7, 30)]) ∧
    OutputsCovered lockedRun.1 lockedRun.2 :=
  ⟨by decide, outputs_covered
    (Machine.reachIf_exec mainStart_init lockedRun_distinct lockedRun_isSome)⟩

end Kirilock
