import Mathlib.Algebra.BigOperators.Group.Finset.Basic
import Mathlib.Algebra.BigOperators.Fin
import Kirilock.SurfaceFrame

/-!
The proxies a surface owns.

`KlSurface.own lo le` lists them with their listeners; `lo` and `le` say whether
the output and the lock surface have theirs (`add_listener` may fail, and the
code records neither).  Every function of `surface.c` keeps a surface well formed
and is a `Triple` over what the surface owns, borrowing only the proxies of the
context it is given.
-/

namespace Kirilock

open Ownership

/-- A listener that is there only if registering it succeeded. -/
def listenerIf (ok : Bool) (d : Listener) : Option Listener := if ok then some d else none

/-- What the three buffers own. -/
def KlSurface.buffersOwn (surf : KlSurface) : Multiset (Proxy × Option Listener) :=
  ∑ i, (surf.buffers i).own (surf.ref i)

/-- What a surface owns besides its buffers. -/
def KlSurface.roleOwn (surf : KlSurface) (lo le : Bool) : Multiset (Proxy × Option Listener) :=
  held surf.wlOutput (listenerIf lo (.output surf.addr)) + held surf.wlSurface none +
    held surf.extLockSurface (listenerIf le (.lockSurface surf.addr))

def KlSurface.own (surf : KlSurface) (lo le : Bool) : Multiset (Proxy × Option Listener) :=
  held surf.frameCallback (some (.frame surf.addr)) + (surf.roleOwn lo le + surf.buffersOwn)

/-! ## Buffers -/

/-- The part of the buffers that a change of slot `i` leaves alone. -/
def KlSurface.restOwn (surf : KlSurface) (i : Slot) : Multiset (Proxy × Option Listener) :=
  ∑ j ∈ Finset.univ.erase i, (surf.buffers j).own (surf.ref j)

theorem buffersOwn_split (surf : KlSurface) (i : Slot) :
    surf.buffersOwn = (surf.buffers i).own (surf.ref i) + surf.restOwn i :=
  (Finset.add_sum_erase _ _ (Finset.mem_univ i)).symm

theorem restOwn_congr {surf surf' : KlSurface} {i : Slot} (ha : surf'.addr = surf.addr)
    (h : ∀ j, j ≠ i → (surf'.buffers j).wlBuffer = (surf.buffers j).wlBuffer) :
    surf'.restOwn i = surf.restOwn i := by
  refine Finset.sum_congr rfl fun j hj => ?_
  rw [KlBuffer.own, KlBuffer.own, h j (Finset.ne_of_mem_erase hj), KlSurface.ref, KlSurface.ref, ha]

theorem setBuffer_restOwn (surf : KlSurface) (i : Slot) (b : KlBuffer) :
    (surf.setBuffer i b).restOwn i = surf.restOwn i :=
  restOwn_congr rfl fun _ hj => by rw [setBuffer_of_ne surf b hj]

theorem setBuffer_buffersOwn (surf : KlSurface) (i : Slot) (b : KlBuffer) :
    (surf.setBuffer i b).buffersOwn = b.own (surf.ref i) + surf.restOwn i := by
  rw [buffersOwn_split _ i, setBuffer_restOwn, setBuffer_self]
  rfl

/-- Marking a buffer busy or free moves no proxy. -/
theorem setBuffer_own_of_wlBuffer {surf : KlSurface} {i : Slot} {b : KlBuffer}
    (h : b.wlBuffer = (surf.buffers i).wlBuffer) (lo le : Bool) :
    (surf.setBuffer i b).own lo le = surf.own lo le := by
  simp only [KlSurface.own, setBuffer_buffersOwn, buffersOwn_split surf i]
  rw [KlBuffer.own, KlBuffer.own, h]
  rfl

/-! ## One frame -/

theorem frameCommit_triple (B : List Proxy) (surf : KlSurface) {ws wb : Proxy}
    (o : FrameOutcomes) {X : Multiset (Proxy × Option Listener)} {l l' : Option Listener}
    (hws : (ws, l) ∈ X) (hwb : (wb, l') ∈ X) :
    Triple B X (acts (frameCommit surf ws wb o))
      (held o.callback (some (.frame surf.addr)) + X) := by
  have hw : Triple B X [.use ws] X := triple_use B hws
  have hb : Triple B X [.use wb] X := triple_use B hwb
  have hhead : Triple B X [.use ws, .use ws, .use wb, .use ws, .use ws] X :=
    hw.cons (hw.cons (hb.cons (hw.cons hw)))
  have hlast : ∀ Y : Multiset (Proxy × Option Listener),
      Triple B (Y + X) [.use ws] (Y + X) := fun Y =>
    triple_use B (Multiset.mem_add.mpr (Or.inr hws))
  cases hf : o.frame with
  | none =>
    have h := hhead.append hw
    simpa [frameCommit, frameListen, hf, FrameOutcomes.callback, Call.acts, created] using h
  | some cb =>
    have hcreate : Triple B X [.create cb, .use cb] ({(cb, none)} + X) :=
      (triple_create B cb X).cons
        (triple_use B (Multiset.mem_add.mpr (Or.inl (Multiset.mem_singleton_self _))))
    cases hl : o.addListener with
    | false =>
      have h := hhead.append (hcreate.append ((triple_destroy B cb none X).append hw))
      simpa [frameCommit, frameListen, hf, hl, FrameOutcomes.callback, Call.acts, created,
        listened] using h
    | true =>
      have h := hhead.append (hcreate.append
        ((triple_listen B cb none (.frame surf.addr) X).append (hlast _)))
      simpa [frameCommit, frameListen, hf, hl, FrameOutcomes.callback, Call.acts, created,
        listened] using h

/-- The calls that replace the buffer in slot `i` by `b`, over all that the surface owns. -/
theorem BufferCalls.triple_own {refs : CtxRefs} {surf : KlSurface} {i : Slot} {b : KlBuffer}
    {cs : List Call} (h : BufferCalls refs surf i b cs) {B : List Proxy}
    (hB : ∀ p, refs.shm = some p → p ∈ B) (lo le : Bool) :
    Triple B (surf.own lo le) (acts cs) ((surf.setBuffer i b).own lo le) := by
  refine ((h.triple B hB).frame (held surf.frameCallback (some (.frame surf.addr)) +
    surf.roleOwn lo le + surf.restOwn i)).cast ?_ ?_
  · rw [KlSurface.own, buffersOwn_split surf i]
    abel
  · rw [KlSurface.own, setBuffer_buffersOwn]
    simp only [KlSurface.setBuffer, KlSurface.roleOwn]
    abel

theorem FrameStep.triple {refs : CtxRefs} {surf surf' : KlSurface} {o : FrameOutcomes}
    {cs : List Call} (h : FrameStep refs surf o surf' cs) (hwf : surf.WellFormed) {B : List Proxy}
    (hB : ∀ p, refs.shm = some p → p ∈ B) (lo le : Bool) :
    Triple B (surf.own lo le) (acts cs) (surf'.own lo le) := by
  cases h with
  | skipped => exact triple_nil B _
  | noBuffer => exact triple_nil B _
  | createFailed hc hp i hfree b hb c1 hc1 hfail =>
    rw [acts_append, show acts (frameEntry surf (some i)) = [] from rfl, List.nil_append]
    exact hc1.triple_own hB lo le
  | committed hc hp ws hws hw hh i hfree b wb hb c1 c2 c3 hc1 hc2 hc3 engine t0 t1 el =>
    have hcb : surf.frameCallback = none := by
      have := hwf.pending
      rw [hp] at this
      simpa using this.symm
    have hown : (surf.committed i b engine t0 t1 o.callback).own lo le =
        held o.callback (some (.frame surf.addr)) + (surf.setBuffer i b).own lo le := by
      have hbusy : (surf.committed i b engine t0 t1 o.callback).buffersOwn =
          (surf.setBuffer i b).buffersOwn := by
        rw [buffersOwn_split _ i, setBuffer_buffersOwn, ← setBuffer_restOwn surf i b]
        congr 1
        · simp [KlSurface.committed, KlBuffer.own, KlSurface.ref]
        · exact restOwn_congr rfl fun j hj => by
            simp [KlSurface.committed, KlSurface.setBuffer, hj]
      simp only [KlSurface.own, hbusy]
      simp only [KlSurface.committed, KlSurface.setBuffer, KlSurface.roleOwn, hcb, held_none,
        zero_add]
    have hws' : (ws, (none : Option Listener)) ∈ (surf.setBuffer i b).own lo le := by
      simp [KlSurface.own, KlSurface.roleOwn, KlSurface.setBuffer, hws]
    have hwb' : (wb, some (Listener.buffer (surf.ref i))) ∈ (surf.setBuffer i b).own lo le := by
      simp [KlSurface.own, setBuffer_buffersOwn, KlBuffer.own, hb.wlBuffer]
    rw [hown]
    have h1 := (hc1.triple_own hB lo le).append (frameCommit_triple B surf o hws' hwb')
    simpa [frameEntry, Call.acts, hc2.acts, hc3.acts] using h1

theorem KlSurface.WellFormed.setBuffer {surf : KlSurface} (h : surf.WellFormed) (i : Slot)
    {b : KlBuffer} (hcb : ∀ wb, b.wlBuffer = some wb →
      b.onRelease = some .klSurfaceOnBufferRelease ∧ b.userData = some surf.addr)
    (hidle : b.wlBuffer = none → b.busy = false) : (surf.setBuffer i b).WellFormed := by
  refine ⟨h.pending, h.configured, h.role, fun j wb hj => ?_, fun j hj => ?_, h.current,
    h.output⟩
  · by_cases hji : j = i
    · subst hji
      rw [setBuffer_self] at hj ⊢
      exact hcb wb hj
    · rw [setBuffer_of_ne _ _ hji] at hj ⊢
      exact h.callback j wb hj
  · by_cases hji : j = i
    · subst hji
      rw [setBuffer_self] at hj ⊢
      exact hidle hj
    · rw [setBuffer_of_ne _ _ hji] at hj ⊢
      exact h.idle j hj

theorem FrameStep.wellFormed {refs : CtxRefs} {surf surf' : KlSurface} {o : FrameOutcomes}
    {cs : List Call} (h : FrameStep refs surf o surf' cs) (hwf : surf.WellFormed) :
    surf'.WellFormed := by
  cases h with
  | skipped => exact hwf
  | noBuffer => exact ⟨hwf.pending, hwf.configured, hwf.role, hwf.callback, hwf.idle, hwf.current,
      hwf.output⟩
  | createFailed hc hp i hfree b hb c1 hc1 hfail =>
    exact (hwf.setCurrent i).setBuffer i (fun wb hwb => by simp [hb.wlBuffer] at hwb)
      fun _ => hb.busy
  | committed hc hp ws hws hw hh i hfree b wb hb c1 c2 c3 hc1 hc2 hc3 engine t0 t1 el =>
    have hset := hwf.setBuffer i (b := { b with busy := true })
      (fun _ _ => ⟨hb.onRelease, hb.userData⟩) (fun hn => by simp [hb.wlBuffer] at hn)
    exact ⟨rfl, hset.configured, hset.role, hset.callback, hset.idle, i.isLt, hset.output⟩

/-! ## Notes -/

/-- The calls say of the surface's buffers what the surface then records, and nothing
of other surfaces' buffers. -/
structure Noted (surf surf' : KlSurface) (cs : List Call) : Prop where
  agrees : ∀ f, (∀ i, f (surf.ref i) = (surf.buffers i).wlBuffer) →
    ∀ i, noteAll f cs (surf'.ref i) = (surf'.buffers i).wlBuffer
  others : ∀ f buf, buf.surface ≠ surf.addr → noteAll f cs buf = f buf

theorem Noted.of_noteless {surf surf' : KlSurface} {cs : List Call} (h : Noteless cs)
    (ha : surf'.addr = surf.addr)
    (hb : ∀ i, (surf'.buffers i).wlBuffer = (surf.buffers i).wlBuffer) : Noted surf surf' cs := by
  refine ⟨fun f hf i => ?_, fun f buf _ => by rw [h.noteAll]⟩
  rw [h.noteAll, hb i, ← hf i, KlSurface.ref, KlSurface.ref, ha]

theorem Noted.trans {surf mid surf' : KlSurface} {cs ds : List Call} (h1 : Noted surf mid cs)
    (h2 : Noted mid surf' ds) (ha : mid.addr = surf.addr) : Noted surf surf' (cs ++ ds) := by
  refine ⟨fun f hf i => ?_, fun f buf hb => ?_⟩
  · rw [noteAll_append]
    exact h2.agrees _ (h1.agrees f hf) i
  · rw [noteAll_append, h2.others _ _ (by rwa [ha]), h1.others f buf hb]

theorem BufferCalls.noted_setBuffer {refs : CtxRefs} {surf : KlSurface} {i : Slot} {b : KlBuffer}
    {cs : List Call} (h : BufferCalls refs surf i b cs) : Noted surf (surf.setBuffer i b) cs := by
  refine ⟨fun f hf j => ?_, fun f buf hb => ?_⟩
  · by_cases hji : j = i
    · subst hji
      rw [setBuffer_self]
      exact h.noted f (hf j)
    · rw [setBuffer_of_ne _ _ hji, ← hf j]
      exact noteAll_of_ne h.notes f fun he => hji (congrArg BufferRef.slot he)
  · refine noteAll_of_ne h.notes f fun he => hb ?_
    rw [he]
    rfl

theorem frameCommit_noteless (surf : KlSurface) (ws wb : Proxy) (o : FrameOutcomes) :
    Noteless (frameCommit surf ws wb o) := by
  unfold frameCommit frameListen
  cases o.frame with
  | none => exact noteless_of_all rfl
  | some cb => cases o.addListener <;> exact noteless_of_all rfl

theorem FrameStep.noted {refs : CtxRefs} {surf surf' : KlSurface} {o : FrameOutcomes}
    {cs : List Call} (h : FrameStep refs surf o surf' cs) : Noted surf surf' cs := by
  have hentry : ∀ ret, Noted surf surf (frameEntry surf ret) := fun ret =>
    .of_noteless (noteless_of_all rfl) rfl fun _ => rfl
  cases h with
  | skipped => exact .of_noteless (noteless_of_all rfl) rfl fun _ => rfl
  | noBuffer => exact ⟨(hentry none).agrees, (hentry none).others⟩
  | createFailed hc hp i hfree b hb c1 hc1 hfail =>
    have h := (hentry (some i)).trans hc1.noted_setBuffer rfl
    exact ⟨h.agrees, h.others⟩
  | committed hc hp ws hws hw hh i hfree b wb hb c1 c2 c3 hc1 hc2 hc3 engine t0 t1 el =>
    have h1 := (hentry (some i)).trans hc1.noted_setBuffer rfl
    have h2 : Noted (surf.setBuffer i b) (surf.committed i b engine t0 t1 o.callback)
        (c2 ++ .klRenderEngineDraw (surf.ref i) (some wb) surf.width surf.height surf.scale el ::
          c3 ++ frameCommit surf ws wb o) := by
      refine .of_noteless ?_ rfl fun j => ?_
      · refine (hc2.noteless.append ?_).append (frameCommit_noteless surf ws wb o)
        exact List.forall_mem_cons.mpr ⟨rfl, hc3.noteless⟩
      · by_cases hji : j = i
        · subst hji
          simp [KlSurface.committed]
        · simp [KlSurface.committed, setBuffer_of_ne _ _ hji, hji]
    have h := h1.trans h2 rfl
    simpa only [List.append_assoc, List.cons_append] using h

theorem FrameStep.drawing {refs : CtxRefs} {surf surf' : KlSurface} {o : FrameOutcomes}
    {cs : List Call} (h : FrameStep refs surf o surf' cs) : cs.all Call.drawing := by
  have hcommit : ∀ ws wb, (frameCommit surf ws wb o).all Call.drawing := by
    intro ws wb
    unfold frameCommit frameListen
    cases o.frame with
    | none => rfl
    | some cb => cases o.addListener <;> rfl
  have hdraw : ∀ {ref wb w h s e}, (Call.klRenderEngineDraw ref wb w h s e).drawing = true := rfl
  cases h with
  | skipped => rfl
  | noBuffer => rfl
  | createFailed hc hp i hfree b hb c1 hc1 =>
    rw [List.all_append, drawing_of_backing hc1.backing]
    rfl
  | committed hc hp ws hws hw hh i hfree b wb hb c1 c2 c3 hc1 hc2 hc3 =>
    simp only [List.all_append, List.all_cons, drawing_of_backing hc1.backing,
      drawing_of_backing hc2.backing, drawing_of_backing hc3.backing, hcommit, hdraw]
    rfl

theorem FrameStep.names {refs : CtxRefs} {surf surf' : KlSurface} {o : FrameOutcomes}
    {cs : List Call} (h : FrameStep refs surf o surf' cs) : Names surf.addr cs := by
  have hentry : ∀ ret, Names surf.addr (frameEntry surf ret) := by
    simp [Names, frameEntry, Call.subject]
  have hcommit : ∀ ws wb, Names surf.addr (frameCommit surf ws wb o) := by
    intro ws wb
    unfold frameCommit frameListen
    cases o.frame with
    | none => simp [Names, Call.subject]
    | some cb => cases o.addListener <;> simp [Names, Call.subject]
  cases h with
  | skipped => simp [Names, Call.subject]
  | noBuffer => exact hentry none
  | createFailed hc hp i hfree b hb c1 hc1 => exact (hentry _).append hc1.names
  | committed hc hp ws hws hw hh i hfree b wb hb c1 c2 c3 hc1 hc2 hc3 engine t0 t1 el =>
    have hdraw : Names surf.addr (.klRenderEngineDraw (surf.ref i) (some wb) surf.width
        surf.height surf.scale el :: c3) :=
      List.forall_mem_cons.mpr ⟨by simp [Call.subject, KlSurface.ref], hc3.names _⟩
    exact ((((hentry _).append hc1.names).append (hc2.names _)).append hdraw).append (hcommit _ _)

/-! ## Handlers -/

/-- What every handler keeps: the surface stays well formed and at its address,
and its proxies are accounted for. -/
structure Handled (refs : CtxRefs) (surf surf' : KlSurface) (cs : List Call) : Prop where
  wellFormed : surf'.WellFormed
  addr : surf'.addr = surf.addr
  name : surf'.globalName = surf.globalName
  output : surf'.wlOutput = surf.wlOutput
  role : surf'.wlSurface = surf.wlSurface ∧ surf'.extLockSurface = surf.extLockSurface
  triple : ∀ (B : List Proxy) lo le, (∀ p, refs.shm = some p → p ∈ B) →
    Triple B (surf.own lo le) (acts cs) (surf'.own lo le)
  drawing : cs.all Call.drawing
  noted : Noted surf surf' cs
  names : Names surf.addr cs

theorem Handled.refl (refs : CtxRefs) {surf : KlSurface} (hwf : surf.WellFormed) :
    Handled refs surf surf [] :=
  ⟨hwf, rfl, rfl, rfl, ⟨rfl, rfl⟩, fun B _ _ _ => triple_nil B _, rfl,
    .of_noteless (noteless_of_all rfl) rfl fun _ => rfl, by simp [Names]⟩

theorem FrameStep.handled {refs : CtxRefs} {surf surf' : KlSurface} {o : FrameOutcomes}
    {cs : List Call} (h : FrameStep refs surf o surf' cs) (hwf : surf.WellFormed) :
    Handled refs surf surf' cs := by
  refine ⟨h.wellFormed hwf, ?_, ?_, ?_, ?_, fun B lo le hB => h.triple hwf hB lo le, h.drawing,
    h.noted, h.names⟩ <;> cases h <;> first | rfl | exact ⟨rfl, rfl⟩

theorem Handled.trans {refs : CtxRefs} {surf mid surf' : KlSurface} {cs ds : List Call}
    (h1 : Handled refs surf mid cs) (h2 : Handled refs mid surf' ds) :
    Handled refs surf surf' (cs ++ ds) := by
  refine ⟨h2.wellFormed, h2.addr.trans h1.addr, h2.name.trans h1.name, h2.output.trans h1.output,
    ⟨h2.role.1.trans h1.role.1, h2.role.2.trans h1.role.2⟩, fun B lo le hB => ?_, ?_,
    h1.noted.trans h2.noted h1.addr, h1.names.append (h1.addr ▸ h2.names)⟩
  · rw [acts_append]
    exact (h1.triple B lo le hB).append (h2.triple B lo le hB)
  · rw [List.all_append, h1.drawing, h2.drawing]
    rfl

/-- The surface once the buffer in slot `i` is free again. -/
def KlSurface.released (surf : KlSurface) (i : Slot) : KlSurface :=
  surf.setBuffer i (klBufferHandleRelease (surf.buffers i)).1

theorem klBufferHandleRelease_eq {buf : KlBuffer} {a : SurfaceRef}
    (hcb : buf.onRelease = some .klSurfaceOnBufferRelease) (hud : buf.userData = some a) :
    klBufferHandleRelease buf =
      ({ buf with busy := false }, some (.klSurfaceOnBufferRelease, some a)) := by
  simp only [klBufferHandleRelease, hcb, hud]

theorem klBufferHandleRelease_fst (buf : KlBuffer) :
    (klBufferHandleRelease buf).1 = { buf with busy := false } := by
  unfold klBufferHandleRelease
  cases buf.onRelease <;> rfl

/-- The release handler on a buffer that has its `wl_buffer`: the callback runs
with this surface as its user data. -/
theorem klSurfaceBufferRelease_eq (refs : CtxRefs) {surf : KlSurface} (hwf : surf.WellFormed)
    {i : Slot} {wb : Proxy} (hwb : (surf.buffers i).wlBuffer = some wb) (o : FrameOutcomes) :
    klSurfaceBufferRelease refs surf i o =
      ((klSurfaceOnBufferRelease refs (surf.released i) o).1,
        .klSurfaceOnBufferRelease surf.addr ::
          (klSurfaceOnBufferRelease refs (surf.released i) o).2) := by
  obtain ⟨hcb, hud⟩ := hwf.callback i wb hwb
  simp only [klSurfaceBufferRelease, KlSurface.released, klBufferHandleRelease_eq hcb hud]
  exact if_pos rfl

theorem KlSurface.WellFormed.released {surf : KlSurface} (hwf : surf.WellFormed) (i : Slot) :
    (surf.released i).WellFormed := by
  rw [KlSurface.released, klBufferHandleRelease_fst]
  exact hwf.setBuffer i (hwf.callback i) fun _ => rfl

theorem released_own (surf : KlSurface) (i : Slot) (lo le : Bool) :
    (surf.released i).own lo le = surf.own lo le := by
  have h : (klBufferHandleRelease (surf.buffers i)).1.wlBuffer = (surf.buffers i).wlBuffer := by
    rw [klBufferHandleRelease_fst]
  exact setBuffer_own_of_wlBuffer h lo le

/-! ## Events -/

/-- Which of its proxies a surface listens to, and with which data. -/
theorem mem_own_listener {surf : KlSurface} {lo le : Bool} {p : Proxy} {d : Listener}
    (h : (p, some d) ∈ surf.own lo le) :
    (d = .output surf.addr ∧ surf.wlOutput = some p) ∨
    (d = .lockSurface surf.addr ∧ surf.extLockSurface = some p) ∨
    (d = .frame surf.addr ∧ surf.frameCallback = some p) ∨
    ∃ i, d = .buffer (surf.ref i) ∧ (surf.buffers i).wlBuffer = some p := by
  have hif : ∀ {b : Bool} {d' : Listener}, some d = listenerIf b d' → d = d' := by
    intro b d' hb
    cases b
    · cases hb
    · simpa [listenerIf] using hb
  simp only [KlSurface.own, KlSurface.roleOwn, KlSurface.buffersOwn, Multiset.mem_add, mem_held,
    Multiset.mem_sum, KlBuffer.own, Finset.mem_univ, true_and] at h
  rcases h with ⟨h1, h2⟩ | ((⟨h1, h2⟩ | ⟨h1, h2⟩) | ⟨h1, h2⟩) | ⟨i, h1, h2⟩
  · exact Or.inr (Or.inr (Or.inl ⟨by simpa using h2, h1⟩))
  · exact Or.inl ⟨hif h2, h1⟩
  · cases h2
  · exact Or.inr (Or.inl ⟨hif h2, h1⟩)
  · exact Or.inr (Or.inr (Or.inr ⟨i, by simpa using h2, h1⟩))

/-- What a handler does before it may draw: the surface `mid` it leaves and its calls. -/
inductive Prepared (surf : KlSurface) (p : Proxy) :
    Listener → ProxyEvent → KlSurface → List Call → Prop
  | other : Prepared surf p (.output surf.addr) .outputOther surf []
  | sameScale (factor : Int32) (h : ¬(0 < factor ∧ surf.scale ≠ factor)) :
      Prepared surf p (.output surf.addr) (.scale factor) surf []
  | scale (factor : Int32) (h : 0 < factor) :
      Prepared surf p (.output surf.addr) (.scale factor)
        { surf with scale := factor, dirty := true } []
  | configure (serial width height : UInt32) (h : surf.extLockSurface = some p) :
      Prepared surf p (.lockSurface surf.addr) (.configure serial width height)
        { surf with width := width, height := height, configured := true, dirty := true }
        [.extSessionLockSurfaceV1AckConfigure p serial]
  | done (h : surf.frameCallback = some p) :
      Prepared surf p (.frame surf.addr) .done
        { surf with frameCallback := none, framePending := false } [.wlCallbackDestroy p]
  | release (i : Slot) (h : (surf.buffers i).wlBuffer = some p) :
      Prepared surf p (.buffer (surf.ref i)) .release (surf.released i)
        [.klSurfaceOnBufferRelease surf.addr]

theorem Prepared.noted {surf mid : KlSurface} {p : Proxy} {d : Listener} {e : ProxyEvent}
    {pre : List Call} (h : Prepared surf p d e mid pre) : Noted surf mid pre := by
  cases h with
  | release i =>
    refine .of_noteless (noteless_of_all rfl) rfl fun j => ?_
    rw [KlSurface.released, klBufferHandleRelease_fst]
    by_cases hji : j = i
    · subst hji
      simp
    · rw [setBuffer_of_ne _ _ hji]
  | other | sameScale | scale => exact .of_noteless (noteless_of_all rfl) rfl fun _ => rfl
  | configure | done => exact .of_noteless (noteless_of_all rfl) rfl fun _ => rfl

theorem Prepared.names {surf mid : KlSurface} {p : Proxy} {d : Listener} {e : ProxyEvent}
    {pre : List Call} (h : Prepared surf p d e mid pre) : Names surf.addr pre := by
  cases h <;> simp [Names, Call.subject]

theorem Prepared.handled {surf mid : KlSurface} {p : Proxy} {d : Listener} {e : ProxyEvent}
    {pre : List Call} (h : Prepared surf p d e mid pre) (refs : CtxRefs) (hwf : surf.WellFormed) :
    Handled refs surf mid pre := by
  have hnoted := h.noted
  have hnames := h.names
  cases h with
  | other => exact Handled.refl refs hwf
  | sameScale => exact Handled.refl refs hwf
  | scale factor hf =>
    exact ⟨⟨hwf.pending, hwf.configured, hwf.role, hwf.callback, hwf.idle, hwf.current,
      hwf.output⟩, rfl, rfl, rfl, ⟨rfl, rfl⟩, fun B lo le _ => triple_nil B (surf.own lo le), rfl,
      hnoted, hnames⟩
  | configure serial width height he =>
    refine ⟨⟨hwf.pending, fun _ => by simp [he], hwf.role, hwf.callback, hwf.idle, hwf.current,
      hwf.output⟩, rfl, rfl, rfl, ⟨rfl, rfl⟩, fun B lo le _ => ?_, rfl, hnoted,
      hnames⟩
    exact triple_use B (l := listenerIf le (.lockSurface surf.addr)) (by
      simp [KlSurface.own, KlSurface.roleOwn, he])
  | done hcb =>
    refine ⟨⟨rfl, hwf.configured, hwf.role, hwf.callback, hwf.idle, hwf.current,
      hwf.output⟩, rfl, rfl, rfl, ⟨rfl, rfl⟩, fun B lo le _ => ?_, rfl, hnoted,
      hnames⟩
    refine (triple_destroy B p (some (.frame surf.addr))
      (surf.roleOwn lo le + surf.buffersOwn)).cast ?_ (zero_add _).symm
    rw [KlSurface.own, hcb, held_some]
  | release i hwb =>
    refine ⟨hwf.released i, rfl, rfl, rfl, ⟨rfl, rfl⟩, fun B lo le _ => ?_, rfl, hnoted,
      hnames⟩
    rw [released_own]
    exact triple_nil B _

/-- What a handler does: it prepares, and then draws unless there is nothing to draw. -/
inductive HandlerStep (refs : CtxRefs) (surf : KlSurface) (p : Proxy) (d : Listener)
    (e : ProxyEvent) (o : FrameOutcomes) : KlSurface → List Call → Prop
  | rests (mid : KlSurface) (pre : List Call) (hpre : Prepared surf p d e mid pre)
      (hrest : (mid = surf ∧ e ≠ .done ∧ e ≠ .release) ∨
        (e ≠ .done ∧ (mid.framePending = true ∨ mid.configured = false)) ∨
        (e = .release ∧ mid.dirty = false)) : HandlerStep refs surf p d e o mid pre
  | draws (mid surf' : KlSurface) (pre cs : List Call) (hpre : Prepared surf p d e mid pre)
      (hframe : FrameStep refs mid o surf' cs) : HandlerStep refs surf p d e o surf' (pre ++ cs)

/-- The surface with which the handler of an event calls `kl_surface_render_frame`, if it does. -/
def KlSurface.entry (surf : KlSurface) : Listener → ProxyEvent → Option KlSurface
  | _, .scale factor =>
    if (0 < factor ∧ surf.scale ≠ factor) ∧ surf.framePending = false ∧ surf.configured = true then
      some { surf with scale := factor, dirty := true }
    else none
  | _, .configure _ width height =>
    if surf.framePending = false then
      some { surf with width := width, height := height, configured := true, dirty := true }
    else none
  | _, .done => some { surf with frameCallback := none, framePending := false }
  | .buffer buf, .release =>
    if surf.dirty = true ∧ surf.framePending = false ∧ surf.configured = true then
      some (surf.released buf.slot)
    else none
  | _, _ => none

/-- What a handler returns: the frame it draws, or what it prepared. -/
inductive HandlerEntry (refs : CtxRefs) (surf : KlSurface) (p : Proxy) (d : Listener)
    (e : ProxyEvent) (o : FrameOutcomes) : KlSurface × List Call → Prop
  | rests (mid : KlSurface) (pre : List Call) (hpre : Prepared surf p d e mid pre)
      (hentry : surf.entry d e = none)
      (hrest : (mid = surf ∧ e ≠ .done ∧ e ≠ .release) ∨
        (e ≠ .done ∧ (mid.framePending = true ∨ mid.configured = false)) ∨
        (e = .release ∧ mid.dirty = false)) : HandlerEntry refs surf p d e o (mid, pre)
  | draws (mid : KlSurface) (pre : List Call) (hpre : Prepared surf p d e mid pre)
      (hentry : surf.entry d e = some mid) :
      HandlerEntry refs surf p d e o
        ((klSurfaceRenderFrame refs mid o).1, pre ++ (klSurfaceRenderFrame refs mid o).2)

theorem klSurfaceRequestRender_entry (refs : CtxRefs) {surf : KlSurface} (mid : KlSurface)
    {p : Proxy} {d : Listener} {e : ProxyEvent} {pre : List Call} (o : FrameOutcomes)
    (hpre : Prepared surf p d e mid.setDirty pre) (he : e ≠ .done)
    (hdraw : mid.framePending = false ∧ mid.configured = true →
      surf.entry d e = some mid.setDirty)
    (hrest : ¬(mid.framePending = false ∧ mid.configured = true) → surf.entry d e = none) :
    HandlerEntry refs surf p d e o ((klSurfaceRequestRender refs mid o).1,
      pre ++ (klSurfaceRequestRender refs mid o).2) := by
  simp only [klSurfaceRequestRender]
  split
  · rename_i h
    exact .draws _ _ hpre (hdraw h)
  · rename_i h
    rw [List.append_nil]
    refine .rests _ _ hpre (hrest h) (Or.inr (Or.inl ⟨he, ?_⟩))
    simp only [KlSurface.setDirty] at h ⊢
    cases hp : mid.framePending with
    | true => exact Or.inl rfl
    | false => exact Or.inr (by simpa [hp] using h)

/-- **Every handler of a surface**, run for an event on one of its proxies. -/
theorem klSurfaceHandle_entry {refs : CtxRefs} {surf : KlSurface} (hwf : surf.WellFormed)
    {p : Proxy} {d : Listener} {e : ProxyEvent} {o : FrameOutcomes} {r : KlSurface × List Call}
    {lo le : Bool} (hm : (p, some d) ∈ surf.own lo le)
    (h : klSurfaceHandle refs surf p d e o = some r) : HandlerEntry refs surf p d e o r := by
  rcases mem_own_listener hm with ⟨rfl, -⟩ | ⟨rfl, hp⟩ | ⟨rfl, hp⟩ | ⟨i, rfl, hp⟩
  · cases e <;> simp only [klSurfaceHandle, if_true, Option.some.injEq, reduceCtorEq] at h
    case scale factor =>
      subst h
      unfold klOutputHandleScale
      split
      · rename_i hf
        have hpre : Prepared surf p _ _ _ _ := .scale factor hf.1
        have hentry := klSurfaceRequestRender_entry refs
          (KlSurface.setDirty { surf with scale := factor }) o hpre nofun
          (fun h => if_pos ⟨hf, h⟩) (fun h => if_neg fun h' => h h'.2)
        exact hentry
      · rename_i hf
        exact .rests _ _ (.sameScale factor hf) (if_neg fun h => hf h.1)
          (Or.inl ⟨rfl, nofun, nofun⟩)
    case outputOther =>
      subst h
      exact .rests _ _ .other rfl (Or.inl ⟨rfl, nofun, nofun⟩)
  · cases e <;> simp only [klSurfaceHandle, if_true, Option.some.injEq, reduceCtorEq] at h
    case configure serial width height =>
      subst h
      have hpre : Prepared surf p _ _ _ _ := .configure serial width height hp
      have hentry := klSurfaceRequestRender_entry refs
        { surf with width := width, height := height, configured := true } o hpre nofun
        (fun h => if_pos h.1) (fun h => if_neg fun h' => h ⟨h', rfl⟩)
      exact hentry
  · cases e <;> simp only [klSurfaceHandle, if_true, Option.some.injEq, reduceCtorEq] at h
    case done =>
      subst h
      exact .draws _ _ (.done hp) rfl
  · cases e <;> simp only [klSurfaceHandle, KlSurface.ref, if_true, Option.some.injEq,
      reduceCtorEq] at h
    case release =>
      subst h
      rw [klSurfaceBufferRelease_eq refs hwf hp]
      unfold klSurfaceOnBufferRelease
      split
      · rename_i hd
        exact .draws _ _ (.release i hp) (if_pos hd)
      · rename_i hn
        refine .rests _ _ (.release i hp) (if_neg hn) (Or.inr ?_)
        cases hd : (surf.released i).dirty with
        | false => exact Or.inr ⟨rfl, rfl⟩
        | true =>
          refine Or.inl ⟨by simp, ?_⟩
          cases hp : (surf.released i).framePending with
          | true => exact Or.inl rfl
          | false => exact Or.inr (by simpa [hd, hp] using hn)

theorem HandlerEntry.step {refs : CtxRefs} {surf : KlSurface} {p : Proxy} {d : Listener}
    {e : ProxyEvent} {o : FrameOutcomes} {r : KlSurface × List Call}
    (h : HandlerEntry refs surf p d e o r) (hwf : surf.WellFormed) :
    HandlerStep refs surf p d e o r.1 r.2 := by
  cases h with
  | rests mid pre hpre hentry hrest => exact .rests _ _ hpre hrest
  | draws mid pre hpre hentry =>
    exact .draws _ _ _ _ hpre (klSurfaceRenderFrame_step refs (hpre.handled refs hwf).wellFormed o)

theorem klSurfaceHandle_step {refs : CtxRefs} {surf surf' : KlSurface} (hwf : surf.WellFormed)
    {p : Proxy} {d : Listener} {e : ProxyEvent} {o : FrameOutcomes} {cs : List Call}
    {lo le : Bool} (hm : (p, some d) ∈ surf.own lo le)
    (h : klSurfaceHandle refs surf p d e o = some (surf', cs)) :
    HandlerStep refs surf p d e o surf' cs :=
  (klSurfaceHandle_entry hwf hm h).step hwf

theorem HandlerStep.handled {refs : CtxRefs} {surf surf' : KlSurface} {p : Proxy} {d : Listener}
    {e : ProxyEvent} {o : FrameOutcomes} {cs : List Call}
    (h : HandlerStep refs surf p d e o surf' cs) (hwf : surf.WellFormed) :
    Handled refs surf surf' cs := by
  cases h with
  | rests mid pre hpre => exact hpre.handled refs hwf
  | draws mid surf' pre cs hpre hframe =>
    have hmid := hpre.handled refs hwf
    exact hmid.trans (hframe.handled hmid.wellFormed)

/-! ## Attachment -/

/-- What one call of `kl_surface_attach_lock` can do. -/
inductive AttachStep (refs : CtxRefs) (surf : KlSurface) (o : AttachOutcomes) :
    Bool → KlSurface → List Call → Prop
  | refused (h : refs.lock = none ∨ refs.compositor = none) :
      AttachStep refs surf o false surf [.klSurfaceAttachLock surf.addr false]
  | already (h : surf.extLockSurface.isSome = true) :
      AttachStep refs surf o true surf [.klSurfaceAttachLock surf.addr true]
  | noSurface (compositor : Proxy) (hc : refs.compositor = some compositor)
      (hn : surf.extLockSurface = none) :
      AttachStep refs surf o false surf
        [.wlCompositorCreateSurface compositor none, .klSurfaceAttachLock surf.addr false]
  | noLockSurface (lock compositor ws output : Proxy) (hl : refs.lock = some lock)
      (hc : refs.compositor = some compositor) (ho : surf.wlOutput = some output)
      (hn : surf.extLockSurface = none) :
      AttachStep refs surf o false surf
        [.wlCompositorCreateSurface compositor (some ws),
          .extSessionLockV1GetLockSurface lock ws output none, .wlSurfaceDestroy ws,
          .klSurfaceAttachLock surf.addr false]
  | attached (lock compositor ws output ls : Proxy) (ok : Bool) (hl : refs.lock = some lock)
      (hc : refs.compositor = some compositor) (ho : surf.wlOutput = some output)
      (hn : surf.extLockSurface = none) :
      AttachStep refs surf o ok { surf with wlSurface := some ws, extLockSurface := some ls }
        [.wlCompositorCreateSurface compositor (some ws),
          .extSessionLockV1GetLockSurface lock ws output (some ls),
          .extSessionLockSurfaceV1AddListener ls surf.addr ok, .klSurfaceAttachLock surf.addr ok]

theorem klSurfaceAttachLock_step (refs : CtxRefs) {surf : KlSurface} (hwf : surf.WellFormed)
    (o : AttachOutcomes) :
    AttachStep refs surf o (klSurfaceAttachLock refs surf o).1
      (klSurfaceAttachLock refs surf o).2.1 (klSurfaceAttachLock refs surf o).2.2 := by
  obtain ⟨output, ho⟩ := Option.isSome_iff_exists.mp hwf.output
  cases hl : refs.lock with
  | none =>
    simp only [klSurfaceAttachLock, klSurfaceAttachLockBody, hl]
    exact .refused (Or.inl hl)
  | some lock =>
    cases hc : refs.compositor with
    | none =>
      simp only [klSurfaceAttachLock, klSurfaceAttachLockBody, hl, hc]
      exact .refused (Or.inr hc)
    | some compositor =>
      cases hn : surf.extLockSurface with
      | some ls =>
        simp only [klSurfaceAttachLock, klSurfaceAttachLockBody, hl, hc, hn, Option.isSome_some]
        exact .already (by simp [hn])
      | none =>
        have hws : surf.wlSurface = none := by
          have := hwf.role
          rw [hn] at this
          simpa using this
        -- the fields that a failed attachment puts back to `NULL` were `NULL`
        obtain ⟨addr, name, wlOutput, wlSurface, ext⟩ := surf
        simp only at ho hn hws
        subst ho hn hws
        cases hs : o.surface with
        | none =>
          simp only [klSurfaceAttachLock, klSurfaceAttachLockBody, hl, hc, hs]
          exact .noSurface compositor hc rfl
        | some ws =>
          cases hls : o.lockSurface with
          | none =>
            simp only [klSurfaceAttachLock, klSurfaceAttachLockBody, hl, hc, hs, hls]
            exact .noLockSurface lock compositor ws output hl hc rfl rfl
          | some ls =>
            simp only [klSurfaceAttachLock, klSurfaceAttachLockBody, hl, hc, hs, hls]
            exact .attached lock compositor ws output ls o.addListener hl hc rfl rfl

theorem AttachStep.wellFormed {refs : CtxRefs} {surf surf' : KlSurface} {o : AttachOutcomes}
    {ok : Bool} {cs : List Call} (h : AttachStep refs surf o ok surf' cs)
    (hwf : surf.WellFormed) : surf'.WellFormed := by
  cases h with
  | refused | already | noSurface | noLockSurface => exact hwf
  | attached =>
    exact ⟨hwf.pending, fun _ => rfl, rfl, hwf.callback, hwf.idle, hwf.current, hwf.output⟩

/-- What an attached surface owns more than before. -/
theorem attached_own {surf : KlSurface} (hwf : surf.WellFormed) (hn : surf.extLockSurface = none)
    (ws ls : Proxy) (lo le le' : Bool) :
    ({ surf with wlSurface := some ws, extLockSurface := some ls } : KlSurface).own lo le' =
      {(ls, listenerIf le' (.lockSurface surf.addr))} + ({(ws, none)} + surf.own lo le) := by
  have hws : surf.wlSurface = none := by
    have := hwf.role
    rw [hn] at this
    simpa using this
  simp only [KlSurface.own, KlSurface.roleOwn, hn, hws, held_none, held_some, add_zero]
  simp only [KlSurface.buffersOwn, KlSurface.ref]
  abel

theorem AttachStep.triple {refs : CtxRefs} {surf surf' : KlSurface} {o : AttachOutcomes}
    {ok : Bool} {cs : List Call} (h : AttachStep refs surf o ok surf' cs) (hwf : surf.WellFormed)
    {B : List Proxy} (hl : ∀ p, refs.lock = some p → p ∈ B)
    (hc : ∀ p, refs.compositor = some p → p ∈ B) (lo le : Bool) :
    ∃ le', Triple B (surf.own lo le) (acts cs) (surf'.own lo le') := by
  have huse : ∀ {p} {X : Multiset (Proxy × Option Listener)}, p ∈ B → Triple B X [.use p] X :=
    fun hp => triple_use_of_borrowed hp _
  cases h with
  | refused => exact ⟨le, triple_nil B _⟩
  | already => exact ⟨le, triple_nil B _⟩
  | noSurface compositor hcomp hn => exact ⟨le, huse (hc _ hcomp)⟩
  | noLockSurface lock compositor ws output hlock hcomp ho hn =>
    have ho' : (output, listenerIf lo (.output surf.addr)) ∈
        ({(ws, none)} + surf.own lo le : Multiset (Proxy × Option Listener)) := by
      simp [KlSurface.own, KlSurface.roleOwn, ho]
    have hws' : (ws, (none : Option Listener)) ∈
        ({(ws, none)} + surf.own lo le : Multiset (Proxy × Option Listener)) := by
      simp
    exact ⟨le, (huse (hc _ hcomp)).cons ((triple_create B ws _).cons
      ((huse (hl _ hlock)).cons ((triple_use B hws').cons ((triple_use B ho').cons
        (triple_destroy B ws none _)))))⟩
  | attached lock compositor ws output ls ok hlock hcomp ho hn =>
    have ho' : (output, listenerIf lo (.output surf.addr)) ∈
        ({(ws, none)} + surf.own lo le : Multiset (Proxy × Option Listener)) := by
      simp [KlSurface.own, KlSurface.roleOwn, ho]
    have hws' : (ws, (none : Option Listener)) ∈
        ({(ws, none)} + surf.own lo le : Multiset (Proxy × Option Listener)) := by
      simp
    have hls' : (ls, (none : Option Listener)) ∈ ({(ls, none)} + ({(ws, none)} + surf.own lo le) :
        Multiset (Proxy × Option Listener)) := by
      simp
    have hmade := (huse (hc _ hcomp)).cons ((triple_create B ws (surf.own lo le)).cons
      ((huse (hl _ hlock)).cons ((triple_use B hws').cons ((triple_use B ho').cons
        ((triple_create B ls _).cons (triple_use B hls'))))))
    refine ⟨ok, ?_⟩
    rw [attached_own hwf hn ws ls lo le ok]
    cases ok with
    | false => exact hmade
    | true => exact hmade.append (triple_listen B ls none (Listener.lockSurface surf.addr) _)

/-! ## Detachment and the end -/

/-- What destroying the buffers of the slots `is` leaves and calls. -/
structure DetachedBuffers (surf : KlSurface) (is : List Slot) (surf' : KlSurface)
    (cs : List Call) : Prop where
  same : surf' = { surf with buffers := surf'.buffers }
  blank : ∀ i ∈ is, (surf'.buffers i).Blank
  kept : ∀ i, i ∉ is → surf'.buffers i = surf.buffers i
  backing : cs.all Call.backing
  destroys : ∀ i ∈ is, ∀ p, (surf.buffers i).wlBuffer = some p → .wlBufferDestroy p ∈ cs
  notes : ∀ f buf, noteAll f cs buf =
    if buf.surface = surf.addr ∧ buf.slot ∈ is then none else f buf
  names : Names surf.addr cs
  triple : ∀ B, Triple B surf.buffersOwn (acts cs) surf'.buffersOwn

theorem klBufferDestroy_mem (self : BufferRef) {buf : KlBuffer} {p : Proxy}
    (h : buf.wlBuffer = some p) : .wlBufferDestroy p ∈ (klBufferDestroy self buf).2 := by
  simp [klBufferDestroy, h]

theorem klSurfaceDetachBuffers_spec (surf : KlSurface) (is : List Slot) :
    DetachedBuffers surf is (klSurfaceDetachBuffers surf is).1
      (klSurfaceDetachBuffers surf is).2 := by
  induction is generalizing surf with
  | nil => exact ⟨rfl, by simp, fun _ _ => rfl, rfl, by simp, by simp [klSurfaceDetachBuffers],
      by simp [Names, klSurfaceDetachBuffers], fun B => triple_nil B _⟩
  | cons i is ih =>
    have hrest := ih (surf.setBuffer i (klBufferDestroy (surf.ref i) (surf.buffers i)).1)
    refine ⟨hrest.same, fun j hj => ?_, fun j hj => ?_, ?_, fun j hj p hp => ?_,
      fun f buf => ?_, (klBufferDestroy_names _ _).append hrest.names, fun B => ?_⟩
    · by_cases hji : j ∈ is
      · exact hrest.blank j hji
      · have : j = i := (List.mem_cons.mp hj).resolve_right hji
        subst this
        simp only [klSurfaceDetachBuffers, hrest.kept j hji, setBuffer_self]
        exact klBufferDestroy_blank _ _
    · obtain ⟨hne, hnot⟩ := not_or.mp (mt List.mem_cons.mpr hj)
      simp only [klSurfaceDetachBuffers, hrest.kept j hnot, setBuffer_of_ne _ _ hne]
    · simp only [klSurfaceDetachBuffers, List.all_append, klBufferDestroy_backing, hrest.backing,
        Bool.and_self]
    · by_cases hji : j = i
      · subst hji
        exact List.mem_append_left _ (klBufferDestroy_mem _ hp)
      · refine List.mem_append_right _ (hrest.destroys j ?_ p ?_)
        · exact (List.mem_cons.mp hj).resolve_left hji
        · rw [setBuffer_of_ne _ _ hji]
          exact hp
    · obtain ⟨a, j⟩ := buf
      simp only [klSurfaceDetachBuffers, noteAll_append, hrest.notes,
        (klBufferDestroy_notes (surf.ref i) (surf.buffers i)).2, List.mem_cons]
      by_cases hji : j = i <;> by_cases ha : a = surf.addr <;> by_cases hj : j ∈ is <;>
        simp [hji, ha, hj, KlSurface.setBuffer, KlSurface.ref, Function.update_apply]
    · simp only [klSurfaceDetachBuffers, acts_append]
      have hrestOwn :
          (surf.setBuffer i (klBufferDestroy (surf.ref i) (surf.buffers i)).1).buffersOwn =
            0 + surf.restOwn i := by
        rw [setBuffer_buffersOwn]
        rfl
      have hdestroy := (klBufferDestroy_triple B (surf.ref i) (surf.buffers i)).frame
        (surf.restOwn i)
      exact (hdestroy.cast (buffersOwn_split surf i).symm hrestOwn.symm).append (hrest.triple B)

theorem buffersOwn_blank {surf : KlSurface} (h : ∀ i, (surf.buffers i).Blank) :
    surf.buffersOwn = 0 :=
  Finset.sum_eq_zero fun i _ => by rw [KlBuffer.own, (h i).wlBuffer, held_none]

/-- A detached surface as `kl_surface_detach_lock` leaves it. -/
structure Detached (surf surf' : KlSurface) : Prop where
  addr : surf'.addr = surf.addr
  name : surf'.globalName = surf.globalName
  output : surf'.wlOutput = surf.wlOutput
  wlSurface : surf'.wlSurface = none
  extLockSurface : surf'.extLockSurface = none
  frameCallback : surf'.frameCallback = none
  blank : ∀ i, (surf'.buffers i).Blank
  configured : surf'.configured = false
  framePending : surf'.framePending = false
  scale : surf'.scale = surf.scale
  current : surf'.currentBuffer = 0
  engine : surf'.engine = surf.engine

/-- The calls of `kl_surface_detach_lock` around those that destroy the buffers. -/
def detachCalls (surf : KlSurface) (cs : List Call) : List Call :=
  .klSurfaceDetachLock surf.addr :: surf.frameCallback.toList.map .wlCallbackDestroy ++ cs ++
    surf.extLockSurface.toList.map .extSessionLockSurfaceV1Destroy ++
    surf.wlSurface.toList.map .wlSurfaceDestroy

theorem klSurfaceDetachLock_spec (surf : KlSurface) :
    Detached surf (klSurfaceDetachLock surf).1 ∧
    ∃ surf' cs, DetachedBuffers { surf with frameCallback := none }
        (List.finRange klSurfaceBufferCount) surf' cs ∧
      (klSurfaceDetachLock surf).2 = detachCalls surf cs := by
  have hbufs := klSurfaceDetachBuffers_spec { surf with frameCallback := none }
    (List.finRange klSurfaceBufferCount)
  have hsame := hbufs.same
  constructor
  · constructor <;> simp only [klSurfaceDetachLock]
    case blank => exact fun i => hbufs.blank i (List.mem_finRange i)
    all_goals rw [hsame]
  · refine ⟨_, _, hbufs, ?_⟩
    simp only [klSurfaceDetachLock, detachCalls]
    rw [hsame]

theorem Detached.wellFormed {surf surf' : KlSurface} (h : Detached surf surf')
    (hwf : surf.WellFormed) : surf'.WellFormed := by
  refine ⟨?_, ?_, ?_, fun i wb hwb => ?_, fun i _ => (h.blank i).busy, ?_, ?_⟩
  · rw [h.framePending, h.frameCallback]
    rfl
  · rw [h.configured]
    exact fun hc => absurd hc Bool.false_ne_true
  · rw [h.wlSurface, h.extLockSurface]
  · rw [(h.blank i).wlBuffer] at hwb
    cases hwb
  · rw [h.current]
    decide
  · rw [h.output]
    exact hwf.output

/-- All that a detached surface owns is its output. -/
theorem Detached.own {surf surf' : KlSurface} (h : Detached surf surf') (lo le : Bool) :
    surf'.own lo le = held surf.wlOutput (listenerIf lo (.output surf.addr)) := by
  simp only [KlSurface.own, KlSurface.roleOwn, buffersOwn_blank h.blank, h.frameCallback,
    h.wlSurface, h.extLockSurface, h.output, h.addr, held_none, add_zero, zero_add]

theorem acts_detachCalls (surf : KlSurface) (cs : List Call) :
    acts (detachCalls surf cs) = surf.frameCallback.toList.map .destroy ++ acts cs ++
      surf.extLockSurface.toList.map .destroy ++ surf.wlSurface.toList.map .destroy := by
  have h : ∀ (x : Option Proxy) (f : Proxy → Call), (∀ p, (f p).acts = [.destroy p]) →
      acts (x.toList.map f) = x.toList.map .destroy := by
    intro x f hf
    cases x with
    | none => rfl
    | some p => simp [hf]
  simp only [detachCalls, acts_append, acts_cons, h _ Call.wlCallbackDestroy (fun _ => rfl),
    h _ Call.extSessionLockSurfaceV1Destroy (fun _ => rfl),
    h _ Call.wlSurfaceDestroy (fun _ => rfl)]
  rfl

theorem detachCalls_triple (B : List Proxy) {surf surf' : KlSurface} {cs : List Call}
    (hbufs : DetachedBuffers { surf with frameCallback := none }
      (List.finRange klSurfaceBufferCount) surf' cs) (lo le : Bool) :
    Triple B (surf.own lo le) (acts (detachCalls surf cs))
      (held surf.wlOutput (listenerIf lo (.output surf.addr))) := by
  have hblank : surf'.buffersOwn = 0 :=
    buffersOwn_blank fun i => hbufs.blank i (List.mem_finRange i)
  rw [acts_detachCalls]
  have hcb := triple_destroy_held B surf.frameCallback (some (.frame surf.addr))
    (surf.roleOwn lo le + surf.buffersOwn)
  have hbuf := (hbufs.triple B).frame (surf.roleOwn lo le)
  rw [hblank, zero_add] at hbuf
  have hls := triple_destroy_held B surf.extLockSurface (listenerIf le (.lockSurface surf.addr))
    (held surf.wlSurface none + held surf.wlOutput (listenerIf lo (.output surf.addr)))
  have hws := triple_destroy_held B surf.wlSurface none
    (held surf.wlOutput (listenerIf lo (.output surf.addr)))
  refine ((hcb.append (hbuf.cast (add_comm _ _) rfl)).append (hls.cast ?_ rfl)).append hws
  rw [KlSurface.roleOwn]
  abel

theorem klSurfaceDetachLock_triple (B : List Proxy) (surf : KlSurface) (lo le : Bool) :
    Triple B (surf.own lo le) (acts (klSurfaceDetachLock surf).2)
      (held surf.wlOutput (listenerIf lo (.output surf.addr))) := by
  obtain ⟨-, surf', cs, hbufs, he⟩ := klSurfaceDetachLock_spec surf
  rw [he]
  exact detachCalls_triple B hbufs lo le

theorem wlOutputDrop_triple (B : List Proxy) (output : Proxy) (l : Option Listener)
    (releasable : Bool) : Triple B {(output, l)} (acts (wlOutputDrop output releasable)) 0 := by
  have h := (triple_use B (Multiset.mem_singleton_self (output, l))).append
    ((triple_destroy B output l 0).cast (add_zero _) rfl)
  cases releasable <;> exact h

/-- **`kl_surface_destroy`** gives up everything the surface owns. -/
theorem klSurfaceDestroy_triple (B : List Proxy) (surf : KlSurface) (lo le : Bool)
    (releasable : Bool) :
    Triple B (surf.own lo le) (acts (klSurfaceDestroy surf releasable)) 0 := by
  have hd := (klSurfaceDetachLock_spec surf).1
  have hdetach := klSurfaceDetachLock_triple B surf lo le
  have hengine : acts (klRenderEngineDestroy (klSurfaceDetachLock surf).1.engine) = [] :=
    klRenderEngineDestroy_acts _
  have hout : Triple B (held surf.wlOutput (listenerIf lo (.output surf.addr)))
      (acts (surf.wlOutput.toList.flatMap (wlOutputDrop · releasable))) 0 := by
    cases surf.wlOutput with
    | none => exact triple_nil B 0
    | some output => simpa using wlOutputDrop_triple B output _ releasable
  simp only [klSurfaceDestroy, acts_append, hengine, hd.output, List.append_nil]
  exact (hdetach.append hout).append (triple_nil B 0)

/-- **`kl_surface_create`**: a surface that owns the output it was given, or
nothing done to that output. -/
theorem klSurfaceCreate_triple (B : List Proxy) (output : Proxy) (name : UInt32)
    (o : CreateOutcomes) :
    (∃ surf, (klSurfaceCreate output name o).1 = some surf ∧ surf.WellFormed ∧
      surf.wlOutput = some output ∧ surf.globalName = name ∧ surf.extLockSurface = none ∧
      ∀ le, Triple B {(output, none)} (acts (klSurfaceCreate output name o).2)
        (surf.own o.addListener le)) ∨
    ((klSurfaceCreate output name o).1 = none ∧ acts (klSurfaceCreate output name o).2 = []) := by
  cases hc : o.calloc with
  | none => exact Or.inr ⟨by simp [klSurfaceCreate, hc], by simp [klSurfaceCreate, hc, Call.acts]⟩
  | some addr =>
    cases he : o.engine with
    | false =>
      refine Or.inr ⟨?_, ?_⟩ <;> simp [klSurfaceCreate, klRenderEngineCreate, hc, he, Call.acts]
    | true =>
      refine Or.inl ⟨_, by simp only [klSurfaceCreate, klRenderEngineCreate, hc, he]; rfl,
        ⟨rfl, by simp, rfl, by simp [KlBuffer.zeroed], fun _ _ => rfl, Nat.zero_lt_succ 2, rfl⟩,
        rfl, rfl, rfl, fun le => ?_⟩
      have hzero : ∑ i : Slot, KlBuffer.own ⟨addr, i⟩ .zeroed = 0 :=
        Finset.sum_eq_zero fun i _ => rfl
      simp only [klSurfaceCreate, klRenderEngineCreate, hc, he, KlSurface.own, KlSurface.roleOwn,
        KlSurface.buffersOwn, KlSurface.ref, hzero, held_none, held_some, add_zero, zero_add]
      have huse := triple_use B (Multiset.mem_singleton_self (output, (none : Option Listener)))
      cases o.addListener with
      | false => exact huse
      | true =>
        exact huse.append ((triple_listen B output none (Listener.output addr) 0).cast
          (add_zero _) (add_zero _))

theorem klSurfaceCreate_fresh (output : Proxy) (name : UInt32) (o : CreateOutcomes)
    (t : Table Proxy Listener) : Fresh t (acts (klSurfaceCreate output name o).2) := by
  cases hc : o.calloc with
  | none => simp [klSurfaceCreate, hc, Call.acts, Fresh]
  | some addr =>
    cases he : o.engine <;> cases hl : o.addListener <;>
      simp [klSurfaceCreate, klRenderEngineCreate, hc, he, hl, Call.acts, listened, Fresh,
        Act.Fresh]

/-- The surface that is created. -/
theorem klSurfaceCreate_some {output : Proxy} {name : UInt32} {o : CreateOutcomes}
    {surf : KlSurface} (h : (klSurfaceCreate output name o).1 = some surf) :
    ∃ addr, surf = {
      addr := addr
      globalName := name
      wlOutput := some output
      wlSurface := none
      extLockSurface := none
      frameCallback := none
      buffers := fun _ => .zeroed
      currentBuffer := 0
      width := 0
      height := 0
      scale := 1
      configured := false
      framePending := false
      dirty := true
      engine := some ⟨none, none, 0, 0⟩
      startTimeNs := 0
      lastFrameTimeNs := 0 } := by
  cases hc : o.calloc with
  | none => simp [klSurfaceCreate, hc] at h
  | some addr =>
    cases he : o.engine with
    | false => simp [klSurfaceCreate, klRenderEngineCreate, hc, he] at h
    | true =>
      simp only [klSurfaceCreate, klRenderEngineCreate, hc, he, if_true, Option.some.injEq] at h
      exact ⟨addr, h.symm⟩

theorem klSurfaceCreate_fields {output : Proxy} {name : UInt32} {o : CreateOutcomes}
    {surf : KlSurface} (h : (klSurfaceCreate output name o).1 = some surf) :
    surf.scale = 1 ∧ surf.extLockSurface = none ∧ surf.configured = false ∧
      ∀ i, surf.buffers i = .zeroed := by
  obtain ⟨addr, rfl⟩ := klSurfaceCreate_some h
  exact ⟨rfl, rfl, rfl, fun _ => rfl⟩

end Kirilock
