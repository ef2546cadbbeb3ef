import Kirilock.BufferSize
import Kirilock.Ledger
import Kirilock.SurfaceOwn

/-!
What a buffer holds of the outside: the file, the mapping, the pool, the `wl_buffer` and the
two cairo objects.

`BufferMachine` is one `kl_buffer` between `calloc` and `free`.  Whatever fails in
`kl_buffer_create`, the buffer holds what its fields say when the function returns
(`klBufferCreate_settles`), and nothing after `kl_buffer_destroy` (`klBufferDestroy_settles`).
-/

namespace Kirilock

open Runs Ownership Ledger

/-! ## Resources -/

inductive Resource where
  | fd (fd : Fd)
  | mapping (data : Mapping) (size : UInt64)
  | pool (pool : Proxy)
  | wlBuffer (wlBuffer : Proxy)
  | cairoSurface (surface : CairoRef)
  | cairo (cr : CairoRef)
  | cairoPattern (pattern : CairoRef)
  deriving DecidableEq, Repr

/-- What a call of `buffer.c` or `render.c` acquires or releases.  A cairo object that has an
error status is an object, too. -/
def Call.entries : Call → List (Entry Resource)
  | .memfdCreate ret => ret.toList.map fun fd => .acquire (.fd fd)
  | .close fd => [.release (.fd fd)]
  | .mmap size _ ret => ret.toList.map fun data => .acquire (.mapping data size)
  | .munmap data size => [.release (.mapping data size)]
  | .wlShmCreatePool _ _ _ ret => ret.toList.map fun pool => .acquire (.pool pool)
  | .wlShmPoolDestroy pool => [.release (.pool pool)]
  | .wlShmPoolCreateBuffer _ _ _ _ ret => ret.toList.map fun wb => .acquire (.wlBuffer wb)
  | .wlBufferDestroy wb => [.release (.wlBuffer wb)]
  | .cairoImageSurfaceCreateForData _ _ _ _ ret _ => [.acquire (.cairoSurface ret)]
  | .cairoSurfaceDestroy surface => [.release (.cairoSurface surface)]
  | .cairoCreate _ ret _ => [.acquire (.cairo ret)]
  | .cairoDestroy cr => [.release (.cairo cr)]
  | .cairoImageSurfaceCreate _ ret _ => [.acquire (.cairoSurface ret)]
  | .cairoPatternCreateForSurface _ ret _ => [.acquire (.cairoPattern ret)]
  | .cairoPatternDestroy pattern => [.release (.cairoPattern pattern)]
  | _ => []

def entries (cs : List Call) : List (Entry Resource) := cs.flatMap Call.entries

@[simp] theorem entries_nil : entries [] = [] := rfl

@[simp] theorem entries_cons (c : Call) (cs : List Call) :
    entries (c :: cs) = c.entries ++ entries cs := rfl

@[simp] theorem entries_append (cs ds : List Call) :
    entries (cs ++ ds) = entries cs ++ entries ds := by
  simp [entries]

def DataPtr.mapping : DataPtr → Option Mapping
  | .mapped data => some data
  | _ => none

/-- What the fields of a buffer say it holds. -/
def KlBuffer.recorded (buf : KlBuffer) : Multiset Resource :=
  optional .cairo buf.cr + (optional .cairoSurface buf.cairoSurface +
    (optional .wlBuffer buf.wlBuffer + optional (.mapping · buf.size) buf.data.mapping))

/-- A buffer whose fields hold nothing. -/
structure KlBuffer.Empty (buf : KlBuffer) : Prop where
  cr : buf.cr = none
  cairoSurface : buf.cairoSurface = none
  wlBuffer : buf.wlBuffer = none
  data : buf.data.mapping = none

theorem KlBuffer.Empty.recorded {buf : KlBuffer} (h : buf.Empty) : buf.recorded = 0 := by
  simp [KlBuffer.recorded, h.cr, h.cairoSurface, h.wlBuffer, h.data]

theorem klBufferDestroy_empty (self : BufferRef) (buf : KlBuffer) :
    (klBufferDestroy self buf).1.Empty := by
  refine ⟨rfl, rfl, rfl, ?_⟩
  unfold klBufferDestroy
  cases buf.data <;> rfl

/-- **`kl_buffer_destroy`** releases what the buffer holds, in whatever state it is. -/
theorem klBufferDestroy_settles (self : BufferRef) (buf : KlBuffer) :
    Settles buf.recorded (entries (klBufferDestroy self buf).2) 0 := by
  have hentries : entries (klBufferDestroy self buf).2 =
      (buf.cr.toList.map fun cr => .release (.cairo cr)) ++
        ((buf.cairoSurface.toList.map fun s => .release (.cairoSurface s)) ++
          ((buf.wlBuffer.toList.map fun wb => .release (.wlBuffer wb)) ++
            (buf.data.mapping.toList.map fun data => .release (.mapping data buf.size)))) := by
    unfold klBufferDestroy
    cases buf.cr <;> cases buf.cairoSurface <;> cases buf.wlBuffer <;> cases buf.data <;> rfl
  rw [hentries]
  refine (settles_release_option Resource.cairo buf.cr _).append ?_
  refine (settles_release_option Resource.cairoSurface buf.cairoSurface _).append ?_
  refine (settles_release_option Resource.wlBuffer buf.wlBuffer _).append ?_
  have hdata := settles_release_option (Resource.mapping · buf.size) buf.data.mapping 0
  exact hdata.cast (add_zero _) rfl

/-! ## Creation -/

section Creation

variable (self : BufferRef) (buf : KlBuffer) (width height : UInt32) (scale : Int32)
  (onRelease : Option ReleaseCb) (userData : Option SurfaceRef)

/-- From the pool on: the pool is destroyed and the mapping is kept with the rest, or
unmapped. -/
theorem klBufferCreateObjects_settles (hbuf : buf.Empty) (pool : Proxy) (data : Mapping)
    (size : UInt64) (physWidth physHeight stride : UInt32) (o : BufferOutcomes) :
    let r := klBufferCreateObjects self buf width height scale onRelease userData pool data size
      physWidth physHeight stride o
    Settles ({.pool pool} + {Resource.mapping data size}) (entries r.2.2) r.2.1.recorded := by
  intro r
  have hunmap : Settles {Resource.mapping data size} [.release (.mapping data size)] 0 :=
    (settles_release (Resource.mapping data size) 0).cast (add_zero _) rfl
  have hmade : ∀ wb, Settles ({.pool pool} + {Resource.mapping data size})
      [.acquire (.wlBuffer wb), .release (.pool pool)]
      ({.wlBuffer wb} + {Resource.mapping data size}) := by
    intro wb
    refine (settles_acquire (Resource.wlBuffer wb) _).append ?_
    exact (settles_release (Resource.pool pool) _).cast (by abel) rfl
  have hgone : ∀ wb, Settles ({.wlBuffer wb} + {Resource.mapping data size})
      [.release (.wlBuffer wb), .release (Resource.mapping data size)] 0 :=
    fun wb => (settles_release (Resource.wlBuffer wb) _).append hunmap
  have hsurface := fun wb => (hmade wb).append
    (settles_acquire (Resource.cairoSurface o.cairoSurface) _)
  have hcr := fun wb => (hsurface wb).append (settles_acquire (Resource.cairo o.cr) _)
  have hdropped := fun wb => (hcr wb).append ((settles_release (Resource.cairo o.cr) _).append
    ((settles_release (Resource.cairoSurface o.cairoSurface) _).append (hgone wb)))
  have hstep : ObjectsStep self buf width height scale onRelease userData pool data size physWidth
      physHeight stride o r := klBufferCreateObjects_step ..
  clear_value r
  cases hstep with
  | noBuffer =>
    have h := (settles_release (Resource.pool pool) _).append hunmap
    simpa [Call.entries, KlBuffer.recorded, hbuf.cr, hbuf.cairoSurface, hbuf.data] using h
  | noSurface wb =>
    -- the surface with the error stays in its field
    have h := (hsurface wb).append (((hgone wb).frame {.cairoSurface o.cairoSurface}).cast
      (add_comm _ _) rfl)
    simpa [Call.entries, KlBuffer.recorded, hbuf.cr, hbuf.data] using h
  | noContext wb => simpa [Call.entries, KlBuffer.recorded, hbuf.data] using hdropped wb
  | noListener wb => exact hdropped wb
  | made wb =>
    simpa [Call.entries, KlBuffer.filled, KlBuffer.recorded, DataPtr.mapping] using hcr wb

/-- From the file on: it is closed once the pool has it. -/
theorem klBufferCreatePool_settles (shm : Proxy) (hbuf : buf.Empty) (fd : Fd) (data : Mapping)
    (size : UInt64) (physWidth physHeight stride : UInt32) (o : BufferOutcomes) :
    let r := klBufferCreatePool shm self buf width height scale onRelease userData fd data size
      physWidth physHeight stride o
    Settles ({.fd fd} + {Resource.mapping data size}) (entries r.2.2) r.2.1.recorded := by
  cases hp : o.pool with
  | none =>
    have hunmap : Settles {Resource.mapping data size} [.release (.mapping data size)] 0 :=
      (settles_release (Resource.mapping data size) 0).cast (add_zero _) rfl
    have h := (settles_release (Resource.fd fd) _).append hunmap
    simpa [klBufferCreatePool, hp, Call.entries, hbuf.recorded] using h
  | some pool =>
    have hpool : Settles ({.fd fd} + {Resource.mapping data size})
        [.acquire (.pool pool), .release (.fd fd)]
        ({.pool pool} + {Resource.mapping data size}) := by
      refine (settles_acquire (Resource.pool pool) _).append ?_
      exact (settles_release (Resource.fd fd) _).cast (by abel) rfl
    have h := hpool.append (klBufferCreateObjects_settles self buf width height scale onRelease
      userData hbuf pool data size physWidth physHeight stride o)
    simpa [klBufferCreatePool, hp, Call.entries] using h

/-- The file is left open only where it is returned. -/
theorem klBufferAllocateShmFile_settles (size : UInt64) (o : BufferOutcomes) :
    Settles 0 (entries (klBufferAllocateShmFile size o).2)
      (optional Resource.fd (klBufferAllocateShmFile size o).1) := by
  have hclosed : ∀ fd, Settles 0 [.acquire (Resource.fd fd), .release (.fd fd)] 0 := fun fd =>
    (settles_acquire (Resource.fd fd) 0).append (settles_release (Resource.fd fd) 0)
  unfold klBufferAllocateShmFile
  split
  · exact settles_nil 0
  · split
    · exact settles_nil 0
    · split
      · exact hclosed _
      · split
        · exact hclosed _
        · exact settles_acquire _ 0

theorem klBufferCreateFile_settles (shm : Proxy) (hbuf : buf.Empty) (size : UInt64)
    (physWidth physHeight stride : UInt32) (o : BufferOutcomes) :
    let r := klBufferCreateFile shm self buf width height scale onRelease userData size
      physWidth physHeight stride o
    Settles 0 (entries r.2.2) r.2.1.recorded := by
  have hfile := klBufferAllocateShmFile_settles size o
  cases hf : (klBufferAllocateShmFile size o).1 with
  | none =>
    rw [hf] at hfile
    simpa [klBufferCreateFile, hf, hbuf.recorded] using hfile
  | some fd =>
    rw [hf] at hfile
    have hfd : Settles 0 (entries (klBufferAllocateShmFile size o).2)
        ({Resource.fd fd} + 0) := hfile
    cases hm : o.mmap with
    | none =>
      have h := hfd.append (settles_release (Resource.fd fd) 0)
      simpa [klBufferCreateFile, hf, hm, Call.entries, hbuf.recorded] using h
    | some data =>
      have hmapped := hfd.append (settles_acquire (Resource.mapping data size) _)
      have h := hmapped.append ((klBufferCreatePool_settles self buf width height scale onRelease
        userData shm hbuf fd data size physWidth physHeight stride o).cast (by abel) rfl)
      simpa [klBufferCreateFile, hf, hm, Call.entries] using h

/-- **`kl_buffer_create`** on a buffer that holds nothing: whatever fails, what is held
afterwards is what the fields say. -/
theorem klBufferCreate_settles (shm : Option Proxy) (hbuf : buf.Empty) (o : BufferOutcomes) :
    let r := klBufferCreate shm self buf width height scale onRelease userData o
    Settles 0 (entries r.2.2) r.2.1.recorded := by
  by_cases hacc : Accepted shm width height scale o.stride
  · obtain ⟨p, rfl⟩ := Option.isSome_iff_exists.mp hacc.shm
    have hfile := klBufferCreateFile_settles self buf width height scale onRelease userData p hbuf
      (fileBytes o.stride (physical height scale)) (physical width scale) (physical height scale)
      o.stride.toUInt32 o
    simpa [klBufferCreate, klBufferCreateBody_accepted self buf width height scale onRelease
      userData o hacc, Call.entries] using hfile
  · obtain ⟨cs, hcs, he⟩ := klBufferCreateBody_refused shm self buf width height scale onRelease
      userData o hacc
    have hnone : entries cs = [] := by
      rcases hcs with rfl | rfl <;> rfl
    simpa [klBufferCreate, he, hnone, Call.entries, hbuf.recorded] using settles_nil 0

end Creation

/-! ## One buffer -/

/-- A buffer, and what the last of its two functions returned: `none` is for
`kl_buffer_destroy`, which returns nothing, and for a buffer that is new. -/
structure BufferState where
  buf : KlBuffer
  ret : Option Bool

structure CreateArgs where
  shm : Option Proxy
  width : UInt32
  height : UInt32
  scale : Int32
  onRelease : Option ReleaseCb
  userData : Option SurfaceRef
  outcomes : BufferOutcomes

/-- What is done to a buffer: it is destroyed, created, marked busy for a commit, and
released by the compositor. -/
inductive BufferInput where
  | destroy
  | create (a : CreateArgs)
  | commit
  | release

/-- `kl_buffer_create` as its arguments say. -/
def CreateArgs.run (a : CreateArgs) (self : BufferRef) (buf : KlBuffer) :
    Bool × KlBuffer × List Call :=
  klBufferCreate a.shm self buf a.width a.height a.scale a.onRelease a.userData a.outcomes

/-- A buffer is created only after it was destroyed, and used only after it was created. -/
def BufferState.step (self : BufferRef) (s : BufferState) :
    BufferInput → Option (BufferState × List Call)
  | .destroy =>
    let r := klBufferDestroy self s.buf
    some (⟨r.1, none⟩, r.2)
  | .create a =>
    if s.ret = none then
      let r := a.run self s.buf
      some (⟨r.2.1, some r.1⟩, r.2.2)
    else none
  | .commit => if s.ret = some true then some (⟨{ s.buf with busy := true }, s.ret⟩, []) else none
  | .release =>
    if s.ret = some true then some (⟨(klBufferHandleRelease s.buf).1, s.ret⟩, []) else none

def bufferMachine (self : BufferRef) : Machine BufferState BufferInput Call where
  init s := s.buf = .zeroed ∧ s.ret = none
  step := BufferState.step self

structure BufferInv (s : BufferState) (tr : List Call) : Prop where
  settles : Settles 0 (entries tr) s.buf.recorded
  destroyed : s.ret = none → s.buf.Empty ∧ s.buf.Blank
  failed : s.ret = some false → s.buf.wlBuffer = none

/-- A change of the mark changes nothing that is held. -/
theorem BufferInv.mark {s : BufferState} {tr : List Call} (h : BufferInv s tr)
    (hr : s.ret = some true) (busy : Bool) :
    BufferInv ⟨{ s.buf with busy := busy }, s.ret⟩ (tr ++ []) := by
  rw [List.append_nil]
  exact ⟨h.settles, fun he => absurd (he.symm.trans hr) nofun,
    fun he => absurd (he.symm.trans hr) nofun⟩

theorem BufferInv.step {self : BufferRef} {s s' : BufferState} {i : BufferInput}
    {tr out : List Call} (h : BufferInv s tr) (hs : s.step self i = some (s', out)) :
    BufferInv s' (tr ++ out) := by
  unfold BufferState.step at hs
  cases i with
  | destroy =>
    cases hs
    refine ⟨?_, fun _ => ⟨klBufferDestroy_empty self s.buf, klBufferDestroy_blank self s.buf⟩,
      nofun⟩
    rw [entries_append, (klBufferDestroy_empty self s.buf).recorded]
    exact h.settles.append (klBufferDestroy_settles self s.buf)
  | create a =>
    dsimp only at hs
    split at hs
    · rename_i hr
      cases hs
      obtain ⟨hempty, hblank⟩ := h.destroyed hr
      have hcreation := klBufferCreate_creation a.shm self s.buf hblank a.width a.height a.scale
        a.onRelease a.userData a.outcomes
      have hzero : Settles 0 (entries tr) 0 := h.settles.cast rfl hempty.recorded
      refine ⟨?_, nofun, fun hf => (hcreation.blank (Option.some.inj hf)).wlBuffer⟩
      rw [entries_append]
      exact hzero.append (klBufferCreate_settles self s.buf a.width a.height a.scale a.onRelease
        a.userData a.shm hempty a.outcomes)
    · cases hs
  | commit =>
    dsimp only at hs
    split at hs
    · rename_i hr
      cases hs
      exact h.mark hr true
    · cases hs
  | release =>
    dsimp only at hs
    split at hs
    · rename_i hr
      cases hs
      rw [klBufferHandleRelease_fst]
      exact h.mark hr false
    · cases hs

theorem bufferInv_reach {self : BufferRef} {s : BufferState} {tr : List Call}
    (h : (bufferMachine self).Reach s tr) : BufferInv s tr := by
  refine h.invariant ?_ fun s tr i s' out hinv _ hs => hinv.step hs
  rintro s ⟨hbuf, hr⟩
  have hempty : s.buf.Empty := by
    rw [hbuf]
    exact ⟨rfl, rfl, rfl, rfl⟩
  refine ⟨?_, fun _ => ⟨hempty, by rw [hbuf]; exact ⟨rfl, rfl⟩⟩, fun he => ?_⟩
  · rw [hempty.recorded]
    exact settles_nil 0
  · rw [hr] at he
    cases he

/-! ## The buffer of a slot -/

/-- A frame that draws in slot `i` destroys the buffer and creates it anew, and attaches
nothing if that fails. -/
structure Recreates (refs : CtxRefs) (surf : KlSurface) (i : Slot) (o : FrameOutcomes) :
    Prop where
  recreated : ∃ rest, (klSurfaceRenderFrame refs surf o).2 = frameEntry surf (some i) ++
    (klBufferDestroy (surf.ref i) (surf.buffers i)).2 ++
    (klBufferCreate refs.shm (surf.ref i) (klBufferDestroy (surf.ref i) (surf.buffers i)).1
      surf.width surf.height surf.scale (some .klSurfaceOnBufferRelease) (some surf.addr)
      o.buffer).2.2 ++ rest
  unattached : (klBufferCreate refs.shm (surf.ref i)
      (klBufferDestroy (surf.ref i) (surf.buffers i)).1 surf.width surf.height surf.scale
      (some .klSurfaceOnBufferRelease) (some surf.addr) o.buffer).1 = false →
    ∀ ws wb, .wlSurfaceAttach ws wb ∉ (klSurfaceRenderFrame refs surf o).2

/-- A buffer without a `wl_buffer` is not reused. -/
theorem klSurfaceRenderFrameBuffer_recreates (refs : CtxRefs) {surf : KlSurface} {i : Slot}
    (hwb : (surf.buffers i).wlBuffer = none) (o : FrameOutcomes) :
    klSurfaceRenderFrameBuffer refs surf i o =
      let old := klBufferDestroy (surf.ref i) (surf.buffers i)
      let new := klBufferCreate refs.shm (surf.ref i) old.1 surf.width surf.height surf.scale
        (some .klSurfaceOnBufferRelease) (some surf.addr) o.buffer
      (new.1, surf.setBuffer i new.2.1, old.2 ++ new.2.2) := by
  unfold klSurfaceRenderFrameBuffer
  exact if_pos (Or.inr (Or.inr (Or.inr hwb)))

theorem recreates {refs : CtxRefs} {surf : KlSurface} (h : surf.Entered) {i : Slot}
    (hi : (klSurfaceGetFreeBuffer surf).2 = some i) (hwb : (surf.buffers i).wlBuffer = none)
    (o : FrameOutcomes) : Recreates refs surf i o := by
  have hcurrent : ((surf.setCurrent i).buffers i).wlBuffer = none := hwb
  have hbuf := klSurfaceRenderFrameBuffer_recreates refs hcurrent o
  have hback := (klBufferCreate_creation refs.shm (surf.ref i)
    (klBufferDestroy (surf.ref i) (surf.buffers i)).1 (klBufferDestroy_blank _ _)
    surf.width surf.height surf.scale (some .klSurfaceOnBufferRelease) (some surf.addr)
    o.buffer).backing
  have hold := klBufferDestroy_backing (surf.ref i) (surf.buffers i)
  have hcase := klSurfaceRenderFrame_case refs surf o
  constructor
  · generalize (klSurfaceRenderFrame refs surf o).1 = surf' at hcase
    generalize (klSurfaceRenderFrame refs surf o).2 = cs at hcase ⊢
    cases hcase with
    | skipped h' => exact absurd h h'
    | noBuffer _ hi' => exact absurd (hi.symm.trans hi') (by rintro ⟨⟩)
    | createFailed _ j hj _ buf he hr =>
      obtain rfl := Option.some.inj (hi.symm.trans hj)
      rw [← he, hbuf]
      exact ⟨[], by rw [List.append_nil, List.append_assoc]; rfl⟩
    | drawn _ ws _ j hj _ buf he hr draw =>
      obtain rfl := Option.some.inj (hi.symm.trans hj)
      rw [← he, hbuf]
      refine ⟨draw.2 ++ (klSurfaceRenderFrameCommit draw.1 ws i o).2, ?_⟩
      simp only [List.append_assoc]
      rfl
  · intro hfail ws wb
    generalize (klSurfaceRenderFrame refs surf o).1 = surf' at hcase
    generalize (klSurfaceRenderFrame refs surf o).2 = cs at hcase ⊢
    cases hcase with
    | skipped h' => exact absurd h h'
    | noBuffer _ hi' => exact absurd (hi.symm.trans hi') (by rintro ⟨⟩)
    | createFailed _ j hj _ buf he hr =>
      obtain rfl := Option.some.inj (hi.symm.trans hj)
      rw [← he, hbuf]
      intro hmem
      rcases List.mem_append.mp hmem with hmem | hmem
      · simp [frameEntry] at hmem
      · rcases List.mem_append.mp hmem with hmem | hmem
        · exact absurd (List.all_eq_true.mp hold _ hmem) Bool.false_ne_true
        · exact absurd (List.all_eq_true.mp hback _ hmem) Bool.false_ne_true
    | drawn _ ws' _ j hj _ buf he hr draw =>
      obtain rfl := Option.some.inj (hi.symm.trans hj)
      rw [← he, hbuf] at hr
      exact absurd (hfail.symm.trans hr) (by rintro ⟨⟩)

/-! ## Every sequence -/

/-- The resources of a buffer are settled whenever one of its functions returns. -/
structure BufferSettled (self : BufferRef) (s : BufferState) (tr : List Call) : Prop where
  /-- what is held is what the fields say, and nothing else was released -/
  held : Settles 0 (entries tr) s.buf.recorded
  files : ∀ fd, (entries tr).count (.release (.fd fd)) = (entries tr).count (.acquire (.fd fd))
  pools : ∀ p, (entries tr).count (.release (.pool p)) = (entries tr).count (.acquire (.pool p))
  once : ∀ es fs, entries tr = es ++ fs → ∀ r, es.count (.release r) ≤ es.count (.acquire r)
  destroyed : s.ret = none → s.buf.recorded = 0
  failed : s.ret = some false → s.buf.wlBuffer = none
  redrawn : s.ret = some false → ∀ refs surf i o, surf.ref i = self → surf.buffers i = s.buf →
    surf.Entered → (klSurfaceGetFreeBuffer surf).2 = some i → Recreates refs surf i o

theorem not_recorded (buf : KlBuffer) :
    (∀ fd, buf.recorded.count (.fd fd) = 0) ∧ ∀ p, buf.recorded.count (.pool p) = 0 := by
  constructor <;> intro x <;> rw [Multiset.count_eq_zero] <;> unfold KlBuffer.recorded <;>
    cases buf.cr <;> cases buf.cairoSurface <;> cases buf.wlBuffer <;>
    cases buf.data.mapping <;> simp

/-- **The resources of a buffer**, over every sequence of its two functions and whatever
fails in them. -/
theorem buffer_settled {self : BufferRef} {s : BufferState} {tr : List Call}
    (h : (bufferMachine self).Reach s tr) : BufferSettled self s tr := by
  have hinv := bufferInv_reach h
  obtain ⟨hfd, hpool⟩ := not_recorded s.buf
  refine ⟨hinv.settles, fun fd => ?_, fun p => ?_, fun es fs he r => ?_, fun hr => ?_, hinv.failed,
    fun hr refs surf i o _ hbuf hentered hi => ?_⟩
  · have hc := hinv.settles.count (.fd fd)
    rw [hfd] at hc
    simpa using hc
  · have hc := hinv.settles.count (.pool p)
    rw [hpool] at hc
    simpa using hc
  · have hsettles := hinv.settles
    rw [he] at hsettles
    simpa using hsettles.release_le r
  · exact (hinv.destroyed hr).1.recorded
  · exact recreates hentered hi (by rw [hbuf]; exact hinv.failed hr) o

/-- A buffer of 1920 by 1080, whose stride is 7680. -/
def sampleCreation (o : BufferOutcomes) : BufferInput :=
  .create ⟨some 2, 1920, 1080, 1, some .klSurfaceOnBufferRelease, some 40, o⟩

/-- The buffer is drawn and released, and has an error surface the next time. -/
def sampleRecreation : List BufferInput :=
  [.destroy,
    sampleCreation (.succeeding 7680),
    .commit,
    .release,
    .destroy,
    sampleCreation { BufferOutcomes.succeeding 7680 with cairoSurfaceOk := false }]

theorem recreatedRun_isSome :
    ((bufferMachine sampleBuffer).exec ⟨.zeroed, none⟩ sampleRecreation).isSome = true := by
  decide

def recreatedRun : BufferState × List Call :=
  ((bufferMachine sampleBuffer).exec ⟨.zeroed, none⟩ sampleRecreation).get recreatedRun_isSome

theorem recreatedRun_reach : (bufferMachine sampleBuffer).Reach recreatedRun.1 recreatedRun.2 := by
  have hinit : (bufferMachine sampleBuffer).init ⟨.zeroed, none⟩ := ⟨rfl, rfl⟩
  exact Machine.reach_exec hinit recreatedRun_isSome

theorem buffer_settled_recreatedRun :
    recreatedRun.1.ret = some false ∧ BufferSettled sampleBuffer recreatedRun.1 recreatedRun.2 :=
  ⟨by decide, buffer_settled recreatedRun_reach⟩

end Kirilock
