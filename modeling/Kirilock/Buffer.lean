import Kirilock.Calls

/-!
`buffer.c`: a `wl_buffer` in shared memory with a cairo surface over it.

`klBufferCreate` acquires nine things in turn and unwinds by hand where one
fails; `BufferOutcomes` says what the outside answers at each.  What the rest of
the locker needs of it is in `klBufferCreate_creation`; what it does to the
proxies is in `klBufferCreate_triple` and `klBufferDestroy_triple`.
-/

namespace Kirilock

open Ownership

/-- A `uint32_t *` that is `NULL`, `MAP_FAILED` or a mapping. -/
inductive DataPtr where
  | null
  | mapFailed
  | mapped (data : Mapping)
  deriving DecidableEq, Repr

/-- The functions a `kl_buffer_release_cb` can point to. -/
inductive ReleaseCb where
  | klSurfaceOnBufferRelease
  deriving DecidableEq, Repr

/-- `struct kl_buffer`; `none` is `NULL`. -/
structure KlBuffer where
  wlBuffer : Option Proxy
  data : DataPtr
  size : UInt64
  width : UInt32
  height : UInt32
  scale : Int32
  stride : UInt32
  busy : Bool
  cairoSurface : Option CairoRef
  cr : Option CairoRef
  onRelease : Option ReleaseCb
  userData : Option SurfaceRef
  deriving DecidableEq, Repr

/-- As `calloc` leaves it. -/
def KlBuffer.zeroed : KlBuffer :=
  ⟨none, .null, 0, 0, 0, 0, 0, false, none, none, none, none⟩

/-- What the outside answers to the calls of one `kl_buffer_create`. -/
structure BufferOutcomes where
  stride : Int32
  memfd : Option Fd
  ftruncate : Bool
  addSeals : Bool
  mmap : Option Mapping
  pool : Option Proxy
  wlBuffer : Option Proxy
  cairoSurface : CairoRef
  cairoSurfaceOk : Bool
  cr : CairoRef
  crOk : Bool
  addListener : Bool

/-- `SIZE_MAX` of a 64-bit `size_t` -/
def sizeMax : UInt64 := 18446744073709551615

/-! ## The code -/

/-- The buffer after the release event, and the callback to run with its user data. -/
def klBufferHandleRelease (buf : KlBuffer) :
    KlBuffer × Option (ReleaseCb × Option SurfaceRef) :=
  let buf := { buf with busy := false }
  match buf.onRelease with
  | none => (buf, none)
  | some cb => (buf, some (cb, buf.userData))

def klBufferAllocateShmFile (size : UInt64) (o : BufferOutcomes) : Option Fd × List Call :=
  if size = 0 then (none, [])
  else
    match o.memfd with
    | none => (none, [.memfdCreate none])
    | some fd =>
      if o.ftruncate = false then
        (none, [.memfdCreate (some fd), .ftruncate fd size false, .close fd])
      else if o.addSeals = false then
        (none, [.memfdCreate (some fd), .ftruncate fd size true, .fcntlAddSeals fd false,
          .close fd])
      else (some fd, [.memfdCreate (some fd), .ftruncate fd size true, .fcntlAddSeals fd true])

def klBufferDestroy (self : BufferRef) (buf : KlBuffer) : KlBuffer × List Call :=
  ({ buf with
      cr := none
      cairoSurface := none
      wlBuffer := none
      data := match buf.data with
        | .mapped _ => .null
        | d => d
      size := 0
      width := 0
      height := 0
      scale := 1
      stride := 0
      busy := false
      onRelease := none
      userData := none },
    .klBufferDestroy self ::
      ((buf.cr.toList.map .cairoDestroy) ++
       (buf.cairoSurface.toList.map .cairoSurfaceDestroy) ++
       (buf.wlBuffer.toList.map .wlBufferDestroy) ++
       match buf.data with
        | .mapped data => [.munmap data buf.size]
        | _ => []))

/-- `kl_buffer_create` from the creation of the `wl_buffer` on, with the pool made. -/
def klBufferCreateObjects (self : BufferRef) (buf : KlBuffer) (width height : UInt32)
    (scale : Int32) (onRelease : Option ReleaseCb) (userData : Option SurfaceRef)
    (pool : Proxy) (data : Mapping) (size : UInt64) (physWidth physHeight stride : UInt32)
    (o : BufferOutcomes) : Bool × KlBuffer × List Call :=
  let c := [.wlShmPoolCreateBuffer pool physWidth.toInt32 physHeight.toInt32 stride.toInt32
    o.wlBuffer, .wlShmPoolDestroy pool]
  let buf := { buf with wlBuffer := o.wlBuffer }
  match o.wlBuffer with
  | none => (false, buf, c ++ [.munmap data size])
  | some wb =>
    let buf := { buf with cairoSurface := some o.cairoSurface }
    let c := c ++ [.cairoImageSurfaceCreateForData data physWidth.toInt32 physHeight.toInt32
      stride.toInt32 o.cairoSurface o.cairoSurfaceOk]
    if o.cairoSurfaceOk = false then
      (false, { buf with wlBuffer := none }, c ++ [.wlBufferDestroy wb, .munmap data size])
    else
      let c := c ++ [.cairoCreate o.cairoSurface o.cr o.crOk]
      if o.crOk = false then
        (false, { buf with cr := none, cairoSurface := none, wlBuffer := none },
          c ++ [.cairoDestroy o.cr, .cairoSurfaceDestroy o.cairoSurface, .wlBufferDestroy wb,
            .munmap data size])
      else
        let buf := { buf with
          cr := some o.cr
          data := .mapped data
          size := size
          width := width
          height := height
          scale := scale
          stride := stride
          busy := false
          onRelease := onRelease
          userData := userData }
        let c := c ++ [.wlBufferAddListener wb self o.addListener]
        if o.addListener = false then
          let r := klBufferDestroy self buf
          (false, r.1, c ++ r.2)
        else (true, buf, c)

/-- `kl_buffer_create` from `wl_shm_create_pool` on, with the file mapped. -/
def klBufferCreatePool (shm : Proxy) (self : BufferRef) (buf : KlBuffer) (width height : UInt32)
    (scale : Int32) (onRelease : Option ReleaseCb) (userData : Option SurfaceRef) (fd : Fd)
    (data : Mapping) (size : UInt64) (physWidth physHeight stride : UInt32) (o : BufferOutcomes) :
    Bool × KlBuffer × List Call :=
  let c := [.wlShmCreatePool shm fd size.toUInt32.toInt32 o.pool, .close fd]
  match o.pool with
  | none => (false, buf, c ++ [.munmap data size])
  | some pool =>
    let r := klBufferCreateObjects self buf width height scale onRelease userData pool data size
      physWidth physHeight stride o
    (r.1, r.2.1, c ++ r.2.2)

/-- `kl_buffer_create` from the allocation of the file on, with the sizes checked. -/
def klBufferCreateFile (shm : Proxy) (self : BufferRef) (buf : KlBuffer) (width height : UInt32)
    (scale : Int32) (onRelease : Option ReleaseCb) (userData : Option SurfaceRef) (size : UInt64)
    (physWidth physHeight stride : UInt32) (o : BufferOutcomes) : Bool × KlBuffer × List Call :=
  let file := klBufferAllocateShmFile size o
  match file.1 with
  | none => (false, buf, file.2)
  | some fd =>
    let c := file.2 ++ [.mmap size fd o.mmap]
    match o.mmap with
    | none => (false, buf, c ++ [.close fd])
    | some data =>
      let r := klBufferCreatePool shm self buf width height scale onRelease userData fd data size
        physWidth physHeight stride o
      (r.1, r.2.1, c ++ r.2.2)

/-- `kl_buffer_create` without the note of its return. -/
def klBufferCreateBody (shm : Option Proxy) (self : BufferRef) (buf : KlBuffer)
    (width height : UInt32) (scale : Int32) (onRelease : Option ReleaseCb)
    (userData : Option SurfaceRef) (o : BufferOutcomes) : Bool × KlBuffer × List Call :=
  match shm with
  | none => (false, buf, [])
  | some shm =>
    if width = 0 ∨ height = 0 ∨ scale ≤ 0 then (false, buf, [])
    else
      let physWidth := width * scale.toUInt32
      let physHeight := height * scale.toUInt32
      let c := [.cairoFormatStrideForWidth physWidth.toInt32 o.stride]
      if o.stride ≤ 0 then (false, buf, c)
      else
        let stride := o.stride.toUInt32
        if physHeight.toUInt64 > sizeMax / stride.toUInt64 then (false, buf, c)
        else
          let size := stride.toUInt64 * physHeight.toUInt64
          let r := klBufferCreateFile shm self buf width height scale onRelease userData size
            physWidth physHeight stride o
          (r.1, r.2.1, c ++ r.2.2)

/-- `true` for the return value 0, `false` for -1. -/
def klBufferCreate (shm : Option Proxy) (self : BufferRef) (buf : KlBuffer)
    (width height : UInt32) (scale : Int32) (onRelease : Option ReleaseCb)
    (userData : Option SurfaceRef) (o : BufferOutcomes) : Bool × KlBuffer × List Call :=
  let r := klBufferCreateBody shm self buf width height scale onRelease userData o
  (r.1, r.2.1, r.2.2 ++ [.klBufferCreate self buf.wlBuffer width height scale
    (if r.1 then r.2.1.wlBuffer else none)])

def klBufferPrepare (buf : KlBuffer) : List Call :=
  match buf.cr with
  | none => []
  | some cr =>
    .cairoIdentityMatrix cr :: (if 1 < buf.scale then [.cairoScale cr buf.scale] else [])

def klBufferFlush (buf : KlBuffer) : List Call :=
  match buf.cairoSurface with
  | none => []
  | some surface => [.cairoSurfaceFlush surface]

/-! ## Where a creation ends -/

section Objects

variable (self : BufferRef) (buf : KlBuffer) (width height : UInt32) (scale : Int32)
  (onRelease : Option ReleaseCb) (userData : Option SurfaceRef) (pool : Proxy) (data : Mapping)
  (size : UInt64) (physWidth physHeight stride : UInt32) (o : BufferOutcomes)

/-- The buffer with all that was made for it. -/
def KlBuffer.filled (wb : Proxy) : KlBuffer :=
  { wlBuffer := some wb
    cairoSurface := some o.cairoSurface
    cr := some o.cr
    data := .mapped data
    size := size
    width := width
    height := height
    scale := scale
    stride := stride
    busy := false
    onRelease := onRelease
    userData := userData }

/-- What `klBufferCreateObjects` can do. -/
inductive ObjectsStep : Bool × KlBuffer × List Call → Prop
  | noBuffer (hw : o.wlBuffer = none) :
      ObjectsStep (false, { buf with wlBuffer := none },
        [.wlShmPoolCreateBuffer pool physWidth.toInt32 physHeight.toInt32 stride.toInt32 none,
          .wlShmPoolDestroy pool, .munmap data size])
  | noSurface (wb : Proxy) (hw : o.wlBuffer = some wb) (hs : o.cairoSurfaceOk = false) :
      ObjectsStep (false, { buf with wlBuffer := none, cairoSurface := some o.cairoSurface },
        [.wlShmPoolCreateBuffer pool physWidth.toInt32 physHeight.toInt32 stride.toInt32 (some wb),
          .wlShmPoolDestroy pool,
          .cairoImageSurfaceCreateForData data physWidth.toInt32 physHeight.toInt32 stride.toInt32
            o.cairoSurface false,
          .wlBufferDestroy wb, .munmap data size])
  | noContext (wb : Proxy) (hw : o.wlBuffer = some wb) (hs : o.cairoSurfaceOk = true)
      (hc : o.crOk = false) :
      ObjectsStep (false, { buf with cr := none, cairoSurface := none, wlBuffer := none },
        [.wlShmPoolCreateBuffer pool physWidth.toInt32 physHeight.toInt32 stride.toInt32 (some wb),
          .wlShmPoolDestroy pool,
          .cairoImageSurfaceCreateForData data physWidth.toInt32 physHeight.toInt32 stride.toInt32
            o.cairoSurface true,
          .cairoCreate o.cairoSurface o.cr false, .cairoDestroy o.cr,
          .cairoSurfaceDestroy o.cairoSurface, .wlBufferDestroy wb, .munmap data size])
  | noListener (wb : Proxy) (hw : o.wlBuffer = some wb) (hs : o.cairoSurfaceOk = true)
      (hc : o.crOk = true) (hl : o.addListener = false) :
      ObjectsStep (false,
        (klBufferDestroy self (.filled width height scale onRelease userData data size stride o
          wb)).1,
        [.wlShmPoolCreateBuffer pool physWidth.toInt32 physHeight.toInt32 stride.toInt32 (some wb),
          .wlShmPoolDestroy pool,
          .cairoImageSurfaceCreateForData data physWidth.toInt32 physHeight.toInt32 stride.toInt32
            o.cairoSurface true,
          .cairoCreate o.cairoSurface o.cr true, .wlBufferAddListener wb self false,
          .klBufferDestroy self, .cairoDestroy o.cr, .cairoSurfaceDestroy o.cairoSurface,
          .wlBufferDestroy wb, .munmap data size])
  | made (wb : Proxy) (hw : o.wlBuffer = some wb) (hs : o.cairoSurfaceOk = true)
      (hc : o.crOk = true) (hl : o.addListener = true) :
      ObjectsStep (true, .filled width height scale onRelease userData data size stride o wb,
        [.wlShmPoolCreateBuffer pool physWidth.toInt32 physHeight.toInt32 stride.toInt32 (some wb),
          .wlShmPoolDestroy pool,
          .cairoImageSurfaceCreateForData data physWidth.toInt32 physHeight.toInt32 stride.toInt32
            o.cairoSurface true,
          .cairoCreate o.cairoSurface o.cr true, .wlBufferAddListener wb self true])

theorem klBufferCreateObjects_step :
    ObjectsStep self buf width height scale onRelease userData pool data size physWidth physHeight
      stride o (klBufferCreateObjects self buf width height scale onRelease userData pool data size
        physWidth physHeight stride o) := by
  unfold klBufferCreateObjects
  cases hw : o.wlBuffer with
  | none => exact .noBuffer hw
  | some wb =>
    cases hs : o.cairoSurfaceOk with
    | false => exact .noSurface wb hw hs
    | true =>
      cases hc : o.crOk with
      | false => exact .noContext wb hw hs hc
      | true =>
        cases hl : o.addListener with
        | false => exact .noListener wb hw hs hc hl
        | true => exact .made wb hw hs hc hl

end Objects

/-! ## What a buffer owns -/

/-- The listener a buffer's `wl_buffer` has: its release handler with the buffer as data. -/
def KlBuffer.own (self : BufferRef) (buf : KlBuffer) : Multiset (Proxy × Option Listener) :=
  held buf.wlBuffer (some (.buffer self))

theorem acts_toList_map {α : Type} (x : Option α) (f : α → Call) (h : ∀ a, (f a).acts = []) :
    acts (x.toList.map f) = [] := by
  cases x with
  | none => rfl
  | some a => simp [h]

theorem acts_klBufferDestroy (self : BufferRef) (buf : KlBuffer) :
    acts (klBufferDestroy self buf).2 = buf.wlBuffer.toList.map .destroy := by
  have hcr : acts (buf.cr.toList.map .cairoDestroy) = [] := acts_toList_map _ _ fun _ => rfl
  have hcs : acts (buf.cairoSurface.toList.map .cairoSurfaceDestroy) = [] :=
    acts_toList_map _ _ fun _ => rfl
  have hwb : acts (buf.wlBuffer.toList.map .wlBufferDestroy) =
      buf.wlBuffer.toList.map .destroy := by
    cases buf.wlBuffer <;> rfl
  have hdata : acts (match buf.data with
      | .mapped data => [.munmap data buf.size]
      | _ => []) = [] := by
    cases buf.data <;> rfl
  simp only [klBufferDestroy, acts_cons, acts_append, hcr, hcs, hwb, hdata]
  simp [Call.acts]

theorem klBufferDestroy_triple (B : List Proxy) (self : BufferRef) (buf : KlBuffer) :
    Triple B (buf.own self) (acts (klBufferDestroy self buf).2) 0 := by
  rw [acts_klBufferDestroy]
  exact (triple_destroy_held B buf.wlBuffer (some (.buffer self)) 0).cast (add_zero _) rfl

/-- What a created `wl_buffer` goes through once the pool is made. -/
theorem klBufferCreateObjects_triple (B : List Proxy) (self : BufferRef) (buf : KlBuffer)
    (width height : UInt32) (scale : Int32) (onRelease : Option ReleaseCb)
    (userData : Option SurfaceRef) (pool : Proxy) (data : Mapping) (size : UInt64)
    (physWidth physHeight stride : UInt32) (o : BufferOutcomes) :
    let r := klBufferCreateObjects self buf width height scale onRelease userData pool data size
      physWidth physHeight stride o
    Triple B {(pool, none)} (acts r.2.2) (r.2.1.own self) := by
  intro r
  have hpool : Triple B ({(pool, none)} : Multiset (Proxy × Option Listener)) [.use pool]
      {(pool, none)} := triple_use B (l := none) (Multiset.mem_singleton_self _)
  have hmade : ∀ wb, Triple B ({(pool, none)} : Multiset (Proxy × Option Listener))
      [.use pool, .create wb, .destroy pool] {(wb, none)} := by
    intro wb
    refine hpool.append ((triple_create B wb _).cons ?_)
    exact (triple_destroy B pool none _).cast (add_comm _ _) rfl
  have hgone : ∀ wb, Triple B ({(wb, none)} : Multiset (Proxy × Option Listener))
      [.destroy wb] 0 :=
    fun wb => (triple_destroy B wb none 0).cast (add_zero _) rfl
  have huse : ∀ wb, Triple B ({(wb, none)} : Multiset (Proxy × Option Listener)) [.use wb]
      {(wb, none)} := fun wb => triple_use B (l := none) (Multiset.mem_singleton_self _)
  have hstep : ObjectsStep self buf width height scale onRelease userData pool data size physWidth
      physHeight stride o r := klBufferCreateObjects_step ..
  clear_value r
  cases hstep with
  | noBuffer => exact hpool.append (triple_destroy B pool none 0)
  | noSurface wb => exact (hmade wb).append (hgone wb)
  | noContext wb => exact (hmade wb).append (hgone wb)
  | noListener wb => exact (hmade wb).append ((huse wb).append (hgone wb))
  | made wb =>
    refine (hmade wb).append ((huse wb).append ?_)
    exact (triple_listen B wb none (Listener.buffer self) 0).cast (add_zero _) (add_zero _)

theorem klBufferAllocateShmFile_inert (size : UInt64) (o : BufferOutcomes) :
    Inert (klBufferAllocateShmFile size o).2 := by
  unfold klBufferAllocateShmFile
  split
  · rfl
  · split
    · rfl
    · split
      · rfl
      · split <;> rfl

theorem klBufferCreatePool_triple {B : List Proxy} {shm : Proxy} (hshm : shm ∈ B)
    (self : BufferRef) (buf : KlBuffer) (hbuf : buf.wlBuffer = none) (width height : UInt32)
    (scale : Int32) (onRelease : Option ReleaseCb) (userData : Option SurfaceRef) (fd : Fd)
    (data : Mapping) (size : UInt64) (physWidth physHeight stride : UInt32) (o : BufferOutcomes) :
    let r := klBufferCreatePool shm self buf width height scale onRelease userData fd data size
      physWidth physHeight stride o
    Triple B 0 (acts r.2.2) (r.2.1.own self) := by
  have huse : Triple B (0 : Multiset (Proxy × Option Listener)) [.use shm] 0 :=
    triple_use_of_borrowed hshm 0
  cases hp : o.pool with
  | none => simpa [klBufferCreatePool, hp, Call.acts, created, KlBuffer.own, hbuf] using huse
  | some pool =>
    have hmade := huse.append ((triple_create B pool 0).cast rfl (add_zero _))
    have h := hmade.append (klBufferCreateObjects_triple B self buf width height scale onRelease
      userData pool data size physWidth physHeight stride o)
    simpa [klBufferCreatePool, hp, Call.acts, created] using h

/-- The checks of `kl_buffer_create`: it gives up without touching anything, or
goes on to the shared memory file. -/
theorem klBufferCreateBody_cases (shm : Option Proxy) (self : BufferRef) (buf : KlBuffer)
    (width height : UInt32) (scale : Int32) (onRelease : Option ReleaseCb)
    (userData : Option SurfaceRef) (o : BufferOutcomes) :
    (∃ cs, Inert cs ∧
      klBufferCreateBody shm self buf width height scale onRelease userData o =
        (false, buf, cs)) ∨
    ∃ p size physWidth physHeight stride cs, shm = some p ∧ Inert cs ∧
      klBufferCreateBody shm self buf width height scale onRelease userData o =
        ((klBufferCreateFile p self buf width height scale onRelease userData size
            physWidth physHeight stride o).1,
          (klBufferCreateFile p self buf width height scale onRelease userData size
            physWidth physHeight stride o).2.1,
          cs ++ (klBufferCreateFile p self buf width height scale onRelease userData size
            physWidth physHeight stride o).2.2) := by
  cases shm with
  | none => exact Or.inl ⟨[], rfl, rfl⟩
  | some p =>
    have hstride : ∀ w r, Inert [.cairoFormatStrideForWidth w r] := fun _ _ => rfl
    simp only [klBufferCreateBody]
    split
    · exact Or.inl ⟨[], rfl, rfl⟩
    · split
      · exact Or.inl ⟨_, hstride _ _, rfl⟩
      · split
        · exact Or.inl ⟨_, hstride _ _, rfl⟩
        · exact Or.inr ⟨p, _, _, _, _, _, rfl, hstride _ _, rfl⟩

theorem klBufferCreateFile_triple {B : List Proxy} {shm : Proxy} (hshm : shm ∈ B)
    (self : BufferRef) (buf : KlBuffer) (hbuf : buf.wlBuffer = none) (width height : UInt32)
    (scale : Int32) (onRelease : Option ReleaseCb) (userData : Option SurfaceRef) (size : UInt64)
    (physWidth physHeight stride : UInt32) (o : BufferOutcomes) :
    let r := klBufferCreateFile shm self buf width height scale onRelease userData size
      physWidth physHeight stride o
    Triple B 0 (acts r.2.2) (r.2.1.own self) := by
  have hnil := triple_nil B (0 : Multiset (Proxy × Option Listener))
  cases hf : (klBufferAllocateShmFile size o).1 with
  | none =>
    simpa [klBufferCreateFile, hf, (klBufferAllocateShmFile_inert size o).acts, KlBuffer.own,
      hbuf] using hnil
  | some fd =>
    cases hm : o.mmap with
    | none =>
      simpa [klBufferCreateFile, hf, hm, (klBufferAllocateShmFile_inert size o).acts,
        KlBuffer.own, hbuf, Call.acts] using hnil
    | some data =>
      have h := klBufferCreatePool_triple hshm self buf hbuf width height scale onRelease userData
        fd data size physWidth physHeight stride o
      simpa [klBufferCreateFile, hf, hm, (klBufferAllocateShmFile_inert size o).acts,
        Call.acts] using h

/-- `kl_buffer_create` on a buffer that holds nothing makes exactly the
`wl_buffer` it records, and nothing when it fails. -/
theorem klBufferCreate_triple {B : List Proxy} {shm : Option Proxy}
    (hshm : ∀ p, shm = some p → p ∈ B) (self : BufferRef) (buf : KlBuffer)
    (hbuf : buf.wlBuffer = none) (width height : UInt32) (scale : Int32)
    (onRelease : Option ReleaseCb) (userData : Option SurfaceRef) (o : BufferOutcomes) :
    let r := klBufferCreate shm self buf width height scale onRelease userData o
    Triple B 0 (acts r.2.2) (r.2.1.own self) := by
  have hnil : Triple B (0 : Multiset (Proxy × Option Listener)) [] (buf.own self) := by
    simpa [KlBuffer.own, hbuf] using triple_nil B (0 : Multiset (Proxy × Option Listener))
  simp only [klBufferCreate, acts_append]
  rw [show acts [Call.klBufferCreate self _ width height scale _] = [] from rfl, List.append_nil]
  rcases klBufferCreateBody_cases shm self buf width height scale onRelease userData o with
    ⟨cs, hcs, he⟩ | ⟨p, size, physWidth, physHeight, stride, cs, hp, hcs, he⟩
  · simpa [he, hcs.acts] using hnil
  · have h := klBufferCreateFile_triple (hshm p hp) self buf hbuf width height scale onRelease
      userData size physWidth physHeight stride o
    simpa [he, hcs.acts] using h

/-! ## What a creation returns -/

/-- A buffer as a successful `kl_buffer_create` leaves it. -/
structure KlBuffer.Made (buf : KlBuffer) (width height : UInt32) (scale : Int32)
    (onRelease : Option ReleaseCb) (userData : Option SurfaceRef) (wb : Proxy) : Prop where
  wlBuffer : buf.wlBuffer = some wb
  width : buf.width = width
  height : buf.height = height
  scale : buf.scale = scale
  busy : buf.busy = false
  onRelease : buf.onRelease = onRelease
  userData : buf.userData = userData

/-- A buffer with no `wl_buffer`, as a failed `kl_buffer_create` leaves it. -/
structure KlBuffer.Blank (buf : KlBuffer) : Prop where
  wlBuffer : buf.wlBuffer = none
  busy : buf.busy = false

theorem mem_klBufferDestroy {self : BufferRef} {buf : KlBuffer} {c : Call}
    (h : c ∈ (klBufferDestroy self buf).2) :
    c = .klBufferDestroy self ∨ (∃ cr, c = .cairoDestroy cr) ∨
      (∃ surface, c = .cairoSurfaceDestroy surface) ∨ (∃ wb, c = .wlBufferDestroy wb) ∨
      ∃ data, c = .munmap data buf.size := by
  simp only [klBufferDestroy, List.mem_cons, List.mem_append, List.mem_map] at h
  rcases h with rfl | ((⟨cr, -, rfl⟩ | ⟨surface, -, rfl⟩) | ⟨wb, -, rfl⟩) | h
  · exact Or.inl rfl
  · exact Or.inr (Or.inl ⟨cr, rfl⟩)
  · exact Or.inr (Or.inr (Or.inl ⟨surface, rfl⟩))
  · exact Or.inr (Or.inr (Or.inr (Or.inl ⟨wb, rfl⟩)))
  · split at h
    · exact Or.inr (Or.inr (Or.inr (Or.inr ⟨_, List.mem_singleton.mp h⟩)))
    · cases h

theorem klBufferDestroy_blank (self : BufferRef) (buf : KlBuffer) :
    (klBufferDestroy self buf).1.Blank :=
  ⟨rfl, rfl⟩

theorem klBufferDestroy_backing (self : BufferRef) (buf : KlBuffer) :
    (klBufferDestroy self buf).2.all Call.backing := by
  unfold klBufferDestroy
  cases buf.cr <;> cases buf.cairoSurface <;> cases buf.wlBuffer <;> cases buf.data <;> rfl

theorem klBufferDestroy_notes (self : BufferRef) (buf : KlBuffer) :
    NotesOnly self (klBufferDestroy self buf).2 ∧
      ∀ f, noteAll f (klBufferDestroy self buf).2 = Function.update f self none := by
  have hself : NotesOnly self [.klBufferDestroy self] := by simp [NotesOnly, Call.note]
  have hrest : Noteless (klBufferDestroy self buf).2.tail := by
    refine noteless_of_all ?_
    unfold klBufferDestroy
    cases buf.cr <;> cases buf.cairoSurface <;> cases buf.wlBuffer <;> cases buf.data <;> rfl
  refine ⟨hself.append (hrest.notesOnly self), fun f => ?_⟩
  exact hrest.noteAll (Function.update f self none)

theorem klBufferDestroy_names (self : BufferRef) (buf : KlBuffer) :
    Names self.surface (klBufferDestroy self buf).2 := by
  have hself : Names self.surface [.klBufferDestroy self] := by simp [Names, Call.subject]
  have hrest : Names self.surface (klBufferDestroy self buf).2.tail := by
    refine names_of_all ?_
    unfold klBufferDestroy
    cases buf.cr <;> cases buf.cairoSurface <;> cases buf.wlBuffer <;> cases buf.data <;> rfl
  exact hself.append hrest

/-- The outcome of a creation: made with the wanted size, or nothing. -/
structure Creation (ref : BufferRef) (width height : UInt32) (scale : Int32)
    (onRelease : Option ReleaseCb) (userData : Option SurfaceRef) (wlBuffer : Option Proxy)
    (r : Bool × KlBuffer × List Call) : Prop where
  made : r.1 = true → ∃ wb, wlBuffer = some wb ∧
    r.2.1.Made width height scale onRelease userData wb
  blank : r.1 = false → r.2.1.Blank
  backing : r.2.2.all Call.backing
  notes : NotesOnly ref r.2.2
  names : Names ref.surface r.2.2
  destroys : ∀ p, .wlBufferDestroy p ∈ r.2.2 → .create p ∈ acts r.2.2

theorem klBufferCreateObjects_creation (self : BufferRef) (buf : KlBuffer) (hbuf : buf.Blank)
    (width height : UInt32) (scale : Int32) (onRelease : Option ReleaseCb)
    (userData : Option SurfaceRef) (pool : Proxy) (data : Mapping) (size : UInt64)
    (physWidth physHeight stride : UInt32) (o : BufferOutcomes) :
    Creation self width height scale onRelease userData o.wlBuffer
      (klBufferCreateObjects self buf width height scale onRelease userData pool data size
        physWidth physHeight stride o) := by
  have hb := hbuf.busy
  have hstep := klBufferCreateObjects_step self buf width height scale onRelease userData pool data
    size physWidth physHeight stride o
  generalize klBufferCreateObjects self buf width height scale onRelease userData pool data size
    physWidth physHeight stride o = r at hstep
  have hlisten : ∀ wb ok, Names self.surface [.wlBufferAddListener wb self ok] := by
    intro wb ok
    simp [Names, Call.subject]
  cases hstep with
  | noBuffer =>
    refine ⟨nofun, fun _ => ⟨rfl, hb⟩, rfl, (noteless_of_all rfl).notesOnly self, names_of_all rfl,
      fun p hp => ?_⟩
    simp at hp
  | noSurface wb | noContext wb =>
    refine ⟨nofun, fun _ => ⟨rfl, hb⟩, rfl, (noteless_of_all rfl).notesOnly self, names_of_all rfl,
      fun p hp => ?_⟩
    obtain rfl : p = wb := by simpa using hp
    exact List.mem_of_getElem? (i := 1) rfl
  | noListener wb =>
    have hdestroy := klBufferDestroy_notes self (.filled width height scale onRelease userData data
      size stride o wb)
    have hnames := klBufferDestroy_names self (.filled width height scale onRelease userData data
      size stride o wb)
    refine ⟨nofun, fun _ => ⟨rfl, rfl⟩, rfl, ?_, ?_, fun p hp => ?_⟩
    · exact ((@noteless_of_all [_, _, _, _, _] rfl).notesOnly self).append hdestroy.1
    · exact (@names_of_all _ [_, _, _, _] rfl).append ((hlisten wb false).append hnames)
    · obtain rfl : p = wb := by simpa using hp
      exact List.mem_of_getElem? (i := 1) rfl
  | made wb hw =>
    refine ⟨fun _ => ⟨wb, hw, rfl, rfl, rfl, rfl, rfl, rfl, rfl⟩, nofun, rfl,
      (noteless_of_all rfl).notesOnly self, ?_, fun p hp => ?_⟩
    · exact (@names_of_all _ [_, _, _, _] rfl).append (hlisten wb true)
    · simp at hp

theorem Creation.after {self : BufferRef} {width height : UInt32} {scale : Int32}
    {onRelease : Option ReleaseCb} {userData : Option SurfaceRef} {wb : Option Proxy}
    {r : Bool × KlBuffer × List Call}
    (h : Creation self width height scale onRelease userData wb r) {cs : List Call}
    (hb : cs.all Call.backing) (hn : Noteless cs) (hs : Names self.surface cs)
    (hd : ∀ p, .wlBufferDestroy p ∉ cs) :
    Creation self width height scale onRelease userData wb (r.1, r.2.1, cs ++ r.2.2) := by
  refine ⟨h.made, h.blank, by simp only [List.all_append, hb, h.backing, Bool.and_self],
    (hn.notesOnly self).append h.notes, hs.append h.names, fun p hp => ?_⟩
  rcases List.mem_append.mp hp with hp | hp
  · exact absurd hp (hd p)
  · rw [acts_append]
    exact List.mem_append_right _ (h.destroys p hp)

theorem Creation.afterInert {self : BufferRef} {width height : UInt32} {scale : Int32}
    {onRelease : Option ReleaseCb} {userData : Option SurfaceRef} {wb : Option Proxy}
    {r : Bool × KlBuffer × List Call}
    (h : Creation self width height scale onRelease userData wb r) {cs : List Call}
    (hcs : Inert cs) :
    Creation self width height scale onRelease userData wb (r.1, r.2.1, cs ++ r.2.2) :=
  h.after hcs.backing hcs.noteless (hcs.names _) hcs.not_mem

theorem creation_failed {self : BufferRef} {width height : UInt32} {scale : Int32}
    {onRelease : Option ReleaseCb} {userData : Option SurfaceRef} {wb : Option Proxy}
    {buf : KlBuffer} (hbuf : buf.Blank) {cs : List Call} (hcs : Inert cs) :
    Creation self width height scale onRelease userData wb (false, buf, cs) :=
  ⟨fun h => absurd h Bool.false_ne_true, fun _ => hbuf, hcs.backing, hcs.noteless.notesOnly self,
    hcs.names _, fun p hp => absurd hp (hcs.not_mem p)⟩

theorem klBufferCreatePool_creation (shm : Proxy) (self : BufferRef) (buf : KlBuffer)
    (hbuf : buf.Blank) (width height : UInt32) (scale : Int32) (onRelease : Option ReleaseCb)
    (userData : Option SurfaceRef) (fd : Fd) (data : Mapping) (size : UInt64)
    (physWidth physHeight stride : UInt32) (o : BufferOutcomes) :
    Creation self width height scale onRelease userData o.wlBuffer
      (klBufferCreatePool shm self buf width height scale onRelease userData fd data size
        physWidth physHeight stride o) := by
  have hpool : ∀ ret, Noteless [.wlShmCreatePool shm fd size.toUInt32.toInt32 ret, .close fd] := by
    simp [Noteless, Call.note]
  have hnames : ∀ ret, Names self.surface
      [.wlShmCreatePool shm fd size.toUInt32.toInt32 ret, .close fd] := by
    simp [Names, Call.subject]
  unfold klBufferCreatePool
  split
  · refine ⟨fun h => absurd h Bool.false_ne_true, fun _ => hbuf, rfl, ?_, ?_, by simp⟩
    · simp [NotesOnly, Call.note]
    · simp [Names, Call.subject]
  · exact (klBufferCreateObjects_creation self buf hbuf width height scale onRelease userData _
      data size physWidth physHeight stride o).after rfl (hpool _) (hnames _) (by simp)

theorem klBufferCreateFile_creation (shm : Proxy) (self : BufferRef) (buf : KlBuffer)
    (hbuf : buf.Blank) (width height : UInt32) (scale : Int32) (onRelease : Option ReleaseCb)
    (userData : Option SurfaceRef) (size : UInt64) (physWidth physHeight stride : UInt32)
    (o : BufferOutcomes) :
    Creation self width height scale onRelease userData o.wlBuffer
      (klBufferCreateFile shm self buf width height scale onRelease userData size
        physWidth physHeight stride o) := by
  have hfile := klBufferAllocateShmFile_inert size o
  cases hf : (klBufferAllocateShmFile size o).1 with
  | none =>
    simp only [klBufferCreateFile, hf]
    exact creation_failed hbuf hfile
  | some fd =>
    cases hm : o.mmap with
    | none =>
      simp only [klBufferCreateFile, hf, hm]
      have hmmap : Inert [.mmap size fd none] := rfl
      exact creation_failed hbuf ((hfile.append hmmap).append rfl)
    | some data =>
      simp only [klBufferCreateFile, hf, hm]
      exact (klBufferCreatePool_creation shm self buf hbuf width height scale onRelease userData
        fd data size physWidth physHeight stride o).afterInert (hfile.append rfl)

/-- **`kl_buffer_create`** on a blank buffer: on success the buffer records the
`wl_buffer` that was made and the size it was made with; on failure it is blank
again, and whatever was destroyed on the way had been made in the same call. -/
theorem klBufferCreate_creation (shm : Option Proxy) (self : BufferRef) (buf : KlBuffer)
    (hbuf : buf.Blank) (width height : UInt32) (scale : Int32) (onRelease : Option ReleaseCb)
    (userData : Option SurfaceRef) (o : BufferOutcomes) :
    Creation self width height scale onRelease userData o.wlBuffer
      (klBufferCreate shm self buf width height scale onRelease userData o) := by
  have hbody : Creation self width height scale onRelease userData o.wlBuffer
      (klBufferCreateBody shm self buf width height scale onRelease userData o) := by
    rcases klBufferCreateBody_cases shm self buf width height scale onRelease userData o with
      ⟨cs, hcs, he⟩ | ⟨p, size, physWidth, physHeight, stride, cs, -, hcs, he⟩
    · rw [he]
      exact creation_failed hbuf hcs
    · rw [he]
      exact (klBufferCreateFile_creation p self buf hbuf width height scale onRelease userData
        size physWidth physHeight stride o).afterInert hcs
  refine ⟨hbody.made, hbody.blank, ?_, hbody.notes.append ?_, hbody.names.append ?_,
    fun p hp => ?_⟩
  · simp only [klBufferCreate, List.all_append, hbody.backing, hbuf.wlBuffer]
    rfl
  · simp [NotesOnly, Call.note]
  · simp [Names, Call.subject]
  · simp only [klBufferCreate, List.mem_append, List.mem_singleton, reduceCtorEq, or_false] at hp
    simp only [klBufferCreate, acts_append]
    exact List.mem_append_left _ (hbody.destroys p hp)

/-- The calls end with the note of the return, which names the `wl_buffer` that the
buffer then has. -/
theorem klBufferCreate_note (shm : Option Proxy) (self : BufferRef) (buf : KlBuffer)
    (hbuf : buf.Blank) (width height : UInt32) (scale : Int32) (onRelease : Option ReleaseCb)
    (userData : Option SurfaceRef) (o : BufferOutcomes) :
    ∃ cs, (klBufferCreate shm self buf width height scale onRelease userData o).2.2 =
      cs ++ [.klBufferCreate self buf.wlBuffer width height scale
        (klBufferCreate shm self buf width height scale onRelease userData o).2.1.wlBuffer] := by
  have hblank := (klBufferCreate_creation shm self buf hbuf width height scale onRelease userData
    o).blank
  refine ⟨(klBufferCreateBody shm self buf width height scale onRelease userData o).2.2, ?_⟩
  simp only [klBufferCreate] at hblank ⊢
  split
  · rfl
  · rename_i h
    rw [(hblank (by simpa using h)).wlBuffer]

theorem klBufferCreate_mem (shm : Option Proxy) (self : BufferRef) (buf : KlBuffer)
    (hbuf : buf.Blank) (width height : UInt32) (scale : Int32) (onRelease : Option ReleaseCb)
    (userData : Option SurfaceRef) (o : BufferOutcomes) :
    .klBufferCreate self buf.wlBuffer width height scale
        (klBufferCreate shm self buf width height scale onRelease userData o).2.1.wlBuffer ∈
      (klBufferCreate shm self buf width height scale onRelease userData o).2.2 := by
  obtain ⟨cs, he⟩ := klBufferCreate_note shm self buf hbuf width height scale onRelease userData o
  rw [he]
  exact List.mem_append_right _ (List.mem_singleton_self _)

theorem klBufferCreate_noted (shm : Option Proxy) (self : BufferRef) (buf : KlBuffer)
    (hbuf : buf.Blank) (width height : UInt32) (scale : Int32) (onRelease : Option ReleaseCb)
    (userData : Option SurfaceRef) (o : BufferOutcomes) (f : BufferRef → Option Proxy) :
    noteAll f (klBufferCreate shm self buf width height scale onRelease userData o).2.2 self =
      (klBufferCreate shm self buf width height scale onRelease userData o).2.1.wlBuffer := by
  obtain ⟨cs, he⟩ := klBufferCreate_note shm self buf hbuf width height scale onRelease userData o
  rw [he, noteAll_append]
  exact Function.update_self _ _ _

end Kirilock
