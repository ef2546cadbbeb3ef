import Kirilock.Buffer
import Mathlib.Tactic.Linarith
import Mathlib.Tactic.NormNum

/-!
The sizes of a buffer: what `kl_buffer_create` multiplies, and in which type.

The physical size is a `uint32_t` product, which wraps, and the size of the file is a
`size_t` product, which does not, but goes to the compositor as an `int32_t`.  Where the
first does not wrap the buffer has the physical size (`physical_iff`); where the second
fits the pool is the file (`pool_iff`).

Every size in the calls of one creation is one of these products (`Call.Sized`).
-/

namespace Kirilock

/-! ## Machine numbers -/

theorem toInt_toInt32_of_lt {n : UInt32} (h : n.toNat < 2147483648) :
    n.toInt32.toInt = n.toNat := by
  have e : n.toInt32.toInt = n.toBitVec.toInt := rfl
  rw [e, BitVec.toInt_eq_toNat_cond]
  simp only [UInt32.toNat_toBitVec]
  split <;> omega

theorem toInt_toInt32_nonneg {n : UInt32} : 0 ≤ n.toInt32.toInt ↔ n.toNat < 2147483648 := by
  have hlt := n.toNat_lt
  have e : n.toInt32.toInt = n.toBitVec.toInt := rfl
  rw [e, BitVec.toInt_eq_toNat_cond]
  simp only [UInt32.toNat_toBitVec]
  split <;> omega

theorem toNat_toUInt32_of_pos {n : Int32} (h : 0 < n) : (n.toUInt32.toNat : Int) = n.toInt := by
  have h0 : 0 < n.toInt := by simpa [Int32.lt_iff_toInt_lt] using h
  have hlt := n.toUInt32.toNat_lt
  have e : n.toInt = n.toUInt32.toBitVec.toInt := rfl
  rw [BitVec.toInt_eq_toNat_cond] at e
  simp only [UInt32.toNat_toBitVec] at e
  split at e <;> omega

theorem int32_not_le {n : Int32} : ¬n ≤ 0 ↔ 0 < n := by
  rw [Int32.le_iff_toInt_le, Int32.lt_iff_toInt_lt]
  omega

/-! ## What a creation needs -/

/-- `phys_width` and `phys_height` -/
def physical (length : UInt32) (scale : Int32) : UInt32 := length * scale.toUInt32

/-- The bytes of the file. -/
def fileBytes (stride : Int32) (physHeight : UInt32) : UInt64 :=
  stride.toUInt32.toUInt64 * physHeight.toUInt64

theorem physical_toInt {length : UInt32} {scale : Int32} (h : 0 < scale) :
    ((physical length scale).toNat : Int) = length.toNat * scale.toInt % 4294967296 := by
  unfold physical
  rw [UInt32.toNat_mul, ← toNat_toUInt32_of_pos h]
  push_cast
  rfl

theorem fileBytes_toNat (stride : Int32) (physHeight : UInt32) :
    (fileBytes stride physHeight).toNat = stride.toUInt32.toNat * physHeight.toNat := by
  unfold fileBytes
  rw [UInt64.toNat_mul, UInt32.toNat_toUInt64, UInt32.toNat_toUInt64]
  refine Nat.mod_eq_of_lt ?_
  have h1 := stride.toUInt32.toNat_lt
  have h2 := physHeight.toNat_lt
  calc stride.toUInt32.toNat * physHeight.toNat
      ≤ 4294967295 * 4294967295 := Nat.mul_le_mul (by omega) (by omega)
    _ < 2 ^ 64 := by norm_num

/-- The guard of `kl_buffer_create` against an overflow of `size_t` never fires. -/
theorem physHeight_le (physHeight stride : UInt32) (h : stride ≠ 0) :
    ¬physHeight.toUInt64 > sizeMax / stride.toUInt64 := by
  have hs : 0 < stride.toNat := by
    refine Nat.pos_of_ne_zero fun h0 => h ?_
    exact UInt32.toNat_inj.mp h0
  have h1 := physHeight.toNat_lt
  have h2 := stride.toNat_lt
  have hdiv : 4294967295 ≤ 18446744073709551615 / stride.toNat := by
    rw [Nat.le_div_iff_mul_le hs]
    calc 4294967295 * stride.toNat ≤ 4294967295 * 4294967295 := Nat.mul_le_mul_left _ (by omega)
      _ ≤ 18446744073709551615 := by norm_num
  rw [gt_iff_lt, UInt64.lt_iff_toNat_lt, UInt64.toNat_div, UInt32.toNat_toUInt64,
    UInt32.toNat_toUInt64]
  show ¬18446744073709551615 / stride.toNat < physHeight.toNat
  omega

/-- What `kl_buffer_create` checks of its arguments and of the stride cairo calculates. -/
structure Accepted (shm : Option Proxy) (width height : UInt32) (scale stride : Int32) : Prop where
  shm : shm.isSome = true
  width : width ≠ 0
  height : height ≠ 0
  scale : 0 < scale
  stride : 0 < stride

instance (shm : Option Proxy) (width height : UInt32) (scale stride : Int32) :
    Decidable (Accepted shm width height scale stride) :=
  decidable_of_iff (shm.isSome = true ∧ width ≠ 0 ∧ height ≠ 0 ∧ 0 < scale ∧ 0 < stride)
    ⟨fun ⟨h1, h2, h3, h4, h5⟩ => ⟨h1, h2, h3, h4, h5⟩, fun ⟨h1, h2, h3, h4, h5⟩ =>
      ⟨h1, h2, h3, h4, h5⟩⟩

/-- No call of a creation fails. -/
structure BufferOutcomes.Succeed (o : BufferOutcomes) : Prop where
  memfd : o.memfd.isSome = true
  ftruncate : o.ftruncate = true
  addSeals : o.addSeals = true
  mmap : o.mmap.isSome = true
  pool : o.pool.isSome = true
  wlBuffer : o.wlBuffer.isSome = true
  cairoSurfaceOk : o.cairoSurfaceOk = true
  crOk : o.crOk = true
  addListener : o.addListener = true

instance (o : BufferOutcomes) : Decidable o.Succeed :=
  decidable_of_iff (o.memfd.isSome = true ∧ o.ftruncate = true ∧ o.addSeals = true ∧
      o.mmap.isSome = true ∧ o.pool.isSome = true ∧ o.wlBuffer.isSome = true ∧
      o.cairoSurfaceOk = true ∧ o.crOk = true ∧ o.addListener = true)
    ⟨fun ⟨h1, h2, h3, h4, h5, h6, h7, h8, h9⟩ => ⟨h1, h2, h3, h4, h5, h6, h7, h8, h9⟩,
      fun ⟨h1, h2, h3, h4, h5, h6, h7, h8, h9⟩ => ⟨h1, h2, h3, h4, h5, h6, h7, h8, h9⟩⟩

section Creation

variable (shm : Option Proxy) (self : BufferRef) (buf : KlBuffer) (width height : UInt32)
  (scale : Int32) (onRelease : Option ReleaseCb) (userData : Option SurfaceRef)
  (o : BufferOutcomes)

theorem klBufferCreateBody_accepted {p : Proxy}
    (h : Accepted (some p) width height scale o.stride) :
    klBufferCreateBody (some p) self buf width height scale onRelease userData o =
      ((klBufferCreateFile p self buf width height scale onRelease userData
          (fileBytes o.stride (physical height scale)) (physical width scale)
          (physical height scale) o.stride.toUInt32 o).1,
        (klBufferCreateFile p self buf width height scale onRelease userData
          (fileBytes o.stride (physical height scale)) (physical width scale)
          (physical height scale) o.stride.toUInt32 o).2.1,
        [Call.cairoFormatStrideForWidth (physical width scale).toInt32 o.stride] ++
          (klBufferCreateFile p self buf width height scale onRelease userData
            (fileBytes o.stride (physical height scale)) (physical width scale)
            (physical height scale) o.stride.toUInt32 o).2.2) := by
  have hargs : ¬(width = 0 ∨ height = 0 ∨ scale ≤ 0) := by
    rintro (h0 | h0 | h0)
    · exact h.width h0
    · exact h.height h0
    · exact int32_not_le.mpr h.scale h0
  have hstride : o.stride.toUInt32 ≠ 0 := by
    intro h0
    have hpos := toNat_toUInt32_of_pos h.stride
    have h1 := Int32.lt_iff_toInt_lt.mp h.stride
    rw [h0] at hpos
    simp at hpos h1
    omega
  simp only [klBufferCreateBody, if_neg hargs, if_neg (int32_not_le.mpr h.stride)]
  rw [if_neg (physHeight_le _ _ hstride)]
  rfl

theorem klBufferCreateBody_refused (h : ¬Accepted shm width height scale o.stride) :
    ∃ cs, (cs = [] ∨ cs = [Call.cairoFormatStrideForWidth (physical width scale).toInt32
        o.stride]) ∧
      klBufferCreateBody shm self buf width height scale onRelease userData o =
        (false, buf, cs) := by
  cases shm with
  | none => exact ⟨[], Or.inl rfl, rfl⟩
  | some p =>
    by_cases hargs : width = 0 ∨ height = 0 ∨ scale ≤ 0
    · exact ⟨[], Or.inl rfl, by simp only [klBufferCreateBody, if_pos hargs]⟩
    · by_cases hstride : o.stride ≤ 0
      · exact ⟨_, Or.inr rfl, by simp only [klBufferCreateBody, if_neg hargs, if_pos hstride]; rfl⟩
      · obtain ⟨hw, hh, hs⟩ : width ≠ 0 ∧ height ≠ 0 ∧ ¬scale ≤ 0 := by simpa using hargs
        exact absurd ⟨rfl, hw, hh, int32_not_le.mp hs, int32_not_le.mp hstride⟩ h

/-- A creation with nothing that fails. -/
theorem klBufferCreateFile_succeed (p : Proxy) (size : UInt64)
    (physWidth physHeight stride : UInt32) (hsize : size ≠ 0) (ho : o.Succeed) :
    ∃ fd data pool wb, o.memfd = some fd ∧ o.mmap = some data ∧ o.pool = some pool ∧
      o.wlBuffer = some wb ∧
      klBufferCreateFile p self buf width height scale onRelease userData size physWidth physHeight
          stride o =
        (true, { buf with
            wlBuffer := some wb, cairoSurface := some o.cairoSurface, cr := some o.cr,
            data := .mapped data, size := size, width := width, height := height, scale := scale,
            stride := stride, busy := false, onRelease := onRelease, userData := userData },
          [Call.memfdCreate (some fd), .ftruncate fd size true, .fcntlAddSeals fd true,
            .mmap size fd (some data), .wlShmCreatePool p fd size.toUInt32.toInt32 (some pool),
            .close fd,
            .wlShmPoolCreateBuffer pool physWidth.toInt32 physHeight.toInt32 stride.toInt32
              (some wb), .wlShmPoolDestroy pool,
            .cairoImageSurfaceCreateForData data physWidth.toInt32 physHeight.toInt32
              stride.toInt32 o.cairoSurface true,
            .cairoCreate o.cairoSurface o.cr true, .wlBufferAddListener wb self true]) := by
  obtain ⟨fd, hfd⟩ := Option.isSome_iff_exists.mp ho.memfd
  obtain ⟨data, hdata⟩ := Option.isSome_iff_exists.mp ho.mmap
  obtain ⟨pool, hpool⟩ := Option.isSome_iff_exists.mp ho.pool
  obtain ⟨wb, hwb⟩ := Option.isSome_iff_exists.mp ho.wlBuffer
  refine ⟨fd, data, pool, wb, hfd, hdata, hpool, hwb, ?_⟩
  simp [klBufferCreateFile, klBufferAllocateShmFile, klBufferCreatePool, klBufferCreateObjects,
    hsize, hfd, hdata, hpool, hwb, ho.ftruncate, ho.addSeals, ho.cairoSurfaceOk, ho.crOk,
    ho.addListener]

theorem klBufferCreateObjects_true {pool : Proxy} {data : Mapping} {size : UInt64}
    {physWidth physHeight stride : UInt32}
    (h : (klBufferCreateObjects self buf width height scale onRelease userData pool data size
      physWidth physHeight stride o).1 = true) :
    o.wlBuffer.isSome = true ∧ o.cairoSurfaceOk = true ∧ o.crOk = true ∧
      o.addListener = true := by
  have hstep := klBufferCreateObjects_step self buf width height scale onRelease userData pool data
    size physWidth physHeight stride o
  generalize klBufferCreateObjects self buf width height scale onRelease userData pool data size
    physWidth physHeight stride o = r at h hstep
  cases hstep with
  | noBuffer | noSurface | noContext | noListener => cases h
  | made wb hw hs hc hl => exact ⟨by rw [hw]; rfl, hs, hc, hl⟩

theorem klBufferAllocateShmFile_some {size : UInt64} {fd : Fd}
    (h : (klBufferAllocateShmFile size o).1 = some fd) :
    size ≠ 0 ∧ o.memfd = some fd ∧ o.ftruncate = true ∧ o.addSeals = true := by
  unfold klBufferAllocateShmFile at h
  split at h
  · cases h
  · rename_i hsize
    split at h
    · cases h
    · rename_i fd' hfd
      split at h
      · cases h
      · rename_i htrunc
        split at h
        · cases h
        · rename_i hseals
          cases h
          exact ⟨hsize, hfd, by simpa using htrunc, by simpa using hseals⟩

theorem klBufferCreateFile_true_iff (p : Proxy) (size : UInt64)
    (physWidth physHeight stride : UInt32) :
    (klBufferCreateFile p self buf width height scale onRelease userData size physWidth physHeight
      stride o).1 = true ↔ size ≠ 0 ∧ o.Succeed := by
  constructor
  · intro h
    cases hf : (klBufferAllocateShmFile size o).1 with
    | none => simp [klBufferCreateFile, hf] at h
    | some fd =>
      obtain ⟨hsize, hfd, htrunc, hseals⟩ := klBufferAllocateShmFile_some o hf
      cases hm : o.mmap with
      | none => simp [klBufferCreateFile, hf, hm] at h
      | some data =>
        cases hp : o.pool with
        | none => simp [klBufferCreateFile, hf, hm, klBufferCreatePool, hp] at h
        | some pool =>
          simp only [klBufferCreateFile, hf, hm, klBufferCreatePool, hp] at h
          obtain ⟨hw, hs, hc, hl⟩ := klBufferCreateObjects_true self buf width height scale
            onRelease userData o h
          exact ⟨hsize, ⟨by rw [hfd]; rfl, htrunc, hseals, by rw [hm]; rfl, by rw [hp]; rfl, hw, hs,
            hc, hl⟩⟩
  · rintro ⟨hsize, ho⟩
    obtain ⟨fd, data, pool, wb, -, -, -, -, he⟩ := klBufferCreateFile_succeed self buf width height
      scale onRelease userData o p size physWidth physHeight stride hsize ho
    rw [he]

theorem fileBytes_ne_zero {stride : Int32} {physHeight : UInt32} (h : 0 < stride) :
    fileBytes stride physHeight ≠ 0 ↔ physHeight ≠ 0 := by
  have hpos := toNat_toUInt32_of_pos h
  have h1 := Int32.lt_iff_toInt_lt.mp h
  have hs : stride.toUInt32.toNat ≠ 0 := by
    intro h0
    rw [h0] at hpos
    simp at hpos h1
    omega
  rw [not_iff_not, ← UInt64.toNat_inj, ← UInt32.toNat_inj, fileBytes_toNat]
  show _ * _ = 0 ↔ _ = 0
  rw [Nat.mul_eq_zero]
  exact or_iff_right hs

/-- **When `kl_buffer_create` returns 0.** -/
theorem klBufferCreate_true_iff :
    (klBufferCreate shm self buf width height scale onRelease userData o).1 = true ↔
      Accepted shm width height scale o.stride ∧ physical height scale ≠ 0 ∧ o.Succeed := by
  by_cases h : Accepted shm width height scale o.stride
  · obtain ⟨p, rfl⟩ := Option.isSome_iff_exists.mp h.shm
    simp only [klBufferCreate, klBufferCreateBody_accepted self buf width height scale onRelease
      userData o h, klBufferCreateFile_true_iff, fileBytes_ne_zero h.stride]
    exact ⟨fun hr => ⟨h, hr⟩, fun hr => hr.2⟩
  · obtain ⟨cs, -, he⟩ := klBufferCreateBody_refused shm self buf width height scale onRelease
      userData o h
    simp only [klBufferCreate, he]
    exact ⟨by rintro ⟨⟩, fun hr => absurd hr.1 h⟩

end Creation

/-! ## The sizes in the calls -/

/-- A call of `kl_buffer_create`, in which the sizes are those that were calculated. -/
def Call.Sized (physWidth physHeight : UInt32) (stride : Int32) : Call → Prop
  | .ftruncate _ size _ => size = fileBytes stride physHeight
  | .mmap size _ _ => size = fileBytes stride physHeight
  | .wlShmCreatePool _ _ size _ => size = (fileBytes stride physHeight).toUInt32.toInt32
  | .wlShmPoolCreateBuffer _ w h s _ =>
    w = physWidth.toInt32 ∧ h = physHeight.toInt32 ∧ s = stride
  | .cairoImageSurfaceCreateForData _ w h s _ _ =>
    w = physWidth.toInt32 ∧ h = physHeight.toInt32 ∧ s = stride
  | .cairoFormatStrideForWidth .. | .memfdCreate _ | .fcntlAddSeals .. | .munmap .. | .close _
  | .wlShmPoolDestroy _ | .wlBufferAddListener .. | .wlBufferDestroy _ | .cairoSurfaceDestroy _
  | .cairoCreate .. | .cairoDestroy _ | .klBufferCreate .. | .klBufferDestroy _ => True
  | _ => False

def Call.createsPool : Call → Bool
  | .wlShmCreatePool .. => true
  | _ => false

section Sizes

variable (shm : Option Proxy) (self : BufferRef) (buf : KlBuffer) (width height : UInt32)
  (scale : Int32) (onRelease : Option ReleaseCb) (userData : Option SurfaceRef)
  (o : BufferOutcomes)

theorem klBufferDestroy_sized (physWidth physHeight : UInt32) (stride : Int32) :
    ∀ c ∈ (klBufferDestroy self buf).2,
      c.Sized physWidth physHeight stride ∧ c.createsPool = false := by
  intro c hc
  rcases mem_klBufferDestroy hc with rfl | ⟨_, rfl⟩ | ⟨_, rfl⟩ | ⟨_, rfl⟩ | ⟨_, rfl⟩
  all_goals exact ⟨trivial, rfl⟩

theorem klBufferCreateObjects_sized (pool : Proxy) (data : Mapping) (size : UInt64)
    (physWidth physHeight : UInt32) (stride : Int32) :
    ∀ c ∈ (klBufferCreateObjects self buf width height scale onRelease userData pool data size
      physWidth physHeight stride.toUInt32 o).2.2,
      c.Sized physWidth physHeight stride ∧ c.createsPool = false := by
  have hstride : stride.toUInt32.toInt32 = stride := Int32.toInt32_toUInt32 stride
  have hstep := klBufferCreateObjects_step self buf width height scale onRelease userData pool data
    size physWidth physHeight stride.toUInt32 o
  generalize klBufferCreateObjects self buf width height scale onRelease userData pool data size
    physWidth physHeight stride.toUInt32 o = r at hstep
  cases hstep <;> simp [Call.Sized, Call.createsPool, hstride]

theorem klBufferCreateFile_sized (p : Proxy) (physWidth physHeight : UInt32) (stride : Int32) :
    ∀ c ∈ (klBufferCreateFile p self buf width height scale onRelease userData
      (fileBytes stride physHeight) physWidth physHeight stride.toUInt32 o).2.2,
      c.Sized physWidth physHeight stride := by
  have hfile : ∀ c ∈ (klBufferAllocateShmFile (fileBytes stride physHeight) o).2,
      c.Sized physWidth physHeight stride := by
    unfold klBufferAllocateShmFile
    split
    · simp
    · split
      · simp [Call.Sized]
      · split
        · simp [Call.Sized]
        · split <;> simp [Call.Sized]
  cases hf : (klBufferAllocateShmFile (fileBytes stride physHeight) o).1 with
  | none => simpa [klBufferCreateFile, hf] using hfile
  | some fd =>
    cases hm : o.mmap with
    | none =>
      simp only [klBufferCreateFile, hf, hm]
      refine List.forall_mem_append.mpr ⟨List.forall_mem_append.mpr ⟨hfile, ?_⟩, ?_⟩
      · simp [Call.Sized]
      · simp [Call.Sized]
    | some data =>
      simp only [klBufferCreateFile, hf, hm]
      refine List.forall_mem_append.mpr ⟨List.forall_mem_append.mpr ⟨hfile, ?_⟩, ?_⟩
      · simp [Call.Sized]
      · cases hp : o.pool with
        | none => simp [klBufferCreatePool, hp, Call.Sized]
        | some pool =>
          simp only [klBufferCreatePool, hp]
          refine List.forall_mem_append.mpr ⟨by simp [Call.Sized], fun c hc => ?_⟩
          exact (klBufferCreateObjects_sized self buf width height scale onRelease userData o pool
            data _ physWidth physHeight stride c hc).1

/-- **The sizes of a creation.** -/
theorem klBufferCreate_sized :
    ∀ c ∈ (klBufferCreate shm self buf width height scale onRelease userData o).2.2,
      c.Sized (physical width scale) (physical height scale) o.stride := by
  have hbody : ∀ c ∈ (klBufferCreateBody shm self buf width height scale onRelease userData o).2.2,
      c.Sized (physical width scale) (physical height scale) o.stride := by
    by_cases h : Accepted shm width height scale o.stride
    · obtain ⟨p, rfl⟩ := Option.isSome_iff_exists.mp h.shm
      rw [klBufferCreateBody_accepted self buf width height scale onRelease userData o h]
      refine List.forall_mem_append.mpr ⟨by simp [Call.Sized], ?_⟩
      exact klBufferCreateFile_sized self buf width height scale onRelease userData o p _ _ _
    · obtain ⟨cs, hcs, he⟩ := klBufferCreateBody_refused shm self buf width height scale onRelease
        userData o h
      rw [he]
      rcases hcs with rfl | rfl <;> simp [Call.Sized]
  simp only [klBufferCreate]
  exact List.forall_mem_append.mpr ⟨hbody, by simp [Call.Sized]⟩

/-- What a successful creation has called, and what it records. -/
theorem klBufferCreate_succeed {p : Proxy}
    (h : Accepted (some p) width height scale o.stride) (hh : physical height scale ≠ 0)
    (ho : o.Succeed) :
    ∃ fd data pool wb cs ds,
      o.memfd = some fd ∧ o.mmap = some data ∧ o.pool = some pool ∧ o.wlBuffer = some wb ∧
      (klBufferCreate (some p) self buf width height scale onRelease userData o).2.1 =
        { buf with
          wlBuffer := some wb, cairoSurface := some o.cairoSurface, cr := some o.cr,
          data := .mapped data, size := fileBytes o.stride (physical height scale),
          width := width, height := height, scale := scale, stride := o.stride.toUInt32,
          busy := false, onRelease := onRelease, userData := userData } ∧
      (klBufferCreate (some p) self buf width height scale onRelease userData o).2.2 =
        cs ++ [Call.wlShmPoolCreateBuffer pool (physical width scale).toInt32
          (physical height scale).toInt32 o.stride (some wb), .wlShmPoolDestroy pool,
          .cairoImageSurfaceCreateForData data (physical width scale).toInt32
            (physical height scale).toInt32 o.stride o.cairoSurface true] ++ ds := by
  obtain ⟨fd, data, pool, wb, hfd, hdata, hpool, hwb, he⟩ := klBufferCreateFile_succeed self buf
    width height scale onRelease userData o p _ (physical width scale) (physical height scale)
    o.stride.toUInt32 ((fileBytes_ne_zero h.stride).mpr hh) ho
  simp only [klBufferCreate, klBufferCreateBody_accepted self buf width height scale onRelease
    userData o h, he, Int32.toInt32_toUInt32]
  refine ⟨fd, data, pool, wb, _ :: _ :: _ :: _ :: _ :: _ :: [_], _ :: _ :: [_], hfd, hdata, hpool,
    hwb, rfl, rfl⟩

end Sizes

/-! ## The physical size -/

/-- A wayland or cairo object has `length * scale` pixels, which are some. -/
def Spans (length : UInt32) (scale : Int32) (pixels : Int32) : Prop :=
  pixels.toInt = length.toNat * scale.toInt ∧ 0 < pixels.toInt

/-- If the creation succeeded, the `wl_buffer` and the cairo surface it made have the
physical size, which is the recorded size times the recorded scale. -/
structure PhysicalSize (width height : UInt32) (scale : Int32)
    (r : Bool × KlBuffer × List Call) : Prop where
  wlBuffer : r.1 = true → ∃ pool w h stride wb,
    .wlShmPoolCreateBuffer pool w h stride (some wb) ∈ r.2.2 ∧ r.2.1.wlBuffer = some wb ∧
      Spans width scale w ∧ Spans height scale h
  cairoSurface : r.1 = true → ∃ data w h stride cs,
    .cairoImageSurfaceCreateForData data w h stride cs true ∈ r.2.2 ∧
      r.2.1.cairoSurface = some cs ∧ Spans width scale w ∧ Spans height scale h
  recorded : r.1 = true → r.2.1.width = width ∧ r.2.1.height = height ∧ r.2.1.scale = scale

/-- What is assumed of cairo: a surface with the status of success has the size that was
asked for, so no negative one. -/
def BufferOutcomes.SurfaceSound (o : BufferOutcomes) (physWidth physHeight : UInt32) : Prop :=
  o.cairoSurfaceOk = true → 0 ≤ physWidth.toInt32.toInt ∧ 0 ≤ physHeight.toInt32.toInt

/-- Neither product wraps around, or what is left of them is refused. -/
def SizesKept (stride : Int32 → Int32) (shm : Option Proxy) (width height : UInt32)
    (scale : Int32) : Prop :=
  width.toNat * scale.toInt < 4294967296 ∧ height.toNat * scale.toInt < 4294967296 ∨
  ¬Accepted shm width height scale (stride (physical width scale).toInt32) ∨
  physical height scale = 0 ∨
  2147483648 ≤ (physical width scale).toNat ∨ 2147483648 ≤ (physical height scale).toNat

/-- A product spans the physical size exactly when it does not wrap around. -/
theorem spans_iff {length : UInt32} {scale : Int32} (hl : length ≠ 0) (hs : 0 < scale)
    (hp : (physical length scale).toNat < 2147483648) :
    Spans length scale (physical length scale).toInt32 ↔
      length.toNat * scale.toInt < 4294967296 := by
  have hmod : ((physical length scale).toNat : Int) = _ := physical_toInt hs
  have hpos : 0 < length.toNat * scale.toInt := by
    have h1 := Int32.lt_iff_toInt_lt.mp hs
    have h2 : length.toNat ≠ 0 := fun h0 => hl (UInt32.toNat_inj.mp h0)
    exact Int.mul_pos (by omega) h1
  unfold Spans
  rw [toInt_toInt32_of_lt hp]
  constructor
  · rintro ⟨he, -⟩
    omega
  · intro hlt
    rw [Int.emod_eq_of_lt (Int.le_of_lt hpos) hlt] at hmod
    exact ⟨hmod, by omega⟩

/-- No outcome that fails. -/
def BufferOutcomes.succeeding (stride : Int32) : BufferOutcomes :=
  ⟨stride, some 5, true, true, some 1, some 107, some 12, 1, true, 2, true, true⟩

theorem succeeding_succeed (stride : Int32) : (BufferOutcomes.succeeding stride).Succeed :=
  ⟨rfl, rfl, rfl, rfl, rfl, rfl, rfl, rfl, rfl⟩

section Iff

variable (shm : Option Proxy) (self : BufferRef) (buf : KlBuffer) (width height : UInt32)
  (scale : Int32) (onRelease : Option ReleaseCb) (userData : Option SurfaceRef)

/-- **A created buffer has the physical size, if and only if the sizes are kept**: for
whatever cairo calculates as a stride, and any outcome. -/
theorem physical_iff (stride : Int32 → Int32) :
    (∀ o : BufferOutcomes, o.stride = stride (physical width scale).toInt32 →
      o.SurfaceSound (physical width scale) (physical height scale) →
      PhysicalSize width height scale
        (klBufferCreate shm self buf width height scale onRelease userData o)) ↔
      SizesKept stride shm width height scale := by
  constructor
  · intro h
    by_contra hno
    unfold SizesKept at hno
    push Not at hno
    obtain ⟨hwrap, hacc, hheight, hw, hh⟩ := hno
    let o := BufferOutcomes.succeeding (stride (physical width scale).toInt32)
    have hsound : o.SurfaceSound (physical width scale) (physical height scale) := fun _ =>
      ⟨toInt_toInt32_nonneg.mpr hw, toInt_toInt32_nonneg.mpr hh⟩
    have hok : (klBufferCreate shm self buf width height scale onRelease userData o).1 = true :=
      (klBufferCreate_true_iff shm self buf width height scale onRelease userData o).mpr
        ⟨hacc, hheight, succeeding_succeed _⟩
    obtain ⟨pool, w, hgt, s, wb, hmem, -, hspanw, hspanh⟩ := (h o rfl hsound).wlBuffer hok
    obtain ⟨rfl, rfl, -⟩ := klBufferCreate_sized shm self buf width height scale onRelease userData
      o _ hmem
    have h1 := (spans_iff hacc.width hacc.scale hw).mp hspanw
    have h2 := (spans_iff hacc.height hacc.scale hh).mp hspanh
    have h3 := hwrap h1
    omega
  · intro hkept o hstride hsound
    -- only a success says anything
    have hmain : (klBufferCreate shm self buf width height scale onRelease userData o).1 = true →
        Accepted shm width height scale o.stride ∧ physical height scale ≠ 0 ∧ o.Succeed ∧
          Spans width scale (physical width scale).toInt32 ∧
          Spans height scale (physical height scale).toInt32 := by
      intro hok
      obtain ⟨hacc, hheight, ho⟩ := (klBufferCreate_true_iff shm self buf width height scale
        onRelease userData o).mp hok
      obtain ⟨hw, hh⟩ := hsound ho.cairoSurfaceOk
      rw [toInt_toInt32_nonneg] at hw hh
      refine ⟨hacc, hheight, ho, ?_⟩
      rw [spans_iff hacc.width hacc.scale hw, spans_iff hacc.height hacc.scale hh]
      rcases hkept with h | h | h | h | h
      · exact h
      · rw [hstride] at hacc
        exact absurd hacc h
      · exact absurd h hheight
      · omega
      · omega
    refine ⟨fun hok => ?_, fun hok => ?_, fun hok => ?_⟩
    all_goals
      obtain ⟨hacc, hheight, ho, hspanw, hspanh⟩ := hmain hok
      obtain ⟨p, rfl⟩ := Option.isSome_iff_exists.mp hacc.shm
      obtain ⟨fd, data, pool, wb, cs, ds, -, -, -, -, hbuf, hcs⟩ := klBufferCreate_succeed self buf
        width height scale onRelease userData o hacc hheight ho
    · refine ⟨pool, _, _, o.stride, wb, ?_, by rw [hbuf], hspanw, hspanh⟩
      rw [hcs]
      simp
    · refine ⟨data, _, _, o.stride, o.cairoSurface, ?_, by rw [hbuf], hspanw, hspanh⟩
      rw [hcs]
      simp
    · rw [hbuf]
      exact ⟨rfl, rfl, rfl⟩

end Iff

def sampleBuffer : BufferRef := ⟨40, ⟨0, by decide⟩⟩

/-- **Not for every size**: a width of `2^31 + 960` at scale 2 makes a buffer of 1920 pixels. -/
theorem physical_wrapped :
    (BufferOutcomes.succeeding 7680).SurfaceSound (physical 2147484608 2) (physical 1080 2) ∧
    (klBufferCreate (some 2) sampleBuffer .zeroed 2147484608 1080 2 none none
        (.succeeding 7680)).1 = true ∧
      ¬PhysicalSize 2147484608 1080 2
        (klBufferCreate (some 2) sampleBuffer .zeroed 2147484608 1080 2 none none
          (.succeeding 7680)) := by
  refine ⟨fun _ => by decide, by decide, fun h => ?_⟩
  obtain ⟨pool, w, hgt, s, wb, hmem, -, hspan, -⟩ := h.wlBuffer (by decide)
  obtain ⟨rfl, -, -⟩ := klBufferCreate_sized (some 2) sampleBuffer .zeroed 2147484608 1080 2 none
    none (.succeeding 7680) _ hmem
  exact absurd hspan.1 (by decide)

/-! ## The pool -/

/-- A pool that is created has a positive size, that of the file that was truncated,
sealed and mapped, and the buffer at offset 0 lies inside it. -/
structure PoolFits (fileSize : Nat) (cs : List Call) : Prop where
  pool : ∀ p fd n ret, .wlShmCreatePool p fd n ret ∈ cs → 0 < n.toInt ∧ n.toInt = (fileSize : Int) ∧
    ∃ size data, size.toNat = fileSize ∧ .ftruncate fd size true ∈ cs ∧
      .fcntlAddSeals fd true ∈ cs ∧ .mmap size fd (some data) ∈ cs
  inside : ∀ p fd n ret, .wlShmCreatePool p fd n ret ∈ cs → ∀ pool w h s wb,
    .wlShmPoolCreateBuffer pool w h s wb ∈ cs → s.toInt * h.toInt ≤ n.toInt
  rejected : 2147483648 ≤ fileSize → ∀ fd, .memfdCreate (some fd) ∉ cs

/-- The size of the file is within `int32_t`, or no file is made. -/
def PoolSizeKept (shm : Option Proxy) (width height : UInt32) (scale : Int32)
    (o : BufferOutcomes) : Prop :=
  o.stride.toUInt32.toNat * (physical height scale).toNat < 2147483648 ∨
  ¬Accepted shm width height scale o.stride ∨ o.memfd = none

section Pool

variable (self : BufferRef) (buf : KlBuffer) (width height : UInt32) (scale : Int32)
  (onRelease : Option ReleaseCb) (userData : Option SurfaceRef) (o : BufferOutcomes)

/-- A pool is created on the file that was truncated, sealed and mapped. -/
theorem klBufferCreateFile_pool {p : Proxy} {size : UInt64} {physWidth physHeight : UInt32}
    {stride : Int32} {q : Proxy} {fd : Fd} {n : Int32} {ret : Option Proxy} {cs : List Call}
    (hcs : (klBufferCreateFile p self buf width height scale onRelease userData size physWidth
      physHeight stride.toUInt32 o).2.2 = cs)
    (h : .wlShmCreatePool q fd n ret ∈ cs) :
    size ≠ 0 ∧ ∃ data, .memfdCreate (some fd) ∈ cs ∧ .ftruncate fd size true ∈ cs ∧
      .fcntlAddSeals fd true ∈ cs ∧ .mmap size fd (some data) ∈ cs := by
  have hfile : .wlShmCreatePool q fd n ret ∉ (klBufferAllocateShmFile size o).2 := fun hm =>
    absurd (List.all_eq_true.mp (klBufferAllocateShmFile_inert size o) _ hm) Bool.false_ne_true
  cases hf : (klBufferAllocateShmFile size o).1 with
  | none =>
    simp only [klBufferCreateFile, hf] at hcs
    rw [← hcs] at h
    exact absurd h hfile
  | some fd' =>
    obtain ⟨hsize, hfd, htrunc, hseals⟩ := klBufferAllocateShmFile_some o hf
    have hcalls : (klBufferAllocateShmFile size o).2 = [Call.memfdCreate (some fd'),
        .ftruncate fd' size true, .fcntlAddSeals fd' true] := by
      simp [klBufferAllocateShmFile, hsize, hfd, htrunc, hseals]
    cases hm : o.mmap with
    | none =>
      simp only [klBufferCreateFile, hf, hm] at hcs
      rw [← hcs, hcalls] at h
      simp at h
    | some data =>
      simp only [klBufferCreateFile, hf, hm] at hcs
      rw [← hcs, hcalls] at h
      have hfd' : fd = fd' := by
        rcases List.mem_append.mp h with h | h
        · simp at h
        · cases hp : o.pool with
          | none =>
            simp only [klBufferCreatePool, hp] at h
            simp at h
            exact h.2.1
          | some pool =>
            simp only [klBufferCreatePool, hp] at h
            rcases List.mem_append.mp h with h | h
            · simp at h
              exact h.2.1
            · have hno := (klBufferCreateObjects_sized self buf width height scale onRelease
                userData o pool data size physWidth physHeight stride _ h).2
              cases hno
      subst hfd'
      refine ⟨hsize, data, ?_⟩
      rw [← hcs, hcalls]
      simp

/-- Without a file there is nothing else. -/
theorem klBufferCreateFile_noMemfd (p : Proxy) (size : UInt64) (h : o.memfd = none)
    (physWidth physHeight stride : UInt32) :
    ∀ c ∈ (klBufferCreateFile p self buf width height scale onRelease userData size physWidth
      physHeight stride o).2.2, c = .memfdCreate none := by
  have hfile : (klBufferAllocateShmFile size o).1 = none := by
    unfold klBufferAllocateShmFile
    rw [h]
    split <;> rfl
  simp only [klBufferCreateFile, hfile]
  unfold klBufferAllocateShmFile
  rw [h]
  split <;> simp

/-- Once there is a size, whether there is a file is up to `memfd_create`. -/
theorem klBufferCreateFile_memfd (p : Proxy) {size : UInt64} (hsize : size ≠ 0) {fd : Fd}
    (hfd : o.memfd = some fd) (physWidth physHeight stride : UInt32) :
    .memfdCreate (some fd) ∈ (klBufferCreateFile p self buf width height scale onRelease userData
      size physWidth physHeight stride o).2.2 := by
  have hmem : .memfdCreate (some fd) ∈ (klBufferAllocateShmFile size o).2 := by
    unfold klBufferAllocateShmFile
    rw [if_neg hsize, hfd]
    dsimp only
    split
    · simp
    · split <;> simp
  cases hf : (klBufferAllocateShmFile size o).1 with
  | none => simpa only [klBufferCreateFile, hf] using hmem
  | some fd' =>
    cases hm : o.mmap with
    | none =>
      simp only [klBufferCreateFile, hf, hm]
      exact List.mem_append_left _ (List.mem_append_left _ hmem)
    | some data =>
      simp only [klBufferCreateFile, hf, hm]
      exact List.mem_append_left _ (List.mem_append_left _ hmem)

theorem pool_toInt {size : UInt64} (h0 : size ≠ 0) (h : size.toNat < 2147483648) :
    0 < size.toUInt32.toInt32.toInt ∧ size.toUInt32.toInt32.toInt = (size.toNat : Int) := by
  have hn : size.toUInt32.toNat = size.toNat := by
    rw [UInt64.toNat_toUInt32]
    exact Nat.mod_eq_of_lt (by omega)
  have hpos : size.toNat ≠ 0 := fun h1 => h0 (UInt64.toNat_inj.mp h1)
  rw [toInt_toInt32_of_lt (by omega), hn]
  omega

/-- The calls of an accepted creation. -/
theorem mem_klBufferCreate_iff {p : Proxy} (h : Accepted (some p) width height scale o.stride) :
    ∃ ret, ∀ c, c ∈ (klBufferCreate (some p) self buf width height scale onRelease userData
        o).2.2 ↔
      c = .cairoFormatStrideForWidth (physical width scale).toInt32 o.stride ∨
        c ∈ (klBufferCreateFile p self buf width height scale onRelease userData
          (fileBytes o.stride (physical height scale)) (physical width scale)
          (physical height scale) o.stride.toUInt32 o).2.2 ∨
        c = .klBufferCreate self buf.wlBuffer width height scale ret := by
  refine ⟨if (klBufferCreateBody (some p) self buf width height scale onRelease userData o).1 then
    (klBufferCreateBody (some p) self buf width height scale onRelease userData o).2.1.wlBuffer
    else none, fun c => ?_⟩
  simp only [klBufferCreate, klBufferCreateBody_accepted self buf width height scale onRelease
    userData o h, List.mem_append, List.mem_singleton, or_assoc]

/-- **The pool is the file, if and only if the size of the file is within `int32_t`** (or no
file is made). -/
theorem pool_iff (shm : Option Proxy) :
    PoolFits (o.stride.toUInt32.toNat * (physical height scale).toNat)
      (klBufferCreate shm self buf width height scale onRelease userData o).2.2 ↔
      PoolSizeKept shm width height scale o := by
  by_cases hacc : Accepted shm width height scale o.stride
  · obtain ⟨p, rfl⟩ := Option.isSome_iff_exists.mp hacc.shm
    obtain ⟨ret, hcreate⟩ := mem_klBufferCreate_iff self buf width height scale onRelease userData
      o hacc
    have hsized := klBufferCreate_sized (some p) self buf width height scale onRelease userData o
    have hbytes := fileBytes_toNat o.stride (physical height scale)
    generalize (klBufferCreate (some p) self buf width height scale onRelease userData o).2.2 = cs
      at hcreate hsized ⊢
    constructor
    · intro h
      by_contra hno
      unfold PoolSizeKept at hno
      push Not at hno
      obtain ⟨hbig, -, hmemfd⟩ := hno
      obtain ⟨fd, hfd⟩ := Option.ne_none_iff_exists'.mp hmemfd
      have hsize : fileBytes o.stride (physical height scale) ≠ 0 := by
        intro h0
        rw [h0] at hbytes
        change 0 = _ at hbytes
        omega
      refine h.rejected hbig fd ((hcreate _).mpr (Or.inr (Or.inl ?_)))
      exact klBufferCreateFile_memfd self buf width height scale onRelease userData o p hsize hfd _
        _ _
    · intro hkept
      -- a file that is made has a size within `int32_t`
      have hfits : ∀ fd, .memfdCreate (some fd) ∈ cs →
          o.stride.toUInt32.toNat * (physical height scale).toNat < 2147483648 := by
        intro fd hmem
        rcases hkept with h | h | h
        · exact h
        · exact absurd hacc h
        · rcases (hcreate _).mp hmem with h' | h' | h'
          · cases h'
          · cases klBufferCreateFile_noMemfd self buf width height scale onRelease userData o p _ h
              _ _ _ _ h'
          · cases h'
      have hpool : ∀ q fd n ret, .wlShmCreatePool q fd n ret ∈ cs → 0 < n.toInt ∧
          n.toInt = ((o.stride.toUInt32.toNat * (physical height scale).toNat : Nat) : Int) ∧
            ∃ size data, size.toNat = o.stride.toUInt32.toNat * (physical height scale).toNat ∧
              .ftruncate fd size true ∈ cs ∧ .fcntlAddSeals fd true ∈ cs ∧
              .mmap size fd (some data) ∈ cs := by
        intro q fd n ret hmem
        obtain rfl := hsized _ hmem
        rcases (hcreate _).mp hmem with h' | hfile | h'
        · cases h'
        · obtain ⟨hsize, data, hmemfd, htrunc, hseals, hmmap⟩ := klBufferCreateFile_pool self buf
            width height scale onRelease userData o rfl hfile
          have hmem' := fun c hc => (hcreate c).mpr (Or.inr (Or.inl hc))
          have hlt := hfits fd (hmem' _ hmemfd)
          rw [← hbytes] at hlt ⊢
          obtain ⟨hpos, heq⟩ := pool_toInt hsize hlt
          exact ⟨hpos, heq, _, data, rfl, hmem' _ htrunc, hmem' _ hseals, hmem' _ hmmap⟩
        · cases h'
      refine ⟨hpool, ?_, ?_⟩
      · intro q fd n ret hmem pool w h s wb hbuffer
        obtain ⟨-, heq, -⟩ := hpool q fd n ret hmem
        obtain ⟨-, rfl, rfl⟩ := hsized _ hbuffer
        have hn := n.toInt_lt
        have hs := toNat_toUInt32_of_pos hacc.stride
        have hpos := Int32.lt_iff_toInt_lt.mp hacc.stride
        have hheight : (physical height scale).toNat ≤
            o.stride.toUInt32.toNat * (physical height scale).toNat := by
          refine Nat.le_mul_of_pos_left _ ?_
          simp at hpos
          omega
        rw [heq, toInt_toInt32_of_lt (by omega), ← hs]
        push_cast
        exact le_refl _
      · intro hbig fd hmem
        have hlt := hfits fd hmem
        omega
  · obtain ⟨cs, hcs, he⟩ := klBufferCreateBody_refused shm self buf width height scale onRelease
      userData o hacc
    have hno : ∀ c ∈ (klBufferCreate shm self buf width height scale onRelease userData o).2.2,
        c.createsPool = false ∧ ∀ fd, c ≠ .memfdCreate fd := by
      intro c hc
      simp only [klBufferCreate, he, List.mem_append, List.mem_singleton] at hc
      rcases hc with hc | rfl
      · rcases hcs with rfl | rfl
        · cases hc
        · rw [List.mem_singleton.mp hc]
          exact ⟨rfl, by simp⟩
      · exact ⟨rfl, by simp⟩
    refine ⟨fun _ => Or.inr (Or.inl hacc), fun _ => ⟨?_, ?_, ?_⟩⟩
    · intro p fd n ret hmem
      exact absurd (hno _ hmem).1 (by simp [Call.createsPool])
    · intro p fd n ret hmem
      exact absurd (hno _ hmem).1 (by simp [Call.createsPool])
    · intro hbig fd hmem
      exact (hno _ hmem).2 _ rfl

end Pool

/-- **Not for every size**: at 32767 by 32767 the pool has a negative size. -/
theorem pool_negative :
    physical 32767 1 = 32767 ∧ (131068 : Int32).toInt = 4 * 32767 ∧
    .wlShmCreatePool 2 5 (-262140) (some 107) ∈
      (klBufferCreate (some 2) sampleBuffer .zeroed 32767 32767 1 none none
        (.succeeding 131068)).2.2 ∧
    ¬PoolFits ((131068 : Int32).toUInt32.toNat * (physical 32767 1).toNat)
      (klBufferCreate (some 2) sampleBuffer .zeroed 32767 32767 1 none none
        (.succeeding 131068)).2.2 := by
  refine ⟨by decide, by decide, List.mem_of_getElem? (i := 5) rfl, fun h => ?_⟩
  exact h.rejected (by decide) 5 (List.mem_of_getElem? (i := 1) rfl)

end Kirilock
