import Vllm.Base.Strided
import Vllm.Unified.Runs

/-! The strided views of a layer's buffer: `UnifiedPool.__init__` and the copies of an expert.

The buffer is a byte map that starts its storage, which may go on behind it. A tensor is given by
its bytes in row-major order. torch's own error messages are abbreviated. -/

namespace Vllm.Unified
open Base Base.Strided List

/-! ## Tensors and views -/

/-- Types of one size are told apart by `code`. -/
structure DType where
  code : Nat
  itemSize : Nat
  size_pos : 0 < itemSize

structure WeightTensor where
  dtype : DType
  numRows : Nat
  /-- Of one expert. -/
  shape : List Nat
  /-- Of `t[0].contiguous()`. -/
  strides : List Nat
  data : Nat → UInt8
  contiguous : shape.prod = 0 ∨ Contiguous shape strides

namespace WeightTensor

def rowBytes (t : WeightTensor) : Nat := t.dtype.itemSize * t.shape.prod

def read (t : WeightTensor) (e : Nat) (idx : List Nat) : List UInt8 :=
  (List.range t.dtype.itemSize).map fun k =>
    t.data (e * t.rowBytes + flat t.shape idx * t.dtype.itemSize + k)

/-- The second dimension of `t.view(torch.int8).reshape(numExperts, -1)`. -/
def columns (t : WeightTensor) (numExperts : Nat) : Nat := t.numRows * t.rowBytes / numExperts

end WeightTensor

/-- `torch.as_strided` with the sizes `numRows` and `shape`. -/
structure StridedView where
  dtype : DType
  numRows : Nat
  shape : List Nat
  rowStride : Nat
  strides : List Nat
  storageOffset : Nat

namespace StridedView

def address (v : StridedView) (s : Nat) (idx : List Nat) : Nat :=
  (v.storageOffset + (s * v.rowStride + dot idx v.strides)) * v.dtype.itemSize

def read (v : StridedView) (buf : Nat → UInt8) (s : Nat) (idx : List Nat) : List UInt8 :=
  (List.range v.dtype.itemSize).map fun k => buf (v.address s idx + k)

def fits (v : StridedView) (storageBytes : Nat) : Bool :=
  decide (v.numRows * v.shape.prod = 0 ∨
    v.address (v.numRows - 1) (v.shape.map (· - 1)) + v.dtype.itemSize ≤ storageBytes)

def lastStride (v : StridedView) : Nat := (v.rowStride :: v.strides).getLast (by simp)

def Covers (v : StridedView) (s o : Nat) : Prop :=
  ∃ idx, InRange idx v.shape ∧ v.address s idx ≤ o ∧ o < v.address s idx + v.dtype.itemSize

structure ShowsRow (v : StridedView) (buf : Nat → UInt8) (s : Nat) (t : WeightTensor) (e : Nat) :
    Prop where
  dtype : v.dtype = t.dtype
  shape : v.shape = t.shape
  elements : ∀ idx, InRange idx t.shape → v.read buf s idx = t.read e idx

end StridedView

/-! ## The constructor -/

/-- The arguments of `UnifiedPool.__init__`, and how far the storage of the buffer goes. -/
structure PoolArgs where
  numExperts : Nat
  cpuW13 : WeightTensor
  cpuW2 : WeightTensor
  bufferBytes : Nat
  storageBytes : Nat
  pageSizeBytes : Nat
  expertSlotBytes : Nat
  w13Bytes : Nat
  w2Bytes : Nat
  buffer_le : bufferBytes ≤ storageBytes

structure PoolViews where
  pagesPerSuperBlock : Nat
  numGpuBlocks : Nat
  numSuperBlocks : Nat
  poolW13View : StridedView
  poolW2View : StridedView

def require (c : Bool) (err : PyError) : Except PyError Unit := if c then .ok () else .error err

theorem require_bind_eq_ok {α : Type} {c : Bool} {err : PyError} {f : Unit → Except PyError α}
    {a : α} : (require c err >>= f) = .ok a ↔ c = true ∧ f () = .ok a := by
  cases c
  · exact ⟨fun h => (nomatch h), fun h => (nomatch h.1)⟩
  · exact ⟨fun h => ⟨rfl, h⟩, fun h => h.2⟩

namespace PoolArgs

def views (a : PoolArgs) : PoolViews :=
  let elemSize := a.cpuW13.dtype.itemSize
  let pagesPerSuperBlock := a.expertSlotBytes / a.pageSizeBytes
  let pageSizeElems := a.pageSizeBytes / elemSize
  let superBlockStrideElems := a.expertSlotBytes / elemSize
  let numGpuBlocks := a.bufferBytes / elemSize / pageSizeElems
  let numSuperBlocks := numGpuBlocks / pagesPerSuperBlock
  { pagesPerSuperBlock, numGpuBlocks, numSuperBlocks
    poolW13View := ⟨a.cpuW13.dtype, numSuperBlocks, a.cpuW13.shape, superBlockStrideElems,
      a.cpuW13.strides, 0⟩
    poolW2View := ⟨a.cpuW13.dtype, numSuperBlocks, a.cpuW2.shape, superBlockStrideElems,
      a.cpuW2.strides, a.w13Bytes / elemSize⟩ }

def init (a : PoolArgs) : Except PyError PoolViews := do
  let elemSize := a.cpuW13.dtype.itemSize
  require (decide (a.expertSlotBytes = a.w13Bytes + a.w2Bytes)) (.assertionError
    (s!"expert_slot_bytes ({a.expertSlotBytes}) must equal "
      ++ s!"w13_bytes + w2_bytes ({a.w13Bytes + a.w2Bytes})"))
  require (decide (a.pageSizeBytes ≠ 0)) (.runtimeError "integer modulo by zero")
  require (decide (a.expertSlotBytes % a.pageSizeBytes = 0)) (.assertionError
    (s!"expert_slot_bytes ({a.expertSlotBytes}) must be a multiple "
      ++ s!"of page_size_bytes ({a.pageSizeBytes})"))
  require (decide (a.pageSizeBytes % elemSize = 0)) (.assertionError
    (s!"page_size_bytes ({a.pageSizeBytes}) must be a multiple of "
      ++ s!"element size ({elemSize})"))
  require (decide (a.expertSlotBytes % elemSize = 0)) (.assertionError "")
  require (decide (a.w13Bytes % elemSize = 0)) (.assertionError "")
  require (decide (a.w2Bytes % elemSize = 0)) (.assertionError "")
  -- `reshape(num_experts, -1)` of the bytes of both tensors
  require (decide (a.numExperts ≠ 0 ∧ a.cpuW13.numRows * a.cpuW13.rowBytes % a.numExperts = 0))
    (.runtimeError "shape is invalid for input")
  require (decide (a.cpuW2.numRows * a.cpuW2.rowBytes % a.numExperts = 0))
    (.runtimeError "shape is invalid for input")
  require (decide (a.bufferBytes % elemSize = 0)) (.runtimeError "size must be divisible")
  require (decide (a.views.pagesPerSuperBlock ≠ 0)) (.runtimeError "integer division by zero")
  require (decide (a.cpuW13.numRows ≠ 0)) .indexError
  require (a.views.poolW13View.fits a.storageBytes) (.runtimeError "out of bounds for storage")
  require (decide (a.cpuW2.numRows ≠ 0)) .indexError
  require (a.views.poolW2View.fits a.storageBytes) (.runtimeError "out of bounds for storage")
  require (decide (a.views.poolW13View.lastStride = 1)) (.assertionError "")
  require (decide (a.views.poolW2View.lastStride = 1)) (.assertionError "")
  return a.views

/-! ## The copies of an expert -/

/-- `dst.copy_(src)` over `size` bytes at `start`; a single byte is broadcast. -/
def copyBytes (start size srcSize : Nat) (src : Nat → UInt8) (buf : Nat → UInt8) : Nat → UInt8 :=
  fun o => if start ≤ o ∧ o < start + size then src (if srcSize = 1 then 0 else o - start) else buf o

def dmaExpertIntoSuperBlock (a : PoolArgs) (e s : Nat) (buf : Nat → UInt8) :
    Except PyError (Nat → UInt8) := do
  let sbOffset := s * a.expertSlotBytes
  require (decide (sbOffset + a.w13Bytes ≤ a.bufferBytes)) (.runtimeError "narrow")
  require (decide (sbOffset + a.w13Bytes + a.w2Bytes ≤ a.bufferBytes)) (.runtimeError "narrow")
  require (decide (e < a.numExperts)) .indexError
  let w13Columns := a.cpuW13.columns a.numExperts
  let w2Columns := a.cpuW2.columns a.numExperts
  require (decide (w13Columns = a.w13Bytes ∨ w13Columns = 1)) (.runtimeError "size mismatch")
  require (decide (w2Columns = a.w2Bytes ∨ w2Columns = 1)) (.runtimeError "size mismatch")
  let buf := copyBytes sbOffset a.w13Bytes w13Columns
    (fun i => a.cpuW13.data (e * w13Columns + i)) buf
  return copyBytes (sbOffset + a.w13Bytes) a.w2Bytes w2Columns
    (fun i => a.cpuW2.data (e * w2Columns + i)) buf

/-! ## Sizes -/

structure Accepted (a : PoolArgs) : Prop where
  slot_eq : a.expertSlotBytes = a.w13Bytes + a.w2Bytes
  page_pos : 0 < a.pageSizeBytes
  page_dvd : a.pageSizeBytes ∣ a.expertSlotBytes
  item_dvd_page : a.cpuW13.dtype.itemSize ∣ a.pageSizeBytes
  item_dvd_slot : a.cpuW13.dtype.itemSize ∣ a.expertSlotBytes
  item_dvd_w13 : a.cpuW13.dtype.itemSize ∣ a.w13Bytes
  experts_pos : a.numExperts ≠ 0

theorem accepted_of_init {a : PoolArgs} {v : PoolViews} (h : a.init = .ok v) :
    v = a.views ∧ a.Accepted := by
  unfold init at h
  simp only [require_bind_eq_ok, decide_eq_true_eq] at h
  obtain ⟨hslot, hpage, hdvd, hitem, hitemSlot, hitemW13, -, ⟨hexperts, -⟩, -, -, -, -, -, -, -, -, -,
    hv⟩ := h
  cases hv
  exact ⟨rfl, hslot, Nat.pos_of_ne_zero hpage, Nat.dvd_of_mod_eq_zero hdvd,
    Nat.dvd_of_mod_eq_zero hitem, Nat.dvd_of_mod_eq_zero hitemSlot,
    Nat.dvd_of_mod_eq_zero hitemW13, hexperts⟩

structure Sized (a : PoolArgs) : Prop where
  w13Rows : a.cpuW13.numRows = a.numExperts
  w2Rows : a.cpuW2.numRows = a.numExperts
  w13 : a.w13Bytes = a.cpuW13.rowBytes
  w2 : a.w2Bytes = a.cpuW2.rowBytes
  dtype : a.cpuW2.dtype = a.cpuW13.dtype

end PoolArgs

theorem WeightTensor.dot_eq (t : WeightTensor) {idx : List Nat} (h : InRange idx t.shape) :
    dot idx t.strides = flat t.shape idx := by
  have hpos := flat_lt h
  exact (t.contiguous.resolve_left (by omega)).dot_eq h

theorem WeightTensor.byte_lt (t : WeightTensor) {idx : List Nat} (h : InRange idx t.shape) {k : Nat}
    (hk : k < t.dtype.itemSize) : flat t.shape idx * t.dtype.itemSize + k < t.rowBytes := by
  calc flat t.shape idx * t.dtype.itemSize + k
      < flat t.shape idx * t.dtype.itemSize + t.dtype.itemSize := Nat.add_lt_add_left hk _
    _ = (flat t.shape idx + 1) * t.dtype.itemSize := (Nat.succ_mul _ _).symm
    _ ≤ t.shape.prod * t.dtype.itemSize := Nat.mul_le_mul_right _ (flat_lt h)
    _ = t.rowBytes := Nat.mul_comm _ _

namespace PoolArgs
variable {a : PoolArgs} {s e o : Nat} {idx : List Nat} {buf : Nat → UInt8}

section
variable (h : a.Accepted)
include h

theorem Accepted.address_w13 (hidx : InRange idx a.cpuW13.shape) :
    a.views.poolW13View.address s idx =
      s * a.expertSlotBytes + flat a.cpuW13.shape idx * a.cpuW13.dtype.itemSize := by
  have hslot := Nat.div_mul_cancel h.item_dvd_slot
  change (0 + (s * (a.expertSlotBytes / a.cpuW13.dtype.itemSize) + dot idx a.cpuW13.strides)) *
    a.cpuW13.dtype.itemSize = _
  rw [a.cpuW13.dot_eq hidx, Nat.zero_add, Nat.add_mul, Nat.mul_assoc, hslot]

theorem Accepted.address_w2 (hidx : InRange idx a.cpuW2.shape) :
    a.views.poolW2View.address s idx = s * a.expertSlotBytes + a.w13Bytes +
      flat a.cpuW2.shape idx * a.cpuW13.dtype.itemSize := by
  have hslot := Nat.div_mul_cancel h.item_dvd_slot
  have hw13 := Nat.div_mul_cancel h.item_dvd_w13
  change (a.w13Bytes / a.cpuW13.dtype.itemSize +
    (s * (a.expertSlotBytes / a.cpuW13.dtype.itemSize) + dot idx a.cpuW2.strides)) *
    a.cpuW13.dtype.itemSize = _
  rw [a.cpuW2.dot_eq hidx, Nat.add_mul, Nat.add_mul, hw13, Nat.mul_assoc, hslot]
  omega

theorem Accepted.slot_eq_pages : a.views.pagesPerSuperBlock * a.pageSizeBytes = a.expertSlotBytes :=
  Nat.div_mul_cancel h.page_dvd

theorem Accepted.slot_le (hs : s < a.views.numSuperBlocks) :
    (s + 1) * a.expertSlotBytes ≤ a.bufferBytes := by
  have hblocks : a.views.numGpuBlocks = a.bufferBytes / a.pageSizeBytes := by
    change a.bufferBytes / a.cpuW13.dtype.itemSize /
      (a.pageSizeBytes / a.cpuW13.dtype.itemSize) = _
    rw [Nat.div_div_eq_div_mul, Nat.mul_div_cancel' h.item_dvd_page]
  have hpages : (s + 1) * a.views.pagesPerSuperBlock ≤ a.views.numGpuBlocks :=
    (Nat.mul_le_mul_right _ hs).trans (Nat.div_mul_le_self _ _)
  calc (s + 1) * a.expertSlotBytes
      = (s + 1) * a.views.pagesPerSuperBlock * a.pageSizeBytes := by
        rw [Nat.mul_assoc, h.slot_eq_pages]
    _ ≤ a.bufferBytes / a.pageSizeBytes * a.pageSizeBytes :=
        Nat.mul_le_mul_right _ (hblocks ▸ hpages)
    _ ≤ a.bufferBytes := Nat.div_mul_le_self _ _

theorem covers_w13 (hz : a.Sized) (ho : a.views.poolW13View.Covers s o) :
    s * a.expertSlotBytes ≤ o ∧ o < s * a.expertSlotBytes + a.w13Bytes := by
  obtain ⟨idx, hidx, hle, hlt⟩ := ho
  rw [h.address_w13 hidx] at hle hlt
  have hbyte := a.cpuW13.byte_lt hidx (k := a.cpuW13.dtype.itemSize - 1)
    (by have := a.cpuW13.dtype.size_pos; omega)
  rw [← hz.w13] at hbyte
  change o < _ + a.cpuW13.dtype.itemSize at hlt
  omega

theorem covers_w2 (hz : a.Sized) (ho : a.views.poolW2View.Covers s o) :
    s * a.expertSlotBytes + a.w13Bytes ≤ o ∧ o < (s + 1) * a.expertSlotBytes := by
  obtain ⟨idx, hidx, hle, hlt⟩ := ho
  rw [h.address_w2 hidx] at hle hlt
  have hbyte := a.cpuW2.byte_lt hidx (k := a.cpuW2.dtype.itemSize - 1)
    (by have := a.cpuW2.dtype.size_pos; omega)
  rw [← hz.w2, hz.dtype] at hbyte
  change o < _ + a.cpuW13.dtype.itemSize at hlt
  have hslot := h.slot_eq
  rw [Nat.succ_mul]
  omega

/-! ## Reading back -/

theorem Accepted.shows_w13 (hz : a.Sized)
    (hbytes : ∀ i < a.w13Bytes, buf (s * a.expertSlotBytes + i) =
      a.cpuW13.data (e * a.cpuW13.rowBytes + i)) :
    a.views.poolW13View.ShowsRow buf s a.cpuW13 e := by
  refine ⟨rfl, rfl, fun idx hidx => map_congr_left fun k hk => ?_⟩
  have hlt := a.cpuW13.byte_lt hidx (mem_range.mp hk)
  rw [h.address_w13 hidx, Nat.add_assoc, hbytes _ (hz.w13 ▸ hlt), Nat.add_assoc]

theorem Accepted.shows_w2 (hz : a.Sized)
    (hbytes : ∀ i < a.w2Bytes, buf (s * a.expertSlotBytes + a.w13Bytes + i) =
      a.cpuW2.data (e * a.cpuW2.rowBytes + i)) :
    a.views.poolW2View.ShowsRow buf s a.cpuW2 e := by
  refine ⟨hz.dtype.symm, rfl, fun idx hidx => ?_⟩
  unfold StridedView.read WeightTensor.read
  rw [hz.dtype]
  refine map_congr_left fun k hk => ?_
  have hk' : k < a.cpuW2.dtype.itemSize := hz.dtype ▸ mem_range.mp hk
  have hlt := a.cpuW2.byte_lt hidx hk'
  rw [hz.dtype] at hlt
  rw [h.address_w2 hidx, Nat.add_assoc, hbytes _ (hz.w2 ▸ hlt), Nat.add_assoc]

end

theorem copyBytes_apply {start size : Nat} {src : Nat → UInt8} :
    copyBytes start size size src buf o =
      if start ≤ o ∧ o < start + size then src (o - start) else buf o := by
  unfold copyBytes
  by_cases ho : start ≤ o ∧ o < start + size
  · rw [if_pos ho, if_pos ho]
    congr 1
    split <;> omega
  · rw [if_neg ho, if_neg ho]

theorem columns_eq {t : WeightTensor} {n : Nat} (hn : n ≠ 0) (ht : t.numRows = n) :
    t.columns n = t.rowBytes := by
  rw [WeightTensor.columns, ht, Nat.mul_div_cancel_left _ (Nat.pos_of_ne_zero hn)]

def loaded (a : PoolArgs) (e s : Nat) (buf : Nat → UInt8) : Nat → UInt8 :=
  copyBytes (s * a.expertSlotBytes + a.w13Bytes) a.w2Bytes a.w2Bytes
    (fun i => a.cpuW2.data (e * a.cpuW2.rowBytes + i))
    (copyBytes (s * a.expertSlotBytes) a.w13Bytes a.w13Bytes
      (fun i => a.cpuW13.data (e * a.cpuW13.rowBytes + i)) buf)

theorem Accepted.dma_eq (h : a.Accepted) (hz : a.Sized) (he : e < a.numExperts)
    (hs : s < a.views.numSuperBlocks) :
    a.dmaExpertIntoSuperBlock e s buf = .ok (a.loaded e s buf) := by
  have hle := h.slot_le hs
  have hslot := h.slot_eq
  rw [Nat.succ_mul] at hle
  have hw13 := columns_eq h.experts_pos hz.w13Rows
  have hw2 := columns_eq h.experts_pos hz.w2Rows
  unfold dmaExpertIntoSuperBlock
  simp only [require_bind_eq_ok, decide_eq_true_eq]
  refine ⟨by omega, by omega, he, .inl (by rw [hw13, hz.w13]), .inl (by rw [hw2, hz.w2]), ?_⟩
  rw [hw13, hw2, loaded, ← hz.w13, ← hz.w2]
  rfl

theorem loaded_w13 {i : Nat} (hi : i < a.w13Bytes) :
    a.loaded e s buf (s * a.expertSlotBytes + i) = a.cpuW13.data (e * a.cpuW13.rowBytes + i) := by
  rw [loaded, copyBytes_apply, if_neg (by omega), copyBytes_apply, if_pos (by omega),
    Nat.add_sub_cancel_left]

theorem loaded_w2 {i : Nat} (hi : i < a.w2Bytes) :
    a.loaded e s buf (s * a.expertSlotBytes + a.w13Bytes + i) =
      a.cpuW2.data (e * a.cpuW2.rowBytes + i) := by
  rw [loaded, copyBytes_apply, if_pos (by omega), Nat.add_sub_cancel_left]

theorem loaded_outside (hslot : a.expertSlotBytes = a.w13Bytes + a.w2Bytes)
    (ho : o < s * a.expertSlotBytes ∨ (s + 1) * a.expertSlotBytes ≤ o) :
    a.loaded e s buf o = buf o := by
  rw [Nat.succ_mul] at ho
  rw [loaded, copyBytes_apply, if_neg (by omega), copyBytes_apply, if_neg (by omega)]

end PoolArgs

/-- An expert that is copied into a super-block can be read back through the views, the copies stay
in the super-block, and the rows of the views lie in the buffer, apart from each other. -/
structure RoundTrips (a : PoolArgs) (v : PoolViews) : Prop where
  dma : ∀ e < a.numExperts, ∀ s < v.numSuperBlocks, ∀ buf, ∃ buf',
    a.dmaExpertIntoSuperBlock e s buf = .ok buf' ∧
      v.poolW13View.ShowsRow buf' s a.cpuW13 e ∧ v.poolW2View.ShowsRow buf' s a.cpuW2 e ∧
      ∀ o, buf' o ≠ buf o → s * v.pagesPerSuperBlock ≤ o / a.pageSizeBytes ∧
        o / a.pageSizeBytes < (s + 1) * v.pagesPerSuperBlock
  inBuffer : ∀ s < v.numSuperBlocks, ∀ o,
    v.poolW13View.Covers s o ∨ v.poolW2View.Covers s o → o < a.bufferBytes
  disjoint : ∀ s < v.numSuperBlocks, ∀ s' < v.numSuperBlocks, s ≠ s' → ∀ o,
    v.poolW13View.Covers s o ∨ v.poolW2View.Covers s o →
      ¬ (v.poolW13View.Covers s' o ∨ v.poolW2View.Covers s' o)

theorem roundTrips_of_init {a : PoolArgs} {v : PoolViews} (hinit : a.init = .ok v) (hz : a.Sized) :
    RoundTrips a v := by
  obtain ⟨rfl, h⟩ := PoolArgs.accepted_of_init hinit
  have hpages := h.slot_eq_pages
  -- both views stay in the super-block of the row
  have hcovers : ∀ s o, a.views.poolW13View.Covers s o ∨ a.views.poolW2View.Covers s o →
      s * a.expertSlotBytes ≤ o ∧ o < (s + 1) * a.expertSlotBytes := fun s o ho => by
    have hslot := h.slot_eq
    rw [Nat.succ_mul]
    rcases ho with ho | ho
    · have := PoolArgs.covers_w13 h hz ho
      omega
    · have := PoolArgs.covers_w2 h hz ho
      rw [Nat.succ_mul] at this
      omega
  refine ⟨fun e he s hs buf => ⟨_, h.dma_eq hz he hs, h.shows_w13 hz fun i => PoolArgs.loaded_w13,
    h.shows_w2 hz fun i => PoolArgs.loaded_w2, fun o ho => ?_⟩, fun s hs o ho => ?_,
    fun s _ s' _ hne o ho ho' => ?_⟩
  · have hin : s * a.expertSlotBytes ≤ o ∧ o < (s + 1) * a.expertSlotBytes := by
      by_contra hc
      exact ho (PoolArgs.loaded_outside h.slot_eq (by omega))
    rw [← hpages, ← Nat.mul_assoc, ← Nat.mul_assoc] at hin
    exact ⟨(Nat.le_div_iff_mul_le h.page_pos).mpr hin.1, (Nat.div_lt_iff_lt_mul h.page_pos).mpr hin.2⟩
  · exact (hcovers s o ho).2.trans_le (h.slot_le hs)
  · have hs := hcovers s o ho
    have hs' := hcovers s' o ho'
    rcases Nat.lt_or_gt_of_ne hne with hlt | hlt
    · have hle : (s + 1) * a.expertSlotBytes ≤ s' * a.expertSlotBytes := Nat.mul_le_mul_right _ hlt
      omega
    · have hle : (s' + 1) * a.expertSlotBytes ≤ s * a.expertSlotBytes := Nat.mul_le_mul_right _ hlt
      omega

/-- Two experts: two halves of two bytes each, then `n` items of the given type. Seven pages of four
bytes make three super-blocks and a tail. -/
def tailBuffer (w2Type : DType) (n : Nat) : PoolArgs where
  numExperts := 2
  cpuW13 := ⟨⟨0, 2, Nat.two_pos⟩, 2, [2], [1], fun i => UInt8.ofNat i, .inr (.cons (fun _ => rfl) .nil)⟩
  cpuW2 := ⟨w2Type, 2, [n], [1], fun i => UInt8.ofNat (100 + i), .inr (.cons (fun _ => rfl) .nil)⟩
  bufferBytes := 28
  storageBytes := 28
  pageSizeBytes := 4
  expertSlotBytes := 8
  w13Bytes := 4
  w2Bytes := 4
  buffer_le := le_rfl

def halves : PoolArgs := tailBuffer ⟨0, 2, Nat.two_pos⟩ 2

theorem roundTrips_of_init_halves :
    halves.init = .ok halves.views ∧ halves.views.numSuperBlocks = 3 ∧
      RoundTrips halves halves.views :=
  ⟨rfl, rfl, roundTrips_of_init rfl ⟨rfl, rfl, rfl, rfl, rfl⟩⟩

def halvesThenBytes : PoolArgs := tailBuffer ⟨1, 1, Nat.one_pos⟩ 4

/-- The element type of the second tensor is not checked. Its view has items twice as wide, and its
row 1 ends in super-block 2. -/
theorem w2_view_leaves_super_block :
    halvesThenBytes.init = .ok halvesThenBytes.views ∧
      halvesThenBytes.views.poolW2View.Covers 1 16 ∧ halvesThenBytes.views.poolW13View.Covers 2 16 ∧
      ¬ RoundTrips halvesThenBytes halvesThenBytes.views := by
  have hw2 : halvesThenBytes.views.poolW2View.Covers 1 16 :=
    ⟨[2], .cons (by decide) .nil, by decide, by decide⟩
  have hw13 : halvesThenBytes.views.poolW13View.Covers 2 16 :=
    ⟨[0], .cons (by decide) .nil, by decide, by decide⟩
  refine ⟨rfl, hw2, hw13, fun h => ?_⟩
  exact h.disjoint 1 (by decide) 2 (by decide) (by decide) 16 (.inr hw2) (.inl hw13)

/-! ## The views of a running pool -/

/-- Layer `l` of the pool has the weights and sizes of the arguments. -/
structure Describes (cfg : PoolConfig) (l : Nat) (a : PoolArgs) : Prop where
  slot : cfg.expertSlotBytes = a.expertSlotBytes
  w13 : cfg.w13Bytes l = a.w13Bytes
  cpuW13 : ∀ e, ∀ i < a.w13Bytes, cfg.cpuW13 l e i = a.cpuW13.data (e * a.cpuW13.rowBytes + i)
  cpuW2 : ∀ e, ∀ i < a.w2Bytes, cfg.cpuW2 l e i = a.cpuW2.data (e * a.cpuW2.rowBytes + i)

variable {K : Type} [DecidableEq K] {cfg : PoolConfig} {st₀ st : UnifiedState K}

/-- The views show the tensors of an expert at its super-block, in every run in which warm-up returns
and no cached page is reset. -/
theorem views_of_run (h₀ : Started cfg st₀)
    (run : Run (Op.next cfg) (fun op st => op.Promised cfg st ∧ op.ResetsNothing cfg st ∧
      ((∃ n, op = .warmUp n) → (op.exec cfg st).1 = .ok ())) st₀ st)
    {l : Nat} (hl : l ∈ cfg.layerIds) {a : PoolArgs} (hd : Describes cfg l a) (hz : a.Sized)
    {v : PoolViews} (hinit : a.init = .ok v) {e s : Nat}
    (he : (st.2.layer l).superBlockAtExpert.get? e = some s) :
    v.poolW13View.ShowsRow (st.2.poolBuffer l) s a.cpuW13 e ∧
      v.poolW2View.ShowsRow (st.2.poolBuffer l) s a.cpuW2 e := by
  have hsound : Sound cfg ⟨st₀.1.enableCaching, False, True⟩ (fun _ _ => False) (fun _ => True) st := by
    refine run.inv h₀.sound fun op st h hop => ?_
    obtain ⟨hp, hr, hwarm⟩ := hop
    have hspec := (op.exec_sound fun _ => id) st ⟨h, hp, fun _ => hr⟩
    rw [Op.next]
    rcases hrun : op.exec cfg st with ⟨_ | _, st'⟩ <;> rw [hrun] at hspec hwarm
    · refine (hspec.mono fun _ _ hx => ?_).mono_out fun _ _ => trivial
      cases hwarm (hx.resolve_left id)
    · exact hspec
  obtain ⟨rfl, h⟩ := PoolArgs.accepted_of_init hinit
  have hslot := h.slot_eq
  have hbytes := (hsound.contents trivial).experts l hl e s he
  simp only [hd.slot, expertByte, hd.w13] at hbytes
  constructor
  · refine h.shows_w13 hz fun i hi => ?_
    rw [hbytes i (by omega), if_pos hi, hd.cpuW13 e i hi]
  · refine h.shows_w2 hz fun i hi => ?_
    rw [Nat.add_assoc, hbytes (a.w13Bytes + i) (by omega), if_neg (by omega),
      Nat.add_sub_cancel_left, hd.cpuW2 e i hi]

def oneLayerArgs : PoolArgs where
  numExperts := 2
  cpuW13 := ⟨⟨0, 1, Nat.one_pos⟩, 2, [1], [1], fun i => if i = 0 then 10 else 11,
    .inr (.cons (fun _ => rfl) .nil)⟩
  cpuW2 := ⟨⟨0, 1, Nat.one_pos⟩, 2, [0], [1], fun _ => 0, .inl rfl⟩
  bufferBytes := 3
  storageBytes := 3
  pageSizeBytes := 1
  expertSlotBytes := 1
  w13Bytes := 1
  w2Bytes := 0
  buffer_le := le_rfl

theorem views_of_run_oneLayer :
    oneLayerArgs.views.poolW13View.ShowsRow ((oneLayerRun [.warmUp 1]).2.poolBuffer 0) 1
      oneLayerArgs.cpuW13 0 := by
  have hd : Describes oneLayer 0 oneLayerArgs := by
    refine ⟨rfl, rfl, fun e i hi => ?_, fun _ _ _ => rfl⟩
    obtain rfl := Nat.lt_one_iff.mp hi
    simp [oneLayer, oneLayerArgs, WeightTensor.rowBytes]
  refine (views_of_run started_oneLayerStart (.of_allowed ?_) (by decide) hd
    ⟨rfl, rfl, rfl, rfl, rfl⟩ rfl (by decide)).1
  exact ⟨⟨trivial, fun b _ _ => Int.lt_irrefl 0, fun _ => rfl⟩, trivial⟩

end Vllm.Unified
