import Mathlib.Algebra.BigOperators.Group.Finset.Piecewise
import Mathlib.Data.List.GetD
import Mathlib.Tactic.Ring

/-! The slots of a block table under context parallelism: `block_table.py`, and
`get_dcp_local_seq_lens`. A block of the manager stands for as many kernel blocks on every rank as fit
into it, and its positions go round the ranks in runs of the interleave size. -/

namespace Vllm
open List

def rankOf (W I offset : Nat) : Nat := offset / I % W

def localOffset (W I offset : Nat) : Nat := offset / (W * I) * I + offset % I

/-! A position is followed through its three digits: the round `a`, the rank `s` whose turn it is, and
the place `u` in the run of that rank. -/

section
variable {W I : Nat}

theorem exists_digits (hW : 0 < W) (hI : 0 < I) (n : Nat) :
    ∃ a s u, s < W ∧ u < I ∧ n = (a * W + s) * I + u := by
  refine ⟨n / I / W, n / I % W, n % I, Nat.mod_lt _ hW, Nat.mod_lt _ hI, ?_⟩
  rw [Nat.div_add_mod', Nat.div_add_mod']

theorem mul_add_div_of_lt {n r : Nat} (hr : r < n) (a : Nat) : (a * n + r) / n = a := by
  rw [Nat.mul_comm, Nat.mul_add_div (by omega), Nat.div_eq_of_lt hr, Nat.add_zero]

theorem eq_of_mul_add_eq {n a c r s : Nat} (hr : r < n) (hs : s < n)
    (h : a * n + r = c * n + s) : a = c ∧ r = s := by
  have hac : a = c := by rw [← mul_add_div_of_lt hr a, h, mul_add_div_of_lt hs]
  subst hac
  exact ⟨rfl, Nat.add_left_cancel h⟩

section
variable {a s u : Nat} (hs : s < W) (hu : u < I)
include hs hu

theorem digits_div_div : ((a * W + s) * I + u) / I / W = a := by
  rw [mul_add_div_of_lt hu, mul_add_div_of_lt hs]

theorem rankOf_digits : rankOf W I ((a * W + s) * I + u) = s := by
  rw [rankOf, mul_add_div_of_lt hu, Nat.mul_comm, Nat.mul_add_mod, Nat.mod_eq_of_lt hs]

theorem localOffset_digits : localOffset W I ((a * W + s) * I + u) = a * I + u := by
  rw [localOffset, Nat.mul_comm W I, ← Nat.div_div_eq_div_mul, digits_div_div hs hu,
    Nat.mul_comm (_ + _) I, Nat.mul_add_mod, Nat.mod_eq_of_lt hu]

end

end

/-- The world size is the product of the two context-parallel groups' sizes, and a rank below is the
combined rank `total_cp_rank`. -/
structure BlockTable where
  blockSize : Nat
  blocksPerKvBlock : Nat
  totalCpWorldSize : Nat
  interleaveSize : Nat
deriving DecidableEq, Repr

namespace BlockTable

def new (blockSize kernelBlockSize totalCpWorldSize interleaveSize : Nat) :
    Except String BlockTable :=
  if kernelBlockSize = blockSize then .ok ⟨blockSize, 1, totalCpWorldSize, interleaveSize⟩
  else if blockSize % kernelBlockSize ≠ 0 then
    .error s!"kernel_block_size {kernelBlockSize} must divide kv_manager_block_size size {blockSize} evenly"
  else .ok ⟨kernelBlockSize, blockSize / kernelBlockSize, totalCpWorldSize, interleaveSize⟩

def mapToKernelBlocks (blocksPerKvBlock : Nat) (blockIds : List Nat) : List Nat :=
  if blocksPerKvBlock = 1 then blockIds
  else blockIds.flatMap fun id => (List.range blocksPerKvBlock).map fun j => id * blocksPerKvBlock + j

/-- The entry of `compute_slot_mapping` for one position of the request with the blocks `row`. -/
def computeSlot (t : BlockTable) (row : List Nat) (rank position : Nat) : Int :=
  if t.totalCpWorldSize > 1 then
    let virtualBlockSize := t.blockSize * t.totalCpWorldSize
    let blockNumber := row.getD (position / virtualBlockSize) 0
    let offset := position % virtualBlockSize
    if rankOf t.totalCpWorldSize t.interleaveSize offset = rank then
      ↑(blockNumber * t.blockSize + localOffset t.totalCpWorldSize t.interleaveSize offset)
    else -1
  else ↑(row.getD (position / t.blockSize) 0 * t.blockSize + position % t.blockSize)

/-- The slot for the row that `append_row` writes for the manager's blocks `ids`. -/
def slot (t : BlockTable) (ids : List Nat) (rank position : Nat) : Int :=
  t.computeSlot (mapToKernelBlocks t.blocksPerKvBlock ids) rank position

/-- What the slots of one request are for: every position of its manager blocks is kept by one rank,
in the manager block that holds it, and apart from the other positions kept there. -/
structure SlotsOk (t : BlockTable) (B W : Nat) (ids : List Nat) : Prop where
  owned : ∀ p < ids.length * (B * W), ∃! rank, rank < W ∧ t.slot ids rank p ≠ -1
  inside : ∀ p < ids.length * (B * W), ∀ rank < W, t.slot ids rank p ≠ -1 →
    ∃ k < B, t.slot ids rank p = ↑(ids.getD (p / (B * W)) 0 * B + k)
  apart : ∀ p < ids.length * (B * W), ∀ q < ids.length * (B * W), ∀ rank < W,
    t.slot ids rank p ≠ -1 → t.slot ids rank p = t.slot ids rank q → p = q

variable {b m W I : Nat}

theorem new_eq_ok {B : Nat} (hb : 0 < b) (hd : b ∣ B) (W I : Nat) :
    new B b W I = .ok ⟨b, B / b, W, I⟩ := by
  unfold new
  split_ifs with h h'
  · rw [← h, Nat.div_self hb]
  · exact absurd (Nat.mod_eq_zero_of_dvd hd) h'
  · rfl

theorem getD_mapToKernelBlocks (hm : 0 < m) (ids : List Nat) {k : Nat} (hk : k < ids.length * m) :
    (mapToKernelBlocks m ids).getD k 0 = ids.getD (k / m) 0 * m + k % m := by
  unfold mapToKernelBlocks
  split_ifs with h1
  · rw [h1, Nat.div_one, Nat.mul_one, Nat.mod_one, Nat.add_zero]
  · induction ids generalizing k with
    | nil => simp at hk
    | cons id ids ih =>
      rw [flatMap_cons]
      by_cases hkm : k < m
      · rw [getD_append _ _ _ _ (by simpa using hkm), Nat.div_eq_of_lt hkm, Nat.mod_eq_of_lt hkm]
        simp [hkm]
      · obtain ⟨j, rfl⟩ := Nat.exists_eq_add_of_le (Nat.le_of_not_lt hkm)
        have hj : j < ids.length * m := by
          rw [length_cons, Nat.succ_mul] at hk
          omega
        rw [getD_append_right _ _ _ _ (by simp), Nat.add_div_left _ hm, Nat.add_mod_left,
          getD_cons_succ]
        simpa using ih hj

section
variable (hI : 0 < I)
include hI

/-- An offset in a virtual block is found again from its rank and its offset there. -/
theorem eq_of_local (hW : 0 < W) {v w : Nat} (hr : rankOf W I v = rankOf W I w)
    (ho : localOffset W I v = localOffset W I w) : v = w := by
  obtain ⟨a, s, u, hs, hu, rfl⟩ := exists_digits hW hI v
  obtain ⟨a', s', u', hs', hu', rfl⟩ := exists_digits hW hI w
  rw [rankOf_digits hs hu, rankOf_digits hs' hu'] at hr
  rw [localOffset_digits hs hu, localOffset_digits hs' hu'] at ho
  obtain ⟨rfl, rfl⟩ := eq_of_mul_add_eq hu hu' ho
  rw [hr]

theorem localOffset_lt (hW : 0 < W) {v : Nat} (h : W = 1 ∨ I ∣ b) (hv : v < b * W) :
    localOffset W I v < b := by
  rcases h with rfl | ⟨c, rfl⟩
  · rw [Nat.mul_one] at hv
    rwa [localOffset, Nat.one_mul, Nat.mul_comm, Nat.div_add_mod]
  · obtain ⟨a, s, u, hs, hu, rfl⟩ := exists_digits hW hI v
    have hac : a < c := by
      rw [← digits_div_div (a := a) hs hu, Nat.div_div_eq_div_mul]
      apply Nat.div_lt_of_lt_mul
      calc _ < I * c * W := hv
        _ = I * W * c := by ring
    rw [localOffset_digits hs hu]
    calc a * I + u < (a + 1) * I := by
          rw [Nat.succ_mul]
          omega
      _ ≤ c * I := Nat.mul_le_mul_right I hac
      _ = I * c := Nat.mul_comm ..

/-- If the interleave size does not divide the kernel block, an offset of rank 0 is kept behind the end
of the kernel block. -/
theorem exists_localOffset_eq (hW : 1 < W) (h : ¬ I ∣ b) :
    ∃ v < b * W, rankOf W I v = 0 ∧ localOffset W I v = b := by
  have hlt := Nat.mod_lt b hI
  have hrem := Nat.mul_lt_mul_of_pos_right hW (Nat.emod_pos_of_not_dvd h)
  refine ⟨(b / I * W + 0) * I + b % I, ?_, rankOf_digits (by omega) hlt, ?_⟩
  · calc _ < (b / I * W + 0) * I + W * (b % I) := by omega
      _ = (I * (b / I) + b % I) * W := by ring
      _ = b * W := by rw [Nat.div_add_mod]
  · rw [localOffset_digits (by omega) hlt, Nat.div_add_mod']

end

/-- One formula for both branches: a single rank keeps every offset where it is. -/
theorem computeSlot_eq (row : List Nat) {rank : Nat} (hr : rank < W) (p : Nat) :
    computeSlot ⟨b, m, W, I⟩ row rank p =
      if rankOf W I (p % (b * W)) = rank then
        ↑(row.getD (p / (b * W)) 0 * b + localOffset W I (p % (b * W)))
      else -1 := by
  by_cases h : W > 1
  · exact if_pos h
  · obtain rfl : W = 1 := by omega
    have hrank : rankOf 1 I (p % (b * 1)) = rank := by
      rw [rankOf]
      omega
    rw [if_pos hrank, localOffset, Nat.mul_one, Nat.one_mul, Nat.div_add_mod']
    exact if_neg h

theorem getD_inj {ids : List Nat} (hn : ids.Nodup) {i j : Nat} (hi : i < ids.length)
    (hj : j < ids.length) (h : ids.getD i 0 = ids.getD j 0) : i = j := by
  rw [getD_eq_getElem _ _ hi, getD_eq_getElem _ _ hj] at h
  exact hn.getElem_inj_iff.mp h

section
variable {ids : List Nat} (hm : 0 < m)
include hm

theorem slot_eq {p rank : Nat} (hr : rank < W) (hp : p < ids.length * (b * m * W)) :
    slot ⟨b, m, W, I⟩ ids rank p =
      if rankOf W I (p % (b * W)) = rank then
        ↑((ids.getD (p / (b * m * W)) 0 * m + p / (b * W) % m) * b + localOffset W I (p % (b * W)))
      else -1 := by
  have hk : p / (b * W) < ids.length * m := by
    apply Nat.div_lt_of_lt_mul
    calc p < ids.length * (b * m * W) := hp
      _ = b * W * (ids.length * m) := by ring
  rw [slot, computeSlot_eq _ hr, getD_mapToKernelBlocks hm ids hk, Nat.mul_right_comm b m W,
    ← Nat.div_div_eq_div_mul _ (b * W)]

theorem slotsOk_of_offsets (hI : 0 < I) (hb : 0 < b) (hW : 0 < W) (hn : ids.Nodup)
    (h : W = 1 ∨ I ∣ b) : SlotsOk ⟨b, m, W, I⟩ (b * m) W ids := by
  have hoff (p : Nat) : localOffset W I (p % (b * W)) < b :=
    localOffset_lt hI hW h (Nat.mod_lt p (Nat.mul_pos hb hW))
  refine ⟨fun p hp => ?_, fun p hp rank hr hs => ?_, fun p hp q hq rank hr hs he => ?_⟩
  · have hlt : rankOf W I (p % (b * W)) < W := Nat.mod_lt _ hW
    refine ⟨_, ⟨hlt, ?_⟩, fun rank ⟨hr, hs⟩ => ?_⟩
    · rw [slot_eq hm hlt hp]
      omega
    · rw [slot_eq hm hr hp] at hs
      by_contra hne
      exact hs (if_neg (Ne.symm hne))
  · rw [slot_eq hm hr hp] at hs ⊢
    split_ifs at hs ⊢ with hrank
    swap
    · exact absurd rfl hs
    refine ⟨p / (b * W) % m * b + localOffset W I (p % (b * W)), ?_, ?_⟩
    · calc _ < p / (b * W) % m * b + b := Nat.add_lt_add_left (hoff p) _
        _ = (p / (b * W) % m + 1) * b := by ring
        _ ≤ m * b := Nat.mul_le_mul_right _ (Nat.mod_lt _ hm)
        _ = b * m := Nat.mul_comm ..
    · congr 1
      ring
  · rw [slot_eq hm hr hp] at hs he
    rw [slot_eq hm hr hq] at he
    split_ifs at hs he with hrp hrq
    · obtain ⟨hX, ho⟩ := eq_of_mul_add_eq (hoff p) (hoff q) (Int.ofNat_inj.mp he)
      obtain ⟨hid, hj⟩ := eq_of_mul_add_eq (Nat.mod_lt _ hm) (Nat.mod_lt _ hm) hX
      have hblock := getD_inj hn (Nat.div_lt_of_lt_mul (Nat.mul_comm .. ▸ hp))
        (Nat.div_lt_of_lt_mul (Nat.mul_comm .. ▸ hq)) hid
      rw [Nat.mul_right_comm b, ← Nat.div_div_eq_div_mul _ (b * W),
        ← Nat.div_div_eq_div_mul _ (b * W)] at hblock
      have hk : p / (b * W) = q / (b * W) := by
        rw [← Nat.div_add_mod (p / _) m, hblock, hj, Nat.div_add_mod]
      have hv := eq_of_local hI hW (hrp.trans hrq.symm) ho
      rw [← Nat.div_add_mod p (b * W), hk, hv, Nat.div_add_mod]
    · omega

/-- In the last kernel block of a manager block that offset is in the next manager block. -/
theorem not_slotsOk (hI : 0 < I) (hW : 1 < W) (hne : ids ≠ []) (h : ¬ I ∣ b) :
    ¬ SlotsOk ⟨b, m, W, I⟩ (b * m) W ids := by
  intro hok
  obtain ⟨v, hvV, hrank, hlocal⟩ := exists_localOffset_eq hI hW h
  obtain ⟨j, rfl⟩ := Nat.exists_eq_add_one.mpr hm
  have hsize : b * (j + 1) * W = b * W * (j + 1) := Nat.mul_right_comm ..
  have hend : v + b * W * j < b * W * (j + 1) := by
    rw [Nat.mul_succ]
    omega
  have hp : v + b * W * j < ids.length * (b * (j + 1) * W) :=
    hsize ▸ hend.trans_le (Nat.le_mul_of_pos_left _ (length_pos_iff.mpr hne))
  have hslot := slot_eq (I := I) hm (Nat.zero_lt_of_lt hW) hp
  rw [Nat.add_mul_mod_self_left, Nat.mod_eq_of_lt hvV, if_pos hrank,
    Nat.add_mul_div_left _ _ (by omega), Nat.div_eq_of_lt hvV, hlocal, hsize,
    Nat.div_eq_of_lt hend, Nat.zero_add, Nat.mod_eq_of_lt j.lt_succ_self] at hslot
  obtain ⟨k, hk, hin⟩ := hok.inside _ hp 0 (by omega) (by rw [hslot]; omega)
  rw [hslot, hsize, Nat.div_eq_of_lt hend] at hin
  have hnext : (ids.getD 0 0 * (j + 1) + j) * b + b =
      ids.getD 0 0 * (b * (j + 1)) + b * (j + 1) := by ring
  have hkB : b * (j + 1) = k :=
    Nat.add_left_cancel (hnext.symm.trans (Int.ofNat_inj.mp hin))
  exact (hkB ▸ hk).false

end

/-- A row keeps its positions apart and inside their manager blocks exactly if there is one rank or the
interleave size divides the kernel block. -/
theorem slots_ok_iff {B : Nat} (hB : 0 < B) (hW : 0 < W) (hb : b ∣ B) (hI : I ∣ B)
    {ids : List Nat} (hn : ids.Nodup) (hne : ids ≠ []) :
    ∃ t, new B b W I = .ok t ∧ (t.SlotsOk B W ids ↔ W = 1 ∨ I ∣ b) := by
  have hb0 : 0 < b := Nat.pos_of_dvd_of_pos hb hB
  have hI0 : 0 < I := Nat.pos_of_dvd_of_pos hI hB
  have hm : 0 < B / b := Nat.div_pos (Nat.le_of_dvd hB hb) hb0
  refine ⟨_, new_eq_ok hb0 hb W I, ?_⟩
  nth_rewrite 2 [← Nat.mul_div_cancel' hb]
  constructor
  · intro hok
    by_contra h
    obtain ⟨h1, hd⟩ := not_or.mp h
    exact not_slotsOk hm hI0 (Nat.lt_of_le_of_ne hW (Ne.symm h1)) hne hd hok
  · exact slotsOk_of_offsets hm hI0 hb0 hW hn

theorem slots_ok_iff_halves :
    ∃ t, new 4 2 2 2 = .ok t ∧ (t.SlotsOk 4 2 [5, 3] ↔ 2 = 1 ∨ 2 ∣ 2) :=
  slots_ok_iff (by decide) (by decide) (by decide) (by decide) (by decide) (by decide)

/-- Manager blocks of four, kernel blocks of two, interleave four, two ranks: on rank 0 position 6 of
block 0 gets the first slot of block 1. -/
theorem slot_leaves_block : ∃ t, new 4 2 2 4 = .ok t ∧ t.slot [0, 1] 0 6 = 4 ∧
    ¬ t.SlotsOk 4 2 [0, 1] := by
  refine ⟨⟨2, 2, 2, 4⟩, rfl, by decide, fun hok => ?_⟩
  obtain ⟨k, hk, h⟩ := hok.inside 6 (by decide) 0 (by decide) (by decide)
  have h4 : ((4 : Nat) : Int) = ↑(0 * 4 + k) := h
  omega

end BlockTable

def getDcpLocalSeqLens (seqLen dcpSize dcpRank interleaveSize : Nat) : Nat :=
  let base := seqLen / interleaveSize / dcpSize * interleaveSize
  base + min (seqLen - base * dcpSize - dcpRank * interleaveSize) interleaveSize

section
variable {W I : Nat}

theorem getDcpLocalSeqLens_digits {a s u : Nat} (hs : s < W) (hu : u < I) (r : Nat) :
    getDcpLocalSeqLens ((a * W + s) * I + u) W r I =
      a * I + if r < s then I else if r = s then u else 0 := by
  have hrest : (a * W + s) * I + u - a * I * W = s * I + u := by
    have h : (a * W + s) * I + u = a * I * W + (s * I + u) := by ring
    rw [h, Nat.add_sub_cancel_left]
  rw [getDcpLocalSeqLens, digits_div_div hs hu]
  congr 1
  rcases lt_trichotomy r s with h | rfl | h
  · have hle := Nat.mul_le_mul_right I (Nat.succ_le_of_lt h)
    rw [Nat.succ_mul] at hle
    rw [if_pos h]
    omega
  · rw [if_neg (lt_irrefl r), if_pos rfl]
    omega
  · have hle := Nat.mul_le_mul_right I (Nat.succ_le_of_lt h)
    rw [Nat.succ_mul] at hle
    rw [if_neg h.asymm, if_neg h.ne']
    omega

/-- The next position adds one to the length on its own rank, at the offset of that length. -/
theorem getDcpLocalSeqLens_succ (hI : 0 < I) {r : Nat} (hr : r < W) (n : Nat) :
    getDcpLocalSeqLens (n + 1) W r I =
      getDcpLocalSeqLens n W r I + (if rankOf W I n = r then 1 else 0) ∧
    (rankOf W I n = r → localOffset W I n = getDcpLocalSeqLens n W r I) := by
  obtain ⟨a, s, u, hs, hu, rfl⟩ := exists_digits (Nat.zero_lt_of_lt hr) hI n
  rw [rankOf_digits hs hu, localOffset_digits hs hu, getDcpLocalSeqLens_digits hs hu]
  constructor
  · rcases Nat.lt_or_ge (u + 1) I with hu' | hu'
    · rw [Nat.add_assoc, getDcpLocalSeqLens_digits hs hu']
      split_ifs <;> omega
    · obtain rfl : I = u + 1 := by omega
      rcases Nat.lt_or_ge (s + 1) W with hs' | hs'
      · have h : (a * W + s) * (u + 1) + u + 1 = (a * W + (s + 1)) * (u + 1) + 0 := by ring
        rw [h, getDcpLocalSeqLens_digits hs' hI]
        split_ifs <;> omega
      · obtain rfl : W = s + 1 := by omega
        have h : (a * (s + 1) + s) * (u + 1) + u + 1 = ((a + 1) * (s + 1) + 0) * (u + 1) + 0 := by
          ring
        rw [h, getDcpLocalSeqLens_digits s.succ_pos hI, Nat.succ_mul]
        split_ifs <;> omega
  · rintro rfl
    rw [if_neg (lt_irrefl s), if_pos rfl]

theorem getDcpLocalSeqLens_zero (r : Nat) : getDcpLocalSeqLens 0 W r I = 0 := by
  simp [getDcpLocalSeqLens]

theorem sum_getDcpLocalSeqLens (hW : 0 < W) (hI : 0 < I) (n : Nat) :
    ∑ r ∈ Finset.range W, getDcpLocalSeqLens n W r I = n := by
  induction n with
  | zero => exact Finset.sum_eq_zero fun r _ => getDcpLocalSeqLens_zero r
  | succ n ih =>
    have hlt : rankOf W I n < W := Nat.mod_lt _ hW
    have hstep : ∀ r ∈ Finset.range W, getDcpLocalSeqLens (n + 1) W r I =
        getDcpLocalSeqLens n W r I + (if rankOf W I n = r then 1 else 0) :=
      fun r hr => (getDcpLocalSeqLens_succ hI (Finset.mem_range.mp hr) n).1
    rw [Finset.sum_congr rfl hstep, Finset.sum_add_distrib, ih, Finset.sum_ite_eq,
      if_pos (Finset.mem_range.mpr hlt)]

end

namespace BlockTable
variable {b W I : Nat}

/-- With whole interleave runs in a block, rank and local offset do not depend on the virtual block. -/
theorem slot_local (hb : 0 < b) (hI : I ∣ b) (row : List Nat) {r : Nat} (hr : r < W) (p : Nat) :
    slot ⟨b, 1, W, I⟩ row r p = if rankOf W I p = r then
      ↑(row.getD (localOffset W I p / b) 0 * b + localOffset W I p % b) else -1 := by
  have hW : 0 < W := Nat.zero_lt_of_lt hr
  have hlt := localOffset_lt (Nat.pos_of_dvd_of_pos hI hb) hW (.inr hI)
    (Nat.mod_lt p (Nat.mul_pos hb hW))
  have hslot : slot ⟨b, 1, W, I⟩ row r p = computeSlot ⟨b, 1, W, I⟩ row r p := rfl
  rw [hslot, computeSlot_eq row hr]
  obtain ⟨c, rfl⟩ := hI
  have hrank : rankOf W I (p % (I * c * W)) = rankOf W I p := by
    rw [rankOf, Nat.mul_assoc, Nat.mod_mul_right_div_self,
      Nat.mod_mod_of_dvd _ (Nat.dvd_mul_left W c), rankOf]
  have hV : I * c * W = W * I * c := by ring
  have hloc : localOffset W I p =
      I * c * (p / (I * c * W)) + localOffset W I (p % (I * c * W)) := by
    have hq := Nat.div_add_mod (p / (W * I)) c
    have hmod : p % (W * I * c) % I = p % I :=
      Nat.mod_mod_of_dvd _ (Dvd.intro_left (W * c) (by ring))
    rw [localOffset, localOffset, hV, Nat.mod_mul_right_div_self, hmod,
      ← Nat.div_div_eq_div_mul _ (W * I)]
    nth_rewrite 1 [← hq]
    ring
  rw [hrank, hloc, Nat.mul_add_div hb, Nat.div_eq_of_lt hlt, Nat.mul_add_mod,
    Nat.mod_eq_of_lt hlt, Nat.add_zero]

/-- The positions of a rank fill its blocks from the first slot on, as many as the local length says,
and the local lengths share out the sequence. -/
theorem local_slots (hb : 0 < b) (hI : I ∣ b) {r : Nat} (hr : r < W) (row : List Nat) (n : Nat) :
    ∃ t, new b b W I = .ok t ∧
      ((range n).filter (t.slot row r · ≠ -1)).length = getDcpLocalSeqLens n W r I ∧
      ((range n).filter (t.slot row r · ≠ -1)).map (t.slot row r) =
        (range (getDcpLocalSeqLens n W r I)).map (fun k => ↑(row.getD (k / b) 0 * b + k % b)) ∧
      ∑ rank ∈ Finset.range W, getDcpLocalSeqLens n W rank I = n := by
  have hI0 : 0 < I := Nat.pos_of_dvd_of_pos hI hb
  refine ⟨⟨b, 1, W, I⟩, if_pos rfl, ?_⟩
  suffices h : ((range n).filter (slot ⟨b, 1, W, I⟩ row r · ≠ -1)).map (slot ⟨b, 1, W, I⟩ row r) =
      (range (getDcpLocalSeqLens n W r I)).map (fun k => ↑(row.getD (k / b) 0 * b + k % b)) by
    refine ⟨?_, h, sum_getDcpLocalSeqLens (Nat.zero_lt_of_lt hr) hI0 n⟩
    simpa only [length_map, length_range] using congrArg length h
  induction n with
  | zero => rw [getDcpLocalSeqLens_zero, range_zero, filter_nil, map_nil, map_nil]
  | succ n ih =>
    obtain ⟨hlen, hoff⟩ := getDcpLocalSeqLens_succ hI0 hr n
    have hslot := slot_local hb hI row hr n
    rw [range_succ, filter_append, map_append, ih, hlen]
    by_cases h : rankOf W I n = r
    · rw [if_pos h] at hslot
      have hkept : slot ⟨b, 1, W, I⟩ row r n ≠ -1 := by omega
      rw [if_pos h, range_succ, map_append, filter_cons_of_pos (by simpa using hkept), filter_nil,
        map_singleton, map_singleton, hslot, hoff h]
    · rw [if_neg h] at hslot
      rw [if_neg h, Nat.add_zero, filter_cons_of_neg (by simp [hslot]), filter_nil, map_nil,
        append_nil]

theorem local_slots_twoRanks : ∃ t, new 2 2 2 1 = .ok t ∧
    ((range 5).filter (t.slot [7, 4] 0 · ≠ -1)).length = 3 ∧
    ((range 5).filter (t.slot [7, 4] 0 · ≠ -1)).map (t.slot [7, 4] 0) = [14, 15, 8] := by
  obtain ⟨t, ht, hlen, hslots, -⟩ :=
    local_slots (by decide : 0 < 2) (by decide : 1 ∣ 2) (by decide : 0 < 2) [7, 4] 5
  exact ⟨t, ht, hlen, hslots⟩

end BlockTable

end Vllm
