import Vllm.Core.HybridHit
import Vllm.Core.KVCacheManager

/-! What a sliding-window lookup returns: the longest aligned prefix whose window is cached, with the
cached blocks of the window and null blocks before it. And what a chunked-local lookup returns: null
blocks before the chunk of the length asked for, and the cached blocks from there on. -/

namespace Vllm
open Base List KVCacheSpec

structure WindowRows (lookup : Nat → Option Row) (width c : Nat) (rows : List Row) : Prop where
  window : ∀ i < rows.length, rows.length - c ≤ i → rows[i]? = lookup i
  before : ∀ i < rows.length - c, rows[i]? = some (List.replicate width 0)

section
variable {lookup : Nat → Option Row} {width c blockSize alignment N i num : Nat}
  {computed : List Row}

/-- The rows between two turns of the scan: the run of `num` blocks from `i` on is filled in, and
nothing below it. What an abandoned run left above is cut off at the end. -/
structure SlidingRows (lookup : Nat → Option Row) (width N i num : Nat) (computed : List Row) :
    Prop where
  length : computed.length = N
  run : ∀ j, i ≤ j → j < i + num → computed[j]? = lookup j
  nulls : ∀ j < i, computed[j]? = some (List.replicate width 0)

theorem SlidingRows.start (lookup : Nat → Option Row) (width N : Nat) :
    SlidingRows lookup width N N 0 (List.replicate N (List.replicate width 0)) := by
  refine ⟨length_replicate, fun j h1 h2 => by omega, fun j hj => ?_⟩
  rw [getElem?_replicate, if_pos hj]

section
variable (h : SlidingRows lookup width N (i + 1) num computed)
include h

theorem SlidingRows.restart : SlidingRows lookup width N i 0 computed :=
  ⟨h.length, fun j h1 h2 => by omega, fun j hj => h.nulls j (by omega)⟩

theorem SlidingRows.hit {row : Row} (hi : lookup i = some row) (hN : i < N) :
    SlidingRows lookup width N i (num + 1) (computed.set i row) := by
  have hlen := h.length
  refine ⟨by rw [length_set, hlen], fun j h1 h2 => ?_, fun j hj => ?_⟩
  · by_cases hj : j = i
    · subst hj
      rw [getElem?_set_self (by omega), hi]
    · rw [getElem?_set_ne (Ne.symm hj)]
      exact h.run j (by omega) (by omega)
  · rw [getElem?_set_ne (by omega)]
    exact h.nulls j (by omega)

end

theorem SlidingRows.windowRows (h : SlidingRows lookup width N i num computed) (hN : i + num ≤ N)
    (hend : num = c ∨ i = 0 ∧ num ≤ c) : WindowRows lookup width c (computed.take (i + num)) := by
  have hlen : (computed.take (i + num)).length = i + num := by
    rw [length_take, h.length]
    omega
  refine ⟨fun j hj hw => ?_, fun j hj => ?_⟩ <;> rw [hlen] at hj
  · rw [hlen] at hw
    rw [getElem?_take_of_lt hj]
    exact h.run j (by omega) hj
  · rw [getElem?_take_of_lt (by omega)]
    exact h.nulls j (by omega)

theorem scanned_windowRows (h : SlidingAt lookup c blockSize alignment N i num)
    (hr : SlidingRows lookup width N i num computed) :
    WindowRows lookup width c (scanned blockSize alignment
      (slidingLoop lookup c blockSize alignment i computed num)) := by
  induction i generalizing num computed with
  | zero =>
    have hle := h.le
    have hlt := h.lt
    have halign : alignment ∣ num * blockSize := by
      by_cases hnum : num = 0
      · simp [hnum]
      · simpa using h.aligned hnum
    have htake : (computed.take num).length = num := by
      rw [length_take, hr.length]
      omega
    have hpop : popUnaligned blockSize alignment (computed.take num) = computed.take (0 + num) := by
      obtain ⟨hup, -, hmax⟩ := alignedLength_spec blockSize alignment num
      rw [popUnaligned, htake, le_antisymm hup (hmax num (le_refl _) halign), take_take,
        min_self, Nat.zero_add]
    change WindowRows lookup width c (popUnaligned blockSize alignment (computed.take num))
    rw [hpop]
    exact hr.windowRows hle (.inr ⟨rfl, hlt.le⟩)
  | succ i ih =>
    have hle := h.le
    have hlt := h.lt
    rw [slidingLoop]
    split
    · next hnone => exact ih (h.miss hnone) hr.restart
    · next row hrow =>
      have hrows := hr.hit hrow (by omega)
      split
      · next hskip =>
        obtain ⟨rfl, -, hmod⟩ := hskip
        exact ih (h.skip fun hma => hmod (Nat.mod_eq_zero_of_dvd hma)) hr.restart
      · next hstart =>
        split
        · next hmatch => exact hrows.windowRows (by omega) (.inl (by omega))
        · next hshort => exact ih (h.hit hrow (h.aligned_end hstart) (by omega)) hrows

def IsLongestHit (lookup : Nat → Option Row) (width c blockSize alignment N : Nat)
    (rows : List Row) : Prop :=
  IsLongest blockSize alignment N (WindowCached lookup c) rows.length ∧
    WindowRows lookup width c rows

theorem isLongestHit_scanned (hc : 0 < c) : IsLongestHit lookup width c blockSize alignment N
    (scanned blockSize alignment (slidingLoop lookup c blockSize alignment N
      (List.replicate N (List.replicate width 0)) 0)) :=
  ⟨scanned_longest (by simp) (SlidingAt.start hc),
    scanned_windowRows (SlidingAt.start hc) (SlidingRows.start lookup width N)⟩

theorem slidingWindowHit_plain {numKeys window maxLength : Nat}
    (hc : 0 < cdiv (window - 1) blockSize) (hkeys : maxLength / blockSize ≤ numKeys) :
    ∃ rows, slidingWindowHit lookup width numKeys blockSize window maxLength alignment false =
        .ok rows ∧ IsLongestHit lookup width (cdiv (window - 1) blockSize) blockSize alignment
          (maxLength / blockSize) rows :=
  ⟨_, (slidingWindowHit_eq hkeys rfl).trans (if_neg (by simp)), isLongestHit_scanned hc⟩

theorem slidingWindowHit_eagle {numKeys window maxLength : Nat}
    (hkeys : maxLength / blockSize ≤ numKeys) :
    ∃ rows, slidingWindowHit lookup width numKeys blockSize window maxLength blockSize true =
        .ok rows.dropLast ∧ IsLongestHit lookup width (cdiv (window - 1) blockSize + 1) blockSize
          blockSize (maxLength / blockSize) rows := by
  obtain ⟨rows, hrows⟩ : ∃ rows, scanned blockSize blockSize (slidingLoop lookup
      (cdiv (window - 1) blockSize + 1) blockSize blockSize (maxLength / blockSize)
      (List.replicate (maxLength / blockSize) (List.replicate width 0)) 0) = rows := ⟨_, rfl⟩
  refine ⟨rows, (slidingWindowHit_eq hkeys hrows).trans ?_,
    hrows ▸ isLongestHit_scanned (Nat.succ_pos _)⟩
  by_cases hnil : rows = []
  · simp [hnil]
  · simp [hnil]

end

/-! ## The blocks of each group -/

section
variable {D : Type} [DecidableEq D]

def cachedFor (p : BlockPool (BlockKey D)) (hash : List D) (g : Nat) : Option Nat :=
  p.cachedBlockHashToBlock.getOneBlock (hash, g)

def cachedRow (p : BlockPool (BlockKey D)) (blockHashes : List (List D)) (groupIds : List Nat)
    (i : Nat) : Option Row :=
  p.getCachedBlock (groupIds.map fun g => (blockHashes.getD i [], g))

def column (rows : List Row) (k : Nat) : List Nat := rows.map fun row => row.getD k 0

variable {p : BlockPool (BlockKey D)} {blockHashes : List (List D)} {groupIds : List Nat}

theorem cachedRow_isSome {i : Nat} : (cachedRow p blockHashes groupIds i).isSome ↔
    ∀ g ∈ groupIds, (cachedFor p (blockHashes.getD i []) g).isSome :=
  getCachedBlock_isSome

variable {rows : List Row}

theorem getElem?_column {i k g : Nat} {row : Row} (hi : rows[i]? = some row)
    (hrow : cachedRow p blockHashes groupIds i = some row) (hg : groupIds[k]? = some g) :
    ∃ b, (column rows k)[i]? = some b ∧ cachedFor p (blockHashes.getD i []) g = some b := by
  obtain ⟨b, hget, hb⟩ := getElem?_getCachedBlock hrow hg
  refine ⟨b, ?_, hb⟩
  rw [column, getElem?_map, hi, Option.map_some, getD_eq_getElem?_getD, hget]
  rfl

/-- The lists are the longest hit for windows of `c` blocks: in each group's list the window has the
blocks cached under their own hashes, and null blocks come before it. -/
structure LongestHit (p : BlockPool (BlockKey D)) (blockHashes : List (List D)) (groupIds : List Nat)
    (c blockSize alignment maxNumBlocks : Nat) (rows : List Row) : Prop where
  longest : IsGreatest {n | n ≤ maxNumBlocks ∧ alignment ∣ n * blockSize ∧
    ∀ i < n, n - min n c ≤ i → ∀ g ∈ groupIds,
      (cachedFor p (blockHashes.getD i []) g).isSome} rows.length
  length : ∀ k, (column rows k).length = rows.length
  window : ∀ k g, groupIds[k]? = some g → ∀ i < rows.length, rows.length - min rows.length c ≤ i →
    ∃ b, (column rows k)[i]? = some b ∧ cachedFor p (blockHashes.getD i []) g = some b
  before : ∀ k < groupIds.length, ∀ i < rows.length - min rows.length c,
    (column rows k)[i]? = some 0

theorem IsLongestHit.longestHit {c blockSize alignment N : Nat}
    (h : IsLongestHit (cachedRow p blockHashes groupIds) groupIds.length c blockSize alignment N rows) :
    LongestHit p blockHashes groupIds c blockSize alignment N rows := by
  obtain ⟨hlong, hrows⟩ := h
  have hmin : ∀ n, n - min n c = n - c := fun n => by omega
  simp only [IsLongest, WindowCached, cachedRow_isSome, ← hmin] at hlong
  refine ⟨hlong, fun k => length_map _, fun k g hg i hi hw => ?_, fun k hk i hi => ?_⟩
  · obtain ⟨row, hrow⟩ := Option.isSome_iff_exists.mp (cachedRow_isSome.mpr (hlong.1.2.2 i hi hw))
    exact getElem?_column ((hrows.window i hi (hmin _ ▸ hw)).trans hrow) hrow hg
  · rw [column, getElem?_map, hrows.before i (hmin _ ▸ hi), Option.map_some,
      getD_eq_getElem?_getD, getElem?_replicate, if_pos hk]
    rfl

def CoversWindow (spec : KVCacheSpec) (p : BlockPool (BlockKey D)) (blockHashes : List (List D))
    (groupIds : List Nat) (rows : List Row) : Prop :=
  ∀ t, spec.getNumSkippedTokens (rows.length * spec.blockSize) ≤ t →
    t < rows.length * spec.blockSize → ∀ k g, groupIds[k]? = some g →
      ∃ b, (column rows k)[t / spec.blockSize]? = some b ∧
        cachedFor p (blockHashes.getD (t / spec.blockSize) []) g = some b ∧ (p.Inv → b ≠ 0)

theorem coversWindow_of_blocks {spec : KVCacheSpec}
    (h : ∀ i < rows.length, spec.getNumSkippedTokens (rows.length * spec.blockSize) < (i + 1) * spec.blockSize → ∀ k g, groupIds[k]? = some g → ∃ b, (column rows k)[i]? = some b ∧ cachedFor p (blockHashes.getD i []) g = some b)
    :
    CoversWindow spec p blockHashes groupIds rows := by
  intro t hskip hlt k g hg
  have hB := spec.blockSize_pos
  have hblock : t < (t / spec.blockSize + 1) * spec.blockSize := by
    rw [Nat.mul_comm]
    exact Nat.lt_mul_div_succ t hB
  obtain ⟨b, hb, hcached⟩ := h _ ((Nat.div_lt_iff_lt_mul hB).mpr hlt) (hskip.trans_lt hblock) k g hg
  refine ⟨b, hb, hcached, fun hp => ?_⟩
  have hhash := (hp.hash_iff b _).mpr (BlockHashToBlockMap.holds_of_getOneBlock hcached)
  exact (hp.hash_lt b (by simp [hhash])).2

theorem coversWindow_of_window {spec : KVCacheSpec} {window c : Nat}
    (hspec : spec.attention = .slidingWindow window) (hc : window - 1 ≤ c * spec.blockSize)
    (h : ∀ k g, groupIds[k]? = some g → ∀ i < rows.length, rows.length ≤ i + c → ∃ b, (column rows k)[i]? = some b ∧ cachedFor p (blockHashes.getD i []) g = some b)
    :
    CoversWindow spec p blockHashes groupIds rows := by
  refine coversWindow_of_blocks fun i hi hskip k g hg => h k g hg i hi ?_
  simp only [getNumSkippedTokens, hspec] at hskip
  have hlt : rows.length * spec.blockSize < (i + 1 + c) * spec.blockSize := by
    rw [Nat.add_mul _ c]
    omega
  have := Nat.lt_of_mul_lt_mul_right hlt
  omega

structure FindsLongest (spec : KVCacheSpec) (window : Nat) (p : BlockPool (BlockKey D))
    (blockHashes : List (List D)) (groupIds : List Nat) (maxLength alignment : Nat) : Prop where
  plain : ∃ rows, spec.findLongestCacheHit (cachedRow p blockHashes groupIds) groupIds.length
      blockHashes.length maxLength alignment false = .ok rows ∧
    LongestHit p blockHashes groupIds (cdiv (window - 1) spec.blockSize) spec.blockSize alignment
      (maxLength / spec.blockSize) rows ∧ CoversWindow spec p blockHashes groupIds rows
  eagle : alignment = spec.blockSize → ∃ rows, spec.findLongestCacheHit
      (cachedRow p blockHashes groupIds) groupIds.length blockHashes.length maxLength alignment
      true = .ok (rows.take (rows.length - 1)) ∧
    LongestHit p blockHashes groupIds (cdiv (window - 1) spec.blockSize + 1) spec.blockSize
      alignment (maxLength / spec.blockSize) rows ∧
    CoversWindow spec p blockHashes groupIds (rows.take (rows.length - 1))

theorem findsLongest_of_keys {spec : KVCacheSpec} {window maxLength : Nat}
    (hspec : spec.attention = .slidingWindow window) (hwindow : 2 ≤ window)
    (hkeys : maxLength / spec.blockSize ≤ blockHashes.length) (alignment : Nat) :
    FindsLongest spec window p blockHashes groupIds maxLength alignment := by
  have hB := spec.blockSize_pos
  have hpos : 0 < cdiv (window - 1) spec.blockSize := cdiv_pos (by omega) hB
  have hle := le_cdiv_mul (window - 1) hB
  constructor
  · obtain ⟨rows, hrun, hlong⟩ := @slidingWindowHit_plain (cachedRow p blockHashes groupIds)
      groupIds.length spec.blockSize alignment blockHashes.length window maxLength hpos hkeys
    have hhit := hlong.longestHit
    refine ⟨rows, ?_, hhit, coversWindow_of_window hspec hle fun k g hg i hi hw => ?_⟩
    · simp only [findLongestCacheHit, hspec, hrun]
    · exact hhit.window k g hg i hi (by omega)
  · rintro rfl
    obtain ⟨rows, hrun, hlong⟩ := @slidingWindowHit_eagle (cachedRow p blockHashes groupIds)
      groupIds.length spec.blockSize blockHashes.length window maxLength hkeys
    have hhit := hlong.longestHit
    rw [dropLast_eq_take] at hrun
    refine ⟨rows, ?_, hhit, coversWindow_of_window hspec hle fun k g hg i hi hw => ?_⟩
    · simp only [findLongestCacheHit, hspec, hrun]
    · rw [length_take] at hi hw
      obtain ⟨b, hb, hcached⟩ := hhit.window k g hg i (by omega) (by omega)
      refine ⟨b, ?_, hcached⟩
      rw [column, map_take, getElem?_take_of_lt (by omega)]
      exact hb

/-! ## Chunks -/

def InLastChunk (chunk maxLength n : Nat) : Prop := n / chunk = maxLength / chunk ∨ chunk ∣ n

theorem inLastChunk_of_dvd {chunk blockSize maxLength n : Nat} (hdvd : blockSize ∣ chunk)
    (hB : 0 < blockSize) (hstart : maxLength / chunk * chunk / blockSize ≤ n)
    (hn : n ≤ maxLength / blockSize) : InLastChunk chunk maxLength (n * blockSize) := by
  refine .inl (le_antisymm (Nat.div_le_div_right ((Nat.le_div_iff_mul_le hB).mp hn)) ?_)
  rcases Nat.eq_zero_or_pos chunk with rfl | hC
  · simp
  have hfirst : maxLength / chunk * chunk / blockSize * blockSize = maxLength / chunk * chunk :=
    Nat.div_mul_cancel (hdvd.mul_left _)
  rw [Nat.le_div_iff_mul_le hC, ← hfirst]
  exact Nat.mul_le_mul_right _ hstart

/-- The null blocks of a hit cover none of the chunk of the next token when that token is in the
chunk of the length asked for or starts a chunk, and otherwise they cover some of it. -/
theorem coversWindow_chunked {spec : KVCacheSpec} {chunk maxLength alignment : Nat}
    {useEagle : Bool} {rows : List Row} (hspec : spec.attention = .chunkedLocalAttention chunk)
    (h : spec.findLongestCacheHit (cachedRow p blockHashes groupIds) groupIds.length
      blockHashes.length maxLength alignment useEagle = .ok rows) :
    (spec.blockSize ∣ chunk → InLastChunk chunk maxLength (rows.length * spec.blockSize)) ∧
      (InLastChunk chunk maxLength (rows.length * spec.blockSize) →
        CoversWindow spec p blockHashes groupIds rows) ∧
      (p.Inv → groupIds ≠ [] → CoversWindow spec p blockHashes groupIds rows →
        InLastChunk chunk maxLength (rows.length * spec.blockSize)) := by
  have hB := spec.blockSize_pos
  have hC : 0 < chunk := by
    have hvalid := spec.valid
    rwa [hspec] at hvalid
  simp only [findLongestCacheHit, hspec] at h
  obtain ⟨-, hits, hrows, hlen, hget⟩ := chunkedLocalAttentionHit_eq h
  set start := maxLength / chunk * chunk / spec.blockSize with hstart
  have hlength : rows.length = start + hits.length := by simp [hrows]
  have hskip : spec.getNumSkippedTokens (rows.length * spec.blockSize) =
      rows.length * spec.blockSize / chunk * chunk := by
    simp only [getNumSkippedTokens, hspec]
  refine ⟨fun hdvd => inLastChunk_of_dvd hdvd hB (by omega) hlen, fun hin => ?_,
    fun hp hgroups hcovers => ?_⟩
  · refine coversWindow_of_blocks fun i hi hlt k g hg => ?_
    rw [hskip] at hlt
    -- block `i` reaches into the chunk, so it is one that was looked up
    have hge : start ≤ i := by
      rcases hin with hin | hin
      · rw [hin] at hlt
        exact Nat.lt_succ_iff.mp ((Nat.div_lt_iff_lt_mul hB).mpr hlt)
      · rw [Nat.div_mul_cancel hin] at hlt
        have := Nat.lt_of_mul_lt_mul_right hlt
        omega
    obtain ⟨row, hrow⟩ : ∃ row, hits[i - start]? = some row :=
      ⟨_, getElem?_eq_getElem (by omega)⟩
    have hcached := hget _ row hrow
    rw [Nat.add_sub_cancel' hge] at hcached
    refine getElem?_column ?_ hcached hg
    rw [hrows, getElem?_append_right (by simpa using hge), length_replicate, hrow]
  · by_contra hnot
    obtain ⟨hchunk, hndvd⟩ := not_or.mp hnot
    have hle : rows.length * spec.blockSize ≤ maxLength := (Nat.le_div_iff_mul_le hB).mp hlen
    have hbefore : rows.length * spec.blockSize < maxLength / chunk * chunk :=
      (Nat.div_lt_iff_lt_mul hC).mp (lt_of_le_of_ne (Nat.div_le_div_right hle) hchunk)
    have hshort : rows.length ≤ start := (Nat.le_div_iff_mul_le hB).mpr hbefore.le
    have hinside : rows.length * spec.blockSize / chunk * chunk < rows.length * spec.blockSize :=
      lt_of_le_of_ne (Nat.div_mul_le_self _ _) fun he => hndvd ⟨_, he ▸ Nat.mul_comm _ _⟩
    -- the token before the next one is in the same chunk and in a null block
    obtain ⟨g, hg⟩ : ∃ g, groupIds[0]? = some g := by
      cases groupIds with
      | nil => exact absurd rfl hgroups
      | cons g _ => exact ⟨g, rfl⟩
    obtain ⟨b, hb, -, hne⟩ := hcovers (rows.length * spec.blockSize - 1) (by rw [hskip]; omega)
      (by omega) 0 g hg
    have hblock : (rows.length * spec.blockSize - 1) / spec.blockSize < start :=
      ((Nat.div_lt_iff_lt_mul hB).mpr (by omega)).trans_le hshort
    have hnull : rows[(rows.length * spec.blockSize - 1) / spec.blockSize]? =
        some (List.replicate groupIds.length 0) := by
      generalize (rows.length * spec.blockSize - 1) / spec.blockSize = j at hblock ⊢
      rw [hrows, getElem?_append_left (by simpa using hblock), getElem?_replicate,
        if_pos hblock]
    rw [column, getElem?_map, hnull] at hb
    have hzero : (List.replicate groupIds.length 0).getD 0 0 = b := Option.some.inj hb
    refine hne hp (hzero.symm.trans ?_)
    cases groupIds <;> rfl

end

def fourChunk : KVCacheSpec := { blockSize := 2, attention := .chunkedLocalAttention 4 }

def twoTokens : KVCacheSpec where
  blockSize := 1
  attention := .slidingWindow 2
  blockSize_pos := Nat.one_pos
  valid := Nat.two_pos

def twoCached : BlockPool (BlockKey Nat) :=
  ((do
    let _ ← BlockPool.getNewBlocks Hooks.none 2
    BlockPool.cacheFullBlocks 2 [([5], 0), ([6], 0)] [1, 2] 0 2 :
      PoolCall (BlockKey Nat) Unit Unit) (BlockPool.new 4 true, ())).2.1

theorem coversWindow_chunked_twoCached :
    fourChunk.findLongestCacheHit (cachedRow twoCached [[3], [4], [5], [6]] [0]) 1 4 7 2 false =
        .ok [[0], [0], [1]] ∧
      CoversWindow fourChunk twoCached [[3], [4], [5], [6]] [0] [[0], [0], [1]] := by
  have hrun : fourChunk.findLongestCacheHit (cachedRow twoCached [[3], [4], [5], [6]] [0]) 1 4 7 2
      false = .ok [[0], [0], [1]] := rfl
  have hspec : fourChunk.attention = .chunkedLocalAttention 4 := rfl
  have hcovers := coversWindow_chunked hspec hrun
  exact ⟨hrun, hcovers.2.1 (hcovers.1 (by decide))⟩

def threeChunk : KVCacheSpec := { blockSize := 2, attention := .chunkedLocalAttention 3 }

/-- The block with tokens 2 and 3 is not cached, so the hit ends before token 2, whose chunk starts
with token 0. -/
theorem chunk_not_covered :
    threeChunk.findLongestCacheHit (cachedRow twoCached [[5], [9]] [0]) 1 2 4 2 false = .ok [[0]] ∧
      threeChunk.getNumSkippedTokens 2 = 0 ∧
      ¬ CoversWindow threeChunk twoCached [[5], [9]] [0] [[0]] := by
  refine ⟨rfl, rfl, fun h => ?_⟩
  obtain ⟨b, hb, hcached, -⟩ := h 0 (Nat.zero_le _) (by decide) 0 0 rfl
  obtain rfl : 0 = b := Option.some.inj hb
  revert hcached
  decide

theorem findsLongest_of_keys_twoCached :
    twoTokens.findLongestCacheHit (cachedRow twoCached [[5], [6], [7]] [0]) 1 3 3 1 false =
        .ok [[0], [2]] ∧ FindsLongest twoTokens 2 twoCached [[5], [6], [7]] [0] 3 1 :=
  ⟨rfl, findsLongest_of_keys rfl (by decide) (by decide) 1⟩

theorem hit_without_key :
    twoTokens.findLongestCacheHit (cachedRow twoCached [[5]] [0]) 1 1 2 1 false =
        .error .indexError ∧ ¬ FindsLongest twoTokens 2 twoCached [[5]] [0] 2 1 := by
  have herr : twoTokens.findLongestCacheHit (cachedRow twoCached [[5]] [0]) 1 1 2 1 false =
      .error .indexError := rfl
  refine ⟨herr, fun h => ?_⟩
  obtain ⟨rows, hrun, -⟩ := h.plain
  exact nomatch herr.symm.trans hrun

end Vllm
