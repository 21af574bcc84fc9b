import Vllm.Core.BlockPool

/-! Prefix cache hits: `find_longest_cache_hit` of the managers in `single_type_kv_cache_manager.py`
and of the coordinators in `kv_cache_coordinator.py`.

A manager looks up one key in all groups of its spec at once, so its result is a list of rows, one
block per group in each row. Context parallelism, cross attention and attention sinks are left
out, and so is the `align` mode of Mamba. -/

namespace Vllm
open Base List

def cdiv (a b : Nat) : Nat := (a + b - 1) / b

variable {b : Nat} {groups : List KVCacheSpec}

theorem cdiv_zero (hb : 0 < b) : cdiv 0 b = 0 :=
  Nat.div_eq_of_lt (by omega)

theorem cdiv_le_cdiv {m n : Nat} (h : m ≤ n) : cdiv m b ≤ cdiv n b :=
  Nat.div_le_div_right (by omega)

theorem cdiv_pos {a : Nat} (ha : 0 < a) (hb : 0 < b) : 0 < cdiv a b :=
  Nat.div_pos (by omega) hb

theorem le_cdiv_mul (n : Nat) (hb : 0 < b) : n ≤ cdiv n b * b := by
  have h1 := Nat.div_add_mod (n + b - 1) b
  have h2 := Nat.mod_lt (n + b - 1) hb
  unfold cdiv
  rw [Nat.mul_comm] at h1
  omega

theorem cdiv_mul_self (n : Nat) (hb : 0 < b) : cdiv (n * b) b = n := by
  rw [cdiv, Nat.add_sub_assoc hb, Nat.add_comm, Nat.add_mul_div_right _ _ hb,
    Nat.div_eq_of_lt (by omega), Nat.zero_add]

theorem div_le_cdiv (n : Nat) (hb : 0 < b) : n / b ≤ cdiv n b :=
  Nat.div_le_div_right (by omega)

/-- The attention of a KV cache group, with what its manager reads of the spec. -/
inductive AttentionType where
  | fullAttention
  | slidingWindow (window : Nat)
  | chunkedLocalAttention (attentionChunkSize : Nat)
  | mamba (numSpeculativeBlocks : Nat)
deriving DecidableEq, Repr

def AttentionType.Valid : AttentionType → Prop
  | .slidingWindow window => 0 < window
  | .chunkedLocalAttention attentionChunkSize => 0 < attentionChunkSize
  | _ => True

instance (a : AttentionType) : Decidable a.Valid := by
  cases a <;> unfold AttentionType.Valid <;> infer_instance

/-- `layout` stands for the fields of a spec that are only compared: heads, sizes, data type. -/
structure KVCacheSpec where
  blockSize : Nat
  attention : AttentionType
  layout : Nat := 0
  blockSize_pos : 0 < blockSize := by decide
  valid : attention.Valid := by first | exact trivial | decide
deriving DecidableEq

def KVCacheSpec.isFullAttention (spec : KVCacheSpec) : Bool := spec.attention == .fullAttention

abbrev Row := List Nat

/-! ## The managers -/

section
variable (lookup : Nat → Option Row)

def scanForward : Nat → Nat → List Row
  | 0, _ => []
  | n + 1, i =>
    match lookup i with
    | some row => row :: scanForward n (i + 1)
    | none => []

/-- The length left by `while block_size != alignment_tokens and len * block_size %
alignment_tokens != 0: pop()`. -/
def alignedLength (blockSize alignment : Nat) : Nat → Nat
  | 0 => 0
  | n + 1 =>
    if blockSize ≠ alignment ∧ (n + 1) * blockSize % alignment ≠ 0 then
      alignedLength blockSize alignment n
    else n + 1

def popUnaligned (blockSize alignment : Nat) (rows : List Row) : List Row :=
  rows.take (alignedLength blockSize alignment rows.length)

/-- `FullAttentionManager`; `numKeys` is the number of block hashes at the group's block size. -/
def fullAttentionHit (numKeys blockSize maxLength alignment : Nat) (useEagle : Bool) : List Row :=
  let computed := scanForward lookup (min (maxLength / blockSize) numKeys) 0
  popUnaligned blockSize alignment (if useEagle then computed.dropLast else computed)

/-- The loop of `SlidingWindowManager` over the blocks below `i`, from right to left: the rows, the
length of the run of cached blocks that ends the loop and whether it is a match. -/
def slidingLoop (contiguous blockSize alignment : Nat) : Nat → List Row → Nat →
    List Row × Nat × Bool
  | 0, computed, numContiguous => (computed, numContiguous, false)
  | i + 1, computed, numContiguous =>
    match lookup i with
    | none => slidingLoop contiguous blockSize alignment i computed 0
    | some row =>
      if numContiguous = 0 ∧ blockSize ≠ alignment ∧ (i + 1) * blockSize % alignment ≠ 0 then
        slidingLoop contiguous blockSize alignment i computed numContiguous
      else if numContiguous + 1 ≥ contiguous then
        ((computed.set i row).take (i + (numContiguous + 1)), numContiguous + 1, true)
      else slidingLoop contiguous blockSize alignment i (computed.set i row) (numContiguous + 1)

/-- `SlidingWindowManager` for `width` groups. The largest index is read first, so a list of
hashes that is too short fails at once. -/
def slidingWindowHit (width numKeys blockSize window maxLength alignment : Nat) (useEagle : Bool) :
    Except PyError (List Row) :=
  let contiguous := cdiv (window - 1) blockSize + if useEagle then 1 else 0
  let maxNumBlocks := maxLength / blockSize
  if numKeys < maxNumBlocks then .error .indexError
  else
    let nulls := List.replicate maxNumBlocks (List.replicate width 0)
    let (computed, numContiguous, matchFound) :=
      slidingLoop lookup contiguous blockSize alignment maxNumBlocks nulls 0
    let computed :=
      if matchFound then computed
      else popUnaligned blockSize alignment (computed.take numContiguous)
    if useEagle ∧ computed ≠ [] then
      if blockSize ≠ alignment then
        .error (.assertionError "aligned_length is not compatible with eagle now")
      else .ok computed.dropLast
    else .ok computed

def chunkedLoop (numKeys : Nat) : Nat → Nat → Except PyError (List Row)
  | 0, _ => .ok []
  | n + 1, i =>
    if numKeys ≤ i then .error .indexError
    else
      match lookup i with
      | some row => do return row :: (← chunkedLoop numKeys n (i + 1))
      | none => .ok []

def chunkedLocalAttentionHit (width numKeys blockSize attentionChunkSize maxLength alignment : Nat)
    (useEagle : Bool) : Except PyError (List Row) :=
  if useEagle then
    .error (.assertionError "Hybrid KV cache is not supported for eagle + chunked local attention.")
  else if blockSize ≠ alignment then
    .error (.assertionError ("KV cache groups with different block sizes are not compatible with "
      ++ "chunked local attention now"))
  else do
    let startBlock := maxLength / attentionChunkSize * attentionChunkSize / blockSize
    let hits ← chunkedLoop lookup numKeys (maxLength / blockSize - startBlock) startBlock
    return List.replicate startBlock (List.replicate width 0) ++ hits

def mambaLoop (width blockSize alignment : Nat) : Nat → List Row
  | 0 => []
  | i + 1 =>
    match lookup i with
    | none => mambaLoop width blockSize alignment i
    | some row =>
      if blockSize ≠ alignment ∧ (i + 1) * blockSize % alignment ≠ 0 then
        mambaLoop width blockSize alignment i
      else List.replicate i (List.replicate width 0) ++ [row]

def mambaHit (width numKeys blockSize maxLength alignment : Nat) : Except PyError (List Row) :=
  let maxNumBlocks := maxLength / blockSize
  if numKeys < maxNumBlocks then .error .indexError
  else .ok (mambaLoop lookup width blockSize alignment maxNumBlocks)

def KVCacheSpec.findLongestCacheHit (spec : KVCacheSpec) (width numKeys maxLength alignment : Nat)
    (useEagle : Bool) : Except PyError (List Row) :=
  match spec.attention with
  | .fullAttention =>
    .ok (fullAttentionHit lookup numKeys spec.blockSize maxLength alignment useEagle)
  | .slidingWindow window =>
    slidingWindowHit lookup width numKeys spec.blockSize window maxLength alignment useEagle
  | .chunkedLocalAttention attentionChunkSize =>
    chunkedLocalAttentionHit lookup width numKeys spec.blockSize attentionChunkSize maxLength
      alignment useEagle
  | .mamba _ => mambaHit lookup width numKeys spec.blockSize maxLength alignment

end

/-! ## The coordinators -/

structure AttentionGroup where
  spec : KVCacheSpec
  groupIds : List Nat
  rows : Option (List Row) := none
deriving DecidableEq

def addGroup : List AttentionGroup → KVCacheSpec × Nat → List AttentionGroup
  | [], (spec, i) => [{ spec, groupIds := [i] }]
  | g :: gs, (spec, i) =>
    if g.spec = spec then { g with groupIds := g.groupIds ++ [i] } :: gs
    else g :: addGroup gs (spec, i)

/-- `verify_and_split_kv_cache_groups`: one entry per distinct spec, full attention first. -/
def attentionGroups (groups : List KVCacheSpec) : List AttentionGroup :=
  let split := groups.zipIdx.foldl addGroup []
  split.filter (·.spec.isFullAttention) ++ split.filter fun g => ¬ g.spec.isFullAttention

def lcmBlockSize (groups : List KVCacheSpec) : Nat :=
  (attentionGroups groups).foldl (fun n g => n.lcm g.spec.blockSize) 1

/-- What the manager is built from, with the assertions of the coordinators' constructors. -/
structure KVCacheConfig where
  groups : List KVCacheSpec
  hashBlockSize : Nat
  numBlocks : Nat
  maxModelLen : Nat
  useEagle : Bool := false
  enableCaching : Bool := true
  hashBlockSize_pos : 0 < hashBlockSize := by decide
  numBlocks_pos : 0 < numBlocks := by decide
  hashBlockSize_dvd : enableCaching = true → ∀ spec ∈ groups, hashBlockSize ∣ spec.blockSize :=
    by decide
  unitary : enableCaching = true → groups.length = 1 → ∀ spec ∈ groups,
    hashBlockSize = spec.blockSize := by decide
  hybrid : enableCaching = true → groups.length ≠ 1 → 1 < (attentionGroups groups).length := by
    decide

namespace KVCacheConfig
variable {D : Type} [DecidableEq D] (cfg : KVCacheConfig)

/-- How many hashes make up the key of one block of the spec. -/
def scaleFactor (spec : KVCacheSpec) : Nat := spec.blockSize / cfg.hashBlockSize

/-- `BlockHashListWithBlockSize`: the hash of block `i` is a concatenation of hashes. -/
def blockKey (spec : KVCacheSpec) (blockHashes : List D) (i : Nat) : List D :=
  (blockHashes.drop (i * cfg.scaleFactor spec)).take (cfg.scaleFactor spec)

def numKeys (spec : KVCacheSpec) (blockHashes : List D) : Nat :=
  blockHashes.length / cfg.scaleFactor spec

end KVCacheConfig

abbrev BlockKey (D : Type) := List D × Nat

namespace KVCacheConfig
variable {D : Type} [DecidableEq D] (cfg : KVCacheConfig) (p : BlockPool (BlockKey D))
  (blockHashes : List D)

def lookup (spec : KVCacheSpec) (groupIds : List Nat) (i : Nat) : Option Row :=
  p.getCachedBlock (groupIds.map fun g => (cfg.blockKey spec blockHashes i, g))

def findHit (alignment : Nat) (spec : KVCacheSpec) (groupIds : List Nat) (maxLength : Nat) :
    Except PyError (List Row) :=
  spec.findLongestCacheHit (cfg.lookup p blockHashes spec groupIds) groupIds.length
    (cfg.numKeys spec blockHashes) maxLength alignment cfg.useEagle

end KVCacheConfig

section
variable (find : KVCacheSpec → List Nat → Nat → Except PyError (List Row))

def hitPass : List AttentionGroup → Nat → Except PyError (List AttentionGroup × Nat)
  | [], currHitLength => .ok ([], currHitLength)
  | g :: gs, currHitLength =>
    match g.spec.isFullAttention, g.rows with
    | true, some _ => do
      -- the blocks of an earlier pass are kept
      let numBlocks := currHitLength / g.spec.blockSize
      let (gs, currHitLength) ← hitPass gs (numBlocks * g.spec.blockSize)
      return (g :: gs, currHitLength)
    | _, _ => do
      let hitBlocks ← find g.spec g.groupIds currHitLength
      let (gs, currHitLength) ← hitPass gs (hitBlocks.length * g.spec.blockSize)
      return ({ g with rows := some hitBlocks } :: gs, currHitLength)

/-- The `while True` loop: the candidate length gets smaller with every pass but the last. -/
def hitLoop (isSimpleHybrid : Bool) (gs : List AttentionGroup) (hitLength : Nat) :
    Except PyError (List AttentionGroup × Nat) :=
  match hitPass find gs hitLength with
  | .error e => .error e
  | .ok (gs, currHitLength) =>
    if currHitLength ≥ hitLength then .ok (gs, hitLength)
    else if isSimpleHybrid then .ok (gs, currHitLength)
    else hitLoop isSimpleHybrid gs currHitLength
termination_by hitLength

end

def truncateFirst (hitLength : Nat) : List AttentionGroup → List AttentionGroup
  | [] => []
  | g :: gs =>
    if g.spec.isFullAttention then
      { g with rows := g.rows.map (·.take (hitLength / g.spec.blockSize)) } :: gs
    else g :: gs

def blocksOfGroup (gs : List AttentionGroup) (i : Nat) : List Nat :=
  match gs.find? (i ∈ ·.groupIds) with
  | none => []
  | some g => (g.rows.getD []).map fun row => row.getD (g.groupIds.idxOf i) 0

def isSimpleHybrid (gs : List AttentionGroup) : Bool :=
  gs.length == 2 && (gs.head?.map (·.spec.isFullAttention)).getD false

namespace KVCacheConfig
variable {D : Type} [DecidableEq D] (cfg : KVCacheConfig) (p : BlockPool (BlockKey D))
  (blockHashes : List D)

def hybridHit (maxCacheHitLength : Nat) : Except PyError (List (List Nat) × Nat) := do
  let gs := attentionGroups cfg.groups
  let (gs, hitLength) ← hitLoop (cfg.findHit p blockHashes (lcmBlockSize cfg.groups))
    (isSimpleHybrid gs) gs maxCacheHitLength
  return ((List.range cfg.groups.length).map (blocksOfGroup (truncateFirst hitLength gs)),
    hitLength)

def unitaryHit (spec : KVCacheSpec) (maxCacheHitLength : Nat) :
    Except PyError (List (List Nat) × Nat) := do
  let rows ← cfg.findHit p blockHashes spec.blockSize spec [0] maxCacheHitLength
  return ([rows.map fun row => row.getD 0 0], rows.length * spec.blockSize)

def findLongestCacheHit (maxCacheHitLength : Nat) : Except PyError (List (List Nat) × Nat) :=
  if cfg.enableCaching then
    match cfg.groups with
    | [spec] => cfg.unitaryHit p blockHashes spec maxCacheHitLength
    | _ => cfg.hybridHit p blockHashes maxCacheHitLength
  else .ok (cfg.groups.map fun _ => [], 0)

end KVCacheConfig

/-! ## What a hit consists of -/

def RowsFrom (lookup : Nat → Option Row) (width : Nat) (rows : List Row) : Prop :=
  ∀ i row, rows[i]? = some row → row = List.replicate width 0 ∨ lookup i = some row

section
variable {lookup : Nat → Option Row} {width blockSize alignment : Nat} {rows : List Row}

theorem RowsFrom.take (h : RowsFrom lookup width rows) (n : Nat) :
    RowsFrom lookup width (rows.take n) := by
  intro i row hi
  rw [getElem?_take] at hi
  split at hi
  · exact h i row hi
  · cases hi

theorem RowsFrom.dropLast (h : RowsFrom lookup width rows) :
    RowsFrom lookup width rows.dropLast := by
  rw [dropLast_eq_take]
  exact h.take _

variable {i numKeys maxLength : Nat} {useEagle : Bool}

theorem RowsFrom.set (h : RowsFrom lookup width rows) {row : Row} (hi : lookup i = some row) :
    RowsFrom lookup width (rows.set i row) := by
  intro j row' hj
  rw [getElem?_set] at hj
  split at hj
  · next hij =>
    split at hj
    · cases hj
      exact .inr (hij ▸ hi)
    · cases hj
  · exact h j row' hj

theorem rowsFrom_nulls (n : Nat) :
    RowsFrom lookup width (List.replicate n (List.replicate width 0)) := by
  intro i row hi
  exact .inl (mem_replicate.mp (mem_of_getElem? hi)).2

theorem rowsFrom_nulls_append {n : Nat}
    (h : ∀ j row, rows[j]? = some row → lookup (n + j) = some row) :
    RowsFrom lookup width (List.replicate n (List.replicate width 0) ++ rows) := by
  intro i row hi
  rw [getElem?_append] at hi
  split at hi
  · exact rowsFrom_nulls n i row hi
  · next hge =>
    simp only [length_replicate, Nat.not_lt] at hge hi
    have := h _ row hi
    rw [Nat.add_sub_cancel' hge] at this
    exact .inr this

theorem getElem?_scanForward {n j : Nat} {row : Row} (h : (scanForward lookup n i)[j]? = some row) :
    lookup (i + j) = some row := by
  induction n generalizing i j with
  | zero => simp [scanForward] at h
  | succ n ih =>
    rw [scanForward] at h
    split at h
    · next row' hrow =>
      cases j with
      | zero => simpa [hrow] using h
      | succ j =>
        have := ih (by simpa using h)
        rwa [Nat.add_right_comm] at this
    · simp at h

theorem length_scanForward_le (n i : Nat) : (scanForward lookup n i).length ≤ n := by
  induction n generalizing i with
  | zero => simp [scanForward]
  | succ n ih =>
    rw [scanForward]
    split
    · simpa using ih (i + 1)
    · simp

theorem dvd_of_not_skipped {n : Nat}
    (h : ¬ (blockSize ≠ alignment ∧ n * blockSize % alignment ≠ 0)) : alignment ∣ n * blockSize := by
  by_cases hb : blockSize = alignment
  · exact hb ▸ Nat.dvd_mul_left _ _
  · rw [not_and, Decidable.not_not] at h
    exact Nat.dvd_of_mod_eq_zero (h hb)

theorem alignedLength_spec (blockSize alignment n : Nat) :
    alignedLength blockSize alignment n ≤ n ∧
      alignment ∣ alignedLength blockSize alignment n * blockSize ∧
      ∀ m ≤ n, alignment ∣ m * blockSize → m ≤ alignedLength blockSize alignment n := by
  induction n with
  | zero => simp [alignedLength]
  | succ n ih =>
    rw [alignedLength]
    split
    · next h =>
      refine ⟨ih.1.trans (Nat.le_succ n), ih.2.1, fun m hm hd => ?_⟩
      rcases Nat.le_succ_iff.mp hm with hm | rfl
      · exact ih.2.2 m hm hd
      · exact absurd (Nat.mod_eq_zero_of_dvd hd) h.2
    · next h => exact ⟨Nat.le_refl _, dvd_of_not_skipped h, fun m hm _ => hm⟩

@[simp] theorem length_popUnaligned (rows : List Row) :
    (popUnaligned blockSize alignment rows).length = alignedLength blockSize alignment rows.length :=
  length_take_of_le (alignedLength_spec _ _ _).1

theorem slidingLoop_rows {contiguous num : Nat} (h : RowsFrom lookup width rows) :
    RowsFrom lookup width (slidingLoop lookup contiguous blockSize alignment i rows num).1 := by
  induction i generalizing rows num with
  | zero => exact h
  | succ i ih =>
    rw [slidingLoop]
    split
    · exact ih h
    · next row hrow =>
      split
      · exact ih h
      split
      · exact (h.set hrow).take _
      · exact ih (h.set hrow)

theorem dvd_of_start {i num : Nat}
    (hstart : ¬ (num = 0 ∧ blockSize ≠ alignment ∧ (i + 1) * blockSize % alignment ≠ 0))
    (hnum : num ≠ 0 → alignment ∣ (i + 1 + num) * blockSize) :
    alignment ∣ (i + (num + 1)) * blockSize := by
  by_cases h0 : num = 0
  · subst h0
    exact dvd_of_not_skipped fun hskip => hstart ⟨rfl, hskip⟩
  · have := hnum h0
    rwa [Nat.add_right_comm] at this

theorem slidingLoop_aligned {contiguous i num : Nat} (hi : i + num ≤ rows.length)
    (hnum : num ≠ 0 → alignment ∣ (i + num) * blockSize) :
    (slidingLoop lookup contiguous blockSize alignment i rows num).1.length ≤ rows.length ∧
    ((slidingLoop lookup contiguous blockSize alignment i rows num).2.2 = true →
      alignment ∣
        (slidingLoop lookup contiguous blockSize alignment i rows num).1.length * blockSize) := by
  induction i generalizing rows num with
  | zero => simp [slidingLoop]
  | succ i ih =>
    rw [slidingLoop]
    split
    · exact ih (by omega) (by simp)
    · next row hrow =>
      split
      · next h =>
        rw [h.1]
        exact ih (by omega) (by simp)
      · next h =>
        have hend := dvd_of_start h hnum
        split
        · simp only [length_take, length_set, forall_const]
          rw [Nat.min_eq_left (by omega)]
          exact ⟨by omega, hend⟩
        · have := @ih (rows.set i row) (num + 1) (by simp; omega) (fun _ => hend)
          simpa using this

theorem chunkedLoop_rows {n : Nat} (h : chunkedLoop lookup numKeys n i = .ok rows) :
    rows.length ≤ n ∧ ∀ j row, rows[j]? = some row → lookup (i + j) = some row := by
  induction n generalizing i rows with
  | zero =>
    cases h
    simp
  | succ n ih =>
    rw [chunkedLoop] at h
    split at h
    · cases h
    split at h
    · next row hrow =>
      obtain ⟨rest, hrest, h⟩ := except_bind_eq_ok.mp h
      cases h
      obtain ⟨hlen, hget⟩ := ih hrest
      refine ⟨by simpa using hlen, fun j row' hj => ?_⟩
      cases j with
      | zero => simpa [hrow] using hj
      | succ j =>
        have := hget j row' (by simpa using hj)
        rwa [Nat.add_right_comm] at this
    · cases h
      simp

theorem mambaLoop_rows (i : Nat) :
    RowsFrom lookup width (mambaLoop lookup width blockSize alignment i) ∧
      (mambaLoop lookup width blockSize alignment i).length ≤ i ∧
      alignment ∣ (mambaLoop lookup width blockSize alignment i).length * blockSize := by
  induction i with
  | zero => simp [mambaLoop, RowsFrom]
  | succ i ih =>
    have hlater := And.intro ih.1 (And.intro (ih.2.1.trans (Nat.le_succ i)) ih.2.2)
    rw [mambaLoop]
    split
    · exact hlater
    · next row hrow =>
      split
      · exact hlater
      · next h =>
        refine ⟨rowsFrom_nulls_append fun j row' hj => ?_, by simp, ?_⟩
        · rw [getElem?_singleton] at hj
          split at hj
          · next h0 =>
            cases hj
            rw [h0, Nat.add_zero, hrow]
          · cases hj
        · simpa using dvd_of_not_skipped h


def scanned (blockSize alignment : Nat) (result : List Row × Nat × Bool) : List Row :=
  if result.2.2 then result.1
  else popUnaligned blockSize alignment (result.1.take result.2.1)

theorem slidingWindowHit_eq {window : Nat} (hkeys : maxLength / blockSize ≤ numKeys)
    (hrows : scanned blockSize alignment (slidingLoop lookup
      (cdiv (window - 1) blockSize + if useEagle then 1 else 0) blockSize alignment
      (maxLength / blockSize)
      (List.replicate (maxLength / blockSize) (List.replicate width 0)) 0) = rows) :
    slidingWindowHit lookup width numKeys blockSize window maxLength alignment useEagle =
      if useEagle ∧ rows ≠ [] then
        if blockSize ≠ alignment then
          .error (.assertionError "aligned_length is not compatible with eagle now")
        else .ok rows.dropLast
      else .ok rows := by
  subst hrows
  exact if_neg (Nat.not_lt.mpr hkeys)

theorem scanned_spec {contiguous N : Nat} (hrows : scanned blockSize alignment (slidingLoop lookup
      contiguous blockSize alignment N (List.replicate N (List.replicate width 0)) 0) = rows) :
    RowsFrom lookup width rows ∧ rows.length ≤ N ∧ alignment ∣ rows.length * blockSize := by
  have hfrom : RowsFrom lookup width (slidingLoop lookup contiguous blockSize alignment N
      (List.replicate N (List.replicate width 0)) 0).1 := slidingLoop_rows (rowsFrom_nulls N)
  have hal := @slidingLoop_aligned lookup blockSize alignment
    (List.replicate N (List.replicate width 0)) contiguous N 0 (by simp) (by simp)
  generalize slidingLoop lookup contiguous blockSize alignment N _ 0 = result at hrows hfrom hal
  obtain ⟨computed, num, found⟩ := result
  rw [length_replicate] at hal
  subst hrows
  cases found with
  | true => exact ⟨hfrom, hal.1, hal.2 rfl⟩
  | false =>
    have hspec := alignedLength_spec blockSize alignment (computed.take num).length
    refine ⟨(hfrom.take num).take _, ?_, ?_⟩
    · simp only [scanned, Bool.false_eq_true, if_false, length_popUnaligned]
      exact hspec.1.trans ((take_sublist _ _).length_le.trans hal.1)
    · simpa [scanned] using hspec.2.1

theorem slidingWindowHit_spec {blockSize window alignment : Nat}
    (h : slidingWindowHit lookup width numKeys blockSize window maxLength alignment useEagle = .ok rows)
    :
    RowsFrom lookup width rows ∧ rows.length ≤ maxLength / blockSize ∧
      alignment ∣ rows.length * blockSize := by
  by_cases hkeys : maxLength / blockSize ≤ numKeys
  · rw [slidingWindowHit_eq hkeys rfl] at h
    generalize hc : scanned blockSize alignment _ = c at h
    obtain ⟨h1, h2, h3⟩ := scanned_spec hc
    split at h
    · split at h
      · cases h
      · next hb =>
        rw [Decidable.not_not] at hb
        cases h
        -- eagle drops the last row
        refine ⟨h1.dropLast, ?_, hb ▸ Nat.dvd_mul_left _ _⟩
        rw [length_dropLast]
        omega
    · cases h
      exact ⟨h1, h2, h3⟩
  · rw [slidingWindowHit, if_pos (Nat.not_le.mp hkeys)] at h
    cases h

theorem chunkedLocalAttentionHit_eq {blockSize chunk alignment : Nat}
    (h : chunkedLocalAttentionHit lookup width numKeys blockSize chunk maxLength alignment useEagle = .ok rows)
    :
    blockSize = alignment ∧ ∃ hits, rows = List.replicate (maxLength / chunk * chunk / blockSize)
        (List.replicate width 0) ++ hits ∧ rows.length ≤ maxLength / blockSize ∧
      ∀ j row, hits[j]? = some row →
        lookup (maxLength / chunk * chunk / blockSize + j) = some row := by
  unfold chunkedLocalAttentionHit at h
  split at h
  · cases h
  split at h
  · cases h
  next hb =>
  rw [Decidable.not_not] at hb
  obtain ⟨hits, hloop, h⟩ := except_bind_eq_ok.mp h
  have h := Except.ok.inj h
  obtain ⟨hlen, hget⟩ := chunkedLoop_rows hloop
  have hstart : maxLength / chunk * chunk / blockSize ≤ maxLength / blockSize :=
    Nat.div_le_div_right (Nat.div_mul_le_self _ _)
  refine ⟨hb, hits, h.symm, ?_, hget⟩
  rw [← h, length_append, length_replicate]
  omega

theorem chunkedLocalAttentionHit_spec {blockSize chunk alignment : Nat}
    (h : chunkedLocalAttentionHit lookup width numKeys blockSize chunk maxLength alignment useEagle = .ok rows)
    :
    RowsFrom lookup width rows ∧ rows.length ≤ maxLength / blockSize ∧
      alignment ∣ rows.length * blockSize := by
  obtain ⟨hb, hits, rfl, hlen, hget⟩ := chunkedLocalAttentionHit_eq h
  exact ⟨rowsFrom_nulls_append hget, hlen, hb ▸ Nat.dvd_mul_left _ _⟩

theorem findLongestCacheHit_spec {spec : KVCacheSpec} {alignment : Nat}
    (h : spec.findLongestCacheHit lookup width numKeys maxLength alignment useEagle = .ok rows) :
    RowsFrom lookup width rows ∧ rows.length ≤ maxLength / spec.blockSize ∧
      alignment ∣ rows.length * spec.blockSize := by
  unfold KVCacheSpec.findLongestCacheHit at h
  split at h
  · cases h
    have hscan : RowsFrom lookup width
        (scanForward lookup (min (maxLength / spec.blockSize) numKeys) 0) := fun i row hi =>
      .inr (by simpa using getElem?_scanForward hi)
    have hlen := @length_scanForward_le lookup (min (maxLength / spec.blockSize) numKeys) 0
    set computed := if useEagle = true
      then (scanForward lookup (min (maxLength / spec.blockSize) numKeys) 0).dropLast
      else scanForward lookup (min (maxLength / spec.blockSize) numKeys) 0 with hcomputed
    have hc : RowsFrom lookup width computed ∧ computed.length ≤ maxLength / spec.blockSize := by
      cases useEagle with
      | true => exact ⟨hscan.dropLast, by simp [hcomputed]; omega⟩
      | false => exact ⟨hscan, by simp [hcomputed]; omega⟩
    have hspec := alignedLength_spec spec.blockSize alignment computed.length
    refine ⟨hc.1.take _, ?_, ?_⟩
    · exact (length_popUnaligned computed).symm ▸ hspec.1.trans hc.2
    · exact (length_popUnaligned computed).symm ▸ hspec.2.1
  · exact slidingWindowHit_spec h
  · exact chunkedLocalAttentionHit_spec h
  · unfold mambaHit at h
    dsimp only at h
    split at h
    · cases h
    · cases h
      exact mambaLoop_rows _

end

/-! ## What the coordinators return -/

theorem exists_mem_addGroup {gs : List AttentionGroup} {spec spec' : KVCacheSpec} {i j : Nat} :
    (∃ g ∈ addGroup gs (spec, i), g.spec = spec' ∧ j ∈ g.groupIds) ↔
      (∃ g ∈ gs, g.spec = spec' ∧ j ∈ g.groupIds) ∨ spec' = spec ∧ j = i := by
  induction gs with
  | nil => simp [addGroup, eq_comm]
  | cons g gs ih =>
    rw [addGroup]
    split
    · next h =>
      subst h
      simp only [mem_cons, exists_eq_or_imp, mem_append, not_mem_nil, or_false]
      constructor
      · rintro (⟨rfl, hj | hj⟩ | h)
        · exact .inl (.inl ⟨rfl, hj⟩)
        · exact .inr ⟨rfl, hj⟩
        · exact .inl (.inr h)
      · rintro ((⟨rfl, hj⟩ | h) | ⟨rfl, hj⟩)
        · exact .inl ⟨rfl, .inl hj⟩
        · exact .inr h
        · exact .inl ⟨rfl, .inr hj⟩
    · simp only [mem_cons, exists_eq_or_imp, ih, or_assoc]

theorem attentionGroups_perm : (attentionGroups groups).Perm (groups.zipIdx.foldl addGroup []) := by
  simpa [attentionGroups] using filter_append_perm
    (fun g : AttentionGroup => g.spec.isFullAttention) (groups.zipIdx.foldl addGroup [])

theorem exists_mem_attentionGroups {spec : KVCacheSpec} {i : Nat} :
    (∃ g ∈ attentionGroups groups, g.spec = spec ∧ i ∈ g.groupIds) ↔ groups[i]? = some spec := by
  have hfold : ∀ (l : List (KVCacheSpec × Nat)) (gs : List AttentionGroup),
      (∃ g ∈ l.foldl addGroup gs, g.spec = spec ∧ i ∈ g.groupIds) ↔
        (∃ g ∈ gs, g.spec = spec ∧ i ∈ g.groupIds) ∨ (spec, i) ∈ l := by
    intro l
    induction l with
    | nil => simp
    | cons e l ih =>
      intro gs
      rw [foldl_cons, ih, exists_mem_addGroup, mem_cons, or_assoc, Prod.ext_iff]
  simp only [attentionGroups_perm.mem_iff, hfold, mem_zipIdx_iff_getElem?]
  simp

theorem forall_mem_attentionGroups {groups : List KVCacheSpec} {P : AttentionGroup → Prop}
    (hnew : ∀ spec i, P { spec, groupIds := [i] })
    (hmore : ∀ g i, P g → P { g with groupIds := g.groupIds ++ [i] }) :
    ∀ g ∈ attentionGroups groups, P g := by
  have hadd : ∀ (gs : List AttentionGroup) e, (∀ g ∈ gs, P g) → ∀ g ∈ addGroup gs e, P g := by
    intro gs e hgs
    induction gs with
    | nil => simpa [addGroup] using hnew e.1 e.2
    | cons g gs ih =>
      rw [addGroup]
      split
      · simpa using ⟨hmore g e.2 (hgs g (by simp)), fun g' hg' => hgs g' (by simp [hg'])⟩
      · simpa using ⟨hgs g (by simp), ih fun g' hg' => hgs g' (by simp [hg'])⟩
  intro g hg
  exact foldlRecOn (motive := fun gs => ∀ g ∈ gs, P g) groups.zipIdx addGroup (by simp)
    (fun gs hgs e _ => hadd gs e hgs) g (attentionGroups_perm.subset hg)

theorem mem_attentionGroups_rows : ∀ g ∈ attentionGroups groups, g.rows = none :=
  forall_mem_attentionGroups (fun _ _ => rfl) fun _ _ h => h

theorem groupIds_ne_nil : ∀ g ∈ attentionGroups groups, g.groupIds ≠ [] :=
  forall_mem_attentionGroups (by simp) (by simp)

theorem blockSize_dvd_lcmBlockSize {g : AttentionGroup} (h : g ∈ attentionGroups groups) :
    g.spec.blockSize ∣ lcmBlockSize groups := by
  have hfold : ∀ (gs : List AttentionGroup) (n : Nat),
      n ∣ gs.foldl (fun n g => n.lcm g.spec.blockSize) n ∧
        ∀ g ∈ gs, g.spec.blockSize ∣ gs.foldl (fun n g => n.lcm g.spec.blockSize) n := by
    intro gs
    induction gs with
    | nil => simp
    | cons g gs ih =>
      intro n
      have := ih (n.lcm g.spec.blockSize)
      refine ⟨Nat.dvd_trans (Nat.dvd_lcm_left _ _) this.1, fun g' hg' => ?_⟩
      rcases mem_cons.mp hg' with rfl | hg'
      · exact Nat.dvd_trans (Nat.dvd_lcm_right _ _) this.1
      · exact this.2 g' hg'
  exact (hfold _ 1).2 g h

def AttentionGroup.group (g : AttentionGroup) : KVCacheSpec × List Nat := (g.spec, g.groupIds)

theorem exists_mem_of_group_eq {as bs : List AttentionGroup}
    (h : as.map AttentionGroup.group = bs.map AttentionGroup.group) {a : AttentionGroup}
    (ha : a ∈ as) : ∃ b ∈ bs, b.spec = a.spec ∧ b.groupIds = a.groupIds := by
  obtain ⟨b, hb, he⟩ := mem_map.mp (h ▸ mem_map_of_mem ha)
  exact ⟨b, hb, Prod.mk.inj he⟩

section
variable {find : KVCacheSpec → List Nat → Nat → Except PyError (List Row)}

inductive HitPass (find : KVCacheSpec → List Nat → Nat → Except PyError (List Row)) :
    List AttentionGroup → Nat → List AttentionGroup → Nat → Prop where
  | nil (n : Nat) : HitPass find [] n [] n
  | keep {g gs n gs' n'} (hfull : g.spec.isFullAttention = true) (hrows : g.rows.isSome)
      (h : HitPass find gs (n / g.spec.blockSize * g.spec.blockSize) gs' n') :
      HitPass find (g :: gs) n (g :: gs') n'
  | look {g gs n gs' n' rows} (hnew : g.spec.isFullAttention = true → g.rows = none)
      (hfind : find g.spec g.groupIds n = .ok rows)
      (h : HitPass find gs (rows.length * g.spec.blockSize) gs' n') :
      HitPass find (g :: gs) n ({ g with rows := some rows } :: gs') n'

variable {gs gs' : List AttentionGroup} {n n' : Nat}

theorem hitPass_ok (h : hitPass find gs n = .ok (gs', n')) : HitPass find gs n gs' n' := by
  induction gs generalizing n gs' n' with
  | nil =>
    cases h
    exact .nil n
  | cons g gs ih =>
    rw [hitPass] at h
    split at h
    · next rows hfull hrows =>
      obtain ⟨_, hrest, h⟩ := except_bind_eq_ok.mp h
      cases h
      exact .keep hfull (by simp [hrows]) (ih hrest)
    · next hcase =>
      obtain ⟨rows, hfind, h⟩ := except_bind_eq_ok.mp h
      obtain ⟨_, hrest, h⟩ := except_bind_eq_ok.mp h
      cases h
      refine .look (fun hfull => ?_) hfind (ih hrest)
      rcases hrows : g.rows with _ | rows'
      · rfl
      · exact absurd hrows (hcase rows' hfull)

variable {lookup : KVCacheSpec → List Nat → Nat → Option Row} {alignment : Nat}

def AttentionGroup.Found (lookup : KVCacheSpec → List Nat → Nat → Option Row) (n : Nat)
    (g : AttentionGroup) : Prop :=
  ∃ rows, g.rows = some rows ∧ RowsFrom (lookup g.spec g.groupIds) g.groupIds.length rows ∧
    n ≤ rows.length * g.spec.blockSize

def SoundFind (find : KVCacheSpec → List Nat → Nat → Except PyError (List Row))
    (lookup : KVCacheSpec → List Nat → Nat → Option Row) (alignment : Nat) : Prop :=
  ∀ spec ids n rows, find spec ids n = .ok rows →
    RowsFrom (lookup spec ids) ids.length rows ∧ rows.length * spec.blockSize ≤ n ∧
      alignment ∣ rows.length * spec.blockSize

theorem HitPass.group_eq (h : HitPass find gs n gs' n') :
    gs'.map AttentionGroup.group = gs.map AttentionGroup.group := by
  induction h with
  | nil => rfl
  | keep _ _ _ ih => simp [ih]
  | look _ _ _ ih => simp [ih, AttentionGroup.group]

theorem HitPass.found (h : HitPass find gs n gs' n') (hfind : SoundFind find lookup alignment)
    (hdvd : ∀ g ∈ gs, g.spec.blockSize ∣ alignment)
    (hpre : ∀ g ∈ gs, g.rows.isSome → g.Found lookup n ∧ alignment ∣ n) :
    n' ≤ n ∧ (alignment ∣ n ∨ gs ≠ [] → alignment ∣ n') ∧ ∀ g ∈ gs', g.Found lookup n' := by
  induction h with
  | nil n => simp
  | @keep g gs n gs' n' hfull hrows h ih =>
    obtain ⟨⟨rows, hr, hfrom, hle⟩, hal⟩ := hpre g (by simp) hrows
    have hn : n / g.spec.blockSize * g.spec.blockSize = n :=
      Nat.div_mul_cancel (Nat.dvd_trans (hdvd g (by simp)) hal)
    rw [hn] at ih
    obtain ⟨h1, h2, h3⟩ := ih (fun g hg => hdvd g (by simp [hg]))
      (fun g hg => hpre g (by simp [hg]))
    refine ⟨h1, fun _ => h2 (.inl hal), fun g' hg' => ?_⟩
    rcases mem_cons.mp hg' with rfl | hg'
    · exact ⟨rows, hr, hfrom, h1.trans hle⟩
    · exact h3 g' hg'
  | @look g gs n gs' n' rows hnew hrows h ih =>
    obtain ⟨hfrom, hle, hal⟩ := hfind _ _ _ _ hrows
    obtain ⟨h1, h2, h3⟩ := ih (fun g hg => hdvd g (by simp [hg])) fun g hg hs => by
      obtain ⟨⟨rows', hr, hfrom', hle'⟩, -⟩ := hpre g (by simp [hg]) hs
      exact ⟨⟨rows', hr, hfrom', hle.trans hle'⟩, hal⟩
    refine ⟨h1.trans hle, fun _ => h2 (.inl hal), fun g' hg' => ?_⟩
    rcases mem_cons.mp hg' with rfl | hg'
    · exact ⟨rows, rfl, hfrom, h1⟩
    · exact h3 g' hg'

theorem hitLoop_found {simple : Bool} (h : hitLoop find simple gs n = .ok (gs', n')) (hgs : gs ≠ [])
    (hfind : SoundFind find lookup alignment) (hdvd : ∀ g ∈ gs, g.spec.blockSize ∣ alignment)
    (hpre : ∀ g ∈ gs, g.rows.isSome → g.Found lookup n ∧ alignment ∣ n) :
    n' ≤ n ∧ alignment ∣ n' ∧ (∀ g ∈ gs', g.Found lookup n') ∧
      gs'.map AttentionGroup.group = gs.map AttentionGroup.group := by
  induction n using Nat.strong_induction_on generalizing gs with
  | _ n ih =>
    rw [hitLoop] at h
    rcases hpass : hitPass find gs n with e | ⟨gs₁, n₁⟩
    · simp [hpass] at h
    obtain ⟨h1, h2, h3⟩ := (hitPass_ok hpass).found hfind hdvd hpre
    have h4 := (hitPass_ok hpass).group_eq
    have hal := h2 (.inr hgs)
    rw [hpass] at h
    dsimp only at h
    split at h
    · next hge =>
      cases h
      obtain rfl : n₁ = n' := le_antisymm h1 hge
      exact ⟨le_refl _, hal, h3, h4⟩
    split at h
    · cases h
      exact ⟨h1, hal, h3, h4⟩
    · next hlt _ =>
      have hdvd' : ∀ g ∈ gs₁, g.spec.blockSize ∣ alignment := by
        intro g hg
        obtain ⟨g₀, hg₀, hspec, -⟩ := exists_mem_of_group_eq h4 hg
        exact hspec ▸ hdvd g₀ hg₀
      have hne : gs₁ ≠ [] := by
        rintro rfl
        simp only [map_nil] at h4
        exact hgs (map_eq_nil_iff.mp h4.symm)
      obtain ⟨k1, k2, k3, k4⟩ := ih n₁ (Nat.not_le.mp hlt) h hne hdvd'
        fun g hg _ => ⟨h3 g hg, hal⟩
      exact ⟨k1.trans h1, k2, k3, k4.trans h4⟩

theorem truncateFirst_found (h : ∀ g ∈ gs, g.Found lookup n) (hdvd : ∀ g ∈ gs, g.spec.blockSize ∣ n)
    :
    ∀ g ∈ truncateFirst n gs, g.Found lookup n := by
  cases gs with
  | nil => simp [truncateFirst]
  | cons g gs =>
    rw [truncateFirst]
    split
    · intro g' hg'
      rcases mem_cons.mp hg' with rfl | hg'
      · obtain ⟨rows, hr, hfrom, hlen⟩ := h g (by simp)
        refine ⟨rows.take (n / g.spec.blockSize), by simp [hr], hfrom.take _, ?_⟩
        have hq : n / g.spec.blockSize ≤ rows.length :=
          Nat.div_le_of_le_mul (by rwa [Nat.mul_comm])
        rw [length_take, Nat.min_eq_left hq, Nat.div_mul_cancel (hdvd g (by simp))]
      · exact h g' (by simp [hg'])
    · exact h

end

theorem truncateFirst_group (n : Nat) (gs : List AttentionGroup) :
    (truncateFirst n gs).map AttentionGroup.group = gs.map AttentionGroup.group := by
  cases gs with
  | nil => rfl
  | cons g gs =>
    rw [truncateFirst]
    split <;> simp [AttentionGroup.group]

section
variable {groups : List KVCacheSpec} {gs : List AttentionGroup}

theorem blockSize_dvd_of_group
    (h : gs.map AttentionGroup.group = (attentionGroups groups).map AttentionGroup.group)
    {g : AttentionGroup} (hg : g ∈ gs) : g.spec.blockSize ∣ lcmBlockSize groups := by
  obtain ⟨g₀, hg₀, hspec, -⟩ := exists_mem_of_group_eq h hg
  exact hspec ▸ blockSize_dvd_lcmBlockSize hg₀

theorem getD_blocksOfGroup (gs : List AttentionGroup) {i : Nat} {spec : KVCacheSpec}
    (h : groups[i]? = some spec) :
    ((List.range groups.length).map (blocksOfGroup gs)).getD i [] = blocksOfGroup gs i := by
  have hi := (List.getElem?_eq_some_iff.mp h).1
  simp [getElem?_range hi]

theorem blocksOfGroup_eq
    (h : gs.map AttentionGroup.group = (attentionGroups groups).map AttentionGroup.group)
    (i : Nat) (spec : KVCacheSpec) (hspec : groups[i]? = some spec) :
    ∃ g ∈ gs, g.spec = spec ∧ i ∈ g.groupIds ∧
      blocksOfGroup gs i = (g.rows.getD []).map fun row => row.getD (g.groupIds.idxOf i) 0 := by
  unfold blocksOfGroup
  rcases hf : gs.find? (i ∈ ·.groupIds) with _ | g
  · obtain ⟨g₀, hg₀, -, hi⟩ := exists_mem_attentionGroups.mpr hspec
    obtain ⟨g, hg, -, hids⟩ := exists_mem_of_group_eq h.symm hg₀
    exact absurd (hids ▸ hi) (by simpa using find?_eq_none.mp hf g hg)
  · have hi : i ∈ g.groupIds := by simpa using find?_some hf
    have hg := mem_of_find?_eq_some hf
    obtain ⟨g₀, hg₀, hs₀, hids⟩ := exists_mem_of_group_eq h hg
    have hs := exists_mem_attentionGroups.mp ⟨g₀, hg₀, hs₀, hids ▸ hi⟩
    exact ⟨g, hg, Option.some.inj (hs.symm.trans hspec), hi, by simp only [hf]⟩

end

section
variable {D : Type} [DecidableEq D] {p : BlockPool (BlockKey D)} {hash : List D} {ids : List Nat}

theorem getCachedBlock_isSome : (p.getCachedBlock (ids.map fun g => (hash, g))).isSome ↔
    ∀ g ∈ ids, (p.cachedBlockHashToBlock.getOneBlock (hash, g)).isSome := by
  unfold BlockPool.getCachedBlock
  induction ids with
  | nil => simp
  | cons g ids ih =>
    rw [map_cons, mapM_cons, forall_mem_cons, ← ih]
    rcases p.cachedBlockHashToBlock.getOneBlock (hash, g) with _ | b
    · simp
    · rcases (ids.map fun g => (hash, g)).mapM p.cachedBlockHashToBlock.getOneBlock with _ | rest
        <;> simp

theorem getElem?_getCachedBlock {row : Row} {k g : Nat}
    (h : p.getCachedBlock (ids.map fun g => (hash, g)) = some row) (hg : ids[k]? = some g) :
    ∃ b, row[k]? = some b ∧ p.cachedBlockHashToBlock.getOneBlock (hash, g) = some b := by
  unfold BlockPool.getCachedBlock at h
  induction ids generalizing k row with
  | nil => simp at hg
  | cons g' ids ih =>
    rw [map_cons, mapM_cons] at h
    rcases hone : p.cachedBlockHashToBlock.getOneBlock (hash, g') with _ | b
    · simp [hone] at h
    rcases hrest : (ids.map fun g => (hash, g)).mapM p.cachedBlockHashToBlock.getOneBlock
      with _ | rest
    · simp [hone, hrest] at h
    obtain rfl : b :: rest = row := by simpa [hone, hrest] using h
    cases k with
    | zero =>
      obtain rfl : g' = g := by simpa using hg
      exact ⟨b, rfl, hone⟩
    | succ k =>
      obtain ⟨b', hb', hc⟩ := ih hrest (by simpa using hg)
      exact ⟨b', by simpa using hb', hc⟩

end

namespace KVCacheConfig
variable {D : Type} [DecidableEq D] {cfg : KVCacheConfig} {p : BlockPool (BlockKey D)}
  {blockHashes : List D}

theorem getOneBlock_of_column {spec : KVCacheSpec} {ids : List Nat} {rows : List Row}
    (h : RowsFrom (cfg.lookup p blockHashes spec ids) ids.length rows) {i j b : Nat}
    (hi : i ∈ ids) (hb : (rows.map fun row => row.getD (ids.idxOf i) 0)[j]? = some b) (h0 : b ≠ 0) :
    p.cachedBlockHashToBlock.getOneBlock (cfg.blockKey spec blockHashes j, i) = some b := by
  rw [getElem?_map, Option.map_eq_some_iff] at hb
  obtain ⟨row, hrow, rfl⟩ := hb
  rcases h j row hrow with rfl | hlook
  · refine absurd ?_ h0
    rw [getD_eq_getElem?_getD, getElem?_replicate]
    split <;> rfl
  · have hidx : ids[ids.idxOf i]? = some i := by
      rw [getElem?_eq_getElem (idxOf_lt_length_of_mem hi), getElem_idxOf]
    obtain ⟨b, hb, hone⟩ := getElem?_getCachedBlock hlook hidx
    rw [getD_eq_getElem?_getD, hb]
    exact hone

theorem soundFind (cfg : KVCacheConfig) (p : BlockPool (BlockKey D)) (blockHashes : List D)
    (alignment : Nat) :
    SoundFind (cfg.findHit p blockHashes alignment) (cfg.lookup p blockHashes) alignment := by
  intro spec ids n rows h
  obtain ⟨h1, h2, h3⟩ := findLongestCacheHit_spec h
  exact ⟨h1, (Nat.le_div_iff_mul_le spec.blockSize_pos).mp h2, h3⟩

/-- A hit of `n` tokens: each group's list reaches up to `n` tokens, and its blocks are null blocks
or cached for the group under the hash of their place. -/
structure IsHit (cfg : KVCacheConfig) (p : BlockPool (BlockKey D)) (blockHashes : List D)
    (blocks : List (List Nat)) (n : Nat) : Prop where
  length_eq : blocks.length = cfg.groups.length
  le_length : ∀ g spec, cfg.groups[g]? = some spec → n ≤ (blocks.getD g []).length * spec.blockSize
  cached : ∀ g spec, cfg.groups[g]? = some spec → ∀ i b, (blocks.getD g [])[i]? = some b → b ≠ 0 →
    p.cachedBlockHashToBlock.getOneBlock (cfg.blockKey spec blockHashes i, g) = some b

theorem hybridHit_isHit {maxLength n : Nat} {blocks : List (List Nat)}
    (hgs : attentionGroups cfg.groups ≠ [])
    (h : cfg.hybridHit p blockHashes maxLength = .ok (blocks, n)) :
    cfg.IsHit p blockHashes blocks n ∧ n ≤ maxLength := by
  unfold hybridHit at h
  obtain ⟨⟨gs, n₁⟩, hloop, h⟩ := except_bind_eq_ok.mp h
  cases h
  obtain ⟨hle, hal, hfound, hsame⟩ := hitLoop_found hloop hgs
    (soundFind cfg p blockHashes (lcmBlockSize cfg.groups))
    (fun g hg => blockSize_dvd_lcmBlockSize hg)
    (fun g hg hs => by simp [mem_attentionGroups_rows g hg] at hs)
  have hcut := truncateFirst_found hfound fun g hg =>
    Nat.dvd_trans (blockSize_dvd_of_group hsame hg) hal
  have hgroup := blocksOfGroup_eq ((truncateFirst_group n gs).trans hsame)
  refine ⟨⟨by simp, fun i spec hspec => ?_, fun i spec hspec j b hb h0 => ?_⟩, hle⟩
  · obtain ⟨g, hg, rfl, hi, hblocks⟩ := hgroup i spec hspec
    obtain ⟨rows, hr, -, hlen⟩ := hcut g hg
    rw [getD_blocksOfGroup _ hspec, hblocks, hr]
    simpa using hlen
  · obtain ⟨g, hg, rfl, hi, hblocks⟩ := hgroup i spec hspec
    obtain ⟨rows, hr, hfrom, -⟩ := hcut g hg
    rw [getD_blocksOfGroup _ hspec, hblocks, hr] at hb
    exact getOneBlock_of_column hfrom hi hb h0

theorem findLongestCacheHit_isHit {maxLength n : Nat} {blocks : List (List Nat)}
    (h : cfg.findLongestCacheHit p blockHashes maxLength = .ok (blocks, n)) :
    cfg.IsHit p blockHashes blocks n ∧ n ≤ maxLength := by
  unfold findLongestCacheHit at h
  split at h
  · next hcaching =>
    split at h
    · next spec hspec =>
      unfold unitaryHit at h
      obtain ⟨rows, hfind, h⟩ := except_bind_eq_ok.mp h
      cases h
      obtain ⟨hfrom, hle, -⟩ := soundFind cfg p blockHashes spec.blockSize _ _ _ _ hfind
      have hone : ∀ g s, cfg.groups[g]? = some s → g = 0 ∧ s = spec := by
        intro g s hs
        rw [hspec, getElem?_singleton] at hs
        split at hs
        · exact ⟨‹_›, (Option.some.inj hs).symm⟩
        · cases hs
      refine ⟨⟨by simp [hspec], fun g s hs => ?_, fun g s hs i b hb h0 => ?_⟩, hle⟩
      · obtain ⟨rfl, rfl⟩ := hone g s hs
        simp
      · obtain ⟨rfl, rfl⟩ := hone g s hs
        exact getOneBlock_of_column hfrom (by simp) (by simpa using hb) h0
    · next hne =>
      refine hybridHit_isHit (fun hnil => ?_) h
      have := cfg.hybrid hcaching fun hlen => ?_
      · simp [hnil] at this
      · obtain ⟨spec, hs⟩ := length_eq_one_iff.mp hlen
        exact hne spec hs
  · cases h
    refine ⟨⟨by simp, by simp, fun g spec hs i b hb _ => ?_⟩, Nat.zero_le _⟩
    rw [getD_eq_getElem?_getD, getElem?_map, hs] at hb
    simp at hb

end KVCacheConfig

end Vllm
