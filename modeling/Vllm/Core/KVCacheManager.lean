import Vllm.Core.BlockHashing
import Vllm.Core.CacheHit

/-! The KV cache manager: `kv_cache_manager.py`, the loops of `kv_cache_coordinator.py` over the
groups, and what `single_type_kv_cache_manager.py` does for one group.

The dictionaries of the managers are kept as one, keyed by group id and request id. The `align`
mode of Mamba, cross attention, attention sinks, metrics and the ids of new blocks for zeroing are
left out. -/

namespace Vllm
open Base

structure Tables (D : Type) where
  reqToBlocks : Dict (Nat × String) (List Nat) := ∅
  numCachedBlock : Dict (Nat × String) Nat := ∅
  cachedBlocksThisStep : List (Nat × BlockKey D) := []

abbrev KVState (D : Type) := BlockPool (BlockKey D) × Tables D

abbrev KVCall (D β : Type) := PoolCall (BlockKey D) (Tables D) β

section
variable {D : Type}

def Tables.blocks (t : Tables D) (g : Nat) (requestId : String) : List Nat :=
  (t.reqToBlocks.get? (g, requestId)).getD []

def Tables.setBlocks (t : Tables D) (g : Nat) (requestId : String) (blocks : List Nat) :
    Tables D :=
  { t with reqToBlocks := t.reqToBlocks.set (g, requestId) blocks }

def Tables.setNumCached (t : Tables D) (g : Nat) (requestId : String) (n : Nat) : Tables D :=
  { t with numCachedBlock := t.numCachedBlock.set (g, requestId) n }

def modifyTables (f : Tables D → Tables D) : KVCall D Unit := Call.modify fun s => (s.1, f s.2)

/-- `self.req_to_blocks[request_id]`, which enters an empty list for a new request. -/
def tableOf (g : Nat) (requestId : String) : KVCall D (List Nat) := do
  modifyTables fun t => t.setBlocks g requestId (t.blocks g requestId)
  Call.gets fun s => s.2.blocks g requestId

def extendTable (g : Nat) (requestId : String) (blocks : List Nat) : KVCall D Unit :=
  modifyTables fun t => t.setBlocks g requestId (t.blocks g requestId ++ blocks)

end

namespace KVCacheSpec

def getNumSkippedTokens (spec : KVCacheSpec) (numComputedTokens : Nat) : Nat :=
  match spec.attention with
  | .fullAttention => 0
  | .slidingWindow window => numComputedTokens + 1 - window
  | .chunkedLocalAttention attentionChunkSize =>
    numComputedTokens / attentionChunkSize * attentionChunkSize
  | .mamba _ => numComputedTokens - 1

def numSkippedBlocks (spec : KVCacheSpec) (numComputedTokens : Nat) : Nat :=
  spec.getNumSkippedTokens numComputedTokens / spec.blockSize

def numSpeculativeBlocks (spec : KVCacheSpec) : Nat :=
  match spec.attention with
  | .mamba numSpeculativeBlocks => numSpeculativeBlocks
  | _ => 0

def isMamba (spec : KVCacheSpec) : Bool :=
  match spec.attention with
  | .mamba _ => true
  | _ => false

end KVCacheSpec

/-! ## The manager of one group -/

section
variable {D : Type} [DecidableEq D] (spec : KVCacheSpec) (g : Nat) (requestId : String)

def getNumEvictableBlocks (p : BlockPool (BlockKey D)) (blocks : List Nat) : Nat :=
  blocks.countP fun b => p.refCnt b = 0 ∧ p.isNull b = false

def baseNumBlocksToAllocate (numTokens : Nat) (newComputedBlocks : List Nat)
    (totalComputedTokens : Nat) : KVCall D Nat := do
  let s ← Call.get
  let numRequiredBlocks := cdiv numTokens spec.blockSize
  let numReqBlocks := (s.2.blocks g requestId).length
  if s.2.numCachedBlock.contains (g, requestId) then
    Call.check (newComputedBlocks.length = 0) (.assertionError "")
    return numRequiredBlocks - numReqBlocks
  else
    let numSkippedBlocks := spec.numSkippedBlocks totalComputedTokens
    let numLocalComputedBlocks := newComputedBlocks.length + numReqBlocks
    let numNewBlocks := numRequiredBlocks - max numSkippedBlocks numLocalComputedBlocks
    return numNewBlocks +
      getNumEvictableBlocks s.1 (newComputedBlocks.drop (numSkippedBlocks - numReqBlocks))

/-- The last hit is a state that another request computes in this step. -/
def hitThisStep (s : KVState D) (newComputedBlocks : List Nat) : Bool :=
  match newComputedBlocks.getLast?.bind s.1.hash with
  | none => false
  | some key => (g, key) ∈ s.2.cachedBlocksThisStep

/-- Mamba waits a step for a state that another request computes in this step, and allocates blocks
for draft tokens. -/
def getNumBlocksToAllocate (numTokens : Nat) (newComputedBlocks : List Nat)
    (totalComputedTokens : Nat) : KVCall D Nat := do
  let s ← Call.get
  if spec.isMamba && hitThisStep g s newComputedBlocks then return s.1.numGpuBlocks + 1
  else
    baseNumBlocksToAllocate spec g requestId
      (numTokens + spec.blockSize * spec.numSpeculativeBlocks) newComputedBlocks totalComputedTokens

/-- `get_new_blocks(n)` for a number that may be negative: then no block is popped and the counter
of the free queue is lowered by the negative number. -/
def getNewBlocksInt (n : Int) : KVCall D (List Nat) :=
  if 0 ≤ n then BlockPool.getNewBlocks Hooks.none n.toNat
  else do
    BlockPool.modifyPool fun p => p.setFree p.free (p.getNumFreeBlocks - n)
    return []

def allocateExternal (numTotalComputedTokens numExternalComputedTokens : Nat) : KVCall D Unit :=
  if numExternalComputedTokens > 0 then do
    let reqBlocks ← tableOf g requestId
    let allocated ← getNewBlocksInt
      ((cdiv numTotalComputedTokens spec.blockSize : Int) - reqBlocks.length)
    extendTable g requestId allocated
  else return ()

def touchComputed (enableCaching : Bool) (newComputedBlocks : List Nat) : KVCall D Unit :=
  if enableCaching then BlockPool.touch Hooks.none newComputedBlocks
  else Call.check newComputedBlocks.isEmpty
    (.assertionError "Computed blocks should be empty when prefix caching is disabled")

def addComputedBlocks (enableCaching : Bool) (newComputedBlocks : List Nat)
    (numLocalComputedTokens numExternalComputedTokens : Nat) : KVCall D Unit := do
  let reqBlocks ← tableOf g requestId
  Call.check (reqBlocks.length = 0) (.assertionError "")
  let numTotalComputedTokens := numLocalComputedTokens + numExternalComputedTokens
  let numSkippedTokens := spec.getNumSkippedTokens numTotalComputedTokens
  let numSkippedBlocks := numSkippedTokens / spec.blockSize
  let newComputedBlocks := newComputedBlocks.drop numSkippedBlocks
  let numExternalComputedTokens :=
    if numSkippedBlocks > 0 then
      min (numTotalComputedTokens - numSkippedTokens) numExternalComputedTokens
    else numExternalComputedTokens
  touchComputed enableCaching newComputedBlocks
  extendTable g requestId (List.replicate numSkippedBlocks 0 ++ newComputedBlocks)
  modifyTables fun t => t.setNumCached g requestId (t.blocks g requestId).length
  allocateExternal spec g requestId numTotalComputedTokens numExternalComputedTokens

def allocateNewComputedBlocks (enableCaching : Bool) (newComputedBlocks : List Nat)
    (numLocalComputedTokens numExternalComputedTokens : Nat) : KVCall D Unit := do
  let s ← Call.get
  if s.2.numCachedBlock.contains (g, requestId) then
    Call.check (newComputedBlocks.length = 0) (.assertionError "")
  else
    addComputedBlocks spec g requestId enableCaching newComputedBlocks numLocalComputedTokens
      numExternalComputedTokens

def allocateNewBlocks (numTokens : Nat) : KVCall D (List Nat) := do
  let reqBlocks ← tableOf g requestId
  let numRequiredBlocks :=
    cdiv (numTokens + spec.blockSize * spec.numSpeculativeBlocks) spec.blockSize
  if numRequiredBlocks ≤ reqBlocks.length then return []
  else
    let newBlocks ← BlockPool.getNewBlocks Hooks.none (numRequiredBlocks - reqBlocks.length)
    extendTable g requestId newBlocks
    return newBlocks

def free : KVCall D Unit := do
  let reqBlocks ← Call.gets fun s => s.2.blocks g requestId
  modifyTables fun t => { t with reqToBlocks := t.reqToBlocks.erase (g, requestId) }
  BlockPool.freeBlocks Hooks.none reqBlocks.reverse
  modifyTables fun t => { t with numCachedBlock := t.numCachedBlock.erase (g, requestId) }

/-- How many of the first `n` blocks the loop of `remove_skipped_blocks` leaves: it goes down from
block `n - 1` and stops at the first null block. -/
def numKept (blocks : List Nat) : Nat → Nat
  | 0 => 0
  | n + 1 => if blocks[n]? = some 0 then n + 1 else numKept blocks n

def baseRemoveSkippedBlocks (totalComputedTokens : Nat) : KVCall D Unit :=
  let numSkippedTokens := spec.getNumSkippedTokens totalComputedTokens
  if numSkippedTokens = 0 then return ()
  else do
    let blocks ← tableOf g requestId
    let numSkippedBlocks := min (numSkippedTokens / spec.blockSize) blocks.length
    let kept := numKept blocks numSkippedBlocks
    let removedBlocks := ((blocks.take numSkippedBlocks).drop kept).reverse
    modifyTables fun t => t.setBlocks g requestId
      (blocks.take kept ++ List.replicate (numSkippedBlocks - kept) 0
        ++ blocks.drop numSkippedBlocks)
    BlockPool.freeBlocks Hooks.none removedBlocks

/-- Mamba assumes that all draft tokens of the last step are rejected. -/
def removeSkippedBlocks (totalComputedTokens : Nat) : KVCall D Unit :=
  baseRemoveSkippedBlocks spec g requestId (totalComputedTokens - spec.numSpeculativeBlocks)

end

namespace KVCacheConfig
variable {D : Type} [DecidableEq D] (cfg : KVCacheConfig)

def blockKeys (spec : KVCacheSpec) (g : Nat) (blockHashes : List D) : List (BlockKey D) :=
  (List.range (cfg.numKeys spec blockHashes)).map fun i => (cfg.blockKey spec blockHashes i, g)

def baseCacheBlocks (spec : KVCacheSpec) (g : Nat) (r : Request D) (numTokens : Nat) :
    KVCall D Unit := do
  let s ← Call.get
  let numCachedBlocks := (s.2.numCachedBlock.get? (g, r.requestId)).getD 0
  let numFullBlocks := numTokens / spec.blockSize
  if numCachedBlocks ≥ numFullBlocks then return ()
  else
    let blocks ← tableOf g r.requestId
    BlockPool.cacheFullBlocks r.blockHashes.length (cfg.blockKeys spec g r.blockHashes) blocks
      numCachedBlocks numFullBlocks
    modifyTables fun t => t.setNumCached g r.requestId numFullBlocks

def markCached (g : Nat) (b : Nat) : KVCall D Unit := do
  let s ← Call.get
  if s.1.isNull b then return ()
  else
    match s.1.hash b with
    | none => Call.raise (.assertionError "")
    | some key =>
      modifyTables fun t => { t with cachedBlocksThisStep := (g, key) :: t.cachedBlocksThisStep }

def cacheBlocksOfGroup (spec : KVCacheSpec) (g : Nat) (r : Request D) (numTokens : Nat) :
    KVCall D Unit := do
  let before ← Call.gets fun s => (s.2.numCachedBlock.get? (g, r.requestId)).getD 0
  cfg.baseCacheBlocks spec g r numTokens
  let s ← Call.get
  let after := (s.2.numCachedBlock.get? (g, r.requestId)).getD 0
  if spec.isMamba then
    Call.forEach (((s.2.blocks g r.requestId).take after).drop before) (markCached g)
  else return ()

/-! ## The coordinator: every call goes over the groups -/

def getNumBlocksToAllocate (requestId : String) (numTokens : Nat)
    (newComputedBlocks : List (List Nat)) (totalComputedTokens : Nat) : KVCall D Nat := do
  let counts ← Call.mapEach cfg.groups.zipIdx fun (spec, g) =>
    Vllm.getNumBlocksToAllocate spec g requestId numTokens (newComputedBlocks.getD g [])
      totalComputedTokens
  return counts.sum

def allocateNewComputedBlocks (requestId : String) (newComputedBlocks : List (List Nat))
    (numLocalComputedTokens numExternalComputedTokens : Nat) : KVCall D Unit :=
  Call.forEach cfg.groups.zipIdx fun (spec, g) =>
    Vllm.allocateNewComputedBlocks spec g requestId cfg.enableCaching (newComputedBlocks.getD g [])
      numLocalComputedTokens numExternalComputedTokens

def allocateNewBlocks (requestId : String) (numTokens : Nat) : KVCall D (List (List Nat)) :=
  Call.mapEach cfg.groups.zipIdx fun (spec, g) => Vllm.allocateNewBlocks spec g requestId numTokens

def removeSkippedBlocks (requestId : String) (totalComputedTokens : Nat) : KVCall D Unit :=
  Call.forEach cfg.groups.zipIdx fun (spec, g) =>
    Vllm.removeSkippedBlocks spec g requestId totalComputedTokens

def free (requestId : String) : KVCall D Unit :=
  Call.forEach cfg.groups.zipIdx fun (_, g) => Vllm.free g requestId

def coordinatorCacheBlocks (r : Request D) (numComputedTokens : Nat) : KVCall D Unit :=
  Call.forEach cfg.groups.zipIdx fun (spec, g) =>
    cfg.cacheBlocksOfGroup spec g r numComputedTokens

def getBlocks (s : KVState D) (requestId : String) : List (List Nat) :=
  cfg.groups.zipIdx.map fun (_, g) => s.2.blocks g requestId

def newStepStarts : KVCall D Unit := modifyTables fun t => { t with cachedBlocksThisStep := [] }

/-! ## The manager -/

def init : KVState D := (BlockPool.new cfg.numBlocks cfg.enableCaching, { })

/-- `create_kv_cache_blocks`: `none` is the shared object without blocks. -/
def createKvCacheBlocks (blocks : List (List Nat)) : Option (List (List Nat)) :=
  if blocks.any (· ≠ []) then some blocks else none

def getComputedBlocks (r : Request D) (skipReadingPrefixCache : Bool) :
    KVCall D (Option (List (List Nat)) × Nat) := do
  let s ← Call.get
  if !cfg.enableCaching || skipReadingPrefixCache then return (none, 0)
  else
    match cfg.findLongestCacheHit s.1 r.blockHashes (r.numTokens - 1) with
    | .error e => Call.raise e
    | .ok (blocks, n) => return (createKvCacheBlocks blocks, n)

def cacheBlocks (r : Request D) (numComputedTokens : Nat) : KVCall D Unit :=
  if cfg.enableCaching then cfg.coordinatorCacheBlocks r numComputedTokens else return ()

/-- What one call of `allocate_slots` is given besides the request. Nothing keeps the scheduler from
passing a negative number of new tokens. -/
structure SlotArgs where
  numNewTokens : Int
  numNewComputedTokens : Nat := 0
  newComputedBlocks : Option (List (List Nat)) := none
  numLookaheadTokens : Nat := 0
  numExternalComputedTokens : Nat := 0
  delayCacheBlocks : Bool := false

namespace SlotArgs
variable (a : SlotArgs) (r : Request D)

def hits : List (List Nat) := a.newComputedBlocks.getD []

def numLocalComputedTokens : Nat := r.numComputedTokens + a.numNewComputedTokens

def totalComputedTokens (maxModelLen : Nat) : Nat :=
  min (a.numLocalComputedTokens r + a.numExternalComputedTokens) maxModelLen

def numTokensNeedSlot (maxModelLen : Nat) : Nat :=
  min (a.totalComputedTokens r maxModelLen + a.numNewTokens + a.numLookaheadTokens).toNat maxModelLen

/-- Draft tokens, which may be rejected, are not cached. -/
def numTokensToCache (maxModelLen : Nat) : Nat :=
  min (a.totalComputedTokens r maxModelLen + a.numNewTokens).toNat r.numTokens

end SlotArgs

def placeHits (r : Request D) (a : SlotArgs) : KVCall D Unit :=
  if a.newComputedBlocks.isSome ∨ a.numExternalComputedTokens > 0 then
    cfg.allocateNewComputedBlocks r.requestId a.hits (a.numLocalComputedTokens r)
      a.numExternalComputedTokens
  else return ()

def commitBlocks (r : Request D) (a : SlotArgs) : KVCall D Unit :=
  if !cfg.enableCaching || a.delayCacheBlocks then return ()
  else cfg.coordinatorCacheBlocks r (a.numTokensToCache r cfg.maxModelLen)

def placeBlocks (r : Request D) (a : SlotArgs) : KVCall D (Option (List (List Nat))) := do
  cfg.placeHits r a
  let newBlocks ← cfg.allocateNewBlocks r.requestId (a.numTokensNeedSlot r cfg.maxModelLen)
  cfg.commitBlocks r a
  return createKvCacheBlocks newBlocks

/-- Returns `none` when there are not enough free blocks. -/
def allocateSlots (r : Request D) (a : SlotArgs) :
    KVCall D (Option (Option (List (List Nat)))) := do
  Call.check (a.numNewTokens ≠ 0 ∨ a.numExternalComputedTokens ≠ 0) (.valueError
    "num_new_tokens must be greater than 0 when there are no external computed tokens")
  cfg.removeSkippedBlocks r.requestId (a.totalComputedTokens r cfg.maxModelLen)
  let numBlocksToAllocate ← cfg.getNumBlocksToAllocate r.requestId
    (a.numTokensNeedSlot r cfg.maxModelLen) a.hits
    (a.numLocalComputedTokens r + a.numExternalComputedTokens)
  let s ← Call.get
  if (numBlocksToAllocate : Int) > s.1.getNumFreeBlocks then return none
  else
    let newBlocks ← cfg.placeBlocks r a
    return some newBlocks

def evictBlocks (blockIds : List Nat) : KVCall D Unit := BlockPool.evictBlocks Hooks.none blockIds

def resetPrefixCache : KVCall D Bool := BlockPool.resetPrefixCache

end KVCacheConfig
end Vllm
