import Mathlib.Algebra.Order.Field.Rat
import Mathlib.Data.List.ReduceOption
import Vllm.Base.Call
import Vllm.Base.Dict

/-! The managers of offloaded blocks: `LRUOffloadingManager` and `ARCOffloadingManager` over the
backend of `kv_offload/backends/cpu.py`. A spec of `CPULoadStoreSpec` is the list of its block ids. -/

namespace Vllm.Offload
open Base

/-! ## Blocks and the backend -/

/-- What a `c_int32` field holds after an assignment. -/
def toInt32 (n : Int) : Int := n.bmod (2 ^ 32)

structure CPUBlockStatus where
  refCnt : Int := -1
  blockId : Nat
deriving DecidableEq, Repr

def CPUBlockStatus.isReady (b : CPUBlockStatus) : Bool := b.refCnt ≥ 0

structure CPUBackend where
  blockSize : Nat
  numBlocks : Nat
  numAllocatedBlocks : Nat := 0
  allocatedBlocksFreeList : List Nat := []
  allocated_le : numAllocatedBlocks ≤ numBlocks := by exact Nat.zero_le _

namespace CPUBackend

def getNumFreeBlocks (b : CPUBackend) : Nat :=
  b.allocatedBlocksFreeList.length + (b.numBlocks - b.numAllocatedBlocks)

/-- `list.pop()`, `n` times: the popped ids and the rest. -/
def popMany : Nat → List Nat → List Nat × List Nat
  | 0, ids => ([], ids)
  | n + 1, ids =>
    match ids.getLast? with
    | none => ([], ids)
    | some id => (id :: (popMany n ids.dropLast).1, (popMany n ids.dropLast).2)

/-- Fresh ids first, then those of the free list, from its end. -/
def allocateBlocks (numHashes : Nat) : Call PyError CPUBackend (List CPUBlockStatus) := do
  let b ← Call.get
  let numFreshBlocks := min numHashes (b.numBlocks - b.numAllocatedBlocks)
  let numReusedBlocks := numHashes - numFreshBlocks
  Call.check (b.allocatedBlocksFreeList.length ≥ numReusedBlocks)
    (.assertionError "len(self.allocated_blocks_free_list) >= num_reused_blocks")
  let fresh := List.range' b.numAllocatedBlocks numFreshBlocks
  let (reused, rest) := popMany numReusedBlocks b.allocatedBlocksFreeList
  Call.modify fun b => { b with
    numAllocatedBlocks := b.numAllocatedBlocks + min numHashes (b.numBlocks - b.numAllocatedBlocks)
    allocatedBlocksFreeList := rest
    allocated_le := by have := b.allocated_le; omega }
  return (fresh ++ reused).map fun id => { blockId := id }

def free (b : CPUBackend) (block : CPUBlockStatus) : CPUBackend :=
  { b with allocatedBlocksFreeList := b.allocatedBlocksFreeList ++ [block.blockId] }

end CPUBackend

/-! ## The interface -/

variable {H : Type}

structure PrepareStoreOutput (H : Type) where
  blockHashesToStore : List H
  storeSpec : List Nat
  blockHashesEvicted : List H
deriving DecidableEq, Repr

structure OffloadingEvent (H : Type) where
  blockHashes : List H
  blockSize : Nat
  medium : String := "CPU"
  removed : Bool
deriving DecidableEq, Repr

/-- `if hashes and self.events is not None: self.events.append(…)`. -/
def noteEvent (blockSize : Nat) (removed : Bool) (blockHashes : List H)
    (events : Option (List (OffloadingEvent H))) : Option (List (OffloadingEvent H)) :=
  if blockHashes.isEmpty then events
  else events.map (· ++ [{ blockHashes := blockHashes, blockSize := blockSize, removed := removed }])

/-- The calls of `OffloadingManager`, with the state `M` of the manager. -/
structure OffloadingManager (H M : Type) where
  lookup : List H → M → Nat
  touch : List H → M → M
  prepareLoad : List H → Call PyError M (List Nat)
  completeLoad : List H → Call PyError M Unit
  prepareStore : List H → Call PyError M (Option (PrepareStoreOutput H))
  completeStore : List H → Bool → Call PyError M Unit

variable [DecidableEq H]

def countReady (get? : H → Option CPUBlockStatus) : List H → Nat
  | [] => 0
  | h :: hs =>
    match get? h with
    | none => 0
    | some block => if block.isReady then countReady get? hs + 1 else 0

/-! ## `LRUOffloadingManager` -/

structure LRU (H : Type) where
  backend : CPUBackend
  blocks : Dict H CPUBlockStatus := ∅
  events : Option (List (OffloadingEvent H)) := none

namespace LRU

def new (backend : CPUBackend) (enableEvents : Bool := false) : LRU H where
  backend
  events := if enableEvents then some [] else none

def setBlock (s : LRU H) (h : H) (block : CPUBlockStatus) : LRU H :=
  { s with blocks := s.blocks.set h block }

def blockOf (h : H) : Call PyError (LRU H) CPUBlockStatus := do
  let s ← Call.get
  match s.blocks.get? h with
  | none => Call.raise .keyError
  | some block => return block

def lookup (hs : List H) (s : LRU H) : Nat := countReady s.blocks.get? hs

def prepareLoad (hs : List H) : Call PyError (LRU H) (List Nat) :=
  Call.mapEach hs fun h => do
    let block ← blockOf h
    Call.check block.isReady (.assertionError "block.is_ready")
    Call.modify fun s => s.setBlock h { block with refCnt := toInt32 (block.refCnt + 1) }
    return block.blockId

def touchOne (s : LRU H) (h : H) : LRU H :=
  match s.blocks.get? h with
  | none => s
  | some block => { s with blocks := s.blocks.setLast h block }

def touch (hs : List H) (s : LRU H) : LRU H := hs.reverse.foldl touchOne s

def completeLoad (hs : List H) : Call PyError (LRU H) Unit :=
  Call.forEach hs fun h => do
    let block ← blockOf h
    Call.check (block.refCnt > 0) (.assertionError "block.ref_cnt > 0")
    Call.modify fun s => s.setBlock h { block with refCnt := toInt32 (block.refCnt - 1) }

def findEvictions (protectedHashes : List H) (n : Nat) : List (H × CPUBlockStatus) → Option (List H)
  | [] => none
  | (h, block) :: entries =>
    if block.refCnt = 0 ∧ h ∉ protectedHashes then
      if n - 1 = 0 then some [h] else (findEvictions protectedHashes (n - 1) entries).map (h :: ·)
    else findEvictions protectedHashes n entries

def evict (s : LRU H) (h : H) : LRU H :=
  match s.blocks.get? h with
  | none => s
  | some block => { s with backend := s.backend.free block, blocks := s.blocks.erase h }

def storeBlocks (toStore toEvict : List H) : Call PyError (LRU H) (Option (PrepareStoreOutput H)) := do
  Call.modify fun s => toEvict.foldl evict s
  Call.modify fun s => { s with events := noteEvent s.backend.blockSize true toEvict s.events }
  let blocks ← (CPUBackend.allocateBlocks toStore.length).zoom LRU.backend
    fun backend s => { s with backend }
  Call.check (blocks.length = toStore.length)
    (.assertionError "len(blocks) == len(block_hashes_to_store)")
  Call.modify fun s => (toStore.zip blocks).foldl (fun s e => s.setBlock e.1 e.2) s
  return some { blockHashesToStore := toStore
                storeSpec := blocks.map (·.blockId)
                blockHashesEvicted := toEvict }

def prepareStore (hs : List H) : Call PyError (LRU H) (Option (PrepareStoreOutput H)) := do
  let s ← Call.get
  let toStore := hs.filter fun h => !s.blocks.contains h
  let numBlocksToEvict := toStore.length - s.backend.getNumFreeBlocks
  if numBlocksToEvict > 0 then
    match findEvictions hs numBlocksToEvict s.blocks.entries with
    | none => return none
    | some toEvict => storeBlocks toStore toEvict
  else storeBlocks toStore []

/-- The turn of `complete_store` for a block that was stored; the hash goes to the events. -/
def markStored (h : H) : Call PyError (LRU H) (Option H) := do
  let block ← blockOf h
  if block.isReady then return none
  else do
    Call.modify fun s => s.setBlock h { block with refCnt := 0 }
    return some h

def dropFailed (h : H) : Call PyError (LRU H) Unit := do
  let block ← blockOf h
  if block.isReady then return ()
  else Call.modify fun s => { s with backend := s.backend.free block, blocks := s.blocks.erase h }

def completeStore (hs : List H) (success : Bool) : Call PyError (LRU H) Unit :=
  if success then do
    let stored ← Call.mapEach hs markStored
    Call.modify fun s =>
      { s with events := noteEvent s.backend.blockSize false stored.reduceOption s.events }
  else Call.forEach hs dropFailed

def manager : OffloadingManager H (LRU H) :=
  { lookup, touch, prepareLoad, completeLoad, prepareStore, completeStore }

end LRU

/-! ## `ARCOffloadingManager` -/

/-- How the float arithmetic rounds: it keeps the order and is exact on the sizes of the cache. -/
structure Rounding (capacity : Nat) where
  round : ℚ → ℚ
  mono : Monotone round
  exact : ∀ n ≤ capacity, round n = n

def truncate (q : ℚ) : Int := q.num.tdiv q.den

structure ARC (H : Type) where
  backend : CPUBackend
  targetT1Size : ℚ := 0
  t1 : Dict H CPUBlockStatus := ∅
  t2 : Dict H CPUBlockStatus := ∅
  b1 : Dict H Unit := ∅
  b2 : Dict H Unit := ∅
  events : Option (List (OffloadingEvent H)) := none
  cacheCapacity : Nat

namespace ARC

def new (backend : CPUBackend) (enableEvents : Bool := false) : ARC H where
  backend
  events := if enableEvents then some [] else none
  cacheCapacity := backend.getNumFreeBlocks

def get? (s : ARC H) (h : H) : Option CPUBlockStatus := (s.t1.get? h).or (s.t2.get? h)

def setBlock (s : ARC H) (h : H) (block : CPUBlockStatus) : ARC H :=
  if s.t1.contains h then { s with t1 := s.t1.set h block } else { s with t2 := s.t2.set h block }

def lookup (hs : List H) (s : ARC H) : Nat := countReady s.get? hs

/-- The messages name the block; the model leaves its hash out. -/
def prepareLoad (hs : List H) : Call PyError (ARC H) (List Nat) :=
  Call.mapEach hs fun h => do
    let s ← Call.get
    match s.get? h with
    | none => Call.raise (.assertionError "Block not found in cache")
    | some block => do
      Call.check block.isReady (.assertionError "Block is not ready for reading")
      Call.modify fun s => s.setBlock h { block with refCnt := toInt32 (block.refCnt + 1) }
      return block.blockId

section
variable {capacity : Nat} (ops : Rounding capacity)

def touchOne (s : ARC H) (h : H) : ARC H :=
  match s.t1.get? h with
  | some block =>
    if block.isReady then { s with t1 := s.t1.erase h, t2 := s.t2.set h block }
    else { s with t1 := s.t1.setLast h block }
  | none =>
    match s.t2.get? h with
    | some block => { s with t2 := s.t2.setLast h block }
    | none =>
      if s.b1.contains h then
        let delta := max 1 (ops.round (s.b2.size / s.b1.size))
        { s with
          targetT1Size := min (ops.round (s.targetT1Size + delta)) s.cacheCapacity
          b1 := s.b1.setLast h () }
      else if s.b2.contains h then
        let delta := max 1 (ops.round (s.b1.size / s.b2.size))
        { s with
          targetT1Size := max (ops.round (s.targetT1Size - delta)) 0
          b2 := s.b2.setLast h () }
      else s

def touch (hs : List H) (s : ARC H) : ARC H := hs.reverse.foldl (touchOne ops) s

end

def completeLoad (hs : List H) : Call PyError (ARC H) Unit :=
  Call.forEach hs fun h => do
    let s ← Call.get
    match s.get? h with
    | none => Call.raise (.assertionError "Block not found")
    | some block => do
      Call.check (block.refCnt > 0) (.assertionError "Block ref_cnt is already 0")
      Call.modify fun s => s.setBlock h { block with refCnt := toInt32 (block.refCnt - 1) }

def findEviction (protectedHashes : List H) (entries : List (H × CPUBlockStatus)) :
    Option (H × CPUBlockStatus) :=
  entries.find? fun e => e.2.refCnt = 0 ∧ e.1 ∉ protectedHashes

def evictT1 (s : ARC H) (h : H) (block : CPUBlockStatus) : ARC H :=
  { s with t1 := s.t1.erase h, b1 := s.b1.set h (), backend := s.backend.free block }

def evictT2 (s : ARC H) (h : H) (block : CPUBlockStatus) : ARC H :=
  { s with t2 := s.t2.erase h, b2 := s.b2.set h (), backend := s.backend.free block }

def evictOne (protectedHashes : List H) (s : ARC H) : Option (H × ARC H) :=
  let fromT1 :=
    if s.t1.size ≥ truncate s.targetT1Size then findEviction protectedHashes s.t1.entries else none
  match fromT1 with
  | some (h, block) => some (h, s.evictT1 h block)
  | none =>
    match findEviction protectedHashes s.t2.entries with
    | some (h, block) => some (h, s.evictT2 h block)
    | none => none

/-- `while num_blocks_to_evict > 0`: the evicted hashes, or `none` after those that could be. -/
def evictLoop (protectedHashes : List H) : Nat → Call PyError (ARC H) (Option (List H))
  | 0 => return some []
  | n + 1 => do
    let s ← Call.get
    match evictOne protectedHashes s with
    | none => return none
    | some (h, s') => do
      Call.modify fun _ => s'
      let rest ← evictLoop protectedHashes n
      return rest.map (h :: ·)

/-- `for i in range(len(b) - self.cache_capacity): b.popitem(last=False)`. -/
def trimGhosts (b : Dict H Unit) (cacheCapacity : Nat) : Dict H Unit where
  entries := b.entries.drop (b.size - cacheCapacity)
  nodup := b.nodup.sublist ((List.drop_sublist _ _).map _)

def insert (s : ARC H) (h : H) (block : CPUBlockStatus) : ARC H :=
  { s with t1 := s.t1.set h block, b1 := s.b1.erase h, b2 := s.b2.erase h }

def storeBlocks (toStore toEvict : List H) : Call PyError (ARC H) (Option (PrepareStoreOutput H)) := do
  Call.modify fun s => { s with
    b1 := trimGhosts s.b1 s.cacheCapacity
    b2 := trimGhosts s.b2 s.cacheCapacity
    events := noteEvent s.backend.blockSize true toEvict s.events }
  let blocks ← (CPUBackend.allocateBlocks toStore.length).zoom ARC.backend
    fun backend s => { s with backend }
  Call.check (blocks.length = toStore.length)
    (.assertionError "Backend did not allocate the expected number of blocks")
  Call.modify fun s => (toStore.zip blocks).foldl (fun s e => s.insert e.1 e.2) s
  return some { blockHashesToStore := toStore
                storeSpec := blocks.map (·.blockId)
                blockHashesEvicted := toEvict }

def prepareStore (hs : List H) : Call PyError (ARC H) (Option (PrepareStoreOutput H)) := do
  let s ← Call.get
  let toStore := hs.filter fun h => !s.t1.contains h && !s.t2.contains h
  if toStore.isEmpty then
    return some { blockHashesToStore := [], storeSpec := [], blockHashesEvicted := [] }
  else do
    let evicted ← evictLoop hs (toStore.length - s.backend.getNumFreeBlocks)
    match evicted with
    | none => return none
    | some toEvict => storeBlocks toStore toEvict

/-- The block leaves T1 or T2, whether it is ready or not. -/
def dropFailed (s : ARC H) (h : H) : ARC H :=
  let block := s.get? h
  let s := if s.t1.contains h then { s with t1 := s.t1.erase h } else { s with t2 := s.t2.erase h }
  match block with
  | none => s
  | some block => if block.isReady then s else { s with backend := s.backend.free block }

def markStored (h : H) : Call PyError (ARC H) (Option H) := do
  let s ← Call.get
  match s.get? h with
  | none => return none
  | some block =>
    if block.isReady then return none
    else do
      Call.modify fun s => s.setBlock h { block with refCnt := 0 }
      return some h

def completeStore (hs : List H) (success : Bool) : Call PyError (ARC H) Unit :=
  if success then do
    let stored ← Call.mapEach hs markStored
    Call.modify fun s =>
      { s with events := noteEvent s.backend.blockSize false stored.reduceOption s.events }
  else Call.forEach hs fun h => Call.modify fun s => s.dropFailed h

def manager {capacity : Nat} (ops : Rounding capacity) : OffloadingManager H (ARC H) :=
  { lookup, touch := touch ops, prepareLoad, completeLoad, prepareStore, completeStore }

end ARC
end Vllm.Offload
