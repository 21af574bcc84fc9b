import Mathlib.Data.Finset.Basic
import Mathlib.Data.List.Sort
import Vllm.Core.BlockPool

/-! The unified pool of expert weights and KV pages: `unified_pool.py`.

Each layer's KV buffer is a byte map. `pages_per_super_block` consecutive pages form a super-block,
which holds KV pages or, in each layer, one expert. Copies run in issue order. Tracing, profiling
and the counters that only feed them are left out. -/

namespace Vllm
open Base

/-- What is fixed once the layers are registered. -/
structure PoolConfig where
  pagesPerSuperBlock : Nat
  pageSizeBytes : Nat
  numSuperBlocks : Nat
  /-- The registered MoE layers, in registration order. -/
  layerIds : List Nat
  /-- The layers of `kv_pool_buffers`. -/
  kvLayers : List Nat
  numExperts : Nat → Nat
  w13Bytes : Nat → Nat
  w2Bytes : Nat → Nat
  /-- Layer, expert, byte. -/
  cpuW13 : Nat → Nat → Nat → UInt8
  cpuW2 : Nat → Nat → Nat → UInt8
  relocationEnabled : Bool
  /-- `VLLM_UNIFIED_POOL_KV_SCORE` is `oldest`. -/
  kvScoreOldest : Bool
  pages_pos : 0 < pagesPerSuperBlock
  page_pos : 0 < pageSizeBytes
  layers_nodup : layerIds.Nodup
  /-- `expert_slot_bytes` is `w13_bytes + w2_bytes` and makes up the pages of a super-block. -/
  slot_eq : ∀ l, w13Bytes l + w2Bytes l = pageSizeBytes * pagesPerSuperBlock

namespace PoolConfig

def expertSlotBytes (cfg : PoolConfig) : Nat := cfg.pageSizeBytes * cfg.pagesPerSuperBlock

def pagesOf (cfg : PoolConfig) (s : Nat) : List Nat :=
  List.range' (s * cfg.pagesPerSuperBlock) cfg.pagesPerSuperBlock

def superBlockOfPage (cfg : PoolConfig) (page : Nat) : Nat := page / cfg.pagesPerSuperBlock

end PoolConfig

/-! ## One layer -/

structure UnifiedPool where
  /-- The tensor the kernel reads; -1 stands for an expert that is not loaded. -/
  superBlockIdAt : Nat → Int := fun _ => -1
  expertAtSuperBlock : Dict Nat Nat := ∅
  superBlockAtExpert : Dict Nat Nat := ∅
  /-- Coldest expert first. -/
  expertLru : Dict Nat Nat := ∅
  pinnedSuperBlocks : Finset Nat := ∅

namespace UnifiedPool

def assign (l numExperts s e step : Nat) : Call PyError UnifiedPool Unit := do
  let u ← Call.get
  match u.expertAtSuperBlock.get? s with
  | some mapped => Call.raise (.assertionError
      s!"L{l}: super-block {s} already mapped to expert {mapped}")
  | none =>
    match u.superBlockAtExpert.get? e with
    | some mapped => Call.raise (.assertionError
        s!"L{l}: expert {e} already mapped to super-block {mapped}")
    | none =>
      Call.modify fun u => { u with
        expertAtSuperBlock := u.expertAtSuperBlock.set s e
        superBlockAtExpert := u.superBlockAtExpert.set e s
        expertLru := u.expertLru.set e step }
      -- the tensor has one entry per expert
      Call.check (e < numExperts) .indexError
      Call.modify fun u => { u with superBlockIdAt := Function.update u.superBlockIdAt e s }

def drop (u : UnifiedPool) (s : Nat) : UnifiedPool :=
  match u.expertAtSuperBlock.get? s with
  | none => u
  | some e => { u with
      expertAtSuperBlock := u.expertAtSuperBlock.erase s
      superBlockAtExpert := u.superBlockAtExpert.erase e
      expertLru := u.expertLru.erase e
      superBlockIdAt := Function.update u.superBlockIdAt e (-1) }

def bumpExpert (u : UnifiedPool) (e step : Nat) : UnifiedPool :=
  if e ∈ u.expertLru.keys then { u with expertLru := u.expertLru.setLast e step } else u

def pin (u : UnifiedPool) (s : Nat) : UnifiedPool :=
  { u with pinnedSuperBlocks := insert s u.pinnedSuperBlocks }

def unpinAll (u : UnifiedPool) : UnifiedPool := { u with pinnedSuperBlocks := ∅ }

end UnifiedPool

/-! ## The manager -/

/-- The mutable state of the manager, the buffers, and two things that are not in the source:
which of the coming copies the device refuses, and, for a reader of the proofs only, what the
holder of a page's hash expects to find in the page. -/
structure UnifiedPoolManager where
  layer : Nat → UnifiedPool := fun _ => {}
  superBlockHolder : Dict Nat (Finset Nat) := ∅
  step : Nat := 0
  /-- Coldest page first. -/
  prefixLru : Dict Nat Nat := ∅
  /-- Layer, byte. -/
  poolBuffer : Nat → Nat → UInt8
  copyFaults : List Bool := []
  /-- Page, layer, byte of the page. -/
  kvOf : Nat → Nat → Nat → UInt8

variable {K : Type} [DecidableEq K]

abbrev UnifiedState (K : Type) := BlockPool K × UnifiedPoolManager

abbrev UnifiedCall (K β : Type) := Call PyError (UnifiedState K) β

namespace UnifiedPoolManager
variable (cfg : PoolConfig)

def modifyLayer (m : UnifiedPoolManager) (l : Nat) (f : UnifiedPool → UnifiedPool) :
    UnifiedPoolManager :=
  { m with layer := Function.update m.layer l (f (m.layer l)) }

def onLayer {β : Type} (l : Nat) (c : Call PyError UnifiedPool β) : UnifiedCall K β :=
  c.zoom (fun s => s.2.layer l) fun u s => (s.1, s.2.modifyLayer l fun _ => u)

def modifyManager (f : UnifiedPoolManager → UnifiedPoolManager) : UnifiedCall K Unit :=
  Call.modify fun s => (s.1, f s.2)

def isHeld (m : UnifiedPoolManager) (s : Nat) : Bool :=
  match m.superBlockHolder.get? s with
  | none => false
  | some holders => decide (holders ≠ ∅)

def anyLayerPinsSuperBlock (m : UnifiedPoolManager) (s : Nat) : Bool :=
  cfg.layerIds.any fun l => decide (s ∈ (m.layer l).pinnedSuperBlocks)

def addHolder (m : UnifiedPoolManager) (l s : Nat) : UnifiedPoolManager :=
  { m with superBlockHolder :=
      m.superBlockHolder.set s (insert l ((m.superBlockHolder.get? s).getD ∅)) }

def removeHolder (m : UnifiedPoolManager) (l s : Nat) : UnifiedPoolManager :=
  match m.superBlockHolder.get? s with
  | none => m
  | some holders =>
    if holders.erase l = ∅ then { m with superBlockHolder := m.superBlockHolder.erase s }
    else { m with superBlockHolder := m.superBlockHolder.set s (holders.erase l) }

def dropLayerMapping (m : UnifiedPoolManager) (l s : Nat) : UnifiedPoolManager :=
  match (m.layer l).expertAtSuperBlock.get? s with
  | none => m
  | some _ => (m.modifyLayer l fun u => u.drop s).removeHolder l s

/-- Drops every layer's mapping of `s`. A set of layers is visited in registration order. -/
def broadcastDropAllLayers (s : Nat) : Call PyError UnifiedPoolManager Unit := do
  let m ← Call.get
  Call.modify fun m => { m with superBlockHolder := m.superBlockHolder.erase s }
  let holders := (m.superBlockHolder.get? s).getD ∅
  Call.forEach (cfg.layerIds.filter fun l => l ∈ holders) fun l => do
    let m ← Call.get
    Call.check (s ∉ (m.layer l).pinnedSuperBlocks) (.assertionError
      ("KV-allocation broadcast tried to drop a pinned super-block: "
        ++ s!"sb={s} L{l}. The MoE kernel may be reading those bytes — refusing to corrupt. "
        ++ "Check async_scheduling is disabled."))
    Call.modify fun m => m.modifyLayer l fun u => u.drop s

/-! ### Callbacks -/

def onKvAllocation (blockIds : List Nat) : Call PyError UnifiedPoolManager Unit :=
  Call.forEach (blockIds.map cfg.superBlockOfPage).eraseDups (broadcastDropAllLayers cfg)

def onPrefixAdded (b : Nat) (m : UnifiedPoolManager) : UnifiedPoolManager :=
  { m with prefixLru := m.prefixLru.setLast b m.step }

def onPrefixRemoved (b : Nat) (m : UnifiedPoolManager) : UnifiedPoolManager :=
  { m with prefixLru := m.prefixLru.erase b }

/-! ### Victims for a KV allocation -/

def coldestHolderStep (m : UnifiedPoolManager) (s : Nat) (holders : Finset Nat) : Option Nat :=
  ((cfg.layerIds.filter fun l => l ∈ holders).filterMap fun l =>
    (m.layer l).expertAtSuperBlock.get? s >>= (m.layer l).expertLru.get?).min?

/-- `_oldest_global_expert`: the first super-block with the smallest step. -/
def oldestGlobalExpert (m : UnifiedPoolManager) : Option (Nat × Nat) :=
  m.superBlockHolder.entries.foldl (fun best (s, holders) =>
    if m.anyLayerPinsSuperBlock cfg s then best
    else match m.coldestHolderStep cfg s holders, best with
      | none, best => best
      | some step, none => some (s, step)
      | some step, some (s', step') => if step < step' then some (s, step) else some (s', step'))
    none

def kvTakePrefixPage (b : Nat) : UnifiedCall K Nat := do
  BlockPool.removeFree b
  modifyManager fun m => { m with prefixLru := m.prefixLru.erase b }
  return b

def takeFirstPage (s : Nat) : List Nat → UnifiedCall K Nat
  | [] => Call.raise (.runtimeError
      s!"UnifiedPool: super-block {s} had no usable page after evicting its expert.")
  | p :: ps => do
    let st ← Call.get
    Call.check (p < st.1.numGpuBlocks) .indexError
    if st.1.isNull p then takeFirstPage s ps
    else
      BlockPool.removeFree p
      return p

def kvTakePageEvictingExpert (s : Nat) : UnifiedCall K Nat := do
  (broadcastDropAllLayers cfg s).zoom Prod.snd fun m st => (st.1, m)
  takeFirstPage s (cfg.pagesOf s)

def isTrulyFree (st : UnifiedState K) (b : Nat) : Bool :=
  (st.1.hash b).isNone && !st.2.isHeld (cfg.superBlockOfPage b) &&
    !st.2.anyLayerPinsSuperBlock cfg (cfg.superBlockOfPage b)

def oldestPrefixPage (m : UnifiedPoolManager) : Option (Nat × Nat) :=
  m.prefixLru.entries.find? fun (b, _) =>
    !m.anyLayerPinsSuperBlock cfg (cfg.superBlockOfPage b)

def pickOneKvVictim : UnifiedCall K Nat := do
  let st ← Call.get
  match st.1.free.find? (isTrulyFree cfg st) with
  | some b =>
    BlockPool.removeFree b
    return b
  | none =>
    match st.2.oldestGlobalExpert cfg, st.2.oldestPrefixPage cfg with
    | some (s, expertStep), some (b, prefixStep) =>
      if expertStep ≤ prefixStep then kvTakePageEvictingExpert cfg s else kvTakePrefixPage b
    | some (s, _), none => kvTakePageEvictingExpert cfg s
    | none, some (b, _) => kvTakePrefixPage b
    | none, none => Call.raise (.runtimeError
        ("UnifiedPool: pool exhausted resolving KV allocation. No truly-"
          ++ "free page, no evictable expert super-block, no evictable prefix "
          ++ "page. Reduce --max-num-batched-tokens or increase "
          ++ "--num-gpu-blocks-override."))

def selectKvVictimBlocks : Nat → UnifiedCall K (List Nat)
  | 0 => return []
  | n + 1 => do
    let b ← pickOneKvVictim cfg
    let bs ← selectKvVictimBlocks n
    return b :: bs

def hooks : Hooks K UnifiedPoolManager where
  onAllocation := onKvAllocation cfg
  onPrefixAdded := onPrefixAdded
  onPrefixRemoved := onPrefixRemoved
  kvVictimSelector := some (selectKvVictimBlocks cfg)

/-! ### Copies -/

/-- Enqueues one copy, or raises if the device refuses it. -/
def transfer (f : (Nat → Nat → UInt8) → Nat → Nat → UInt8) : UnifiedCall K Unit := fun st =>
  match st.2.copyFaults with
  | true :: faults =>
    (.error (.runtimeError "CUDA error"), (st.1, { st.2 with copyFaults := faults }))
  | _ :: faults => (.ok (), (st.1, { st.2 with
      poolBuffer := f st.2.poolBuffer, copyFaults := faults }))
  | [] => (.ok (), (st.1, { st.2 with poolBuffer := f st.2.poolBuffer }))

def copyPage (l src dst : Nat) (buf : Nat → Nat → UInt8) : Nat → Nat → UInt8 := fun l' o =>
  if l' = l ∧ o / cfg.pageSizeBytes = dst then
    buf l (src * cfg.pageSizeBytes + o % cfg.pageSizeBytes)
  else buf l' o

def copyPageAllLayers (src dst : Nat) : UnifiedCall K Unit :=
  Call.forEach cfg.kvLayers fun l => transfer (copyPage cfg l src dst)

def writeBytes (l start size : Nat) (data : Nat → UInt8) (buf : Nat → Nat → UInt8) :
    Nat → Nat → UInt8 := fun l' o =>
  if l' = l ∧ start ≤ o ∧ o < start + size then data (o - start) else buf l' o

/-- `_dma_expert_into_super_block_async`: w13 first, then w2. -/
def dmaExpertIntoSuperBlock (l e s : Nat) : UnifiedCall K Unit := do
  let sbOffset := s * cfg.expertSlotBytes
  transfer (writeBytes l sbOffset (cfg.w13Bytes l) (cfg.cpuW13 l e))
  transfer (writeBytes l (sbOffset + cfg.w13Bytes l) (cfg.w2Bytes l) (cfg.cpuW2 l e))

/-! ### Vacating a super-block -/

def evictPrefixGlobally (b : Nat) : UnifiedCall K Unit := do
  let st ← Call.get
  Call.check (b < st.1.numGpuBlocks) .indexError
  if (st.1.hash b).isNone then return ()
  let _ ← BlockPool.evictPrefixHash (hooks cfg) b

def relocateKvPage (src dst : Nat) : UnifiedCall K Unit := do
  copyPageAllLayers cfg src dst
  let moved ← BlockPool.relocatePrefixHash src dst
  if moved then
    modifyManager fun m => { m with
      prefixLru := m.prefixLru.rename src dst m.step
      kvOf := Function.update m.kvOf dst (m.kvOf src) }

def warmth (m : UnifiedPoolManager) (p : Nat) : Int :=
  match m.prefixLru.get? p with
  | none => -1
  | some step => step

def collectFreePages (st : UnifiedState K) (excludeSuperBlock limit : Nat) : List Nat :=
  (st.1.free.filter fun b =>
    isTrulyFree cfg st b && !st.1.isNull b &&
      decide (cfg.superBlockOfPage b ≠ excludeSuperBlock)).take limit

def displaceablePagesColdestFirst (m : UnifiedPoolManager) (excludeSuperBlock limit : Nat) :
    List (Nat × Nat) :=
  (m.prefixLru.entries.filter fun (b, _) =>
    decide (cfg.superBlockOfPage b ≠ excludeSuperBlock) &&
      !m.anyLayerPinsSuperBlock cfg (cfg.superBlockOfPage b)).take limit

/-- The loop of `_vacate_kv_super_block` over the cached pages, warmest first: `holes` and `cold`
are what is left of the two lists it consumes. -/
def relocateOrEvict : List Nat → List Nat → List (Nat × Nat) → UnifiedCall K Unit
  | [], _, _ => return ()
  | p :: ps, hole :: holes, cold => do
    relocateKvPage cfg p hole
    relocateOrEvict ps holes cold
  | p :: ps, [], (victim, victimStep) :: cold => do
    let st ← Call.get
    if (victimStep : Int) < st.2.warmth p then
      evictPrefixGlobally cfg victim
      relocateKvPage cfg p victim
      relocateOrEvict ps [] cold
    else
      evictPrefixGlobally cfg p
      relocateOrEvict ps [] []
  | p :: ps, [], [] => do
    evictPrefixGlobally cfg p
    relocateOrEvict ps [] []

def vacateKvSuperBlock (s : Nat) : UnifiedCall K Unit := do
  let st ← Call.get
  Call.check ((cfg.pagesOf s).all (· < st.1.numGpuBlocks)) .indexError
  let prefixPages := (cfg.pagesOf s).filter fun p => (st.1.hash p).isSome
  if cfg.relocationEnabled then
    let warmestFirst := prefixPages.insertionSort fun p q => st.2.warmth q ≤ st.2.warmth p
    relocateOrEvict cfg warmestFirst
      (collectFreePages cfg st s prefixPages.length)
      (displaceablePagesColdestFirst cfg st.2 s prefixPages.length)
  else Call.forEach prefixPages (evictPrefixGlobally cfg)

/-! ### A super-block for an expert -/

def superBlockHasLivePage : List Nat → UnifiedCall K Bool
  | [] => return false
  | p :: ps => do
    let st ← Call.get
    Call.check (p < st.1.numGpuBlocks) .indexError
    if st.1.refCnt p > 0 then return true else superBlockHasLivePage ps

def warmestPrefixStep (m : UnifiedPoolManager) (s : Nat) : Int :=
  (cfg.pagesOf s).foldl (fun w p => max w (m.warmth p)) (-1)

/-- The super-blocks of the pages seen so far: number of pages and coldest step, in the order of
their first page. -/
def tally (seen : List (Nat × Nat)) : List (Nat × Nat × Nat) :=
  (seen.map fun e => cfg.superBlockOfPage e.1).eraseDups.map fun s =>
    (s, seen.countP (fun e => cfg.superBlockOfPage e.1 = s),
      ((seen.find? fun e => cfg.superBlockOfPage e.1 = s).map Prod.snd).getD 0)

/-- Most cold pages first, the coldest page breaking ties. -/
def rank (cands : List (Nat × Nat × Nat)) : List (Nat × Nat × Nat) :=
  cands.insertionSort fun a b => b.2.1 < a.2.1 ∨ a.2.1 = b.2.1 ∧ a.2.2 ≤ b.2.2

def firstVacatable : List (Nat × Nat × Nat) → UnifiedCall K (Option (Nat × Int))
  | [] => return none
  | (s, _, oldest) :: cands => do
    let st ← Call.get
    if s = 0 ∨ st.2.isHeld s ∨ st.2.anyLayerPinsSuperBlock cfg s then firstVacatable cands
    else
      let live ← superBlockHasLivePage (cfg.pagesOf s)
      if live then firstVacatable cands
      else return some (s, if cfg.kvScoreOldest then ↑oldest else st.2.warmestPrefixStep cfg s)

/-- The rounds of `_cheapest_kv_super_block`, each looking at `F` more pages of the cold end. -/
def cheapestLoop : Nat → List (Nat × Nat) → List (Nat × Nat) →
    UnifiedCall K (Option (Nat × Int))
  | 0, _, _ => return none
  | fuel + 1, seen, rest => do
    let chunk := rest.take cfg.pagesPerSuperBlock
    let found ← firstVacatable cfg (rank (tally cfg (seen ++ chunk)))
    match found with
    | some r => return some r
    | none =>
      if chunk.length < cfg.pagesPerSuperBlock then return none
      else cheapestLoop fuel (seen ++ chunk) (rest.drop cfg.pagesPerSuperBlock)

def cheapestKvSuperBlock : UnifiedCall K (Option (Nat × Int)) := do
  let st ← Call.get
  cheapestLoop cfg (st.2.prefixLru.size + 1) [] st.2.prefixLru.entries

def ownColdestExpert (u : UnifiedPool) (needed : List Nat) : Option (Nat × Nat) :=
  u.expertLru.entries.findSome? fun (e, step) =>
    if e ∈ needed then none
    else match u.superBlockAtExpert.get? e with
      | none => none
      | some s => if s ∈ u.pinnedSuperBlocks then none else some (s, step)

def takeOwnExpert (l s : Nat) : UnifiedCall K Nat := do
  modifyManager fun m => m.dropLayerMapping l s
  return s

def takeKvSuperBlock (s : Nat) : UnifiedCall K Nat := do
  vacateKvSuperBlock cfg s
  return s

def evictForExpert (l : Nat) (needed : List Nat) : UnifiedCall K Nat := do
  let st ← Call.get
  let bestKv ← cheapestKvSuperBlock cfg
  match ownColdestExpert (st.2.layer l) needed, bestKv with
  | some (s, step), some (kvS, kvStep) =>
    if kvStep ≤ step then takeKvSuperBlock cfg kvS else takeOwnExpert l s
  | some (s, _), none => takeOwnExpert l s
  | none, some (kvS, _) => takeKvSuperBlock cfg kvS
  | none, none => Call.raise (.runtimeError
      (s!"UnifiedPool L{l}: pool exhausted while resolving "
        ++ "expert miss. No free super-block, no evictable expert, and no "
        ++ "vacatable KV super-block (every candidate has a live or pinned "
        ++ "page). Reduce --max-num-batched-tokens, lower "
        ++ "--expert-cache-size, or increase --num-gpu-blocks-override."))

def isFreePure (st : UnifiedState K) (u : UnifiedPool) (s : Nat) : Bool :=
  decide (s ∉ u.pinnedSuperBlocks) && (u.expertAtSuperBlock.get? s).isNone &&
    !st.2.isHeld s &&
    (cfg.pagesOf s).all fun p => decide (st.1.refCnt p ≤ 0) && (st.1.hash p).isNone

def selectSuperBlockForExpert (l : Nat) (needed : List Nat) : UnifiedCall K Nat := do
  let st ← Call.get
  let u := st.2.layer l
  let crossLayer := st.2.superBlockHolder.keys.filter fun s =>
    decide (s > 0) && decide (s ∉ u.pinnedSuperBlocks) && (u.expertAtSuperBlock.get? s).isNone
  match crossLayer.min? with
  | some s => return s
  | none =>
    let freeUnhashed := st.1.getNumFreeBlocks - st.2.prefixLru.size
    if freeUnhashed < cfg.pagesPerSuperBlock then evictForExpert cfg l needed
    else match (List.range' 1 (cfg.numSuperBlocks - 1)).find? (isFreePure cfg st u) with
      | some s => return s
      | none => evictForExpert cfg l needed

/-! ### The forward path -/

/-- One turn of the miss loop. The state's second component is `miss_assignments`. -/
def claimMiss (l : Nat) (needed : List Nat) (e : Nat) :
    Call PyError (UnifiedState K × List Nat) Unit := do
  let s ← (selectSuperBlockForExpert cfg l needed).lift
  let st ← Call.get
  (onLayer l (UnifiedPool.assign l (cfg.numExperts l) s e st.1.2.step)).lift
  (modifyManager fun m => m.addHolder l s).lift
  (modifyManager fun m => m.modifyLayer l fun u => u.pin s).lift
  Call.modify fun st => (st.1, st.2 ++ [s])
  (dmaExpertIntoSuperBlock cfg l e s).lift

def rollback (l : Nat) : Call PyError (UnifiedState K × List Nat) Unit := do
  let st ← Call.get
  (modifyManager fun m => st.2.foldl (fun m s => m.dropLayerMapping l s) m).lift
  (modifyManager fun m => m.modifyLayer l fun u => u.unpinAll).lift

def ensureLoaded (l : Nat) (needed : List Nat) : UnifiedCall K Unit := do
  let st ← Call.get
  let u := st.2.layer l
  let hits := needed.filterMap fun e => (u.superBlockAtExpert.get? e).map fun s => (e, s)
  let misses := needed.filter fun e => (u.superBlockAtExpert.get? e).isNone
  Call.forEach hits fun (e, s) =>
    modifyManager fun m => m.modifyLayer l fun u => (u.pin s).bumpExpert e m.step
  Call.withLocal [] ((Call.forEach misses (claimMiss cfg l needed)).onError (rollback l))

def releasePinned (l : Nat) : UnifiedCall K Unit :=
  modifyManager fun m => m.modifyLayer l fun u => u.unpinAll

def endForwardStep : UnifiedCall K Unit := modifyManager fun m => { m with step := m.step + 1 }

/-! ### Start-up -/

def warmExpert (e l : Nat) : UnifiedCall K Unit := do
  let st ← Call.get
  onLayer l (UnifiedPool.assign l (cfg.numExperts l) (e + 1) e st.2.step)
  modifyManager fun m => m.addHolder l (e + 1)
  dmaExpertIntoSuperBlock cfg l e (e + 1)

def checkRoundTrip (l e s : Nat) : UnifiedCall K Unit := do
  let st ← Call.get
  Call.check ((List.range (cfg.w13Bytes l)).all fun i =>
    st.2.poolBuffer l (s * cfg.expertSlotBytes + i) = cfg.cpuW13 l e i) (.runtimeError
      (s!"UnifiedPool L{l}: pool_w13_view[{s}] != cpu_w13[{e}] after warm-up. "
        ++ "Super-block view layout is wrong, or DMA didn't land."))
  Call.check ((List.range (cfg.w2Bytes l)).all fun i =>
    st.2.poolBuffer l (s * cfg.expertSlotBytes + cfg.w13Bytes l + i) = cfg.cpuW2 l e i)
    (.runtimeError s!"UnifiedPool L{l}: pool_w2_view[{s}] != cpu_w2[{e}] after warm-up.")

/-- Expert `e` of every layer at super-block `e + 1`, whose pages must not be cached. -/
def warmSuperBlock (e : Nat) : UnifiedCall K Unit := do
  Call.forEach (cfg.pagesOf (e + 1)) fun p => do
    let st ← Call.get
    Call.check (p < st.1.numGpuBlocks) .indexError
    Call.check (st.1.hash p).isNone (.assertionError
      (s!"warm-up: page {p} of super-block {e + 1} already has a prefix hash"))
  Call.forEach cfg.layerIds (warmExpert cfg e)

def warmUp (warmCount : Nat) : UnifiedCall K Unit :=
  if warmCount = 0 then return ()
  else do
    Call.forEach cfg.layerIds fun l => Call.check (warmCount ≤ cfg.numExperts l)
      (.assertionError (s!"warm_count ({warmCount}) > num_experts "
        ++ s!"({cfg.numExperts l}) for L{l}"))
    Call.check (warmCount + 1 ≤ cfg.numSuperBlocks)
      (.assertionError (s!"warm_count ({warmCount}) > usable super-blocks "
        ++ s!"({cfg.numSuperBlocks - 1}; super-block 0 reserved)"))
    if cfg.layerIds = [] then return ()
    else
      Call.forEach (List.range warmCount) (warmSuperBlock cfg)
      Call.forEach cfg.layerIds fun l => do
        let st ← Call.get
        Call.forEach (st.2.layer l).superBlockAtExpert.entries fun (e, s) =>
          checkRoundTrip cfg l e s

end UnifiedPoolManager
end Vllm
