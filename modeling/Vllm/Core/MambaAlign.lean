import Vllm.Core.SlotCounts

/-! `MambaManager` in `align` mode. The list of a request has null blocks for the tokens whose state is
not kept: the running state is in the block of the last token, and blocks for draft tokens follow.
When the list grows the block of the state before is remembered, to be freed a step later. -/

namespace Vllm
open Base

structure MambaAlign where
  blockSize : Nat
  numSpeculativeBlocks : Nat
  blockSize_pos : 0 < blockSize := by decide

structure AlignTables where
  lastStateBlockIdx : Dict String Nat := ∅
  allocatedBlockReqs : List String := []

abbrev AlignState (D : Type) := KVState D × AlignTables

abbrev AlignCall (D β : Type) := Call PyError (AlignState D) β

namespace MambaAlign
variable {D : Type} [DecidableEq D]

def spec (m : MambaAlign) : KVCacheSpec where
  blockSize := m.blockSize
  attention := .mamba m.numSpeculativeBlocks
  blockSize_pos := m.blockSize_pos
  valid := trivial

variable (m : MambaAlign) (g : Nat) (requestId : String)

def freeLastState (numComputedTokens : Nat) : AlignCall D Unit := do
  let s ← Call.get
  match s.2.lastStateBlockIdx.get? requestId with
  | none => return ()
  | some lastStateBlockIdx =>
    if lastStateBlockIdx + 1 < cdiv numComputedTokens m.blockSize then do
      let blocks ← (tableOf g requestId).lift
      match blocks[lastStateBlockIdx]? with
      | none => Call.raise .indexError
      | some b =>
        if b = 0 then return ()
        else do
          (BlockPool.freeBlocks Hooks.none [b]).lift
          (modifyTables fun t => t.setBlocks g requestId (blocks.set lastStateBlockIdx 0)).lift
    else return ()

/-- All draft tokens of the last step are taken to be rejected. -/
def removeSkippedBlocks (numComputedTokens : Nat) : AlignCall D Unit := do
  (Vllm.removeSkippedBlocks m.spec g requestId numComputedTokens).lift
  m.freeLastState g requestId (numComputedTokens - m.numSpeculativeBlocks)

def numRequiredBlocks (numTokens : Nat) : Nat :=
  cdiv numTokens m.blockSize + m.numSpeculativeBlocks

/-- One block for the running state, and those for draft tokens when there are none to reuse. -/
def getNumBlocksToAllocate (numTokensMainModel : Nat) (newComputedBlocks : List Nat) :
    AlignCall D Int := do
  let s ← Call.get
  if hitThisStep g s.1 newComputedBlocks then return s.1.1.numGpuBlocks + 1
  else
    let reqBlocks ← (tableOf g requestId).lift
    let numNewBlocks : Int :=
      m.numRequiredBlocks numTokensMainModel - newComputedBlocks.length - reqBlocks.length
    let numNewBlocks : Int :=
      if numNewBlocks > 0 then
        if requestId ∈ s.2.allocatedBlockReqs then 1 else 1 + m.numSpeculativeBlocks
      else numNewBlocks
    return numNewBlocks + getNumEvictableBlocks s.1.1 newComputedBlocks

/-- The loop over the indices of the blocks for draft tokens: those before the running state move to
the end of the list. -/
def reuseSpeculative (numSkippedBlocks : Nat) : List Nat → List Nat → List Nat
  | [], reqBlocks => reqBlocks
  | i :: is, reqBlocks =>
    if i < numSkippedBlocks then
      reuseSpeculative numSkippedBlocks is ((reqBlocks ++ [reqBlocks.getD i 0]).set i 0)
    else reqBlocks

/-- The list before new blocks are added to it: null blocks up to the running state, and the blocks
for draft tokens that the request already has. -/
def stretched (numSkippedBlocks : Nat) (blocksAllocated : Bool) (reqBlocks : List Nat) : List Nat :=
  let prevBlockLen := reqBlocks.length
  let padded := reqBlocks ++ List.replicate (numSkippedBlocks - prevBlockLen) 0
  if blocksAllocated then
    reuseSpeculative numSkippedBlocks
      (List.range' (prevBlockLen - m.numSpeculativeBlocks) m.numSpeculativeBlocks) padded
  else padded

/-- `last_state_block_idx` when the list grows. A request that was given blocks has more than those
for draft tokens. -/
def recordLastState (blocksAllocated : Bool) (prevBlockLen : Nat) (t : AlignTables) : AlignTables :=
  if blocksAllocated then
    { t with lastStateBlockIdx :=
        t.lastStateBlockIdx.set requestId (prevBlockLen - 1 - m.numSpeculativeBlocks) }
  else if prevBlockLen > 0 then
    { t with lastStateBlockIdx := t.lastStateBlockIdx.set requestId (prevBlockLen - 1) }
  else t

def allocateNewBlocks (numTokensMainModel : Nat) : AlignCall D (List Nat) := do
  let reqBlocks ← (tableOf g requestId).lift
  let numRequired := m.numRequiredBlocks numTokensMainModel
  let prevBlockLen := reqBlocks.length
  if numRequired = prevBlockLen then return []
  else
    Call.check (numRequired > prevBlockLen) (.assertionError
      s!"num_required_blocks {numRequired} < len(req_blocks) {prevBlockLen}")
    let s ← Call.get
    let blocksAllocated := decide (requestId ∈ s.2.allocatedBlockReqs)
    Call.modify fun s => (s.1, m.recordLastState requestId blocksAllocated prevBlockLen s.2)
    let blocks := m.stretched (numRequired - m.numSpeculativeBlocks - 1) blocksAllocated reqBlocks
    (modifyTables fun t => t.setBlocks g requestId blocks).lift
    let numNewBlocks : Int := numRequired - blocks.length
    Call.check (numNewBlocks ≤ if blocksAllocated then 1 else m.numSpeculativeBlocks + 1)
      (.assertionError "")
    let newBlocks ← (getNewBlocksInt numNewBlocks).lift
    (extendTable g requestId newBlocks).lift
    Call.modify fun s =>
      (s.1, { s.2 with allocatedBlockReqs := requestId :: s.2.allocatedBlockReqs })
    return (blocks ++ newBlocks).drop prevBlockLen

def free : AlignCall D Unit := do
  Call.modify fun s => (s.1,
    { lastStateBlockIdx := s.2.lastStateBlockIdx.erase requestId
      allocatedBlockReqs := s.2.allocatedBlockReqs.filter (· ≠ requestId) })
  (Vllm.free g requestId).lift

/-- `allocate_slots` for the one group, up to the caching of blocks: `numComputedTokens` counts the
hits, `numTokensMainModel` the tokens to compute too. -/
def allocateSlots (enableCaching : Bool) (numComputedTokens : Nat) (newComputedBlocks : List Nat)
    (numTokensMainModel : Nat) : AlignCall D (Option (List Nat)) := do
  m.removeSkippedBlocks g requestId numComputedTokens
  let numBlocksToAllocate ← m.getNumBlocksToAllocate g requestId numTokensMainModel newComputedBlocks
  let s ← Call.get
  if numBlocksToAllocate > s.1.1.getNumFreeBlocks then return none
  else
    if newComputedBlocks ≠ [] then
      (allocateNewComputedBlocks m.spec g requestId enableCaching newComputedBlocks
        numComputedTokens 0).lift
    let newBlocks ← m.allocateNewBlocks g requestId numTokensMainModel
    return some newBlocks

end MambaAlign
end Vllm
