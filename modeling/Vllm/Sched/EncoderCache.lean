import Vllm.Base.Dict
import Vllm.Core.BlockHashing

/-! The encoder cache of the scheduler: `EncoderCacheManager` in `encoder_cache_manager.py`, and the
embedding counts of `PlaceholderRange`. The manager of encoder-decoder models is left out. -/

namespace Vllm
open Base

/-- `embeds_cumsum[i]`, where a negative index counts from the end. -/
def cumsumAt (mask : List Bool) (i : Int) : Nat :=
  (mask.take ((if i < 0 then mask.length + i else i) + 1).toNat).count true

namespace PlaceholderRange

def getNumEmbeds (p : PlaceholderRange) : Nat :=
  match p.isEmbed with
  | none => p.length
  | some mask => cumsumAt mask (-1)

def getEmbedsIndicesInRange (p : PlaceholderRange) (startIdx endIdx : Int) : Int × Int :=
  match p.isEmbed with
  | none => (startIdx, endIdx)
  | some mask =>
    (if startIdx > 0 then (cumsumAt mask (startIdx - 1) : Int) else 0, cumsumAt mask (endIdx - 1))

end PlaceholderRange

def MultiModalFeatureSpec.numEmbeds (f : MultiModalFeatureSpec) : Nat := f.mmPosition.getNumEmbeds

/-- A set of request ids is a list without repetitions. -/
structure EncoderCacheManager where
  cacheSize : Nat
  numFreeSlots : Int
  numFreeableSlots : Int
  cached : Dict String (List String) := ∅
  freeable : Dict String Nat := ∅
  freed : List String := []

namespace EncoderCacheManager

abbrev EncCall (α : Type) := Call PyError EncoderCacheManager α

def new (cacheSize : Nat) : EncoderCacheManager where
  cacheSize := cacheSize
  numFreeSlots := cacheSize
  numFreeableSlots := cacheSize

def reset (m : EncoderCacheManager) : EncoderCacheManager :=
  { m with
    cached := ∅
    freeable := ∅
    freed := []
    numFreeSlots := m.cacheSize
    numFreeableSlots := m.cacheSize }

def addRef (m : EncoderCacheManager) (mmHash requestId : String) : EncoderCacheManager :=
  { m with cached := m.cached.set mmHash (((m.cached.get? mmHash).getD []).insert requestId) }

/-- An entry without references leaves `freeable` when it gets one. -/
def takeFreeable (mmHash : String) (refs : List String) : EncCall Unit :=
  if refs = [] then do
    let m ← Call.get
    match m.freeable.get? mmHash with
    | none => Call.raise .keyError
    | some numEncoderEmbeds => Call.modify fun m => { m with
        freeable := m.freeable.erase mmHash
        numFreeableSlots := m.numFreeableSlots - numEncoderEmbeds }
  else return ()

def checkAndUpdateCache (requestId : String) (f : MultiModalFeatureSpec) : EncCall Bool := do
  let m ← Call.get
  match m.cached.get? f.identifier with
  | none => return false
  | some refs => do
    takeFreeable f.identifier refs
    Call.modify fun m => m.addRef f.identifier requestId
    return true

def evictOne (m : EncoderCacheManager) (mmHash : String) (numFreeEmbeds : Nat) :
    EncoderCacheManager :=
  { m with
    freeable := m.freeable.erase mmHash
    cached := m.cached.erase mmHash
    freed := m.freed ++ [mmHash]
    numFreeSlots := m.numFreeSlots + numFreeEmbeds }

/-- `while num_embeds > self.num_free_slots`, over the entries of `freeable`. -/
def evictLoop (numEmbeds : Int) : List (String × Nat) → EncCall Unit
  | [] => do
    let m ← Call.get
    if numEmbeds > m.numFreeSlots then Call.raise .keyError else return ()
  | (mmHash, numFreeEmbeds) :: entries => do
    let m ← Call.get
    if numEmbeds > m.numFreeSlots then do
      Call.modify fun m => m.evictOne mmHash numFreeEmbeds
      evictLoop numEmbeds entries
    else return ()

def canAllocate (f : MultiModalFeatureSpec) (encoderComputeBudget numEmbedsToSchedule : Int) :
    EncCall Bool := do
  let m ← Call.get
  if f.numEmbeds > encoderComputeBudget then return false
  else
    let numEmbeds := f.numEmbeds + numEmbedsToSchedule
    if numEmbeds ≤ m.numFreeSlots then return true
    else if numEmbeds > m.numFreeableSlots then return false
    else do
      evictLoop numEmbeds m.freeable.entries
      return true

def allocate (requestId : String) (f : MultiModalFeatureSpec) : EncCall Unit := do
  let m ← Call.get
  Call.check (m.numFreeSlots ≥ f.numEmbeds)
    (.assertionError "self.num_free_slots >= num_encoder_embeds")
  Call.check (m.numFreeableSlots ≥ f.numEmbeds)
    (.assertionError "self.num_freeable_slots >= num_encoder_embeds")
  Call.modify fun m =>
    { m.addRef f.identifier requestId with
      numFreeSlots := m.numFreeSlots - f.numEmbeds
      numFreeableSlots := m.numFreeableSlots - f.numEmbeds }

def freeEncoderInput (requestId : String) (m : EncoderCacheManager) (f : MultiModalFeatureSpec) :
    EncoderCacheManager :=
  match (m.cached.get? f.identifier).getD [] with
  | [] => m
  | refs =>
    let refs := refs.erase requestId
    let m := { m with cached := m.cached.set f.identifier refs }
    if refs = [] then
      { m with
        freeable := m.freeable.set f.identifier f.numEmbeds
        numFreeableSlots := m.numFreeableSlots + f.numEmbeds }
    else m

def getCachedInputs (m : EncoderCacheManager) (fs : List MultiModalFeatureSpec) :
    List MultiModalFeatureSpec := fs.filter fun f => m.cached.contains f.identifier

def free (requestId : String) (fs : List MultiModalFeatureSpec) (m : EncoderCacheManager) :
    EncoderCacheManager := (m.getCachedInputs fs).foldl (freeEncoderInput requestId) m

def getFreedMmHashes (m : EncoderCacheManager) : List String × EncoderCacheManager :=
  (m.freed, { m with freed := [] })

end EncoderCacheManager
end Vllm
