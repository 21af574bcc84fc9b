import Vllm.Base.Call
import Vllm.Base.LruCache
import Mathlib.Data.List.Sort

/-! The two caches of multi-modal items. The frontend keeps the sizes of the items it has sent, the
engine the items themselves; a request leaves the data of an item out when the frontend finds it in
its own cache. The frontend walks the items modality after modality, the engine by position. -/

namespace Vllm.Multimodal
open Base

inductive Fault where
  | raised (e : PyError)
  | neverReturns
deriving DecidableEq, Repr

/-- An item of a prompt: what `mm_hashes`, the processed data and `mm_placeholders` say of it.
`data` is missing when only the hash was given. -/
structure MmItem (K V U : Type) where
  mmHash : K
  data : Option (V × List U)
  offset : Nat
  numEmbeds : Nat

structure MmRequest (K V U : Type) where
  items : Dict String (List (MmItem K V U))
  encoderPrompt : Option (List Nat)
  promptTokenIds : List Nat

structure FlatItem (K V U : Type) where
  modality : String
  idx : Nat
  item : MmItem K V U

def MmRequest.flatItems {K V U : Type} (r : MmRequest K V U) : List (FlatItem K V U) :=
  r.items.entries.flatMap fun (modality, items) =>
    items.zipIdx.map fun (item, idx) => ⟨modality, idx, item⟩

def MmRequest.hashes {K V U : Type} (r : MmRequest K V U) : List K :=
  r.flatItems.map fun f => f.item.mmHash

/-- The check of `_get_cache_missing_items`: the first item that is neither cached nor given. -/
def MmRequest.getCacheMissingItems {K V U : Type} (r : MmRequest K V U) (isCached : K → Bool) :
    Except PyError Unit :=
  match r.flatItems.find? fun f => !isCached f.item.mmHash && f.item.data.isNone with
  | none => .ok ()
  | some f => .error (.valueError
      s!"Cache miss for {f.modality} at index {f.idx} but data is not provided.")

def images (hashes promptIds : List Nat) : MmRequest Nat Nat Unit where
  items := (∅ : Dict String _).set "image"
    (hashes.zipIdx.map fun (h, i) => ⟨h, some (1, []), i, 1⟩)
  encoderPrompt := none
  promptTokenIds := promptIds

theorem MmRequest.getCacheMissingItems_ok {K V U : Type} {r : MmRequest K V U} {isCached : K → Bool}
    (h : r.getCacheMissingItems isCached = .ok ()) {f : FlatItem K V U} (hf : f ∈ r.flatItems)
    (hmiss : isCached f.item.mmHash = false) : ∃ d, f.item.data = some d := by
  rw [MmRequest.getCacheMissingItems] at h
  cases hfind : r.flatItems.find? fun f => !isCached f.item.mmHash && f.item.data.isNone with
  | some g =>
    rw [hfind] at h
    cases h
  | none =>
    have hno := List.find?_eq_none.mp hfind f hf
    rw [hmiss] at hno
    exact Option.ne_none_iff_exists'.mp (by simpa using hno)

structure Feature (K V : Type) where
  data : Option V
  modality : String
  mmHash : K
  offset : Nat

structure MmConfig (V U : Type) where
  itemSize : V → Nat
  cacheCapacity : Nat
  /-- `_recompute_cached_prompt_update`. -/
  recompute : U → Nat → U
  skipPromptLengthCheck : Bool
  supportsMmInputs : Bool
  runnerGenerates : Bool
  maxModelLen : Nat
  mmEncoderCacheSize : Nat
  /-- `tokenizer.max_token_id`, if there is a tokenizer. -/
  maxTokenId : Option Nat
  vocabSize : Nat

structure Metadata (U : Type) where
  itemSize : Nat
  promptUpdates : List U

abbrev SenderCache (K U : Type) := LruCache K (Metadata U)

def isCachedItem {K U : Type} [DecidableEq K] (c : SenderCache K U) (mmHash : K) : Bool :=
  c.data.contains mmHash

abbrev ReceiverCache (K V : Type) := LruCache K V

variable {K V U : Type} [DecidableEq K] [ToString K]

def expectedCached (mmHash : K) : Fault :=
  .raised (.assertionError s!"Expected a cached item for mm_hash='{mmHash}'")

def storeItem {W : Type} (size : W → Nat) (capacity : Nat) (mmHash : K) (value : W) :
    Call Fault (LruCache K W) Unit := fun c =>
  match c.put size capacity mmHash value with
  | .ok c' => (.ok (), c')
  | .error .tooLarge => (.error (.raised (.valueError "value too large")), c)
  | .error .noVictim => (.error (.raised (.runtimeError
      "All items are pinned, cannot remove oldest from the cache.")), c)
  | .error .endless => (.error .neverReturns, c)

/-- `get_and_update_item` of both caches: `found` is returned for a stored item, `fresh` for one
that is stored now. -/
def getAndUpdateItem {W I O : Type} (size : W → Nat) (capacity : Nat) (found : W → O)
    (store : I → W) (fresh : I → O) (mmItem : Option I) (mmHash : K) :
    Call Fault (LruCache K W) O := do
  let c ← Call.get
  match c.data.get? mmHash with
  | some cached =>
    Call.modify fun c => c.touch mmHash
    return found cached
  | none =>
    match mmItem with
    | none => Call.raise (expectedCached mmHash)
    | some item =>
      storeItem size capacity mmHash (store item)
      return fresh item

namespace MmConfig
variable (cfg : MmConfig V U)

/-! ## The frontend -/

def senderGetAndUpdateItem (mmItem : Option (V × List U)) (mmHash : K) :
    Call Fault (SenderCache K U) (Option V × List U) :=
  getAndUpdateItem Metadata.itemSize cfg.cacheCapacity (fun m => (none, m.promptUpdates))
    (fun item => ⟨cfg.itemSize item.1, item.2⟩) (fun item => (some item.1, item.2)) mmItem mmHash


def mergeMmKwargs (r : MmRequest K V U) (isCached : K → Bool) :
    Call Fault (SenderCache K U) (List (Option V × List U)) := do
  Call.forEach r.hashes fun h => Call.modify fun c => c.touch h
  Call.mapEach r.flatItems fun f => do
    let mmItem := if isCached f.item.mmHash then none else f.item.data
    let (kwargs, updates) ← cfg.senderGetAndUpdateItem mmItem f.item.mmHash
    return (kwargs, updates.map fun u => cfg.recompute u f.idx)

/-- `_cached_apply_hf_processor`, from the hashes on. -/
def cachedApplyHfProcessor (r : MmRequest K V U) :
    Call Fault (SenderCache K U) (List (Option V × List U)) := do
  let c ← Call.get
  match r.getCacheMissingItems (isCachedItem c) with
  | .error e => Call.raise (.raised e)
  | .ok () => cfg.mergeMmKwargs r (isCachedItem c)

/-! ## Validation -/

inductive PromptType where
  | encoder
  | decoder
deriving DecidableEq

def PromptType.name : PromptType → String
  | .encoder => "encoder"
  | .decoder => "decoder"

def validatePromptLen (promptLen : Nat) (promptType : PromptType) : Except PyError Unit :=
  let kind := promptType.name
  let maxPromptLen := if promptType = .decoder then cfg.maxModelLen else cfg.mmEncoderCacheSize
  let suggestion := "Make sure that `max_model_len` is no smaller than the number of text tokens"
  if cfg.skipPromptLengthCheck then .ok ()
  else if promptLen = 0 ∧ promptType = .decoder then
    .error (.valueError s!"The {kind} prompt cannot be empty")
  else if promptLen > maxPromptLen then
    let suggestion := suggestion ++ if cfg.supportsMmInputs then
      " plus multimodal tokens. For image inputs, the number of image tokens depends on the number "
        ++ "of images, and possibly their aspect ratios as well."
      else "."
    .error (.valueError (s!"The {kind} prompt (length {promptLen}) is longer than the maximum model "
      ++ s!"length of {maxPromptLen}. {suggestion}"))
  else if promptLen = maxPromptLen ∧ cfg.runnerGenerates then
    let suggestion := suggestion ++ " (prompt + requested output tokens)."
    .error (.valueError (s!"The {kind} prompt (length {promptLen}) plus the number of requested "
      ++ s!"output tokens (at least 1) is longer than the maximum model length of {maxPromptLen}. "
      ++ suggestion))
  else .ok ()

def validateItems (flat : List (FlatItem K V U)) (promptType : PromptType) : Except PyError Unit :=
  let kind := promptType.name
  match flat.find? fun f => f.item.numEmbeds > cfg.mmEncoderCacheSize with
  | none => .ok ()
  | some f => .error (.valueError (s!"The {kind} prompt contains a(n) {f.modality} item with length "
      ++ s!"{f.item.numEmbeds}, which exceeds the pre-allocated encoder cache size "
      ++ s!"{cfg.mmEncoderCacheSize}. Please reduce the input size or increase the encoder cache "
      ++ "size by setting --limit-mm-per-prompt at startup."))

def validateTokenIds (promptIds : List Nat) : Except PyError Unit :=
  match cfg.maxTokenId with
  | none => .ok ()
  | some maxTokenId =>
    let maxInputId := promptIds.foldl max 0
    if promptIds ≠ [] ∧ maxInputId > max maxTokenId (cfg.vocabSize - 1) then
      .error (.valueError s!"Token id {maxInputId} is out of vocabulary")
    else .ok ()

def validateModelInput (promptIds : List Nat) (flat : List (FlatItem K V U))
    (promptType : PromptType) : Except PyError Unit := do
  cfg.validatePromptLen promptIds.length promptType
  cfg.validateItems flat promptType
  cfg.validateTokenIds promptIds

def validateModelInputs (r : MmRequest K V U) : Except PyError Unit := do
  match r.encoderPrompt with
  | none => pure ()
  | some ids => cfg.validateModelInput ids ([] : List (FlatItem K V U)) .encoder
  cfg.validateModelInput r.promptTokenIds r.flatItems .decoder

/-! ## The engine -/

def features (r : MmRequest K V U) (kwargs : List (Option V × List U)) : List (Feature K V) :=
  ((r.flatItems.zip kwargs).map fun (f, data, _) =>
    { data, modality := f.modality, mmHash := f.item.mmHash, offset := f.item.offset }).insertionSort
      fun f g => f.offset ≤ g.offset

def receiverGetAndUpdateItem (mmItem : Option V) (mmHash : K) :
    Call Fault (ReceiverCache K V) V :=
  getAndUpdateItem cfg.itemSize cfg.cacheCapacity id id id mmItem mmHash

def getAndUpdateFeatures (fs : List (Feature K V)) : Call Fault (ReceiverCache K V) (List V) := do
  Call.forEach fs fun f => Call.modify fun c => c.touch f.mmHash
  Call.mapEach fs fun f => cfg.receiverGetAndUpdateItem f.data f.mmHash

end MmConfig

/-! ## Requests -/

structure MmCaches (K V U : Type) where
  sender : SenderCache K U
  receiver : ReceiverCache K V

def MmConfig.processRequest (cfg : MmConfig V U) (r : MmRequest K V U) :
    Call Fault (MmCaches K V U) (List V) := do
  let kwargs ← (cfg.cachedApplyHfProcessor r).zoom MmCaches.sender fun c st => { st with sender := c }
  match cfg.validateModelInputs r with
  | .error e => Call.raise (.raised e)
  | .ok () =>
    (cfg.getAndUpdateFeatures (MmConfig.features r kwargs)).zoom MmCaches.receiver
      fun c st => { st with receiver := c }

end Vllm.Multimodal
