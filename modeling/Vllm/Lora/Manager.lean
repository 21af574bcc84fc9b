import Vllm.Base.Call
import Vllm.Base.LruCache
import Mathlib.Data.List.Sort

/-! The LoRA adapters of a worker. Registered adapters are kept on the host, active ones are also in a
slot of the device buffers; both sets are bounded and give up the adapter used least recently. For the
kernels, each token's adapter is turned into its slot. -/

namespace Vllm.Lora
open Base

inductive Fault where
  | raised (e : PyError)
  | neverReturns
deriving DecidableEq, Repr

structure LoraRequest where
  loraIntId : Int
  loadInplace : Bool
  id_pos : 1 ≤ loraIntId

structure LoraModel (W : Type) where
  id : Int
  loras : Dict String W

inductive LoraMappingType where
  | language
  | tower
  | connector
deriving DecidableEq, Repr

/-- `LoRAMapping`: the adapter of each token and of each sampled position, none if not positive. -/
structure LoraMapping where
  indexMapping : List Int
  promptMapping : List Int
  isPrefill : Bool
  type : LoraMappingType
deriving DecidableEq, Repr

inductive Wrapper where
  | language
  | tower
  | connector
deriving DecidableEq, Repr

/-- `MultiModelKeys`, as far as it is used. -/
structure MmMapping where
  languageModel : String
  connector : List String
  towerModel : List String

structure LoraConfig where
  maxLoras : Nat
  maxCpuLoras : Nat
  modules : List String
  isPoolingModel : Bool
  vocabSize : Nat
  /-- The parts of the model, if it is a multi-modal one. -/
  mmMapping : Option MmMapping
  supportsTowerConnectorLora : Bool
  /-- The model has `get_num_mm_connector_tokens`. -/
  countsConnectorTokens : Bool
  loras_pos : 1 ≤ maxLoras
  loras_le : maxLoras ≤ maxCpuLoras

structure PunicaMetadata where
  tokenLoraIndices : List Int := []
  samplerIndices : List Int := []
  samplerIndicesPadded : List Int := []
  embeddingsIndices : List Int × List Int := ([], [])
  isPrefill : Bool := false
deriving DecidableEq, Repr

structure LoraManager (W : Type) where
  registered : LruCache Int (LoraModel W) := ∅
  active : LruCache Int Unit := ∅
  loraIndexToId : List (Option Int)
  /-- The buffers: slot and module. -/
  buffers : Nat → String → Option W := fun _ _ => none
  lastMapping : Option LoraMapping := none
  metadata : Wrapper → PunicaMetadata := fun _ => {}

def LoraManager.init {W : Type} (cfg : LoraConfig) : LoraManager W where
  loraIndexToId := List.replicate cfg.maxLoras none

abbrev LoraCall (W : Type) := Call Fault (LoraManager W)

/-! ## The two caches -/

/-- `AdapterLRUCache`, as a part of a state: an adapter that is removed is deactivated. -/
structure AdapterLruCache (σ V : Type) where
  get : σ → LruCache Int V
  set : LruCache Int V → σ → σ
  capacity : Nat
  deactivateFn : Int → σ → σ

namespace AdapterLruCache
variable {σ V : Type} (c : AdapterLruCache σ V)

def pop (key : Int) (st : σ) : σ :=
  if (c.get st).data.contains key then c.deactivateFn key (c.set ((c.get st).erase key) st) else st

def allPinned : Fault :=
  .raised (.runtimeError "All items are pinned, cannot remove oldest from the cache.")

def popitem : Call Fault σ Unit := do
  let st ← Call.get
  match (c.get st).order.head? with
  | none => Call.raise allPinned
  | some lruKey => Call.modify (c.pop lruKey)

def removeOldest : Call Fault σ Unit := do
  let st ← Call.get
  if (c.get st).data.size = 0 then return ()
  else c.popitem

/-- The loop of `__setitem__`; `keys` are the keys from the oldest use on. -/
def makeRoom : (keys : List Int) → Call Fault σ Unit
  | [] => do
    let st ← Call.get
    Call.check (decide ((c.get st).data.size + 1 ≤ c.capacity)) allPinned
  | key :: keys => do
    let st ← Call.get
    if (c.get st).data.size + 1 ≤ c.capacity then return ()
    else if (c.get st).data.contains key then
      Call.modify (c.pop key)
      makeRoom keys
    else Call.raise .neverReturns

def setItem (key : Int) (value : V) : Call Fault σ Unit := do
  Call.check (decide (1 ≤ c.capacity)) (.raised (.valueError "value too large"))
  let st ← Call.get
  Call.when (!(c.get st).data.contains key) (c.makeRoom (c.get st).order)
  Call.modify fun st => c.set ((c.get st).insert key value) st

end AdapterLruCache

variable {W : Type}

def deactivateSlot (loraId : Int) (st : LoraManager W) : LoraManager W :=
  match st.loraIndexToId.findIdx? (· == some loraId) with
  | some index => { st with loraIndexToId := st.loraIndexToId.set index none }
  | none => st

namespace LoraConfig
variable (cfg : LoraConfig)

def activeAdapters : AdapterLruCache (LoraManager W) Unit where
  get := LoraManager.active
  set := fun active st => { st with active }
  capacity := cfg.maxLoras
  deactivateFn := deactivateSlot

def deactivateAdapter (adapterId : Int) (st : LoraManager W) : LoraManager W :=
  if st.active.data.contains adapterId then
    cfg.activeAdapters.pop adapterId (deactivateSlot adapterId st)
  else st

def registeredAdapters : AdapterLruCache (LoraManager W) (LoraModel W) where
  get := LoraManager.registered
  set := fun registered st => { st with registered }
  capacity := cfg.maxCpuLoras
  deactivateFn := cfg.deactivateAdapter

/-! ## `LRUCacheLoRAModelManager` -/

def removeAdapter (adapterId : Int) : LoraCall W Bool := do
  Call.modify (cfg.deactivateAdapter adapterId)
  let st ← Call.get
  if st.registered.data.contains adapterId then
    Call.modify (cfg.registeredAdapters.pop adapterId)
    return true
  else return false

def removeOldestAdapter : LoraCall W Bool := do
  let st ← Call.get
  if st.registered.data.size > 0 then
    cfg.registeredAdapters.removeOldest
    return true
  else return false

def registerAdapter (lora : LoraModel W) : LoraCall W Bool := do
  let st ← Call.get
  if st.registered.data.contains lora.id then
    Call.modify fun st => { st with registered := st.registered.touch lora.id }
    return false
  else
    cfg.registeredAdapters.setItem lora.id lora
    return true

def getAdapter (adapterId : Int) : LoraCall W (Option (LoraModel W)) := do
  let st ← Call.get
  match st.registered.data.get? adapterId with
  | none => return none
  | some lora =>
    Call.modify fun st => { st with registered := st.registered.touch adapterId }
    return some lora

def getLoraLayerWeights (lora : LoraModel W) (moduleName : String) : Option W :=
  let short := (moduleName.dropPrefix "model.").toString
  if cfg.isPoolingModel && !lora.loras.contains moduleName && lora.loras.contains short then
    lora.loras.get? short
  else lora.loras.get? moduleName

/-- The loop of `activate_adapter` over the modules: `set_lora`, or `reset_lora` where the adapter has
no weights. -/
def loadWeights (lora : LoraModel W) (index : Nat) (st : LoraManager W) : LoraManager W :=
  { st with buffers := fun slot name =>
      if slot = index ∧ name ∈ cfg.modules then cfg.getLoraLayerWeights lora name
      else st.buffers slot name }

def activateInFreeSlot (loraId : Int) : LoraCall W Bool := do
  let st ← Call.get
  if st.active.data.contains loraId then return false
  else
    match st.loraIndexToId.findIdx? (· == none) with
    | none => Call.raise (.raised (.valueError "No free lora slots"))
    | some index =>
      cfg.activeAdapters.setItem loraId ()
      match ← getAdapter loraId with
      | none => Call.raise (.raised .keyError)
      | some lora =>
        Call.modify fun st => { st with loraIndexToId := st.loraIndexToId.set index (some lora.id) }
        Call.modify (cfg.loadWeights lora index)
        return true

def activateAdapter (loraId : Int) : LoraCall W Bool := do
  let st ← Call.get
  Call.when (!st.active.data.contains loraId && decide (st.active.data.size ≥ cfg.maxLoras))
    cfg.activeAdapters.removeOldest
  let result ← cfg.activateInFreeSlot loraId
  Call.modify fun st => { st with active := st.active.touch loraId }
  return result

/-! ## The metadata of the kernels -/

/-- `lora_index_to_id.index(x) if x > 0 else -1`. -/
def slotOf (loraIndexToId : List (Option Int)) (x : Int) : Except PyError Int :=
  if x > 0 then
    match loraIndexToId.findIdx? (· == some x) with
    | some index => .ok index
    | none => .error (.valueError s!"{x} is not in list")
  else .ok (-1)

def convertMapping (mapping : LoraMapping) (loraIndexToId : List (Option Int)) :
    Except PyError PunicaMetadata := do
  let samplerIndices ← mapping.promptMapping.mapM (slotOf loraIndexToId)
  let loraIndices ← mapping.indexMapping.mapM (slotOf loraIndexToId)
  let embeddingIndices := loraIndices.zipWith (fun index x => if x > 0 then index else 0)
    mapping.indexMapping
  let orLast (index : Int) : Int := if index = -1 then cfg.maxLoras else index
  return {
    tokenLoraIndices := loraIndices
    samplerIndices
    samplerIndicesPadded := samplerIndices.zipIdx.map fun (index, i) =>
      i + orLast index * samplerIndices.length
    embeddingsIndices := (embeddingIndices.map fun index => orLast (index * 0),
      embeddingIndices.map fun index => orLast (index * cfg.vocabSize))
    isPrefill := mapping.isPrefill }

def punicaWrapperMapping (mm : MmMapping) : Dict String Wrapper :=
  let language := (∅ : Dict String Wrapper).set mm.languageModel .language
  if cfg.supportsTowerConnectorLora then
    let towers := mm.towerModel.foldl (fun d name => d.set name .tower) language
    if cfg.countsConnectorTokens then
      mm.connector.foldl (fun d name => d.set name .connector) towers
    else towers
  else language

/-- `_get_punica_wrapper`: the longest of the names that the module's name starts with. -/
def getPunicaWrapper (moduleName : String) : Option Wrapper :=
  match cfg.mmMapping with
  | none => some .language
  | some mm =>
    let names := (cfg.punicaWrapperMapping mm).entries.insertionSort
      fun e e' => e'.1.length ≤ e.1.length
    (names.find? fun e => e.1.toList.isPrefixOf moduleName.toList).map Prod.snd

def targetWrapper (type : LoraMappingType) : Option Wrapper :=
  match cfg.mmMapping with
  | none => cfg.getPunicaWrapper "language_model"
  | some mm =>
    let target :=
      if cfg.supportsTowerConnectorLora then
        match type, mm.towerModel, mm.connector with
        | .tower, name :: _, _ => name
        | .connector, _, name :: _ => name
        | _, _, _ => mm.languageModel
      else mm.languageModel
    cfg.getPunicaWrapper target

def updateMetadata (mapping : LoraMapping) : LoraCall W Unit := do
  match cfg.targetWrapper mapping.type with
  | none => Call.raise (.raised (.assertionError ""))
  | some wrapper =>
    let st ← Call.get
    match cfg.convertMapping mapping st.loraIndexToId with
    | .error e => Call.raise (.raised e)
    | .ok indices => Call.modify fun st => { st with
        metadata := fun w => if w = wrapper then indices else st.metadata w }

def setAdapterMapping (mapping : LoraMapping) : LoraCall W Unit := do
  let st ← Call.get
  Call.when (decide (st.lastMapping ≠ some mapping)) do
    cfg.updateMetadata mapping
    Call.modify fun st => { st with lastMapping := some mapping }

/-! ## `LRUCacheWorkerLoRAManager` -/

def takeIn (lora : LoraModel W) : LoraCall W Bool := do
  let _ ← cfg.removeAdapter lora.id
  let st ← Call.get
  Call.when (decide (st.registered.data.size + 1 > cfg.maxCpuLoras)) do
    let _ ← cfg.removeOldestAdapter
  cfg.registerAdapter lora

/-- The part of `add_adapter` before the activation; `loaded` is what loading the adapter gives, if it
comes to that. -/
def loadOrTouch (r : LoraRequest) (loaded : Except PyError (Dict String W)) : LoraCall W Bool := do
  let st ← Call.get
  if !st.registered.data.contains r.loraIntId || r.loadInplace then
    match loaded with
    | .error e => Call.raise (.raised e)
    | .ok loras => cfg.takeIn ⟨r.loraIntId, loras⟩
  else
    let lora ← getAdapter r.loraIntId
    return lora.isSome

def addAdapter (r : LoraRequest) (loaded : Except PyError (Dict String W)) : LoraCall W Bool := do
  let added ← cfg.loadOrTouch r loaded
  let _ ← cfg.activateAdapter r.loraIntId
  return added

def lorasMap (requests : List (LoraRequest × Except PyError (Dict String W))) :
    Dict Int (LoraRequest × Except PyError (Dict String W)) :=
  requests.foldl (fun d r => d.set r.1.loraIntId r) ∅

def applyAdapters (requests : List (LoraRequest × Except PyError (Dict String W))) :
    LoraCall W Unit := do
  Call.check (decide ((lorasMap requests).size ≤ cfg.maxLoras)) (.raised (.runtimeError
    (s!"Number of requested LoRAs ({(lorasMap requests).size}) is greater "
      ++ s!"than the number of GPU LoRA slots ({cfg.maxLoras}).")))
  Call.forEach (lorasMap requests).entries fun (_, r, loaded) => do
    let _ ← cfg.addAdapter r loaded

def setActiveAdapters (requests : List (LoraRequest × Except PyError (Dict String W)))
    (mapping : Option LoraMapping) : LoraCall W Unit := do
  cfg.applyAdapters requests
  match mapping with
  | none => return ()
  | some mapping => cfg.setAdapterMapping mapping

end LoraConfig

inductive LoraOp (W : Type) where
  | add (r : LoraRequest) (loaded : Except PyError (Dict String W))
  | remove (adapterId : Int)
  | setActive (requests : List (LoraRequest × Except PyError (Dict String W)))
      (mapping : Option LoraMapping)

def LoraOp.exec (cfg : LoraConfig) : LoraOp W → LoraCall W Unit
  | add r loaded => do let _ ← cfg.addAdapter r loaded
  | remove adapterId => do let _ ← cfg.removeAdapter adapterId
  | setActive requests mapping => cfg.setActiveAdapters requests mapping

def LoraOp.next (cfg : LoraConfig) (op : LoraOp W) (st : LoraManager W) : LoraManager W :=
  (op.exec cfg st).2

end Vllm.Lora
