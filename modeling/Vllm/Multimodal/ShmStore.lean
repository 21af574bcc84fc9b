import Vllm.Multimodal.Caches

/-! The object store in shared memory that the frontend fills and the workers read. The frontend is
the only writer. An object may be freed once its reader count, which the workers raise, has caught up
with the frontend's own count of uses times the number of workers. -/

namespace Vllm.Multimodal
open Base

inductive ShmError where
  | raised (e : PyError)
  | memoryError (message : String)
  | overflowError
deriving DecidableEq, Repr

def idMax : Nat := 2 ^ 31

/-- `MD_SIZE`: four bytes for the id and four for the size. -/
def mdSize : Nat := 8

def flagBytes : Nat := 4

structure ShmConfig (V : Type) where
  dataBufferSize : Nat
  maxObjectSize : Nat
  nReaders : Nat
  /-- The bytes of a serialized object with its metadata. -/
  serializedSize : V → Nat
  buffer_pos : 0 < dataBufferSize
  readers_pos : 0 < nReaders

structure Chunk (V : Type) where
  id : Nat
  size : Nat
  readerCount : Nat
  value : V

/-- The shared buffer, by the index where a chunk starts, and what the writer keeps: the ring buffer
and `SingleWriterShmObjectStorage`, with `ShmObjectStoreSenderCache._p0_cache`. -/
structure ShmStore (K V U : Type) where
  memory : Nat → Option (Chunk V) := fun _ => none
  metadata : Dict Nat Nat := ∅
  monotonicIdStart : Nat := 0
  monotonicIdEnd : Nat := 0
  dataBufferStart : Nat := 0
  dataBufferEnd : Nat := 0
  keyIndex : Dict K (Nat × Nat) := ∅
  idIndex : Dict Nat K := ∅
  writerFlag : Dict Nat Nat := ∅
  p0Cache : Dict K (List U) := ∅

inductive FeatureData (V : Type) where
  | address (address id : Nat)
  | value (value : V)

abbrev ShmCall (K V U : Type) := Call ShmError (ShmStore K V U)

variable {K V U : Type} [DecidableEq K]

namespace ShmConfig
variable (cfg : ShmConfig V)

/-! ## The ring buffer -/

/-- Where the next chunk of `size` bytes goes: after the last one, or at the beginning of the buffer
if there is not enough contiguous space. -/
def bufferEndReset (st : ShmStore K V U) (size : Nat) : Nat :=
  if st.dataBufferEnd % cfg.dataBufferSize + size > cfg.dataBufferSize then
    (st.dataBufferEnd / cfg.dataBufferSize + 1) * cfg.dataBufferSize
  else st.dataBufferEnd

def placeChunk (st : ShmStore K V U) (address size : Nat) (value : V) : ShmStore K V U :=
  { st with
    memory := fun i => if i = address % cfg.dataBufferSize then
      some ⟨st.monotonicIdEnd, size, 0, value⟩ else st.memory i
    metadata := st.metadata.set (st.monotonicIdEnd % idMax) address
    dataBufferEnd := address + size
    monotonicIdEnd := (st.monotonicIdEnd + 1) % idMax }

def allocateBuf (size : Nat) (value : V) : ShmCall K V U (Nat × Nat) := fun st =>
  let size := size + mdSize
  let address := cfg.bufferEndReset st size
  if address + size > cfg.dataBufferSize + st.dataBufferStart then
    (.error (.memoryError
      "Not enough space in the data buffer, try calling free_buf() to free up space"), st)
  else (.ok (address, st.monotonicIdEnd), cfg.placeChunk st address size value)

def accessBuf (st : ShmStore K V U) (address : Nat) : Option (Chunk V) :=
  st.memory (address % cfg.dataBufferSize)

def defaultIsFreeCheck (st : ShmStore K V U) (id : Nat) (chunk : Chunk V) : Bool :=
  decide (chunk.readerCount ≥ (st.writerFlag.get? id).getD 0 * cfg.nReaders)

def freeFirst (st : ShmStore K V U) : ShmStore K V U :=
  let metadata := st.metadata.erase st.monotonicIdStart
  let idStart := (st.monotonicIdStart + 1) % idMax
  match metadata.get? idStart with
  | some address =>
    { st with
      metadata
      monotonicIdStart := idStart
      dataBufferStart := st.dataBufferStart +
        (((address : Int) - st.dataBufferStart) % cfg.dataBufferSize).toNat }
  | none =>
    { st with metadata, monotonicIdStart := idStart, dataBufferStart := 0, dataBufferEnd := 0 }

/-- The loop of `free_buf` (`turns` bounds the chunks there are): the ids it frees. -/
def freeLoop (nbytes : Nat) : (turns freedBytes : Nat) → ShmStore K V U → List Nat × ShmStore K V U
  | 0, _, st => ([], st)
  | turns + 1, freedBytes, st =>
    match st.metadata.get? st.monotonicIdStart with
    | none => ([], st)
    | some address =>
      if freedBytes < nbytes then
        match cfg.accessBuf st address with
        | none => ([], st)
        | some chunk =>
          if cfg.defaultIsFreeCheck st st.monotonicIdStart chunk then
            let (ids, st') := freeLoop nbytes turns (freedBytes + chunk.size) (cfg.freeFirst st)
            (st.monotonicIdStart :: ids, st')
          else ([], st)
      else ([], st)

def wrapAround (st : ShmStore K V U) : ShmStore K V U :=
  if st.dataBufferStart ≥ cfg.dataBufferSize then
    { st with
      dataBufferStart := st.dataBufferStart - cfg.dataBufferSize
      dataBufferEnd := st.dataBufferEnd - cfg.dataBufferSize }
  else st

def forget (st : ShmStore K V U) (id : Nat) : ShmStore K V U :=
  match st.idIndex.get? id with
  | none => st
  | some key =>
    { st with
      keyIndex := st.keyIndex.erase key
      idIndex := st.idIndex.erase id
      writerFlag := st.writerFlag.erase id }

def freeUnused (st : ShmStore K V U) : ShmStore K V U :=
  let (ids, st') := cfg.freeLoop (2 * cfg.maxObjectSize) st.metadata.size 0 st
  ids.foldl forget (cfg.wrapAround st')

/-! ## The writer -/

def incrementWriterFlag (id : Nat) : ShmCall K V U Unit :=
  Call.modify fun st =>
    { st with writerFlag := st.writerFlag.set id ((st.writerFlag.get? id).getD 0 + 1) }

def touchKey (key : K) : ShmCall K V U Unit := do
  let st ← Call.get
  match st.keyIndex.get? key with
  | none => return ()
  | some (_, id) => incrementWriterFlag id

def getCached (key : K) : ShmCall K V U (Nat × Nat) := do
  let st ← Call.get
  match st.keyIndex.get? key with
  | none => Call.raise (.raised .keyError)
  | some (address, id) =>
    incrementWriterFlag id
    return (address, id)

/-- `allocate_buf`, and once more after `free_unused` if there is not enough space. -/
def allocateOrFree (size : Nat) (value : V) : ShmCall K V U (Nat × Nat) := fun st =>
  match (cfg.allocateBuf size value : ShmCall K V U _) st with
  | (.error (.memoryError _), st) => cfg.allocateBuf size value (cfg.freeUnused st)
  | result => result

def put [ToString K] (key : K) (value : V) : ShmCall K V U (Nat × Nat) := do
  let st ← Call.get
  Call.check (!st.keyIndex.contains key)
    (.raised (.valueError s!"Key '{key}' already exists in the storage."))
  let bufferSize := flagBytes + cfg.serializedSize value
  Call.check (bufferSize ≤ cfg.maxObjectSize) (.raised (.valueError
    (s!"Serialized object size ({bufferSize} bytes) exceeds max object size "
      ++ s!"({cfg.maxObjectSize} bytes)")))
  let (address, id) ← cfg.allocateOrFree bufferSize value
  incrementWriterFlag id
  Call.modify fun st =>
    { st with keyIndex := st.keyIndex.set key (address, id), idIndex := st.idIndex.set id key }
  return (address, id)

def removeDanglingItems (st : ShmStore K V U) : ShmStore K V U :=
  { st with p0Cache :=
      (st.p0Cache.keys.filter fun k => !st.keyIndex.contains k).foldl Dict.erase st.p0Cache }

def boundItems (st : ShmStore K V U) : ShmStore K V U :=
  if st.p0Cache.size ≥ 2 * st.keyIndex.size then removeDanglingItems st else st

/-- The part of `get_and_update_item` that stores a new item, or keeps it if that fails. -/
def storeOrKeep [ToString K] (item : V) (updates : List U) (mmHash : K) :
    ShmCall K V U (FeatureData V × List U) := fun st =>
  match cfg.put mmHash item st with
  | (.ok (address, id), st) =>
    (.ok (.address address id, updates),
      { boundItems st with p0Cache := (boundItems st).p0Cache.set mmHash updates })
  | (.error (.raised (.valueError _)), st) => (.ok (.value item, updates), st)
  | (.error (.memoryError _), st) => (.ok (.value item, updates), st)
  | (.error e, st) => (.error e, st)

def shmGetAndUpdateItem [ToString K] (mmItem : Option (V × List U)) (mmHash : K) :
    ShmCall K V U (FeatureData V × List U) := do
  let st ← Call.get
  if st.keyIndex.contains mmHash then
    let (address, id) ← getCached mmHash
    match st.p0Cache.get? mmHash with
    | none => Call.raise (.raised .keyError)
    | some updates => return (.address address id, updates)
  else
    match mmItem with
    | none => Call.raise (.raised
        (.assertionError s!"Expected a cached item for mm_hash='{mmHash}'"))
    | some (item, updates) => cfg.storeOrKeep item updates mmHash

/-! ## The readers -/

def setReaderCount (address count : Nat) : ShmCall K V U Unit :=
  Call.modify fun st => { st with
    memory := fun i =>
      if i = address % cfg.dataBufferSize then
        (st.memory i).map (fun chunk => { chunk with readerCount := count })
      else st.memory i }

/-- `increment_reader_flag`: the count has four bytes and a sign. -/
def incrementReaderFlag (address count : Nat) : ShmCall K V U Unit := do
  Call.check (count + 1 < 2 ^ 31) .overflowError
  cfg.setReaderCount address (count + 1)

/-- `touch` of a reader: the id is not looked at. -/
def touchAddress (address : Nat) : ShmCall K V U Unit := do
  let st ← Call.get
  match cfg.accessBuf st address with
  | none => return ()
  | some chunk =>
    if chunk.readerCount ≥ cfg.nReaders then cfg.incrementReaderFlag address chunk.readerCount

def getObject (address id : Nat) : ShmCall K V U V := do
  let st ← Call.get
  let invalid : ShmError :=
    .raised (.valueError s!"Data for address:id '{address}:{id}' has been modified or is invalid.")
  match cfg.accessBuf st address with
  | none => Call.raise invalid
  | some chunk =>
    Call.check (chunk.id == id) invalid
    cfg.incrementReaderFlag address chunk.readerCount
    return chunk.value

end ShmConfig

/-! ## Frontend and workers -/

/-- A feature on its way to the workers. `fresh` says that its item was not cached before the request,
so that the request itself stored the object; no process looks at it. -/
structure ShmFeature (V : Type) where
  data : FeatureData V
  offset : Nat
  fresh : Bool

/-- `_merge_mm_kwargs` on the frontend, item by item: `cached` are the hashes of the request that
were cached before it (`mm_is_cached`). -/
inductive Frontend (K V U : Type) where
  | idle
  | touching (cached : List K) (todo : List K) (items : List (FlatItem K V U))
  | updating (cached : List K) (todo : List (FlatItem K V U)) (out : List (ShmFeature V))

/-- A worker in `get_and_update_features`, with the requests that wait. -/
structure ShmWorker (V : Type) where
  touches : List (ShmFeature V) := []
  gets : List (ShmFeature V) := []
  queue : List (List (ShmFeature V)) := []

structure ShmSystem (K V U : Type) where
  store : ShmStore K V U := {}
  frontend : Frontend K V U := .idle
  workers : Nat → ShmWorker V := fun _ => {}

inductive ShmOp (K V U : Type) where
  | request (r : MmRequest K V U)
  | frontend
  | worker (w : Nat)

namespace ShmConfig
variable (cfg : ShmConfig V)

def onStore {α : Type} (m : ShmCall K V U α) : Call ShmError (ShmSystem K V U) α :=
  m.zoom ShmSystem.store fun store st => { st with store }

def setFrontend (frontend : Frontend K V U) : Call ShmError (ShmSystem K V U) Unit :=
  Call.modify fun st => { st with frontend }

def setWorker (w : Nat) (worker : ShmWorker V) : Call ShmError (ShmSystem K V U) Unit :=
  Call.modify fun st => { st with workers := fun v => if v = w then worker else st.workers v }

/-- The engine gives a request to every worker, with its features sorted by position. -/
def handOut (out : List (ShmFeature V)) : Call ShmError (ShmSystem K V U) Unit :=
  Call.modify fun st => { st with
    frontend := .idle
    workers := fun w => { st.workers w with
      queue := (st.workers w).queue ++ [out.insertionSort fun f g => f.offset ≤ g.offset] } }

def requestStep (r : MmRequest K V U) : Call ShmError (ShmSystem K V U) Unit := do
  let st ← Call.get
  match st.frontend with
  | .idle =>
    match r.getCacheMissingItems fun h => st.store.keyIndex.contains h with
    | .error e => Call.raise (.raised e)
    | .ok () =>
      let cached := r.hashes.filter fun h => st.store.keyIndex.contains h
      setFrontend (.touching cached r.hashes r.flatItems)
  | _ => return ()

def frontendStep [ToString K] : Call ShmError (ShmSystem K V U) Unit := do
  let st ← Call.get
  match st.frontend with
  | .idle => return ()
  | .touching cached (hash :: todo) items =>
    onStore (touchKey hash)
    setFrontend (.touching cached todo items)
  | .touching cached [] items => setFrontend (.updating cached items [])
  | .updating cached (f :: todo) out =>
    let mmItem := if f.item.mmHash ∈ cached then none else f.item.data
    let (data, _) ← onStore (cfg.shmGetAndUpdateItem mmItem f.item.mmHash)
    let feature := { data, offset := f.item.offset, fresh := decide (f.item.mmHash ∉ cached) }
    setFrontend (.updating cached todo (out ++ [feature]))
  | .updating _ [] out => handOut out

def touchFeature (f : ShmFeature V) : Call ShmError (ShmSystem K V U) Unit :=
  match f.data with
  | .address address _ => onStore (cfg.touchAddress address)
  | .value _ => pure ()

def getFeature (f : ShmFeature V) : Call ShmError (ShmSystem K V U) V :=
  match f.data with
  | .address address id => onStore (cfg.getObject address id)
  | .value value => pure value

def workerStep (w : Nat) : Call ShmError (ShmSystem K V U) Unit := do
  let st ← Call.get
  let worker := st.workers w
  match worker.touches, worker.gets, worker.queue with
  | f :: touches, gets, queue =>
    cfg.touchFeature f
    setWorker w { touches, gets, queue }
  | [], f :: gets, queue =>
    let _ ← cfg.getFeature f
    setWorker w { touches := [], gets, queue }
  | [], [], request :: queue => setWorker w { touches := request, gets := request, queue }
  | [], [], [] => return ()

end ShmConfig

def ShmOp.exec [ToString K] (cfg : ShmConfig V) :
    ShmOp K V U → Call ShmError (ShmSystem K V U) Unit
  | request r => ShmConfig.requestStep r
  | frontend => cfg.frontendStep
  | worker w => cfg.workerStep w

def ShmOp.next [ToString K] (cfg : ShmConfig V) (op : ShmOp K V U) (st : ShmSystem K V U) :
    ShmSystem K V U :=
  (op.exec cfg st).2

end Vllm.Multimodal
