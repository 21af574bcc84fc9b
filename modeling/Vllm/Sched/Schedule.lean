import Vllm.Sched.State

/-! `Scheduler.schedule` of `scheduler.py` with `_update_after_schedule` of both schedulers. A
`while` loop whose every turn removes a request from a queue or passes one by is bounded by the
lengths of the queues. -/

namespace Vllm
open Base

structure StepLocals where
  tokenBudget : Int
  encoderComputeBudget : Int
  reqIndex : Nat := 0
  scheduledNewReqs : List String := []
  scheduledResumedReqs : List String := []
  scheduledRunningReqs : List String := []
  preemptedReqs : List String := []
  reqToNewBlocks : Dict String (Option (List (List Nat))) := ∅
  numScheduledTokens : Dict String Int := ∅
  scheduledSpecDecodeTokens : Dict String (List Token) := ∅
  scheduledEncoderInputs : Dict String (List Nat) := ∅
  scheduledLoras : List Nat := []
  stepSkippedWaiting : List String := []

abbrev Step (D : Type) := Scheduler D × StepLocals

abbrev SchedCall (D α : Type) := Call PyError (Scheduler D) α

abbrev StepCall (D α : Type) := Call PyError (Step D) α

section
variable {D : Type}

def onKv {α : Type} (m : KVCall D α) : SchedCall D α :=
  m.zoom (·.kv) fun kv s => { s with kv }

def onEncoder {α : Type} (m : EncoderCacheManager.EncCall α) : SchedCall D α :=
  m.zoom (·.encoder) fun encoder s => { s with encoder }

def modifyLocals (f : StepLocals → StepLocals) : StepCall D Unit :=
  Call.modify fun st => (st.1, f st.2)

/-- The object behind an id. An id in a queue without one stands for a finished request that was
left there. -/
def requestOf (id : String) : SchedCall D (SchedRequest D) := do
  let s ← Call.get
  match s.requests.get? id with
  | none => Call.raise .outsideModel
  | some r => return r

/-- Assigns `num_computed_tokens`, of which the model has the natural numbers. -/
def withComputed (r : SchedRequest D) (n : Int) : SchedCall D (SchedRequest D) :=
  if n < 0 then Call.raise .outsideModel else return { r with numComputedTokens := n.toNat }

def setRequest (r : SchedRequest D) : SchedCall D Unit :=
  Call.modify fun s => s.setRequest r.requestId r

end

namespace SchedConfig
variable {D : Type} [DecidableEq D] (cfg : SchedConfig D)

/-! ## Encoder inputs -/

/-- How far the encoder inputs of a request look past its tokens: one position with EAGLE. -/
def shiftComputedTokens : Int := if cfg.kv.useEagle then 1 else 0

structure EncoderTrial where
  inputs : List Nat := []
  numNewTokens : Int
  encoderComputeBudget : Int
  mmHashesToSchedule : List String := []
  numEmbedsToSchedule : Int := 0

def EncoderTrial.add (t : EncoderTrial) (i : Nat) (f : MultiModalFeatureSpec) : EncoderTrial :=
  { t with
    inputs := t.inputs ++ [i]
    encoderComputeBudget := t.encoderComputeBudget - f.numEmbeds
    mmHashesToSchedule := f.identifier :: t.mmHashesToSchedule
    numEmbedsToSchedule := t.numEmbedsToSchedule + f.numEmbeds }

def numEmbedsInRange (f : MultiModalFeatureSpec) (numComputedTokens numNewTokens : Int) : Int :=
  let startPos : Int := f.mmPosition.offset
  let (first, last) := f.mmPosition.getEmbedsIndicesInRange (max 0 (numComputedTokens - startPos))
    (min f.mmPosition.length (numComputedTokens + numNewTokens - startPos))
  last - first

def tokensBefore (f : MultiModalFeatureSpec) (numComputedTokens : Int) : Int :=
  if numComputedTokens + cfg.shiftComputedTokens < f.mmPosition.offset then
    f.mmPosition.offset - (numComputedTokens + cfg.shiftComputedTokens)
  else 0

def splitsItem (f : MultiModalFeatureSpec) (numComputedTokens numNewTokens : Int) : Bool :=
  cfg.disableChunkedMmInput && numComputedTokens < f.mmPosition.offset &&
    numComputedTokens + numNewTokens < f.mmPosition.offset + f.mmPosition.length

def encoderLoop (requestId : String) (numComputedTokens : Int) :
    List (MultiModalFeatureSpec × Nat) → EncoderTrial → EncoderCacheManager.EncCall EncoderTrial
  | [], t => return t
  | (f, i) :: fs, t =>
    if f.mmPosition.offset ≥ numComputedTokens + t.numNewTokens + cfg.shiftComputedTokens then
      return t
    else if f.mmPosition.offset + f.mmPosition.length ≤ numComputedTokens then
      encoderLoop requestId numComputedTokens fs t
    else if f.identifier ∈ t.mmHashesToSchedule then encoderLoop requestId numComputedTokens fs t
    else do
      let isCached ← EncoderCacheManager.checkAndUpdateCache requestId f
      if isCached then encoderLoop requestId numComputedTokens fs t
      else if cfg.splitsItem f numComputedTokens t.numNewTokens then
        let numNewTokens : Int :=
          max 0 (f.mmPosition.offset - (numComputedTokens + cfg.shiftComputedTokens))
        return { t with numNewTokens }
      else do
        let fits ← EncoderCacheManager.canAllocate f t.encoderComputeBudget t.numEmbedsToSchedule
        if !fits then return { t with numNewTokens := cfg.tokensBefore f numComputedTokens }
        else if numEmbedsInRange f numComputedTokens t.numNewTokens = 0 then
          encoderLoop requestId numComputedTokens fs t
        else encoderLoop requestId numComputedTokens fs (t.add i f)

def tryScheduleEncoderInputs (r : SchedRequest D)
    (numComputedTokens numNewTokens encoderComputeBudget : Int) : SchedCall D EncoderTrial :=
  if numNewTokens = 0 ∨ !r.hasEncoderInputs then return { numNewTokens, encoderComputeBudget }
  else onEncoder (cfg.encoderLoop r.requestId numComputedTokens r.mmFeatures.zipIdx
    { numNewTokens, encoderComputeBudget })

def featuresOf (r : SchedRequest D) (inputs : List Nat) : List MultiModalFeatureSpec :=
  inputs.filterMap (r.mmFeatures[·]?)

def allocateEncoderInputs (r : SchedRequest D) (t : EncoderTrial) : StepCall D Unit :=
  if t.inputs = [] then return ()
  else do
    modifyLocals fun l =>
      { l with scheduledEncoderInputs := l.scheduledEncoderInputs.set r.requestId t.inputs }
    Call.lift (onEncoder (Call.forEach (featuresOf r t.inputs)
      (EncoderCacheManager.allocate r.requestId)))
    modifyLocals fun l => { l with encoderComputeBudget := t.encoderComputeBudget }

/-! ## Preemption -/

def preemptRequest (id : String) : SchedCall D Unit := do
  let r ← requestOf id
  Call.check (r.status = .running) (.assertionError "Only running requests can be preempted")
  onKv (cfg.kv.free id)
  Call.modify fun s =>
    { s.setRequest id { r with status := .preempted, numComputedTokens := 0, specTokenIds := [] }
      with
      encoder := s.encoder.free id r.mmFeatures
      waiting := cfg.policy.prependRequest s.idLt s.waiting id }

/-- The first of the requests with the greatest `(priority, arrival_time)`. -/
def lowestPriority (s : Scheduler D) : List String → Option String
  | [] => none
  | id :: ids =>
    match lowestPriority s ids with
    | none => some id
    | some other =>
      match s.requests.get? id, s.requests.get? other with
      | some a, some b => if a.keyLt b then some other else some id
      | _, _ => some id

def unschedule (s : Scheduler D) (id : String) (l : StepLocals) : StepLocals :=
  let inputs := (l.scheduledEncoderInputs.get? id).getD []
  let features := ((s.requests.get? id).map (featuresOf · inputs)).getD []
  { l with
    scheduledRunningReqs := l.scheduledRunningReqs.erase id
    tokenBudget := l.tokenBudget + (l.numScheduledTokens.get? id).getD 0
    numScheduledTokens := l.numScheduledTokens.erase id
    reqToNewBlocks := l.reqToNewBlocks.erase id
    scheduledSpecDecodeTokens := l.scheduledSpecDecodeTokens.erase id
    scheduledEncoderInputs := l.scheduledEncoderInputs.erase id
    encoderComputeBudget := l.encoderComputeBudget + (features.map (·.numEmbeds)).sum
    reqIndex := l.reqIndex - 1 }

def takeVictim : StepCall D String := do
  let (s, l) ← Call.get
  match cfg.policy with
  | .fcfs =>
    match s.running.getLast? with
    | none => Call.raise .indexError
    | some id => do
      Call.modify fun st => ({ st.1 with running := st.1.running.dropLast }, st.2)
      return id
  | .priority =>
    match lowestPriority s s.running with
    | none => Call.raise (.valueError "max() iterable argument is empty")
    | some id => do
      Call.modify fun st => ({ st.1 with running := st.1.running.erase id },
        if id ∈ l.scheduledRunningReqs then unschedule s id st.2 else st.2)
      return id

/-- `while True`: preempts requests until the blocks for the new tokens can be allocated or the
request itself is preempted. -/
def allocateOrPreempt (r : SchedRequest D) (numNewTokens : Int) :
    Nat → StepCall D (Option (Option (List (List Nat))))
  | 0 => Call.raise .outsideModel
  | fuel + 1 => do
    let newBlocks ← Call.lift (onKv (cfg.kv.allocateSlots r.toRequest
      { numNewTokens, numLookaheadTokens := cfg.numLookaheadTokens }))
    match newBlocks with
    | some blocks => return some blocks
    | none => do
      let victim ← cfg.takeVictim
      Call.lift (cfg.preemptRequest victim)
      modifyLocals fun l => { l with preemptedReqs := l.preemptedReqs ++ [victim] }
      if victim = r.requestId then return none
      else allocateOrPreempt r numNewTokens fuel

/-! ## Running requests -/

/-- The request has reached `max_tokens` once the steps in flight have returned. -/
def reachesMaxTokens (r : SchedRequest D) : Bool :=
  r.numOutputPlaceholders > 0 &&
    r.numComputedTokens + 2 - r.numOutputPlaceholders ≥ r.numPromptTokens + r.maxTokens

def capByThreshold (n : Int) : Int :=
  if 0 < cfg.longPrefillTokenThreshold ∧ (cfg.longPrefillTokenThreshold : Int) < n then
    cfg.longPrefillTokenThreshold
  else n

def numNewRunning (r : SchedRequest D) (tokenBudget : Int) : Int :=
  let n : Int := r.numTokensWithSpec + r.numOutputPlaceholders - r.numComputedTokens
  min (min (cfg.capByThreshold n) tokenBudget) (cfg.kv.maxModelLen - 1 - r.numComputedTokens)

def scheduledDrafts (r : SchedRequest D) (n : Int) : List Token :=
  r.specTokenIds.take (n + r.numComputedTokens - r.numTokens - r.numOutputPlaceholders).toNat

def recordRunning (r : SchedRequest D) (n : Int) (newBlocks : Option (List (List Nat)))
    (l : StepLocals) : StepLocals :=
  { l with
    scheduledRunningReqs := l.scheduledRunningReqs ++ [r.requestId]
    reqToNewBlocks := l.reqToNewBlocks.set r.requestId newBlocks
    numScheduledTokens := l.numScheduledTokens.set r.requestId n
    tokenBudget := l.tokenBudget - n
    reqIndex := l.reqIndex + 1
    scheduledSpecDecodeTokens :=
      if scheduledDrafts r n = [] then l.scheduledSpecDecodeTokens
      else l.scheduledSpecDecodeTokens.set r.requestId (scheduledDrafts r n) }

def passBy : StepCall D Unit := modifyLocals fun l => { l with reqIndex := l.reqIndex + 1 }

def scheduleRunning (r : SchedRequest D) (t : EncoderTrial)
    (newBlocks : Option (List (List Nat))) : StepCall D Unit := do
  Call.modify fun st => (st.1.setRequest r.requestId { r with specTokenIds := [] },
    recordRunning r t.numNewTokens newBlocks st.2)
  allocateEncoderInputs r t

/-- One turn of the loop over `running`; `false` leaves the loop. -/
def visitRunning (id : String) : StepCall D Bool := do
  let r ← Call.lift (requestOf id)
  if reachesMaxTokens r then do
    passBy
    return true
  else do
    let l ← Call.gets Prod.snd
    let t ← Call.lift (cfg.tryScheduleEncoderInputs r r.numComputedTokens
      (cfg.numNewRunning r l.tokenBudget) l.encoderComputeBudget)
    if t.numNewTokens = 0 then do
      passBy
      return true
    else do
      let numRunning ← Call.gets fun st => st.1.running.length
      let newBlocks ← cfg.allocateOrPreempt r t.numNewTokens (numRunning + 1)
      match newBlocks with
      | none => return false
      | some blocks => do
        scheduleRunning r t blocks
        return true

def runningLoop : Nat → StepCall D Unit
  | 0 => return ()
  | fuel + 1 => do
    let (s, l) ← Call.get
    match s.running[l.reqIndex]? with
    | none => return ()
    | some id =>
      if l.tokenBudget > 0 then do
        let goOn ← cfg.visitRunning id
        if goOn then runningLoop fuel else return ()
      else return ()

/-! ## Waiting requests -/

inductive WaitingQueue where
  | waiting
  | skippedWaiting
deriving DecidableEq

def queue (s : Scheduler D) : WaitingQueue → List String
  | .waiting => s.waiting
  | .skippedWaiting => s.skippedWaiting

def setQueue (s : Scheduler D) (ids : List String) : WaitingQueue → Scheduler D
  | .waiting => { s with waiting := ids }
  | .skippedWaiting => { s with skippedWaiting := ids }

def selectWaitingQueueForScheduling (s : Scheduler D) : WaitingQueue :=
  match cfg.policy with
  | .fcfs => if s.skippedWaiting ≠ [] then .skippedWaiting else .waiting
  | .priority =>
    match s.waiting.head?, s.skippedWaiting.head? with
    | some waitingReq, some skippedReq =>
      if s.idLt waitingReq skippedReq then .waiting else .skippedWaiting
    | some _, none => .waiting
    | none, _ => .skippedWaiting

def popQueue (q : WaitingQueue) (s : Scheduler D) : Scheduler D :=
  setQueue s (cfg.policy.popRequest s.idLt (queue s q)) q

def skipWaiting (q : WaitingQueue) (id : String) : StepCall D Unit :=
  Call.modify fun st => (cfg.popQueue q st.1,
    { st.2 with
      stepSkippedWaiting := cfg.policy.prependRequest st.1.idLt st.2.stepSkippedWaiting id })

/-- Whether a request at the head of a queue may be scheduled, after a try to promote it. -/
def tryPromote (r : SchedRequest D) : SchedCall D Bool :=
  match r.status with
  | .waitingForFsm =>
    if r.useStructuredOutput && r.grammarReady then do
      setRequest { r with status := .waiting }
      return true
    else return false
  | .waitingForStreamingReq => do
    Call.check (r.streamingQueue.getD [] = []) (.assertionError "not request.streaming_queue")
    return false
  | _ => return true

def exceedsMaxLoras (r : SchedRequest D) (scheduledLoras : List Nat) : Bool :=
  match cfg.maxLoras, r.loraIntId with
  | some maxLoras, some lora => scheduledLoras.length == maxLoras && lora ∉ scheduledLoras
  | _, _ => false

/-- The locally cached blocks of a request without computed tokens, their tokens, and the number of
computed tokens. -/
def computedTokens (r : SchedRequest D) : SchedCall D (Option (List (List Nat)) × Nat × Nat) :=
  if r.numComputedTokens = 0 then do
    let (newComputedBlocks, n) ←
      onKv (cfg.kv.getComputedBlocks r.toRequest r.skipReadingPrefixCache)
    Call.check (n ≤ r.numTokens) (.assertionError "num_computed_tokens <= request.num_tokens")
    return (newComputedBlocks, n, n)
  else return (none, 0, r.numComputedTokens)

def numNewWaiting (r : SchedRequest D) (numComputedTokens : Nat) : Int :=
  cfg.capByThreshold (r.numTokens - numComputedTokens)

def recordWaiting (r : SchedRequest D) (n : Int) (newBlocks : Option (List (List Nat)))
    (l : StepLocals) : StepLocals :=
  { l with
    scheduledNewReqs :=
      if r.status = .waiting then l.scheduledNewReqs ++ [r.requestId] else l.scheduledNewReqs
    scheduledResumedReqs :=
      if r.status = .preempted then l.scheduledResumedReqs ++ [r.requestId]
      else l.scheduledResumedReqs
    scheduledLoras :=
      match cfg.maxLoras, r.loraIntId with
      | some _, some lora => l.scheduledLoras.insert lora
      | _, _ => l.scheduledLoras
    reqToNewBlocks := l.reqToNewBlocks.set r.requestId newBlocks
    numScheduledTokens := l.numScheduledTokens.set r.requestId n
    tokenBudget := l.tokenBudget - n }

def blocksOf (s : Scheduler D) (id : String) : Option (List (List Nat)) :=
  KVCacheConfig.createKvCacheBlocks (cfg.kv.getBlocks s.kv id)

def scheduleWaiting (q : WaitingQueue) (r : SchedRequest D) (numComputedTokens : Nat)
    (t : EncoderTrial) : StepCall D Unit := do
  Call.modify fun st =>
    ({ cfg.popQueue q st.1 with running := st.1.running ++ [r.requestId] }, st.2)
  Call.check (r.status = .waiting ∨ r.status = .preempted)
    (.runtimeError ("Invalid request status: " ++ r.status.name))
  Call.modify fun st =>
    (st.1.setRequest r.requestId { r with status := .running, numComputedTokens },
      cfg.recordWaiting r t.numNewTokens (cfg.blocksOf st.1 r.requestId) st.2)
  allocateEncoderInputs r t

def placeWaiting (q : WaitingQueue) (r : SchedRequest D)
    (newComputedBlocks : Option (List (List Nat))) (numNewLocalComputedTokens numComputedTokens : Nat)
    (t : EncoderTrial) : StepCall D Bool := do
  let newBlocks ← Call.lift (onKv (cfg.kv.allocateSlots r.toRequest
    { numNewTokens := t.numNewTokens
      numNewComputedTokens := numNewLocalComputedTokens
      newComputedBlocks
      numLookaheadTokens := if r.numComputedTokens = 0 then 0 else cfg.numLookaheadTokens }))
  match newBlocks with
  | none => do
    Call.lift (onEncoder (Call.modify fun m => m.free r.requestId r.mmFeatures))
    return false
  | some _ => do
    cfg.scheduleWaiting q r numComputedTokens t
    return true

/-- The part of a turn of the loop over the waiting requests after the request may be scheduled. -/
def considerWaiting (q : WaitingQueue) (r : SchedRequest D) : StepCall D Bool := do
  let (newComputedBlocks, numLocal, numComputedTokens) ← Call.lift (cfg.computedTokens r)
  let l ← Call.gets Prod.snd
  let n := cfg.numNewWaiting r numComputedTokens
  if !cfg.enableChunkedPrefill && n > l.tokenBudget then return false
  else do
    Call.check (min n l.tokenBudget > 0) (.assertionError "num_new_tokens > 0")
    let t ← Call.lift (cfg.tryScheduleEncoderInputs r numComputedTokens (min n l.tokenBudget)
      l.encoderComputeBudget)
    if t.numNewTokens = 0 then return false
    else cfg.placeWaiting q r newComputedBlocks numLocal numComputedTokens t

def visitWaiting (q : WaitingQueue) (id : String) : StepCall D Bool := do
  let r ← Call.lift (requestOf id)
  let ready ← Call.lift (tryPromote r)
  let l ← Call.gets Prod.snd
  if !ready || cfg.exceedsMaxLoras r l.scheduledLoras then do
    cfg.skipWaiting q id
    return true
  else do
    let r ← Call.lift (requestOf id)
    cfg.considerWaiting q r

def waitingLoop : Nat → StepCall D Unit
  | 0 => return ()
  | fuel + 1 => do
    let (s, l) ← Call.get
    let q := cfg.selectWaitingQueueForScheduling s
    match queue s q with
    | [] => return ()
    | id :: _ =>
      if l.tokenBudget > 0 ∧ s.running.length ≠ cfg.maxNumRunningReqs then do
        let goOn ← cfg.visitWaiting q id
        if goOn then waitingLoop fuel else return ()
      else return ()

/-! ## The whole step -/

def lorasOf (s : Scheduler D) (ids : List String) : List Nat :=
  (ids.filterMap fun id => (s.requests.get? id).bind (·.loraIntId)).filter (· > 0) |>.dedup

def recordLoras : StepCall D Unit := do
  let (s, l) ← Call.get
  match cfg.maxLoras with
  | none => return ()
  | some maxLoras => do
    modifyLocals fun l => { l with scheduledLoras := lorasOf s l.scheduledRunningReqs }
    Call.check ((lorasOf s l.scheduledRunningReqs).length ≤ maxLoras)
      (.assertionError "len(scheduled_loras) <= self.lora_config.max_loras")

def requeueSkipped : StepCall D Unit := Call.modify fun st =>
  ({ st.1 with skippedWaiting :=
      cfg.policy.prependRequests st.1.idLt st.1.skippedWaiting st.2.stepSkippedWaiting },
    { st.2 with stepSkippedWaiting := [] })

def scheduleWaitingRequests : StepCall D Unit := do
  let (s, l) ← Call.get
  if l.preemptedReqs = [] ∧ s.pauseState = .unpaused then do
    cfg.waitingLoop (s.waiting.length + s.skippedWaiting.length)
    cfg.requeueSkipped
  else return ()

def checkConstraints (s : Scheduler D) (l : StepLocals) : StepCall D Unit := do
  Call.check ((l.numScheduledTokens.entries.map Prod.snd).sum ≤ cfg.maxNumScheduledTokens)
    (.assertionError "total_num_scheduled_tokens <= self.max_num_scheduled_tokens")
  Call.check (l.tokenBudget ≥ 0) (.assertionError "token_budget >= 0")
  Call.check (s.running.length ≤ cfg.maxNumRunningReqs)
    (.assertionError "len(self.running) <= self.max_num_running_reqs")
  Call.check (l.scheduledNewReqs.length + l.scheduledResumedReqs.length +
      l.scheduledRunningReqs.length ≤ s.running.length)
    (.assertionError ("len(scheduled_new_reqs) + len(scheduled_resumed_reqs)"
      ++ " + len(scheduled_running_reqs) <= len(self.running)"))

def newBlockIds (l : StepLocals) (id : String) : List (List Nat) :=
  ((l.reqToNewBlocks.get? id).getD none).getD (cfg.kv.groups.map fun _ => [])

def makeNewRequestData (l : StepLocals) (id : String) : SchedCall D NewRequestData := do
  let r ← requestOf id
  return { reqId := id
           promptTokenIds := r.promptTokenIds
           mmFeatures := r.mmFeatures
           blockIds := cfg.newBlockIds l id
           numComputedTokens := r.numComputedTokens }

def newTokenIds (l : StepLocals) (r : SchedRequest D) : List Token :=
  if cfg.usePp && !cfg.asyncScheduling then
    let numTokens := (l.numScheduledTokens.get? r.requestId).getD 0 -
      ((l.scheduledSpecDecodeTokens.get? r.requestId).getD []).length
    (r.allTokenIds.drop r.numComputedTokens).take numTokens.toNat
  else []

def makeCachedRequest (l : StepLocals) (resumed : Bool) (id : String) :
    SchedCall D CachedRequest := do
  let r ← requestOf id
  let scheduledInPrevStep ← Call.gets fun s => decide (id ∈ s.prevStepScheduledReqIds)
  Call.check (!resumed || !scheduledInPrevStep) (.assertionError "not scheduled_in_prev_step")
  return { reqId := id, resumed
           newTokenIds := cfg.newTokenIds l r
           allTokenIds := if scheduledInPrevStep then none else some r.allTokenIds
           newBlockIds := (l.reqToNewBlocks.get? id).getD none
           numComputedTokens := r.numComputedTokens
           numOutputTokens := r.numOutputTokens + r.numOutputPlaceholders }

def makeOutput (l : StepLocals) : SchedCall D SchedulerOutput := do
  let newReqs ← Call.mapEach l.scheduledNewReqs (cfg.makeNewRequestData l)
  let runningReqs ← Call.mapEach l.scheduledRunningReqs (cfg.makeCachedRequest l false)
  let resumedReqs ← Call.mapEach l.scheduledResumedReqs (cfg.makeCachedRequest l true)
  let s ← Call.get
  Call.modify fun s => { s with
    prevStepScheduledReqIds := l.numScheduledTokens.keys
    encoder := s.encoder.getFreedMmHashes.2 }
  return { scheduledNewReqs := newReqs
           scheduledCachedReqs := runningReqs ++ resumedReqs
           numScheduledTokens := l.numScheduledTokens
           totalNumScheduledTokens := (l.numScheduledTokens.entries.map Prod.snd).sum
           scheduledSpecDecodeTokens := l.scheduledSpecDecodeTokens
           scheduledEncoderInputs := l.scheduledEncoderInputs
           preemptedReqIds := l.preemptedReqs
           finishedReqIds := s.finishedReqIds
           freeEncoderMmHashes := s.encoder.getFreedMmHashes.1 }

/-! ## After the step -/

def freeEncoderInputs (r : SchedRequest D) (m : EncoderCacheManager) : EncoderCacheManager :=
  ((m.getCachedInputs r.mmFeatures).filter fun f =>
    f.mmPosition.offset + f.mmPosition.length ≤ r.numComputedTokens).foldl
      (EncoderCacheManager.freeEncoderInput r.requestId) m

def advance (id : String) (n : Int) : SchedCall D Unit := do
  let s ← Call.get
  match s.requests.get? id with
  | none => Call.raise .keyError
  | some r => do
    let r ← withComputed r (r.numComputedTokens + n)
    let r := { r with
      isPrefillChunk := decide ((r.numComputedTokens : Int) < r.numTokens + r.numOutputPlaceholders) }
    Call.modify fun s =>
      { s.setRequest id r with encoder := freeEncoderInputs r s.encoder }

/-- The loop of `AsyncScheduler._update_after_schedule`: a placeholder for the token that the step
will sample and for each draft token, and placeholders for the next draft tokens. -/
def addPlaceholders (drafts : Dict String (List Token)) (id : String) : SchedCall D Unit := do
  let s ← Call.get
  match s.requests.get? id with
  | none => Call.raise .keyError
  | some r =>
    if r.isPrefillChunk then return ()
    else setRequest { r with
      numOutputPlaceholders := r.numOutputPlaceholders + 1 + ((drafts.get? id).getD []).length
      specTokenIds := List.replicate cfg.numSpecTokens (-1) }

def updateAfterSchedule (out : SchedulerOutput) : SchedCall D Unit := do
  Call.forEach out.numScheduledTokens.entries fun (id, n) => advance id n
  Call.modify fun s => { s with finishedReqIds := [] }
  if cfg.asyncScheduling then
    Call.forEach out.numScheduledTokens.keys (cfg.addPlaceholders out.scheduledSpecDecodeTokens)
  else return ()

def scheduleLoops : StepCall D Unit := do
  Call.lift (onKv KVCacheConfig.newStepStarts)
  let numRunning ← Call.gets fun st => st.1.running.length
  cfg.runningLoop numRunning
  cfg.recordLoras
  cfg.scheduleWaitingRequests

def initLocals (s : Scheduler D) : StepLocals where
  tokenBudget := if s.pauseState = .pausedAll then 0 else cfg.maxNumScheduledTokens
  encoderComputeBudget := cfg.maxNumEncoderInputTokens

def schedule : SchedCall D SchedulerOutput := do
  let s ← Call.get
  Call.withLocal (cfg.initLocals s) do
    cfg.scheduleLoops
    let (s, l) ← Call.get
    cfg.checkConstraints s l
    let out ← Call.lift (cfg.makeOutput l)
    Call.lift (cfg.updateAfterSchedule out)
    return out

end SchedConfig
end Vllm
