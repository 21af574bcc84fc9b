import Vllm.Sched.Schedule

/-! The other calls of the scheduler: `update_from_output`, `update_draft_token_ids`, `add_request`,
`finish_requests` and `reset_prefix_cache` in `scheduler.py`, the overrides of `async_scheduler.py`
and `check_stop` in `utils.py`. -/

namespace Vllm
open Base

/-! ## Stopping -/

/-- The last `patternLen` tokens occur `repetitionMinCount` times in a row at the end; `recent` has
the tokens from the last one on. -/
def hasRepeatingPattern (recent : List Token) (patternLen repetitionMinCount : Nat) : Bool :=
  (List.range patternLen).all fun n => (List.range (repetitionMinCount - 1)).all fun m =>
    recent[patternLen * (m + 1) + n]? == recent[n]?

def checkSequenceRepetition (tokenIds : List Token) (params : RepetitionDetectionParams) : Bool :=
  let minPatternSize := if params.minPatternSize = 0 then 1 else params.minPatternSize
  if params.maxPatternSize = 0 ∨ params.minCount < 2 ∨ minPatternSize > params.maxPatternSize then
    false
  else
    (((List.range (params.maxPatternSize + 1)).drop minPatternSize).takeWhile
      (· * params.minCount ≤ tokenIds.length)).any
        (hasRepeatingPattern tokenIds.reverse · params.minCount)

section
variable {D : Type}

/-- The status that `check_stop` gives a request which has just got a token, if it stops. -/
def stopStatus (r : SchedRequest D) (params : SamplingParams) (maxModelLen : Nat) :
    Option RequestStatus :=
  let lastTokenId := r.outputTokenIds.getLast?
  if r.numOutputTokens < params.minTokens then none
  else if lastTokenId = params.eosTokenId then some .finishedStopped
  else if lastTokenId.any (· ∈ params.stopTokenIds) then some .finishedStopped
  else if r.numTokens ≥ maxModelLen ∨ r.numOutputTokens ≥ r.maxTokens then
    some .finishedLengthCapped
  else if params.repetitionDetection.any (checkSequenceRepetition r.outputTokenIds ·) then
    some .finishedRepetition
  else none

def checkStop (r : SchedRequest D) (maxModelLen : Nat) :
    Except PyError (SchedRequest D × Bool) :=
  match r.poolingParams, r.samplingParams with
  | some _, _ => .error (.assertionError "not request.pooling_params")
  | none, none => .error (.assertionError "sampling_params is not None")
  | none, some params =>
    match stopStatus r params maxModelLen with
    | none => .ok (r, false)
    | some status => .ok ({ r with status }, true)

def SchedRequest.appendOutputTokenIds (H : BlockHasher D) (r : SchedRequest D)
    (tokenIds : List Token) : SchedRequest D :=
  { r with toRequest := r.toRequest.appendOutputTokenIds H tokenIds }

/-- The loop of `_update_request_with_output`: the request, the tokens kept and whether it
stopped. -/
def appendUntilStop (H : BlockHasher D) (maxModelLen : Nat) :
    SchedRequest D → List Token → Except PyError (SchedRequest D × List Token × Bool)
  | r, [] => .ok (r, [], false)
  | r, token :: tokens => do
    let (r, stopped) ← checkStop (r.appendOutputTokenIds H [token]) maxModelLen
    if stopped then return (r, [token], true)
    else
      let (r, kept, stopped) ← appendUntilStop H maxModelLen r tokens
      return (r, token :: kept, stopped)

def raiseError {σ α : Type} : Except PyError α → Call PyError σ α
  | .error e => Call.raise e
  | .ok a => return a

end

structure UpdateLocals where
  stoppedRunningReqs : List String := []
  stoppedPreemptedReqs : List String := []
  outputs : List EngineCoreOutput := []

abbrev UpdateCall (D α : Type) := Call PyError (Scheduler D × UpdateLocals) α

namespace SchedConfig
variable {D : Type} [DecidableEq D] (cfg : SchedConfig D)

def baseUpdateRequestWithOutput (r : SchedRequest D) (newTokenIds : List Token) :
    SchedCall D (List Token × Bool) := do
  let (r, kept, stopped) ← raiseError (appendUntilStop cfg.hasher cfg.kv.maxModelLen r newTokenIds)
  setRequest r
  return (kept, stopped)

/-- `AsyncScheduler._update_request_with_output` after the tokens have been appended. -/
def settlePlaceholders (id : String) (statusBeforeUpdate : RequestStatus)
    (newTokenIds : List Token) : SchedCall D Unit := do
  let r ← requestOf id
  let r := { r with numOutputPlaceholders := r.numOutputPlaceholders - newTokenIds.length }
  setRequest r
  Call.check (r.numOutputPlaceholders ≥ 0) (.assertionError "request.num_output_placeholders >= 0")
  if statusBeforeUpdate = .running then
    onKv (cfg.kv.cacheBlocks r.toRequest (r.numComputedTokens - r.numOutputPlaceholders).toNat)
  else return ()

def updateRequestWithOutput (r : SchedRequest D) (newTokenIds : List Token) :
    SchedCall D (List Token × Bool) :=
  if cfg.asyncScheduling then
    if r.discardLatestAsyncTokens then do
      setRequest { r with discardLatestAsyncTokens := false }
      return ([], false)
    else do
      let (kept, stopped) ← cfg.baseUpdateRequestWithOutput r newTokenIds
      cfg.settlePlaceholders r.requestId r.status kept
      return (kept, stopped)
  else cfg.baseUpdateRequestWithOutput r newTokenIds

/-! ## Sessions and the end of a request -/

def isBlockedWaitingStatus (status : RequestStatus) : Bool :=
  status = .waitingForFsm || status = .waitingForStreamingReq

def enqueueWaitingRequest (r : SchedRequest D) : SchedCall D Unit := Call.modify fun s =>
  if isBlockedWaitingStatus r.status then
    { s with skippedWaiting := cfg.policy.addRequest s.idLt s.skippedWaiting r.requestId }
  else { s with waiting := cfg.policy.addRequest s.idLt s.waiting r.requestId }

/-- `_update_request_as_session` on the scheduler's request. -/
def updateSession (session : SchedRequest D) (update : SessionUpdate) :
    SchedCall D (SchedRequest D) := do
  let r ← raiseError ((Vllm.updateRequestAsSession cfg.hasher session.toRequest
    update.toStreamingUpdate).mapError .assertionError)
  let r : SchedRequest D := { session with
    toRequest := r, status := .waiting
    arrivalTime := update.arrivalTime, samplingParams := update.samplingParams }
  Call.modify fun s => { s.setRequest r.requestId r with
    numWaitingForStreamingInput :=
      if session.status = .waitingForStreamingReq then s.numWaitingForStreamingInput - 1
      else s.numWaitingForStreamingInput }
  return r

def awaitInput (r : SchedRequest D) : SchedCall D (SchedRequest D) := do
  let r := { r with status := .waitingForStreamingReq }
  Call.modify fun s => { s.setRequest r.requestId r with
    numWaitingForStreamingInput := s.numWaitingForStreamingInput + 1 }
  return r

/-- Returns whether the request is finished; a session goes on. -/
def handleStoppedRequest (r : SchedRequest D) : SchedCall D Bool :=
  if !r.resumable then return true
  else
    match r.streamingQueue.getD [] with
    | none :: rest => do
      setRequest { r with streamingQueue := some rest }
      return true
    | some update :: rest => do
      let r ← cfg.updateSession { r with streamingQueue := some rest } update
      cfg.enqueueWaitingRequest r
      return false
    | [] => do
      let r ← awaitInput r
      cfg.enqueueWaitingRequest r
      return false

def freeRequest (id : String) : SchedCall D Unit := do
  let r ← requestOf id
  Call.check r.isFinished (.assertionError "request.is_finished()")
  Call.modify fun s => { s with
    encoder := s.encoder.free id r.mmFeatures
    finishedReqIds := s.finishedReqIds.insert id }
  onKv (cfg.kv.free id)
  Call.modify fun s => { s with requests := s.requests.erase id }

/-! ## The output of a step -/

def adjustRejected (r : SchedRequest D) (drafts generated : List Token) :
    SchedCall D (SchedRequest D) :=
  if drafts = [] ∨ generated = [] then return r
  else
    let numRejected : Int := drafts.length - (generated.length - 1)
    let r := { r with numOutputPlaceholders :=
      if r.numOutputPlaceholders > 0 then r.numOutputPlaceholders - numRejected
      else r.numOutputPlaceholders }
    if r.numComputedTokens > 0 then withComputed r (r.numComputedTokens - numRejected)
    else return r

/-- The tokens of a request are appended; pooling stops as soon as there is output. -/
def takeOutput (r : SchedRequest D) (generated : List Token) (pooled : Bool) :
    SchedCall D (List Token × Bool) :=
  if generated ≠ [] then cfg.updateRequestWithOutput r generated
  else if r.poolingParams.isSome && pooled then do
    setRequest { r with status := .finishedStopped }
    return ([], true)
  else return ([], false)

/-- The finish reason of a request that stopped, and what is done with it. -/
def stopRequest (id : String) (statusBeforeStop : RequestStatus) :
    UpdateCall D (Option FinishReason) := do
  let r ← Call.lift (requestOf id)
  let finished ← Call.lift (cfg.handleStoppedRequest r)
  Call.when finished (Call.lift (cfg.freeRequest id))
  Call.modify fun st => (st.1,
    if statusBeforeStop = .running then
      { st.2 with stoppedRunningReqs := st.2.stoppedRunningReqs.insert id }
    else { st.2 with stoppedPreemptedReqs := st.2.stoppedPreemptedReqs.insert id })
  return r.status.getFinishedReason

def updateRequest (out : SchedulerOutput) (mo : ModelRunnerOutput) (r : SchedRequest D) :
    UpdateCall D Unit := do
  let id := r.requestId
  match mo.sampledTokenIds.get? id with
  | none => Call.raise .keyError
  | some generated => do
    let r ← Call.lift (adjustRejected r ((out.scheduledSpecDecodeTokens.get? id).getD []) generated)
    Call.lift (setRequest r)
    let pooled := decide (id ∈ mo.pooled)
    let (newTokenIds, stopped) ← Call.lift (cfg.takeOutput r generated pooled)
    let finishReason ← if stopped then cfg.stopRequest id r.status else pure none
    Call.modify fun st => (st.1,
      if newTokenIds ≠ [] || pooled || stopped then
        { st.2 with outputs := st.2.outputs ++ [{ requestId := id, newTokenIds, finishReason }] }
      else st.2)

def updateEntry (out : SchedulerOutput) (mo : ModelRunnerOutput) (id : String) (n : Int) :
    UpdateCall D Unit := do
  Call.check (n > 0) (.assertionError "num_tokens_scheduled > 0")
  let (s, _) ← Call.get
  match s.requests.get? id with
  | none => return ()
  | some r => if r.isFinished then return () else cfg.updateRequest out mo r

def removeAll (ids toRemove : List String) : List String :=
  match toRemove with
  | [] => ids
  | [id] => ids.erase id
  | _ => ids.filter (· ∉ toRemove)

def removeStopped : UpdateCall D Unit := Call.modify fun st =>
  ({ st.1 with
    running := removeAll st.1.running st.2.stoppedRunningReqs
    waiting :=
      if st.2.stoppedPreemptedReqs = [] then st.1.waiting
      else cfg.policy.removeRequests st.1.idLt st.1.waiting st.2.stoppedPreemptedReqs }, st.2)

def updateFromOutput (out : SchedulerOutput) (mo : ModelRunnerOutput) :
    SchedCall D (List EngineCoreOutput) :=
  Call.withLocal { } do
    Call.forEach out.numScheduledTokens.entries fun (id, n) => cfg.updateEntry out mo id n
    cfg.removeStopped
    Call.gets fun st => st.2.outputs

/-- `validate` is what the grammar leaves of the draft tokens of a request. -/
def updateDraft (validate : String → List Token → List Token) (id : String)
    (specTokenIds : List Token) : SchedCall D Unit := do
  let s ← Call.get
  match s.requests.get? id with
  | none => return ()
  | some r =>
    if r.isFinished then return ()
    else if r.isPrefillChunk then setRequest { r with specTokenIds := [] }
    else setRequest { r with specTokenIds := validate id specTokenIds }

def updateDraftTokenIds (validate : String → List Token → List Token)
    (drafts : List (String × List Token)) : SchedCall D Unit :=
  Call.forEach drafts fun (id, specTokenIds) => updateDraft validate id specTokenIds

/-! ## Finishing from outside -/

def dropAwaiting (id : String) (s : Scheduler D) : Scheduler D :=
  match s.requests.get? id with
  | some r =>
    if r.status = .waitingForStreamingReq then
      { s with numWaitingForStreamingInput := s.numWaitingForStreamingInput - 1 }
    else s
  | none => s

def hasStatus (s : Scheduler D) (p : RequestStatus → Bool) (id : String) : Bool :=
  (s.requests.get? id).any fun r => p r.status

def finishOne (finishedStatus : RequestStatus) (id : String) : SchedCall D Unit := do
  let r ← requestOf id
  setRequest { r with status := finishedStatus }
  cfg.freeRequest id

def finishRequests (requestIds : Option (List String)) (finishedStatus : RequestStatus) :
    SchedCall D (List String) := do
  Call.check finishedStatus.isFinished (.assertionError "RequestStatus.is_finished(finished_status)")
  let s ← Call.get
  let ids := (requestIds.getD s.requests.keys).dedup
  let valid := ids.filter (hasStatus s fun status => !status.isFinished)
  let toRemoveRunning := valid.filter (hasStatus s fun status => status = .running)
  let toRemoveWaiting := valid.filter (hasStatus s fun status => status ≠ .running)
  Call.modify fun s => { toRemoveWaiting.foldl (fun s id => dropAwaiting id s) s with
    running := removeAll s.running toRemoveRunning
    waiting := if toRemoveWaiting = [] then s.waiting
      else cfg.policy.removeRequests s.idLt s.waiting toRemoveWaiting
    skippedWaiting := if toRemoveWaiting = [] then s.skippedWaiting
      else cfg.policy.removeRequests s.idLt s.skippedWaiting toRemoveWaiting }
  Call.forEach valid (cfg.finishOne finishedStatus)
  return valid

/-! ## New requests -/

/-- The next input of a session that is known already. -/
def addUpdate (existing r : SchedRequest D) : SchedCall D Unit :=
  if existing.status ≠ .waitingForStreamingReq then
    match existing.streamingQueue with
    | none => Call.raise (.assertionError "duplicate request id")
    | some queue =>
      setRequest { existing with streamingQueue := some (queue ++ [r.streamingUpdate]) }
  else
    match r.streamingUpdate with
    | some update => do
      let _ ← cfg.updateSession existing update
      return ()
    | none => do
      let _ ← cfg.finishRequests (some [existing.requestId]) .finishedAborted
      return ()

/-- An id that is left in a queue by a finished request cannot be told from a new one. -/
def addRequest (q : SchedCoreRequest) : SchedCall D Unit := do
  let r ← raiseError ((SchedRequest.fromEngineCoreRequest cfg.hasher q).mapError .valueError)
  let s ← Call.get
  match s.requests.get? r.requestId with
  | some existing => cfg.addUpdate existing r
  | none => do
    Call.check (r.requestId ∉ s.running ++ s.waiting ++ s.skippedWaiting) .outsideModel
    setRequest { r with streamingQueue := if r.resumable then some [] else none }
    cfg.enqueueWaitingRequest r

/-! ## Reset -/

/-- `while self.running`, from the last request on. -/
def resetRunning : List String → SchedCall D Unit
  | [] => return ()
  | id :: ids => do
    Call.modify fun s => { s with running := s.running.dropLast }
    cfg.preemptRequest id
    let r ← requestOf id
    setRequest { r with numOutputPlaceholders := 0, discardLatestAsyncTokens := true }
    resetRunning ids

def resetRunningRequests : SchedCall D Unit := do
  let s ← Call.get
  cfg.resetRunning s.running.reverse
  Call.modify fun s => { s with prevStepScheduledReqIds := [] }

def resetPrefixCache (resetRunningRequests : Bool) : SchedCall D Bool := do
  Call.when resetRunningRequests cfg.resetRunningRequests
  let resetSuccessful ← onKv KVCacheConfig.resetPrefixCache
  Call.check (!(resetRunningRequests && !resetSuccessful)) (.runtimeError
    ("Failed to reset KV cache even when all the running requests are preempted and moved to the"
      ++ " waiting queue. This is likely due to the presence of running requests waiting for"
      ++ " remote KV transfer, which is not supported yet."))
  return resetSuccessful

end SchedConfig
end Vllm
