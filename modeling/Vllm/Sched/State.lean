import Vllm.Core.KVCacheManager
import Vllm.Core.Session
import Vllm.Sched.EncoderCache
import Vllm.Sched.RequestQueue

/-! The state of the scheduler: `Request` in `request.py`, the fields of `Scheduler` in
`scheduler.py` and the messages of `output.py`.

Left out are KV and encoder-cache connectors, encoder-decoder models, the `align` mode of Mamba,
statistics, events and log probabilities. The scheduler's queues
hold request ids where the code holds the objects. Assertions without a message carry the asserted
expression. -/

namespace Vllm
open Base

inductive RequestStatus where
  | waiting
  | waitingForFsm
  | waitingForStreamingReq
  | running
  | preempted
  | finishedStopped
  | finishedLengthCapped
  | finishedAborted
  | finishedIgnored
  | finishedError
  | finishedRepetition
deriving DecidableEq, Repr

def RequestStatus.name : RequestStatus → String
  | waiting => "WAITING"
  | waitingForFsm => "WAITING_FOR_FSM"
  | waitingForStreamingReq => "WAITING_FOR_STREAMING_REQ"
  | running => "RUNNING"
  | preempted => "PREEMPTED"
  | finishedStopped => "FINISHED_STOPPED"
  | finishedLengthCapped => "FINISHED_LENGTH_CAPPED"
  | finishedAborted => "FINISHED_ABORTED"
  | finishedIgnored => "FINISHED_IGNORED"
  | finishedError => "FINISHED_ERROR"
  | finishedRepetition => "FINISHED_REPETITION"

def RequestStatus.isFinished : RequestStatus → Bool
  | finishedStopped | finishedLengthCapped | finishedAborted | finishedIgnored | finishedError
  | finishedRepetition => true
  | _ => false

inductive FinishReason where
  | stop
  | length
  | abort
  | error
  | repetition
deriving DecidableEq, Repr

def RequestStatus.getFinishedReason : RequestStatus → Option FinishReason
  | finishedStopped => some .stop
  | finishedLengthCapped => some .length
  | finishedAborted => some .abort
  | finishedIgnored => some .length
  | finishedError => some .error
  | waitingForStreamingReq => some .stop
  | finishedRepetition => some .repetition
  | _ => none

structure RepetitionDetectionParams where
  maxPatternSize : Nat
  minPatternSize : Nat := 0
  minCount : Nat
deriving DecidableEq, Repr

structure SamplingParams where
  maxTokens : Nat := 16
  minTokens : Nat := 0
  eosTokenId : Option Token := none
  stopTokenIds : List Token := []
  repetitionDetection : Option RepetitionDetectionParams := none
  skipReadingPrefixCache : Option Bool := none
deriving DecidableEq, Repr

structure PoolingParams where
  skipReadingPrefixCache : Option Bool := none
deriving DecidableEq, Repr

/-- `StreamingUpdate`. The session keeps its own limit on output tokens, so that of the update is
left out. -/
structure SessionUpdate extends StreamingUpdate where
  arrivalTime : Nat := 0
  samplingParams : Option SamplingParams := none
deriving DecidableEq, Repr

/-- A request with what the scheduler keeps in it. The count of placeholders goes down by what the
model returns, so it is an integer. -/
structure SchedRequest (D : Type) extends Request D where
  status : RequestStatus := .waiting
  priority : Int := 0
  arrivalTime : Nat := 0
  samplingParams : Option SamplingParams := none
  poolingParams : Option PoolingParams := none
  maxTokens : Nat
  useStructuredOutput : Bool := false
  grammarReady : Bool := false
  loraIntId : Option Nat := none
  skipReadingPrefixCache : Bool := false
  numOutputPlaceholders : Int := 0
  discardLatestAsyncTokens : Bool := false
  specTokenIds : List Token := []
  isPrefillChunk : Bool := false
  resumable : Bool := false
  streamingQueue : Option (List (Option SessionUpdate)) := none
deriving DecidableEq

structure SchedCoreRequest extends EngineCoreRequest where
  samplingParams : Option SamplingParams := some { }
  poolingParams : Option PoolingParams := none
  useStructuredOutput : Bool := false
  priority : Int := 0
  arrivalTime : Nat := 0
  loraIntId : Option Nat := none
  resumable : Bool := false
deriving DecidableEq

section
variable {D : Type}

/-- `max_tokens` and the first status. -/
def SchedCoreRequest.limits (q : SchedCoreRequest) : Except String (Nat × RequestStatus) :=
  match q.poolingParams, q.samplingParams with
  | some _, _ => .ok (1, .waiting)
  | none, some params =>
    .ok (params.maxTokens, if q.useStructuredOutput then .waitingForFsm else .waiting)
  | none, none => .error "sampling_params and pooling_params can't both be unset"

def SchedCoreRequest.getSkipReadingPrefixCache (q : SchedCoreRequest) : Bool :=
  match q.samplingParams.bind (·.skipReadingPrefixCache),
    q.poolingParams.bind (·.skipReadingPrefixCache) with
  | some skip, _ => skip
  | none, some skip => skip
  | none, none => false

def SchedRequest.fromEngineCoreRequest (H : BlockHasher D) (q : SchedCoreRequest) :
    Except String (SchedRequest D) := do
  let (maxTokens, status) ← q.limits
  let r ← Request.fromEngineCoreRequest H q.toEngineCoreRequest
  return { toRequest := r, status, maxTokens
           priority := q.priority
           arrivalTime := q.arrivalTime
           samplingParams := q.samplingParams
           poolingParams := q.poolingParams
           useStructuredOutput := q.useStructuredOutput
           loraIntId := q.loraIntId
           skipReadingPrefixCache := q.getSkipReadingPrefixCache
           resumable := q.resumable }

namespace SchedRequest
variable (r : SchedRequest D)

def isFinished : Bool := r.status.isFinished

def numOutputTokens : Nat := r.outputTokenIds.length

def numTokensWithSpec : Nat := r.allTokenIds.length + r.specTokenIds.length

def hasEncoderInputs : Bool := r.mmFeatures.length > 0

def streamingUpdate : Option SessionUpdate :=
  if r.resumable then
    some { mmFeatures := r.mmFeatures, promptTokenIds := r.promptTokenIds
           arrivalTime := r.arrivalTime, samplingParams := r.samplingParams }
  else none

/-- `Request.__lt__`, for requests with different ids. -/
def lt (a b : SchedRequest D) : Bool :=
  if a.priority ≠ b.priority then a.priority < b.priority
  else if a.arrivalTime ≠ b.arrivalTime then a.arrivalTime < b.arrivalTime
  else a.requestId < b.requestId

def keyLt (a b : SchedRequest D) : Bool :=
  a.priority < b.priority || (a.priority == b.priority && a.arrivalTime < b.arrivalTime)

end SchedRequest
end

inductive PauseState where
  | unpaused
  | pausedNew
  | pausedAll
deriving DecidableEq, Repr

structure SchedConfig (D : Type) where
  kv : KVCacheConfig
  hasher : BlockHasher D
  policy : SchedulingPolicy := .fcfs
  asyncScheduling : Bool := false
  usePp : Bool := false
  maxNumRunningReqs : Nat
  maxNumScheduledTokens : Nat
  longPrefillTokenThreshold : Nat := 0
  enableChunkedPrefill : Bool := true
  disableChunkedMmInput : Bool := false
  maxNumEncoderInputTokens : Nat := 0
  encoderCacheSize : Nat := 0
  maxLoras : Option Nat := none
  numSpecTokens : Nat := 0
  numLookaheadTokens : Nat := 0
  hasher_blockSize : hasher.blockSize = kv.hashBlockSize := by rfl

structure Scheduler (D : Type) where
  requests : Dict String (SchedRequest D) := ∅
  waiting : List String := []
  skippedWaiting : List String := []
  running : List String := []
  finishedReqIds : List String := []
  prevStepScheduledReqIds : List String := []
  numWaitingForStreamingInput : Int := 0
  pauseState : PauseState := .unpaused
  encoder : EncoderCacheManager
  kv : KVState D

section
variable {D : Type} [DecidableEq D]

def SchedConfig.init (cfg : SchedConfig D) : Scheduler D where
  encoder := .new cfg.encoderCacheSize
  kv := cfg.kv.init

namespace Scheduler
variable (s : Scheduler D)

omit [DecidableEq D] in
def idLt (a b : String) : Bool :=
  match s.requests.get? a, s.requests.get? b with
  | some ra, some rb => ra.lt rb
  | _, _ => false

def setRequest (id : String) (r : SchedRequest D) : Scheduler D :=
  { s with requests := s.requests.set id r }

end Scheduler
end

/-! ## Messages -/

structure NewRequestData where
  reqId : String
  promptTokenIds : Option (List Token)
  mmFeatures : List MultiModalFeatureSpec
  blockIds : List (List Nat)
  numComputedTokens : Nat
deriving DecidableEq

structure CachedRequest where
  reqId : String
  resumed : Bool
  newTokenIds : List Token
  allTokenIds : Option (List Token)
  newBlockIds : Option (List (List Nat))
  numComputedTokens : Nat
  numOutputTokens : Int
deriving DecidableEq

structure SchedulerOutput where
  scheduledNewReqs : List NewRequestData := []
  scheduledCachedReqs : List CachedRequest := []
  numScheduledTokens : Dict String Int := ∅
  totalNumScheduledTokens : Int := 0
  scheduledSpecDecodeTokens : Dict String (List Token) := ∅
  scheduledEncoderInputs : Dict String (List Nat) := ∅
  preemptedReqIds : List String := []
  finishedReqIds : List String := []
  freeEncoderMmHashes : List String := []

/-- What the model returns for a step: the sampled tokens of each request, and which requests have
a pooling output. -/
structure ModelRunnerOutput where
  sampledTokenIds : Dict String (List Token) := ∅
  pooled : List String := []

structure EngineCoreOutput where
  requestId : String
  newTokenIds : List Token
  finishReason : Option FinishReason
deriving DecidableEq

end Vllm
