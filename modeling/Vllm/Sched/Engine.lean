import Vllm.Base.Run
import Vllm.Sched.Update

/-! The engine around the scheduler: `EngineCore` in `engine/core.py` keeps the outputs of `schedule`
whose results it has not taken yet in a queue and takes the results in order. -/

namespace Vllm
open Base

structure Engine (D : Type) where
  sched : Scheduler D
  /-- The steps whose results are outstanding, the oldest first. -/
  batchQueue : List SchedulerOutput := []

/-- The calls of the engine. The results of a step, the draft tokens and what the grammar leaves of
them come from the workers. -/
inductive EngineOp where
  | addRequest (q : SchedCoreRequest)
  | schedule
  | updateFromOutput (mo : ModelRunnerOutput)
  | updateDraftTokenIds (validate : String → List Token → List Token)
    (drafts : List (String × List Token))
  | finishRequests (requestIds : Option (List String)) (finishedStatus : RequestStatus)
  | resetPrefixCache (resetRunningRequests : Bool)
  | setPauseState (pauseState : PauseState)
  | compileGrammar (requestId : String)

namespace EngineOp
variable {D : Type} [DecidableEq D] (cfg : SchedConfig D)

def onSched {α : Type} (m : SchedCall D α) : Call PyError (Engine D) α :=
  m.zoom (·.sched) fun sched e => { e with sched }

def popBatch : Call PyError (Engine D) SchedulerOutput := do
  let e ← Call.get
  match e.batchQueue with
  | [] => Call.raise .indexError
  | out :: rest => do
    Call.modify fun e => { e with batchQueue := rest }
    return out

/-- The grammar of a request with structured output is compiled in the background. -/
def grammarCompiled (requestId : String) (s : Scheduler D) : Scheduler D :=
  match s.requests.get? requestId with
  | none => s
  | some r => s.setRequest requestId { r with grammarReady := true }

def call : EngineOp → Call PyError (Engine D) Unit
  | addRequest q => onSched (cfg.addRequest q)
  | schedule => do
    let out ← onSched cfg.schedule
    Call.modify fun e => { e with batchQueue := e.batchQueue ++ [out] }
  | updateFromOutput mo => do
    let out ← popBatch
    let _ ← onSched (cfg.updateFromOutput out mo)
    return ()
  | updateDraftTokenIds validate drafts => onSched (SchedConfig.updateDraftTokenIds validate drafts)
  | finishRequests requestIds finishedStatus => do
    let _ ← onSched (cfg.finishRequests requestIds finishedStatus)
    return ()
  | resetPrefixCache resetRunningRequests => do
    let _ ← onSched (cfg.resetPrefixCache resetRunningRequests)
    return ()
  | setPauseState pauseState => onSched (Call.modify fun s => { s with pauseState })
  | compileGrammar requestId => onSched (Call.modify (grammarCompiled requestId))

def next (op : EngineOp) (e : Engine D) : Engine D := (op.call cfg e).2

def Returns (op : EngineOp) (e : Engine D) : Prop := (op.call cfg e).1 = .ok ()

instance (op : EngineOp) (e : Engine D) : Decidable (op.Returns cfg e) := by
  unfold Returns
  infer_instance

end EngineOp

def SchedConfig.start {D : Type} [DecidableEq D] (cfg : SchedConfig D) : Engine D where
  sched := cfg.init

end Vllm
