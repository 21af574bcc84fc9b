import Vllm.Sched.Queues

/-! What a call of the engine does to one request. An invariant of single requests is proved by
cases on `RequestStep`. -/

namespace Vllm
open Base Dict Relation List SchedConfig

namespace SchedConfig
variable {D : Type} [DecidableEq D] (cfg : SchedConfig D)

/-! ## Results of a step -/

inductive UpdateOutcome (out : SchedulerOutput) (mo : ModelRunnerOutput) (id : String) :
    Option (SchedRequest D) → Option (SchedRequest D) → Prop where
  | absent : UpdateOutcome out mo id none none
  | untouched {r : SchedRequest D} (hn : id ∉ out.numScheduledTokens.keys) :
      UpdateOutcome out mo id (some r) (some r)
  | kept {s : Scheduler D} {r r' : SchedRequest D} {generated kept : List Token} {kv : KVState D}
      (hin : id ∈ out.numScheduledTokens.keys)
      (h : Takes cfg out mo id s r generated r' kept false kv) :
      UpdateOutcome out mo id (some r) (some r')
  | finished {s : Scheduler D} {r r' : SchedRequest D} {generated kept : List Token}
      {kv : KVState D} (hin : id ∈ out.numScheduledTokens.keys)
      (h : Takes cfg out mo id s r generated r' kept true kv)
      (hend : r'.resumable = false ∨ ∃ rest, r'.streamingQueue.getD [] = none :: rest) :
      UpdateOutcome out mo id (some r) none
  | continued {s : Scheduler D} {r r' : SchedRequest D} {generated kept : List Token}
      {kv : KVState D} {update : SessionUpdate} {rest : List (Option SessionUpdate)}
      {request : Request D} (hin : id ∈ out.numScheduledTokens.keys)
      (h : Takes cfg out mo id s r generated r' kept true kv) (hres : r'.resumable = true)
      (hqueue : r'.streamingQueue.getD [] = some update :: rest)
      (hupdate : Vllm.updateRequestAsSession cfg.hasher r'.toRequest update.toStreamingUpdate =
        .ok request) :
      UpdateOutcome out mo id (some r) (some (continued r' rest update request))
  | awaits {s : Scheduler D} {r r' : SchedRequest D} {generated kept : List Token}
      {kv : KVState D} (hin : id ∈ out.numScheduledTokens.keys)
      (h : Takes cfg out mo id s r generated r' kept true kv) (hres : r'.resumable = true)
      (hqueue : r'.streamingQueue.getD [] = []) :
      UpdateOutcome out mo id (some r) (some { r' with status := .waitingForStreamingReq })

section
variable {cfg} {s s' : Scheduler D} {σ σ' : Scheduler D × UpdateLocals} {out : SchedulerOutput}
  {mo : ModelRunnerOutput} {id : String}

section
variable (h : EntryMove cfg out mo id σ σ')
include h

theorem EntryMove.others {id' : String} (hne : id' ≠ id) :
    σ'.1.requests.get? id' = σ.1.requests.get? id' := by
  cases h with
  | skip _ => rfl
  | keep _ => exact get?_set_of_ne _ _ hne
  | stop _ hstop =>
    cases hstop with
    | finish _ _ => exact (get?_erase_of_ne _ hne).trans (get?_set_of_ne _ _ hne)
    | goOn _ _ _ | await _ _ => exact (get?_set_of_ne _ _ hne).trans (get?_set_of_ne _ _ hne)

theorem EntryMove.outcome (hknown : Known σ.1.requests) (hin : id ∈ out.numScheduledTokens.keys) :
    UpdateOutcome cfg out mo id (σ.1.requests.get? id) (σ'.1.requests.get? id) := by
  cases h with
  | skip hfin =>
    cases hr : σ.1.requests.get? id with
    | none => exact .absent
    | some r => cases (hknown id r hr).2.unfinished.symm.trans (hfin r hr)
  | keep htakes =>
    rw [htakes.get]
    exact (get?_set_self σ.1.requests id _).symm ▸ .kept hin htakes
  | stop htakes hstop =>
    rw [htakes.get]
    cases hstop with
    | finish hend _ => exact (get?_erase_self _ id).symm ▸ .finished hin htakes hend
    | goOn hres hqueue hupdate =>
      exact (get?_set_self _ id _).symm ▸ .continued hin htakes hres hqueue hupdate
    | await hres hqueue => exact (get?_set_self _ id _).symm ▸ .awaits hin htakes hres hqueue

theorem EntryMove.known (hknown : Known σ.1.requests) : Known σ'.1.requests := by
  cases h with
  | skip _ => exact hknown
  | keep htakes =>
    have hr := hknown id _ htakes.get
    exact hknown.set (htakes.requestId.trans hr.1) (hr.2.congr htakes.status htakes.resumable)
  | @stop s r r' _ _ kv _ htakes hstop =>
    have hid : r'.requestId = id := htakes.requestId.trans (hknown id r htakes.get).1
    cases hstop with
    | finish _ _ =>
      rw [freed_again]
      exact hknown.erase id
    | goOn _ _ hupdate =>
      rw [setRequest_again]
      exact hknown.set ((updateRequestAsSession_requestId hupdate).trans hid) ⟨rfl, nofun⟩
    | await hres _ =>
      rw [setRequest_again]
      exact hknown.set hid ⟨rfl, fun _ => hres⟩

end

theorem updateFromOutput_outcome {outputs : List EngineCoreOutput} (hknown : Known s.requests)
    (h : cfg.updateFromOutput out mo s = (.ok outputs, s')) (id : String) :
    UpdateOutcome cfg out mo id (s.requests.get? id) (s'.requests.get? id) := by
  obtain ⟨σ, hloop, rfl⟩ := updateFromOutput_eq_ok h
  -- the ids still to come are as they were, those done have their outcome
  have hend : Known σ.1.requests ∧ ∀ id,
      UpdateOutcome cfg out mo id (s.requests.get? id) (σ.1.requests.get? id) := by
    have hrun := Call.forEach_ok
      (I := fun es σ => Known σ.1.requests ∧ (∀ e ∈ es, e ∈ out.numScheduledTokens.entries) ∧
        (es.map Prod.fst).Nodup ∧ ∀ id,
          if id ∈ es.map Prod.fst then σ.1.requests.get? id = s.requests.get? id
          else UpdateOutcome cfg out mo id (s.requests.get? id) (σ.1.requests.get? id))
      (fun e es σ σ' hI hx => ?_) ⟨hknown, fun _ he => he, out.numScheduledTokens.nodup, ?_⟩ hloop
    · exact ⟨hrun.1, fun id => by simpa using hrun.2.2.2 id⟩
    · obtain ⟨hk, hsub, hnodup, hI⟩ := hI
      have hmove := updateEntry_move hk hx
      rw [map_cons, nodup_cons] at hnodup
      have hin : e.1 ∈ out.numScheduledTokens.keys :=
        mem_map.mpr ⟨e, hsub e mem_cons_self, rfl⟩
      refine ⟨hmove.known hk, fun e' he' => hsub e' (mem_cons_of_mem _ he'), hnodup.2,
        fun id => ?_⟩
      have hid := hI id
      by_cases heq : id = e.1
      · subst heq
        rw [map_cons, if_pos mem_cons_self] at hid
        rw [if_neg hnodup.1, ← hid]
        exact hmove.outcome hk hin
      · rw [hmove.others heq]
        have hmem : id ∈ (e :: es).map Prod.fst ↔ id ∈ es.map Prod.fst := by simp [heq]
        split
        · next hin' => exact (if_pos (hmem.mpr hin')).mp hid
        · next hin' => exact (if_neg (mt hmem.mp hin')).mp hid
    · intro id
      split
      · rfl
      · next hn =>
        cases s.requests.get? id with
        | none => exact .absent
        | some r => exact .untouched hn
  exact hend.2 id

end

end SchedConfig

/-! ## Calls of the engine -/

variable {D : Type} [DecidableEq D] (cfg : SchedConfig D)

inductive RequestStep (op : EngineOp) (e e' : Engine D) (id : String) :
    Option (SchedRequest D) → Option (SchedRequest D) → Prop where
  | absent : RequestStep op e e' id none none
  | arrives {q : SchedCoreRequest} {r : SchedRequest D} (hop : op = .addRequest q)
      (hbatch : e'.batchQueue = e.batchQueue)
      (hr : SchedRequest.fromEngineCoreRequest cfg.hasher q = .ok r) (hid : r.requestId = id) :
      RequestStep op e e' id none
        (some { r with streamingQueue := if r.resumable then some [] else none })
  | same {r : SchedRequest D} (hbatch : e'.batchQueue = e.batchQueue) :
      RequestStep op e e' id (some r) (some r)
  | ends {r : SchedRequest D} (hbatch : e'.batchQueue = e.batchQueue) :
      RequestStep op e e' id (some r) none
  | queues {q : SchedCoreRequest} {r r' : SchedRequest D} {queue : List (Option SessionUpdate)}
      (hop : op = .addRequest q) (hbatch : e'.batchQueue = e.batchQueue)
      (hr : SchedRequest.fromEngineCoreRequest cfg.hasher q = .ok r) (hid : r.requestId = id)
      (hqueue : r'.streamingQueue = some queue) :
      RequestStep op e e' id (some r')
        (some { r' with streamingQueue := some (queue ++ [r.streamingUpdate]) })
  | updates {q : SchedCoreRequest} {r r' : SchedRequest D} {update : SessionUpdate}
      {request : Request D} (hop : op = .addRequest q) (hbatch : e'.batchQueue = e.batchQueue)
      (hr : SchedRequest.fromEngineCoreRequest cfg.hasher q = .ok r) (hid : r.requestId = id)
      (hstatus : r'.status = .waitingForStreamingReq) (hupdate : r.streamingUpdate = some update)
      (hrequest : Vllm.updateRequestAsSession cfg.hasher r'.toRequest update.toStreamingUpdate =
        .ok request) :
      RequestStep op e e' id (some r') (some { r' with
        toRequest := request, status := .waiting
        arrivalTime := update.arrivalTime, samplingParams := update.samplingParams })
  | scheduled {out : SchedulerOutput} {r r' : SchedRequest D} (hop : op = .schedule)
      (hbatch : e'.batchQueue = e.batchQueue ++ [out]) (h : SchedConfig.Outcome cfg out id r r') :
      RequestStep op e e' id (some r) (some r')
  | took {mo : ModelRunnerOutput} {out : SchedulerOutput} {rest : List SchedulerOutput}
      {x y : Option (SchedRequest D)} (hop : op = .updateFromOutput mo)
      (hbatch : e.batchQueue = out :: rest) (hrest : e'.batchQueue = rest)
      (h : SchedConfig.UpdateOutcome cfg out mo id x y) : RequestStep op e e' id x y
  | redrafted {r : SchedRequest D} {specTokenIds : List Token}
      (hbatch : e'.batchQueue = e.batchQueue) :
      RequestStep op e e' id (some r) (some { r with specTokenIds })
  | reset {r : SchedRequest D} (hop : op = .resetPrefixCache true)
      (hbatch : e'.batchQueue = e.batchQueue) (hrun : r.status = .running) :
      RequestStep op e e' id (some r) (some (resetReq r))
  | compiled {r : SchedRequest D} (hbatch : e'.batchQueue = e.batchQueue) :
      RequestStep op e e' id (some r) (some { r with grammarReady := true })

section
variable {cfg} {e e' : Engine D} {op : EngineOp} {id : String} {s s' : Scheduler D}

theorem RequestStep.keeps (hbatch : e'.batchQueue = e.batchQueue) (x : Option (SchedRequest D)) :
    RequestStep cfg op e e' id x x := by
  cases x with
  | none => exact .absent
  | some r => exact .same hbatch

theorem RequestStep.of_finished {ids : List String} (hbatch : e'.batchQueue = e.batchQueue)
    (h : s'.requests = ids.foldl Dict.erase s.requests) :
    RequestStep cfg op e e' id (s.requests.get? id) (s'.requests.get? id) := by
  rw [h, get?_foldl_erase]
  split
  · cases s.requests.get? id with
    | none => exact .absent
    | some r => exact .ends hbatch
  · exact .keeps hbatch _

theorem RequestStep.of_adds {q : SchedCoreRequest} (hop : op = .addRequest q)
    (hbatch : e'.batchQueue = e.batchQueue) (hq : s.Queues) (h : SchedConfig.Adds cfg q s s') :
    RequestStep cfg op e e' id (s.requests.get? id) (s'.requests.get? id) := by
  -- only the request that `q` names changes
  have hother : ∀ {id' : String} {r : SchedRequest D}, (id = id' → RequestStep cfg op e e' id
      (s.requests.get? id) (some r)) → RequestStep cfg op e e' id (s.requests.get? id)
        ((s.requests.set id' r).get? id) := by
    intro id' r hset
    rw [get?_set]
    split
    · next heq => exact hset heq
    · exact .keeps hbatch _
  cases h with
  | fresh hr hget _ _ =>
    refine hother fun heq => ?_
    rw [heq, hget]
    exact .arrives hop hbatch hr rfl
  | queued hr hget _ hqueue =>
    refine hother fun heq => ?_
    rw [heq, hget]
    exact .queues hop hbatch hr rfl hqueue
  | updated hr hget hstatus hupdate hrequest =>
    refine hother fun heq => ?_
    rw [heq, hget]
    exact .updates hop hbatch hr rfl hstatus hupdate hrequest
  | ended _ _ _ _ hfinish =>
    exact .of_finished hbatch (finishRequests_eq_ok hq hfinish).2.2.1.requests

theorem EngineStep.request (h : EngineStep cfg op e e') (hq : e.sched.Queues) (id : String) :
    RequestStep cfg op e e' id (e.sched.requests.get? id) (e'.sched.requests.get? id) := by
  cases h with
  | addRequest h => exact .of_adds rfl rfl hq (addRequest_eq_ok hq.known h)
  | @schedule _ s' out h =>
    obtain ⟨σ, hemitted, hinv, -, -⟩ := schedule_eq_ok hq h
    have hrel := hemitted.outcome hinv id
    generalize e.sched.requests.get? id = x at hrel ⊢
    generalize s'.requests.get? id = y at hrel ⊢
    cases hrel with
    | none => exact .absent
    | some ho => exact .scheduled rfl rfl ho
  | updateFromOutput hbatch h =>
    exact .took rfl hbatch rfl (updateFromOutput_outcome hq.known h id)
  | @updateDraftTokenIds _ _ _ s' h =>
    have hrel := (updateDraftTokenIds_redrafted hq.known h).requests id
    generalize e.sched.requests.get? id = x at hrel ⊢
    generalize s'.requests.get? id = y at hrel ⊢
    cases hrel with
    | none => exact .absent
    | some hr =>
      obtain ⟨_, rfl⟩ := hr
      exact .redrafted rfl
  | finishRequests h =>
    exact .of_finished rfl (finishRequests_eq_ok hq h).2.2.1.requests
  | @resetPrefixCache forced _ _ _ h =>
    cases forced with
    | true =>
      obtain ⟨-, s₁, kv, hreset, -, rfl⟩ := resetPrefixCache_forced hq h
      rw [hreset.requests]
      cases e.sched.requests.get? id with
      | none => exact .absent
      | some r =>
        rw [Option.map_some]
        split
        · next hrun => exact .reset rfl rfl hrun
        · exact .same rfl
    | false =>
      obtain ⟨kv, -, rfl⟩ := resetPrefixCache_unforced h
      exact .keeps (by rfl) _
  | setPauseState => exact .keeps (by rfl) _
  | @compileGrammar id' _ =>
    unfold EngineOp.grammarCompiled
    cases hr : e.sched.requests.get? id' with
    | none => exact .keeps (by rfl) _
    | some r =>
      dsimp only [Scheduler.setRequest]
      rw [get?_set]
      split
      · next heq =>
        rw [heq, hr]
        exact .compiled rfl
      · exact .keeps (by rfl) _

end
end Vllm
