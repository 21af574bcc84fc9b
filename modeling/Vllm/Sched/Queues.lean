import Vllm.Sched.Calls

/-! The queues over whole runs: every unfinished request is in exactly one of `running`, `waiting`
and `skipped_waiting`. -/

set_option linter.unusedSectionVars false

namespace Vllm
open Base Dict Relation List SchedConfig

/-- Every unfinished request is in one queue, once, in `running` just when its status says so, and
`num_waiting_for_streaming_input` counts the requests that wait for input. -/
structure Scheduler.WellQueued {D : Type} (s : Scheduler D) : Prop where
  once : ∀ id r, s.requests.get? id = some r → r.isFinished = false →
    (s.running ++ s.waiting ++ s.skippedWaiting).count id = 1
  running : ∀ id r, s.requests.get? id = some r → r.isFinished = false →
    (id ∈ s.running ↔ r.status = .running)
  awaiting : s.numWaitingForStreamingInput =
    (s.requests.entries.filter fun e => e.2.status = .waitingForStreamingReq).length

theorem sum_awaits {D : Type} (d : Dict String (SchedRequest D)) :
    d.sum awaits = (d.entries.filter fun e => e.2.status = .waitingForStreamingReq).length := by
  unfold Dict.sum
  induction d.entries with
  | nil => rfl
  | cons e es ih =>
    rw [map_cons, sum_cons, ih]
    unfold awaits
    by_cases h : e.2.status = .waitingForStreamingReq
    · simp [h, Nat.add_comm]
    · simp [h]

theorem Scheduler.Queues.wellQueued {D : Type} {s : Scheduler D} (h : s.Queues) : s.WellQueued where
  once id r hr _ := by
    rw [append_assoc]
    exact h.queued.count (mem_keys_of_get? hr)
  running id r hr _ := h.queued.active id r hr
  awaiting := by rw [h.awaiting, sum_awaits]

namespace SchedConfig
variable {D : Type} [DecidableEq D] (cfg : SchedConfig D)

/-! ## The loop of `update_from_output` -/

/-- A request of a step whose output is taken is running, or it is not a session. -/
def NoSessionAway (s : Scheduler D) (id : String) : Prop :=
  ∀ r, s.requests.get? id = some r → r.status = .running ∨ r.resumable = false

/-- The queues in the loop: the requests noted as stopped are still to be removed; `ids` is left of
the step. -/
structure Midway (ids : List String) (σ : Scheduler D × UpdateLocals) : Prop where
  known : Known σ.1.requests
  queued : Queued (σ.1.running.filter (· ∉ σ.2.stoppedRunningReqs))
    (σ.1.waiting.filter (· ∉ σ.2.stoppedPreemptedReqs) ++ σ.1.skippedWaiting) σ.1.requests
  awaiting : σ.1.numWaitingForStreamingInput = σ.1.requests.sum awaits
  nodup : σ.1.running.Nodup
  idsNodup : ids.Nodup
  notStopped : ∀ id ∈ ids, id ∉ σ.2.stoppedRunningReqs ∧ id ∉ σ.2.stoppedPreemptedReqs
  mayStop : ∀ id ∈ ids, NoSessionAway σ.1 id

section
variable {cfg} {σ σ' : Scheduler D × UpdateLocals} {id : String} {ids : List String}
  {r r' : SchedRequest D} {s : Scheduler D} {out : SchedulerOutput} {mo : ModelRunnerOutput}

theorem filter_insert {q stopped : List String} (hq : (q.filter (· ∉ stopped)).Nodup) :
    q.filter (· ∉ stopped.insert id) = (q.filter (· ∉ stopped)).erase id := by
  rw [hq.erase_eq_filter, filter_filter]
  refine filter_congr fun id' _ => ?_
  by_cases h : id' = id <;> simp [h]

theorem noteStopped_queued (h : Midway (id :: ids) σ) (hr : σ.1.requests.get? id = some r)
    (outputs : List EngineCoreOutput) :
    σ.1.running.filter (· ∉ ({ noteStopped r.status id σ.2 with outputs }).stoppedRunningReqs) =
        (σ.1.running.filter (· ∉ σ.2.stoppedRunningReqs)).erase id ∧
      (σ.1.waiting.filter
          (· ∉ ({ noteStopped r.status id σ.2 with outputs }).stoppedPreemptedReqs)).Sublist
        (σ.1.waiting.filter (· ∉ σ.2.stoppedPreemptedReqs)) ∧
      ∀ id' ∈ σ.1.waiting.filter (· ∉ σ.2.stoppedPreemptedReqs), id' ≠ id →
        id' ∈ σ.1.waiting.filter
          (· ∉ ({ noteStopped r.status id σ.2 with outputs }).stoppedPreemptedReqs) := by
  have hnodup := nodup_append.mp h.queued.rest_nodup
  unfold noteStopped
  split
  · exact ⟨filter_insert h.queued.run_nodup, .refl _, fun _ hid' _ => hid'⟩
  · next hrun =>
    have hnot : id ∉ σ.1.running.filter (· ∉ σ.2.stoppedRunningReqs) :=
      mt (h.queued.active id r hr).mp hrun
    refine ⟨(List.erase_of_not_mem hnot).symm, ?_, fun id' hid' hne => ?_⟩
    · exact (filter_insert hnodup.1).symm ▸ erase_sublist
    · exact (filter_insert hnodup.1).symm ▸ (mem_erase_of_ne hne).mpr hid'

theorem noSessionAway_congr {s s' : Scheduler D}
    (hget : s'.requests.get? id = s.requests.get? id) (h : NoSessionAway s id) :
    NoSessionAway s' id := fun r hr => h r (hget.symm.trans hr)

theorem mem_noteStopped {status : RequestStatus} {l : UpdateLocals} {id' : String}
    {outputs : List EngineCoreOutput} (hne : id' ≠ id)
    (h : id' ∉ l.stoppedRunningReqs ∧ id' ∉ l.stoppedPreemptedReqs) :
    id' ∉ ({ noteStopped status id l with outputs }).stoppedRunningReqs ∧
      id' ∉ ({ noteStopped status id l with outputs }).stoppedPreemptedReqs := by
  unfold noteStopped
  split
  · exact ⟨fun hin => (mem_insert_iff.mp hin).elim hne h.1, h.2⟩
  · exact ⟨h.1, fun hin => (mem_insert_iff.mp hin).elim hne h.2⟩

section
variable (h : Midway (id :: ids) σ) (hr : σ.1.requests.get? id = some r)
include h hr

theorem Midway.running_of_resumable (hres : r.resumable = true) : r.status = .running :=
  (h.mayStop id mem_cons_self r hr).resolve_right fun hnot => by
    rw [hres] at hnot
    cases hnot

theorem Midway.awaits_eq_zero : awaits r = 0 := by
  refine if_neg fun hs => ?_
  rcases h.mayStop id mem_cons_self r hr with hrun | hres
  · cases hrun.symm.trans hs
  · cases hres.symm.trans ((h.known id r hr).2.session hs)

theorem Midway.requeued (hrun : r.status = .running) (hlive : r'.Live) (hid : r'.requestId = id)
    (hstatus : r'.status ≠ .running) (waiting skippedWaiting : List String)
    (hqueue : waiting.Perm (id :: σ.1.waiting) ∧ skippedWaiting = σ.1.skippedWaiting ∨
      waiting = σ.1.waiting ∧ skippedWaiting.Perm (id :: σ.1.skippedWaiting))
    (n : Int) (hn : n = σ.1.numWaitingForStreamingInput + awaits r') (kv : KVState D)
    (outputs : List EngineCoreOutput) :
    Midway ids ({ σ.1.setRequest id r' with
        waiting, skippedWaiting, numWaitingForStreamingInput := n, kv },
      { noteStopped r.status id σ.2 with outputs }) := by
  have hids := nodup_cons.mp h.idsNodup
  have hne : ∀ id' ∈ ids, id' ≠ id := fun id' hid' heq => hids.1 (heq ▸ hid')
  obtain ⟨hrunning, -⟩ := noteStopped_queued h hr outputs
  have hstopped : ({ noteStopped r.status id σ.2 with outputs }).stoppedPreemptedReqs =
      σ.2.stoppedPreemptedReqs := by
    unfold noteStopped
    rw [if_pos hrun]
  have hfresh := (h.notStopped id mem_cons_self).2
  have hin := (h.queued.active id r hr).mpr hrun
  have hdemoted : Queued _ _ (σ.1.requests.set id r') := h.queued.demote hin hstatus
  refine ⟨h.known.set hid hlive, ?_, ?_, h.nodup, hids.2, fun id' hid' => ?_, fun id' hid' => ?_⟩
  · change Queued (σ.1.running.filter _) (waiting.filter _ ++ skippedWaiting) _
    rw [hrunning, hstopped]
    refine hdemoted.perm (.refl _) ?_
    rcases hqueue with ⟨hperm, rfl⟩ | ⟨rfl, hperm⟩
    · have hfilter := hperm.filter (fun id' => decide (id' ∉ σ.2.stoppedPreemptedReqs))
      rw [filter_cons_of_pos (by simpa using hfresh)] at hfilter
      exact hfilter.append_right _
    · exact (hperm.append_left _).trans perm_middle
  · have hsum := sum_set σ.1.requests awaits id r'
    have hzero : (σ.1.requests.get? id).elim 0 awaits = 0 := by
      rw [hr]
      simp [awaits, hrun]
    rw [hzero, Nat.add_zero] at hsum
    change n = ((σ.1.requests.set id r').sum awaits : Nat)
    rw [hsum, hn, h.awaiting]
    exact (Int.natCast_add _ _).symm
  · exact mem_noteStopped (hne id' hid') (h.notStopped id' (mem_cons_of_mem _ hid'))
  · exact noSessionAway_congr (get?_set_of_ne _ _ (hne id' hid'))
      (h.mayStop id' (mem_cons_of_mem _ hid'))

end

theorem EntryMove.midway (hmove : EntryMove cfg out mo id σ σ') (h : Midway (id :: ids) σ) :
    Midway ids σ' := by
  have hids := nodup_cons.mp h.idsNodup
  have hne : ∀ id' ∈ ids, id' ≠ id := fun id' hid' heq => hids.1 (heq ▸ hid')
  cases hmove with
  | skip _ =>
    exact { h with
      idsNodup := hids.2
      notStopped := fun id' hid' => h.notStopped id' (mem_cons_of_mem _ hid')
      mayStop := fun id' hid' => h.mayStop id' (mem_cons_of_mem _ hid') }
  | @keep r r' _ kept kv outputs htakes =>
    have hr := htakes.get
    have hid : r'.requestId = id := htakes.requestId.trans (h.known id r hr).1
    have hlive := (h.known id r hr).2.congr htakes.status htakes.resumable
    refine ⟨h.known.set hid hlive, h.queued.set hr (by rw [htakes.status]), ?_, h.nodup,
      hids.2, fun id' hid' => h.notStopped id' (mem_cons_of_mem _ hid'), fun id' hid' => ?_⟩
    · refine h.awaiting.trans (congrArg Nat.cast (sum_set_of_eq hr ?_).symm)
      simp [awaits, htakes.status]
    · exact noSessionAway_congr (get?_set_of_ne _ _ (hne id' hid'))
        (h.mayStop id' (mem_cons_of_mem _ hid'))
  | @stop s r r' _ kept kv outputs htakes hstop =>
    have hr := htakes.get
    have hid : r'.requestId = id := htakes.requestId.trans (h.known id r hr).1
    cases hstop with
    | @finish kv' hend hfree =>
      rw [freed_again]
      obtain ⟨hrunning, hsub, hkeep⟩ := noteStopped_queued h hr outputs
      refine ⟨h.known.erase id, ?_, ?_, h.nodup, hids.2, fun id' hid' => ?_, fun id' hid' => ?_⟩
      · change Queued (σ.1.running.filter _) (σ.1.waiting.filter _ ++ σ.1.skippedWaiting) _
        rw [hrunning]
        refine h.queued.remove (hsub.append (.refl _)) fun id' hid' hne => ?_
        exact mem_append.mpr ((mem_append.mp hid').imp_left (hkeep id' · hne))
      · have hsum := sum_erase σ.1.requests awaits id
        have hzero : (σ.1.requests.get? id).elim 0 awaits = 0 := by
          rw [hr]
          exact h.awaits_eq_zero hr
        rw [hzero] at hsum
        exact h.awaiting.trans (congrArg Nat.cast hsum.symm)
      · exact mem_noteStopped (hne id' hid') (h.notStopped id' (mem_cons_of_mem _ hid'))
      · exact noSessionAway_congr (get?_erase_of_ne _ (hne id' hid'))
          (h.mayStop id' (mem_cons_of_mem _ hid'))
    | @goOn update rest request lt hres hqueue hupdate =>
      have hrun := h.running_of_resumable hr (htakes.resumable.symm.trans hres)
      rw [setRequest_again]
      have hlive : (continued r' rest update request).Live := ⟨rfl, fun hs => by cases hs⟩
      have hzero : awaits (continued r' rest update request) = 0 := rfl
      exact h.requeued hr hrun hlive ((updateRequestAsSession_requestId hupdate).trans hid)
        (by simp [continued]) _ _ (.inl ⟨cfg.policy.addRequest_perm lt _ _, rfl⟩) _
        (by rw [hzero]; exact (Int.add_zero _).symm) kv outputs
    | @await lt hres hqueue =>
      have hrun := h.running_of_resumable hr (htakes.resumable.symm.trans hres)
      rw [setRequest_again]
      have hlive : ({ r' with status := .waitingForStreamingReq } : SchedRequest D).Live :=
        ⟨rfl, fun _ => hres⟩
      exact h.requeued hr hrun hlive hid (by simp) _ _
        (.inr ⟨rfl, cfg.policy.addRequest_perm lt _ _⟩) _ rfl kv outputs

section
variable (hq : s.Queues) (hstop : ∀ id ∈ out.numScheduledTokens.keys, NoSessionAway s id)
include hq hstop

theorem midway_start : Midway out.numScheduledTokens.keys (s, { }) where
  known := hq.known
  queued := hq.queued.perm (.of_eq (by simp)) (.of_eq (by simp))
  awaiting := hq.awaiting
  nodup := hq.queued.run_nodup
  idsNodup := out.numScheduledTokens.keys_nodup
  notStopped _ _ := ⟨not_mem_nil, not_mem_nil⟩
  mayStop := hstop

theorem updateFromOutput_queues {outputs : List EngineCoreOutput} {s' : Scheduler D}
    (h : cfg.updateFromOutput out mo s = (.ok outputs, s')) : s'.Queues := by
  obtain ⟨σ, hloop, rfl⟩ := updateFromOutput_eq_ok h
  have hend : Midway [] σ :=
    Call.forEach_ok (I := fun es σ => Midway (es.map Prod.fst) σ)
      (fun _ _ _ _ hmid hx => (updateEntry_move hmid.known hx).midway hmid)
      (midway_start hq hstop) hloop
  refine ⟨hend.known, hend.queued.perm ?_ ?_, hend.awaiting⟩
  · rw [removeAll_eq_filter hend.nodup]
  · exact (removeRequests_perm_of_mem fun _ _ => Iff.rfl).append_right _

end

end

/-! ## Runs -/

/-- A request of a step whose output is taken may stop where it is: it is running, or it is not a
session and is not among the skipped requests. -/
def MayStop (s : Scheduler D) (id : String) : Prop :=
  ∀ r, s.requests.get? id = some r →
    r.status = .running ∨ r.resumable = false ∧ id ∉ s.skippedWaiting

instance (s : Scheduler D) (id : String) : Decidable (MayStop s id) :=
  decidable_of_iff ((s.requests.get? id).all fun r =>
      decide (r.status = .running ∨ r.resumable = false ∧ id ∉ s.skippedWaiting)) (by
    unfold MayStop
    cases s.requests.get? id <;> simp)

end SchedConfig

def EngineOp.NoSessionAway {D : Type} (op : EngineOp) (e : Engine D) : Prop :=
  match op with
  | .updateFromOutput _ => ∀ out ∈ e.batchQueue.head?, ∀ id ∈ out.numScheduledTokens.keys,
      SchedConfig.NoSessionAway e.sched id
  | _ => True

instance {D : Type} [DecidableEq D] (op : EngineOp) (e : Engine D) :
    Decidable (op.NoSessionAway e) :=
  match op with
  | .updateFromOutput _ => inferInstanceAs (Decidable (∀ out ∈ e.batchQueue.head?,
      ∀ id ∈ out.numScheduledTokens.keys, ∀ r ∈ e.sched.requests.get? id,
        r.status = .running ∨ r.resumable = false))
  | .addRequest _ | .schedule | .updateDraftTokenIds _ _ | .finishRequests _ _
  | .resetPrefixCache _ | .setPauseState _ | .compileGrammar _ => isTrue trivial

def EngineOp.StopsInPlace {D : Type} (op : EngineOp) (e : Engine D) : Prop :=
  match op with
  | .updateFromOutput _ => ∀ out ∈ e.batchQueue.head?, ∀ id ∈ out.numScheduledTokens.keys,
      SchedConfig.MayStop e.sched id
  | _ => True

instance {D : Type} [DecidableEq D] (op : EngineOp) (e : Engine D) :
    Decidable (op.StopsInPlace e) := by
  rcases op <;> unfold EngineOp.StopsInPlace <;> infer_instance

section
variable {D : Type} [DecidableEq D] {cfg : SchedConfig D} {e e' : Engine D} {op : EngineOp}

theorem queues_init : (cfg.init).Queues :=
  ⟨fun _ _ hr => (nomatch hr), Filed.empty, rfl⟩

theorem EngineStep.queues (h : EngineStep cfg op e e') (hstop : op.NoSessionAway e)
    (hq : e.sched.Queues) : e'.sched.Queues := by
  cases h with
  | addRequest h => exact (addRequest_eq_ok hq.known h).queues hq
  | schedule h =>
    obtain ⟨σ, hemitted, hinv, hknown, -⟩ := schedule_eq_ok hq h
    exact hemitted.queues hq hinv hknown
  | updateFromOutput hbatch h =>
    refine updateFromOutput_queues hq (fun id hid => ?_) h
    exact hstop _ (by rw [hbatch]; rfl) id hid
  | updateDraftTokenIds h => exact (updateDraftTokenIds_redrafted hq.known h).queues hq
  | finishRequests h => exact (finishRequests_eq_ok hq h).2.2.2
  | @resetPrefixCache forced _ _ _ h =>
    cases forced with
    | true => exact (resetPrefixCache_forced hq h).1
    | false =>
      obtain ⟨kv, -, rfl⟩ := resetPrefixCache_unforced h
      exact { hq with }
  | setPauseState => exact { hq with }
  | compileGrammar => exact grammarCompiled_queues hq

theorem EngineOp.StopsInPlace.noSessionAway (h : op.StopsInPlace e) : op.NoSessionAway e := by
  cases op with
  | updateFromOutput mo => exact fun out hout id hid r hr => (h out hout id hid r hr).imp_right And.left
  | _ => trivial

theorem queues_of_run
    (run : Run (EngineOp.next cfg) (fun op e => op.Returns cfg e ∧ op.NoSessionAway e) cfg.start e) :
    e.sched.Queues :=
  run.inv (I := fun e => e.sched.Queues) queues_init
    fun _ _ hq hop => (engineStep_of_returns hop.1).queues hop.2 hq

/-- In every run in which results are taken only while the requests of the step may stop where they
are, every unfinished request is in exactly one queue. -/
theorem wellQueued_of_run
    (run : Run (EngineOp.next cfg) (fun op e => op.Returns cfg e ∧ op.StopsInPlace e) cfg.start e) :
    e.sched.WellQueued :=
  (queues_of_run (run.mono fun _ _ hop => ⟨hop.1, hop.2.noSessionAway⟩)).wellQueued

end

/-! ## A session that is lost -/

def smallSched : SchedConfig HashTerm where
  kv := oneFullGroup
  hasher := termHasher 2 Nat.two_pos
  maxNumRunningReqs := 4
  maxNumScheduledTokens := 8

def SchedConfig.after {D : Type} [DecidableEq D] (cfg : SchedConfig D) (ops : List EngineOp) :
    Engine D := ops.foldl (fun e op => op.next cfg e) cfg.start

def sampled (id : String) (tokens : List Token) : ModelRunnerOutput where
  sampledTokenIds := (∅ : Dict String (List Token)).set id tokens

/-- A session whose first input is `promptTokenIds` and which stops at the token 0. -/
def sessionInput (id : String) (promptTokenIds : List Token) : SchedCoreRequest where
  requestId := id
  promptTokenIds := some promptTokenIds
  samplingParams := some { eosTokenId := some 0 }
  resumable := true

/-- The session stops, goes on with its next input and is scheduled again. -/
theorem wellQueued_of_run_session :
    let e := smallSched.after [.addRequest (sessionInput "a" [1, 2, 3]), .schedule,
      .addRequest (sessionInput "a" [4]), .updateFromOutput (sampled "a" [0]), .schedule]
    e.sched.running = ["a"] ∧ e.sched.WellQueued :=
  ⟨by decide +kernel, @wellQueued_of_run _ _ smallSched _ (.of_allowed (by decide +kernel))⟩

/-- The calls after which a session is in no queue: it is preempted by a reset while its step is
outstanding and then stops. -/
def lostSession : List EngineOp :=
  [.addRequest (sessionInput "a" [1, 2, 3]), .schedule, .addRequest (sessionInput "a" [4]),
    .resetPrefixCache true, .updateFromOutput (sampled "a" [0])]

theorem lostSession_not_wellQueued :
    Run (EngineOp.next smallSched) (fun op e => op.Returns smallSched e) smallSched.start
        (smallSched.after lostSession) ∧
      ¬(smallSched.after lostSession).sched.WellQueued := by
  refine ⟨.of_allowed (by decide +kernel), fun h => ?_⟩
  have hlive : ((smallSched.after lostSession).sched.requests.get? "a").any
      (fun r => !r.isFinished) = true := by decide +kernel
  have hlost : ((smallSched.after lostSession).sched.running ++
      (smallSched.after lostSession).sched.waiting ++
      (smallSched.after lostSession).sched.skippedWaiting).count "a" = 0 := by decide +kernel
  obtain ⟨r, hr, hfin⟩ := Option.any_eq_true _ _ |>.mp hlive
  have := h.once "a" r hr (by simpa using hfin)
  omega

end Vllm
