import Mathlib.Data.List.Dedup
import Vllm.Core.Isolation
import Vllm.Sched.Entries

/-! What the other calls of the scheduler leave: `finish_requests`, `add_request`,
`reset_prefix_cache` and `update_draft_token_ids`. -/

set_option linter.unusedSectionVars false

namespace Vllm
open Base Dict Call Relation List SchedRequest EngineOp

namespace SchedConfig
variable {D : Type} [DecidableEq D] (cfg : SchedConfig D)

def Frees : KVState D → KVState D → Prop :=
  ReflTransGen fun kv kv' => ∃ id, cfg.kv.free id kv = (.ok (), kv')

/-! ## Finishing -/

structure Finished (ids : List String) (s s' : Scheduler D) : Prop where
  requests : s'.requests = ids.foldl Dict.erase s.requests
  finished : ∀ id, id ∈ s'.finishedReqIds ↔ id ∈ s.finishedReqIds ∨ id ∈ ids
  prevStep : s'.prevStepScheduledReqIds = s.prevStepScheduledReqIds
  pause : s'.pauseState = s.pauseState
  encoder : ReflTransGen GivesUp s.encoder s'.encoder
  kv : Frees cfg s.kv s'.kv

structure SameQueues (s s' : Scheduler D) : Prop where
  running : s'.running = s.running
  waiting : s'.waiting = s.waiting
  skipped : s'.skippedWaiting = s.skippedWaiting
  awaiting : s'.numWaitingForStreamingInput = s.numWaitingForStreamingInput

section
variable {cfg} {s s' : Scheduler D} {ids : List String} {status : RequestStatus}

variable {id : String} {u : Unit}

theorem finishOne_eq_ok (hknown : Known s.requests) (h : cfg.finishOne status id s = (.ok u, s')) :
    ∃ r kv, s.requests.get? id = some r ∧ cfg.kv.free id s.kv = (.ok (), kv) ∧
      s' = freed s id r.mmFeatures kv := by
  simp only [finishOne, setRequest, bind_eq_ok, requestOf_eq_ok, modify_eq_ok] at h
  obtain ⟨r, _, ⟨hr, rfl⟩, _, _, rfl, hfree⟩ := h
  obtain rfl := (hknown id r hr).1
  obtain ⟨kv, hkv, rfl⟩ := freeRequest_eq_ok (get?_set_self _ _ _) hfree
  refine ⟨r, kv, hr, hkv, ?_⟩
  simp [freed, Scheduler.setRequest]

theorem finishEach_eq_ok (hknown : Known s.requests)
    (h : Call.forEach ids (cfg.finishOne status) s = (.ok u, s')) :
    Finished cfg ids s s' ∧ SameQueues s s' := by
  induction ids generalizing s with
  | nil =>
    obtain ⟨-, rfl⟩ := pure_eq_ok.mp h
    exact ⟨⟨rfl, by simp, rfl, rfl, .refl, .refl⟩, rfl, rfl, rfl, rfl⟩
  | cons id ids ih =>
    obtain ⟨_, s₁, hone, hrest⟩ := bind_eq_ok.mp h
    obtain ⟨r, kv, -, hkv, rfl⟩ := finishOne_eq_ok hknown hone
    obtain ⟨hfin, hsame⟩ := ih (hknown.erase id) hrest
    refine ⟨⟨hfin.requests, fun id' => ?_, hfin.prevStep, hfin.pause, ?_, ?_⟩, hsame.running,
      hsame.waiting, hsame.skipped, hsame.awaiting⟩
    · rw [hfin.finished, mem_cons]
      change id' ∈ s.finishedReqIds.insert id ∨ _ ↔ _
      rw [mem_insert_iff]
      tauto
    · exact (givesUp_foldl _ _).trans hfin.encoder
    · exact .head ⟨id, hkv⟩ hfin.kv

theorem removeAll_eq_filter {ids toRemove : List String} (hnodup : ids.Nodup) :
    removeAll ids toRemove = ids.filter (· ∉ toRemove) := by
  match toRemove with
  | [] => simp [removeAll]
  | [id] =>
    rw [removeAll, hnodup.erase_eq_filter]
    simp [bne, BEq.beq]
  | _ :: _ :: _ => rfl

def awaitingIn (d : Dict String (SchedRequest D)) (ids : List String) : Nat :=
  (ids.map fun id => (d.get? id).elim 0 awaits).sum

theorem dropAwaiting_eq (id : String) (s : Scheduler D) : dropAwaiting id s = { s with
    numWaitingForStreamingInput :=
      s.numWaitingForStreamingInput - ((s.requests.get? id).elim 0 awaits : Nat) } := by
  unfold dropAwaiting
  cases s.requests.get? id with
  | none => simp
  | some r =>
    dsimp only [Option.elim_some]
    unfold awaits
    split
    · rfl
    · simp

theorem foldl_dropAwaiting (ids : List String) (s : Scheduler D) :
    ids.foldl (fun s id => dropAwaiting id s) s = { s with
      numWaitingForStreamingInput :=
        s.numWaitingForStreamingInput - awaitingIn s.requests ids } := by
  induction ids generalizing s with
  | nil => simp [awaitingIn]
  | cons id ids ih =>
    rw [foldl_cons, ih, dropAwaiting_eq]
    simp only [awaitingIn, map_cons, sum_cons, Int.natCast_add, Int.sub_sub]

theorem awaitingIn_filter {d : Dict String (SchedRequest D)} {ids : List String}
    {p : String → Bool} (h : ∀ id ∈ ids, p id = false → (d.get? id).elim 0 awaits = 0) :
    awaitingIn d (ids.filter p) = awaitingIn d ids := by
  induction ids with
  | nil => rfl
  | cons id ids ih =>
    have hrest := ih fun id' hid' => h id' (mem_cons_of_mem _ hid')
    unfold awaitingIn at hrest ⊢
    rw [filter_cons, map_cons, sum_cons]
    split
    · rw [map_cons, sum_cons, hrest]
    · next hp => rw [hrest, h id mem_cons_self (by simpa using hp), Nat.zero_add]

theorem hasStatus_iff {p : RequestStatus → Bool} :
    hasStatus s p id = true ↔ ∃ r, s.requests.get? id = some r ∧ p r.status = true := by
  unfold hasStatus
  cases s.requests.get? id <;> simp

variable {q ids' : List String}

theorem filter_congr_of_mem {ids : List String}
    (h : ∀ id ∈ q, id ∈ ids' ↔ id ∈ ids) : q.filter (· ∉ ids') = q.filter (· ∉ ids) :=
  filter_congr fun id hid => by simp [h id hid]

theorem removeRequests_perm_of_mem {policy : SchedulingPolicy} {lt : String → String → Bool}
    {ids : List String} (h : ∀ id ∈ q, id ∈ ids' ↔ id ∈ ids) :
    (if ids' = [] then q else policy.removeRequests lt q ids').Perm (q.filter (· ∉ ids)) := by
  rw [← filter_congr_of_mem h]
  split
  · next hnil => simp [hnil]
  · exact policy.removeRequests_perm lt q ids'

theorem finishRequests_eq_ok {requestIds : Option (List String)} (hq : s.Queues)
    (h : cfg.finishRequests requestIds status s = (.ok ids, s')) :
    ids.Nodup ∧ (∀ id, id ∈ ids ↔ id ∈ requestIds.getD s.requests.keys ∧ id ∈ s.requests.keys) ∧
      Finished cfg ids s s' ∧ s'.Queues := by
  simp only [finishRequests, bind_eq_ok, check_eq_ok, get_eq_ok, modify_eq_ok, pure_eq_ok] at h
  obtain ⟨_, _, ⟨-, rfl⟩, _, s, ⟨rfl, rfl⟩, _, _, rfl, _, _, hloop, rfl, rfl⟩ := h
  generalize hvalid : (requestIds.getD s.requests.keys).dedup.filter
    (hasStatus s fun status => !status.isFinished) = valid at hloop ⊢
  have hmem : ∀ id, id ∈ valid ↔
      id ∈ requestIds.getD s.requests.keys ∧ id ∈ s.requests.keys := by
    intro id
    rw [← hvalid, mem_filter, mem_dedup, hasStatus_iff, mem_keys_iff, Option.isSome_iff_exists]
    refine and_congr_right fun _ => exists_congr fun r => and_iff_left_of_imp fun hr => ?_
    simpa [isFinished] using (hq.known id r hr).2.unfinished
  have hnodup : valid.Nodup := hvalid ▸ (nodup_dedup _).filter _
  have hall : ∀ (p : RequestStatus → Bool) id, (∀ r, s.requests.get? id = some r → p r.status) →
      (id ∈ valid.filter (hasStatus s p) ↔ id ∈ valid) := by
    intro p id hp
    rw [mem_filter, hasStatus_iff]
    refine and_iff_left_of_imp fun hv => ?_
    obtain ⟨r, hr⟩ := exists_of_mem_keys ((hmem id).mp hv).2
    exact ⟨r, hr, hp r hr⟩
  have hrunning : ∀ id ∈ s.running,
      id ∈ valid.filter (hasStatus s fun status => status = .running) ↔ id ∈ valid := fun id hid =>
    hall _ id fun r hr => by simpa using (hq.queued.active id r hr).mp hid
  have hwaiting : ∀ id ∈ s.waiting ++ s.skippedWaiting,
      id ∈ valid.filter (hasStatus s fun status => status ≠ .running) ↔ id ∈ valid := fun id hid =>
    hall _ id fun r hr => by
      simpa using mt (hq.queued.active id r hr).mpr (hq.queued.not_mem_run hid)
  have hcount : awaitingIn s.requests (valid.filter (hasStatus s fun status => status ≠ .running)) =
      awaitingIn s.requests valid := by
    refine awaitingIn_filter fun id _ hp => ?_
    cases hr : s.requests.get? id with
    | none => rfl
    | some r =>
      rw [Bool.eq_false_iff, ne_eq, hasStatus_iff] at hp
      have hrun : r.status = .running := by
        by_contra hne
        exact hp ⟨r, hr, by simpa using hne⟩
      simp [awaits, hrun]
  obtain ⟨hfin, hsame⟩ := finishEach_eq_ok (by rw [foldl_dropAwaiting]; exact hq.known) hloop
  rw [foldl_dropAwaiting, hcount] at hfin hsame
  refine ⟨hnodup, hmem, { hfin with }, ?_, ?_, ?_⟩
  · intro id r hr
    rw [hfin.requests, get?_foldl_erase] at hr
    split at hr
    · cases hr
    · exact hq.known id r hr
  · rw [hfin.requests, hsame.running, hsame.waiting, hsame.skipped]
    refine (hq.queued.removeAll valid).perm ?_ ?_
    · rw [removeAll_eq_filter hq.queued.run_nodup, filter_congr_of_mem hrunning]
    · rw [filter_append]
      refine (removeRequests_perm_of_mem fun id hid => ?_).append
        (removeRequests_perm_of_mem fun id hid => ?_)
      · exact hwaiting id (mem_append_left _ hid)
      · exact hwaiting id (mem_append_right _ hid)
  · rw [hsame.awaiting, hfin.requests, hq.awaiting]
    have hsum : (valid.foldl Dict.erase s.requests).sum awaits + awaitingIn s.requests valid =
        s.requests.sum awaits := sum_foldl_erase s.requests awaits hnodup
    change (s.requests.sum awaits : Int) - (awaitingIn s.requests valid : Nat) =
      ((valid.foldl Dict.erase s.requests).sum awaits : Nat)
    omega

end

/-! ## New requests and session updates -/

inductive Adds (q : SchedCoreRequest) (s : Scheduler D) : Scheduler D → Prop where
  | fresh {r : SchedRequest D} {lt : String → String → Bool} {waiting skippedWaiting : List String}
      (hr : fromEngineCoreRequest cfg.hasher q = .ok r)
      (hget : s.requests.get? r.requestId = none)
      (hfresh : r.requestId ∉ s.running ++ (s.waiting ++ s.skippedWaiting))
      (hqueue : if isBlockedWaitingStatus r.status then
          waiting = s.waiting ∧
            skippedWaiting = cfg.policy.addRequest lt s.skippedWaiting r.requestId
        else waiting = cfg.policy.addRequest lt s.waiting r.requestId ∧
          skippedWaiting = s.skippedWaiting) :
      Adds q s { s.setRequest r.requestId
          { r with streamingQueue := if r.resumable then some [] else none } with
        waiting, skippedWaiting }
  | queued {r existing : SchedRequest D} {queue : List (Option SessionUpdate)}
      (hr : fromEngineCoreRequest cfg.hasher q = .ok r)
      (hget : s.requests.get? r.requestId = some existing)
      (hstatus : existing.status ≠ .waitingForStreamingReq)
      (hqueue : existing.streamingQueue = some queue) :
      Adds q s (s.setRequest r.requestId
        { existing with streamingQueue := some (queue ++ [r.streamingUpdate]) })
  | updated {r existing : SchedRequest D} {update : SessionUpdate} {request : Request D}
      (hr : fromEngineCoreRequest cfg.hasher q = .ok r)
      (hget : s.requests.get? r.requestId = some existing)
      (hstatus : existing.status = .waitingForStreamingReq)
      (hupdate : r.streamingUpdate = some update)
      (hrequest : Vllm.updateRequestAsSession cfg.hasher existing.toRequest
        update.toStreamingUpdate = .ok request) :
      Adds q s { s.setRequest r.requestId { existing with
          toRequest := request, status := .waiting
          arrivalTime := update.arrivalTime, samplingParams := update.samplingParams } with
        numWaitingForStreamingInput := s.numWaitingForStreamingInput - 1 }
  | ended {r existing : SchedRequest D} {s' : Scheduler D} {ids : List String}
      (hr : fromEngineCoreRequest cfg.hasher q = .ok r)
      (hget : s.requests.get? r.requestId = some existing)
      (hstatus : existing.status = .waitingForStreamingReq) (hupdate : r.streamingUpdate = none)
      (hfinish : cfg.finishRequests (some [r.requestId]) .finishedAborted s = (.ok ids, s')) :
      Adds q s s'

section
variable {cfg} {s s' : Scheduler D} {q : SchedCoreRequest}

theorem fromEngineCoreRequest_spec {H : BlockHasher D} {r : SchedRequest D}
    (h : fromEngineCoreRequest H q = .ok r) :
    ∃ base maxTokens status, Request.fromEngineCoreRequest H q.toEngineCoreRequest = .ok base ∧
      q.limits = .ok (maxTokens, status) ∧
      r = { toRequest := base, status, maxTokens
            priority := q.priority
            arrivalTime := q.arrivalTime
            samplingParams := q.samplingParams
            poolingParams := q.poolingParams
            useStructuredOutput := q.useStructuredOutput
            loraIntId := q.loraIntId
            skipReadingPrefixCache := q.getSkipReadingPrefixCache
            resumable := q.resumable } := by
  obtain ⟨x, hl, h⟩ := except_bind_eq_ok.mp h
  obtain ⟨base, hb, h⟩ := except_bind_eq_ok.mp h
  exact ⟨base, x.1, x.2, hb, hl, (Except.ok.inj h).symm⟩

theorem limits_status {maxTokens : Nat} {status : RequestStatus}
    (h : q.limits = .ok (maxTokens, status)) : status = .waiting ∨ status = .waitingForFsm := by
  unfold SchedCoreRequest.limits at h
  split at h
  · cases h
    exact .inl rfl
  · cases h
    split
    · exact .inr rfl
    · exact .inl rfl
  · cases h

theorem addRequest_eq_ok {u : Unit} (hknown : Known s.requests)
    (h : cfg.addRequest q s = (.ok u, s')) : Adds cfg q s s' := by
  unfold addRequest at h
  obtain ⟨r, s₁, hmake, hrest⟩ := bind_eq_ok.mp h
  cases hr : fromEngineCoreRequest cfg.hasher q with
  | error e =>
    rw [hr] at hmake
    exact absurd hmake raise_ne_ok
  | ok r₀ =>
    rw [hr] at hmake
    obtain ⟨rfl, rfl⟩ := pure_eq_ok.mp hmake
    obtain ⟨_, _, ⟨rfl, rfl⟩, hrest⟩ := bind_eq_ok.mp hrest
    cases hget : s₁.requests.get? r.requestId with
    | none =>
      simp only [hget, setRequest, enqueueWaitingRequest, bind_eq_ok, check_eq_ok,
        modify_eq_ok] at hrest
      obtain ⟨_, s₂, ⟨hfresh, rfl⟩, _, _, rfl, rfl⟩ := hrest
      have hnot : r.requestId ∉ s₂.running ++ (s₂.waiting ++ s₂.skippedWaiting) := by
        simpa using hfresh
      split
      · next hb => exact .fresh hr hget hnot (by rw [if_pos hb]; exact ⟨rfl, rfl⟩)
      · next hb => exact .fresh hr hget hnot (by rw [if_neg hb]; exact ⟨rfl, rfl⟩)
    | some existing =>
      simp only [hget] at hrest
      have hid := (hknown _ _ hget).1
      unfold addUpdate at hrest
      split at hrest
      · next hstatus =>
        cases hqueue : existing.streamingQueue with
        | none =>
          rw [hqueue] at hrest
          exact absurd hrest raise_ne_ok
        | some queue =>
          simp only [hqueue, setRequest, modify_eq_ok, hid] at hrest
          subst hrest
          exact .queued hr hget hstatus hqueue
      · next hstatus =>
        have hstatus' : existing.status = .waitingForStreamingReq := not_not.mp hstatus
        cases hupdate : r.streamingUpdate with
        | none =>
          simp only [hupdate, hid, bind_eq_ok] at hrest
          obtain ⟨ids, _, hfinish, -, rfl⟩ := hrest
          exact .ended hr hget hstatus' hupdate hfinish
        | some update =>
          simp only [hupdate, bind_eq_ok] at hrest
          obtain ⟨r', _, hup, -, rfl⟩ := hrest
          obtain ⟨request, hrequest, rfl, rfl⟩ := updateSession_eq_ok hup
          have hid' : request.requestId = r.requestId :=
            (updateRequestAsSession_requestId hrequest).trans hid
          rw [if_pos hstatus']
          simp only [hid']
          exact .updated hr hget hstatus' hupdate hrequest

theorem Adds.queues (h : Adds cfg q s s') (hq : s.Queues) : s'.Queues := by
  cases h with
  | @fresh r lt waiting skippedWaiting hr hget hfresh hqueue =>
    obtain ⟨base, maxTokens, status, hbase, hlimits, rfl⟩ := fromEngineCoreRequest_spec hr
    have hstatus := limits_status hlimits
    refine ⟨?_, ?_, ?_⟩
    · refine hq.known.set rfl ?_
      rcases hstatus with rfl | rfl <;> exact ⟨rfl, nofun⟩
    · refine (hq.queued.add hfresh ?_).perm (.refl _) ?_
      · rcases hstatus with rfl | rfl <;> simp
      · dsimp only
        split at hqueue
        · obtain ⟨rfl, rfl⟩ := hqueue
          exact ((cfg.policy.addRequest_perm lt _ _).append_left _).trans perm_middle
        · obtain ⟨rfl, rfl⟩ := hqueue
          exact (cfg.policy.addRequest_perm lt _ _).append_right _
    · refine hq.awaiting.trans (congrArg Nat.cast (sum_set_of_none hget ?_).symm)
      rcases hstatus with rfl | rfl <;> rfl
  | @queued r existing queue hr hget hstatus hqueue =>
    have hknown := hq.known _ _ hget
    refine ⟨hq.known.set hknown.1 (hknown.2.congr rfl rfl), hq.queued.set hget Iff.rfl, ?_⟩
    refine hq.awaiting.trans (congrArg Nat.cast (sum_set_of_eq hget ?_).symm)
    rfl
  | @updated r existing update request hr hget hstatus hupdate hrequest =>
    have hid := updateRequestAsSession_requestId hrequest
    have hknown := hq.known _ _ hget
    refine ⟨hq.known.set (hid.trans hknown.1) ⟨rfl, nofun⟩, hq.queued.set hget (by simp [hstatus]), ?_⟩
    have hsum := sum_set s.requests awaits r.requestId
      { existing with
        toRequest := request, status := .waiting
        arrivalTime := update.arrivalTime, samplingParams := update.samplingParams }
    have hone : (s.requests.get? r.requestId).elim 0 awaits = 1 := by
      rw [hget]
      simp [awaits, hstatus]
    have hwait : ∀ x : SchedRequest D, x.status = .waiting → awaits x = 0 := fun x hx => by
      simp [awaits, hx]
    rw [hwait _ rfl] at hsum
    have := hq.awaiting
    change s.numWaitingForStreamingInput - 1 = ((s.requests.set _ _).sum awaits : Nat)
    omega
  | ended hr hget hstatus hupdate hfinish => exact (finishRequests_eq_ok hq hfinish).2.2.2

end

/-! ## Reset -/

def resetReq (r : SchedRequest D) : SchedRequest D :=
  { preemptedReq r with numOutputPlaceholders := 0, discardLatestAsyncTokens := true }

structure ResetAll (s s' : Scheduler D) : Prop where
  running : s'.running = []
  requests : ∀ id, s'.requests.get? id =
    (s.requests.get? id).map fun r => if r.status = .running then resetReq r else r
  finished : s'.finishedReqIds = s.finishedReqIds
  pause : s'.pauseState = s.pauseState
  encoder : ReflTransGen GivesUp s.encoder s'.encoder
  kv : Frees cfg s.kv s'.kv

section
variable {cfg} {s s' : Scheduler D}

variable {ids : List String} {u : Unit}

theorem resetRunning_cons {id : String} (h : cfg.resetRunning (id :: ids) s = (.ok u, s')) :
    ∃ r kv, s.requests.get? id = some r ∧ r.status = .running ∧ cfg.kv.free id s.kv = (.ok (), kv) ∧
      cfg.resetRunning ids ((cfg.preempted { s with running := s.running.dropLast } id r kv).setRequest
        (preemptedReq r).requestId (resetReq r)) = (.ok u, s') := by
  simp only [resetRunning, setRequest, bind_eq_ok, modify_eq_ok, requestOf_eq_ok] at h
  obtain ⟨_, _, rfl, _, _, hpre, r', _, ⟨hr', rfl⟩, _, _, rfl, hrest⟩ := h
  obtain ⟨r, kv, hr, hstatus, hkv, rfl⟩ := preemptRequest_eq_ok hpre
  obtain rfl := Option.some.inj (hr'.symm.trans (get?_set_self _ _ _))
  exact ⟨r, kv, hr, hstatus, hkv, hrest⟩

theorem resetRunning_eq_ok (hq : s.Queues)
    (hrun : s.running = ids.reverse) (h : cfg.resetRunning ids s = (.ok u, s')) :
    ResetAll cfg s s' ∧ s'.Queues := by
  induction ids generalizing s with
  | nil =>
    obtain ⟨-, rfl⟩ := pure_eq_ok.mp h
    refine ⟨⟨hrun, fun id => ?_, rfl, rfl, .refl, .refl⟩, hq⟩
    cases hr : s'.requests.get? id with
    | none => rfl
    | some r =>
      have hnot : r.status ≠ .running := fun hs => by
        have hin := (hq.queued.active id r hr).mpr hs
        rw [hrun] at hin
        cases hin
      rw [Option.map_some, if_neg hnot]
  | cons id ids ih =>
    obtain ⟨r, kv, hr, hstatus, hkv, hrest⟩ := resetRunning_cons h
    have hid : r.requestId = id := (hq.known id r hr).1
    have hmem : id ∈ s.running := hrun ▸ by simp
    have hdrop : s.running.dropLast = s.running.erase id :=
      dropLast_eq_erase hq.queued.run_nodup (by rw [hrun]; simp)
    have hset : (s.requests.set id (preemptedReq r)).set (preemptedReq r).requestId (resetReq r) =
        s.requests.set id (resetReq r) := by
      rw [show (preemptedReq r).requestId = id from hid, Dict.set_set]
    -- the state from which the loop goes on
    have hq₁ : Queued (s.running.dropLast)
        (cfg.policy.prependRequest s.idLt s.waiting id ++ s.skippedWaiting)
        (s.requests.set id (resetReq r)) := by
      rw [hdrop]
      exact (hq.queued.demote hmem (by simp [resetReq, preemptedReq])).perm (.refl _)
        ((cfg.policy.prependRequest_perm _ _ _).append_right _)
    have hawait : (s.requests.set id (resetReq r)).sum awaits = s.requests.sum awaits :=
      Dict.sum_set_of_eq hr (by simp [awaits, resetReq, preemptedReq, hstatus])
    have hknown : Known (s.requests.set id (resetReq r)) :=
      hq.known.set hid ⟨rfl, fun hs => by cases hs⟩
    rw [← hset] at hq₁ hawait hknown
    have hgoesOn := fun hq' hrun' => ih hq' hrun' hrest
    obtain ⟨hreset, hqueues⟩ := hgoesOn
      ⟨hknown, hq₁, hq.awaiting.trans (congrArg Nat.cast hawait.symm)⟩
      (by change s.running.dropLast = _; rw [hrun]; simp)
    refine ⟨⟨hreset.running, fun id' => ?_, hreset.finished, hreset.pause,
      (givesUp_foldl _ _).trans hreset.encoder, .head ⟨id, hkv⟩ hreset.kv⟩, hqueues⟩
    rw [hreset.requests]
    change (((s.requests.set id (preemptedReq r)).set _ (resetReq r)).get? id').map _ = _
    rw [hset, Dict.get?_set]
    split
    · next heq =>
      subst heq
      rw [hr, Option.map_some, Option.map_some, if_pos hstatus]
      rfl
    · rfl

variable {b : Bool}

theorem resetPrefixCache_forced (hq : s.Queues) (h : cfg.resetPrefixCache true s = (.ok b, s')) :
    s'.Queues ∧ ∃ s₁ kv, ResetAll cfg s s₁ ∧
      KVCacheConfig.resetPrefixCache s₁.kv = (.ok true, kv) ∧
      s' = { s₁ with prevStepScheduledReqIds := [], kv } := by
  simp only [resetPrefixCache, resetRunningRequests, bind_eq_ok, when_eq_ok, if_true,
    get_eq_ok, modify_eq_ok, onKv_eq_ok, check_eq_ok, pure_eq_ok] at h
  obtain ⟨_, _, ⟨_, s, ⟨rfl, rfl⟩, _, s₁, hreset, rfl⟩, b', _, ⟨kv, hkv, rfl⟩, _, _, ⟨hb, rfl⟩, rfl,
    rfl⟩ := h
  obtain ⟨hall, hqueues⟩ := resetRunning_eq_ok hq (reverse_reverse _).symm hreset
  obtain rfl : b = true := by simpa using hb
  exact ⟨{ hqueues with }, s₁, kv, hall, hkv, rfl⟩

theorem resetPrefixCache_unforced (h : cfg.resetPrefixCache false s = (.ok b, s')) :
    ∃ kv, KVCacheConfig.resetPrefixCache s.kv = (.ok b, kv) ∧ s' = { s with kv } := by
  simp only [resetPrefixCache, bind_eq_ok, when_eq_ok, Bool.false_eq_true, if_false,
    onKv_eq_ok, check_eq_ok, pure_eq_ok] at h
  obtain ⟨_, _, rfl, b', _, ⟨kv, hkv, rfl⟩, _, _, ⟨-, rfl⟩, rfl, rfl⟩ := h
  exact ⟨kv, hkv, rfl⟩

end

/-! ## Draft tokens -/

structure Redrafted (s s' : Scheduler D) : Prop where
  requests : ∀ id, Option.Rel (fun r r' => ∃ specTokenIds, r' = { r with specTokenIds })
    (s.requests.get? id) (s'.requests.get? id)
  awaiting : s'.requests.sum awaits = s.requests.sum awaits
  frame : s' = { s with requests := s'.requests }

section
variable {s s' : Scheduler D}

theorem redrafted_refl (s : Scheduler D) : Redrafted s s := by
  exact ⟨fun id => optionRel_refl (fun r => ⟨r.specTokenIds, rfl⟩) _, rfl, rfl⟩

variable {id : String}

theorem redrafted_set {r : SchedRequest D} (hr : s.requests.get? id = some r)
    (hid : r.requestId = id) (specTokenIds : List Token) :
    Redrafted s (s.setRequest r.requestId { r with specTokenIds }) := by
  subst hid
  refine ⟨fun id' => ?_, sum_set_of_eq hr ?_, rfl⟩
  · rw [Scheduler.setRequest, get?_set]
    split
    · next heq =>
      rw [heq, hr]
      exact .some ⟨specTokenIds, rfl⟩
    · exact (redrafted_refl s).requests id'
  · rfl

theorem Redrafted.trans {s₁ s₂ s₃ : Scheduler D} (h : Redrafted s₁ s₂) (h' : Redrafted s₂ s₃) :
    Redrafted s₁ s₃ := by
  refine ⟨fun id => ?_, h'.awaiting.trans h.awaiting, by rw [h'.frame, h.frame]⟩
  have h₁ := h.requests id
  have h₂ := h'.requests id
  generalize s₁.requests.get? id = x at h₁ ⊢
  generalize s₂.requests.get? id = y at h₁ h₂
  generalize s₃.requests.get? id = z at h₂ ⊢
  cases h₁ with
  | none =>
    cases h₂
    exact .none
  | some he =>
    cases h₂ with
    | some he' =>
      obtain ⟨_, rfl⟩ := he
      obtain ⟨spec, rfl⟩ := he'
      exact .some ⟨spec, rfl⟩

theorem Redrafted.request (h : Redrafted s s') {r' : SchedRequest D}
    (hr' : s'.requests.get? id = some r') :
    ∃ r spec, s.requests.get? id = some r ∧ r' = { r with specTokenIds := spec } := by
  obtain ⟨r, hr, spec, he⟩ := exists_of_rel_some (h.requests id) hr'
  exact ⟨r, spec, hr, he⟩

theorem Redrafted.known (h : Redrafted s s') (hknown : Known s.requests) : Known s'.requests := by
  intro id r' hr'
  obtain ⟨r, spec, hr, rfl⟩ := h.request hr'
  exact ⟨(hknown id r hr).1, (hknown id r hr).2.congr rfl rfl⟩

variable {validate : String → List Token → List Token} {u : Unit}

theorem updateDraft_redrafted {specTokenIds : List Token} (hknown : Known s.requests)
    (h : updateDraft validate id specTokenIds s = (.ok u, s')) : Redrafted s s' := by
  rw [updateDraft, get_bind] at h
  cases hr : s.requests.get? id with
  | none =>
    simp only [hr] at h
    obtain ⟨-, rfl⟩ := pure_eq_ok.mp h
    exact redrafted_refl _
  | some r =>
    simp only [hr] at h
    split at h
    · obtain ⟨-, rfl⟩ := pure_eq_ok.mp h
      exact redrafted_refl _
    split at h
    · obtain rfl := modify_eq_ok.mp h
      exact redrafted_set hr (hknown id r hr).1 _
    · obtain rfl := modify_eq_ok.mp h
      exact redrafted_set hr (hknown id r hr).1 _

theorem updateDraftTokenIds_redrafted
    {drafts : List (String × List Token)} (hknown : Known s.requests)
    (h : updateDraftTokenIds validate drafts s = (.ok u, s')) : Redrafted s s' := by
  have hloop : Redrafted s s' ∧ Known s'.requests :=
    forEach_ok (I := fun _ t => Redrafted s t ∧ Known t.requests)
      (fun _ _ _ _ ht hx =>
        have hone := updateDraft_redrafted ht.2 hx
        ⟨ht.1.trans hone, hone.known ht.2⟩)
      ⟨redrafted_refl s, hknown⟩ h
  exact hloop.1

theorem Redrafted.queues (h : Redrafted s s') (hq : s.Queues) : s'.Queues := by
  refine ⟨h.known hq.known, ?_, ?_⟩
  · rw [h.frame]
    refine hq.queued.congr fun id => optionRel_mono (h.requests id) fun r r' hr => ?_
    obtain ⟨_, rfl⟩ := hr
    exact Iff.rfl
  · rw [h.awaiting, h.frame]
    exact hq.awaiting

end

/-! ## Results of a step -/

section
variable {cfg} {s s' : Scheduler D} {out : SchedulerOutput} {mo : ModelRunnerOutput}

theorem updateFromOutput_eq_ok {outputs : List EngineCoreOutput}
    (h : cfg.updateFromOutput out mo s = (.ok outputs, s')) :
    ∃ σ, Call.forEach out.numScheduledTokens.entries
        (fun e => cfg.updateEntry out mo e.1 e.2) (s, { }) = (.ok (), σ) ∧
      s' = { σ.1 with
        running := removeAll σ.1.running σ.2.stoppedRunningReqs
        waiting := if σ.2.stoppedPreemptedReqs = [] then σ.1.waiting
          else cfg.policy.removeRequests σ.1.idLt σ.1.waiting σ.2.stoppedPreemptedReqs } := by
  simp only [updateFromOutput, removeStopped, withLocal_eq_ok, bind_eq_ok,
    modify_eq_ok, gets_eq_ok] at h
  obtain ⟨_, _, σ, hloop, _, _, rfl, -, rfl, -⟩ := h
  exact ⟨σ, hloop, rfl⟩

end

end SchedConfig

/-! ## Calls of the engine -/

variable {D : Type} [DecidableEq D] (cfg : SchedConfig D)

inductive EngineStep : EngineOp → Engine D → Engine D → Prop where
  | addRequest {q : SchedCoreRequest} {e : Engine D} {s : Scheduler D}
      (h : cfg.addRequest q e.sched = (.ok (), s)) :
      EngineStep (.addRequest q) e { e with sched := s }
  | schedule {e : Engine D} {s : Scheduler D} {out : SchedulerOutput}
      (h : cfg.schedule e.sched = (.ok out, s)) :
      EngineStep .schedule e { sched := s, batchQueue := e.batchQueue ++ [out] }
  | updateFromOutput {mo : ModelRunnerOutput} {e : Engine D} {s : Scheduler D}
      {out : SchedulerOutput} {rest : List SchedulerOutput} {outputs : List EngineCoreOutput}
      (hbatch : e.batchQueue = out :: rest)
      (h : cfg.updateFromOutput out mo e.sched = (.ok outputs, s)) :
      EngineStep (.updateFromOutput mo) e { sched := s, batchQueue := rest }
  | updateDraftTokenIds {validate : String → List Token → List Token}
      {drafts : List (String × List Token)} {e : Engine D} {s : Scheduler D}
      (h : SchedConfig.updateDraftTokenIds validate drafts e.sched = (.ok (), s)) :
      EngineStep (.updateDraftTokenIds validate drafts) e { e with sched := s }
  | finishRequests {requestIds : Option (List String)} {status : RequestStatus} {e : Engine D}
      {s : Scheduler D} {ids : List String}
      (h : cfg.finishRequests requestIds status e.sched = (.ok ids, s)) :
      EngineStep (.finishRequests requestIds status) e { e with sched := s }
  | resetPrefixCache {forced : Bool} {e : Engine D} {s : Scheduler D} {b : Bool}
      (h : cfg.resetPrefixCache forced e.sched = (.ok b, s)) :
      EngineStep (.resetPrefixCache forced) e { e with sched := s }
  | setPauseState {pauseState : PauseState} {e : Engine D} :
      EngineStep (.setPauseState pauseState) e { e with sched := { e.sched with pauseState } }
  | compileGrammar {requestId : String} {e : Engine D} :
      EngineStep (.compileGrammar requestId) e
        { e with sched := grammarCompiled requestId e.sched }

variable {cfg}

variable {e : Engine D}

theorem onSched_eq_ok {α : Type} {m : SchedCall D α} {a : α} {e' : Engine D} :
    onSched m e = (.ok a, e') ↔
      ∃ s, m e.sched = (.ok a, s) ∧ e' = { e with sched := s } := zoom_eq_ok

theorem engineStep_of_returns {op : EngineOp} (h : op.Returns cfg e) :
    EngineStep cfg op e (op.next cfg e) := by
  have hcall : op.call cfg e = (.ok (), op.next cfg e) := Prod.ext h rfl
  generalize op.next cfg e = e' at hcall ⊢
  cases op with
  | addRequest q =>
    obtain ⟨s, hs, rfl⟩ := onSched_eq_ok.mp hcall
    exact .addRequest hs
  | schedule =>
    simp only [call, bind_eq_ok, onSched_eq_ok, modify_eq_ok] at hcall
    obtain ⟨out, _, ⟨s, hs, rfl⟩, rfl⟩ := hcall
    exact .schedule hs
  | updateFromOutput mo =>
    simp only [call, popBatch, bind_eq_ok, onSched_eq_ok, get_eq_ok, pure_eq_ok] at hcall
    obtain ⟨out, _, ⟨_, e, ⟨rfl, rfl⟩, hpop⟩, _, _, ⟨s, hs, rfl⟩, -, rfl⟩ := hcall
    cases hbatch : e.batchQueue with
    | nil => simp only [hbatch, raise_ne_ok] at hpop
    | cons out' rest =>
      simp only [hbatch] at hpop
      obtain ⟨rfl, rfl⟩ := hpop
      exact .updateFromOutput hbatch hs
  | updateDraftTokenIds validate drafts =>
    obtain ⟨s, hs, rfl⟩ := onSched_eq_ok.mp hcall
    exact .updateDraftTokenIds hs
  | finishRequests requestIds status =>
    simp only [call, bind_eq_ok, onSched_eq_ok] at hcall
    obtain ⟨ids, _, ⟨s, hs, rfl⟩, -, rfl⟩ := hcall
    exact .finishRequests hs
  | resetPrefixCache forced =>
    simp only [call, bind_eq_ok, onSched_eq_ok] at hcall
    obtain ⟨b, _, ⟨s, hs, rfl⟩, -, rfl⟩ := hcall
    exact .resetPrefixCache hs
  | setPauseState pauseState =>
    obtain ⟨s, hs, rfl⟩ := onSched_eq_ok.mp hcall
    obtain rfl := modify_eq_ok.mp hs
    exact .setPauseState
  | compileGrammar requestId =>
    obtain ⟨s, hs, rfl⟩ := onSched_eq_ok.mp hcall
    obtain rfl := modify_eq_ok.mp hs
    exact .compileGrammar

theorem grammarCompiled_queues {s : Scheduler D} {id : String} (hq : s.Queues) :
    (grammarCompiled id s).Queues := by
  unfold grammarCompiled
  cases hr : s.requests.get? id with
  | none => exact hq
  | some r =>
    have hknown := hq.known id r hr
    refine ⟨hq.known.set hknown.1 (hknown.2.congr rfl rfl), hq.queued.set hr Iff.rfl, ?_⟩
    refine hq.awaiting.trans (congrArg Nat.cast (sum_set_of_eq hr ?_).symm)
    rfl

end Vllm
