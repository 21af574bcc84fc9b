import Vllm.Sched.Sessions

/-! What `schedule` does when there is one request and the request has no encoder inputs: every call
on its way returns, and the request gets tokens. -/

set_option linter.unusedSectionVars false

namespace Vllm
open Base Dict Call Relation List

namespace SchedConfig
variable {D : Type} [DecidableEq D] {cfg : SchedConfig D} {σ : Step D} {id : String}
  {r : SchedRequest D} {n : Int} {kv : KVState D} {blocks : Option (List (List Nat))}

def plainTrial (n b : Int) : EncoderTrial where
  numNewTokens := n
  encoderComputeBudget := b

theorem tryScheduleEncoderInputs_text (htext : r.mmFeatures = []) (c n b : Int)
    (s : Scheduler D) : cfg.tryScheduleEncoderInputs r c n b s = (.ok (plainTrial n b), s) := by
  have hno : r.hasEncoderInputs = false := by simp [SchedRequest.hasEncoderInputs, htext]
  rw [tryScheduleEncoderInputs, if_pos (.inr (by rw [hno]; rfl))]
  rfl

variable {s : Scheduler D} {τ : Step D}

variable {α : Type} {a : α}

theorem lift_of_ok {m : SchedCall D α} (h : m σ.1 = (.ok a, s)) :
    (m.lift : StepCall D α) σ = (.ok a, (s, σ.2)) :=
  Vllm.lift_eq_ok.mpr ⟨h, rfl⟩

theorem requestOf_of_get (h : s.requests.get? id = some r) :
    requestOf id s = (.ok r, s) := requestOf_eq_ok.mpr ⟨h, rfl⟩

theorem onKv_of_ok {m : KVCall D α} (h : m s.kv = (.ok a, kv)) :
    onKv m s = (.ok a, { s with kv }) := onKv_eq_ok.mpr ⟨kv, h, rfl⟩

/-! ## A running request -/

theorem visitRunning_schedules (hr : σ.1.requests.get? id = some r) (htext : r.mmFeatures = [])
    (hmax : reachesMaxTokens r = false) (hn : cfg.numNewRunning r σ.2.tokenBudget = n)
    (hne : n ≠ 0) (halloc : cfg.kv.allocateSlots r.toRequest
      { numNewTokens := n, numLookaheadTokens := cfg.numLookaheadTokens } σ.1.kv =
        (.ok (some blocks), kv)) :
    cfg.visitRunning id σ = (.ok true,
      ({ σ.1.setRequest r.requestId { r with specTokenIds := [] } with kv },
        recordRunning r n blocks σ.2)) := by
  have htrial : (cfg.tryScheduleEncoderInputs r r.numComputedTokens n σ.2.encoderComputeBudget).lift σ =
      (.ok (plainTrial n σ.2.encoderComputeBudget), σ) :=
    lift_of_ok (tryScheduleEncoderInputs_text htext _ _ _ _)
  have hzero : (plainTrial n σ.2.encoderComputeBudget).numNewTokens ≠ 0 := hne
  have hblocks : cfg.allocateOrPreempt r (plainTrial n σ.2.encoderComputeBudget).numNewTokens
      (σ.1.running.length + 1) σ = (.ok (some blocks), ({ σ.1 with kv }, σ.2)) :=
    bind_of_ok (lift_of_ok (onKv_of_ok halloc))
  rw [visitRunning, bind_of_ok (lift_of_ok (requestOf_of_get hr)), hmax,
    if_neg Bool.false_ne_true, gets_bind, hn, bind_of_ok htrial, if_neg hzero,
    gets_bind, bind_of_ok hblocks]
  rfl

/-! ## A waiting request -/

variable {q : WaitingQueue}

theorem scheduleWaiting_eq {c : Nat} {b : Int}
    (hstatus : r.status = .waiting ∨ r.status = .preempted) :
    cfg.scheduleWaiting q r c (plainTrial n b) ({ σ.1 with kv }, σ.2) =
      (.ok (), (cfg.admitted σ.1 q r c kv σ.1.encoder,
        cfg.recordWaiting r n (cfg.blocksOf { σ.1 with kv } r.requestId) σ.2)) := by
  rw [scheduleWaiting, modify_bind, check_bind (decide_eq_true hstatus), modify_bind]
  cases q <;> rfl

variable {hits : Option (List (List Nat))}

theorem considerWaiting_places {c : Nat}
    (htext : r.mmFeatures = []) (hzero : r.numComputedTokens = 0)
    (hstatus : r.status = .waiting ∨ r.status = .preempted)
    (hlook : cfg.kv.getComputedBlocks r.toRequest r.skipReadingPrefixCache σ.1.kv =
      (.ok (hits, c), σ.1.kv)) (hc : c ≤ r.numTokens)
    (hchunk : cfg.enableChunkedPrefill = true ∨ cfg.numNewWaiting r c ≤ σ.2.tokenBudget)
    (hn : min (cfg.numNewWaiting r c) σ.2.tokenBudget = n) (hpos : 0 < n)
    (halloc : cfg.kv.allocateSlots r.toRequest
      { numNewTokens := n, numNewComputedTokens := c, newComputedBlocks := hits } σ.1.kv =
        (.ok (some blocks), kv)) :
    cfg.considerWaiting q r σ = (.ok true, (cfg.admitted σ.1 q r c kv σ.1.encoder,
      cfg.recordWaiting r n (cfg.blocksOf { σ.1 with kv } r.requestId) σ.2)) := by
  have hcomputed : cfg.computedTokens r σ.1 = (.ok (hits, c, c), σ.1) := by
    rw [computedTokens, if_pos hzero, bind_of_ok (onKv_of_ok hlook)]
    exact check_bind (decide_eq_true hc)
  have hchunked : ¬ (!cfg.enableChunkedPrefill && decide (cfg.numNewWaiting r c > σ.2.tokenBudget)) =
      true := by
    rcases hchunk with hon | hle
    · simp [hon]
    · simp [Int.not_lt.mpr hle]
  have htrial : (cfg.tryScheduleEncoderInputs r c n σ.2.encoderComputeBudget).lift σ =
      (.ok (plainTrial n σ.2.encoderComputeBudget), σ) :=
    lift_of_ok (tryScheduleEncoderInputs_text htext _ _ _ _)
  have hne : (plainTrial n σ.2.encoderComputeBudget).numNewTokens ≠ 0 := Int.ne_of_gt hpos
  have hslots : cfg.kv.allocateSlots r.toRequest (cfg.slotsWaiting r hits c
      (plainTrial n σ.2.encoderComputeBudget)) σ.1.kv = (.ok (some blocks), kv) := by
    rw [slotsWaiting, if_pos hzero]
    exact halloc
  rw [considerWaiting, bind_of_ok (lift_of_ok hcomputed)]
  change (if (!cfg.enableChunkedPrefill && decide (cfg.numNewWaiting r c > σ.2.tokenBudget)) = true
    then _ else _ : StepCall D Bool) σ = _
  rw [if_neg hchunked, hn, check_bind (decide_eq_true hpos), bind_of_ok htrial, if_neg hne]
  rw [placeWaiting]
  change (Call.lift (onKv (cfg.kv.allocateSlots r.toRequest (cfg.slotsWaiting r hits c
    (plainTrial n σ.2.encoderComputeBudget)))) >>= _) σ = _
  rw [bind_of_ok (lift_of_ok (onKv_of_ok hslots))]
  exact bind_of_ok (scheduleWaiting_eq hstatus)

theorem visitWaiting_considers (hr : σ.1.requests.get? id = some r)
    (hid : r.requestId = id) (hstatus : r.status = .waiting ∨ r.status = .preempted ∨
      r.status = .waitingForFsm ∧ r.useStructuredOutput = true ∧ r.grammarReady = true)
    (hlora : cfg.exceedsMaxLoras r σ.2.scheduledLoras = false) :
    ∃ status requests, requests.get? id = some { r with status } ∧
      (status = .waiting ∨ status = .preempted ∧ r.status = .preempted) ∧
      cfg.visitWaiting q id σ =
        cfg.considerWaiting q { r with status } ({ σ.1 with requests }, σ.2) := by
  have hgo : ∀ status requests, requests.get? id = some { r with status } →
      tryPromote r σ.1 = (.ok true, { σ.1 with requests }) →
      cfg.visitWaiting q id σ =
        cfg.considerWaiting q { r with status } ({ σ.1 with requests }, σ.2) := by
    intro status requests hget hpromote
    have hready : ¬ (!true || cfg.exceedsMaxLoras r σ.2.scheduledLoras) = true := by simp [hlora]
    rw [visitWaiting, bind_of_ok (lift_of_ok (requestOf_of_get hr)),
      bind_of_ok (lift_of_ok hpromote), gets_bind, if_neg hready,
      bind_of_ok (lift_of_ok (requestOf_of_get hget))]
  rcases hstatus with hs | hs | ⟨hs, huse, hgrammar⟩
  · have hsame : { r with status := .waiting } = r := by rw [← hs]
    refine ⟨.waiting, σ.1.requests, by rw [hsame]; exact hr, .inl rfl, hgo _ _ (by rw [hsame]; exact hr) ?_⟩
    rw [tryPromote, hs]
    rfl
  · have hsame : { r with status := .preempted } = r := by rw [← hs]
    refine ⟨.preempted, σ.1.requests, by rw [hsame]; exact hr, .inr ⟨rfl, hs⟩,
      hgo _ _ (by rw [hsame]; exact hr) ?_⟩
    rw [tryPromote, hs]
    rfl
  · have hget : (σ.1.requests.set id { r with status := .waiting }).get? id =
        some { r with status := .waiting } := get?_set_self _ _ _
    refine ⟨.waiting, _, hget, .inl rfl, hgo _ _ hget ?_⟩
    have hready : (r.useStructuredOutput && r.grammarReady) = true := by rw [huse, hgrammar]; rfl
    rw [tryPromote, hs]
    change (if (r.useStructuredOutput && r.grammarReady) = true then _ else _ : SchedCall D Bool) σ.1 = _
    rw [if_pos hready, ← hid]
    rfl

/-! ## The loops -/

structure LoneStep (cfg : SchedConfig D) (id : String) (n : Int) (σ : Step D) : Prop where
  request : ∃ r, σ.1.requests.get? id = some r
  running : σ.1.running = [id]
  tokens : σ.2.numScheduledTokens = Dict.set ∅ id n
  budget : σ.2.tokenBudget = cfg.maxNumScheduledTokens - n
  lists : σ.2.scheduledNewReqs ++ σ.2.scheduledResumedReqs ++ σ.2.scheduledRunningReqs = [id]
  resumed : ∀ id ∈ σ.2.scheduledResumedReqs, id ∉ σ.1.prevStepScheduledReqIds

theorem recordLoras_returns (hloras : ∀ m, cfg.maxLoras = some m → 0 < m)
    (hone : σ.2.scheduledRunningReqs.length ≤ 1) :
    cfg.recordLoras σ = (.ok (), (σ.1, cfg.withLoras σ)) := by
  rw [recordLoras, get_bind, withLoras]
  cases hmax : cfg.maxLoras with
  | none => rfl
  | some m =>
    have hlen : (lorasOf σ.1 σ.2.scheduledRunningReqs).length ≤ 1 := by
      refine (dedup_sublist _).length_le.trans ((filter_sublist).length_le.trans ?_)
      exact (length_filterMap_le _ _).trans hone
    have hle := hlen.trans (hloras m hmax)
    exact modify_bind.trans (check_eq_ok.mpr ⟨decide_eq_true hle, rfl⟩)

variable {fuel : Nat}

theorem runningLoop_turn (hid : σ.1.running[σ.2.reqIndex]? = some id)
    (hbudget : 0 < σ.2.tokenBudget) (h : cfg.visitRunning id σ = (.ok true, τ)) :
    cfg.runningLoop (fuel + 1) σ = cfg.runningLoop fuel τ := by
  rw [runningLoop, get_bind]
  dsimp only
  rw [hid]
  change (if σ.2.tokenBudget > 0 then _ else _ : StepCall D Unit) σ = _
  rw [if_pos hbudget, bind_of_ok h, if_pos rfl]

theorem waitingLoop_turn {rest : List String}
    (hq : queue σ.1 (cfg.selectWaitingQueueForScheduling σ.1) = id :: rest)
    (hbudget : 0 < σ.2.tokenBudget) (hroom : σ.1.running.length ≠ cfg.maxNumRunningReqs)
    (h : cfg.visitWaiting (cfg.selectWaitingQueueForScheduling σ.1) id σ = (.ok true, τ)) :
    cfg.waitingLoop (fuel + 1) σ = cfg.waitingLoop fuel τ := by
  rw [waitingLoop, get_bind]
  dsimp only
  rw [hq]
  change (if σ.2.tokenBudget > 0 ∧ σ.1.running.length ≠ cfg.maxNumRunningReqs then _ else _ :
    StepCall D Unit) σ = _
  rw [if_pos ⟨hbudget, hroom⟩, bind_of_ok h, if_pos rfl]

theorem scheduleWaitingRequests_eq {τ : Step D} (hpre : σ.2.preemptedReqs = [])
    (hpause : σ.1.pauseState = .unpaused)
    (hloop : cfg.waitingLoop (σ.1.waiting.length + σ.1.skippedWaiting.length) σ = (.ok (), τ)) :
    cfg.scheduleWaitingRequests σ = (.ok (), cfg.requeued τ) := by
  rw [scheduleWaitingRequests, get_bind]
  change (if σ.2.preemptedReqs = [] ∧ σ.1.pauseState = .unpaused then _ else _ : StepCall D Unit) σ = _
  rw [if_pos ⟨hpre, hpause⟩, bind_of_ok hloop]
  rfl

theorem scheduleLoops_eq {ρ : Step D}
    (hrun : cfg.runningLoop s.running.length (cfg.begin s) = (.ok (), σ))
    (hloras : cfg.recordLoras σ = (.ok (), τ)) (hwait : cfg.scheduleWaitingRequests τ = (.ok (), ρ))
    :
    cfg.scheduleLoops (s, cfg.initLocals s) = (.ok (), ρ) := by
  have hstart : (onKv KVCacheConfig.newStepStarts).lift (s, cfg.initLocals s) =
      (.ok (), cfg.begin s) := rfl
  rw [scheduleLoops, bind_of_ok hstart, gets_bind]
  exact (bind_of_ok hrun).trans ((bind_of_ok hloras).trans hwait)

theorem tokenBudget_begin {s : Scheduler D} (hpause : s.pauseState = .unpaused) :
    (cfg.begin s).2.tokenBudget = cfg.maxNumScheduledTokens := by
  change (if s.pauseState = .pausedAll then (0 : Int) else _) = _
  rw [hpause, if_neg (by decide)]

theorem scheduleLoops_running {s : Scheduler D} (hrun : s.running = [id]) (hwaiting : s.waiting = [])
    (hskipped : s.skippedWaiting = []) (hpause : s.pauseState = .unpaused)
    (hr : s.requests.get? id = some r) (hid : r.requestId = id) (htext : r.mmFeatures = [])
    (hmax : reachesMaxTokens r = false) (hbudget : 0 < cfg.maxNumScheduledTokens)
    (hloras : ∀ m, cfg.maxLoras = some m → 0 < m)
    (hn : cfg.numNewRunning r cfg.maxNumScheduledTokens = n) (hne : n ≠ 0)
    (halloc : cfg.kv.allocateSlots r.toRequest
      { numNewTokens := n, numLookaheadTokens := cfg.numLookaheadTokens } (cfg.begin s).1.kv =
        (.ok (some blocks), kv)) :
    ∃ σ, cfg.scheduleLoops (s, cfg.initLocals s) = (.ok (), σ) ∧ LoneStep cfg id n σ := by
  have htokens := @tokenBudget_begin _ _ cfg s hpause
  have hvisit := @visitRunning_schedules _ _ cfg (cfg.begin s) id r n kv blocks hr htext hmax
    (htokens.symm ▸ hn) hne halloc
  have hfirst : (cfg.begin s).1.running[(cfg.begin s).2.reqIndex]? = some id := by
    change s.running[0]? = _
    rw [hrun]
    rfl
  have hpos : 0 < (cfg.begin s).2.tokenBudget := htokens ▸ Int.natCast_pos.mpr hbudget
  obtain ⟨σ, hσ⟩ : ∃ σ : Step D,
      σ = ({ (cfg.begin s).1.setRequest r.requestId { r with specTokenIds := [] } with kv },
        recordRunning r n blocks (cfg.begin s).2) := ⟨_, rfl⟩
  rw [← hσ] at hvisit
  have hloop : cfg.runningLoop s.running.length (cfg.begin s) = (.ok (), σ) := by
    rw [hrun]
    exact runningLoop_turn hfirst hpos hvisit
  have hone : σ.2.scheduledRunningReqs = [r.requestId] := by rw [hσ]; rfl
  have hrecord : cfg.recordLoras σ = (.ok (), (σ.1, cfg.withLoras σ)) :=
    recordLoras_returns hloras (by rw [hone]; exact Nat.le_refl 1)
  obtain ⟨loras, hwith⟩ := @withLoras_eq _ _ cfg σ
  rw [hwith] at hrecord
  have hqueues : σ.1.waiting.length + σ.1.skippedWaiting.length = 0 := by
    rw [hσ]
    change s.waiting.length + s.skippedWaiting.length = 0
    rw [hwaiting, hskipped]
    rfl
  have hwait := @scheduleWaitingRequests_eq _ _ cfg (σ.1, { σ.2 with scheduledLoras := loras }) _
    (by rw [hσ]; rfl) (by rw [hσ]; exact hpause) (by rw [hqueues]; rfl)
  refine ⟨_, scheduleLoops_eq hloop hrecord hwait, ?_⟩
  subst hσ
  subst hid
  exact ⟨⟨_, get?_set_self _ _ _⟩, hrun, rfl, congrArg (· - n) htokens, rfl, nofun⟩

theorem queue_select (hlone : s.waiting ++ s.skippedWaiting = [id]) :
    queue s (cfg.selectWaitingQueueForScheduling s) = [id] := by
  rcases append_eq_singleton_iff.mp hlone with ⟨hw, hs⟩ | ⟨hw, hs⟩ <;>
    cases hp : cfg.policy <;> simp [selectWaitingQueueForScheduling, queue, hp, hw, hs]

theorem exceedsMaxLoras_first {s : Scheduler D} (hloras : ∀ m, cfg.maxLoras = some m → 0 < m)
    (r : SchedRequest D) : cfg.exceedsMaxLoras r (cfg.withLoras (cfg.begin s)).scheduledLoras = false := by
  unfold exceedsMaxLoras withLoras
  cases hmax : cfg.maxLoras with
  | none => rfl
  | some m =>
    have hpos := hloras m hmax
    have hnone : (lorasOf (cfg.begin s).1 (cfg.begin s).2.scheduledRunningReqs).length = 0 := rfl
    cases r.loraIntId with
    | none => rfl
    | some lora =>
      dsimp only
      rw [hnone, beq_false_of_ne (Nat.ne_of_lt hpos)]
      rfl

theorem loneStep_admitted {c : Nat} {encoder : EncoderCacheManager}
    (hid : r.requestId = id) (hrun : σ.1.running = []) (hnew : σ.2.scheduledNewReqs = [])
    (hres : σ.2.scheduledResumedReqs = []) (hran : σ.2.scheduledRunningReqs = [])
    (htokens : σ.2.numScheduledTokens = ∅) (hbudget : σ.2.tokenBudget = cfg.maxNumScheduledTokens)
    (hstatus : r.status = .waiting ∨
      r.status = .preempted ∧ r.requestId ∉ σ.1.prevStepScheduledReqIds) :
    LoneStep cfg id n (cfg.requeued (cfg.admitted σ.1 q r c kv encoder,
      cfg.recordWaiting r n blocks σ.2)) := by
  subst hid
  have hprev : (cfg.popQueue q σ.1).prevStepScheduledReqIds = σ.1.prevStepScheduledReqIds := by
    cases q <;> rfl
  refine ⟨⟨_, get?_set_self _ _ _⟩, ?_, ?_, congrArg (· - n) hbudget, ?_, ?_⟩
  · change σ.1.running ++ [r.requestId] = _
    rw [hrun, nil_append]
  · change σ.2.numScheduledTokens.set r.requestId n = _
    rw [htokens]
  · change (if r.status = .waiting then σ.2.scheduledNewReqs ++ [r.requestId]
      else σ.2.scheduledNewReqs) ++ (if r.status = .preempted then
        σ.2.scheduledResumedReqs ++ [r.requestId] else σ.2.scheduledResumedReqs) ++
      σ.2.scheduledRunningReqs = _
    rw [hnew, hres, hran]
    rcases hstatus with hs | ⟨hs, -⟩ <;> simp [hs]
  · change ∀ id ∈ (if r.status = .preempted then σ.2.scheduledResumedReqs ++ [r.requestId]
      else σ.2.scheduledResumedReqs), id ∉ (cfg.popQueue q σ.1).prevStepScheduledReqIds
    rw [hprev, hres]
    rcases hstatus with hs | ⟨hs, hnot⟩
    · simp [hs]
    · simpa [hs] using hnot

theorem scheduleLoops_waiting {s : Scheduler D} {c : Nat}
    (hrun : s.running = []) (hlone : s.waiting ++ s.skippedWaiting = [id])
    (hpause : s.pauseState = .unpaused) (hr : s.requests.get? id = some r) (hid : r.requestId = id)
    (htext : r.mmFeatures = []) (hzero : r.numComputedTokens = 0)
    (hstatus : r.status = .waiting ∨ r.status = .preempted ∨
      r.status = .waitingForFsm ∧ r.useStructuredOutput = true ∧ r.grammarReady = true)
    (hprev : r.status = .preempted → id ∉ s.prevStepScheduledReqIds)
    (hbudget : 0 < cfg.maxNumScheduledTokens) (hroom : 0 < cfg.maxNumRunningReqs)
    (hloras : ∀ m, cfg.maxLoras = some m → 0 < m)
    (hlook : cfg.kv.getComputedBlocks r.toRequest r.skipReadingPrefixCache (cfg.begin s).1.kv =
      (.ok (hits, c), (cfg.begin s).1.kv)) (hc : c ≤ r.numTokens)
    (hchunk : cfg.enableChunkedPrefill = true ∨ cfg.numNewWaiting r c ≤ cfg.maxNumScheduledTokens)
    (hn : min (cfg.numNewWaiting r c) cfg.maxNumScheduledTokens = n) (hpos : 0 < n)
    (halloc : cfg.kv.allocateSlots r.toRequest
      { numNewTokens := n, numNewComputedTokens := c, newComputedBlocks := hits }
        (cfg.begin s).1.kv = (.ok (some blocks), kv)) :
    ∃ σ, cfg.scheduleLoops (s, cfg.initLocals s) = (.ok (), σ) ∧ LoneStep cfg id n σ := by
  have htokens := @tokenBudget_begin _ _ cfg s hpause
  obtain ⟨loras, hwith⟩ := @withLoras_eq _ _ cfg (cfg.begin s)
  have hlora := @exceedsMaxLoras_first _ _ cfg s hloras r
  have hrecord : cfg.recordLoras (cfg.begin s) =
      (.ok (), ((cfg.begin s).1, cfg.withLoras (cfg.begin s))) :=
    recordLoras_returns hloras (Nat.zero_le 1)
  rw [hwith] at hlora hrecord
  obtain ⟨σ, hσ⟩ : ∃ σ : Step D, σ = ((cfg.begin s).1, { (cfg.begin s).2 with scheduledLoras := loras }) :=
    ⟨_, rfl⟩
  have hbudgetσ : σ.2.tokenBudget = cfg.maxNumScheduledTokens := by rw [hσ]; exact htokens
  have hqueue : queue σ.1 (cfg.selectWaitingQueueForScheduling σ.1) = [id] := by
    rw [hσ]
    exact queue_select hlone
  -- the request is promoted if it must be, and taken
  obtain ⟨status, requests, hget, hst, hvisit⟩ := @visitWaiting_considers _ _ cfg σ id r
    (cfg.selectWaitingQueueForScheduling σ.1) (by rw [hσ]; exact hr) hid hstatus (by rw [hσ]; exact hlora)
  have hplaces := @considerWaiting_places _ _ cfg ({ σ.1 with requests }, σ.2) { r with status } n kv
    blocks (cfg.selectWaitingQueueForScheduling σ.1) hits c htext hzero
    (hst.imp_right And.left) (by rw [hσ]; exact hlook) hc (by rw [hbudgetσ]; exact hchunk)
    (by rw [hbudgetσ]; exact hn) hpos (by rw [hσ]; exact halloc)
  have hlength : σ.1.waiting.length + σ.1.skippedWaiting.length = 1 := by
    rw [hσ, ← length_append]
    exact congrArg List.length hlone
  have hfree : σ.1.running.length ≠ cfg.maxNumRunningReqs := by
    rw [hσ]
    change s.running.length ≠ _
    rw [hrun]
    exact Nat.ne_of_lt hroom
  have hturn := (congrArg (fun fuel => cfg.waitingLoop fuel σ) hlength).trans (waitingLoop_turn hqueue
    (hbudgetσ ▸ Int.natCast_pos.mpr hbudget) hfree (hvisit.trans hplaces))
  have hloop : cfg.runningLoop s.running.length (cfg.begin s) = (.ok (), cfg.begin s) := by
    rw [hrun]
    rfl
  have hwait := scheduleWaitingRequests_eq (by rw [hσ]; rfl) (by rw [hσ]; exact hpause) hturn
  rw [hσ] at hwait
  refine ⟨_, scheduleLoops_eq hloop hrecord hwait, ?_⟩
  refine loneStep_admitted hid hrun rfl rfl rfl rfl htokens ?_
  rcases hst with hs | ⟨hs, hs'⟩
  · exact .inl hs
  · exact .inr ⟨hs, hid.symm ▸ hprev hs'⟩

/-! ## The output -/

theorem LoneStep.constraints (h : LoneStep cfg id n σ) (hle : n ≤ cfg.maxNumScheduledTokens)
    (hroom : 0 < cfg.maxNumRunningReqs) : cfg.checkConstraints σ.1 σ.2 σ = (.ok (), σ) := by
  have htotal : (σ.2.numScheduledTokens.entries.map Prod.snd).sum ≤ cfg.maxNumScheduledTokens := by
    rw [h.tokens]
    change n + 0 ≤ _
    omega
  have hbudget : σ.2.tokenBudget ≥ 0 := by
    rw [h.budget]
    omega
  have hrunning : σ.1.running.length = 1 := by
    rw [h.running]
    rfl
  have hlists : σ.2.scheduledNewReqs.length + σ.2.scheduledResumedReqs.length +
      σ.2.scheduledRunningReqs.length = 1 := by
    rw [← length_append, ← length_append, h.lists]
    rfl
  rw [checkConstraints, check_bind (decide_eq_true htotal), check_bind (decide_eq_true hbudget),
    check_bind (decide_eq_true (hrunning.trans_le hroom))]
  exact check_eq_ok.mpr ⟨decide_eq_true (hlists.trans hrunning.symm).le, rfl⟩

theorem LoneStep.makeOutput (h : LoneStep cfg id n σ) :
    ∃ out s, cfg.makeOutput σ.2 σ.1 = (.ok out, s) ∧ s.requests = σ.1.requests ∧
      out.numScheduledTokens = σ.2.numScheduledTokens := by
  obtain ⟨r, hr⟩ := h.request
  have hall : ∀ id' ∈ σ.2.scheduledNewReqs ++ σ.2.scheduledResumedReqs ++ σ.2.scheduledRunningReqs,
      σ.1.requests.get? id' = some r := by
    intro id' hid'
    rw [h.lists, mem_singleton] at hid'
    rw [hid', hr]
  obtain ⟨newReqs, hnew⟩ := @mapEach_returns PyError _ _ _ σ.1 σ.2.scheduledNewReqs
    (cfg.makeNewRequestData σ.2) fun id' hid' => ⟨cfg.newRequestData σ id' r, by
      rw [makeNewRequestData, bind_of_ok (requestOf_of_get (hall id' (by simp [hid'])))]
      rfl⟩
  have hcached : ∀ resumed : Bool, ∀ id', (resumed = true → id' ∉ σ.1.prevStepScheduledReqIds) →
      σ.1.requests.get? id' = some r →
      ∃ e, cfg.makeCachedRequest σ.2 resumed id' σ.1 = (.ok e, σ.1) := by
    intro resumed id' hprev hget
    have hcheck : (!resumed || !decide (id' ∈ σ.1.prevStepScheduledReqIds)) = true := by
      cases resumed with
      | false => rfl
      | true => simpa using hprev rfl
    rw [makeCachedRequest, bind_of_ok (requestOf_of_get hget), gets_bind, check_bind hcheck]
    exact ⟨_, rfl⟩
  obtain ⟨runningReqs, hrun⟩ := @mapEach_returns PyError _ _ _ σ.1 σ.2.scheduledRunningReqs
    (cfg.makeCachedRequest σ.2 false) fun id' hid' =>
      hcached false id' (by simp) (hall id' (by simp [hid']))
  obtain ⟨resumedReqs, hres⟩ := @mapEach_returns PyError _ _ _ σ.1 σ.2.scheduledResumedReqs
    (cfg.makeCachedRequest σ.2 true) fun id' hid' =>
      hcached true id' (fun _ => h.resumed id' hid') (hall id' (by simp [hid']))
  rw [SchedConfig.makeOutput, bind_of_ok hnew, bind_of_ok hrun, bind_of_ok hres,
    get_bind, modify_bind]
  exact ⟨_, _, rfl, rfl, rfl⟩

section
variable (hsync : cfg.asyncScheduling = false) (h : LoneStep cfg id n σ) (hpos : 0 < n)
include hsync h hpos

theorem LoneStep.advances {out : SchedulerOutput} (hs : s.requests = σ.1.requests)
    (hout : out.numScheduledTokens = σ.2.numScheduledTokens) :
    ∃ s', cfg.updateAfterSchedule out s = (.ok (), s') := by
  obtain ⟨r, hr⟩ := h.request
  rw [← hs] at hr
  have hsum : ¬ (r.numComputedTokens : Int) + n < 0 := by omega
  obtain ⟨s₁, hadvance⟩ : ∃ s₁, advance id n s = (.ok (), s₁) := by
    rw [advance, get_bind, hr]
    dsimp only
    rw [withComputed, if_neg hsum]
    exact ⟨_, rfl⟩
  have hentries : out.numScheduledTokens.entries = [(id, n)] := by
    rw [hout, h.tokens]
    rfl
  have hloop : Call.forEach out.numScheduledTokens.entries (fun e => advance e.1 e.2) s =
      (.ok (), s₁) := by
    rw [hentries]
    exact bind_of_ok hadvance
  rw [updateAfterSchedule, bind_of_ok hloop, hsync]
  exact ⟨_, rfl⟩

theorem LoneStep.schedule (hle : n ≤ cfg.maxNumScheduledTokens) (hroom : 0 < cfg.maxNumRunningReqs)
    {s : Scheduler D} (hloops : cfg.scheduleLoops (s, cfg.initLocals s) = (.ok (), σ)) :
    ∃ out s', cfg.schedule s = (.ok out, s') ∧ out.numScheduledTokens.get? id = some n := by
  obtain ⟨out, s₁, hout, hreqs, htokens⟩ := h.makeOutput
  obtain ⟨s₂, hadvanced⟩ := h.advances hsync hpos hreqs htokens
  refine ⟨out, s₂, ?_, ?_⟩
  · rw [SchedConfig.schedule, get_bind, withLocal_eq_ok]
    refine ⟨σ.2, ?_⟩
    rw [bind_of_ok hloops, get_bind]
    dsimp only
    rw [bind_of_ok (h.constraints hle hroom), bind_of_ok (lift_of_ok hout),
      bind_of_ok (lift_of_ok hadvanced)]
    rfl
  · rw [htokens, h.tokens]
    exact get?_set_self _ _ _

end

end SchedConfig
end Vllm
