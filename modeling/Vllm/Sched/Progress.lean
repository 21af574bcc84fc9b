import Vllm.Sched.Lone

/-! A request that is alone in the scheduler gets tokens in every step, as long as its prompt and its
least output fit into the model. -/

set_option linter.unusedSectionVars false

namespace Vllm
open Base Dict Call Relation SchedConfig EngineOp
open List hiding removeAll

variable {D : Type} [DecidableEq D] {cfg : SchedConfig D}

/-! ## The queues take in no other ids -/

def Scheduler.queuedIds (s : Scheduler D) : List String :=
  s.running ++ (s.waiting ++ s.skippedWaiting)

def stepIds (σ : Step D) : List String :=
  σ.1.running ++ (σ.1.waiting ++ σ.1.skippedWaiting ++ σ.2.stepSkippedWaiting)

theorem stepIds_dropVictim {σ : Step D} {v : String} :
    (stepIds (cfg.dropVictim σ v)).Sublist (stepIds σ) := by
  unfold dropVictim
  split
  · exact (dropLast_sublist _).append (.refl _)
  · refine (erase_sublist).append ?_
    split <;> exact .refl _

variable {s : Scheduler D} {out : SchedulerOutput}

theorem SchedConfig.LoopMove.stepIds_subset {x y : Step D × Pc D} (h : LoopMove cfg x y)
    (hinv : LoopInv cfg s x.1 x.2) : stepIds y.1 ⊆ stepIds x.1 := by
  cases h with
  | passBy _ _ _ | visit _ _ _ _ _ | giveUp _ | endRunning _ | startWaiting _ _ | noWaiting
    | promote _ _ | refuse _ _ _ _ _ _ | hold _ _ _ _ | leave => exact fun _ hid => hid
  | @preempt σ _ rv _ kv₁ kv₂ v _ _ hv _ _ _ =>
    have hin : v ∈ stepIds σ := mem_append_left _ (victim_mem (s := (withKv σ kv₁).1) hv)
    have hsub : stepIds (cfg.dropVictim (withKv σ kv₁) v) ⊆ stepIds σ := stepIds_dropVictim.subset
    intro id hid
    have hperm := cfg.policy.prependRequest_perm (cfg.dropVictim (withKv σ kv₁) v).1.idLt
      (cfg.dropVictim (withKv σ kv₁) v).1.waiting v
    have hcases : id = v ∨ id ∈ stepIds (cfg.dropVictim (withKv σ kv₁) v) := by
      simp only [stepIds, afterPreempt, preempted, notePreempted, mem_append, hperm.mem_iff,
        mem_cons, Scheduler.setRequest] at hid ⊢
      tauto
    rcases hcases with rfl | hmem
    · exact hin
    · exact hsub hmem
  | @schedule σ r t kv blocks encoder _ _ _ =>
    change σ.1.running ++ (σ.1.waiting ++ σ.1.skippedWaiting ++
      (bookEncoder r t (recordRunning r t.numNewTokens blocks σ.2)).stepSkippedWaiting) ⊆ _
    rw [bookEncoder_stepSkippedWaiting]
    exact fun _ hid => hid
  | @checkLoras σ _ =>
    obtain ⟨loras, hloras⟩ := @withLoras_eq _ _ cfg σ
    rw [hloras]
    exact fun _ hid => hid
  | @skip σ q id rest hq _ =>
    have hrun : (cfg.popQueue q σ.1).running = σ.1.running := by cases q <;> rfl
    have hrest := ((cfg.policy.prependRequest_perm σ.1.idLt σ.2.stepSkippedWaiting id).append_left
      ((cfg.popQueue q σ.1).waiting ++ (cfg.popQueue q σ.1).skippedWaiting)).trans
        (perm_middle.trans (queue_perm hq))
    change (cfg.popQueue q σ.1).running ++ _ ⊆ _
    rw [hrun]
    exact (hrest.append_left _).subset
  | @place σ q id rest r hits numLocal c t encoder₁ encoder₂ kv blocks _ _ hq hr _ _ _ _ _ _ _ _ _ =>
    obtain rfl := (hinv.known id r hr).1
    have hperm := @queue_perm _ _ cfg σ _ q rest σ.2.stepSkippedWaiting hq
    change (σ.1.running ++ [r.requestId]) ++ ((cfg.popQueue q σ.1).waiting ++
      (cfg.popQueue q σ.1).skippedWaiting ++ (bookEncoder r t (cfg.recordWaiting r t.numNewTokens
        (cfg.blocksOf { σ.1 with kv } r.requestId) σ.2)).stepSkippedWaiting) ⊆ _
    rw [bookEncoder_stepSkippedWaiting, append_assoc]
    exact (hperm.append_left σ.1.running).subset
  | @requeue σ =>
    have hperm := ((cfg.policy.prependRequests_perm σ.1.idLt σ.1.skippedWaiting
      σ.2.stepSkippedWaiting).trans perm_append_comm).append_left (σ.1.running ++ σ.1.waiting)
    intro id hid
    have hmem : id ∈ _ → id ∈ _ := fun hin => hperm.subset hin
    simp only [stepIds, mem_append] at hid hmem ⊢
    tauto

variable {s' : Scheduler D}

theorem queuedIds_of_schedule (hq : s.Queues)
    (h : cfg.schedule s = (.ok out, s')) : s'.queuedIds ⊆ s.queuedIds := by
  obtain ⟨σ, hemitted, -, -, -⟩ := schedule_eq_ok hq h
  have hloops : LoopInv cfg s σ .done ∧ stepIds σ ⊆ stepIds (cfg.begin s) := by
    have hgen : ∀ y : Step D × Pc D, ReflTransGen (LoopMove cfg) (cfg.begin s, .running) y →
        LoopInv cfg s y.1 y.2 ∧ stepIds y.1 ⊆ stepIds (cfg.begin s) := by
      intro y hmoves
      induction hmoves with
      | refl => exact ⟨hq.begin, fun _ hid => hid⟩
      | tail _ hmove ih => exact ⟨hmove.inv ih.1, fun _ hid => ih.2 (hmove.stepIds_subset ih.1 hid)⟩
    exact hgen _ hemitted.moves
  intro id hid
  rw [hemitted.advanced.frame] at hid
  have hstep : id ∈ stepIds σ := by
    change id ∈ σ.1.running ++ (σ.1.waiting ++ σ.1.skippedWaiting) at hid
    simp only [stepIds, mem_append] at hid ⊢
    tauto
  have hbegin := hloops.2 hstep
  change id ∈ s.running ++ (s.waiting ++ s.skippedWaiting ++ []) at hbegin
  rwa [append_nil] at hbegin

variable {mo : ModelRunnerOutput}

theorem SchedConfig.EntryMove.frame {id : String}
    {σ σ' : Scheduler D × UpdateLocals} (h : EntryMove cfg out mo id σ σ')
    (hno : ∀ r, σ.1.requests.get? id = some r → r.resumable = false) :
    σ'.1.queuedIds = σ.1.queuedIds ∧
      σ'.1.prevStepScheduledReqIds = σ.1.prevStepScheduledReqIds := by
  cases h with
  | skip _ | keep _ => exact ⟨rfl, rfl⟩
  | stop htakes hstop =>
    have hres := htakes.resumable.trans (hno _ htakes.get)
    cases hstop with
    | finish _ _ => exact ⟨rfl, rfl⟩
    | goOn hsession _ _ | await hsession _ => cases hres.symm.trans hsession

theorem removeAll_subset (ids toRemove : List String) : removeAll ids toRemove ⊆ ids := by
  unfold removeAll
  split
  · exact fun _ hid => hid
  · exact erase_subset
  · exact fun _ hid => mem_of_mem_filter hid

theorem queuedIds_of_update {outputs : List EngineCoreOutput} (hknown : Known s.requests)
    (hno : ∀ id r, s.requests.get? id = some r → r.resumable = false)
    (h : cfg.updateFromOutput out mo s = (.ok outputs, s')) :
    s'.queuedIds ⊆ s.queuedIds ∧ s'.prevStepScheduledReqIds = s.prevStepScheduledReqIds := by
  obtain ⟨σ, hloop, rfl⟩ := updateFromOutput_eq_ok h
  have hrun := forEach_ok
    (I := fun es σ => Known σ.1.requests ∧ (∀ e ∈ es, e ∈ out.numScheduledTokens.entries) ∧
      (∀ id r, σ.1.requests.get? id = some r → r.resumable = false) ∧
      σ.1.queuedIds = s.queuedIds ∧ σ.1.prevStepScheduledReqIds = s.prevStepScheduledReqIds)
    (fun e es σ σ' hI hx => ?_) ⟨hknown, fun _ he => he, hno, rfl, rfl⟩ hloop
  · obtain ⟨-, -, -, hids, hprev⟩ := hrun
    refine ⟨fun id hid => ?_, hprev⟩
    rw [← hids]
    have hwaiting : (if σ.2.stoppedPreemptedReqs = [] then σ.1.waiting
        else cfg.policy.removeRequests σ.1.idLt σ.1.waiting σ.2.stoppedPreemptedReqs) ⊆
          σ.1.waiting := by
      split
      · exact fun _ hin => hin
      · exact fun _ hin => mem_of_mem_filter ((cfg.policy.removeRequests_perm _ _ _).subset hin)
    rcases mem_append.mp hid with hrun | hrest
    · exact mem_append_left _ (removeAll_subset _ _ hrun)
    · rcases mem_append.mp hrest with hw | hskip
      · exact mem_append_right _ (mem_append_left _ (hwaiting hw))
      · exact mem_append_right _ (mem_append_right _ hskip)
  · obtain ⟨hk, hsub, hres, hids, hprev⟩ := hI
    have hmove := updateEntry_move hk hx
    obtain ⟨hids', hprev'⟩ := hmove.frame (hres e.1)
    have hin : e.1 ∈ out.numScheduledTokens.keys :=
      mem_map.mpr ⟨e, hsub e mem_cons_self, rfl⟩
    refine ⟨hmove.known hk, fun e' he' => hsub e' (mem_cons_of_mem _ he'), fun id r hr => ?_,
      hids'.trans hids, hprev'.trans hprev⟩
    by_cases heq : id = e.1
    · subst heq
      obtain ⟨r₀, hr₀, hsame⟩ := (hmove.outcome hk hin).resumable hr
      exact hsame.trans (hres _ r₀ hr₀)
    · exact hres id r ((hmove.others heq).symm.trans hr)

/-! ## One request -/

/-- The calls of a run in which no request arrives and none is taken away, with one step
outstanding at most. -/
def EngineOp.Drives (op : EngineOp) (e : Engine D) : Prop :=
  match op with
  | .schedule | .updateFromOutput _ | .updateDraftTokenIds _ _ | .setPauseState _
  | .compileGrammar _ => op.OneStep e
  | _ => False

instance (op : EngineOp) (e : Engine D) : Decidable (op.Drives e) := by
  rcases op <;> unfold EngineOp.Drives <;> infer_instance

structure TextRequest (r : SchedRequest D) : Prop where
  text : r.mmFeatures = []
  status : r.status = .running ∨ r.status = .waiting ∨ r.status = .preempted ∨
    r.status = .waitingForFsm ∧ r.useStructuredOutput = true
  fresh : r.status ≠ .running → r.numComputedTokens = 0
  nonempty : 0 < r.numTokens

section
variable {r r' : SchedRequest D} {id : String} {e e' : Engine D} {op : EngineOp}

variable {out : SchedulerOutput}

variable {mo : ModelRunnerOutput} {generated kept : List Token} {kv : KVState D}

theorem SchedConfig.Takes.computed_zero {s : Scheduler D} {stopped : Bool}
    (h : Takes cfg out mo id s r generated r' kept stopped kv) (hzero : r.numComputedTokens = 0) :
    r'.numComputedTokens = 0 := by
  have hadj : (adjusted (draftsOf out id) generated r).numComputedTokens = 0 := by
    unfold adjusted
    split
    · exact hzero
    · change (if r.numComputedTokens > 0 then _ else _) = 0
      rw [if_neg (by omega), hzero]
  have htook := h.took
  cases htook with
  | pooled _ _ | idle _ _ | discarded _ _ _ => exact hadj
  | appended _ _ _ happ | settled _ _ _ _ happ _ _ =>
    obtain ⟨_, _, rfl, -⟩ := happ.spec
    exact hadj

theorem TextRequest.takes {s : Scheduler D} (h : TextRequest r)
    (htakes : Takes cfg out mo id s r generated r' kept false kv) : TextRequest r' := by
  have hstatus := htakes.status
  have hfresh : r'.status ≠ .running → r'.numComputedTokens = 0 := fun hs =>
    htakes.computed_zero (h.fresh (hstatus ▸ hs))
  obtain ⟨hashes, status, p, c, flag, rfl, -⟩ := htakes.spec
  refine ⟨h.text, ?_, hfresh, ?_⟩
  · rw [hstatus]
    exact h.status
  · change 0 < (r.allTokenIds ++ kept).length
    rw [length_append]
    exact Nat.lt_add_right _ h.nonempty

theorem textRequest_advanced (htext : r.mmFeatures = []) (hrun : r.status = .running)
    (hpos : 0 < r.numTokens) (n : Int) (k : Nat) : TextRequest (cfg.advanced n k r) := by
  obtain ⟨p, c, spec, chunk, he⟩ := advanced_eq cfg n k r
  rw [he]
  exact ⟨htext, .inl hrun, fun hs => absurd hrun hs, hpos⟩

theorem TextRequest.outcome (h : TextRequest r) (houtcome : Outcome cfg out id r r') :
    TextRequest r' := by
  cases houtcome with
  | kept _ _ => exact h
  | ran hrun _ _ _ _ _ _ =>
    refine textRequest_advanced ?_ ?_ ?_ _ _
    exacts [h.text, hrun, h.nonempty]
  | preempted _ _ _ => exact ⟨h.text, .inr (.inr (.inl rfl)), fun _ => rfl, h.nonempty⟩
  | promoted hfsm _ _ =>
    exact ⟨h.text, .inr (.inl rfl), fun _ => h.fresh (by simp [hfsm]), h.nonempty⟩
  | placed _ _ _ _ _ _ _ _ =>
    refine textRequest_advanced ?_ ?_ ?_ _ _
    exacts [h.text, rfl, h.nonempty]

theorem RequestStep.textRequest {x : Option (SchedRequest D)} (hop : op.Drives e)
    (hno : ∀ r, x = some r → r.resumable = false) (hx : ∀ r, x = some r → TextRequest r)
    (h : RequestStep cfg op e e' id x (some r')) : TextRequest r' := by
  generalize hy : some r' = y at h
  cases h with
  | absent | ends _ => cases hy
  | arrives hadd _ _ _ | queues hadd _ _ _ _ | updates hadd _ _ _ _ _ _ =>
    subst hadd
    exact hop.elim
  | same _ =>
    cases hy
    exact hx _ rfl
  | scheduled _ _ houtcome =>
    cases hy
    exact (hx _ rfl).outcome houtcome
  | took _ _ _ houtcome =>
    cases houtcome with
    | absent | finished _ _ _ => cases hy
    | untouched _ =>
      cases hy
      exact hx _ rfl
    | kept _ htakes =>
      cases hy
      exact (hx _ rfl).takes htakes
    | continued _ htakes hres _ _ | awaits _ htakes hres _ =>
      cases (htakes.resumable.trans (hno _ rfl)).symm.trans hres
  | redrafted _ | compiled _ =>
    cases hy
    have hold := hx _ rfl
    exact { hold with }
  | reset hreset _ _ =>
    subst hreset
    exact hop.elim

end

structure LoneInv (cfg : SchedConfig D) (id : String) (e : Engine D) : Prop where
  lengths : LengthInv cfg e
  noSessions : NoSessions e
  queued : ∀ id' ∈ e.sched.queuedIds, id' = id
  text : ∀ r, e.sched.requests.get? id = some r → TextRequest r
  prevStep : ∀ r, e.sched.requests.get? id = some r → r.status = .preempted →
    id ∉ e.sched.prevStepScheduledReqIds

section
variable {e e' : Engine D} {op : EngineOp} {id : String}

theorem EngineOp.Drives.oneStep (h : op.Drives e) : op.OneStep e := by
  cases op <;> first | exact h | exact h.elim

theorem EngineOp.Drives.leavesRoom (h : op.Drives e) (hno : NoSessions e) (M : Nat) :
    op.LeavesRoom M e := by
  cases op with
  | addRequest q => exact h.elim
  | updateFromOutput mo =>
    exact fun out _ id _ r hr hres => by cases (hno id r hr).symm.trans hres
  | _ => trivial

theorem EngineStep.queuedIds (h : EngineStep cfg op e e') (hop : op.Drives e)
    (hinv : LoneInv cfg id e) : e'.sched.queuedIds ⊆ e.sched.queuedIds := by
  cases h with
  | addRequest _ | finishRequests _ | resetPrefixCache _ => exact hop.elim
  | schedule h => exact queuedIds_of_schedule hinv.lengths.spec.queues h
  | updateFromOutput _ h =>
    exact (queuedIds_of_update hinv.lengths.spec.queues.known hinv.noSessions h).1
  | updateDraftTokenIds h =>
    rw [(updateDraftTokenIds_redrafted hinv.lengths.spec.queues.known h).frame]
    exact fun _ hid => hid
  | setPauseState => exact fun _ hid => hid
  | compileGrammar =>
    unfold grammarCompiled
    split <;> exact fun _ hid => hid

variable {r' : SchedRequest D}

theorem SchedConfig.Outcome.not_scheduled {out : SchedulerOutput} {r : SchedRequest D}
    (h : Outcome cfg out id r r') (hstatus : r'.status = .preempted) :
    out.numScheduledTokens.get? id = none := by
  cases h with
  | kept hn _ | preempted _ hn _ | promoted _ hn _ => exact hn
  | ran hrun _ _ _ _ _ _ =>
    obtain ⟨_, _, _, _, he⟩ := advanced_eq cfg _ _ { r with specTokenIds := [] }
    rw [he] at hstatus
    cases hrun.symm.trans hstatus
  | @placed c _ _ _ _ _ _ _ _ _ _ =>
    obtain ⟨_, _, _, _, he⟩ := advanced_eq cfg _ _
      { r with status := .running, numComputedTokens := c }
    rw [he] at hstatus
    cases hstatus

theorem EngineStep.prevStep (h : EngineStep cfg op e e') (hop : op.Drives e)
    (hinv : LoneInv cfg id e) (hr' : e'.sched.requests.get? id = some r')
    (hstatus : r'.status = .preempted) : id ∉ e'.sched.prevStepScheduledReqIds := by
  have hq := hinv.lengths.spec.queues
  cases h with
  | addRequest _ | finishRequests _ | resetPrefixCache _ => exact hop.elim
  | @schedule e s' out h =>
    obtain ⟨σ, hemitted, hloops, -, -⟩ := schedule_eq_ok hq h
    obtain ⟨r, -, houtcome⟩ := exists_of_rel_some (hemitted.outcome hloops id) hr'
    have hprev : s'.prevStepScheduledReqIds = out.numScheduledTokens.keys := by
      rw [hemitted.advanced.frame, hemitted.output.scheduled]
      rfl
    change id ∉ s'.prevStepScheduledReqIds
    rw [hprev]
    exact get?_eq_none_iff.mp (houtcome.not_scheduled hstatus)
  | @updateFromOutput mo e s' out rest outputs _ h =>
    have hprev := (queuedIds_of_update hq.known hinv.noSessions h).2
    have houtcome := updateFromOutput_outcome hq.known h id
    have hold := hinv.prevStep
    change id ∉ s'.prevStepScheduledReqIds
    rw [hprev]
    rw [hr'] at houtcome
    generalize hx : e.sched.requests.get? id = x at houtcome hold
    cases houtcome with
    | untouched _ => exact hold _ rfl hstatus
    | kept _ htakes => exact hold _ rfl (htakes.status.symm.trans hstatus)
    | continued _ htakes hres _ _ | awaits _ htakes hres _ =>
      cases (htakes.resumable.trans (hinv.noSessions id _ hx)).symm.trans hres
  | @updateDraftTokenIds _ _ e s' h =>
    have hredrafted := updateDraftTokenIds_redrafted hq.known h
    obtain ⟨r, spec, hr, rfl⟩ := hredrafted.request hr'
    change id ∉ s'.prevStepScheduledReqIds
    rw [hredrafted.frame]
    exact hinv.prevStep r hr hstatus
  | setPauseState => exact hinv.prevStep r' hr' hstatus
  | @compileGrammar requestId e =>
    unfold grammarCompiled at hr' ⊢
    cases hr : e.sched.requests.get? requestId with
    | none =>
      simp only [hr] at hr' ⊢
      exact hinv.prevStep r' hr' hstatus
    | some r =>
      simp only [hr] at hr' ⊢
      by_cases heq : id = requestId
      · subst heq
        have hset : some { r with grammarReady := true } = some r' :=
          (get?_set_self _ _ _).symm.trans hr'
        cases hset
        exact hinv.prevStep r hr hstatus
      · exact hinv.prevStep r' ((get?_set_of_ne _ _ heq).symm.trans hr') hstatus

theorem EngineStep.loneInv (hsync : cfg.asyncScheduling = false) (h : EngineStep cfg op e e')
    (hop : op.Drives e) (hinv : LoneInv cfg id e) : LoneInv cfg id e' where
  lengths := h.lengthInv hsync (hop.oneStep.sequential hinv.noSessions)
    (hop.leavesRoom hinv.noSessions _) hinv.lengths
  noSessions := h.noSessions hsync hinv.lengths.spec.queues hop.oneStep hinv.noSessions
  queued _ hid := hinv.queued _ (h.queuedIds hop hinv hid)
  text _ hr := RequestStep.textRequest hop (fun _ => hinv.noSessions id _) hinv.text
    (hr ▸ h.request hinv.lengths.spec.queues id)
  prevStep _ hr hstatus := h.prevStep hop hinv hr hstatus

end

/-! ## The first request -/

/-- `InputProcessor._validate_prompt_len` for the prompt of the decoder. -/
def validatePromptLen (maxModelLen : Nat) (generate supportsMmInputs skipPromptLengthCheck : Bool)
    (promptLen : Nat) : Except PyError Unit :=
  if skipPromptLengthCheck then return ()
  else if promptLen = 0 then .error (.valueError "The decoder prompt cannot be empty")
  else if promptLen > maxModelLen then
    .error (.valueError ("The decoder prompt (length " ++ toString promptLen ++ ") is "
      ++ "longer than the maximum model length of " ++ toString maxModelLen ++ ". "
      ++ if supportsMmInputs then
          "Make sure that `max_model_len` is no smaller than the "
          ++ "number of text tokens plus multimodal tokens. For image "
          ++ "inputs, the number of image tokens depends on the number "
          ++ "of images, and possibly their aspect ratios as well."
        else
          "Make sure that `max_model_len` is no smaller than the "
          ++ "number of text tokens."))
  else if promptLen = maxModelLen ∧ generate = true then
    .error (.valueError ("The decoder prompt (length " ++ toString promptLen
      ++ ") plus the number of requested output tokens (at least 1) is longer than the maximum "
      ++ "model length of " ++ toString maxModelLen ++ ". "
      ++ "Make sure that `max_model_len` is no smaller than the "
      ++ "number of text tokens (prompt + requested output tokens)."))
  else return ()

def SchedCoreRequest.Accepted (q : SchedCoreRequest) (maxModelLen : Nat) : Prop :=
  validatePromptLen maxModelLen q.poolingParams.isNone false false q.promptLen = .ok ()

instance (q : SchedCoreRequest) (M : Nat) : Decidable (q.Accepted M) := by
  unfold SchedCoreRequest.Accepted
  infer_instance

theorem promptLen_pos {q : SchedCoreRequest} {M : Nat} (h : q.Accepted M) : 0 < q.promptLen := by
  refine Nat.pos_of_ne_zero fun hzero => ?_
  rw [SchedCoreRequest.Accepted, validatePromptLen, if_pos hzero] at h
  cases h

section
variable {q : SchedCoreRequest} {r : SchedRequest D} {e : Engine D}

theorem limits_structured {maxTokens : Nat} {status : RequestStatus}
    (h : q.limits = .ok (maxTokens, status)) :
    status = .waiting ∨ status = .waitingForFsm ∧ q.useStructuredOutput = true := by
  unfold SchedCoreRequest.limits at h
  split at h
  · cases h
    exact .inl rfl
  · cases h
    split
    · next huse => exact .inr ⟨rfl, huse⟩
    · exact .inl rfl
  · cases h

theorem textRequest_arrived {queue : Option (List (Option SessionUpdate))}
    (htext : q.mmFeatures = []) (hpos : 0 < q.promptLen)
    (hr : SchedRequest.fromEngineCoreRequest cfg.hasher q = .ok r) :
    TextRequest { r with streamingQueue := queue } ∧ r.status ≠ .preempted := by
  have harrival := arrival_of_ok hr
  obtain ⟨base, _, status, -, hlimits, rfl⟩ := fromEngineCoreRequest_spec hr
  have hstatus := limits_structured hlimits
  refine ⟨⟨harrival.mmFeatures.trans htext, .inr ?_, fun _ => harrival.computed,
    hpos.trans_eq harrival.numTokens.symm⟩, ?_⟩
  · exact hstatus.imp_right .inr
  · rcases hstatus with rfl | ⟨rfl, -⟩ <;> exact nofun

theorem loneInv_first (hsync : cfg.asyncScheduling = false) (htext : q.mmFeatures = [])
    (hres : q.resumable = false) (haccepted : q.Accepted cfg.kv.maxModelLen)
    (hneed : q.need ≤ cfg.kv.maxModelLen) (hadd : (addRequest q).Returns cfg cfg.start) :
    LoneInv cfg q.requestId (cfg.after [.addRequest q]) := by
  have hstep := engineStep_of_returns hadd
  have hnone : ∀ id r, (cfg.start.sched.requests).get? id = some r → False := fun _ _ hr => nomatch hr
  have hstart : LengthInv cfg cfg.start := ⟨specInv_start, fun id r hr => (hnone id r hr).elim⟩
  have hlengths := hstep.lengthInv hsync trivial ⟨hneed, fun r hr => (hnone _ r hr).elim⟩ hstart
  have hsessions := hstep.noSessions hsync specInv_start.queues hres
    fun id r hr => (hnone id r hr).elim
  change LoneInv cfg q.requestId ((addRequest q).next cfg cfg.start)
  generalize (addRequest q).next cfg cfg.start = e at hstep hlengths hsessions
  cases hstep with
  | addRequest h =>
  cases addRequest_eq_ok specInv_start.queues.known h with
  | queued _ hget _ _ | updated _ hget _ _ _ | ended _ hget _ _ _ => exact (hnone _ _ hget).elim
  | @fresh r lt waiting skipped hr _ _ hqueue =>
    have hid := (arrival_of_ok hr).requestId
    obtain ⟨htextReq, hnot⟩ := @textRequest_arrived _ _ cfg q r
      (if r.resumable then some [] else none) htext (promptLen_pos haccepted) hr
    refine ⟨hlengths, hsessions, fun id' hid' => ?_, fun r' hr' => ?_, fun r' hr' hs => ?_⟩
    · have hperm := cfg.policy.addRequest_perm lt [] r.requestId
      have hqueues : id' ∈ waiting ++ skipped := hid'
      have hmem : id' ∈ cfg.policy.addRequest lt [] r.requestId := by
        split at hqueue
        · obtain ⟨hw, hk⟩ := hqueue
          rw [hw, hk] at hqueues
          exact hqueues
        · obtain ⟨hw, hk⟩ := hqueue
          rw [hw, hk] at hqueues
          change id' ∈ cfg.policy.addRequest lt [] r.requestId ++ [] at hqueues
          rwa [append_nil] at hqueues
      rw [← hid]
      exact mem_singleton.mp (hperm.subset hmem)
    · rw [← hid] at hr'
      cases (get?_set_self _ _ _).symm.trans hr'
      exact htextReq
    · rw [← hid] at hr'
      cases (get?_set_self _ _ _).symm.trans hr'
      exact absurd hs hnot

end

/-! ## The next step -/

def SchedConfig.Grants (cfg : SchedConfig D) (kv : KVState D) (r : Request D)
    (a : KVCacheConfig.SlotArgs) : Prop :=
  match (cfg.kv.allocateSlots r a kv).1 with
  | .ok (some _) => True
  | _ => False

instance (kv : KVState D) (r : Request D) (a : KVCacheConfig.SlotArgs) :
    Decidable (cfg.Grants kv r a) :=
  match h : (cfg.kv.allocateSlots r a kv).1 with
  | .ok (some _) => isTrue (by rw [Grants, h]; trivial)
  | .ok none => isFalse (by rw [Grants, h]; exact id)
  | .error _ => isFalse (by rw [Grants, h]; exact id)

/-- There are enough free blocks for any number of the tokens that the request has left, after the
blocks that are cached for it. -/
def SchedConfig.EnoughBlocks (cfg : SchedConfig D) (kv : KVState D) (r : SchedRequest D) : Prop :=
  if r.status = .running then
    ∀ n < r.numTokensWithSpec - r.numComputedTokens, cfg.Grants kv r.toRequest
      { numNewTokens := (n + 1 : Nat), numLookaheadTokens := cfg.numLookaheadTokens }
  else
    ∃ found ∈ (cfg.kv.getComputedBlocks r.toRequest r.skipReadingPrefixCache kv).1.toOption,
      ∀ n < r.numTokens - found.2, cfg.Grants kv r.toRequest
        { numNewTokens := (n + 1 : Nat), numNewComputedTokens := found.2
          newComputedBlocks := found.1 }

instance (kv : KVState D) (r : SchedRequest D) : Decidable (cfg.EnoughBlocks kv r) := by
  unfold EnoughBlocks
  infer_instance

section
variable {r : SchedRequest D} {e : Engine D} {id : String} {kv : KVState D}

theorem SchedConfig.Grants.allocates {a : KVCacheConfig.SlotArgs} (h : cfg.Grants kv r.toRequest a) :
    ∃ blocks kv', cfg.kv.allocateSlots r.toRequest a kv = (.ok (some blocks), kv') := by
  unfold Grants at h
  rcases hcall : cfg.kv.allocateSlots r.toRequest a kv with ⟨_ | _ | blocks, kv'⟩
  · simp only [hcall] at h
  · simp only [hcall] at h
  · exact ⟨blocks, kv', rfl⟩

theorem getComputedBlocks_lt {kv' : KVState D} {request : Request D} {skip : Bool}
    {hits : Option (List (List Nat))} {c : Nat} (hpos : 0 < request.numTokens)
    (h : cfg.kv.getComputedBlocks request skip kv = (.ok (hits, c), kv')) :
    c < request.numTokens ∧ kv' = kv := by
  simp only [KVCacheConfig.getComputedBlocks, bind_eq_ok] at h
  obtain ⟨_, kv, ⟨rfl, rfl⟩, h⟩ := h
  split at h
  · obtain ⟨he, rfl⟩ := pure_eq_ok.mp h
    cases he
    exact ⟨hpos, rfl⟩
  · cases hfind : cfg.kv.findLongestCacheHit kv.1 request.blockHashes (request.numTokens - 1) with
    | error e => simp only [hfind, raise_ne_ok] at h
    | ok found =>
      simp only [hfind] at h
      obtain ⟨he, rfl⟩ := pure_eq_ok.mp h
      cases he
      have hle := (KVCacheConfig.findLongestCacheHit_isHit hfind).2
      exact ⟨by omega, rfl⟩

theorem LoneInv.queues (hinv : LoneInv cfg id e) (hr : e.sched.requests.get? id = some r) :
    if r.status = .running then e.sched.running = [id] ∧ e.sched.waiting = [] ∧
      e.sched.skippedWaiting = []
    else e.sched.running = [] ∧ e.sched.waiting ++ e.sched.skippedWaiting = [id] := by
  have hq := hinv.lengths.spec.queues.queued
  have hone : ∀ l : List String, l.Nodup → (∀ id' ∈ l, id' = id) → id ∈ l → l = [id] :=
    fun l hnodup hall hin => perm_singleton.mp
      ((perm_ext_iff_of_nodup hnodup (nodup_singleton id)).mpr fun id' =>
        ⟨fun h => mem_singleton.mpr (hall id' h), fun h => mem_singleton.mp h ▸ hin⟩)
  have hnone : ∀ l : List String, (∀ id' ∈ l, id' = id) → id ∉ l → l = [] :=
    fun l hall hout => eq_nil_iff_forall_not_mem.mpr fun id' h => hout (hall id' h ▸ h)
  have hrunIds : ∀ id' ∈ e.sched.running, id' = id :=
    fun id' h => hinv.queued id' (mem_append_left _ h)
  have hrestIds : ∀ id' ∈ e.sched.waiting ++ e.sched.skippedWaiting, id' = id :=
    fun id' h => hinv.queued id' (mem_append_right _ h)
  have hactive := hq.active id r hr
  split
  · next hrun =>
    have hin := hactive.mpr hrun
    have hrest := hnone _ hrestIds (hq.not_mem_rest hin)
    exact ⟨hone _ hq.run_nodup hrunIds hin, append_eq_nil_iff.mp hrest⟩
  · next hrun =>
    have hout : id ∉ e.sched.running := mt hactive.mp hrun
    have hin := (hq.mem id (mem_keys_of_get? hr)).resolve_left hout
    exact ⟨hnone _ hrunIds hout, hone _ hq.rest_nodup hrestIds hin⟩

theorem LoneInv.progress (hsync : cfg.asyncScheduling = false) (hinv : LoneInv cfg id e)
    (hbudget : 0 < cfg.maxNumScheduledTokens) (hroom : 0 < cfg.maxNumRunningReqs)
    (hloras : ∀ m, cfg.maxLoras = some m → 0 < m)
    (hchunk : cfg.enableChunkedPrefill = true ∨ cfg.kv.maxModelLen ≤ cfg.maxNumScheduledTokens)
    (hidle : e.batchQueue = []) (hpause : e.sched.pauseState = .unpaused)
    (hr : e.sched.requests.get? id = some r)
    (hgrammar : r.useStructuredOutput = true → r.grammarReady = true)
    (hblocks : cfg.EnoughBlocks (cfg.begin e.sched).1.kv r) :
    ∃ out s n, cfg.schedule e.sched = (.ok out, s) ∧ out.numScheduledTokens.get? id = some n ∧
      0 < n := by
  have htext := hinv.text r hr
  have hknown := hinv.lengths.spec.queues.known id r hr
  have hbound := hinv.lengths.bounded id r hr
  have hcounts := hinv.lengths.spec.counts id r hr
  have hqueues := hinv.queues hr
  rw [hidle] at hcounts
  have hlt : r.numTokens < cfg.kv.maxModelLen := hbound.room fun hs => by
    rcases htext.status with h | h | h | ⟨h, -⟩ <;> cases h.symm.trans hs
  unfold EnoughBlocks at hblocks
  by_cases hrun : r.status = .running
  · rw [if_pos hrun] at hblocks hqueues
    obtain ⟨hrunning, hwaiting, hskipped⟩ := hqueues
    have hcomputed : r.numComputedTokens < r.numTokens := hcounts.counted hrun
    have hmax : reachesMaxTokens r = false := by
      simp [reachesMaxTokens, hcounts.placeholders]
    obtain ⟨n, hn⟩ : ∃ n, cfg.numNewRunning r cfg.maxNumScheduledTokens = n := ⟨_, rfl⟩
    have hcases := numNewRunning_cases cfg hcounts.placeholders hcomputed
      (Int.natCast_pos.mpr hbudget)
    have hle := numNewRunning_le cfg r cfg.maxNumScheduledTokens
    have hbudget' : cfg.numNewRunning r cfg.maxNumScheduledTokens ≤ cfg.maxNumScheduledTokens := by
      dsimp only [numNewRunning]
      omega
    have hspec : r.numTokensWithSpec = r.numTokens + r.specTokenIds.length := rfl
    have hzero := hcounts.placeholders
    rw [hn] at hcases hle hbudget'
    have hpos : 0 < n := by omega
    obtain ⟨k, rfl⟩ : ∃ k : Nat, n = (k + 1 : Nat) := ⟨n.toNat - 1, by omega⟩
    obtain ⟨blocks, kv, halloc⟩ := (hblocks k (by omega)).allocates
    obtain ⟨σ, hloops, hstep⟩ := scheduleLoops_running hrunning hwaiting hskipped hpause hr
      hknown.1 htext.text hmax hbudget hloras hn (Int.ne_of_gt hpos) halloc
    obtain ⟨out, s, hout, hin⟩ := hstep.schedule hsync hpos hbudget' hroom hloops
    exact ⟨out, s, _, hout, hin, hpos⟩
  · rw [if_neg hrun] at hblocks hqueues
    obtain ⟨hrunning, hlone⟩ := hqueues
    obtain ⟨⟨hits, c⟩, hfound, hblocks⟩ := hblocks
    rcases hlook : cfg.kv.getComputedBlocks r.toRequest r.skipReadingPrefixCache
      (cfg.begin e.sched).1.kv with ⟨_ | found, kv₁⟩
    · rw [hlook] at hfound
      cases hfound
    rw [hlook] at hfound
    obtain rfl : found = (hits, c) := Option.some.inj hfound
    obtain ⟨hc, rfl⟩ := getComputedBlocks_lt htext.nonempty hlook
    have hdemand : (0 : Int) < r.numTokens - c := by omega
    have hcap := capByThreshold_pos cfg hdemand
    have hle := capByThreshold_le cfg ((r.numTokens : Int) - c)
    obtain ⟨n, hn⟩ : ∃ n, min (cfg.numNewWaiting r c) cfg.maxNumScheduledTokens = n := ⟨_, rfl⟩
    have hnew : cfg.numNewWaiting r c = cfg.capByThreshold ((r.numTokens : Int) - c) := rfl
    have hpos : 0 < n := by omega
    obtain ⟨k, rfl⟩ : ∃ k : Nat, n = (k + 1 : Nat) := ⟨n.toNat - 1, by omega⟩
    obtain ⟨blocks, kv, halloc⟩ := (hblocks k (by omega)).allocates
    have hstatus : r.status = .waiting ∨ r.status = .preempted ∨
        r.status = .waitingForFsm ∧ r.useStructuredOutput = true ∧ r.grammarReady = true :=
      (htext.status.resolve_left hrun).imp_right
        (Or.imp_right fun h => ⟨h.1, h.2, hgrammar h.2⟩)
    obtain ⟨σ, hloops, hstep⟩ := scheduleLoops_waiting hrunning hlone hpause hr hknown.1 htext.text
      (htext.fresh hrun) hstatus (hinv.prevStep r hr) hbudget hroom hloras hlook hc.le
      (hchunk.imp_right fun h => by omega) hn hpos halloc
    obtain ⟨out, s, hout, hin⟩ := hstep.schedule hsync hpos (by omega) hroom hloops
    exact ⟨out, s, _, hout, hin, hpos⟩

end

/-- A text request that is alone in the scheduler, whose prompt and least output fit into the model:
in every state between two steps in which it is not finished, the next call of `schedule` returns
and schedules at least one of its tokens. -/
theorem progress_of_run (hsync : cfg.asyncScheduling = false)
    (hbudget : 0 < cfg.maxNumScheduledTokens) (hroom : 0 < cfg.maxNumRunningReqs)
    (hloras : ∀ m, cfg.maxLoras = some m → 0 < m)
    (hchunk : cfg.enableChunkedPrefill = true ∨ cfg.kv.maxModelLen ≤ cfg.maxNumScheduledTokens)
    {q : SchedCoreRequest} (htext : q.mmFeatures = []) (hres : q.resumable = false)
    (haccepted : q.Accepted cfg.kv.maxModelLen) (hneed : q.need ≤ cfg.kv.maxModelLen)
    (hadd : (addRequest q).Returns cfg cfg.start) {e : Engine D}
    (run : Run (EngineOp.next cfg) (fun op e => op.Returns cfg e ∧ op.Drives e)
      (cfg.after [.addRequest q]) e)
    (hidle : e.batchQueue = []) (hpause : e.sched.pauseState = .unpaused) {r : SchedRequest D}
    (hr : e.sched.requests.get? q.requestId = some r)
    (hgrammar : r.useStructuredOutput = true → r.grammarReady = true)
    (hblocks : cfg.EnoughBlocks (cfg.begin e.sched).1.kv r) :
    ∃ out s n, cfg.schedule e.sched = (.ok out, s) ∧
      out.numScheduledTokens.get? q.requestId = some n ∧ 0 < n := by
  have hinv : LoneInv cfg q.requestId e :=
    run.inv (loneInv_first hsync htext hres haccepted hneed hadd) fun _ _ hinv hop =>
      (engineStep_of_returns hop.1).loneInv hsync hop.2 hinv
  exact hinv.progress hsync hbudget hroom hloras hchunk hidle hpause hr hgrammar hblocks

def lengthRequest (prompt : List Token) (minTokens : Nat) : SchedCoreRequest where
  requestId := "a"
  promptTokenIds := some prompt
  samplingParams := some { minTokens, maxTokens := 2 }

def loneSteps : List EngineOp := [.schedule, .updateFromOutput (sampled "a" [8])]

theorem run_after {ok : EngineOp → Engine D → Prop} {ops ops' : List EngineOp}
    (h : Run.Allowed (EngineOp.next cfg) ok ops' (cfg.after ops)) :
    Run (EngineOp.next cfg) ok (cfg.after ops) (cfg.after (ops ++ ops')) := by
  have hrun := Run.of_allowed h
  unfold SchedConfig.after at hrun ⊢
  rwa [← foldl_append] at hrun

def roomyRequest : SchedCoreRequest := lengthRequest [1, 2, 3] 2

theorem progress_of_run_one_step :
    ∃ out s n, roomySched.schedule (roomySched.after ([.addRequest roomyRequest] ++ loneSteps)).sched =
      (.ok out, s) ∧ out.numScheduledTokens.get? roomyRequest.requestId = some n ∧ 0 < n := by
  have hsome : ((roomySched.after ([.addRequest roomyRequest] ++ loneSteps)).sched.requests.get?
      roomyRequest.requestId).isSome = true := by decide +kernel
  obtain ⟨r, hr⟩ := Option.isSome_iff_exists.mp hsome
  have hstate : ∀ r ∈ (roomySched.after ([.addRequest roomyRequest] ++ loneSteps)).sched.requests.get?
      roomyRequest.requestId, (r.useStructuredOutput = true → r.grammarReady = true) ∧
        roomySched.EnoughBlocks (roomySched.begin
          (roomySched.after ([.addRequest roomyRequest] ++ loneSteps)).sched).1.kv r := by
    decide +kernel
  have hloras : ∀ m, roomySched.maxLoras = some m → 0 < m := nofun
  exact progress_of_run rfl (by decide) (by decide) hloras (.inl rfl) rfl rfl (by decide +kernel)
    (by decide +kernel) (by decide +kernel) (run_after (by decide +kernel)) (by decide +kernel)
    (by decide +kernel) hr (hstate r hr).1 (hstate r hr).2

def stuckOps : List EngineOp := [.addRequest (lengthRequest [1, 2, 3, 4, 5, 6, 7] 2)]

/-- After its first token the request is as long as the model allows, has not stopped, and no step
schedules it again. -/
theorem stuckRequest :
    (lengthRequest [1, 2, 3, 4, 5, 6, 7] 2).Accepted roomySched.kv.maxModelLen ∧
      Run (EngineOp.next roomySched) (fun op e => op.Returns roomySched e ∧ op.Drives e)
        (roomySched.after stuckOps) (roomySched.after (stuckOps ++ loneSteps)) ∧
      (∃ r ∈ (roomySched.after (stuckOps ++ loneSteps)).sched.requests.get? "a",
        roomySched.EnoughBlocks
          (roomySched.begin (roomySched.after (stuckOps ++ loneSteps)).sched).1.kv r) ∧
      (roomySched.after (stuckOps ++ loneSteps ++ [.schedule])).batchQueue.map
        (·.numScheduledTokens.keys) = [[]] ∧
      (roomySched.after (stuckOps ++ loneSteps ++
          [.schedule, .updateFromOutput { }])).sched.requests.get? "a" =
        (roomySched.after (stuckOps ++ loneSteps)).sched.requests.get? "a" :=
  ⟨by decide +kernel, run_after (by decide +kernel), by decide +kernel, by decide +kernel,
    by decide +kernel⟩

end Vllm
