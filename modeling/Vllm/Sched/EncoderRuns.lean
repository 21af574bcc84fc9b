import Vllm.Sched.EncoderMoves

/-! The encoder cache of the scheduler and that of the runner. The scheduler counts an item as cached
when it is scheduled; the runner has it once the step is sent. They agree as long as no request is
taken out of a step again, which only happens to a request that is preempted after it was
scheduled. -/

set_option linter.unusedSectionVars false

namespace Vllm
open Base Dict Relation SchedConfig EncoderCacheManager List StepLocals

variable {D : Type}

/-! ## The order of preemption -/

def Scheduler.keyLt (s : Scheduler D) (a b : String) : Bool :=
  match s.requests.get? a, s.requests.get? b with
  | some ra, some rb => ra.keyLt rb
  | _, _ => false

/-- The requests are preempted from the end of `running`: the policy is first come, first served,
or `running` is in the order of the priorities. -/
def SchedConfig.InOrder (cfg : SchedConfig D) (s : Scheduler D) : Prop :=
  cfg.policy = .fcfs ∨ s.running.Pairwise fun a b => s.keyLt a b = true

variable [DecidableEq D] {cfg : SchedConfig D}

instance (s : Scheduler D) : Decidable (cfg.InOrder s) := by
  unfold InOrder
  infer_instance

variable {s : Scheduler D}

theorem lowestPriority_eq_getLast? {ids : List String}
    (h : ids.Pairwise fun a b => s.keyLt a b = true) : lowestPriority s ids = ids.getLast? := by
  induction ids with
  | nil => rfl
  | cons id ids ih =>
    obtain ⟨hid, hids⟩ := pairwise_cons.mp h
    rw [lowestPriority, ih hids]
    cases hlast : ids.getLast? with
    | none =>
      rw [getLast?_eq_none_iff.mp hlast]
      rfl
    | some other =>
      have hlt := hid other (mem_of_getLast? hlast)
      have hcons : (id :: ids).getLast? = some other := by
        rw [getLast?_cons, hlast]
        rfl
      rw [hcons]
      unfold Scheduler.keyLt at hlt
      cases ha : s.requests.get? id with
      | none =>
        rw [ha] at hlt
        cases hlt
      | some ra =>
        cases hb : s.requests.get? other with
        | none =>
          rw [ha, hb] at hlt
          cases hlt
        | some rb =>
          rw [ha, hb] at hlt
          have hkey : ra.keyLt rb = true := hlt
          dsimp only
          rw [hb]
          exact if_pos hkey

theorem SchedConfig.Fate.frame {l : StepLocals} {id : String} {r₀ r : SchedRequest D}
    (h : Fate cfg l id r₀ r) :
    ∃ status c spec, r = { r₀ with status, numComputedTokens := c, specTokenIds := spec } := by
  cases h <;> exact ⟨_, _, _, rfl⟩

section
variable {s : Scheduler D} {σ : Step D} {pc : Pc D} {id v : String} {r : SchedRequest D}
  {t : EncoderTrial}

theorem SchedConfig.LoopInv.request (h : LoopInv cfg s σ pc) (hr : σ.1.requests.get? id = some r) :
    ∃ r₀ status c spec, s.requests.get? id = some r₀ ∧
      r = { r₀ with status, numComputedTokens := c, specTokenIds := spec } := by
  obtain ⟨r₀, hr₀, hfate⟩ := exists_of_rel_some (h.fate id) hr
  obtain ⟨status, c, spec, he⟩ := hfate.frame
  exact ⟨r₀, status, c, spec, hr₀, he⟩

theorem SchedConfig.LoopInv.keyLt (h : LoopInv cfg s σ pc) (a b : String) :
    σ.1.keyLt a b = s.keyLt a b := by
  have ha := h.fate a
  have hb := h.fate b
  unfold Scheduler.keyLt
  generalize s.requests.get? a = xa at ha ⊢
  generalize σ.1.requests.get? a = ya at ha ⊢
  generalize s.requests.get? b = xb at hb ⊢
  generalize σ.1.requests.get? b = yb at hb ⊢
  cases ha with
  | none => rfl
  | some hfa =>
    obtain ⟨_, _, _, rfl⟩ := hfa.frame
    cases hb with
    | none => rfl
    | some hfb =>
      obtain ⟨_, _, _, rfl⟩ := hfb.frame
      rfl

def OnlyLeave (s : Scheduler D) (σ : Step D) : Pc D → Prop
  | .running | .visiting _ _ | .ranAll | .checked => σ.1.running.Sublist s.running
  | _ => True

theorem running_dropVictim_sublist : (cfg.dropVictim σ v).1.running.Sublist σ.1.running := by
  unfold dropVictim
  split
  · exact dropLast_sublist _
  · exact erase_sublist

theorem SchedConfig.LoopMove.onlyLeave {x y : Step D × Pc D} (h : LoopMove cfg x y)
    (hx : OnlyLeave s x.1 x.2) : OnlyLeave s y.1 y.2 := by
  cases h with
  | passBy _ _ _ | visit _ _ _ _ _ | giveUp _ | schedule _ _ _ | endRunning _ | checkLoras _ =>
    exact hx
  | @preempt σ _ _ _ kv₁ _ v _ _ _ _ _ _ =>
    have hsub : (cfg.dropVictim (withKv σ kv₁) v).1.running.Sublist s.running :=
      running_dropVictim_sublist.trans hx
    split <;> exact hsub
  | startWaiting _ _ | noWaiting | promote _ _ | skip _ _ | refuse _ _ _ _ _ _ | hold _ _ _ _
    | place _ _ _ _ _ _ _ _ _ _ _ _ _ | leave | requeue => trivial

/-- A request that is preempted in order is the last one of `running`, so the step has not
scheduled it. -/
theorem SchedConfig.LoopInv.victim_fresh (h : LoopInv cfg s σ (.visiting r t))
    (hsub : OnlyLeave s σ (.visiting r t)) (horder : cfg.InOrder s) (hv : cfg.victim σ.1 = some v) :
    v ∉ σ.2.scheduledRunningReqs := by
  have hlast : σ.1.running.getLast? = some v := by
    unfold victim at hv
    rcases horder with hpolicy | hpairs
    · rw [hpolicy] at hv
      exact hv
    · cases hp : cfg.policy with
      | fcfs =>
        rw [hp] at hv
        exact hv
      | priority =>
        rw [hp] at hv
        have hpairsσ : σ.1.running.Pairwise fun a b => σ.1.keyLt a b = true :=
          (hpairs.sublist hsub).imp fun hlt => (h.keyLt _ _).trans hlt
        exact (lowestPriority_eq_getLast? hpairsσ).symm.trans hv
  obtain ⟨-, -, ⟨ids, rest, hahead⟩, -, -⟩ := h.atPc
  intro hin
  have hrest : v ∈ r.requestId :: rest := by
    rw [hahead.running, getLast?_append_of_ne_nil _ (cons_ne_nil _ _)] at hlast
    exact mem_of_getLast? hlast
  have hnodup := h.queued.run_nodup
  rw [hahead.running, nodup_append] at hnodup
  exact hnodup.2.2 v (hahead.mem v hin) v hrest rfl

end

/-! ## Items of a step -/

def Encodes (s : Scheduler D) (inputs : Dict String (List Nat)) (h : String) : Prop :=
  ∃ id is r, inputs.get? id = some is ∧ s.requests.get? id = some r ∧
    ∃ f ∈ featuresOf r is, f.identifier = h

def Mirrored (s : Scheduler D) (runner : List String) (σ : Step D) : Prop :=
  ∀ h ∈ σ.1.encoder.cached.keys, Encodes s σ.2.scheduledEncoderInputs h ∨
    h ∈ runner ∧ h ∉ σ.1.encoder.freed

section
variable {s : Scheduler D} {runner : List String} {σ : Step D} {r : SchedRequest D} {t : EncoderTrial}
  {encoder : EncoderCacheManager}

theorem Mirrored.shrinks (h : Mirrored s runner σ) {σ' : Step D}
    (hs : Shrinks σ.1.encoder σ'.1.encoder)
    (hinputs : σ'.2.scheduledEncoderInputs = σ.2.scheduledEncoderInputs) : Mirrored s runner σ' := by
  intro hash hin
  rw [hinputs]
  exact (h hash (hs.keys hash hin)).imp_right fun hold =>
    ⟨hold.1, fun hfreed => hold.2 (hs.freed hash hin hfreed)⟩

theorem Mirrored.allocates (h : Mirrored s runner σ) {s' : Scheduler D} {l : StepLocals}
    (hencoder : s'.encoder = encoder)
    (halloc : Allocates r.requestId (featuresOf r t.inputs) σ.1.encoder encoder)
    (hinputs : l.scheduledEncoderInputs = σ.2.scheduledEncoderInputs)
    (hnew : σ.2.scheduledEncoderInputs.get? r.requestId = none)
    (hr : ∃ r₀, s.requests.get? r.requestId = some r₀ ∧ r₀.mmFeatures = r.mmFeatures) :
    Mirrored s runner (s', bookEncoder r t l) := by
  have hbook : (bookEncoder r t l).scheduledEncoderInputs =
      if t.inputs = [] then σ.2.scheduledEncoderInputs
      else σ.2.scheduledEncoderInputs.set r.requestId t.inputs := by
    unfold bookEncoder
    split
    · exact hinputs
    · change l.scheduledEncoderInputs.set _ _ = _
      rw [hinputs]
  intro hash hin
  subst hencoder
  change Encodes s (bookEncoder r t l).scheduledEncoderInputs hash ∨
    hash ∈ runner ∧ hash ∉ s'.encoder.freed
  rw [hbook, halloc.freed]
  rcases halloc.keys hash hin with hold | ⟨f, hf, rfl⟩
  · rcases h hash hold with ⟨id, is, r', his, hr', hf⟩ | hold
    · refine .inl ?_
      split
      · exact ⟨id, is, r', his, hr', hf⟩
      · have hne : id ≠ r.requestId := fun heq => by
          rw [heq, hnew] at his
          cases his
        exact ⟨id, is, r', (get?_set_of_ne _ _ hne).trans his, hr', hf⟩
    · exact .inr hold
  · obtain ⟨r₀, hr₀, hfeatures⟩ := hr
    have hne : t.inputs ≠ [] := fun hnil => by
      rw [hnil] at hf
      cases hf
    rw [if_neg hne]
    refine .inl ⟨r.requestId, t.inputs, r₀, get?_set_self _ _ _, hr₀, f, ?_, rfl⟩
    unfold featuresOf at hf ⊢
    rwa [hfeatures]

end

structure EncInv (s : Scheduler D) (runner : List String) (σ : Step D) (pc : Pc D) : Prop where
  mirrored : Mirrored s runner σ
  inputs : ∀ id ∈ σ.2.scheduledEncoderInputs.keys, id ∈ ids σ.2
  leave : OnlyLeave s σ pc

section
variable {s : Scheduler D} {runner : List String} {σ : Step D} {r : SchedRequest D} {t : EncoderTrial}

theorem keys_bookEncoder {l : StepLocals} {ids : List String}
    (h : ∀ id ∈ l.scheduledEncoderInputs.keys, id ∈ ids) (hr : r.requestId ∈ ids) :
    ∀ id ∈ (bookEncoder r t l).scheduledEncoderInputs.keys, id ∈ ids := by
  unfold bookEncoder
  split
  · exact h
  · exact fun id hid => (mem_keys_set.mp hid).elim (fun heq => heq ▸ hr) (h id)

theorem features_of_step {pc : Pc D} (h : LoopInv cfg s σ pc) {id : String}
    (hr : σ.1.requests.get? id = some r) :
    ∃ r₀, s.requests.get? id = some r₀ ∧ r₀.mmFeatures = r.mmFeatures := by
  obtain ⟨r₀, _, _, _, hr₀, rfl⟩ := h.request hr
  exact ⟨r₀, hr₀, rfl⟩

theorem SchedConfig.LoopMove.encInv {x y : Step D × Pc D} (h : LoopMove cfg x y)
    (horder : cfg.InOrder s) (hloops : LoopInv cfg s x.1 x.2) (hinv : EncInv s runner x.1 x.2) :
    EncInv s runner y.1 y.2 := by
  have hleave := h.onlyLeave hinv.leave
  cases h with
  | passBy _ _ _ | giveUp _ | endRunning _ | startWaiting _ _ | noWaiting | promote _ _ | leave
    | requeue => exact ⟨hinv.mirrored, hinv.inputs, hleave⟩
  | visit _ _ _ _ ht | hold _ _ ht _ =>
    have hspares := (tryScheduleEncoderInputs_spares ht).1
    exact ⟨hinv.mirrored.shrinks hspares.toShrinks rfl, hinv.inputs, hleave⟩
  | @preempt σ r rv t kv₁ kv₂ v _ _ hv _ _ _ =>
    have hfresh : v ∉ σ.2.scheduledRunningReqs :=
      (hloops.withKv kv₁).victim_fresh hinv.leave horder hv
    have hlocals : (cfg.dropVictim (withKv σ kv₁) v).2 = σ.2 := by
      unfold dropVictim
      split
      · rfl
      · exact if_neg hfresh
    have hencoder : (cfg.dropVictim (withKv σ kv₁) v).1.encoder = σ.1.encoder := encoder_dropVictim
    refine ⟨hinv.mirrored.shrinks ?_ ?_, ?_, hleave⟩
    · change Shrinks σ.1.encoder ((cfg.dropVictim (withKv σ kv₁) v).1.encoder.free v rv.mmFeatures)
      rw [hencoder]
      exact shrinks_free _
    · change (cfg.dropVictim (withKv σ kv₁) v).2.scheduledEncoderInputs = _
      rw [hlocals]
    · change ∀ id ∈ (cfg.dropVictim (withKv σ kv₁) v).2.scheduledEncoderInputs.keys,
        id ∈ ids (notePreempted v (cfg.dropVictim (withKv σ kv₁) v).2)
      rw [hlocals]
      exact hinv.inputs
  | @schedule σ r t kv blocks encoder _ _ henc =>
    obtain ⟨-, hget, -, -, -⟩ := hloops.atPc
    have hfeatures := features_of_step hloops hget
    obtain ⟨r₀, -, hfate⟩ := exists_of_rel_some (hloops.fate r.requestId) hget
    have hnew := (hloops.fate_visited hfate).2.2.2
    refine ⟨hinv.mirrored.allocates rfl (allocates_of_ok henc) rfl ?_ hfeatures, ?_, hleave⟩
    · exact get?_eq_none_iff.mpr fun hin => hnew (hinv.inputs _ hin)
    · rw [bookEncoder_ids]
      refine keys_bookEncoder (fun id hid => ?_) ?_
      · have hold := hinv.inputs id hid
        simp only [ids, recordRunning, mem_append] at hold ⊢
        tauto
      · simp [ids, recordRunning]
  | @checkLoras σ _ =>
    obtain ⟨loras, hloras⟩ := @withLoras_eq _ _ cfg σ
    rw [hloras] at hleave ⊢
    exact ⟨hinv.mirrored, hinv.inputs, hleave⟩
  | @skip σ q id rest _ _ =>
    have hencoder : (cfg.popQueue q σ.1).encoder = σ.1.encoder := by cases q <;> rfl
    refine ⟨hinv.mirrored.shrinks ?_ rfl, hinv.inputs, hleave⟩
    change Shrinks σ.1.encoder (cfg.popQueue q σ.1).encoder
    rw [hencoder]
    exact .refl _
  | refuse _ _ _ ht _ _ =>
    have hspares := (tryScheduleEncoderInputs_spares ht).1
    exact ⟨hinv.mirrored.shrinks (hspares.toShrinks.trans (shrinks_free _)) rfl, hinv.inputs, hleave⟩
  | @place σ q id rest r hits numLocal c t encoder₁ encoder₂ kv blocks _ _ hq hr hstatus _ _ _ ht _ _ henc
      _ =>
    obtain rfl := (hloops.known id r hr).1
    have hspares := (tryScheduleEncoderInputs_spares ht).1
    have hmirrored : Mirrored s runner ({ σ.1 with encoder := encoder₁ }, σ.2) :=
      hinv.mirrored.shrinks hspares.toShrinks rfl
    have hmem : r.requestId ∈ σ.1.waiting ++ σ.1.skippedWaiting ++ σ.2.stepSkippedWaiting :=
      (@queue_perm _ _ cfg σ _ q rest σ.2.stepSkippedWaiting hq).subset mem_cons_self
    have hnew : r.requestId ∉ ids σ.2 := fun hin =>
      hloops.queued.not_mem_run hmem (hloops.running _ hin)
    have hids := @ids_recordWaiting _ _ cfg σ.2 r t.numNewTokens
      (cfg.blocksOf { σ.1 with kv } r.requestId) hstatus
    refine ⟨hmirrored.allocates ?_ (allocates_of_ok henc) rfl ?_ (features_of_step hloops hr), ?_, hleave⟩
    · rfl
    · exact get?_eq_none_iff.mpr fun hin => hnew (hinv.inputs _ hin)
    · rw [bookEncoder_ids]
      exact keys_bookEncoder
        (fun id hid => hids.mem_iff.mpr (mem_cons_of_mem _ (hinv.inputs id hid)))
        (hids.mem_iff.mpr mem_cons_self)

end

theorem encInv_of_moves {runner : List String} {y : Step D × Pc D}
    (hq : s.Queues) (horder : cfg.InOrder s)
    (hrunner : ∀ h ∈ s.encoder.cached.keys, h ∈ runner ∧ h ∉ s.encoder.freed)
    (hmoves : ReflTransGen (LoopMove cfg) (cfg.begin s, .running) y) :
    LoopInv cfg s y.1 y.2 ∧ EncInv s runner y.1 y.2 := by
  induction hmoves with
  | refl =>
    exact ⟨hq.begin, fun h hin => .inr (hrunner h hin), nofun, .refl _⟩
  | tail _ hmove ih => exact ⟨hmove.inv ih.1, hmove.encInv horder ih.1 ih.2⟩

theorem shrinks_of_givesUp {m m' : EncoderCacheManager} (h : ReflTransGen GivesUp m m') :
    Shrinks m m' := by
  induction h with
  | refl => exact .refl m
  | tail _ hone ih =>
    obtain ⟨_, _, rfl⟩ := hone
    exact ih.trans shrinks_freeEncoderInput

/-! ## The runner -/

def SchedulerOutput.encoderHashes (out : SchedulerOutput) (s : Scheduler D) : List String :=
  out.scheduledEncoderInputs.entries.flatMap fun e =>
    match s.requests.get? e.1 with
    | none => []
    | some r => (featuresOf r e.2).map (·.identifier)

def runnerCache (s : Scheduler D) (out : SchedulerOutput) (runner : List String) : List String :=
  runner.filter (· ∉ out.freeEncoderMmHashes) ++ out.encoderHashes s

theorem mem_encoderHashes {out : SchedulerOutput} {h : String}
    (henc : Encodes s out.scheduledEncoderInputs h) : h ∈ out.encoderHashes s := by
  obtain ⟨id, is, r, his, hr, f, hf, rfl⟩ := henc
  refine mem_flatMap.mpr ⟨(id, is), get?_eq_some_iff.mp his, ?_⟩
  simp only [hr]
  exact mem_map.mpr ⟨f, hf, rfl⟩

structure Mirrors (D : Type) where
  engine : Engine D
  runner : List String := []

def EngineOp.mirrorNext (cfg : SchedConfig D) (op : EngineOp) (t : Mirrors D) : Mirrors D where
  engine := op.next cfg t.engine
  runner :=
    match op, cfg.schedule t.engine.sched with
    | .schedule, (.ok out, _) => runnerCache t.engine.sched out t.runner
    | _, _ => t.runner

def Mirrors.Synced (t : Mirrors D) : Prop :=
  ∀ h ∈ t.engine.sched.encoder.cached.keys, h ∈ t.runner ∧ h ∉ t.engine.sched.encoder.freed

section
variable {s s' : Scheduler D} {out : SchedulerOutput} {runner : List String}

theorem Mirrored.mem_runnerCache {σ : Step D} (h : Mirrored s runner σ) (hout : OutputOf cfg σ out)
    {hash : String} (hin : hash ∈ σ.1.encoder.cached.keys) : hash ∈ runnerCache s out runner := by
  rcases h hash hin with henc | ⟨hrun, hnot⟩
  · refine mem_append_right _ (mem_encoderHashes ?_)
    rw [hout.encoderInputs]
    exact henc
  · refine mem_append_left _ (mem_filter.mpr ⟨hrun, ?_⟩)
    rw [hout.freed]
    simpa using hnot

theorem synced_of_schedule (hq : s.Queues) (horder : cfg.InOrder s)
    (hrunner : ∀ h ∈ s.encoder.cached.keys, h ∈ runner ∧ h ∉ s.encoder.freed)
    (h : cfg.schedule s = (.ok out, s')) :
    ∀ h ∈ s'.encoder.cached.keys, h ∈ runnerCache s out runner ∧ h ∉ s'.encoder.freed := by
  obtain ⟨σ, hemitted, -, -, -⟩ := schedule_eq_ok hq h
  have hinv := (encInv_of_moves hq horder hrunner hemitted.moves).2
  have hshrinks := shrinks_of_givesUp hemitted.advanced.encoder
  intro hash hin
  have hold : hash ∈ σ.1.encoder.cached.keys := hshrinks.keys hash hin
  exact ⟨hinv.mirrored.mem_runnerCache hemitted.output hold,
    fun hfreed => nomatch hshrinks.freed hash hin hfreed⟩

variable {mo : ModelRunnerOutput}

theorem SchedConfig.EntryMove.shrinks {id : String}
    {σ σ' : Scheduler D × UpdateLocals} (h : EntryMove cfg out mo id σ σ') :
    Shrinks σ.1.encoder σ'.1.encoder := by
  cases h with
  | skip _ | keep _ => exact .refl _
  | stop _ hstop =>
    cases hstop with
    | finish _ _ => exact shrinks_free _
    | goOn _ _ _ | await _ _ => exact .refl _

theorem shrinks_of_update {outputs : List EngineCoreOutput}
    (hknown : Known s.requests) (h : cfg.updateFromOutput out mo s = (.ok outputs, s')) :
    Shrinks s.encoder s'.encoder := by
  obtain ⟨σ, hloop, rfl⟩ := updateFromOutput_eq_ok h
  have hrun := Call.forEach_ok
    (I := fun _ σ => Known σ.1.requests ∧ Shrinks s.encoder σ.1.encoder)
    (fun _ _ _ _ hI hx =>
      have hmove := updateEntry_move hI.1 hx
      ⟨hmove.known hI.1, hI.2.trans hmove.shrinks⟩) ⟨hknown, .refl _⟩ hloop
  exact hrun.2

variable {op : EngineOp}

theorem EngineStep.shrinks {e e' : Engine D} (h : EngineStep cfg op e e')
    (hq : e.sched.Queues) (hop : op ≠ .schedule) : Shrinks e.sched.encoder e'.sched.encoder := by
  cases h with
  | addRequest h =>
    cases addRequest_eq_ok hq.known h with
    | fresh _ _ _ _ | queued _ _ _ _ | updated _ _ _ _ _ => exact .refl _
    | ended _ _ _ _ hfinish => exact shrinks_of_givesUp (finishRequests_eq_ok hq hfinish).2.2.1.encoder
  | schedule _ => exact absurd rfl hop
  | updateFromOutput _ h => exact shrinks_of_update hq.known h
  | updateDraftTokenIds h =>
    rw [(updateDraftTokenIds_redrafted hq.known h).frame]
    exact .refl _
  | finishRequests h => exact shrinks_of_givesUp (finishRequests_eq_ok hq h).2.2.1.encoder
  | @resetPrefixCache forced _ _ _ h =>
    cases forced with
    | true =>
      obtain ⟨-, s₁, kv, hall, -, rfl⟩ := resetPrefixCache_forced hq h
      exact shrinks_of_givesUp hall.encoder
    | false =>
      obtain ⟨kv, -, rfl⟩ := resetPrefixCache_unforced h
      exact .refl _
  | setPauseState => exact .refl _
  | compileGrammar =>
    unfold EngineOp.grammarCompiled
    split <;> exact .refl _

def EngineOp.Orderly (cfg : SchedConfig D) (op : EngineOp) (e : Engine D) : Prop :=
  match op with
  | .schedule => cfg.InOrder e.sched
  | _ => True

instance (op : EngineOp) (e : Engine D) : Decidable (op.Orderly cfg e) := by
  rcases op <;> unfold EngineOp.Orderly <;> infer_instance

theorem EngineStep.synced {t : Mirrors D}
    (h : EngineStep cfg op t.engine (op.next cfg t.engine)) (hq : t.engine.sched.Queues)
    (horder : op.Orderly cfg t.engine) (hsync : t.Synced) : (op.mirrorNext cfg t).Synced := by
  by_cases hop : op = .schedule
  · subst hop
    unfold Mirrors.Synced EngineOp.mirrorNext
    generalize EngineOp.schedule.next cfg t.engine = e' at h
    cases h with
    | schedule h =>
      simp only [h]
      exact synced_of_schedule hq horder hsync h
  · have hrunner : (op.mirrorNext cfg t).runner = t.runner := by
      unfold EngineOp.mirrorNext
      cases op <;> first | rfl | exact absurd rfl hop
    have hshrinks : Shrinks t.engine.sched.encoder (op.mirrorNext cfg t).engine.sched.encoder :=
      h.shrinks hq hop
    intro hash hin
    obtain ⟨hrun, hnot⟩ := hsync hash (hshrinks.keys hash hin)
    exact ⟨hrunner.symm ▸ hrun, fun hfreed => hnot (hshrinks.freed hash hin hfreed)⟩

/-- In every run in which requests are preempted from the end of `running`, what the scheduler has
in its encoder cache is in the cache of the runner. -/
theorem encoderCache_of_run {t : Mirrors D}
    (run : Run (EngineOp.mirrorNext cfg) (fun op t => op.Returns cfg t.engine ∧
      op.NoSessionAway t.engine ∧ op.Orderly cfg t.engine) { engine := cfg.start } t) :
    ∀ h ∈ t.engine.sched.encoder.cached.keys, h ∈ t.runner := by
  have hinv : t.engine.sched.Queues ∧ t.Synced :=
    run.inv (I := fun t => t.engine.sched.Queues ∧ t.Synced) ⟨queues_init, fun _ hin => nomatch hin⟩
      fun op t hinv hop =>
        have hstep := engineStep_of_returns hop.1
        ⟨hstep.queues hop.2.1 hinv.1, hstep.synced hinv.1 hop.2.2 hinv.2⟩
  exact fun h hin => (hinv.2 h hin).1

end

/-! ## A request that is taken out of its step -/

def visionSched (policy : SchedulingPolicy) : SchedConfig HashTerm where
  __ := smallSched
  kv := fullGroup 4 16
  policy
  longPrefillTokenThreshold := 2
  maxNumEncoderInputTokens := 4
  encoderCacheSize := 4

def lateImageRequest : SchedCoreRequest where
  requestId := "a"
  promptTokenIds := some [1, 2, 3, 4, 5, 6, 7, 8]
  mmFeatures := [{ identifier := "image", mmPosition := { offset := 4, length := 2 } }]
  priority := 5

def urgentRequest : SchedCoreRequest where
  requestId := "b"
  promptTokenIds := some [1, 2]

def afterMirror (cfg : SchedConfig D) (ops : List EngineOp) : Mirrors D :=
  ops.foldl (fun t op => op.mirrorNext cfg t) { engine := cfg.start }

def secondResults : ModelRunnerOutput where
  sampledTokenIds := ((∅ : Dict String (List Token)).set "a" []).set "b" [9]

def imageOps : List EngineOp :=
  [.addRequest lateImageRequest, .schedule, .updateFromOutput (sampled "a" []),
    .addRequest urgentRequest, .schedule, .updateFromOutput secondResults, .schedule]

theorem encoderCache_of_run_image :
    (afterMirror (visionSched .fcfs) imageOps).engine.sched.encoder.cached.keys = ["image"] ∧
      ∀ h ∈ (afterMirror (visionSched .fcfs) imageOps).engine.sched.encoder.cached.keys,
        h ∈ (afterMirror (visionSched .fcfs) imageOps).runner :=
  ⟨by decide +kernel, @encoderCache_of_run _ _ (visionSched .fcfs) _
    (.of_allowed (by decide +kernel))⟩

/-- With priorities the request with the image is taken out of the step again, and the scheduler
counts the image as cached. -/
theorem lostImage :
    Run (EngineOp.mirrorNext (visionSched .priority))
        (fun op t => op.Returns (visionSched .priority) t.engine)
        { engine := (visionSched .priority).start } (afterMirror (visionSched .priority) imageOps) ∧
      (afterMirror (visionSched .priority) imageOps).engine.sched.encoder.cached.keys = ["image"] ∧
      (afterMirror (visionSched .priority) imageOps).runner = [] :=
  ⟨.of_allowed (by decide +kernel), by decide +kernel, by decide +kernel⟩

end Vllm
