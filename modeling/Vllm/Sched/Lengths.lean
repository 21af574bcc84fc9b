import Vllm.Sched.SpecDecode

/-! How long a request gets. `check_stop` looks at `min_tokens` before it looks at `max_model_len`,
so the bound needs room for the least output. -/

set_option linter.unusedSectionVars false

namespace Vllm
open Base Relation SchedConfig List

variable {D : Type}

def minTokensOf (params : Option SamplingParams) : Nat := (params.map (·.minTokens)).getD 0

/-- A request has room for its least output, and for one token more unless it has stopped. -/
structure Bounded (M : Nat) (r : SchedRequest D) : Prop where
  le : r.numTokens ≤ M
  room : r.status ≠ .waitingForStreamingReq → r.numTokens < M
  minimum : r.poolingParams = none → r.numTokens + minTokensOf r.samplingParams ≤
    M + r.numOutputTokens

section
variable {H : BlockHasher D} {M : Nat} {r r' : SchedRequest D} {params : SamplingParams}
  {tokens kept : List Token}

theorem numTokens_appendEach (r : SchedRequest D) (tokens : List Token) :
    (r.appendEach H tokens).numTokens = r.numTokens + tokens.length ∧
      (r.appendEach H tokens).numOutputTokens = r.numOutputTokens + tokens.length := by
  obtain ⟨hashes, he⟩ := appendEach_eq (H := H) r tokens
  rw [he]
  exact ⟨length_append, length_append⟩

theorem numTokens_lt_of_goesOn (h : stopStatus r params M = none)
    (hmin : r.numTokens + params.minTokens ≤ M + r.numOutputTokens) : r.numTokens < M := by
  simp only [stopStatus] at h
  split at h
  · omega
  split at h
  · cases h
  split at h
  · cases h
  split at h
  · cases h
  · next hlen => exact Nat.lt_of_not_le fun hle => hlen (.inl hle)

theorem numTokens_lt_of_appendEach (hparams : r.samplingParams = some params)
    (hmin : r.numTokens + minTokensOf r.samplingParams ≤ M + r.numOutputTokens)
    (h : stopStatus (r.appendEach H tokens) params M = none) :
    r.numTokens + tokens.length < M := by
  obtain ⟨htokens, houtput⟩ := numTokens_appendEach (H := H) r tokens
  have hmin' : r.numTokens + params.minTokens ≤ M + r.numOutputTokens := by
    rw [hparams] at hmin
    exact hmin
  exact htokens ▸ numTokens_lt_of_goesOn h (by omega)

theorem Appended.numTokens_le {stopped : Bool} (h : Appended H M r tokens r' kept stopped)
    (hroom : r.numTokens < M)
    (hmin : r.numTokens + minTokensOf r.samplingParams ≤ M + r.numOutputTokens) :
    r'.numTokens ≤ M ∧ (stopped = false → r'.numTokens < M) := by
  cases h with
  | goesOn hparams hgo =>
    have hlt : (r.appendEach H tokens).numTokens < M := by
      rw [(numTokens_appendEach r tokens).1]
      by_cases hnil : tokens = []
      · simpa [hnil] using hroom
      · obtain ⟨params, hp⟩ := Option.isSome_iff_exists.mp (hparams hnil)
        have hpos := length_pos_iff.mpr hnil
        have hlast := hgo (tokens.length - 1) (by omega) params hp
        rw [Nat.sub_add_cancel hpos, take_length] at hlast
        exact numTokens_lt_of_appendEach hp hmin hlast
    exact ⟨hlt.le, fun _ => hlt⟩
  | @stops _ rest params status _ hne hp hgo _ =>
    have hlen : (r.appendEach H kept).numTokens ≤ M := by
      rw [(numTokens_appendEach r kept).1]
      have hpos := length_pos_iff.mpr hne
      by_cases hone : kept.length = 1
      · omega
      · -- the request went on after the token before the last
        have hbefore := numTokens_lt_of_appendEach hp hmin (hgo (kept.length - 2) (by omega))
        rw [length_take] at hbefore
        omega
    exact ⟨hlen, nofun⟩

end

/-! ## Requests -/

section
variable [DecidableEq D] {cfg : SchedConfig D} {r r' : SchedRequest D} {id : String}
  {out : SchedulerOutput} {mo : ModelRunnerOutput} {M : Nat}

theorem Bounded.congr (h : Bounded M r) (htokens : r'.allTokenIds = r.allTokenIds)
    (hstatus : r'.status = .waitingForStreamingReq ↔ r.status = .waitingForStreamingReq)
    (houtput : r'.outputTokenIds = r.outputTokenIds) (hpool : r'.poolingParams = r.poolingParams)
    (hparams : r'.samplingParams = r.samplingParams) : Bounded M r' := by
  have hnum : r'.numTokens = r.numTokens := congrArg List.length htokens
  have hout : r'.numOutputTokens = r.numOutputTokens := congrArg List.length houtput
  refine ⟨hnum ▸ h.le, fun hs => hnum ▸ h.room (mt hstatus.mpr hs), fun hp => ?_⟩
  rw [hnum, hout, hparams]
  exact h.minimum (hpool.symm.trans hp)

variable {s : Scheduler D} {generated kept : List Token} {stopped : Bool} {kv : KVState D}

section
variable (hsync : cfg.asyncScheduling = false)
    (h : Takes cfg out mo id s r generated r' kept stopped kv)
include hsync h

theorem SchedConfig.Takes.bounded
    (hb : Bounded cfg.kv.maxModelLen r) (hstatus : r.status ≠ .waitingForStreamingReq) :
    r'.numTokens ≤ cfg.kv.maxModelLen ∧ (stopped = false → r'.numTokens < cfg.kv.maxModelLen) ∧
      (r'.poolingParams = none → r'.numTokens + minTokensOf r'.samplingParams ≤
        cfg.kv.maxModelLen + r'.numOutputTokens) := by
  obtain ⟨p, c, hadj⟩ := adjusted_eq (draftsOf out id) generated r
  have hroom := hb.room hstatus
  have htook := h.took
  rw [hadj] at htook
  cases htook with
  | pooled _ _ => exact ⟨hb.le, nofun, hb.minimum⟩
  | idle _ _ => exact ⟨hb.le, fun _ => hroom, hb.minimum⟩
  | discarded _ hasync _ | settled _ hasync _ _ _ _ _ => cases hsync.symm.trans hasync
  | appended _ _ hpool happ =>
    have hmin := hb.minimum hpool
    obtain ⟨hle, hlt⟩ := happ.numTokens_le hroom hmin
    refine ⟨hle, hlt, fun _ => ?_⟩
    obtain ⟨hashes, status, rfl, -⟩ := happ.spec
    change (r.allTokenIds ++ kept).length + _ ≤ _ + (r.outputTokenIds ++ kept).length
    rw [length_append, length_append]
    change r.numTokens + kept.length + minTokensOf r.samplingParams ≤
      cfg.kv.maxModelLen + (r.numOutputTokens + kept.length)
    omega

theorem SchedConfig.Takes.computed_le (hanswer : AnswersOne out mo id r) :
    r'.numComputedTokens ≤ r.numComputedTokens := by
  have hone := hanswer generated h.sampled
  have hsame : generated = [] → adjusted (draftsOf out id) generated r = r := fun hgen => by
    rw [adjusted, if_pos (.inr hgen)]
  have htook := h.took
  cases htook with
  | pooled hgen _ | idle hgen _ => exact (congrArg (·.numComputedTokens) (hsame hgen)).le
  | discarded _ hasync _ | settled _ hasync _ _ _ _ _ => cases hsync.symm.trans hasync
  | appended hgen _ hpool happ =>
    obtain ⟨hashes, status, rfl, -⟩ := happ.spec
    change (adjusted (draftsOf out id) generated r).numComputedTokens ≤ _
    have hpool' : r.poolingParams = none := by
      obtain ⟨_, _, hadj⟩ := adjusted_eq (draftsOf out id) generated r
      rwa [hadj] at hpool
    split at hone
    · exact absurd hone hgen
    · rw [hpool', Option.isSome_none, if_neg Bool.false_ne_true] at hone
      unfold adjusted
      split
      · exact Nat.le_refl _
      · change (if r.numComputedTokens > 0 then _ else _) ≤ _
        unfold numRejected
        split
        · omega
        · exact Nat.le_refl _

end

/-! ## Sessions -/

variable {request : Request D}

theorem updateRequestAsSession_lengths {H : BlockHasher D} {session : Request D}
    {update : StreamingUpdate} (h : Vllm.updateRequestAsSession H session update = .ok request) :
    request.numTokens ≤ session.numComputedTokens + update.chunk.length ∧
      request.outputTokenIds = [] ∧ request.numComputedTokens = session.numComputedTokens := by
  unfold Vllm.updateRequestAsSession at h
  dsimp only at h
  split at h
  · cases h
  · cases h
    refine ⟨?_, rfl, rfl⟩
    change (session.allTokenIds.take session.numComputedTokens ++ update.chunk).length ≤ _
    rw [length_append, length_take]
    omega

theorem bounded_of_update {session : SchedRequest D} {update : SessionUpdate}
    (h : Vllm.updateRequestAsSession cfg.hasher session.toRequest update.toStreamingUpdate =
      .ok request) (hroom : session.numComputedTokens + update.chunk.length +
        max 1 (minTokensOf update.samplingParams) ≤ M) (htokens : r.toRequest = request)
    (hparams : r.samplingParams = update.samplingParams) : Bounded M r := by
  obtain ⟨hle, houtput, -⟩ := updateRequestAsSession_lengths h
  have hnum : r.numTokens = request.numTokens := by
    unfold Request.numTokens
    rw [htokens]
  refine ⟨by omega, fun _ => by omega, fun _ => ?_⟩
  rw [hparams]
  omega

def SchedCoreRequest.promptLen (q : SchedCoreRequest) : Nat :=
  match lengthFromPromptTokenIdsOrEmbeds q.promptTokenIds q.promptEmbeds with
  | .ok n => n
  | .error _ => 0

def SchedCoreRequest.need (q : SchedCoreRequest) : Nat :=
  q.promptLen + max 1 (if q.poolingParams.isSome then 0 else minTokensOf q.samplingParams)

structure Arrival (q : SchedCoreRequest) (r : SchedRequest D) : Prop where
  requestId : r.requestId = q.requestId
  numTokens : r.numTokens = q.promptLen
  tokens : ∃ n, r.allTokenIds = q.promptTokenIds.getD (List.replicate n 0)
  promptTokenIds : r.promptTokenIds = q.promptTokenIds
  output : r.outputTokenIds = []
  computed : r.numComputedTokens = 0
  samplingParams : r.samplingParams = q.samplingParams
  poolingParams : r.poolingParams = q.poolingParams
  mmFeatures : r.mmFeatures = q.mmFeatures

theorem arrival_of_ok {q : SchedCoreRequest}
    (h : SchedRequest.fromEngineCoreRequest cfg.hasher q = .ok r) : Arrival q r := by
  obtain ⟨base, _, status, hbase, -, rfl⟩ := fromEngineCoreRequest_spec h
  obtain ⟨n, hn, hr⟩ := fromEngineCoreRequest_eq hbase
  have hnum := numPromptTokens_fromEngineCoreRequest hbase
  have hprompt : base.numPromptTokens = n := by
    rw [hr]
    rfl
  refine ⟨?_, ?_, ⟨n, ?_⟩, ?_, ?_, ?_, rfl, rfl, ?_⟩
  case refine_2 =>
    rw [SchedCoreRequest.promptLen, hn]
    exact hnum.symm.trans hprompt
  all_goals
    rw [hr]
    rfl

end

/-! ## Runs -/

/-- What a call adds to a request leaves room for its least output: a new request, an input for a
session that waits for it, and the next input of a session that may stop in the step. -/
def EngineOp.LeavesRoom (M : Nat) (op : EngineOp) (e : Engine D) : Prop :=
  match op with
  | .addRequest q => q.need ≤ M ∧ ∀ r ∈ e.sched.requests.get? q.requestId,
      r.status = .waitingForStreamingReq → r.numComputedTokens + q.promptLen +
        max 1 (minTokensOf q.samplingParams) ≤ M
  | .updateFromOutput _ => ∀ out ∈ e.batchQueue.head?, ∀ id ∈ out.numScheduledTokens.keys,
      ∀ r ∈ e.sched.requests.get? id, r.resumable = true →
        ∀ next ∈ (r.streamingQueue.getD []).head?, ∀ update ∈ next,
          r.numComputedTokens + update.chunk.length + max 1 (minTokensOf update.samplingParams) ≤ M
  | _ => True

instance [DecidableEq D] (M : Nat) (op : EngineOp) (e : Engine D) :
    Decidable (op.LeavesRoom M e) := by
  rcases op <;> unfold EngineOp.LeavesRoom <;> infer_instance

section
variable [DecidableEq D] {cfg : SchedConfig D} {e e' : Engine D} {op : EngineOp} {id : String}
  {r r' : SchedRequest D}

theorem SchedConfig.UpdateOutcome.bounded {out : SchedulerOutput} {mo : ModelRunnerOutput}
    {x y : Option (SchedRequest D)} (hsync : cfg.asyncScheduling = false)
    (h : UpdateOutcome cfg out mo id x y) (hx : ∀ r, x = some r → Bounded cfg.kv.maxModelLen r)
    (hop : id ∈ out.numScheduledTokens.keys → ∀ r, x = some r →
      r.status ≠ .waitingForStreamingReq ∧ (r.resumable = true → AnswersOne out mo id r) ∧
        (r.resumable = true → ∀ next ∈ (r.streamingQueue.getD []).head?, ∀ update ∈ next,
          r.numComputedTokens + update.chunk.length + max 1 (minTokensOf update.samplingParams) ≤
            cfg.kv.maxModelLen)) (hy : y = some r') : Bounded cfg.kv.maxModelLen r' := by
  cases h with
  | absent | finished _ _ _ => cases hy
  | untouched _ => exact hx _ hy
  | @kept _ r _ _ _ _ hin htakes =>
    cases hy
    obtain ⟨hstatus, -, -⟩ := hop hin r rfl
    obtain ⟨hle, hlt, hmin⟩ := htakes.bounded hsync (hx r rfl) hstatus
    exact ⟨hle, fun _ => hlt rfl, hmin⟩
  | @continued _ r _ _ _ _ update _ _ hin htakes hres hqueue hupdate =>
    cases hy
    obtain ⟨-, hanswer, hroom⟩ := hop hin r rfl
    have hres' : r.resumable = true := htakes.resumable.symm.trans hres
    have hle := htakes.computed_le hsync (hanswer hres')
    have hsame := htakes.streamingQueue
    rw [hsame] at hqueue
    have hneed := hroom hres' (some update) (by rw [hqueue]; rfl) update rfl
    exact bounded_of_update hupdate (by omega) rfl rfl
  | @awaits _ r _ _ _ _ hin htakes _ _ =>
    cases hy
    obtain ⟨hstatus, -, -⟩ := hop hin r rfl
    obtain ⟨hle, -, hmin⟩ := htakes.bounded hsync (hx r rfl) hstatus
    exact ⟨hle, fun hs => absurd rfl hs, hmin⟩

theorem chunk_length_le {q : SchedCoreRequest} {update : SessionUpdate}
    (h : SchedRequest.fromEngineCoreRequest cfg.hasher q = .ok r)
    (hupdate : r.streamingUpdate = some update) :
    update.chunk.length ≤ q.promptLen ∧ update.samplingParams = q.samplingParams := by
  have harrival := arrival_of_ok h
  obtain ⟨n, htokens⟩ := harrival.tokens
  unfold SchedRequest.streamingUpdate at hupdate
  split at hupdate
  · cases hupdate
    refine ⟨?_, harrival.samplingParams⟩
    change (r.promptTokenIds.getD []).length ≤ _
    rw [harrival.promptTokenIds, ← harrival.numTokens, Request.numTokens, htokens]
    cases q.promptTokenIds with
    | none => exact Nat.zero_le _
    | some tokens => exact Nat.le_refl _
  · cases hupdate

theorem RequestStep.bounded (hsync : cfg.asyncScheduling = false) (hq : e.sched.Queues)
    (hop : op.Sequential e) (hroom : op.LeavesRoom cfg.kv.maxModelLen e)
    (hb : ∀ r, e.sched.requests.get? id = some r → Bounded cfg.kv.maxModelLen r)
    (h : RequestStep cfg op e e' id (e.sched.requests.get? id) (some r')) :
    Bounded cfg.kv.maxModelLen r' := by
  generalize hx : e.sched.requests.get? id = x at h hb
  generalize hy : some r' = y at h
  cases h with
  | absent | ends _ => cases hy
  | @arrives q r hadd _ hr _ =>
    cases hy
    subst hadd
    have harrival := arrival_of_ok hr
    have hneed := hroom.1
    unfold SchedCoreRequest.need at hneed
    have hnum := harrival.numTokens
    refine ⟨?_, fun _ => ?_, fun hp => ?_⟩
    · change r.numTokens ≤ _
      omega
    · change r.numTokens < _
      omega
    · change r.numTokens + minTokensOf r.samplingParams ≤ _
      rw [← harrival.poolingParams, show r.poolingParams = none from hp, Option.isSome_none,
        if_neg Bool.false_ne_true] at hneed
      rw [harrival.samplingParams]
      omega
  | same _ =>
    cases hy
    exact hb _ rfl
  | queues _ _ _ _ _ | redrafted _ | compiled _ =>
    cases hy
    exact (hb _ rfl).congr rfl Iff.rfl rfl rfl rfl
  | @updates q _ r _ _ hadd _ hr hid hstatus hupdate hrequest =>
    cases hy
    subst hadd
    obtain ⟨hle, hparams⟩ := chunk_length_le hr hupdate
    have hq' : q.requestId = id := (arrival_of_ok hr).requestId.symm.trans hid
    have hneed := hroom.2 r (by rw [hq']; exact hx) hstatus
    exact bounded_of_update hrequest (by rw [hparams]; omega) rfl rfl
  | scheduled _ _ houtcome =>
    cases hy
    obtain ⟨status, _, _, _, _, rfl, hstatus⟩ := houtcome.frame
    exact (hb _ rfl).congr rfl hstatus rfl rfl rfl
  | @took mo out _ _ _ hupdate hbatch _ houtcome =>
    subst hupdate
    have hout : out ∈ e.batchQueue.head? := by
      rw [hbatch]
      rfl
    refine houtcome.bounded hsync hb (fun hin r hr => ?_) hy.symm
    have hget : r ∈ e.sched.requests.get? id := hx.trans hr
    obtain ⟨haway, hanswer⟩ := hop out hout id hin r hget
    refine ⟨fun hs => ?_, fun hres => hanswer ?_, hroom out hout id hin r hget⟩
    · have hsession := (hq.known id r hget).2.session hs
      rcases haway with hrun | hres
      · cases hrun.symm.trans hs
      · cases hres.symm.trans hsession
    · exact haway.resolve_right fun hno => by cases hres.symm.trans hno
  | reset _ _ hrun =>
    cases hy
    exact (hb _ rfl).congr rfl (by simp [resetReq, preemptedReq, hrun]) rfl rfl rfl

end
end Vllm
