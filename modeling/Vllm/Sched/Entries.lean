import Vllm.Sched.Steps

/-! What `update_from_output` does with one entry of a step: the request is gone, it takes its
tokens and goes on, or it stops. -/

set_option linter.unusedSectionVars false

namespace Vllm
open Base List Dict Call Relation SchedRequest

/-! ## Appending tokens -/

section
variable {D : Type} {H : BlockHasher D} {M : Nat} {r r' : SchedRequest D}

def SchedRequest.appendEach (H : BlockHasher D) (r : SchedRequest D) (tokens : List Token) :
    SchedRequest D := tokens.foldl (fun r token => r.appendOutputTokenIds H [token]) r

theorem appendEach_eq (r : SchedRequest D) (tokens : List Token) :
    ∃ hashes, r.appendEach H tokens = { r with
      outputTokenIds := r.outputTokenIds ++ tokens
      allTokenIds := r.allTokenIds ++ tokens
      blockHashes := hashes } := by
  induction tokens generalizing r with
  | nil => exact ⟨r.blockHashes, by simp [appendEach]⟩
  | cons token tokens ih =>
    obtain ⟨hashes, h⟩ := ih (r.appendOutputTokenIds H [token])
    refine ⟨hashes, h.trans ?_⟩
    simp [appendOutputTokenIds, Request.appendOutputTokenIds, Request.updateBlockHashes]

theorem stopStatus_isFinished {params : SamplingParams} {status : RequestStatus}
    (h : stopStatus r params M = some status) : status.isFinished = true := by
  simp only [stopStatus] at h
  split at h
  · cases h
  split at h
  · exact Option.some.inj h ▸ rfl
  split at h
  · exact Option.some.inj h ▸ rfl
  split at h
  · exact Option.some.inj h ▸ rfl
  split at h
  · exact Option.some.inj h ▸ rfl
  · cases h

inductive Appended (H : BlockHasher D) (M : Nat) (r : SchedRequest D) (tokens : List Token) :
    SchedRequest D → List Token → Bool → Prop where
  | goesOn (hparams : tokens ≠ [] → r.samplingParams.isSome = true)
      (hgo : ∀ n, n < tokens.length → ∀ params, r.samplingParams = some params →
        stopStatus (r.appendEach H (tokens.take (n + 1))) params M = none) :
      Appended H M r tokens (r.appendEach H tokens) tokens false
  | stops {kept rest : List Token} {params : SamplingParams} {status : RequestStatus}
      (hkept : tokens = kept ++ rest) (hne : kept ≠ []) (hparams : r.samplingParams = some params)
      (hgo : ∀ n, n + 1 < kept.length →
        stopStatus (r.appendEach H (kept.take (n + 1))) params M = none)
      (hstop : stopStatus (r.appendEach H kept) params M = some status) :
      Appended H M r tokens { r.appendEach H kept with status } kept true

variable {stopped : Bool} {tokens kept : List Token}

theorem checkStop_eq_ok (h : checkStop r M = .ok (r', stopped)) :
    r.poolingParams = none ∧ ∃ params, r.samplingParams = some params ∧
      (stopStatus r params M = none ∧ r' = r ∧ stopped = false ∨
        ∃ status, stopStatus r params M = some status ∧ r' = { r with status } ∧
          stopped = true) := by
  unfold checkStop at h
  split at h
  · cases h
  · cases h
  · next params hpool hparams =>
    refine ⟨hpool, params, hparams, ?_⟩
    cases hstop : stopStatus r params M with
    | none =>
      rw [hstop] at h
      cases h
      exact .inl ⟨rfl, rfl, rfl⟩
    | some status =>
      rw [hstop] at h
      cases h
      exact .inr ⟨status, rfl, rfl, rfl⟩

theorem appendUntilStop_eq_ok (h : appendUntilStop H M r tokens = .ok (r', kept, stopped)) :
    Appended H M r tokens r' kept stopped ∧ (tokens ≠ [] → r.poolingParams = none) := by
  induction tokens generalizing r kept with
  | nil =>
    cases h
    exact ⟨.goesOn (fun hne => absurd rfl hne) fun n hn => absurd hn (Nat.not_lt_zero n),
      fun hne => absurd rfl hne⟩
  | cons token tokens ih =>
    unfold appendUntilStop at h
    obtain ⟨⟨r₁, stopped₁⟩, hcheck, h⟩ := except_bind_eq_ok.mp h
    obtain ⟨hpool, params, hparams, hcases⟩ := checkStop_eq_ok hcheck
    refine ⟨?_, fun _ => hpool⟩
    rcases hcases with ⟨hstop, rfl, rfl⟩ | ⟨status, hstop, rfl, rfl⟩
    · obtain ⟨⟨r₂, kept₂, stopped₂⟩, hrest, h⟩ := except_bind_eq_ok.mp h
      cases h
      cases (ih hrest).1 with
      | goesOn _ hgo =>
        refine @Appended.goesOn _ H M r (token :: tokens)
          (fun _ => Option.isSome_of_eq_some hparams) fun n hn params' hp => ?_
        obtain rfl := Option.some.inj (hparams.symm.trans hp)
        cases n with
        | zero => exact hstop
        | succ n => exact hgo n (Nat.lt_of_succ_lt_succ hn) params hparams
      | @stops _ rest params₁ status hkept hne hparams₁ hgo₁ hstop₁ =>
        obtain rfl := Option.some.inj (hparams.symm.trans hparams₁)
        refine @Appended.stops _ H M r _ (token :: kept₂) rest params status
          (congrArg (token :: ·) hkept) (cons_ne_nil _ _) hparams (fun n hn => ?_) hstop₁
        cases n with
        | zero => exact hstop
        | succ n => exact hgo₁ n (Nat.lt_of_succ_lt_succ hn)
    · cases h
      exact @Appended.stops _ H M r _ [token] tokens params status rfl
        (cons_ne_nil _ _) hparams (fun n hn => absurd hn (by simp)) hstop

def SchedRequest.withTokens (r : SchedRequest D) (tokens : List Token) (hashes : List D)
    (status : RequestStatus) : SchedRequest D :=
  { r with
    outputTokenIds := r.outputTokenIds ++ tokens
    allTokenIds := r.allTokenIds ++ tokens
    blockHashes := hashes
    status }

theorem Appended.spec (h : Appended H M r tokens r' kept stopped) :
    ∃ hashes status, r' = r.withTokens kept hashes status ∧ kept <+: tokens ∧
      if stopped then status.isFinished = true ∧ kept ≠ []
      else status = r.status ∧ kept = tokens := by
  cases h with
  | goesOn _ _ =>
    obtain ⟨hashes, he⟩ := appendEach_eq (H := H) r tokens
    exact ⟨hashes, r.status, he, prefix_refl _, rfl, rfl⟩
  | @stops _ rest _ status hkept hne _ _ hstop =>
    obtain ⟨hashes, he⟩ := appendEach_eq (H := H) r kept
    refine ⟨hashes, status, ?_, ⟨rest, hkept.symm⟩, stopStatus_isFinished hstop, hne⟩
    rw [he]
    rfl

theorem Appended.requestId (h : Appended H M r tokens r' kept stopped) :
    r'.requestId = r.requestId := by
  obtain ⟨_, _, rfl, -⟩ := h.spec
  rfl

end

namespace SchedConfig
variable {D : Type} [DecidableEq D] (cfg : SchedConfig D)

/-! ## One request -/

def numRejected (drafts generated : List Token) : Int := drafts.length - (generated.length - 1)

def adjusted (drafts generated : List Token) (r : SchedRequest D) : SchedRequest D :=
  if drafts = [] ∨ generated = [] then r
  else { r with
    numOutputPlaceholders :=
      if r.numOutputPlaceholders > 0 then r.numOutputPlaceholders - numRejected drafts generated
      else r.numOutputPlaceholders
    numComputedTokens :=
      if r.numComputedTokens > 0 then (r.numComputedTokens - numRejected drafts generated).toNat
      else r.numComputedTokens }

/-- How a request takes the tokens `generated`: the tokens it kept, whether it stopped, and the
blocks afterwards. -/
inductive Took (r : SchedRequest D) (generated : List Token) (pooled : Bool) (kv : KVState D) :
    SchedRequest D → List Token → Bool → KVState D → Prop where
  | pooled (hgen : generated = []) (hp : (r.poolingParams.isSome && pooled) = true) :
      Took r generated pooled kv { r with status := .finishedStopped } [] true kv
  | idle (hgen : generated = []) (hp : (r.poolingParams.isSome && pooled) = false) :
      Took r generated pooled kv r [] false kv
  | discarded (hgen : generated ≠ []) (hasync : cfg.asyncScheduling = true)
      (hflag : r.discardLatestAsyncTokens = true) :
      Took r generated pooled kv { r with discardLatestAsyncTokens := false } [] false kv
  | appended {r' : SchedRequest D} {kept : List Token} {stopped : Bool} (hgen : generated ≠ [])
      (hsync : cfg.asyncScheduling = false) (hpool : r.poolingParams = none)
      (happ : Appended cfg.hasher cfg.kv.maxModelLen r generated r' kept stopped) :
      Took r generated pooled kv r' kept stopped kv
  | settled {r' : SchedRequest D} {kept : List Token} {stopped : Bool} {kv' : KVState D}
      (hgen : generated ≠ []) (hasync : cfg.asyncScheduling = true)
      (hflag : r.discardLatestAsyncTokens = false) (hpool : r.poolingParams = none)
      (happ : Appended cfg.hasher cfg.kv.maxModelLen r generated r' kept stopped)
      (hnonneg : 0 ≤ r'.numOutputPlaceholders - kept.length)
      (hkv : if r.status = .running then
          cfg.kv.cacheBlocks { r' with
              numOutputPlaceholders := r'.numOutputPlaceholders - kept.length }.toRequest
            (r'.numComputedTokens - (r'.numOutputPlaceholders - kept.length)).toNat kv = (.ok (), kv')
        else kv' = kv) :
      Took r generated pooled kv
        { r' with numOutputPlaceholders := r'.numOutputPlaceholders - kept.length } kept stopped kv'

section
variable {cfg} {s s' : Scheduler D} {r r' : SchedRequest D} {drafts generated kept : List Token}
  {pooled stopped : Bool} {kv kv' : KVState D}

theorem adjustRejected_eq_ok (h : adjustRejected r drafts generated s = (.ok r', s')) :
    r' = adjusted drafts generated r ∧ s' = s ∧
      (drafts ≠ [] → generated ≠ [] → 0 < r.numComputedTokens →
        0 ≤ r.numComputedTokens - numRejected drafts generated) := by
  unfold adjustRejected at h
  unfold adjusted
  split at h
  · next hnil =>
    obtain ⟨rfl, rfl⟩ := pure_eq_ok.mp h
    refine ⟨by rw [if_pos hnil], rfl, fun hd hg _ => ?_⟩
    exact absurd hnil (not_or.mpr ⟨hd, hg⟩)
  · next hnil =>
    dsimp only at h
    split at h
    · next hpos =>
      obtain ⟨hnonneg, rfl, rfl⟩ := withComputed_eq_ok.mp h
      refine ⟨?_, rfl, fun _ _ _ => hnonneg⟩
      rw [if_neg hnil, if_pos hpos]
      rfl
    · next hpos =>
      obtain ⟨rfl, rfl⟩ := pure_eq_ok.mp h
      refine ⟨?_, rfl, fun _ _ hc => absurd hc hpos⟩
      rw [if_neg hnil, if_neg hpos]
      rfl

theorem baseUpdateRequestWithOutput_eq_ok {x : List Token × Bool}
    (h : cfg.baseUpdateRequestWithOutput r generated s = (.ok x, s')) :
    ∃ r', Appended cfg.hasher cfg.kv.maxModelLen r generated r' x.1 x.2 ∧
      (generated ≠ [] → r.poolingParams = none) ∧ s' = s.setRequest r.requestId r' := by
  unfold baseUpdateRequestWithOutput at h
  obtain ⟨⟨r₁, kept, stopped⟩, s₁, happ, hset⟩ := bind_eq_ok.mp h
  cases hloop : appendUntilStop cfg.hasher cfg.kv.maxModelLen r generated with
  | error e =>
    rw [hloop] at happ
    exact absurd happ raise_ne_ok
  | ok y =>
    rw [hloop] at happ
    obtain ⟨rfl, rfl⟩ := pure_eq_ok.mp happ
    simp only [setRequest, modify_pure_eq_ok] at hset
    obtain ⟨rfl, rfl⟩ := hset
    obtain ⟨happended, hpool⟩ := appendUntilStop_eq_ok hloop
    exact ⟨r₁, happended, hpool, by rw [happended.requestId]⟩

theorem settlePlaceholders_eq_ok {id : String} {status : RequestStatus} {u : Unit}
    (hr : s.requests.get? id = some r) (hid : r.requestId = id)
    (h : cfg.settlePlaceholders id status kept s = (.ok u, s')) :
    0 ≤ r.numOutputPlaceholders - kept.length ∧ ∃ kv',
      (if status = .running then
          cfg.kv.cacheBlocks { r with
              numOutputPlaceholders := r.numOutputPlaceholders - kept.length }.toRequest
            (r.numComputedTokens - (r.numOutputPlaceholders - kept.length)).toNat s.kv = (.ok (), kv')
        else kv' = s.kv) ∧
      s' = { s.setRequest id { r with
        numOutputPlaceholders := r.numOutputPlaceholders - kept.length } with kv := kv' } := by
  simp only [settlePlaceholders, setRequest, bind_eq_ok, requestOf_eq_ok, modify_eq_ok,
    check_eq_ok] at h
  obtain ⟨r₁, _, ⟨hr₁, rfl⟩, _, _, rfl, _, _, ⟨hnonneg, rfl⟩, h⟩ := h
  obtain rfl := Option.some.inj (hr.symm.trans hr₁)
  subst hid
  refine ⟨by simpa using hnonneg, ?_⟩
  split at h
  · next hrun =>
    obtain ⟨kv', hkv, rfl⟩ := onKv_eq_ok.mp h
    exact ⟨kv', by rw [if_pos hrun]; exact hkv, rfl⟩
  · next hrun =>
    obtain ⟨-, rfl⟩ := pure_eq_ok.mp h
    exact ⟨_, by rw [if_neg hrun], rfl⟩

theorem takeOutput_eq_ok {x : List Token × Bool} (hget : s.requests.get? r.requestId = some r)
    (h : cfg.takeOutput r generated pooled s = (.ok x, s')) :
    ∃ r' kv', Took cfg r generated pooled s.kv r' x.1 x.2 kv' ∧
      s' = { s.setRequest r.requestId r' with kv := kv' } := by
  have hself : s = { s.setRequest r.requestId r with kv := s.kv } := by
    rw [Scheduler.setRequest, set_eq_self hget]
  unfold takeOutput at h
  split at h
  · next hgen =>
    unfold updateRequestWithOutput at h
    split at h
    · next hasync =>
      split at h
      · next hflag =>
        obtain ⟨rfl, rfl⟩ := h
        exact ⟨_, s.kv, .discarded hgen hasync hflag, rfl⟩
      · next hflag =>
        simp only [bind_eq_ok] at h
        obtain ⟨y, _, hbase, _, _, hsettle, rfl, rfl⟩ := h
        obtain ⟨r₁, happ, hpool, rfl⟩ := baseUpdateRequestWithOutput_eq_ok hbase
        obtain ⟨hnonneg, kv', hkv, rfl⟩ := settlePlaceholders_eq_ok (get?_set_self _ _ _)
          happ.requestId hsettle
        refine ⟨_, kv', .settled hgen hasync (by simpa using hflag) (hpool hgen) happ hnonneg hkv, ?_⟩
        simp [Scheduler.setRequest]
    · next hsync =>
      obtain ⟨r₁, happ, hpool, rfl⟩ := baseUpdateRequestWithOutput_eq_ok h
      exact ⟨r₁, s.kv, .appended hgen (by simpa using hsync) (hpool hgen) happ, rfl⟩
  · next hgen =>
    have hnil : generated = [] := not_not.mp hgen
    split at h
    · next hp =>
      obtain ⟨rfl, rfl⟩ := h
      exact ⟨_, s.kv, .pooled hnil hp, rfl⟩
    · next hp =>
      obtain ⟨rfl, rfl⟩ := pure_eq_ok.mp h
      exact ⟨r, s'.kv, .idle hnil (by simpa using hp), hself⟩

end

/-! ## One entry of a step -/

def draftsOf (out : SchedulerOutput) (id : String) : List Token :=
  (out.scheduledSpecDecodeTokens.get? id).getD []

structure Takes (out : SchedulerOutput) (mo : ModelRunnerOutput) (id : String) (s : Scheduler D)
    (r : SchedRequest D) (generated : List Token) (r' : SchedRequest D) (kept : List Token)
    (stopped : Bool) (kv : KVState D) : Prop where
  get : s.requests.get? id = some r
  live : r.isFinished = false
  sampled : mo.sampledTokenIds.get? id = some generated
  took : Took cfg (adjusted (draftsOf out id) generated r) generated (decide (id ∈ mo.pooled)) s.kv
    r' kept stopped kv
  nonneg : draftsOf out id ≠ [] → generated ≠ [] → 0 < r.numComputedTokens →
    0 ≤ r.numComputedTokens - numRejected (draftsOf out id) generated

def noteStopped (statusBeforeStop : RequestStatus) (id : String) (l : UpdateLocals) :
    UpdateLocals :=
  if statusBeforeStop = .running then
    { l with stoppedRunningReqs := l.stoppedRunningReqs.insert id }
  else { l with stoppedPreemptedReqs := l.stoppedPreemptedReqs.insert id }

def continued (r : SchedRequest D) (rest : List (Option SessionUpdate)) (update : SessionUpdate)
    (request : Request D) : SchedRequest D :=
  { r with
    toRequest := request
    status := .waiting
    arrivalTime := update.arrivalTime
    samplingParams := update.samplingParams
    streamingQueue := some rest }

def freed (s : Scheduler D) (id : String) (fs : List MultiModalFeatureSpec) (kv : KVState D) :
    Scheduler D :=
  { s with
    requests := s.requests.erase id
    encoder := s.encoder.free id fs
    finishedReqIds := s.finishedReqIds.insert id
    kv }

inductive Stops (id : String) (r : SchedRequest D) (s : Scheduler D) : Scheduler D → Prop where
  | finish {kv : KVState D}
      (hend : r.resumable = false ∨ ∃ rest, r.streamingQueue.getD [] = none :: rest)
      (hfree : cfg.kv.free id s.kv = (.ok (), kv)) : Stops id r s (freed s id r.mmFeatures kv)
  | goOn {update : SessionUpdate} {rest : List (Option SessionUpdate)} {request : Request D}
      {lt : String → String → Bool} (hres : r.resumable = true)
      (hqueue : r.streamingQueue.getD [] = some update :: rest)
      (hupdate : Vllm.updateRequestAsSession cfg.hasher r.toRequest update.toStreamingUpdate =
        .ok request) :
      Stops id r s { s.setRequest id (continued r rest update request) with
        waiting := cfg.policy.addRequest lt s.waiting id }
  | await {lt : String → String → Bool} (hres : r.resumable = true)
      (hqueue : r.streamingQueue.getD [] = []) :
      Stops id r s { s.setRequest id { r with status := .waitingForStreamingReq } with
        skippedWaiting := cfg.policy.addRequest lt s.skippedWaiting id
        numWaitingForStreamingInput := s.numWaitingForStreamingInput + 1 }

inductive EntryMove (out : SchedulerOutput) (mo : ModelRunnerOutput) (id : String) :
    Scheduler D × UpdateLocals → Scheduler D × UpdateLocals → Prop where
  | skip {σ : Scheduler D × UpdateLocals}
      (h : ∀ r, σ.1.requests.get? id = some r → r.isFinished = true) : EntryMove out mo id σ σ
  | keep {σ : Scheduler D × UpdateLocals} {r r' : SchedRequest D} {generated kept : List Token}
      {kv : KVState D} {outputs : List EngineCoreOutput}
      (h : Takes cfg out mo id σ.1 r generated r' kept false kv) :
      EntryMove out mo id σ ({ σ.1.setRequest id r' with kv }, { σ.2 with outputs })
  | stop {σ : Scheduler D × UpdateLocals} {s : Scheduler D} {r r' : SchedRequest D}
      {generated kept : List Token} {kv : KVState D} {outputs : List EngineCoreOutput}
      (h : Takes cfg out mo id σ.1 r generated r' kept true kv)
      (hstop : Stops cfg id r' { σ.1.setRequest id r' with kv } s) :
      EntryMove out mo id σ (s, { noteStopped r.status id σ.2 with outputs })

section
variable {cfg} {s s' : Scheduler D} {σ σ' : Scheduler D × UpdateLocals} {id : String}
  {r r' : SchedRequest D} {out : SchedulerOutput} {mo : ModelRunnerOutput}
  {generated kept : List Token} {stopped : Bool} {kv : KVState D}

theorem adjusted_eq (drafts generated : List Token) (r : SchedRequest D) :
    ∃ p c, adjusted drafts generated r =
      { r with numOutputPlaceholders := p, numComputedTokens := c } := by
  unfold adjusted
  split
  · exact ⟨_, _, rfl⟩
  · exact ⟨_, _, rfl⟩

section
variable (h : Takes cfg out mo id s r generated r' kept stopped kv)
include h

theorem Takes.spec :
    ∃ hashes status p c flag, r' = { r.withTokens kept hashes status with
        numOutputPlaceholders := p, numComputedTokens := c, discardLatestAsyncTokens := flag } ∧
      if stopped then status.isFinished = true else status = r.status := by
  obtain ⟨p, c, hadj⟩ := adjusted_eq (draftsOf out id) generated r
  have htook := h.took
  rw [hadj] at htook
  cases htook with
  | pooled _ _ => exact ⟨r.blockHashes, .finishedStopped, p, c, r.discardLatestAsyncTokens,
      by simp [withTokens], rfl⟩
  | idle _ _ => exact ⟨r.blockHashes, r.status, p, c, r.discardLatestAsyncTokens,
      by simp [withTokens], rfl⟩
  | discarded _ _ _ => exact ⟨r.blockHashes, r.status, p, c, false,
      by simp [withTokens], rfl⟩
  | appended _ _ _ happ =>
    obtain ⟨hashes, status, rfl, -, hst⟩ := happ.spec
    refine ⟨hashes, status, p, c, r.discardLatestAsyncTokens, rfl, ?_⟩
    cases stopped <;> exact hst.1
  | settled _ _ _ _ happ _ _ =>
    obtain ⟨hashes, status, rfl, -, hst⟩ := happ.spec
    refine ⟨hashes, status, _, c, r.discardLatestAsyncTokens, rfl, ?_⟩
    cases stopped <;> exact hst.1

theorem Takes.requestId : r'.requestId = r.requestId := by
  obtain ⟨_, _, _, _, _, rfl, -⟩ := h.spec
  rfl

theorem Takes.resumable : r'.resumable = r.resumable := by
  obtain ⟨_, _, _, _, _, rfl, -⟩ := h.spec
  rfl

theorem Takes.streamingQueue : r'.streamingQueue = r.streamingQueue := by
  obtain ⟨_, _, _, _, _, rfl, -⟩ := h.spec
  rfl

end

theorem Takes.status (h : Takes cfg out mo id s r generated r' kept false kv) :
    r'.status = r.status := by
  obtain ⟨_, _, _, _, _, rfl, hst⟩ := h.spec
  exact hst

theorem Takes.isFinished (h : Takes cfg out mo id s r generated r' kept stopped kv) :
    r'.isFinished = stopped := by
  obtain ⟨_, status, _, _, _, rfl, hst⟩ := h.spec
  change status.isFinished = stopped
  cases stopped with
  | true => exact hst
  | false =>
    rw [show status = r.status from hst]
    exact h.live

variable {u : Unit}

theorem freeRequest_eq_ok (hr : s.requests.get? id = some r)
    (h : cfg.freeRequest id s = (.ok u, s')) :
    ∃ kv, cfg.kv.free id s.kv = (.ok (), kv) ∧ s' = freed s id r.mmFeatures kv := by
  simp only [freeRequest, bind_eq_ok, requestOf_eq_ok, check_eq_ok, modify_eq_ok, onKv_eq_ok] at h
  obtain ⟨r', _, ⟨hr', rfl⟩, _, _, ⟨-, rfl⟩, _, _, rfl, _, _, ⟨kv, hkv, rfl⟩, rfl⟩ := h
  obtain rfl := Option.some.inj (hr.symm.trans hr')
  exact ⟨kv, hkv, rfl⟩

theorem updateSession_eq_ok {session : SchedRequest D} {update : SessionUpdate}
    (h : cfg.updateSession session update s = (.ok r, s')) :
    ∃ request, Vllm.updateRequestAsSession cfg.hasher session.toRequest update.toStreamingUpdate =
        .ok request ∧
      r = { session with
        toRequest := request, status := .waiting
        arrivalTime := update.arrivalTime, samplingParams := update.samplingParams } ∧
      s' = { s.setRequest r.requestId r with
        numWaitingForStreamingInput :=
          if session.status = .waitingForStreamingReq then s.numWaitingForStreamingInput - 1
          else s.numWaitingForStreamingInput } := by
  unfold updateSession at h
  obtain ⟨request, s₁, hup, hrest⟩ := bind_eq_ok.mp h
  cases hreq : Vllm.updateRequestAsSession cfg.hasher session.toRequest update.toStreamingUpdate with
  | error e =>
    rw [hreq] at hup
    exact absurd hup raise_ne_ok
  | ok request' =>
    rw [hreq] at hup
    obtain ⟨rfl, rfl⟩ := pure_eq_ok.mp hup
    simp only [modify_pure_eq_ok] at hrest
    obtain ⟨rfl, rfl⟩ := hrest
    exact ⟨request, rfl, rfl, rfl⟩

theorem updateRequestAsSession_requestId {H : BlockHasher D} {session request : Request D}
    {update : StreamingUpdate} (h : Vllm.updateRequestAsSession H session update = .ok request) :
    request.requestId = session.requestId := by
  unfold Vllm.updateRequestAsSession at h
  split at h
  · cases h
  · cases h
    rfl

theorem setRequest_again {r r' : SchedRequest D} :
    ({ s.setRequest id r with kv } : Scheduler D).setRequest id r' =
      { s.setRequest id r' with kv } := by
  simp [Scheduler.setRequest]

theorem freed_again {fs : List MultiModalFeatureSpec} {kv' : KVState D} :
    freed { s.setRequest id r with kv } id fs kv' = freed s id fs kv' := by
  simp [freed, Scheduler.setRequest]

theorem handleStoppedRequest_eq_ok {finished : Bool} {s₁ : Scheduler D}
    (hr : s.requests.get? id = some r) (hid : r.requestId = id) (hfin : r.isFinished = true)
    (h : cfg.handleStoppedRequest r s = (.ok finished, s₁))
    (hfree : (Call.when finished (cfg.freeRequest id)) s₁ = (.ok u, s')) : Stops cfg id r s s' := by
  subst hid
  rw [when_eq_ok] at hfree
  unfold handleStoppedRequest at h
  split at h
  · next hres =>
    obtain ⟨rfl, rfl⟩ := pure_eq_ok.mp h
    obtain ⟨kv, hkv, rfl⟩ := freeRequest_eq_ok hr hfree
    exact .finish (.inl (by simpa using hres)) hkv
  · next hres =>
    have hres' : r.resumable = true := by simpa using hres
    have hstatus : r.status ≠ .waitingForStreamingReq := by
      intro hs
      rw [isFinished, hs] at hfin
      cases hfin
    rcases hqueue : r.streamingQueue.getD [] with _ | ⟨_ | update, rest⟩
    · simp only [hqueue, awaitInput, enqueueWaitingRequest, bind_eq_ok, modify_eq_ok,
        pure_eq_ok] at h
      obtain ⟨r₁, _, ⟨_, _, rfl, rfl, rfl⟩, _, _, rfl, rfl, rfl⟩ := h
      subst hfree
      exact .await hres' hqueue
    · simp only [hqueue, setRequest, modify_pure_eq_ok] at h
      obtain ⟨rfl, rfl⟩ := h
      obtain ⟨kv, hkv, rfl⟩ := freeRequest_eq_ok (get?_set_self _ _ _) hfree
      rw [show s.setRequest r.requestId { r with streamingQueue := some rest } =
        { s.setRequest r.requestId { r with streamingQueue := some rest } with kv := s.kv } from rfl,
        freed_again]
      exact .finish (.inr ⟨rest, hqueue⟩) hkv
    · simp only [hqueue, enqueueWaitingRequest, bind_eq_ok, modify_eq_ok, pure_eq_ok] at h
      obtain ⟨r₁, _, hup, _, _, rfl, rfl, rfl⟩ := h
      obtain ⟨request, hreq, rfl, rfl⟩ := updateSession_eq_ok hup
      have hid := updateRequestAsSession_requestId hreq
      subst hfree
      have hstop := fun lt => @Stops.goOn _ cfg r.requestId r s update rest request lt hres'
        hqueue hreq
      rw [if_neg hstatus]
      simp only [hid]
      exact hstop _

section
variable (hr : σ.1.requests.get? id = some r) (hid : r.requestId = id)
include hr hid

theorem stopRequest_eq_ok {status : RequestStatus} {reason : Option FinishReason}
    (hfin : r.isFinished = true) (h : cfg.stopRequest id status σ = (.ok reason, σ')) :
    Stops cfg id r σ.1 σ'.1 ∧ σ'.2 = noteStopped status id σ.2 := by
  simp only [stopRequest, bind_eq_ok, pure_eq_ok, modify_eq_ok, Vllm.lift_eq_ok,
    requestOf_eq_ok] at h
  obtain ⟨r₁, τ, ⟨⟨hr₁, hτ⟩, hτ'⟩, finished, ρ, ⟨hhandle, hρ'⟩, _, ω, hwhen, _, _, rfl, -, rfl⟩ := h
  obtain rfl : τ = σ := Prod.ext hτ hτ'
  obtain rfl := Option.some.inj (hr.symm.trans hr₁)
  rw [when_eq_ok] at hwhen
  have hfree : (Call.when finished (cfg.freeRequest id)) ρ.1 = (.ok (), ω.1) ∧ ω.2 = ρ.2 := by
    cases finished with
    | true => exact Vllm.lift_eq_ok.mp hwhen
    | false =>
      obtain rfl := hwhen
      exact ⟨rfl, rfl⟩
  refine ⟨handleStoppedRequest_eq_ok hr hid hfin hhandle hfree.1, ?_⟩
  change noteStopped status id ω.2 = _
  rw [hfree.2, hρ']

theorem updateRequest_move
    (hlive : r.isFinished = false) (h : cfg.updateRequest out mo r σ = (.ok u, σ')) :
    EntryMove cfg out mo id σ σ' := by
  subst hid
  unfold updateRequest at h
  cases hgen : mo.sampledTokenIds.get? r.requestId with
  | none => simp only [hgen, raise_ne_ok] at h
  | some generated =>
    simp only [hgen, setRequest, bind_eq_ok, Vllm.lift_eq_ok, modify_eq_ok] at h
    obtain ⟨r₁, τ, ⟨hadj, hτ'⟩, _, ρ, ⟨hρ, hρ'⟩, ⟨kept, stopped⟩, ω, ⟨htake, hω'⟩, hrest⟩ := h
    change adjustRejected r (draftsOf out r.requestId) generated σ.1 = _ at hadj
    obtain ⟨rfl, hτ, hnonneg⟩ := adjustRejected_eq_ok hadj
    obtain ⟨p, c, hadjusted⟩ := adjusted_eq (draftsOf out r.requestId) generated r
    have hid : (adjusted (draftsOf out r.requestId) generated r).requestId = r.requestId := by
      rw [hadjusted]
    have hstatus : (adjusted (draftsOf out r.requestId) generated r).status = r.status := by
      rw [hadjusted]
    have hρ₁ : ρ.1 = σ.1.setRequest r.requestId
        (adjusted (draftsOf out r.requestId) generated r) := by
      rw [hρ, hτ]
      exact congrArg (fun id => σ.1.setRequest id _) hid
    have hkv : ρ.1.kv = σ.1.kv := by rw [hρ₁]; rfl
    obtain ⟨r', kv, htook, hω⟩ := takeOutput_eq_ok
      (by rw [hρ₁, hid]; exact get?_set_self _ _ _) htake
    have hω₁ : ω.1 = { σ.1.setRequest r.requestId r' with kv } := by
      rw [hω, hid, hρ₁]
      simp [Scheduler.setRequest]
    have hσ₂ : ω.2 = σ.2 := hω'.trans (hρ'.trans hτ')
    have htakes : Takes cfg out mo r.requestId σ.1 r generated r' kept stopped kv :=
      ⟨hr, hlive, hgen, hkv ▸ htook, hnonneg⟩
    cases stopped with
    | false =>
      simp only [Bool.false_eq_true, if_false, bind_eq_ok, pure_eq_ok, modify_eq_ok] at hrest
      obtain ⟨_, _, ⟨rfl, rfl⟩, rfl⟩ := hrest
      rw [hω₁, hσ₂]
      split
      · exact .keep htakes
      · exact .keep htakes
    | true =>
      simp only [if_true, bind_eq_ok, modify_eq_ok] at hrest
      obtain ⟨reason, υ, hstop, rfl⟩ := hrest
      obtain ⟨hstops, hυ'⟩ := stopRequest_eq_ok (by rw [hω₁]; exact get?_set_self _ _ _)
        htakes.requestId htakes.isFinished hstop
      rw [hω₁] at hstops
      rw [hυ', hσ₂]
      change EntryMove cfg out mo r.requestId σ (υ.1, if _ then _ else noteStopped _ _ _)
      rw [hstatus]
      split
      · exact .stop htakes hstops
      · exact .stop htakes hstops

end

theorem updateEntry_move {n : Int} (hknown : Known σ.1.requests)
    (h : cfg.updateEntry out mo id n σ = (.ok u, σ')) : EntryMove cfg out mo id σ σ' := by
  simp only [updateEntry, bind_eq_ok, check_eq_ok, get_eq_ok] at h
  obtain ⟨_, _, ⟨-, rfl⟩, _, σ, ⟨rfl, rfl⟩, h⟩ := h
  cases hr : σ.1.requests.get? id with
  | none =>
    simp only [hr] at h
    obtain ⟨-, rfl⟩ := pure_eq_ok.mp h
    exact .skip fun r hr' => by cases hr.symm.trans hr'
  | some r =>
    simp only [hr] at h
    split at h
    · next hfin =>
      obtain ⟨-, rfl⟩ := pure_eq_ok.mp h
      exact .skip fun r' hr' => Option.some.inj (hr.symm.trans hr') ▸ hfin
    · next hlive => exact updateRequest_move hr (hknown id r hr).1 (by simpa using hlive) h

end

end SchedConfig
end Vllm
