import Vllm.Sched.Requests

/-! Speculative decoding with the synchronous scheduler: the count of computed tokens is advanced
over the draft tokens when they are scheduled and put right when the results come back. -/

set_option linter.unusedSectionVars false

namespace Vllm
open Base Dict Relation SchedConfig List

variable {D : Type}

/-! ## Counts of a request -/

/-- Where a step leaves a request until its results are taken: before the end of its tokens, or past
its tokens and the draft tokens of the step. -/
def InStep (drafts : List Token) (r : SchedRequest D) : Prop :=
  if r.isPrefillChunk then r.numComputedTokens < r.numTokens
  else r.numComputedTokens = r.numTokens + drafts.length

def Counted (out : Option SchedulerOutput) (id : String) (r : SchedRequest D) : Prop :=
  match out with
  | none => r.numComputedTokens < r.numTokens
  | some out =>
    if id ∈ out.numScheduledTokens.keys then InStep (draftsOf out id) r
    else r.numComputedTokens < r.numTokens

/-- The `n` tokens of `r` that a step computes are its next tokens and, only after the last of them,
the draft tokens. -/
structure DraftsLast (r r' : SchedRequest D) (n : Int) (drafts : List Token) (start : Nat) :
    Prop where
  running : r.status = .running → start = r.numComputedTokens
  computed : r'.numComputedTokens = (start + n).toNat
  known : start ≤ r.numTokens
  listed : drafts <+: r.specTokenIds
  last : if drafts = [] then start + n ≤ r.numTokens else start + n = r.numTokens + drafts.length

section
variable [DecidableEq D] {cfg : SchedConfig D} {r r' : SchedRequest D} {id : String}
  {out : SchedulerOutput} {mo : ModelRunnerOutput} {n b : Int}

theorem capByThreshold_le (cfg : SchedConfig D) (n : Int) : cfg.capByThreshold n ≤ n := by
  unfold capByThreshold
  split
  · next h => exact Int.le_of_lt h.2
  · exact Int.le_refl n

theorem numNewRunning_le (cfg : SchedConfig D) (r : SchedRequest D) (b : Int) : cfg.numNewRunning r b ≤
    r.numTokens + r.specTokenIds.length + r.numOutputPlaceholders - r.numComputedTokens := by
  have hcap := capByThreshold_le cfg
    (r.numTokensWithSpec + r.numOutputPlaceholders - r.numComputedTokens)
  have hspec : (r.numTokensWithSpec : Int) = r.numTokens + r.specTokenIds.length :=
    Int.natCast_add _ _
  dsimp only [numNewRunning]
  omega

theorem advanced_sync (hsync : cfg.asyncScheduling = false) (k : Nat) :
    cfg.advanced n k r = SchedConfig.computed n r := by
  rw [advanced, hsync]
  rfl

theorem draftsLast_of_ran (hzero : r.numOutputPlaceholders = 0)
    (hle : r.numComputedTokens ≤ r.numTokens) (hfit : Fitted (cfg.numNewRunning r b) n)
    (hne : n ≠ 0) (k : Nat) (hsync : cfg.asyncScheduling = false) :
    DraftsLast r (cfg.advanced n k { r with specTokenIds := [] }) n (scheduledDrafts r n)
      r.numComputedTokens := by
  have hdemand : n ≤ r.numTokens + r.specTokenIds.length - r.numComputedTokens := by
    have hmost := numNewRunning_le cfg r b
    rcases hfit with rfl | rfl | ⟨-, hlt⟩
    · omega
    · exact absurd rfl hne
    · omega
  rw [advanced_sync hsync]
  refine ⟨fun _ => rfl, rfl, hle, take_prefix _ _, ?_⟩
  have hlen : (scheduledDrafts r n).length =
      min (n + r.numComputedTokens - r.numTokens).toNat r.specTokenIds.length := by
    rw [scheduledDrafts, hzero, length_take, Int.sub_zero]
  split
  · next hnil =>
    rw [hnil, length_nil] at hlen
    omega
  · next hnil =>
    have hpos := length_pos_iff.mpr hnil
    omega

theorem draftsLast_of_placed {c : Nat} (hstatus : r.status ≠ .running)
    (hpos : 0 < cfg.numNewWaiting r c) (hfit : Fitted (min (cfg.numNewWaiting r c) b) n)
    (k : Nat) (hsync : cfg.asyncScheduling = false) :
    DraftsLast r (cfg.advanced n k { r with status := .running, numComputedTokens := c }) n [] c := by
  have hcap := capByThreshold_le cfg ((r.numTokens : Int) - c)
  unfold numNewWaiting at hpos hfit
  rw [advanced_sync hsync]
  refine ⟨fun hrun => absurd hrun hstatus, rfl, by omega, nil_prefix, ?_⟩
  rw [if_pos rfl]
  rcases hfit with rfl | rfl | ⟨-, hlt⟩ <;> omega

section
variable (hsync : cfg.asyncScheduling = false)
include hsync

section
variable (h : Outcome cfg out id r r')
include h

theorem SchedConfig.Outcome.draftsLast (hzero : r.numOutputPlaceholders = 0)
    (hle : r.status = .running → r.numComputedTokens ≤ r.numTokens)
    (hn : out.numScheduledTokens.get? id = some n) :
    ∃ start, DraftsLast r r' n (draftsOf out id) start := by
  cases h with
  | kept hn' _ | preempted _ hn' _ | promoted _ hn' _ => cases hn.symm.trans hn'
  | ran hrun _ _ hfit hne hn' hd =>
    obtain rfl := Option.some.inj (hn.symm.trans hn')
    have hdrafts : draftsOf out id = scheduledDrafts r n := by
      rw [draftsOf, hd]
      split
      · next hnil => rw [hnil]; rfl
      · rfl
    rw [hdrafts]
    exact ⟨_, draftsLast_of_ran hzero (hle hrun) hfit hne _ hsync⟩
  | placed hstatus _ _ hpos hfit _ hn' hd =>
    obtain rfl := Option.some.inj (hn.symm.trans hn')
    have hnot : r.status ≠ .running := by
      rcases hstatus with h | h | h <;> simp [h]
    rw [draftsOf, hd]
    exact ⟨_, draftsLast_of_placed hnot hpos hfit _ hsync⟩

theorem SchedConfig.Outcome.spec :
    r'.allTokenIds = r.allTokenIds ∧ r'.resumable = r.resumable ∧
      r'.numOutputPlaceholders = r.numOutputPlaceholders ∧
      (r'.status = .running → id ∉ out.numScheduledTokens.keys → r' = r) ∧
      (id ∈ out.numScheduledTokens.keys → r'.isPrefillChunk =
        decide ((r'.numComputedTokens : Int) < r.numTokens + r.numOutputPlaceholders)) := by
  cases h with
  | kept hn _ =>
    exact ⟨rfl, rfl, rfl, fun _ _ => rfl, fun hin => absurd hin (get?_eq_none_iff.mp hn)⟩
  | preempted _ hn _ | promoted _ hn _ =>
    refine ⟨rfl, rfl, rfl, fun hrun _ => ?_, fun hin => absurd hin (get?_eq_none_iff.mp hn)⟩
    cases hrun
  | ran _ _ _ _ _ hn _ | placed _ _ _ _ _ _ hn _ =>
    rw [advanced_sync hsync]
    exact ⟨rfl, rfl, rfl, fun _ hout => absurd (mem_keys_of_get? hn) hout, fun _ => rfl⟩

theorem SchedConfig.Outcome.counted (hzero : r.numOutputPlaceholders = 0)
    (hlt : r.status = .running → r.numComputedTokens < r.numTokens) (hrun : r'.status = .running) :
    Counted (some out) id r' := by
  obtain ⟨htokens, -, -, hsame, hchunk⟩ := h.spec hsync
  have hnum : r'.numTokens = r.numTokens := congrArg List.length htokens
  change if id ∈ out.numScheduledTokens.keys then InStep (draftsOf out id) r'
    else r'.numComputedTokens < r'.numTokens
  split
  · next hin =>
    obtain ⟨n, hn⟩ := exists_of_mem_keys hin
    obtain ⟨start, hdrafts⟩ := h.draftsLast hsync hzero (fun h => (hlt h).le) hn
    have hcomputed := hdrafts.computed
    have hlast := hdrafts.last
    have hflag := hchunk hin
    rw [hzero] at hflag
    unfold InStep
    split
    · next hprefill =>
      rw [hprefill] at hflag
      have := of_decide_eq_true hflag.symm
      omega
    · next hprefill =>
      have hnot : ¬(r'.numComputedTokens : Int) < r.numTokens + 0 := fun hlt =>
        hprefill (hflag.trans (decide_eq_true hlt))
      split at hlast
      · next hnil =>
        rw [hnil, length_nil]
        omega
      · omega
  · next hout =>
    obtain rfl := hsame hrun hout
    exact hlt hrun

end

/-! ## Results -/

/-- What the model returns for a running request of a step: nothing for a part of its prompt, its
pooling output, or the accepted draft tokens and one token more. -/
def AnswersOne (out : SchedulerOutput) (mo : ModelRunnerOutput) (id : String)
    (r : SchedRequest D) : Prop :=
  ∀ generated ∈ mo.sampledTokenIds.get? id,
    if r.isPrefillChunk then generated = []
    else if r.poolingParams.isSome then id ∈ mo.pooled
    else 1 ≤ generated.length ∧ generated.length ≤ (draftsOf out id).length + 1

theorem SchedConfig.Takes.counted {s : Scheduler D} {generated kept : List Token} {kv : KVState D} (h : Takes cfg out mo id s r generated r' kept false kv)
    (hcount : InStep (draftsOf out id) r) (hanswer : AnswersOne out mo id r) :
    r'.numComputedTokens < r'.numTokens ∧
      (r.numTokens < r'.numTokens → r'.numComputedTokens + 1 = r'.numTokens) := by
  have hone := hanswer generated h.sampled
  have htook := h.took
  unfold InStep at hcount
  cases htook with
  | idle hgen hp =>
    subst hgen
    rw [adjusted, if_pos (.inr rfl)] at hp ⊢
    refine ⟨?_, fun hlt => absurd hlt (lt_irrefl _)⟩
    split at hcount
    · exact hcount
    · next hchunk =>
      rw [if_neg hchunk] at hone
      split at hone
      · next hpool =>
        rw [hpool, decide_eq_true hone] at hp
        cases hp
      · exact absurd hone.1 (by simp)
  | discarded _ hasync _ | settled _ hasync _ _ _ _ _ => cases hsync.symm.trans hasync
  | appended hgen _ hpool happ =>
    obtain ⟨hashes, status, rfl, -, -, rfl⟩ := happ.spec
    have hpool' : r.poolingParams = none := by
      obtain ⟨_, _, hadj⟩ := adjusted_eq (draftsOf out id) kept r
      rwa [hadj] at hpool
    split at hcount
    · next hchunk =>
      rw [if_pos hchunk] at hone
      exact absurd hone hgen
    · next hchunk =>
      rw [if_neg hchunk, hpool', Option.isSome_none, if_neg Bool.false_ne_true] at hone
      have hnum : ((adjusted (draftsOf out id) kept r).withTokens kept hashes status).numTokens =
          r.numTokens + kept.length := by
        obtain ⟨_, _, hadj⟩ := adjusted_eq (draftsOf out id) kept r
        rw [hadj]
        exact length_append
      -- what is left of the drafts are the accepted ones, one less than the tokens
      have hcomputed : (adjusted (draftsOf out id) kept r).numComputedTokens + 1 =
          r.numTokens + kept.length := by
        unfold adjusted
        split
        · next hnil =>
          have hdrafts := hnil.resolve_right hgen
          rw [hdrafts, length_nil] at hone hcount
          omega
        · next hnil =>
          have hdrafts := length_pos_iff.mpr (not_or.mp hnil).1
          have hpos : r.numComputedTokens > 0 := by omega
          change (if r.numComputedTokens > 0 then _ else _) + 1 = _
          rw [if_pos hpos, numRejected]
          omega
      change (adjusted _ _ _).numComputedTokens < _ ∧ (_ → (adjusted _ _ _).numComputedTokens + 1 = _)
      rw [hnum]
      omega

end

end

/-! ## Runs -/

/-- A step is scheduled when none is outstanding, and its results are taken while its sessions are
running, with an answer of the model for every running request. -/
def EngineOp.Sequential (op : EngineOp) (e : Engine D) : Prop :=
  match op with
  | .schedule => e.batchQueue = []
  | .updateFromOutput mo => ∀ out ∈ e.batchQueue.head?, ∀ id ∈ out.numScheduledTokens.keys,
      ∀ r ∈ e.sched.requests.get? id, (r.status = .running ∨ r.resumable = false) ∧
        (r.status = .running → AnswersOne out mo id r)
  | _ => True

instance {out : SchedulerOutput} {mo : ModelRunnerOutput} {id : String} {r : SchedRequest D} :
    Decidable (AnswersOne out mo id r) := by
  unfold AnswersOne
  infer_instance

instance [DecidableEq D] (op : EngineOp) (e : Engine D) : Decidable (op.Sequential e) := by
  rcases op <;> unfold EngineOp.Sequential <;> infer_instance

structure SpecCounts (batchQueue : List SchedulerOutput) (id : String) (r : SchedRequest D) :
    Prop where
  placeholders : r.numOutputPlaceholders = 0
  counted : r.status = .running → Counted batchQueue.head? id r

structure SpecInv (e : Engine D) : Prop where
  queues : e.sched.Queues
  one : e.batchQueue.length ≤ 1
  counts : ∀ id r, e.sched.requests.get? id = some r → SpecCounts e.batchQueue id r

section
variable [DecidableEq D] {cfg : SchedConfig D} {e e' : Engine D} {op : EngineOp} {id : String}
  {r r' : SchedRequest D}

theorem EngineOp.Sequential.noSessionAway (h : op.Sequential e) : op.NoSessionAway e := by
  cases op with
  | updateFromOutput mo => exact fun out hout id hid r hr => (h out hout id hid r hr).1
  | _ => trivial

variable {out : SchedulerOutput} {mo : ModelRunnerOutput}

theorem SpecInv.rest_eq_nil (h : SpecInv e) {rest : List SchedulerOutput}
    (hbatch : e.batchQueue = out :: rest) : rest = [] := by
  have hone := h.one
  rw [hbatch, length_cons] at hone
  exact eq_nil_of_length_eq_zero (by omega)

theorem fromEngineCoreRequest_counts {q : SchedCoreRequest}
    (h : SchedRequest.fromEngineCoreRequest cfg.hasher q = .ok r) :
    r.resumable = q.resumable ∧ r.numOutputPlaceholders = 0 ∧ r.status ≠ .running := by
  obtain ⟨_, _, status, -, hlimits, rfl⟩ := fromEngineCoreRequest_spec h
  refine ⟨rfl, rfl, ?_⟩
  rcases limits_status hlimits with rfl | rfl <;> simp

theorem adjusted_placeholders {drafts generated : List Token} (h : r.numOutputPlaceholders = 0) :
    (adjusted drafts generated r).numOutputPlaceholders = 0 := by
  unfold adjusted
  split
  · exact h
  · simp [h]

theorem SchedConfig.Takes.placeholders {s : Scheduler D} {generated kept : List Token}
    {stopped : Bool} {kv : KVState D} (hsync : cfg.asyncScheduling = false)
    (h : Takes cfg out mo id s r generated r' kept stopped kv) (hzero : r.numOutputPlaceholders = 0) :
    r'.numOutputPlaceholders = 0 := by
  have hadj : (adjusted (draftsOf out id) generated r).numOutputPlaceholders = 0 :=
    adjusted_placeholders hzero
  have htook := h.took
  cases htook with
  | pooled _ _ | idle _ _ => exact hadj
  | discarded _ hasync _ | settled _ hasync _ _ _ _ _ => cases hsync.symm.trans hasync
  | appended _ _ _ happ =>
    obtain ⟨_, _, rfl, -⟩ := happ.spec
    exact hadj

theorem SchedConfig.UpdateOutcome.counts {x y : Option (SchedRequest D)}
    (hsync : cfg.asyncScheduling = false) (h : UpdateOutcome cfg out mo id x y)
    (hx : ∀ r, x = some r → SpecCounts [out] id r)
    (hanswer : id ∈ out.numScheduledTokens.keys → ∀ r, x = some r → r.status = .running → AnswersOne out mo id r)
    (hy : y = some r') :
    SpecCounts [] id r' ∧ ∀ r, x = some r → r'.status = .running → r.numTokens < r'.numTokens →
      r'.numComputedTokens + 1 = r'.numTokens := by
  cases h with
  | absent | finished _ _ _ => cases hy
  | @untouched r hn =>
    cases hy
    have hr := hx r' rfl
    refine ⟨⟨hr.placeholders, fun hrun => (if_neg hn).mp (hr.counted hrun)⟩, ?_⟩
    intro r hr' _ hlt
    cases hr'
    exact absurd hlt (Nat.lt_irrefl _)
  | @kept _ r _ _ _ _ hin htakes =>
    cases hy
    have hr := hx r rfl
    have hcounts := fun hrun : r.status = .running =>
      htakes.counted hsync ((if_pos hin).mp (hr.counted hrun)) (hanswer hin r rfl hrun)
    refine ⟨⟨htakes.placeholders hsync hr.placeholders,
      fun hrun => (hcounts (htakes.status.symm.trans hrun)).1⟩, ?_⟩
    intro r₁ hr' hrun
    cases hr'
    exact (hcounts (htakes.status.symm.trans hrun)).2
  | @continued _ r _ _ _ _ _ _ _ _ htakes _ _ _ | @awaits _ r _ _ _ _ _ htakes _ _ =>
    cases hy
    have hzero := htakes.placeholders hsync (hx r rfl).placeholders
    refine ⟨⟨hzero, nofun⟩, fun _ _ hrun => ?_⟩
    cases hrun

theorem SpecCounts.congr {batchQueue : List SchedulerOutput} (h : SpecCounts batchQueue id r)
    (hzero : r'.numOutputPlaceholders = r.numOutputPlaceholders)
    (hrun : r'.status = .running → Counted batchQueue.head? id r') : SpecCounts batchQueue id r' :=
  ⟨hzero.trans h.placeholders, hrun⟩

theorem RequestStep.counts (hsync : cfg.asyncScheduling = false) (hinv : SpecInv e)
    (hop : op.Sequential e) (h : RequestStep cfg op e e' id (e.sched.requests.get? id) (some r')) :
    SpecCounts e'.batchQueue id r' := by
  have hcounts := hinv.counts id
  generalize hx : e.sched.requests.get? id = x at h hcounts
  generalize hy : some r' = y at h
  cases h with
  | absent | ends _ => cases hy
  | arrives hadd _ hr hid =>
    cases hy
    obtain ⟨-, hzero, hstatus⟩ := fromEngineCoreRequest_counts hr
    exact ⟨hzero, fun hrun => absurd hrun hstatus⟩
  | same hbatch =>
    cases hy
    exact hbatch ▸ hcounts _ rfl
  | queues _ hbatch _ _ _ | redrafted hbatch | compiled hbatch =>
    cases hy
    exact hbatch ▸ (hcounts _ rfl).congr rfl (hcounts _ rfl).counted
  | updates _ _ _ _ _ _ _ =>
    cases hy
    exact ⟨(hcounts _ rfl).placeholders, nofun⟩
  | scheduled hsched hbatch houtcome =>
    cases hy
    subst hsched
    have hr := hcounts _ rfl
    have hempty : e.batchQueue = [] := hop
    rw [hempty] at hr hbatch
    obtain ⟨-, -, hzero, -⟩ := houtcome.spec hsync
    rw [hbatch]
    exact ⟨hzero.trans hr.placeholders, houtcome.counted hsync hr.placeholders hr.counted⟩
  | @took mo out rest _ _ hupdate hbatch hrest houtcome =>
    subst hupdate
    obtain rfl : rest = [] := hinv.rest_eq_nil hbatch
    rw [hbatch] at hcounts
    rw [hrest]
    refine (houtcome.counts hsync hcounts (fun hin r hr => ?_) hy.symm).1
    exact (hop out (by rw [hbatch]; rfl) id hin r (hx.trans hr)).2
  | reset _ hbatch _ =>
    cases hy
    exact ⟨rfl, nofun⟩

theorem EngineStep.batchQueue_le (h : EngineStep cfg op e e') (hop : op.Sequential e)
    (hone : e.batchQueue.length ≤ 1) : e'.batchQueue.length ≤ 1 := by
  cases h with
  | schedule _ =>
    have hempty : e.batchQueue = [] := hop
    simp [hempty]
  | updateFromOutput hbatch _ =>
    rw [hbatch] at hone
    exact (Nat.le_succ _).trans hone
  | _ => exact hone

theorem EngineStep.specInv (hsync : cfg.asyncScheduling = false) (h : EngineStep cfg op e e')
    (hop : op.Sequential e) (hinv : SpecInv e) : SpecInv e' where
  queues := h.queues hop.noSessionAway hinv.queues
  one := h.batchQueue_le hop hinv.one
  counts id _ hr := RequestStep.counts hsync hinv hop (hr ▸ h.request hinv.queues id)

theorem specInv_start : SpecInv cfg.start :=
  ⟨queues_init, Nat.zero_le _, fun _ _ hr => (nomatch hr)⟩

/-! ## Requests that are no sessions -/

/-- At most one step is outstanding, no request is a session, and the model answers for the running
requests of the step. -/
def EngineOp.OneStep (op : EngineOp) (e : Engine D) : Prop :=
  match op with
  | .addRequest q => q.resumable = false
  | .schedule => e.batchQueue = []
  | .updateFromOutput mo => ∀ out ∈ e.batchQueue.head?, ∀ id ∈ out.numScheduledTokens.keys,
      ∀ r ∈ e.sched.requests.get? id, r.status = .running → AnswersOne out mo id r
  | _ => True

instance (op : EngineOp) (e : Engine D) : Decidable (op.OneStep e) := by
  rcases op <;> unfold EngineOp.OneStep <;> infer_instance

def NoSessions (e : Engine D) : Prop :=
  ∀ id r, e.sched.requests.get? id = some r → r.resumable = false

theorem EngineOp.OneStep.sequential (h : op.OneStep e) (hno : NoSessions e) : op.Sequential e := by
  cases op with
  | updateFromOutput mo =>
    exact fun out hout id hid r hr => ⟨.inr (hno id r hr), h out hout id hid r hr⟩
  | schedule => exact h
  | _ => trivial

theorem SchedConfig.UpdateOutcome.resumable {x y : Option (SchedRequest D)}
    (h : UpdateOutcome cfg out mo id x y) (hy : y = some r') :
    ∃ r, x = some r ∧ r'.resumable = r.resumable := by
  cases h with
  | absent | finished _ _ _ => cases hy
  | untouched _ =>
    cases hy
    exact ⟨_, rfl, rfl⟩
  | kept _ htakes | continued _ htakes _ _ _ | awaits _ htakes _ _ =>
    cases hy
    exact ⟨_, rfl, htakes.resumable⟩

theorem EngineStep.noSessions (hsync : cfg.asyncScheduling = false) (h : EngineStep cfg op e e')
    (hq : e.sched.Queues) (hop : op.OneStep e) (hno : NoSessions e) : NoSessions e' := by
  intro id r' hr'
  have hstep := h.request hq id
  have hid := hno id
  rw [hr'] at hstep
  generalize e.sched.requests.get? id = x at hstep hid
  generalize hy : some r' = y at hstep
  cases hstep with
  | absent | ends _ => cases hy
  | arrives hadd _ hr _ =>
    cases hy
    subst hadd
    exact (fromEngineCoreRequest_counts hr).1.trans hop
  | scheduled _ _ houtcome =>
    cases hy
    exact (houtcome.spec hsync).2.1.trans (hid _ rfl)
  | took _ _ _ houtcome =>
    obtain ⟨r, rfl, hres⟩ := houtcome.resumable hy.symm
    exact hres.trans (hid r rfl)
  | _ =>
    cases hy
    have hold := hid _ rfl
    exact hold

theorem specInv_of_run (hsync : cfg.asyncScheduling = false)
    (run : Run (EngineOp.next cfg) (fun op e => op.Returns cfg e ∧ op.OneStep e) cfg.start e) :
    SpecInv e ∧ NoSessions e :=
  run.inv (I := fun e => SpecInv e ∧ NoSessions e) ⟨specInv_start, fun _ _ hr => (nomatch hr)⟩
    fun _ _ hinv hop =>
      have hstep := engineStep_of_returns hop.1
      ⟨hstep.specInv hsync (hop.2.sequential hinv.2) hinv.1,
        hstep.noSessions hsync hinv.1.queues hop.2 hinv.2⟩

/-- After the results of a step, a running request has computed no more than its tokens, and all
but the last of them if it has got new ones. -/
def CountsSettled (s s' : Scheduler D) : Prop :=
  ∀ id r', s'.requests.get? id = some r' → r'.status = .running →
    r'.numComputedTokens ≤ r'.numTokens ∧
      ∀ r, s.requests.get? id = some r → r.numTokens < r'.numTokens →
        r'.numComputedTokens + 1 = r'.numTokens

def DraftsPlaced (s s' : Scheduler D) (out : SchedulerOutput) : Prop :=
  ∀ id n, out.numScheduledTokens.get? id = some n → ∃ r r' start,
    s.requests.get? id = some r ∧ s'.requests.get? id = some r' ∧
      DraftsLast r r' n (draftsOf out id) start

/-- With the synchronous scheduler and one step outstanding, in every state of a run the counts are
right after the results of a step, and draft tokens are scheduled only behind all known tokens. -/
theorem specCounts_of_run (hsync : cfg.asyncScheduling = false)
    (run : Run (EngineOp.next cfg) (fun op e => op.Returns cfg e ∧ op.OneStep e) cfg.start e)
    (op : EngineOp) (hreturns : op.Returns cfg e) (hop : op.OneStep e) :
    match op with
    | .updateFromOutput _ => CountsSettled e.sched (op.next cfg e).sched
    | .schedule => ∃ out, (op.next cfg e).batchQueue = [out] ∧
        DraftsPlaced e.sched (op.next cfg e).sched out
    | _ => True := by
  have hinv := (specInv_of_run hsync run).1
  have hstep := engineStep_of_returns hreturns
  generalize op.next cfg e = e' at hstep ⊢
  cases hstep with
  | @updateFromOutput mo _ s' out rest _ hbatch h =>
    intro id r' hr' hrun
    obtain rfl := hinv.rest_eq_nil hbatch
    have hcounts := hinv.counts
    rw [hbatch] at hcounts
    have houtcome := updateFromOutput_outcome hinv.queues.known h id
    have hsettled := houtcome.counts hsync (hcounts id)
      (fun hin r hr => hop out (by rw [hbatch]; rfl) id hin r hr) hr'
    exact ⟨(hsettled.1.counted hrun).le, fun r hr => hsettled.2 r hr hrun⟩
  | @schedule _ s' out h =>
    have hempty : e.batchQueue = [] := hop
    refine ⟨out, by rw [hempty]; rfl, fun id n hn => ?_⟩
    obtain ⟨σ, hemitted, hloops, -, -⟩ := schedule_eq_ok hinv.queues h
    obtain ⟨r, r', hr, hr', houtcome⟩ := hemitted.outcome_of_scheduled hloops hn
    have hcounts := hinv.counts id r hr
    rw [hempty] at hcounts
    obtain ⟨start, hdrafts⟩ := houtcome.draftsLast hsync hcounts.placeholders
      (fun hrun => (hcounts.counted hrun).le) hn
    exact ⟨r, r', start, hr, hr', hdrafts⟩
  | _ => trivial

end

def draftedStep : List EngineOp :=
  [.addRequest { requestId := "a", promptTokenIds := some [1, 2, 3] }, .schedule,
    .updateFromOutput (sampled "a" [4]), .updateDraftTokenIds (fun _ drafts => drafts) [("a", [5, 6])],
    .schedule]

theorem specCounts_of_run_accepted :
    let e := smallSched.after draftedStep
    let e' := (EngineOp.updateFromOutput (sampled "a" [5, 9])).next smallSched e
    (e.batchQueue.map fun out => (out.numScheduledTokens.entries, draftsOf out "a")) =
        [([("a", 3)], [5, 6])] ∧
      (e'.sched.requests.get? "a").map (fun r => (r.numComputedTokens, r.numTokens)) = some (5, 6) ∧
      CountsSettled e.sched e'.sched :=
  ⟨by decide +kernel, by decide +kernel, specCounts_of_run rfl (.of_allowed (by decide +kernel))
    (.updateFromOutput (sampled "a" [5, 9])) (by decide +kernel) (by decide +kernel)⟩

end Vllm
