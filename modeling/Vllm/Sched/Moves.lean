import Vllm.Core.ManagerRuns
import Vllm.Sched.Engine

/-! What one call of `schedule` can do, as a relation of small moves between the points of its
program. An invariant of the loops is proved once for every move. -/

set_option linter.unusedSectionVars false

namespace Vllm
open Base Call Relation List

section
variable {D : Type} {α : Type} {s s' : Scheduler D} {a : α}

@[simp] theorem onKv_eq_ok {m : KVCall D α} :
    onKv m s = (.ok a, s') ↔ ∃ kv, m s.kv = (.ok a, kv) ∧ s' = { s with kv } := zoom_eq_ok

@[simp] theorem onEncoder_eq_ok {m : EncoderCacheManager.EncCall α} :
    onEncoder m s = (.ok a, s') ↔ ∃ encoder, m s.encoder = (.ok a, encoder) ∧
      s' = { s with encoder } := zoom_eq_ok

@[simp] theorem requestOf_eq_ok {id : String} {r : SchedRequest D} :
    requestOf id s = (.ok r, s') ↔ s.requests.get? id = some r ∧ s' = s := by
  unfold requestOf
  simp only [bind_eq_ok, get_eq_ok]
  constructor
  · rintro ⟨_, s₁, ⟨rfl, rfl⟩, h⟩
    cases hr : s₁.requests.get? id with
    | none =>
      rw [hr] at h
      exact absurd h raise_ne_ok
    | some r' =>
      rw [hr] at h
      obtain ⟨rfl, rfl⟩ := pure_eq_ok.mp h
      exact ⟨rfl, rfl⟩
  · rintro ⟨hr, rfl⟩
    exact ⟨_, _, ⟨rfl, rfl⟩, by rw [hr]; rfl⟩

@[simp] theorem withComputed_eq_ok {r r' : SchedRequest D} {n : Int} :
    withComputed r n s = (.ok r', s') ↔
      0 ≤ n ∧ r' = { r with numComputedTokens := n.toNat } ∧ s' = s := by
  unfold withComputed
  split
  · next h => exact ⟨fun he => absurd he Call.raise_ne_ok, fun he => absurd he.1 (Int.not_le.mpr h)⟩
  · next h =>
    exact Call.pure_eq_ok.trans ⟨fun he => ⟨Int.not_lt.mp h, he⟩, fun he => he.2⟩

theorem lift_eq_ok {τ : Type} {σ σ' : Scheduler D × τ} {m : SchedCall D α} :
    (m.lift : Call PyError (Scheduler D × τ) α) σ = (.ok a, σ') ↔
      m σ.1 = (.ok a, σ'.1) ∧ σ'.2 = σ.2 := by
  obtain ⟨s, l⟩ := σ
  obtain ⟨s', l'⟩ := σ'
  exact Call.lift_eq_ok

end

namespace SchedConfig
variable {D : Type} [DecidableEq D] (cfg : SchedConfig D)

/-- The points of `schedule`: the head of the loop over `running`, a running request that is about
to get its blocks, the end of the loop, the end of the check of the adapters, the head of the loop
over the waiting requests, and the end of that loop. -/
inductive Pc (D : Type) where
  | running
  | visiting (r : SchedRequest D) (t : EncoderTrial)
  | ranAll
  | checked
  | waiting
  | leaving
  | done

/-! ## States after a move -/

def victim (s : Scheduler D) : Option String :=
  match cfg.policy with
  | .fcfs => s.running.getLast?
  | .priority => lowestPriority s s.running

def dropVictim (σ : Step D) (v : String) : Step D :=
  match cfg.policy with
  | .fcfs => ({ σ.1 with running := σ.1.running.dropLast }, σ.2)
  | .priority => ({ σ.1 with running := σ.1.running.erase v },
      if v ∈ σ.2.scheduledRunningReqs then unschedule σ.1 v σ.2 else σ.2)

def preemptedReq (r : SchedRequest D) : SchedRequest D :=
  { r with status := .preempted, numComputedTokens := 0, specTokenIds := [] }

def preempted (s : Scheduler D) (id : String) (r : SchedRequest D) (kv : KVState D) :
    Scheduler D :=
  { s.setRequest id (preemptedReq r) with
    encoder := s.encoder.free id r.mmFeatures
    waiting := cfg.policy.prependRequest s.idLt s.waiting id
    kv }

def notePreempted (v : String) (l : StepLocals) : StepLocals :=
  { l with preemptedReqs := l.preemptedReqs ++ [v] }

def bookEncoder (r : SchedRequest D) (t : EncoderTrial) (l : StepLocals) : StepLocals :=
  if t.inputs = [] then l
  else { l with
    scheduledEncoderInputs := l.scheduledEncoderInputs.set r.requestId t.inputs
    encoderComputeBudget := t.encoderComputeBudget }

def slotsRunning (t : EncoderTrial) : KVCacheConfig.SlotArgs where
  numNewTokens := t.numNewTokens
  numLookaheadTokens := cfg.numLookaheadTokens

def slotsWaiting (r : SchedRequest D) (hits : Option (List (List Nat))) (numLocal : Nat)
    (t : EncoderTrial) : KVCacheConfig.SlotArgs where
  numNewTokens := t.numNewTokens
  numNewComputedTokens := numLocal
  newComputedBlocks := hits
  numLookaheadTokens := if r.numComputedTokens = 0 then 0 else cfg.numLookaheadTokens

def admitted (s : Scheduler D) (q : WaitingQueue) (r : SchedRequest D) (numComputedTokens : Nat)
    (kv : KVState D) (encoder : EncoderCacheManager) : Scheduler D :=
  { (cfg.popQueue q s).setRequest r.requestId { r with status := .running, numComputedTokens } with
    running := s.running ++ [r.requestId], kv, encoder }

def withLoras (σ : Step D) : StepLocals :=
  match cfg.maxLoras with
  | none => σ.2
  | some _ => { σ.2 with scheduledLoras := lorasOf σ.1 σ.2.scheduledRunningReqs }

def skipped (σ : Step D) (q : WaitingQueue) (id : String) : Step D :=
  (cfg.popQueue q σ.1, { σ.2 with
    stepSkippedWaiting := cfg.policy.prependRequest σ.1.idLt σ.2.stepSkippedWaiting id })

def requeued (σ : Step D) : Step D :=
  ({ σ.1 with
    skippedWaiting :=
      cfg.policy.prependRequests σ.1.idLt σ.1.skippedWaiting σ.2.stepSkippedWaiting },
    { σ.2 with stepSkippedWaiting := [] })

def withKv (σ : Step D) (kv : KVState D) : Step D := ({ σ.1 with kv }, σ.2)

def afterPreempt (σ : Step D) (v : String) (r : SchedRequest D) (kv : KVState D) : Step D :=
  (cfg.preempted (cfg.dropVictim σ v).1 v r kv, notePreempted v (cfg.dropVictim σ v).2)

def passedBy (σ : Step D) : Step D := (σ.1, { σ.2 with reqIndex := σ.2.reqIndex + 1 })

def EncoderAllocated (r : SchedRequest D) (t : EncoderTrial)
    (m m' : EncoderCacheManager) : Prop :=
  Call.forEach (featuresOf r t.inputs) (EncoderCacheManager.allocate r.requestId) m = (.ok (), m')

/-! ## The moves -/

inductive LoopMove : Step D × Pc D → Step D × Pc D → Prop where
  | passBy {σ : Step D} {id : String} {r : SchedRequest D}
      (hid : σ.1.running[σ.2.reqIndex]? = some id) (hr : σ.1.requests.get? id = some r)
      (hmax : reachesMaxTokens r = true) :
      LoopMove (σ, .running) (passedBy σ, .running)
  | visit {σ : Step D} {id : String} {r : SchedRequest D} {t : EncoderTrial}
      {encoder : EncoderCacheManager} (hid : σ.1.running[σ.2.reqIndex]? = some id)
      (hbudget : 0 < σ.2.tokenBudget) (hr : σ.1.requests.get? id = some r)
      (hmax : reachesMaxTokens r = false)
      (ht : cfg.tryScheduleEncoderInputs r r.numComputedTokens
        (cfg.numNewRunning r σ.2.tokenBudget) σ.2.encoderComputeBudget σ.1 =
          (.ok t, { σ.1 with encoder })) :
      LoopMove (σ, .running) (({ σ.1 with encoder }, σ.2), .visiting r t)
  | giveUp {σ : Step D} {r : SchedRequest D} {t : EncoderTrial} (hn : t.numNewTokens = 0) :
      LoopMove (σ, .visiting r t) (passedBy σ, .running)
  | preempt {σ : Step D} {r rv : SchedRequest D} {t : EncoderTrial} {kv₁ kv₂ : KVState D}
      {v : String} (hn : t.numNewTokens ≠ 0)
      (halloc : cfg.kv.allocateSlots r.toRequest (cfg.slotsRunning t) σ.1.kv = (.ok none, kv₁))
      (hv : cfg.victim (withKv σ kv₁).1 = some v) (hrv : σ.1.requests.get? v = some rv)
      (hstatus : rv.status = .running) (hfree : cfg.kv.free v kv₁ = (.ok (), kv₂)) :
      LoopMove (σ, .visiting r t) (cfg.afterPreempt (withKv σ kv₁) v rv kv₂,
        if v = r.requestId then .ranAll else .visiting r t)
  | schedule {σ : Step D} {r : SchedRequest D} {t : EncoderTrial} {kv : KVState D}
      {blocks : Option (List (List Nat))} {encoder : EncoderCacheManager}
      (hn : t.numNewTokens ≠ 0)
      (halloc : cfg.kv.allocateSlots r.toRequest (cfg.slotsRunning t) σ.1.kv =
        (.ok (some blocks), kv))
      (henc : EncoderAllocated r t σ.1.encoder encoder) :
      LoopMove (σ, .visiting r t)
        (({ σ.1.setRequest r.requestId { r with specTokenIds := [] } with kv, encoder },
          bookEncoder r t (recordRunning r t.numNewTokens blocks σ.2)), .running)
  | endRunning {σ : Step D} (h : σ.1.running.length ≤ σ.2.reqIndex ∨ σ.2.tokenBudget ≤ 0) :
      LoopMove (σ, .running) (σ, .ranAll)
  | checkLoras {σ : Step D}
      (h : ∀ maxLoras, cfg.maxLoras = some maxLoras →
        (lorasOf σ.1 σ.2.scheduledRunningReqs).length ≤ maxLoras) :
      LoopMove (σ, .ranAll) ((σ.1, cfg.withLoras σ), .checked)
  | startWaiting {σ : Step D} (hp : σ.2.preemptedReqs = []) (hu : σ.1.pauseState = .unpaused) :
      LoopMove (σ, .checked) (σ, .waiting)
  | noWaiting {σ : Step D} : LoopMove (σ, .checked) (σ, .done)
  | promote {σ : Step D} {id : String} {r : SchedRequest D} (hr : σ.1.requests.get? id = some r)
      (hstatus : r.status = .waitingForFsm) :
      LoopMove (σ, .waiting) ((σ.1.setRequest r.requestId { r with status := .waiting }, σ.2),
        .waiting)
  | skip {σ : Step D} {q : WaitingQueue} {id : String} {rest : List String}
      (hq : queue σ.1 q = id :: rest)
      (hfirst : cfg.policy = .fcfs → q = .waiting → σ.1.skippedWaiting = []) :
      LoopMove (σ, .waiting) (cfg.skipped σ q id, .waiting)
  | refuse {σ : Step D} {q : WaitingQueue} {id : String} {rest : List String}
      {r : SchedRequest D} {hits : Option (List (List Nat))} {numLocal c : Nat}
      {t : EncoderTrial} {encoder : EncoderCacheManager} {kv : KVState D}
      (hq : queue σ.1 q = id :: rest) (hr : σ.1.requests.get? id = some r)
      (hhits : cfg.computedTokens r σ.1 = (.ok (hits, numLocal, c), σ.1))
      (ht : cfg.tryScheduleEncoderInputs r c
        (min (cfg.numNewWaiting r c) σ.2.tokenBudget) σ.2.encoderComputeBudget σ.1 =
          (.ok t, { σ.1 with encoder }))
      (hn : t.numNewTokens ≠ 0)
      (halloc : cfg.kv.allocateSlots r.toRequest (cfg.slotsWaiting r hits numLocal t) σ.1.kv =
        (.ok none, kv)) :
      LoopMove (σ, .waiting)
        (({ σ.1 with encoder := encoder.free r.requestId r.mmFeatures, kv }, σ.2), .leaving)
  | hold {σ : Step D} {q : WaitingQueue} {id : String} {rest : List String}
      {r : SchedRequest D} {c : Nat} {t : EncoderTrial} {encoder : EncoderCacheManager}
      (hq : queue σ.1 q = id :: rest) (hr : σ.1.requests.get? id = some r)
      (ht : cfg.tryScheduleEncoderInputs r c
        (min (cfg.numNewWaiting r c) σ.2.tokenBudget) σ.2.encoderComputeBudget σ.1 =
          (.ok t, { σ.1 with encoder })) (hn : t.numNewTokens = 0) :
      LoopMove (σ, .waiting) (({ σ.1 with encoder }, σ.2), .leaving)
  | place {σ : Step D} {q : WaitingQueue} {id : String} {rest : List String}
      {r : SchedRequest D} {hits : Option (List (List Nat))} {numLocal c : Nat}
      {t : EncoderTrial} {encoder₁ encoder₂ : EncoderCacheManager} {kv : KVState D}
      {blocks : Option (List (List Nat))}
      (hbudget : 0 < σ.2.tokenBudget) (hroom : σ.1.running.length ≠ cfg.maxNumRunningReqs)
      (hq : queue σ.1 q = id :: rest) (hr : σ.1.requests.get? id = some r)
      (hstatus : r.status = .waiting ∨ r.status = .preempted)
      (hlora : cfg.exceedsMaxLoras r σ.2.scheduledLoras = false)
      (hhits : cfg.computedTokens r σ.1 = (.ok (hits, numLocal, c), σ.1))
      (hpos : 0 < min (cfg.numNewWaiting r c) σ.2.tokenBudget)
      (ht : cfg.tryScheduleEncoderInputs r c
        (min (cfg.numNewWaiting r c) σ.2.tokenBudget) σ.2.encoderComputeBudget σ.1 =
          (.ok t, { σ.1 with encoder := encoder₁ }))
      (hn : t.numNewTokens ≠ 0)
      (halloc : cfg.kv.allocateSlots r.toRequest (cfg.slotsWaiting r hits numLocal t) σ.1.kv =
        (.ok (some blocks), kv))
      (henc : EncoderAllocated r t encoder₁ encoder₂)
      (hfirst : cfg.policy = .fcfs → q = .waiting → σ.1.skippedWaiting = []) :
      LoopMove (σ, .waiting)
        ((cfg.admitted σ.1 q r c kv encoder₂,
          bookEncoder r t (cfg.recordWaiting r t.numNewTokens
            (cfg.blocksOf { σ.1 with kv } r.requestId) σ.2)), .waiting)
  | leave {σ : Step D} : LoopMove (σ, .waiting) (σ, .leaving)
  | requeue {σ : Step D} :
      LoopMove (σ, .leaving) (cfg.requeued σ, .done)

/-! ## The parts of a turn -/

section
variable {cfg} {s s' : Scheduler D} {σ σ' : Step D}

variable {id v : String} {u : Unit} {r : SchedRequest D} {t : EncoderTrial} {fuel : Nat}
  {goOn : Bool} {q : WaitingQueue} {rest : List String}

theorem preemptRequest_eq_ok (h : cfg.preemptRequest id s = (.ok u, s')) :
    ∃ r kv, s.requests.get? id = some r ∧ r.status = .running ∧
      cfg.kv.free id s.kv = (.ok (), kv) ∧ s' = cfg.preempted s id r kv := by
  simp only [preemptRequest, bind_eq_ok, requestOf_eq_ok, check_eq_ok, onKv_eq_ok,
    modify_eq_ok] at h
  obtain ⟨r, _, ⟨hr, rfl⟩, _, _, ⟨hs, rfl⟩, _, _, ⟨kv, hkv, rfl⟩, rfl⟩ := h
  exact ⟨r, kv, hr, by simpa using hs, hkv, rfl⟩

theorem takeVictim_eq_ok (h : cfg.takeVictim σ = (.ok v, σ')) :
    cfg.victim σ.1 = some v ∧ σ' = cfg.dropVictim σ v := by
  rw [takeVictim, get_bind] at h
  unfold victim dropVictim
  cases hp : cfg.policy with
  | fcfs =>
    simp only [hp] at h ⊢
    cases hv : σ.1.running.getLast? with
    | none => simp only [hv, raise_ne_ok] at h
    | some id =>
      simp only [hv] at h
      obtain ⟨rfl, rfl⟩ := h
      exact ⟨rfl, rfl⟩
  | priority =>
    simp only [hp] at h ⊢
    cases hv : lowestPriority σ.1 σ.1.running with
    | none => simp only [hv, raise_ne_ok] at h
    | some id =>
      simp only [hv] at h
      obtain ⟨rfl, rfl⟩ := h
      exact ⟨rfl, rfl⟩

theorem allocateEncoderInputs_eq_ok (h : allocateEncoderInputs r t σ = (.ok u, σ')) :
    ∃ encoder, EncoderAllocated r t σ.1.encoder encoder ∧
      σ' = ({ σ.1 with encoder }, bookEncoder r t σ.2) := by
  unfold allocateEncoderInputs at h
  unfold EncoderAllocated bookEncoder
  split at h
  · next hnil =>
    obtain ⟨-, rfl⟩ := pure_eq_ok.mp h
    exact ⟨σ'.1.encoder, by simp [featuresOf, hnil, Call.forEach], by rw [if_pos hnil]⟩
  · next hne =>
    simp only [modifyLocals, bind_eq_ok, modify_eq_ok, lift_eq_ok, onEncoder_eq_ok] at h
    obtain ⟨_, _, rfl, _, τ, ⟨⟨encoder, henc, hτ⟩, hτ'⟩, rfl⟩ := h
    exact ⟨encoder, henc, by rw [if_neg hne, hτ, hτ']⟩

theorem tryScheduleEncoderInputs_eq_ok {c n b : Int}
    (h : cfg.tryScheduleEncoderInputs r c n b s = (.ok t, s')) :
    ∃ encoder, s' = { s with encoder } := by
  unfold tryScheduleEncoderInputs at h
  split at h
  · exact ⟨s.encoder, (pure_eq_ok.mp h).2⟩
  · obtain ⟨encoder, -, rfl⟩ := onEncoder_eq_ok.mp h
    exact ⟨encoder, rfl⟩

theorem computedTokens_eq_ok {x : Option (List (List Nat)) × Nat × Nat}
    (h : cfg.computedTokens r s = (.ok x, s')) : s' = s := by
  unfold computedTokens at h
  split at h
  · simp only [bind_eq_ok, onKv_eq_ok, check_eq_ok] at h
    obtain ⟨_, _, ⟨kv, hkv, rfl⟩, _, _, ⟨-, rfl⟩, -, rfl⟩ := h
    rw [((getComputedBlocks_spec _ _ _).ok rfl hkv).1]
  · exact (pure_eq_ok.mp h).2

/-! ## Running requests -/

def remaining (σ : Step D) : Nat := σ.1.running.length - σ.2.reqIndex

theorem lowestPriority_mem {ids : List String} (h : lowestPriority s ids = some v) : v ∈ ids := by
  induction ids generalizing v with
  | nil => cases h
  | cons id ids ih =>
    simp only [lowestPriority] at h
    split at h
    · cases h
      exact mem_cons_self
    · next other hother =>
      have hmem : v = other ∨ v = id := by
        split at h
        · split at h
          · exact .inl (Option.some.inj h).symm
          · exact .inr (Option.some.inj h).symm
        · exact .inr (Option.some.inj h).symm
      rcases hmem with rfl | rfl
      · exact mem_cons_of_mem _ (ih hother)
      · exact mem_cons_self

theorem victim_mem {v : String} (h : cfg.victim s = some v) : v ∈ s.running := by
  unfold victim at h
  split at h
  · exact mem_of_getLast? h
  · exact lowestPriority_mem h

theorem remaining_dropVictim {v : String} (hv : v ∈ σ.1.running) :
    remaining (cfg.dropVictim σ v) ≤ remaining σ := by
  unfold remaining dropVictim
  split
  · simp only [length_dropLast]
    omega
  · simp only [length_erase_of_mem hv]
    split
    · simp only [unschedule]
      omega
    · omega

@[simp] theorem requests_dropVictim : (cfg.dropVictim σ v).1.requests = σ.1.requests := by
  unfold dropVictim
  split <;> rfl

@[simp] theorem encoder_dropVictim : (cfg.dropVictim σ v).1.encoder = σ.1.encoder := by
  unfold dropVictim
  split <;> rfl

@[simp] theorem kv_dropVictim : (cfg.dropVictim σ v).1.kv = σ.1.kv := by
  unfold dropVictim
  split <;> rfl

def Preempts (cfg : SchedConfig D) (r : SchedRequest D) (t : EncoderTrial) (σ σ' : Step D) : Prop :=
  LoopMove cfg (σ, .visiting r t) (σ', .visiting r t)

theorem moves_of_preempts (h : ReflTransGen (Preempts cfg r t) σ σ') :
    ReflTransGen (LoopMove cfg) (σ, .visiting r t) (σ', .visiting r t) :=
  h.lift (fun σ => (σ, Pc.visiting r t)) fun _ _ hmove => hmove

theorem allocateOrPreempt_moves (hn : t.numNewTokens ≠ 0) {res : Option (Option (List (List Nat)))}
    (h : cfg.allocateOrPreempt r t.numNewTokens fuel σ = (.ok res, σ')) :
    match res with
    | none => ReflTransGen (LoopMove cfg) (σ, .visiting r t) (σ', .ranAll)
    | some blocks => ∃ τ kv, ReflTransGen (Preempts cfg r t) σ τ ∧
        cfg.kv.allocateSlots r.toRequest (cfg.slotsRunning t) τ.1.kv = (.ok (some blocks), kv) ∧
        σ' = ({ τ.1 with kv }, τ.2) ∧ remaining τ ≤ remaining σ := by
  induction fuel generalizing σ with
  | zero => exact absurd h raise_ne_ok
  | succ fuel ih =>
    simp only [allocateOrPreempt, bind_eq_ok, lift_eq_ok, onKv_eq_ok] at h
    obtain ⟨newBlocks, τ, ⟨⟨kv, halloc, hτ⟩, hτ'⟩, h⟩ := h
    have hτ : τ = ({ σ.1 with kv }, σ.2) := Prod.ext hτ hτ'
    subst hτ
    cases newBlocks with
    | some blocks =>
      obtain ⟨rfl, rfl⟩ := pure_eq_ok.mp h
      exact ⟨σ, kv, .refl, halloc, rfl, Nat.le_refl _⟩
    | none =>
      simp only [bind_eq_ok, lift_eq_ok, modifyLocals, modify_eq_ok] at h
      obtain ⟨v, τ, htake, _, ρ, ⟨hpre, hρ⟩, _, _, rfl, h⟩ := h
      obtain ⟨hv, rfl⟩ := takeVictim_eq_ok htake
      obtain ⟨rv, kv₂, hrv, hstatus, hfree, hρ'⟩ := preemptRequest_eq_ok hpre
      rw [requests_dropVictim] at hrv
      rw [kv_dropVictim] at hfree
      have hmove := LoopMove.preempt hn halloc hv hrv hstatus hfree
      have hρ : (ρ.1, notePreempted v ρ.2) = cfg.afterPreempt (withKv σ kv) v rv kv₂ := by
        rw [hρ, hρ']
        rfl
      have hle : remaining (cfg.afterPreempt (withKv σ kv) v rv kv₂) ≤ remaining σ :=
        @remaining_dropVictim _ _ cfg (withKv σ kv) _ (victim_mem hv)
      change (if v = r.requestId then pure none else cfg.allocateOrPreempt r t.numNewTokens fuel)
        (ρ.1, notePreempted v ρ.2) = _ at h
      rw [hρ] at h
      by_cases hself : v = r.requestId
      · rw [if_pos hself] at h hmove
        obtain ⟨rfl, rfl⟩ := pure_eq_ok.mp h
        exact .single hmove
      · rw [if_neg hself] at h hmove
        have hrest := ih h
        cases res with
        | none => exact .head hmove hrest
        | some blocks =>
          obtain ⟨τ, kv', hmoves, halloc', hσ', hτ⟩ := hrest
          exact ⟨τ, kv', .head hmove hmoves, halloc', hσ', hτ.trans hle⟩

theorem remaining_passedBy (hid : σ.1.running[σ.2.reqIndex]? = some id) :
    remaining (passedBy σ) < remaining σ := by
  have := (List.getElem?_eq_some_iff.mp hid).1
  simp only [remaining, passedBy]
  omega

theorem reqIndex_recordRunning (r : SchedRequest D) (t : EncoderTrial)
    (blocks : Option (List (List Nat))) (l : StepLocals) :
    (bookEncoder r t (recordRunning r t.numNewTokens blocks l)).reqIndex = l.reqIndex + 1 := by
  unfold bookEncoder
  split <;> rfl

inductive Turn (cfg : SchedConfig D) (id : String) (σ σ' : Step D) : Prop where
  | passBy {r : SchedRequest D} (hr : σ.1.requests.get? id = some r)
      (hmove : LoopMove cfg (σ, .running) (σ', .running))
  | visit {r : SchedRequest D} {t : EncoderTrial} {τ : Step D} (encoder : EncoderCacheManager)
      (hr : σ.1.requests.get? id = some r)
      (hvisit : LoopMove cfg (σ, .running) (({ σ.1 with encoder }, σ.2), .visiting r t))
      (hpreempts : ReflTransGen (Preempts cfg r t) ({ σ.1 with encoder }, σ.2) τ)
      (hmove : LoopMove cfg (τ, .visiting r t) (σ', .running))

theorem Turn.moves (h : Turn cfg id σ σ') :
    ReflTransGen (LoopMove cfg) (σ, .running) (σ', .running) := by
  cases h with
  | passBy _ hmove => exact .single hmove
  | visit _ _ hvisit hpreempts hmove =>
    exact .head hvisit ((moves_of_preempts hpreempts).tail hmove)

theorem visitRunning_moves (hid : σ.1.running[σ.2.reqIndex]? = some id)
    (hbudget : 0 < σ.2.tokenBudget) (h : cfg.visitRunning id σ = (.ok goOn, σ')) :
    if goOn then Turn cfg id σ σ' ∧ remaining σ' < remaining σ
    else ReflTransGen (LoopMove cfg) (σ, .running) (σ', .ranAll) := by
  simp only [visitRunning, bind_eq_ok, lift_eq_ok, requestOf_eq_ok] at h
  obtain ⟨r, τ, ⟨⟨hr, hτ⟩, hτ'⟩, h⟩ := h
  obtain rfl : τ = σ := Prod.ext hτ hτ'
  split at h
  · next hmax =>
    obtain ⟨rfl, rfl⟩ := h
    exact ⟨.passBy hr (.passBy hid hr hmax), remaining_passedBy hid⟩
  · next hmax =>
    simp only [bind_eq_ok, lift_eq_ok] at h
    obtain ⟨_, τ, ⟨rfl, rfl⟩, t, ρ, ⟨ht, hρ'⟩, h⟩ := h
    obtain ⟨encoder, hρ⟩ := tryScheduleEncoderInputs_eq_ok ht
    obtain rfl : ρ = ({ τ.1 with encoder }, τ.2) := Prod.ext hρ hρ'
    have hvisit := LoopMove.visit hid hbudget hr (by simpa using hmax) ht
    split at h
    · next hn =>
      obtain ⟨rfl, rfl⟩ := h
      exact ⟨.visit encoder hr hvisit .refl (.giveUp hn), remaining_passedBy hid⟩
    · next hn =>
      simp only [bind_eq_ok] at h
      obtain ⟨_, _, ⟨rfl, rfl⟩, newBlocks, ω, halloc, h⟩ := h
      have hmoves := allocateOrPreempt_moves hn halloc
      cases newBlocks with
      | none =>
        obtain ⟨rfl, rfl⟩ := pure_eq_ok.mp h
        exact .head hvisit hmoves
      | some blocks =>
        obtain ⟨υ, kv, hmoves, hblocks, rfl, hle⟩ := hmoves
        simp only [scheduleRunning, bind_eq_ok, modify_eq_ok] at h
        obtain ⟨_, _, ⟨_, _, rfl, henc⟩, rfl, rfl⟩ := h
        obtain ⟨encoder', henc', rfl⟩ := allocateEncoderInputs_eq_ok henc
        refine ⟨.visit encoder hr hvisit hmoves (.schedule hn hblocks henc'), ?_⟩
        have hpos : 0 < remaining τ := by
          have := (List.getElem?_eq_some_iff.mp hid).1
          simp only [remaining]
          omega
        simp only [remaining, reqIndex_recordRunning] at hle hpos ⊢
        change υ.1.running.length - (υ.2.reqIndex + 1) < _
        omega

theorem runningLoop_moves (hfuel : remaining σ ≤ fuel) (h : cfg.runningLoop fuel σ = (.ok u, σ')) :
    ReflTransGen (LoopMove cfg) (σ, .running) (σ', .ranAll) := by
  induction fuel generalizing σ with
  | zero =>
    obtain ⟨-, rfl⟩ := pure_eq_ok.mp h
    exact .single (.endRunning (.inl (Nat.sub_eq_zero_iff_le.mp (Nat.le_zero.mp hfuel))))
  | succ fuel ih =>
    rw [runningLoop, get_bind] at h
    cases hid : σ.1.running[σ.2.reqIndex]? with
    | none =>
      simp only [hid] at h
      obtain ⟨-, rfl⟩ := pure_eq_ok.mp h
      exact .single (.endRunning (.inl (List.getElem?_eq_none_iff.mp hid)))
    | some id =>
      simp only [hid] at h
      split at h
      · next hbudget =>
        simp only [bind_eq_ok] at h
        obtain ⟨goOn, τ, hvisit, h⟩ := h
        have hmoves := visitRunning_moves hid hbudget hvisit
        cases goOn with
        | true => exact hmoves.1.moves.trans (ih (Nat.le_of_lt_succ (hmoves.2.trans_le hfuel)) h)
        | false =>
          obtain ⟨-, rfl⟩ := pure_eq_ok.mp h
          exact hmoves
      · next hbudget =>
        obtain ⟨-, rfl⟩ := pure_eq_ok.mp h
        exact .single (.endRunning (.inr (Int.not_lt.mp hbudget)))

/-! ## Waiting requests -/

theorem tryPromote_eq_ok {ready : Bool} (h : tryPromote r s = (.ok ready, s')) :
    s' = s ∨ r.status = .waitingForFsm ∧
      s' = s.setRequest r.requestId { r with status := .waiting } := by
  unfold tryPromote at h
  cases hstatus : r.status with
  | waitingForFsm =>
    simp only [hstatus] at h
    split at h
    · simp only [setRequest, modify_pure_eq_ok] at h
      obtain ⟨-, rfl⟩ := h
      exact .inr ⟨rfl, rfl⟩
    · exact .inl (pure_eq_ok.mp h).2
  | waitingForStreamingReq =>
    simp only [hstatus, bind_eq_ok, check_eq_ok, pure_eq_ok] at h
    obtain ⟨_, _, ⟨-, rfl⟩, -, rfl⟩ := h
    exact .inl rfl
  | _ =>
    simp only [hstatus] at h
    exact .inl (pure_eq_ok.mp h).2

section
variable (hbudget : 0 < σ.2.tokenBudget) (hroom : σ.1.running.length ≠ cfg.maxNumRunningReqs)
  (hq : queue σ.1 q = id :: rest)
include hbudget hroom hq

section
variable (hr : σ.1.requests.get? id = some r)
    (hlora : cfg.exceedsMaxLoras r σ.2.scheduledLoras = false)
include hr hlora

theorem placeWaiting_moves {hits : Option (List (List Nat))} {numLocal c : Nat}
    {encoder : EncoderCacheManager}
    (hhits : cfg.computedTokens r σ.1 = (.ok (hits, numLocal, c), σ.1))
    (hpos : 0 < min (cfg.numNewWaiting r c) σ.2.tokenBudget)
    (ht : cfg.tryScheduleEncoderInputs r c (min (cfg.numNewWaiting r c) σ.2.tokenBudget) σ.2.encoderComputeBudget σ.1 = (.ok t, { σ.1 with encoder }))
    (hn : t.numNewTokens ≠ 0) (hfirst : cfg.policy = .fcfs → q = .waiting → σ.1.skippedWaiting = [])
    (h : cfg.placeWaiting q r hits numLocal c t ({ σ.1 with encoder }, σ.2) = (.ok goOn, σ')) :
    ReflTransGen (LoopMove cfg) (σ, .waiting) (σ', if goOn then .waiting else .leaving) := by
  simp only [placeWaiting, bind_eq_ok, lift_eq_ok, onKv_eq_ok] at h
  obtain ⟨newBlocks, τ, ⟨⟨kv, halloc, hτ⟩, hτ'⟩, h⟩ := h
  obtain rfl : τ = ({ σ.1 with encoder, kv }, σ.2) := Prod.ext hτ hτ'
  cases newBlocks with
  | none =>
    simp only [bind_eq_ok, lift_eq_ok, onEncoder_eq_ok, modify_eq_ok, pure_eq_ok] at h
    obtain ⟨_, ρ, ⟨⟨_, rfl, hρ⟩, hρ'⟩, rfl, rfl⟩ := h
    have hmove := LoopMove.refuse hq hr hhits ht hn halloc
    rw [show σ' = ({ σ.1 with encoder := encoder.free r.requestId r.mmFeatures, kv }, σ.2) from
      Prod.ext hρ hρ']
    exact .single hmove
  | some blocks =>
    simp only [scheduleWaiting, bind_eq_ok, modify_eq_ok, check_eq_ok, pure_eq_ok] at h
    obtain ⟨_, _, ⟨_, _, rfl, _, _, ⟨hstatus, rfl⟩, _, _, rfl, henc⟩, rfl, rfl⟩ := h
    obtain ⟨encoder', henc', rfl⟩ := allocateEncoderInputs_eq_ok henc
    have hmove := LoopMove.place hbudget hroom hq hr (by simpa using hstatus) hlora hhits hpos ht hn
      halloc (by cases q <;> exact henc') hfirst
    cases q <;> exact .single hmove

theorem considerWaiting_moves (hfirst : cfg.policy = .fcfs → q = .waiting → σ.1.skippedWaiting = [])
    (h : cfg.considerWaiting q r σ = (.ok goOn, σ')) :
    ReflTransGen (LoopMove cfg) (σ, .waiting) (σ', if goOn then .waiting else .leaving) := by
  simp only [considerWaiting, bind_eq_ok, lift_eq_ok, gets_eq_ok] at h
  obtain ⟨⟨hits, numLocal, c⟩, τ, ⟨hhits, hτ'⟩, _, ρ, ⟨rfl, rfl⟩, h⟩ := h
  obtain rfl : ρ = σ := Prod.ext (computedTokens_eq_ok hhits) hτ'
  split at h
  · obtain ⟨rfl, rfl⟩ := pure_eq_ok.mp h
    exact .single .leave
  · simp only [bind_eq_ok, check_eq_ok, lift_eq_ok] at h
    obtain ⟨_, υ, ⟨hpos, rfl⟩, t, ω, ⟨ht, hω'⟩, h⟩ := h
    obtain ⟨encoder, hω⟩ := tryScheduleEncoderInputs_eq_ok ht
    obtain rfl : ω = ({ υ.1 with encoder }, υ.2) := Prod.ext hω hω'
    split at h
    · next hn =>
      obtain ⟨rfl, rfl⟩ := pure_eq_ok.mp h
      exact .single (.hold hq hr ht hn)
    · next hn =>
      exact placeWaiting_moves hbudget hroom hq hr hlora hhits (by simpa using hpos) ht hn
        hfirst h

end

theorem visitWaiting_moves (hfirst : cfg.policy = .fcfs → q = .waiting → σ.1.skippedWaiting = [])
    (h : cfg.visitWaiting q id σ = (.ok goOn, σ')) :
    ReflTransGen (LoopMove cfg) (σ, .waiting) (σ', if goOn then .waiting else .leaving) := by
  simp only [visitWaiting, bind_eq_ok, lift_eq_ok, requestOf_eq_ok, gets_eq_ok] at h
  obtain ⟨r, τ, ⟨⟨hr, hτ⟩, hτ'⟩, ready, ρ, ⟨hready, hρ'⟩, _, ω, ⟨rfl, rfl⟩, h⟩ := h
  obtain rfl : τ = σ := Prod.ext hτ hτ'
  -- the try to promote the request leaves everything but the status alone
  obtain ⟨hmoves, hq', hfirst', hrun, hloras⟩ :
      ReflTransGen (LoopMove cfg) (τ, .waiting) (ω, .waiting) ∧ queue ω.1 q = id :: rest ∧
      (cfg.policy = .fcfs → q = .waiting → ω.1.skippedWaiting = []) ∧ ω.1.running = τ.1.running ∧
      ∀ r', ω.1.requests.get? id = some r' → r'.loraIntId = r.loraIntId := by
    rcases tryPromote_eq_ok hready with hω | ⟨hstatus, hω⟩
    · obtain rfl : ω = τ := Prod.ext hω hρ'
      exact ⟨.refl, hq, hfirst, rfl, fun r' hr' => by rw [Option.some.inj (hr.symm.trans hr')]⟩
    · obtain rfl : ω = (τ.1.setRequest r.requestId { r with status := .waiting }, τ.2) :=
        Prod.ext hω hρ'
      refine ⟨.single (.promote hr hstatus), by cases q <;> exact hq, hfirst, rfl,
        fun r' hr' => ?_⟩
      simp only [Scheduler.setRequest, Dict.get?_set] at hr'
      split at hr'
      · rw [← Option.some.inj hr']
      · rw [Option.some.inj (hr.symm.trans hr')]
  refine hmoves.trans ?_
  split at h
  · simp only [skipWaiting] at h
    obtain ⟨rfl, rfl⟩ := h
    exact .single (.skip hq' hfirst')
  · next hgo =>
    simp only [bind_eq_ok, lift_eq_ok, requestOf_eq_ok] at h
    obtain ⟨r', υ, ⟨⟨hr', hυ⟩, hυ'⟩, h⟩ := h
    obtain rfl : υ = ω := Prod.ext hυ hυ'
    have hlora : cfg.exceedsMaxLoras r' υ.2.scheduledLoras = false := by
      have hr := hloras r' hr'
      unfold exceedsMaxLoras at hgo ⊢
      rw [hr]
      simp only [Bool.or_eq_true, not_or] at hgo
      exact Bool.eq_false_iff.mpr hgo.2
    exact considerWaiting_moves (hρ' ▸ hbudget) (hrun ▸ hroom) hq' hr' hlora hfirst' h

end

theorem skippedWaiting_nil (s : Scheduler D) (hpolicy : cfg.policy = .fcfs)
    (hq : cfg.selectWaitingQueueForScheduling s = .waiting) : s.skippedWaiting = [] := by
  by_contra hne
  rw [selectWaitingQueueForScheduling, hpolicy] at hq
  cases (if_pos hne).symm.trans hq

theorem waitingLoop_moves (h : cfg.waitingLoop fuel σ = (.ok u, σ')) :
    ReflTransGen (LoopMove cfg) (σ, .waiting) (σ', .leaving) := by
  induction fuel generalizing σ with
  | zero =>
    obtain ⟨-, rfl⟩ := pure_eq_ok.mp h
    exact .single .leave
  | succ fuel ih =>
    rw [waitingLoop, get_bind] at h
    cases hq : queue σ.1 (cfg.selectWaitingQueueForScheduling σ.1) with
    | nil =>
      simp only [hq] at h
      obtain ⟨-, rfl⟩ := pure_eq_ok.mp h
      exact .single .leave
    | cons id rest =>
      simp only [hq] at h
      split at h
      · next hgo =>
        simp only [bind_eq_ok] at h
        obtain ⟨goOn, τ, hvisit, h⟩ := h
        have hmoves := visitWaiting_moves hgo.1 hgo.2 hq (skippedWaiting_nil σ.1) hvisit
        cases goOn with
        | true => exact hmoves.trans (ih h)
        | false =>
          obtain ⟨-, rfl⟩ := pure_eq_ok.mp h
          exact hmoves
      · obtain ⟨-, rfl⟩ := pure_eq_ok.mp h
        exact .single .leave

/-! ## The loops together -/

theorem recordLoras_moves (h : cfg.recordLoras σ = (.ok u, σ')) :
    LoopMove cfg (σ, .ranAll) (σ', .checked) := by
  rw [recordLoras, get_bind] at h
  cases hmax : cfg.maxLoras with
  | none =>
    simp only [hmax] at h
    obtain ⟨-, rfl⟩ := pure_eq_ok.mp h
    have hmove := @LoopMove.checkLoras _ _ cfg σ' (by simp [hmax])
    simpa only [withLoras, hmax] using hmove
  | some maxLoras =>
    simp only [hmax, modifyLocals, bind_eq_ok, modify_eq_ok, check_eq_ok] at h
    obtain ⟨_, _, rfl, hlen, rfl⟩ := h
    have hmove := @LoopMove.checkLoras _ _ cfg σ (by simpa [hmax] using hlen)
    simpa only [withLoras, hmax] using hmove

def begin (cfg : SchedConfig D) (s : Scheduler D) : Step D :=
  ({ s with kv := (KVCacheConfig.newStepStarts s.kv).2 }, cfg.initLocals s)

theorem scheduleLoops_moves (h : cfg.scheduleLoops (s, cfg.initLocals s) = (.ok u, σ')) :
    ReflTransGen (LoopMove cfg) (cfg.begin s, .running) (σ', .done) := by
  simp only [scheduleLoops, bind_eq_ok, lift_eq_ok, onKv_eq_ok, gets_eq_ok] at h
  obtain ⟨_, τ, ⟨⟨kv, hkv, hτ⟩, hτ'⟩, _, ρ, ⟨rfl, rfl⟩, _, ω, hrun, _, υ, hloras, h⟩ := h
  obtain rfl : ρ = cfg.begin s := by
    refine Prod.ext (hτ.trans ?_) hτ'
    rw [begin, hkv]
  refine (runningLoop_moves (Nat.sub_le _ _) hrun).trans (.head (recordLoras_moves hloras) ?_)
  simp only [scheduleWaitingRequests, bind_eq_ok] at h
  obtain ⟨_, υ, ⟨rfl, rfl⟩, h⟩ := h
  split at h
  · next hgo =>
    simp only [requeueSkipped, bind_eq_ok, modify_eq_ok] at h
    obtain ⟨_, ν, hloop, rfl⟩ := h
    exact .head (.startWaiting hgo.1 hgo.2) ((waitingLoop_moves hloop).tail .requeue)
  · obtain ⟨-, rfl⟩ := pure_eq_ok.mp h
    exact .single .noWaiting

end

end SchedConfig
end Vllm
