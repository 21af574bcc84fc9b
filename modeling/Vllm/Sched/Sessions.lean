import Vllm.Sched.Lengths

/-! Streaming sessions and the length of the model. Every input of a session is checked alone when
it arrives, but the session grows: the bound holds as long as every input finds room behind what
has been computed before it. -/

set_option linter.unusedSectionVars false

namespace Vllm
open Base Relation SchedConfig

variable {D : Type} [DecidableEq D]

/-! ## Numbers of new tokens -/

section
variable {cfg : SchedConfig D} {r : SchedRequest D} {b : Int}

section
variable (cfg : SchedConfig D)

theorem capByThreshold_pos {n : Int} (h : 0 < n) : 0 < cfg.capByThreshold n := by
  unfold capByThreshold
  split <;> omega

/-- A running request that has not computed all its tokens asks for at least one, up to the last
position but one. -/
theorem numNewRunning_cases (hzero : r.numOutputPlaceholders = 0)
    (hlt : r.numComputedTokens < r.numTokens) (hb : 0 < b) :
    0 < cfg.numNewRunning r b ∨
      cfg.numNewRunning r b = cfg.kv.maxModelLen - 1 - r.numComputedTokens := by
  have hspec : (r.numTokensWithSpec : Int) = r.numTokens + r.specTokenIds.length :=
    Int.natCast_add _ _
  have hdemand : 0 < (r.numTokensWithSpec : Int) + r.numOutputPlaceholders - r.numComputedTokens := by
    omega
  have hcap := capByThreshold_pos cfg hdemand
  dsimp only [numNewRunning]
  omega

theorem numNewRunning_le_room (r : SchedRequest D) (b : Int) :
    cfg.numNewRunning r b ≤ cfg.kv.maxModelLen - 1 - r.numComputedTokens := by
  dsimp only [numNewRunning]
  omega

end

end

/-! ## Calls of `allocate_slots` -/

inductive SlotCall (cfg : SchedConfig D) : Step D × Pc D → Int → Prop where
  | running {σ : Step D} {r : SchedRequest D} {t : EncoderTrial} (hn : t.numNewTokens ≠ 0) :
      SlotCall cfg (σ, .visiting r t) t.numNewTokens
  | waiting {σ : Step D} {id : String} {r : SchedRequest D} {c : Nat} {t : EncoderTrial}
      {s : Scheduler D} (hr : σ.1.requests.get? id = some r)
      (hpos : 0 < min (cfg.numNewWaiting r c) σ.2.tokenBudget)
      (ht : cfg.tryScheduleEncoderInputs r c (min (cfg.numNewWaiting r c) σ.2.tokenBudget)
        σ.2.encoderComputeBudget σ.1 = (.ok t, s)) (hn : t.numNewTokens ≠ 0) :
      SlotCall cfg (σ, .waiting) t.numNewTokens

/-! ## Runs -/

structure LengthInv (cfg : SchedConfig D) (e : Engine D) : Prop where
  spec : SpecInv e
  bounded : ∀ id r, e.sched.requests.get? id = some r → Bounded cfg.kv.maxModelLen r

section
variable {cfg : SchedConfig D} {e e' : Engine D} {op : EngineOp} {id : String}

theorem EngineStep.lengthInv (hsync : cfg.asyncScheduling = false) (h : EngineStep cfg op e e')
    (hop : op.Sequential e) (hroom : op.LeavesRoom cfg.kv.maxModelLen e)
    (hinv : LengthInv cfg e) : LengthInv cfg e' where
  spec := h.specInv hsync hop hinv.spec
  bounded id _ hr := RequestStep.bounded hsync hinv.spec.queues hop hroom (hinv.bounded id)
    (hr ▸ h.request hinv.spec.queues id)

theorem lengthInv_of_run (hsync : cfg.asyncScheduling = false)
    (run : Run (EngineOp.next cfg) (fun op e => op.Returns cfg e ∧ op.Sequential e ∧
      op.LeavesRoom cfg.kv.maxModelLen e) cfg.start e) : LengthInv cfg e :=
  run.inv ⟨specInv_start, fun _ _ hr => (nomatch hr)⟩ fun _ _ hinv hop =>
    (engineStep_of_returns hop.1).lengthInv hsync hop.2.1 hop.2.2 hinv

theorem LengthInv.scheduled (hinv : LengthInv cfg e) (hsync : cfg.asyncScheduling = false)
    (hidle : e.batchQueue = []) {out : SchedulerOutput} {s : Scheduler D} {n : Int}
    (h : cfg.schedule e.sched = (.ok out, s)) (hn : out.numScheduledTokens.get? id = some n) :
    0 < n ∧ ∃ r, s.requests.get? id = some r ∧ r.numComputedTokens ≤ cfg.kv.maxModelLen := by
  obtain ⟨σ, hemitted, hloops, -, -⟩ := schedule_eq_ok hinv.spec.queues h
  obtain ⟨r, r', hr, hr', houtcome⟩ := hemitted.outcome_of_scheduled hloops hn
  have hcounts := hinv.spec.counts id r hr
  have hbound := hinv.bounded id r hr
  rw [hidle] at hcounts
  cases houtcome with
  | kept hn' _ | preempted _ hn' _ | promoted _ hn' _ => cases hn.symm.trans hn'
  | @ran n' b hrun _ hb hfit hne hn' _ =>
    obtain rfl := Option.some.inj (hn.symm.trans hn')
    have hlt : r.numComputedTokens < r.numTokens := hcounts.counted hrun
    have hcases := numNewRunning_cases cfg hcounts.placeholders hlt hb
    have hle := numNewRunning_le_room cfg r b
    have hM := hbound.le
    have hpos : 0 < n := by
      rcases hfit with rfl | rfl | ⟨hpos, -⟩
      · omega
      · exact absurd rfl hne
      · exact hpos
    refine ⟨hpos, _, hr', ?_⟩
    rw [advanced_sync hsync]
    change (r.numComputedTokens + n).toNat ≤ _
    have := hfit.le hne
    omega
  | @placed c n' b _ _ hb hpos hfit hne hn' _ =>
    obtain rfl := Option.some.inj (hn.symm.trans hn')
    have hle := hfit.le hne
    have hcap := capByThreshold_le cfg ((r.numTokens : Int) - c)
    have hM := hbound.le
    refine ⟨hfit.pos hne (by omega), _, hr', ?_⟩
    rw [advanced_sync hsync]
    change (c + n).toNat ≤ _
    unfold numNewWaiting at hle
    omega

theorem LengthInv.slotCall_pos (hinv : LengthInv cfg e) (hidle : e.batchQueue = []) {σ : Step D}
    {pc : Pc D} {n : Int}
    (hmoves : ReflTransGen (LoopMove cfg) (cfg.begin e.sched, .running) (σ, pc))
    (h : SlotCall cfg (σ, pc) n) : 0 < n := by
  have hloops := loops_inv hmoves hinv.spec.queues.begin
  cases h with
  | @running _ r t hn =>
    obtain ⟨hnone, hget, hahead, hmax, b, hb, hfit⟩ := hloops.atPc
    obtain ⟨r₀, hr, hfate⟩ := exists_of_rel_some (hloops.fate r.requestId) hget
    obtain ⟨rfl, hrun, -, -⟩ := hloops.fate_visited hfate
    have hcounts := hinv.spec.counts _ _ hr
    have hM := (hinv.bounded _ _ hr).le
    rw [hidle] at hcounts
    have hlt : r₀.numComputedTokens < r₀.numTokens := hcounts.counted hrun
    have hcases := numNewRunning_cases cfg hcounts.placeholders hlt hb
    rcases hfit with he | he | ⟨hpos, -⟩
    · omega
    · exact absurd he hn
    · exact hpos
  | waiting _ hpos ht hn => exact (tryScheduleEncoderInputs_fitted ht).pos hn hpos

/-- As long as every input leaves room for the least output, no request gets longer than the model
allows, none is scheduled past that, and `allocate_slots` is only called for new tokens. -/
theorem sessionLengths_of_run (hsync : cfg.asyncScheduling = false)
    (run : Run (EngineOp.next cfg) (fun op e => op.Returns cfg e ∧ op.Sequential e ∧
      op.LeavesRoom cfg.kv.maxModelLen e) cfg.start e) :
    (∀ id r, e.sched.requests.get? id = some r → r.numTokens ≤ cfg.kv.maxModelLen) ∧
      (e.batchQueue = [] → ∀ out s, cfg.schedule e.sched = (.ok out, s) →
        ∀ id n, out.numScheduledTokens.get? id = some n → 0 < n ∧
          ∃ r, s.requests.get? id = some r ∧ r.numComputedTokens ≤ cfg.kv.maxModelLen) ∧
      (e.batchQueue = [] → ∀ σ pc n,
        ReflTransGen (LoopMove cfg) (cfg.begin e.sched, .running) (σ, pc) →
          SlotCall cfg (σ, pc) n → 0 < n) := by
  have hinv := lengthInv_of_run hsync run
  exact ⟨fun id r hr => (hinv.bounded id r hr).le,
    fun hidle _ _ h _ _ hn => hinv.scheduled hsync hidle h hn,
    fun hidle _ _ _ hmoves h => hinv.slotCall_pos hidle hmoves h⟩

end

/-! ## A session that gets too long -/

def roomySched : SchedConfig HashTerm := { smallSched with kv := fullGroup 15 8 }

def shortSession : List EngineOp :=
  [.addRequest (sessionInput "a" [1, 2, 3]), .schedule, .addRequest (sessionInput "a" [4, 5]),
    .updateFromOutput (sampled "a" [0]), .schedule]

theorem sessionLengths_of_run_two_inputs :
    ((roomySched.after shortSession).sched.requests.get? "a").map
        (fun r => (r.numTokens, r.numComputedTokens)) = some (5, 5) ∧
      ∀ id r, (roomySched.after shortSession).sched.requests.get? id = some r →
        r.numTokens ≤ roomySched.kv.maxModelLen :=
  ⟨by decide +kernel, (@sessionLengths_of_run _ _ roomySched (roomySched.after shortSession) rfl
    (.of_allowed (by decide +kernel))).1⟩

def longSession : List EngineOp :=
  [.addRequest (sessionInput "a" [1, 2, 3, 4, 5]), .schedule,
    .addRequest (sessionInput "a" [6, 7, 8, 9, 10]), .updateFromOutput (sampled "a" [0]), .schedule]

theorem longSession_exceeds :
    Run (EngineOp.next roomySched) (fun op e => op.Returns roomySched e) roomySched.start
        (roomySched.after longSession) ∧
      ((roomySched.after longSession).sched.requests.get? "a").map
        (fun r => (r.numTokens, r.numComputedTokens)) = some (10, 10) ∧
      roomySched.kv.maxModelLen = 8 :=
  ⟨.of_allowed (by decide +kernel), by decide +kernel, rfl⟩

end Vllm
