import Vllm.Sched.Loops

/-! What `schedule` leaves: the moves of its loops, its output, and every scheduled request advanced
past its tokens. -/

set_option linter.unusedSectionVars false

namespace Vllm
open Base Dict Call Relation List

def GivesUp (m m' : EncoderCacheManager) : Prop :=
  ∃ id f, m' = EncoderCacheManager.freeEncoderInput id m f

theorem givesUp_foldl {id : String} (fs : List MultiModalFeatureSpec) (m : EncoderCacheManager) :
    ReflTransGen GivesUp m (fs.foldl (EncoderCacheManager.freeEncoderInput id) m) := by
  induction fs generalizing m with
  | nil => exact .refl
  | cons f fs ih => exact .head ⟨id, f, rfl⟩ (ih _)

/-! ## Loops over requests -/

section
variable {D β : Type} {key : β → String} {g : β → SchedRequest D → SchedRequest D}

structure Changes (id : String) (g : SchedRequest D → SchedRequest D) (s s' : Scheduler D) : Prop where
  get : ∃ r, s.requests.get? id = some r ∧ s'.requests.get? id = some (g r)
  others : ∀ id', id' ≠ id → s'.requests.get? id' = s.requests.get? id'
  awaiting : s'.requests.sum awaits = s.requests.sum awaits
  encoder : ReflTransGen GivesUp s.encoder s'.encoder
  frame : s' = { s with requests := s'.requests, encoder := s'.encoder }

structure ChangesEach (key : β → String) (g : β → SchedRequest D → SchedRequest D) (xs : List β)
    (s s' : Scheduler D) : Prop where
  get : ∀ x ∈ xs, ∃ r, s.requests.get? (key x) = some r ∧ s'.requests.get? (key x) = some (g x r)
  others : ∀ id, id ∉ xs.map key → s'.requests.get? id = s.requests.get? id
  awaiting : s'.requests.sum awaits = s.requests.sum awaits
  encoder : ReflTransGen GivesUp s.encoder s'.encoder
  frame : s' = { s with requests := s'.requests, encoder := s'.encoder }

def KeepsId (g : SchedRequest D → SchedRequest D) : Prop :=
  ∀ r, (g r).requestId = r.requestId ∧ (g r).status = r.status ∧ (g r).resumable = r.resumable

variable {s s' : Scheduler D}

theorem Changes.known {id : String} {g : SchedRequest D → SchedRequest D} (h : Changes id g s s')
    (hg : KeepsId g) (hknown : Known s.requests) : Known s'.requests := by
  intro id' r' hr'
  by_cases heq : id' = id
  · subst heq
    obtain ⟨r, hr, hgr⟩ := h.get
    obtain rfl := Option.some.inj (hr'.symm.trans hgr)
    obtain ⟨hid, hstatus, hres⟩ := hg r
    exact ⟨hid.trans (hknown id' r hr).1, (hknown id' r hr).2.congr hstatus hres⟩
  · exact hknown id' r' ((h.others id' heq).symm.trans hr')

theorem changesEach_of_forEach {f : β → SchedCall D Unit} {xs : List β} {u : Unit}
    (hg : ∀ x, KeepsId (g x))
    (hstep : ∀ x s s', Known s.requests → f x s = (.ok (), s') → Changes (key x) (g x) s s')
    (hknown : Known s.requests) (hnodup : (xs.map key).Nodup)
    (h : Call.forEach xs f s = (.ok u, s')) : ChangesEach key g xs s s' ∧ Known s'.requests := by
  induction xs generalizing s with
  | nil =>
    obtain ⟨-, rfl⟩ := pure_eq_ok.mp h
    exact ⟨⟨nofun, fun _ _ => rfl, rfl, .refl, rfl⟩, hknown⟩
  | cons x xs ih =>
    obtain ⟨_, s₁, hx, h⟩ := bind_eq_ok.mp h
    rw [map_cons, nodup_cons] at hnodup
    have hfirst := hstep x s s₁ hknown hx
    obtain ⟨hrest, hknown'⟩ := ih (hfirst.known (hg x) hknown) hnodup.2 h
    refine ⟨⟨fun y hy => ?_, fun id hid => ?_, hrest.awaiting.trans hfirst.awaiting,
      hfirst.encoder.trans hrest.encoder, ?_⟩, hknown'⟩
    · rcases mem_cons.mp hy with rfl | hy
      · obtain ⟨r, hr, hr'⟩ := hfirst.get
        exact ⟨r, hr, (hrest.others _ hnodup.1).trans hr'⟩
      · obtain ⟨r, hr, hr'⟩ := hrest.get y hy
        have hne : key y ≠ key x := fun heq => hnodup.1 (heq ▸ mem_map.mpr ⟨y, hy, rfl⟩)
        exact ⟨r, (hfirst.others _ hne).symm.trans hr, hr'⟩
    · rw [map_cons, mem_cons, not_or] at hid
      exact (hrest.others id hid.2).trans (hfirst.others id hid.1)
    · rw [hrest.frame, hfirst.frame]

theorem ChangesEach.rel {R : SchedRequest D → SchedRequest D → Prop} {xs : List β}
    (h : ChangesEach key g xs s s') (hrefl : ∀ r, R r r) (hg : ∀ x r, R r (g x r)) (id : String) :
    Option.Rel R (s.requests.get? id) (s'.requests.get? id) := by
  by_cases hid : id ∈ xs.map key
  · obtain ⟨x, hx, rfl⟩ := mem_map.mp hid
    obtain ⟨r, hr, hr'⟩ := h.get x hx
    rw [hr, hr']
    exact .some (hg x r)
  · rw [h.others id hid]
    exact optionRel_refl hrefl _

end

namespace SchedConfig
variable {D : Type} [DecidableEq D] (cfg : SchedConfig D)

/-! ## After the loops -/

def computed (n : Int) (r : SchedRequest D) : SchedRequest D :=
  let c : Nat := (r.numComputedTokens + n).toNat
  { r with
    numComputedTokens := c
    isPrefillChunk := decide ((c : Int) < r.numTokens + r.numOutputPlaceholders) }

/-- The asynchronous scheduler adds placeholders for the tokens that the step will sample. -/
def withPlaceholders (numDrafts : Nat) (r : SchedRequest D) : SchedRequest D :=
  if r.isPrefillChunk then r
  else { r with
    numOutputPlaceholders := r.numOutputPlaceholders + 1 + numDrafts
    specTokenIds := List.replicate cfg.numSpecTokens (-1) }

def advanced (n : Int) (numDrafts : Nat) (r : SchedRequest D) : SchedRequest D :=
  if cfg.asyncScheduling then cfg.withPlaceholders numDrafts (computed n r) else computed n r

section
variable {cfg} {s s' : Scheduler D} {out : SchedulerOutput}

variable {u : Unit}

theorem advance_changes {id : String} {n : Int} (h : advance id n s = (.ok u, s')) :
    Changes id (computed n) s s' := by
  rw [advance, get_bind] at h
  cases hr : s.requests.get? id with
  | none => simp only [hr, raise_ne_ok] at h
  | some r =>
    simp only [hr, bind_eq_ok, withComputed_eq_ok, modify_eq_ok] at h
    obtain ⟨_, _, ⟨-, rfl, rfl⟩, rfl⟩ := h
    refine ⟨⟨r, hr, get?_set_self _ _ _⟩, fun id' hne => get?_set_of_ne _ _ hne,
      sum_set_of_eq hr ?_, givesUp_foldl _ _, rfl⟩
    rfl

theorem addPlaceholders_changes {drafts : Dict String (List Token)} {id : String}
    (hkey : ∀ r, s.requests.get? id = some r → r.requestId = id)
    (h : cfg.addPlaceholders drafts id s = (.ok u, s')) :
    Changes id (cfg.withPlaceholders ((drafts.get? id).getD []).length) s s' := by
  rw [addPlaceholders, get_bind] at h
  cases hr : s.requests.get? id with
  | none => simp only [hr, raise_ne_ok] at h
  | some r =>
    simp only [hr] at h
    split at h
    · next hchunk =>
      obtain ⟨-, rfl⟩ := pure_eq_ok.mp h
      refine ⟨⟨r, hr, ?_⟩, fun _ _ => rfl, rfl, .refl, rfl⟩
      rw [hr, withPlaceholders, if_pos hchunk]
    · next hchunk =>
      obtain rfl := modify_eq_ok.mp h
      obtain rfl := hkey r hr
      refine ⟨⟨r, hr, ?_⟩, fun id' hne => get?_set_of_ne _ _ hne,
        sum_set_of_eq hr ?_, .refl, rfl⟩
      · rw [withPlaceholders, if_neg hchunk]
        exact get?_set_self _ _ _
      · rfl

theorem keepsId_computed (n : Int) : KeepsId (computed n : SchedRequest D → SchedRequest D) :=
  fun _ => ⟨rfl, rfl, rfl⟩

theorem keepsId_withPlaceholders (n : Nat) : KeepsId (cfg.withPlaceholders n) := by
  intro r
  unfold withPlaceholders
  split <;> exact ⟨rfl, rfl, rfl⟩

theorem updateAfterSchedule_eq_ok (hknown : Known s.requests)
    (h : cfg.updateAfterSchedule out s = (.ok u, s')) :
    ChangesEach Prod.fst (fun e => cfg.advanced e.2
        ((out.scheduledSpecDecodeTokens.get? e.1).getD []).length)
      out.numScheduledTokens.entries { s with finishedReqIds := [] } s' ∧ Known s'.requests := by
  simp only [updateAfterSchedule, bind_eq_ok, modify_eq_ok] at h
  obtain ⟨_, s₁, hadvance, _, s₂, rfl, h⟩ := h
  have hadvances : ∀ (e : String × Int) (s s' : Scheduler D), Known s.requests →
      advance e.1 e.2 s = (.ok (), s') → Changes e.1 (computed e.2) s s' :=
    fun _ _ _ _ hx => advance_changes hx
  obtain ⟨hfirst, hknown₁⟩ := changesEach_of_forEach (fun e => keepsId_computed e.2) hadvances hknown out.numScheduledTokens.nodup hadvance
  split at h
  · next hasync =>
    have hsteps : ∀ id (s s' : Scheduler D), Known s.requests →
        cfg.addPlaceholders out.scheduledSpecDecodeTokens id s = (.ok (), s') →
        Changes id (cfg.withPlaceholders
          ((out.scheduledSpecDecodeTokens.get? id).getD []).length) s s' :=
      fun id _ _ hk hx => addPlaceholders_changes (fun r hr => (hk id r hr).1) hx
    obtain ⟨hsecond, hknown₂⟩ := changesEach_of_forEach (fun _ => keepsId_withPlaceholders _)
      hsteps (s := { s₁ with finishedReqIds := [] }) hknown₁
      (by simpa using out.numScheduledTokens.keys_nodup) h
    refine ⟨⟨fun e he => ?_, fun id hid => ?_, hsecond.awaiting.trans hfirst.awaiting,
      hfirst.encoder.trans hsecond.encoder, ?_⟩, hknown₂⟩
    · obtain ⟨r, hr, hr₁⟩ := hfirst.get e he
      obtain ⟨r₁, hr₁', hr₂⟩ := hsecond.get e.1 (mem_map.mpr ⟨e, he, rfl⟩)
      obtain rfl := Option.some.inj (hr₁.symm.trans hr₁')
      refine ⟨r, hr, hr₂.trans ?_⟩
      rw [advanced, if_pos hasync]
    · exact (hsecond.others id (by simpa [Dict.keys] using hid)).trans (hfirst.others id hid)
    · rw [hsecond.frame, hfirst.frame]
  · next hsync =>
    obtain ⟨-, rfl⟩ := pure_eq_ok.mp h
    refine ⟨⟨fun e he => ?_, hfirst.others, hfirst.awaiting, hfirst.encoder, ?_⟩, hknown₁⟩
    · obtain ⟨r, hr, hr₁⟩ := hfirst.get e he
      refine ⟨r, hr, hr₁.trans ?_⟩
      rw [advanced, if_neg hsync]
    · rw [hfirst.frame]

end

/-! ## The output -/

def newRequestData (σ : Step D) (id : String) (r : SchedRequest D) : NewRequestData where
  reqId := id
  promptTokenIds := r.promptTokenIds
  mmFeatures := r.mmFeatures
  blockIds := cfg.newBlockIds σ.2 id
  numComputedTokens := r.numComputedTokens

def cachedRequest (σ : Step D) (resumed : Bool) (id : String) (r : SchedRequest D) :
    CachedRequest where
  reqId := id
  resumed := resumed
  newTokenIds := cfg.newTokenIds σ.2 r
  allTokenIds := if id ∈ σ.1.prevStepScheduledReqIds then none else some r.allTokenIds
  newBlockIds := (σ.2.reqToNewBlocks.get? id).getD none
  numComputedTokens := r.numComputedTokens
  numOutputTokens := r.numOutputTokens + r.numOutputPlaceholders

structure OutputOf (σ : Step D) (out : SchedulerOutput) : Prop where
  newReqs : List.Forall₂ (fun id e => ∃ r, σ.1.requests.get? id = some r ∧
    e = cfg.newRequestData σ id r) σ.2.scheduledNewReqs out.scheduledNewReqs
  cachedReqs : ∃ runningReqs resumedReqs,
    out.scheduledCachedReqs = runningReqs ++ resumedReqs ∧
    List.Forall₂ (fun id e => ∃ r, σ.1.requests.get? id = some r ∧
      e = cfg.cachedRequest σ false id r) σ.2.scheduledRunningReqs runningReqs ∧
    List.Forall₂ (fun id e => ∃ r, σ.1.requests.get? id = some r ∧
      id ∉ σ.1.prevStepScheduledReqIds ∧ e = cfg.cachedRequest σ true id r)
      σ.2.scheduledResumedReqs resumedReqs
  scheduled : out.numScheduledTokens = σ.2.numScheduledTokens
  drafts : out.scheduledSpecDecodeTokens = σ.2.scheduledSpecDecodeTokens
  encoderInputs : out.scheduledEncoderInputs = σ.2.scheduledEncoderInputs
  preempted : out.preemptedReqIds = σ.2.preemptedReqs
  finished : out.finishedReqIds = σ.1.finishedReqIds
  freed : out.freeEncoderMmHashes = σ.1.encoder.freed

def sent (σ : Step D) : Scheduler D :=
  { σ.1 with
    prevStepScheduledReqIds := σ.2.numScheduledTokens.keys
    encoder := { σ.1.encoder with freed := [] }
    finishedReqIds := [] }

structure Emitted (s : Scheduler D) (σ : Step D) (out : SchedulerOutput) (s' : Scheduler D) :
    Prop where
  moves : ReflTransGen (LoopMove cfg) (cfg.begin s, .running) (σ, .done)
  output : OutputOf cfg σ out
  advanced : ChangesEach Prod.fst (fun e => cfg.advanced e.2
    ((out.scheduledSpecDecodeTokens.get? e.1).getD []).length)
    out.numScheduledTokens.entries (sent σ) s'

structure Constraints (σ : Step D) : Prop where
  total : (σ.2.numScheduledTokens.entries.map Prod.snd).sum ≤ cfg.maxNumScheduledTokens
  budget : 0 ≤ σ.2.tokenBudget
  running : σ.1.running.length ≤ cfg.maxNumRunningReqs

section
variable {cfg} {s s' : Scheduler D} {σ σ' : Step D} {out : SchedulerOutput}

theorem makeNewRequestData_eq_ok {id : String} {e : NewRequestData}
    (h : cfg.makeNewRequestData σ.2 id σ.1 = (.ok e, s')) :
    s' = σ.1 ∧ ∃ r, σ.1.requests.get? id = some r ∧ e = cfg.newRequestData σ id r := by
  simp only [makeNewRequestData, bind_eq_ok, requestOf_eq_ok] at h
  obtain ⟨r, _, ⟨hr, rfl⟩, rfl, rfl⟩ := h
  exact ⟨rfl, r, hr, rfl⟩

theorem makeCachedRequest_eq_ok {resumed : Bool} {id : String} {e : CachedRequest}
    (h : cfg.makeCachedRequest σ.2 resumed id σ.1 = (.ok e, s')) :
    s' = σ.1 ∧ ∃ r, σ.1.requests.get? id = some r ∧
      (resumed = true → id ∉ σ.1.prevStepScheduledReqIds) ∧
      e = cfg.cachedRequest σ resumed id r := by
  simp only [makeCachedRequest, bind_eq_ok, requestOf_eq_ok, gets_eq_ok,
    check_eq_ok, pure_eq_ok] at h
  obtain ⟨r, _, ⟨hr, rfl⟩, _, _, ⟨rfl, rfl⟩, _, _, ⟨hprev, rfl⟩, rfl, rfl⟩ := h
  refine ⟨rfl, r, hr, fun hres => ?_, ?_⟩
  · simpa [hres] using hprev
  · simp [cachedRequest]

theorem makeOutput_eq_ok (h : cfg.makeOutput σ.2 σ.1 = (.ok out, s')) :
    OutputOf cfg σ out ∧ { s' with finishedReqIds := [] } = sent σ ∧
      s'.requests = σ.1.requests := by
  simp only [makeOutput, bind_eq_ok, get_eq_ok, modify_eq_ok, pure_eq_ok] at h
  obtain ⟨newReqs, s₁, hnew, runningReqs, s₂, hrun, resumedReqs, s₃, hres, _, s₄, ⟨rfl, rfl⟩, _, _,
    rfl, rfl, rfl⟩ := h
  obtain ⟨rfl, hnew'⟩ := mapEach_ok
    (fun id e s₁ => @makeNewRequestData_eq_ok _ _ cfg s₁ σ id e) hnew
  obtain ⟨rfl, hrun'⟩ := mapEach_ok
    (fun id e s₁ => @makeCachedRequest_eq_ok _ _ cfg s₁ σ false id e) hrun
  obtain ⟨rfl, hres'⟩ := mapEach_ok
    (fun id e s₁ => @makeCachedRequest_eq_ok _ _ cfg s₁ σ true id e) hres
  refine ⟨⟨hnew', ⟨runningReqs, resumedReqs, rfl, ?_, ?_⟩, rfl, rfl, rfl, rfl, rfl, rfl⟩, rfl, rfl⟩
  · exact hrun'.imp fun _ _ h => h.imp fun r hr => ⟨hr.1, hr.2.2⟩
  · exact hres'.imp fun _ _ h => h.imp fun r hr => ⟨hr.1, hr.2.1 rfl, hr.2.2⟩

theorem schedule_eq_ok (hq : s.Queues) (h : cfg.schedule s = (.ok out, s')) :
    ∃ σ, Emitted cfg s σ out s' ∧ LoopInv cfg s σ .done ∧ Known s'.requests ∧
      Constraints cfg σ := by
  simp only [schedule, bind_eq_ok, get_eq_ok, withLocal_eq_ok, checkConstraints,
    check_eq_ok, Vllm.lift_eq_ok, pure_eq_ok] at h
  obtain ⟨_, s, ⟨rfl, rfl⟩, t, _, σ, hloops, _, τ, ⟨rfl, rfl⟩, _, _, ⟨_, _, ⟨htotal, rfl⟩, _, _,
    ⟨hbudget, rfl⟩, _, _, ⟨hrunning, rfl⟩, -, rfl⟩, _, ρ, ⟨hout, hρ⟩, _, ω, ⟨hupdate, hω⟩, rfl,
    hst⟩ := h
  have hmoves := scheduleLoops_moves hloops
  have hinv := loops_inv hmoves hq.begin
  obtain ⟨houtput, hsent, hreqs⟩ := makeOutput_eq_ok hout
  obtain ⟨hchanges, hknown⟩ := updateAfterSchedule_eq_ok (hreqs ▸ hinv.known) hupdate
  cases hst
  rw [hsent] at hchanges
  exact ⟨_, ⟨hmoves, houtput, hchanges⟩, hinv, hknown, by simpa using htotal, by simpa using hbudget,
    by simpa using hrunning⟩

end

/-! ## What the step does with each request -/

inductive Outcome (out : SchedulerOutput) (id : String) (r : SchedRequest D) :
    SchedRequest D → Prop where
  | kept (hn : out.numScheduledTokens.get? id = none)
      (hd : out.scheduledSpecDecodeTokens.get? id = none) : Outcome out id r r
  | ran {n b : Int} (hrun : r.status = .running) (hmax : reachesMaxTokens r = false)
      (hb : 0 < b) (hfit : Fitted (cfg.numNewRunning r b) n) (hne : n ≠ 0)
      (hn : out.numScheduledTokens.get? id = some n)
      (hd : out.scheduledSpecDecodeTokens.get? id =
        if scheduledDrafts r n = [] then none else some (scheduledDrafts r n)) :
      Outcome out id r
        (cfg.advanced n (scheduledDrafts r n).length { r with specTokenIds := [] })
  | preempted (hrun : r.status = .running) (hn : out.numScheduledTokens.get? id = none)
      (hd : out.scheduledSpecDecodeTokens.get? id = none) : Outcome out id r (preemptedReq r)
  | promoted (hfsm : r.status = .waitingForFsm) (hn : out.numScheduledTokens.get? id = none)
      (hd : out.scheduledSpecDecodeTokens.get? id = none) :
      Outcome out id r { r with status := .waiting }
  | placed {c : Nat} {n b : Int}
      (hstatus : r.status = .preempted ∨ r.status = .waiting ∨ r.status = .waitingForFsm)
      (hc : r.numComputedTokens ≠ 0 → c = r.numComputedTokens) (hb : 0 < b)
      (hpos : 0 < cfg.numNewWaiting r c) (hfit : Fitted (min (cfg.numNewWaiting r c) b) n)
      (hne : n ≠ 0) (hn : out.numScheduledTokens.get? id = some n)
      (hd : out.scheduledSpecDecodeTokens.get? id = none) :
      Outcome out id r (cfg.advanced n 0 { r with status := .running, numComputedTokens := c })

section
variable {cfg} {s s' : Scheduler D} {σ : Step D} {out : SchedulerOutput} {id : String}
  {r₀ r : SchedRequest D}

theorem Emitted.get?_of_none (h : Emitted cfg s σ out s')
    (hn : out.numScheduledTokens.get? id = none) :
    s'.requests.get? id = σ.1.requests.get? id :=
  h.advanced.others id fun hm => get?_eq_none_iff.mp hn hm

variable {n : Int}

theorem Emitted.get?_of_some (h : Emitted cfg s σ out s')
    (hn : out.numScheduledTokens.get? id = some n) (hr : σ.1.requests.get? id = some r) :
    s'.requests.get? id = some (cfg.advanced n
      ((out.scheduledSpecDecodeTokens.get? id).getD []).length r) := by
  obtain ⟨r', hr', hadv⟩ := h.advanced.get (id, n) (get?_eq_some_iff.mp hn)
  obtain rfl := Option.some.inj (hr.symm.trans hr')
  exact hadv

theorem Emitted.outcome (h : Emitted cfg s σ out s') (hinv : LoopInv cfg s σ .done) (id : String) :
    Option.Rel (Outcome cfg out id) (s.requests.get? id) (s'.requests.get? id) := by
  have hnum := h.output.scheduled
  have hdraft := h.output.drafts
  have hrel := hinv.fate id
  cases hr : σ.1.requests.get? id with
  | none =>
    have hn : out.numScheduledTokens.get? id = none := by
      cases hnum' : out.numScheduledTokens.get? id with
      | none => rfl
      | some n =>
        obtain ⟨r, hr', -⟩ := h.advanced.get (id, n) (get?_eq_some_iff.mp hnum')
        cases hr.symm.trans hr'
    rw [hr] at hrel
    rw [h.get?_of_none hn, hr]
    generalize s.requests.get? id = x at hrel ⊢
    cases hrel
    exact .none
  | some r =>
    rw [hr] at hrel
    generalize s.requests.get? id = x at hrel ⊢
    cases hrel with
    | @some r₀ _ hfate =>
    cases hfate with
    | kept hn hd =>
      rw [← hnum] at hn
      rw [← hdraft] at hd
      rw [h.get?_of_none hn, hr]
      exact .some (.kept hn hd)
    | @ran n b hrun hmax hb hfit hne _ hn hd =>
      rw [← hnum] at hn
      rw [← hdraft] at hd
      have hlen : ((out.scheduledSpecDecodeTokens.get? id).getD []).length =
          (scheduledDrafts r₀ n).length := by
        rw [hd]
        split
        · next hnil => rw [hnil]; rfl
        · rfl
      rw [h.get?_of_some hn hr, hlen]
      exact .some (.ran hrun hmax hb hfit hne hn hd)
    | preempted hrun _ hn hd =>
      rw [← hnum] at hn
      rw [← hdraft] at hd
      rw [h.get?_of_none hn, hr]
      exact .some (.preempted hrun hn hd)
    | promoted hfsm hn hd =>
      rw [← hnum] at hn
      rw [← hdraft] at hd
      rw [h.get?_of_none hn, hr]
      exact .some (.promoted hfsm hn hd)
    | placed hstatus hc hb hpos hfit hne hn hd =>
      rw [← hnum] at hn
      rw [← hdraft] at hd
      rw [h.get?_of_some hn hr, hd]
      exact .some (.placed (hstatus.imp And.left And.left) hc hb hpos hfit hne hn hd)

theorem Emitted.outcome_of_scheduled (h : Emitted cfg s σ out s') (hinv : LoopInv cfg s σ .done)
    (hn : out.numScheduledTokens.get? id = some n) :
    ∃ r r', s.requests.get? id = some r ∧ s'.requests.get? id = some r' ∧
      Outcome cfg out id r r' := by
  obtain ⟨_, -, hr'⟩ := h.advanced.get (id, n) (get?_eq_some_iff.mp hn)
  obtain ⟨r, hr, houtcome⟩ := exists_of_rel_some (h.outcome hinv id) hr'
  exact ⟨r, _, hr, hr', houtcome⟩

theorem advanced_status {k : Nat} : (cfg.advanced n k r).status = r.status := by
  unfold advanced withPlaceholders computed
  repeat' split
  all_goals rfl

theorem advanced_eq (cfg : SchedConfig D) (n : Int) (k : Nat) (r : SchedRequest D) :
    ∃ p c spec chunk, cfg.advanced n k r = { r with
      numOutputPlaceholders := p, numComputedTokens := c, specTokenIds := spec
      isPrefillChunk := chunk } := by
  unfold advanced withPlaceholders computed
  split
  · split <;> exact ⟨_, _, _, _, rfl⟩
  · exact ⟨_, _, _, _, rfl⟩

theorem Outcome.frame {r' : SchedRequest D} (h : Outcome cfg out id r r') :
    ∃ status p c spec chunk, r' = { r with
        status, numOutputPlaceholders := p, numComputedTokens := c, specTokenIds := spec
        isPrefillChunk := chunk } ∧
      (status = .waitingForStreamingReq ↔ r.status = .waitingForStreamingReq) := by
  cases h with
  | kept _ _ => exact ⟨_, _, _, _, _, rfl, Iff.rfl⟩
  | @ran n _ hrun _ _ _ _ _ _ =>
    obtain ⟨p, c, spec, chunk, he⟩ := advanced_eq cfg n (scheduledDrafts r n).length
      { r with specTokenIds := [] }
    exact ⟨r.status, p, c, spec, chunk, he, Iff.rfl⟩
  | preempted hrun _ _ =>
    exact ⟨.preempted, _, _, _, _, rfl, by simp [hrun]⟩
  | promoted hfsm _ _ => exact ⟨.waiting, _, _, _, _, rfl, by simp [hfsm]⟩
  | @placed c n _ hstatus _ _ _ _ _ _ _ =>
    obtain ⟨p, c', spec, chunk, he⟩ := advanced_eq cfg n 0
      { r with status := .running, numComputedTokens := c }
    refine ⟨.running, p, c', spec, chunk, he, ?_⟩
    rcases hstatus with h | h | h <;> simp [h]

theorem Emitted.queues (hq : s.Queues) (h : Emitted cfg s σ out s') (hinv : LoopInv cfg s σ .done)
    (hknown : Known s'.requests) : s'.Queues := by
  have hframe := h.advanced.frame
  have hskipped : σ.2.stepSkippedWaiting = [] := hinv.atPc
  have hqueued := hinv.queued
  rw [hskipped, append_nil] at hqueued
  refine ⟨hknown, ?_, ?_⟩
  · rw [hframe]
    refine hqueued.congr fun id => ?_
    refine h.advanced.rel (R := fun r r' => r'.status = .running ↔ r.status = .running)
      (fun _ => Iff.rfl) (fun e r => ?_) id
    rw [advanced_status]
  · rw [h.advanced.awaiting, hframe]
    exact (hinv.awaitingInput.trans hq.awaiting).trans (congrArg _ hinv.awaiting.symm)

end

end SchedConfig
end Vllm
