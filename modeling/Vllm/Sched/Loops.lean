import Vllm.Base.Filed
import Vllm.Sched.Moves

/-! What the loops of `schedule` keep: every request stays in one queue, and what the step has done
with a request so far can be told from the variables of the step. -/

set_option linter.unusedSectionVars false

namespace Vllm
open Base Dict Call Relation List EncoderCacheManager

section
variable {D : Type}

structure SchedRequest.Live (r : SchedRequest D) : Prop where
  unfinished : r.isFinished = false
  session : r.status = .waitingForStreamingReq → r.resumable = true

theorem SchedRequest.Live.congr {r r' : SchedRequest D} (h : r.Live)
    (hstatus : r'.status = r.status) (hres : r'.resumable = r.resumable) : r'.Live where
  unfinished := (congrArg RequestStatus.isFinished hstatus).trans h.unfinished
  session hs := hres.trans (h.session (hstatus.symm.trans hs))

def Known (d : Dict String (SchedRequest D)) : Prop :=
  ∀ id r, d.get? id = some r → r.requestId = id ∧ r.Live

variable {d : Dict String (SchedRequest D)}

theorem Known.set {id : String} {r : SchedRequest D}
    (h : Known d) (hid : r.requestId = id) (hlive : r.Live) : Known (d.set id r) := by
  intro id' r' hr'
  rw [get?_set] at hr'
  split at hr'
  · next heq =>
    cases hr'
    exact ⟨hid.trans heq.symm, hlive⟩
  · exact h id' r' hr'

theorem Known.erase (h : Known d) (id : String) : Known (d.erase id) := by
  intro id' r' hr'
  rw [get?_erase] at hr'
  split at hr'
  · cases hr'
  · exact h id' r' hr'

def awaits (r : SchedRequest D) : Nat := if r.status = .waitingForStreamingReq then 1 else 0

abbrev Queued (running rest : List String) (d : Dict String (SchedRequest D)) : Prop :=
  Filed (fun r : SchedRequest D => r.status = .running) running rest d

end

namespace SchedConfig
variable {D : Type} [DecidableEq D] (cfg : SchedConfig D)

/-! ## Encoder inputs only take tokens away -/

section
variable {cfg} {requestId : String} {c : Int}

variable {n : Int} {t : EncoderTrial}

variable {f : MultiModalFeatureSpec}

theorem tokensBefore_lt (h : ¬f.mmPosition.offset ≥ c + n + cfg.shiftComputedTokens) :
    cfg.tokensBefore f c = 0 ∨ 0 < cfg.tokensBefore f c ∧ cfg.tokensBefore f c < n := by
  unfold tokensBefore
  split <;> omega

inductive ItemTurn (cfg : SchedConfig D) (requestId : String) (c : Int) (f : MultiModalFeatureSpec)
    (i : Nat) (fs : List (MultiModalFeatureSpec × Nat)) (t : EncoderTrial) (m : EncoderCacheManager)
    (t' : EncoderTrial) (m' : EncoderCacheManager) : Prop where
  | later (hoffset : f.mmPosition.offset ≥ c + t.numNewTokens + cfg.shiftComputedTokens) (ht : t' = t)
      (hm : m' = m)
  | computed (hend : f.mmPosition.offset + f.mmPosition.length ≤ c)
      (hrest : cfg.encoderLoop requestId c fs t m = (.ok t', m'))
  | again (hhash : f.identifier ∈ t.mmHashesToSchedule)
      (hrest : cfg.encoderLoop requestId c fs t m = (.ok t', m'))
  | cached {m₁ : EncoderCacheManager}
      (hlook : checkAndUpdateCache requestId f m = (.ok true, m₁))
      (hrest : cfg.encoderLoop requestId c fs t m₁ = (.ok t', m'))
  | splits {m₁ : EncoderCacheManager}
      (hoffset : f.mmPosition.offset < c + t.numNewTokens + cfg.shiftComputedTokens)
      (hlook : checkAndUpdateCache requestId f m = (.ok false, m₁))
      (hsplit : cfg.splitsItem f c t.numNewTokens = true)
      (ht : t' = { t with numNewTokens := max 0 (f.mmPosition.offset - (c + cfg.shiftComputedTokens)) })
      (hm : m' = m₁)
  | full {m₁ m₂ : EncoderCacheManager}
      (hoffset : f.mmPosition.offset < c + t.numNewTokens + cfg.shiftComputedTokens)
      (hend : c < f.mmPosition.offset + f.mmPosition.length)
      (hlook : checkAndUpdateCache requestId f m = (.ok false, m₁))
      (hfits : canAllocate f t.encoderComputeBudget t.numEmbedsToSchedule m₁ =
        (.ok false, m₂))
      (ht : t' = { t with numNewTokens := cfg.tokensBefore f c }) (hm : m' = m₂)
  | nothing {m₁ m₂ : EncoderCacheManager}
      (hoffset : f.mmPosition.offset < c + t.numNewTokens + cfg.shiftComputedTokens)
      (hend : c < f.mmPosition.offset + f.mmPosition.length)
      (hlook : checkAndUpdateCache requestId f m = (.ok false, m₁))
      (hsplit : cfg.splitsItem f c t.numNewTokens = false)
      (hfits : canAllocate f t.encoderComputeBudget t.numEmbedsToSchedule m₁ =
        (.ok true, m₂))
      (hzero : numEmbedsInRange f c t.numNewTokens = 0)
      (hrest : cfg.encoderLoop requestId c fs t m₂ = (.ok t', m'))
  | add {m₁ m₂ : EncoderCacheManager} (hnew : f.identifier ∉ t.mmHashesToSchedule)
      (hlook : checkAndUpdateCache requestId f m = (.ok false, m₁))
      (hfits : canAllocate f t.encoderComputeBudget t.numEmbedsToSchedule m₁ =
        (.ok true, m₂))
      (hrest : cfg.encoderLoop requestId c fs (t.add i f) m₂ = (.ok t', m'))

variable {fs : List (MultiModalFeatureSpec × Nat)} {t' : EncoderTrial}

theorem itemTurn_of_ok {i : Nat} {m m' : EncoderCacheManager}
    (h : cfg.encoderLoop requestId c ((f, i) :: fs) t m = (.ok t', m')) :
    ItemTurn cfg requestId c f i fs t m t' m' := by
  unfold encoderLoop at h
  split at h
  · next hoffset =>
    obtain ⟨rfl, rfl⟩ := pure_eq_ok.mp h
    exact .later hoffset rfl rfl
  next hoffset =>
  split at h
  · next hend => exact .computed hend h
  next hend =>
  split at h
  · next hhash => exact .again hhash h
  next hnew =>
  obtain ⟨cached, m₁, hlook, h⟩ := bind_eq_ok.mp h
  cases cached with
  | true => exact .cached hlook h
  | false =>
    rw [if_neg Bool.false_ne_true] at h
    split at h
    · next hsplit =>
      obtain ⟨rfl, rfl⟩ := pure_eq_ok.mp h
      exact .splits (Int.not_le.mp hoffset) hlook hsplit rfl rfl
    next hsplit =>
    obtain ⟨fits, m₂, hfits, h⟩ := bind_eq_ok.mp h
    cases fits with
    | false =>
      obtain ⟨rfl, rfl⟩ := pure_eq_ok.mp h
      exact .full (Int.not_le.mp hoffset) (Int.not_le.mp hend) hlook hfits rfl rfl
    | true =>
      rw [if_neg (by decide)] at h
      split at h
      · next hzero =>
        exact .nothing (Int.not_le.mp hoffset) (Int.not_le.mp hend) hlook (by simpa using hsplit) hfits
          hzero h
      · exact .add hnew hlook hfits h

theorem encoderLoop_numNewTokens
    {m m' : EncoderCacheManager} (h : cfg.encoderLoop requestId c fs t m = (.ok t', m')) :
    t'.numNewTokens = t.numNewTokens ∨ t'.numNewTokens = 0 ∨
      0 < t'.numNewTokens ∧ t'.numNewTokens < t.numNewTokens := by
  induction fs generalizing t m with
  | nil =>
    obtain ⟨rfl, -⟩ := pure_eq_ok.mp h
    exact .inl rfl
  | cons e fs ih =>
    cases itemTurn_of_ok h with
    | later _ ht _ => exact .inl (ht ▸ rfl)
    | computed _ hrest | again _ hrest | cached _ hrest | nothing _ _ _ _ _ _ hrest =>
      exact ih hrest
    | splits hoffset _ _ ht _ =>
      subst ht
      refine .inr ?_
      dsimp only
      omega
    | full hoffset _ _ _ ht _ =>
      subst ht
      exact .inr (tokensBefore_lt (Int.not_le.mpr hoffset))
    | add _ _ _ hrest => exact ih (t := t.add e.2 e.1) hrest

def Fitted (n n' : Int) : Prop := n' = n ∨ n' = 0 ∨ 0 < n' ∧ n' < n

theorem tryScheduleEncoderInputs_fitted {r : SchedRequest D} {b : Int} {s s' : Scheduler D}
    (h : cfg.tryScheduleEncoderInputs r c n b s = (.ok t, s')) : Fitted n t.numNewTokens := by
  unfold tryScheduleEncoderInputs at h
  split at h
  · obtain ⟨rfl, -⟩ := pure_eq_ok.mp h
    exact .inl rfl
  · obtain ⟨_, hloop, -⟩ := onEncoder_eq_ok.mp h
    exact encoderLoop_numNewTokens hloop

variable {n' : Int}

theorem Fitted.le (h : Fitted n n') (hn : n' ≠ 0) : n' ≤ n := by
  unfold Fitted at h
  omega

theorem Fitted.pos (h : Fitted n n') (hn : n' ≠ 0) (hpos : 0 < n) : 0 < n' := by
  unfold Fitted at h
  omega

end

/-! ## What a step does with a request -/

inductive Fate (l : StepLocals) (id : String) (r₀ : SchedRequest D) : SchedRequest D → Prop where
  | kept (hn : l.numScheduledTokens.get? id = none)
      (hd : l.scheduledSpecDecodeTokens.get? id = none) : Fate l id r₀ r₀
  | ran {n b : Int} (hrun : r₀.status = .running) (hmax : reachesMaxTokens r₀ = false)
      (hb : 0 < b) (hfit : Fitted (cfg.numNewRunning r₀ b) n) (hne : n ≠ 0)
      (hmem : id ∈ l.scheduledRunningReqs) (hn : l.numScheduledTokens.get? id = some n)
      (hd : l.scheduledSpecDecodeTokens.get? id =
        if scheduledDrafts r₀ n = [] then none else some (scheduledDrafts r₀ n)) :
      Fate l id r₀ { r₀ with specTokenIds := [] }
  | preempted (hrun : r₀.status = .running) (hmem : id ∈ l.preemptedReqs)
      (hn : l.numScheduledTokens.get? id = none)
      (hd : l.scheduledSpecDecodeTokens.get? id = none) : Fate l id r₀ (preemptedReq r₀)
  | promoted (hfsm : r₀.status = .waitingForFsm) (hn : l.numScheduledTokens.get? id = none)
      (hd : l.scheduledSpecDecodeTokens.get? id = none) :
      Fate l id r₀ { r₀ with status := .waiting }
  | placed {c : Nat} {n b : Int}
      (hstatus : r₀.status = .preempted ∧ id ∈ l.scheduledResumedReqs ∨
        (r₀.status = .waiting ∨ r₀.status = .waitingForFsm) ∧ id ∈ l.scheduledNewReqs)
      (hc : r₀.numComputedTokens ≠ 0 → c = r₀.numComputedTokens) (hb : 0 < b)
      (hpos : 0 < cfg.numNewWaiting r₀ c) (hfit : Fitted (min (cfg.numNewWaiting r₀ c) b) n)
      (hne : n ≠ 0) (hn : l.numScheduledTokens.get? id = some n)
      (hd : l.scheduledSpecDecodeTokens.get? id = none) :
      Fate l id r₀ { r₀ with status := .running, numComputedTokens := c }

structure SameAt (id : String) (l l' : StepLocals) : Prop where
  scheduled : l'.numScheduledTokens.get? id = l.numScheduledTokens.get? id
  drafts : l'.scheduledSpecDecodeTokens.get? id = l.scheduledSpecDecodeTokens.get? id
  running : id ∈ l.scheduledRunningReqs → id ∈ l'.scheduledRunningReqs
  new : id ∈ l.scheduledNewReqs → id ∈ l'.scheduledNewReqs
  resumed : id ∈ l.scheduledResumedReqs → id ∈ l'.scheduledResumedReqs
  preempted : id ∈ l.preemptedReqs → id ∈ l'.preemptedReqs

variable {cfg} in
theorem Fate.congr {l l' : StepLocals} {id : String} {r₀ r : SchedRequest D}
    (h : Fate cfg l id r₀ r) (hs : SameAt id l l') : Fate cfg l' id r₀ r := by
  cases h with
  | kept hn hd => exact .kept (hs.scheduled.trans hn) (hs.drafts.trans hd)
  | ran hrun hmax hb hfit hne hmem hn hd =>
    exact .ran hrun hmax hb hfit hne (hs.running hmem) (hs.scheduled.trans hn) (hs.drafts.trans hd)
  | preempted hrun hmem hn hd =>
    exact .preempted hrun (hs.preempted hmem) (hs.scheduled.trans hn) (hs.drafts.trans hd)
  | promoted hfsm hn hd => exact .promoted hfsm (hs.scheduled.trans hn) (hs.drafts.trans hd)
  | placed hstatus hc hb hpos hfit hne hn hd =>
    refine .placed ?_ hc hb hpos hfit hne (hs.scheduled.trans hn) (hs.drafts.trans hd)
    exact hstatus.imp (.imp_right hs.resumed) (.imp_right hs.new)

/-! ## The invariant of the loops -/

def StepLocals.ids (l : StepLocals) : List String :=
  l.scheduledRunningReqs ++ (l.scheduledNewReqs ++ l.scheduledResumedReqs)

structure NoneWaiting (l : StepLocals) : Prop where
  new : l.scheduledNewReqs = []
  resumed : l.scheduledResumedReqs = []
  skipped : l.stepSkippedWaiting = []

structure Ahead (σ : Step D) (ids rest : List String) : Prop where
  running : σ.1.running = ids ++ rest
  mem : ∀ id ∈ σ.2.scheduledRunningReqs, id ∈ ids
  le : ids.length ≤ σ.2.reqIndex

structure Visited (σ : Step D) (r : SchedRequest D) (t : EncoderTrial) : Prop where
  get : σ.1.requests.get? r.requestId = some r
  ahead : ∃ ids rest, Ahead σ ids (r.requestId :: rest)
  max : reachesMaxTokens r = false
  fitted : ∃ b, 0 < b ∧ Fitted (cfg.numNewRunning r b) t.numNewTokens

def AtPc (σ : Step D) : Pc D → Prop
  | .running => NoneWaiting σ.2 ∧ ∃ ids rest, Ahead σ ids rest
  | .visiting r t => NoneWaiting σ.2 ∧ Visited cfg σ r t
  | .ranAll | .checked => NoneWaiting σ.2
  | .waiting | .leaving => σ.2.preemptedReqs = []
  | .done => σ.2.stepSkippedWaiting = []

structure LoopInv (s : Scheduler D) (σ : Step D) (pc : Pc D) : Prop where
  known : Known σ.1.requests
  queued : Queued σ.1.running (σ.1.waiting ++ σ.1.skippedWaiting ++ σ.2.stepSkippedWaiting)
    σ.1.requests
  awaiting : σ.1.requests.sum awaits = s.requests.sum awaits
  nodup : (StepLocals.ids σ.2).Nodup
  keys : ∀ id, id ∈ σ.2.numScheduledTokens.keys ↔ id ∈ StepLocals.ids σ.2
  running : ∀ id ∈ StepLocals.ids σ.2, id ∈ σ.1.running
  atPc : AtPc cfg σ pc
  fate : ∀ id, Option.Rel (Fate cfg σ.2 id) (s.requests.get? id) (σ.1.requests.get? id)
  awaitingInput : σ.1.numWaitingForStreamingInput = s.numWaitingForStreamingInput
  pause : σ.1.pauseState = s.pauseState
  finished : σ.1.finishedReqIds = s.finishedReqIds
  prevStep : σ.1.prevStepScheduledReqIds = s.prevStepScheduledReqIds

/-! ## Parts of a move -/

section
variable {cfg} {s : Scheduler D} {σ : Step D} {l l' : StepLocals} {id : String}
  {r r' : SchedRequest D} {d₀ d : Dict String (SchedRequest D)} {t : EncoderTrial}

@[simp] theorem bookEncoder_ids : StepLocals.ids (bookEncoder r t l) = StepLocals.ids l := by
  unfold bookEncoder
  split <;> rfl

@[simp] theorem bookEncoder_numScheduledTokens :
    (bookEncoder r t l).numScheduledTokens = l.numScheduledTokens := by
  unfold bookEncoder
  split <;> rfl

@[simp] theorem bookEncoder_stepSkippedWaiting :
    (bookEncoder r t l).stepSkippedWaiting = l.stepSkippedWaiting := by
  unfold bookEncoder
  split <;> rfl

@[simp] theorem bookEncoder_preemptedReqs :
    (bookEncoder r t l).preemptedReqs = l.preemptedReqs := by
  unfold bookEncoder
  split <;> rfl

@[simp] theorem bookEncoder_reqIndex : (bookEncoder r t l).reqIndex = l.reqIndex := by
  unfold bookEncoder
  split <;> rfl

@[simp] theorem bookEncoder_scheduledRunningReqs :
    (bookEncoder r t l).scheduledRunningReqs = l.scheduledRunningReqs := by
  unfold bookEncoder
  split <;> rfl

theorem sameAt_refl : SameAt id l l := ⟨rfl, rfl, fun h => h, fun h => h, fun h => h, fun h => h⟩

theorem SameAt.trans {l₁ l₂ l₃ : StepLocals} (h : SameAt id l₁ l₂) (h' : SameAt id l₂ l₃) :
    SameAt id l₁ l₃ where
  scheduled := h'.scheduled.trans h.scheduled
  drafts := h'.drafts.trans h.drafts
  running hm := h'.running (h.running hm)
  new hm := h'.new (h.new hm)
  resumed hm := h'.resumed (h.resumed hm)
  preempted hm := h'.preempted (h.preempted hm)

theorem sameAt_bookEncoder : SameAt id l (bookEncoder r t l) := by
  unfold bookEncoder
  split
  · exact sameAt_refl
  · exact ⟨rfl, rfl, fun h => h, fun h => h, fun h => h, fun h => h⟩

variable {n : Int} {blocks : Option (List (List Nat))} {rest : List String} {v : String}

theorem sameAt_recordRunning (hne : id ≠ r.requestId) :
    SameAt id l (recordRunning r n blocks l) where
  scheduled := get?_set_of_ne _ _ hne
  drafts := by
    unfold recordRunning
    split
    · rfl
    · exact get?_set_of_ne _ _ hne
  running := mem_append_left _
  new h := h
  resumed h := h
  preempted h := h

theorem sameAt_recordWaiting (hne : id ≠ r.requestId) :
    SameAt id l (cfg.recordWaiting r n blocks l) where
  scheduled := get?_set_of_ne _ _ hne
  drafts := rfl
  running h := h
  new h := by
    unfold recordWaiting
    split
    · exact mem_append_left _ h
    · exact h
  resumed h := by
    unfold recordWaiting
    dsimp only
    split
    · exact mem_append_left _ h
    · exact h
  preempted h := h

section
variable (h : ∀ id', Option.Rel (Fate cfg l id') (d₀.get? id') (d.get? id'))
include h

theorem fate_set (hr : d.get? id = some r) (hs : ∀ id', id' ≠ id → SameAt id' l l')
    (hnew : ∀ r₀, Fate cfg l id r₀ r → Fate cfg l' id r₀ r') :
    ∀ id', Option.Rel (Fate cfg l' id') (d₀.get? id') ((d.set id r').get? id') := by
  intro id'
  have hrel := h id'
  rw [get?_set]
  by_cases heq : id' = id
  · subst heq
    obtain ⟨r₀, hr₀, hfate⟩ := exists_of_rel_some hrel hr
    rw [if_pos rfl, hr₀]
    exact .some (hnew r₀ hfate)
  · rw [if_neg heq]
    exact optionRel_mono hrel fun _ _ hfate => hfate.congr (hs id' heq)

theorem fate_congr (hs : ∀ id', SameAt id' l l') (id' : String) :
    Option.Rel (Fate cfg l' id') (d₀.get? id') (d.get? id') :=
  optionRel_mono (h id') fun _ _ hfate => hfate.congr (hs id')

end

/-! ## The moves keep the invariant -/

theorem ahead_take {n : Nat} {ids : List String} (h : Ahead σ ids rest) (hn : σ.2.reqIndex ≤ n) :
    Ahead (σ.1, { σ.2 with reqIndex := n }) ids rest :=
  ⟨h.running, h.mem, h.le.trans hn⟩

theorem ahead_at {ids : List String} (h : Ahead σ ids rest)
    (hid : σ.1.running[σ.2.reqIndex]? = some id) : ∃ ids rest, Ahead σ ids (id :: rest) := by
  obtain ⟨hlt, hget⟩ := List.getElem?_eq_some_iff.mp hid
  refine ⟨σ.1.running.take σ.2.reqIndex, σ.1.running.drop (σ.2.reqIndex + 1), ?_, ?_, ?_⟩
  · rw [← hget, ← drop_eq_getElem_cons hlt, take_append_drop]
  · intro id' hid'
    have hpre : ids <+: σ.1.running.take σ.2.reqIndex :=
      prefix_take_iff.mpr ⟨h.running ▸ prefix_append _ _, h.le⟩
    exact hpre.subset (h.mem id' hid')
  · exact (length_take_le _ _)

theorem LoopInv.passedBy (h : LoopInv cfg s σ .running) : LoopInv cfg s (passedBy σ) .running := by
  obtain ⟨hnone, ids, rest, hahead⟩ := h.atPc
  exact { h with
    atPc := ⟨{ hnone with }, ids, rest,
      ahead_take hahead (Nat.le_succ _)⟩
    fate := fate_congr h.fate fun _ => ⟨rfl, rfl, fun h => h, fun h => h, fun h => h, fun h => h⟩ }

variable {encoder : EncoderCacheManager} {b : Int}

theorem LoopInv.visit (h : LoopInv cfg s σ .running)
    (hid : σ.1.running[σ.2.reqIndex]? = some id) (hr : σ.1.requests.get? id = some r)
    (hmax : reachesMaxTokens r = false) (hb : 0 < b)
    (hfit : Fitted (cfg.numNewRunning r b) t.numNewTokens) :
    LoopInv cfg s ({ σ.1 with encoder }, σ.2) (.visiting r t) := by
  obtain ⟨hnone, ids, rest, hahead⟩ := h.atPc
  obtain ⟨ids', rest', hahead'⟩ := ahead_at hahead hid
  obtain rfl := (h.known id r hr).1
  exact { h with
    atPc := ⟨hnone, hr, ⟨ids', rest', hahead'.running, hahead'.mem, hahead'.le⟩, hmax, b, hb, hfit⟩ }

theorem LoopInv.giveUp (h : LoopInv cfg s σ (.visiting r t)) :
    LoopInv cfg s (SchedConfig.passedBy σ) .running := by
  obtain ⟨hnone, -, ⟨ids, rest, hahead⟩, -, -⟩ := h.atPc
  exact LoopInv.passedBy { h with atPc := ⟨hnone, ids, _, hahead⟩ }

variable {r₀ : SchedRequest D}

theorem LoopInv.fate_visited (h : LoopInv cfg s σ (.visiting r t))
    (hfate : Fate cfg σ.2 r.requestId r₀ r) : r₀ = r ∧ r.status = .running ∧
      σ.2.scheduledSpecDecodeTokens.get? r.requestId = none ∧ r.requestId ∉ StepLocals.ids σ.2 := by
  obtain ⟨hnone, hget, ⟨ids, rest, hahead⟩, -, -⟩ := h.atPc
  have hmem : r.requestId ∈ σ.1.running := by
    rw [hahead.running]
    exact mem_append_right _ mem_cons_self
  have hrun : r.status = .running := (h.queued.active _ _ hget).mp hmem
  have hfresh : r.requestId ∉ StepLocals.ids σ.2 := by
    have hnodup := h.queued.run_nodup
    rw [hahead.running, nodup_append] at hnodup
    simp only [StepLocals.ids, hnone.new, hnone.resumed, append_nil]
    exact fun hin => hnodup.2.2 _ (hahead.mem _ hin) _ mem_cons_self rfl
  have hkeys : σ.2.numScheduledTokens.get? r.requestId = none :=
    get?_eq_none_iff.mpr fun hk => hfresh ((h.keys _).mp hk)
  generalize hid : r.requestId = id at hfate hkeys hfresh ⊢
  cases hfate with
  | kept _ hd => exact ⟨rfl, hrun, hd, hfresh⟩
  | ran _ _ _ _ _ _ hn _ | placed _ _ _ _ _ _ hn _ => cases hkeys.symm.trans hn
  | preempted _ _ _ _ | promoted _ _ _ => cases hrun

/-! Preemption -/

theorem dropLast_eq_erase {ids : List String} (hnodup : ids.Nodup) (hv : ids.getLast? = some v) :
    ids.dropLast = ids.erase v := by
  obtain ⟨init, rfl⟩ := getLast?_eq_some_iff.mp hv
  have hfresh : v ∉ init := fun hm =>
    (nodup_append.mp hnodup).2.2 v hm v mem_cons_self rfl
  rw [erase_append_right _ hfresh]
  simp

/-- Under either policy the victim leaves `running`, and the step if it is in it. -/
def withoutVictim (σ : Step D) (v : String) : Step D :=
  ({ σ.1 with running := σ.1.running.erase v },
    if v ∈ σ.2.scheduledRunningReqs then unschedule σ.1 v σ.2 else σ.2)

theorem dropVictim_eq {v : String} (hnodup : σ.1.running.Nodup) {ids rest : List String}
    (hahead : Ahead σ ids (id :: rest)) (hv : cfg.victim σ.1 = some v) :
    cfg.dropVictim σ v = withoutVictim σ v := by
  unfold victim at hv
  unfold dropVictim withoutVictim
  cases hp : cfg.policy with
  | fcfs =>
    simp only [hp] at hv ⊢
    have hlast : v ∈ id :: rest := by
      rw [hahead.running, getLast?_append_of_ne_nil _ (cons_ne_nil _ _)] at hv
      exact mem_of_getLast? hv
    have hfresh : v ∉ σ.2.scheduledRunningReqs := fun hm => by
      rw [hahead.running, nodup_append] at hnodup
      exact hnodup.2.2 v (hahead.mem v hm) v hlast rfl
    rw [if_neg hfresh, dropLast_eq_erase hnodup hv]
  | priority => rfl

@[simp] theorem withoutVictim_scheduledRunningReqs :
    (withoutVictim σ v).2.scheduledRunningReqs = σ.2.scheduledRunningReqs.erase v := by
  unfold withoutVictim
  split
  · rfl
  · next h => rw [List.erase_of_not_mem h]

@[simp] theorem withoutVictim_new :
    (withoutVictim σ v).2.scheduledNewReqs = σ.2.scheduledNewReqs := by
  unfold withoutVictim
  split <;> rfl

@[simp] theorem withoutVictim_resumed :
    (withoutVictim σ v).2.scheduledResumedReqs = σ.2.scheduledResumedReqs := by
  unfold withoutVictim
  split <;> rfl

@[simp] theorem withoutVictim_skipped :
    (withoutVictim σ v).2.stepSkippedWaiting = σ.2.stepSkippedWaiting := by
  unfold withoutVictim
  split <;> rfl

theorem sameAt_withoutVictim (hne : id ≠ v) : SameAt id σ.2 (withoutVictim σ v).2 := by
  unfold withoutVictim
  split
  · exact ⟨get?_erase_of_ne _ hne, get?_erase_of_ne _ hne,
      (mem_erase_of_ne hne).mpr, fun h => h, fun h => h, fun h => h⟩
  · exact sameAt_refl

theorem ahead_withoutVictim {ids : List String} (hahead : Ahead σ ids (id :: rest)) (hne : v ≠ id)
    (hsched : σ.2.scheduledRunningReqs.Nodup) :
    ∃ ids rest, Ahead (withoutVictim σ v) ids (id :: rest) := by
  have hrest : v ∈ σ.2.scheduledRunningReqs → v ∈ ids := hahead.mem v
  by_cases hv : v ∈ ids
  · refine ⟨ids.erase v, rest, ?_, ?_, ?_⟩
    · exact (congrArg (·.erase v) hahead.running).trans (erase_append_left _ hv)
    · intro id' hid'
      rw [withoutVictim_scheduledRunningReqs, hsched.mem_erase_iff] at hid'
      exact (mem_erase_of_ne hid'.1).mpr (hahead.mem id' hid'.2)
    · rw [length_erase_of_mem hv]
      have hle := hahead.le
      unfold withoutVictim
      split
      · exact Nat.sub_le_sub_right hle 1
      · exact (Nat.sub_le _ _).trans hle
  · refine ⟨ids, rest.erase v, ?_, ?_, ?_⟩
    · refine (congrArg (·.erase v) hahead.running).trans ?_
      rw [erase_append_right _ hv, erase_cons_tail (by simpa using hne.symm)]
    · intro id' hid'
      rw [withoutVictim_scheduledRunningReqs] at hid'
      exact hahead.mem id' (mem_of_mem_erase hid')
    · unfold withoutVictim
      rw [if_neg fun hm => hv (hrest hm)]
      exact hahead.le

theorem withoutVictim_get?
    (hin : v ∉ σ.2.scheduledRunningReqs → σ.2.numScheduledTokens.get? v = none ∧ σ.2.scheduledSpecDecodeTokens.get? v = none)
    :
    (withoutVictim σ v).2.numScheduledTokens.get? v = none ∧
      (withoutVictim σ v).2.scheduledSpecDecodeTokens.get? v = none := by
  unfold withoutVictim
  split
  · exact ⟨get?_erase_self _ _, get?_erase_self _ _⟩
  · next h => exact hin h

theorem mem_keys_withoutVictim
    (hkeys : ∀ id, id ∈ σ.2.numScheduledTokens.keys ↔ id ∈ σ.2.scheduledRunningReqs)
    (hsched : σ.2.scheduledRunningReqs.Nodup) (id : String) :
    id ∈ (withoutVictim σ v).2.numScheduledTokens.keys ↔
      id ∈ (withoutVictim σ v).2.scheduledRunningReqs := by
  rw [withoutVictim_scheduledRunningReqs, hsched.mem_erase_iff]
  unfold withoutVictim
  split
  · exact mem_keys_erase.trans (and_congr_right fun _ => hkeys id)
  · next h =>
    rw [hkeys id]
    exact ⟨fun hm => ⟨fun heq => h (heq ▸ hm), hm⟩, fun hm => hm.2⟩

theorem LoopInv.withKv {pc : Pc D} (h : LoopInv cfg s σ pc) (kv : KVState D) :
    LoopInv cfg s (withKv σ kv) pc := by
  refine { h with atPc := ?_ }
  have hpc := h.atPc
  cases pc with
  | running =>
    obtain ⟨hnone, ids, rest, hahead⟩ := hpc
    exact ⟨hnone, ids, rest, hahead.running, hahead.mem, hahead.le⟩
  | visiting r t =>
    obtain ⟨hnone, hget, ⟨ids, rest, hahead⟩, hmax, hfit⟩ := hpc
    exact ⟨hnone, hget, ⟨ids, rest, hahead.running, hahead.mem, hahead.le⟩, hmax, hfit⟩
  | _ => exact hpc

theorem NoneWaiting.ids (h : NoneWaiting l) : StepLocals.ids l = l.scheduledRunningReqs := by
  simp [StepLocals.ids, h.new, h.resumed]

variable {rv : SchedRequest D}

theorem Fate.preempt {v : String} (hnone : NoneWaiting σ.2)
    (hkeys : ∀ id, id ∈ σ.2.numScheduledTokens.keys ↔ id ∈ σ.2.scheduledRunningReqs)
    (hrun : rv.status = .running) (h : Fate cfg σ.2 v r₀ rv) :
    Fate cfg (notePreempted v (withoutVictim σ v).2) v r₀ (preemptedReq rv) := by
  have hmem : v ∈ (notePreempted v (withoutVictim σ v).2).preemptedReqs :=
    mem_append_right _ (mem_singleton_self v)
  have hnum : v ∉ σ.2.scheduledRunningReqs → σ.2.numScheduledTokens.get? v = none := fun hv =>
    get?_eq_none_iff.mpr fun hk => hv ((hkeys v).mp hk)
  cases h with
  | kept _ hd =>
    obtain ⟨hn, hd⟩ := withoutVictim_get? (σ := σ) fun hv => ⟨hnum hv, hd⟩
    exact .preempted hrun hmem hn hd
  | ran hrun₀ _ _ _ _ hin _ _ =>
    obtain ⟨hn, hd⟩ := withoutVictim_get? (σ := σ) fun hv => absurd hin hv
    exact .preempted hrun₀ hmem hn hd
  | preempted | promoted => cases hrun
  | placed hstatus =>
    rw [hnone.new, hnone.resumed] at hstatus
    rcases hstatus with ⟨-, hin⟩ | ⟨-, hin⟩ <;> cases hin

variable {kv : KVState D}

theorem LoopInv.preempt {v : String}
    (h : LoopInv cfg s σ (.visiting r t)) (hv : cfg.victim σ.1 = some v)
    (hrv : σ.1.requests.get? v = some rv) (hrun : rv.status = .running) :
    LoopInv cfg s (cfg.afterPreempt σ v rv kv)
      (if v = r.requestId then .ranAll else .visiting r t) := by
  obtain ⟨hnone, hget, ⟨ids, rest, hahead⟩, hmax, hfit⟩ := h.atPc
  have hids := hnone.ids
  have hsched : σ.2.scheduledRunningReqs.Nodup := hids ▸ h.nodup
  have hkeys : ∀ id, id ∈ σ.2.numScheduledTokens.keys ↔ id ∈ σ.2.scheduledRunningReqs :=
    fun id => hids ▸ h.keys id
  have hvrun : v ∈ σ.1.running := victim_mem hv
  -- the state after the victim has left `running`
  have hdrop : cfg.afterPreempt σ v rv kv = (cfg.preempted (withoutVictim σ v).1 v rv kv,
      notePreempted v (withoutVictim σ v).2) := by
    rw [afterPreempt, dropVictim_eq h.queued.run_nodup hahead hv]
  have hnone' : NoneWaiting (notePreempted v (withoutVictim σ v).2) :=
    ⟨withoutVictim_new.trans hnone.new, withoutVictim_resumed.trans hnone.resumed,
      withoutVictim_skipped.trans hnone.skipped⟩
  have hids' : StepLocals.ids (notePreempted v (withoutVictim σ v).2) =
      σ.2.scheduledRunningReqs.erase v := hnone'.ids.trans withoutVictim_scheduledRunningReqs
  rw [hdrop]
  refine { h with known := ?_, queued := ?_, awaiting := ?_, nodup := ?_, keys := ?_,
                  running := ?_, atPc := ?_, fate := ?_ }
  · exact h.known.set (h.known v rv hrv).1 ⟨rfl, nofun⟩
  · have hdemoted : Queued _ _ (σ.1.requests.set v (preemptedReq rv)) :=
      h.queued.demote hvrun (by simp [preemptedReq])
    refine hdemoted.perm (.refl _) ?_
    rw [show (notePreempted v (withoutVictim σ v).2).stepSkippedWaiting = σ.2.stepSkippedWaiting
      from withoutVictim_skipped]
    exact ((cfg.policy.prependRequest_perm _ _ v).append_right _).append_right _
  · refine (sum_set_of_eq hrv ?_).trans h.awaiting
    simp [awaits, preemptedReq, hrun]
  · rw [hids']
    exact hsched.erase v
  · intro id
    rw [hids', ← withoutVictim_scheduledRunningReqs]
    exact mem_keys_withoutVictim hkeys hsched id
  · intro id hid
    rw [hids', hsched.mem_erase_iff] at hid
    exact (mem_erase_of_ne hid.1).mpr (h.running id (hids ▸ hid.2))
  · split
    · exact hnone'
    · next hne =>
      refine ⟨hnone', ?_, ?_, hmax, hfit⟩
      · exact (get?_set_of_ne _ _ (Ne.symm hne)).trans hget
      · obtain ⟨ids', rest', hahead'⟩ := ahead_withoutVictim hahead hne hsched
        exact ⟨ids', rest', hahead'.running, hahead'.mem, hahead'.le⟩
  · refine fate_set h.fate hrv (fun id hne => ?_) fun r₀ hfate =>
      hfate.preempt hnone hkeys hrun
    exact (sameAt_withoutVictim hne).trans ⟨rfl, rfl, fun h => h, fun h => h, fun h => h,
      mem_append_left _⟩

/-! Scheduling a running request -/

theorem mem_keys_recordRunning (hnone : NoneWaiting l)
    (hkeys : ∀ id, id ∈ l.numScheduledTokens.keys ↔ id ∈ StepLocals.ids l) (id : String) :
    id ∈ (recordRunning r n blocks l).numScheduledTokens.keys ↔
      id ∈ l.scheduledRunningReqs ++ [r.requestId] := by
  rw [recordRunning, mem_keys_set, hkeys, hnone.ids, mem_append, mem_singleton]
  exact or_comm

theorem LoopInv.schedule {blocks : Option (List (List Nat))} (h : LoopInv cfg s σ (.visiting r t))
    (hn : t.numNewTokens ≠ 0) :
    LoopInv cfg s ({ σ.1.setRequest r.requestId { r with specTokenIds := [] } with kv, encoder },
      bookEncoder r t (recordRunning r t.numNewTokens blocks σ.2)) .running := by
  obtain ⟨hnone, hget, ⟨ids, rest, hahead⟩, hmax, b, hb, hfit⟩ := h.atPc
  have hnone' : NoneWaiting (recordRunning r t.numNewTokens blocks σ.2) :=
    { hnone with }
  have hids' : StepLocals.ids (bookEncoder r t (recordRunning r t.numNewTokens blocks σ.2)) =
      σ.2.scheduledRunningReqs ++ [r.requestId] := bookEncoder_ids.trans hnone'.ids
  obtain ⟨r₀, -, hfate⟩ := exists_of_rel_some (h.fate r.requestId) hget
  obtain ⟨-, -, -, hfresh⟩ := h.fate_visited hfate
  refine { h with known := ?_, queued := ?_, awaiting := ?_, nodup := ?_, keys := ?_,
                  running := ?_, atPc := ?_, fate := ?_ }
  · exact h.known.set rfl ((h.known _ r hget).2.congr rfl rfl)
  · rw [bookEncoder_stepSkippedWaiting]
    exact h.queued.set hget Iff.rfl
  · refine (sum_set_of_eq hget ?_).trans h.awaiting
    rfl
  · rw [hids', nodup_append_comm, singleton_append, nodup_cons]
    exact ⟨hnone.ids ▸ hfresh, hnone.ids ▸ h.nodup⟩
  · intro id
    rw [hids', bookEncoder_numScheduledTokens]
    exact mem_keys_recordRunning hnone h.keys id
  · intro id hid
    rw [hids', mem_append, mem_singleton] at hid
    rcases hid with hid | rfl
    · exact h.running id (hnone.ids ▸ hid)
    · exact hahead.running ▸ mem_append_right _ mem_cons_self
  · refine ⟨⟨?_, ?_, ?_⟩, ids ++ [r.requestId], rest, ?_, ?_, ?_⟩
    · unfold bookEncoder
      split <;> exact hnone.new
    · unfold bookEncoder
      split <;> exact hnone.resumed
    · exact bookEncoder_stepSkippedWaiting.trans hnone.skipped
    · exact hahead.running.trans (by simp)
    · intro id hid
      rw [bookEncoder_scheduledRunningReqs] at hid
      refine mem_append.mpr ((mem_append.mp hid).imp_left (hahead.mem id))
    · rw [bookEncoder_reqIndex, length_append]
      exact Nat.add_le_add_right hahead.le 1
  · refine fate_set h.fate hget (fun id hne => ?_) fun r₁ hfate₁ => ?_
    · exact (sameAt_recordRunning hne).trans sameAt_bookEncoder
    · obtain ⟨rfl, hrun, hd, -⟩ := h.fate_visited hfate₁
      have hran : Fate cfg (recordRunning r₁ t.numNewTokens blocks σ.2) r₁.requestId r₁
          { r₁ with specTokenIds := [] } := by
        refine .ran hrun hmax hb hfit hn ?_ (get?_set_self _ _ _) ?_
        · exact mem_append_right _ (mem_singleton_self _)
        · unfold recordRunning
          dsimp only
          split
          · exact hd
          · exact get?_set_self _ _ _
      exact hran.congr sameAt_bookEncoder

/-! The waiting requests -/

variable {q : WaitingQueue}

theorem queue_perm {rest st : List String} (hq : queue σ.1 q = id :: rest) :
    (id :: ((cfg.popQueue q σ.1).waiting ++ (cfg.popQueue q σ.1).skippedWaiting ++ st)).Perm
      (σ.1.waiting ++ σ.1.skippedWaiting ++ st) := by
  cases q with
  | waiting =>
    have hw : σ.1.waiting = id :: rest := hq
    have hpop : (cfg.policy.popRequest σ.1.idLt σ.1.waiting).Perm rest := by
      rw [hw]
      exact cfg.policy.popRequest_perm _ id rest
    change (id :: (cfg.policy.popRequest σ.1.idLt σ.1.waiting ++ σ.1.skippedWaiting ++ st)).Perm _
    rw [hw] at hpop ⊢
    exact ((hpop.cons id).append_right _).append_right _
  | skippedWaiting =>
    have hw : σ.1.skippedWaiting = id :: rest := hq
    have hpop : (cfg.policy.popRequest σ.1.idLt σ.1.skippedWaiting).Perm rest := by
      rw [hw]
      exact cfg.policy.popRequest_perm _ id rest
    change (id :: (σ.1.waiting ++ cfg.policy.popRequest σ.1.idLt σ.1.skippedWaiting ++ st)).Perm _
    rw [hw] at hpop ⊢
    have hmid : (id :: (σ.1.waiting ++ cfg.policy.popRequest σ.1.idLt (id :: rest))).Perm
        (σ.1.waiting ++ id :: rest) := perm_middle.symm.trans ((hpop.cons id).append_left _)
    exact hmid.append_right st

@[simp] theorem requests_popQueue {s : Scheduler D} : (cfg.popQueue q s).requests = s.requests := by
  cases q <;> rfl

@[simp] theorem encoder_popQueue {s : Scheduler D} : (cfg.popQueue q s).encoder = s.encoder := by
  cases q <;> rfl

theorem LoopInv.promote (h : LoopInv cfg s σ .waiting) (hr : σ.1.requests.get? id = some r)
    (hstatus : r.status = .waitingForFsm) :
    LoopInv cfg s (σ.1.setRequest r.requestId { r with status := .waiting }, σ.2) .waiting := by
  obtain rfl := (h.known id r hr).1
  refine { h with known := ?_, queued := ?_, awaiting := ?_, fate := ?_ }
  · exact h.known.set rfl ⟨rfl, nofun⟩
  · exact h.queued.set hr (by simp [hstatus])
  · exact (sum_set_of_eq hr (by simp [awaits, hstatus])).trans h.awaiting
  · refine fate_set h.fate hr (fun _ _ => sameAt_refl) fun r₀ hfate => ?_
    generalize r.requestId = id at hfate ⊢
    cases hfate with
    | kept hn hd => exact .promoted hstatus hn hd
    | ran hrun => cases hrun.symm.trans hstatus
    | preempted | promoted | placed => cases hstatus

theorem LoopInv.skip {rest : List String} (h : LoopInv cfg s σ .waiting)
    (hq : queue σ.1 q = id :: rest) : LoopInv cfg s (cfg.skipped σ q id) .waiting := by
  have hrest : ((cfg.popQueue q σ.1).waiting ++ (cfg.popQueue q σ.1).skippedWaiting ++
      cfg.policy.prependRequest σ.1.idLt σ.2.stepSkippedWaiting id).Perm
        (σ.1.waiting ++ σ.1.skippedWaiting ++ σ.2.stepSkippedWaiting) :=
    ((cfg.policy.prependRequest_perm _ _ id).append_left _).trans
      (perm_middle.trans (queue_perm hq))
  have hqueued := h.queued.perm (.refl _) hrest
  cases q <;> exact { h with
    queued := hqueued
    fate := fate_congr h.fate fun _ => ⟨rfl, rfl, fun h => h, fun h => h, fun h => h, fun h => h⟩ }

variable {c : Nat}

theorem Fate.place {blocks : Option (List (List Nat))}
    (hid : r.requestId = id) (hpre : l.preemptedReqs = [])
    (hstatus : r.status = .waiting ∨ r.status = .preempted)
    (hc : r.numComputedTokens ≠ 0 → c = r.numComputedTokens)
    (hpos : 0 < min (cfg.numNewWaiting r c) b)
    (hfit : Fitted (min (cfg.numNewWaiting r c) b) t.numNewTokens) (hn : t.numNewTokens ≠ 0)
    (h : Fate cfg l id r₀ r) :
    Fate cfg (cfg.recordWaiting r t.numNewTokens blocks l) id r₀
      { r with status := .running, numComputedTokens := c } := by
  have hb : 0 < b := by omega
  have hwait : 0 < cfg.numNewWaiting r c := by omega
  have hnew : r.status = .waiting →
      id ∈ (cfg.recordWaiting r t.numNewTokens blocks l).scheduledNewReqs := by
    intro hw
    simp [recordWaiting, hw, hid]
  have hresumed : r.status = .preempted →
      id ∈ (cfg.recordWaiting r t.numNewTokens blocks l).scheduledResumedReqs := by
    intro hp
    simp [recordWaiting, hp, hid]
  have hget : (cfg.recordWaiting r t.numNewTokens blocks l).numScheduledTokens.get? id =
      some t.numNewTokens := by
    rw [← hid]
    exact get?_set_self _ _ _
  cases h with
  | kept _ hd =>
    refine .placed ?_ hc hb hwait hfit hn hget hd
    exact hstatus.symm.imp (fun h => ⟨h, hresumed h⟩) fun h => ⟨.inl h, hnew h⟩
  | ran hrun => rcases hstatus with h | h <;> cases hrun.symm.trans h
  | preempted _ hmem =>
    rw [hpre] at hmem
    cases hmem
  | promoted hfsm _ hd => exact .placed (.inr ⟨.inr hfsm, hnew rfl⟩) hc hb hwait hfit hn hget hd
  | placed => rcases hstatus with h | h <;> cases h

theorem ids_recordWaiting {n : Int} {blocks : Option (List (List Nat))}
    (hstatus : r.status = .waiting ∨ r.status = .preempted) :
    (StepLocals.ids (cfg.recordWaiting r n blocks l)).Perm (r.requestId :: StepLocals.ids l) := by
  have hsingle : (l.scheduledRunningReqs ++ (l.scheduledNewReqs ++
      (l.scheduledResumedReqs ++ [r.requestId]))).Perm (r.requestId :: StepLocals.ids l) := by
    rw [← append_assoc, ← append_assoc]
    refine (perm_append_singleton _ _).trans (.cons _ ?_)
    rw [append_assoc]
    exact .refl _
  rcases hstatus with h | h
  · refine List.Perm.trans (.append_left _ ?_) hsingle
    simp only [recordWaiting, h, if_true, append_assoc]
    exact .append_left _ perm_append_comm
  · simpa only [StepLocals.ids, recordWaiting, h, if_true, reduceCtorEq, if_false] using hsingle

theorem LoopInv.place {rest : List String} {blocks : Option (List (List Nat))}
    (h : LoopInv cfg s σ .waiting) (hq : queue σ.1 q = id :: rest)
    (hr : σ.1.requests.get? id = some r) (hstatus : r.status = .waiting ∨ r.status = .preempted)
    (hc : r.numComputedTokens ≠ 0 → c = r.numComputedTokens)
    (hpos : 0 < min (cfg.numNewWaiting r c) b)
    (hfit : Fitted (min (cfg.numNewWaiting r c) b) t.numNewTokens) (hn : t.numNewTokens ≠ 0) :
    LoopInv cfg s (cfg.admitted σ.1 q r c kv encoder,
      bookEncoder r t (cfg.recordWaiting r t.numNewTokens blocks σ.2)) .waiting := by
  obtain rfl := (h.known id r hr).1
  have hpre : σ.2.preemptedReqs = [] := h.atPc
  have hperm := @queue_perm _ _ cfg σ _ q rest σ.2.stepSkippedWaiting hq
  obtain ⟨hmem, hpop⟩ := cons_perm_iff_perm_erase.mp hperm
  have hids : (StepLocals.ids (bookEncoder r t (cfg.recordWaiting r t.numNewTokens blocks σ.2))).Perm
      (r.requestId :: StepLocals.ids σ.2) := by
    rw [bookEncoder_ids]
    exact ids_recordWaiting hstatus
  have hfresh : r.requestId ∉ StepLocals.ids σ.2 := fun hin =>
    h.queued.not_mem_run hmem (h.running _ hin)
  have hqueued : Queued (σ.1.running ++ [r.requestId])
      ((cfg.popQueue q σ.1).waiting ++ (cfg.popQueue q σ.1).skippedWaiting ++
        σ.2.stepSkippedWaiting)
      (σ.1.requests.set r.requestId { r with status := .running, numComputedTokens := c }) :=
    (h.queued.promote hmem rfl).perm (.refl _) hpop
  have hnot : r.status ≠ .waitingForStreamingReq := by
    rcases hstatus with hs | hs <;> simp [hs]
  have hinv : LoopInv cfg s
      ({ cfg.popQueue q σ.1 with
          requests := σ.1.requests.set r.requestId
            { r with status := .running, numComputedTokens := c }
          running := σ.1.running ++ [r.requestId], kv, encoder },
        bookEncoder r t (cfg.recordWaiting r t.numNewTokens blocks σ.2)) .waiting := by
    refine { h with known := ?_, queued := ?_, awaiting := ?_, nodup := ?_, keys := ?_,
                    running := ?_, atPc := ?_, fate := ?_, awaitingInput := ?_, pause := ?_,
                    finished := ?_, prevStep := ?_ }
    · exact h.known.set rfl ⟨rfl, nofun⟩
    · rw [bookEncoder_stepSkippedWaiting]
      exact hqueued
    · exact (sum_set_of_eq hr (by simp [awaits, hnot])).trans h.awaiting
    · exact hids.nodup_iff.mpr (nodup_cons.mpr ⟨hfresh, h.nodup⟩)
    · intro id
      rw [hids.mem_iff, mem_cons, ← h.keys, bookEncoder_numScheduledTokens]
      exact mem_keys_set
    · intro id hid
      rw [hids.mem_iff, mem_cons] at hid
      exact mem_append.mpr (hid.symm.imp (h.running id) mem_singleton.mpr)
    · exact bookEncoder_preemptedReqs.trans hpre
    · refine fate_set h.fate hr (fun id hne => ?_) fun r₀ hfate => ?_
      · exact (sameAt_recordWaiting hne).trans sameAt_bookEncoder
      · exact (hfate.place rfl hpre hstatus hc hpos hfit hn).congr sameAt_bookEncoder
    · cases q <;> exact h.awaitingInput
    · cases q <;> exact h.pause
    · cases q <;> exact h.finished
    · cases q <;> exact h.prevStep
  cases q <;> exact hinv

theorem computedTokens_of_ne {hits : Option (List (List Nat))} {numLocal : Nat}
    {s s' : Scheduler D} (h : cfg.computedTokens r s = (.ok (hits, numLocal, c), s'))
    (hne : r.numComputedTokens ≠ 0) : c = r.numComputedTokens := by
  rw [computedTokens, if_neg hne] at h
  obtain ⟨he, -⟩ := pure_eq_ok.mp h
  cases he
  rfl

theorem LoopInv.requeue (h : LoopInv cfg s σ .leaving) : LoopInv cfg s (cfg.requeued σ) .done := by
  have hrest : (σ.1.waiting ++
      cfg.policy.prependRequests σ.1.idLt σ.1.skippedWaiting σ.2.stepSkippedWaiting ++ []).Perm
        (σ.1.waiting ++ σ.1.skippedWaiting ++ σ.2.stepSkippedWaiting) := by
    rw [append_nil, append_assoc]
    refine .append_left _ ((cfg.policy.prependRequests_perm _ _ _).trans perm_append_comm)
  exact { h with
    queued := h.queued.perm (.refl _) hrest
    atPc := rfl
    fate := fate_congr h.fate fun _ => ⟨rfl, rfl, fun h => h, fun h => h, fun h => h, fun h => h⟩ }

theorem withLoras_eq : ∃ loras, cfg.withLoras σ = { σ.2 with scheduledLoras := loras } := by
  unfold withLoras
  split
  · exact ⟨σ.2.scheduledLoras, rfl⟩
  · exact ⟨_, rfl⟩

theorem LoopMove.inv {x y : Step D × Pc D} (hmove : LoopMove cfg x y)
    (h : LoopInv cfg s x.1 x.2) : LoopInv cfg s y.1 y.2 := by
  cases hmove with
  | passBy _ _ _ => exact h.passedBy
  | visit hid hbudget hr hmax ht =>
    exact h.visit hid hr hmax hbudget (tryScheduleEncoderInputs_fitted ht)
  | giveUp _ => exact h.giveUp
  | preempt _ _ hv hrv hstatus _ => exact (h.withKv _).preempt hv hrv hstatus
  | schedule hn _ _ => exact h.schedule hn
  | endRunning _ => exact { h with atPc := h.atPc.1 }
  | @checkLoras σ _ =>
    obtain ⟨loras, hloras⟩ := @withLoras_eq _ _ cfg σ
    rw [hloras]
    exact { h with
      atPc := { h.atPc with }
      fate := fate_congr h.fate fun _ =>
        ⟨rfl, rfl, fun h => h, fun h => h, fun h => h, fun h => h⟩ }
  | startWaiting hp _ => exact { h with atPc := hp }
  | noWaiting => exact { h with atPc := h.atPc.skipped }
  | promote hr hstatus => exact h.promote hr hstatus
  | skip hq _ => exact h.skip hq
  | refuse _ _ _ _ _ _ | hold _ _ _ _ | leave => exact { h with }
  | place _ _ hq hr hstatus _ hhits hpos ht hn _ _ _ =>
    exact h.place hq hr hstatus (computedTokens_of_ne hhits) hpos
      (tryScheduleEncoderInputs_fitted ht) hn
  | requeue => exact h.requeue

theorem loops_inv {x y : Step D × Pc D} (hmoves : ReflTransGen (LoopMove cfg) x y)
    (h : LoopInv cfg s x.1 x.2) : LoopInv cfg s y.1 y.2 := by
  induction hmoves with
  | refl => exact h
  | tail _ hmove ih => exact hmove.inv ih

end

end SchedConfig

/-- The queues of the scheduler between calls: every request is in one of them, and the requests
that wait for input are counted. -/
structure Scheduler.Queues {D : Type} (s : Scheduler D) : Prop where
  known : Known s.requests
  queued : Queued s.running (s.waiting ++ s.skippedWaiting) s.requests
  awaiting : s.numWaitingForStreamingInput = s.requests.sum awaits

theorem Scheduler.Queues.begin {D : Type} [DecidableEq D] {cfg : SchedConfig D} {s : Scheduler D}
    (h : s.Queues) : SchedConfig.LoopInv cfg s (cfg.begin s) .running where
  known := h.known
  queued := by
    change Queued s.running (s.waiting ++ s.skippedWaiting ++ []) s.requests
    rw [append_nil]
    exact h.queued
  awaiting := rfl
  nodup := nodup_nil
  keys _ := Iff.rfl
  running _ hid := absurd hid not_mem_nil
  atPc := ⟨⟨rfl, rfl, rfl⟩, [], s.running, rfl, nofun, Nat.le_refl _⟩
  fate id := optionRel_refl (fun _ => .kept rfl rfl) (s.requests.get? id)
  awaitingInput := rfl
  pause := rfl
  finished := rfl
  prevStep := rfl

end Vllm
