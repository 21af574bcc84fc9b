import Vllm.Sched.Queues

/-! Which requests the loop over `running` in `schedule` looks at: it walks the list by index while
preemption takes requests out of the list. -/

set_option linter.unusedSectionVars false

namespace Vllm
open Base Call Relation List

namespace SchedConfig
variable {D : Type} [DecidableEq D]

/-- The heads of the loop over `running` in a call of `schedule`, with the requests that the turns
before were about. -/
inductive LoopHead (cfg : SchedConfig D) (s : Scheduler D) : List String → Step D → Prop where
  | start : LoopHead cfg s [] (cfg.begin s)
  | turn {ids : List String} {σ : Step D} {id : String} (hhead : LoopHead cfg s ids σ)
      (hid : σ.1.running[σ.2.reqIndex]? = some id) (hbudget : 0 < σ.2.tokenBudget)
      (hvisit : (cfg.visitRunning id σ).1 = .ok true) :
      LoopHead cfg s (ids ++ [id]) (cfg.visitRunning id σ).2

/-- Every request that was running at the start was looked at, was preempted or is still to come. -/
def NonePassedOver (s : Scheduler D) (ids : List String) (σ : Step D) : Prop :=
  ∀ id ∈ s.running, id ∈ ids ∨ id ∈ σ.2.preemptedReqs ∨ id ∈ σ.1.running.drop σ.2.reqIndex

instance (s : Scheduler D) (ids : List String) (σ : Step D) : Decidable (NonePassedOver s ids σ) :=
  inferInstanceAs (Decidable (∀ id ∈ s.running, _))

/-- The turn for `id` from `σ` to `σ'` preempts no request that it has passed by in this step, or no
request follows `id`. -/
def KeepsPace (id : String) (σ σ' : Step D) : Prop :=
  (∀ v ∈ σ.1.running.take σ.2.reqIndex, v ∈ σ'.2.preemptedReqs → v ∈ σ.2.scheduledRunningReqs) ∨
    σ'.1.running.getLast? = some id

section
variable {cfg : SchedConfig D} {s : Scheduler D} {σ σ' τ τ' : Step D} {id : String}
  {ids before after : List String} {k : Nat} {r : SchedRequest D} {t : EncoderTrial}

/-- How far the visit of `id` that began in `σ` has come: `before` and `after` are left around the
request, and the index is `k` too high. -/
structure Pace (σ τ : Step D) (id : String) (before after : List String) (k : Nat) : Prop where
  running : τ.1.running = before ++ id :: after
  earlier : before.Sublist (σ.1.running.take σ.2.reqIndex)
  later : after.Sublist (σ.1.running.drop (σ.2.reqIndex + 1))
  scheduled : ∀ v, v ∈ τ.2.scheduledRunningReqs ↔ v ∈ σ.2.scheduledRunningReqs ∧ v ∈ before
  gone : ∀ v, v ∈ τ.2.preemptedReqs ↔
    v ∈ σ.2.preemptedReqs ∨ v ∈ σ.1.running ∧ v ∉ τ.1.running
  index : τ.2.reqIndex = before.length + k
  slack : k = 0 ↔ ∀ v ∈ σ.1.running.take σ.2.reqIndex, v ∉ τ.1.running →
    v ∈ σ.2.scheduledRunningReqs

theorem take_append_cons (hid : σ.1.running[σ.2.reqIndex]? = some id) :
    σ.1.running = σ.1.running.take σ.2.reqIndex ++ id :: σ.1.running.drop (σ.2.reqIndex + 1) := by
  obtain ⟨hlt, hget⟩ := List.getElem?_eq_some_iff.mp hid
  rw [← hget, ← drop_eq_getElem_cons hlt, take_append_drop]

theorem LoopInv.mem_take (h : LoopInv cfg s σ .running) {v : String}
    (hv : v ∈ σ.2.scheduledRunningReqs) : v ∈ σ.1.running.take σ.2.reqIndex := by
  obtain ⟨-, ids, rest, hahead⟩ := h.atPc
  have hpre : ids <+: σ.1.running.take σ.2.reqIndex :=
    prefix_take_iff.mpr ⟨hahead.running ▸ prefix_append _ _, hahead.le⟩
  exact hpre.subset (hahead.mem v hv)

theorem Pace.refl (h : LoopInv cfg s σ .running) (hid : σ.1.running[σ.2.reqIndex]? = some id)
    (encoder : EncoderCacheManager) :
    Pace σ ({ σ.1 with encoder }, σ.2) id (σ.1.running.take σ.2.reqIndex)
      (σ.1.running.drop (σ.2.reqIndex + 1)) 0 where
  running := take_append_cons hid
  earlier := .refl _
  later := .refl _
  scheduled v := ⟨fun hv => ⟨hv, h.mem_take hv⟩, And.left⟩
  gone v := ⟨.inl, fun hv => hv.elim (fun h => h) fun h => absurd h.1 h.2⟩
  index := by
    have := (List.getElem?_eq_some_iff.mp hid).1
    rw [length_take_of_le (Nat.le_of_lt this), Nat.add_zero]
  slack := ⟨fun _ v hv hgone => absurd (mem_of_mem_take hv) hgone, fun _ => rfl⟩

theorem Preempts.victim (h : Preempts cfg r t τ τ') :
    ∃ v rv kv₁ kv₂, v ≠ r.requestId ∧ cfg.victim (withKv τ kv₁).1 = some v ∧
      τ' = cfg.afterPreempt (withKv τ kv₁) v rv kv₂ := by
  unfold Preempts at h
  generalize hx : (τ, Pc.visiting r t) = x at h
  generalize hy : (τ', Pc.visiting r t) = y at h
  cases h with
  | @preempt σ r' rv t' kv₁ kv₂ v _ _ hv _ _ _ =>
    obtain ⟨rfl, hpc⟩ := Prod.mk.inj hx
    obtain ⟨rfl, -⟩ := Pc.visiting.inj hpc
    obtain ⟨rfl, hpc'⟩ := Prod.mk.inj hy
    refine ⟨v, rv, kv₁, kv₂, fun hself => ?_, hv, rfl⟩
    rw [if_pos hself] at hpc'
    cases hpc'
  | _ => simp_all

theorem afterPreempt_eq {kv₁ kv₂ : KVState D} {v : String} {rv : SchedRequest D}
    (h : Pace σ τ id before after k) (hnodup : τ.1.running.Nodup)
    (hv : cfg.victim (withKv τ kv₁).1 = some v)
    (hτ' : τ' = cfg.afterPreempt (withKv τ kv₁) v rv kv₂) :
    τ'.1.running = τ.1.running.erase v ∧
      τ'.2.scheduledRunningReqs = τ.2.scheduledRunningReqs.erase v ∧
      τ'.2.preemptedReqs = τ.2.preemptedReqs ++ [v] ∧
      τ'.2.reqIndex = if v ∈ τ.2.scheduledRunningReqs then τ.2.reqIndex - 1 else τ.2.reqIndex := by
  have hahead : Ahead (withKv τ kv₁) before (id :: after) :=
    ⟨h.running, fun v hv => ((h.scheduled v).mp hv).2, h.index.symm ▸ Nat.le_add_right _ _⟩
  unfold afterPreempt at hτ'
  rw [@dropVictim_eq _ _ cfg (withKv τ kv₁) _ _ hnodup _ _ hahead hv] at hτ'
  subst hτ'
  refine ⟨rfl, withoutVictim_scheduledRunningReqs, ?_⟩
  by_cases hv' : v ∈ τ.2.scheduledRunningReqs <;>
    simp [notePreempted, withoutVictim, withKv, unschedule, hv']

section
variable (h : Pace σ τ r.requestId before after k) (hnodup : σ.1.running.Nodup)
  (hinv : LoopInv cfg s τ (.visiting r t))
include h hnodup hinv

/-- One preemption: a victim behind the request changes nothing, one before it is made up for just
when it is in the step. -/
theorem Pace.preempt (hpre : Preempts cfg r t τ τ') :
    ∃ before' after' k', Pace σ τ' r.requestId before' after' k' := by
  obtain ⟨v, rv, kv₁, kv₂, hne, hv, hτ'⟩ := hpre.victim
  obtain ⟨hrun', hsched', hpre', hindex'⟩ := afterPreempt_eq h hinv.queued.run_nodup hv hτ'
  have hrun : (before ++ r.requestId :: after).Nodup := h.running ▸ hinv.queued.run_nodup
  have hmem : ∀ w, w ∈ τ'.1.running ↔ w ≠ v ∧ w ∈ τ.1.running := fun w => by
    rw [hrun', hinv.queued.run_nodup.mem_erase_iff]
  have hmem' : ∀ w, w ∈ τ'.2.scheduledRunningReqs ↔ w ≠ v ∧ w ∈ τ.2.scheduledRunningReqs :=
    fun w => by rw [hsched', (nodup_append.mp hinv.nodup).1.mem_erase_iff]
  have hin : v ∈ before ∨ v ∈ after := by
    have hin := @victim_mem _ _ cfg (withKv τ kv₁).1 _ hv
    change v ∈ τ.1.running at hin
    rw [h.running, mem_append, mem_cons] at hin
    exact hin.imp_right fun hin => hin.resolve_left hne
  have hstart : v ∈ σ.1.running := hin.elim (fun hv => mem_of_mem_take (h.earlier.subset hv))
    fun hv => mem_of_mem_drop (h.later.subset hv)
  have hgone : ∀ w, w ∈ τ'.2.preemptedReqs ↔
      w ∈ σ.2.preemptedReqs ∨ w ∈ σ.1.running ∧ w ∉ τ'.1.running := by
    intro w
    rw [hpre', mem_append, h.gone, hmem]
    by_cases hw : w = v
    · simp [hw, hstart]
    · simp [hw]
  have hslack : (∀ w ∈ σ.1.running.take σ.2.reqIndex, w ∉ τ'.1.running →
        w ∈ σ.2.scheduledRunningReqs) ↔
      (v ∈ σ.1.running.take σ.2.reqIndex → v ∈ σ.2.scheduledRunningReqs) ∧ k = 0 := by
    rw [h.slack]
    refine ⟨fun hall => ⟨fun hv => hall v hv (by simp [hmem]), fun w hw hgone => hall w hw ?_⟩,
      fun hall w hw hgone => ?_⟩
    · exact fun hin => hgone ((hmem w).mp hin).2
    · by_cases hwv : w = v
      · exact hwv ▸ hall.1 (hwv ▸ hw)
      · exact hall.2 w hw fun hin => hgone ((hmem w).mpr ⟨hwv, hin⟩)
  rw [h.running] at hrun'
  rcases hin with hin | hin
  · have hbefore := (nodup_append.mp hrun).1
    have hlen := length_erase_of_mem hin
    have hpos := length_pos_of_mem hin
    have htake := h.earlier.subset hin
    rw [erase_append_left _ hin] at hrun'
    refine ⟨before.erase v, after, if v ∈ τ.2.scheduledRunningReqs then k else k + 1, hrun',
      erase_sublist.trans h.earlier, h.later, fun w => ?_, hgone, ?_, ?_⟩
    · rw [hmem', h.scheduled, hbefore.mem_erase_iff]
      tauto
    · rw [hindex', h.index]
      split <;> omega
    · rw [hslack]
      by_cases hv' : v ∈ σ.2.scheduledRunningReqs <;> simp [h.scheduled, hv', hin, htake]
  · have hbehind : v ∉ σ.1.running.take σ.2.reqIndex := fun hv => by
      have hsplit := take_append_drop σ.2.reqIndex σ.1.running
      rw [← hsplit, nodup_append] at hnodup
      exact hnodup.2.2 v hv v (drop_subset_drop_left _ (Nat.le_succ _) (h.later.subset hin)) rfl
    have hbefore : v ∉ before := fun hv => hbehind (h.earlier.subset hv)
    have hv' : v ∉ τ.2.scheduledRunningReqs := fun hv => hbefore ((h.scheduled v).mp hv).2
    rw [erase_append_right _ hbefore, erase_cons_tail (by simpa using hne.symm)] at hrun'
    refine ⟨before, after.erase v, k, hrun', h.earlier, erase_sublist.trans h.later,
      fun w => ?_, hgone, ?_, ?_⟩
    · rw [hsched', erase_of_not_mem hv', h.scheduled]
    · rw [hindex', if_neg hv', h.index]
    · rw [hslack]
      simp [hbehind]

theorem Pace.preempts (hpre : ReflTransGen (Preempts cfg r t) τ τ') :
    ∃ before' after' k', Pace σ τ' r.requestId before' after' k' := by
  induction hpre using ReflTransGen.head_induction_on generalizing before after k with
  | refl => exact ⟨before, after, k, h⟩
  | head hstep _ ih =>
    obtain ⟨_, _, _, h'⟩ := h.preempt hnodup hinv hstep
    exact ih h' (LoopMove.inv hstep hinv)

end

/-- What a turn does: the index passes `id` and as many of the requests behind it as requests were
taken from before it without being in the step. -/
theorem Turn.pace (h : Turn cfg id σ σ') (hinv : LoopInv cfg s σ .running)
    (hid : σ.1.running[σ.2.reqIndex]? = some id) :
    ∃ τ before after k, Pace σ τ id before after k ∧ σ'.1.running = τ.1.running ∧
      σ'.2.preemptedReqs = τ.2.preemptedReqs ∧ σ'.2.reqIndex = τ.2.reqIndex + 1 := by
  cases h with
  | passBy hr hmove =>
    refine ⟨_, _, _, _, Pace.refl hinv hid σ.1.encoder, ?_⟩
    generalize hx : (σ, Pc.running) = x at hmove
    generalize hy : (σ', Pc.running) = y at hmove
    cases hmove with
    | passBy _ _ _ =>
      cases hx
      cases hy
      exact ⟨rfl, rfl, rfl⟩
    | _ => simp_all
  | @visit r t τ encoder hr hvisit hpreempts hmove =>
    obtain rfl := (hinv.known id r hr).1
    have hvisiting := LoopMove.inv hvisit hinv
    obtain ⟨before, after, k, hpace⟩ :=
      (Pace.refl hinv hid encoder).preempts hinv.queued.run_nodup hvisiting hpreempts
    refine ⟨τ, before, after, k, hpace, ?_⟩
    generalize hx : (τ, Pc.visiting r t) = x at hmove
    generalize hy : (σ', Pc.running) = y at hmove
    cases hmove with
    | giveUp _ =>
      cases hx
      cases hy
      exact ⟨rfl, rfl, rfl⟩
    | schedule _ _ _ =>
      cases hx
      cases hy
      simp [recordRunning, Scheduler.setRequest]
    | preempt _ _ _ _ _ _ =>
      obtain ⟨-, hpc⟩ := Prod.mk.inj hy
      split at hpc <;> cases hpc
    | _ => simp_all

/-- What holds at the heads of the loop: the requests that ran at the start still run or were
preempted, and none of those that the loop has looked at is still to come. -/
structure Watched (cfg : SchedConfig D) (s : Scheduler D) (ids : List String) (σ : Step D) :
    Prop where
  loop : LoopInv cfg s σ .running
  all : ∀ v ∈ s.running, v ∈ σ.1.running ∨ v ∈ σ.2.preemptedReqs
  sub : ∀ v ∈ σ.1.running, v ∈ s.running
  away : ∀ v ∈ σ.1.running, v ∉ σ.2.preemptedReqs
  fresh : ∀ v ∈ σ.1.running.drop σ.2.reqIndex, v ∉ ids

theorem Pace.mem_running (h : Pace σ τ id before after k)
    (hid : σ.1.running[σ.2.reqIndex]? = some id) {v : String} (hv : v ∈ τ.1.running) :
    v ∈ σ.1.running := by
  rw [h.running, mem_append, mem_cons] at hv
  rcases hv with hv | rfl | hv
  · exact mem_of_mem_take (h.earlier.subset hv)
  · exact mem_of_getElem? hid
  · exact mem_of_mem_drop (h.later.subset hv)

theorem Pace.drop_eq (h : Pace σ τ id before after k) :
    τ.1.running.drop (τ.2.reqIndex + 1) = after.drop k := by
  rw [h.running, h.index, Nat.add_assoc, drop_length_add_append, drop_succ_cons]

theorem Watched.later (h : Watched cfg s ids σ) (hpace : Pace σ τ id before after k)
    (hid : σ.1.running[σ.2.reqIndex]? = some id) {v : String} (hv : v ∈ after) :
    v ∉ ids ++ [id] := by
  have hdrop := hpace.later.subset hv
  have hnodup := h.loop.queued.run_nodup
  rw [take_append_cons hid, nodup_append, nodup_cons] at hnodup
  rw [mem_append, mem_singleton]
  rintro (hseen | rfl)
  · exact h.fresh v (drop_subset_drop_left _ (Nat.le_succ _) hdrop) hseen
  · exact hnodup.2.1.1 hdrop

theorem Watched.turn (h : Watched cfg s ids σ) (hid : σ.1.running[σ.2.reqIndex]? = some id)
    (hturn : Turn cfg id σ σ') : Watched cfg s (ids ++ [id]) σ' := by
  obtain ⟨τ, before, after, k, hpace, hrun, hpre, hindex⟩ := hturn.pace h.loop hid
  refine ⟨loops_inv hturn.moves h.loop, fun v hv => ?_, fun v hv => ?_, fun v hv => ?_,
    fun v hv => ?_⟩
  · rw [hrun, hpre, hpace.gone]
    have := h.all v hv
    tauto
  · rw [hrun] at hv
    exact h.sub v (hpace.mem_running hid hv)
  · rw [hrun] at hv
    rw [hpre, hpace.gone]
    exact not_or.mpr ⟨h.away v (hpace.mem_running hid hv), fun hgone => hgone.2 hv⟩
  · rw [hrun, hindex, hpace.drop_eq] at hv
    exact h.later hpace hid (mem_of_mem_drop hv)

theorem LoopHead.watched (h : LoopHead cfg s ids σ) (hq : s.Queues) : Watched cfg s ids σ := by
  induction h with
  | start =>
    exact ⟨hq.begin, fun v hv => .inl hv, fun v hv => hv, fun _ _ => not_mem_nil,
      fun _ _ => not_mem_nil⟩
  | turn _ hid hbudget hvisit ih =>
    exact ih.turn hid (visitRunning_moves hid hbudget (Prod.ext hvisit rfl)).1

theorem Pace.keepsPace_iff (h : Pace σ τ id before after k) (hwatched : Watched cfg s ids σ)
    (hid : σ.1.running[σ.2.reqIndex]? = some id) (hrun : σ'.1.running = τ.1.running)
    (hpre : σ'.2.preemptedReqs = τ.2.preemptedReqs) :
    KeepsPace id σ σ' ↔ k = 0 ∨ after = [] := by
  unfold KeepsPace
  refine or_congr ?_ ?_
  · rw [h.slack, hpre]
    refine forall₂_congr fun v hv => ?_
    have hmem := mem_of_mem_take hv
    rw [h.gone]
    simp [hwatched.away v hmem, hmem]
  · rw [hrun, h.running]
    cases after with
    | nil => simp
    | cons x rest =>
      rw [getLast?_append_of_ne_nil _ (cons_ne_nil _ _)]
      refine iff_of_false (fun hlast => ?_) (cons_ne_nil _ _)
      exact hwatched.later h hid (mem_of_getLast? hlast)
        (mem_append_right _ mem_cons_self)

theorem nonePassedOver_turn (hwatched : Watched cfg s ids σ)
    (hid : σ.1.running[σ.2.reqIndex]? = some id) (hturn : Turn cfg id σ σ')
    (hnone : NonePassedOver s ids σ) :
    NonePassedOver s (ids ++ [id]) σ' ↔ KeepsPace id σ σ' := by
  obtain ⟨τ, before, after, k, hpace, hrun, hpre, hindex⟩ := hturn.pace hwatched.loop hid
  have hwatched' := hwatched.turn hid hturn
  rw [hpace.keepsPace_iff hwatched hid hrun hpre]
  unfold NonePassedOver
  rw [hrun, hindex, hpace.drop_eq]
  constructor
  · intro hall
    by_contra hslack
    obtain ⟨hk, hafter⟩ := not_or.mp hslack
    obtain ⟨x, rest, rfl⟩ := exists_cons_of_ne_nil hafter
    obtain ⟨k, rfl⟩ := Nat.exists_eq_succ_of_ne_zero hk
    -- the first request behind `id` is passed over
    have hx : x ∈ σ'.1.running := by simp [hrun, hpace.running]
    rcases hall x (hwatched'.sub x hx) with hseen | hgone | hcome
    · exact hwatched.later hpace hid mem_cons_self hseen
    · exact hwatched'.away x hx hgone
    · have hnodup := hwatched'.loop.queued.run_nodup
      rw [hrun, hpace.running, nodup_append, nodup_cons, nodup_cons] at hnodup
      exact hnodup.2.1.2.1 (mem_of_mem_drop hcome)
  · intro hslack v hv
    rcases hwatched'.all v hv with hin | hgone
    swap
    · exact .inr (.inl hgone)
    rw [hrun, hpace.running, mem_append, mem_cons] at hin
    rcases hin with hin | rfl | hin
    · have htake := hpace.earlier.subset hin
      have hnodup := hwatched.loop.queued.run_nodup
      rw [← take_append_drop σ.2.reqIndex σ.1.running, nodup_append] at hnodup
      rcases hnone v hv with hseen | hgone | hcome
      · exact .inl (mem_append_left _ hseen)
      · exact absurd hgone (hwatched.away v (mem_of_mem_take htake))
      · exact absurd rfl (hnodup.2.2 v htake v hcome)
    · exact .inl (mem_append_right _ mem_cons_self)
    · rcases hslack with rfl | rfl
      · exact .inr (.inr hin)
      · cases hin

end

/-- In a run in which no session is away when its results are taken, the loop of a call of
`schedule` passes no request over just when every turn of it keeps pace. -/
theorem nonePassedOver_iff {cfg : SchedConfig D} {e : Engine D}
    (run : Run (EngineOp.next cfg) (fun op e => op.Returns cfg e ∧ op.NoSessionAway e) cfg.start e) :
    (∀ ids σ, LoopHead cfg e.sched ids σ → NonePassedOver e.sched ids σ) ↔
      ∀ ids σ id, LoopHead cfg e.sched ids σ → σ.1.running[σ.2.reqIndex]? = some id →
        0 < σ.2.tokenBudget → (cfg.visitRunning id σ).1 = .ok true →
        KeepsPace id σ (cfg.visitRunning id σ).2 := by
  have hq := queues_of_run run
  constructor
  · intro hall ids σ id hhead hid hbudget hvisit
    have hturn := (visitRunning_moves hid hbudget (Prod.ext hvisit rfl)).1
    exact (nonePassedOver_turn (hhead.watched hq) hid hturn (hall ids σ hhead)).mp
      (hall _ _ (.turn hhead hid hbudget hvisit))
  · intro hpace ids σ hhead
    induction hhead with
    | start => exact fun id hid => .inr (.inr hid)
    | turn hhead hid hbudget hvisit ih =>
      have hturn := (visitRunning_moves hid hbudget (Prod.ext hvisit rfl)).1
      exact (nonePassedOver_turn (hhead.watched hq) hid hturn ih).mpr
        (hpace _ _ _ hhead hid hbudget hvisit)

end SchedConfig

open SchedConfig

def prioritySched : SchedConfig HashTerm :=
  { smallSched with policy := .priority, longPrefillTokenThreshold := 2 }

def ranked (id : String) (priority : Int) (promptTokenIds : List Token) : SchedCoreRequest where
  requestId := id
  promptTokenIds := some promptTokenIds
  priority := priority

/-- Three running requests hold all blocks. The first has no tokens left to schedule and is the first
to be preempted, the others need another block. -/
def threeRunning : List EngineOp :=
  [.addRequest (ranked "a" 1 [1, 2]), .schedule, .addRequest (ranked "b" 0 [3, 4, 5, 6]),
    .addRequest (ranked "c" 0 [7, 8, 9, 10]), .schedule]

theorem nonePassedOver_iff_threeRunning :
    let s := (prioritySched.after threeRunning).sched
    s.running = ["a", "b", "c"] ∧
      ((∀ ids σ, LoopHead prioritySched s ids σ → NonePassedOver s ids σ) ↔
        ∀ ids σ id, LoopHead prioritySched s ids σ → σ.1.running[σ.2.reqIndex]? = some id →
          0 < σ.2.tokenBudget → (prioritySched.visitRunning id σ).1 = .ok true →
          KeepsPace id σ (prioritySched.visitRunning id σ).2) :=
  ⟨by decide +kernel, @nonePassedOver_iff _ _ prioritySched _ (.of_allowed (by decide +kernel))⟩

/-- `a` is preempted for `b`, and the loop ends without a look at `c`, with budget left. -/
theorem threeRunning_passedOver :
    let s := (prioritySched.after threeRunning).sched
    Run (EngineOp.next prioritySched) (fun op e => op.Returns prioritySched e) prioritySched.start
        (prioritySched.after threeRunning) ∧
      ∃ σ, LoopHead prioritySched s ["a", "b"] σ ∧ σ.1.running = ["b", "c"] ∧ σ.2.reqIndex = 2 ∧
        0 < σ.2.tokenBudget ∧ ¬NonePassedOver s ["a", "b"] σ := by
  refine ⟨.of_allowed (by decide +kernel), _, .turn (.turn .start ?_ ?_ ?_) ?_ ?_ ?_, ?_⟩
  all_goals decide +kernel

end Vllm
