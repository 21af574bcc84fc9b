import Vllm.Sched.Visits

/-! The order of the waiting requests under FCFS: a call of `schedule` takes them from two queues, sets
some of them aside and puts those back in front. -/

set_option linter.unusedSectionVars false

namespace Vllm
open Base Relation List SchedulingPolicy

/-- What the loop over the waiting requests does with the one that it looks at: three reasons to skip
it, and two ends of a turn in which it gets its blocks. -/
inductive WaitingTurn where
  | blocked
  | exceedsMaxLoras
  /-- The connector does not know yet how many tokens it has. -/
  | undecided
  /-- The connector loads the blocks, and the request waits for them. -/
  | loadsAsync
  | admitted
deriving DecidableEq, Repr

structure WaitingLists where
  running : List String
  waiting : List String
  skippedWaiting : List String

namespace WaitingLists

/-- `pop_request` of the queue that `_select_waiting_queue_for_scheduling` selects. -/
def pop (w : WaitingLists) : Option (String × WaitingLists) :=
  match w.skippedWaiting, w.waiting with
  | id :: skippedWaiting, _ => some (id, { w with skippedWaiting })
  | [], id :: waiting => some (id, { w with waiting })
  | [], [] => none

def requeue (stepSkippedWaiting : List String) (w : WaitingLists) : WaitingLists :=
  { w with skippedWaiting := stepSkippedWaiting.reverse ++ w.skippedWaiting }

/-- The loop in a call that preempts nobody, for the turns that it takes before it ends. -/
def pass : List WaitingTurn → (stepSkippedWaiting : List String) → WaitingLists → WaitingLists
  | [], stepSkippedWaiting, w => w.requeue stepSkippedWaiting
  | turn :: turns, stepSkippedWaiting, w =>
    match w.pop with
    | none => w.requeue stepSkippedWaiting
    | some (id, w') =>
      match turn with
      | .admitted => pass turns stepSkippedWaiting { w' with running := w'.running ++ [id] }
      | _ => pass turns (id :: stepSkippedWaiting) w'

/-- The loop over `running` takes its victims from the end and puts them in front of `waiting`. -/
structure Yields (w : WaitingLists) (victims : List String) (w' : WaitingLists) : Prop where
  running : w.running = w'.running ++ victims.reverse
  waiting : w'.waiting = victims.reverse ++ w.waiting
  skippedWaiting : w'.skippedWaiting = w.skippedWaiting

def order (w : WaitingLists) : List String := w.skippedWaiting ++ w.waiting

/-- Either the end of `running` is given up, or waiting requests are moved there and the others keep
their order. -/
def KeepsOrder (w : WaitingLists) (victims : List String) (w' : WaitingLists) : Prop :=
  w.Yields victims w' ∨ victims = [] ∧ ∃ admitted, w'.running = w.running ++ admitted ∧
    w'.order.Sublist w.order ∧ w.order.Perm (admitted ++ w'.order)

variable {w w' : WaitingLists} {id : String}

theorem order_pop (h : w.pop = some (id, w')) :
    w.order = id :: w'.order ∧ w'.running = w.running := by
  obtain ⟨running, waiting, skippedWaiting⟩ := w
  cases skippedWaiting with
  | cons id skippedWaiting =>
    cases h
    exact ⟨rfl, rfl⟩
  | nil =>
    cases waiting with
    | cons id waiting =>
      cases h
      exact ⟨rfl, rfl⟩
    | nil => cases h

theorem order_requeue (ids : List String) (w : WaitingLists) :
    (w.requeue ids).order = ids.reverse ++ w.order := append_assoc ..

/-- The requests set aside so far are in front of the others, from the last one to the first. -/
theorem pass_spec (turns : List WaitingTurn) (ids : List String) (w : WaitingLists) :
    ∃ admitted, (pass turns ids w).running = w.running ++ admitted ∧
      ((pass turns ids w).order).Sublist (ids.reverse ++ w.order) ∧
      (ids.reverse ++ w.order).Perm (admitted ++ (pass turns ids w).order) := by
  have hend : ∀ (ids : List String) (w : WaitingLists), ∃ admitted : List String,
      (w.requeue ids).running = w.running ++ admitted ∧
      ((w.requeue ids).order).Sublist (ids.reverse ++ w.order) ∧
      (ids.reverse ++ w.order).Perm (admitted ++ (w.requeue ids).order) := by
    intro ids w
    rw [order_requeue]
    exact ⟨[], (append_nil _).symm, .refl _, .refl _⟩
  induction turns generalizing ids w with
  | nil => exact hend ids w
  | cons turn turns ih =>
    rw [pass]
    cases hpop : w.pop with
    | none => exact hend ids w
    | some popped =>
      obtain ⟨id, w'⟩ := popped
      obtain ⟨horder, hrunning⟩ := order_pop hpop
      have hskip := ih (id :: ids) w'
      rw [reverse_cons, append_assoc, singleton_append, ← horder, hrunning] at hskip
      cases turn with
      | admitted =>
        obtain ⟨admitted, hrun, hsub, hperm⟩ := ih ids { w' with running := w'.running ++ [id] }
        refine ⟨id :: admitted, ?_, ?_, ?_⟩
        · rw [hrun, hrunning, append_assoc]
          rfl
        · rw [horder]
          exact hsub.trans ((sublist_cons_self id _).append_left _)
        · rw [horder]
          exact perm_middle.trans (hperm.cons id)
      | _ => exact hskip

end WaitingLists

/-- The requests admitted to `running` are taken out of the waiting ones, and the others keep their
order: none is lost, duplicated or moved before another. -/
theorem waitingOrder_kept (turns : List WaitingTurn) (w : WaitingLists) :
    ∃ admitted, (w.pass turns []).running = w.running ++ admitted ∧
      ((w.pass turns []).skippedWaiting ++ (w.pass turns []).waiting).Sublist
        (w.skippedWaiting ++ w.waiting) ∧
      (w.skippedWaiting ++ w.waiting).Perm
        (admitted ++ ((w.pass turns []).skippedWaiting ++ (w.pass turns []).waiting)) :=
  WaitingLists.pass_spec turns [] w

/-! ## The loop of `schedule` -/

namespace SchedConfig
variable {D : Type} [DecidableEq D] {cfg : SchedConfig D} {s s' : Scheduler D}

def waitingLists (s : Scheduler D) : WaitingLists := ⟨s.running, s.waiting, s.skippedWaiting⟩

def Passing (s : Scheduler D) (σ : Step D) : Pc D → Prop
  | .waiting | .leaving => ∃ turns, ∀ rest, (waitingLists s).pass (turns ++ rest) [] =
      (waitingLists σ.1).pass rest σ.2.stepSkippedWaiting
  | .done => (waitingLists s).Yields σ.2.preemptedReqs (waitingLists σ.1) ∨
      σ.2.preemptedReqs = [] ∧ ∃ turns, waitingLists σ.1 = (waitingLists s).pass turns []
  | _ => (waitingLists s).Yields σ.2.preemptedReqs (waitingLists σ.1)

section
variable (hpolicy : cfg.policy = .fcfs)
include hpolicy

theorem pop_waitingLists {q : WaitingQueue} {id : String} {rest : List String}
    (hq : queue s q = id :: rest)
    (hfirst : cfg.policy = .fcfs → q = .waiting → s.skippedWaiting = []) :
    (waitingLists s).pop = some (id, waitingLists (cfg.popQueue q s)) := by
  cases q with
  | waiting =>
    have hw : s.waiting = id :: rest := hq
    simp [waitingLists, WaitingLists.pop, popQueue, setQueue, queue, hfirst hpolicy rfl, hw, hpolicy,
      popRequest]
  | skippedWaiting =>
    have hw : s.skippedWaiting = id :: rest := hq
    simp [waitingLists, WaitingLists.pop, popQueue, setQueue, queue, hw, hpolicy, popRequest]

theorem LoopMove.passing {x y : Step D × Pc D} (hmove : LoopMove cfg x y)
    (hinv : LoopInv cfg s x.1 x.2) (hpass : Passing s x.1 x.2) : Passing s y.1 y.2 := by
  cases hmove with
  | @preempt σ r rv t kv₁ kv₂ v _ _ hv _ _ _ =>
    have hlast : σ.1.running.getLast? = some v := by rwa [victim, hpolicy] at hv
    obtain ⟨rest, hrest⟩ := getLast?_eq_some_iff.mp hlast
    obtain ⟨hrun, hwait, hskip⟩ := hpass
    generalize hσ' : cfg.afterPreempt (withKv σ kv₁) v rv kv₂ = σ'
    have hyields : (waitingLists s).Yields σ'.2.preemptedReqs (waitingLists σ'.1) := by
      constructor <;> simp_all [← hσ', waitingLists, afterPreempt, dropVictim, notePreempted,
        preempted, withKv, Scheduler.setRequest, prependRequest]
    dsimp only
    split <;> exact hyields
  | @schedule σ r t _ blocks _ _ _ _ =>
    change (waitingLists s).Yields (bookEncoder r t _).preemptedReqs _
    rw [bookEncoder_preemptedReqs]
    exact hpass
  | @checkLoras σ _ =>
    obtain ⟨loras, hloras⟩ := @withLoras_eq _ _ cfg σ
    change (waitingLists s).Yields (cfg.withLoras σ).preemptedReqs _
    rw [hloras]
    exact hpass
  | startWaiting hnone _ =>
    obtain ⟨hrun, hwait, hskip⟩ := hpass
    refine ⟨[], fun rest => ?_⟩
    have hskipped := hinv.atPc.skipped
    simp_all [waitingLists]
  | noWaiting => exact .inl hpass
  | skip hq hfirst =>
    obtain ⟨turns, h⟩ := hpass
    refine ⟨turns ++ [.blocked], fun rest => ?_⟩
    rw [append_assoc, h, singleton_append, WaitingLists.pass, pop_waitingLists hpolicy hq hfirst]
    simp only [skipped, hpolicy, prependRequest]
  | @place σ q id _ r _ _ _ t _ _ _ _ _ _ hq hr _ _ _ _ _ _ _ _ hfirst =>
    obtain ⟨turns, h⟩ := hpass
    refine ⟨turns ++ [.admitted], fun rest => ?_⟩
    rw [append_assoc, h, singleton_append, WaitingLists.pass,
      pop_waitingLists hpolicy hq hfirst, ← (hinv.known id r hr).1]
    simp only [bookEncoder_stepSkippedWaiting]
    cases q <;> rfl
  | requeue =>
    obtain ⟨turns, h⟩ := hpass
    refine .inr ⟨hinv.atPc, turns, ?_⟩
    rw [← append_nil turns, h]
    simp only [requeued, hpolicy]
    rfl
  | _ => exact hpass

theorem schedule_passing {out : SchedulerOutput} (hq : s.Queues)
    (h : cfg.schedule s = (.ok out, s')) :
    (waitingLists s).Yields out.preemptedReqIds (waitingLists s') ∨
      out.preemptedReqIds = [] ∧ ∃ turns, waitingLists s' = (waitingLists s).pass turns [] := by
  obtain ⟨σ, hemitted, -, -, -⟩ := schedule_eq_ok hq h
  have hloops : ∀ y, ReflTransGen (LoopMove cfg) (cfg.begin s, .running) y → Passing s y.1 y.2 := by
    intro y hmoves
    induction hmoves with
    | refl => exact ⟨(append_nil _).symm, rfl, rfl⟩
    | tail hmoves hmove ih => exact hmove.passing hpolicy (loops_inv hmoves hq.begin) ih
  rw [hemitted.output.preempted, hemitted.advanced.frame]
  exact hloops _ hemitted.moves

theorem schedule_pass {out : SchedulerOutput} (hq : s.Queues)
    (h : cfg.schedule s = (.ok out, s')) (hnone : out.preemptedReqIds = []) :
    ∃ turns, waitingLists s' = (waitingLists s).pass turns [] := by
  rcases schedule_passing hpolicy hq h with ⟨hrun, hwait, hskip⟩ | ⟨-, hturns⟩
  · rw [hnone] at hrun hwait
    refine ⟨[], ?_⟩
    simp_all [waitingLists, WaitingLists.pass, WaitingLists.requeue]
  · exact hturns

theorem keepsOrder_of_run {e : Engine D} {out : SchedulerOutput}
    (run : Run (EngineOp.next cfg) (fun op e => op.Returns cfg e ∧ op.NoSessionAway e) cfg.start e)
    (h : cfg.schedule e.sched = (.ok out, s')) :
    (waitingLists e.sched).KeepsOrder out.preemptedReqIds (waitingLists s') := by
  rcases schedule_passing hpolicy (queues_of_run run) h with hyields | ⟨hnone, turns, hturns⟩
  · exact .inl hyields
  · have hspec := WaitingLists.pass_spec turns [] (waitingLists e.sched)
    rw [← hturns] at hspec
    exact .inr ⟨hnone, hspec⟩

end

end SchedConfig

open SchedConfig

/-- `c` is preempted; with priorities it is `a`. -/
theorem keepsOrder_of_run_threeRunning :
    let cfg := { prioritySched with policy := .fcfs }
    let s := (cfg.after threeRunning).sched
    ∃ out s', cfg.schedule s = (.ok out, s') ∧ out.preemptedReqIds = ["c"] ∧
      (waitingLists s).KeepsOrder out.preemptedReqIds (waitingLists s') := by
  intro cfg s
  have hmap : (cfg.schedule s).1.toOption.map (·.preemptedReqIds) = some ["c"] := by decide +kernel
  obtain ⟨out, s', h, hout⟩ := Call.exists_of_map_eq hmap
  exact ⟨out, s', h, hout, @keepsOrder_of_run _ _ cfg _ rfl _ _ (.of_allowed (by decide +kernel)) h⟩

end Vllm
