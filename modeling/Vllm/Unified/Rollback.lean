import Vllm.Unified.Selection

/-! A load that raises. Whatever the miss loop has claimed, evicted and relocated by then, the handler
takes back the claims of this call and nothing else. -/

namespace Vllm.Unified
open Base UnifiedPoolManager

variable {K : Type} [DecidableEq K]
variable {cfg : PoolConfig} {st st₀ : UnifiedState K}

/-- After a load that raised: its claims are undone, and the tables and the recency list are in
order. -/
structure FailsCleanly (cfg : PoolConfig) (st : UnifiedState K) : Prop where
  rolledBack : ∀ l ∈ cfg.layerIds, ∀ needed, (∀ e ∈ needed, e < cfg.numExperts l) →
    ∀ err st', ensureLoaded cfg l needed st = (.error err, st') → RolledBack cfg l needed st st'
  tables : ∀ l ∈ cfg.layerIds, ∀ needed, (∀ e ∈ needed, e < cfg.numExperts l) →
    ∀ err st', ensureLoaded cfg l needed st = (.error err, st') →
      TablesAgree cfg st' ∧ LruExact st' ∧
        Recency st'.1.numGpuBlocks st'.2.step st'.2.prefixLru

theorem failsCleanly_of_run (h₀ : Started cfg st₀)
    (run : Run (Op.next cfg) (fun op st => op.Promised cfg st ∧ op.Steady cfg st) st₀ st) :
    FailsCleanly cfg st := by
  have h := steady_of_run h₀ run
  refine ⟨fun l hl needed hne err st' hfail => ?_, fun l hl needed hne err st' hfail => ?_⟩
  · exact ((ensureLoaded_sound hl hne h).error rfl hfail).2.2
  · have h' := ((ensureLoaded_sound hl hne h).error rfl hfail).1
    have hinv := h'.inv trivial
    exact ⟨hinv.tablesAgree, hinv.lruExact, h'.tables.recency⟩

theorem failsCleanly_of_run_oneInUse :
    (ensureLoaded oneLayer 0 [0, 1] (oneLayerRun [.getNewBlocks 1])).1 = .error (poolExhausted 0) ∧
      RolledBack oneLayer 0 [0, 1] (oneLayerRun [.getNewBlocks 1])
        (ensureLoaded oneLayer 0 [0, 1] (oneLayerRun [.getNewBlocks 1])).2 ∧
      FailsCleanly oneLayer (oneLayerRun [.getNewBlocks 1]) := by
  have hops : Run.Allowed (Op.next oneLayer) (fun op st => op.Promised oneLayer st ∧
      op.Steady oneLayer st) [.getNewBlocks 1] oneLayerStart :=
    ⟨⟨trivial, .inl (by decide)⟩, trivial⟩
  have hclean := failsCleanly_of_run started_oneLayerStart (.of_allowed hops)
  have hfail : (ensureLoaded oneLayer 0 [0, 1] (oneLayerRun [.getNewBlocks 1])).1 =
      .error (poolExhausted 0) := rfl
  exact ⟨hfail, hclean.rolledBack 0 (by decide) [0, 1] (by decide) _ _ (Prod.ext hfail rfl), hclean⟩

/-- The entry that a reset left behind is still there after a load that raised. -/
theorem stale_after_failed_load :
    Run (Op.next oneLayer) (fun op st => op.Promised oneLayer st) oneLayerStart
        (oneLayerRun (afterReset 2 [2])) ∧
      (ensureLoaded oneLayer 0 [0] (oneLayerRun (afterReset 2 [2]))).1 =
        .error (poolExhausted 0) ∧
      (ensureLoaded oneLayer 0 [0] (oneLayerRun (afterReset 2 [2]))).2.2.prefixLru.keys = [1] ∧
      (ensureLoaded oneLayer 0 [0] (oneLayerRun (afterReset 2 [2]))).2.1.refCnt 1 = 1 ∧
      ¬ FailsCleanly oneLayer (oneLayerRun (afterReset 2 [2])) := by
  have hfail : (ensureLoaded oneLayer 0 [0] (oneLayerRun (afterReset 2 [2]))).1 =
      .error (poolExhausted 0) := rfl
  have hkeys : (ensureLoaded oneLayer 0 [0] (oneLayerRun (afterReset 2 [2]))).2.2.prefixLru.keys =
      [1] := by decide
  have href : (ensureLoaded oneLayer 0 [0] (oneLayerRun (afterReset 2 [2]))).2.1.refCnt 1 = 1 := by
    decide
  refine ⟨run_afterReset freeable_two, hfail, hkeys, href, fun h => ?_⟩
  obtain ⟨-, hlru, -⟩ := h.tables 0 (by decide) [0] (by decide) _ _ (Prod.ext hfail rfl)
  have hmem : 1 ∈ (ensureLoaded oneLayer 0 [0]
      (oneLayerRun (afterReset 2 [2]))).2.2.prefixLru.keys := by simp [hkeys]
  have hdead : (ensureLoaded oneLayer 0 [0] (oneLayerRun (afterReset 2 [2]))).2.1.refCnt 1 = 0 :=
    hlru.dead 1 hmem
  rw [href] at hdead
  cases hdead

end Vllm.Unified
