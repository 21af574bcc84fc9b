import Vllm.Unified.Invariant

/-! What the operations of the unified pool keep.

`Tables` is kept by every operation, in any order and after any failure, resets of the prefix cache
included: the block pool's own invariant, the tables of the layers, and the order of the recency
lists. The recency list of the pages may have lost touch with the hashes here, so experts and cached
pages may overlap; `Inv` is the stronger invariant of runs in which it has not. `Sound` is `Tables`
in every run and `Inv` in a strict one, so that each operation is walked through once. -/

namespace Vllm
open Base Dict List

/-! ## The recency lists -/

theorem stamped_append {l l' : List (Nat × Nat)} {step : Nat}
    (hsorted : l'.Pairwise fun a b => a.2 ≤ b.2) (hpast : ∀ e ∈ l', e.2 ≤ step)
    (hl : l.Sublist l') (b : Nat) :
    (l ++ [(b, step)]).Pairwise (fun a b => a.2 ≤ b.2) ∧ ∀ e ∈ l ++ [(b, step)], e.2 ≤ step := by
  have hle : ∀ e ∈ l, e.2 ≤ step := fun e he => hpast e (hl.subset he)
  refine ⟨pairwise_append.mpr ⟨hsorted.sublist hl, pairwise_singleton .., ?_⟩, ?_⟩
  · intro e he e' he'
    rw [mem_singleton.mp he']
    exact hle e he
  · intro e he
    rcases mem_append.mp he with he | he
    · exact hle e he
    · rw [mem_singleton.mp he]

structure UnifiedPool.Stamped (u : UnifiedPool) (step : Nat) : Prop where
  loaded : ∀ e ∈ u.expertLru.keys, e ∈ u.superBlockAtExpert.keys
  sorted : u.expertLru.entries.Pairwise fun a b => a.2 ≤ b.2
  past : ∀ e ∈ u.expertLru.entries, e.2 ≤ step

namespace UnifiedPool.Stamped
variable {u : UnifiedPool} {step : Nat}

theorem new (step : Nat) : ({ } : UnifiedPool).Stamped step := ⟨by simp, by simp, by simp⟩

section
variable (h : u.Stamped step)
include h

theorem mono {step' : Nat} (hs : step ≤ step') : u.Stamped step' :=
  ⟨h.loaded, h.sorted, fun e he => (h.past e he).trans hs⟩

theorem drop (s : Nat) : (u.drop s).Stamped step := by
  unfold UnifiedPool.drop
  split
  · exact h
  · refine ⟨fun e he => ?_, h.sorted.sublist filter_sublist,
      fun e he => h.past e (mem_of_mem_filter he)⟩
    obtain ⟨hne, hkey⟩ := mem_keys_erase.mp he
    exact mem_keys_erase.mpr ⟨hne, h.loaded e hkey⟩

theorem bumpExpert (e : Nat) : (u.bumpExpert e step).Stamped step := by
  unfold UnifiedPool.bumpExpert
  split
  · next hkey =>
    obtain ⟨hsorted, hpast⟩ := stamped_append h.sorted h.past filter_sublist e
    refine ⟨fun e' he' => ?_, hsorted, hpast⟩
    rcases mem_keys_setLast.mp he' with rfl | he'
    · exact h.loaded _ hkey
    · exact h.loaded _ he'
  · exact h

theorem assigned {s e : Nat} (he : u.superBlockAtExpert.get? e = none) :
    (u.assigned s e step).Stamped step := by
  have hnew : e ∉ u.expertLru.keys := fun hc => get?_eq_none_iff.mp he (h.loaded e hc)
  have hentries : (u.expertLru.set e step).entries = u.expertLru.entries ++ [(e, step)] :=
    if_neg hnew
  obtain ⟨hsorted, hpast⟩ := stamped_append h.sorted h.past (List.Sublist.refl _) e
  refine ⟨fun e' he' => ?_, hentries ▸ hsorted, hentries ▸ hpast⟩
  rcases mem_keys_set.mp he' with rfl | he'
  · exact mem_keys_set.mpr (.inl rfl)
  · exact mem_keys_set.mpr (.inr (h.loaded e' he'))

theorem pin (s : Nat) : (u.pin s).Stamped step := { h with }

theorem unpinAll : u.unpinAll.Stamped step := { h with }

end

end UnifiedPool.Stamped

namespace Unified
open UnifiedPoolManager

structure Recency (n step : Nat) (lru : Dict Nat Nat) : Prop where
  range : ∀ p ∈ lru.keys, p < n ∧ p ≠ 0
  sorted : lru.entries.Pairwise fun a b => a.2 ≤ b.2
  stamped : ∀ e ∈ lru.entries, e.2 ≤ step

namespace Recency
variable {n step : Nat} {lru : Dict Nat Nat}

theorem empty (n step : Nat) : Recency n step ∅ := ⟨by simp, by simp, by simp⟩

section
variable (h : Recency n step lru)
include h

theorem erase (b : Nat) : Recency n step (lru.erase b) := by
  have hsub : (lru.erase b).entries.Sublist lru.entries := filter_sublist
  exact ⟨fun p hp => h.range p (mem_keys_erase.mp hp).2, h.sorted.sublist hsub,
    fun e he => h.stamped e (hsub.subset he)⟩

theorem setLast {b : Nat} (hb : b < n ∧ b ≠ 0) : Recency n step (lru.setLast b step) := by
  obtain ⟨hs, hle⟩ := stamped_append h.sorted h.stamped
    (l := (lru.erase b).entries) filter_sublist b
  refine ⟨fun p hp => ?_, hs, hle⟩
  rcases mem_keys_setLast.mp hp with rfl | hp
  · exact hb
  · exact h.range p hp

theorem rename {src dst : Nat} (hd : dst < n ∧ dst ≠ 0) (hne : src ≠ dst) :
    Recency n step (lru.rename src dst step) := by
  have hrange : ∀ p ∈ (lru.rename src dst step).keys, p < n ∧ p ≠ 0 := fun p hp => by
    rcases mem_keys_rename.mp hp with rfl | hp
    · exact hd
    · exact h.range p hp.2
  by_cases hs : src ∈ lru.keys
  · have hent := entries_rename_of_mem hs hne step
    refine ⟨hrange, ?_, fun e he => ?_⟩
    · -- a renamed entry keeps its stamp
      rw [hent, pairwise_map]
      refine (h.sorted.sublist filter_sublist).imp fun {a b} hab => ?_
      split <;> split <;> exact hab
    · rw [hent] at he
      obtain ⟨e', he', rfl⟩ := mem_map.mp he
      have := h.stamped e' (mem_filter.mp he').1
      split <;> exact this
  · have hs' : src ∉ (lru.erase dst).keys := fun hc => hs (mem_keys_erase.mp hc).2
    have hent := entries_rename_of_not_mem hs' step
    obtain ⟨hsort, hle⟩ := stamped_append h.sorted h.stamped
      (l := lru.entries.filter fun e => e.1 ≠ dst) filter_sublist dst
    exact ⟨hrange, hent ▸ hsort, hent ▸ hle⟩

theorem mono {step' : Nat} (hs : step ≤ step') : Recency n step' lru :=
  ⟨h.range, h.sorted, fun e he => (h.stamped e he).trans hs⟩

end

end Recency

/-! ## The tables -/

variable {K : Type} [DecidableEq K]

/-- The manager's layers over a pool of `n` blocks that are all free and not cached. -/
def onBlank (n : Nat) (m : UnifiedPoolManager) : UnifiedState K :=
  (BlockPool.new n true, { m with prefixLru := ∅ })

/-- `caching` is the pool's flag; a `quiet` pool has no cached page. -/
structure Tables (cfg : PoolConfig) (caching : Bool) (quiet : Prop) (st : UnifiedState K) :
    Prop where
  pool : st.1.Inv
  layers : Inv cfg (fun _ _ => True) (fun _ => True)
    (onBlank st.1.numGpuBlocks st.2 : UnifiedState K)
  recency : Recency st.1.numGpuBlocks st.2.step st.2.prefixLru
  stamps : ∀ l, (st.2.layer l).Stamped st.2.step
  flag : st.1.enableCaching = caching
  quiet : quiet → ∀ p, st.1.hash p = none

variable {cfg : PoolConfig} {caching : Bool} {quiet : Prop} {st : UnifiedState K}

variable {m m' : UnifiedPoolManager}

theorem layers_congr {n : Nat}
    (h : Inv cfg (fun _ _ => True) (fun _ => True) (onBlank n m : UnifiedState K))
    (hlayer : m'.layer = m.layer) (hholder : m'.superBlockHolder = m.superBlockHolder) :
    Inv cfg (fun _ _ => True) (fun _ => True) (onBlank n m' : UnifiedState K) :=
  ⟨h.core.update_pool hlayer hholder h.core.pool rfl h.core.held_pages h.core.lru,
    h.pinned.congr hlayer, ⟨fun _ _ _ _ _ hx => absurd trivial hx, fun _ hp => absurd rfl hp⟩,
    h.complete⟩

namespace Tables

theorem update (h : Tables cfg caching quiet st) {st' : UnifiedState K} (hpool : st'.1.Inv)
    (hnum : st'.1.numGpuBlocks = st.1.numGpuBlocks) (hlayer : st'.2.layer = st.2.layer)
    (hholder : st'.2.superBlockHolder = st.2.superBlockHolder) (hstep : st.2.step ≤ st'.2.step)
    (hrec : Recency st.1.numGpuBlocks st'.2.step st'.2.prefixLru)
    (hflag : st'.1.enableCaching = st.1.enableCaching)
    (hquiet : (∀ p, st.1.hash p = none) → ∀ p, st'.1.hash p = none) :
    Tables cfg caching quiet st' :=
  ⟨hpool, hnum ▸ layers_congr h.layers hlayer hholder, hnum ▸ hrec,
    fun l => hlayer ▸ (h.stamps l).mono hstep, hflag.trans h.flag, fun hq => hquiet (h.quiet hq)⟩

theorem relayer (h : Tables cfg caching quiet st) {m' : UnifiedPoolManager}
    (hlayers : Inv cfg (fun _ _ => True) (fun _ => True)
      (onBlank st.1.numGpuBlocks m' : UnifiedState K))
    (hstamps : ∀ l, (m'.layer l).Stamped st.2.step) (hlru : m'.prefixLru = st.2.prefixLru)
    (hstep : m'.step = st.2.step) : Tables cfg caching quiet (st.1, m') := by
  refine ⟨h.pool, hlayers, ?_, fun l => ?_, h.flag, h.quiet⟩
  · rw [hlru, hstep]
    exact h.recency
  · rw [hstep]
    exact hstamps l

theorem relayers {p : BlockPool K} {m : UnifiedPoolManager}
    {f : UnifiedPoolManager → UnifiedPoolManager} (h : Tables cfg caching quiet (p, m))
    (hf : Relayers f m) (hlayers : Inv cfg (fun _ _ => True) (fun _ => True)
      ((BlockPool.new p.numGpuBlocks true, f { m with prefixLru := ∅ }) : UnifiedState K))
    (hstamps : ∀ l, ((f m).layer l).Stamped m.step) : Tables cfg caching quiet (p, f m) := by
  obtain ⟨layer, holder, hf⟩ := hf
  have hm : f m = { m with layer, superBlockHolder := holder } := hf m.prefixLru
  rw [hf ∅] at hlayers
  rw [hm] at hstamps ⊢
  exact h.relayer hlayers hstamps rfl rfl

end Tables

/-! ## Both invariants at once -/

/-- What a run promises: the caching flag, that there is no cached page, that `Inv` holds. -/
structure Regime where
  caching : Bool
  quiet : Prop
  strict : Prop

structure Sound (cfg : PoolConfig) (r : Regime) (ex : Nat → Nat → Prop) (out : Nat → Prop)
    (st : UnifiedState K) : Prop where
  tables : Tables cfg r.caching r.quiet st
  inv : r.strict → Inv cfg ex out st

def SamePins (m m' : UnifiedPoolManager) : Prop :=
  ∀ l, (m'.layer l).pinnedSuperBlocks = (m.layer l).pinnedSuperBlocks

theorem SamePins.any_eq (h : SamePins m m') (s : Nat) :
    m'.anyLayerPinsSuperBlock cfg s = m.anyLayerPinsSuperBlock cfg s := by
  simp [anyLayerPinsSuperBlock, h _]

theorem SamePins.trans {m₁ m₂ m₃ : UnifiedPoolManager} (h : SamePins m₁ m₂) (h' : SamePins m₂ m₃) :
    SamePins m₁ m₃ := fun l => (h' l).trans (h l)

theorem SamePins.of_layer (h : m'.layer = m.layer) : SamePins m m' :=
  fun l => by rw [h]

namespace Sound
variable {r : Regime} {ex : Nat → Nat → Prop} {out : Nat → Prop}

section
variable (h : Sound cfg r ex out st)
include h

theorem pool : st.1.Inv := h.tables.pool

theorem mono {ex' : Nat → Nat → Prop} (hex : ∀ l s, ex l s → ex' l s) :
    Sound cfg r ex' out st := ⟨h.tables, fun hs => (h.inv hs).mono hex⟩

theorem mono_out {out' : Nat → Prop} (hout : ∀ b, out b → out' b) :
    Sound cfg r ex out' st := ⟨h.tables, fun hs => (h.inv hs).mono_out hout⟩

variable {b : Nat}

theorem dequeue (hb : b ∈ st.1.free) {L : Dict Nat Nat}
    (hrec : Recency st.1.numGpuBlocks st.2.step L)
    (hlru : r.strict → ∀ p, p ∈ L.keys ↔ p ≠ b ∧ p ∈ st.2.prefixLru.keys) :
    Sound cfg r ex (fun c => out c ∨ c = b)
      (st.1.setFree (st.1.free.erase b) (st.1.getNumFreeBlocks - 1),
        { st.2 with prefixLru := L }) :=
  ⟨h.tables.update (h.pool.removeFree hb) rfl rfl rfl le_rfl hrec rfl fun hq => hq,
    fun hs => (h.inv hs).dequeue hb (hlru hs)⟩

theorem setRefCnt {n : Int} (hb : b ∉ st.1.free)
    (hheld : r.strict → ¬ Held cfg st.2 (cfg.superBlockOfPage b)) (hn : b ≠ 0 → 0 < n) :
    Sound cfg r ex (fun c => out c ∧ c ≠ b) (st.1.setRefCnt b n, st.2) := by
  refine ⟨h.tables.update (h.pool.setRefCnt hb fun h0 => (hn h0).le) rfl rfl rfl le_rfl
    h.tables.recency rfl fun hq p => ?_, fun hs => (h.inv hs).setRefCnt hb (hheld hs) hn⟩
  simpa using hq p

variable {key : K}

theorem evict (hb : st.1.hash b = some key) :
    Sound cfg r ex out (st.1.unpublish b key, onPrefixRemoved b st.2) := by
  refine ⟨h.tables.update (h.pool.unpublish hb) rfl rfl rfl le_rfl (h.tables.recency.erase b) rfl
    fun hq p => ?_, fun hs => (h.inv hs).evict hb⟩
  simp [BlockPool.unpublish, hq p]

theorem relocate {src dst : Nat} (hsrc : st.1.hash src = some key) (hdst : st.1.hash dst = none)
    (hlt : dst < st.1.numGpuBlocks ∧ dst ≠ 0)
    (hhole : r.strict → dst ∈ st.1.free ∧ ¬ Held cfg st.2 (cfg.superBlockOfPage dst))
    (hcopy : ∀ l ∈ cfg.kvLayers, ∀ o, o / cfg.pageSizeBytes = dst → st.2.poolBuffer l o =
      st.2.poolBuffer l (src * cfg.pageSizeBytes + o % cfg.pageSizeBytes)) :
    Sound cfg r ex out ((st.1.unpublish src key).publish dst key, { st.2 with
        prefixLru := st.2.prefixLru.rename src dst st.2.step
        kvOf := Function.update st.2.kvOf dst (st.2.kvOf src) }) := by
  have hne : src ≠ dst := by
    rintro rfl
    simp [hsrc] at hdst
  have hunp : (st.1.unpublish src key).hash dst = none := by
    simp [BlockPool.unpublish, hdst]
  refine ⟨h.tables.update ((h.pool.unpublish hsrc).publish hunp hlt.1 hlt.2) rfl rfl rfl le_rfl
    (h.tables.recency.rename hlt hne) rfl fun hq => ?_,
    fun hs => (h.inv hs).relocate hsrc hdst (hhole hs).1 (hhole hs).2 hcopy⟩
  rw [hq src] at hsrc
  cases hsrc

theorem buffer {buf : Nat → Nat → UInt8} {faults : List Bool}
    (hb : r.strict → ∀ l o, buf l o ≠ st.2.poolBuffer l o →
      st.1.hash (o / cfg.pageSizeBytes) = none ∧
        (l ∈ cfg.layerIds → st.2.Maps l (o / cfg.expertSlotBytes) →
          ex l (o / cfg.expertSlotBytes))) :
    Sound cfg r ex out (st.1, { st.2 with poolBuffer := buf, copyFaults := faults }) :=
  ⟨h.tables.update h.pool rfl rfl rfl le_rfl h.tables.recency rfl fun hq => hq,
    fun hs => (h.inv hs).buffer (hb hs)⟩

theorem dropped {m' : UnifiedPoolManager} {s : Nat}
    (hpin : ∀ l ∈ cfg.layerIds, s ∉ (st.2.layer l).pinnedSuperBlocks) (hd : Dropped st.2 m' s
      (cfg.layerIds.filter fun l => l ∈ (st.2.superBlockHolder.get? s).getD ∅)) :
    Sound cfg r ex out (st.1, m') ∧ (∀ s', Held cfg m' s' ↔ Held cfg st.2 s' ∧ s' ≠ s) ∧
      SamePins st.2 m' := by
  have hd' : Dropped (onBlank st.1.numGpuBlocks st.2 : UnifiedState K).2
      (onBlank st.1.numGpuBlocks m' : UnifiedState K).2 s
      (cfg.layerIds.filter fun l => l ∈ (st.2.superBlockHolder.get? s).getD ∅) :=
    ⟨hd.layer, hd.holder, rfl, hd.step, hd.buffer, hd.kvOf⟩
  obtain ⟨hlayers, hheld⟩ := h.tables.layers.dropped hpin hd'
  refine ⟨⟨h.tables.relayer hlayers (fun l => ?_) hd.lru hd.step,
    fun hs => ((h.inv hs).dropped hpin hd).1⟩, hheld, fun l => ?_⟩
  · rw [hd.layer]
    split
    · exact (h.tables.stamps l).drop s
    · exact h.tables.stamps l
  · rw [hd.layer]
    split
    · exact UnifiedPool.pinned_drop _ _
    · rfl

theorem retag {l : Nat} {f : UnifiedPool → UnifiedPool}
    (hinv : (st.2.layer l).Inv → (f (st.2.layer l)).Inv)
    (hexp : (f (st.2.layer l)).expertAtSuperBlock = (st.2.layer l).expertAtSuperBlock)
    (hpin : ∀ s ∈ (f (st.2.layer l)).pinnedSuperBlocks, st.2.Maps l s)
    (hst : (f (st.2.layer l)).Stamped st.2.step) :
    Sound cfg r ex out (st.1, st.2.modifyLayer l f) := by
  refine ⟨h.tables.relayer (h.tables.layers.retag hinv hexp hpin) (fun l' => ?_) rfl rfl,
    fun hs => (h.inv hs).retag hinv hexp hpin⟩
  rw [layer_modifyLayer]
  split
  · exact hst
  · exact h.tables.stamps l'

end

end Sound

structure Slot (cfg : PoolConfig) (strict : Prop) (st : UnifiedState K) (l s : Nat) : Prop where
  pos : 1 ≤ s
  lt : s < cfg.numSuperBlocks
  slot : (st.2.layer l).expertAtSuperBlock.get? s = none
  pages : strict → ∀ p, cfg.superBlockOfPage p = s → st.1.refCnt p = 0 ∧ st.1.hash p = none

theorem Sound.claim {r : Regime} {ex : Nat → Nat → Prop} {out : Nat → Prop}
    (h : Sound cfg r ex out st) {l s e : Nat} (hl : l ∈ cfg.layerIds)
    (hc : Slot cfg r.strict st l s) (he : (st.2.layer l).superBlockAtExpert.get? e = none) :
    Sound cfg r (fun l' s' => ex l' s' ∨ l' = l ∧ s' = s) out (st.1, claimed st.2 l s e) := by
  have hblank : Claimable cfg (onBlank st.1.numGpuBlocks st.2 : UnifiedState K) l s :=
    ⟨hc.pos, hc.lt, hc.slot, fun _ _ => ⟨rfl, rfl⟩⟩
  refine ⟨h.tables.relayer ((h.tables.layers.claim hl hblank he).mono fun _ _ _ => trivial)
    (fun l' => ?_) rfl rfl,
    fun hs => (h.inv hs).claim hl ⟨hc.pos, hc.lt, hc.slot, hc.pages hs⟩ he⟩
  rw [layer_claimed]
  split
  · exact (h.tables.stamps l).assigned he
  · exact h.tables.stamps l'

end Unified
end Vllm
