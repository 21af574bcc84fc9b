import Vllm.Unified.Victims

/-! How a super-block is chosen for an expert that is missing. The first tier evicts nothing and is
the plain scan over all super-blocks in disguise. The second weighs the layer's coldest expert
against the super-block of KV pages with the most pages at the cold end of the recency list. When
neither finds anything, there is nothing to find. -/

namespace Vllm.Unified
open Base Dict UnifiedPoolManager List

variable {K : Type} [DecidableEq K]
variable {cfg : PoolConfig} {r : Regime} {ex : Nat → Nat → Prop} {st st₀ : UnifiedState K}

/-! ## The first tier -/

def isCoLocatable (st : UnifiedState K) (u : UnifiedPool) (s : Nat) : Bool :=
  st.2.isHeld s && decide (s ∉ u.pinnedSuperBlocks) && (u.expertAtSuperBlock.get? s).isNone

/-- What the first tier is for: every super-block but the reserved one, in ascending order, first
for a place beside other layers' experts, then for one that is free. -/
def plainScan (cfg : PoolConfig) (st : UnifiedState K) (l : Nat) : Option (Nat × Tier) :=
  let u := st.2.layer l
  let candidates := List.range' 1 (cfg.numSuperBlocks - 1)
  match candidates.find? (isCoLocatable st u) with
  | some s => some (s, .freeCrossLayerExpert)
  | none => (candidates.find? (isFreePure cfg st u)).map fun s => (s, .freePure)

theorem min?_eq_find?_range' {l : List Nat} {p : Nat → Bool} {a n : Nat}
    (h : ∀ s, s ∈ l ↔ (a ≤ s ∧ s < a + n) ∧ p s = true) :
    l.min? = (List.range' a n).find? p := by
  rcases hfind : (List.range' a n).find? p with _ | s
  · rw [min?_eq_none_iff, eq_nil_iff_forall_not_mem]
    intro s hs
    obtain ⟨hrange, hp⟩ := (h s).mp hs
    have hnot := find?_range'_eq_none.mp hfind s hrange.1 hrange.2
    simp [hp] at hnot
  · obtain ⟨hp, hmem, hleast⟩ := find?_range'_eq_some.mp hfind
    refine min?_eq_some_iff.mpr ⟨(h s).mpr ⟨mem_range'_1.mp hmem, hp⟩, fun s' hs' => ?_⟩
    obtain ⟨hrange, hp'⟩ := (h s').mp hs'
    refine Nat.le_of_not_lt fun hlt => ?_
    have hnot := hleast s' hrange.1 hlt
    simp [hp'] at hnot

theorem Core.mem_holder_keys_iff (h : Core cfg st) {s : Nat} :
    s ∈ st.2.superBlockHolder.keys ↔ Held cfg st.2 s := by
  refine ⟨h.holder_key, fun ⟨l, hl, hm⟩ => ?_⟩
  have hmem := (h.holder s l).mpr ⟨hl, hm⟩
  rw [mem_keys_iff]
  rcases hs : st.2.superBlockHolder.get? s with _ | holders
  · simp [hs] at hmem
  · rfl

theorem Core.crossLayer_eq (h : Core cfg st) (u : UnifiedPool) :
    (st.2.superBlockHolder.keys.filter fun s => decide (s > 0) &&
        decide (s ∉ u.pinnedSuperBlocks) && (u.expertAtSuperBlock.get? s).isNone).min? =
      (List.range' 1 (cfg.numSuperBlocks - 1)).find? (isCoLocatable st u) := by
  refine min?_eq_find?_range' fun s => ?_
  rw [mem_filter, h.mem_holder_keys_iff]
  simp only [isCoLocatable, Bool.and_eq_true, decide_eq_true_eq, h.isHeld_iff]
  constructor
  · rintro ⟨hheld, ⟨hpos, hpin⟩, hslot⟩
    have hrange := h.held_range s hheld
    exact ⟨⟨hrange.1, by omega⟩, ⟨hheld, hpin⟩, hslot⟩
  · rintro ⟨⟨hpos, -⟩, ⟨hheld, hpin⟩, hslot⟩
    exact ⟨hheld, ⟨hpos, hpin⟩, hslot⟩

section
variable (h : Inv cfg ex (fun _ => False) st)
include h

theorem Inv.pages_of_isFreePure {u : UnifiedPool} {s : Nat}
    (hs : 1 ≤ s ∧ s < cfg.numSuperBlocks) (hpure : isFreePure cfg st u s = true) :
    ∀ p ∈ cfg.pagesOf s, p ∈ st.1.free ∧ st.1.hash p = none := by
  intro p hp
  have h0 : p ≠ 0 := page_ne_zero ((mem_pagesOf.mp hp).symm ▸ hs.1)
  simp only [isFreePure, Bool.and_eq_true, all_eq_true, decide_eq_true_eq,
    Option.isNone_iff_eq_none] at hpure
  obtain ⟨href, hhash⟩ := hpure.2 p hp
  have hnonneg := h.core.pool.ref_nonneg p h0
  exact ⟨h.complete p (pages_lt h.core.supers hs.2 p hp) h0 (by omega) False.elim, hhash⟩

theorem Inv.le_freeUnhashed {s : Nat}
    (hpages : ∀ p ∈ cfg.pagesOf s, p ∈ st.1.free ∧ st.1.hash p = none) :
    (cfg.pagesPerSuperBlock : Int) ≤ st.1.getNumFreeBlocks - st.2.prefixLru.size := by
  rw [h.lruExact.count, countP_eq_length_filter]
  have hsub : cfg.pagesOf s ⊆ st.1.free.filter fun p => (st.1.hash p).isNone := fun p hp =>
    mem_filter.mpr ⟨(hpages p hp).1, by simp [(hpages p hp).2]⟩
  have hlen := (subperm_of_subset nodup_range' hsub).length_le
  rw [length_range'] at hlen
  exact_mod_cast hlen

theorem Inv.firstTier_eq (l : Nat) : firstTier cfg st l = plainScan cfg st l := by
  unfold firstTier plainScan
  simp only [h.core.crossLayer_eq]
  rcases (List.range' 1 (cfg.numSuperBlocks - 1)).find? (isCoLocatable st (st.2.layer l)) with
    _ | s
  · by_cases hfew : st.1.getNumFreeBlocks - st.2.prefixLru.size < cfg.pagesPerSuperBlock
    · -- the scan that is skipped would have found nothing
      have hnone : (List.range' 1 (cfg.numSuperBlocks - 1)).find?
          (isFreePure cfg st (st.2.layer l)) = none := by
        refine find?_eq_none.mpr fun s hs hpure => ?_
        have hrange := mem_range'_1.mp hs
        have hpages := h.pages_of_isFreePure ⟨hrange.1, by omega⟩ hpure
        exact absurd (h.le_freeUnhashed hpages) (not_le.mpr hfew)
      rw [hnone]
      exact if_pos hfew
    · exact if_neg hfew
  · rfl

end

structure ScansPlainly (cfg : PoolConfig) (st : UnifiedState K) : Prop where
  tier : ∀ l ∈ cfg.layerIds, firstTier cfg st l = plainScan cfg st l
  select : ∀ l ∈ cfg.layerIds, ∀ needed, selectSuperBlockForExpert cfg l needed st =
    match plainScan cfg st l with
    | some (s, _) => (.ok s, st)
    | none => evictForExpert cfg l needed st

theorem scan_of_run (h₀ : Started cfg st₀)
    (run : Run (Op.next cfg) (fun op st => op.Promised cfg st ∧ op.Steady cfg st) st₀ st) :
    ScansPlainly cfg st := by
  have h := (steady_of_run h₀ run).inv trivial
  refine ⟨fun l _ => h.firstTier_eq l, fun l _ needed => ?_⟩
  have htier := h.firstTier_eq l
  rw [selectSuperBlockForExpert_eq]
  rcases hscan : plainScan cfg st l with _ | ⟨s, tier⟩ <;> simp only [htier, hscan]

theorem scan_of_run_pageThenExpert :
    (oneLayerRun pageThenExpert).2.superBlockHolder.keys = [2] ∧
      plainScan oneLayer (oneLayerRun pageThenExpert) 0 = none ∧
      ScansPlainly oneLayer (oneLayerRun pageThenExpert) :=
  ⟨by decide, by decide, scan_of_run started_oneLayerStart run_pageThenExpert⟩

/-- A block is published and freed, the cache is reset, and blocks are allocated and freed. -/
def afterReset (n : Nat) (freed : List Nat) : List (Op Nat) :=
  cachedOps ++ [.resetPrefixCache, .getNewBlocks n, .freeBlocks freed]

theorem run_afterReset {n : Nat} {freed : List Nat}
    (hfreed : (oneLayerRun (cachedOps ++ [.resetPrefixCache, .getNewBlocks n])).1.Freeable freed) :
    Run (Op.next oneLayer) (fun op st => op.Promised oneLayer st) oneLayerStart
      (oneLayerRun (afterReset n freed)) :=
  .of_allowed
    ⟨trivial, by decide, by decide, trivial, trivial, hfreed, trivial⟩

/-- The entry that a reset left behind makes the guard count one page too few: super-block 1 is free
and is not found. -/
theorem guard_skips_free_super_block :
    Run (Op.next oneLayer) (fun op st => op.Promised oneLayer st) oneLayerStart
        (oneLayerRun (afterReset 1 [])) ∧
      (oneLayerRun (afterReset 1 [])).1.free = [1] ∧
      firstTier oneLayer (oneLayerRun (afterReset 1 [])) 0 = none ∧
      plainScan oneLayer (oneLayerRun (afterReset 1 [])) 0 = some (1, .freePure) ∧
      ¬ ScansPlainly oneLayer (oneLayerRun (afterReset 1 [])) :=
  ⟨run_afterReset ⟨by simp, by simp⟩, by decide, by decide, by decide,
    fun h => absurd (h.tier 0 (by decide)) (by decide)⟩

/-! ## The KV pages to give up -/

structure MayVacate (cfg : PoolConfig) (st : UnifiedState K) (s : Nat) : Prop where
  pos : s ≠ 0
  unheld : ¬ Held cfg st.2 s
  unpinned : st.2.anyLayerPinsSuperBlock cfg s = false
  dead : ∀ p, cfg.superBlockOfPage p = s → ¬ 0 < st.1.refCnt p

theorem Core.isVacatable_iff (h : Core cfg st) {s : Nat} :
    isVacatable cfg st s = true ↔ MayVacate cfg st s := by
  simp only [isVacatable, Bool.and_eq_true, Bool.not_eq_true', Bool.or_eq_false_iff,
    decide_eq_false_iff_not, List.any_eq_false, decide_eq_true_eq]
  rw [← Bool.not_eq_true, h.isHeld_iff]
  constructor
  · rintro ⟨⟨⟨h0, hheld⟩, hpin⟩, hlive⟩
    exact ⟨h0, hheld, hpin, fun p hp => hlive p (mem_pagesOf.mpr hp)⟩
  · rintro ⟨h0, hheld, hpin, hlive⟩
    exact ⟨⟨⟨h0, hheld⟩, hpin⟩, fun p hp => hlive p (mem_pagesOf.mp hp)⟩

structure OldestStep (cfg : PoolConfig) (st : UnifiedState K) (s t : Nat) : Prop where
  page : ∃ p, cfg.superBlockOfPage p = s ∧ st.1.hash p ≠ none ∧ st.2.prefixLru.get? p = some t
  least : ∀ p, cfg.superBlockOfPage p = s → st.1.hash p ≠ none →
    ∃ t', st.2.prefixLru.get? p = some t' ∧ t ≤ t'

theorem MayVacate.listed (h : Inv cfg ex (fun _ => False) st) {s p : Nat} (hs : MayVacate cfg st s)
    (hp : cfg.superBlockOfPage p = s) (hhash : st.1.hash p ≠ none) :
    ∃ t, (p, t) ∈ st.2.prefixLru.entries := by
  obtain ⟨hlt, h0⟩ := h.core.pool.hash_lt p hhash
  have hdead := hs.dead p hp
  have hnonneg := h.core.pool.ref_nonneg p h0
  have hfree := h.complete p hlt h0 (by omega) False.elim
  obtain ⟨⟨q, t⟩, hmem, rfl⟩ := mem_map.mp ((h.core.lru p).mpr ⟨hfree, hhash⟩)
  exact ⟨t, hmem⟩

theorem MayVacate.oldestStep (h : Inv cfg ex (fun _ => False) st)
    (hsorted : st.2.prefixLru.entries.Pairwise fun a b => a.2 ≤ b.2) {s n : Nat}
    (hs : MayVacate cfg st s) (happ : Appears cfg (st.2.prefixLru.entries.take n) s) :
    OldestStep cfg st s (firstStep cfg (st.2.prefixLru.entries.take n) s) := by
  obtain ⟨e, hfind⟩ : ∃ e, (st.2.prefixLru.entries.take n).find?
      (fun e => cfg.superBlockOfPage e.1 = s) = some e := by
    obtain ⟨e, he, hse⟩ := happ
    exact Option.isSome_iff_exists.mp (find?_isSome.mpr ⟨e, he, by simpa using hse⟩)
  have hstep : firstStep cfg (st.2.prefixLru.entries.take n) s = e.2 := by
    rw [firstStep, hfind]
    rfl
  have hse : cfg.superBlockOfPage e.1 = s := by simpa using find?_some hfind
  have hmem := mem_of_mem_take (mem_of_find?_eq_some hfind)
  rw [hstep]
  refine ⟨⟨e.1, hse, ((h.core.lru e.1).mp (mem_map.mpr ⟨e, hmem, rfl⟩)).2,
    get?_eq_some_iff.mpr hmem⟩, fun p hp hhash => ?_⟩
  obtain ⟨t', ht'⟩ := hs.listed h hp hhash
  refine ⟨t', get?_eq_some_iff.mpr ht', ?_⟩
  -- what stands before `e` is not of `s`, what stands after it is not older
  obtain ⟨-, before, after, hsplit, hbefore⟩ := find?_eq_some_iff_append.mp hfind
  have hall : st.2.prefixLru.entries = before ++ e :: (after ++ st.2.prefixLru.entries.drop n) := by
    rw [← cons_append, ← append_assoc, ← hsplit, take_append_drop]
  rw [hall, pairwise_append, pairwise_cons] at hsorted
  rw [hall, mem_append, mem_cons] at ht'
  rcases ht' with ht' | heq | ht'
  · have hskipped := hbefore _ ht'
    simp [hp] at hskipped
  · rw [← heq]
  · exact hsorted.2.1.1 _ ht'

/-- The super-block `s` with oldest step `t` is the cheapest to vacate: in the first windows of the
recency list that have a page of any candidate, it has the most pages, and among those with as many
the oldest one. -/
structure Cheapest (cfg : PoolConfig) (st : UnifiedState K) (s t : Nat) : Prop where
  candidate : MayVacate cfg st s
  oldest : OldestStep cfg st s t
  window : ∃ k, (∃ s', MayVacate cfg st s' ∧
      Appears cfg (st.2.prefixLru.entries.take (k * cfg.pagesPerSuperBlock)) s') ∧
    (∀ j < k, ∀ s', MayVacate cfg st s' →
      ¬ Appears cfg (st.2.prefixLru.entries.take (j * cfg.pagesPerSuperBlock)) s') ∧
    ∀ s', MayVacate cfg st s' →
      pagesWithin cfg (st.2.prefixLru.entries.take (k * cfg.pagesPerSuperBlock)) s' ≤
        pagesWithin cfg (st.2.prefixLru.entries.take (k * cfg.pagesPerSuperBlock)) s ∧
      (pagesWithin cfg (st.2.prefixLru.entries.take (k * cfg.pagesPerSuperBlock)) s' =
          pagesWithin cfg (st.2.prefixLru.entries.take (k * cfg.pagesPerSuperBlock)) s →
        ∀ t', OldestStep cfg st s' t' → t ≤ t')

omit [DecidableEq K] in
theorem OldestStep.le {s t t' : Nat} (h : OldestStep cfg st s t) (h' : OldestStep cfg st s t') :
    t ≤ t' := by
  obtain ⟨p, hp, hhash, ht'⟩ := h'.page
  obtain ⟨u, hu, hle⟩ := h.least p hp hhash
  rw [ht'] at hu
  cases hu
  exact hle

theorem Core.inPool_of_dvd (h : Core cfg st) (hdvd : cfg.pagesPerSuperBlock ∣ st.1.numGpuBlocks) :
    InPool cfg st.2.prefixLru.entries := by
  intro e he
  have hfree := ((h.lru e.1).mp (mem_map.mpr ⟨e, he, rfl⟩)).1
  rw [h.supers, PoolConfig.superBlockOfPage, Nat.div_lt_iff_lt_mul cfg.pages_pos,
    Nat.div_mul_cancel hdvd]
  exact (h.pool.free_spec _ hfree).1

theorem cheapestKvSuperBlock_eq (h : Inv cfg ex (fun _ => False) st)
    (hsorted : st.2.prefixLru.entries.Pairwise fun a b => a.2 ≤ b.2)
    (hdvd : cfg.pagesPerSuperBlock ∣ st.1.numGpuBlocks) :
    ∃ r, cheapestKvSuperBlock cfg st = (.ok r, st) ∧
      (r = none → ∀ s, MayVacate cfg st s → ∀ p, cfg.superBlockOfPage p = s → st.1.hash p = none) ∧
      ∀ s w, r = some (s, w) → ∃ t : Nat, w = kvScore cfg st s t ∧ Cheapest cfg st s t := by
  obtain ⟨r, st', hrun, hst, hscan⟩ := ((cheapestKvSuperBlock_spec h.core.supers).mapError
    fun _ _ hs => hs.2 (h.core.inPool_of_dvd hdvd)).exists_ok rfl
  refine ⟨r, hrun.trans (by rw [hst]), fun hr s hs p hp => ?_, fun s w hs => ?_⟩
  · refine by_contra fun hhash => ?_
    obtain ⟨t, ht⟩ := hs.listed h hp hhash
    have hnot := bestIn_eq_none_iff.mp (hscan.nothing hr) s ⟨(p, t), ht, hp⟩
    rw [h.core.isVacatable_iff.mpr hs] at hnot
    cases hnot
  · obtain ⟨j, n, t, hw, hbest, hbefore⟩ := hscan.best s w hs
    obtain ⟨hvac, happ, rfl, rfl, hmost⟩ := bestIn_eq_some hbest
    have hcand := h.core.isVacatable_iff.mp hvac
    have holdest := hcand.oldestStep h hsorted happ
    refine ⟨_, hw, hcand, holdest, j, ⟨s, hcand, happ⟩, fun i hij s' hs' happ' => ?_,
      fun s' hs' => ?_⟩
    · have hnot := bestIn_eq_none_iff.mp (hbefore i (Nat.zero_le i) hij) s' happ'
      rw [h.core.isVacatable_iff.mpr hs'] at hnot
      cases hnot
    · by_cases happ' : Appears cfg (st.2.prefixLru.entries.take (j * cfg.pagesPerSuperBlock)) s'
      · rcases hmost s' (h.core.isVacatable_iff.mpr hs') happ' with hlt | ⟨heq, hle⟩
        · exact ⟨hlt.le, fun hc => absurd hc hlt.ne⟩
        · exact ⟨heq.le, fun _ t' ht' => hle.trans ((hs'.oldestStep h hsorted happ').le ht')⟩
      · rw [appears_iff, Nat.pos_iff_ne_zero, not_not] at happ'
        rw [appears_iff] at happ
        rw [happ']
        exact ⟨Nat.zero_le _, fun hc => absurd hc happ.ne⟩

/-! ## The layer's own experts -/

structure OwnExpert (u : UnifiedPool) (needed : List Nat) (e s t : Nat) : Prop where
  unneeded : e ∉ needed
  loaded : u.superBlockAtExpert.get? e = some s
  unpinned : s ∉ u.pinnedSuperBlocks
  step : u.expertLru.get? e = some t

theorem ownColdestExpert_coldest {u : UnifiedPool} {k : Nat} (hst : u.Stamped k)
    (needed : List Nat) :
    match ownColdestExpert u needed with
    | none => ∀ e s t, ¬ OwnExpert u needed e s t
    | some (s, t) => (∃ e, OwnExpert u needed e s t) ∧
        ∀ e' s' t', OwnExpert u needed e' s' t' → t ≤ t' := by
  rcases hown : ownColdestExpert u needed with _ | ⟨s, t⟩
  · intro e s t h
    have hnone := findSome?_eq_none_iff.mp hown (e, t) (get?_eq_some_iff.mp h.step)
    simp [h.unneeded, h.loaded, h.unpinned] at hnone
  · rw [ownColdestExpert, findSome?_eq_some_iff] at hown
    obtain ⟨before, ⟨e, t₀⟩, after, hsplit, hfound, hbefore⟩ := hown
    obtain ⟨hneed, hrest⟩ := ite_eq_iff.mp hfound |>.resolve_left (by simp)
    rcases hs : u.superBlockAtExpert.get? e with _ | s₀ <;> rw [hs] at hrest
    · cases hrest
    · obtain ⟨hpin, heq⟩ := ite_eq_iff.mp hrest |>.resolve_left (by simp)
      obtain ⟨rfl, rfl⟩ : s₀ = s ∧ t₀ = t := by simpa using heq
      have hsorted := hst.sorted
      rw [hsplit, pairwise_append, pairwise_cons] at hsorted
      refine ⟨⟨e, hneed, hs, hpin, get?_eq_some_iff.mpr (by rw [hsplit]; simp)⟩,
        fun e' s' t' h => ?_⟩
      have hmem := get?_eq_some_iff.mp h.step
      rw [hsplit, mem_append, mem_cons] at hmem
      rcases hmem with hmem | heq | hmem
      · have hnone := hbefore _ hmem
        -- an entry that the scan passes over is of no such expert
        simp [h.unneeded, h.loaded, h.unpinned] at hnone
      · exact (Prod.mk.inj heq).2.ge
      · exact hsorted.2.1.1 _ hmem

/-! ## The cold end of the list -/

/-- The search returns the cheapest super-block, or nothing if no candidate has a cached page; an
expert goes in its place exactly when the expert is colder. -/
structure WeighsColdest (cfg : PoolConfig) (st : UnifiedState K) : Prop where
  cheapest : ∃ r, cheapestKvSuperBlock cfg st = (.ok r, st) ∧
    (r = none → ∀ s, MayVacate cfg st s → ∀ p, cfg.superBlockOfPage p = s → st.1.hash p = none) ∧
    ∀ s w, r = some (s, w) → ∃ t : Nat, w = t ∧ Cheapest cfg st s t
  evict : ∀ s w, cheapestKvSuperBlock cfg st = (.ok (some (s, w)), st) →
    ∀ l ∈ cfg.layerIds, ∀ needed,
      ((∀ e s' t, ¬ OwnExpert (st.2.layer l) needed e s' t) →
        evictForExpert cfg l needed st = takeKvSuperBlock cfg s st) ∧
      ((∃ e s' t, OwnExpert (st.2.layer l) needed e s' t) →
        ∃ e s₁ t₁, OwnExpert (st.2.layer l) needed e s₁ t₁ ∧
          (∀ e' s' t', OwnExpert (st.2.layer l) needed e' s' t' → t₁ ≤ t') ∧
          evictForExpert cfg l needed st =
            if w ≤ t₁ then takeKvSuperBlock cfg s st else takeOwnExpert l s₁ st)

theorem weighs_of_run (h₀ : Started cfg st₀)
    (run : Run (Op.next cfg) (fun op st => op.Promised cfg st ∧ op.Steady cfg st) st₀ st)
    (hold : cfg.kvScoreOldest = true) (hdvd : cfg.pagesPerSuperBlock ∣ st.1.numGpuBlocks) :
    WeighsColdest cfg st := by
  have h := steady_of_run h₀ run
  obtain ⟨r, hrun, hnone, hsome⟩ :=
    cheapestKvSuperBlock_eq (h.inv trivial) h.tables.recency.sorted hdvd
  refine ⟨⟨r, hrun, hnone, fun s w hr => ?_⟩, fun s w hr l _ needed => ?_⟩
  · obtain ⟨t, hw, hcheap⟩ := hsome s w hr
    exact ⟨t, hw.trans (if_pos hold), hcheap⟩
  have hown := ownColdestExpert_coldest (h.tables.stamps l) needed
  rw [evictForExpert_eq hr]
  rcases hbest : ownColdestExpert (st.2.layer l) needed with _ | ⟨s₁, t₁⟩ <;> rw [hbest] at hown
  · exact ⟨fun _ => rfl, fun ⟨e, s', t, hc⟩ => absurd hc (hown e s' t)⟩
  · obtain ⟨⟨e, he⟩, hleast⟩ := hown
    exact ⟨fun hc => absurd he (hc e s₁ t₁), fun _ => ⟨e, s₁, t₁, he, hleast, rfl⟩⟩

def oldestScored : PoolConfig := { oneLayer with kvScoreOldest := true }

theorem started_oldestScored : Started oldestScored oneLayerStart :=
  ⟨3, true, fun _ _ => 0, [], fun _ _ _ => 0, by decide, rfl, rfl⟩

def oldestScoredRun (ops : List (Op Nat)) : UnifiedState Nat :=
  ops.foldl (fun st op => op.next oldestScored st) oneLayerStart

theorem weighs_of_run_pageThenExpert :
    cheapestKvSuperBlock oldestScored (oldestScoredRun pageThenExpert) =
        (.ok (some (1, 0)), oldestScoredRun pageThenExpert) ∧
      ((oldestScoredRun pageThenExpert).2.layer 0).expertLru.get? 0 = some 1 ∧
      WeighsColdest oldestScored (oldestScoredRun pageThenExpert) := by
  have hops : Run.Allowed (Op.next oldestScored) (fun op st => op.Promised oldestScored st ∧
      op.Steady oldestScored st) pageThenExpert oneLayerStart :=
    ⟨⟨trivial, .inl (by decide)⟩, ⟨by decide, rfl⟩, ⟨by decide, trivial⟩, ⟨trivial, trivial⟩,
      ⟨by decide, trivial⟩, ⟨trivial, trivial⟩, trivial⟩
  have hcheap : (cheapestKvSuperBlock oldestScored (oldestScoredRun pageThenExpert)).1 =
      .ok (some (1, 0)) := by decide
  have hweighs := weighs_of_run started_oldestScored (.of_allowed hops) rfl (by decide)
  refine ⟨?_, by decide, hweighs⟩
  obtain ⟨r, hrun, -⟩ := hweighs.cheapest
  have hr : (.ok r : Except PyError _) = .ok (some (1, 0)) :=
    (congrArg Prod.fst hrun).symm.trans hcheap
  cases hr
  exact hrun

theorem cheapest_without_cached_page :
    Run (Op.next oldestScored) (fun op st => op.Promised oldestScored st) oneLayerStart
        (oldestScoredRun (afterReset 0 [])) ∧
      (∀ p, (oldestScoredRun (afterReset 0 [])).1.hash p = none) ∧
      (cheapestKvSuperBlock oldestScored (oldestScoredRun (afterReset 0 []))).1 =
        .ok (some (1, 0)) ∧
      ¬ WeighsColdest oldestScored (oldestScoredRun (afterReset 0 [])) := by
  have hops : Run.Allowed (Op.next oldestScored) (fun op st => op.Promised oldestScored st)
      (afterReset 0 []) oneLayerStart := by decide
  have hhash : ∀ p, (oldestScoredRun (afterReset 0 [])).1.hash p = none := fun _ => rfl
  have hcheap : (cheapestKvSuperBlock oldestScored (oldestScoredRun (afterReset 0 []))).1 =
      .ok (some (1, 0)) := by decide
  refine ⟨.of_allowed hops, hhash, hcheap, fun h => ?_⟩
  obtain ⟨r, hrun, -, hsome⟩ := h.cheapest
  have hr : (.ok r : Except PyError _) = .ok (some (1, 0)) :=
    (congrArg Prod.fst hrun).symm.trans hcheap
  cases hr
  obtain ⟨t, -, hc⟩ := hsome 1 0 rfl
  obtain ⟨p, -, hp, -⟩ := hc.oldest.page
  exact hp (hhash p)

/-! ## Nothing to find -/

/-- Some super-block can take an expert of layer `l`: other layers have experts there, or it is free,
or the layer has an expert there that may go, or its KV pages may go. -/
def SomeUsable (cfg : PoolConfig) (st : UnifiedState K) (l : Nat) (needed : List Nat) : Prop :=
  ∃ s, (1 ≤ s ∧ s < cfg.numSuperBlocks) ∧
    ((Held cfg st.2 s ∧ ¬ st.2.Maps l s) ∨
      (¬ Held cfg st.2 s ∧ ∀ p, cfg.superBlockOfPage p = s → p ∈ st.1.free ∧ st.1.hash p = none) ∨
      (s ∉ (st.2.layer l).pinnedSuperBlocks ∧
        ∃ e, e ∉ needed ∧ (st.2.layer l).superBlockAtExpert.get? e = some s) ∨
      (MayVacate cfg st s ∧ ∃ p, cfg.superBlockOfPage p = s ∧ st.1.hash p ≠ none))

theorem poolExhausted_ne_deviceError (l : Nat) : poolExhausted l ≠ deviceError := by
  intro hc
  have hlen := congrArg String.length (PyError.runtimeError.inj hc)
  simp only [String.length_append] at hlen
  have hright : "CUDA error".length = 10 := rfl
  have hleft : "expert miss. No free super-block, no evictable expert, and no ".length = 62 := rfl
  omega

theorem Inv.plainScan_eq_none_iff (h : Inv cfg ex (fun _ => False) st) {l : Nat}
    (hl : l ∈ cfg.layerIds) :
    plainScan cfg st l = none ↔ ∀ s, 1 ≤ s → s < cfg.numSuperBlocks →
      ¬ (Held cfg st.2 s ∧ ¬ st.2.Maps l s) ∧
      ¬ (¬ Held cfg st.2 s ∧ ∀ p, cfg.superBlockOfPage p = s →
          p ∈ st.1.free ∧ st.1.hash p = none) := by
  have hpin : ∀ s, s ∈ (st.2.layer l).pinnedSuperBlocks → st.2.Maps l s := h.pinned l hl
  have hslot : ∀ s, ((st.2.layer l).expertAtSuperBlock.get? s).isNone = true ↔ ¬ st.2.Maps l s := by
    intro s
    rw [Maps, mem_keys_iff, Option.isNone_iff_eq_none, Option.not_isSome_iff_eq_none]
  have hco : ∀ s, isCoLocatable st (st.2.layer l) s = true ↔ Held cfg st.2 s ∧ ¬ st.2.Maps l s := by
    intro s
    simp only [isCoLocatable, Bool.and_eq_true, decide_eq_true_eq, h.core.isHeld_iff, hslot]
    exact ⟨fun hc => ⟨hc.1.1, hc.2⟩, fun hc => ⟨⟨hc.1, fun hp => hc.2 (hpin s hp)⟩, hc.2⟩⟩
  have hfree : ∀ s, 1 ≤ s → s < cfg.numSuperBlocks → (isFreePure cfg st (st.2.layer l) s = true ↔
      ¬ Held cfg st.2 s ∧ ∀ p, cfg.superBlockOfPage p = s → p ∈ st.1.free ∧ st.1.hash p = none) := by
    intro s h1 h2
    constructor
    · intro hc
      refine ⟨fun hh => ?_, fun p hp => h.pages_of_isFreePure ⟨h1, h2⟩ hc p (mem_pagesOf.mpr hp)⟩
      simp [isFreePure, h.core.isHeld_iff.mpr hh] at hc
    · rintro ⟨hheld, hpages⟩
      have hmaps : ¬ st.2.Maps l s := fun hm => hheld ⟨l, hl, hm⟩
      simp only [isFreePure, Bool.and_eq_true, decide_eq_true_eq, hslot, Bool.not_eq_true',
        ← Bool.not_eq_true, h.core.isHeld_iff, all_eq_true, Option.isNone_iff_eq_none]
      refine ⟨⟨⟨fun hp => hmaps (hpin s hp), hmaps⟩, hheld⟩, fun p hp => ?_⟩
      obtain ⟨hf, hhash⟩ := hpages p (mem_pagesOf.mp hp)
      exact ⟨(h.core.pool.free_spec p hf).2.1.le, hhash⟩
  unfold plainScan
  simp only
  constructor
  · intro hnone s h1 h2
    have hmem : s ∈ List.range' 1 (cfg.numSuperBlocks - 1) := mem_range'_1.mpr ⟨h1, by omega⟩
    split at hnone
    · cases hnone
    · next hfind =>
      refine ⟨fun hc => find?_eq_none.mp hfind s hmem ((hco s).mpr hc), fun hc => ?_⟩
      exact find?_eq_none.mp (Option.map_eq_none_iff.mp hnone) s hmem ((hfree s h1 h2).mpr hc)
  · intro hall
    have hrange : ∀ s ∈ List.range' 1 (cfg.numSuperBlocks - 1), 1 ≤ s ∧ s < cfg.numSuperBlocks :=
      fun s hs => ⟨(mem_range'_1.mp hs).1, by have := mem_range'_1.mp hs; omega⟩
    have hnoco : (List.range' 1 (cfg.numSuperBlocks - 1)).find?
        (isCoLocatable st (st.2.layer l)) = none := find?_eq_none.mpr fun s hs hc =>
      (hall s (hrange s hs).1 (hrange s hs).2).1 ((hco s).mp hc)
    rw [hnoco]
    refine Option.map_eq_none_iff.mpr (find?_eq_none.mpr fun s hs hc => ?_)
    exact (hall s (hrange s hs).1 (hrange s hs).2).2
      ((hfree s (hrange s hs).1 (hrange s hs).2).mp hc)

theorem Cheapest.lt (h : Core cfg st) (hdvd : cfg.pagesPerSuperBlock ∣ st.1.numGpuBlocks) {s t : Nat}
    (hs : Cheapest cfg st s t) : s < cfg.numSuperBlocks := by
  obtain ⟨p, rfl, -, hp⟩ := hs.oldest.page
  exact h.inPool_of_dvd hdvd _ (get?_eq_some_iff.mp hp)

theorem takeKvSuperBlock_ne_exhausted {out : Nat → Prop} (h : Sound cfg r ex out st) {s l : Nat}
    (hs : MayVacate cfg st s) (hlt : s < cfg.numSuperBlocks) :
    (takeKvSuperBlock cfg s st).1 ≠ .error (poolExhausted l) := by
  have hvac : Vacatable cfg st s := ⟨Nat.pos_of_ne_zero hs.pos, hs.unheld,
    fun p hp => not_lt.mp (hs.dead p hp),
    fun p hp => pages_lt h.tables.supers hlt p (mem_pagesOf.mpr hp)⟩
  have hcall := vacateKvSuperBlock_sound h hvac st rfl
  rw [takeKvSuperBlock, Call.run_bind]
  rcases hrun : vacateKvSuperBlock cfg s st with ⟨e | u, st'⟩ <;> rw [hrun] at hcall
  · simp only [ne_eq, Except.error.injEq]
    rw [hcall.2.2.1]
    exact (poolExhausted_ne_deviceError l).symm
  · simp

theorem exhausted_of_run (h₀ : Started cfg st₀)
    (run : Run (Op.next cfg) (fun op st => op.Promised cfg st ∧ op.Steady cfg st) st₀ st)
    (hdvd : cfg.pagesPerSuperBlock ∣ st.1.numGpuBlocks) {l : Nat} (hl : l ∈ cfg.layerIds)
    (needed : List Nat) :
    (selectSuperBlockForExpert cfg l needed st).1 = .error (poolExhausted l) ↔
      ¬ SomeUsable cfg st l needed := by
  have hs := steady_of_run h₀ run
  have h := hs.inv trivial
  have hown := ownColdestExpert_coldest (hs.tables.stamps l) needed
  obtain ⟨r, hrun, hnone, hsome⟩ := cheapestKvSuperBlock_eq h hs.tables.recency.sorted hdvd
  rw [selectSuperBlockForExpert_eq, h.firstTier_eq l]
  rcases hscan : plainScan cfg st l with _ | ⟨s, tier⟩
  · have hfirst := (h.plainScan_eq_none_iff hl).mp hscan
    simp only
    rw [evictForExpert_eq hrun]
    rcases hbest : ownColdestExpert (st.2.layer l) needed with _ | ⟨s, t⟩ <;> rw [hbest] at hown
    · rcases r with _ | ⟨kvS, w⟩
      · -- nothing is left of the four kinds
        refine iff_of_true rfl ?_
        rintro ⟨s, ⟨h1, h2⟩, hco | hfree | ⟨hpin, e, hneed, he⟩ | ⟨hvac, p, hp, hhash⟩⟩
        · exact (hfirst s h1 h2).1 hco
        · exact (hfirst s h1 h2).2 hfree
        · have hkey := (((h.core.layer l hl).lru e).mpr (mem_keys_of_get? he))
          obtain ⟨t, ht⟩ := exists_of_mem_keys hkey
          exact hown e s t ⟨hneed, he, hpin, ht⟩
        · exact hhash (hnone rfl s hvac p hp)
      · obtain ⟨t, -, hcheap⟩ := hsome kvS w rfl
        obtain ⟨p, hp, hhash, -⟩ := hcheap.oldest.page
        have hlt := hcheap.lt h.core hdvd
        refine iff_of_false (takeKvSuperBlock_ne_exhausted hs hcheap.candidate hlt)
          (not_not.mpr ⟨kvS, ⟨Nat.pos_of_ne_zero hcheap.candidate.pos, hlt⟩, ?_⟩)
        exact .inr (.inr (.inr ⟨hcheap.candidate, p, hp, hhash⟩))
    · obtain ⟨⟨e, he⟩, -⟩ := hown
      have hmaps : st.2.Maps l s :=
        maps_iff.mpr ⟨e, ((h.core.layer l hl).inverse s e).mpr he.loaded⟩
      have husable : SomeUsable cfg st l needed := ⟨s, h.core.held_range s ⟨l, hl, hmaps⟩,
        .inr (.inr (.inl ⟨he.unpinned, e, he.unneeded, he.loaded⟩))⟩
      have hok : (takeOwnExpert l s st).1 ≠ .error (poolExhausted l) := fun hc => nomatch hc
      refine iff_of_false ?_ (not_not.mpr husable)
      rcases r with _ | ⟨kvS, w⟩
      · exact hok
      · obtain ⟨t', -, hcheap⟩ := hsome kvS w rfl
        simp only
        split
        · exact takeKvSuperBlock_ne_exhausted hs hcheap.candidate (hcheap.lt h.core hdvd)
        · exact hok
  · refine iff_of_false (fun hc => nomatch hc) (not_not.mpr ?_)
    by_contra hunusable
    have hnoscan : plainScan cfg st l = none := by
      refine (h.plainScan_eq_none_iff hl).mpr fun s h1 h2 => ⟨fun hc => ?_, fun hc => ?_⟩
      · exact hunusable ⟨s, ⟨h1, h2⟩, .inl hc⟩
      · exact hunusable ⟨s, ⟨h1, h2⟩, .inr (.inl hc)⟩
    rw [hscan] at hnoscan
    cases hnoscan

theorem freeable_two :
    (oneLayerRun (cachedOps ++ [.resetPrefixCache, .getNewBlocks 2])).1.Freeable [2] := by decide

theorem exhausted_of_run_allInUse :
    (selectSuperBlockForExpert oneLayer 0 [0] (oneLayerRun [.getNewBlocks 2])).1 =
        .error (poolExhausted 0) ∧
      ((selectSuperBlockForExpert oneLayer 0 [0] (oneLayerRun [.getNewBlocks 2])).1 =
        .error (poolExhausted 0) ↔ ¬ SomeUsable oneLayer (oneLayerRun [.getNewBlocks 2]) 0 [0]) := by
  have hops : Run.Allowed (Op.next oneLayer) (fun op st => op.Promised oneLayer st ∧
      op.Steady oneLayer st) [.getNewBlocks 2] oneLayerStart :=
    ⟨⟨trivial, .inl (by decide)⟩, trivial⟩
  exact ⟨rfl, exhausted_of_run started_oneLayerStart (.of_allowed hops) (by decide)
    (by decide) [0]⟩

/-- The entry left behind is of a page in use. The guard subtracts it from the count of free pages,
and the load of an expert fails beside a free super-block. -/
theorem exhausted_beside_free_super_block :
    Run (Op.next oneLayer) (fun op st => op.Promised oneLayer st) oneLayerStart
        (oneLayerRun (afterReset 2 [2])) ∧
      (selectSuperBlockForExpert oneLayer 0 [0] (oneLayerRun (afterReset 2 [2]))).1 =
        .error (poolExhausted 0) ∧
      SomeUsable oneLayer (oneLayerRun (afterReset 2 [2])) 0 [0] := by
  refine ⟨run_afterReset freeable_two, rfl, 2, by decide, .inr (.inl ⟨?_, fun p hp => ?_⟩)⟩
  · rintro ⟨l, hl, hm⟩
    obtain rfl : l = 0 := by simpa [oneLayer] using hl
    have hnone : ((oneLayerRun (afterReset 2 [2])).2.layer 0).expertAtSuperBlock.keys = [] := by
      decide
    simp [Maps, hnone] at hm
  · obtain rfl : p = 2 := by simpa [PoolConfig.superBlockOfPage, oneLayer] using hp
    decide

end Vllm.Unified
