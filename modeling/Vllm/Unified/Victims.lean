import Vllm.Unified.Vacating

/-! Which page a KV allocation takes. A page that costs nothing comes first. Without one, the coldest
thing goes that can go: a cached page, or the experts of a super-block, whose age is that of its
coldest holder. -/

namespace Vllm.Unified
open Base Dict Call UnifiedPoolManager List

variable {K : Type} [DecidableEq K]
variable {cfg : PoolConfig} {ex : Nat → Nat → Prop} {out : Nat → Prop} {st st₀ : UnifiedState K}

/-! ## What can be evicted -/

structure PageAge (cfg : PoolConfig) (st : UnifiedState K) (p t : Nat) : Prop where
  free : p ∈ st.1.free
  cached : st.1.hash p ≠ none
  unpinned : st.2.anyLayerPinsSuperBlock cfg (cfg.superBlockOfPage p) = false
  step : st.2.prefixLru.get? p = some t

def HolderStep (st : UnifiedState K) (l s t : Nat) : Prop :=
  ∃ e, (st.2.layer l).expertAtSuperBlock.get? s = some e ∧
    (st.2.layer l).expertLru.get? e = some t

structure ExpertAge (cfg : PoolConfig) (st : UnifiedState K) (s t : Nat) : Prop where
  unpinned : st.2.anyLayerPinsSuperBlock cfg s = false
  step : ∃ l ∈ cfg.layerIds, HolderStep st l s t
  oldest : ∀ l ∈ cfg.layerIds, ∀ t', HolderStep st l s t' → t ≤ t'

section
variable (h : Core cfg st)
include h

theorem Core.coldestHolderStep_iff {s : Nat} {holders : Finset Nat}
    (hs : st.2.superBlockHolder.get? s = some holders) {t : Nat} :
    st.2.coldestHolderStep cfg s holders = some t ↔
      (∃ l ∈ cfg.layerIds, HolderStep st l s t) ∧
        ∀ l ∈ cfg.layerIds, ∀ t', HolderStep st l s t' → t ≤ t' := by
  have hmem : ∀ t', t' ∈ (cfg.layerIds.filter fun l => l ∈ holders).filterMap (fun l =>
      (st.2.layer l).expertAtSuperBlock.get? s >>= (st.2.layer l).expertLru.get?) ↔
      ∃ l ∈ cfg.layerIds, HolderStep st l s t' := by
    intro t'
    rw [mem_filterMap]
    constructor
    · rintro ⟨l, hl, hstep⟩
      exact ⟨l, (mem_filter.mp hl).1, Option.bind_eq_some_iff.mp hstep⟩
    · rintro ⟨l, hl, e, he, ht⟩
      have hheld := (h.holder s l).mpr ⟨hl, maps_iff.mpr ⟨e, he⟩⟩
      rw [hs, Option.getD_some] at hheld
      exact ⟨l, mem_filter.mpr ⟨hl, by simpa using hheld⟩, Option.bind_eq_some_iff.mpr ⟨e, he, ht⟩⟩
  rw [coldestHolderStep, min?_eq_some_iff, hmem]
  refine and_congr_right fun _ => ⟨fun hle l hl t' ht' => hle t' ((hmem t').mpr ⟨l, hl, ht'⟩),
    fun hle t' ht' => ?_⟩
  obtain ⟨l, hl, hstep⟩ := (hmem t').mp ht'
  exact hle l hl t' hstep

theorem ExpertAge.entry {s t : Nat} (ha : ExpertAge cfg st s t) :
    ∃ holders, (s, holders) ∈ st.2.superBlockHolder.entries ∧
      st.2.coldestHolderStep cfg s holders = some t := by
  obtain ⟨l, hl, e, he, ht⟩ := ha.step
  have hheld := (h.holder s l).mpr ⟨hl, maps_iff.mpr ⟨e, he⟩⟩
  rcases hs : st.2.superBlockHolder.get? s with _ | holders
  · simp [hs] at hheld
  · exact ⟨holders, get?_eq_some_iff.mp hs,
      (h.coldestHolderStep_iff hs).mpr ⟨⟨l, hl, e, he, ht⟩, ha.oldest⟩⟩

theorem Core.oldestGlobalExpert_age :
    match st.2.oldestGlobalExpert cfg with
    | none => ∀ s t, ¬ ExpertAge cfg st s t
    | some (s, t) => ExpertAge cfg st s t ∧ ∀ s' t', ExpertAge cfg st s' t' → t ≤ t' := by
  have hcold := oldestGlobalExpert_coldest cfg st.2
  rcases hbest : st.2.oldestGlobalExpert cfg with _ | ⟨s, t⟩ <;> rw [hbest] at hcold
  · intro s t ha
    obtain ⟨holders, hmem, hstep⟩ := ha.entry h
    rw [hcold _ hmem ha.unpinned] at hstep
    cases hstep
  · obtain ⟨⟨holders, hmem, hpin, hstep⟩, hleast⟩ := hcold
    obtain ⟨hex, hle⟩ := (h.coldestHolderStep_iff (get?_eq_some_iff.mpr hmem)).mp hstep
    refine ⟨⟨hpin, hex, hle⟩, fun s' t' ha => ?_⟩
    obtain ⟨holders', hmem', hstep'⟩ := ha.entry h
    exact hleast _ hmem' ha.unpinned t' hstep'

theorem Core.pageAge_iff {p t : Nat} :
    PageAge cfg st p t ↔ (p, t) ∈ st.2.prefixLru.entries ∧
      st.2.anyLayerPinsSuperBlock cfg (cfg.superBlockOfPage p) = false := by
  constructor
  · exact fun ha => ⟨get?_eq_some_iff.mp ha.step, ha.unpinned⟩
  · rintro ⟨hmem, hpin⟩
    obtain ⟨hfree, hhash⟩ := (h.lru p).mp (mem_map.mpr ⟨_, hmem, rfl⟩)
    exact ⟨hfree, hhash, hpin, get?_eq_some_iff.mpr hmem⟩

theorem Core.oldestPrefixPage_age (hsorted : st.2.prefixLru.entries.Pairwise fun a b => a.2 ≤ b.2) :
    match st.2.oldestPrefixPage cfg with
    | none => ∀ p t, ¬ PageAge cfg st p t
    | some (p, t) => PageAge cfg st p t ∧ ∀ p' t', PageAge cfg st p' t' → t ≤ t' := by
  rcases hbest : st.2.oldestPrefixPage cfg with _ | ⟨p, t⟩
  · intro p t ha
    obtain ⟨hmem, hpin⟩ := h.pageAge_iff.mp ha
    exact find?_eq_none.mp hbest _ hmem (by simp [hpin])
  · rw [oldestPrefixPage, find?_eq_some_iff_append] at hbest
    obtain ⟨hp, before, after, hentries, hbefore⟩ := hbest
    rw [hentries, pairwise_append, pairwise_cons] at hsorted
    refine ⟨h.pageAge_iff.mpr ⟨by rw [hentries]; simp, by simpa using hp⟩, fun p' t' ha => ?_⟩
    obtain ⟨hmem, hpin⟩ := h.pageAge_iff.mp ha
    rw [hentries, mem_append, mem_cons] at hmem
    rcases hmem with hmem | heq | hmem
    · have hskipped := hbefore _ hmem
      simp [hpin] at hskipped
    · exact (Prod.mk.inj heq).2.ge
    · exact hsorted.2.1.1 _ hmem

end

/-! ## One victim -/

def dequeued (p : BlockPool K) (b : Nat) : BlockPool K :=
  p.setFree (p.free.erase b) (p.getNumFreeBlocks - 1)

/-- A page that is not cached, under no expert and not pinned is taken, and nothing is lost. -/
structure FreeTaken (cfg : PoolConfig) (st : UnifiedState K) (b : Nat) (st' : UnifiedState K) :
    Prop where
  free : b ∈ st.1.free
  hash : st.1.hash b = none
  unheld : ¬ Held cfg st.2 (cfg.superBlockOfPage b)
  unpinned : st.2.anyLayerPinsSuperBlock cfg (cfg.superBlockOfPage b) = false
  state : st' = (dequeued st.1 b, st.2)

/-- A page of super-block `s` is taken. Nothing that can be evicted is older than the experts there,
and every layer loses its expert there and nothing else. -/
structure ExpertTaken (cfg : PoolConfig) (st : UnifiedState K) (s t b : Nat)
    (st' : UnifiedState K) : Prop where
  age : ExpertAge cfg st s t
  experts : ∀ s' t', ExpertAge cfg st s' t' → t ≤ t'
  pages : ∀ p t', PageAge cfg st p t' → t ≤ t'
  page : b ∈ st.1.free ∧ cfg.superBlockOfPage b = s
  pool : st'.1 = dequeued st.1 b
  layers : ∀ l ∈ cfg.layerIds, st'.2.layer l = (st.2.layer l).drop s
  holders : st'.2.superBlockHolder = st.2.superBlockHolder.erase s
  recency : st'.2.prefixLru = st.2.prefixLru

/-- The cached page `b` is taken. No other cached page is older, every expert is younger, and only
the entry of `b` is lost. -/
structure PageTaken (cfg : PoolConfig) (st : UnifiedState K) (t b : Nat) (st' : UnifiedState K) :
    Prop where
  age : PageAge cfg st b t
  pages : ∀ p t', PageAge cfg st p t' → t ≤ t'
  experts : ∀ s t', ExpertAge cfg st s t' → t < t'
  state : st' = (dequeued st.1 b, { st.2 with prefixLru := st.2.prefixLru.erase b })

structure ChoosesColdest (cfg : PoolConfig) (st : UnifiedState K) : Prop where
  free : (∃ b ∈ st.1.free, isTrulyFree cfg st b = true) →
    ∃ b st', pickOneKvVictim cfg st = (.ok b, st') ∧ FreeTaken cfg st b st'
  evict : (∀ b ∈ st.1.free, isTrulyFree cfg st b = false) →
    ((∃ s t, ExpertAge cfg st s t) ∨ ∃ p t, PageAge cfg st p t) →
    ∃ b st', pickOneKvVictim cfg st = (.ok b, st') ∧
      ((∃ s t, ExpertTaken cfg st s t b st') ∨ ∃ t, PageTaken cfg st t b st')
  stuck : (∀ b ∈ st.1.free, isTrulyFree cfg st b = false) → (∀ s t, ¬ ExpertAge cfg st s t) →
    (∀ p t, ¬ PageAge cfg st p t) → ∃ e, pickOneKvVictim cfg st = (.error e, st)

omit [DecidableEq K] in
theorem ExpertAge.held {s t : Nat} (ha : ExpertAge cfg st s t) : Held cfg st.2 s := by
  obtain ⟨l, hl, e, he, -⟩ := ha.step
  exact ⟨l, hl, maps_iff.mpr ⟨e, he⟩⟩

theorem kvTakePageEvictingExpert_taken (h : Inv cfg ex out st)
    (hout : ∀ b, out b → ¬ Held cfg st.2 (cfg.superBlockOfPage b)) {s t : Nat}
    (ha : ExpertAge cfg st s t) (hexperts : ∀ s' t', ExpertAge cfg st s' t' → t ≤ t')
    (hpages : ∀ p t', PageAge cfg st p t' → t ≤ t') :
    ∃ b st', kvTakePageEvictingExpert cfg s st = (.ok b, st') ∧ ExpertTaken cfg st s t b st' := by
  obtain ⟨b, m', hrun, hfree, hsb, hd⟩ :=
    kvTakePageEvictingExpert_takes h hout ha.held ha.unpinned
  refine ⟨b, _, hrun, ha, hexperts, hpages, ⟨hfree, hsb⟩, rfl, fun l hl => ?_, hd.holder, hd.lru⟩
  rw [hd.layer]
  split
  · rfl
  · next hnot =>
    -- a layer outside the holder set has no expert at `s`
    have hnone : (st.2.layer l).expertAtSuperBlock.get? s = none := by
      rcases he : (st.2.layer l).expertAtSuperBlock.get? s with _ | e
      · rfl
      · have hheld := (h.core.holder s l).mpr ⟨hl, maps_iff.mpr ⟨e, he⟩⟩
        exact absurd (mem_filter.mpr ⟨hl, by simpa using hheld⟩) hnot
    rw [UnifiedPool.drop, hnone]

omit [DecidableEq K] in
theorem kvTakePrefixPage_taken {t b : Nat} (ha : PageAge cfg st b t)
    (hpages : ∀ p t', PageAge cfg st p t' → t ≤ t')
    (hexperts : ∀ s t', ExpertAge cfg st s t' → t < t') :
    ∃ st', kvTakePrefixPage b st = (.ok b, st') ∧ PageTaken cfg st t b st' := by
  have hremove : BlockPool.removeFree b st = (.ok (), _) := removeFree_returns ha.free
  exact ⟨_, bind_of_ok hremove, ha, hpages, hexperts, rfl⟩

theorem Inv.choosesColdest (h : Inv cfg ex out st)
    (hout : ∀ b, out b → ¬ Held cfg st.2 (cfg.superBlockOfPage b))
    (hsorted : st.2.prefixLru.entries.Pairwise fun a b => a.2 ≤ b.2) : ChoosesColdest cfg st := by
  have hexpert := h.core.oldestGlobalExpert_age
  have hpage := h.core.oldestPrefixPage_age hsorted
  have hnone : (∀ b ∈ st.1.free, isTrulyFree cfg st b = false) →
      st.1.free.find? (isTrulyFree cfg st) = none := fun hall =>
    find?_eq_none.mpr fun b hb => by simp [hall b hb]
  refine ⟨fun ⟨b₀, hb₀, htruly₀⟩ => ?_, fun hall hsome => ?_, fun hall hexperts hpages => ?_⟩
  · rcases hfind : st.1.free.find? (isTrulyFree cfg st) with _ | b
    · exact absurd htruly₀ (find?_eq_none.mp hfind b₀ hb₀)
    · obtain ⟨hhash, hunheld, hpin⟩ := (isTrulyFree_iff h.core).mp (find?_some hfind)
      have hfree := mem_of_find?_eq_some hfind
      refine ⟨b, (dequeued st.1 b, st.2), ?_, hfree, hhash, hunheld, hpin, rfl⟩
      rw [pickOneKvVictim, get_bind, hfind]
      exact bind_of_ok (removeFree_returns hfree)
  · rw [pickOneKvVictim, get_bind, hnone hall]
    rcases he : st.2.oldestGlobalExpert cfg with _ | ⟨s, t⟩ <;>
      rcases hp : st.2.oldestPrefixPage cfg with _ | ⟨p, u⟩ <;>
      rw [he] at hexpert <;> rw [hp] at hpage
    · rcases hsome with ⟨s, t, ha⟩ | ⟨p, t, ha⟩
      · exact absurd ha (hexpert s t)
      · exact absurd ha (hpage p t)
    · obtain ⟨st', hrun, htaken⟩ := kvTakePrefixPage_taken hpage.1 hpage.2
        fun s t ha => absurd ha (hexpert s t)
      exact ⟨p, st', hrun, .inr ⟨u, htaken⟩⟩
    · obtain ⟨b, st', hrun, htaken⟩ := kvTakePageEvictingExpert_taken h hout hexpert.1 hexpert.2
        fun p t ha => absurd ha (hpage p t)
      exact ⟨b, st', hrun, .inl ⟨s, t, htaken⟩⟩
    · -- both kinds are there: the expert goes unless the page is strictly older
      by_cases hle : t ≤ u
      · obtain ⟨b, st', hrun, htaken⟩ := kvTakePageEvictingExpert_taken h hout hexpert.1 hexpert.2
          fun p t' ha => hle.trans (hpage.2 p t' ha)
        exact ⟨b, st', (congrFun (if_pos hle) st).trans hrun, .inl ⟨s, t, htaken⟩⟩
      · obtain ⟨st', hrun, htaken⟩ := kvTakePrefixPage_taken hpage.1 hpage.2
          fun s' t' ha => (Nat.lt_of_not_le hle).trans_le (hexpert.2 s' t' ha)
        exact ⟨p, st', (congrFun (if_neg hle) st).trans hrun, .inr ⟨u, htaken⟩⟩
  · rw [pickOneKvVictim, get_bind, hnone hall]
    rcases he : st.2.oldestGlobalExpert cfg with _ | ⟨s, t⟩ <;>
      rcases hp : st.2.oldestPrefixPage cfg with _ | ⟨p, u⟩ <;>
      rw [he] at hexpert <;> rw [hp] at hpage
    · exact ⟨_, rfl⟩
    · exact absurd hpage.1 (hpages p u)
    · exact absurd hexpert.1 (hexperts s t)
    · exact absurd hexpert.1 (hexperts s t)

/-! ## Runs -/

/-- In every state reached, and also after any number of victims of one allocation. -/
theorem coldest_of_run (h₀ : Started cfg st₀)
    (run : Run (Op.next cfg) (fun op st => op.Promised cfg st ∧ op.Steady cfg st) st₀ st)
    {n : Nat} {ret : List Nat} {st₁ : UnifiedState K}
    (hpicked : selectKvVictimBlocks cfg n st = (.ok ret, st₁)) : ChoosesColdest cfg st₁ := by
  obtain ⟨h₁, hsel⟩ := (selectKvVictimBlocks_sound n (steady_of_run h₀ run)).ok rfl hpicked
  exact (h₁.inv trivial).choosesColdest (fun b hb => hb.elim False.elim (hsel.unheld trivial b))
    h₁.tables.recency.sorted

def pageThenExpert : List (Op Nat) :=
  [.getNewBlocks 1, .cacheFullBlocks 1 [5] [1] 0 1, .freeBlocks [1], .endForwardStep,
    .ensureLoaded 0 [0], .releasePinned 0]

theorem run_pageThenExpert : Run (Op.next oneLayer)
    (fun op st => op.Promised oneLayer st ∧ op.Steady oneLayer st) oneLayerStart
      (oneLayerRun pageThenExpert) :=
  .of_allowed
    ⟨⟨trivial, .inl (by decide)⟩, ⟨by decide, rfl⟩, ⟨by decide, trivial⟩, ⟨trivial, trivial⟩,
      ⟨by decide, trivial⟩, ⟨trivial, trivial⟩, trivial⟩

theorem coldest_of_run_pageThenExpert :
    (∀ b ∈ (oneLayerRun pageThenExpert).1.free,
        isTrulyFree oneLayer (oneLayerRun pageThenExpert) b = false) ∧
      (oneLayerRun pageThenExpert).2.prefixLru.entries = [(1, 0)] ∧
      (oneLayerRun pageThenExpert).2.oldestGlobalExpert oneLayer = some (2, 1) ∧
      ChoosesColdest oneLayer (oneLayerRun pageThenExpert) :=
  ⟨by decide, by decide, by decide, coldest_of_run started_oneLayerStart run_pageThenExpert
    (show selectKvVictimBlocks oneLayer 0 _ = (.ok [], _) from rfl)⟩

/-- The entry that a reset left behind is the oldest one. Its page is in use, and the allocation
fails, although the other page is free, cached and not pinned. -/
theorem victim_is_live_page :
    Run (Op.next oneLayer) (fun op st => op.Promised oneLayer st) oneLayerStart
        (oneLayerRun staleEntry) ∧
      (oneLayerRun staleEntry).1.refCnt 1 = 1 ∧
      PageAge oneLayer (oneLayerRun staleEntry) 2 1 ∧
      (pickOneKvVictim oneLayer (oneLayerRun staleEntry)).1 =
        .error (.runtimeError "remove() called on an invalid block: 1") ∧
      ¬ ChoosesColdest oneLayer (oneLayerRun staleEntry) := by
  have hage : PageAge oneLayer (oneLayerRun staleEntry) 2 1 :=
    ⟨by decide, by decide, by decide, by decide⟩
  have herr : (pickOneKvVictim oneLayer (oneLayerRun staleEntry)).1 =
      .error (.runtimeError "remove() called on an invalid block: 1") := by decide
  refine ⟨run_staleEntry, by decide, hage, herr, fun h => ?_⟩
  obtain ⟨b, st', hrun, -⟩ := h.evict (by decide) (.inr ⟨2, 1, hage⟩)
  rw [hrun] at herr
  cases herr

end Vllm.Unified
