import Vllm.Unified.Relocation

/-! The search for a super-block to load an expert into: `_cheapest_kv_super_block`,
`_evict_for_expert` and `_select_super_block_for_expert`. -/

set_option linter.unusedSectionVars false

namespace Vllm.Unified
open Base UnifiedPool Call UnifiedPoolManager List

variable {K : Type} {cfg : PoolConfig} {r : Regime} {ex : Nat → Nat → Prop} {out : Nat → Prop}
variable {st : UnifiedState K}

/-! ## The KV pages to give up -/

def isVacatable (cfg : PoolConfig) (st : UnifiedState K) (s : Nat) : Bool :=
  !(decide (s = 0) || st.2.isHeld s || st.2.anyLayerPinsSuperBlock cfg s) &&
    !(cfg.pagesOf s).any fun p => decide (0 < st.1.refCnt p)

theorem superBlockHasLivePage_spec (ps : List Nat) :
    Triple (· = st) (superBlockHasLivePage ps)
      (fun live st' => st' = st ∧ live = ps.any (fun p => decide (0 < st.1.refCnt p)) ∧
        (live = false → ∀ p ∈ ps, p < st.1.numGpuBlocks))
      (fun _ st' => st' = st ∧ ∃ p ∈ ps, ¬ p < st.1.numGpuBlocks) := by
  induction ps with
  | nil => exact .pure false fun _ hs => ⟨hs, by simp⟩
  | cons p ps ih =>
    refine .bind_get (.bind_check (fun hlt => ?_) fun hlt => ?_)
    · have hlt : p < st.1.numGpuBlocks := by simpa using hlt
      refine .ite (fun href => .pure true fun _ hs => ⟨hs, ?_, by simp⟩) fun href => ?_
      · simpa using .inl href
      refine ih.post (fun live st' ⟨hs, hlive, hin⟩ => ⟨hs, ?_, fun hf q hq => ?_⟩)
        fun _ _ ⟨hs, q, hq, hout⟩ => ⟨hs, q, mem_cons_of_mem _ hq, hout⟩
      · rw [hlive, any_cons, decide_eq_false href, Bool.false_or]
      · rcases mem_cons.mp hq with rfl | hq
        · exact hlt
        · exact hin hf q hq
    · exact ⟨rfl, p, mem_cons_self, by simpa using hlt⟩

def kvScore (cfg : PoolConfig) (st : UnifiedState K) (s t : Nat) : Int :=
  if cfg.kvScoreOldest then ↑t else st.2.warmestPrefixStep cfg s

abbrev FindsVacatable (cfg : PoolConfig) (st : UnifiedState K) (cands : List (Nat × Nat × Nat))
    (call : UnifiedCall K (Option (Nat × Int))) : Prop :=
  Triple (· = st) call
    (fun found st' => st' = st ∧ found = (cands.find? fun c => isVacatable cfg st c.1).map
        (fun c => (c.1, kvScore cfg st c.1 c.2.2)) ∧
      ∀ s w, found = some (s, w) → ∀ p ∈ cfg.pagesOf s, p < st.1.numGpuBlocks)
    (fun _ st' => st' = st ∧ ¬ ∀ c ∈ cands, ∀ p ∈ cfg.pagesOf c.1, p < st.1.numGpuBlocks)

theorem firstVacatable_spec (cands : List (Nat × Nat × Nat)) :
    FindsVacatable cfg st cands (firstVacatable cfg cands) := by
  induction cands with
  | nil => exact .pure none fun _ hs => ⟨hs, rfl, by simp⟩
  | cons c cands ih =>
    obtain ⟨s, n, oldest⟩ := c
    -- a candidate that is passed over
    have hrest : isVacatable cfg st s = false →
        FindsVacatable cfg st ((s, n, oldest) :: cands) (firstVacatable cfg cands) :=
      fun hnot => ih.post (fun _ _ hs => by rw [find?_cons_of_neg (by simp [hnot])]; exact hs)
        fun _ _ ⟨hs, hn⟩ => ⟨hs, fun hall => hn fun c hc => hall c (mem_cons_of_mem _ hc)⟩
    refine .bind_get (.ite (fun hbar => hrest ?_) fun hbar => ?_)
    · rcases hbar with hbar | hbar | hbar <;> simp [isVacatable, hbar]
    simp only [not_or] at hbar
    refine .bind ((superBlockHasLivePage_spec (cfg.pagesOf s)).mapError
      fun _ _ ⟨hs, p, hp, hout⟩ =>
        ⟨hs, fun hall => hout (hall _ mem_cons_self p hp)⟩) fun live =>
      .of_forall fun st₁ ⟨hst, hlive, hin⟩ => ?_
    subst hst
    refine .ite (fun hl => hrest ?_) fun hl => .pure _ fun _ hs => ⟨hs, ?_, ?_⟩
    · simp [isVacatable, ← hlive, hl]
    · have hyes : isVacatable cfg st₁ s = true := by simp [isVacatable, hbar, ← hlive, hl]
      have hfind : ((s, n, oldest) :: cands).find? (fun c => isVacatable cfg st₁ c.1) =
          some (s, n, oldest) := find?_cons_of_pos hyes
      rw [hfind]
      rfl
    · intro s' w hfound
      obtain ⟨rfl, -⟩ := Prod.mk.inj (Option.some.inj hfound)
      exact hin (by simpa using hl)

/-! ### The tally of a window -/

def pagesWithin (cfg : PoolConfig) (window : List (Nat × Nat)) (s : Nat) : Nat :=
  window.countP fun e => cfg.superBlockOfPage e.1 = s

def firstStep (cfg : PoolConfig) (window : List (Nat × Nat)) (s : Nat) : Nat :=
  ((window.find? fun e => cfg.superBlockOfPage e.1 = s).map Prod.snd).getD 0

def Appears (cfg : PoolConfig) (window : List (Nat × Nat)) (s : Nat) : Prop :=
  ∃ e ∈ window, cfg.superBlockOfPage e.1 = s

variable {window : List (Nat × Nat)} {s n l : Nat} {needed : List Nat}

theorem appears_iff : Appears cfg window s ↔ 0 < pagesWithin cfg window s := by
  simp [Appears, pagesWithin]

theorem mem_ranked_iff {c : Nat × Nat × Nat} :
    c ∈ rank (tally cfg window) ↔
      Appears cfg window c.1 ∧ c.2 = (pagesWithin cfg window c.1, firstStep cfg window c.1) := by
  rw [rank, mem_insertionSort, tally, mem_map]
  simp only [mem_eraseDups, mem_map]
  constructor
  · rintro ⟨s, ⟨e, he, rfl⟩, rfl⟩
    exact ⟨⟨e, he, rfl⟩, rfl⟩
  · rintro ⟨⟨e, he, hs⟩, hc⟩
    exact ⟨c.1, ⟨e, he, hs⟩, Prod.ext rfl hc.symm⟩

def Before (a b : Nat × Nat × Nat) : Prop := b.2.1 < a.2.1 ∨ a.2.1 = b.2.1 ∧ a.2.2 ≤ b.2.2

theorem rank_sorted (cands : List (Nat × Nat × Nat)) : (rank cands).Pairwise Before := by
  have htotal : Std.Total fun a b : Nat × Nat × Nat =>
      b.2.1 < a.2.1 ∨ a.2.1 = b.2.1 ∧ a.2.2 ≤ b.2.2 := ⟨fun a b => by omega⟩
  have htrans : IsTrans _ fun a b : Nat × Nat × Nat =>
      b.2.1 < a.2.1 ∨ a.2.1 = b.2.1 ∧ a.2.2 ≤ b.2.2 := ⟨fun a b c => by omega⟩
  have hsorted := pairwise_insertionSort (fun a b : Nat × Nat × Nat =>
    b.2.1 < a.2.1 ∨ a.2.1 = b.2.1 ∧ a.2.2 ≤ b.2.2) cands
  exact hsorted

def bestIn (cfg : PoolConfig) (st : UnifiedState K) (window : List (Nat × Nat)) :
    Option (Nat × Nat × Nat) :=
  (rank (tally cfg window)).find? fun c => isVacatable cfg st c.1

theorem bestIn_eq_none_iff :
    bestIn cfg st window = none ↔ ∀ s, Appears cfg window s → isVacatable cfg st s = false := by
  rw [bestIn, find?_eq_none]
  constructor
  · intro h s hs
    have hmem : (s, pagesWithin cfg window s, firstStep cfg window s) ∈ rank (tally cfg window) :=
      mem_ranked_iff.mpr ⟨hs, rfl⟩
    exact Bool.eq_false_iff.mpr (h _ hmem)
  · intro h c hc
    rw [h c.1 (mem_ranked_iff.mp hc).1]
    exact Bool.false_ne_true

theorem bestIn_eq_some {t : Nat} (h : bestIn cfg st window = some (s, n, t)) :
    isVacatable cfg st s = true ∧ Appears cfg window s ∧ n = pagesWithin cfg window s ∧
      t = firstStep cfg window s ∧ ∀ s', isVacatable cfg st s' = true → Appears cfg window s' →
        pagesWithin cfg window s' < n ∨ pagesWithin cfg window s' = n ∧
          t ≤ firstStep cfg window s' := by
  have hmem := mem_ranked_iff.mp (mem_of_find?_eq_some h)
  rw [bestIn, find?_eq_some_iff_append] at h
  obtain ⟨hvac, before, after, hsplit, hbefore⟩ := h
  refine ⟨hvac, hmem.1, congrArg Prod.fst hmem.2, congrArg Prod.snd hmem.2, fun s' hvac' hs' => ?_⟩
  have hsorted := rank_sorted (tally cfg window)
  rw [hsplit, pairwise_append, pairwise_cons] at hsorted
  have hmem' : (s', pagesWithin cfg window s', firstStep cfg window s') ∈ rank (tally cfg window) :=
    mem_ranked_iff.mpr ⟨hs', rfl⟩
  rw [hsplit, mem_append, mem_cons] at hmem'
  rcases hmem' with hmem' | heq | hmem'
  · have hskipped := hbefore _ hmem'
    simp [hvac'] at hskipped
  · obtain ⟨-, hcount, hstep⟩ : s' = s ∧ pagesWithin cfg window s' = n ∧ firstStep cfg window s' = t := by
      simpa using heq
    exact .inr ⟨hcount, hstep.ge⟩
  · rcases hsorted.2.1.1 _ hmem' with hlt | ⟨heq, hle⟩
    · exact .inl hlt
    · exact .inr ⟨heq.symm, hle⟩

/-! ### The windows -/

def InPool (cfg : PoolConfig) (pages : List (Nat × Nat)) : Prop :=
  ∀ e ∈ pages, cfg.superBlockOfPage e.1 < cfg.numSuperBlocks

section
variable (h : cfg.numSuperBlocks = n / cfg.pagesPerSuperBlock)
include h

theorem pages_lt (hs : s < cfg.numSuperBlocks) : ∀ p ∈ cfg.pagesOf s, p < n := by
  intro p hp
  refine Nat.lt_of_not_le fun hge => Nat.not_lt_of_ge ?_ hs
  rw [h, ← mem_pagesOf.mp hp]
  exact Nat.div_le_div_right hge

theorem lt_numSuperBlocks
    (hs : ∀ p, cfg.superBlockOfPage p = s → p < n) : s < cfg.numSuperBlocks := by
  have hpos := cfg.pages_pos
  have hlast : cfg.superBlockOfPage (s * cfg.pagesPerSuperBlock + (cfg.pagesPerSuperBlock - 1)) = s := by
    rw [PoolConfig.superBlockOfPage, Nat.div_eq_iff hpos]
    omega
  have hlt := hs _ hlast
  rw [h, Nat.lt_iff_add_one_le, Nat.le_div_iff_mul_le hpos, Nat.add_mul]
  omega

end

structure Scanned (cfg : PoolConfig) (st : UnifiedState K) (entries : List (Nat × Nat)) (k : Nat)
    (found : Option (Nat × Int)) : Prop where
  nothing : found = none → bestIn cfg st entries = none
  best : ∀ s w, found = some (s, w) → ∃ j n t, w = kvScore cfg st s t ∧
    bestIn cfg st (entries.take (j * cfg.pagesPerSuperBlock)) = some (s, n, t) ∧
    ∀ i, k ≤ i → i < j → bestIn cfg st (entries.take (i * cfg.pagesPerSuperBlock)) = none
  inPool : ∀ s w, found = some (s, w) → ∀ p ∈ cfg.pagesOf s, p < st.1.numGpuBlocks

section
variable (hsup : cfg.numSuperBlocks = st.1.numGpuBlocks / cfg.pagesPerSuperBlock)
include hsup

theorem cheapestLoop_spec {entries : List (Nat × Nat)} (fuel : Nat) {k : Nat}
    (hfuel : entries.length < k * cfg.pagesPerSuperBlock + fuel)
    (hnone : bestIn cfg st (entries.take (k * cfg.pagesPerSuperBlock)) = none) :
    Triple (· = st) (cheapestLoop cfg fuel (entries.take (k * cfg.pagesPerSuperBlock))
        (entries.drop (k * cfg.pagesPerSuperBlock)))
      (fun found st' => st' = st ∧ Scanned cfg st entries k found)
      (fun _ st' => st' = st ∧ ¬ InPool cfg entries) := by
  induction fuel generalizing k with
  | zero =>
    refine .pure none fun _ hs => ⟨hs, fun _ => ?_, fun s w hs => (nomatch hs),
      fun s w hs => (nomatch hs)⟩
    rwa [take_of_length_le (by omega)] at hnone
  | succ fuel ih =>
    have hF := cfg.pages_pos
    have hnext : (k + 1) * cfg.pagesPerSuperBlock =
        k * cfg.pagesPerSuperBlock + cfg.pagesPerSuperBlock := Nat.succ_mul _ _
    have hwindow : entries.take (k * cfg.pagesPerSuperBlock) ++
        (entries.drop (k * cfg.pagesPerSuperBlock)).take cfg.pagesPerSuperBlock =
          entries.take ((k + 1) * cfg.pagesPerSuperBlock) := by
      rw [hnext, take_add]
    rw [cheapestLoop, hwindow]
    refine .bind ((firstVacatable_spec _).mapError
      fun _ _ ⟨hs, hn⟩ => ⟨hs, fun hall => hn fun c hc => ?_⟩) fun found =>
      .of_forall fun st₁ ⟨hst, hfound, hin⟩ => ?_
    · obtain ⟨e, he, hes⟩ := (mem_ranked_iff.mp hc).1
      exact pages_lt hsup (hes ▸ hall e (mem_of_mem_take he))
    subst hst
    rcases hbest : bestIn cfg st₁ (entries.take ((k + 1) * cfg.pagesPerSuperBlock)) with
      _ | ⟨s, n, t⟩
    · have hfound : found = none := by
        rw [hfound]
        exact congrArg _ hbest
      subst hfound
      refine .ite (fun hshort => .pure none fun _ hs => ⟨hs, fun _ => ?_,
        fun s w hs => (nomatch hs), fun s w hs => (nomatch hs)⟩) fun hshort => ?_
      · -- the list ends in this window
        rw [length_take, length_drop] at hshort
        rwa [take_of_length_le (by omega)] at hbest
      · rw [drop_drop, ← hnext]
        refine (ih (k := k + 1) (by omega) hbest).mapOk
          fun found st' ⟨hst, hscan⟩ => ⟨hst, hscan.nothing, fun s w hs => ?_, hscan.inPool⟩
        obtain ⟨j, n, t, hw, hj, hbefore⟩ := hscan.best s w hs
        refine ⟨j, n, t, hw, hj, fun i hki hij => ?_⟩
        rcases Nat.eq_or_lt_of_le hki with rfl | hlt
        · exact hnone
        · exact hbefore i hlt hij
    · have hfound : found = some (s, kvScore cfg st₁ s t) := by
        rw [hfound]
        exact congrArg _ hbest
      subst hfound
      refine .pure _ fun _ hs => ⟨hs, fun hc => (nomatch hc), fun s' w hs' => ?_, hin⟩
      obtain ⟨rfl, rfl⟩ := Prod.mk.inj (Option.some.inj hs')
      refine ⟨k + 1, n, t, rfl, hbest, fun i hki hij => ?_⟩
      rw [Nat.le_antisymm (Nat.le_of_lt_succ hij) hki]
      exact hnone

theorem cheapestKvSuperBlock_spec :
    Triple (· = st) (cheapestKvSuperBlock cfg)
      (fun found st' => st' = st ∧ Scanned cfg st st.2.prefixLru.entries 0 found)
      (fun _ st' => st' = st ∧ ¬ InPool cfg st.2.prefixLru.entries) := by
  have hempty : bestIn cfg st (st.2.prefixLru.entries.take (0 * cfg.pagesPerSuperBlock)) = none := by
    rw [Nat.zero_mul]
    rfl
  have hfuel : st.2.prefixLru.entries.length <
      0 * cfg.pagesPerSuperBlock + (st.2.prefixLru.size + 1) := by
    rw [Nat.zero_mul, Nat.zero_add]
    exact Nat.lt_succ_self _
  have hloop := cheapestLoop_spec hsup _ hfuel hempty
  rw [Nat.zero_mul] at hloop
  exact .bind_get hloop

end

variable [DecidableEq K]

theorem Tables.supers {caching : Bool} {quiet : Prop} (h : Tables cfg caching quiet st) :
    cfg.numSuperBlocks = st.1.numGpuBlocks / cfg.pagesPerSuperBlock := h.layers.core.supers

theorem Scanned.vacatable {caching : Bool} {quiet : Prop} (ht : Tables cfg caching quiet st)
    {found : Option (Nat × Int)} {entries : List (Nat × Nat)} {k : Nat}
    (h : Scanned cfg st entries k found) {w : Int} (hs : found = some (s, w)) :
    Vacatable cfg st s := by
  obtain ⟨j, n, t, -, hbest, -⟩ := h.best s w hs
  have hvac := find?_some hbest
  simp only [isVacatable, Bool.and_eq_true, Bool.not_eq_true', Bool.or_eq_false_iff,
    decide_eq_false_iff_not, List.any_eq_false, decide_eq_true_eq] at hvac
  obtain ⟨⟨⟨h0, hheld⟩, -⟩, hdead⟩ := hvac
  refine ⟨Nat.one_le_iff_ne_zero.mpr h0, fun hh => ?_, fun p hp => ?_, fun p hp => ?_⟩
  · have hyes : st.2.isHeld s = true := ht.layers.core.isHeld_iff.mpr hh
    rw [hyes] at hheld
    cases hheld
  · exact Int.not_lt.mp (hdead p (mem_pagesOf.mpr hp))
  · exact h.inPool s w hs p (mem_pagesOf.mpr hp)

def NoTail (cfg : PoolConfig) (st : UnifiedState K) : Prop :=
  ∀ p, Spare st p → p < cfg.numSuperBlocks * cfg.pagesPerSuperBlock

theorem NoTail.inPool (h : NoTail cfg st) : InPool cfg st.2.prefixLru.entries := fun e he =>
  Nat.div_lt_of_lt_mul (by
    rw [Nat.mul_comm]
    exact h e.1 (.inr (mem_map.mpr ⟨e, he, rfl⟩)))

theorem Shuffled.noTail {st' : UnifiedState K} (h : Shuffled (Spare st) st st')
    (ht : NoTail cfg st) : NoTail cfg st' := by
  intro p hp
  rcases hp with hp | hp
  · exact ht p (.inl (h.free ▸ hp))
  · exact ht p (h.lru (fun _ => .inr) p hp)

/-! ## The first tier -/

inductive Tier where
  | freeCrossLayerExpert
  | freePure
deriving DecidableEq, Repr

/-- `_select_super_block_for_expert` up to the calls of `_evict_for_expert`. -/
def firstTier (cfg : PoolConfig) (st : UnifiedState K) (l : Nat) : Option (Nat × Tier) :=
  let u := st.2.layer l
  let crossLayer := st.2.superBlockHolder.keys.filter fun s =>
    decide (s > 0) && decide (s ∉ u.pinnedSuperBlocks) && (u.expertAtSuperBlock.get? s).isNone
  match crossLayer.min? with
  | some s => some (s, .freeCrossLayerExpert)
  | none =>
    let freeUnhashed := st.1.getNumFreeBlocks - st.2.prefixLru.size
    if freeUnhashed < cfg.pagesPerSuperBlock then none
    else ((List.range' 1 (cfg.numSuperBlocks - 1)).find? (isFreePure cfg st u)).map
      fun s => (s, .freePure)

theorem selectSuperBlockForExpert_eq (l : Nat) (needed : List Nat) :
    selectSuperBlockForExpert cfg l needed st =
      match firstTier cfg st l with
      | some (s, _) => (.ok s, st)
      | none => evictForExpert cfg l needed st := by
  unfold selectSuperBlockForExpert firstTier
  rw [get_bind]
  simp only
  generalize (List.filter _ st.2.superBlockHolder.keys).min? = crossLayer
  rcases crossLayer with _ | s
  · by_cases hfew : st.1.getNumFreeBlocks - st.2.prefixLru.size < cfg.pagesPerSuperBlock
    · refine (congrFun (if_pos hfew) st).trans ?_
      simp only [if_pos hfew]
    · refine (congrFun (if_neg hfew) st).trans ?_
      simp only [if_neg hfew]
      generalize (List.range' 1 (cfg.numSuperBlocks - 1)).find? _ = found
      cases found <;> rfl
  · rfl

theorem page_ne_zero {p : Nat} (hs : 1 ≤ cfg.superBlockOfPage p) : p ≠ 0 := by
  rintro rfl
  simp [PoolConfig.superBlockOfPage] at hs

theorem Sound.slot_of_firstTier (h : Sound cfg r ex out st) {tier : Tier}
    (hs : firstTier cfg st l = some (s, tier)) : Slot cfg r.strict st l s := by
  unfold firstTier at hs
  simp only at hs
  split at hs
  · next s' hmin =>
    -- an expert of another layer is there already
    have hmem := mem_filter.mp (min?_mem hmin)
    simp only [Bool.and_eq_true, decide_eq_true_eq, Option.isNone_iff_eq_none] at hmem
    cases hs
    have hheld := h.tables.layers.core.holder_key hmem.1
    exact ⟨hmem.2.1.1, (h.tables.layers.core.held_range s hheld).2, hmem.2.2,
      fun hstrict p hp => (h.inv hstrict).core.held_pages p (hp.symm ▸ hheld)⟩
  · split at hs
    · cases hs
    · obtain ⟨s', hs', heq⟩ := Option.map_eq_some_iff.mp hs
      cases heq
      have hrange := mem_range'_1.mp (mem_of_find?_eq_some hs')
      have hfree := find?_some hs'
      simp only [isFreePure, Bool.and_eq_true, decide_eq_true_eq, Option.isNone_iff_eq_none,
        all_eq_true] at hfree
      refine ⟨hrange.1, by omega, hfree.1.1.2, fun _ p hp => ?_⟩
      have hpage := hfree.2 p (mem_pagesOf.mpr hp)
      have hpos : 1 ≤ cfg.superBlockOfPage p := hp.symm ▸ hrange.1
      exact ⟨le_antisymm hpage.1 (h.pool.ref_nonneg p (page_ne_zero hpos)), hpage.2⟩

/-! ## The second tier -/

theorem ownColdestExpert_spec {u : UnifiedPool} {step : Nat}
    (h : ownColdestExpert u needed = some (s, step)) :
    ∃ e, e ∉ needed ∧ u.superBlockAtExpert.get? e = some s ∧ s ∉ u.pinnedSuperBlocks := by
  obtain ⟨⟨e, step'⟩, -, he⟩ := exists_of_findSome?_eq_some h
  simp only at he
  split at he
  · cases he
  · next hn =>
    split at he
    · cases he
    · next s' hs' =>
      split at he
      · cases he
      · next hp =>
        cases he
        exact ⟨e, hn, hs', hp⟩

def poolExhausted (l : Nat) : PyError := .runtimeError
  (s!"UnifiedPool L{l}: pool exhausted while resolving "
    ++ "expert miss. No free super-block, no evictable expert, and no "
    ++ "vacatable KV super-block (every candidate has a live or pinned "
    ++ "page). Reduce --max-num-batched-tokens, lower "
    ++ "--expert-cache-size, or increase --num-gpu-blocks-override.")

theorem evictForExpert_eq {r : Option (Nat × Int)} (hr : cheapestKvSuperBlock cfg st = (.ok r, st))
    (l : Nat) (needed : List Nat) :
    evictForExpert cfg l needed st =
      match ownColdestExpert (st.2.layer l) needed, r with
      | some (s, step), some (kvS, kvStep) =>
        if kvStep ≤ step then takeKvSuperBlock cfg kvS st else takeOwnExpert l s st
      | some (s, _), none => takeOwnExpert l s st
      | none, some (kvS, _) => takeKvSuperBlock cfg kvS st
      | none, none => (.error (poolExhausted l), st) := by
  rw [evictForExpert, get_bind, bind_of_ok hr]
  rcases ownColdestExpert (st.2.layer l) needed with _ | ⟨s, t⟩ <;> rcases r with _ | ⟨kvS, w⟩
  · rfl
  · rfl
  · rfl
  · by_cases hle : w ≤ t
    · exact (congrFun (if_pos hle) st).trans (if_pos hle).symm
    · exact (congrFun (if_neg hle) st).trans (if_neg hle).symm

/-- What a load of layer `l` may raise, from a state without a free tail page. -/
def Expected (cfg : PoolConfig) (l : Nat) (st : UnifiedState K) (e : PyError) : Prop :=
  NoTail cfg st → e = poolExhausted l ∨ e = deviceError ∧ true ∈ st.2.copyFaults

structure Found (cfg : PoolConfig) (r : Regime) (ex : Nat → Nat → Prop) (out : Nat → Prop) (l : Nat)
    (needed : List Nat) (st : UnifiedState K) (s : Nat) (st' : UnifiedState K) : Prop where
  sound : Sound cfg r ex out st'
  slot : Slot cfg r.strict st' l s
  layer : st'.2.layer = Function.update st.2.layer l ((st.2.layer l).drop s)
  victim : ∀ e, (st.2.layer l).expertAtSuperBlock.get? s = some e → e ∉ needed
  step : st'.2.step = st.2.step
  faults : Pending st.2.copyFaults st'
  tail : NoTail cfg st → NoTail cfg st'

def Fails (cfg : PoolConfig) (r : Regime) (ex : Nat → Nat → Prop) (out : Nat → Prop) (l : Nat)
    (st : UnifiedState K) (e : PyError) (st' : UnifiedState K) : Prop :=
  Sound cfg r ex out st' ∧ st'.2.layer = st.2.layer ∧ Expected cfg l st e

/-- The layer has no expert at a slot that only moves of cached pages made. -/
theorem Found.of_shuffled {st' : UnifiedState K} (h' : Sound cfg r ex out st')
    (hslot : Slot cfg r.strict st' l s) (hstep : Shuffled (Spare st) st st') :
    Found cfg r ex out l needed st s st' := by
  have hempty : (st.2.layer l).expertAtSuperBlock.get? s = none := hstep.layer ▸ hslot.slot
  refine ⟨h', hslot, ?_, fun e he => ?_, hstep.step, hstep.faults, hstep.noTail⟩
  · have hdrop : (st.2.layer l).drop s = st.2.layer l := by simp only [UnifiedPool.drop, hempty]
    rw [hdrop, Function.update_eq_self, hstep.layer]
  · rw [hempty] at he
    cases he

theorem Inv.dropUnpinned (h : Inv cfg ex out st) (hl : l ∈ cfg.layerIds)
    (hp : s ∉ (st.2.layer l).pinnedSuperBlocks) :
    Inv cfg ex out (st.1, st.2.dropLayerMapping l s) := by
  obtain ⟨hcore, hcontent⟩ : Core cfg (st.1, st.2.dropLayerMapping l s) ∧
      Content cfg ex (st.1, st.2.dropLayerMapping l s) :=
    Inv.dropLayerMapping h.core hl (h.mono fun _ _ => .inl).content
  refine ⟨hcore, fun l' hl' s' hs' => ?_, hcontent, h.complete⟩
  refine (maps_dropLayerMapping st.2 l l' s s').mpr ⟨h.pinned l' hl' s' ?_, ?_⟩
  · rw [layer_dropLayerMapping] at hs'
    split at hs'
    · next hll => simpa [hll] using hs'
    · exact hs'
  · rintro ⟨rfl, rfl⟩
    rw [layer_dropLayerMapping, if_pos rfl, pinned_drop] at hs'
    exact hp hs'

section
variable (h : Sound cfg r ex out st) (hl : l ∈ cfg.layerIds)
include h hl

theorem takeOwnExpert_sound {e : Nat}
    (hn : e ∉ needed) (he : (st.2.layer l).superBlockAtExpert.get? e = some s)
    (hp : s ∉ (st.2.layer l).pinnedSuperBlocks) :
    Triple (· = st) (takeOwnExpert l s) (Found cfg r ex out l needed st)
      (Fails cfg r ex out l st) := by
  have hes : (st.2.layer l).expertAtSuperBlock.get? s = some e :=
    ((h.tables.layers.core.layer l hl).inverse s e).mpr he
  have hheld : Held cfg st.2 s := ⟨l, hl, maps_iff.mpr ⟨e, hes⟩⟩
  have hrange := h.tables.layers.core.held_range s hheld
  have hlayer : ∀ l', (st.2.dropLayerMapping l s).layer l' =
      Function.update st.2.layer l ((st.2.layer l).drop s) l' := fun l' => by
    rw [layer_dropLayerMapping, Function.update_apply]
  have hstamps : ∀ l', ((st.2.dropLayerMapping l s).layer l').Stamped st.2.step := fun l' => by
    rw [layer_dropLayerMapping]
    split
    · exact (h.tables.stamps l).drop s
    · exact h.tables.stamps l'
  have hframe := relayers_dropLayerMapping st.2 l s
  have htables := h.tables.relayers hframe (h.tables.layers.dropUnpinned hl hp) hstamps
  obtain ⟨_, _, hm⟩ := hframe.eq
  refine .of_run (r := (.ok s, (st.1, st.2.dropLayerMapping l s))) ?_ rfl
  refine ⟨⟨htables, fun hs => (h.inv hs).dropUnpinned hl hp⟩, ⟨hrange.1, hrange.2, ?_,
    fun hstrict p hp' => (h.inv hstrict).core.held_pages p (hp'.symm ▸ hheld)⟩, funext hlayer,
    fun e' he' => ?_, by rw [hm], ?_, ?_⟩
  · rw [layer_dropLayerMapping, if_pos rfl, get?_drop, if_pos rfl]
  · rw [← Option.some.inj (hes.symm.trans he')]
    exact hn
  · rw [hm]
    exact fun _ hx => hx
  · rw [hm]
    exact fun ht => ht

theorem takeKvSuperBlock_sound (hs : Vacatable cfg st s) :
    Triple (· = st) (takeKvSuperBlock cfg s) (Found cfg r ex out l needed st)
      (Fails cfg r ex out l st) := by
  refine .bind ((vacateKvSuperBlock_sound h hs).mapError
    fun _ _ ⟨h', hstep, herr⟩ => ⟨h', hstep.layer, fun _ => .inr herr⟩) fun _ =>
    .pure s fun st' ⟨h', hstep, hclear⟩ => ?_
  refine Found.of_shuffled h' ⟨hs.pos, lt_numSuperBlocks h.tables.supers hs.inPool, ?_,
    fun _ p hp => ⟨?_, hclear p hp⟩⟩ hstep
  · rw [hstep.layer]
    by_contra hc
    obtain ⟨e, he⟩ := Option.ne_none_iff_exists'.mp hc
    exact hs.unheld ⟨l, hl, maps_iff.mpr ⟨e, he⟩⟩
  · rw [hstep.refs]
    exact hs.ref_eq_zero h.pool hp (page_ne_zero (hp.symm ▸ hs.pos))

theorem evictForExpert_sound :
    Triple (· = st) (evictForExpert cfg l needed) (Found cfg r ex out l needed st)
      (Fails cfg r ex out l st) := by
  refine .bind_get (.bind ((cheapestKvSuperBlock_spec h.tables.supers).mapError
    fun _ _ ⟨hs, hn⟩ =>
      ⟨hs ▸ h, hs ▸ rfl, fun ht => absurd ht.inPool hn⟩) fun bestKv =>
    .of_forall fun st₁ ⟨hst, hscan⟩ => ?_)
  subst hst
  have hown : ∀ s step, ownColdestExpert (st₁.2.layer l) needed = some (s, step) →
      Triple (· = st₁) (takeOwnExpert l s) (Found cfg r ex out l needed st₁)
        (Fails cfg r ex out l st₁) := fun s step hs =>
    have ⟨_, hn, he, hp⟩ := ownColdestExpert_spec hs
    takeOwnExpert_sound h hl hn he hp
  have hkv : ∀ s w, bestKv = some (s, w) → Triple (· = st₁) (takeKvSuperBlock cfg s)
      (Found cfg r ex out l needed st₁) (Fails cfg r ex out l st₁) := fun s w hs =>
    takeKvSuperBlock_sound h hl (hscan.vacatable h.tables hs)
  split
  · next hs _ => exact .ite (fun _ => hkv _ _ rfl) fun _ => hown _ _ hs
  · next hs _ => exact hown _ _ hs
  · exact hkv _ _ rfl
  · exact .raise fun _ hs => by rw [hs]; exact ⟨h, rfl, fun _ => .inl rfl⟩

theorem selectSuperBlockForExpert_sound :
    Triple (· = st) (selectSuperBlockForExpert cfg l needed)
      (Found cfg r ex out l needed st) (Fails cfg r ex out l st) := by
  intro st₁ hst
  subst hst
  rw [selectSuperBlockForExpert_eq]
  rcases htier : firstTier cfg st₁ l with _ | ⟨s, tier⟩
  · exact evictForExpert_sound h hl st₁ rfl
  · exact Found.of_shuffled h (h.slot_of_firstTier htier) (Shuffled.refl _ st₁)

end

end Vllm.Unified
