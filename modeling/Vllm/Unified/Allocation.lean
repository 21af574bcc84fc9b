import Vllm.Unified.AnyRun

/-! A KV allocation while no layer pins a super-block: as long as the count of free blocks allows it,
it returns. Every free page is a truly free page, a listed cached page or a page under an expert, so
one of the three tiers of the selector reaches it. -/

namespace Vllm.Unified
open Base Dict Call UnifiedPoolManager List BlockPool

variable {K : Type} [DecidableEq K]
variable {cfg : PoolConfig} {r : Regime} {ex : Nat → Nat → Prop} {out : Nat → Prop} {st st₀ : UnifiedState K}

def NoPins (cfg : PoolConfig) (m : UnifiedPoolManager) : Prop :=
  ∀ l ∈ cfg.layerIds, (m.layer l).pinnedSuperBlocks = ∅

instance (m : UnifiedPoolManager) : Decidable (NoPins cfg m) :=
  inferInstanceAs (Decidable (∀ l ∈ cfg.layerIds, (m.layer l).pinnedSuperBlocks = ∅))

variable {m : UnifiedPoolManager} {s b : Nat}

theorem NoPins.any_eq_false (h : NoPins cfg m) (s : Nat) :
    m.anyLayerPinsSuperBlock cfg s = false := by
  simp only [anyLayerPinsSuperBlock, List.any_eq_false, decide_eq_true_eq]
  intro l hl
  rw [h l hl]
  exact Finset.notMem_empty s

theorem NoPins.congr {m' : UnifiedPoolManager} (h : NoPins cfg m) (hs : SamePins m m') :
    NoPins cfg m' := fun l hl => (hs l).trans (h l hl)

theorem NoPins.dropped {m' : UnifiedPoolManager} (h : NoPins cfg m) {done : List Nat}
    (hd : Dropped m m' s done) : NoPins cfg m' := by
  refine h.congr fun l => ?_
  rw [hd.layer]
  split
  · exact UnifiedPool.pinned_drop _ _
  · rfl

/-! ## The tiers -/

theorem Core.coldestHolderStep_ne_none (h : Core cfg st) {holders : Finset Nat}
    (hs : st.2.superBlockHolder.get? s = some holders) :
    st.2.coldestHolderStep cfg s holders ≠ none := by
  have hne : holders ≠ ∅ := fun he => h.holder_ne s (he ▸ hs)
  obtain ⟨l, hmem⟩ := Finset.nonempty_iff_ne_empty.mpr hne
  obtain ⟨hl, hmaps⟩ := (h.holder s l).mp (by simpa [hs] using hmem)
  obtain ⟨e, he⟩ := maps_iff.mp hmaps
  have hlayer := h.layer l hl
  have hkey : e ∈ (st.2.layer l).expertLru.keys :=
    (hlayer.lru e).mpr (mem_keys_of_get? ((hlayer.inverse s e).mp he))
  obtain ⟨t, ht⟩ := exists_of_mem_keys hkey
  rw [coldestHolderStep, ne_eq, min?_eq_none_iff]
  refine ne_nil_of_mem (a := t) (mem_filterMap.mpr ⟨l, ?_, ?_⟩)
  · exact mem_filter.mpr ⟨hl, by simpa using hmem⟩
  · rw [he]
    exact ht

theorem Core.oldestGlobalExpert_ne_none (h : Core cfg st) (hpins : NoPins cfg st.2)
    (hs : Held cfg st.2 s) : st.2.oldestGlobalExpert cfg ≠ none := by
  obtain ⟨l, hl, hm⟩ := hs
  have hmem := (h.holder s l).mpr ⟨hl, hm⟩
  obtain ⟨holders, hh⟩ : ∃ holders, st.2.superBlockHolder.get? s = some holders := by
    rcases hget : st.2.superBlockHolder.get? s with _ | holders
    · simp [hget] at hmem
    · exact ⟨holders, rfl⟩
  intro hnone
  have hcold := oldestGlobalExpert_coldest cfg st.2
  rw [hnone] at hcold
  exact h.coldestHolderStep_ne_none hh
    (hcold (s, holders) (get?_eq_some_iff.mp hh) (hpins.any_eq_false s))

theorem Core.oldestPrefixPage_ne_none (h : Core cfg st) (hpins : NoPins cfg st.2)
    (hb : b ∈ st.1.free) (hh : st.1.hash b ≠ none) : st.2.oldestPrefixPage cfg ≠ none := by
  obtain ⟨e, he, -⟩ := mem_map.mp ((h.lru b).mpr ⟨hb, hh⟩)
  rw [oldestPrefixPage, ne_eq, find?_eq_none]
  intro hall
  exact hall e he (by simp [hpins.any_eq_false])

omit [DecidableEq K] in
theorem removeFree_returns (hb : b ∈ st.1.free) :
    removeFree b st = (.ok (), (st.1.setFree (st.1.free.erase b)
      (st.1.getNumFreeBlocks - 1), st.2)) := if_pos hb

section
variable (h : Inv cfg ex out st) (hout : ∀ b, out b → ¬ Held cfg st.2 (cfg.superBlockOfPage b))
include h hout

theorem Inv.mem_free_of_held {p : Nat} (hp : Held cfg st.2 (cfg.superBlockOfPage p)) :
    p < st.1.numGpuBlocks ∧ p ≠ 0 ∧ p ∈ st.1.free := by
  obtain ⟨h1, hlt⟩ := h.core.held_range _ hp
  have hpn : p < st.1.numGpuBlocks := by
    rw [h.core.supers] at hlt
    exact lt_of_not_ge fun hge => Nat.not_lt_of_ge (Nat.div_le_div_right hge) hlt
  have h0 := page_ne_zero h1
  exact ⟨hpn, h0, h.complete p hpn h0 (h.core.held_pages p hp).1 fun ho => hout p ho hp⟩

theorem kvTakePageEvictingExpert_takes (hs : Held cfg st.2 s)
    (hpin : st.2.anyLayerPinsSuperBlock cfg s = false) :
    ∃ b m', kvTakePageEvictingExpert cfg s st =
        (.ok b, (st.1.setFree (st.1.free.erase b) (st.1.getNumFreeBlocks - 1), m')) ∧
      b ∈ st.1.free ∧ cfg.superBlockOfPage b = s ∧ Dropped st.2 m' s
        (cfg.layerIds.filter fun l => l ∈ (st.2.superBlockHolder.get? s).getD ∅) := by
  obtain ⟨_, m', hrun, hd⟩ := (broadcast_spec (not_pinned_of_any hpin)).exists_ok rfl
  -- the first page of the super-block is in the pool, is not the null block and is free
  have hpages : cfg.pagesOf s = s * cfg.pagesPerSuperBlock ::
      List.range' (s * cfg.pagesPerSuperBlock + 1) (cfg.pagesPerSuperBlock - 1) := by
    obtain ⟨n, hn⟩ := Nat.exists_eq_succ_of_ne_zero cfg.pages_pos.ne'
    rw [PoolConfig.pagesOf, hn, range'_succ]
    rfl
  have hfirst : cfg.superBlockOfPage (s * cfg.pagesPerSuperBlock) = s :=
    mem_pagesOf.mp (by rw [hpages]; exact mem_cons_self)
  obtain ⟨hlt, h0, hfree⟩ := h.mem_free_of_held hout (hfirst.symm ▸ hs)
  refine ⟨s * cfg.pagesPerSuperBlock, m', ?_, hfree, hfirst, hd⟩
  have hzoom : ((broadcastDropAllLayers cfg s).zoom Prod.snd fun m st => (st.1, m) :
      UnifiedCall K Unit) st = (.ok (), (st.1, m')) := zoom_eq_ok.mpr ⟨m', hrun, rfl⟩
  have hnull : ¬ st.1.isNull (s * cfg.pagesPerSuperBlock) = true := by
    rw [h.core.pool.isNull_eq_false_iff.mpr h0]
    exact Bool.false_ne_true
  rw [kvTakePageEvictingExpert, bind_of_ok hzoom, hpages, takeFirstPage, get_bind,
    check_bind (by simpa using hlt)]
  refine (congrFun (if_neg hnull) _).trans ?_
  have hremove : removeFree (s * cfg.pagesPerSuperBlock) (st.1, m') = (.ok (), _) :=
    removeFree_returns hfree
  exact bind_of_ok hremove

end

theorem pickOneKvVictim_returns (h : Inv cfg ex out st) (hpins : NoPins cfg st.2)
    (hout : ∀ b, out b → ¬ Held cfg st.2 (cfg.superBlockOfPage b)) (hne : st.1.free ≠ []) :
    Triple (· = st) (pickOneKvVictim cfg) (fun _ _ => True) (fun _ _ => False) := by
  have hexpert : ∀ s step, st.2.oldestGlobalExpert cfg = some (s, step) →
      Triple (· = st) (kvTakePageEvictingExpert cfg s) (fun _ _ => True)
        (fun _ _ => False) := fun s step hs => by
    have hheld := h.core.holder_key (oldestGlobalExpert_spec hs).1
    obtain ⟨b, m', hrun, -⟩ := kvTakePageEvictingExpert_takes h hout hheld (hpins.any_eq_false s)
    exact .of_ok hrun trivial
  have hpage : ∀ b step, st.2.oldestPrefixPage cfg = some (b, step) →
      Triple (· = st) (kvTakePrefixPage b) (fun _ _ => True)
        (fun _ _ => False) := fun b step hb => by
    have hkey : b ∈ st.2.prefixLru.keys := mem_map.mpr ⟨_, mem_of_find?_eq_some hb, rfl⟩
    exact .bind_run (removeFree_returns (h.core.lru_free hkey)) (.bind_modify
      (.pure b fun _ _ => trivial))
  refine .bind_get ?_
  split
  · next b hb =>
    exact .bind_run (removeFree_returns (mem_of_find?_eq_some hb))
      (.pure b fun _ _ => trivial)
  · next hnone =>
    split
    · next s es b ps he hp => exact .ite (fun _ => hexpert s es he) fun _ => hpage b ps hp
    · next s es he _ => exact hexpert s es he
    · next b ps _ hp => exact hpage b ps hp
    · next he hp =>
      -- a free page that is not truly free is cached or under an expert
      obtain ⟨b, hb⟩ := exists_mem_of_ne_nil _ hne
      have hnot : ¬ isTrulyFree cfg st b = true := find?_eq_none.mp hnone b hb
      rw [isTrulyFree_iff h.core] at hnot
      by_cases hh : st.1.hash b = none
      · by_cases hheld : Held cfg st.2 (cfg.superBlockOfPage b)
        · exact absurd he (h.core.oldestGlobalExpert_ne_none hpins hheld)
        · exact absurd ⟨hh, hheld, hpins.any_eq_false _⟩ hnot
      · exact absurd hp (h.core.oldestPrefixPage_ne_none hpins hb hh)

theorem selectKvVictimBlocks_returns (n : Nat) {out : Nat → Prop} {st : UnifiedState K}
    (hstrict : r.strict) (h : Sound cfg r ex out st) (hpins : NoPins cfg st.2)
    (hout : ∀ b, out b → ¬ Held cfg st.2 (cfg.superBlockOfPage b)) (hn : n ≤ st.1.free.length) :
    Triple (· = st) (selectKvVictimBlocks cfg n)
      (fun ret st' => ret.length = n ∧ st'.1.free.length + n = st.1.free.length)
      (fun _ _ => False) := by
  induction n generalizing out st with
  | zero => exact .pure [] fun s hs => by rw [hs]; exact ⟨rfl, rfl⟩
  | succ n ih =>
    have hne : st.1.free ≠ [] := ne_nil_of_length_pos (by omega)
    refine .bind (((pickOneKvVictim_sound h).and
      (pickOneKvVictim_returns (h.inv hstrict) hpins hout hne)).post
        (fun _ _ hs => hs.1) fun _ _ hf => hf.2) fun b => .of_forall fun st₁ ⟨h₁, hb⟩ => ?_
    have hlen : st₁.1.free.length + 1 = st.1.free.length := by
      rw [hb.free, length_erase_of_mem hb.mem]
      omega
    refine .bind (ih h₁ (hpins.congr hb.pins) (fun c hc => ?_) (by omega)) fun ret =>
      .pure _ fun st₂ ⟨hret, hfree⟩ => ?_
    · rcases hc with hc | rfl
      · exact fun hh => hout c hc (hb.held _ hh)
      · exact hb.unheld hstrict
    · exact ⟨by rw [length_cons, hret], by omega⟩

theorem onKvAllocation_returns (ids : List Nat) :
    Triple (NoPins cfg) (onKvAllocation cfg ids) (fun _ => NoPins cfg) (fun _ _ => False) := by
  refine .forEach_inv _ fun s _ => .of_forall fun m hm => ?_
  refine (broadcast_spec (not_pinned_of_any (hm.any_eq_false s))).mapOk fun _ m' hd => hm.dropped hd

/-! ## The call -/

structure HandedOut (p p' : BlockPool K) (b : Nat) : Prop where
  free : p'.freeBlockQueue = p.freeBlockQueue
  refs : ∀ c, p'.refCnt c = if c = b then 1 else p.refCnt c
  hash : ∀ c, p'.hash c = if c = b then none else p.hash c
  caching : p'.enableCaching = p.enableCaching

theorem evictIfCaching_returns (h : st.1.Inv) (hq : st.1.enableCaching = false → st.1.hash b = none)
    :
    ∃ st', evictIfCaching (hooks cfg) b st = (.ok (), st') ∧
      st'.1.freeBlockQueue = st.1.freeBlockQueue ∧ (∀ c, st'.1.refCnt c = st.1.refCnt c) ∧
      (∀ c, st'.1.hash c = if c = b then none else st.1.hash c) ∧
      st'.1.enableCaching = st.1.enableCaching ∧ st'.2.layer = st.2.layer := by
  have hsame : st.1.hash b = none → ∀ c, st.1.hash c = if c = b then none else st.1.hash c :=
    fun hb c => by by_cases hc : c = b <;> simp [hc, hb]
  cases hc : st.1.enableCaching with
  | false =>
    refine ⟨st, ?_, rfl, fun _ => rfl, hsame (hq hc), hc, rfl⟩
    rw [evictIfCaching, get_bind, if_neg (by simp [hc])]
    rfl
  | true =>
    have hrun : maybeEvictCachedBlock (hooks cfg) b st = _ := maybeEvict_eq h b
    cases hb : st.1.hash b with
    | none =>
      rw [hb] at hrun
      refine ⟨st, ?_, rfl, fun _ => rfl, hsame hb, hc, rfl⟩
      rw [evictIfCaching, get_bind, if_pos hc]
      exact bind_of_ok hrun
    | some key =>
      rw [hb] at hrun
      refine ⟨(st.1.unpublish b key, onPrefixRemoved b st.2), ?_, rfl,
        fun _ => by simp [unpublish], fun _ => by simp [unpublish], hc, rfl⟩
      rw [evictIfCaching, get_bind, if_pos hc]
      exact bind_of_ok hrun

theorem allocateOne_returns (h : st.1.Inv) (href : st.1.refCnt b = 0)
    (hq : st.1.enableCaching = false → st.1.hash b = none) :
    Triple (· = st) (allocateOne (hooks cfg) b)
      (fun _ st' => HandedOut st.1 st'.1 b ∧ st'.2.layer = st.2.layer) (fun _ _ => False) := by
  obtain ⟨st₁, hrun, hfree, hrefs, hhash, hcache, hlayer⟩ :
      ∃ st', evictIfCaching (hooks cfg) b st = (.ok (), st') ∧ _ :=
    evictIfCaching_returns h hq
  refine .bind_run hrun (.bind_get (.bind_check (fun _ => ?_) fun hc => ?_))
  · refine .modify fun s hs => ?_
    rw [hs]
    refine ⟨⟨hfree, fun c => ?_, fun c => by simpa using hhash c, hcache⟩, hlayer⟩
    simp [hrefs, href]
  · simp [hrefs, href] at hc

structure Allocated (cfg : PoolConfig) (n : Nat) (st : UnifiedState K) (ret : List Nat)
    (st' : UnifiedState K) : Prop where
  length : ret.length = n
  nodup : ret.Nodup
  wasFree : ∀ b ∈ ret, b ∈ st.1.free
  ref : ∀ b ∈ ret, st'.1.refCnt b = 1
  hash : ∀ b ∈ ret, st'.1.hash b = none
  notFree : ∀ b ∈ ret, b ∉ st'.1.free
  notListed : ∀ b ∈ ret, b ∉ st'.2.prefixLru.keys
  notHeld : ∀ b ∈ ret, st'.2.isHeld (cfg.superBlockOfPage b) = false ∧
    ∀ l ∈ cfg.layerIds, cfg.superBlockOfPage b ∉ (st'.2.layer l).expertAtSuperBlock.keys
  count : st'.1.getNumFreeBlocks = st.1.getNumFreeBlocks - n

theorem allocateAll_returns {ret : List Nat} (h : Sound cfg r ex out st) (hnd : ret.Nodup)
    (htaken : ∀ b ∈ ret, Taken cfg r.strict st b) (hq : r.caching = false → r.quiet) :
    Triple (· = st) (Call.forEach ret (allocateOne (hooks cfg)))
      (fun _ st' => st'.1.freeBlockQueue = st.1.freeBlockQueue ∧ st'.2.layer = st.2.layer ∧
        ∀ b ∈ ret, st'.1.refCnt b = 1 ∧ st'.1.hash b = none) (fun _ _ => False) := by
  refine (Triple.forEach (I := fun done todo s => (∃ out', Sound cfg r ex out' s) ∧
    (∀ b ∈ todo, Taken cfg r.strict s b) ∧ s.1.freeBlockQueue = st.1.freeBlockQueue ∧
    s.2.layer = st.2.layer ∧ ∀ b ∈ done, s.1.refCnt b = 1 ∧ s.1.hash b = none) [] ret
    fun pre b post he => Triple.of_forall fun s ⟨⟨out', hs⟩, htk, hfree, hlayer, hdone⟩ => ?_).weaken
    (fun s hs => by rw [hs]; exact ⟨⟨out, h⟩, htaken, rfl, rfl, by simp⟩)
    (fun _ s hs => hs.2.2) fun _ _ hf => hf
  have hsplit : (pre ++ b :: post).Nodup := he ▸ hnd
  have hpre : ∀ c ∈ pre, c ≠ b := fun c hc e => (nodup_append.mp hsplit).2.2 c hc b (by simp) e
  have hpost : ∀ c ∈ post, c ≠ b := fun c hc e =>
    (nodup_cons.mp (nodup_append.mp hsplit).2.1).1 (e ▸ hc)
  have hb := htk b mem_cons_self
  have hquiet : s.1.enableCaching = false → s.1.hash b = none := fun hc =>
    hs.tables.quiet (hq (hs.tables.flag.symm.trans hc)) b
  refine ((allocateOne_sound hs hb).and (allocateOne_returns hs.pool hb.ref hquiet)).post
    (fun _ s' ⟨⟨h', hlay, htk'⟩, hout, _⟩ => ?_) fun _ _ hf => hf.2
  refine ⟨⟨_, h'⟩, fun c hc => htk' c (hpost c hc) (htk c (mem_cons_of_mem _ hc)),
    hout.free.trans hfree, hlay.trans hlayer, fun c hc => ?_⟩
  rw [hout.refs, hout.hash]
  rcases mem_append.mp hc with hc | hc
  · rw [if_neg (hpre c hc), if_neg (hpre c hc)]
    exact hdone c hc
  · rw [mem_singleton.mp hc, if_pos rfl, if_pos rfl]
    exact ⟨rfl, rfl⟩

theorem getNewBlocks_returns {n : Nat} (hs : Sound cfg r ex (fun _ => False) st)
    (hstrict : r.strict) (hq : r.caching = false → r.quiet) (hpins : NoPins cfg st.2)
    (hn : (n : Int) ≤ st.1.getNumFreeBlocks) :
    ∃ ret st', getNewBlocks (hooks cfg) n st = (.ok ret, st') ∧ Allocated cfg n st ret st' := by
  have hcount := hs.pool.count
  have hcall : Triple (· = st) (getNewBlocks (hooks cfg) n)
      (fun ret st' => ret.length = n ∧ ret.Nodup ∧ (∀ b ∈ ret, b ∈ st.1.free) ∧
        (∀ b ∈ ret, b ∉ st'.1.free) ∧ (∀ b ∈ ret, st'.1.refCnt b = 1 ∧ st'.1.hash b = none) ∧
        st'.1.free.length + n = st.1.free.length) (fun _ _ => False) := by
    refine .bind_get (.bind_check (fun _ => ?_) fun hc => ?_)
    · refine .bind (((selectKvVictimBlocks_sound n hs).and (selectKvVictimBlocks_returns n
        hstrict hs hpins (fun _ hf => hf.elim) (by omega))).mapError fun _ _ hf => hf.2) fun ret =>
        .of_forall fun st₁ ⟨⟨h₁, hsel⟩, hlen, hfree⟩ => ?_
      refine .bind (allocateAll_returns h₁ hsel.nodup (fun b hb => hsel.taken hs.pool hb) hq)
        fun _ => .of_forall fun st₂ ⟨hqueue, hlayer, hdone⟩ => ?_
      have hfree₂ : st₂.1.free = st₁.1.free := congrArg FreeKVCacheBlockQueue.order hqueue
      have hpins₂ : NoPins cfg st₂.2 := hpins.congr (hsel.pins.trans (.of_layer hlayer))
      refine .bind (Q := fun _ st' => st'.1 = st₂.1) ?_ fun _ => .pure ret
        fun st' hst' => ?_
      · exact .zoom (A := fun s m => s = st₂ ∧ NoPins cfg m)
          (B := fun s _ _ => s = st₂) (C := fun _ _ _ => False)
          (fun s hs => (onKvAllocation_returns ret).weaken (fun _ hm => hm.2) (fun _ _ _ => hs)
            fun _ _ hf => hf)
          (fun s hs => ⟨hs, hs ▸ hpins₂⟩) (fun s _ m _ hs => by rw [hs]) fun _ _ _ _ hf => hf.elim
      · rw [hst', hfree₂]
        exact ⟨hlen, hsel.nodup, hsel.mem, fun b hb hf => ((hsel.free b).mp hf).2 hb, hdone, hfree⟩
    · simp [hn] at hc
  obtain ⟨ret, st', hrun, hlen, hnd, hwas, hnot, hdone, hfree⟩ := hcall.exists_ok rfl
  have hs' : Sound cfg r ex (fun _ => False) st' := (getNewBlocks_sound n).ok hs hrun
  have hinv' := hs'.inv hstrict
  have hunheld : ∀ b ∈ ret, ¬ Held cfg st'.2 (cfg.superBlockOfPage b) := fun b hb =>
    hinv'.core.ref_pos_not_held (by rw [(hdone b hb).1]; decide)
  refine ⟨ret, st', hrun, hlen, hnd, hwas, fun b hb => (hdone b hb).1, fun b hb => (hdone b hb).2,
    hnot, fun b hb hc => hnot b hb (hinv'.core.lru_free hc), fun b hb => ⟨?_, fun l hl hc => ?_⟩, ?_⟩
  · rw [← Bool.not_eq_true, hinv'.core.isHeld_iff]
    exact hunheld b hb
  · exact hunheld b hb ⟨l, hl, hc⟩
  · rw [hinv'.core.pool.count, hcount]
    omega

/-! ## Runs -/

/-- Warm-up finds no live page, pages are published while prefix caching is on, a reset that
succeeds finds no cached page, and an allocation made under a pin does not stop half-way. -/
def Op.Steady (cfg : PoolConfig) : Op K → UnifiedState K → Prop
  | .warmUp n, st => NoneLive cfg n st.1
  | .getNewBlocks n, st => NoPins cfg st.2 ∨ (n ≤ st.1.getNumFreeBlocks →
    ∃ st', (Op.getNewBlocks n).exec cfg st = (.ok (), st'))
  | .cacheFullBlocks .., st => st.1.enableCaching = true
  | .resetPrefixCache, st => (st.1.numGpuBlocks : Int) - st.1.getNumFreeBlocks = 1 →
    ∀ p, st.1.hash p = none
  | _, _ => True

theorem steady_of_run (h₀ : Started cfg st₀)
    (run : Run (Op.next cfg) (fun op st => op.Promised cfg st ∧ op.Steady cfg st) st₀ st) :
    Sound cfg ⟨st₀.1.enableCaching, st₀.1.enableCaching = false, True⟩ (fun _ _ => True)
      (fun _ => False) st := by
  refine run.inv h₀.sound fun op st h ⟨hp, hs⟩ => op.next_sound h (fun hpub => ?_) hp (fun _ => ?_)
    fun n hop hn => ?_
  · cases op with
    | cacheFullBlocks =>
      have hcaching : st.1.enableCaching = true := hs
      have hflag : st.1.enableCaching = st₀.1.enableCaching := h.tables.flag
      change ¬ st₀.1.enableCaching = false
      rw [← hflag, hcaching]
      decide
    | _ => exact hpub.elim
  · cases op with
    | warmUp | resetPrefixCache => exact hs
    | _ => trivial
  · subst hop
    rcases hs with hpins | hs
    · obtain ⟨ret, st', hrun, -⟩ := getNewBlocks_returns h trivial id hpins hn
      exact ⟨st', bind_of_ok hrun⟩
    · exact hs hn

end Vllm.Unified
