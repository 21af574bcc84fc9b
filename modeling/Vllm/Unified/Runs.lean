import Vllm.Base.Run
import Vllm.Unified.Loading

/-! Runs of the unified pool. Block pool operations, KV writes, expert loads and warm-up interleave
in any order; a call that raises leaves the state it had reached.

`contents_of_run` is about the bytes of experts and cached pages, `tables_of_run` about the tables
that say where experts are, `prefixLru_of_run` about the recency list of cached pages. -/

namespace Vllm.Unified
open Base UnifiedPoolManager List BlockPool

variable {K : Type} [DecidableEq K]

inductive Op (K : Type) where
  | warmUp (warmCount : Nat)
  | getNewBlocks (numBlocks : Nat)
  | kvWrite (page : Nat) (data : Nat → Nat → UInt8)
  | cacheFullBlocks (numBlockHashes : Nat) (keys : List K) (blocks : List Nat)
      (numCachedBlocks numFullBlocks : Nat)
  | touch (blocks : List Nat)
  | freeBlocks (orderedBlocks : List Nat)
  | evictBlocks (blockIds : List Nat)
  | evictPrefixHash (blockId : Nat)
  | resetPrefixCache
  | ensureLoaded (layer : Nat) (needed : List Nat)
  | releasePinned (layer : Nat)
  | endForwardStep

namespace Op
variable (cfg : PoolConfig)

def exec : Op K → UnifiedCall K Unit
  | warmUp n => UnifiedPoolManager.warmUp cfg n
  | getNewBlocks n => do
    let _ ← BlockPool.getNewBlocks (hooks cfg) n
  | kvWrite p data => Call.modify (Unified.kvWrite cfg p data)
  | cacheFullBlocks n keys blocks numCached numFull => do
    Call.modify (record cfg ((blocks.take numFull).drop numCached))
    BlockPool.cacheFullBlocks n keys blocks numCached numFull
  | touch bs => BlockPool.touch (hooks cfg) bs
  | freeBlocks bs => BlockPool.freeBlocks (hooks cfg) bs
  | evictBlocks ids => BlockPool.evictBlocks (hooks cfg) ids
  | evictPrefixHash b => do
    let _ ← BlockPool.evictPrefixHash (hooks cfg) b
  | resetPrefixCache => do
    let _ ← BlockPool.resetPrefixCache
  | ensureLoaded l needed => UnifiedPoolManager.ensureLoaded cfg l needed
  | releasePinned l => UnifiedPoolManager.releasePinned l
  | endForwardStep => UnifiedPoolManager.endForwardStep

def next (op : Op K) (st : UnifiedState K) : UnifiedState K := (op.exec cfg st).2

/-- What the callers promise: KV is written to and published from live pages, hits are touched,
owned blocks are freed, and a layer asks for distinct experts it has. -/
def Promised : Op K → UnifiedState K → Prop
  | kvWrite p _, st => 0 < st.1.refCnt p
  | cacheFullBlocks _ _ blocks numCached numFull, st =>
    ∀ b ∈ (blocks.take numFull).drop numCached, Cacheable st.1 b
  | touch bs, st => ∀ b ∈ bs, Touchable st.1 b
  | freeBlocks bs, st => st.1.Freeable bs
  | ensureLoaded l needed, _ =>
    l ∈ cfg.layerIds ∧ needed.Nodup ∧ ∀ e ∈ needed, e < cfg.numExperts l
  | _, _ => True

instance (op : Op K) (st : UnifiedState K) : Decidable (op.Promised cfg st) := by
  cases op <;> dsimp only [Promised, Cacheable, Touchable] <;> infer_instance

/-- An operation after start-up that leaves the hashes of the whole pool alone. -/
def Serving : Op K → Prop
  | warmUp _ | resetPrefixCache => False
  | _ => True

def Publishes : Op K → Prop
  | cacheFullBlocks .. => True
  | _ => False

def ResetsNothing : Op K → UnifiedState K → Prop
  | warmUp n, st => NoneLive cfg n st.1
  | resetPrefixCache, st => (st.1.numGpuBlocks : Int) - st.1.getNumFreeBlocks = 1 →
    ∀ p, st.1.hash p = none
  | _, _ => True

end Op

/-- `BlockPool.__init__` and `UnifiedPoolManager.__init__`: any buffer, any coming faults. -/
def Started (cfg : PoolConfig) (st : UnifiedState K) : Prop :=
  ∃ numGpuBlocks enableCaching poolBuffer copyFaults kvOf,
    0 < numGpuBlocks ∧ cfg.numSuperBlocks = numGpuBlocks / cfg.pagesPerSuperBlock ∧
      st = (new numGpuBlocks enableCaching, { poolBuffer, copyFaults, kvOf })

variable {cfg : PoolConfig} {r : Regime} {ex : Nat → Nat → Prop} {out : Nat → Prop} {st st₀ : UnifiedState K}

theorem Started.inv (h : Started cfg st) : Inv cfg ex out st := by
  obtain ⟨n, caching, buf, faults, kv, hn, hsup, rfl⟩ := h
  have hmaps : ∀ l s, ¬ ({ poolBuffer := buf, copyFaults := faults, kvOf := kv } :
      UnifiedPoolManager).Maps l s := by simp [Maps]
  have hhash : ∀ p, (new n caching : BlockPool K).hash p = none := fun _ => rfl
  refine ⟨⟨inv_new hn caching, hsup, fun _ _ => UnifiedPool.inv_new, fun s l => ?_,
    by simp, by simp [Held, hmaps], by simp [Held, hmaps], by simp [hhash]⟩, by simp [Pinned],
    ⟨by simp, fun p hp => absurd (hhash p) hp⟩, ?_⟩
  · simp [hmaps]
  · intro b hb h0 _ _
    exact mem_range'_1.mpr ⟨Nat.one_le_iff_ne_zero.mpr h0, by
      simp only [new] at hb
      omega⟩

theorem Started.sound (h : Started cfg st) {quiet strict : Prop} :
    Sound cfg ⟨st.1.enableCaching, quiet, strict⟩ ex out st := by
  refine ⟨?_, fun _ => h.inv⟩
  have hinv : Inv cfg (fun _ _ => True) (fun _ => True) st := h.inv
  obtain ⟨n, c, buf, faults, kv, hn, hsup, rfl⟩ := h
  refine ⟨hinv.core.pool, ?_, Recency.empty _ _, fun _ => .new _, rfl, fun _ _ => rfl⟩
  exact Started.inv ⟨n, true, buf, faults, kv, hn, hsup, rfl⟩

theorem Op.exec_sound (op : Op K) (hq : op.Publishes → ¬ r.quiet) :
    Triple (fun st => Sound cfg r ex out st ∧ op.Promised cfg st ∧
        (r.strict → op.ResetsNothing cfg st)) (op.exec cfg)
      (fun _ => Sound cfg r ex out)
      (fun _ => Sound cfg r (fun l s => ex l s ∨ ∃ n, op = .warmUp n)
        fun b => out b ∨ ∃ n, op = .getNewBlocks n) := by
  have hany : ∀ {st : UnifiedState K}, Sound cfg r ex out st →
      Sound cfg r (fun l s => ex l s ∨ ∃ n, op = .warmUp n)
        (fun b => out b ∨ ∃ n, op = .getNewBlocks n) st :=
    fun h => (h.mono fun _ _ => .inl).mono_out fun _ => .inl
  cases op with
  | warmUp n =>
    exact warmUp_sound.weaken (fun _ h => ⟨h.1, h.2.2⟩) (fun _ _ h => h)
      fun _ _ h => (h.mono fun _ _ _ => .inr ⟨n, rfl⟩).mono_out fun _ => .inl
  | getNewBlocks n =>
    exact .bind ((getNewBlocks_sound n).weaken (fun _ h => h.1) (fun _ _ h => h)
      fun _ _ h => (h.mono fun _ _ => .inl).mono_out fun _ _ => .inr ⟨n, rfl⟩)
      fun _ => .skip
  | kvWrite p data => exact .modify fun _ h => h.1.kvWrite h.2.1 data
  | cacheFullBlocks n keys blocks numCached numFull =>
    refine .of_forall fun st ⟨h, hcache, _⟩ => .bind_modify ?_
    refine (cacheFullBlocks_sound (hq trivial)).weaken (fun s hs => ?_) (fun _ _ h => h)
      fun _ _ h => hany h
    rw [hs]
    exact ⟨h.record _, fun b hb => ⟨hcache b hb, fun hstrict => ((h.inv hstrict).record _).2 b hb⟩⟩
  | touch bs =>
    exact touch_sound.weaken (fun _ h => ⟨h.1, fun _ => h.2.1⟩) (fun _ _ h => h) fun _ _ h => hany h
  | freeBlocks bs =>
    exact freeBlocks_sound.weaken (fun _ h => ⟨h.1, h.2.1⟩) (fun _ _ h => h) fun _ _ h => h.elim
  | evictBlocks ids =>
    exact evictBlocks_sound.weaken (fun _ h => h.1) (fun _ _ h => h) fun _ _ h => hany h
  | evictPrefixHash b =>
    exact .bind (evictPrefixHash_sound.weaken (fun _ h => h.1) (fun _ _ h => h)
      fun _ _ h => hany h) fun _ => .skip
  | resetPrefixCache =>
    refine .of_forall fun st ⟨h, _, hnone⟩ => ?_
    exact .bind ((resetPrefixCache_sound h hnone).mapError
      fun _ _ h => h.elim) fun _ => .skip
  | ensureLoaded l needed =>
    refine .of_forall fun st ⟨h, ⟨hl, _, hne⟩, _⟩ => ?_
    exact (ensureLoaded_sound hl hne h).post (fun _ _ h => h.1)
      fun _ _ h => hany h.1
  | releasePinned l =>
    exact (releasePinned_sound l).weaken (fun _ h => h.1) (fun _ _ h => h) fun _ _ h => h.elim
  | endForwardStep =>
    exact endForwardStep_sound.weaken (fun _ h => h.1) (fun _ _ h => h) fun _ _ h => h.elim

/-! ## A small pool -/

/-- One layer with two experts of one byte, one page to a super-block, three super-blocks. -/
def oneLayer : PoolConfig where
  pagesPerSuperBlock := 1
  pageSizeBytes := 1
  numSuperBlocks := 3
  layerIds := [0]
  kvLayers := [0]
  numExperts := fun _ => 2
  w13Bytes := fun _ => 1
  w2Bytes := fun _ => 0
  cpuW13 := fun _ e _ => if e = 0 then 10 else 11
  cpuW2 := fun _ _ _ => 0
  relocationEnabled := true
  kvScoreOldest := false
  pages_pos := Nat.one_pos
  page_pos := Nat.one_pos
  layers_nodup := nodup_singleton 0
  slot_eq := fun _ => rfl

def oneLayerStart : UnifiedState Nat :=
  (new 3 true, { poolBuffer := fun _ _ => 0, kvOf := fun _ _ _ => 0 })

theorem started_oneLayerStart : Started oneLayer oneLayerStart :=
  ⟨3, true, fun _ _ => 0, [], fun _ _ _ => 0, by decide, rfl, rfl⟩

def oneLayerRun (ops : List (Op Nat)) : UnifiedState Nat :=
  ops.foldl (fun st op => op.next oneLayer st) oneLayerStart

/-! ## The bytes -/

/-- What the buffers hold: loaded experts their weights, cached pages the KV their hash stands for,
and a load that returns has brought what was asked for. -/
structure Contents (cfg : PoolConfig) (st : UnifiedState K) : Prop where
  experts : ∀ l ∈ cfg.layerIds, ∀ e s, (st.2.layer l).superBlockAtExpert.get? e = some s →
    ∀ i < cfg.expertSlotBytes,
      st.2.poolBuffer l (s * cfg.expertSlotBytes + i) = expertByte cfg l e i
  pages : ∀ p, st.1.hash p ≠ none → ∀ l ∈ cfg.kvLayers, ∀ i < cfg.pageSizeBytes,
    st.2.poolBuffer l (p * cfg.pageSizeBytes + i) = st.2.kvOf p l i
  loaded : ∀ l needed st', l ∈ cfg.layerIds → needed.Nodup →
    (∀ e ∈ needed, e < cfg.numExperts l) → ensureLoaded cfg l needed st = (.ok (), st') →
    ∀ e ∈ needed, ∃ s, (st'.2.layer l).superBlockAtExpert.get? e = some s ∧
      (st'.2.layer l).superBlockIdAt e = s ∧ s ∈ (st'.2.layer l).pinnedSuperBlocks ∧
      ∀ i < cfg.expertSlotBytes,
        st'.2.poolBuffer l (s * cfg.expertSlotBytes + i) = expertByte cfg l e i

theorem Inv.expert_bytes (h : Inv cfg (fun _ _ => False) out st) {l e s : Nat}
    (hl : l ∈ cfg.layerIds) (he : (st.2.layer l).superBlockAtExpert.get? e = some s) {i : Nat}
    (hi : i < cfg.expertSlotBytes) :
    st.2.poolBuffer l (s * cfg.expertSlotBytes + i) = expertByte cfg l e i := by
  obtain ⟨hdiv, hmod⟩ := mul_add_div_mod (q := s) hi
  have := h.content.experts l hl s e (((h.core.layer l hl).inverse s e).mpr he) id _ hdiv
  rwa [hmod] at this

theorem Sound.contents (hs : Sound cfg r (fun _ _ => False) out st) (hstrict : r.strict) :
    Contents cfg st := by
  have h := hs.inv hstrict
  refine ⟨fun l hl e s he i hi => h.expert_bytes hl he hi, fun p hp l hl i hi => ?_,
    fun l needed st' hl _ hne hrun e he => ?_⟩
  · obtain ⟨hdiv, hmod⟩ := mul_add_div_mod (q := p) hi
    have := h.content.kv p hp l hl _ hdiv
    rwa [hmod] at this
  · obtain ⟨hsound, -, hfresh⟩ := (ensureLoaded_sound hl hne hs).ok rfl hrun
    have hinv := hsound.inv hstrict
    obtain ⟨⟨s, hat, hpin⟩, -⟩ := hfresh e he
    refine ⟨s, hat, ?_, hpin, fun i hi => hinv.expert_bytes hl hat hi⟩
    rw [(hinv.core.layer l hl).mirror, hat]
    rfl

theorem contents_of_run {warmCount : Nat} {st₁ : UnifiedState K} (h₀ : Started cfg st₀)
    (hwarm : warmUp cfg warmCount st₀ = (.ok (), st₁))
    (run : Run (Op.next cfg) (fun op st => op.Serving ∧ op.Promised cfg st) st₁ st) :
    Contents cfg st := by
  have hlive : NoneLive cfg warmCount st₀.1 := by
    obtain ⟨n, caching, buf, faults, kv, -, -, rfl⟩ := h₀
    exact fun b _ _ => Int.lt_irrefl 0
  have h₁ : Sound cfg ⟨st₀.1.enableCaching, False, True⟩ (fun _ _ => False) (fun _ => True) st₁ :=
    warmUp_sound.ok ⟨h₀.sound, fun _ => hlive⟩ hwarm
  refine (run.inv h₁ fun op st h hop => ?_).contents trivial
  have hserves : ¬ ∃ n, op = .warmUp n := by
    rintro ⟨n, rfl⟩
    exact hop.1
  refine ((op.exec_sound fun _ => id).mapError fun _ _ h =>
    (h.mono fun _ _ hx => hx.elim id hserves).mono_out fun _ _ => trivial).snd
    ⟨h, hop.2, fun _ => ?_⟩
  cases op with
  | warmUp | resetPrefixCache => exact hop.1.elim
  | _ => trivial

def oneLayerWarm : UnifiedState Nat := (warmUp oneLayer 1 oneLayerStart).2

theorem warmUp_oneLayerStart : warmUp oneLayer 1 oneLayerStart = (.ok (), oneLayerWarm) :=
  Prod.ext rfl rfl

def publishedPage : UnifiedState Nat :=
  [Op.getNewBlocks 1, Op.cacheFullBlocks 1 [5] [2] 0 1].foldl (fun st op => op.next oneLayer st)
    oneLayerWarm

theorem run_publishedPage : Run (Op.next oneLayer)
    (fun op st => op.Serving ∧ op.Promised oneLayer st) oneLayerWarm publishedPage := by
  have hops : Run.Allowed (Op.next oneLayer) (fun op st => op.Serving ∧ op.Promised oneLayer st)
      [.getNewBlocks 1, .cacheFullBlocks 1 [5] [2] 0 1] oneLayerWarm :=
    ⟨⟨trivial, trivial⟩, ⟨trivial, by decide⟩, trivial⟩
  exact .of_allowed hops

theorem contents_of_run_publishedPage :
    (publishedPage.2.layer 0).superBlockAtExpert.get? 0 = some 1 ∧ publishedPage.1.hash 2 = some 5 ∧
      Contents oneLayer publishedPage :=
  ⟨by decide, by decide, contents_of_run started_oneLayerStart warmUp_oneLayerStart run_publishedPage⟩

/-- The KV of a hash is not what the page held when the hash was assigned: it is written after. -/
theorem kvWrite_after_publish :
    Run (Op.next oneLayer) (fun op st => op.Serving ∧ op.Promised oneLayer st) oneLayerWarm
        ((Op.kvWrite 2 fun _ _ => 7).next oneLayer publishedPage) ∧
      publishedPage.1.hash 2 = some 5 ∧ publishedPage.2.poolBuffer 0 2 = 0 ∧
      ((Op.kvWrite 2 fun _ _ => 7).next oneLayer publishedPage).1.hash 2 = some 5 ∧
      ((Op.kvWrite 2 fun _ _ => 7).next oneLayer publishedPage).2.poolBuffer 0 2 = 7 := by
  have hlive : 0 < publishedPage.1.refCnt 2 := by decide
  exact ⟨.step _ run_publishedPage ⟨trivial, hlive⟩, by decide, by decide, by decide, by decide⟩

/-! ## The tables -/

structure TablesAgree (cfg : PoolConfig) (st : UnifiedState K) : Prop where
  inverse : ∀ l ∈ cfg.layerIds, ∀ s e, (st.2.layer l).expertAtSuperBlock.get? s = some e ↔
    (st.2.layer l).superBlockAtExpert.get? e = some s
  lru : ∀ l ∈ cfg.layerIds, ∀ e, e ∈ (st.2.layer l).expertLru.keys ↔
    e ∈ (st.2.layer l).superBlockAtExpert.keys
  mirror : ∀ l ∈ cfg.layerIds, ∀ e, (st.2.layer l).superBlockIdAt e =
    (((st.2.layer l).superBlockAtExpert.get? e).map fun s => (s : Int)).getD (-1)
  pinned : ∀ l ∈ cfg.layerIds, ∀ s ∈ (st.2.layer l).pinnedSuperBlocks,
    s ∈ (st.2.layer l).expertAtSuperBlock.keys
  holder : ∀ s l, l ∈ (st.2.superBlockHolder.get? s).getD ∅ ↔
    l ∈ cfg.layerIds ∧ s ∈ (st.2.layer l).expertAtSuperBlock.keys
  holder_ne : ∀ s, st.2.superBlockHolder.get? s ≠ some ∅
  held : ∀ s ∈ st.2.superBlockHolder.keys, 1 ≤ s ∧ s < cfg.numSuperBlocks ∧
    ∀ p ∈ cfg.pagesOf s, st.1.refCnt p = 0 ∧ st.1.hash p = none ∧ p ∈ st.1.free

theorem Inv.tablesAgree (h : Inv cfg ex (fun _ => False) st) : TablesAgree cfg st := by
  refine ⟨fun l hl => (h.core.layer l hl).inverse, fun l hl => (h.core.layer l hl).lru,
    fun l hl => (h.core.layer l hl).mirror, h.pinned, h.core.holder, h.core.holder_ne,
    fun s hs => ?_⟩
  have hheld := h.core.holder_key hs
  obtain ⟨h1, hlt⟩ := h.core.held_range s hheld
  refine ⟨h1, hlt, fun p hp => ?_⟩
  have hps := mem_pagesOf.mp hp
  obtain ⟨hr, hh⟩ := h.core.held_pages p (hps ▸ hheld)
  have hpn : p < st.1.numGpuBlocks := by
    rw [h.core.supers, ← hps] at hlt
    exact lt_of_not_ge fun hge => Nat.not_lt_of_ge (Nat.div_le_div_right hge) hlt
  exact ⟨hr, hh, h.complete p hpn (page_ne_zero (hps ▸ h1)) hr id⟩

/-- Warm-up comes while its super-blocks have no live page, and an allocation that the count of
free blocks allows does not raise. -/
def Op.Orderly (cfg : PoolConfig) : Op K → UnifiedState K → Prop
  | .warmUp n, st => NoneLive cfg n st.1
  | .getNewBlocks n, st => n ≤ st.1.getNumFreeBlocks →
    ∃ st', (Op.getNewBlocks n).exec cfg st = (.ok (), st')
  | .resetPrefixCache, _ => False
  | _, _ => True

theorem getNewBlocks_refused {n : Nat} (h : ¬ (n : Int) ≤ st.1.getNumFreeBlocks) :
    (Op.getNewBlocks n).next cfg st = st := by
  simp [Op.next, Op.exec, BlockPool.getNewBlocks, Call.run_bind, Call.get, Call.check, h,
    Call.raise]

theorem Op.next_sound (op : Op K) (h : Sound cfg r (fun _ _ => True) (fun _ => False) st)
    (hq : op.Publishes → ¬ r.quiet) (hp : op.Promised cfg st)
    (hreset : r.strict → op.ResetsNothing cfg st)
    (halloc : ∀ n, op = .getNewBlocks n → (n : Int) ≤ st.1.getNumFreeBlocks →
      ∃ st', (Op.getNewBlocks n).exec cfg st = (.ok (), st')) :
    Sound cfg r (fun _ _ => True) (fun _ => False) (op.next cfg st) := by
  by_cases hn : ∃ n, op = .getNewBlocks n
  · obtain ⟨n, rfl⟩ := hn
    by_cases hfree : (n : Int) ≤ st.1.getNumFreeBlocks
    · obtain ⟨st', hrun⟩ := halloc n rfl hfree
      rw [Op.next, hrun]
      exact ((Op.getNewBlocks n).exec_sound hq).ok ⟨h, hp, hreset⟩ hrun
    · rw [getNewBlocks_refused hfree]
      exact h
  · exact ((op.exec_sound hq).mapError fun _ _ h =>
      (h.mono fun _ _ _ => trivial).mono_out fun _ hc => hc.elim id hn).snd ⟨h, hp, hreset⟩

/-- The recency list has exactly the free cached pages; so it counts them, and offers no page
that is in use. -/
structure LruExact (st : UnifiedState K) : Prop where
  keys : ∀ p, p ∈ st.2.prefixLru.keys ↔ p ∈ st.1.free ∧ st.1.hash p ≠ none
  count : st.1.getNumFreeBlocks - st.2.prefixLru.size =
    st.1.free.countP fun p => (st.1.hash p).isNone
  dead : ∀ p ∈ st.2.prefixLru.keys, st.1.refCnt p = 0

theorem Inv.lruExact (h : Inv cfg ex out st) : LruExact st := by
  refine ⟨h.core.lru, ?_, fun p hp => (h.core.pool.free_spec p (h.core.lru_free hp)).2.1⟩
  have hperm : st.2.prefixLru.keys.Perm (st.1.free.filter fun p => (st.1.hash p).isSome) :=
    (perm_ext_iff_of_nodup st.2.prefixLru.nodup (h.core.pool.free_nodup.filter _)).mpr
      fun p => (h.core.lru p).trans (by rw [mem_filter, Option.isSome_iff_ne_none])
  have hsize : st.2.prefixLru.size = st.1.free.countP fun p => (st.1.hash p).isSome := by
    rw [countP_eq_length_filter, ← hperm.length_eq]
    exact (length_map _).symm
  have hsplit := length_eq_countP_add_countP (fun p => (st.1.hash p).isSome)
    (l := st.1.free)
  have hnone : (fun p => decide ¬ (st.1.hash p).isSome = true) = fun p => (st.1.hash p).isNone := by
    funext p
    cases st.1.hash p <;> rfl
  rw [hnone] at hsplit
  rw [h.core.pool.count]
  omega

theorem Started.sound_of_run (h₀ : Started cfg st₀) {ok : Op K → UnifiedState K → Prop} {strict : Prop}
    (run : Run (Op.next cfg) ok st₀ st) (hok : ∀ op st, ok op st →
      op.Promised cfg st ∧ (strict → op.ResetsNothing cfg st)) :
    Sound cfg ⟨st₀.1.enableCaching, False, strict⟩ (fun _ _ => True) (fun _ => True) st :=
  run.inv h₀.sound fun op st h hop => ((op.exec_sound fun _ => id).mapError
    fun _ _ h => (h.mono fun _ _ _ => trivial).mono_out fun _ _ => trivial).snd
    ⟨h, hok op st hop⟩

def cachedOps : List (Op Nat) :=
  [.getNewBlocks 1, .cacheFullBlocks 1 [5] [1] 0 1, .freeBlocks [1]]

end Vllm.Unified
