import Vllm.Unified.Pool

/-! The invariant of the unified pool and what each elementary update does to it.

`Core` ties the tables of the layers, the holder map, the free queue, the hashes and the recency
list to each other. `Content` says what the bytes of experts and of cached pages are; it may leave
out some layers' super-blocks, so that it also holds between a claim and the end of its copy. -/

namespace Vllm
open Base UnifiedPool BlockPool Dict List Triple

variable {K : Type} [DecidableEq K]

/-! ## One layer -/

namespace UnifiedPool

structure Inv (u : UnifiedPool) : Prop where
  inverse : ∀ s e, u.expertAtSuperBlock.get? s = some e ↔ u.superBlockAtExpert.get? e = some s
  mirror : ∀ e, u.superBlockIdAt e =
    ((u.superBlockAtExpert.get? e).map fun s => (s : Int)).getD (-1)
  lru : ∀ e, e ∈ u.expertLru.keys ↔ e ∈ u.superBlockAtExpert.keys

theorem inv_new : ({ } : UnifiedPool).Inv := ⟨by simp, by simp, by simp⟩

variable {u : UnifiedPool}

theorem get?_drop (u : UnifiedPool) (s s' : Nat) :
    (u.drop s).expertAtSuperBlock.get? s' =
      if s' = s then none else u.expertAtSuperBlock.get? s' := by
  unfold drop
  split
  · next h => by_cases hs : s' = s <;> simp [hs, h]
  · simp [get?_erase]

@[simp] theorem pinned_drop (u : UnifiedPool) (s : Nat) :
    (u.drop s).pinnedSuperBlocks = u.pinnedSuperBlocks := by
  unfold drop
  split <;> rfl

theorem Inv.drop (h : u.Inv) (s : Nat) : (u.drop s).Inv := by
  unfold UnifiedPool.drop
  split
  · exact h
  · next e he =>
    have hes := (h.inverse s e).mp he
    refine ⟨fun s' e' => ?_, fun e' => ?_, fun e' => ?_⟩
    · simp only [get?_erase]
      by_cases hs : s' = s
      · subst hs
        simp only [if_true, reduceCtorEq, false_iff]
        by_cases hee : e' = e
        · simp [hee]
        · simp only [if_neg hee, ← h.inverse, he, Option.some.injEq]
          exact fun h' => hee h'.symm
      · by_cases hee : e' = e
        · subst hee
          simp only [if_neg hs, if_true, reduceCtorEq, iff_false, h.inverse, hes, Option.some.injEq]
          exact fun h' => hs h'.symm
        · simp [hs, hee, h.inverse]
    · by_cases hee : e' = e
      · simp [hee]
      · simp [hee, get?_erase, h.mirror]
    · rw [mem_keys_erase, mem_keys_erase, h.lru]

def assigned (u : UnifiedPool) (s e step : Nat) : UnifiedPool :=
  { u with
    expertAtSuperBlock := u.expertAtSuperBlock.set s e
    superBlockAtExpert := u.superBlockAtExpert.set e s
    expertLru := u.expertLru.set e step
    superBlockIdAt := Function.update u.superBlockIdAt e s }

theorem assign_eq {l numExperts s e step : Nat} (hs : u.expertAtSuperBlock.get? s = none)
    (he : u.superBlockAtExpert.get? e = none) (hn : e < numExperts) :
    assign l numExperts s e step u = (.ok (), u.assigned s e step) := by
  simp [assign, hs, he, hn, assigned]

theorem Inv.assigned (h : u.Inv) {s e step : Nat} (hs : u.expertAtSuperBlock.get? s = none)
    (he : u.superBlockAtExpert.get? e = none) : (u.assigned s e step).Inv := by
  refine ⟨fun s' e' => ?_, fun e' => ?_, fun e' => ?_⟩
  · simp only [UnifiedPool.assigned, get?_set]
    by_cases hss : s' = s
    · subst hss
      by_cases hee : e' = e
      · simp [hee]
      · simp only [if_true, Option.some.injEq, if_neg hee, ← h.inverse, hs, reduceCtorEq, iff_false]
        exact fun h' => hee h'.symm
    · by_cases hee : e' = e
      · subst hee
        simp only [if_neg hss, if_true, Option.some.injEq, h.inverse, he, reduceCtorEq, false_iff]
        exact fun h' => hss h'.symm
      · simp [hss, hee, h.inverse]
  · simp only [UnifiedPool.assigned, get?_set]
    by_cases hee : e' = e
    · simp [hee]
    · simp [hee, h.mirror]
  · simp only [UnifiedPool.assigned, mem_keys_set, h.lru]

theorem Inv.bumpExpert (h : u.Inv) (e step : Nat) : (u.bumpExpert e step).Inv := by
  unfold UnifiedPool.bumpExpert
  split
  · next he =>
    refine ⟨h.inverse, h.mirror, fun e' => ?_⟩
    simp only [mem_keys_setLast, ← h.lru]
    exact ⟨fun h' => h'.elim (fun hee => hee ▸ he) id, .inr⟩
  · exact h

section
variable (u : UnifiedPool) (e step : Nat)

@[simp] theorem expertAt_bumpExpert :
    (u.bumpExpert e step).expertAtSuperBlock = u.expertAtSuperBlock := by
  unfold bumpExpert
  split <;> rfl

@[simp] theorem superBlockAt_bumpExpert :
    (u.bumpExpert e step).superBlockAtExpert = u.superBlockAtExpert := by
  unfold bumpExpert
  split <;> rfl

@[simp] theorem pinned_bumpExpert :
    (u.bumpExpert e step).pinnedSuperBlocks = u.pinnedSuperBlocks := by
  unfold bumpExpert
  split <;> rfl

end

theorem Inv.pin (h : u.Inv) (s : Nat) : (u.pin s).Inv := { h with }

theorem Inv.unpinAll (h : u.Inv) : u.unpinAll.Inv := { h with }

end UnifiedPool

/-! ## The whole pool -/

namespace UnifiedPoolManager

def Maps (m : UnifiedPoolManager) (l s : Nat) : Prop :=
  s ∈ (m.layer l).expertAtSuperBlock.keys

theorem maps_iff {m : UnifiedPoolManager} {l s : Nat} :
    m.Maps l s ↔ ∃ e, (m.layer l).expertAtSuperBlock.get? s = some e := by
  rw [Maps, mem_keys_iff, Option.isSome_iff_exists]

end UnifiedPoolManager

namespace Unified
open UnifiedPoolManager

def Held (cfg : PoolConfig) (m : UnifiedPoolManager) (s : Nat) : Prop :=
  ∃ l ∈ cfg.layerIds, m.Maps l s

structure Core (cfg : PoolConfig) (st : UnifiedState K) : Prop where
  pool : st.1.Inv
  supers : cfg.numSuperBlocks = st.1.numGpuBlocks / cfg.pagesPerSuperBlock
  layer : ∀ l ∈ cfg.layerIds, (st.2.layer l).Inv
  holder : ∀ s l, l ∈ (st.2.superBlockHolder.get? s).getD ∅ ↔ l ∈ cfg.layerIds ∧ st.2.Maps l s
  holder_ne : ∀ s, st.2.superBlockHolder.get? s ≠ some ∅
  held_range : ∀ s, Held cfg st.2 s → 1 ≤ s ∧ s < cfg.numSuperBlocks
  held_pages : ∀ p, Held cfg st.2 (cfg.superBlockOfPage p) →
    st.1.refCnt p = 0 ∧ st.1.hash p = none
  lru : ∀ p, p ∈ st.2.prefixLru.keys ↔ p ∈ st.1.free ∧ st.1.hash p ≠ none

def Pinned (cfg : PoolConfig) (m : UnifiedPoolManager) : Prop :=
  ∀ l ∈ cfg.layerIds, ∀ s ∈ (m.layer l).pinnedSuperBlocks, m.Maps l s

/-- Byte `i` of expert `e`: `cpu_w13[e]` followed by `cpu_w2[e]`. -/
def expertByte (cfg : PoolConfig) (l e i : Nat) : UInt8 :=
  if i < cfg.w13Bytes l then cfg.cpuW13 l e i else cfg.cpuW2 l e (i - cfg.w13Bytes l)

structure Content (cfg : PoolConfig) (ex : Nat → Nat → Prop) (st : UnifiedState K) : Prop where
  experts : ∀ l ∈ cfg.layerIds, ∀ s e, (st.2.layer l).expertAtSuperBlock.get? s = some e →
    ¬ ex l s → ∀ o, o / cfg.expertSlotBytes = s →
      st.2.poolBuffer l o = expertByte cfg l e (o % cfg.expertSlotBytes)
  kv : ∀ p, st.1.hash p ≠ none → ∀ l ∈ cfg.kvLayers, ∀ o, o / cfg.pageSizeBytes = p →
    st.2.poolBuffer l o = st.2.kvOf p l (o % cfg.pageSizeBytes)

def QueueComplete (out : Nat → Prop) (p : BlockPool K) : Prop :=
  ∀ b < p.numGpuBlocks, b ≠ 0 → p.refCnt b = 0 → ¬ out b → b ∈ p.free

structure Inv (cfg : PoolConfig) (ex : Nat → Nat → Prop) (out : Nat → Prop)
    (st : UnifiedState K) : Prop where
  core : Core cfg st
  pinned : Pinned cfg st.2
  content : Content cfg ex st
  complete : QueueComplete out st.1

variable {cfg : PoolConfig} {ex : Nat → Nat → Prop} {out : Nat → Prop} {st : UnifiedState K}

theorem slot_div (cfg : PoolConfig) (o : Nat) :
    o / cfg.expertSlotBytes = cfg.superBlockOfPage (o / cfg.pageSizeBytes) := by
  rw [PoolConfig.expertSlotBytes, PoolConfig.superBlockOfPage, Nat.div_div_eq_div_mul]

theorem mul_add_div_mod {d q i : Nat} (hi : i < d) : (q * d + i) / d = q ∧ (q * d + i) % d = i := by
  refine ⟨?_, Nat.mul_add_mod_of_lt hi⟩
  rw [Nat.mul_comm, Nat.mul_add_div (Nat.zero_lt_of_lt hi), Nat.div_eq_of_lt hi, Nat.add_zero]

variable {s p b l : Nat} {m' m : UnifiedPoolManager}

theorem mem_pagesOf : p ∈ cfg.pagesOf s ↔ cfg.superBlockOfPage p = s := by
  have hpos := cfg.pages_pos
  rw [PoolConfig.pagesOf, PoolConfig.superBlockOfPage, mem_range'_1,
    Nat.div_eq_iff hpos, Nat.mul_comm]
  omega

section
variable (h : Core cfg st)
include h

theorem Core.isHeld_iff : st.2.isHeld s = true ↔ Held cfg st.2 s := by
  unfold isHeld Held
  rcases hs : st.2.superBlockHolder.get? s with _ | holders
  · simp only [Bool.false_eq_true, false_iff, not_exists, not_and]
    intro l hl hm
    have := (h.holder s l).mpr ⟨hl, hm⟩
    simp [hs] at this
  · have hne : holders ≠ ∅ := fun he => h.holder_ne s (he ▸ hs)
    simp only [decide_eq_true_eq, ne_eq, hne, not_false_eq_true, true_iff]
    obtain ⟨l, hl⟩ := Finset.nonempty_iff_ne_empty.mpr hne
    exact ⟨l, (h.holder s l).mp (by simpa [hs] using hl)⟩

theorem Core.holder_key (hs : s ∈ st.2.superBlockHolder.keys) : Held cfg st.2 s := by
  rw [← h.isHeld_iff, isHeld]
  obtain ⟨holders, hh⟩ := exists_of_mem_keys hs
  have hne : holders ≠ ∅ := fun he => h.holder_ne s (he ▸ hh)
  simp [hh, hne]

theorem Core.ref_pos_not_held (hp : 0 < st.1.refCnt p) :
    ¬ Held cfg st.2 (cfg.superBlockOfPage p) := fun hh => by
  have := (h.held_pages p hh).1
  omega

theorem Core.hash_not_held (hp : st.1.hash p ≠ none) :
    ¬ Held cfg st.2 (cfg.superBlockOfPage p) := fun hh => hp (h.held_pages p hh).2

theorem Core.lru_free (hp : p ∈ st.2.prefixLru.keys) :
    p ∈ st.1.free := ((h.lru p).mp hp).1

/-- A step of the pool and the recency list: the layers do not change, and pages under experts stay
free and uncached. -/
theorem Core.update_pool {p' : BlockPool K} (hlayer : m'.layer = st.2.layer)
    (hholder : m'.superBlockHolder = st.2.superBlockHolder) (hp : p'.Inv)
    (hn : p'.numGpuBlocks = st.1.numGpuBlocks)
    (hpages : ∀ p, Held cfg st.2 (cfg.superBlockOfPage p) → p'.refCnt p = 0 ∧ p'.hash p = none)
    (hlru : ∀ p, p ∈ m'.prefixLru.keys ↔ p ∈ p'.free ∧ p'.hash p ≠ none) : Core cfg (p', m') := by
  have hmaps : ∀ l s, m'.Maps l s ↔ st.2.Maps l s := fun l s => by simp [Maps, hlayer]
  have hheld : ∀ s, Held cfg m' s ↔ Held cfg st.2 s := fun s => by simp [Held, hmaps]
  refine ⟨hp, by rw [h.supers, hn], ?_, ?_, ?_, fun s hs => h.held_range s ((hheld s).mp hs),
    fun p hh => hpages p ((hheld _).mp hh), hlru⟩
  · intro l hl
    simpa only [hlayer] using h.layer l hl
  · intro s l
    simpa only [hholder, hmaps] using h.holder s l
  · intro s
    simpa only [hholder] using h.holder_ne s

end

theorem Pinned.congr (h : Pinned cfg m) (hlayer : m'.layer = m.layer) : Pinned cfg m' := by
  intro l hl s hs
  simp only [hlayer] at hs
  simpa only [Maps, hlayer] using h l hl s hs

section
variable (h : Inv cfg ex out st)
include h

theorem Inv.buffer {buf : Nat → Nat → UInt8} {faults : List Bool}
    (hb : ∀ l o, buf l o ≠ st.2.poolBuffer l o →
      st.1.hash (o / cfg.pageSizeBytes) = none ∧
        (l ∈ cfg.layerIds → st.2.Maps l (o / cfg.expertSlotBytes) →
          ex l (o / cfg.expertSlotBytes))) :
    Inv cfg ex out (st.1, { st.2 with poolBuffer := buf, copyFaults := faults }) := by
  refine ⟨h.core.update_pool rfl rfl h.core.pool rfl h.core.held_pages h.core.lru,
    h.pinned.congr rfl, ⟨fun l hl s e he hex o ho => ?_, fun p hp l hl o ho => ?_⟩, h.complete⟩
  · by_cases hc : buf l o = st.2.poolBuffer l o
    · exact hc.trans (h.content.experts l hl s e he hex o ho)
    · exact absurd ((hb l o hc).2 hl (maps_iff.mpr ⟨e, ho ▸ he⟩)) (ho ▸ hex)
  · by_cases hc : buf l o = st.2.poolBuffer l o
    · exact hc.trans (h.content.kv p hp l hl o ho)
    · exact absurd (ho ▸ (hb l o hc).1) hp

theorem Inv.mono {ex' : Nat → Nat → Prop} (hex : ∀ l s, ex l s → ex' l s) : Inv cfg ex' out st :=
  ⟨h.core, h.pinned, ⟨fun l hl s e he hn => h.content.experts l hl s e he fun hx =>
    hn (hex l s hx), h.content.kv⟩, h.complete⟩

theorem Inv.mono_out {out' : Nat → Prop} (hout : ∀ b, out b → out' b) : Inv cfg ex out' st :=
  ⟨h.core, h.pinned, h.content, fun b hb h0 hr hn => h.complete b hb h0 hr fun ho =>
    hn (hout b ho)⟩

theorem Inv.update_pool {p' : BlockPool K} {L : Dict Nat Nat}
    (hp : p'.Inv) (hn : p'.numGpuBlocks = st.1.numGpuBlocks)
    (hpages : ∀ p, Held cfg st.2 (cfg.superBlockOfPage p) →
      p'.refCnt p = 0 ∧ p'.hash p = none) (hlru : ∀ p, p ∈ L.keys ↔ p ∈ p'.free ∧ p'.hash p ≠ none)
    (hhash : ∀ p, p'.hash p ≠ none → st.1.hash p ≠ none) {out' : Nat → Prop}
    (hout : QueueComplete out' p') : Inv cfg ex out' (p', { st.2 with prefixLru := L }) :=
  ⟨h.core.update_pool rfl rfl hp hn hpages hlru, h.pinned.congr rfl,
    ⟨h.content.experts, fun p hp' => h.content.kv p (hhash p hp')⟩, hout⟩

theorem Inv.evict {key : K} (hb : st.1.hash b = some key) :
    Inv cfg ex out (st.1.unpublish b key, onPrefixRemoved b st.2) := by
  have hhash : ∀ p, (st.1.unpublish b key).hash p = if p = b then none else st.1.hash p := by
    simp [unpublish]
  refine h.update_pool (h.core.pool.unpublish hb) rfl (fun p hp => ?_) (fun p => ?_)
    (fun p hp => ?_) (by simpa [QueueComplete, unpublish] using h.complete)
  · have := h.core.held_pages p hp
    refine ⟨by simpa [unpublish] using this.1, ?_⟩
    rw [hhash, this.2, ite_self]
  · rw [mem_keys_erase, h.core.lru, hhash]
    change _ ↔ p ∈ st.1.free ∧ _
    by_cases hpb : p = b <;> simp [hpb]
  · rw [hhash] at hp
    by_cases hpb : p = b
    · simp [hpb] at hp
    · simpa [hpb] using hp

theorem Inv.dequeue (hb : b ∈ st.1.free) {L : Dict Nat Nat}
    (hlru : ∀ p, p ∈ L.keys ↔ p ≠ b ∧ p ∈ st.2.prefixLru.keys) :
    Inv cfg ex (fun c => out c ∨ c = b)
      (st.1.setFree (st.1.free.erase b) (st.1.getNumFreeBlocks - 1),
        { st.2 with prefixLru := L }) := by
  have hmem : ∀ p, p ∈ st.1.free.erase b ↔ p ≠ b ∧ p ∈ st.1.free := fun p =>
    h.core.pool.free_nodup.mem_erase_iff
  refine h.update_pool (h.core.pool.removeFree hb) rfl h.core.held_pages (fun p => ?_)
    (fun p hp => hp) fun c hc h0 hr hn => ?_
  · rw [hlru, h.core.lru, free_setFree, hmem, and_assoc]
    rfl
  · rw [not_or] at hn
    exact (hmem c).mpr ⟨hn.2, h.complete c hc h0 hr hn.1⟩

theorem Inv.setRefCnt {n : Int} (hb : b ∉ st.1.free)
    (hheld : ¬ Held cfg st.2 (cfg.superBlockOfPage b)) (hn : b ≠ 0 → 0 < n) :
    Inv cfg ex (fun c => out c ∧ c ≠ b) (st.1.setRefCnt b n, st.2) := by
  refine h.update_pool (L := st.2.prefixLru)
    (h.core.pool.setRefCnt hb fun h0 => (hn h0).le) rfl
    (fun p hp => ?_) (by simpa using h.core.lru) (by simp) fun c hc h0 hr hout => ?_
  · have hpb : p ≠ b := fun e => hheld (e ▸ hp)
    simpa [hpb] using h.core.held_pages p hp
  · by_cases hcb : c = b
    · simp only [refCnt_setRefCnt, hcb] at hr
      exact absurd hr (hn (hcb ▸ h0)).ne'
    · exact h.complete c hc h0 (by simpa [hcb] using hr) fun ho => hout ⟨ho, hcb⟩

theorem Inv.relocate {src dst : Nat} {key : K}
    (hsrc : st.1.hash src = some key) (hdst : st.1.hash dst = none) (hfree : dst ∈ st.1.free)
    (hheld : ¬ Held cfg st.2 (cfg.superBlockOfPage dst))
    (hcopy : ∀ l ∈ cfg.kvLayers, ∀ o, o / cfg.pageSizeBytes = dst → st.2.poolBuffer l o =
      st.2.poolBuffer l (src * cfg.pageSizeBytes + o % cfg.pageSizeBytes)) :
    Inv cfg ex out ((st.1.unpublish src key).publish dst key, { st.2 with
        prefixLru := st.2.prefixLru.rename src dst st.2.step
        kvOf := Function.update st.2.kvOf dst (st.2.kvOf src) }) := by
  have hne : src ≠ dst := by
    rintro rfl
    simp [hsrc] at hdst
  have hhash : ∀ p, ((st.1.unpublish src key).publish dst key).hash p =
      if p = dst then some key else if p = src then none else st.1.hash p := by
    simp [unpublish, publish]
  have href : ∀ p, ((st.1.unpublish src key).publish dst key).refCnt p = st.1.refCnt p := by
    simp [unpublish, publish]
  have hspec := h.core.pool.free_spec dst hfree
  have hunp : (st.1.unpublish src key).hash dst = none := by
    simp [unpublish, hdst]
  refine ⟨h.core.update_pool rfl rfl ((h.core.pool.unpublish hsrc).publish hunp hspec.1
    hspec.2.2) rfl (fun p hp => ?_) (fun p => ?_), h.pinned.congr rfl, ⟨h.content.experts,
    fun p hp l hl o ho => ?_⟩,
    by simpa [QueueComplete, unpublish, publish] using h.complete⟩
  · have hpages := h.core.held_pages p hp
    have hpd : p ≠ dst := fun e => hheld (e ▸ hp)
    rw [href, hhash, if_neg hpd, hpages.2, ite_self]
    exact ⟨hpages.1, rfl⟩
  · rw [mem_keys_rename, h.core.lru, hhash]
    change _ ↔ p ∈ st.1.free ∧ _
    by_cases hpd : p = dst
    · simp [hpd, hfree]
    · by_cases hps : p = src <;> simp [hpd, hps, hne]
  · by_cases hpd : p = dst
    · subst hpd
      obtain ⟨hdiv, hmod⟩ := mul_add_div_mod (q := src) (Nat.mod_lt o cfg.page_pos)
      have hkv := h.content.kv src (by simp [hsrc]) l hl _ hdiv
      simpa using (hcopy l hl o ho).trans hkv
    · have hp' : st.1.hash p ≠ none := by
        rw [hhash, if_neg hpd] at hp
        by_cases hps : p = src
        · simp [hps] at hp
        · simpa [hps] using hp
      simpa [hpd] using h.content.kv p hp' l hl o ho

end

/-! ## Dropping and claiming -/

theorem layer_modifyLayer (m : UnifiedPoolManager) (l l' : Nat) (f : UnifiedPool → UnifiedPool) :
    (m.modifyLayer l f).layer l' = if l' = l then f (m.layer l) else m.layer l' := by
  by_cases hl : l' = l <;> simp [modifyLayer, hl]

theorem Core.shrink (h : Core cfg st) (hlru : m'.prefixLru = st.2.prefixLru)
    (hinv : ∀ l ∈ cfg.layerIds, (m'.layer l).Inv)
    (hsub : ∀ l ∈ cfg.layerIds, ∀ s, m'.Maps l s → st.2.Maps l s)
    (hholder : ∀ s l, l ∈ (m'.superBlockHolder.get? s).getD ∅ ↔ l ∈ cfg.layerIds ∧ m'.Maps l s)
    (hne : ∀ s, m'.superBlockHolder.get? s ≠ some ∅) : Core cfg (st.1, m') := by
  have hheld : ∀ s, Held cfg m' s → Held cfg st.2 s := fun s ⟨l, hl, hm⟩ =>
    ⟨l, hl, hsub l hl s hm⟩
  exact ⟨h.pool, h.supers, hinv, hholder, hne, fun s hs => h.held_range s (hheld s hs),
    fun p hp => h.held_pages p (hheld _ hp), fun p => by rw [hlru]; exact h.lru p⟩

theorem layer_dropLayerMapping (m : UnifiedPoolManager) (l l' s : Nat) :
    (m.dropLayerMapping l s).layer l' = if l' = l then (m.layer l).drop s else m.layer l' := by
  unfold dropLayerMapping
  split
  · next hs =>
    by_cases hl : l' = l <;> simp [hl, UnifiedPool.drop, hs]
  · rw [← layer_modifyLayer m l l' fun u => u.drop s]
    unfold removeHolder
    split
    · rfl
    · split <;> rfl

/-- `f` changes only the layers and the holder map, and does not look at the recency list. -/
def Relayers (f : UnifiedPoolManager → UnifiedPoolManager) (m : UnifiedPoolManager) : Prop :=
  ∃ layer superBlockHolder, ∀ prefixLru,
    f { m with prefixLru } = { m with layer, superBlockHolder, prefixLru }

theorem Relayers.eq {f : UnifiedPoolManager → UnifiedPoolManager} (h : Relayers f m) :
    ∃ layer superBlockHolder, f m = { m with layer, superBlockHolder } := by
  obtain ⟨layer, holder, hf⟩ := h
  exact ⟨layer, holder, hf m.prefixLru⟩

section
variable (m : UnifiedPoolManager)

theorem relayers_dropLayerMapping (l s : Nat) : Relayers (fun m => m.dropLayerMapping l s) m := by
  simp only [Relayers, dropLayerMapping]
  cases hs : (m.layer l).expertAtSuperBlock.get? s with
  | none => exact ⟨m.layer, m.superBlockHolder, fun _ => rfl⟩
  | some e =>
    simp only [removeHolder, modifyLayer]
    cases hh : m.superBlockHolder.get? s with
    | none => exact ⟨_, m.superBlockHolder, fun _ => rfl⟩
    | some holders =>
      by_cases he : holders.erase l = ∅
      · exact ⟨_, m.superBlockHolder.erase s, fun _ => if_pos he⟩
      · exact ⟨_, m.superBlockHolder.set s (holders.erase l), fun _ => if_neg he⟩

theorem maps_dropLayerMapping (l l' s s' : Nat) :
    (m.dropLayerMapping l s).Maps l' s' ↔ m.Maps l' s' ∧ ¬(l' = l ∧ s' = s) := by
  rw [maps_iff, maps_iff, layer_dropLayerMapping]
  by_cases hl : l' = l
  · subst hl
    by_cases hs : s' = s <;> simp [get?_drop, hs]
  · simp [hl]

theorem get?_removeHolder (l s s' : Nat) :
    (m.removeHolder l s).superBlockHolder.get? s' =
      if s' = s then
        match m.superBlockHolder.get? s with
        | none => none
        | some holders => if holders.erase l = ∅ then none else some (holders.erase l)
      else m.superBlockHolder.get? s' := by
  unfold removeHolder
  by_cases hs : s' = s
  · subst hs
    split
    · next h => simp [h]
    · next holders h =>
      by_cases he : holders.erase l = ∅ <;> simp [he, h]
  · split
    · simp [hs]
    · next holders h =>
      by_cases he : holders.erase l = ∅ <;> simp [he, hs, get?_erase, get?_set]

end

theorem Core.dropLayerMapping (h : Core cfg st) (hl : l ∈ cfg.layerIds) (s : Nat) :
    Core cfg (st.1, st.2.dropLayerMapping l s) := by
  rcases hs : (st.2.layer l).expertAtSuperBlock.get? s with _ | e
  · have : st.2.dropLayerMapping l s = st.2 := by simp [UnifiedPoolManager.dropLayerMapping, hs]
    rw [this]
    exact h
  have hholder : ∀ s', (st.2.dropLayerMapping l s).superBlockHolder.get? s' =
      (st.2.removeHolder l s).superBlockHolder.get? s' := by
    intro s'
    simp only [UnifiedPoolManager.dropLayerMapping, hs, get?_removeHolder]
    rfl
  have hlru : (st.2.dropLayerMapping l s).prefixLru = st.2.prefixLru := by
    obtain ⟨_, _, hm⟩ := (relayers_dropLayerMapping st.2 l s).eq
    rw [hm]
  refine h.shrink hlru (fun l' hl' => ?_)
    (fun l' _ s' hm => ((maps_dropLayerMapping st.2 l l' s s').mp hm).1) (fun s' l' => ?_)
    fun s' => ?_
  · rw [layer_dropLayerMapping]
    split
    · exact (h.layer l hl).drop s
    · exact h.layer l' hl'
  · have hold := h.holder s' l'
    rw [hholder, maps_dropLayerMapping, get?_removeHolder]
    by_cases hss : s' = s
    · subst hss
      rw [if_pos rfl]
      rcases hg : st.2.superBlockHolder.get? s' with _ | holders
      · simp only [hg, Option.getD_none, Finset.notMem_empty, false_iff, not_and] at hold ⊢
        exact fun hl' hm => absurd hm (hold hl')
      · simp only [hg, Option.getD_some] at hold
        have hmem : l' ∈ (if holders.erase l = ∅ then none else
            some (holders.erase l) : Option (Finset Nat)).getD ∅ ↔ l' ∈ holders.erase l := by
          by_cases he : holders.erase l = ∅ <;> simp [he]
        rw [hmem, Finset.mem_erase]
        tauto
    · rw [if_neg hss]
      tauto
  · rw [hholder, get?_removeHolder]
    split
    · split
      · simp
      · split
        · simp
        · next he => simpa using he
    · exact h.holder_ne s'

theorem Inv.dropLayerMapping (hcore : Core cfg st) (hl : l ∈ cfg.layerIds)
    (hcontent : Content cfg (fun l' s' => ex l' s' ∨ l' = l ∧ s' = s) st) :
    Core cfg (st.1, st.2.dropLayerMapping l s) ∧
      Content cfg ex (st.1, st.2.dropLayerMapping l s) := by
  obtain ⟨hbuf, hkv⟩ : (st.2.dropLayerMapping l s).poolBuffer = st.2.poolBuffer ∧
      (st.2.dropLayerMapping l s).kvOf = st.2.kvOf := by
    obtain ⟨_, _, hm⟩ := (relayers_dropLayerMapping st.2 l s).eq
    rw [hm]
    exact ⟨rfl, rfl⟩
  refine ⟨hcore.dropLayerMapping hl s, fun l' hl' s' e he hex o ho => ?_, fun p hp l' hl' o ho => ?_⟩
  · have hm := (maps_dropLayerMapping st.2 l l' s s').mp (maps_iff.mpr ⟨e, he⟩)
    have he' : (st.2.layer l').expertAtSuperBlock.get? s' = some e := by
      simp only [layer_dropLayerMapping] at he
      split at he
      · next hll =>
        subst hll
        rw [get?_drop] at he
        split at he
        · cases he
        · exact he
      · exact he
    simp only [hbuf]
    exact hcontent.experts l' hl' s' e he' (fun hc => hc.elim hex hm.2) o ho
  · simp only [hbuf, hkv]
    exact hcontent.kv p hp l' hl' o ho

/-- `m'` is `m` after every layer of `done` dropped super-block `s` and the holders of `s` are
forgotten. -/
structure Dropped (m m' : UnifiedPoolManager) (s : Nat) (done : List Nat) : Prop where
  layer : ∀ l, m'.layer l = if l ∈ done then (m.layer l).drop s else m.layer l
  holder : m'.superBlockHolder = m.superBlockHolder.erase s
  lru : m'.prefixLru = m.prefixLru
  step : m'.step = m.step
  buffer : m'.poolBuffer = m.poolBuffer
  kvOf : m'.kvOf = m.kvOf

theorem broadcast_spec (hpin : ∀ l ∈ cfg.layerIds, s ∉ (m.layer l).pinnedSuperBlocks) :
    Triple (fun m₀ => m₀ = m) (broadcastDropAllLayers cfg s)
      (fun _ m' => Dropped m m' s
        (cfg.layerIds.filter fun l => l ∈ (m.superBlockHolder.get? s).getD ∅))
      (fun _ _ => False) := by
  set holders := cfg.layerIds.filter fun l => l ∈ (m.superBlockHolder.get? s).getD ∅ with hh
  refine bind (Q := fun m₁ m' => m₁ = m ∧ m' = m) (get fun _ h => ⟨h, h⟩)
    fun m₁ => and_left fun hm₁ => ?_
  subst hm₁
  refine bind (Q := fun _ m' => Dropped m₁ m' s []) (modify ?_) fun _ => ?_
  · rintro _ rfl
    exact ⟨by simp, rfl, rfl, rfl, rfl, rfl⟩
  refine (forEach (I := fun done _ m' => Dropped m₁ m' s done) [] holders
    fun pre l post he => ?_).mapError (fun _ _ h => h)
  have hlnd : (pre ++ l :: post).Nodup := by
    rw [← he]
    exact cfg.layers_nodup.filter _
  have hl : l ∈ cfg.layerIds := by
    have : l ∈ holders := by rw [← nil_append holders, he]; simp
    exact (mem_filter.mp this).1
  have hpre : l ∉ pre := fun hc =>
    (nodup_append.mp hlnd).2.2 l hc l (by simp) rfl
  refine bind (Q := fun m₂ m' => m₂ = m' ∧ Dropped m₁ m' s pre)
    (get fun _ h => ⟨rfl, h⟩) fun m₂ => ?_
  refine bind (Q := fun _ m' => Dropped m₁ m' s pre) (check ?_ ?_) fun _ => ?_
  · exact fun _ h _ => h.2
  · rintro m' ⟨rfl, hd⟩ hc
    have : s ∈ (m₂.layer l).pinnedSuperBlocks := by simpa using hc
    rw [hd.layer, if_neg hpre] at this
    exact hpin l hl this
  · refine modify fun m' hd => ⟨fun l' => ?_, hd.holder, hd.lru, hd.step, hd.buffer, hd.kvOf⟩
    rw [layer_modifyLayer]
    by_cases hll : l' = l
    · subst hll
      simp [hd.layer, hpre]
    · simp [hd.layer, hll]

theorem Core.mem_holders (h : Core cfg st) (hl : l ∈ cfg.layerIds) :
    l ∈ (cfg.layerIds.filter fun l => l ∈ (st.2.superBlockHolder.get? s).getD ∅) ↔
      st.2.Maps l s := by
  rw [mem_filter, decide_eq_true_eq, h.holder]
  tauto

theorem Inv.dropped (h : Inv cfg ex out st)
    (hpin : ∀ l ∈ cfg.layerIds, s ∉ (st.2.layer l).pinnedSuperBlocks)
    (hd : Dropped st.2 m' s (cfg.layerIds.filter fun l => l ∈ (st.2.superBlockHolder.get? s).getD ∅))
    :
    Inv cfg ex out (st.1, m') ∧ (∀ s', Held cfg m' s' ↔ Held cfg st.2 s' ∧ s' ≠ s) := by
  have hlayer : ∀ l ∈ cfg.layerIds, m'.layer l = (st.2.layer l).drop s := by
    intro l hl
    rw [hd.layer]
    split
    · rfl
    · next hn =>
      rw [h.core.mem_holders hl, maps_iff, not_exists] at hn
      have : (st.2.layer l).expertAtSuperBlock.get? s = none :=
        Option.eq_none_iff_forall_ne_some.mpr hn
      simp [UnifiedPool.drop, this]
  have hmaps : ∀ l ∈ cfg.layerIds, ∀ s', m'.Maps l s' ↔ st.2.Maps l s' ∧ s' ≠ s := by
    intro l hl s'
    rw [maps_iff, maps_iff, hlayer l hl]
    by_cases hs : s' = s <;> simp [get?_drop, hs]
  have hcore : Core cfg (st.1, m') := by
    refine h.core.shrink hd.lru (fun l hl => hlayer l hl ▸ (h.core.layer l hl).drop s)
      (fun l hl s' hm => ((hmaps l hl s').mp hm).1) (fun s' l => ?_) fun s' => ?_
    · rw [hd.holder, get?_erase]
      by_cases hs : s' = s
      · simp only [hs, if_true, Option.getD_none, Finset.notMem_empty, false_iff, not_and]
        exact fun hl hm => ((hmaps l hl s).mp hm).2 rfl
      · rw [if_neg hs, h.core.holder]
        exact and_congr_right fun hl => by rw [hmaps l hl]; simp [hs]
    · rw [hd.holder, get?_erase]
      split
      · simp
      · exact h.core.holder_ne s'
  refine ⟨⟨hcore, fun l hl s' hs' => ?_, ⟨fun l hl s' e he hex o ho => ?_,
    fun p hp l hl o ho => ?_⟩, h.complete⟩, fun s' => ?_⟩
  · simp only [hlayer l hl, pinned_drop] at hs'
    exact (hmaps l hl s').mpr ⟨h.pinned l hl s' hs', fun hc => hpin l hl (hc ▸ hs')⟩
  · simp only [hlayer l hl, get?_drop] at he
    split at he
    · cases he
    · simp only [hd.buffer]
      exact h.content.experts l hl s' e he hex o ho
  · simp only [hd.buffer, hd.kvOf]
    exact h.content.kv p hp l hl o ho
  · simp only [Held]
    constructor
    · rintro ⟨l, hl, hm⟩
      exact ⟨⟨l, hl, ((hmaps l hl s').mp hm).1⟩, ((hmaps l hl s').mp hm).2⟩
    · rintro ⟨⟨l, hl, hm⟩, hne⟩
      exact ⟨l, hl, (hmaps l hl s').mpr ⟨hm, hne⟩⟩

structure Claimable (cfg : PoolConfig) (st : UnifiedState K) (l s : Nat) : Prop where
  pos : 1 ≤ s
  lt : s < cfg.numSuperBlocks
  slot : (st.2.layer l).expertAtSuperBlock.get? s = none
  pages : ∀ p, cfg.superBlockOfPage p = s → st.1.refCnt p = 0 ∧ st.1.hash p = none

def claimed (m : UnifiedPoolManager) (l s e : Nat) : UnifiedPoolManager :=
  (m.modifyLayer l fun u => u.assigned s e m.step).addHolder l s

section
variable (m : UnifiedPoolManager)

theorem layer_claimed (l l' s e : Nat) :
    (claimed m l s e).layer l' = if l' = l then (m.layer l).assigned s e m.step else m.layer l' :=
  layer_modifyLayer m l l' fun u => u.assigned s e m.step

theorem get?_claimed (l l' s s' e : Nat) :
    ((claimed m l s e).layer l').expertAtSuperBlock.get? s' =
      if l' = l ∧ s' = s then some e else (m.layer l').expertAtSuperBlock.get? s' := by
  rw [layer_claimed]
  by_cases hl : l' = l
  · subst hl
    by_cases hs : s' = s <;> simp [UnifiedPool.assigned, get?_set, hs]
  · simp [hl]

theorem maps_claimed (l l' s s' e : Nat) :
    (claimed m l s e).Maps l' s' ↔ m.Maps l' s' ∨ l' = l ∧ s' = s := by
  rw [maps_iff, maps_iff]
  simp only [get?_claimed]
  by_cases h : l' = l ∧ s' = s <;> simp [h]

end

theorem Core.claim (h : Core cfg st) {e : Nat} (hl : l ∈ cfg.layerIds) (hc : Claimable cfg st l s)
    (he : (st.2.layer l).superBlockAtExpert.get? e = none) :
    Core cfg (st.1, claimed st.2 l s e) := by
  have hheld : ∀ s', Held cfg (claimed st.2 l s e) s' → Held cfg st.2 s' ∨ s' = s := by
    rintro s' ⟨l', hl', hm⟩
    rcases (maps_claimed st.2 l l' s s' e).mp hm with hm | hm
    · exact .inl ⟨l', hl', hm⟩
    · exact .inr hm.2
  refine ⟨h.pool, h.supers, fun l' hl' => ?_, fun s' l' => ?_, fun s' => ?_, fun s' hs' => ?_,
    fun p hp => ?_, h.lru⟩
  · rw [layer_claimed]
    split
    · exact (h.layer l hl).assigned hc.slot he
    · exact h.layer l' hl'
  · have hold := h.holder s' l'
    change l' ∈ ((st.2.superBlockHolder.set s _).get? s').getD ∅ ↔ _
    rw [maps_claimed, get?_set]
    by_cases hs : s' = s
    · subst hs
      simp only [if_true, Option.getD_some, Finset.mem_insert]
      rw [show (st.2.modifyLayer l _).superBlockHolder = st.2.superBlockHolder from rfl, hold]
      constructor
      · rintro (rfl | hm)
        · exact ⟨hl, .inr ⟨rfl, trivial⟩⟩
        · exact ⟨hm.1, .inl hm.2⟩
      · rintro ⟨hl', hm | hm⟩
        · exact .inr ⟨hl', hm⟩
        · exact .inl hm.1
    · simpa [hs] using hold
  · change (st.2.superBlockHolder.set s _).get? s' ≠ _
    rw [get?_set]
    split
    · simp
    · exact h.holder_ne s'
  · rcases hheld s' hs' with hs' | rfl
    · exact h.held_range s' hs'
    · exact ⟨hc.pos, hc.lt⟩
  · rcases hheld _ hp with hp | hp
    · exact h.held_pages p hp
    · exact hc.pages p hp

theorem Inv.claim (h : Inv cfg ex out st) {e : Nat} (hl : l ∈ cfg.layerIds)
    (hc : Claimable cfg st l s) (he : (st.2.layer l).superBlockAtExpert.get? e = none) :
    Inv cfg (fun l' s' => ex l' s' ∨ l' = l ∧ s' = s) out (st.1, claimed st.2 l s e) := by
  refine ⟨h.core.claim hl hc he, fun l' hl' s' hs' => ?_,
    ⟨fun l' hl' s' e' he' hex o ho => ?_, h.content.kv⟩, h.complete⟩
  · rw [layer_claimed] at hs'
    refine (maps_claimed st.2 l l' s s' e).mpr (.inl (h.pinned l' hl' s' ?_))
    split at hs'
    · next hll => exact hll ▸ hs'
    · exact hs'
  · rw [get?_claimed, if_neg fun hls => hex (.inr hls)] at he'
    exact h.content.experts l' hl' s' e' he' (fun hx => hex (.inl hx)) o ho

section
variable {l : Nat} {f : UnifiedPool → UnifiedPool}

theorem expertAt_retag {m : UnifiedPoolManager}
    (hexp : (f (m.layer l)).expertAtSuperBlock = (m.layer l).expertAtSuperBlock) (l' : Nat) :
    ((m.modifyLayer l f).layer l').expertAtSuperBlock = (m.layer l').expertAtSuperBlock := by
  rw [layer_modifyLayer]
  split
  · next hl => rw [hexp, hl]
  · rfl

theorem maps_retag {m : UnifiedPoolManager}
    (hexp : (f (m.layer l)).expertAtSuperBlock = (m.layer l).expertAtSuperBlock) (l' s : Nat) :
    (m.modifyLayer l f).Maps l' s ↔ m.Maps l' s := by
  rw [Maps, expertAt_retag hexp]
  rfl

theorem Core.retag (h : Core cfg st) (hinv : (st.2.layer l).Inv → (f (st.2.layer l)).Inv)
    (hexp : (f (st.2.layer l)).expertAtSuperBlock = (st.2.layer l).expertAtSuperBlock) :
    Core cfg (st.1, st.2.modifyLayer l f) := by
  have hheld : ∀ s, Held cfg (st.2.modifyLayer l f) s ↔ Held cfg st.2 s := fun s => by
    simp [Held, maps_retag hexp]
  refine ⟨h.pool, h.supers, fun l' hl' => ?_, fun s l' => ?_, h.holder_ne,
    fun s hs => h.held_range s ((hheld s).mp hs),
    fun p hp => h.held_pages p ((hheld _).mp hp), h.lru⟩
  · rw [layer_modifyLayer]
    split
    · next hll => exact hinv (hll ▸ h.layer l' hl')
    · exact h.layer l' hl'
  · rw [maps_retag hexp]
    exact h.holder s l'

omit [DecidableEq K] in
theorem Content.retag (h : Content cfg ex st)
    (hexp : (f (st.2.layer l)).expertAtSuperBlock = (st.2.layer l).expertAtSuperBlock) :
    Content cfg ex (st.1, st.2.modifyLayer l f) := by
  refine ⟨fun l' hl' s e he => ?_, h.kv⟩
  rw [expertAt_retag hexp] at he
  exact h.experts l' hl' s e he

theorem Inv.retag (h : Inv cfg ex out st) (hinv : (st.2.layer l).Inv → (f (st.2.layer l)).Inv)
    (hexp : (f (st.2.layer l)).expertAtSuperBlock = (st.2.layer l).expertAtSuperBlock)
    (hpin : ∀ s ∈ (f (st.2.layer l)).pinnedSuperBlocks, st.2.Maps l s) :
    Inv cfg ex out (st.1, st.2.modifyLayer l f) := by
  refine ⟨h.core.retag hinv hexp, fun l' hl' s hs => ?_, h.content.retag hexp, h.complete⟩
  rw [layer_modifyLayer] at hs
  refine (maps_retag hexp l' s).mpr ?_
  split at hs
  · next hll => exact hll ▸ hpin s hs
  · exact h.pinned l' hl' s hs

end
end Unified
end Vllm
