import Vllm.Base.Run
import Vllm.Core.KVCacheManager
import Vllm.Core.PoolEffects

/-! Who owns a block. The calls of the KV cache manager are made of a few moves: a request enters an
empty list, gives up blocks, adopts cached blocks, gets new ones, releases all of them; a block gets
a hash or loses it. Every move keeps the counts, the lists, the free queue and the hash map in
step. -/

namespace Vllm
open Base BlockPool Dict List
variable {D : Type}

/-! ## Tables -/

def Tables.drop (t : Tables D) (g : Nat) (id : String) : Tables D :=
  { t with
    reqToBlocks := t.reqToBlocks.erase (g, id)
    numCachedBlock := t.numCachedBlock.erase (g, id) }

namespace Tables
variable (t : Tables D) (g : Nat) (id : String)

def occurrences (b : Nat) : Nat := t.reqToBlocks.sum (·.count b)

theorem elim_count (b : Nat) :
    (t.reqToBlocks.get? (g, id)).elim 0 (·.count b) = (t.blocks g id).count b := by
  unfold blocks
  cases t.reqToBlocks.get? (g, id) <;> rfl

theorem count_le_occurrences (b : Nat) : (t.blocks g id).count b ≤ t.occurrences b := by
  rw [← elim_count]
  rcases h : t.reqToBlocks.get? (g, id) with _ | l
  · exact Nat.zero_le _
  · exact le_sum h (·.count b)

end Tables

structure Replaced (t t' : Tables D) (g : Nat) (id : String) (l : List Nat) : Prop where
  blocks : ∀ g' id', t'.blocks g' id' = if (g', id') = (g, id) then l else t.blocks g' id'
  occurrences : ∀ b, t'.occurrences b + (t.blocks g id).count b = t.occurrences b + l.count b

section
variable (t : Tables D) (g : Nat) (id : String) (l : List Nat)

theorem replaced_setBlocks : Replaced t (t.setBlocks g id l) g id l where
  blocks g' id' := by
    simp only [Tables.blocks, Tables.setBlocks, get?_set]
    split <;> rfl
  occurrences b := by
    rw [← t.elim_count]
    exact sum_set t.reqToBlocks (·.count b) (g, id) l

theorem replaced_drop : Replaced t (t.drop g id) g id [] where
  blocks g' id' := by
    simp only [Tables.blocks, Tables.drop, get?_erase]
    split <;> rfl
  occurrences b := by
    rw [← t.elim_count]
    exact sum_erase t.reqToBlocks (·.count b) (g, id)

theorem Replaced.setNumCached {t t' : Tables D} {g : Nat} {id : String} {l : List Nat}
    (h : Replaced t t' g id l) (n : Nat) : Replaced t (t'.setNumCached g id n) g id l :=
  ⟨h.blocks, h.occurrences⟩

end

/-! ## The moves -/

inductive KVMove (D : Type) where
  | enter (g : Nat) (id : String)
  | shrink (g : Nat) (id : String) (lo hi : Nat)
  | adopt (g : Nat) (id : String) (skipped : Nat) (hits : List Nat)
  | grow (g : Nat) (id : String) (n : Nat)
  | release (g : Nat) (id : String)
  | publish (g : Nat) (id : String) (i : Nat) (key : BlockKey D)
  | setCached (g : Nat) (id : String) (n : Nat)
  | evict (b : Nat)
  | reset
  | mark (marks : List (Nat × BlockKey D))

def nulled (l : List Nat) (lo hi : Nat) : List Nat :=
  l.take lo ++ List.replicate (hi - lo) 0 ++ l.drop hi

def removed (l : List Nat) (lo hi : Nat) : List Nat := ((l.take hi).drop lo).reverse

theorem mem_nulled {l : List Nat} {lo hi b : Nat} (h : b ∈ nulled l lo hi) : b = 0 ∨ b ∈ l := by
  simp only [nulled, mem_append, mem_replicate] at h
  rcases h with (h | h) | h
  · exact .inr (mem_of_mem_take h)
  · exact .inl h.2
  · exact .inr (mem_of_mem_drop h)

theorem count_nulled (l : List Nat) {lo hi b : Nat} (hle : lo ≤ hi) (h0 : b ≠ 0) :
    (nulled l lo hi).count b + (removed l lo hi).count b = l.count b := by
  have hsplit : l.take lo ++ (l.take hi).drop lo ++ l.drop hi = l := by
    have htake : (l.take hi).take lo = l.take lo := by rw [take_take, Nat.min_eq_left hle]
    rw [← htake, take_append_drop, take_append_drop]
  have hzero : (List.replicate (hi - lo) 0).count b = 0 :=
    count_eq_zero.mpr fun hm => h0 (eq_of_mem_replicate hm)
  have hl := congrArg (List.count b) hsplit
  simp only [nulled, removed, count_append, count_reverse] at hl ⊢
  omega

section
variable [DecidableEq D]

def KVMove.next : KVMove D → KVState D → KVState D
  | enter g id, (p, t) => (p, t.setBlocks g id (t.blocks g id))
  | shrink g id lo hi, (p, t) =>
    (p.freed (removed (t.blocks g id) lo hi), t.setBlocks g id (nulled (t.blocks g id) lo hi))
  | adopt g id skipped hits, (p, t) =>
    (p.touched hits, (t.setBlocks g id (List.replicate skipped 0 ++ hits)).setNumCached g id
      (skipped + hits.length))
  | grow g id n, (p, t) => (p.handedOut n, t.setBlocks g id (t.blocks g id ++ p.free.take n))
  | release g id, (p, t) => (p.freed (t.blocks g id).reverse, t.drop g id)
  | publish g id i key, (p, t) => (p.publish ((t.blocks g id).getD i 0) key, t)
  | setCached g id n, (p, t) => (p, t.setNumCached g id n)
  | evict b, (p, t) => (p.dropHash b, t)
  | reset, (p, t) => (p.resetHashes, t)
  | mark marks, (p, t) => (p, { t with cachedBlocksThisStep := marks })

/-- What one call works for: the request, the number of tokens before its window is moved, and how
many of its tokens may be cached. -/
structure Scope (D : Type) where
  r : Request D
  skipTokens : Nat := 0
  cacheTokens : Nat := 0

def KVMove.Ok (cfg : KVCacheConfig) (x : Scope D) : KVMove D → KVState D → Prop
  | enter _ id, _ => id = x.r.requestId
  | shrink g id lo hi, s => id = x.r.requestId ∧ lo ≤ hi ∧ hi ≤ (s.2.blocks g id).length ∧
    (∀ b ∈ removed (s.2.blocks g id) lo hi, b ≠ 0) ∧
    ∃ spec, cfg.groups[g]? = some spec ∧
      hi ≤ spec.numSkippedBlocks (x.skipTokens - spec.numSpeculativeBlocks)
  | adopt g id skipped hits, s => id = x.r.requestId ∧ s.2.blocks g id = [] ∧
    (∀ b ∈ hits, b ≠ 0 → hits.count b = 1) ∧
    ∃ spec, cfg.groups[g]? = some spec ∧ ∀ j b, hits[j]? = some b → b ≠ 0 →
      s.1.hash b = some (cfg.blockKey spec x.r.blockHashes (skipped + j), g)
  | grow _ id n, s => id = x.r.requestId ∧ n ≤ s.1.free.length
  | release _ id, _ => id = x.r.requestId
  | publish g id i key, s => id = x.r.requestId ∧ s.1.enableCaching = true ∧
    (∃ b, (s.2.blocks g id)[i]? = some b ∧ b ≠ 0 ∧ s.1.hash b = none) ∧
    ∃ spec, cfg.groups[g]? = some spec ∧ (i + 1) * spec.blockSize ≤ x.cacheTokens ∧
      i < cfg.numKeys spec x.r.blockHashes ∧ key = (cfg.blockKey spec x.r.blockHashes i, g)
  | setCached _ id _, _ => id = x.r.requestId
  | evict _, _ => True
  | reset, _ => True
  | mark _, _ => True

end

/-! ## The invariant -/

variable [DecidableEq D]

structure Owned (s : KVState D) : Prop where
  inv : s.1.Inv
  pos : 0 < s.1.numGpuBlocks
  uncached : s.1.enableCaching = false → ∀ b, s.1.hash b = none
  refs : ∀ b, b ≠ 0 → s.1.refCnt b = s.2.occurrences b
  lt : ∀ g id, ∀ b ∈ s.2.blocks g id, b < s.1.numGpuBlocks
  once : ∀ g id, ∀ b ∈ s.2.blocks g id, b ≠ 0 → (s.2.blocks g id).count b = 1
  queued : ∀ b < s.1.numGpuBlocks, b ≠ 0 → s.1.refCnt b = 0 → b ∈ s.1.free

theorem owned_init (cfg : KVCacheConfig) : Owned (cfg.init : KVState D) where
  inv := inv_new cfg.numBlocks_pos _
  pos := cfg.numBlocks_pos
  uncached := fun _ _ => rfl
  refs := fun _ _ => rfl
  lt := by simp [KVCacheConfig.init, Tables.blocks]
  once := by simp [KVCacheConfig.init, Tables.blocks]
  queued := fun b hb h0 _ => by
    simp only [KVCacheConfig.init, BlockPool.new, BlockPool.free, mem_range'_1] at hb ⊢
    omega

namespace Owned
variable {p p' : BlockPool (BlockKey D)} {t t' : Tables D} {g : Nat} {id : String} {l : List Nat}

section
variable (h : Owned (p, t))
include h

theorem refCnt_pos {b : Nat} (hb : b ∈ t.blocks g id) (h0 : b ≠ 0) : 0 < p.refCnt b := by
  have hc := t.count_le_occurrences g id b
  have h1 := h.once g id b hb h0
  have hr := h.refs b h0
  simp only at hr h1
  omega

theorem replace (ht : Replaced t t' g id l) (hinv : p'.Inv)
    (hnum : p'.numGpuBlocks = p.numGpuBlocks)
    (hunc : p'.enableCaching = false → ∀ b, p'.hash b = none)
    (href : ∀ b, b ≠ 0 → p'.refCnt b + (t.blocks g id).count b = p.refCnt b + l.count b)
    (hlt : ∀ b ∈ l, b < p.numGpuBlocks) (honce : ∀ b ∈ l, b ≠ 0 → l.count b = 1)
    (hq : ∀ b < p.numGpuBlocks, b ≠ 0 → p'.refCnt b = 0 → b ∈ p'.free) : Owned (p', t') where
  inv := hinv
  pos := hnum ▸ h.pos
  uncached := hunc
  refs b h0 := by
    have h1 := href b h0
    have h2 := ht.occurrences b
    have h3 := h.refs b h0
    simp only at h3 ⊢
    omega
  lt g' id' b hb := by
    simp only [ht.blocks] at hb
    simp only [hnum]
    split at hb
    · exact hlt b hb
    · exact h.lt g' id' b hb
  once g' id' b hb h0 := by
    simp only [ht.blocks] at hb ⊢
    split at hb
    · next heq =>
      rw [if_pos heq]
      exact honce b hb h0
    · next hne =>
      rw [if_neg hne]
      exact h.once g' id' b hb h0
  queued b hb h0 hr := hq b (hnum ▸ hb) h0 hr

theorem rehash (hinv : p'.Inv) (hnum : p'.numGpuBlocks = p.numGpuBlocks)
    (hunc : p'.enableCaching = false → ∀ b, p'.hash b = none)
    (href : ∀ b, p'.refCnt b = p.refCnt b) (hfree : p'.free = p.free)
    (hb : ∀ g id, t'.blocks g id = t.blocks g id)
    (ho : ∀ b, t'.occurrences b = t.occurrences b) : Owned (p', t') where
  inv := hinv
  pos := hnum ▸ h.pos
  uncached := hunc
  refs b h0 := by simpa only [href, ho] using h.refs b h0
  lt g id b hm := by
    simp only [hb, hnum] at hm ⊢
    exact h.lt g id b hm
  once g id b hm h0 := by
    simp only [hb] at hm ⊢
    exact h.once g id b hm h0
  queued b hlt h0 hr := by
    simp only [hnum, href, hfree] at hlt hr ⊢
    exact h.queued b hlt h0 hr

theorem give (ht : Replaced t t' g id l) {bs : List Nat}
    (hcount : ∀ b, b ≠ 0 → l.count b + bs.count b = (t.blocks g id).count b)
    (hmem : ∀ b ∈ l, b = 0 ∨ b ∈ t.blocks g id) : Owned (p.freed bs, t') := by
  have hp : p.Inv := h.inv
  have hone : ∀ b ∈ t.blocks g id, b ≠ 0 → (t.blocks g id).count b = 1 := h.once g id
  have hbs : ∀ b ∈ bs, b ≠ 0 → b ∈ t.blocks g id := fun b hb h0 => by
    have := hcount b h0
    exact count_pos_iff.mp (by have := count_pos_iff.mpr hb; omega)
  have hfree : p.Freeable bs := by
    refine ⟨fun b hb h0 => ⟨h.lt g id b (hbs b hb h0), h.refCnt_pos (hbs b hb h0) h0⟩,
      fun b hb h0 => ?_⟩
    have h1 := hone b (hbs b hb h0) h0
    have h2 := hcount b h0
    have h3 := count_pos_iff.mpr hb
    omega
  obtain ⟨-, -, -, hnum, hcache, -⟩ := foldl_decRefCnt_frame p bs
  refine h.replace ht (hp.freed hfree) hnum (fun hc b => ?_) (fun b h0 => ?_) (fun b hb => ?_)
    (fun b hb h0 => ?_) fun b hb h0 hr => ?_
  · rw [hash_freed]
    exact h.uncached (hcache ▸ hc) b
  · have := hcount b h0
    rw [refCnt_freed]
    omega
  · rcases hmem b hb with rfl | hb
    exacts [h.pos, h.lt g id b hb]
  · have h1 := hone b ((hmem b hb).resolve_left h0) h0
    have h2 := hcount b h0
    have h3 := count_pos_iff.mpr hb
    omega
  · rw [free_freed, mem_append, hp.mem_newlyFreed hfree]
    rw [refCnt_freed] at hr
    by_cases hm : b ∈ bs
    · rw [hfree.once b hm h0] at hr
      exact .inr ⟨hm, h0, by omega⟩
    · rw [count_eq_zero_of_not_mem hm] at hr
      exact .inl (h.queued b hb h0 (by simpa using hr))

theorem adopt (hempty : t.blocks g id = []) (skipped n : Nat) {hits : List Nat}
    (hone : ∀ b ∈ hits, b ≠ 0 → hits.count b = 1) (hhash : ∀ b ∈ hits, b ≠ 0 → p.hash b ≠ none) :
    Owned (p.touched hits,
      (t.setBlocks g id (List.replicate skipped 0 ++ hits)).setNumCached g id n) := by
  have hp : p.Inv := h.inv
  have hzero : ∀ b, b ≠ 0 → (List.replicate skipped 0).count b = 0 := fun b h0 =>
    count_eq_zero.mpr fun hm => h0 (eq_of_mem_replicate hm)
  have hlt : ∀ b ∈ hits, b < p.numGpuBlocks := fun b hb => by
    by_cases h0 : b = 0
    · exact h0 ▸ h.pos
    · exact (hp.hash_lt b (hhash b hb h0)).1
  have htouch : p.Touchable hits := fun b hb => ⟨hlt b hb, fun h0 hr => h.queued b (hlt b hb) h0 hr⟩
  obtain ⟨hsame, hnum, hcache⟩ := touched_frame p hits
  refine h.replace ((replaced_setBlocks t g id _).setNumCached n) (hp.touched htouch) hnum
    (fun hc b => ?_) (fun b h0 => ?_) (fun b hb => ?_) (fun b hb h0 => ?_) fun b hb h0 hr => ?_
  · rw [hsame]
    exact h.uncached (hcache ▸ hc) b
  · rw [hempty, refCnt_touched, count_append, hzero b h0]
    simp
  · rcases mem_append.mp hb with hb | hb
    · exact eq_of_mem_replicate hb ▸ h.pos
    · exact hlt b hb
  · rw [count_append, hzero b h0, Nat.zero_add]
    rcases mem_append.mp hb with hb | hb
    · exact absurd (eq_of_mem_replicate hb) h0
    · exact hone b hb h0
  · have hnn := hp.ref_nonneg b h0
    rw [refCnt_touched] at hr
    have hm : b ∉ hits := count_eq_zero.mp (by omega)
    rw [hp.free_touched htouch, mem_filter]
    exact ⟨h.queued b hb h0 (by simp only; omega), by simpa using hm⟩

theorem grow {n : Nat} (hn : n ≤ p.free.length) :
    Owned (p.handedOut n, t.setBlocks g id (t.blocks g id ++ p.free.take n)) := by
  have hp : p.Inv := h.inv
  have hout := hp.handedOut hn
  have hfree : ∀ b ∈ p.free.take n, p.refCnt b = 0 ∧ b < p.numGpuBlocks ∧ b ≠ 0 := fun b hb =>
    have hspec := hp.free_spec b (mem_of_mem_take hb)
    ⟨hspec.2.1, hspec.1, hspec.2.2⟩
  have hcount : ∀ b ∈ p.free.take n, (p.free.take n).count b = 1 := fun b hb =>
    count_eq_one_of_mem (hp.free_nodup.sublist (take_sublist _ _)) hb
  have hnot : ∀ b ∈ p.free.take n, b ∉ t.blocks g id := fun b hb hm => by
    have := h.refCnt_pos hm (hfree b hb).2.2
    have := (hfree b hb).1
    omega
  refine h.replace (replaced_setBlocks t g id _) hout.inv hout.numGpuBlocks (fun hc b => ?_)
    (fun b h0 => ?_) (fun b hb => ?_) (fun b hb h0 => ?_) fun b hb h0 hr => ?_
  · rw [hout.enableCaching] at hc
    rw [hout.hash, hc]
    simpa using h.uncached hc b
  · rw [hout.refCnt, count_append]
    by_cases hm : b ∈ p.free.take n
    · rw [if_pos hm, hcount b hm, (hfree b hm).1]
      omega
    · rw [if_neg hm, count_eq_zero_of_not_mem hm]
      omega
  · rcases mem_append.mp hb with hb | hb
    exacts [h.lt g id b hb, (hfree b hb).2.1]
  · rw [count_append]
    rcases mem_append.mp hb with hb | hb
    · rw [count_eq_zero_of_not_mem fun hm => hnot b hm hb]
      exact h.once g id b hb h0
    · rw [count_eq_zero_of_not_mem (hnot b hb), hcount b hb]
  · rw [hout.refCnt] at hr
    split at hr
    · cases hr
    · next hm =>
      have hq := h.queued b hb h0 hr
      rw [hout.free]
      have hall : b ∈ p.free.take n ++ p.free.drop n := by rwa [take_append_drop]
      exact (mem_append.mp hall).resolve_left hm

theorem publish {b : Nat} (hb : b ∈ t.blocks g id) (h0 : b ≠ 0)
    (hn : p.hash b = none) (hc : p.enableCaching = true) (key : BlockKey D) :
    Owned (p.publish b key, t) := by
  refine h.rehash (h.inv.publish hn (h.lt g id b hb) h0) rfl (fun hf => ?_)
    (fun c => by simp [BlockPool.publish]) rfl (fun _ _ => rfl) fun _ => rfl
  simp [BlockPool.publish, hc] at hf

end

end Owned

theorem Owned.next {cfg : KVCacheConfig} {x : Scope D} {m : KVMove D} {s : KVState D} (h : Owned s)
    (hok : m.Ok cfg x s) : Owned (m.next s) := by
  obtain ⟨p, t⟩ := s
  cases m with
  | enter g id =>
    exact h.replace (replaced_setBlocks t g id _) h.inv rfl h.uncached (fun _ _ => rfl) (h.lt g id)
      (h.once g id) h.queued
  | shrink g id lo hi =>
    obtain ⟨-, hle, -⟩ := hok
    exact h.give (replaced_setBlocks t g id _) (fun b h0 => count_nulled _ hle h0)
      fun b hb => mem_nulled hb
  | adopt g id skipped hits =>
    obtain ⟨-, hempty, hone, spec, -, hhash⟩ := hok
    refine h.adopt hempty skipped _ hone fun b hb h0 => ?_
    obtain ⟨j, hj⟩ := mem_iff_getElem?.mp hb
    rw [hhash j b hj h0]
    exact Option.some_ne_none _
  | grow g id n => exact h.grow hok.2
  | release g id =>
    exact h.give (replaced_drop t g id) (fun b _ => by simp) (by simp)
  | publish g id i key =>
    obtain ⟨-, hc, ⟨b, hb, h0, hn⟩, -⟩ := hok
    have hget : (t.blocks g id).getD i 0 = b := by
      rw [getD_eq_getElem?_getD]
      rw [hb]
      rfl
    simp only [KVMove.next, hget]
    exact h.publish (mem_of_getElem? hb) h0 hn hc key
  | setCached g id n | mark marks =>
    exact h.rehash h.inv rfl h.uncached (fun _ => rfl) rfl (fun _ _ => rfl) fun _ => rfl
  | evict b =>
    refine h.rehash (h.inv.dropHash b) (by simp) (fun hc c => ?_) (by simp) (by simp)
      (fun _ _ => rfl) fun _ => rfl
    rw [h.inv.hash_dropHash]
    split
    · rfl
    · exact h.uncached (by simpa using hc) c
  | reset =>
    exact h.rehash h.inv.resetHashes rfl (fun _ _ => rfl) (fun _ => rfl) rfl (fun _ _ => rfl)
      fun _ => rfl

end Vllm
