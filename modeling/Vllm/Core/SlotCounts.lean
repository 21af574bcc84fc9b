import Vllm.Core.ManagerRuns

/-! What `allocate_slots` announces and what it takes, for the manager of one group. The number of
blocks to allocate is counted before anything is placed; placing hits, blocks for external tokens
and new blocks then takes exactly that many off the free queue.

`GroupManager` adds cross attention, whose blocks hold the encoder's tokens. -/

namespace Vllm
open Base BlockPool Call List KVMove
variable {D : Type} [DecidableEq D]

/-! ## Skipped blocks -/

section
variable {spec : KVCacheSpec} {g : Nat} {id : String} {s : KVState D}

theorem Owned.enter (hs : Owned s) (g : Nat) (id : String) :
    Owned ((KVMove.enter g id).next s) := by
  have hok : (.enter g id : KVMove D).Ok oneFullGroup (Scope.ofId id 0) s := rfl
  exact hs.next hok

theorem Owned.release (hs : Owned s) (g : Nat) (id : String) : Owned ((release g id).next s) := by
  have hok : (.release g id : KVMove D).Ok oneFullGroup (Scope.ofId id 0) s := rfl
  exact hs.next hok

theorem length_nulled {l : List Nat} {lo hi : Nat} (hlo : lo ≤ hi) (hhi : hi ≤ l.length) :
    (nulled l lo hi).length = l.length := by
  simp only [nulled, length_append, length_take, length_replicate, length_drop]
  omega

theorem trimmed_cases (spec : KVCacheSpec) (g : Nat) (id : String) (total : Nat) (s : KVState D) :
    trimmed spec g id total s = s ∨ ∃ lo hi, lo ≤ hi ∧ hi ≤ (s.2.blocks g id).length ∧
      hi ≤ spec.numSkippedBlocks (total - spec.numSpeculativeBlocks) ∧
      trimmed spec g id total s = (shrink g id lo hi).next ((KVMove.enter g id).next s) := by
  by_cases hskip : spec.getNumSkippedTokens (total - spec.numSpeculativeBlocks) = 0
  · exact .inl (if_pos hskip)
  · exact .inr ⟨_, _, numKept_le _ _, Nat.min_le_right _ _, Nat.min_le_left _ _, if_neg hskip⟩

theorem Owned.trimmed (hs : Owned s) (total : Nat) : Owned (trimmed spec g id total s) := by
  rcases trimmed_cases spec g id total s with h | ⟨lo, hi, hle, -, -, h⟩
  · rw [h]
    exact hs
  · rw [h]
    refine (hs.enter g id).give (replaced_setBlocks _ g id _) (fun b h0 => ?_) fun b hb => ?_
    · exact count_nulled _ hle h0
    · exact mem_nulled hb

theorem numCachedBlock_trimmed (total : Nat) :
    (Vllm.trimmed spec g id total s).2.numCachedBlock = s.2.numCachedBlock := by
  rcases trimmed_cases spec g id total s with h | ⟨lo, hi, -, -, -, h⟩ <;> rw [h]
  rfl

theorem hash_trimmed (total b : Nat) : (Vllm.trimmed spec g id total s).1.hash b = s.1.hash b := by
  rcases trimmed_cases spec g id total s with h | ⟨lo, hi, -, -, -, h⟩ <;> rw [h]
  exact hash_freed s.1 _ b

theorem length_blocks_trimmed (total : Nat) :
    ((Vllm.trimmed spec g id total s).2.blocks g id).length = (s.2.blocks g id).length := by
  rcases trimmed_cases spec g id total s with h | ⟨lo, hi, hle, hlen, -, h⟩
  · rw [h]
  · rw [h]
    refine (congrArg List.length (blocks_setBlocks_self ..)).trans ?_
    have hblocks := blocks_enter g id s
    simp only [KVMove.next] at hblocks ⊢
    rw [hblocks]
    exact length_nulled hle hlen

end

/-! ## What placing takes off the queue -/

theorem BlockPool.Inv.length_free_le {p : BlockPool (BlockKey D)} (h : p.Inv) :
    p.free.length ≤ p.numGpuBlocks := by
  have hsub : p.free ⊆ List.range p.numGpuBlocks :=
    fun b hb => mem_range.mpr (h.free_spec b hb).1
  simpa using (subperm_of_subset h.free_nodup hsub).length_le

omit [DecidableEq D] in
theorem BlockPool.getNumFreeBlocks_touchedOne (p : BlockPool (BlockKey D)) (b : Nat) :
    (p.touchedOne b).getNumFreeBlocks + getNumEvictableBlocks p [b] = p.getNumFreeBlocks := by
  unfold BlockPool.touchedOne getNumEvictableBlocks
  rw [countP_singleton]
  by_cases h : p.refCnt b = 0 ∧ p.isNull b = false
  · simp [h]
  · simp [h]

theorem BlockPool.Inv.getNumFreeBlocks_touched {p : BlockPool (BlockKey D)} (h : p.Inv)
    {bs : List Nat} (hb : p.Touchable bs) (honce : ∀ b ∈ bs, b ≠ 0 → bs.count b = 1) :
    (p.touched bs).getNumFreeBlocks + getNumEvictableBlocks p bs = p.getNumFreeBlocks := by
  induction bs generalizing p with
  | nil => simp [BlockPool.touched, getNumEvictableBlocks]
  | cons b bs ih =>
    have hin : b ≠ 0 → p.refCnt b = 0 → b ∈ p.free := (hb b mem_cons_self).2
    have hnull : ∀ c, (p.touchedOne b).isNull c = p.isNull c := p.isNull_touchedOne b
    -- the rest does not hold `b` again, unless it is the null block
    have hrest : b ≠ 0 → b ∉ bs := by
      intro h0 hmem
      have := honce b mem_cons_self h0
      rw [count_cons_self] at this
      have := count_pos_iff.mpr hmem
      omega
    have hsame : getNumEvictableBlocks (p.touchedOne b) bs = getNumEvictableBlocks p bs := by
      refine countP_congr fun c hc => ?_
      by_cases hcb : c = b
      · have h0 : b = 0 := by
          by_contra h0
          exact hrest h0 (hcb ▸ hc)
        have hisnull : p.isNull c = true := (h.null_iff c).mpr (hcb.trans h0)
        simp [hisnull]
      · simp [hcb]
    have htail := ih (h.touchedOne hin) (hb.touchedOne h) fun c hc h0 => by
      have hcount := honce c (mem_cons_of_mem b hc) h0
      rwa [count_cons_of_ne] at hcount
      rintro rfl
      exact hrest h0 hc
    have hhead := p.getNumFreeBlocks_touchedOne b
    have hsplit : getNumEvictableBlocks p (b :: bs) =
        getNumEvictableBlocks p [b] + getNumEvictableBlocks p bs := by
      unfold getNumEvictableBlocks
      rw [← countP_append, singleton_append]
    rw [BlockPool.touched, foldl_cons, ← BlockPool.touched]
    omega

section
variable {spec : KVCacheSpec} {g : Nat} {id : String} {s : KVState D}

structure HitsCached (p : BlockPool (BlockKey D)) (caching : Bool) (hits : List Nat) : Prop where
  once : ∀ b ∈ hits, b ≠ 0 → hits.count b = 1
  hash : ∀ b ∈ hits, b ≠ 0 → p.hash b ≠ none
  caching : caching = true ∨ hits = []

variable {caching : Bool} {hits : List Nat} {numTokens n : Nat}

omit [DecidableEq D] in
theorem HitsCached.drop {p : BlockPool (BlockKey D)} (h : HitsCached p caching hits) (n : Nat) :
    HitsCached p caching (hits.drop n) where
  once b hb h0 := by
    have hall := h.once b (mem_of_mem_drop hb) h0
    have hle : (hits.drop n).count b ≤ hits.count b := (drop_sublist n hits).count_le b
    have hpos := count_pos_iff.mpr hb
    omega
  hash b hb := h.hash b (mem_of_mem_drop hb)
  caching := h.caching.imp_right fun hnil => by rw [hnil, drop_nil]

section
variable (hs : Owned s) (h : HitsCached s.1 caching hits)
include hs h

theorem HitsCached.touchable : s.1.Touchable hits := by
  intro b hb
  by_cases h0 : b = 0
  · exact ⟨h0 ▸ hs.pos, fun hne => absurd h0 hne⟩
  · have hlt := (hs.inv.hash_lt b (h.hash b hb h0)).1
    exact ⟨hlt, fun h0 hr => hs.queued b hlt h0 hr⟩

theorem touchComputed_run : touchComputed caching hits s = (.ok (), (s.1.touched hits, s.2)) := by
  unfold touchComputed
  rcases h.caching with rfl | rfl
  · exact hs.inv.touch_eq (h.touchable hs) s.2
  · cases caching with
    | true => exact hs.inv.touch_eq (h.touchable hs) s.2
    | false => rfl

end

def adopted (spec : KVCacheSpec) (g : Nat) (id : String) (hits : List Nat) (total : Nat)
    (s : KVState D) : KVState D :=
  (adopt g id (spec.numSkippedBlocks total) (keptHits spec hits total)).next
    ((KVMove.enter g id).next s)

theorem addComputedBlocks_run (hs : Owned s) (hempty : s.2.blocks g id = [])
    (h : HitsCached s.1 caching hits) (numLocal external : Nat) :
    addComputedBlocks spec g id caching hits numLocal external s =
      allocateExternal spec g id (numLocal + external)
        (externalTokens spec (numLocal + external) external)
        (adopted spec g id hits (numLocal + external) s) := by
  have htouch := touchComputed_run (hs.enter g id)
    (h.drop (spec.numSkippedBlocks (numLocal + external)))
  have hlist : (s.2.setBlocks g id (s.2.blocks g id)).blocks g id = [] :=
    (blocks_setBlocks_self ..).trans hempty
  unfold addComputedBlocks
  rw [bind_of_ok (tableOf_run g id s), check_bind (by simp [hempty])]
  refine (bind_of_ok htouch).trans ?_
  refine congrArg (allocateExternal spec g id (numLocal + external)
    (externalTokens spec (numLocal + external) external)) ?_
  simp only [adopted, KVMove.next, hlist, nil_append, blocks_setBlocks_self,
    length_append, length_replicate]
  rfl

def grown (g : Nat) (id : String) (n : Nat) (s : KVState D) : KVState D :=
  (grow g id n).next ((KVMove.enter g id).next s)

theorem allocateExternal_run (hs : Owned s) {total external : Nat}
    (hfit : (s.2.blocks g id).length ≤ cdiv total spec.blockSize)
    (hn : cdiv total spec.blockSize - (s.2.blocks g id).length ≤ s.1.free.length)
    (hext : 0 < external) : allocateExternal spec g id total external s =
      (.ok (), Vllm.grown g id (cdiv total spec.blockSize - (s.2.blocks g id).length) s) := by
  have hint : (cdiv total spec.blockSize : Int) - (s.2.blocks g id).length =
      ↑(cdiv total spec.blockSize - (s.2.blocks g id).length) := by omega
  unfold allocateExternal
  rw [if_pos hext, bind_of_ok (tableOf_run g id s), getNewBlocksInt, hint,
    if_pos (Int.natCast_nonneg _), Int.toNat_natCast]
  exact bind_of_ok (hs.inv.getNewBlocks_eq hn _)

theorem allocateNewBlocks_none
    (hle : cdiv (numTokens + spec.blockSize * spec.numSpeculativeBlocks) spec.blockSize ≤ (s.2.blocks g id).length)
    :
    allocateNewBlocks spec g id numTokens s = (.ok [], (KVMove.enter g id).next s) := by
  unfold allocateNewBlocks
  rw [bind_of_ok (tableOf_run g id s)]
  exact congrFun (if_pos hle) _

theorem allocateNewBlocks_some (hs : Owned s)
    (hn : cdiv (numTokens + spec.blockSize * spec.numSpeculativeBlocks) spec.blockSize = (s.2.blocks g id).length + n)
    (hpos : 0 < n) (hfree : n ≤ s.1.free.length) :
    allocateNewBlocks spec g id numTokens s = (.ok (s.1.free.take n), Vllm.grown g id n s) := by
  unfold allocateNewBlocks
  rw [bind_of_ok (tableOf_run g id s)]
  refine (congrFun (if_neg (by omega)) _).trans ?_
  rw [show cdiv (numTokens + spec.blockSize * spec.numSpeculativeBlocks) spec.blockSize -
    (s.2.blocks g id).length = n by omega]
  exact bind_of_ok (hs.inv.getNewBlocks_eq hfree _)

def Apart (g : Nat) (id : String) (t t' : Tables D) : Prop :=
  ∀ g' id', (g', id') ≠ (g, id) → t'.blocks g' id' = t.blocks g' id' ∧
    t'.numCachedBlock.get? (g', id') = t.numCachedBlock.get? (g', id')

section
omit [DecidableEq D]
variable {t t' t'' : Tables D}

theorem Apart.refl (g : Nat) (id : String) (t : Tables D) : Apart g id t t :=
  fun _ _ _ => ⟨rfl, rfl⟩

theorem Apart.trans (h : Apart g id t t') (h' : Apart g id t' t'') : Apart g id t t'' :=
  fun g' id' hne => ⟨(h' g' id' hne).1.trans (h g' id' hne).1,
    (h' g' id' hne).2.trans (h g' id' hne).2⟩

section
variable (g : Nat) (id : String) (t : Tables D)

theorem apart_setBlocks (l : List Nat) : Apart g id t (t.setBlocks g id l) :=
  fun g' id' hne => ⟨((replaced_setBlocks t g id l).blocks g' id').trans (if_neg hne), rfl⟩

theorem apart_setNumCached (n : Nat) : Apart g id t (t.setNumCached g id n) :=
  fun _ _ hne => ⟨rfl, (Dict.get?_set ..).trans (if_neg hne)⟩

end

end

structure Took (g : Nat) (id : String) (s s' : KVState D) (l : List Nat) (n : Nat) : Prop where
  owned : Owned s'
  blocks : s'.2.blocks g id = l
  free : s'.1.getNumFreeBlocks + n = s.1.getNumFreeBlocks
  caching : s'.1.enableCaching = s.1.enableCaching
  apart : Apart g id s.2 s'.2

theorem Took.trans {s' s'' : KVState D} {l l' : List Nat} {n' : Nat} (h : Took g id s s' l n)
    (h' : Took g id s' s'' l' n') : Took g id s s'' l' (n + n') where
  owned := h'.owned
  blocks := h'.blocks
  free := by
    have := h.free
    have := h'.free
    omega
  caching := h'.caching.trans h.caching
  apart := h.apart.trans h'.apart

theorem Owned.took_enter (hs : Owned s) :
    Took g id s ((KVMove.enter g id).next s) (s.2.blocks g id) 0 where
  owned := hs.enter g id
  blocks := blocks_enter g id s
  free := Int.add_zero _
  caching := rfl
  apart := apart_setBlocks g id s.2 _

theorem Owned.took_grown (hs : Owned s) (hn : n ≤ s.1.free.length) :
    Took g id s (Vllm.grown g id n s) (s.2.blocks g id ++ s.1.free.take n) n where
  owned := (hs.enter g id).grow hn
  blocks := (blocks_setBlocks_self ..).trans
    (congrArg (· ++ s.1.free.take n) (blocks_enter g id s))
  free := by
    have hout := hs.inv.handedOut hn
    have hcount : (Vllm.grown g id n s).1.getNumFreeBlocks = (s.1.free.drop n).length :=
      hout.inv.count.trans (congrArg (fun l : List Nat => (l.length : Int)) hout.free)
    rw [hcount, hs.inv.count, length_drop]
    omega
  caching := (hs.inv.handedOut hn).enableCaching
  apart := (apart_setBlocks g id s.2 _).trans (apart_setBlocks g id _ _)

theorem Owned.took_adopted (hs : Owned s) (hempty : s.2.blocks g id = [])
    (h : HitsCached s.1 caching hits) (total : Nat) :
    Took g id s (adopted spec g id hits total s)
      (List.replicate (spec.numSkippedBlocks total) 0 ++ keptHits spec hits total)
      (getNumEvictableBlocks s.1 (keptHits spec hits total)) where
  owned := by
    have hkept := h.drop (spec.numSkippedBlocks total)
    exact (hs.enter g id).adopt ((blocks_enter g id s).trans hempty) _ _ hkept.once hkept.hash
  blocks := blocks_setBlocks_self ..
  free := by
    have hkept := h.drop (spec.numSkippedBlocks total)
    exact hs.inv.getNumFreeBlocks_touched (hkept.touchable hs) hkept.once
  caching := (touched_frame s.1 _).2.2
  apart := ((apart_setBlocks g id s.2 _).trans (apart_setBlocks g id _ _)).trans
    (apart_setNumCached g id _ _)

def numRequired (spec : KVCacheSpec) (numTokens : Nat) : Nat :=
  cdiv (numTokens + spec.blockSize * spec.numSpeculativeBlocks) spec.blockSize

theorem allocateNewBlocks_returns (hs : Owned s)
    (hn : numRequired spec numTokens ≤ (s.2.blocks g id).length + s.1.free.length) :
    ∃ new s', allocateNewBlocks spec g id numTokens s = (.ok new, s') ∧
      new.length = numRequired spec numTokens - (s.2.blocks g id).length ∧
      Took g id s s' (s.2.blocks g id ++ new) new.length := by
  by_cases hle : numRequired spec numTokens ≤ (s.2.blocks g id).length
  · refine ⟨[], _, allocateNewBlocks_none hle, ?_, ?_⟩
    · exact (Nat.sub_eq_zero_of_le hle).symm
    · rw [append_nil]
      exact hs.took_enter
  · obtain ⟨n, hn'⟩ : ∃ n, numRequired spec numTokens = (s.2.blocks g id).length + n :=
      ⟨_, (Nat.add_sub_cancel' (Nat.le_of_not_le hle)).symm⟩
    have hfree : n ≤ s.1.free.length := by omega
    have hlen : (s.1.free.take n).length = n := by rw [length_take, Nat.min_eq_left hfree]
    refine ⟨_, _, allocateNewBlocks_some hs hn' (by omega) hfree, by omega, ?_⟩
    rw [hlen]
    exact hs.took_grown hfree

theorem allocateNewComputedBlocks_returns (hs : Owned s) (hempty : s.2.blocks g id = [])
    (hnew : s.2.numCachedBlock.contains (g, id) = false) (h : HitsCached s.1 caching hits)
    {numLocal external : Nat} (hfit : HitsFit spec hits (numLocal + external) external)
    (hn : getNumEvictableBlocks s.1 (keptHits spec hits (numLocal + external)) + numExternalBlocks spec hits (numLocal + external) external ≤ s.1.free.length)
    :
    ∃ new s', allocateNewComputedBlocks spec g id caching hits numLocal external s = (.ok (), s') ∧
      new.length = numExternalBlocks spec hits (numLocal + external) external ∧
      Took g id s s' (List.replicate (spec.numSkippedBlocks (numLocal + external)) 0 ++
        keptHits spec hits (numLocal + external) ++ new)
        (getNumEvictableBlocks s.1 (keptHits spec hits (numLocal + external)) + new.length) := by
  set total := numLocal + external with htotal
  have hadopt : Took g id s (adopted spec g id hits total s) _ _ := hs.took_adopted hempty h total
  have hrun : allocateNewComputedBlocks spec g id caching hits numLocal external s =
      allocateExternal spec g id total (externalTokens spec total external)
        (adopted spec g id hits total s) := by
    unfold allocateNewComputedBlocks
    rw [get_bind]
    refine (congrFun (if_neg (by simp [hnew])) s).trans ?_
    exact addComputedBlocks_run hs hempty h numLocal external
  unfold numExternalBlocks at hn ⊢
  by_cases hext : 0 < externalTokens spec total external
  · rw [if_pos hext] at hn ⊢
    have hlen : ((adopted spec g id hits total s).2.blocks g id).length =
        numPlaced spec hits total := by
      rw [hadopt.blocks, length_append, length_replicate, numPlaced]
    have hfree : cdiv total spec.blockSize - numPlaced spec hits total ≤
        (adopted spec g id hits total s).1.free.length := by
      have := hadopt.owned.inv.count
      have := hs.inv.count
      have := hadopt.free
      omega
    rw [← hlen] at hfree
    have hgrown := hadopt.trans (hadopt.owned.took_grown hfree)
    have hnew : ((adopted spec g id hits total s).1.free.take (cdiv total spec.blockSize -
        numPlaced spec hits total)).length =
          cdiv total spec.blockSize - numPlaced spec hits total := by
      rw [length_take, Nat.min_eq_left (hlen ▸ hfree)]
    refine ⟨_, _, hrun.trans (allocateExternal_run hadopt.owned (hlen.trans_le (hfit hext)) hfree
      hext), hnew, ?_⟩
    rw [hnew]
    rw [hlen, hadopt.blocks] at hgrown
    rw [hlen]
    exact hgrown
  · rw [if_neg hext] at hn ⊢
    refine ⟨[], adopted spec g id hits total s, hrun.trans (congrFun (if_neg hext) _), rfl, ?_⟩
    rw [append_nil]
    exact hadopt

end

end Vllm
