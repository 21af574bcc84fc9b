import Vllm.Core.ExternalHits
import Vllm.Core.SlotCounts

/-! `allocate_slots` for a coordinator with one group, with the manager of the group as
`kv_cache_coordinator.py` calls it: what `get_num_blocks_to_allocate` announces is enough for
`allocate_new_computed_blocks` and `allocate_new_blocks`. -/

set_option linter.unusedSectionVars false

namespace Vllm
open Base Call List
variable {D : Type} [DecidableEq D]

/-- The manager of a group: one of those with a spec, or `CrossAttentionManager`. -/
inductive GroupManager where
  | ofSpec (spec : KVCacheSpec)
  | crossAttention (blockSize : Nat) (blockSize_pos : 0 < blockSize)

namespace GroupManager

/-- Cross attention skips no tokens, which is what the base class does and full attention keeps. -/
def spec : GroupManager → KVCacheSpec
  | ofSpec spec => spec
  | crossAttention blockSize blockSize_pos =>
    { blockSize, attention := .fullAttention, blockSize_pos }

def slotTokens (numTokens numEncoderTokens : Nat) : GroupManager → Nat
  | ofSpec _ => numTokens
  | crossAttention .. => numEncoderTokens

def getNumBlocksToAllocate (id : String) (numTokens : Nat) (newComputedBlocks : List Nat)
    (numEncoderTokens totalComputedTokens : Nat) : GroupManager → KVCall D Nat
  | ofSpec spec =>
    Vllm.getNumBlocksToAllocate spec 0 id numTokens newComputedBlocks totalComputedTokens
  | m@(crossAttention ..) => baseNumBlocksToAllocate m.spec 0 id numEncoderTokens [] 0

def allocateNewComputedBlocks (id : String) (enableCaching : Bool) (newComputedBlocks : List Nat)
    (numLocalComputedTokens numExternalComputedTokens : Nat) : GroupManager → KVCall D Unit
  | ofSpec spec => Vllm.allocateNewComputedBlocks spec 0 id enableCaching newComputedBlocks
      numLocalComputedTokens numExternalComputedTokens
  | crossAttention .. => Call.check (newComputedBlocks.length = 0) (.assertionError "")

def allocateNewBlocks (id : String) (numTokens numEncoderTokens : Nat) (m : GroupManager) :
    KVCall D (List Nat) :=
  Vllm.allocateNewBlocks m.spec 0 id (m.slotTokens numTokens numEncoderTokens)

def cacheBlocks (cfg : KVCacheConfig) (r : Request D) (numTokens : Nat) :
    GroupManager → KVCall D Unit
  | ofSpec spec => cfg.cacheBlocksOfGroup spec 0 r numTokens
  | crossAttention .. => Call.raise (.valueError
      "Should not be called as prefix caching is disabled.")

variable (m : GroupManager) (cfg : KVCacheConfig) (r : Request D) (a : KVCacheConfig.SlotArgs)
  (numEncoderTokens : Nat)

def hits : List Nat := a.hits.getD 0 []

def removeSkipped : KVCall D Unit :=
  Vllm.removeSkippedBlocks m.spec 0 r.requestId (a.totalComputedTokens r cfg.maxModelLen)

def announce : KVCall D Nat :=
  m.getNumBlocksToAllocate r.requestId (a.numTokensNeedSlot r cfg.maxModelLen) (hits a)
    numEncoderTokens (a.numLocalComputedTokens r + a.numExternalComputedTokens)

def placeHits : KVCall D Unit :=
  if a.newComputedBlocks.isSome ∨ a.numExternalComputedTokens > 0 then
    m.allocateNewComputedBlocks r.requestId cfg.enableCaching (hits a)
      (a.numLocalComputedTokens r) a.numExternalComputedTokens
  else return ()

def place : KVCall D (List Nat) := do
  m.placeHits cfg r a
  m.allocateNewBlocks r.requestId (a.numTokensNeedSlot r cfg.maxModelLen) numEncoderTokens

def commit : KVCall D Unit :=
  if !cfg.enableCaching || a.delayCacheBlocks then return ()
  else m.cacheBlocks cfg r (a.numTokensToCache r cfg.maxModelLen)

/-- `allocate_slots` up to the form of its result. -/
def allocateSlots : KVCall D (Option (List Nat)) := do
  Call.check (a.numNewTokens ≠ 0 ∨ a.numExternalComputedTokens ≠ 0) (.valueError
    "num_new_tokens must be greater than 0 when there are no external computed tokens")
  m.removeSkipped cfg r a
  let numBlocksToAllocate ← m.announce cfg r a numEncoderTokens
  let s ← Call.get
  if (numBlocksToAllocate : Int) > s.1.getNumFreeBlocks then return none
  else
    let newBlocks ← m.place cfg r a numEncoderTokens
    m.commit cfg r a
    return some newBlocks

/-- With a spec: `allocate_slots` of the coordinator with this group alone. -/
theorem allocateSlots_one_group {spec : KVCacheSpec} (hone : cfg.groups = [spec]) :
    cfg.allocateSlots r a = ((ofSpec spec).allocateSlots cfg r a numEncoderTokens >>= fun res =>
      return res.map fun newBlocks => KVCacheConfig.createKvCacheBlocks [newBlocks]) := by
  simp only [KVCacheConfig.allocateSlots, KVCacheConfig.removeSkippedBlocks,
    KVCacheConfig.getNumBlocksToAllocate, KVCacheConfig.placeBlocks, KVCacheConfig.placeHits,
    KVCacheConfig.allocateNewComputedBlocks, KVCacheConfig.allocateNewBlocks,
    KVCacheConfig.commitBlocks, KVCacheConfig.coordinatorCacheBlocks, hone, zipIdx_singleton, forEach,
    mapEach, Call.bind_assoc, Call.pure_bind, Call.bind_pure_unit, sum_singleton, allocateSlots, place]
  refine congrArg _ (funext fun _ => congrArg _ (funext fun _ => congrArg _ (funext fun _ =>
    congrArg _ (funext fun _ => ?_))))
  -- What remains is the check of the free blocks.
  split
  · rfl
  · simp only [Call.bind_assoc]
    rfl

/-! ## Calls of a scheduler -/

structure New (spec : KVCacheSpec) (cfg : KVCacheConfig) (r : Request D)
    (a : KVCacheConfig.SlotArgs) (s : KVState D) : Prop where
  empty : s.2.blocks 0 r.requestId = []
  uncached : s.2.numCachedBlock.contains (0, r.requestId) = false
  given : a.newComputedBlocks.isSome ∨ a.numExternalComputedTokens > 0
  cached : HitsCached s.1 cfg.enableCaching (hits a)
  computed : (hits a).length * spec.blockSize ≤ a.numLocalComputedTokens r
  total : a.numExternalComputedTokens > 0 →
    a.numLocalComputedTokens r + a.numExternalComputedTokens ≤ cfg.maxModelLen

structure Held (spec : KVCacheSpec) (r : Request D) (a : KVCacheConfig.SlotArgs)
    (s : KVState D) : Prop where
  none : hits a = []
  covered : s.2.numCachedBlock.contains (0, r.requestId) = true ∨
    a.newComputedBlocks = Option.none ∧ a.numExternalComputedTokens = 0 ∧
      a.numLocalComputedTokens r ≤ (s.2.blocks 0 r.requestId).length * spec.blockSize

def Fits (s : KVState D) : GroupManager → Prop
  | ofSpec spec => New spec cfg r a s ∨ Held spec r a s
  | crossAttention .. => hits a = []

/-! ## What is announced is enough -/

/-- `place` returns, takes at most `n` blocks off the queue and leaves a list that is long enough,
with the blocks the request had and its hits at the start. -/
def PlacesWithin (n : Nat) (s : KVState D) : Prop :=
  ∃ new s' l k, m.place cfg r a numEncoderTokens s = (.ok new, s') ∧ k ≤ n ∧
    Took 0 r.requestId s s' l k ∧
    cdiv (m.slotTokens (a.numTokensNeedSlot r cfg.maxModelLen) numEncoderTokens) m.spec.blockSize ≤
      l.length ∧
    s.2.blocks 0 r.requestId <+: l ∧
    (hits a ≠ [] → List.replicate (m.spec.numSkippedBlocks (a.numLocalComputedTokens r +
        a.numExternalComputedTokens)) 0 ++ keptHits m.spec (hits a) (a.numLocalComputedTokens r +
        a.numExternalComputedTokens) <+: l)

end GroupManager

section
variable {spec : KVCacheSpec} {id : String} {s : KVState D}

theorem cdiv_le_numRequired (spec : KVCacheSpec) (numTokens : Nat) :
    cdiv numTokens spec.blockSize ≤ numRequired spec numTokens :=
  cdiv_le_cdiv (Nat.le_add_right _ _)

theorem baseNumBlocksToAllocate_cached (g : Nat)
    (hc : s.2.numCachedBlock.contains (g, id) = true) (numTokens total : Nat) :
    baseNumBlocksToAllocate spec g id numTokens [] total s =
      (.ok (cdiv numTokens spec.blockSize - (s.2.blocks g id).length), s) := by
  unfold baseNumBlocksToAllocate
  rw [get_bind]
  exact congrFun (if_pos hc) s

theorem baseNumBlocksToAllocate_uncached (g : Nat)
    (hc : s.2.numCachedBlock.contains (g, id) = false) (numTokens : Nat) (hits : List Nat)
    (total : Nat) : baseNumBlocksToAllocate spec g id numTokens hits total s =
      (.ok (cdiv numTokens spec.blockSize -
        max (spec.numSkippedBlocks total) (hits.length + (s.2.blocks g id).length) +
          getNumEvictableBlocks s.1
            (hits.drop (spec.numSkippedBlocks total - (s.2.blocks g id).length))), s) := by
  unfold baseNumBlocksToAllocate
  rw [get_bind]
  exact congrFun (if_neg (by simp [hc])) s

theorem baseNumBlocksToAllocate_no_hits (g : Nat) {total : Nat}
    (h : s.2.numCachedBlock.contains (g, id) = true ∨
      spec.numSkippedBlocks total ≤ (s.2.blocks g id).length) (numTokens : Nat) :
    ∃ n, baseNumBlocksToAllocate spec g id numTokens [] total s = (.ok n, s) ∧
      cdiv numTokens spec.blockSize ≤ (s.2.blocks g id).length + n := by
  rcases hc : s.2.numCachedBlock.contains (g, id) with _ | _
  · refine ⟨_, baseNumBlocksToAllocate_uncached g hc numTokens [] total, ?_⟩
    have hskip := h.resolve_left (by simp [hc])
    rw [length_nil, Nat.zero_add, Nat.max_eq_right hskip]
    omega
  · refine ⟨_, baseNumBlocksToAllocate_cached g hc numTokens total, ?_⟩
    omega

theorem getNumBlocksToAllocate_cases (spec : KVCacheSpec) (g : Nat) (id : String)
    (numTokens : Nat) (hits : List Nat) (total : Nat) (s : KVState D) :
    getNumBlocksToAllocate spec g id numTokens hits total s = (.ok (s.1.numGpuBlocks + 1), s) ∨
      getNumBlocksToAllocate spec g id numTokens hits total s = baseNumBlocksToAllocate spec g id
        (numTokens + spec.blockSize * spec.numSpeculativeBlocks) hits total s := by
  unfold getNumBlocksToAllocate
  rw [get_bind]
  by_cases hm : (spec.isMamba && hitThisStep g s hits) = true
  · exact .inl (congrFun (if_pos hm) s)
  · exact .inr (congrFun (if_neg hm) s)

theorem numSkippedBlocks_le (spec : KVCacheSpec) {n len : Nat} (h : n ≤ len * spec.blockSize) :
    spec.numSkippedBlocks n ≤ len := by
  have hle : spec.numSkippedBlocks n ≤ n / spec.blockSize :=
    Nat.div_le_div_right (getNumSkippedTokens_le spec n)
  have hdiv : n / spec.blockSize ≤ len := by
    rw [← Nat.mul_div_cancel len spec.blockSize_pos]
    exact Nat.div_le_div_right h
  exact hle.trans hdiv

end

namespace GroupManager
variable {m : GroupManager} {cfg : KVCacheConfig} {r : Request D} {a : KVCacheConfig.SlotArgs}
  {numEncoderTokens : Nat} {s : KVState D}

theorem placesWithin_of_no_hits (hs : Owned s) (hnone : hits a = [])
    (hplace : m.placeHits cfg r a s = (.ok (), s)) {n : Nat}
    (hn : numRequired m.spec (m.slotTokens (a.numTokensNeedSlot r cfg.maxModelLen)
      numEncoderTokens) ≤ (s.2.blocks 0 r.requestId).length + n)
    (hfree : (n : Int) ≤ s.1.getNumFreeBlocks) : m.PlacesWithin cfg r a numEncoderTokens n s := by
  have hcount := hs.inv.count
  obtain ⟨new, s', hrun, hlen, htook⟩ := allocateNewBlocks_returns hs (g := 0)
    (hn.trans (Nat.add_le_add_left (show n ≤ s.1.free.length by omega) _))
  refine ⟨new, s', _, _, (bind_of_ok hplace).trans hrun, by omega, htook, ?_,
    prefix_append _ _, fun hne => absurd hnone hne⟩
  have := cdiv_le_numRequired m.spec (m.slotTokens (a.numTokensNeedSlot r cfg.maxModelLen)
    numEncoderTokens)
  rw [length_append]
  omega

theorem placesWithin_of_new {spec : KVCacheSpec} (hs : Owned s) (hnew : New spec cfg r a s)
    (htokens : 0 ≤ a.numNewTokens) {n : Nat}
    (hn : n = numRequired spec (a.numTokensNeedSlot r cfg.maxModelLen) -
        max (spec.numSkippedBlocks (a.numLocalComputedTokens r + a.numExternalComputedTokens))
          (hits a).length +
      getNumEvictableBlocks s.1 (keptHits spec (hits a)
        (a.numLocalComputedTokens r + a.numExternalComputedTokens)))
    (hfree : (n : Int) ≤ s.1.getNumFreeBlocks) :
    (ofSpec spec).PlacesWithin cfg r a numEncoderTokens n s := by
  have hcount := hs.inv.count
  set total := a.numLocalComputedTokens r + a.numExternalComputedTokens with htotal
  set required := numRequired spec (a.numTokensNeedSlot r cfg.maxModelLen) with hrequired
  have hplaced : numPlaced spec (hits a) total =
      max (spec.numSkippedBlocks total) (hits a).length := by
    rw [numPlaced, keptHits, length_drop]
    omega
  -- the blocks for external tokens are among those that are required
  have hexternal : numExternalBlocks spec (hits a) total a.numExternalComputedTokens ≤
      required - numPlaced spec (hits a) total := by
    unfold numExternalBlocks
    split
    · next hpos =>
      have hext : a.numExternalComputedTokens > 0 := by
        unfold externalTokens at hpos
        split at hpos
        · exact lt_of_lt_of_le hpos (Nat.min_le_right _ _)
        · exact hpos
      have hslot : total ≤ a.numTokensNeedSlot r cfg.maxModelLen := by
        have := hnew.total hext
        simp only [KVCacheConfig.SlotArgs.numTokensNeedSlot,
          KVCacheConfig.SlotArgs.totalComputedTokens]
        omega
      exact Nat.sub_le_sub_right ((cdiv_le_cdiv hslot).trans (cdiv_le_numRequired _ _)) _
    · exact Nat.zero_le _
  have hfit : HitsFit spec (hits a) total a.numExternalComputedTokens :=
    hitsFit_of_le _ (hnew.computed.trans (Nat.le_add_right _ _))
  have henough : getNumEvictableBlocks s.1 (keptHits spec (hits a) total) +
      numExternalBlocks spec (hits a) total a.numExternalComputedTokens ≤ s.1.free.length := by
    omega
  obtain ⟨ext, s₁, hrun, hlen, htook⟩ := allocateNewComputedBlocks_returns hs hnew.empty
    hnew.uncached hnew.cached hfit henough
  rw [← htotal] at hlen htook
  have hplace : (ofSpec spec).placeHits cfg r a s = (.ok (), s₁) :=
    (congrFun (if_pos hnew.given) s).trans hrun
  have hlen₁ : (s₁.2.blocks 0 r.requestId).length = numPlaced spec (hits a) total + ext.length := by
    rw [htook.blocks, length_append, length_append, length_replicate, numPlaced]
  have hcount₁ := htook.owned.inv.count
  have hnum₁ := htook.free
  obtain ⟨new, s₂, hrun₂, hlen₂, htook₂⟩ := allocateNewBlocks_returns htook.owned
    (show required ≤ (s₁.2.blocks 0 r.requestId).length + s₁.1.free.length by omega)
  refine ⟨new, s₂, _, _, (bind_of_ok hplace).trans hrun₂, ?_, htook.trans htook₂, ?_, ?_,
    fun _ => ?_⟩
  · omega
  · have hle : cdiv (a.numTokensNeedSlot r cfg.maxModelLen) spec.blockSize ≤ required :=
      cdiv_le_numRequired spec _
    rw [length_append]
    exact hle.trans (by omega)
  · rw [hnew.empty]
    exact nil_prefix
  · rw [htook.blocks, append_assoc]
    exact prefix_append _ _

theorem Held.placeHits {spec : KVCacheSpec} (h : Held spec r a s) :
    (ofSpec spec).placeHits cfg r a s = (.ok (), s) := by
  unfold GroupManager.placeHits
  split
  · next hgiven =>
    have hc : s.2.numCachedBlock.contains (0, r.requestId) = true := by
      refine h.covered.resolve_right fun hnone => ?_
      rcases hgiven with hsome | hext
      · rw [hnone.1] at hsome
        cases hsome
      · rw [hnone.2.1] at hext
        exact absurd hext (Nat.lt_irrefl 0)
    unfold allocateNewComputedBlocks Vllm.allocateNewComputedBlocks
    simp only
    rw [h.none]
    exact congrFun (if_pos hc) s
  · rfl

theorem announce_places (hs : Owned s) (hfits : Fits cfg r a s m) (htokens : 0 ≤ a.numNewTokens) :
    ∃ n, m.announce cfg r a numEncoderTokens s = (.ok n, s) ∧
      ((n : Int) ≤ s.1.getNumFreeBlocks → m.PlacesWithin cfg r a numEncoderTokens n s) := by
  cases m with
  | crossAttention blockSize hpos =>
    set m := crossAttention blockSize hpos with hm
    have hnone : hits a = [] := hfits
    have hplace : m.placeHits cfg r a s = (.ok (), s) := by
      unfold placeHits
      split
      · rw [hnone]
        rfl
      · rfl
    have hskip : m.spec.numSkippedBlocks 0 = 0 := Nat.zero_div _
    obtain ⟨n, hrun, hn⟩ := @baseNumBlocksToAllocate_no_hits D _ m.spec r.requestId s 0 0
      (.inr (hskip.trans_le (Nat.zero_le _))) numEncoderTokens
    exact ⟨n, hrun, placesWithin_of_no_hits hs hnone hplace hn⟩
  | ofSpec spec =>
    set total := a.numLocalComputedTokens r + a.numExternalComputedTokens with htotal
    rcases getNumBlocksToAllocate_cases spec 0 r.requestId (a.numTokensNeedSlot r cfg.maxModelLen)
      (hits a) total s with hwait | hrun
    · refine ⟨_, hwait, fun hfree => ?_⟩
      have := hs.inv.length_free_le
      have := hs.inv.count
      omega
    · rcases hfits with hnew | hheld
      · refine ⟨_, hrun.trans (baseNumBlocksToAllocate_uncached 0 hnew.uncached _ _ _),
          placesWithin_of_new hs hnew htokens ?_⟩
        rw [hnew.empty]
        rfl
      · have hcovered : s.2.numCachedBlock.contains (0, r.requestId) = true ∨
            spec.numSkippedBlocks total ≤ (s.2.blocks 0 r.requestId).length := by
          refine hheld.covered.imp_right fun h => numSkippedBlocks_le spec ?_
          rw [htotal, h.2.1]
          exact h.2.2
        obtain ⟨n, hcount, hn⟩ := baseNumBlocksToAllocate_no_hits 0 hcovered
          (a.numTokensNeedSlot r cfg.maxModelLen + spec.blockSize * spec.numSpeculativeBlocks)
        rw [hheld.none] at hrun
        refine ⟨n, ?_, placesWithin_of_no_hits hs hheld.none hheld.placeHits hn⟩
        unfold announce
        rw [hheld.none]
        exact hrun.trans hcount

theorem Fits.trimmed (h : Fits cfg r a s m) (total : Nat) :
    Fits cfg r a (trimmed m.spec 0 r.requestId total s) m := by
  cases m with
  | crossAttention blockSize hpos => exact h
  | ofSpec spec =>
    rcases h with h | h
    · refine .inl ⟨?_, ?_, h.given, ⟨h.cached.once, fun b hb h0 => ?_, h.cached.caching⟩, h.computed,
        h.total⟩
      · have hlen := @length_blocks_trimmed D _ spec 0 r.requestId s total
        rw [h.empty] at hlen
        exact length_eq_zero_iff.mp hlen
      · exact (congrArg (Dict.contains · (0, r.requestId)) (numCachedBlock_trimmed total)).trans
          h.uncached
      · rw [hash_trimmed]
        exact h.cached.hash b hb h0
    · refine .inr ⟨h.none, h.covered.imp (fun hc => ?_) fun hc => ⟨hc.1, hc.2.1, ?_⟩⟩
      · exact (congrArg (Dict.contains · (0, r.requestId)) (numCachedBlock_trimmed total)).trans hc
      · rw [length_blocks_trimmed]
        exact hc.2.2

/-! ## Runs -/

inductive Op (D : Type) where
  | allocateSlots (r : Request D) (a : KVCacheConfig.SlotArgs) (numEncoderTokens : Nat)
  | free (requestId : String)
  | cacheBlocks (r : Request D) (numComputedTokens : Nat)
  | removeSkippedBlocks (requestId : String) (totalComputedTokens : Nat)
  | evictBlocks (blockIds : List Nat)
  | resetPrefixCache
  | newStepStarts

def Op.call (m : GroupManager) (cfg : KVCacheConfig) : Op D → KVCall D Unit
  | allocateSlots r a numEncoderTokens => do let _ ← m.allocateSlots cfg r a numEncoderTokens
  | free requestId => Vllm.free 0 requestId
  | cacheBlocks r numComputedTokens =>
    if cfg.enableCaching then m.cacheBlocks cfg r numComputedTokens else return ()
  | removeSkippedBlocks requestId total => Vllm.removeSkippedBlocks m.spec 0 requestId total
  | evictBlocks blockIds => KVCacheConfig.evictBlocks blockIds
  | resetPrefixCache => do let _ ← KVCacheConfig.resetPrefixCache
  | newStepStarts => KVCacheConfig.newStepStarts

def Op.next (m : GroupManager) (cfg : KVCacheConfig) (op : Op D) (s : KVState D) : KVState D :=
  (op.call m cfg s).2

def Op.Ok (m : GroupManager) (cfg : KVCacheConfig) (s : KVState D) : Op D → Prop
  | allocateSlots r a _ => Fits cfg r a s m ∧ 0 ≤ a.numNewTokens
  | _ => True

def trimmedBy (m : GroupManager) (cfg : KVCacheConfig) (r : Request D) (a : KVCacheConfig.SlotArgs)
    (s : KVState D) : KVState D :=
  trimmed m.spec 0 r.requestId (a.totalComputedTokens r cfg.maxModelLen) s

theorem removeSkipped_run :
    m.removeSkipped cfg r a s = (.ok (), m.trimmedBy cfg r a s) := removeSkippedBlocks_run ..

theorem allocateSlots_cases (hs : Owned s) (hfits : Fits cfg r a s m)
    (htokens : 0 ≤ a.numNewTokens) :
    (∃ e, m.allocateSlots cfg r a numEncoderTokens s = (.error e, s)) ∨
      m.allocateSlots cfg r a numEncoderTokens s = (.ok none, m.trimmedBy cfg r a s) ∨
      ∃ new s' l k, Took 0 r.requestId (m.trimmedBy cfg r a s) s' l k ∧
        m.allocateSlots cfg r a numEncoderTokens s =
          (do m.commit cfg r a; return some new : KVCall D (Option (List Nat))) s' := by
  have ht : Owned (m.trimmedBy cfg r a s) := hs.trimmed _
  obtain ⟨n, hannounce, hplaces⟩ := @announce_places D _ m cfg r a numEncoderTokens _ ht
    (hfits.trimmed _) htokens
  unfold allocateSlots
  by_cases hcheck : a.numNewTokens ≠ 0 ∨ a.numExternalComputedTokens ≠ 0
  · refine .inr ?_
    rw [check_bind (decide_eq_true hcheck), bind_of_ok removeSkipped_run]
    rw [bind_of_ok hannounce, get_bind]
    by_cases hfree : (n : Int) > (m.trimmedBy cfg r a s).1.getNumFreeBlocks
    · exact .inl (congrFun (if_pos hfree) _)
    · obtain ⟨new, s', l, k, hplace, -, htook, -⟩ := hplaces (Int.not_lt.mp hfree)
      refine .inr ⟨new, s', l, k, htook, (congrFun (if_neg hfree) _).trans ?_⟩
      rw [bind_of_ok hplace]
  · exact .inl ⟨_, check_bind_error (decide_eq_false hcheck)⟩

structure Sound (cfg : KVCacheConfig) (s : KVState D) : Prop where
  owned : Owned s
  caching : s.1.enableCaching = cfg.enableCaching

theorem Sound.moves {x : Scope D} {kind : KVMove D → Prop} {t : KVState D} (h : Sound cfg s)
    (hm : Moves cfg x kind s t) : Sound cfg t := ⟨hm.owned h.owned, hm.enableCaching.trans h.caching⟩

section
variable (hone : cfg.groups = [m.spec]) (h : Sound cfg s)
include hone h

theorem Sound.cacheBlocks
    (hc : cfg.enableCaching = true) (n : Nat) : Sound cfg (m.cacheBlocks cfg r n s).2 := by
  cases m with
  | crossAttention blockSize hpos => exact h
  | ofSpec spec =>
    have hg : cfg.groups[0]? = some spec := by rw [hone]; rfl
    have hspec := @cacheBlocksOfGroup_spec D _ cfg { r, cacheTokens := n } spec 0 s h.owned
      (h.caching.trans hc) hg
    exact (hspec.post (fun _ _ ht => h.moves ht) fun _ _ ht => h.moves ht).snd rfl

theorem Sound.commit : Sound cfg (m.commit cfg r a s).2 := by
  unfold GroupManager.commit
  split
  · exact h
  · next hc => exact h.cacheBlocks hone (by simp at hc; exact hc.1) _

theorem Sound.allocateSlots (hfits : Fits cfg r a s m) (htokens : 0 ≤ a.numNewTokens) :
    Sound cfg (m.allocateSlots cfg r a numEncoderTokens s).2 := by
  have ht : Sound cfg (m.trimmedBy cfg r a s) := by
    have hg : cfg.groups[0]? = some m.spec := by rw [hone]; rfl
    exact h.moves (.trimmed (x := a.scope cfg r) hg s)
  rcases allocateSlots_cases h.owned hfits htokens with ⟨e, he⟩ | hnone | ⟨new, s', l, k, htook, hrun⟩
  · rw [he]
    exact h
  · rw [hnone]
    exact ht
  · rw [hrun]
    have hplaced : Sound cfg s' := ⟨htook.owned, htook.caching.trans ht.caching⟩
    have hcommit : Sound cfg (m.commit cfg r a s').2 := hplaced.commit hone
    rw [run_bind]
    rcases hc : m.commit cfg r a s' with ⟨e | u, t⟩ <;> rw [hc] at hcommit <;> exact hcommit

theorem Sound.op {op : Op D} (hok : op.Ok m cfg s) : Sound cfg (op.next m cfg s) := by
  cases op with
  | allocateSlots r a numEncoderTokens =>
    have hcall : Sound cfg (m.allocateSlots cfg r a numEncoderTokens s).2 :=
      h.allocateSlots hone hok.1 hok.2
    simp only [Op.next, Op.call, run_bind]
    rcases hc : m.allocateSlots cfg r a numEncoderTokens s with ⟨e | res, t⟩ <;> rw [hc] at hcall <;>
      exact hcall
  | free id =>
    rw [Op.next, Op.call, free_run]
    have hok : (KVMove.release 0 id : KVMove D).Ok cfg (Scope.ofId id 0) s := rfl
    exact ⟨h.owned.next hok, ((KVMove.release 0 id).enableCaching_next s).trans h.caching⟩
  | cacheBlocks r n =>
    unfold Op.next Op.call
    split
    · next hc => exact h.cacheBlocks hone hc n
    · exact h
  | removeSkippedBlocks id n =>
    have hg : cfg.groups[0]? = some m.spec := by rw [hone]; rfl
    rw [Op.next, Op.call, removeSkippedBlocks_run]
    exact h.moves (.trimmed (x := Scope.ofId id n) hg s)
  | evictBlocks blockIds =>
    exact ((evictBlocks_spec (x := Scope.ofId "" 0) blockIds s).post
      (fun _ _ ht => h.moves ht) fun _ _ ht => h.moves ht).snd rfl
  | resetPrefixCache =>
    have hreset := (resetPrefixCache_spec (x := Scope.ofId "" 0) s).post
      (fun _ _ ht => h.moves ht) fun _ _ ht => h.moves ht
    exact (Triple.bind hreset fun _ => Triple.pure () fun _ ht => ht).snd rfl
  | newStepStarts =>
    have hok : (KVMove.mark [] : KVMove D).Ok cfg (Scope.ofId "" 0) s := trivial
    exact ⟨h.owned.next hok, h.caching⟩

end

/-! ## The result -/

structure OnlySkipped (m : GroupManager) (cfg : KVCacheConfig) (r : Request D)
    (a : KVCacheConfig.SlotArgs) (s s' : KVState D) : Prop where
  others : ∀ g id, (g, id) ≠ (0, r.requestId) → s'.2.blocks g id = s.2.blocks g id
  cached : s'.2.numCachedBlock = s.2.numCachedBlock
  marked : s'.2.cachedBlocksThisStep = s.2.cachedBlocksThisStep
  skipped : ∃ lo hi, lo ≤ hi ∧ hi ≤ m.spec.numSkippedBlocks
      (a.totalComputedTokens r cfg.maxModelLen - m.spec.numSpeculativeBlocks) ∧
    s'.2.blocks 0 r.requestId = nulled (s.2.blocks 0 r.requestId) lo hi ∧
    s'.1 = s.1.freed (removed (s.2.blocks 0 r.requestId) lo hi)

theorem onlySkipped_trimmedBy : OnlySkipped m cfg r a s (m.trimmedBy cfg r a s) := by
  unfold trimmedBy
  rcases trimmed_cases m.spec 0 r.requestId (a.totalComputedTokens r cfg.maxModelLen) s with
    h | ⟨lo, hi, hle, -, hskip, h⟩
  · rw [h]
    exact ⟨fun _ _ _ => rfl, rfl, rfl, 0, 0, Nat.le_refl 0, Nat.zero_le _, by simp [nulled],
      by simp [removed]⟩
  · rw [h]
    have hblocks := blocks_enter 0 r.requestId s
    refine ⟨fun g id hne => ?_, rfl, rfl, lo, hi, hle, hskip, ?_, ?_⟩
    · refine ((replaced_setBlocks _ 0 r.requestId _).blocks g id).trans ?_
      rw [if_neg hne]
      exact ((replaced_setBlocks _ 0 r.requestId _).blocks g id).trans (if_neg hne)
    · refine (blocks_setBlocks_self ..).trans ?_
      exact congrArg (nulled · lo hi) hblocks
    · exact congrArg (fun l => s.1.freed (removed l lo hi)) hblocks

/-- What a call of `allocate_slots` announces is enough to place its blocks, and `None` leaves all
but skipped blocks alone. -/
structure AsAnnounced (m : GroupManager) (cfg : KVCacheConfig) (r : Request D)
    (a : KVCacheConfig.SlotArgs) (numEncoderTokens : Nat) (s : KVState D) : Prop where
  counted : ∃ n t, m.removeSkipped cfg r a s = (.ok (), t) ∧
    m.announce cfg r a numEncoderTokens t = (.ok n, t) ∧
    ((n : Int) ≤ t.1.getNumFreeBlocks → ∃ new t',
      m.place cfg r a numEncoderTokens t = (.ok new, t') ∧
      t.1.getNumFreeBlocks ≤ t'.1.getNumFreeBlocks + n ∧
      cdiv (m.slotTokens (a.numTokensNeedSlot r cfg.maxModelLen) numEncoderTokens)
        m.spec.blockSize ≤ (t'.2.blocks 0 r.requestId).length ∧
      (hits a ≠ [] → List.replicate (m.spec.numSkippedBlocks (a.numLocalComputedTokens r +
          a.numExternalComputedTokens)) 0 ++ keptHits m.spec (hits a) (a.numLocalComputedTokens r +
          a.numExternalComputedTokens) <+: t'.2.blocks 0 r.requestId))
  refused : ∀ s', m.allocateSlots cfg r a numEncoderTokens s = (.ok none, s') →
    OnlySkipped m cfg r a s s'

theorem Sound.asAnnounced (h : Sound cfg s) (hfits : Fits cfg r a s m)
    (htokens : 0 ≤ a.numNewTokens) : AsAnnounced m cfg r a numEncoderTokens s where
  counted := by
    obtain ⟨n, hannounce, hplaces⟩ := @announce_places D _ m cfg r a numEncoderTokens
      (m.trimmedBy cfg r a s) (h.owned.trimmed _) (hfits.trimmed _) htokens
    refine ⟨n, m.trimmedBy cfg r a s, removeSkipped_run, hannounce, fun hfree => ?_⟩
    obtain ⟨new, t', l, k, hplace, hk, htook, hlen, -, hhits⟩ := hplaces hfree
    have hnum := htook.free
    exact ⟨new, t', hplace, by omega, htook.blocks ▸ hlen, htook.blocks ▸ hhits⟩
  refused s' hcall := by
    rcases allocateSlots_cases h.owned hfits htokens with
      ⟨e, he⟩ | hnone | ⟨new, t, l, k, -, hrun⟩
    · cases he.symm.trans hcall
    · cases hnone.symm.trans hcall
      exact onlySkipped_trimmedBy
    · obtain ⟨_, _, -, hnew⟩ := bind_eq_ok.mp (hrun.symm.trans hcall)
      cases (pure_eq_ok.mp hnew).1

/-- One group with any of the managers: in every state between calls, for every call that a scheduler
makes, what is announced is enough. -/
theorem asAnnounced_of_run (hone : cfg.groups = [m.spec])
    (run : Run (Op.next m cfg) (fun op s => op.Ok m cfg s) cfg.init s) (r : Request D)
    (a : KVCacheConfig.SlotArgs) (numEncoderTokens : Nat) (hfits : Fits cfg r a s m)
    (htokens : 0 ≤ a.numNewTokens) : AsAnnounced m cfg r a numEncoderTokens s := by
  have hsound : Sound cfg s :=
    run.inv ⟨owned_init cfg, rfl⟩ fun op s hs hok => hs.op hone hok
  exact hsound.asAnnounced hfits htokens

theorem asAnnounced_of_run_oneHit :
    let m := ofSpec { blockSize := 2, attention := .fullAttention }
    let s := [Op.allocateSlots (textRequest "a" [1, 2, 3]) { numNewTokens := 3 } 0,
      .free "a"].foldl (fun s op => op.next m oneFullGroup s) oneFullGroup.init
    let a : KVCacheConfig.SlotArgs :=
      { numNewTokens := 1, numNewComputedTokens := 2, newComputedBlocks := some [[1]] }
    s.1.free = [3, 2, 1] ∧ AsAnnounced m oneFullGroup (textRequest "b" [1, 2, 9]) a 0 s := by
  intro m s a
  have hrun : Run (Op.next m oneFullGroup) (fun op s => op.Ok m oneFullGroup s)
      oneFullGroup.init s :=
    (Run.refl.step _ ⟨.inr ⟨rfl, .inr ⟨rfl, rfl, Nat.zero_le _⟩⟩, by decide⟩).step _ trivial
  have hhits : HitsCached s.1 true [1] :=
    ⟨by decide, by decide +kernel, .inl rfl⟩
  refine ⟨by decide +kernel, asAnnounced_of_run rfl hrun _ a 0 (.inl ?_) (by decide)⟩
  exact ⟨by decide +kernel, by decide +kernel, .inl rfl, hhits, by decide, by decide⟩

def oneCrossGroup : KVCacheConfig where
  groups := [(crossAttention 2 Nat.two_pos).spec]
  hashBlockSize := 2
  numBlocks := 4
  maxModelLen := 8
  hashBlockSize_pos := Nat.two_pos
  numBlocks_pos := oneFullGroup.numBlocks_pos
  enableCaching := false

def oneBlock : KVCacheConfig := fullGroup 1 2

/-- Cross attention has blocks for the encoder's tokens only; and external tokens beyond the longest
sequence get more blocks than were announced. -/
theorem fewer_blocks_than_tokens :
    (let m := crossAttention 2 (by decide)
      let a : KVCacheConfig.SlotArgs := { numNewTokens := 3 }
      let r := textRequest "a" [1, 2, 3]
      let (res, s) := m.place oneCrossGroup r a 1 oneCrossGroup.init
      Fits oneCrossGroup r a oneCrossGroup.init m ∧
        (m.announce oneCrossGroup r a 1 oneCrossGroup.init).1 = .ok 1 ∧
        (oneCrossGroup.init : KVState HashTerm).1.getNumFreeBlocks = 3 ∧ res = .ok [1] ∧
        (s.2.blocks 0 "a").length < cdiv (a.numTokensNeedSlot r oneCrossGroup.maxModelLen) 2) ∧
    (let m := ofSpec { blockSize := 2, attention := .fullAttention }
      let a : KVCacheConfig.SlotArgs := { numNewTokens := 1, numExternalComputedTokens := 4 }
      let r := textRequest "a" [1, 2]
      (m.announce oneBlock r a 0 oneBlock.init).1 = .ok 1 ∧
        (oneBlock.init : KVState HashTerm).1.getNumFreeBlocks = 1 ∧
        (m.place oneBlock r a 0 oneBlock.init).1 =
          .error (.valueError "Cannot get 2 free blocks from the pool")) := by
  refine ⟨⟨rfl, rfl, rfl, rfl, by decide +kernel⟩, rfl, rfl, rfl⟩

end GroupManager
end Vllm
