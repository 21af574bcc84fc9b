import Vllm.Core.ManagerCalls
import Vllm.Core.Session

/-! Runs of the KV cache manager: the calls a scheduler makes, in any order, from an empty pool. -/

set_option linter.unusedSectionVars false

namespace Vllm
open Base BlockPool List KVCacheConfig Triple KVMove
variable {D : Type} [DecidableEq D] {cfg : KVCacheConfig} {x : Scope D}

/-! ## What a move does to lists and hashes -/

variable {m : KVMove D} {s : KVState D} {b g n : Nat} {spec : KVCacheSpec} {blockHashes : List D}
  {r : Request D}

theorem KVMove.hash_next (hs : Owned s) (hok : m.Ok cfg x s) {key : BlockKey D}
    (h : (m.next s).1.hash b = some key) :
    s.1.hash b = some key ∨ ∃ g i, m = publish g x.r.requestId i key ∧
      (s.2.blocks g x.r.requestId)[i]? = some b := by
  obtain ⟨p, t⟩ := s
  cases m with
  | enter g id | setCached g id n | mark marks => exact .inl h
  | shrink g id lo hi | release g id => exact .inl ((hash_freed p _ b).symm.trans h)
  | adopt g id skipped hits => exact .inl (((touched_frame p hits).1 b).symm.trans h)
  | grow g id n =>
    have hout := (hs.inv.handedOut hok.2).hash b
    rw [show (p.handedOut n).hash b = some key from h] at hout
    split at hout
    · cases hout
    · exact .inl hout.symm
  | publish g id i key' =>
    obtain ⟨rfl, -, ⟨c, hc, -, -⟩, -⟩ := hok
    have hget : (t.blocks g x.r.requestId).getD i 0 = c := by
      rw [getD_eq_getElem?_getD]
      rw [hc]
      rfl
    simp only [KVMove.next, hget, BlockPool.publish, hash_setHash, hash_setCache] at h
    split at h
    · next hbc =>
      cases h
      exact .inr ⟨g, i, rfl, hbc ▸ hc⟩
    · exact .inl h
  | evict c =>
    have hdrop := hs.inv.hash_dropHash c b
    rw [show (p.dropHash c).hash b = some key from h] at hdrop
    split at hdrop
    · cases hdrop
    · exact .inl hdrop.symm
  | reset => cases h

theorem KVMove.mem_blocks_next {id : String} (h : b ∈ (m.next s).2.blocks g id) (h0 : b ≠ 0) :
    b ∈ s.2.blocks g id ∨
      (∃ skipped hits, m = adopt g id skipped hits ∧ b ∈ hits) ∨
      ∃ n, m = grow g id n ∧ b ∈ s.1.free.take n := by
  obtain ⟨p, t⟩ := s
  have hset : ∀ {g' id' l}, b ∈ (t.setBlocks g' id' l).blocks g id →
      b ∈ t.blocks g id ∨ (g', id') = (g, id) ∧ b ∈ l := by
    intro g' id' l hb
    rw [(replaced_setBlocks t g' id' l).blocks] at hb
    split at hb
    · next heq => exact .inr ⟨heq.symm, hb⟩
    · exact .inl hb
  cases m with
  | enter g' id' =>
    rcases hset h with h | ⟨heq, h⟩
    · exact .inl h
    · cases heq
      exact .inl h
  | shrink g' id' lo hi =>
    rcases hset h with h | ⟨heq, h⟩
    · exact .inl h
    · cases heq
      exact .inl ((mem_nulled h).resolve_left h0)
  | adopt g' id' skipped hits =>
    have hadopt : b ∈ (t.setBlocks g' id' (List.replicate skipped 0 ++ hits)).blocks g id := h
    rcases hset hadopt with hold | ⟨heq, hnew⟩
    · exact .inl hold
    · cases heq
      rcases mem_append.mp hnew with hnull | hhit
      · exact absurd (eq_of_mem_replicate hnull) h0
      · exact .inr (.inl ⟨skipped, hits, rfl, hhit⟩)
  | grow g' id' n =>
    rcases hset h with h | ⟨heq, h⟩
    · exact .inl h
    · cases heq
      rcases mem_append.mp h with h | h
      · exact .inl h
      · exact .inr (.inr ⟨n, rfl, h⟩)
  | release g' id' =>
    have hdrop : b ∈ (t.drop g' id').blocks g id := h
    rw [(replaced_drop t g' id').blocks] at hdrop
    split at hdrop
    · cases hdrop
    · exact .inl hdrop
  | publish g' id' i key | setCached g' id' n | evict c | reset | mark marks => exact .inl h

/-! ## The invariant of a manager -/

/-- Keys are as long as the blocks of their group, and blocks stay in one group. -/
structure Managed (cfg : KVCacheConfig) (s : KVState D) : Prop where
  owned : Owned s
  caching : s.1.enableCaching = cfg.enableCaching
  keyed : ∀ b key, s.1.hash b = some key →
    ∃ spec, cfg.groups[key.2]? = some spec ∧ key.1.length = cfg.scaleFactor spec
  hashGroup : ∀ g id, ∀ b ∈ s.2.blocks g id, ∀ key, s.1.hash b = some key → key.2 = g
  oneGroup : ∀ g id g' id' b, b ∈ s.2.blocks g id → b ∈ s.2.blocks g' id' → b ≠ 0 → g = g'

theorem managed_init : Managed cfg (cfg.init : KVState D) where
  owned := owned_init cfg
  caching := rfl
  keyed := by simp [init, BlockPool.new, BlockPool.hash]
  hashGroup := by simp [init, Tables.blocks]
  oneGroup := by simp [init, Tables.blocks]

variable {i : Nat}

theorem length_blockKey (hi : i < cfg.numKeys spec blockHashes) :
    (cfg.blockKey spec blockHashes i).length = cfg.scaleFactor spec := by
  have hle : (i + 1) * cfg.scaleFactor spec ≤ blockHashes.length :=
    (Nat.mul_le_mul_right _ hi).trans (Nat.div_mul_le_self _ _)
  rw [Nat.add_mul] at hle
  rw [blockKey, length_take, length_drop]
  omega

theorem Managed.next (h : Managed cfg s) (hok : m.Ok cfg x s) : Managed cfg (m.next s) := by
  have hs := h.owned
  -- a new block in a list is in no other list and has no hash, a hit has a hash of the group
  have hnew : ∀ {g id n b}, m = .grow g id n → b ∈ s.1.free.take n →
      (m.next s).1.hash b = none ∧ ∀ g' id', b ∉ s.2.blocks g' id' := by
    rintro g id n b rfl hb
    have hspec := hs.inv.free_spec b (mem_of_mem_take hb)
    refine ⟨?_, fun g' id' hm => ?_⟩
    · refine ((hs.inv.handedOut hok.2).hash b).trans ?_
      by_cases hc : s.1.enableCaching = true
      · rw [if_pos ⟨hc, hb⟩]
      · rw [if_neg fun h => hc h.1]
        exact hs.uncached (by simpa using hc) b
    · have := hs.refCnt_pos hm hspec.2.2
      omega
  have hhit : ∀ {g id skipped hits b}, m = .adopt g id skipped hits → b ∈ hits → b ≠ 0 →
      ∃ key, s.1.hash b = some key ∧ key.2 = g := by
    rintro g id skipped hits b rfl hb h0
    obtain ⟨-, -, -, spec, -, hhash⟩ := hok
    obtain ⟨j, hj⟩ := mem_iff_getElem?.mp hb
    exact ⟨_, hhash j b hj h0, rfl⟩
  have hhash : ∀ {b key}, (m.next s).1.hash b = some key → b ≠ 0 := fun {b key} hb h0 =>
    ((hs.next hok).inv.hash_lt b (by rw [hb]; exact Option.some_ne_none _)).2 h0
  refine ⟨hs.next hok, (m.enableCaching_next s).trans h.caching, fun b key hb => ?_,
    fun g id b hb key hkey => ?_, fun g id g' id' b hb hb' h0 => ?_⟩
  · rcases hash_next hs hok hb with hb | ⟨g, i, rfl, -⟩
    · exact h.keyed b key hb
    · obtain ⟨-, -, -, spec, hg, -, hi, rfl⟩ := hok
      exact ⟨spec, hg, length_blockKey hi⟩
  · rcases hash_next hs hok hkey with hold | ⟨g', i, rfl, hi⟩
    · rcases mem_blocks_next hb (hhash hkey) with hb | ⟨skipped, hits, hm, hb⟩ | ⟨n, hm, hb⟩
      · exact h.hashGroup g id b hb key hold
      · obtain ⟨key', hk, hg⟩ := hhit hm hb (hhash hkey)
        cases hk.symm.trans hold
        exact hg
      · rw [(hnew hm hb).1] at hkey
        cases hkey
    · have h0 := hhash hkey
      obtain ⟨-, -, -, spec, -, -, -, rfl⟩ := hok
      rcases mem_blocks_next hb h0 with hb | ⟨_, _, hm, -⟩ | ⟨_, hm, -⟩
      · exact h.oneGroup g' _ g id b (mem_of_getElem? hi) hb h0
      · cases hm
      · cases hm
  · rcases mem_blocks_next hb h0 with hl | ⟨skipped, hits, hm, hl⟩ | ⟨n, hm, hl⟩ <;>
      rcases mem_blocks_next hb' h0 with hr | ⟨skipped', hits', hm', hr⟩ | ⟨n', hm', hr⟩
    · exact h.oneGroup g id g' id' b hl hr h0
    · obtain ⟨key, hk, hg⟩ := hhit hm' hr h0
      exact (h.hashGroup g id b hl key hk).symm.trans hg
    · exact absurd hl ((hnew hm' hr).2 g id)
    · obtain ⟨key, hk, hg⟩ := hhit hm hl h0
      exact hg.symm.trans (h.hashGroup g' id' b hr key hk)
    · cases hm.symm.trans hm'
      rfl
    · cases hm.symm.trans hm'
    · exact absurd hr ((hnew hm hl).2 g' id')
    · cases hm.symm.trans hm'
    · cases hm.symm.trans hm'
      rfl

variable {t : KVState D}

theorem Managed.moves {kind : KVMove D → Prop} (h : Managed cfg s)
    (hm : Moves cfg x kind s t) : Managed cfg t :=
  hm.inv h fun _ _ ht hok => ht.next hok.2

theorem Managed.slotsRun (h : Managed cfg s) (hm : SlotsRun cfg x s t) : Managed cfg t := by
  obtain ⟨u, v, htrims, hadds, hcommits⟩ := hm
  exact ((h.moves htrims).moves hadds).moves hcommits

/-! ## The operations -/

structure Admission (D : Type) where
  r : Request D
  skipReadingPrefixCache : Bool := false
  numNewTokens : Nat
  numLookaheadTokens : Nat := 0
  numExternalComputedTokens : Nat := 0
  delayCacheBlocks : Bool := false

def Admission.slotArgs (ad : Admission D) (hits : Option (List (List Nat))) (n : Nat) :
    KVCacheConfig.SlotArgs where
  numNewTokens := ad.numNewTokens
  numNewComputedTokens := n
  newComputedBlocks := hits
  numLookaheadTokens := ad.numLookaheadTokens
  numExternalComputedTokens := ad.numExternalComputedTokens
  delayCacheBlocks := ad.delayCacheBlocks

def KVCacheConfig.arrive (cfg : KVCacheConfig) (ad : Admission D) :
    KVCall D (Option (Option (List (List Nat)))) := do
  let (hits, n) ← cfg.getComputedBlocks ad.r ad.skipReadingPrefixCache
  cfg.allocateSlots ad.r (ad.slotArgs hits n)

inductive KVOp (D : Type) where
  | getComputedBlocks (r : Request D) (skipReadingPrefixCache : Bool)
  | arrive (ad : Admission D)
  | allocate (r : Request D) (numNewTokens numLookaheadTokens : Nat)
  | free (requestId : String)
  | cacheBlocks (r : Request D) (numComputedTokens : Nat)
  | removeSkippedBlocks (requestId : String) (totalComputedTokens : Nat)
  | evictBlocks (blockIds : List Nat)
  | resetPrefixCache
  | newStepStarts

def KVOp.call (cfg : KVCacheConfig) : KVOp D → KVCall D Unit
  | getComputedBlocks r skip => do let _ ← cfg.getComputedBlocks r skip
  | arrive ad => do let _ ← cfg.arrive ad
  | allocate r numNewTokens numLookaheadTokens => do
    let _ ← cfg.allocateSlots r { numNewTokens, numLookaheadTokens }
  | free requestId => cfg.free requestId
  | cacheBlocks r numComputedTokens => cfg.cacheBlocks r numComputedTokens
  | removeSkippedBlocks requestId total => cfg.removeSkippedBlocks requestId total
  | evictBlocks blockIds => KVCacheConfig.evictBlocks blockIds
  | resetPrefixCache => do let _ ← KVCacheConfig.resetPrefixCache
  | newStepStarts => KVCacheConfig.newStepStarts

def KVOp.next (cfg : KVCacheConfig) (op : KVOp D) (s : KVState D) : KVState D := (op.call cfg s).2

def KVOp.Made (H : BlockHasher D) : KVOp D → Prop
  | arrive ad => ad.r.Made H
  | _ => True

/-! ### What the lookup finds -/

/-- The blocks of a lookup are cached under the keys of their places, and with one group they hold
no more than the tokens found. -/
structure LookedUp (cfg : KVCacheConfig) (p : BlockPool (BlockKey D)) (blockHashes : List D)
    (hits : List (List Nat)) (n : Nat) : Prop where
  cached : ∀ g spec, cfg.groups[g]? = some spec → ∀ i b, (hits.getD g [])[i]? = some b → b ≠ 0 →
    p.cachedBlockHashToBlock.getOneBlock (cfg.blockKey spec blockHashes i, g) = some b
  unitary : ∀ spec, cfg.groups = [spec] → (hits.getD 0 []).length * spec.blockSize ≤ n

theorem lookedUp_nil (p : BlockPool (BlockKey D)) (blockHashes : List D) (n : Nat) :
    LookedUp cfg p blockHashes [] n := ⟨by simp, by simp⟩

variable {hits : List (List Nat)}

theorem lookedUp_of_find {p : BlockPool (BlockKey D)} {maxLength : Nat}
    (h : cfg.findLongestCacheHit p blockHashes maxLength = .ok (hits, n)) :
    LookedUp cfg p blockHashes hits n := by
  refine ⟨(findLongestCacheHit_isHit h).1.cached, fun spec hspec => ?_⟩
  unfold findLongestCacheHit at h
  rw [hspec] at h
  split at h
  · unfold unitaryHit at h
    obtain ⟨rows, -, h⟩ := except_bind_eq_ok.mp h
    cases h
    simp
  · cases h
    simp

theorem getComputedBlocks_spec (r : Request D) (skip : Bool) (s₀ : KVState D) :
    Triple (· = s₀) (cfg.getComputedBlocks r skip)
      (fun res s => s = s₀ ∧ LookedUp cfg s₀.1 r.blockHashes (res.1.getD []) res.2)
      (fun _ s => s = s₀) := by
  unfold getComputedBlocks
  refine .bind_get (.ite (fun _ => .of_ok rfl ⟨rfl, lookedUp_nil ..⟩) fun _ => ?_)
  rcases hf : cfg.findLongestCacheHit s₀.1 r.blockHashes (r.numTokens - 1) with e | ⟨blocks, n⟩
  · exact .of_error rfl rfl
  · refine .of_ok rfl ⟨rfl, ?_⟩
    unfold createKvCacheBlocks
    split
    · exact lookedUp_of_find hf
    · exact lookedUp_nil ..

theorem scaleFactor_pos (hc : cfg.enableCaching = true) (hg : cfg.groups[g]? = some spec) :
    0 < cfg.scaleFactor spec :=
  Nat.div_pos (Nat.le_of_dvd spec.blockSize_pos
    (cfg.hashBlockSize_dvd hc spec (mem_of_getElem? hg))) cfg.hashBlockSize_pos

theorem blockKey_inj (hnd : blockHashes.Nodup) (hpos : 0 < cfg.scaleFactor spec) {j : Nat}
    (hi : (cfg.blockKey spec blockHashes i).length = cfg.scaleFactor spec)
    (h : cfg.blockKey spec blockHashes i = cfg.blockKey spec blockHashes j) : i = j := by
  have hj := h ▸ hi
  unfold blockKey at h hi hj
  set f := cfg.scaleFactor spec with hf
  have hfirst := congrArg (·[0]?) h
  simp only [getElem?_take_of_lt hpos, getElem?_drop, Nat.add_zero] at hfirst
  rw [length_take, length_drop] at hi hj
  have hlt : i * f < blockHashes.length := by omega
  have hlt' : j * f < blockHashes.length := by omega
  rw [getElem?_eq_getElem hlt, getElem?_eq_getElem hlt', Option.some.injEq] at hfirst
  exact Nat.eq_of_mul_eq_mul_right hpos ((hnd.getElem_inj_iff).mp hfirst)

theorem count_eq_one_of_index {l : List Nat} (hb : b ∈ l)
    (h : ∀ i j : Nat, l[i]? = some b → l[j]? = some b → i = j) : l.count b = 1 := by
  induction l with
  | nil => cases hb
  | cons a l ih =>
    by_cases hab : a = b
    · subst hab
      have hnot : a ∉ l := fun hm => by
        obtain ⟨k, hk⟩ := mem_iff_getElem?.mp hm
        cases h 0 (k + 1) rfl hk
      rw [count_cons_self, count_eq_zero_of_not_mem hnot]
    · have hmem : b ∈ l := (mem_cons.mp hb).resolve_left fun e => hab e.symm
      rw [count_cons_of_ne hab]
      exact ih hmem fun i j hi hj => Nat.succ.inj (h (i + 1) (j + 1) hi hj)

theorem Managed.hitsHold (h : Managed cfg s) (hnd : r.blockHashes.Nodup)
    (hl : LookedUp cfg s.1 r.blockHashes hits n) (hg : cfg.groups[g]? = some spec) (total : Nat) :
    HitsHold cfg r spec g s.1 (spec.numSkippedBlocks total)
      (keptHits spec (hits.getD g []) total) := by
  have hhash : ∀ j b, (keptHits spec (hits.getD g []) total)[j]? = some b → b ≠ 0 →
      s.1.hash b = some (cfg.blockKey spec r.blockHashes (spec.numSkippedBlocks total + j), g) := by
    intro j b hj h0
    rw [keptHits, getElem?_drop] at hj
    exact (h.owned.inv.hash_iff b _).mpr
      (BlockHashToBlockMap.holds_of_getOneBlock (hl.cached g spec hg _ b hj h0))
  refine ⟨fun b hb h0 => ?_, hhash⟩
  refine count_eq_one_of_index hb fun i j hi hj => ?_
  have hki := hhash i b hi h0
  have hkj := hhash j b hj h0
  obtain ⟨spec', hg', hlen⟩ := h.keyed b _ hki
  cases hg.symm.trans hg'
  -- a hashed block says that caching is on
  have hc : cfg.enableCaching = true := by
    rw [← h.caching]
    by_contra hoff
    have := h.owned.uncached (by simpa using hoff) b
    cases this.symm.trans hki
  have hkey := congrArg Prod.fst (Option.some.inj (hki.symm.trans hkj))
  exact Nat.add_left_cancel (blockKey_inj hnd (scaleFactor_pos hc hg) hlen hkey)

/-! ### Every operation keeps the invariant -/

variable {a : KVCacheConfig.SlotArgs}

theorem hitsOk_of_no_hits (r : Request D) (s : KVState D)
    (hn : a.newComputedBlocks = none) (hx : a.numExternalComputedTokens = 0) : HitsOk cfg r a s := by
  have hhits : ∀ g, a.hits.getD g [] = [] := by simp [KVCacheConfig.SlotArgs.hits, hn]
  refine ⟨⟨fun e _ hpos => ?_, fun e _ => ⟨?_, ?_⟩⟩, fun t _ => ?_⟩
  · simp [hx, externalTokens] at hpos
  · rw [keptHits, hhits]
    simp
  · rw [keptHits, hhits]
    simp
  · rw [hx]
    exact hitsSurvive_of_no_external ..

theorem Managed.allocateSlots (h : Managed cfg s) (hok : HitsOk cfg r a s) :
    Triple (fun t => t = s) (cfg.allocateSlots r a)
      (fun res t => SlotsResult cfg r a s t res ∧ Managed cfg t) (fun _ t => Managed cfg t) := by
  refine (allocateSlots_spec h.owned h.caching hok).post
    (fun res t ht => ⟨ht, ?_⟩) fun _ t ht => h.slotsRun ht
  cases res with
  | none => exact h.moves ht
  | some res =>
    obtain ⟨u, v, hdone⟩ := ht
    exact h.slotsRun ⟨u, v, hdone.trims, hdone.adds, hdone.commits⟩

def AdmitOk (cfg : KVCacheConfig) (ad : Admission D) (s : KVState D) : Prop :=
  ∀ hits n, (cfg.getComputedBlocks ad.r ad.skipReadingPrefixCache s).1 = .ok (hits, n) →
    HitsOk cfg ad.r (ad.slotArgs hits n) s

variable {ad : Admission D}

theorem Managed.arrive (h : Managed cfg s) (hok : AdmitOk cfg ad s) :
    Triple (fun t => t = s) (cfg.arrive ad)
      (fun res t => Managed cfg t ∧ ∃ hits n,
        (cfg.getComputedBlocks ad.r ad.skipReadingPrefixCache s).1 = .ok (hits, n) ∧
          SlotsResult cfg ad.r (ad.slotArgs hits n) s t res)
      (fun _ t => Managed cfg t) := by
  unfold KVCacheConfig.arrive
  have hlook := @getComputedBlocks_spec D _ cfg ad.r ad.skipReadingPrefixCache s
  rcases hcall : cfg.getComputedBlocks ad.r ad.skipReadingPrefixCache s with ⟨e | ⟨hits, n⟩, t⟩
  · exact .bind_error hcall (hlook.error rfl hcall ▸ h)
  · obtain ⟨rfl, -⟩ := hlook.ok rfl hcall
    have hres : (cfg.getComputedBlocks ad.r ad.skipReadingPrefixCache t).1 = .ok (hits, n) := by
      rw [hcall]
    exact .bind_run hcall ((h.allocateSlots (hok hits n hres)).mapOk
      fun _ _ ht => ⟨ht.2, hits, n, rfl, ht.1⟩)

theorem lookedUp_of_call {skip : Bool} {hits : Option (List (List Nat))}
    (h : (cfg.getComputedBlocks r skip s).1 = .ok (hits, n)) :
    LookedUp cfg s.1 r.blockHashes (hits.getD []) n := by
  have hcall : cfg.getComputedBlocks r skip s = (.ok (hits, n), (cfg.getComputedBlocks r skip s).2) :=
    Prod.ext h rfl
  exact ((getComputedBlocks_spec r skip s).ok rfl hcall).2

def Scope.ofId (id : String) (skipTokens : Nat) : Scope D where
  r := { requestId := id, promptTokenIds := none, numPromptTokens := 0, allTokenIds := [] }
  skipTokens := skipTokens

theorem Managed.free (h : Managed cfg s) (id : String) :
    Triple (fun t => t = s) (cfg.free id) (fun _ t => Managed cfg t) (fun _ t => Managed cfg t) := by
  refine (forEach_inv (I := Managed cfg) _ fun e _ => of_forall fun t ht => ?_).pre
    fun _ ht => ht ▸ h
  exact of_ok (free_run e.2 id t)
    (ht.next (m := .release e.2 id) (x := Scope.ofId id 0) rfl)

theorem evictBlocks_spec (blockIds : List Nat) (s₀ : KVState D) :
    Triple (· = s₀) (KVCacheConfig.evictBlocks blockIds)
      (fun _ s => Moves cfg x (fun _ => True) s₀ s) (fun _ s => Moves cfg x (fun _ => True) s₀ s) := by
  refine (forEach_inv (I := fun s => Moves cfg x (fun _ => True) s₀ s) _
    fun b _ => of_forall fun s hs => ?_).pre fun _ hs => hs ▸ .refl
  refine bind_get (bind_check (fun _ => ?_) fun _ => hs)
  obtain ⟨c, hc⟩ := maybeEvictCachedBlock_eq s.1 b s.2
  have hevict : Moves cfg x (fun _ => True) s₀ ((evict b).next s) :=
    hs.step (evict b) ⟨trivial, trivial⟩
  exact bind_run hc (of_ok rfl hevict)

theorem resetPrefixCache_spec (s₀ : KVState D) :
    Triple (· = s₀) KVCacheConfig.resetPrefixCache
      (fun _ s => Moves cfg x (fun _ => True) s₀ s) (fun _ s => Moves cfg x (fun _ => True) s₀ s) := by
  unfold KVCacheConfig.resetPrefixCache BlockPool.resetPrefixCache
  refine .bind_get (.ite (fun _ => .of_ok rfl .refl) fun _ => ?_)
  have hreset : Moves cfg x (fun _ => True) s₀ (reset.next s₀) :=
    .single ⟨trivial, trivial⟩
  exact .bind_modify (.of_ok rfl hreset)

theorem Managed.evictBlocks (h : Managed cfg s) (blockIds : List Nat) :
    Triple (fun t => t = s) (KVCacheConfig.evictBlocks blockIds) (fun _ t => Managed cfg t)
      (fun _ t => Managed cfg t) :=
  (evictBlocks_spec (x := Scope.ofId "" 0) blockIds s).post
    (fun _ _ ht => h.moves ht) fun _ _ ht => h.moves ht

theorem Managed.resetPrefixCache {s : KVState D} (h : Managed cfg s) :
    Triple (fun t => t = s) KVCacheConfig.resetPrefixCache (fun _ t => Managed cfg t)
      (fun _ t => Managed cfg t) :=
  (resetPrefixCache_spec (x := Scope.ofId "" 0) s).post
    (fun _ _ ht => h.moves ht) fun _ _ ht => h.moves ht

theorem Managed.cacheBlocks (h : Managed cfg s) (r : Request D) (n : Nat) :
    Triple (fun t => t = s) (cfg.cacheBlocks r n) (fun _ t => Managed cfg t)
      (fun _ t => Managed cfg t) := by
  unfold KVCacheConfig.cacheBlocks
  refine .ite (fun hc => ?_) fun _ => .of_ok rfl h
  exact (coordinatorCacheBlocks_spec (x := { r, cacheTokens := n }) h.owned
    (h.caching.trans hc)).post (fun _ _ ht => h.moves ht) fun _ _ ht => h.moves ht

theorem Managed.removeSkippedBlocks (h : Managed cfg s) (id : String) (n : Nat) :
    Triple (fun t => t = s) (cfg.removeSkippedBlocks id n) (fun _ t => Managed cfg t)
      (fun _ t => Managed cfg t) :=
  (coordinator_removeSkippedBlocks_spec (x := Scope.ofId id n)).post
    (fun _ _ ht => h.moves ht) fun _ _ ht => ht.elim

def KVOp.HitsOk (cfg : KVCacheConfig) (s : KVState D) : KVOp D → Prop
  | arrive ad => AdmitOk cfg ad s
  | _ => True

theorem Managed.of_triple {α : Type} {call : KVCall D α}
    (h : Triple (fun t => t = s) call (fun _ t => Managed cfg t) fun _ t => Managed cfg t) :
    Managed cfg ((call >>= fun _ => pure ()) s).2 :=
  (Triple.bind h fun _ => Triple.pure () fun _ ht => ht).snd rfl

theorem Managed.op (h : Managed cfg s) {op : KVOp D} (hok : op.HitsOk cfg s) :
    Managed cfg (op.next cfg s) := by
  cases op with
  | getComputedBlocks r skip =>
    exact Managed.of_triple ((getComputedBlocks_spec r skip s).post (fun _ _ ht => ht.1 ▸ h)
      fun _ _ ht => ht ▸ h)
  | arrive ad =>
    exact Managed.of_triple ((h.arrive hok).mapOk fun _ _ ht => ht.1)
  | allocate r n k =>
    exact Managed.of_triple ((h.allocateSlots (a := { numNewTokens := n, numLookaheadTokens := k })
      (hitsOk_of_no_hits r s rfl rfl)).mapOk fun _ _ ht => ht.2)
  | free id => exact (h.free id).snd rfl
  | cacheBlocks r n => exact (h.cacheBlocks r n).snd rfl
  | removeSkippedBlocks id n => exact (h.removeSkippedBlocks id n).snd rfl
  | evictBlocks ids => exact (h.evictBlocks ids).snd rfl
  | resetPrefixCache => exact Managed.of_triple h.resetPrefixCache
  | newStepStarts => exact h.next (m := .mark []) (x := Scope.ofId "" 0) trivial

/-! ## One group -/

theorem getNumSkippedTokens_le (spec : KVCacheSpec) (n : Nat) : spec.getNumSkippedTokens n ≤ n := by
  have hv := spec.valid
  unfold KVCacheSpec.getNumSkippedTokens
  unfold AttentionType.Valid at hv
  split
  · exact Nat.zero_le n
  · next window hw =>
    rw [hw] at hv
    omega
  · exact Nat.div_mul_le_self n _
  · omega

theorem hitsFit_of_le {hits : List Nat} {total : Nat} (external : Nat)
    (h : hits.length * spec.blockSize ≤ total) : HitsFit spec hits total external := by
  intro _
  have hskip : spec.numSkippedBlocks total ≤ cdiv total spec.blockSize :=
    (Nat.div_le_div_right (getNumSkippedTokens_le spec total)).trans
      (div_le_cdiv total spec.blockSize_pos)
  have hlen : hits.length ≤ cdiv total spec.blockSize :=
    ((Nat.le_div_iff_mul_le spec.blockSize_pos).mpr h).trans (div_le_cdiv total spec.blockSize_pos)
  rw [numPlaced, keptHits, length_drop]
  omega

theorem Managed.admitOk_of_one_group (h : Managed cfg s) (hone : cfg.groups = [spec])
    (hnd : ad.r.blockHashes.Nodup) : AdmitOk cfg ad s := by
  intro hits n hcall
  have hl := lookedUp_of_call hcall
  have hzip : cfg.groups.zipIdx = [(spec, 0)] := by simp [hone]
  refine ⟨⟨fun e he => ?_, fun e he => ?_⟩, fun t _ => hzip ▸ hitsSurvive_singleton ..⟩
  · rw [hzip, mem_singleton] at he
    subst he
    refine hitsFit_of_le _ ((hl.unitary spec hone).trans ?_)
    simp only [Admission.slotArgs, KVCacheConfig.SlotArgs.numLocalComputedTokens]
    omega
  · exact h.hitsHold hnd hl (getElem?_of_mem_zipIdx he) _

theorem Owned.count_free (h : Owned s) (hb : b < s.1.numGpuBlocks) (h0 : b ≠ 0) :
    s.1.free.count b = if s.1.refCnt b = 0 then 1 else 0 := by
  split
  · next hr => exact count_eq_one_of_mem h.inv.free_nodup (h.queued b hb h0 hr)
  · next hr =>
    exact count_eq_zero.mpr fun hm => hr (h.inv.free_spec b hm).2.1

/-- One group with prefix caching: in every state between calls the reference counts, the lists of
the requests, the free queue, its counter and the hash map agree. -/
theorem ownership_of_run {H : BlockHasher D} (hinj : Function.Injective H.hashFunction)
    (hnone : ∀ a, H.hashFunction a ≠ H.noneHash) {spec : KVCacheSpec} (hone : cfg.groups = [spec])
    {s : KVState D} (run : Run (KVOp.next cfg) (fun op _ => op.Made H) cfg.init s) :
    (∀ b, b ≠ 0 → s.1.refCnt b = s.2.occurrences b) ∧
      (∀ g id, ∀ b ∈ s.2.blocks g id, b ≠ 0 → (s.2.blocks g id).count b = 1) ∧
      (∀ b < s.1.numGpuBlocks, b ≠ 0 → s.1.free.count b = if s.1.refCnt b = 0 then 1 else 0) ∧
      s.1.getNumFreeBlocks = s.1.free.length ∧
      ∀ b key, s.1.hash b = some key ↔ s.1.cachedBlockHashToBlock.Holds key b := by
  have hm : Managed cfg s := by
    refine run.inv managed_init fun op s hs hmade => hs.op ?_
    cases op with
    | arrive ad => exact hs.admitOk_of_one_group hone (Request.Made.nodup_blockHashes hinj hnone hmade)
    | _ => trivial
  have ho := hm.owned
  exact ⟨ho.refs, ho.once, fun b hb h0 => ho.count_free hb h0, ho.inv.count, ho.inv.hash_iff⟩

/-- One full attention group with blocks of two tokens; `free` blocks beside the null block. -/
def fullGroup (free maxModelLen : Nat) : KVCacheConfig where
  groups := [{ blockSize := 2, attention := .fullAttention, blockSize_pos := Nat.two_pos }]
  hashBlockSize := 2
  numBlocks := free + 1
  maxModelLen
  hashBlockSize_pos := Nat.two_pos
  numBlocks_pos := free.succ_pos

def oneFullGroup : KVCacheConfig := fullGroup 3 8

theorem ownership_of_run_three_tokens :
    ∃ r s, Request.fromEngineCoreRequest (termHasher 2 (by decide))
        { requestId := "a", promptTokenIds := some [1, 2, 3] } = .ok r ∧
      s = KVOp.next oneFullGroup (.arrive { r, numNewTokens := 3 }) oneFullGroup.init ∧
      s.2.blocks 0 "a" = [1, 2] ∧
      (∀ b, b ≠ 0 → s.1.refCnt b = s.2.occurrences b) ∧
      (∀ g id, ∀ b ∈ s.2.blocks g id, b ≠ 0 → (s.2.blocks g id).count b = 1) ∧
      (∀ b < s.1.numGpuBlocks, b ≠ 0 → s.1.free.count b = if s.1.refCnt b = 0 then 1 else 0) ∧
      s.1.getNumFreeBlocks = s.1.free.length ∧
      ∀ b key, s.1.hash b = some key ↔ s.1.cachedBlockHashToBlock.Holds key b :=
  ⟨_, _, rfl, rfl, by decide +kernel, ownership_of_run (termHasher_injective 2 (by decide))
    (fun _ => by simp [termHasher]) rfl (.single (a := KVOp.arrive _)
      (Request.Made.new (q := { requestId := "a", promptTokenIds := some [1, 2, 3] }) rfl))⟩

end Vllm
