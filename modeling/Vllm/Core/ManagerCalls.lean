import Vllm.Core.ManagerMoves

/-! The calls of the manager go over all groups. Placing the hits of a group may hand out queued
blocks for external tokens before a later group has pinned its hits; `HitsSurvive` says of the free
queue that this takes none of them. -/

set_option linter.unusedSectionVars false

namespace Vllm
open Base BlockPool List KVCacheConfig Triple
variable {D : Type} [DecidableEq D] {cfg : KVCacheConfig} {x : Scope D} {s₀ : KVState D}

variable {g : Nat} {r : Request D} {s t : KVState D} {a : KVCacheConfig.SlotArgs}

theorem getElem?_of_mem_zipIdx {spec : KVCacheSpec} (h : (spec, g) ∈ cfg.groups.zipIdx) :
    cfg.groups[g]? = some spec := mem_zipIdx_iff_getElem?.mp h

/-! ## Placing hits -/

/-- The blocks handed out for a group's external tokens, when the groups are processed in order,
are no hits of a later group. -/
def HitsSurvive (t : Tables D) (id : String) (hits : List (List Nat)) (total external : Nat) :
    List (KVCacheSpec × Nat) → List Nat → Prop
  | [], _ => True
  | (spec, g) :: gs, free =>
    if t.numCachedBlock.contains (g, id) then HitsSurvive t id hits total external gs free
    else
      let queue := free.filter (· ∉ keptHits spec (hits.getD g []) total)
      let n := numExternalBlocks spec (hits.getD g []) total external
      (∀ b ∈ queue.take n, ∀ e ∈ gs, b ∉ keptHits e.1 (hits.getD e.2 []) total) ∧
        HitsSurvive t id hits total external gs (queue.drop n)

theorem numExternalBlocks_zero (spec : KVCacheSpec) (hits : List Nat) (total : Nat) :
    numExternalBlocks spec hits total 0 = 0 := by
  have : externalTokens spec total 0 = 0 := by
    unfold externalTokens
    split <;> simp
  simp [numExternalBlocks, this]

section
variable (t : Tables D) (id : String) (hits : List (List Nat))
include hits

theorem hitsSurvive_of_no_external (total : Nat) (gs : List (KVCacheSpec × Nat)) (free : List Nat) :
    HitsSurvive t id hits total 0 gs free := by
  induction gs generalizing free with
  | nil => trivial
  | cons e gs ih =>
    rw [HitsSurvive]
    split
    · exact ih free
    · exact ⟨by simp [numExternalBlocks_zero], ih _⟩

theorem hitsSurvive_singleton (total external : Nat) (e : KVCacheSpec × Nat) (free : List Nat) :
    HitsSurvive t id hits total external [e] free := by
  rw [HitsSurvive]
  split
  · trivial
  · exact ⟨by simp, trivial⟩

end

structure AllHold (cfg : KVCacheConfig) (r : Request D) (hits : List (List Nat))
    (numLocal external : Nat) (p : BlockPool (BlockKey D)) (gs : List (KVCacheSpec × Nat)) :
    Prop where
  fit : ∀ e ∈ gs, HitsFit e.1 (hits.getD e.2 []) (numLocal + external) external
  hold : ∀ e ∈ gs, HitsHold cfg r e.1 e.2 p (e.1.numSkippedBlocks (numLocal + external))
    (keptHits e.1 (hits.getD e.2 []) (numLocal + external))

theorem HitsHold.congr {spec : KVCacheSpec} {skipped : Nat} {kept : List Nat}
    {p p' : BlockPool (BlockKey D)} (h : HitsHold cfg r spec g p skipped kept)
    (hp : ∀ b ∈ kept, b ≠ 0 → p'.hash b = p.hash b) : HitsHold cfg r spec g p' skipped kept :=
  ⟨h.once, fun j b hj h0 => (hp b (mem_of_getElem? hj) h0).trans (h.hash j b hj h0)⟩

def HitsIn (cfg : KVCacheConfig) (r : Request D) (hits : List (List Nat)) (total : Nat)
    (s : KVState D) (e : KVCacheSpec × Nat) : Prop :=
  ∀ j b, (keptHits e.1 (hits.getD e.2 []) total)[j]? = some b →
    (s.2.blocks e.2 r.requestId)[e.1.numSkippedBlocks total + j]? = some b ∧
      (b ≠ 0 → s.1.hash b =
        some (cfg.blockKey e.1 r.blockHashes (e.1.numSkippedBlocks total + j), e.2))

theorem getElem?_setBlocks_of_append {t : Tables D} {g' i b : Nat} {id id' : String} {l : List Nat}
    (h : (t.blocks g id)[i]? = some b)
    (hl : ∀ i b : Nat, (t.blocks g' id')[i]? = some b → l[i]? = some b) :
    ((t.setBlocks g' id' l).blocks g id)[i]? = some b := by
  rw [(replaced_setBlocks t g' id' l).blocks]
  split
  · next heq =>
    cases heq
    exact hl i b h
  · exact h

theorem KVMove.listed_next {m : KVMove D} (hs : Owned s) (hok : m.Ok cfg x s)
    (hk : m.Adds ∨ m.Commits) {i b : Nat} {id : String} (hb : (s.2.blocks g id)[i]? = some b) :
    ((m.next s).2.blocks g id)[i]? = some b ∧
      (b ≠ 0 → ∀ key, s.1.hash b = some key → (m.next s).1.hash b = some key) := by
  obtain ⟨p, t⟩ := s
  cases m with
  | enter g' id' =>
    exact ⟨getElem?_setBlocks_of_append hb fun _ _ h => h, fun _ _ h => h⟩
  | adopt g' id' skipped hits =>
    obtain ⟨-, hempty, -⟩ := hok
    have hlist : ∀ i b : Nat, (t.blocks g' id')[i]? = some b →
        (List.replicate skipped 0 ++ hits)[i]? = some b := by
      simp only at hempty
      simp [hempty]
    exact ⟨getElem?_setBlocks_of_append hb hlist,
      fun _ key h => ((touched_frame p hits).1 b).trans h⟩
  | grow g' id' n =>
    refine ⟨getElem?_setBlocks_of_append hb fun i b h => ?_, fun h0 key h => ?_⟩
    · exact getElem?_append_left (List.getElem?_eq_some_iff.mp h).1 ▸ h
    · refine ((hs.inv.handedOut hok.2).hash b).trans ?_
      rw [if_neg]
      · exact h
      · rintro ⟨-, hm⟩
        have hfree := (hs.inv.free_spec b (mem_of_mem_take hm)).2.1
        have hpos := hs.refCnt_pos (mem_of_getElem? hb) h0
        simp only at hfree
        omega
  | publish g' id' i' key' =>
    obtain ⟨-, -, ⟨c, hc, -, hnone⟩, -⟩ := hok
    have hget : (t.blocks g' id').getD i' 0 = c := by
      rw [getD_eq_getElem?_getD]
      rw [hc]
      rfl
    refine ⟨hb, fun _ key h => ?_⟩
    have hbc : b ≠ c := by
      rintro rfl
      cases hnone.symm.trans h
    simp only [KVMove.next, hget, BlockPool.publish, hash_setHash, if_neg hbc]
    exact h
  | setCached g' id' n | mark marks => exact ⟨hb, fun _ _ h => h⟩
  | shrink g' id' lo hi | release g' id' | evict c | reset => exact hk.elim False.elim False.elim

theorem HitsIn.moves {kind : KVMove D → Prop} {hits : List (List Nat)} {total : Nat}
    {e : KVCacheSpec × Nat} (h : HitsIn cfg x.r hits total s e) (hm : Moves cfg x kind s t)
    (hk : ∀ m, kind m → m.Adds ∨ m.Commits) (hs : Owned s) : HitsIn cfg x.r hits total t e := by
  refine (hm.inv (I := fun t => Owned t ∧ HitsIn cfg x.r hits total t e) ⟨hs, h⟩
    fun m t ht hok => ⟨ht.1.next hok.2, fun j b hj => ?_⟩).2
  obtain ⟨hlist, hhash⟩ := ht.2 j b hj
  obtain ⟨hlist', hhash'⟩ := KVMove.listed_next ht.1 hok.2 (hk m hok.1) hlist
  exact ⟨hlist', fun h0 => hhash' h0 _ (hhash h0)⟩

theorem placeHits_loop (t : Tables D) {hits : List (List Nat)} {numLocal external : Nat} :
    ∀ (gs : List (KVCacheSpec × Nat)) {s : KVState D}, Owned s →
      (∀ e ∈ gs, cfg.groups[e.2]? = some e.1) →
      (gs.map Prod.snd).Nodup → AllHold cfg x.r hits numLocal external s.1 gs →
      (∀ e ∈ gs, s.2.numCachedBlock.get? (e.2, x.r.requestId) =
        t.numCachedBlock.get? (e.2, x.r.requestId)) →
      HitsSurvive t x.r.requestId hits (numLocal + external) external gs s.1.free →
      Triple (fun s' => s' = s)
        (Call.forEach gs fun e => allocateNewComputedBlocks e.1 e.2 x.r.requestId
          cfg.enableCaching (hits.getD e.2 []) numLocal external)
        (fun _ s' => Moves cfg x KVMove.Adds s s' ∧
          ∀ e ∈ gs, HitsIn cfg x.r hits (numLocal + external) s' e)
        (fun _ s' => Moves cfg x KVMove.Adds s s')
  | [], s, _, _, _, _, _, _ => of_ok rfl ⟨Run.refl, by simp⟩
  | (spec, g) :: gs, s, hs, hg, hnd, hall, hcached, hsurv => by
    have htail : ∀ e ∈ gs, e ∈ (spec, g) :: gs := fun e he => mem_cons_of_mem _ he
    have hne : ∀ e ∈ gs, e.2 ≠ g := fun e he h =>
      (nodup_cons.mp hnd).1 (mem_map.mpr ⟨e, he, h⟩)
    have hhead : (spec, g) ∈ (spec, g) :: gs := mem_cons_self ..
    rw [HitsSurvive] at hsurv
    have hcontains : s.2.numCachedBlock.contains (g, x.r.requestId) =
        t.numCachedBlock.contains (g, x.r.requestId) := by
      rw [Dict.contains, Dict.contains, hcached _ hhead]
    refine .bind (allocateNewComputedBlocks_spec (x := x) hs (hg _ hhead)
      (hall.fit _ hhead) (hall.hold _ hhead)) fun _ => .of_forall fun s' hs' => ?_
    split at hs'
    · next hc =>
      -- a running request has no hits
      obtain ⟨rfl, hnil⟩ := hs'
      rw [hcontains] at hc
      rw [if_pos hc] at hsurv
      refine (placeHits_loop t gs hs (fun e he => hg e (htail e he)) (nodup_cons.mp hnd).2
        ⟨fun e he => hall.fit e (htail e he), fun e he => hall.hold e (htail e he)⟩
        (fun e he => hcached e (htail e he)) hsurv).mapOk
          fun _ u hu => ⟨hu.1, forall_mem_cons.mpr ⟨?_, hu.2⟩⟩
      intro j b hj
      rw [keptHits, hnil, drop_nil] at hj
      cases hj
    · next hc =>
      rw [hcontains] at hc
      rw [if_neg hc] at hsurv
      obtain ⟨hmoves, hplaced⟩ := hs'
      obtain ⟨hnot, hrest⟩ := hsurv
      have hin : HitsIn cfg x.r hits (numLocal + external) s' (spec, g) := by
        intro j b hj
        refine ⟨hplaced.listed j b hj, fun h0 => ?_⟩
        -- a hit of this group is no block that was handed out for it
        refine (hplaced.hash b fun hm => ?_).trans ((hall.hold _ hhead).hash j b hj h0)
        have hkept := (mem_filter.mp (mem_of_mem_take hm)).2
        simp only [decide_not, Bool.not_eq_true', decide_eq_false_iff_not] at hkept
        exact hkept (mem_of_getElem? hj)
      refine (placeHits_loop t gs (hmoves.owned hs) (fun e he => hg e (htail e he))
        (nodup_cons.mp hnd).2 ⟨fun e he => hall.fit e (htail e he), fun e he => ?_⟩
        (fun e he => ?_) ?_).post (fun _ u hu => ⟨hmoves.trans hu.1, forall_mem_cons.mpr
          ⟨hin.moves hu.1 (fun _ h => .inl h) (hmoves.owned hs), hu.2⟩⟩)
        fun _ _ h => hmoves.trans h
      · refine (hall.hold e (htail e he)).congr fun b hb _ => hplaced.hash b fun hm => ?_
        exact hnot b hm e he hb
      · exact (hplaced.cached e.2 (hne e he)).trans (hcached e (htail e he))
      · rw [hplaced.free]
        exact hrest

theorem nodup_zipIdx_snd {α : Type} (l : List α) : (l.zipIdx.map Prod.snd).Nodup := by
  rw [zipIdx_map_snd]
  exact nodup_range'

theorem placeHits_spec (hs : Owned s₀)
    (hall : AllHold cfg x.r a.hits (a.numLocalComputedTokens x.r) a.numExternalComputedTokens s₀.1 cfg.groups.zipIdx)
    (hsurv : HitsSurvive s₀.2 x.r.requestId a.hits (a.numLocalComputedTokens x.r + a.numExternalComputedTokens) a.numExternalComputedTokens cfg.groups.zipIdx s₀.1.free)
    :
    Triple (· = s₀) (cfg.placeHits x.r a)
      (fun _ s => Moves cfg x KVMove.Adds s₀ s ∧ ∀ e ∈ cfg.groups.zipIdx, HitsIn cfg x.r a.hits
        (a.numLocalComputedTokens x.r + a.numExternalComputedTokens) s e)
      (fun _ s => Moves cfg x KVMove.Adds s₀ s) := by
  unfold placeHits
  refine .ite (fun _ => ?_) fun hno => .of_ok rfl ⟨.refl, fun e he j b hj => ?_⟩
  · exact placeHits_loop s₀.2 cfg.groups.zipIdx hs (fun e he => getElem?_of_mem_zipIdx he)
      (nodup_zipIdx_snd _) hall (fun _ _ => rfl) hsurv
  · have hnone : a.newComputedBlocks = none :=
      Option.not_isSome_iff_eq_none.mp fun h => hno (.inl h)
    simp [KVCacheConfig.SlotArgs.hits, hnone, keptHits] at hj

/-! ## The other loops over the groups -/

theorem Moves.length_le (h : Moves cfg x KVMove.Adds s t) (g : Nat) (id : String) :
    (s.2.blocks g id).length ≤ (t.2.blocks g id).length := by
  have hset : ∀ (t : Tables D) g' id' l, (t.blocks g' id').length ≤ l.length →
      (t.blocks g id).length ≤ ((t.setBlocks g' id' l).blocks g id).length := by
    intro t g' id' l hl
    rw [(replaced_setBlocks t g' id' l).blocks]
    split
    · next heq =>
      cases heq
      exact hl
    · exact Nat.le_refl _
  refine h.inv (I := fun t => (s.2.blocks g id).length ≤ (t.2.blocks g id).length)
    (Nat.le_refl _) fun m t ht hok => ht.trans ?_
  cases m with
  | enter g' id' => exact hset _ _ _ _ (Nat.le_refl _)
  | adopt g' id' skipped hits =>
    obtain ⟨-, -, hempty, -⟩ := hok
    refine hset t.2 g' id' _ ?_
    rw [hempty]
    exact Nat.zero_le _
  | grow g' id' n => exact hset _ _ _ _ (by simp)
  | _ => exact hok.1.elim

def Covers (cfg : KVCacheConfig) (id : String) (n : Nat) (s : KVState D) : Prop :=
  ∀ g spec, cfg.groups[g]? = some spec → n ≤ (s.2.blocks g id).length * spec.blockSize

theorem coordinator_allocateNewBlocks_spec (hs : Owned s₀) (numTokens : Nat) :
    Triple (· = s₀) (cfg.allocateNewBlocks x.r.requestId numTokens)
      (fun _ s => Moves cfg x KVMove.Adds s₀ s ∧ Covers cfg x.r.requestId numTokens s)
      (fun _ s => Moves cfg x KVMove.Adds s₀ s) := by
  unfold KVCacheConfig.allocateNewBlocks
  -- the groups already visited are covered, and stay so
  let I : List (KVCacheSpec × Nat) → List (KVCacheSpec × Nat) → KVState D → Prop :=
    fun pre _ s => Moves cfg x KVMove.Adds s₀ s ∧ ∀ e ∈ pre,
      numTokens ≤ (s.2.blocks e.2 x.r.requestId).length * e.1.blockSize
  refine (mapEach (I := I) [] cfg.groups.zipIdx fun pre e post _ =>
    of_forall fun s hI => ?_).weaken (fun s h => ⟨h ▸ .refl, by simp⟩)
    (fun _ s h => ⟨h.1, fun g spec hg => h.2 (spec, g) (mem_zipIdx_iff_getElem?.mpr hg)⟩)
    fun _ _ h => h
  refine (allocateNewBlocks_spec (x := x) (hI.1.owned hs) numTokens).post
    (fun _ s' h => ⟨hI.1.trans h.1, fun e' he' => ?_⟩) fun _ _ h => hI.1.trans h
  rcases mem_append.mp he' with he' | he'
  · exact (hI.2 e' he').trans (Nat.mul_le_mul_right _ (h.1.length_le e'.2 _))
  · rw [mem_singleton.mp he']
    exact h.2

theorem coordinator_removeSkippedBlocks_spec :
    Triple (· = s₀) (cfg.removeSkippedBlocks x.r.requestId x.skipTokens)
      (fun _ s => Moves cfg x KVMove.Trims s₀ s) (fun _ _ => False) := by
  refine (forEach_inv (I := fun s => Moves cfg x KVMove.Trims s₀ s) _ fun e he =>
    of_forall fun s hm => ?_).pre fun _ h => h ▸ .refl
  exact (removeSkippedBlocks_spec (x := x) (getElem?_of_mem_zipIdx he)).mapOk
    fun _ _ h => hm.trans h

theorem coordinator_getNumBlocksToAllocate_spec (id : String) (n total : Nat)
    (hits : List (List Nat)) :
    Triple (· = s₀) (cfg.getNumBlocksToAllocate id n hits total)
      (fun _ s => s = s₀) (fun _ s => s = s₀) := by
  unfold KVCacheConfig.getNumBlocksToAllocate
  refine .bind (.mapEach (I := fun _ _ s => s = s₀) [] cfg.groups.zipIdx
    fun _ e _ _ => getNumBlocksToAllocate_spec id n total _) fun _ => .skip

theorem coordinatorCacheBlocks_spec (hs : Owned s₀) (hc : s₀.1.enableCaching = true) :
    Triple (· = s₀) (cfg.coordinatorCacheBlocks x.r x.cacheTokens)
      (fun _ s => Moves cfg x KVMove.Commits s₀ s) (fun _ s => Moves cfg x KVMove.Commits s₀ s) := by
  refine (forEach_inv (I := fun s => Moves cfg x KVMove.Commits s₀ s) _ fun e he =>
    of_forall fun s hm => ?_).pre fun _ h => h ▸ .refl
  exact (cacheBlocksOfGroup_spec (x := x) (hm.owned hs) (hm.enableCaching.trans hc)
    (getElem?_of_mem_zipIdx he)).post (fun _ _ h => hm.trans h)
    fun _ _ h => hm.trans h

/-! ## The calls of the manager -/

def KVCacheConfig.SlotArgs.scope (a : SlotArgs) (cfg : KVCacheConfig) (r : Request D) : Scope D where
  r := r
  skipTokens := a.totalComputedTokens r cfg.maxModelLen
  cacheTokens := a.numTokensToCache r cfg.maxModelLen

def SlotsRun (cfg : KVCacheConfig) (x : Scope D) (s v : KVState D) : Prop :=
  ∃ t u, Moves cfg x KVMove.Trims s t ∧ Moves cfg x KVMove.Adds t u ∧
    Moves cfg x KVMove.Commits u v

/-- The hits given to `allocate_slots` hold, and placing them takes none of them away, whatever
blocks the request gives up before. -/
structure HitsOk (cfg : KVCacheConfig) (r : Request D) (a : KVCacheConfig.SlotArgs)
    (s : KVState D) : Prop where
  all : AllHold cfg r a.hits (a.numLocalComputedTokens r) a.numExternalComputedTokens s.1
    cfg.groups.zipIdx
  survive : ∀ t, Moves cfg (a.scope cfg r) KVMove.Trims s t →
    HitsSurvive t.2 r.requestId a.hits
      (a.numLocalComputedTokens r + a.numExternalComputedTokens) a.numExternalComputedTokens
      cfg.groups.zipIdx t.1.free

structure SlotsDone (cfg : KVCacheConfig) (r : Request D) (a : KVCacheConfig.SlotArgs)
    (s t u v : KVState D) : Prop where
  trims : Moves cfg (a.scope cfg r) KVMove.Trims s t
  adds : Moves cfg (a.scope cfg r) KVMove.Adds t u
  commits : Moves cfg (a.scope cfg r) KVMove.Commits u v
  covers : Covers cfg r.requestId (a.numTokensNeedSlot r cfg.maxModelLen) u
  hits : ∀ e ∈ cfg.groups.zipIdx, HitsIn cfg r a.hits
    (a.numLocalComputedTokens r + a.numExternalComputedTokens) u e

def SlotsResult (cfg : KVCacheConfig) (r : Request D) (a : KVCacheConfig.SlotArgs)
    (s v : KVState D) : Option (Option (List (List Nat))) → Prop
  | none => Moves cfg (a.scope cfg r) KVMove.Trims s v
  | some _ => ∃ t u, SlotsDone cfg r a s t u v

section
variable (hs : Owned s₀) (hc : s₀.1.enableCaching = cfg.enableCaching)
include hs hc

theorem commitBlocks_spec :
    Triple (· = s₀) (cfg.commitBlocks r a)
      (fun _ s => Moves cfg (a.scope cfg r) KVMove.Commits s₀ s)
      (fun _ s => Moves cfg (a.scope cfg r) KVMove.Commits s₀ s) := by
  unfold commitBlocks
  refine .ite (fun _ => .of_ok rfl .refl) fun hcommit => ?_
  have hcaching : cfg.enableCaching = true := by
    cases h : cfg.enableCaching <;> simp [h] at hcommit ⊢
  exact coordinatorCacheBlocks_spec (x := a.scope cfg r) hs (hc.trans hcaching)

theorem placeBlocks_spec
    (hok : HitsOk cfg r a s₀) (ht : Moves cfg (a.scope cfg r) KVMove.Trims s₀ t) :
    Triple (· = t) (cfg.placeBlocks r a)
      (fun res v => SlotsResult cfg r a s₀ v (some res))
      (fun _ v => SlotsRun cfg (a.scope cfg r) s₀ v) := by
  have hall : AllHold cfg r a.hits (a.numLocalComputedTokens r) a.numExternalComputedTokens t.1
      cfg.groups.zipIdx :=
    ⟨hok.all.fit, fun e he => (hok.all.hold e he).congr fun b _ _ => ht.hash_of_trims b⟩
  have hraise : ∀ u, Moves cfg (a.scope cfg r) KVMove.Adds t u → SlotsRun cfg (a.scope cfg r) s₀ u :=
    fun u hu => ⟨t, u, ht, hu, .refl⟩
  unfold placeBlocks
  refine .bind ((placeHits_spec (x := a.scope cfg r) (ht.owned hs) hall
    (hok.survive t ht)).mapError fun _ u h => hraise u h)
    fun _ => .of_forall fun u hu => ?_
  refine .bind ((coordinator_allocateNewBlocks_spec (x := a.scope cfg r)
    (hu.1.owned (ht.owned hs)) (a.numTokensNeedSlot r cfg.maxModelLen)).mapError
      fun _ v h => hraise v (hu.1.trans h)) fun bs => .of_forall fun v hv => ?_
  have hadds : Moves cfg (a.scope cfg r) KVMove.Adds t v := hu.1.trans hv.1
  refine .bind ((commitBlocks_spec (r := r) (a := a) (hadds.owned (ht.owned hs))
    (hadds.enableCaching.trans (ht.enableCaching.trans hc))).mapError
      fun _ w h => (⟨t, v, ht, hadds, h⟩ : SlotsRun cfg (a.scope cfg r) s₀ w)) fun _ => ?_
  refine .pure _ fun w hw => ⟨t, v, ht, hadds, hw, hv.2, fun e he => ?_⟩
  exact (hu.2 e he).moves hv.1 (fun _ h => .inl h) (hu.1.owned (ht.owned hs))

theorem allocateSlots_spec (hok : HitsOk cfg r a s₀) :
    Triple (· = s₀) (cfg.allocateSlots r a) (fun res v => SlotsResult cfg r a s₀ v res)
      (fun _ v => SlotsRun cfg (a.scope cfg r) s₀ v) := by
  unfold allocateSlots
  have hrefl : SlotsRun cfg (a.scope cfg r) s₀ s₀ := ⟨s₀, s₀, .refl, .refl, .refl⟩
  refine .bind_check (fun _ => ?_) fun _ => hrefl
  refine .bind ((coordinator_removeSkippedBlocks_spec (x := a.scope cfg r)).mapError
    fun _ _ h => h.elim) fun _ => .of_forall fun t ht => ?_
  refine .bind ((coordinator_getNumBlocksToAllocate_spec _ _ _ _).mapError
    fun _ v h => h ▸ (⟨t, t, ht, .refl, .refl⟩ :
      SlotsRun cfg (a.scope cfg r) s₀ t)) fun n => ?_
  refine .bind_get (.ite (fun _ => .of_ok rfl ht) fun _ => ?_)
  exact .bind (placeBlocks_spec hs hc hok ht) fun res => .pure _ fun _ h => h

end

end Vllm
