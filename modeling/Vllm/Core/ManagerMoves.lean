import Vllm.Core.Ownership

/-! Every call of the KV cache manager, whether it returns or raises, is a run of moves that are
allowed for the request it is made for. -/

set_option linter.unusedSectionVars false

namespace Vllm
open Base BlockPool Call List KVMove KVCacheConfig
variable {D : Type} [DecidableEq D]

/-! ## Kinds of moves -/

def KVMove.Trims : KVMove D → Prop
  | enter .. | shrink .. => True
  | _ => False

def KVMove.Adds : KVMove D → Prop
  | enter .. | adopt .. | grow .. => True
  | _ => False

def KVMove.Commits : KVMove D → Prop
  | enter .. | publish .. | setCached .. | mark .. => True
  | _ => False

abbrev Moves (cfg : KVCacheConfig) (x : Scope D) (kind : KVMove D → Prop) :
    KVState D → KVState D → Prop :=
  Run KVMove.next fun m s => kind m ∧ m.Ok cfg x s

namespace Moves
variable {cfg : KVCacheConfig} {x : Scope D} {kind kind' : KVMove D → Prop} {s t : KVState D}

section
variable (h : Moves cfg x kind s t)
include h

theorem owned (hs : Owned s) : Owned t :=
  h.inv hs fun _ _ ho hok => ho.next hok.2

theorem trans {u : KVState D} (h' : Moves cfg x kind t u) :
    Moves cfg x kind s u := h.append h'

theorem enter (g : Nat) (hk : kind (.enter g x.r.requestId)) :
    Moves cfg x kind s ((KVMove.enter g x.r.requestId).next t) := h.step _ ⟨hk, rfl⟩

end

theorem grow (h : Moves cfg x KVMove.Adds s t) (g : Nat) {n : Nat} (hn : n ≤ t.1.free.length) :
    Moves cfg x KVMove.Adds s ((grow g x.r.requestId n).next t) :=
  .step (.grow g x.r.requestId n : KVMove D) h ⟨trivial, rfl, hn⟩

end Moves

/-! ### What no move changes -/

theorem BlockPool.foldl_handOutOne_frame {K : Type} [DecidableEq K] (p : BlockPool K)
    (bs : List Nat) : (bs.foldl handOutOne p).enableCaching = p.enableCaching ∧
      (bs.foldl handOutOne p).numGpuBlocks = p.numGpuBlocks := by
  induction bs generalizing p with
  | nil => exact ⟨rfl, rfl⟩
  | cons b bs ih =>
    obtain ⟨hc, hn⟩ := ih (p.handOutOne b)
    exact ⟨hc.trans (enableCaching_handOutOne ..), hn.trans (numGpuBlocks_handOutOne ..)⟩

theorem KVMove.enableCaching_next (m : KVMove D) (s : KVState D) :
    (m.next s).1.enableCaching = s.1.enableCaching := by
  obtain ⟨p, t⟩ := s
  cases m with
  | shrink g id lo hi | release g id => exact (foldl_decRefCnt_frame p _).2.2.2.2.1
  | adopt g id skipped hits => exact (touched_frame p hits).2.2
  | grow g id n => exact (foldl_handOutOne_frame _ _).1
  | evict b => exact enableCaching_dropHash p b
  | enter g id | publish g id i key | setCached g id n | reset | mark marks => rfl

variable {cfg : KVCacheConfig} {x : Scope D} {s t : KVState D}

theorem Moves.enableCaching {kind : KVMove D → Prop} (h : Moves cfg x kind s t) :
    t.1.enableCaching = s.1.enableCaching :=
  h.inv (I := fun t => t.1.enableCaching = s.1.enableCaching) rfl fun m t ht _ =>
    (m.enableCaching_next t).trans ht

theorem Moves.hash_of_trims (h : Moves cfg x KVMove.Trims s t) (b : Nat) :
    t.1.hash b = s.1.hash b := by
  refine h.inv (I := fun t => t.1.hash b = s.1.hash b) rfl fun m t ht hok => ?_
  cases m with
  | enter g id => exact ht
  | shrink g id lo hi => exact (hash_freed t.1 _ b).trans ht
  | _ => exact hok.1.elim

theorem Moves.blocks_of_commits (h : Moves cfg x KVMove.Commits s t) (g : Nat) (id : String) :
    t.2.blocks g id = s.2.blocks g id := by
  refine h.inv (I := fun t => t.2.blocks g id = s.2.blocks g id) rfl fun m t ht hok => ?_
  cases m with
  | enter g' id' =>
    refine ((replaced_setBlocks t.2 g' id' _).blocks g id).trans ?_
    split
    · next heq =>
      cases heq
      exact ht
    · exact ht
  | publish g' id' i key | setCached g' id' n | mark marks => exact ht
  | _ => exact hok.1.elim

/-! ## The calls of one group's manager -/

section
variable {cfg : KVCacheConfig} {x : Scope D} {spec : KVCacheSpec} {g : Nat} {s₀ : KVState D}

theorem freeBlocks_none (bs : List Nat) (s : KVState D) :
    freeBlocks Hooks.none bs s = (.ok (), (s.1.freed bs, s.2)) := by
  have hfold : ∀ (bs : List Nat) (c : Nat → Bool) (t : Tables D),
      bs.foldl (fun a b => if c b then (Hooks.none : Hooks (BlockKey D) _).onPrefixAdded b a else a)
        t = t := by
    intro bs c t
    induction bs generalizing t with
    | nil => rfl
    | cons b bs ih =>
      rw [foldl_cons]
      split <;> exact ih _
  have := freeBlocks_eq s.1 bs (Hooks.none : Hooks (BlockKey D) _) s.2
  rw [hfold _ (fun b => ((s.1.freed bs).hash b).isSome)] at this
  exact this

theorem blocks_setBlocks_self (t : Tables D) (g : Nat) (id : String) (l : List Nat) :
    (t.setBlocks g id l).blocks g id = l := by
  simp [Tables.blocks, Tables.setBlocks]

section
variable (g : Nat) (id : String) (s : KVState D)

theorem tableOf_run : tableOf g id s = (.ok (s.2.blocks g id), (KVMove.enter g id).next s) := by
  have : ((s.2.setBlocks g id (s.2.blocks g id))).blocks g id = s.2.blocks g id :=
    blocks_setBlocks_self ..
  change (Except.ok ((s.2.setBlocks g id (s.2.blocks g id)).blocks g id), _) = _
  rw [this]
  rfl

theorem blocks_enter :
    ((KVMove.enter g id).next s).2.blocks g id = s.2.blocks g id := blocks_setBlocks_self ..

theorem free_run : Vllm.free g id s = (.ok (), (release g id).next s) := by
  simp only [Vllm.free, run_bind, freeBlocks_none]
  rfl

end

theorem numKept_le (l : List Nat) (n : Nat) : numKept l n ≤ n := by
  induction n with
  | zero => exact Nat.le_refl 0
  | succ n ih =>
    rw [numKept]
    split
    · exact Nat.le_refl _
    · exact Nat.le_succ_of_le ih

variable {l kept : List Nat} {n i b skipped : Nat}

theorem ne_zero_of_numKept_le (h : numKept l n ≤ i) (hi : i < n) : l[i]? ≠ some 0 := by
  induction n with
  | zero => exact absurd hi (Nat.not_lt_zero i)
  | succ n ih =>
    rw [numKept] at h
    split at h
    · exact absurd hi (Nat.not_lt.mpr h)
    · next hn =>
      by_cases hin : i = n
      · exact hin ▸ hn
      · exact ih h (by omega)

theorem exists_of_mem_removed {lo hi : Nat} (h : b ∈ removed l lo hi) :
    ∃ i, lo ≤ i ∧ i < hi ∧ l[i]? = some b := by
  obtain ⟨j, hj⟩ := mem_iff_getElem?.mp (mem_reverse.mp h)
  rw [getElem?_drop, getElem?_take] at hj
  split at hj
  · exact ⟨lo + j, Nat.le_add_right _ _, ‹_›, hj⟩
  · cases hj

def trimmed (spec : KVCacheSpec) (g : Nat) (id : String) (totalComputedTokens : Nat)
    (s : KVState D) : KVState D :=
  let numComputedTokens := totalComputedTokens - spec.numSpeculativeBlocks
  if spec.getNumSkippedTokens numComputedTokens = 0 then s
  else
    let blocks := s.2.blocks g id
    let numSkippedBlocks := min (spec.numSkippedBlocks numComputedTokens) blocks.length
    (shrink g id (numKept blocks numSkippedBlocks) numSkippedBlocks).next
      ((KVMove.enter g id).next s)

theorem removeSkippedBlocks_run (spec : KVCacheSpec) (g : Nat) (id : String) (total : Nat)
    (s : KVState D) :
    removeSkippedBlocks spec g id total s = (.ok (), trimmed spec g id total s) := by
  unfold removeSkippedBlocks baseRemoveSkippedBlocks trimmed
  by_cases hskip : spec.getNumSkippedTokens (total - spec.numSpeculativeBlocks) = 0
  · simp only [if_pos hskip]
    rfl
  · simp only [if_neg hskip]
    rw [bind_of_ok (tableOf_run g id s)]
    have hblocks := blocks_enter g id s
    simp only [KVMove.next] at hblocks ⊢
    simp only [run_bind, freeBlocks_none, hblocks]
    rfl

theorem Moves.trimmed (hg : cfg.groups[g]? = some spec) (s : KVState D) :
    Moves cfg x KVMove.Trims s (trimmed spec g x.r.requestId x.skipTokens s) := by
  unfold Vllm.trimmed
  simp only
  split
  · exact .refl
  · have henter : Moves cfg x KVMove.Trims s ((KVMove.enter g x.r.requestId).next s) :=
      .enter .refl g trivial
    have hblocks := blocks_enter g x.r.requestId s
    refine henter.step _ ⟨trivial, rfl, numKept_le _ _, ?_, fun b hb => ?_, spec, hg, ?_⟩
    · rw [hblocks]
      exact Nat.min_le_right _ _
    · rw [hblocks] at hb
      obtain ⟨i, hlo, hhi, hi⟩ := exists_of_mem_removed hb
      rintro rfl
      exact ne_zero_of_numKept_le hlo hhi hi
    · exact Nat.min_le_left _ _

theorem removeSkippedBlocks_spec (hg : cfg.groups[g]? = some spec) :
    Triple (· = s₀) (removeSkippedBlocks spec g x.r.requestId x.skipTokens)
      (fun _ s => Moves cfg x KVMove.Trims s₀ s) (fun _ _ => False) :=
  .of_ok (removeSkippedBlocks_run ..) (.trimmed hg s₀)

theorem getNumBlocksToAllocate_spec (id : String) (n total : Nat) (hits : List Nat) :
    Triple (· = s₀) (getNumBlocksToAllocate spec g id n hits total)
      (fun _ s => s = s₀) (fun _ s => s = s₀) := by
  unfold getNumBlocksToAllocate baseNumBlocksToAllocate
  refine .bind_get (.ite (fun _ => .skip) fun _ => ?_)
  refine .bind_get (.ite (fun _ => ?_) fun _ => .skip)
  exact .bind_check (fun _ => .skip) fun _ => rfl

theorem getNewBlocks_spec (hs : Owned s₀) (n : Nat) :
    Triple (· = s₀) (getNewBlocks Hooks.none n)
      (fun bs s => n ≤ s₀.1.free.length ∧ bs = s₀.1.free.take n ∧ s = (s₀.1.handedOut n, s₀.2))
      (fun _ s => s = s₀) := by
  by_cases hn : n ≤ s₀.1.free.length
  · exact .of_ok (hs.inv.getNewBlocks_eq hn s₀.2) ⟨hn, rfl, rfl⟩
  · obtain ⟨e, he⟩ := hs.inv.getNewBlocks_error hn s₀.2
    exact .of_error he rfl

theorem allocateNewBlocks_spec (hs : Owned s₀) (numTokens : Nat) :
    Triple (· = s₀) (allocateNewBlocks spec g x.r.requestId numTokens)
      (fun _ s => Moves cfg x KVMove.Adds s₀ s ∧
        numTokens ≤ (s.2.blocks g x.r.requestId).length * spec.blockSize)
      (fun _ s => Moves cfg x KVMove.Adds s₀ s) := by
  unfold allocateNewBlocks
  have henter : Moves cfg x KVMove.Adds s₀ ((KVMove.enter g x.r.requestId).next s₀) :=
    .enter .refl g trivial
  set s₁ := (KVMove.enter g x.r.requestId).next s₀ with hs₁
  have hblocks : s₁.2.blocks g x.r.requestId = s₀.2.blocks g x.r.requestId :=
    blocks_enter g x.r.requestId s₀
  have hcover : numTokens ≤
      cdiv (numTokens + spec.blockSize * spec.numSpeculativeBlocks) spec.blockSize *
        spec.blockSize :=
    (Nat.le_add_right _ _).trans (le_cdiv_mul _ spec.blockSize_pos)
  refine .bind_run (tableOf_run ..) (.ite (fun hle => ?_) fun hlt => ?_)
  · refine .of_ok rfl ⟨henter, ?_⟩
    rw [hblocks]
    exact hcover.trans (Nat.mul_le_mul_right _ hle)
  · refine .bind ((getNewBlocks_spec (henter.owned hs) _).mapError
      fun _ s h => h ▸ henter) fun bs => ?_
    refine .of_forall fun s hb => ?_
    obtain ⟨hn, rfl, rfl⟩ := hb
    refine .of_ok rfl ⟨henter.grow g hn, ?_⟩
    simp only [blocks_setBlocks_self, length_append, length_take, hblocks]
    rw [Nat.min_eq_left hn]
    refine hcover.trans (Nat.mul_le_mul_right _ ?_)
    omega

/-- The hits that are still in the window are cached under the keys of their blocks, and no block
is hit twice. -/
structure HitsHold (cfg : KVCacheConfig) (r : Request D) (spec : KVCacheSpec) (g : Nat)
    (p : BlockPool (BlockKey D)) (skipped : Nat) (hits : List Nat) : Prop where
  once : ∀ b ∈ hits, b ≠ 0 → hits.count b = 1
  hash : ∀ j b, hits[j]? = some b → b ≠ 0 →
    p.hash b = some (cfg.blockKey spec r.blockHashes (skipped + j), g)

def keptHits (spec : KVCacheSpec) (hits : List Nat) (total : Nat) : List Nat :=
  hits.drop (spec.numSkippedBlocks total)

def externalTokens (spec : KVCacheSpec) (total external : Nat) : Nat :=
  if spec.numSkippedBlocks total > 0 then min (total - spec.getNumSkippedTokens total) external
  else external

def numPlaced (spec : KVCacheSpec) (hits : List Nat) (total : Nat) : Nat :=
  spec.numSkippedBlocks total + (keptHits spec hits total).length

def numExternalBlocks (spec : KVCacheSpec) (hits : List Nat) (total external : Nat) : Nat :=
  if externalTokens spec total external > 0 then
    cdiv total spec.blockSize - numPlaced spec hits total
  else 0

abbrev Commits (cfg : KVCacheConfig) (x : Scope D) (s₀ : KVState D)
    (call : Call PyError (KVState D) Unit) : Prop :=
  Triple (· = s₀) call (fun _ s => Moves cfg x KVMove.Commits s₀ s)
    (fun _ s => Moves cfg x KVMove.Commits s₀ s)

def HitsFit (spec : KVCacheSpec) (hits : List Nat) (total external : Nat) : Prop :=
  0 < externalTokens spec total external → numPlaced spec hits total ≤ cdiv total spec.blockSize

structure Placed (g : Nat) (id : String) (skipped : Nat) (kept : List Nat) (n : Nat)
    (s s' : KVState D) : Prop where
  listed : ∀ j b, kept[j]? = some b → (s'.2.blocks g id)[skipped + j]? = some b
  free : s'.1.free = (s.1.free.filter (· ∉ kept)).drop n
  hash : ∀ b, b ∉ (s.1.free.filter (· ∉ kept)).take n → s'.1.hash b = s.1.hash b
  cached : ∀ g', g' ≠ g → s'.2.numCachedBlock.get? (g', id) = s.2.numCachedBlock.get? (g', id)

theorem Moves.adopt (hg : cfg.groups[g]? = some spec) (hempty : s₀.2.blocks g x.r.requestId = [])
    (hits : HitsHold cfg x.r spec g s₀.1 skipped kept) :
    Moves cfg x KVMove.Adds s₀ ((KVMove.adopt g x.r.requestId skipped kept).next
      ((KVMove.enter g x.r.requestId).next s₀)) := by
  refine .step (.adopt g x.r.requestId skipped kept : KVMove D)
    (Moves.enter .refl g trivial) ⟨trivial, rfl, ?_, hits.once, spec, hg, hits.hash⟩
  rw [blocks_enter, hempty]

theorem HitsHold.touchable (hs : Owned s₀) (hits : HitsHold cfg x.r spec g s₀.1 skipped kept) :
    s₀.1.Touchable kept := by
  intro b hb
  by_cases h0 : b = 0
  · exact ⟨h0 ▸ hs.pos, fun h => absurd h0 h⟩
  · obtain ⟨j, hj⟩ := mem_iff_getElem?.mp hb
    have hcached : s₀.1.hash b ≠ none := by
      rw [hits.hash j b hj h0]
      exact Option.some_ne_none _
    have hlt := (hs.inv.hash_lt b hcached).1
    exact ⟨hlt, fun h0 hr => hs.queued b hlt h0 hr⟩

theorem touchComputed_spec (hs : Owned s₀) (hits : HitsHold cfg x.r spec g s₀.1 skipped kept) :
    Triple (· = s₀) (touchComputed cfg.enableCaching kept)
      (fun _ s => s = (s₀.1.touched kept, s₀.2)) (fun _ s => s = s₀) := by
  unfold touchComputed
  refine .ite (fun _ => ?_) fun _ => ?_
  · exact .of_ok (hs.inv.touch_eq (hits.touchable hs) s₀.2) rfl
  · refine .check (fun s hs' hnil => ?_) fun _ hs' _ => hs'
    rw [List.isEmpty_iff.mp hnil]
    exact hs'

theorem HitsHold.placed (hs : Owned s₀) {kept : List Nat} {skipped : Nat} {id : String}
    (hits : HitsHold cfg x.r spec g s₀.1 skipped kept) :
    Placed g id skipped kept 0 s₀ ((KVMove.adopt g id skipped kept).next
      ((KVMove.enter g id).next s₀)) where
  listed j b hj := by
    refine (congrArg (·[skipped + j]?) (blocks_setBlocks_self ..)).trans ?_
    rw [getElem?_append_right (by simp), length_replicate, Nat.add_sub_cancel_left, hj]
  free := by
    exact hs.inv.free_touched (hits.touchable hs)
  hash b _ := (touched_frame s₀.1 kept).1 b
  cached g' hg' := by
    refine Dict.get?_set_of_ne _ _ ?_
    rintro ⟨⟩
    exact hg' rfl

theorem Placed.grow {s : KVState D} {id : String} (h : Placed g id skipped kept 0 s₀ s)
    (hs : Owned s) (hn : n ≤ s.1.free.length) :
    Placed g id skipped kept n s₀ ((grow g id n).next ((KVMove.enter g id).next s)) where
  listed j b hj := by
    refine (congrArg (·[skipped + j]?) (blocks_setBlocks_self ..)).trans ?_
    have hold := h.listed j b hj
    rw [getElem?_append_left, blocks_setBlocks_self, hold]
    rw [blocks_setBlocks_self]
    exact (List.getElem?_eq_some_iff.mp hold).1
  free := by
    have hfree := h.free
    exact (hs.inv.handedOut hn).free.trans (congrArg (List.drop n) hfree)
  hash b hb := by
    have hfree := h.free
    rw [drop_zero] at hfree
    rw [← hfree] at hb
    refine ((hs.inv.handedOut hn).hash b).trans ?_
    rw [if_neg fun hc => hb hc.2]
    exact h.hash b (by simp)
  cached := h.cached

theorem allocateExternal_spec (spec : KVCacheSpec) (total external : Nat) {s : KVState D}
    (hs : Owned s₀) (hm : Moves cfg x KVMove.Adds s₀ s)
    (hp : Placed g x.r.requestId skipped kept 0 s₀ s)
    (hfit : 0 < external → (s.2.blocks g x.r.requestId).length ≤ cdiv total spec.blockSize) :
    Triple (fun t => t = s) (allocateExternal spec g x.r.requestId total external)
      (fun _ t => Moves cfg x KVMove.Adds s₀ t ∧ Placed g x.r.requestId skipped kept
        (if external > 0 then cdiv total spec.blockSize - (s.2.blocks g x.r.requestId).length
          else 0) s₀ t)
      (fun _ t => Moves cfg x KVMove.Adds s₀ t) := by
  unfold allocateExternal
  refine .ite (fun hext => ?_) fun hext => ?_
  · rw [if_pos hext]
    have hlen := hfit hext
    have henter := hm.enter g trivial
    have hint : (cdiv total spec.blockSize : Int) - (s.2.blocks g x.r.requestId).length =
        ↑(cdiv total spec.blockSize - (s.2.blocks g x.r.requestId).length) := by omega
    refine .bind_run (tableOf_run ..) ?_
    rw [getNewBlocksInt, hint, if_pos (Int.natCast_nonneg _), Int.toNat_natCast]
    refine .bind ((getNewBlocks_spec (henter.owned hs) _).mapError
      fun _ t h => h ▸ henter) fun bs => ?_
    refine .of_forall fun t hb => ?_
    obtain ⟨hn, rfl, rfl⟩ := hb
    exact .of_ok rfl ⟨henter.grow g hn, hp.grow (hm.owned hs) hn⟩
  · rw [if_neg hext]
    exact .of_ok rfl ⟨hm, hp⟩

section
variable (hs : Owned s₀) (hg : cfg.groups[g]? = some spec) {hits : List Nat} {numLocal external : Nat}
  (hfit : HitsFit spec hits (numLocal + external) external)
  (hold : HitsHold cfg x.r spec g s₀.1 (spec.numSkippedBlocks (numLocal + external))
    (keptHits spec hits (numLocal + external)))
include hs hg hfit hold

theorem addComputedBlocks_spec :
    Triple (· = s₀)
      (addComputedBlocks spec g x.r.requestId cfg.enableCaching hits numLocal external)
      (fun _ s => Moves cfg x KVMove.Adds s₀ s ∧
        Placed g x.r.requestId (spec.numSkippedBlocks (numLocal + external))
          (keptHits spec hits (numLocal + external))
          (numExternalBlocks spec hits (numLocal + external) external) s₀ s)
      (fun _ s => Moves cfg x KVMove.Adds s₀ s) := by
  unfold addComputedBlocks
  have henter : Moves cfg x KVMove.Adds s₀ ((KVMove.enter g x.r.requestId).next s₀) :=
    Moves.enter .refl g trivial
  refine .bind_run (tableOf_run ..) (.bind_check (fun hempty => ?_) fun _ => henter)
  replace hempty : s₀.2.blocks g x.r.requestId = [] := by simpa using hempty
  refine .bind ((touchComputed_spec (henter.owned hs) (x := x) hold).mapError
    fun _ t h => h ▸ henter) fun _ => ?_
  have hadopt := Moves.adopt hg hempty hold
  have hlist : (s₀.2.setBlocks g x.r.requestId (s₀.2.blocks g x.r.requestId)).blocks g
      x.r.requestId = [] := (blocks_setBlocks_self ..).trans hempty
  refine .bind_run (show _ = (Except.ok (), _) from rfl) (.bind_run (show _ =
    (Except.ok (), (KVMove.adopt g x.r.requestId (spec.numSkippedBlocks (numLocal + external))
      (keptHits spec hits (numLocal + external))).next
        ((KVMove.enter g x.r.requestId).next s₀)) from ?_) ?_)
  · simp only [modifyTables, Call.modify, KVMove.next, hlist, nil_append,
      blocks_setBlocks_self, length_append, length_replicate]
    rfl
  · have hlen : (((KVMove.adopt g x.r.requestId (spec.numSkippedBlocks (numLocal + external))
        (keptHits spec hits (numLocal + external))).next
          ((KVMove.enter g x.r.requestId).next s₀)).2.blocks g x.r.requestId).length =
        numPlaced spec hits (numLocal + external) := by
      refine (congrArg List.length (blocks_setBlocks_self ..)).trans ?_
      rw [length_append, length_replicate, numPlaced]
    have hext := allocateExternal_spec spec (numLocal + external)
      (externalTokens spec (numLocal + external) external) hs hadopt (hold.placed hs)
      fun h => hlen ▸ hfit h
    rw [hlen] at hext
    exact hext

theorem allocateNewComputedBlocks_spec :
    Triple (· = s₀)
      (allocateNewComputedBlocks spec g x.r.requestId cfg.enableCaching hits numLocal external)
      (fun _ s => if s₀.2.numCachedBlock.contains (g, x.r.requestId) then s = s₀ ∧ hits = [] else
        Moves cfg x KVMove.Adds s₀ s ∧
        Placed g x.r.requestId (spec.numSkippedBlocks (numLocal + external))
          (keptHits spec hits (numLocal + external))
          (numExternalBlocks spec hits (numLocal + external) external) s₀ s)
      (fun _ s => Moves cfg x KVMove.Adds s₀ s) := by
  unfold allocateNewComputedBlocks
  refine .bind_get (.ite (fun hc => ?_) fun hc => ?_)
  · simp only [hc, if_true]
    exact .check (fun _ h hnil => ⟨h, by simpa using hnil⟩) fun _ h _ => h ▸ .refl
  · simp only [if_neg hc]
    exact addComputedBlocks_spec hs hg hfit hold

end

/-! ### Caching blocks -/

theorem cacheOne_spec (hs : Owned s₀) (hc : s₀.1.enableCaching = true)
    (hg : cfg.groups[g]? = some spec) (hb : (s₀.2.blocks g x.r.requestId)[i]? = some b)
    (hi : (i + 1) * spec.blockSize ≤ x.cacheTokens) :
    Commits cfg x s₀ (cacheOne b (cfg.blockKeys spec g x.r.blockHashes)[i]?) := by
  unfold cacheOne
  refine .bind_get (.ite (fun _ => .of_ok rfl .refl) fun hnull => ?_)
  refine .bind_check (fun hnone => ?_) fun _ => .refl
  rcases hkey : (cfg.blockKeys spec g x.r.blockHashes)[i]? with _ | key
  · exact .of_error rfl .refl
  · have hkeys : i < cfg.numKeys spec x.r.blockHashes ∧
        key = (cfg.blockKey spec x.r.blockHashes i, g) := by
      obtain ⟨hlt, hk⟩ := List.getElem?_eq_some_iff.mp hkey
      simp only [blockKeys, length_map, length_range] at hlt
      simp only [blockKeys, getElem_map, getElem_range] at hk
      exact ⟨hlt, hk.symm⟩
    have h0 : b ≠ 0 := hs.inv.isNull_eq_false_iff.mp (by simpa using hnull)
    have hget : (s₀.2.blocks g x.r.requestId).getD i 0 = b := by
      rw [getD_eq_getElem?_getD, hb]
      rfl
    refine .of_ok (show _ = (Except.ok (), (publish g x.r.requestId i key).next s₀) from ?_)
      (.single ⟨trivial, rfl, hc, ⟨b, hb, h0, by simpa using hnone⟩, spec, hg, hi, hkeys⟩)
    simp only [KVMove.next, hget]
    rfl

theorem getElem?_drop_take {a : Nat} (h : (b, i) ∈ ((l.take n).drop a).zipIdx) :
    l[a + i]? = some b ∧ a + i < n := by
  have hi := mem_zipIdx_iff_getElem?.mp h
  simp only [getElem?_drop, getElem?_take] at hi
  split at hi
  · exact ⟨hi, ‹_›⟩
  · cases hi

section
variable (hs : Owned s₀) (hc : s₀.1.enableCaching = true) (hg : cfg.groups[g]? = some spec)
include hs hc hg

theorem cacheFullBlocks_spec (numBlockHashes numCached : Nat) :
    Commits cfg x s₀ (cacheFullBlocks numBlockHashes (cfg.blockKeys spec g x.r.blockHashes)
        (s₀.2.blocks g x.r.requestId) numCached (x.cacheTokens / spec.blockSize)) := by
  unfold cacheFullBlocks
  refine .ite (fun _ => .of_ok rfl .refl) fun _ => ?_
  refine .bind_check (fun _ => ?_) fun _ => .refl
  refine .weaken (.forEach_inv (I := fun s => Moves cfg x KVMove.Commits s₀ s)
    _ fun e he => ?_) (fun _ h => h ▸ .refl) (fun _ _ h => h) fun _ _ h => h
  obtain ⟨b, i⟩ := e
  obtain ⟨hb, hlt⟩ := getElem?_drop_take he
  refine .of_forall fun s hm => ?_
  have hi : (numCached + i + 1) * spec.blockSize ≤ x.cacheTokens :=
    (Nat.mul_le_mul_right _ hlt).trans (Nat.div_mul_le_self _ _)
  have hblocks := hm.blocks_of_commits g x.r.requestId
  exact (cacheOne_spec (hm.owned hs) (hm.enableCaching.trans hc) hg (hblocks ▸ hb) hi).post
    (fun _ _ h => hm.trans h) fun _ _ h => hm.trans h

theorem baseCacheBlocks_spec : Commits cfg x s₀ (cfg.baseCacheBlocks spec g x.r x.cacheTokens) := by
  unfold baseCacheBlocks
  refine .bind_get (.ite (fun _ => .of_ok rfl .refl) fun _ => ?_)
  refine .bind_run (tableOf_run ..) ?_
  have henter : Moves cfg x KVMove.Commits s₀ ((KVMove.enter g x.r.requestId).next s₀) :=
    .enter .refl g trivial
  have hloop := cacheFullBlocks_spec (henter.owned hs) (x := x) hc hg x.r.blockHashes.length
    ((s₀.2.numCachedBlock.get? (g, x.r.requestId)).getD 0)
  rw [blocks_enter] at hloop
  refine .bind (hloop.post (fun _ _ h => henter.trans h)
    fun _ _ h => henter.trans h) fun _ => .of_forall fun s hm => ?_
  exact .of_ok rfl (.step (setCached g x.r.requestId _ : KVMove D) hm
    ⟨trivial, rfl⟩)

end

theorem markCached_spec (b : Nat) : Commits cfg x s₀ (markCached g b) := by
  unfold markCached
  refine .bind_get (.ite (fun _ => .of_ok rfl .refl) fun _ => ?_)
  rcases s₀.1.hash b with _ | key
  · exact .of_error rfl .refl
  · exact .of_ok rfl (.step (.mark _ : KVMove D) .refl ⟨trivial, trivial⟩)

theorem cacheBlocksOfGroup_spec (hs : Owned s₀) (hc : s₀.1.enableCaching = true)
    (hg : cfg.groups[g]? = some spec) :
    Commits cfg x s₀ (cfg.cacheBlocksOfGroup spec g x.r x.cacheTokens) := by
  unfold cacheBlocksOfGroup
  refine .bind_run (show _ = (Except.ok _, s₀) from rfl) ?_
  refine .bind (baseCacheBlocks_spec hs hc hg) fun _ => .of_forall fun s hm => ?_
  refine .bind_get (.ite (fun _ => ?_) fun _ => .of_ok rfl hm)
  refine .weaken (.forEach_inv (I := fun s => Moves cfg x KVMove.Commits s₀ s)
    _ fun b _ => .of_forall fun t ht => ?_) (fun _ h => h ▸ hm) (fun _ _ h => h)
    fun _ _ h => h
  exact (markCached_spec b).post (fun _ _ h => ht.trans h)
    fun _ _ h => ht.trans h

end
end Vllm
