import Vllm.Core.KVCacheManager

/-! The exceptions of the KV cache manager that the scheduler calls. It raises no `KeyError`, and
its assertions are its own. -/

set_option linter.unusedSectionVars false

namespace Vllm
open Base Call

/-- The exceptions of `EncoderCacheManager`: a key that is missing, or an `assert` of `allocate`. -/
@[grind =] def EncoderFault (e : PyError) : Prop :=
  e = .keyError ∨ e = .assertionError "self.num_free_slots >= num_encoder_embeds" ∨
    e = .assertionError "self.num_freeable_slots >= num_encoder_embeds"

namespace BlockPool
variable {K α : Type} [DecidableEq K]

@[grind ←] theorem avoids_modifyPool (f : BlockPool K → BlockPool K) :
    Avoids EncoderFault (modifyPool f : PoolCall K α Unit) := avoids_modify _

@[grind ←] theorem avoids_removeFree (b : Nat) :
    Avoids EncoderFault (removeFree b : PoolCall K α Unit) := by
  intro s e s' h
  unfold removeFree at h
  grind

@[grind ←] theorem avoids_popleftN (n : Nat) :
    Avoids EncoderFault (popleftN n : PoolCall K α (List Nat)) := by
  intro s e s' h
  unfold popleftN at h
  grind

@[grind ←] theorem avoids_maybeEvictCachedBlock (hk : Hooks K α) (b : Nat) :
    Avoids EncoderFault (maybeEvictCachedBlock hk b) := by
  intro s e s' h
  unfold maybeEvictCachedBlock at h
  grind

@[grind ←] theorem avoids_allocateOne (hk : Hooks K α) (b : Nat) :
    Avoids EncoderFault (allocateOne hk b) := by
  unfold allocateOne evictIfCaching
  grind

@[grind ←] theorem avoids_getNewBlocks (n : Nat) :
    Avoids EncoderFault (getNewBlocks (Hooks.none : Hooks K α) n) := by
  unfold getNewBlocks
  refine avoids_bind avoids_get fun s => avoids_bind (avoids_check ?_) fun _ =>
    avoids_bind (avoids_popleftN n) fun ret => avoids_bind (avoids_forEach fun b => ?_) fun _ =>
      avoids_bind (avoids_zoom (avoids_pure ())) fun _ => avoids_pure ret
  · simp [EncoderFault]
  · exact avoids_allocateOne _ b

@[grind ←] theorem avoids_touchOne (hk : Hooks K α) (b : Nat) :
    Avoids EncoderFault (touchOne hk b) := by
  unfold touchOne leaveFree
  grind

@[grind ←] theorem avoids_touch (hk : Hooks K α) (blocks : List Nat) :
    Avoids EncoderFault (touch hk blocks) := avoids_forEach (avoids_touchOne hk)

@[grind ←] theorem avoids_freeBlocks (hk : Hooks K α) (blocks : List Nat) :
    Avoids EncoderFault (freeBlocks hk blocks) := by
  unfold freeBlocks
  grind

@[grind ←] theorem avoids_cacheOne (b : Nat) (key : Option K) :
    Avoids EncoderFault (cacheOne b key : PoolCall K α Unit) := by
  unfold cacheOne
  grind

@[grind ←] theorem avoids_cacheFullBlocks (numBlockHashes : Nat) (keys : List K) (blocks : List Nat)
    (numCachedBlocks numFullBlocks : Nat) :
    Avoids EncoderFault (cacheFullBlocks numBlockHashes keys blocks numCachedBlocks numFullBlocks :
      PoolCall K α Unit) := by
  unfold cacheFullBlocks
  split
  · exact avoids_pure ()
  · refine avoids_bind (avoids_check (by grind)) fun _ => avoids_forEach fun x => ?_
    exact avoids_cacheOne _ _

end BlockPool

section
variable {D : Type} [DecidableEq D] (spec : KVCacheSpec) (g : Nat) (requestId : String)

@[grind ←] theorem avoids_modifyTables (f : Tables D → Tables D) :
    Avoids EncoderFault (modifyTables f) := avoids_modify _

@[grind ←] theorem avoids_tableOf : Avoids EncoderFault (tableOf g requestId : KVCall D _) := by
  unfold tableOf
  grind

@[grind ←] theorem avoids_extendTable (blocks : List Nat) :
    Avoids EncoderFault (extendTable g requestId blocks : KVCall D _) := avoids_modifyTables _

@[grind ←] theorem avoids_getNumBlocksToAllocate (numTokens : Nat) (hits : List Nat) (total : Nat) :
    Avoids EncoderFault
      (getNumBlocksToAllocate spec g requestId numTokens hits total : KVCall D _) := by
  unfold getNumBlocksToAllocate baseNumBlocksToAllocate
  grind

@[grind ←] theorem avoids_getNewBlocksInt (n : Int) :
    Avoids EncoderFault (getNewBlocksInt n : KVCall D _) := by
  unfold getNewBlocksInt
  grind

@[grind ←] theorem avoids_allocateExternal (numTotal numExternal : Nat) :
    Avoids EncoderFault (allocateExternal spec g requestId numTotal numExternal : KVCall D _) := by
  unfold allocateExternal
  grind

section
variable (caching : Bool) (hits : List Nat)
include hits

@[grind ←] theorem avoids_touchComputed :
    Avoids EncoderFault (touchComputed caching hits : KVCall D _) := by
  unfold touchComputed
  grind

@[grind ←] theorem avoids_addComputedBlocks (numLocal numExternal : Nat) : Avoids EncoderFault
      (addComputedBlocks spec g requestId caching hits numLocal numExternal : KVCall D _) := by
  unfold addComputedBlocks
  grind

@[grind ←] theorem avoids_allocateNewComputedBlocks
    (numLocal numExternal : Nat) : Avoids EncoderFault
      (allocateNewComputedBlocks spec g requestId caching hits numLocal numExternal : KVCall D _) := by
  unfold allocateNewComputedBlocks
  grind

end

@[grind ←] theorem avoids_allocateNewBlocks (numTokens : Nat) :
    Avoids EncoderFault (allocateNewBlocks spec g requestId numTokens : KVCall D _) := by
  unfold allocateNewBlocks
  grind

@[grind ←] theorem avoids_free : Avoids EncoderFault (free g requestId : KVCall D _) := by
  unfold free
  grind

@[grind ←] theorem avoids_removeSkippedBlocks (total : Nat) :
    Avoids EncoderFault (removeSkippedBlocks spec g requestId total : KVCall D _) := by
  unfold removeSkippedBlocks baseRemoveSkippedBlocks
  grind

end

/-! ## Hits -/

section
variable {e : PyError}

variable {lookup : Nat → Option Row} {width numKeys maxLength alignment : Nat} {useEagle : Bool}

theorem slidingWindowHit_error {blockSize window : Nat}
    (h : slidingWindowHit lookup width numKeys blockSize window maxLength alignment useEagle = .error e) :
    ¬EncoderFault e := by
  unfold slidingWindowHit at h
  grind

theorem chunkedLoop_error {n i : Nat} (h : chunkedLoop lookup numKeys n i = .error e) :
    ¬EncoderFault e := by
  induction n generalizing i with
  | zero => cases h
  | succ n ih =>
    unfold chunkedLoop at h
    split at h
    · cases h
      grind
    split at h
    · next row _ =>
      cases hrest : chunkedLoop lookup numKeys n (i + 1) with
      | error e' =>
        rw [hrest] at h
        cases h
        exact ih hrest
      | ok rows =>
        rw [hrest] at h
        cases h
    · cases h

theorem chunkedLocalAttentionHit_error {blockSize size : Nat}
    (h : chunkedLocalAttentionHit lookup width numKeys blockSize size maxLength alignment useEagle = .error e) :
    ¬EncoderFault e := by
  unfold chunkedLocalAttentionHit at h
  split at h
  · grind
  split at h
  · grind
  · dsimp only at h
    generalize hloop : chunkedLoop _ _ _ _ = x at h
    cases x with
    | error e' =>
      cases h
      exact chunkedLoop_error hloop
    | ok rows => cases h

theorem findHit_error {spec : KVCacheSpec}
    (h : spec.findLongestCacheHit lookup width numKeys maxLength alignment useEagle = .error e) :
    ¬EncoderFault e := by
  unfold KVCacheSpec.findLongestCacheHit at h
  split at h
  · cases h
  · exact slidingWindowHit_error h
  · exact chunkedLocalAttentionHit_error h
  · unfold mambaHit at h
    grind

section
variable {find : KVCacheSpec → List Nat → Nat → Except PyError (List Row)}

section
variable (hfind : ∀ spec ids n, find spec ids n = .error e → ¬EncoderFault e)
include hfind

theorem hitPass_error
    {gs : List AttentionGroup} {n : Nat} (h : hitPass find gs n = .error e) : ¬EncoderFault e := by
  induction gs generalizing n with
  | nil => cases h
  | cons g gs ih =>
    unfold hitPass at h
    split at h
    · dsimp only at h
      generalize hrest : hitPass find gs _ = x at h
      cases x with
      | error e' =>
        cases h
        exact ih hrest
      | ok p => cases h
    · generalize hhit : find g.spec g.groupIds n = x at h
      cases x with
      | error e' =>
        cases h
        exact hfind _ _ _ hhit
      | ok rows =>
        change (hitPass find gs _ >>= _) = _ at h
        generalize hrest : hitPass find gs _ = y at h
        cases y with
        | error e' =>
          cases h
          exact ih hrest
        | ok p => cases h

theorem hitLoop_error
    {simple : Bool} {gs : List AttentionGroup} {n : Nat} (h : hitLoop find simple gs n = .error e) :
    ¬EncoderFault e := by
  induction gs, n using hitLoop.induct find simple with
  | case1 gs n e' hpass =>
    rw [hitLoop, hpass] at h
    cases h
    exact hitPass_error hfind hpass
  | case2 gs n gs' n' hpass hge =>
    rw [hitLoop, hpass] at h
    simp only [if_pos hge] at h
    cases h
  | case3 gs n gs' n' hpass hlt hsimple =>
    rw [hitLoop, hpass] at h
    simp only [if_neg hlt, if_pos hsimple] at h
    cases h
  | case4 gs n gs' n' hpass hlt hsimple ih =>
    rw [hitLoop, hpass] at h
    simp only [if_neg hlt, if_neg hsimple] at h
    exact ih h

end

end
end

/-! ## The coordinator and the manager -/

namespace KVCacheConfig
variable {D : Type} [DecidableEq D] {cfg : KVCacheConfig}

theorem findLongestCacheHit_error {p : BlockPool (BlockKey D)} {blockHashes : List D} {n : Nat}
    {e : PyError} (h : cfg.findLongestCacheHit p blockHashes n = .error e) : ¬EncoderFault e := by
  unfold findLongestCacheHit at h
  split at h
  · split at h
    · unfold unitaryHit at h
      generalize hhit : cfg.findHit p blockHashes _ _ _ _ = x at h
      cases x with
      | error e' =>
        cases h
        exact findHit_error hhit
      | ok rows => cases h
    · unfold hybridHit at h
      dsimp only at h
      generalize hloop : hitLoop _ _ _ _ = x at h
      cases x with
      | error e' =>
        cases h
        exact hitLoop_error (fun _ _ _ hfind => findHit_error hfind) hloop
      | ok gs => cases h
  · cases h

@[grind ←] theorem avoids_getComputedBlocks (r : Request D) (skip : Bool) :
    Avoids EncoderFault (cfg.getComputedBlocks r skip) := by
  intro s e s' h
  unfold getComputedBlocks at h
  rw [get_bind] at h
  split at h
  · cases h
  cases hhit : cfg.findLongestCacheHit s.1 r.blockHashes (r.numTokens - 1) with
  | error e' =>
    rw [hhit] at h
    cases h
    exact findLongestCacheHit_error hhit
  | ok hits =>
    rw [hhit] at h
    cases h

@[grind ←] theorem avoids_baseCacheBlocks (spec : KVCacheSpec) (g : Nat) (r : Request D) (n : Nat) :
    Avoids EncoderFault (cfg.baseCacheBlocks spec g r n) := by
  unfold baseCacheBlocks
  grind

@[grind ←] theorem avoids_markCached (g b : Nat) :
    Avoids EncoderFault (markCached g b : KVCall D _) := by
  unfold markCached
  grind

@[grind ←] theorem avoids_cacheBlocksOfGroup (spec : KVCacheSpec) (g : Nat) (r : Request D) (n : Nat) :
    Avoids EncoderFault (cfg.cacheBlocksOfGroup spec g r n) := by
  unfold cacheBlocksOfGroup
  grind

section
variable (r : Request D) (a : SlotArgs)

@[grind ←] theorem avoids_commitBlocks : Avoids EncoderFault (cfg.commitBlocks r a) := by
  unfold commitBlocks coordinatorCacheBlocks
  grind

@[grind ←] theorem avoids_placeBlocks : Avoids EncoderFault (cfg.placeBlocks r a) := by
  unfold placeBlocks placeHits allocateNewComputedBlocks allocateNewBlocks
  grind

@[grind ←] theorem avoids_allocateSlots : Avoids EncoderFault (cfg.allocateSlots r a) := by
  unfold allocateSlots removeSkippedBlocks getNumBlocksToAllocate
  grind

end

@[grind ←] theorem avoids_freeRequest (requestId : String) :
    Avoids EncoderFault (cfg.free requestId : KVCall D _) := by
  unfold free
  grind

@[grind ←] theorem avoids_newStepStarts : Avoids EncoderFault (newStepStarts : KVCall D _) :=
  avoids_modifyTables _

end KVCacheConfig
end Vllm
