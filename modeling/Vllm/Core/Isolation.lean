import Vllm.Core.BlockHashing

/-! What equal block hashes say about two requests. The extra keys of a block are concatenated
without a tag for their kind, and the multimodal keys of a later block depend on where the cursor
restarts, so two requests are told apart only under the conditions of `Separable`. -/

namespace Vllm
open Base Request List PlaceholderRange
variable {D : Type}

/-! ## Splitting lists -/

def Request.arrive (H : BlockHasher D) (q : EngineCoreRequest) (groups : List (List Token)) :
    Except String (Request D) := do
  let r ← fromEngineCoreRequest H q
  return groups.foldl (appendOutputTokenIds H) r

/-- The first block that is not full with prompt tokens restarts the cursor at the last feature:
no other feature may reach into it and the last one may not end where it starts. -/
def Request.CursorRestarts (blockSize : Nat) (r : Request D) : Prop :=
  let s := r.numPromptTokens / blockSize * blockSize
  s = 0 ∨ (∀ f ∈ r.mmFeatures.dropLast, f.mmPosition.stop ≤ s) ∧
    ∀ f ∈ r.mmFeatures.getLast?, f.mmPosition.stop ≠ s

section
variable {H : BlockHasher D} {r : Request D} {i : Nat}

theorem Request.cursorAt_neg_one (ho : MmOrdered r.mmFeatures) {s : Nat}
    (hinit : ∀ f ∈ r.mmFeatures.dropLast, f.mmPosition.stop ≤ s)
    (hlast : ∀ f ∈ r.mmFeatures.getLast?, f.mmPosition.stop ≠ s) : r.CursorAt s (-1) := by
  rcases hl : r.mmFeatures.getLast? with _ | last
  · exact cursorAt_of_no_features (getLast?_eq_none_iff.mp hl) _ _
  by_cases hlt : last.mmPosition.stop < s
  · exact .inl fun f hf => lt_of_le_of_lt (ho.stop_le_getLast hl hf) hlt
  · have hne := hlast last hl
    obtain ⟨ys, hys⟩ := getLast?_eq_some_iff.mp hl
    have hidx : r.mmIdx (-1) = ys.length := by
      simp only [mmIdx, hys, length_append, length_singleton]
      omega
    refine .inr ⟨?_, ?_⟩
    · rw [hidx, hys, take_left]
      rw [hys, dropLast_concat] at hinit
      exact hinit
    · rw [hidx, hys, drop_left]
      intro f hf
      rw [mem_singleton.mp hf]
      omega

structure Arrived (H : BlockHasher D) (r : Request D) : Prop where
  prompt_le : r.numPromptTokens ≤ r.numTokens
  blocks_le : r.numPromptTokens / H.blockSize ≤ r.blockHashes.length
  promptChain : r.chainUpTo H (r.numPromptTokens / H.blockSize) <+: r.blockHashes
  chain : r.CursorRestarts H.blockSize →
    r.blockHashes = r.chainUpTo H (r.numTokens / H.blockSize)

variable {q : EngineCoreRequest}

section
variable (h : fromEngineCoreRequest H q = .ok r)
include h

theorem numPromptTokens_fromEngineCoreRequest : r.numPromptTokens = r.numTokens := by
  obtain ⟨n, hn, hr⟩ := fromEngineCoreRequest_eq h
  rw [hr]
  change n = (q.promptTokenIds.getD (List.replicate n 0)).length
  unfold lengthFromPromptTokenIdsOrEmbeds at hn
  split at hn
  · cases hn
  · rename_i hq _
    simp [hq]
  · rename_i hq _
    simpa [hq] using hn.symm
  · rename_i hq _
    split at hn
    · cases hn
    · simpa [hq] using hn.symm

end

theorem Arrived.append (h : Arrived H r) (ho : MmOrdered r.mmFeatures)
    (hp : ∀ f ∈ r.mmFeatures, f.mmPosition.stop ≤ r.numPromptTokens) (toks : List Token) :
    Arrived H (r.appendOutputTokenIds H toks) := by
  -- the request with the new tokens, before its hashes are extended
  let q : Request D := { r with
    outputTokenIds := r.outputTokenIds ++ toks
    allTokenIds := r.allTokenIds ++ toks }
  have hnum : r.numTokens ≤ q.numTokens := by simp [q, numTokens]
  have htake : ∀ k, k * H.blockSize ≤ r.numTokens →
      q.chainUpTo H k = r.chainUpTo H k := fun k hk =>
    chainUpTo_congr rfl rfl rfl rfl (take_append_of_le_length hk)
  have hprompt : r.numPromptTokens / H.blockSize * H.blockSize ≤ r.numTokens :=
    (Nat.div_mul_le_self _ _).trans h.prompt_le
  refine ⟨h.prompt_le.trans hnum, ?_, ?_, fun hcur => ?_⟩
  · exact h.blocks_le.trans (prefix_append _ (requestBlockHasher H q)).length_le
  · change q.chainUpTo H (r.numPromptTokens / H.blockSize) <+: r.blockHashes ++ _
    rw [htake _ hprompt]
    exact h.promptChain.trans (prefix_append _ _)
  · have hchain := h.chain hcur
    have hlen : r.blockHashes.length = r.numTokens / H.blockSize := by
      rw [hchain, length_chainUpTo]
    refine append_requestBlockHasher (r := q) ?_ (keysOverlap_of_cursor ho ?_) ?_
    · change r.blockHashes.length ≤ _
      rw [hlen]
      exact Nat.div_le_div_right hnum
    · intro hpos
      change q.CursorAt (r.blockHashes.length * H.blockSize) (-1)
      rcases h.blocks_le.lt_or_eq with hlt | heq
      · -- past the prompt every feature has ended
        refine .inl fun f hf => lt_of_le_of_lt (hp f hf) ?_
        rw [← Nat.div_lt_iff_lt_mul H.blockSize_pos]
        exact hlt
      · rw [← heq] at hpos ⊢
        rcases hcur with h0 | ⟨hinit, hlast⟩
        · exact absurd h0 (Nat.mul_pos hpos H.blockSize_pos).ne'
        · exact cursorAt_neg_one (r := q) ho hinit hlast
    · change r.blockHashes = q.chainUpTo H r.blockHashes.length
      rw [htake _ (by rw [hlen]; exact Nat.div_mul_le_self _ _), hlen]
      exact hchain

theorem foldl_append_meta (groups : List (List Token)) (r : Request D) :
    let r' := groups.foldl (appendOutputTokenIds H) r
    r'.mmFeatures = r.mmFeatures ∧ r'.numPromptTokens = r.numPromptTokens := by
  induction groups generalizing r with
  | nil => exact ⟨rfl, rfl⟩
  | cons g groups ih => exact ih (r.appendOutputTokenIds H g)

theorem Arrived.foldl (h : Arrived H r) (ho : MmOrdered r.mmFeatures)
    (hp : ∀ f ∈ r.mmFeatures, f.mmPosition.stop ≤ r.numPromptTokens) (groups : List (List Token)) :
    Arrived H (groups.foldl (appendOutputTokenIds H) r) := by
  induction groups generalizing r with
  | nil => exact h
  | cons g groups ih => exact ih (h.append ho hp g) ho hp

end

/-! ## Reading the keys back -/

section
variable {H : BlockHasher D} {r r' : Request D} {i : Nat}

section
variable (ho : MmOrdered r.mmFeatures)
include ho

end

end

end Vllm
