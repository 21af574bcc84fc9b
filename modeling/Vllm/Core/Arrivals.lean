import Vllm.Core.Isolation

/-! The multimodal keys of a request whose tokens arrive in several calls. Every call but the first
that hashes a block starts with the cursor at the last feature, so the keys of its blocks can only
be of that one. -/

namespace Vllm.Request
open Base List
variable {D : Type} {H : BlockHasher D} {r : Request D}

/-- No feature but the last overlaps the blocks that are to be hashed, and the last one does not end
where they start. -/
def RestartCovers (H : BlockHasher D) (r : Request D) : Prop :=
  let s := r.blockHashes.length * H.blockSize
  let e := r.numTokens / H.blockSize * H.blockSize
  s = 0 ∨ e ≤ s ∨
    (∀ f ∈ r.mmFeatures.dropLast, f.mmPosition.stop ≤ s ∨ e ≤ f.mmPosition.offset) ∧
      ∀ f ∈ r.mmFeatures.getLast?, f.mmPosition.stop ≠ s

instance : Decidable (RestartCovers H r) := by unfold RestartCovers; infer_instance

/-! ## The cursor at the last feature -/

section
variable {ys : List MultiModalFeatureSpec} {last : MultiModalFeatureSpec} {s e : Nat} {mm : Int}

section
variable (hfs : r.mmFeatures = ys ++ [last])
include hfs

theorem genMmExtraHashKeys_at_last
    (hpos : 0 < last.mmPosition.length) (hmm : r.mmIdx mm = ys.length)
    (hs : s ≤ last.mmPosition.stop) :
    genMmExtraHashKeys r s e mm =
      (if last.mmPosition.offset < e then [last.identifier] else [],
        ((ys.length + if last.mmPosition.stop ≤ e then 1 else 0 : Nat) : Int)) := by
  unfold PlaceholderRange.stop at *
  have hlast : r.mmFeatures.getLast? = some last := by simp [hfs]
  have hdrop : r.mmFeatures.drop ys.length = [last] := by simp [hfs]
  rw [genMmExtraHashKeys, hlast]
  simp only [if_neg (Nat.not_lt.mpr hs), hmm, hdrop, mmLoop]
  split
  · split <;> rfl
  · rw [if_neg (by omega)]

theorem idsOverlapping_at_last (hs : s < last.mmPosition.stop) :
    r.idsOverlapping s e =
      (ys.filter fun f => f.mmPosition.offset < e ∧ s < f.mmPosition.stop).map (·.identifier) ++
        if last.mmPosition.offset < e then [last.identifier] else [] := by
  rw [idsOverlapping, hfs, filter_append, map_append]
  congr 1
  split <;> simp [*]

theorem keys_at_last_iff (hs : s < last.mmPosition.stop) :
    (if last.mmPosition.offset < e then [last.identifier] else []) = r.idsOverlapping s e ↔
      ∀ f ∈ ys, f.mmPosition.stop ≤ s ∨ e ≤ f.mmPosition.offset := by
  rw [idsOverlapping_at_last hfs hs, self_eq_append_left, map_eq_nil_iff, filter_eq_nil_iff]
  refine forall₂_congr fun f _ => ?_
  simp only [decide_eq_true_eq]
  omega

theorem mmKeys_succ_iff (hpos : 0 < last.mmPosition.length)
    {b j : Nat} (hmm : r.mmIdx mm = ys.length) (hs : j * b < last.mmPosition.stop) (n : Nat) :
    r.mmKeys b (n + 1) j mm = r.overlapKeys b j (n + 1) ↔
      (∀ f ∈ ys, f.mmPosition.stop ≤ j * b ∨ (j + 1) * b ≤ f.mmPosition.offset) ∧
        r.mmKeys b n (j + 1) ↑(ys.length + if last.mmPosition.stop ≤ (j + 1) * b then 1 else 0) =
          r.overlapKeys b (j + 1) n := by
  rw [mmKeys, overlapKeys, range'_succ, map_cons, genMmExtraHashKeys_at_last hfs hpos hmm hs.le,
    cons.injEq, keys_at_last_iff hfs hs]
  rfl

end

/-- With the cursor at the last feature, which has not ended, the keys of the next blocks are right
just when the other features leave these blocks alone. -/
theorem mmKeys_at_last_iff (ho : MmOrdered r.mmFeatures) (hfs : r.mmFeatures = ys ++ [last])
    {b j : Nat} (hmm : r.mmIdx mm = ys.length) (hs : j * b < last.mmPosition.stop) (n : Nat) :
    r.mmKeys b (n + 1) j mm = r.overlapKeys b j (n + 1) ↔
      ∀ f ∈ ys, f.mmPosition.stop ≤ j * b ∨ (j + (n + 1)) * b ≤ f.mmPosition.offset := by
  have hall : ∀ f ∈ r.mmFeatures, f.mmPosition.offset < f.mmPosition.stop ∧
      f.mmPosition.stop ≤ last.mmPosition.stop := fun f hf =>
    ⟨Nat.lt_add_of_pos_right (ho.pos f hf), ho.stop_le_getLast (by simp [hfs]) hf⟩
  have hys : ∀ f ∈ ys, f ∈ r.mmFeatures := fun f hf => hfs ▸ mem_append_left _ hf
  induction n generalizing j mm with
  | zero =>
    rw [mmKeys_succ_iff hfs (ho.pos last (by simp [hfs])) hmm hs]
    exact and_iff_left rfl
  | succ n ih =>
    have hstep : j * b ≤ (j + 1) * b := Nat.mul_le_mul_right b (Nat.le_succ j)
    have hend : (j + 1) * b ≤ (j + (n + 1 + 1)) * b := Nat.mul_le_mul_right b (by omega)
    rw [mmKeys_succ_iff hfs (ho.pos last (by simp [hfs])) hmm hs]
    by_cases hstop : last.mmPosition.stop ≤ (j + 1) * b
    · -- the last feature ends in this block, and no feature overlaps a later one
      rw [if_pos hstop, mmKeys_of_cursor ho, and_iff_left rfl]
      · refine forall₂_congr fun f hf => ?_
        have := hall f (hys f hf)
        omega
      · refine .inr ⟨fun f hf => (hall f (mem_of_mem_take hf)).2.trans hstop, ?_⟩
        rw [mmIdx_natCast, drop_eq_nil_of_le (by simp [hfs])]
        simp
    · have hnext := ih (mmIdx_natCast ys.length) (Nat.not_le.mp hstop)
      rw [if_neg hstop]
      refine (and_congr_right' hnext).trans (forall₂_and.symm.trans (forall₂_congr fun f hf => ?_))
      have hlt := (hall f (hys f hf)).1
      rw [show j + 1 + (n + 1) = j + (n + 1 + 1) by omega]
      omega

end

theorem keysOverlap_iff (ho : MmOrdered r.mmFeatures) : r.KeysOverlap H ↔ r.RestartCovers H := by
  by_cases hk : r.blockHashes.length = 0
  · refine iff_of_true (keysOverlap_of_cursor ho fun h => absurd hk h.ne') (.inl ?_)
    rw [hk, Nat.zero_mul]
  have hs : r.blockHashes.length * H.blockSize > 0 :=
    Nat.mul_pos (Nat.pos_of_ne_zero hk) H.blockSize_pos
  by_cases hn : r.numTokens / H.blockSize ≤ r.blockHashes.length
  · refine iff_of_true ?_ (.inr (.inl (Nat.mul_le_mul_right _ hn)))
    rw [KeysOverlap, keysOfCall, Nat.sub_eq_zero_of_le hn]
    rfl
  have he := Nat.mul_lt_mul_of_pos_right (Nat.not_le.mp hn) H.blockSize_pos
  rcases hl : r.mmFeatures.getLast? with _ | last
  · have hnil := getLast?_eq_none_iff.mp hl
    exact iff_of_true (keysOverlap_of_cursor ho fun _ => cursorAt_of_no_features hnil _ _)
      (.inr (.inr (by simp [hnil])))
  obtain ⟨ys, hfs⟩ := getLast?_eq_some_iff.mp hl
  have hcovers : r.RestartCovers H ↔
      (∀ f ∈ ys, f.mmPosition.stop ≤ r.blockHashes.length * H.blockSize ∨
        r.numTokens / H.blockSize * H.blockSize ≤ f.mmPosition.offset) ∧
      last.mmPosition.stop ≠ r.blockHashes.length * H.blockSize := by
    simp [RestartCovers, hs.ne', Nat.not_le.mpr he, hfs]
  obtain ⟨n, hn'⟩ := Nat.exists_eq_add_of_lt (Nat.not_le.mp hn)
  have hmm : r.mmIdx (-1) = ys.length := by
    simp only [mmIdx, hfs, length_append, length_singleton]
    omega
  rw [hcovers, KeysOverlap, keysOfCall, if_pos hs, hn', Nat.add_assoc, Nat.add_sub_cancel_left]
  rcases Nat.lt_trichotomy last.mmPosition.stop (r.blockHashes.length * H.blockSize) with h | h | h
  · have hall : ∀ f ∈ r.mmFeatures, f.mmPosition.stop < r.blockHashes.length * H.blockSize :=
      fun f hf => lt_of_le_of_lt (ho.stop_le_getLast hl hf) h
    exact iff_of_true (mmKeys_of_cursor ho (.inl hall))
      ⟨fun f hf => .inl (hall f (hfs ▸ mem_append_left _ hf)).le, h.ne⟩
  · -- the first block gets the last feature as its key, and overlaps none
    refine iff_of_false (fun hkeys => ?_) fun hc => hc.2 h
    have hpos := ho.pos last (mem_of_getLast? hl)
    have hin : last.mmPosition.offset < (r.blockHashes.length + 1) * H.blockSize := by
      rw [Nat.succ_mul, ← h]
      exact Nat.lt_add_right _ (Nat.lt_add_of_pos_right hpos)
    rw [mmKeys, overlapKeys, range'_succ, map_cons, cons.injEq,
      genMmExtraHashKeys_at_last hfs hpos hmm h.ge, if_pos hin,
      idsOverlapping_eq_nil fun f hf => (ho.stop_le_getLast hl hf).trans h.le] at hkeys
    exact absurd hkeys.1 (cons_ne_nil _ _)
  · rw [mmKeys_at_last_iff ho hfs hmm h, and_iff_left h.ne']

/-! ## The calls of an arriving request -/

def withTokens (r : Request D) (toks : List Token) : Request D :=
  { r with
    outputTokenIds := r.outputTokenIds ++ toks
    allTokenIds := r.allTokenIds ++ toks }

def unhashed (r : Request D) : Request D := { r with blockHashes := [] }

def hasherCalls (H : BlockHasher D) : Request D → List (List Token) → List (Request D)
  | r, [] => [r]
  | r, toks :: groups => r :: hasherCalls H ((r.updateBlockHashes H).withTokens toks) groups

variable {groups : List (List Token)}

theorem mmFeatures_of_mem_hasherCalls {c : Request D} (hc : c ∈ r.hasherCalls H groups) :
    c.mmFeatures = r.mmFeatures := by
  induction groups generalizing r with
  | nil => rw [mem_singleton.mp hc]
  | cons toks groups ih =>
    rcases mem_cons.mp hc with rfl | hc
    · rfl
    · exact ih (r := (r.updateBlockHashes H).withTokens toks) hc

theorem blockHashes_of_hasherCalls (hk : r.blockHashes.length ≤ r.numTokens / H.blockSize)
    (hb : r.blockHashes = r.chainUpTo H r.blockHashes.length)
    (hkeys : ∀ c ∈ r.hasherCalls H groups, c.KeysOverlap H) :
    let r' := groups.foldl (appendOutputTokenIds H) (r.updateBlockHashes H)
    r'.blockHashes = r'.chainUpTo H (r'.numTokens / H.blockSize) := by
  induction groups generalizing r with
  | nil => exact append_requestBlockHasher hk (hkeys r mem_cons_self) hb
  | cons toks groups ih =>
    let c := (r.updateBlockHashes H).withTokens toks
    have hnext := append_requestBlockHasher hk (hkeys r mem_cons_self) hb
    have hlen : c.blockHashes.length = r.numTokens / H.blockSize := by
      change (r.blockHashes ++ requestBlockHasher H r).length = _
      rw [hnext, length_chainUpTo]
    have hgrow : r.numTokens ≤ c.numTokens := by simp [c, withTokens, numTokens, updateBlockHashes]
    refine ih (r := c) ?_ ?_ fun c' hc' => hkeys c' (mem_cons_of_mem _ hc')
    · rw [hlen]
      exact Nat.div_le_div_right hgrow
    · rw [hlen]
      exact hnext.trans (chainUpTo_congr rfl rfl rfl rfl
        (take_append_of_le_length (Nat.div_mul_le_self _ _)).symm)

/-- However the tokens of a request arrive, the keys of every block are the features that overlap it
and the hashes are those of a single call, exactly if every call meets `RestartCovers`. -/
theorem arrival_hashes_iff {q : EngineCoreRequest} (h : fromEngineCoreRequest H q = .ok r)
    (ho : MmOrdered q.mmFeatures) (groups : List (List Token)) :
    (∀ c ∈ r.unhashed.hasherCalls H groups, c.KeysOverlap H) ∧
        (groups.foldl (appendOutputTokenIds H) r).blockHashes =
          ((groups.foldl (appendOutputTokenIds H) r).unhashed.updateBlockHashes H).blockHashes ↔
      ∀ c ∈ r.unhashed.hasherCalls H groups, c.RestartCovers H := by
  obtain ⟨n, -, hr⟩ := fromEngineCoreRequest_eq h
  have hmm : r.mmFeatures = q.mmFeatures := by rw [hr]; rfl
  have hinit : r.unhashed.updateBlockHashes H = r := by rw [hr]; rfl
  have hfinal := (foldl_append_meta (H := H) groups r).1
  have hcalls : (∀ c ∈ r.unhashed.hasherCalls H groups, c.KeysOverlap H) ↔
      ∀ c ∈ r.unhashed.hasherCalls H groups, c.RestartCovers H := by
    refine forall₂_congr fun c hc => keysOverlap_iff ?_
    rw [mmFeatures_of_mem_hasherCalls hc]
    exact hmm ▸ ho
  rw [← hcalls]
  refine and_iff_left_of_imp fun hkeys => ?_
  have hchain := blockHashes_of_hasherCalls (Nat.zero_le _) rfl hkeys
  rw [hinit] at hchain
  have hsingle := append_requestBlockHasher
    (r := (groups.foldl (appendOutputTokenIds H) r).unhashed) (H := H) (Nat.zero_le _)
    (keysOverlap_of_cursor ((hfinal.trans hmm).symm ▸ ho) fun h0 => absurd h0 (Nat.lt_irrefl 0)) rfl
  exact hchain.trans hsingle.symm

def catAndTree : EngineCoreRequest :=
  { promptTokenIds := some [1, 2, 3, 0, 0]
    mmFeatures := [⟨"cat", ⟨3, 1, none⟩⟩, ⟨"tree", ⟨4, 1, none⟩⟩] }

/-- In blocks of two tokens only the last image reaches into the block of the first output token. -/
theorem arrival_hashes_iff_catAndTree : ∃ r, fromEngineCoreRequest (termHasher 2 (by decide))
      catAndTree = .ok r ∧ ∀ c ∈ r.unhashed.hasherCalls (termHasher 2 (by decide)) [[6], [7, 8]],
        c.KeysOverlap (termHasher 2 (by decide)) := by
  refine ⟨_, rfl, ((arrival_hashes_iff (H := termHasher 2 (by decide)) (q := catAndTree) rfl
    ⟨by decide, by decide⟩ [[6], [7, 8]]).mpr ?_).1⟩
  decide

/-- In blocks of three tokens the block of the first output token has both images, and is hashed
with the second one only. -/
theorem arrival_misses_image : ∃ r, fromEngineCoreRequest (termHasher 3 (by decide))
      catAndTree = .ok r ∧
    (r.withTokens [6]).keysOfCall (termHasher 3 (by decide)) = [["tree"]] ∧
    r.idsOverlapping 3 6 = ["cat", "tree"] ∧
    (r.appendOutputTokenIds (termHasher 3 (by decide)) [6]).blockHashes ≠
      ((r.withTokens [6]).unhashed.updateBlockHashes (termHasher 3 (by decide))).blockHashes :=
  ⟨_, rfl, by decide, by decide, by decide⟩

end Vllm.Request
