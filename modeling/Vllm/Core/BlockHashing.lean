import Mathlib.Data.Nat.Basic
import Mathlib.Order.Basic
import Vllm.Base.Call
import Vllm.Base.HashChain

/-! Block hashes of a request: `kv_cache_utils.py` from `_gen_mm_extra_hash_keys` to
`get_request_block_hasher`, and the parts of `Request` that call the hasher.

The hash function and the digest of a slice of prompt embeddings are parameters. A digest is never
the empty byte string, so `not parent_block_hash` says that there is no parent. -/

namespace Vllm
open Base List

abbrev Token := Int

/-- `isEmbed` is the mask of the positions that take an embedding; without it all do. -/
structure PlaceholderRange where
  offset : Nat
  length : Nat
  isEmbed : Option (List Bool) := none
deriving DecidableEq, Repr

def PlaceholderRange.stop (p : PlaceholderRange) : Nat := p.offset + p.length

structure MultiModalFeatureSpec where
  identifier : String
  mmPosition : PlaceholderRange
deriving DecidableEq, Repr

/-- An entry of the extra-key tuple: Python compares strings and byte strings by type and value. -/
inductive ExtraKey where
  | str (s : String)
  | bytes (b : List UInt8)
deriving DecidableEq, Repr

abbrev BlockInput := List Token × Option (List ExtraKey)

/-- The hasher's closure: `block_size`, `caching_hash_fn`, `NONE_HASH` and the embeddings digest. -/
structure BlockHasher (D : Type) where
  blockSize : Nat
  blockSize_pos : 0 < blockSize
  hashFunction : D × List Token × Option (List ExtraKey) → D
  noneHash : D
  embedsDigest : List (List UInt8) → List UInt8

structure Request (D : Type) where
  requestId : String := ""
  promptTokenIds : Option (List Token)
  promptEmbeds : Option (List (List UInt8)) := none
  numPromptTokens : Nat
  outputTokenIds : List Token := []
  allTokenIds : List Token
  numComputedTokens : Nat := 0
  loraName : Option String := none
  cacheSalt : Option String := none
  mmFeatures : List MultiModalFeatureSpec := []
  blockHashes : List D := []
deriving DecidableEq, Repr

variable {D : Type}

def Request.numTokens (r : Request D) : Nat := r.allTokenIds.length

/-- The `while` loop of `_gen_mm_extra_hash_keys` over the features from the cursor on: the
identifiers it appends and how far it moves the cursor. -/
def mmLoop (startTokenIdx endTokenIdx : Nat) : List MultiModalFeatureSpec → List String × Nat
  | [] => ([], 0)
  | f :: fs =>
    if endTokenIdx > f.mmPosition.offset then
      if startTokenIdx > f.mmPosition.offset + f.mmPosition.length then
        ((mmLoop startTokenIdx endTokenIdx fs).1, (mmLoop startTokenIdx endTokenIdx fs).2 + 1)
      else if endTokenIdx ≥ f.mmPosition.offset + f.mmPosition.length then
        (f.identifier :: (mmLoop startTokenIdx endTokenIdx fs).1,
          (mmLoop startTokenIdx endTokenIdx fs).2 + 1)
      else ([f.identifier], 0)
    else ([], 0)

def Request.mmIdx (r : Request D) (startMmIdx : Int) : Nat :=
  (if startMmIdx < 0 then r.mmFeatures.length + startMmIdx else startMmIdx).toNat

def genMmExtraHashKeys (r : Request D) (startTokenIdx endTokenIdx : Nat) (startMmIdx : Int) :
    List String × Int :=
  match r.mmFeatures.getLast? with
  | none => ([], startMmIdx)
  | some last =>
    if last.mmPosition.offset + last.mmPosition.length < startTokenIdx then ([], startMmIdx)
    else
      -- the callers pass -1 or an index, so the assertion on a negative cursor cannot fail
      let idx := r.mmIdx startMmIdx
      let (keys, moved) := mmLoop startTokenIdx endTokenIdx (r.mmFeatures.drop idx)
      (keys, ↑(idx + moved))

def genLoraExtraHashKeys (r : Request D) : List String :=
  match r.loraName with
  | none => []
  | some name => [name]

def cacheSaltKeys (r : Request D) (startTokenIdx : Nat) : List String :=
  match r.cacheSalt with
  | none => []
  | some salt => if startTokenIdx = 0 ∧ salt ≠ "" then [salt] else []

def genPromptEmbedsExtraHashKeys (H : BlockHasher D) (r : Request D)
    (startTokenIdx endTokenIdx : Nat) : List (List UInt8) :=
  match r.promptEmbeds with
  | none => []
  | some rows => [H.embedsDigest ((rows.drop startTokenIdx).take (endTokenIdx - startTokenIdx))]

def tupleOrNone (keys : List ExtraKey) : Option (List ExtraKey) :=
  if keys = [] then none else some keys

/-- The extra keys of a block whose multimodal keys are `mmKeys`, in the order the code
concatenates them. -/
def joinExtraKeys (H : BlockHasher D) (r : Request D) (startTokenIdx endTokenIdx : Nat)
    (mmKeys : List String) : List ExtraKey :=
  (genLoraExtraHashKeys r).map .str ++ mmKeys.map .str ++
    (cacheSaltKeys r startTokenIdx).map .str ++
    (genPromptEmbedsExtraHashKeys H r startTokenIdx endTokenIdx).map .bytes

def generateBlockHashExtraKeys (H : BlockHasher D) (r : Request D)
    (startTokenIdx endTokenIdx : Nat) (startMmIdx : Int) : Option (List ExtraKey) × Int :=
  let (mmExtraKeys, newStartMmIdx) := genMmExtraHashKeys r startTokenIdx endTokenIdx startMmIdx
  (tupleOrNone (joinExtraKeys H r startTokenIdx endTokenIdx mmExtraKeys), newStartMmIdx)

def hashBlockTokens (H : BlockHasher D) (parentBlockHash : Option D)
    (currBlockTokenIds : List Token) (extraKeys : Option (List ExtraKey)) : D :=
  H.hashFunction (parentBlockHash.getD H.noneHash, currBlockTokenIds, extraKeys)

def Request.tokenSlice (r : Request D) (startTokenIdx endTokenIdx : Nat) : List Token :=
  (r.allTokenIds.drop startTokenIdx).take (endTokenIdx - startTokenIdx)

def hasherLoop (H : BlockHasher D) (r : Request D) : Nat → Nat → Int → Option D → List D
  | 0, _, _, _ => []
  | fuel + 1, startTokenIdx, currMmIdx, prevBlockHashValue =>
    let endTokenIdx := startTokenIdx + H.blockSize
    if endTokenIdx > r.numTokens then []
    else
      let (extraKeys, currMmIdx) :=
        generateBlockHashExtraKeys H r startTokenIdx endTokenIdx currMmIdx
      let blockTokens := r.tokenSlice startTokenIdx endTokenIdx
      let blockHash := hashBlockTokens H prevBlockHashValue blockTokens extraKeys
      blockHash :: hasherLoop H r fuel endTokenIdx currMmIdx (some blockHash)

def requestBlockHasher (H : BlockHasher D) (r : Request D) : List D :=
  let startTokenIdx := r.blockHashes.length * H.blockSize
  if startTokenIdx + H.blockSize > r.numTokens then []
  else
    let currMmIdx : Int := if startTokenIdx > 0 then -1 else 0
    hasherLoop H r r.numTokens startTokenIdx currMmIdx r.blockHashes.getLast?

namespace Request

def updateBlockHashes (H : BlockHasher D) (r : Request D) : Request D :=
  { r with blockHashes := r.blockHashes ++ requestBlockHasher H r }

def appendOutputTokenIds (H : BlockHasher D) (r : Request D) (tokenIds : List Token) :
    Request D :=
  updateBlockHashes H { r with
    outputTokenIds := r.outputTokenIds ++ tokenIds
    allTokenIds := r.allTokenIds ++ tokenIds }

end Request

def lengthFromPromptTokenIdsOrEmbeds (promptTokenIds : Option (List Token))
    (promptEmbeds : Option (List (List UInt8))) : Except String Nat :=
  match promptTokenIds, promptEmbeds with
  | none, none => .error "Neither prompt_token_ids nor prompt_embeds were defined."
  | none, some embeds => .ok embeds.length
  | some tokens, none => .ok tokens.length
  | some tokens, some embeds =>
    if embeds.length ≠ tokens.length then
      .error ("Prompt token ids and prompt embeds had different lengths"
        ++ " prompt_token_ids=" ++ toString tokens.length
        ++ " prompt_embeds=" ++ toString embeds.length)
    else .ok tokens.length

structure EngineCoreRequest where
  requestId : String := ""
  promptTokenIds : Option (List Token)
  promptEmbeds : Option (List (List UInt8)) := none
  mmFeatures : List MultiModalFeatureSpec := []
  loraName : Option String := none
  cacheSalt : Option String := none
deriving DecidableEq, Repr

def Request.fromEngineCoreRequest (H : BlockHasher D) (q : EngineCoreRequest) :
    Except String (Request D) := do
  let numPromptTokens ← lengthFromPromptTokenIdsOrEmbeds q.promptTokenIds q.promptEmbeds
  return Request.updateBlockHashes H {
    requestId := q.requestId
    promptTokenIds := q.promptTokenIds
    promptEmbeds := q.promptEmbeds
    numPromptTokens := numPromptTokens
    allTokenIds := q.promptTokenIds.getD (List.replicate numPromptTokens 0)
    loraName := q.loraName
    cacheSalt := q.cacheSalt
    mmFeatures := q.mmFeatures }

theorem fromEngineCoreRequest_eq {H : BlockHasher D} {q : EngineCoreRequest} {r : Request D}
    (h : Request.fromEngineCoreRequest H q = .ok r) :
    ∃ n, lengthFromPromptTokenIdsOrEmbeds q.promptTokenIds q.promptEmbeds = .ok n ∧
      r = Request.updateBlockHashes H
        { requestId := q.requestId, promptTokenIds := q.promptTokenIds
          promptEmbeds := q.promptEmbeds, numPromptTokens := n
          allTokenIds := q.promptTokenIds.getD (List.replicate n 0)
          loraName := q.loraName, cacheSalt := q.cacheSalt, mmFeatures := q.mmFeatures } := by
  obtain ⟨n, hn, h⟩ := Base.except_bind_eq_ok.mp h
  exact ⟨n, hn, (Except.ok.inj h).symm⟩

/-! ## What each block should hash -/

def BlockHasher.step (H : BlockHasher D) (d : D) (x : BlockInput) : D :=
  H.hashFunction (d, x.1, x.2)

theorem BlockHasher.step_injective2 {H : BlockHasher D} (h : Function.Injective H.hashFunction) :
    Function.Injective2 H.step := by
  intro d d' x x' he
  have := h he
  simp only [Prod.mk.injEq] at this
  exact ⟨this.1, Prod.ext this.2.1 this.2.2⟩

namespace Request

def idsOverlapping (r : Request D) (s e : Nat) : List String :=
  (r.mmFeatures.filter fun f => f.mmPosition.offset < e ∧ s < f.mmPosition.stop).map
    (·.identifier)

def blockInput (H : BlockHasher D) (r : Request D) (j : Nat) : BlockInput :=
  (r.tokenSlice (j * H.blockSize) ((j + 1) * H.blockSize),
    tupleOrNone (joinExtraKeys H r (j * H.blockSize) ((j + 1) * H.blockSize)
      (r.idsOverlapping (j * H.blockSize) ((j + 1) * H.blockSize))))

def chainUpTo (H : BlockHasher D) (r : Request D) (k : Nat) : List D :=
  hashChain H.step H.noneHash ((List.range k).map (r.blockInput H))

@[simp] theorem length_chainUpTo (H : BlockHasher D) (r : Request D) (k : Nat) :
    (r.chainUpTo H k).length = k := by simp [chainUpTo]

end Request

/-- What the code assumes of `mm_features`: sorted by offset, disjoint, none empty. -/
structure MmOrdered (fs : List MultiModalFeatureSpec) : Prop where
  disjoint : fs.Pairwise fun f g => f.mmPosition.stop ≤ g.mmPosition.offset
  pos : ∀ f ∈ fs, 0 < f.mmPosition.length

namespace MmOrdered
variable {fs gs : List MultiModalFeatureSpec} {f : MultiModalFeatureSpec}

theorem nil : MmOrdered [] := ⟨List.Pairwise.nil, by simp⟩

theorem tail (h : MmOrdered (f :: fs)) : MmOrdered fs :=
  ⟨(pairwise_cons.mp h.disjoint).2, fun g hg => h.pos g (mem_cons_of_mem _ hg)⟩

theorem drop (h : MmOrdered fs) (n : Nat) : MmOrdered (fs.drop n) :=
  ⟨h.disjoint.sublist (drop_sublist n fs), fun g hg => h.pos g (mem_of_mem_drop hg)⟩

theorem cons_le (h : MmOrdered (f :: fs)) {g : MultiModalFeatureSpec} (hg : g ∈ fs) :
    f.mmPosition.stop ≤ g.mmPosition.offset ∧ f.mmPosition.stop < g.mmPosition.stop := by
  have h1 := (pairwise_cons.mp h.disjoint).1 g hg
  have h2 := h.pos g (mem_cons_of_mem _ hg)
  unfold PlaceholderRange.stop at *
  omega

theorem stop_le_getLast (h : MmOrdered fs) {last g : MultiModalFeatureSpec}
    (hl : fs.getLast? = some last) (hg : g ∈ fs) :
    g.mmPosition.stop ≤ last.mmPosition.stop := by
  obtain ⟨ys, rfl⟩ := getLast?_eq_some_iff.mp hl
  rcases mem_append.mp hg with hy | hy
  · have h1 := (pairwise_append.mp h.disjoint).2.2 g hy last (by simp)
    unfold PlaceholderRange.stop at *
    omega
  · exact (congrArg (·.mmPosition.stop) (mem_singleton.mp hy)).le

end MmOrdered

/-- The loop of `_gen_mm_extra_hash_keys`, started at a feature that ends after the block's start:
it appends the features that overlap the block and stops at the first that ends after it. -/
theorem mmLoop_spec {s e : Nat} {fs : List MultiModalFeatureSpec} (ho : MmOrdered fs)
    (hs : ∀ f ∈ fs, s < f.mmPosition.stop) :
    (mmLoop s e fs).1 = (fs.filter fun f => f.mmPosition.offset < e).map (·.identifier) ∧
      (∀ f ∈ fs.take (mmLoop s e fs).2, f.mmPosition.stop ≤ e) ∧
      ∀ f ∈ fs.drop (mmLoop s e fs).2, e < f.mmPosition.stop := by
  induction fs with
  | nil => simp [mmLoop]
  | cons f fs ih =>
    have hf := hs f (by simp)
    have hpos := ho.pos f (by simp)
    obtain ⟨ih1, ih2, ih3⟩ := ih ho.tail fun g hg => hs g (mem_cons_of_mem _ hg)
    have hnone : e < f.mmPosition.stop →
        fs.filter (fun f => decide (f.mmPosition.offset < e)) = [] := by
      intro he
      refine filter_eq_nil_iff.mpr fun g hg => ?_
      have := (ho.cons_le hg).1
      simp only [decide_eq_true_eq]
      omega
    have hlater : e < f.mmPosition.stop → ∀ g ∈ f :: fs, e < g.mmPosition.stop := by
      intro he g hg
      rcases mem_cons.mp hg with rfl | hg
      · exact he
      · exact he.trans (ho.cons_le hg).2
    rw [mmLoop]
    change s < f.mmPosition.offset + f.mmPosition.length at hf
    by_cases h1 : e > f.mmPosition.offset
    · have h2 : ¬ s > f.mmPosition.offset + f.mmPosition.length := by omega
      by_cases h3 : e ≥ f.mmPosition.offset + f.mmPosition.length
      · rw [if_pos h1, if_neg h2, if_pos h3]
        refine ⟨by simp [ih1, h1], ?_, by simpa using ih3⟩
        intro g hg
        rcases mem_cons.mp (by simpa using hg) with rfl | hg
        · exact h3
        · exact ih2 g hg
      · have he : e < f.mmPosition.stop := by unfold PlaceholderRange.stop; omega
        rw [if_pos h1, if_neg h2, if_neg h3]
        exact ⟨by simp [h1, hnone he], by simp, by simpa using hlater he⟩
    · have he : e < f.mmPosition.stop := by unfold PlaceholderRange.stop; omega
      rw [if_neg h1]
      exact ⟨by simp [h1, hnone he], by simp, by simpa using hlater he⟩

namespace Request
variable {r : Request D} {H : BlockHasher D}

/-- Where the cursor stands when the block that starts at `s` is hashed: on the first feature that
ends after `s`, or anywhere once every feature ended before `s`. -/
def CursorAt (r : Request D) (s : Nat) (startMmIdx : Int) : Prop :=
  (∀ f ∈ r.mmFeatures, f.mmPosition.stop < s) ∨
    (∀ f ∈ r.mmFeatures.take (r.mmIdx startMmIdx), f.mmPosition.stop ≤ s) ∧
      ∀ f ∈ r.mmFeatures.drop (r.mmIdx startMmIdx), s < f.mmPosition.stop

theorem cursorAt_of_no_features (h : r.mmFeatures = []) (s : Nat) (mm : Int) :
    r.CursorAt s mm := .inl (by simp [h])

theorem cursorAt_zero (ho : MmOrdered r.mmFeatures) : r.CursorAt 0 0 := by
  refine .inr ⟨by simp [mmIdx], fun f hf => ?_⟩
  have := ho.pos f (mem_of_mem_drop hf)
  unfold PlaceholderRange.stop
  omega

@[simp] theorem mmIdx_natCast (n : Nat) : r.mmIdx (n : Int) = n := by
  have : ¬ (n : Int) < 0 := by omega
  simp [mmIdx, this]

variable {s e n k : Nat} {r' : Request D}

theorem idsOverlapping_eq_nil (h : ∀ f ∈ r.mmFeatures, f.mmPosition.stop ≤ s) :
    r.idsOverlapping s e = [] := by
  rw [idsOverlapping, map_eq_nil_iff]
  refine filter_eq_nil_iff.mpr fun f hf => ?_
  have := h f hf
  simp only [decide_eq_true_eq]
  omega

theorem idsOverlapping_of_cursor (h1 : ∀ f ∈ r.mmFeatures.take n, f.mmPosition.stop ≤ s)
    (h2 : ∀ f ∈ r.mmFeatures.drop n, s < f.mmPosition.stop) :
    r.idsOverlapping s e =
      ((r.mmFeatures.drop n).filter fun f => f.mmPosition.offset < e).map (·.identifier) := by
  have hsplit := take_append_drop n r.mmFeatures
  have hfront : (r.mmFeatures.take n).filter
      (fun f => decide (f.mmPosition.offset < e ∧ s < f.mmPosition.stop)) = [] := by
    refine filter_eq_nil_iff.mpr fun f hf => ?_
    have := h1 f hf
    simp only [decide_eq_true_eq]
    omega
  have hback : (r.mmFeatures.drop n).filter
      (fun f => decide (f.mmPosition.offset < e ∧ s < f.mmPosition.stop)) =
      (r.mmFeatures.drop n).filter (fun f => decide (f.mmPosition.offset < e)) := by
    refine filter_congr fun f hf => ?_
    simp [h2 f hf]
  rw [idsOverlapping]
  conv_lhs => rw [← hsplit, filter_append, hfront, hback]
  rfl

theorem genMmExtraHashKeys_spec {mm : Int} (hse : s ≤ e) (ho : MmOrdered r.mmFeatures)
    (hc : r.CursorAt s mm) :
    (genMmExtraHashKeys r s e mm).1 = r.idsOverlapping s e ∧
      r.CursorAt e (genMmExtraHashKeys r s e mm).2 := by
  rw [genMmExtraHashKeys]
  rcases hl : r.mmFeatures.getLast? with _ | last
  · have hnil : r.mmFeatures = [] := getLast?_eq_none_iff.mp hl
    exact ⟨(idsOverlapping_eq_nil (by simp [hnil])).symm, cursorAt_of_no_features hnil _ _⟩
  by_cases hlast : last.mmPosition.offset + last.mmPosition.length < s
  · have hall : ∀ f ∈ r.mmFeatures, f.mmPosition.stop < s := fun f hf =>
      lt_of_le_of_lt (ho.stop_le_getLast hl hf) hlast
    simp only [if_pos hlast]
    exact ⟨(idsOverlapping_eq_nil fun f hf => (hall f hf).le).symm,
      .inl fun f hf => lt_of_lt_of_le (hall f hf) hse⟩
  · simp only [if_neg hlast]
    rcases hc with hall | ⟨h1, h2⟩
    · exact absurd (hall last (mem_of_getLast? hl)) hlast
    have hspec := mmLoop_spec (e := e) (ho.drop (r.mmIdx mm)) h2
    refine ⟨hspec.1.trans (idsOverlapping_of_cursor h1 h2).symm, .inr ?_⟩
    rw [mmIdx_natCast]
    refine ⟨fun f hf => ?_, by simpa [drop_drop] using hspec.2.2⟩
    rw [take_add] at hf
    rcases mem_append.mp hf with hf | hf
    · exact (h1 f hf).trans hse
    · exact hspec.2.1 f hf

def mmKeys (blockSize : Nat) (r : Request D) : Nat → Nat → Int → List (List String)
  | 0, _, _ => []
  | n + 1, j, mm =>
    (genMmExtraHashKeys r (j * blockSize) ((j + 1) * blockSize) mm).1 ::
      mmKeys blockSize r n (j + 1) (genMmExtraHashKeys r (j * blockSize) ((j + 1) * blockSize) mm).2

def overlapKeys (blockSize : Nat) (r : Request D) (j n : Nat) : List (List String) :=
  (List.range' j n).map fun i => r.idsOverlapping (i * blockSize) ((i + 1) * blockSize)

def keyedInput (H : BlockHasher D) (r : Request D) (j : Nat) (mmKeys : List String) : BlockInput :=
  (r.tokenSlice (j * H.blockSize) ((j + 1) * H.blockSize),
    tupleOrNone (joinExtraKeys H r (j * H.blockSize) ((j + 1) * H.blockSize) mmKeys))

theorem hasherLoop_eq {fuel j : Nat} (mm : Int) (prev : Option D)
    (hn : j + n = r.numTokens / H.blockSize) (hf : n ≤ fuel) :
    hasherLoop H r fuel (j * H.blockSize) mm prev =
      hashChain H.step (prev.getD H.noneHash)
        (zipWith (r.keyedInput H) (List.range' j n) (r.mmKeys H.blockSize n j mm)) := by
  induction fuel generalizing n j mm prev with
  | zero =>
    obtain rfl : n = 0 := by omega
    rfl
  | succ fuel ih =>
    have hstop : j * H.blockSize + H.blockSize = (j + 1) * H.blockSize := by
      rw [Nat.add_mul, Nat.one_mul]
    have hfull : (j + 1) * H.blockSize ≤ r.numTokens ↔ 0 < n := by
      rw [← Nat.le_div_iff_mul_le H.blockSize_pos]
      omega
    simp only [hasherLoop, hstop]
    cases n with
    | zero => simp only [Nat.lt_irrefl, iff_false] at hfull; simp [hfull, hashChain]
    | succ n =>
      have hle : ¬ (j + 1) * H.blockSize > r.numTokens := by simpa using hfull
      rw [if_neg hle]
      exact congrArg _ (ih _ _ (by omega) (by omega))

theorem mmKeys_of_cursor (ho : MmOrdered r.mmFeatures) {b j : Nat} {mm : Int}
    (hc : r.CursorAt (j * b) mm) : r.mmKeys b n j mm = r.overlapKeys b j n := by
  induction n generalizing j mm with
  | zero => rfl
  | succ n ih =>
    have hspec := genMmExtraHashKeys_spec (e := (j + 1) * b)
      (Nat.mul_le_mul_right _ (Nat.le_succ j)) ho hc
    rw [mmKeys, hspec.1]
    exact congrArg _ (ih hspec.2)

def keysOfCall (H : BlockHasher D) (r : Request D) : List (List String) :=
  r.mmKeys H.blockSize (r.numTokens / H.blockSize - r.blockHashes.length) r.blockHashes.length
    (if r.blockHashes.length * H.blockSize > 0 then -1 else 0)

def KeysOverlap (H : BlockHasher D) (r : Request D) : Prop :=
  r.keysOfCall H = r.overlapKeys H.blockSize r.blockHashes.length
    (r.numTokens / H.blockSize - r.blockHashes.length)

theorem keysOverlap_of_cursor (ho : MmOrdered r.mmFeatures)
    (hc : 0 < r.blockHashes.length → r.CursorAt (r.blockHashes.length * H.blockSize) (-1)) :
    r.KeysOverlap H := by
  refine mmKeys_of_cursor ho ?_
  split
  · next h => exact hc (Nat.pos_of_mul_pos_right h)
  · next h =>
    rw [Nat.eq_zero_of_not_pos h]
    exact cursorAt_zero ho

theorem append_requestBlockHasher (hk : r.blockHashes.length ≤ r.numTokens / H.blockSize)
    (hkeys : r.KeysOverlap H) (hb : r.blockHashes = r.chainUpTo H r.blockHashes.length) :
    r.blockHashes ++ requestBlockHasher H r = r.chainUpTo H (r.numTokens / H.blockSize) := by
  unfold KeysOverlap keysOfCall at hkeys
  generalize hlen : r.blockHashes.length = k at *
  obtain ⟨n, hn⟩ := Nat.exists_eq_add_of_le hk
  have hsub : r.numTokens / H.blockSize - k = n := by omega
  rw [hsub] at hkeys
  have hloop : requestBlockHasher H r =
      hashChain H.step (r.blockHashes.getLast?.getD H.noneHash)
        ((List.range' k n).map (r.blockInput H)) := by
    have hchain := hasherLoop_eq (if k * H.blockSize > 0 then -1 else 0)
      r.blockHashes.getLast? hn.symm
      ((Nat.le_add_left n k).trans (hn.ge.trans (Nat.div_le_self _ _)))
    rw [hkeys, overlapKeys, zipWith_map_right, zipWith_self] at hchain
    rw [requestBlockHasher, hlen]
    split
    · next h =>
      have hlt : r.numTokens / H.blockSize < k + 1 := by
        rw [Nat.div_lt_iff_lt_mul H.blockSize_pos, Nat.succ_mul]
        exact h
      obtain rfl : n = 0 := by omega
      rfl
    · exact hchain
  have hlast : r.blockHashes.getLast?.getD H.noneHash =
      ((List.range k).map (r.blockInput H)).foldl H.step H.noneHash := by
    rw [hb]
    exact getLast?_hashChain _ _ _
  rw [hloop, hlast]
  conv_lhs => rw [hb]
  rw [chainUpTo, ← hashChain_append, ← map_append, hn, chainUpTo, range_eq_range',
    range_eq_range', ← range'_append_1, Nat.zero_add]

section
variable (hlora : r'.loraName = r.loraName) (hsalt : r'.cacheSalt = r.cacheSalt)
  (hembeds : r'.promptEmbeds = r.promptEmbeds) (hmm : r'.mmFeatures = r.mmFeatures)
  (ht : r'.allTokenIds.take (k * H.blockSize) = r.allTokenIds.take (k * H.blockSize))
include hlora hsalt hembeds hmm ht

theorem blockInput_congr {j : Nat} (hj : j < k) : r'.blockInput H j = r.blockInput H j := by
  have hle : (j + 1) * H.blockSize ≤ k * H.blockSize := Nat.mul_le_mul_right _ hj
  have hslice : ∀ q : Request D, q.tokenSlice (j * H.blockSize) ((j + 1) * H.blockSize) =
      ((q.allTokenIds.take (k * H.blockSize)).take ((j + 1) * H.blockSize)).drop
        (j * H.blockSize) := by
    intro q
    rw [tokenSlice, take_take, Nat.min_eq_left hle, drop_take]
  have hkeys : ∀ s e keys, joinExtraKeys H r' s e keys = joinExtraKeys H r s e keys := by
    intro s e keys
    simp only [joinExtraKeys, genLoraExtraHashKeys, cacheSaltKeys, genPromptEmbedsExtraHashKeys,
      hlora, hsalt, hembeds]
  simp only [blockInput, hslice, ht, hkeys, idsOverlapping, hmm]

theorem chainUpTo_congr : r'.chainUpTo H k = r.chainUpTo H k := by
  refine congrArg _ (map_congr_left fun j hj => ?_)
  exact blockInput_congr hlora hsalt hembeds hmm ht (mem_range.mp hj)

end

theorem take_chainUpTo (h : k ≤ n) : (r.chainUpTo H n).take k = r.chainUpTo H k := by
  rw [chainUpTo, take_hashChain, ← map_take, take_range, Nat.min_eq_left h]
  rfl

theorem take_tokens_eq_of_blockInput {q : Request D}
    (h : ∀ j < k, q.blockInput H j = r.blockInput H j) :
    q.allTokenIds.take (k * H.blockSize) = r.allTokenIds.take (k * H.blockSize) := by
  induction k with
  | zero => simp
  | succ k ih =>
    have hslice : q.tokenSlice (k * H.blockSize) ((k + 1) * H.blockSize) =
        r.tokenSlice (k * H.blockSize) ((k + 1) * H.blockSize) :=
      congrArg Prod.fst (h k (Nat.lt_succ_self k))
    have hwidth : (k + 1) * H.blockSize - k * H.blockSize = H.blockSize := by
      rw [Nat.succ_mul, Nat.add_sub_cancel_left]
    simp only [tokenSlice, hwidth] at hslice
    rw [Nat.succ_mul, take_add, take_add, hslice,
      ih fun j hj => h j (Nat.lt_succ_of_lt hj)]

theorem blockInput_eq_of_hash_eq (hinj : Function.Injective H.hashFunction) {i n' : Nat}
    (hi : i < n) (hi' : i < n') (h : (r'.chainUpTo H n')[i]? = (r.chainUpTo H n)[i]?) :
    ∀ j ≤ i, r'.blockInput H j = r.blockInput H j := by
  rw [chainUpTo, chainUpTo, getElem?_hashChain _ _ _ _ (by simpa using hi'),
    getElem?_hashChain _ _ _ _ (by simpa using hi), ← map_take, ← map_take,
    take_range, take_range, Nat.min_eq_left hi, Nat.min_eq_left hi'] at h
  have hmap := foldl_inj_of_length_eq (BlockHasher.step_injective2 hinj) _ (by simp)
    (Option.some.inj h)
  intro j hj
  exact map_inj_left.mp hmap j (mem_range.mpr (Nat.lt_succ_of_le hj))

end Request

/-- Digests as the terms they are computed from: an injective hash function for concrete runs. -/
inductive HashTerm where
  | noneHash
  | node (parent : HashTerm) (tokens : List Token) (extraKeys : Option (List ExtraKey))
deriving DecidableEq, Repr

def termHasher (blockSize : Nat) (h : 0 < blockSize) : BlockHasher HashTerm where
  blockSize := blockSize
  blockSize_pos := h
  hashFunction := fun (parent, tokens, extraKeys) => .node parent tokens extraKeys
  noneHash := .noneHash
  embedsDigest := fun rows => rows.flatten

theorem termHasher_injective (blockSize : Nat) (h : 0 < blockSize) :
    Function.Injective (termHasher blockSize h).hashFunction := by
  rintro ⟨p, t, k⟩ ⟨p', t', k'⟩ he
  simpa [termHasher] using he

end Vllm
