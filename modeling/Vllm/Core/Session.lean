import Vllm.Core.BlockHashing

/-! Streaming sessions: `Scheduler._update_request_as_session` cuts the tokens that were not
computed off a request and appends the next prompt chunk, while the block hashes are only ever
extended. -/

namespace Vllm
open Request List
variable {D : Type}

structure StreamingUpdate where
  mmFeatures : List MultiModalFeatureSpec := []
  promptTokenIds : Option (List Token)
deriving DecidableEq, Repr

def StreamingUpdate.chunk (u : StreamingUpdate) : List Token := u.promptTokenIds.getD []

def MultiModalFeatureSpec.shift (base : Nat) (f : MultiModalFeatureSpec) :
    MultiModalFeatureSpec :=
  { f with mmPosition := { f.mmPosition with offset := f.mmPosition.offset + base } }

def updateRequestAsSession (H : BlockHasher D) (session : Request D) (update : StreamingUpdate) :
    Except String (Request D) :=
  let kept := session.allTokenIds.take session.numComputedTokens
  let keptOutputTokens := kept.drop session.numPromptTokens
  match session.promptTokenIds with
  | none => .error "AssertionError"
  | some prompt =>
    let promptTokenIds := prompt ++ keptOutputTokens ++ update.chunk
    let hashed := updateBlockHashes H { session with
      allTokenIds := kept ++ update.chunk
      outputTokenIds := []
      promptTokenIds := some promptTokenIds
      mmFeatures := session.mmFeatures ++ update.mmFeatures.map (·.shift kept.length) }
    .ok { hashed with numPromptTokens := promptTokenIds.length }

/-- What happens to a session's tokens: the model appends sampled tokens, the scheduler moves
`num_computed_tokens`, the client sends the next chunk. -/
inductive SessionEvent where
  | append (tokenIds : List Token)
  | computed (numComputedTokens : Nat)
  | update (u : StreamingUpdate)
deriving DecidableEq, Repr

def sessionStep (H : BlockHasher D) (r : Request D) : SessionEvent → Except String (Request D)
  | .append tokenIds => .ok (r.appendOutputTokenIds H tokenIds)
  | .computed n => .ok { r with numComputedTokens := n }
  | .update u => updateRequestAsSession H r u

def Request.freshHash? (H : BlockHasher D) (r : Request D) (i : Nat) : Option D :=
  (requestBlockHasher H
    { r with allTokenIds := r.allTokenIds.take ((i + 1) * H.blockSize), blockHashes := [] })[i]?

def HashesCurrent (H : BlockHasher D) (r : Request D) : Prop :=
  r.blockHashes.length = r.numTokens / H.blockSize ∧
    ∀ i < r.blockHashes.length, r.blockHashes[i]? = r.freshHash? H i

def HashesCurrentAlong (H : BlockHasher D) : Request D → List SessionEvent → Prop
  | r, [] => HashesCurrent H r
  | r, e :: es =>
    HashesCurrent H r ∧ ∃ r', sessionStep H r e = .ok r' ∧ HashesCurrentAlong H r' es

def UpdateKeepsHashedTokens (H : BlockHasher D) (r : Request D) (u : StreamingUpdate) : Prop :=
  (r.allTokenIds.take r.numComputedTokens ++ u.chunk).take (r.blockHashes.length * H.blockSize) =
    r.allTokenIds.take (r.blockHashes.length * H.blockSize)

def UpdatesKeepHashedTokens (H : BlockHasher D) : Request D → List SessionEvent → Prop
  | _, [] => True
  | r, e :: es =>
    (∀ u, e = .update u → UpdateKeepsHashedTokens H r u) ∧
      ∀ r', sessionStep H r e = .ok r' → UpdatesKeepHashedTokens H r' es

structure Request.TextOnly (r : Request D) : Prop where
  mmFeatures : r.mmFeatures = []
  promptEmbeds : r.promptEmbeds = none
  promptTokenIds : r.promptTokenIds.isSome

def SessionEvent.TextOnly : SessionEvent → Prop
  | .update u => u.mmFeatures = []
  | _ => True

namespace Request
variable {H : BlockHasher D} {r : Request D}

theorem TextOnly.mmOrdered (h : r.TextOnly) : MmOrdered r.mmFeatures := by
  rw [h.mmFeatures]
  exact MmOrdered.nil

theorem blocks_mul_le (H : BlockHasher D) (r : Request D) :
    r.numTokens / H.blockSize * H.blockSize ≤ r.allTokenIds.length := Nat.div_mul_le_self _ _

theorem TextOnly.freshHash?_eq (h : r.TextOnly) {i : Nat} (hi : i < r.numTokens / H.blockSize) :
    r.freshHash? H i = (r.chainUpTo H (r.numTokens / H.blockSize))[i]? := by
  have hle : (i + 1) * H.blockSize ≤ r.numTokens :=
    (Nat.mul_le_mul_right _ hi).trans (blocks_mul_le H r)
  -- the request with only the tokens of the first `i + 1` blocks and no hash
  let q : Request D :=
    { r with allTokenIds := r.allTokenIds.take ((i + 1) * H.blockSize), blockHashes := [] }
  have hblocks : q.numTokens / H.blockSize = i + 1 := by
    have : q.numTokens = (i + 1) * H.blockSize := by
      simp only [q, numTokens, length_take]
      exact Nat.min_eq_left hle
    rw [this, Nat.mul_div_cancel _ H.blockSize_pos]
  have hq := append_requestBlockHasher (r := q) (H := H) (Nat.zero_le _)
    (keysOverlap_of_cursor h.mmOrdered fun h0 => absurd h0 (Nat.lt_irrefl 0)) rfl
  have hchain : q.chainUpTo H (i + 1) = r.chainUpTo H (i + 1) :=
    chainUpTo_congr rfl rfl rfl rfl (by simp [q, take_take])
  rw [hblocks, hchain] at hq
  have hfresh : requestBlockHasher H q = r.chainUpTo H (i + 1) := hq
  change (requestBlockHasher H q)[i]? = _
  rw [hfresh, ← take_chainUpTo hi, getElem?_take_of_lt (Nat.lt_succ_self i)]

theorem TextOnly.hashesCurrent_iff (h : r.TextOnly) :
    HashesCurrent H r ↔ r.blockHashes = r.chainUpTo H (r.numTokens / H.blockSize) := by
  constructor
  · rintro ⟨hlen, hget⟩
    refine ext_getElem? fun i => ?_
    by_cases hi : i < r.blockHashes.length
    · rw [hget i hi, h.freshHash?_eq (hlen ▸ hi)]
    · rw [getElem?_eq_none (Nat.le_of_not_lt hi),
        getElem?_eq_none (by simpa [← hlen] using hi)]
  · intro hb
    have hlen : r.blockHashes.length = r.numTokens / H.blockSize := by
      rw [hb, length_chainUpTo]
    refine ⟨hlen, fun i hi => ?_⟩
    rw [h.freshHash?_eq (hlen ▸ hi), ← hb]

end Request

section
variable {H : BlockHasher D} {r q : Request D}

theorem hashesCurrent_updateBlockHashes (hr : r.TextOnly) (hq : q.TextOnly)
    (hlora : q.loraName = r.loraName) (hsalt : q.cacheSalt = r.cacheSalt)
    (hb : q.blockHashes = r.blockHashes)
    (ht : q.allTokenIds.take (r.blockHashes.length * H.blockSize) =
      r.allTokenIds.take (r.blockHashes.length * H.blockSize))
    (hc : HashesCurrent H r) : HashesCurrent H (q.updateBlockHashes H) := by
  have hlen := hc.1
  have hle := blocks_mul_le H r
  have hcount : r.blockHashes.length * H.blockSize ≤ q.numTokens := by
    have hl := congrArg List.length ht
    rw [length_take, length_take, hlen, Nat.min_eq_left hle] at hl
    rw [hlen]
    exact hl ▸ Nat.min_le_right _ _
  have hchain : q.blockHashes = q.chainUpTo H q.blockHashes.length := by
    rw [hb, chainUpTo_congr (r := r) hlora hsalt (hq.2.trans hr.2.symm)
      (hq.1.trans hr.1.symm) ht, hlen]
    exact hr.hashesCurrent_iff.mp hc
  have hq' : (q.updateBlockHashes H).TextOnly := ⟨hq.1, hq.2, hq.3⟩
  rw [hq'.hashesCurrent_iff]
  exact append_requestBlockHasher
    (hb ▸ (Nat.le_div_iff_mul_le H.blockSize_pos).mpr hcount)
    (keysOverlap_of_cursor hq.mmOrdered
      fun _ => cursorAt_of_no_features hq.mmFeatures _ _) hchain

theorem hashesCurrent_append (hr : r.TextOnly) (hc : HashesCurrent H r) (toks : List Token) :
    HashesCurrent H (r.appendOutputTokenIds H toks) := by
  refine hashesCurrent_updateBlockHashes hr ⟨hr.1, hr.2, hr.3⟩ rfl rfl rfl ?_ hc
  refine take_append_of_le_length ?_
  rw [hc.1]
  exact blocks_mul_le H r

theorem hashesCurrent_counters (hr : r.TextOnly) (n m : Nat) :
    HashesCurrent H { r with numComputedTokens := n, numPromptTokens := m } ↔
      HashesCurrent H r := by
  have hr' : { r with numComputedTokens := n, numPromptTokens := m }.TextOnly :=
    ⟨hr.1, hr.2, hr.3⟩
  rw [hr'.hashesCurrent_iff, hr.hashesCurrent_iff]
  rfl

def Request.spliced (r : Request D) (prompt : List Token) (u : StreamingUpdate) : Request D :=
  { r with
    allTokenIds := r.allTokenIds.take r.numComputedTokens ++ u.chunk
    outputTokenIds := []
    promptTokenIds := some (prompt ++ (r.allTokenIds.take r.numComputedTokens).drop
      r.numPromptTokens ++ u.chunk)
    mmFeatures := r.mmFeatures ++ u.mmFeatures.map
      (·.shift (r.allTokenIds.take r.numComputedTokens).length) }

theorem updateRequestAsSession_eq {prompt : List Token} (hp : r.promptTokenIds = some prompt)
    (u : StreamingUpdate) :
    ∃ m, updateRequestAsSession H r u =
      .ok { (r.spliced prompt u).updateBlockHashes H with numPromptTokens := m } := by
  simp only [updateRequestAsSession, hp]
  exact ⟨_, rfl⟩

theorem updateRequestAsSession_current_iff (hinj : Function.Injective H.hashFunction)
    (hr : r.TextOnly) (hc : HashesCurrent H r) {u : StreamingUpdate} (hu : u.mmFeatures = []) :
    ∃ r', updateRequestAsSession H r u = .ok r' ∧ r'.TextOnly ∧
      (HashesCurrent H r' ↔ UpdateKeepsHashedTokens H r u) := by
  obtain ⟨prompt, hp⟩ := Option.isSome_iff_exists.mp hr.promptTokenIds
  obtain ⟨m, hm⟩ := updateRequestAsSession_eq (H := H) hp u
  have hq : (r.spliced prompt u).TextOnly :=
    ⟨by simp [spliced, hr.mmFeatures, hu], hr.promptEmbeds, rfl⟩
  have hq' : ((r.spliced prompt u).updateBlockHashes H).TextOnly := ⟨hq.1, hq.2, hq.3⟩
  refine ⟨_, hm, ⟨hq.1, hq.2, hq.3⟩, ?_⟩
  refine (hashesCurrent_counters hq' _ m).trans ⟨fun hcur => ?_, fun hkeep => ?_⟩
  · -- the old hashes are the front of the new ones, so the last of them is equal in both chains
    rw [hq'.hashesCurrent_iff] at hcur
    have hb := hr.hashesCurrent_iff.mp hc
    set k := r.blockHashes.length with hk
    rw [← hc.1] at hb
    have hpre : (r.blockHashes ++ requestBlockHasher H (r.spliced prompt u)).take k =
        r.blockHashes := take_left
    change r.blockHashes ++ requestBlockHasher H (r.spliced prompt u) = _ at hcur
    have hkn : k ≤ ((r.spliced prompt u).updateBlockHashes H).numTokens / H.blockSize := by
      have := congrArg List.length hcur
      rw [length_append, length_chainUpTo] at this
      omega
    rw [hcur, take_chainUpTo hkn] at hpre
    refine take_tokens_eq_of_blockInput
      (q := (r.spliced prompt u).updateBlockHashes H) fun j hj => ?_
    exact blockInput_eq_of_hash_eq hinj hj hj (by rw [hpre, ← hb]) j (Nat.le_refl j)
  · exact hashesCurrent_updateBlockHashes hr hq rfl rfl rfl hkeep hc

end

variable {H : BlockHasher D} {r : Request D}

theorem hashesCurrentAlong_iff (hinj : Function.Injective H.hashFunction) (hr : r.TextOnly)
    (hc : HashesCurrent H r) (es : List SessionEvent) (hes : ∀ e ∈ es, e.TextOnly) :
    HashesCurrentAlong H r es ↔ UpdatesKeepHashedTokens H r es := by
  induction es generalizing r with
  | nil => exact ⟨fun _ => trivial, fun _ => hc⟩
  | cons e es ih =>
    have hes' : ∀ e ∈ es, e.TextOnly := fun e he => hes e (mem_cons_of_mem _ he)
    -- an event other than an update leads to a state whose hashes are current
    have hother : ∀ r', sessionStep H r e = .ok r' → r'.TextOnly → HashesCurrent H r' →
        (∀ u, e ≠ .update u) →
        (HashesCurrentAlong H r (e :: es) ↔ UpdatesKeepHashedTokens H r (e :: es)) := by
      intro r' hstep hr' hc' hne
      simp only [HashesCurrentAlong, UpdatesKeepHashedTokens, hstep, Except.ok.injEq,
        exists_eq_left', forall_eq', ih hr' hc' hes', hc, true_and]
      exact ⟨fun h => ⟨fun u hu => absurd hu (hne u), h⟩, fun h => h.2⟩
    cases e with
    | append toks =>
      exact hother _ rfl ⟨hr.1, hr.2, hr.3⟩ (hashesCurrent_append hr hc toks) (by simp)
    | computed n =>
      exact hother _ rfl ⟨hr.1, hr.2, hr.3⟩
        ((hashesCurrent_counters hr n r.numPromptTokens).mpr hc) (by simp)
    | update u =>
      obtain ⟨r', hstep, hr', hiff⟩ :=
        updateRequestAsSession_current_iff hinj hr hc (hes _ (mem_cons_self ..))
      simp only [HashesCurrentAlong, UpdatesKeepHashedTokens, sessionStep, hstep, Except.ok.injEq,
        exists_eq_left', forall_eq', SessionEvent.update.injEq, hc, true_and]
      by_cases hkeep : UpdateKeepsHashedTokens H r u
      · simp only [hkeep, true_and, ih hr' (hiff.mpr hkeep) hes']
      · refine ⟨fun h => ?_, fun h => absurd h.1 hkeep⟩
        have hc' : HashesCurrent H r' := by cases es with
          | nil => exact h
          | cons e es => exact h.1
        exact absurd (hiff.mp hc') hkeep

theorem fromEngineCoreRequest_current {q : EngineCoreRequest} (hmm : q.mmFeatures = [])
    (hembeds : q.promptEmbeds = none) (h : fromEngineCoreRequest H q = .ok r) :
    r.TextOnly ∧ HashesCurrent H r := by
  obtain ⟨n, hn, rfl⟩ := fromEngineCoreRequest_eq h
  rcases hp : q.promptTokenIds with _ | prompt <;> rw [hp, hembeds] at hn <;> cases hn
  rw [hembeds]
  refine ⟨⟨hmm, rfl, rfl⟩, ?_⟩
  -- the tokens of an empty prompt extended to the whole prompt
  let q₀ : Request D :=
    { promptTokenIds := some [], numPromptTokens := 0, allTokenIds := []
      loraName := q.loraName, cacheSalt := q.cacheSalt }
  exact hashesCurrent_updateBlockHashes (r := q₀) ⟨rfl, rfl, rfl⟩ ⟨hmm, rfl, rfl⟩ rfl rfl rfl
    (by simp [q₀]) ⟨by simp [q₀, numTokens], by simp [q₀]⟩

/-- For a text-only request from its creation on, `block_hashes` is in every state the hash chain
of the current tokens exactly if every session update keeps the tokens already hashed. -/
theorem session_hashes_current_iff {H : BlockHasher D}
    (hinj : Function.Injective H.hashFunction) {q : EngineCoreRequest} (hmm : q.mmFeatures = [])
    (hembeds : q.promptEmbeds = none) {r : Request D}
    (h : fromEngineCoreRequest H q = .ok r) (es : List SessionEvent)
    (hes : ∀ e ∈ es, e.TextOnly) :
    HashesCurrentAlong H r es ↔ UpdatesKeepHashedTokens H r es :=
  have hr := fromEngineCoreRequest_current hmm hembeds h
  hashesCurrentAlong_iff hinj hr.1 hr.2 es hes

/-- Blocks of two tokens, three prompt tokens, two sampled tokens of which the first is computed:
the next chunk starts after the second block. -/
theorem session_hashes_current_iff_two_blocks :
    ∃ r, fromEngineCoreRequest (termHasher 2 (by decide))
        { promptTokenIds := some [1, 2, 3] } = .ok r ∧
      (HashesCurrentAlong (termHasher 2 (by decide)) r
          [.append [4, 5], .computed 4, .update { promptTokenIds := some [9] }] ↔
        UpdatesKeepHashedTokens (termHasher 2 (by decide)) r
          [.append [4, 5], .computed 4, .update { promptTokenIds := some [9] }]) :=
  ⟨_, rfl, session_hashes_current_iff (termHasher_injective 2 (by decide)) (q :=
    { promptTokenIds := some [1, 2, 3] }) rfl rfl rfl _ (by simp [SessionEvent.TextOnly])⟩

/-- Blocks of two tokens, three prompt tokens, and a sampled token that fills the second block.
The next chunk replaces the sampled token, and the second hash is still that of `[3, 4]`. -/
theorem session_update_keeps_stale_hash :
    ∃ r, fromEngineCoreRequest (termHasher 2 (by decide))
        { promptTokenIds := some [1, 2, 3] } = .ok r ∧
      ¬ HashesCurrentAlong (termHasher 2 (by decide)) r
          [.append [4], .computed 3, .update { promptTokenIds := some [9] }] := by
  refine ⟨_, rfl, ?_⟩
  rintro ⟨-, _, ⟨⟩, -, _, ⟨⟩, -, _, ⟨⟩, -, hget⟩
  exact absurd (hget 1 (by decide)) (by decide)

/-! ## Requests as they come about -/

inductive Request.Made (H : BlockHasher D) : Request D → Prop where
  | new {q : EngineCoreRequest} {r : Request D} (h : fromEngineCoreRequest H q = .ok r) :
    Made H r
  | step {r r' : Request D} (made : Made H r) (e : SessionEvent) (h : sessionStep H r e = .ok r') :
    Made H r'

theorem exists_updateBlockHashes_eq {H : BlockHasher D} {r : Request D} {xs : List BlockInput}
    (h : r.blockHashes = Base.hashChain H.step H.noneHash xs) :
    ∃ ys, (r.updateBlockHashes H).blockHashes = Base.hashChain H.step H.noneHash ys := by
  have hnew : ∃ ys, requestBlockHasher H r =
      Base.hashChain H.step (xs.foldl H.step H.noneHash) ys := by
    unfold requestBlockHasher
    dsimp only
    split
    · exact ⟨[], rfl⟩
    · next hfull =>
      have hk : r.blockHashes.length + 1 ≤ r.numTokens / H.blockSize := by
        rw [Nat.le_div_iff_mul_le H.blockSize_pos, Nat.succ_mul]
        exact Nat.not_lt.mp hfull
      rw [← Base.getLast?_hashChain, ← h]
      exact ⟨_, hasherLoop_eq _ _ (Nat.add_sub_of_le ((Nat.le_succ _).trans hk))
        ((Nat.sub_le _ _).trans (Nat.div_le_self _ _))⟩
  obtain ⟨ys, hys⟩ := hnew
  refine ⟨xs ++ ys, ?_⟩
  rw [Base.hashChain_append, ← h, ← hys]
  rfl

theorem Request.Made.exists_hashChain (h : r.Made H) :
    ∃ xs, r.blockHashes = Base.hashChain H.step H.noneHash xs := by
  induction h with
  | @new q r h =>
    obtain ⟨n, -, rfl⟩ := fromEngineCoreRequest_eq h
    exact @exists_updateBlockHashes_eq D H _ [] rfl
  | @step r r' _ e h ih =>
    obtain ⟨xs, hxs⟩ := ih
    cases e with
    | append toks =>
      cases h
      exact exists_updateBlockHashes_eq (r := { r with
        outputTokenIds := r.outputTokenIds ++ toks
        allTokenIds := r.allTokenIds ++ toks }) hxs
    | computed n =>
      cases h
      exact ⟨xs, hxs⟩
    | update u =>
      rcases hp : r.promptTokenIds with _ | prompt
      · simp [sessionStep, updateRequestAsSession, hp] at h
      · obtain ⟨m, hm⟩ := updateRequestAsSession_eq (H := H) hp u
        cases hm.symm.trans h
        exact exists_updateBlockHashes_eq (r := r.spliced prompt u) hxs

theorem Request.Made.nodup_blockHashes (hinj : Function.Injective H.hashFunction)
    (hnone : ∀ x, H.hashFunction x ≠ H.noneHash) (h : r.Made H) : r.blockHashes.Nodup := by
  obtain ⟨xs, hxs⟩ := h.exists_hashChain
  rw [hxs]
  exact Base.nodup_hashChain (BlockHasher.step_injective2 hinj) (fun _ _ => hnone _) xs

end Vllm
