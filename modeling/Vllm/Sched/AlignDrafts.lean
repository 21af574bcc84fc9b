import Vllm.Core.AlignRuns

/-! Steps of the scheduler for one request with draft tokens, where Mamba blocks are allocated in
`align` mode: what `schedule` asks for, and what `update_from_output` takes back of it.

Steps are synchronous: the output of a step is there before the next one is scheduled. -/

namespace Vllm
open Base
variable {D : Type} [DecidableEq D]

namespace MambaAlign

/-- A request with its entries of the manager. `allocated` counts the tokens of its last allocation. -/
structure DraftRequest (D : Type) where
  state : AlignState D
  numPromptTokens : Nat
  numTokens : Nat
  numComputedTokens : Nat := 0
  allocated : Nat := 0

/-- A step: the hits of a waiting request, the draft tokens proposed, the bound on new tokens that
budget, `long_prefill_token_threshold`, the longest sequence and encoder inputs leave, and how many
draft tokens the model accepts. -/
structure DraftStep where
  hits : List Nat := []
  numSpecTokens : Nat := 0
  limit : Nat
  numAccepted : Nat := 0

section
variable (m : MambaAlign) (useEagle : Bool) (st : DraftStep) (r : DraftRequest D)

def mambaBlockAlignedSplit (numComputedTokens numNewTokens : Nat) : Nat :=
  if numComputedTokens < max r.numPromptTokens (r.numTokens - 1) then
    let lastCachePosition := r.numTokens - r.numTokens % m.blockSize
    let lastCachePosition :=
      if useEagle then lastCachePosition - m.blockSize else lastCachePosition
    let numComputedTokensAfterSched := numComputedTokens + numNewTokens
    if numComputedTokensAfterSched < lastCachePosition then
      numNewTokens / m.blockSize * m.blockSize
    else if numComputedTokens < lastCachePosition ∧
        lastCachePosition < numComputedTokensAfterSched then
      lastCachePosition - numComputedTokens
    else numNewTokens
  else numNewTokens

def DraftStep.numComputedTokens : Nat := r.numComputedTokens + st.hits.length * m.blockSize

def DraftStep.numNewTokens : Nat :=
  let numComputedTokens := st.numComputedTokens m r
  mambaBlockAlignedSplit m useEagle r numComputedTokens
    (min (r.numTokens + st.numSpecTokens - numComputedTokens) st.limit)

def DraftStep.numTokensMainModel : Nat :=
  st.numComputedTokens m r + st.numNewTokens m useEagle r

def DraftStep.numScheduledSpecTokens : Nat :=
  st.numTokensMainModel m useEagle r - r.numTokens

/-- `_update_after_schedule` and `update_from_output`: a step that reaches the last token appends the
accepted draft tokens and one more, and the rejected ones are not computed. -/
def DraftRequest.updated (s : AlignState D) : DraftRequest D :=
  let numTokens := st.numTokensMainModel m useEagle r
  if numTokens < r.numTokens then
    { r with state := s, numComputedTokens := numTokens, allocated := numTokens }
  else
    { r with
      state := s
      numTokens := r.numTokens + st.numAccepted + 1
      numComputedTokens :=
        numTokens - (st.numScheduledSpecTokens m useEagle r - st.numAccepted)
      allocated := numTokens }

variable (g : Nat) (id : String) (caching : Bool)

def DraftStep.allocateSlots : Except PyError (Option (List Nat)) × AlignState D :=
  m.allocateSlots g id caching (st.numComputedTokens m r) st.hits
    (st.numTokensMainModel m useEagle r) r.state

def DraftStep.next : DraftRequest D :=
  if st.numNewTokens m useEagle r = 0 then r
  else
    match st.allocateSlots m useEagle r g id caching with
    | (.ok (some _), s) => r.updated m useEagle st s
    | (_, s) => { r with state := s }

/-- What a step may be: only a waiting request has hits, there are no more draft tokens than blocks
for them, a waiting request has none, and only scheduled ones are accepted. -/
structure DraftStep.Possible : Prop where
  scheduled : 0 < st.numNewTokens m useEagle r
  waiting : r.allocated = 0 → MambaHit r.state.1.1 caching st.hits ∧ st.numSpecTokens = 0
  running : 0 < r.allocated → st.hits = []
  drafts : st.numSpecTokens ≤ m.numSpeculativeBlocks
  accepted : st.numAccepted ≤ st.numScheduledSpecTokens m useEagle r

def DraftStep.ReachesBlocks : Prop :=
  cdiv r.allocated m.blockSize ≤ cdiv (st.numTokensMainModel m useEagle r) m.blockSize

instance : Decidable (st.ReachesBlocks m useEagle r) :=
  inferInstanceAs (Decidable (cdiv _ _ ≤ cdiv _ _))

def DraftStep.AsAnnounced : Prop :=
  ∃ k s₁ res s', m.announce g id (st.numComputedTokens m r) st.hits
      (st.numTokensMainModel m useEagle r) r.state = (.ok k, s₁) ∧
    st.allocateSlots m useEagle r g id caching = (.ok res, s') ∧
    (res ≠ none → s₁.1.1.getNumFreeBlocks ≤ s'.1.1.getNumFreeBlocks + k)

end

inductive DraftOp (D : Type) where
  | step (st : DraftStep)
  | preempt
  | elsewhere (s : AlignState D)

section
variable (m : MambaAlign) (useEagle : Bool) (g : Nat) (id : String) (caching : Bool)

def DraftOp.next (op : DraftOp D) (r : DraftRequest D) : DraftRequest D :=
  match op with
  | step st => st.next m useEagle r g id caching
  | preempt =>
    { r with state := (MambaAlign.free g id r.state).2, numComputedTokens := 0, allocated := 0 }
  | elsewhere s => { r with state := s }

def DraftOp.Ok (op : DraftOp D) (r : DraftRequest D) : Prop :=
  match op with
  | step st => st.Possible m useEagle r caching ∧ st.ReachesBlocks m useEagle r
  | preempt => True
  | elsewhere s => Elsewhere g id r.state s

end

/-! ## One step -/

section
variable {m : MambaAlign} {useEagle : Bool} {g : Nat} {id : String} {caching : Bool}
  {r : DraftRequest D} {st : DraftStep}

structure DraftRequest.Sound (m : MambaAlign) (g : Nat) (id : String) (r : DraftRequest D) :
    Prop where
  tracks : Tracks m g id r.allocated r.state
  zero : r.allocated = 0 → r.numComputedTokens = 0

omit [DecidableEq D] in
theorem DraftStep.Possible.tokens_pos (h : st.Possible m useEagle r caching) :
    0 < st.numTokensMainModel m useEagle r :=
  Nat.add_pos_right _ h.scheduled

/-- What a step leaves: no more blocks were taken than announced, and the manager's entries are those
of the step's tokens, or those before it when it is refused. -/
theorem DraftRequest.Sound.step (h : r.Sound m g id) (hok : st.Possible m useEagle r caching)
    (hreach : st.ReachesBlocks m useEagle r) :
    ∃ k s₁ res s', m.announce g id (st.numComputedTokens m r) st.hits
        (st.numTokensMainModel m useEagle r) r.state = (.ok k, s₁) ∧
      st.allocateSlots m useEagle r g id caching = (.ok res, s') ∧
      (res ≠ none → s₁.1.1.getNumFreeBlocks ≤ s'.1.1.getNumFreeBlocks + k) ∧
      Tracks m g id (if res = none then r.allocated else st.numTokensMainModel m useEagle r)
        s' := by
  rcases Nat.eq_zero_or_pos r.allocated with hzero | hpos
  · obtain ⟨hhit, -⟩ := hok.waiting hzero
    have hc : st.numComputedTokens m r = st.hits.length * m.blockSize := by
      rw [DraftStep.numComputedTokens, h.zero hzero, Nat.zero_add]
    have hn : st.hits.length * m.blockSize < st.numTokensMainModel m useEagle r :=
      hc ▸ Nat.lt_add_of_pos_right hok.scheduled
    have hs : Tracks m g id 0 r.state := hzero ▸ h.tracks
    obtain ⟨k, s₁, res, s', hannounce, hrel, hrun, hout⟩ := hs.allocateSlots_first hhit hn
    rw [← hc] at hannounce hrun
    refine ⟨k, s₁, res, s', hannounce, hrun, ?_⟩
    cases hout with
    | refused => exact ⟨fun h => absurd rfl h, hzero ▸ hs.released hrel⟩
    | placed htracks _ _ _ htaken _ _ => exact ⟨fun _ => htaken, htracks⟩
  · have hempty := hok.running hpos
    obtain ⟨s₁, res, s', hannounce, hrel, -, hrun, hout⟩ :=
      h.tracks.allocateSlots_held hpos caching (st.numComputedTokens m r) hreach
    rw [← hempty] at hannounce hrun
    have h₁ := h.tracks.released hrel
    refine ⟨_, s₁, res, s', hannounce, hrun, ?_⟩
    cases hout with
    | refused => exact ⟨fun h => absurd rfl h, h₁⟩
    | same hsame =>
      refine ⟨fun _ => ?_, (h₁.released (released_enter h₁.owned g id 0)).congr hpos hok.tokens_pos
        hsame⟩
      rw [if_neg (Nat.not_lt.mpr hsame.le), Int.add_zero]
      rfl
    | longer hlt _ htracks htook _ _ =>
      refine ⟨fun _ => ?_, htracks⟩
      rw [if_pos hlt, ← htook.free]
      rfl

theorem DraftRequest.Sound.next (h : r.Sound m g id) (op : DraftOp D)
    (hok : op.Ok m useEagle g id caching r) :
    (op.next m useEagle g id caching r).Sound m g id := by
  cases op with
  | step st =>
    obtain ⟨hpossible, hreach⟩ := hok
    obtain ⟨k, s₁, res, s', -, hrun, -, htracks⟩ := h.step hpossible hreach
    simp only [DraftOp.next, DraftStep.next, if_neg (Nat.ne_of_gt hpossible.scheduled), hrun]
    cases res with
    | none => exact ⟨htracks, h.zero⟩
    | some new =>
      have hpos := hpossible.tokens_pos
      simp only [DraftRequest.updated]
      split <;> exact ⟨htracks, fun h0 => absurd h0 (Nat.ne_of_gt hpos)⟩
  | preempt => exact ⟨tracks_free h.tracks.owned, fun _ => rfl⟩
  | elsewhere s => exact ⟨h.tracks.elsewhere hok, h.zero⟩

/-- In every run whose steps reach as many blocks as those before them, the next step runs into no
assertion just when it does so too. -/
theorem asAnnounced_iff_of_run {s : AlignState D} (hs : Tracks m g id 0 s) {numPrompt : Nat}
    (run : Run (fun op : DraftOp D => op.next m useEagle g id caching)
      (fun op r => op.Ok m useEagle g id caching r)
      { state := s, numPromptTokens := numPrompt, numTokens := numPrompt } r)
    (hok : st.Possible m useEagle r caching) :
    st.AsAnnounced m useEagle r g id caching ↔ st.ReachesBlocks m useEagle r := by
  have h : r.Sound m g id := run.inv (I := DraftRequest.Sound m g id) ⟨hs, fun _ => rfl⟩
    fun op r h hok => h.next op hok
  constructor
  · rintro ⟨k, s₁, res, s', -, hrun, -⟩
    refine Nat.le_of_not_lt fun hlt => ?_
    have hpos : 0 < r.allocated := by
      refine Nat.pos_of_ne_zero fun h0 => ?_
      rw [h0, cdiv_zero m.blockSize_pos] at hlt
      exact Nat.not_lt_zero _ hlt
    obtain ⟨message, s'', herror⟩ :=
      h.tracks.allocateSlots_shorter hpos caching (st.numComputedTokens m r) hlt
    rw [← hok.running hpos] at herror
    cases hrun.symm.trans herror
  · intro hreach
    obtain ⟨k, s₁, res, s', hannounce, hrun, htaken, -⟩ := h.step hok hreach
    exact ⟨k, s₁, res, s', hannounce, hrun, htaken⟩

end

def twoDrafts : MambaAlign := { noDrafts with numSpeculativeBlocks := 2 }

def twoTokens : DraftRequest HashTerm where
  state := ((fullGroup 7 8).init, {})
  numPromptTokens := 2
  numTokens := 2

def promptAndDrafts (numAccepted : Nat) : List (DraftOp HashTerm) :=
  [.step { limit := 8 }, .step { numSpecTokens := 2, limit := 8, numAccepted }]

theorem asAnnounced_iff_of_run_oneAccepted :
    let r := (promptAndDrafts 1).foldl (fun r op => op.next twoDrafts false 0 "a" true r) twoTokens
    let st : DraftStep := { limit := 8 }
    r.allocated = 5 ∧ r.numComputedTokens = 4 ∧
      (st.AsAnnounced twoDrafts false r 0 "a" true ↔ st.ReachesBlocks twoDrafts false r) := by
  intro r st
  have hrun : Run (fun op : DraftOp HashTerm => op.next twoDrafts false 0 "a" true)
      (fun op r => op.Ok twoDrafts false 0 "a" true r) twoTokens r := by
    refine .of_allowed ⟨⟨⟨by decide, fun _ => ⟨.inl rfl, rfl⟩, fun _ => rfl, by decide, by decide⟩,
      by decide⟩, ⟨⟨by decide +kernel, fun h => ?_, fun _ => rfl, by decide, by decide +kernel⟩,
      by decide +kernel⟩, trivial⟩
    exact absurd h (by decide +kernel)
  refine ⟨by decide +kernel, by decide +kernel, asAnnounced_iff_of_run (tracks_init ..) hrun ?_⟩
  exact ⟨by decide +kernel, fun _ => ⟨.inl rfl, rfl⟩, fun _ => rfl, by decide, by decide +kernel⟩

theorem assertion_after_rejection :
    let r := (promptAndDrafts 0).foldl (fun r op => op.next twoDrafts false 0 "a" true r) twoTokens
    let st : DraftStep := { limit := 8 }
    st.Possible twoDrafts false r true ∧ r.numComputedTokens = 3 ∧
      table 0 "a" r.state = [1, 2, 3, 4] ∧
      (st.allocateSlots twoDrafts false r 0 "a" true).1 =
        .error (.assertionError "num_required_blocks 3 < len(req_blocks) 4") := by
  intro r st
  refine ⟨⟨by decide +kernel, fun _ => ⟨.inl rfl, rfl⟩, fun _ => rfl, by decide, by decide +kernel⟩,
    by decide +kernel, by decide +kernel, by decide +kernel⟩

end MambaAlign
end Vllm
