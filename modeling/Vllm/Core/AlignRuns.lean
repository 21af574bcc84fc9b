import Vllm.Core.AlignSlots

/-! Runs of `MambaManager` in `align` mode without blocks for draft tokens: the block of the running
state is kept until the step that reads it is over. -/

namespace Vllm
open Base Dict List
variable {D : Type} [DecidableEq D]

theorem countP_le_card {α : Type} {p : α → Bool} {l : List α} {S : Finset Nat}
    (h : ∀ i a, l[i]? = some a → p a = true → i ∈ S) : l.countP p ≤ S.card := by
  induction l using List.reverseRecOn generalizing S with
  | nil => exact Nat.zero_le _
  | append_singleton l a ih =>
    rw [countP_append, countP_singleton]
    have hearlier : ∀ i a', l[i]? = some a' → p a' = true → i ∈ S.erase l.length := by
      intro i a' ha' hp
      have hlt := (List.getElem?_eq_some_iff.mp ha').1
      refine Finset.mem_erase.mpr ⟨Nat.ne_of_lt hlt, h i a' ?_ hp⟩
      rw [getElem?_append_left hlt, ha']
    have hle := ih hearlier
    split
    · next hp =>
      have hmem : l.length ∈ S := h l.length a getElem?_concat_length hp
      have := Finset.card_erase_add_one hmem
      omega
    · exact hle.trans (Finset.card_erase_le)

namespace MambaAlign

/-- Calls for other requests and other groups, and the caching of blocks, leave this alone. -/
structure Elsewhere (g : Nat) (id : String) (s s' : AlignState D) : Prop where
  owned : Owned s'.1
  blocks : table g id s' = table g id s
  last : s'.2.lastStateBlockIdx.get? id = s.2.lastStateBlockIdx.get? id
  allocated : id ∈ s'.2.allocatedBlockReqs ↔ id ∈ s.2.allocatedBlockReqs
  uncached : table g id s = [] → s.1.2.numCachedBlock.contains (g, id) = false →
    s'.1.2.numCachedBlock.contains (g, id) = false

structure AlignRun (D : Type) where
  state : AlignState D
  tokens : Nat := 0
  written : Option Nat := none

inductive AlignOp (D : Type) where
  | step (numComputedTokens : Nat) (newComputedBlocks : List Nat) (numTokens : Nat)
  | elsewhere (s : AlignState D)
  | free

section
variable (m : MambaAlign) (g : Nat) (id : String) (caching : Bool)

def AlignRun.after (r : AlignRun D) (numTokens : Nat) (res : Option (List Nat))
    (s : AlignState D) : AlignRun D :=
  match res with
  | some _ => { state := s, tokens := numTokens, written := (table g id s).getLast? }
  | none => { r with state := s }

def AlignOp.next (op : AlignOp D) (r : AlignRun D) : AlignRun D :=
  match op with
  | step c hits n =>
    match m.allocateSlots g id caching c hits n r.state with
    | (.ok res, s) => r.after g id n res s
    | (.error _, s) => { r with state := s }
  | elsewhere s => { r with state := s }
  | free => { state := (MambaAlign.free g id r.state).2 }

/-- A new request starts with the tokens of its hit. Later the tokens computed reach into the last
block of those allocated before. -/
def AlignOp.Ok (op : AlignOp D) (r : AlignRun D) : Prop :=
  match op with
  | step c hits n => c < n ∧
    (r.tokens = 0 → MambaHit r.state.1.1 caching hits ∧ c = hits.length * m.blockSize) ∧
    (0 < r.tokens → hits = [] ∧ cdiv c m.blockSize = cdiv r.tokens m.blockSize)
  | elsewhere s => Elsewhere g id r.state s
  | free => True

end

section
variable {m : MambaAlign} {g : Nat} {id : String} {tokens : Nat} {s s' : AlignState D}

theorem Tracks.elsewhere (h : Tracks m g id tokens s) (he : Elsewhere g id s s') :
    Tracks m g id tokens s' where
  owned := he.owned
  fresh h0 := by
    obtain ⟨hempty, hnot, hlast, hnew⟩ := h.fresh h0
    exact ⟨he.blocks.trans hempty, fun hin => hnot (he.allocated.mp hin), he.last.trans hlast,
      he.uncached hempty hnew⟩
  held hpos := by
    obtain ⟨hin, hlen, hlast⟩ := h.held hpos
    exact ⟨he.allocated.mpr hin, he.blocks ▸ hlen, he.last ▸ hlast⟩

theorem Tracks.congr (h : Tracks m g id tokens s) (hpos : 0 < tokens) {n : Nat} (hn : 0 < n)
    (hq : cdiv n m.blockSize = cdiv tokens m.blockSize) : Tracks m g id n s where
  owned := h.owned
  fresh h0 := absurd h0 (Nat.ne_of_gt hn)
  held _ := by
    rw [numRequiredBlocks, hq]
    exact h.held hpos

theorem free_eq (g : Nat) (id : String) (s : AlignState D) :
    MambaAlign.free g id s = (.ok (), ((KVMove.release g id).next s.1,
      { lastStateBlockIdx := s.2.lastStateBlockIdx.erase id
        allocatedBlockReqs := s.2.allocatedBlockReqs.filter (· ≠ id) })) := by
  unfold MambaAlign.free
  rw [Call.modify_bind]
  exact Call.lift_run (free_run g id s.1) _

theorem tracks_free (hs : Owned s.1) : Tracks m g id 0 (MambaAlign.free g id s).2 := by
  rw [free_eq]
  refine ⟨hs.release g id, fun _ => ⟨?_, ?_, ?_, ?_⟩, fun h => absurd h (Nat.lt_irrefl 0)⟩
  · exact ((replaced_drop s.1.2 g id).blocks g id).trans (if_pos rfl)
  · simp
  · exact get?_erase_self ..
  · exact congrArg Option.isSome (get?_erase_self s.1.2.numCachedBlock (g, id))

theorem tracks_init (m : MambaAlign) (cfg : KVCacheConfig) (g : Nat) (id : String) :
    Tracks m g id 0 ((cfg.init, {}) : AlignState D) where
  owned := owned_init cfg
  fresh _ := ⟨rfl, not_mem_nil, rfl, rfl⟩
  held h := absurd h (Nat.lt_irrefl 0)

variable {id' : String} {hits : List Nat}

theorem elsewhere_of_apart (howned : Owned s'.1) (h : ApartFrom g id' s s') (hne : id ≠ id') :
    Elsewhere g id s s' := by
  obtain ⟨hblocks, hcached⟩ := h.lists g id fun heq => hne (congrArg Prod.snd heq)
  exact ⟨howned, hblocks, h.last id hne, h.allocated id hne,
    fun _ hnew => (congrArg Option.isSome hcached).trans hnew⟩

theorem elsewhere_free (hs : Owned s.1) (hne : id ≠ id') :
    Elsewhere g id s (MambaAlign.free g id' s).2 := by
  rw [free_eq]
  refine elsewhere_of_apart (hs.release g id') ⟨fun g' id'' h => ⟨?_, ?_⟩, fun id'' h => ?_,
    fun id'' h => ?_⟩ hne
  · exact ((replaced_drop s.1.2 g id').blocks g' id'').trans (if_neg h)
  · exact (get?_erase ..).trans (if_neg h)
  · exact (get?_erase ..).trans (if_neg h)
  · simp [h]

/-! ## One running state -/

/-- Without blocks for draft tokens: the running state is in the last block, and besides it only the
remembered block is not null. -/
structure OneState (m : MambaAlign) (g : Nat) (id : String) (r : AlignRun D) : Prop where
  tracks : Tracks m g id r.tokens r.state
  running : 0 < r.tokens → ∃ b, r.written = some b ∧ b ≠ 0 ∧
    (table g id r.state)[cdiv r.tokens m.blockSize - 1]? = some b
  sparse : ∀ i b : Nat, (table g id r.state)[i]? = some b → b ≠ 0 →
    i + 1 = cdiv r.tokens m.blockSize ∨ r.state.2.lastStateBlockIdx.get? id = some i

theorem oneState_init (m : MambaAlign) (g : Nat) (id : String) {s : AlignState D}
    (hs : Tracks m g id 0 s) : OneState m g id { state := s } where
  tracks := hs
  running h := absurd h (Nat.lt_irrefl 0)
  sparse i b hb := by
    rw [(hs.fresh rfl).1] at hb
    cases hb

variable {r : AlignRun D}

theorem OneState.elsewhere (h : OneState m g id r) (he : Elsewhere g id r.state s) :
    OneState m g id { r with state := s } where
  tracks := h.tracks.elsewhere he
  running hpos := by
    obtain ⟨b, hw, h0, hb⟩ := h.running hpos
    exact ⟨b, hw, h0, he.blocks ▸ hb⟩
  sparse i b hb h0 := by
    rw [he.last]
    exact h.sparse i b (he.blocks ▸ hb) h0

theorem OneState.released (h : OneState m g id r) (hpos : 0 < r.tokens)
    (hrel : Released g id (cdiv r.tokens m.blockSize - 1) r.state s)
    (hgone : ∀ idx, r.state.2.lastStateBlockIdx.get? id = some idx →
      idx + 1 < cdiv r.tokens m.blockSize → (table g id s)[idx]? = some 0) :
    (∃ b, r.written = some b ∧ b ≠ 0 ∧
      (table g id s)[cdiv r.tokens m.blockSize - 1]? = some b) ∧
    ∀ i b : Nat, (table g id s)[i]? = some b → b ≠ 0 → i + 1 = cdiv r.tokens m.blockSize := by
  refine ⟨?_, fun i b hb h0 => ?_⟩
  · obtain ⟨b, hw, h0, hb⟩ := h.running hpos
    exact ⟨b, hw, h0, (hrel.kept _ (Nat.le_refl _)).trans hb⟩
  · refine (h.sparse i b (hrel.entry i b hb h0) h0).resolve_right fun hidx => ?_
    have hnull := hgone i hidx ((h.tracks.held hpos).2.2 i hidx)
    cases hb.symm.trans hnull
    exact h0 rfl

theorem stretched_of_no_drafts (hk : m.numSpeculativeBlocks = 0) (n : Nat) (l : List Nat) :
    m.stretched n true l = l ++ List.replicate (n - l.length) 0 := by
  simp only [stretched, hk]
  rfl

theorem oneState_of_blocks {n b : Nat} {l : List Nat} (hs : Tracks m g id n s)
    (hlt : l.length < cdiv n m.blockSize) (h0 : b ≠ 0)
    (hblocks : table g id s = l ++ List.replicate (cdiv n m.blockSize - 1 - l.length) 0 ++ [b])
    (hlast : ∀ i b : Nat, l[i]? = some b → b ≠ 0 → s.2.lastStateBlockIdx.get? id = some i) :
    OneState m g id { state := s, tokens := n, written := (table g id s).getLast? } := by
  have hlen : (l ++ List.replicate (cdiv n m.blockSize - 1 - l.length) 0).length =
      cdiv n m.blockSize - 1 := by
    rw [length_append, length_replicate]
    omega
  refine ⟨hs, fun _ => ⟨b, ?_, h0, ?_⟩, fun i b' hb' h0' => ?_⟩
  · rw [hblocks, getLast?_concat]
  · rw [hblocks, getElem?_append_right hlen.le, hlen, Nat.sub_self]
    rfl
  · rw [hblocks, getElem?_append] at hb'
    split at hb'
    · rw [getElem?_append] at hb'
      split at hb'
      · exact .inr (hlast i b' hb' h0')
      · exact absurd (eq_of_mem_replicate (mem_of_getElem? hb')) h0'
    · refine .inl ?_
      have hin := (List.getElem?_eq_some_iff.mp hb').1
      rw [length_singleton] at hin
      dsimp only
      omega

variable {caching : Bool} {c n : Nat}

theorem OneState.step_held (h : OneState m g id r) (hk : m.numSpeculativeBlocks = 0)
    (hpos : 0 < r.tokens) (hc : cdiv c m.blockSize = cdiv r.tokens m.blockSize) (hn : c < n)
    (caching : Bool) :
    ∃ res s', m.allocateSlots g id caching c [] n r.state = (.ok res, s') ∧
      OneState m g id (r.after g id n res s') ∧
      ∃ b, r.written = some b ∧ b ≠ 0 ∧
        (table g id r.state)[cdiv c m.blockSize - 1]? = some b ∧
        (table g id s')[cdiv c m.blockSize - 1]? = some b := by
  have hle : cdiv r.tokens m.blockSize ≤ cdiv n m.blockSize := hc ▸ cdiv_le_cdiv hn.le
  obtain ⟨s₁, res, s', -, hrel, hgone, hrun, hout⟩ := h.tracks.allocateSlots_held hpos caching c hle
  rw [hk, Nat.sub_zero, hc] at hrel hgone
  obtain ⟨⟨b, hw, h0, hb⟩, honly⟩ := h.released hpos hrel hgone
  have h₁ := h.tracks.released hrel
  have hq : 0 < cdiv r.tokens m.blockSize := cdiv_pos hpos m.blockSize_pos
  have hlen : (table g id s₁).length = cdiv r.tokens m.blockSize := by
    rw [(h₁.held hpos).2.1, numRequiredBlocks, hk, Nat.add_zero]
  refine ⟨res, s', hrun, ?_, b, hw, h0, ?_, ?_⟩
  · cases hout with
    | refused => exact ⟨h₁, fun _ => ⟨b, hw, h0, hb⟩, fun i b' hb' h0' => .inl (honly i b' hb' h0')⟩
    | same hsame =>
      have htable : table g id (((KVMove.enter g id).next s₁.1, s₁.2) : AlignState D) =
        table g id s₁ := blocks_enter g id s₁.1
      have henter := h₁.released (released_enter h₁.owned g id 0)
      refine ⟨henter.congr hpos (Nat.zero_lt_of_lt hn) hsame, fun _ => ⟨b, ?_, h0, ?_⟩,
        fun i b' hb' h0' => .inl ?_⟩
      · rw [AlignRun.after, htable, getLast?_eq_getElem?, hlen, hb]
      · rw [AlignRun.after, htable, hsame]
        exact hb
      · rw [AlignRun.after, hsame]
        exact honly i b' (htable ▸ hb') h0'
    | @longer new b' s' hlt hfree htracks htook hlast _ =>
      have hblocks := htook.blocks
      rw [stretched_of_no_drafts hk] at hblocks
      refine oneState_of_blocks htracks (hlen ▸ hlt) (h₁.owned.inv.free_spec b' hfree).2.2 hblocks
        fun i b'' hb'' h0'' => hlast.trans ?_
      have := honly i b'' hb'' h0''
      congr 1
      omega
  · exact hc ▸ (hrel.kept _ (Nat.le_refl _)).symm.trans hb
  · rw [hc]
    cases hout with
    | refused => exact hb
    | same _ => exact (congrArg (·[_]?) (blocks_enter g id s₁.1)).trans hb
    | @longer new b' s' hlt hfree htracks htook hlast _ =>
      have hblocks : table g id s' = _ := htook.blocks
      rw [hblocks, stretched_of_no_drafts hk, append_assoc,
        getElem?_append_left (by omega)]
      exact hb

omit [DecidableEq D] in
theorem MambaHit.only_last {p : BlockPool (BlockKey D)} (h : MambaHit p caching hits) :
    (hits ≠ [] → ∃ b, hits[hits.length - 1]? = some b ∧ b ≠ 0) ∧
    ∀ i b : Nat, hits[i]? = some b → b ≠ 0 → i + 1 = hits.length := by
  rcases h with rfl | ⟨j, b, rfl, h0, -, -⟩
  · exact ⟨fun h => absurd rfl h, fun i b hb => by cases hb⟩
  · refine ⟨fun _ => ⟨b, ?_, h0⟩, fun i b' hb' h0' => ?_⟩
    · rw [← getLast?_eq_getElem?, getLast?_concat]
    · rw [getElem?_append] at hb'
      split at hb'
      · exact absurd (eq_of_mem_replicate (mem_of_getElem? hb')) h0'
      · have hin := (List.getElem?_eq_some_iff.mp hb').1
        simp only [length_append, length_replicate, length_singleton] at *
        omega

theorem OneState.step_first (h : OneState m g id r) (hk : m.numSpeculativeBlocks = 0)
    (hzero : r.tokens = 0) (hhit : MambaHit r.state.1.1 caching hits)
    (hn : hits.length * m.blockSize < n) :
    ∃ res s', m.allocateSlots g id caching (hits.length * m.blockSize) hits n r.state =
        (.ok res, s') ∧
      OneState m g id (r.after g id n res s') ∧
      (res ≠ none → ∀ i : Nat, i < hits.length → (table g id s')[i]? = hits[i]?) := by
  have hs : Tracks m g id 0 r.state := hzero ▸ h.tracks
  obtain ⟨k, s₁, res, s', -, hrel, hrun, hout⟩ := hs.allocateSlots_first hhit hn
  refine ⟨res, s', hrun, ?_, ?_⟩
  · cases hout with
    | refused =>
      have h₁ := hs.released hrel
      refine ⟨hzero ▸ h₁, fun hpos => absurd hzero (Nat.ne_of_gt hpos), fun i b hb => ?_⟩
      rw [AlignRun.after, (h₁.fresh rfl).1] at hb
      cases hb
    | @placed new fresh s' htracks hlen hnonnull hblocks _ hlast _ =>
      obtain ⟨b, rfl⟩ := length_eq_one_iff.mp (hk ▸ hlen)
      refine oneState_of_blocks htracks ?_ (hnonnull b (mem_singleton.mpr rfl)) hblocks
        fun i b' hb' h0' => hlast.trans ?_
      · exact Nat.lt_of_mul_lt_mul_right (hn.trans_le (le_cdiv_mul n m.blockSize_pos))
      · have hi := hhit.only_last.2 i b' hb' h0'
        rw [if_neg (ne_nil_of_length_pos (by omega))]
        congr 1
        omega
  · intro hres i hi
    cases hout with
    | refused => exact absurd rfl hres
    | placed _ _ _ hblocks _ _ _ =>
      rw [hblocks, append_assoc, getElem?_append_left hi]

theorem AlignOp.ok_step (hpos : 0 < r.tokens) (hn : c < n)
    (hc : cdiv c m.blockSize = cdiv r.tokens m.blockSize) :
    (AlignOp.step c [] n).Ok m g id caching r :=
  ⟨hn, fun h0 => absurd h0 (Nat.ne_of_gt hpos), fun _ => ⟨rfl, hc⟩⟩

theorem AlignOp.next_step {res : Option (List Nat)}
    (h : m.allocateSlots g id caching c hits n r.state = (.ok res, s)) :
    (AlignOp.step c hits n).next m g id caching r = r.after g id n res s := by
  simp only [AlignOp.next, h]

theorem OneState.next (h : OneState m g id r) (hk : m.numSpeculativeBlocks = 0) (op : AlignOp D)
    (hok : op.Ok m g id caching r) : OneState m g id (op.next m g id caching r) := by
  cases op with
  | step c hits n =>
    obtain ⟨hn, hfirst, hheld⟩ := hok
    rcases Nat.eq_zero_or_pos r.tokens with hzero | hpos
    · obtain ⟨hhit, rfl⟩ := hfirst hzero
      obtain ⟨res, s', hrun, hnext, -⟩ := h.step_first hk hzero hhit hn
      exact AlignOp.next_step hrun ▸ hnext
    · obtain ⟨rfl, hc⟩ := hheld hpos
      obtain ⟨res, s', hrun, hnext, -⟩ := h.step_held hk hpos hc hn caching
      exact AlignOp.next_step hrun ▸ hnext
  | elsewhere s => exact h.elsewhere hok
  | free => exact oneState_init m g id (tracks_free h.tracks.owned)

/-! ## What holds in every state -/

def InUse (s : AlignState D) (b : Nat) : Prop := 0 < s.1.1.refCnt b ∧ b ∉ s.1.1.free

theorem inUse_of_entry (hs : Owned s.1) {i b : Nat} (hb : (table g id s)[i]? = some b)
    (h0 : b ≠ 0) : InUse s b := by
  have hpos := hs.refCnt_pos (mem_of_getElem? hb) h0
  refine ⟨hpos, fun hfree => ?_⟩
  exact absurd (hs.inv.free_spec b hfree).2.1 (ne_of_gt hpos)

/-- Every step returns, and where it reads a state, the block of that state is not null: it is the
one of the hit, or the one written last, which stays in use until the step is over. -/
def ReadsState (m : MambaAlign) (g : Nat) (id : String) (caching : Bool) (r : AlignRun D) : Prop :=
  ∀ c hits n, (AlignOp.step c hits n).Ok m g id caching r →
    ∃ res s', m.allocateSlots g id caching c hits n r.state = (.ok res, s') ∧
      (0 < c → ∃ b, (table g id r.state ++ hits)[cdiv c m.blockSize - 1]? = some b ∧ b ≠ 0 ∧
        (0 < r.tokens → r.written = some b ∧ InUse r.state b) ∧
        (0 < r.tokens ∨ res ≠ none →
          (table g id s')[cdiv c m.blockSize - 1]? = some b ∧ InUse s' b))

structure KeepsState (m : MambaAlign) (g : Nat) (id : String) (caching : Bool) (r : AlignRun D) :
    Prop where
  reads : ReadsState m g id caching r
  written : 0 < r.tokens → ∃ b, r.written = some b ∧ InUse r.state b
  last : 0 < r.tokens → ∃ b, (table g id r.state).getLast? = some b ∧ b ≠ 0
  once : ∀ b ∈ table g id r.state, b ≠ 0 → (table g id r.state).count b = 1
  two : (table g id r.state).countP (· ≠ 0) ≤ 2

theorem OneState.owned_after {res : Option (List Nat)}
    (h : OneState m g id (r.after g id n res s)) : Owned s.1 := by
  cases res <;> exact h.tracks.owned

theorem OneState.readsState (h : OneState m g id r) (hk : m.numSpeculativeBlocks = 0) :
    ReadsState m g id caching r := by
  intro c hits n hok
  obtain ⟨hn, hfirst, hheld⟩ := hok
  rcases Nat.eq_zero_or_pos r.tokens with hzero | hpos
  · obtain ⟨hhit, rfl⟩ := hfirst hzero
    obtain ⟨res, s', hrun, hnext, hkept⟩ := h.step_first hk hzero hhit hn
    refine ⟨res, s', hrun, fun hc => ?_⟩
    have hne : hits ≠ [] := by
      rintro rfl
      simp at hc
    obtain ⟨b, hb, h0⟩ := hhit.only_last.1 hne
    have hcdiv : cdiv (hits.length * m.blockSize) m.blockSize = hits.length :=
      cdiv_mul_self _ m.blockSize_pos
    rw [hcdiv, (h.tracks.fresh hzero).1]
    refine ⟨b, hb, h0, fun hpos => absurd hzero (Nat.ne_of_gt hpos), fun hres => ?_⟩
    have hres : res ≠ none := hres.resolve_left (Nat.not_lt.mpr hzero.le)
    have hb' : (table g id s')[hits.length - 1]? = some b :=
      (hkept hres _ (Nat.sub_one_lt_of_lt (length_pos_iff.mpr hne))).trans hb
    exact ⟨hb', inUse_of_entry hnext.owned_after hb' h0⟩
  · obtain ⟨rfl, hc⟩ := hheld hpos
    obtain ⟨res, s', hrun, hnext, b, hw, h0, hb, hb'⟩ := h.step_held hk hpos hc hn caching
    refine ⟨res, s', hrun, fun _ => ⟨b, ?_, h0, fun _ => ⟨hw, ?_⟩, fun _ => ⟨hb', ?_⟩⟩⟩
    · rw [append_nil, hb]
    · exact inUse_of_entry h.tracks.owned hb h0
    · exact inUse_of_entry hnext.owned_after hb' h0

theorem OneState.keepsState (h : OneState m g id r) (hk : m.numSpeculativeBlocks = 0) :
    KeepsState m g id caching r where
  reads := h.readsState hk
  written hpos := by
    obtain ⟨b, hw, h0, hb⟩ := h.running hpos
    exact ⟨b, hw, inUse_of_entry h.tracks.owned hb h0⟩
  last hpos := by
    obtain ⟨b, -, h0, hb⟩ := h.running hpos
    have hlen : (table g id r.state).length = cdiv r.tokens m.blockSize := by
      rw [(h.tracks.held hpos).2.1, numRequiredBlocks, hk, Nat.add_zero]
    exact ⟨b, by rw [getLast?_eq_getElem?, hlen, hb], h0⟩
  once b hb h0 := h.tracks.owned.once g id b hb h0
  two := by
    refine (countP_le_card (S := {cdiv r.tokens m.blockSize - 1,
      (r.state.2.lastStateBlockIdx.get? id).getD 0}) fun i b hb hp => ?_).trans Finset.card_le_two
    rcases h.sparse i b hb (of_decide_eq_true hp) with hi | hi
    · rw [← hi]
      exact Finset.mem_insert_self ..
    · rw [hi]
      exact Finset.mem_insert_of_mem (Finset.mem_singleton_self i)

/-- The state a step reads is in its block from the step that wrote it until the step is over, and
the request holds no more than two blocks. -/
theorem keepsState_of_run (hk : m.numSpeculativeBlocks = 0) (hs : Tracks m g id 0 s)
    (run : Run (fun op : AlignOp D => op.next m g id caching)
      (fun op r => op.Ok m g id caching r) { state := s } r) :
    KeepsState m g id caching r := by
  have h := run.inv (I := OneState m g id) (oneState_init m g id hs)
    fun op r h hok => h.next hk op hok
  exact h.keepsState hk

end

def noDrafts : MambaAlign where
  blockSize := 4
  numSpeculativeBlocks := 0

theorem keepsState_of_run_fourSteps :
    let s : AlignState HashTerm := (oneFullGroup.init, {})
    let r := [AlignOp.step 0 [] 9, .step 9 [] 17, .step 17 [] 20, .step 20 [] 21].foldl
      (fun r op => op.next noDrafts 0 "a" true r) { state := s }
    r.tokens = 21 ∧ table 0 "a" r.state = [0, 0, 0, 0, 2, 3] ∧
      KeepsState noDrafts 0 "a" true r := by
  intro s r
  have hrun : Run (fun op : AlignOp HashTerm => op.next noDrafts 0 "a" true)
      (fun op r => op.Ok noDrafts 0 "a" true r) { state := s } r := by
    refine .of_allowed ⟨⟨by decide, fun _ => ⟨.inl rfl, rfl⟩, by decide⟩, ?_, ?_, ?_, trivial⟩
    all_goals exact AlignOp.ok_step (by decide +kernel) (by decide) (by decide +kernel)
  exact ⟨by decide +kernel, by decide +kernel,
    keepsState_of_run rfl (tracks_init noDrafts oneFullGroup 0 "a") hrun⟩

/-- Where fewer tokens are computed than were allocated, the block at their end may be null, and
blocks of earlier states stay. -/
theorem null_at_computed_tokens :
    let s : AlignState HashTerm := (oneFullGroup.init, {})
    let step c n := fun s => (noDrafts.allocateSlots 0 "a" true c [] n s : _ × AlignState HashTerm).2
    table 0 "a" (step 0 5 s) = [0, 1] ∧ cdiv 3 noDrafts.blockSize - 1 = 0 ∧
      table 0 "a" (step 0 13 (step 0 9 (step 0 5 s))) = [0, 1, 2, 3] := by
  refine ⟨by decide +kernel, by decide, by decide +kernel⟩

/-! ## Any number of requests -/

variable {m : MambaAlign} {g : Nat} {id id' : String} {caching : Bool} {cfg : KVCacheConfig}
  {r : AlignRun D} {op : AlignOp D}

/-- Besides the calls of the requests, blocks are given their hashes. -/
def AlignOp.Caches (cfg : KVCacheConfig) (r : AlignRun D) : AlignOp D → Prop
  | elsewhere s => ∃ x g' id' i key, (KVMove.publish g' id' i key).Ok cfg x r.state.1 ∧
      s = ((KVMove.publish g' id' i key).next r.state.1, r.state.2)
  | _ => True

theorem Tracks.others (h : Tracks m g id' r.tokens r.state) (hok : op.Ok m g id' caching r)
    (hcaches : op.Caches cfg r) (hne : id ≠ id') :
    Elsewhere g id r.state (op.next m g id' caching r).state := by
  cases op with
  | step c hits n =>
    obtain ⟨hn, hfirst, hheld⟩ := hok
    rcases Nat.eq_zero_or_pos r.tokens with hzero | hpos
    · obtain ⟨hhit, rfl⟩ := hfirst hzero
      rw [hzero] at h
      obtain ⟨_, _, _, _, -, hrel, hrun, hout⟩ := h.allocateSlots_first hhit hn
      have hfreed := apartFrom_of_tables hrel.apart hrel.tables
      rw [AlignOp.next_step hrun]
      cases hout with
      | refused => exact elsewhere_of_apart hrel.owned hfreed hne
      | placed htracks _ _ _ _ _ hapart =>
        exact elsewhere_of_apart htracks.owned (hfreed.trans hapart) hne
    · obtain ⟨rfl, hc⟩ := hheld hpos
      obtain ⟨_, _, _, -, hrel, -, hrun, hout⟩ :=
        h.allocateSlots_held hpos caching c (hc ▸ cdiv_le_cdiv hn.le)
      have hfreed := apartFrom_of_tables hrel.apart hrel.tables
      rw [AlignOp.next_step hrun]
      cases hout with
      | refused => exact elsewhere_of_apart hrel.owned hfreed hne
      | same _ =>
        have henter := released_enter hrel.owned g id' 0
        have hsame := hfreed.trans (apartFrom_of_tables henter.apart henter.tables)
        exact elsewhere_of_apart henter.owned hsame hne
      | longer _ _ htracks _ _ hapart =>
        exact elsewhere_of_apart htracks.owned (hfreed.trans hapart) hne
  | elsewhere s =>
    obtain ⟨x, g', id'', i, key, hpub, rfl⟩ := hcaches
    exact ⟨h.owned.next hpub, rfl, rfl, Iff.rfl, fun _ hnew => hnew⟩
  | free => exact elsewhere_free h.owned hne

end MambaAlign
end Vllm
