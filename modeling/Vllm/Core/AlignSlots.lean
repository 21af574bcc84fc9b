import Vllm.Core.AlignSteps

/-! `allocate_slots` of one request with `MambaManager` in `align` mode: how a call may end, for a new
request and for one that has blocks. -/

namespace Vllm
open Base Call List KVMove
variable {D : Type} [DecidableEq D]

namespace MambaAlign

structure Tracks (m : MambaAlign) (g : Nat) (id : String) (tokens : Nat) (s : AlignState D) :
    Prop where
  owned : Owned s.1
  fresh : tokens = 0 → table g id s = [] ∧ id ∉ s.2.allocatedBlockReqs ∧
    s.2.lastStateBlockIdx.get? id = none ∧ s.1.2.numCachedBlock.contains (g, id) = false
  held : 0 < tokens → id ∈ s.2.allocatedBlockReqs ∧
    (table g id s).length = m.numRequiredBlocks tokens ∧
    ∀ idx, s.2.lastStateBlockIdx.get? id = some idx → idx + 1 < cdiv tokens m.blockSize

section
variable {m : MambaAlign} {g : Nat} {id : String} {tokens : Nat} {s s' : AlignState D}

theorem Tracks.idx_lt (h : Tracks m g id tokens s) {idx : Nat}
    (hidx : s.2.lastStateBlockIdx.get? id = some idx) : idx < (table g id s).length := by
  rcases Nat.eq_zero_or_pos tokens with h0 | hpos
  · cases (h.fresh h0).2.2.1.symm.trans hidx
  · obtain ⟨-, hlen, hlast⟩ := h.held hpos
    have := hlast idx hidx
    rw [hlen, numRequiredBlocks]
    omega

theorem Released.of_empty {hi : Nat} (h : Released g id hi s s') (hempty : table g id s = []) :
    Released g id 0 s s' where
  owned := h.owned
  tables := h.tables
  length := h.length
  cached := h.cached
  hash := h.hash
  entry := h.entry
  kept i _ := by
    have hempty' : table g id s' = [] :=
      length_eq_zero_iff.mp (h.length.trans (congrArg List.length hempty))
    rw [hempty, hempty']
  apart := h.apart

theorem Tracks.released (h : Tracks m g id tokens s) {hi : Nat} (hrel : Released g id hi s s') :
    Tracks m g id tokens s' where
  owned := hrel.owned
  fresh h0 := by
    obtain ⟨hempty, hnot, hlast, hnew⟩ := h.fresh h0
    refine ⟨?_, hrel.tables ▸ hnot, hrel.tables ▸ hlast, hrel.cached ▸ hnew⟩
    exact length_eq_zero_iff.mp (hrel.length.trans (congrArg List.length hempty))
  held hpos := by
    obtain ⟨hin, hlen, hlast⟩ := h.held hpos
    exact ⟨hrel.tables ▸ hin, hrel.length.trans hlen, hrel.tables ▸ hlast⟩

variable {n c : Nat} {hits : List Nat} {k : Int} {s₁ : AlignState D}

theorem Tracks.allocate_longer (h : Tracks m g id tokens s) (hpos : 0 < tokens)
    (hlt : cdiv tokens m.blockSize < cdiv n m.blockSize) {b : Nat} {free : List Nat}
    (hfree : s.1.1.free = b :: free) :
    ∃ new s', m.allocateNewBlocks g id n s = (.ok new, s') ∧ Tracks m g id n s' ∧
      Took g id s.1 s'.1
        (m.stretched (cdiv n m.blockSize - 1) true (table g id s) ++ [b]) 1 ∧
      s'.2.lastStateBlockIdx.get? id = some (cdiv tokens m.blockSize - 1) ∧
      ApartFrom g id s s' := by
  obtain ⟨hin, hlen, hlast⟩ := h.held hpos
  have hq : 0 < cdiv tokens m.blockSize := cdiv_pos hpos m.blockSize_pos
  rw [numRequiredBlocks] at hlen
  have hstretch := length_stretched (m := m) (n := cdiv n m.blockSize - 1) (l := table g id s) true
  simp only [if_true] at hstretch
  obtain ⟨new, s', hrun, htook, htables⟩ := allocateNewBlocks_grows (m := m) (g := g) (n := n)
    (x := 1) h.owned (decide_eq_true hin).symm (fun _ => by omega)
    (by rw [numRequiredBlocks]; omega) (by rw [hstretch, numRequiredBlocks]; omega)
    (by simp) (by simp [hfree])
  have hrecord : s'.2.lastStateBlockIdx.get? id = some (cdiv tokens m.blockSize - 1) := by
    rw [htables]
    simp only [recordLastState, if_true]
    rw [Dict.get?_set_self]
    congr 1
    omega
  rw [hfree, take_succ_cons, take_zero] at htook
  refine ⟨new, s', hrun, ⟨htook.owned, fun h0 => ?_, fun _ => ⟨?_, ?_, fun idx hidx => ?_⟩⟩, htook,
    hrecord, apartFrom_recordLastState htook.apart htables⟩
  · rw [h0, cdiv_zero m.blockSize_pos] at hlt
    exact absurd hlt (Nat.not_lt_zero _)
  · rw [htables]
    exact mem_cons_self
  · rw [table, htook.blocks, length_append, length_singleton, numRequiredBlocks]
    omega
  · cases hrecord.symm.trans hidx
    omega

/-- The list of a request that was given no blocks yet, but may have hits: null blocks up to the
running state, then a block for it and those for draft tokens. -/
theorem allocate_first (hs : Owned s.1) (hnot : id ∉ s.2.allocatedBlockReqs)
    (hnone : s.2.lastStateBlockIdx.get? id = none)
    (hlt : (table g id s).length < cdiv n m.blockSize)
    (hfree : m.numSpeculativeBlocks + 1 ≤ s.1.1.free.length) :
    ∃ new s', m.allocateNewBlocks g id n s = (.ok new, s') ∧ Tracks m g id n s' ∧
      Took g id s.1 s'.1 (table g id s ++
        List.replicate (cdiv n m.blockSize - 1 - (table g id s).length) 0 ++
        s.1.1.free.take (m.numSpeculativeBlocks + 1)) (m.numSpeculativeBlocks + 1) ∧
      s'.2.lastStateBlockIdx.get? id =
        (if table g id s = [] then none else some ((table g id s).length - 1)) ∧
      ApartFrom g id s s' := by
  have hstretch := length_stretched (m := m) (n := cdiv n m.blockSize - 1) (l := table g id s) false
  simp only [Bool.false_eq_true, if_false] at hstretch
  obtain ⟨new, s', hrun, htook, htables⟩ := allocateNewBlocks_grows (m := m) (g := g) (n := n)
    (x := m.numSpeculativeBlocks + 1) hs (decide_eq_false hnot).symm (by simp)
    (by rw [numRequiredBlocks]; omega) (by rw [hstretch, numRequiredBlocks]; omega) (by simp) hfree
  have hrecord : s'.2.lastStateBlockIdx.get? id =
      if table g id s = [] then none else some ((table g id s).length - 1) := by
    rw [htables]
    simp only [recordLastState, Bool.false_eq_true, if_false]
    by_cases hnil : table g id s = []
    · rw [if_pos hnil, if_neg (by simp [hnil])]
      exact hnone
    · rw [if_neg hnil, if_pos (length_pos_iff.mpr hnil)]
      exact Dict.get?_set_self ..
  refine ⟨new, s', hrun, ⟨htook.owned, fun h0 => ?_, fun _ => ⟨?_, ?_, fun idx hidx => ?_⟩⟩, htook,
    hrecord, apartFrom_recordLastState htook.apart htables⟩
  · rw [h0, cdiv_zero m.blockSize_pos] at hlt
    exact absurd hlt (Nat.not_lt_zero _)
  · rw [htables]
    exact mem_cons_self
  · rw [table, htook.blocks, length_append, hstretch, length_take, numRequiredBlocks]
    omega
  · rw [hrecord] at hidx
    split at hidx
    · cases hidx
    · next hne =>
      cases hidx
      have := length_pos_iff.mpr hne
      omega

def announce (m : MambaAlign) (g : Nat) (id : String) (numComputedTokens : Nat) (hits : List Nat)
    (numTokens : Nat) : AlignCall D Int := do
  m.removeSkippedBlocks g id numComputedTokens
  m.getNumBlocksToAllocate g id numTokens hits

inductive HeldOutcome (m : MambaAlign) (g : Nat) (id : String) (tokens n : Nat)
    (s : AlignState D) : Option (List Nat) → AlignState D → Prop where
  | refused : HeldOutcome m g id tokens n s none s
  | same (hq : cdiv n m.blockSize = cdiv tokens m.blockSize) :
    HeldOutcome m g id tokens n s (some []) ((enter g id).next s.1, s.2)
  | longer {new : List Nat} {b : Nat} {s' : AlignState D}
    (hq : cdiv tokens m.blockSize < cdiv n m.blockSize) (hb : b ∈ s.1.1.free)
    (tracks : Tracks m g id n s')
    (took : Took g id s.1 s'.1
      (m.stretched (cdiv n m.blockSize - 1) true (table g id s) ++ [b]) 1)
    (last : s'.2.lastStateBlockIdx.get? id = some (cdiv tokens m.blockSize - 1))
    (apart : ApartFrom g id s s') :
    HeldOutcome m g id tokens n s (some new) s'

theorem Tracks.numAnnounced_held (h : Tracks m g id tokens s) (hpos : 0 < tokens) (n : Nat) :
    m.numAnnounced (decide (id ∈ s.2.allocatedBlockReqs)) 0 (table g id s).length n =
      if cdiv tokens m.blockSize < cdiv n m.blockSize then 1
      else (cdiv n m.blockSize : Int) - cdiv tokens m.blockSize := by
  obtain ⟨hin, hlen, -⟩ := h.held hpos
  rw [decide_eq_true hin, hlen]
  simp only [numAnnounced, numRequiredBlocks, if_true]
  split <;> split <;> omega

theorem allocateSlots_of_announce (h : m.announce g id c hits n s = (.ok k, s₁)) (caching : Bool) :
    m.allocateSlots g id caching c hits n s =
      (if k > s₁.1.1.getNumFreeBlocks then return none
        else do
          if hits ≠ [] then
            (allocateNewComputedBlocks m.spec g id caching hits c 0).lift
          let newBlocks ← m.allocateNewBlocks g id n
          return some newBlocks : AlignCall D (Option (List Nat))) s₁ := by
  unfold allocateSlots
  rw [← bind_assoc]
  exact bind_of_ok h

theorem allocateSlots_no_hits (h : m.announce g id c [] n s = (.ok k, s₁)) (caching : Bool) :
    m.allocateSlots g id caching c [] n s =
      (if k > s₁.1.1.getNumFreeBlocks then return none
        else do
          let newBlocks ← m.allocateNewBlocks g id n
          return some newBlocks : AlignCall D (Option (List Nat))) s₁ :=
  allocateSlots_of_announce h caching

theorem announce_no_hits (hrun : m.removeSkippedBlocks g id c s = (.ok (), s₁)) (n : Nat) :
    m.announce g id c [] n s =
      (.ok (m.numAnnounced (decide (id ∈ s₁.2.allocatedBlockReqs)) 0 (table g id s₁).length n),
        ((enter g id).next s₁.1, s₁.2)) := by
  have hmiss : hitThisStep g s₁.1 ([] : List Nat) = false := rfl
  unfold announce
  rw [bind_of_ok hrun, getNumBlocksToAllocate_run id hmiss n]
  simp [getNumEvictableBlocks]

section
variable (h : Tracks m g id tokens s) (hpos : 0 < tokens) (caching : Bool) (c : Nat)
include h hpos

theorem Tracks.allocateSlots_held (hle : cdiv tokens m.blockSize ≤ cdiv n m.blockSize) :
    ∃ s₁ res s',
      m.announce g id c [] n s =
        (.ok (if cdiv tokens m.blockSize < cdiv n m.blockSize then 1 else 0), s₁) ∧
      Released g id (cdiv (c - m.numSpeculativeBlocks) m.blockSize - 1) s s₁ ∧
      (∀ idx, s.2.lastStateBlockIdx.get? id = some idx →
        idx + 1 < cdiv (c - m.numSpeculativeBlocks) m.blockSize →
        (table g id s₁)[idx]? = some 0) ∧
      m.allocateSlots g id caching c [] n s = (.ok res, s') ∧
      HeldOutcome m g id tokens n s₁ res s' := by
  obtain ⟨s₁, hrun, hrel, hgone⟩ := removeSkippedBlocks_returns (m := m) h.owned
    (fun idx hidx => h.idx_lt hidx) c
  have hrel₂ := hrel.trans (released_enter hrel.owned g id _)
  have hannounce := announce_no_hits hrun n
  rw [(h.released hrel).numAnnounced_held hpos n] at hannounce
  set s₂ : AlignState D := ((enter g id).next s₁.1, s₁.2) with hs₂
  have h₂ : Tracks m g id tokens s₂ := h.released hrel₂
  have hgone₂ : ∀ idx, s.2.lastStateBlockIdx.get? id = some idx →
      idx + 1 < cdiv (c - m.numSpeculativeBlocks) m.blockSize → (table g id s₂)[idx]? = some 0 :=
    fun idx hidx hlt => (congrArg (·[idx]?) (blocks_enter g id s₁.1)).trans (hgone idx hidx hlt)
  have hcount := h₂.owned.inv.count
  rcases Nat.lt_or_eq_of_le hle with hlt | heq
  · rw [if_pos hlt] at hannounce ⊢
    have hcall := allocateSlots_no_hits hannounce caching
    by_cases hfree : (1 : Int) > s₂.1.1.getNumFreeBlocks
    · exact ⟨s₂, none, s₂, hannounce, hrel₂, hgone₂, hcall.trans (congrFun (if_pos hfree) _),
        .refused⟩
    · have hlen : 0 < s₂.1.1.free.length := by omega
      obtain ⟨b, free, hqueue⟩ := exists_cons_of_length_pos hlen
      obtain ⟨new, s', halloc, htracks, htook, hlast, hapart⟩ :=
        h₂.allocate_longer hpos hlt hqueue
      exact ⟨s₂, some new, s', hannounce, hrel₂, hgone₂,
        (hcall.trans (congrFun (if_neg hfree) _)).trans (bind_of_ok halloc),
        .longer hlt (hqueue ▸ mem_cons_self) htracks htook hlast hapart⟩
  · have hnot : ¬ cdiv tokens m.blockSize < cdiv n m.blockSize := Nat.not_lt.mpr heq.ge
    rw [if_neg hnot, heq, Int.sub_self] at hannounce
    rw [if_neg hnot]
    have hcall := allocateSlots_no_hits hannounce caching
    have hfree : ¬ (0 : Int) > s₂.1.1.getNumFreeBlocks := by omega
    have hsame : m.numRequiredBlocks n = (table g id s₂).length := by
      rw [(h₂.held hpos).2.1, numRequiredBlocks, numRequiredBlocks, heq]
    exact ⟨s₂, some [], _, hannounce, hrel₂, hgone₂, (hcall.trans (congrFun (if_neg hfree) _)).trans
        (bind_of_ok (allocateNewBlocks_same hsame)), .same heq.symm⟩

theorem Tracks.allocateSlots_shorter (hlt : cdiv n m.blockSize < cdiv tokens m.blockSize) :
    ∃ message s', m.allocateSlots g id caching c [] n s =
      (.error (.assertionError message), s') := by
  obtain ⟨s₁, hrun, hrel, -⟩ := removeSkippedBlocks_returns (m := m) h.owned
    (fun idx hidx => h.idx_lt hidx) c
  have h₁ := h.released hrel
  have h₂ := h₁.released (released_enter h₁.owned g id 0)
  have hannounce := announce_no_hits hrun n
  rw [h₁.numAnnounced_held hpos n, if_neg (Nat.not_lt.mpr hlt.le)] at hannounce
  have hcall := allocateSlots_no_hits hannounce caching
  have hcount : ((enter g id).next s₁.1).1.getNumFreeBlocks =
    ((enter g id).next s₁.1).1.free.length := h₂.owned.inv.count
  have hfree : ¬ ((cdiv n m.blockSize : Int) - cdiv tokens m.blockSize >
      ((enter g id).next s₁.1).1.getNumFreeBlocks) := by omega
  have hshort : m.numRequiredBlocks n <
      (table g id (((enter g id).next s₁.1, s₁.2) : AlignState D)).length := by
    rw [(h₂.held hpos).2.1, numRequiredBlocks, numRequiredBlocks]
    omega
  exact ⟨_, _, (hcall.trans (congrFun (if_neg hfree) _)).trans
    (bind_of_error (allocateNewBlocks_shorter hshort))⟩

end

/-- What the lookup of `MambaManager` returns: a cached state behind null blocks, or nothing. -/
def MambaHit (p : BlockPool (BlockKey D)) (caching : Bool) (hits : List Nat) : Prop :=
  hits = [] ∨ ∃ i b, hits = List.replicate i 0 ++ [b] ∧ b ≠ 0 ∧ p.hash b ≠ none ∧ caching = true

inductive FirstOutcome (m : MambaAlign) (g : Nat) (id : String) (hits : List Nat) (n : Nat) (k : Int)
    (s : AlignState D) : Option (List Nat) → AlignState D → Prop where
  | refused : FirstOutcome m g id hits n k s none s
  | placed {new fresh : List Nat} {s' : AlignState D} (tracks : Tracks m g id n s')
    (length : fresh.length = m.numSpeculativeBlocks + 1) (nonnull : ∀ b ∈ fresh, b ≠ 0)
    (blocks : table g id s' =
      hits ++ List.replicate (cdiv n m.blockSize - 1 - hits.length) 0 ++ fresh)
    (taken : s.1.1.getNumFreeBlocks ≤ s'.1.1.getNumFreeBlocks + k)
    (last : s'.2.lastStateBlockIdx.get? id = if hits = [] then none else some (hits.length - 1))
    (apart : ApartFrom g id s s') :
    FirstOutcome m g id hits n k s (some new) s'

theorem numAnnounced_first {h : Nat} (hlt : h < cdiv n m.blockSize) :
    m.numAnnounced false h 0 n = 1 + m.numSpeculativeBlocks := by
  simp only [numAnnounced, numRequiredBlocks, Bool.false_eq_true, if_false]
  rw [if_pos (by omega)]

theorem placeHit_returns (hs : Owned s.1) (hempty : table g id s = [])
    (hnew : s.1.2.numCachedBlock.contains (g, id) = false) {i b : Nat} (h0 : b ≠ 0)
    (hhash : s.1.1.hash b ≠ none) (hfree : getNumEvictableBlocks s.1.1 [b] ≤ s.1.1.free.length) :
    ∃ s', allocateNewComputedBlocks m.spec g id true (List.replicate i 0 ++ [b])
        ((i + 1) * m.blockSize) 0 s.1 = (.ok (), s') ∧
      Took g id s.1 s' (List.replicate i 0 ++ [b]) (getNumEvictableBlocks s.1.1 [b]) := by
  set hits := List.replicate i 0 ++ [b] with hhits
  have hskip : m.spec.numSkippedBlocks ((i + 1) * m.blockSize + 0) = i := by
    rw [Nat.add_zero, numSkippedBlocks_mamba, div_pred_eq, cdiv]
    rw [show (i + 1) * m.blockSize + m.blockSize - 1 = m.blockSize - 1 + (i + 1) * m.blockSize by
      have := m.blockSize_pos; omega, Nat.add_mul_div_right _ _ m.blockSize_pos,
      Nat.div_eq_of_lt (by have := m.blockSize_pos; omega)]
    omega
  have hkept : keptHits m.spec hits ((i + 1) * m.blockSize + 0) = [b] := by
    rw [keptHits, hskip, drop_left' (length_replicate ..)]
  have honly : ∀ c ∈ hits, c ≠ 0 → c = b := by
    intro c hc hc0
    rcases mem_append.mp hc with hnull | hlast
    · exact absurd (eq_of_mem_replicate hnull) hc0
    · exact mem_singleton.mp hlast
  have hcached : HitsCached s.1.1 true hits := by
    refine ⟨fun c hc hc0 => ?_, fun c hc hc0 => honly c hc hc0 ▸ hhash, .inl rfl⟩
    rw [honly c hc hc0, hhits, count_append, count_replicate, count_singleton_self,
      if_neg (by simpa using Ne.symm h0)]
  have hfit : HitsFit m.spec hits ((i + 1) * m.blockSize + 0) 0 := hitsFit_of_le _ (by
    rw [length_append, length_replicate]
    exact Nat.le_refl _)
  obtain ⟨new, s', hrun, hlen, htook⟩ := allocateNewComputedBlocks_returns hs hempty hnew hcached
    hfit (by rw [hkept, numExternalBlocks_zero]; omega)
  rw [numExternalBlocks_zero] at hlen
  rw [hkept, hskip, length_eq_zero_iff.mp hlen, append_nil] at htook
  exact ⟨s', hrun, htook⟩

theorem firstOutcome_of_placed (s₁ : AlignState D) {e : Nat} (htook : Took g id s₁.1 s.1 hits e)
    (htables : s.2 = s₁.2) (hnot : id ∉ s₁.2.allocatedBlockReqs)
    (hnone : s₁.2.lastStateBlockIdx.get? id = none) (hlt : hits.length < cdiv n m.blockSize)
    (he : e ≤ getNumEvictableBlocks s₁.1.1 hits)
    (hk : k = m.numAnnounced false hits.length 0 n + getNumEvictableBlocks s₁.1.1 hits)
    (hfree : k ≤ s₁.1.1.getNumFreeBlocks) :
    ∃ new s', m.allocateNewBlocks g id n s = (.ok new, s') ∧
      FirstOutcome m g id hits n k s₁ (some new) s' := by
  have hannounced := numAnnounced_first hlt
  have hcount := htook.owned.inv.count
  have hnum := htook.free
  have htable : table g id s = hits := htook.blocks
  obtain ⟨new, s', hrun, htracks, htook', hlast, hapart⟩ := allocate_first (m := m) htook.owned
    (htables ▸ hnot) (htables ▸ hnone) (htable ▸ hlt) (by omega)
  have hnum' := htook'.free
  rw [htable] at htook' hlast
  refine ⟨new, s', hrun, .placed htracks ?_ ?_ htook'.blocks ?_ hlast
    ((apartFrom_of_tables htook.apart htables).trans hapart)⟩
  · rw [length_take]
    omega
  · exact fun b hb => (htook.owned.inv.free_spec b (mem_of_mem_take hb)).2.2
  · omega

theorem Tracks.allocateSlots_first (h : Tracks m g id 0 s) {caching : Bool}
    (hhit : MambaHit s.1.1 caching hits) (hn : hits.length * m.blockSize < n) :
    ∃ k s₁ res s',
      m.announce g id (hits.length * m.blockSize) hits n s = (.ok k, s₁) ∧
      Released g id 0 s s₁ ∧
      m.allocateSlots g id caching (hits.length * m.blockSize) hits n s = (.ok res, s') ∧
      FirstOutcome m g id hits n k s₁ res s' := by
  have hlt : hits.length < cdiv n m.blockSize := by
    have := le_cdiv_mul n m.blockSize_pos
    exact Nat.lt_of_mul_lt_mul_right (hn.trans_le this)
  obtain ⟨hempty, hnot, hnone, hnew⟩ := h.fresh rfl
  obtain ⟨s₁, hrun, hrel, -⟩ := removeSkippedBlocks_returns (m := m) h.owned
    (fun idx hidx => h.idx_lt hidx) (hits.length * m.blockSize)
  have hrel₁ : Released g id 0 s s₁ := hrel.of_empty hempty
  obtain ⟨hempty₁, hnot₁, hnone₁, hnew₁⟩ := (h.released hrel₁).fresh rfl
  have hcount := hrel₁.owned.inv.count
  rcases hhs : hitThisStep g s₁.1 hits with _ | _
  · -- the state is not one that another request computes in this step
    set s₂ : AlignState D := ((enter g id).next s₁.1, s₁.2) with hs₂
    have hrel₂ : Released g id 0 s s₂ := hrel₁.trans (released_enter hrel₁.owned g id 0)
    have hget := getNumBlocksToAllocate_run (m := m) id hhs n
    rw [hempty₁, decide_eq_false hnot₁] at hget
    obtain ⟨k, hk⟩ : ∃ k, k = m.numAnnounced false hits.length 0 n +
        getNumEvictableBlocks s₂.1.1 hits := ⟨_, rfl⟩
    have hannounce : m.announce g id (hits.length * m.blockSize) hits n s = (.ok k, s₂) :=
      (bind_of_ok hrun).trans (hk ▸ hget)
    have hcall := allocateSlots_of_announce hannounce caching
    by_cases hfree : k > s₂.1.1.getNumFreeBlocks
    · exact ⟨k, s₂, none, s₂, hannounce, hrel₂, hcall.trans (congrFun (if_pos hfree) _), .refused⟩
    · replace hcall := hcall.trans (congrFun (if_neg hfree) _)
      have hempty₂ : table g id s₂ = [] := (blocks_enter g id s₁.1).trans hempty₁
      rcases hhit with rfl | ⟨i, b, rfl, h0, hhash, rfl⟩
      · obtain ⟨new, s', halloc, hout⟩ := firstOutcome_of_placed (m := m) s₂
          ⟨hrel₂.owned, hempty₂, Int.add_zero _, rfl, Apart.refl g id _⟩ rfl hnot₁ hnone₁ hlt
          (Nat.zero_le _) hk (Int.not_lt.mp hfree)
        exact ⟨k, s₂, some new, s', hannounce, hrel₂, hcall.trans (bind_of_ok halloc), hout⟩
      · have hevict : getNumEvictableBlocks s₂.1.1 [b] ≤
            getNumEvictableBlocks s₂.1.1 (List.replicate i 0 ++ [b]) :=
          (sublist_append_right _ _).countP_le
        have hcount₂ := hrel₂.owned.inv.count
        obtain ⟨s₃, hplace, htook⟩ := placeHit_returns (m := m) (i := i) hrel₂.owned hempty₂
          hnew₁ h0 (hrel₂.hash b ▸ hhash) (by
            have := numAnnounced_first hlt
            omega)
        obtain ⟨new, s', halloc, hout⟩ := firstOutcome_of_placed (m := m) (s := (s₃, s₂.2))
          s₂ htook rfl hnot₁ hnone₁ hlt hevict hk (Int.not_lt.mp hfree)
        have hlen : (List.replicate i 0 ++ [b]).length = i + 1 := by simp
        refine ⟨k, s₂, some new, s', hannounce, hrel₂, hcall.trans ?_, hout⟩
        rw [if_pos (by simp), hlen]
        refine (bind_of_ok (lift_run hplace s₂.2)).trans ?_
        exact bind_of_ok halloc
  · have hget : m.getNumBlocksToAllocate g id n hits s₁ = (.ok (s₁.1.1.numGpuBlocks + 1), s₁) := by
      unfold getNumBlocksToAllocate
      exact congrFun (if_pos hhs) s₁
    have hannounce : m.announce g id (hits.length * m.blockSize) hits n s =
        (.ok (s₁.1.1.numGpuBlocks + 1), s₁) := (bind_of_ok hrun).trans hget
    have hmany : (s₁.1.1.numGpuBlocks : Int) + 1 > s₁.1.1.getNumFreeBlocks := by
      have := hrel₁.owned.inv.length_free_le
      omega
    exact ⟨_, s₁, none, s₁, hannounce, hrel₁,
      (allocateSlots_of_announce hannounce caching).trans (congrFun (if_pos hmany) _), .refused⟩

end
end MambaAlign
end Vllm
