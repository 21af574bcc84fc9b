import Vllm.Core.MambaAlign

/-! What the calls of `MambaManager` in `align` mode return and leave behind. -/

namespace Vllm
open Base BlockPool Call List KVMove
variable {D : Type} [DecidableEq D]

/-! ## Lists -/

theorem getElem?_nulled {l : List Nat} {lo hi : Nat} (hlo : lo ≤ hi) (hhi : hi ≤ l.length)
    (i : Nat) : (nulled l lo hi)[i]? = if lo ≤ i ∧ i < hi then some 0 else l[i]? := by
  have htake : (l.take lo).length = lo := by rw [length_take]; omega
  unfold nulled
  rw [append_assoc, getElem?_append, htake]
  by_cases h₁ : i < lo
  · rw [if_pos h₁, getElem?_take_of_lt h₁, if_neg (by omega)]
  · rw [if_neg h₁, getElem?_append, length_replicate]
    by_cases h₂ : i < hi
    · rw [if_pos (by omega), getElem?_replicate, if_pos (by omega), if_pos (by omega)]
    · rw [if_neg (by omega), getElem?_drop, if_neg (by omega)]
      congr 1
      omega

theorem count_set_zero {l : List Nat} {i b : Nat} (hi : l[i]? = some b) {c : Nat} (hc : c ≠ 0) :
    (l.set i 0).count c + [b].count c = l.count c := by
  obtain ⟨hlt, rfl⟩ := List.getElem?_eq_some_iff.mp hi
  have hpos : l[i] = c → 0 < l.count c := fun h => count_pos_iff.mpr (h ▸ getElem_mem hlt)
  rw [count_set hlt]
  by_cases h : l[i] = c
  · have := hpos h
    simp [h, Ne.symm hc]
    omega
  · simp [h, Ne.symm hc]

theorem mem_set_zero {l : List Nat} {i b : Nat} (h : b ∈ l.set i 0) : b = 0 ∨ b ∈ l :=
  (mem_or_eq_of_mem_set h).symm

namespace MambaAlign

section
variable {n : Nat}

theorem count_move {l : List Nat} {i c : Nat} (hi : i < l.length) (hc : c ≠ 0) :
    ((l ++ [l.getD i 0]).set i 0).count c = l.count c := by
  have hget : l[i]? = some (l.getD i 0) := by
    rw [getD_eq_getElem?_getD, getElem?_eq_getElem hi]
    rfl
  have hset : (l ++ [l.getD i 0])[i]? = some (l.getD i 0) := by
    rw [getElem?_append_left hi, hget]
  have := count_set_zero hset hc
  rw [count_append] at this
  omega

theorem reuseSpeculative_spec {is l : List Nat} (his : ∀ i ∈ is, i < l.length) :
    (∀ c, c ≠ 0 → (reuseSpeculative n is l).count c = l.count c) ∧
      ∀ c ∈ reuseSpeculative n is l, c = 0 ∨ c ∈ l := by
  induction is generalizing l with
  | nil => exact ⟨fun _ _ => rfl, fun _ => .inr⟩
  | cons i is ih =>
    unfold reuseSpeculative
    split
    · have hi := his i mem_cons_self
      obtain ⟨hcount, hmem⟩ := @ih ((l ++ [l.getD i 0]).set i 0) fun j hj => by
        have := his j (mem_cons_of_mem i hj)
        rw [length_set, length_append]
        omega
      refine ⟨fun c hc => (hcount c hc).trans (count_move hi hc), fun c hc => ?_⟩
      rcases hmem c hc with h0 | hin
      · exact .inl h0
      · rcases mem_set_zero hin with h0 | hin
        · exact .inl h0
        · rcases mem_append.mp hin with hl | hlast
          · exact .inr hl
          · rw [mem_singleton, getD_eq_getElem?_getD, getElem?_eq_getElem hi] at hlast
            exact .inr (hlast ▸ getElem_mem hi)
    · exact ⟨fun _ _ => rfl, fun _ => .inr⟩

theorem length_reuseSpeculative (p j : Nat) (l : List Nat) :
    (reuseSpeculative n (List.range' p j) l).length = l.length + min j (n - p) := by
  induction j generalizing p l with
  | zero => simp [reuseSpeculative]
  | succ j ih =>
    rw [range'_succ, reuseSpeculative]
    split
    · rw [ih, length_set, length_append, length_singleton]
      omega
    · omega

end

section
variable {m : MambaAlign} {n : Nat} {l : List Nat}

theorem stretched_spec {allocated : Bool}
    (hlen : allocated = true → m.numSpeculativeBlocks ≤ l.length) :
    (∀ c, c ≠ 0 → (m.stretched n allocated l).count c = l.count c) ∧
      ∀ c ∈ m.stretched n allocated l, c = 0 ∨ c ∈ l := by
  have hpad : ∀ c, c ≠ 0 → (l ++ List.replicate (n - l.length) 0).count c = l.count c := by
    intro c hc
    rw [count_append, count_replicate, if_neg (by simpa using Ne.symm hc), Nat.add_zero]
  have hmem : ∀ c ∈ l ++ List.replicate (n - l.length) 0, c = 0 ∨ c ∈ l := by
    intro c hc
    rcases mem_append.mp hc with hl | hnull
    · exact .inr hl
    · exact .inl (eq_of_mem_replicate hnull)
  unfold stretched
  cases allocated with
  | false => exact ⟨hpad, hmem⟩
  | true =>
    obtain ⟨hcount, hin⟩ := @reuseSpeculative_spec n
      (List.range' (l.length - m.numSpeculativeBlocks) m.numSpeculativeBlocks)
      (l ++ List.replicate (n - l.length) 0) fun i hi => by
        have := hlen rfl
        rw [mem_range'_1] at hi
        rw [length_append]
        omega
    exact ⟨fun c hc => (hcount c hc).trans (hpad c hc), fun c hc => (hin c hc).elim .inl (hmem c)⟩

theorem length_stretched (allocated : Bool) : (m.stretched n allocated l).length =
    max l.length n + if allocated then
      min m.numSpeculativeBlocks (n - (l.length - m.numSpeculativeBlocks)) else 0 := by
  unfold stretched
  cases allocated with
  | false =>
    simp only [length_append, length_replicate, Bool.false_eq_true, if_false]
    omega
  | true =>
    simp only [if_true, length_reuseSpeculative, length_append, length_replicate]
    omega

end

/-! ## Skipped blocks -/

abbrev table (g : Nat) (id : String) (s : AlignState D) : List Nat := s.1.2.blocks g id

structure Released (g : Nat) (id : String) (hi : Nat) (s s' : AlignState D) : Prop where
  owned : Owned s'.1
  tables : s'.2 = s.2
  length : (table g id s').length = (table g id s).length
  cached : s'.1.2.numCachedBlock = s.1.2.numCachedBlock
  hash : ∀ b, s'.1.1.hash b = s.1.1.hash b
  entry : ∀ i b : Nat, (table g id s')[i]? = some b → b ≠ 0 → (table g id s)[i]? = some b
  kept : ∀ i : Nat, hi ≤ i → (table g id s')[i]? = (table g id s)[i]?
  apart : Apart g id s.1.2 s'.1.2

theorem Released.trans {g : Nat} {id : String} {hi : Nat} {s s' s'' : AlignState D}
    (h : Released g id hi s s') (h' : Released g id hi s' s'') : Released g id hi s s'' where
  owned := h'.owned
  tables := h'.tables.trans h.tables
  length := h'.length.trans h.length
  cached := h'.cached.trans h.cached
  hash b := (h'.hash b).trans (h.hash b)
  entry i b hb h0 := h.entry i b (h'.entry i b hb h0) h0
  kept i hhi := (h'.kept i hhi).trans (h.kept i hhi)
  apart := h.apart.trans h'.apart

section
variable {m : MambaAlign} {g : Nat} {id : String} {s : AlignState D}

theorem released_refl (hs : Owned s.1) (hi : Nat) : Released g id hi s s :=
  ⟨hs, rfl, rfl, rfl, fun _ => rfl, fun _ _ h _ => h, fun _ _ => rfl, Apart.refl g id _⟩

theorem released_enter (hs : Owned s.1) (g : Nat) (id : String) (hi : Nat) :
    Released g id hi s ((enter g id).next s.1, s.2) where
  owned := hs.enter g id
  tables := rfl
  length := congrArg List.length (blocks_enter g id s.1)
  cached := rfl
  hash _ := rfl
  entry i _ hb _ := (congrArg (·[i]?) (blocks_enter g id s.1)).symm.trans hb
  kept i _ := congrArg (·[i]?) (blocks_enter g id s.1)
  apart := apart_setBlocks g id s.1.2 _

theorem numSkippedBlocks_mamba (n : Nat) : m.spec.numSkippedBlocks n = (n - 1) / m.blockSize := rfl

theorem div_pred_eq (n : Nat) : (n - 1) / m.blockSize = cdiv n m.blockSize - 1 := by
  have hb := m.blockSize_pos
  unfold cdiv
  cases n with
  | zero =>
    rw [Nat.zero_div, Nat.div_eq_of_lt (by omega)]
  | succ n =>
    rw [Nat.add_sub_cancel, show n + 1 + m.blockSize - 1 = n + m.blockSize by omega,
      Nat.add_div_right n hb, Nat.succ_sub_one]

theorem released_trimmed (hs : Owned s.1) (g : Nat) (id : String) (numComputedTokens : Nat) :
    Released g id (cdiv (numComputedTokens - m.numSpeculativeBlocks) m.blockSize - 1) s
      (trimmed m.spec g id numComputedTokens s.1, s.2) := by
  rcases trimmed_cases m.spec g id numComputedTokens s.1 with h | ⟨lo, hi, hle, hlen, hskip, h⟩
  · rw [h]
    exact released_refl hs _
  · have hblocks : (trimmed m.spec g id numComputedTokens s.1).2.blocks g id =
        nulled (table g id s) lo hi := by
      rw [h]
      exact (blocks_setBlocks_self ..).trans (congrArg (nulled · lo hi) (blocks_enter g id s.1))
    refine ⟨hs.trimmed _, rfl, length_blocks_trimmed _, numCachedBlock_trimmed _,
      hash_trimmed _, fun i b hb h0 => ?_, fun i hi' => ?_, ?_⟩
    · simp only [table, hblocks, getElem?_nulled hle hlen] at hb
      split at hb
      · cases hb
        exact absurd rfl h0
      · exact hb
    · have hspec : m.spec.numSpeculativeBlocks = m.numSpeculativeBlocks := rfl
      rw [numSkippedBlocks_mamba, div_pred_eq, hspec] at hskip
      simp only [table, hblocks, getElem?_nulled hle hlen]
      exact if_neg (by omega)
    · rw [h]
      exact (apart_setBlocks g id s.1.2 _).trans (apart_setBlocks g id _ _)

theorem released_set (hs : Owned s.1) {idx b hi : Nat} (hget : (table g id s)[idx]? = some b)
    (hlt : idx < hi) : Released g id hi s ((s.1.1.freed [b],
      ((enter g id).next s.1).2.setBlocks g id ((table g id s).set idx 0)), s.2) := by
  have hblocks := blocks_enter g id s.1
  refine ⟨?_, rfl, ?_, rfl, hash_freed s.1.1 [b], fun i c hc h0 => ?_, fun i hi' => ?_,
    (apart_setBlocks g id s.1.2 _).trans (apart_setBlocks g id _ _)⟩
  · refine (hs.enter g id).give (replaced_setBlocks _ g id _) (fun c hc => ?_) fun c hc => ?_
    · exact (count_set_zero hget hc).trans (congrArg (List.count c) hblocks.symm)
    · exact (mem_set_zero hc).imp_right fun hin => (congrArg (c ∈ ·) hblocks).mpr hin
  · rw [table, blocks_setBlocks_self, length_set]
  · rw [table, blocks_setBlocks_self, getElem?_set] at hc
    split at hc
    · split at hc
      · cases hc
        exact absurd rfl h0
      · cases hc
    · exact hc
  · rw [table, blocks_setBlocks_self, getElem?_set_ne (by omega)]

section
variable (hs : Owned s.1)
    (hidx : ∀ idx, s.2.lastStateBlockIdx.get? id = some idx → idx < (table g id s).length)
include hs hidx

theorem freeLastState_returns (n : Nat) : ∃ s', m.freeLastState g id n s = (.ok (), s') ∧
      Released g id (cdiv n m.blockSize - 1) s s' ∧
      ∀ idx, s.2.lastStateBlockIdx.get? id = some idx → idx + 1 < cdiv n m.blockSize →
        (table g id s')[idx]? = some 0 := by
  have hrefl : Released g id (cdiv n m.blockSize - 1) s s := released_refl hs _
  unfold freeLastState
  rw [get_bind]
  rcases hlast : s.2.lastStateBlockIdx.get? id with _ | idx
  · exact ⟨s, rfl, hrefl, fun idx h => nomatch h⟩
  simp only
  by_cases hlt : idx + 1 < cdiv n m.blockSize
  · obtain ⟨b, hget⟩ : ∃ b, (table g id s)[idx]? = some b :=
      ⟨_, getElem?_eq_getElem (hidx idx hlast)⟩
    have henter := released_enter hs g id (cdiv n m.blockSize - 1)
    rw [if_pos hlt, bind_of_ok (lift_run (tableOf_run g id s.1) s.2), hget]
    simp only
    by_cases h0 : b = 0
    · refine ⟨_, congrFun (if_pos h0) _, henter, fun i hi _ => ?_⟩
      cases hi
      exact (congrArg (·[idx]?) (blocks_enter g id s.1)).trans (h0 ▸ hget)
    · have hfree : BlockPool.freeBlocks Hooks.none [b] ((enter g id).next s.1) =
          (.ok (), (s.1.1.freed [b], ((enter g id).next s.1).2)) := freeBlocks_none ..
      rw [if_neg h0, bind_of_ok (lift_run hfree s.2)]
      refine ⟨_, rfl, released_set hs hget (by omega), fun i hi _ => ?_⟩
      cases hi
      refine (congrArg (·[idx]?) (blocks_setBlocks_self ..)).trans ?_
      exact getElem?_set_self (hidx idx hlast)
  · exact ⟨s, congrFun (if_neg hlt) s, hrefl, fun i hi hlt' => by cases hi; exact absurd hlt' hlt⟩

theorem removeSkippedBlocks_returns
    (numComputedTokens : Nat) : ∃ s', m.removeSkippedBlocks g id numComputedTokens s = (.ok (), s') ∧
      Released g id (cdiv (numComputedTokens - m.numSpeculativeBlocks) m.blockSize - 1) s s' ∧
      ∀ idx, s.2.lastStateBlockIdx.get? id = some idx →
        idx + 1 < cdiv (numComputedTokens - m.numSpeculativeBlocks) m.blockSize →
        (table g id s')[idx]? = some 0 := by
  have htrim := released_trimmed (m := m) hs g id numComputedTokens
  obtain ⟨s', hrun, hrel, hgone⟩ := freeLastState_returns (m := m) htrim.owned
    (fun idx h => htrim.length ▸ hidx idx h) (numComputedTokens - m.numSpeculativeBlocks)
  refine ⟨s', ?_, htrim.trans hrel, hgone⟩
  unfold removeSkippedBlocks
  rw [bind_of_ok (lift_run (removeSkippedBlocks_run ..) s.2)]
  exact hrun

end

end

/-! ## New blocks -/

def numAnnounced (m : MambaAlign) (allocated : Bool) (numHits len numTokens : Nat) : Int :=
  if ((m.numRequiredBlocks numTokens : Int) - numHits - len) > 0 then
    if allocated then 1 else 1 + m.numSpeculativeBlocks
  else m.numRequiredBlocks numTokens - numHits - len

section
variable {m : MambaAlign} {g : Nat} {id : String} {s : AlignState D}

theorem getNumBlocksToAllocate_run (id : String) {hits : List Nat} (hmiss : hitThisStep g s.1 hits = false)
    (n : Nat) : m.getNumBlocksToAllocate g id n hits s =
      (.ok (m.numAnnounced (decide (id ∈ s.2.allocatedBlockReqs)) hits.length
        (table g id s).length n + getNumEvictableBlocks s.1.1 hits),
        ((enter g id).next s.1, s.2)) := by
  unfold getNumBlocksToAllocate
  rw [get_bind]
  refine (congrFun (if_neg (by simp [hmiss])) s).trans ?_
  rw [bind_of_ok (lift_run (tableOf_run g id s.1) s.2)]
  simp only [numAnnounced, decide_eq_true_eq]
  rfl

theorem Owned.rearrange {s : KVState D} (hs : Owned s) {l : List Nat}
    (hcount : ∀ c, c ≠ 0 → l.count c = (s.2.blocks g id).count c)
    (hmem : ∀ c ∈ l, c = 0 ∨ c ∈ s.2.blocks g id) : Owned (s.1, s.2.setBlocks g id l) := by
  have hall : ∀ c, c ≠ 0 → l.count c + ([] : List Nat).count c = (s.2.blocks g id).count c :=
    fun c hc => (Nat.add_zero _).trans (hcount c hc)
  have hgive := hs.give (replaced_setBlocks s.2 g id l) hall hmem
  rwa [freed_nil] at hgive

theorem allocateNewBlocks_same {n : Nat} (h : m.numRequiredBlocks n = (table g id s).length) :
    m.allocateNewBlocks g id n s = (.ok [], ((enter g id).next s.1, s.2)) := by
  unfold allocateNewBlocks
  rw [bind_of_ok (lift_run (tableOf_run g id s.1) s.2)]
  exact congrFun (if_pos h) _

theorem allocateNewBlocks_shorter {n : Nat} (h : m.numRequiredBlocks n < (table g id s).length) :
    m.allocateNewBlocks g id n s = (.error (.assertionError (toString "num_required_blocks " ++
      toString (m.numRequiredBlocks n) ++ toString " < len(req_blocks) " ++
      toString (table g id s).length)), ((enter g id).next s.1, s.2)) := by
  unfold allocateNewBlocks
  rw [bind_of_ok (lift_run (tableOf_run g id s.1) s.2)]
  refine (congrFun (if_neg (Nat.ne_of_lt h)) _).trans ?_
  exact check_bind_error (decide_eq_false (Nat.not_lt.mpr h.le))

theorem allocatedBlockReqs_recordLastState {t : AlignTables} (id : String) (allocated : Bool)
    (len : Nat) : (m.recordLastState id allocated len t).allocatedBlockReqs =
      t.allocatedBlockReqs := by
  unfold recordLastState
  split
  · rfl
  · split <;> rfl

theorem allocateNewBlocks_grows (hs : Owned s.1) {n x : Nat} {allocated : Bool}
    (halloc : allocated = decide (id ∈ s.2.allocatedBlockReqs))
    (hk : allocated = true → m.numSpeculativeBlocks ≤ (table g id s).length)
    (hlen : (table g id s).length < m.numRequiredBlocks n)
    (hx : (m.stretched (cdiv n m.blockSize - 1) allocated (table g id s)).length + x =
      m.numRequiredBlocks n) (hbound : x ≤ if allocated then 1 else m.numSpeculativeBlocks + 1)
    (hfree : x ≤ s.1.1.free.length) :
    ∃ new s', m.allocateNewBlocks g id n s = (.ok new, s') ∧
      Took g id s.1 s'.1 (m.stretched (cdiv n m.blockSize - 1) allocated (table g id s) ++
        s.1.1.free.take x) x ∧
      s'.2 = { m.recordLastState id allocated (table g id s).length s.2 with
        allocatedBlockReqs := id :: s.2.allocatedBlockReqs } := by
  set l := table g id s with hl
  set blocks := m.stretched (cdiv n m.blockSize - 1) allocated l with hblocks
  obtain ⟨hcount, hmem⟩ : (∀ c, c ≠ 0 → blocks.count c = l.count c) ∧ ∀ c ∈ blocks, c = 0 ∨ c ∈ l :=
    stretched_spec hk
  have henter := blocks_enter g id s.1
  have hrearranged : Owned (s.1.1, ((enter g id).next s.1).2.setBlocks g id blocks) := by
    refine Owned.rearrange (hs.enter g id) (fun c hc => ?_) fun c hc => ?_
    · exact (hcount c hc).trans (congrArg (List.count c) henter.symm)
    · exact (hmem c hc).imp_right fun hin => (congrArg (c ∈ ·) henter).mpr hin
  have hget : getNewBlocksInt ((m.numRequiredBlocks n : Int) - blocks.length)
      (s.1.1, ((enter g id).next s.1).2.setBlocks g id blocks) =
      (.ok (s.1.1.free.take x),
        (s.1.1.handedOut x, ((enter g id).next s.1).2.setBlocks g id blocks)) := by
    rw [show (m.numRequiredBlocks n : Int) - blocks.length = (x : Int) by omega, getNewBlocksInt,
      if_pos (Int.natCast_nonneg x), Int.toNat_natCast]
    exact hs.inv.getNewBlocks_eq hfree _
  have hrequired : m.numRequiredBlocks n - m.numSpeculativeBlocks - 1 = cdiv n m.blockSize - 1 := by
    rw [numRequiredBlocks, Nat.add_sub_cancel]
  set t := ((enter g id).next s.1).2.setBlocks g id blocks with ht
  have hrun : m.allocateNewBlocks g id n s = (.ok ((blocks ++ s.1.1.free.take x).drop l.length),
      ((s.1.1.handedOut x, t.setBlocks g id (t.blocks g id ++ s.1.1.free.take x)),
        { m.recordLastState id allocated l.length s.2 with
          allocatedBlockReqs := id :: s.2.allocatedBlockReqs })) := by
    unfold allocateNewBlocks
    rw [bind_of_ok (lift_run (tableOf_run g id s.1) s.2)]
    refine (congrFun (if_neg (Nat.ne_of_gt hlen)) _).trans ?_
    rw [check_bind (decide_eq_true hlen), get_bind, modify_bind]
    simp only [← halloc, hrequired]
    have hset : (modifyTables fun t => t.setBlocks g id blocks : KVCall D Unit)
        ((enter g id).next s.1) = (.ok (), (s.1.1, t)) := rfl
    have hnew : (m.numRequiredBlocks n : Int) - blocks.length ≤
        ↑(if allocated = true then 1 else m.numSpeculativeBlocks + 1) := by omega
    rw [bind_of_ok (lift_run hset _)]
    refine (check_bind (decide_eq_true hnew)).trans ?_
    refine (bind_of_ok (lift_run hget _)).trans ?_
    rw [← allocatedBlockReqs_recordLastState (m := m) (t := s.2) id allocated l.length]
    rfl
  refine ⟨_, _, hrun, ⟨hrearranged.grow hfree, ?_, ?_, ?_, ?_⟩, rfl⟩
  · exact (blocks_setBlocks_self ..).trans
      (congrArg (· ++ s.1.1.free.take x) (blocks_setBlocks_self ..))
  · have hout := hs.inv.handedOut hfree
    have hnum : (s.1.1.handedOut x).getNumFreeBlocks = (s.1.1.free.drop x).length :=
      hout.inv.count.trans (congrArg (fun l : List Nat => (l.length : Int)) hout.free)
    rw [hnum, hs.inv.count, length_drop]
    omega
  · exact (hs.inv.handedOut hfree).enableCaching
  · exact ((apart_setBlocks g id s.1.2 _).trans (apart_setBlocks g id _ _)).trans
      (apart_setBlocks g id _ _)

structure ApartFrom (g : Nat) (id : String) (s s' : AlignState D) : Prop where
  lists : Apart g id s.1.2 s'.1.2
  last : ∀ id', id' ≠ id → s'.2.lastStateBlockIdx.get? id' = s.2.lastStateBlockIdx.get? id'
  allocated : ∀ id', id' ≠ id → (id' ∈ s'.2.allocatedBlockReqs ↔ id' ∈ s.2.allocatedBlockReqs)

omit [DecidableEq D] in
theorem ApartFrom.trans {s' s'' : AlignState D} (h : ApartFrom g id s s')
    (h' : ApartFrom g id s' s'') : ApartFrom g id s s'' where
  lists := h.lists.trans h'.lists
  last id' hne := (h'.last id' hne).trans (h.last id' hne)
  allocated id' hne := (h'.allocated id' hne).trans (h.allocated id' hne)

omit [DecidableEq D] in
theorem apartFrom_of_tables {s' : AlignState D} (h : Apart g id s.1.2 s'.1.2)
    (htables : s'.2 = s.2) : ApartFrom g id s s' :=
  ⟨h, fun _ _ => htables ▸ rfl, fun _ _ => htables ▸ Iff.rfl⟩

omit [DecidableEq D] in
theorem apartFrom_recordLastState {s' : AlignState D} {allocated : Bool} {len : Nat}
    (h : Apart g id s.1.2 s'.1.2) (htables : s'.2 = { m.recordLastState id allocated len s.2 with
      allocatedBlockReqs := id :: s.2.allocatedBlockReqs }) : ApartFrom g id s s' where
  lists := h
  last id' hne := by
    rw [htables]
    unfold recordLastState
    split
    · exact (Dict.get?_set ..).trans (if_neg hne)
    · split
      · exact (Dict.get?_set ..).trans (if_neg hne)
      · rfl
  allocated id' hne := by
    rw [htables]
    exact ⟨fun hin => (mem_cons.mp hin).resolve_left hne, mem_cons_of_mem id⟩

end

end MambaAlign
end Vllm
