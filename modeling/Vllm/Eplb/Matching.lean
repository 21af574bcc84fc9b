import Mathlib.Data.List.GetD
import Vllm.Eplb.Rebalance

/-! Every send has its receive. The maps of senders and receivers depend on the layout only, so that
all ranks split the receivers of an expert over its senders in the same way. -/

namespace Vllm.Eplb
open Base Dict List

/-! ## The split of the receivers over the senders -/

section
variable {S R : List Nat} {i j a b : Nat}

def owner (m q j : Nat) : Nat := if j < m * q then j / q else j - m * q

variable {m : Nat}

theorem owner_eq_iff {q : Nat} (hi : i < m) :
    owner m q j = i ↔ i * q ≤ j ∧ j < i * q + q ∨ j = m * q + i := by
  have hle : i * q + q ≤ m * q := by
    rw [← Nat.succ_mul]
    exact Nat.mul_le_mul_right q hi
  unfold owner
  split
  · next hj =>
    have hq : 0 < q := Nat.pos_of_ne_zero fun h => by
      rw [h] at hj
      omega
    rw [Nat.div_eq_iff hq]
    constructor
    · intro h
      exact .inl (by omega)
    · rintro (h | h)
      · omega
      · omega
  · omega

theorem owner_lt {n : Nat} (hm : 0 < m) (hj : j < n) : owner m (n / m) j < m := by
  have hdiv := Nat.div_add_mod n m
  have hmod := Nat.mod_lt n hm
  unfold owner
  split
  · next hlt => exact Nat.div_lt_of_lt_mul (by rwa [Nat.mul_comm] at hlt)
  · omega

theorem mem_recvRanks : b ∈ recvRanks S R i ↔ ∃ j, R[j]? = some b ∧
    (i * (R.length / S.length) ≤ j ∧ j < i * (R.length / S.length) + R.length / S.length ∨
      j = S.length * (R.length / S.length) + i) := by
  unfold recvRanks
  generalize R.length / S.length = q
  rw [mem_append, mem_iff_getElem?, Option.mem_toList]
  constructor
  · rintro (⟨k, hk⟩ | hk)
    · rw [getElem?_drop] at hk
      have hlt : i * q + k < i * q + q := by
        have hlen := (List.getElem?_eq_some_iff.mp hk).1
        rw [length_take] at hlen
        omega
      rw [getElem?_take_of_lt hlt] at hk
      exact ⟨_, hk, .inl ⟨Nat.le_add_right _ _, hlt⟩⟩
    · exact ⟨_, hk, .inr rfl⟩
  · rintro ⟨j, hj, ⟨hle, hlt⟩ | rfl⟩
    · refine .inl ⟨j - i * q, ?_⟩
      rw [getElem?_drop, Nat.add_sub_cancel' hle, getElem?_take_of_lt hlt]
      exact hj
    · exact .inr hj

theorem recvRanks_subset (hb : b ∈ recvRanks S R i) : b ∈ R := by
  obtain ⟨j, hj, -⟩ := mem_recvRanks.mp hb
  exact mem_of_getElem? hj

theorem nodup_recvRanks (hR : R.Nodup) (hi : i < S.length) : (recvRanks S R i).Nodup := by
  unfold recvRanks
  generalize R.length / S.length = q
  have hle : i * q + q ≤ S.length * q := by
    rw [← Nat.succ_mul]
    exact Nat.mul_le_mul_right q hi
  have hfront : ((R.take (i * q + q)).drop (i * q)).Sublist (R.take (S.length * q)) :=
    (drop_sublist _ _).trans (take_sublist_take_left hle)
  have hback : R[S.length * q + i]?.toList.Sublist (R.drop (S.length * q)) := by
    rw [← getElem?_drop]
    cases hx : (R.drop (S.length * q))[i]? with
    | none => exact nil_sublist _
    | some x => exact singleton_sublist.mpr (mem_of_getElem? hx)
  have hsub := hfront.append hback
  rw [take_append_drop] at hsub
  exact hR.sublist hsub

theorem sendRank_eq : sendRank S R j = S[owner S.length (R.length / S.length) j]? := by
  unfold sendRank owner
  dsimp only
  split <;> rfl

theorem mem_recvRanks_iff (hS : S.Nodup) (hR : R.Nodup) (ha : a ∈ S) (hb : b ∈ R) :
    b ∈ recvRanks S R (S.idxOf a) ↔ sendRank S R (R.idxOf b) = some a := by
  have hi : S.idxOf a < S.length := idxOf_lt_length_of_mem ha
  have hj : R.idxOf b < R.length := idxOf_lt_length_of_mem hb
  have howner : owner S.length (R.length / S.length) (R.idxOf b) < S.length :=
    owner_lt (Nat.zero_lt_of_lt hi) hj
  have hat : R[R.idxOf b]? = some b := by
    rw [getElem?_eq_getElem hj, getElem_idxOf hj]
  have hserved : b ∈ recvRanks S R (S.idxOf a) ↔
      owner S.length (R.length / S.length) (R.idxOf b) = S.idxOf a := by
    rw [mem_recvRanks, owner_eq_iff hi]
    constructor
    · rintro ⟨j, hj', hcases⟩
      obtain ⟨hlt, hget⟩ := List.getElem?_eq_some_iff.mp hj'
      rwa [← hget, hR.idxOf_getElem]
    · exact fun hcases => ⟨_, hat, hcases⟩
  rw [hserved, sendRank_eq, List.getElem?_eq_some_iff]
  constructor
  · intro heq
    exact ⟨howner, by simp only [heq, getElem_idxOf]⟩
  · rintro ⟨hlt, hget⟩
    rw [← hget, hS.idxOf_getElem]

end

/-! ## The maps of senders and receivers -/

section
variable {numLocalExperts : Nat} {indices experts : List Int} {e : Int}

def holders (numLocalExperts : Nat) (indices : List Int) (e : Int) : List Nat :=
  uniqueFirst ((indices.zipIdx.filter (·.1 = e)).map (·.2 / numLocalExperts))

theorem mem_holders {rank : Nat} :
    rank ∈ holders numLocalExperts indices e ↔ ∃ p, indices[p]? = some e ∧ p / numLocalExperts = rank := by
  unfold holders
  simp only [mem_uniqueFirst, mem_map, mem_filter, decide_eq_true_eq]
  constructor
  · rintro ⟨x, ⟨hx, rfl⟩, rfl⟩
    exact ⟨x.2, mem_zipIdx_iff_getElem?.mp hx, rfl⟩
  · rintro ⟨p, hp, rfl⟩
    exact ⟨(e, p), ⟨mem_zipIdx_iff_getElem?.mpr hp, rfl⟩, rfl⟩

instance : Std.Total lexLe := ⟨fun a b => by unfold lexLe; omega⟩

instance : IsTrans (Int × Nat) lexLe := ⟨fun a b c hab hbc => by unfold lexLe at *; omega⟩

theorem filter_sorted (he : e ∈ experts) :
    ((indices.zipIdx.filter (·.1 ∈ experts)).insertionSort lexLe).filter (·.1 = e) =
      indices.zipIdx.filter (·.1 = e) := by
  have hrelevant : (indices.zipIdx.filter (·.1 ∈ experts)).filter (·.1 = e) =
      indices.zipIdx.filter (·.1 = e) := by
    rw [filter_filter]
    refine filter_congr fun x _ => ?_
    by_cases hx : x.1 = e <;> simp [hx, he]
  have hperm : (((indices.zipIdx.filter (·.1 ∈ experts)).insertionSort lexLe).filter (·.1 = e)).Perm
      (indices.zipIdx.filter (·.1 = e)) := by
    rw [← hrelevant]
    exact (perm_insertionSort _ _).filter _
  have hkey : ∀ {x : Int × Nat} {l : List (Int × Nat)}, x ∈ l.filter (·.1 = e) → x.1 = e := fun hx =>
    of_decide_eq_true (mem_filter.mp hx).2
  have hpos : indices.zipIdx.Pairwise fun a b => a.2 ≤ b.2 := by
    have hrange : (indices.zipIdx.map Prod.snd).Pairwise (· ≤ ·) := by
      rw [zipIdx_map_snd]
      exact pairwise_le_range'
    exact pairwise_map.mp hrange
  have hleft : (((indices.zipIdx.filter (·.1 ∈ experts)).insertionSort lexLe).filter (·.1 = e)).Pairwise
      lexLe := (pairwise_insertionSort _ _).filter _
  have hright : (indices.zipIdx.filter (·.1 = e)).Pairwise lexLe := by
    refine (hpos.filter _).imp_of_mem fun hx hy hle => ?_
    exact .inr ⟨(hkey hx).trans (hkey hy).symm, hle⟩
  refine hperm.eq_of_pairwise (fun x y hx hy hxy hyx => ?_) hleft hright
  have hfst : x.1 = y.1 := (hkey hx).trans (hkey hy).symm
  unfold lexLe at hxy hyx
  exact Prod.ext hfst (by omega)

theorem ranksByExpert_spec :
    ((ranksByExpert numLocalExperts indices experts).map Prod.fst).Nodup ∧
      (∀ e, e ∈ (ranksByExpert numLocalExperts indices experts).map Prod.fst ↔ e ∈ indices ∧ e ∈ experts) ∧
      ∀ g ∈ ranksByExpert numLocalExperts indices experts, g.2 = holders numLocalExperts indices g.1 := by
  unfold ranksByExpert
  dsimp only
  generalize hsorted : (indices.zipIdx.filter (·.1 ∈ experts)).insertionSort lexLe = sorted
  have hkeys : (sorted.map fun e => (e.1, e.2 / numLocalExperts)).Pairwise fun a b => a.1 ≤ b.1 := by
    rw [← hsorted]
    refine pairwise_map.mpr ((pairwise_insertionSort lexLe _).imp fun h => ?_)
    unfold lexLe at h
    exact h.elim Int.le_of_lt fun h => h.1.le
  have hmem : ∀ e, e ∈ (sorted.map fun e => (e.1, e.2 / numLocalExperts)).map Prod.fst ↔
      e ∈ indices ∧ e ∈ experts := by
    intro e
    rw [← hsorted]
    simp only [map_map, mem_map, mem_insertionSort, mem_filter, decide_eq_true_eq,
      Function.comp_apply]
    constructor
    · rintro ⟨x, ⟨hx, hin⟩, rfl⟩
      exact ⟨mem_of_getElem? (mem_zipIdx_iff_getElem?.mp hx), hin⟩
    · rintro ⟨he, hin⟩
      obtain ⟨p, hp⟩ := mem_iff_getElem?.mp he
      exact ⟨(e, p), ⟨mem_zipIdx_iff_getElem?.mpr hp, hin⟩, rfl⟩
  obtain ⟨hasc, hgroups, hvals⟩ := groupRuns_spec hkeys
  have hfst : ((groupRuns (sorted.map fun e => (e.1, e.2 / numLocalExperts))).map fun g =>
      (g.1, uniqueFirst g.2)).map Prod.fst =
        (groupRuns (sorted.map fun e => (e.1, e.2 / numLocalExperts))).map Prod.fst := by
    rw [map_map]
    rfl
  refine ⟨?_, fun e => ?_, fun g hg => ?_⟩
  · rw [hfst]
    exact hasc.imp ne_of_lt
  · rw [hfst, hgroups, hmem]
  · obtain ⟨g', hg', rfl⟩ := mem_map.mp hg
    have hexpert : g'.1 ∈ experts := ((hmem _).mp ((hgroups _).mp (mem_map.mpr ⟨g', hg', rfl⟩))).2
    have hfilter : (sorted.map fun e => (e.1, e.2 / numLocalExperts)).filter (·.1 = g'.1) =
        (sorted.filter (·.1 = g'.1)).map fun e => (e.1, e.2 / numLocalExperts) := by
      rw [filter_map]
      rfl
    rw [hvals g' hg', valuesOf, hfilter, ← hsorted, filter_sorted hexpert, map_map]
    rfl

def receivers (numLocalExperts : Nat) (oldIndices newIndices : List Int) (e : Int) : List Nat :=
  (holders numLocalExperts newIndices e).filter (· ∉ holders numLocalExperts oldIndices e)

theorem holders_of_not_mem (he : e ∉ indices) : holders numLocalExperts indices e = [] := by
  refine eq_nil_iff_forall_not_mem.mpr fun rank hin => ?_
  obtain ⟨p, hp, -⟩ := mem_holders.mp hin
  exact he (mem_of_getElem? hp)

theorem get?_withMissing {d : Dict Int (List Nat)} {f : Int → List Nat} (hexperts : experts.Nodup)
    (he : e ∈ experts) (hin : e ∈ indices → d.get? e = some (f e)) (hout : e ∉ indices → d.get? e = none)
    (hnil : e ∉ indices → f e = []) : (withMissing experts d).get? e = some (f e) := by
  unfold withMissing
  have hkeys : ((experts.filter (!d.contains ·)).map fun e => (e, ([] : List Nat))).map Prod.fst =
      experts.filter (!d.contains ·) := by
    rw [map_map]
    exact map_id _
  have hnodup : (((experts.filter (!d.contains ·)).map fun e => (e, ([] : List Nat))).map Prod.fst).Nodup := by
    rw [hkeys]
    exact hexperts.filter _
  obtain ⟨hset, hkept⟩ := @get?_setAll _ _ _ d _ hnodup e
  by_cases hi : e ∈ indices
  · rw [hkept, hin hi]
    simp [Dict.contains, hin hi]
  · rw [hnil hi]
    refine hset [] (mem_map.mpr ⟨e, mem_filter.mpr ⟨he, ?_⟩, rfl⟩)
    simp [Dict.contains, hout hi]

theorem getEpRanksWithExpertsBatch_eq {oldIndices newIndices : List Int} (he : e ∈ experts) :
    (getEpRanksWithExpertsBatch experts numLocalExperts oldIndices newIndices).1.get? e =
        some (holders numLocalExperts oldIndices e) ∧
      (getEpRanksWithExpertsBatch experts numLocalExperts oldIndices newIndices).2.get? e =
        some (receivers numLocalExperts oldIndices newIndices e) := by
  unfold getEpRanksWithExpertsBatch
  rw [if_neg fun hempty => by rw [isEmpty_iff.mp hempty] at he; cases he]
  dsimp only
  have huniq : e ∈ (unique experts).map Prod.fst :=
    mem_map.mpr ⟨(e, experts.idxOf e), mem_unique.mpr ⟨he, rfl⟩, rfl⟩
  have hexperts : ((unique experts).map Prod.fst).Nodup :=
    (pairwise_map.mpr (unique_sorted experts)).imp ne_of_lt
  generalize (unique experts).map Prod.fst = experts at huniq hexperts
  obtain ⟨hnodup, hkeys, hvals⟩ := @ranksByExpert_spec numLocalExperts oldIndices experts
  obtain ⟨hnodup', hkeys', hvals'⟩ := @ranksByExpert_spec numLocalExperts newIndices experts
  obtain ⟨hset, hkept⟩ := @get?_setAll _ _ _ (∅ : Dict Int (List Nat)) _ hnodup e
  have hin : e ∈ oldIndices → (Dict.setAll ∅ (ranksByExpert numLocalExperts oldIndices experts)).get? e =
      some (holders numLocalExperts oldIndices e) := by
    intro hi
    obtain ⟨g, hg, rfl⟩ := mem_map.mp ((hkeys e).mpr ⟨hi, huniq⟩)
    rw [← hvals g hg]
    exact hset g.2 hg
  have hout : e ∉ oldIndices → (Dict.setAll ∅ (ranksByExpert numLocalExperts oldIndices experts)).get? e =
      none := fun hi => hkept fun hk => hi ((hkeys e).mp hk).1
  have hget : ((Dict.setAll ∅ (ranksByExpert numLocalExperts oldIndices experts)).get? e).getD [] =
      holders numLocalExperts oldIndices e := by
    by_cases hi : e ∈ oldIndices
    · rw [hin hi]
      rfl
    · rw [hout hi, holders_of_not_mem hi]
      rfl
  generalize Dict.setAll ∅ (ranksByExpert numLocalExperts oldIndices experts) = sendMap at hin hout hget
  refine ⟨get?_withMissing hexperts huniq hin hout holders_of_not_mem, ?_⟩
  have hfst : ((ranksByExpert numLocalExperts newIndices experts).map fun g =>
      (g.1, g.2.filter (· ∉ (sendMap.get? g.1).getD []))).map Prod.fst =
        (ranksByExpert numLocalExperts newIndices experts).map Prod.fst := by
    rw [map_map]
    rfl
  obtain ⟨hset', hkept'⟩ := @get?_setAll _ _ _ (∅ : Dict Int (List Nat)) _ (hfst ▸ hnodup') e
  have hnone : e ∉ newIndices → receivers numLocalExperts oldIndices newIndices e = [] := by
    intro hi
    unfold receivers
    rw [holders_of_not_mem hi]
    rfl
  refine get?_withMissing hexperts huniq (fun hi => ?_) (fun hi => ?_) hnone
  · obtain ⟨g, hg, rfl⟩ := mem_map.mp ((hkeys' e).mpr ⟨hi, huniq⟩)
    refine hset' _ (mem_map.mpr ⟨g, hg, ?_⟩)
    rw [hget, hvals' g hg]
    rfl
  · exact hkept' fun hk => hi ((hkeys' e).mp (hfst ▸ hk)).1

end

/-! ## The entries of a rank -/

namespace Layout
variable {ly : Layout} {rank a b row : Nat} {e : Int}

variable {experts : Nat → Int} {rows : List Nat}

theorem firstRows_sorted : (firstRows experts rows).Pairwise fun x y => x.1 < y.1 :=
  pairwise_map.mpr (unique_sorted _)

theorem of_mem_firstRows {x : Int × Nat}
    (hx : x ∈ firstRows experts rows) : x.2 ∈ rows ∧ experts x.2 = x.1 := by
  obtain ⟨u, hu, rfl⟩ := mem_map.mp hx
  obtain ⟨hin, hi⟩ := mem_unique.mp hu
  have hlt : u.2 < (rows.map experts).length := hi ▸ idxOf_lt_length_of_mem hin
  have hlt' : u.2 < rows.length := by rwa [length_map] at hlt
  have hget : rows.getD u.2 0 = rows[u.2] := getD_eq_getElem _ _ hlt'
  have hval : (rows.map experts)[u.2] = u.1 := by
    simp only [hi]
    exact getElem_idxOf _
  rw [getElem_map] at hval
  rw [hget]
  exact ⟨getElem_mem _, hval⟩

theorem exists_of_row (hrow : row ∈ rows) :
    ∃ first, (experts row, first) ∈ firstRows experts rows := by
  refine ⟨_, mem_map.mpr ⟨(experts row, (rows.map experts).idxOf (experts row)), ?_, rfl⟩⟩
  exact mem_unique.mpr ⟨mem_map.mpr ⟨row, hrow, rfl⟩, rfl⟩

theorem byExpert_eq {entries : List (Int × Nat)} (h : entries.Pairwise fun x y => x.1 < y.1) :
    byExpert entries = entries := by
  unfold byExpert
  exact List.Pairwise.insertionSort_eq (h.imp le_of_lt)

theorem mem_localRows : row ∈ ly.localRows ↔ row < ly.numLocalExperts := mem_range

theorem mem_holders_iff {indices : List Int} (hlen : indices.length = ly.epSize * ly.numLocalExperts)
    (hrank : rank < ly.epSize) : rank ∈ holders ly.numLocalExperts indices e ↔
      ∃ row < ly.numLocalExperts, ly.localEntry rank indices row = e := by
  rw [mem_holders]
  have hblock : rank * ly.numLocalExperts + ly.numLocalExperts ≤ ly.epSize * ly.numLocalExperts := by
    rw [← Nat.succ_mul]
    exact Nat.mul_le_mul_right _ hrank
  constructor
  · rintro ⟨p, hp, rfl⟩
    have hpos : 0 < ly.numLocalExperts := Nat.pos_of_ne_zero fun h => by
      have hlt := (List.getElem?_eq_some_iff.mp hp).1
      rw [hlen, h] at hlt
      exact Nat.not_lt_zero _ hlt
    refine ⟨p % ly.numLocalExperts, Nat.mod_lt _ hpos, ?_⟩
    unfold localEntry
    rw [Nat.mul_comm, Nat.div_add_mod, getD_eq_getElem?_getD, hp]
    rfl
  · rintro ⟨row, hrow, rfl⟩
    have hlt : rank * ly.numLocalExperts + row < indices.length := by omega
    refine ⟨rank * ly.numLocalExperts + row, ?_, ?_⟩
    · unfold localEntry
      rw [getD_eq_getElem _ _ hlt]
      exact getElem?_eq_getElem hlt
    · rw [Nat.mul_comm, Nat.mul_add_div (by omega), Nat.div_eq_of_lt hrow, Nat.add_zero]

def senders (ly : Layout) (e : Int) : List Nat := holders ly.numLocalExperts ly.oldIndices e

def takers (ly : Layout) (e : Int) : List Nat := receivers ly.numLocalExperts ly.oldIndices ly.newIndices e

theorem nodup_senders : (ly.senders e).Nodup := nodup_uniqueFirst _

theorem nodup_takers : (ly.takers e).Nodup := (nodup_uniqueFirst _).filter _

theorem mem_senders (hrank : rank < ly.epSize) :
    rank ∈ ly.senders e ↔ ∃ row < ly.numLocalExperts, ly.oldLocal rank row = e :=
  mem_holders_iff ly.old_length hrank

theorem mem_takers (hrank : rank < ly.epSize) : rank ∈ ly.takers e ↔
    (∃ row < ly.numLocalExperts, ly.newLocal rank row = e) ∧
      ∀ row < ly.numLocalExperts, ly.oldLocal rank row ≠ e := by
  unfold takers receivers
  have hold := @mem_senders ly rank e hrank
  unfold senders at hold
  rw [mem_filter, mem_holders_iff ly.new_length hrank, decide_eq_true_eq, hold]
  simp only [not_exists, not_and, newLocal, ne_eq]

theorem isReceivedLocally_iff (hrow : row < ly.numLocalExperts) (hne : ly.newLocal rank row ≠ -1) :
    ly.isReceivedLocally rank row = true ↔
      ∃ src < ly.numLocalExperts, ly.oldLocal rank src = ly.newLocal rank row := by
  unfold isReceivedLocally isUnchanged
  simp only [Bool.or_eq_true, decide_eq_true_eq, Bool.and_eq_true, bne_iff_ne, ne_eq, hne,
    not_false_eq_true, true_and, contains_iff_mem, mem_map, mem_localRows]
  constructor
  · rintro (h | h)
    · exact ⟨row, hrow, h⟩
    · exact h
  · exact .inr

theorem mem_sendKeys (hrank : rank < ly.epSize) :
    e ∈ (ly.sendEntries rank).map Prod.fst ↔ e ≠ -1 ∧ rank ∈ ly.senders e := by
  rw [mem_senders hrank, mem_map]
  constructor
  · rintro ⟨x, hx, rfl⟩
    obtain ⟨hin, hexpert⟩ := of_mem_firstRows hx
    obtain ⟨hrow, hne⟩ := mem_filter.mp hin
    exact ⟨hexpert ▸ bne_iff_ne.mp hne, x.2, mem_localRows.mp hrow, hexpert⟩
  · rintro ⟨hne, row, hrow, rfl⟩
    obtain ⟨first, hfirst⟩ := @exists_of_row row (ly.oldLocal rank)
      (ly.localRows.filter fun row => ly.oldLocal rank row != -1)
      (mem_filter.mpr ⟨mem_localRows.mpr hrow, bne_iff_ne.mpr hne⟩)
    exact ⟨_, hfirst, rfl⟩

theorem mem_recvKeys (hrank : rank < ly.epSize) :
    e ∈ (ly.recvEntries rank).map Prod.fst ↔ e ≠ -1 ∧ rank ∈ ly.takers e := by
  rw [mem_takers hrank, mem_map]
  constructor
  · rintro ⟨x, hx, rfl⟩
    obtain ⟨hin, hexpert⟩ := of_mem_firstRows hx
    obtain ⟨hrow, hneed⟩ := mem_filter.mp hin
    simp only [Bool.and_eq_true, Bool.not_eq_true', bne_iff_ne] at hneed
    have hlocal := isReceivedLocally_iff (mem_localRows.mp hrow) hneed.2
    refine ⟨hexpert ▸ hneed.2, ⟨x.2, mem_localRows.mp hrow, hexpert⟩, fun row hrow hold => ?_⟩
    have htrue := hlocal.mpr ⟨row, hrow, hold.trans hexpert.symm⟩
    rw [hneed.1] at htrue
    cases htrue
  · rintro ⟨hne, ⟨row, hrow, rfl⟩, hold⟩
    have hremote : ly.isReceivedLocally rank row = false := by
      rw [← Bool.not_eq_true, isReceivedLocally_iff hrow hne]
      rintro ⟨src, hsrc, heq⟩
      exact hold src hsrc heq
    obtain ⟨first, hfirst⟩ := @exists_of_row row (ly.newLocal rank)
      (ly.localRows.filter fun row => !ly.isReceivedLocally rank row && ly.newLocal rank row != -1)
      (mem_filter.mpr ⟨mem_localRows.mpr hrow, by simp [hremote, hne]⟩)
    exact ⟨_, hfirst, rfl⟩

end Layout
end Vllm.Eplb
