import Vllm.Base.Dict
import Mathlib.Data.List.Dedup

/-! A bounded cache that evicts by the order of use. The order lists the keys from the oldest use on.
A key may be listed without being stored, when it was touched before its value arrived; a pass that
makes room cannot get past such a key. -/

namespace Base
open Dict List

structure LruCache (K V : Type) where
  data : Dict K V
  order : List K
  nodup : order.Nodup
  listed : ∀ k ∈ data.keys, k ∈ order

namespace LruCache
variable {K V W : Type}

variable {c c' : LruCache K V} {l ks : List K} {k : K} {size : V → Nat} {capacity : Nat} {v : V}
  {cost : K → Nat}

@[ext] theorem ext (hd : c.data = c'.data) (ho : c.order = c'.order) : c = c' := by
  cases c
  simp_all

def empty : LruCache K V := ⟨∅, [], nodup_nil, by simp⟩

instance : EmptyCollection (LruCache K V) := ⟨empty⟩

variable [DecidableEq K]

def moveToEnd (l : List K) (k : K) : List K := l.erase k ++ [k]

theorem nodup_moveToEnd (h : l.Nodup) (k : K) : (moveToEnd l k).Nodup := by
  rw [moveToEnd, nodup_append]
  refine ⟨h.erase k, nodup_singleton k, fun a ha b hb hab => ?_⟩
  rw [mem_singleton] at hb
  exact (h.mem_erase_iff.mp ha).1 (hab.trans hb)

theorem mem_moveToEnd {k' : K} : k' ∈ moveToEnd l k ↔ k' = k ∨ k' ∈ l := by
  rw [moveToEnd]
  by_cases h : k' = k
  · simp [h]
  · simp [h]

def touch (c : LruCache K V) (k : K) : LruCache K V where
  data := c.data
  order := moveToEnd c.order k
  nodup := nodup_moveToEnd c.nodup k
  listed := fun k' hk' => mem_moveToEnd.mpr (.inr (c.listed k' hk'))

def insert (c : LruCache K V) (k : K) (v : V) : LruCache K V where
  data := c.data.set k v
  order := moveToEnd c.order k
  nodup := nodup_moveToEnd c.nodup k
  listed := fun k' hk' => mem_moveToEnd.mpr ((Dict.mem_keys_set.mp hk').imp_right (c.listed k'))

def erase (c : LruCache K V) (k : K) : LruCache K V where
  data := c.data.erase k
  order := c.order.erase k
  nodup := c.nodup.erase k
  listed := fun k' hk' => by
    obtain ⟨hne, hk'⟩ := Dict.mem_keys_erase.mp hk'
    exact (mem_erase_of_ne hne).mpr (c.listed k' hk')

/-- How storing a value can fail. `endless`: the oldest key is not stored, so removing it changes
nothing and the removals never end. -/
inductive PutError where
  | tooLarge
  | noVictim
  | endless
deriving DecidableEq, Repr

def makeRoom (size : V → Nat) (capacity need : Nat) :
    List K → LruCache K V → Except PutError (LruCache K V)
  | [], c => if c.data.sum size + need ≤ capacity then .ok c else .error .noVictim
  | k :: ks, c =>
    if c.data.sum size + need ≤ capacity then .ok c
    else if c.data.contains k then makeRoom size capacity need ks (c.erase k)
    else .error .endless

def put (size : V → Nat) (capacity : Nat) (c : LruCache K V) (k : K) (v : V) :
    Except PutError (LruCache K V) :=
  if capacity < size v then .error .tooLarge
  else if (c.data.get? k).all (size · < size v) then
    (makeRoom size capacity (size v) c.order c).map fun c => c.insert k v
  else .ok (c.insert k v)

theorem makeRoom_ok {need : Nat} (hks : c.order = ks)
    (h : makeRoom size capacity need ks c = .ok c') :
    ∃ gone, c.order = gone ++ c'.order ∧ (∀ k ∈ gone, k ∈ c.data.keys) ∧
      (∀ k, c'.data.get? k = if k ∈ gone then none else c.data.get? k) ∧
      c'.data.sum size + need ≤ capacity := by
  induction ks generalizing c with
  | nil =>
    rw [makeRoom] at h
    split at h
    · next hroom =>
      cases h
      exact ⟨[], rfl, by simp, by simp, hroom⟩
    · cases h
  | cons k ks ih =>
    rw [makeRoom] at h
    split at h
    · next hroom =>
      cases h
      exact ⟨[], rfl, by simp, by simp, hroom⟩
    · split at h
      · next hk =>
        have herase : (c.erase k).order = ks := by
          change c.order.erase k = ks
          rw [hks, erase_cons_head]
        obtain ⟨gone, horder, hstored, hget, hroom⟩ := ih herase h
        refine ⟨k :: gone, ?_, fun k' hk' => ?_, fun k' => ?_, hroom⟩
        · rw [hks, ← herase, horder, cons_append]
        · rcases mem_cons.mp hk' with rfl | hk'
          · exact mem_keys_iff.mpr hk
          · exact (mem_keys_erase.mp (hstored k' hk')).2
        · rw [hget]
          change (if k' ∈ gone then none else (c.data.erase k).get? k') = _
          rw [get?_erase]
          by_cases hg : k' ∈ gone <;> by_cases he : k' = k <;> simp [hg, he]
      · cases h

theorem put_ok (hk : c.data.get? k = none) (h : put size capacity c k v = .ok c') :
    ∃ gone rest, c.order = gone ++ rest ∧ c'.order = moveToEnd rest k ∧
      (∀ k' ∈ gone, k' ∈ c.data.keys) ∧
      (∀ k', c'.data.get? k' = if k' = k then some v else if k' ∈ gone then none else c.data.get? k') ∧
      c'.data.sum size ≤ capacity := by
  rw [put, hk] at h
  split at h
  · cases h
  · cases hroom : makeRoom size capacity (size v) c.order c with
    | error e =>
      rw [hroom] at h
      cases h
    | ok d =>
      rw [hroom] at h
      obtain rfl : d.insert k v = c' := Except.ok.inj h
      obtain ⟨gone, horder, hstored, hget, hle⟩ := makeRoom_ok rfl hroom
      have hnone : d.data.get? k = none := by
        rw [hget, hk]
        simp
      refine ⟨gone, d.order, horder, rfl, hstored, fun k' => ?_, ?_⟩
      · change (d.data.set k v).get? k' = _
        rw [get?_set, hget]
      · have hsum := sum_set d.data size k v
        rw [hnone] at hsum
        change (d.data.set k v).sum size ≤ capacity
        simp only [Option.elim_none] at hsum
        omega

/-! ## The values through a function -/

def map (f : V → W) (c : LruCache K V) : LruCache K W where
  data := c.data.map f
  order := c.order
  nodup := c.nodup
  listed := fun k hk => c.listed k (by rwa [Dict.keys_map] at hk)

section
variable (f : V → W) (c : LruCache K V) (k : K)

theorem map_touch : (c.touch k).map f = (c.map f).touch k :=
  rfl

theorem map_erase : (c.erase k).map f = (c.map f).erase k :=
  ext (Dict.map_erase f c.data k) rfl

theorem map_insert (v : V) : (c.insert k v).map f = (c.map f).insert k (f v) :=
  ext (map_set f c.data k v) rfl

end

theorem makeRoom_map (size : V → Nat) (capacity need : Nat) (ks : List K) (c : LruCache K V) :
    makeRoom id capacity need ks (c.map size) =
      (makeRoom size capacity need ks c).map (LruCache.map size) := by
  have hsum : ∀ c : LruCache K V, (c.map size).data.sum id = c.data.sum size := fun c =>
    sum_map size id c.data
  have hget : ∀ (c : LruCache K V) k, (c.map size).data.contains k = c.data.contains k := fun c k => by
    simp [Dict.contains, map]
  induction ks generalizing c with
  | nil =>
    simp only [makeRoom, hsum]
    split <;> rfl
  | cons k ks ih =>
    simp only [makeRoom, hsum, hget]
    split
    · rfl
    · split
      · rw [← map_erase]
        exact ih _
      · rfl

theorem put_map (size : V → Nat) (capacity : Nat) (c : LruCache K V) (k : K) (v : V) :
    put id capacity (c.map size) k (size v) = (put size capacity c k v).map (LruCache.map size) := by
  have hget : ((c.map size).data.get? k).all (id · < size v) =
      (c.data.get? k).all (size · < size v) := by
    simp only [map, get?_map]
    cases c.data.get? k <;> rfl
  have horder : (c.map size).order = c.order := rfl
  simp only [put, id_eq, horder]
  simp only [id_eq] at hget
  rw [hget, makeRoom_map]
  split
  · rfl
  · split
    · cases makeRoom size capacity (size v) c.order c with
      | error e => rfl
      | ok c' =>
        change Except.ok ((c'.map size).insert k (size v)) = .ok ((c'.insert k v).map size)
        rw [map_insert]
    · rw [← map_insert]
      rfl

/-! ## A batch of keys

The keys of a batch are touched first and stored or used again one by one. As long as the batch fits
into the cache as a whole, room is only made at the cost of other keys. -/

def touchAll (c : LruCache K V) (ks : List K) : LruCache K V := ks.foldl touch c

theorem data_touchAll (c : LruCache K V) (ks : List K) : (c.touchAll ks).data = c.data := by
  induction ks generalizing c with
  | nil => rfl
  | cons k ks ih => exact ih (c.touch k)

theorem map_touchAll (f : V → W) (c : LruCache K V) (ks : List K) :
    (c.touchAll ks).map f = (c.map f).touchAll ks := by
  induction ks generalizing c with
  | nil => rfl
  | cons k ks ih => exact ih (c.touch k)

theorem order_touchAll (c : LruCache K V) (ks : List K) :
    (c.touchAll ks).order = c.order.filter (· ∉ ks) ++ ks.dedup := by
  induction ks generalizing c with
  | nil => simp [touchAll]
  | cons k ks ih =>
    have hstep : (c.touchAll (k :: ks)).order = ((c.touch k).touchAll ks).order := rfl
    have hfilter : (c.order.erase k).filter (· ∉ ks) = c.order.filter (· ∉ k :: ks) := by
      rw [c.nodup.erase_eq_filter, filter_filter]
      refine filter_congr fun a _ => ?_
      by_cases hak : a = k <;> simp [hak]
    rw [hstep, ih]
    change (moveToEnd c.order k).filter (· ∉ ks) ++ ks.dedup = _
    rw [moveToEnd, filter_append, hfilter]
    by_cases hk : k ∈ ks
    · simp [hk]
    · simp [hk]

theorem touchAll_eq_self (h : ks.dedup <:+ c.order) : c.touchAll ks = c := by
  obtain ⟨pre, hpre⟩ := h
  refine ext (data_touchAll c ks) ?_
  rw [order_touchAll, ← hpre, filter_append]
  have hnd := c.nodup
  rw [← hpre, nodup_append] at hnd
  have hold : pre.filter (· ∉ ks) = pre := filter_eq_self.mpr fun a ha => by
    simpa using fun hc => hnd.2.2 a ha a (mem_dedup.mpr hc) rfl
  have hnew : ks.dedup.filter (· ∉ ks) = [] := filter_eq_nil_iff.mpr fun a ha => by
    simpa using ha
  rw [hold, hnew, append_nil]

def Settled (c : LruCache K V) : Prop := ∀ k ∈ c.order, k ∈ c.data.keys

theorem Settled.touch (h : c.Settled) (hk : k ∈ c.data.keys) : (c.touch k).Settled := fun _ hk' =>
  (mem_moveToEnd.mp hk').elim (fun e => e ▸ hk) (h _)

theorem Settled.insert (h : c.Settled) (k : K) (v : V) : (c.insert k v).Settled :=
  fun _ hk' => mem_keys_set.mpr ((mem_moveToEnd.mp hk').imp_right (h _))

theorem Settled.erase (h : c.Settled) (k : K) : (c.erase k).Settled :=
  fun _ hk' => by
    obtain ⟨hne, hmem⟩ := c.nodup.mem_erase_iff.mp hk'
    exact mem_keys_erase.mpr ⟨hne, h _ hmem⟩

theorem Settled.erase_of_not_mem (h : c.Settled) (hk : k ∉ c.data.keys) : c.erase k = c :=
  ext (Dict.erase_of_not_mem hk) (List.erase_of_not_mem fun hc => hk (h k hc))

theorem Settled.length_order {c : LruCache K V} (h : c.Settled) : c.order.length = c.data.size := by
  rw [← length_keys]
  exact ((perm_ext_iff_of_nodup c.nodup c.data.keys_nodup).mpr fun k =>
    ⟨h k, c.listed k⟩).length_eq

/-! ### The keys used last -/

theorem suffix_moveToEnd (h : ks <:+ l) (hk : k ∉ ks) : ks ++ [k] <:+ moveToEnd l k := by
  obtain ⟨pre, rfl⟩ := h
  rw [moveToEnd, erase_append]
  split
  · exact ⟨pre.erase k, by rw [append_assoc]⟩
  · rw [erase_of_not_mem hk]
    exact ⟨pre, by rw [append_assoc]⟩

theorem suffix_erase (h : ks <:+ l) (hk : k ∉ ks) : ks <:+ l.erase k := by
  obtain ⟨pre, rfl⟩ := h
  rw [erase_append]
  split
  · exact suffix_append _ _
  · rw [erase_of_not_mem hk]
    exact suffix_append _ _

theorem moveToEnd_last (hl : l.Nodup) (h : ks ++ [k] <:+ l) : moveToEnd l k = l := by
  obtain ⟨pre, rfl⟩ := h
  rw [← append_assoc] at hl ⊢
  have hnot : k ∉ pre ++ ks := fun hc => (nodup_append.mp hl).2.2 k hc k mem_cons_self rfl
  rw [moveToEnd, erase_append_right _ hnot, erase_cons_head, append_nil]

theorem head_not_mem {l ks : List K} {k : K} (hl : l.Nodup) (h : ks <:+ l) (hlt : ks.length < l.length)
    (hk : l.head? = some k) : k ∉ ks := by
  obtain ⟨pre, rfl⟩ := h
  cases pre with
  | nil => simp at hlt
  | cons k' pre =>
    obtain rfl : k' = k := by simpa using hk
    rw [cons_append, nodup_cons] at hl
    exact fun hc => hl.1 (mem_append_right _ hc)

/-- A cache in the middle of the batch `ks`: the keys of the batch come last, and those stored cost
what `cost` says. -/
structure Serving (size : V → Nat) (ks : List K) (cost : K → Nat) (c : LruCache K V) : Prop where
  split : ∃ olds news, c.order = olds ++ news ∧ (∀ k ∈ olds, k ∈ c.data.keys ∧ k ∉ ks) ∧
    ∀ k ∈ news, k ∈ ks
  costs : ∀ k ∈ ks, ∀ v, c.data.get? k = some v → size v = cost k

theorem Settled.serving (h : c.Settled)
    (hcost : ∀ k ∈ ks, ∀ v, c.data.get? k = some v → size v = cost k) :
    Serving size ks cost (c.touchAll ks) := by
  refine ⟨⟨_, _, order_touchAll c ks, fun k hk => ?_, fun k hk => mem_dedup.mp hk⟩, ?_⟩
  · obtain ⟨hk, hn⟩ := mem_filter.mp hk
    rw [data_touchAll]
    exact ⟨h k hk, by simpa using hn⟩
  · rw [data_touchAll]
    exact hcost

section
variable (h : Serving size ks cost c)
include h

theorem Serving.settled (hall : ∀ k ∈ ks, k ∈ c.data.keys) : c.Settled := by
  obtain ⟨olds, news, horder, holds, hnews⟩ := h.split
  intro k hk
  rw [horder, mem_append] at hk
  rcases hk with hk | hk
  · exact (holds k hk).1
  · exact hall k (hnews k hk)

theorem Serving.moveToEnd_split (hk : k ∈ ks) :
    ∃ olds news, moveToEnd c.order k = olds ++ news ∧ (∀ k ∈ olds, k ∈ c.data.keys ∧ k ∉ ks) ∧
      ∀ k ∈ news, k ∈ ks := by
  obtain ⟨olds, news, horder, holds, hnews⟩ := h.split
  have hnot : k ∉ olds := fun hc => (holds k hc).2 hk
  refine ⟨olds, news.erase k ++ [k], ?_, holds, fun k' hk' => ?_⟩
  · rw [moveToEnd, horder, erase_append_right _ hnot, append_assoc]
  · rcases mem_append.mp hk' with hk' | hk'
    · exact hnews k' (mem_of_mem_erase hk')
    · rwa [mem_singleton.mp hk']

theorem Serving.touch (hk : k ∈ ks) : Serving size ks cost (c.touch k) :=
  ⟨h.moveToEnd_split hk, h.costs⟩

theorem Serving.insert (hk : k ∈ ks) (hv : size v = cost k) :
    Serving size ks cost (c.insert k v) := by
  obtain ⟨olds, news, horder, holds, hnews⟩ := h.moveToEnd_split hk
  refine ⟨⟨olds, news, horder, fun k' hk' => ⟨mem_keys_set.mpr (.inr (holds k' hk').1),
    (holds k' hk').2⟩, hnews⟩, fun k' hk' v' hv' => ?_⟩
  change (c.data.set k v).get? k' = some v' at hv'
  rw [get?_set] at hv'
  split at hv'
  · next he =>
    cases hv'
    rw [he, hv]
  · exact h.costs k' hk' v' hv'

end

section
variable (hfit : (ks.dedup.map cost).sum ≤ capacity) (hk : k ∈ ks) (h : Serving size ks cost c)
  (hmiss : c.data.get? k = none)
include hfit hk h hmiss

theorem Serving.makeRoom :
    ∃ c', makeRoom size capacity (cost k) c.order c = .ok c' ∧ Serving size ks cost c' ∧
      ∀ k' ∈ ks, c'.data.get? k' = c.data.get? k' := by
  obtain ⟨olds, news, horder, holds, hnews⟩ := h.split
  induction olds generalizing c with
  | nil =>
    -- only keys of the batch are stored, and `k` is not among them
    have hsum : c.data.sum size = c.data.weight cost := sum_eq_weight fun k' v hv =>
      h.costs k' (hnews k' (by simpa [horder] using c.listed k' (mem_keys_of_get? hv))) v hv
    have hsub : List.Subperm (k :: c.data.keys) ks.dedup := by
      refine subperm_of_subset (nodup_cons.mpr ⟨get?_eq_none_iff.mp hmiss,
        c.data.keys_nodup⟩) fun k' hk' => mem_dedup.mpr ?_
      rcases mem_cons.mp hk' with rfl | hk'
      · exact hk
      · exact hnews k' (by simpa [horder] using c.listed k' hk')
    have hroom : c.data.sum size + cost k ≤ capacity := by
      obtain ⟨l, hperm, hsublist⟩ := hsub
      have hle := (hsublist.map cost).sum_le_sum fun _ _ => Nat.zero_le _
      rw [(hperm.map cost).sum_eq, map_cons, sum_cons] at hle
      rw [hsum, Dict.weight]
      omega
    refine ⟨c, ?_, h, fun _ _ => rfl⟩
    cases horder' : c.order <;> simp [LruCache.makeRoom, hroom]
  | cons old olds ih =>
    obtain ⟨hstored, hold⟩ := holds old mem_cons_self
    by_cases hroom : c.data.sum size + cost k ≤ capacity
    · exact ⟨c, by simp [horder, LruCache.makeRoom, hroom], h, fun _ _ => rfl⟩
    have hkeep : ∀ k' ∈ ks, (c.erase old).data.get? k' = c.data.get? k' := fun k' hk' =>
      get?_erase_of_ne _ fun e => hold (e ▸ hk')
    have hnext : (c.erase old).order = olds ++ news := by
      change c.order.erase old = _
      rw [horder, cons_append, erase_cons_head]
    have hold_not : old ∉ olds := by
      have hnd := c.nodup
      rw [horder, cons_append, nodup_cons] at hnd
      exact fun hc => hnd.1 (mem_append_left _ hc)
    have holds' : ∀ k' ∈ olds, k' ∈ (c.erase old).data.keys ∧ k' ∉ ks := fun k' hk' =>
      ⟨mem_keys_erase.mpr ⟨fun e => hold_not (e ▸ hk'), (holds k' (mem_cons_of_mem _ hk')).1⟩,
        (holds k' (mem_cons_of_mem _ hk')).2⟩
    have hserving : Serving size ks cost (c.erase old) :=
      ⟨⟨olds, news, hnext, holds', hnews⟩, fun k' hk' v hv => h.costs k' hk' v ((hkeep k' hk') ▸ hv)⟩
    obtain ⟨c', hrun, hc', hget⟩ := ih hserving ((hkeep k hk).trans hmiss) hnext holds'
    refine ⟨c', ?_, hc', fun k' hk' => (hget k' hk').trans (hkeep k' hk')⟩
    rw [hnext] at hrun
    have hcontains : c.data.contains old = true := mem_keys_iff.mp hstored
    rw [horder, cons_append, LruCache.makeRoom, if_neg hroom, if_pos hcontains]
    exact hrun

theorem Serving.put (hv : size v = cost k) :
    ∃ c', put size capacity c k v = .ok c' ∧ Serving size ks cost c' ∧
      ∀ k' ∈ ks, c'.data.get? k' = if k' = k then some v else c.data.get? k' := by
  have hle : size v ≤ capacity := by
    rw [hv]
    exact (single_le_sum (by simp) _ (mem_map.mpr ⟨k, mem_dedup.mpr hk, rfl⟩)).trans hfit
  obtain ⟨c', hrun, hc', hget⟩ := h.makeRoom hfit hk hmiss
  refine ⟨c'.insert k v, ?_, hc'.insert hk hv, fun k' hk' => ?_⟩
  · rw [LruCache.put, if_neg (by omega), hmiss, hv, hrun]
    rfl
  · change (c'.data.set k v).get? k' = _
    rw [get?_set, hget k' hk']

end

end LruCache
end Base
