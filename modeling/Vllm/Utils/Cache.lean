import Vllm.Base.LruCache
import Vllm.Base.Run

/-! `LRUCache` of `utils/cache.py` over the cache of `cachetools`, without pinned items. A key that is
touched before it is stored is listed in the order of use; when it is the oldest one, removing the
oldest item removes nothing. -/

namespace Vllm.Cache
open Base LruCache Dict List
variable {K V : Type} [DecidableEq K] {size : V → Nat} {capacity : Nat}

def get (key : K) (c : LruCache K V) : Option V × LruCache K V :=
  (c.data.get? key, if c.data.contains key then c.touch key else c)

def pop (key : K) (c : LruCache K V) : Option V × LruCache K V :=
  (c.data.get? key, if c.data.contains key then c.erase key else c)

/-- `none` stands for the error that all items are pinned. -/
def popitem (c : LruCache K V) : Option (K × Option V) × LruCache K V :=
  match c.order.head? with
  | none => (none, c)
  | some lruKey => (some (lruKey, (pop lruKey c).1), (pop lruKey c).2)

/-- `while len(self) > 0` is the loop of `put` for items of size one and no capacity. -/
def clear (c : LruCache K V) : Except LruCache.PutError (LruCache K V) :=
  makeRoom (fun _ => 1) 0 0 c.order c

inductive CacheOp (K : Type) (size : V → Nat) (capacity : Nat) where
  | touch (key : K)
  | get (key : K)
  | put (key : K) (value : V) (fits : size value ≤ capacity)
  | pop (key : K)
  | popitem
  | clear

/-- A call that does not return leaves the cache where it was. -/
def CacheOp.next : CacheOp K size capacity → LruCache K V → LruCache K V
  | touch key, c => c.touch key
  | get key, c => (Cache.get key c).2
  | put key value _, c => (c.put size capacity key value).toOption.getD c
  | pop key, c => (Cache.pop key c).2
  | popitem, c => (Cache.popitem c).2
  | clear, c => (Cache.clear c).toOption.getD c

/-- The order has the cached keys, an eviction removes an item, and `put` and `clear` return. -/
structure Agrees (size : V → Nat) (capacity : Nat) (c : LruCache K V) : Prop where
  order : ∀ k, k ∈ c.order ↔ k ∈ c.data.keys
  evicts : c.data.keys ≠ [] → ∃ k v, popitem c = (some (k, some v), c.erase k) ∧
    c.data.get? k = some v
  put : ∀ k v, size v ≤ capacity → ∃ c', c.put size capacity k v = .ok c'
  clear : ∃ c', clear c = .ok c' ∧ c'.data.keys = []

variable {c : LruCache K V}

theorem makeRoom_returns {f : V → Nat} {n need : Nat} (hneed : need ≤ n) (h : c.Settled) :
    ∃ c', makeRoom f n need c.order c = .ok c' := by
  generalize hks : c.order = ks
  induction ks generalizing c with
  | nil =>
    have hkeys : c.data.keys = [] := eq_nil_iff_forall_not_mem.mpr fun k hk => by
      simpa [hks] using c.listed k hk
    have hsum : c.data.sum f = 0 := by simp_all [Dict.sum, Dict.keys]
    exact ⟨c, if_pos (by omega)⟩
  | cons k ks ih =>
    rw [makeRoom]
    split
    · exact ⟨c, rfl⟩
    · have hin : c.data.contains k := mem_keys_iff.mp (h k (hks ▸ mem_cons_self))
      rw [if_pos hin]
      refine ih (h.erase k) ?_
      change c.order.erase k = ks
      rw [hks, erase_cons_head]

theorem settled_makeRoom {f : V → Nat} {n need : Nat} {c' : LruCache K V} (h : c.Settled)
    (hrun : makeRoom f n need c.order c = .ok c') : c'.Settled := by
  obtain ⟨gone, horder, -, hget, -⟩ := makeRoom_ok rfl hrun
  intro k hk
  have hnot : k ∉ gone := fun hc => by
    have hnd := c.nodup
    rw [horder] at hnd
    exact (nodup_append.mp hnd).2.2 k hc k hk rfl
  rw [mem_keys_iff, hget, if_neg hnot]
  exact mem_keys_iff.mp (h k (horder ▸ mem_append_right _ hk))

theorem agrees_iff : Agrees size capacity c ↔ c.Settled := by
  refine ⟨fun h k hk => (h.order k).mp hk, fun h => ⟨fun k => ⟨h k, c.listed k⟩, fun hne => ?_,
    fun k v hv => ?_, ?_⟩⟩
  · obtain ⟨k, ks, hks⟩ : ∃ k ks, c.order = k :: ks := by
      obtain ⟨k, hk⟩ := exists_mem_of_ne_nil _ hne
      exact exists_cons_of_ne_nil (ne_nil_of_mem (c.listed k hk))
    have hk : k ∈ c.data.keys := h k (hks ▸ mem_cons_self)
    obtain ⟨v, hv⟩ := exists_of_mem_keys hk
    have hin : c.data.contains k := mem_keys_iff.mp hk
    refine ⟨k, v, ?_, hv⟩
    rw [popitem, hks, head?_cons]
    simp only [pop, hv, if_pos hin]
  · obtain ⟨c', hroom⟩ := makeRoom_returns (f := size) hv h
    rw [put, if_neg (Nat.not_lt.mpr hv), hroom]
    split
    · exact ⟨_, rfl⟩
    · exact ⟨_, rfl⟩
  · obtain ⟨c', hroom⟩ := makeRoom_returns (f := fun _ => 1) (Nat.le_refl 0) h
    refine ⟨c', hroom, ?_⟩
    obtain ⟨-, -, -, -, hsum⟩ := makeRoom_ok rfl hroom
    simp_all [Dict.sum, Dict.keys]

theorem settled_pop (key : K) (h : c.Settled) : (pop key c).2.Settled := by
  dsimp only [pop]
  split
  · exact h.erase key
  · exact h

def CacheOp.OfCached : CacheOp K size capacity → LruCache K V → Prop
  | touch key, c => key ∈ c.data.keys
  | _, _ => True

theorem settled_next (op : CacheOp K size capacity) (h : c.Settled) (hop : op.OfCached c) :
    (op.next c).Settled := by
  cases op with
  | touch key => exact h.touch hop
  | get key =>
    dsimp only [CacheOp.next, get]
    split
    · next hin => exact h.touch (mem_keys_iff.mpr hin)
    · exact h
  | put key value fits =>
    obtain ⟨c', hroom⟩ := makeRoom_returns (f := size) fits h
    dsimp only [CacheOp.next]
    rw [put, if_neg (Nat.not_lt.mpr fits), hroom]
    split
    · exact (settled_makeRoom h hroom).insert key value
    · exact h.insert key value
  | pop key => exact settled_pop key h
  | popitem =>
    dsimp only [CacheOp.next, popitem]
    split
    · exact h
    · exact settled_pop _ h
  | clear =>
    obtain ⟨c', hroom⟩ := makeRoom_returns (f := fun _ => 1) (Nat.le_refl 0) h
    dsimp only [CacheOp.next, clear]
    rw [hroom]
    exact settled_makeRoom h hroom

theorem ofCached_of_settled (op : CacheOp K size capacity) (h : (op.next c).Settled) :
    op.OfCached c := by
  cases op with
  | touch key => exact h key (mem_moveToEnd.mpr (.inl rfl))
  | _ => trivial

/-- The cache agrees after each call of a run exactly if the run touches cached keys only. -/
theorem agrees_along_iff (ops : List (CacheOp K size capacity)) :
    Run.Allowed CacheOp.next (fun op c => Agrees size capacity (op.next c)) ops ∅ ↔
      Run.Allowed CacheOp.next CacheOp.OfCached ops ∅ := by
  have h : (∅ : LruCache K V).Settled := fun k hk => hk
  generalize (∅ : LruCache K V) = c at h ⊢
  induction ops generalizing c with
  | nil => exact Iff.rfl
  | cons op ops ih =>
    constructor
    · rintro ⟨hnow, hrest⟩
      have hnow := agrees_iff.mp hnow
      exact ⟨ofCached_of_settled op hnow, (ih _ hnow).mp hrest⟩
    · rintro ⟨hcached, hrest⟩
      have hnow := settled_next op h hcached
      exact ⟨agrees_iff.mpr hnow, (ih _ hnow).mpr hrest⟩

/-- A request with three new items has touched all of them and stored the first two. -/
def twoOfThreeStored : LruCache Nat Nat :=
  [.touch 1, .touch 2, .touch 3, .put 1 1 Nat.two_pos, .put 2 2 Nat.two_pos].foldl
    (fun c (op : CacheOp Nat (fun _ => 1) 2) => op.next c) ∅

/-- The oldest key is that of the third item, so its `put` finds nothing to remove. -/
theorem third_put_never_returns :
    twoOfThreeStored.put (fun _ => 1) 2 3 3 = .error .endless ∧
      ¬ Agrees (fun _ => 1) 2 twoOfThreeStored := by
  have hput : twoOfThreeStored.put (fun _ => 1) 2 3 3 = .error .endless := rfl
  refine ⟨hput, fun h => ?_⟩
  obtain ⟨c', hok⟩ := h.put 3 3 (by decide)
  rw [hput] at hok
  cases hok

end Vllm.Cache
