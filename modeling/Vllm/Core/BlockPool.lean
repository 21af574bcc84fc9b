import Vllm.Base.Call
import Vllm.Base.Dict
import Mathlib.Data.Finset.Card

/-! The block pool: `block_pool.py` with the blocks and the free queue of `kv_cache_utils.py`.

A block is its id. The free queue is the list of the ids it links, oldest first, beside its
counter. The callbacks a unified pool registers are parameters: `Hooks` acts on a state `α` that
the pool does not read. Metrics and cache events are left out. -/

set_option linter.unusedSectionVars false

namespace Vllm
open Base Dict List

/-! ## Blocks and the map from hashes to blocks -/

structure KVCacheBlock (K : Type) where
  refCnt : Int := 0
  blockHash : Option K := none
  isNull : Bool := false
deriving DecidableEq, Repr

/-- A value of `_cache`: one block, or a dictionary of blocks, which is never empty. -/
inductive CachedBlocks where
  | one (b : Nat)
  | many (b : Nat) (bs : List Nat)
deriving DecidableEq, Repr

def CachedBlocks.ids : CachedBlocks → List Nat
  | .one b => [b]
  | .many b bs => b :: bs

structure BlockHashToBlockMap (K : Type) where
  cache : Dict K CachedBlocks := ∅

namespace BlockHashToBlockMap
variable {K : Type} [DecidableEq K]

def getOneBlock (m : BlockHashToBlockMap K) (key : K) : Option Nat :=
  match m.cache.get? key with
  | none => none
  | some (.one b) => some b
  | some (.many b _) => some b

def insert (m : BlockHashToBlockMap K) (key : K) (b : Nat) : BlockHashToBlockMap K :=
  match m.cache.get? key with
  | none => ⟨m.cache.set key (.one b)⟩
  | some (.one b₀) => ⟨m.cache.set key (.many b₀ (if b = b₀ then [] else [b]))⟩
  | some (.many b₀ bs) =>
    ⟨m.cache.set key (.many b₀ (if b ∈ b₀ :: bs then bs else bs ++ [b]))⟩

def pop (m : BlockHashToBlockMap K) (key : K) (b : Nat) : Option Nat × BlockHashToBlockMap K :=
  match m.cache.get? key with
  | none => (none, m)
  | some (.one b₀) => if b₀ = b then (some b, ⟨m.cache.erase key⟩) else (none, m)
  | some (.many b₀ bs) =>
    (if b ∈ b₀ :: bs then some b else none,
      match (b₀ :: bs).filter (· ≠ b) with
      | [] => ⟨m.cache.erase key⟩
      | b₁ :: rest => ⟨m.cache.set key (.many b₁ rest)⟩)

def Holds (m : BlockHashToBlockMap K) (key : K) (b : Nat) : Prop :=
  ∃ c, m.cache.get? key = some c ∧ b ∈ c.ids

@[simp] theorem not_holds_empty (key : K) (b : Nat) :
    ¬ Holds ({ } : BlockHashToBlockMap K) key b := by
  rintro ⟨c, hc, -⟩
  simp at hc

variable {m : BlockHashToBlockMap K} {key : K} {b : Nat}

theorem holds_of_getOneBlock (h : m.getOneBlock key = some b) : m.Holds key b := by
  unfold getOneBlock at h
  split at h
  · cases h
  · next c hc => cases h; exact ⟨_, hc, by simp [CachedBlocks.ids]⟩
  · next c hc => cases h; exact ⟨_, hc, by simp [CachedBlocks.ids]⟩

theorem holds_insert {key' : K} {b' : Nat} :
    (m.insert key b).Holds key' b' ↔ m.Holds key' b' ∨ key' = key ∧ b' = b := by
  unfold insert Holds
  by_cases hk : key' = key
  · subst hk
    split
    · next h => simp [h, CachedBlocks.ids]
    · next b₀ h =>
      by_cases hb : b = b₀ <;> simp [h, CachedBlocks.ids, hb]
    · next b₀ bs h =>
      by_cases hb : b ∈ b₀ :: bs
      · simp only [get?_set_self, h, Option.some.injEq, exists_eq_left', CachedBlocks.ids,
          if_pos hb, true_and]
        exact ⟨.inl, fun h' => h'.elim id fun hbb => hbb ▸ hb⟩
      · simp [h, CachedBlocks.ids, hb, or_assoc]
  · split <;> simp [get?_set_of_ne _ _ hk, hk]

theorem pop_fst (h : m.Holds key b) : (m.pop key b).1 = some b := by
  obtain ⟨c, hc, hb⟩ := h
  unfold pop
  cases c with
  | one b₀ =>
    rw [hc]
    simp only [CachedBlocks.ids, mem_singleton] at hb
    simp [hb]
  | many b₀ bs =>
    rw [hc]
    simp only [CachedBlocks.ids] at hb
    simp only [if_pos hb]

theorem holds_pop {key' : K} {b' : Nat} :
    (m.pop key b).2.Holds key' b' ↔ m.Holds key' b' ∧ ¬(key' = key ∧ b' = b) := by
  unfold pop
  by_cases hk : key' = key
  · subst hk
    split
    · next h => simp [Holds, h]
    · next b₀ h =>
      by_cases hb : b₀ = b
      · simp [Holds, h, hb, CachedBlocks.ids]
      · simp only [Holds, h, if_neg hb, Option.some.injEq, exists_eq_left', CachedBlocks.ids,
          mem_singleton, true_and]
        exact ⟨fun hb' => ⟨hb', fun hbb => hb (hb' ▸ hbb)⟩, fun h' => h'.1⟩
    · next b₀ bs h =>
      have hmem : b' ∈ (b₀ :: bs).filter (· ≠ b) ↔ b' ∈ b₀ :: bs ∧ b' ≠ b := by
        rw [mem_filter, decide_eq_true_eq]
      simp only [true_and]
      split
      · next hf =>
        rw [hf] at hmem
        simp only [Holds, h, get?_erase_self, reduceCtorEq, false_and, exists_false,
          Option.some.injEq, exists_eq_left', CachedBlocks.ids, false_iff]
        exact fun hc => absurd (hmem.mpr hc) (not_mem_nil)
      · next b₁ rest hf =>
        rw [hf] at hmem
        simp only [Holds, h, get?_set_self, Option.some.injEq, exists_eq_left', CachedBlocks.ids]
        exact hmem
  · have hne : ∀ d : Dict K CachedBlocks, (d.erase key).get? key' = d.get? key' :=
      fun d => get?_erase_of_ne d hk
    split
    · simp [hk]
    · split <;> simp [Holds, hne, hk]
    · next b₀ bs h =>
      cases (b₀ :: bs).filter (· ≠ b) <;> simp [Holds, hne, get?_set_of_ne _ _ hk, hk]

/-! ### The relation between keys and blocks -/

theorem getOneBlock_isSome : (m.getOneBlock key).isSome ↔ key ∈ m.cache.keys := by
  rw [mem_keys_iff]
  unfold getOneBlock
  split <;> simp [*]

theorem exists_holds : (∃ b, m.Holds key b) ↔ key ∈ m.cache.keys := by
  refine ⟨fun ⟨_, _, hc, _⟩ => mem_keys_of_get? hc, fun hkey => ?_⟩
  obtain ⟨b, hb⟩ := Option.isSome_iff_exists.mp (getOneBlock_isSome.mpr hkey)
  exact ⟨b, holds_of_getOneBlock hb⟩

theorem pop_of_not_holds (h : ¬ m.Holds key b) : m.pop key b = (none, m) := by
  unfold pop
  split
  · rfl
  · next b₀ hc =>
    exact if_neg fun hb => h ⟨_, hc, mem_singleton.mpr hb.symm⟩
  · next b₀ bs hc =>
    have hb : b ∉ b₀ :: bs := fun hb => h ⟨_, hc, hb⟩
    have hall : (b₀ :: bs).filter (· ≠ b) = b₀ :: bs :=
      filter_eq_self.mpr fun b' hb' => decide_eq_true (ne_of_mem_of_not_mem hb' hb)
    simp only [hall, if_neg hb, set_eq_self hc]

inductive MapOp (K : Type) where
  | insert (key : K) (b : Nat)
  | pop (key : K) (b : Nat)

def MapOp.next : MapOp K → BlockHashToBlockMap K → BlockHashToBlockMap K
  | insert key b, m => m.insert key b
  | pop key b, m => (m.pop key b).2

/-- What a call does to the relation between the keys and their blocks. -/
def MapOp.spec : MapOp K → Finset (K × Nat) → Finset (K × Nat)
  | insert key b, R => Insert.insert (key, b) R
  | pop key b, R => R.erase (key, b)

def Represents (m : BlockHashToBlockMap K) (R : Finset (K × Nat)) : Prop :=
  ∀ key b, m.Holds key b ↔ (key, b) ∈ R

theorem Represents.step {R : Finset (K × Nat)} (h : m.Represents R) (op : MapOp K) :
    (op.next m).Represents (op.spec R) := by
  intro key' b'
  cases op with
  | insert key b => simp [MapOp.next, MapOp.spec, holds_insert, h key' b', or_comm]
  | pop key b => simp [MapOp.next, MapOp.spec, holds_pop, h key' b', and_comm]

theorem Represents.run {R : Finset (K × Nat)} (h : m.Represents R) (ops : List (MapOp K)) :
    (ops.foldl (fun m op => op.next m) m).Represents (ops.foldl (fun R op => op.spec R) R) := by
  induction ops generalizing m R with
  | nil => exact h
  | cons op ops ih => exact ih (h.step op)

theorem Represents.size {R : Finset (K × Nat)} (h : m.Represents R) :
    m.cache.size = (R.image Prod.fst).card := by
  have hkeys : R.image Prod.fst = m.cache.keys.toFinset := by
    ext key
    simp [← exists_holds, h key]
  rw [hkeys, toFinset_card_of_nodup m.cache.keys_nodup, length_keys]

/-- After any calls the map is the relation that the calls build. -/
theorem relation_of_calls (ops : List (MapOp K)) :
    let m := ops.foldl (fun m op => op.next m) ({ } : BlockHashToBlockMap K)
    let R := ops.foldl (fun R op => op.spec R) ∅
    m.Represents R ∧ (∀ key b, m.getOneBlock key = some b → (key, b) ∈ R) ∧
      (∀ key, m.getOneBlock key = none ↔ ∀ b, (key, b) ∉ R) ∧
      (∀ key b, (key, b) ∈ R →
        (m.pop key b).1 = some b ∧ (m.pop key b).2.Represents (R.erase (key, b))) ∧
      (∀ key b, (key, b) ∉ R → m.pop key b = (none, m)) ∧
      m.cache.size = (R.image Prod.fst).card := by
  intro m R
  have h : m.Represents R := Represents.run (fun key b => by simp) ops
  refine ⟨h, fun key b hb => ?_, fun key => ?_, fun key b hb => ⟨?_, ?_⟩, fun key b hb => ?_, h.size⟩
  · exact (h key b).mp (holds_of_getOneBlock hb)
  · rw [← Option.not_isSome_iff_eq_none, getOneBlock_isSome, ← exists_holds, not_exists]
    exact forall_congr' fun b => not_congr (h key b)
  · exact pop_fst ((h key b).mpr hb)
  · exact h.step (.pop key b)
  · exact pop_of_not_holds (mt (h key b).mp hb)

end BlockHashToBlockMap

/-! ## The pool -/

/-- `FreeKVCacheBlockQueue`: the linked ids and the counter kept beside them. -/
structure FreeKVCacheBlockQueue where
  order : List Nat
  numFreeBlocks : Int
deriving DecidableEq, Repr

structure BlockPool (K : Type) where
  numGpuBlocks : Nat
  enableCaching : Bool
  blocks : Nat → KVCacheBlock K
  freeBlockQueue : FreeKVCacheBlockQueue
  cachedBlockHashToBlock : BlockHashToBlockMap K

/-- `BlockPool.__init__`: block 0 is popped off the queue and becomes the null block. -/
def BlockPool.new {K : Type} (numGpuBlocks : Nat) (enableCaching : Bool) : BlockPool K where
  numGpuBlocks := numGpuBlocks
  enableCaching := enableCaching
  blocks := fun b => { isNull := b == 0 }
  freeBlockQueue := ⟨List.range' 1 (numGpuBlocks - 1), numGpuBlocks - 1⟩
  cachedBlockHashToBlock := { }

/-- The callbacks registered on a pool. They act on the state `α` of whoever registered them; the
victim selector also works on the pool. -/
structure Hooks (K α : Type) where
  onAllocation : List Nat → Call PyError α Unit
  onPrefixAdded : Nat → α → α
  onPrefixRemoved : Nat → α → α
  kvVictimSelector : Option (Nat → Call PyError (BlockPool K × α) (List Nat))

def Hooks.none {K α : Type} : Hooks K α where
  onAllocation := fun _ => pure ()
  onPrefixAdded := fun _ => id
  onPrefixRemoved := fun _ => id
  kvVictimSelector := Option.none

abbrev PoolCall (K α β : Type) := Call PyError (BlockPool K × α) β

namespace BlockPool
variable {K α : Type}

def refCnt (p : BlockPool K) (b : Nat) : Int := (p.blocks b).refCnt
def hash (p : BlockPool K) (b : Nat) : Option K := (p.blocks b).blockHash
def isNull (p : BlockPool K) (b : Nat) : Bool := (p.blocks b).isNull
def free (p : BlockPool K) : List Nat := p.freeBlockQueue.order

def setRefCnt (p : BlockPool K) (b : Nat) (n : Int) : BlockPool K :=
  { p with blocks := Function.update p.blocks b { p.blocks b with refCnt := n } }

def setHash (p : BlockPool K) (b : Nat) (h : Option K) : BlockPool K :=
  { p with blocks := Function.update p.blocks b { p.blocks b with blockHash := h } }

def setCache (p : BlockPool K) (m : BlockHashToBlockMap K) : BlockPool K :=
  { p with cachedBlockHashToBlock := m }

def setFree (p : BlockPool K) (order : List Nat) (n : Int) : BlockPool K :=
  { p with freeBlockQueue := ⟨order, n⟩ }

def getNumFreeBlocks (p : BlockPool K) : Int := p.freeBlockQueue.numFreeBlocks

/-! ### What the updates change -/

section
variable (p : BlockPool K) (b b' : Nat) (n : Int) (h : Option K) (m : BlockHashToBlockMap K)
  (l : List Nat)

@[simp] theorem refCnt_setRefCnt :
    (p.setRefCnt b n).refCnt b' = if b' = b then n else p.refCnt b' := by
  by_cases hb : b' = b <;> simp [setRefCnt, refCnt, hb]
@[simp] theorem hash_setRefCnt : (p.setRefCnt b n).hash b' = p.hash b' := by
  by_cases hb : b' = b <;> simp [setRefCnt, hash, hb]
@[simp] theorem isNull_setRefCnt : (p.setRefCnt b n).isNull b' = p.isNull b' := by
  by_cases hb : b' = b <;> simp [setRefCnt, isNull, hb]
@[simp] theorem free_setRefCnt : (p.setRefCnt b n).free = p.free := rfl
@[simp] theorem numGpuBlocks_setRefCnt : (p.setRefCnt b n).numGpuBlocks = p.numGpuBlocks := rfl
@[simp] theorem getNumFreeBlocks_setRefCnt :
    (p.setRefCnt b n).getNumFreeBlocks = p.getNumFreeBlocks := rfl
@[simp] theorem cached_setRefCnt :
    (p.setRefCnt b n).cachedBlockHashToBlock = p.cachedBlockHashToBlock := rfl
@[simp] theorem enableCaching_setRefCnt : (p.setRefCnt b n).enableCaching = p.enableCaching := rfl

@[simp] theorem refCnt_setHash : (p.setHash b h).refCnt b' = p.refCnt b' := by
  by_cases hb : b' = b <;> simp [setHash, refCnt, hb]
@[simp] theorem hash_setHash : (p.setHash b h).hash b' = if b' = b then h else p.hash b' := by
  by_cases hb : b' = b <;> simp [setHash, hash, hb]
@[simp] theorem isNull_setHash : (p.setHash b h).isNull b' = p.isNull b' := by
  by_cases hb : b' = b <;> simp [setHash, isNull, hb]
@[simp] theorem free_setHash : (p.setHash b h).free = p.free := rfl
@[simp] theorem numGpuBlocks_setHash : (p.setHash b h).numGpuBlocks = p.numGpuBlocks := rfl
@[simp] theorem getNumFreeBlocks_setHash :
    (p.setHash b h).getNumFreeBlocks = p.getNumFreeBlocks := rfl
@[simp] theorem cached_setHash :
    (p.setHash b h).cachedBlockHashToBlock = p.cachedBlockHashToBlock := rfl
@[simp] theorem enableCaching_setHash : (p.setHash b h).enableCaching = p.enableCaching := rfl

@[simp] theorem refCnt_setCache : (p.setCache m).refCnt b' = p.refCnt b' := rfl
@[simp] theorem hash_setCache : (p.setCache m).hash b' = p.hash b' := rfl
@[simp] theorem isNull_setCache : (p.setCache m).isNull b' = p.isNull b' := rfl
@[simp] theorem free_setCache : (p.setCache m).free = p.free := rfl
@[simp] theorem numGpuBlocks_setCache : (p.setCache m).numGpuBlocks = p.numGpuBlocks := rfl
@[simp] theorem getNumFreeBlocks_setCache :
    (p.setCache m).getNumFreeBlocks = p.getNumFreeBlocks := rfl
@[simp] theorem cached_setCache : (p.setCache m).cachedBlockHashToBlock = m := rfl
@[simp] theorem enableCaching_setCache : (p.setCache m).enableCaching = p.enableCaching := rfl

@[simp] theorem refCnt_setFree : (p.setFree l n).refCnt b' = p.refCnt b' := rfl
@[simp] theorem hash_setFree : (p.setFree l n).hash b' = p.hash b' := rfl
@[simp] theorem isNull_setFree : (p.setFree l n).isNull b' = p.isNull b' := rfl
@[simp] theorem free_setFree : (p.setFree l n).free = l := rfl
@[simp] theorem numGpuBlocks_setFree : (p.setFree l n).numGpuBlocks = p.numGpuBlocks := rfl
@[simp] theorem getNumFreeBlocks_setFree : (p.setFree l n).getNumFreeBlocks = n := rfl
@[simp] theorem cached_setFree :
    (p.setFree l n).cachedBlockHashToBlock = p.cachedBlockHashToBlock := rfl
@[simp] theorem enableCaching_setFree : (p.setFree l n).enableCaching = p.enableCaching := rfl

end

/-! ### The operations -/

variable [DecidableEq K]

def modifyPool (f : BlockPool K → BlockPool K) : PoolCall K α Unit :=
  Call.modify fun s => (f s.1, s.2)

/-- `free_block_queue.remove(block)`: a block that is not linked is refused. -/
def removeFree (b : Nat) : PoolCall K α Unit := fun s =>
  if b ∈ s.1.free then
    (.ok (), (s.1.setFree (s.1.free.erase b) (s.1.getNumFreeBlocks - 1), s.2))
  else (.error (.runtimeError s!"remove() called on an invalid block: {b}"), s)

def popleftN (n : Nat) : PoolCall K α (List Nat) := fun s =>
  if n = 0 then (.ok [], s)
  else if s.1.getNumFreeBlocks < n ∨ s.1.free.length < n then (.error (.assertionError ""), s)
  else (.ok (s.1.free.take n), (s.1.setFree (s.1.free.drop n) (s.1.getNumFreeBlocks - n), s.2))

def appendFree (p : BlockPool K) (bs : List Nat) : BlockPool K :=
  p.setFree (p.free ++ bs) (p.getNumFreeBlocks + bs.length)

def unpublish (p : BlockPool K) (b : Nat) (key : K) : BlockPool K :=
  (p.setCache (p.cachedBlockHashToBlock.pop key b).2).setHash b none

def publish (p : BlockPool K) (b : Nat) (key : K) : BlockPool K :=
  (p.setCache (p.cachedBlockHashToBlock.insert key b)).setHash b (some key)

def dropHash? (p : BlockPool K) (b : Nat) : Option (BlockPool K) :=
  match p.hash b with
  | none => none
  | some key =>
    match (p.cachedBlockHashToBlock.pop key b).1 with
    | none => none
    | some _ => some (p.unpublish b key)

def maybeEvictCachedBlock (hk : Hooks K α) (b : Nat) : PoolCall K α Bool := fun s =>
  match s.1.dropHash? b with
  | none => (.ok false, s)
  | some p => (.ok true, (p, hk.onPrefixRemoved b s.2))

def evictIfCaching (hk : Hooks K α) (b : Nat) : PoolCall K α Unit := do
  let s ← Call.get
  if s.1.enableCaching then
    let _ ← maybeEvictCachedBlock hk b

def allocateOne (hk : Hooks K α) (b : Nat) : PoolCall K α Unit := do
  evictIfCaching hk b
  let s ← Call.get
  Call.check (s.1.refCnt b = 0) (.assertionError "")
  modifyPool fun p => p.setRefCnt b (p.refCnt b + 1)

def getNewBlocks (hk : Hooks K α) (numBlocks : Nat) : PoolCall K α (List Nat) := do
  let s ← Call.get
  Call.check (numBlocks ≤ s.1.getNumFreeBlocks)
    (.valueError s!"Cannot get {numBlocks} free blocks from the pool")
  let ret ← match hk.kvVictimSelector with
    | some selector => selector numBlocks
    | none => popleftN numBlocks
  Call.forEach ret (allocateOne hk)
  (hk.onAllocation ret).zoom Prod.snd fun a s => (s.1, a)
  return ret

def leaveFree (hk : Hooks K α) (b : Nat) : PoolCall K α Unit := do
  let s ← Call.get
  if s.1.refCnt b = 0 ∧ s.1.isNull b = false then
    removeFree b
    if (s.1.hash b).isSome then
      Call.modify fun s => (s.1, hk.onPrefixRemoved b s.2)

def touchOne (hk : Hooks K α) (b : Nat) : PoolCall K α Unit := do
  leaveFree hk b
  modifyPool fun p => p.setRefCnt b (p.refCnt b + 1)

def touch (hk : Hooks K α) (blocks : List Nat) : PoolCall K α Unit :=
  Call.forEach blocks (touchOne hk)

def decRefCnt (p : BlockPool K) (b : Nat) : BlockPool K := p.setRefCnt b (p.refCnt b - 1)

def freeBlocks (hk : Hooks K α) (orderedBlocks : List Nat) : PoolCall K α Unit := do
  modifyPool fun p => orderedBlocks.foldl decRefCnt p
  let s ← Call.get
  let newlyFreed := orderedBlocks.filter fun b => s.1.refCnt b = 0 ∧ s.1.isNull b = false
  modifyPool fun p => p.appendFree newlyFreed
  Call.modify fun s => (s.1, newlyFreed.foldl
    (fun a b => if (s.1.hash b).isSome then hk.onPrefixAdded b a else a) s.2)

/-- The body of the loop of `cache_full_blocks`: publishes block `b` under `key`, which is missing
when `new_block_hashes` is too short. -/
def cacheOne (b : Nat) (key : Option K) : PoolCall K α Unit := do
  let s ← Call.get
  if s.1.isNull b then return ()
  Call.check (s.1.hash b).isNone (.assertionError "")
  match key with
  | none => Call.raise .indexError
  | some key => modifyPool fun p => p.publish b key

/-- `cache_full_blocks` for a request with `numBlockHashes` hashes, whose blocks are `blocks` and
whose cache keys, at the size of a block and with the group id, are `keys`. -/
def cacheFullBlocks (numBlockHashes : Nat) (keys : List K) (blocks : List Nat)
    (numCachedBlocks numFullBlocks : Nat) : PoolCall K α Unit :=
  if numCachedBlocks ≥ numFullBlocks then return ()
  else do
    let newFullBlocks := (blocks.take numFullBlocks).drop numCachedBlocks
    Call.check (numBlockHashes ≥ numFullBlocks) (.assertionError "")
    Call.forEach newFullBlocks.zipIdx fun (b, i) => cacheOne b keys[numCachedBlocks + i]?

def evictPrefixHash (hk : Hooks K α) (b : Nat) : PoolCall K α Bool := do
  let s ← Call.get
  Call.check (b < s.1.numGpuBlocks) .indexError
  maybeEvictCachedBlock hk b

def relocatePrefixHash (src dst : Nat) : PoolCall K α Bool := do
  let s ← Call.get
  Call.check (src < s.1.numGpuBlocks ∧ dst < s.1.numGpuBlocks) .indexError
  match s.1.hash src with
  | none => return false
  | some key =>
    Call.check (s.1.hash dst).isNone
      (.assertionError s!"relocate_prefix_hash: dst block {dst} already has a hash")
    Call.check (s.1.refCnt src = 0)
      (.assertionError (s!"relocate_prefix_hash: src block {src} is live "
        ++ s!"(ref_cnt={s.1.refCnt src}); only free cached prefixes may move"))
    match (s.1.cachedBlockHashToBlock.pop key src).1 with
    | none => Call.raise (.assertionError
        (s!"relocate_prefix_hash: cache map entry for block {src} "
          ++ "is missing or does not match"))
    | some _ =>
      modifyPool fun p => (p.unpublish src key).publish dst key
      return true

def evictBlocks (hk : Hooks K α) (blockIds : List Nat) : PoolCall K α Unit :=
  Call.forEach blockIds fun b => do
    let s ← Call.get
    Call.check (b < s.1.numGpuBlocks) (.assertionError
      (s!"Invalid block_id {b} >= {s.1.numGpuBlocks}. "
        ++ "This indicates a bug in the KV connector - workers should "
        ++ "only report block IDs that were allocated by the scheduler."))
    let _ ← maybeEvictCachedBlock hk b

def resetHashes (p : BlockPool K) : BlockPool K :=
  { p with
    blocks := fun b => { p.blocks b with blockHash := none }
    cachedBlockHashToBlock := { } }

def resetPrefixCache : PoolCall K α Bool := do
  let s ← Call.get
  let numUsedBlocks := s.1.numGpuBlocks - s.1.getNumFreeBlocks
  if numUsedBlocks ≠ 1 then return false
  else
    modifyPool resetHashes
    return true

def getCachedBlock (p : BlockPool K) (keys : List K) : Option (List Nat) :=
  keys.mapM p.cachedBlockHashToBlock.getOneBlock

/-! ### The invariant of a pool -/

structure Inv (p : BlockPool K) : Prop where
  free_nodup : p.free.Nodup
  free_spec : ∀ b ∈ p.free, b < p.numGpuBlocks ∧ p.refCnt b = 0 ∧ b ≠ 0
  count : p.getNumFreeBlocks = p.free.length
  null_iff : ∀ b, p.isNull b = true ↔ b = 0
  ref_nonneg : ∀ b, b ≠ 0 → 0 ≤ p.refCnt b
  hash_iff : ∀ b key, p.hash b = some key ↔ p.cachedBlockHashToBlock.Holds key b
  hash_lt : ∀ b, p.hash b ≠ none → b < p.numGpuBlocks ∧ b ≠ 0

theorem inv_new {n : Nat} (hn : 0 < n) (caching : Bool) : (new n caching : BlockPool K).Inv := by
  refine ⟨nodup_range', ?_, ?_, by simp [new, isNull], ?_, ?_, ?_⟩
  · intro b hb
    have := mem_range'_1.mp hb
    exact ⟨by simp only [new]; omega, rfl, by omega⟩
  · simp only [new, getNumFreeBlocks, free, length_range']
    omega
  · intro b _
    exact Int.le_refl 0
  · intro b key
    simp [new, hash]
  · intro b hb
    exact absurd rfl hb

namespace Inv
variable {p : BlockPool K} {b : Nat}

section
variable (h : p.Inv)
include h

theorem isNull_eq_false_iff : p.isNull b = false ↔ b ≠ 0 := by
  rw [ne_eq, ← h.null_iff, Bool.not_eq_true]

theorem setRefCnt {n : Int} (hb : b ∉ p.free) (hn : b ≠ 0 → 0 ≤ n) : (p.setRefCnt b n).Inv := by
  refine ⟨h.free_nodup, fun c hc => ?_, h.count, by simpa using h.null_iff, fun c hc => ?_,
    by simpa using h.hash_iff, by simpa using h.hash_lt⟩
  · have hcb : c ≠ b := fun e => hb (e ▸ hc)
    simpa [hcb] using h.free_spec c hc
  · by_cases hcb : c = b
    · simpa [hcb] using hn (hcb ▸ hc)
    · simpa [hcb] using h.ref_nonneg c hc

theorem removeFree (hb : b ∈ p.free) :
    (p.setFree (p.free.erase b) (p.getNumFreeBlocks - 1)).Inv := by
  refine ⟨h.free_nodup.erase b, fun c hc => ?_, ?_, h.null_iff, h.ref_nonneg, h.hash_iff,
    h.hash_lt⟩
  · exact h.free_spec c (mem_of_mem_erase hc)
  · have hlen := length_pos_of_mem hb
    simp only [getNumFreeBlocks_setFree, free_setFree, length_erase_of_mem hb, h.count]
    omega

theorem popleftN {n : Nat} (hn : n ≤ p.free.length) :
    (p.setFree (p.free.drop n) (p.getNumFreeBlocks - n)).Inv := by
  refine ⟨h.free_nodup.sublist (drop_sublist n _), fun c hc => ?_, ?_, h.null_iff,
    h.ref_nonneg, h.hash_iff, h.hash_lt⟩
  · exact h.free_spec c (mem_of_mem_drop hc)
  · simp only [getNumFreeBlocks_setFree, free_setFree, length_drop, h.count]
    omega

theorem appendFree {bs : List Nat} (hnd : bs.Nodup)
    (hbs : ∀ b ∈ bs, b ∉ p.free ∧ b < p.numGpuBlocks ∧ p.refCnt b = 0 ∧ b ≠ 0) :
    (p.appendFree bs).Inv := by
  refine ⟨?_, fun c hc => ?_, ?_, h.null_iff, h.ref_nonneg, h.hash_iff, h.hash_lt⟩
  · refine nodup_append.mpr ⟨h.free_nodup, hnd, ?_⟩
    rintro a ha c hc rfl
    exact (hbs a hc).1 ha
  · rcases mem_append.mp hc with hc | hc
    · exact h.free_spec c hc
    · exact (hbs c hc).2
  · simp only [BlockPool.appendFree, getNumFreeBlocks_setFree, free_setFree, length_append, h.count]
    omega

theorem unpublish {key : K} (hb : p.hash b = some key) : (p.unpublish b key).Inv := by
  refine ⟨h.free_nodup, by simpa [BlockPool.unpublish] using h.free_spec, h.count,
    by simpa [BlockPool.unpublish] using h.null_iff,
    by simpa [BlockPool.unpublish] using h.ref_nonneg, fun c key' => ?_, fun c hc => ?_⟩
  · simp only [BlockPool.unpublish, hash_setHash, hash_setCache, cached_setHash, cached_setCache,
      BlockHashToBlockMap.holds_pop]
    by_cases hcb : c = b
    · subst hcb
      simp only [if_true, reduceCtorEq, false_iff, not_and, and_true, ← h.hash_iff, hb]
      exact fun hk hne => hne (Option.some.inj hk).symm
    · simp [hcb, h.hash_iff]
  · simp only [BlockPool.unpublish] at hc
    by_cases hcb : c = b
    · simp [hcb] at hc
    · exact h.hash_lt c (by simpa [hcb] using hc)

theorem publish {key : K} (hb : p.hash b = none) (hlt : b < p.numGpuBlocks)
    (h0 : b ≠ 0) : (p.publish b key).Inv := by
  refine ⟨h.free_nodup, by simpa [BlockPool.publish] using h.free_spec, h.count,
    by simpa [BlockPool.publish] using h.null_iff,
    by simpa [BlockPool.publish] using h.ref_nonneg, fun c key' => ?_, fun c hc => ?_⟩
  · simp only [BlockPool.publish, hash_setHash, hash_setCache, cached_setHash, cached_setCache,
      BlockHashToBlockMap.holds_insert, ← h.hash_iff]
    by_cases hcb : c = b
    · subst hcb
      simp [hb, eq_comm]
    · simp [hcb]
  · simp only [BlockPool.publish] at hc
    by_cases hcb : c = b
    · subst hcb
      exact ⟨hlt, h0⟩
    · exact h.hash_lt c (by simpa [hcb] using hc)

theorem resetHashes : p.resetHashes.Inv := by
  refine ⟨h.free_nodup, h.free_spec, h.count, h.null_iff, h.ref_nonneg, fun c key => ?_,
    fun c hc => absurd rfl hc⟩
  simp [BlockPool.resetHashes, hash]

theorem dropHash?_eq (b : Nat) : p.dropHash? b = (p.hash b).map (p.unpublish b) := by
  unfold dropHash?
  cases hb : p.hash b with
  | none => rfl
  | some key => simp [BlockHashToBlockMap.pop_fst ((h.hash_iff b key).mp hb)]

end

end Inv

/-! ### Freeing -/

section
variable (p : BlockPool K) (bs : List Nat)

theorem refCnt_foldl_decRefCnt (c : Nat) :
    (bs.foldl decRefCnt p).refCnt c = p.refCnt c - bs.count c := by
  induction bs generalizing p with
  | nil => simp
  | cons b bs ih =>
    rw [foldl_cons, ih, decRefCnt, refCnt_setRefCnt, count_cons]
    by_cases hc : c = b
    · subst hc
      simp only [if_true, beq_self_eq_true]
      omega
    · have hbc : ¬ b = c := fun e => hc e.symm
      simp [hc, hbc]

theorem foldl_decRefCnt_frame :
    (∀ c, (bs.foldl decRefCnt p).hash c = p.hash c) ∧
      (∀ c, (bs.foldl decRefCnt p).isNull c = p.isNull c) ∧
      (bs.foldl decRefCnt p).freeBlockQueue = p.freeBlockQueue ∧
      (bs.foldl decRefCnt p).numGpuBlocks = p.numGpuBlocks ∧
      (bs.foldl decRefCnt p).enableCaching = p.enableCaching ∧
      (bs.foldl decRefCnt p).cachedBlockHashToBlock = p.cachedBlockHashToBlock := by
  induction bs generalizing p with
  | nil => simp
  | cons b bs ih =>
    obtain ⟨hhash, hnull, hfree, hnum, hen, hcache⟩ := ih (p.decRefCnt b)
    exact ⟨fun c => (hhash c).trans (hash_setRefCnt ..),
      fun c => (hnull c).trans (isNull_setRefCnt ..), hfree, hnum, hen, hcache⟩

def newlyFreed : List Nat :=
  bs.filter fun b => (bs.foldl decRefCnt p).refCnt b = 0 ∧
    (bs.foldl decRefCnt p).isNull b = false

def freed : BlockPool K := (bs.foldl decRefCnt p).appendFree (p.newlyFreed bs)

theorem freeBlocks_eq (hk : Hooks K α) (a : α) :
    freeBlocks hk bs (p, a) = (.ok (), (p.freed bs, (p.newlyFreed bs).foldl
      (fun a b => if ((p.freed bs).hash b).isSome then hk.onPrefixAdded b a else a) a)) := rfl

theorem refCnt_freed (c : Nat) : (p.freed bs).refCnt c = p.refCnt c - bs.count c :=
  refCnt_foldl_decRefCnt p bs c

theorem hash_freed (c : Nat) : (p.freed bs).hash c = p.hash c := (foldl_decRefCnt_frame p bs).1 c

theorem free_freed : (p.freed bs).free = p.free ++ p.newlyFreed bs := by
  rw [freed, appendFree, free_setFree, free, (foldl_decRefCnt_frame p bs).2.2.1, free]

@[simp] theorem freed_nil (p : BlockPool K) : p.freed [] = p := by
  simp [freed, newlyFreed, appendFree, setFree, free, getNumFreeBlocks]

/-- What `free_blocks` may be given: the null block, and live blocks at most once each. -/
structure Freeable : Prop where
  live : ∀ b ∈ bs, b ≠ 0 → b < p.numGpuBlocks ∧ 0 < p.refCnt b
  once : ∀ b ∈ bs, b ≠ 0 → bs.count b = 1

instance : Decidable (p.Freeable bs) :=
  decidable_of_iff (_ ∧ _) ⟨fun h => ⟨h.1, h.2⟩, fun h => ⟨h.live, h.once⟩⟩

variable {p bs}

section
variable (h : p.Inv) (hb : p.Freeable bs)
include h hb

theorem Inv.mem_newlyFreed {b : Nat} : b ∈ p.newlyFreed bs ↔ b ∈ bs ∧ b ≠ 0 ∧ p.refCnt b = 1 := by
  simp only [newlyFreed, mem_filter, decide_eq_true_eq, refCnt_foldl_decRefCnt,
    (foldl_decRefCnt_frame p bs).2.1, h.isNull_eq_false_iff]
  constructor
  · rintro ⟨hm, hr, h0⟩
    rw [hb.once b hm h0] at hr
    exact ⟨hm, h0, by omega⟩
  · rintro ⟨hm, h0, hr⟩
    rw [hb.once b hm h0, hr]
    exact ⟨hm, rfl, h0⟩

theorem Inv.nodup_newlyFreed : (p.newlyFreed bs).Nodup := by
  refine nodup_iff_count_le_one.mpr fun b => ?_
  by_cases hm : b ∈ p.newlyFreed bs
  · have hmem := (h.mem_newlyFreed hb).mp hm
    calc (p.newlyFreed bs).count b ≤ bs.count b := filter_sublist.count_le b
      _ = 1 := hb.once b hmem.1 hmem.2.1
      _ ≤ 1 := Nat.le_refl 1
  · simp [count_eq_zero_of_not_mem hm]

theorem Inv.foldl_decRefCnt : (bs.foldl decRefCnt p).Inv := by
  obtain ⟨hhash, hnull, hqueue, hnum, -, hcache⟩ := foldl_decRefCnt_frame p bs
  have hfree : (bs.foldl decRefCnt p).free = p.free := by rw [free, hqueue, free]
  refine ⟨hfree ▸ h.free_nodup, fun c hc => ?_, ?_, fun c => hnull c ▸ h.null_iff c, fun c hc => ?_,
    fun c key => hhash c ▸ hcache ▸ h.hash_iff c key, fun c hc => hnum ▸ h.hash_lt c (hhash c ▸ hc)⟩
  · have hspec := h.free_spec c (hfree ▸ hc)
    have hcount : bs.count c = 0 := count_eq_zero.mpr fun hm => by
      have := (hb.live c hm hspec.2.2).2
      omega
    rw [hnum, refCnt_foldl_decRefCnt, hspec.2.1, hcount]
    exact ⟨hspec.1, rfl, hspec.2.2⟩
  · rw [hfree, getNumFreeBlocks, hqueue]
    exact h.count
  · rw [refCnt_foldl_decRefCnt]
    by_cases hm : c ∈ bs
    · have := (hb.live c hm hc).2
      have := hb.once c hm hc
      omega
    · rw [count_eq_zero_of_not_mem hm]
      simpa using h.ref_nonneg c hc

theorem Inv.freed : (p.freed bs).Inv := by
  refine (h.foldl_decRefCnt hb).appendFree (h.nodup_newlyFreed hb) fun b hm => ?_
  obtain ⟨hmem, h0, hr⟩ := (h.mem_newlyFreed hb).mp hm
  obtain ⟨-, -, hqueue, hnum, -⟩ := foldl_decRefCnt_frame p bs
  have hlive := hb.live b hmem h0
  refine ⟨fun hf => ?_, hnum ▸ hlive.1, ?_, h0⟩
  · have := (h.free_spec b (by simpa only [BlockPool.free, hqueue] using hf)).2.1
    omega
  · rw [refCnt_foldl_decRefCnt, hb.once b hmem h0, hr]
    rfl

end

end
end BlockPool
end Vllm
