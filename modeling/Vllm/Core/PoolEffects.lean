import Vllm.Core.BlockPool

/-! What the calls of a pool on which nothing is registered return and leave behind, in closed form:
`touched` after `touch` and `handedOut` after `get_new_blocks`. -/

set_option linter.unusedSectionVars false

namespace Vllm.BlockPool
open Base Call List
variable {K α : Type} [DecidableEq K] {p : BlockPool K}

/-! ### Touching -/

def touchedOne (p : BlockPool K) (b : Nat) : BlockPool K :=
  (if p.refCnt b = 0 ∧ p.isNull b = false then
      p.setFree (p.free.erase b) (p.getNumFreeBlocks - 1)
    else p).setRefCnt b (p.refCnt b + 1)

def touched (p : BlockPool K) (bs : List Nat) : BlockPool K := bs.foldl touchedOne p

def Touchable (p : BlockPool K) (bs : List Nat) : Prop :=
  ∀ b ∈ bs, b < p.numGpuBlocks ∧ (b ≠ 0 → p.refCnt b = 0 → b ∈ p.free)

section
variable (p : BlockPool K) (b c : Nat)

@[simp] theorem refCnt_touchedOne :
    (p.touchedOne b).refCnt c = p.refCnt c + if c = b then 1 else 0 := by
  unfold touchedOne
  by_cases hc : c = b
  · subst hc
    split <;> simp
  · split <;> simp [hc]

@[simp] theorem hash_touchedOne : (p.touchedOne b).hash c = p.hash c := by
  unfold touchedOne
  split <;> simp

@[simp] theorem isNull_touchedOne : (p.touchedOne b).isNull c = p.isNull c := by
  unfold touchedOne
  split <;> simp

@[simp] theorem numGpuBlocks_touchedOne : (p.touchedOne b).numGpuBlocks = p.numGpuBlocks := by
  unfold touchedOne
  split <;> simp

@[simp] theorem enableCaching_touchedOne : (p.touchedOne b).enableCaching = p.enableCaching := by
  unfold touchedOne
  split <;> simp

end

theorem Inv.free_touchedOne (h : p.Inv) (b : Nat) :
    (p.touchedOne b).free = p.free.filter (· ≠ b) := by
  have herase : p.free.erase b = p.free.filter (· ≠ b) := by
    rw [h.free_nodup.erase_eq_filter]
    exact filter_congr fun c _ => (decide_not ..).symm
  unfold touchedOne
  split
  · simpa using herase
  · next hb =>
    rw [h.isNull_eq_false_iff] at hb
    have hmem : b ∉ p.free := fun hm => hb ⟨(h.free_spec b hm).2.1, (h.free_spec b hm).2.2⟩
    rw [free_setRefCnt, ← herase, List.erase_of_not_mem hmem]

variable {b n : Nat} {bs : List Nat}

theorem Inv.touchedOne (h : p.Inv) (hb : b ≠ 0 → p.refCnt b = 0 → b ∈ p.free) :
    (p.touchedOne b).Inv := by
  unfold BlockPool.touchedOne
  have hn : b ≠ 0 → 0 ≤ p.refCnt b + 1 := fun h0 => by
    have := h.ref_nonneg b h0
    omega
  split
  · next hz =>
    rw [h.isNull_eq_false_iff] at hz
    exact (h.removeFree (hb hz.2 hz.1)).setRefCnt (h.free_nodup.not_mem_erase) hn
  · next hz =>
    rw [h.isNull_eq_false_iff] at hz
    exact h.setRefCnt (fun hm => hz ⟨(h.free_spec b hm).2.1, (h.free_spec b hm).2.2⟩) hn

theorem Inv.touchOne_eq (h : p.Inv) (hb : b ≠ 0 → p.refCnt b = 0 → b ∈ p.free) (a : α) :
    touchOne Hooks.none b (p, a) = (.ok (), (p.touchedOne b, a)) := by
  unfold touchOne leaveFree BlockPool.touchedOne
  by_cases hz : p.refCnt b = 0 ∧ p.isNull b = false
  · have hm := hb (h.isNull_eq_false_iff.mp hz.2) hz.1
    by_cases hs : (p.hash b).isSome <;>
      simp [run_bind, Call.get, Call.modify, modifyPool, BlockPool.removeFree, hz, hm, hs,
        Hooks.none]
  · simp [modifyPool, hz]

theorem Touchable.touchedOne (h : p.Inv) (hb : p.Touchable (b :: bs)) :
    (p.touchedOne b).Touchable bs := by
  intro c hc
  obtain ⟨hlt, hfree⟩ := hb c (mem_cons_of_mem _ hc)
  refine ⟨by simpa using hlt, fun h0 hr => ?_⟩
  have hnn := h.ref_nonneg c h0
  by_cases hcb : c = b
  · simp [hcb] at hr
    rw [hcb] at hnn
    omega
  · rw [h.free_touchedOne]
    simpa [hcb] using hfree h0 (by simpa [hcb] using hr)

theorem Inv.touch_eq (h : p.Inv) (hb : p.Touchable bs) (a : α) :
    touch Hooks.none bs (p, a) = (.ok (), (p.touched bs, a)) := by
  induction bs generalizing p with
  | nil => rfl
  | cons b bs ih =>
    have hhead := (hb b (mem_cons_self ..)).2
    have htail := ih (h.touchedOne hhead) (hb.touchedOne h)
    rw [touch, Call.forEach, run_bind, h.touchOne_eq hhead]
    exact htail

theorem Inv.touched (h : p.Inv) (hb : p.Touchable bs) : (p.touched bs).Inv := by
  induction bs generalizing p with
  | nil => exact h
  | cons b bs ih =>
    exact ih (h.touchedOne (hb b (mem_cons_self ..)).2) (hb.touchedOne h)

theorem Inv.free_touched (h : p.Inv) (hb : p.Touchable bs) :
    (p.touched bs).free = p.free.filter (· ∉ bs) := by
  induction bs generalizing p with
  | nil => simp [BlockPool.touched]
  | cons b bs ih =>
    have := ih (h.touchedOne (hb b (mem_cons_self ..)).2) (hb.touchedOne h)
    rw [BlockPool.touched, foldl_cons, ← BlockPool.touched, this, h.free_touchedOne, filter_filter]
    exact filter_congr fun c _ => by simp [Bool.and_comm]

section
variable (p : BlockPool K) (bs : List Nat) (c : Nat)

theorem refCnt_touched : (p.touched bs).refCnt c = p.refCnt c + bs.count c := by
  induction bs generalizing p with
  | nil => simp [touched]
  | cons b bs ih =>
    rw [touched, foldl_cons, ← touched, ih]
    by_cases hc : c = b
    · simp [hc]
      omega
    · have : ¬ b = c := fun e => hc e.symm
      simp [hc, this]

theorem touched_frame : (∀ c, (p.touched bs).hash c = p.hash c) ∧
    (p.touched bs).numGpuBlocks = p.numGpuBlocks ∧
    (p.touched bs).enableCaching = p.enableCaching := by
  induction bs generalizing p with
  | nil => simp [touched]
  | cons b bs ih =>
    obtain ⟨hhash, hnum, hcache⟩ := ih (p.touchedOne b)
    exact ⟨fun c => (hhash c).trans (hash_touchedOne ..),
      hnum.trans (numGpuBlocks_touchedOne ..), hcache.trans (enableCaching_touchedOne ..)⟩

end

/-! ### Dropping a hash -/

def dropHash (p : BlockPool K) (b : Nat) : BlockPool K := (p.dropHash? b).getD p

theorem maybeEvictCachedBlock_eq (p : BlockPool K) (b : Nat) (a : α) :
    ∃ c, maybeEvictCachedBlock Hooks.none b (p, a) = (.ok c, (p.dropHash b, a)) := by
  unfold maybeEvictCachedBlock dropHash
  rcases hq : p.dropHash? b with _ | q
  · exact ⟨false, rfl⟩
  · exact ⟨true, rfl⟩

section
variable (p : BlockPool K) (b : Nat)

theorem dropHash_cases : p.dropHash b = p ∨ ∃ key, p.dropHash b = p.unpublish b key := by
  unfold dropHash dropHash?
  split
  · exact .inl rfl
  · next key _ =>
    split
    · exact .inl rfl
    · exact .inr ⟨key, rfl⟩

@[simp] theorem refCnt_dropHash (c : Nat) : (p.dropHash b).refCnt c = p.refCnt c := by
  rcases p.dropHash_cases b with h | ⟨key, h⟩ <;> simp [h, unpublish]

@[simp] theorem free_dropHash : (p.dropHash b).free = p.free := by
  rcases p.dropHash_cases b with h | ⟨key, h⟩ <;> simp [h, unpublish]

@[simp] theorem numGpuBlocks_dropHash : (p.dropHash b).numGpuBlocks = p.numGpuBlocks := by
  rcases p.dropHash_cases b with h | ⟨key, h⟩ <;> simp [h, unpublish]

@[simp] theorem enableCaching_dropHash : (p.dropHash b).enableCaching = p.enableCaching := by
  rcases p.dropHash_cases b with h | ⟨key, h⟩ <;> simp [h, unpublish]

end

theorem Inv.hash_dropHash (h : p.Inv) (b c : Nat) :
    (p.dropHash b).hash c = if c = b then none else p.hash c := by
  unfold BlockPool.dropHash
  rw [h.dropHash?_eq]
  cases hb : p.hash b with
  | none =>
    by_cases hc : c = b
    · simp [hc, hb]
    · simp [hc]
  | some key => simp [BlockPool.unpublish]

theorem Inv.dropHash (h : p.Inv) (b : Nat) : (p.dropHash b).Inv := by
  unfold BlockPool.dropHash
  rw [h.dropHash?_eq]
  cases hb : p.hash b with
  | none => exact h
  | some key => exact h.unpublish hb

/-! ### Handing out new blocks -/

def handOutOne (p : BlockPool K) (b : Nat) : BlockPool K :=
  (if p.enableCaching then p.dropHash b else p).setRefCnt b (p.refCnt b + 1)

def handedOut (p : BlockPool K) (n : Nat) : BlockPool K :=
  (p.free.take n).foldl handOutOne (p.setFree (p.free.drop n) (p.getNumFreeBlocks - n))

section
variable (p : BlockPool K) (b c : Nat)

@[simp] theorem refCnt_handOutOne :
    (p.handOutOne b).refCnt c = if c = b then p.refCnt b + 1 else p.refCnt c := by
  unfold handOutOne
  split <;> simp

@[simp] theorem free_handOutOne : (p.handOutOne b).free = p.free := by
  unfold handOutOne
  split <;> simp

@[simp] theorem numGpuBlocks_handOutOne : (p.handOutOne b).numGpuBlocks = p.numGpuBlocks := by
  unfold handOutOne
  split <;> simp

@[simp] theorem enableCaching_handOutOne : (p.handOutOne b).enableCaching = p.enableCaching := by
  unfold handOutOne
  split <;> simp

end

theorem Inv.hash_handOutOne (h : p.Inv) (b c : Nat) : (p.handOutOne b).hash c =
    if p.enableCaching = true ∧ c = b then none else p.hash c := by
  unfold BlockPool.handOutOne
  split
  · next hc => simp [h.hash_dropHash, hc]
  · next hc => simp [hc]

theorem Inv.handOutOne (h : p.Inv) (hb : b ∉ p.free) : (p.handOutOne b).Inv := by
  have hn : b ≠ 0 → 0 ≤ p.refCnt b + 1 := fun h0 => by
    have := h.ref_nonneg b h0
    omega
  unfold BlockPool.handOutOne
  split
  · exact (h.dropHash b).setRefCnt (by simpa using hb) hn
  · exact h.setRefCnt hb hn

theorem allocateOne_eq (hb : p.refCnt b = 0) (a : α) :
    allocateOne Hooks.none b (p, a) = (.ok (), (p.handOutOne b, a)) := by
  unfold allocateOne evictIfCaching BlockPool.handOutOne
  obtain ⟨c, hc⟩ := maybeEvictCachedBlock_eq p b a
  cases hcache : p.enableCaching
  · simp [modifyPool, hcache, hb]
  · simp [modifyPool, hcache, hc, hb]

structure Handable (p : BlockPool K) (bs : List Nat) : Prop where
  nodup : bs.Nodup
  out : ∀ b ∈ bs, b ∉ p.free ∧ p.refCnt b = 0

theorem Handable.handOutOne (h : p.Handable (b :: bs)) : (p.handOutOne b).Handable bs := by
  have hnd := nodup_cons.mp h.nodup
  refine ⟨hnd.2, fun c hc => ?_⟩
  have hcb : c ≠ b := fun e => hnd.1 (e ▸ hc)
  simpa [hcb] using h.out c (mem_cons_of_mem _ hc)

theorem Handable.forEach_eq (h : p.Handable bs) (a : α) :
    Call.forEach bs (allocateOne Hooks.none) (p, a) = (.ok (), (bs.foldl BlockPool.handOutOne p, a)) := by
  induction bs generalizing p with
  | nil => rfl
  | cons b bs ih =>
    rw [Call.forEach, run_bind, allocateOne_eq (h.out b (mem_cons_self ..)).2]
    exact ih h.handOutOne

theorem Inv.foldl_handOutOne (h : p.Inv) (hb : p.Handable bs) :
    (bs.foldl BlockPool.handOutOne p).Inv ∧
      (∀ c, (bs.foldl BlockPool.handOutOne p).refCnt c = if c ∈ bs then 1 else p.refCnt c) ∧
      (∀ c, (bs.foldl BlockPool.handOutOne p).hash c =
        if p.enableCaching = true ∧ c ∈ bs then none else p.hash c) ∧
      (bs.foldl BlockPool.handOutOne p).free = p.free ∧
      (bs.foldl BlockPool.handOutOne p).numGpuBlocks = p.numGpuBlocks ∧
      (bs.foldl BlockPool.handOutOne p).enableCaching = p.enableCaching := by
  induction bs generalizing p with
  | nil => simp [h]
  | cons b bs ih =>
    have hhead := hb.out b (mem_cons_self ..)
    obtain ⟨hinv, href, hhash, hfree, hnum, hcache⟩ := ih (h.handOutOne hhead.1) hb.handOutOne
    have hnd := (nodup_cons.mp hb.nodup).1
    refine ⟨hinv, fun c => ?_, fun c => ?_, by simpa using hfree, by simpa using hnum,
      by simpa using hcache⟩
    · rw [foldl_cons, href, refCnt_handOutOne, hhead.2]
      by_cases hcb : c = b
      · simp [hcb, hnd]
      · simp [hcb]
    · rw [foldl_cons, hhash, h.hash_handOutOne, enableCaching_handOutOne]
      by_cases hcb : c = b
      · by_cases hc : p.enableCaching = true <;> simp [hcb, hc]
      · simp [hcb]

theorem Inv.handable_take (h : p.Inv) (n : Nat) :
    (p.setFree (p.free.drop n) (p.getNumFreeBlocks - n)).Handable (p.free.take n) := by
  refine ⟨h.free_nodup.sublist (take_sublist _ _), fun b hb => ⟨fun hd => ?_, ?_⟩⟩
  · have hnd := h.free_nodup
    rw [← take_append_drop n p.free, nodup_append] at hnd
    exact hnd.2.2 b hb b hd rfl
  · exact (h.free_spec b (mem_of_mem_take hb)).2.1

structure HandedOut (p q : BlockPool K) (n : Nat) : Prop where
  inv : q.Inv
  refCnt : ∀ c, q.refCnt c = if c ∈ p.free.take n then 1 else p.refCnt c
  hash : ∀ c, q.hash c = if p.enableCaching = true ∧ c ∈ p.free.take n then none else p.hash c
  free : q.free = p.free.drop n
  numGpuBlocks : q.numGpuBlocks = p.numGpuBlocks
  enableCaching : q.enableCaching = p.enableCaching

theorem Inv.handedOut (h : p.Inv) (hn : n ≤ p.free.length) : HandedOut p (p.handedOut n) n := by
  obtain ⟨hinv, href, hhash, hfree, hnum, hcache⟩ :=
    (h.popleftN hn).foldl_handOutOne (h.handable_take n)
  exact ⟨hinv, href, hhash, hfree, hnum, hcache⟩

theorem Inv.getNewBlocks_eq (h : p.Inv) (hn : n ≤ p.free.length) (a : α) :
    getNewBlocks Hooks.none n (p, a) = (.ok (p.free.take n), (p.handedOut n, a)) := by
  have hcount : (n : Int) ≤ p.getNumFreeBlocks := by
    rw [h.count]
    omega
  have hpop : BlockPool.popleftN n (p, a) =
      (.ok (p.free.take n), (p.setFree (p.free.drop n) (p.getNumFreeBlocks - n), a)) := by
    unfold BlockPool.popleftN
    by_cases h0 : n = 0
    · subst h0
      simp [setFree, BlockPool.free, getNumFreeBlocks]
    · have h1 : ¬ (p.getNumFreeBlocks < n ∨ p.free.length < n) := by omega
      simp only [if_neg h0, if_neg h1]
  have hloop := (h.handable_take n).forEach_eq a
  unfold getNewBlocks BlockPool.handedOut
  simp only [run_bind, Call.get, Call.check, hcount, decide_true, if_true, run_pure,
    Hooks.none] at hpop hloop ⊢
  simp only [hpop, hloop]
  rfl

theorem Inv.getNewBlocks_error (h : p.Inv) (hn : ¬ n ≤ p.free.length) (a : α) :
    ∃ e, getNewBlocks Hooks.none n (p, a) = (.error e, (p, a)) := by
  have hcount : ¬ (n : Int) ≤ p.getNumFreeBlocks := by
    rw [h.count]
    omega
  refine ⟨.valueError s!"Cannot get {n} free blocks from the pool", ?_⟩
  simp only [getNewBlocks, run_bind, Call.get, hcount]
  rfl

end Vllm.BlockPool
