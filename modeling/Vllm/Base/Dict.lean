import Mathlib.Algebra.Order.BigOperators.Group.List
import Mathlib.Algebra.Order.Group.Nat
import Mathlib.Algebra.Ring.Int.Defs
import Mathlib.Algebra.Ring.Nat
import Mathlib.Data.List.Nodup

/-! Insertion-ordered dictionaries. Assigning to a present key keeps its place, a new key goes to
the end, and every key occurs once. -/

namespace Base
open List

structure Dict (K V : Type) where
  entries : List (K × V)
  nodup : (entries.map Prod.fst).Nodup

namespace Dict
variable {K V : Type}

variable {d : Dict K V} {k k' src dst : K} {v : V} {f : V → Nat}

@[ext] theorem ext {d' : Dict K V} (h : d.entries = d'.entries) : d = d' := by
  cases d; cases d'; cases h; rfl

def empty : Dict K V := ⟨[], nodup_nil⟩

instance : EmptyCollection (Dict K V) := ⟨empty⟩

def keys (d : Dict K V) : List K := d.entries.map Prod.fst

def size (d : Dict K V) : Nat := d.entries.length

theorem keys_nodup (d : Dict K V) : d.keys.Nodup := d.nodup

@[simp] theorem keys_empty : (∅ : Dict K V).keys = [] := rfl

@[simp] theorem entries_empty : (∅ : Dict K V).entries = [] := rfl

@[simp] theorem length_keys (d : Dict K V) : d.keys.length = d.size := by simp [keys, size]

variable [DecidableEq K]

def get? (d : Dict K V) (k : K) : Option V := d.entries.lookup k

def contains (d : Dict K V) (k : K) : Bool := (d.get? k).isSome

theorem lookup_eq_some_iff {l : List (K × V)} (hl : (l.map Prod.fst).Nodup) :
    l.lookup k = some v ↔ (k, v) ∈ l := by
  induction l with
  | nil => simp
  | cons e l ih =>
    obtain ⟨k', v'⟩ := e
    simp only [map_cons, nodup_cons] at hl
    rw [lookup_cons]
    by_cases hk : k = k'
    · subst hk
      have hn : (k, v) ∉ l := fun hm => hl.1 (mem_map.mpr ⟨_, hm, rfl⟩)
      simp [hn, eq_comm]
    · have hb : (k == k') = false := by simpa using hk
      simp only [hb, mem_cons, Prod.mk.injEq, hk, false_and, false_or]
      exact ih hl.2

theorem get?_eq_some_iff : d.get? k = some v ↔ (k, v) ∈ d.entries :=
  lookup_eq_some_iff d.nodup

theorem mem_keys_iff : k ∈ d.keys ↔ (d.get? k).isSome := by
  rw [Option.isSome_iff_exists]
  simp only [keys, mem_map, get?_eq_some_iff]
  constructor
  · rintro ⟨⟨k', v⟩, hm, rfl⟩
    exact ⟨v, hm⟩
  · rintro ⟨v, hm⟩
    exact ⟨_, hm, rfl⟩

theorem exists_of_mem_keys (h : k ∈ d.keys) : ∃ v, d.get? k = some v :=
  Option.isSome_iff_exists.mp (mem_keys_iff.mp h)

theorem mem_keys_of_get? (h : d.get? k = some v) : k ∈ d.keys :=
  mem_keys_iff.mpr (by simp [h])

theorem get?_eq_none_iff : d.get? k = none ↔ k ∉ d.keys := by
  rw [mem_keys_iff, Option.not_isSome_iff_eq_none]

@[simp] theorem get?_empty (k : K) : (∅ : Dict K V).get? k = none := rfl

/-! ## Assignment -/

def setEntries (l : List (K × V)) (k : K) (v : V) : List (K × V) :=
  if k ∈ l.map Prod.fst then l.map fun e => if e.1 = k then (k, v) else e else l ++ [(k, v)]

theorem setEntries_keys (l : List (K × V)) (k : K) (v : V) :
    (setEntries l k v).map Prod.fst =
      if k ∈ l.map Prod.fst then l.map Prod.fst else l.map Prod.fst ++ [k] := by
  unfold setEntries
  split
  · rw [map_map]
    apply map_congr_left
    intro e _
    by_cases he : e.1 = k <;> simp [he]
  · simp

def set (d : Dict K V) (k : K) (v : V) : Dict K V where
  entries := setEntries d.entries k v
  nodup := by
    rw [setEntries_keys]
    split
    · exact d.nodup
    · next h =>
      rw [nodup_append]
      refine ⟨d.nodup, nodup_singleton k, ?_⟩
      rintro a ha b hb rfl
      rw [mem_singleton] at hb
      exact h (hb ▸ ha)

theorem keys_set (d : Dict K V) (k : K) (v : V) :
    (d.set k v).keys = if k ∈ d.keys then d.keys else d.keys ++ [k] := setEntries_keys _ _ _

theorem mem_keys_set : k' ∈ (d.set k v).keys ↔ k' = k ∨ k' ∈ d.keys := by
  rw [keys_set]
  split
  · next h =>
    constructor
    · exact Or.inr
    · rintro (rfl | h')
      exacts [h, h']
  · simp [or_comm]

theorem get?_set (d : Dict K V) (k k' : K) (v : V) :
    (d.set k v).get? k' = if k' = k then some v else d.get? k' := by
  apply Option.ext
  intro w
  rw [get?_eq_some_iff]
  show (k', w) ∈ setEntries d.entries k v ↔ _
  unfold setEntries
  by_cases hk : k ∈ d.entries.map Prod.fst
  · rw [if_pos hk]
    by_cases hkk : k' = k
    · subst hkk
      obtain ⟨⟨k₀, v₀⟩, hm, hk₀⟩ := mem_map.mp hk
      simp only [mem_map]
      constructor
      · rintro ⟨e, -, he⟩
        by_cases hek : e.1 = k'
        · rw [if_pos hek] at he
          exact congrArg (fun p => some p.2) he
        · rw [if_neg hek] at he
          exact absurd (by rw [he]) hek
      · intro hw
        exact ⟨(k₀, v₀), hm, by rw [if_pos hk₀, Option.some.inj hw]⟩
    · simp only [if_neg hkk, mem_map, get?_eq_some_iff]
      constructor
      · rintro ⟨e, hm, he⟩
        by_cases hek : e.1 = k
        · rw [if_pos hek] at he
          exact absurd (congrArg Prod.fst he).symm hkk
        · rw [if_neg hek] at he
          exact he ▸ hm
      · intro hm
        exact ⟨_, hm, if_neg hkk⟩
  · rw [if_neg hk]
    by_cases hkk : k' = k
    · subst hkk
      have hn : (k', w) ∉ d.entries := fun hm => hk (mem_map.mpr ⟨_, hm, rfl⟩)
      simp [hn, eq_comm]
    · simp [hkk, get?_eq_some_iff]

@[simp] theorem get?_set_self (d : Dict K V) (k : K) (v : V) : (d.set k v).get? k = some v := by
  simp [get?_set]

theorem get?_set_of_ne (d : Dict K V) (v : V) (h : k' ≠ k) :
    (d.set k v).get? k' = d.get? k' := by simp [get?_set, h]

@[simp] theorem set_set (d : Dict K V) (k : K) (v w : V) : (d.set k v).set k w = d.set k w := by
  have hk : k ∈ (d.set k v).entries.map Prod.fst := mem_keys_set.mpr (.inl rfl)
  ext1
  change setEntries (d.set k v).entries k w = setEntries d.entries k w
  rw [setEntries, if_pos hk]
  change (setEntries d.entries k v).map _ = _
  unfold setEntries
  split
  · rw [map_map]
    refine map_congr_left fun e _ => ?_
    simp only [Function.comp_apply]
    split <;> simp
  · next hfresh =>
    have hmap : (d.entries.map fun e => if e.1 = k then (k, w) else e) = d.entries := by
      refine (map_congr_left fun e he => ?_).trans (map_id d.entries)
      exact if_neg fun heq : e.1 = k => hfresh (heq ▸ mem_map.mpr ⟨e, he, rfl⟩)
    rw [map_append, hmap]
    simp

theorem set_eq_self (h : d.get? k = some v) : d.set k v = d := by
  ext1
  change setEntries d.entries k v = d.entries
  have hk : k ∈ d.entries.map Prod.fst := mem_keys_of_get? h
  rw [setEntries, if_pos hk]
  refine (map_congr_left fun e he => ?_).trans (map_id d.entries)
  split
  · next hk =>
    have hv : d.get? k = some e.2 := get?_eq_some_iff.mpr (hk ▸ he)
    rw [← Option.some.inj (hv.symm.trans h), ← hk, id_eq]
  · rfl

/-! ## Deletion -/

def erase (d : Dict K V) (k : K) : Dict K V where
  entries := d.entries.filter fun e => e.1 ≠ k
  nodup := d.nodup.sublist (filter_sublist.map _)

theorem get?_erase (d : Dict K V) (k k' : K) :
    (d.erase k).get? k' = if k' = k then none else d.get? k' := by
  apply Option.ext
  intro w
  rw [get?_eq_some_iff]
  show (k', w) ∈ d.entries.filter _ ↔ _
  by_cases hkk : k' = k
  · simp [hkk]
  · simp [hkk, get?_eq_some_iff]

@[simp] theorem get?_erase_self (d : Dict K V) (k : K) : (d.erase k).get? k = none := by
  simp [get?_erase]

theorem get?_erase_of_ne (d : Dict K V) (h : k' ≠ k) :
    (d.erase k).get? k' = d.get? k' := by simp [get?_erase, h]

theorem mem_keys_erase : k' ∈ (d.erase k).keys ↔ k' ≠ k ∧ k' ∈ d.keys := by
  simp only [mem_keys_iff, get?_erase]
  by_cases h : k' = k <;> simp [h]

theorem keys_erase (d : Dict K V) (k : K) : (d.erase k).keys = d.keys.filter (· ≠ k) := by
  simp only [keys, filter_map]
  rfl

@[simp] theorem erase_set (d : Dict K V) (k : K) (v : V) : (d.set k v).erase k = d.erase k := by
  ext1
  change (setEntries d.entries k v).filter (fun e => e.1 ≠ k) = d.entries.filter fun e => e.1 ≠ k
  unfold setEntries
  split
  · rw [filter_map]
    have hcomp : (fun e : K × V => decide (e.1 ≠ k)) ∘ (fun e => if e.1 = k then (k, v) else e) =
        fun e : K × V => decide (e.1 ≠ k) := by
      funext e
      simp only [Function.comp_apply]
      split
      · next h => simp [h]
      · rfl
    rw [hcomp]
    refine (map_congr_left fun e he => ?_).trans (map_id _)
    exact if_neg (by simpa using (mem_filter.mp he).2)
  · simp [filter_append]

/-! ## Sums over the values -/

def sum (d : Dict K V) (f : V → Nat) : Nat := (d.entries.map fun e => f e.2).sum

theorem sum_entries_erase (f : V → Nat) (l : List (K × V)) (hl : (l.map Prod.fst).Nodup) (k : K) :
    ((l.filter fun e => e.1 ≠ k).map fun e => f e.2).sum + (l.lookup k).elim 0 f =
      (l.map fun e => f e.2).sum := by
  induction l with
  | nil => simp
  | cons e l ih =>
    obtain ⟨k', v'⟩ := e
    obtain ⟨hk, hl⟩ := nodup_cons.mp hl
    by_cases hkk : k = k'
    · subst hkk
      have hrest : (l.filter fun e => e.1 ≠ k) = l :=
        filter_eq_self.mpr fun e he => by
          simpa using fun h => hk (mem_map.mpr ⟨e, he, h⟩)
      rw [filter_cons_of_neg (by simp), hrest, lookup_cons_self]
      simp [Nat.add_comm]
    · have hb : (k == k') = false := by simpa using hkk
      have := ih hl
      rw [filter_cons_of_pos (by simpa using fun h => hkk h.symm), lookup_cons, hb]
      simp only [map_cons, sum_cons]
      omega

theorem sum_erase (d : Dict K V) (f : V → Nat) (k : K) :
    (d.erase k).sum f + (d.get? k).elim 0 f = d.sum f := sum_entries_erase f d.entries d.nodup k

theorem sum_entries_map (f : V → Nat) (l : List (K × V)) (hl : (l.map Prod.fst).Nodup)
    (hk : k ∈ l.map Prod.fst) (v : V) :
    ((l.map fun e => if e.1 = k then (k, v) else e).map fun e => f e.2).sum =
      ((l.filter fun e => e.1 ≠ k).map fun e => f e.2).sum + f v := by
  induction l with
  | nil => simp at hk
  | cons e l ih =>
    obtain ⟨k', v'⟩ := e
    obtain ⟨hk', hl⟩ := nodup_cons.mp hl
    by_cases hkk : k' = k
    · subst hkk
      have hne : ∀ e ∈ l, e.1 ≠ k' := fun e he h => hk' (mem_map.mpr ⟨e, he, h⟩)
      have hmap : (l.map fun e => if e.1 = k' then (k', v) else e) = l :=
        (map_congr_left fun e he => if_neg (hne e he)).trans (map_id l)
      have hfilter : (l.filter fun e => e.1 ≠ k') = l :=
        filter_eq_self.mpr fun e he => by simpa using hne e he
      rw [map_cons, hmap, filter_cons_of_neg (by simp), hfilter]
      simp [Nat.add_comm]
    · have hmem : k ∈ l.map Prod.fst := by
        simpa [Ne.symm hkk] using hk
      have := ih hl hmem
      rw [map_cons, filter_cons_of_pos (by simpa using hkk), if_neg hkk]
      simp only [map_cons, sum_cons]
      omega

theorem sum_set (d : Dict K V) (f : V → Nat) (k : K) (v : V) :
    (d.set k v).sum f + (d.get? k).elim 0 f = d.sum f + f v := by
  have herase := sum_erase d f k
  by_cases hk : k ∈ d.keys
  · have hset : (d.set k v).sum f = (d.erase k).sum f + f v := by
      have hentries : (d.set k v).entries = d.entries.map fun e => if e.1 = k then (k, v) else e :=
        if_pos hk
      rw [sum, hentries]
      exact sum_entries_map f d.entries d.nodup hk v
    omega
  · have hset : (d.set k v).sum f = d.sum f + f v := by
      have hentries : (d.set k v).entries = d.entries ++ [(k, v)] := if_neg hk
      simp [sum, hentries]
    rw [hset, get?_eq_none_iff.mpr hk]
    rfl

theorem sum_set_of_eq {v' : V} (h : d.get? k = some v) (hf : f v' = f v) :
    (d.set k v').sum f = d.sum f := by
  have := sum_set d f k v'
  rw [h, hf] at this
  exact Nat.add_right_cancel this

theorem sum_set_of_none (h : d.get? k = none) (hf : f v = 0) : (d.set k v).sum f = d.sum f := by
  have := sum_set d f k v
  rwa [h, hf] at this

theorem get?_foldl_erase (d : Dict K V) (ks : List K) (k : K) :
    (ks.foldl erase d).get? k = if k ∈ ks then none else d.get? k := by
  induction ks generalizing d with
  | nil => simp
  | cons k' ks ih =>
    rw [foldl_cons, ih, get?_erase]
    by_cases hk : k ∈ ks
    · simp [hk]
    · by_cases heq : k = k' <;> simp [hk, heq]

theorem sum_foldl_erase (d : Dict K V) (f : V → Nat) {ks : List K} (hks : ks.Nodup) :
    (ks.foldl erase d).sum f + (ks.map fun k => (d.get? k).elim 0 f).sum = d.sum f := by
  induction ks generalizing d with
  | nil => simp
  | cons k ks ih =>
    rw [nodup_cons] at hks
    have hrest := ih (d.erase k) hks.2
    have hmap : (ks.map fun k' => ((d.erase k).get? k').elim 0 f) =
        ks.map fun k' => (d.get? k').elim 0 f :=
      map_congr_left fun k' hk' => by
        have hne : k' ≠ k := fun heq => hks.1 (heq ▸ hk')
        rw [get?_erase_of_ne _ hne]
    rw [hmap] at hrest
    have hk := sum_erase d f k
    rw [foldl_cons, map_cons, sum_cons]
    omega

theorem le_sum (h : d.get? k = some v) (f : V → Nat) : f v ≤ d.sum f := by
  have := sum_erase d f k
  rw [h] at this
  simp only [Option.elim_some] at this
  omega

/-! ## Moving a key to the end -/

def setLast (d : Dict K V) (k : K) (v : V) : Dict K V where
  entries := (d.erase k).entries ++ [(k, v)]
  nodup := by
    rw [map_append, nodup_append]
    refine ⟨(d.erase k).nodup, nodup_singleton k, ?_⟩
    rintro a ha b hb rfl
    simp only [map_cons, map_nil, mem_singleton] at hb
    subst hb
    exact (mem_keys_erase.mp ha).1 rfl

theorem get?_setLast (d : Dict K V) (k k' : K) (v : V) :
    (d.setLast k v).get? k' = if k' = k then some v else d.get? k' := by
  apply Option.ext
  intro w
  rw [get?_eq_some_iff]
  show (k', w) ∈ (d.erase k).entries ++ [(k, v)] ↔ _
  rw [mem_append, ← get?_eq_some_iff, get?_erase]
  by_cases hkk : k' = k
  · simp [hkk, eq_comm]
  · simp [hkk]

theorem mem_keys_setLast : k' ∈ (d.setLast k v).keys ↔ k' = k ∨ k' ∈ d.keys := by
  simp only [mem_keys_iff, get?_setLast]
  by_cases h : k' = k <;> simp [h]

/-! ## Entries up to their order -/

theorem entries_perm_cons {d' : Dict K V} (hk : d.get? k = some v) (hk' : d'.get? k = none)
    (hrest : ∀ k', k' ≠ k → d.get? k' = d'.get? k') : d.entries.Perm ((k, v) :: d'.entries) := by
  have hout : (k, v) ∉ d'.entries := fun hin => by
    rw [get?_eq_some_iff.mpr hin] at hk'
    cases hk'
  refine (perm_ext_iff_of_nodup (List.Nodup.of_map _ d.nodup)
    (nodup_cons.mpr ⟨hout, List.Nodup.of_map _ d'.nodup⟩)).mpr fun e => ?_
  obtain ⟨k', v'⟩ := e
  rw [mem_cons, ← get?_eq_some_iff, ← get?_eq_some_iff]
  by_cases heq : k' = k
  · subst heq
    simp [hk, hk', eq_comm]
  · simp [heq, hrest k' heq]

theorem entries_perm_erase (h : d.get? k = some v) :
    d.entries.Perm ((k, v) :: (d.erase k).entries) :=
  entries_perm_cons h (get?_erase_self d k) fun _ hne => (get?_erase_of_ne d hne).symm

theorem entries_set_perm (d : Dict K V) (k : K) (v : V) :
    (d.set k v).entries.Perm ((k, v) :: (d.erase k).entries) :=
  entries_perm_cons (get?_set_self d k v) (get?_erase_self d k) fun _ hne =>
    (get?_set_of_ne d v hne).trans (get?_erase_of_ne d hne).symm

theorem entries_setLast_perm (d : Dict K V) (k : K) (v : V) :
    (d.setLast k v).entries.Perm ((k, v) :: (d.erase k).entries) := perm_append_singleton _ _

theorem erase_of_not_mem (h : k ∉ d.keys) : d.erase k = d := by
  ext1
  refine filter_eq_self.mpr fun e he => ?_
  simpa using fun heq : e.1 = k => h (heq ▸ mem_map.mpr ⟨e, he, rfl⟩)

theorem size_erase (h : d.get? k = some v) :
    (d.erase k).size + 1 = d.size := (entries_perm_erase h).length_eq.symm

theorem size_set_of_none (h : d.get? k = none) (v : V) : (d.set k v).size = d.size + 1 := by
  have hperm := (entries_set_perm d k v).length_eq
  rwa [erase_of_not_mem (get?_eq_none_iff.mp h)] at hperm

/-! ## Renaming a key in place -/

def renameKey (d : Dict K V) (src dst : K) (h : dst ∉ d.keys) : Dict K V where
  entries := d.entries.map fun e => if e.1 = src then (dst, e.2) else e
  nodup := by
    rw [List.map_map]
    refine List.Nodup.of_map (fun k => if k = dst then src else k) ?_
    rw [List.map_map]
    refine (map_congr_left ?_).subst d.nodup
    intro e he
    have hed : e.1 ≠ dst := fun hd => h (hd ▸ mem_map.mpr ⟨e, he, rfl⟩)
    by_cases hes : e.1 = src <;> simp [hes, hed]

theorem mem_keys_renameKey {h : dst ∉ d.keys} (hs : src ∈ d.keys) :
    k ∈ (d.renameKey src dst h).keys ↔ k = dst ∨ k ≠ src ∧ k ∈ d.keys := by
  simp only [keys, renameKey, map_map, mem_map]
  constructor
  · rintro ⟨e, he, rfl⟩
    by_cases hes : e.1 = src
    · simp [hes]
    · exact .inr ⟨by simp [hes], e, he, by simp [hes]⟩
  · rintro (rfl | ⟨hks, e, he, rfl⟩)
    · obtain ⟨e, he, hes⟩ := mem_map.mp hs
      exact ⟨e, he, by simp [hes]⟩
    · exact ⟨e, he, by simp [hks]⟩

/-- Puts the entry of `src` under `dst`, where it stands; an entry that `dst` had is dropped. A
missing `src` assigns `v` to `dst` at the end. -/
def rename (d : Dict K V) (src dst : K) (v : V) : Dict K V :=
  if src ∈ (d.erase dst).keys then
    (d.erase dst).renameKey src dst fun h => (mem_keys_erase.mp h).1 rfl
  else (d.erase dst).setLast dst v

theorem mem_keys_rename : k ∈ (d.rename src dst v).keys ↔ k = dst ∨ k ≠ src ∧ k ∈ d.keys := by
  unfold rename
  by_cases hs : src ∈ (d.erase dst).keys
  · rw [if_pos hs, mem_keys_renameKey hs, mem_keys_erase]
    by_cases hkd : k = dst <;> simp [hkd]
  · rw [if_neg hs, mem_keys_setLast, mem_keys_erase]
    rw [mem_keys_erase] at hs
    by_cases hkd : k = dst
    · simp [hkd]
    · simp only [hkd, false_or, ne_eq, not_false_eq_true, true_and]
      exact ⟨fun hk => ⟨fun hks => hs ⟨hks ▸ hkd, hks ▸ hk⟩, hk⟩, fun h => h.2⟩

theorem entries_rename_of_mem (h : src ∈ d.keys) (hne : src ≠ dst) (v : V) :
    (d.rename src dst v).entries =
      (d.entries.filter fun e => e.1 ≠ dst).map fun e => if e.1 = src then (dst, e.2) else e := by
  rw [rename, if_pos (mem_keys_erase.mpr ⟨hne, h⟩)]
  rfl

theorem entries_rename_of_not_mem (h : src ∉ (d.erase dst).keys) (v : V) :
    (d.rename src dst v).entries = (d.entries.filter fun e => e.1 ≠ dst) ++ [(dst, v)] := by
  rw [rename, if_neg h]
  change ((d.erase dst).erase dst).entries ++ _ = _
  rw [erase_of_not_mem fun hd => (mem_keys_erase.mp hd).1 rfl]
  rfl

theorem get?_rename_of_ne (hs : k ≠ src) (hd : k ≠ dst) :
    (d.rename src dst v).get? k = d.get? k := by
  apply Option.ext
  intro x
  rw [get?_eq_some_iff, get?_eq_some_iff]
  by_cases hsrc : src ∈ (d.erase dst).keys
  · have hne : src ≠ dst := (mem_keys_erase.mp hsrc).1
    rw [entries_rename_of_mem (mem_keys_erase.mp hsrc).2 hne, mem_map]
    constructor
    · rintro ⟨e, he, hee⟩
      split at hee
      · exact absurd (congrArg Prod.fst hee).symm hd
      · exact hee ▸ (mem_filter.mp he).1
    · intro he
      exact ⟨(k, x), mem_filter.mpr ⟨he, by simpa using hd⟩, if_neg hs⟩
  · rw [entries_rename_of_not_mem hsrc]
    simp [hd]

/-! ## The values through a function -/

section
variable {W : Type}

def map (f : V → W) (d : Dict K V) : Dict K W where
  entries := d.entries.map fun e => (e.1, f e.2)
  nodup := by
    rw [List.map_map]
    exact d.nodup

section
variable (f : V → W) (d : Dict K V)

@[simp] theorem keys_map : (d.map f).keys = d.keys := by
  simp [keys, map]

@[simp] theorem get?_map (k : K) : (d.map f).get? k = (d.get? k).map f := by
  obtain ⟨entries, hnd⟩ := d
  change (entries.map _).lookup k = (entries.lookup k).map f
  clear hnd
  induction entries with
  | nil => rfl
  | cons e l ih =>
    rw [map_cons, lookup_cons, lookup_cons]
    cases hk : k == e.1 with
    | true => rfl
    | false => exact ih

theorem map_erase (k : K) : (d.erase k).map f = (d.map f).erase k := by
  simp [map, erase, filter_map, Function.comp_def]

theorem map_set (k : K) (v : V) : (d.set k v).map f = (d.map f).set k (f v) := by
  have hkeys : (d.entries.map fun e => (e.1, f e.2)).map Prod.fst = d.entries.map Prod.fst := by
    rw [map_map]
    rfl
  ext1
  change (setEntries d.entries k v).map _ = setEntries (d.entries.map _) k (f v)
  unfold setEntries
  rw [hkeys]
  split
  · rw [map_map, map_map]
    refine map_congr_left fun e _ => ?_
    by_cases he : e.1 = k <;> simp [he]
  · simp

end

theorem sum_map (f : V → W) (g : W → Nat) (d : Dict K V) : (d.map f).sum g = d.sum (g ∘ f) := by
  simp [sum, map, Function.comp_def]

end

/-! ## Sums over the keys -/

def weight (d : Dict K V) (size : K → Nat) : Nat := (d.keys.map size).sum

theorem weight_set_of_mem (h : k ∈ d.keys) (size : K → Nat) (v : V) :
    (d.set k v).weight size = d.weight size := by
  rw [weight, keys_set, if_pos h, weight]

theorem weight_set_of_not_mem (h : k ∉ d.keys) (size : K → Nat) (v : V) :
    (d.set k v).weight size = d.weight size + size k := by
  rw [weight, keys_set, if_neg h, weight]
  simp

theorem weight_erase (h : k ∈ d.keys) (size : K → Nat) :
    (d.erase k).weight size + size k = d.weight size := by
  have herase : d.keys.filter (· ≠ k) = d.keys.erase k := by
    rw [d.keys_nodup.erase_eq_filter]
    simp [bne, BEq.beq]
  rw [weight, keys_erase, herase, Nat.add_comm]
  exact sum_map_erase size h

theorem sum_eq_weight {size : K → Nat} (h : ∀ k v, d.get? k = some v → f v = size k) :
    d.sum f = d.weight size := by
  rw [sum, weight, keys, map_map]
  congr 1
  exact map_congr_left fun e he => h e.1 e.2 (get?_eq_some_iff.mpr he)

theorem weight_le {V' : Type} {d : Dict K V} {d' : Dict K V'} (h : ∀ k ∈ d.keys, k ∈ d'.keys)
    (size : K → Nat) : d.weight size ≤ d'.weight size := by
  obtain ⟨l, hperm, hsublist⟩ := subperm_of_subset d.keys_nodup h
  calc d.weight size = (l.map size).sum := ((hperm.map size).sum_eq).symm
    _ ≤ d'.weight size := (hsublist.map size).sum_le_sum fun _ _ => Nat.zero_le _

theorem sum_map_le {g : K → Nat} {ks : List K} (hks : ks.Nodup)
    (h : ∀ k ∈ ks, ∃ v, d.get? k = some v ∧ f v = g k) : (ks.map g).sum ≤ d.sum f := by
  have hsum : d.sum f = d.weight fun k => (d.get? k).elim 0 f :=
    sum_eq_weight fun k v hv => by simp [hv]
  have hmap : ks.map g = ks.map fun k => (d.get? k).elim 0 f := map_congr_left fun k hk => by
    obtain ⟨v, hv, hfg⟩ := h k hk
    simp [hv, hfg]
  obtain ⟨l, hperm, hsublist⟩ := subperm_of_subset hks fun k hk => by
    obtain ⟨v, hv, -⟩ := h k hk
    exact mem_keys_of_get? hv
  rw [hsum, hmap, ← (hperm.map _).sum_eq]
  exact (hsublist.map _).sum_le_sum fun _ _ => Nat.zero_le _

end Dict
end Base
