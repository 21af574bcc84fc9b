import Mathlib.Data.List.Sort
import Vllm.Base.Dict

/-! Array functions of NumPy on lists: unique values in sorted order or in the order of appearance,
and the groups of a list that is sorted by a key. -/

namespace Base
open List

section
variable {α : Type} [DecidableEq α]

def uniqueFirst : List α → List α
  | [] => []
  | x :: xs => x :: (uniqueFirst xs).filter (· ≠ x)

@[simp] theorem mem_uniqueFirst {x : α} {xs : List α} : x ∈ uniqueFirst xs ↔ x ∈ xs := by
  induction xs with
  | nil => exact Iff.rfl
  | cons y ys ih =>
    simp only [uniqueFirst, mem_cons, mem_filter, ih]
    by_cases hx : x = y <;> simp [hx]

theorem nodup_uniqueFirst (xs : List α) : (uniqueFirst xs).Nodup := by
  induction xs with
  | nil => exact nodup_nil
  | cons x xs ih =>
    refine nodup_cons.mpr ⟨fun hin => ?_, ih.filter _⟩
    simpa using (mem_filter.mp hin).2

end

/-! ## Unique values in order -/

section
variable {α : Type} [LinearOrder α]

/-- `np.unique(xs, return_index=True)`: each value with the index of its first appearance. -/
def unique (xs : List α) : List (α × Nat) :=
  ((uniqueFirst xs).insertionSort (· ≤ ·)).map fun x => (x, xs.idxOf x)

theorem unique_sorted (xs : List α) : (unique xs).Pairwise fun a b => a.1 < b.1 := by
  have hsorted := pairwise_insertionSort (· ≤ ·) (uniqueFirst xs)
  have hnodup : ((uniqueFirst xs).insertionSort (· ≤ ·)).Nodup :=
    (perm_insertionSort (· ≤ ·) (uniqueFirst xs)).nodup_iff.mpr (nodup_uniqueFirst xs)
  exact pairwise_map.mpr ((hsorted.and hnodup).imp fun h => lt_of_le_of_ne h.1 h.2)

theorem mem_unique {xs : List α} {e : α × Nat} : e ∈ unique xs ↔ e.1 ∈ xs ∧ e.2 = xs.idxOf e.1 := by
  unfold unique
  simp only [mem_map, mem_insertionSort, mem_uniqueFirst]
  constructor
  · rintro ⟨x, hx, rfl⟩
    exact ⟨hx, rfl⟩
  · rintro ⟨hx, hi⟩
    exact ⟨e.1, hx, by rw [← hi]⟩

theorem eq_of_ascending {xs ys : List α} (hx : xs.Pairwise (· < ·)) (hy : ys.Pairwise (· < ·))
    (h : ∀ a, a ∈ xs ↔ a ∈ ys) : xs = ys := by
  have hperm : xs.Perm ys := (perm_ext_iff_of_nodup (hx.imp ne_of_lt) (hy.imp ne_of_lt)).mpr h
  exact hperm.eq_of_pairwise (fun a b _ _ hab hba => absurd (hab.trans hba) (lt_irrefl a)) hx hy

end

/-! ## Groups -/

section
variable {κ β : Type} [LinearOrder κ]

/-- Neighbours with one key are put together: the boundaries are where the key changes. -/
def groupRuns : List (κ × β) → List (κ × List β)
  | [] => []
  | (k, b) :: rest =>
    match groupRuns rest with
    | [] => [(k, [b])]
    | (k', bs) :: groups => if k = k' then (k, b :: bs) :: groups else (k, [b]) :: (k', bs) :: groups

def valuesOf (k : κ) (l : List (κ × β)) : List β := (l.filter (·.1 = k)).map Prod.snd

theorem valuesOf_cons {k : κ} {e : κ × β} {l : List (κ × β)} :
    valuesOf k (e :: l) = if e.1 = k then e.2 :: valuesOf k l else valuesOf k l := by
  unfold valuesOf
  by_cases h : e.1 = k <;> simp [h]

theorem groupRuns_spec {l : List (κ × β)} (hl : l.Pairwise fun a b => a.1 ≤ b.1) :
    ((groupRuns l).map Prod.fst).Pairwise (· < ·) ∧
      (∀ k, k ∈ (groupRuns l).map Prod.fst ↔ k ∈ l.map Prod.fst) ∧
      ∀ g ∈ groupRuns l, g.2 = valuesOf g.1 l := by
  induction l with
  | nil => exact ⟨.nil, fun _ => Iff.rfl, nofun⟩
  | cons e rest ih =>
    obtain ⟨k, b⟩ := e
    obtain ⟨hk, hrest⟩ := pairwise_cons.mp hl
    obtain ⟨hsorted, hkeys, hvals⟩ := ih hrest
    have hle : ∀ k' ∈ (groupRuns rest).map Prod.fst, k ≤ k' := fun k' hk' => by
      obtain ⟨x, hx, rfl⟩ := mem_map.mp ((hkeys k').mp hk')
      exact hk x hx
    unfold groupRuns
    cases hgroups : groupRuns rest with
    | nil =>
      rw [hgroups] at hkeys
      have hnil : rest = [] := by
        cases rest with
        | nil => rfl
        | cons x xs => exact absurd ((hkeys x.1).mpr mem_cons_self) not_mem_nil
      subst hnil
      refine ⟨pairwise_singleton _ _, fun _ => Iff.rfl, fun g hg => ?_⟩
      obtain rfl := mem_singleton.mp hg
      simp [valuesOf]
    | cons g groups =>
      obtain ⟨k', bs⟩ := g
      rw [hgroups] at hsorted hkeys hvals hle
      obtain ⟨hfirst, hothers⟩ := pairwise_cons.mp hsorted
      obtain ⟨hval, htail⟩ := forall_mem_cons.mp hvals
      dsimp only
      split
      · next heq =>
        subst heq
        refine ⟨hsorted, fun a => ?_, forall_mem_cons.mpr ⟨?_, fun g hg => ?_⟩⟩
        · have ha := hkeys a
          simp only [map_cons, mem_cons] at ha ⊢
          rw [← ha]
          simp
        · rw [valuesOf_cons, if_pos rfl, ← hval]
        · have hlt : k < g.1 := hfirst g.1 (mem_map.mpr ⟨g, hg, rfl⟩)
          rw [valuesOf_cons, if_neg hlt.ne]
          exact htail g hg
      · next hne =>
        have hlt : k < k' := lt_of_le_of_ne (hle k' mem_cons_self) hne
        have hfresh : valuesOf k rest = [] := by
          unfold valuesOf
          rw [map_eq_nil_iff, filter_eq_nil_iff]
          intro x hx hxk
          have hin := (hkeys x.1).mpr (mem_map.mpr ⟨x, hx, rfl⟩)
          rw [of_decide_eq_true hxk] at hin
          rcases mem_cons.mp hin with heq | hin
          · exact hne heq
          · exact absurd (hfirst k hin) (not_lt_of_gt hlt)
        refine ⟨pairwise_cons.mpr ⟨fun a ha => ?_, hsorted⟩, fun a => ?_,
          forall_mem_cons.mpr ⟨?_, forall_mem_cons.mpr ⟨?_, fun g hg => ?_⟩⟩⟩
        · rcases mem_cons.mp ha with rfl | ha
          · exact hlt
          · exact hlt.trans (hfirst a ha)
        · have ha := hkeys a
          simp only [map_cons, mem_cons] at ha ⊢
          rw [ha]
        · rw [valuesOf_cons, if_pos rfl, hfresh]
        · rw [valuesOf_cons, if_neg hlt.ne]
          exact hval
        · have hlt' : k < g.1 := hlt.trans (hfirst g.1 (mem_map.mpr ⟨g, hg, rfl⟩))
          rw [valuesOf_cons, if_neg hlt'.ne]
          exact htail g hg

end

/-! ## Dictionaries from lists -/

section
variable {K V : Type} [DecidableEq K]

def Dict.setAll (d : Dict K V) (l : List (K × V)) : Dict K V := l.foldl (fun d e => d.set e.1 e.2) d

theorem Dict.get?_setAll {d : Dict K V} {l : List (K × V)} (hl : (l.map Prod.fst).Nodup) {k : K} :
    (∀ v, (k, v) ∈ l → (d.setAll l).get? k = some v) ∧
      (k ∉ l.map Prod.fst → (d.setAll l).get? k = d.get? k) := by
  induction l generalizing d with
  | nil => exact ⟨nofun, fun _ => rfl⟩
  | cons e l ih =>
    obtain ⟨hout, hl⟩ := nodup_cons.mp hl
    obtain ⟨hin, hno⟩ := @ih (d.set e.1 e.2) hl
    refine ⟨fun v hv => ?_, fun hk => ?_⟩
    · rcases mem_cons.mp hv with rfl | hv
      · exact (hno hout).trans (get?_set_self _ _ _)
      · exact hin v hv
    · rw [map_cons, mem_cons, not_or] at hk
      exact (hno hk.2).trans (get?_set_of_ne _ _ hk.1)

end
end Base
