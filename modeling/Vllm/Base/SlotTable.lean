import Mathlib.Data.List.Nodup
import Mathlib.Data.List.Perm.Subperm

/-! Tables of slots: entry `i` is what the slot `i` holds, if anything, and nothing is held twice. -/

namespace Base.SlotTable
open List
variable {α : Type} [DecidableEq α]

def Once (l : List (Option α)) : Prop :=
  ∀ (i j : Nat) (a : α), l[i]? = some (some a) → l[j]? = some (some a) → i = j

def clear (l : List (Option α)) (a : α) : List (Option α) :=
  match l.findIdx? (· == some a) with
  | some i => l.set i none
  | none => l

variable {l : List (Option α)} {a : α} {i : Nat}

theorem getElem?_of_findIdx? {x : Option α} (h : l.findIdx? (· == x) = some i) : l[i]? = some x := by
  obtain ⟨hi, hx, -⟩ := findIdx?_eq_some_iff_getElem.mp h
  rw [getElem?_eq_getElem hi]
  simpa using hx

theorem findIdx?_eq_none_iff {x : Option α} : l.findIdx? (· == x) = none ↔ x ∉ l := by
  rw [List.findIdx?_eq_none_iff]
  constructor
  · intro h hx
    simpa using h x hx
  · intro h y hy
    simpa using fun e : y = x => h (e ▸ hy)

theorem length_clear (l : List (Option α)) (a : α) : (clear l a).length = l.length := by
  rw [clear]
  split <;> simp

theorem Once.getElem?_clear (h : Once l) (a : α) (i : Nat) :
    (clear l a)[i]? = if l[i]? = some (some a) then some none else l[i]? := by
  rw [clear]
  cases hf : l.findIdx? (· == some a) with
  | none =>
    have hnot : l[i]? ≠ some (some a) := fun hc =>
      findIdx?_eq_none_iff.mp hf (mem_of_getElem? hc)
    simp [hnot]
  | some j =>
    have hj := getElem?_of_findIdx? hf
    rw [getElem?_set]
    by_cases hij : j = i
    · subst hij
      have hlt : j < l.length := (List.getElem?_eq_some_iff.mp hj).1
      rw [if_pos rfl, if_pos hlt, if_pos hj]
    · have hnot : l[i]? ≠ some (some a) := fun hc => hij (h j i a hj hc)
      simp [hij, hnot]

theorem Once.clear (h : Once l) (a : α) : Once (clear l a) := by
  intro i j b hi hj
  rw [h.getElem?_clear] at hi hj
  split at hi
  · cases hi
  · split at hj
    · cases hj
    · exact h i j b hi hj

theorem Once.mem_clear (h : Once l) {a b : α} : some b ∈ SlotTable.clear l a ↔ b ≠ a ∧ some b ∈ l := by
  simp only [mem_iff_getElem?, h.getElem?_clear]
  constructor
  · rintro ⟨i, hi⟩
    split at hi
    · cases hi
    · next hne => exact ⟨fun e => hne (e ▸ hi), i, hi⟩
  · rintro ⟨hne, i, hi⟩
    refine ⟨i, ?_⟩
    rw [if_neg fun hc => hne ?_, hi]
    rw [hi] at hc
    exact Option.some.inj (Option.some.inj hc)

theorem clear_of_not_mem (h : some a ∉ l) : clear l a = l := by
  rw [clear, findIdx?_eq_none_iff.mpr h]

theorem Once.clear_clear (h : Once l) (a : α) :
    SlotTable.clear (SlotTable.clear l a) a = SlotTable.clear l a :=
  clear_of_not_mem fun hc => (h.mem_clear.mp hc).1 rfl

theorem Once.set (h : Once l) (hnot : some a ∉ l) (i : Nat) : Once (l.set i (some a)) := by
  have hold : ∀ j b, (l.set i (some a))[j]? = some (some b) → j = i ∧ b = a ∨
      j ≠ i ∧ l[j]? = some (some b) := by
    intro j b hj
    rw [getElem?_set] at hj
    by_cases hij : i = j
    · rw [if_pos hij] at hj
      split at hj
      · exact .inl ⟨hij.symm, (Option.some.inj (Option.some.inj hj)).symm⟩
      · cases hj
    · rw [if_neg hij] at hj
      exact .inr ⟨Ne.symm hij, hj⟩
  intro j k b hj hk
  rcases hold j b hj with ⟨rfl, rfl⟩ | ⟨-, hj'⟩
  · rcases hold k b hk with ⟨rfl, -⟩ | ⟨-, hk'⟩
    · rfl
    · exact absurd (mem_of_getElem? hk') hnot
  · rcases hold k b hk with ⟨rfl, rfl⟩ | ⟨-, hk'⟩
    · exact absurd (mem_of_getElem? hj') hnot
    · exact h j k b hj' hk'

theorem Once.exists_free (h : Once l) {ks : List α} (hks : ∀ a, some a ∈ l → a ∈ ks)
    (hlt : ks.length < l.length) : ∃ i, l.findIdx? (· == none) = some i := by
  cases hf : l.findIdx? (· == none) with
  | some i => exact ⟨i, rfl⟩
  | none =>
    have hnone : none ∉ l := findIdx?_eq_none_iff.mp hf
    have hnodup : l.Nodup := by
      refine nodup_iff_getElem?_ne_getElem?.mpr fun i j hij hj he => ?_
      rw [getElem?_eq_getElem hj] at he
      cases hx : l[j] with
      | none => exact hnone (hx ▸ getElem_mem hj)
      | some a =>
        rw [hx] at he
        have := h i j a he (by rw [getElem?_eq_getElem hj, hx])
        omega
    have hsub : List.Subperm l (ks.map some) := by
      refine subperm_of_subset hnodup fun x hx => ?_
      cases x with
      | none => exact absurd hx hnone
      | some a => exact mem_map_of_mem (hks a hx)
    have := hsub.length_le
    rw [length_map] at this
    omega

end Base.SlotTable
