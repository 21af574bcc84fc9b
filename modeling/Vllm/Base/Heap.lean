import Mathlib.Data.List.Perm.Basic

/-! Binary heaps kept in a list, as `heapq` does it. An item that `heapq` holds back while it shifts
others is moved here by exchanges, which leave the same list. -/

namespace Base.Heap
open List
variable {α : Type} (lt : α → α → Bool)

def swap (heap : List α) (i j : Nat) : List α :=
  match heap[i]?, heap[j]? with
  | some a, some b => (heap.set i b).set j a
  | _, _ => heap

def siftdown (startpos : Nat) : Nat → Nat → List α → List α
  | 0, _, heap => heap
  | fuel + 1, pos, heap =>
    let parentpos := (pos - 1) / 2
    match heap[pos]?, heap[parentpos]? with
    | some newitem, some parent =>
      if pos > startpos ∧ lt newitem parent then
        siftdown startpos fuel parentpos (swap heap pos parentpos)
      else heap
    | _, _ => heap

def smallerChild (heap : List α) (pos : Nat) : Option Nat :=
  match heap[2 * pos + 1]?, heap[2 * pos + 2]? with
  | some left, some right => if lt left right then some (2 * pos + 1) else some (2 * pos + 2)
  | some _, none => some (2 * pos + 1)
  | none, _ => none

def toLeaf : Nat → Nat → List α → Nat × List α
  | 0, pos, heap => (pos, heap)
  | fuel + 1, pos, heap =>
    match smallerChild lt heap pos with
    | some child => toLeaf fuel child (swap heap pos child)
    | none => (pos, heap)

def siftup (pos : Nat) (heap : List α) : List α :=
  let (leaf, heap) := toLeaf lt heap.length pos heap
  siftdown lt pos leaf leaf heap

def heappush (heap : List α) (item : α) : List α :=
  siftdown lt 0 heap.length heap.length (heap ++ [item])

/-- The heap left by `heappop`; the item popped is the head. -/
def heappop : List α → List α
  | [] => []
  | _ :: heap =>
    match heap.getLast? with
    | some last => siftup lt 0 (last :: heap.dropLast)
    | none => []

def heapify (heap : List α) : List α :=
  (List.range (heap.length / 2)).reverse.foldl (fun heap i => siftup lt i heap) heap

def popOrder : Nat → List α → List α
  | 0, _ => []
  | _, [] => []
  | fuel + 1, item :: heap => item :: popOrder fuel (heappop lt (item :: heap))

/-! ## No operation loses or repeats an item -/

theorem swap_perm (heap : List α) (i j : Nat) : (swap heap i j).Perm heap := by
  unfold swap
  split
  · next a b ha hb =>
    obtain ⟨hi, rfl⟩ := List.getElem?_eq_some_iff.mp ha
    obtain ⟨hj, rfl⟩ := List.getElem?_eq_some_iff.mp hb
    exact set_set_perm hi hj
  · exact List.Perm.refl _

theorem siftdown_perm (startpos fuel pos : Nat) (heap : List α) :
    (siftdown lt startpos fuel pos heap).Perm heap := by
  induction fuel generalizing pos heap with
  | zero => exact List.Perm.refl _
  | succ fuel ih =>
    simp only [siftdown]
    split
    · split
      · exact (ih _ _).trans (swap_perm heap _ _)
      · exact List.Perm.refl _
    · exact List.Perm.refl _

theorem toLeaf_perm (fuel pos : Nat) (heap : List α) : (toLeaf lt fuel pos heap).2.Perm heap := by
  induction fuel generalizing pos heap with
  | zero => exact List.Perm.refl _
  | succ fuel ih =>
    unfold toLeaf
    split
    · exact (ih _ _).trans (swap_perm heap _ _)
    · exact List.Perm.refl _

theorem siftup_perm (pos : Nat) (heap : List α) : (siftup lt pos heap).Perm heap :=
  (siftdown_perm lt pos _ _ _).trans (toLeaf_perm lt heap.length pos heap)

theorem heappush_perm (heap : List α) (item : α) : (heappush lt heap item).Perm (item :: heap) :=
  (siftdown_perm lt 0 _ _ _).trans perm_append_comm

theorem heappop_perm (item : α) (heap : List α) : (heappop lt (item :: heap)).Perm heap := by
  simp only [heappop]
  split
  · next last hlast =>
    refine (siftup_perm lt 0 _).trans ?_
    have hsplit : heap.dropLast ++ [last] = heap := dropLast_append_getLast? last hlast
    conv_rhs => rw [← hsplit]
    exact (perm_append_singleton last heap.dropLast).symm
  · next hlast => rw [getLast?_eq_none_iff.mp hlast]

theorem heapify_perm (heap : List α) : (heapify lt heap).Perm heap := by
  unfold heapify
  generalize (List.range (heap.length / 2)).reverse = order
  induction order generalizing heap with
  | nil => exact List.Perm.refl _
  | cons i order ih => exact (ih _).trans (siftup_perm lt i heap)

theorem popOrder_perm (fuel : Nat) (heap : List α) (h : heap.length ≤ fuel) :
    (popOrder lt fuel heap).Perm heap := by
  induction fuel generalizing heap with
  | zero => rw [eq_nil_of_length_eq_zero (Nat.le_zero.mp h)]; exact List.Perm.refl _
  | succ fuel ih =>
    cases heap with
    | nil => exact List.Perm.refl _
    | cons item heap =>
      have hpop := heappop_perm lt item heap
      refine List.Perm.cons item ((ih _ ?_).trans hpop)
      rw [hpop.length_eq]
      simpa using h

end Base.Heap
