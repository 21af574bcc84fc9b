import Mathlib.Data.List.Induction
import Mathlib.Data.List.Nodup

/-! Hash chains: each digest covers the previous digest and one more item, so over an injective
step the last digest determines every item before it. -/

namespace Base
open List
variable {D X : Type} (step : D → X → D)

def hashChain (d : D) : List X → List D
  | [] => []
  | x :: xs => step d x :: hashChain (step d x) xs

@[simp] theorem length_hashChain (d : D) (xs : List X) :
    (hashChain step d xs).length = xs.length := by
  induction xs generalizing d with
  | nil => rfl
  | cons x xs ih => simp [hashChain, ih]

theorem hashChain_append (d : D) (xs ys : List X) :
    hashChain step d (xs ++ ys) = hashChain step d xs ++ hashChain step (xs.foldl step d) ys := by
  induction xs generalizing d with
  | nil => rfl
  | cons x xs ih => simp [hashChain, ih]

section
variable (d : D) (xs : List X)

theorem getLast?_hashChain : (hashChain step d xs).getLast?.getD d = xs.foldl step d := by
  induction xs generalizing d with
  | nil => rfl
  | cons x xs ih =>
    rw [foldl_cons, ← ih, hashChain, getLast?_cons]
    rfl

theorem take_hashChain (n : Nat) : (hashChain step d xs).take n = hashChain step d (xs.take n) := by
  induction xs generalizing d n with
  | nil => simp [hashChain]
  | cons x xs ih =>
    cases n with
    | zero => rfl
    | succ n => simp [hashChain, ih]

theorem getElem?_hashChain (i : Nat) (h : i < xs.length) :
    (hashChain step d xs)[i]? = some ((xs.take (i + 1)).foldl step d) := by
  induction xs generalizing d i with
  | nil => simp at h
  | cons x xs ih =>
    cases i with
    | zero => simp [hashChain]
    | succ i =>
      have := ih (step d x) i (by simpa using h)
      simpa [hashChain] using this

end

variable {step}

section
variable (hs : Function.Injective2 step)
include hs

theorem foldl_inj_of_length_eq (d : D) {xs ys : List X}
    (hl : xs.length = ys.length) (h : xs.foldl step d = ys.foldl step d) : xs = ys := by
  induction xs using List.reverseRecOn generalizing ys with
  | nil => simpa using hl.symm
  | append_singleton xs x ih =>
    rcases eq_nil_or_concat ys with rfl | ⟨ys, y, rfl⟩
    · simp at hl
    · simp only [concat_eq_append, foldl_append] at h
      obtain ⟨hd, rfl⟩ := hs h
      rw [ih (by simpa using hl) hd, concat_eq_append]

theorem foldl_inj {d : D} (hd : ∀ d' x, step d' x ≠ d)
    {xs ys : List X} (h : xs.foldl step d = ys.foldl step d) : xs = ys := by
  induction xs using List.reverseRecOn generalizing ys with
  | nil =>
    rcases eq_nil_or_concat ys with rfl | ⟨ys, y, rfl⟩
    · rfl
    · exact absurd (by simpa using h.symm) (hd (ys.foldl step d) y)
  | append_singleton xs x ih =>
    rcases eq_nil_or_concat ys with rfl | ⟨ys, y, rfl⟩
    · exact absurd (by simpa using h) (hd (xs.foldl step d) x)
    · simp only [concat_eq_append, foldl_append] at h
      obtain ⟨hp, rfl⟩ := hs h
      rw [ih hp, concat_eq_append]

theorem nodup_hashChain {d : D} (hd : ∀ d' x, step d' x ≠ d)
    (xs : List X) : (hashChain step d xs).Nodup := by
  rw [nodup_iff_getElem?_ne_getElem?]
  intro i j hij hj heq
  rw [length_hashChain] at hj
  rw [getElem?_hashChain step d xs i (Nat.lt_trans hij hj), getElem?_hashChain step d xs j hj] at heq
  have hlen := congrArg List.length (foldl_inj hs hd (Option.some.inj heq))
  simp only [length_take] at hlen
  omega

end

end Base
