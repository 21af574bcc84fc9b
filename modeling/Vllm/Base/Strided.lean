import Mathlib.Algebra.BigOperators.Group.List.Basic
import Mathlib.Algebra.Ring.Nat

/-! Row-major tensors and strides. A multi-index has one entry per dimension; its flat index counts
the elements before it, and strides that are contiguous give the same number. -/

namespace Base.Strided

def InRange (idx shape : List Nat) : Prop := List.Forall₂ (· < ·) idx shape

def flat : List Nat → List Nat → Nat
  | _ :: ns, i :: is => i * ns.prod + flat ns is
  | _, _ => 0

def dot (idx strides : List Nat) : Nat := (List.zipWith (· * ·) idx strides).sum

/-- Strides under which the elements follow each other; those of dimensions of size one are free. -/
inductive Contiguous : List Nat → List Nat → Prop
  | nil : Contiguous [] []
  | cons {n d : Nat} {ns ds : List Nat} (hd : n ≠ 1 → d = ns.prod) (h : Contiguous ns ds) :
    Contiguous (n :: ns) (d :: ds)

theorem flat_lt {idx shape : List Nat} (h : InRange idx shape) : flat shape idx < shape.prod := by
  induction h with
  | nil => simp [flat]
  | @cons i n is ns hi _ ih =>
    rw [flat, List.prod_cons]
    calc i * ns.prod + flat ns is < i * ns.prod + ns.prod := Nat.add_lt_add_left ih _
      _ = (i + 1) * ns.prod := (Nat.succ_mul i ns.prod).symm
      _ ≤ n * ns.prod := Nat.mul_le_mul_right _ hi

theorem Contiguous.dot_eq {shape strides idx : List Nat} (h : Contiguous shape strides)
    (hidx : InRange idx shape) : dot idx strides = flat shape idx := by
  induction h generalizing idx with
  | nil =>
    cases hidx
    rfl
  | @cons n d ns ds hd _ ih =>
    obtain _ | @⟨i, _, is, _, hi, his⟩ := hidx
    have hrest : dot is ds = flat ns is := ih his
    have hfirst : i * d = i * ns.prod := by
      by_cases hn : n = 1
      · have hzero : i = 0 := by omega
        simp [hzero]
      · rw [hd hn]
    change i * d + dot is ds = i * ns.prod + flat ns is
    rw [hrest, hfirst]

end Base.Strided
