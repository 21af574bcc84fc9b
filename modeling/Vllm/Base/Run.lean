import Mathlib.Tactic.Common

/-! Runs of a machine whose steps are actions: the states reached from a start by actions that are
allowed where they are taken. -/

namespace Base

variable {α σ : Type}

/-- `Run next ok s t`: from `s`, actions that are `ok` where they are taken lead to `t`. -/
inductive Run (next : α → σ → σ) (ok : α → σ → Prop) (s : σ) : σ → Prop where
  | refl : Run next ok s s
  | step {t : σ} (a : α) (run : Run next ok s t) (h : ok a t) : Run next ok s (next a t)

namespace Run
variable {next : α → σ → σ} {ok : α → σ → Prop} {s t : σ}

theorem inv {I : σ → Prop} (run : Run next ok s t) (h₀ : I s)
    (hstep : ∀ a t, I t → ok a t → I (next a t)) : I t := by
  induction run with
  | refl => exact h₀
  | step a _ h ih => exact hstep a _ ih h

theorem mono {ok' : α → σ → Prop} (run : Run next ok s t) (h : ∀ a t, ok a t → ok' a t) :
    Run next ok' s t := by
  induction run with
  | refl => exact refl
  | step a _ ha ih => exact ih.step a (h a _ ha)

def Allowed (next : α → σ → σ) (ok : α → σ → Prop) : List α → σ → Prop
  | [], _ => True
  | a :: as, s => ok a s ∧ Allowed next ok as (next a s)

instance decidableAllowed [∀ a s, Decidable (ok a s)] :
    ∀ as s, Decidable (Allowed next ok as s)
  | [], _ => isTrue trivial
  | a :: as, s =>
    have := decidableAllowed as (next a s)
    inferInstanceAs (Decidable (_ ∧ _))

theorem append {u : σ} (h : Run next ok s t) (h' : Run next ok t u) : Run next ok s u := by
  induction h' with
  | refl => exact h
  | step a _ ha ih => exact ih.step a ha

theorem single {a : α} (h : ok a s) : Run next ok s (next a s) := refl.step a h

theorem of_allowed {as : List α} {s : σ} (h : Allowed next ok as s) :
    Run next ok s (as.foldl (fun s a => next a s) s) := by
  induction as generalizing s with
  | nil => exact refl
  | cons a as ih => exact (refl.step a h.1).append (ih h.2)

end Run
end Base
