import Mathlib.Tactic.Common

/-! Calls that may raise. A Python call mutates objects as it goes, and an exception does not
undo what was mutated before it: the state survives both outcomes. `Call` keeps it in both, and
`Triple` has one postcondition for each. -/

namespace Base
open List

/-- The exceptions of the modelled code, with their messages where they have one. `outsideModel`
stands for a point where the code goes on with a value that the model does not have. -/
inductive PyError where
  | assertionError (message : String)
  | valueError (message : String)
  | runtimeError (message : String)
  | indexError
  | keyError
  | outsideModel
deriving DecidableEq, Repr

theorem except_bind_eq_ok {ε α β : Type} {x : Except ε α} {f : α → Except ε β} {b : β} :
    (x >>= f) = .ok b ↔ ∃ a, x = .ok a ∧ f a = .ok b := by
  cases x <;> simp [bind, Except.bind]

def Call (ε σ α : Type) := σ → Except ε α × σ

namespace Call
variable {ε σ τ α β : Type}

protected def pure (a : α) : Call ε σ α := fun s => (.ok a, s)

protected def bind (m : Call ε σ α) (f : α → Call ε σ β) : Call ε σ β := fun s =>
  match m s with
  | (.ok a, s') => f a s'
  | (.error e, s') => (.error e, s')

instance : Monad (Call ε σ) where
  pure := Call.pure
  bind := Call.bind

def get : Call ε σ σ := fun s => (.ok s, s)

def gets (f : σ → α) : Call ε σ α := fun s => (.ok (f s), s)

def modify (f : σ → σ) : Call ε σ Unit := fun s => (.ok (), f s)

def raise (e : ε) : Call ε σ α := fun s => (.error e, s)

/-- An `assert` statement, or a guard that raises. -/
def check (c : Bool) (e : ε) : Call ε σ Unit := if c then pure () else raise e

def when (c : Bool) (m : Call ε σ Unit) : Call ε σ Unit := if c then m else pure ()

def forEach (xs : List β) (f : β → Call ε σ Unit) : Call ε σ Unit :=
  match xs with
  | [] => pure ()
  | x :: xs => do f x; forEach xs f

def mapEach (xs : List β) (f : β → Call ε σ α) : Call ε σ (List α) :=
  match xs with
  | [] => pure []
  | x :: xs => do
    let y ← f x
    let ys ← mapEach xs f
    return y :: ys

/-- `try: m  except Exception: h; raise`. -/
def onError (m : Call ε σ α) (h : Call ε σ Unit) : Call ε σ α := fun s =>
  match m s with
  | (.ok a, s') => (.ok a, s')
  | (.error e, s') =>
    match h s' with
    | (.ok (), s'') => (.error e, s'')
    | (.error e', s'') => (.error e', s'')

def zoom (get : σ → τ) (set : τ → σ → σ) (m : Call ε τ α) : Call ε σ α := fun s =>
  ((m (get s)).1, set (m (get s)).2 s)

def lift (m : Call ε σ α) : Call ε (σ × τ) α := m.zoom Prod.fst fun s st => (s, st.2)

/-- A block whose local variables start as `init` and may be read by its handlers. -/
def withLocal (init : τ) (m : Call ε (σ × τ) α) : Call ε σ α := fun s =>
  ((m (s, init)).1, (m (s, init)).2.1)

@[simp] theorem run_pure (a : α) (s : σ) : (pure a : Call ε σ α) s = (.ok a, s) := rfl

theorem run_bind (m : Call ε σ α) (f : α → Call ε σ β) (s : σ) :
    (m >>= f) s = match m s with
      | (.ok a, s') => f a s'
      | (.error e, s') => (.error e, s') := rfl

theorem bind_assoc {γ : Type} (m : Call ε σ α) (f : α → Call ε σ β) (h : β → Call ε σ γ) :
    m >>= f >>= h = m >>= fun a => f a >>= h := by
  funext s
  simp only [run_bind]
  rcases m s with ⟨_ | _, _⟩ <;> rfl

theorem pure_bind (a : α) (f : α → Call ε σ β) : pure a >>= f = f a := rfl

theorem bind_pure_unit (m : Call ε σ Unit) : (m >>= fun _ => pure ()) = m := by
  funext s
  rw [run_bind]
  rcases m s with ⟨_ | _, _⟩ <;> rfl

/-! ## Calls that return

Each rule says when a call returns and what it leaves, so that a call which returned is taken apart
from the front. -/

section
variable {s s' : σ} {a : α} {b : β}

variable {m : Call ε σ α} {f : α → Call ε σ β} {e : ε} {c : Bool} {u : Unit}

@[simp] theorem bind_eq_ok :
    (m >>= f) s = (.ok b, s') ↔ ∃ a s₁, m s = (.ok a, s₁) ∧ f a s₁ = (.ok b, s') := by
  rw [run_bind]
  rcases hm : m s with ⟨_ | a, s₁⟩
  · simp
  · simp

theorem exists_of_map_eq {β : Type} {s : σ} {f : α → β} {b : β}
    (h : (m s).1.toOption.map f = some b) : ∃ a s', m s = (.ok a, s') ∧ f a = b := by
  obtain ⟨a, ha, hf⟩ := Option.map_eq_some_iff.mp h
  generalize m s = call at ha
  obtain ⟨res, s'⟩ := call
  cases res with
  | error e => cases ha
  | ok a' =>
    obtain rfl := Option.some.inj ha
    exact ⟨a', s', rfl, hf⟩

theorem bind_of_ok (h : m s = (.ok a, s')) : (m >>= f) s = f a s' := by
  rw [run_bind, h]

theorem bind_of_error (h : m s = (.error e, s')) : (m >>= f) s = (.error e, s') := by
  rw [run_bind, h]

theorem get_bind {f : σ → Call ε σ β} : (get >>= f) s = f s s := rfl

theorem gets_bind {g : σ → α} : (gets g >>= f) s = f (g s) s := rfl

theorem modify_bind {g : σ → σ} {f : Unit → Call ε σ β} : (modify g >>= f) s = f () (g s) := rfl

theorem check_bind {f : Unit → Call ε σ β} (h : c = true) : (check c e >>= f) s = f () s := by
  rw [h]
  rfl

theorem check_bind_error {f : Unit → Call ε σ β} (h : c = false) :
    (check c e >>= f) s = (.error e, s) := by
  rw [h]
  rfl

variable {a' : α}

@[simp] theorem pure_eq_ok :
    (pure a : Call ε σ α) s = (.ok a', s') ↔ a' = a ∧ s' = s := by simp [eq_comm]

@[simp] theorem get_eq_ok {t : σ} : (get : Call ε σ σ) s = (.ok t, s') ↔ t = s ∧ s' = s := by
  simp [get, eq_comm]

theorem modify_pure_eq_ok {f : σ → σ} :
    (modify f >>= fun _ => pure a : Call ε σ α) s = (.ok a', s') ↔ a' = a ∧ s' = f s := by
  rw [modify_bind, pure_eq_ok]

@[simp] theorem gets_eq_ok {f : σ → α} :
    (gets f : Call ε σ α) s = (.ok a, s') ↔ a = f s ∧ s' = s := by simp [gets, eq_comm]

@[simp] theorem modify_eq_ok {f : σ → σ} :
    (modify f : Call ε σ Unit) s = (.ok u, s') ↔ s' = f s := by simp [modify, eq_comm]

@[simp] theorem raise_ne_ok : (raise e : Call ε σ α) s ≠ (.ok a, s') := by simp [raise]

@[simp] theorem check_eq_ok : (check c e : Call ε σ Unit) s = (.ok u, s') ↔ c = true ∧ s' = s := by
  cases c with
  | true => simp [check, eq_comm]
  | false => simp [check, raise]

@[simp] theorem when_eq_ok {m : Call ε σ Unit} :
    (when c m) s = (.ok u, s') ↔ if c then m s = (.ok u, s') else s' = s := by
  cases c <;> simp [when, eq_comm]

theorem zoom_eq_ok {getc : σ → τ} {setc : τ → σ → σ} {m : Call ε τ α} :
    (m.zoom getc setc) s = (.ok a, s') ↔ ∃ t, m (getc s) = (.ok a, t) ∧ s' = setc t s := by
  unfold zoom
  rcases m (getc s) with ⟨_ | a, t⟩
  · simp
  · simp [eq_comm]

theorem lift_run {r : Except ε α} (h : m s = (r, s')) (t : τ) :
    (m.lift : Call ε (σ × τ) α) (s, t) = (r, (s', t)) := by
  simp only [lift, zoom, h]

@[simp] theorem lift_eq_ok {t t' : τ} :
    (m.lift : Call ε (σ × τ) α) (s, t) = (.ok a, (s', t')) ↔ m s = (.ok a, s') ∧ t' = t := by
  rw [lift, zoom_eq_ok]
  constructor
  · rintro ⟨s₁, h, he⟩
    cases he
    exact ⟨h, rfl⟩
  · rintro ⟨h, rfl⟩
    exact ⟨s', h, rfl⟩

theorem withLocal_eq_ok {init : τ} {m : Call ε (σ × τ) α} :
    (m.withLocal init) s = (.ok a, s') ↔ ∃ t, m (s, init) = (.ok a, (s', t)) := by
  unfold withLocal
  rcases m (s, init) with ⟨_ | a, s₁, t⟩
  · simp
  · simp

variable {xs : List β}

theorem forEach_ok {I : List β → σ → Prop} {f : β → Call ε σ Unit}
    (hstep : ∀ x xs s s', I (x :: xs) s → f x s = (.ok (), s') → I xs s') (hI : I xs s)
    (h : forEach xs f s = (.ok u, s')) : I [] s' := by
  induction xs generalizing s with
  | nil =>
    obtain ⟨-, rfl⟩ := pure_eq_ok.mp h
    exact hI
  | cons x xs ih =>
    obtain ⟨_, s₁, hx, h⟩ := bind_eq_ok.mp h
    exact ih (hstep x xs s s₁ hI hx) h

theorem mapEach_ok {P : β → α → Prop} {f : β → Call ε σ α} {as : List α}
    (hstep : ∀ x a s₁, f x s = (.ok a, s₁) → s₁ = s ∧ P x a)
    (h : mapEach xs f s = (.ok as, s')) : s' = s ∧ List.Forall₂ P xs as := by
  induction xs generalizing as with
  | nil =>
    obtain ⟨rfl, rfl⟩ := pure_eq_ok.mp h
    exact ⟨rfl, .nil⟩
  | cons x xs ih =>
    simp only [mapEach, bind_eq_ok] at h
    obtain ⟨a, s₁, hx, rest, s₂, hrest, rfl, rfl⟩ := h
    obtain ⟨rfl, ha⟩ := hstep x a s₁ hx
    obtain ⟨rfl, has⟩ := ih hrest
    exact ⟨rfl, .cons ha has⟩

theorem mapEach_map {γ : Type} (g : γ → β) (f : β → Call ε σ α) (xs : List γ) :
    mapEach (xs.map g) f = mapEach xs fun x => f (g x) := by
  induction xs with
  | nil => rfl
  | cons x xs ih => rw [map_cons, mapEach, mapEach, ih]

theorem mapEach_returns {f : β → Call ε σ α}
    (h : ∀ x ∈ xs, ∃ a, f x s = (.ok a, s)) : ∃ as, mapEach xs f s = (.ok as, s) := by
  induction xs with
  | nil => exact ⟨[], rfl⟩
  | cons x xs ih =>
    obtain ⟨a, ha⟩ := h x mem_cons_self
    obtain ⟨as, has⟩ := ih fun y hy => h y (mem_cons_of_mem x hy)
    refine ⟨a :: as, ?_⟩
    rw [mapEach, bind_of_ok ha, bind_of_ok has]
    rfl

end

/-! ## Exceptions of a call

A call that raised is taken apart like one that returned. `Avoids B` says that no exception of a
call is in `B`, whatever the state is. -/

section
variable {s s' : σ} {e : ε}

variable {m : Call ε σ α}

variable {f : α → Call ε σ β}

theorem bind_eq_error :
    (m >>= f) s = (.error e, s') ↔
      m s = (.error e, s') ∨ ∃ a s₁, m s = (.ok a, s₁) ∧ f a s₁ = (.error e, s') := by
  rw [run_bind]
  rcases hm : m s with ⟨_ | a, s₁⟩
  · simp
  · simp

variable {getc : σ → τ} {setc : τ → σ → σ}

theorem zoom_eq_error {m : Call ε τ α} :
    (m.zoom getc setc) s = (.error e, s') ↔ ∃ t, m (getc s) = (.error e, t) ∧ s' = setc t s := by
  unfold zoom
  rcases m (getc s) with ⟨_ | a, t⟩
  · simp [eq_comm]
  · simp

def Avoids (B : ε → Prop) (m : Call ε σ α) : Prop := ∀ ⦃s e s'⦄, m s = (.error e, s') → ¬B e

variable {B : ε → Prop}

@[grind ←] theorem avoids_pure (a : α) : Avoids B (pure a : Call ε σ α) := fun _ _ _ h => nomatch h

@[grind ←] theorem avoids_get : Avoids B (get : Call ε σ σ) := fun _ _ _ h => nomatch h

@[grind ←] theorem avoids_gets (f : σ → α) : Avoids B (gets f : Call ε σ α) := fun _ _ _ h => nomatch h

@[grind ←] theorem avoids_modify (f : σ → σ) : Avoids B (modify f : Call ε σ Unit) :=
  fun _ _ _ h => nomatch h

@[grind ←] theorem avoids_raise (h : ¬B e) : Avoids B (raise e : Call ε σ α) := by
  intro s e' s' hraise
  cases hraise
  exact h

@[grind ←] theorem avoids_check {c : Bool} (h : ¬B e) : Avoids B (check c e : Call ε σ Unit) := by
  cases c with
  | true => exact avoids_pure ()
  | false => exact avoids_raise h

@[grind ←] theorem avoids_bind (hm : Avoids B m) (hf : ∀ a, Avoids B (f a)) :
    Avoids B (m >>= f) := by
  intro s e s' h
  rcases bind_eq_error.mp h with h | ⟨a, s₁, -, h⟩
  · exact hm h
  · exact hf a h

variable {xs : List β}

@[grind ←] theorem avoids_forEach {f : β → Call ε σ Unit}
    (h : ∀ x, Avoids B (f x)) : Avoids B (forEach xs f) := by
  induction xs with
  | nil => exact avoids_pure ()
  | cons x xs ih => exact avoids_bind (h x) fun _ => ih

@[grind ←] theorem avoids_mapEach {f : β → Call ε σ α}
    (h : ∀ x, Avoids B (f x)) : Avoids B (mapEach xs f) := by
  induction xs with
  | nil => exact avoids_pure []
  | cons x xs ih => exact avoids_bind (h x) fun _ => avoids_bind ih fun _ => avoids_pure _

@[grind ←] theorem avoids_zoom {m : Call ε τ α} (h : Avoids B m) : Avoids B (m.zoom getc setc) := by
  intro s e s' hzoom
  obtain ⟨t, hm, -⟩ := zoom_eq_error.mp hzoom
  exact h hm

@[grind ←] theorem avoids_lift (h : Avoids B m) :
    Avoids B (m.lift : Call ε (σ × τ) α) := avoids_zoom h

end
end Call

/-! ## Pre- and postconditions -/

variable {ε σ τ α β : Type}

/-- From a state in `P`, a return value `a` leaves the state in `Q a`, and an exception leaves
it in `E`. -/
def Triple (P : σ → Prop) (m : Call ε σ α) (Q : α → σ → Prop) (E : ε → σ → Prop) : Prop :=
  ∀ s, P s → match m s with
    | (.ok a, s') => Q a s'
    | (.error e, s') => E e s'

namespace Triple
variable {P P' : σ → Prop} {Q Q' : α → σ → Prop} {E E' : ε → σ → Prop}

variable {m : Call ε σ α} {s : σ} {e : ε}

variable {s' : σ} {a : α}

theorem ok (h : Triple P m Q E) (hP : P s) (hr : m s = (.ok a, s')) : Q a s' := by
  have := h s hP
  rwa [hr] at this

theorem error (h : Triple P m Q E) (hP : P s) (hr : m s = (.error e, s')) : E e s' := by
  have := h s hP
  rwa [hr] at this

theorem snd {R : σ → Prop} (h : Triple P m (fun _ => R) fun _ => R) (hP : P s) : R (m s).2 := by
  have := h s hP
  split at this <;> simp_all

theorem exists_ok (h : Triple P m Q fun _ _ => False) (hP : P s) :
    ∃ a s', m s = (.ok a, s') ∧ Q a s' := by
  rcases hr : m s with ⟨e | a, s'⟩
  · exact (h.error hP hr).elim
  · exact ⟨a, s', rfl, h.ok hP hr⟩

section
variable (h : Triple P m Q E)
include h

theorem and (h' : Triple P m Q' E') :
    Triple P m (fun a s => Q a s ∧ Q' a s) fun e s => E e s ∧ E' e s := by
  intro s hs
  have h₁ := h s hs
  have h₂ := h' s hs
  rcases hr : m s with ⟨e | a, s'⟩ <;> rw [hr] at h₁ h₂ <;> exact ⟨h₁, h₂⟩

theorem weaken (hP : ∀ s, P' s → P s) (hQ : ∀ a s, Q a s → Q' a s)
    (hE : ∀ e s, E e s → E' e s) : Triple P' m Q' E' := by
  intro s hs
  have := h s (hP s hs)
  split at this
  · exact hQ _ _ this
  · exact hE _ _ this

theorem post (hQ : ∀ a s, Q a s → Q' a s) (hE : ∀ e s, E e s → E' e s) :
    Triple P m Q' E' := h.weaken (fun _ hs => hs) hQ hE

theorem mapError (hE : ∀ e s, E e s → E' e s) : Triple P m Q E' :=
  h.post (fun _ _ hq => hq) hE

theorem mapOk (hQ : ∀ a s, Q a s → Q' a s) : Triple P m Q' E :=
  h.post hQ fun _ _ he => he

theorem pre (hP : ∀ s, P' s → P s) : Triple P' m Q E :=
  h.weaken hP (fun _ _ hq => hq) fun _ _ he => he

end

theorem pure (a : α) (h : ∀ s, P s → Q a s) : Triple P (Pure.pure a : Call ε σ α) Q E :=
  fun s hs => h s hs

theorem skip : Triple P (Pure.pure a : Call ε σ α) (fun _ => P) E := .pure a fun _ hs => hs

theorem bind {R : β → σ → Prop} {f : α → Call ε σ β} (hm : Triple P m Q E)
    (hf : ∀ a, Triple (Q a) (f a) R E) : Triple P (m >>= f) R E := by
  intro s hs
  have h := hm s hs
  rw [Call.run_bind]
  rcases hms : m s with ⟨_ | a, s'⟩
  · rw [hms] at h
    exact h
  · rw [hms] at h
    exact hf a s' h

theorem get {Q : σ → σ → Prop} (h : ∀ s, P s → Q s s) : Triple P (Call.get : Call ε σ σ) Q E :=
  fun s hs => h s hs

theorem gets {f : σ → α} (h : ∀ s, P s → Q (f s) s) : Triple P (Call.gets f : Call ε σ α) Q E :=
  fun s hs => h s hs

theorem modify {f : σ → σ} {Q : Unit → σ → Prop} (h : ∀ s, P s → Q () (f s)) :
    Triple P (Call.modify f : Call ε σ Unit) Q E :=
  fun s hs => h s hs

theorem raise (h : ∀ s, P s → E e s) : Triple P (Call.raise e : Call ε σ α) Q E :=
  fun s hs => h s hs

theorem check {c : Bool} {Q : Unit → σ → Prop} (h : ∀ s, P s → c = true → Q () s)
    (he : ∀ s, P s → c = false → E e s) : Triple P (Call.check c e : Call ε σ Unit) Q E := by
  cases c with
  | true => exact fun s hs => h s hs rfl
  | false => exact fun s hs => he s hs rfl

theorem ite {c : Prop} [Decidable c] {m' : Call ε σ α} (h : c → Triple P m Q E)
    (h' : ¬c → Triple P m' Q E) : Triple P (if c then m else m') Q E := by
  split
  · exact h ‹_›
  · exact h' ‹_›

variable {f : β → Call ε σ Unit} {I : List β → List β → σ → Prop}

theorem forEach :
    ∀ (done xs : List β),
      (∀ pre x post, done ++ xs = pre ++ x :: post →
        Triple (I pre (x :: post)) (f x) (fun _ => I (pre ++ [x]) post) E) →
      Triple (I done xs) (Call.forEach xs f) (fun _ => I (done ++ xs) []) E
  | done, [], _ => by
      rw [append_nil]
      exact Triple.pure () fun _ hs => hs
  | done, x :: xs, h => by
      refine Triple.bind (h done x xs rfl) fun _ => ?_
      have hrec := forEach (done ++ [x]) xs fun pre y post he => h pre y post (by simpa using he)
      simpa using hrec

theorem forEach_inv {I : σ → Prop} (xs : List β) (h : ∀ x ∈ xs, Triple I (f x) (fun _ => I) E) :
    Triple I (Call.forEach xs f) (fun _ => I) E := by
  refine forEach (I := fun _ _ => I) [] xs fun pre x post he => h x ?_
  simp only [nil_append] at he
  simp [he]

theorem mapEach {f : β → Call ε σ α} :
    ∀ (done xs : List β),
      (∀ pre x post, done ++ xs = pre ++ x :: post →
        Triple (I pre (x :: post)) (f x) (fun _ => I (pre ++ [x]) post) E) →
      Triple (I done xs) (Call.mapEach xs f) (fun _ => I (done ++ xs) []) E
  | done, [], _ => by
      rw [append_nil]
      exact Triple.pure [] fun _ hs => hs
  | done, x :: xs, h => by
      refine Triple.bind (h done x xs rfl) fun _ => ?_
      have hrec := mapEach (done ++ [x]) xs fun pre y post he => h pre y post (by simpa using he)
      refine .bind hrec fun ys => .pure _ fun s hs => ?_
      simpa using hs

theorem onError {h : Call ε σ Unit} {F : ε → σ → Prop} (hm : Triple P m Q F)
    (hh : ∀ e, Triple (F e) h (fun _ s => E e s) E) : Triple P (m.onError h) Q E := by
  intro s hs
  have h1 := hm s hs
  unfold Call.onError
  rcases hms : m s with ⟨e | a, s'⟩
  · rw [hms] at h1
    have h2 := hh e s' h1
    rcases hhs : h s' with ⟨e' | u, s''⟩ <;> rw [hhs] at h2 <;> simpa [hhs] using h2
  · rw [hms] at h1
    exact h1

theorem zoom {getc : σ → τ} {setc : τ → σ → σ} {m : Call ε τ α}
    {A : σ → τ → Prop} {B : σ → α → τ → Prop} {C : σ → ε → τ → Prop}
    (hm : ∀ s, P s → Triple (A s) m (B s) (C s)) (hP : ∀ s, P s → A s (getc s))
    (hQ : ∀ s a t, P s → B s a t → Q a (setc t s))
    (hE : ∀ s e t, P s → C s e t → E e (setc t s)) : Triple P (m.zoom getc setc) Q E := by
  intro s hs
  have h := hm s hs (getc s) (hP s hs)
  unfold Call.zoom
  rcases hms : m (getc s) with ⟨e | a, t⟩
  · rw [hms] at h
    exact hE s e t hs h
  · rw [hms] at h
    exact hQ s a t hs h

theorem lift {A : σ × τ → Prop} {B : α → σ × τ → Prop} {C : ε → σ × τ → Prop}
    (hm : ∀ t, Triple (fun s => A (s, t)) m (fun a s => B a (s, t)) (fun e s => C e (s, t))) :
    Triple A (m.lift : Call ε (σ × τ) α) B C :=
  .zoom (A := fun st s => A (s, st.2)) (fun st _ => hm st.2) (fun _ h => h)
    (fun _ _ _ _ h => h) (fun _ _ _ _ h => h)

theorem withLocal {init : τ} {m : Call ε (σ × τ) α}
    (hm : Triple (fun st => P st.1 ∧ st.2 = init) m (fun a st => Q a st.1)
      (fun e st => E e st.1)) : Triple P (m.withLocal init) Q E := by
  intro s hs
  have h := hm (s, init) ⟨hs, rfl⟩
  unfold Call.withLocal
  rcases hms : m (s, init) with ⟨e | a, st⟩ <;> rw [hms] at h <;> exact h

theorem of_avoids {B : ε → Prop} (h : Call.Avoids B m)
    (hQ : ∀ s a s', P s → m s = (.ok a, s') → Q a s') : Triple P m Q fun e _ => ¬B e := by
  intro s hs
  rcases hr : m s with ⟨e | a, s'⟩
  · exact h hr
  · exact hQ s a s' hs hr

theorem of_forall (h : ∀ s₀, P s₀ → Triple (fun s => s = s₀) m Q E) :
    Triple P m Q E := fun s hs => h s hs s rfl

variable {s₀ : σ}

theorem of_run {m : Call ε σ α} {r : Except ε α × σ} (h : match r with
      | (.ok a, s') => Q a s'
      | (.error e, s') => E e s') (hr : m s₀ = r) : Triple (fun s => s = s₀) m Q E := by
  rintro _ rfl
  rw [hr]
  exact h

variable {s₁ : σ}

theorem of_ok (hr : m s₀ = (.ok a, s₁)) (h : Q a s₁) :
    Triple (fun s => s = s₀) m Q E := of_run (r := (.ok a, s₁)) h hr

theorem of_error (hr : m s₀ = (.error e, s₁)) (h : E e s₁) :
    Triple (fun s => s = s₀) m Q E := of_run (r := (.error e, s₁)) h hr

section
variable {s₀ : σ} {f : α → Call ε σ β} {R : β → σ → Prop}

variable {s₁ : σ}

theorem bind_run {m : Call ε σ α} {a : α} (hr : m s₀ = (.ok a, s₁))
    (h : Triple (fun s => s = s₁) (f a) R E) : Triple (fun s => s = s₀) (m >>= f) R E := by
  refine .bind (Q := fun a' s => a' = a ∧ s = s₁) (of_run (by exact ⟨rfl, rfl⟩) hr) fun a' =>
    fun s hs => ?_
  obtain ⟨rfl, rfl⟩ := hs
  exact h s rfl

theorem bind_error {m : Call ε σ α} {e : ε} (hr : m s₀ = (.error e, s₁)) (h : E e s₁) :
    Triple (fun s => s = s₀) (m >>= f) R E :=
  of_run (r := (.error e, s₁)) h (by rw [Call.run_bind, hr])

theorem bind_get {f : σ → Call ε σ β} (h : Triple (fun s => s = s₀) (f s₀) R E) :
    Triple (fun s => s = s₀) (Call.get >>= f) R E := bind_run rfl h

theorem bind_modify {g : σ → σ} {f : Unit → Call ε σ β}
    (h : Triple (fun s => s = g s₀) (f ()) R E) :
    Triple (fun s => s = s₀) (Call.modify g >>= f) R E := bind_run rfl h

theorem bind_check {c : Bool} {e : ε} {f : Unit → Call ε σ β}
    (h : c = true → Triple (fun s => s = s₀) (f ()) R E) (he : c = false → E e s₀) :
    Triple (fun s => s = s₀) (Call.check c e >>= f) R E := by
  cases c with
  | true => exact bind_run rfl (h rfl)
  | false => exact of_run (he rfl) rfl

end

theorem and_left {C : Prop} (h : C → Triple P m Q E) :
    Triple (fun s => C ∧ P s) m Q E := fun s hs => h hs.1 s hs.2

end Triple
end Base
