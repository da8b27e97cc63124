import Mathlib.Logic.Basic
import Mathlib.Tactic.TypeStar

/-! # Postconditions of computations that throw

One condition for the value and one for the exception. The rules follow a
computation step by step, so that an exception is judged where it is thrown.
-/

namespace Library

universe u

variable {ε : Type*} {α β : Type u} {Q : ε → Prop} {P P' : α → Prop} {R : β → Prop}

theorem ok_bind {a : α} {f : α → Except ε β} : (Except.ok a >>= f) = f a := rfl

theorem error_bind {e : ε} {f : α → Except ε β} : (Except.error e >>= f) = .error e := rfl

/-- A computation throws in its first step or in what follows it. -/
theorem bind_eq_error {x : Except ε α} {f : α → Except ε β} {e : ε} :
    (x >>= f) = .error e ↔ x = .error e ∨ ∃ a, x = .ok a ∧ f a = .error e := by
  cases x with
  | ok a => simp [ok_bind]
  | error e' => simp [error_bind]

/-- What is thrown meets `Q`, what is returned meets `P`. -/
def Post (Q : ε → Prop) (x : Except ε α) (P : α → Prop) : Prop :=
  match x with
  | .ok a => P a
  | .error e => Q e

@[simp] theorem post_ok {a : α} : Post Q (.ok a) P ↔ P a := Iff.rfl

@[simp] theorem post_error {e : ε} : Post Q (.error e) P ↔ Q e := Iff.rfl

@[simp] theorem post_pure {a : α} : Post Q (pure a) P ↔ P a := Iff.rfl

@[simp] theorem post_bind {x : Except ε α} {f : α → Except ε β} :
    Post Q (x >>= f) R ↔ Post Q x fun a => Post Q (f a) R := by
  cases x <;> rfl

@[simp] theorem post_map {x : Except ε α} {f : α → β} :
    Post Q (f <$> x) R ↔ Post Q x fun a => R (f a) := by
  cases x <;> rfl

theorem post_congr {x : Except ε α} (h : ∀ a, P a ↔ P' a) : Post Q x P ↔ Post Q x P' := by
  rw [funext fun a => propext (h a)]

theorem Post.mono {x : Except ε α} (h : Post Q x P) (hP : ∀ a, P a → P' a) : Post Q x P' := by
  cases x with
  | ok a => exact hP a h
  | error e => exact h

theorem Post.of_forall {x : Except ε α} (hQ : ∀ e, Q e) (hP : ∀ a, P a) : Post Q x P := by
  cases x with
  | ok a => exact hP a
  | error e => exact hQ e

/-- Where any exception will do, only what follows a step counts. -/
theorem Post.bind {x : Except ε α} {f : α → Except ε β} (h : ∀ a, Post (fun _ => True) (f a) R) :
    Post (fun _ => True) (x >>= f) R :=
  post_bind.mpr (Post.of_forall (fun _ => trivial) h)

theorem Post.of_ok {x : Except ε α} {a : α} (h : Post Q x P) (hx : x = .ok a) : P a := by
  rw [hx] at h
  exact h

end Library
