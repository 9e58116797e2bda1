import Mathlib.Logic.Basic

/-!
# Computations that may be a fault

`Except ε`, for any type `ε` of faults. A sequence of two computations returns when both do, and
is a fault when one of them is. `mapError` names the faults anew.
-/

namespace CellNet

namespace Fallible

universe u

variable {ε ε' : Type*} {α β : Type u}

@[simp] theorem ok_bind (a : α) (f : α → Except ε β) : ((.ok a : Except ε α) >>= f) = f a :=
  rfl

@[simp] theorem error_bind (e : ε) (f : α → Except ε β) :
    ((.error e : Except ε α) >>= f) = .error e :=
  rfl

@[simp] theorem pure_eq (a : α) : (pure a : Except ε α) = .ok a :=
  rfl

theorem bind_eq_ok {x : Except ε α} {f : α → Except ε β} {b : β} :
    (x >>= f) = .ok b ↔ ∃ a, x = .ok a ∧ f a = .ok b := by
  cases x <;> simp

theorem bind_eq_error {x : Except ε α} {f : α → Except ε β} {e : ε} :
    (x >>= f) = .error e ↔ x = .error e ∨ ∃ a, x = .ok a ∧ f a = .error e := by
  cases x <;> simp

theorem mapError_eq_ok {f : ε → ε'} {x : Except ε α} {a : α} :
    x.mapError f = .ok a ↔ x = .ok a := by
  cases x with
  | ok b => exact ⟨fun h => congrArg _ (Except.ok.inj h), fun h => congrArg _ (Except.ok.inj h)⟩
  | error d => exact iff_of_false (fun h => by cases h) (fun h => by cases h)

theorem mapError_eq_error {f : ε → ε'} {x : Except ε α} {e : ε'} :
    x.mapError f = .error e ↔ ∃ d, x = .error d ∧ f d = e := by
  cases x with
  | ok b =>
    refine iff_of_false (fun h => by cases h) ?_
    rintro ⟨d, hd, -⟩
    cases hd
  | error d =>
    constructor
    · intro h
      exact ⟨d, rfl, Except.error.inj h⟩
    · rintro ⟨d', hd, rfl⟩
      cases hd
      rfl

end Fallible

end CellNet
