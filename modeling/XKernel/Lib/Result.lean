import Mathlib
/-!
# Fallible code

Functions that return an error or a result, written in `do` notation: what a successful
call says about the calls in it.
-/

namespace XKernel.Lib

universe u v

variable {ε : Type u} {α β : Type v}

@[simp]
theorem ok_bind (a : α) (f : α → Except ε β) : (Except.ok a >>= f) = f a := rfl

@[simp]
theorem error_bind (e : ε) (f : α → Except ε β) : (Except.error e >>= f) = .error e := rfl

@[simp]
theorem pure_eq_ok (a : α) : (pure a : Except ε α) = .ok a := rfl

variable {x : Except ε α}

theorem bind_eq_ok {f : α → Except ε β} {b : β} :
    (x >>= f) = .ok b ↔ ∃ a, x = .ok a ∧ f a = .ok b := by
  cases x with
  | error => simp
  | ok => simp

theorem map_eq_ok {f : α → β} {b : β} : (f <$> x) = .ok b ↔ ∃ a, x = .ok a ∧ f a = b := by
  cases x with
  | error => simp
  | ok => simp

/-- The guard at the head of a function: `if c { return Err(e) }`. -/
def failIf (c : Prop) [Decidable c] (e : ε) : Except ε Unit := if c then .error e else .ok ()

variable {e : ε}

@[simp]
theorem failIf_eq_ok {c : Prop} [Decidable c] {u : Unit} : failIf c e = .ok u ↔ ¬ c := by
  by_cases h : c
  · simp [failIf]
  · simp [failIf, h]

theorem failIf_bind {γ : Type} {c : Prop} [Decidable c] {f : Unit → Except ε γ} {b : γ} :
    (failIf c e >>= f) = .ok b ↔ ¬ c ∧ f () = .ok b := by
  by_cases h : c
  · simp [failIf, h]
  · simp [failIf, h]

/-- `Option::ok_or`. -/
def okOr (o : Option α) (e : ε) : Except ε α :=
  match o with
  | some a => .ok a
  | none => .error e

@[simp]
theorem okOr_some (a : α) (e : ε) : okOr (some a) e = .ok a := rfl

@[simp]
theorem okOr_none (e : ε) : (okOr none e : Except ε α) = .error e := rfl

theorem okOr_eq_ok {o : Option α} {a : α} : okOr o e = .ok a ↔ o = some a := by
  cases o with
  | none => simp
  | some => simp

end XKernel.Lib
