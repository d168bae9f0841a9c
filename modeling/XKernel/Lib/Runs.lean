import Mathlib
/-!
# Runs of a step function

A component is a state type with a partial step function: `none` means that the
code stops there (a failed assertion, an index out of bounds). What a caller
owes before a step is the condition `ok`, so a theorem about every `Run` is a
theorem about every sequence of calls that keeps the callers' side.
-/

namespace XKernel.Lib

open Option

variable {σ ο : Type}

/-- States reached from `s₀` by steps that `ok` allows. -/
inductive Run (step : σ → ο → Option σ) (ok : σ → ο → Prop) (s₀ : σ) : σ → Prop
  | nil : Run step ok s₀ s₀
  | snoc {s s' : σ} {o : ο} : Run step ok s₀ s → ok s o → step s o = some s' → Run step ok s₀ s'

variable {step : σ → ο → Option σ} {ok : σ → ο → Prop} {s₀ : σ}

/-- An invariant of the start that every allowed step keeps holds after every run. -/
theorem Run.inv (I : σ → Prop) (h0 : I s₀) (hs : ∀ s o s', I s → ok s o → step s o = some s' → I s')
    {s : σ} (h : Run step ok s₀ s) : I s := by
  induction h with
  | nil => exact h0
  | snoc _ hok hst ih => exact hs _ _ _ ih hok hst

/-- A run under a stronger condition is a run. -/
theorem Run.mono {ok' : σ → ο → Prop} (hok : ∀ s o, ok s o → ok' s o) {s : σ} (h : Run step ok s₀ s) :
    Run step ok' s₀ s := by
  induction h with
  | nil => exact .nil
  | snoc _ h1 hst ih => exact .snoc ih (hok _ _ h1) hst

/-! ## Runs with their history -/

/-- The step function that also notes each step with the state before it, so that `ok` can
speak about earlier steps. -/
def recorded (step : σ → ο → Option σ) (r : List (σ × ο) × σ) (o : ο) : Option (List (σ × ο) × σ) :=
  (step r.2 o).map fun s' => (r.1 ++ [(r.2, o)], s')

theorem recorded_eq_some {r r' : List (σ × ο) × σ} {o : ο} :
    recorded step r o = some r' ↔ r'.1 = r.1 ++ [(r.2, o)] ∧ step r.2 o = some r'.2 := by
  unfold recorded
  rw [map_eq_some_iff]
  constructor
  · rintro ⟨s', hs, rfl⟩
    exact ⟨rfl, hs⟩
  · rintro ⟨h1, hs⟩
    exact ⟨r'.2, hs, by rw [← h1]⟩

/-- Without its history, a recorded run is a run. -/
theorem Run.of_recorded {ok' : List (σ × ο) × σ → ο → Prop} {r : List (σ × ο) × σ}
    (h : Run (recorded step) ok' ([], s₀) r) : Run step (fun _ _ => True) s₀ r.2 :=
  h.inv (fun r => Run step (fun _ _ => True) s₀ r.2) .nil fun _ _ _ hr _ hst => hr.snoc trivial
    (recorded_eq_some.1 hst).2

/-! ## Executing a run -/

variable [∀ s o, Decidable (ok s o)]

/-- The state after a list of steps, if all of them are allowed and succeed. -/
def exec (step : σ → ο → Option σ) (ok : σ → ο → Prop) [∀ s o, Decidable (ok s o)] (s : σ) : List ο → Option σ
  | [] => some s
  | o :: os => if ok s o then (step s o).bind fun s' => exec step ok s' os else none

theorem Run.of_exec {s t : σ} {os : List ο} (hr : Run step ok s₀ s) (h : exec step ok s os = some t) :
    Run step ok s₀ t := by
  induction os generalizing s with
  | nil =>
    obtain rfl : s = t := by simpa [exec] using h
    exact hr
  | cons o os ih =>
    simp only [exec] at h
    split at h
    · rename_i hok
      obtain ⟨s', hs', h⟩ := bind_eq_some_iff.1 h
      exact ih (hr.snoc hok hs') h
    · cases h

/-- A check of the state after a list of steps is a check of some run. -/
theorem Run.exists_of_exec {p : σ → Prop} [DecidablePred p] (os : List ο)
    (h : (exec step ok s₀ os).any (fun s => p s) = true) : ∃ s, Run step ok s₀ s ∧ p s := by
  obtain ⟨s, hs, hp⟩ := (any_eq_true _ _).1 h
  exact ⟨s, Run.nil.of_exec hs, of_decide_eq_true hp⟩

/-! ## States that are maps -/

/-- A value of a map that was changed at one key is the new one or was there before. -/
theorem update_apply_eq_iff {α β : Type} [DecidableEq α] {f : α → β} {c d : α} {a b : β} :
    Function.update f c a d = b ↔ d = c ∧ a = b ∨ d ≠ c ∧ f d = b := by
  rcases eq_or_ne d c with rfl | hne
  · simp
  · simp [hne]

end XKernel.Lib
