import Mathlib
/-!
# Loops with a condition at the head

The body of a loop goes on with a new state or returns a result. `run n` is the result when the
body is executed at most `n` times. A loop returns when its body decreases a rank; two loops
whose bodies agree on every state that is reached do the same.
-/

namespace XKernel.Lib

open Option

/-- What the body of a loop does: `continue`, or `return`. -/
inductive Outcome (σ α : Type)
  | goes (s : σ)
  | halts (a : α)
  deriving DecidableEq, Repr

structure Loop (σ α : Type) where
  /-- The value behind the loop, when its condition fails. -/
  exit : σ → Option α
  body : σ → Outcome σ α

namespace Loop

variable {σ α : Type} (L : Loop σ α)

/-- The result, when at most `n` executions of the body lead to it. -/
def run : Nat → σ → Option α
  | 0, s => L.exit s
  | n + 1, s =>
    match L.exit s with
    | some a => some a
    | none =>
      match L.body s with
      | .goes s' => run n s'
      | .halts a => some a

/-- The state at the head of the loop before the body is executed for the `n`-th time. -/
def before : Nat → σ → Option σ
  | 0, s => if (L.exit s).isNone then some s else none
  | n + 1, s =>
    if (L.exit s).isNone then
      match L.body s with
      | .goes s' => before n s'
      | .halts _ => none
    else none

variable {L} {L' : Loop σ α} {s s' : σ}

theorem run_of_exit {a : α} (h : L.exit s = some a) (n : Nat) : L.run n s = some a := by
  cases n <;> simp [run, h]

section

variable (hexit : L.exit s = none)
include hexit

theorem run_succ_goes (hbody : L.body s = .goes s') (n : Nat) : L.run (n + 1) s = L.run n s' := by
  simp [run, hexit, hbody]

theorem run_succ_halts {a : α} (hbody : L.body s = .halts a) (n : Nat) :
    L.run (n + 1) s = some a := by
  simp [run, hexit, hbody]

theorem before_zero : L.before 0 s = some s := by
  simp [before, hexit]

theorem before_succ_goes (hbody : L.body s = .goes s') (n : Nat) :
    L.before (n + 1) s = L.before n s' := by
  simp [before, hexit, hbody]

/-- The body leaves the state as it is: the loop does not return. -/
theorem run_stuck (hbody : L.body s = .goes s) (n : Nat) : L.run n s = none := by
  induction n with
  | zero => exact hexit
  | succ n ih => rw [run_succ_goes hexit hbody, ih]

end

/-- The state that the body makes of a state at the head, unless the loop ends there. -/
theorem before_succ {n : Nat} {t t' : σ} (hn : L.before n s = some t) (hbody : L.body t = .goes t')
    (hexit : L.exit t' = none) :
    L.before (n + 1) s = some t' := by
  induction n generalizing s with
  | zero =>
    simp only [before, isNone_iff_eq_none, ite_none_right_eq_some, some.injEq] at hn
    obtain ⟨hs, rfl⟩ := hn
    rw [before_succ_goes hs hbody, before_zero hexit]
  | succ n ih =>
    simp only [before, isNone_iff_eq_none, ite_none_right_eq_some] at hn
    obtain ⟨hs, hn⟩ := hn
    cases hb : L.body s with
    | goes =>
      rw [hb] at hn
      rw [before_succ_goes hs hb]
      exact ih hn
    | halts =>
      rw [hb] at hn
      cases hn

/-- A loop whose body decreases a rank returns, and the body is executed at most as often as
the rank says. -/
theorem exists_run (I : σ → Prop) (rank : σ → Nat)
    (hstep : ∀ s s', I s → L.exit s = none → L.body s = .goes s' → I s' ∧ rank s' < rank s)
    (hzero : ∀ s, I s → rank s = 0 → L.exit s ≠ none) {n : Nat} (hs : I s) (hn : rank s ≤ n) :
    ∃ a, L.run n s = some a := by
  induction n generalizing s with
  | zero => exact ne_none_iff_exists'.1 (hzero s hs (Nat.le_zero.1 hn))
  | succ n ih =>
    cases hexit : L.exit s with
    | some a => exact ⟨a, run_of_exit hexit _⟩
    | none =>
      cases hbody : L.body s with
      | halts a => exact ⟨a, run_succ_halts hexit hbody n⟩
      | goes s' =>
        obtain ⟨hs', hlt⟩ := hstep s s' hs hexit hbody
        rw [run_succ_goes hexit hbody]
        exact ih hs' (by omega)

/-- Two loops with the same condition whose bodies agree at the head of every round. -/
theorem run_congr (hexit : ∀ s, L'.exit s = L.exit s)
    (hbody : ∀ n t, L.before n s = some t → L'.body t = L.body t) (n : Nat) :
    L'.run n s = L.run n s ∧ L'.before n s = L.before n s := by
  induction n generalizing s with
  | zero => exact ⟨hexit s, by simp [before, hexit s]⟩
  | succ n ih =>
    cases he : L.exit s with
    | some => simp [run, before, hexit s, he]
    | none =>
      have hb := hbody 0 s (before_zero he)
      cases hb' : L.body s with
      | halts => simp [run, before, hexit s, hb, hb']
      | goes s' =>
        have hs' := ih fun k t ht => hbody (k + 1) t (by rw [before_succ_goes he hb', ht])
        simpa [run, before, hexit s, he, hb, hb'] using hs'

end Loop

end XKernel.Lib
