import XKernel.Lib.Bytes
/-!
# Computations over memory that is not trusted

A computation reads and writes memory whose answers are arbitrary and may depend on all
accesses so far. The accesses are logged, also those that fail. `Within P x`: every access of
`x` satisfies `P`, whatever the memory answers.
-/

namespace XKernel.Lib

open List

structure Access (α : Type) where
  isWrite : Bool
  addr : α
  len : Nat
  deriving DecidableEq, Repr

/-- How the memory answers after a number of accesses. -/
structure Memory (α ε : Type) where
  read : List (Access α) → α → (n : Nat) → Except ε { b : Bytes // b.length = n }
  write : List (Access α) → α → Bytes → Except ε Unit

/-- The same memory with all its errors replaced. -/
def Memory.withError {α ε : Type} (m : Memory α ε) (e : ε) : Memory α ε where
  read log a n := (m.read log a n).mapError fun _ => e
  write log a b := (m.write log a b).mapError fun _ => e

def AccessM (α ε β : Type) : Type := Memory α ε → List (Access α) → Except ε β × List (Access α)

namespace AccessM

variable {α ε β γ : Type}

instance : Monad (AccessM α ε) where
  pure b := fun _ log => (.ok b, log)
  bind x f := fun m log =>
    match x m log with
    | (.ok b, log) => f b m log
    | (.error e, log) => (.error e, log)

def fail (e : ε) : AccessM α ε β := fun _ log => (.error e, log)

/-- The `n` bytes at `a`. -/
def read (a : α) (n : Nat) : AccessM α ε Bytes := fun m log =>
  ((m.read log a n).map Subtype.val, log ++ [⟨false, a, n⟩])

def write (a : α) (b : Bytes) : AccessM α ε Unit := fun m log => (m.write log a b, log ++ [⟨true, a, b.length⟩])

/-- The computation with one error in place of its own. -/
def orFail (x : AccessM α ε β) (e : ε) : AccessM α ε β := fun m log =>
  match x m log with
  | (.ok b, log) => (.ok b, log)
  | (.error _, log) => (.error e, log)

/-! ## Where a computation accesses memory -/

def Within (P : Access α → Prop) (x : AccessM α ε β) : Prop :=
  ∀ m log, ∃ new, (x m log).2 = log ++ new ∧ ∀ a ∈ new, P a

variable {P : Access α → Prop}

theorem within_pure (b : β) : Within P (pure b : AccessM α ε β) := fun _ _ => ⟨[], by simp [pure], by simp⟩

theorem within_fail (e : ε) : Within P (fail e : AccessM α ε β) := fun _ _ => ⟨[], by simp [fail], by simp⟩

theorem within_read {a : α} {n : Nat} (h : P ⟨false, a, n⟩) : Within P (read a n : AccessM α ε Bytes) :=
  fun _ _ => ⟨_, rfl, by simpa using h⟩

theorem within_write {a : α} {b : Bytes} (h : P ⟨true, a, b.length⟩) : Within P (write a b : AccessM α ε Unit) :=
  fun _ _ => ⟨_, rfl, by simpa using h⟩

variable {x : AccessM α ε β} {f : β → AccessM α ε γ}

theorem Within.bind (hx : Within P x) (hf : ∀ b, Within P (f b)) :
    Within P (x >>= f) := by
  intro m log
  obtain ⟨new, hnew, hP⟩ := hx m log
  simp only [Bind.bind]
  rcases h : x m log with ⟨_ | b, log'⟩
  · rw [h] at hnew
    exact ⟨new, hnew, hP⟩
  · rw [h] at hnew
    obtain rfl : log' = log ++ new := hnew
    obtain ⟨more, hmore, hP'⟩ := hf b m (log ++ new)
    exact ⟨new ++ more, by rw [hmore, append_assoc], forall_mem_append.2 ⟨hP, hP'⟩⟩

theorem orFail_log (x : AccessM α ε β) (e : ε) (m : Memory α ε) (log : List (Access α)) :
    (x.orFail e m log).2 = (x m log).2 := by
  unfold orFail
  rcases x m log with ⟨_ | _, log'⟩ <;> rfl

theorem Within.orFail (hx : Within P x) (e : ε) : Within P (x.orFail e) := by
  intro m log
  rw [orFail_log]
  exact hx m log

/-- What a computation starts with stays in the log. -/
theorem bind_log_of {m : Memory α ε} {log : List (Access α)} {a : Access α}
    (hx : (x m log).2 = log ++ [a]) (hf : ∀ b, Within P (f b)) : ∃ new, ((x >>= f) m log).2 = log ++ a :: new := by
  simp only [Bind.bind]
  rcases h : x m log with ⟨_ | b, log'⟩ <;> rw [h] at hx <;> obtain rfl : log' = log ++ [a] := hx
  · exact ⟨[], rfl⟩
  · obtain ⟨new, hnew, -⟩ := hf b m (log ++ [a])
    exact ⟨new, by rw [hnew, append_assoc, singleton_append]⟩

end AccessM

end XKernel.Lib
