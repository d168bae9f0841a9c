import Mathlib
/-!
# Counting covers

A block is a start and a length. How often a number is covered by a list of blocks
is a sum, so moving a block from one list to another, cutting it or joining it with
its neighbour are equations between sums.
-/

namespace XKernel.Lib.Cover

open Function List

/-- Whether a block covers `x`, as a number. -/
def hits (x : Nat) (b : Nat × Nat) : Nat := if b.1 ≤ x ∧ x < b.1 + b.2 then 1 else 0

/-- How many blocks cover `x`. -/
def total (x : Nat) (l : List (Nat × Nat)) : Nat := (l.map (hits x)).sum

variable {b : Nat × Nat}

theorem hits_eq_zero {x : Nat} (h : ¬ (b.1 ≤ x ∧ x < b.1 + b.2)) : hits x b = 0 := if_neg h

@[simp] theorem hits_zero_length (x a : Nat) : hits x (a, 0) = 0 := hits_eq_zero (by simp only; omega)

theorem hits_add (x a m n : Nat) : hits x (a, m + n) = hits x (a, m) + hits x (a + m, n) := by
  unfold hits
  split <;> split <;> split <;> omega

@[simp] theorem total_nil (x : Nat) : total x [] = 0 := rfl

@[simp] theorem total_cons (x : Nat) (b : Nat × Nat) (l : List (Nat × Nat)) :
    total x (b :: l) = hits x b + total x l := by
  simp [total]

@[simp] theorem total_append (x : Nat) (l l' : List (Nat × Nat)) : total x (l ++ l') = total x l + total x l' := by
  simp [total]

theorem total_perm {l l' : List (Nat × Nat)} (h : l.Perm l') (x : Nat) : total x l = total x l' :=
  (h.map (hits x)).sum_eq

/-- Consecutive blocks of one length cover what one long block covers. -/
theorem total_consecutive (x base len k : Nat) :
    total x ((range k).map fun i => (base + i * len, len)) = hits x (base, k * len) := by
  induction k with
  | zero => simp
  | succ k ih =>
    rw [range_succ, map_append, total_append, ih, Nat.succ_mul, hits_add]
    simp

/-- The blocks of one length at the given addresses. -/
def blocks (len : Nat) (addrs : List Nat) : List (Nat × Nat) := addrs.map fun a => (a, len)

@[simp] theorem blocks_nil (len : Nat) : blocks len [] = [] := rfl

@[simp] theorem blocks_cons (len a : Nat) (as : List Nat) : blocks len (a :: as) = (a, len) :: blocks len as := rfl

@[simp] theorem blocks_append (len : Nat) (as bs : List Nat) : blocks len (as ++ bs) = blocks len as ++ blocks len bs :=
  map_append

/-- One value of a family of lists changes, and the family's sum with it. -/
theorem sum_update {ι α : Type} [DecidableEq ι] (f : ι → α → Nat) (g : ι → α) {s : Finset ι} {k : ι} (hk : k ∈ s)
    (v : α) :
    ∑ i ∈ s, f i (update g k v i) + f k (g k) = ∑ i ∈ s, f i (g i) + f k v := by
  rw [← Finset.add_sum_erase s _ hk, ← Finset.add_sum_erase s (fun i => f i (g i)) hk, update_self]
  have e : ∑ i ∈ s.erase k, f i (update g k v i) = ∑ i ∈ s.erase k, f i (g i) :=
    Finset.sum_congr rfl fun i hi => by rw [update_of_ne (Finset.ne_of_mem_erase hi)]
  rw [e]
  ring

end XKernel.Lib.Cover
