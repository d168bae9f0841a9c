import Mathlib
/-!
# Ordered indices

An intrusive search tree holds handles and reads their keys from the objects they
stand for. It is the list of its handles in the order of their keys; equal keys stay
in the order of their insertion.
-/

namespace XKernel.Lib.Index

open List

variable {α κ : Type*} [LinearOrder κ]

def insert (key : α → κ) (a : α) : List α → List α
  | [] => [a]
  | b :: l => if key a < key b then a :: b :: l else b :: insert key a l

def find (key : α → κ) (k : κ) (l : List α) : Option α := l.find? fun a => key a = k

/-- Where a cursor stands after the element it was on is removed. -/
def next [DecidableEq α] (a : α) : List α → Option α
  | [] => none
  | b :: l => if b = a then l.head? else next a l

/-- Every handle has its own key, and the handles stand in the order of the keys. -/
def Sorted (key : α → κ) (l : List α) : Prop := l.Pairwise fun a b => key a < key b

variable {key key' : α → κ} {a b : α} {l : List α}

theorem insert_perm (key : α → κ) (a : α) (l : List α) : (insert key a l).Perm (a :: l) := by
  induction l with
  | nil => exact .refl _
  | cons b l ih =>
    unfold insert
    split
    · exact .refl _
    · exact (ih.cons b).trans (.swap a b l)

@[simp]
theorem head?_insert (key : α → κ) (a : α) (l : List α) :
    (insert key a l).head? = if l.head?.all (key a < key ·) then some a else l.head? := by
  cases l with
  | nil => rfl
  | cons b =>
    unfold insert
    by_cases h : key a < key b
    · simp [h]
    · simp [h]

/-- A cursor on the first element knows the first of the others. -/
theorem head?_erase [DecidableEq α] (a : α) (l : List α) :
    (l.erase a).head? = if l.head? = some a then next a l else l.head? := by
  cases l with
  | nil => rfl
  | cons b =>
    by_cases h : b = a
    · simp [h, next]
    · simp [h]

theorem mem_insert : b ∈ insert key a l ↔ b = a ∨ b ∈ l := by
  rw [(insert_perm key a l).mem_iff, mem_cons]

namespace Sorted

theorem insert (h : Sorted key l) (hne : ∀ b ∈ l, key b ≠ key a) : Sorted key (insert key a l) := by
  induction l with
  | nil => exact pairwise_singleton _ a
  | cons b l ih =>
    obtain ⟨hb, hl⟩ := pairwise_cons.1 h
    unfold Index.insert
    split
    · rename_i hab
      exact pairwise_cons.2 ⟨forall_mem_cons.2 ⟨hab, fun c hc => lt_trans hab (hb c hc)⟩, h⟩
    · rename_i hab
      refine pairwise_cons.2 ⟨fun c hc => ?_, ih hl fun c hc => hne c (mem_cons_of_mem _ hc)⟩
      rcases mem_insert.1 hc with rfl | hc
      · exact lt_of_le_of_ne (not_lt.1 hab) (hne b mem_cons_self)
      · exact hb c hc

theorem nodup (h : Sorted key l) : l.Nodup := by
  apply h.imp
  intro a b hab he
  subst b
  exact lt_irrefl _ hab

theorem congr (h : Sorted key l) (hk : ∀ a ∈ l, key' a = key a) : Sorted key' l :=
  h.imp_of_mem fun {a b} ha hb hab => by
    rw [hk a ha, hk b hb]
    exact hab

theorem eq_of_key (h : Sorted key l) (ha : a ∈ l) (hb : b ∈ l) (hk : key a = key b) : a = b := by
  induction l with
  | nil => exact absurd ha not_mem_nil
  | cons c l ih =>
    obtain ⟨hc, hl⟩ := pairwise_cons.1 h
    rcases mem_cons.1 ha with rfl | ha' <;> rcases mem_cons.1 hb with rfl | hb'
    · rfl
    · exact absurd hk (ne_of_lt (hc b hb'))
    · exact absurd hk.symm (ne_of_lt (hc a ha'))
    · exact ih hl ha' hb'

theorem find_key (h : Sorted key l) (ha : a ∈ l) : find key (key a) l = some a := by
  unfold find
  cases hf : l.find? fun b => key b = key a with
  | none =>
    have := find?_eq_none.1 hf a ha
    simp at this
  | some =>
    have hk := find?_some hf
    rw [h.eq_of_key (mem_of_find?_eq_some hf) ha (of_decide_eq_true hk)]

theorem mem_erase [DecidableEq α] (h : Sorted key l) : b ∈ l.erase a ↔ b ≠ a ∧ b ∈ l := h.nodup.mem_erase_iff

end Sorted

theorem find_mem {k : κ} (h : find key k l = some a) : a ∈ l ∧ key a = k := by
  exact ⟨mem_of_find?_eq_some h, of_decide_eq_true (find?_some (p := fun a => decide (key a = k)) h)⟩

end XKernel.Lib.Index
