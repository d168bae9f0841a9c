import Mathlib
/-!
# Search trees as sequences

A search tree whose elements carry their key is given by its elements in order. An insertion puts
an element to the right of those with an equal key; a removal of an element leaves the cursor at
the one after it.
-/

namespace XKernel.Lib

open List

variable {α κ : Type} [LinearOrder κ]

def insertKeyed (key : α → κ) (a : α) : List α → List α
  | [] => [a]
  | b :: l => if key a < key b then a :: b :: l else b :: insertKeyed key a l

/-- The element after `a`. -/
def successor [DecidableEq α] (a : α) : List α → Option α
  | [] => none
  | b :: l => if b = a then l.head? else successor a l

def KeySorted (key : α → κ) (l : List α) : Prop := l.Pairwise fun a b => key a ≤ key b

variable {key : α → κ} {a b : α} {l : List α}

theorem insertKeyed_perm (key : α → κ) (a : α) (l : List α) : (insertKeyed key a l).Perm (a :: l) := by
  induction l with
  | nil => exact .refl _
  | cons b l ih =>
    rw [insertKeyed]
    split
    · exact .refl _
    · exact (ih.cons b).trans (.swap a b l)

theorem mem_insertKeyed : b ∈ insertKeyed key a l ↔ b = a ∨ b ∈ l :=
  (insertKeyed_perm key a l).mem_iff.trans mem_cons

theorem nodup_insertKeyed (ha : a ∉ l) (hl : l.Nodup) : (insertKeyed key a l).Nodup :=
  (insertKeyed_perm key a l).nodup_iff.2 (nodup_cons.2 ⟨ha, hl⟩)

theorem sorted_insertKeyed (hl : KeySorted key l) : KeySorted key (insertKeyed key a l) := by
  induction l with
  | nil => exact pairwise_singleton _ _
  | cons b l ih =>
    obtain ⟨hb, hl'⟩ := pairwise_cons.1 hl
    rw [insertKeyed]
    split
    · rename_i hlt
      have hle := le_of_lt hlt
      exact pairwise_cons.2 ⟨forall_mem_cons.2 ⟨hle, fun c hc => le_trans hle (hb c hc)⟩, hl⟩
    · rename_i hle
      refine pairwise_cons.2 ⟨fun c hc => ?_, ih hl'⟩
      rcases mem_insertKeyed.1 hc with rfl | hc
      · exact not_lt.1 hle
      · exact hb c hc

theorem head?_insertKeyed :
    (insertKeyed key a l).head? = if l.head?.all (fun b => key a < key b) then some a else l.head? := by
  cases l with
  | nil => rfl
  | cons b =>
    rw [insertKeyed]
    by_cases h : key a < key b <;> simp [h]

/-- Only the keys of the elements and of the new one count. -/
theorem KeySorted.congr {key' : α → κ} (hl : KeySorted key l) (h : ∀ b ∈ l, key' b = key b) : KeySorted key' l :=
  hl.imp_of_mem fun ha hb hab => by rwa [h _ ha, h _ hb]

theorem KeySorted.le_of_head? (hl : KeySorted key l) (ha : l.head? = some a) (hb : b ∈ l) : key a ≤ key b := by
  obtain ⟨l, rfl⟩ := head?_eq_some_iff.1 ha
  rcases mem_cons.1 hb with rfl | hb
  · exact le_rfl
  · exact (pairwise_cons.1 hl).1 b hb

variable [DecidableEq α]

theorem KeySorted.erase (hl : KeySorted key l) : KeySorted key (l.erase a) := hl.sublist erase_sublist

/-- The first element without `a`: the one after it if `a` is the first. -/
theorem head?_erase : (l.erase a).head? = if l.head? = some a then successor a l else l.head? := by
  cases l with
  | nil => rfl
  | cons b =>
    by_cases hb : b = a
    · simp [hb, successor]
    · simp [hb]

end XKernel.Lib
