import Mathlib
/-!
# Ordered sets

An ordered set is its elements in increasing order. What the operations do is stated by
membership, and by the number of elements when a new one comes or a member goes.
-/

namespace XKernel.Lib

open List

structure BTreeSet (K : Type) [LinearOrder K] where
  elements : List K
  sorted : elements.Pairwise fun a b => a < b
  deriving DecidableEq, Repr

namespace BTreeSet

variable {K : Type} [LinearOrder K] {s : BTreeSet K} {a b : K}

instance : Membership K (BTreeSet K) := ⟨fun s a => a ∈ s.elements⟩

instance : Decidable (a ∈ s) := inferInstanceAs (Decidable (a ∈ s.elements))

theorem mem_elements : a ∈ s.elements ↔ a ∈ s := Iff.rfl

def empty : BTreeSet K := ⟨[], .nil⟩

def size (s : BTreeSet K) : Nat := s.elements.length

def insert (s : BTreeSet K) (a : K) : BTreeSet K where
  elements := s.elements.filter (· < a) ++ a :: s.elements.filter (a < ·)
  sorted := by
    rw [List.pairwise_append, List.pairwise_cons]
    refine ⟨s.sorted.filter _, ⟨fun b hb => by simpa using (List.mem_filter.1 hb).2, s.sorted.filter _⟩, ?_⟩
    intro b hb c hc
    have hba : b < a := by simpa using (List.mem_filter.1 hb).2
    rcases List.mem_cons.1 hc with rfl | hc
    · exact hba
    · exact hba.trans (by simpa using (List.mem_filter.1 hc).2)

def remove (s : BTreeSet K) (a : K) : BTreeSet K := ⟨s.elements.erase a, s.sorted.sublist List.erase_sublist⟩

theorem nodup (s : BTreeSet K) : s.elements.Nodup := s.sorted.imp ne_of_lt

theorem mem_insert : b ∈ s.insert a ↔ b = a ∨ b ∈ s := by
  simp only [← mem_elements, insert]
  rcases lt_trichotomy b a with h | rfl | h
  · simp [h, h.ne, h.not_gt]
  · simp
  · simp [h, h.not_gt]

theorem mem_remove : b ∈ s.remove a ↔ b ≠ a ∧ b ∈ s := s.nodup.mem_erase_iff

theorem size_insert (h : a ∉ s) : (s.insert a).size = s.size + 1 := by
  have hset : (s.insert a).elements.toFinset = Insert.insert a s.elements.toFinset := by
    ext b
    simpa [mem_elements] using mem_insert
  have hcard := congrArg Finset.card hset
  rwa [Finset.card_insert_of_notMem (by simpa [mem_elements] using h), toFinset_card_of_nodup (nodup _),
    toFinset_card_of_nodup (nodup _)] at hcard

theorem size_remove (h : a ∈ s) : (s.remove a).size + 1 = s.size := by
  have hpos : 0 < s.elements.length := length_pos_of_mem h
  have hlen : (s.remove a).size = s.size - 1 := length_erase_of_mem h
  rw [hlen]
  exact Nat.sub_add_cancel hpos

end BTreeSet

end XKernel.Lib
