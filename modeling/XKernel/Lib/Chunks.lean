import Mathlib
/-!
# A list in pieces

The loop that takes `min n remaining` elements from the front of a slice until nothing is
left: the pieces are full but the last, none is empty, and together they are the slice.
-/

namespace XKernel.Lib

open List

variable {α : Type*} {n : Nat}

/-- `fuel` bounds the number of pieces; the length of the list is enough. -/
def chunksAux (n : Nat) : Nat → List α → List (List α)
  | 0, _ => []
  | _ + 1, [] => []
  | fuel + 1, l => l.take n :: chunksAux n fuel (l.drop n)

def chunks (n : Nat) (l : List α) : List (List α) := chunksAux n l.length l

variable {l : List α}

theorem chunksAux_eq (hn : 0 < n) {fuel : Nat} (hf : l.length ≤ fuel) :
    chunksAux n fuel l = if l = [] then [] else l.take n :: chunksAux n (l.drop n).length (l.drop n) := by
  induction fuel using Nat.strong_induction_on generalizing l with
  | _ fuel ih =>
    cases l with
    | nil => cases fuel <;> rfl
    | cons a l =>
      cases fuel with
      | zero => simp at hf
      | succ fuel =>
        have hd : ((a :: l).drop n).length ≤ fuel := by
          rw [length_drop]
          omega
        have hmain : chunksAux n fuel ((a :: l).drop n) = chunksAux n ((a :: l).drop n).length ((a :: l).drop n) := by
          rw [ih fuel (by omega) hd]
          by_cases hlt : ((a :: l).drop n).length < fuel + 1
          · exact (ih _ hlt le_rfl).symm
          · omega
        rw [if_neg (cons_ne_nil a l), ← hmain]
        rfl

theorem chunks_eq (hn : 0 < n) (hl : l ≠ []) : chunks n l = l.take n :: chunks n (l.drop n) := by
  rw [chunks, chunksAux_eq hn le_rfl, if_neg hl, chunks]

/-- What holds of no piece, and of a piece in front of pieces, holds of the pieces of a list. -/
theorem chunks_induction (hn : 0 < n) {P : List α → List (List α) → Prop} (hnil : P [] [])
    (hcons : ∀ l, l ≠ [] → P (l.drop n) (chunks n (l.drop n)) → P l (l.take n :: chunks n (l.drop n))) (l : List α) :
    P l (chunks n l) := by
  induction h : l.length using Nat.strong_induction_on generalizing l with
  | _ len ih =>
    by_cases hl : l = []
    · subst hl
      exact hnil
    · rw [chunks_eq hn hl]
      refine hcons l hl (ih _ ?_ _ rfl)
      have := length_pos_of_ne_nil hl
      rw [length_drop]
      omega

theorem flatten_chunks (hn : 0 < n) (l : List α) : (chunks n l).flatten = l := by
  refine chunks_induction hn (P := fun l cs => cs.flatten = l) rfl ?_ l
  intro l _ ih
  rw [flatten_cons, ih, take_append_drop]

theorem ne_nil_of_mem_chunks (hn : 0 < n) {c : List α} (h : c ∈ chunks n l) : c ≠ [] := by
  revert h
  refine chunks_induction hn (P := fun _ cs => c ∈ cs → c ≠ []) nofun ?_ l
  intro l hl ih hc
  rcases mem_cons.1 hc with rfl | hc
  · simpa [hn.ne'] using hl
  · exact ih hc

theorem length_le_of_mem_chunks (hn : 0 < n) {c : List α} (h : c ∈ chunks n l) : c.length ≤ n := by
  revert h
  refine chunks_induction hn (P := fun _ cs => c ∈ cs → c.length ≤ n) nofun ?_ l
  intro l _ ih hc
  rcases mem_cons.1 hc with rfl | hc
  · exact length_take_le n l
  · exact ih hc

/-- One piece for each `n` elements, and one for the rest. -/
theorem length_chunks (hn : 0 < n) (l : List α) : (chunks n l).length = (l.length + n - 1) / n := by
  refine chunks_induction hn (P := fun l cs => cs.length = (l.length + n - 1) / n) ?_ ?_ l
  · rw [length_nil, length_nil, Nat.zero_add, Nat.div_eq_of_lt (by omega)]
  · intro l hl ih
    have hpos := length_pos_of_ne_nil hl
    rw [length_cons, ih, length_drop]
    rcases Nat.lt_or_ge l.length n with h | h
    · rw [Nat.sub_eq_zero_of_le h.le, Nat.zero_add, Nat.div_eq_of_lt (by omega),
        show l.length + n - 1 = (l.length - 1) + n by omega, Nat.add_div_right _ hn, Nat.div_eq_of_lt (by omega)]
    · rw [show l.length + n - 1 = (l.length - n + n - 1) + n by omega, Nat.add_div_right _ hn]

end XKernel.Lib
