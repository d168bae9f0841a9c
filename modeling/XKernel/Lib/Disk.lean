import Mathlib
/-!
# Lists of block writes

A store is a function from places to contents. A list of writes is carried out from left
to right; where its places are all different the order does not matter, and a place keeps
what it held exactly when no write of the list is to it.
-/

namespace XKernel.Lib

open Function List

section Disk

variable {κ β : Type*} [DecidableEq κ] {ws vs : List (κ × β)} {d e : κ → β} {k : κ} {b : β}

def applyWrites (ws : List (κ × β)) (d : κ → β) : κ → β :=
  ws.foldl (fun d w => Function.update d w.1 w.2) d

theorem applyWrites_cons (w : κ × β) (ws : List (κ × β)) (d : κ → β) :
    applyWrites (w :: ws) d = applyWrites ws (update d w.1 w.2) := rfl

theorem applyWrites_append (ws vs : List (κ × β)) (d : κ → β) :
    applyWrites (ws ++ vs) d = applyWrites vs (applyWrites ws d) := by
  simp [applyWrites]

/-- A place without a write keeps its contents. -/
theorem applyWrites_of_notMem (h : k ∉ ws.map Prod.fst) : applyWrites ws d k = d k := by
  induction ws generalizing d with
  | nil => rfl
  | cons w ws ih =>
    rw [map_cons, mem_cons, not_or] at h
    rw [applyWrites_cons, ih h.2, update_of_ne h.1]

/-- With one write to each place, a place holds what was written to it. -/
theorem applyWrites_of_mem (hn : (ws.map Prod.fst).Nodup) (h : (k, b) ∈ ws) : applyWrites ws d k = b := by
  induction ws generalizing d with
  | nil => cases h
  | cons w ws ih =>
    rw [map_cons, nodup_cons] at hn
    rw [applyWrites_cons]
    rcases mem_cons.1 h with rfl | h
    · rw [applyWrites_of_notMem hn.1, update_self]
    · exact ih hn.2 h

/-- The last write to a place decides what it holds. -/
theorem applyWrites_eq_last (ws : List (κ × β)) (d : κ → β) (k : κ) :
    applyWrites ws d k = ((ws.filter fun w => w.1 = k).getLast?.map Prod.snd).getD (d k) := by
  induction ws generalizing d with
  | nil => rfl
  | cons w ws ih =>
    rw [applyWrites_cons, ih]
    by_cases hw : w.1 = k
    · rw [filter_cons_of_pos (by simpa using hw), ← hw, update_self]
      cases h : ws.filter (fun w' => w'.1 = w.1) with
      | nil => rfl
      | cons => simp [getLast?_cons]
    · rw [filter_cons_of_neg (by simpa using hw), update_of_ne (Ne.symm hw)]

/-- Carrying out the same writes again changes nothing. -/
theorem applyWrites_again (ws : List (κ × β)) (d : κ → β) : applyWrites ws (applyWrites ws d) = applyWrites ws d := by
  funext k
  rw [applyWrites_eq_last ws (applyWrites ws d), applyWrites_eq_last ws d]
  cases (ws.filter fun w => w.1 = k).getLast? with
  | none => rfl
  | some => rfl

end Disk

/-! ## Crashes

Writes are issued in phases, with a flush behind each of them. A crash happens in some
phase: the phases before it are on the disk, and of its own writes a part. -/

section Crash

variable {α : Type*} {phases : List (List α)} {phase ws : List α}

/-- Of the phase in which the crash happens, exactly a prefix has reached the disk. -/
def Torn (phases : List (List α)) (ws : List α) : Prop :=
  ∃ done phase rest k, phases = done ++ phase :: rest ∧ ws = done.flatten ++ phase.take k

/-- Of the phase in which the crash happens, any part has reached the disk. -/
def Scattered (phases : List (List α)) (ws : List α) : Prop :=
  ∃ done phase rest part, phases = done ++ phase :: rest ∧ part.Sublist phase ∧ ws = done.flatten ++ part

/-- What a crash leaves when `R` relates a part of a phase to the phase. -/
def Cut (R : List α → List α → Prop) (phases : List (List α)) (ws : List α) : Prop :=
  ∃ done phase rest part, phases = done ++ phase :: rest ∧ R part phase ∧ ws = done.flatten ++ part

theorem Torn.cut (h : Torn phases ws) : Cut (fun part phase => ∃ k, part = phase.take k) phases ws := by
  obtain ⟨done, phase, rest, k, hp, hws⟩ := h
  exact ⟨done, phase, rest, _, hp, ⟨k, rfl⟩, hws⟩

theorem Scattered.cut (h : Scattered phases ws) : Cut Sublist phases ws := h

/-- A crash is in a phase before the last one, or in the last one. -/
theorem Cut.of_append {R : List α → List α → Prop} (h : Cut R (phases ++ [phase]) ws) :
    Cut R phases ws ∨ ∃ part, R part phase ∧ ws = phases.flatten ++ part := by
  obtain ⟨done, cut, rest, part, hp, hpart, rfl⟩ := h
  rcases rest.eq_nil_or_concat with rfl | ⟨rest, last, rfl⟩
  · obtain ⟨rfl, hlast⟩ := append_inj' hp rfl
    cases hlast
    exact .inr ⟨part, hpart, rfl⟩
  · rw [concat_eq_append, ← cons_append, ← append_assoc] at hp
    obtain ⟨rfl, -⟩ := append_inj' hp rfl
    exact .inl ⟨done, cut, rest, part, rfl, hpart, rfl⟩

end Crash

end XKernel.Lib
