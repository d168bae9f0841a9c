import Mathlib
/-!
# Forests of parent pointers

A forest is a function from a node to its parent. It is rooted if every chain of
parents ends, which on a function is the same as having no cycle, and says in
addition where a chain ends and after how many steps. The lemmas say what is above a
node after the parents of some nodes are dropped, redirected or set.
-/

namespace XKernel.Lib

open List Option

variable {α : Type} {par par' : α → Option α} {a b r w n m : α} {k : Nat}

/-- `b` is the parent of `a`, or above it. -/
inductive Above (par : α → Option α) : α → α → Prop
  | parent {a b : α} (h : par a = some b) : Above par a b
  | up {a p b : α} (h : par a = some p) (hp : Above par p b) : Above par a b

/-- The chain of `a` ends at `r` after `k` steps. -/
inductive Ends (par : α → Option α) : α → Nat → α → Prop
  | root {r : α} (h : par r = none) : Ends par r 0 r
  | up {a p r : α} {k : Nat} (h : par a = some p) (hp : Ends par p k r) : Ends par a (k + 1) r

def Rooted (par : α → Option α) : Prop := ∀ a, ∃ k r, Ends par a k r

namespace Ends

theorem par_eq_none (h : Ends par a k r) : par r = none := by
  induction h with
  | root h => exact h
  | up _ _ ih => exact ih

theorem unique {k' : Nat} {r' : α} (h : Ends par a k r) (h' : Ends par a k' r') : k = k' ∧ r = r' := by
  induction h generalizing k' with
  | root h =>
    cases h' with
    | root => exact ⟨rfl, rfl⟩
    | up hp => rw [h] at hp; cases hp
  | up hp _ ih =>
    cases h' with
    | root h => rw [h] at hp; cases hp
    | up hp' he' =>
      rw [hp] at hp'
      cases hp'
      obtain ⟨rfl, rfl⟩ := ih he'
      exact ⟨rfl, rfl⟩

theorem above (h : Ends par a (k + 1) r) : Above par a r := by
  induction k generalizing a with
  | zero =>
    cases h with
    | up hp he =>
      cases he with
      | root => exact .parent hp
  | succ k ih =>
    cases h with
    | up hp he => exact .up hp (ih he)

/-- A node has a parent, or its chain ends at once. -/
theorem eq_or_above (h : Ends par a k r) : a = r ∨ Above par a r := by
  cases h with
  | root => exact .inl rfl
  | up hp he => exact .inr (up hp he).above

end Ends

namespace Above

section

variable (h : Above par a b)
include h

/-- Chains get shorter upwards. -/
theorem ends (he : Ends par a k r) : ∃ j, j < k ∧ Ends par b j r := by
  induction h generalizing k with
  | parent hp =>
    cases he with
    | root hn => rw [hn] at hp; cases hp
    | up hp' he' =>
      rw [hp] at hp'
      cases hp'
      exact ⟨_, Nat.lt_succ_self _, he'⟩
  | up hp _ ih =>
    cases he with
    | root hn => rw [hn] at hp; cases hp
    | up hp' he' =>
      rw [hp] at hp'
      cases hp'
      obtain ⟨j, hj, hb⟩ := ih he'
      exact ⟨j, by omega, hb⟩

theorem exists_child : ∃ c, par c = some b := by
  induction h with
  | parent h => exact ⟨_, h⟩
  | up _ _ ih => exact ih

theorem snoc {c : α} (hp : par b = some c) : Above par a c := by
  induction h with
  | parent h => exact .up h (.parent hp)
  | up h _ ih => exact .up h (ih hp)

/-- What is above a node is its parent or above that. -/
theorem of_parent {p : α} (hp : par a = some p) : b = p ∨ Above par p b := by
  cases h with
  | parent h =>
    rw [hp] at h
    cases h
    exact .inl rfl
  | up h hb =>
    rw [hp] at h
    cases h
    exact .inr hb

/-- What is above one node is in line. -/
theorem linear {c : α} (h' : Above par a c) : b = c ∨ Above par b c ∨ Above par c b := by
  induction h with
  | @parent a b hp => exact (h'.of_parent hp).imp Eq.symm .inl
  | @up a p b hp hb ih =>
    rcases h'.of_parent hp with rfl | hc
    · exact .inr (.inr hb)
    · exact ih hc

theorem par_ne_none : par a ≠ none := by
  cases h with
  | parent h | up h => rw [h]; exact some_ne_none _

end

end Above

namespace Rooted

theorem acyclic (h : Rooted par) (a : α) : ¬ Above par a a := by
  intro ha
  obtain ⟨k, r, he⟩ := h a
  obtain ⟨j, hj, he'⟩ := ha.ends he
  have := (he.unique he').1
  omega

end Rooted

/-! ## The length of a chain -/

/-- The nodes of a chain below its end. -/
theorem Ends.exists_path (h : Ends par a k r) :
    ∃ l : List α, l.length = k ∧ l.Nodup ∧ ∀ x ∈ l, par x ≠ none ∧ ∃ j, j ≤ k ∧ Ends par x j r := by
  induction h with
  | root => exact ⟨[], rfl, nodup_nil, fun x hx => absurd hx not_mem_nil⟩
  | @up a p r k hp he ih =>
    obtain ⟨l, hlen, hnd, hl⟩ := ih
    refine ⟨a :: l, by rw [length_cons, hlen], nodup_cons.2 ⟨fun ha => ?_, hnd⟩, fun x hx => ?_⟩
    · -- the chain of `a` is longer than those of the nodes above it
      obtain ⟨-, j, hj, hej⟩ := hl a ha
      have := (hej.unique (.up hp he)).1
      omega
    · rcases mem_cons.1 hx with rfl | hx
      · exact ⟨by rw [hp]; exact some_ne_none _, k + 1, Nat.le_refl _, .up hp he⟩
      · obtain ⟨hn, j, hj, hej⟩ := hl x hx
        exact ⟨hn, j, by omega, hej⟩

/-- A chain is no longer than the nodes that have a parent. -/
theorem Ends.le_of_lt {par : Nat → Option Nat} {a r n : Nat} (h : Ends par a k r) (hn : ∀ x, par x ≠ none → x < n) :
    k ≤ n := by
  obtain ⟨l, hlen, hnd, hl⟩ := h.exists_path
  have hsub : l ⊆ range n := fun x hx => mem_range.2 (hn x (hl x hx).1)
  have hle := (hnd.subperm hsub).length_le
  rwa [hlen, length_range] at hle

/-! ## Changes of parents -/

/-- Dropping parents. -/
theorem Above.mono (hsub : ∀ a b, par' a = some b → par a = some b) (h : Above par' a b) : Above par a b := by
  induction h with
  | parent h => exact .parent (hsub _ _ h)
  | up h _ ih => exact .up (hsub _ _ h) ih

theorem Rooted.mono (hsub : ∀ a b, par' a = some b → par a = some b) (h : Rooted par) : Rooted par' := by
  intro a
  obtain ⟨k, r, he⟩ := h a
  induction he with
  | @root a hn =>
    refine ⟨0, a, .root ?_⟩
    cases hp : par' a with
    | none => rfl
    | some b =>
      rw [hsub a b hp] at hn
      cases hn
  | @up a p r k hp _ ih =>
    cases hp' : par' a with
    | none => exact ⟨0, a, .root hp'⟩
    | some b =>
      have := hsub a b hp'
      rw [hp] at this
      cases this
      obtain ⟨j, q, he⟩ := ih
      exact ⟨j + 1, q, .up hp' he⟩

/-- A node goes to a root. -/
theorem Rooted.reroot (h : Rooted par) (hne : m ≠ w) (hm : par m = none) (hw : par' w = some m)
    (hk : ∀ a, a ≠ w → par' a = par a) : Rooted par' := by
  have hend : Ends par' w 1 m := .up hw (.root (by rw [hk m hne, hm]))
  intro a
  obtain ⟨k, r, he⟩ := h a
  induction he with
  | @root a hn =>
    by_cases ha : a = w
    · exact ⟨1, m, ha ▸ hend⟩
    · exact ⟨0, a, .root (by rw [hk a ha, hn])⟩
  | @up a p r k hp _ ih =>
    by_cases ha : a = w
    · exact ⟨1, m, ha ▸ hend⟩
    · obtain ⟨j, q, he⟩ := ih
      exact ⟨j + 1, q, .up (by rw [hk a ha, hp]) he⟩

/-- The children of one root go to another. -/
structure Redirects (par par' : α → Option α) (n m : α) : Prop where
  ne : n ≠ m
  root : par m = none
  moved : ∀ a, par a = some n → par' a = some m
  kept : ∀ a, par a ≠ some n → par' a = par a

theorem Redirects.above (h : Redirects par par' n m) (ha : Above par' a b) :
    Above par a b ∧ b ≠ n ∨ Above par a n ∧ b = m := by
  have hm : par' m = none := by
    rw [h.kept m (by rw [h.root]; exact nofun), h.root]
  induction ha with
  | @parent a b hp =>
    by_cases han : par a = some n
    · rw [h.moved a han] at hp
      cases hp
      exact .inr ⟨.parent han, rfl⟩
    · rw [h.kept a han] at hp
      exact .inl ⟨.parent hp, fun hb => han (by rw [hp, hb])⟩
  | @up a p b hp hpb ih =>
    by_cases han : par a = some n
    · -- nothing is above the new parent
      rw [h.moved a han] at hp
      cases hp
      exact absurd hm hpb.par_ne_none
    · rw [h.kept a han] at hp
      rcases ih with ⟨ih, hne⟩ | ⟨ih, rfl⟩
      · exact .inl ⟨.up hp ih, hne⟩
      · exact .inr ⟨.up hp ih, rfl⟩

/-- A node without children gets a parent. -/
structure Attaches (par par' : α → Option α) (w n : α) : Prop where
  ne : w ≠ n
  leaf : ∀ a, par a ≠ some w
  set : par' w = some n
  kept : ∀ a, a ≠ w → par' a = par a

theorem Attaches.above_of_ne (h : Attaches par par' w n) (hne : a ≠ w) (ha : Above par' a b) : Above par a b := by
  induction ha with
  | parent hp => exact .parent (by rw [← h.kept _ hne, hp])
  | @up a p b hp _ ih =>
    have hp' : par a = some p := by rw [← h.kept _ hne, hp]
    exact .up hp' (ih fun he => h.leaf a (by rw [hp', he]))

theorem Attaches.above (h : Attaches par par' w n) (ha : Above par' a b) :
    a ≠ w ∧ Above par a b ∨ a = w ∧ (b = n ∨ Above par n b) := by
  by_cases hne : a = w
  · subst hne
    refine .inr ⟨rfl, ?_⟩
    cases ha with
    | parent hp =>
      rw [h.set] at hp
      cases hp
      exact .inl rfl
    | up hp hpb =>
      rw [h.set] at hp
      cases hp
      exact .inr (h.above_of_ne h.ne.symm hpb)
  · exact .inl ⟨hne, h.above_of_ne hne ha⟩

theorem Attaches.rooted (h : Attaches par par' w n) (hr : Rooted par) : Rooted par' := by
  have hother : ∀ {a k r}, Ends par a k r → a ≠ w → ∃ k r, Ends par' a k r := by
    intro a k r he
    induction he with
    | @root a hn =>
      intro hne
      exact ⟨0, a, .root (by rw [h.kept a hne, hn])⟩
    | @up a p r k hp _ ih =>
      intro hne
      obtain ⟨j, q, he⟩ := ih fun hpw => h.leaf a (by rw [hp, hpw])
      exact ⟨j + 1, q, .up (by rw [h.kept a hne, hp]) he⟩
  intro a
  by_cases hne : a = w
  · subst hne
    obtain ⟨k, r, he⟩ := hr n
    obtain ⟨j, q, he'⟩ := hother he h.ne.symm
    exact ⟨j + 1, q, .up h.set he'⟩
  · obtain ⟨k, r, he⟩ := hr a
    exact hother he hne

end XKernel.Lib
