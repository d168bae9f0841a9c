import Mathlib
/-!
# Positions on a ring

The positions `lo ≤ p < hi`, of which the one behind the last is the first. `adv p n` is
`n` steps behind `p`; fewer than `size` steps never come back to a position, so a stretch
that is shorter than the ring is a list of different positions.
-/

namespace XKernel.Lib

structure Ring where
  lo : Nat
  hi : Nat
  lo_lt : lo < hi

namespace Ring

variable (r : Ring) {p q m n i j : Nat}

def size : Nat := r.hi - r.lo

def Mem (p : Nat) : Prop := r.lo ≤ p ∧ p < r.hi

instance (p : Nat) : Decidable (r.Mem p) := inferInstanceAs (Decidable (_ ∧ _))

def next (p : Nat) : Nat := if p + 1 = r.hi then r.lo else p + 1

def adv (p : Nat) : Nat → Nat
  | 0 => p
  | n + 1 => adv (r.next p) n

/-- The steps from `p` to `q`. -/
def dist (p q : Nat) : Nat := if p ≤ q then q - p else r.hi - p + (q - r.lo)

@[simp]
theorem adv_zero (p : Nat) : r.adv p 0 = p := rfl

theorem adv_succ (p n : Nat) : r.adv p (n + 1) = r.adv (r.next p) n := rfl

theorem size_pos : 0 < r.size := Nat.sub_pos_of_lt r.lo_lt

theorem adv_add (p m n : Nat) : r.adv p (m + n) = r.adv (r.adv p m) n := by
  induction m generalizing p with
  | zero => simp
  | succ m ih => rw [Nat.succ_add, adv_succ, adv_succ, ih]

theorem next_adv (p n : Nat) : r.next (r.adv p n) = r.adv p (n + 1) := by
  rw [adv_add r p n 1]
  rfl

variable {r}

theorem Mem.next (h : r.Mem p) : r.Mem (r.next p) := by
  unfold Mem at *
  unfold Ring.next
  split <;> omega

theorem Mem.adv (h : r.Mem p) (n : Nat) : r.Mem (r.adv p n) := by
  induction n generalizing p with
  | zero => exact h
  | succ n ih => exact ih h.next

theorem Mem.adv_eq (h : r.Mem p) (n : Nat) : r.adv p n = r.lo + (p - r.lo + n) % r.size := by
  induction n generalizing p with
  | zero =>
    obtain ⟨h1, h2⟩ := h
    have hmod : (p - r.lo) % r.size = p - r.lo := Nat.mod_eq_of_lt (by unfold size; omega)
    rw [adv_zero, Nat.add_zero, hmod]
    omega
  | succ n ih =>
    rw [adv_succ, ih h.next]
    obtain ⟨h1, h2⟩ := h
    unfold Ring.next
    split
    · have hp : p - r.lo + (n + 1) = n + r.size := by
        unfold size
        omega
      rw [hp, Nat.add_mod_right, Nat.sub_self, Nat.zero_add]
    · congr 2
      omega

/-- Different numbers of steps, all fewer than the ring is long, end at different positions. -/
theorem Mem.adv_inj (h : r.Mem p) (hi : i < r.size) (hj : j < r.size) (he : r.adv p i = r.adv p j) : i = j := by
  rw [h.adv_eq, h.adv_eq] at he
  have hmod : (p - r.lo + i) % r.size = (p - r.lo + j) % r.size := by omega
  have hij : i % r.size = j % r.size := Nat.ModEq.add_left_cancel' (p - r.lo) hmod
  rwa [Nat.mod_eq_of_lt hi, Nat.mod_eq_of_lt hj] at hij

theorem adv_of_lt (h : p + n < r.hi) : r.adv p n = p + n := by
  induction n generalizing p with
  | zero => rfl
  | succ n ih =>
    rw [adv_succ, next, if_neg (by omega), ih (by omega)]
    omega

theorem dist_lt (hp : r.Mem p) (hq : r.Mem q) : r.dist p q < r.size := by
  obtain ⟨hp1, hp2⟩ := hp
  obtain ⟨hq1, hq2⟩ := hq
  unfold dist size
  split <;> omega

theorem adv_dist (hp : r.Mem p) (hq : r.Mem q) : r.adv p (r.dist p q) = q := by
  rw [hp.adv_eq]
  obtain ⟨hp1, hp2⟩ := hp
  obtain ⟨hq1, hq2⟩ := hq
  have hmod : (p - r.lo + r.dist p q) % r.size = q - r.lo := by
    unfold dist
    split
    · rw [show p - r.lo + (q - p) = q - r.lo by omega]
      exact Nat.mod_eq_of_lt (by unfold size; omega)
    · rw [show p - r.lo + (r.hi - p + (q - r.lo)) = q - r.lo + r.size by unfold size; omega, Nat.add_mod_right]
      exact Nat.mod_eq_of_lt (by unfold size; omega)
  omega

theorem dist_adv (hp : r.Mem p) (hn : n < r.size) : r.dist p (r.adv p n) = n :=
  hp.adv_inj (dist_lt hp (hp.adv n)) hn (adv_dist hp (hp.adv n))

/-! ## Stretches -/

section Place

variable {β : Type*}

/-- `bs` at `p` and the positions behind it. -/
def place (r : Ring) (p : Nat) : List β → List (Nat × β)
  | [] => []
  | b :: bs => (p, b) :: r.place (r.next p) bs

variable {bs cs : List β} {x : Nat × β}

@[simp]
theorem length_place (p : Nat) (bs : List β) : (r.place p bs).length = bs.length := by
  induction bs generalizing p with
  | nil => rfl
  | cons b bs ih => simp [place, ih]

theorem place_append (p : Nat) (bs cs : List β) :
    r.place p (bs ++ cs) = r.place p bs ++ r.place (r.adv p bs.length) cs := by
  induction bs generalizing p with
  | nil => rfl
  | cons b bs ih => simp [place, ih, adv_succ]

theorem mem_place : x ∈ r.place p bs ↔ ∃ i, bs[i]? = some x.2 ∧ r.adv p i = x.1 := by
  induction bs generalizing p with
  | nil => simp [place]
  | cons b bs ih =>
    rw [place, List.mem_cons, ih]
    constructor
    · rintro (rfl | ⟨i, hi, ha⟩)
      · exact ⟨0, rfl, rfl⟩
      · exact ⟨i + 1, hi, ha⟩
    · rintro ⟨i, hi, ha⟩
      cases i with
      | zero =>
        left
        simp only [List.getElem?_cons_zero, Option.some.injEq] at hi
        exact Prod.ext ha.symm hi.symm
      | succ i => exact .inr ⟨i, hi, ha⟩

theorem take_place (p n : Nat) (bs : List β) : (r.place p bs).take n = r.place p (bs.take n) := by
  induction n generalizing p bs with
  | zero => rfl
  | succ n ih =>
    cases bs with
    | nil => rfl
    | cons => simp [place, ih]

/-- A stretch no longer than the ring does not meet itself. -/
theorem nodup_place (hp : r.Mem p) (hl : bs.length ≤ r.size) : ((r.place p bs).map Prod.fst).Nodup := by
  induction bs generalizing p with
  | nil => simp [place]
  | cons b bs ih =>
    rw [List.length_cons] at hl
    rw [place, List.map_cons, List.nodup_cons]
    refine ⟨?_, ih hp.next (by omega)⟩
    intro hmem
    obtain ⟨x, hx, hxp⟩ := List.mem_map.1 hmem
    obtain ⟨i, hi, ha⟩ := mem_place.1 hx
    have hlt : i < bs.length := (List.getElem?_eq_some_iff.1 hi).1
    have : i + 1 = 0 := hp.adv_inj (by omega) r.size_pos (by rw [adv_succ, ha]; exact hxp)
    omega

end Place

end Ring

end XKernel.Lib
