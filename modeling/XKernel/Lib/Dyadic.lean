import Mathlib
/-!
# Aligned blocks

A block of order `k` is `2 ^ k` consecutive numbers from a multiple of `2 ^ k`.
Two blocks are nested or apart, and a block of order `k + 1` is two halves of
order `k`. A set of pairwise apart blocks in which no two halves of one block
both occur is coalesced: a block it covers lies inside one of its members.
-/

namespace XKernel.Lib.Dyadic

/-- The numbers of the block of order `k` at `a`. -/
def span (k a : Nat) : Set Nat := {x | a ≤ x ∧ x < a + 2 ^ k}

@[simp] theorem mem_span {k a x : Nat} : x ∈ span k a ↔ a ≤ x ∧ x < a + 2 ^ k := Iff.rfl

theorem nested_or_apart {k j a b : Nat} (ha : 2 ^ k ∣ a) (hb : 2 ^ j ∣ b) (h : k ≤ j) :
    (b ≤ a ∧ a + 2 ^ k ≤ b + 2 ^ j) ∨ a + 2 ^ k ≤ b ∨ b + 2 ^ j ≤ a := by
  obtain ⟨m, rfl⟩ := ha
  obtain ⟨n, rfl⟩ := hb
  obtain ⟨d, rfl⟩ := Nat.exists_eq_add_of_le h
  have e : 2 ^ (k + d) * n = 2 ^ k * (2 ^ d * n) := by rw [pow_add]; ring
  have e' : 2 ^ (k + d) * n + 2 ^ (k + d) = 2 ^ k * (2 ^ d * n + 2 ^ d) := by rw [pow_add]; ring
  have e'' : 2 ^ k * m + 2 ^ k = 2 ^ k * (m + 1) := by ring
  rw [e', e, e'']
  rcases Nat.lt_or_ge m (2 ^ d * n) with h1 | h1
  · exact .inr (.inl (Nat.mul_le_mul_left _ h1))
  · rcases Nat.lt_or_ge m (2 ^ d * n + 2 ^ d) with h2 | h2
    · exact .inl ⟨Nat.mul_le_mul_left _ h1, Nat.mul_le_mul_left _ h2⟩
    · exact .inr (.inr (Nat.mul_le_mul_left _ h2))

/-- Overlapping blocks are nested. -/
theorem nested {k j a b x : Nat} (ha : 2 ^ k ∣ a) (hb : 2 ^ j ∣ b) (h : k ≤ j) (hxa : x ∈ span k a)
    (hxb : x ∈ span j b) : b ≤ a ∧ a + 2 ^ k ≤ b + 2 ^ j := by
  rcases nested_or_apart ha hb h with h | h | h
  · exact h
  all_goals simp only [mem_span] at hxa hxb; omega

/-! ## Halves -/

/-- The other half of the block of order `k + 1` around the block at `a`. -/
def buddy (k a : Nat) : Nat := a ^^^ 2 ^ k

variable {k a : Nat}

theorem half_cases (h : 2 ^ k ∣ a) : ∃ b, 2 ^ (k + 1) ∣ b ∧ (a = b ∨ a = b + 2 ^ k) := by
  obtain ⟨m, rfl⟩ := h
  refine ⟨2 ^ (k + 1) * (m / 2), dvd_mul_right _ _, ?_⟩
  have e : 2 ^ (k + 1) * (m / 2) = 2 ^ k * (2 * (m / 2)) := by rw [pow_succ]; ring
  rw [e, ← Nat.mul_succ]
  rcases Nat.mod_two_eq_zero_or_one m with h | h
  · exact .inl (congrArg _ (by omega))
  · exact .inr (congrArg _ (by omega))

theorem testBit_of_dvd (h : 2 ^ (k + 1) ∣ a) : a.testBit k = false := by
  obtain ⟨m, rfl⟩ := h
  rw [Nat.testBit_two_pow_mul]
  simp

theorem buddy_left (h : 2 ^ (k + 1) ∣ a) : buddy k a = a + 2 ^ k := by
  obtain ⟨m, rfl⟩ := h
  have e : 2 ^ (k + 1) * m + 2 ^ k = 2 ^ (k + 1) * m ||| 2 ^ k := by
    rw [Nat.two_pow_add_eq_or_of_lt (Nat.pow_lt_pow_right (by decide) (Nat.lt_succ_self k))]
  rw [e, buddy]
  apply Nat.eq_of_testBit_eq
  intro i
  simp only [Nat.testBit_xor, Nat.testBit_two_pow]
  by_cases hi : k = i
  · subst hi
    rw [testBit_of_dvd (dvd_mul_right _ m)]
    simp
  · simp [hi]

theorem buddy_right (h : 2 ^ (k + 1) ∣ a) : buddy k (a + 2 ^ k) = a := by
  rw [← buddy_left h]
  simp [buddy]

theorem dvd_add_half (h : 2 ^ (k + 1) ∣ a) : 2 ^ k ∣ a + 2 ^ k :=
  Nat.dvd_add ((pow_dvd_pow 2 (Nat.le_succ k)).trans h) (dvd_refl _)

theorem dvd_half (h : 2 ^ (k + 1) ∣ a) : 2 ^ k ∣ a := (pow_dvd_pow 2 (Nat.le_succ k)).trans h

theorem span_succ (k a : Nat) : span (k + 1) a = span k a ∪ span k (a + 2 ^ k) := by
  ext x
  simp only [mem_span, Set.mem_union]
  omega

/-- A block and its buddy are the halves of the block that starts at the lower of the two. -/
theorem min_buddy (h : 2 ^ k ∣ a) :
    2 ^ (k + 1) ∣ min a (buddy k a) ∧ span (k + 1) (min a (buddy k a)) = span k a ∪ span k (buddy k a) := by
  obtain ⟨b, hb, rfl | rfl⟩ := half_cases h
  · rw [buddy_left hb, min_eq_left (Nat.le_add_right _ _)]
    exact ⟨hb, span_succ k a⟩
  · rw [buddy_right hb, min_eq_right (Nat.le_add_right _ _), Set.union_comm]
    exact ⟨hb, span_succ k b⟩

/-! ## Sets of blocks -/

/-- The numbers that a set of blocks `(order, start)` covers. -/
def cover (F : Set (Nat × Nat)) : Set Nat := {x | ∃ b ∈ F, x ∈ span b.1 b.2}

/-- Aligned blocks, pairwise apart. -/
structure Packing (F : Set (Nat × Nat)) : Prop where
  aligned : ∀ b ∈ F, 2 ^ b.1 ∣ b.2
  apart : ∀ b ∈ F, ∀ c ∈ F, b = c ∨ b.2 + 2 ^ b.1 ≤ c.2 ∨ c.2 + 2 ^ c.1 ≤ b.2

/-- No two halves of one block of order at most `M` both occur. -/
def Coalesced (M : Nat) (F : Set (Nat × Nat)) : Prop :=
  ∀ k a, k < M → 2 ^ (k + 1) ∣ a → (k, a) ∈ F → (k, a + 2 ^ k) ∉ F

theorem Packing.mono {F G : Set (Nat × Nat)} (h : Packing F) (hs : G ⊆ F) : Packing G :=
  ⟨fun b hb => h.aligned b (hs hb), fun b hb c hc => h.apart b (hs hb) c (hs hc)⟩

variable {M : Nat}

theorem Coalesced.mono {F G : Set (Nat × Nat)} (h : Coalesced M F) (hs : G ⊆ F) : Coalesced M G :=
  fun k a hk hd h1 h2 => h k a hk hd (hs h1) (hs h2)

variable {F : Set (Nat × Nat)}

/-- A member is one with the member that covers one of its numbers. -/
theorem Packing.unique (h : Packing F) {b c : Nat × Nat} (hb : b ∈ F) (hc : c ∈ F) {x : Nat}
    (hxb : x ∈ span b.1 b.2) (hxc : x ∈ span c.1 c.2) : b = c := by
  rcases h.apart b hb c hc with h | h | h
  · exact h
  all_goals simp only [mem_span] at hxb hxc; omega

theorem Packing.insert (h : Packing F) (hd : 2 ^ k ∣ a)
    (ha : ∀ b ∈ F, b.2 + 2 ^ b.1 ≤ a ∨ a + 2 ^ k ≤ b.2) : Packing (insert (k, a) F) where
  aligned b hb := by
    rcases hb with rfl | hb
    · exact hd
    · exact h.aligned b hb
  apart b hb c hc := by
    rcases hb with rfl | hb <;> rcases hc with rfl | hc
    · exact .inl rfl
    · exact .inr ((ha c hc).symm)
    · exact .inr (ha b hb)
    · exact h.apart b hb c hc

/-- Adding a block whose other half is not there keeps a set coalesced. -/
theorem Coalesced.insert (h : Coalesced M F)
    (hb : k < M → (k, buddy k a) ∉ F) : Coalesced M (insert (k, a) F) := by
  intro j c hj hd h1 h2
  have hne : c ≠ c + 2 ^ j := by have := Nat.two_pow_pos j; omega
  rcases h1 with h1 | h1 <;> rcases h2 with h2 | h2
  · simp only [Prod.mk.injEq] at h1 h2
    exact hne (h1.2.trans h2.2.symm)
  · obtain ⟨rfl, rfl⟩ := h1
    exact hb hj (by rw [buddy_left hd]; exact h2)
  · obtain ⟨rfl, rfl⟩ := h2
    exact hb hj (by rw [buddy_right hd]; exact h1)
  · exact h j c hj hd h1 h2

theorem cover_insert (F : Set (Nat × Nat)) (k a : Nat) : cover (insert (k, a) F) = cover F ∪ span k a := by
  ext x
  constructor
  · rintro ⟨b, rfl | hb, hx⟩
    · exact .inr hx
    · exact .inl ⟨b, hb, hx⟩
  · rintro (⟨b, hb, hx⟩ | hx)
    · exact ⟨b, .inr hb, hx⟩
    · exact ⟨(k, a), .inl rfl, hx⟩

theorem Packing.cover_erase (h : Packing F) (hm : (k, a) ∈ F) :
    cover (F \ {(k, a)}) = cover F \ span k a := by
  ext x
  constructor
  · rintro ⟨b, ⟨hb, hne⟩, hx⟩
    exact ⟨⟨b, hb, hx⟩, fun hxa => hne (h.unique hb hm hx hxa)⟩
  · rintro ⟨⟨b, hb, hx⟩, hxa⟩
    exact ⟨b, ⟨hb, by rintro rfl; exact hxa hx⟩, hx⟩

/-- A block that a coalesced set covers lies inside one of its members. -/
theorem Coalesced.covered (hp : Packing F) (hc : Coalesced M F) :
    ∀ k a, k ≤ M → 2 ^ k ∣ a → span k a ⊆ cover F →
      ∃ b ∈ F, k ≤ b.1 ∧ b.2 ≤ a ∧ a + 2 ^ k ≤ b.2 + 2 ^ b.1 := by
  intro k
  -- induction on the order: both halves lie in members, which are the halves
  -- themselves (excluded) or already contain the whole block
  induction k with
  | zero =>
    intro a _ _ hs
    obtain ⟨b, hb, hx⟩ := hs (show a ∈ span 0 a by simp)
    exact ⟨b, hb, Nat.zero_le _, hx.1, by rw [pow_zero]; exact hx.2⟩
  | succ k ih =>
    intro a hk hd hs
    have hl : span k a ⊆ cover F := fun x hx => hs (by simp only [mem_span] at hx ⊢; omega)
    have hr : span k (a + 2 ^ k) ⊆ cover F := fun x hx => hs (by simp only [mem_span] at hx ⊢; omega)
    obtain ⟨b, hb, hkb, hba, hab⟩ := ih a (by omega) (dvd_half hd) hl
    obtain ⟨c, hc', hkc, hca, hac⟩ := ih (a + 2 ^ k) (by omega) (dvd_add_half hd) hr
    rcases Nat.lt_or_ge k b.1 with hlt | hge
    · have := nested hd (hp.aligned b hb) hlt (x := a) (by simp only [mem_span]; omega)
        (by simp only [mem_span]; omega)
      exact ⟨b, hb, hlt, this⟩
    · rcases Nat.lt_or_ge k c.1 with hlt' | hge'
      · have := nested hd (hp.aligned c hc') hlt' (x := a + 2 ^ k) (by simp only [mem_span]; omega)
          (by simp only [mem_span]; omega)
        exact ⟨c, hc', hlt', this⟩
      · obtain ⟨b1, b2⟩ := b
        obtain ⟨c1, c2⟩ := c
        simp only at hkb hba hab hkc hca hac hge hge'
        obtain rfl : k = b1 := by omega
        obtain rfl : k = c1 := by omega
        obtain rfl : b2 = a := by omega
        obtain rfl : c2 = b2 + 2 ^ k := by omega
        exact absurd hc' (hc k b2 (by omega) hd hb)

end XKernel.Lib.Dyadic
