import Mathlib
/-!
# Ordered maps

An ordered map is its entries in increasing key order, and the order is a field of
the structure, so every operation proves it. What the operations do is stated by
membership of entries: `(k, v) ∈ m`.
-/

namespace XKernel.Lib

open List Option

variable {K V : Type} [LinearOrder K]

structure BTreeMap (K V : Type) [LinearOrder K] where
  entries : List (K × V)
  sorted : entries.Pairwise fun a b => a.1 < b.1

namespace BTreeMap

variable {m : BTreeMap K V} {k k' x : K} {v v' : V}

instance : Membership (K × V) (BTreeMap K V) := ⟨fun m e => e ∈ m.entries⟩

variable {e : K × V}

theorem mem_entries : e ∈ m ↔ e ∈ m.entries := Iff.rfl

def empty : BTreeMap K V := ⟨[], .nil⟩

theorem not_mem_empty (e : K × V) : e ∉ (empty : BTreeMap K V) := not_mem_nil

theorem mem_unique (h : (k, v) ∈ m) (h' : (k, v') ∈ m) : v = v' := by
  have hp : m.entries.Pairwise fun a b => a.1 = b.1 → a.2 = b.2 := m.sorted.imp fun hlt he => absurd he (ne_of_lt hlt)
  have hq : m.entries.Pairwise fun a b => b.1 = a.1 → b.2 = a.2 := m.sorted.imp fun hlt he => absurd he (ne_of_gt hlt)
  exact hp.forall_of_forall_of_flip (fun _ _ _ => rfl) hq h h' rfl

/-! ## Lookup -/

def get? (m : BTreeMap K V) (k : K) : Option V := (m.entries.find? fun e => e.1 = k).map (·.2)

theorem get?_eq_some : m.get? k = some v ↔ (k, v) ∈ m := by
  unfold get?
  constructor
  · intro h
    obtain ⟨⟨k', v'⟩, he, rfl⟩ := map_eq_some_iff.1 h
    have hk := find?_some he
    simp only [decide_eq_true_eq] at hk
    subst hk
    exact mem_of_find?_eq_some he
  · intro h
    cases hf : m.entries.find? fun e => e.1 = k with
    | none =>
      have := find?_eq_none.1 hf (k, v) h
      simp at this
    | some e =>
      have hk := find?_some hf
      simp only [decide_eq_true_eq] at hk
      subst hk
      rw [map_some, mem_unique (mem_of_find?_eq_some hf) h]

/-- `range(..x).next_back()`. -/
def lastBelow (m : BTreeMap K V) (x : K) : Option (K × V) := (m.entries.filter fun e => e.1 < x).getLast?

/-- `range(..=x).next_back()`. -/
def lastUpTo (m : BTreeMap K V) (x : K) : Option (K × V) := (m.entries.filter fun e => e.1 ≤ x).getLast?

/-- `range(x..).next()`. -/
def firstFrom (m : BTreeMap K V) (x : K) : Option (K × V) := m.entries.find? fun e => x ≤ e.1

variable {l : List (K × V)}

/-- In an increasing list the last element has the greatest key. -/
theorem le_getLast (hs : l.Pairwise fun a b => a.1 < b.1) (h : l.getLast? = some e)
    {b : K × V} (hb : b ∈ l) : b.1 ≤ e.1 := by
  obtain ⟨l', rfl⟩ := getLast?_eq_some_iff.1 h
  rcases mem_append.1 hb with hb | hb
  · exact ((pairwise_append.1 hs).2.2 b hb e (mem_singleton.2 rfl)).le
  · rw [mem_singleton.1 hb]

theorem lastBelow_some (h : m.lastBelow x = some e) :
    e ∈ m ∧ e.1 < x ∧ ∀ b ∈ m, b.1 < x → b.1 ≤ e.1 := by
  have he := mem_filter.1 (mem_of_getLast? h)
  refine ⟨he.1, by simpa using he.2, fun b hb hlt => ?_⟩
  exact le_getLast (m.sorted.filter _) h (mem_filter.2 ⟨hb, by simpa using hlt⟩)

theorem lastBelow_none (h : m.lastBelow x = none) : ∀ b ∈ m, x ≤ b.1 := by
  intro b hb
  have hn := filter_eq_nil_iff.1 (getLast?_eq_none_iff.1 h) b hb
  simpa using hn

theorem lastUpTo_some (h : m.lastUpTo x = some e) :
    e ∈ m ∧ e.1 ≤ x ∧ ∀ b ∈ m, b.1 ≤ x → b.1 ≤ e.1 := by
  have he := mem_filter.1 (mem_of_getLast? h)
  refine ⟨he.1, by simpa using he.2, fun b hb hle => ?_⟩
  exact le_getLast (m.sorted.filter _) h (mem_filter.2 ⟨hb, by simpa using hle⟩)

theorem lastUpTo_none (h : m.lastUpTo x = none) : ∀ b ∈ m, x < b.1 := by
  intro b hb
  have hn := filter_eq_nil_iff.1 (getLast?_eq_none_iff.1 h) b hb
  simpa using hn

theorem firstFrom_some (h : m.firstFrom x = some e) :
    e ∈ m ∧ x ≤ e.1 ∧ ∀ b ∈ m, x ≤ b.1 → e.1 ≤ b.1 := by
  have hx := find?_some h
  obtain ⟨-, l1, l2, hl, hn⟩ := find?_eq_some_iff_append.1 h
  have hs := m.sorted
  refine ⟨mem_of_find?_eq_some h, by simpa using hx, fun b hb hle => ?_⟩
  rw [mem_entries, hl] at hb
  rw [hl] at hs
  rcases mem_append.1 hb with hb | hb
  · have := hn b hb
    simp only [Bool.not_eq_true', decide_eq_false_iff_not, not_le] at this
    exact absurd hle (not_le.2 this)
  · rcases mem_cons.1 hb with rfl | hb
    · exact le_rfl
    · exact ((pairwise_cons.1 (pairwise_append.1 hs).2.1).1 b hb).le

theorem firstFrom_none (h : m.firstFrom x = none) : ∀ b ∈ m, b.1 < x := by
  intro b hb
  simpa using find?_eq_none.1 h b hb

/-! ## Updates -/

def retain (m : BTreeMap K V) (f : K → V → Bool) : BTreeMap K V :=
  ⟨m.entries.filter fun e => f e.1 e.2, m.sorted.filter _⟩

theorem mem_retain {f : K → V → Bool} : e ∈ m.retain f ↔ e ∈ m ∧ f e.1 e.2 = true := mem_filter

def remove (m : BTreeMap K V) (k : K) : BTreeMap K V := m.retain fun k' _ => k' ≠ k

theorem mem_remove : e ∈ m.remove k ↔ e ∈ m ∧ e.1 ≠ k := by
  simp [remove, mem_retain]

def insert (m : BTreeMap K V) (k : K) (v : V) : BTreeMap K V where
  entries := (m.entries.filter fun e => e.1 < k) ++ (k, v) :: m.entries.filter fun e => k < e.1
  sorted := by
    rw [List.pairwise_append, List.pairwise_cons]
    refine ⟨m.sorted.filter _, ⟨fun b hb => by simpa using (List.mem_filter.1 hb).2, m.sorted.filter _⟩,
      fun a ha b hb => ?_⟩
    have ha' : a.1 < k := by simpa using (List.mem_filter.1 ha).2
    rcases List.mem_cons.1 hb with rfl | hb
    · exact ha'
    · exact ha'.trans (by simpa using (List.mem_filter.1 hb).2)

theorem mem_insert : e ∈ m.insert k v ↔ e = (k, v) ∨ e ∈ m ∧ e.1 ≠ k := by
  simp only [mem_entries, insert, mem_append, mem_cons, mem_filter, decide_eq_true_eq, ne_iff_lt_or_gt]
  tauto

/-- Every value is replaced in place. -/
def mapValues (m : BTreeMap K V) (f : K → V → V) : BTreeMap K V :=
  ⟨m.entries.map fun e => (e.1, f e.1 e.2), by rw [List.pairwise_map]; exact m.sorted⟩

theorem mem_mapValues {f : K → V → V} : e ∈ m.mapValues f ↔ ∃ v, (e.1, v) ∈ m ∧ f e.1 v = e.2 := by
  simp only [mem_entries, mapValues, List.mem_map, Prod.exists]
  constructor
  · rintro ⟨k, v, h, rfl⟩
    exact ⟨v, h, rfl⟩
  · rintro ⟨v, h, he⟩
    exact ⟨e.1, v, h, by rw [he]⟩

/-- The value of one key is replaced in place (`get_mut`). -/
def modify (m : BTreeMap K V) (k : K) (f : V → V) : BTreeMap K V := m.mapValues fun k' v => if k' = k then f v else v

theorem mem_modify {f : V → V} (h : (k, v) ∈ m) :
    e ∈ m.modify k f ↔ e = (k, f v) ∨ e ∈ m ∧ e.1 ≠ k := by
  obtain ⟨k', w⟩ := e
  simp only [modify, mem_mapValues, Prod.mk.injEq]
  constructor
  · rintro ⟨u, hu, hw⟩
    split at hw
    · rename_i he
      subst he
      exact .inl ⟨rfl, by rw [← hw, mem_unique hu h]⟩
    · rename_i he
      subst hw
      exact .inr ⟨hu, he⟩
  · rintro (⟨rfl, rfl⟩ | ⟨hw, hne⟩)
    · exact ⟨v, h, by simp⟩
    · exact ⟨w, hw, by simp [hne]⟩

/-- `extend`: the entries are inserted one after another. -/
def insertAll (m : BTreeMap K V) (l : List (K × V)) : BTreeMap K V := l.foldl (fun m e => m.insert e.1 e.2) m

/-- New keys, all different, add their entries. -/
theorem mem_insertAll : ∀ {m : BTreeMap K V}, (∀ e ∈ l, ∀ b ∈ m, b.1 ≠ e.1) →
    l.Pairwise (fun a b => a.1 ≠ b.1) → ∀ {e : K × V}, e ∈ m.insertAll l ↔ e ∈ l ∨ e ∈ m := by
  induction l with
  | nil => simp [insertAll]
  | cons a l ih =>
    intro m hnew hl e
    rw [pairwise_cons] at hl
    have hm : ∀ b ∈ m, b.1 ≠ a.1 := hnew a mem_cons_self
    have hins : ∀ e ∈ l, ∀ b ∈ m.insert a.1 a.2, b.1 ≠ e.1 := by
      intro e he b hb
      rcases mem_insert.1 hb with rfl | hb
      · exact hl.1 e he
      · exact hnew e (mem_cons_of_mem _ he) b hb.1
    have hstep : m.insertAll (a :: l) = (m.insert a.1 a.2).insertAll l := rfl
    rw [hstep, ih hins hl.2, mem_insert, mem_cons]
    constructor
    · rintro (h | rfl | h)
      · exact .inl (.inr h)
      · exact .inl (.inl rfl)
      · exact .inr h.1
    · rintro ((rfl | h) | h)
      · exact .inr (.inl rfl)
      · exact .inl h
      · exact .inr (.inr ⟨h, hm e h⟩)

end BTreeMap
end XKernel.Lib
