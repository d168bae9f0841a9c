import Mathlib
/-!
# Byte strings with fields at fixed offsets

Numbers are stored with the least significant byte first (`Le`) or last (`Be`). A reader takes
a field at an offset out of a string, a writer replaces it; both fail when the field is not
inside. A string that is built from left to right is a concatenation, so the field at an offset
is the part that stands behind a part of that length.
-/

namespace XKernel.Lib

open List

abbrev Bytes := List UInt8

namespace Bytes

/-! ## Numbers -/

def ofLe (l : Bytes) : Nat := Nat.ofDigits 256 (l.map UInt8.toNat)

def toLe (w v : Nat) : Bytes := (List.range w).map fun i => UInt8.ofNat (v / 256 ^ i)

def ofBe (l : Bytes) : Nat := ofLe l.reverse

def toBe (w v : Nat) : Bytes := (toLe w v).reverse

@[simp]
theorem length_toLe (w v : Nat) : (toLe w v).length = w := by
  simp [toLe]

@[simp]
theorem length_toBe (w v : Nat) : (toBe w v).length = w := by
  simp [toBe]

@[simp]
theorem ofLe_toLe (w v : Nat) : ofLe (toLe w v) = v % 256 ^ w := by
  induction w with
  | zero => simp [toLe, ofLe, Nat.mod_one]
  | succ w ih =>
    have hsnoc : toLe (w + 1) v = toLe w v ++ [UInt8.ofNat (v / 256 ^ w)] := by
      simp [toLe, range_succ]
    rw [Nat.mod_pow_succ, ← ih, hsnoc, ofLe, map_append, Nat.ofDigits_append]
    simp [ofLe]

theorem toLe_inj {w v v' : Nat} (h : toLe w v = toLe w v') (hv : v < 256 ^ w) (hv' : v' < 256 ^ w) : v = v' := by
  have := congrArg ofLe h
  rwa [ofLe_toLe, ofLe_toLe, Nat.mod_eq_of_lt hv, Nat.mod_eq_of_lt hv'] at this

@[simp]
theorem ofBe_toBe (w v : Nat) : ofBe (toBe w v) = v % 256 ^ w := by
  simp [ofBe, toBe]

/-! ## Fields -/

/-- The `n` bytes at `off`. -/
def get (n off : Nat) (l : Bytes) : Option Bytes :=
  if off + n ≤ l.length then some ((l.drop off).take n) else none

/-- `l` with `new` in the place of the bytes at `off`. -/
def put (new : Bytes) (off : Nat) (l : Bytes) : Option Bytes :=
  if off + new.length ≤ l.length then some (l.take off ++ (new ++ l.drop (off + new.length))) else none

variable {n off : Nat}

theorem get_eq_some {l r : Bytes} : get n off l = some r ↔ off + n ≤ l.length ∧ (l.drop off).take n = r := by
  simp [get]

theorem length_of_get {l r : Bytes} (h : get n off l = some r) : r.length = n := by
  obtain ⟨hle, rfl⟩ := get_eq_some.1 h
  rw [length_take, length_drop]
  omega

theorem get_isSome {l : Bytes} (h : off + n ≤ l.length) : ∃ r, get n off l = some r :=
  ⟨_, get_eq_some.2 ⟨h, rfl⟩⟩

/-- The bytes `v` stand at `off`, behind a part of that length. -/
def Holds (l : Bytes) (off : Nat) (v : Bytes) : Prop := ∃ pre post, pre.length = off ∧ l = pre ++ (v ++ post)

theorem Holds.get {l v : Bytes} (h : Holds l off v) (hn : v.length = n) : get n off l = some v := by
  obtain ⟨pre, post, rfl, rfl⟩ := h
  subst hn
  simp [get_eq_some]

theorem Holds.left {l v w : Bytes} (h : Holds l off (v ++ w)) : Holds l off v := by
  obtain ⟨pre, post, ho, rfl⟩ := h
  exact ⟨pre, w ++ post, ho, by rw [append_assoc]⟩

theorem Holds.right {l v w : Bytes} (h : Holds l off (v ++ w)) (hn : v.length = n) : Holds l (off + n) w := by
  obtain ⟨pre, post, rfl, rfl⟩ := h
  exact ⟨pre ++ v, post, by rw [length_append, hn], by simp only [append_assoc]⟩

variable {off : Nat}

theorem put_append {pre mid new post : Bytes} (ho : pre.length = off) (hn : mid.length = new.length) :
    put new off (pre ++ (mid ++ post)) = some (pre ++ (new ++ post)) := by
  subst ho
  have hle : pre.length + new.length ≤ (pre ++ (mid ++ post)).length := by
    simp only [length_append]
    omega
  rw [put, if_pos hle, take_left, ← drop_drop, drop_left, ← hn, drop_left]

variable {new l r : Bytes}

theorem put_eq_some :
    put new off l = some r ↔
      off + new.length ≤ l.length ∧ l.take off ++ (new ++ l.drop (off + new.length)) = r := by
  simp [put]

theorem length_of_put (h : put new off l = some r) : r.length = l.length := by
  obtain ⟨hle, rfl⟩ := put_eq_some.1 h
  simp only [length_append, length_take, length_drop]
  omega

/-- A field beside the replaced one stays. -/
theorem get_put_disjoint {off n o : Nat} (h : put new off l = some r)
    (hd : o + n ≤ off ∨ off + new.length ≤ o) : get n o r = get n o l := by
  obtain ⟨hle, rfl⟩ := put_eq_some.1 h
  have hlen := length_of_put h
  have hbytes : ((l.take off ++ (new ++ l.drop (off + new.length))).drop o).take n = (l.drop o).take n := by
    rcases hd with hd | hd
    · rw [drop_append_of_le_length (by rw [length_take]; omega),
        take_append_of_le_length (by rw [length_drop, length_take]; omega),
        drop_take, take_take, Nat.min_eq_left (by omega)]
    · have ht : (l.take off).length = off := by
        rw [length_take]
        omega
      rw [drop_append, drop_of_length_le (by omega), nil_append, ht, drop_append,
        drop_of_length_le (by omega), nil_append, drop_drop]
      congr 2
      omega
  rw [get, get, hlen, hbytes]

end Bytes

end XKernel.Lib
