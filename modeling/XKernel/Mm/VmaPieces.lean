import XKernel.Mm.Vma
/-!
# What an address is mapped to

The abstract side is a partial map from addresses to attributes; the area set is
read as such a map by looking the address up. An operation that replaces each area
by pieces of it keeps the set well formed, and the new map is known as soon as the
pieces are.
-/

namespace XKernel.Vma

open XKernel.Lib List Option

/-! ## The map an area set stands for -/

/-- What is observable of a mapped address. -/
structure Attr where
  perm : MappingFlags
  mayPerm : MappingFlags
  inheritance : VmInheritance
  backing : VmBackingInfo
  pageIndex : UInt64
  fileOffset : Option UInt64
  deriving DecidableEq

def VmArea.attrAt (a : VmArea) (addr : Nat) : Attr where
  perm := a.perm
  mayPerm := a.mayPerm
  inheritance := a.inheritance
  backing := a.backing
  pageIndex := a.pageIndexFor addr
  fileOffset := a.fileOffsetFor addr

/-- The attributes of every mapped address. -/
def VmAreaSet.view (s : VmAreaSet) (addr : Nat) : Option Attr := (s.find addr).map (·.attrAt addr)

/-- Non-empty, page-aligned areas, keyed by their starts and pairwise disjoint. -/
structure VmAreaSet.Wf (s : VmAreaSet) : Prop where
  keyed : ∀ e ∈ s.areas, e.2.start = e.1
  nonempty : ∀ e ∈ s.areas, e.2.start < e.2.stop
  aligned : ∀ e ∈ s.areas, pageSize4K ∣ e.2.start ∧ pageSize4K ∣ e.2.stop
  disjoint : ∀ e ∈ s.areas, ∀ e' ∈ s.areas, e = e' ∨ e.2.stop ≤ e'.2.start ∨ e'.2.stop ≤ e.2.start

namespace VmAreaSet

variable {s : VmAreaSet}

/-- The area is in the set, under its own start. -/
def Has (s : VmAreaSet) (a : VmArea) : Prop := (a.start, a) ∈ s.areas

theorem Wf.has (h : s.Wf) {e : Nat × VmArea} (he : e ∈ s.areas) : s.Has e.2 := by
  unfold Has
  rw [h.keyed e he]
  exact he

theorem Wf.unique (h : s.Wf) {a b : VmArea} (ha : s.Has a) (hb : s.Has b) {x : Nat} (hxa : a.start ≤ x ∧ x < a.stop)
    (hxb : b.start ≤ x ∧ x < b.stop) : a = b := by
  rcases h.disjoint _ ha _ hb with he | he | he
  · exact (Prod.mk.inj he).2
  all_goals simp only at he; omega

/-- An area that starts in another one is that one. -/
theorem Wf.starts_in (h : s.Wf) {a : VmArea} (ha : s.Has a) {e : Nat × VmArea} (he : e ∈ s.areas) (h1 : a.start ≤ e.1)
    (h2 : e.1 < a.stop) : e = (a.start, a) := by
  have hk := h.keyed e he
  have hne := h.nonempty e he
  rcases h.disjoint e he _ ha with heq | hd
  · exact heq
  · simp only at hd
    omega

theorem Wf.stop_le (h : s.Wf) {e e' : Nat × VmArea} (he : e ∈ s.areas) (he' : e' ∈ s.areas) (hlt : e.1 < e'.1) :
    e.2.stop ≤ e'.1 := by
  have hk := h.keyed e he
  refine not_lt.1 fun hin => hlt.ne ?_
  rw [h.starts_in (h.has he) he' (hk.trans_lt hlt).le hin, hk]

theorem Wf.mono (h : s.Wf) {t : VmAreaSet} (hsub : ∀ e ∈ t.areas, e ∈ s.areas) : t.Wf where
  keyed e he := h.keyed e (hsub e he)
  nonempty e he := h.nonempty e (hsub e he)
  aligned e he := h.aligned e (hsub e he)
  disjoint e he e' he' := h.disjoint e (hsub e he) e' (hsub e' he')

variable {addr : Nat}

theorem Wf.find_eq_some (h : s.Wf) {a : VmArea} :
    s.find addr = some a ↔ s.Has a ∧ a.start ≤ addr ∧ addr < a.stop := by
  unfold find
  cases hl : s.areas.lastUpTo addr with
  | none =>
    have hn := BTreeMap.lastUpTo_none hl
    constructor
    · intro hf
      cases hf
    · rintro ⟨ha, h1, -⟩
      exact absurd (hn _ ha) (by simp only; omega)
  | some e =>
    obtain ⟨he, hle, hmax⟩ := BTreeMap.lastUpTo_some hl
    simp only [bind_eq_bind, bind_some, VmArea.contains, Bool.and_eq_true, decide_eq_true_eq,
      ite_none_right_eq_some, some.injEq]
    constructor
    · rintro ⟨hc, rfl⟩
      exact ⟨h.has he, hc⟩
    · rintro ⟨ha, h1, h2⟩
      -- the area around the address starts last among those that start up to it
      rw [h.starts_in ha he (hmax _ ha h1) (hle.trans_lt h2)]
      exact ⟨⟨h1, h2⟩, rfl⟩

theorem Wf.view_eq_some (h : s.Wf) {t : Attr} :
    s.view addr = some t ↔ ∃ a, s.Has a ∧ (a.start ≤ addr ∧ addr < a.stop) ∧ a.attrAt addr = t := by
  unfold view
  rw [map_eq_some_iff]
  simp only [h.find_eq_some, and_assoc]

theorem Wf.view_eq_none (h : s.Wf) :
    s.view addr = none ↔ ∀ a, s.Has a → ¬ (a.start ≤ addr ∧ addr < a.stop) := by
  rw [eq_none_iff_forall_ne_some]
  constructor
  · intro hn a ha hc
    exact hn _ (h.view_eq_some.2 ⟨a, ha, hc, rfl⟩)
  · rintro hn t ht
    obtain ⟨a, ha, hc, -⟩ := h.view_eq_some.1 ht
    exact hn a ha hc

end VmAreaSet

/-! ## Pieces of an area -/

namespace VmArea

/-- The part from `pos` on, with the offsets of `pos`. -/
def dropTo (a : VmArea) (pos : Nat) : VmArea :=
  { a with
    start := pos
    pageOffset := a.pageOffset + deltaPages a.start pos
    file := a.shiftedFileMapping (deltaPages a.start pos) }

theorem split_eq {a : VmArea} {pos : Nat} (h1 : a.start < pos) (h2 : pos < a.stop) :
    a.split pos = (a.setEnd pos, some (a.dropTo pos)) :=
  if_pos ⟨h1, h2⟩

theorem deltaPages_self (x : Nat) : deltaPages x x = 0 := by
  rw [deltaPages, Nat.sub_self]
  rfl

theorem dropTo_start (a : VmArea) : a.dropTo a.start = a := by
  have hf : a.shiftedFileMapping 0 = a.file := by
    unfold shiftedFileMapping
    cases a.file with
    | none => rfl
    | some => simp
  unfold dropTo
  rw [deltaPages_self, hf, UInt64.add_zero]

theorem deltaPages_add {lo mid hi : Nat} (h1 : lo ≤ mid) (h2 : mid ≤ hi) (hd : pageSize4K ∣ mid - lo) :
    deltaPages lo mid + deltaPages mid hi = deltaPages lo hi := by
  obtain ⟨k, hk⟩ := hd
  have hsum : hi - lo = pageSize4K * k + (hi - mid) := by omega
  have hpos : 0 < pageSize4K := by decide
  unfold deltaPages
  rw [← UInt64.ofNat_add, hsum, hk, Nat.mul_div_cancel_left _ hpos, Nat.mul_add_div hpos]

/-- A cut at a page boundary leaves the attributes of the addresses behind it. -/
theorem dropTo_attrAt {a : VmArea} {pos addr : Nat} (h1 : a.start ≤ pos) (h2 : pos ≤ addr)
    (hd : pageSize4K ∣ pos - a.start) : (a.dropTo pos).attrAt addr = a.attrAt addr := by
  have hp : (a.dropTo pos).pageIndexFor addr = a.pageIndexFor addr := by
    unfold pageIndexFor
    simp only [dropTo]
    rw [UInt64.add_assoc, deltaPages_add h1 h2 hd]
  have hf : (a.dropTo pos).fileOffsetFor addr = a.fileOffsetFor addr := by
    unfold fileOffsetFor
    simp only [dropTo, shiftedFileMapping]
    cases a.file with
    | none => rfl
    | some =>
      simp only [map_some]
      rw [UInt64.add_assoc, deltaPages, ← UInt64.ofNat_mul, ← UInt64.ofNat_add, Nat.div_mul_cancel hd]
      congr 3
      omega
  unfold attrAt
  rw [hp, hf]
  rfl

theorem setEnd_attrAt (a : VmArea) (stop addr : Nat) : (a.setEnd stop).attrAt addr = a.attrAt addr := rfl

/-- `q` is a part of `a`, and `change` is what happened to its attributes. -/
structure PieceOf (a q : VmArea) (change : Attr → Attr) : Prop where
  lo : a.start ≤ q.start
  nonempty : q.start < q.stop
  hi : q.stop ≤ a.stop
  aligned : pageSize4K ∣ q.start ∧ pageSize4K ∣ q.stop
  attr : ∀ addr, q.start ≤ addr → addr < q.stop → q.attrAt addr = change (a.attrAt addr)

/-- The part of an area below `lo`. -/
def below (lo : Nat) (a : VmArea) : List VmArea := if a.start < lo then [a.setEnd (min a.stop lo)] else []

/-- The part of an area from `hi` on. -/
def above (hi : Nat) (a : VmArea) : List VmArea := if hi < a.stop then [a.dropTo (max a.start hi)] else []

/-- The part of an area from `lo` up to `hi`. -/
def within (lo hi : Nat) (a : VmArea) : List VmArea :=
  if max a.start lo < min a.stop hi then [(a.dropTo (max a.start lo)).setEnd (min a.stop hi)] else []

/-- What a well-formed set promises of each of its areas. -/
structure Ok (a : VmArea) : Prop where
  nonempty : a.start < a.stop
  start : pageSize4K ∣ a.start
  stop : pageSize4K ∣ a.stop

variable {a q : VmArea} {lo hi : Nat}

theorem dvd_max {d m n : Nat} (hm : d ∣ m) (hn : d ∣ n) : d ∣ max m n := by
  rw [Nat.max_def]
  split
  · exact hn
  · exact hm

theorem dvd_min {d m n : Nat} (hm : d ∣ m) (hn : d ∣ n) : d ∣ min m n := by
  rw [Nat.min_def]
  split
  · exact hm
  · exact hn

theorem below_all (h : a.start < a.stop) (hle : a.stop ≤ lo) : a.below lo = [a] := by
  rw [below, if_pos (by omega), min_eq_left hle]
  rfl

theorem below_cut (h : a.start < lo) (hle : lo ≤ a.stop) : a.below lo = [a.setEnd lo] := by
  rw [below, if_pos h, min_eq_right hle]

theorem above_all (h : a.start < a.stop) (hle : hi ≤ a.start) : a.above hi = [a] := by
  rw [above, if_pos (by omega), max_eq_left hle, dropTo_start]

theorem above_cut (h : hi < a.stop) (hle : a.start ≤ hi) : a.above hi = [a.dropTo hi] := by
  rw [above, if_pos h, max_eq_right hle]

theorem Ok.self (h : a.Ok) : PieceOf a a id :=
  ⟨le_rfl, h.nonempty, le_rfl, ⟨h.start, h.stop⟩, fun _ _ _ => rfl⟩

theorem Ok.below (h : a.Ok) (hlo : pageSize4K ∣ lo) (hq : q ∈ a.below lo) :
    PieceOf a q id ∧ q.start = a.start ∧ q.stop = min a.stop lo := by
  obtain ⟨hlt, hq⟩ := mem_ite_nil_right.1 hq
  rw [mem_singleton.1 hq]
  refine ⟨⟨le_rfl, lt_min h.nonempty hlt, min_le_left _ _, ⟨h.start, dvd_min h.stop hlo⟩, ?_⟩, rfl, rfl⟩
  exact fun addr _ _ => setEnd_attrAt a _ addr

theorem Ok.above (h : a.Ok) (hhi : pageSize4K ∣ hi) (hq : q ∈ a.above hi) :
    PieceOf a q id ∧ q.start = max a.start hi ∧ q.stop = a.stop := by
  obtain ⟨hlt, hq⟩ := mem_ite_nil_right.1 hq
  rw [mem_singleton.1 hq]
  have hs : pageSize4K ∣ max a.start hi := dvd_max h.start hhi
  refine ⟨⟨le_max_left _ _, max_lt h.nonempty hlt, le_rfl, ⟨hs, h.stop⟩, fun addr h1 _ => ?_⟩, rfl, rfl⟩
  exact dropTo_attrAt (le_max_left _ _) h1 (Nat.dvd_sub hs h.start)

theorem Ok.within (h : a.Ok) (hlo : pageSize4K ∣ lo) (hhi : pageSize4K ∣ hi) (hq : q ∈ a.within lo hi) :
    PieceOf a q id ∧ q.start = max a.start lo ∧ q.stop = min a.stop hi := by
  obtain ⟨hlt, hq⟩ := mem_ite_nil_right.1 hq
  rw [mem_singleton.1 hq]
  have hs : pageSize4K ∣ max a.start lo := dvd_max h.start hlo
  refine ⟨⟨le_max_left _ _, hlt, min_le_left _ _, ⟨hs, dvd_min h.stop hhi⟩, fun addr h1 _ => ?_⟩, rfl, rfl⟩
  rw [setEnd_attrAt]
  exact dropTo_attrAt (le_max_left _ _) h1 (Nat.dvd_sub hs h.start)

variable {x : Nat}

/-- An address of the area lies below, within or above. -/
theorem exists_below (h : a.start ≤ x ∧ x < a.stop) (hx : x < lo) :
    ∃ q ∈ a.below lo, q.start ≤ x ∧ x < q.stop := by
  refine ⟨a.setEnd (min a.stop lo), ?_, h.1, lt_min h.2 hx⟩
  unfold below
  rw [if_pos (by omega)]
  exact mem_singleton_self _

theorem exists_above (h : a.start ≤ x ∧ x < a.stop) (hx : hi ≤ x) :
    ∃ q ∈ a.above hi, q.start ≤ x ∧ x < q.stop := by
  refine ⟨a.dropTo (max a.start hi), ?_, max_le h.1 hx, h.2⟩
  unfold above
  rw [if_pos (by omega)]
  exact mem_singleton_self _

theorem exists_within (h : a.start ≤ x ∧ x < a.stop) (hx : lo ≤ x ∧ x < hi) :
    ∃ q ∈ a.within lo hi, q.start ≤ x ∧ x < q.stop := by
  refine ⟨(a.dropTo (max a.start lo)).setEnd (min a.stop hi), ?_, max_le h.1 hx.1, lt_min h.2 hx.2⟩
  unfold within
  rw [if_pos (lt_of_le_of_lt (max_le h.1 hx.1) (lt_min h.2 hx.2))]
  exact mem_singleton_self _

end VmArea

/-! ## Cutting every area of a set -/

/-- `s'` has the pieces of the areas of `s`. -/
def CutBy (s s' : VmAreaSet) (pieces : VmArea → List VmArea) : Prop :=
  ∀ e, e ∈ s'.areas ↔ ∃ a, s.Has a ∧ e.2 ∈ pieces a ∧ e.1 = e.2.start

namespace CutBy

variable {s t u : VmAreaSet} {f g : VmArea → List VmArea}

theorem has_iff (h : CutBy s t f) {q : VmArea} : t.Has q ↔ ∃ a, s.Has a ∧ q ∈ f a := by
  unfold VmAreaSet.Has
  rw [h]
  simp [VmAreaSet.Has]

theorem comp (h : CutBy s t f) (h' : CutBy t u g) : CutBy s u fun a => (f a).flatMap g := by
  intro e
  rw [h' e]
  simp only [h.has_iff, mem_flatMap]
  constructor
  · rintro ⟨b, ⟨a, ha, hb⟩, he, hk⟩
    exact ⟨a, ha, ⟨b, hb, he⟩, hk⟩
  · rintro ⟨a, ha, ⟨b, hb, he⟩, hk⟩
    exact ⟨b, ⟨a, ha, hb⟩, he, hk⟩

theorem congr (h : CutBy s t f) (he : ∀ a, s.Has a → ∀ q, q ∈ f a ↔ q ∈ g a) : CutBy s t g := by
  intro e
  rw [h e]
  refine exists_congr fun a => and_congr_right fun ha => ?_
  rw [he a ha]

end CutBy

theorem VmAreaSet.Wf.ok {s : VmAreaSet} (h : s.Wf) {a : VmArea} (ha : s.Has a) : a.Ok :=
  ⟨h.nonempty _ ha, (h.aligned _ ha).1, (h.aligned _ ha).2⟩

variable {f : VmArea → List VmArea}

/-- Cutting areas into disjoint pieces keeps a set well formed. -/
theorem VmAreaSet.Wf.cut {s t : VmAreaSet} (h : s.Wf) (hc : CutBy s t f)
    (hp : ∀ a, a.Ok → ∀ q ∈ f a, ∃ c, VmArea.PieceOf a q c)
    (hd : ∀ a, a.Ok → ∀ q ∈ f a, ∀ q' ∈ f a, q = q' ∨ q.stop ≤ q'.start ∨ q'.stop ≤ q.start) : t.Wf := by
  refine ⟨fun e he => ?_, fun e he => ?_, fun e he => ?_, fun e he e' he' => ?_⟩
  · obtain ⟨a, ha, hq, hk⟩ := (hc e).1 he
    exact hk.symm
  · obtain ⟨a, ha, hq, hk⟩ := (hc e).1 he
    obtain ⟨c, hpc⟩ := hp a (h.ok ha) _ hq
    exact hpc.nonempty
  · obtain ⟨a, ha, hq, hk⟩ := (hc e).1 he
    obtain ⟨c, hpc⟩ := hp a (h.ok ha) _ hq
    exact hpc.aligned
  · obtain ⟨a, ha, hq, hk⟩ := (hc e).1 he
    obtain ⟨a', ha', hq', hk'⟩ := (hc e').1 he'
    obtain ⟨c, hpc⟩ := hp a (h.ok ha) _ hq
    obtain ⟨c', hpc'⟩ := hp a' (h.ok ha') _ hq'
    have hb := hpc.lo
    have hb' := hpc.hi
    have hb'' := hpc'.lo
    have hb''' := hpc'.hi
    rcases h.disjoint _ ha _ ha' with haa | haa | haa
    · obtain rfl : a = a' := (Prod.mk.inj haa).2
      rcases hd a (h.ok ha) _ hq _ hq' with hqq | hqq
      · exact .inl (Prod.ext (by rw [hk, hk', hqq]) hqq)
      · exact .inr hqq
    · simp only at haa
      exact .inr (.inl (by omega))
    · simp only at haa
      exact .inr (.inr (by omega))

/-- The map after a cut: an address keeps its attributes, up to `change`, if some piece around it is kept. -/
theorem VmAreaSet.Wf.view_cut {s t : VmAreaSet} (h : s.Wf) (ht : t.Wf) (hc : CutBy s t f)
    (addr : Nat) (change : Attr → Attr) (keep : Prop) [Decidable keep]
    (hp : ∀ a, a.Ok → ∀ q ∈ f a, q.start ≤ addr → addr < q.stop →
      keep ∧ (a.start ≤ addr ∧ addr < a.stop) ∧ q.attrAt addr = change (a.attrAt addr))
    (hex : ∀ a, a.Ok → a.start ≤ addr ∧ addr < a.stop → keep → ∃ q ∈ f a, q.start ≤ addr ∧ addr < q.stop) :
    t.view addr = if keep then (s.view addr).map change else none := by
  refine ext fun x => ?_
  rw [ht.view_eq_some]
  constructor
  · rintro ⟨q, hq, hin, hx⟩
    obtain ⟨a, ha, hqa⟩ := hc.has_iff.1 hq
    obtain ⟨hk, hax, hat⟩ := hp a (h.ok ha) q hqa hin.1 hin.2
    rw [if_pos hk, (h.view_eq_some).2 ⟨a, ha, hax, rfl⟩, map_some, ← hat, hx]
  · intro hx
    by_cases hk : keep
    · rw [if_pos hk] at hx
      obtain ⟨y, hy, rfl⟩ := map_eq_some_iff.1 hx
      obtain ⟨a, ha, hax, rfl⟩ := h.view_eq_some.1 hy
      obtain ⟨q, hq, hin⟩ := hex a (h.ok ha) hax hk
      exact ⟨q, hc.has_iff.2 ⟨a, ha, hq⟩, hin, (hp a (h.ok ha) q hq hin.1 hin.2).2.2⟩
    · rw [if_neg hk] at hx
      cases hx

end XKernel.Vma
