import XKernel.Mm.VmaPieces
/-!
# Unmapping a range

`unmap` cuts every area at the bounds of the range. Its three stages (areas inside the
range, the area over the left bound, the one over the right bound) compose to one cut
that keeps the pieces outside the range, and what happens to the map is read off them.
-/

namespace XKernel.Vma

open XKernel.Lib List BTreeMap VmArea

namespace VmAreaSet

variable {s : VmAreaSet} {lo hi : Nat}

/-! ## The stages -/

theorem Wf.self_cut (h : s.Wf) : CutBy s s fun a => [a] := by
  intro e
  constructor
  · intro he
    exact ⟨e.2, h.has he, mem_singleton_self _, (h.keyed e he).symm⟩
  · rintro ⟨a, ha, he, hk⟩
    obtain rfl := mem_singleton.1 he
    unfold Has at ha
    rwa [← hk] at ha

variable {a : VmArea}

/-- An area that starts below a position and ends behind it is the last one that starts below. -/
theorem Wf.lastBelow_straddle (h : s.Wf) (ha : s.Has a) (h1 : a.start < lo) (h2 : lo < a.stop) :
    s.areas.lastBelow lo = some (a.start, a) := by
  cases hl : s.areas.lastBelow lo with
  | none =>
    have := lastBelow_none hl _ ha
    omega
  | some e =>
    obtain ⟨he, hlt, hmax⟩ := lastBelow_some hl
    rw [h.starts_in ha he (hmax _ ha h1) (hlt.trans h2)]

theorem kept_cut (h : s.Wf) (lo hi : Nat) :
    CutBy s ⟨s.areas.retain fun _ area => !(lo ≤ area.start && area.stop ≤ hi)⟩
      fun a => if lo ≤ a.start ∧ a.stop ≤ hi then [] else [a] := by
  intro e
  simp only [mem_retain, Bool.not_eq_true', Bool.and_eq_false_iff, decide_eq_false_iff_not]
  constructor
  · rintro ⟨he, hc⟩
    refine ⟨e.2, h.has he, ?_, (h.keyed e he).symm⟩
    rw [if_neg (by tauto)]
    exact mem_singleton_self _
  · rintro ⟨a, ha, he, hk⟩
    split at he
    · cases he
    · obtain rfl := mem_singleton.1 he
      unfold Has at ha
      rw [← hk] at ha
      exact ⟨ha, by tauto⟩

/-- One area is replaced by its pieces and the others stay. -/
theorem Wf.replace_cut (h : s.Wf) {t : VmAreaSet} {b : VmArea} (hb : s.Has b) {f : VmArea → List VmArea}
    (hf : ∀ a, s.Has a → a.start ≠ b.start → f a = [a])
    (ht : ∀ e, e ∈ t.areas ↔ (e.2 ∈ f b ∧ e.1 = e.2.start) ∨ e ∈ s.areas ∧ e.1 ≠ b.start) : CutBy s t f := by
  intro e
  rw [ht]
  constructor
  · rintro (⟨he, hk⟩ | ⟨he, hne⟩)
    · exact ⟨b, hb, he, hk⟩
    · have hk := h.keyed e he
      refine ⟨e.2, h.has he, ?_, hk.symm⟩
      rw [hf _ (h.has he) (by rw [hk]; exact hne)]
      exact mem_singleton_self _
  · rintro ⟨a, ha, he, hk⟩
    by_cases hab : a.start = b.start
    · obtain rfl : a = b := mem_unique (by rw [← hab]; exact ha) hb
      exact .inl ⟨he, hk⟩
    · rw [hf a ha hab] at he
      obtain rfl := mem_singleton.1 he
      refine .inr ⟨?_, by rw [hk]; exact hab⟩
      unfold Has at ha
      rwa [← hk] at ha

/-- No area starts inside another one. -/
theorem Wf.not_start (h : s.Wf) {b : VmArea} (hb : s.Has b) {pos : Nat} (h1 : b.start < pos) (h2 : pos < b.stop)
    {e : Nat × VmArea} (he : e ∈ s.areas) : e.1 ≠ pos := by
  rintro rfl
  rw [h.starts_in hb he h1.le h2] at h1
  exact lt_irrefl _ h1

theorem unmapBefore_cut (h : s.Wf) (hlt : lo < hi) :
    CutBy s (s.unmapBefore lo hi)
      fun a => if a.start < lo ∧ lo < a.stop then a.below lo ++ a.above hi else [a] := by
  -- only the last area that starts below the range can reach into it
  have hnone : (∀ a, s.Has a → ¬ (a.start < lo ∧ lo < a.stop)) → s.unmapBefore lo hi = s →
      CutBy s (s.unmapBefore lo hi)
        fun a => if a.start < lo ∧ lo < a.stop then a.below lo ++ a.above hi else [a] := by
    intro hno heq
    rw [heq]
    refine h.self_cut.congr fun a ha q => ?_
    rw [if_neg (hno a ha)]
  cases hl : s.areas.lastBelow lo with
  | none =>
    refine hnone (fun a ha hc => ?_) (by simp only [unmapBefore, hl])
    have := lastBelow_none hl _ ha
    omega
  | some e =>
    obtain ⟨k, b⟩ := e
    obtain ⟨hb, hkb, -⟩ := lastBelow_some hl
    obtain rfl : b.start = k := h.keyed _ hb
    have hstraddle : ∀ a, s.Has a → a.start < lo ∧ lo < a.stop → a = b := by
      rintro a ha ⟨h1, h2⟩
      have := h.lastBelow_straddle ha h1 h2
      rw [hl] at this
      exact (Prod.mk.inj (Option.some.inj this)).2.symm
    by_cases hstop : lo < b.stop
    · refine h.replace_cut hb (fun a ha hab => if_neg fun hc => hab (by rw [hstraddle a ha hc])) fun e => ?_
      have hbelow := below_cut hkb hstop.le
      have hsize : (b.setEnd lo).size ≠ 0 := by
        simp only [size, setEnd]
        omega
      rw [if_pos ⟨hkb, hstop⟩, hbelow]
      by_cases hhi : b.stop ≤ hi
      · have habove : b.above hi = [] := if_neg (by omega)
        simp only [unmapBefore, hl, if_pos hstop, if_pos hhi, if_neg hsize, habove, append_nil,
          mem_singleton]
        rw [mem_modify hb]
        refine or_congr_left ⟨?_, ?_⟩
        · rintro rfl
          exact ⟨rfl, rfl⟩
        · rintro ⟨he, hk⟩
          exact Prod.ext (by rw [hk, he]; rfl) he
      · have habove : b.above hi = [b.dropTo hi] := above_cut (by omega) (by omega)
        have hsplit := split_eq (show b.start < hi by omega) (show hi < b.stop by omega)
        have hends : (b.setEnd hi).setEnd lo = b.setEnd lo := rfl
        simp only [unmapBefore, hl, if_pos hstop, if_neg hhi, hsplit, hends, if_neg hsize, habove, singleton_append,
          mem_cons, not_mem_nil, or_false]
        rw [mem_insert, mem_modify hb]
        constructor
        · rintro (rfl | ⟨rfl | he, -⟩)
          · exact .inl ⟨.inr rfl, rfl⟩
          · exact .inl ⟨.inl rfl, rfl⟩
          · exact .inr he
        · rintro (⟨he | he, hk⟩ | he)
          · refine .inr ⟨.inl (Prod.ext (by rw [hk, he]; rfl) he), ?_⟩
            rw [hk, he]
            show b.start ≠ hi
            omega
          · exact .inl (Prod.ext (by rw [hk, he]) he)
          · have hne : e.1 ≠ hi := h.not_start hb (by omega) (by omega) he.1
            exact .inr ⟨.inr he, hne⟩
    · exact hnone (fun a ha hc => hstop (by rw [← hstraddle a ha hc]; exact hc.2))
        (by simp only [unmapBefore, hl, if_neg hstop])

/-- After the areas inside the range are gone, at most one area starts in it. -/
theorem unmapAfter_cut (h : s.Wf) (hin : ∀ a, s.Has a → lo ≤ a.start → hi < a.stop) :
    CutBy s (s.unmapAfter lo hi) fun a => if lo ≤ a.start ∧ a.start < hi then a.above hi else [a] := by
  cases hf : s.areas.firstFrom lo with
  | none =>
    have heq : s.unmapAfter lo hi = s := by simp only [unmapAfter, hf]
    rw [heq]
    refine h.self_cut.congr fun a ha q => ?_
    have := firstFrom_none hf _ ha
    rw [if_neg (by simp only at this; omega)]
  | some e =>
    obtain ⟨k, b⟩ := e
    obtain ⟨hb, hkb, hmin⟩ := firstFrom_some hf
    obtain rfl : b.start = k := h.keyed _ hb
    have hbs := hin b hb hkb
    have hfirst : ∀ a, s.Has a → lo ≤ a.start ∧ a.start < hi → a = b := by
      rintro a ha ⟨h1, h2⟩
      exact (Prod.mk.inj (h.starts_in hb ha (hmin _ ha h1) (h2.trans hbs))).2
    by_cases hlt : b.start < hi
    · refine h.replace_cut hb (fun a ha hab => if_neg fun hc => hab (by rw [hfirst a ha hc])) fun e => ?_
      have habove := above_cut hbs hlt.le
      simp only [unmapAfter, hf, if_pos hlt, if_pos hbs, if_pos (show lo ≤ b.start ∧ b.start < hi from ⟨hkb, hlt⟩),
        habove, mem_singleton]
      rw [mem_insert, mem_remove]
      constructor
      · rintro (rfl | ⟨he, -⟩)
        · exact .inl ⟨rfl, rfl⟩
        · exact .inr he
      · rintro (⟨he, hk⟩ | he)
        · exact .inl (Prod.ext (by rw [hk, he]; rfl) he)
        · exact .inr ⟨he, h.not_start hb hlt hbs he.1⟩
    · have heq : s.unmapAfter lo hi = s := by simp only [unmapAfter, hf, if_neg hlt]
      rw [heq]
      refine h.self_cut.congr fun a ha q => ?_
      rw [if_neg fun hc => hlt (by rw [← hfirst a ha hc]; exact hc.2)]

/-! ## The whole cut -/

theorem below_above_disjoint (h : a.Ok) (hlo : pageSize4K ∣ lo) (hhi : pageSize4K ∣ hi) (hle : lo ≤ hi) :
    ∀ q ∈ a.below lo ++ a.above hi, ∀ q' ∈ a.below lo ++ a.above hi, q = q' ∨ q.stop ≤ q'.start ∨
      q'.stop ≤ q.start := by
  intro q hq q' hq'
  rcases mem_append.1 hq with hq | hq <;> rcases mem_append.1 hq' with hq' | hq'
  · exact .inl ((mem_singleton.1 (mem_ite_nil_right.1 hq).2).trans (mem_singleton.1 (mem_ite_nil_right.1 hq').2).symm)
  · obtain ⟨-, -, h1⟩ := h.below hlo hq
    obtain ⟨-, h2, -⟩ := h.above hhi hq'
    exact .inr (.inl (by rw [h1, h2]; omega))
  · obtain ⟨-, h1, -⟩ := h.above hhi hq
    obtain ⟨-, -, h2⟩ := h.below hlo hq'
    exact .inr (.inr (by rw [h1, h2]; omega))
  · exact .inl ((mem_singleton.1 (mem_ite_nil_right.1 hq).2).trans (mem_singleton.1 (mem_ite_nil_right.1 hq').2).symm)

theorem below_above_pieces (h : a.Ok) (hlo : pageSize4K ∣ lo) (hhi : pageSize4K ∣ hi) :
    ∀ q ∈ a.below lo ++ a.above hi, PieceOf a q id :=
  forall_mem_append.2 ⟨fun _ hq => (h.below hlo hq).1, fun _ hq => (h.above hhi hq).1⟩

/-- The pieces that are left after the areas inside the range, the one over its left bound and the one over its right
bound have been dealt with, are the pieces outside the range. -/
theorem mem_unmap_pieces (h : a.Ok) (hlt : lo < hi) (q : VmArea) :
    q ∈ (((if lo ≤ a.start ∧ a.stop ≤ hi then [] else [a]).flatMap
        fun a => if a.start < lo ∧ lo < a.stop then a.below lo ++ a.above hi else [a]).flatMap
        fun a => if lo ≤ a.start ∧ a.start < hi then a.above hi else [a]) ↔
      q ∈ a.below lo ++ a.above hi := by
  have hne := h.nonempty
  by_cases hin : lo ≤ a.start ∧ a.stop ≤ hi
  · have hb : a.below lo = [] := if_neg (by omega)
    have ha : a.above hi = [] := if_neg (by omega)
    rw [if_pos hin, hb, ha]
    rfl
  rw [if_neg hin, flatMap_singleton]
  by_cases hst : a.start < lo ∧ lo < a.stop
  · have hb := below_cut hst.1 hst.2.le
    have hbs : ¬ (lo ≤ (a.setEnd lo).start ∧ (a.setEnd lo).start < hi) := fun hc => by
      have : lo ≤ a.start := hc.1
      omega
    rw [if_pos hst, hb, singleton_append, flatMap_cons, if_neg hbs]
    by_cases hhi : hi < a.stop
    · have ha := above_cut hhi (by omega)
      have has : ¬ (lo ≤ (a.dropTo hi).start ∧ (a.dropTo hi).start < hi) := fun hc => lt_irrefl _ hc.2
      rw [ha, flatMap_singleton, if_neg has, singleton_append]
    · have ha : a.above hi = [] := if_neg hhi
      rw [ha, flatMap_nil, append_nil]
  · rw [if_neg hst, flatMap_singleton]
    by_cases hlo : lo ≤ a.start
    · have hb : a.below lo = [] := if_neg (by omega)
      rw [hb, nil_append]
      by_cases hs : a.start < hi
      · rw [if_pos ⟨hlo, hs⟩]
      · have ha := above_all hne (not_lt.1 hs)
        rw [if_neg (by omega), ha]
    · have hb : a.below lo = [a] := below_all hne (by omega)
      have ha : a.above hi = [] := if_neg (by omega)
      rw [if_neg (by omega), hb, ha, append_nil]

/-- `unmap` cuts the range out of every area. -/
theorem unmap_cut (h : s.Wf) {start size : Nat} (hsize : size ≠ 0) (hs : pageSize4K ∣ start) (hz : pageSize4K ∣ size) :
    CutBy s (s.unmap start size) fun a => a.below start ++ a.above (start + size) := by
  have hhi : pageSize4K ∣ start + size := Nat.dvd_add hs hz
  have hlt : start < start + size := by omega
  simp only [unmap, if_neg hsize]
  generalize start + size = hi at hhi hlt ⊢
  -- the areas inside the range go
  have hc1 := kept_cut h start hi
  generalize (⟨s.areas.retain fun _ area => !(start ≤ area.start && area.stop ≤ hi)⟩ : VmAreaSet) = s1 at hc1 ⊢
  have hw1 : s1.Wf := h.mono fun e he => by
    obtain ⟨a, ha, hq, hk⟩ := (hc1 e).1 he
    exact (h.self_cut e).2 ⟨a, ha, (mem_ite_nil_left.1 hq).2, hk⟩
  -- the area over the left bound is trimmed or split
  have hc2 := unmapBefore_cut hw1 hlt
  generalize s1.unmapBefore start hi = s2 at hc2 ⊢
  have hw2 : s2.Wf := hw1.cut hc2
    (fun a hok q hq => by
      split at hq
      · exact ⟨id, below_above_pieces hok hs hhi q hq⟩
      · rw [mem_singleton.1 hq]
        exact ⟨id, hok.self⟩)
    (fun a hok q hq q' hq' => by
      split at hq
      · exact below_above_disjoint hok hs hhi hlt.le q hq q' (by rwa [if_pos ‹_›] at hq')
      · rw [if_neg ‹_›] at hq'
        exact .inl (by rw [mem_singleton.1 hq, mem_singleton.1 hq']))
  have hin : ∀ q, s2.Has q → start ≤ q.start → hi < q.stop := by
    intro q hq hle
    obtain ⟨b, hb, hqb⟩ := hc2.has_iff.1 hq
    have hb' := hc1.has_iff.1 hb
    have hok := hw1.ok hb
    split at hqb
    · rcases mem_append.1 hqb with hqb | hqb
      · obtain ⟨-, hqs, -⟩ := hok.below hs hqb
        omega
      · obtain ⟨hp, hqs, hqe⟩ := hok.above hhi hqb
        have := hp.nonempty
        omega
    · obtain rfl := mem_singleton.1 hqb
      obtain ⟨a, -, ha⟩ := hb'
      split at ha
      · cases ha
      · obtain rfl := mem_singleton.1 ha
        omega
  -- the area over the right bound is trimmed
  exact ((hc1.comp hc2).comp (unmapAfter_cut hw2 hin)).congr fun a ha q => mem_unmap_pieces (h.ok ha) hlt q

theorem Wf.unmap (h : s.Wf) {start size : Nat} (hs : pageSize4K ∣ start) (hz : pageSize4K ∣ size) :
    (s.unmap start size).Wf := by
  by_cases hsize : size = 0
  · rw [VmAreaSet.unmap, if_pos hsize]
    exact h
  have hhi : pageSize4K ∣ start + size := Nat.dvd_add hs hz
  exact h.cut (unmap_cut h hsize hs hz) (fun a hok q hq => ⟨id, below_above_pieces hok hs hhi q hq⟩)
    fun a hok => below_above_disjoint hok hs hhi (by omega)

/-- Exactly the addresses of the range are unmapped. -/
theorem Wf.unmap_view (h : s.Wf) {start size : Nat} (hs : pageSize4K ∣ start) (hz : pageSize4K ∣ size) (addr : Nat) :
    (s.unmap start size).view addr = if start ≤ addr ∧ addr < start + size then none else s.view addr := by
  by_cases hsize : size = 0
  · rw [VmAreaSet.unmap, if_pos hsize, if_neg (by omega)]
  have hhi : pageSize4K ∣ start + size := Nat.dvd_add hs hz
  have hv := h.view_cut (h.unmap hs hz) (unmap_cut h hsize hs hz) addr id (¬ (start ≤ addr ∧ addr < start + size))
    (fun a hok q hq h1 h2 => by
      have hp := below_above_pieces hok hs hhi q hq
      have hlo := hp.lo
      have hstop := hp.hi
      refine ⟨?_, by omega, hp.attr addr h1 h2⟩
      rcases mem_append.1 hq with hq | hq
      · obtain ⟨-, -, hqe⟩ := hok.below hs hq
        omega
      · obtain ⟨-, hqs, -⟩ := hok.above hhi hq
        omega)
    (fun a hok hax hk => by
      by_cases hlt : addr < start
      · obtain ⟨q, hq, hqx⟩ := exists_below hax hlt
        exact ⟨q, mem_append_left _ hq, hqx⟩
      · have hle : start + size ≤ addr := by omega
        obtain ⟨q, hq, hqx⟩ := exists_above hax hle
        exact ⟨q, mem_append_right _ hq, hqx⟩)
  rw [hv, Option.map_id, ite_not]
  rfl

end VmAreaSet
end XKernel.Vma
