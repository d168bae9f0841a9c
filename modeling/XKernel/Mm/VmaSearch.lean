import XKernel.Mm.VmaRefine
/-!
# Searching an area set

The three questions about a range walk the map from different keys, and agree with the addresses that are mapped. The
search for a free place rounds its cursor up and then looks only at the areas that start behind it: one that starts
below the cursor and ends above it is missed.
-/

namespace XKernel.Vma.VmAreaSet

open XKernel.Lib List BTreeMap

variable {s : VmAreaSet} {lo hi cursor : Nat} {l : List (Nat × VmArea)}

/-- `range(..=lo).next_back()`, if it ends after `lo`. -/
def areaOver (s : VmAreaSet) (lo : Nat) : Option VmArea :=
  ((s.areas.lastUpTo lo).map (·.2)).filter fun area => lo < area.stop

/-- `range(lo..)`. -/
def areasFrom (s : VmAreaSet) (lo : Nat) : List (Nat × VmArea) := s.areas.entries.filter fun e => lo ≤ e.1

def coverLoop (hi : Nat) : Nat → List (Nat × VmArea) → Bool
  | cursor, [] => hi ≤ cursor
  | cursor, (start, area) :: rest =>
    if hi ≤ start then hi ≤ cursor
    else if cursor < start then false
    else if hi ≤ max cursor area.stop then true
    else coverLoop hi (max cursor area.stop) rest

def isFullyCovered (s : VmAreaSet) (lo hi : Nat) : Bool :=
  if hi ≤ lo then true else coverLoop hi (((s.areaOver lo).map (·.stop)).getD lo) (s.areasFrom lo)

def collectLoop (hi : Nat) : List VmArea → List (Nat × VmArea) → List VmArea
  | overlapped, [] => overlapped
  | overlapped, (_, area) :: rest =>
    if hi ≤ area.start then overlapped
    else if overlapped.getLast?.any (·.start == area.start) then collectLoop hi overlapped rest
    else collectLoop hi (overlapped ++ [area]) rest

def collectOverlapping (s : VmAreaSet) (lo hi : Nat) : List VmArea :=
  collectLoop hi (s.areaOver lo).toList ((s.areasFrom lo).filter fun e => e.1 < hi)

/-! ## Cover -/

theorem Wf.areaOver_eq (h : s.Wf) : s.areaOver lo = s.find lo := by
  unfold areaOver find
  cases hl : s.areas.lastUpTo lo with
  | none => rfl
  | some e =>
    obtain ⟨he, hle, -⟩ := lastUpTo_some hl
    rw [← h.keyed e he] at hle
    simp [Option.filter, VmArea.contains, hle]

theorem mem_areasFrom {e : Nat × VmArea} : e ∈ s.areasFrom lo ↔ e ∈ s.areas ∧ lo ≤ e.1 := by
  rw [areasFrom, mem_filter, decide_eq_true_eq]
  rfl

theorem Wf.mem_areasFrom_iff (h : s.Wf) {e : Nat × VmArea} :
    e ∈ s.areasFrom lo ↔ ∃ b, (s.Has b ∧ lo ≤ b.start) ∧ (b.start, b) = e := by
  rw [mem_areasFrom]
  constructor
  · rintro ⟨he, hle⟩
    have hk := h.keyed e he
    exact ⟨e.2, ⟨h.has he, hk ▸ hle⟩, by rw [hk]⟩
  · rintro ⟨b, hb, rfl⟩
    exact hb

theorem areasFrom_sorted (s : VmAreaSet) (lo : Nat) :
    (s.areasFrom lo).Pairwise fun e e' => e.1 < e'.1 := s.areas.sorted.filter _

/-- Where the next area starts behind the cursor, nothing is at the cursor. -/
theorem Wf.cover_gap (h : s.Wf) (hrest : ∀ a, s.Has a → cursor < a.stop → (a.start, a) ∈ l)
    (hlt : ∀ e ∈ l, cursor < e.1) :
    (∀ addr, cursor ≤ addr → addr < hi → s.view addr ≠ none) ↔ hi ≤ cursor := by
  refine ⟨fun hv => not_lt.1 fun hhi => ?_, fun hle addr h1 h2 => by omega⟩
  exact hv _ le_rfl hhi (h.view_eq_none.2 fun a ha hax => absurd (hlt _ (hrest a ha hax.2)) (not_lt.2 hax.1))

/-- The loop sees every area that ends behind the cursor. -/
theorem Wf.coverLoop_iff (h : s.Wf) (hs : l.Pairwise fun e e' => e.1 < e'.1) (hl : ∀ e ∈ l, e ∈ s.areas)
    (hrest : ∀ a, s.Has a → cursor < a.stop → (a.start, a) ∈ l) :
    coverLoop hi cursor l = true ↔ ∀ addr, cursor ≤ addr → addr < hi → s.view addr ≠ none := by
  induction l generalizing cursor with
  | nil => rw [coverLoop, decide_eq_true_eq, h.cover_gap hrest nofun]
  | cons e l ih =>
    obtain ⟨hlt, hs'⟩ := pairwise_cons.1 hs
    obtain ⟨he, hl'⟩ := forall_mem_cons.1 hl
    rw [coverLoop]
    by_cases hcut : cursor < e.1
    · rw [h.cover_gap hrest (forall_mem_cons.2 ⟨hcut, fun e' he' => hcut.trans (hlt e' he')⟩)]
      split
      · exact decide_eq_true_iff
      · exact iff_of_false nofun (by omega)
    · -- the area covers everything up to its end
      have hskip : (∀ addr, cursor ≤ addr → addr < hi → s.view addr ≠ none) ↔
          ∀ addr, max cursor e.2.stop ≤ addr → addr < hi → s.view addr ≠ none := by
        refine ⟨fun hv addr h1 => hv addr (by omega), fun hv addr h1 h2 hn => ?_⟩
        have hk := h.keyed e he
        have := h.view_eq_none.1 hn e.2 (h.has he)
        exact hv addr (by omega) h2 hn
      split
      · exact iff_of_true (decide_eq_true (by omega)) fun addr h1 h2 => by omega
      rw [hskip]
      split
      · exact iff_of_true rfl fun addr h1 h2 => by omega
      · refine ih hs' hl' fun a ha hstop => (mem_cons.1 (hrest a ha (by omega))).resolve_left fun hae => ?_
        rw [← hae] at hstop
        exact absurd hstop (not_lt.2 (le_max_right ..))

theorem Wf.isFullyCovered_iff (h : s.Wf) :
    s.isFullyCovered lo hi = true ↔ ∀ addr, lo ≤ addr → addr < hi → s.view addr ≠ none := by
  unfold isFullyCovered
  split
  · exact iff_of_true rfl fun addr h1 h2 => by omega
  -- the loop begins behind the area around `lo`
  have hmem : ∀ e ∈ s.areasFrom lo, e ∈ s.areas := fun e he => (mem_areasFrom.1 he).1
  rw [h.areaOver_eq]
  cases hf : s.find lo with
  | none =>
    refine h.coverLoop_iff (s.areasFrom_sorted lo) hmem fun a ha hstop => mem_areasFrom.2 ⟨ha, ?_⟩
    by_contra hlt
    exact Option.some_ne_none a ((h.find_eq_some.2 ⟨ha, (not_le.1 hlt).le, hstop⟩).symm.trans hf)
  | some b =>
    obtain ⟨hb, h1, h2⟩ := h.find_eq_some.1 hf
    refine (h.coverLoop_iff (s.areasFrom_sorted lo) hmem fun a ha hstop => mem_areasFrom.2 ⟨ha, ?_⟩).trans
      ⟨fun hv addr h3 h4 hn => ?_, fun hv addr h3 => hv addr (h2.le.trans h3)⟩
    · by_contra hlt
      rw [h.unique ha hb ⟨(not_le.1 hlt).le, h2.trans hstop⟩ ⟨h1, h2⟩] at hstop
      exact lt_irrefl _ hstop
    · exact hv addr (not_lt.1 fun h5 => h.view_eq_none.1 hn b hb ⟨h1.trans h3, h5⟩) h4 hn

/-! ## Collect -/

theorem Wf.collectLoop_spec (h : s.Wf) (acc : List VmArea) (hs : l.Pairwise fun e e' => e.1 < e'.1)
    (hl : ∀ e ∈ l, e ∈ s.areas ∧ e.1 < hi) (hacc : acc.Pairwise fun a b => a.start < b.start)
    (hhas : ∀ a ∈ acc, s.Has a) (hle : ∀ a ∈ acc, ∀ e ∈ l, a.start ≤ e.1) :
    (collectLoop hi acc l).Pairwise (fun a b => a.start < b.start) ∧
      ∀ a, a ∈ collectLoop hi acc l ↔ a ∈ acc ∨ (a.start, a) ∈ l := by
  induction l generalizing acc with
  | nil => simpa [collectLoop] using hacc
  | cons e l ih =>
    obtain ⟨hlt, hs⟩ := pairwise_cons.1 hs
    obtain ⟨⟨he, hehi⟩, hl⟩ := forall_mem_cons.1 hl
    have hk := h.keyed e he
    have hmem : ∀ a, (a.start, a) = e ↔ a = e.2 := fun a => ⟨fun ha => ha ▸ rfl, fun ha => by rw [ha, hk]⟩
    rw [collectLoop, if_neg (by omega)]
    simp only [mem_cons, hmem]
    split
    · rename_i hdup
      obtain ⟨b, hlast, hb⟩ := Option.any_eq_true _ _ |>.1 hdup
      have hbacc := mem_of_getLast? hlast
      have hbe : b = e.2 := by
        have hin := hhas b hbacc
        rw [Has, beq_iff_eq.1 hb] at hin
        exact mem_unique hin (h.has he)
      obtain ⟨hp, hm⟩ := ih acc hs hl hacc hhas fun a ha e' he' => hle a ha e' (mem_cons_of_mem _ he')
      refine ⟨hp, fun a => (hm a).trans ⟨fun ha => ha.imp_right .inr, fun ha => ?_⟩⟩
      rcases ha with ha | rfl | ha
      · exact .inl ha
      · exact .inl (hbe ▸ hbacc)
      · exact .inr ha
    · rename_i hnew
      have hlt' : ∀ a ∈ acc, a.start < e.1 := fun a ha => by
        refine lt_of_le_of_ne (hle a ha e mem_cons_self) fun heq => hnew ?_
        obtain ⟨b, hb⟩ := Option.isSome_iff_exists.1 (getLast?_isSome.2 (ne_nil_of_mem ha))
        obtain ⟨acc', rfl⟩ := getLast?_eq_some_iff.1 hb
        have hbe := hle b (mem_concat_self ..) e mem_cons_self
        have hab : a.start ≤ b.start := (mem_append.1 ha).elim
          (fun ha => ((pairwise_append.1 hacc).2.2 a ha b (mem_singleton_self b)).le)
          fun ha => by rw [mem_singleton.1 ha]
        rw [hb, Option.any_some, beq_iff_eq]
        omega
      obtain ⟨hp, hm⟩ := ih (acc ++ [e.2]) hs hl
        (pairwise_append.2 ⟨hacc, pairwise_singleton ..,
          fun a ha b hb => by rw [mem_singleton.1 hb, hk]; exact hlt' a ha⟩)
        (forall_mem_append.2 ⟨hhas, forall_mem_singleton.2 (h.has he)⟩)
        (forall_mem_append.2 ⟨fun a ha e' he' => hle a ha e' (mem_cons_of_mem _ he'),
          forall_mem_singleton.2 fun e' he' => hk ▸ (hlt e' he').le⟩)
      refine ⟨hp, fun a => (hm a).trans ?_⟩
      rw [mem_append, mem_singleton, or_assoc]

theorem Wf.collectOverlapping_spec (h : s.Wf) (hlt : lo < hi) :
    (s.collectOverlapping lo hi).Pairwise (fun a b => a.start < b.start) ∧
      ∀ a, a ∈ s.collectOverlapping lo hi ↔ s.Has a ∧ a.start < hi ∧ lo < a.stop := by
  have hfind : ∀ a, a ∈ (s.areaOver lo).toList ↔ s.Has a ∧ a.start ≤ lo ∧ lo < a.stop := fun a => by
    rw [h.areaOver_eq, Option.mem_toList, h.find_eq_some]
  have hfrom : ∀ e, e ∈ (s.areasFrom lo).filter (fun e => e.1 < hi) ↔ (e ∈ s.areas ∧ lo ≤ e.1) ∧ e.1 < hi := fun e => by
    rw [mem_filter, mem_areasFrom, decide_eq_true_eq]
  obtain ⟨hp, hm⟩ := h.collectLoop_spec (s.areaOver lo).toList ((s.areasFrom_sorted lo).filter fun e => e.1 < hi)
    (fun e he => ⟨((hfrom e).1 he).1.1, ((hfrom e).1 he).2⟩) (by cases s.areaOver lo <;> simp)
      (fun a ha => ((hfind a).1 ha).1)
    fun a ha e he => ((hfind a).1 ha).2.1.trans ((hfrom e).1 he).1.2
  refine ⟨hp, fun a => (hm a).trans ?_⟩
  rw [hfind, hfrom]
  constructor
  · rintro (⟨ha, h1, h2⟩ | ⟨⟨ha, h1⟩, h2⟩)
    · exact ⟨ha, h1.trans_lt hlt, h2⟩
    · exact ⟨ha, h2, lt_of_le_of_lt h1 (h.nonempty _ ha)⟩
  · rintro ⟨ha, h1, h2⟩
    rcases le_or_gt lo a.start with h3 | h3
    · exact .inr ⟨⟨ha, h3⟩, h1⟩
    · exact .inl ⟨ha, h3.le, h2⟩

/-- The three questions about a range agree with the addresses that are mapped. -/
theorem range_queries (s : VmAreaSet) (h : s.Wf) (lo hi : Nat) :
    (s.isFullyCovered lo hi = true ↔ ∀ addr, lo ≤ addr → addr < hi → ∃ a, s.Has a ∧ a.start ≤ addr ∧ addr < a.stop) ∧
    (lo < hi → (s.overlaps lo hi = true ↔ ∃ addr, lo ≤ addr ∧ addr < hi ∧ ∃ a, s.Has a ∧ a.start ≤ addr ∧
      addr < a.stop) ∧ (s.collectOverlapping lo hi).Pairwise (fun a b => a.start < b.start) ∧
      ∀ a, a ∈ s.collectOverlapping lo hi ↔ s.Has a ∧ ∃ addr, (lo ≤ addr ∧ addr < hi) ∧ a.start ≤ addr ∧
        addr < a.stop) := by
  have hmapped : ∀ addr, s.view addr ≠ none ↔ ∃ a, s.Has a ∧ a.start ≤ addr ∧ addr < a.stop := fun addr => by
    rw [Ne, h.view_eq_none]
    push Not
    rfl
  simp only [← hmapped, h.isFullyCovered_iff, true_and]
  intro hlt
  obtain ⟨hp, hm⟩ := h.collectOverlapping_spec hlt
  refine ⟨h.overlaps_view hlt, hp, fun a => (hm a).trans (and_congr_right fun ha => ?_)⟩
  have hne := h.nonempty _ ha
  exact ⟨fun ⟨h1, h2⟩ => ⟨max lo a.start, by simp only at hne; omega, by simp only at hne; omega⟩,
    fun ⟨addr, h1, h2⟩ => by omega⟩

theorem range_queries_sample : sampleSet.isFullyCovered 0x1000 0x4000 = true ∧
    sampleNext ∈ sampleSet.collectOverlapping 0x2000 0x4000 := by
  refine ⟨(range_queries sampleSet sampleSet_wf 0x1000 0x4000).1.2 fun addr hlo hhi => ?_,
    (((range_queries sampleSet sampleSet_wf 0x2000 0x4000).2 (by decide)).2.2 sampleNext).2
      ⟨has_sampleSet.2 (.inr rfl), 0x3000, by decide⟩⟩
  rcases lt_or_ge addr 0x3000 with h | h
  · exact ⟨sampleArea, has_sampleSet.2 (.inl rfl), hlo, h⟩
  · exact ⟨sampleNext, has_sampleSet.2 (.inr rfl), h, hhi⟩

/-! ## A free place -/

/-- `ceil_align`; `none` is its panic. For a power of two `& !mask` is the division. -/
def ceilAlign (addr align : Nat) : Option Nat :=
  if align ≠ 0 ∧ align &&& (align - 1) = 0 ∧ addr + (align - 1) < 2 ^ 64 then
    some ((addr + (align - 1)) / align * align)
  else none

/-- The cursor with which `find_free_area` begins its loop. -/
def startCursor (s : VmAreaSet) (hint lo align : Nat) : Option Nat :=
  (ceilAlign (max hint lo) align).bind fun lastEnd =>
    match s.areas.lastBelow lastEnd with
    | some (_, area) => ceilAlign (max lastEnd area.stop) align
    | none => some lastEnd

def freeLoop (size align hi : Nat) : Nat → List (Nat × VmArea) → Option (Option Nat)
  | lastEnd, [] => some (if lastEnd + size < 2 ^ 64 ∧ lastEnd + size ≤ hi then some lastEnd else none)
  | lastEnd, (addr, area) :: rest =>
    if lastEnd + size < 2 ^ 64 ∧ lastEnd + size ≤ addr then some (some lastEnd)
    else (ceilAlign area.stop align).bind fun lastEnd => freeLoop size align hi lastEnd rest

/-- The limit is `[lo, hi)`; the outer `none` is a panic. -/
def findFreeArea (s : VmAreaSet) (hint size lo hi align : Nat) : Option (Option Nat) :=
  if ¬ align ∣ size then some none
  else (s.startCursor hint lo align).bind fun lastEnd => freeLoop size align hi lastEnd (s.areasFrom lastEnd)

def Free (s : VmAreaSet) (a size : Nat) : Prop := ∀ b, s.Has b → a + size ≤ b.start ∨ b.stop ≤ a

/-- What `find_free_area` looks for. -/
def Fits (s : VmAreaSet) (size lo hi align a : Nat) : Prop := align ∣ a ∧ lo ≤ a ∧ a + size ≤ hi ∧ s.Free a size

/-- The loop takes `a`: the range ends before the next area, or, where none starts behind `a`, in the limit. -/
def Room (s : VmAreaSet) (size hi a : Nat) : Prop :=
  a + size < 2 ^ 64 ∧ (∀ b, s.Has b → a ≤ b.start → a + size ≤ b.start) ∧ ((∃ b, s.Has b ∧ a ≤ b.start) ∨ a + size ≤ hi)

section

variable {hint size align addr a c : Nat} {r : Option Nat}

theorem ceilAlign_spec (h : ceilAlign addr align = some c) :
    align ∣ c ∧ addr ≤ c ∧ ∀ a, align ∣ a → addr ≤ a → c ≤ a := by
  obtain ⟨⟨hne, -⟩, hc⟩ := Option.ite_none_right_eq_some.1 h
  cases hc
  refine ⟨Nat.dvd_mul_left .., ?_, ?_⟩
  · have := Nat.lt_div_mul_add (a := addr + (align - 1)) (Nat.pos_of_ne_zero hne)
    omega
  · rintro _ ⟨k, rfl⟩ hk
    rw [Nat.mul_comm]
    refine Nat.mul_le_mul_left _ (Nat.le_of_lt_succ (Nat.div_lt_of_lt_mul ?_))
    rw [Nat.mul_succ]
    omega

theorem Wf.startCursor_spec (h : s.Wf) (size : Nat) (hc : s.startCursor hint lo align = some c) :
    align ∣ c ∧ max hint lo ≤ c ∧ ∀ a, max hint lo ≤ a → align ∣ a → s.Free a size → c ≤ a := by
  obtain ⟨c', hc', hc⟩ := Option.bind_eq_some_iff.1 hc
  obtain ⟨hdvd, hle, hmin⟩ := ceilAlign_spec hc'
  cases hl : s.areas.lastBelow c' with
  | none =>
    rw [hl] at hc
    cases hc
    exact ⟨hdvd, hle, fun a ha hda _ => hmin a hda ha⟩
  | some e =>
    rw [hl] at hc
    obtain ⟨hdvd, hle', hmin'⟩ := ceilAlign_spec hc
    refine ⟨hdvd, by omega, fun a ha hda hf => hmin' a hda ?_⟩
    obtain ⟨he, hlt, -⟩ := lastBelow_some hl
    have hk := h.keyed e he
    have ha' := hmin a hda ha
    have hfree := hf e.2 (h.has he)
    omega

/-- What the loop returns, for areas one behind the other. -/
theorem freeLoop_spec (hs : l.Pairwise fun e e' => e.2.stop ≤ e'.1) (hl : ∀ e ∈ l, e.1 ≤ e.2.stop)
    (hdvd : align ∣ cursor) (hr : freeLoop size align hi cursor l = some (some a)) :
    align ∣ a ∧ (a = cursor ∨ ∃ e ∈ l, e.2.stop ≤ a) ∧ a + size < 2 ^ 64 ∧
      (∀ e ∈ l, a + size ≤ e.1 ∨ e.2.stop ≤ a) ∧ ((∃ e ∈ l, a + size ≤ e.1) ∨ a + size ≤ hi) := by
  induction l generalizing cursor with
  | nil =>
    obtain ⟨hroom, hr⟩ := Option.ite_none_right_eq_some.1 (Option.some.inj hr)
    cases hr
    exact ⟨hdvd, .inl rfl, hroom.1, nofun, .inr hroom.2⟩
  | cons e l ih =>
    obtain ⟨hlt, hs⟩ := pairwise_cons.1 hs
    obtain ⟨he, hl⟩ := forall_mem_cons.1 hl
    rw [freeLoop] at hr
    split at hr
    · rename_i hroom
      cases hr
      exact ⟨hdvd, .inl rfl, hroom.1, forall_mem_cons.2 ⟨.inl hroom.2, fun e' he' =>
        .inl (hroom.2.trans (he.trans (hlt e' he')))⟩, .inl ⟨e, mem_cons_self, hroom.2⟩⟩
    · obtain ⟨c, hc, hr⟩ := Option.bind_eq_some_iff.1 hr
      obtain ⟨hdvd, hle, -⟩ := ceilAlign_spec hc
      obtain ⟨hda, hat, hmax, hall, hend⟩ := ih hs hl hdvd hr
      have hea : e.2.stop ≤ a := by
        rcases hat with rfl | ⟨e', he', hle'⟩
        · exact hle
        · exact (hlt e' he').trans ((hl e' he').trans hle')
      exact ⟨hda, .inr ⟨e, mem_cons_self, hea⟩, hmax, forall_mem_cons.2 ⟨.inr hea, hall⟩,
        hend.imp_left exists_mem_cons_of_exists⟩

theorem freeLoop_first (hl : ∀ e ∈ l, a + size ≤ e.1 ∨ e.2.stop ≤ a) (hdvd : align ∣ a) (hle : cursor ≤ a)
    (hmax : a + size < 2 ^ 64) (hhi : (∃ e ∈ l, a + size ≤ e.1) ∨ a + size ≤ hi)
    (hr : freeLoop size align hi cursor l = some r) : ∃ a', r = some a' ∧ a' ≤ a := by
  induction l generalizing cursor with
  | nil =>
    have hhi := hhi.resolve_left fun ⟨_, he, _⟩ => not_mem_nil he
    rw [freeLoop, if_pos (by omega)] at hr
    cases hr
    exact ⟨_, rfl, hle⟩
  | cons e l ih =>
    obtain ⟨he, hl⟩ := forall_mem_cons.1 hl
    rw [freeLoop] at hr
    split at hr
    · cases hr
      exact ⟨_, rfl, hle⟩
    · -- the range does not end before this area, so it begins behind it
      rename_i hroom
      obtain ⟨c, hc, hr⟩ := Option.bind_eq_some_iff.1 hr
      refine ih hl ((ceilAlign_spec hc).2.2 a hdvd (he.resolve_left fun hend => ?_)) (hhi.imp_left ?_) hr
      · omega
      · rintro ⟨e', he', hend⟩
        rcases mem_cons.1 he' with rfl | he'
        · omega
        · exact ⟨e', he', hend⟩

theorem Wf.found_first (h : s.Wf) (hdvd : align ∣ a) (hle : c ≤ a)
    (hf : ∀ b, s.Has b → c ≤ b.start → a + size ≤ b.start ∨ b.stop ≤ a) (hroom : s.Room size hi a)
    (hr : freeLoop size align hi c (s.areasFrom c) = some r) : ∃ a', r = some a' ∧ a' ≤ a := by
  refine freeLoop_first (fun e he => ?_) hdvd hle hroom.1 (hroom.2.2.imp_left ?_) hr
  · obtain ⟨b, ⟨hb, hcb⟩, rfl⟩ := h.mem_areasFrom_iff.1 he
    exact hf b hb hcb
  · rintro ⟨b, hb, hab⟩
    exact ⟨_, mem_areasFrom.2 ⟨hb, hle.trans hab⟩, hroom.2.1 b hb hab⟩

/-- The place that is found has room, and is free but for an area around the first cursor. -/
theorem Wf.found_spec (h : s.Wf) (hdvd : align ∣ c) (hr : freeLoop size align hi c (s.areasFrom c) = some (some a)) :
    align ∣ a ∧ c ≤ a ∧ s.Room size hi a ∧ ∀ b, s.Has b → a + size ≤ b.start ∨ b.stop ≤ a ∨ a = c ∧ b.start < c := by
  have hne : ∀ b, s.Has b → b.start < b.stop := fun b hb => h.nonempty _ hb
  have hs := (s.areasFrom_sorted c).imp_of_mem fun he he' => h.stop_le (mem_areasFrom.1 he).1 (mem_areasFrom.1 he').1
  have hle : ∀ e ∈ s.areasFrom c, e.1 ≤ e.2.stop := by
    intro e he
    obtain ⟨b, ⟨hb, -⟩, rfl⟩ := h.mem_areasFrom_iff.1 he
    exact (hne b hb).le
  obtain ⟨hda, hat, hmax, hall, hend⟩ := freeLoop_spec hs hle hdvd hr
  simp only [h.mem_areasFrom_iff, exists_exists_and_eq_and] at hat hend
  have hca : c ≤ a := by
    rcases hat with rfl | ⟨b, ⟨hb, hcb⟩, hle⟩
    · exact le_rfl
    · exact hcb.trans ((hne b hb).le.trans hle)
  refine ⟨hda, hca, ⟨hmax, fun b hb hab => ?_, hend.imp_left ?_⟩, fun b hb => ?_⟩
  · exact (hall _ (mem_areasFrom.2 ⟨hb, hca.trans hab⟩)).resolve_right fun hba => absurd (hne b hb)
      (not_lt.2 (hba.trans hab))
  · rintro ⟨b, ⟨hb, -⟩, hle⟩
    exact ⟨b, hb, by omega⟩
  · rcases le_or_gt c b.start with hcb | hcb
    · exact (hall _ (mem_areasFrom.2 ⟨hb, hcb⟩)).imp_right .inl
    · rcases hat with hat | ⟨b', ⟨hb', hcb'⟩, hle⟩
      · exact .inr (.inr ⟨hat, hcb⟩)
      · have := h.stop_le hb hb' (hcb.trans_le hcb')
        exact .inr (.inl (this.trans ((hne b' hb').le.trans hle)))

end

/-- The search is right exactly where its first cursor is in no area unless there is no room at it, and where some place
is in the limit if a free one has room. -/
theorem findFreeArea_right_iff (s : VmAreaSet) (h : s.Wf) (hint size lo hi align : Nat) (hsize : 0 < size)
    (hdvd : align ∣ size) (hmax : hi < 2 ^ 64) (r : Option Nat) (hr : s.findFreeArea hint size lo hi align = some r) :
    ((∀ a, r = some a → s.Fits size lo hi align a) ∧ (r = none → ¬ ∃ a, max hint lo ≤ a ∧ s.Fits size lo hi align a)) ↔
    (∀ c b, s.startCursor hint lo align = some c → s.Has b → b.start < c → c < b.stop → ¬ s.Room size hi c) ∧
    ∀ a, max hint lo ≤ a → align ∣ a → s.Free a size → s.Room size hi a → ∃ a', max hint lo ≤ a' ∧
      s.Fits size lo hi align a' := by
  rw [findFreeArea, if_neg (not_not.2 hdvd)] at hr
  obtain ⟨c, hc, hr⟩ := Option.bind_eq_some_iff.1 hr
  obtain ⟨hcdvd, hcle, hcmin⟩ := h.startCursor_spec size hc
  have hfound : ∀ a, r = some a → _ := fun a ha => h.found_spec hcdvd (ha ▸ hr)
  have hfirst : ∀ a, max hint lo ≤ a → align ∣ a → s.Free a size → s.Room size hi a → ∃ a', r = some a' ∧ a' ≤ a :=
    fun a ha hda hf hra => h.found_first hda (hcmin a ha hda hf) (fun b hb _ => hf b hb) hra hr
  have hplace : ∀ a, s.Fits size lo hi align a → s.Room size hi a := by
    rintro a ⟨-, -, hahi, hf⟩
    refine ⟨by omega, fun b hb hle => ?_, .inr hahi⟩
    have hfb := hf b hb
    have hne : b.start < b.stop := h.nonempty _ hb
    omega
  constructor
  · rintro ⟨hsound, -⟩
    refine ⟨fun c' b hc' hb hbc hcb hrc => ?_, fun a ha hda hf hra => ?_⟩
    · cases hc.symm.trans hc'
      obtain ⟨a, ha, hle⟩ := h.found_first hcdvd le_rfl (fun b hb hcb => .inl (hrc.2.1 b hb hcb)) hrc hr
      have hca := (hfound a ha).2.1
      have hf := (hsound a ha).2.2.2 b hb
      omega
    · obtain ⟨a', ha', -⟩ := hfirst a ha hda hf hra
      exact ⟨a', hcle.trans (hfound a' ha').2.1, hsound a' ha'⟩
  · rintro ⟨hcut, hlimit⟩
    refine ⟨fun a ha => ?_, ?_⟩
    · obtain ⟨hda, hca, hra, hall⟩ := hfound a ha
      have hf : s.Free a size := by
        intro b hb
        rcases hall b hb with hb' | hb' | ⟨rfl, hbc⟩
        · exact .inl hb'
        · exact .inr hb'
        · exact .inr (not_lt.1 fun hlt => hcut a b hc hb hbc hlt hra)
      -- the place in the limit is behind the one that is found
      obtain ⟨a', hle', hf'⟩ := hlimit a (hcle.trans hca) hda hf hra
      obtain ⟨a'', ha'', hfirst⟩ := hfirst a' hle' hf'.1 hf'.2.2.2 (hplace a' hf')
      cases ha.symm.trans ha''
      have := hf'.2.2.1
      exact ⟨hda, by omega, by omega, hf⟩
    · rintro hn ⟨a, ha, hf⟩
      obtain ⟨a', ha', -⟩ := hfirst a ha hf.1 hf.2.2.2 (hplace a hf)
      rw [hn] at ha'
      cases ha'

theorem findFreeArea_right_iff_sample : sampleSet.findFreeArea 0x1000 0x1000 0x1000 0x8000 0x1000 = some (some 0x4000) ∧
    sampleSet.Fits 0x1000 0x1000 0x8000 0x1000 0x4000 := by
  have hr : sampleSet.findFreeArea 0x1000 0x1000 0x1000 0x8000 0x1000 = some (some 0x4000) := by decide
  have hc : sampleSet.startCursor 0x1000 0x1000 0x1000 = some 0x1000 := by decide
  refine ⟨hr, ((findFreeArea_right_iff sampleSet sampleSet_wf 0x1000 0x1000 0x1000 0x8000 0x1000 (by decide) (by decide)
    (by decide) _ hr).2 ⟨fun c b hc' hb hbc => ?_, fun _ _ _ _ _ => ?_⟩).1 _ rfl⟩
  · -- no area starts before the first cursor
    cases hc.symm.trans hc'
    rcases has_sampleSet.1 hb with rfl | rfl <;> exact absurd hbc (by decide)
  · refine ⟨0x4000, by decide, by decide, by decide, by decide, fun b hb => ?_⟩
    rcases has_sampleSet.1 hb with rfl | rfl <;> decide

/-- Two areas side by side; the first ends a page behind the hint. -/
def sampleSides : VmAreaSet :=
  ((VmAreaSet.tryInsert ⟨empty⟩ (VmArea.new 0x1ff000 0x2000 ⟨3⟩ ⟨7⟩ ⟨.linear, .size4K⟩ 0 none)).2.tryInsert
    (VmArea.new 0x201000 0x3ff000 ⟨3⟩ ⟨7⟩ ⟨.linear, .size4K⟩ 0 none)).2

/-- The search rounds the end of the first area up, into the second one. Before an area behind the limit it returns a
range that ends behind the limit. -/
theorem findFreeArea_inside : sampleSides.Wf ∧
    sampleSides.findFreeArea 0x200000 0x200000 0x1000 0x40000000 0x200000 = some (some 0x400000) ∧
    (sampleSides.find 0x400000).isSome = true ∧
    sampleSides.findFreeArea 0x1000 0x150000 0x1000 0x100000 0x1000 = some (some 0x1000) :=
  ⟨(wf_empty.tryInsert ⟨by decide, by decide, by decide⟩).tryInsert ⟨by decide, by decide, by decide⟩, by decide,
    by decide, by decide⟩

end XKernel.Vma.VmAreaSet
