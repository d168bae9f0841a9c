import XKernel.Mm.BuddyRegion
/-!
# What the region operations take and give

Splitting a chunk towards a target leaves exactly the target outside the free
chunks, and merging a block with its free buddies adds exactly the block. The
chunking loop of `add_region` covers the heap with chunks none of which could
have been larger, so none has its buddy beside it.
-/

namespace XKernel.Buddy.Region

open XKernel.Lib XKernel.Lib.Dyadic Function List Option

variable {p : Nat} {r r' : Region}

theorem Hole.of_disjoint {k a : Nat} (hd : 2 ^ k ∣ a) (hlo : r.heapStart ≤ a) (hhi : a + 2 ^ k ≤ r.heapEnd (2 ^ p))
    (hdis : ∀ x ∈ r.free p, x ∉ span k a) : r.Hole p k a where
  dvd := hd
  lo := hlo
  hi := hhi
  apart b hb := by
    have hpos' := Nat.two_pow_pos b.1
    by_contra hc
    refine hdis (max a b.2) ⟨b, hb, ?_⟩ ?_ <;> simp only [mem_span] <;> omega

theorem Hole.disjoint {k a : Nat} (h : r.Hole p k a) {x : Nat} (hx : x ∈ r.free p) : x ∉ span k a := by
  obtain ⟨b, hb, hxb⟩ := hx
  intro hxa
  have := h.apart b hb
  simp only [mem_span] at hxa hxb
  omega

/-- A hole stays one while the free chunks change outside it. -/
theorem Hole.of_free {k j a b : Nat} (h : r.Hole p k a) (hs : r.SameHeap r') (hd : 2 ^ j ∣ b) (hlo : a ≤ b)
    (hhi : b + 2 ^ j ≤ a + 2 ^ k) (hf : ∀ x ∈ r'.free p, x ∈ r.free p ∨ x ∉ span j b) : r'.Hole p j b := by
  have hend := h.hi
  have hstart := h.lo
  refine .of_disjoint hd (by rw [hs.start]; omega) (by rw [hs.heapEnd]; omega) fun x hx hxb => ?_
  rcases hf x hx with hx' | hx'
  · refine h.disjoint hx' ?_
    simp only [mem_span] at hxb ⊢
    omega
  · exact hx' hxb

/-- `r'` is `r` with other free pages: `F`. -/
structure Becomes (p : Nat) (r r' : Region) (F : Set Nat) : Prop where
  wf : r'.Wf p
  heap : r.SameHeap r'
  merged : r.Merged p → r'.Merged p
  free : r'.free p = F

theorem Becomes.trans {r1 r2 r3 : Region} {F G : Set Nat} (h : Becomes p r1 r2 F) (h' : Becomes p r2 r3 G) :
    Becomes p r1 r3 G :=
  ⟨h'.wf, h.heap.trans h'.heap, fun hm => h'.merged (h.merged hm), h'.free⟩

theorem Becomes.congr {F G : Set Nat} (h : Becomes p r r' F) (he : F = G) : Becomes p r r' G := he ▸ h

variable {addr : Nat}

theorem Wf.becomes_remove (h : r.Wf p) {i : Nat} (hi : i ≤ maxOrder) (hm : addr ∈ r.freeLists i) :
    Becomes p r (r.removeFree (2 ^ p) addr i) (r.free p \ span (i + p) addr) :=
  ⟨h.remove hi hm, ⟨rfl, rfl, rfl⟩, fun hc => hc.remove hi h addr, h.remove_free hi hm⟩

theorem Wf.becomes_push (h : r.Wf p) {i : Nat} (hi : i ≤ maxOrder) (hh : r.Hole p (i + p) addr)
    (hb : i < maxOrder → buddy (i + p) addr ∉ r.freeLists i) :
    Becomes p r (r.pushFree (2 ^ p) addr i) (r.free p ∪ span (i + p) addr) :=
  ⟨h.push hi hh, pushFree_sameHeap _ _ _, fun hc => hc.push hi hb, push_free hi⟩

theorem write_becomes (h : r.Wf p) {value : Nat} (hn : addr ∉ r.free p) :
    Becomes p r { r with header := update r.header addr value } (r.free p) := by
  refine ⟨⟨h.heap_dvd, h.packing, h.inside, h.nodup, fun i hi a ha => ?_, h.bitmap, h.count⟩, ⟨rfl, rfl, rfl⟩, id, rfl⟩
  have hpos := Nat.two_pow_pos (i + p)
  have hne : a ≠ addr := by
    rintro rfl
    exact hn ⟨_, mem_family.2 ⟨hi, ha⟩, by simp only [mem_span]; omega⟩
  show update r.header addr value a = i
  rw [update_of_ne hne]
  exact h.header i hi a ha

/-! ## Splitting -/

theorem union_union_diff {F A B T : Set Nat} (h : ∀ x ∈ A, x ∉ T) : F ∪ A ∪ B \ T = F ∪ (A ∪ B) \ T := by
  rw [Set.union_sdiff_distrib, Set.union_assoc, (Set.disjoint_left.2 h).sdiff_eq_left]

/-- An address in a hole heads no chunk. -/
theorem Hole.not_linked {k a b i : Nat} (h : r.Hole p k a) (hi : i ≤ maxOrder) (hb : b ∈ span k a) :
    b ∉ r.freeLists i := by
  intro hm
  refine h.disjoint ⟨(i + p, b), mem_family.2 ⟨hi, hm⟩, ?_⟩ hb
  have := Nat.two_pow_pos (i + p)
  simp only [mem_span]
  omega

variable {order : Nat}

/-- Splitting a hole towards a target inside it frees the hole except the target. -/
theorem splitTowards_becomes {target : Nat} (hd : 2 ^ (order + p) ∣ target) :
    ∀ (src addr : Nat) (r : Region), src ≤ maxOrder → order ≤ src → r.Wf p → r.Hole p (src + p) addr →
      addr ≤ target → target + 2 ^ (order + p) ≤ addr + 2 ^ (src + p) →
      Becomes p r (splitTowards (2 ^ p) target order src addr r)
        (r.free p ∪ (span (src + p) addr \ span (order + p) target)) := by
  -- the whole chunk is the target: nothing is pushed
  have whole : ∀ (src addr : Nat) (r : Region), order = src → r.Wf p → addr ≤ target →
      target + 2 ^ (order + p) ≤ addr + 2 ^ (src + p) →
      Becomes p r r (r.free p ∪ (span (src + p) addr \ span (order + p) target)) := by
    intro src addr r ho hw hlo hhi
    subst ho
    obtain rfl : addr = target := by omega
    exact ⟨hw, .refl r, id, by simp⟩
  intro src
  induction src with
  | zero =>
    intro addr r _ ho hw _ hlo hhi
    exact whole 0 addr r (Nat.le_zero.1 ho) hw hlo hhi
  | succ src ih =>
    intro addr r hs ho hw hh hlo hhi
    simp only [splitTowards, orderSize_two_pow]
    have e : src + 1 + p = src + p + 1 := by omega
    have hpow : 2 ^ (src + 1 + p) = 2 ^ (src + p) + 2 ^ (src + p) := by rw [e, pow_succ]; omega
    by_cases hlt : order < src + 1
    · rw [if_pos hlt]
      rw [e] at hh
      have hda := dvd_half hh.dvd
      have hdr := dvd_add_half hh.dvd
      have hl : r.Hole p (src + p) addr :=
        hh.of_free (.refl r) hda le_rfl (by omega) fun x hx => .inl hx
      have hr : r.Hole p (src + p) (addr + 2 ^ (src + p)) :=
        hh.of_free (.refl r) hdr (by omega) (by omega) fun x hx => .inl hx
      by_cases hright : addr + 2 ^ (src + p) ≤ target
      · rw [if_pos hright]
        have hp := hw.becomes_push (by omega) hl fun _ => by
          rw [buddy_left hh.dvd]
          exact hr.not_linked (by omega) (by simp)
        refine (hp.trans (ih _ _ (by omega) (by omega) hp.wf ?_ hright (by omega))).congr ?_
        · exact hr.of_free hp.heap hdr le_rfl le_rfl fun x hx => by
            rw [hp.free] at hx
            refine hx.imp_right fun hx hx' => ?_
            simp only [mem_span] at hx hx'
            omega
        · rw [hp.free, e, span_succ]
          refine union_union_diff fun x hx hx' => ?_
          simp only [mem_span] at hx hx'
          omega
      · rw [if_neg hright]
        have hin : target + 2 ^ (order + p) ≤ addr + 2 ^ (src + p) := by
          have := nested_or_apart hd hda (show order + p ≤ src + p by omega)
          omega
        have hp := hw.becomes_push (by omega) hr fun _ => by
          rw [buddy_right hh.dvd]
          exact hl.not_linked (by omega) (by simp)
        refine (hp.trans (ih _ _ (by omega) (by omega) hp.wf ?_ hlo hin)).congr ?_
        · exact hl.of_free hp.heap hda le_rfl le_rfl fun x hx => by
            rw [hp.free] at hx
            refine hx.imp_right fun hx hx' => ?_
            simp only [mem_span] at hx hx'
            omega
        · rw [hp.free, e, span_succ, Set.union_comm (span (src + p) addr)]
          refine union_union_diff fun x hx hx' => ?_
          simp only [mem_span] at hx hx'
          omega
    · rw [if_neg hlt]
      exact whole (src + 1) addr r (by omega) hw hlo hhi

/-! ## Allocation -/

/-- `r'` is `r` without the free block of `2 ^ order` pages at `addr`. -/
structure Takes (p order addr : Nat) (r r' : Region) : Prop where
  becomes : Becomes p r r' (r.free p \ span (order + p) addr)
  dvd : 2 ^ (order + p) ∣ addr
  sub : span (order + p) addr ⊆ r.free p

/-- A chunk is unlinked and split towards a block inside it. -/
theorem Wf.takes (h : r.Wf p) {src target : Nat} (hs : src ≤ maxOrder) (ho : order ≤ src)
    (hm : addr ∈ r.freeLists src) (hd : 2 ^ (order + p) ∣ target) (hlo : addr ≤ target)
    (hhi : target + 2 ^ (order + p) ≤ addr + 2 ^ (src + p)) :
    Takes p order target r (splitTowards (2 ^ p) target order src addr (r.removeFree (2 ^ p) addr src)) := by
  have hr := h.becomes_remove hs hm
  have hchunk : span (src + p) addr ⊆ r.free p := fun x hx => ⟨_, mem_family.2 ⟨hs, hm⟩, hx⟩
  have hsub : span (order + p) target ⊆ span (src + p) addr := fun x hx => by
    simp only [mem_span] at hx ⊢
    omega
  refine ⟨(hr.trans (splitTowards_becomes hd src addr _ hs ho hr.wf (h.remove_hole hs hm) hlo hhi)).congr ?_,
    hd, hsub.trans hchunk⟩
  rw [hr.free, Set.sdiff_union_sdiff_cancel hchunk hsub]

theorem popFree_cons {ps : Nat} {rest : List Nat} (h : r.freeLists order = addr :: rest) :
    r.popFree ps order = some (addr, r.removeFree ps addr order) := by
  simp only [popFree, removeFree, h, erase_cons_head]

theorem allocOrder_takes (h : r.Wf p) (ho : order ≤ maxOrder)
    (ha : r.allocOrder (2 ^ p) order = some (addr, r')) : Takes p order addr r r' := by
  simp only [allocOrder, bind_eq_bind, bind_eq_some_iff, Prod.exists] at ha
  obtain ⟨src, hsrc, addr', r1, hpop, he⟩ := ha
  have hs := (mem_orders ho).1 (mem_of_find?_eq_some hsrc)
  cases hl : r.freeLists src with
  | nil => simp [popFree, hl] at hpop
  | cons a =>
    rw [popFree_cons hl] at hpop
    simp only [some.injEq, Prod.mk.injEq] at hpop he
    obtain ⟨rfl, rfl⟩ := hpop
    obtain ⟨rfl, rfl⟩ := he
    have hm : a ∈ r.freeLists src := by rw [hl]; exact mem_cons_self
    have hle : order + p ≤ src + p := by omega
    exact h.takes hs.2 hs.1 hm ((pow_dvd_pow 2 hle).trans (h.dvd hs.2 hm)) le_rfl
      (Nat.add_le_add_left (Nat.pow_le_pow_right (by decide) hle) _)

theorem allocAt_takes (h : r.Wf p) {target : Nat} (ho : order ≤ maxOrder)
    (ha : r.allocAt (2 ^ p) target order = some (addr, r')) : addr = target ∧ Takes p order addr r r' := by
  simp only [allocAt, orderSize_two_pow] at ha
  split at ha
  · cases ha
  rename_i hc
  simp only [Bool.or_eq_true, not_or, bne_iff_ne, Decidable.not_not] at hc
  obtain ⟨src, hsrc, ha⟩ := exists_of_findSome?_eq_some ha
  have hs := (mem_orders ho).1 hsrc
  have hle : order + p ≤ src + p := by omega
  split at ha
  · rename_i hf
    simp only [some.injEq, Prod.mk.injEq] at ha
    obtain ⟨rfl, rfl⟩ := ha
    have hd : 2 ^ (order + p) ∣ target := Nat.dvd_of_mod_eq_zero hc.2
    have hin := nested hd (Nat.dvd_sub_mod target) hle (x := target)
      (by simp only [mem_span]; omega) (by simp only [mem_span]; omega)
    exact ⟨rfl, h.takes hs.2 hs.1 ((h.isFree_iff hs.2).1 hf) hd hin.1 hin.2⟩
  · cases ha

theorem allocAligned_takes (h : r.Wf p) {alignPages : Nat} (ho : order ≤ maxOrder)
    (ha : r.allocAligned (2 ^ p) order alignPages = some (addr, r')) : Takes p order addr r r' := by
  unfold allocAligned at ha
  split at ha
  · exact allocOrder_takes h ho ha
  obtain ⟨src, hsrc, ha⟩ := exists_of_findSome?_eq_some ha
  simp only [bind_eq_bind, bind_eq_some_iff] at ha
  obtain ⟨a, hfind, rfl, rfl⟩ := ha
  have hs := (mem_orders ho).1 hsrc
  have hm := mem_of_find?_eq_some hfind
  have hle : order + p ≤ src + p := by omega
  exact h.takes hs.2 hs.1 hm ((pow_dvd_pow 2 hle).trans (h.dvd hs.2 hm)) le_rfl
    (Nat.add_le_add_left (Nat.pow_le_pow_right (by decide) hle) _)

/-- The aligned search fails exactly when no chunk that is large enough starts at a multiple of the alignment. -/
theorem allocAligned_eq_none (h : r.Wf p) {q : Nat} (ho : order ≤ maxOrder) :
    r.allocAligned (2 ^ p) order (2 ^ q) = none ↔
      ∀ i, order ≤ i → i ≤ maxOrder → ∀ a ∈ r.freeLists i, ¬ 2 ^ (max order q + p) ∣ a := by
  unfold allocAligned
  split
  · rename_i hq
    have hq' : max order q = order := max_eq_left ((Nat.pow_le_pow_iff_right (by decide)).1 hq)
    have hdiv : ∀ i, order ≤ i → i ≤ maxOrder → ∀ a ∈ r.freeLists i, 2 ^ (order + p) ∣ a := fun i h1 h2 a ha =>
      (pow_dvd_pow 2 (by omega)).trans (h.dvd h2 ha)
    rw [hq']
    constructor
    · intro hn i h1 h2 a ha
      have hne : r.freeLists i ≠ [] := ne_nil_of_mem ha
      cases hsrc : (orders order).find? fun i => !(r.freeLists i).isEmpty with
      | none =>
        have := find?_eq_none.1 hsrc i ((mem_orders ho).2 ⟨h1, h2⟩)
        simp [hne] at this
      | some src =>
        have hs := find?_some hsrc
        obtain ⟨b, rest, hl⟩ := exists_cons_of_ne_nil (by simpa using hs)
        simp [allocOrder, hsrc, popFree_cons hl] at hn
    · intro hall
      cases hres : r.allocOrder (2 ^ p) order with
      | none => rfl
      | some =>
        simp only [allocOrder, bind_eq_bind, bind_eq_some_iff] at hres
        obtain ⟨src, hsrc, -⟩ := hres
        have hs := (mem_orders ho).1 (mem_of_find?_eq_some hsrc)
        obtain ⟨b, rest, hl⟩ := exists_cons_of_ne_nil
          (by simpa using find?_some hsrc)
        have hm : b ∈ r.freeLists src := by rw [hl]; exact mem_cons_self
        exact absurd (hdiv src hs.1 hs.2 b hm) (hall src hs.1 hs.2 b hm)
  · rename_i hq
    have hq' : max order q = q := max_eq_right (by
      by_contra hlt
      exact hq (Nat.pow_le_pow_right (by decide) (by omega)))
    rw [hq', findSome?_eq_none_iff]
    simp only [bind_eq_bind, bind_eq_none_iff, reduceCtorEq, ← pow_add]
    constructor
    · intro hn i h1 h2 a ha hd
      have hf : ((r.freeLists i).find? fun addr => addr % 2 ^ (q + p) == 0).isSome := by
        rw [find?_isSome]
        exact ⟨a, ha, by simpa using Nat.mod_eq_zero_of_dvd hd⟩
      obtain ⟨b, hb⟩ := isSome_iff_exists.1 hf
      exact hn i ((mem_orders ho).2 ⟨h1, h2⟩) b hb
    · intro hall i hi a ha
      have hs := (mem_orders ho).1 hi
      exact hall i hs.1 hs.2 a (mem_of_find?_eq_some ha)
        (Nat.dvd_of_mod_eq_zero (by simpa using find?_some ha))

/-! ## Deallocation -/

theorem coalesce_spec (n : Nat) : ∀ (r : Region) (addr order : Nat), order + n = maxOrder → r.Wf p →
    r.Hole p (order + p) addr → ∃ r' addr' order', coalesce (2 ^ p) n r addr order = (r', addr', order') ∧
      order' ≤ maxOrder ∧ r'.Hole p (order' + p) addr' ∧
      (order' < maxOrder → buddy (order' + p) addr' ∉ r'.freeLists order') ∧
      ∃ F, Becomes p r r' F ∧ F ∪ span (order' + p) addr' = r.free p ∪ span (order + p) addr := by
  induction n with
  | zero =>
    intro r addr order ho hw hh
    exact ⟨r, addr, order, rfl, by omega, hh, fun hlt => by omega, _, ⟨hw, .refl r, id, rfl⟩, rfl⟩
  | succ n ih =>
    intro r addr order ho hw hh
    have hle : order ≤ maxOrder := by omega
    have hbud : addr ^^^ orderSize (2 ^ p) order = buddy (order + p) addr := by rw [orderSize_two_pow]; rfl
    simp only [coalesce, hbud]
    by_cases hf : r.isFree (2 ^ p) (buddy (order + p) addr) order = true
    · rw [if_pos hf]
      have hm := (hw.isFree_iff hle).1 hf
      have hr := hw.becomes_remove hle hm
      have hb := hw.remove_hole hle hm
      obtain ⟨hd, hspan⟩ := min_buddy hh.dvd
      have e : order + p + 1 = order + 1 + p := by omega
      rw [e] at hd hspan
      have hhole : (r.removeFree (2 ^ p) (buddy (order + p) addr) order).Hole p (order + 1 + p)
          (min addr (buddy (order + p) addr)) := by
        refine .of_disjoint hd (le_min hh.lo hb.lo) ?_ fun x hx hx' => ?_
        · -- the last byte of the merged block is the last byte of one of its halves
          have hlast : min addr (buddy (order + p) addr) + 2 ^ (order + 1 + p) - 1 ∈
              span (order + 1 + p) (min addr (buddy (order + p) addr)) := by simp only [mem_span]; omega
          have h1 := hh.hi
          have h2 := hb.hi
          rw [hr.heap.heapEnd] at h2 ⊢
          rw [hspan] at hlast
          simp only [Set.mem_union, mem_span] at hlast
          omega
        · rw [hspan] at hx'
          rcases hx' with hx' | hx'
          · rw [hr.free] at hx
            exact hh.disjoint hx.1 hx'
          · exact hb.disjoint hx hx'
      obtain ⟨r', addr', order', he, h1, h2, h3, F, hF, hU⟩ := ih _ _ (order + 1) (by omega) hr.wf hhole
      refine ⟨r', addr', order', he, h1, h2, h3, F, hr.trans hF, ?_⟩
      have hsub : span (order + p) (buddy (order + p) addr) ⊆ r.free p := fun x hx =>
        ⟨_, mem_family.2 ⟨hle, hm⟩, hx⟩
      rw [hU, hr.free, hspan, Set.union_comm (span (order + p) addr), ← Set.union_assoc,
        Set.sdiff_union_of_subset hsub]
    · rw [if_neg hf]
      exact ⟨r, addr, order, rfl, hle, hh, fun _ hm => hf ((hw.isFree_iff hle).2 hm), _,
        ⟨hw, .refl r, id, rfl⟩, rfl⟩

/-- Deallocating a block that is not free adds it to the free pages. -/
theorem deallocate_becomes (h : r.Wf p) (ho : order ≤ maxOrder)
    (hh : r.Hole p (order + p) addr) :
    Becomes p r (r.deallocate (2 ^ p) addr order) (r.free p ∪ span (order + p) addr) := by
  obtain ⟨r', addr', order', he, h1, h2, h3, F, hF, hU⟩ :=
    coalesce_spec (maxOrder - order) r addr order (by omega) h hh
  have hp := hF.wf.becomes_push h1 h2 h3
  simp only [deallocate, he]
  exact (hF.trans hp).congr (by rw [hF.free, hU])

/-! ## The chunks of a new region -/

/-- The order chosen at an offset fits and is aligned, and the next one up to `MAX_ORDER` is not. -/
theorem chunkOrder_spec {hs total offset : Nat} (hdvd : 2 ^ p ∣ hs + offset * 2 ^ p) (hlt : offset < total) (m : Nat) :
    let o := chunkOrder (2 ^ p) hs total offset m
    o ≤ m ∧ offset + 2 ^ o ≤ total ∧ 2 ^ (o + p) ∣ hs + offset * 2 ^ p ∧
      (o < m → 2 ^ (o + 1 + p) ∣ hs + offset * 2 ^ p → total < offset + 2 ^ (o + 1)) := by
  induction m with
  | zero =>
    simp only [chunkOrder, Nat.zero_add]
    exact ⟨le_rfl, hlt, hdvd, fun h => absurd h (lt_irrefl _)⟩
  | succ m ih =>
    simp only [chunkOrder, orderSize_two_pow, orderPages]
    split
    · rename_i hc
      exact ⟨le_rfl, by omega, Nat.dvd_of_mod_eq_zero hc.2, fun h => absurd h (lt_irrefl _)⟩
    · rename_i hc
      obtain ⟨h1, h2, h3, h4⟩ := ih
      refine ⟨by omega, h2, h3, fun h hd => ?_⟩
      rcases Nat.lt_or_ge (chunkOrder (2 ^ p) hs total offset m) m with hl | hg
      · exact h4 hl hd
      · have he : chunkOrder (2 ^ p) hs total offset m = m := by omega
        rw [he] at hd ⊢
        by_contra hle
        exact hc ⟨by omega, Nat.mod_eq_zero_of_dvd hd⟩

/-- No chunk could have been one order larger. -/
def Greedy (p : Nat) (r : Region) : Prop :=
  ∀ i < maxOrder, ∀ a ∈ r.freeLists i, 2 ^ (i + 1 + p) ∣ a → r.heapEnd (2 ^ p) < a + 2 ^ (i + 1 + p)

theorem Greedy.merged (h : r.Wf p) (hg : r.Greedy p) : r.Merged p := by
  rintro k a hk hd ⟨i, hi, rfl, ha⟩ ⟨j, hj, he, hb⟩
  simp only [Nat.add_right_cancel_iff] at he
  subst he
  have e : i + p + 1 = i + 1 + p := by omega
  rw [e] at hd
  have h1 := hg i (by omega) a ha hd
  have h2 := (h.inside _ (mem_family.2 ⟨hi, hb⟩)).2
  rw [← e, pow_succ] at h1
  simp only at h2
  omega

theorem Greedy.push (h : r.Greedy p) {offset o : Nat} (ho : o ≤ maxOrder)
    (hmax : o < maxOrder → 2 ^ (o + 1 + p) ∣ r.heapStart + offset * 2 ^ p → r.totalPages < offset + 2 ^ (o + 1)) :
    (r.pushFree (2 ^ p) (r.heapStart + offset * 2 ^ p) o).Greedy p := by
  intro i hi a ha hd
  have hmem := mem_family (p := p).2 ⟨hi.le, ha⟩
  rw [pushFree_family (2 ^ p) _ ho] at hmem
  rcases hmem with he | hmem
  · simp only [Prod.mk.injEq, Nat.add_right_cancel_iff] at he
    obtain ⟨rfl, rfl⟩ := he
    have hpos := Nat.two_pow_pos p
    have := Nat.mul_lt_mul_of_pos_right (hmax hi hd) hpos
    rw [Nat.add_mul, ← pow_add] at this
    simp only [heapEnd, pushFree]
    omega
  · exact h i hi a (mem_family.1 hmem).2 hd

theorem chunks_spec (n : Nat) : ∀ (offset : Nat) (r : Region), r.totalPages ≤ offset + n → offset ≤ r.totalPages →
    r.Wf p → r.Greedy p → r.free p = Set.Ico r.heapStart (r.heapStart + offset * 2 ^ p) →
    let r' := chunks (2 ^ p) n offset r
    r'.Wf p ∧ r'.Greedy p ∧ r.SameHeap r' ∧ r'.free p = Set.Ico r.heapStart (r.heapEnd (2 ^ p)) := by
  have done : ∀ (offset : Nat) (r : Region), r.totalPages ≤ offset → offset ≤ r.totalPages → r.Wf p → r.Greedy p →
      r.free p = Set.Ico r.heapStart (r.heapStart + offset * 2 ^ p) →
      r.Wf p ∧ r.Greedy p ∧ r.SameHeap r ∧ r.free p = Set.Ico r.heapStart (r.heapEnd (2 ^ p)) := by
    intro offset r h1 h2 hw hg hf
    obtain rfl : offset = r.totalPages := by omega
    exact ⟨hw, hg, .refl r, hf⟩
  induction n with
  | zero => exact done
  | succ n ih =>
    intro offset r h1 h2 hw hg hf
    simp only [chunks]
    by_cases hlt : offset < r.totalPages
    · rw [if_pos hlt]
      have hdvd : 2 ^ p ∣ r.heapStart + offset * 2 ^ p := Nat.dvd_add hw.heap_dvd (Nat.dvd_mul_left _ _)
      obtain ⟨ho, hfit, hd, hmax⟩ := chunkOrder_spec hdvd hlt maxOrder
      generalize chunkOrder (2 ^ p) r.heapStart r.totalPages offset maxOrder = o at ho hfit hd hmax ⊢
      have hnext : r.heapStart + (offset + 2 ^ o) * 2 ^ p = r.heapStart + offset * 2 ^ p + 2 ^ (o + p) := by
        rw [Nat.add_mul, ← pow_add]; omega
      have hh : r.Hole p (o + p) (r.heapStart + offset * 2 ^ p) := by
        refine .of_disjoint hd (Nat.le_add_right _ _) ?_ fun x hx hx' => ?_
        · rw [← hnext]
          exact Nat.add_le_add_left (Nat.mul_le_mul_right _ hfit) _
        · rw [hf] at hx
          exact Nat.lt_irrefl _ (Nat.lt_of_lt_of_le hx.2 hx'.1)
      have hpw := hw.push ho hh
      have hpg := hg.push ho hmax
      have hsame : r.SameHeap (r.pushFree (2 ^ p) (r.heapStart + offset * 2 ^ p) o) := pushFree_sameHeap _ _ _
      have hrounds : (r.pushFree (2 ^ p) (r.heapStart + offset * 2 ^ p) o).totalPages ≤ offset + orderPages o + n := by
        have := Nat.two_pow_pos o
        simp only [pushFree, orderPages]
        omega
      have hfree : (r.pushFree (2 ^ p) (r.heapStart + offset * 2 ^ p) o).free p =
          Set.Ico r.heapStart (r.heapStart + (offset + 2 ^ o) * 2 ^ p) := by
        rw [push_free ho, hf, hnext]
        ext x
        simp only [Set.mem_union, Set.mem_Ico, mem_span]
        omega
      obtain ⟨h1', h2', h3', h4'⟩ := ih _ _ hrounds hfit hpw hpg hfree
      exact ⟨h1', h2', hsame.trans h3', h4'⟩
    · rw [if_neg hlt]
      exact done offset r (by omega) h2 hw hg hf

end XKernel.Buddy.Region
