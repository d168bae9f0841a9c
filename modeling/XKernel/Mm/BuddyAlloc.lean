import XKernel.Mm.BuddyOps
/-!
# The allocator over its regions

Regions have disjoint extents, so an address belongs to one region at most and
what an operation does to one region is what it does to the allocator: a block
leaves the free pages, or a block joins them.
-/

namespace XKernel.Buddy

open XKernel.Lib XKernel.Lib.Dyadic List Option Region

/-! ## Searching the regions -/

variable {f : Region → Option (Nat × Region)} {rs : List Region}

theorem firstRegion_some {rs' : List Region} {addr : Nat}
    (h : firstRegion f rs = some (addr, rs')) :
    ∃ l r r' l₂, rs = l ++ r :: l₂ ∧ rs' = l ++ r' :: l₂ ∧ f r = some (addr, r') := by
  induction rs generalizing rs' with
  | nil => cases h
  | cons r rs ih =>
    simp only [firstRegion] at h
    split at h
    · rename_i hf
      obtain ⟨rfl, rfl⟩ := h
      exact ⟨[], r, _, rs, rfl, rfl, hf⟩
    · simp only [map_eq_some_iff, Prod.exists] at h
      obtain ⟨b, rs1, h, rfl, rfl⟩ := h
      obtain ⟨l, q, q', l₂, rfl, rfl, hq⟩ := ih h
      exact ⟨r :: l, q, q', l₂, rfl, rfl, hq⟩

theorem firstRegion_eq_none :
    firstRegion f rs = none ↔ ∀ r ∈ rs, f r = none := by
  induction rs with
  | nil => simp [firstRegion]
  | cons r rs ih =>
    simp only [firstRegion]
    split
    · rename_i hf
      simp [hf]
    · rename_i hf
      simp [hf, ih]

theorem modifyRegion_eq {q : Region → Bool} {f : Region → Region} {r : Region}
    (hr : r ∈ rs) (hq : q r = true) :
    ∃ l s l₂, rs = l ++ s :: l₂ ∧ modifyRegion q f rs = l ++ f s :: l₂ ∧ q s = true := by
  induction rs with
  | nil => cases hr
  | cons a rs ih =>
    simp only [modifyRegion]
    by_cases ha : q a = true
    · rw [if_pos ha]
      exact ⟨[], a, rs, rfl, rfl, ha⟩
    · rw [if_neg ha]
      obtain ⟨l, s, l₂, rfl, he, hs⟩ := ih ((mem_cons.1 hr).resolve_left (by rintro rfl; exact ha hq))
      exact ⟨a :: l, s, l₂, rfl, by rw [he]; rfl, hs⟩

/-! ## The allocator's invariant -/

namespace Region

/-- Registered start, heap start and heap end. -/
def extent (p : Nat) (r : Region) : Nat × Nat × Nat := (r.regionStart, r.heapStart, r.heapEnd (2 ^ p))

/-- The heap's addresses. -/
def heap (p : Nat) (r : Region) : Set Nat := Set.Ico r.heapStart (r.heapEnd (2 ^ p))

variable {p : Nat} {r : Region}

theorem SameHeap.extent {r' : Region} (h : r.SameHeap r') : r'.extent p = r.extent p := by
  simp only [Region.extent, h.region, h.start, h.heapEnd]

theorem SameHeap.heap {r' : Region} (h : r.SameHeap r') : r'.heap p = r.heap p := by
  simp only [Region.heap, h.start, h.heapEnd]

theorem Wf.free_subset (h : r.Wf p) : r.free p ⊆ r.heap p := by
  rintro x ⟨b, hb, hx⟩
  have := h.inside b hb
  simp only [mem_span] at hx
  exact ⟨by omega, by omega⟩

theorem contains_iff {x : Nat} : r.contains (2 ^ p) x = true ↔ x ∈ r.heap p := by
  simp [contains, heap]

end Region

namespace BuddyAllocator

variable {p : Nat} {a a' : BuddyAllocator}

/-- The bytes of the free pages. -/
def free (p : Nat) (a : BuddyAllocator) : Set Nat := {x | ∃ r ∈ a.regions, x ∈ r.free p}

/-- The bytes of all heaps. -/
def heap (p : Nat) (a : BuddyAllocator) : Set Nat := {x | ∃ r ∈ a.regions, x ∈ r.heap p}

structure Wf (p : Nat) (a : BuddyAllocator) : Prop where
  wf : ∀ r ∈ a.regions, r.Wf p
  merged : ∀ r ∈ a.regions, r.Merged p
  bounds : ∀ r ∈ a.regions, r.regionStart ≤ r.heapStart
  apart : (a.regions.map (·.extent p)).Pairwise fun e f => e.2.2 ≤ f.1 ∨ f.2.2 ≤ e.1

theorem Wf.free_subset (h : a.Wf p) : a.free p ⊆ a.heap p := by
  rintro x ⟨r, hr, hx⟩
  exact ⟨r, hr, (h.wf r hr).free_subset hx⟩

variable {l l₂ : List Region} {r : Region}

theorem exists_mem_append_cons {P : Region → Prop} :
    (∃ s ∈ l ++ r :: l₂, P s) ↔ P r ∨ ∃ s ∈ l ++ l₂, P s := by
  simp only [mem_append, mem_cons, or_and_right, exists_or, exists_eq_left]
  exact or_left_comm

variable {x : Nat}

theorem mem_heap_append :
    x ∈ heap p ⟨l ++ r :: l₂⟩ ↔ x ∈ r.heap p ∨ x ∈ heap p ⟨l ++ l₂⟩ :=
  exists_mem_append_cons

theorem mem_free_append :
    x ∈ free p ⟨l ++ r :: l₂⟩ ↔ x ∈ r.free p ∨ x ∈ free p ⟨l ++ l₂⟩ :=
  exists_mem_append_cons

/-- An address of one region's heap is in no other heap. -/
theorem Wf.unique (h : Wf p ⟨l ++ r :: l₂⟩) (hx : x ∈ r.heap p) :
    x ∉ heap p ⟨l ++ l₂⟩ := by
  have hr := h.bounds r (by simp)
  have ha := h.apart
  simp only [List.map_append, List.map_cons, List.pairwise_append, List.pairwise_cons, List.mem_map, List.mem_cons,
    forall_exists_index, and_imp, forall_apply_eq_imp_iff₂] at ha
  obtain ⟨-, ⟨h2, -⟩, h3⟩ := ha
  rintro ⟨s, hs, hxs⟩
  have hs' := h.bounds s (by simp only [List.mem_append] at hs ⊢; tauto)
  simp only [Region.heap, Set.mem_Ico] at hx hxs
  rcases List.mem_append.1 hs with hs | hs
  · have := h3 s hs _ (.inl rfl)
    simp only [Region.extent] at this
    omega
  · have := h2 s hs
    simp only [Region.extent] at this
    omega

theorem Wf.region_unique (h : a.Wf p) {r s : Region} (hr : r ∈ a.regions) (hs : s ∈ a.regions)
    (hx : x ∈ r.heap p) (hx' : x ∈ s.heap p) : r = s := by
  obtain ⟨l, l₂, hl⟩ := append_of_mem hr
  obtain rfl : a = ⟨l ++ r :: l₂⟩ := by rw [← hl]
  by_contra hne
  refine h.unique hx ⟨s, ?_, hx'⟩
  simp only [mem_append, mem_cons] at hs ⊢
  tauto

/-- A change inside one region's heap keeps the allocator well formed. -/
theorem Wf.replace {r r' : Region} {F : Set Nat} (h : Wf p ⟨l ++ r :: l₂⟩)
    (hb : Region.Becomes p r r' F) : Wf p ⟨l ++ r' :: l₂⟩ := by
  have hr : r ∈ l ++ r :: l₂ := by simp
  have split : ∀ {P : Region → Prop}, (∀ s ∈ l ++ r :: l₂, P s) → P r' → ∀ s ∈ l ++ r' :: l₂, P s := by
    intro P hall hnew s hs
    simp only [mem_append, mem_cons] at hs hall
    rcases hs with hs | rfl | hs
    · exact hall s (.inl hs)
    · exact hnew
    · exact hall s (.inr (.inr hs))
  refine ⟨split h.wf hb.wf, split h.merged (hb.merged (h.merged r hr)), split h.bounds ?_, ?_⟩
  · rw [hb.heap.region, hb.heap.start]
    exact h.bounds r hr
  · have := h.apart
    simp only [map_append, map_cons, hb.heap.extent] at this ⊢
    exact this

theorem Wf.of_region (h : Wf p ⟨l ++ r :: l₂⟩) (hx : x ∈ r.heap p) :
    x ∈ free p ⟨l ++ r :: l₂⟩ ↔ x ∈ r.free p := by
  rw [mem_free_append, or_iff_left]
  rintro ⟨s, hs, hxs⟩
  refine h.unique hx ⟨s, hs, (h.wf s ?_).free_subset hxs⟩
  simp only [mem_append] at hs ⊢
  tauto

/-! ## Allocation -/

/-- `a'` is `a` without the free block of `2 ^ order` pages at `addr`, all of it in one region. -/
structure Takes (p order addr : Nat) (a a' : BuddyAllocator) : Prop where
  wf : a'.Wf p
  extents : a'.regions.map (·.extent p) = a.regions.map (·.extent p)
  dvd : 2 ^ (order + p) ∣ addr
  sub : span (order + p) addr ⊆ a.free p
  region : ∃ r ∈ a.regions, span (order + p) addr ⊆ r.heap p
  free : a'.free p = a.free p \ span (order + p) addr

theorem heap_of_extents (h : a'.regions.map (·.extent p) = a.regions.map (·.extent p)) : a'.heap p = a.heap p := by
  have key : ∀ b : BuddyAllocator, b.heap p = {x | ∃ e ∈ b.regions.map (·.extent p), x ∈ Set.Ico e.2.1 e.2.2} := by
    intro b
    ext x
    simp [heap, Region.heap, Region.extent]
  rw [key, key, h]

theorem Wf.takes {f : Region → Option (Nat × Region)} {order addr : Nat} {rs : List Region} (h : a.Wf p)
    (hf : ∀ r r' addr, r.Wf p → f r = some (addr, r') → Region.Takes p order addr r r')
    (ha : firstRegion f a.regions = some (addr, rs)) : Takes p order addr a ⟨rs⟩ := by
  obtain ⟨l, r, r', l₂, hrs, rfl, hfr⟩ := firstRegion_some ha
  obtain rfl : a = ⟨l ++ r :: l₂⟩ := by rw [← hrs]
  have hr : r ∈ l ++ r :: l₂ := by simp
  have hwr := h.wf r hr
  have ht := hf r r' addr hwr hfr
  have hheap := ht.sub.trans hwr.free_subset
  refine ⟨h.replace ht.becomes, by simp [ht.becomes.heap.extent], ht.dvd, fun x hx => ⟨r, hr, ht.sub hx⟩,
    ⟨r, hr, hheap⟩, ?_⟩
  ext x
  rw [Set.mem_sdiff, mem_free_append, mem_free_append, ht.becomes.free, Set.mem_sdiff]
  constructor
  · rintro (⟨hx, hn⟩ | hx)
    · exact ⟨.inl hx, hn⟩
    · refine ⟨.inr hx, fun hs => h.unique (hheap hs) ?_⟩
      obtain ⟨s, hs', hxs⟩ := hx
      refine ⟨s, hs', (h.wf s ?_).free_subset hxs⟩
      simp only [mem_append] at hs' ⊢
      tauto
  · rintro ⟨hx | hx, hn⟩
    · exact .inl ⟨hx, hn⟩
    · exact .inr hx

theorem allocatePages_takes (h : a.Wf p) {count align addr : Nat}
    (ha : a.allocatePages (2 ^ p) count align = .ok (addr, a')) :
    orderFor count ≤ maxOrder ∧ Takes p (orderFor count) addr a a' := by
  simp only [allocatePages] at ha
  generalize (if align = 0 then 2 ^ p else align) = align' at ha
  split at ha
  · cases ha
  split at ha
  · cases ha
  split at ha
  · cases ha
  split at ha
  · rename_i hfirst
    obtain ⟨rfl, rfl⟩ := ha
    exact ⟨by omega, h.takes (fun r r' _ hw hr => allocAligned_takes hw (by omega) hr) hfirst⟩
  · cases ha

theorem allocatePagesAt_takes (h : a.Wf p) {base count align addr : Nat}
    (ha : a.allocatePagesAt (2 ^ p) base count align = .ok (addr, a')) :
    orderFor count ≤ maxOrder ∧ Takes p (orderFor count) addr a a' := by
  simp only [allocatePagesAt] at ha
  generalize (if align = 0 then 2 ^ p else align) = align' at ha
  split at ha
  · cases ha
  split at ha
  · cases ha
  split at ha
  · cases ha
  split at ha
  · rename_i hfirst
    obtain ⟨rfl, rfl⟩ := ha
    exact ⟨by omega, h.takes (fun r r' _ hw hr => (allocAt_takes hw (by omega) hr).2) hfirst⟩
  · cases ha

/-! ## Deallocation -/

/-- A block of one heap that is not free joins the free pages. -/
structure Gives (p order addr : Nat) (a a' : BuddyAllocator) : Prop where
  wf : a'.Wf p
  extents : a'.regions.map (·.extent p) = a.regions.map (·.extent p)
  free : a'.free p = a.free p ∪ span (order + p) addr

/-- What a caller owes to `deallocate_pages`: an aligned block of one heap, none of it free. -/
structure Returns (p order addr : Nat) (a : BuddyAllocator) : Prop where
  dvd : 2 ^ (order + p) ∣ addr
  region : ∃ r ∈ a.regions, span (order + p) addr ⊆ r.heap p
  used : ∀ x ∈ span (order + p) addr, x ∉ a.free p

theorem deallocatePages_gives (h : a.Wf p) {addr count : Nat} (hc : count ≠ 0) (ho : orderFor count ≤ maxOrder)
    (hret : Returns p (orderFor count) addr a) :
    ∃ a', a.deallocatePages (2 ^ p) addr count = some a' ∧ Gives p (orderFor count) addr a a' := by
  obtain ⟨r, hr, hheap⟩ := hret.region
  have hpos := Nat.two_pow_pos (orderFor count + p)
  have haddr : addr ∈ span (orderFor count + p) addr := by simp
  have hcon : r.contains (2 ^ p) addr = true := contains_iff.2 (hheap haddr)
  obtain ⟨l, s, l₂, hrs, hmod, hs⟩ := modifyRegion_eq (q := (·.contains (2 ^ p) addr))
    (f := (·.deallocate (2 ^ p) addr (orderFor count))) hr hcon
  obtain rfl : a = ⟨l ++ s :: l₂⟩ := by rw [← hrs]
  -- the first region that contains the address is the one that holds the block
  obtain rfl : r = s := h.region_unique hr (by simp) (hheap haddr) (contains_iff.1 hs)
  have hw := h.wf r hr
  have hlast : addr + 2 ^ (orderFor count + p) - 1 ∈ r.heap p := hheap (by simp only [mem_span]; omega)
  have hhole : r.Hole p (orderFor count + p) addr := by
    refine .of_disjoint hret.dvd (hheap haddr).1 ?_ fun x hx hx' => hret.used x hx' ⟨r, hr, hx⟩
    have := hlast.2
    omega
  have hb := deallocate_becomes hw ho hhole
  refine ⟨⟨l ++ r.deallocate (2 ^ p) addr (orderFor count) :: l₂⟩, ?_, h.replace hb, by simp [hb.heap.extent], ?_⟩
  · have hany : ((l ++ r :: l₂).any fun r => r.contains (2 ^ p) addr) = true := any_eq_true.2 ⟨r, hr, hcon⟩
    simp only [deallocatePages, if_neg hc, hany, Nat.not_lt.2 ho, ← hmod]
    simp
  · ext x
    rw [Set.mem_union, mem_free_append, mem_free_append, hb.free, Set.mem_union]
    tauto

/-! ## Adding a region -/

theorem divCeil_le {n d : Nat} (hd : 0 < d) : divCeil n d ≤ n := by
  rcases Nat.eq_zero_or_pos n with rfl | hn
  · rw [divCeil, Nat.zero_add, Nat.div_eq_of_lt (by omega)]
  · refine Nat.div_le_of_le_mul ?_
    obtain ⟨m, rfl⟩ := Nat.exists_eq_add_of_lt hn
    have := Nat.le_mul_of_pos_left m hd
    rw [Nat.zero_add, Nat.mul_add, Nat.mul_one]
    omega

theorem metadataPages_le (p n : Nat) : metadataPages (2 ^ p) n ≤ n := by
  unfold metadataPages
  split
  · exact Nat.zero_le _
  · exact (divCeil_le (Nat.two_pow_pos p)).trans (divCeil_le (by decide))

theorem newRegion_spec (mem : Nat → Nat) {base : Nat} (n : Nat) (hb : 2 ^ p ∣ base) :
    let r := newRegion (2 ^ p) mem base n
    r.Wf p ∧ r.Merged p ∧ r.free p = r.heap p ∧ r.regionStart = base ∧ base ≤ r.heapStart ∧
      r.heapEnd (2 ^ p) = base + n * 2 ^ p := by
  have hmeta := metadataPages_le p n
  simp only [newRegion]
  generalize metadataPages (2 ^ p) n = m at hmeta ⊢
  generalize hr : Region.mk base (base + m * 2 ^ p) (n - m) 0 (fun _ => []) ⟨fun _ => 0⟩ mem = r
  have hfam : r.family p = ∅ := by
    subst hr
    ext b
    simp [Region.family]
  have hw : r.Wf p := by
    refine ⟨?_, ?_, ?_, ?_, ?_, ?_, ?_⟩
    · subst hr
      exact Nat.dvd_add hb (Nat.dvd_mul_left _ _)
    · rw [hfam]
      exact ⟨fun b hb => hb.elim, fun b hb => hb.elim⟩
    · rw [hfam]
      exact fun b hb => hb.elim
    all_goals subst hr
    · exact fun i _ => nodup_nil
    · exact fun i _ a ha => by cases ha
    · exact fun page _ => by simp [FreeHeadBitmap.contains]
    · simp [Region.chunkPages]
  have hg : r.Greedy p := by
    subst hr
    exact fun i _ a ha => by cases ha
  have hfree : r.free p = Set.Ico r.heapStart (r.heapStart + 0 * 2 ^ p) := by
    rw [Region.free, hfam]
    ext x
    simp [cover]
  have htotal : r.totalPages ≤ 0 + (n - m) := by subst hr; simp
  obtain ⟨h1, h2, h3, h4⟩ := Region.chunks_spec (n - m) 0 r htotal (Nat.zero_le _) hw hg hfree
  refine ⟨h1, h2.merged h1, ?_, ?_, ?_, ?_⟩
  · rw [h4, h3.heap]
    rfl
  · rw [h3.region, ← hr]
  · rw [h3.start, ← hr]
    exact Nat.le_add_right _ _
  · rw [h3.heapEnd, ← hr]
    simp only [Region.heapEnd]
    rw [Nat.add_assoc, ← Nat.add_mul, Nat.add_sub_cancel' hmeta]

/-- A region that is added is apart from the others and all of its heap is free. -/
theorem addRegion_spec (h : a.Wf p) {mem : Nat → Nat} {base size : Nat}
    (ha : a.addRegion (2 ^ p) mem base size = .ok a') :
    a'.Wf p ∧ ∃ r, a'.regions = a.regions ++ [r] ∧ r.free p = r.heap p := by
  simp only [addRegion] at ha
  split at ha
  · cases ha
  split at ha
  · cases ha
  rename_i hin
  split at ha
  · cases ha
  split at ha
  · cases ha
  rename_i hov
  simp only [Except.ok.injEq] at ha
  subst ha
  simp only [Bool.or_eq_true, not_or, bne_iff_ne, Decidable.not_not] at hin
  have hdvd : 2 ^ p ∣ base := Nat.dvd_of_mod_eq_zero hin.2
  obtain ⟨h1, h2, h3, h4, h5, h6⟩ := newRegion_spec mem ((size - size % 2 ^ p) / 2 ^ p) hdvd
  rw [Nat.div_mul_cancel (Nat.dvd_sub_mod size)] at h6
  refine ⟨⟨?_, ?_, ?_, ?_⟩, _, rfl, h3⟩
  · simpa [or_imp, forall_and] using ⟨h.wf, h1⟩
  · simpa [or_imp, forall_and] using ⟨h.merged, h2⟩
  · simpa [or_imp, forall_and, h4] using ⟨h.bounds, h5⟩
  · rw [List.map_append, List.pairwise_append]
    refine ⟨h.apart, by simp, ?_⟩
    simp only [List.map_cons, List.map_nil, List.mem_singleton, List.mem_map, forall_exists_index, and_imp,
      forall_apply_eq_imp_iff₂, forall_eq, extent, h6]
    intro r hr
    simp only [Bool.not_eq_true, List.any_eq_false, Bool.and_eq_true, decide_eq_true_eq] at hov
    have := hov r hr
    omega

end BuddyAllocator
end XKernel.Buddy
