import XKernel.Lib.Runs
import XKernel.Mm.BuddyAlloc
/-!
# Runs of the buddy allocator

A run is any sequence of the allocator's operations by callers that return only
what they hold. `held` counts, for every address, the live allocations it belongs
to, and callers may write to the pages they hold. Along every run the pages held
and the free chunks partition the heaps.
-/

namespace XKernel.Buddy

open XKernel.Lib XKernel.Lib.Dyadic Function List Option BuddyAllocator

/-! ## Operations and steps -/

structure State where
  alloc : BuddyAllocator
  held : Nat → Nat

def State.init : State := ⟨.empty, fun _ => 0⟩

inductive Op where
  | initRegion (mem : Nat → Nat) (base size : Nat)
  | addRegion (mem : Nat → Nat) (base size : Nat)
  | allocatePages (count alignPow2 : Nat)
  | allocatePagesAt (base count alignPow2 : Nat)
  | deallocatePages (addr count : Nat)
  | write (addr value : Nat)

/-- The allocator becomes `a`, and `f` is applied to the count of every address of the block of `count` pages. -/
def State.setBlock (ps : Nat) (s : State) (a : BuddyAllocator) (addr count : Nat) (f : Nat → Nat) : State where
  alloc := a
  held x := if addr ≤ x ∧ x < addr + orderSize ps (orderFor count) then f (s.held x) else s.held x

/-- The owner of an allocated page stores `value` where a free page has its `order` word. -/
def BuddyAllocator.write (ps : Nat) (a : BuddyAllocator) (addr value : Nat) : BuddyAllocator :=
  ⟨modifyRegion (·.contains ps addr) (fun r => { r with header := Function.update r.header addr value }) a.regions⟩

def step (ps : Nat) (s : State) : Op → Option State
  | .initRegion mem base size => some ⟨(BuddyAllocator.initRegion ps mem base size).2, fun _ => 0⟩
  | .addRegion mem base size =>
    match s.alloc.addRegion ps mem base size with
    | .ok a => some { s with alloc := a }
    | .error _ => some s
  | .allocatePages count align =>
    match s.alloc.allocatePages ps count align with
    | .ok (addr, a) => some (s.setBlock ps a addr count (· + 1))
    | .error _ => some s
  | .allocatePagesAt base count align =>
    match s.alloc.allocatePagesAt ps base count align with
    | .ok (addr, a) => some (s.setBlock ps a addr count (· + 1))
    | .error _ => some s
  | .deallocatePages addr count =>
    if count = 0 then some s
    else (s.alloc.deallocatePages ps addr count).map fun a => s.setBlock ps a addr count (· - 1)
  | .write addr value => some { s with alloc := s.alloc.write ps addr value }

/-- What callers owe: a block given back is an aligned block of `2 ^ ⌈log₂ count⌉` pages of one region, all of
them held, and only held pages are written. -/
def Allowed (ps : Nat) (s : State) : Op → Prop
  | .deallocatePages addr count =>
    count = 0 ∨ addr % orderSize ps (Nat.clog 2 count) = 0 ∧
      (∃ r ∈ s.alloc.regions, r.heapStart ≤ addr ∧ addr + orderSize ps (Nat.clog 2 count) ≤ r.heapEnd ps) ∧
      ∀ d < orderSize ps (Nat.clog 2 count), 0 < s.held (addr + d)
  | .write addr _ => 0 < s.held addr
  | _ => True

instance (ps : Nat) (s : State) (op : Op) : Decidable (Allowed ps s op) :=
  match op with
  | .deallocatePages addr count => inferInstanceAs (Decidable (count = 0 ∨
      addr % orderSize ps (Nat.clog 2 count) = 0 ∧
      (∃ r ∈ s.alloc.regions, r.heapStart ≤ addr ∧ addr + orderSize ps (Nat.clog 2 count) ≤ r.heapEnd ps) ∧
      ∀ d < orderSize ps (Nat.clog 2 count), 0 < s.held (addr + d)))
  | .write addr _ => inferInstanceAs (Decidable (0 < s.held addr))
  | .initRegion .. | .addRegion .. | .allocatePages .. | .allocatePagesAt .. => .isTrue trivial

/-! ## The invariant of a run -/

/-- What is held once is exactly what is not free. -/
structure Inv (p : Nat) (s : State) : Prop where
  wf : s.alloc.Wf p
  used : ∀ x ∈ s.alloc.heap p, x ∉ s.alloc.free p → s.held x = 1
  unused : ∀ x, x ∉ s.alloc.heap p ∨ x ∈ s.alloc.free p → s.held x = 0

variable {p : Nat} {s s' : State}

theorem empty_wf (p : Nat) : empty.Wf p :=
  ⟨by simp [empty], by simp [empty], by simp [empty],
    by simp [empty]⟩

theorem Inv.init (p : Nat) : Inv p State.init :=
  ⟨empty_wf p, fun x hx => by simp [State.init, heap, empty] at hx, fun _ _ => rfl⟩

variable {a : BuddyAllocator}

theorem Inv.of_addRegion (h : Inv p s) {mem : Nat → Nat} {base size : Nat}
    (ha : s.alloc.addRegion (2 ^ p) mem base size = .ok a) : Inv p { s with alloc := a } := by
  obtain ⟨hw, r, hr, hfree⟩ := addRegion_spec h.wf ha
  obtain rfl : a = ⟨s.alloc.regions ++ r :: []⟩ := by rw [← hr]
  refine ⟨hw, fun x hx hn => ?_, fun x hx => ?_⟩
  · simp only [mem_heap_append, mem_free_append, append_nil, hfree, not_or] at hx hn
    exact h.used x (hx.resolve_left hn.1) hn.2
  · simp only [mem_heap_append, mem_free_append, append_nil, hfree, not_or] at hx
    refine h.unused x ?_
    rcases hx with hx | hx | hx
    · exact .inl hx.2
    · exact .inl (by simpa using hw.unique hx)
    · exact .inr hx

section setBlock
variable {a : BuddyAllocator} {addr count x : Nat} {f : Nat → Nat}

theorem setBlock_alloc : (s.setBlock (2 ^ p) a addr count f).alloc = a := rfl

theorem setBlock_of_mem (hx : x ∈ span (orderFor count + p) addr) :
    (s.setBlock (2 ^ p) a addr count f).held x = f (s.held x) := by
  rw [mem_span, ← orderSize_two_pow] at hx
  exact if_pos hx

theorem setBlock_of_notMem (hx : x ∉ span (orderFor count + p) addr) :
    (s.setBlock (2 ^ p) a addr count f).held x = s.held x := by
  rw [mem_span, ← orderSize_two_pow] at hx
  exact if_neg hx

end setBlock

theorem Inv.of_takes (h : Inv p s) {addr count : Nat}
    (ht : BuddyAllocator.Takes p (orderFor count) addr s.alloc a) :
    Inv p (s.setBlock (2 ^ p) a addr count (· + 1)) := by
  have hheap := heap_of_extents ht.extents
  refine ⟨ht.wf, fun x hx hn => ?_, fun x hx => ?_⟩
  · rw [setBlock_alloc, hheap] at hx
    rw [setBlock_alloc, ht.free, Set.mem_sdiff, not_and_not_right] at hn
    by_cases hb : x ∈ span (orderFor count + p) addr
    · rw [setBlock_of_mem hb, h.unused x (.inr (ht.sub hb))]
    · rw [setBlock_of_notMem hb, h.used x hx fun hf => hb (hn hf)]
  · rw [setBlock_alloc, hheap, ht.free, Set.mem_sdiff] at hx
    have hb : x ∉ span (orderFor count + p) addr := by
      rcases hx with hx | hx
      · exact fun hb => hx (h.wf.free_subset (ht.sub hb))
      · exact hx.2
    rw [setBlock_of_notMem hb, h.unused x (hx.imp_right (·.1))]

theorem Inv.of_gives (h : Inv p s) {addr count : Nat}
    (hret : BuddyAllocator.Returns p (orderFor count) addr s.alloc)
    (hg : BuddyAllocator.Gives p (orderFor count) addr s.alloc a) :
    Inv p (s.setBlock (2 ^ p) a addr count (· - 1)) := by
  have hheap := heap_of_extents hg.extents
  have hin : ∀ x ∈ span (orderFor count + p) addr, x ∈ s.alloc.heap p := fun x hx => by
    obtain ⟨r, hr, hsub⟩ := hret.region
    exact ⟨r, hr, hsub hx⟩
  refine ⟨hg.wf, fun x hx hn => ?_, fun x hx => ?_⟩
  · rw [setBlock_alloc, hheap] at hx
    rw [setBlock_alloc, hg.free, Set.mem_union, not_or] at hn
    rw [setBlock_of_notMem hn.2, h.used x hx hn.1]
  · rw [setBlock_alloc, hheap, hg.free, Set.mem_union] at hx
    by_cases hb : x ∈ span (orderFor count + p) addr
    · rw [setBlock_of_mem hb, h.used x (hin x hb) (hret.used x hb)]
    · rw [setBlock_of_notMem hb]
      exact h.unused x (hx.imp_right fun hx => hx.resolve_right hb)

theorem Inv.of_write (h : Inv p s) {addr value : Nat} (hheld : 0 < s.held addr) :
    Inv p { s with alloc := s.alloc.write (2 ^ p) addr value } := by
  have hused : addr ∈ s.alloc.heap p ∧ addr ∉ s.alloc.free p := by
    by_contra hc
    have := h.unused addr (by tauto)
    omega
  obtain ⟨⟨r, hr, hx⟩, hfree⟩ := hused
  obtain ⟨l, q, l2, hrs, hmod, hq⟩ := modifyRegion_eq (q := (·.contains (2 ^ p) addr))
    hr (Region.contains_iff.2 hx)
  have halloc : s.alloc = ⟨l ++ q :: l2⟩ := by rw [← hrs]
  have hb : Region.Becomes p q { q with header := update q.header addr value } (q.free p) :=
    Region.write_becomes (h.wf.wf q (by rw [hrs]; simp)) fun hf => hfree ⟨q, by rw [hrs]; simp, hf⟩
  have hheap : (s.alloc.write (2 ^ p) addr value).heap p = s.alloc.heap p := by
    refine heap_of_extents ?_
    rw [write, hmod, hrs]
    simp [hb.heap.extent]
  have hfree' : (s.alloc.write (2 ^ p) addr value).free p = s.alloc.free p := by
    ext x
    rw [write, hmod, mem_free_append, halloc, mem_free_append, hb.free]
  refine ⟨?_, fun x hx hn => ?_, fun x hx => ?_⟩
  · have hw := h.wf
    rw [halloc] at hw
    rw [write, hmod]
    exact hw.replace hb
  · exact h.used x (hheap ▸ hx) (hfree' ▸ hn)
  · exact h.unused x (by rwa [hheap, hfree'] at hx)

/-- A block whose addresses are all held may be given back. -/
theorem Inv.returns (h : Inv p s) {addr count : Nat} (hd : addr % orderSize (2 ^ p) (orderFor count) = 0)
    {r : Region} (hr : r ∈ s.alloc.regions) (hlo : r.heapStart ≤ addr)
    (hhi : addr + orderSize (2 ^ p) (orderFor count) ≤ r.heapEnd (2 ^ p))
    (hheld : ∀ d < orderSize (2 ^ p) (orderFor count), 0 < s.held (addr + d)) :
    BuddyAllocator.Returns p (orderFor count) addr s.alloc := by
  rw [orderSize_two_pow] at hd hhi hheld
  refine ⟨Nat.dvd_of_mod_eq_zero hd, ⟨r, hr, fun x hx => ?_⟩, fun x hx hf => ?_⟩
  · simp only [mem_span] at hx
    exact ⟨by omega, by omega⟩
  · simp only [mem_span] at hx
    have := hheld (x - addr) (by omega)
    rw [Nat.add_sub_cancel' hx.1, h.unused x (.inr hf)] at this
    omega

theorem Inv.step (h : Inv p s) {op : Op} (hok : Allowed (2 ^ p) s op) (hs : step (2 ^ p) s op = some s') :
    Inv p s' := by
  cases op with simp only [Buddy.step] at hs
  | initRegion =>
    obtain rfl := some.inj hs
    have h0 : Inv p ⟨.empty, fun _ => 0⟩ := Inv.init p
    simp only [initRegion]
    split
    · rename_i ha
      exact h0.of_addRegion ha
    · exact h0
  | addRegion =>
    split at hs
    · rename_i ha
      obtain rfl := some.inj hs
      exact h.of_addRegion ha
    · exact some.inj hs ▸ h
  | allocatePages =>
    split at hs
    · rename_i ha
      obtain rfl := some.inj hs
      exact h.of_takes (allocatePages_takes h.wf ha).2
    · exact some.inj hs ▸ h
  | allocatePagesAt =>
    split at hs
    · rename_i ha
      obtain rfl := some.inj hs
      exact h.of_takes (allocatePagesAt_takes h.wf ha).2
    · exact some.inj hs ▸ h
  | deallocatePages addr count =>
    split at hs
    · exact some.inj hs ▸ h
    rename_i hc
    obtain ⟨a, ha, rfl⟩ := map_eq_some_iff.1 hs
    obtain ⟨hd, ⟨r, hr, hlo, hhi⟩, hheld⟩ := Or.resolve_left hok hc
    rw [← orderFor_eq_clog] at hd hhi hheld
    have hret := h.returns hd hr hlo hhi hheld
    have ho : orderFor count ≤ maxOrder := by
      obtain ⟨q, hq, hsub⟩ := hret.region
      have hany : (s.alloc.regions.any fun r => r.contains (2 ^ p) addr) = true :=
        any_eq_true.2 ⟨q, hq, Region.contains_iff.2 (hsub (by simp))⟩
      by_contra hlt
      simp [deallocatePages, hc, hany, not_le.1 hlt] at ha
    obtain ⟨a', ha', hg⟩ := deallocatePages_gives h.wf hc ho hret
    obtain rfl : a' = a := some.inj (ha'.symm.trans ha)
    exact h.of_gives hret hg
  | write =>
    obtain rfl := some.inj hs
    exact h.of_write hok

theorem run_inv (h : Run (step (2 ^ p)) (Allowed (2 ^ p)) State.init s) : Inv p s :=
  h.inv (Inv p) (Inv.init p) fun _ _ _ hi hok hs => hi.step hok hs

/-! ## Free chunks and held pages partition the heaps -/

namespace Region

/-- Free lists, bitmap, headers and counter of a region, and the live allocations, tell one story. -/
structure Sound (ps : Nat) (held : Nat → Nat) (r : Region) : Prop where
  linked_once : ∀ i ≤ maxOrder, (r.freeLists i).Nodup
  disjoint : ∀ i ≤ maxOrder, ∀ a ∈ r.freeLists i, ∀ j ≤ maxOrder, ∀ b ∈ r.freeLists j,
    (i = j ∧ a = b) ∨ a + orderSize ps i ≤ b ∨ b + orderSize ps j ≤ a
  inside : ∀ i ≤ maxOrder, ∀ a ∈ r.freeLists i,
    r.heapStart ≤ a ∧ a + orderSize ps i ≤ r.heapStart + r.totalPages * ps
  aligned : ∀ i ≤ maxOrder, ∀ a ∈ r.freeLists i, a % orderSize ps i = 0
  bitmap : ∀ page < r.totalPages, let addr := r.heapStart + page * ps
    r.freeHeads.contains page = true ↔ r.header addr ≤ maxOrder ∧ addr ∈ r.freeLists (r.header addr)
  count : r.freePages = ∑ i ∈ Finset.range (maxOrder + 1), (r.freeLists i).length * 2 ^ i
  partition : ∀ x, r.heapStart ≤ x → x < r.heapStart + r.totalPages * ps →
    held x + (if r.covers ps x then 1 else 0) = 1

theorem Wf.bitmap_iff {r : Region} (h : r.Wf p) {page : Nat} (hp : page < r.totalPages) :
    let addr := r.heapStart + page * 2 ^ p
    r.freeHeads.contains page = true ↔ r.header addr ≤ maxOrder ∧ addr ∈ r.freeLists (r.header addr) := by
  simp only
  rw [h.bitmap page hp]
  constructor
  · rintro ⟨i, hi, ha⟩
    rw [h.header i hi _ ha]
    exact ⟨hi, ha⟩
  · rintro ⟨hi, ha⟩
    exact ⟨_, hi, ha⟩

end Region

theorem Inv.sound (h : Inv p s) {r : Region} (hr : r ∈ s.alloc.regions) : r.Sound (2 ^ p) s.held := by
  have hw := h.wf.wf r hr
  refine ⟨hw.nodup, fun i hi a ha j hj b hb => ?_, fun i hi a ha => ?_, fun i hi a ha => ?_,
    fun page hp => hw.bitmap_iff hp, hw.count, fun x hlo hhi => ?_⟩
  · rw [orderSize_two_pow, orderSize_two_pow]
    rcases hw.packing.apart _ (Region.mem_family.2 ⟨hi, ha⟩) _ (Region.mem_family.2 ⟨hj, hb⟩) with he | he
    · simp only [Prod.mk.injEq, Nat.add_right_cancel_iff] at he
      exact .inl he
    · exact .inr he
  · rw [orderSize_two_pow]
    exact hw.inside _ (Region.mem_family.2 ⟨hi, ha⟩)
  · rw [orderSize_two_pow]
    exact Nat.mod_eq_zero_of_dvd (hw.dvd hi ha)
  · obtain ⟨l, l2, hl⟩ := append_of_mem hr
    have halloc : s.alloc = ⟨l ++ r :: l2⟩ := by rw [← hl]
    have hx : x ∈ r.heap p := ⟨hlo, hhi⟩
    have hf : x ∈ s.alloc.free p ↔ x ∈ r.free p := by
      have hw' := h.wf
      rw [halloc] at hw' ⊢
      exact hw'.of_region hx
    by_cases hc : r.covers (2 ^ p) x = true
    · rw [if_pos hc, h.unused x (.inr (hf.2 (Region.covers_iff.1 hc)))]
    · rw [if_neg hc, h.used x ⟨r, hr, hx⟩ fun hx' => hc (Region.covers_iff.2 (hf.1 hx'))]

theorem Inv.held_le (h : Inv p s) (x : Nat) : s.held x ≤ 1 := by
  by_cases hx : x ∈ s.alloc.heap p ∧ x ∉ s.alloc.free p
  · exact (h.used x hx.1 hx.2).le
  · rw [h.unused x (by tauto)]
    exact Nat.zero_le 1

/-- Along every run every region is sound, and no address belongs to two live allocations. -/
theorem run_regions_sound (p : Nat) {s : State} (h : Run (step (2 ^ p)) (Allowed (2 ^ p)) State.init s) :
    (∀ r ∈ s.alloc.regions, r.Sound (2 ^ p) s.held) ∧
      (∀ x, 0 < s.held x → ∃ r ∈ s.alloc.regions, r.contains (2 ^ p) x = true) ∧ ∀ x, s.held x ≤ 1 := by
  have hi := run_inv h
  refine ⟨fun r hr => hi.sound hr, fun x hx => ?_, hi.held_le⟩
  by_contra hc
  have hn : x ∉ s.alloc.heap p := fun ⟨r, hr, hx'⟩ => hc ⟨r, hr, Region.contains_iff.2 hx'⟩
  rw [hi.unused x (.inl hn)] at hx
  exact absurd hx (lt_irrefl 0)

/-- Two regions, the second below the first; a block of four pages is split off, half of it given back. -/
def sampleOps : List Op :=
  [.addRegion (fun _ => 7) 4096 480, .addRegion (fun _ => 0) 96 320, .allocatePages 3 64, .allocatePagesAt 192 2 0,
    .write 200 99, .deallocatePages 4352 2]

theorem run_regions_sound_sample : ∃ s, Run (step (2 ^ 5)) (Allowed (2 ^ 5)) State.init s ∧
    s.alloc.regions.map (fun r => (r.totalPages, r.freePages)) = [(15, 13), (10, 8)] ∧
    ∀ r ∈ s.alloc.regions, r.Sound (2 ^ 5) s.held := by
  exact (Run.exists_of_exec sampleOps (by decide +kernel)).imp fun s h => ⟨h.1, h.2, (run_regions_sound 5 h.1).1⟩

end XKernel.Buddy
