import XKernel.Mm.Kalloc
/-!
# What leaves and enters the pool

Every call of the caches on the buddy allocator is a flow: some blocks leave the free
pages and some enter them, counted address by address. A refill takes out exactly
the blocks it hands over and parks, because the rounding slack goes back; a drain
puts in exactly the blocks it collected, as long as it merges no blocks of two
regions.
-/

namespace XKernel.Kalloc

open XKernel.Lib XKernel.Lib.Dyadic XKernel.Lib.Cover XKernel.Buddy List

variable {p : Nat} {a a' a'' : BuddyAllocator}

/-! ## Flows -/

/-- From `a` to `a'` the blocks counted by `out` leave the free pages and those counted by `into` enter. -/
structure Flow (p : Nat) (a a' : BuddyAllocator) (out into : Nat → Nat) : Prop where
  wf : a'.Wf p
  extents : a'.regions.map (·.extent p) = a.regions.map (·.extent p)
  count : ∀ x, freeAt (2 ^ p) a' x + out x = freeAt (2 ^ p) a x + into x

/-- The range lies in one region's heap. -/
def InOne (p : Nat) (a : BuddyAllocator) (addr len : Nat) : Prop :=
  ∃ r ∈ a.regions, r.heapStart ≤ addr ∧ addr + len ≤ r.heapEnd (2 ^ p)

variable {addr : Nat}

theorem InOne.of_extents (h : a'.regions.map (·.extent p) = a.regions.map (·.extent p)) {len : Nat}
    (hi : InOne p a addr len) : InOne p a' addr len := by
  obtain ⟨r, hr, hlo, hhi⟩ := hi
  have hm : r.extent p ∈ a'.regions.map (·.extent p) := h ▸ mem_map_of_mem hr
  obtain ⟨r', hr', he⟩ := mem_map.1 hm
  simp only [Region.extent, Prod.mk.injEq] at he
  exact ⟨r', hr', by omega, by omega⟩

theorem InOne.mono {len addr' len' : Nat} (h : InOne p a addr len) (hlo : addr ≤ addr')
    (hhi : addr' + len' ≤ addr + len) : InOne p a addr' len' := by
  obtain ⟨r, hr, h1, h2⟩ := h
  exact ⟨r, hr, by omega, by omega⟩

theorem InOne.of_takes {order : Nat} (h : BuddyAllocator.Takes p order addr a a') :
    InOne p a addr (2 ^ (order + p)) := by
  obtain ⟨r, hr, hsub⟩ := h.region
  have hpos := Nat.two_pow_pos (order + p)
  have h1 := hsub (show addr ∈ span (order + p) addr by simp)
  have h2 := hsub (show addr + 2 ^ (order + p) - 1 ∈ span (order + p) addr by simp only [mem_span]; omega)
  exact ⟨r, hr, h1.1, by have := h2.2; omega⟩

theorem freeAt_of_mem {x : Nat} (h : x ∈ a.free p) : freeAt (2 ^ p) a x = 1 := by
  obtain ⟨r, hr, hx⟩ := h
  exact if_pos (any_eq_true.2 ⟨r, hr, Region.covers_iff.2 hx⟩)

theorem freeAt_of_notMem {x : Nat} (h : x ∉ a.free p) : freeAt (2 ^ p) a x = 0 := by
  refine if_neg fun hany => h ?_
  obtain ⟨r, hr, hx⟩ := any_eq_true.1 hany
  exact ⟨r, hr, Region.covers_iff.1 hx⟩

theorem hits_span {x k : Nat} : (x ∈ span k addr → hits x (addr, 2 ^ k) = 1) ∧
    (x ∉ span k addr → hits x (addr, 2 ^ k) = 0) :=
  ⟨fun h => if_pos h, hits_eq_zero (b := (addr, 2 ^ k))⟩

theorem Flow.of_takes {order : Nat} (h : BuddyAllocator.Takes p order addr a a') :
    Flow p a a' (fun x => hits x (addr, 2 ^ (order + p))) (fun _ => 0) := by
  refine ⟨h.wf, h.extents, fun x => ?_⟩
  by_cases hx : x ∈ span (order + p) addr
  · rw [hits_span.1 hx, freeAt_of_mem (h.sub hx), freeAt_of_notMem (by rw [h.free]; exact fun hc => hc.2 hx)]
  · rw [hits_span.2 hx]
    by_cases hf : x ∈ a.free p
    · rw [freeAt_of_mem hf, freeAt_of_mem (by rw [h.free]; exact ⟨hf, hx⟩)]
    · rw [freeAt_of_notMem hf, freeAt_of_notMem (by rw [h.free]; exact fun hc => hf hc.1)]

theorem Flow.of_gives {order : Nat} (hg : BuddyAllocator.Gives p order addr a a')
    (hused : ∀ x ∈ span (order + p) addr, x ∉ a.free p) :
    Flow p a a' (fun _ => 0) (fun x => hits x (addr, 2 ^ (order + p))) := by
  refine ⟨hg.wf, hg.extents, fun x => ?_⟩
  by_cases hx : x ∈ span (order + p) addr
  · rw [hits_span.1 hx, freeAt_of_notMem (hused x hx), freeAt_of_mem (by rw [hg.free]; exact .inr hx)]
  · rw [hits_span.2 hx]
    by_cases hf : x ∈ a.free p
    · rw [freeAt_of_mem hf, freeAt_of_mem (by rw [hg.free]; exact .inl hf)]
    · rw [freeAt_of_notMem hf, freeAt_of_notMem (by rw [hg.free]; exact fun hc => hc.elim hf hx)]

theorem Flow.trans {o i o' i' : Nat → Nat} (h : Flow p a a' o i) (h' : Flow p a' a'' o' i') :
    Flow p a a'' (fun x => o x + o' x) (fun x => i x + i' x) := by
  refine ⟨h'.wf, h'.extents.trans h.extents, fun x => ?_⟩
  have := h.count x
  have := h'.count x
  omega

/-- Only what leaves minus what enters matters. -/
theorem Flow.congr {o i o' i' : Nat → Nat} (h : Flow p a a' o i) (he : ∀ x, o x + i' x = o' x + i x) :
    Flow p a a' o' i' := by
  refine ⟨h.wf, h.extents, fun x => ?_⟩
  have := h.count x
  have := he x
  omega

theorem Flow.refl (h : a.Wf p) : Flow p a a (fun _ => 0) (fun _ => 0) := ⟨h, rfl, fun _ => rfl⟩

/-! ## Giving ranges back -/

theorem two_pow_trailingZeros_dvd (n x : Nat) : 2 ^ trailingZeros n x ∣ x := by
  induction n generalizing x with
  | zero => exact one_dvd x
  | succ n ih =>
    unfold trailingZeros
    split
    · exact one_dvd x
    · have hx : x = 2 * (x / 2) := by omega
      rw [hx, pow_succ, Nat.mul_comm, Nat.mul_div_cancel_left _ (by decide)]
      exact Nat.mul_dvd_mul_left 2 (ih _)

theorem le_trailingZeros {n k x : Nat} (hk : k ≤ n) (h : 2 ^ k ∣ x) : k ≤ trailingZeros n x := by
  induction n generalizing k x with
  | zero => omega
  | succ n ih =>
    unfold trailingZeros
    cases k with
    | zero => exact Nat.zero_le _
    | succ k =>
      obtain ⟨m, rfl⟩ := h
      have e : 2 ^ (k + 1) * m = 2 * (2 ^ k * m) := by rw [pow_succ]; ring
      rw [e, if_neg (by omega), Nat.mul_div_cancel_left _ (by decide)]
      exact Nat.succ_le_succ (ih (by omega) (Nat.dvd_mul_right _ _))

theorem trailingZeros_two_pow {n p : Nat} (h : p < n) : trailingZeros n (2 ^ p) = p := by
  refine Nat.le_antisymm ?_ (le_trailingZeros h.le (dvd_refl _))
  exact (Nat.pow_dvd_pow_iff_le_right (by decide)).1 (two_pow_trailingZeros_dvd n (2 ^ p))

theorem orderFor_two_pow (k : Nat) : orderFor (2 ^ k) = k := by
  refine Nat.le_antisymm ((orderFor_le_iff _ _).2 le_rfl) ?_
  have := (orderFor_le_iff (2 ^ k) _).1 le_rfl
  exact (Nat.pow_le_pow_iff_right (by decide)).1 this

theorem deallocateChunk_flow (h : a.Wf p) {order : Nat} (ho : order ≤ maxOrder) (hd : 2 ^ (order + p) ∣ addr)
    (hin : InOne p a addr (2 ^ (order + p))) (hused : ∀ x, freeAt (2 ^ p) a x + hits x (addr, 2 ^ (order + p)) ≤ 1) :
    ∃ a', a.deallocatePages (2 ^ p) addr (2 ^ order) = some a' ∧
      Flow p a a' (fun _ => 0) (fun x => hits x (addr, 2 ^ (order + p))) := by
  have hnot : ∀ x ∈ span (order + p) addr, x ∉ a.free p := fun x hx hf => by
    have := hused x
    rw [freeAt_of_mem hf, hits_span.1 hx] at this
    omega
  have hret : BuddyAllocator.Returns p (orderFor (2 ^ order)) addr a := by
    rw [orderFor_two_pow]
    obtain ⟨r, hr, hlo, hhi⟩ := hin
    refine ⟨hd, ⟨r, hr, fun x hx => ?_⟩, hnot⟩
    simp only [mem_span] at hx
    exact ⟨by omega, by omega⟩
  obtain ⟨a', ha', hg⟩ := BuddyAllocator.deallocatePages_gives h (Nat.two_pow_pos order).ne'
    (by rw [orderFor_two_pow]; exact ho) hret
  rw [orderFor_two_pow] at hg
  exact ⟨a', ha', .of_gives hg hnot⟩

theorem chunksFrom_flow (hp : p < wordBits) (fuel : Nat) : ∀ (a : BuddyAllocator) (addr n : Nat), n ≤ fuel →
    n < 2 ^ (maxOrder + 1) → a.Wf p → 2 ^ p ∣ addr → InOne p a addr (n * 2 ^ p) →
    (∀ x, freeAt (2 ^ p) a x + hits x (addr, n * 2 ^ p) ≤ 1) →
    ∃ a', deallocateChunks (2 ^ p) a (chunksFrom (2 ^ p) fuel addr (n * 2 ^ p)) = some a' ∧
      Flow p a a' (fun _ => 0) (fun x => hits x (addr, n * 2 ^ p)) := by
  have nothing : ∀ (a : BuddyAllocator) (addr : Nat), a.Wf p →
      Flow p a a (fun _ => 0) (fun x => hits x (addr, 0 * 2 ^ p)) := fun a addr h =>
    (Flow.refl h).congr fun x => by simp
  induction fuel with
  | zero =>
    intro a addr n hn _ hw _ _ _
    obtain rfl : n = 0 := by omega
    exact ⟨a, rfl, nothing a addr hw⟩
  | succ fuel ih =>
    intro a addr n hn hmax hw hd hin hused
    have hpos := Nat.two_pow_pos p
    rcases Nat.eq_zero_or_pos n with rfl | hn0
    · exact ⟨a, by simp [chunksFrom, deallocateChunks], nothing a addr hw⟩
    simp only [chunksFrom, if_neg (Nat.mul_ne_zero hn0.ne' hpos.ne'), Nat.mul_div_cancel _ hpos,
      trailingZeros_two_pow hp, orderPages]
    -- the chunk chosen is aligned at `addr` and no longer than the range
    generalize ho : min (trailingZeros wordBits addr - p) n.log2 = order
    have hlog : 2 ^ order ≤ n :=
      (Nat.pow_le_pow_right (by decide) (by omega)).trans (Nat.log2_self_le hn0.ne')
    have hal : 2 ^ (order + p) ∣ addr := by
      have := le_trailingZeros hp.le hd
      exact (pow_dvd_pow 2 (by omega)).trans (two_pow_trailingZeros_dvd wordBits addr)
    have hom : order ≤ maxOrder := by
      have := (Nat.pow_lt_pow_iff_right (by decide)).1 (hlog.trans_lt hmax)
      omega
    obtain ⟨m, rfl⟩ := Nat.exists_eq_add_of_le hlog
    have hsplit : (2 ^ order + m) * 2 ^ p = 2 ^ (order + p) + m * 2 ^ p := by rw [Nat.add_mul, ← pow_add]
    simp only [hsplit, hits_add] at hused ⊢
    obtain ⟨a1, ha1, hf1⟩ := deallocateChunk_flow hw hom hal (hin.mono le_rfl (by omega)) fun x => by
      have := hused x
      omega
    have hd' : 2 ^ p ∣ addr + 2 ^ (order + p) := Nat.dvd_add hd (pow_dvd_pow 2 (Nat.le_add_left p order))
    have hin' : InOne p a1 (addr + 2 ^ (order + p)) (m * 2 ^ p) :=
      (hin.mono (Nat.le_add_right _ _) (by omega)).of_extents hf1.extents
    have hused' : ∀ x, freeAt (2 ^ p) a1 x + hits x (addr + 2 ^ (order + p), m * 2 ^ p) ≤ 1 := fun x => by
      have := hused x
      have := hf1.count x
      omega
    have hopos := Nat.two_pow_pos order
    obtain ⟨a2, ha2, hf2⟩ := ih a1 _ m (by omega) (by omega) hf1.wf hd' hin' hused'
    refine ⟨a2, ?_, (hf1.trans hf2).congr fun x => by omega⟩
    rw [← pow_add, Nat.add_sub_cancel_left]
    simp only [deallocateChunks, foldlM_cons, ha1] at ha2 ⊢
    exact ha2

/-- A page range of one heap that is not free goes back as a whole. -/
theorem deallocateRange_flow (hp : p < wordBits) (h : a.Wf p) {n : Nat} (hn : n < 2 ^ (maxOrder + 1))
    (hd : 2 ^ p ∣ addr) (hin : InOne p a addr (n * 2 ^ p))
    (hused : ∀ x, freeAt (2 ^ p) a x + hits x (addr, n * 2 ^ p) ≤ 1) :
    ∃ a', deallocateRange (2 ^ p) a addr (n * 2 ^ p) = some a' ∧
      Flow p a a' (fun _ => 0) (fun x => hits x (addr, n * 2 ^ p)) := by
  obtain ⟨a', ha', hf⟩ := chunksFrom_flow hp n a addr n le_rfl hn h hd hin hused
  refine ⟨a', ?_, hf⟩
  have hsplit : splitToChunks (2 ^ p) addr (n * 2 ^ p) = some (chunksFrom (2 ^ p) n addr (n * 2 ^ p)) := by
    rw [splitToChunks, Nat.mul_mod_left, Nat.mod_eq_zero_of_dvd hd, Nat.mul_div_cancel _ (Nat.two_pow_pos p)]
    rfl
  rw [deallocateRange, hsplit]
  exact ha'

/-! ## Blocks for a cache -/

/-- A block that a cache may park or hand over. -/
structure Fits (p : Nat) (a : BuddyAllocator) (n addr : Nat) : Prop where
  dvd : 2 ^ p ∣ addr
  inOne : InOne p a addr (blockBytes (2 ^ p) n)

theorem Fits.of_extents (h : a'.regions.map (·.extent p) = a.regions.map (·.extent p)) {n : Nat}
    (hf : Fits p a n addr) : Fits p a' n addr :=
  ⟨hf.dvd, hf.inOne.of_extents h⟩

/-- With the rounding slack given back, a request takes exactly its own pages. -/
theorem allocate_returnSlack (hp : p < wordBits) (h : a.Wf p) {n align : Nat}
    (ha : a.allocatePages (2 ^ p) n align = .ok (addr, a')) :
    ∃ a'', returnSlack (2 ^ p) a' addr n = some a'' ∧
      Flow p a a'' (fun x => hits x (addr, blockBytes (2 ^ p) n)) (fun _ => 0) ∧ Fits p a n addr := by
  obtain ⟨ho, ht⟩ := BuddyAllocator.allocatePages_takes h ha
  have hle := (orderFor_le_iff n _).1 le_rfl
  have hf := Flow.of_takes ht
  have hd : 2 ^ p ∣ addr := (pow_dvd_pow 2 (Nat.le_add_left p _)).trans ht.dvd
  have hone := InOne.of_takes ht
  obtain ⟨m, hm⟩ := Nat.exists_eq_add_of_le hle
  have hsplit : 2 ^ (orderFor n + p) = n * 2 ^ p + m * 2 ^ p := by rw [pow_add, hm, Nat.add_mul]
  have hfits : Fits p a n addr := ⟨hd, hone.mono le_rfl (by rw [blockBytes]; omega)⟩
  simp only [returnSlack, hm, Nat.add_sub_cancel_left]
  rw [hsplit] at hf hone
  split
  · rename_i h0
    subst h0
    exact ⟨a', rfl, hf.congr fun x => by simp [blockBytes], hfits⟩
  · have hmax : m < 2 ^ (maxOrder + 1) := by
      have := Nat.pow_le_pow_right (n := 2) (by decide) ho
      omega
    have hin : InOne p a' (addr + n * 2 ^ p) (m * 2 ^ p) :=
      (hone.mono (Nat.le_add_right _ _) (by omega)).of_extents hf.extents
    obtain ⟨a'', ha'', hf'⟩ := deallocateRange_flow hp hf.wf hmax
      (Nat.dvd_add hd (Nat.dvd_mul_left _ _)) hin fun x => by
        have := hf.count x
        have : freeAt (2 ^ p) a x ≤ 1 := by unfold freeAt; split <;> omega
        rw [hits_add] at *
        omega
    refine ⟨a'', ha'', (hf.trans hf').congr fun x => ?_, hfits⟩
    rw [hits_add, blockBytes]
    omega

end XKernel.Kalloc
