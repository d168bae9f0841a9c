import XKernel.Mm.KallocCache
/-!
# Pages are conserved, except for rounded blocks of three pages

`alloc_pages(3, align)` with more than page alignment and `alloc_pages_at(va, 3, _)`
are answered by the buddy allocator with four pages, but `dealloc_pages(va, 3)`
parks three: the fourth page is lost. In a run without such a request, and in which
no drain merges blocks across the border of two abutting regions, every heap page
is at any time available once or held by one caller.
-/

namespace XKernel.Kalloc

open XKernel.Lib XKernel.Lib.Dyadic XKernel.Lib.Cover XKernel.Buddy List State BuddyAllocator Function Option

/-! ## A page is lost -/

/-- A block of three pages with 8 KiB alignment is allocated and given back. -/
theorem page_lost_sample : ∃ s, Run (step (2 ^ 12)) (Matched 1 (2 ^ 12)) init s ∧ s.live = [] ∧
    Lost 1 (2 ^ 12) s (65536 + 3 * 4096) := by
  exact Run.exists_of_exec [.addRegion (fun _ => 0) 65536 65536, .allocSlow 3 8192, .tryFree 0 65536 3]
    (by decide +kernel)

/-! ## The invariant -/

/-- No request of three pages is answered with four, and no drain merges blocks of two regions. -/
def Exact (ps : Nat) (s : State) : Op → Prop
  | .allocSlow n _ | .allocPagesAt _ n _ => n ≠ 3
  | .drainCache cpu va n =>
    tryPush n (s.cache (cpu, n)) va = none → Seamless ps n s.palloc (drained n va (s.cache (cpu, n)))
  | _ => True

instance (ps : Nat) (s : State) (op : Op) : Decidable (Exact ps s op) :=
  match op with
  | .allocSlow n _ | .allocPagesAt _ n _ => inferInstanceAs (Decidable (n ≠ 3))
  | .drainCache .. => inferInstanceAs (Decidable (_ → Seamless _ _ _ _))
  | .addRegion .. | .tryAlloc .. | .fillCache .. | .allocDmaPages .. | .tryFree .. | .deallocSlow ..
  | .deallocDmaPages .. => .isTrue trivial

variable {ncpu p : Nat} {s s' : State}

/-- A block in a caller's hands can be given back the way `dealloc_pages` and `dealloc_dma_pages` do it. -/
structure Returnable (p : Nat) (a : BuddyAllocator) (b : Block) : Prop where
  pos : 0 < b.pages
  dvd : 2 ^ p ∣ b.addr
  inOne : InOne p a b.addr (b.taken * 2 ^ p)
  cached : pcpServes b.pages → b.dma = false → b.taken = b.pages
  whole : ¬ (pcpServes b.pages ∧ b.dma = false) →
    b.taken = 2 ^ orderFor b.pages ∧ 2 ^ (orderFor b.pages + p) ∣ b.addr ∧ orderFor b.pages ≤ maxOrder

structure Inv (ncpu p : Nat) (s : State) : Prop where
  wf : s.palloc.Wf p
  conserved : Conserved ncpu (2 ^ p) s
  parked : ∀ k ∈ cacheKeys ncpu, ∀ b ∈ s.cache k, Fits p s.palloc k.2 b
  bounded : ∀ k ∈ cacheKeys ncpu, (s.cache k).length ≤ capacity k.2
  lent : ∀ b ∈ s.live, Returnable p s.palloc b

variable {a a' : BuddyAllocator} {b : Block}

theorem Returnable.of_extents (h : a'.regions.map (·.extent p) = a.regions.map (·.extent p))
    (hb : Returnable p a b) : Returnable p a' b :=
  { hb with inOne := hb.inOne.of_extents h }

variable {n : Nat}

theorem mem_cacheKeys {cpu : Nat} (hc : cpu < ncpu) (hn : pcpServes n) : (cpu, n) ∈ cacheKeys ncpu := by
  simp only [cacheKeys, Finset.mem_product, Finset.mem_range, Finset.mem_Icc]
  exact ⟨hc, hn⟩

/-- The addresses of the heaps, as a number. -/
def heapAt (ps : Nat) (s : State) (x : Nat) : Nat := if s.palloc.regions.any (·.contains ps x) then 1 else 0

theorem heapAt_of_extents {s s' : State}
    (h : s'.palloc.regions.map (·.extent p) = s.palloc.regions.map (·.extent p)) (x : Nat) :
    heapAt (2 ^ p) s' x = heapAt (2 ^ p) s x := by
  have key : ∀ t : State, (t.palloc.regions.any fun r => r.contains (2 ^ p) x) =
      (t.palloc.regions.map (·.extent p)).any fun e => decide (e.2.1 ≤ x) && decide (x < e.2.2) := fun t => by
    rw [List.any_map]
    rfl
  unfold heapAt
  rw [key, key, h]

variable {out into : Nat → Nat}

/-- What leaves the pool is parked or lent, and what was parked or lent enters it. -/
theorem Inv.of_flow (s' : State) (h : Inv ncpu p s) (hf : Flow p s.palloc s'.palloc out into)
    (hcount : ∀ x, s'.parkedAt ncpu (2 ^ p) x + s'.lentAt (2 ^ p) x + into x =
      s.parkedAt ncpu (2 ^ p) x + s.lentAt (2 ^ p) x + out x)
    (hparked : ∀ k ∈ cacheKeys ncpu, (∀ b ∈ s'.cache k, Fits p s.palloc k.2 b) ∧ (s'.cache k).length ≤ capacity k.2)
    (hlent : ∀ b ∈ s'.live, Returnable p s.palloc b) : Inv ncpu p s' where
  wf := hf.wf
  conserved x := by
    have hc := h.conserved x
    have hx := hf.count x
    have hn := hcount x
    have he : heapAt (2 ^ p) s' x = heapAt (2 ^ p) s x := heapAt_of_extents hf.extents x
    unfold availableAt heapAt at *
    omega
  parked k hk b hb := ((hparked k hk).1 b hb).of_extents hf.extents
  bounded k hk := (hparked k hk).2
  lent b hb := (hlent b hb).of_extents hf.extents

/-! ## Caches and hands -/

/-- What callers hold of `x`. -/
def lentBlocks (ps : Nat) (live : List Block) (x : Nat) : Nat := total x (live.map fun b => (b.addr, b.taken * ps))

theorem lentBlocks_cons (b : Block) (l : List Block) (x : Nat) :
    lentBlocks (2 ^ p) (b :: l) x = hits x (b.addr, b.taken * 2 ^ p) + lentBlocks (2 ^ p) l x := by
  simp [lentBlocks]

variable {a : BuddyAllocator} {live : List Block}

/-- One cache and the live blocks change together with the pool. -/
theorem Inv.parks (h : Inv ncpu p s) {k : Nat × Nat} (hk : k ∈ cacheKeys ncpu) {l : List Nat}
    (hf : Flow p s.palloc a out into)
    (hl : ∀ b ∈ l, Fits p s.palloc k.2 b) (hlen : l.length ≤ capacity k.2) (hlive : ∀ b ∈ live, Returnable p s.palloc b)
    (hcount : ∀ x, total x (blocks (blockBytes (2 ^ p) k.2) l) + lentBlocks (2 ^ p) live x + into x =
      total x (blocks (blockBytes (2 ^ p) k.2) (s.cache k)) + lentBlocks (2 ^ p) s.live x + out x) :
    Inv ncpu p ⟨a, update s.cache k l, live⟩ := by
  refine h.of_flow ⟨a, update s.cache k l, live⟩ hf (fun x => ?_) (fun k' hk' => ?_) hlive
  · have hp := sum_update (fun (k : Nat × Nat) l => total x (blocks (blockBytes (2 ^ p) k.2) l)) s.cache hk l
    have hc := hcount x
    unfold parkedAt lentAt
    unfold lentBlocks at hc
    simp only at hp ⊢
    omega
  · by_cases he : k' = k
    · subst he
      simp only [update_self]
      exact ⟨hl, hlen⟩
    · simp only [update_of_ne he]
      exact ⟨h.parked k' hk', h.bounded k' hk'⟩

/-- The live blocks change together with the pool. -/
theorem Inv.update_live (h : Inv ncpu p s)
    (hf : Flow p s.palloc a out into) (hlive : ∀ b ∈ live, Returnable p s.palloc b)
    (hcount : ∀ x, lentBlocks (2 ^ p) live x + into x = lentBlocks (2 ^ p) s.live x + out x) :
    Inv ncpu p { s with palloc := a, live := live } := by
  refine h.of_flow ⟨a, s.cache, live⟩ hf (fun x => ?_) (fun k hk => ⟨h.parked k hk, h.bounded k hk⟩) hlive
  have hc := hcount x
  unfold parkedAt lentAt
  unfold lentBlocks at hc
  simp only
  omega

variable {va n : Nat} {dma : Bool}

/-- The block that is given back leaves the list of live blocks. -/
theorem exists_drop (p : Nat) (h : s.live.any (Block.is va n dma) = true) :
    ∃ b ∈ s.live, b.addr = va ∧ b.pages = n ∧ b.dma = dma ∧
      ∀ x, lentBlocks (2 ^ p) s.live x = hits x (va, b.taken * 2 ^ p) + lentBlocks (2 ^ p)
        (s.drop va n dma).live x := by
  obtain ⟨b0, hb0, hp0⟩ := any_eq_true.1 h
  obtain ⟨b, l1, l2, -, hb, hl, he⟩ := exists_of_eraseP hb0 hp0
  simp only [Block.is, Bool.and_eq_true, beq_iff_eq] at hb
  refine ⟨b, by rw [hl]; simp, hb.1.1, hb.1.2, hb.2, fun x => ?_⟩
  simp only [lentBlocks, State.drop, he]
  rw [hl, ← hb.1.1]
  simp only [map_append, map_cons, total_append, total_cons]
  omega

theorem mem_of_mem_drop (h : b ∈ (s.drop va n dma).live) : b ∈ s.live :=
  mem_of_mem_eraseP h

theorem Fits.returnable {addr : Nat} (hn : pcpServes n) (h : Fits p s.palloc n addr) :
    Returnable p s.palloc ⟨addr, n, n, false⟩ :=
  ⟨hn.1, h.dvd, h.inOne, fun _ _ => rfl, fun hc => absurd ⟨hn, rfl⟩ hc⟩

theorem Inv.returnable_cons (h : Inv ncpu p s) (hb : Returnable p s.palloc b) :
    ∀ c ∈ b :: s.live, Returnable p s.palloc c := forall_mem_cons.2 ⟨hb, h.lent⟩

/-! ## One lemma for each critical section -/

variable {addrs : List Nat}

section

variable (h : Inv ncpu p s)
include h

theorem Inv.pop {cpu addr : Nat} (hc : cpu < ncpu) (hn : pcpServes n)
    (hs : s.cache (cpu, n) = addr :: addrs) :
    Inv ncpu p ({ s with cache := update s.cache (cpu, n) addrs }.hand addr n n false) := by
  have hk := mem_cacheKeys hc hn
  have hfit := h.parked _ hk
  have hlen := h.bounded _ hk
  rw [hs] at hfit hlen
  refine h.parks hk (.refl h.wf) (fun b hb => hfit b (mem_cons_of_mem _ hb)) (Nat.le_of_succ_le hlen)
    (h.returnable_cons ((hfit addr mem_cons_self).returnable hn)) fun x => ?_
  rw [hs, lentBlocks_cons, blocks_cons, total_cons]
  simp only [blockBytes]
  omega

theorem Inv.refill (hp : p < wordBits) {cpu : Nat}
    {res : Except AllocError Nat} (hc : cpu < ncpu) (hn : pcpServes n) (hs : s.cache (cpu, n) = [])
    (hr : refill (2 ^ p) n s.palloc [] = some (res, a, addrs)) :
    match res with
    | .ok addr => Inv ncpu p (hand ⟨a, update s.cache (cpu, n) addrs, s.live⟩ addr n n false)
    | .error _ => Inv ncpu p ⟨a, update s.cache (cpu, n) addrs, s.live⟩ := by
  have hk := mem_cacheKeys hc hn
  obtain ⟨res', a', new, he, hlen, hfit, hres⟩ := refill_flow hp h.wf n
  rw [hr, some.injEq, Prod.mk.injEq, Prod.mk.injEq] at he
  obtain ⟨rfl, rfl, rfl⟩ := he
  cases res with
  | ok =>
    obtain ⟨hbase, hf⟩ := hres
    refine h.parks hk hf hfit hlen (h.returnable_cons (hbase.returnable hn)) fun x => ?_
    rw [hs, lentBlocks_cons, blocks_cons, total_cons, blocks_nil, total_nil]
    simp only [blockBytes]
    omega
  | error =>
    obtain ⟨rfl, rfl⟩ := hres
    refine h.parks hk (.refl h.wf) hfit hlen h.lent fun x => ?_
    rw [hs]

theorem Inv.fromBuddy {addr : Nat} (hn : n ≠ 0)
    (ho : orderFor n ≤ maxOrder) (ht : BuddyAllocator.Takes p (orderFor n) addr s.palloc a) (h3 : dma = false → n ≠ 3) :
    Inv ncpu p (s.fromBuddy n dma (.ok (addr, a))) := by
  refine h.update_live (.of_takes ht) (h.returnable_cons ⟨Nat.pos_of_ne_zero hn,
    (pow_dvd_pow 2 (Nat.le_add_left p _)).trans ht.dvd, ?_, fun hs hd => ?_, fun _ => ⟨rfl, ht.dvd, ho⟩⟩) fun x => ?_
  · rw [← pow_add]
    exact .of_takes ht
  · -- of one to four pages, only three are rounded
    have hcases : n = 1 ∨ n = 2 ∨ n = 4 := by
      have h4 : n ≤ 4 := hs.2
      have := h3 hd
      omega
    rcases hcases with rfl | rfl | rfl <;> rfl
  · rw [lentBlocks_cons, pow_add]
    simp only
    omega

theorem Inv.push {cpu va : Nat} (hc : cpu < ncpu) (hn : pcpServes n)
    (hl : s.live.any (Block.is va n false) = true) (hp : tryPush n (s.cache (cpu, n)) va = some addrs) :
    Inv ncpu p ({ s with cache := update s.cache (cpu, n) addrs }.drop va n false) := by
  have hk := mem_cacheKeys hc hn
  obtain ⟨b, hb, rfl, rfl, hdma, hlent⟩ := exists_drop p hl
  have hret := h.lent b hb
  have htaken := hret.cached hn hdma
  unfold tryPush at hp
  split at hp
  · cases hp
  obtain rfl := some.inj hp
  have hfits : Fits p s.palloc b.pages b.addr := ⟨hret.dvd, by rw [blockBytes, ← htaken]; exact hret.inOne⟩
  refine h.parks hk (.refl h.wf) (forall_mem_cons.2 ⟨hfits, h.parked _ hk⟩) (by simp only [length_cons]; omega)
    (fun c hc => h.lent c (mem_of_mem_drop hc)) fun x => ?_
  have := hlent x
  rw [htaken] at this
  simp only [blocks_cons, total_cons, blockBytes, State.drop] at this ⊢
  omega

theorem Inv.drain (hp : p < wordBits) {cpu va : Nat} (hc : cpu < ncpu) (hn : pcpServes n)
    (hl : s.live.any (Block.is va n false) = true)
    (hs : Seamless (2 ^ p) n s.palloc (drained n va (s.cache (cpu, n)))) :
    ∃ a addrs, drain (2 ^ p) n s.palloc (s.cache (cpu, n)) va = some (a, addrs) ∧
      Inv ncpu p (State.drop ⟨a, update s.cache (cpu, n) addrs, s.live⟩ va n false) := by
  have hk := mem_cacheKeys hc hn
  obtain ⟨b, hb, rfl, rfl, hdma, hlent⟩ := exists_drop p hl
  have hret := h.lent b hb
  have htaken := hret.cached hn hdma
  simp only [htaken] at hlent
  have hfit : ∀ c ∈ drained b.pages b.addr (s.cache (cpu, b.pages)), Fits p s.palloc b.pages c := by
    refine forall_mem_cons.2 ⟨⟨hret.dvd, ?_⟩, fun c hc => h.parked _ hk c (mem_of_mem_take hc)⟩
    rw [blockBytes, ← htaken]
    exact hret.inOne
  have hcut : ∀ x, total x (blocks (blockBytes (2 ^ p) b.pages) (s.cache (cpu, b.pages))) =
      total x (blocks (blockBytes (2 ^ p) b.pages) ((s.cache (cpu, b.pages)).take (batch b.pages))) +
      total x (blocks (blockBytes (2 ^ p) b.pages) ((s.cache (cpu, b.pages)).drop (batch b.pages))) := fun x => by
    rw [← total_append, ← blocks_append, take_append_drop]
  -- the collected blocks are parked or lent, so they are not free
  have hused : ∀ x, freeAt (2 ^ p) s.palloc x +
      total x (blocks (blockBytes (2 ^ p) b.pages) (drained b.pages b.addr (s.cache (cpu, b.pages)))) ≤ 1 := fun x => by
    have hcons := h.conserved x
    have hpark := Finset.single_le_sum
      (f := fun k => total x (blocks (blockBytes (2 ^ p) k.2) (s.cache k))) (fun _ _ => Nat.zero_le _) hk
    have := hlent x
    have := hcut x
    simp only [drained, blocks_cons, total_cons, State.availableAt, State.parkedAt, State.lentAt, lentBlocks,
      blockBytes] at *
    split at hcons <;> omega
  obtain ⟨a, ha, hf⟩ := drain_flow hp h.wf hn hs hfit hused
  refine ⟨a, _, ha, h.parks hk hf (fun c hc => h.parked _ hk c (List.mem_of_mem_drop hc)) ?_
    (fun c hc => h.lent c (mem_of_mem_drop hc)) fun x => ?_⟩
  · rw [length_drop]
    exact (Nat.sub_le _ _).trans (h.bounded _ hk)
  · have := hlent x
    have := hcut x
    simp only [drained, blocks_cons, total_cons, State.drop, blockBytes] at *
    omega

theorem Inv.deallocate (hn : ¬ (pcpServes n ∧ dma = false))
    (hl : s.live.any (Block.is va n dma) = true) :
    ∃ a, s.palloc.deallocatePages (2 ^ p) va n = some a ∧ Inv ncpu p ({ s with palloc := a }.drop va n dma) := by
  obtain ⟨b, hb, rfl, rfl, rfl, hlent⟩ := exists_drop p hl
  have hret := h.lent b hb
  obtain ⟨htaken, hd, ho⟩ := hret.whole hn
  have hlent' : ∀ x, lentBlocks (2 ^ p) s.live x =
      hits x (b.addr, 2 ^ (orderFor b.pages + p)) + lentBlocks (2 ^ p) (s.drop b.addr b.pages b.dma).live x := by
    simpa only [htaken, ← pow_add] using hlent
  have hnot : ∀ x ∈ span (orderFor b.pages + p) b.addr, x ∉ s.palloc.free p := fun x hx hfree => by
    have hcons := h.conserved x
    have := hlent' x
    simp only [State.availableAt, freeAt_of_mem hfree, hits_span.1 hx, State.lentAt, lentBlocks] at *
    split at hcons <;> omega
  have hback : BuddyAllocator.Returns p (orderFor b.pages) b.addr s.palloc := by
    refine ⟨hd, ?_, hnot⟩
    obtain ⟨r, hr, hlo, hhi⟩ := hret.inOne
    rw [htaken, ← pow_add] at hhi
    refine ⟨r, hr, fun x hx => ?_⟩
    simp only [mem_span] at hx
    exact ⟨by omega, by omega⟩
  obtain ⟨a, ha, hg⟩ := deallocatePages_gives h.wf hret.pos.ne' ho hback
  refine ⟨a, ha, h.update_live (.of_gives hg hnot) (fun c hc => h.lent c (mem_of_mem_drop hc)) fun x => ?_⟩
  have := hlent' x
  simp only [State.drop] at this ⊢
  omega

theorem Inv.addRegion {mem : Nat → Nat} {base size : Nat}
    (ha : s.palloc.addRegion (2 ^ p) mem base size = .ok a) : Inv ncpu p { s with palloc := a } := by
  obtain ⟨hw, r, hr, hfree⟩ := addRegion_spec h.wf ha
  have hone : ∀ {addr len}, InOne p s.palloc addr len → InOne p a addr len := fun ⟨q, hq, hi⟩ =>
    ⟨q, by rw [hr]; exact mem_append_left _ hq, hi⟩
  refine ⟨hw, fun x => ?_, fun k hk b hb => ?_, h.bounded,
    fun b hb => { h.lent b hb with inOne := hone (h.lent b hb).inOne }⟩
  · have hx := h.conserved x
    obtain rfl : a = ⟨s.palloc.regions ++ r :: []⟩ := by rw [← hr]
    simp only [availableAt, parkedAt, lentAt, any_append, any_cons, any_nil,
      Bool.or_false, freeAt] at hx ⊢
    by_cases hnew : x ∈ r.heap p
    · -- a new page was neither free, parked nor lent, and is free now
      have hold : (s.palloc.regions.any fun r => r.contains (2 ^ p) x) = false := by
        rw [← Bool.not_eq_true, List.any_eq_true]
        rintro ⟨q, hq, hc⟩
        exact hw.unique hnew ⟨q, by simpa using hq, Region.contains_iff.1 hc⟩
      have hcov : r.covers (2 ^ p) x = true := Region.covers_iff.2 (by rw [hfree]; exact hnew)
      simp only [hold, Bool.false_eq_true, if_false, hcov, Region.contains_iff.2 hnew, Bool.or_true] at hx ⊢
      omega
    · have hcov : r.covers (2 ^ p) x = false := by
        rw [← Bool.not_eq_true, Region.covers_iff, hfree]
        exact hnew
      have hcon : r.contains (2 ^ p) x = false := by rwa [← Bool.not_eq_true, Region.contains_iff]
      simpa only [hcov, hcon, Bool.or_false] using hx
  · exact ⟨(h.parked k hk b hb).dvd, hone (h.parked k hk b hb).inOne⟩

end

/-! ## Runs -/

theorem Inv.init (ncpu p : Nat) : Inv ncpu p State.init := by
  refine ⟨⟨by simp [State.init, empty], by simp [State.init, empty],
    by simp [State.init, empty], by simp [State.init, empty]⟩, fun x => ?_,
    by simp [State.init], by simp [State.init], by simp [State.init]⟩
  simp [State.availableAt, State.parkedAt, State.lentAt, freeAt, State.init, empty]

theorem allocatePages_ok (h : a.Wf p) {align addr : Nat}
    (ha : a.allocatePages (2 ^ p) n align = .ok (addr, a')) :
    n ≠ 0 ∧ orderFor n ≤ maxOrder ∧ BuddyAllocator.Takes p (orderFor n) addr a a' := by
  refine ⟨?_, allocatePages_takes h ha⟩
  rintro rfl
  simp [allocatePages] at ha

theorem Inv.of_slow (h : Inv ncpu p s) {res : Except AllocError (Nat × BuddyAllocator)}
    (hn : ∀ addr a, res = .ok (addr, a) → n ≠ 0 ∧ orderFor n ≤ maxOrder ∧
      BuddyAllocator.Takes p (orderFor n) addr s.palloc a) (h3 : dma = false → n ≠ 3) :
    Inv ncpu p (s.fromBuddy n dma res) := by
  cases res with
  | error => exact h
  | ok r =>
    obtain ⟨h0, ho, ht⟩ := hn r.1 r.2 rfl
    exact h.fromBuddy h0 ho ht h3

theorem Inv.step (h : Inv ncpu p s) (hp : p < wordBits) {op : Op} (hm : Matched ncpu (2 ^ p) s op)
    (he : Exact (2 ^ p) s op) (hs : step (2 ^ p) s op = some s') : Inv ncpu p s' := by
  cases op with simp only [Kalloc.step] at hs
  | addRegion =>
    split at hs
    · rename_i ha
      obtain rfl := some.inj hs
      exact h.addRegion ha
    · exact some.inj hs ▸ h
  | tryAlloc cpu n =>
    cases hc : s.cache (cpu, n) with
    | nil =>
      rw [hc] at hs
      exact some.inj hs ▸ h
    | cons =>
      rw [hc] at hs
      obtain rfl := some.inj hs
      exact h.pop hm.1 hm.2 hc
  | fillCache cpu n =>
    simp only [bind_eq_bind, bind_eq_some_iff, Prod.exists] at hs
    obtain ⟨res, a, addrs, hfill, hs⟩ := hs
    unfold cacheAlloc at hfill
    cases hc : s.cache (cpu, n) with
    | nil =>
      rw [hc] at hfill
      have hi := h.refill hp hm.1 hm.2 hc hfill
      cases res with
      | ok => exact some.inj hs ▸ hi
      | error => exact some.inj hs ▸ hi
    | cons =>
      rw [hc] at hfill
      obtain ⟨rfl, rfl, rfl⟩ := hfill
      exact some.inj hs ▸ h.pop hm.1 hm.2 hc
  | allocSlow =>
    obtain rfl := some.inj hs
    exact h.of_slow (fun addr a ha => allocatePages_ok h.wf ha) fun _ => he
  | allocPagesAt =>
    obtain rfl := some.inj hs
    refine h.of_slow (fun addr a ha => ⟨?_, allocatePagesAt_takes h.wf ha⟩) fun _ => he
    rintro rfl
    simp [allocatePagesAt] at ha
  | allocDmaPages =>
    obtain rfl := some.inj hs
    exact h.of_slow (fun addr a ha => allocatePages_ok h.wf ha) Bool.noConfusion
  | tryFree =>
    split at hs
    · rename_i hpush
      obtain rfl := some.inj hs
      exact h.push hm.1 hm.2.1 hm.2.2 hpush
    · exact some.inj hs ▸ h
  | drainCache cpu va n =>
    simp only [bind_eq_bind, bind_eq_some_iff, Prod.exists] at hs
    obtain ⟨a, addrs, hd, hs⟩ := hs
    unfold cacheDealloc at hd
    cases hpush : tryPush n (s.cache (cpu, n)) va with
    | some =>
      rw [hpush] at hd
      obtain ⟨rfl, rfl⟩ := hd
      exact some.inj hs ▸ h.push hm.1 hm.2.1 hm.2.2 hpush
    | none =>
      rw [hpush] at hd
      obtain ⟨a', addrs', hd', hi⟩ := h.drain hp hm.1 hm.2.1 hm.2.2 (he hpush)
      simp only [hd'] at hd
      obtain ⟨rfl, rfl⟩ := hd
      exact some.inj hs ▸ hi
  | deallocSlow =>
    obtain ⟨a, ha, hi⟩ := h.deallocate (fun hc => hm.1 hc.1) hm.2
    simp only [ha] at hs
    exact some.inj hs ▸ hi
  | deallocDmaPages va n =>
    have hdma : ¬ (pcpServes n ∧ true = false) := fun hc => Bool.noConfusion hc.2
    obtain ⟨a, ha, hi⟩ := h.deallocate hdma hm
    simp only [ha] at hs
    exact some.inj hs ▸ hi

/-- In a run of matched calls in which no request of three pages is rounded and no drain crosses from one region
into another, every heap page is available once or held by one caller. -/
theorem run_conserved (ncpu : Nat) {s : State}
    (h : Run (step (2 ^ 12)) (fun s op => Matched ncpu (2 ^ 12) s op ∧ Exact (2 ^ 12) s op) init s) :
    Conserved ncpu (2 ^ 12) s :=
  (h.inv (Inv ncpu 12) (Inv.init ncpu 12) fun _ _ _ hi hok hs => hi.step (by decide) hok.1 hok.2 hs).conserved

/-- A run with a refill on each of two CPUs, blocks of three pages among them, a drain and a large request. -/
theorem run_conserved_sample : ∃ s, Run (step (2 ^ 12))
      (fun s op => Matched 2 (2 ^ 12) s op ∧ Exact (2 ^ 12) s op) init s ∧
    (s.cache (0, 2)).length = 2 ∧ s.live.length = 3 ∧ Conserved 2 (2 ^ 12) s := by
  exact (Run.exists_of_exec (p := fun s : State => (s.cache (0, 2)).length = 2 ∧ s.live.length = 3)
    [.addRegion (fun _ => 0) 65536 524288, .fillCache 0 2, .tryAlloc 0 2, .tryAlloc 0 2, .tryAlloc 0 2, .fillCache 0 2,
      .fillCache 1 3, .tryFree 0 524288 2, .tryFree 0 532480 2, .tryFree 0 540672 2, .drainCache 0 548864 2,
      .allocSlow 5 8192] (by decide +kernel)).imp fun s h => ⟨h.1, h.2.1, h.2.2, run_conserved 2 h.1⟩

end XKernel.Kalloc
