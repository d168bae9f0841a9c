import XKernel.Lib.Cover
import XKernel.Lib.Dyadic
import XKernel.Mm.Buddy
/-!
# What the region operations keep

A region's free chunks are a set of aligned blocks in the sense of `Lib.Dyadic`,
counted in bytes: a chunk of order `i` with pages of `2 ^ p` bytes is a block of
order `i + p`. `Wf` says that lists, headers, bitmap and counter describe one
packing of the heap. Allocation takes one block out of the pages the chunks cover
(`Takes`), deallocation puts one back (`Gives`), and both keep the chunks coalesced.
-/

namespace XKernel.Buddy

open XKernel.Lib XKernel.Lib.Dyadic Function List

theorem orderSize_two_pow (p k : Nat) : orderSize (2 ^ p) k = 2 ^ (k + p) := by
  rw [orderSize, orderPages, pow_add]

theorem mem_orders {o i : Nat} (h : o ≤ maxOrder) : i ∈ orders o ↔ o ≤ i ∧ i ≤ maxOrder := by
  simp only [orders, mem_range'_1]
  omega

theorem orderFor_le_iff (count k : Nat) : orderFor count ≤ k ↔ count ≤ 2 ^ k := by
  have hpos := Nat.two_pow_pos k
  unfold orderFor
  split
  · simp only [Nat.zero_le, true_iff]; omega
  · rw [Nat.succ_le_iff, Nat.log2_lt (by omega)]; omega

/-- The order of a request is the ceiling of the binary logarithm of its page count. -/
theorem orderFor_eq_clog (count : Nat) : orderFor count = Nat.clog 2 count := by
  refine eq_of_forall_ge_iff fun k => ?_
  rw [orderFor_le_iff, Nat.clog_le_iff_le_pow (by decide)]

/-! ## The bitmap -/

namespace FreeHeadBitmap

theorem contains_eq (b : FreeHeadBitmap) (page : Nat) :
    b.contains page = (b.word (page / wordBits)).getLsbD (page % wordBits) := by
  have hlt : page % wordBits < 64 := Nat.mod_lt _ (by decide)
  unfold contains
  generalize b.word (page / wordBits) = w
  generalize page % wordBits = i at hlt
  rw [← BitVec.twoPow_eq, BitVec.and_twoPow]
  cases h : w.getLsbD i with
  | false => rfl
  | true =>
    have hne : BitVec.twoPow 64 i ≠ 0 := fun he => by simpa [hlt] using congrArg (·.getLsbD i) he
    simpa using hne

theorem contains_set (b : FreeHeadBitmap) (page page' : Nat) (v : Bool) :
    (b.set page v).contains page' = if page' = page then v else b.contains page' := by
  have hlt : page' % wordBits < 64 := Nat.mod_lt _ (by decide)
  have hlt' : page % wordBits < 64 := Nat.mod_lt _ (by decide)
  have hdm := Nat.div_add_mod page wordBits
  have hdm' := Nat.div_add_mod page' wordBits
  rw [contains_eq, contains_eq]
  simp only [set, ← BitVec.twoPow_eq]
  by_cases hw : page' / wordBits = page / wordBits
  · rw [hw, update_self]
    have hm : page' = page ↔ page' % wordBits = page % wordBits :=
      ⟨fun h => by rw [h], fun h => by rw [← hdm, ← hdm', hw, h]⟩
    cases v <;> by_cases he : page' % wordBits = page % wordBits <;> simp [hm, he, hlt, hlt']
  · rw [update_of_ne hw, if_neg (fun h => hw (by rw [h]))]

end FreeHeadBitmap

/-! ## Free chunks as aligned blocks -/

namespace Region

variable {p : Nat} {r r' : Region}

/-- The chunks linked in the free lists, as blocks of bytes. -/
def family (p : Nat) (r : Region) : Set (Nat × Nat) :=
  {b | ∃ i, i ≤ maxOrder ∧ b.1 = i + p ∧ b.2 ∈ r.freeLists i}

variable {i a : Nat}

theorem mem_family : (i + p, a) ∈ r.family p ↔ i ≤ maxOrder ∧ a ∈ r.freeLists i := by
  constructor
  · rintro ⟨j, hj, he, ha⟩
    simp only [Nat.add_right_cancel_iff] at he
    exact he ▸ ⟨hj, ha⟩
  · rintro ⟨hi, ha⟩
    exact ⟨i, hi, rfl, ha⟩

/-- The bytes of the free pages. -/
def free (p : Nat) (r : Region) : Set Nat := cover (r.family p)

/-- Whether an address lies in a chunk of the free lists. -/
def covers (ps : Nat) (r : Region) (x : Nat) : Bool :=
  (List.range (maxOrder + 1)).any fun i => (r.freeLists i).any fun a => a ≤ x && x < a + orderSize ps i

theorem covers_iff {x : Nat} : r.covers (2 ^ p) x = true ↔ x ∈ r.free p := by
  simp only [covers, any_eq_true, mem_range, Bool.and_eq_true, decide_eq_true_eq, orderSize_two_pow]
  constructor
  · rintro ⟨i, hi, a, ha, hx⟩
    exact ⟨(i + p, a), mem_family.2 ⟨by omega, ha⟩, hx⟩
  · rintro ⟨⟨k, a⟩, ⟨i, hi, rfl, ha⟩, hx⟩
    exact ⟨i, by omega, a, ha, hx⟩

/-- The pages of the chunks in the free lists. -/
def chunkPages (lists : Nat → List Nat) : Nat :=
  ∑ i ∈ Finset.range (maxOrder + 1), (lists i).length * orderPages i

/-- Lists, headers, bitmap and counter describe one packing of the heap. -/
structure Wf (p : Nat) (r : Region) : Prop where
  heap_dvd : 2 ^ p ∣ r.heapStart
  packing : Packing (r.family p)
  inside : ∀ b ∈ r.family p, r.heapStart ≤ b.2 ∧ b.2 + 2 ^ b.1 ≤ r.heapEnd (2 ^ p)
  nodup : ∀ i ≤ maxOrder, (r.freeLists i).Nodup
  header : ∀ i ≤ maxOrder, ∀ a ∈ r.freeLists i, r.header a = i
  bitmap : ∀ page < r.totalPages, r.freeHeads.contains page = true ↔
    ∃ i ≤ maxOrder, r.heapStart + page * 2 ^ p ∈ r.freeLists i
  count : r.freePages = chunkPages r.freeLists

/-- No two free halves of one chunk. -/
def Merged (p : Nat) (r : Region) : Prop := Coalesced (maxOrder + p) (r.family p)

/-- The same heap, whatever is free in it. -/
structure SameHeap (r r' : Region) : Prop where
  region : r'.regionStart = r.regionStart
  start : r'.heapStart = r.heapStart
  pages : r'.totalPages = r.totalPages

theorem SameHeap.refl (r : Region) : r.SameHeap r := ⟨rfl, rfl, rfl⟩

theorem SameHeap.trans {r1 r2 r3 : Region} (h : r1.SameHeap r2) (h' : r2.SameHeap r3) : r1.SameHeap r3 :=
  ⟨h'.region.trans h.region, h'.start.trans h.start, h'.pages.trans h.pages⟩

theorem SameHeap.heapEnd (h : r.SameHeap r') (ps : Nat) : r'.heapEnd ps = r.heapEnd ps := by
  simp only [Region.heapEnd, h.start, h.pages]

/-- An aligned block of the heap that no free chunk meets. -/
structure Hole (p : Nat) (r : Region) (k a : Nat) : Prop where
  dvd : 2 ^ k ∣ a
  lo : r.heapStart ≤ a
  hi : a + 2 ^ k ≤ r.heapEnd (2 ^ p)
  apart : ∀ b ∈ r.family p, b.2 + 2 ^ b.1 ≤ a ∨ a + 2 ^ k ≤ b.2

theorem Wf.dvd (h : r.Wf p) (hi : i ≤ maxOrder) (ha : a ∈ r.freeLists i) : 2 ^ (i + p) ∣ a :=
  h.packing.aligned _ (mem_family.2 ⟨hi, ha⟩)

theorem page_eq {start a : Nat} (hs : 2 ^ p ∣ start) (ha : 2 ^ p ∣ a) (hle : start ≤ a) :
    start + (a - start) / 2 ^ p * 2 ^ p = a := by
  rw [Nat.div_mul_cancel (Nat.dvd_sub ha hs)]
  omega

/-- The page of a heap address is one of the region's. -/
theorem page_lt {ps addr : Nat} (hlo : r.heapStart ≤ addr) (hhi : addr < r.heapEnd ps) :
    (addr - r.heapStart) / ps < r.totalPages := by
  rw [heapEnd] at hhi
  exact Nat.div_lt_of_lt_mul (by rw [Nat.mul_comm]; omega)

theorem dvd_page (h : 2 ^ (i + p) ∣ a) : 2 ^ p ∣ a :=
  (pow_dvd_pow 2 (Nat.le_add_left p i)).trans h

variable {addr i : Nat}

/-- A set bit and a matching header are a chunk of that order, and conversely. -/
theorem Wf.isFree_iff (h : r.Wf p) (hi : i ≤ maxOrder) :
    r.isFree (2 ^ p) addr i = true ↔ addr ∈ r.freeLists i := by
  simp only [isFree, contains, Bool.and_eq_true, decide_eq_true_eq, beq_iff_eq]
  constructor
  · rintro ⟨⟨⟨⟨h1, h2⟩, h3⟩, h4⟩, rfl⟩
    obtain ⟨j, hj, hm⟩ := (h.bitmap _ (page_lt h1 h2)).1 h4
    rw [page_eq h.heap_dvd (Nat.dvd_of_mod_eq_zero h3) h1] at hm
    rw [h.header j hj addr hm]
    exact hm
  · intro hm
    have hd := dvd_page (h.dvd hi hm)
    obtain ⟨h1, h2⟩ := h.inside _ (mem_family.2 ⟨hi, hm⟩)
    replace h2 : addr < r.heapEnd (2 ^ p) := Nat.lt_of_lt_of_le (Nat.lt_add_of_pos_right (Nat.two_pow_pos _)) h2
    refine ⟨⟨⟨⟨h1, h2⟩, Nat.mod_eq_zero_of_dvd hd⟩, (h.bitmap _ (page_lt h1 h2)).2 ⟨i, hi, ?_⟩⟩, h.header i hi addr hm⟩
    rw [page_eq h.heap_dvd hd h1]
    exact hm

/-! ## Linking and unlinking a chunk -/

variable {i : Nat}

theorem chunkPages_update (lists : Nat → List Nat) (hi : i ≤ maxOrder) (l : List Nat) :
    chunkPages (update lists i l) + (lists i).length * orderPages i =
      chunkPages lists + l.length * orderPages i := by
  have hm : i ∈ Finset.range (maxOrder + 1) := Finset.mem_range.2 (Nat.lt_succ_of_le hi)
  have h := Cover.sum_update (fun i l => l.length * orderPages i) lists hm l
  exact h

theorem pushFree_sameHeap (ps addr i : Nat) : r.SameHeap (r.pushFree ps addr i) := ⟨rfl, rfl, rfl⟩

theorem mem_pushFree {ps j : Nat} : a ∈ (r.pushFree ps addr i).freeLists j ↔ j = i ∧ a = addr ∨ a ∈ r.freeLists j := by
  by_cases hji : j = i
  · subst hji
    simp [pushFree]
  · simp [pushFree, hji]

theorem mem_removeFree {ps j : Nat} (hn : (r.freeLists i).Nodup) :
    a ∈ (r.removeFree ps addr i).freeLists j ↔ ¬ (j = i ∧ a = addr) ∧ a ∈ r.freeLists j := by
  by_cases hji : j = i
  · subst hji
    simp [removeFree, hn.mem_erase_iff]
  · simp [removeFree, hji]

theorem pushFree_family (ps addr : Nat) (hi : i ≤ maxOrder) :
    (r.pushFree ps addr i).family p = insert (i + p, addr) (r.family p) := by
  ext ⟨k, a⟩
  simp only [family, mem_pushFree, Set.mem_insert_iff, Prod.mk.injEq]
  constructor
  · rintro ⟨j, hj, rfl, ⟨rfl, rfl⟩ | hm⟩
    · exact .inl ⟨rfl, rfl⟩
    · exact .inr ⟨j, hj, rfl, hm⟩
  · rintro (⟨rfl, rfl⟩ | ⟨j, hj, rfl, hm⟩)
    · exact ⟨i, hi, rfl, .inl ⟨rfl, rfl⟩⟩
    · exact ⟨j, hj, rfl, .inr hm⟩

theorem removeFree_family (ps addr : Nat) (h : r.Wf p) (hi : i ≤ maxOrder) :
    (r.removeFree ps addr i).family p = r.family p \ {(i + p, addr)} := by
  ext ⟨k, a⟩
  simp only [family, mem_removeFree (h.nodup i hi), Set.mem_sdiff, Set.mem_singleton_iff, Prod.mk.injEq]
  constructor
  · rintro ⟨j, hj, rfl, hne, hm⟩
    exact ⟨⟨j, hj, rfl, hm⟩, fun he => hne ⟨by omega, he.2⟩⟩
  · rintro ⟨⟨j, hj, rfl, hm⟩, hne⟩
    exact ⟨j, hj, rfl, fun he => hne ⟨by rw [he.1], he.2⟩, hm⟩

theorem page_inj {start a : Nat} (page : Nat) (hs : 2 ^ p ∣ start) (ha : 2 ^ p ∣ a) (hle : start ≤ a) :
    page = (a - start) / 2 ^ p ↔ start + page * 2 ^ p = a := by
  have hpos := Nat.two_pow_pos p
  constructor
  · rintro rfl; exact page_eq hs ha hle
  · rintro rfl
    rw [Nat.add_sub_cancel_left, Nat.mul_div_cancel _ hpos]

section

variable (hi : i ≤ maxOrder)
include hi

theorem Wf.push (h : r.Wf p) (hh : r.Hole p (i + p) addr) :
    (r.pushFree (2 ^ p) addr i).Wf p := by
  have hfam := pushFree_family (p := p) (r := r) (2 ^ p) addr hi
  have hpos := Nat.two_pow_pos (i + p)
  have hnew : ∀ j ≤ maxOrder, addr ∉ r.freeLists j := fun j hj hm => by
    have := hh.apart _ (mem_family.2 ⟨hj, hm⟩)
    have := Nat.two_pow_pos (j + p)
    simp only at *
    omega
  refine ⟨h.heap_dvd, hfam ▸ h.packing.insert hh.dvd hh.apart, ?_, ?_, ?_, ?_, ?_⟩
  · rw [hfam]
    rintro b (rfl | hb)
    · exact ⟨hh.lo, hh.hi⟩
    · exact h.inside b hb
  · exact (forall_update_iff r.freeLists fun j l => j ≤ maxOrder → l.Nodup).2
      ⟨fun hi => nodup_cons.2 ⟨hnew i hi, h.nodup i hi⟩, fun j _ => h.nodup j⟩
  · intro j hj a ha
    obtain ⟨rfl, rfl⟩ | ha := mem_pushFree.1 ha
    · exact update_self ..
    · exact (update_of_ne (ne_of_mem_of_not_mem ha (hnew j hj)) _ _).trans (h.header j hj a ha)
  · intro page hpage
    have hinj := page_inj page h.heap_dvd (dvd_page hh.dvd) hh.lo
    simp only [mem_pushFree]
    rw [pushFree, FreeHeadBitmap.contains_set]
    split
    · rename_i he
      exact iff_of_true rfl ⟨i, hi, .inl ⟨rfl, hinj.1 he⟩⟩
    · rename_i hne
      rw [h.bitmap page hpage]
      exact exists_congr fun j => and_congr_right fun hj => (or_iff_right fun he => hne (hinj.2 he.2)).symm
  · have e := chunkPages_update r.freeLists hi (addr :: r.freeLists i)
    simp only [pushFree, h.count]
    rw [length_cons, Nat.succ_mul] at e
    omega

theorem Wf.remove (h : r.Wf p) (hm : addr ∈ r.freeLists i) :
    (r.removeFree (2 ^ p) addr i).Wf p := by
  have hfam := removeFree_family (2 ^ p) addr h hi
  have hd := dvd_page (h.dvd hi hm)
  have hlo := (h.inside _ (mem_family.2 ⟨hi, hm⟩)).1
  have hsub : (r.removeFree (2 ^ p) addr i).family p ⊆ r.family p := hfam ▸ Set.sdiff_subset
  refine ⟨h.heap_dvd, h.packing.mono hsub, fun b hb => h.inside b (hsub hb), ?_, ?_, ?_, ?_⟩
  · exact (forall_update_iff r.freeLists fun j l => j ≤ maxOrder → l.Nodup).2
      ⟨fun hi => (h.nodup i hi).erase _, fun j _ => h.nodup j⟩
  · intro j hj a ha
    exact h.header j hj a ((mem_removeFree (h.nodup i hi)).1 ha).2
  · intro page hpage
    have hinj := page_inj page h.heap_dvd hd hlo
    simp only [mem_removeFree (h.nodup i hi)]
    rw [removeFree, FreeHeadBitmap.contains_set]
    split
    · rename_i he
      refine iff_of_false (by simp) ?_
      rintro ⟨j, hj, hne, ha⟩
      rw [hinj.1 he] at ha hne
      exact hne ⟨(h.header j hj _ ha).symm.trans (h.header i hi _ hm), rfl⟩
    · rename_i hne
      rw [h.bitmap page hpage]
      exact exists_congr fun j => and_congr_right fun hj => (and_iff_right fun he => hne (hinj.2 he.2)).symm
  · have e := chunkPages_update r.freeLists hi ((r.freeLists i).erase addr)
    have hlen : 0 < (r.freeLists i).length := length_pos_of_mem hm
    obtain ⟨n, hn⟩ := Nat.exists_eq_add_of_lt hlen
    simp only [removeFree, h.count]
    rw [length_erase_of_mem hm, hn] at e
    simp only [Nat.add_sub_cancel, Nat.succ_mul] at e
    omega

/-- What is free after a chunk is unlinked; the chunk is then a hole. -/
theorem Wf.remove_free (h : r.Wf p) (hm : addr ∈ r.freeLists i) :
    (r.removeFree (2 ^ p) addr i).free p = r.free p \ span (i + p) addr := by
  rw [free, removeFree_family (2 ^ p) addr h hi]
  exact h.packing.cover_erase (mem_family.2 ⟨hi, hm⟩)

theorem push_free :
    (r.pushFree (2 ^ p) addr i).free p = r.free p ∪ span (i + p) addr := by
  rw [free, pushFree_family (2 ^ p) addr hi, cover_insert]
  rfl

theorem Wf.remove_hole (h : r.Wf p) (hm : addr ∈ r.freeLists i) :
    (r.removeFree (2 ^ p) addr i).Hole p (i + p) addr where
  dvd := h.dvd hi hm
  lo := (h.inside _ (mem_family.2 ⟨hi, hm⟩)).1
  hi := (h.inside _ (mem_family.2 ⟨hi, hm⟩)).2
  apart b hb := by
    rw [removeFree_family (2 ^ p) addr h hi] at hb
    rcases h.packing.apart b hb.1 _ (mem_family.2 ⟨hi, hm⟩) with he | he
    · exact absurd he hb.2
    · exact he

theorem Merged.remove (h : r.Wf p) (hm : r.Merged p) (addr : Nat) :
    (r.removeFree (2 ^ p) addr i).Merged p :=
  Coalesced.mono hm (by rw [removeFree_family (2 ^ p) addr h hi]; exact Set.sdiff_subset)

theorem Merged.push (hm : r.Merged p)
    (hb : i < maxOrder → buddy (i + p) addr ∉ r.freeLists i) : (r.pushFree (2 ^ p) addr i).Merged p := by
  rw [Merged, pushFree_family (2 ^ p) addr hi]
  refine Coalesced.insert hm fun hlt hmem => hb (by omega) (mem_family.1 hmem).2

end

end Region
end XKernel.Buddy
