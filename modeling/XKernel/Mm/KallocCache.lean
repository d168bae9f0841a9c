import XKernel.Mm.KallocFlow
/-!
# Refilling and draining a cache

The blocks that enter a cache fit: they are page aligned and lie in one heap. A
refill of an empty cache takes out of the pool what it hands over and parks, and a
drain of blocks that fit puts them back.
-/

namespace XKernel.Kalloc

open XKernel.Lib XKernel.Lib.Dyadic XKernel.Lib.Cover XKernel.Buddy List Option

variable {p : Nat} {a a' : BuddyAllocator}

theorem batch_pos (n : Nat) : 1 ≤ batch n ∧ batch n - 1 ≤ capacity n := by
  unfold batch capacity
  split <;> decide

/-! ## Refill -/

variable {n : Nat}

theorem pushAll_eq (new : List Nat) : ∀ addrs : List Nat, addrs.length + new.length ≤ capacity n →
    pushAll n addrs new = new.reverse ++ addrs := by
  induction new with
  | nil => exact fun addrs _ => rfl
  | cons b new ih =>
    intro addrs h
    rw [length_cons] at h
    have hpush : tryPush n addrs b = some (b :: addrs) := if_neg (by omega)
    have hrest : pushAll n addrs (b :: new) = pushAll n (b :: addrs) new := by
      simp only [pushAll, foldl_cons, hpush, getD_some]
    rw [hrest, ih (b :: addrs) (by rw [length_cons]; omega)]
    simp

theorem refillBlocks_flow (hp : p < wordBits) (k : Nat) : ∀ (a : BuddyAllocator) (addrs : List Nat), a.Wf p →
    addrs.length + k ≤ capacity n → ∃ a' new, refillBlocks (2 ^ p) n k a addrs = some (a', new ++ addrs) ∧
      new.length ≤ k ∧ Flow p a a' (fun x => total x (blocks (blockBytes (2 ^ p) n) new)) (fun _ => 0) ∧
      ∀ b ∈ new, Fits p a n b := by
  have stop : ∀ (k : Nat) (a : BuddyAllocator) (addrs : List Nat), a.Wf p → ∃ a' new,
      some (a, addrs) = some (a', new ++ addrs) ∧ new.length ≤ k ∧
      Flow p a a' (fun x => total x (blocks (blockBytes (2 ^ p) n) new)) (fun _ => 0) ∧ ∀ b ∈ new, Fits p a n b :=
    fun k a addrs h => ⟨a, [], rfl, Nat.zero_le _, .refl h, by simp⟩
  induction k with
  | zero => exact fun a addrs h _ => stop 0 a addrs h
  | succ k ih =>
    intro a addrs h hlen
    simp only [refillBlocks]
    split
    · exact stop (k + 1) a addrs h
    · rename_i addr a1 ha
      obtain ⟨a2, ha2, hf, hfit⟩ := allocate_returnSlack hp h ha
      have hpush := pushAll_eq (n := n) [addr] addrs (by simp only [length_singleton]; omega)
      obtain ⟨a3, new, hr, hl, hf', hfit'⟩ := ih a2 (addr :: addrs) hf.wf (by simp only [length_cons]; omega)
      refine ⟨a3, new ++ [addr], ?_, by simpa using hl, (hf.trans hf').congr fun x => ?_, ?_⟩
      · simp only [ha2, hpush, reverse_singleton, singleton_append, bind_eq_bind, bind_some, hr,
          append_assoc]
      · simp only [blocks_append, blocks_cons, blocks_nil, total_append, total_cons, total_nil]
        omega
      · exact forall_mem_append.2 ⟨fun b hb => (hfit' b hb).of_extents hf.extents.symm, forall_mem_singleton.2 hfit⟩

/-- A refill of an empty cache takes out exactly the block it hands over and the blocks it parks. -/
theorem refill_flow (hp : p < wordBits) (h : a.Wf p) (n : Nat) :
    ∃ res a' new, refill (2 ^ p) n a [] = some (res, a', new) ∧ new.length ≤ capacity n ∧
      (∀ b ∈ new, Fits p a n b) ∧
      match res with
      | .ok base => Fits p a n base ∧
          Flow p a a' (fun x => total x (blocks (blockBytes (2 ^ p) n) (base :: new))) (fun _ => 0)
      | .error _ => a' = a ∧ new = [] := by
  obtain ⟨hpos, hcap⟩ := batch_pos n
  simp only [refill]
  split
  · rename_i base a1 ha
    obtain ⟨a2, ha2, hf, hfit⟩ := allocate_returnSlack hp h ha
    generalize hk : batch n - 1 = k at hcap ⊢
    have hbatch : batch n = k + 1 := by omega
    set new := (range' 1 k).map fun i => base + i * blockBytes (2 ^ p) n with hnew
    have hlen : new.length = k := by simp [hnew]
    have hpush := pushAll_eq (n := n) new [] (by simp only [length_nil]; omega)
    refine ⟨.ok base, a2, new.reverse, by simp [ha2, hpush], by simp only [length_reverse]; omega, ?_, ?_⟩
    · intro b hb
      obtain ⟨i, hi, rfl⟩ := mem_map.1 (mem_reverse.1 hb)
      rw [mem_range'_1] at hi
      have hbytes : blockBytes (2 ^ p) (batch n * n) = batch n * blockBytes (2 ^ p) n := by
        simp only [blockBytes, Nat.mul_assoc]
      refine ⟨Nat.dvd_add hfit.dvd (Dvd.dvd.mul_left (Nat.dvd_mul_left _ _) _), ?_⟩
      have hone := hfit.inOne
      refine hone.mono (Nat.le_add_right _ _) ?_
      have := Nat.mul_le_mul_right (blockBytes (2 ^ p) n) (show i + 1 ≤ batch n by omega)
      rw [Nat.add_mul, Nat.one_mul] at this
      omega
    · refine ⟨⟨hfit.dvd, hfit.inOne.mono le_rfl ?_⟩, hf.congr fun x => ?_⟩
      · have := Nat.le_mul_of_pos_left (blockBytes (2 ^ p) n) hpos
        simp only [blockBytes, Nat.mul_assoc] at this ⊢
        omega
      · have hrun := total_consecutive x base (blockBytes (2 ^ p) n) (k + 1)
        rw [range_eq_range', range'_succ, map_cons, total_cons] at hrun
        have hrev : total x (blocks (blockBytes (2 ^ p) n) new.reverse) = total x (blocks (blockBytes (2 ^ p) n) new) :=
          total_perm ((reverse_perm new).map _) x
        have hmap : blocks (blockBytes (2 ^ p) n) new =
            (range' 1 k).map fun i => (base + i * blockBytes (2 ^ p) n, blockBytes (2 ^ p) n) := by
          rw [blocks, hnew, List.map_map]
          rfl
        rw [blocks_cons, total_cons, hrev, hmap, hbatch]
        simp only [Nat.zero_mul, blockBytes, Nat.mul_assoc] at hrun ⊢
        exact hrun.symm
  · split
    · rename_i e _
      exact ⟨.error e, a, [], rfl, Nat.zero_le _, by simp, rfl, rfl⟩
    · rename_i base a1 ha
      obtain ⟨a2, ha2, hf, hfit⟩ := allocate_returnSlack hp h ha
      obtain ⟨a3, new, hr, hl, hf', hfit'⟩ := refillBlocks_flow hp (batch n - 1) a2 [] hf.wf (by simpa using hcap)
      refine ⟨.ok base, a3, new, by simp [ha2, hr], by omega, fun b hb => (hfit' b hb).of_extents hf.extents.symm, hfit,
        (hf.trans hf').congr fun x => ?_⟩
      simp only [blocks_cons, total_cons]

/-! ## Drain -/

/-- A range of one heap and a block that starts where it ends form a range of one heap, if they share a region. -/
theorem InOne.extend (h : a.Wf p) {start len c stop : Nat} (hr : InOne p a start len) (hstop : start + len = stop)
    (hc : start ≤ c ∧ c < stop) (hb : InOne p a stop (blockBytes (2 ^ p) n)) (hn : 0 < blockBytes (2 ^ p) n)
    (hs : (a.regions.any fun r => r.contains (2 ^ p) c && r.contains (2 ^ p) stop) = true) :
    InOne p a start (len + blockBytes (2 ^ p) n) := by
  obtain ⟨r, hr, hrlo, hrhi⟩ := hr
  obtain ⟨q, hq, hqlo, hqhi⟩ := hb
  obtain ⟨t, ht, hboth⟩ := any_eq_true.1 hs
  rw [Bool.and_eq_true, Region.contains_iff, Region.contains_iff] at hboth
  obtain rfl : t = r := h.region_unique ht hr hboth.1 ⟨by omega, by omega⟩
  obtain rfl : t = q := h.region_unique ht hq hboth.2 ⟨by omega, by omega⟩
  exact ⟨t, ht, hrlo, by omega⟩

variable {l : List Nat}

theorem Seamless.of_extents (h : a'.regions.map (·.extent p) = a.regions.map (·.extent p))
    (hs : Seamless (2 ^ p) n a l) : Seamless (2 ^ p) n a' l := by
  intro b hb c hc hbc
  obtain ⟨r, hr, hboth⟩ := any_eq_true.1 (hs b hb c hc hbc)
  have hm : r.extent p ∈ a'.regions.map (·.extent p) := h ▸ mem_map_of_mem hr
  obtain ⟨r', hr', he⟩ := mem_map.1 hm
  simp only [Region.extent, Prod.mk.injEq] at he
  refine any_eq_true.2 ⟨r', hr', ?_⟩
  simp only [Region.contains, he.2.1, he.2.2] at hboth ⊢
  exact hboth

/-- The ranges merged from sorted blocks give back exactly the blocks. The loop's invariant: the open range lies in
one heap, and `c` is the last block merged into it. -/
theorem mergeFrom_flow (hp : p < wordBits) (hn : 0 < n) :
    ∀ (as : List Nat) (a : BuddyAllocator) (start m c : Nat), a.Wf p → Seamless (2 ^ p) n a l → c ∈ l →
      (∀ b ∈ as, b ∈ l ∧ Fits p a n b) → start ≤ c → c + blockBytes (2 ^ p) n = start + m * 2 ^ p → 2 ^ p ∣ start →
      InOne p a start (m * 2 ^ p) → m + as.length * n < 2 ^ (maxOrder + 1) →
      (∀ x, freeAt (2 ^ p) a x + hits x (start, m * 2 ^ p) + total x (blocks (blockBytes (2 ^ p) n) as) ≤ 1) →
      ∃ a', deallocateRanges (2 ^ p) a (mergeFrom (blockBytes (2 ^ p) n) start (start + m * 2 ^ p) as) = some a' ∧
        Flow p a a' (fun _ => 0)
          (fun x => hits x (start, m * 2 ^ p) + total x (blocks (blockBytes (2 ^ p) n) as)) := by
  have hblk : 0 < blockBytes (2 ^ p) n := Nat.mul_pos hn (Nat.two_pow_pos p)
  intro as
  induction as with
  | nil =>
    intro a start m c hw _ _ _ _ _ hd hin hm hused
    obtain ⟨a', ha', hf⟩ := deallocateRange_flow hp hw (by simpa using hm) hd hin fun x => by
      simpa using hused x
    refine ⟨a', ?_, hf.congr fun x => by simp⟩
    simp only [mergeFrom, deallocateRanges, List.foldlM_cons, List.foldlM_nil, Nat.add_sub_cancel_left, ha',
      Option.bind_eq_bind, Option.bind_some, Option.pure_def]
  | cons b as ih =>
    intro a start m c hw hs hc hmem hlo hend hd hin hm hused
    obtain ⟨hbl, hbfit⟩ := hmem b List.mem_cons_self
    have hrest : ∀ d ∈ as, d ∈ l ∧ Fits p a n d := fun d hd => hmem d (List.mem_cons_of_mem _ hd)
    rw [List.length_cons, Nat.succ_mul] at hm
    simp only [blocks_cons, total_cons] at hused ⊢
    simp only [mergeFrom]
    by_cases hb : b = start + m * 2 ^ p
    · -- the block continues the open range
      rw [if_pos hb]
      subst hb
      have hlen : m * 2 ^ p + blockBytes (2 ^ p) n = (m + n) * 2 ^ p := by rw [Nat.add_mul]; rfl
      have hin' := InOne.extend hw hin rfl ⟨hlo, by omega⟩ hbfit.inOne hblk (hs c hc _ hbl hend)
      have hhits : ∀ x, hits x (start, (m + n) * 2 ^ p) =
          hits x (start, m * 2 ^ p) + hits x (start + m * 2 ^ p, blockBytes (2 ^ p) n) := fun x => by
        rw [← hlen, hits_add]
      rw [hlen] at hin'
      have hnext : start + m * 2 ^ p + blockBytes (2 ^ p) n = start + (m + n) * 2 ^ p := by omega
      obtain ⟨a', ha', hf⟩ :=
        ih a start (m + n) (start + m * 2 ^ p) hw hs hbl hrest (Nat.le_add_right _ _) hnext hd hin'
        (by omega) fun x => by have := hhits x; have := hused x; omega
      rw [hnext]
      exact ⟨a', ha', hf.congr fun x => by have := hhits x; omega⟩
    · -- the open range goes back and the block opens the next one
      rw [if_neg hb]
      obtain ⟨a1, ha1, hf1⟩ := deallocateRange_flow hp hw (by omega) hd hin fun x => by
        have := hused x
        omega
      obtain ⟨a2, ha2, hf2⟩ := ih a1 b n b hf1.wf (hs.of_extents hf1.extents) hbl
        (fun d hd => ⟨(hrest d hd).1, (hrest d hd).2.of_extents hf1.extents⟩) le_rfl rfl hbfit.dvd
        (hbfit.inOne.of_extents hf1.extents) (by omega) fun x => by
          have := hused x
          have := hf1.count x
          rw [blockBytes] at *
          omega
      refine ⟨a2, ?_, (hf1.trans hf2).congr fun x => by simp only [blockBytes]⟩
      simp only [deallocateRanges, List.foldlM_cons, Nat.add_sub_cancel_left, ha1] at ha2 ⊢
      exact ha2

theorem batch_le (n : Nat) : batch n ≤ 8 := by
  unfold batch capacity
  split <;> decide

/-- A drain gives back the freed block and the blocks it pops. -/
theorem drain_flow (hp : p < wordBits) (h : a.Wf p) {va : Nat} (hn : pcpServes n) {addrs : List Nat}
    (hs : Seamless (2 ^ p) n a (drained n va addrs)) (hfit : ∀ b ∈ drained n va addrs, Fits p a n b)
    (hused : ∀ x, freeAt (2 ^ p) a x + total x (blocks (blockBytes (2 ^ p) n) (drained n va addrs)) ≤ 1) :
    ∃ a', drain (2 ^ p) n a addrs va = some (a', addrs.drop (batch n)) ∧
      Flow p a a' (fun _ => 0) (fun x => total x (blocks (blockBytes (2 ^ p) n) (drained n va addrs))) := by
  have hperm := perm_insertionSort (· ≤ ·) (drained n va addrs)
  have hlen : (drained n va addrs).length ≤ 9 := by
    have := batch_le n
    rw [drained, length_cons, length_take]
    omega
  simp only [drain]
  generalize (drained n va addrs).insertionSort (· ≤ ·) = sorted at hperm ⊢
  have htotal : ∀ x, total x (blocks (blockBytes (2 ^ p) n) sorted) =
      total x (blocks (blockBytes (2 ^ p) n) (drained n va addrs)) := total_perm (hperm.map _)
  simp only [← htotal] at hused ⊢
  cases sorted with
  | nil => exact absurd hperm.symm.eq_nil (by simp [drained])
  | cons b as =>
    have hmem : ∀ c ∈ b :: as, c ∈ drained n va addrs ∧ Fits p a n c := fun c hc =>
      ⟨hperm.subset hc, hfit c (hperm.subset hc)⟩
    obtain ⟨hbl, hbfit⟩ := hmem b mem_cons_self
    have hsize : n + as.length * n < 2 ^ (maxOrder + 1) := by
      have hl := hperm.length_eq
      rw [length_cons] at hl
      have h36 : (as.length + 1) * n ≤ 9 * 4 := Nat.mul_le_mul (by omega) hn.2
      rw [Nat.succ_mul] at h36
      have : 9 * 4 < 2 ^ (maxOrder + 1) := by decide
      omega
    obtain ⟨a', ha', hf⟩ := mergeFrom_flow hp hn.1 as a b n b h hs hbl
      (fun c hc => hmem c (mem_cons_of_mem _ hc)) le_rfl rfl hbfit.dvd hbfit.inOne hsize fun x => by
        have := hused x
        rw [blocks_cons, total_cons, ← Nat.add_assoc] at this
        exact this
    refine ⟨a', ?_, hf.congr fun x => by simp [blockBytes]⟩
    have hbn : b + blockBytes (2 ^ p) n = b + n * 2 ^ p := rfl
    simp only [mergeRanges, hbn, ha', bind_eq_bind, bind_some]

end XKernel.Kalloc
