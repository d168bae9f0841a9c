import XKernel.Mm.BuddyRuns
/-!
# A request fails only when nothing fits

Chunks stay coalesced along every run, so an aligned run of free pages lies in one
chunk. The aligned search looks at the starts of chunks only, and misses nothing: a
chunk around a run that is aligned beyond the chunk's own size starts where the run
starts.
-/

namespace XKernel.Buddy

open XKernel.Lib XKernel.Lib.Dyadic

variable {p : Nat}

namespace Region

variable {r : Region}

/-- `n` consecutive free pages from `start`. -/
def FreeRun (ps : Nat) (r : Region) (start n : Nat) : Prop := ∀ j < n, r.covers ps (start + j * ps) = true

/-- A page is free as a whole. -/
theorem Wf.page_free (h : r.Wf p) {a x : Nat} (ha : 2 ^ p ∣ a) (hf : a ∈ r.free p) (hx : x ∈ span p a) :
    x ∈ r.free p := by
  obtain ⟨⟨k, b⟩, hb, hab⟩ := hf
  obtain ⟨i, hi, hk, -⟩ := id hb
  have hpk : p ≤ k := by simp only at hk; omega
  have hin := nested ha (h.packing.aligned _ hb) hpk (by simp) hab
  refine ⟨(k, b), hb, ?_⟩
  simp only [mem_span] at hx hin ⊢
  omega

theorem Wf.freeRun_iff (h : r.Wf p) {start o : Nat} (hs : 2 ^ p ∣ start) :
    r.FreeRun (2 ^ p) start (2 ^ o) ↔ span (o + p) start ⊆ r.free p := by
  have hpos := Nat.two_pow_pos p
  constructor
  · intro hrun x hx
    rw [mem_span, pow_add] at hx
    have hj : (x - start) / 2 ^ p < 2 ^ o := Nat.div_lt_of_lt_mul (by rw [Nat.mul_comm]; omega)
    have hpage := covers_iff.1 (hrun _ hj)
    refine h.page_free (Nat.dvd_add hs (Nat.dvd_mul_left _ _)) hpage ?_
    have := Nat.div_add_mod' (x - start) (2 ^ p)
    simp only [mem_span]
    omega
  · intro hsub j hj
    refine covers_iff.2 (hsub ?_)
    have := Nat.mul_lt_mul_of_pos_right hj hpos
    simp only [mem_span, pow_add]
    omega

/-- An aligned free run lies in one chunk, and that chunk is large enough and starts at a multiple of the
alignment too. -/
theorem Wf.chunk_of_run (h : r.Wf p) (hm : r.Merged p) {o q start : Nat} (ho : o ≤ maxOrder)
    (hd : 2 ^ (max o q + p) ∣ start) (hs : span (o + p) start ⊆ r.free p) :
    ∃ i, o ≤ i ∧ i ≤ maxOrder ∧ ∃ a ∈ r.freeLists i, 2 ^ (max o q + p) ∣ a := by
  have hdo : 2 ^ (o + p) ∣ start := (pow_dvd_pow 2 (by omega)).trans hd
  obtain ⟨⟨k, a⟩, hb, hk, hlo, hhi⟩ := Coalesced.covered h.packing hm (o + p) start (by omega) hdo hs
  obtain ⟨i, hi, rfl, ha⟩ := id hb
  have hda := h.dvd hi ha
  simp only at hk hlo hhi ha
  refine ⟨i, by omega, hi, a, ha, ?_⟩
  rcases Nat.lt_or_ge i (max o q) with hlt | hge
  · -- the run is aligned to more than the chunk's size, so it starts the chunk
    have hstart : a = start := by
      obtain ⟨m, rfl⟩ := (pow_dvd_pow 2 (show i + p ≤ max o q + p by omega)).trans hd
      obtain ⟨n, rfl⟩ := hda
      have h1 : n ≤ m := Nat.le_of_mul_le_mul_left hlo (Nat.two_pow_pos _)
      have h2 : m < n + 1 := by
        refine Nat.lt_of_mul_lt_mul_left (a := 2 ^ (i + p)) ?_
        rw [Nat.mul_add, Nat.mul_one]
        omega
      rw [show n = m by omega]
    rw [hstart]
    exact hd
  · exact (pow_dvd_pow 2 (by omega)).trans hda

theorem Wf.allocAligned_none_iff (h : r.Wf p) (hm : r.Merged p) {o q : Nat} (ho : o ≤ maxOrder) :
    r.allocAligned (2 ^ p) o (2 ^ q) = none ↔
      ¬ ∃ start, 2 ^ (max o q + p) ∣ start ∧ r.FreeRun (2 ^ p) start (2 ^ o) := by
  have hpage : ∀ a, 2 ^ (max o q + p) ∣ a → 2 ^ p ∣ a := fun a => dvd_page
  rw [allocAligned_eq_none h ho]
  constructor
  · rintro hnone ⟨start, hd, hrun⟩
    obtain ⟨i, h1, h2, a, ha, hda⟩ := h.chunk_of_run hm ho hd ((h.freeRun_iff (hpage _ hd)).1 hrun)
    exact hnone i h1 h2 a ha hda
  · intro hno i h1 h2 a ha hd
    refine hno ⟨a, hd, (h.freeRun_iff (hpage _ hd)).2 fun x hx => ⟨_, mem_family.2 ⟨h2, ha⟩, ?_⟩⟩
    have : 2 ^ (o + p) ≤ 2 ^ (i + p) := Nat.pow_le_pow_right (by decide) (by omega)
    simp only [mem_span] at hx ⊢
    omega

theorem Merged.no_buddies (h : r.Wf p) (hm : r.Merged p) {i a : Nat} (hi : i < maxOrder) (ha : a ∈ r.freeLists i) :
    a ^^^ orderSize (2 ^ p) i ∉ r.freeLists i := by
  rw [orderSize_two_pow]
  intro hb
  have hk : i + p < maxOrder + p := by omega
  have h1 := mem_family (p := p).2 ⟨hi.le, ha⟩
  have h2 := mem_family (p := p).2 ⟨hi.le, hb⟩
  change (i + p, buddy (i + p) a) ∈ _ at h2
  obtain ⟨b, hd, rfl | rfl⟩ := half_cases (h.dvd hi.le ha)
  · rw [buddy_left hd] at h2
    exact hm _ _ hk hd h1 h2
  · rw [buddy_right hd] at h2
    exact hm _ _ hk hd h2 h1

end Region

theorem isPowerOfTwo_iff {n : Nat} : isPowerOfTwo n = true ↔ ∃ q, n = 2 ^ q := by
  simp only [isPowerOfTwo, Bool.and_eq_true, bne_iff_ne, beq_iff_eq]
  constructor
  · rintro ⟨-, h⟩
    exact ⟨_, h.symm⟩
  · rintro ⟨q, rfl⟩
    exact ⟨(Nat.two_pow_pos q).ne', by rw [Nat.log2_two_pow]⟩

/-- Along every run no two free buddies wait to be merged, so a request fails exactly when no region has a free
run of the rounded size at a multiple of the size and of the alignment. -/
theorem run_complete (p : Nat) {s : State} (h : Run (step (2 ^ p)) (Allowed (2 ^ p)) State.init s) :
    (∀ r ∈ s.alloc.regions, ∀ i < maxOrder, ∀ a ∈ r.freeLists i, a ^^^ orderSize (2 ^ p) i ∉ r.freeLists i) ∧
    ∀ count align, 0 < count → Nat.clog 2 count ≤ maxOrder → isPowerOfTwo align = true → 2 ^ p ≤ align →
      (s.alloc.allocatePages (2 ^ p) count align = .error .noMemory ↔
        ¬ ∃ r ∈ s.alloc.regions, ∃ start, start % max align (orderSize (2 ^ p) (Nat.clog 2 count)) = 0 ∧
          r.FreeRun (2 ^ p) start (2 ^ Nat.clog 2 count)) := by
  have hw := (run_inv h).wf
  refine ⟨fun r hr i hi a ha => (hw.merged r hr).no_buddies (hw.wf r hr) hi ha, ?_⟩
  intro count align hc ho hpow hle
  obtain ⟨k, rfl⟩ := isPowerOfTwo_iff.1 hpow
  have hpk : p ≤ k := (Nat.pow_le_pow_iff_right (by decide)).1 hle
  obtain ⟨q, rfl⟩ := Nat.exists_eq_add_of_le hpk
  have hdiv : 2 ^ (p + q) / 2 ^ p = 2 ^ q := by rw [pow_add, Nat.mul_div_cancel_left _ (Nat.two_pow_pos p)]
  have hmax : max (2 ^ (p + q)) (orderSize (2 ^ p) (Nat.clog 2 count)) = 2 ^ (max (Nat.clog 2 count) q + p) := by
    rw [orderSize_two_pow, Nat.add_comm p q, max_comm, ← Nat.add_max_add_right]
    exact ((pow_right_mono₀ (by decide : 1 ≤ 2)).map_max).symm
  have hres : s.alloc.allocatePages (2 ^ p) count (2 ^ (p + q)) = .error .noMemory ↔
      ∀ r ∈ s.alloc.regions, r.allocAligned (2 ^ p) (Nat.clog 2 count) (2 ^ q) = none := by
    have hne : (2 : Nat) ^ (p + q) ≠ 0 := (Nat.two_pow_pos _).ne'
    simp only [BuddyAllocator.allocatePages, hc.ne', if_false, hne, hpow, hdiv, orderFor_eq_clog, not_lt.2 hle,
      not_lt.2 ho]
    rw [← firstRegion_eq_none]
    cases hf : firstRegion (fun r => r.allocAligned (2 ^ p) (Nat.clog 2 count) (2 ^ q)) s.alloc.regions <;> simp
  rw [hres, hmax, not_exists]
  refine forall_congr' fun r => ?_
  rw [not_and]
  refine forall_congr' fun hr => ?_
  rw [(hw.wf r hr).allocAligned_none_iff (hw.merged r hr) ho]
  simp only [Nat.dvd_iff_mod_eq_zero]

/-- Fifteen of sixteen pages are free, but not the one page at a multiple of 2048. -/
theorem run_complete_sample : ∃ s, Run (step (2 ^ 5)) (Allowed (2 ^ 5)) State.init s ∧
    s.alloc.regions.map (·.freePages) = [15] ∧ s.alloc.allocatePages (2 ^ 5) 1 2048 = .error .noMemory ∧
    ¬ ∃ r ∈ s.alloc.regions, ∃ start, start % max 2048 (orderSize (2 ^ 5) (Nat.clog 2 1)) = 0 ∧
      r.FreeRun (2 ^ 5) start (2 ^ Nat.clog 2 1) := by
  obtain ⟨s, hs, hc⟩ : ∃ s, Run (step (2 ^ 5)) (Allowed (2 ^ 5)) State.init s ∧
      s.alloc.regions.map (·.freePages) = [15] ∧
      (s.alloc.allocatePages (2 ^ 5) 1 2048).map Prod.fst = .error .noMemory := Run.exists_of_exec
    [.addRegion (fun _ => 7) 4096 512, .allocatePages 2 2048, .deallocatePages 4128 1] (by decide +kernel)
  have hfail : s.alloc.allocatePages (2 ^ 5) 1 2048 = .error .noMemory := by
    have he := hc.2
    generalize s.alloc.allocatePages (2 ^ 5) 1 2048 = res at he ⊢
    cases res with
    | error => exact congrArg _ (Except.error.inj he)
    | ok => cases he
  have hclog : Nat.clog 2 1 ≤ maxOrder := by simp
  exact ⟨s, hs, hc.1, hfail, ((run_complete 5 hs).2 1 2048 (by decide) hclog (by decide +kernel) (by decide)).1 hfail⟩

end XKernel.Buddy
