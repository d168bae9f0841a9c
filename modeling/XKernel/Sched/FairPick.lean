import XKernel.Sched.Asserts
/-!
# What the Fair class picks, and where it places a task

The mean is cut towards zero, so it is never below the least virtual runtime, and some task is eligible. The lag of a
task that joins is inflated by the factor by which its own weight dilutes the mean; the three quotients together are off
by less than three.
-/

namespace XKernel.Sched

open Lib FairClass List Option Scheduler

variable {s : Scheduler} {t : TaskId} {curr : Option TaskId}

/-! ## The earliest eligible deadline -/

theorem exists_le_mean {α : Type} {l : List α} {v w : α → Int} (hne : l ≠ []) (hw : ∀ x ∈ l, 0 < w x) :
    ∃ x ∈ l, v x ≤ (l.map fun x => v x * w x).sum.tdiv (l.map w).sum := by
  have hpos : 0 < (l.map w).sum := sum_pos _ (forall_mem_map.2 hw) (by simpa using hne)
  by_contra hn
  push Not at hn
  have hlt := Int.lt_tdiv_add_one_mul_self (l.map fun x => v x * w x).sum hpos
  rw [← sum_map_mul_left] at hlt
  exact absurd hlt (not_lt.2 (sum_le_sum fun x hx => mul_le_mul_of_nonneg_right (hn x hx) (hw x hx).le))

theorem mem_takeWhile_of_sorted {α κ : Type} [LinearOrder κ] {key : α → κ} {p : α → Bool} {l : List α}
    (hs : Index.Sorted key l) (hp : ∀ x y, key x < key y → p y = true → p x = true) {x : α} :
    x ∈ l.takeWhile p ↔ x ∈ l ∧ p x = true := by
  induction l with
  | nil => simp
  | cons y l ih =>
    obtain ⟨hy, hl⟩ := pairwise_cons.1 hs
    by_cases hpy : p y = true
    · rw [takeWhile_cons_of_pos hpy, mem_cons, mem_cons, ih hl]
      grind
    · rw [takeWhile_cons_of_neg hpy]
      refine iff_of_false not_mem_nil fun ⟨hx, hpx⟩ => hpy ?_
      rcases mem_cons.1 hx with rfl | hx
      · exact hpx
      · exact hp y x (hy x hx) hpx

/-- Both ways of the search find the eligible task with the least deadline. -/
theorem earliestEligible_least (hok : FairOk s) (hfirst : s.fair.firstDeadline = s.fair.ready.head?) (avg : Int)
    (he : ∃ t ∈ s.fair.ready, (s.tasks t).fair.vruntime ≤ avg) :
    ∃ t ∈ s.fair.ready, (s.tasks t).fair.vruntime ≤ avg ∧ earliestEligible s avg = some (deadlineKey s t) ∧
      ∀ u ∈ s.fair.ready, (s.tasks u).fair.vruntime ≤ avg → deadlineKey s t ≤ deadlineKey s u := by
  obtain ⟨w, hw, hwavg⟩ := he
  unfold earliestEligible
  rw [hfirst]
  cases hl : s.fair.ready.head? with
  | none => simp [head?_eq_none_iff.1 hl] at hw
  | some first =>
    obtain ⟨rest, hl⟩ := head?_eq_some_iff.1 hl
    have hleast := hok.ready
    simp only
    split
    · rename_i hel
      rw [hl] at hleast ⊢
      refine ⟨first, mem_cons_self, of_decide_eq_true hel, rfl, forall_mem_cons.2 ⟨fun _ => le_rfl, fun u hu _ => ?_⟩⟩
      exact ((pairwise_cons.1 hleast).1 u hu).le
    · -- the eligible tasks are the first ones of the other tree
      have hmem : ∀ u, u ∈ s.fair.vruntimeTree.takeWhile (fun t => isEligible (s.tasks t).fair.vruntime avg) ↔
          u ∈ s.fair.ready ∧ (s.tasks u).fair.vruntime ≤ avg := fun u => by
        rw [mem_takeWhile_of_sorted hok.vruntime fun x y hlt hy => ?_, hok.vmem, ← hok.mem, isEligible,
          decide_eq_true_eq]
        have hle : (s.tasks x).fair.vruntime ≤ (s.tasks y).fair.vruntime :=
          (Prod.Lex.lt_iff.1 hlt).elim le_of_lt fun h => h.1.le
        exact decide_eq_true (hle.trans (of_decide_eq_true hy))
      have hin : deadlineKey s w ∈ (s.fair.vruntimeTree.takeWhile fun t =>
          isEligible (s.tasks t).fair.vruntime avg).map (deadlineKey s) :=
        mem_map_of_mem ((hmem w).2 ⟨hw, hwavg⟩)
      obtain ⟨key, hkey⟩ := isSome_iff_exists.1 (isSome_min?_iff.2 (ne_nil_of_mem hin))
      obtain ⟨hin, hmin⟩ := min?_eq_some_iff.1 hkey
      obtain ⟨t, ht, rfl⟩ := mem_map.1 hin
      obtain ⟨htr, hta⟩ := (hmem t).1 ht
      exact ⟨t, htr, hta, hkey, fun u hu hua => hmin _ (mem_map_of_mem ((hmem u).2 ⟨hu, hua⟩))⟩

/-- The weighted mean of the queue, as the code cuts it. -/
def meanVruntime (s : Scheduler) : Int :=
  (s.fair.ready.map fun t => (s.tasks t).fair.vruntime * weight s t).sum.tdiv (s.fair.ready.map (weight s)).sum

/-- In a consistent queue whose weights and mean an `i64` holds, some task is eligible, the search finds a key, and
without an eligible buddy the eligible task with the least deadline and identifier is picked. -/
theorem pickNext_earliest (s : Scheduler) (hok : FairOk s) (hbooks : FairBooks (weight s) s) (hne : s.fair.ready ≠ [])
    (hpos : ∀ t ∈ s.fair.ready, 0 < weight s t)
    (hweight : i64 (s.fair.ready.map (weight s)).sum = (s.fair.ready.map (weight s)).sum)
    (hmean : i64 (meanVruntime s) = meanVruntime s) :
    avgVruntime s none = meanVruntime s ∧ (∃ t ∈ s.fair.ready, (s.tasks t).fair.vruntime ≤ meanVruntime s) ∧
    (earliestEligible s (avgVruntime s none)).isSome = true ∧
    (isBuddyEligible s (avgVruntime s none) = false → ∃ t s', FairClass.pickNext s = some (some t, s') ∧
      t ∈ s.fair.ready ∧ (s.tasks t).fair.vruntime ≤ meanVruntime s ∧
      ∀ u ∈ s.fair.ready, (s.tasks u).fair.vruntime ≤ meanVruntime s → u ≠ t → deadlineKey s t < deadlineKey s u) := by
  have havg : avgVruntime s none = meanVruntime s := by
    have hsum : 0 < (s.fair.ready.map (weight s)).sum := sum_pos _ (forall_mem_map.2 hpos) (by simpa using hne)
    rw [avgVruntime, hbooks.totalWeight, hweight, hbooks.sumWv, if_neg (not_le.2 hsum)]
    exact hmean
  have hex := exists_le_mean (v := fun t => (s.tasks t).fair.vruntime) hne hpos
  obtain ⟨t, ht, htm, hkey, hleast⟩ := earliestEligible_least hok hbooks.firstDeadline (meanVruntime s) hex
  rw [havg]
  refine ⟨rfl, hex, by rw [hkey]; rfl, fun hbuddy => ?_⟩
  have hpick : pickBuddy s = some (none, s) := by
    unfold pickBuddy
    split
    · rfl
    · rw [havg, hbuddy]
      rfl
  obtain ⟨r, s', hd, hr⟩ := dequeueEntity_total hok (deadlineKey s t) none
  cases hr t ht rfl
  refine ⟨t, clearBuddyIf s' t, ?_, ht, htm, fun u hu hum hut => lt_of_le_of_ne (hleast u hu hum) fun he => ?_⟩
  · unfold FairClass.pickNext
    rw [if_neg (by simpa using hne), hpick]
    simp only [havg, hkey, dequeueEntity, hd]
  · exact hut (hok.ready.eq_of_key hu ht he.symm)

theorem pickNext_earliest_sample : ∃ s t s', s.fair.ready = [1, 2] ∧ FairClass.pickNext s = some (some t, s') ∧
    ∀ u ∈ s.fair.ready, (s.tasks u).fair.vruntime ≤ meanVruntime s → u ≠ t → deadlineKey s t < deadlineKey s u := by
  obtain ⟨s, hs, hready, hpos, hweight, hmean, hbuddy⟩ : ∃ s,
      Run (step .standard) Allowed (new .standard sampleKernel 0 0) s ∧ s.fair.ready = [1, 2] ∧
      (∀ t ∈ s.fair.ready, 0 < weight s t) ∧
      i64 (s.fair.ready.map (weight s)).sum = (s.fair.ready.map (weight s)).sum ∧
      i64 (meanVruntime s) = meanVruntime s ∧ isBuddyEligible s (avgVruntime s none) = false :=
    Run.exists_of_exec [.enqueue 1 .new 0, .enqueue 2 .new 5] (by decide +kernel)
  obtain ⟨h, hi⟩ := run_fairIndex rfl hs
  obtain ⟨t, s', hp, -, -, hleast⟩ :=
    (pickNext_earliest s (h.queue .fair) hi.toFairBooks (by simp [hready]) hpos hweight hmean).2.2.2 hbuddy
  exact ⟨s, t, s', hready, hp, hleast⟩

/-! ## Lag -/

theorem tdiv_bounds (a : Int) {b : Int} (hb : 0 < b) : a - b < b * a.tdiv b ∧ b * a.tdiv b < a + b := by
  have h := Int.mul_tdiv_add_tmod a b
  have hlo := Int.lt_tmod_of_pos a hb
  have hhi := Int.tmod_lt_of_pos a hb
  constructor <;> linarith

/-- The lag after joining, with the load `W` and the sum `S` before. -/
theorem lag_bound {S l W w v V : Int} (hW : 0 < W) (hw : 0 < w) (hv : v = S.tdiv W - (l * (W + w)).tdiv W)
    (hV : V = (S + v * w).tdiv (W + w)) : |V - v - l| ≤ 2 := by
  obtain ⟨h1, h2⟩ := tdiv_bounds S hW
  obtain ⟨h3, h4⟩ := tdiv_bounds (l * (W + w)) hW
  obtain ⟨h5, h6⟩ := tdiv_bounds (S + v * w) (add_pos hW hw)
  rw [← hV] at h5 h6
  have hsum : (W + w) * (V - v - l) = ((W + w) * V - (S + v * w)) + (S - W * S.tdiv W) +
      (W * (l * (W + w)).tdiv W - l * (W + w)) := by
    rw [hv]
    ring
  rw [abs_le]
  constructor
  · by_contra hn
    have : (W + w) * (V - v - l) ≤ (W + w) * (-3) := mul_le_mul_of_nonneg_left (by omega) (by omega)
    omega
  · by_contra hn
    have : (W + w) * 3 ≤ (W + w) * (V - v - l) := mul_le_mul_of_nonneg_left (by omega) (by omega)
    omega

/-- The weight of the queue and of the runner that is off the tree. -/
def fullWeight (s : Scheduler) (curr : Option TaskId) : Int := s.fair.totalWeight + curr.elim 0 (weight s)

def fullSum (s : Scheduler) (curr : Option TaskId) : Int :=
  s.fair.sumWv + curr.elim 0 fun c => (s.tasks c).fair.vruntime * weight s c

def fullMean (s : Scheduler) (curr : Option TaskId) : Int := (fullSum s curr).tdiv (fullWeight s curr)

def storedLag (s : Scheduler) (t : TaskId) : Int :=
  clampVlag (s.tasks t).fair.vlag (weight s t) (s.tasks t).fair.requestNs

def placedVruntime (s : Scheduler) (t : TaskId) (curr : Option TaskId) : Int :=
  fullMean s curr - (storedLag s t * (fullWeight s curr + weight s t)).tdiv (fullWeight s curr)

theorem avgVruntime_eq (hpos : 0 < fullWeight s curr) (hmean : i64 (fullMean s curr) = fullMean s curr) :
    avgVruntime s curr = fullMean s curr := by
  rw [← hmean]
  cases curr with
  | none =>
    rw [fullMean, fullSum, fullWeight, elim_none, elim_none, Int.add_zero, Int.add_zero] at *
    exact if_neg (not_le.2 hpos)
  | some c => exact if_neg (not_le.2 hpos)

theorem placeEntity_eq (hpos : 0 < fullWeight s curr) (hfull : i64 (fullWeight s curr) = fullWeight s curr)
    (hmean : i64 (fullMean s curr) = fullMean s curr)
    (hplaced : i64 (placedVruntime s t curr) = placedVruntime s t curr) :
    placeEntity s t (avgVruntime s curr) (load s curr) = placedVruntime s t curr := by
  have hload : load s curr = fullWeight s curr := by
    cases curr with
    | none => exact (Int.add_zero _).symm
    | some c => exact hfull
  rw [avgVruntime_eq hpos hmean, hload, placeEntity, if_neg (not_le.2 hpos)]
  exact hplaced

/-- What a task adds that joins; the runner stays as it is. -/
theorem enqueueTree_full (s : Scheduler) (hcurr : curr ≠ some t)
    (htotal : i64 (s.fair.totalWeight + weight s t) = s.fair.totalWeight + weight s t) :
    ((enqueueTree s t curr).tasks t).fair.vruntime = (s.tasks t).fair.vruntime ∧
    fullWeight (enqueueTree s t curr) curr = fullWeight s curr + weight s t ∧
    fullSum (enqueueTree s t curr) curr = fullSum s curr + (s.tasks t).fair.vruntime * weight s t := by
  have hjoin : (enqueueTree s t curr).tasks = (allocTree s t).tasks ∧
      (enqueueTree s t curr).fair.totalWeight = (joinTree s t).fair.totalWeight ∧
      (enqueueTree s t curr).fair.sumWv = (joinTree s t).fair.sumWv := by
    rw [enqueueTree_eq]
    split <;> exact ⟨rfl, rfl, rfl⟩
  simp only [fullWeight, fullSum, hjoin, joinTree, weight, allocTree_fair, true_and] at htotal ⊢
  rw [htotal]
  cases curr with
  | none => exact ⟨Int.add_right_comm .., Int.add_right_comm ..⟩
  | some c =>
    have hct : c ≠ t := fun he => hcurr (he ▸ rfl)
    simp only [elim_some, weight, hjoin, allocTree_of_ne hct]
    exact ⟨Int.add_right_comm .., Int.add_right_comm ..⟩

theorem setRequest_full (s : Scheduler) (v : Int) (r : Nat) (hcurr : curr ≠ some t) :
    ((setRequest s t v r).tasks t).fair.vruntime = v ∧ weight (setRequest s t v r) t = weight s t ∧
    fullWeight (setRequest s t v r) curr = fullWeight s curr ∧ fullSum (setRequest s t v r) curr = fullSum s curr := by
  have htasks := modify_tasks s t
  simp only [fullWeight, fullSum, weight, setRequest, modifyFair, htasks, if_true, true_and]
  cases curr with
  | none => exact ⟨rfl, rfl⟩
  | some c =>
    have hct : c ≠ t := fun he => hcurr (he ▸ rfl)
    simp only [elim_some, weight, htasks, if_neg hct]
    exact ⟨rfl, rfl⟩

/-- Where an `i64` holds every value on the way, a task that joins by its stored lag has that lag again, up to two. -/
theorem enqueueTree_applyLag_lag (s : Scheduler) (t : TaskId) (curr : Option TaskId) (hcurr : curr ≠ some t)
    (hload : 0 < fullWeight s curr) (hweight : 0 < weight s t) (hfull : i64 (fullWeight s curr) = fullWeight s curr)
    (hmean : i64 (fullMean s curr) = fullMean s curr)
    (hplaced : i64 (placedVruntime s t curr) = placedVruntime s t curr)
    (htotal : i64 (s.fair.totalWeight + weight s t) = s.fair.totalWeight + weight s t)
    (hnew : i64 (fullMean (enqueueTree (applyLag s t curr) t curr) curr) =
      fullMean (enqueueTree (applyLag s t curr) t curr) curr) :
    let s' := enqueueTree (applyLag s t curr) t curr
    |avgVruntime s' curr - (s'.tasks t).fair.vruntime - storedLag s t| ≤ 2 := by
  obtain ⟨hset, hw, hfw, hfs⟩ := setRequest_full s (placedVruntime s t curr) (s.tasks t).fair.requestNs hcurr
  rw [applyLag, placeEntity_eq hload hfull hmean hplaced] at hnew ⊢
  obtain ⟨hv, hW, hS⟩ := enqueueTree_full (setRequest s t (placedVruntime s t curr) (s.tasks t).fair.requestNs) hcurr
    (by rw [hw]; exact htotal)
  rw [hset, hw, hfs] at hS
  rw [hw, hfw] at hW
  have havg := avgVruntime_eq (by rw [hW]; exact add_pos hload hweight) hnew
  rw [fullMean, hW, hS] at havg
  intro s'
  rw [hv, hset]
  exact lag_bound hload hweight rfl havg

/-- One task runs and one waits; the third joins with a lag. -/
def sampleLag : Scheduler :=
  (enqueueTree (new .standard sampleKernel 0 0) 1 (some 2)).modifyFair 3 fun e => { e with vlag := 7001 }

theorem enqueueTree_applyLag_lag_sample : storedLag sampleLag 3 = 7001 ∧
    let s' := enqueueTree (applyLag sampleLag 3 (some 2)) 3 (some 2)
    |avgVruntime s' (some 2) - (s'.tasks 3).fair.vruntime - storedLag sampleLag 3| ≤ 2 :=
  ⟨by decide +kernel, enqueueTree_applyLag_lag sampleLag 3 (some 2) (by decide) (by decide +kernel) (by decide +kernel)
    (by decide +kernel) (by decide +kernel) (by decide +kernel) (by decide +kernel) (by decide +kernel)⟩

end XKernel.Sched
