import XKernel.Sched.DeadlineQueue
/-!
# The realtime lists

What each operation of the class does to the lists, the bitmap and the seats.
-/

namespace XKernel.Sched

open Lib RtClass Function List RtClass

variable {s s' : Scheduler} {t u : TaskId} {p : Nat} {prio : TaskId → Nat}

/-! ## The bitmap -/

theorem and_bit_ne_zero (x : BitVec 128) (i : Nat) : (x &&& (1#128 <<< i) != 0) = x.getLsbD i := by
  rw [← BitVec.twoPow_eq, BitVec.and_twoPow]
  cases h : x.getLsbD i with
  | false => rfl
  | true =>
    have hi : (BitVec.twoPow 128 i).getLsbD i = true := by
      simp [BitVec.lt_of_getLsbD h]
    rw [if_pos rfl, bne_iff_ne]
    intro hz
    simp [hz] at hi

theorem getLsbD_and_not_bit (x : BitVec 128) {i j : Nat} (hi : i < 128) (hj : j < 128) :
    (x &&& ~~~(1#128 <<< i)).getLsbD j = (x.getLsbD j && !decide (i = j)) := by
  rw [← BitVec.twoPow_eq, BitVec.getLsbD_and, BitVec.getLsbD_not, BitVec.getLsbD_twoPow, decide_eq_true hj,
    decide_eq_true hi, Bool.true_and, Bool.true_and]

theorem isOccupied_eq (c : RtClass) (p : Nat) : c.isOccupied p = c.occupied.getLsbD (idx p) := and_bit_ne_zero _ _

theorem idx_lt (hp : inRange p = true) : idx p < rtPrioLevels := by
  simp only [inRange, Bool.and_eq_true, decide_eq_true_eq] at hp
  simp only [idx, rtPrioLevels, maxRtPriority] at *
  omega

theorem lt_128 {i : Nat} (hi : i < rtPrioLevels) : i < 128 := hi.trans (by decide)

theorem inRange_iff : inRange p = true ↔ minRtPriority ≤ p ∧ p ≤ maxRtPriority := by
  rw [inRange, Bool.and_eq_true, decide_eq_true_eq, decide_eq_true_eq]

/-! ## Joining and leaving a list -/

theorem RtOk.not_linked (h : RtOk s prio) (hs : s.seats t ≠ .rt) : s.rt.isLinked t = false := by
  rw [Bool.eq_false_iff]
  intro hc
  obtain ⟨i, -, hi⟩ := any_eq_true.1 hc
  exact hs ((h.mem i t).1 (of_decide_eq_true hi)).1

variable {prio' : TaskId → Nat}

/-- The list of a priority changes, and with it its bit and the number of tasks. -/
theorem RtOk.requeue (h : RtOk s prio) (hp : inRange p = true) {l : List TaskId} {seat : QueueSeat} (hl : l.Nodup)
    (hq : s'.rt.queues = update s.rt.queues (idx p) l)
    (hbit : ∀ j, j < rtPrioLevels →
      s'.rt.occupied.getLsbD j = if j = idx p then decide (l ≠ []) else s.rt.occupied.getLsbD j)
    (hqueued : s'.rt.queued + (s.rt.queues (idx p)).length = s.rt.queued + l.length)
    (hseats : s'.seats = update s.seats t seat) (hprio : ∀ u, u ≠ t → prio' u = prio u)
    (hmem : ∀ u, u ≠ t → (u ∈ l ↔ u ∈ s.rt.queues (idx p))) (ht : t ∈ l ↔ seat = .rt)
    (hold : s.seats t = .rt → idx (prio t) = idx p) (hnew : seat = .rt → idx (prio' t) = idx p) : RtOk s' prio' := by
  have hi := idx_lt hp
  refine ⟨fun i u => ?_, fun i => ?_, fun i hlt => ?_, ?_⟩
  · show _ ↔ s'.seats u = .rt ∧ _
    rw [hq, hseats]
    by_cases hu : u = t <;> by_cases hip : i = idx p
    · rw [hu, hip, update_self, update_self, ht, and_iff_left_of_imp hnew]
    · rw [hu, update_of_ne hip, update_self, h.mem]
      exact iff_of_false (fun hc => hip (hc.2.symm.trans (hold hc.1))) fun hc => hip (hc.2.symm.trans (hnew hc.1))
    · rw [hip, update_self, update_of_ne hu, hmem u hu, hprio u hu]
      exact h.mem _ u
    · rw [update_of_ne hip, update_of_ne hu, hprio u hu]
      exact h.mem i u
  · rw [hq]
    by_cases hip : i = idx p
    · rw [hip, update_self]
      exact hl
    · rw [update_of_ne hip]
      exact h.nodup i
  · rw [hbit i hlt, hq]
    by_cases hip : i = idx p
    · rw [if_pos hip, hip, update_self, decide_eq_true_eq]
    · rw [if_neg hip, update_of_ne hip]
      exact h.occupied i hlt
  · have hsum := Cover.sum_update (fun _ (l : List TaskId) => l.length) s.rt.queues (Finset.mem_range.2 hi) l
    rw [← hq, ← h.queued] at hsum
    omega

variable {front : Bool}

/-- A task that is in no list joins the one of its priority. -/
theorem RtOk.enqueueReady (h : RtOk s prio) (hj : MayJoin .rt s t) (hs : s.seats t ≠ .rt)
    (hprio : ∀ u, u ≠ t → prio u = s.prio u) (he : enqueueReady s t front = some s') :
    Acts .rt s s' (update s.seats t .rt) := by
  have htouch : Touch .rt s (s.setSeat t .rt) := .setSeat hj.seat (.inr ⟨rfl, hj.schedClass, hj.curr⟩)
  have hseats := s.seats_setSeat t .rt
  have hprios : (s.setSeat t .rt).prio = s.prio := s.prio_setSeat t .rt
  unfold RtClass.enqueueReady at he
  simp only at he
  split at he
  · cases he
  rename_i hp
  rw [Bool.not_eq_true', Bool.not_eq_false] at hp
  have hlink : (s.setSeat t .rt).rt.isLinked t = false := h.not_linked hs
  rw [if_neg (by rw [hlink]; exact Bool.false_ne_true)] at he
  generalize hl : (if front then t :: (s.setSeat t .rt).rt.queues (idx (s.tasks t).rtPriority)
    else (s.setSeat t .rt).rt.queues (idx (s.tasks t).rtPriority) ++ [t]) = l at he
  change (if front then t :: s.rt.queues (idx (s.prio t)) else s.rt.queues (idx (s.prio t)) ++ [t]) = l at hl
  have hi : idx (s.prio t) < 128 := lt_128 (idx_lt hp)
  have hnew : t ∉ s.rt.queues (idx (s.prio t)) := fun hc => hs ((h.mem _ t).1 hc).1
  have hmem : ∀ u, u ∈ l ↔ u = t ∨ u ∈ s.rt.queues (idx (s.prio t)) := by
    intro u
    rw [← hl]
    split
    · exact mem_cons
    · rw [mem_append, mem_singleton, or_comm]
  have hlen : l.length = (s.rt.queues (idx (s.prio t))).length + 1 := by
    rw [← hl]
    split
    · rfl
    · rw [length_append, length_singleton]
  have hnodup : l.Nodup := by
    rw [← hl]
    split
    · exact nodup_cons.2 ⟨hnew, h.nodup _⟩
    · refine nodup_append.2 ⟨h.nodup _, nodup_singleton t, fun a ha b hb hab => ?_⟩
      rw [hab, mem_singleton.1 hb] at ha
      exact hnew ha
  have hne : l ≠ [] := ne_nil_of_mem ((hmem t).2 (.inl rfl))
  cases he
  refine ⟨htouch.trans (.setRt _ _), h.requeue hp hnodup rfl (fun j hj => ?_) ?_ hseats
    (fun u hu => ?_) (fun u hu => ?_)
    (iff_of_true ((hmem t).2 (.inl rfl)) rfl) (fun hc => absurd hc hs) fun _ =>
      congrArg idx (congrFun hprios t), hseats⟩
  · show (s.rt.occupied ||| bit (s.prio t)).getLsbD j = if j = idx (s.prio t) then _ else _
    rw [bit, ← BitVec.twoPow_eq, BitVec.getLsbD_or, BitVec.getLsbD_twoPow, decide_eq_true hi, Bool.true_and]
    by_cases hji : j = idx (s.prio t)
    · rw [if_pos hji, decide_eq_true hne, decide_eq_true hji.symm, Bool.or_true]
    · rw [if_neg hji, decide_eq_false (Ne.symm hji), Bool.or_false]
  · show s.rt.queued + 1 + _ = _
    rw [hlen]
    exact Nat.add_right_comm ..
  · exact (congrFun hprios u).trans (hprio u hu).symm
  · rw [hmem, or_iff_right hu]
    rfl

theorem removed_prio (s : Scheduler) (p : Nat) (t : TaskId) :
    (removed s p t).prio = s.prio := s.prio_setSeat t .detached

theorem removed_seats (s : Scheduler) (p : Nat) (t : TaskId) : (removed s p t).seats = update s.seats t .detached :=
  s.seats_setSeat t .detached

theorem RtOk.removed (h : RtOk s prio) (hp : inRange p = true) (ht : t ∈ s.rt.queues (idx p)) :
    RtOk (removed s p t) prio := by
  have hi := idx_lt hp
  have hmem : ∀ u, u ∈ (s.rt.queues (idx p)).erase t ↔ u ≠ t ∧ u ∈ s.rt.queues (idx p) :=
    fun u => (h.nodup _).mem_erase_iff
  have hq : (RtClass.removed s p t).rt.queues = update s.rt.queues (idx p) ((s.rt.queues (idx p)).erase t) := by
    unfold RtClass.removed RtClass.markEmptyIf
    simp only
    split <;> rfl
  refine h.requeue hp ((h.nodup _).erase t) hq (fun j hj => ?_) ?_ (removed_seats s p t) (fun _ _ => rfl)
    (fun u hu => by rw [hmem, and_iff_right hu]) (iff_of_false (fun hc => ((hmem t).1 hc).1 rfl) nofun)
    (fun _ => ((h.mem _ t).1 ht).2) nofun
  · have hqi : (s.rt.setQueue p ((s.rt.queues (idx p)).erase t)).queues (idx p) = (s.rt.queues (idx p)).erase t :=
      update_self ..
    unfold RtClass.removed RtClass.markEmptyIf
    simp only [hqi]
    split
    · rename_i hempty
      show (s.rt.occupied &&& ~~~ bit p).getLsbD j = _
      rw [bit, getLsbD_and_not_bit _ (lt_128 hi) (lt_128 hj)]
      by_cases hji : j = idx p
      · rw [if_pos hji, decide_eq_true hji.symm, isEmpty_iff.1 hempty, decide_eq_false (not_not.2 rfl), Bool.not_true,
          Bool.and_false]
      · rw [if_neg hji, decide_eq_false (Ne.symm hji), Bool.not_false, Bool.and_true]
    · rename_i hempty
      show s.rt.occupied.getLsbD j = _
      by_cases hji : j = idx p
      · rw [if_pos hji, hji, (h.occupied _ hi).2 (ne_nil_of_mem ht), decide_eq_true]
        exact fun hc => hempty (isEmpty_iff.2 hc)
      · rw [if_neg hji]
  · have hlen := length_erase_of_mem ht
    have hpos := length_pos_of_mem ht
    have hle : (s.rt.queues (idx p)).length ≤ s.rt.queued := by
      rw [h.queued]
      exact Finset.single_le_sum (f := fun i => (s.rt.queues i).length) (fun _ _ => Nat.zero_le _)
        (Finset.mem_range.2 hi)
    have : (RtClass.removed s p t).rt.queued = s.rt.queued - 1 := by
      unfold RtClass.removed RtClass.markEmptyIf
      simp only
      split <;> rfl
    omega

theorem touch_removed (hs : s.seats t = .rt) : Touch .rt s (removed s p t) :=
  (Touch.setSeat (.inr hs) (.inl rfl)).trans (.setRt _ _)

theorem RtOk.taken (h : RtOk s s.prio) (hp : inRange p = true) (ht : t ∈ s.rt.queues (idx p)) :
    Taken .rt s (RtClass.removed s p t) (some t) := by
  have hs := ((h.mem _ t).1 ht).1
  refine ⟨hs, touch_removed hs, ?_, removed_seats s p t⟩
  rw [ClassOk, removed_prio]
  exact h.removed hp ht

/-- `dequeue_addr` finds the task in the list it is in. -/
theorem RtOk.dequeueAddr (h : RtOk s prio) (hp : inRange p = true) : dequeueAddr s p t =
    if t ∈ s.rt.queues (idx p) then (some t, RtClass.removed s p t) else (none, s) := by
  unfold RtClass.dequeueAddr
  rw [hp, isOccupied_eq]
  by_cases ht : t ∈ s.rt.queues (idx p)
  · rw [(h.occupied _ (idx_lt hp)).2 (ne_nil_of_mem ht)]
    rfl
  · split <;> rfl

/-- Only the priorities of the queued tasks matter. -/
theorem RtOk.reprio (h : RtOk s prio) (hp : ∀ u, s.seats u = .rt → prio' u = prio u) : RtOk s prio' :=
  h.congr rfl rfl rfl fun i u => and_congr_right fun hs => by rw [hp u hs]

/-! ## Operations that do not move a task -/

theorem RtOk.modifyRt (h : RtOk s prio) (t : TaskId) (f : RtEntity → RtEntity) : RtOk (s.modifyRt t f) prio := by
  refine h.congr rfl rfl rfl fun i u => and_congr_left' (iff_of_eq ?_)
  exact congrArg (· = _) (congrFun (s.seats_modifyRt t f) u).symm

theorem acts_modifyRt (h : ClassOk s .rt) (t : TaskId) (f : RtEntity → RtEntity) :
    Acts .rt s (s.modifyRt t f) s.seats := by
  refine ⟨.modifyRt s t f, ?_, s.seats_modifyRt t f⟩
  rw [ClassOk, s.prio_modifyRt t f]
  exact RtOk.modifyRt h t f

/-- The share of the class in a period has nothing to do with the lists. -/
theorem acts_setRt (h : ClassOk s .rt) {r : RtClass} (hq : r.queues = s.rt.queues) (ho : r.occupied = s.rt.occupied)
    (hn : r.queued = s.rt.queued) : Acts .rt s { s with rt := r } s.seats :=
  ⟨.setRt s r, RtOk.congr h hq ho hn fun _ _ => .rfl, rfl⟩

/-! ## Class operations -/

theorem RtClass.advance_acts (h : ClassOk s .rt) : Acts .rt s (advance s) s.seats := by
  unfold advance
  simp only
  split <;> split <;> exact acts_setRt h rfl rfl rfl

theorem RtClass.account_acts (h : ClassOk s .rt) (t : TaskId) (elapsedNs : Nat) :
    Acts .rt s (account s t elapsedNs).1 s.seats := by
  unfold account
  split
  · exact .refl h
  · extract_lets used r s1 old left rotate
    have h1 : Acts .rt s s1 s.seats := acts_setRt h rfl rfl rfl
    have h2 : ∀ f, Acts .rt s (s1.modifyRt t f) s.seats := fun f => h1.andThen (acts_modifyRt h1.ok t f)
    split
    · split
      · exact h2 fun _ => ⟨s1.rt.rrSliceNs, rotate⟩
      · exact h2 fun e => { e with rrLeftNs := left }
    · exact h1

/-- The prepared task joins the list of its priority. -/
theorem Acts.enqueueReady {s1 : Scheduler} (h : Acts .rt s s1 s.seats) (hj : MayJoin .rt s t)
    (hs : s.seats t = .detached) (he : enqueueReady s1 t front = some s') : Acts .rt s s' (update s.seats t .rt) := by
  have hseat : s1.seats t = s.seats t := congrFun h.seats t
  have hnot : s1.seats t ≠ .rt := by
    rw [hseat, hs]
    nofun
  have h1 := RtOk.enqueueReady h.ok (hj.touch h.touch hseat) hnot (fun _ _ => rfl) he
  rw [h.seats] at h1
  exact h.trans h1

theorem RtClass.enqueue_acts {kind : EnqueueKind} (h : ClassOk s .rt) (hj : MayJoin .rt s t)
    (hs : s.seats t = .detached) (he : enqueue s t kind = some s') : Acts .rt s s' (update s.seats t .rt) := by
  unfold enqueue at he
  split at he
  · exact (acts_modifyRt h t _).enqueueReady hj hs he
  · exact (Acts.refl h).enqueueReady hj hs he

theorem RtClass.putPrev_acts {reason : LeaveReason} (h : ClassOk s .rt) (hj : MayJoin .rt s t)
    (hs : s.seats t = .detached) (he : putPrev s t reason = some s') :
    Acts .rt s s' (if reason = .yield ∨ reason = .preempt then update s.seats t .rt else s.seats) := by
  have h1 := acts_modifyRt h t fun e => { e with rrRotate := false }
  unfold putPrev at he
  cases reason with
  | yield => exact h1.enqueueReady hj hs he
  | preempt =>
    simp only at he
    split at he <;> exact h1.enqueueReady hj hs he
  | block | migrate | exit =>
    cases he
    exact h1

variable {r : Option TaskId}

theorem RtClass.dequeue_taken (h : ClassOk s .rt) (he : RtClass.dequeue s t = (r, s')) :
    Taken .rt s s' r ∧ (r = none ∨ r = some t) := by
  unfold RtClass.dequeue at he
  split at he
  · cases he
    exact ⟨.refl h, .inl rfl⟩
  cases hp : inRange (s.tasks t).rtPriority with
  | false =>
    rw [RtClass.dequeueAddr, hp] at he
    cases he
    exact ⟨.refl h, .inl rfl⟩
  | true =>
    rw [RtOk.dequeueAddr h hp] at he
    split at he <;> cases he
    · exact ⟨RtOk.taken h hp ‹_›, .inr rfl⟩
    · exact ⟨.refl h, .inl rfl⟩

/-- A list that is not empty belongs to a priority in range. -/
theorem RtOk.inRange (h : RtOk s s.prio) (hr : ∀ t, s.seats t = .rt → inRange (s.prio t) = true)
    (hp : minRtPriority ≤ p) (ht : t ∈ s.rt.queues (idx p)) : inRange p = true := by
  obtain ⟨hs, hi⟩ := (h.mem _ t).1 ht
  have hrange := inRange_iff.1 (hr t hs)
  rw [inRange_iff]
  unfold idx at hi
  omega

variable {want : List TaskId → TaskId → Bool}

section

variable (h : ClassOk s .rt)
include h

section

variable (hr : ∀ t, s.seats t = .rt → inRange (s.prio t) = true)
include hr

theorem stealLoop_taken {asked asked' : List TaskId} {n : Nat}
    (he : stealLoop want s n asked = (r, asked', s')) : Taken .rt s s' r := by
  induction n generalizing asked with
  | zero =>
    cases he
    exact .refl h
  | succ p ih =>
    unfold stealLoop at he
    split at he
    · exact ih he
    · split at he
      · rename_i u asked'' hw
        cases he
        have hm := firstWanted_mem hw
        exact RtOk.taken h (RtOk.inRange h hr (Nat.le_add_left 1 p) hm) hm
      · exact ih he

theorem RtClass.steal_taken {asked : List TaskId}
    (he : steal want s = (r, asked, s')) : Taken .rt s s' r := by
  unfold steal at he
  split at he
  · cases he
    exact .refl h
  · exact stealLoop_taken h hr he

theorem RtClass.pickNext_taken
    (he : RtClass.pickNext s = (r, s')) : Taken .rt s s' r := by
  unfold RtClass.pickNext at he
  split at he
  · cases he
    exact .refl h
  split at he
  · cases he
    exact .refl h
  rename_i prio hprio
  split at he
  · cases he
    exact .refl h
  rename_i u rest hq
  have hm : u ∈ s.rt.queues (idx prio) := by
    rw [hq]
    exact mem_cons_self
  have hle : minRtPriority ≤ prio := by
    unfold RtClass.highestReadyPrio at hprio
    split at hprio <;> cases hprio
    exact Nat.le_add_left _ _
  obtain ⟨hs, hacts⟩ := RtOk.taken h (RtOk.inRange h hr hle hm) hm
  simp only at he
  split at he
  · cases he
    exact ⟨hs, hacts.andThen (acts_modifyRt hacts.ok u _)⟩
  · cases he
    exact ⟨hs, hacts⟩

end

theorem RtClass.switchedFrom_acts (t : TaskId) : Acts .rt s (switchedFrom s t) s.seats :=
  acts_modifyRt h t _

theorem RtClass.switchedTo_acts (t : TaskId) : Acts .rt s (switchedTo s t) s.seats := by
  unfold switchedTo
  split
  · exact acts_modifyRt h t _
  · exact .refl h

end

/-- After the attributes of a task have changed, it moves to the list of its new priority. -/
theorem RtClass.attrChanged_acts {old : SchedAttr} {isCurr : Bool} (h : RtOk s prio)
    (hprio : ∀ u, u ≠ t → prio u = s.prio u) (hold : prio t = old.rtPriority.get)
    (hr : s.seats t = .rt → RtClass.inRange (prio t) = true) (hc : (s.tasks t).schedClass = .rt)
    (hcurr : isCurr = true ↔ s.curr = some t) (hrun : s.curr = some t → s.seats t = .detached)
    (he : RtClass.attrChanged s t old isCurr = some s') : Acts .rt s s' s.seats := by
  unfold RtClass.attrChanged at he
  extract_lets new s1 at he
  obtain ⟨htouch, h1, hseats, hprio1⟩ : Touch .rt s s1 ∧ RtOk s1 prio ∧ s1.seats = s.seats ∧ s1.prio = s.prio := by
    have hmod : ∀ f, Touch .rt s (s.modifyRt t f) ∧ RtOk (s.modifyRt t f) prio ∧ (s.modifyRt t f).seats = s.seats ∧
        (s.modifyRt t f).prio = s.prio :=
          fun f => ⟨.modifyRt s t f, h.modifyRt t f, s.seats_modifyRt t f, s.prio_modifyRt t f⟩
    unfold s1
    split
    · exact hmod _
    · split
      · exact hmod _
      · exact ⟨.refl _ s, h, rfl, rfl⟩
  clear_value s1
  -- the task stays where it is
  have hstay : (s.seats t = .rt → prio t = new) → Acts .rt s s1 s.seats := by
    intro hnew
    refine ⟨htouch, h1.reprio fun u hu => ?_, hseats⟩
    rw [hprio1]
    by_cases hut : u = t
    · rw [hut]
      rw [hseats, hut] at hu
      exact (hnew hu).symm
    · exact (hprio u hut).symm
  split at he
  · rename_i hcur
    cases he
    refine hstay fun hs => ?_
    rw [hrun (hcurr.1 hcur)] at hs
    cases hs
  rename_i hcur
  split at he
  swap
  · rename_i heq
    cases he
    exact hstay fun _ => hold.trans (not_not.1 heq)
  by_cases hs : s.seats t = .rt
  swap
  · -- it is in no list
    have hnone : RtClass.dequeueAddr s1 old.rtPriority.get t = (none, s1) := by
      cases hp : RtClass.inRange old.rtPriority.get with
      | false =>
        rw [RtClass.dequeueAddr, hp]
        rfl
      | true =>
        rw [h1.dequeueAddr hp, if_neg]
        intro hm
        rw [← hseats] at hs
        exact hs ((h1.mem _ t).1 hm).1
    rw [hnone] at he
    cases he
    exact hstay fun hc => absurd hc hs
  · have hp := hr hs
    rw [hold] at hp
    have hm : t ∈ s1.rt.queues (idx old.rtPriority.get) := by
      rw [h1.mem, hold]
      exact ⟨(congrFun hseats t).trans hs, rfl⟩
    rw [h1.dequeueAddr hp, if_pos hm] at he
    have h2 := h1.removed hp hm
    have htouch2 := htouch.trans (touch_removed (p := old.rtPriority.get) ((congrFun hseats t).trans hs))
    have hseats2 := removed_seats s1 old.rtPriority.get t
    have hprio2 := (removed_prio s1 old.rtPriority.get t).trans hprio1
    rw [hseats] at hseats2
    simp only at he
    generalize removed s1 old.rtPriority.get t = s2 at he h2 htouch2 hseats2 hprio2
    have hdet : s2.seats t = .detached := by rw [hseats2, update_self]
    have hjoin : MayJoin .rt s2 t := by
      refine ⟨.inl hdet, (htouch2.schedClass t).trans hc, ?_⟩
      rw [htouch2.curr]
      exact fun hc => hcur (hcurr.2 hc)
    have hput : ∀ front, RtClass.enqueueReady s2 t front = some s' → Acts .rt s s' s.seats := by
      intro front he
      have h3 := h2.enqueueReady hjoin (by rw [hdet]; nofun) (fun u hu => by rw [hprio2]; exact hprio u hu) he
      refine ⟨htouch2.trans h3.touch, h3.ok, ?_⟩
      rw [h3.seats, hseats2, update_idem, ← hs, update_eq_self]
    split at he
    · exact hput _ he
    · exact hput _ he

end XKernel.Sched
