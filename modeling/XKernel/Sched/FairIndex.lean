import XKernel.Sched.ClassRule
/-!
# The books of the Fair class

The class keeps the first task of each tree, their number, the sum of the weights and
the weighted sum of the virtual runtimes. A task changes its weight and its virtual
runtime only while it is in no tree, except in `set_attr`, which publishes the new
weight before the trees are put right.
-/

namespace XKernel.Sched

open Lib FairClass Function List Option FairClass Scheduler FairOk

variable {k : Kconfig} {s s' s'' : Scheduler} {t u : TaskId} {w : TaskId → Int} {loose : Option TaskId}

/-- The books when `w` are the weights with which the tasks were queued. -/
structure FairBooks (w : TaskId → Int) (s : Scheduler) : Prop where
  firstDeadline : s.fair.firstDeadline = s.fair.ready.head?
  firstVruntime : s.fair.firstVruntime = s.fair.vruntimeTree.head?
  queued : s.fair.queued = s.fair.ready.length
  totalWeight : s.fair.totalWeight = i64 (s.fair.ready.map w).sum
  sumWv : s.fair.sumWv = (s.fair.ready.map fun t => (s.tasks t).fair.vruntime * w t).sum

/-- The buddy is in the trees, or it is the task that has just left them. -/
structure FairIndex (loose : Option TaskId) (s : Scheduler) : Prop extends FairBooks (weight s) s where
  buddy : ∀ t, s.fair.nextBuddy = some t → t ∈ s.fair.ready ∨ loose = some t
  weights : ∀ t, (s.tasks t).schedClass = .fair → (s.tasks t).fair.weight = (s.tasks t).attr.nice.weight

/-! ## Work outside the trees -/

theorem FairBooks.congr {w' : TaskId → Int} (h : FairBooks w s) (hw : ∀ u ∈ s.fair.ready, w' u = w u) :
    FairBooks w' s := by
  refine ⟨h.firstDeadline, h.firstVruntime, h.queued, ?_, ?_⟩
  · rw [h.totalWeight, map_congr_left hw]
  · rw [h.sumWv]
    exact congrArg sum (map_congr_left fun u hu => by rw [hw u hu])

/-- No task of the trees changes. -/
theorem FairBooks.same (h : FairBooks w s) {m : Int} {b : Option TaskId} {y : Bool}
    (hf : s'.fair = { s.fair with minVruntime := m, nextBuddy := b, hasSyncWake := y })
    (hv : ∀ u ∈ s.fair.ready, (s'.tasks u).fair.vruntime = (s.tasks u).fair.vruntime) : FairBooks w s' := by
  refine ⟨?_, ?_, ?_, ?_, ?_⟩ <;> rw [hf]
  · exact h.firstDeadline
  · exact h.firstVruntime
  · exact h.queued
  · exact h.totalWeight
  · refine h.sumWv.trans (congrArg sum (map_congr_left fun u hu => ?_))
    rw [hv u hu]

section

variable (h : FairIndex loose s)
include h

theorem FairIndex.offtree (ho : Offtree t s s') (ht : t ∉ s.fair.ready) : FairIndex loose s' := by
  obtain ⟨m, b, y, hf, hb⟩ := ho.fair
  have hwt : weight s' = weight s := by
    funext u
    rw [weight, weight, ho.weight]
  refine ⟨?_, fun u hu => ?_, fun u hu => ?_⟩
  · rw [hwt]
    refine h.toFairBooks.same hf fun u hu => ?_
    rw [ho.other u fun he => ht (he ▸ hu)]
  · rw [hf] at hu ⊢
    exact h.buddy u (hb u hu)
  · rw [ho.touch.schedClass] at hu
    rw [ho.weight, ho.touch.attr]
    exact h.weights u hu

theorem FairIndex.setCurr (clock : RqClock) (curr : Option TaskId) :
    FairIndex loose { s with clock, curr } :=
  { h with }

theorem FairIndex.setBuddy {b : Option TaskId} (y : Bool) (hb : ∀ t, b = some t → t ∈ s.fair.ready) :
    FairIndex none { s with fair := { s.fair with nextBuddy := b, hasSyncWake := y } } :=
  ⟨h.toFairBooks.same rfl fun _ _ => rfl, fun t ht => .inl (hb t ht), h.weights⟩

theorem FairIndex.clearBuddy : FairIndex none (clearBuddy s) := h.setBuddy false nofun

end

theorem FairIndex.loosen (h : FairIndex none s) (loose : Option TaskId) : FairIndex loose s :=
  ⟨h.toFairBooks, fun t ht => .inl ((h.buddy t ht).resolve_right nofun), h.weights⟩

theorem FairIndex.settle (h : FairIndex (some t) s) (hb : s.fair.nextBuddy ≠ some t ∨ t ∈ s.fair.ready) :
    FairIndex none s := by
  refine ⟨h.toFairBooks, fun u hu => .inl ((h.buddy u hu).elim id fun hut => ?_), h.weights⟩
  cases hut
  exact hb.resolve_left (not_not.2 hu)

theorem FairIndex.clearBuddyIf (h : FairIndex (some t) s) : FairIndex none (FairClass.clearBuddyIf s t) := by
  unfold FairClass.clearBuddyIf
  split
  · exact h.clearBuddy
  · exact h.settle (.inl ‹_›)

/-! ## Joining and leaving the trees -/

theorem i64_add (x y : Int) : i64 (i64 x + y) = i64 (x + y) := Int.bmod_add_bmod

theorem i64_sub (x y : Int) : i64 (i64 x - y) = i64 (x - y) := Int.bmod_sub_bmod

theorem allocTree_fair (s : Scheduler) (t : TaskId) : ((allocTree s t).tasks t).fair =
    { (s.tasks t).fair with treeId := s.fair.nextEnqueueId } := by
  simp only [allocTree, setSeat, modifyFair, modify_tasks, if_true]

/-- `enqueue_tree` up to the minimum of the virtual runtimes. -/
def joinTree (s : Scheduler) (t : TaskId) : Scheduler :=
  { allocTree s t with fair := { (allocTree s t).fair with
    ready := Index.insert (deadlineKey (allocTree s t)) t s.fair.ready
    vruntimeTree := Index.insert (vruntimeKey (allocTree s t)) t s.fair.vruntimeTree
    firstDeadline := if s.fair.firstDeadline.all (deadlineKey (allocTree s t) t < deadlineKey (allocTree s t) ·)
      then some t else s.fair.firstDeadline
    firstVruntime := if s.fair.firstVruntime.all (vruntimeKey (allocTree s t) t < vruntimeKey (allocTree s t) ·)
      then some t else s.fair.firstVruntime
    queued := s.fair.queued + 1
    sumWv := s.fair.sumWv + ((allocTree s t).tasks t).fair.vruntime * weight (allocTree s t) t
    totalWeight := i64 (s.fair.totalWeight + weight (allocTree s t) t) } }

theorem enqueueTree_eq (s : Scheduler) (t : TaskId) (curr : Option TaskId) : enqueueTree s t curr =
    if curr.isSome then updateMinVruntime (joinTree s t) curr else joinTree s t := by
  have hjoin : enqueueTree s t none = joinTree s t := by
    obtain ⟨tasks, clock, curr, stop, dl, rt, ⟨ready, vruntimeTree, firstDeadline, firstVruntime, rest⟩, idle⟩ := s
    cases firstDeadline <;> cases firstVruntime <;> rfl
  rw [← hjoin]
  cases curr <;> rfl

/-- A task joins with the weight that it has. -/
theorem FairBooks.joinTree (h : FairBooks w s) (hok : FairOk s) (hs : s.seats t ≠ .fair) (hw : w t = weight s t) :
    FairBooks w (joinTree s t) := by
  have hself : weight (allocTree s t) t = w t := by
    rw [weight, allocTree_fair, hw]
    rfl
  refine ⟨?_, ?_, ?_, ?_, ?_⟩
  · show _ = (Index.insert _ t s.fair.ready).head?
    rw [Index.head?_insert, ← h.firstDeadline]
    rfl
  · show _ = (Index.insert _ t s.fair.vruntimeTree).head?
    rw [Index.head?_insert, ← h.firstVruntime]
    rfl
  · show s.fair.queued + 1 = (Index.insert _ t s.fair.ready).length
    rw [(Index.insert_perm _ t s.fair.ready).length_eq, h.queued]
    rfl
  · show i64 (s.fair.totalWeight + weight (allocTree s t) t) = i64 ((Index.insert _ t s.fair.ready).map w).sum
    rw [((Index.insert_perm _ t s.fair.ready).map w).sum_eq, h.totalWeight, i64_add, hself, map_cons, sum_cons,
      Int.add_comm]
  · show s.fair.sumWv + ((allocTree s t).tasks t).fair.vruntime * weight (allocTree s t) t =
      ((Index.insert _ t s.fair.ready).map fun u => ((allocTree s t).tasks u).fair.vruntime * w u).sum
    rw [((Index.insert_perm _ t s.fair.ready).map _).sum_eq, h.sumWv, hself, map_cons, sum_cons, Int.add_comm]
    congr 2
    refine map_congr_left fun u hu => ?_
    have hut : u ≠ t := fun he => hs ((hok.mem t).1 (he ▸ hu))
    rw [allocTree_of_ne hut]

theorem FairIndex.enqueueTree (h : FairIndex (some t) s) (hok : FairOk s) (hs : s.seats t ≠ .fair)
    (curr : Option TaskId) :
    FairIndex none (enqueueTree s t curr) := by
  have hfair : ∀ u, ((Sched.joinTree s t).tasks u).fair.weight = (s.tasks u).fair.weight := by
    intro u
    show ((allocTree s t).tasks u).fair.weight = _
    by_cases hu : u = t
    · rw [hu, allocTree_fair]
    · rw [allocTree_of_ne hu]
  have hrest : ∀ u, ((Sched.joinTree s t).tasks u).schedClass = (s.tasks u).schedClass ∧
      ((Sched.joinTree s t).tasks u).attr = (s.tasks u).attr := by
    intro u
    show ((allocTree s t).tasks u).schedClass = _ ∧ ((allocTree s t).tasks u).attr = _
    by_cases hu : u = t
    · subst hu
      simp only [allocTree, setSeat, modifyFair, modify_tasks, if_true, and_self]
    · rw [allocTree_of_ne hu]
      exact ⟨rfl, rfl⟩
  have hjoin : FairIndex none (Sched.joinTree s t) := by
    refine ⟨?_, fun u hu => ?_, fun u hu => ?_⟩
    · have hw : weight (Sched.joinTree s t) = weight s := by
        funext u
        rw [weight, weight, hfair]
      rw [hw]
      exact h.toFairBooks.joinTree hok hs rfl
    · refine .inl (Index.mem_insert.2 ((h.buddy u hu).symm.imp_left fun hut => ?_))
      exact (some.inj hut).symm
    · rw [(hrest u).1] at hu
      rw [hfair, (hrest u).2]
      exact h.weights u hu
  rw [enqueueTree_eq]
  split
  · exact ⟨hjoin.toFairBooks.same rfl fun _ _ => rfl, hjoin.buddy, hjoin.weights⟩
  · exact hjoin

theorem FairIndex.prepared (h : FairIndex (some t) s) (hok : ClassOk s .fair) (hs : s.seats t = .detached)
    (ho : Offtree t s s') (curr : Option TaskId) : FairIndex none (FairClass.enqueueTree s' t curr) := by
  have hnot : s.seats t ≠ .fair := by
    rw [hs]
    nofun
  refine (h.offtree ho fun hm => hnot ((mem hok t).1 hm)).enqueueTree (ho.acts hok hnot).ok ?_ curr
  rw [ho.seats]
  exact hnot

/-- A task leaves with the weight with which it was queued. -/
theorem FairBooks.dequeueEntity {key : Int ×ₗ Nat} {ow : Option Int} (h : FairBooks w s)
    (hw : ow.getD (weight s t) = w t) (he : dequeueEntityWithWeight s key ow = some (some t, s')) :
    FairBooks w s' ∧ s'.fair.nextBuddy = s.fair.nextBuddy ∧ ∀ u, (s'.tasks u).fair = (s.tasks u).fair := by
  unfold dequeueEntityWithWeight at he
  split at he
  · cases he
  rename_i r hf
  obtain ⟨hm, hk⟩ := Index.find_mem hf
  split at he
  · cases he
  cases he
  have hfair : ∀ c : FairClass, ∀ u, ((({ s with fair := c } : Scheduler).setSeat t .detached).tasks u).fair =
    (s.tasks u).fair :=
    fun c => modify_field _ t (fun x => { x with seat := .detached }) fun _ => rfl
  refine ⟨⟨?_, ?_, ?_, ?_, ?_⟩, rfl, hfair _⟩
  · show _ = (s.fair.ready.erase t).head?
    rw [Index.head?_erase, ← h.firstDeadline]
    rfl
  · show _ = (s.fair.vruntimeTree.erase t).head?
    rw [Index.head?_erase, ← h.firstVruntime]
    rfl
  · show s.fair.queued - 1 = (s.fair.ready.erase t).length
    rw [length_erase_of_mem hm, h.queued]
  · show i64 (s.fair.totalWeight - ow.getD (weight s t)) = i64 ((s.fair.ready.erase t).map w).sum
    rw [h.totalWeight, i64_sub, hw, ((perm_cons_erase hm).map w).sum_eq, map_cons, sum_cons,
      add_sub_cancel_left]
  · show s.fair.sumWv - (s.tasks t).fair.vruntime * ow.getD (weight s t) = _
    rw [h.sumWv, hw, ((perm_cons_erase hm).map _).sum_eq, map_cons, sum_cons, add_sub_cancel_left]
    exact congrArg sum (map_congr_left fun u _ => by rw [hfair])

theorem buddy_of_taken (hok : ClassOk s .fair) (ha : Acts .fair s s' (update s.seats t .detached))
    (hu : u ∈ s.fair.ready) : u ∈ s'.fair.ready ∨ some t = some u := by
  by_cases hut : u = t
  · exact .inr (congrArg some hut.symm)
  · have hseat := congrFun ha.seats u
    rw [update_of_ne hut] at hseat
    exact .inl ((mem ha.ok u).2 (hseat.trans ((mem hok u).1 hu)))

/-- A task leaves; the caller clears the buddy before or after, or brings the task back. -/
theorem FairIndex.dequeueEntity {key : Int ×ₗ Nat} (h : FairIndex none s) (hok : ClassOk s .fair)
    (he : dequeueEntity s key = some (some t, s')) : FairIndex (some t) s' := by
  obtain ⟨hbooks, hnext, hfair⟩ := h.toFairBooks.dequeueEntity getD_none he
  obtain ⟨-, ha⟩ := (dequeueEntity_taken hok he).1
  have hwt : weight s' = weight s := by
    funext u
    rw [weight, weight, hfair]
  refine ⟨?_, fun u hu => ?_, fun u hu => ?_⟩
  · rw [hwt]
    exact hbooks
  · rw [hnext] at hu
    exact buddy_of_taken hok ha ((h.buddy u hu).resolve_right nofun)
  · rw [ha.touch.schedClass] at hu
    rw [hfair, ha.touch.attr]
    exact h.weights u hu

/-- The trees agree, so a task that is found in one of them is found in the other. -/
theorem dequeueEntity_total (hok : ClassOk s .fair) (key : Int ×ₗ Nat) (ow : Option Int) :
    ∃ r s', dequeueEntityWithWeight s key ow = some (r, s') ∧ ∀ t ∈ s.fair.ready, deadlineKey s t = key →
      r = some t := by
  unfold dequeueEntityWithWeight
  cases hf : Index.find (deadlineKey s) key s.fair.ready with
  | none =>
    refine ⟨none, s, rfl, fun t ht hk => ?_⟩
    rw [← hk, hok.ready.find_key ht] at hf
    cases hf
  | some u =>
    obtain ⟨hm, hk⟩ := Index.find_mem hf
    have hv := hok.vruntime.find_key ((vmem hok u).2 ((mem hok u).1 hm))
    simp only [hv, ne_eq]
    exact ⟨some u, _, rfl, fun t ht hkt => congrArg some (hok.ready.eq_of_key hm ht (hk.trans hkt.symm))⟩

/-! ## The operations of the class -/

section

variable (h : FairIndex none s)
include h

section

variable (hok : ClassOk s .fair)
include hok

theorem FairIndex.dequeue {curr r : Option TaskId}
    (he : FairClass.dequeue s t curr = some (r, s')) : FairIndex none s' := by
  obtain ⟨ht, hr⟩ := FairClass.dequeue_taken hok he
  unfold FairClass.dequeue FairClass.dequeueWithLag at he
  split at he
  · cases he
    exact h
  extract_lets s1 lag at he
  have h1 : FairIndex none s1 := (h.loosen _).clearBuddyIf
  have hok1 : ClassOk s1 .fair := (clearBuddyIf_acts hok t).ok
  split at he
  · cases he
  · rename_i s2 hd
    cases he
    unfold FairClass.dequeueEntity dequeueEntityWithWeight at hd
    split at hd
    · rw [← (Prod.mk.inj (some.inj hd)).2]
      exact h1
    · split at hd <;> cases hd
  · rename_i u s2 hd
    cases he
    obtain rfl : u = t := some.inj (hr.resolve_left nofun)
    have h2 := h1.dequeueEntity hok1 hd
    obtain ⟨-, ha⟩ := (dequeueEntity_taken hok1 hd).1
    have hnot : u ∉ s2.fair.ready := fun hm => by
      have hseat : s2.seats u = .fair := (mem ha.ok u).1 hm
      rw [ha.seats, update_self] at hseat
      cases hseat
    have hbuddy : s2.fair.nextBuddy ≠ some u := by
      rw [(h1.toFairBooks.dequeueEntity getD_none hd).2.1]
      unfold s1 FairClass.clearBuddyIf
      split
      · nofun
      · exact ‹_›
    exact (h2.settle (.inl hbuddy)).offtree (setLag_offtree s2 u curr lag) hnot

theorem FairIndex.pickBuddy {r : Option TaskId}
    (he : FairClass.pickBuddy s = some (r, s')) : FairIndex none s' ∧ (r = none → s' = s) := by
  unfold FairClass.pickBuddy at he
  split at he
  · cases he
    exact ⟨h, fun _ => rfl⟩
  rename_i buddy _
  split at he
  · cases he
    exact ⟨h, fun _ => rfl⟩
  split at he
  · rename_i u s2 hd
    cases he
    have hok1 := ((clearBuddy_offtree s buddy).acts_of hok fun _ _ => rfl).ok
    have hbuddy : s'.fair.nextBuddy ≠ some u := by
      rw [(h.clearBuddy.toFairBooks.dequeueEntity getD_none hd).2.1]
      nofun
    exact ⟨(h.clearBuddy.dequeueEntity hok1 hd).settle (.inl hbuddy), nofun⟩
  · cases he

theorem FairIndex.pickNext {r : Option TaskId}
    (he : FairClass.pickNext s = some (r, s')) : FairIndex none s' := by
  unfold FairClass.pickNext at he
  split at he
  · cases he
    exact h.clearBuddy
  split at he
  · cases he
  · rename_i u s1 hb
    cases he
    exact (h.pickBuddy hok hb).1
  · rename_i s1 hb
    obtain rfl := (h.pickBuddy hok hb).2 rfl
    simp only at he
    split at he
    · cases he
    · split at he
      · rename_i key _ u s2 hd
        cases he
        exact (h.dequeueEntity hok hd).clearBuddyIf
      · cases he

theorem FairIndex.enqueueWake (hs : s.seats t = .detached) (curr : Option TaskId)
    (sync : Bool) : FairIndex none (FairClass.enqueueWake s t curr sync) := by
  have h1 := (h.loosen _).prepared hok hs (applyLag_offtree s t curr) curr
  have hmem : t ∈ (FairClass.enqueueTree (applyLag s t curr) t curr).fair.ready := by
    rw [enqueueTree_eq]
    split
    · exact Index.mem_insert.2 (.inl rfl)
    · exact Index.mem_insert.2 (.inl rfl)
  unfold FairClass.enqueueWake
  generalize FairClass.enqueueTree (applyLag s t curr) t curr = s1 at h1 hmem
  obtain ⟨b, he, hb⟩ := setNextBuddy_eq s1 t
  have hbuddy : ∀ u, b = some u → u ∈ s1.fair.ready := fun u hu =>
    (hb u hu).elim (fun hut => hut ▸ hmem) fun hu => (h1.buddy u hu).resolve_right nofun
  simp only [he]
  split
  · exact h1.setBuddy true hbuddy
  · exact h1.setBuddy s1.fair.hasSyncWake hbuddy

theorem FairIndex.enqueue (hs : s.seats t = .detached) (kind : EnqueueKind)
    (curr : Option TaskId) : FairIndex none (enqueue s t kind curr) := by
  cases kind with
  | new => exact (h.loosen _).prepared hok hs (placeNewEntity_offtree s t curr) curr
  | wake sync => exact h.enqueueWake hok hs curr sync
  | migrateIn => exact h.enqueueWake hok hs curr false
  | classChange => exact (h.loosen _).prepared hok hs (applyLag_offtree s t curr) curr

theorem FairIndex.putPrev (hs : s.seats t = .detached) (reason : LeaveReason) :
    FairIndex none (FairClass.putPrev s t reason) := by
  rcases putPrev_cases s t reason with ⟨-, s1, ho, he⟩ | ⟨-, ho⟩
  · rw [he]
    exact (h.loosen _).prepared hok hs ho none
  · refine h.offtree ho fun hm => ?_
    have hseat : s.seats t = .fair := (mem hok t).1 hm
    rw [hs] at hseat
    cases hseat

end

/-- A task that is in no tree changes its attributes. -/
theorem FairIndex.retag {f : SchedTask → SchedTask} (hf : Retags f) (ht : t ∉ s.fair.ready)
    (hw : (f (s.tasks t)).schedClass = .fair → (f (s.tasks t)).fair.weight = (f (s.tasks t)).attr.nice.weight) :
    FairIndex none (s.modify t f) := by
  have hvr := s.modify_field t f (g := fun x => x.fair.vruntime) hf.vruntime
  refine ⟨(h.toFairBooks.congr fun u hu => ?_).same rfl fun u _ => hvr u, h.buddy, fun u hu => ?_⟩
  · rw [weight, weight, modify_of_ne fun he : u = t => ht (he ▸ hu)]
  · by_cases hut : u = t
    · rw [hut, modify_self] at hu ⊢
      exact hw hu
    · rw [modify_of_ne hut] at hu ⊢
      exact h.weights u hu

/-- The new weight is published before the trees are put right, so the task leaves with its old weight. -/
theorem FairIndex.attrChanged {attr : SchedAttr} {isCurr : Bool} (hs : Seated k s)
    (hc : (s.tasks t).schedClass = .fair) (hcurr : isCurr = true ↔ s.curr = some t)
    (he : FairClass.attrChanged (s.modify t fun x => x.setAttr attr) t (s.tasks t).attr isCurr = some s') :
    FairIndex none s' := by
  have hf := Retags.setAttr attr
  have hok := hf.classOk (hs.queue .fair) t (by rintro ⟨⟩)
  have hnot : s.seats t ≠ .fair → t ∉ s.fair.ready := fun hn hm => hn ((mem (hs.queue .fair) t).1 hm)
  have hfree : s.seats t ≠ .fair → FairIndex none (s.modify t fun x => x.setAttr attr) := fun hn =>
    h.retag hf (hnot hn) fun _ => rfl
  unfold FairClass.attrChanged at he
  extract_lets oldWeight at he
  have hseat : ((s.modify t fun x => x.setAttr attr).tasks t).seat = s.seats t := congrFun (hf.seats s t) t
  split at he
  · rename_i hcur
    cases he
    have hn : s.seats t ≠ .fair := by
      rw [seats, hs.curr t (hcurr.1 hcur)]
      decide
    exact (hfree hn).offtree (rescaleDeadline_offtree _ t _) (hnot hn)
  split at he
  · rename_i hn
    cases he
    rw [hseat] at hn
    exact (hfree hn).offtree (rescaleVlag_offtree _ t _) (hnot hn)
  rename_i hq
  rw [hseat, not_not] at hq
  split at he
  · cases he
  · rename_i s1 hd
    obtain ⟨r, s2, hd2, hr⟩ :=
      dequeueEntity_total hok (deadlineKey (s.modify t fun x => x.setAttr attr) t) (some oldWeight)
    rw [hd, some.injEq, Prod.mk.injEq] at hd2
    cases hd2.1.trans (hr t ((mem hok t).2 (hseat.trans hq)) rfl)
  · rename_i u s1 hd
    cases he
    obtain ⟨ht, hk⟩ := dequeueEntity_taken hok hd
    obtain rfl : u = t := hok.ready.eq_of_key ((mem hok u).2 ht.1) ((mem hok t).2 (hseat.trans hq)) (hk u rfl)
    have hbooks : FairBooks (weight s) (s.modify u fun x => x.setAttr attr) :=
      h.toFairBooks.same rfl fun v _ => s.modify_field u _ (g := fun x => x.fair.vruntime) hf.vruntime v
    have hold : (some oldWeight).getD (weight (s.modify u fun x => x.setAttr attr) u) = weight s u :=
      congrArg Nat.cast (h.weights u hc).symm
    obtain ⟨hb1, hnext, hfair⟩ := hbooks.dequeueEntity hold hd
    have hdet : s1.seats u = .detached := by rw [ht.2.seats, update_self]
    have hgone : ∀ v ∈ s1.fair.ready, v ≠ u := by
      rintro v hv rfl
      have hs1 : s1.seats v = .fair := (mem ht.2.ok v).1 hv
      rw [hdet] at hs1
      cases hs1
    have h1 : FairIndex (some u) s1 := by
      refine ⟨hb1.congr fun v hv => ?_, fun v hv => ?_, fun v hv => ?_⟩
      · rw [weight, weight, hfair, modify_of_ne (hgone v hv)]
      · rw [hnext] at hv
        exact buddy_of_taken hok ht.2 ((h.buddy v hv).resolve_right (by simp))
      · rw [ht.2.touch.schedClass] at hv
        rw [hfair, ht.2.touch.attr]
        by_cases hvu : v = u
        · rw [hvu, modify_self]
          rfl
        · rw [modify_of_ne hvu] at hv ⊢
          exact h.weights v hv
    exact h1.prepared ht.2.ok hdet (rescaleDeadline_offtree s1 u _) none

end

theorem not_fair_of_detached (hs : Seated k s) (hdet : s.seats t = .detached) : t ∉ s.fair.ready := fun hm => by
  have hseat : s.seats t = .fair := (mem (hs.queue .fair) t).1 hm
  rw [hdet] at hseat
  cases hseat

theorem fairIndex_classInv (k : Kconfig) : ClassInv k .fair .none (FairIndex none) where
  clock _ h := h.setCurr _ _
  frame {c s s'} hc ht h := by
    obtain ⟨hfair, htasks⟩ := ht.fair hc
    have hwt : weight s' = weight s := by
      funext u
      rw [weight, weight, htasks]
    refine ⟨?_, fun u hu => ?_, fun u hu => ?_⟩
    · rw [hwt]
      exact h.toFairBooks.same hfair fun u _ => by rw [htasks]
    · rw [hfair] at hu ⊢
      exact h.buddy u hu
    · rw [ht.schedClass] at hu
      rw [htasks, ht.attr]
      exact h.weights u hu
  drop _ _ h := h.setCurr _ _
  run _ _ h := h.setCurr _ _
  retag {s t f} hs _ hf hc hc' h := by
    refine h.retag hf (fun hm => hc ?_) fun hcls => absurd hcls hc'
    exact hs.schedClass ((mem (hs.queue .fair) t).1 hm)
  advance hd := nomatch hd
  account {s t} e hs hcurr _ h := by
    exact h.offtree (account_offtree s t e) (not_fair_of_detached hs (hs.curr t hcurr))
  enqueue {s t s'} kind hs _ hdet _ h he := by
    cases he
    exact h.enqueue (hs.queue .fair) hdet kind _
  dequeue hs h he := h.dequeue (hs.queue .fair) he
  pickNone hs h he := h.pickNext (hs.queue .fair) he
  pick hs _ h he := (h.pickNext (hs.queue .fair) he).setCurr _ _
  setCurr {s t s'} hs _ _ hdet _ h he := by
    cases he
    exact (h.offtree (setCurr_offtree s t) (not_fair_of_detached hs hdet)).setCurr _ _
  putPrev {s t s'} reason hs hcurr _ h he := by
    cases he
    have hdet : ({ s with curr := none } : Scheduler).seats t = .detached := hs.curr t hcurr
    exact (h.setCurr s.clock none).putPrev (hs.clearCurr.queue .fair) hdet reason
  attrChanged hs hc _ _ _ hcurr _ h he := h.attrChanged hs hc hcurr he
  switchedFrom {s t attr isCurr} hs hc hne hdet hcurr h := by
    have hnot := not_fair_of_detached hs hdet
    have ho := switchedFrom_offtree s t isCurr
    have h1 : FairIndex none (switchedFrom s t isCurr) := h.offtree ho hnot
    refine h1.retag (Retags.switch attr attr.schedClass) (fun hm => hnot ?_) fun hcls => absurd hcls hne
    obtain ⟨m, b, y, hf, -⟩ := ho.fair
    rw [hf] at hm
    exact hm
  switchedTo {s t attr isCurr} hs hc hk hnew hv _ hdet hcurr h := by
    refine ⟨?_, fun _ => trivial⟩
    have hnot := not_fair_of_detached hs hdet
    have h1 : FairIndex none (reclass s t attr) := h.retag (Retags.switch attr attr.schedClass) hnot fun _ => rfl
    show FairIndex none (switchedTo (reclass s t attr) t isCurr)
    unfold switchedTo
    split
    · exact h1.offtree (setCurr_offtree _ t) hnot
    · exact h1

end XKernel.Sched
