import XKernel.Fs.Locks
import XKernel.Lib.Forest
/-!
# The wait tree

Every operation on the tree keeps its shape: a request is in the list of its blocker
and in no other one, the counts are right, and every chain of blockers ends. What it
does to the blockers is said in one line each: some nodes lose their requests, the
requests of one node go to another, or one request is added.
-/

namespace XKernel.Locks

open XKernel.Lib List Function WaitTree

namespace WaitTree

section fields

variable {t : WaitTree} {n m : NodeId} {f : LockNode → LockNode}

/-- The blockers as a forest. -/
def par (t : WaitTree) (w : NodeId) : Option NodeId := (t.nodes w).blocker

theorem modify_nodes :
    (t.modify n f).nodes m = if m = n then f (t.nodes m) else t.nodes m := by
  have : (t.modify n f).nodes m = if m = n then f (t.nodes n) else t.nodes m := update_apply ..
  rw [this]
  split
  · rename_i h
    rw [h]
  · rfl

/-- A part of a node that the change leaves alone. -/
theorem modify_same {β : Type} (p : LockNode → β) (hp : ∀ x, p (f x) = p x := by exact fun _ => rfl) :
    p ((t.modify n f).nodes m) = p (t.nodes m) := by
  rw [modify_nodes]
  split
  · exact hp _
  · rfl

theorem modify_set {β : Type} (p : LockNode → β) :
    p ((t.modify n f).nodes m) = if m = n then p (f (t.nodes m)) else p (t.nodes m) := by
  rw [modify_nodes]
  split <;> rfl

variable (t n m) (w : NodeId) (rest : List NodeId) (b : Option NodeId) (task : Option TaskId)

@[simp] theorem popRequest_par : (t.popRequest n rest).par m = t.par m := modify_same (·.blocker)
@[simp] theorem popRequest_wait : ((t.popRequest n rest).nodes m).wait = (t.nodes m).wait := modify_same (·.wait)
@[simp] theorem popRequest_record :
    ((t.popRequest n rest).nodes m).record = (t.nodes m).record := modify_same (·.record)
@[simp] theorem popRequest_requests :
    ((t.popRequest n rest).nodes m).requests = if m = n then rest else (t.nodes m).requests :=
  modify_set (·.requests)
@[simp] theorem popRequest_count : ((t.popRequest n rest).nodes m).waiterCount =
    if m = n then (t.nodes m).waiterCount - 1 else (t.nodes m).waiterCount := modify_set (·.waiterCount)
@[simp] theorem pushRequest_par : (t.pushRequest n w).par m = t.par m := modify_same (·.blocker)
@[simp] theorem pushRequest_wait : ((t.pushRequest n w).nodes m).wait = (t.nodes m).wait := modify_same (·.wait)
@[simp] theorem pushRequest_record : ((t.pushRequest n w).nodes m).record = (t.nodes m).record := modify_same (·.record)
@[simp] theorem pushRequest_requests : ((t.pushRequest n w).nodes m).requests =
    if m = n then (t.nodes m).requests ++ [w] else (t.nodes m).requests := modify_set (·.requests)
@[simp] theorem pushRequest_count : ((t.pushRequest n w).nodes m).waiterCount =
    if m = n then (t.nodes m).waiterCount + 1 else (t.nodes m).waiterCount := modify_set (·.waiterCount)
@[simp] theorem setBlocker_par : (t.setBlocker w b).par m = if m = w then b else t.par m := modify_set (·.blocker)
@[simp] theorem setBlocker_wait : ((t.setBlocker w b).nodes m).wait = (t.nodes m).wait := modify_same (·.wait)
@[simp] theorem setBlocker_record : ((t.setBlocker w b).nodes m).record = (t.nodes m).record := modify_same (·.record)
@[simp] theorem setBlocker_requests : ((t.setBlocker w b).nodes m).requests = (t.nodes m).requests :=
  modify_same (·.requests)
@[simp] theorem setBlocker_count : ((t.setBlocker w b).nodes m).waiterCount = (t.nodes m).waiterCount :=
  modify_same (·.waiterCount)
@[simp] theorem setWait_par : (t.setWait w task).par m = t.par m := modify_same (·.blocker)
@[simp] theorem setWait_wait : ((t.setWait w task).nodes m).wait = if m = w then task else (t.nodes m).wait :=
  modify_set (·.wait)
@[simp] theorem setWait_record : ((t.setWait w task).nodes m).record = (t.nodes m).record := modify_same (·.record)
@[simp] theorem setWait_requests : ((t.setWait w task).nodes m).requests = (t.nodes m).requests :=
  modify_same (·.requests)
@[simp] theorem setWait_count : ((t.setWait w task).nodes m).waiterCount = (t.nodes m).waiterCount :=
  modify_same (·.waiterCount)

@[simp] theorem removeBlockedOwner_nodes : (t.removeBlockedOwner w).nodes = t.nodes := rfl
@[simp] theorem removeBlockedOwner_par : (t.removeBlockedOwner w).par = t.par := rfl
@[simp] theorem insertBlockedOwner_nodes : (t.insertBlockedOwner w).nodes = t.nodes := rfl
@[simp] theorem insertBlockedOwner_par : (t.insertBlockedOwner w).par = t.par := rfl

/-- The request `w` leaves the list of `n`. -/
def drop (t : WaitTree) (n w : NodeId) : WaitTree :=
  (t.setBlocker w none).modify n fun node =>
    { node with requests := node.requests.erase w, waiterCount := node.waiterCount - 1 }

@[simp] theorem drop_par : (t.drop n w).par m = if m = w then none else t.par m := by
  rw [← setBlocker_par t m w none]
  exact modify_same (·.blocker)
@[simp] theorem drop_wait : ((t.drop n w).nodes m).wait = (t.nodes m).wait := by
  rw [← setBlocker_wait t m w none]
  exact modify_same (·.wait)
@[simp] theorem drop_record : ((t.drop n w).nodes m).record = (t.nodes m).record := by
  rw [← setBlocker_record t m w none]
  exact modify_same (·.record)
@[simp] theorem drop_requests : ((t.drop n w).nodes m).requests =
    if m = n then (t.nodes m).requests.erase w else (t.nodes m).requests := by
  rw [drop, modify_set (·.requests), setBlocker_requests]
@[simp] theorem drop_count : ((t.drop n w).nodes m).waiterCount =
    if m = n then (t.nodes m).waiterCount - 1 else (t.nodes m).waiterCount := by
  rw [drop, modify_set (·.waiterCount), setBlocker_count]

theorem alloc_nodes (record : FileLock) :
    (t.alloc record).2.nodes m = if m = t.next then .new record else t.nodes m := update_apply ..

end fields

/-- The shape of the tree. -/
structure Ok (t : WaitTree) : Prop where
  member : ∀ w n, w ∈ (t.nodes n).requests ↔ t.par w = some n
  nodup : ∀ n, (t.nodes n).requests.Nodup
  count : ∀ n, (t.nodes n).waiterCount = (t.nodes n).requests.length
  rooted : Rooted t.par
  fresh : ∀ n, t.next ≤ n → t.par n = none ∧ (t.nodes n).wait = none ∧ ∀ w, t.par w ≠ some n

variable {t : WaitTree} {n w : NodeId}

theorem Ok.congr {t' : WaitTree} (h : t.Ok) (hn : t'.nodes = t.nodes) (hx : t'.next = t.next) : t'.Ok := by
  have hp : t'.par = t.par := by
    unfold par
    rw [hn]
  refine ⟨?_, ?_, ?_, ?_, ?_⟩
  · rw [hn, hp]
    exact h.member
  · rw [hn]
    exact h.nodup
  · rw [hn]
    exact h.count
  · rw [hp]
    exact h.rooted
  · rw [hn, hp, hx]
    exact h.fresh

/-- A request leaves the list it is in. -/
theorem Ok.drop (h : t.Ok) (hw : t.par w = some n) : (t.drop n w).Ok := by
  refine ⟨fun x k => ?_, fun k => ?_, fun k => ?_, h.rooted.mono fun x k hx => ?_, fun k hk => ?_⟩
  · rw [drop_requests, drop_par]
    by_cases hkn : k = n
    · subst hkn
      rw [if_pos rfl, (h.nodup k).mem_erase_iff, h.member]
      by_cases hxw : x = w
      · rw [if_pos hxw]
        exact ⟨fun hx => absurd hxw hx.1, fun hx => (nomatch hx)⟩
      · rw [if_neg hxw]
        exact ⟨fun hx => hx.2, fun hx => ⟨hxw, hx⟩⟩
    · rw [if_neg hkn, h.member]
      by_cases hxw : x = w
      · rw [if_pos hxw, hxw, hw]
        exact ⟨fun hx => absurd (Option.some.inj hx).symm hkn, fun hx => (nomatch hx)⟩
      · rw [if_neg hxw]
  · rw [drop_requests]
    split
    · exact (h.nodup k).erase w
    · exact h.nodup k
  · rw [drop_requests, drop_count, h.count]
    split
    · rename_i hkn
      rw [hkn, length_erase_of_mem ((h.member w n).2 hw)]
    · rfl
  · rw [drop_par] at hx
    split at hx
    · cases hx
    · exact hx
  · obtain ⟨h1, h2, h3⟩ := h.fresh k hk
    refine ⟨?_, by rw [drop_wait]; exact h2, fun x hx => ?_⟩
    · rw [drop_par]
      split
      · rfl
      · exact h1
    · rw [drop_par] at hx
      split at hx
      · cases hx
      · exact h3 x hx

/-- The first request of a node leaves the tree. -/
theorem Ok.pop (h : t.Ok) {rest : List NodeId} (hreq : (t.nodes n).requests = w :: rest) :
    (((t.popRequest n rest).setBlocker w none).removeBlockedOwner w).Ok := by
  refine (h.drop ((h.member w n).1 (by rw [hreq]; exact mem_cons_self))).congr (funext fun m => ?_) rfl
  show ((t.popRequest n rest).setBlocker w none).nodes m = _
  by_cases hmn : m = n
  · subst hmn
    simp only [WaitTree.drop, setBlocker, popRequest, modify_nodes]
    split <;> simp [hreq]
  · simp only [WaitTree.drop, setBlocker, popRequest, modify_nodes, if_neg hmn]

theorem Ok.alloc (h : t.Ok) (record : FileLock) : (t.alloc record).2.Ok ∧ ∀ m, (t.alloc record).2.par m = t.par m := by
  have hnew := h.fresh t.next le_rfl
  have hpar : ∀ m, (t.alloc record).2.par m = t.par m := by
    intro m
    unfold par
    rw [alloc_nodes]
    split
    · rename_i hm
      rw [hm]
      exact hnew.1.symm
    · rfl
  have hreq : ∀ m, ((t.alloc record).2.nodes m).requests = (t.nodes m).requests := by
    intro m
    rw [alloc_nodes]
    split
    · rename_i hm
      rw [hm]
      refine (eq_nil_iff_forall_not_mem.2 fun x hx => ?_).symm
      exact hnew.2.2 x ((h.member x t.next).1 hx)
    · rfl
  refine ⟨⟨fun x m => ?_, fun m => ?_, fun m => ?_, ?_, fun m hm => ?_⟩, hpar⟩
  · rw [hreq, hpar]
    exact h.member x m
  · rw [hreq]
    exact h.nodup m
  · rw [hreq, ← h.count, alloc_nodes]
    split
    · rename_i hm
      rw [h.count, ← hreq, alloc_nodes, if_pos hm]
      rfl
    · rfl
  · rw [funext hpar]
    exact h.rooted
  · have hm' : t.next + 1 ≤ m := hm
    obtain ⟨h1, h2, h3⟩ := h.fresh m (Nat.le_of_succ_le hm')
    refine ⟨by rw [hpar]; exact h1, ?_, fun x => by rw [hpar]; exact h3 x⟩
    rw [alloc_nodes, if_neg (Nat.ne_of_gt hm')]
    exact h2

end WaitTree

/-! ## Releasing requests -/

/-- The requests of the nodes in `D` are released, and new nodes may be made. -/
structure Releases (D : NodeId → Prop) (s s' : Waits) : Prop where
  ok : s'.tree.Ok
  next : s.tree.next ≤ s'.tree.next
  record : ∀ m, m < s.tree.next → (s'.tree.nodes m).record = (s.tree.nodes m).record
  wait : ∀ m, (s'.tree.nodes m).wait = (s.tree.nodes m).wait
  blocker : ∀ w n, s'.tree.par w = some n ↔ s.tree.par w = some n ∧ ¬ D n
  wake : ∀ w, w ∈ s'.wake ↔ w ∈ s.wake ∨ (∃ n, D n ∧ s.tree.par w = some n) ∧ (s.tree.nodes w).wait ≠ none

namespace Releases

variable {D D' : NodeId → Prop} {s s' s'' : Waits} {n : NodeId}

theorem refl (h : s.tree.Ok) : Releases (fun _ => False) s s :=
  ⟨h, le_rfl, fun _ _ => rfl, fun _ => rfl, fun _ _ => ⟨fun hw => ⟨hw, id⟩, fun hw => hw.1⟩,
    fun _ => ⟨.inl, fun hw => hw.elim id fun ⟨⟨_, hn, _⟩, _⟩ => hn.elim⟩⟩

theorem trans (h : Releases D s s') (h' : Releases D' s' s'') : Releases (fun n => D n ∨ D' n) s s'' where
  ok := h'.ok
  next := h.next.trans h'.next
  record m hm := (h'.record m (hm.trans_le h.next)).trans (h.record m hm)
  wait m := (h'.wait m).trans (h.wait m)
  blocker w n := by
    rw [h'.blocker, h.blocker, and_assoc, not_or]
  wake w := by
    rw [h'.wake, h.wake, h.wait, or_assoc, ← or_and_right]
    refine or_congr_right (and_congr_left fun _ => ⟨?_, ?_⟩)
    · rintro (⟨n, hn, hw⟩ | ⟨n, hn, hw⟩)
      · exact ⟨n, .inl hn, hw⟩
      · exact ⟨n, .inr hn, ((h.blocker w n).1 hw).1⟩
    · rintro ⟨n, hn, hw⟩
      by_cases hD : D n
      · exact .inl ⟨n, hD, hw⟩
      · exact .inr ⟨n, hn.resolve_left hD, (h.blocker w n).2 ⟨hw, hD⟩⟩

theorem congr (h : Releases D s s') (hD : ∀ n, D n ↔ D' n) : Releases D' s s' where
  ok := h.ok
  next := h.next
  record := h.record
  wait := h.wait
  blocker w n := by rw [h.blocker, hD]
  wake w := by simp only [h.wake, hD]

theorem alloc (h : s.tree.Ok) (record : FileLock) :
    Releases (fun _ => False) s { s with tree := (s.tree.alloc record).2 } := by
  obtain ⟨hok, hpar⟩ := h.alloc record
  refine ⟨hok, Nat.le_succ _, fun m hm => ?_, fun m => ?_, fun w n => ?_, fun w => ?_⟩
  · show ((s.tree.alloc record).2.nodes m).record = _
    rw [alloc_nodes, if_neg (Nat.ne_of_lt hm)]
  · show ((s.tree.alloc record).2.nodes m).wait = _
    rw [alloc_nodes]
    split
    · rename_i hm
      rw [hm]
      exact (h.fresh _ le_rfl).2.1.symm
    · rfl
  · show (s.tree.alloc record).2.par w = some n ↔ _
    rw [hpar]
    exact ⟨fun hw => ⟨hw, id⟩, fun hw => hw.1⟩
  · exact ⟨.inl, fun hw => hw.elim id fun ⟨⟨_, hn, _⟩, _⟩ => hn.elim⟩

theorem wakeLoop (n : NodeId) (l : List NodeId) (s : Waits) (h : s.tree.Ok) (hl : (s.tree.nodes n).requests = l) :
    Releases (· = n) s (Waits.wakeLoop n l s) := by
  induction l generalizing s with
  | nil =>
    have hnone : ∀ w, s.tree.par w ≠ some n := fun w hw => by
      have := (h.member w n).2 hw
      rw [hl] at this
      cases this
    refine ⟨h, le_rfl, fun _ _ => rfl, fun _ => rfl, fun w m => ?_, fun w => ?_⟩
    · exact ⟨fun hw => ⟨hw, fun hm => hnone w (by rw [← hm]; exact hw)⟩, fun hw => hw.1⟩
    · refine ⟨.inl, fun hw => hw.elim id fun ⟨⟨m, hm, hw⟩, _⟩ => ?_⟩
      exact absurd (by rw [← hm]; exact hw) (hnone w)
  | cons w rest ih =>
    have hw : s.tree.par w = some n := (h.member w n).1 (by rw [hl]; exact mem_cons_self)
    have hok := h.pop hl
    unfold Waits.wakeLoop
    generalize ht : ((s.tree.popRequest n rest).setBlocker w none).removeBlockedOwner w = t at hok
    have hpar : ∀ x, t.par x = if x = w then none else s.tree.par x := fun x => by
      rw [← ht]
      simp
    have hwait : ∀ x, (t.nodes x).wait = (s.tree.nodes x).wait := fun x => by
      rw [← ht]
      simp
    have hrec : ∀ x, (t.nodes x).record = (s.tree.nodes x).record := fun x => by
      rw [← ht]
      simp
    have hnext : t.next = s.tree.next := by rw [← ht]; rfl
    have hreq : (t.nodes n).requests = rest := by
      rw [← ht]
      simp
    have hrest := ih ⟨t, if (t.nodes w).wait.isSome then s.wake ++ [w] else s.wake⟩ hok hreq
    refine ⟨hrest.ok, hnext ▸ hrest.next, fun m hm => (hrest.record m (hnext.symm ▸ hm)).trans (hrec m),
      fun m => (hrest.wait m).trans (hwait m), fun x m => ?_, fun x => ?_⟩
    · rw [hrest.blocker]
      simp only [hpar]
      by_cases hxw : x = w
      · subst hxw
        rw [if_pos rfl, hw]
        exact ⟨fun hx => (nomatch hx.1), fun hx => absurd (Option.some.inj hx.1).symm hx.2⟩
      · rw [if_neg hxw]
    · rw [hrest.wake]
      simp only [hpar, hwait]
      have hmem : x ∈ (if (s.tree.nodes w).wait.isSome then s.wake ++ [w] else s.wake) ↔
          x ∈ s.wake ∨ x = w ∧ (s.tree.nodes x).wait ≠ none := by
        split
        · rename_i hsome
          rw [mem_append, mem_singleton]
          refine or_congr_right ⟨fun hx => ⟨hx, ?_⟩, fun hx => hx.1⟩
          rw [hx]
          exact Option.isSome_iff_ne_none.1 hsome
        · rename_i hsome
          refine ⟨.inl, fun hx => hx.elim id fun ⟨hxw, hx⟩ => ?_⟩
          rw [hxw] at hx
          exact absurd (Option.isSome_iff_ne_none.2 hx) hsome
      rw [hmem, or_assoc, ← or_and_right]
      refine or_congr_right (and_congr_left fun _ => ?_)
      by_cases hxw : x = w
      · subst hxw
        exact ⟨fun _ => ⟨n, rfl, hw⟩, fun _ => .inl rfl⟩
      · simp [hxw]

theorem wakeBlocked (h : s.tree.Ok) (n : NodeId) : Releases (· = n) s (s.wakeBlocked n) := wakeLoop n _ s h rfl

theorem detachBlocked (h : s.tree.Ok) (n : NodeId) : Releases (· = n) s (s.detachBlocked n) := by
  unfold Waits.detachBlocked
  split
  · rename_i hc
    -- a node without requests releases none
    have hl : (s.tree.nodes n).requests = [] := by
      rw [h.count] at hc
      exact eq_nil_of_length_eq_zero hc
    exact wakeLoop n [] s h hl
  · exact wakeBlocked h n

end Releases

/-! ## Moving, adding and removing requests -/

namespace WaitTree

variable {t : WaitTree} {n m w : NodeId}

theorem Ok.lt_of_par (h : t.Ok) (hw : t.par w = some n) : w < t.next ∧ n < t.next := by
  refine ⟨?_, ?_⟩
  · by_contra hc
    rw [(h.fresh w (Nat.le_of_not_lt hc)).1] at hw
    cases hw
  · by_contra hc
    exact (h.fresh n (Nat.le_of_not_lt hc)).2.2 w hw

/-- A request is added to a list, after which the chains still end. -/
theorem Ok.push (h : t.Ok) (hw : t.par w = none) (hwn : w < t.next) (hm : m < t.next)
    (hr : Rooted ((t.setBlocker w (some m)).pushRequest m w).par) : ((t.setBlocker w (some m)).pushRequest m w).Ok := by
  have hnot : w ∉ (t.nodes m).requests := fun hc => by
    rw [(h.member w m).1 hc] at hw
    cases hw
  refine ⟨fun x k => ?_, fun k => ?_, fun k => ?_, hr, fun k hk => ?_⟩
  · simp only [pushRequest_requests, setBlocker_requests, pushRequest_par, setBlocker_par]
    by_cases hxw : x = w
    · subst hxw
      rw [if_pos rfl]
      by_cases hkm : k = m
      · subst hkm
        simp
      · rw [if_neg hkm, h.member, hw]
        exact ⟨fun hc => (nomatch hc), fun hc => absurd (Option.some.inj hc).symm hkm⟩
    · rw [if_neg hxw, ← h.member]
      split
      · simp [hxw]
      · exact Iff.rfl
  · simp only [pushRequest_requests, setBlocker_requests]
    split
    · rename_i hkm
      rw [hkm, nodup_append]
      refine ⟨h.nodup m, nodup_singleton w, fun x hx y hy hxy => hnot ?_⟩
      rwa [← mem_singleton.1 hy, ← hxy]
    · exact h.nodup k
  · simp only [pushRequest_requests, setBlocker_requests, pushRequest_count, setBlocker_count]
    split
    · rw [length_append, h.count]
      rfl
    · exact h.count k
  · obtain ⟨h1, h2, h3⟩ := h.fresh k hk
    simp only [pushRequest_par, setBlocker_par, pushRequest_wait, setBlocker_wait]
    refine ⟨?_, h2, fun x hx => ?_⟩
    · rw [if_neg fun hkw => absurd hwn (by rw [← hkw]; exact Nat.not_lt.2 hk)]
      exact h1
    · split at hx
      · cases hx
        exact absurd hm (Nat.not_lt.2 hk)
      · exact h3 x hx

theorem Ok.setWait (h : t.Ok) {task : Option TaskId} (hw : w < t.next ∨ task = none) : (t.setWait w task).Ok := by
  have hpar : (t.setWait w task).par = t.par := funext fun x => setWait_par t x w task
  refine ⟨?_, ?_, ?_, ?_, fun n hn => ?_⟩
  · simpa using h.member
  · simpa using h.nodup
  · simpa using h.count
  · rw [hpar]
    exact h.rooted
  · obtain ⟨h1, h2, h3⟩ := h.fresh n hn
    rw [hpar, setWait_wait]
    refine ⟨h1, ?_, h3⟩
    split
    · rename_i he
      refine hw.resolve_left fun hlt => ?_
      rw [he] at hn
      exact absurd hlt (Nat.not_lt.2 hn)
    · exact h2

end WaitTree

/-- The requests of `n` go to `target`, and nothing else changes. -/
structure Moves (n target : NodeId) (s s' : Waits) : Prop where
  ok : s'.tree.Ok
  next : s'.tree.next = s.tree.next
  record : ∀ m, (s'.tree.nodes m).record = (s.tree.nodes m).record
  wait : ∀ m, (s'.tree.nodes m).wait = (s.tree.nodes m).wait
  wake : s'.wake = s.wake
  redirects : Redirects s.tree.par s'.tree.par n target

theorem moveLoop_spec {n target : NodeId} (hne : n ≠ target) (l : List NodeId) (t : WaitTree) (h : t.Ok)
    (hl : (t.nodes n).requests = l) (hroot : t.par target = none) (hlt : target < t.next) :
    (Waits.moveLoop n target l t).Ok ∧ (Waits.moveLoop n target l t).next = t.next ∧
    (∀ m, ((Waits.moveLoop n target l t).nodes m).record = (t.nodes m).record) ∧
    (∀ m, ((Waits.moveLoop n target l t).nodes m).wait = (t.nodes m).wait) ∧
    ∀ x, (Waits.moveLoop n target l t).par x = if t.par x = some n then some target else t.par x := by
  induction l generalizing t with
  | nil =>
    refine ⟨h, rfl, fun _ => rfl, fun _ => rfl, fun x => (if_neg fun hx => ?_).symm⟩
    have := (h.member x n).2 hx
    rw [hl] at this
    cases this
  | cons w rest ih =>
    have hw : t.par w = some n := (h.member w n).1 (by rw [hl]; exact mem_cons_self)
    have hwt : target ≠ w := fun hc => by
      rw [hc, hw] at hroot
      cases hroot
    -- first out of the old list, then into the new one
    have hpop := h.pop hl
    have hpush : (((t.popRequest n rest).setBlocker w none).removeBlockedOwner w |>.setBlocker w (some target)
        |>.pushRequest target w).Ok := by
      refine hpop.push (by simp) (h.lt_of_par hw).1 hlt ?_
      refine hpop.rooted.reroot hwt (by simp [hroot]) (by simp) fun a ha => by simp [ha]
    have hnodes : (((t.popRequest n rest).setBlocker w (some target)).pushRequest target w).nodes =
        (((t.popRequest n rest).setBlocker w none).removeBlockedOwner w |>.setBlocker w (some target)
          |>.pushRequest target w).nodes := by
      simp [WaitTree.pushRequest, WaitTree.setBlocker, WaitTree.modify]
    have hok := hpush.congr hnodes rfl
    unfold Waits.moveLoop
    generalize ht : ((t.popRequest n rest).setBlocker w (some target)).pushRequest target w = t' at hok
    have hpar : ∀ x, t'.par x = if x = w then some target else t.par x := fun x => by
      rw [← ht]
      simp
    have hreq : (t'.nodes n).requests = rest := by
      rw [← ht]
      simp [hne]
    have hnext : t'.next = t.next := by
      rw [← ht]
      rfl
    obtain ⟨h1, h2, h3, h4, h5⟩ := ih t' hok hreq (by rw [hpar, if_neg hwt, hroot]) (hnext ▸ hlt)
    refine ⟨h1, h2.trans hnext, fun m => (h3 m).trans ?_, fun m => (h4 m).trans ?_, fun x => ?_⟩
    · rw [← ht]
      simp
    · rw [← ht]
      simp
    · rw [h5, hpar]
      by_cases hxw : x = w
      · rw [if_pos hxw, hxw, hw, if_pos rfl, if_neg fun hc => hne (Option.some.inj hc).symm]
      · rw [if_neg hxw]

theorem moveBlocked_moves {s : Waits} {n target : NodeId} (h : s.tree.Ok) (hne : n ≠ target)
    (hroot : s.tree.par target = none) (hlt : target < s.tree.next) : Moves n target s (s.moveBlocked n target) := by
  obtain ⟨h1, h2, h3, h4, h5⟩ := moveLoop_spec hne _ s.tree h rfl hroot hlt
  refine ⟨h1, h2, h3, h4, rfl, hne, hroot, fun a ha => ?_, fun a ha => ?_⟩
  · exact (h5 a).trans (if_pos ha)
  · exact (h5 a).trans (if_neg ha)

/-- A request leaves the tree and lets its own requests go. -/
structure Cancels (w : NodeId) (s s' : Waits) : Prop where
  ok : s'.tree.Ok
  next : s.tree.next ≤ s'.tree.next
  record : ∀ m, m < s.tree.next → (s'.tree.nodes m).record = (s.tree.nodes m).record
  wait_of_ne : ∀ m, m ≠ w → (s'.tree.nodes m).wait = (s.tree.nodes m).wait
  wait_self : s.tree.par w ≠ none → (s'.tree.nodes w).wait = none
  blocker : ∀ x n, s'.tree.par x = some n ↔ s.tree.par x = some n ∧ x ≠ w ∧ n ≠ w
  wake : ∀ x, x ∈ s'.wake ↔ x ∈ s.wake ∨ s.tree.par x = some w ∧ (s.tree.nodes x).wait ≠ none

variable {w : NodeId}

/-- The request is out of the tree, and `wakeBlocked` follows. -/
theorem Cancels.of_drop {s mid : Waits} (h : s.tree.Ok) (hok : mid.tree.Ok) (hnext : mid.tree.next = s.tree.next)
    (hrec : ∀ m, (mid.tree.nodes m).record = (s.tree.nodes m).record)
    (hwait : ∀ m, m ≠ w → (mid.tree.nodes m).wait = (s.tree.nodes m).wait)
    (hself : s.tree.par w ≠ none → (mid.tree.nodes w).wait = none)
    (hpar : ∀ x, mid.tree.par x = if x = w then none else s.tree.par x) (hwake : mid.wake = s.wake) :
    Cancels w s (mid.wakeBlocked w) := by
  have hne : ∀ x, s.tree.par x = some w → x ≠ w := by
    rintro x hx rfl
    exact h.rooted.acyclic x (.parent hx)
  have hrel := Releases.wakeBlocked hok w
  refine ⟨hrel.ok, hnext ▸ hrel.next, fun m hm => (hrel.record m (hnext.symm ▸ hm)).trans (hrec m),
    fun m hm => (hrel.wait m).trans (hwait m hm), fun hp => (hrel.wait w).trans (hself hp), fun x n => ?_, fun x => ?_⟩
  · rw [hrel.blocker, hpar]
    by_cases hx : x = w
    · rw [if_pos hx]
      exact ⟨fun hc => (nomatch hc.1), fun hc => absurd hx hc.2.1⟩
    · rw [if_neg hx]
      exact ⟨fun hc => ⟨hc.1, hx, hc.2⟩, fun hc => ⟨hc.1, hc.2.2⟩⟩
  · rw [hrel.wake, hwake]
    refine or_congr_right ?_
    simp only [exists_eq_left, hpar]
    by_cases hx : x = w
    · rw [if_pos hx]
      exact ⟨fun hc => (nomatch hc.1), fun hc => absurd hx (hne x hc.1)⟩
    · rw [if_neg hx, hwait x hx]

theorem cancelWaiter_cancels {s : Waits} (h : s.tree.Ok) : Cancels w s (s.cancelWaiter w) := by
  unfold Waits.cancelWaiter
  cases hp : (s.tree.nodes w).blocker with
  | none =>
    have hpar : s.tree.par w = none := hp
    refine .of_drop h (h.congr rfl rfl) rfl (fun _ => rfl) (fun _ _ => rfl) (fun hne => absurd hpar hne)
      (fun x => ?_) rfl
    show s.tree.par x = _
    by_cases hx : x = w
    · rw [if_pos hx, hx, hpar]
    · rw [if_neg hx]
  | some parent =>
    have hok : ((s.tree.drop parent w).setWait w none).Ok := (h.drop hp).setWait (.inr rfl)
    refine .of_drop h (hok.congr rfl rfl) rfl (fun m => ?_) (fun m hm => ?_) (fun _ => ?_) (fun x => ?_) rfl
    · exact (setWait_record ..).trans (drop_record ..)
    · exact (setWait_wait ..).trans ((if_neg hm).trans (drop_wait ..))
    · exact (setWait_wait ..).trans (if_pos rfl)
    · exact (setWait_par ..).trans (drop_par ..)

/-! ## The loops of `block_on` -/

variable {t : WaitTree}

theorem rootOf_ends {r : NodeId} {k turns : Nat} (h : Ends t.par w k r) (hk : k < turns) :
    t.rootOf turns w = some r := by
  induction h generalizing turns with
  | root hn =>
    cases turns with
    | zero => omega
    | succ =>
      unfold rootOf
      unfold par at hn
      rw [hn]
  | up hp _ ih =>
    cases turns with
    | zero => omega
    | succ =>
      unfold rootOf
      unfold par at hp
      rw [hp]
      exact ih (by omega)

theorem WaitTree.Ok.depth_le (h : t.Ok) {r : NodeId} {k : Nat} (he : Ends t.par w k r) : k ≤ t.next := by
  refine he.le_of_lt fun x hx => ?_
  obtain ⟨p, hp⟩ := Option.ne_none_iff_exists'.1 hx
  exact (h.lt_of_par hp).1

theorem hasDeadlock_isSome (h : t.Ok) (addr : NodeId → Nat) (request : FileLock) (owner : FileLockOwner) :
    ∃ dead, hasDeadlock addr t request owner = some dead := by
  have hloop : ∀ turns owner, ∃ dead, hasDeadlockLoop addr t request turns owner = some dead := by
    intro turns
    induction turns with
    | zero => exact fun _ => ⟨false, rfl⟩
    | succ turns ih =>
      intro owner
      unfold hasDeadlockLoop
      cases (t.blockedOwners owner).argmin addr with
      | none => exact ⟨false, rfl⟩
      | some waiter =>
        obtain ⟨k, r, he⟩ := h.rooted waiter
        simp only [rootOf_ends he (Nat.lt_succ_of_le (h.depth_le he)), Option.bind_eq_bind, Option.bind_some]
        split
        · exact ⟨true, rfl⟩
        · exact ih _
  unfold hasDeadlock
  split
  · exact ⟨false, rfl⟩
  · exact hloop 11 owner

/-- The node at which the descent ends: it is the first one or below it, and every node on the way conflicts. -/
structure Descends (t : WaitTree) (request : FileLock) (blocker b : NodeId) : Prop where
  reach : b = blocker ∨ Above t.par b blocker
  conflict : ∀ n, (n = b ∨ Above t.par b n) → n = blocker ∨ Above t.par blocker n ∨
    request.conflictsWith (t.nodes n).record = true

theorem descend_spec (h : t.Ok) (request : FileLock) {turns k : Nat} {blocker r : NodeId}
    (he : Ends t.par blocker k r) (hk : t.next < turns + k) :
    ∃ b, descend t request turns blocker = some b ∧ Descends t request blocker b := by
  induction turns generalizing blocker k with
  | zero =>
    have := h.depth_le he
    exact absurd hk (by rw [Nat.zero_add]; exact Nat.not_lt.2 this)
  | succ turns ih =>
    unfold descend
    cases hf : (t.nodes blocker).requests.find? fun other => request.conflictsWith (t.nodes other).record with
    | none =>
      exact ⟨blocker, rfl, .inl rfl, fun n hn => hn.elim .inl fun hn => .inr (.inl hn)⟩
    | some next =>
      have hp : t.par next = some blocker := (h.member next blocker).1 (mem_of_find?_eq_some hf)
      have hc := find?_some hf
      obtain ⟨b, hb, hd⟩ := ih (.up hp he) (by rw [Nat.add_right_comm, Nat.add_assoc] at hk; omega)
      refine ⟨b, hb, .inr ?_, fun n hn => ?_⟩
      · rcases hd.reach with rfl | hr
        · exact .parent hp
        · exact hr.snoc hp
      · rcases hd.conflict n hn with rfl | hn | hn
        · exact .inr (.inr hc)
        · exact (hn.of_parent hp).imp_right .inl
        · exact .inr (.inr hn)

end XKernel.Locks
