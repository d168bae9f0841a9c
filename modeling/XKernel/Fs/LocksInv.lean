import XKernel.Fs.LocksHeld
import XKernel.Fs.LocksWait
/-!
# The invariant of waiting

The invariant says of every waiting request where it is: below a lock or a request it
conflicts with, or released. A released request whose task has parked is in a wake
queue, so the task that owns the queue will call its waker.
-/

namespace XKernel.Locks

open XKernel.Lib List Option

/-! ## BSD locks -/

section flock

variable {req : FileLock} {list : List OwnedLock} {addr : NodeId → Nat} {isBlocking : Bool} {waiter : Option NodeId}
  {s : Waits} {r : Tried}

theorem updateLoop_others (h : ∀ l ∈ list, l.record.owner ≠ req.owner) (u : Update) :
    updateLoop req list u = { u with remaining := u.remaining ++ list } := by
  induction list generalizing u with
  | nil => rw [append_nil]; rfl
  | cons lock list ih =>
    unfold updateLoop
    rw [if_pos (h lock mem_cons_self), ih fun l hl => h l (mem_cons_of_mem _ hl)]
    simp only [append_assoc, singleton_append]

/-- For an owner without locks, `try_apply` adds the request at most. -/
theorem tryRecord_mem (h : ∀ l ∈ list, l.record.owner ≠ req.owner)
    (hr : tryRecord addr req isBlocking list waiter s = some r) :
    ∀ l ∈ r.list, l ∈ list ∨ l.record = req ∧ req.kind ≠ .unlock := by
  intro l hl
  unfold tryRecord at hr
  split at hr
  · cases hr
    simp only [removeOwner_list] at hl
    exact .inl (mem_filter.1 hl).1
  split at hr
  · split at hr
    · cases hr
      exact .inl hl
    · obtain ⟨⟨res, w'⟩, -, hr⟩ := bind_eq_some_iff.1 hr
      cases res with
      | ok | error =>
        cases hr
        exact .inl hl
  split at hr
  · cases hr
    exact .inl hl
  · have hlist : l ∈ (update req waiter list s).1 := by
      rw [← some.inj hr] at hl
      exact hl
    unfold update at hlist
    rw [updateLoop_others h] at hlist
    by_cases hk : req.kind = .unlock
    · rw [if_neg (not_not.2 hk)] at hlist
      exact .inl hlist
    · rw [if_pos hk] at hlist
      rcases mem_install.1 hlist with rfl | hl
      · exact .inr ⟨rfl, hk⟩
      · exact .inl hl

theorem tryList_whole (hf : req.owner.isFlock = true) (hreq : req.Valid) (hw : ∀ l ∈ list, Whole l)
    (hr : tryList addr req isBlocking list waiter s = some r) : ∀ l ∈ r.list, Whole l := by
  intro l hl
  unfold tryList at hr
  rw [if_pos hf] at hr
  split at hr
  · cases hr
    exact hw l hl
  · have ho : ∀ l ∈ (removeOwner req.owner list s).1, l.record.owner ≠ req.owner := fun l hl => by
      rw [removeOwner_list] at hl
      simpa using (mem_filter.1 hl).2
    rcases tryRecord_mem ho hr l hl with hl | ⟨he, hk⟩
    · rw [removeOwner_list] at hl
      exact hw l (mem_filter.1 hl).1
    · obtain ⟨h1, h2⟩ := hreq.flock hf
      refine ⟨?_, ?_, ?_⟩
      · rw [he, h1]
      · rw [he, h2]
      · rw [he]
        exact hk

end flock

/-! ## The invariant -/

/-- The lock is in a list of some inode. -/
def Installed (s : State) (l : OwnedLock) : Prop := ∃ i o, l ∈ (s.inodes i).domain o

/-- The request is in the wake queue of a task. -/
def Queued (s : State) (w : NodeId) : Prop := ∃ t a, s.tasks t = some a ∧ w ∈ a.wake

/-- The task will try again, now or after it has waited. -/
def Apply.Loops (a : Apply) : Prop := a.stage = .attempt ∨ a.stage = .drain (.ok true) ∨ ∃ p, a.stage = .wait p

/-- The request of the task may be blocked. -/
def Apply.Waiting (a : Apply) : Prop := a.stage = .drain (.ok true) ∨ ∃ p, a.stage = .wait p

theorem Apply.not_waiting {a : Apply} (h : a.stage = .attempt) : ¬ a.Waiting := by
  rw [Apply.Waiting, h]
  rintro (hc | ⟨p, hc⟩) <;> cases hc

/-- The request `w` conflicts with `n`, an installed lock or the request of a task that will try again. -/
def Faces (s : State) (w n : NodeId) : Prop :=
  (∃ l, Installed s l ∧ l.id = n ∧ (s.tree.nodes w).record.conflictsWith l.record = true) ∨
  (∃ t a, s.tasks t = some a ∧ a.waiter = some n ∧ a.Loops) ∧
    (s.tree.nodes w).record.conflictsWith (s.tree.nodes n).record = true

/-- A task and its request. -/
structure TaskOk (s : State) (t : TaskId) (a : Apply) (w : NodeId) : Prop where
  lt : w < s.tree.next
  record : (s.tree.nodes w).record = a.request
  blocking : a.isBlocking = true
  kind : a.request.kind ≠ .unlock
  apart : ∀ l, Installed s l → l.id ≠ w
  quiet : (a.stage = .attempt ∨ ∃ r, a.stage = .drain r) → (s.tree.nodes w).wait = none
  ended : ¬ a.Loops → ∀ x, s.tree.par x ≠ some w
  notified : (∃ p, a.stage = .wait p) → (s.tree.nodes w).wait ≠ none →
    (s.tree.nodes w).wait = some t ∧ (s.tree.par w = none → Queued s w)
  parked : a.stage = .wait true → (s.tree.nodes w).wait ≠ none

structure WaitInv (s : State) : Prop where
  tree : s.tree.Ok
  lock : ∀ l, Installed s l → l.id < s.tree.next ∧ s.tree.par l.id = none
  whole : ∀ i, ∀ l ∈ (s.inodes i).flock, Whole l
  task : ∀ t a w, s.tasks t = some a → a.waiter = some w → TaskOk s t a w
  distinct : ∀ t a t' a' w, s.tasks t = some a → s.tasks t' = some a' → a.waiter = some w → a'.waiter = some w → t = t'
  blocked : ∀ w n, s.tree.par w = some n → ∃ t a, s.tasks t = some a ∧ a.waiter = some w ∧
    (a.stage = .drain (.ok true) ∨ ∃ p, a.stage = .wait p)
  faces : ∀ w n, Above s.tree.par w n → Faces s w n

namespace WaitInv

variable {s : State} {t : TaskId} {a : Apply} {w : NodeId}

/-- Only a task that waits has its request below another. -/
theorem par_none (h : WaitInv s) (ht : s.tasks t = some a) (hw : a.waiter = some w)
    (hst : ¬ a.Waiting) : s.tree.par w = none := by
  rw [eq_none_iff_forall_ne_some]
  intro n hn
  obtain ⟨t', a', ht', hw', hst'⟩ := h.blocked w n hn
  obtain rfl := h.distinct t a t' a' w ht ht' hw hw'
  rw [ht] at ht'
  cases ht'
  exact hst hst'

theorem init : WaitInv .init := by
  have hempty : ∀ l, ¬ Installed .init l := by
    rintro l ⟨i, o, hl⟩
    unfold FileLockLists.domain at hl
    split at hl <;> cases hl
  have hpar : ∀ w, State.init.tree.par w = none := fun _ => rfl
  refine ⟨⟨fun w n => ⟨fun hw => absurd hw not_mem_nil, fun hw => (nomatch hw)⟩, fun n => nodup_nil,
    fun n => rfl, fun w => ⟨0, w, .root rfl⟩, fun n _ => ⟨rfl, rfl, fun w hw => (nomatch hw)⟩⟩,
    fun l hl => absurd hl (hempty l), fun i l hl => absurd hl not_mem_nil, fun t a w ht => (nomatch ht),
    fun t a t' a' w ht => (nomatch ht), fun w n hw => (nomatch hw), fun w n hw => ?_⟩
  exact absurd (hpar w) hw.par_ne_none

end WaitInv

/-! ## What a step leaves alone -/

/-- The same call of `apply`, at the same point. -/
structure SameCall (a b : Apply) : Prop where
  stage : b.stage = a.stage
  waiter : b.waiter = a.waiter
  request : b.request = a.request
  isBlocking : b.isBlocking = a.isBlocking

theorem SameCall.refl (a : Apply) : SameCall a a := ⟨rfl, rfl, rfl, rfl⟩

theorem SameCall.loops {a b : Apply} (h : SameCall a b) : b.Loops ↔ a.Loops := by
  unfold Apply.Loops
  rw [h.stage]

/-- The parts of a step that no single task is about: locks come from locks, requests go to locks or to requests that
are blocked themselves, and every request that is let go is queued if its task has registered. -/
structure Frame (s s' : State) : Prop where
  tree : s'.tree.Ok
  next : s.tree.next ≤ s'.tree.next
  record : ∀ m, m < s.tree.next → (s'.tree.nodes m).record = (s.tree.nodes m).record
  lock : ∀ l', Installed s' l' → (∃ l, Installed s l ∧ l.id = l'.id) ∨ s.tree.next ≤ l'.id ∧ l'.id < s'.tree.next
  edge : ∀ x v, s'.tree.par x = some v →
    s.tree.par x = some v ∨ (∃ l, Installed s' l ∧ l.id = v) ∨ s.tree.par v ≠ none
  queue : ∀ v, s'.tree.par v = none → (s'.tree.nodes v).wait ≠ none → s.tree.par v ≠ none ∨ Queued s v → Queued s' v

namespace WaitInv

variable {s s' : State} {t u : TaskId} {a b : Apply} {w n v : NodeId}

theorem apart_frame (h : WaitInv s) (F : Frame s s') (hu : s.tasks u = some a) (hw : a.waiter = some v) :
    ∀ l, Installed s' l → l.id ≠ v := by
  intro l hl hv
  have hok := h.task u a v hu hw
  rcases F.lock l hl with ⟨l0, hl0, hid⟩ | ⟨hle, -⟩
  · exact hok.apart l0 hl0 (hid.trans hv)
  · rw [hv] at hle
    exact absurd hok.lt (Nat.not_lt.2 hle)

theorem task_frame (h : WaitInv s) (F : Frame s s') (hu : s.tasks u = some a) (hw : a.waiter = some v)
    (hc : SameCall a b) (hwait : a.stage ≠ .leave → (s'.tree.nodes v).wait = (s.tree.nodes v).wait) :
    TaskOk s' u b v := by
  have hok := h.task u a v hu hw
  have hapart := h.apart_frame F hu hw
  refine ⟨hok.lt.trans_le F.next, by rw [F.record v hok.lt, hok.record, hc.request],
    by rw [hc.isBlocking, hok.blocking], by rw [hc.request]; exact hok.kind, hapart, ?_, ?_, ?_, ?_⟩
  · rw [hc.stage]
    intro hst
    rw [hwait fun hl => by rw [hl] at hst; rcases hst with hst | ⟨r, hst⟩ <;> cases hst]
    exact hok.quiet hst
  · rw [hc.loops]
    intro hl x hx
    rcases F.edge x v hx with hx | ⟨l, hl', hid⟩ | hx
    · exact hok.ended hl x hx
    · exact hapart l hl' hid
    · -- a blocked request belongs to a task that loops
      obtain ⟨m, hm⟩ := ne_none_iff_exists'.1 hx
      obtain ⟨t', a', ht', hw', hst⟩ := h.blocked v m hm
      obtain rfl := h.distinct u a t' a' v hu ht' hw hw'
      rw [hu] at ht'
      cases ht'
      exact hl (.inr hst)
  · rw [hc.stage]
    intro hst hne
    have hw' := hwait fun hl => by rw [hl] at hst; obtain ⟨p, hst⟩ := hst; cases hst
    obtain ⟨h1, h2⟩ := hok.notified hst (by rw [← hw']; exact hne)
    refine ⟨by rw [hw', h1], fun hpar => F.queue v hpar hne ?_⟩
    by_cases hp : s.tree.par v = none
    · exact .inr (h2 hp)
    · exact .inl hp
  · rw [hc.stage]
    intro hst
    rw [hwait fun hl => by rw [hl] at hst; cases hst]
    exact hok.parked hst

/-- The invariant after a step that is about one task. -/
theorem of_frame (h : WaitInv s) (F : Frame s s') (t : TaskId)
    (hold : ∀ u b, u ≠ t → s'.tasks u = some b → ∃ a, s.tasks u = some a ∧ SameCall a b)
    (hwait : ∀ u a v, u ≠ t → s.tasks u = some a → a.waiter = some v → a.stage ≠ .leave →
      (s'.tree.nodes v).wait = (s.tree.nodes v).wait)
    (hwhole : ∀ i, ∀ l ∈ (s'.inodes i).flock, Whole l)
    (htask : ∀ b w, s'.tasks t = some b → b.waiter = some w → TaskOk s' t b w)
    (hnew : ∀ b w, s'.tasks t = some b → b.waiter = some w →
      (∃ a, s.tasks t = some a ∧ a.waiter = some w) ∨ s.tree.next ≤ w)
    (hblocked : ∀ w n, s'.tree.par w = some n → ∃ t a, s'.tasks t = some a ∧ a.waiter = some w ∧ a.Waiting)
    (hfaces : ∀ w n, Above s'.tree.par w n → Faces s' w n) : WaitInv s' := by
  have htasks : ∀ u b v, s'.tasks u = some b → b.waiter = some v → TaskOk s' u b v := by
    intro u b v hu hv
    by_cases hut : u = t
    · subst hut
      exact htask b v hu hv
    · obtain ⟨a, ha, hc⟩ := hold u b hut hu
      have hav : a.waiter = some v := by rw [← hc.waiter, hv]
      exact h.task_frame F ha hav hc (hwait u a v hut ha hav)
  -- a request of one task that is not new is the request of that task before
  have hwaiter : ∀ u b v, s'.tasks u = some b → b.waiter = some v →
      (∃ a, s.tasks u = some a ∧ a.waiter = some v) ∨ u = t ∧ s.tree.next ≤ v := by
    intro u b v hu hv
    by_cases hut : u = t
    · subst hut
      exact (hnew b v hu hv).imp_right fun hle => ⟨rfl, hle⟩
    · obtain ⟨a, ha, hc⟩ := hold u b hut hu
      exact .inl ⟨a, ha, by rw [← hc.waiter, hv]⟩
  refine ⟨F.tree, fun l hl => ⟨?_, ?_⟩, hwhole, htasks, fun u b u' b' v hu hu' hv hv' => ?_, hblocked, hfaces⟩
  · rcases F.lock l hl with ⟨l0, hl0, hid⟩ | ⟨-, hlt⟩
    · rw [← hid]
      exact (h.lock l0 hl0).1.trans_le F.next
    · exact hlt
  · rw [eq_none_iff_forall_ne_some]
    intro m hm
    obtain ⟨u, b, hu, hv, -⟩ := hblocked _ m hm
    exact (htasks u b _ hu hv).apart l hl rfl
  · rcases hwaiter u b v hu hv with ⟨a, ha, hav⟩ | ⟨rfl, hle⟩ <;>
      rcases hwaiter u' b' v hu' hv' with ⟨a', ha', hav'⟩ | ⟨rfl, hle'⟩
    · exact h.distinct u a u' a' v ha ha' hav hav'
    · exact absurd (h.task u a v ha hav).lt (Nat.not_lt.2 hle')
    · exact absurd (h.task u' a' v ha' hav').lt (Nat.not_lt.2 hle)
    · rfl

/-- Requests that were blocked before still belong to tasks that wait. -/
theorem blocked_frame (h : WaitInv s) (ht : s.tasks t = some a)
    (hst : ¬ a.Waiting)
    (hback : ∀ u a, u ≠ t → s.tasks u = some a → ∃ b, s'.tasks u = some b ∧ SameCall a b) (hw : s.tree.par w = some n) :
    ∃ t a, s'.tasks t = some a ∧ a.waiter = some w ∧ a.Waiting := by
  obtain ⟨u, c, hu, hcw, hcs⟩ := h.blocked w n hw
  have hut : u ≠ t := by
    rintro rfl
    rw [ht] at hu
    cases hu
    exact hst hcs
  obtain ⟨b, hb, hc⟩ := hback u c hut hu
  exact ⟨u, b, hb, by rw [hc.waiter, hcw], by rw [Apply.Waiting, hc.stage]; exact hcs⟩

theorem faces_frame (h : WaitInv s) (F : Frame s s') (hw : s.tree.par w ≠ none) (hf : Faces s w n)
    (hinst : ∀ l, Installed s l → l.id = n → ∃ l', Installed s' l' ∧ l'.id = n ∧ Covers l'.record l.record)
    (htask : ∀ u a, s.tasks u = some a → a.waiter = some n → a.Loops →
      ∃ b, s'.tasks u = some b ∧ b.waiter = some n ∧ b.Loops) : Faces s' w n := by
  obtain ⟨m, hm⟩ := ne_none_iff_exists'.1 hw
  have hrec := F.record w (h.tree.lt_of_par hm).1
  rcases hf with ⟨l, hl, hid, hc⟩ | ⟨⟨u, a, hu, hv, hl⟩, hc⟩
  · obtain ⟨l', hl', hid', hcov⟩ := hinst l hl hid
    refine .inl ⟨l', hl', hid', ?_⟩
    rw [hrec]
    exact hcov.conflict hc
  · obtain ⟨b, hb, hbv, hbl⟩ := htask u a hu hv hl
    refine .inr ⟨⟨u, b, hb, hbv, hbl⟩, ?_⟩
    rw [hrec, F.record n (h.task u a n hu hv).lt]
    exact hc

end WaitInv

end XKernel.Locks
