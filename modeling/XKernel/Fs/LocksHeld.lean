import XKernel.Fs.LocksUpdate
/-!
# What a list of record locks holds

`try_apply` grants a request by `update`, by removing an owner or because a lock
covers it already, and leaves the list alone otherwise. No other step changes a list,
so the lists of every reachable state are well formed.
-/

namespace XKernel.Locks

open List Option

variable {req x : FileLock} {rs : List FileLock} {list : List OwnedLock}

/-! ## `try_apply` -/

theorem removeOwner_grants (h : ListOk (records list)) (hk : req.kind = .unlock) (hs : req.start = 0)
    (he : req.stop = i64Max) (w : Waits) :
    Grants req (records list) (records (removeOwner req.owner list w).1) := by
  rw [removeOwner_list]
  have hmem : ∀ r, r ∈ records (list.filter fun l => l.record.owner ≠ req.owner) ↔
      r ∈ records list ∧ r.owner ≠ req.owner := by
    intro r
    unfold records
    simp only [List.mem_map, List.mem_filter, decide_eq_true_eq]
    constructor
    · rintro ⟨l, ⟨hl, ho⟩, rfl⟩
      exact ⟨⟨l, hl, rfl⟩, ho⟩
    · rintro ⟨⟨l, hl, rfl⟩, ho⟩
      exact ⟨l, ⟨hl, ho⟩, rfl⟩
  have hok : ListOk (records (list.filter fun l => l.record.owner ≠ req.owner)) :=
    ⟨fun r hr => h.record r ((hmem r).1 hr).1, h.apart.sublist (List.filter_sublist.map _)⟩
  refine ⟨hok, held_ext hok fun o b k => ?_⟩
  unfold heldAfter
  rw [if_pos hk, hs, he]
  simp only [hmem]
  by_cases hin : o = req.owner ∧ 0 ≤ b ∧ b ≤ i64Max
  · rw [if_pos hin]
    constructor
    · rintro ⟨r, ⟨-, hne⟩, ho, -⟩
      exact absurd (ho.trans hin.1) hne
    · rintro ⟨⟩
  · rw [if_neg hin, h.held_eq_some]
    constructor
    · rintro ⟨r, ⟨hr, -⟩, hp⟩
      exact ⟨r, hr, hp⟩
    · rintro ⟨r, hr, ho, hb, hkk⟩
      -- every byte of a record is a file offset
      have hlo := (h.record r hr).lo
      have hhi := (h.record r hr).hi
      exact ⟨r, ⟨hr, fun hne => hin ⟨by rw [← ho, hne], by omega⟩⟩, ho, hb, hkk⟩

/-- A lock that covers the request already grants it. -/
theorem covered_grants (h : ListOk rs) (hk : req.kind ≠ .unlock) (hx : x ∈ rs)
    (ho : x.owner = req.owner) (hkx : x.kind = req.kind) (hc : x.start ≤ req.start ∧ req.stop ≤ x.stop) :
    Grants req rs rs := by
  refine ⟨h, held_ext h fun o b k => ?_⟩
  unfold heldAfter
  rw [if_neg hk]
  by_cases hin : o = req.owner ∧ req.start ≤ b ∧ b ≤ req.stop
  · have hheld : held rs o b = some req.kind := h.held_eq_some.2 ⟨x, hx, by rw [ho, hin.1], by omega, hkx⟩
    rw [if_pos hin, ← h.held_eq_some, hheld]
  · rw [if_neg hin, h.held_eq_some]

theorem free_of_find (h : ListOk (records list)) (hk : req.kind ≠ .unlock)
    (hf : (list.find? fun lock => req.conflictsWith lock.record) = none) : Free req (records list) := by
  intro x hx ho
  obtain ⟨lock, hl, rfl⟩ := mem_map.1 hx
  have hn := find?_eq_none.1 hf lock hl
  have hkind := (h.record _ hx).kind
  by_contra hc
  refine hn ?_
  simp only [FileLock.conflictsWith, FileLock.overlaps, Bool.and_eq_true, bne_iff_ne, decide_eq_true_eq,
    Bool.or_eq_true, beq_iff_eq]
  refine ⟨⟨ho.symm, by omega⟩, ?_⟩
  by_contra hw
  refine hc (.inr (.inr ⟨?_, ?_⟩))
  · cases hkx : lock.record.kind with
    | read => rfl
    | write => exact absurd (.inr hkx) hw
    | unlock => exact absurd hkx hkind
  · cases hkr : req.kind with
    | read => rfl
    | write => exact absurd (.inl hkr) hw
    | unlock => exact absurd hkr hk

/-- A request is granted, or the list stays as it is. -/
structure Answers (req : FileLock) (list : List OwnedLock) (r : Tried) : Prop where
  granted : r.result = .ok false → Grants req (records list) (records r.list)
  refused : r.result ≠ .ok false → r.list = list

variable {r : Tried}

theorem Answers.of_grants (hr : r.result = .ok false)
    (h : Grants req (records list) (records r.list)) : Answers req list r :=
  ⟨fun _ => h, fun hne => absurd hr hne⟩

theorem Answers.of_same (hr : r.result ≠ .ok false) (h : r.list = list) :
    Answers req list r :=
  ⟨fun he => absurd he hr, fun _ => h⟩

variable {addr : NodeId → Nat}

theorem tryRecord_answers {isBlocking : Bool} {waiter : Option NodeId} {w : Waits}
    (h : ListOk (records list)) (hreq : req.Valid) (hr : tryRecord addr req isBlocking list waiter w = some r) :
    Answers req list r := by
  unfold tryRecord at hr
  split at hr
  · rename_i hall
    cases hr
    exact .of_grants rfl (removeOwner_grants h hall.1 hall.2.1 hall.2.2 w)
  split at hr
  · split at hr
    · cases hr
      exact .of_same (by rintro ⟨⟩) rfl
    · obtain ⟨⟨res, w'⟩, -, hr⟩ := bind_eq_some_iff.1 hr
      cases res with
      | ok | error =>
        cases hr
        exact .of_same (by rintro ⟨⟩) rfl
  rename_i hf
  split at hr
  · rename_i lock hc
    cases hr
    have hp := find?_some hc
    simp only [decide_eq_true_eq] at hp
    have hmem : lock.record ∈ records list := mem_map_of_mem (mem_of_find?_eq_some hc)
    have hk : req.kind ≠ .unlock := by
      rw [← hp.2.1]
      exact (h.record _ hmem).kind
    exact .of_grants rfl (covered_grants h hk hmem hp.1 hp.2.1 hp.2.2)
  · cases hr
    refine .of_grants rfl (update_grants h hreq (fun hk => ?_) waiter w)
    rw [if_neg hk] at hf
    exact free_of_find h hk hf

/-! ## Every reachable state -/

/-- The posix lists are well formed, and so is every request. -/
structure Sound (s : State) : Prop where
  lists : ∀ i, ListOk (records (s.inodes i).posix)
  requests : ∀ t a, s.tasks t = some a → a.request.Valid

variable {s : State}

theorem setTask_requests {t : TaskId} {a : Option Apply} (h : ∀ t a, s.tasks t = some a → a.request.Valid)
    (ha : ∀ b, a = some b → b.request.Valid) (u : TaskId) (b : Apply) (hb : (s.setTask t a).tasks u = some b) :
    b.request.Valid := by
  rw [State.setTask_tasks] at hb
  split at hb
  · exact ha b hb
  · exact h u b hb

/-- A task that waits polls again. -/
def Stage.woken : Stage → Stage
  | .wait _ => .wait false
  | stage => stage

theorem unpark_tasks (o : Option TaskId) (u : TaskId) :
    (s.unpark o).tasks u =
      if o = some u then (s.tasks u).map fun a => { a with stage := a.stage.woken } else s.tasks u := by
  unfold State.unpark Stage.woken
  split
  · rfl
  · rename_i t
    by_cases hu : t = u
    · subst hu
      cases ht : s.tasks t with
      | none => simp [ht]
      | some a =>
        obtain ⟨_, _, _, _, _, _ | _ | _ | _⟩ := a <;> simp [ht, State.setTask]
    · rw [if_neg fun h => hu (some.inj h)]
      split
      · split
        · exact (State.setTask_tasks ..).trans (if_neg (Ne.symm hu))
        · rfl
      · rfl

theorem unpark_requests {w : Option TaskId} (h : ∀ t a, s.tasks t = some a → a.request.Valid) (u : TaskId)
    (b : Apply) (hb : (s.unpark w).tasks u = some b) : b.request.Valid := by
  rw [unpark_tasks] at hb
  split at hb
  · obtain ⟨a, ha, rfl⟩ := map_eq_some_iff.1 hb
    exact h u a ha
  · exact h u b hb

theorem unpark_frame (s : State) (o : Option TaskId) : (s.unpark o).inodes = s.inodes ∧ (s.unpark o).tree = s.tree := by
  unfold State.unpark
  split
  · exact ⟨rfl, rfl⟩
  split
  · split <;> exact ⟨rfl, rfl⟩
  · exact ⟨rfl, rfl⟩

theorem Sound.step {s s' : State} {o : Op} (h : Sound s) (ha : Allowed s o)
    (hs : step addr s o = some s') : Sound s' := by
  -- a task keeps its request, and only `try_apply` changes the lists
  have hkeep : ∀ {t : TaskId} {a b : Apply}, s.tasks t = some a → b.request = a.request →
      ∀ c, some b = some c → c.request.Valid := by
    rintro t a b ht hb c ⟨⟩
    rw [hb]
    exact h.requests t a ht
  cases step_cases hs with
  | call => exact ⟨h.lists, setTask_requests h.requests fun b hb => by cases hb; exact ha⟩
  | @tried t a r ht hst hr =>
    refine ⟨fun i => ?_, setTask_requests h.requests (hkeep ht rfl)⟩
    show ListOk (records (Function.update s.inodes a.inode _ i).posix)
    by_cases hi : i = a.inode
    · subst hi
      rw [Function.update_self]
      unfold FileLockLists.setDomain
      by_cases hf : a.request.owner.isFlock = true
      · rw [if_pos hf]
        exact h.lists _
      · rw [if_neg hf]
        unfold tryList at hr
        rw [if_neg hf, FileLockLists.domain, if_neg hf] at hr
        have hans := tryRecord_answers (h.lists _) (h.requests t a ht) hr
        by_cases hres : r.result = .ok false
        · exact (hans.granted hres).ok
        · rw [hans.refused hres]
          exact h.lists _
    · rw [Function.update_of_ne hi]
      exact h.lists i
  | woke ht =>
    refine ⟨fun i => ?_, unpark_requests (setTask_requests h.requests (hkeep ht rfl))⟩
    rw [(unpark_frame ..).1]
    exact h.lists i
  | sleep ht | cancelled ht | ready ht | pending ht | interrupted ht =>
      exact ⟨h.lists, setTask_requests h.requests (hkeep ht rfl)⟩
  | left => exact ⟨h.lists, setTask_requests h.requests fun b hb => by cases hb⟩

theorem run_sound (h : Lib.Run (step addr) Allowed .init s) : Sound s :=
  h.inv Sound ⟨fun _ => ⟨fun r hr => absurd hr not_mem_nil, .nil⟩, fun t a ha => by cases ha⟩
    fun _ _ _ hs hok hst => hs.step hok hst

/-- In every reachable state the record locks of an inode are a lock of each owner on each byte: no byte has a write
lock and another lock, the records of an owner are disjoint, and those of one kind are not adjacent. A granted request
sets the locks of its owner in its range and no others, and a request that is not granted sets none. -/
theorem run_record_locks (addr : NodeId → Nat) (s : State) (h : Lib.Run (step addr) Allowed .init s) (i : Nat) :
    (∀ o o' b, o ≠ o' → held (records (s.inodes i).posix) o b = some .write →
      held (records (s.inodes i).posix) o' b = none) ∧
    ((records (s.inodes i).posix).Pairwise fun r r' => r.owner = r'.owner → r.stop < r'.start ∨ r'.stop < r.start) ∧
    ((records (s.inodes i).posix).Pairwise fun r r' => r.owner = r'.owner → r.kind = r'.kind →
      r.stop + 1 ≠ r'.start ∧ r'.stop + 1 ≠ r.start) ∧
    ∀ req isBlocking waiter w r, req.Valid → req.owner.isFlock = false →
      tryList addr req isBlocking (s.inodes i).posix waiter w = some r →
      (r.result = .ok false → ∀ o b, held (records r.list) o b =
        if o = req.owner ∧ req.start ≤ b ∧ b ≤ req.stop then (if req.kind = .unlock then none else some req.kind)
        else held (records (s.inodes i).posix) o b) ∧
      (r.result ≠ .ok false → ∀ o b, held (records r.list) o b = held (records (s.inodes i).posix) o b) := by
  have hok := (run_sound h).lists i
  refine ⟨fun o o' b hne hw => ?_, hok.apart.imp fun hab => hab.disjoint, ?_,
    fun req isBlocking waiter w r hreq ho hr => ?_⟩
  · rw [eq_none_iff_forall_ne_some]
    intro k hk
    obtain ⟨r, hr, hro, hrb, hrk⟩ := hok.held_eq_some.1 hw
    obtain ⟨r', hr', hro', hrb', -⟩ := hok.held_eq_some.1 hk
    have hne' : r ≠ r' := fun he => hne (by rw [← hro, he, hro'])
    rcases (hok.apart_of_mem hr hr' hne').shared (by rw [hro, hro']; exact hne) with hd | hd | hd
    · omega
    · omega
    · rw [hrk] at hd
      cases hd.1
  · refine hok.apart.imp_of_mem fun {r r'} hr hr' hab ho hk => ?_
    have hle := (hok.record r hr).le
    have hle' := (hok.record r' hr').le
    have := hab.gap ho hk
    omega
  · unfold tryList at hr
    rw [ho, if_neg Bool.false_ne_true] at hr
    have hans := tryRecord_answers hok hreq hr
    exact ⟨fun hres => (hans.granted hres).held, fun hres o b => by rw [hans.refused hres]⟩

/-- A task writes bytes 0 to 9, and unlocks 3 to 5 of them. -/
theorem run_record_locks_sample : ∃ s, Lib.Run (step id) Allowed .init s ∧
    held (records (s.inodes 0).posix) (.posix 1) 4 = some .write ∧
    ∃ r, tryList id ⟨.posix 1, .unlock, 3, 5, 7⟩ true (s.inodes 0).posix none ⟨s.tree, []⟩ = some r ∧
      held (records r.list) (.posix 1) 4 = none ∧ held (records r.list) (.posix 1) 6 = some .write := by
  obtain ⟨s, hs, h4, h6, hc⟩ : ∃ s, Lib.Run (step id) Allowed .init s ∧
      held (records (s.inodes 0).posix) (.posix 1) 4 = some .write ∧
        held (records (s.inodes 0).posix) (.posix 1) 6 = some .write ∧
      ((tryList id ⟨.posix 1, .unlock, 3, 5, 7⟩ true (s.inodes 0).posix none ⟨s.tree, []⟩).any fun r => r.result =
        .ok false) = true :=
    Lib.Run.exists_of_exec [.apply 0 0 ⟨.posix 1, .write, 0, 9, 7⟩ true, .tryApply 0] (by decide +kernel)
  obtain ⟨r, hr, hres⟩ := (any_eq_true _ _).1 hc
  have hgr := of_decide_eq_true hres
  have hheld := ((run_record_locks id s hs 0).2.2.2 _ _ _ _ r (by decide) rfl hr).1 hgr
  refine ⟨s, hs, h4, r, hr, ?_, ?_⟩
  · rw [hheld]
    rfl
  · rw [hheld]
    exact h6

end XKernel.Locks
