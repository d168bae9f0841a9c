import XKernel.Futex.Placement
/-!
# Accounting of futex wakes

A wake selects the first matching waiters and returns their number, and a call of `wait` that
returns `Ok(true)` was selected exactly once. A call that ends with a timeout or a signal was
selected by no wake, provided that no wake comes between the two loads with which `cancel`
begins: with one there, the wake is lost.
-/

namespace XKernel.Futex

open XKernel.Lib Function List Option FutexWaiter

/-! ## Waiters over time -/

/-- A waiter stays as it is or is woken from its queue. -/
def Evolves (waiters waiters' : Waiters) : Prop :=
  ∀ w x, waiters w = some x → ∃ x', waiters' w = some x' ∧ (x'.state = x.state ∨ x.state = .queued ∧ x'.state = .woken)

namespace Evolves

variable {waiters waiters' : Waiters}

theorem refl (waiters : Waiters) : Evolves waiters waiters := fun _ x hx => ⟨x, hx, .inl rfl⟩

theorem trans {waiters'' : Waiters} (h : Evolves waiters waiters') (h' : Evolves waiters' waiters'') :
    Evolves waiters waiters'' := by
  intro w x hx
  obtain ⟨x', hx', hstate⟩ := h w x hx
  obtain ⟨x'', hx'', hstate'⟩ := h' w x' hx'
  refine ⟨x'', hx'', ?_⟩
  rcases hstate with hsame | ⟨hq, hwoken⟩
  · rwa [hsame] at hstate'
  · rcases hstate' with hsame' | ⟨hq', -⟩
    · exact .inr ⟨hq, hsame'.trans hwoken⟩
    · cases hwoken.symm.trans hq'

theorem wakeAll {l : List Nat} (hl : ∀ w ∈ l, waiters.holds isQueued w = true) :
    Evolves waiters (waiters.wakeAll l) := by
  intro w x hx
  by_cases hw : w ∈ l
  · obtain ⟨x0, hx0, hq⟩ := Waiters.holds_eq_true.1 (hl w hw)
    cases hx.symm.trans hx0
    exact ⟨{ x with state := .woken }, by simp [Waiters.wakeAll, Waiters.changeAll_of_mem hw, hx],
      .inr ⟨isQueued_iff.1 hq, rfl⟩⟩
  · exact ⟨x, by simp [Waiters.wakeAll, Waiters.changeAll_of_not_mem hw, hx], .inl rfl⟩

theorem requeueAll (key : FutexKey) (bucket : BucketId) (l : List Nat) :
    Evolves waiters (waiters.requeueAll key bucket l) := by
  intro w x hx
  by_cases hw : w ∈ l
  · exact ⟨x.requeueTo key bucket, by simp [Waiters.requeueAll, Waiters.changeAll_of_mem hw, hx], .inl rfl⟩
  · exact ⟨x, by simp [Waiters.requeueAll, Waiters.changeAll_of_not_mem hw, hx], .inl rfl⟩

end Evolves

/-! ## The calls of `wait` -/

/-- The two errors that end a wait from outside. -/
def KError.Terminal (error : KError) : Prop := error = .timedOut ∨ error = .interrupted

/-- The waiter is queued, or a wake has selected it. -/
def Alive (waiters : Waiters) (w : Nat) : Prop := ∃ x, waiters w = some x ∧ (x.state = .queued ∨ x.state = .woken)

/-- What a call knows of its waiter. -/
def CallOk (waiters : Waiters) : WaitPc → Prop
  | .check | .poll | .enqueue => True
  | .queued w => Alive waiters w
  | .cancelWoken w error | .cancelQueued w error | .cancelRoute w error | .cancelLock w error _ _ =>
    error.Terminal ∧ Alive waiters w
  | .returned (.ok true) w => ∃ v x, w = some v ∧ waiters v = some x ∧ x.state = .woken
  | .returned (.ok false) w => w = none
  | .returned (.error error) w => ∀ v, w = some v → error.Terminal ∧ ∃ x, waiters v = some x ∧ x.state = .cancelled

variable {pc : WaitPc}

/-- Only the call's own waiter matters, and it may be woken. -/
theorem CallOk.evolve {waiters waiters' : Waiters} (h : CallOk waiters pc)
    (he : ∀ w x, pc.waiter = some w → waiters w = some x →
      ∃ x', waiters' w = some x' ∧ (x'.state = x.state ∨ x.state = .queued ∧ x'.state = .woken)) :
    CallOk waiters' pc := by
  have halive : ∀ w, pc.waiter = some w → Alive waiters w → Alive waiters' w := by
    rintro w hw ⟨x, hx, hstate⟩
    obtain ⟨x', hx', hsame | ⟨-, hwoken⟩⟩ := he w x hw hx
    · exact ⟨x', hx', by rwa [hsame]⟩
    · exact ⟨x', hx', .inr hwoken⟩
  match pc, h with
  | .check, _ | .poll, _ | .enqueue, _ => exact trivial
  | .queued w, h => exact halive w rfl h
  | .cancelWoken w _, h | .cancelQueued w _, h | .cancelRoute w _, h | .cancelLock w _ _ _, h =>
      exact ⟨h.1, halive w rfl h.2⟩
  | .returned (.ok true) _, h =>
    obtain ⟨v, x, hw, hx, hstate⟩ := h
    obtain ⟨x', hx', hsame | ⟨hq, -⟩⟩ := he v x hw hx
    · exact ⟨v, x', hw, hx', hsame.trans hstate⟩
    · cases hstate.symm.trans hq
  | .returned (.ok false) _, h => exact h
  | .returned (.error _) _, h =>
    intro v hv
    obtain ⟨hterm, x, hx, hstate⟩ := h v hv
    obtain ⟨x', hx', hsame | ⟨hq, -⟩⟩ := he v x hv hx
    · exact ⟨hterm, x', hx', hsame.trans hstate⟩
    · cases hstate.symm.trans hq

/-- A waiter that a call has is allocated. -/
theorem CallOk.isSome {waiters : Waiters} (h : CallOk waiters pc) {w : Nat} (hw : pc.waiter = some w) :
    ∃ x, waiters w = some x := by
  match pc, h, hw with
  | .queued _, ⟨x, hx, _⟩, rfl => exact ⟨x, hx⟩
  | .cancelWoken _ _, ⟨_, x, hx, _⟩, rfl | .cancelQueued _ _, ⟨_, x, hx, _⟩, rfl | .cancelRoute _ _, ⟨_, x, hx, _⟩, rfl
  | .cancelLock _ _ _ _, ⟨_, x, hx, _⟩, rfl => exact ⟨x, hx⟩
  | .returned (.ok true) _, ⟨v, x, rfl, hx, _⟩, rfl => exact ⟨x, hx⟩
  | .returned (.ok false) _, h, hw => cases h.symm.trans hw
  | .returned (.error _) _, h, hw =>
    obtain ⟨-, x, hx, -⟩ := h w hw
    exact ⟨x, hx⟩

/-- Every call agrees with its waiter, and no two calls have the same one. -/
structure Calls (s : Futexes) : Prop where
  ok : ∀ c call, s.waits c = some call → CallOk s.waiters call.pc
  owner : ∀ c c' call call' w, s.waits c = some call → s.waits c' = some call' → call.pc.waiter = some w →
    call'.pc.waiter = some w → c = c'

namespace Calls

variable {s s' : Futexes} {c : Nat} {call : WaitCall}

theorem evolve (h : Calls s) (hw : s'.waits = s.waits) (he : Evolves s.waiters s'.waiters) : Calls s' := by
  refine ⟨fun c call hc => ?_, fun c c' call call' w hc hc' => ?_⟩
  · exact (h.ok c call (hw ▸ hc)).evolve fun w x _ => he w x
  · exact h.owner c c' call call' w (hw ▸ hc) (hw ▸ hc')

/-- The call `c` begins, or goes on with the same waiter. -/
theorem put (h : Calls s) (hok : CallOk s.waiters call.pc)
    (hw : ∀ w, call.pc.waiter = some w → ∃ old, s.waits c = some old ∧ old.pc.waiter = some w) :
    Calls { s with waits := update s.waits c (some call) } := by
  have hwaiter : ∀ d call' w, update s.waits c (some call) d = some call' → call'.pc.waiter = some w →
      ∃ old, s.waits d = some old ∧ old.pc.waiter = some w := by
    intro d call' w hd hw'
    obtain ⟨rfl, ⟨⟩⟩ | ⟨-, hd⟩ := update_apply_eq_iff.1 hd
    · exact hw w hw'
    · exact ⟨call', hd, hw'⟩
  refine ⟨fun d call' hd => ?_, fun d d' call1 call2 w hd hd' h1 h2 => ?_⟩
  · obtain ⟨rfl, ⟨⟩⟩ | ⟨-, hd⟩ := update_apply_eq_iff.1 hd
    · exact hok
    · exact h.ok d call' hd
  · obtain ⟨a, ha, haw⟩ := hwaiter d call1 w hd h1
    obtain ⟨b, hb, hbw⟩ := hwaiter d' call2 w hd' h2
    exact h.owner d d' a b w ha hb haw hbw

/-- The call `c` gets a new waiter, or loses its own to a cancellation; the others do not have it. -/
theorem setWaiter (h : Calls s) (call : WaitCall) (hwaits : s'.waits = update s.waits c (some call)) {w : Nat}
    (hw : call.pc.waiter = some w) (hother : ∀ d call', d ≠ c → s.waits d = some call' → call'.pc.waiter ≠ some w)
    (hsame : ∀ v, v ≠ w → s'.waiters v = s.waiters v) (hok : CallOk s'.waiters call.pc) : Calls s' := by
  have hsplit : ∀ d call', s'.waits d = some call' → d = c ∧ some call = some call' ∨ d ≠ c ∧ s.waits d = some call' :=
    fun d call' hd => update_apply_eq_iff.1 (hwaits ▸ hd)
  refine ⟨fun d call' hd => ?_, fun d d' call1 call2 v hd hd' h1 h2 => ?_⟩
  · obtain ⟨rfl, ⟨⟩⟩ | ⟨hdc, hd⟩ := hsplit d call' hd
    · exact hok
    · -- the waiter of another call is untouched
      have hown := hother d call' hdc hd
      refine (h.ok d call' hd).evolve fun v x hv hx => ⟨x, (hsame v ?_).trans hx, .inl rfl⟩
      rintro rfl
      exact hown hv
  · obtain ⟨rfl, ⟨⟩⟩ | ⟨hdc, hd⟩ := hsplit d call1 hd <;> obtain ⟨rfl, ⟨⟩⟩ | ⟨hdc', hd'⟩ := hsplit d' call2 hd'
    · rfl
    · cases hw.symm.trans h1
      exact absurd h2 (hother d' call2 hdc' hd')
    · cases hw.symm.trans h2
      exact absurd h1 (hother d call1 hdc hd)
    · exact h.owner d d' call1 call2 v hd hd' h1 h2

end Calls

/-! ## One step of a wait -/

namespace Futexes

variable {s s' : Futexes} {c fresh : Nat} {call : WaitCall}

/-- The step at which a wake is lost: `cancel` has found its waiter not woken, and now finds it
not queued, because a wake came between. -/
def losesWake (s : Futexes) (call : WaitCall) : Bool :=
  match call.pc with
  | .cancelQueued w _ => s.waiters.holds FutexWaiter.isWoken w
  | _ => false

/-- What a step of a wait does. -/
inductive WaitEffect (s : Futexes) (c : Nat) (call : WaitCall) (fresh : Nat) : Futexes → Prop
  | goes (pc : WaitPc) (waiter : pc.waiter = call.pc.waiter)
      (ok : CallOk s.waiters call.pc → s.losesWake call = false → CallOk s.waiters pc) :
      WaitEffect s c call fresh (s.setWait c call pc)
  | enqueues (pc : call.pc = .enqueue) (free : s.waiters fresh = none)
      (word : s.memory call.uaddr = some call.expected) : WaitEffect s c call fresh (s.enqueue c call fresh)
  | cancels (w : Nat) (error : KError) (x : FutexWaiter) (generation : UInt64)
      (pc : call.pc = .cancelLock w error x.route.bucket generation) (found : s.waiters w = some x)
      (queued : x.state = .queued) :
      WaitEffect s c call fresh
        { s.setWait c call (.returned (.error error) (some w)) with
          waiters := Function.update s.waiters w (some { x with state := .cancelled })
          queues := Function.update s.queues x.route.bucket ((s.queues x.route.bucket).filter (· ≠ w)) }

theorem checkWord_effect {next : WaitPc} (hpc : call.pc.waiter = none) (hnext : next.waiter = none)
    (hok : CallOk s.waiters next) :
    WaitEffect s c call fresh (s.checkWord c call next) := by
  unfold checkWord
  split
  · exact .goes _ hpc.symm fun _ _ v hv => by cases hv
  split
  · exact .goes _ (hnext.trans hpc.symm) fun _ _ => hok
  · exact .goes _ hpc.symm fun _ _ => rfl

theorem cancelLocked_effect {w : Nat} {x : FutexWaiter} {error : KError} {bucket : BucketId} {generation : UInt64}
    (hpc : call.pc = .cancelLock w error bucket generation) (hx : s.waiters w = some x) :
    WaitEffect s c call fresh (s.cancelLocked c call w x error bucket generation) := by
  have hretry : WaitEffect s c call fresh (s.setWait c call (.cancelWoken w error)) := by
    refine .goes _ (by rw [hpc]; rfl) fun hok _ => ?_
    rw [hpc] at hok
    exact hok
  unfold cancelLocked
  split
  · exact hretry
  rename_i hroute
  obtain ⟨rfl, -⟩ : bucket = x.route.bucket ∧ generation = x.route.generation := by
    simpa [not_or] using hroute
  split
  · exact .cancels w error x generation hpc hx (isQueued_iff.1 ‹_›)
  · exact hretry

theorem stepWait_effect (h : s.stepWait c call fresh = some s') : WaitEffect s c call fresh s' := by
  obtain ⟨key, uaddr, expected, matchMask, pc⟩ := call
  cases pc with
  | check | poll =>
    cases h
    exact checkWord_effect rfl rfl trivial
  | enqueue =>
    simp only [stepWait] at h
    split at h
    · cases h
    rename_i hfree
    cases h
    by_cases hword : s.memory uaddr = some expected
    · exact .enqueues rfl (by simpa using hfree) hword
    · unfold enqueue
      split
      · exact .goes _ rfl fun _ _ => trivial
      · rename_i value hvalue
        rw [if_neg fun e => hword (by rw [hvalue, e])]
        exact .goes _ rfl fun _ _ => rfl
  | queued w =>
    obtain ⟨x, hx, h⟩ := bind_eq_some_iff.1 h
    split at h <;> cases h
    exact .goes _ rfl fun _ _ => ⟨w, x, rfl, hx, isWoken_iff.1 ‹_›⟩
  | cancelWoken w =>
    obtain ⟨x, hx, h⟩ := bind_eq_some_iff.1 h
    split at h <;> cases h
    · exact .goes _ rfl fun _ _ => ⟨w, x, rfl, hx, isWoken_iff.1 ‹_›⟩
    · exact .goes _ rfl fun hok _ => hok
  | cancelQueued w =>
    obtain ⟨x, hx, h⟩ := bind_eq_some_iff.1 h
    split at h <;> cases h
    · -- not queued any more: without a lost wake this cannot be
      rename_i hq
      refine .goes _ rfl fun hok hlost => ?_
      obtain ⟨hterm, y, hy, hstate⟩ := hok
      cases hx.symm.trans hy
      rcases hstate with hqueued | hwoken
      · exact absurd (isQueued_iff.2 hqueued) hq
      · have hlost' : s.waiters.holds isWoken w = false := hlost
        rw [Waiters.holds_eq_true.2 ⟨x, hx, isWoken_iff.2 hwoken⟩] at hlost'
        cases hlost'
    · exact .goes _ rfl fun hok _ => hok
  | cancelRoute =>
    obtain ⟨x, hx, h⟩ := bind_eq_some_iff.1 h
    cases h
    exact .goes _ rfl fun hok _ => hok
  | cancelLock =>
    obtain ⟨x, hx, h⟩ := bind_eq_some_iff.1 h
    cases h
    exact cancelLocked_effect rfl hx
  | returned => cases h

/-! ## One step of a wake -/

/-- The number of waiters that a call has woken or moved. -/
def handled (s : Futexes) (c : Nat) : Nat := (s.selected.map Prod.fst).count c + (s.moved.map Prod.fst).count c

/-- What a critical section of the wake call `c` does: it handles `n` waiters. -/
structure Advances (s s' : Futexes) (c n : Nat) : Prop where
  table : Table s'
  waits : s'.waits = s.waits
  wakes : s'.wakes = s.wakes
  evolves : Evolves s.waiters s'.waiters
  free : ∀ w, s.waiters w = none → s'.waiters w = none
  handled : ∀ d, s'.handled d = s.handled d + if d = c then n else 0

namespace Advances

variable {n k : Nat}

theorem idle (s : Futexes) (h : Table s') (hwaits : s'.waits = s.waits) (hwakes : s'.wakes = s.wakes)
    (hw : s'.waiters = s.waiters)
    (hs : s'.selected = s.selected) (hm : s'.moved = s.moved) (c : Nat) : Advances s s' c 0 :=
  ⟨h, hwaits, hwakes, hw ▸ .refl _, fun _ hn => hw ▸ hn, fun d => by simp [Futexes.handled, hs, hm]⟩

theorem trans {s'' : Futexes} (h : Advances s s' c n) (h' : Advances s' s'' c k) : Advances s s'' c (n + k) := by
  refine ⟨h'.table, h'.waits.trans h.waits, h'.wakes.trans h.wakes, h.evolves.trans h'.evolves,
    fun w hn => h'.free w (h.free w hn), fun d => ?_⟩
  rw [h'.handled d, h.handled d]
  split <;> omega

end Advances

theorem count_fst_map (c d : Nat) (l : List Nat) :
    ((l.map fun w => (c, w)).map Prod.fst).count d = if d = c then l.length else 0 := by
  rw [List.map_map]
  by_cases hd : d = c
  · subst hd
    simp
  · simp only [hd]
    refine List.count_eq_zero_of_not_mem fun hm => ?_
    obtain ⟨w, -, hw⟩ := List.mem_map.1 hm
    exact hd hw.symm

theorem mark_advances (h : Table s) (c : Nat) (key : FutexKey) (count : Nat) (mask : UInt32) :
    Advances s (s.mark c key count mask).1 c (s.mark c key count mask).2 := by
  refine ⟨?_, rfl, rfl, ?_, fun w hn => ?_, fun d => ?_⟩
  · rw [mark_eq h]
    exact h.wake (((h.nodup _).filter _).sublist (take_sublist _ _)) chosen_queued c
  · rw [mark_eq h]
    exact .wakeAll chosen_queued
  · rw [mark_eq h]
    exact Waiters.changeAll_eq_none hn
  · simp only [handled, mark_eq h, map_append, count_append, count_fst_map]
    omega

theorem requeue_advances (h : Table s) (c : Nat) (source target : FutexKey) (wakeCount requeueCount : Nat) :
    Advances s (s.requeueQueues c source target wakeCount requeueCount).1 c
      (s.requeueQueues c source target wakeCount requeueCount).2 := by
  have htable := requeueQueues_table (c := c) h source target wakeCount requeueCount
  rw [requeueQueues_eq h] at htable ⊢
  refine ⟨htable, rfl, rfl, ?_, fun w hn => Waiters.changeAll_eq_none (Waiters.changeAll_eq_none hn), fun d => ?_⟩
  · exact (Evolves.wakeAll fun w hw => isQueued_of_waitsOn (waitsOn_of_mem_toWake hw)).trans (.requeueAll _ _ _)
  · simp only [handled, map_append, count_append, count_fst_map]
    split <;> omega

/-- The waiters that match a wake, in queue order. -/
def matchingWaiters (s : Futexes) (key : FutexKey) (mask : UInt32) : List Nat :=
  matching s.waiters (s.queues (s.bucketId key)) key mask

theorem wakeOpLocked_spec (h : Table s) {c : Nat} {source target : FutexKey}
    {uaddr2 sourceCount targetCount count : Nat} {operation : FutexWakeOp} {exchanged : Option Bool}
    (hs : s.wakeOpLocked c source target uaddr2 sourceCount targetCount operation exchanged = .ok (s', count)) :
    Advances s s' c count ∧ s'.moved = s.moved ∧ ∃ old, s.memory uaddr2 = some old ∧
      s'.selected = s.selected ++ ((s.matchingWaiters source 0xffffffff).take sourceCount).map (c, ·) ++
        if operation.compare old then
          (({ s with waiters := s.waiters.wakeAll ((s.matchingWaiters source 0xffffffff).take sourceCount)
            }.matchingWaiters target 0xffffffff).take targetCount).map (c, ·)
        else [] := by
  unfold wakeOpLocked at hs
  split at hs
  · cases hs
  rename_i old hold
  split at hs
  · cases hs
  · cases hs
  have htable : Table { s with memory := update s.memory uaddr2 (some (operation.apply old)) } :=
    h.congr rfl rfl rfl rfl
  have hmemory : Advances s { s with memory := update s.memory uaddr2 (some (operation.apply old)) } c 0 :=
    .idle s htable rfl rfl rfl rfl rfl c
  have hfirst := mark_advances htable c source sourceCount 0xffffffff
  dsimp only at hs
  split at hs
  · rename_i hcompare
    cases hs
    refine ⟨by simpa using hmemory.trans (hfirst.trans
      (mark_advances hfirst.table c target targetCount 0xffffffff)), ?_⟩
    rw [mark_eq hfirst.table, mark_eq htable]
    exact ⟨rfl, old, hold, by rw [if_pos hcompare]; rfl⟩
  · rename_i hcompare
    cases hs
    refine ⟨by simpa using hmemory.trans hfirst, ?_⟩
    rw [mark_eq htable]
    exact ⟨rfl, old, hold, by rw [if_neg hcompare]; exact (append_nil _).symm⟩

end Futexes

/-- The number of waiters that a call has handled at a place of its code. -/
def WakePc.count : WakePc → Nat
  | .check | .load | .locked => 0
  | .drain _ count => count
  | .returned (.ok count) => count
  | .returned (.error _) => 0

namespace Futexes

variable {s s' : Futexes} {c : Nat} {call : WakeCall}

/-- The call handles some waiters and notes their number. -/
def WakeEffect (s : Futexes) (c : Nat) (call : WakeCall) (s' : Futexes) : Prop :=
  ∃ s₁ n pc, Advances s s₁ c n ∧ s' = s₁.setWake c call pc ∧ pc.count = call.pc.count + n

variable {pc : WakePc} (h : Table s) (hpc : call.pc.count = 0)
include h

theorem WakeEffect.idle (hnext : pc.count = call.pc.count) : WakeEffect s c call (s.setWake c call pc) :=
  ⟨s, 0, pc, .idle s h rfl rfl rfl rfl rfl c, rfl, hnext⟩

include hpc

omit h in
theorem WakeEffect.handles {n : Nat} (ha : Advances s s' c n) (hn : pc.count = n) :
    WakeEffect s c call (s'.setWake c call pc) :=
  ⟨s', n, pc, ha, rfl, by rw [hn, hpc, Nat.zero_add]⟩

theorem checkWake_effect (hnext : pc.count = 0) : WakeEffect s c call (s.checkWake c call pc) := by
  unfold checkWake
  split
  · split
    · exact .idle h hpc.symm
    · exact .idle h (hnext.trans hpc.symm)
  · exact .idle h (hnext.trans hpc.symm)

theorem loadWake_effect : WakeEffect s c call (s.loadWake c call) := by
  unfold loadWake
  split
  · split <;> exact .idle h hpc.symm
  · exact .idle h hpc.symm

theorem lockedWake_effect (exchanged : Option Bool) : WakeEffect s c call (s.lockedWake c call exchanged) := by
  unfold lockedWake
  split
  · split
    · exact .idle h hpc.symm
    · exact .handles hpc (mark_advances h c _ _ _) rfl
  · split
    · exact .idle h hpc.symm
    · rename_i s1 count hs
      exact .handles hpc (wakeOpLocked_spec h hs).1 rfl
  · split
    · exact .idle h hpc.symm
    · exact .handles hpc (requeue_advances h c _ _ _ _) rfl

omit hpc

variable {exchanged : Option Bool}

/-- Each step of a wake handles some waiters and notes their number. -/
theorem stepWake_effect (hs : s.stepWake c call exchanged = some s') : WakeEffect s c call s' := by
  obtain ⟨request, pc⟩ := call
  match pc, hs with
  | .check, hs =>
    cases hs
    exact checkWake_effect h rfl rfl
  | .load, hs =>
    cases hs
    exact loadWake_effect h rfl
  | .locked, hs =>
    cases hs
    exact lockedWake_effect h rfl exchanged
  | .drain [] count, hs =>
    cases hs
    exact .idle h rfl
  | .drain (bucket :: buckets) count, hs =>
    cases hs
    have hdrain : Advances s { s with queues := update s.queues bucket (drained s.waiters (s.queues bucket)) } c 0 :=
      .idle s (h.drain bucket) rfl rfl rfl rfl rfl c
    exact ⟨_, 0, .drain buckets count, hdrain, rfl, rfl⟩

omit h

/-! ## The invariant -/

/-- The table, the waits and the numbers of the wakes agree. -/
structure Inv (s : Futexes) : Prop where
  table : Table s
  calls : Calls s
  returns : ∀ c, s.handled c = ((s.wakes c).map fun call => call.pc.count).getD 0

theorem start_inv (hashSeed : UInt64) : Inv (start hashSeed) := by
  refine ⟨⟨fun _ => nodup_nil, ?_, ?_, ?_, ?_⟩, ⟨?_, ?_⟩, ?_⟩ <;> intros <;> simp_all [start, Waiters.holds, handled]

theorem Inv.wake (h : Inv s) (hc : s.wakes c = some call) {s1 : Futexes} {n : Nat} {pc : WakePc}
    (ha : Advances s s1 c n) (hpc : pc.count = call.pc.count + n) : Inv (s1.setWake c call pc) := by
  refine ⟨ha.table.congr rfl rfl rfl rfl, h.calls.evolve ha.waits ha.evolves, fun d => ?_⟩
  have hd : (s1.setWake c call pc).handled d = s.handled d + if d = c then n else 0 := ha.handled d
  rw [hd, h.returns d]
  by_cases hdc : d = c
  · subst hdc
    simp [setWake, hc, hpc]
  · simp [setWake, ha.wakes, hdc]

variable {call : WaitCall} {fresh : Nat}

/-- The word of the call stays out of the table. -/
theorem Inv.waitEffect (h : Inv s) (hc : s.waits c = some call)
    (he : WaitEffect s c call fresh s') (hlost : s.losesWake call = false) : Inv s' := by
  have hok := h.calls.ok c call hc
  cases he with
  | goes pc waiter ok =>
    exact ⟨h.table.congr rfl rfl rfl rfl, h.calls.put (ok hok hlost) fun w hw => ⟨call, hc, waiter ▸ hw⟩, h.returns⟩
  | enqueues pc free word =>
    have hsame : s.enqueue c call fresh =
        { s.setWait c call (.queued fresh) with
          waiters := update s.waiters fresh
            (some { new call.key (s.bucketId call.key) call.matchMask with state := .queued })
          queues := update s.queues (s.bucketId call.key) (s.queues (s.bucketId call.key) ++ [fresh]) } := by
      simp [enqueue, word]
    rw [hsame]
    refine ⟨(h.table.enqueue free call.key call.matchMask).congr rfl rfl rfl rfl, ?_, h.returns⟩
    refine h.calls.setWaiter { call with pc := .queued fresh } rfl rfl (fun d call' _ hd hown => ?_)
      (fun v hv => update_of_ne hv _ _) ⟨_, update_self _ _ _, .inl rfl⟩
    obtain ⟨x, hx⟩ := (h.calls.ok d call' hd).isSome hown
    cases free.symm.trans hx
  | cancels w error x generation pc found queued =>
    refine ⟨(h.table.cancel found queued).congr rfl rfl rfl rfl, ?_, h.returns⟩
    refine h.calls.setWaiter { call with pc := .returned (.error error) (some w) } rfl rfl
      (fun d call' hdc hd hown => hdc (h.calls.owner d c call' call w hd hc hown (by rw [pc]; rfl)))
      (fun v hv => update_of_ne hv _ _) fun v hv => ?_
    cases hv
    rw [pc] at hok
    exact ⟨hok.1, _, update_self _ _ _, rfl⟩

/-- The condition: no wake comes between the two loads of `cancel`. -/
def cancelsWhole (s : Futexes) : FutexOp → Bool
  | .wait c _ => !(s.waits c).any s.losesWake
  | _ => true

theorem Inv.startWait (h : Inv s) (hpc : call.pc = .check) :
    Inv { s with waits := update s.waits c (some call) } := by
  refine ⟨h.table.congr rfl rfl rfl rfl, h.calls.put ?_ fun w hw => ?_, h.returns⟩
  · rw [hpc]
    exact trivial
  · rw [hpc] at hw
    cases hw

theorem Inv.startWake (h : Inv s) {call : WakeCall} (hc : s.wakes c = none) (hpc : call.pc.count = 0) :
    Inv { s with wakes := update s.wakes c (some call) } := by
  refine ⟨h.table.congr rfl rfl rfl rfl, h.calls.evolve rfl (.refl _), fun d => ?_⟩
  have hd := h.returns d
  by_cases hdc : d = c
  · subst hdc
    simpa [handled, hc, hpc] using hd
  · simpa [handled, hdc] using hd

theorem interruptWait_effect {error : KError} (hterm : error.Terminal)
    (h : s.interruptWait c call error = some s') : WaitEffect s c call fresh s' := by
  obtain ⟨key, uaddr, expected, matchMask, pc⟩ := call
  cases pc <;> cases h
  · exact .goes _ rfl fun _ _ v hv => by cases hv
  · exact .goes _ rfl fun hok _ => ⟨hterm, hok⟩

variable {o : FutexOp}

/-- What a step does. -/
inductive Effect (s : Futexes) : FutexOp → Futexes → Prop
  | store (uaddr : Nat) (value : Option UInt32) :
      Effect s (.store uaddr value) { s with memory := Function.update s.memory uaddr value }
  | startWait (c : Nat) (key : FutexKey) (uaddr : Nat) (expected mask : UInt32) (free : s.waits c = none) :
      Effect s (.startWait c key uaddr expected mask)
        { s with waits := Function.update s.waits c (some ⟨key, uaddr, expected, mask, .check⟩) }
  | startWake (c : Nat) (request : WakeRequest) (free : s.wakes c = none) :
      Effect s (.startWake c request) { s with wakes := Function.update s.wakes c (some ⟨request, request.first⟩) }
  | wait {c fresh : Nat} {call : WaitCall} {s' : Futexes} (found : s.waits c = some call)
      (effect : WaitEffect s c call fresh s') : Effect s (.wait c fresh) s'
  | interrupt {c : Nat} (error : KError) {call : WaitCall} {s' : Futexes} (found : s.waits c = some call)
      (kept : s.losesWake call = false) (same : s'.waiters = s.waiters) (effect : WaitEffect s c call 0 s') :
      Effect s (.interrupt c error) s'
  | wake {c : Nat} {exchanged : Option Bool} {call : WakeCall} {s' : Futexes} (found : s.wakes c = some call)
      (stepped : s.stepWake c call exchanged = some s') : Effect s (.wake c exchanged) s'

theorem step_effect (hs : s.step o = some s') : Effect s o s' := by
  cases o with
  | store uaddr value =>
    cases hs
    exact .store uaddr value
  | startWait c key uaddr expected matchMask =>
    simp only [step] at hs
    split at hs <;> cases hs
    exact .startWait c key uaddr expected matchMask (not_isSome_iff_eq_none.1 ‹_›)
  | startWake c request =>
    simp only [step] at hs
    split at hs <;> cases hs
    exact .startWake c request (not_isSome_iff_eq_none.1 ‹_›)
  | wait =>
    obtain ⟨call, hc, hs⟩ := bind_eq_some_iff.1 hs
    exact .wait hc (stepWait_effect hs)
  | interrupt c error =>
    obtain ⟨hterm, hs⟩ := ite_none_right_eq_some.1 hs
    obtain ⟨call, hc, hs⟩ := bind_eq_some_iff.1 hs
    have he : WaitEffect s c call 0 s' := interruptWait_effect hterm hs
    obtain ⟨key, uaddr, expected, matchMask, pc⟩ := call
    cases pc <;> cases hs <;> exact .interrupt error hc rfl rfl he
  | wake =>
    obtain ⟨call, hc, hs⟩ := bind_eq_some_iff.1 hs
    exact .wake hc hs

theorem Inv.step (h : Inv s) (hok : s.cancelsWhole o = true) (hs : s.step o = some s') : Inv s' := by
  cases step_effect hs with
  | store => exact ⟨h.table.congr rfl rfl rfl rfl, h.calls.evolve rfl (.refl _), h.returns⟩
  | startWait => exact h.startWait rfl
  | startWake _ request free => exact h.startWake free (by cases request <;> rfl)
  | wait found effect => exact h.waitEffect found effect (by simpa [cancelsWhole, found] using hok)
  | interrupt _ found kept _ effect => exact h.waitEffect found effect kept
  | wake found stepped =>
    obtain ⟨s1, n, pc, ha, rfl, hpc⟩ := stepWake_effect h.table stepped
    exact h.wake found ha hpc

/-! ## What a wait returns -/

/-- The number of wakes that selected a waiter. -/
def selections (s : Futexes) (w : Nat) : Nat := (s.selected.map Prod.snd).count w

/-- A wait that returned `Ok(true)` was selected by exactly one wake; one that returned a timeout
or a signal error, by none. -/
def Answered (s : Futexes) (call : WaitCall) : Prop :=
  match call.pc with
  | .returned (.ok true) w => ∃ v, w = some v ∧ s.selections v = 1
  | .returned (.error error) w => error.Terminal → ∀ v, w = some v → s.selections v = 0
  | _ => True

theorem Inv.answered (h : Inv s) (hc : s.waits c = some call) : s.Answered call := by
  have hok := h.calls.ok c call hc
  obtain ⟨key, uaddr, expected, matchMask, pc⟩ := call
  match pc, hok with
  | .returned (.ok true) _, ⟨v, x, hw, hx, hstate⟩ =>
    have hwoken : s.waiters.holds isWoken v = true :=
      Waiters.holds_eq_true.2 ⟨x, hx, isWoken_iff.2 hstate⟩
    exact ⟨v, hw, (h.table.counted v).trans (by rw [hwoken]; rfl)⟩
  | .returned (.ok false) _, _ => exact trivial
  | .returned (.error error) _, hok =>
    intro _ v hv
    obtain ⟨-, x, hx, hstate⟩ := hok v hv
    have hnot : s.waiters.holds isWoken v = false := by
      simp [Waiters.holds, hx, isWoken, hstate]
    exact (h.table.counted v).trans (by rw [hnot]; rfl)
  | .check, _ | .poll, _ | .enqueue, _ | .queued _, _ | .cancelWoken _ _, _ | .cancelQueued _ _, _ | .cancelRoute _ _, _
  | .cancelLock _ _ _ _, _ => exact trivial

/-- From a state with the invariant, all waits are answered after a step exactly if it does not
lose a wake. -/
theorem Inv.answered_iff (h : Inv s) (hs : s.step o = some s') :
    (∀ c call, s'.waits c = some call → s'.Answered call) ↔ s.cancelsWhole o = true := by
  refine ⟨fun hall => ?_, fun hok c call hc => (h.step hok hs).answered hc⟩
  by_contra hnot
  obtain ⟨c, fresh, rfl⟩ : ∃ c fresh, o = .wait c fresh := by
    cases o with
    | wait c fresh => exact ⟨c, fresh, rfl⟩
    | _ => exact absurd rfl hnot
  obtain ⟨call, hc, hs⟩ := bind_eq_some_iff.1 hs
  have hlost : s.losesWake call = true := by simpa [cancelsWhole, hc] using hnot
  obtain ⟨key, uaddr, expected, matchMask, pc⟩ := call
  cases pc with
  | cancelQueued w =>
    obtain ⟨x, hx, hs⟩ := bind_eq_some_iff.1 hs
    have hwoken : s.waiters.holds isWoken w = true := hlost
    have hstate : x.state = .woken := by
      simpa [Waiters.holds, hx, isWoken] using hwoken
    rw [if_pos (by simp [isQueued, hstate])] at hs
    cases hs
    have hbad := hall c _ (update_self c _ s.waits) (h.calls.ok c _ hc).1 w rfl
    have hone := (h.table.counted w).trans (by rw [hwoken]; rfl : _ = 1)
    cases hone.symm.trans hbad
  | _ => cases hlost

/-! ## What a wake selects -/

/-- The waiters on a key, in queue order. -/
def waitingOn (s : Futexes) (key : FutexKey) : List Nat := waiting s.waiters (s.queues (s.bucketId key)) key

/-- A wake selects the first `min(count, matching)` waiters; a requeue wakes the first waiters on
its source and moves the next ones. Other steps select none. -/
def Selects (s : Futexes) (o : FutexOp) (s' : Futexes) : Prop :=
  match o with
  | .wake c _ =>
    ∀ call, s.wakes c = some call →
      match call.pc, call.request with
      | .locked, .wake key count mask =>
        s'.selected = s.selected ++ ((s.matchingWaiters key mask).take count).map (c, ·) ∧ s'.moved = s.moved
      | .locked, .wakeOp source target uaddr2 sourceCount targetCount operation =>
        s'.moved = s.moved ∧
          (s'.wakes c = some ⟨call.request, .returned (.error .fault)⟩ ∧ s'.selected = s.selected ∨
            s'.wakes c = some ⟨call.request, .returned (.error .wouldBlock)⟩ ∧ s'.selected = s.selected ∨
            ∃ old, s.memory uaddr2 = some old ∧
              let first := (s.matchingWaiters source 0xffffffff).take sourceCount
              let rest := { s with waiters := s.waiters.wakeAll first }
              s'.selected = s.selected ++ first.map (c, ·) ++
                if operation.compare old then
                ((rest.matchingWaiters target 0xffffffff).take targetCount).map (c, ·) else [])
      | .locked, .requeue source _ wakeCount requeueCount _ =>
        (∃ error, s'.wakes c = some ⟨call.request, .returned (.error error)⟩) ∧ s'.selected = s.selected ∧
          s'.moved = s.moved ∨
          s'.selected = s.selected ++ ((s.waitingOn source).take wakeCount).map (c, ·) ∧
            s'.moved = s.moved ++ (((s.waitingOn source).drop wakeCount).take requeueCount).map (c, ·)
      | _, _ => s'.selected = s.selected ∧ s'.moved = s.moved
  | _ => s'.selected = s.selected ∧ s'.moved = s.moved

theorem lockedWake_selects (h : Table s) {call : WakeCall} (hc : s.wakes c = some call) (hpc : call.pc = .locked)
    (exchanged : Option Bool) :
    s.Selects (.wake c exchanged) (s.lockedWake c call exchanged) := by
  intro call' hc'
  cases hc.symm.trans hc'
  obtain ⟨request, pc⟩ := call
  subst hpc
  cases request with simp only [lockedWake]
  | wake =>
    split
    · rename_i hzero
      simp [setWake, hzero]
    · simp only [mark_eq h, setWake, chosen, matchingWaiters, and_self]
  | wakeOp source target uaddr2 sourceCount targetCount operation =>
    cases hs : s.wakeOpLocked c source target uaddr2 sourceCount targetCount operation exchanged with
    | error error =>
      refine ⟨rfl, ?_⟩
      have herror : error = .fault ∨ error = .wouldBlock := by
        unfold wakeOpLocked at hs
        split at hs
        · cases hs
          exact .inl rfl
        split at hs
        · cases hs
          exact .inl rfl
        · cases hs
          exact .inr rfl
        split at hs <;> cases hs
      rcases herror with rfl | rfl
      · exact .inl ⟨update_self _ _ _, rfl⟩
      · exact .inr (.inl ⟨update_self _ _ _, rfl⟩)
    | ok result =>
      obtain ⟨-, hmoved, old, hold, hselected⟩ := wakeOpLocked_spec h hs
      exact ⟨hmoved, .inr (.inr ⟨old, hold, hselected⟩)⟩
  | requeue source target wakeCount requeueCount compare =>
    cases s.compareWord compare with
    | error error => exact .inl ⟨⟨error, update_self _ _ _⟩, rfl, rfl⟩
    | ok =>
      refine .inr ?_
      simp only [requeueQueues_eq h]
      exact ⟨rfl, rfl⟩

theorem checkWake_selects (call : WakeCall) (next : WakePc) :
    (s.checkWake c call next).selected = s.selected ∧ (s.checkWake c call next).moved = s.moved := by
  unfold checkWake
  split
  · split <;> exact ⟨rfl, rfl⟩
  · exact ⟨rfl, rfl⟩

theorem loadWake_selects (call : WakeCall) :
    (s.loadWake c call).selected = s.selected ∧ (s.loadWake c call).moved = s.moved := by
  unfold loadWake
  split
  · split <;> exact ⟨rfl, rfl⟩
  · exact ⟨rfl, rfl⟩

theorem step_selects (h : Table s) (hs : s.step o = some s') : s.Selects o s' := by
  cases step_effect hs with
  | store | startWait | startWake => exact ⟨rfl, rfl⟩
  | wait _ effect | interrupt _ _ _ _ effect =>
    cases effect with
    | goes | cancels => exact ⟨rfl, rfl⟩
    | enqueues pc free word => simp [Selects, enqueue, word, setWait]
  | @wake c exchanged call _ hc hs =>
    by_cases hpc : call.pc = .locked
    · obtain rfl : s.lockedWake c call exchanged = s' := by
        rw [stepWake, hpc] at hs
        exact some.inj hs
      exact lockedWake_selects h hc hpc exchanged
    · intro call' hc'
      cases hc.symm.trans hc'
      obtain ⟨request, pc⟩ := call
      match pc, hs with
      | .check, hs =>
        cases hs
        exact checkWake_selects _ _
      | .load, hs =>
        cases hs
        exact loadWake_selects _
      | .locked, _ => exact absurd rfl hpc
      | .drain [] _, hs | .drain (_ :: _) _, hs =>
        cases hs
        exact ⟨rfl, rfl⟩

/-! ## Where waiters come from -/

/-- The call waits for the word at `uaddr` to lose the value `expected`, with the waiter `w`. -/
def Holds (s : Futexes) (c uaddr : Nat) (expected : UInt32) (w : Nat) : Prop :=
  ∃ call, s.waits c = some call ∧ call.uaddr = uaddr ∧ call.expected = expected ∧ call.pc.waiter = some w

variable {d uaddr : Nat} {expected : UInt32} {w : Nat}

theorem holds_setWait {pc : WaitPc} (hc : s.waits c = some call) (hw : pc.waiter = call.pc.waiter)
    (h : (s.setWait c call pc).Holds d uaddr expected w) :
    s.Holds d uaddr expected w := by
  obtain ⟨call', hd, hu, he, hw'⟩ := h
  obtain ⟨rfl, ⟨⟩⟩ | ⟨-, hd⟩ := update_apply_eq_iff.1 hd
  · exact ⟨call, hc, hu, he, hw ▸ hw'⟩
  · exact ⟨call', hd, hu, he, hw'⟩

theorem waitEffect_holds (hc : s.waits c = some call) (h : WaitEffect s c call fresh s')
    (hword : s.memory uaddr ≠ some expected)
    (hh : s'.Holds d uaddr expected w) : s.Holds d uaddr expected w := by
  cases h with
  | goes pc waiter => exact holds_setWait hc waiter hh
  | enqueues pc free word =>
    -- the word of this call has the expected value, so it is another call's
    obtain ⟨call', hd, rfl, rfl, hw⟩ := hh
    simp only [enqueue, word, setWait] at hd
    obtain ⟨rfl, ⟨⟩⟩ | ⟨-, hd⟩ := update_apply_eq_iff.1 hd
    · exact absurd word hword
    · exact ⟨call', hd, rfl, rfl, hw⟩
  | cancels v error x generation pc =>
    have hwaiter : (WaitPc.returned (.error error) (some v)).waiter = call.pc.waiter := by
      rw [pc]
      rfl
    exact holds_setWait hc hwaiter hh

/-- While the word does not have the expected value, no call gets a waiter for it. -/
theorem step_holds (h : Table s) (hs : s.step o = some s')
    (hword : s.memory uaddr ≠ some expected) (hh : s'.Holds d uaddr expected w) : s.Holds d uaddr expected w := by
  cases step_effect hs with
  | store | startWake => exact hh
  | startWait =>
    obtain ⟨call', hd, hu, he, hw⟩ := hh
    obtain ⟨rfl, ⟨⟩⟩ | ⟨-, hd⟩ := update_apply_eq_iff.1 hd
    · cases hw
    · exact ⟨call', hd, hu, he, hw⟩
  | wait found effect | interrupt _ found _ _ effect => exact waitEffect_holds found effect hword hh
  | wake found stepped =>
    obtain ⟨s1, n, pc, ha, rfl, -⟩ := stepWake_effect h stepped
    obtain ⟨call', hd, rest⟩ := hh
    exact ⟨call', ha.waits ▸ hd, rest⟩

/-- A waiter is allocated and enqueued only by a call whose word has the expected value. -/
def Enqueues (s : Futexes) (o : FutexOp) (s' : Futexes) : Prop :=
  ∀ w, s.waiters w = none → s'.waiters w ≠ none →
    ∃ c call, o = .wait c w ∧ s.waits c = some call ∧ s.memory call.uaddr = some call.expected ∧
      s'.queues (s.bucketId call.key) = s.queues (s.bucketId call.key) ++ [w]

theorem waitEffect_enqueues (h : WaitEffect s c call fresh s')
    (hw : s.waiters w = none) (hw' : s'.waiters w ≠ none) :
    w = fresh ∧ s.memory call.uaddr = some call.expected ∧
      s'.queues (s.bucketId call.key) = s.queues (s.bucketId call.key) ++ [w] := by
  cases h with
  | goes => exact absurd hw hw'
  | enqueues pc free word =>
    simp only [enqueue, word, if_true] at hw' ⊢
    by_cases hwf : w = fresh
    · subst hwf
      exact ⟨rfl, trivial, update_self _ _ _⟩
    · rw [update_of_ne hwf] at hw'
      exact absurd hw hw'
  | cancels v error x generation pc found =>
    have hne : w ≠ v := by
      rintro rfl
      cases hw.symm.trans found
    exact absurd ((update_of_ne hne _ _).trans hw) hw'

theorem step_enqueues (h : Inv s) (hs : s.step o = some s') : s.Enqueues o s' := by
  intro w hw hw'
  cases step_effect hs with
  | store | startWait | startWake => exact absurd hw hw'
  | wait found effect =>
    obtain ⟨rfl, hword, hqueue⟩ := waitEffect_enqueues effect hw hw'
    exact ⟨_, _, rfl, found, hword, hqueue⟩
  | interrupt _ _ _ same => exact absurd (same ▸ hw) hw'
  | wake found stepped =>
    obtain ⟨s1, n, pc, ha, rfl, -⟩ := stepWake_effect h.table stepped
    exact absurd (ha.free w hw) hw'

/-! ## Runs -/

/-- What holds in every state. -/
structure Accounted (s : Futexes) : Prop where
  /-- A queued waiter is in one queue, once: the one its route names and its key hashes to. -/
  placed : ∀ w x, s.waiters w = some x → x.isQueued = true →
    (∀ b, (s.queues b).count w = if b = x.route.bucket then 1 else 0) ∧ x.route.bucket = s.bucketId x.route.key
  /-- The queue of a key has all waiters that match, each once. -/
  complete : ∀ key mask, (s.matchingWaiters key mask).Nodup ∧
    ∀ w, w ∈ s.matchingWaiters key mask ↔ s.waiters.holds (fun x => x.matchesWake key mask) w = true
  waiting : ∀ key, (s.waitingOn key).Nodup ∧ ∀ w, w ∈ s.waitingOn key ↔
    s.waiters.holds (fun x => x.waitsOn key) w = true
  /-- A wake returns the number of waiters it selected, a requeue also those it moved. -/
  returns : ∀ c request n, s.wakes c = some ⟨request, .returned (.ok n)⟩ → n = s.handled c
  answered : ∀ c call, s.waits c = some call → s.Answered call

theorem Inv.accounted (h : Inv s) : Accounted s := by
  refine ⟨fun w x hx hq => ⟨fun b => ?_, h.table.hashed w x hx⟩,
    fun key mask => ⟨(h.table.nodup _).filter _, fun w => ?_⟩,
    fun key => ⟨(h.table.nodup _).filter _, fun w => ?_⟩, fun c request n hc => ?_, fun c call hc => h.answered hc⟩
  · have hplaced := h.table.placed w x hx (isQueued_iff.1 hq) b
    split
    · exact count_eq_one_of_mem (h.table.nodup b) (hplaced.2 ‹_›)
    · exact count_eq_zero_of_not_mem fun hm => absurd (hplaced.1 hm) ‹_›
  · refine mem_filter.trans ⟨fun hm => hm.2, fun hm => ⟨mem_queue_of_waitsOn h.table ?_, hm⟩⟩
    obtain ⟨x, hx, hp⟩ := Waiters.holds_eq_true.1 hm
    exact Waiters.holds_eq_true.2 ⟨x, hx, (of_decide_eq_true hp).1⟩
  · exact mem_filter.trans ⟨fun hm => hm.2, fun hm => ⟨mem_queue_of_waitsOn h.table hm, hm⟩⟩
  · rw [h.returns c, hc]
    rfl

/-- In every run without a wake between the two loads of `cancel`, the accounting holds, each
step selects and enqueues as it should, and calls get no waiter while the word differs; the
condition is exactly what keeps the answers right. -/
theorem run_accounting (hashSeed : UInt64) (s : Futexes)
    (hrun : Run step (fun s o => s.cancelsWhole o = true) (start hashSeed) s) :
    s.Accounted ∧
      (∀ o s', s.step o = some s' → s.Selects o s' ∧ s.Enqueues o s' ∧
        ((∀ c call, s'.waits c = some call → s'.Answered call) ↔ s.cancelsWhole o = true)) ∧
      ∀ uaddr expected t, Run step (fun t o => t.cancelsWhole o = true ∧ t.memory uaddr ≠ some expected) s t →
        ∀ c w, t.Holds c uaddr expected w → s.Holds c uaddr expected w := by
  have hinv : ∀ {s₀ s}, Inv s₀ → Run step (fun s o => s.cancelsWhole o = true) s₀ s → Inv s := fun h0 hrun =>
    hrun.inv Inv h0 fun _ _ _ h hok hs => h.step hok hs
  have h : Inv s := hinv (start_inv hashSeed) hrun
  refine ⟨h.accounted, fun o s' hs => ⟨step_selects h.table hs, step_enqueues h hs, h.answered_iff hs⟩, ?_⟩
  intro uaddr expected t hrun' c w
  refine (hrun'.inv (fun t => Inv t ∧ (t.Holds c uaddr expected w → s.Holds c uaddr expected w)) ⟨h, id⟩ ?_).2
  rintro t o t' ⟨ht, hback⟩ ⟨hok, hword⟩ hs
  exact ⟨ht.step hok hs, fun hh => hback (step_holds ht.table hs hword hh)⟩

/-- A futex of an address space, for the samples. -/
def sampleKey : FutexKey := .private 1 0x1000

/-- One waiter is woken, another one times out. -/
def sampleRun : List FutexOp :=
  [.store 0x1000 (some 7), .startWait 0 sampleKey 0x1000 7 1, .wait 0 0, .wait 0 0, .wait 0 0,
    .startWait 1 sampleKey 0x1000 7 1, .wait 1 1, .wait 1 1, .wait 1 1,
    .startWake 0 (.wake sampleKey 1 1), .wake 0 none, .wake 0 none, .wake 0 none, .wait 0 0,
    .interrupt 1 .timedOut, .wait 1 1, .wait 1 1, .wait 1 1, .wait 1 1]

theorem run_accounting_sample :
    ∃ s : Futexes, s.Accounted ∧ (s.waits 0).map (·.pc) = some (.returned (.ok true) (some 0)) ∧
      (s.waits 1).map (·.pc) = some (.returned (.error .timedOut) (some 1)) ∧ s.selected = [(0, 0)] := by
  exact (Run.exists_of_exec sampleRun (by decide +kernel)).imp fun s h => ⟨(run_accounting 5 s h.1).1, h.2⟩

/-- The wait has timed out and `cancel` finds the waiter not woken; then a wake selects it; then
`cancel` finds it not queued. The wake returns 1, and the wait returns the timeout. -/
theorem cancel_loses_wake :
    ∃ s, Run step (fun _ _ => True) (start 5) s ∧
      (s.waits 0).map (·.pc) = some (.returned (.error .timedOut) (some 0)) ∧
      (s.wakes 0).map (·.pc) = some (.returned (.ok 1)) ∧ s.selections 0 = 1 := by
  exact Run.exists_of_exec [.store 0x1000 (some 7), .startWait 0 sampleKey 0x1000 7 1, .wait 0 0, .wait 0 0, .wait 0 0,
    .interrupt 0 .timedOut, .wait 0 0, .startWake 0 (.wake sampleKey 1 1), .wake 0 none, .wake 0 none, .wake 0 none,
    .wait 0 0] (by decide +kernel)

end Futexes

end XKernel.Futex
