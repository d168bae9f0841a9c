import XKernel.Timer.Invariant
/-!
# Runs of the timer set

Every step keeps the invariant, so that the placement of timers and the fate of settings hold in
every run. Then what single steps owe: a start records its setting, a round of a dispatch leaves
nothing due, and a timer that `cancel_sync` stopped stays stopped until it is started.
-/

namespace XKernel.Timer

open XKernel.Lib Function List Option TimerSet CpuTimers

namespace TimerSet

variable {s s' : TimerSet} {n cpu : Nat} {deadline : UInt64}

/-! ## Steps -/

def TimerRequest.isStart : TimerRequest → Bool
  | .startOn _ _ | .startOnIfFuture _ _ => true
  | .tryCancel | .cancelSync => false

/-- A call does what its request asks for; a migration is between two CPUs. -/
def CallOk (cpuCount : Nat) (call : TimerCall) : Prop :=
  match call.pc with
  | .route work | .lock work _ => call.request.first cpuCount = .route work
  | .pair selectedCpu deadline ifFuture owner =>
    call.request.first cpuCount = .route (.arm selectedCpu deadline ifFuture) ∧ selectedCpu ≠ owner
  | .returned _ => True

structure Inv (s : TimerSet) : Prop where
  core : Core s
  calls : ∀ c call, s.calls c = some call → CallOk s.cpuCount call

theorem startPc_cases (cpuCount cpu deadline : Nat) (ifFuture : Bool) :
    (∃ result, startPc cpuCount cpu deadline ifFuture = .returned result) ∨
      cpu < cpuCount ∧ ∃ d, startPc cpuCount cpu deadline ifFuture = .route (.arm cpu d ifFuture) := by
  unfold startPc
  split
  · exact .inl ⟨_, rfl⟩
  · split
    · exact .inl ⟨_, rfl⟩
    · rename_i d _ hlt
      exact .inr ⟨not_le.1 hlt, d, rfl⟩

/-- A request starts with the check of its arguments or before the read of the route. -/
theorem first_cases (cpuCount : Nat) (request : TimerRequest) :
    (∃ result, request.first cpuCount = .returned result) ∨ ∃ work, request.first cpuCount = .route work := by
  cases request with
  | startOn cpu deadline =>
    rcases startPc_cases cpuCount cpu deadline false with h | ⟨-, d, h⟩
    · exact .inl h
    · exact .inr ⟨_, h⟩
  | startOnIfFuture cpu deadline =>
    rcases startPc_cases cpuCount cpu deadline true with h | ⟨-, d, h⟩
    · exact .inl h
    · exact .inr ⟨_, h⟩
  | tryCancel | cancelSync => exact .inr ⟨_, rfl⟩

variable {ifFuture : Bool} {selectedCpu : Nat}

/-- Only a start arms, on a CPU of the set. -/
theorem first_arm {cpuCount : Nat} {request : TimerRequest}
    (h : request.first cpuCount = .route (.arm selectedCpu deadline ifFuture)) :
    TimerRequest.isStart request = true ∧ selectedCpu < cpuCount := by
  have hstart : ∀ cpu instant f, startPc cpuCount cpu instant f = .route (.arm selectedCpu deadline ifFuture) →
      selectedCpu < cpuCount := by
    intro cpu instant f hf
    rcases startPc_cases cpuCount cpu instant f with ⟨result, he⟩ | ⟨hlt, d, he⟩
    · cases he.symm.trans hf
    · cases he.symm.trans hf
      exact hlt
  cases request with
  | startOn cpu instant => exact ⟨rfl, hstart cpu instant false h⟩
  | startOnIfFuture cpu instant => exact ⟨rfl, hstart cpu instant true h⟩
  | tryCancel => cases h
  | cancelSync => cases h

variable {c : Nat} {call : TimerCall}

/-- A call got on, with no other call touched. -/
theorem Inv.setCall {t : TimerSet} {pc : CallPc} (h : Inv s) (ht : Core t)
    (hcount : t.cpuCount = s.cpuCount) (hcalls : t.calls = s.calls) (hpc : CallOk s.cpuCount { call with pc }) :
    Inv (t.setCall c call pc) := by
  refine ⟨ht.setCall c call pc, fun d call' hd => ?_⟩
  have hd' : update s.calls c (some { call with pc }) d = some call' := hcalls ▸ hd
  have hgoal : CallOk s.cpuCount call' := by
    obtain ⟨-, ⟨⟩⟩ | ⟨-, hd'⟩ := update_apply_eq_iff.1 hd'
    · exact hpc
    · exact h.calls d call' hd'
  exact hcount ▸ hgoal

theorem tryCancelAt_frame (s : TimerSet) (cpu n : Nat) :
    (s.tryCancelAt cpu n).1.cpuCount = s.cpuCount ∧ (s.tryCancelAt cpu n).1.calls = s.calls := by
  rcases Core.tryCancelAt_cases s cpu n with ⟨-, he⟩ | ⟨-, -, he⟩ | ⟨-, -, he⟩ <;> rw [he] <;> exact ⟨rfl, rfl⟩

/-- What a step of a call does to the timer, and where the call is after it. -/
inductive CallStep (s : TimerSet) (c : Nat) (call : TimerCall) : TimerSet → Prop
  | moves (pc : CallPc) (hok : CallOk s.cpuCount { call with pc })
      (hpc : ∀ result, pc = .returned result → result = .started (.ok none)) : CallStep s c call (s.setCall c call pc)
  | arms {selectedCpu owner : Nat} {deadline : UInt64} {ifFuture : Bool} (added : Bool)
      (hfirst : call.request.first s.cpuCount = .route (.arm selectedCpu deadline ifFuture))
      (hroute : (s.nodes call.timer).ownerCpu = owner) :
      CallStep s c call ((s.armAt owner call.timer deadline).1.setCall c call
        (.returned (.started (.ok (some (owner, added))))))
  | migrates {selectedCpu owner : Nat} {deadline : UInt64} {ifFuture : Bool} (added : Bool)
      (hfirst : call.request.first s.cpuCount = .route (.arm selectedCpu deadline ifFuture))
      (hroute : (s.nodes call.timer).ownerCpu = owner) (hne : selectedCpu ≠ owner)
      (hidle : (s.cpus owner).running ≠ some call.timer) :
      CallStep s c call ((s.migrate owner selectedCpu call.timer deadline).1.setCall c call
        (.returned (.started (.ok (some (selectedCpu, added))))))
  | cancels {owner : Nat} (pc : CallPc) (hok : CallOk s.cpuCount { call with pc })
      (hroute : (s.nodes call.timer).ownerCpu = owner) (hpc : ∀ result, pc ≠ .returned (.started result))
      (hstopped : ∀ removed, pc = .returned (.stopped removed) → (s.tryCancelAt owner call.timer).2 ≠ .running) :
      CallStep s c call ((s.tryCancelAt owner call.timer).1.setCall c call pc)

theorem lockedCall_step {c owner : Nat} {work : Work} (hok : call.request.first s.cpuCount = .route work)
    (hroute : (s.nodes call.timer).ownerCpu = owner) (now : UInt64) :
    CallStep s c call (s.lockedCall c call work owner now) := by
  cases work with
  | arm =>
    simp only [lockedCall]
    split
    · split
      · exact .moves _ trivial (by rintro _ ⟨⟩; rfl)
      · exact .arms _ hok hroute
    · rename_i hother
      exact .moves _ ⟨hok, fun he => hother (.inl he.symm)⟩ nofun
  | tryCancel => exact .cancels _ trivial hroute nofun nofun
  | cancelSync =>
    simp only [lockedCall]
    split
    · exact .cancels _ trivial hroute nofun fun _ _ => by simp [*]
    · exact .cancels _ trivial hroute nofun fun _ _ => by simp [*]
    · exact .cancels _ hok hroute nofun nofun

theorem pairedCall_step {c owner : Nat}
    (hok : call.request.first s.cpuCount = .route (.arm selectedCpu deadline ifFuture)) (hne : selectedCpu ≠ owner)
    (hroute : (s.nodes call.timer).ownerCpu = owner) (now : UInt64) :
    CallStep s c call (s.pairedCall c call selectedCpu deadline ifFuture owner now) := by
  unfold pairedCall
  split
  · exact .moves _ trivial (by rintro _ ⟨⟩; rfl)
  · split
    · exact .arms _ hok hroute
    · rename_i hidle
      exact .migrates _ hok hroute hne fun he => hidle (by simp [isRunning, he])

variable {now : UInt64}

theorem stepCall_step (hok : CallOk s.cpuCount call)
    (hs : s.stepCall c call now = some s') : CallStep s c call s' := by
  unfold stepCall at hs
  split at hs
  · rename_i work hpc
    cases hs
    simp only [CallOk, hpc] at hok
    exact .moves _ hok nofun
  · rename_i work owner hpc
    simp only [CallOk, hpc] at hok
    split at hs <;> cases hs
    · exact lockedCall_step hok ‹_› now
    · exact .moves _ hok nofun
  · rename_i selectedCpu deadline ifFuture owner hpc
    simp only [CallOk, hpc] at hok
    split at hs <;> cases hs
    · exact pairedCall_step hok.1 hok.2 ‹_› now
    · exact .moves _ hok.1 nofun
  · cases hs

theorem Inv.stepCall (h : Inv s) (hs : CallStep s c call s') : Inv s' := by
  cases hs with
  | moves pc hok => exact h.setCall h.core rfl rfl hok
  | arms added hfirst hroute => exact h.setCall (h.core.armAt hroute _) rfl rfl trivial
  | migrates added hfirst hroute hne hidle =>
    exact h.setCall (h.core.migrate hroute hidle hne (first_arm hfirst).2 _) rfl rfl trivial
  | cancels pc hok hroute =>
    exact h.setCall (h.core.tryCancelAt hroute) (tryCancelAt_frame s _ _).1 (tryCancelAt_frame s _ _).2 hok

/-- The state after `can_dispatch` in a dispatch that runs no callback. -/
theorem Core.canDispatch (h : Core s) (cpu : Nat) (now : UInt64) :
    Core (s.setCpu cpu ((s.cpus cpu).canDispatch s.nodes now).2) :=
  h.setCpu (canDispatch_pending now).1 (canDispatch_pending now).2

theorem running_canDispatch (cpu : Nat) (now : UInt64) :
    ((s.setCpu cpu ((s.cpus cpu).canDispatch s.nodes now).2).cpus cpu).running = (s.cpus cpu).running :=
  Core.field_setCpu CpuTimers.running (canDispatch_pending now).2 cpu

/-- What a step of a dispatch does. -/
inductive DispatchStep (s : TimerSet) (cpu : Nat) (now : UInt64) : TimerSet → Prop
  | rests (hpc : DispatchPc.readingNs (s.dispatchers cpu) = none) : DispatchStep s cpu now s
  | reads {pc : DispatchPc} (hcurrent : (s.dispatchers cpu).current = none) (hnext : pc.current = none)
      (hpc : DispatchPc.readingNs pc = some now) (hnot : ∀ service, pc ≠ .reading service) :
      DispatchStep s cpu now ((s.observe cpu now).setDispatch cpu pc)
  | refuses {t : UInt64} (anyDue : Bool) (hcurrent : (s.dispatchers cpu).current = none)
      (hpc : DispatchPc.readingNs (s.dispatchers cpu) = some t)
      (hdue : ((s.cpus cpu).canDispatch s.nodes t).1 = false) :
      DispatchStep s cpu now ((s.setCpu cpu ((s.cpus cpu).canDispatch s.nodes t).2).setDispatch cpu (.returned anyDue))
  | defers {service : Service} (hpc : s.dispatchers cpu = .relock service) {timers : CpuTimers}
      (hpending : timers.pending = (s.cpus cpu).pending) (hrunning : timers.running = (s.cpus cpu).running)
      (hafter : timers.dispatchAfterNs = some (saturatingAdd service.roundNs (dispatchDelay service))) :
      DispatchStep s cpu now ((s.setCpu cpu timers).setDispatch cpu (.returned service.anyDue))
  | takes (service : Service) (hcurrent : (s.dispatchers cpu).current = none)
      (hpc : DispatchPc.readingNs (s.dispatchers cpu) = some service.roundNs) :
      DispatchStep s cpu now ((s.setCpu cpu ((s.cpus cpu).canDispatch s.nodes service.roundNs).2).take cpu service)
  | returns {timer : Nat} {expiration : UInt64} {service : Service}
      (hpc : s.dispatchers cpu = .callback timer expiration service) : DispatchStep s cpu now
        (((s.setCpu cpu { s.cpus cpu with running := none }).setDispatch cpu (.reading service)).take cpu service)

theorem stepDispatch_step (hs : s.stepDispatch cpu now = some s') : DispatchStep s cpu now s' := by
  have hstart : ∀ pc, s.dispatchers cpu = pc → DispatchPc.readingNs pc = none → pc.current = none →
      (if cpu ≥ s.cpuCount then some s else some ((s.observe cpu now).setDispatch cpu (.entered now))) = some s' →
      DispatchStep s cpu now s' := by
    rintro pc rfl hread hcurrent hs
    split at hs <;> cases hs
    · exact .rests hread
    · exact .reads hcurrent rfl rfl nofun
  unfold stepDispatch at hs
  split at hs
  · exact hstart _ ‹_› rfl rfl hs
  · exact hstart _ ‹_› rfl rfl hs
  · rename_i entryNs hpc
    dsimp only at hs
    split at hs <;> cases hs
    · exact .refuses false (by rw [hpc]; rfl) (by rw [hpc]; rfl) (Bool.not_eq_true _ ▸ ‹_›)
    · exact .takes ⟨entryNs, entryNs, 0, false⟩ (by rw [hpc]; rfl) (by rw [hpc]; rfl)
  · rename_i timer expiration service hpc
    obtain ⟨timers, hclear, hs⟩ := bind_eq_some_iff.1 hs
    unfold clearRunning at hclear
    split at hclear <;> cases hclear
    cases hs
    rw [← take_setDispatch _ cpu (.reading service)]
    exact .returns hpc
  · rename_i service hpc
    cases hs
    exact .reads (by rw [hpc]; rfl) rfl rfl nofun
  · rename_i service hpc
    dsimp only at hs
    split at hs
    · cases hs
      exact .refuses _ (by rw [hpc]; rfl) (by rw [hpc]; rfl) (Bool.not_eq_true _ ▸ ‹_›)
    · split at hs <;> cases hs
      · have hset : ∀ timers timers' : CpuTimers, (s.setCpu cpu timers).setCpu cpu timers' = s.setCpu cpu timers' :=
          fun _ _ => by simp [setCpu]
        rw [hset]
        exact .defers hpc (canDispatch_pending _).1 (canDispatch_pending _).2 rfl
      · exact .takes { service with round := service.round + 1 } (by rw [hpc]; rfl) (by rw [hpc]; rfl)

theorem DispatchStep.frame (hs : DispatchStep s cpu now s') : s'.cpuCount = s.cpuCount ∧ s'.calls = s.calls := by
  cases hs with
  | rests | reads | refuses | defers => exact ⟨rfl, rfl⟩
  | takes | returns =>
    unfold take
    split <;> exact ⟨rfl, rfl⟩

theorem Core.stepDispatch (h : Core s) (hs : DispatchStep s cpu now s') : Core s' := by
  have hrunning := h.running cpu
  cases hs with
  | rests => exact h
  | reads hcurrent hnext hpc =>
    refine (h.observe cpu now).setDispatch (hrunning.trans (hcurrent.trans hnext.symm)) fun t ht => ?_
    cases hpc.symm.trans ht
    simp [TimerSet.observe]
  | refuses anyDue hcurrent =>
    exact (h.canDispatch cpu _).setDispatch ((running_canDispatch cpu _).trans (hrunning.trans hcurrent)) nofun
  | defers hpc hpending hrun =>
    refine (h.setCpu hpending hrun).setDispatch ((Core.field_setCpu CpuTimers.running hrun cpu).trans ?_) nofun
    rw [hrunning, hpc]
    rfl
  | takes service hcurrent hpc =>
    exact (h.canDispatch cpu _).take ((running_canDispatch cpu _).trans (hrunning.trans hcurrent)) (h.served cpu _ hpc)
  | returns hpc =>
    have hreading := h.served cpu _ (by rw [hpc]; rfl)
    exact (h.cleared hreading).take (by simp [TimerSet.setDispatch, TimerSet.setCpu]) hreading

variable {o : TimerOp}

theorem Inv.step (h : Inv s) (hs : s.step o = some s') : Inv s' := by
  cases o with
  | call c timer request =>
    simp only [step] at hs
    split at hs <;> cases hs
    have hcall : Inv (s.setCall c ⟨timer, request, .route .tryCancel⟩ (request.first s.cpuCount)) := by
      refine h.setCall h.core rfl rfl ?_
      rcases first_cases s.cpuCount request with ⟨result, h⟩ | ⟨work, h⟩ <;> simp [CallOk, h]
    exact hcall
  | step c =>
    obtain ⟨call, hc, hs⟩ := bind_eq_some_iff.1 hs
    exact h.stepCall (stepCall_step (h.calls c call hc) hs)
  | dispatch =>
    have hstep := stepDispatch_step hs
    have hframe := hstep.frame
    exact ⟨h.core.stepDispatch hstep, fun c call hc => hframe.1 ▸ h.calls c call (hframe.2 ▸ hc)⟩
  | rearm cpu =>
    simp only [step, rearm] at hs
    split at hs
    · rename_i timer expiration service hpc
      split at hs <;> cases hs
      · exact h
      · have hroute : (s.nodes timer).ownerCpu = cpu :=
          h.core.owner cpu timer ((h.core.running cpu).trans (by rw [hpc]; rfl))
        exact ⟨h.core.armAt hroute _, h.calls⟩
    · cases hs

/-! ## A cancelled timer -/

/-- Neither pending nor running. -/
structure Stopped (s : TimerSet) (n : Nat) : Prop where
  idle : (s.nodes n).link = false
  notRunning : ∀ cpu, (s.cpus cpu).running ≠ some n

variable {m : Nat}

section

variable (h : Stopped s n)
include h

theorem Stopped.congr (hnode : s'.nodes n = s.nodes n)
    (hrunning : ∀ cpu, (s'.cpus cpu).running = some n → (s.cpus cpu).running = some n) : Stopped s' n :=
  ⟨by rw [hnode]; exact h.idle, fun cpu hr => h.notRunning cpu (hrunning cpu hr)⟩

theorem Stopped.setCpu {timers : CpuTimers} (hrunning : timers.running = (s.cpus cpu).running) :
    Stopped (s.setCpu cpu timers) n :=
  h.congr rfl fun cpu' hr => Core.field_setCpu CpuTimers.running hrunning cpu' ▸ hr

theorem Stopped.armAt (hm : n ≠ m) (cpu : Nat) (deadline : UInt64) : Stopped (s.armAt cpu m deadline).1 n := by
  refine h.congr ?_ fun cpu' hr => Core.field_setCpu CpuTimers.running arm_running cpu' ▸ hr
  exact (congrFun arm_nodes n).trans (update_of_ne hm _ _)

theorem Stopped.tryCancelAt (cpu m : Nat) : Stopped (s.tryCancelAt cpu m).1 n := by
  rcases Core.tryCancelAt_cases s cpu m with ⟨-, he⟩ | ⟨-, -, he⟩ | ⟨-, hlink, he⟩
  · rw [he]
    exact h
  · rw [he]
    exact h
  · have hm : n ≠ m := by
      rintro rfl
      cases h.idle.symm.trans hlink
    rw [he]
    exact h.congr (update_of_ne hm _ _) fun cpu' hr => (Core.field_setCpu CpuTimers.running (by rfl) cpu').symm.trans hr

theorem Stopped.migrate (hm : n ≠ m) {owner : Nat} (hne : selectedCpu ≠ owner) (deadline : UInt64) :
    Stopped (s.migrate owner selectedCpu m deadline).1 n := by
  refine h.congr ?_ fun cpu' hr => Core.migrate_running hne m deadline cpu' ▸ hr
  rw [Core.migrate_nodes, update_of_ne hm]

theorem Stopped.take (hcore : Core s) (hrunning : (s.cpus cpu).running = none) (service : Service) :
    Stopped (s.take cpu service) n := by
  rcases hcore.take_cases hrunning service with ⟨he, -⟩ | ⟨m, hm, -, he⟩
  · rw [he]
    exact h.congr rfl fun _ hr => hr
  · have hmn : n ≠ m := by
      rintro rfl
      cases h.idle.symm.trans (hcore.of_mem_tree hm).1
    rw [he]
    refine h.congr (update_of_ne hmn _ _) fun cpu' hr => ?_
    by_cases hc : cpu' = cpu
    · subst hc
      simp only [setDispatch, record, TimerSet.setCpu, update_self, some.injEq] at hr
      exact absurd hr.symm hmn
    · simpa only [setDispatch, record, TimerSet.setCpu, update_of_ne hc] using hr

/-- The step is one of a start of the timer. -/
def startsTimer (s : TimerSet) (n : Nat) : TimerOp → Bool
  | .step c _ => (s.calls c).any fun call => call.timer = n ∧ TimerRequest.isStart call.request
  | _ => false

theorem Stopped.setCall (c : Nat) (call : TimerCall) (pc : CallPc) : Stopped (s.setCall c call pc) n :=
  h.congr rfl fun _ hr => hr

theorem Stopped.stepCall
    (hstart : call.timer = n → TimerRequest.isStart call.request = false) (hs : CallStep s c call s') :
    Stopped s' n := by
  have hother : TimerRequest.isStart call.request = true → n ≠ call.timer := by
    rintro htrue rfl
    cases (hstart rfl).symm.trans htrue
  cases hs with
  | moves => exact h.setCall _ _ _
  | arms added hfirst => exact (h.armAt (hother (first_arm hfirst).1) _ _).setCall _ _ _
  | migrates added hfirst hroute hne => exact (h.migrate (hother (first_arm hfirst).1) hne _).setCall _ _ _
  | cancels => exact (h.tryCancelAt _ _).setCall _ _ _

theorem Stopped.stepDispatch (hcore : Core s) (hs : DispatchStep s cpu now s') : Stopped s' n := by
  have hchecked : ∀ t : UInt64, Stopped (s.setCpu cpu ((s.cpus cpu).canDispatch s.nodes t).2) n :=
    fun t => h.setCpu (canDispatch_pending t).2
  cases hs with
  | rests => exact h
  | reads => exact h.congr rfl fun _ hr => hr
  | refuses => exact (hchecked _).congr rfl fun _ hr => hr
  | defers hpc hpending hrunning => exact (h.setCpu hrunning).congr rfl fun _ hr => hr
  | takes service hcurrent =>
    exact (hchecked _).take (hcore.canDispatch cpu _)
      ((running_canDispatch cpu _).trans ((hcore.running cpu).trans hcurrent)) _
  | returns hpc =>
    have hreading := hcore.served cpu _ (by rw [hpc]; rfl)
    refine Stopped.take ?_ (hcore.cleared hreading) (by simp [TimerSet.setDispatch, TimerSet.setCpu]) _
    refine h.congr rfl ((forall_update_iff s.cpus fun cpu' timers => timers.running = some n → _).2 ⟨by rintro ⟨⟩, ?_⟩)
    exact fun cpu' _ hr => hr

/-- Only a start makes a stopped timer pending or running again. -/
theorem Stopped.step (hinv : Inv s) (hstart : s.startsTimer n o = false)
    (hs : s.step o = some s') : Stopped s' n := by
  cases o with
  | call =>
    simp only [step] at hs
    split at hs <;> cases hs
    exact h.congr rfl fun _ hr => hr
  | step c =>
    obtain ⟨call, hc, hs⟩ := bind_eq_some_iff.1 hs
    refine h.stepCall (fun ht => ?_) (stepCall_step (hinv.calls c call hc) hs)
    simpa [startsTimer, hc, ht] using hstart
  | dispatch => exact h.stepDispatch hinv.core (stepDispatch_step hs)
  | rearm cpu =>
    simp only [step, rearm] at hs
    split at hs
    · rename_i timer expiration service hpc
      split at hs <;> cases hs
      · exact h
      · have hrunning : (s.cpus cpu).running = some timer := (hinv.core.running cpu).trans (by rw [hpc]; rfl)
        exact h.armAt (fun he => h.notRunning cpu (he ▸ hrunning)) cpu _
    · cases hs

end

theorem Core.stopped (h : Core s) (hidle : (s.nodes n).link = false) (hroute : (s.nodes n).ownerCpu = cpu)
    (hr : (s.cpus cpu).running ≠ some n) : Stopped s n := by
  refine ⟨hidle, fun cpu' hr' => hr ?_⟩
  obtain rfl : cpu' = cpu := (h.owner cpu' n hr').symm.trans hroute
  exact hr'

/-- A cancellation that was not refused leaves the timer stopped. -/
theorem tryCancelAt_stopped (h : Core s) (hroute : (s.nodes n).ownerCpu = cpu)
    (hresult : (s.tryCancelAt cpu n).2 ≠ .running) :
    Stopped (s.tryCancelAt cpu n).1 n := by
  have hcore := h.tryCancelAt hroute
  rcases Core.tryCancelAt_cases s cpu n with ⟨-, he⟩ | ⟨hr, hlink, he⟩ | ⟨hr, -, he⟩
  · exact absurd (congrArg Prod.snd he) hresult
  · rw [he]
    exact h.stopped hlink hroute hr
  · rw [he] at hcore ⊢
    have hidle : (((s.cpus cpu).pending.remove s.nodes n).1 n).link = false := by
      simp [TimerIndex.remove, Nodes.setLink]
    have hroute' : (((s.cpus cpu).pending.remove s.nodes n).1 n).ownerCpu = cpu := by
      simpa [TimerIndex.remove, Nodes.setLink] using hroute
    exact hcore.stopped hidle hroute' (by simpa [record, setCpu] using hr)

theorem calls_setCall (s : TimerSet) (c : Nat) (call : TimerCall) (pc : CallPc) :
    (s.setCall c call pc).calls c = some { call with pc } := update_self _ _ _

/-- When `cancel_sync` returns, the timer is stopped. -/
theorem stepCall_stopped (h : Core s) {call call' : TimerCall} {removed : Bool} (hs : CallStep s c call s')
    (hc : s'.calls c = some call') (hpc : call'.pc = .returned (.stopped removed)) : Stopped s' call'.timer := by
  cases hs with
  | moves pc hok hquiet =>
    cases (calls_setCall s c call pc).symm.trans hc
    cases hquiet _ hpc
  | arms | migrates =>
    cases (calls_setCall _ c call _).symm.trans hc
    cases hpc
  | cancels pc hok hroute hquiet hstopped =>
    cases (calls_setCall _ c call pc).symm.trans hc
    exact (tryCancelAt_stopped h hroute (hstopped removed hpc)).setCall _ _ _

/-! ## Accepted settings -/

/-- A start that returns an owner, and a rearm, each recorded the requested deadline. -/
def Accepts (s : TimerSet) (o : TimerOp) (s' : TimerSet) : Prop :=
  match o with
  | .step c _ => ∀ call cpu added, s'.calls c = some call → call.pc = .returned (.started (.ok (some (cpu, added)))) →
    ∃ selectedCpu deadline ifFuture, call.request.first s.cpuCount = .route (.arm selectedCpu deadline ifFuture) ∧
      s'.history call.timer = .accepted deadline :: s.history call.timer
  | .rearm cpu instant => ∀ deadline, Deadline.new instant = .ok deadline →
    ∃ n, (s.cpus cpu).running = some n ∧ s'.history n = .accepted deadline :: s.history n
  | _ => True

theorem stepCall_accepts (now : UInt64) (hs : CallStep s c call s') : s.Accepts (.step c now) s' := by
  intro call' cpu added hc hpc
  cases hs with
  | moves pc hok hquiet =>
    cases (calls_setCall s c call pc).symm.trans hc
    cases hquiet _ hpc
  | arms added hfirst =>
    cases (calls_setCall _ c call _).symm.trans hc
    exact ⟨_, _, _, hfirst, update_self call.timer _ _⟩
  | migrates added hfirst =>
    cases (calls_setCall _ c call _).symm.trans hc
    exact ⟨_, _, _, hfirst, update_self call.timer _ _⟩
  | cancels pc hok hroute hquiet =>
    cases (calls_setCall _ c call pc).symm.trans hc
    exact absurd hpc (hquiet _)

theorem step_accepts (h : Inv s) (hs : s.step o = some s') : s.Accepts o s' := by
  cases o with
  | call => trivial
  | step c now =>
    obtain ⟨call, hc, hs⟩ := bind_eq_some_iff.1 hs
    exact stepCall_accepts now (stepCall_step (h.calls c call hc) hs)
  | dispatch => trivial
  | rearm cpu =>
    intro deadline hd
    simp only [step, rearm] at hs
    split at hs
    · rename_i timer expiration service hpc
      rw [hd] at hs
      cases hs
      exact ⟨timer, (h.core.running cpu).trans (by rw [hpc]; rfl), update_self timer _ _⟩
    · cases hs

/-! ## Delivery -/

/-- The settings that wait on the CPU are later than `now`. -/
def Drained (s : TimerSet) (cpu : Nat) (now : UInt64) : Prop :=
  ∀ n deadline older, s.history n = .accepted deadline :: older → (s.nodes n).ownerCpu = cpu → now < deadline

theorem Core.drained (h : Core s) (htree : ∀ m ∈ (s.cpus cpu).pending.tree, now < (s.nodes m).deadline) :
    s.Drained cpu now := by
  intro n deadline older hn hroute
  have hsetting : s.setting n = some deadline := by rw [← h.pending, hn, pendingSetting]
  unfold setting at hsetting
  split at hsetting
  · rename_i hlink
    cases hsetting
    exact htree n ((h.indexed.mem cpu n).2 (by simp [place, hlink, hroute]))
  · cases hsetting

/-- Nothing is due, or the CPU is deferred: until a time that was set before, or by at most the
maximal delay. -/
def Rests (s : TimerSet) (cpu : Nat) (now : UInt64) (s' : TimerSet) : Prop :=
  s'.Drained cpu now ∨
    (∃ bound, (s.cpus cpu).dispatchAfterNs = some bound ∧ (s'.cpus cpu).dispatchAfterNs = some bound ∧ now < bound) ∨
    ∃ delay, 1 ≤ delay ∧ delay ≤ maxDispatchBackoffNs ∧ (s'.cpus cpu).dispatchAfterNs = some (saturatingAdd now delay)

/-- A round of a dispatch ends with nothing due at its time, and a dispatch returns at rest. -/
def Serves (s : TimerSet) (o : TimerOp) (s' : TimerSet) : Prop :=
  match o with
  | .dispatch cpu _ => ∀ now, DispatchPc.readingNs (s.dispatchers cpu) = some now →
    (∀ service, s'.dispatchers cpu = .reading service → s'.Drained cpu service.roundNs) ∧
      ∀ anyDue, s'.dispatchers cpu = .returned anyDue → s.Rests cpu now s'
  | _ => True

theorem take_serves (h : Core s) (hrunning : (s.cpus cpu).running = none) (service : Service) :
    (∀ service', (s.take cpu service).dispatchers cpu = .reading service' →
      (s.take cpu service).Drained cpu service'.roundNs) ∧
      ∀ anyDue, (s.take cpu service).dispatchers cpu ≠ .returned anyDue := by
  rcases h.take_cases hrunning service with ⟨he, hlate⟩ | ⟨n, -, -, he⟩
  · rw [he]
    simp only [setDispatch, update_self]
    refine ⟨?_, by simp⟩
    rintro _ ⟨⟩
    exact h.drained hlate
  · rw [he]
    simp [setDispatch]

theorem dispatchDelay_bounds (service : Service) :
    1 ≤ dispatchDelay service ∧ dispatchDelay service ≤ maxDispatchBackoffNs := by
  unfold dispatchDelay clamp
  split
  · exact ⟨UInt64.le_refl 1, by decide⟩
  · rename_i hlow
    split
    · exact ⟨by decide, UInt64.le_refl _⟩
    · rename_i hhigh
      exact ⟨UInt64.not_lt.1 hlow, UInt64.not_lt.1 hhigh⟩

/-- A dispatch that returns because of `can_dispatch`. -/
theorem canDispatch_rests (h : Core s) (hc : ((s.cpus cpu).canDispatch s.nodes now).1 = false) (anyDue : Bool) :
    s.Rests cpu now ((s.setCpu cpu ((s.cpus cpu).canDispatch s.nodes now).2).setDispatch cpu (.returned anyDue)) := by
  rcases canDispatch_eq_false (h.indexed.valid cpu) hc with ⟨bound, hb, hb', hlt⟩ | hlate
  · exact .inr (.inl ⟨bound, hb, (congrArg dispatchAfterNs (update_self _ _ _)).trans hb', hlt⟩)
  · exact .inl (h.drained hlate)

theorem dispatchers_setDispatch (s : TimerSet) (cpu : Nat) (pc : DispatchPc) :
    (s.setDispatch cpu pc).dispatchers cpu = pc :=
  update_self _ _ _

theorem stepDispatch_serves (h : Core s) (hs : DispatchStep s cpu now s') : s.Serves (.dispatch cpu now) s' := by
  intro t ht
  cases hs with
  | rests hpc => cases hpc.symm.trans ht
  | reads hcurrent hnext hpc hnot =>
    rw [dispatchers_setDispatch]
    refine ⟨fun service hd => absurd hd (hnot service), fun anyDue hd => ?_⟩
    rw [hd] at hpc
    cases hpc
  | refuses anyDue hcurrent hpc hdue =>
    cases hpc.symm.trans ht
    rw [dispatchers_setDispatch]
    exact ⟨nofun, fun _ _ => canDispatch_rests h hdue anyDue⟩
  | defers hpc hpending hrunning hafter =>
    rw [hpc] at ht
    cases ht
    rw [dispatchers_setDispatch]
    obtain ⟨hlow, hhigh⟩ := dispatchDelay_bounds _
    exact ⟨nofun, fun _ _ => .inr (.inr ⟨_, hlow, hhigh, by simpa [setDispatch, setCpu] using hafter⟩)⟩
  | takes service hcurrent =>
    exact (take_serves (h.canDispatch cpu _)
      ((running_canDispatch cpu _).trans ((h.running cpu).trans hcurrent)) _).imp_right
      fun hne anyDue hd => absurd hd (hne anyDue)
  | returns hpc =>
    exact (take_serves (h.cleared (h.served cpu _ (by rw [hpc]; rfl))) (by simp [setDispatch, setCpu]) _).imp_right
      fun hne anyDue hd => absurd hd (hne anyDue)

theorem step_serves (h : Core s) (hs : s.step o = some s') : s.Serves o s' := by
  cases o with
  | dispatch => exact stepDispatch_serves h (stepDispatch_step hs)
  | call | step | rearm => trivial

/-! ## Runs -/

/-- What holds in every state. -/
structure Safe (s : TimerSet) : Prop where
  /-- A timer is pending once, on the CPU of its route, or nowhere. -/
  pending : ∀ cpu n, (s.cpus cpu).pending.tree.count n = if (s.nodes n).link ∧ cpu = (s.nodes n).ownerCpu then 1 else 0
  running : ∀ cpu n, (s.cpus cpu).running = some n → cpu = (s.nodes n).ownerCpu
  /-- The cached node is a minimum of the index; there is none only for an empty index. -/
  earliest : ∀ cpu, match (s.cpus cpu).pending.earliest with
    | none => (s.cpus cpu).pending.tree = []
    | some e => e ∈ (s.cpus cpu).pending.tree ∧
      ∀ n ∈ (s.cpus cpu).pending.tree, (s.nodes e).deadline ≤ (s.nodes n).deadline
  /-- A delivery ends one setting, the one before it: it has its deadline, which a clock reading
  of the CPU had reached. -/
  delivered : ∀ n newer expiration cpu observedNs older,
    s.history n = newer ++ .delivered expiration cpu observedNs :: older →
      expiration ≤ observedNs ∧ observedNs ∈ s.observed cpu ∧ ∃ older', older = .accepted expiration :: older'
  /-- A setting is pending, or what came after it is a later setting, a removal or its delivery. -/
  settled : ∀ n newer deadline older, s.history n = newer ++ .accepted deadline :: older →
    (newer = [] ∧ (s.nodes n).link = true ∧ (s.nodes n).deadline = deadline) ∨
      ∃ newer' event, newer = newer' ++ [event] ∧
        ((∃ later, event = .accepted later) ∨ event = .removed ∨
          ∃ cpu observedNs, event = .delivered deadline cpu observedNs)

theorem Core.safe (h : Core s) : Safe s := by
  refine ⟨fun cpu n => ?_, fun cpu n hr => (h.owner cpu n hr).symm, fun cpu => ?_,
    fun n newer expiration cpu observedNs older hh => ?_, fun n newer deadline older hh => ?_⟩
  · have hmem := h.indexed.mem cpu n
    split
    · rename_i hp
      exact count_eq_one_of_mem (h.indexed.valid cpu).nodup (hmem.2 (by simp [place, hp.1, hp.2]))
    · rename_i hp
      refine count_eq_zero_of_not_mem fun hm => hp ?_
      obtain ⟨hlink, hroute⟩ := h.of_mem_tree hm
      exact ⟨hlink, hroute.symm⟩
  · split
    · exact (h.indexed.valid cpu).tree_eq_nil ‹_›
    · exact (h.indexed.valid cpu).earliest_le ‹_›
  · have htold := h.told n
    rw [hh] at htold
    obtain ⟨hsetting, hdue, hobserved, -⟩ := htold.of_append
    exact ⟨hdue, hobserved, pendingSetting_eq_some hsetting⟩
  · rcases eq_nil_or_concat newer with rfl | ⟨newer', event, rfl⟩
    · have hsetting := h.pending n
      rw [hh] at hsetting
      simp only [nil_append, setting] at hsetting
      split at hsetting
      · exact .inl ⟨rfl, ‹_›, (some.inj hsetting).symm⟩
      · cases hsetting
    · refine .inr ⟨newer', event, concat_eq_append, ?_⟩
      have htold := h.told n
      rw [hh, concat_eq_append, append_assoc] at htold
      have htold' : Told s.observed (event :: .accepted deadline :: older) := htold.of_append
      cases event with
      | accepted later => exact .inl ⟨later, rfl⟩
      | removed => exact .inr (.inl rfl)
      | delivered expiration cpu observedNs =>
        obtain rfl : deadline = expiration := some.inj htold'.1
        exact .inr (.inr ⟨cpu, observedNs, rfl⟩)

/-- In every run timers are where they should be and settings are delivered once or replaced or
removed; each step accepts and serves; a timer that `cancel_sync` was called on is neither pending
nor running after the call until it is started. -/
theorem run_timers (cpuCount : Nat) (nodes : Nodes) (hnew : ∀ n, ∃ cpu, TimerNode.newOn cpuCount cpu = .ok (nodes n))
    (s : TimerSet) (hrun : Run step (fun _ _ => True) (new cpuCount nodes) s) :
    s.Safe ∧ ∀ o s', s.step o = some s' → s.Accepts o s' ∧ s.Serves o s' ∧
      ∀ c now call removed, o = .step c now → s'.calls c = some call → call.pc = .returned (.stopped removed) →
        ∀ t, Run step (fun t o => t.startsTimer call.timer o = false) s' t →
          ∀ cpu, call.timer ∉ (t.cpus cpu).pending.tree ∧ (t.cpus cpu).running ≠ some call.timer := by
  have h : Inv s := hrun.inv Inv ⟨new_core hnew, nofun⟩ fun _ _ _ h _ hs => h.step hs
  refine ⟨h.core.safe, fun o s' hs => ⟨step_accepts h hs, step_serves h.core hs, ?_⟩⟩
  rintro c now call removed rfl hc hpc t ht cpu
  obtain ⟨call₀, hc₀, hs₀⟩ := bind_eq_some_iff.1 hs
  have hstart : Inv s' ∧ Stopped s' call.timer :=
    ⟨h.step hs, stepCall_stopped h.core (stepCall_step (h.calls c call₀ hc₀) hs₀) hc hpc⟩
  obtain ⟨hinv, hstopped⟩ := ht.inv (fun t => Inv t ∧ Stopped t call.timer) hstart
    fun _ _ _ ht hok hs => ⟨ht.1.step hs, ht.2.step ht.1 hok hs⟩
  refine ⟨fun hm => ?_, hstopped.notRunning cpu⟩
  cases hstopped.idle.symm.trans (hinv.core.of_mem_tree hm).1

/-- A timer of CPU 0 is started on CPU 1 for time 50 and delivered there at time 60. Its callback
sets it to 90, which `cancel_sync` waits for and removes. -/
def sampleRun : List TimerOp :=
  [.call 0 3 (.startOn 1 50), .step 0 0, .step 0 0, .step 0 0, .dispatch 1 60, .dispatch 1 60, .rearm 1 90,
    .call 1 3 .cancelSync, .step 1 0, .step 1 0, .dispatch 1 60, .step 1 0, .step 1 0]

theorem run_timers_sample :
    ∃ s : TimerSet, s.Safe ∧ s.history 3 = [.removed, .accepted 90, .delivered 50 1 60, .accepted 50] ∧
      (s.calls 1).map (·.pc) = some (.returned (.stopped true)) := by
  exact (Run.exists_of_exec sampleRun (by decide +kernel)).imp fun s h =>
    ⟨(run_timers 2 (fun _ => ⟨false, 0, 0⟩) (fun _ => ⟨0, rfl⟩) s h.1).1, h.2⟩

end TimerSet

end XKernel.Timer
