import XKernel.Timer.Set
/-!
# The invariant of the timer set

The indexes of all CPUs together give each timer a place: the CPU it is pending on. An arming and
a removal each change one place. With the route and the history of each timer this is the
invariant, and every critical section is one or two of these changes.
-/

namespace XKernel.Timer

open XKernel.Lib Function List Option TimerSet CpuTimers

/-! ## Places -/

/-- The indexes hold the timers at their places. -/
structure Indexed (nodes : Nodes) (cpus : Nat → CpuTimers) (place : Nat → Option Nat) : Prop where
  valid : ∀ cpu, (cpus cpu).pending.Valid nodes
  mem : ∀ cpu n, n ∈ (cpus cpu).pending.tree ↔ place n = some cpu
  link : ∀ n, (nodes n).link = (place n).isSome

namespace Indexed

variable {nodes nodes' : Nodes} {cpus cpus' : Nat → CpuTimers} {place : Nat → Option Nat} {n cpu : Nat}

/-- Nothing else of the nodes and of the CPUs counts. -/
theorem congr (h : Indexed nodes cpus place) (hpending : ∀ cpu, (cpus' cpu).pending = (cpus cpu).pending)
    (hlink : ∀ n, (nodes' n).link = (nodes n).link) (hkey : ∀ n, nodes'.key n = nodes.key n) :
    Indexed nodes' cpus' place :=
  ⟨fun cpu => by rw [hpending cpu]; exact (h.valid cpu).congr fun m _ => hkey m,
    fun cpu n => by rw [hpending cpu]; exact h.mem cpu n, fun n => (hlink n).trans (h.link n)⟩

variable {timers : CpuTimers}

theorem arm (h : Indexed nodes cpus place) (hplace : place n = none ∨ place n = some cpu)
    (htimers : cpus cpu = timers) (deadline : UInt64) :
    Indexed (timers.arm nodes n deadline).1 (update cpus cpu (timers.arm nodes n deadline).2.1)
      (update place n (some cpu)) := by
  subst htimers
  have hout : ∀ cpu', cpu' ≠ cpu → n ∉ (cpus cpu').pending.tree := by
    intro cpu' hne hm
    rw [h.mem] at hm
    rcases hplace with hp | hp <;> rw [hp] at hm <;> cases hm
    exact hne rfl
  refine ⟨(forall_update_iff cpus fun _ timers => timers.pending.Valid _).2 ⟨?_, fun cpu' hc => ?_⟩,
    (forall_update_iff cpus fun cpu' timers => ∀ m, m ∈ timers.pending.tree ↔ update place n (some cpu) m = some cpu').2
      ⟨fun m => ?_, fun cpu' hc m => ?_⟩, fun m => ?_⟩
  · refine arm_valid (h.valid cpu) ?_
    rw [h.link, h.mem]
    rcases hplace with hp | hp <;> simp [hp]
  · rw [arm_nodes]
    exact (h.valid cpu').congr fun m hm => key_update_of_ne (ne_of_mem_of_not_mem hm (hout cpu' hc))
  · rw [mem_arm (h.valid cpu), h.mem]
    by_cases hm : m = n <;> simp [hm]
  · by_cases hm : m = n
    · simp [hm, hout cpu' hc, Ne.symm hc]
    · rw [update_of_ne hm, h.mem]
  · rw [arm_nodes]
    by_cases hm : m = n <;> simp [hm, h.link]

theorem remove (h : Indexed nodes cpus place)
    (htimers : timers.pending = ((cpus cpu).pending.remove nodes n).2) (hplace : place n = some cpu) :
    Indexed ((cpus cpu).pending.remove nodes n).1 (update cpus cpu timers) (update place n none) := by
  refine ⟨(forall_update_iff cpus fun _ timers => timers.pending.Valid _).2 ⟨?_, fun cpu' _ => ?_⟩,
    (forall_update_iff cpus fun cpu' timers => ∀ m, m ∈ timers.pending.tree ↔ update place n none m = some cpu').2
      ⟨fun m => ?_, fun cpu' hc m => ?_⟩, fun m => ?_⟩
  · rw [htimers]
    exact (h.valid cpu).remove n
  · exact (h.valid cpu').congr fun m _ => TimerIndex.key_setLink nodes n false m
  · rw [htimers, (h.valid cpu).mem_remove, h.mem]
    by_cases hm : m = n <;> simp [hm]
  · rw [h.mem]
    by_cases hm : m = n
    · simp [hm, hplace, Ne.symm hc]
    · rw [update_of_ne hm]
  · by_cases hm : m = n <;> simp [hm, TimerIndex.remove, Nodes.setLink, h.link]

end Indexed

/-! ## Histories -/

/-- The setting that is pending after these events. -/
def pendingSetting : List TimerEvent → Option UInt64
  | .accepted deadline :: _ => some deadline
  | _ => none

/-- A removal and a delivery each end the setting before them, and a delivery has the deadline of
that setting, which the CPU's clock had reached. -/
def Told (observed : Nat → List UInt64) : List TimerEvent → Prop
  | [] => True
  | .accepted _ :: older => Told observed older
  | .removed :: older => pendingSetting older ≠ none ∧ Told observed older
  | .delivered expiration cpu observedNs :: older =>
    pendingSetting older = some expiration ∧ expiration ≤ observedNs ∧ observedNs ∈ observed cpu ∧ Told observed older

variable {events : List TimerEvent}

theorem Told.mono {observed observed' : Nat → List UInt64} (hsub : ∀ cpu, observed cpu ⊆ observed' cpu)
    (h : Told observed events) : Told observed' events := by
  induction events with
  | nil => trivial
  | cons event older ih =>
    cases event with
    | accepted => exact ih h
    | removed => exact ⟨h.1, ih h.2⟩
    | delivered expiration cpu => exact ⟨h.1, h.2.1, hsub cpu h.2.2.1, ih h.2.2.2⟩

theorem Told.of_append {observed : Nat → List UInt64} {newer older : List TimerEvent}
    (h : Told observed (newer ++ older)) :
    Told observed older := by
  induction newer with
  | nil => exact h
  | cons event newer ih =>
    cases event with
    | accepted => exact ih h
    | removed => exact ih h.2
    | delivered => exact ih h.2.2.2

theorem pendingSetting_eq_some {deadline : UInt64} (h : pendingSetting events = some deadline) :
    ∃ older, events = .accepted deadline :: older := by
  match events, h with
  | .accepted _ :: older, h =>
    cases h
    exact ⟨older, rfl⟩

namespace TimerSet

variable {s s' : TimerSet} {n cpu : Nat} {deadline : UInt64}

/-! ## The invariant -/

/-- A pending timer is on the CPU of its route. -/
def place (s : TimerSet) (n : Nat) : Option Nat := if (s.nodes n).link then some (s.nodes n).ownerCpu else none

def setting (s : TimerSet) (n : Nat) : Option UInt64 := if (s.nodes n).link then some (s.nodes n).deadline else none

/-- The clock reading that the dispatch of a CPU is at. -/
def DispatchPc.readingNs : DispatchPc → Option UInt64
  | .entered entryNs => some entryNs
  | .callback _ _ service | .reading service | .relock service => some service.roundNs
  | .idle | .returned _ => none

structure Core (s : TimerSet) : Prop where
  indexed : Indexed s.nodes s.cpus s.place
  routed : ∀ n, (s.nodes n).ownerCpu < s.cpuCount
  running : ∀ cpu, (s.cpus cpu).running = (s.dispatchers cpu).current
  owner : ∀ cpu n, (s.cpus cpu).running = some n → (s.nodes n).ownerCpu = cpu
  pending : ∀ n, pendingSetting (s.history n) = s.setting n
  told : ∀ n, Told s.observed (s.history n)
  served : ∀ cpu now, DispatchPc.readingNs (s.dispatchers cpu) = some now → now ∈ s.observed cpu

theorem new_core {cpuCount : Nat} {nodes : Nodes} (hnew : ∀ n, ∃ cpu, TimerNode.newOn cpuCount cpu = .ok (nodes n)) :
    Core (new cpuCount nodes) := by
  have hnode : ∀ n, (nodes n).link = false ∧ (nodes n).ownerCpu < cpuCount := by
    intro n
    obtain ⟨cpu, hcpu⟩ := hnew n
    unfold TimerNode.newOn at hcpu
    split at hcpu
    · cases hcpu
    · rename_i hlt
      rw [← Except.ok.inj hcpu]
      exact ⟨rfl, not_le.1 hlt⟩
  refine ⟨⟨fun _ => TimerIndex.new_valid, fun cpu n => ?_, fun n => ?_⟩, fun n => (hnode n).2, fun _ => rfl, nofun,
    fun n => ?_, fun _ => trivial, nofun⟩
  · simp [new, CpuTimers.new, TimerIndex.new, place, (hnode n).1]
  · simp [new, place, (hnode n).1]
  · simp [new, pendingSetting, setting, (hnode n).1]

namespace Core

/-- The rest of the state does not count. -/
theorem congr (h : Core s) (hcount : s'.cpuCount = s.cpuCount) (hnodes : s'.nodes = s.nodes)
    (hpending : ∀ cpu, (s'.cpus cpu).pending = (s.cpus cpu).pending)
    (hrunning : ∀ cpu, (s'.cpus cpu).running = (s.cpus cpu).running)
    (hcurrent : ∀ cpu, (s'.dispatchers cpu).current = (s.dispatchers cpu).current)
    (hhistory : s'.history = s.history) (hobserved : ∀ cpu, s.observed cpu ⊆ s'.observed cpu)
    (hserved : ∀ cpu now, DispatchPc.readingNs (s'.dispatchers cpu) = some now → now ∈ s'.observed cpu) : Core s' := by
  have hplace : s'.place = s.place := by
    funext n
    rw [place, place, hnodes]
  refine ⟨?_, fun n => ?_, fun cpu => ?_, fun cpu n hr => ?_, fun n => ?_, fun n => ?_, hserved⟩
  · rw [hplace]
    exact h.indexed.congr hpending (fun n => by rw [hnodes]) (fun n => by rw [hnodes])
  · rw [hcount, hnodes]
    exact h.routed n
  · rw [hrunning, hcurrent]
    exact h.running cpu
  · rw [hnodes]
    exact h.owner cpu n (hrunning cpu ▸ hr)
  · rw [hhistory, setting, hnodes]
    exact h.pending n
  · rw [hhistory]
    exact (h.told n).mono hobserved

theorem setCall (h : Core s) (c : Nat) (call : TimerCall) (pc : CallPc) : Core (s.setCall c call pc) :=
  h.congr rfl rfl (fun _ => rfl) (fun _ => rfl) (fun _ => rfl) rfl (fun _ => List.Subset.refl _) h.served

variable {timers : CpuTimers}

theorem field_setCpu {α : Type} (g : CpuTimers → α) (h : g timers = g (s.cpus cpu)) (cpu' : Nat) :
    g ((s.setCpu cpu timers).cpus cpu') = g (s.cpus cpu') :=
  (forall_update_iff s.cpus fun cpu' timers => g timers = g (s.cpus cpu')).2 ⟨h, fun _ _ => rfl⟩ cpu'

theorem place_eq_or (hroute : (s.nodes n).ownerCpu = cpu) : s.place n = none ∨ s.place n = some cpu := by
  unfold place
  split
  · exact .inr (congrArg some hroute)
  · exact .inl rfl

variable {x : TimerNode}

theorem place_update {t : TimerSet} (ht : t.nodes = update s.nodes n x) :
    t.place = update s.place n (if x.link then some x.ownerCpu else none) := by
  funext m
  by_cases hm : m = n <;> simp [hm, place, ht]

/-- A timer got the node `x` and the event `event`, which fits. -/
theorem moved (h : Core s) {event : TimerEvent} (hcount : s'.cpuCount = s.cpuCount)
    (hnodes : s'.nodes = update s.nodes n x) (hrange : x.ownerCpu < s.cpuCount)
    (hindexed : Indexed s'.nodes s'.cpus s'.place)
    (hrunning : ∀ cpu, (s'.cpus cpu).running = (s'.dispatchers cpu).current)
    (howner : ∀ cpu m, (s'.cpus cpu).running = some m → (s'.nodes m).ownerCpu = cpu)
    (hhistory : s'.history = update s.history n (event :: s.history n))
    (hevent : pendingSetting (event :: s.history n) = if x.link then some x.deadline else none)
    (htold : Told s.observed (event :: s.history n)) (hobserved : s'.observed = s.observed)
    (hserved : ∀ cpu now, DispatchPc.readingNs (s'.dispatchers cpu) = some now → now ∈ s'.observed cpu) : Core s' := by
  refine ⟨hindexed, ?_, hrunning, howner, fun m => ?_, ?_, hserved⟩
  · rw [hcount, hnodes]
    exact (forall_update_iff s.nodes fun _ x => x.ownerCpu < s.cpuCount).2 ⟨hrange, fun m _ => h.routed m⟩
  · rw [hhistory, setting, hnodes]
    by_cases hm : m = n
    · rw [hm, update_self, update_self]
      exact hevent
    · rw [update_of_ne hm, update_of_ne hm]
      exact h.pending m
  · rw [hhistory, hobserved]
    exact (forall_update_iff s.history fun _ events => Told s.observed events).2 ⟨htold, fun m _ => h.told m⟩

/-- The running timer keeps its owner. -/
theorem owner_update (h : Core s) (hx : x.ownerCpu = (s.nodes n).ownerCpu) {m : Nat}
    (hr : (s.cpus cpu).running = some m) : (update s.nodes n x m).ownerCpu = cpu := by
  have hupdate := (forall_update_iff s.nodes fun m x => x.ownerCpu = (s.nodes m).ownerCpu).2 ⟨hx, fun _ _ => rfl⟩
  exact (hupdate m).trans (h.owner cpu m hr)

theorem armAt (h : Core s) (hroute : (s.nodes n).ownerCpu = cpu) (deadline : UInt64) :
    Core (s.armAt cpu n deadline).1 := by
  have hrunning : ∀ cpu', ((s.armAt cpu n deadline).1.cpus cpu').running = (s.cpus cpu').running :=
    field_setCpu CpuTimers.running arm_running
  have hnodes : (s.armAt cpu n deadline).1.nodes = update s.nodes n { s.nodes n with link := true, deadline } :=
    arm_nodes
  refine h.moved rfl hnodes (h.routed n) ?_ (fun cpu' => (hrunning cpu').trans (h.running cpu'))
    (fun cpu' m hr => ?_) rfl rfl
    (h.told n) rfl h.served
  · rw [place_update hnodes]
    simp only [hroute]
    exact h.indexed.arm (place_eq_or hroute) rfl deadline
  · rw [hnodes]
    exact h.owner_update (by rfl) (hrunning cpu' ▸ hr)

/-- What `try_cancel` does, by its result. -/
theorem tryCancelAt_cases (s : TimerSet) (cpu n : Nat) :
    ((s.cpus cpu).running = some n ∧ s.tryCancelAt cpu n = (s, .running)) ∨
      ((s.cpus cpu).running ≠ some n ∧ (s.nodes n).link = false ∧ s.tryCancelAt cpu n = (s, .inactive)) ∨
      ((s.cpus cpu).running ≠ some n ∧ (s.nodes n).link = true ∧ s.tryCancelAt cpu n =
        ({ s.setCpu cpu { s.cpus cpu with pending := ((s.cpus cpu).pending.remove s.nodes n).2 } with
          nodes := ((s.cpus cpu).pending.remove s.nodes n).1 }.record n .removed, .removed)) := by
  unfold tryCancelAt tryCancel isRunning
  by_cases hr : (s.cpus cpu).running = some n
  · exact .inl ⟨hr, by simp [hr, setCpu]⟩
  · cases hl : (s.nodes n).link with
    | false => exact .inr (.inl ⟨hr, rfl, by simp [hr, setCpu]⟩)
    | true => exact .inr (.inr ⟨hr, rfl, by simp [hr]⟩)

section

variable (hroute : (s.nodes n).ownerCpu = cpu)
include hroute

theorem removed (h : Core s) (hlink : (s.nodes n).link = true) :
    Core ({ s.setCpu cpu { s.cpus cpu with pending := ((s.cpus cpu).pending.remove s.nodes n).2 } with
      nodes := ((s.cpus cpu).pending.remove s.nodes n).1 }.record n .removed) := by
  have hplace : s.place n = some cpu := by simp [place, hlink, hroute]
  have hsetting : pendingSetting (s.history n) ≠ none := by simp [h.pending, setting, hlink]
  refine h.moved rfl rfl (h.routed n) ?_
    (fun cpu' => (field_setCpu CpuTimers.running (by rfl) cpu').trans (h.running cpu')) (fun cpu' m hr => ?_) rfl rfl
    ⟨hsetting, h.told n⟩ rfl h.served
  · rw [place_update rfl]
    exact h.indexed.remove rfl hplace
  · exact h.owner_update (x := { s.nodes n with link := false }) rfl
      ((field_setCpu CpuTimers.running (by rfl) cpu').symm.trans hr)

theorem tryCancelAt (h : Core s) : Core (s.tryCancelAt cpu n).1 := by
  rcases tryCancelAt_cases s cpu n with ⟨-, he⟩ | ⟨-, -, he⟩ | ⟨-, hlink, he⟩
  · rw [he]
    exact h
  · rw [he]
    exact h
  · rw [he]
    exact h.removed hroute hlink

/-- The indexes between the removal and the arming of a migration. -/
theorem indexed_tryCancel (h : Core s) (hr : (s.cpus cpu).running ≠ some n) :
    Indexed ((s.cpus cpu).tryCancel s.nodes n).2.1 (update s.cpus cpu ((s.cpus cpu).tryCancel s.nodes n).2.2)
      (update s.place n none) := by
  unfold tryCancel isRunning
  cases hl : (s.nodes n).link with
  | false =>
    have hplace : s.place n = none := by simp [place, hl]
    simp only [hr, decide_false, Bool.false_eq_true, if_false, update_eq_self]
    rw [← hplace, update_eq_self]
    exact h.indexed
  | true =>
    simp only [hr, if_true]
    exact h.indexed.remove rfl (by simp [place, hl, hroute])

end

theorem migrate_nodes (s : TimerSet) (cpu selectedCpu n : Nat) (deadline : UInt64) :
    (s.migrate cpu selectedCpu n deadline).1.nodes = update s.nodes n ⟨true, deadline, selectedCpu⟩ := by
  simp only [migrate, record, arm_nodes, Nodes.setOwnerCpu]
  rcases tryCancel_nodes (s.cpus cpu) s.nodes n with he | he <;> simp [he, Nodes.setLink]

variable {selectedCpu : Nat}

theorem migrate_running (hne : selectedCpu ≠ cpu) (n : Nat) (deadline : UInt64) (cpu' : Nat) :
    ((s.migrate cpu selectedCpu n deadline).1.cpus cpu').running = (s.cpus cpu').running := by
  have harmed : ((s.cpus selectedCpu).arm ((s.cpus cpu).tryCancel s.nodes n).2.1 n deadline).2.1.running =
      ((s.setCpu cpu ((s.cpus cpu).tryCancel s.nodes n).2.2).cpus selectedCpu).running := by
    rw [CpuTimers.arm_running]
    exact congrArg CpuTimers.running (update_of_ne hne _ _).symm
  exact (field_setCpu CpuTimers.running harmed cpu').trans (field_setCpu CpuTimers.running tryCancel_running cpu')

theorem migrate (h : Core s) (hroute : (s.nodes n).ownerCpu = cpu) (hr : (s.cpus cpu).running ≠ some n)
    (hne : selectedCpu ≠ cpu) (hrange : selectedCpu < s.cpuCount) (deadline : UInt64) :
    Core (s.migrate cpu selectedCpu n deadline).1 := by
  have hnodes := migrate_nodes s cpu selectedCpu n deadline
  have hrunning := migrate_running (s := s) hne n deadline
  have hother : (s.setCpu cpu ((s.cpus cpu).tryCancel s.nodes n).2.2).cpus selectedCpu = s.cpus selectedCpu :=
    update_of_ne hne _ _
  refine h.moved rfl hnodes hrange ?_ (fun cpu' => (hrunning cpu').trans (h.running cpu'))
    (fun cpu' m hm => ?_) rfl rfl (h.told n) rfl h.served
  · have harmed := (h.indexed_tryCancel hroute hr).arm (.inl (update_self _ _ _)) hother deadline
    rw [update_idem] at harmed
    rw [place_update hnodes]
    refine harmed.congr (fun _ => rfl) (fun m => ?_) (fun m => ?_)
    · by_cases hm : m = n
      · rw [hnodes, arm_nodes, hm, update_self, update_self]
      · exact congrArg TimerNode.link (update_of_ne hm _ _)
    · by_cases hm : m = n
      · rw [Nodes.key, Nodes.key, hnodes, arm_nodes, hm, update_self, update_self]
      · exact key_update_of_ne hm
  · have hm' := h.owner cpu' m (hrunning cpu' ▸ hm)
    have hmn : m ≠ n := by
      rintro rfl
      exact hr (hroute.symm.trans hm' ▸ hrunning cpu' ▸ hm)
    rw [hnodes, update_of_ne hmn]
    exact hm'

/-! ### Dispatch -/

variable {pc : DispatchPc}

theorem served_update (h : Core s) (hreading : ∀ now, DispatchPc.readingNs pc = some now → now ∈ s.observed cpu) :
    ∀ cpu' now, DispatchPc.readingNs (update s.dispatchers cpu pc cpu') = some now → now ∈ s.observed cpu' :=
  (forall_update_iff s.dispatchers fun cpu' pc => ∀ now, DispatchPc.readingNs pc = some now → now ∈ s.observed cpu').2
    ⟨hreading, fun cpu' _ => h.served cpu'⟩

theorem setDispatch (h : Core s) (hcurrent : (s.cpus cpu).running = pc.current)
    (hreading : ∀ now, DispatchPc.readingNs pc = some now → now ∈ s.observed cpu) : Core (s.setDispatch cpu pc) := by
  refine h.congr rfl rfl (fun _ => rfl) (fun _ => rfl) ?_ rfl (fun _ => List.Subset.refl _) (h.served_update hreading)
  exact (forall_update_iff s.dispatchers fun cpu' pc => pc.current = (s.dispatchers cpu').current).2
    ⟨hcurrent.symm.trans (h.running cpu), fun _ _ => rfl⟩

theorem setCpu (h : Core s) (hpending : timers.pending = (s.cpus cpu).pending)
    (hrunning : timers.running = (s.cpus cpu).running) : Core (s.setCpu cpu timers) := by
  exact h.congr rfl rfl (field_setCpu CpuTimers.pending hpending) (field_setCpu CpuTimers.running hrunning)
    (fun _ => rfl) rfl
    (fun _ => List.Subset.refl _) h.served

theorem observe (h : Core s) (cpu : Nat) (now : UInt64) : Core (s.observe cpu now) := by
  have hsub : ∀ cpu', s.observed cpu' ⊆ (s.observe cpu now).observed cpu' :=
    (forall_update_iff s.observed fun cpu' readings => s.observed cpu' ⊆ readings).2
      ⟨subset_cons_self _ _, fun _ _ => List.Subset.refl _⟩
  exact h.congr rfl rfl (fun _ => rfl) (fun _ => rfl) (fun _ => rfl) rfl hsub fun cpu' t ht => hsub cpu'
    (h.served cpu' t ht)

variable {service : Service}

/-- The record of the running timer and the dispatch of the CPU change together. -/
theorem running_update (h : Core s) (hcurrent : timers.running = pc.current) (cpu' : Nat) :
    (update s.cpus cpu timers cpu').running = (update s.dispatchers cpu pc cpu').current := by
  by_cases hc : cpu' = cpu
  · rw [hc, update_self, update_self, hcurrent]
  · rw [update_of_ne hc, update_of_ne hc, h.running]

/-- The end of a delivery, before the next one is taken. -/
theorem cleared (h : Core s) (hreading : service.roundNs ∈ s.observed cpu) :
    Core ((s.setCpu cpu { s.cpus cpu with running := none }).setDispatch cpu (.reading service)) := by
  refine ⟨h.indexed.congr (field_setCpu CpuTimers.pending rfl) (fun _ => rfl) (fun _ => rfl), h.routed,
    h.running_update rfl, ?_, h.pending, h.told, h.served_update (by rintro now ⟨⟩; exact hreading)⟩
  exact (forall_update_iff s.cpus fun cpu' timers => ∀ m, timers.running = some m → (s.nodes m).ownerCpu = cpu').2
    ⟨nofun, fun cpu' _ => h.owner cpu'⟩

theorem take_cases (h : Core s) (hrunning : (s.cpus cpu).running = none) (service : Service) :
    (s.take cpu service = s.setDispatch cpu (.reading service) ∧
      ∀ m ∈ (s.cpus cpu).pending.tree, service.roundNs < (s.nodes m).deadline) ∨
    ∃ n, n ∈ (s.cpus cpu).pending.tree ∧ (s.nodes n).deadline ≤ service.roundNs ∧
      s.take cpu service = ({ s.setCpu cpu
        { s.cpus cpu with pending := ((s.cpus cpu).pending.remove s.nodes n).2, running := some n } with
          nodes := ((s.cpus cpu).pending.remove s.nodes n).1 }.record n
            (.delivered (s.nodes n).deadline cpu service.roundNs)).setDispatch cpu
              (.callback n (s.nodes n).deadline { service with anyDue := true }) := by
  unfold take
  cases ht : (s.cpus cpu).takeExpired s.nodes service.roundNs with
  | none => exact .inl ⟨rfl, takeExpired_eq_none (h.indexed.valid cpu) hrunning ht⟩
  | some r =>
    obtain ⟨⟨n, expiration⟩, r⟩ := r
    obtain ⟨-, hn, rfl, hdue, rfl⟩ := takeExpired_eq_some (h.indexed.valid cpu) ht
    exact .inr ⟨n, hn, hdue, rfl⟩

/-- A pending timer is linked, and its route is this CPU. -/
theorem of_mem_tree (h : Core s) (hn : n ∈ (s.cpus cpu).pending.tree) :
    (s.nodes n).link = true ∧ (s.nodes n).ownerCpu = cpu := by
  have hplace := (h.indexed.mem cpu n).1 hn
  unfold place at hplace
  split at hplace
  · exact ⟨‹_›, some.inj hplace⟩
  · cases hplace

theorem take (h : Core s) (hrunning : (s.cpus cpu).running = none)
    (hreading : service.roundNs ∈ s.observed cpu) : Core (s.take cpu service) := by
  rcases h.take_cases hrunning service with ⟨he, -⟩ | ⟨n, hn, hdue, he⟩
  · rw [he]
    exact h.setDispatch hrunning (by rintro now ⟨⟩; exact hreading)
  rw [he]
  obtain ⟨hlink, hroute⟩ := h.of_mem_tree hn
  have hsetting : pendingSetting (s.history n) = some (s.nodes n).deadline := by simp [h.pending, setting, hlink]
  refine h.moved rfl rfl (h.routed n) ?_ (h.running_update rfl) ?_ rfl rfl
    ⟨hsetting, hdue, hreading, h.told n⟩ rfl (h.served_update (by rintro now ⟨⟩; exact hreading))
  · rw [place_update rfl]
    exact h.indexed.remove rfl ((h.indexed.mem cpu n).1 hn)
  · refine (forall_update_iff s.cpus fun cpu' timers => ∀ m, timers.running = some m →
      (update s.nodes n { s.nodes n with link := false } m).ownerCpu = cpu').2 ⟨?_, fun cpu' _ m hm => ?_⟩
    · rintro m ⟨⟩
      rw [update_self]
      exact hroute
    · exact h.owner_update (x := { s.nodes n with link := false }) rfl hm

end Core

theorem take_setDispatch (s : TimerSet) (cpu : Nat) (pc : DispatchPc) (service : Service) :
    (s.setDispatch cpu pc).take cpu service = s.take cpu service := by
  simp only [take, setDispatch]
  split <;> simp [setCpu, record]

end TimerSet

end XKernel.Timer
