import XKernel.Rcu.Nodes
/-!
# Grace periods and read scopes

What holds a period up is a scope, or a report, from before its start. A CPU that still runs such a
scope or carries such a report has not been observed; a task that was switched out with such a scope
is among the blockers of its node. So no period ends before them, and a report that was read from a
node can be late by one period at most.
-/

namespace XKernel.Rcu

open XKernel.Lib ReaderNode Function List Option GracePeriodCoordinator

namespace GracePeriodCoordinator

variable (k : GracePeriodCoordinator)

/-- The nodes that have the period. -/
def begun (cpu : Nat) : Bool :=
  match k.phase with
  | .idle => false
  | .initializing => cpu < k.visit
  | .waiting => true
  | .finalizing => k.visit ≤ cpu

def TakesReports : Prop := k.phase = .initializing ∨ k.phase = .waiting

structure Counted : Prop where
  completed : k.completed = UInt64.ofNat k.finished
  started : k.started = k.finished + if k.phase = .idle then 0 else 1

/-- A node of a participating CPU. -/
structure NodeInv (cpu : Nat) (node : ReaderNode) : Prop where
  id : node.period.map NodePeriod.id = if k.begun cpu then some (k.completed + 1) else none
  reported : k.TakesReports → k.pending cpu = false → node.readyPeriod = some (k.completed + 1)
  finalizing : k.phase = .finalizing → k.visit ≤ cpu → node.readyPeriod = some (k.completed + 1)

variable {k}

theorem NodeInv.keeps {cpu : Nat} {node node' : ReaderNode} (h : k.NodeInv cpu node) (hk : Keeps node node') :
    k.NodeInv cpu node' :=
  ⟨hk.id.trans h.id, fun ht hp => hk.ready _ (h.reported ht hp), fun hf hv => hk.ready _ (h.finalizing hf hv)⟩

end GracePeriodCoordinator

namespace Readers

/-- A scope of the task that runs on the CPU, not enrolled, or the report that the CPU carries. -/
def Held (s : Readers) (cpu n : Nat) : Prop :=
  (∃ report, s.reporting cpu = some report ∧ report.number = n) ∨
    ∃ t guard, s.current cpu = some t ∧ s.switching cpu = false ∧ (s.tasks t).owner = none ∧
      guard ∈ (s.tasks t).guards ∧ guard.since = n

/-- Where the tasks are. -/
structure Places (s : Readers) : Prop where
  owner : ∀ t cpu, (s.tasks t).owner = some cpu ↔ t ∈ (s.nodes cpu).readers
  inside : ∀ t cpu, (s.tasks t).owner = some cpu → s.isParticipant cpu = true
  current : ∀ cpu t, s.current cpu = some t → s.isParticipant cpu = true
  switching : ∀ cpu, s.switching cpu = true → s.isParticipant cpu = true
  single : ∀ cpu cpu' t, s.current cpu = some t → s.current cpu' = some t → cpu = cpu'
  placed : ∀ t, ∀ guard ∈ (s.tasks t).guards, (s.tasks t).owner = none → ∃ cpu, s.current cpu = some t ∧
    s.switching cpu = false

structure Inv (s : Readers) : Prop where
  counted : s.coordinator.Counted
  places : s.Places
  ok : ∀ cpu, (s.nodes cpu).Ok
  node : ∀ cpu, s.isParticipant cpu = true → s.coordinator.NodeInv cpu (s.nodes cpu)
  /-- What a CPU holds from before the start of the period keeps the CPU unseen. -/
  held : ∀ cpu n, s.Held cpu n → s.isParticipant cpu = true ∧ s.isWatching cpu = true ∧
    s.coordinator.finished ≤ n ∧ n ≤ s.coordinator.started ∧
    (n < s.coordinator.started → s.coordinator.TakesReports ∧ (s.nodes cpu).Unseen (s.sequence cpu))
  /-- An enrolled scope from before the start of the period blocks it. -/
  enrolled : ∀ t cpu, ∀ guard ∈ (s.tasks t).guards, (s.tasks t).owner = some cpu →
    s.coordinator.finished ≤ guard.since ∧ guard.since ≤ s.coordinator.started ∧
    (guard.since < s.coordinator.started → s.coordinator.TakesReports ∧ t ∈ (s.nodes cpu).blockers)
  inflight : ∀ cpu report, s.reporting cpu = some report → report.period = UInt64.ofNat report.number ∧
    s.isParticipant report.cpu = true ∧ (report.number = s.coordinator.started → s.coordinator.TakesReports →
      (s.nodes report.cpu).readyPeriod = some (s.coordinator.completed + 1))

variable {s s' : Readers} {cpu t : Nat}

variable {nodes : Nat → ReaderNode} {k : GracePeriodCoordinator}

theorem Places.coordinator (h : s.Places)
    (hk : ∀ c, k.isParticipant c = s.isParticipant c) (hn : ∀ c, (nodes c).readers = (s.nodes c).readers) :
    Places { s with coordinator := k, nodes } :=
  ⟨fun t c => (h.owner t c).trans (hn c ▸ Iff.rfl), fun t c ht => (hk c).trans (h.inside t c ht),
    fun c t hc => (hk c).trans (h.current c t hc), fun c hc => (hk c).trans (h.switching c hc), h.single, h.placed⟩

/-- No scope from before the start of a period outlives the period. -/
theorem Inv.since (h : s.Inv) {guard : ReadGuard} (hg : guard ∈ (s.tasks t).guards) :
    s.coordinator.finished ≤ guard.since ∧ guard.since ≤ s.coordinator.started := by
  cases ho : (s.tasks t).owner with
  | some cpu =>
    have he := h.enrolled t cpu guard hg ho
    exact ⟨he.1, he.2.1⟩
  | none =>
    obtain ⟨cpu, hc, hs⟩ := h.places.placed t guard hg ho
    have hh := h.held cpu guard.since (.inr ⟨t, guard, hc, hs, ho, hg, rfl⟩)
    exact ⟨hh.2.2.1, hh.2.2.2.1⟩

theorem lt_cpuCount (hc : s.isParticipant cpu = true) : cpu < s.coordinator.cpuCount := by
  have : cpu < s.coordinator.cpuCount ∧ s.coordinator.participants cpu = true := by
    simpa [isParticipant, GracePeriodCoordinator.isParticipant] using hc
  exact this.1

theorem running_eq_some : s.running cpu = some t ↔
    s.isParticipant cpu = true ∧ s.isWatching cpu = true ∧ s.switching cpu = false ∧ s.current cpu = some t := by
  unfold running
  cases s.isParticipant cpu <;> cases s.isWatching cpu <;> cases s.switching cpu <;> simp

/-- What is new has the number of the periods started, what is not keeps its CPU unseen or blocks its node. -/
theorem Inv.moved (h : s.Inv) (hk : s'.coordinator = s.coordinator) (hn : ∀ c, Keeps (s.nodes c) (s'.nodes c))
    (hp : s'.Places)
    (hheld : ∀ c n, s'.Held c n → n = s.coordinator.started ∧ s.isParticipant c = true ∧ s'.isWatching c = true ∨
      s.Held c n ∧ s'.sequence c = s.sequence c ∧
        ((s.nodes c).Unseen (s.sequence c) → s.isWatching c = true → (s'.nodes c).Unseen (s.sequence c)))
    (henrolled : ∀ t c, ∀ guard ∈ (s'.tasks t).guards, (s'.tasks t).owner = some c →
      guard.since = s.coordinator.started ∨
      guard ∈ (s.tasks t).guards ∧ (s.tasks t).owner = some c ∧ (t ∈ (s.nodes c).blockers → t ∈ (s'.nodes c).blockers) ∨
      s.Held c guard.since ∧ ((s.nodes c).Unseen (s.sequence c) → t ∈ (s'.nodes c).blockers))
    (hreport : ∀ c report, s'.reporting c = some report → s.reporting c = some report ∨
      report.number = s.coordinator.started ∧ s.isParticipant report.cpu = true ∧
        (s'.nodes report.cpu).readyPeriod = some report.period) : s'.Inv := by
  have hpart : ∀ c, s'.isParticipant c = s.isParticipant c := fun c => by unfold isParticipant; rw [hk]
  have hle : s.coordinator.finished ≤ s.coordinator.started := h.counted.started ▸ Nat.le_add_right _ _
  refine ⟨hk ▸ h.counted, hp, fun c => (hn c).ok, fun c hc => hk ▸ (h.node c (hpart c ▸ hc)).keeps (hn c), ?_, ?_, ?_⟩
  · intro c n hh
    rw [hk, hpart]
    rcases hheld c n hh with ⟨rfl, hc, hw⟩ | ⟨hold, hseq, hunseen⟩
    · exact ⟨hc, hw, hle, Nat.le_refl _, fun hlt => absurd hlt (Nat.lt_irrefl _)⟩
    · obtain ⟨hc, hw, hf, hs, hold⟩ := h.held c n hold
      refine ⟨hc, by rwa [isWatching, hseq], hf, hs, fun hlt => ⟨(hold hlt).1, ?_⟩⟩
      rw [hseq]
      exact hunseen (hold hlt).2 hw
  · intro t c guard hguard howner
    rw [hk]
    rcases henrolled t c guard hguard howner with hs | ⟨hold, ho, hb⟩ | ⟨hold, hb⟩
    · exact ⟨hs ▸ hle, Nat.le_of_eq hs, fun hlt => absurd hlt (hs ▸ Nat.lt_irrefl _)⟩
    · obtain ⟨hf, hs, hold⟩ := h.enrolled t c guard hold ho
      exact ⟨hf, hs, fun hlt => ⟨(hold hlt).1, hb (hold hlt).2⟩⟩
    · obtain ⟨-, -, hf, hs, hold⟩ := h.held c _ hold
      exact ⟨hf, hs, fun hlt => ⟨(hold hlt).1, hb (hold hlt).2⟩⟩
  · intro c report hr
    rw [hk, hpart]
    rcases hreport c report hr with hold | ⟨hnumber, hc, hready⟩
    · obtain ⟨hid, hc, hready⟩ := h.inflight c report hold
      exact ⟨hid, hc, fun hnumber ht => (hn _).ready _ (hready hnumber ht)⟩
    · -- a node is ready for the period of the coordinator only
      obtain ⟨-, period, hperiod, -, hid⟩ := readyPeriod_iff.1 hready
      have hnode := ((h.node _ hc).keeps (hn _)).id
      rw [hperiod, map_some, hid] at hnode
      obtain ⟨hbegun, hnode⟩ := ite_none_right_eq_some.1 hnode.symm
      have hidle : s.coordinator.phase ≠ .idle := by
        intro hidle
        simp [begun, hidle] at hbegun
      have hstarted := h.counted.started
      rw [if_neg hidle] at hstarted
      have hperiod : report.period = s.coordinator.completed + 1 := (some.inj hnode).symm
      refine ⟨?_, hc, fun _ _ => by rw [hready, hperiod]⟩
      rw [hperiod, h.counted.completed, hnumber, hstarted, UInt64.ofNat_add]
      rfl

theorem keeps_refl (h : s.Inv) (c : Nat) : Keeps (s.nodes c) (s.nodes c) := .refl (h.ok c)

variable {node : ReaderNode}

theorem keeps_update (h : s.Inv) (hk : Keeps (s.nodes cpu) node) (c : Nat) :
    Keeps (s.nodes c) (update s.nodes cpu node c) :=
  (forall_update_iff s.nodes fun c node => Keeps (s.nodes c) node).2 ⟨hk, fun c _ => .refl (h.ok c)⟩ c

/-- Scopes end, or are entered by a task that runs. -/
theorem Inv.setTasks (h : s.Inv) {tasks : Nat → TaskReader} (ho : ∀ t, (tasks t).owner = (s.tasks t).owner)
    (hg : ∀ t, ∀ guard ∈ (tasks t).guards, guard ∈ (s.tasks t).guards ∨
      guard.since = s.coordinator.started ∧ ∃ cpu, s.running cpu = some t) : Inv { s with tasks } := by
  refine h.moved rfl (keeps_refl h) ?places ?held ?enrolled fun _ _ hr => .inl hr
  case places =>
    refine ⟨fun t cpu => ?_, fun t cpu hc => ?_, h.places.current, h.places.switching, h.places.single, ?_⟩
    · rw [← h.places.owner, ← ho]
    · exact h.places.inside t cpu (ho t ▸ hc)
    · intro t guard hguard howner
      rcases hg t guard hguard with hold | ⟨-, cpu, hr⟩
      · exact h.places.placed t guard hold (ho t ▸ howner)
      · obtain ⟨-, -, hs, hc⟩ := running_eq_some.1 hr
        exact ⟨cpu, hc, hs⟩
  case held =>
    rintro cpu n (hreport | ⟨t, guard, hc, hs, howner, hguard, rfl⟩)
    · exact .inr ⟨.inl hreport, rfl, fun hu _ => hu⟩
    · rcases hg t guard hguard with hold | ⟨hsince, cpu', hr⟩
      · exact .inr ⟨.inr ⟨t, guard, hc, hs, (ho t).symm.trans howner, hold, rfl⟩, rfl, fun hu _ => hu⟩
      · obtain ⟨hpart, hwatch, -, hc'⟩ := running_eq_some.1 hr
        cases h.places.single _ _ t hc hc'
        exact .inl ⟨hsince, hpart, hwatch⟩
  case enrolled =>
    intro t cpu guard hguard howner
    rcases hg t guard hguard with hold | ⟨hsince, -⟩
    · exact .inr (.inl ⟨hold, (ho t).symm.trans howner, fun hb => hb⟩)
    · exact .inl hsince

theorem Inv.setTask (h : s.Inv) {task : TaskReader} (ho : task.owner = (s.tasks t).owner)
    (hg : ∀ guard ∈ task.guards, guard ∈ (s.tasks t).guards ∨
      guard.since = s.coordinator.started ∧ ∃ cpu, s.running cpu = some t) : Inv (s.setTask t task) :=
  h.setTasks ((forall_update_iff s.tasks fun x task => task.owner = (s.tasks x).owner).2 ⟨ho, fun _ _ => rfl⟩)
    ((forall_update_iff s.tasks fun x task => ∀ guard ∈ task.guards, guard ∈ (s.tasks x).guards ∨
      guard.since = s.coordinator.started ∧ ∃ cpu, s.running cpu = some x).2 ⟨hg, fun _ _ _ hguard => .inl hguard⟩)

theorem unseen_update {c : Nat} {x : UInt64} (hne : c ≠ cpu)
    (h : (nodes c).Unseen x) : (update nodes cpu node c).Unseen x := by
  rwa [update_of_ne hne]

/-- A task joins the readers of a node or leaves them. Its scopes block what they have held up. -/
theorem Inv.setOwner (h : s.Inv) {owner : Option Nat} (hpart : s.isParticipant cpu = true)
    (hk : Keeps (s.nodes cpu) node) (hold : ∀ c, (s.tasks t).owner = some c → c = cpu)
    (hnew : ∀ c, owner = some c → c = cpu)
    (hmem : ∀ x, x ∈ node.readers ↔ x = t ∧ owner = some cpu ∨ x ≠ t ∧ x ∈ (s.nodes cpu).readers)
    (hblockers : ∀ x ∈ (s.nodes cpu).blockers, x ≠ t → x ∈ node.blockers)
    (hguards : ∀ guard ∈ (s.tasks t).guards, owner = some cpu ∧ s.Held cpu guard.since ∧
      ((s.nodes cpu).Unseen (s.sequence cpu) → t ∈ node.blockers))
    (hunseen : ((s.nodes cpu).Unseen (s.sequence cpu) → node.Unseen (s.sequence cpu)) ∨
      s.reporting cpu = none ∧ s.current cpu = some t) :
    Inv ((s.setTask t { s.tasks t with owner }).setNode cpu node) := by
  generalize hs : (s.setTask t { s.tasks t with owner }).setNode cpu node = s'
  have hself : s'.tasks t = { s.tasks t with owner } := hs ▸ update_self ..
  have hother : ∀ x, x ≠ t → s'.tasks x = s.tasks x := fun x hne => hs ▸ update_of_ne hne _ _
  have hcpu : s'.nodes cpu = node := hs ▸ update_self ..
  have hnodes : ∀ c, c ≠ cpu → s'.nodes c = s.nodes c := fun c hne => hs ▸ update_of_ne hne _ _
  -- a scope of the task is enrolled now, and the scopes of the others are where they were
  have hfree : ∀ x, ∀ guard ∈ (s'.tasks x).guards, (s'.tasks x).owner = none →
      x ≠ t ∧ guard ∈ (s.tasks x).guards ∧ (s.tasks x).owner = none := by
    intro x guard hg ho
    rcases eq_or_ne x t with rfl | hne
    · rw [hself] at hg ho
      cases (hguards guard hg).1.symm.trans ho
    · rw [hother x hne] at hg ho
      exact ⟨hne, hg, ho⟩
  subst hs
  refine h.moved rfl (keeps_update h hk) ?places ?held ?enrolled fun _ _ hr => .inl hr
  case places =>
    refine { h.places with owner := fun x c => ?_, inside := fun x c hx => ?_, placed := fun x guard hg hx => ?_ }
    · rcases eq_or_ne x t with rfl | hxt <;> rcases eq_or_ne c cpu with rfl | hne
      · rw [hself, hcpu, hmem]
        simp
      · rw [hself, hnodes c hne, ← h.places.owner]
        exact iff_of_false (fun hc => hne (hnew c hc)) fun hc => hne (hold c hc)
      · rw [hother x hxt, hcpu, hmem, h.places.owner]
        simp [hxt]
      · rw [hother x hxt, hnodes c hne, h.places.owner]
    · rcases eq_or_ne x t with rfl | hne
      · rw [hself] at hx
        exact hnew c hx ▸ hpart
      · rw [hother x hne] at hx
        exact h.places.inside x c hx
    · obtain ⟨-, hg, hx⟩ := hfree x guard hg hx
      exact h.places.placed x guard hg hx
  case held =>
    have hkeep : ∀ c, (c = cpu → ¬ (s.reporting cpu = none ∧ s.current cpu = some t)) →
        (s.nodes c).Unseen (s.sequence c) →
        (update s.nodes cpu node c).Unseen (s.sequence c) := by
      intro c hc hu
      rcases eq_or_ne c cpu with rfl | hne
      · rw [update_self]
        exact hunseen.resolve_right (hc rfl) hu
      · exact unseen_update hne hu
    rintro c n (⟨report, hreport, rfl⟩ | ⟨x, guard, hc, hsw, hx, hg, rfl⟩)
    · refine .inr ⟨.inl ⟨report, hreport, rfl⟩, rfl, fun hu _ => hkeep c ?_ hu⟩
      rintro rfl hn
      cases hn.1.symm.trans hreport
    · obtain ⟨hne, hg, hx⟩ := hfree x guard hg hx
      refine .inr ⟨.inr ⟨x, guard, hc, hsw, hx, hg, rfl⟩, rfl, fun hu _ => hkeep c ?_ hu⟩
      rintro rfl hn
      exact hne (some.inj (hc.symm.trans hn.2))
  case enrolled =>
    intro x c guard hg hx
    rcases eq_or_ne x t with rfl | hne
    · rw [hself] at hg hx
      obtain rfl := hnew c hx
      obtain ⟨-, hheld, hb⟩ := hguards guard hg
      exact .inr (.inr ⟨hheld, hcpu.symm ▸ hb⟩)
    · rw [hother x hne] at hg hx
      refine .inr (.inl ⟨hg, hx, fun hb => ?_⟩)
      rcases eq_or_ne c cpu with rfl | hc
      · exact hcpu.symm ▸ hblockers x hb hne
      · rwa [hnodes c hc]

/-- A task without scopes leaves its node. -/
theorem Inv.removeEnrollment (h : s.Inv) (hg : (s.tasks t).guards = []) :
    ∃ s', s.removeEnrollment t = some s' ∧ Inv s' ∧ (s'.tasks t).guards = [] := by
  unfold Readers.removeEnrollment
  cases ho : (s.tasks t).owner with
  | none => exact ⟨s, rfl, h, hg⟩
  | some cpu =>
    obtain ⟨node', hremove, hkeeps, hmem, hblockers, hunseen⟩ := remove_spec (h.ok cpu) ((h.places.owner t cpu).1 ho)
    simp only [hremove]
    refine ⟨_, rfl, ?_, by simp [Readers.setTask, hg]⟩
    exact h.setOwner (h.places.inside t cpu ho) hkeeps (fun c hc => (some.inj (ho.symm.trans hc)).symm) nofun
      (by simpa using hmem) hblockers (by simp [hg]) (.inl (hunseen _))

/-- A task that runs is enrolled at its CPU. -/
theorem Inv.enroll (h : s.Inv) (hcurrent : s.current cpu = some t) (hswitching : s.switching cpu = false)
    (hreporting : s.reporting cpu = none) (ho : (s.tasks t).owner = none) :
    Inv ((s.setTask t { s.tasks t with owner := some cpu }).setNode cpu ((s.nodes cpu).enrollLocked t)) := by
  have ht : t ∉ (s.nodes cpu).readers := by
    rw [← h.places.owner, ho]
    nofun
  obtain ⟨hkeeps, hmem, hblockers, hunseen⟩ := enrollLocked_spec (h.ok cpu) ht
  refine h.setOwner (h.places.current cpu t hcurrent) hkeeps (fun c hc => nomatch ho.symm.trans hc)
    (fun c hc => (some.inj hc).symm) (fun x => ?_) (fun x hx _ => hblockers x hx)
    (fun guard hg => ⟨rfl, .inr ⟨t, guard, hcurrent, hswitching, ho, hg, rfl⟩, hunseen _⟩) (.inr ⟨hreporting, hcurrent⟩)
  rw [hmem]
  rcases eq_or_ne x t with rfl | hne
  · simp
  · simp [hne]

/-! ## Steps of CPUs and reporters -/

theorem canReport_iff : s.canReport cpu = true ↔
    s.isParticipant cpu = true ∧ s.isWatching cpu = true ∧ s.reporting cpu = none := by
  simp [canReport, and_assoc]

variable {report : Report}

theorem reporting_send {reporting : Nat → Option Report} {reporter c number : Nat} {period : Option PeriodId}
    (h : update reporting reporter (period.map fun period => ⟨cpu, period, number⟩) c = some report) :
    c ≠ reporter ∧ reporting c = some report ∨ c = reporter ∧ ∃ id, period = some id ∧ report = ⟨cpu, id, number⟩ := by
  obtain ⟨hc, hnew⟩ | hold := update_apply_eq_iff.1 h
  · obtain ⟨id, hid, rfl⟩ := map_eq_some_iff.1 hnew
    exact .inr ⟨hc, id, hid, rfl⟩
  · exact .inl hold

/-- The CPU has given up what it held before another task comes. -/
theorem Inv.switchTo (h : s.Inv) {next : Option Nat} (hs : s.step (.switchTo cpu next) = some s') : s'.Inv := by
  obtain ⟨hcan, hs⟩ := ite_none_right_eq_some.1 hs
  obtain rfl := some.inj hs
  simp only [Bool.and_eq_true] at hcan
  obtain ⟨⟨hswitching, hreporting⟩, hnext⟩ := hcan
  have hpart := h.places.switching cpu hswitching
  -- the task that comes runs on no other CPU
  have hother : ∀ t c, next = some t → s.current c = some t → c = cpu := by
    rintro t c rfl hc
    simp only [all_some, Bool.and_eq_true, List.all_eq_true, mem_range, Bool.or_eq_true, decide_eq_true_eq] at hnext
    exact (hnext.2 c (lt_cpuCount (h.places.current c t hc))).resolve_right fun hne => hne hc
  have hcurrent : ∀ t c, update s.current cpu next c = some t → c = cpu ∧ next = some t ∨ c ≠ cpu ∧
      s.current c = some t :=
    fun t c hc => update_apply_eq_iff.1 hc
  have hplaced : ∀ t c, s.current c = some t → s.switching c = false → c ≠ cpu := by
    rintro t c - hsw rfl
    cases hswitching.symm.trans hsw
  refine h.moved rfl (keeps_refl h) ?_ ?_ (fun t c guard hg ho =>
    .inr (.inl ⟨hg, ho, fun hb => hb⟩)) fun _ _ hr => .inl hr
  · refine ⟨h.places.owner, h.places.inside, fun c t hc => ?_, fun c hc => ?_, fun c c' t hc hc' => ?_,
      fun t guard hg ho => ?_⟩
    · rcases hcurrent t c hc with ⟨rfl, -⟩ | ⟨-, hc⟩
      · exact hpart
      · exact h.places.current c t hc
    · rcases eq_or_ne c cpu with rfl | hne
      · exact hpart
      · exact h.places.switching c ((update_of_ne hne _ _).symm.trans hc)
    · rcases hcurrent t c hc with ⟨he, hn⟩ | ⟨-, hold⟩ <;> rcases hcurrent t c' hc' with ⟨he', hn'⟩ | ⟨-, hold'⟩
      · rw [he, he']
      · rw [he, hother t c' hn hold']
      · rw [he', hother t c hn' hold]
      · exact h.places.single c c' t hold hold'
    · obtain ⟨c, hc, hsw⟩ := h.places.placed t guard hg ho
      have hne := hplaced t c hc hsw
      exact ⟨c, (update_of_ne hne _ _).trans hc, (update_of_ne hne _ _).trans hsw⟩
  · rintro c n (hreport | ⟨t, guard, hc, hsw, ho, hg, rfl⟩)
    · exact .inr ⟨.inl hreport, rfl, fun hu _ => hu⟩
    · -- the scopes of an unenrolled task are on the CPU where it runs
      obtain ⟨c', hc', hsw'⟩ := h.places.placed t guard hg ho
      rcases hcurrent t c hc with ⟨rfl, hn⟩ | ⟨hne, hc⟩
      · exact absurd (hother t c' hn hc') (hplaced t c' hc' hsw')
      · exact .inr ⟨.inr ⟨t, guard, hc, (update_of_ne hne _ _).symm.trans hsw, ho, hg, rfl⟩, rfl, fun hu _ => hu⟩

/-- A CPU that crosses the boundary holds nothing. -/
theorem Inv.crossBoundary (h : s.Inv) (hs : s.step (.crossBoundary cpu) = some s') : s'.Inv := by
  obtain ⟨hcan, hs⟩ := ite_none_left_eq_some.1 hs
  obtain rfl := some.inj hs
  simp only [Bool.or_eq_true, not_or, Bool.not_eq_true, isSome_eq_false_iff, isNone_iff_eq_none] at hcan
  obtain ⟨⟨-, hreporting⟩, hguards⟩ := hcan
  refine h.moved rfl (keeps_refl h) { h.places with } ?_
    (fun t c guard hg ho => .inr (.inl ⟨hg, ho, fun hb => hb⟩)) fun _ _ hr => .inl hr
  intro c n hheld
  refine .inr ⟨hheld, update_of_ne ?_ _ _, fun hu _ => hu⟩
  rintro rfl
  rcases hheld with ⟨report, hreport, -⟩ | ⟨t, guard, hc, -, -, hg, -⟩
  · cases hreporting.symm.trans hreport
  · rw [hc, any_some, Bool.not_eq_false', List.isEmpty_iff] at hguards
    exact absurd (hguards ▸ hg) not_mem_nil

variable {reporter : Nat}

/-- A report starts from a node that is ready, on a CPU that carries none. -/
theorem Inv.sendReport (h : s.Inv) {result : ReaderNode × Option PeriodId} (hcan : s.canReport reporter = true)
    (hpart : s.isParticipant cpu = true) (hobserved : Observed (s.nodes cpu) result)
    (hunseen : ∀ n, s.Held cpu n → s.isWatching cpu = true → (s.nodes cpu).Unseen (s.sequence cpu) →
      result.1.Unseen (s.sequence cpu)) :
    ((s.setNode cpu result.1).send reporter cpu result.2).Inv := by
  obtain ⟨hrpart, hwatch, hreporting⟩ := canReport_iff.1 hcan
  have hnodes : ∀ f : ReaderNode → List Nat, f result.1 = f (s.nodes cpu) → ∀ c,
      f (update s.nodes cpu result.1 c) = f (s.nodes c) := fun f hf =>
    (forall_update_iff s.nodes fun c node => f node = f (s.nodes c)).2 ⟨hf, fun _ _ => rfl⟩
  refine h.moved rfl (keeps_update h hobserved.keeps) ?places ?held ?enrolled ?report
  case places =>
    refine { h.places with owner := fun t c => ?_ }
    exact (h.places.owner t c).trans (hnodes readers hobserved.readers c ▸ Iff.rfl)
  case held =>
    have hkeep : ∀ c n, s.Held c n → (s.nodes c).Unseen (s.sequence c) → s.isWatching c = true →
        (update s.nodes cpu result.1 c).Unseen (s.sequence c) := by
      intro c n hheld hu hw
      rcases eq_or_ne c cpu with rfl | hne
      · rw [update_self]
        exact hunseen n hheld hw hu
      · exact unseen_update hne hu
    rintro c n (⟨report, hreport, rfl⟩ | hscope)
    · rcases reporting_send hreport with ⟨-, hold⟩ | ⟨rfl, id, -, rfl⟩
      · exact .inr ⟨.inl ⟨report, hold, rfl⟩, rfl, hkeep c _ (.inl ⟨report, hold, rfl⟩)⟩
      · exact .inl ⟨rfl, hrpart, hwatch⟩
    · exact .inr ⟨.inr hscope, rfl, hkeep c n (.inr hscope)⟩
  case enrolled =>
    intro t c guard hg ho
    exact .inr (.inl ⟨hg, ho, fun hb => (hnodes blockers hobserved.blockers c).symm ▸ hb⟩)
  case report =>
    intro c report hreport
    rcases reporting_send hreport with ⟨-, hold⟩ | ⟨rfl, id, hid, rfl⟩
    · exact .inl hold
    · refine .inr ⟨rfl, hpart, ?_⟩
      show (update s.nodes cpu result.1 cpu).readyPeriod = some id
      rw [update_self]
      exact hobserved.ready id hid

/-- The CPU is about to switch, and its task has no scope that is not enrolled. -/
theorem Inv.setSwitching (h : s.Inv) (hpart : s.isParticipant cpu = true)
    (hfree : ∀ t, s.current cpu = some t → (s.tasks t).guards ≠ [] → (s.tasks t).owner ≠ none) :
    Inv { s with switching := update s.switching cpu true } := by
  have hset : ∀ c, update s.switching cpu true c = true → s.isParticipant c = true :=
    (forall_update_iff s.switching fun c set => set = true → s.isParticipant c = true).2
      ⟨fun _ => hpart, fun c _ => h.places.switching c⟩
  have hclear : ∀ c, update s.switching cpu true c = false → s.switching c = false :=
    (forall_update_iff s.switching fun c set => set = false → s.switching c = false).2 ⟨nofun, fun _ _ hc => hc⟩
  refine h.moved rfl (keeps_refl h) ?_ ?_ (fun t c guard hg ho =>
    .inr (.inl ⟨hg, ho, fun hb => hb⟩)) fun _ _ hr => .inl hr
  · refine { h.places with switching := hset, placed := fun t guard hg ho => ?_ }
    obtain ⟨c, hc, hsw⟩ := h.places.placed t guard hg ho
    have hne : c ≠ cpu := by
      rintro rfl
      exact hfree t hc (ne_nil_of_mem hg) ho
    exact ⟨c, hc, (update_of_ne hne _ _).trans hsw⟩
  · rintro c n (hreport | ⟨t, guard, hc, hsw, ho, hg, rfl⟩)
    · exact .inr ⟨.inl hreport, rfl, fun hu _ => hu⟩
    · exact .inr ⟨.inr ⟨t, guard, hc, hclear c hsw, ho, hg, rfl⟩, rfl, fun hu _ => hu⟩

/-- After the note nothing is held by the CPU but the report of this note. -/
theorem Inv.noteEnrolled (h : s.Inv) (hcan : s.canReport cpu = true)
    (hfree : ∀ t, s.current cpu = some t → (s.tasks t).guards ≠ [] → (s.tasks t).owner ≠ none) (t : Nat) :
    ((({ s with switching := update s.switching cpu true } : Readers).setNode cpu
      ((s.nodes cpu).noteContextSwitch t false).1).send cpu cpu ((s.nodes cpu).noteContextSwitch t false).2).Inv := by
  obtain ⟨hpart, -, hreporting⟩ := canReport_iff.1 hcan
  refine (h.setSwitching hpart hfree).sendReport hcan hpart (noteContextSwitch_observed (h.ok cpu)) ?_
  rintro n (⟨report, hr, -⟩ | ⟨x, guard, -, hsw, -⟩)
  · cases hreporting.symm.trans hr
  · cases (update_self cpu true s.switching).symm.trans hsw

theorem Inv.noteContextSwitch (h : s.Inv) (hs : s.step (.noteContextSwitch cpu) = some s') : s'.Inv := by
  obtain ⟨hcan, hs⟩ := ite_none_right_eq_some.1 hs
  rw [Bool.and_eq_true, Bool.not_eq_true'] at hcan
  obtain ⟨hcan, hswitching⟩ := hcan
  obtain ⟨hpart, -, hreporting⟩ := canReport_iff.1 hcan
  cases hcurrent : s.current cpu with
  | none =>
    obtain rfl : { s with switching := update s.switching cpu true } = s' := by
      simpa [hcurrent] using hs
    exact h.setSwitching hpart fun t ht => nomatch hcurrent.symm.trans ht
  | some t =>
    simp only [hcurrent] at hs
    by_cases hneeds : (s.tasks t).guards ≠ [] ∧ (s.tasks t).owner = none
    · have hn : (!(s.tasks t).guards.isEmpty && (s.tasks t).owner.isNone) = true := by simpa using hneeds
      have hnoted := (h.enroll hcurrent hswitching hreporting hneeds.2).noteEnrolled hcan (fun x hx _ hnone => ?_) t
      · simp only [setNode, update_idem, update_self] at hnoted
        rw [hn] at hs
        exact some.inj hs ▸ hnoted
      · obtain rfl : t = x := some.inj (hcurrent.symm.trans hx)
        cases (congrArg TaskReader.owner (update_self t _ s.tasks)).symm.trans hnone
    · have hn : (!(s.tasks t).guards.isEmpty && (s.tasks t).owner.isNone) = false := by
        simpa [isSome_iff_ne_none] using hneeds
      rw [hn] at hs
      refine some.inj hs ▸ h.noteEnrolled hcan (fun x hx hg ho => hneeds ?_) t
      obtain rfl : t = x := some.inj (hcurrent.symm.trans hx)
      exact ⟨hg, ho⟩

/-- A report that arrives in time is the one of the period: it is late by one period at most. -/
theorem Inv.number_eq (h : s.Inv) (hr : s.reporting reporter = some report)
    (ht : s.coordinator.TakesReports) (hid : s.coordinator.completed + 1 = report.period) :
    report.number = s.coordinator.started := by
  obtain ⟨-, -, hf, hs, -⟩ := h.held reporter report.number (.inl ⟨report, hr, rfl⟩)
  have hstarted := h.counted.started
  rw [if_neg (by rcases ht with ht | ht <;> simp [ht])] at hstarted
  rw [h.counted.completed, (h.inflight reporter report hr).1] at hid
  by_contra hne
  have hfinished : report.number = s.coordinator.finished := by omega
  have hzero : (1 : UInt64) = 0 := by simp [hfinished] at hid
  exact absurd hzero (by decide)

theorem Inv.acceptReport (h : s.Inv) (hr : s.reporting reporter = some report) :
    Inv { s with reporting := update s.reporting reporter none, coordinator := s.coordinator.acceptReport report } := by
  have hreporting := (forall_update_iff s.reporting (a := reporter) (b := none) fun c carried =>
    ∀ report, carried = some report → s.reporting c = some report).2 ⟨nofun, fun _ _ _ hc => hc⟩
  have hsent : Inv { s with reporting := update s.reporting reporter none } := by
    refine h.moved rfl (keeps_refl h) { h.places with } ?_
      (fun t c guard hg ho => .inr (.inl ⟨hg, ho, fun hb => hb⟩)) fun c report hc => .inl (hreporting c report hc)
    rintro c n (⟨report, hreport, rfl⟩ | hscope)
    · exact .inr ⟨.inl ⟨report, hreporting c report hreport, rfl⟩, rfl, fun hu _ => hu⟩
    · exact .inr ⟨.inr hscope, rfl, fun hu _ => hu⟩
  unfold GracePeriodCoordinator.acceptReport
  split
  case isFalse => exact hsent
  case isTrue hcan =>
    obtain ⟨ht, hid, -⟩ := hcan
    have hready := (h.inflight reporter report hr).2.2 (h.number_eq hr ht hid) ht
    refine ⟨⟨h.counted.completed, h.counted.started⟩, hsent.places.coordinator (fun _ => rfl) fun _ => rfl, h.ok,
      fun c hc => ?_, hsent.held, hsent.enrolled, hsent.inflight⟩
    refine ⟨(h.node c hc).id, fun ht hp => ?_, (h.node c hc).finalizing⟩
    rcases eq_or_ne c report.cpu with rfl | hne
    · exact hready
    · exact (h.node c hc).reported ht ((update_of_ne hne _ _).symm.trans hp)

theorem Inv.step {op : ReaderOp} (h : s.Inv) (hs : s.step op = some s') : s'.Inv := by
  cases op with
  | enter cpu =>
    obtain ⟨t, ht, hs⟩ := bind_eq_some_iff.1 hs
    obtain ⟨-, hs⟩ := ite_none_left_eq_some.1 hs
    obtain rfl := some.inj hs
    refine h.setTask rfl fun guard hg => ?_
    rcases mem_cons.1 hg with rfl | hg
    · exact .inr ⟨rfl, cpu, ht⟩
    · exact .inl hg
  | leave =>
    simp only [Readers.step] at hs
    obtain ⟨t, ht, hs⟩ := bind_eq_some_iff.1 hs
    split at hs
    case h_1 => cases hs
    case h_2 guard guards hguards =>
      obtain rfl := some.inj hs
      exact h.setTask rfl fun g hg => .inl (hguards ▸ mem_cons_of_mem _ hg)
  | unlink =>
    obtain ⟨hcan, hs⟩ := ite_none_right_eq_some.1 hs
    rw [Bool.and_eq_true, List.isEmpty_iff] at hcan
    obtain ⟨s1, hs1, h1, hg1⟩ := h.removeEnrollment hcan.2
    simp only [hs1] at hs
    obtain rfl := some.inj hs
    exact h1.setTask rfl fun g hg => .inl hg
  | cleanup =>
    obtain ⟨t, ht, hs⟩ := bind_eq_some_iff.1 hs
    split at hs
    case isTrue hcan =>
      obtain ⟨s1, hs1, h1, -⟩ := h.removeEnrollment (isEmpty_iff.1 hcan)
      cases hs1.symm.trans hs
      exact h1
    case isFalse =>
      obtain rfl := some.inj hs
      exact h
  | exit =>
    obtain ⟨-, hs⟩ := ite_none_left_eq_some.1 hs
    obtain rfl := some.inj hs
    exact h.setTask rfl fun g hg => absurd hg not_mem_nil
  | noteContextSwitch => exact h.noteContextSwitch hs
  | switchTo => exact h.switchTo hs
  | crossBoundary => exact h.crossBoundary hs
  | observeWatching reporter cpu =>
    obtain ⟨hcan, hs⟩ := ite_none_right_eq_some.1 hs
    obtain rfl := some.inj hs
    rw [Bool.and_eq_true] at hcan
    obtain ⟨hobserved, hunseen⟩ := observeWatching_spec (h.ok cpu) (s.sequence cpu)
    exact h.sendReport hcan.1 hcan.2 hobserved fun _ _ hw => hunseen (by simpa [isWatching] using hw)
  | reportNode reporter cpu =>
    obtain ⟨hcan, hs⟩ := ite_none_right_eq_some.1 hs
    rw [Bool.and_eq_true] at hcan
    have hobserved : Observed (s.nodes cpu) (s.nodes cpu, (s.nodes cpu).readyPeriod) :=
      ⟨.refl (h.ok cpu), rfl, rfl, fun _ hid => hid⟩
    have hsent := h.sendReport hcan.1 hcan.2 hobserved fun _ _ _ hu => hu
    rw [Readers.setNode, update_eq_self] at hsent
    exact some.inj hs ▸ hsent
  | acceptReport =>
    obtain ⟨report, hr, hs⟩ := bind_eq_some_iff.1 hs
    exact some.inj hs ▸ h.acceptReport hr

/-! ## Control of the periods -/

/-- What was entered when `n` periods had started does not outlast the next period: if it is older than the period, the
period waits, and `held` holds. -/
def Since (k : GracePeriodCoordinator) (n : Nat) (held : Prop) : Prop :=
  k.finished ≤ n ∧ n ≤ k.started ∧ (n < k.started → k.TakesReports ∧ held)

/-- A section of the coordinator or of the loop over the nodes. -/
theorem Inv.control (h : s.Inv) (hcounted : k.Counted)
    (hpart : ∀ c, k.isParticipant c = s.isParticipant c) (hok : ∀ c, (nodes c).Ok)
    (hreaders : ∀ c, (nodes c).readers = (s.nodes c).readers)
    (hnode : ∀ c, s.isParticipant c = true → k.NodeInv c (nodes c))
    (hunseen : ∀ c n, s.isParticipant c = true → Since s.coordinator n ((s.nodes c).Unseen (s.sequence c)) →
      Since k n ((nodes c).Unseen (s.sequence c)))
    (hblocks : ∀ c n, s.isParticipant c = true →
      ∀ t ∈ (s.nodes c).readers, Since s.coordinator n (t ∈ (s.nodes c).blockers) → Since k n (t ∈ (nodes c).blockers))
    (hready : ∀ n c, n ≤ s.coordinator.started → n = k.started → k.TakesReports →
      (n = s.coordinator.started → s.coordinator.TakesReports →
        (s.nodes c).readyPeriod = some (s.coordinator.completed + 1)) →
      (nodes c).readyPeriod = some (k.completed + 1)) : Inv { s with nodes, coordinator := k } := by
  refine ⟨hcounted, h.places.coordinator hpart hreaders, hok, fun c hc => hnode c ((hpart c).symm.trans hc),
    fun c n hheld => ?_, fun t c guard hg ho => ?_, fun c report hr => ?_⟩
  · obtain ⟨hc, hw, hsince⟩ := h.held c n hheld
    exact ⟨(hpart c).trans hc, hw, hunseen c n hc hsince⟩
  · exact hblocks c _ (h.places.inside t c ho) t ((h.places.owner t c).1 ho) (h.enrolled t c guard hg ho)
  · obtain ⟨hid, hc, hold⟩ := h.inflight c report hr
    have hle := (h.held c _ (.inl ⟨report, hr, rfl⟩)).2.2.2.1
    exact ⟨hid, (hpart _).trans hc, fun hn ht => hready _ _ hle hn ht hold⟩

theorem Since.eq {n : Nat} {held : Prop} (h : Since k n held) (hk : ¬ k.TakesReports) : n = k.started :=
  Nat.le_antisymm h.2.1 (Nat.le_of_not_lt fun hlt => hk (h.2.2 hlt).1)

/-- The period stays, and what is held up stays. -/
theorem Since.mono {k' : GracePeriodCoordinator} {n : Nat} {held held' : Prop} (h : Since k n held)
    (hf : k'.finished = k.finished) (hs : k'.started = k.started)
    (hheld : k.TakesReports → held → k'.TakesReports ∧ held') :
    Since k' n held' :=
  ⟨hf ▸ h.1, hs ▸ h.2.1, fun hlt => hheld (h.2.2 (hs ▸ hlt)).1 (h.2.2 (hs ▸ hlt)).2⟩

theorem startInitialization_spec (h : s.Inv) (hidle : s.coordinator.phase = .idle) :
    Inv { s with coordinator := { s.coordinator with
      phase := .initializing, pending := s.coordinator.isParticipant, visit := 0, started :=
        s.coordinator.started + 1 } } := by
  have hk : ¬ s.coordinator.TakesReports := by simp [GracePeriodCoordinator.TakesReports, hidle]
  have hstarted : s.coordinator.started = s.coordinator.finished := by simpa [hidle] using h.counted.started
  have hnone : ∀ c, s.isParticipant c = true → (s.nodes c).period = none := by
    intro c hc
    simpa [begun, hidle] using (h.node c hc).id
  refine h.control ⟨h.counted.completed, by simp [hstarted]⟩ (fun _ => rfl) h.ok (fun _ => rfl) (fun c hc => ?_)
    (fun c n hc hsince => ?_) (fun c n hc t ht hsince => ?_) fun n c hle hn => absurd (hn ▸ hle)
      (Nat.not_succ_le_self _)
  · refine ⟨by simp [hnone c hc, begun], fun _ hp => ?_, nofun⟩
    cases hp.symm.trans hc
  · rw [hsince.eq hk]
    refine ⟨Nat.le_of_eq hstarted.symm, Nat.le_succ _, fun _ => ⟨.inl rfl, fun period hp => ?_⟩⟩
    cases (hnone c hc).symm.trans hp
  · rw [hsince.eq hk]
    refine ⟨Nat.le_of_eq hstarted.symm, Nat.le_succ _, fun _ => ⟨.inl rfl, ?_⟩⟩
    simpa [blockers, hnone c hc] using ht

/-- The loop over the nodes has gone on to the next one. -/
abbrev visited (s : Readers) (nodes : Nat → ReaderNode) : Readers :=
  { s with nodes, coordinator := { s.coordinator with visit := s.coordinator.visit + 1 } }

/-- The loop goes on to the next node when the one it visits can be changed, and the change is sound. -/
theorem Inv.visitNode (h : s.Inv) {f : ReaderNode → Option ReaderNode} {k : GracePeriodCoordinator}
    (hk : k = { s.coordinator with visit := s.coordinator.visit + 1 })
    (hother : ∀ c, c ≠ s.coordinator.visit → s.isParticipant c = true → k.NodeInv c (s.nodes c))
    (hvisit : ∀ c, c = s.coordinator.visit → s.isParticipant c = true → ∃ node, f (s.nodes c) = some node ∧ node.Ok ∧
      node.readers = (s.nodes c).readers ∧ k.NodeInv c node ∧
      (s.coordinator.TakesReports → ((s.nodes c).Unseen (s.sequence c) → node.Unseen (s.sequence c)) ∧
        (∀ t ∈ (s.nodes c).blockers, t ∈ node.blockers) ∧ ∀ id,
        (s.nodes c).readyPeriod = some id → node.readyPeriod = some id)) :
    ∃ nodes, s.visitNode f = some (s.visited nodes) ∧ Inv (s.visited nodes) := by
  subst hk
  obtain ⟨nodes, hs, hnodes⟩ : ∃ nodes, s.visitNode f = some (s.visited nodes) ∧
      ∀ c, nodes c = s.nodes c ∧ (s.isParticipant c = true → c ≠ s.coordinator.visit) ∨
        c = s.coordinator.visit ∧ s.isParticipant c = true ∧ f (s.nodes c) = some (nodes c) := by
    generalize hv : s.coordinator.visit = v at hvisit
    cases hp : s.coordinator.isParticipant v with
    | false =>
      refine ⟨s.nodes, by simp [Readers.visitNode, hp, hv], fun c => .inl ⟨rfl, fun hc he => ?_⟩⟩
      cases (he ▸ hc).symm.trans hp
    | true =>
      obtain ⟨node, hnode, -⟩ := hvisit v rfl hp
      refine ⟨update s.nodes v node, by simp [Readers.visitNode, hp, hv, hnode, setNode], fun c => ?_⟩
      rcases eq_or_ne c v with rfl | hne
      · exact .inr ⟨rfl, hp, by rw [update_self, hnode]⟩
      · exact .inl ⟨update_of_ne hne _ _, fun _ => hne⟩
  -- the invariant is one of each node, and only one node has changed
  have hall : ∀ c, (nodes c).Ok ∧ (nodes c).readers = (s.nodes c).readers ∧
      (s.isParticipant c = true → { s.coordinator with visit := s.coordinator.visit + 1 }.NodeInv c (nodes c)) ∧
      (s.coordinator.TakesReports → ((s.nodes c).Unseen (s.sequence c) → (nodes c).Unseen (s.sequence c)) ∧
        (∀ t ∈ (s.nodes c).blockers, t ∈ (nodes c).blockers) ∧
        ∀ id, (s.nodes c).readyPeriod = some id → (nodes c).readyPeriod = some id) := by
    intro c
    rcases hnodes c with ⟨hc, hne⟩ | ⟨hc, hp, hf⟩
    · rw [hc]
      exact ⟨h.ok c, rfl, fun hp => hother c (hne hp) hp, fun _ => ⟨fun hu => hu, fun _ ht => ht, fun _ hid => hid⟩⟩
    · obtain ⟨node, hnode, hok, hreaders, hinv, hkeep⟩ := hvisit c hc hp
      obtain rfl : node = nodes c := some.inj (hnode.symm.trans hf)
      exact ⟨hok, hreaders, fun _ => hinv, hkeep⟩
  refine ⟨nodes, hs, h.control ⟨h.counted.completed, h.counted.started⟩ (fun _ => rfl) (fun c => (hall c).1)
    (fun c => (hall c).2.1) (fun c => (hall c).2.2.1) (fun c n _ hsince => ?_) (fun c n _ t _ hsince => ?_) ?_⟩
  · exact hsince.mono rfl rfl fun ht hu => ⟨ht, ((hall c).2.2.2 ht).1 hu⟩
  · exact hsince.mono rfl rfl fun ht hb => ⟨ht, ((hall c).2.2.2 ht).2.1 t hb⟩
  · exact fun _ c _ hn ht hold => ((hall c).2.2.2 ht).2.2 _ (hold hn ht)

/-- A node has no period before the initializer comes, and takes every reader as a blocker. -/
theorem beginPeriod_spec (h : s.Inv) (hphase : s.coordinator.phase = .initializing) :
    ∃ nodes, s.visitNode (·.beginPeriod (s.coordinator.completed + 1)) = some (s.visited nodes) ∧
      Inv (s.visited nodes) := by
  refine h.visitNode rfl (fun c hne hp => ?_) fun c hc hp => ?_
  · have hlt : c < s.coordinator.visit + 1 ↔ c < s.coordinator.visit := by omega
    refine ⟨?_, (h.node c hp).reported, fun hf => nomatch hphase.symm.trans hf⟩
    simpa [begun, hphase, hlt] using (h.node c hp).id
  · have hnone : (s.nodes c).period = none := by simpa [begun, hphase, hc] using (h.node c hp).id
    have hready : ∀ id, (s.nodes c).readyPeriod ≠ some id := by
      intro id hid
      obtain ⟨-, period, hperiod, -⟩ := readyPeriod_iff.1 hid
      cases hnone.symm.trans hperiod
    refine ⟨⟨[] ++ (s.nodes c).readers, some ⟨s.coordinator.completed + 1, (s.nodes c).readers.head?, none⟩, true⟩,
      by rw [beginPeriod, hnone]; rfl, ok_mk (h.ok c).nodup rfl, rfl, ?_,
      fun _ => ⟨fun _ period hperiod => ?_, fun t ht => ?_, fun id hid => absurd hid (hready id)⟩⟩
    · exact ⟨by simp [begun, hphase, hc], fun ht hpending => absurd ((h.node c hp).reported ht hpending) (hready _),
        fun hf => nomatch hphase.symm.trans hf⟩
    · obtain rfl := some.inj hperiod
      exact ⟨rfl, nofun⟩
    · rw [blockers_mk (by exact (h.ok c).nodup) rfl]
      simpa [blockers, hnone] using ht

theorem finishInitialization_spec (h : s.Inv) (hphase : s.coordinator.phase = .initializing)
    (hvisit : s.coordinator.cpuCount ≤ s.coordinator.visit) :
    Inv { s with coordinator := { s.coordinator with phase := .waiting } } := by
  refine h.control ⟨h.counted.completed, by simpa [hphase] using h.counted.started⟩ (fun _ => rfl) h.ok (fun _ => rfl)
    (fun c hc => ⟨?_, fun _ hp => (h.node c hc).reported (.inl hphase) hp, nofun⟩)
    (fun c n _ hsince => hsince.mono rfl rfl fun _ hu => ⟨.inr rfl, hu⟩)
    (fun c n _ t _ hsince => hsince.mono rfl rfl fun _ hb => ⟨.inr rfl, hb⟩) fun n c _ hn _ hold => hold hn
      (.inl hphase)
  have hlt : c < s.coordinator.visit := Nat.lt_of_lt_of_le (lt_cpuCount hc) hvisit
  simpa [begun, hphase, hlt] using (h.node c hc).id

/-- When every node has reported, nothing from before the period is left. -/
theorem startFinalization_spec (h : s.Inv) (hphase : s.coordinator.phase = .waiting)
    (hpending : (range s.coordinator.cpuCount).any s.coordinator.pending = false) :
    Inv { s with coordinator := { s.coordinator with phase := .finalizing, visit := 0 } } := by
  have hready : ∀ c, s.isParticipant c = true → (s.nodes c).readyPeriod = some (s.coordinator.completed + 1) := by
    intro c hc
    refine (h.node c hc).reported (.inr hphase) ?_
    simpa using any_eq_false.1 hpending c (mem_range.2 (lt_cpuCount hc))
  refine h.control ⟨h.counted.completed, by simpa [hphase] using h.counted.started⟩ (fun _ => rfl) h.ok (fun _ => rfl)
    (fun c hc => ⟨?_, fun ht => ?_, fun _ _ => hready c hc⟩) (fun c n hc hsince => hsince.mono rfl rfl fun _ hu => ?_)
    (fun c n hc t _ hsince => hsince.mono rfl rfl fun _ hb => ?_) fun n c _ _ ht => ?_
  · simpa [begun, hphase] using (h.node c hc).id
  · rcases ht with ht | ht <;> cases ht
  · obtain ⟨hseen, period, hperiod, -⟩ := readyPeriod_iff.1 (hready c hc)
    cases hseen.symm.trans (hu period hperiod).1
  · rw [blockers_of_ready (hready c hc)] at hb
    exact absurd hb not_mem_nil
  · rcases ht with ht | ht <;> cases ht

theorem finishPeriod_spec (h : s.Inv) (hphase : s.coordinator.phase = .finalizing) :
    ∃ nodes, s.visitNode (·.finishPeriod (s.coordinator.completed + 1)) = some (s.visited nodes) ∧
      Inv (s.visited nodes) := by
  have hk : ¬ s.coordinator.TakesReports := by simp [GracePeriodCoordinator.TakesReports, hphase]
  refine h.visitNode rfl (fun c hne hp => ?_) fun c hc hp => ?_
  · have hle : s.coordinator.visit + 1 ≤ c ↔ s.coordinator.visit ≤ c := by omega
    refine ⟨?_, fun ht => absurd ht hk, fun hf hv => (h.node c hp).finalizing hf (hle.1 hv)⟩
    simpa [begun, hphase, hle] using (h.node c hp).id
  · have hready := (h.node c hp).finalizing hphase (Nat.le_of_eq hc.symm)
    have hseen := (readyPeriod_iff.1 hready).1
    refine ⟨{ s.nodes c with period := none }, if_pos hready, ⟨(h.ok c).nodup, nofun, fun hpending => ?_⟩, rfl, ?_,
      fun ht => absurd ht hk⟩
    · cases hseen.symm.trans hpending
    · refine ⟨by simp [begun, hphase, hc], fun ht => absurd ht hk, fun _ hle => ?_⟩
      rw [hc] at hle
      exact absurd hle (Nat.not_succ_le_self _)

theorem finishFinalization_spec (h : s.Inv) (hphase : s.coordinator.phase = .finalizing)
    (hvisit : s.coordinator.cpuCount ≤ s.coordinator.visit) :
    Inv { s with coordinator := { s.coordinator with
      completed := s.coordinator.completed + 1, phase := .idle, finished := s.coordinator.finished + 1 } } := by
  have hk : ¬ s.coordinator.TakesReports := by simp [GracePeriodCoordinator.TakesReports, hphase]
  have hstarted : s.coordinator.started = s.coordinator.finished + 1 := by simpa [hphase] using h.counted.started
  refine h.control ⟨?_, by simpa using hstarted⟩ (fun _ => rfl) h.ok
    (fun _ => rfl) (fun c hc => ⟨?_, fun ht => ?_, nofun⟩)
    (fun c n _ hsince => ?_) (fun c n _ t _ hsince => ?_) fun n c _ _ ht => ?_
  · show s.coordinator.completed + 1 = UInt64.ofNat (s.coordinator.finished + 1)
    rw [h.counted.completed, UInt64.ofNat_add]
    rfl
  · have hlt : ¬ s.coordinator.visit ≤ c := Nat.not_le.2 (Nat.lt_of_lt_of_le (lt_cpuCount hc) hvisit)
    simpa [begun, hphase, hlt] using (h.node c hc).id
  · rcases ht with ht | ht <;> cases ht
  · rw [hsince.eq hk]
    exact ⟨Nat.le_of_eq hstarted.symm, Nat.le_refl _, fun hlt => absurd hlt (Nat.lt_irrefl _)⟩
  · rw [hsince.eq hk]
    exact ⟨Nat.le_of_eq hstarted.symm, Nat.le_refl _, fun hlt => absurd hlt (Nat.lt_irrefl _)⟩
  · rcases ht with ht | ht <;> cases ht

end Readers

end XKernel.Rcu
