import XKernel.Lib.Runs
import XKernel.Ext4.JournalBooks
import XKernel.Ext4.JournalRoundTrip
/-!
# Credits

A handle reserves credits for the blocks it may write or revoke. However the sections of the
handles interleave, a block of the running transaction is paid once: the used credits are the
blocks in its two sets, and the reserved ones are the used ones and what the open handles
have left. When each handle is admitted under the limit, the transaction that is frozen has
a bound on its size in the log.
-/

namespace XKernel.Ext4

open XKernel.Lib List Option JournalSuperblock

namespace OpenJournal

variable {s s' : OpenJournal} {op : JournalOp}

/-! ## Admission -/

/-- In the history, `prepare_reservation(credits)` gave `answer`, and no handle was open then or
is since. `post` is the history behind it. -/
def Asked (r : List (OpenJournal × JournalOp) × OpenJournal) (credits : UInt32) (answer : Option TransactionId)
    (post : List (OpenJournal × JournalOp)) : Prop :=
  ∃ pre s₁ j₁, r.1 = pre ++ (s₁, .prepareReservation credits) :: post ∧
    s₁.journal.prepareReservation credits = .ok (answer, j₁) ∧ s₁.handles = [] ∧ (∀ e ∈ post, e.1.handles = []) ∧
    r.2.handles = []

/-- A handle with these credits was admitted: the transaction that `prepare_reservation` asked its
caller to commit, if any, has been committed. -/
def Admitted (r : List (OpenJournal × JournalOp) × OpenJournal) (credits : UInt32) : Prop :=
  ∃ answer post, Asked r credits answer post ∧ ∀ transaction, answer = some transaction →
    ∃ e ∈ post, e.2 = .forceCommit transaction ∧ ∃ q, e.1.journal.forceCommit transaction = .ok q

/-- Every `begin` follows a `prepare_reservation` for the same credits. -/
def Announced (r : List (OpenJournal × JournalOp) × OpenJournal) (op : JournalOp) : Prop :=
  ∀ credits, op = .begin credits → Admitted r credits

/-- What the answer says about the running transaction, as long as no handle is open. -/
def Stands (limit credits : UInt32) (post : List (OpenJournal × JournalOp)) (q : RunningTransaction) :
    Option TransactionId → Prop
  | none => q.state.reservedCredits.toNat + credits.toNat ≤ limit.toNat
  | some transaction => q.id = transaction ∧ ∀ e ∈ post, e.2 = .forceCommit transaction →
      ∀ x, e.1.journal.forceCommit transaction ≠ .ok x

def Answered (limit : UInt32) (r : List (OpenJournal × JournalOp) × OpenJournal) : Prop :=
  ∀ credits answer post, Asked r credits answer post → ∀ q, r.2.journal.running = some q →
    Stands limit credits post q answer

/-- Between two states without open handles, the running transaction is the same or gone. -/
theorem running_of_effect (he : Effect s op s') (hnil : s.handles = []) (hnil' : s'.handles = []) :
    s'.journal.running = s.journal.running ∨ s'.journal.running = none := by
  cases he with
  | moves hi | registers hi | flushes hi | flushFails hi | flushed hi | closes hi | loses hi => simp [hnil] at hi
  | opens | starts => simp at hnil'
  | freezes => exact .inr rfl
  | _ => exact .inl rfl

variable {q : RunningTransaction} {limit : UInt32} {answer : Option TransactionId}

/-- The answer to the question that is the last step. -/
theorem stands_asked {credits : UInt32} {j : JournalTransactions}
    (hlimit : s.journal.maxReservedCredits = limit) (hprep : s.journal.prepareReservation credits = .ok (answer, j))
    (hrun : j.running = some q) : Stands limit credits [] q answer := by
  obtain ⟨⟨c, hj⟩, hstands⟩ := prepareReservation_eq_ok hprep
  subst hj
  have := hstands q hrun
  cases answer with
  | none =>
    rw [← hlimit]
    exact this
  | some => exact ⟨this, fun _ he => absurd he not_mem_nil⟩

variable {first : TransactionId}

/-- The answer still stands behind one more step without handles. -/
theorem Stands.step {credits : UInt32} {post : List (OpenJournal × JournalOp)}
    (hst : Stands limit credits post q answer) (hq : Chain first s) (hs : s.step op = some s')
    (hrun : s.journal.running = some q) (hrun' : s'.journal.running = some q) :
    Stands limit credits (post ++ [(s, op)]) q answer := by
  cases answer with
  | none => exact hst
  | some transaction =>
    refine ⟨hst.1, ?_⟩
    rw [forall_mem_append]
    refine ⟨hst.2, ?_⟩
    -- a commit of the running transaction would have left none
    intro e he hop x hx
    obtain rfl := mem_singleton.1 he
    subst hop
    cases hs
    have hnone := hq.frozen hrun hst.1 hx
    rw [hx] at hrun'
    cases hnone.symm.trans hrun'

variable {es : List (OpenJournal × JournalOp)}

theorem Answered.step (ha : Answered limit (es, s)) (hq : Chain first s)
    (hlimit : s.journal.maxReservedCredits = limit) (hs : s.step op = some s') :
    Answered limit (es ++ [(s, op)], s') := by
  rintro credits answer post ⟨pre, s1, j1, hsplit, hprep, hnil1, hpost, hnil'⟩ q hrun
  rcases eq_nil_or_concat post with rfl | ⟨post, last, rfl⟩
  · -- the step is the question itself
    obtain ⟨-, hlast⟩ := append_inj' hsplit rfl
    obtain ⟨rfl, rfl⟩ : s = s1 ∧ op = .prepareReservation credits := by simpa using hlast
    have hj : s'.journal = j1 := by
      obtain rfl := some.inj hs
      rw [onJournal, hprep]
      rfl
    exact stands_asked hlimit hprep (hj ▸ hrun)
  · have hsplit : es ++ [(s, op)] = (pre ++ (s1, .prepareReservation credits) :: post) ++ [last] := by
      simpa using hsplit
    obtain ⟨hes, hlast⟩ := append_inj' hsplit rfl
    obtain rfl : (s, op) = last := by simpa using hlast
    rw [concat_eq_append, forall_mem_append] at hpost
    have hnil : s.handles = [] := hpost.2 (s, op) (mem_singleton_self _)
    rw [concat_eq_append]
    rcases running_of_effect (effect_of_step hs) hnil hnil' with hsame | hnone
    · have hrun0 : s.journal.running = some q := hsame ▸ hrun
      have hst := ha credits answer post ⟨pre, s1, j1, hes, hprep, hnil1, hpost.1, hnil⟩ q hrun0
      exact hst.step hq hs hrun0 hrun
    · cases hnone.symm.trans hrun

variable {r : List (OpenJournal × JournalOp) × OpenJournal}

/-- A running transaction that a handle was admitted to has room for its credits. -/
theorem Answered.room {credits : UInt32} (ha : Answered limit r)
    (had : Admitted r credits) (hrun : r.2.journal.running = some q) :
    q.state.reservedCredits.toNat + credits.toNat ≤ limit.toNat := by
  obtain ⟨answer, post, hasked, hcommit⟩ := had
  have hst := ha credits answer post hasked q hrun
  cases answer with
  | none => exact hst
  | some transaction =>
    obtain ⟨e, he, hop, x, hx⟩ := hcommit transaction rfl
    exact absurd hx (hst.2 e he hop x)

/-! ## The limit -/

/-- What is reserved, and what has been frozen, is within the limit. -/
structure Within (limit : UInt32) (s : OpenJournal) : Prop where
  limit_eq : s.journal.maxReservedCredits = limit
  running : ∀ r, s.journal.running = some r → r.state.reservedCredits.toNat ≤ limit.toNat
  committing : ∀ c, s.journal.committing = some c →
    c.commit.metadataBlocks.length + c.commit.revokedBlocks.length ≤ limit.toNat

theorem Within.update {id id' : TransactionId} {r r' : RunningTransactionState} (hw : Within limit s)
    (hlimit : s'.journal.maxReservedCredits = s.journal.maxReservedCredits)
    (hr : s.journal.running = some ⟨id, r⟩) (hr' : s'.journal.running = some ⟨id', r'⟩)
    (hcommitting : s'.journal.committing = s.journal.committing)
    (hle : r'.reservedCredits.toNat ≤ max r.reservedCredits.toNat limit.toNat) : Within limit s' := by
  refine ⟨hlimit.trans hw.limit_eq, ?_, fun c hc => hw.committing c (hcommitting ▸ hc)⟩
  intro q hq
  cases hr'.symm.trans hq
  have := hw.running _ hr
  dsimp only at this ⊢
  omega

theorem Within.step (hw : Within limit s) (hb : Books s)
    (ha : Answered limit (es, s)) (hop : Announced (es, s) op) (he : Effect s op s') : Within limit s' := by
  obtain ⟨hlimit, hrunning, hcommitting⟩ := hw
  cases he with
  | moves hi hr hmoved =>
    rw [hlimit] at hmoved
    exact Within.update ⟨hlimit, hrunning, hcommitting⟩ rfl hr rfl rfl hmoved.reserved_le
  | registers hi hr | flushed hi hr =>
      exact Within.update ⟨hlimit, hrunning, hcommitting⟩ rfl hr rfl rfl (le_max_left _ _)
  | @opens credits id r r' hop' _ hr hbegin =>
    obtain ⟨active, reserved, -, hres, rfl⟩ := beginHandle_eq_ok.1 hbegin
    have hroom := ha.room (hop credits hop') hr
    refine ⟨hlimit, ?_, hcommitting⟩
    intro q hq
    cases hq
    dsimp only at hroom ⊢
    omega
  | @starts credits r' _ hfit hr hbegin =>
    obtain ⟨active, reserved, -, hres, rfl⟩ := beginHandle_eq_ok.1 hbegin
    refine ⟨hlimit, ?_, hcommitting⟩
    intro q hq
    cases hq
    rw [hlimit] at hfit
    simpa [hres, RunningTransactionState.new] using hfit
  | closes hi hr hfinish =>
    obtain ⟨active, reserved, -, hres, rfl⟩ := runningFinishHandle_eq_ok.1 hfinish
    exact Within.update ⟨hlimit, hrunning, hcommitting⟩ rfl hr rfl rfl (by simp only; omega)
  | loses hi hfailed => exact (hb.not_lost hi hfailed).elim
  | @freezes id r hr _ _ =>
    refine ⟨hlimit, by rintro _ ⟨⟩, ?_⟩
    intro c hc
    cases hc
    have hbal := hb.balanced _ hr
    have hle := hrunning _ hr
    have hused := hbal.used_eq
    have hreserved := hbal.reserved_eq
    simp only [RunningTransactionState.freeze, BTreeSet.size] at hused hreserved hle ⊢
    omega
  | @commitFlushed frozen covers _ hc =>
    refine ⟨hlimit, hrunning, ?_⟩
    intro c hc'
    cases hc'
    exact hcommitting frozen hc
  | enters => exact ⟨hlimit, hrunning, by rintro _ ⟨⟩⟩
  | _ => exact ⟨hlimit, hrunning, hcommitting⟩

/-! ## The size in the log -/

open JournalSuperblock (divCeil)

theorem divCeil_le {a b n : Nat} (hb : 0 < b) : divCeil a b ≤ n ↔ a ≤ n * b := by
  rw [divCeil, ← Nat.lt_add_one_iff, Nat.div_lt_iff_lt_mul hb, Nat.add_mul]
  omega

/-- Two kinds of blocks in control blocks of at least `d` entries each. -/
theorem log_blocks_le {m r limit d d1 d2 : Nat} (hd : 0 < d) (h1 : d ≤ d1) (h2 : d ≤ d2) (hle : m + r ≤ limit) :
    m + divCeil m d1 + divCeil r d2 + 1 ≤ limit + divCeil limit d + 1 := by
  have hq : limit ≤ divCeil limit d * d := (divCeil_le hd).1 le_rfl
  have hr : divCeil r d2 ≤ divCeil r d := by
    rw [divCeil_le (by omega)]
    exact ((divCeil_le hd).1 le_rfl).trans (Nat.mul_le_mul_left _ h2)
  have hm : divCeil m d1 ≤ divCeil m d := by
    rw [divCeil_le (by omega)]
    exact ((divCeil_le hd).1 le_rfl).trans (Nat.mul_le_mul_left _ h1)
  rcases Nat.eq_zero_or_pos r with rfl | hpos
  · have hzero : divCeil 0 d = 0 := Nat.le_zero.1 ((divCeil_le hd).2 (by simp))
    have hmono : divCeil m d ≤ divCeil limit d := (divCeil_le hd).2 (by omega)
    omega
  · -- the last descriptor may be short, but then a block less is logged
    have hsum : divCeil m d + divCeil r d ≤ divCeil limit d + 1 := by
      rcases Nat.eq_zero_or_pos (divCeil m d) with hzero | hcm
      · have : divCeil r d ≤ divCeil limit d := (divCeil_le hd).2 (by omega)
        omega
      · have hlow : (divCeil m d - 1) * d < m := by
          rw [← Nat.not_le, ← divCeil_le hd]
          omega
        have hmle : divCeil m d ≤ divCeil limit d := (divCeil_le hd).2 (by omega)
        have hrle : divCeil r d ≤ divCeil limit d - (divCeil m d - 1) := by
          rw [divCeil_le hd, Nat.sub_mul]
          omega
        omega
    omega

/-- However the sections of any number of handles interleave, the two sets of the running
transaction are disjoint, its used credits are their sizes, and its reserved credits are the
used ones and what the open handles have left. When every handle is admitted, the
transaction that is frozen takes a bounded number of log blocks. -/
theorem run_credits (first : TransactionId) (limit : UInt32) :
    (∀ s, Run step (fun _ _ => True) (new first limit) s → ∀ running, s.journal.running = some running →
      (∀ b ∈ running.state.metadataBlocks, b ∉ running.state.revokedBlocks) ∧
      running.state.usedCredits.toNat = running.state.metadataBlocks.size + running.state.revokedBlocks.size ∧
      running.state.reservedCredits.toNat = running.state.usedCredits.toNat +
        (s.handles.map fun h => h.handle.remainingCredits.toNat).sum) ∧
    ∀ es s, Run (recorded step) Announced ([], new first limit) (es, s) → ∀ frozen, s.journal.committing = some frozen →
      ∀ (sb : JournalSuperblock) start blocks log writes,
        sb.writeJournalCommit start frozen.commit blocks = .ok (log, writes) →
        ∃ d r, sb.descriptorTagCapacity sb.blockSize = .ok d ∧ sb.revokeBlockCapacity sb.blockSize = .ok r ∧
          writes.length ≤ limit.toNat + divCeil limit.toNat (min d r) + 1 := by
  constructor
  · intro s hrun running hr
    have hb := hrun.inv Books (new_books first limit) fun _ _ _ hb _ hs => hb.step (effect_of_step hs)
    have hbal := hb.balanced running hr
    exact ⟨hbal.disjoint, hbal.used_eq, hbal.reserved_eq⟩
  · intro es s hrun frozen hc sb start blocks log writes hw
    have hinv := hrun.inv (fun r => (Books r.2 ∧ Chain first r.2) ∧ Answered limit r ∧ Within limit r.2)
      ⟨⟨new_books first limit, new_chain first limit⟩, (fun _ _ _ _ _ hr => by cases hr), rfl,
        (fun _ hr => by cases hr), fun _ hc => by cases hc⟩ (by
        rintro ⟨es, s⟩ op ⟨es', s'⟩ ⟨⟨hb, hq⟩, ha, hw⟩ hop hst
        obtain ⟨rfl, hs⟩ := recorded_eq_some.1 hst
        have he := effect_of_step hs
        exact ⟨⟨hb.step he, hq.step hb he⟩, ha.step hq hw.limit_eq hs, hw.step hb ha hop he⟩)
    have hsize := hinv.2.2.committing frozen hc
    obtain ⟨img, himg⟩ := writeJournalCommit_spec hw
    obtain ⟨_, -, hreq⟩ := bind_eq_ok.1 himg.required
    obtain ⟨total, htotal, hreq⟩ := bind_eq_ok.1 hreq
    obtain ⟨_, -, hreq⟩ := bind_eq_ok.1 hreq
    obtain ⟨-, -, d, r, hd, hr, hcount⟩ := journalLogBlocksForCounts_spec htotal
    refine ⟨d, r, hd, hr, ?_⟩
    obtain ⟨-, -, hdpos, -⟩ := descriptorTagCapacity_spec hd
    obtain ⟨-, -, hrpos, -⟩ := revokeBlockCapacity_spec hr
    have hlen : writes.length = total := by
      rw [himg.writes_eq, Ring.length_place]
      exact (Except.ok.inj hreq).symm
    rw [hlen, hcount]
    exact log_blocks_le (by omega) (min_le_left d r) (min_le_right d r) hsize

/-- The state after a step that is possible. -/
def sampleStep (s : OpenJournal) (op : JournalOp) : OpenJournal := (s.step op).getD s

theorem sampleRun (op : JournalOp)
    (hrun : Run (recorded step) Announced r (es, s)) (hop : Announced (es, s) op) (h : (s.step op).isSome = true) :
    Run (recorded step) Announced r (es ++ [(s, op)], sampleStep s op) := by
  obtain ⟨s', hs⟩ := isSome_iff_exists.1 h
  refine hrun.snoc hop (recorded_eq_some.2 ⟨rfl, ?_⟩)
  rw [sampleStep, hs, getD_some]

/-- A handle with four credits, after it has taken block 7. -/
def sampleTaken : OpenJournal :=
  sampleStep (sampleStep (sampleStep (new 5 4) (.prepareReservation 4)) (.begin 4)) (.consumeMetadataCredit 0 7)

def sampleFrozen : OpenJournal := sampleStep (sampleStep sampleTaken (.stop 0)) (.forceCommit 5)

theorem run_credits_sample :
    (∃ running, sampleTaken.journal.running = some running ∧ running.state.reservedCredits.toNat =
      running.state.usedCredits.toNat + (sampleTaken.handles.map fun h => h.handle.remainingCredits.toNat).sum) ∧
    ∃ frozen log writes d r, sampleFrozen.journal.committing = some frozen ∧
      sampleRevoke.writeJournalCommit 1022 frozen.commit [⟨7, zeros 1024⟩] = .ok (log, writes) ∧
      sampleRevoke.descriptorTagCapacity 1024 = .ok d ∧
      sampleRevoke.revokeBlockCapacity 1024 = .ok r ∧ writes.length ≤ 4 + divCeil 4 (min d r) + 1 := by
  have hasked : Announced ([(new 5 4, .prepareReservation 4)], sampleStep (new 5 4) (.prepareReservation 4))
      (.begin 4) := by
    intro credits heq
    cases heq
    exact ⟨none, [], ⟨[], new 5 4, (new 5 4).journal, rfl, rfl, rfl, fun _ he => absurd he not_mem_nil, rfl⟩,
      nofun⟩
  have hrun : Run (recorded step) Announced ([], new 5 4) ([], new 5 4) := .nil
  have hrun := sampleRun (.prepareReservation 4) hrun nofun (by decide +kernel)
  have hrun := sampleRun (.begin 4) hrun hasked (by decide +kernel)
  have hrun := sampleRun (.consumeMetadataCredit 0 7) hrun nofun (by decide +kernel)
  have htaken := hrun.of_recorded
  have hrun := sampleRun (.stop 0) hrun nofun (by decide +kernel)
  have hrun := sampleRun (.forceCommit 5) hrun nofun (by decide +kernel)
  constructor
  · have hsome : sampleTaken.journal.running.isSome = true := by decide +kernel
    obtain ⟨running, hr⟩ := isSome_iff_exists.1 hsome
    exact ⟨running, hr, ((run_credits 5 4).1 _ htaken running hr).2.2⟩
  · have hfrozen : sampleFrozen.journal.committing = some ⟨⟨5, [7], []⟩, false⟩ := by decide +kernel
    have hok : (sampleRevoke.writeJournalCommit 1022 ⟨5, [7], []⟩ [⟨7, zeros 1024⟩]).toOption.isSome = true := by
      decide +kernel
    cases hw : sampleRevoke.writeJournalCommit 1022 ⟨5, [7], []⟩ [⟨7, zeros 1024⟩] with
    | error => simp [hw, Except.toOption] at hok
    | ok q =>
      obtain ⟨d, r, hd, hr, hle⟩ := (run_credits 5 4).2 _ _ hrun _ hfrozen _ _ _ q.1 q.2 hw
      exact ⟨_, q.1, q.2, d, r, hfrozen, hw, hd, hr, hle⟩

end OpenJournal

end XKernel.Ext4
