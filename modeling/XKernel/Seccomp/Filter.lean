import XKernel.Seccomp.Bpf
/-!
# Validated filters and the reference machine

`SeccompFilter::new` and a machine with the meaning of classic BPF: a jump with offset `o` at
index `pc` goes to `pc + 1 + o`. The interpreter follows it exactly as long as it executes no
`BPF_JA`, which it takes to `pc + k`.
-/

namespace XKernel.Seccomp

open XKernel.Lib List Option

/-! ## Validation -/

inductive SeccompFilterError
  | emptyProgram
  | tooManyInstructions
  | invalidInstruction
  deriving DecidableEq, Repr

def bpfMaxinsns : Nat := 4096

/-- The checks of `validate` on the instruction at `pc`. -/
def validInstruction (len pc : Nat) (insn : SockFilter) : Bool :=
  let size := sizeOfCode insn.code
  let mode := modeOf insn.code
  let op := opOf insn.code
  if classOf insn.code = bpfLd ∨ classOf insn.code = bpfLdx then
    if mode = bpfImm ∨ mode = bpfMem ∨ mode = bpfLen then size = bpfW
    else if mode = bpfAbs ∨ mode = bpfInd then size = bpfW ∨ size = bpfH ∨ size = bpfB
    else false
  else if classOf insn.code = bpfSt ∨ classOf insn.code = bpfStx then insn.code = classOf insn.code
  else if classOf insn.code = bpfAlu then
    op ∈ [bpfAdd, bpfSub, bpfMul, bpfDiv, bpfOr, bpfAnd, bpfLsh, bpfRsh, bpfNeg, bpfMod, bpfXor] ∧
      ¬ ((op = bpfDiv ∨ op = bpfMod) ∧ insn.code &&& bpfX = 0 ∧ insn.k = 0)
  else if classOf insn.code = bpfJmp then
    if op = bpfJa then pc + 1 + insn.k.toNat < len
    else op ∈ [bpfJeq, bpfJgt, bpfJge, bpfJset] ∧ pc + 1 + insn.jt.toNat < len ∧ pc + 1 + insn.jf.toNat < len
  else if classOf insn.code = bpfRet then insn.code = bpfRet ||| bpfK ∨ insn.code = bpfRet ||| sizeA
  else if classOf insn.code = bpfMisc then op &&& ~~~bpfX = bpfTax ∨ op &&& ~~~bpfX = bpfTxa
  else false

/-- The loop of `validate`, at index `pc`. -/
def validateFrom (len : Nat) : Nat → List SockFilter → Except SeccompFilterError Unit
  | _, [] => .ok ()
  | pc, insn :: rest =>
      if validInstruction len pc insn then validateFrom len (pc + 1) rest else .error .invalidInstruction

def validate (instructions : List SockFilter) : Except SeccompFilterError Unit :=
  validateFrom instructions.length 0 instructions

variable {instructions : List SockFilter}

theorem validateFrom_eq_ok {len pc : Nat} :
    validateFrom len pc instructions = .ok () ↔
      ∀ i insn, instructions[i]? = some insn → validInstruction len (pc + i) insn = true := by
  induction instructions generalizing pc with
  | nil => simp [validateFrom]
  | cons head rest ih =>
    rw [validateFrom]
    split
    · rename_i hhead
      rw [ih]
      constructor
      · intro hrest i insn hi
        cases i with
        | zero =>
          cases hi
          exact hhead
        | succ i =>
          have := hrest i insn hi
          rwa [show pc + 1 + i = pc + (i + 1) by omega] at this
      · intro hall i insn hi
        have := hall (i + 1) insn hi
        rwa [show pc + (i + 1) = pc + 1 + i by omega] at this
    · rename_i hhead
      constructor
      · intro h
        cases h
      · intro hall
        exact absurd (hall 0 head rfl) hhead

/-- A program that has passed the checks. -/
structure SeccompFilter where
  instructions : List SockFilter
  nonempty : instructions ≠ []
  length_le : instructions.length ≤ bpfMaxinsns
  valid : ∀ pc insn, instructions[pc]? = some insn → validInstruction instructions.length pc insn = true

def SeccompFilter.new (instructions : List SockFilter) : Except SeccompFilterError SeccompFilter :=
  if hempty : instructions = [] then .error .emptyProgram
  else if hlen : instructions.length > bpfMaxinsns then .error .tooManyInstructions
  else
    match hvalid : validate instructions with
    | .error error => .error error
    | .ok () =>
      .ok ⟨instructions, hempty, Nat.le_of_not_gt hlen, fun pc insn h => by
        have := validateFrom_eq_ok.1 hvalid pc insn h
        rwa [Nat.zero_add] at this⟩

theorem SeccompFilter.new_eq_ok {filter : SeccompFilter}
    (h : SeccompFilter.new instructions = .ok filter) : filter.instructions = instructions := by
  unfold SeccompFilter.new at h
  split at h
  · cases h
  split at h
  · cases h
  split at h
  · cases h
  · cases h
    rfl

/-! ## The reference machine -/

inductive Operand
  | abs (width : Nat) (k : UInt32)
  | ind (width : Nat) (k : UInt32)
  | imm (k : UInt32)
  | mem (slot : Fin 16)
  | len
  deriving DecidableEq, Repr

inductive AluOp
  | add | sub | mul | div | or | and | lsh | rsh | neg | mod | xor
  deriving DecidableEq, Repr

inductive Test
  | eq | gt | ge | set
  deriving DecidableEq, Repr

inductive Source
  | k (value : UInt32)
  | x
  deriving DecidableEq, Repr

inductive Instruction
  | load (operand : Operand)
  | loadX (operand : Operand)
  | store (slot : Fin 16)
  | storeX (slot : Fin 16)
  | alu (op : AluOp) (rhs : Source)
  | jump (offset : Nat)
  | branch (test : Test) (rhs : Source) (jt jf : Nat)
  | ret (value : UInt32)
  | retA
  | tax
  | txa
  deriving DecidableEq, Repr

namespace Reference

/-- A little-endian number of the snapshot, zero when it is not inside. -/
def fetch (data : Bytes) (width offset : Nat) : UInt32 :=
  if offset + width ≤ data.length then UInt32.ofNat (Bytes.ofLe ((data.drop offset).take width)) else 0

def operand (data : Bytes) (m : Machine) : Operand → UInt32
  | .abs width k => fetch data width k.toNat
  | .ind width k => fetch data width (m.x + k).toNat
  | .imm k => k
  | .mem slot => m.mem.get slot
  | .len => UInt32.ofNat seccompDataSize

/-- `none`: a division by zero. -/
def alu (a rhs : UInt32) : AluOp → Option UInt32
  | .add => some (a + rhs)
  | .sub => some (a - rhs)
  | .mul => some (a * rhs)
  | .div => if rhs = 0 then none else some (a / rhs)
  | .or => some (a ||| rhs)
  | .and => some (a &&& rhs)
  | .lsh => some (a <<< rhs)
  | .rsh => some (a >>> rhs)
  | .neg => some (-a)
  | .mod => if rhs = 0 then none else some (a % rhs)
  | .xor => some (a ^^^ rhs)

def test (a rhs : UInt32) : Test → Bool
  | .eq => a = rhs
  | .gt => a > rhs
  | .ge => a ≥ rhs
  | .set => a &&& rhs ≠ 0

def source (m : Machine) : Source → UInt32
  | .k value => value
  | .x => m.x

/-- The meaning of one instruction. -/
def step (data : Bytes) (m : Machine) : Instruction → Outcome Machine UInt32
  | .load o => .goes { m with a := operand data m o, pc := m.pc + 1 }
  | .loadX o => .goes { m with x := operand data m o, pc := m.pc + 1 }
  | .store slot => .goes { m with mem := setSlot m.mem slot m.a, pc := m.pc + 1 }
  | .storeX slot => .goes { m with mem := setSlot m.mem slot m.x, pc := m.pc + 1 }
  | .alu op rhs =>
    match alu m.a (source m rhs) op with
    | none => .halts seccompRetKillThread
    | some value => .goes { m with a := value, pc := m.pc + 1 }
  | .jump offset => .goes { m with pc := m.pc + 1 + offset }
  | .branch t rhs jt jf => .goes { m with pc := m.pc + 1 + if test m.a (source m rhs) t then jt else jf }
  | .ret value => .halts value
  | .retA => .halts m.a
  | .tax => .goes { m with x := m.a, pc := m.pc + 1 }
  | .txa => .goes { m with a := m.x, pc := m.pc + 1 }

/-! ### Decoding -/

def widthOf (code : UInt16) : Option Nat :=
  if sizeOfCode code = bpfH then some 2
  else if sizeOfCode code = bpfB then some 1
  else if sizeOfCode code = bpfW then some 4
  else none

def operandOf (insn : SockFilter) : Option Operand :=
  if modeOf insn.code = bpfAbs then (widthOf insn.code).map fun width => .abs width insn.k
  else if modeOf insn.code = bpfInd then (widthOf insn.code).map fun width => .ind width insn.k
  else if modeOf insn.code = bpfImm then some (.imm insn.k)
  else if modeOf insn.code = bpfMem then some (.mem (slot insn.k))
  else if modeOf insn.code = bpfLen then some .len
  else none

def aluOpOf (op : UInt16) : Option AluOp :=
  if op = bpfAdd then some .add
  else if op = bpfSub then some .sub
  else if op = bpfMul then some .mul
  else if op = bpfDiv then some .div
  else if op = bpfOr then some .or
  else if op = bpfAnd then some .and
  else if op = bpfLsh then some .lsh
  else if op = bpfRsh then some .rsh
  else if op = bpfNeg then some .neg
  else if op = bpfMod then some .mod
  else if op = bpfXor then some .xor
  else none

def testOf (op : UInt16) : Option Test :=
  if op = bpfJeq then some .eq
  else if op = bpfJgt then some .gt
  else if op = bpfJge then some .ge
  else if op = bpfJset then some .set
  else none

def sourceOf (insn : SockFilter) : Source := if srcOf insn.code = bpfX then .x else .k insn.k

/-- `none`: not an instruction. -/
def decode (insn : SockFilter) : Option Instruction :=
  if classOf insn.code = bpfLd then (operandOf insn).map .load
  else if classOf insn.code = bpfLdx then (operandOf insn).map .loadX
  else if classOf insn.code = bpfSt then some (.store (slot insn.k))
  else if classOf insn.code = bpfStx then some (.storeX (slot insn.k))
  else if classOf insn.code = bpfAlu then (aluOpOf (opOf insn.code)).map fun op => .alu op (sourceOf insn)
  else if classOf insn.code = bpfJmp then
    if opOf insn.code = bpfJa then some (.jump insn.k.toNat)
    else (testOf (opOf insn.code)).map fun t => .branch t (sourceOf insn) insn.jt.toNat insn.jf.toNat
  else if classOf insn.code = bpfRet then
    if sizeOfCode insn.code = sizeA then some .retA else some (.ret insn.k)
  else if classOf insn.code = bpfMisc then
    if opOf insn.code = bpfTax then some .tax else if opOf insn.code = bpfTxa then some .txa else none
  else none

def execute (data : Bytes) (insn : SockFilter) (m : Machine) : Outcome Machine UInt32 :=
  match decode insn with
  | none => .halts seccompRetKillThread
  | some i => step data m i

/-- The reference machine on a program. -/
def loop (program : List SockFilter) (data : Bytes) : Loop Machine UInt32 where
  exit m := if m.pc < program.length then none else some seccompRetKillThread
  body m :=
    match program[m.pc]? with
    | none => .halts seccompRetKillThread
    | some insn => execute data insn m

end Reference

open Reference hiding execute loop

/-! ## The interpreter against the reference -/

/-- The unconditional jump. -/
def IsJa (insn : SockFilter) : Prop := classOf insn.code = bpfJmp ∧ opOf insn.code = bpfJa

instance (insn : SockFilter) : Decidable (IsJa insn) := inferInstanceAs (Decidable (_ ∧ _))

theorem loadLe_eq (width : Nat) (data : Bytes) (offset : Nat) : loadLe width data offset = fetch data width offset := by
  unfold loadLe Bytes.get fetch
  by_cases h : offset + width ≤ data.length
  · simp [h]
  · simp [h]

theorem loadByte_eq (data : Bytes) (offset : Nat) : loadByte data offset = fetch data 1 offset := by
  unfold loadByte fetch
  cases h : data[offset]? with
  | none =>
    rw [getElem?_eq_none_iff] at h
    rw [if_neg (by omega)]
  | some =>
    obtain ⟨hlt, rfl⟩ := List.getElem?_eq_some_iff.1 h
    rw [if_pos (by omega), drop_eq_getElem_cons hlt, take_succ_cons, take_zero]
    simp [Bytes.ofLe]

theorem loadSized_eq (data : Bytes) (code : UInt16) (offset : Nat) :
    loadSized data code offset = (widthOf code).map fun width => fetch data width offset := by
  unfold loadSized widthOf
  split
  · rw [loadHalf, loadLe_eq, map_some]
  split
  · rw [loadByte_eq, map_some]
  split
  · rw [loadWord, loadLe_eq, map_some]
  · rfl

theorem loadOperand_eq (data : Bytes) (insn : SockFilter) (m : Machine) :
    loadOperand data insn.code insn.k m.x m.mem = (operandOf insn).map (operand data m) := by
  unfold loadOperand operandOf
  simp only [loadSized_eq]
  split
  · rw [Option.map_map]
    rfl
  split
  · rw [Option.map_map]
    rfl
  split
  · rfl
  split
  · rfl
  split <;> rfl

theorem aluOperand_eq (op : UInt16) (a rhs : UInt32) :
    aluOperand op a rhs = (aluOpOf op).bind (alu a rhs) := by
  unfold aluOperand aluOpOf
  simp only [apply_ite (fun o => Option.bind o (alu a rhs)), bind_some, bind_none, alu]

theorem takenOf_eq (op : UInt16) (a rhs : UInt32) :
    takenOf op a rhs = (testOf op).map (test a rhs) := by
  unfold takenOf testOf
  repeat' split
  all_goals rfl

theorem rhsOf_eq (insn : SockFilter) (m : Machine) : rhsOf insn m = source m (sourceOf insn) := by
  unfold rhsOf sourceOf
  split <;> rfl

variable {insn : SockFilter}

/-- Every instruction but the unconditional jump does what the reference machine does. -/
theorem execute_eq (hja : ¬ IsJa insn) (data : Bytes) (m : Machine) :
    execute data insn m = Reference.execute data insn m := by
  unfold execute Reference.execute decode
  by_cases hld : classOf insn.code = bpfLd
  · rw [if_pos (.inl hld), if_pos hld, loadOperand_eq]
    cases operandOf insn with
    | none => rfl
    | some => simp [hld, step]
  by_cases hldx : classOf insn.code = bpfLdx
  · rw [if_pos (.inr hldx), if_neg hld, if_pos hldx, loadOperand_eq]
    cases operandOf insn with
    | none => rfl
    | some => simp [hld, step]
  rw [if_neg (by simp [hld, hldx]), if_neg hld, if_neg hldx]
  split
  · rfl
  split
  · rfl
  split
  · rw [aluOperand_eq, rhsOf_eq]
    cases aluOpOf (opOf insn.code) with
    | none => rfl
    | some => rfl
  split
  · rename_i hjmp
    have hop : opOf insn.code ≠ bpfJa := fun hop => hja ⟨hjmp, hop⟩
    rw [if_neg hop, if_neg hop, takenOf_eq, rhsOf_eq]
    cases testOf (opOf insn.code) with
    | none => rfl
    | some => simp [step, Nat.add_right_comm]
  split
  · split <;> rfl
  split
  · have hk : opOf insn.code &&& ~~~bpfK = opOf insn.code := by simp [bpfK]
    rw [hk]
    split
    · rfl
    split <;> rfl
  · rfl

/-- The unconditional jump is off by one. -/
theorem execute_ja (hja : IsJa insn) (data : Bytes) (m : Machine) :
    execute data insn m = .goes { m with pc := m.pc + insn.k.toNat } ∧
      Reference.execute data insn m = .goes { m with pc := m.pc + 1 + insn.k.toNat } := by
  obtain ⟨hjmp, hop⟩ := hja
  have hdecode : decode insn = some (.jump insn.k.toNat) := by
    simp [decode, hjmp, hop, bpfLd, bpfLdx, bpfSt, bpfStx, bpfAlu, bpfJmp]
  constructor
  · simp [execute, hjmp, hop, bpfLd, bpfLdx, bpfSt, bpfStx, bpfAlu, bpfJmp]
  · rw [Reference.execute, hdecode]
    rfl

/-! ## Where control goes -/

variable {m m' : Machine} {data : Bytes}

/-- An instruction that is no jump leads to the next one. -/
theorem execute_next (hjmp : classOf insn.code ≠ bpfJmp)
    (h : execute data insn m = .goes m') : m'.pc = m.pc + 1 ∧ classOf insn.code ≠ bpfRet := by
  unfold execute at h
  split at h
  · rename_i hload
    refine ⟨?_, fun hret => by simp [hret, bpfRet, bpfLd, bpfLdx] at hload⟩
    split at h
    · cases h
    · split at h <;> cases h <;> rfl
  split at h
  · rename_i hst
    cases h
    exact ⟨rfl, by simp [hst, bpfSt, bpfRet]⟩
  split at h
  · rename_i hstx
    cases h
    exact ⟨rfl, by simp [hstx, bpfStx, bpfRet]⟩
  split at h
  · rename_i halu
    split at h
    · cases h
    · cases h
      exact ⟨rfl, by simp [halu, bpfAlu, bpfRet]⟩
  split at h
  · cases h
  rename_i hret
  refine ⟨?_, hret⟩
  split at h
  · split at h
    · cases h
      rfl
    split at h
    · cases h
      rfl
    · cases h
  · cases h

/-- A conditional jump goes forward by one of its offsets. -/
theorem execute_branch (hjmp : classOf insn.code = bpfJmp)
    (hop : opOf insn.code ≠ bpfJa) (h : execute data insn m = .goes m') :
    m'.pc = m.pc + 1 + insn.jt.toNat ∨ m'.pc = m.pc + 1 + insn.jf.toNat := by
  simp only [execute, hjmp, hop, bpfJmp, bpfLd, bpfLdx, bpfSt, bpfStx, bpfAlu] at h
  simp at h
  split at h
  · cases h
  · rename_i taken _
    cases h
    cases taken
    · exact .inr (by simp; omega)
    · exact .inl (by simp; omega)

/-- A jump of a valid program stays inside, whether or not it is off by one. -/
theorem jump_bounds {len pc : Nat} (hvalid : validInstruction len pc insn = true)
    (hjmp : classOf insn.code = bpfJmp) :
    (opOf insn.code = bpfJa → pc + 1 + insn.k.toNat < len) ∧
      (opOf insn.code ≠ bpfJa → pc + 1 + insn.jt.toNat < len ∧ pc + 1 + insn.jf.toNat < len) := by
  unfold validInstruction at hvalid
  simp only [hjmp, bpfJmp, bpfLd, bpfLdx, bpfSt, bpfStx, bpfAlu] at hvalid
  constructor
  · intro hop
    simpa [hop] using hvalid
  · intro hop
    simp [hop] at hvalid
    omega

/-- Where the instruction at `m.pc` may lead: a jump into the program, any other to the next index. -/
def Lands (program : List SockFilter) (insn : SockFilter) (m m' : Machine) : Prop :=
  classOf insn.code = bpfJmp ∧ m'.pc < program.length ∨
    classOf insn.code ≠ bpfJmp ∧ classOf insn.code ≠ bpfRet ∧ m'.pc = m.pc + 1

variable {program : List SockFilter}

theorem execute_lands
    (hvalid : validInstruction program.length m.pc insn = true) (h : execute data insn m = .goes m') :
    Lands program insn m m' := by
  by_cases hjmp : classOf insn.code = bpfJmp
  · refine .inl ⟨hjmp, ?_⟩
    by_cases hop : opOf insn.code = bpfJa
    · have hk := (jump_bounds hvalid hjmp).1 hop
      cases h.symm.trans (execute_ja ⟨hjmp, hop⟩ data m).1
      dsimp only
      omega
    · obtain ⟨hjt, hjf⟩ := (jump_bounds hvalid hjmp).2 hop
      rcases execute_branch hjmp hop h with hpc | hpc <;> omega
  · obtain ⟨hpc, hret⟩ := execute_next hjmp h
    exact .inr ⟨hjmp, hret, hpc⟩

/-- Every step of the reference machine goes forward, to the end of the program at most. -/
theorem Reference.execute_forward
    (hvalid : validInstruction program.length m.pc insn = true) (hm : m.pc < program.length)
    (h : Reference.execute data insn m = .goes m') : m.pc < m'.pc ∧ m'.pc ≤ program.length := by
  by_cases hja : IsJa insn
  · have hk := (jump_bounds hvalid hja.1).1 hja.2
    cases h.symm.trans (execute_ja hja data m).2
    dsimp only
    omega
  · rw [← execute_eq hja] at h
    by_cases hjmp : classOf insn.code = bpfJmp
    · have hop : opOf insn.code ≠ bpfJa := fun hop => hja ⟨hjmp, hop⟩
      obtain ⟨hjt, hjf⟩ := (jump_bounds hvalid hjmp).2 hop
      rcases execute_branch hjmp hop h with hpc | hpc <;> omega
    · obtain ⟨hpc, -⟩ := execute_next hjmp h
      omega

/-! ## Filters -/

namespace SeccompFilter

variable (filter : SeccompFilter) (data : Bytes)

/-- The machine is at an instruction of the filter, which is valid. -/
theorem exit_eq_none {m : Machine} (h : (runLoop filter.instructions data).exit m = none) :
    ∃ insn, filter.instructions[m.pc]? = some insn ∧ validInstruction filter.instructions.length m.pc insn = true := by
  have hlt : m.pc < filter.instructions.length := by simpa [runLoop] using h
  have hi := getElem?_eq_getElem hlt
  exact ⟨_, hi, filter.valid _ _ hi⟩

/-- The reference machine returns, and executes at most as many instructions as there are. -/
theorem reference_returns :
    ∃ v, (Reference.loop filter.instructions data).run filter.instructions.length .start = some v := by
  refine Loop.exists_run (fun m => m.pc ≤ filter.instructions.length) (fun m => filter.instructions.length - m.pc)
    ?_ ?_ (Nat.zero_le _) (Nat.sub_le _ _)
  · intro m m' hm hexit hbody
    obtain ⟨insn, hi, hvalid⟩ := filter.exit_eq_none data hexit
    have hlt := (List.getElem?_eq_some_iff.1 hi).1
    simp only [Reference.loop, hi] at hbody
    obtain ⟨hforward, hle⟩ := Reference.execute_forward hvalid hlt hbody
    exact ⟨hle, by omega⟩
  · intro m hm hzero
    have hge : ¬ m.pc < filter.instructions.length := by omega
    simp [Reference.loop, hge]

/-- The reference machine executes no unconditional jump. -/
def NoJa : Prop := ∀ n m insn, (Reference.loop filter.instructions data).before n .start = some m →
  filter.instructions[m.pc]? = some insn → ¬ IsJa insn

/-- The interpreter goes through the states of the reference machine, executes at most as many
instructions as the filter has and returns the reference's value. -/
def Conforms : Prop :=
  (∀ n, (runLoop filter.instructions data).before n .start =
    (Reference.loop filter.instructions data).before n .start) ∧
    ∃ v, run filter.instructions.length filter.instructions data = some v ∧
      (Reference.loop filter.instructions data).run filter.instructions.length .start = some v

variable {filter data}

theorem NoJa.conforms (h : NoJa filter data) : Conforms filter data := by
  have hbody : ∀ n m, (Reference.loop filter.instructions data).before n .start = some m →
      (runLoop filter.instructions data).body m = (Reference.loop filter.instructions data).body m := by
    intro n m hm
    simp only [runLoop, Reference.loop]
    cases hi : filter.instructions[m.pc]? with
    | none => rfl
    | some insn => exact execute_eq (h n m insn hm hi) data m
  have hexit : ∀ m, (runLoop filter.instructions data).exit m = (Reference.loop filter.instructions data).exit m :=
    fun _ => rfl
  have hsame := Loop.run_congr hexit hbody
  obtain ⟨v, hv⟩ := filter.reference_returns data
  refine ⟨fun n => (hsame n).2, v, ?_, hv⟩
  rw [run, if_neg (by simp [filter.nonempty]), (hsame _).1, hv]

theorem Conforms.noJa (h : Conforms filter data) : NoJa filter data := by
  intro n m insn hm hi hja
  obtain ⟨hstep, href⟩ := execute_ja hja data m
  have hvalid := filter.valid _ _ hi
  have hk := (jump_bounds hvalid hja.1).1 hja.2
  -- both machines are at the jump, and one round later they are not at the same index
  have hcodeBody : (runLoop filter.instructions data).body m = .goes { m with pc := m.pc + insn.k.toNat } := by
    simp only [runLoop, hi, hstep]
  have hreferenceBody : (Reference.loop filter.instructions data).body m =
      .goes { m with pc := m.pc + 1 + insn.k.toNat } := by
    simp only [Reference.loop, hi, href]
  have hcode := Loop.before_succ ((h.1 n).trans hm) hcodeBody (by simp [runLoop]; omega)
  have hreference := Loop.before_succ hm hreferenceBody (by simp [Reference.loop]; omega)
  have hsame := (hcode.symm.trans (h.1 (n + 1))).trans hreference
  simp only [some.injEq, Machine.mk.injEq] at hsame
  omega

end SeccompFilter

/-- For an accepted program: a jump stays inside, and only behind the last instruction, which
is then no jump and no return, does control leave the program. The interpreter is the
reference machine exactly when that executes no unconditional jump. -/
theorem run_reference (program : List SockFilter) (data : Bytes) (filter : SeccompFilter)
    (h : SeccompFilter.new program = .ok filter) :
    (∀ n m insn m', (runLoop program data).before n .start = some m → program[m.pc]? = some insn →
      execute data insn m = .goes m' → Lands program insn m m') ∧
    (((∀ n, (runLoop program data).before n .start = (Reference.loop program data).before n .start) ∧
        ∃ v, run program.length program data = some v ∧
        (Reference.loop program data).run program.length .start = some v) ↔
      ∀ n m insn, (Reference.loop program data).before n .start = some m → program[m.pc]? = some insn →
      ¬ IsJa insn) := by
  obtain rfl := SeccompFilter.new_eq_ok h
  refine ⟨?_, SeccompFilter.Conforms.noJa, SeccompFilter.NoJa.conforms⟩
  intro n m insn m' _ hi hgoes
  exact execute_lands (filter.valid _ _ hi) hgoes

/-- A filter that lets through the system call 31 only. -/
def sampleProgram : List SockFilter :=
  [⟨0x20, 0, 0, 0⟩, ⟨0x15, 1, 0, 31⟩, ⟨0x06, 0, 0, 0x50001⟩, ⟨0x06, 0, 0, 0x7fff0000⟩]

def accepted (program : List SockFilter) : Bool := (SeccompFilter.new program).toOption.isSome

theorem exists_of_accepted (h : accepted program = true) :
    ∃ filter, SeccompFilter.new program = .ok filter := by
  unfold accepted at h
  cases hnew : SeccompFilter.new program with
  | error => simp [hnew, Except.toOption] at h
  | ok filter => exact ⟨filter, rfl⟩

theorem run_reference_sample : (∃ filter, SeccompFilter.new sampleProgram = .ok filter) ∧
    (Reference.loop sampleProgram (31 :: replicate 63 0)).run 4 .start = run 4 sampleProgram (31 :: replicate 63 0) ∧
    run 4 sampleProgram (31 :: replicate 63 0) = some seccompRetAllow := by
  have haccepted : accepted sampleProgram = true := by decide +kernel
  obtain ⟨filter, hnew⟩ := exists_of_accepted haccepted
  have hja : ∀ insn ∈ sampleProgram, ¬ IsJa insn := by decide +kernel
  obtain ⟨-, v, hrun, href⟩ := (run_reference sampleProgram (31 :: replicate 63 0) filter hnew).2.2
    fun _ _ insn _ hi => hja insn (mem_of_getElem? hi)
  exact ⟨⟨filter, hnew⟩, href.trans hrun.symm, by decide +kernel⟩

/-- An accepted program that never returns, and one whose check is skipped. -/
theorem run_ja_diverges :
    (accepted [⟨0x05, 0, 0, 0⟩, ⟨0x06, 0, 0, 0⟩] = true ∧
      ∀ fuel data, run fuel [⟨0x05, 0, 0, 0⟩, ⟨0x06, 0, 0, 0⟩] data = none) ∧
    accepted [⟨0x05, 0, 0, 1⟩, ⟨0x06, 0, 0, 0x7fff0000⟩, ⟨0x06, 0, 0, 0⟩] = true ∧
      ∀ data, run 3 [⟨0x05, 0, 0, 1⟩, ⟨0x06, 0, 0, 0x7fff0000⟩, ⟨0x06, 0, 0, 0⟩] data = some seccompRetAllow ∧
        (Reference.loop [⟨0x05, 0, 0, 1⟩, ⟨0x06, 0, 0, 0x7fff0000⟩, ⟨0x06, 0, 0, 0⟩] data).run 3 .start =
          some seccompRetKillThread := by
  refine ⟨⟨by decide +kernel, fun fuel data => ?_⟩, by decide +kernel, fun data => ⟨rfl, rfl⟩⟩
  exact Loop.run_stuck rfl rfl fuel

end XKernel.Seccomp
