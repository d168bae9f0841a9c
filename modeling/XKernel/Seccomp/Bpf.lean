import XKernel.Lib.Bytes
import XKernel.Lib.Loop
/-!
# The classic-BPF interpreter of seccomp filters

`bpf::run` over a data snapshot. A word of the snapshot is little-endian; the program counter
is never negative and does not overflow, so it is a `Nat`.
-/

namespace XKernel.Seccomp

open XKernel.Lib

/-! ## Instruction encoding -/

def bpfLd : UInt16 := 0x00
def bpfLdx : UInt16 := 0x01
def bpfSt : UInt16 := 0x02
def bpfStx : UInt16 := 0x03
def bpfAlu : UInt16 := 0x04
def bpfJmp : UInt16 := 0x05
def bpfRet : UInt16 := 0x06
def bpfMisc : UInt16 := 0x07

def bpfW : UInt16 := 0x00
def bpfH : UInt16 := 0x08
def bpfB : UInt16 := 0x10

/-- `BPF_RET|BPF_A`: the accumulator is returned. -/
def sizeA : UInt16 := 0x10

def bpfImm : UInt16 := 0x00
def bpfAbs : UInt16 := 0x20
def bpfInd : UInt16 := 0x40
def bpfMem : UInt16 := 0x60
def bpfLen : UInt16 := 0x80

def bpfK : UInt16 := 0x00
def bpfX : UInt16 := 0x08
def bpfAdd : UInt16 := 0x00
def bpfSub : UInt16 := 0x10
def bpfMul : UInt16 := 0x20
def bpfDiv : UInt16 := 0x30
def bpfOr : UInt16 := 0x40
def bpfAnd : UInt16 := 0x50
def bpfLsh : UInt16 := 0x60
def bpfRsh : UInt16 := 0x70
def bpfNeg : UInt16 := 0x80
def bpfMod : UInt16 := 0x90
def bpfXor : UInt16 := 0xa0
def bpfJa : UInt16 := 0x00
def bpfJeq : UInt16 := 0x10
def bpfJgt : UInt16 := 0x20
def bpfJge : UInt16 := 0x30
def bpfJset : UInt16 := 0x40
def bpfTax : UInt16 := 0x00
def bpfTxa : UInt16 := 0x80

variable (data : Bytes) (code : UInt16) (offset : Nat)

def classOf : UInt16 := code &&& 0x07
def sizeOfCode : UInt16 := code &&& 0x18
def modeOf : UInt16 := code &&& 0xe0
def opOf : UInt16 := code &&& 0xf0
def srcOf : UInt16 := code &&& 0x08

structure SockFilter where
  code : UInt16
  jt : UInt8
  jf : UInt8
  k : UInt32
  deriving DecidableEq, Repr

def seccompDataSize : Nat := 64

def seccompRetKillThread : UInt32 := 0x00000000
def seccompRetAllow : UInt32 := 0x7fff0000

/-! ## Operands -/

/-- A number of `width` bytes, zero when it is not inside the snapshot. -/
def loadLe (width : Nat) (data : Bytes) (offset : Nat) : UInt32 :=
  match Bytes.get width offset data with
  | none => 0
  | some bytes => UInt32.ofNat (Bytes.ofLe bytes)

def loadWord : UInt32 := loadLe 4 data offset

def loadHalf : UInt32 := loadLe 2 data offset

def loadByte : UInt32 :=
  match data[offset]? with
  | none => 0
  | some byte => byte.toUInt32

/-- The scratch slot `k & 0xf`. -/
def slot (k : UInt32) : Fin 16 := ⟨(k &&& 0xf).toNat, by
  have : (15 : UInt32).toNat = 15 := rfl
  rw [UInt32.toNat_and, this]
  exact Nat.lt_succ_of_le Nat.and_le_right⟩

def setSlot (mem : Vector UInt32 16) (slot : Fin 16) (value : UInt32) : Vector UInt32 16 := mem.set slot value

/-- `load` inside `load_operand`: `none` for an unknown size. -/
def loadSized : Option UInt32 :=
  if sizeOfCode code = bpfH then some (loadHalf data offset)
  else if sizeOfCode code = bpfB then some (loadByte data offset)
  else if sizeOfCode code = bpfW then some (loadWord data offset)
  else none

def loadOperand (k x : UInt32) (mem : Vector UInt32 16) : Option UInt32 :=
  if modeOf code = bpfAbs then loadSized data code k.toNat
  else if modeOf code = bpfInd then loadSized data code (x + k).toNat
  else if modeOf code = bpfImm then some k
  else if modeOf code = bpfMem then some (mem.get (slot k))
  else if modeOf code = bpfLen then some (UInt32.ofNat seccompDataSize)
  else none

/-- `none` for a division by zero and for an unknown operator. Shifts take the amount modulo 32. -/
def aluOperand (op : UInt16) (a rhs : UInt32) : Option UInt32 :=
  if op = bpfAdd then some (a + rhs)
  else if op = bpfSub then some (a - rhs)
  else if op = bpfMul then some (a * rhs)
  else if op = bpfDiv then if rhs = 0 then none else some (a / rhs)
  else if op = bpfOr then some (a ||| rhs)
  else if op = bpfAnd then some (a &&& rhs)
  else if op = bpfLsh then some (a <<< rhs)
  else if op = bpfRsh then some (a >>> rhs)
  else if op = bpfNeg then some (-a)
  else if op = bpfMod then if rhs = 0 then none else some (a % rhs)
  else if op = bpfXor then some (a ^^^ rhs)
  else none

/-! ## The machine -/

/-- The local variables of `run`. -/
structure Machine where
  a : UInt32
  x : UInt32
  mem : Vector UInt32 16
  pc : Nat
  deriving DecidableEq, Repr

def Machine.start : Machine := ⟨0, 0, .replicate 16 0, 0⟩

def defaultReturn : UInt32 := seccompRetKillThread

/-- The second operand of an arithmetic instruction or a conditional jump. -/
def rhsOf (insn : SockFilter) (m : Machine) : UInt32 := if srcOf insn.code = bpfX then m.x else insn.k

/-- Whether a conditional jump is taken: `none` for an unknown operator. -/
def takenOf (op : UInt16) (a rhs : UInt32) : Option Bool :=
  if op = bpfJeq then some (a = rhs)
  else if op = bpfJgt then some (a > rhs)
  else if op = bpfJge then some (a ≥ rhs)
  else if op = bpfJset then some (a &&& rhs ≠ 0)
  else none

/-- The body of the loop in `run`. -/
def execute (insn : SockFilter) (m : Machine) : Outcome Machine UInt32 :=
  if classOf insn.code = bpfLd ∨ classOf insn.code = bpfLdx then
    match loadOperand data insn.code insn.k m.x m.mem with
    | none => .halts defaultReturn
    | some value =>
      if classOf insn.code = bpfLd then .goes { m with a := value, pc := m.pc + 1 }
      else .goes { m with x := value, pc := m.pc + 1 }
  else if classOf insn.code = bpfSt then .goes { m with mem := setSlot m.mem (slot insn.k) m.a, pc := m.pc + 1 }
  else if classOf insn.code = bpfStx then .goes { m with mem := setSlot m.mem (slot insn.k) m.x, pc := m.pc + 1 }
  else if classOf insn.code = bpfAlu then
    match aluOperand (opOf insn.code) m.a (rhsOf insn m) with
    | none => .halts defaultReturn
    | some value => .goes { m with a := value, pc := m.pc + 1 }
  else if classOf insn.code = bpfJmp then
    -- this jump continues the loop before the counter is advanced
    if opOf insn.code = bpfJa then .goes { m with pc := m.pc + insn.k.toNat }
    else
      match takenOf (opOf insn.code) m.a (rhsOf insn m) with
      | none => .halts defaultReturn
      | some taken => .goes { m with pc := m.pc + (if taken then insn.jt.toNat else insn.jf.toNat) + 1 }
  else if classOf insn.code = bpfRet then .halts (if sizeOfCode insn.code = sizeA then m.a else insn.k)
  else if classOf insn.code = bpfMisc then
    if opOf insn.code &&& ~~~bpfK = bpfTax then .goes { m with x := m.a, pc := m.pc + 1 }
    else if opOf insn.code &&& ~~~bpfK = bpfTxa then .goes { m with a := m.x, pc := m.pc + 1 }
    else .halts defaultReturn
  else .halts defaultReturn

/-- The loop of `run`. -/
def runLoop (program : List SockFilter) (data : Bytes) : Loop Machine UInt32 where
  exit m := if m.pc < program.length then none else some defaultReturn
  body m :=
    match program[m.pc]? with
    | none => .halts defaultReturn
    | some insn => execute data insn m

/-- The value that `run` returns, when it executes at most `fuel` instructions. -/
def run (fuel : Nat) (program : List SockFilter) (data : Bytes) : Option UInt32 :=
  if program.isEmpty then some defaultReturn else (runLoop program data).run fuel .start

end XKernel.Seccomp
