import TinyC.Code.Instruction

namespace TinyC

abbrev Word := BitVec 32

namespace Word

-- The word that an unbounded number wraps to.
def ofInt (value : Int) : Word := BitVec.ofInt 32 value

-- All bits are copies of the sign.
def signFill (word : Word) : Word := if word.msb then BitVec.allOnes 32 else 0

def setLowByte (word : Word) (bit : Bool) : Word :=
  (word &&& 0xFFFFFF00#32) ||| (if bit then 1 else 0)

end Word

-- A quotient towards zero, if there is one and it fits in a signed word.
def quotient? (dividend divisor : Int) : Option Int :=
  if divisor = 0 then none
  else
    let quotient := dividend.tdiv divisor
    if -0x80000000 ≤ quotient ∧ quotient < 0x80000000 then some quotient else none

-- The machine of the instructions. The top of the stack comes first.
structure Machine where
  registers : Register → Word
  zeroFlag : Bool
  stack : List Word

namespace Machine

-- The zero flag after an operation that may change it at will.
abbrev FlagEffect := Instruction → Machine → Bool

-- Why a run ends.
inductive Halt where
  | returned (machine : Machine)
  -- A division has no quotient that fits.
  | faulted
  -- The next instruction means nothing, or takes from an empty stack.
  | stuck

def set (machine : Machine) (slot : Register) (word : Word) : Machine :=
  { machine with
    registers := fun other => if other = slot then word else machine.registers other }

def withFlag (machine : Machine) (flag : Bool) : Machine := { machine with zeroFlag := flag }

def value? (machine : Machine) : Operand → Option Word
  | .immediate value => some (Word.ofInt value)
  | .register slot => some (machine.registers slot)
  | .foreign _ => none

-- The signed number in the two registers of a dividend.
def dividend (machine : Machine) : Int :=
  (machine.registers .dividendHigh ++ machine.registers .accumulator).toInt

def divide (machine : Machine) (divisor : Word) : Except Halt Machine :=
  match quotient? machine.dividend divisor.toInt with
  | none => .error .faulted
  | some quotient =>
    .ok ((machine.set .accumulator (Word.ofInt quotient)).set .dividendHigh
      (Word.ofInt (machine.dividend.tmod divisor.toInt)))

def stepUnary (machine : Machine) (flag : Bool) : UnaryOp → Operand → Except Halt Machine
  | .push, operand =>
    match machine.value? operand with
    | none => .error .stuck
    | some word => .ok { machine with stack := word :: machine.stack }
  | .pop, .register slot =>
    match machine.stack with
    | [] => .error .stuck
    | word :: rest => .ok { machine.set slot word with stack := rest }
  | .neg, .register slot => .ok ((machine.set slot (-machine.registers slot)).withFlag flag)
  | .not, .register slot => .ok ((machine.set slot (~~~machine.registers slot)).withFlag flag)
  | .sete, .register slot =>
    .ok (machine.set slot ((machine.registers slot).setLowByte machine.zeroFlag))
  | .idiv, operand =>
    match machine.value? operand with
    | none => .error .stuck
    | some divisor => (machine.divide divisor).map fun machine => machine.withFlag flag
  | _, _ => .error .stuck

def stepBinary (machine : Machine) (flag : Bool) (op : BinaryOp) (source destination : Operand) :
    Except Halt Machine :=
  match machine.value? source, destination with
  | some word, .register slot =>
    match op with
    | .mov => .ok (machine.set slot word)
    | .cmp => .ok (machine.withFlag (machine.registers slot == word))
    | .add => .ok ((machine.set slot (machine.registers slot + word)).withFlag flag)
    | .sub => .ok ((machine.set slot (machine.registers slot - word)).withFlag flag)
    | .imul => .ok ((machine.set slot (machine.registers slot * word)).withFlag flag)
  | _, _ => .error .stuck

-- Directives and labels only stand beside the code.
def step (effect : FlagEffect) (machine : Machine) (instruction : Instruction) :
    Except Halt Machine :=
  match instruction with
  | .directive _ _ => .ok machine
  | .label _ => .ok machine
  | .nullary .ret => .error (.returned machine)
  | .nullary .signExtend =>
    .ok ((machine.set .dividendHigh (machine.registers .accumulator).signFill).withFlag
      (effect instruction machine))
  | .unary op operand => machine.stepUnary (effect instruction machine) op operand
  | .binary op source destination =>
    machine.stepBinary (effect instruction machine) op source destination
  | .foreign _ => .error .stuck

-- Executes instructions in their order, up to one that halts.
def execute (effect : FlagEffect) (instructions : List Instruction) (machine : Machine) :
    Except Halt Machine :=
  instructions.foldlM (step effect) machine

variable (effect : FlagEffect)

@[simp] theorem set_registers_self (machine : Machine) (slot : Register) (word : Word) :
    (machine.set slot word).registers slot = word := by
  simp [set]

theorem set_registers_of_ne (machine : Machine) {slot other : Register} (word : Word)
    (h : other ≠ slot) : (machine.set slot word).registers other = machine.registers other := by
  simp [set, h]

@[simp] theorem set_stack (machine : Machine) (slot : Register) (word : Word) :
    (machine.set slot word).stack = machine.stack := rfl

@[simp] theorem set_zeroFlag (machine : Machine) (slot : Register) (word : Word) :
    (machine.set slot word).zeroFlag = machine.zeroFlag := rfl

@[simp] theorem withFlag_registers (machine : Machine) (flag : Bool) :
    (machine.withFlag flag).registers = machine.registers := rfl

@[simp] theorem withFlag_stack (machine : Machine) (flag : Bool) :
    (machine.withFlag flag).stack = machine.stack := rfl

@[simp] theorem withFlag_zeroFlag (machine : Machine) (flag : Bool) :
    (machine.withFlag flag).zeroFlag = flag := rfl

theorem execute_cons_ok {instruction : Instruction} {machine next : Machine}
    (h : machine.step effect instruction = .ok next) (rest : List Instruction) :
    execute effect (instruction :: rest) machine = execute effect rest next := by
  rw [execute, List.foldlM_cons, h]
  rfl

theorem execute_append_ok {first : List Instruction} {machine next : Machine}
    (h : execute effect first machine = .ok next) (second : List Instruction) :
    execute effect (first ++ second) machine = execute effect second next := by
  unfold execute at h ⊢
  rw [List.foldlM_append, h]
  rfl

theorem execute_append_error {first : List Instruction} {machine : Machine} {halt : Halt}
    (h : execute effect first machine = .error halt) (second : List Instruction) :
    execute effect (first ++ second) machine = .error halt := by
  unfold execute at h ⊢
  rw [List.foldlM_append, h]
  rfl

end Machine

end TinyC
