import TinyC.Assembly.Render
import TinyC.Proofs.Code.Machine

namespace TinyC

-- The content of a whole register.
abbrev Quad := BitVec 64

namespace Quad

def low (quad : Quad) : Word := quad.setWidth 32

-- A write to the lower half clears the upper half.
def ofLow (word : Word) : Quad := word.setWidth 64

-- A write to the low byte keeps the other bytes.
def setLowByte (quad : Quad) (bit : Bool) : Quad :=
  (quad &&& 0xFFFFFFFFFFFFFF00#64) ||| (if bit then 1 else 0)

@[simp] theorem low_ofLow (word : Word) : (ofLow word).low = word := by
  simp [low, ofLow]

theorem low_setLowByte (quad : Quad) (bit : Bool) :
    (quad.setLowByte bit).low = quad.low.setLowByte bit := by
  simp only [low, setLowByte, Word.setLowByte, BitVec.setWidth_or, BitVec.setWidth_and]
  cases bit <;> rfl

end Quad

inductive QuadRegister where
  | rax
  | rcx
  | rdx
  | rsi
deriving DecidableEq, Repr

inductive Mnemonic where
  | ret
  | cltd
  | pushq
  | popq
  | negl
  | notl
  | sete
  | idivl
  | movl
  | cmpl
  | addl
  | subl
  | imull
deriving DecidableEq, Repr

-- The processor that the text is for. The slots of the stack are given from its top, where the
-- stack pointer points.
structure Processor where
  registers : QuadRegister → Quad
  zeroFlag : Bool
  stackPointer : BitVec 64
  stack : List Quad

namespace Processor

inductive Operand where
  | immediate (word : Word)
  | register (width : Width) (quad : QuadRegister)
deriving DecidableEq, Repr

-- What a line says. Labels, directives and blank lines do nothing when they are reached.
inductive Statement where
  | aside
  | operation (mnemonic : Mnemonic) (operands : List Operand)
deriving DecidableEq, Repr

-- The zero flag after an operation that may change it at will.
abbrev FlagEffect := Statement → Processor → Bool

-- Why a run ends.
inductive Halt where
  | returned (processor : Processor)
  -- A division has no quotient that fits.
  | faulted
  -- The operands are none that the operation takes, or the stack is empty.
  | stuck

def set (processor : Processor) (register : QuadRegister) (quad : Quad) : Processor :=
  { processor with
    registers := fun other => if other = register then quad else processor.registers other }

def withFlag (processor : Processor) (flag : Bool) : Processor :=
  { processor with zeroFlag := flag }

-- The lower half of a register.
def long (processor : Processor) (register : QuadRegister) : Word :=
  (processor.registers register).low

def setLong (processor : Processor) (register : QuadRegister) (word : Word) : Processor :=
  processor.set register (Quad.ofLow word)

def long? (processor : Processor) : Operand → Option Word
  | .immediate word => some word
  | .register .long register => some (processor.long register)
  | .register _ _ => none

-- The stack grows downwards, a slot for eight bytes.
def push (processor : Processor) (quad : Quad) : Processor :=
  { processor with
    stackPointer := processor.stackPointer - 8
    stack := quad :: processor.stack }

def pop (processor : Processor) (register : QuadRegister) : Except Halt Processor :=
  match processor.stack with
  | [] => .error .stuck
  | quad :: rest =>
    .ok { processor.set register quad with
      stackPointer := processor.stackPointer + 8
      stack := rest }

-- The signed number in `edx:eax`.
def dividend (processor : Processor) : Int := (processor.long .rdx ++ processor.long .rax).toInt

def divide (processor : Processor) (divisor : Word) : Except Halt Processor :=
  match quotient? processor.dividend divisor.toInt with
  | none => .error .faulted
  | some quotient =>
    .ok ((processor.setLong .rax (Word.ofInt quotient)).setLong .rdx
      (Word.ofInt (processor.dividend.tmod divisor.toInt)))

-- Operations that read a source and may write the lower half of a register.
def stepBinary (processor : Processor) (flag : Bool) (mnemonic : Mnemonic) (source : Operand)
    (register : QuadRegister) : Except Halt Processor :=
  match processor.long? source with
  | none => .error .stuck
  | some word =>
    let old := processor.long register
    match mnemonic with
    | .movl => .ok (processor.setLong register word)
    | .cmpl => .ok (processor.withFlag (old == word))
    | .addl => .ok ((processor.setLong register (old + word)).withFlag flag)
    | .subl => .ok ((processor.setLong register (old - word)).withFlag flag)
    | .imull => .ok ((processor.setLong register (old * word)).withFlag flag)
    | _ => .error .stuck

-- The width of each operand must be the one that the operation works on.
def stepOperation (processor : Processor) (flag : Bool) (mnemonic : Mnemonic)
    (operands : List Operand) : Except Halt Processor :=
  match mnemonic, operands with
  | .ret, [] => .error (.returned processor)
  | .cltd, [] => .ok ((processor.setLong .rdx (processor.long .rax).signFill).withFlag flag)
  | .pushq, [.register .quad register] => .ok (processor.push (processor.registers register))
  | .popq, [.register .quad register] => processor.pop register
  | .negl, [.register .long register] =>
    .ok ((processor.setLong register (-processor.long register)).withFlag flag)
  | .notl, [.register .long register] =>
    .ok ((processor.setLong register (~~~processor.long register)).withFlag flag)
  | .sete, [.register .byte register] =>
    .ok (processor.set register ((processor.registers register).setLowByte processor.zeroFlag))
  | .idivl, [.register .long register] =>
    (processor.divide (processor.long register)).map fun processor => processor.withFlag flag
  | mnemonic, [source, .register .long register] =>
    processor.stepBinary flag mnemonic source register
  | _, _ => .error .stuck

def step (effect : FlagEffect) (processor : Processor) (statement : Statement) :
    Except Halt Processor :=
  match statement with
  | .aside => .ok processor
  | .operation mnemonic operands =>
    processor.stepOperation (effect statement processor) mnemonic operands

-- Executes statements in their order, up to one that halts.
def execute (effect : FlagEffect) (statements : List Statement) (processor : Processor) :
    Except Halt Processor :=
  statements.foldlM (step effect) processor

variable (effect : FlagEffect)

@[simp] theorem set_registers_self (processor : Processor) (register : QuadRegister) (quad : Quad) :
    (processor.set register quad).registers register = quad := by
  simp [set]

theorem set_registers_of_ne (processor : Processor) {register other : QuadRegister} (quad : Quad)
    (h : other ≠ register) :
    (processor.set register quad).registers other = processor.registers other := by
  simp [set, h]

theorem execute_append_ok {first : List Statement} {processor next : Processor}
    (h : execute effect first processor = .ok next) (second : List Statement) :
    execute effect (first ++ second) processor = execute effect second next := by
  unfold execute at h ⊢
  rw [List.foldlM_append, h]
  rfl

theorem execute_append_error {first : List Statement} {processor : Processor} {halt : Halt}
    (h : execute effect first processor = .error halt) (second : List Statement) :
    execute effect (first ++ second) processor = .error halt := by
  unfold execute at h ⊢
  rw [List.foldlM_append, h]
  rfl

end Processor

end TinyC
