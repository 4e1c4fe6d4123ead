import TinyC.Numeral
import TinyC.Text.Basic

namespace TinyC

-- The slots for values that generated code computes with.
inductive Register where
  -- The value computed last.
  | accumulator
  -- The left operand of a binary operator, taken back from the stack.
  | scratch
  -- The upper half of a dividend, whose lower half is in the accumulator.
  | dividendHigh
  | divisor
deriving DecidableEq, Repr

namespace Register

def all : List Register := [accumulator, scratch, dividendHigh, divisor]

def name : Register → String
  | accumulator => "accumulator"
  | scratch => "scratch"
  | dividendHigh => "dividend_high"
  | divisor => "divisor"

def tag : Register → String
  | accumulator => "ACCUMULATOR"
  | scratch => "SCRATCH"
  | dividendHigh => "DIVIDEND_HIGH"
  | divisor => "DIVISOR"

end Register

inductive Operand where
  | immediate (value : Int)
  | register (slot : Register)
  -- Something that is no operand of the machine, and how it reads.
  | foreign (text : String)
deriving DecidableEq, Repr

-- Operations without operands.
inductive NullaryOp where
  | ret
  -- Widens the accumulator into the dividend.
  | signExtend
deriving DecidableEq, Repr

inductive UnaryOp where
  | push
  | pop
  | neg
  | not
  -- One or zero, as the last comparison found its operands equal or not.
  | sete
  | idiv
deriving DecidableEq, Repr

-- Operations with a source and a destination.
inductive BinaryOp where
  | mov
  | cmp
  | add
  | sub
  | imul
deriving DecidableEq, Repr

inductive Op where
  | nullary (op : NullaryOp)
  | unary (op : UnaryOp)
  | binary (op : BinaryOp)
deriving DecidableEq, Repr

namespace Op

def all : List Op :=
  [nullary .ret, nullary .signExtend, unary .push, unary .pop, unary .neg, unary .not, unary .sete,
   unary .idiv, binary .mov, binary .cmp, binary .add, binary .sub, binary .imul]

def arity : Op → Nat
  | nullary _ => 0
  | unary _ => 1
  | binary _ => 2

def name : Op → String
  | nullary .ret => "ret"
  | nullary .signExtend => "sign_extend"
  | unary .push => "push"
  | unary .pop => "pop"
  | unary .neg => "neg"
  | unary .not => "not"
  | unary .sete => "sete"
  | unary .idiv => "idiv"
  | binary .mov => "mov"
  | binary .cmp => "cmp"
  | binary .add => "add"
  | binary .sub => "sub"
  | binary .imul => "imul"

def tag : Op → String
  | nullary .ret => "RET"
  | nullary .signExtend => "SIGN_EXTEND"
  | unary .push => "PUSH"
  | unary .pop => "POP"
  | unary .neg => "NEG"
  | unary .not => "NOT"
  | unary .sete => "SETE"
  | unary .idiv => "IDIV"
  | binary .mov => "MOV"
  | binary .cmp => "CMP"
  | binary .add => "ADD"
  | binary .sub => "SUB"
  | binary .imul => "IMUL"

end Op

inductive DirectiveKind where
  -- What follows is code.
  | text
  -- A symbol is visible to other files.
  | globl
deriving DecidableEq, Repr

namespace DirectiveKind

def all : List DirectiveKind := [text, globl]

def name : DirectiveKind → String
  | text => "text"
  | globl => "globl"

def tag : DirectiveKind → String
  | text => "TEXT"
  | globl => "GLOBAL"

end DirectiveKind

-- Names may be missing, as the name of a function may.
inductive Instruction where
  | directive (kind : DirectiveKind) (argument : Option String)
  | label (name : Option String)
  | nullary (op : NullaryOp)
  | unary (op : UnaryOp) (operand : Operand)
  | binary (op : BinaryOp) (source : Operand) (destination : Operand)
  -- Something that is no instruction of the machine, and how it reads.
  | foreign (text : String)
deriving DecidableEq, Repr

-- An operation is given another number of operands than it takes.
inductive ArityError where
  | takesOperands (op : Op)
  | notOneOperand (op : Op)
  | notTwoOperands (op : Op)
deriving DecidableEq, Repr

def ArityError.message : ArityError → String
  | takesOperands op => s!"Op.{op.tag} takes operands"
  | notOneOperand op => s!"Op.{op.tag} does not take one operand"
  | notTwoOperands op => s!"Op.{op.tag} does not take two operands"

namespace Instruction

def withoutOperands : Op → Except ArityError Instruction
  | .nullary op => .ok (nullary op)
  | op => .error (.takesOperands op)

def withOperand (operand : Operand) : Op → Except ArityError Instruction
  | .unary op => .ok (unary op operand)
  | op => .error (.notOneOperand op)

def withOperands (source destination : Operand) : Op → Except ArityError Instruction
  | .binary op => .ok (binary op source destination)
  | op => .error (.notTwoOperands op)

end Instruction

private def member (type tag name : String) : String := s!"<{type}.{tag}: {Text.quoted name}>"

private def Op.shown (op : Op) : String := member "Op" op.tag op.name

-- The operand as traces show it.
def Operand.shown : Operand → Except Numeral.Fault String
  | immediate value => do
    let value ← Numeral.written value
    return s!"Immediate(value={value})"
  | register slot =>
    let slot := member "Register" slot.tag slot.name
    .ok s!"Reg(register={slot})"
  | foreign text => .ok (Text.quoted text)

-- The instruction as traces show it.
def Instruction.shown : Instruction → Except Numeral.Fault String
  | directive kind argument =>
    let kind := member "DirectiveKind" kind.tag kind.name
    .ok s!"Directive(kind={kind}, argument={Text.quotedOrNone argument})"
  | label name => .ok s!"Label(name={Text.quotedOrNone name})"
  | nullary op => .ok s!"Instruction0(op={(Op.nullary op).shown})"
  | unary op operand => do
    let operand ← operand.shown
    return s!"Instruction1(op={(Op.unary op).shown}, operand={operand})"
  | binary op source destination => do
    let source ← source.shown
    let destination ← destination.shown
    return s!"Instruction2(op={(Op.binary op).shown}, src={source}, dst={destination})"
  | foreign text => .ok (Text.quoted text)

end TinyC
