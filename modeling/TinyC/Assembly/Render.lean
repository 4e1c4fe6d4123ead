import TinyC.Assembly.Target
import TinyC.Code.Instruction

namespace TinyC

inductive RenderError where
  | unknownTarget (name : String)
  | unknownOperand (text : String)
  | unknownInstruction (text : String)
  -- A number is too long to write.
  | badNumeral (fault : Numeral.Fault)
deriving DecidableEq, Repr

def RenderError.message : RenderError → String
  | unknownTarget name =>
    let choices := ", ".intercalate (Target.all.map Target.name)
    s!"Unknown target {Text.quoted name} (choose from {choices})"
  | unknownOperand text => s!"Cannot render operand {Text.quoted text}"
  | unknownInstruction text => s!"Cannot render instruction {Text.quoted text}"
  | badNumeral fault => fault.message

-- The part of a register that an operation works on.
inductive Width where
  | byte
  | long
  | quad
deriving DecidableEq, Repr

-- The register of the machine behind a slot.
def Register.hardware : Register → Width → String
  | .accumulator, .quad => "rax"
  | .accumulator, .long => "eax"
  | .accumulator, .byte => "al"
  | .scratch, .quad => "rcx"
  | .scratch, .long => "ecx"
  | .scratch, .byte => "cl"
  | .dividendHigh, .quad => "rdx"
  | .dividendHigh, .long => "edx"
  | .dividendHigh, .byte => "dl"
  | .divisor, .quad => "rsi"
  | .divisor, .long => "esi"
  | .divisor, .byte => "sil"

-- The stack holds whole registers, and setting on a condition writes the low byte alone.
def UnaryOp.width : UnaryOp → Width
  | .push => .quad
  | .pop => .quad
  | .sete => .byte
  | .neg | .not | .idiv => .long

def NullaryOp.mnemonic : NullaryOp → String
  | .ret => "ret"
  | .signExtend => "cltd"

def UnaryOp.mnemonic : UnaryOp → String
  | .push => "pushq"
  | .pop => "popq"
  | .neg => "negl"
  | .not => "notl"
  | .sete => "sete"
  | .idiv => "idivl"

def BinaryOp.mnemonic : BinaryOp → String
  | .mov => "movl"
  | .cmp => "cmpl"
  | .add => "addl"
  | .sub => "subl"
  | .imul => "imull"

def Operand.rendered (width : Width) : Operand → Except RenderError String
  | .immediate value =>
    match Numeral.written value with
    | .error fault => .error (.badNumeral fault)
    | .ok value => .ok ("$" ++ value)
  | .register slot => .ok ("%" ++ slot.hardware width)
  | .foreign text => .error (.unknownOperand text)

-- The line of an instruction, without its newline.
def Instruction.rendered (target : Target) : Instruction → Except RenderError String
  | .directive .text _ => .ok "\t.text"
  | .directive .globl argument =>
    .ok ("\t.globl\t" ++ target.symbolHead ++ argument.getD "None")
  | .label name => .ok (target.symbolHead ++ name.getD "None" ++ ":")
  | .nullary op => .ok ("\t" ++ op.mnemonic)
  | .unary op operand => do
    let operand ← operand.rendered op.width
    return "\t" ++ op.mnemonic ++ "\t" ++ operand
  | .binary op source destination => do
    let source ← source.rendered .long
    let destination ← destination.rendered .long
    return "\t" ++ op.mnemonic ++ "\t" ++ source ++ ", " ++ destination
  | .foreign text => .error (.unknownInstruction text)

namespace Target

def named (name : String) : Except RenderError Target :=
  match ofName? name with
  | none => .error (.unknownTarget name)
  | some target => .ok target

end Target

-- The assembly text of code: a line for each instruction, then the trailer of the target.
def render (target : Target) (code : List Instruction) : Except RenderError String := do
  let lines ← code.mapM fun instruction => instruction.rendered target
  return "\n".intercalate (lines ++ target.trailer) ++ "\n"

end TinyC
