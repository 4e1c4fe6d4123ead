import TinyC.Code.Instruction
import TinyC.Log
import TinyC.Tree.Node

namespace TinyC

-- The trees of functions over supported expressions have code; any other has one of these faults.
inductive GenerateError where
  | unsupportedOperator (op : String) (node : Node)
  | unhandledExpression (node : Node)
  | unhandledStatement (node : Node)
  -- The node lacks a part that its position asks for.
  | noPart (part : String) (node : Node)
  -- A number is too long for the trace.
  | badNumeral (fault : Numeral.Fault)
deriving DecidableEq, Repr

namespace GenerateError

private def located (node : Node) (problem : String) : String :=
  s!"Code generation error at {node.place.shown}: {problem}"

def message : GenerateError → String
  | unsupportedOperator op node =>
    located node s!"Unsupported operator {Text.quoted op} in {node.label}"
  | unhandledExpression node => located node s!"Unhandled expression type {node.label}"
  | unhandledStatement node => located node s!"Unhandled statement type {node.label}"
  | noPart part node => s!"'{node.label}' object has no attribute '{part}'"
  | badNumeral fault => fault.message

end GenerateError

-- The code of an operator whose operand is in the accumulator, where it leaves its value.
def UnaryOperator.code : UnaryOperator → List Instruction
  | negate => [.unary .neg (.register .accumulator)]
  | complement => [.unary .not (.register .accumulator)]
  -- Setting the accumulator to zero leaves the outcome of the comparison alone.
  | isZero =>
    [.binary .cmp (.immediate 0) (.register .accumulator),
     .binary .mov (.immediate 0) (.register .accumulator),
     .unary .sete (.register .accumulator)]

-- The code of an operator whose left operand is in the scratch register and whose right operand
-- is in the accumulator, where it leaves its value.
def BinaryOperator.code : BinaryOperator → List Instruction
  | add => [.binary .add (.register .scratch) (.register .accumulator)]
  -- The difference arises in the scratch register.
  | subtract =>
    [.binary .sub (.register .accumulator) (.register .scratch),
     .binary .mov (.register .scratch) (.register .accumulator)]
  | multiply => [.binary .imul (.register .scratch) (.register .accumulator)]
  | divide =>
    [.binary .mov (.register .accumulator) (.register .divisor),
     .binary .mov (.register .scratch) (.register .accumulator),
     .nullary .signExtend,
     .unary .idiv (.register .divisor)]

-- What has been generated so far, newest instruction first.
structure Emission where
  code : List Instruction
  log : Log

-- Generation stops at the first fault; what it reported before is kept.
abbrev Generator := ExceptT GenerateError (StateM Emission)

namespace Generator

-- Reports an instruction and appends it to the code.
def emit (instruction : Instruction) : Generator Unit := do
  let emission ← get
  match emission.log with
  | .silent => set { emission with code := instruction :: emission.code }
  | .recording _ =>
    match instruction.shown with
    | .error fault => throw (.badNumeral fault)
    | .ok shown =>
      set (Emission.mk (instruction :: emission.code) (emission.log.note fun _ => "emit: " ++ shown))

def emitAll (instructions : List Instruction) : Generator Unit := instructions.forM emit

-- Binary operators of a chain that wait for their left operand, the next one first, each with
-- the generation of its right operand.
abbrev Pending := List (BinaryOperator × Generator Unit)

-- Generates the rest of a chain once the operand to its left is in the accumulator. That operand
-- is on the stack while the right one is computed.
def finish (pending : Pending) : Generator Unit :=
  pending.forM fun (operator, right) => do
    emit (.unary .push (.register .accumulator))
    right
    emit (.unary .pop (.register .scratch))
    emitAll operator.code

-- Generates an expression and then the operators that wait for it. The left operands of a chain
-- are walked down in one go, so that only right operands nest.
def chain : Node → Pending → Generator Unit
  | .constant value _, pending => do
    emit (.binary .mov (.immediate value) (.register .accumulator))
    finish pending
  | .group inner _, pending => do
    chain inner []
    finish pending
  | .unary op operand place, pending =>
    match UnaryOperator.ofSymbol? op with
    | none => throw (.unsupportedOperator op (.unary op operand place))
    | some operator => do
      chain operand []
      emitAll operator.code
      finish pending
  | .binary tier left op right place, pending =>
    match tier.ofSymbol? op with
    | none => throw (.unsupportedOperator op (.binary tier left op right place))
    | some operator => chain left ((operator, chain right []) :: pending)
  | other, _ => throw (.unhandledExpression other)

def expression (node : Node) : Generator Unit := chain node []

def statement : Node → Generator Unit
  | .ret value _ => do
    expression value
    emit (.nullary .ret)
  | other => throw (.unhandledStatement other)

def function : Node → Generator Unit
  | .function name body _ => do
    modify fun emission =>
      { emission with log := emission.log.note fun _ => "codegen: function " ++ name.getD "None" }
    emit (.directive .text (some ""))
    emit (.directive .globl name)
    emit (.label name)
    statement body
  | other => throw (.noPart "name" other)

def program : Node → Generator Unit
  | .program main _ => function main
  | other => throw (.noPart "function" other)

end Generator

-- The code of a program, ending in the return to its caller.
def generate (program : Node) (log : Log) : Except GenerateError (List Instruction) × Log :=
  let (result, emission) := (Generator.program program).run.run ⟨[], log⟩
  (result.map fun _ => emission.code.reverse, emission.log)

end TinyC
