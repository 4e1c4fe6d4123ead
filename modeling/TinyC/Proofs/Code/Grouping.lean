import TinyC.Proofs.Code.Plain
import TinyC.Proofs.Tree.Grammar

namespace TinyC

namespace Node

-- The tree with each group replaced by what it encloses.
def ungrouped : Node → Node
  | bare place => bare place
  | constant value place => constant value place
  | unary op operand place => unary op operand.ungrouped place
  | group inner _ => inner.ungrouped
  | binary tier left op right place => binary tier left.ungrouped op right.ungrouped place
  | ret value place => ret value.ungrouped place
  | function name body place => function name body.ungrouped place
  | program main place => program main.ungrouped place

-- Code takes no notice of places.
theorem code_unplaced (node : Node) : node.unplaced.code = node.code := by
  induction node with
  | unary op operand place ih => simp only [unplaced, code, ih]
  | group inner place ih => simp only [unplaced, code, ih]
  | binary tier left op right place ihleft ihright => simp only [unplaced, code, ihleft, ihright]
  | _ => rfl

-- Code takes no notice of groups.
theorem code_ungrouped (node : Node) : node.ungrouped.code = node.code := by
  induction node with
  | unary op operand place ih => simp only [ungrouped, code, ih]
  | group inner place ih => simp only [ungrouped, code, ih]
  | binary tier left op right place ihleft ihright => simp only [ungrouped, code, ihleft, ihright]
  | _ => rfl

end Node

def BinaryOperator.tier : BinaryOperator → Tier
  | add => .additive
  | subtract => .additive
  | multiply => .multiplicative
  | divide => .multiplicative

theorem Tier.eq_tier {tier : Tier} {operator : BinaryOperator} (h : operator ∈ tier.operators) :
    tier = operator.tier := by
  cases tier <;> cases operator <;> simp_all [operators, BinaryOperator.tier]

-- The expressions of an operator, without places.

def UnaryOperator.node (operator : UnaryOperator) (operand : Node) : Node :=
  .unary operator.symbol operand ⟨0, 0⟩

def BinaryOperator.node (operator : BinaryOperator) (left right : Node) : Node :=
  .binary operator.tier left operator.symbol right ⟨0, 0⟩

-- A machine that computes with expressions: its registers and its stack hold what their words
-- are computed from, and it remembers what was compared last.
structure Origins where
  registers : Register → Node
  compared : Node
  stack : List Node

namespace Origins

def set (origins : Origins) (slot : Register) (node : Node) : Origins :=
  { origins with
    registers := fun other => if other = slot then node else origins.registers other }

-- Instructions that generated code does not use leave the machine alone.
def after (origins : Origins) : Instruction → Origins
  | .unary .push (.register slot) =>
    { origins with stack := origins.registers slot :: origins.stack }
  | .unary .pop (.register slot) =>
    { origins.set slot (origins.stack.headD (.bare ⟨0, 0⟩)) with stack := origins.stack.tail }
  | .unary .neg (.register slot) =>
    origins.set slot (UnaryOperator.negate.node (origins.registers slot))
  | .unary .not (.register slot) =>
    origins.set slot (UnaryOperator.complement.node (origins.registers slot))
  | .unary .sete (.register slot) =>
    origins.set slot (UnaryOperator.isZero.node origins.compared)
  | .unary .idiv (.register slot) =>
    origins.set .accumulator
      (BinaryOperator.divide.node (origins.registers .accumulator) (origins.registers slot))
  | .binary .mov (.immediate value) (.register slot) =>
    origins.set slot (.constant value ⟨0, 0⟩)
  | .binary .mov (.register source) (.register slot) =>
    origins.set slot (origins.registers source)
  | .binary .cmp _ (.register slot) => { origins with compared := origins.registers slot }
  | .binary .add (.register source) (.register slot) =>
    origins.set slot
      (BinaryOperator.add.node (origins.registers source) (origins.registers slot))
  | .binary .sub (.register source) (.register slot) =>
    origins.set slot
      (BinaryOperator.subtract.node (origins.registers slot) (origins.registers source))
  | .binary .imul (.register source) (.register slot) =>
    origins.set slot
      (BinaryOperator.multiply.node (origins.registers source) (origins.registers slot))
  | _ => origins

def run (origins : Origins) (code : List Instruction) : Origins := code.foldl after origins

theorem run_append (origins : Origins) (first second : List Instruction) :
    origins.run (first ++ second) = (origins.run first).run second := List.foldl_append

-- The run leaves the expression in the accumulator and the stack as given.
structure Leaves (stack : List Node) (node : Node) (final : Origins) : Prop where
  accumulator : final.registers .accumulator = node
  stack : final.stack = stack

theorem leaves_unary (operator : UnaryOperator) (origins : Origins) :
    Leaves origins.stack (operator.node (origins.registers .accumulator))
      (origins.run operator.code) := by
  cases operator <;> exact ⟨rfl, rfl⟩

theorem leaves_binary (operator : BinaryOperator) (origins : Origins) :
    Leaves origins.stack
      (operator.node (origins.registers .scratch) (origins.registers .accumulator))
      (origins.run operator.code) := by
  cases operator <;> exact ⟨rfl, rfl⟩

-- Operands are computed into the registers that the code of an operator takes them from.
theorem run_operands {left right : List Instruction} {first second : Node}
    (hleft : ∀ origins : Origins, Leaves origins.stack first (origins.run left))
    (hright : ∀ origins : Origins, Leaves origins.stack second (origins.run right))
    (origins : Origins) :
    ∃ ready, origins.run (left ++ [.unary .push (.register .accumulator)] ++ right ++
        [.unary .pop (.register .scratch)]) = ready ∧
      ready.registers .scratch = first ∧ ready.registers .accumulator = second ∧
      ready.stack = origins.stack := by
  let pushed := (origins.run left).after (.unary .push (.register .accumulator))
  obtain ⟨hfirst, hbelow⟩ := hleft origins
  obtain ⟨hsecond, habove⟩ := hright pushed
  have hstack : (pushed.run right).stack = first :: origins.stack := by
    rw [habove, ← hfirst, ← hbelow]
    rfl
  refine ⟨(pushed.run right).after (.unary .pop (.register .scratch)), ?_, ?_, hsecond, ?_⟩
  · simp only [run_append]
    rfl
  · simp [after, set, hstack]
  · simp [after, hstack]

-- The code of an expression computes the expression from nothing else, whatever the registers
-- hold before. So the code tells the expression, but for its groups and places.
theorem leaves_code {node : Node} (h : node.Supported) (origins : Origins) :
    Leaves origins.stack node.ungrouped.unplaced (origins.run node.code) := by
  induction h generalizing origins with
  | constant value place => exact ⟨rfl, rfl⟩
  | group place _ ih => exact ih origins
  | @unary operator operand place _ ih =>
    obtain ⟨hvalue, hstack⟩ := ih origins
    have hlast := leaves_unary operator (origins.run operand.code)
    rw [hvalue, hstack] at hlast
    rw [Node.code_unary, run_append]
    exact hlast
  | @binary tier operator left right place hop _ _ ihleft ihright =>
    obtain ⟨ready, hready, hleft, hright, hstack⟩ := run_operands ihleft ihright origins
    have hlast := leaves_binary operator ready
    rw [hleft, hright, hstack] at hlast
    rw [Node.code_binary hop, run_append, hready, Node.ungrouped, Node.unplaced, Tier.eq_tier hop]
    exact hlast

end Origins

namespace Node

-- Two supported expressions have the same code just if they differ in groups and places only.
theorem Supported.code_eq_iff {node other : Node} (h : node.Supported) (hother : other.Supported) :
    node.code = other.code ↔ node.ungrouped.same other.ungrouped := by
  rw [same_iff]
  constructor
  · intro hcode
    let origins : Origins := ⟨fun _ => .bare ⟨0, 0⟩, .bare ⟨0, 0⟩, []⟩
    have hnode := (Origins.leaves_code h origins).accumulator
    rw [← hnode, hcode]
    exact (Origins.leaves_code hother origins).accumulator
  · intro hsame
    rw [← code_ungrouped node, ← code_unplaced, hsame, code_unplaced, code_ungrouped]

end Node

theorem functionCode_eq_iff {name otherName : Option String} {value other : Node} :
    functionCode name value = functionCode otherName other ↔
      name = otherName ∧ value.code = other.code := by
  simp [functionCode, functionHead]

namespace Node.Returns

variable {first second value other : Node} {name otherName : Option String}

theorem functionCode_eq_iff_same (hfirst : first.Returns name value)
    (hsecond : second.Returns otherName other) :
    functionCode name value = functionCode otherName other ↔
      name = otherName ∧ value.ungrouped.same other.ungrouped := by
  rw [functionCode_eq_iff, hfirst.supported.code_eq_iff hsecond.supported]

theorem same_ungrouped_iff (hfirst : first.Returns name value)
    (hsecond : second.Returns otherName other) :
    first.ungrouped.same second.ungrouped ↔
      name = otherName ∧ value.ungrouped.same other.ungrouped := by
  obtain ⟨⟨_, _, _, rfl⟩, _⟩ := hfirst
  obtain ⟨⟨_, _, _, rfl⟩, _⟩ := hsecond
  simp [same_iff, ungrouped, unplaced]

end Node.Returns

end TinyC
