import TinyC.Proofs.Code.Machine
import TinyC.Tree.Node

namespace TinyC

def UnaryOperator.apply : UnaryOperator → Word → Word
  | negate, word => -word
  | complement, word => ~~~word
  | isZero, word => if word = 0 then 1 else 0

-- Only a division may have no value: by zero, or of the least word by minus one.
def BinaryOperator.combine? : BinaryOperator → Word → Word → Option Word
  | add, left, right => some (left + right)
  | subtract, left, right => some (left - right)
  | multiply, left, right => some (left * right)
  | divide, left, right =>
    if right = 0 then none
    else if left = BitVec.intMin 32 ∧ right = -1 then none
    else some (Word.ofInt (left.toInt.tdiv right.toInt))

theorem UnaryOperator.ofSymbol?_symbol (operator : UnaryOperator) :
    ofSymbol? operator.symbol = some operator := by
  cases operator <;> decide

theorem UnaryOperator.symbol_of_ofSymbol? {op : String} {operator : UnaryOperator}
    (h : ofSymbol? op = some operator) : op = operator.symbol := by
  have hfound := List.find?_some h
  exact (beq_iff_eq.mp hfound).symm

theorem Tier.ofSymbol?_symbol {tier : Tier} {operator : BinaryOperator}
    (h : operator ∈ tier.operators) : tier.ofSymbol? operator.symbol = some operator := by
  cases tier <;> cases operator <;> simp_all [Tier.operators] <;> decide

theorem Tier.of_ofSymbol? {tier : Tier} {op : String} {operator : BinaryOperator}
    (h : tier.ofSymbol? op = some operator) :
    operator ∈ tier.operators ∧ op = operator.symbol := by
  have hfound := List.find?_some h
  exact ⟨List.mem_of_find?_eq_some h, (beq_iff_eq.mp hfound).symm⟩

namespace Node

-- Expressions that have code: every operator is one of its kind or of its tier. Tiers may
-- nest in any way.
inductive Supported : Node → Prop
  | constant (value : Int) (place : Position) : Supported (.constant value place)
  | group {inner : Node} (place : Position) : Supported inner → Supported (.group inner place)
  | unary (operator : UnaryOperator) {operand : Node} (place : Position) :
      Supported operand → Supported (.unary operator.symbol operand place)
  | binary {tier : Tier} {operator : BinaryOperator} {left right : Node} (place : Position) :
      operator ∈ tier.operators → Supported left → Supported right →
      Supported (.binary tier left operator.symbol right place)

-- The word that an expression stands for, if all its divisions have a quotient.
def value? : Node → Option Word
  | constant value _ => some (Word.ofInt value)
  | group inner _ => inner.value?
  | unary op operand _ => do
    let operator ← UnaryOperator.ofSymbol? op
    let word ← operand.value?
    return operator.apply word
  | binary tier left op right _ => do
    let operator ← tier.ofSymbol? op
    let leftWord ← left.value?
    let rightWord ← right.value?
    operator.combine? leftWord rightWord
  | _ => none

theorem value?_unary (operator : UnaryOperator) (operand : Node) (place : Position) :
    (unary operator.symbol operand place).value? = operand.value?.map operator.apply := by
  simp only [value?, UnaryOperator.ofSymbol?_symbol]
  cases operand.value? <;> rfl

theorem value?_binary {tier : Tier} {operator : BinaryOperator} (h : operator ∈ tier.operators)
    (left right : Node) (place : Position) :
    (binary tier left operator.symbol right place).value? =
      left.value?.bind fun leftWord => right.value?.bind (operator.combine? leftWord) := by
  simp only [value?, Tier.ofSymbol?_symbol h]
  rfl

end Node

end TinyC
