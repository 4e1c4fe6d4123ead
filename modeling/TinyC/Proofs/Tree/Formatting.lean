import TinyC.Proofs.Code.Fault
import TinyC.Proofs.Tree.Source

namespace TinyC

namespace Node

-- The nodes at which an expression ends, from left to right: its constants, and what stands in it
-- without being an expression.
def leaves : Node → List Node
  | unary _ operand _ => operand.leaves
  | group inner _ => inner.leaves
  | binary _ left _ right _ => left.leaves ++ right.leaves
  | other => [other]

def isExpression : Node → Bool
  | constant _ _ => true
  | unary _ _ _ => true
  | group _ _ => true
  | binary _ _ _ _ _ => true
  | _ => false

-- What cannot be formatted first, from left to right.
def firstUnformattable? (expression : Node) : Option Node :=
  expression.leaves.find? fun leaf => !leaf.isExpression

-- The text of an expression in which everything can be formatted.
def plainText : Node → String
  | constant value _ => Numeral.decimal value
  | group inner _ => "(" ++ inner.plainText ++ ")"
  | unary op operand _ => op ++ operand.plainText
  | binary _ left op right _ => left.plainText ++ " " ++ op ++ " " ++ right.plainText
  | _ => ""

theorem firstUnformattable?_binary (tier : Tier) (left : Node) (op : String) (right : Node)
    (place : Position) :
    (binary tier left op right place).firstUnformattable? =
      left.firstUnformattable?.or right.firstUnformattable? :=
  List.find?_append

-- What is found is no expression, and all that stands before it can be formatted.
theorem firstUnformattable?_eq_some {expression node : Node}
    (h : expression.firstUnformattable? = some node) :
    node.isExpression = false ∧ ∃ before after, expression.leaves = before ++ node :: after ∧
      ∀ leaf ∈ before, leaf.isExpression := by
  obtain ⟨hnode, before, after, hleaves, hbefore⟩ := List.find?_eq_some_iff_append.mp h
  simp only [Bool.not_eq_true', Bool.not_not] at hnode hbefore
  exact ⟨hnode, before, after, hleaves, hbefore⟩

theorem firstUnformattable?_eq_none {expression : Node}
    (h : expression.firstUnformattable? = none) : ∀ leaf ∈ expression.leaves, leaf.isExpression := by
  intro leaf hmem
  have hleaf := List.find?_eq_none.mp h leaf hmem
  rwa [Bool.not_eq_true', Bool.not_eq_false] at hleaf

-- The text of an expression, or else the error about the first node that has none.
theorem plainSource_eq {expression : Node} (h : expression.HasWritableConstants) :
    expression.plainSource =
      match expression.firstUnformattable? with
      | some node => .error (.unformattable node)
      | none => .ok expression.plainText := by
  induction expression with
  | constant value place =>
    simp only [plainSource, constantSource, Numeral.written_of_isWritable h]
    rfl
  | group inner place ih =>
    have hfirst : (group inner place).firstUnformattable? = inner.firstUnformattable? := rfl
    rw [plainSource, ih h, hfirst]
    cases inner.firstUnformattable? with
    | some node => rfl
    | none => rfl
  | unary op operand place ih =>
    have hfirst : (unary op operand place).firstUnformattable? = operand.firstUnformattable? := rfl
    rw [plainSource, ih h, hfirst]
    cases operand.firstUnformattable? with
    | some node => rfl
    | none => rfl
  | binary tier left op right place ihleft ihright =>
    rw [plainSource, ihleft h.1, ihright h.2, firstUnformattable?_binary]
    cases left.firstUnformattable? with
    | some node => rfl
    | none =>
      cases right.firstUnformattable? with
      | some node => rfl
      | none => rfl
  | bare place => rfl
  | ret value place => rfl
  | function name body place => rfl
  | program main place => rfl

end Node

-- Walking down the left operands of a chain and joining the parts on the way back gives what
-- recursion on the tree gives: the text, or the error about the first node, from left to right,
-- that is no expression.
theorem source_agrees_with_plain_recursion (expression : Node)
    (h : expression.HasWritableConstants) :
    expression.source = expression.plainSource ∧
      match expression.firstUnformattable? with
      | none => (∀ leaf ∈ expression.leaves, leaf.isExpression) ∧
          expression.source = .ok expression.plainText
      | some node =>
        (node.isExpression = false ∧ ∃ before after,
          expression.leaves = before ++ node :: after ∧ ∀ leaf ∈ before, leaf.isExpression) ∧
        expression.source = .error (.unformattable node) ∧
        (FormatError.unformattable node).message = "Cannot format " ++ node.label := by
  have hsource : expression.source = expression.plainSource := expression.source_eq_plainSource
  refine ⟨hsource, ?_⟩
  rw [hsource, Node.plainSource_eq h]
  cases hfirst : expression.firstUnformattable? with
  | none => exact ⟨Node.firstUnformattable?_eq_none hfirst, rfl⟩
  | some node => exact ⟨Node.firstUnformattable?_eq_some hfirst, rfl, rfl⟩

-- A chain of both tiers in which two operands are no expressions, the first of them in a group.
def brokenChain : Node :=
  .binary .multiplicative
    (.binary .additive (.unary "-" (.constant (-7) ⟨1, 1⟩) ⟨1, 1⟩) "plus"
      (.group (.ret (.bare ⟨1, 2⟩) ⟨1, 2⟩) ⟨1, 2⟩) ⟨1, 1⟩)
    "*" (.bare ⟨1, 3⟩) ⟨1, 1⟩

theorem source_agrees_with_plain_recursion_brokenChain :
    brokenChain.HasWritableConstants ∧ brokenChain.source = brokenChain.plainSource ∧
      brokenChain.source = .error (.unformattable (.ret (.bare ⟨1, 2⟩) ⟨1, 2⟩)) := by
  have hconstants : brokenChain.HasWritableConstants :=
    ⟨⟨show Numeral.isWritable (-7) = true by decide +kernel, trivial⟩, trivial⟩
  obtain ⟨hplain, -, hsource, -⟩ := source_agrees_with_plain_recursion brokenChain hconstants
  exact ⟨hconstants, hplain, hsource⟩

end TinyC
