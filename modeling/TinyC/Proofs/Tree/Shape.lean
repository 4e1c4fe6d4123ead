import TinyC.Proofs.Token.Lexeme
import TinyC.Proofs.Token.Literal
import TinyC.Proofs.Tree.Exact

namespace TinyC

namespace Node

-- Expressions as the grammar shapes them: each operand is of the level that its position asks
-- for, each operator is one of its kind or tier, and constants are words without a sign.
inductive Shaped : Parser.Level → Node → Prop
  | constant {value : Int} {place : Position} :
      0 ≤ value → value ≤ Parser.largestConstant → Shaped .factor (.constant value place)
  | unary {operator : UnaryOperator} {operand : Node} {place : Position} :
      Shaped .factor operand → Shaped .factor (.unary operator.symbol operand place)
  | group {inner : Node} {place : Position} :
      Shaped (.chain .additive) inner → Shaped .factor (.group inner place)
  | operand {tier : Tier} {node : Node} :
      Shaped (Parser.operandLevel tier) node → Shaped (.chain tier) node
  | binary {tier : Tier} {operator : BinaryOperator} {left right : Node} {place : Position} :
      Shaped (.chain tier) left → operator ∈ tier.operators →
      Shaped (Parser.operandLevel tier) right →
      Shaped (.chain tier) (.binary tier left operator.symbol right place)

-- The tree is that of one function that returns an expression within the limit on nesting.
structure GrammarShaped (tree : Node) : Prop where
  shape : ∃ name value bodyPlace mainPlace place,
    tree = .program (.function (some name) (.ret value bodyPlace) mainPlace) place ∧
      Terminal.IsName name.toList ∧ Shaped (.chain .additive) value
  nesting : (tree.nesting : Int) ≤ Parser.defaultLimit

theorem Shaped.of_unplaced {level : Parser.Level} {node other : Node} (h : Shaped level node)
    (hsame : node.unplaced = other.unplaced) : Shaped level other := by
  induction h generalizing other with
  | constant hlow hhigh =>
    cases other <;> cases hsame
    exact .constant hlow hhigh
  | unary _ ih =>
    cases other <;> simp only [unplaced, reduceCtorEq, unary.injEq, and_true] at hsame
    obtain ⟨rfl, hoperand⟩ := hsame
    exact .unary (ih hoperand)
  | group _ ih =>
    cases other <;> simp only [unplaced, reduceCtorEq, group.injEq, and_true] at hsame
    exact .group (ih hsame)
  | operand _ ih => exact .operand (ih hsame)
  | binary _ hop _ ihleft ihright =>
    cases other <;> simp only [unplaced, reduceCtorEq, binary.injEq, and_true] at hsame
    obtain ⟨rfl, hleft, rfl, hright⟩ := hsame
    exact .binary (ihleft hleft) hop (ihright hright)

theorem GrammarShaped.of_same {tree other : Node} (h : tree.GrammarShaped)
    (hsame : tree.same other) : other.GrammarShaped := by
  obtain ⟨⟨name, value, bodyPlace, mainPlace, place, rfl, hname, hvalue⟩, hnesting⟩ := h
  rw [nesting_of_same hsame] at hnesting
  refine ⟨?_, hnesting⟩
  rw [same_iff] at hsame
  cases other with
  | program main place =>
    cases main with
    | function otherName body mainPlace =>
      cases body with
      | ret otherValue bodyPlace =>
        simp only [unplaced, program.injEq, function.injEq, ret.injEq, and_true] at hsame
        obtain ⟨rfl, hvalues⟩ := hsame
        exact ⟨name, otherValue, bodyPlace, mainPlace, place, rfl, hname,
          hvalue.of_unplaced hvalues⟩
      | _ => simp [unplaced] at hsame
    | _ => simp [unplaced] at hsame
  | _ => simp [unplaced] at hsame

end Node

-- What the grammar derives from literals as a lexer cuts them has its shape.
theorem Parser.Derives.shaped {level : Level} {tokens : List Token} {node : Node}
    (h : Derives (Decoded literalValue) level tokens node)
    (hspelled : ∀ token ∈ tokens, token.IsSpelled) : node.Shaped level := by
  induction h with
  | literal hvalue =>
    obtain ⟨⟨base, digits, _, rfl⟩, hnarrow⟩ := spells_of_decoded (hspelled _ (by simp)) hvalue
    exact .constant (Int.natCast_nonneg _) hnarrow
  | unary _ _ ih => exact .unary (ih fun token htoken => hspelled token (by simp [htoken]))
  | group _ _ _ ih => exact .group (ih fun token htoken => hspelled token (by simp [htoken]))
  | operand _ ih => exact .operand (ih hspelled)
  | binary _ hop _ ihleft ihright =>
    exact .binary (ihleft fun token htoken => hspelled token (by simp [htoken]))
      (Tier.mem_operators_of_ofTerminal? hop)
      (ihright fun token htoken => hspelled token (by simp [htoken]))

end TinyC
