import TinyC.Tree.Session

namespace TinyC.Parser

-- The levels of expressions: a factor, or a chain of operands of a tier.
inductive Level where
  | factor
  | chain (tier : Tier)
deriving DecidableEq

-- What the operands of a chain are.
def operandLevel : Tier → Level
  | .additive => .chain .multiplicative
  | .multiplicative => .factor

-- What is still to be read: all of an expression, or the rest of a chain behind an operand.
inductive Goal where
  | whole (level : Level)
  | rest (tier : Tier) (left : Node)

-- What a reading comes to: a node and the tokens after it, or a stop.
abbrev Outcome := Except Stop (Node × List Token)

-- A token that opens a level of nesting.
@[grind] def Opens (token : Token) : Prop :=
  token.terminal = .leftParen ∨ ∃ operator, UnaryOperator.ofTerminal? token.terminal = some operator

-- The tokens do not go on with an operator of the tier.
@[grind] def Ends (tier : Tier) (tokens : List Token) : Prop :=
  ∀ token ∈ tokens.head?, tier.ofTerminal? token.terminal = none

-- How expressions are read, as rules. The value of a literal is left to `decode`.
inductive Reads (decode : Numeral.Base → Token → Except ParseError Int) (limit : Int) :
    Goal → Nat → List Token → Outcome → Prop
  | noToken {depth : Nat} :
      Reads decode limit (.whole .factor) depth [] (.error ⟨.noFactor none, [], depth⟩)
  | noFactor {depth : Nat} {token : Token} {rest : List Token} :
      ¬ Opens token → token.terminal.base? = none →
      Reads decode limit (.whole .factor) depth (token :: rest)
        (.error ⟨.noFactor (some token), token :: rest, depth⟩)
  | literal {depth : Nat} {token : Token} {rest : List Token} {base : Numeral.Base} {value : Int} :
      token.terminal.base? = some base → decode base token = .ok value →
      Reads decode limit (.whole .factor) depth (token :: rest)
        (.ok (.constant value token.place, rest))
  | badLiteral {depth : Nat} {token : Token} {rest : List Token} {base : Numeral.Base}
      {error : ParseError} :
      token.terminal.base? = some base → decode base token = .error error →
      Reads decode limit (.whole .factor) depth (token :: rest) (.error ⟨error, rest, depth⟩)
  | tooDeep {depth : Nat} {token : Token} {rest : List Token} :
      Opens token → limit < depth + 1 →
      Reads decode limit (.whole .factor) depth (token :: rest)
        (.error ⟨.tooDeep limit token, rest, depth + 1⟩)
  | unary {depth : Nat} {token : Token} {rest left : List Token} {operator : UnaryOperator}
      {operand : Node} :
      UnaryOperator.ofTerminal? token.terminal = some operator → depth + 1 ≤ limit →
      Reads decode limit (.whole .factor) (depth + 1) rest (.ok (operand, left)) →
      Reads decode limit (.whole .factor) depth (token :: rest)
        (.ok (.unary operator.symbol operand token.place, left))
  | badOperand {depth : Nat} {token : Token} {rest : List Token} {operator : UnaryOperator}
      {stop : Stop} :
      UnaryOperator.ofTerminal? token.terminal = some operator → depth + 1 ≤ limit →
      Reads decode limit (.whole .factor) (depth + 1) rest (.error stop) →
      Reads decode limit (.whole .factor) depth (token :: rest) (.error stop)
  | group {depth : Nat} {token closing : Token} {rest left : List Token} {inner : Node} :
      token.terminal = .leftParen → depth + 1 ≤ limit →
      Reads decode limit (.whole (.chain .additive)) (depth + 1) rest
        (.ok (inner, closing :: left)) →
      closing.terminal = .rightParen →
      Reads decode limit (.whole .factor) depth (token :: rest)
        (.ok (.group inner token.place, left))
  | unclosed {depth : Nat} {token : Token} {rest left : List Token} {inner : Node} :
      token.terminal = .leftParen → depth + 1 ≤ limit →
      Reads decode limit (.whole (.chain .additive)) (depth + 1) rest (.ok (inner, left)) →
      (∀ closing ∈ left.head?, closing.terminal ≠ .rightParen) →
      Reads decode limit (.whole .factor) depth (token :: rest)
        (.error ⟨.unexpected left.head? (.terminal .rightParen), left, depth⟩)
  | badInner {depth : Nat} {token : Token} {rest : List Token} {stop : Stop} :
      token.terminal = .leftParen → depth + 1 ≤ limit →
      Reads decode limit (.whole (.chain .additive)) (depth + 1) rest (.error stop) →
      Reads decode limit (.whole .factor) depth (token :: rest) (.error stop)
  | chain {tier : Tier} {depth : Nat} {tokens left : List Token} {first : Node}
      {outcome : Outcome} :
      Reads decode limit (.whole (operandLevel tier)) depth tokens (.ok (first, left)) →
      Reads decode limit (.rest tier first) depth left outcome →
      Reads decode limit (.whole (.chain tier)) depth tokens outcome
  | badFirst {tier : Tier} {depth : Nat} {tokens : List Token} {stop : Stop} :
      Reads decode limit (.whole (operandLevel tier)) depth tokens (.error stop) →
      Reads decode limit (.whole (.chain tier)) depth tokens (.error stop)
  | ends {tier : Tier} {depth : Nat} {left : Node} {tokens : List Token} :
      Ends tier tokens → Reads decode limit (.rest tier left) depth tokens (.ok (left, tokens))
  | link {tier : Tier} {depth : Nat} {left right : Node} {token : Token}
      {rest after : List Token} {operator : BinaryOperator} {outcome : Outcome} :
      tier.ofTerminal? token.terminal = some operator →
      Reads decode limit (.whole (operandLevel tier)) depth rest (.ok (right, after)) →
      Reads decode limit (.rest tier (.binary tier left operator.symbol right token.place)) depth
        after outcome →
      Reads decode limit (.rest tier left) depth (token :: rest) outcome
  | badRight {tier : Tier} {depth : Nat} {left : Node} {token : Token} {rest : List Token}
      {operator : BinaryOperator} {stop : Stop} :
      tier.ofTerminal? token.terminal = some operator →
      Reads decode limit (.whole (operandLevel tier)) depth rest (.error stop) →
      Reads decode limit (.rest tier left) depth (token :: rest) (.error stop)

-- The outcome of a reading without its proof of progress.
def outcome {bound : Nat} (result : Except Stop (Reading bound)) : Outcome :=
  match result with
  | .error stop => .error stop
  | .ok reading => .ok (reading.node, reading.left)

@[simp] theorem outcome_ok {bound : Nat} (reading : Reading bound) :
    outcome (.ok reading) = .ok (reading.node, reading.left) := rfl

section

variable {limit : Int} {depth : Nat}

theorem reads_links (tier : Tier) (bound : Nat)
    (operand : (tokens : List Token) → tokens.length < bound → Except Stop (Reading tokens.length))
    (hoperand : ∀ tokens h, Reads literalValue limit (.whole (operandLevel tier)) depth tokens
      (outcome (operand tokens h)))
    (left : Node) (tokens : List Token) (h : tokens.length < bound) :
    Reads literalValue limit (.rest tier left) depth tokens
      (outcome (links tier bound operand left tokens h)) := by
  induction hlength : tokens.length using Nat.strongRecOn generalizing left tokens with
  | ind length ih =>
    cases tokens with
    | nil =>
      rw [links]
      exact .ends (by simp [Ends])
    | cons token rest =>
      rw [links]
      cases hop : tier.ofTerminal? token.terminal with
      | none => exact .ends (by simpa [Ends] using hop)
      | some operator =>
        have hrest : rest.length < bound := Nat.lt_trans (by simp) h
        have hright := hoperand rest hrest
        cases heq : operand rest hrest with
        | error stop =>
          simp only [heq] at hright ⊢
          exact .badRight hop hright
        | ok right =>
          simp only [heq] at hright ⊢
          apply Reads.link hop hright
          have hshorter := right.shorter
          apply ih right.left.length _ _ _ _ rfl
          simp only [← hlength, List.length_cons]
          omega

theorem reads_chain (tier : Tier) (tokens : List Token)
    (operand : (front : List Token) → front.length ≤ tokens.length →
      Except Stop (Reading front.length))
    (hoperand : ∀ front h, Reads literalValue limit (.whole (operandLevel tier)) depth front
      (outcome (operand front h))) :
    Reads literalValue limit (.whole (.chain tier)) depth tokens
      (outcome (chain tier tokens operand)) := by
  have hfirst := hoperand tokens (Nat.le_refl _)
  unfold chain
  split
  · next stop heq =>
    rw [heq] at hfirst
    exact .badFirst hfirst
  · next first heq =>
    rw [heq] at hfirst
    exact .chain hfirst (reads_links tier _ _ (fun front _ => hoperand front _) _ _ _)

theorem reads_closing {token : Token} {rest : List Token} {inner : Reading rest.length}
    (hopen : token.terminal = .leftParen) (hdepth : depth + 1 ≤ limit)
    (hinner : Reads literalValue limit (.whole (.chain .additive)) (depth + 1) rest
      (.ok (inner.node, inner.left))) :
    Reads literalValue limit (.whole .factor) depth (token :: rest)
      (outcome (match take .rightParen (.terminal .rightParen) depth inner.left with
        | .error stop => .error stop
        | .ok closing => .ok ⟨.group inner.node token.place, closing.left,
            Nat.lt_succ_of_lt (Nat.lt_trans closing.shorter inner.shorter)⟩ :
          Except Stop (Reading (token :: rest).length))) := by
  rcases inner with ⟨node, left, shorter⟩
  cases left with
  | nil => exact .unclosed hopen hdepth hinner (by simp)
  | cons closing left =>
    by_cases hclose : closing.terminal = .rightParen
    · simp only [take, hclose, if_true]
      exact .group hopen hdepth hinner hclose
    · simp only [take, hclose, if_false]
      exact .unclosed hopen hdepth hinner (by simpa using hclose)

-- The parser follows the rules.
theorem reads_factor (limit : Int) (depth : Nat) (tokens : List Token) :
    Reads literalValue limit (.whole .factor) depth tokens
      (outcome (factor limit depth tokens)) := by
  match tokens with
  | [] =>
    rw [factor]
    exact .noToken
  | token :: rest =>
    have hoperand := fun front (_ : front.length ≤ rest.length) =>
      reads_factor limit (depth + 1) front
    rw [factor]
    by_cases hopen : token.terminal = .leftParen
    · rw [if_pos hopen]
      by_cases hdeep : limit < depth + 1
      · rw [if_pos hdeep]
        exact .tooDeep (.inl hopen) hdeep
      · rw [if_neg hdeep]
        have hinner : Reads literalValue limit (.whole (.chain .additive)) (depth + 1) rest
            (outcome (expression limit (depth + 1) rest)) := by
          apply reads_chain
          intro front hfront
          apply reads_chain
          intro front' hfront'
          exact hoperand front' (Nat.le_trans hfront' hfront)
        cases heq : expression limit (depth + 1) rest with
        | error stop =>
          rw [heq] at hinner
          simp only [expression, term] at heq
          simp only [heq]
          exact .badInner hopen (by omega) hinner
        | ok inner =>
          rw [heq] at hinner
          simp only [expression, term] at heq
          simp only [heq]
          exact reads_closing hopen (by omega) hinner
    · rw [if_neg hopen]
      cases hop : UnaryOperator.ofTerminal? token.terminal with
      | some operator =>
        by_cases hdeep : limit < depth + 1
        · simp only [if_pos hdeep]
          exact .tooDeep (.inr ⟨operator, hop⟩) hdeep
        · simp only [if_neg hdeep]
          have hrest := hoperand rest (Nat.le_refl _)
          cases heq : factor limit (depth + 1) rest with
          | error stop =>
            rw [heq] at hrest
            exact .badOperand hop (by omega) hrest
          | ok operand =>
            rw [heq] at hrest
            exact .unary hop (by omega) hrest
      | none =>
        cases hbase : token.terminal.base? with
        | none => exact .noFactor (by simp [Opens, hopen, hop]) hbase
        | some base =>
          cases hvalue : literalValue base token with
          | error error =>
            simp only [hvalue]
            exact .badLiteral hbase hvalue
          | ok value =>
            simp only [hvalue]
            exact .literal hbase hvalue
termination_by tokens.length
decreasing_by
  simp only [List.length_cons]
  omega

theorem reads_term (limit : Int) (depth : Nat) (tokens : List Token) :
    Reads literalValue limit (.whole (.chain .multiplicative)) depth tokens
      (outcome (term limit depth tokens)) :=
  reads_chain .multiplicative tokens _ fun front _ => reads_factor limit depth front

theorem reads_expression (limit : Int) (depth : Nat) (tokens : List Token) :
    Reads literalValue limit (.whole (.chain .additive)) depth tokens
      (outcome (expression limit depth tokens)) :=
  reads_chain .additive tokens _ fun front _ => reads_term limit depth front

end

variable {decode : Numeral.Base → Token → Except ParseError Int} {limit : Int}

@[grind =] theorem ofTerminal?_leftParen : UnaryOperator.ofTerminal? .leftParen = none := rfl

@[grind =] theorem base?_leftParen : Terminal.base? .leftParen = none := rfl

@[grind →] theorem base?_of_unary {terminal : Terminal} {operator : UnaryOperator}
    (h : UnaryOperator.ofTerminal? terminal = some operator) : terminal.base? = none := by
  cases terminal <;> first | rfl | cases h

-- No token that opens a level is a literal.
theorem Opens.base?_eq_none {token : Token} (h : Opens token) : token.terminal.base? = none := by
  rcases h with hopen | ⟨operator, hop⟩
  · rw [hopen, base?_leftParen]
  · exact base?_of_unary hop

-- The rules leave no choice.
theorem Reads.functional {goal : Goal} {depth : Nat} {tokens : List Token}
    {first second : Outcome} (hfirst : Reads decode limit goal depth tokens first)
    (hsecond : Reads decode limit goal depth tokens second) : first = second := by
  induction hfirst generalizing second with
  | noToken => cases hsecond; rfl
  | noFactor hopens hbase => cases hsecond <;> grind
  | literal hbase hvalue => cases hsecond <;> grind
  | badLiteral hbase hvalue => cases hsecond <;> grind
  | tooDeep hopens hdepth => cases hsecond <;> grind
  | unary hop hdepth _ ih => cases hsecond <;> grind
  | badOperand hop hdepth _ ih => cases hsecond <;> grind
  | group hopen hdepth _ hclose ih => cases hsecond <;> grind
  | unclosed hopen hdepth _ hclose ih => cases hsecond <;> grind
  | badInner hopen hdepth _ ih => cases hsecond <;> grind
  | chain _ _ ihfirst ihrest => cases hsecond <;> grind
  | badFirst _ ih => cases hsecond <;> grind
  | ends hends => cases hsecond <;> grind
  | link hop _ _ ihright ihrest => cases hsecond <;> grind
  | badRight hop _ ih => cases hsecond <;> grind

end TinyC.Parser
