import TinyC.Log
import TinyC.Tree.Node
import TinyC.Tree.ParseError

namespace TinyC

namespace Parser

-- Where a parse stopped: why, the tokens not yet taken, and the groups and operands entered.
structure Stop where
  error : ParseError
  left : List Token
  depth : Nat

-- A node read from the front of tokens, and the tokens after it: fewer than `bound`.
structure Reading (bound : Nat) where
  node : Node
  left : List Token
  shorter : left.length < bound

-- A token taken from the front of others.
structure Taken (bound : Nat) where
  token : Token
  left : List Token
  shorter : left.length < bound

def take (terminal : Terminal) (expected : Expected) (depth : Nat) :
    (tokens : List Token) → Except Stop (Taken tokens.length)
  | [] => .error ⟨.unexpected none expected, [], depth⟩
  | token :: left =>
    if token.terminal = terminal then .ok ⟨token, left, by simp⟩
    else .error ⟨.unexpected (some token) expected, token :: left, depth⟩

def largestConstant : Int := 0xFFFFFFFF

-- The value of a literal. The first two characters of a hexadecimal one are its mark.
def literalValue (base : Numeral.Base) (token : Token) : Except ParseError Int :=
  match token.value with
  | none => .error (.noText base)
  | some text =>
    let numeral := match base with
      | .ten => text
      | .sixteen => String.ofList (text.toList.drop 2)
    match Numeral.read base numeral with
    | .error fault => .error (.badNumeral fault)
    | .ok value => if largestConstant < value then .error (.tooWide token) else .ok value

-- Reads operators of a tier, each with its right operand, onto the operand to their left.
def links (tier : Tier) (bound : Nat)
    (operand : (tokens : List Token) → tokens.length < bound → Except Stop (Reading tokens.length))
    (left : Node) (tokens : List Token) (h : tokens.length < bound) :
    Except Stop (Reading bound) :=
  match tokens with
  | [] => .ok ⟨left, [], h⟩
  | token :: rest =>
    match tier.ofTerminal? token.terminal with
    | none => .ok ⟨left, token :: rest, h⟩
    | some operator =>
      have hrest : rest.length < bound := Nat.lt_trans (by simp) h
      match operand rest hrest with
      | .error stop => .error stop
      | .ok right =>
        links tier bound operand (.binary tier left operator.symbol right.node token.place)
          right.left (Nat.lt_trans right.shorter hrest)
termination_by tokens.length
decreasing_by
  have := right.shorter
  simp only [List.length_cons]
  omega

-- Reads a chain of operands joined by operators of a tier, to the left.
def chain (tier : Tier) (tokens : List Token)
    (operand : (front : List Token) → front.length ≤ tokens.length →
      Except Stop (Reading front.length)) :
    Except Stop (Reading tokens.length) :=
  match operand tokens (Nat.le_refl _) with
  | .error stop => .error stop
  | .ok first =>
    links tier tokens.length (fun front h => operand front (Nat.le_of_lt h))
      first.node first.left first.shorter

-- Reads a literal, a group or a unary operator with its operand. Groups and operands may not
-- nest deeper than the limit; the counter `depth` tells how many are open.
def factor (limit : Int) (depth : Nat) :
    (tokens : List Token) → Except Stop (Reading tokens.length)
  | [] => .error ⟨.noFactor none, [], depth⟩
  | token :: rest =>
    if token.terminal = .leftParen then
      if limit < depth + 1 then .error ⟨.tooDeep limit token, rest, depth + 1⟩
      else
        match chain .additive rest (fun front _ =>
            chain .multiplicative front (fun front _ => factor limit (depth + 1) front)) with
        | .error stop => .error stop
        | .ok inner =>
          match take .rightParen (.terminal .rightParen) depth inner.left with
          | .error stop => .error stop
          | .ok closing =>
            .ok ⟨.group inner.node token.place, closing.left, by
              have := inner.shorter
              have := closing.shorter
              simp only [List.length_cons]
              omega⟩
    else
      match UnaryOperator.ofTerminal? token.terminal, token.terminal.base? with
      | some operator, _ =>
        if limit < depth + 1 then .error ⟨.tooDeep limit token, rest, depth + 1⟩
        else
          match factor limit (depth + 1) rest with
          | .error stop => .error stop
          | .ok operand =>
            .ok ⟨.unary operator.symbol operand.node token.place, operand.left, by
              have := operand.shorter
              simp only [List.length_cons]
              omega⟩
      | none, some base =>
        match literalValue base token with
        | .error error => .error ⟨error, rest, depth⟩
        | .ok value => .ok ⟨.constant value token.place, rest, by simp⟩
      | none, none => .error ⟨.noFactor (some token), token :: rest, depth⟩
termination_by tokens => tokens.length
decreasing_by all_goals simp only [List.length_cons]; omega

def term (limit : Int) (depth : Nat) (tokens : List Token) :
    Except Stop (Reading tokens.length) :=
  chain .multiplicative tokens fun front _ => factor limit depth front

def expression (limit : Int) (depth : Nat) (tokens : List Token) :
    Except Stop (Reading tokens.length) :=
  chain .additive tokens fun front _ => term limit depth front

def statement (limit : Int) (depth : Nat) (tokens : List Token) :
    Except Stop (Reading tokens.length) := do
  let keyword ← take .returnKeyword (.terminal .returnKeyword) depth tokens
  let value ← expression limit depth keyword.left
  let closing ← take .semicolon .semicolonAfterValue depth value.left
  return ⟨.ret value.node keyword.token.place, closing.left, by
    have := keyword.shorter
    have := value.shorter
    have := closing.shorter
    omega⟩

-- Reads a function and reports it once its closing brace is taken.
def function (limit : Int) (depth : Nat) (tokens : List Token) (log : Log) :
    Except Stop (Reading tokens.length) × Log :=
  let reading : Except Stop (Option String × Reading tokens.length) := do
    let keyword ← take .intKeyword (.terminal .intKeyword) depth tokens
    let name ← take .identifier .functionName depth keyword.left
    let openParen ← take .leftParen (.terminal .leftParen) depth name.left
    let closeParen ← take .rightParen (.terminal .rightParen) depth openParen.left
    let openBrace ← take .leftBrace (.terminal .leftBrace) depth closeParen.left
    let body ← statement limit depth openBrace.left
    let closeBrace ← take .rightBrace (.terminal .rightBrace) depth body.left
    return (name.token.value,
      ⟨.function name.token.value body.node keyword.token.place, closeBrace.left, by
        have := keyword.shorter
        have := name.shorter
        have := openParen.shorter
        have := closeParen.shorter
        have := openBrace.shorter
        have := body.shorter
        have := closeBrace.shorter
        omega⟩)
  match reading with
  | .error stop => (.error stop, log)
  | .ok (name, reading) =>
    (.ok reading, log.note fun _ => "parse: function " ++ name.getD "None")

-- Reads a function that takes all tokens.
def program (limit : Int) (depth : Nat) (tokens : List Token) (log : Log) :
    Except Stop (Reading tokens.length) × Log :=
  match function limit depth tokens log with
  | (.error stop, log) => (.error stop, log)
  | (.ok main, log) =>
    match main.left with
    | [] => (.ok { main with node := .program main.node main.node.place }, log)
    | token :: rest =>
      (.error ⟨.unexpected (some token) .endOfInput, token :: rest, depth⟩, log)

end Parser

end TinyC
