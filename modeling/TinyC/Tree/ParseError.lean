import TinyC.Token.Basic

namespace TinyC

-- What the grammar asks for where a token does not fit.
inductive Expected where
  | terminal (wanted : Terminal)
  | functionName
  | semicolonAfterValue
  | endOfInput
deriving DecidableEq, Repr

def Expected.described : Expected → String
  | terminal wanted => Text.quoted wanted.label
  | functionName => "function name"
  | semicolonAfterValue => "';' after return value"
  | endOfInput => "end of input"

inductive ParseError where
  -- The next token, if any, does not fit the grammar.
  | unexpected (found : Option Token) (expected : Expected)
  -- No factor starts at the next token.
  | noFactor (found : Option Token)
  -- The token opens a group or operand nested deeper than the limit.
  | tooDeep (limit : Int) (token : Token)
  -- The literal's value needs more than 32 bits.
  | tooWide (token : Token)
  -- The literal's text is no numeral.
  | badNumeral (fault : Numeral.Fault)
  -- The literal comes without text.
  | noText (base : Numeral.Base)
deriving DecidableEq, Repr

namespace ParseError

def factorExpected : String := "an integer, '(' or a unary operator"

private def located (found : Option Token) (problem : String) : String :=
  match found with
  | none => s!"Parse error at end of input: {problem}"
  | some token => s!"Parse error at {token.place.shown}: {problem} (got {token.described})"

def message : ParseError → String
  | unexpected found expected => located found s!"Expected {expected.described}"
  | noFactor found => located found s!"Expected {factorExpected}"
  | tooDeep limit token =>
    located (some token) s!"Expression nested deeper than {Numeral.decimal limit} levels"
  | tooWide token => located (some token) "Integer constant does not fit in 32 bits"
  | badNumeral fault => fault.message
  | noText .ten => "int() can't convert non-string with explicit base"
  | noText .sixteen => "'NoneType' object is not subscriptable"

end ParseError

end TinyC
