import TinyC.Position
import TinyC.Token.Terminal

namespace TinyC

-- A terminal as it stands in a text. Literals and identifiers come with their text.
structure Token where
  terminal : Terminal
  value : Option String
  place : Position
deriving DecidableEq, Repr

namespace Token

-- Tokens are compared without regard to where they stand.
def same (first second : Token) : Bool :=
  first.terminal == second.terminal && first.value == second.value

-- The token as error messages name it.
def described (token : Token) : String :=
  match token.value with
  | none => Text.quoted token.terminal.label
  | some value => s!"{token.terminal.category.label} {Text.quoted value}"

-- The token as listings and traces show it.
def shown (token : Token) : String :=
  match token.value with
  | none => s!"Token({token.terminal.name}, {token.place.shown})"
  | some value => s!"Token({token.terminal.name}, {Text.quoted value}, {token.place.shown})"

end Token

end TinyC
