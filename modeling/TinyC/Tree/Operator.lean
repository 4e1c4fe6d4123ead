import TinyC.Token.Terminal

namespace TinyC

-- The two levels of binary operators, loosest first.
inductive Tier where
  | additive
  | multiplicative
deriving DecidableEq, Repr

inductive UnaryOperator where
  | negate
  | complement
  | isZero
deriving DecidableEq, Repr

inductive BinaryOperator where
  | add
  | subtract
  | multiply
  | divide
deriving DecidableEq, Repr

namespace UnaryOperator

def all : List UnaryOperator := [negate, complement, isZero]

def symbol : UnaryOperator → String
  | negate => "-"
  | complement => "~"
  | isZero => "!"

def ofSymbol? (symbol : String) : Option UnaryOperator :=
  all.find? fun operator => operator.symbol == symbol

def ofTerminal? : Terminal → Option UnaryOperator
  | .minus => some negate
  | .tilde => some complement
  | .bang => some isZero
  | _ => none

end UnaryOperator

namespace BinaryOperator

def symbol : BinaryOperator → String
  | add => "+"
  | subtract => "-"
  | multiply => "*"
  | divide => "/"

end BinaryOperator

namespace Tier

def operators : Tier → List BinaryOperator
  | additive => [.add, .subtract]
  | multiplicative => [.multiply, .divide]

-- The operator of this tier that a symbol stands for.
def ofSymbol? (tier : Tier) (symbol : String) : Option BinaryOperator :=
  tier.operators.find? fun operator => operator.symbol == symbol

-- The operator of this tier that a terminal stands for.
def ofTerminal? : Tier → Terminal → Option BinaryOperator
  | additive, .plus => some .add
  | additive, .minus => some .subtract
  | multiplicative, .star => some .multiply
  | multiplicative, .slash => some .divide
  | _, _ => none

end Tier

end TinyC
