import TinyC.Position
import TinyC.Tree.Operator

namespace TinyC

-- A tree of a program. A tree read from a text keeps the tiers of the grammar apart; one made
-- by hand may have any node in any position, any operator and any number.
inductive Node where
  | bare (place : Position)
  | constant (value : Int) (place : Position)
  | unary (op : String) (operand : Node) (place : Position)
  | group (inner : Node) (place : Position)
  | binary (tier : Tier) (left : Node) (op : String) (right : Node) (place : Position)
  | ret (value : Node) (place : Position)
  | function (name : Option String) (body : Node) (place : Position)
  | program (main : Node) (place : Position)
deriving DecidableEq, Repr

def Tier.label : Tier → String
  | .additive => "AdditiveOp"
  | .multiplicative => "MultiplicativeOp"

namespace Node

-- The kind of a node, as diagnostics and outlines name it.
def label : Node → String
  | bare _ => "ASTNode"
  | constant _ _ => "Constant"
  | unary _ _ _ => "UnaryOp"
  | group _ _ => "Group"
  | binary tier _ _ _ _ => tier.label
  | ret _ _ => "Return"
  | function _ _ _ => "Function"
  | program _ _ => "Program"

def place : Node → Position
  | bare place => place
  | constant _ place => place
  | unary _ _ place => place
  | group _ place => place
  | binary _ _ _ _ place => place
  | ret _ place => place
  | function _ _ place => place
  | program _ place => place

-- The tree with every place set to the origin.
def unplaced : Node → Node
  | bare _ => bare ⟨0, 0⟩
  | constant value _ => constant value ⟨0, 0⟩
  | unary op operand _ => unary op operand.unplaced ⟨0, 0⟩
  | group inner _ => group inner.unplaced ⟨0, 0⟩
  | binary tier left op right _ => binary tier left.unplaced op right.unplaced ⟨0, 0⟩
  | ret value _ => ret value.unplaced ⟨0, 0⟩
  | function name body _ => function name body.unplaced ⟨0, 0⟩
  | program main _ => program main.unplaced ⟨0, 0⟩

-- Trees are compared without regard to places.
def same (first second : Node) : Bool := first.unplaced == second.unplaced

-- The number of nodes.
def size : Node → Nat
  | bare _ => 1
  | constant _ _ => 1
  | unary _ operand _ => operand.size + 1
  | group inner _ => inner.size + 1
  | binary _ left _ right _ => left.size + right.size + 1
  | ret value _ => value.size + 1
  | function _ body _ => body.size + 1
  | program main _ => main.size + 1

end Node

end TinyC
