import TinyC.Tree.Node

namespace TinyC

inductive FormatError where
  -- The node is no expression.
  | unformattable (node : Node)
  -- The node lacks a part that its position asks for.
  | noPart (part : String) (node : Node)
  -- A number is too long to write.
  | badNumeral (fault : Numeral.Fault)
deriving DecidableEq, Repr

def FormatError.message : FormatError → String
  | unformattable node => s!"Cannot format {node.label}"
  | noPart part node => s!"'{node.label}' object has no attribute '{part}'"
  | badNumeral fault => fault.message

namespace Node

-- The text of a constant: in decimal, as the tree does not tell the base it was read in.
def constantSource (value : Int) : Except FormatError String :=
  match Numeral.written value with
  | .error fault => .error (.badNumeral fault)
  | .ok text => .ok text

-- The text of a chain: its first operand, then each operator with its right operand.
def chainSource (first : Except FormatError String) (links : List (Except FormatError String)) :
    Except FormatError String := do
  let first ← first
  let links ← links.mapM id
  return " ".intercalate (first :: links)

-- The text of an expression with the links that wait behind it. The left operands of a chain
-- are walked down in one go, so that only right operands nest.
def sourceWith : Node → List (Except FormatError String) → Except FormatError String
  | constant value _, links => chainSource (constantSource value) links
  | group inner _, links =>
    chainSource ((sourceWith inner []).map fun inner => "(" ++ inner ++ ")") links
  | unary op operand _, links =>
    chainSource ((sourceWith operand []).map fun operand => op ++ operand) links
  | binary _ left op right _, links =>
    sourceWith left ((sourceWith right []).map (fun right => op ++ " " ++ right) :: links)
  | other, _ => .error (.unformattable other)

-- The source text of an expression. Groups keep their parentheses, and no others are written.
def source (expression : Node) : Except FormatError String := sourceWith expression []

-- The expression in the body of a function.
def bodyValue? : Node → Option Node
  | ret value _ => some value
  | group inner _ => some inner
  | _ => none

-- The source text of a program, in three lines, the middle one after the indent.
def programSource (indent : String) : Node → Except FormatError String
  | program (function name body _) _ =>
    match body.bodyValue? with
    | none => .error (.noPart "expr" body)
    | some value => do
      let value ← value.source
      return "int " ++ name.getD "None" ++ "() \x7b\n" ++ indent ++ "return " ++ value ++ ";\n\x7d\n"
  | program main _ => .error (.noPart "name" main)
  | other => .error (.noPart "function" other)

end Node

end TinyC
