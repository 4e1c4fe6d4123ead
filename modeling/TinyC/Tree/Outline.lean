import TinyC.Tree.Node

namespace TinyC.Outline

-- What an outline is made from. A line stands for itself, whatever the indent.
inductive Item where
  | line (text : String)
  | number (value : Int)
  | nothing
  | node (node : Node)
deriving DecidableEq, Repr

-- A field of a node: a value in a line of its own, or a tree below it.
inductive Field where
  | value (shown : Except Numeral.Fault String)
  | child (node : Node)

-- The fields of a node, places apart, each with its name.
def fields : Node → List (String × Field)
  | .bare _ => []
  | .constant value _ => [("value", .value (Numeral.written value))]
  | .unary op operand _ => [("op", .value (.ok (Text.quoted op))), ("operand", .child operand)]
  | .group inner _ => [("expr", .child inner)]
  | .binary _ left op right _ =>
    [("left", .child left), ("op", .value (.ok (Text.quoted op))), ("right", .child right)]
  | .ret value _ => [("expr", .child value)]
  | .function name body _ =>
    [("name", .value (.ok (Text.quotedOrNone name))), ("body", .child body)]
  | .program main _ => [("function", .child main)]

-- Two spaces for each step; a negative indent counts as none.
def indentation (indent : Int) : String := String.ofList (List.replicate (2 * indent.toNat) ' ')

-- What a field of a node at the indent contributes: one line, or a line and a deeper tree.
def fieldItems (indent : Int) : String × Field → Except Numeral.Fault (List (Item × Int))
  | (name, .value shown) => do
    let shown ← shown
    return [(.line (indentation indent ++ "  " ++ name ++ ": " ++ shown), 0)]
  | (name, .child node) =>
    .ok [(.line (indentation indent ++ "  " ++ name ++ ":"), 0), (.node node, indent + 2)]

def nodeItems (node : Node) (indent : Int) : Except Numeral.Fault (List (Item × Int)) := do
  let items ← (fields node).mapM (fieldItems indent)
  return items.flatten

def Item.weight : Item → Nat
  | .line _ => 1
  | .number _ => 1
  | .nothing => 1
  | .node tree => 4 * tree.size

def weight : List (Item × Int) → Nat
  | [] => 0
  | entry :: rest => entry.1.weight + weight rest

private theorem weight_cons (entry : Item × Int) (rest : List (Item × Int)) :
    weight (entry :: rest) = entry.1.weight + weight rest := rfl

private theorem weight_append (first second : List (Item × Int)) :
    weight (first ++ second) = weight first + weight second := by
  induction first with
  | nil => rw [List.nil_append, weight, Nat.zero_add]
  | cons entry rest ih => rw [List.cons_append, weight_cons, weight_cons, ih, Nat.add_assoc]

-- The items of a node weigh less than the node.
theorem weight_nodeItems {node : Node} {indent : Int} {items : List (Item × Int)}
    (h : nodeItems node indent = .ok items) : weight items < (Item.node node).weight := by
  cases node with
  | constant value place =>
    cases hvalue : Numeral.written value with
    | error fault =>
      simp [nodeItems, fields, fieldItems, hvalue, bind, Except.bind] at h
    | ok text =>
      simp [nodeItems, fields, fieldItems, hvalue, bind, Except.bind, pure, Except.pure] at h
      subst h
      simp [weight, Item.weight, Node.size]
  | _ =>
    simp [nodeItems, fields, fieldItems, bind, Except.bind, pure, Except.pure] at h
    subst h
    simp [weight, Item.weight, Node.size] <;> omega

-- Writes the lines of the work in its order, behind those written (newest first). A node is
-- replaced by its items in place.
def run (work : List (Item × Int)) (written : List String) :
    Except Numeral.Fault (List String) :=
  match work with
  | [] => .ok written.reverse
  | (.line text, _) :: rest => run rest (text :: written)
  | (.nothing, indent) :: rest => run rest ((indentation indent ++ "None") :: written)
  | (.number value, indent) :: rest =>
    match Numeral.written value with
    | .error fault => .error fault
    | .ok value => run rest ((indentation indent ++ value) :: written)
  | (.node node, indent) :: rest =>
    match _ : nodeItems node indent with
    | .error fault => .error fault
    | .ok items =>
      run (items ++ rest) ((indentation indent ++ node.label ++ ":") :: written)
termination_by weight work
decreasing_by
  · simp [weight_cons, Item.weight]
  · simp [weight_cons, Item.weight]
  · simp [weight_cons, Item.weight]
  · have := weight_nodeItems ‹_›
    simp only [weight_append, weight_cons]
    omega

end TinyC.Outline

namespace TinyC

-- The outline of an item, in lines that each end in a newline.
def outline (item : Outline.Item) (indent : Int) : Except Numeral.Fault String := do
  let lines ← Outline.run [(item, indent)] []
  return String.join (lines.map fun line => line ++ "\n")

-- Why an outline at an indent cannot be made.
inductive Outline.Fault where
  | badNumeral (fault : Numeral.Fault)
  -- The indent does not fit in a machine word.
  | outOfReach
  -- The indent has more spaces than a text can have.
  | tooLong
deriving DecidableEq, Repr

def Outline.Fault.message : Outline.Fault → String
  | badNumeral fault => fault.message
  | outOfReach => "cannot fit 'int' into an index-sized integer"
  | tooLong => "repeated string is too long"

-- What is wrong with an indent, whatever stands at it.
def Outline.indentFault? (indent : Int) : Option Outline.Fault :=
  if indent < -0x8000000000000000 ∨ 0x8000000000000000 ≤ indent then some .outOfReach
  else if 0x4000000000000000 ≤ indent then some .tooLong
  else none

-- The outline of an item at an indent that may be out of bounds. Only the first line is checked:
-- an indent that its deeper lines alone take out of bounds has more spaces than any memory.
def outlineAt (item : Outline.Item) (indent : Int) : Except Outline.Fault String :=
  match Outline.indentFault? indent with
  | some fault => .error fault
  | none => (outline item indent).mapError .badNumeral

end TinyC
