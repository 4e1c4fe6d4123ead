import TinyC.Proofs.Code.Fault
import TinyC.Proofs.Tree.Place
import TinyC.Tree.Outline

namespace TinyC

namespace Outline

-- One turn of the work: the line that is written for an item, and the items that take its place.
def turn : Item × Int → Except Numeral.Fault (String × List (Item × Int))
  | (.line text, _) => .ok (text, [])
  | (.number value, indent) =>
    (Numeral.written value).map fun shown => (indentation indent ++ shown, [])
  | (.nothing, indent) => .ok (indentation indent ++ "None", [])
  | (.node node, indent) =>
    (nodeItems node indent).map fun items => (indentation indent ++ node.label ++ ":", items)

-- The turns that work takes until none of it is left: each item with the line written for it.
inductive Turns : List (Item × Int) → List (Item × String) → Prop
  | done : Turns [] []
  | next {item : Item} {indent : Int} {line : String} {items rest : List (Item × Int)}
      {turns : List (Item × String)} :
      turn (item, indent) = .ok (line, items) → Turns (items ++ rest) turns →
      Turns ((item, indent) :: rest) ((item, line) :: turns)

theorem run_cons {item : Item} {indent : Int} {line : String} {items : List (Item × Int)}
    (h : turn (item, indent) = .ok (line, items)) (rest : List (Item × Int))
    (written : List String) :
    run ((item, indent) :: rest) written = run (items ++ rest) (line :: written) := by
  cases item with
  | line text =>
    cases h
    rw [run]
    rfl
  | nothing =>
    cases h
    rw [run]
    rfl
  | number value =>
    rw [run]
    cases hvalue : Numeral.written value with
    | error fault =>
      rw [turn, hvalue] at h
      cases h
    | ok shown =>
      rw [turn, hvalue] at h
      cases h
      rfl
  | node node =>
    rw [run]
    split
    · next hitems =>
      rw [turn, hitems] at h
      cases h
    · next hitems =>
      rw [turn, hitems] at h
      cases h
      rfl

-- Work that comes to its end has written a line in each of its turns.
theorem Turns.run_eq {work : List (Item × Int)} {turns : List (Item × String)}
    (h : Turns work turns) (written : List String) :
    run work written = .ok (written.reverse ++ turns.map Prod.snd) := by
  induction h generalizing written with
  | done => rw [run, List.map_nil, List.append_nil]
  | next hturn _ ih =>
    rw [run_cons hturn, ih]
    simp

def Item.node? : Item → Option Node
  | .node tree => some tree
  | _ => none

-- Items that write these lines and print these nodes, whatever work waits behind them.
structure Writes (items : List (Item × Int)) (lines : List String) (nodes : List Node) : Prop where
  exists_turns : ∀ rest turns, Turns rest turns → ∃ front, Turns (items ++ rest) (front ++ turns) ∧
    front.map Prod.snd = lines ∧ front.filterMap (fun turn => turn.1.node?) = nodes

theorem writes_nil : Writes [] [] [] := ⟨fun _ _ hrest => ⟨[], hrest, rfl, rfl⟩⟩

theorem Writes.append {first second : List (Item × Int)} {firstLines secondLines : List String}
    {firstNodes secondNodes : List Node} (hfirst : Writes first firstLines firstNodes)
    (hsecond : Writes second secondLines secondNodes) :
    Writes (first ++ second) (firstLines ++ secondLines) (firstNodes ++ secondNodes) := by
  constructor
  intro rest turns hrest
  obtain ⟨back, hback, rfl, rfl⟩ := hsecond.exists_turns rest turns hrest
  obtain ⟨front, hfront, rfl, rfl⟩ := hfirst.exists_turns _ _ hback
  refine ⟨front ++ back, ?_, List.map_append, List.filterMap_append⟩
  rwa [List.append_assoc, List.append_assoc]

theorem Writes.line {items : List (Item × Int)} {lines : List String} {nodes : List Node}
    (h : Writes items lines nodes) (text : String) (indent : Int) :
    Writes ((.line text, indent) :: items) (text :: lines) nodes := by
  constructor
  intro rest turns hrest
  obtain ⟨front, hfront, rfl, rfl⟩ := h.exists_turns rest turns hrest
  exact ⟨(.line text, text) :: front, .next rfl hfront, rfl, List.filterMap_cons_none rfl⟩

-- A node is printed, and then what takes its place.
theorem Writes.node {node : Node} {indent : Int} {items : List (Item × Int)} {lines : List String}
    {nodes : List Node} (hitems : nodeItems node indent = .ok items)
    (h : Writes items lines nodes) :
    Writes [(.node node, indent)] ((indentation indent ++ node.label ++ ":") :: lines)
      (node :: nodes) := by
  constructor
  intro rest turns hrest
  obtain ⟨front, hfront, rfl, rfl⟩ := h.exists_turns rest turns hrest
  have hturn : turn (.node node, indent) =
      .ok (indentation indent ++ node.label ++ ":", items) := by
    rw [turn, hitems]
    rfl
  exact ⟨(.node node, indentation indent ++ node.label ++ ":") :: front, .next hturn hfront, rfl,
    List.filterMap_cons_some rfl⟩

-- A line of an outline: the kind of a node at the indent, or one of its fields, which stands two
-- spaces deeper, with or without its value.
def heading (indent : Int) (label : String) : String := indentation indent ++ label ++ ":"

def valueLine (indent : Int) (name shown : String) : String :=
  indentation indent ++ "  " ++ name ++ ": " ++ shown

def childLine (indent : Int) (name : String) : String := indentation indent ++ "  " ++ name ++ ":"

end Outline

open Outline

-- The lines of a tree by recursion on the tree alone: its kind, and then its fields in their
-- order, where a tree below it stands whole before the next field.
def Node.plainOutline : Node → Int → List String
  | bare _, indent => [heading indent "ASTNode"]
  | constant value _, indent =>
    [heading indent "Constant", valueLine indent "value" (Numeral.decimal value)]
  | unary op operand _, indent =>
    heading indent "UnaryOp" :: valueLine indent "op" (Text.quoted op) ::
      childLine indent "operand" :: operand.plainOutline (indent + 2)
  | group inner _, indent =>
    heading indent "Group" :: childLine indent "expr" :: inner.plainOutline (indent + 2)
  | binary tier left op right _, indent =>
    heading indent tier.label :: childLine indent "left" :: (left.plainOutline (indent + 2) ++
      valueLine indent "op" (Text.quoted op) :: childLine indent "right" ::
        right.plainOutline (indent + 2))
  | ret value _, indent =>
    heading indent "Return" :: childLine indent "expr" :: value.plainOutline (indent + 2)
  | function name body _, indent =>
    heading indent "Function" :: valueLine indent "name" (Text.quotedOrNone name) ::
      childLine indent "body" :: body.plainOutline (indent + 2)
  | program main _, indent =>
    heading indent "Program" :: childLine indent "function" :: main.plainOutline (indent + 2)

-- At any indent a node writes the lines of its tree, and prints each node of it once. The items
-- of a node hold those of its children in their places, so that the induction is on the tree.
theorem Node.writes {node : Node} (h : node.HasWritableConstants) (indent : Int) :
    Writes [(.node node, indent)] (node.plainOutline indent) node.nodes := by
  induction node generalizing indent with
  | bare place => exact .node rfl writes_nil
  | constant value place =>
    have hitems : nodeItems (.constant value place) indent =
        .ok [(.line (valueLine indent "value" (Numeral.decimal value)), 0)] := by
      simp only [nodeItems, fields, Numeral.written_of_isWritable h]
      rfl
    exact .node hitems (writes_nil.line _ _)
  | unary op operand place ih =>
    exact .node rfl (((ih h (indent + 2)).line _ _).line _ _)
  | group inner place ih => exact .node rfl ((ih h (indent + 2)).line _ _)
  | binary tier left op right place ihleft ihright =>
    have hright := ((ihright h.2 (indent + 2)).line (childLine indent "right") 0).line
      (valueLine indent "op" (Text.quoted op)) 0
    exact .node rfl (((ihleft h.1 (indent + 2)).append hright).line _ _)
  | ret value place ih => exact .node rfl ((ih h (indent + 2)).line _ _)
  | function name body place ih =>
    exact .node rfl (((ih h (indent + 2)).line _ _).line _ _)
  | program main place ih => exact .node rfl ((ih h (indent + 2)).line _ _)

-- The text of the lines, each with its newline.
def Node.plainOutlineText (tree : Node) (indent : Int) : String :=
  String.join ((tree.plainOutline indent).map fun line => line ++ "\n")

theorem Node.HasWritableConstants.outline_eq {tree : Node} (h : tree.HasWritableConstants)
    (indent : Int) : outline (.node tree) indent = .ok (tree.plainOutlineText indent) := by
  obtain ⟨turns, hturns, hlines, _⟩ := (tree.writes h indent).exists_turns [] [] .done
  simp only [List.append_nil] at hturns
  rw [outline, hturns.run_eq [], List.reverse_nil, List.nil_append, hlines]
  rfl

-- Outlining a tree by a list of work ends, with each node printed once and before the nodes below
-- it, and gives the text that recursion on the tree gives, at every indent that can be written.
theorem outline_agrees_with_plain_recursion (tree : Node) (h : tree.HasWritableConstants)
    (indent : Int) :
    (∃ turns, Turns [(.node tree, indent)] turns ∧
      run [(.node tree, indent)] [] = .ok (turns.map Prod.snd) ∧
      turns.map Prod.snd = tree.plainOutline indent ∧
      turns.filterMap (fun turn => turn.1.node?) = tree.nodes) ∧
    outline (.node tree) indent = .ok (tree.plainOutlineText indent) ∧
    outlineAt (.node tree) indent =
      match indentFault? indent with
      | some fault => .error fault
      | none => .ok (tree.plainOutlineText indent) := by
  obtain ⟨turns, hturns, hlines, hnodes⟩ := (tree.writes h indent).exists_turns [] [] .done
  simp only [List.append_nil] at hturns
  have hrun : run [(.node tree, indent)] [] = .ok (turns.map Prod.snd) := hturns.run_eq []
  have houtline : outline (.node tree) indent = .ok (tree.plainOutlineText indent) :=
    h.outline_eq indent
  refine ⟨⟨turns, hturns, hrun, hlines, hnodes⟩, houtline, ?_⟩
  rw [outlineAt, houtline]
  rfl

-- A sum that no text gives: a statement and a function without a name are added by no operator.
def oddSum : Node :=
  .binary .additive (.ret (.constant (-7) ⟨1, 1⟩) ⟨1, 1⟩) "it's"
    (.function none (.bare ⟨1, 2⟩) ⟨1, 2⟩) ⟨1, 1⟩

theorem outline_agrees_with_plain_recursion_oddSum :
    oddSum.HasWritableConstants ∧
      (∃ turns, Turns [(.node oddSum, -1)] turns ∧
        run [(.node oddSum, -1)] [] = .ok (turns.map Prod.snd) ∧
        turns.map Prod.snd = oddSum.plainOutline (-1) ∧
        turns.filterMap (fun turn => turn.1.node?) = oddSum.nodes) ∧
      outlineAt (.node oddSum) (-1) =
        .ok ("AdditiveOp:\n  left:\n  Return:\n    expr:\n      Constant:\n" ++
          "        value: -7\n  op: \"it's\"\n  right:\n  Function:\n    name: None\n" ++
          "    body:\n      ASTNode:\n") := by
  have hconstants : oddSum.HasWritableConstants :=
    ⟨show Numeral.isWritable (-7) = true by decide +kernel, trivial⟩
  obtain ⟨hturns, -, htext⟩ := outline_agrees_with_plain_recursion oddSum hconstants (-1)
  exact ⟨hconstants, hturns, htext.trans (by decide +kernel)⟩

end TinyC
