import TinyC.Proofs.Tree.Grammar
import TinyC.Tree.Source

namespace TinyC.Node

-- The source text of an expression by recursion on the tree alone.
def plainSource : Node → Except FormatError String
  | constant value _ => constantSource value
  | group inner _ => inner.plainSource.map fun inner => "(" ++ inner ++ ")"
  | unary op operand _ => operand.plainSource.map fun operand => op ++ operand
  | binary _ left op right _ => do
    let left ← left.plainSource
    let right ← right.plainSource
    return left ++ " " ++ op ++ " " ++ right
  | other => .error (.unformattable other)

theorem chainSource_nil (first : Except FormatError String) : chainSource first [] = first := by
  cases first <;> rfl

theorem intercalate_cons_cons (first second : String) (rest : List String) :
    " ".intercalate (first :: second :: rest) =
      " ".intercalate ((first ++ " " ++ second) :: rest) := by
  apply String.toList_injective
  simp only [String.toList_intercalate, List.map_cons, String.toList_append]
  cases rest with
  | nil => simp [List.intercalate_cons_cons]
  | cons next others => simp [List.intercalate_cons_cons]

-- The first link of a chain may be written with the operand in front of it.
theorem chainSource_cons (first link : Except FormatError String)
    (links : List (Except FormatError String)) :
    chainSource first (link :: links) =
      chainSource (do let first ← first; let link ← link; return first ++ " " ++ link) links := by
  cases first with
  | error error => rfl
  | ok first =>
    cases link with
    | error error => rfl
    | ok link =>
      simp only [chainSource, bind, Except.bind, pure, Except.pure, List.mapM_cons, id_eq]
      cases links.mapM id with
      | error error => rfl
      | ok links =>
        simp only [intercalate_cons_cons]

-- Walking down the left operands first changes neither the text nor the first error.
theorem sourceWith_eq (node : Node) (links : List (Except FormatError String)) :
    sourceWith node links = chainSource node.plainSource links := by
  induction node generalizing links with
  | constant value place => rfl
  | group inner place ih => rw [sourceWith, ih, chainSource_nil, plainSource]
  | unary op operand place ih => rw [sourceWith, ih, chainSource_nil, plainSource]
  | binary tier left op right place ihleft ihright =>
    rw [sourceWith, ihleft, ihright, chainSource_nil, chainSource_cons, plainSource]
    congr 1
    cases left.plainSource with
    | error error => rfl
    | ok left =>
      cases right.plainSource with
      | error error => rfl
      | ok right =>
        simp only [Except.map, bind, Except.bind, pure, Except.pure]
        simp only [String.append_assoc]
  | bare place => rfl
  | ret value place => rfl
  | function name body place => rfl
  | program main place => rfl

theorem source_eq_plainSource (node : Node) : node.source = node.plainSource := by
  rw [source, sourceWith_eq, chainSource_nil]

-- The text of a tree does not depend on its places.
theorem plainSource_of_unplaced {node other : Node} {text : String}
    (h : node.plainSource = .ok text) (hsame : node.unplaced = other.unplaced) :
    other.plainSource = .ok text := by
  induction node generalizing other text with
  | constant value place =>
    cases other <;> cases hsame
    exact h
  | group inner place ih =>
    cases other <;> simp only [unplaced, reduceCtorEq, group.injEq, and_true] at hsame
    cases hinner : inner.plainSource with
    | error error => rw [plainSource, hinner] at h; cases h
    | ok source =>
      rw [plainSource, hinner] at h
      rw [plainSource, ih hinner hsame]
      exact h
  | unary op operand place ih =>
    cases other <;> simp only [unplaced, reduceCtorEq, unary.injEq, and_true] at hsame
    obtain ⟨rfl, hoperands⟩ := hsame
    cases hoperand : operand.plainSource with
    | error error => rw [plainSource, hoperand] at h; cases h
    | ok source =>
      rw [plainSource, hoperand] at h
      rw [plainSource, ih hoperand hoperands]
      exact h
  | binary tier left op right place ihleft ihright =>
    cases other <;> simp only [unplaced, reduceCtorEq, binary.injEq, and_true] at hsame
    obtain ⟨rfl, hlefts, rfl, hrights⟩ := hsame
    cases hleft : left.plainSource with
    | error error => rw [plainSource, hleft] at h; cases h
    | ok first =>
      cases hright : right.plainSource with
      | error error => rw [plainSource, hleft, hright] at h; cases h
      | ok second =>
        rw [plainSource, hleft, hright] at h
        rw [plainSource, ihleft hleft hlefts, ihright hright hrights]
        exact h
  | _ => cases h

theorem bodyValue?_of_unplaced {body other value : Node} (h : body.bodyValue? = some value)
    (hsame : body.unplaced = other.unplaced) :
    ∃ last, other.bodyValue? = some last ∧ value.unplaced = last.unplaced := by
  cases body with
  | ret value place =>
    cases h
    cases other <;> simp only [unplaced, reduceCtorEq, ret.injEq, and_true] at hsame
    exact ⟨_, rfl, hsame⟩
  | group inner place =>
    cases h
    cases other <;> simp only [unplaced, reduceCtorEq, group.injEq, and_true] at hsame
    exact ⟨_, rfl, hsame⟩
  | _ => cases h

theorem programSource_of_same {tree other : Node} {indent text : String}
    (h : tree.programSource indent = .ok text) (hsame : tree.same other) :
    other.programSource indent = .ok text := by
  rw [same_iff] at hsame
  cases tree with
  | program main place =>
    cases main with
    | function name body mainPlace =>
      cases hbody : body.bodyValue? with
      | none =>
        simp only [programSource, hbody] at h
        cases h
      | some value =>
        simp only [programSource, hbody, source_eq_plainSource] at h
        cases hvalue : value.plainSource with
        | error error =>
          rw [hvalue] at h
          cases h
        | ok source =>
          rw [hvalue] at h
          cases other with
          | program otherMain otherPlace =>
            cases otherMain with
            | function otherName otherBody otherMainPlace =>
              simp only [unplaced, program.injEq, function.injEq, and_true] at hsame
              obtain ⟨rfl, hbodies⟩ := hsame
              obtain ⟨last, hlast, hvalues⟩ := bodyValue?_of_unplaced hbody hbodies
              simp only [programSource, hlast, source_eq_plainSource,
                plainSource_of_unplaced hvalue hvalues]
              exact h
            | _ => simp [unplaced] at hsame
          | _ => simp [unplaced] at hsame
    | _ => cases h
  | _ => cases h

end TinyC.Node
