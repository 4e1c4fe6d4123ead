import TinyC.Proofs.Token.Cursor
import TinyC.Proofs.Tree.RoundTrip

namespace TinyC

namespace Node

-- The nodes of a tree, each before the nodes below it.
def nodes : Node → List Node
  | bare place => [bare place]
  | constant value place => [constant value place]
  | unary op operand place => unary op operand place :: operand.nodes
  | group inner place => group inner place :: inner.nodes
  | binary tier left op right place =>
    binary tier left op right place :: (left.nodes ++ right.nodes)
  | ret value place => ret value place :: value.nodes
  | function name body place => function name body place :: body.nodes
  | program main place => program main place :: main.nodes

-- The node carries the place of the token that it comes from: a literal of its value, its
-- operator, the parenthesis that opens it, or the keyword in front of it.
def ComesFrom : Node → Token → Prop
  | bare _, _ => False
  | constant value place, token => token.Spells value ∧ place = token.place
  | unary op _ place, token =>
    ∃ operator, UnaryOperator.ofTerminal? token.terminal = some operator ∧
      op = operator.symbol ∧ place = token.place
  | group _ place, token => token.terminal = .leftParen ∧ place = token.place
  | binary tier _ op _ place, token =>
    ∃ operator, tier.ofTerminal? token.terminal = some operator ∧
      op = operator.symbol ∧ place = token.place
  | ret _ place, token => token.terminal = .returnKeyword ∧ place = token.place
  | function _ _ place, token => token.terminal = .intKeyword ∧ place = token.place
  | program _ place, token => token.terminal = .intKeyword ∧ place = token.place

end Node

namespace Parser

variable {tokens : List Token} {node : Node}

-- Every node of what is derived comes from one of the tokens.
theorem Derives.exists_comesFrom {level : Level}
    (h : Derives Token.Spells level tokens node) :
    ∀ part ∈ node.nodes, ∃ token ∈ tokens, part.ComesFrom token := by
  induction h with
  | @literal token value hvalue =>
    intro part hpart
    obtain rfl := List.mem_singleton.mp hpart
    exact ⟨token, by simp, hvalue, rfl⟩
  | @unary token tokens operator operand hop _ ih =>
    intro part hpart
    rcases List.mem_cons.mp hpart with rfl | hpart
    · exact ⟨token, by simp, operator, hop, rfl, rfl⟩
    · obtain ⟨other, hother, hcomes⟩ := ih part hpart
      exact ⟨other, by simp [hother], hcomes⟩
  | @group opening closing tokens inner hopen _ _ ih =>
    intro part hpart
    rcases List.mem_cons.mp hpart with rfl | hpart
    · exact ⟨opening, by simp, hopen, rfl⟩
    · obtain ⟨other, hother, hcomes⟩ := ih part hpart
      exact ⟨other, by simp [hother], hcomes⟩
  | operand _ ih => exact ih
  | @binary tier token leftTokens rightTokens operator left right _ hop _ ihleft ihright =>
    intro part hpart
    rcases List.mem_cons.mp hpart with rfl | hpart
    · exact ⟨token, by simp, operator, hop, rfl, rfl⟩
    · rcases List.mem_append.mp hpart with hpart | hpart
      · obtain ⟨other, hother, hcomes⟩ := ihleft part hpart
        exact ⟨other, by simp [hother], hcomes⟩
      · obtain ⟨other, hother, hcomes⟩ := ihright part hpart
        exact ⟨other, by simp [hother], hcomes⟩

theorem DerivesProgram.exists_comesFrom (h : DerivesProgram Token.Spells tokens node) :
    ∀ part ∈ node.nodes, ∃ token ∈ tokens, part.ComesFrom token := by
  cases h with
  | @function int name openParen closeParen openBrace keyword semicolon closeBrace tokens value
      hint _ _ _ _ hkeyword hvalue _ _ =>
    intro part hpart
    simp only [Node.nodes, List.mem_cons] at hpart
    rcases hpart with rfl | rfl | rfl | hpart
    · exact ⟨int, by simp, hint, rfl⟩
    · exact ⟨int, by simp, hint, rfl⟩
    · exact ⟨keyword, by simp, hkeyword, rfl⟩
    · obtain ⟨other, hother, hcomes⟩ := hvalue.exists_comesFrom part hpart
      exact ⟨other, by simp [hother], hcomes⟩

end Parser

-- The tree of a text is derived from its tokens as they stand in it.
theorem derives_of_parseSource {source : String} {limit : Int} {log : Log} {tree : Node}
    (h : (parseSource source limit log).1 = .ok tree) :
    ∃ tokens, (tokenize source log).1 = .ok tokens ∧ LaidOut [] source.toList tokens ∧
      Parser.DerivesProgram Token.Spells tokens tree := by
  obtain ⟨tokens, htokens, hparse⟩ := parseSource_eq_ok_iff.mp h
  obtain ⟨hderives, _⟩ := Parser.derives_of_parse hparse
  obtain ⟨last, hlexes⟩ := (Lexer.tokenize_eq_ok_iff source log tokens).mp htokens
  refine ⟨tokens, htokens, Lexer.laidOut_of_tokenize htokens, hderives.mono ?_⟩
  intro token htoken value hvalue
  exact (Parser.spells_of_decoded (hlexes.isSpelled token htoken) hvalue).1

-- However a lexer is read and fed, its cursor, tokens and errors are placed where they stand in
-- the text. So is every node of a tree that is read from a text: where its own token stands.
theorem places_are_exact :
    (∀ lexer, Lexer.Used lexer → lexer.IsExact ∧
      ∀ log, Lexer.Reports lexer (lexer.resume log).1 (lexer.resume log).2.1) ∧
    ∀ source limit log tree, (parseSource source limit log).1 = .ok tree →
      ∃ tokens, (tokenize source log).1 = .ok tokens ∧ LaidOut [] source.toList tokens ∧
        Parser.DerivesProgram Token.Spells tokens tree ∧
        ∀ node ∈ tree.nodes, ∃ token ∈ tokens, node.ComesFrom token := by
  constructor
  · intro lexer hused
    exact ⟨hused.isExact, fun log => (hused.isExact.resume log).2⟩
  · intro source limit log tree htree
    obtain ⟨tokens, htokens, hlaid, hderives⟩ := derives_of_parseSource htree
    exact ⟨tokens, htokens, hlaid, hderives, hderives.exists_comesFrom⟩

-- A lexer that has read a line and is then fed a foreign character.
def fedLexer : Lexer := ((Lexer.ofSource "1\n").resume .silent).2.1.feed "_"

def twoLinesTree : Node :=
  .program (.function (some "f") (.ret (.unary "-" (.constant 1 ⟨2, 9⟩) ⟨2, 8⟩) ⟨2, 1⟩) ⟨1, 1⟩)
    ⟨1, 1⟩

-- The foreign character is the first of the second line, and a program of two lines has its tree.
theorem places_are_exact_lines :
    Lexer.Used fedLexer ∧ fedLexer.IsExact ∧
      (fedLexer.resume .silent).1 = .error (.unmatched ⟨['_'], ⟨2, 1⟩⟩) ∧
      Lexer.Reports fedLexer (fedLexer.resume .silent).1 (fedLexer.resume .silent).2.1 ∧
      (parseSource "int f() \x7b\nreturn -1; \x7d" 128 .silent).1 = .ok twoLinesTree ∧
      ∃ tokens, (tokenize "int f() \x7b\nreturn -1; \x7d" .silent).1 = .ok tokens ∧
        LaidOut [] "int f() \x7b\nreturn -1; \x7d".toList tokens ∧
        Parser.DerivesProgram Token.Spells tokens twoLinesTree ∧
        ∀ node ∈ twoLinesTree.nodes, ∃ token ∈ tokens, node.ComesFrom token := by
  have hused : Lexer.Used fedLexer := .feed "_" (.tokenize .silent (.fresh "1\n"))
  have hread : (fedLexer.resume .silent).1 = .error (.unmatched ⟨['_'], ⟨2, 1⟩⟩) := by
    decide +kernel
  have htree : (parseSource "int f() \x7b\nreturn -1; \x7d" 128 .silent).1 = .ok twoLinesTree := by
    decide +kernel
  obtain ⟨hexact, hreports⟩ := places_are_exact.1 fedLexer hused
  exact ⟨hused, hexact, hread, hreports .silent, htree, places_are_exact.2 _ _ _ _ htree⟩

end TinyC
