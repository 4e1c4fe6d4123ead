import TinyC.Proofs.Token.Literal
import TinyC.Proofs.Tree.Exact

namespace TinyC

namespace Parser

variable {denotes : Token → Int → Prop} {level : Level} {tokens : List Token}

-- A relation between literals and their values under which a literal has one value.
structure IsDenotation (denotes : Token → Int → Prop) : Prop where
  functional : ∀ {token first second}, denotes token first → denotes token second → first = second
  isLiteral : ∀ {token value}, denotes token value → ∃ base, token.terminal.base? = some base

theorem isDenotation_spells : IsDenotation Token.Spells where
  functional := Token.Spells.functional
  isLiteral := by
    rintro token value ⟨base, digits, hdigits, _⟩
    exact ⟨base, hdigits.base?_eq⟩

-- The values of literals can be decoded from them.
theorem IsDenotation.exists_decode (h : IsDenotation denotes) :
    ∃ decode, ∀ token value, denotes token value → Decoded decode token value := by
  classical
  let decode := fun (base : Numeral.Base) (token : Token) =>
    if hvalue : ∃ value, denotes token value then
      (.ok hvalue.choose : Except ParseError Int)
    else .error (.noText base)
  refine ⟨decode, ?_⟩
  intro token value hvalue
  obtain ⟨base, hbase⟩ := h.isLiteral hvalue
  have hexists : ∃ value, denotes token value := ⟨value, hvalue⟩
  refine ⟨base, hbase, ?_⟩
  simp only [decode, dif_pos hexists, h.functional hexists.choose_spec hvalue]

theorem fits_zero_of_le {limit : Int} {node : Node} (h : (node.nesting : Int) ≤ limit) :
    Fits limit 0 node := by
  intro _
  omega

theorem Derives.reads_whole {decode : Numeral.Base → Token → Except ParseError Int}
    {limit : Int} {node : Node} (h : Derives (Decoded decode) level tokens node)
    (hlimit : (node.nesting : Int) ≤ limit) :
    Reads decode limit (.whole level) 0 tokens (.ok (node, [])) := by
  have hcomplete := h.complete 0 (fits_zero_of_le hlimit)
  cases level with
  | factor => simpa using hcomplete []
  | chain tier =>
    have hbounds : Bounds tier [] := by cases tier <;> simp [Bounds, Ends]
    simpa using hcomplete [] _ hbounds (.ends (by simp [Ends]))

-- Tokens have one tree: reading leaves no choice, and finds every tree that they have.
theorem Derives.functional {first second : Node} (hdenotes : IsDenotation denotes)
    (hfirst : Derives denotes level tokens first) (hsecond : Derives denotes level tokens second) :
    first = second := by
  obtain ⟨decode, hdecode⟩ := hdenotes.exists_decode
  have hfirstLimit : (first.nesting : Int) ≤ max first.nesting second.nesting := by omega
  have hsecondLimit : (second.nesting : Int) ≤ max first.nesting second.nesting := by omega
  have hfirst := (hfirst.mono fun token _ => hdecode token).reads_whole hfirstLimit
  have hsecond := (hsecond.mono fun token _ => hdecode token).reads_whole hsecondLimit
  have houtcome := hfirst.functional hsecond
  cases houtcome
  rfl

theorem DerivesProgram.functional {first second : Node} (hdenotes : IsDenotation denotes)
    (hfirst : DerivesProgram denotes tokens first)
    (hsecond : DerivesProgram denotes tokens second) : first = second := by
  cases hfirst with
  | function _ _ _ _ _ _ hfirst _ _ =>
    generalize htokens : _ :: _ = tokens at hsecond
    cases hsecond with
    | function _ _ _ _ _ _ hsecond _ _ =>
      simp only [List.cons.injEq] at htokens
      obtain ⟨rfl, rfl, rfl, rfl, rfl, rfl, hinner⟩ := htokens
      obtain ⟨rfl, _⟩ := List.append_inj' hinner rfl
      rw [hfirst.functional hdenotes hsecond]

-- Chains of two operators of the tier have one tree, which leans to the left.
def LeftAssociative (denotes : Token → Int → Prop) (tier : Tier) : Prop :=
  ∀ {firstTokens middleTokens lastTokens : List Token} {first middle last : Node}
    {leftToken rightToken : Token} {leftOperator rightOperator : BinaryOperator},
    Derives denotes (operandLevel tier) firstTokens first →
    tier.ofTerminal? leftToken.terminal = some leftOperator →
    Derives denotes (operandLevel tier) middleTokens middle →
    tier.ofTerminal? rightToken.terminal = some rightOperator →
    Derives denotes (operandLevel tier) lastTokens last →
    ∀ node, Derives denotes (.chain tier)
        (firstTokens ++ leftToken :: middleTokens ++ rightToken :: lastTokens) node ↔
      node = .binary tier (.binary tier first leftOperator.symbol middle leftToken.place)
        rightOperator.symbol last rightToken.place

theorem IsDenotation.leftAssociative (h : IsDenotation denotes) (tier : Tier) :
    LeftAssociative denotes tier := by
  intro _ _ _ first middle last leftToken rightToken _ _ hfirst hleft hmiddle hright hlast node
  have hderives := Derives.binary (.binary (.operand hfirst) hleft hmiddle) hright hlast
  constructor
  · intro hnode
    exact hnode.functional h hderives
  · rintro rfl
    exact hderives

-- The tokens spell the tree, wherever its nodes are placed.
def SpellsTree (tokens : List Token) (tree : Node) : Prop :=
  ∃ placed, DerivesProgram Token.Spells tokens placed ∧ placed.same tree

-- All literals are words.
def NarrowLiterals (tokens : List Token) : Prop :=
  ∀ token ∈ tokens, ∀ value, token.Spells value → value ≤ largestConstant

theorem DerivesProgram.narrowLiterals {tree : Node}
    (hspelled : ∀ token ∈ tokens, token.IsSpelled)
    (h : DerivesProgram (Decoded literalValue) tokens tree) : NarrowLiterals tokens := by
  intro token htoken value hvalue
  obtain ⟨base, hbase⟩ := isDenotation_spells.isLiteral hvalue
  obtain ⟨decoded, hdecoded⟩ := h.denotes_of_mem htoken hbase
  obtain ⟨hspells, hnarrow⟩ := spells_of_decoded (hspelled token htoken) hdecoded
  rwa [hvalue.functional hspells]

-- The parser reads what the grammar derives, places included.
theorem parse_eq_ok_iff (hspelled : ∀ token ∈ tokens, token.IsSpelled ∧ token.IsShort) {limit : Int}
    (hlimit : 0 ≤ limit) (log : Log) (tree : Node) :
    (parse tokens limit log).1 = .ok tree ↔
      DerivesProgram Token.Spells tokens tree ∧ NarrowLiterals tokens ∧
        (tree.nesting : Int) ≤ limit := by
  constructor
  · intro h
    obtain ⟨hderives, hfits⟩ := derives_of_parse h
    refine ⟨?_, hderives.narrowLiterals fun token htoken => (hspelled token htoken).1, ?_⟩
    · exact hderives.mono fun token htoken value hvalue =>
        (spells_of_decoded (hspelled token htoken).1 hvalue).1
    · unfold Fits at hfits
      omega
  · rintro ⟨hderives, hnarrow, hnesting⟩
    refine parse_of_derives (hderives.mono ?_) (fits_zero_of_le hnesting) log
    intro token htoken value hvalue
    exact decoded_of_spells (hspelled token htoken).2 hvalue (hnarrow token htoken value hvalue)

-- Reading accepts exactly what the grammar derives with words for literals and within the
-- limit, and builds the tree that it derives. The grammar gives tokens at most one tree, which
-- keeps the tiers apart, and chains of either tier lean to the left.
theorem parse_accepts_grammar (hspelled : ∀ token ∈ tokens, token.IsSpelled ∧ token.IsShort)
    {limit : Int} (hlimit : 0 ≤ limit) (log : Log) :
    (∀ tree, (∃ read, (parse tokens limit log).1 = .ok read ∧ read.same tree) ↔
      SpellsTree tokens tree ∧ NarrowLiterals tokens ∧ (tree.nesting : Int) ≤ limit) ∧
    (∀ first second, DerivesProgram Token.Spells tokens first →
      DerivesProgram Token.Spells tokens second → first = second) ∧
    (∀ tree, SpellsTree tokens tree → tree.KeepsTiers) ∧
    ∀ tier, LeftAssociative Token.Spells tier := by
  refine ⟨?_, ?_, ?_, ?_⟩
  · intro tree
    constructor
    · rintro ⟨read, hread, hsame⟩
      obtain ⟨hderives, hnarrow, hnesting⟩ := (parse_eq_ok_iff hspelled hlimit log read).mp hread
      rw [Node.nesting_of_same hsame] at hnesting
      exact ⟨⟨read, hderives, hsame⟩, hnarrow, hnesting⟩
    · rintro ⟨⟨placed, hderives, hsame⟩, hnarrow, hnesting⟩
      rw [← Node.nesting_of_same hsame] at hnesting
      exact ⟨placed, (parse_eq_ok_iff hspelled hlimit log placed).mpr ⟨hderives, hnarrow, hnesting⟩,
        hsame⟩
  · intro first second hfirst hsecond
    exact hfirst.functional isDenotation_spells hsecond
  · rintro tree ⟨placed, hderives, hsame⟩
    exact Node.keepsTiers_of_same hsame hderives.keepsTiers
  · exact isDenotation_spells.leftAssociative

-- The tokens of `int f() { return -1; }`, all at one place.
def negatedOne : List Token :=
  [⟨.intKeyword, none, .start⟩, ⟨.identifier, some "f", .start⟩, ⟨.leftParen, none, .start⟩,
   ⟨.rightParen, none, .start⟩, ⟨.leftBrace, none, .start⟩, ⟨.returnKeyword, none, .start⟩,
   ⟨.minus, none, .start⟩, ⟨.decimal, some "1", .start⟩, ⟨.semicolon, none, .start⟩,
   ⟨.rightBrace, none, .start⟩]

theorem hasDigits_one : Token.HasDigits ⟨.decimal, some "1", .start⟩ .ten ['1'] := by
  refine ⟨by decide, ?_, rfl, rfl⟩
  intro c hc
  rw [List.mem_singleton.mp hc]
  rfl

theorem negatedOne_literal {token : Token} (htoken : token ∈ negatedOne) :
    token.terminal.base? = none ∨ token = ⟨.decimal, some "1", .start⟩ := by
  simp only [negatedOne, List.mem_cons, List.not_mem_nil, or_false] at htoken
  rcases htoken with rfl | rfl | rfl | rfl | rfl | rfl | rfl | rfl | rfl | rfl <;>
    first | exact .inl rfl | exact .inr rfl

theorem negatedOne_spelled : ∀ token ∈ negatedOne, token.IsSpelled ∧ token.IsShort := by
  intro token htoken
  rcases negatedOne_literal htoken with hbase | rfl
  · constructor
    · intro base h
      rw [hbase] at h
      cases h
    · intro digits h
      rw [h.base?_eq] at hbase
      cases hbase
  · constructor
    · intro base h
      cases h
      exact ⟨_, hasDigits_one⟩
    · intro digits h
      obtain ⟨_, rfl⟩ := h.functional hasDigits_one
      decide

theorem negatedOne_narrow : NarrowLiterals negatedOne := by
  rintro token htoken value ⟨base, digits, hdigits, rfl⟩
  rcases negatedOne_literal htoken with hbase | rfl
  · rw [hdigits.base?_eq] at hbase
    cases hbase
  · obtain ⟨rfl, rfl⟩ := hdigits.functional hasDigits_one
    decide

theorem negatedOne_derives : DerivesProgram Token.Spells negatedOne
    (.program (.function (some "f") (.ret (.unary "-" (.constant 1 .start) .start) .start) .start)
      .start) := by
  have hone : Token.Spells ⟨.decimal, some "1", .start⟩ 1 := ⟨_, _, hasDigits_one, by decide⟩
  have hminus : UnaryOperator.ofTerminal? (⟨.minus, none, .start⟩ : Token).terminal =
      some .negate := rfl
  have hvalue : Derives Token.Spells (.chain .additive)
      [⟨.minus, none, .start⟩, ⟨.decimal, some "1", .start⟩]
      (.unary "-" (.constant 1 .start) .start) :=
    .operand (.operand (.unary hminus (.literal hone)))
  exact .function rfl rfl rfl rfl rfl rfl hvalue rfl rfl

-- One level of nesting is enough for a negated literal, and none is not.
theorem parse_accepts_grammar_negatedOne :
    (∀ token ∈ negatedOne, token.IsSpelled ∧ token.IsShort) ∧ (0 : Int) ≤ 0 ∧ (0 : Int) ≤ 1 ∧
      (∃ read, (parse negatedOne 1 .silent).1 = .ok read ∧
        read.same (.program (.function (some "f")
          (.ret (.unary "-" (.constant 1 ⟨1, 18⟩) ⟨1, 17⟩) ⟨1, 10⟩) ⟨1, 1⟩) ⟨1, 1⟩)) ∧
      ¬ ∃ read, (parse negatedOne 0 .silent).1 = .ok read ∧
        read.same (.program (.function (some "f")
          (.ret (.unary "-" (.constant 1 ⟨1, 18⟩) ⟨1, 17⟩) ⟨1, 10⟩) ⟨1, 1⟩) ⟨1, 1⟩) := by
  refine ⟨negatedOne_spelled, by decide, by decide, ?_, ?_⟩
  · apply ((parse_accepts_grammar negatedOne_spelled (by decide) .silent).1 _).mpr
    exact ⟨⟨_, negatedOne_derives, by decide⟩, negatedOne_narrow, by decide⟩
  · intro h
    have hread := ((parse_accepts_grammar negatedOne_spelled (by decide) .silent).1 _).mp h
    exact absurd hread.2.2 (by decide)

end Parser

end TinyC
