import TinyC.Proofs.Token.Spacing
import TinyC.Proofs.Tree.Reach

namespace TinyC

-- The fault without the places of the tokens that it is about.
def ParseError.unplaced : ParseError → ParseError
  | unexpected found expected => unexpected (found.map Token.unplaced) expected
  | noFactor found => noFactor (found.map Token.unplaced)
  | tooDeep limit token => tooDeep limit token.unplaced
  | tooWide token => tooWide token.unplaced
  | badNumeral fault => badNumeral fault
  | noText base => noText base

namespace Parser

def Stop.unplaced (stop : Stop) : Stop :=
  { stop with error := stop.error.unplaced, left := stop.left.map Token.unplaced }

def Goal.unplaced : Goal → Goal
  | .whole level => .whole level
  | .rest tier left => .rest tier left.unplaced

def Outcome.unplaced : Outcome → Outcome
  | .error stop => .error stop.unplaced
  | .ok (node, left) => .ok (node.unplaced, left.map Token.unplaced)

@[simp] theorem terminal_unplaced (token : Token) : token.unplaced.terminal = token.terminal := rfl

theorem forall_head?_unplaced {tokens : List Token} {p : Terminal → Prop} :
    (∀ token ∈ (tokens.map Token.unplaced).head?, p token.terminal) ↔
      ∀ token ∈ tokens.head?, p token.terminal := by
  cases tokens <;> simp

theorem literalValue_unplaced (base : Numeral.Base) (token : Token) :
    literalValue base token.unplaced =
      (literalValue base token).mapError ParseError.unplaced := by
  obtain ⟨terminal, value, place⟩ := token
  unfold literalValue Token.unplaced
  cases value with
  | none => rfl
  | some text =>
    dsimp only
    split
    · rfl
    · split <;> rfl

theorem literalValue_unplaced_ok {base : Numeral.Base} {token : Token} {value : Int}
    (h : literalValue base token = .ok value) :
    literalValue base token.unplaced = .ok value := by
  rw [literalValue_unplaced, h]
  rfl

variable {limit : Int} {depth : Nat} {tokens : List Token}

-- Reading takes no notice of places: what is read from tokens without them is the same node or
-- the same stop without them.
theorem Reads.unplaced {goal : Goal} {outcome : Outcome}
    (h : Reads literalValue limit goal depth tokens outcome) :
    Reads literalValue limit goal.unplaced depth (tokens.map Token.unplaced) outcome.unplaced := by
  induction h with
  | noToken => exact .noToken
  | noFactor hopens hbase => exact .noFactor hopens hbase
  | literal hbase hvalue => exact .literal hbase (literalValue_unplaced_ok hvalue)
  | badLiteral hbase hvalue =>
    refine .badLiteral hbase ?_
    rw [literalValue_unplaced, hvalue]
    rfl
  | tooDeep hopens hdepth => exact .tooDeep hopens hdepth
  | unary hop hdepth _ ih => exact .unary hop hdepth ih
  | badOperand hop hdepth _ ih => exact .badOperand hop hdepth ih
  | group hopen hdepth _ hclose ih => exact .group hopen hdepth ih hclose
  | @unclosed depth token rest left inner hopen hdepth _ hclose ih =>
    have hunclosed : Reads literalValue limit (.whole .factor) depth
        (token.unplaced :: rest.map Token.unplaced) _ :=
      .unclosed hopen hdepth ih ((forall_head?_unplaced (p := (· ≠ .rightParen))).mpr hclose)
    rw [List.head?_map] at hunclosed
    exact hunclosed
  | badInner hopen hdepth _ ih => exact .badInner hopen hdepth ih
  | chain _ _ ihfirst ihrest => exact .chain ihfirst ihrest
  | badFirst _ ih => exact .badFirst ih
  | @ends tier depth left tokens hends =>
    exact .ends ((forall_head?_unplaced (p := (tier.ofTerminal? · = none))).mpr hends)
  | link hop _ _ ihright ihrest => exact .link hop ihright ihrest
  | badRight hop _ ih => exact .badRight hop ih

theorem Follows.unplaced {pieces : List Piece} {outcome : Except Stop Unit}
    (h : Follows limit depth pieces tokens outcome) :
    Follows limit depth pieces (tokens.map Token.unplaced) (outcome.mapError Stop.unplaced) := by
  induction h with
  | done => exact .done
  | trailing => exact .trailing
  | terminal hwanted _ ih => exact .terminal hwanted ih
  | @unexpected wanted expected tokens pieces hother =>
    have hunexpected : Follows limit depth (.terminal wanted expected :: pieces) _ _ :=
      .unexpected ((forall_head?_unplaced (p := (· ≠ wanted))).mpr hother)
    rw [List.head?_map] at hunexpected
    exact hunexpected
  | value hreads hsemicolon _ ih => exact .value hreads.unplaced hsemicolon ih
  | @unclosed tokens left node pieces hreads hclosing =>
    have hunclosed : Follows limit depth (.value :: pieces) _ _ :=
      .unclosed hreads.unplaced ((forall_head?_unplaced (p := (· ≠ .semicolon))).mpr hclosing)
    rw [List.head?_map] at hunclosed
    exact hunclosed
  | badValue hreads => exact .badValue hreads.unplaced

theorem Decoded.unplaced {token : Token} {value : Int} (h : Decoded literalValue token value) :
    Decoded literalValue token.unplaced value := by
  obtain ⟨base, hbase, hvalue⟩ := h
  exact ⟨base, hbase, literalValue_unplaced_ok hvalue⟩

theorem Derives.unplaced {level : Level} {node : Node}
    (h : Derives (Decoded literalValue) level tokens node) :
    Derives (Decoded literalValue) level (tokens.map Token.unplaced) node.unplaced := by
  induction h with
  | literal hvalue => exact .literal hvalue.unplaced
  | unary hop _ ih => exact .unary hop ih
  | group hopen _ hclose ih =>
    rw [List.map_append]
    exact .group hopen ih hclose
  | operand _ ih => exact .operand ih
  | binary _ hop _ ihleft ihright =>
    rw [List.map_append]
    exact .binary ihleft hop ihright

theorem DerivesProgram.unplaced {tree : Node}
    (h : DerivesProgram (Decoded literalValue) tokens tree) :
    DerivesProgram (Decoded literalValue) (tokens.map Token.unplaced) tree.unplaced := by
  cases h with
  | function hint hname hopenParen hcloseParen hopenBrace hkeyword hvalue hsemicolon hcloseBrace =>
    simp only [List.map_cons, List.map_append, List.map_nil]
    exact .function hint hname hopenParen hcloseParen hopenBrace hkeyword hvalue.unplaced
      hsemicolon hcloseBrace

end Parser

-- What the parser gives, without places.
def unplacedResult (result : Except ParseError Node) : Except ParseError Node :=
  (result.map Node.unplaced).mapError ParseError.unplaced

theorem parse_unplaced (tokens : List Token) (limit : Int) (log other : Log) :
    (parse (tokens.map Token.unplaced) limit other).1 =
      unplacedResult (parse tokens limit log).1 := by
  rcases Parser.accepts_or_follows limit tokens log with
    ⟨tree, htree⟩ | ⟨stop, hstop, herror⟩
  · obtain ⟨hderives, hfits⟩ := Parser.derives_of_parse htree
    have hunplaced : Parser.Fits limit 0 tree.unplaced := by
      simpa [Parser.Fits] using hfits
    rw [htree, Parser.parse_of_derives hderives.unplaced hunplaced]
    rfl
  · rw [herror]
    rcases Parser.accepts_or_follows limit (tokens.map Token.unplaced) other with
      haccepts | ⟨last, hlast, hother⟩
    · exact absurd haccepts hstop.unplaced.not_accepts
    · have hsame := hstop.unplaced.functional hlast
      cases hsame
      exact hother

-- Tokens that differ in their places only are read as trees, or faults, that differ in places only.
theorem parse_of_unplaced_eq {tokens found : List Token}
    (h : tokens.map Token.unplaced = found.map Token.unplaced) (limit : Int) (log other : Log) :
    unplacedResult (parse tokens limit log).1 = unplacedResult (parse found limit other).1 := by
  rw [← parse_unplaced tokens limit log .silent, h, parse_unplaced found limit other .silent]

end TinyC
