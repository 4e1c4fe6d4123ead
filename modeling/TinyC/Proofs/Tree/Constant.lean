import TinyC.Proofs.Token.Respelling
import TinyC.Proofs.Tree.Reach
import TinyC.Proofs.Tree.RoundTrip
import TinyC.Proofs.Tree.Unplaced

namespace TinyC

-- The constants of a tree in the order in which they are written.
def Node.constants : Node → List Node
  | bare _ => []
  | constant value place => [constant value place]
  | unary _ operand _ => operand.constants
  | group inner _ => inner.constants
  | binary _ left _ right _ => left.constants ++ right.constants
  | ret value _ => value.constants
  | function _ body _ => body.constants
  | program main _ => main.constants

-- Of tokens only the literals, as constants of their positional values.
def literalConstants (tokens : List Token) : List Node :=
  (tokens.filter (·.terminal.category = .integer)).map fun token =>
    .constant token.denoted token.place

namespace Token

theorem Spells.denoted_eq {token : Token} {value : Int} (h : token.Spells value) :
    value = token.denoted := by
  obtain ⟨base, digits, hdigits, rfl⟩ := h
  rw [hdigits.denoted_eq]

theorem Spells.isSpelled {token : Token} {value : Int} (h : token.Spells value) :
    token.IsSpelled := by
  obtain ⟨base, digits, hdigits, _⟩ := h
  intro other hother
  obtain rfl := Option.some.inj (hdigits.base?_eq.symm.trans hother)
  exact ⟨digits, hdigits⟩

theorem Spells.category_eq {token : Token} {value : Int} (h : token.Spells value) :
    token.terminal.category = .integer := by
  obtain ⟨base, digits, hdigits, _⟩ := h
  have hbase := hdigits.base?_eq
  generalize token.terminal = terminal at hbase
  cases terminal <;> cases hbase <;> rfl

-- What is no literal agrees with its like alone.
theorem Agrees.unplaced_eq {first second : Token} (h : first.Agrees second)
    (hbase : first.terminal.base? = none) : first.unplaced = second.unplaced := by
  cases h with
  | same h => exact h
  | literal hfirst _ _ =>
    obtain ⟨base, digits, hdigits, _⟩ := hfirst
    rw [hdigits.base?_eq] at hbase
    cases hbase

theorem Agrees.terminal_eq {first second : Token} {terminal : Terminal} (h : first.Agrees second)
    (hfirst : first.terminal = terminal) (hbase : terminal.base? = none) :
    second.terminal = terminal := by
  rw [← hfirst] at hbase
  have hterminal := congrArg Token.terminal (h.unplaced_eq hbase)
  exact hterminal.symm.trans hfirst

end Token

theorem initial_of_unary {terminal : Terminal} {operator : UnaryOperator}
    (h : UnaryOperator.ofTerminal? terminal = some operator) : terminal.initial = .symbol := by
  cases terminal <;> first | rfl | cases h

theorem initial_of_binary {tier : Tier} {terminal : Terminal} {operator : BinaryOperator}
    (h : tier.ofTerminal? terminal = some operator) : terminal.initial = .symbol := by
  cases tier <;> cases terminal <;> first | rfl | cases h

theorem literalConstants_append (front back : List Token) :
    literalConstants (front ++ back) = literalConstants front ++ literalConstants back := by
  simp [literalConstants]

theorem literalConstants_cons_of_ne {token : Token} (h : token.terminal.category ≠ .integer)
    (tokens : List Token) : literalConstants (token :: tokens) = literalConstants tokens := by
  simp [literalConstants, h]

theorem category_ne_of_symbol {terminal : Terminal} (h : terminal.initial = .symbol) :
    terminal.category ≠ .integer := by
  intro hinteger
  rw [Terminal.initial, hinteger] at h
  cases h

namespace Parser

variable {level : Level} {tokens found : List Token} {node : Node}

theorem Derives.constants_eq (h : Derives Token.Spells level tokens node) :
    node.constants = literalConstants tokens := by
  induction h with
  | literal hvalue =>
    simp [Node.constants, literalConstants, hvalue.category_eq, ← hvalue.denoted_eq]
  | unary hop _ ih =>
    rw [literalConstants_cons_of_ne (category_ne_of_symbol (initial_of_unary hop)), ← ih]
    rfl
  | group hopen _ hclose ih =>
    rw [List.cons_append, literalConstants_cons_of_ne (by rw [hopen]; decide),
      literalConstants_append, literalConstants_cons_of_ne (by rw [hclose]; decide), ← ih]
    simp [Node.constants, literalConstants]
  | operand _ ih => exact ih
  | binary _ hop _ ihleft ihright =>
    rw [literalConstants_append,
      literalConstants_cons_of_ne (category_ne_of_symbol (initial_of_binary hop)), ← ihleft,
      ← ihright]
    rfl

theorem DerivesProgram.constants_eq (h : DerivesProgram Token.Spells tokens node) :
    node.constants = literalConstants tokens := by
  cases h with
  | function hint hname hopenParen hcloseParen hopenBrace hkeyword hvalue hsemicolon hcloseBrace =>
    have hnone : ∀ {token : Token} {terminal : Terminal}, token.terminal = terminal →
        terminal.category ≠ .integer → ∀ tokens,
          literalConstants (token :: tokens) = literalConstants tokens := by
      rintro token _ rfl hother tokens
      exact literalConstants_cons_of_ne hother tokens
    rw [hnone hint (by decide), hnone hname (by decide), hnone hopenParen (by decide),
      hnone hcloseParen (by decide), hnone hopenBrace (by decide), hnone hkeyword (by decide),
      literalConstants_append, hnone hsemicolon (by decide), hnone hcloseBrace (by decide),
      ← hvalue.constants_eq]
    simp [Node.constants, literalConstants]

-- The constants of a program are its literals.
theorem constants_of_parse {limit : Int} {log : Log} (h : (parse tokens limit log).1 = .ok node)
    (hspelled : ∀ token ∈ tokens, token.IsSpelled) : node.constants = literalConstants tokens := by
  refine ((derives_of_parse h).1.mono ?_).constants_eq
  intro token htoken value hvalue
  exact (spells_of_decoded (hspelled token htoken) hvalue).1

-- In an expression operators or parentheses stand between all literals.
theorem Derives.detached {denotes : Token → Int → Prop} (h : Derives denotes level tokens node) :
    tokens.IsChain Token.Detached := by
  induction h with
  | literal _ => exact .singleton _
  | unary hop _ ih => exact ih.cons fun _ _ => .inl (initial_of_unary hop)
  | group hopen _ hclose ih =>
    refine (ih.cons fun _ _ => .inl (by rw [hopen]; rfl)).append (.singleton _) ?_
    intro _ _ next hnext
    cases hnext
    exact .inr (.inr (by rw [hclose]; rfl))
  | operand _ ih => exact ih
  | binary _ hop _ ihleft ihright =>
    refine ihleft.append (ihright.cons fun _ _ => .inl (initial_of_binary hop)) ?_
    intro _ _ next hnext
    cases hnext
    exact .inr (.inr (initial_of_binary hop))

-- In a program only keywords stand in front of other words.
theorem DerivesProgram.detached {denotes : Token → Int → Prop}
    (h : DerivesProgram denotes tokens node) : tokens.IsChain Token.Detached := by
  cases h with
  | function hint hname hopenParen hcloseParen hopenBrace hkeyword hvalue hsemicolon hcloseBrace =>
    have hsymbol : ∀ {token : Token} {terminal : Terminal}, token.terminal = terminal →
        terminal.initial = .symbol → token.terminal.initial = .symbol := by
      rintro token _ rfl h
      exact h
    refine .cons_cons (.inr (.inl (by rw [hint]; rfl))) ?_
    refine .cons_cons (.inr (.inr (hsymbol hopenParen rfl))) ?_
    refine .cons_cons (.inl (hsymbol hopenParen rfl)) ?_
    refine .cons_cons (.inl (hsymbol hcloseParen rfl)) ?_
    refine .cons_cons (.inl (hsymbol hopenBrace rfl)) ?_
    refine .cons ?_ fun _ _ => .inr (.inl (by rw [hkeyword]; rfl))
    refine hvalue.detached.append ?_ ?_
    · exact .cons_cons (.inl (hsymbol hsemicolon rfl)) (.singleton _)
    · intro _ _ next hnext
      cases hnext
      exact .inr (.inr (hsymbol hsemicolon rfl))

-- What agrees with a literal is decoded as that is.
theorem Decoded.of_agrees {first second : Token} {value : Int}
    (h : Decoded literalValue first value) (hagrees : first.Agrees second) :
    Decoded literalValue second value := by
  cases hagrees with
  | same hsame =>
    obtain ⟨base, hbase, hvalue⟩ := h.unplaced
    rw [hsame] at hbase hvalue
    refine ⟨base, hbase, ?_⟩
    rw [literalValue_unplaced] at hvalue
    cases hsecond : literalValue base second with
    | error error =>
      rw [hsecond] at hvalue
      cases hvalue
    | ok other =>
      rw [hsecond] at hvalue
      exact hvalue
  | literal hfirst hsecond hshort =>
    obtain ⟨hspells, hnarrow⟩ := spells_of_decoded hfirst.isSpelled h
    obtain rfl := hspells.functional hfirst
    exact decoded_of_spells hshort hsecond hnarrow

theorem exists_append_of_agrees {front back found : List Token}
    (h : List.Forall₂ Token.Agrees (front ++ back) found) :
    ∃ first last, found = first ++ last ∧ List.Forall₂ Token.Agrees front first ∧
      List.Forall₂ Token.Agrees back last := by
  induction front generalizing found with
  | nil => exact ⟨[], found, rfl, .nil, h⟩
  | cons token front ih =>
    obtain ⟨other, rest, hagrees, hrest, rfl⟩ := List.forall₂_cons_left_iff.mp h
    obtain ⟨first, last, rfl, hfirst, hlast⟩ := ih hrest
    exact ⟨other :: first, last, rfl, .cons hagrees hfirst, hlast⟩

-- Tokens that agree are derived as one tree, but for places.
theorem Derives.of_agrees (h : Derives (Decoded literalValue) level tokens node)
    (hagrees : List.Forall₂ Token.Agrees tokens found) :
    ∃ other, Derives (Decoded literalValue) level found other ∧ other.unplaced = node.unplaced := by
  induction h generalizing found with
  | literal hvalue =>
    obtain ⟨second, rest, hagree, hrest, rfl⟩ := List.forall₂_cons_left_iff.mp hagrees
    cases hrest
    exact ⟨_, .literal (hvalue.of_agrees hagree), rfl⟩
  | unary hop _ ih =>
    obtain ⟨second, rest, hagree, hrest, rfl⟩ := List.forall₂_cons_left_iff.mp hagrees
    obtain ⟨operand, hoperand, hsame⟩ := ih hrest
    rw [← hagree.terminal_eq rfl (base?_of_unary hop)] at hop
    refine ⟨_, .unary hop hoperand, ?_⟩
    rw [Node.unplaced, Node.unplaced, hsame]
  | group hopen _ hclose ih =>
    obtain ⟨first, last, rfl, hfront, hlast⟩ := exists_append_of_agrees hagrees
    obtain ⟨opening, rest, hopening, hrest, rfl⟩ := List.forall₂_cons_left_iff.mp hfront
    obtain ⟨closing, after, hclosing, hafter, rfl⟩ := List.forall₂_cons_left_iff.mp hlast
    cases hafter
    obtain ⟨inner, hinner, hsame⟩ := ih hrest
    refine ⟨_, .group (hopening.terminal_eq hopen rfl) hinner (hclosing.terminal_eq hclose rfl), ?_⟩
    rw [Node.unplaced, Node.unplaced, hsame]
  | operand _ ih =>
    obtain ⟨other, hother, hsame⟩ := ih hagrees
    exact ⟨other, .operand hother, hsame⟩
  | binary _ hop _ ihleft ihright =>
    obtain ⟨first, last, rfl, hfront, hlast⟩ := exists_append_of_agrees hagrees
    obtain ⟨sign, rest, hsign, hrest, rfl⟩ := List.forall₂_cons_left_iff.mp hlast
    obtain ⟨left, hleft, hsameLeft⟩ := ihleft hfront
    obtain ⟨right, hright, hsameRight⟩ := ihright hrest
    rw [← hsign.terminal_eq rfl (base?_of_ofTerminal? hop)] at hop
    refine ⟨_, .binary hleft hop hright, ?_⟩
    rw [Node.unplaced, Node.unplaced, hsameLeft, hsameRight]

theorem DerivesProgram.of_agrees (h : DerivesProgram (Decoded literalValue) tokens node)
    (hagrees : List.Forall₂ Token.Agrees tokens found) :
    ∃ other, DerivesProgram (Decoded literalValue) found other ∧ other.unplaced = node.unplaced := by
  cases h with
  | function hint hname hopenParen hcloseParen hopenBrace hkeyword hvalue hsemicolon hcloseBrace =>
    obtain _ | ⟨hintSame, _ | ⟨hnameSame, _ | ⟨hopenParenSame, _ | ⟨hcloseParenSame,
      _ | ⟨hopenBraceSame, _ | ⟨hkeywordSame, hrest⟩⟩⟩⟩⟩⟩ := hagrees
    obtain ⟨inner, last, rfl, hinner, hlast⟩ := exists_append_of_agrees hrest
    obtain _ | ⟨hsemicolonSame, _ | ⟨hcloseBraceSame, _ | _⟩⟩ := hlast
    obtain ⟨value, hderives, hsame⟩ := hvalue.of_agrees hinner
    have hvalueName := congrArg Token.value (hnameSame.unplaced_eq (by rw [hname]; rfl))
    refine ⟨_, .function (hintSame.terminal_eq hint rfl) (hnameSame.terminal_eq hname rfl)
      (hopenParenSame.terminal_eq hopenParen rfl) (hcloseParenSame.terminal_eq hcloseParen rfl)
      (hopenBraceSame.terminal_eq hopenBrace rfl) (hkeywordSame.terminal_eq hkeyword rfl) hderives
      (hsemicolonSame.terminal_eq hsemicolon rfl) (hcloseBraceSame.terminal_eq hcloseBrace rfl), ?_⟩
    simp only [Node.unplaced, hsame, Node.program.injEq, Node.function.injEq, and_true]
    exact hvalueName.symm

-- A program and its literals in other spellings are read as one tree, but for places.
theorem parse_of_agrees {limit : Int} {log : Log} (h : (parse tokens limit log).1 = .ok node)
    (hagrees : List.Forall₂ Token.Agrees tokens found) (other : Log) :
    ∃ last, (parse found limit other).1 = .ok last ∧ last.unplaced = node.unplaced := by
  obtain ⟨hderives, hfits⟩ := derives_of_parse h
  obtain ⟨last, hlast, hsame⟩ := hderives.of_agrees hagrees
  refine ⟨last, parse_of_derives hlast ?_ other, hsame⟩
  rwa [Fits, Node.nesting_of_same (Node.same_iff.mpr hsame)]

-- A literal is decoded as the value that it denotes, if that is a word.
theorem literalValue_eq {literal : Token} (hspelled : literal.Spells literal.denoted)
    (hshort : literal.IsShort) :
    ∃ base, literal.terminal.base? = some base ∧ literalValue base literal =
      if literal.denoted < 2 ^ 32 then .ok literal.denoted else .error (.tooWide literal) := by
  obtain ⟨base, digits, hdigits, hvalue⟩ := hspelled
  refine ⟨base, hdigits.base?_eq, ?_⟩
  have hlength : ¬ (base = .ten ∧ Numeral.digitLimit < digits.length) := by
    rintro ⟨rfl, hlong⟩
    exact Nat.not_lt.mpr (hshort digits hdigits) hlong
  rw [literalValue_of_hasDigits hdigits, if_neg hlength, ← hvalue]
  unfold largestConstant
  by_cases hwide : literal.denoted < 2 ^ 32
  · rw [if_neg (by omega), if_pos hwide]
  · rw [if_pos (by omega), if_neg hwide]

theorem factor_literal {literal : Token} (hspelled : literal.Spells literal.denoted)
    (hshort : literal.IsShort) (limit : Int) (depth : Nat) (rest : List Token) :
    outcome (factor limit depth (literal :: rest)) =
      if literal.denoted < 2 ^ 32 then .ok (.constant literal.denoted literal.place, rest)
      else .error ⟨.tooWide literal, rest, depth⟩ := by
  obtain ⟨base, hbase, hvalue⟩ := literalValue_eq hspelled hshort
  have hreads := reads_factor limit depth (literal :: rest)
  by_cases hwide : literal.denoted < 2 ^ 32
  · rw [if_pos hwide] at hvalue ⊢
    exact hreads.functional (.literal hbase hvalue)
  · rw [if_neg hwide] at hvalue ⊢
    exact hreads.functional (.badLiteral hbase hvalue)

-- Where a program has the decimal zero, another has a literal of either base.
theorem takesLiteral_of_zero {limit : Int} {front more : List Token} {terminal : Terminal}
    (h : Accepts limit .silent (front ++ sample .decimal :: more))
    (hinteger : terminal.category = .integer) : TakesLiteral limit front terminal := by
  have hzero : ∀ {terminal : Terminal}, terminal.category = .integer →
      (sample terminal).Spells 0 := by
    intro terminal hinteger
    obtain ⟨base, hbase⟩ := Terminal.exists_base_of_integer hinteger
    exact ⟨base, ['0'], hasDigits_sample hbase, by cases base <;> rfl⟩
  have hagree : (sample .decimal).Agrees (sample terminal) :=
    .literal (hzero rfl) (hzero hinteger) (sample_spelled terminal).2
  have hrefl : ∀ tokens, List.Forall₂ Token.Agrees tokens tokens := fun tokens =>
    List.forall₂_same.mpr fun _ _ => .same rfl
  obtain ⟨tree, htree⟩ := h
  obtain ⟨last, hlast, _⟩ := parse_of_agrees htree
    (List.rel_append (hrefl front) (.cons hagree (hrefl more))) .silent
  exact ⟨sample terminal, more, sample_terminal terminal, last, hlast⟩

-- The error is about a literal exactly if a program may have a literal there, and the value
-- that this one denotes is no word.
theorem parse_eq_tooWide_iff {limit : Int} {log : Log} {literal : Token}
    (hspelled : ∀ token ∈ tokens, token.IsSpelled) (hshort : literal.IsShort) :
    (parse tokens limit log).1 = .error (.tooWide literal) ↔
      2 ^ 32 ≤ literal.denoted ∧ literal.terminal.category = .integer ∧
        ∃ front rest, tokens = front ++ literal :: rest ∧
          TakesLiteral limit front literal.terminal := by
  constructor
  · intro h
    rcases accepts_or_follows limit tokens log with ⟨tree, htree⟩ | ⟨stop, hstop, herror⟩
    · rw [h] at htree
      cases htree
    · rw [h] at herror
      have herror := Except.error.inj herror
      cases hstop.stuck with
      | @intro site depth front rest more stop hrefuses _ _ hfactor hcompletes =>
        cases hrefuses with
        | @badLiteral token rest base error hbase hvalue =>
          dsimp only at herror
          subst herror
          obtain ⟨digits, hdigits⟩ := hspelled token (by simp) base hbase
          rw [literalValue_of_hasDigits hdigits] at hvalue
          split at hvalue
          · cases hvalue
          · split at hvalue
            · next hwide =>
              cases hvalue
              have hspells : literal.Spells _ := ⟨base, digits, hdigits, rfl⟩
              have hinteger := hspells.category_eq
              obtain ⟨others, rfl⟩ := List.head?_eq_some_iff.mp (hfactor rfl)
              have hfollows := hcompletes [] rfl
              rw [List.append_nil] at hfollows
              refine ⟨?_, hinteger, front, rest, rfl,
                takesLiteral_of_zero (accepts_iff.mpr hfollows) hinteger⟩
              rw [hdigits.denoted_eq]
              unfold largestConstant at hwide
              omega
            · cases hvalue
        | _ => cases herror
  · rintro ⟨hwide, hinteger, front, rest, rfl, htakes⟩
    have hliteral := Token.spells_denoted (hspelled literal (by simp)) hinteger
    obtain ⟨base, hbase, hvalue⟩ := literalValue_eq hliteral hshort
    rw [if_neg (by omega)] at hvalue
    exact parse_of_takesLiteral htakes hbase hvalue rest log

end Parser

end TinyC
