import TinyC.Proofs.Tree.Reading

namespace TinyC

-- How loosely the operator at the root of an expression binds.
def Tier.looseness : Tier → Nat
  | additive => 2
  | multiplicative => 1

def Node.looseness : Node → Nat
  | binary tier _ _ _ _ => tier.looseness
  | _ => 0

-- No operand binds more loosely than its operator takes it. A right operand of a tier is not of
-- the same tier, so that chains lean to the left.
def Node.KeepsTiers : Node → Prop
  | bare _ => True
  | constant _ _ => True
  | unary _ operand _ => operand.looseness = 0 ∧ operand.KeepsTiers
  | group inner _ => inner.KeepsTiers
  | binary tier left _ right _ =>
    left.looseness ≤ tier.looseness ∧ right.looseness < tier.looseness ∧
      left.KeepsTiers ∧ right.KeepsTiers
  | ret value _ => value.KeepsTiers
  | function _ body _ => body.KeepsTiers
  | program main _ => main.KeepsTiers

-- The most groups and unary operators on a path down a tree.
def Node.nesting : Node → Nat
  | bare _ => 0
  | constant _ _ => 0
  | unary _ operand _ => operand.nesting + 1
  | group inner _ => inner.nesting + 1
  | binary _ left _ right _ => max left.nesting right.nesting
  | ret value _ => value.nesting
  | function _ body _ => body.nesting
  | program main _ => main.nesting

namespace Node

theorem same_iff {first second : Node} : first.same second ↔ first.unplaced = second.unplaced := by
  simp [same]

theorem looseness_le (node : Node) : node.looseness ≤ 2 := by
  cases node with
  | binary tier left op right place => cases tier <;> simp [looseness, Tier.looseness]
  | _ => exact Nat.zero_le 2

@[simp] theorem looseness_unplaced (node : Node) : node.unplaced.looseness = node.looseness := by
  cases node <;> rfl

@[simp] theorem keepsTiers_unplaced (node : Node) :
    node.unplaced.KeepsTiers ↔ node.KeepsTiers := by
  induction node <;> simp_all [unplaced, KeepsTiers]

@[simp] theorem nesting_unplaced (node : Node) : node.unplaced.nesting = node.nesting := by
  induction node <;> simp_all [unplaced, nesting]

theorem nesting_of_same {first second : Node} (h : first.same second) :
    first.nesting = second.nesting := by
  rw [← nesting_unplaced first, same_iff.mp h, nesting_unplaced]

theorem keepsTiers_of_same {first second : Node} (h : first.same second)
    (hfirst : first.KeepsTiers) : second.KeepsTiers := by
  rwa [← keepsTiers_unplaced, ← same_iff.mp h, keepsTiers_unplaced]

end Node

theorem Tier.mem_operators_of_ofTerminal? {tier : Tier} {terminal : Terminal}
    {operator : BinaryOperator} (h : tier.ofTerminal? terminal = some operator) :
    operator ∈ tier.operators := by
  unfold Tier.ofTerminal? at h
  split at h <;> cases h <;> decide

namespace Parser

-- The grammar of expressions, with the tree of each sentence. Both tiers recurse on the left.
-- Which token is a literal of which value is left open.
inductive Derives (denotes : Token → Int → Prop) : Level → List Token → Node → Prop
  | literal {token : Token} {value : Int} :
      denotes token value → Derives denotes .factor [token] (.constant value token.place)
  | unary {token : Token} {tokens : List Token} {operator : UnaryOperator} {operand : Node} :
      UnaryOperator.ofTerminal? token.terminal = some operator →
      Derives denotes .factor tokens operand →
      Derives denotes .factor (token :: tokens) (.unary operator.symbol operand token.place)
  | group {opening closing : Token} {tokens : List Token} {inner : Node} :
      opening.terminal = .leftParen → Derives denotes (.chain .additive) tokens inner →
      closing.terminal = .rightParen →
      Derives denotes .factor (opening :: tokens ++ [closing]) (.group inner opening.place)
  | operand {tier : Tier} {tokens : List Token} {node : Node} :
      Derives denotes (operandLevel tier) tokens node → Derives denotes (.chain tier) tokens node
  | binary {tier : Tier} {token : Token} {leftTokens rightTokens : List Token}
      {operator : BinaryOperator} {left right : Node} :
      Derives denotes (.chain tier) leftTokens left →
      tier.ofTerminal? token.terminal = some operator →
      Derives denotes (operandLevel tier) rightTokens right →
      Derives denotes (.chain tier) (leftTokens ++ token :: rightTokens)
        (.binary tier left operator.symbol right token.place)

inductive DerivesStatement (denotes : Token → Int → Prop) : List Token → Node → Prop
  | ret {keyword semicolon : Token} {tokens : List Token} {value : Node} :
      keyword.terminal = .returnKeyword → Derives denotes (.chain .additive) tokens value →
      semicolon.terminal = .semicolon →
      DerivesStatement denotes (keyword :: (tokens ++ [semicolon])) (.ret value keyword.place)

-- The grammar of programs: one function of one statement.
inductive DerivesProgram (denotes : Token → Int → Prop) : List Token → Node → Prop
  | function {int name openParen closeParen openBrace keyword semicolon closeBrace : Token}
      {tokens : List Token} {value : Node} :
      int.terminal = .intKeyword → name.terminal = .identifier →
      openParen.terminal = .leftParen → closeParen.terminal = .rightParen →
      openBrace.terminal = .leftBrace → keyword.terminal = .returnKeyword →
      Derives denotes (.chain .additive) tokens value →
      semicolon.terminal = .semicolon → closeBrace.terminal = .rightBrace →
      DerivesProgram denotes
        (int :: name :: openParen :: closeParen :: openBrace :: keyword ::
          (tokens ++ [semicolon, closeBrace]))
        (.program (.function name.value (.ret value keyword.place) int.place) int.place)

-- A literal with its value as the parser decodes it.
def Decoded (decode : Numeral.Base → Token → Except ParseError Int) (token : Token)
    (value : Int) : Prop :=
  ∃ base, token.terminal.base? = some base ∧ decode base token = .ok value

variable {denotes other : Token → Int → Prop} {level : Level} {tokens : List Token} {node : Node}

theorem Derives.mono (h : Derives denotes level tokens node)
    (himp : ∀ token ∈ tokens, ∀ value, denotes token value → other token value) :
    Derives other level tokens node := by
  induction h with
  | literal hvalue => exact .literal (himp _ (by simp) _ hvalue)
  | unary hop _ ih =>
    exact .unary hop (ih fun token htoken => himp token (List.mem_cons_of_mem _ htoken))
  | group hopen _ hclose ih =>
    exact .group hopen (ih fun token htoken => himp token (by simp [htoken])) hclose
  | operand _ ih => exact .operand (ih himp)
  | binary _ hop _ ihleft ihright =>
    exact .binary (ihleft fun token htoken => himp token (by simp [htoken])) hop
      (ihright fun token htoken => himp token (by simp [htoken]))

theorem DerivesStatement.mono (h : DerivesStatement denotes tokens node)
    (himp : ∀ token ∈ tokens, ∀ value, denotes token value → other token value) :
    DerivesStatement other tokens node := by
  cases h with
  | ret hkeyword hvalue hsemicolon =>
    exact .ret hkeyword (hvalue.mono fun token htoken => himp token (by simp [htoken])) hsemicolon

theorem DerivesProgram.mono (h : DerivesProgram denotes tokens node)
    (himp : ∀ token ∈ tokens, ∀ value, denotes token value → other token value) :
    DerivesProgram other tokens node := by
  cases h with
  | function hint hname hopenParen hcloseParen hopenBrace hkeyword hvalue hsemicolon hcloseBrace =>
    exact .function hint hname hopenParen hcloseParen hopenBrace hkeyword
      (hvalue.mono fun token htoken => himp token (by simp [htoken])) hsemicolon hcloseBrace

def Level.looseness : Level → Nat
  | .factor => 0
  | .chain tier => tier.looseness

theorem looseness_operandLevel_lt (tier : Tier) :
    (operandLevel tier).looseness < tier.looseness := by
  cases tier <;> decide

theorem Derives.keepsTiers (h : Derives denotes level tokens node) :
    node.looseness ≤ level.looseness ∧ node.KeepsTiers := by
  induction h with
  | literal _ => exact ⟨Nat.le_refl 0, trivial⟩
  | unary _ _ ih => exact ⟨Nat.le_refl 0, Nat.le_zero.mp ih.1, ih.2⟩
  | group _ _ _ ih => exact ⟨Nat.le_refl 0, ih.2⟩
  | operand _ ih => exact ⟨Nat.le_trans ih.1 (Nat.le_of_lt (looseness_operandLevel_lt _)), ih.2⟩
  | binary _ _ _ ihleft ihright =>
    exact ⟨Nat.le_refl _, ihleft.1, Nat.lt_of_le_of_lt ihright.1 (looseness_operandLevel_lt _),
      ihleft.2, ihright.2⟩

theorem DerivesProgram.keepsTiers (h : DerivesProgram denotes tokens node) : node.KeepsTiers := by
  cases h with
  | function _ _ _ _ _ _ hvalue _ _ => exact hvalue.keepsTiers.2

theorem base?_of_ofTerminal? {tier : Tier} {terminal : Terminal} {operator : BinaryOperator}
    (h : tier.ofTerminal? terminal = some operator) : terminal.base? = none := by
  cases tier <;> cases terminal <;> first | rfl | cases h

-- Every literal among the tokens of an expression is a constant of its tree.
theorem Derives.denotes_of_mem (h : Derives denotes level tokens node) {token : Token}
    (htoken : token ∈ tokens) {base : Numeral.Base} (hbase : token.terminal.base? = some base) :
    ∃ value, denotes token value := by
  induction h with
  | literal hvalue =>
    obtain rfl : token = _ := List.mem_singleton.mp htoken
    exact ⟨_, hvalue⟩
  | unary hop _ ih =>
    rcases List.mem_cons.mp htoken with rfl | htoken
    · rw [Opens.base?_eq_none (.inr ⟨_, hop⟩)] at hbase
      cases hbase
    · exact ih htoken
  | group hopen _ hclose ih =>
    simp only [List.cons_append, List.mem_cons, List.mem_append, List.not_mem_nil,
      or_false] at htoken
    rcases htoken with rfl | htoken | rfl
    · rw [hopen] at hbase
      cases hbase
    · exact ih htoken
    · rw [hclose] at hbase
      cases hbase
  | operand _ ih => exact ih htoken
  | binary _ hop _ ihleft ihright =>
    rcases List.mem_append.mp htoken with htoken | htoken
    · exact ihleft htoken
    · rcases List.mem_cons.mp htoken with rfl | htoken
      · rw [base?_of_ofTerminal? hop] at hbase
        cases hbase
      · exact ihright htoken

-- A program is a function, and has the place of that.
theorem DerivesProgram.exists_main (h : DerivesProgram denotes tokens node) :
    ∃ main, node = .program main main.place := by
  cases h with
  | function => exact ⟨_, rfl⟩

theorem DerivesProgram.denotes_of_mem (h : DerivesProgram denotes tokens node) {token : Token}
    (htoken : token ∈ tokens) {base : Numeral.Base} (hbase : token.terminal.base? = some base) :
    ∃ value, denotes token value := by
  cases h with
  | function hint hname hopenParen hcloseParen hopenBrace hkeyword hvalue hsemicolon hcloseBrace =>
    simp only [List.mem_cons, List.mem_append, List.not_mem_nil, or_false] at htoken
    rcases htoken with rfl | rfl | rfl | rfl | rfl | rfl | htoken | rfl | rfl
    case inr.inr.inr.inr.inr.inr.inl => exact hvalue.denotes_of_mem htoken hbase
    all_goals simp_all [Terminal.base?]

end Parser

end TinyC
