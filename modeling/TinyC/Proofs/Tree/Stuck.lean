import TinyC.Proofs.Token.Literal
import TinyC.Proofs.Tree.Exact

namespace TinyC.Parser

-- A place where the next token alone decides whether the parser goes on.
inductive Site where
  -- A terminal has to come next.
  | terminal (wanted : Terminal) (expected : Expected)
  -- A terminal has to come next, unless the expression before it goes on with an operator.
  | closing (wanted : Terminal) (expected : Expected)
  -- A factor has to begin.
  | factor
  -- No token may come.
  | ending

-- The tokens do not go on with an operator.
def Closes (tokens : List Token) : Prop := ∀ tier, Ends tier tokens

-- The parser stops at a site, with so many levels open, before these tokens or behind the first.
inductive Refuses (limit : Int) (depth : Nat) : Site → List Token → Stop → Prop
  | unexpected {wanted : Terminal} {expected : Expected} {rest : List Token} :
      (∀ token ∈ rest.head?, token.terminal ≠ wanted) →
      Refuses limit depth (.terminal wanted expected) rest
        ⟨.unexpected rest.head? expected, rest, depth⟩
  | unclosed {wanted : Terminal} {expected : Expected} {rest : List Token} :
      Closes rest → (∀ token ∈ rest.head?, token.terminal ≠ wanted) →
      Refuses limit depth (.closing wanted expected) rest
        ⟨.unexpected rest.head? expected, rest, depth⟩
  | noFactor {rest : List Token} :
      (∀ token ∈ rest.head?, ¬ Opens token ∧ token.terminal.base? = none) →
      Refuses limit depth .factor rest ⟨.noFactor rest.head?, rest, depth⟩
  | tooDeep {token : Token} {rest : List Token} :
      Opens token → limit < depth + 1 →
      Refuses limit depth .factor (token :: rest) ⟨.tooDeep limit token, rest, depth + 1⟩
  | badLiteral {token : Token} {rest : List Token} {base : Numeral.Base} {error : ParseError} :
      token.terminal.base? = some base → literalValue base token = .error error →
      Refuses limit depth .factor (token :: rest) ⟨error, rest, depth⟩
  | trailing {token : Token} {rest : List Token} :
      Refuses limit depth .ending (token :: rest)
        ⟨.unexpected (some token) .endOfInput, token :: rest, depth⟩

-- A token of each terminal.
def sample : Terminal → Token
  | .identifier => ⟨.identifier, some "f", .start⟩
  | .decimal => ⟨.decimal, some "0", .start⟩
  | .hexadecimal => ⟨.hexadecimal, some "0x0", .start⟩
  | terminal => ⟨terminal, none, .start⟩

theorem sample_terminal (terminal : Terminal) : (sample terminal).terminal = terminal := by
  cases terminal <;> rfl

theorem hasDigits_sample {terminal : Terminal} {base : Numeral.Base}
    (h : terminal.base? = some base) : (sample terminal).HasDigits base ['0'] := by
  have hzero : ∀ c ∈ ['0'], base.isDigit c := by
    intro c hc
    rw [List.mem_singleton.mp hc]
    cases base <;> rfl
  cases terminal <;> cases h <;> exact ⟨by decide, hzero, rfl, rfl⟩

theorem sample_spelled (terminal : Terminal) :
    (sample terminal).IsSpelled ∧ (sample terminal).IsShort := by
  constructor
  · intro base hbase
    rw [sample_terminal] at hbase
    exact ⟨_, hasDigits_sample hbase⟩
  · intro digits hdigits
    have hbase := hdigits.base?_eq
    rw [sample_terminal] at hbase
    obtain ⟨_, rfl⟩ := hdigits.functional (hasDigits_sample hbase)
    decide

theorem samples_spelled (terminals : List Terminal) :
    ∀ token ∈ terminals.map sample, token.IsSpelled ∧ token.IsShort := by
  intro token htoken
  obtain ⟨terminal, _, rfl⟩ := List.mem_map.mp htoken
  exact sample_spelled terminal

-- The tokens are cut before the site where a reading of them stops. Whatever is refused there
-- lets the reading fail, and other tokens there complete what was begun before: a literal first
-- if a factor has to begin.
inductive Stuck (limit : Int) (fails : List Token → Stop → Prop)
    (completes : List Token → List Token → Prop) : List Token → Stop → Prop
  | intro {site : Site} {depth : Nat} {front rest more : List Token} {stop : Stop} :
      Refuses limit depth site rest stop →
      (∀ other stop, Refuses limit depth site other stop → fails (front ++ other) stop) →
      (∀ token ∈ more, token.IsSpelled ∧ token.IsShort) →
      (site = .factor → more.head? = some (sample .decimal)) →
      (∀ after, completes (front ++ more ++ after) after) →
      Stuck limit fails completes (front ++ rest) stop

-- A reading within another stops where that other one stops.
theorem Stuck.within {limit : Int} {fails otherFails : List Token → Stop → Prop}
    {completes otherCompletes : List Token → List Token → Prop} {tokens : List Token} {stop : Stop}
    (h : Stuck limit fails completes tokens stop) (before closing : List Token)
    (hclosing : ∀ token ∈ closing, token.IsSpelled ∧ token.IsShort)
    (hfails : ∀ tokens stop, fails tokens stop → otherFails (before ++ tokens) stop)
    (hcompletes : ∀ tokens after, completes tokens (closing ++ after) →
      otherCompletes (before ++ tokens) after) :
    Stuck limit otherFails otherCompletes (before ++ tokens) stop := by
  cases h with
  | @intro site depth front rest more stop hrefuses hfront hmore hfactor hcomplete =>
    have hspelled : ∀ token ∈ more ++ closing, token.IsSpelled ∧ token.IsShort := by
      intro token htoken
      rcases List.mem_append.mp htoken with htoken | htoken
      · exact hmore token htoken
      · exact hclosing token htoken
    rw [← List.append_assoc]
    refine .intro hrefuses ?_ hspelled (fun hsite => by simp [hfactor hsite]) ?_
    · intro other stop hother
      rw [List.append_assoc]
      exact hfails _ _ (hfront other stop hother)
    · intro after
      have hwhole := hcompletes _ _ (hcomplete (closing ++ after))
      simpa using hwhole

-- What may come behind a whole goal of the level.
def Level.Bounded : Level → List Token → Prop
  | .factor, _ => True
  | .chain tier, tokens => Ends tier tokens ∧ Bounds tier tokens

theorem bounded_operandLevel {tier : Tier} {tokens : List Token} :
    (operandLevel tier).Bounded tokens ↔ Bounds tier tokens := by
  cases tier <;> simp [operandLevel, Level.Bounded, Bounds]

theorem Closes.bounded {tokens : List Token} (h : Closes tokens) (level : Level) :
    level.Bounded tokens := by
  cases level with
  | factor => trivial
  | chain tier =>
    cases tier with
    | additive => exact ⟨h .additive, h .multiplicative⟩
    | multiplicative => exact ⟨h .multiplicative, trivial⟩

-- A symbol ends an expression.
theorem closes_of_symbol {token : Token} (h : token.terminal.category = .symbol)
    (rest : List Token) : Closes (token :: rest) :=
  fun tier => ends_of_symbol h tier rest

section

variable {decode : Numeral.Base → Token → Except ParseError Int} {limit : Int} {depth : Nat}
  {tokens left : List Token} {node : Node}

-- What a goal needs at its own start and leaves at its end, so that it stands within others.
def Goal.Bounded (tokens left : List Token) : Goal → Prop
  | .whole level => level.Bounded left
  | .rest tier _ => Bounds tier tokens → Level.Bounded (.chain tier) left

-- A reading goes on as far as it can.
theorem Reads.bounded {goal : Goal} (h : Reads decode limit goal depth tokens (.ok (node, left))) :
    goal.Bounded tokens left := by
  generalize houtcome : (Except.ok (node, left) : Outcome) = outcome at h
  induction h generalizing node left with
  | literal hbase hvalue => trivial
  | unary hop hdepth _ ih => trivial
  | group hopen hdepth _ hclose ih => trivial
  | chain _ _ ihfirst ihrest => exact ihrest houtcome (bounded_operandLevel.mp (ihfirst rfl))
  | ends hends =>
    cases houtcome
    exact fun hbounds => ⟨hends, hbounds⟩
  | link hop _ _ ihright ihrest =>
    intro _
    exact ihrest houtcome (bounded_operandLevel.mp (ihright rfl))
  | noToken => cases houtcome
  | noFactor => cases houtcome
  | badLiteral => cases houtcome
  | tooDeep => cases houtcome
  | badOperand => cases houtcome
  | unclosed => cases houtcome
  | badInner => cases houtcome
  | badFirst => cases houtcome
  | badRight => cases houtcome

theorem Reads.closes (h : Reads decode limit (.whole (.chain .additive)) depth tokens
    (.ok (node, left))) : Closes left := by
  obtain ⟨hadditive, hmultiplicative⟩ := h.bounded
  intro tier
  cases tier with
  | additive => exact hadditive
  | multiplicative => exact hmultiplicative

-- What is read is read so whatever comes behind it, if only that does not go on with it.
theorem Reads.extend {level : Level}
    (h : Reads decode limit (.whole level) depth tokens (.ok (node, left))) :
    ∃ front, tokens = front ++ left ∧ ∀ other, level.Bounded other →
      Reads decode limit (.whole level) depth (front ++ other) (.ok (node, other)) := by
  obtain ⟨front, rfl, hderives, hfits⟩ := h.sound
  refine ⟨front, rfl, ?_⟩
  intro other hother
  have hcomplete := hderives.complete depth hfits
  cases level with
  | factor => exact hcomplete other
  | chain tier => exact hcomplete other _ hother.2 (.ends hother.1)

end

section

variable {limit : Int} {goal : Goal} {depth : Nat} {tokens : List Token} {stop : Stop}

-- The rest of a chain stands behind a whole operand.
def Goal.Begins (tokens : List Token) : Goal → Prop
  | .whole _ => True
  | .rest tier _ => Bounds tier tokens

def Fails (limit : Int) (goal : Goal) (depth : Nat) (tokens : List Token) (stop : Stop) : Prop :=
  Reads literalValue limit goal depth tokens (.error stop) ∧ goal.Begins tokens

def Completes (limit : Int) (goal : Goal) (depth : Nat) (tokens after : List Token) : Prop :=
  Closes after → ∃ node, Reads literalValue limit goal depth tokens (.ok (node, after)) ∧
    goal.Begins tokens

theorem literalValue_sample : literalValue .ten (sample .decimal) = .ok 0 := by
  rw [literalValue_of_hasDigits (hasDigits_sample rfl)]
  rfl

theorem reads_sample (limit : Int) (depth : Nat) (after : List Token) :
    Reads literalValue limit (.whole .factor) depth (sample .decimal :: after)
      (.ok (.constant 0 .start, after)) :=
  .literal rfl literalValue_sample

theorem Refuses.reads_factor {rest : List Token} (h : Refuses limit depth .factor rest stop) :
    Reads literalValue limit (.whole .factor) depth rest (.error stop) := by
  cases h with
  | noFactor hnone =>
    cases rest with
    | nil => exact .noToken
    | cons token rest =>
      obtain ⟨hopens, hbase⟩ := hnone token rfl
      exact .noFactor hopens hbase
  | tooDeep hopens hdepth => exact .tooDeep hopens hdepth
  | badLiteral hbase hvalue => exact .badLiteral hbase hvalue

-- A literal may stand wherever a factor is refused.
theorem Refuses.stuck_factor (h : Refuses limit depth .factor tokens stop) :
    Stuck limit (Fails limit (.whole .factor) depth) (Completes limit (.whole .factor) depth)
      tokens stop := by
  rw [← List.nil_append tokens]
  refine .intro h ?_ (samples_spelled [.decimal]) (fun _ => rfl) ?_
  · intro other stop hother
    exact ⟨hother.reads_factor, trivial⟩
  · intro after _
    exact ⟨_, reads_sample limit depth after, trivial⟩

-- A reading that stops does so at a site, up to which it can be completed. The induction is on
-- the rules, so that each reading that is still open adds what it lacks: a parenthesis for a group,
-- and nothing for an operator.
theorem Reads.stuck (h : Reads literalValue limit goal depth tokens (.error stop)) :
    Stuck limit (Fails limit goal depth) (Completes limit goal depth) tokens stop := by
  generalize houtcome : (Except.error stop : Outcome) = outcome at h
  induction h generalizing stop with
  | noToken =>
    cases houtcome
    exact Refuses.stuck_factor (.noFactor (by simp))
  | noFactor hopens hbase =>
    cases houtcome
    exact Refuses.stuck_factor (.noFactor (by simp [hopens, hbase]))
  | badLiteral hbase hvalue =>
    cases houtcome
    exact Refuses.stuck_factor (.badLiteral hbase hvalue)
  | tooDeep hopens hdepth =>
    cases houtcome
    exact Refuses.stuck_factor (.tooDeep hopens hdepth)
  | @badOperand depth token rest operator inner hop hdepth _ ih =>
    refine (ih houtcome).within [token] [] (by simp) ?_ ?_
    · intro tokens stop hfails
      exact ⟨.badOperand hop hdepth hfails.1, trivial⟩
    · intro tokens after hcompletes hafter
      obtain ⟨operand, hoperand, _⟩ := hcompletes hafter
      exact ⟨_, .unary hop hdepth hoperand, trivial⟩
  | @unclosed depth token rest left inner hopen hdepth hinner hclose =>
    cases houtcome
    obtain ⟨front, rfl, hextend⟩ := hinner.extend
    rw [← List.cons_append]
    refine .intro (.unclosed hinner.closes hclose) ?_ (samples_spelled [.rightParen]) (by simp) ?_
    · intro other stop hother
      cases hother with
      | unclosed hcloses hother =>
        exact ⟨.unclosed hopen hdepth (hextend other (hcloses.bounded _)) hother, trivial⟩
    · intro after _
      have hcloses : Closes (sample .rightParen :: after) := closes_of_symbol rfl after
      have hgroup := Reads.group hopen hdepth (hextend _ (hcloses.bounded _)) rfl
      exact ⟨_, by simpa using hgroup, trivial⟩
  | @badInner depth token rest inner hopen hdepth _ ih =>
    refine (ih houtcome).within [token] _ (samples_spelled [.rightParen]) ?_ ?_
    · intro tokens stop hfails
      exact ⟨.badInner hopen hdepth hfails.1, trivial⟩
    · intro tokens after hcompletes _
      obtain ⟨inner, hinner, _⟩ := hcompletes (closes_of_symbol rfl after)
      exact ⟨_, .group hopen hdepth hinner rfl, trivial⟩
  | @chain tier depth tokens left first outcome hfirst _ _ ihrest =>
    -- What is read of the rest stands behind the first operand, so that this is read as before.
    obtain ⟨front, rfl, hextend⟩ := hfirst.extend
    refine (ihrest houtcome).within front [] (by simp) ?_ ?_
    · intro tokens stop hfails
      exact ⟨.chain (hextend tokens (bounded_operandLevel.mpr hfails.2)) hfails.1, trivial⟩
    · intro tokens after hcompletes hafter
      obtain ⟨node, hnode, hbegins⟩ := hcompletes hafter
      exact ⟨node, .chain (hextend tokens (bounded_operandLevel.mpr hbegins)) hnode, trivial⟩
  | @badFirst tier depth tokens inner _ ih =>
    refine (ih houtcome).within [] [] (by simp) ?_ ?_
    · intro tokens stop hfails
      exact ⟨.badFirst hfails.1, trivial⟩
    · intro tokens after hcompletes hafter
      obtain ⟨first, hfirst, _⟩ := hcompletes hafter
      exact ⟨first, .chain hfirst (.ends (hafter tier)), trivial⟩
  | @link tier depth left right token rest after operator outcome hop hright _ _ ihrest =>
    obtain ⟨front, rfl, hextend⟩ := hright.extend
    refine (ihrest houtcome).within (token :: front) [] (by simp) ?_ ?_
    · intro tokens stop hfails
      exact ⟨.link hop (hextend tokens (bounded_operandLevel.mpr hfails.2)) hfails.1,
        bounds_of_ofTerminal? hop _⟩
    · intro tokens after hcompletes hafter
      obtain ⟨node, hnode, hbegins⟩ := hcompletes hafter
      exact ⟨node, .link hop (hextend tokens (bounded_operandLevel.mpr hbegins)) hnode,
        bounds_of_ofTerminal? hop _⟩
  | @badRight tier depth left token rest operator inner hop _ ih =>
    refine (ih houtcome).within [token] [] (by simp) ?_ ?_
    · intro tokens stop hfails
      exact ⟨.badRight hop hfails.1, bounds_of_ofTerminal? hop _⟩
    · intro tokens after hcompletes hafter
      obtain ⟨right, hright, _⟩ := hcompletes hafter
      exact ⟨_, .link hop hright (.ends (hafter tier)), bounds_of_ofTerminal? hop _⟩
  | literal => cases houtcome
  | unary => cases houtcome
  | group => cases houtcome
  | ends => cases houtcome

end

end TinyC.Parser
