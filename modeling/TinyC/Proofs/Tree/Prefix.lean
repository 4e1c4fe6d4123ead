import TinyC.Proofs.Tree.Stuck
import TinyC.Proofs.Tree.Unambiguity

namespace TinyC

namespace Parser

-- A piece of the grammar of programs: a terminal, or an expression with the semicolon behind it.
inductive Piece where
  | terminal (wanted : Terminal) (expected : Expected)
  | value

-- How pieces are read one after another up to the end of the tokens.
inductive Follows (limit : Int) (depth : Nat) :
    List Piece → List Token → Except Stop Unit → Prop
  | done : Follows limit depth [] [] (.ok ())
  | trailing {token : Token} {rest : List Token} :
      Follows limit depth [] (token :: rest)
        (.error ⟨.unexpected (some token) .endOfInput, token :: rest, depth⟩)
  | terminal {wanted : Terminal} {expected : Expected} {token : Token} {rest : List Token}
      {pieces : List Piece} {outcome : Except Stop Unit} :
      token.terminal = wanted → Follows limit depth pieces rest outcome →
      Follows limit depth (.terminal wanted expected :: pieces) (token :: rest) outcome
  | unexpected {wanted : Terminal} {expected : Expected} {tokens : List Token}
      {pieces : List Piece} :
      (∀ token ∈ tokens.head?, token.terminal ≠ wanted) →
      Follows limit depth (.terminal wanted expected :: pieces) tokens
        (.error ⟨.unexpected tokens.head? expected, tokens, depth⟩)
  | value {tokens rest : List Token} {node : Node} {semicolon : Token} {pieces : List Piece}
      {outcome : Except Stop Unit} :
      Reads literalValue limit (.whole (.chain .additive)) depth tokens
        (.ok (node, semicolon :: rest)) →
      semicolon.terminal = .semicolon → Follows limit depth pieces rest outcome →
      Follows limit depth (.value :: pieces) tokens outcome
  | unclosed {tokens left : List Token} {node : Node} {pieces : List Piece} :
      Reads literalValue limit (.whole (.chain .additive)) depth tokens (.ok (node, left)) →
      (∀ token ∈ left.head?, token.terminal ≠ .semicolon) →
      Follows limit depth (.value :: pieces) tokens
        (.error ⟨.unexpected left.head? .semicolonAfterValue, left, depth⟩)
  | badValue {tokens : List Token} {pieces : List Piece} {stop : Stop} :
      Reads literalValue limit (.whole (.chain .additive)) depth tokens (.error stop) →
      Follows limit depth (.value :: pieces) tokens (.error stop)

def programPieces : List Piece :=
  [.terminal .intKeyword (.terminal .intKeyword), .terminal .identifier .functionName,
   .terminal .leftParen (.terminal .leftParen), .terminal .rightParen (.terminal .rightParen),
   .terminal .leftBrace (.terminal .leftBrace),
   .terminal .returnKeyword (.terminal .returnKeyword), .value,
   .terminal .rightBrace (.terminal .rightBrace)]

section

variable {limit : Int} {depth : Nat} {pieces : List Piece} {tokens : List Token}
  {outcome : Except Stop Unit}

theorem Follows.functional {first second : Except Stop Unit}
    (hfirst : Follows limit depth pieces tokens first)
    (hsecond : Follows limit depth pieces tokens second) : first = second := by
  induction hfirst generalizing second with
  | done => cases hsecond; rfl
  | trailing => cases hsecond; rfl
  | terminal hwanted _ ih =>
    cases hsecond with
    | terminal _ hrest => exact ih hrest
    | unexpected hother => exact absurd hwanted (hother _ rfl)
  | unexpected hother =>
    cases hsecond with
    | terminal hwanted _ => exact absurd hwanted (hother _ rfl)
    | unexpected _ => rfl
  | value hreads hsemicolon _ ih =>
    cases hsecond with
    | value hother _ hrest =>
      cases hreads.functional hother
      exact ih hrest
    | unclosed hother hclosing =>
      cases hreads.functional hother
      exact absurd hsemicolon (hclosing _ rfl)
    | badValue hother => cases hreads.functional hother
  | unclosed hreads hclosing =>
    cases hsecond with
    | value hother hsemicolon _ =>
      cases hreads.functional hother
      exact absurd hsemicolon (hclosing _ rfl)
    | unclosed hother _ =>
      cases hreads.functional hother
      rfl
    | badValue hother => cases hreads.functional hother
  | badValue hreads =>
    cases hsecond with
    | value hother _ _ => cases hreads.functional hother
    | unclosed hother _ => cases hreads.functional hother
    | badValue hother =>
      cases hreads.functional hother
      rfl

section

variable {β : Type} {result : Except Stop β}

-- What is done behind a terminal, seen from before it.
theorem follows_take {wanted : Terminal} {expected : Expected}
    {next : Taken tokens.length → Except Stop β}
    (h : take wanted expected depth tokens >>= next = result)
    (hstop : ∀ stop, result = .error stop → outcome = .error stop)
    (hnext : ∀ taken, next taken = result → Follows limit depth pieces taken.left outcome) :
    Follows limit depth (.terminal wanted expected :: pieces) tokens outcome := by
  cases tokens with
  | nil =>
    rw [hstop _ h.symm]
    exact .unexpected (by simp)
  | cons token rest =>
    by_cases hwanted : token.terminal = wanted
    · rw [take_cons hwanted] at h
      exact .terminal hwanted (hnext _ h)
    · simp only [take, hwanted, if_false] at h
      rw [hstop _ h.symm]
      exact .unexpected (by simpa using hwanted)

theorem follows_value
    {next : (value : Reading tokens.length) → Taken value.left.length → Except Stop β}
    (h : (do
      let value ← expression limit depth tokens
      let closing ← take .semicolon .semicolonAfterValue depth value.left
      next value closing) = result)
    (hstop : ∀ stop, result = .error stop → outcome = .error stop)
    (hnext : ∀ value closing, next value closing = result →
      Follows limit depth pieces closing.left outcome) :
    Follows limit depth (.value :: pieces) tokens outcome := by
  have hreads := reads_expression limit depth tokens
  cases hvalue : expression limit depth tokens with
  | error stop =>
    rw [hvalue] at h hreads
    rw [hstop stop h.symm]
    exact .badValue hreads
  | ok value =>
    rw [hvalue] at h hreads
    rcases value with ⟨node, left, shorter⟩
    cases left with
    | nil =>
      rw [hstop _ h.symm]
      exact .unclosed hreads (by simp)
    | cons closing rest =>
      by_cases hclosing : closing.terminal = .semicolon
      · simp only [bind, Except.bind, take_cons hclosing] at h
        exact .value hreads hclosing (hnext _ _ h)
      · simp only [bind, Except.bind, take, hclosing, if_false] at h
        rw [hstop _ h.symm]
        exact .unclosed hreads (by simpa using hclosing)

theorem follows_statement {next : Reading tokens.length → Except Stop β}
    (h : statement limit depth tokens >>= next = result)
    (hstop : ∀ stop, result = .error stop → outcome = .error stop)
    (hnext : ∀ body, next body = result → Follows limit depth pieces body.left outcome) :
    Follows limit depth (.terminal .returnKeyword (.terminal .returnKeyword) :: .value :: pieces)
      tokens outcome := by
  simp only [statement, bind_assoc, pure_bind] at h
  refine follows_take h hstop ?_
  intro keyword h
  refine follows_value h hstop ?_
  intro value closing h
  exact hnext _ h

end

variable {log : Log}

-- A function is its pieces, and then what comes of the tokens after it.
theorem follows_function {first : Except Stop (Reading tokens.length)}
    (h : (function limit depth tokens log).1 = first)
    (hstop : ∀ stop, first = .error stop → outcome = .error stop)
    (hmain : ∀ main, first = .ok main → Follows limit depth [] main.left outcome) :
    Follows limit depth programPieces tokens outcome := by
  unfold function at h
  dsimp only at h
  generalize heq : (take .intKeyword _ depth tokens >>= _ :
    Except Stop (Option String × Reading tokens.length)) = result at h
  have hstop : ∀ stop, result = .error stop → outcome = .error stop := by
    rintro stop rfl
    exact hstop stop h.symm
  refine follows_take heq hstop fun keyword heq => ?_
  refine follows_take heq hstop fun name heq => ?_
  refine follows_take heq hstop fun openParen heq => ?_
  refine follows_take heq hstop fun closeParen heq => ?_
  refine follows_take heq hstop fun openBrace heq => ?_
  refine follows_statement heq hstop fun body heq => ?_
  refine follows_take heq hstop fun closeBrace heq => ?_
  cases heq
  exact hmain _ h.symm

-- A program is read by its pieces.
theorem follows_program (limit : Int) (depth : Nat) (tokens : List Token) (log : Log) :
    Follows limit depth programPieces tokens
      ((program limit depth tokens log).1.map fun _ => ()) := by
  unfold program
  split
  · next stop after heq =>
    refine follows_function (congrArg Prod.fst heq) ?_ ?_
    · rintro stop ⟨⟩
      rfl
    · rintro main ⟨⟩
  · next main after heq =>
    refine follows_function (congrArg Prod.fst heq) ?_ ?_
    · rintro stop ⟨⟩
    · rintro main ⟨⟩
      split
      · next hleft =>
        show Follows limit depth [] main.left (.ok ())
        rw [hleft]
        exact .done
      · next token rest hleft =>
        rw [hleft]
        exact .trailing

theorem reads_sample_expression {rest : List Token} (h : Closes rest) :
    Reads literalValue limit (.whole (.chain .additive)) depth (sample .decimal :: rest)
      (.ok (.constant 0 .start, rest)) := by
  have hterm : Reads literalValue limit (.whole (.chain .multiplicative)) depth
      (sample .decimal :: rest) (.ok (.constant 0 .start, rest)) :=
    .chain (reads_sample limit depth rest) (.ends (h .multiplicative))
  exact .chain hterm (.ends (h .additive))

theorem exists_follows (limit : Int) (depth : Nat) (pieces : List Piece) :
    ∃ terminals : List Terminal, Follows limit depth pieces (terminals.map sample) (.ok ()) := by
  induction pieces with
  | nil => exact ⟨[], .done⟩
  | cons piece pieces ih =>
    obtain ⟨terminals, hrest⟩ := ih
    cases piece with
    | terminal wanted expected =>
      exact ⟨wanted :: terminals, .terminal (sample_terminal wanted) hrest⟩
    | value =>
      have hcloses : Closes (sample .semicolon :: terminals.map sample) := closes_of_symbol rfl _
      exact ⟨.decimal :: .semicolon :: terminals,
        .value (reads_sample_expression hcloses) rfl hrest⟩

-- A reading of pieces that stops does so at a site, up to which it can be completed.
theorem Follows.stuck {stop : Stop} (h : Follows limit depth pieces tokens (.error stop)) :
    Stuck limit (fun tokens stop => Follows limit depth pieces tokens (.error stop))
      (fun tokens after => after = [] → Follows limit depth pieces tokens (.ok ()))
      tokens stop := by
  generalize houtcome : Except.error stop = outcome at h
  induction h generalizing stop with
  | done => cases houtcome
  | trailing =>
    cases houtcome
    rw [← List.nil_append (_ :: _)]
    refine .intro .trailing ?_ (samples_spelled []) (by simp) ?_
    · intro other stop hother
      cases hother
      exact .trailing
    · rintro after rfl
      exact .done
  | @terminal wanted expected token rest pieces outcome hwanted _ ih =>
    refine (ih houtcome).within [token] [] (by simp) ?_ ?_
    · intro tokens stop hfails
      exact .terminal hwanted hfails
    · intro tokens after hcompletes hafter
      exact .terminal hwanted (hcompletes hafter)
  | @unexpected wanted expected tokens pieces hother =>
    cases houtcome
    obtain ⟨terminals, hterminals⟩ := exists_follows limit depth pieces
    rw [← List.nil_append tokens]
    refine .intro (.unexpected hother) ?_ (samples_spelled (wanted :: terminals)) (by simp) ?_
    · intro other stop hother
      cases hother with
      | unexpected hother => exact .unexpected hother
    · rintro after rfl
      have hpiece : Follows limit depth (.terminal wanted expected :: pieces)
          ((wanted :: terminals).map sample) (.ok ()) :=
        .terminal (sample_terminal wanted) hterminals
      simpa using hpiece
  | @value tokens rest node semicolon pieces outcome hreads hsemicolon _ ih =>
    obtain ⟨front, rfl, hextend⟩ := hreads.extend
    have hcloses : ∀ tokens, Closes (semicolon :: tokens) :=
      closes_of_symbol (by rw [hsemicolon]; rfl)
    rw [List.append_cons]
    refine (ih houtcome).within (front ++ [semicolon]) [] (by simp) ?_ ?_
    · intro tokens stop hfails
      rw [← List.append_cons]
      exact .value (hextend _ ((hcloses tokens).bounded _)) hsemicolon hfails
    · intro tokens after hcompletes hafter
      rw [← List.append_cons]
      exact .value (hextend _ ((hcloses tokens).bounded _)) hsemicolon (hcompletes hafter)
  | @unclosed tokens left node pieces hreads hclosing =>
    cases houtcome
    obtain ⟨front, rfl, hextend⟩ := hreads.extend
    obtain ⟨terminals, hterminals⟩ := exists_follows limit depth pieces
    have hcloses : Closes (sample .semicolon :: terminals.map sample) := closes_of_symbol rfl _
    refine .intro (.unclosed hreads.closes hclosing) ?_
      (samples_spelled (.semicolon :: terminals)) (by simp) ?_
    · intro other stop hother
      cases hother with
      | unclosed hother hclosing =>
        exact .unclosed (hextend other (hother.bounded _)) hclosing
    · rintro after rfl
      have hpiece := Follows.value (hextend _ (hcloses.bounded _)) rfl hterminals
      simpa using hpiece
  | @badValue tokens pieces inner hreads =>
    cases houtcome
    obtain ⟨terminals, hterminals⟩ := exists_follows limit depth pieces
    have hcloses : Closes (sample .semicolon :: terminals.map sample) := closes_of_symbol rfl _
    refine hreads.stuck.within [] _ (samples_spelled (.semicolon :: terminals)) ?_ ?_
    · intro tokens stop hfails
      exact .badValue hfails.1
    · rintro tokens after hcompletes rfl
      rw [List.append_nil] at hcompletes
      obtain ⟨node, hnode, _⟩ := hcompletes hcloses
      exact .value hnode rfl hterminals

end

-- Some program is read from the tokens.
def Accepts (limit : Int) (log : Log) (tokens : List Token) : Prop :=
  ∃ tree, (parse tokens limit log).1 = .ok tree

end Parser

namespace ParseError

-- The error is about a token or the end of the tokens, and not about the text of a literal.
def IsReported : ParseError → Prop
  | unexpected _ _ => True
  | noFactor _ => True
  | tooDeep _ _ => True
  | tooWide _ => True
  | badNumeral _ => False
  | noText _ => False

-- The token that the error is about.
def token? : ParseError → Option Token
  | unexpected found _ => found
  | noFactor found => found
  | tooDeep _ token => some token
  | tooWide token => some token
  | badNumeral _ => none
  | noText _ => none

-- The token that the error is about has not been taken.
def isAhead : ParseError → Bool
  | unexpected _ _ => true
  | noFactor _ => true
  | _ => false

end ParseError

namespace Parser

section

variable {limit : Int} {depth : Nat} {log : Log} {site : Site} {tokens rest : List Token}
  {token : Token} {stop : Stop}

theorem accepts_iff : Accepts limit log tokens ↔ Follows limit 0 programPieces tokens (.ok ()) := by
  have hfollows := follows_program limit 0 tokens log
  have hparse : (parse tokens limit log).1 =
      match (program limit 0 tokens log).1 with
      | .ok reading => .ok reading.node
      | .error stop => .error stop.error := by
    simp only [parse, Session.read, Session.ofTokens, Rule.read]
    split <;> simp_all
  rw [Accepts, hparse]
  cases hprogram : (program limit 0 tokens log).1 with
  | ok reading =>
    rw [hprogram] at hfollows
    exact ⟨fun _ => hfollows, fun _ => ⟨_, rfl⟩⟩
  | error stop =>
    rw [hprogram] at hfollows
    constructor
    · rintro ⟨tree, ⟨⟩⟩
    · intro hother
      cases hfollows.functional hother

theorem of_read_error {error : ParseError} {session : Session} {after : Log}
    (h : (Session.ofTokens tokens limit).read .program log = (.error error, session, after)) :
    ∃ stop, Follows limit 0 programPieces tokens (.error stop) ∧ stop.error = error ∧
      stop.left = session.tokens := by
  have hfollows := follows_program limit 0 tokens log
  simp only [Session.read, Session.ofTokens, Rule.read] at h
  split at h
  · cases h
  · next stop log' heq =>
    cases h
    rw [heq] at hfollows
    exact ⟨stop, hfollows, rfl, rfl⟩

theorem Follows.not_accepts (h : Follows limit 0 programPieces tokens (.error stop)) :
    ¬ Accepts limit log tokens := by
  intro haccepts
  cases h.functional (accepts_iff.mp haccepts)

theorem Refuses.of_nil (h : Refuses limit depth site [] stop) :
    stop.error.IsReported ∧ stop.error.token? = none ∧ stop.left = [] := by
  cases h <;> exact ⟨trivial, rfl, rfl⟩

-- What is refused is reported, unless it is a decimal literal of too many digits.
theorem Refuses.of_cons (h : Refuses limit depth site (token :: rest) stop)
    (hspelled : token.IsSpelled) :
    (stop.error.IsReported ∧ stop.error.token? = some token ∧
      stop.left = if stop.error.isAhead then token :: rest else rest) ∨
    ∃ digits, token.HasDigits .ten digits ∧ Numeral.digitLimit < digits.length ∧
      site = .factor := by
  cases h with
  | unexpected _ => exact .inl ⟨trivial, rfl, rfl⟩
  | unclosed _ _ => exact .inl ⟨trivial, rfl, rfl⟩
  | noFactor _ => exact .inl ⟨trivial, rfl, rfl⟩
  | tooDeep _ _ => exact .inl ⟨trivial, rfl, rfl⟩
  | trailing => exact .inl ⟨trivial, rfl, rfl⟩
  | @badLiteral _ _ base error hbase hvalue =>
    obtain ⟨digits, hdigits⟩ := hspelled base hbase
    rw [literalValue_of_hasDigits hdigits] at hvalue
    by_cases hlong : base = .ten ∧ Numeral.digitLimit < digits.length
    · obtain ⟨rfl, hlong⟩ := hlong
      exact .inr ⟨digits, hdigits, hlong, rfl⟩
    · rw [if_neg hlong] at hvalue
      split at hvalue
      · cases hvalue
        exact .inl ⟨trivial, rfl, rfl⟩
      · cases hvalue

-- Only the next token matters at a site.
theorem Refuses.head (h : Refuses limit depth site (token :: rest) stop) (other : List Token) :
    ∃ stop, Refuses limit depth site (token :: other) stop := by
  cases h with
  | unexpected hother => exact ⟨_, .unexpected hother⟩
  | unclosed hcloses hother => exact ⟨_, .unclosed hcloses hother⟩
  | noFactor hother => exact ⟨_, .noFactor hother⟩
  | tooDeep hopens hdepth => exact ⟨_, .tooDeep hopens hdepth⟩
  | badLiteral hbase hvalue => exact ⟨_, .badLiteral hbase hvalue⟩
  | trailing => exact ⟨_, .trailing⟩

end

-- An error is about the earliest token with which no program begins: what comes before that token
-- begins a program. At the end of the tokens, all of them begin a program, and are none.
theorem parse_error_is_earliest {tokens : List Token}
    (hspelled : ∀ token ∈ tokens, token.IsSpelled ∧ token.IsShort) (limit : Int) (log : Log)
    {error : ParseError} {session : Session} {after : Log}
    (h : (Session.ofTokens tokens limit).read .program log = (.error error, session, after)) :
    error.IsReported ∧
      match error.token? with
      | some token => ∃ front rest, tokens = front ++ token :: rest ∧
          session.tokens = (if error.isAhead then token :: rest else rest) ∧
          (∃ more, (∀ token ∈ more, token.IsSpelled ∧ token.IsShort) ∧
            Accepts limit log (front ++ more)) ∧
          ∀ more, ¬ Accepts limit log (front ++ token :: more)
      | none => session.tokens = [] ∧ ¬ Accepts limit log tokens ∧
          ∃ more, more ≠ [] ∧ (∀ token ∈ more, token.IsSpelled ∧ token.IsShort) ∧
            Accepts limit log (tokens ++ more) := by
  obtain ⟨stop, hfollows, rfl, hleft⟩ := of_read_error h
  rw [← hleft]
  have hnot : ¬ Accepts limit log tokens := hfollows.not_accepts
  cases hfollows.stuck with
  | @intro site depth front rest more stop hrefuses hfails hmore _ hcompletes =>
    have haccepts : Accepts limit log (front ++ more) := by
      have hfollows := hcompletes [] rfl
      rw [List.append_nil] at hfollows
      exact accepts_iff.mpr hfollows
    cases rest with
    | nil =>
      obtain ⟨hreported, htoken, hleft⟩ := hrefuses.of_nil
      rw [htoken]
      rw [List.append_nil] at hnot ⊢
      refine ⟨hreported, hleft, hnot, more, ?_, hmore, haccepts⟩
      rintro rfl
      rw [List.append_nil] at haccepts
      exact hnot haccepts
    | cons token rest =>
      obtain ⟨htokenSpelled, htokenShort⟩ := hspelled token (by simp)
      rcases hrefuses.of_cons htokenSpelled with
        ⟨hreported, htoken, hleft⟩ | ⟨digits, hdigits, hlong, _⟩
      · rw [htoken]
        refine ⟨hreported, front, rest, rfl, hleft, ⟨more, hmore, haccepts⟩, ?_⟩
        intro other
        obtain ⟨stop, hstop⟩ := hrefuses.head other
        exact (hfails _ stop hstop).not_accepts
      · exact absurd (htokenShort digits hdigits) (Nat.not_le.mpr hlong)

-- Without a level of nesting, the minus before a literal is where no program goes on.
theorem parse_error_is_earliest_negatedOne :
    (∀ token ∈ negatedOne, token.IsSpelled ∧ token.IsShort) ∧
      (Session.ofTokens negatedOne 0).read .program .silent =
        (.error (.tooDeep 0 ⟨.minus, none, .start⟩), ⟨negatedOne.drop 7, 1, 0⟩, .silent) ∧
      ∃ front rest, negatedOne = front ++ ⟨.minus, none, .start⟩ :: rest ∧
        negatedOne.drop 7 = rest ∧
        (∃ more, (∀ token ∈ more, token.IsSpelled ∧ token.IsShort) ∧
          Accepts 0 .silent (front ++ more)) ∧
        ∀ more, ¬ Accepts 0 .silent (front ++ ⟨.minus, none, .start⟩ :: more) := by
  have hread : (Session.ofTokens negatedOne 0).read .program .silent =
      (.error (.tooDeep 0 ⟨.minus, none, .start⟩), ⟨negatedOne.drop 7, 1, 0⟩, .silent) := by
    simp [Session.read, Session.ofTokens, Rule.read, program, function, statement, expression,
      term, chain, factor, take, negatedOne, UnaryOperator.ofTerminal?, Terminal.base?, bind,
      Except.bind]
  exact ⟨negatedOne_spelled, hread,
    (parse_error_is_earliest negatedOne_spelled 0 .silent hread).2⟩

end Parser

end TinyC
