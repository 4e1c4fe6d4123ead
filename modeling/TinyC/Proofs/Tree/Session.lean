import TinyC.Proofs.Tree.Prefix

namespace TinyC.Parser

-- The tokens and the tree of what a rule reads. A function has the tokens of its program.
def Rule.Generates (denotes : Token → Int → Prop) : Rule → List Token → Node → Prop
  | .program, tokens, node => DerivesProgram denotes tokens node
  | .function, tokens, node => DerivesProgram denotes tokens (.program node node.place)
  | .statement, tokens, node => DerivesStatement denotes tokens node
  | .expression, tokens, node => Derives denotes (.chain .additive) tokens node
  | .term, tokens, node => Derives denotes (.chain .multiplicative) tokens node
  | .factor, tokens, node => Derives denotes .factor tokens node

-- A rule does not leave off before a token with which it would go on.
def Rule.LeavesOff : Rule → List Token → Prop
  | .program, left => left = []
  | .expression, left => ∀ token ∈ left.head?, token.terminal ∉ [.plus, .minus, .star, .slash]
  | .term, left => ∀ token ∈ left.head?, token.terminal ∉ [.star, .slash]
  | _, _ => True

theorem Rule.Generates.mono {denotes other : Token → Int → Prop} {rule : Rule}
    {tokens : List Token} {node : Node} (h : rule.Generates denotes tokens node)
    (himp : ∀ token ∈ tokens, ∀ value, denotes token value → other token value) :
    rule.Generates other tokens node := by
  cases rule with
  | program => exact DerivesProgram.mono h himp
  | function => exact DerivesProgram.mono h himp
  | statement => exact DerivesStatement.mono h himp
  | expression => exact Derives.mono h himp
  | term => exact Derives.mono h himp
  | factor => exact Derives.mono h himp

theorem not_mem_of_ends_multiplicative {left : List Token} (h : Ends .multiplicative left) :
    ∀ token ∈ left.head?, token.terminal ∉ [.star, .slash] := by
  intro token htoken hmem
  have hnone := h token htoken
  simp only [List.mem_cons, List.not_mem_nil, or_false] at hmem
  rcases hmem with hterminal | hterminal <;> rw [hterminal] at hnone <;> cases hnone

theorem not_mem_of_bounded_additive {left : List Token}
    (h : Level.Bounded (.chain .additive) left) :
    ∀ token ∈ left.head?, token.terminal ∉ [.plus, .minus, .star, .slash] := by
  intro token htoken hmem
  have hmultiplicative := not_mem_of_ends_multiplicative h.2 token htoken
  have hnone := h.1 token htoken
  simp only [List.mem_cons, List.not_mem_nil, or_false] at hmem hmultiplicative
  rcases hmem with hterminal | hterminal | hterminal
  · rw [hterminal] at hnone
    cases hnone
  · rw [hterminal] at hnone
    cases hnone
  · exact hmultiplicative hterminal

section

variable {limit : Int} {depth : Nat} {tokens : List Token} {log : Log}

theorem sound_of_reads {level : Level} {result : Except Stop (Reading tokens.length)}
    (hreads : Reads literalValue limit (.whole level) depth tokens (outcome result))
    {reading : Reading tokens.length} (h : result = .ok reading) :
    ∃ front, tokens = front ++ reading.left ∧
      Derives (Decoded literalValue) level front reading.node ∧
      Fits limit depth reading.node ∧ level.Bounded reading.left := by
  rw [h, outcome_ok] at hreads
  obtain ⟨front, hfront, hderives, hfits⟩ := hreads.sound
  exact ⟨front, hfront, hderives, hfits, hreads.bounded⟩

-- A rule that gives a tree has taken the tokens of that tree.
theorem Rule.sound {rule : Rule} {reading : Reading tokens.length}
    (h : (rule.read limit depth tokens log).1 = .ok reading) :
    ∃ front, tokens = front ++ reading.left ∧
      rule.Generates (Decoded literalValue) front reading.node ∧
      Fits limit depth reading.node ∧ rule.LeavesOff reading.left := by
  cases rule with
  | program =>
    obtain ⟨main, hmain, hempty, hnode, hleft⟩ := of_program_ok h
    obtain ⟨front, hfront, hderives, hfits⟩ := derives_of_function hmain
    rw [hempty] at hfront
    rw [hleft, hnode]
    exact ⟨front, hfront, hderives, hfits, rfl⟩
  | function =>
    obtain ⟨front, hfront, hderives, hfits⟩ := derives_of_function h
    exact ⟨front, hfront, hderives, hfits, trivial⟩
  | statement =>
    obtain ⟨front, hfront, hderives, hfits⟩ := derives_of_statement h
    exact ⟨front, hfront, hderives, hfits, trivial⟩
  | expression =>
    obtain ⟨front, hfront, hderives, hfits, hbounded⟩ :=
      sound_of_reads (reads_expression limit depth tokens) h
    exact ⟨front, hfront, hderives, hfits, not_mem_of_bounded_additive hbounded⟩
  | term =>
    obtain ⟨front, hfront, hderives, hfits, hbounded⟩ :=
      sound_of_reads (reads_term limit depth tokens) h
    exact ⟨front, hfront, hderives, hfits, not_mem_of_ends_multiplicative hbounded.1⟩
  | factor =>
    obtain ⟨front, hfront, hderives, hfits, _⟩ :=
      sound_of_reads (reads_factor limit depth tokens) h
    exact ⟨front, hfront, hderives, hfits, trivial⟩

end

-- The tokens of the terminals that can open a level of nesting; a minus may also subtract.
def mayOpen (token : Token) : Bool := token.terminal ∈ [.leftParen, .minus, .tilde, .bang]

theorem Opens.mayOpen {token : Token} (h : Opens token) : Parser.mayOpen token := by
  unfold Parser.mayOpen
  rcases h with hopen | ⟨operator, hop⟩
  · simp [hopen]
  · cases hterminal : token.terminal <;> rw [hterminal] at hop <;> first | rfl | cases hop

-- A later state of a session, after so many readings that failed. Tokens are taken from the
-- front. Levels of nesting stay open only as some of these tokens opened them, and each failure
-- leaves at most one of them above the limit.
structure Session.Later (session after : Session) (failures : Nat) : Prop where
  limit_eq : after.limit = session.limit
  exists_front : ∃ front, session.tokens = front ++ after.tokens ∧
    after.depth ≤ session.depth + front.countP mayOpen
  le_depth : session.depth ≤ after.depth
  depth_le : (after.depth : Int) ≤ max (session.depth : Int) session.limit + failures

namespace Session.Later

variable {limit : Int} {depth : Nat}

theorem drop (front rest : List Token) (depth : Nat) (limit : Int) (failures : Nat) :
    Later ⟨front ++ rest, depth, limit⟩ ⟨rest, depth, limit⟩ failures where
  limit_eq := rfl
  exists_front := ⟨front, rfl, Nat.le_add_right _ _⟩
  le_depth := Nat.le_refl depth
  depth_le := by
    show (depth : Int) ≤ max (depth : Int) limit + failures
    omega

theorem opening {token : Token} (h : Opens token) (rest : List Token) (failures : Nat)
    (hdepth : (depth + 1 : Int) ≤ max (depth : Int) limit + failures) :
    Later ⟨token :: rest, depth, limit⟩ ⟨rest, depth + 1, limit⟩ failures where
  limit_eq := rfl
  exists_front := ⟨[token], rfl, by simp [h.mayOpen]⟩
  le_depth := Nat.le_succ depth
  depth_le := hdepth

theorem trans {first second third : Session} {before after : Nat}
    (hfirst : first.Later second before) (hsecond : second.Later third after) :
    first.Later third (before + after) := by
  obtain ⟨hlimit, ⟨front, htokens, hgrowth⟩, hle, hdepth⟩ := hfirst
  obtain ⟨hlimit', ⟨more, htokens', hgrowth'⟩, hle', hdepth'⟩ := hsecond
  refine ⟨hlimit'.trans hlimit, ⟨front ++ more, ?_, ?_⟩, hle.trans hle', ?_⟩
  · rw [htokens, htokens', List.append_assoc]
  · rw [List.countP_append]
    omega
  · rw [hlimit] at hdepth'
    omega

end Session.Later

-- A reading that stops leaves the session in a later state, by one failure.
def StopsAt (limit : Int) (depth : Nat) (tokens : List Token) (stop : Stop) : Prop :=
  Session.Later ⟨tokens, depth, limit⟩ ⟨stop.left, stop.depth, limit⟩ 1

section

variable {decode : Numeral.Base → Token → Except ParseError Int} {limit : Int} {depth : Nat}
  {tokens : List Token} {stop : Stop}

theorem StopsAt.here (limit : Int) (depth : Nat) (tokens : List Token) (error : ParseError) :
    StopsAt limit depth tokens ⟨error, tokens, depth⟩ :=
  .drop [] tokens depth limit 1

theorem StopsAt.behind (h : StopsAt limit depth tokens stop) (front : List Token) :
    StopsAt limit depth (front ++ tokens) stop :=
  (Session.Later.drop front tokens depth limit 0).trans h

theorem StopsAt.inside {token : Token} (hopens : Opens token) (hdepth : depth + 1 ≤ limit)
    (h : StopsAt limit (depth + 1) tokens stop) : StopsAt limit depth (token :: tokens) stop :=
  (Session.Later.opening hopens tokens 0 (by omega)).trans h

-- The induction is on the rules of reading. What was read before a stop has closed the levels that
-- it opened, so that only the levels around the stop are left open.
theorem Reads.stopsAt {goal : Goal} (h : Reads decode limit goal depth tokens (.error stop)) :
    StopsAt limit depth tokens stop := by
  generalize houtcome : (Except.error stop : Outcome) = outcome at h
  induction h generalizing stop with
  | noToken =>
    cases houtcome
    exact .here limit _ _ _
  | noFactor =>
    cases houtcome
    exact .here limit _ _ _
  | badLiteral =>
    cases houtcome
    exact (StopsAt.here limit _ _ _).behind [_]
  | tooDeep hopens =>
    cases houtcome
    exact .opening hopens _ 1 (by omega)
  | badOperand hop hdepth _ ih => exact (ih houtcome).inside (.inr ⟨_, hop⟩) hdepth
  | @unclosed depth token rest left inner hopen hdepth hinner hclose =>
    cases houtcome
    obtain ⟨front, rfl, _⟩ := hinner.sound
    exact (StopsAt.here limit depth left _).behind (token :: front)
  | badInner hopen hdepth _ ih => exact (ih houtcome).inside (.inl hopen) hdepth
  | chain hfirst _ _ ihrest =>
    obtain ⟨front, rfl, _⟩ := hfirst.sound
    exact (ihrest houtcome).behind front
  | badFirst _ ih => exact ih houtcome
  | @link tier depth left right token rest after operator outcome hop hright _ _ ihrest =>
    obtain ⟨front, rfl, _⟩ := hright.sound
    exact (ihrest houtcome).behind (token :: front)
  | badRight hop _ ih => exact (ih houtcome).behind [_]
  | literal => cases houtcome
  | unary => cases houtcome
  | group => cases houtcome
  | ends => cases houtcome

theorem Follows.stopsAt {pieces : List Piece}
    (h : Follows limit depth pieces tokens (.error stop)) : StopsAt limit depth tokens stop := by
  generalize houtcome : Except.error stop = outcome at h
  induction h generalizing stop with
  | done => cases houtcome
  | trailing =>
    cases houtcome
    exact .here limit depth _ _
  | terminal hwanted _ ih => exact (ih houtcome).behind [_]
  | unexpected hother =>
    cases houtcome
    exact .here limit depth _ _
  | @value tokens rest node semicolon pieces outcome hreads hsemicolon _ ih =>
    obtain ⟨front, rfl, _⟩ := hreads.sound
    rw [List.append_cons]
    exact (ih houtcome).behind (front ++ [semicolon])
  | unclosed hreads hclosing =>
    cases houtcome
    obtain ⟨front, rfl, _⟩ := hreads.sound
    exact (StopsAt.here limit depth _ _).behind front
  | badValue hreads =>
    cases houtcome
    exact hreads.stopsAt

theorem stopsAt_of_reads {level : Level} {result : Except Stop (Reading tokens.length)}
    (hreads : Reads literalValue limit (.whole level) depth tokens (outcome result))
    (h : result = .error stop) : StopsAt limit depth tokens stop := by
  rw [h] at hreads
  exact hreads.stopsAt

theorem Rule.stopsAt {rule : Rule} {log : Log}
    (h : (rule.read limit depth tokens log).1 = .error stop) :
    StopsAt limit depth tokens stop := by
  cases rule with
  | program =>
    have hprogram : (Parser.program limit depth tokens log).1 = .error stop := h
    have hfollows := follows_program limit depth tokens log
    rw [hprogram] at hfollows
    exact hfollows.stopsAt
  | function =>
    have hfollows : Follows limit depth programPieces tokens (.error stop) := by
      refine follows_function h ?_ ?_
      · rintro stop ⟨⟩
        rfl
      · rintro main ⟨⟩
    exact hfollows.stopsAt
  | statement =>
    have hstatement : Parser.statement limit depth tokens >>= Except.ok = .error stop :=
      (bind_pure _).trans h
    have hfollows : Follows limit depth
        [.terminal .returnKeyword (.terminal .returnKeyword), .value] tokens (.error stop) := by
      refine follows_statement hstatement ?_ ?_
      · rintro stop ⟨⟩
        rfl
      · rintro body ⟨⟩
    exact hfollows.stopsAt
  | expression => exact stopsAt_of_reads (reads_expression limit depth tokens) h
  | term => exact stopsAt_of_reads (reads_term limit depth tokens) h
  | factor => exact stopsAt_of_reads (reads_factor limit depth tokens) h

end

-- Readings one after another, of a rule each: their results, and the session after them.
def Session.readEach : Session → List Rule → List (Except ParseError Node) × Session
  | session, [] => ([], session)
  | session, rule :: rules =>
    let (result, next, _) := session.read rule .silent
    let (results, last) := next.readEach rules
    (result :: results, last)

def failures (results : List (Except ParseError Node)) : Nat :=
  results.countP fun result => !result.isOk

section

variable {session after : Session} {rule : Rule} {log written : Log}

theorem Session.of_read_ok {node : Node} (h : session.read rule log = (.ok node, after, written)) :
    after.depth = session.depth ∧ after.limit = session.limit ∧
      ∃ front, front ≠ [] ∧ session.tokens = front ++ after.tokens ∧
        rule.Generates (Decoded literalValue) front node ∧ rule.LeavesOff after.tokens ∧
        Fits session.limit session.depth node := by
  unfold Session.read at h
  split at h
  · next reading written' heq =>
    cases h
    obtain ⟨front, hfront, hgenerates, hfits, hleaves⟩ := Rule.sound (congrArg Prod.fst heq)
    refine ⟨rfl, rfl, front, ?_, hfront, hgenerates, hleaves, hfits⟩
    rintro rfl
    have hlength : session.tokens.length = reading.left.length := congrArg List.length hfront
    exact Nat.ne_of_lt reading.shorter hlength.symm
  · cases h

theorem Session.of_read_error {error : ParseError}
    (h : session.read rule log = (.error error, after, written)) : session.Later after 1 := by
  unfold Session.read at h
  split at h
  · cases h
  · next stop written' heq =>
    cases h
    exact Rule.stopsAt (congrArg Prod.fst heq)

-- The state after one reading is a later one.
theorem Session.later_read (session : Session) (rule : Rule) (log : Log) :
    session.Later (session.read rule log).2.1 (failures [(session.read rule log).1]) := by
  cases hread : session.read rule log with
  | mk result next =>
    obtain ⟨after, written⟩ := next
    cases result with
    | error error => exact of_read_error hread
    | ok node =>
      obtain ⟨hdepth, hlimit, front, _, htokens, _⟩ := of_read_ok hread
      obtain ⟨tokens, depth, limit⟩ := session
      obtain ⟨left, _, _⟩ := after
      cases hdepth
      cases hlimit
      cases htokens
      exact Later.drop front left depth limit 0

theorem Session.later_readEach (session : Session) (rules : List Rule) :
    session.Later (session.readEach rules).2 (failures (session.readEach rules).1) := by
  induction rules generalizing session with
  | nil => exact Later.drop [] session.tokens session.depth session.limit 0
  | cons rule rules ih =>
    have hlater := (session.later_read rule .silent).trans (ih _)
    simp only [failures, ← List.countP_append, List.singleton_append] at hlater
    exact hlater

end

-- A reading that gives a tree takes the tokens of the tree, at least one, and goes on as far as its
-- rule can. It leaves no level of nesting open, and what it nests is within the limit, whatever
-- earlier failures left open. A reading that fails, and a row of readings, lead to a later state.
theorem reading_keeps_state (session : Session)
    (hspelled : ∀ token ∈ session.tokens, token.IsSpelled) :
    (∀ rule log,
      match session.read rule log with
      | (.ok node, after, _) =>
        after.depth = session.depth ∧ after.limit = session.limit ∧
          ∃ front, front ≠ [] ∧ session.tokens = front ++ after.tokens ∧
            rule.Generates Token.Spells front node ∧ rule.LeavesOff after.tokens ∧
            (0 < node.nesting → session.depth + node.nesting ≤ session.limit)
      | (.error _, after, _) => session.Later after 1) ∧
    ∀ rules, session.Later (session.readEach rules).2 (failures (session.readEach rules).1) := by
  refine ⟨?_, session.later_readEach⟩
  intro rule log
  cases hread : session.read rule log with
  | mk result next =>
    obtain ⟨after, written⟩ := next
    cases result with
    | error error => exact Session.of_read_error hread
    | ok node =>
      obtain ⟨hdepth, hlimit, front, hne, htokens, hgenerates, hleaves, hfits⟩ :=
        Session.of_read_ok hread
      refine ⟨hdepth, hlimit, front, hne, htokens, ?_, hleaves, hfits⟩
      refine hgenerates.mono fun token htoken value hvalue => ?_
      have hmem : token ∈ session.tokens := by simp [htokens, htoken]
      exact (spells_of_decoded (hspelled token hmem) hvalue).1

-- The tokens of `0 + -0;` in a session that has more levels open than its limit allows.
def leftover : Session := ⟨[.decimal, .plus, .minus, .decimal, .semicolon].map sample, 3, 2⟩

-- The sum fails behind its minus, and leaves one more level open; then the last literal is read.
theorem reading_keeps_state_leftover :
    (∀ token ∈ leftover.tokens, token.IsSpelled) ∧
      (leftover.readEach [.expression, .factor]).1 =
        [.error (.tooDeep 2 (sample .minus)), .ok (.constant 0 .start)] ∧
      (leftover.readEach [.expression, .factor]).2.tokens = [sample .semicolon] ∧
      (leftover.readEach [.expression, .factor]).2.depth = 4 ∧
      leftover.Later (leftover.readEach [.expression, .factor]).2 1 := by
  have hspelled : ∀ token ∈ leftover.tokens, token.IsSpelled :=
    fun token htoken => (samples_spelled _ token htoken).1
  have hresults : (leftover.readEach [.expression, .factor]).1 =
      [.error (.tooDeep 2 (sample .minus)), .ok (.constant 0 .start)] := by decide +kernel
  have hlater := (reading_keeps_state leftover hspelled).2 [.expression, .factor]
  rw [hresults] at hlater
  exact ⟨hspelled, hresults, by decide +kernel, by decide +kernel, hlater⟩

end TinyC.Parser
