import TinyC.Proofs.Recursion.Budget
import TinyC.Proofs.Tree.Exact

namespace TinyC.Parser

-- What reads an expression of a level from the front of tokens.
abbrev Reader := (tokens : List Token) → Except Stop (Reading tokens.length)

-- The readers of the levels, given that of factors. Neither calls itself.

def termBy (factor : Reader) : Reader := fun tokens =>
  chain .multiplicative tokens fun front _ => factor front

def expressionBy (factor : Reader) : Reader := fun tokens =>
  chain .additive tokens fun front _ => termBy factor front

-- What is left behind a token, and behind what is read after it, is less than what stood there.

theorem length_lt_cons (token : Token) (rest : List Token) :
    rest.length < (token :: rest).length := Nat.lt_succ_self rest.length

theorem Reading.length_lt_cons {rest : List Token} (reading : Reading rest.length)
    (token : Token) : reading.left.length < (token :: rest).length :=
  Nat.lt_succ_of_lt reading.shorter

theorem Taken.length_lt_cons {rest : List Token} {inner : Reading rest.length}
    (closing : Taken inner.left.length) (token : Token) :
    closing.left.length < (token :: rest).length :=
  Nat.lt_succ_of_lt (Nat.lt_trans closing.shorter inner.shorter)

-- What one call of the reader of factors does, given the calls that it makes of itself: with one
-- level more open.
def factorStep (limit : Int) (factor : Nat → Reader) (depth : Nat) : Reader
  | [] => .error ⟨.noFactor none, [], depth⟩
  | token :: rest =>
    if token.terminal = .leftParen then
      if limit < depth + 1 then .error ⟨.tooDeep limit token, rest, depth + 1⟩
      else
        match expressionBy (factor (depth + 1)) rest with
        | .error stop => .error stop
        | .ok inner =>
          match take .rightParen (.terminal .rightParen) depth inner.left with
          | .error stop => .error stop
          | .ok closing =>
            .ok ⟨.group inner.node token.place, closing.left, closing.length_lt_cons token⟩
    else
      match UnaryOperator.ofTerminal? token.terminal, token.terminal.base? with
      | some operator, _ =>
        if limit < depth + 1 then .error ⟨.tooDeep limit token, rest, depth + 1⟩
        else
          match factor (depth + 1) rest with
          | .error stop => .error stop
          | .ok operand =>
            .ok ⟨.unary operator.symbol operand.node token.place, operand.left,
              operand.length_lt_cons token⟩
      | none, some base =>
        match literalValue base token with
        | .error error => .error ⟨error, rest, depth⟩
        | .ok value => .ok ⟨.constant value token.place, rest, length_lt_cons token rest⟩
      | none, none => .error ⟨.noFactor (some token), token :: rest, depth⟩

theorem factorStep_factor (limit : Int) (depth : Nat) :
    factorStep limit (factor limit) depth = factor limit depth := by
  funext tokens
  cases tokens with
  | nil =>
    rw [factor]
    rfl
  | cons token rest =>
    rw [factor]
    rfl

-- A call goes on to the next level as long as the limit lets it.
theorem factorStep_congr {limit : Int} {factor other : Nat → Reader} {depth : Nat}
    (h : (depth : Int) + 1 ≤ limit → factor (depth + 1) = other (depth + 1)) :
    factorStep limit factor depth = factorStep limit other depth := by
  funext tokens
  cases tokens with
  | nil => rfl
  | cons token rest =>
    by_cases hdeep : limit < depth + 1
    · simp only [factorStep, if_pos hdeep]
    · simp only [factorStep, h (by omega)]

-- The levels that a call at a level may go on to.
def deeper (limit : Int) (depth : Nat) : List Nat :=
  if (depth : Int) + 1 ≤ limit then [depth + 1] else []

theorem mem_deeper {limit : Int} {depth next : Nat} :
    next ∈ deeper limit depth ↔ next = depth + 1 ∧ (depth : Int) + 1 ≤ limit := by
  unfold deeper
  split <;> simp_all

theorem nests_deeper (limit : Int) :
    Nests (deeper limit) fun depth => (limit - depth).toNat + 1 where
  pos := by
    intro depth
    omega
  lt := by
    intro depth next hnext
    obtain ⟨rfl, hlimit⟩ := mem_deeper.mp hnext
    omega
  exists_callee := by
    intro depth budget hbudget
    refine ⟨depth + 1, mem_deeper.mpr ⟨rfl, ?_⟩, ?_⟩ <;> omega

-- The reader of factors with a budget of its calls that may be active at once.
def factorWithin (exhausted : ParseError) (limit : Int) : Nat → Nat → Reader :=
  withBudget (factorStep limit) fun depth tokens => .error ⟨exhausted, tokens, depth⟩

-- One call more than there are levels is enough.
theorem factorWithin_eq (exhausted : ParseError) {limit : Int} {budget depth : Nat}
    (h : (limit - depth).toNat + 1 ≤ budget) :
    factorWithin exhausted limit budget depth = factor limit depth := by
  apply (nests_deeper limit).withBudget_eq _ h
  intro next depth hnext
  rw [← factorStep_factor]
  apply factorStep_congr
  intro hlimit
  exact hnext _ (mem_deeper.mpr ⟨rfl, hlimit⟩)

-- The program that the tokens spell, with a reader for the value that it returns.
def parseBy (value : Reader) (tokens : List Token) (log : Log) : Except ParseError Node × Log :=
  let reading : Except Stop (Option String × Node × List Token) := do
    let int ← take .intKeyword (.terminal .intKeyword) 0 tokens
    let name ← take .identifier .functionName 0 int.left
    let openParen ← take .leftParen (.terminal .leftParen) 0 name.left
    let closeParen ← take .rightParen (.terminal .rightParen) 0 openParen.left
    let openBrace ← take .leftBrace (.terminal .leftBrace) 0 closeParen.left
    let keyword ← take .returnKeyword (.terminal .returnKeyword) 0 openBrace.left
    let value ← value keyword.left
    let semicolon ← take .semicolon .semicolonAfterValue 0 value.left
    let closeBrace ← take .rightBrace (.terminal .rightBrace) 0 semicolon.left
    return (name.token.value,
      .program (.function name.token.value (.ret value.node keyword.token.place) int.token.place)
        int.token.place, closeBrace.left)
  match reading with
  | .error stop => (.error stop.error, log)
  | .ok (name, node, left) =>
    let log := log.note fun _ => "parse: function " ++ name.getD "None"
    match left with
    | [] => (.ok node, log)
    | token :: _ => (.error (.unexpected (some token) .endOfInput), log)

theorem parse_eq_parseBy (tokens : List Token) (limit : Int) (log : Log) :
    parse tokens limit log = parseBy (expression limit 0) tokens log := by
  rw [parse_eq]
  unfold function statement parseBy
  simp only [bind, Except.bind, pure, Except.pure]
  rcases take .intKeyword (.terminal .intKeyword) 0 tokens with stop | int
  · rfl
  dsimp only
  rcases take .identifier .functionName 0 int.left with stop | name
  · rfl
  dsimp only
  rcases take .leftParen (.terminal .leftParen) 0 name.left with stop | openParen
  · rfl
  dsimp only
  rcases take .rightParen (.terminal .rightParen) 0 openParen.left with stop | closeParen
  · rfl
  dsimp only
  rcases take .leftBrace (.terminal .leftBrace) 0 closeParen.left with stop | openBrace
  · rfl
  dsimp only
  rcases take .returnKeyword (.terminal .returnKeyword) 0 openBrace.left with stop | keyword
  · rfl
  dsimp only
  rcases expression limit 0 keyword.left with stop | value
  · rfl
  dsimp only
  rcases take .semicolon .semicolonAfterValue 0 value.left with stop | semicolon
  · rfl
  dsimp only
  rcases take .rightBrace (.terminal .rightBrace) 0 semicolon.left with stop | closeBrace <;> rfl

-- Reading with a budget of calls of the reader of factors that may be active at once.
def parseWithin (exhausted : ParseError) (budget : Nat) (tokens : List Token) (limit : Int)
    (log : Log) : Except ParseError Node × Log :=
  parseBy (expressionBy (factorWithin exhausted limit budget 0)) tokens log

-- Whether or not tokens are accepted, and however many they are, reading has no more calls active
-- at once than the limit has levels, and one.
theorem parseWithin_eq (exhausted : ParseError) {limit : Int} {budget : Nat}
    (h : limit.toNat + 1 ≤ budget) (tokens : List Token) (log : Log) :
    parseWithin exhausted budget tokens limit log = parse tokens limit log := by
  rw [parse_eq_parseBy, parseWithin, factorWithin_eq exhausted (by simpa using h)]
  rfl

-- The reader of a level.
def readBy (factor : Reader) : Level → Reader
  | .factor => factor
  | .chain .multiplicative => termBy factor
  | .chain .additive => expressionBy factor

theorem readBy_chain (factor : Reader) (tier : Tier) (tokens : List Token) :
    readBy factor (.chain tier) tokens =
      chain tier tokens fun front _ => readBy factor (operandLevel tier) front := by
  cases tier <;> rfl

section

variable {exhausted : ParseError} {limit : Int}

-- What a reading with a budget comes to where one without comes to a node: the budget is enough
-- for what is nested less deeply, and for nothing else.
inductive Meets (exhausted : ParseError) (budget : Nat) (node : Node) (left : List Token)
    {bound : Nat} : Except Stop (Reading bound) → Prop
  | enough {shorter : left.length < bound} :
      node.nesting < budget → Meets exhausted budget node left (.ok ⟨node, left, shorter⟩)
  | tooFew {stop : Stop} :
      budget ≤ node.nesting → stop.error = exhausted →
      Meets exhausted budget node left (.error stop)

-- The rest of a chain is read once there is enough for what stands before it.
def Budgeted (exhausted : ParseError) (limit : Int) (goal : Goal) (depth : Nat)
    (tokens : List Token) (node : Node) (left : List Token) : Prop :=
  match goal with
  | .whole level => ∀ budget, Meets exhausted budget node left
      (readBy (factorWithin exhausted limit budget depth) level tokens)
  | .rest tier first =>
    first.nesting ≤ node.nesting ∧
      ∀ (budget bound : Nat) (h : tokens.length < bound), first.nesting < budget →
        Meets exhausted budget node left (links tier bound (fun front _ =>
          readBy (factorWithin exhausted limit budget depth) (operandLevel tier) front)
          first tokens h)

theorem budgeted_factor {depth : Nat} {tokens : List Token} {node : Node} {left : List Token}
    (h : ∀ budget, Meets exhausted (budget + 1) node left
      (factorStep limit (factorWithin exhausted limit budget) depth tokens)) :
    Budgeted exhausted limit (.whole .factor) depth tokens node left := by
  intro budget
  cases budget with
  | zero => exact .tooFew (Nat.zero_le _) rfl
  | succ budget => exact h budget

-- A literal opens no level.
theorem not_opens_of_base? {token : Token} {base : Numeral.Base}
    (h : token.terminal.base? = some base) :
    token.terminal ≠ .leftParen ∧ UnaryOperator.ofTerminal? token.terminal = none := by
  have hopens : ¬ Opens token := by
    intro hopens
    rw [hopens.base?_eq_none] at h
    cases h
  refine ⟨fun hopen => hopens (.inl hopen), ?_⟩
  rw [Option.eq_none_iff_forall_ne_some]
  exact fun operator hop => hopens (.inr ⟨operator, hop⟩)

-- Reading comes to as many calls that are active at once as there are levels of nesting in what
-- is read, and one. By induction on the rules, for all budgets at once.
theorem Reads.budgeted {goal : Goal} {depth : Nat} {tokens left : List Token} {node : Node}
    (h : Reads literalValue limit goal depth tokens (.ok (node, left))) :
    Budgeted exhausted limit goal depth tokens node left := by
  generalize houtcome : (Except.ok (node, left) : Outcome) = outcome at h
  induction h generalizing node left with
  | literal hbase hvalue =>
    cases houtcome
    apply budgeted_factor
    intro budget
    obtain ⟨hopen, hop⟩ := not_opens_of_base? hbase
    simp only [factorStep, if_neg hopen, hop, hbase, hvalue]
    exact .enough (Nat.succ_pos budget)
  | @unary depth token rest after operator operand hop hdepth _ ih =>
    cases houtcome
    apply budgeted_factor
    intro budget
    have hopen : token.terminal ≠ .leftParen := by grind
    have hdeep : ¬ limit < depth + 1 := by omega
    have hoperand := ih rfl budget
    rw [readBy] at hoperand
    simp only [factorStep, if_neg hopen, hop, if_neg hdeep]
    generalize factorWithin exhausted limit budget (depth + 1) rest = result at hoperand ⊢
    cases hoperand with
    | enough hless => exact .enough (Nat.succ_lt_succ hless)
    | tooFew hle hstop => exact .tooFew (Nat.succ_le_succ hle) hstop
  | @group depth token closing rest after inner hopen hdepth _ hclose ih =>
    cases houtcome
    apply budgeted_factor
    intro budget
    have hdeep : ¬ limit < depth + 1 := by omega
    have hinner := ih rfl budget
    rw [readBy] at hinner
    simp only [factorStep, if_pos hopen, if_neg hdeep]
    generalize expressionBy (factorWithin exhausted limit budget (depth + 1)) rest = result
      at hinner ⊢
    cases hinner with
    | enough hless =>
      simp only [take_cons hclose]
      exact .enough (Nat.succ_lt_succ hless)
    | tooFew hle hstop => exact .tooFew (Nat.succ_le_succ hle) hstop
  | @chain tier depth tokens after first outcome _ _ ihfirst ihrest =>
    intro budget
    obtain ⟨hle, hrest⟩ := ihrest houtcome
    have hfirst := ihfirst rfl budget
    rw [readBy_chain, Parser.chain]
    generalize readBy (factorWithin exhausted limit budget depth) (operandLevel tier) tokens =
      result at hfirst ⊢
    cases hfirst with
    | enough hless => exact hrest budget _ _ hless
    | tooFew hfew hstop => exact .tooFew (Nat.le_trans hfew hle) hstop
  | @ends tier depth first tokens hends =>
    cases houtcome
    refine ⟨Nat.le_refl _, ?_⟩
    intro budget bound h hless
    cases tokens with
    | nil =>
      rw [links]
      exact .enough hless
    | cons token rest =>
      have hop : tier.ofTerminal? token.terminal = none := hends token rfl
      rw [links, hop]
      exact .enough hless
  | @link tier depth first right token rest after operator outcome hop _ _ ihright ihrest =>
    obtain ⟨hle, hrest⟩ := ihrest houtcome
    simp only [Node.nesting] at hle hrest
    refine ⟨by omega, ?_⟩
    intro budget bound h hless
    have hright := ihright rfl budget
    rw [links, hop]
    generalize readBy (factorWithin exhausted limit budget depth) (operandLevel tier) rest =
      result at hright ⊢
    cases hright with
    | enough hlessRight => exact hrest budget bound _ (by omega)
    | tooFew hfew hstop => exact .tooFew (by omega) hstop
  | _ => cases houtcome

-- The tokens of a program are read just if the budget is enough for their tree.
theorem parseWithin_of_derives {tokens : List Token} {tree : Node}
    (h : DerivesProgram (Decoded literalValue) tokens tree) (hfits : Fits limit 0 tree)
    (exhausted : ParseError) (log : Log) :
    ∃ after, ∀ budget,
      (tree.nesting < budget →
        parseWithin exhausted budget tokens limit log = (.ok tree, after)) ∧
      (budget ≤ tree.nesting →
        parseWithin exhausted budget tokens limit log = (.error exhausted, log)) := by
  cases h with
  | @function int name openParen closeParen openBrace keyword semicolon closeBrace tokens value
      hint hname hopenParen hcloseParen hopenBrace hkeyword hvalue hsemicolon hcloseBrace =>
    have hends : ∀ tier, Ends tier [semicolon, closeBrace] :=
      fun tier => ends_of_symbol (by rw [hsemicolon]; rfl) tier _
    have hreads : Reads literalValue limit (.whole (.chain .additive)) 0
        (tokens ++ [semicolon, closeBrace]) (.ok (value, [semicolon, closeBrace])) :=
      hvalue.complete 0 hfits _ _ (hends .multiplicative) (.ends (hends .additive))
    refine ⟨log.note fun _ => "parse: function " ++ name.value.getD "None", ?_⟩
    intro budget
    have hvalue : Meets exhausted budget value [semicolon, closeBrace]
        (expressionBy (factorWithin exhausted limit budget 0)
          (tokens ++ [semicolon, closeBrace])) :=
      hreads.budgeted budget
    simp only [Node.nesting, parseWithin, parseBy, take_cons, hint, hname, hopenParen,
      hcloseParen, hopenBrace, hkeyword, bind, Except.bind]
    generalize expressionBy (factorWithin exhausted limit budget 0)
      (tokens ++ [semicolon, closeBrace]) = result at hvalue ⊢
    cases hvalue with
    | enough hless =>
      refine ⟨fun _ => ?_, fun hfew => by omega⟩
      simp only [take_cons, hsemicolon, hcloseBrace]
      rfl
    | tooFew hfew hstop =>
      refine ⟨fun hless => by omega, fun _ => ?_⟩
      rw [← hstop]

-- So reading them takes one call more than groups and unary operators nest in their tree.
theorem parseWithin_of_parse {tokens : List Token} {tree : Node} {log : Log}
    (h : (parse tokens limit log).1 = .ok tree) (exhausted : ParseError) (budget : Nat) :
    (tree.nesting < budget →
      parseWithin exhausted budget tokens limit log = parse tokens limit log) ∧
    (budget ≤ tree.nesting →
      parseWithin exhausted budget tokens limit log = (.error exhausted, log)) := by
  obtain ⟨hderives, hfits⟩ := derives_of_parse h
  obtain ⟨after, hwithin⟩ := parseWithin_of_derives hderives hfits exhausted log
  refine ⟨?_, (hwithin budget).2⟩
  intro hless
  have henough : tree.nesting < limit.toNat + 1 := by
    unfold Fits at hfits
    omega
  rw [← parseWithin_eq exhausted (Nat.le_refl _), (hwithin _).1 henough, (hwithin _).1 hless]

end

end TinyC.Parser
