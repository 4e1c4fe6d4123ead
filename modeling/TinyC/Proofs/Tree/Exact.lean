import TinyC.Proofs.Tree.Grammar

namespace TinyC.Parser

-- The nesting of a tree stays within the limit where `depth` levels are open already.
def Fits (limit : Int) (depth : Nat) (node : Node) : Prop :=
  0 < node.nesting → depth + node.nesting ≤ limit

section

variable {decode : Numeral.Base → Token → Except ParseError Int} {limit : Int}

-- What a successful reading says about the tokens it has taken. The rest of a chain extends
-- whatever stands before it.
def Sound (decode : Numeral.Base → Token → Except ParseError Int) (limit : Int) (goal : Goal)
    (depth : Nat) (tokens : List Token) (node : Node) (left : List Token) : Prop :=
  match goal with
  | .whole level =>
    ∃ front, tokens = front ++ left ∧ Derives (Decoded decode) level front node ∧
      Fits limit depth node
  | .rest tier first =>
    ∃ front, tokens = front ++ left ∧
      (∀ before, Derives (Decoded decode) (.chain tier) before first →
        Derives (Decoded decode) (.chain tier) (before ++ front) node) ∧
      (Fits limit depth first → Fits limit depth node)

theorem Fits.binary {depth : Nat} {tier : Tier} {left right : Node} {op : String}
    {place : Position} (hleft : Fits limit depth left) (hright : Fits limit depth right) :
    Fits limit depth (.binary tier left op right place) := by
  simp only [Fits, Node.nesting] at *
  omega

theorem Reads.sound {goal : Goal} {depth : Nat} {tokens left : List Token} {node : Node}
    (h : Reads decode limit goal depth tokens (.ok (node, left))) :
    Sound decode limit goal depth tokens node left := by
  generalize houtcome : (Except.ok (node, left) : Outcome) = outcome at h
  induction h generalizing node left with
  | literal hbase hvalue =>
    cases houtcome
    exact ⟨[_], rfl, .literal ⟨_, hbase, hvalue⟩, by simp [Fits, Node.nesting]⟩
  | unary hop hdepth _ ih =>
    cases houtcome
    obtain ⟨front, rfl, hoperand, hfits⟩ := ih rfl
    refine ⟨_ :: front, rfl, .unary hop hoperand, ?_⟩
    simp only [Fits, Node.nesting] at *
    omega
  | group hopen hdepth _ hclose ih =>
    cases houtcome
    obtain ⟨front, rfl, hinner, hfits⟩ := ih rfl
    refine ⟨_ :: front ++ [_], by simp, .group hopen hinner hclose, ?_⟩
    simp only [Fits, Node.nesting] at *
    omega
  | chain _ _ ihfirst ihrest =>
    obtain ⟨front, rfl, hfirst, hfits⟩ := ihfirst rfl
    obtain ⟨more, rfl, hchain, hchainFits⟩ := ihrest houtcome
    exact ⟨front ++ more, by simp, hchain front (.operand hfirst), hchainFits hfits⟩
  | ends hends =>
    cases houtcome
    exact ⟨[], rfl, by simp, id⟩
  | @link tier depth first right token rest after operator outcome hop _ _ ihright ihrest =>
    obtain ⟨front, rfl, hright, hfits⟩ := ihright rfl
    obtain ⟨more, rfl, hchain, hchainFits⟩ := ihrest houtcome
    refine ⟨token :: front ++ more, by simp, ?_, fun hleft => hchainFits (hleft.binary hfits)⟩
    intro before hbefore
    have hbinary := hchain _ (.binary hbefore hop hright)
    simpa using hbinary
  | noToken => cases houtcome
  | noFactor => cases houtcome
  | badLiteral => cases houtcome
  | tooDeep => cases houtcome
  | badOperand => cases houtcome
  | unclosed => cases houtcome
  | badInner => cases houtcome
  | badFirst => cases houtcome
  | badRight => cases houtcome

-- Operands of the tier are complete before the tokens.
def Bounds : Tier → List Token → Prop
  | .additive, tokens => Ends .multiplicative tokens
  | .multiplicative, _ => True

-- An operator of a tier bounds the operands of that tier.
theorem bounds_of_ofTerminal? {tier : Tier} {token : Token} {operator : BinaryOperator}
    (h : tier.ofTerminal? token.terminal = some operator) (rest : List Token) :
    Bounds tier (token :: rest) := by
  cases tier with
  | multiplicative => trivial
  | additive =>
    intro next hnext
    obtain rfl : next = token := by simpa using hnext.symm
    cases hterminal : next.terminal <;> rw [hterminal] at h <;> first | rfl | cases h

-- A symbol goes on with no operator.
theorem ends_of_symbol {token : Token} (h : token.terminal.category = .symbol) (tier : Tier)
    (rest : List Token) : Ends tier (token :: rest) := by
  intro next hnext
  obtain rfl : next = token := by simpa using hnext.symm
  cases tier <;> cases hterminal : next.terminal <;> rw [hterminal] at h <;>
    first | rfl | cases h

-- What is derived is read back, whatever tokens follow it. A chain is read up to its last
-- operand, from where the reading goes on as it may.
def Complete (decode : Numeral.Base → Token → Except ParseError Int) (limit : Int) (level : Level)
    (front : List Token) (node : Node) : Prop :=
  ∀ depth, Fits limit depth node →
    match level with
    | .factor => ∀ rest,
      Reads decode limit (.whole .factor) depth (front ++ rest) (.ok (node, rest))
    | .chain tier => ∀ rest outcome, Bounds tier rest →
      Reads decode limit (.rest tier node) depth rest outcome →
      Reads decode limit (.whole (.chain tier)) depth (front ++ rest) outcome

theorem Complete.operand {tier : Tier} {front : List Token} {node : Node}
    (h : Complete decode limit (operandLevel tier) front node) {depth : Nat}
    (hfits : Fits limit depth node) {rest : List Token} (hbounds : Bounds tier rest) :
    Reads decode limit (.whole (operandLevel tier)) depth (front ++ rest) (.ok (node, rest)) := by
  cases tier with
  | multiplicative => exact h depth hfits rest
  | additive => exact h depth hfits rest _ trivial (.ends hbounds)

theorem Derives.complete {level : Level} {front : List Token} {node : Node}
    (h : Derives (Decoded decode) level front node) : Complete decode limit level front node := by
  induction h with
  | literal hvalue =>
    intro depth _ rest
    obtain ⟨base, hbase, hvalue⟩ := hvalue
    exact .literal hbase hvalue
  | unary hop _ ih =>
    intro depth hfits rest
    simp only [Fits, Node.nesting] at hfits
    refine .unary hop (by omega) (ih (depth + 1) ?_ rest)
    intro _
    omega
  | @group opening closing tokens inner hopen _ hclose ih =>
    intro depth hfits rest
    simp only [Fits, Node.nesting] at hfits
    have hends : ∀ tier, Ends tier (closing :: rest) :=
      fun tier => ends_of_symbol (by rw [hclose]; rfl) tier rest
    have hinner : Reads decode limit (.whole (.chain .additive)) (depth + 1)
        (tokens ++ closing :: rest) (.ok (inner, closing :: rest)) := by
      apply ih (depth + 1) _ _ _ (hends .multiplicative) (.ends (hends .additive))
      intro _
      omega
    have hgroup := Reads.group hopen (by omega) hinner hclose
    simpa using hgroup
  | operand _ ih =>
    intro depth hfits rest outcome hbounds hrest
    exact .chain (ih.operand hfits hbounds) hrest
  | @binary tier token leftTokens rightTokens operator left right _ hop _ ihleft ihright =>
    intro depth hfits rest outcome hbounds hrest
    simp only [Fits, Node.nesting] at hfits
    have hfitsRight : Fits limit depth right := by
      intro _
      omega
    have hright := ihright.operand hfitsRight hbounds
    have hlink := Reads.link hop hright hrest
    have hchain := ihleft depth (by intro _; omega) _ _ (bounds_of_ofTerminal? hop _) hlink
    simpa using hchain

end

section

variable {limit : Int} {depth : Nat} {log : Log}

private theorem of_bind_ok {ε α β : Type} {first : Except ε α} {next : α → Except ε β} {result : β}
    (h : first >>= next = .ok result) : ∃ value, first = .ok value ∧ next value = .ok result := by
  cases first with
  | error error => cases h
  | ok value => exact ⟨value, rfl, h⟩

theorem of_take_ok {terminal : Terminal} {expected : Expected} {tokens : List Token}
    {taken : Taken tokens.length} (h : take terminal expected depth tokens = .ok taken) :
    tokens = taken.token :: taken.left ∧ taken.token.terminal = terminal := by
  cases tokens with
  | nil => cases h
  | cons token left =>
    rw [take] at h
    split at h
    · next hterminal =>
      cases h
      exact ⟨rfl, hterminal⟩
    · cases h

theorem take_cons {terminal : Terminal} {token : Token} (h : token.terminal = terminal)
    (expected : Expected) (left : List Token) :
    take terminal expected depth (token :: left) =
      .ok ⟨token, left, Nat.lt_succ_self left.length⟩ := by
  simp [take, h]

theorem of_statement_ok {tokens : List Token} {reading : Reading tokens.length}
    (h : statement limit depth tokens = .ok reading) :
    ∃ keyword semicolon rest value, tokens = keyword :: rest ∧
      keyword.terminal = .returnKeyword ∧ semicolon.terminal = .semicolon ∧
      Reads literalValue limit (.whole (.chain .additive)) depth rest
        (.ok (value, semicolon :: reading.left)) ∧
      reading.node = .ret value keyword.place := by
  obtain ⟨keyword, hkeyword, h⟩ := of_bind_ok h
  obtain ⟨value, hvalue, h⟩ := of_bind_ok h
  obtain ⟨closing, hclosing, h⟩ := of_bind_ok h
  cases h
  obtain ⟨htokens, hreturn⟩ := of_take_ok hkeyword
  obtain ⟨hleft, hsemicolon⟩ := of_take_ok hclosing
  have hreads := reads_expression limit depth keyword.left
  rw [hvalue, outcome_ok, hleft] at hreads
  exact ⟨keyword.token, closing.token, keyword.left, value.node, htokens, hreturn, hsemicolon,
    hreads, rfl⟩

-- The line that reports a function once it is closed.
def readLine (name : Option String) : String := "parse: function " ++ name.getD "None"

theorem of_function_ok {tokens : List Token} {reading : Reading tokens.length} {after : Log}
    (h : function limit depth tokens log = (.ok reading, after)) :
    ∃ int name openParen closeParen openBrace closeBrace rest body,
      tokens = int :: name :: openParen :: closeParen :: openBrace :: rest ∧
      int.terminal = .intKeyword ∧ name.terminal = .identifier ∧
      openParen.terminal = .leftParen ∧ closeParen.terminal = .rightParen ∧
      openBrace.terminal = .leftBrace ∧ statement limit depth rest = .ok body ∧
      body.left = closeBrace :: reading.left ∧ closeBrace.terminal = .rightBrace ∧
      reading.node = .function name.value body.node int.place ∧
      after = log.after [readLine name.value] := by
  unfold function at h
  dsimp only at h
  split at h
  · cases h
  · next name reading' heq =>
    cases h
    obtain ⟨int, hint, heq⟩ := of_bind_ok heq
    obtain ⟨name, hname, heq⟩ := of_bind_ok heq
    obtain ⟨openParen, hopenParen, heq⟩ := of_bind_ok heq
    obtain ⟨closeParen, hcloseParen, heq⟩ := of_bind_ok heq
    obtain ⟨openBrace, hopenBrace, heq⟩ := of_bind_ok heq
    obtain ⟨body, hbody, heq⟩ := of_bind_ok heq
    obtain ⟨closeBrace, hcloseBrace, heq⟩ := of_bind_ok heq
    cases heq
    obtain ⟨htokens, hint⟩ := of_take_ok hint
    obtain ⟨hafterInt, hname⟩ := of_take_ok hname
    obtain ⟨hafterName, hopenParen⟩ := of_take_ok hopenParen
    obtain ⟨hafterOpen, hcloseParen⟩ := of_take_ok hcloseParen
    obtain ⟨hafterClose, hopenBrace⟩ := of_take_ok hopenBrace
    obtain ⟨hafterBody, hcloseBrace⟩ := of_take_ok hcloseBrace
    have hbrace := hafterClose
    have hparen := hafterOpen.trans (congrArg (closeParen.token :: ·) hbrace)
    have hopen := hafterName.trans (congrArg (openParen.token :: ·) hparen)
    have hall := htokens.trans
      (congrArg (int.token :: ·) (hafterInt.trans (congrArg (name.token :: ·) hopen)))
    exact ⟨int.token, name.token, openParen.token, closeParen.token, openBrace.token,
      closeBrace.token, openBrace.left, body, hall, hint, hname, hopenParen, hcloseParen,
      hopenBrace, hbody, hafterBody, hcloseBrace, rfl, Log.note_eq_after _ _⟩

-- A function is reported by its name just if it is closed.
theorem function_eq_ok {tokens : List Token} {reading : Reading tokens.length}
    (h : (function limit depth tokens log).1 = .ok reading) {name : Option String} {body : Node}
    {place : Position} (hnode : reading.node = .function name body place) :
    function limit depth tokens log = (.ok reading, log.after [readLine name]) := by
  have hresult : function limit depth tokens log = (.ok reading, _) := Prod.ext h rfl
  obtain ⟨_, _, _, _, _, _, _, _, _, _, _, _, _, _, _, _, _, hshape, hafter⟩ :=
    of_function_ok hresult
  cases hnode.symm.trans hshape
  rw [hresult, hafter]

theorem function_eq_error {tokens : List Token} {stop : Stop}
    (h : (function limit depth tokens log).1 = .error stop) :
    function limit depth tokens log = (.error stop, log) := by
  unfold function at h ⊢
  dsimp only at h ⊢
  split at h
  · cases h
    rfl
  · cases h

theorem function_of_log (limit : Int) (depth : Nat) (tokens : List Token) (log other : Log) :
    (function limit depth tokens log).1 = (function limit depth tokens other).1 := by
  unfold function
  dsimp only
  split <;> rfl

theorem of_program_ok {tokens : List Token} {reading : Reading tokens.length}
    (h : (program limit depth tokens log).1 = .ok reading) :
    ∃ main, (function limit depth tokens log).1 = .ok main ∧ main.left = [] ∧
      reading.node = .program main.node main.node.place ∧ reading.left = [] := by
  unfold program at h
  split at h
  · cases h
  · next main log' heq =>
    split at h
    · next hleft =>
      cases h
      exact ⟨main, by rw [heq], hleft, rfl, hleft⟩
    · cases h

-- A statement that is read is derived from the tokens that are taken.
theorem derives_of_statement {tokens : List Token} {reading : Reading tokens.length}
    (h : statement limit depth tokens = .ok reading) :
    ∃ front, tokens = front ++ reading.left ∧
      DerivesStatement (Decoded literalValue) front reading.node ∧
      Fits limit depth reading.node := by
  obtain ⟨keyword, semicolon, rest, value, rfl, hkeyword, hsemicolon, hreads, hnode⟩ :=
    of_statement_ok h
  obtain ⟨front, hrest, hvalue, hfits⟩ := hreads.sound
  rw [hnode]
  exact ⟨keyword :: (front ++ [semicolon]), by simpa using hrest, .ret hkeyword hvalue hsemicolon, hfits⟩

-- A function that is read makes a program of the tokens that are taken.
theorem derives_of_function {tokens : List Token} {reading : Reading tokens.length}
    (h : (function limit depth tokens log).1 = .ok reading) :
    ∃ front, tokens = front ++ reading.left ∧
      DerivesProgram (Decoded literalValue) front (.program reading.node reading.node.place) ∧
      Fits limit depth reading.node := by
  obtain ⟨int, name, openParen, closeParen, openBrace, closeBrace, rest, body, rfl, hint, hname,
    hopenParen, hcloseParen, hopenBrace, hbody, hafterBody, hcloseBrace, hnode, _⟩ :=
    of_function_ok (Prod.ext h rfl)
  obtain ⟨front, hrest, hstatement, hfits⟩ := derives_of_statement hbody
  rw [hnode]
  rw [hafterBody] at hrest
  generalize body.node = statement at hstatement hfits
  cases hstatement with
  | @ret keyword semicolon tokens value hkeyword hvalue hsemicolon =>
    exact ⟨int :: name :: openParen :: closeParen :: openBrace :: keyword ::
      (tokens ++ [semicolon, closeBrace]), by simpa using hrest,
      .function hint hname hopenParen hcloseParen hopenBrace hkeyword hvalue hsemicolon
        hcloseBrace, hfits⟩

-- A program is a function behind which no token comes.
theorem parse_eq (tokens : List Token) (limit : Int) (log : Log) :
    parse tokens limit log =
      match function limit 0 tokens log with
      | (.error stop, log) => (.error stop.error, log)
      | (.ok main, log) =>
        match main.left with
        | [] => (.ok (.program main.node main.node.place), log)
        | token :: _ => (.error (.unexpected (some token) .endOfInput), log) := by
  simp only [parse, Session.read, Session.ofTokens, Rule.read, program]
  cases function limit 0 tokens log with
  | mk result after =>
    cases result with
    | error stop => rfl
    | ok main =>
      obtain ⟨node, left, shorter⟩ := main
      cases left with
      | nil => rfl
      | cons token rest => rfl

-- A program that is read is derived.
theorem derives_of_parse {tokens : List Token} {tree : Node}
    (h : (parse tokens limit log).1 = .ok tree) :
    DerivesProgram (Decoded literalValue) tokens tree ∧ Fits limit 0 tree := by
  rw [parse_eq] at h
  split at h
  · cases h
  · next main after heq =>
    obtain ⟨front, hfront, hderives, hfits⟩ := derives_of_function (congrArg Prod.fst heq)
    split at h
    · next hleft =>
      cases h
      rw [hleft, List.append_nil] at hfront
      subst hfront
      exact ⟨hderives, hfits⟩
    · cases h

theorem statement_of_reads {keyword semicolon : Token} {rest left : List Token} {value : Node}
    (hkeyword : keyword.terminal = .returnKeyword) (hsemicolon : semicolon.terminal = .semicolon)
    (h : Reads literalValue limit (.whole (.chain .additive)) depth rest
      (.ok (value, semicolon :: left))) :
    ∃ body, statement limit depth (keyword :: rest) = .ok body ∧ body.left = left ∧
      body.node = .ret value keyword.place := by
  have hreads := (reads_expression limit depth rest).functional h
  cases hexpression : expression limit depth rest with
  | error stop =>
    rw [hexpression] at hreads
    cases hreads
  | ok reading =>
    rcases reading with ⟨node, after, shorter⟩
    rw [hexpression] at hreads
    cases hreads
    refine ⟨⟨.ret node keyword.place, left, ?_⟩, ?_, rfl, rfl⟩
    · simp only [List.length_cons] at shorter ⊢
      omega
    · simp only [statement, take_cons hkeyword, bind, Except.bind, hexpression,
        take_cons hsemicolon]
      rfl

-- The tokens of a program are read as its function, whatever comes behind them.
theorem function_of_derives {front : List Token} {main : Node} {place : Position}
    (h : DerivesProgram (Decoded literalValue) front (.program main place))
    (hfits : Fits limit depth main) (rest : List Token) (log : Log) :
    ∃ reading, (function limit depth (front ++ rest) log).1 = .ok reading ∧
      reading.node = main ∧ reading.left = rest := by
  cases h with
  | @function int name openParen closeParen openBrace keyword semicolon closeBrace tokens value
      hint hname hopenParen hcloseParen hopenBrace hkeyword hvalue hsemicolon hcloseBrace =>
    have hends : ∀ tier, Ends tier (semicolon :: closeBrace :: rest) :=
      fun tier => ends_of_symbol (by rw [hsemicolon]; rfl) tier _
    have hreads : Reads literalValue limit (.whole (.chain .additive)) depth
        (tokens ++ semicolon :: closeBrace :: rest)
        (.ok (value, semicolon :: closeBrace :: rest)) :=
      hvalue.complete depth hfits _ _ (hends .multiplicative) (.ends (hends .additive))
    obtain ⟨⟨node, left, shorter⟩, hbody, hleft, hnode⟩ :=
      statement_of_reads hkeyword hsemicolon hreads
    cases hleft
    cases hnode
    simp [function, take_cons, hint, hname, hopenParen, hcloseParen, hopenBrace, hbody,
      hcloseBrace, bind, Except.bind, pure, Except.pure]

-- A program that is derived within the limit is read.
theorem parse_of_derives {tokens : List Token} {tree : Node}
    (h : DerivesProgram (Decoded literalValue) tokens tree) (hfits : Fits limit 0 tree)
    (log : Log) :
    (parse tokens limit log).1 = .ok tree := by
  obtain ⟨main, rfl⟩ := h.exists_main
  have hmain := function_of_derives h hfits [] log
  rw [List.append_nil] at hmain
  obtain ⟨reading, hfunction, rfl, hleft⟩ := hmain
  have hresult : function limit 0 tokens log = (.ok reading, _) := Prod.ext hfunction rfl
  rw [parse_eq, hresult]
  simp only [hleft]

end

end TinyC.Parser
