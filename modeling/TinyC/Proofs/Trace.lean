import TinyC.Proofs.Compile

namespace TinyC

-- The tokens at the front of a source, up to a text with which no token begins.
def Recognizes (source : String) (tokens : List Token) (left : List Char) : Prop :=
  ∃ last, Lexer.Lexes (Position.start.advance (source.toList.takeWhile Text.isBlank))
    (source.toList.dropWhile Text.isBlank) tokens last left ∧ Terminal.first? left = none

theorem exists_recognizes (source : String) : ∃ tokens left, Recognizes source tokens left := by
  obtain ⟨tokens, last, left, hlexes, hend⟩ := Lexer.exists_lexes _ _
  exact ⟨tokens, left, last, hlexes, hend⟩

theorem Recognizes.functional {source : String} {tokens more : List Token}
    {left other : List Char} (hfirst : Recognizes source tokens left)
    (hsecond : Recognizes source more other) : tokens = more ∧ left = other := by
  obtain ⟨last, hlexes, hend⟩ := hfirst
  obtain ⟨final, hmore, hother⟩ := hsecond
  have hshown : ∀ token ∈ tokens, (fun _ : Token => true) token := fun _ _ => rfl
  have hscan := Lexer.scan_of_lexes hlexes hend hshown [] .silent
  rw [Lexer.scan_of_lexes hmore hother (fun _ _ => rfl)] at hscan
  simp only [List.reverse_nil, List.nil_append, Lexer.Scan.mk.injEq] at hscan
  exact ⟨hscan.1.symm, hscan.2.2.1.symm⟩

namespace Parser

variable {limit : Int} {tokens rest : List Token} {main : Node} {log : Log}

-- The tokens begin with those of a function, up to its closing brace.
def Begins (limit : Int) (tokens : List Token) (main : Node) (rest : List Token) : Prop :=
  ∃ front, tokens = front ++ rest ∧
    (parse front limit .silent).1 = .ok (.program main main.place)

theorem begins_iff (log : Log) :
    Begins limit tokens main rest ↔
      ∃ reading, (function limit 0 tokens log).1 = .ok reading ∧ reading.node = main ∧
        reading.left = rest := by
  constructor
  · rintro ⟨front, rfl, hparse⟩
    obtain ⟨hderives, hfits⟩ := derives_of_parse hparse
    exact function_of_derives hderives hfits rest log
  · rintro ⟨reading, hfunction, rfl, rfl⟩
    obtain ⟨front, hfront, hderives, hfits⟩ := derives_of_function hfunction
    exact ⟨front, hfront, parse_of_derives hderives hfits .silent⟩

theorem Begins.functional {other : Node} {more : List Token} (hfirst : Begins limit tokens main rest)
    (hsecond : Begins limit tokens other more) : main = other ∧ rest = more := by
  obtain ⟨reading, hfunction, rfl, rfl⟩ := (begins_iff .silent).mp hfirst
  obtain ⟨reading', hfunction', rfl, rfl⟩ := (begins_iff .silent).mp hsecond
  cases hfunction.symm.trans hfunction'
  exact ⟨rfl, rfl⟩

-- Without a closed function nothing is reported.
theorem parse_of_unclosed (h : ∀ main rest, ¬ Begins limit tokens main rest) :
    ∃ error, ∀ log, parse tokens limit log = (.error error, log) := by
  cases hfunction : (function limit 0 tokens .silent).1 with
  | ok reading => exact absurd ((begins_iff .silent).mpr ⟨reading, hfunction, rfl, rfl⟩) (h _ _)
  | error stop =>
    refine ⟨stop.error, fun log => ?_⟩
    rw [function_of_log limit 0 tokens .silent log] at hfunction
    simp only [parse_eq, function_eq_error hfunction]

section

variable {name : Option String} {body : Node} {place : Position}

theorem Begins.function_eq (h : Begins limit tokens (.function name body place) rest) (log : Log) :
    ∃ shorter, function limit 0 tokens log =
      (.ok ⟨.function name body place, rest, shorter⟩, log.after [readLine name]) := by
  obtain ⟨⟨node, left, shorter⟩, hfunction, rfl, rfl⟩ := (begins_iff log).mp h
  exact ⟨shorter, function_eq_ok hfunction rfl⟩

theorem Begins.parse_eq_ok (h : Begins limit tokens (.function name body place) []) (log : Log) :
    parse tokens limit log =
      (.ok (.program (.function name body place) place), log.after [readLine name]) := by
  obtain ⟨shorter, hfunction⟩ := h.function_eq log
  simp only [parse_eq, hfunction, Node.place]

-- A function is reported also if more tokens come behind it.
theorem Begins.parse_eq_error {token : Token}
    (h : Begins limit tokens (.function name body place) (token :: rest)) (log : Log) :
    parse tokens limit log =
      (.error (.unexpected (some token) .endOfInput), log.after [readLine name]) := by
  obtain ⟨shorter, hfunction⟩ := h.function_eq log
  simp only [parse_eq, hfunction]

end

end Parser

section

variable {source : String} {tokens rest : List Token} {left : List Char} {main : Node}

-- What is closed in a source is a function with a name that returns an expression of the grammar.
theorem Recognizes.shape_of_begins (h : Recognizes source tokens left) {limit : Int}
    (hbegins : Parser.Begins limit tokens main rest) :
    ∃ name value bodyPlace place, main = .function (some name) (.ret value bodyPlace) place ∧
      Terminal.IsName name.toList ∧ value.Shaped (.chain .additive) := by
  obtain ⟨last, hlexes, _⟩ := h
  obtain ⟨front, rfl, hparse⟩ := hbegins
  obtain ⟨name, value, bodyPlace, place, _, hmain, hname, hshaped⟩ :=
    hlexes.shape_of_derives (Parser.derives_of_parse hparse).1
  cases hmain
  exact ⟨name, value, bodyPlace, place, rfl, hname, hshaped⟩

end

-- What is reported once the tokens of a source are known.
inductive Reports (tokens : List Token) : List String → Prop
  -- No function is closed.
  | unclosed : (∀ main rest, ¬ Parser.Begins Parser.defaultLimit tokens main rest) →
      Reports tokens []
  -- More tokens come behind the function.
  | trailing {name : String} {body : Node} {place : Position} {rest : List Token} :
      Parser.Begins Parser.defaultLimit tokens (.function (some name) body place) rest →
      rest ≠ [] → Reports tokens [Parser.readLine (some name)]
  -- The tokens are those of a program, which has code.
  | generated {name : String} {body : Node} {mainPlace place : Position} {code : List Instruction}
      {texts : List String} :
      (parse tokens Parser.defaultLimit .silent).1 =
        .ok (.program (.function (some name) body mainPlace) place) →
      (generate (.program (.function (some name) body mainPlace) place) .silent).1 = .ok code →
      code.mapM Instruction.shown = .ok texts →
      Reports tokens (Parser.readLine (some name) :: Generator.generatedLine (some name) ::
        texts.map emittedLine)

-- What is reported about a source: each of its tokens, and more if they reach its end.
inductive Traces (source : String) : List String → Prop
  | unrecognized {tokens : List Token} {left : List Char} :
      Recognizes source tokens left → left ≠ [] → Traces source (tokens.map Token.line)
  | recognized {tokens : List Token} {lines : List String} :
      Recognizes source tokens [] → Reports tokens lines →
      Traces source (tokens.map Token.line ++ lines)

section

variable {tokens : List Token} {first second : List String}

theorem Parser.begins_of_parse {limit : Int} {main : Node} {place : Position}
    (h : (parse tokens limit .silent).1 = .ok (.program main place)) :
    Begins limit tokens main [] := by
  obtain ⟨other, hother⟩ := (derives_of_parse h).1.exists_main
  cases hother
  exact ⟨tokens, (List.append_nil tokens).symm, h⟩

-- The reports are determined by the function that the tokens begin with, if any.
theorem Reports.functional (hfirst : Reports tokens first) (hsecond : Reports tokens second) :
    first = second := by
  cases hfirst with
  | unclosed hnone =>
    cases hsecond with
    | unclosed => rfl
    | trailing hbegins _ => exact absurd hbegins (hnone _ _)
    | generated hparse _ _ => exact absurd (Parser.begins_of_parse hparse) (hnone _ _)
  | trailing hbegins hrest =>
    cases hsecond with
    | unclosed hnone => exact absurd hbegins (hnone _ _)
    | trailing hother _ =>
      cases (hbegins.functional hother).1
      rfl
    | generated hparse _ _ =>
      exact absurd (hbegins.functional (Parser.begins_of_parse hparse)).2 hrest
  | generated hparse hcode htexts =>
    cases hsecond with
    | unclosed hnone => exact absurd (Parser.begins_of_parse hparse) (hnone _ _)
    | trailing hbegins hrest =>
      exact absurd (hbegins.functional (Parser.begins_of_parse hparse)).2 hrest
    | generated hother hotherCode hotherTexts =>
      cases hparse.symm.trans hother
      cases hcode.symm.trans hotherCode
      cases htexts.symm.trans hotherTexts
      rfl

theorem Traces.functional {source : String} (hfirst : Traces source first)
    (hsecond : Traces source second) : first = second := by
  cases hfirst with
  | unrecognized htokens hleft =>
    cases hsecond with
    | unrecognized hother _ => rw [(htokens.functional hother).1]
    | recognized hother _ => exact absurd (htokens.functional hother).2 hleft
  | recognized htokens hreports =>
    cases hsecond with
    | unrecognized hother hleft => exact absurd (htokens.functional hother).2.symm hleft
    | recognized hother hotherReports =>
      cases (htokens.functional hother).1
      rw [hreports.functional hotherReports]

end

section

variable {source : String} {tokens : List Token} {left : List Char}

-- Text behind the tokens is an error, after the tokens have been reported.
theorem Recognizes.compile_of_left (h : Recognizes source tokens left) (hleft : left ≠ [])
    (target : Target) :
    ∃ error, ∀ log, compile source target.name log =
      (.error (.lex error), log.after (tokens.map Token.line)) := by
  obtain ⟨last, hlexes, hend⟩ := h
  refine ⟨⟨left, last⟩, fun log => ?_⟩
  have htokens := Lexer.tokenize_of_lexes hlexes hend log
  rw [if_neg (by simpa using hleft)] at htokens
  simp only [compile, parseSource, htokens]

theorem Recognizes.tokenize_eq (h : Recognizes source tokens []) (log : Log) :
    tokenize source log = (.ok tokens, log.after (tokens.map Token.line)) := by
  obtain ⟨last, hlexes, hend⟩ := h
  exact Lexer.tokenize_of_lexes hlexes hend log

-- A program is compiled, and each stage is reported behind the one before it.
theorem Recognizes.compile_of_begins (h : Recognizes source tokens []) {name : String}
    {value : Node} {bodyPlace place : Position}
    (hbegins : Parser.Begins Parser.defaultLimit tokens
      (.function (some name) (.ret value bodyPlace) place) [])
    (hshaped : value.Shaped (.chain .additive)) (target : Target) :
    ∃ text lines, (∀ log, compile source target.name log =
      (.ok text, log.after (tokens.map Token.line ++ lines))) ∧ Reports tokens lines := by
  have hparse := hbegins.parse_eq_ok
  have hreturns : (Node.program (.function (some name) (.ret value bodyPlace) place) place).Returns
      (some name) value := ⟨⟨bodyPlace, place, place, rfl⟩, hshaped.supported⟩
  have hsource : (parseSource source Parser.defaultLimit .silent).1 = .ok _ :=
    parseSource_eq_ok_iff.mpr ⟨tokens, by rw [h.tokenize_eq], congrArg Prod.fst (hparse _)⟩
  obtain ⟨text, htext, _⟩ := compile_of_returns hsource hreturns target
  obtain ⟨texts, htexts, hgenerate⟩ :=
    hreturns.exists_texts hshaped.hasNarrowConstants.hasWritableConstants
  refine ⟨text, _, fun log => ?_, .generated (congrArg Prod.fst (hparse .silent))
    (congrArg Prod.fst (hgenerate .silent)) htexts⟩
  simp only [compile, parseSource, h.tokenize_eq, hparse, hgenerate, Target.named_name, bind,
    Except.bind, htext, Log.after_after, List.append_assoc, List.singleton_append]

theorem Recognizes.exists_reports (h : Recognizes source tokens []) (target : Target) :
    ∃ result lines, (∀ log, compile source target.name log =
      (result, log.after (tokens.map Token.line ++ lines))) ∧ Reports tokens lines := by
  by_cases hclosed : ∃ main rest, Parser.Begins Parser.defaultLimit tokens main rest
  · obtain ⟨main, rest, hbegins⟩ := hclosed
    obtain ⟨name, value, bodyPlace, place, rfl, _, hshaped⟩ := h.shape_of_begins hbegins
    cases rest with
    | nil =>
      obtain ⟨text, lines, hcompile, hreports⟩ := h.compile_of_begins hbegins hshaped target
      exact ⟨.ok text, lines, hcompile, hreports⟩
    | cons token rest =>
      refine ⟨.error (.parse (.unexpected (some token) .endOfInput)), _, fun log => ?_,
        .trailing hbegins (List.cons_ne_nil token rest)⟩
      simp only [compile, parseSource, h.tokenize_eq, hbegins.parse_eq_error, Log.after_after]
  · have hnone : ∀ main rest, ¬ Parser.Begins Parser.defaultLimit tokens main rest :=
      fun main rest hbegins => hclosed ⟨main, rest, hbegins⟩
    obtain ⟨error, hparse⟩ := Parser.parse_of_unclosed hnone
    refine ⟨.error (.parse error), _, fun log => ?_, .unclosed hnone⟩
    simp only [compile, parseSource, h.tokenize_eq, hparse, List.append_nil]

-- The result of compiling a source and what is reported on the way do not depend on the log.
theorem exists_traces (source : String) (target : Target) :
    ∃ result lines, (∀ log, compile source target.name log = (result, log.after lines)) ∧
      Traces source lines := by
  obtain ⟨tokens, left, htokens⟩ := exists_recognizes source
  by_cases hleft : left = []
  · subst hleft
    obtain ⟨result, lines, hcompile, hreports⟩ := htokens.exists_reports target
    exact ⟨result, _, hcompile, .recognized htokens hreports⟩
  · obtain ⟨error, hcompile⟩ := htokens.compile_of_left hleft target
    exact ⟨.error (.lex error), _, hcompile, .unrecognized htokens hleft⟩

end

-- A source has the same result whether or not it is traced, and one trace, whose lines are put
-- behind those that the log holds: its tokens up to the first text that is none, then its function
-- if that is closed, and then the code of the function if nothing comes behind it.
theorem trace_is_faithful (source : String) (target : Target) :
    ∃ result lines, compile source target.name .silent = (result, .silent) ∧
      (∀ before, compile source target.name (.recording before) =
        (result, .recording (lines.reverse ++ before))) ∧
      ∀ other, Traces source other ↔ other = lines := by
  obtain ⟨result, lines, hcompile, htraces⟩ := exists_traces source target
  refine ⟨result, lines, hcompile .silent, fun before => hcompile (.recording before), ?_⟩
  intro other
  constructor
  · intro hother
    exact hother.functional htraces
  · rintro rfl
    exact htraces

-- The function is reported although a token behind it is an error.
example : (compile "int f(){return 1;};" "linux" (.recording [])).2.lines.drop 9 =
    ["lex: Token(SEMI, L1:19)", "parse: function f"] := by decide +kernel

end TinyC
