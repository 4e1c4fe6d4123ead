import TinyC.Proofs.Assembly.Correctness
import TinyC.Proofs.Code.Fault
import TinyC.Proofs.Tree.Reach
import TinyC.Proofs.Tree.RoundTrip

namespace TinyC

theorem Node.HasNarrowConstants.hasWritableConstants {node : Node} (h : node.HasNarrowConstants) :
    node.HasWritableConstants := by
  induction node with
  | constant value place => exact Numeral.isWritable_of_word ⟨h.1, Int.lt_add_one_of_le h.2⟩
  | binary tier left op right place ihleft ihright => exact ⟨ihleft h.1, ihright h.2⟩
  | unary op operand place ih => exact ih h
  | group inner place ih => exact ih h
  | ret value place ih => exact ih h
  | function name body place ih => exact ih h
  | program main place ih => exact ih h
  | bare place => trivial

-- Code that can be read back is generated whether or not it is traced, and is printed.
theorem Node.Returns.exists_text {program value : Node} {name : Option String}
    (h : program.Returns name value) (hname : ∀ text ∈ name, '\n' ∉ String.toList text)
    (hnarrow : value.HasNarrowConstants) (target : Target) (log : Log) :
    ∃ code text, (generate program log).1 = .ok code ∧ render target code = .ok text := by
  have hprintable : ∀ instruction ∈ functionCode name value, instruction.IsPrintable := by
    intro instruction hmem
    simp only [functionCode, List.mem_append, List.mem_singleton] at hmem
    rcases hmem with (hmem | hmem) | rfl
    · exact isPrintable_functionHead hname instruction hmem
    · exact h.supported.isPrintable_code hnarrow instruction hmem
    · exact ⟨rfl, trivial⟩
  obtain ⟨statements, hstatements⟩ := exists_backs hprintable
  obtain ⟨text, htext, _⟩ := render_reads_back target (by simp [functionCode, functionHead])
    hstatements fun instruction hmem => (hprintable instruction hmem).2
  obtain ⟨texts, _, hgenerate⟩ := h.exists_texts hnarrow.hasWritableConstants
  exact ⟨functionCode name value, text, by rw [hgenerate log], htext⟩

theorem Node.Shaped.supported {level : Parser.Level} {node : Node} (h : node.Shaped level) :
    node.Supported := by
  induction h with
  | constant _ _ => exact .constant _ _
  | unary _ ih => exact .unary _ _ ih
  | group _ ih => exact .group _ ih
  | operand _ ih => exact ih
  | binary _ hop _ ihleft ihright => exact .binary _ hop ihleft ihright

theorem Node.Shaped.hasNarrowConstants {level : Parser.Level} {node : Node}
    (h : node.Shaped level) : node.HasNarrowConstants := by
  induction h with
  | constant hlow hhigh => exact ⟨hlow, hhigh⟩
  | unary _ ih => exact ih
  | group _ ih => exact ih
  | operand _ ih => exact ih
  | binary _ _ _ ihleft ihright => exact ⟨ihleft, ihright⟩

theorem Node.GrammarShaped.exists_text {tree : Node} (h : tree.GrammarShaped) (target : Target)
    (log : Log) :
    ∃ code text, (generate tree log).1 = .ok code ∧ render target code = .ok text := by
  obtain ⟨⟨name, value, bodyPlace, mainPlace, place, rfl, hname, hvalue⟩, _⟩ := h
  refine Node.Returns.exists_text ⟨⟨_, _, _, rfl⟩, hvalue.supported⟩ ?_ hvalue.hasNarrowConstants
    target log
  intro text htext hnewline
  cases htext
  exact absurd (hname.letters _ hnewline) (by decide)

theorem Node.GrammarShaped.exists_returns {tree : Node} (h : tree.GrammarShaped) :
    ∃ name value, tree.Returns name value := by
  obtain ⟨⟨name, value, bodyPlace, mainPlace, place, rfl, _, hvalue⟩, _⟩ := h
  exact ⟨some name, value, ⟨bodyPlace, mainPlace, place, rfl⟩, hvalue.supported⟩

-- The fault is one of the source, and its message tells where.
def CompileError.IsReported : CompileError → Prop
  | lex _ => True
  | parse error => error.IsReported
  | generate _ => False
  | render _ => False

section

variable {source : String} {target : Target} {log : Log} {tokens : List Token}

theorem Target.named_name (target : Target) : named target.name = .ok target := by
  cases target <;> rfl

theorem compile_of_parseSource_error {error : CompileError}
    (h : (parseSource source Parser.defaultLimit log).1 = .error error) :
    (compile source target.name log).1 = .error error := by
  unfold compile
  split
  · next heq =>
    rw [heq] at h
    cases h
    rfl
  · next heq =>
    rw [heq] at h
    cases h

-- What is read from a text is compiled to the code of its function.
theorem compile_of_returns {tree value : Node} {name : Option String}
    (h : (parseSource source Parser.defaultLimit log).1 = .ok tree)
    (hreturns : tree.Returns name value) (target : Target) :
    ∃ text, render target (functionCode name value) = .ok text ∧
      (compile source target.name log).1 = .ok text := by
  have hshaped := grammarShaped_of_parseSource h
  cases hparse : parseSource source Parser.defaultLimit log with
  | mk result after =>
    rw [hparse] at h
    cases h
    obtain ⟨code, text, hcode, htext⟩ := hshaped.exists_text target after
    obtain rfl := hreturns.code_eq hcode
    refine ⟨text, htext, ?_⟩
    cases hgenerate : generate tree after with
    | mk result last =>
      rw [hgenerate] at hcode
      cases hcode
      simp only [compile, hparse, hgenerate, Target.named_name, bind, Except.bind, htext]

-- What is read is compiled.
theorem compile_of_parseSource_ok {tree : Node}
    (h : (parseSource source Parser.defaultLimit log).1 = .ok tree) :
    ∃ text, (compile source target.name log).1 = .ok text := by
  obtain ⟨name, value, hreturns⟩ := (grammarShaped_of_parseSource h).exists_returns
  obtain ⟨text, _, hcompile⟩ := compile_of_returns h hreturns target
  exact ⟨text, hcompile⟩

theorem exists_error_of_compile {error : CompileError}
    (h : (compile source target.name log).1 = .error error) :
    ∃ error, (parseSource source Parser.defaultLimit log).1 = .error error := by
  cases hsource : (parseSource source Parser.defaultLimit log).1 with
  | error error => exact ⟨error, rfl⟩
  | ok tree =>
    obtain ⟨text, htext⟩ : ∃ text, (compile source target.name log).1 = .ok text :=
      compile_of_parseSource_ok hsource
    rw [h] at htext
    cases htext

-- No result depends on whether it is traced.
theorem tokenize_ok_of_log (h : (tokenize source log).1 = .ok tokens) (other : Log) :
    (tokenize source other).1 = .ok tokens :=
  (Lexer.tokenize_eq_ok_iff source other tokens).mpr
    ((Lexer.tokenize_eq_ok_iff source log tokens).mp h)

theorem parseSource_ok_of_log {limit : Int} {tree : Node}
    (h : (parseSource source limit log).1 = .ok tree) (other : Log) :
    (parseSource source limit other).1 = .ok tree := by
  obtain ⟨tokens, htokens, hparse⟩ := parseSource_eq_ok_iff.mp h
  obtain ⟨hderives, hfits⟩ := Parser.derives_of_parse hparse
  exact parseSource_eq_ok_iff.mpr
    ⟨tokens, tokenize_ok_of_log htokens other, Parser.parse_of_derives hderives hfits _⟩

-- What is compiled has been read.
theorem exists_tree_of_compile {text : String}
    (h : (compile source target.name log).1 = .ok text) :
    ∃ tree, (parseSource source Parser.defaultLimit log).1 = .ok tree := by
  cases hsource : (parseSource source Parser.defaultLimit log).1 with
  | ok tree => exact ⟨tree, rfl⟩
  | error error =>
    have herror : (compile source target.name log).1 = _ := compile_of_parseSource_error hsource
    rw [herror] at h
    cases h

-- Assembly text is the code of the function that the source holds.
theorem exists_code_of_compile {text : String}
    (h : (compile source target.name log).1 = .ok text) :
    ∃ tree name value, (parseSource source Parser.defaultLimit log).1 = .ok tree ∧
      tree.Returns name value ∧ render target (functionCode name value) = .ok text := by
  obtain ⟨tree, htree⟩ := exists_tree_of_compile h
  obtain ⟨name, value, hreturns⟩ := (grammarShaped_of_parseSource htree).exists_returns
  obtain ⟨other, hother, hcompile⟩ := compile_of_returns htree hreturns target
  rw [h] at hcompile
  cases hcompile
  exact ⟨tree, name, value, htree, hreturns, hother⟩

theorem compile_ok_of_log {text : String} (h : (compile source target.name log).1 = .ok text)
    (other : Log) : (compile source target.name other).1 = .ok text := by
  obtain ⟨tree, name, value, htree, hreturns, htext⟩ := exists_code_of_compile h
  obtain ⟨found, hfound, hcompile⟩ :=
    compile_of_returns (parseSource_ok_of_log htree other) hreturns target
  rw [htext] at hfound
  cases hfound
  exact hcompile

theorem parseSource_of_tokenize (h : (tokenize source log).1 = .ok tokens) (limit : Int) :
    (parseSource source limit log).1 =
      (parse tokens limit (tokenize source log).2).1.mapError .parse := by
  unfold parseSource
  cases htokens : tokenize source log with
  | mk result after =>
    rw [htokens] at h
    cases h
    cases hparse : parse tokens limit after with
    | mk outcome last => cases outcome <;> simp [hparse, Except.mapError]

theorem parseSource_of_tokenize_error {error : LexError}
    (h : (tokenize source log).1 = .error error) (limit : Int) :
    (parseSource source limit log).1 = .error (.lex error) := by
  unfold parseSource
  cases htokens : tokenize source log with
  | mk result after =>
    rw [htokens] at h
    cases h
    rfl

theorem compile_of_parse_error (htokens : (tokenize source log).1 = .ok tokens) {error : ParseError}
    (herror : ∀ log, (parse tokens Parser.defaultLimit log).1 = .error error) :
    (compile source target.name log).1 = .error (.parse error) := by
  apply compile_of_parseSource_error
  rw [parseSource_of_tokenize htokens, herror]
  rfl

-- A text has assembly text or a reported error, or else a literal of too many digits is met.
theorem compile_cases (source : String) (target : Target) (log : Log) :
    (∃ text, (compile source target.name log).1 = .ok text) ∨
      (∃ error, (compile source target.name log).1 = .error error ∧ error.IsReported) ∨
      ∃ tokens count, (tokenize source log).1 = .ok tokens ∧
        Parser.MeetsLongLiteral Parser.defaultLimit tokens count := by
  cases htokens : (tokenize source log).1 with
  | error error =>
    have hsource := parseSource_of_tokenize_error htokens Parser.defaultLimit
    exact .inr (.inl ⟨_, compile_of_parseSource_error hsource, trivial⟩)
  | ok tokens =>
    obtain ⟨last, hlexes⟩ := (Lexer.tokenize_eq_ok_iff source log tokens).mp htokens
    have hsource := parseSource_of_tokenize htokens Parser.defaultLimit
    cases hparse : (parse tokens Parser.defaultLimit (tokenize source log).2).1 with
    | ok tree =>
      rw [hparse] at hsource
      exact .inl (compile_of_parseSource_ok hsource)
    | error error =>
      rw [hparse] at hsource
      rcases Parser.reported_or_meetsLongLiteral hlexes.isSpelled hparse with
        hreported | ⟨count, hmeets⟩
      · exact .inr (.inl ⟨_, compile_of_parseSource_error hsource, hreported⟩)
      · exact .inr (.inr ⟨tokens, count, rfl, hmeets⟩)

end

-- Every text has assembly text or a reported error, exactly unless the parser comes to a decimal
-- literal of more digits than are read, which is the fault then. Other literals where one may
-- stand are reported if they need more than 32 bits, and are accepted if they do not.
theorem compile_reports_errors (source : String) (target : Target) (log : Log) :
    (((∃ text, (compile source target.name log).1 = .ok text) ∨
        ∃ error, (compile source target.name log).1 = .error error ∧ error.IsReported) ↔
      ¬ ∃ tokens count, (tokenize source log).1 = .ok tokens ∧
        Parser.MeetsLongLiteral Parser.defaultLimit tokens count) ∧
    ∀ tokens, (tokenize source log).1 = .ok tokens →
      (∀ count, Parser.MeetsLongLiteral Parser.defaultLimit tokens count →
        (compile source target.name log).1 =
          .error (.parse (.badNumeral (.tooManyDigits count)))) ∧
      ∀ front literal rest base digits, tokens = front ++ literal :: rest →
        Parser.TakesLiteral Parser.defaultLimit front literal.terminal →
        literal.HasDigits base digits →
        (base = .ten → digits.length ≤ Numeral.digitLimit) →
        (Parser.largestConstant < Numeral.spelled base digits →
          (compile source target.name log).1 = .error (.parse (.tooWide literal))) ∧
        (Numeral.spelled base digits ≤ Parser.largestConstant →
          ∃ more, Parser.Accepts Parser.defaultLimit .silent (front ++ literal :: more)) := by
  refine ⟨⟨?_, ?_⟩, ?_⟩
  · rintro houtcome ⟨tokens, count, htokens, hmeets⟩
    have herror : (compile source target.name log).1 = _ :=
      compile_of_parse_error htokens hmeets.parse
    rw [herror] at houtcome
    rcases houtcome with ⟨text, ⟨⟩⟩ | ⟨error, ⟨⟩, hreported⟩
    exact hreported
  · intro hnone
    rcases compile_cases source target log with htext | hreported | hmeets
    · exact .inl htext
    · exact .inr hreported
    · exact absurd hmeets hnone
  · intro tokens htokens
    refine ⟨fun count hmeets => compile_of_parse_error htokens hmeets.parse, ?_⟩
    rintro front literal rest base digits rfl htakes hdigits hshort
    have hvalue := Parser.literalValue_of_hasDigits hdigits
    have hlength : ¬ (base = .ten ∧ Numeral.digitLimit < digits.length) := by
      rintro ⟨hten, hlong⟩
      exact Nat.not_lt.mpr (hshort hten) hlong
    rw [if_neg hlength] at hvalue
    constructor
    · intro hwide
      rw [if_pos hwide] at hvalue
      exact compile_of_parse_error htokens
        (Parser.parse_of_takesLiteral htakes hdigits.base?_eq hvalue rest)
    · intro hnarrow
      rw [if_neg (by omega)] at hvalue
      exact Parser.accepts_of_takesLiteral htakes hdigits.base?_eq hvalue

-- The text of a function `f` that returns a literal.
def returning (digits : List Char) : String := String.ofList (Node.programText ['f'] [] digits)

theorem tokenize_returning {digits : List Char} (hne : digits ≠ [])
    (hdigits : ∀ c ∈ digits, c.isDigit) (log : Log) :
    ∃ front literal rest, (tokenize (returning digits) log).1 = .ok (front ++ literal :: rest) ∧
      literal.HasDigits .ten digits ∧
      Parser.TakesLiteral Parser.defaultLimit front literal.terminal := by
  have hname : Terminal.IsName ['f'] := ⟨by decide, by simp, by decide, by decide⟩
  have hsolid : IsSolid digits :=
    isSolid_of_isWord hne fun c hc => Text.isWord_of_isDigit (hdigits c hc)
  have hindent : ∀ c ∈ ([] : List Char), Text.isBlank c := by simp
  have hlexes := Node.lexesTo_programText hname hindent hsolid
    fun rest hrest => Lexer.lexesTo_digits hne hdigits hrest
  have htext : (returning digits).toList = Node.programText ['f'] [] digits :=
    String.toList_ofList
  rw [← htext] at hlexes
  have hstart : IsSolid (returning digits).toList := by
    rw [htext]
    exact ⟨'i', _, rfl, by decide⟩
  obtain ⟨tokens, htokens, int, identifier, openParen, closeParen, openBrace, keyword, inner,
    semicolon, closeBrace, ⟨place, rfl⟩, rfl⟩ := tokenize_of_lexesTo hstart hlexes log
  refine ⟨[⟨.intKeyword, none, int⟩, ⟨.identifier, some (String.ofList ['f']), identifier⟩,
    ⟨.leftParen, none, openParen⟩, ⟨.rightParen, none, closeParen⟩,
    ⟨.leftBrace, none, openBrace⟩, ⟨.returnKeyword, none, keyword⟩], _, _, htokens,
    ⟨hne, hdigits, rfl, rfl⟩, Parser.sample .decimal,
    [⟨.semicolon, none, semicolon⟩, ⟨.rightBrace, none, closeBrace⟩], rfl, ?_⟩
  have hcloses : Parser.Closes [⟨.semicolon, none, semicolon⟩, ⟨.rightBrace, none, closeBrace⟩] :=
    Parser.closes_of_symbol rfl _
  exact Parser.accepts_iff.mpr (.terminal rfl (.terminal rfl (.terminal rfl (.terminal rfl
    (.terminal rfl (.terminal rfl (.value (Parser.reads_sample_expression hcloses) rfl
      (.terminal rfl .done))))))))

-- The least number that is no word is reported, with the literal.
theorem compile_reports_errors_wide :
    ∃ front literal rest,
      (tokenize (returning "4294967296".toList) .silent).1 = .ok (front ++ literal :: rest) ∧
        Parser.TakesLiteral Parser.defaultLimit front literal.terminal ∧
        literal.HasDigits .ten "4294967296".toList ∧
        (compile (returning "4294967296".toList) "darwin" .silent).1 =
          .error (.parse (.tooWide literal)) := by
  have hne : "4294967296".toList ≠ [] := by decide
  have hall : "4294967296".toList.all Char.isDigit = true := by decide
  obtain ⟨front, literal, rest, htokens, hdigits, htakes⟩ :=
    tokenize_returning hne (List.all_eq_true.mp hall) .silent
  have hreports := ((compile_reports_errors _ .darwin .silent).2 _ htokens).2 front literal rest
    .ten _ rfl htakes hdigits (fun _ => by decide)
  exact ⟨front, literal, rest, htokens, htakes, hdigits, hreports.1 (by decide)⟩

theorem spelled_replicate_zero (base : Numeral.Base) (n : Nat) :
    Numeral.spelled base (List.replicate n '0') = 0 := by
  induction n with
  | zero => rfl
  | succ n ih =>
    rw [List.replicate_succ', Numeral.spelled_append_singleton, ih, Nat.zero_mul]
    rfl

-- A zero of too many digits is a word, but is neither accepted nor reported.
theorem long_zero_is_not_reported :
    Numeral.spelled .ten (List.replicate 4301 '0') = 0 ∧
      (compile (returning (List.replicate 4301 '0')) "linux" .silent).1 =
        .error (.parse (.badNumeral (.tooManyDigits 4301))) ∧
      ¬ (CompileError.parse (.badNumeral (.tooManyDigits 4301))).IsReported := by
  refine ⟨spelled_replicate_zero .ten 4301, ?_, id⟩
  have hne : List.replicate 4301 '0' ≠ [] := List.cons_ne_nil _ _
  have hdigits : ∀ c ∈ List.replicate 4301 '0', c.isDigit := by
    intro c hc
    rw [List.eq_of_mem_replicate hc]
    rfl
  obtain ⟨front, literal, rest, htokens, hliteral, htakes⟩ :=
    tokenize_returning hne hdigits .silent
  have hmeets : Parser.MeetsLongLiteral Parser.defaultLimit (front ++ literal :: rest) 4301 := by
    rw [hliteral.2.2.1] at htakes
    exact ⟨front, literal, rest, _, rfl, hliteral, List.length_replicate, by decide, htakes⟩
  have herror : (compile (returning (List.replicate 4301 '0')) Target.linux.name .silent).1 = _ :=
    compile_of_parse_error htokens hmeets.parse
  exact herror

end TinyC
