import TinyC.Compile
import TinyC.Proofs.Token.Scanning
import TinyC.Proofs.Tree.Shape
import TinyC.Proofs.Tree.Source
import TinyC.Proofs.Tree.Unambiguity

namespace TinyC

open Lexer (LexesTo)
open Text (isBlank)

-- A text that begins with a character of a token.
def IsSolid (text : List Char) : Prop := ∃ c rest, text = c :: rest ∧ isBlank c = false

theorem IsSolid.dropWhile_append {text : List Char} (h : IsSolid text) (rest : List Char) :
    (text ++ rest).dropWhile isBlank = text ++ rest := by
  obtain ⟨c, more, rfl, hc⟩ := h
  simp [hc]

theorem IsSolid.append {text : List Char} (h : IsSolid text) (rest : List Char) :
    IsSolid (text ++ rest) := by
  obtain ⟨c, more, rfl, hc⟩ := h
  exact ⟨c, more ++ rest, rfl, hc⟩

theorem isSolid_of_isWord {text : List Char} (hne : text ≠ []) (h : ∀ c ∈ text, Text.isWord c) :
    IsSolid text := by
  cases text with
  | nil => exact absurd rfl hne
  | cons c rest => exact ⟨c, rest, rfl, Text.isBlank_of_isWord (h c (by simp))⟩

-- What the terminal of an operator is spelled as.
structure Terminal.IsOperator (terminal : Terminal) (symbol : String) : Prop where
  spelling : terminal.spelling? = some symbol.toList
  category : terminal.category ≠ .keyword
  solid : IsSolid symbol.toList

theorem UnaryOperator.exists_terminal (operator : UnaryOperator) :
    ∃ terminal, ofTerminal? terminal = some operator ∧ terminal.IsOperator operator.symbol := by
  cases operator with
  | negate => exact ⟨.minus, rfl, rfl, by decide, '-', [], rfl, by decide⟩
  | complement => exact ⟨.tilde, rfl, rfl, by decide, '~', [], rfl, by decide⟩
  | isZero => exact ⟨.bang, rfl, rfl, by decide, '!', [], rfl, by decide⟩

theorem Tier.exists_terminal {tier : Tier} {operator : BinaryOperator}
    (h : operator ∈ tier.operators) :
    ∃ terminal, tier.ofTerminal? terminal = some operator ∧
      terminal.IsOperator operator.symbol := by
  cases tier <;> simp only [operators, List.mem_cons, List.not_mem_nil, or_false] at h <;>
    rcases h with rfl | rfl
  · exact ⟨.plus, rfl, rfl, by decide, '+', [], rfl, by decide⟩
  · exact ⟨.minus, rfl, rfl, by decide, '-', [], rfl, by decide⟩
  · exact ⟨.star, rfl, rfl, by decide, '*', [], rfl, by decide⟩
  · exact ⟨.slash, rfl, rfl, by decide, '/', [], rfl, by decide⟩

namespace Node

-- The text of an expression is cut into tokens that spell it, as long as the text behind it does
-- not go on with a part of a word.
structure Formats (level : Parser.Level) (node : Node) (text : String) : Prop where
  source : node.plainSource = .ok text
  solid : IsSolid text.toList
  lexes : ∀ rest, Lexeme.endsWord rest →
    LexesTo (text.toList ++ rest) (rest.dropWhile isBlank) fun tokens =>
      ∃ placed, Parser.Derives (Parser.Decoded Parser.literalValue) level tokens placed ∧
        placed.same node

theorem constantSource_of_word {value : Int} (hlow : 0 ≤ value)
    (hhigh : value ≤ Parser.largestConstant) :
    constantSource value = .ok (String.ofList (Numeral.decimalDigits value.toNat)) := by
  unfold Parser.largestConstant at hhigh
  rw [constantSource, Numeral.written_of_word ⟨hlow, by omega⟩]

theorem formats_constant {value : Int} {place : Position} (hlow : 0 ≤ value)
    (hhigh : value ≤ Parser.largestConstant) :
    Formats .factor (.constant value place)
      (String.ofList (Numeral.decimalDigits value.toNat)) := by
  have hdigits := Numeral.isDigit_decimalDigits value.toNat
  have hne := Numeral.decimalDigits_ne_nil value.toNat
  refine ⟨constantSource_of_word hlow hhigh, ?_, ?_⟩
  · rw [String.toList_ofList]
    exact isSolid_of_isWord hne fun c hc => Text.isWord_of_isDigit (hdigits c hc)
  · intro rest hrest
    rw [String.toList_ofList]
    refine (Lexer.lexesTo_digits hne hdigits hrest).mono ?_
    rintro tokens ⟨place, rfl⟩
    have hhas : Token.HasDigits
        ⟨.decimal, some (String.ofList (Numeral.decimalDigits value.toNat)), place⟩ .ten
        (Numeral.decimalDigits value.toNat) := ⟨hne, hdigits, rfl, rfl⟩
    have hspells : Token.Spells
        ⟨.decimal, some (String.ofList (Numeral.decimalDigits value.toNat)), place⟩ value := by
      refine ⟨_, _, hhas, ?_⟩
      rw [Numeral.spelled_decimalDigits, Int.toNat_of_nonneg hlow]
    have hshort : Token.IsShort
        ⟨.decimal, some (String.ofList (Numeral.decimalDigits value.toNat)), place⟩ := by
      intro digits hother
      obtain ⟨_, rfl⟩ := hother.functional hhas
      unfold Parser.largestConstant at hhigh
      exact Numeral.length_decimalDigits_word (by omega)
    exact ⟨_, .literal (Parser.decoded_of_spells hshort hspells hhigh), same_iff.mpr rfl⟩

theorem formats_unary (operator : UnaryOperator) {operand : Node} {text : String}
    (place : Position) (h : Formats .factor operand text) :
    Formats .factor (.unary operator.symbol operand place) (operator.symbol ++ text) := by
  obtain ⟨terminal, hterminal, hoperator⟩ := operator.exists_terminal
  refine ⟨?_, ?_, ?_⟩
  · rw [plainSource, h.source]
    rfl
  · rw [String.toList_append]
    exact hoperator.solid.append _
  · intro rest hrest
    have hfirst := Lexer.lexesTo_symbol hoperator.spelling hoperator.category (text.toList ++ rest)
    rw [h.solid.dropWhile_append] at hfirst
    rw [String.toList_append, List.append_assoc]
    refine (hfirst.append (h.lexes rest hrest)).mono ?_
    rintro tokens ⟨front, back, rfl, ⟨opening, rfl⟩, placed, hplaced, hsame⟩
    refine ⟨_, .unary hterminal hplaced, ?_⟩
    rw [same_iff] at hsame ⊢
    rw [unplaced, unplaced, hsame]

theorem formats_group {inner : Node} {text : String} (place : Position)
    (h : Formats (.chain .additive) inner text) :
    Formats .factor (.group inner place) ("(" ++ text ++ ")") := by
  refine ⟨?_, ?_, ?_⟩
  · rw [plainSource, h.source]
    rfl
  · rw [String.toList_append, String.toList_append]
    exact ⟨'(', text.toList ++ [')'], rfl, by decide⟩
  · intro rest hrest
    have hleftParen : Terminal.leftParen.spelling? = some ['('] := rfl
    have hrightParen : Terminal.rightParen.spelling? = some [')'] := rfl
    have hopening := Lexer.lexesTo_symbol hleftParen (by decide) (text.toList ++ ')' :: rest)
    have hclosing := Lexer.lexesTo_symbol hrightParen (by decide) rest
    have hinner := h.lexes (')' :: rest) rfl
    have hparen : (')' :: rest).dropWhile isBlank = ')' :: rest :=
      IsSolid.dropWhile_append ⟨')', [], rfl, by decide⟩ rest
    rw [h.solid.dropWhile_append] at hopening
    rw [hparen] at hinner
    have htext : ("(" ++ text ++ ")").toList ++ rest =
        ['('] ++ (text.toList ++ ')' :: rest) := by simp
    rw [htext]
    refine (hopening.append (hinner.append hclosing)).mono ?_
    rintro tokens ⟨front, back, rfl, ⟨opening, rfl⟩, middle, last, rfl, ⟨placed, hplaced, hsame⟩,
      closing, rfl⟩
    refine ⟨_, .group rfl hplaced rfl, ?_⟩
    rw [same_iff] at hsame ⊢
    rw [unplaced, unplaced, hsame]

theorem Formats.operand {tier : Tier} {node : Node} {text : String}
    (h : Formats (Parser.operandLevel tier) node text) : Formats (.chain tier) node text := by
  refine ⟨h.source, h.solid, ?_⟩
  intro rest hrest
  refine (h.lexes rest hrest).mono ?_
  rintro tokens ⟨placed, hplaced, hsame⟩
  exact ⟨placed, .operand hplaced, hsame⟩

theorem formats_binary {tier : Tier} {operator : BinaryOperator} {left right : Node}
    {first second : String} (place : Position) (hop : operator ∈ tier.operators)
    (hleft : Formats (.chain tier) left first)
    (hright : Formats (Parser.operandLevel tier) right second) :
    Formats (.chain tier) (.binary tier left operator.symbol right place)
      (first ++ " " ++ operator.symbol ++ " " ++ second) := by
  obtain ⟨terminal, hterminal, hoperator⟩ := Tier.exists_terminal hop
  refine ⟨?_, ?_, ?_⟩
  · rw [plainSource, hleft.source, hright.source]
    rfl
  · simp only [String.toList_append, List.append_assoc]
    exact hleft.solid.append _
  · intro rest hrest
    let behind := ' ' :: (second.toList ++ rest)
    have hblank : ∀ more, (' ' :: more).dropWhile isBlank = more.dropWhile isBlank := by
      intro more
      rfl
    have hfirst := hleft.lexes (' ' :: (operator.symbol.toList ++ behind)) rfl
    have hmiddle := Lexer.lexesTo_symbol hoperator.spelling hoperator.category behind
    have hlast := hright.lexes rest hrest
    rw [hblank, hoperator.solid.dropWhile_append] at hfirst
    rw [hblank, hright.solid.dropWhile_append] at hmiddle
    have htext : (first ++ " " ++ operator.symbol ++ " " ++ second).toList ++ rest =
        first.toList ++ ' ' :: (operator.symbol.toList ++ behind) := by simp [behind]
    rw [htext]
    refine (hfirst.append (hmiddle.append hlast)).mono ?_
    rintro tokens ⟨front, back, rfl, ⟨placedLeft, hplacedLeft, hsameLeft⟩, middle, last, rfl,
      ⟨sign, rfl⟩, placedRight, hplacedRight, hsameRight⟩
    refine ⟨_, .binary hplacedLeft hterminal hplacedRight, ?_⟩
    rw [same_iff] at hsameLeft hsameRight ⊢
    rw [unplaced, unplaced, hsameLeft, hsameRight]

-- The induction is on the shape, so that each operand is of the level it is read back at.
theorem Shaped.formats {level : Parser.Level} {node : Node} (h : node.Shaped level) :
    ∃ text, Formats level node text := by
  induction h with
  | constant hlow hhigh => exact ⟨_, formats_constant hlow hhigh⟩
  | unary _ ih =>
    obtain ⟨text, htext⟩ := ih
    exact ⟨_, formats_unary _ _ htext⟩
  | group _ ih =>
    obtain ⟨text, htext⟩ := ih
    exact ⟨_, formats_group _ htext⟩
  | operand _ ih =>
    obtain ⟨text, htext⟩ := ih
    exact ⟨text, htext.operand⟩
  | binary _ hop _ ihleft ihright =>
    obtain ⟨first, hfirst⟩ := ihleft
    obtain ⟨second, hsecond⟩ := ihright
    exact ⟨_, formats_binary _ hop hfirst hsecond⟩

-- The text of a program, cut where its tokens and the blanks between them begin.
def programText (name indent text : List Char) : List Char :=
  ['i', 'n', 't'] ++ ([' '] ++ (name ++ (['('] ++ ([')'] ++ ([' '] ++ (['\x7b'] ++
    ((['\n'] ++ indent) ++ (['r', 'e', 't', 'u', 'r', 'n'] ++ ([' '] ++ (text ++ ([';'] ++
      (['\n'] ++ (['\x7d'] ++ ['\n'])))))))))))))

theorem programSource_of_formats {level : Parser.Level} {value : Node} {text : String}
    (h : Formats level value text) (indent name : String) (bodyPlace mainPlace place : Position) :
    ∃ source, programSource indent
        (.program (.function (some name) (.ret value bodyPlace) mainPlace) place) = .ok source ∧
      source.toList = programText name.toList indent.toList text.toList := by
  refine ⟨"int " ++ name ++ "() \x7b\n" ++ indent ++ "return " ++ text ++ ";\n\x7d\n", ?_, ?_⟩
  · simp only [programSource, bodyValue?, source_eq_plainSource, h.source]
    rfl
  · simp [programText]

end Node

theorem dropWhile_blanks {blanks rest : List Char} (hblanks : ∀ c ∈ blanks, isBlank c)
    (hrest : IsSolid rest) : (blanks ++ rest).dropWhile isBlank = rest := by
  have hsolid := hrest.dropWhile_append []
  rw [List.append_nil] at hsolid
  rw [List.dropWhile_append_of_pos hblanks, hsolid]

-- A terminal of one spelling, the blanks behind it, and what they lead to.
theorem lexesTo_spaced {terminal : Terminal} {spelling blanks rest : List Char}
    (h : terminal.spelling? = some spelling)
    (hends : terminal.category = .keyword → Lexeme.endsWord (blanks ++ rest))
    (hblanks : ∀ c ∈ blanks, isBlank c) (hrest : IsSolid rest) :
    LexesTo (spelling ++ (blanks ++ rest)) rest fun tokens =>
      ∃ place, tokens = [⟨terminal, none, place⟩] := by
  have hlexes := Lexer.lexesTo_spelling h hends
  rwa [dropWhile_blanks hblanks hrest] at hlexes

namespace Node

-- The text of a program is cut into the tokens of its frame, with those of the value between
-- them, if the indent is blank.
theorem lexesTo_programText {name indent text : List Char} {kind : List Token → Prop}
    (hname : Terminal.IsName name) (hindent : ∀ c ∈ indent, isBlank c) (hsolid : IsSolid text)
    (hlexes : ∀ rest, Lexeme.endsWord rest → LexesTo (text ++ rest) (rest.dropWhile isBlank) kind) :
    LexesTo (programText name indent text) [] fun tokens =>
      ∃ int identifier openParen closeParen openBrace keyword inner semicolon closeBrace,
        kind inner ∧ tokens =
          ⟨.intKeyword, none, int⟩ :: ⟨.identifier, some (String.ofList name), identifier⟩ ::
          ⟨.leftParen, none, openParen⟩ :: ⟨.rightParen, none, closeParen⟩ ::
          ⟨.leftBrace, none, openBrace⟩ :: ⟨.returnKeyword, none, keyword⟩ ::
          (inner ++ [⟨.semicolon, none, semicolon⟩, ⟨.rightBrace, none, closeBrace⟩]) := by
  have hsymbol : ∀ c rest, isBlank c = false → IsSolid (c :: rest) :=
    fun c rest hc => ⟨c, rest, rfl, hc⟩
  have hnone : ∀ c ∈ ([] : List Char), isBlank c := by simp
  have hspace : ∀ c ∈ [' '], isBlank c := by simp; decide
  have hnewline : ∀ c ∈ ['\n'], isBlank c := by simp; decide
  have hline : ∀ c ∈ ['\n'] ++ indent, isBlank c := by
    intro c hc
    rcases List.mem_append.mp hc with hc | hc
    · exact hnewline c hc
    · exact hindent c hc
  -- What is left of the text at each of its tokens, from the last one backwards.
  let atCloseBrace : List Char := ['\x7d'] ++ ['\n']
  let atSemicolon := [';'] ++ (['\n'] ++ atCloseBrace)
  let atValue := text ++ atSemicolon
  let atReturn := ['r', 'e', 't', 'u', 'r', 'n'] ++ ([' '] ++ atValue)
  let atOpenBrace := ['\x7b'] ++ ((['\n'] ++ indent) ++ atReturn)
  let atCloseParen := [')'] ++ ([' '] ++ atOpenBrace)
  let atOpenParen := ['('] ++ ([] ++ atCloseParen)
  let atName := name ++ atOpenParen
  have hcloseBrace : LexesTo atCloseBrace [] fun tokens =>
      ∃ place, tokens = [⟨.rightBrace, none, place⟩] :=
    Lexer.lexesTo_symbol rfl (by decide) ['\n']
  have hsemicolon : LexesTo atSemicolon atCloseBrace fun tokens =>
      ∃ place, tokens = [⟨.semicolon, none, place⟩] :=
    lexesTo_spaced rfl (by simp [Terminal.category]) hnewline (hsymbol _ _ (by decide))
  have hvalue := hlexes atSemicolon rfl
  have hreturn : LexesTo atReturn atValue fun tokens =>
      ∃ place, tokens = [⟨.returnKeyword, none, place⟩] :=
    lexesTo_spaced rfl (fun _ => rfl) hspace (hsolid.append _)
  have hopenBrace : LexesTo atOpenBrace atReturn fun tokens =>
      ∃ place, tokens = [⟨.leftBrace, none, place⟩] :=
    lexesTo_spaced rfl (by simp [Terminal.category]) hline (hsymbol _ _ (by decide))
  have hcloseParen : LexesTo atCloseParen atOpenBrace fun tokens =>
      ∃ place, tokens = [⟨.rightParen, none, place⟩] :=
    lexesTo_spaced rfl (by simp [Terminal.category]) hspace (hsymbol _ _ (by decide))
  have hopenParen : LexesTo atOpenParen atCloseParen fun tokens =>
      ∃ place, tokens = [⟨.leftParen, none, place⟩] :=
    lexesTo_spaced rfl (by simp [Terminal.category]) hnone (hsymbol _ _ (by decide))
  have hends : Lexeme.endsWord atOpenParen := rfl
  have hidentifier := Lexer.lexesTo_name hname hends
  have hsolidName : IsSolid name :=
    isSolid_of_isWord hname.nonempty fun c hc => Text.isWord_of_isAlpha (hname.letters c hc)
  have hint : LexesTo (['i', 'n', 't'] ++ ([' '] ++ atName)) atName fun tokens =>
      ∃ place, tokens = [⟨.intKeyword, none, place⟩] :=
    lexesTo_spaced rfl (fun _ => rfl) hspace (hsolidName.append _)
  refine (hint.append (hidentifier.append (hopenParen.append (hcloseParen.append
    (hopenBrace.append (hreturn.append (hvalue.append (hsemicolon.append hcloseBrace)))))))).mono ?_
  rintro tokens ⟨_, _, rfl, ⟨_, rfl⟩, _, _, rfl, ⟨_, rfl⟩, _, _, rfl, ⟨_, rfl⟩, _, _, rfl, ⟨_, rfl⟩,
    _, _, rfl, ⟨_, rfl⟩, _, _, rfl, ⟨_, rfl⟩, inner, _, rfl, hinner, _, _, rfl, ⟨_, rfl⟩, _, rfl⟩
  exact ⟨_, _, _, _, _, _, inner, _, _, hinner, rfl⟩

-- The text of a program is cut into tokens that spell the program.
theorem lexesTo_program {value : Node} {name indent text : String}
    (h : Formats (.chain .additive) value text) (hname : Terminal.IsName name.toList)
    (hindent : ∀ c ∈ indent.toList, isBlank c) (bodyPlace mainPlace place : Position) :
    LexesTo (programText name.toList indent.toList text.toList) [] fun tokens =>
      ∃ placed, Parser.DerivesProgram (Parser.Decoded Parser.literalValue) tokens placed ∧
        placed.same (.program (.function (some name) (.ret value bodyPlace) mainPlace) place) := by
  refine (lexesTo_programText hname hindent h.solid h.lexes).mono ?_
  rintro tokens ⟨_, _, _, _, _, _, inner, _, _, ⟨placed, hplaced, hsame⟩, rfl⟩
  refine ⟨_, .function rfl rfl rfl rfl rfl rfl hplaced rfl rfl, ?_⟩
  rw [same_iff] at hsame ⊢
  simp [unplaced, hsame]

end Node

theorem tokenize_of_lexesTo {source : String} {kind : List Token → Prop}
    (hsolid : IsSolid source.toList) (h : LexesTo source.toList [] kind) (log : Log) :
    ∃ tokens, (tokenize source log).1 = .ok tokens ∧ kind tokens := by
  obtain ⟨tokens, last, hlexes, hkind⟩ :=
    h (Position.start.advance (source.toList.takeWhile isBlank))
  have hstart : source.toList.dropWhile isBlank = source.toList := by
    simpa using hsolid.dropWhile_append []
  refine ⟨tokens, ?_, hkind⟩
  rw [Lexer.tokenize_eq_ok_iff, hstart]
  exact ⟨last, hlexes⟩

theorem parseSource_eq_ok_iff {source : String} {limit : Int} {log : Log} {tree : Node} :
    (parseSource source limit log).1 = .ok tree ↔
      ∃ tokens, (tokenize source log).1 = .ok tokens ∧
        (parse tokens limit (tokenize source log).2).1 = .ok tree := by
  unfold parseSource
  cases htokens : tokenize source log with
  | mk result after =>
    cases result with
    | error error => simp
    | ok tokens =>
      cases htree : parse tokens limit after with
      | mk outcome last => cases outcome <;> simp [htree]

-- What is derived from the first tokens of a text is a function that has a name and returns an
-- expression as the grammar shapes it.
theorem Lexer.Lexes.shape_of_derives {place last : Position} {text left : List Char}
    {front rest : List Token} {tree : Node} (hlexes : Lexes place text (front ++ rest) last left)
    (h : Parser.DerivesProgram (Parser.Decoded Parser.literalValue) front tree) :
    ∃ name value bodyPlace mainPlace place,
      tree = .program (.function (some name) (.ret value bodyPlace) mainPlace) place ∧
        Terminal.IsName name.toList ∧ value.Shaped (.chain .additive) := by
  have hspelled := hlexes.isSpelled
  cases h with
  | function _ hname hopenParen _ _ _ hvalue _ _ =>
    simp only [List.cons_append] at hlexes
    cases hlexes with
    | token _ hrest =>
      obtain ⟨name, hvalueName, hisName⟩ := hrest.isName hname hopenParen
      rw [hvalueName]
      refine ⟨name, _, _, _, _, rfl, hisName, hvalue.shaped ?_⟩
      intro token htoken
      exact hspelled token (by simp [htoken])

-- Whatever the limit, a text is read as such a function.
theorem shape_of_parseSource {source : String} {limit : Int} {log : Log} {tree : Node}
    (h : (parseSource source limit log).1 = .ok tree) :
    ∃ name value bodyPlace mainPlace place,
      tree = .program (.function (some name) (.ret value bodyPlace) mainPlace) place ∧
        Terminal.IsName name.toList ∧ value.Shaped (.chain .additive) := by
  obtain ⟨tokens, htokens, hparse⟩ := parseSource_eq_ok_iff.mp h
  obtain ⟨last, hlexes⟩ := (Lexer.tokenize_eq_ok_iff source log tokens).mp htokens
  rw [← List.append_nil tokens] at hlexes
  exact hlexes.shape_of_derives (Parser.derives_of_parse hparse).1

-- What is read from a text has the shape of the grammar.
theorem grammarShaped_of_parseSource {source : String} {log : Log} {tree : Node}
    (h : (parseSource source Parser.defaultLimit log).1 = .ok tree) : tree.GrammarShaped := by
  refine ⟨shape_of_parseSource h, ?_⟩
  obtain ⟨tokens, _, hparse⟩ := parseSource_eq_ok_iff.mp h
  have hfits := (Parser.derives_of_parse hparse).2
  unfold Parser.Fits at hfits
  unfold Parser.defaultLimit at hfits ⊢
  omega

-- The text of a tree of that shape is read as the tree.
theorem Node.GrammarShaped.reads {tree : Node} (h : tree.GrammarShaped) {indent : String}
    (hindent : ∀ c ∈ indent.toList, isBlank c) (log : Log) :
    ∃ text read, tree.programSource indent = .ok text ∧
      (parseSource text Parser.defaultLimit log).1 = .ok read ∧ read.same tree := by
  obtain ⟨⟨name, value, bodyPlace, mainPlace, place, rfl, hname, hvalue⟩, hnesting⟩ := h
  obtain ⟨text, hformats⟩ := hvalue.formats
  obtain ⟨source, hsource, hchars⟩ :=
    programSource_of_formats hformats indent name bodyPlace mainPlace place
  have hlexes := lexesTo_program hformats hname hindent bodyPlace mainPlace place
  have hsolid : IsSolid source.toList := by
    rw [hchars]
    exact ⟨'i', _, rfl, by decide⟩
  rw [← hchars] at hlexes
  obtain ⟨tokens, htokens, read, hderives, hsame⟩ := tokenize_of_lexesTo hsolid hlexes log
  rw [← nesting_of_same hsame] at hnesting
  have hfits : Parser.Fits Parser.defaultLimit 0 read := Parser.fits_zero_of_le hnesting
  refine ⟨source, read, hsource, ?_, hsame⟩
  rw [parseSource_eq_ok_iff]
  exact ⟨tokens, htokens, Parser.parse_of_derives hderives hfits _⟩

-- Formatting and reading are inverse exactly on the trees that the grammar shapes, whatever the
-- blanks of the indent. All that is read from a text is of this kind, so that it is read again
-- from its own text, and has that text again.
theorem format_read_inverse (log : Log) :
    (∀ (tree : Node) (indent : String), (∀ c ∈ indent.toList, isBlank c) →
      ((∃ text read, tree.programSource indent = .ok text ∧
        (parseSource text Parser.defaultLimit log).1 = .ok read ∧ read.same tree) ↔
          tree.GrammarShaped)) ∧
    ∀ (source : String) (tree : Node),
      (parseSource source Parser.defaultLimit log).1 = .ok tree → tree.GrammarShaped ∧
        ∀ indent : String, (∀ c ∈ indent.toList, isBlank c) →
          ∃ text read, tree.programSource indent = .ok text ∧
            (parseSource text Parser.defaultLimit log).1 = .ok read ∧ read.same tree ∧
            read.programSource indent = .ok text := by
  constructor
  · intro tree indent hindent
    constructor
    · rintro ⟨text, read, _, hread, hsame⟩
      exact (grammarShaped_of_parseSource hread).of_same hsame
    · intro hshaped
      exact hshaped.reads hindent log
  · intro source tree htree
    have hshaped := grammarShaped_of_parseSource htree
    refine ⟨hshaped, ?_⟩
    intro indent hindent
    obtain ⟨text, read, htext, hread, hsame⟩ := hshaped.reads hindent log
    have hsymm : tree.same read := Node.same_iff.mpr (Node.same_iff.mp hsame).symm
    exact ⟨text, read, htext, hread, hsame, Node.programSource_of_same htext hsymm⟩

def twoMinusOne : Node := .binary .additive (.constant 2 .start) "-" (.constant 1 .start) .start

-- The function `f` that returns the difference of two expressions.
def returningDifference (left right : Node) : Node :=
  .program (.function (some "f") (.ret (.binary .additive left "-" right .start) .start) .start)
    .start

theorem not_shaped_multiplicative {left right : Node} {op : String} {place : Position} :
    ¬ Node.Shaped (.chain .multiplicative) (.binary .additive left op right place) := by
  intro h
  cases h with
  | operand hfactor => cases hfactor

theorem not_grammarShaped_nested :
    ¬ (returningDifference (.constant 3 .start) twoMinusOne).GrammarShaped := by
  rintro ⟨⟨name, value, bodyPlace, mainPlace, place, hshape, _, hvalue⟩, _⟩
  simp only [returningDifference, Node.program.injEq, Node.function.injEq, Node.ret.injEq] at hshape
  obtain ⟨⟨_, ⟨rfl, _⟩, _⟩, _⟩ := hshape
  generalize "-" = op at hvalue
  cases hvalue with
  | operand hchain => exact not_shaped_multiplicative hchain
  | binary _ _ hright => exact not_shaped_multiplicative hright

theorem grammarShaped_chain :
    (returningDifference twoMinusOne (.constant 3 .start)).GrammarShaped := by
  have hconstant : ∀ {tier : Tier} {value : Int}, 0 ≤ value → value ≤ Parser.largestConstant →
      Node.Shaped (Parser.operandLevel tier) (.constant value .start) := by
    intro tier value hlow hhigh
    cases tier with
    | additive => exact .operand (.constant hlow hhigh)
    | multiplicative => exact .constant hlow hhigh
  have hsubtract : BinaryOperator.subtract ∈ Tier.additive.operators := by decide
  have hinner : Node.Shaped (.chain .additive) twoMinusOne :=
    .binary (.operand (hconstant (by decide) (by decide))) hsubtract
      (hconstant (by decide) (by decide))
  refine ⟨⟨"f", _, _, _, _, rfl, ?_, ?_⟩, by decide⟩
  · exact ⟨by decide, by simp, by decide, by decide⟩
  · exact .binary hinner hsubtract (hconstant (by decide) (by decide))

-- A difference to the left of a minus is read back as it is, and one to its right is not.
theorem format_read_inverse_differences :
    (∀ c ∈ "\t".toList, isBlank c) ∧
      (∃ text read, (returningDifference twoMinusOne (.constant 3 .start)).programSource "\t" =
          .ok text ∧ (parseSource text Parser.defaultLimit .silent).1 = .ok read ∧
        read.same (returningDifference twoMinusOne (.constant 3 .start))) ∧
      ¬ ∃ text read, (returningDifference (.constant 3 .start) twoMinusOne).programSource "\t" =
          .ok text ∧ (parseSource text Parser.defaultLimit .silent).1 = .ok read ∧
        read.same (returningDifference (.constant 3 .start) twoMinusOne) := by
  have hindent : ∀ c ∈ "\t".toList, isBlank c := by
    intro c hc
    rw [List.mem_singleton.mp hc]
    decide
  have hinverse := (format_read_inverse .silent).1
  refine ⟨hindent, ?_, ?_⟩
  · exact (hinverse _ "\t" hindent).mpr grammarShaped_chain
  · intro hread
    exact not_grammarShaped_nested ((hinverse _ "\t" hindent).mp hread)

end TinyC
