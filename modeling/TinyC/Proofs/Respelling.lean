import TinyC.Proofs.Spacing
import TinyC.Proofs.Tree.Constant

namespace TinyC

open Numeral (IsSpelling)

-- What spells a number is cut into one literal, which denotes it.
theorem exists_literal_of_isSpelling {text : List Char} {n : Nat} (h : IsSpelling text n)
    (log : Log) :
    ∃ literal, (tokenize (String.ofList text) log).1 = .ok [literal] ∧ literal.text = text ∧
      literal.denoted = n ∧ literal.Spells literal.denoted ∧ literal.IsShort := by
  have hends : Lexeme.endsWord [] := rfl
  obtain ⟨terminal, hfirst, hliteral⟩ := h.exists_literal hends
  obtain ⟨hspells, hshort⟩ := hliteral .start
  have hlexes : Lexer.Lexes (Position.start.advance ((text ++ []).takeWhile Text.isBlank)) _ _ _ _ :=
    .cons_solid hfirst (.done _ _)
  rw [List.append_nil] at hlexes hfirst
  refine ⟨_, ?_, Token.text_ofLexeme (Terminal.lexeme?_of_first? hfirst) _,
    Int.ofNat.inj hspells.denoted_eq.symm, hspells.denoted_eq ▸ hspells, hshort⟩
  rw [Lexer.tokenize_eq_ok_iff, String.toList_ofList]
  exact ⟨_, hlexes⟩

-- The text that is written for a constant spells it.
theorem exists_spelling_of_word {n : Nat} (h : n < 2 ^ 32) (place : Position) :
    ∃ text, (Node.constant n place).source = .ok text ∧ IsSpelling text.toList n := by
  have hword : (n : Int) ≤ Parser.largestConstant := by
    unfold Parser.largestConstant
    omega
  have hformats : Node.Formats .factor (.constant n place) _ :=
    Node.formats_constant (Int.natCast_nonneg n) hword
  have hsource := hformats.source
  rw [Int.toNat_natCast, ← Node.source_eq_plainSource] at hsource
  refine ⟨_, hsource, ?_⟩
  rw [String.toList_ofList]
  exact Numeral.isSpelling_decimalDigits h

-- A program keeps its assembly text when its literals are spelled in other ways.
theorem compile_of_respells {source other : String} {tokens : List Token} {tree : Node} {log : Log}
    (htokens : (tokenize source log).1 = .ok tokens)
    (htree : (parseSource source Parser.defaultLimit log).1 = .ok tree)
    (h : Respells source.toList tokens other.toList) (last : Log) (target : Target) :
    ∃ text, (compile source target.name log).1 = .ok text ∧
      (compile other target.name last).1 = .ok text := by
  obtain ⟨spelled, hspelled, hparse⟩ := parseSource_eq_ok_iff.mp htree
  obtain rfl : tokens = spelled := Except.ok.inj (htokens.symm.trans hspelled)
  obtain ⟨final, hlexes⟩ := (Lexer.tokenize_eq_ok_iff source log tokens).mp htokens
  obtain ⟨found, ending, hfound, hagree⟩ := Lexer.exists_lexes_of_respells h
    (Parser.derives_of_parse hparse).1.detached hlexes .start
  have hother := (Lexer.tokenize_eq_ok_iff other last found).mpr ⟨_, hfound⟩
  obtain ⟨read, hread, hsame⟩ := Parser.parse_of_agrees hparse hagree (tokenize other last).2
  exact compile_of_unplaced_tree htree (parseSource_eq_ok_iff.mpr ⟨found, hother, hread⟩)
    hsame.symm target

-- Literals denote their positional value, however they are spelled: each becomes the constant of
-- that value, or is the error where the value needs more than 32 bits. So any spelling of a word
-- is read as that word, among them the one that is written for a constant, and a program keeps
-- its assembly text when its literals are spelled in other ways.
theorem literals_denote_positional_values :
    (∀ source log tokens, (tokenize source log).1 = .ok tokens →
      (∀ literal ∈ tokens, literal.terminal.category = .integer → literal.IsShort →
        IsSpelling literal.text literal.denoted ∧
        (∀ limit depth rest, Parser.outcome (Parser.factor limit depth (literal :: rest)) =
          if literal.denoted < 2 ^ 32 then .ok (.constant literal.denoted literal.place, rest)
          else .error ⟨.tooWide literal, rest, depth⟩) ∧
        ∀ limit other, (parse tokens limit other).1 = .error (.tooWide literal) ↔
          2 ^ 32 ≤ literal.denoted ∧ ∃ front rest, tokens = front ++ literal :: rest ∧
            Parser.TakesLiteral limit front literal.terminal) ∧
      ∀ limit other tree, (parse tokens limit other).1 = .ok tree →
        tree.constants = literalConstants tokens) ∧
    (∀ n < 2 ^ 32,
      (∀ text, IsSpelling text n → ∀ log, ∃ literal,
        (tokenize (String.ofList text) log).1 = .ok [literal] ∧ literal.text = text ∧
          ∀ limit depth rest, Parser.outcome (Parser.factor limit depth (literal :: rest)) =
            .ok (.constant n literal.place, rest)) ∧
      ∀ place, ∃ text, (Node.constant n place).source = .ok text ∧ IsSpelling text.toList n) ∧
    ∀ source tokens tree other log last, (tokenize source log).1 = .ok tokens →
      (parseSource source Parser.defaultLimit log).1 = .ok tree →
      Respells source.toList tokens other.toList → ∀ target : Target,
        ∃ text, (compile source target.name log).1 = .ok text ∧
          (compile other target.name last).1 = .ok text := by
  refine ⟨?_, ?_, ?_⟩
  · intro source log tokens htokens
    obtain ⟨last, hlexes⟩ := (Lexer.tokenize_eq_ok_iff source log tokens).mp htokens
    have hspelled := hlexes.isSpelled
    refine ⟨?_, fun limit other tree htree => Parser.constants_of_parse htree hspelled⟩
    intro literal hliteral hinteger hshort
    have hspells := Token.spells_denoted (hspelled literal hliteral) hinteger
    refine ⟨Token.isSpelling_text hspells hshort, Parser.factor_literal hspells hshort, ?_⟩
    intro limit other
    rw [Parser.parse_eq_tooWide_iff hspelled hshort]
    exact and_congr_right fun _ => and_iff_right hinteger
  · intro n hn
    refine ⟨?_, exists_spelling_of_word hn⟩
    intro text htext log
    obtain ⟨literal, htokens, hsame, rfl, hspells, hshort⟩ := exists_literal_of_isSpelling htext log
    refine ⟨literal, htokens, hsame, ?_⟩
    intro limit depth rest
    rw [Parser.factor_literal hspells hshort, if_pos hn]
  · intro source tokens tree other log last htokens htree hrespells target
    exact compile_of_respells htokens htree hrespells last target

def tenLiteral : Token := ⟨.decimal, some "10", ⟨1, 16⟩⟩

-- The tokens and the tree of a function that returns ten.
def tenTokens : List Token :=
  [⟨.intKeyword, none, ⟨1, 1⟩⟩, ⟨.identifier, some "f", ⟨1, 5⟩⟩, ⟨.leftParen, none, ⟨1, 6⟩⟩,
   ⟨.rightParen, none, ⟨1, 7⟩⟩, ⟨.leftBrace, none, ⟨1, 8⟩⟩, ⟨.returnKeyword, none, ⟨1, 9⟩⟩,
   tenLiteral, ⟨.semicolon, none, ⟨1, 18⟩⟩, ⟨.rightBrace, none, ⟨1, 19⟩⟩]

def tenTree : Node :=
  .program (.function (some "f") (.ret (.constant 10 ⟨1, 16⟩) ⟨1, 9⟩) ⟨1, 1⟩) ⟨1, 1⟩

theorem tenLiteral_hasDigits : tenLiteral.HasDigits .ten ['1', '0'] := by
  refine ⟨by decide, ?_, rfl, rfl⟩
  simp
  decide

theorem tenLiteral_isShort : tenLiteral.IsShort := by
  intro digits hdigits
  obtain ⟨_, rfl⟩ := hdigits.functional tenLiteral_hasDigits
  decide

theorem isSpelling_ten : IsSpelling ['0', 'x', '0', 'A'] 10 := by
  refine ⟨.sixteen, ['0', 'A'], rfl, by decide, ?_, nofun, by decide⟩
  simp
  decide

theorem respells_ten :
    Respells "int f(){return 10;}".toList tenTokens "int f(){return 0x0A;}".toList := by
  have hclosing := @Respells.kept [] [] ⟨.rightBrace, none, ⟨1, 19⟩⟩ [] .nil
  have hsemicolon := @Respells.kept _ _ ⟨.semicolon, none, ⟨1, 18⟩⟩ _ hclosing
  have hvalue := @Respells.literal _ _ ['0', 'x', '0', 'A'] tenLiteral _ rfl isSpelling_ten hsemicolon
  have hblank : Text.isBlank ' ' := by decide
  have hreturn := @Respells.kept _ _ ⟨.returnKeyword, none, ⟨1, 9⟩⟩ _ (.blank hblank hvalue)
  have hopenBrace := @Respells.kept _ _ ⟨.leftBrace, none, ⟨1, 8⟩⟩ _ hreturn
  have hcloseParen := @Respells.kept _ _ ⟨.rightParen, none, ⟨1, 7⟩⟩ _ hopenBrace
  have hopenParen := @Respells.kept _ _ ⟨.leftParen, none, ⟨1, 6⟩⟩ _ hcloseParen
  have hname := @Respells.kept _ _ ⟨.identifier, some "f", ⟨1, 5⟩⟩ _ hopenParen
  exact @Respells.kept _ _ ⟨.intKeyword, none, ⟨1, 1⟩⟩ _ (.blank hblank hname)

-- Ten is read as it is in either base, and is compiled to one text.
theorem literals_denote_positional_values_ten :
    (tokenize "int f(){return 10;}" .silent).1 = .ok tenTokens ∧ tenLiteral ∈ tenTokens ∧
      tenLiteral.terminal.category = .integer ∧ tenLiteral.IsShort ∧
      (∀ limit depth rest, Parser.outcome (Parser.factor limit depth (tenLiteral :: rest)) =
        .ok (.constant 10 ⟨1, 16⟩, rest)) ∧
      (parse tenTokens 0 .silent).1 = .ok tenTree ∧ tenTree.constants = [.constant 10 ⟨1, 16⟩] ∧
      10 < 2 ^ 32 ∧ IsSpelling ['0', 'x', '0', 'A'] 10 ∧
      (∃ literal, (tokenize (String.ofList ['0', 'x', '0', 'A']) .silent).1 = .ok [literal] ∧
        literal.text = ['0', 'x', '0', 'A'] ∧
          ∀ limit depth rest, Parser.outcome (Parser.factor limit depth (literal :: rest)) =
            .ok (.constant 10 literal.place, rest)) ∧
      (parseSource "int f(){return 10;}" Parser.defaultLimit .silent).1 = .ok tenTree ∧
      Respells "int f(){return 10;}".toList tenTokens "int f(){return 0x0A;}".toList ∧
      ∀ target : Target, ∃ text, (compile "int f(){return 10;}" target.name .silent).1 = .ok text ∧
        (compile "int f(){return 0x0A;}" target.name .silent).1 = .ok text := by
  obtain ⟨hliterals, hspellings, hrespelled⟩ := literals_denote_positional_values
  have htokens : (tokenize "int f(){return 10;}" .silent).1 = .ok tenTokens := by decide +kernel
  have hmem : tenLiteral ∈ tenTokens := by simp [tenTokens]
  obtain ⟨hliteral, hconstants⟩ := hliterals _ _ _ htokens
  obtain ⟨_, hfactor, _⟩ := hliteral tenLiteral hmem rfl tenLiteral_isShort
  have hparse : (parse tenTokens 0 .silent).1 = .ok tenTree := by decide +kernel
  have hread : (parseSource "int f(){return 10;}" Parser.defaultLimit .silent).1 = .ok tenTree := by
    decide +kernel
  refine ⟨htokens, hmem, rfl, tenLiteral_isShort, hfactor, hparse, ?_, by decide,
    isSpelling_ten, (hspellings 10 (by decide)).1 _ isSpelling_ten .silent, hread, respells_ten, ?_⟩
  · exact hconstants 0 .silent tenTree hparse
  · exact hrespelled _ _ _ _ _ .silent htokens hread respells_ten

end TinyC
