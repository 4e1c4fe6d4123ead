import Mathlib.Data.List.Chain
import Mathlib.Data.List.Forall2
import TinyC.Proofs.Token.Spacing

namespace TinyC

open Text

namespace Numeral

-- What a literal has in front of its digits.
def Base.mark : Base → List Char
  | .ten => []
  | .sixteen => ['0', 'x']

-- The text is a literal of the number: digits in either base with any zeros in front, and in
-- decimal no more of them than are read. The last digit counts the ones.
def IsSpelling (text : List Char) (n : Nat) : Prop :=
  ∃ base digits, text = Base.mark base ++ digits ∧ digits ≠ [] ∧ (∀ c ∈ digits, base.isDigit c) ∧
    (base = .ten → digits.length ≤ digitLimit) ∧
    n = Nat.ofDigits base.radix (digits.reverse.map digitValue)

theorem isWord_of_isDigit {base : Base} {c : Char} (h : base.isDigit c) : isWord c := by
  cases base with
  | ten => exact Text.isWord_of_isDigit h
  | sixteen => exact isWord_of_isHexDigit h

theorem isSpelling_decimalDigits {n : Nat} (h : n < 2 ^ 32) : IsSpelling (decimalDigits n) n := by
  refine ⟨.ten, decimalDigits n, rfl, decimalDigits_ne_nil n, isDigit_decimalDigits n,
    fun _ => length_decimalDigits_word h, ?_⟩
  rw [← spelled_eq_ofDigits, spelled_decimalDigits]

end Numeral

open Numeral (IsSpelling)

theorem Terminal.exists_base_of_integer {terminal : Terminal} (h : terminal.category = .integer) :
    ∃ base, terminal.base? = some base := by
  cases terminal <;> cases h <;> exact ⟨_, rfl⟩

namespace Token

-- The positional value of the digits of a literal in its base.
def denoted (token : Token) : Nat :=
  match token.terminal.base? with
  | none => 0
  | some base =>
    Nat.ofDigits base.radix ((token.text.drop base.mark.length).reverse.map Numeral.digitValue)

variable {token : Token} {base : Numeral.Base} {digits : List Char}

theorem HasDigits.text_eq (h : token.HasDigits base digits) : token.text = base.mark ++ digits := by
  obtain ⟨_, _, htext⟩ := h
  cases base with
  | ten => simp [Token.text, htext.1, htext.2, Terminal.spelling?, Numeral.Base.mark]
  | sixteen => simp [Token.text, htext.1, htext.2, Terminal.spelling?, Numeral.Base.mark]

theorem HasDigits.denoted_eq (h : token.HasDigits base digits) :
    token.denoted = Numeral.spelled base digits := by
  rw [denoted, h.base?_eq, h.text_eq, Numeral.spelled_eq_ofDigits]
  simp only [List.drop_left]

theorem isSpelling_text (h : token.Spells token.denoted) (hshort : token.IsShort) :
    IsSpelling token.text token.denoted := by
  obtain ⟨base, digits, hdigits, _⟩ := h
  refine ⟨base, digits, hdigits.text_eq, hdigits.1, hdigits.2.1, ?_, ?_⟩
  · rintro rfl
    exact hshort digits hdigits
  · rw [hdigits.denoted_eq, Numeral.spelled_eq_ofDigits]

theorem spells_denoted (hspelled : token.IsSpelled) (h : token.terminal.category = .integer) :
    token.Spells token.denoted := by
  obtain ⟨base, hbase⟩ := Terminal.exists_base_of_integer h
  obtain ⟨digits, hdigits⟩ := hspelled base hbase
  exact ⟨base, digits, hdigits, by rw [hdigits.denoted_eq]⟩

-- Tokens that differ in their places alone, or are literals of one value.
inductive Agrees (first second : Token) : Prop
  | same : first.unplaced = second.unplaced → Agrees first second
  | literal {value : Int} : first.Spells value → second.Spells value → second.IsShort →
      Agrees first second

end Token

-- What spells a number is found as a literal of it where it is followed by no part of a word.
theorem Numeral.IsSpelling.exists_literal {text rest : List Char} {n : Nat} (h : IsSpelling text n)
    (hends : Lexeme.endsWord rest) :
    ∃ terminal, Terminal.first? (text ++ rest) = some (terminal, text) ∧ ∀ place,
      (Token.ofLexeme terminal text place).Spells n ∧
        (Token.ofLexeme terminal text place).IsShort := by
  obtain ⟨base, digits, rfl, hne, hdigits, hshort, hn⟩ := h
  have hstops := Lexeme.stops_of_endsWord hends fun c (hc : base.isDigit c) => isWord_of_isDigit hc
  have hrun := Lexeme.run?_append hne hdigits hstops
  have hspells : ∀ {token : Token}, token.HasDigits base digits →
      token.Spells n ∧ token.IsShort := by
    intro token htoken
    refine ⟨⟨base, digits, htoken, by rw [hn, spelled_eq_ofDigits]⟩, ?_⟩
    intro others hothers
    obtain ⟨hbase, rfl⟩ := hothers.functional htoken
    exact hshort hbase.symm
  cases base with
  | ten =>
    exact ⟨.decimal, Terminal.first?_digits hne hdigits hends, fun place =>
      hspells ⟨hne, hdigits, rfl, rfl⟩⟩
  | sixteen =>
    have hlexeme : Terminal.hexadecimal.lexeme? ('0' :: 'x' :: (digits ++ rest)) =
        some ('0' :: 'x' :: digits) :=
      Option.map_eq_some_iff.mpr ⟨digits, hrun, rfl⟩
    exact ⟨.hexadecimal, Terminal.first?_of_hexadecimal hlexeme, fun place =>
      hspells ⟨hne, hdigits, rfl, rfl⟩⟩

-- The second text is the first one with some of its literals spelled in another way. The tokens
-- are those of the first.
inductive Respells : List Char → List Token → List Char → Prop
  | nil : Respells [] [] []
  | blank {text other : List Char} {tokens : List Token} {c : Char} :
      isBlank c → Respells text tokens other → Respells (c :: text) tokens (c :: other)
  | kept {text other : List Char} {token : Token} {tokens : List Token} :
      Respells text tokens other → Respells (token.text ++ text) (token :: tokens) (token.text ++ other)
  | literal {text other spelling : List Char} {token : Token} {tokens : List Token} :
      token.terminal.category = .integer → IsSpelling spelling token.denoted →
      Respells text tokens other →
      Respells (token.text ++ text) (token :: tokens) (spelling ++ other)

-- Words may stand beside each other among tokens only if the first of them is a keyword.
def Token.Detached (first second : Token) : Prop :=
  first.terminal.initial = .symbol ∨ first.terminal.category = .keyword ∨
    second.terminal.initial = .symbol

theorem Token.spelling?_of_symbol {token : Token} (h : token.terminal.initial = .symbol) :
    token.terminal.spelling? = some token.text ∧ token.terminal.category ≠ .keyword := by
  obtain ⟨terminal, value, place⟩ := token
  cases terminal <;> cases h <;> exact ⟨rfl, nofun⟩

-- A literal goes on a word, or begins one.
theorem Token.HasDigits.endsWord_eq_false {token : Token} {base : Numeral.Base} {digits : List Char}
    (h : token.HasDigits base digits) (rest : List Char) :
    Lexeme.endsWord (token.text ++ rest) = false := by
  rw [h.text_eq]
  cases base with
  | ten =>
    obtain ⟨c, more, rfl⟩ := List.exists_cons_of_ne_nil h.1
    have hword : isWord c := isWord_of_isDigit (h.2.1 c (by simp))
    simp [Numeral.Base.mark, Lexeme.endsWord, hword]
  | sixteen => exact (by decide : (!isWord '0') = false)

-- No other spelling of a literal goes on a word that the text does not go on.
theorem Respells.endsWord {text other : List Char} {tokens : List Token}
    (h : Respells text tokens other) (hspelled : ∀ token ∈ tokens, token.IsSpelled)
    (hends : Lexeme.endsWord text) : Lexeme.endsWord other := by
  induction h with
  | nil => rfl
  | blank _ _ _ => exact hends
  | @kept text other token tokens _ ih =>
    cases htext : token.text with
    | nil =>
      rw [htext] at hends
      exact ih (fun other hother => hspelled other (by simp [hother])) hends
    | cons c more =>
      rw [htext] at hends
      exact hends
  | literal hinteger _ _ _ =>
    obtain ⟨base, hbase⟩ := Terminal.exists_base_of_integer hinteger
    obtain ⟨digits, hdigits⟩ := hspelled _ (by simp) base hbase
    rw [hdigits.endsWord_eq_false] at hends
    cases hends

namespace Lexer

variable {place last : Position} {rest left : List Char} {token : Token} {tokens : List Token}

-- No part of a word stands in front of a symbol, or at the end.
theorem Lexes.endsWord (h : Lexes place (rest.dropWhile isBlank) tokens last [])
    (hnext : ∀ next ∈ tokens.head?, next.terminal.initial = .symbol) : Lexeme.endsWord rest := by
  cases rest with
  | nil => rfl
  | cons c more =>
    cases hword : isWord c with
    | false => simp [Lexeme.endsWord, hword]
    | true =>
      rw [List.dropWhile_cons_of_neg (by simp [isBlank_of_isWord hword])] at h
      cases tokens with
      | nil => cases h
      | cons next others =>
        obtain ⟨_, _, _, hfirst, _⟩ := h.exists_rest
        obtain ⟨_, _, ⟨⟩, hbegins⟩ := Terminal.lexeme?_begins (Terminal.lexeme?_of_first? hfirst)
        rw [hnext next rfl] at hbegins
        rw [isWord_of_symbol (List.contains_iff_mem.mp hbegins)] at hword
        cases hword

-- What follows a detached token does not go on with it.
theorem Lexes.endsWord_of_detached
    (hfirst : Terminal.first? (token.text ++ rest) = some (token.terminal, token.text))
    (h : Lexes place (rest.dropWhile isBlank) tokens last [])
    (hchain : (token :: tokens).IsChain Token.Detached) :
    token.terminal.initial = .symbol ∨ Lexeme.endsWord rest := by
  by_cases hkeyword : token.terminal.category = .keyword
  · obtain ⟨behind, hbehind, _, hends, _⟩ :=
      Terminal.exists_of_lexeme?_keyword hkeyword (Terminal.lexeme?_of_first? hfirst)
    rw [List.append_cancel_left hbehind]
    exact .inr hends
  by_cases hsymbol : token.terminal.initial = .symbol
  · exact .inl hsymbol
  refine .inr (h.endsWord fun next hnext => ?_)
  rcases hchain.rel_head? hnext with hother | hother | hother
  · exact absurd hother hsymbol
  · exact absurd hother hkeyword
  · exact hother

theorem first?_solid {lexeme text : List Char} {terminal : Terminal}
    (h : Terminal.first? text = some (terminal, lexeme)) (rest : List Char) :
    (lexeme ++ rest).takeWhile isBlank = [] ∧
      (lexeme ++ rest).dropWhile isBlank = lexeme ++ rest := by
  obtain ⟨_, hne, hsignificant⟩ := Terminal.first?_significant h
  obtain ⟨c, more, rfl⟩ := List.exists_cons_of_ne_nil hne
  simp [isBlank_of_isSignificant (hsignificant c (by simp))]

theorem Lexes.of_solid (h : Lexes (place.advance ((token.text ++ rest).takeWhile isBlank))
      ((token.text ++ rest).dropWhile isBlank) (token :: tokens) last left) :
    token = .ofLexeme token.terminal token.text place ∧
      Terminal.first? (token.text ++ rest) = some (token.terminal, token.text) ∧
      Lexes ((place.advance token.text).advance (rest.takeWhile isBlank)) (rest.dropWhile isBlank)
        tokens last left := by
  obtain ⟨_, _, _, hfirst, _⟩ := h.exists_rest
  obtain ⟨htake, hdrop⟩ := first?_solid hfirst rest
  rw [htake, hdrop] at h
  obtain ⟨behind, hbehind, htoken, hfirst, hrest⟩ := h.exists_rest
  obtain rfl := List.append_cancel_left hbehind
  exact ⟨htoken, hfirst, hrest⟩

theorem Lexes.cons_solid {lexeme : List Char} {terminal : Terminal}
    (hfirst : Terminal.first? (lexeme ++ rest) = some (terminal, lexeme))
    (hrest : Lexes ((place.advance lexeme).advance (rest.takeWhile isBlank)) (rest.dropWhile isBlank)
      tokens last left) :
    Lexes (place.advance ((lexeme ++ rest).takeWhile isBlank)) ((lexeme ++ rest).dropWhile isBlank)
      (.ofLexeme terminal lexeme place :: tokens) last left := by
  obtain ⟨htake, hdrop⟩ := first?_solid hfirst rest
  rw [htake, hdrop]
  exact .cons hfirst hrest

-- Texts with other spellings of literals are cut into tokens that agree.
theorem exists_lexes_of_respells {text other : List Char} (h : Respells text tokens other)
    (hchain : tokens.IsChain Token.Detached)
    (hlexes : Lexes (place.advance (text.takeWhile isBlank)) (text.dropWhile isBlank) tokens last [])
    (start : Position) :
    ∃ found final, Lexes (start.advance (other.takeWhile isBlank)) (other.dropWhile isBlank) found
      final [] ∧ List.Forall₂ Token.Agrees tokens found := by
  induction h generalizing place start with
  | nil => exact ⟨[], start, .done start [], .nil⟩
  | @blank text other tokens c hc _ ih =>
    simp only [List.takeWhile_cons_of_pos hc, List.dropWhile_cons_of_pos hc] at hlexes ⊢
    have hnext : Lexes ((place.next c).advance (text.takeWhile isBlank)) _ _ _ _ := hlexes
    exact ih hchain hnext (start.next c)
  | @kept text other token tokens hrespells ih =>
    obtain ⟨htoken, hfirst, hrest⟩ := hlexes.of_solid
    obtain ⟨found, final, hfound, hagree⟩ := ih hchain.tail hrest (start.advance token.text)
    have hother : Terminal.first? (token.text ++ other) = some (token.terminal, token.text) := by
      rcases hrest.endsWord_of_detached hfirst hchain with hsymbol | hends
      · obtain ⟨hspelling, hcategory⟩ := Token.spelling?_of_symbol hsymbol
        exact Terminal.first?_spelling hspelling fun hkeyword => absurd hkeyword hcategory
      · have hne := Terminal.first?_ne_nil hfirst
        have hotherEnds := hrespells.endsWord hrest.isSpelled hends
        rw [Terminal.first?_word_append hne hotherEnds, ← Terminal.first?_word_append hne hends,
          hfirst]
    refine ⟨_, final, .cons_solid hother hfound, .cons (.same ?_) hagree⟩
    rw [Token.unplaced_ofLexeme _ _ start place, ← htoken]
  | @literal text other spelling token tokens hinteger hspelling hrespells ih =>
    have hdenoted := Token.spells_denoted (hlexes.isSpelled token (by simp)) hinteger
    obtain ⟨_, hfirst, hrest⟩ := hlexes.of_solid
    obtain ⟨found, final, hfound, hagree⟩ := ih hchain.tail hrest (start.advance spelling)
    have hends : Lexeme.endsWord text := by
      rcases hrest.endsWord_of_detached hfirst hchain with hsymbol | hends
      · rw [Terminal.initial, hinteger] at hsymbol
        cases hsymbol
      · exact hends
    obtain ⟨terminal, hother, hliteral⟩ :=
      hspelling.exists_literal (hrespells.endsWord hrest.isSpelled hends)
    obtain ⟨hspells, hshort⟩ := hliteral start
    exact ⟨_, final, .cons_solid hother hfound, .cons (.literal hdenoted hspells hshort) hagree⟩

end Lexer

end TinyC
