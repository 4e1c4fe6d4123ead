import TinyC.Proofs.Token.Lexeme

namespace TinyC

open Text

namespace Text

-- The characters that are tokens by themselves.
def symbols : List Char := ['{', '}', '(', ')', ';', '-', '~', '!', '+', '*', '/']

-- A character that tokens are made of.
def isSignificant (c : Char) : Bool := symbols.contains c || c.isDigit || c.isAlpha

-- The alphabet of programs.
def isKnown (c : Char) : Bool := isBlank c || isSignificant c

theorem isWord_of_symbol {c : Char} (h : c ∈ symbols) : isWord c = false := by
  have hsymbols : symbols.all (fun c => !isWord c) = true := by decide
  simpa using List.all_eq_true.mp hsymbols c h

theorem isBlank_of_isSignificant {c : Char} (h : isSignificant c) : isBlank c = false := by
  have hsymbols : symbols.all (fun c => !isBlank c) = true := by decide
  simp only [isSignificant, Bool.or_eq_true, List.contains_iff_mem] at h
  rcases h with (hsymbol | hdigit) | hletter
  · simpa using List.all_eq_true.mp hsymbols c hsymbol
  · exact isBlank_of_isWord (isWord_of_isDigit hdigit)
  · exact isBlank_of_isWord (isWord_of_isAlpha hletter)

theorem isSignificant_of_isDigit {c : Char} (h : c.isDigit) : isSignificant c := by
  simp [isSignificant, h]

theorem isSignificant_of_isAlpha {c : Char} (h : c.isAlpha) : isSignificant c := by
  simp [isSignificant, h]

theorem isSignificant_of_isHexDigit {c : Char} (h : Lexeme.isHexDigit c) : isSignificant c := by
  have hascii : ∀ n < 128, Lexeme.isHexDigit (Char.ofNat n) → isSignificant (Char.ofNat n) := by
    decide +kernel
  have hdigit : Numeral.Base.sixteen.isDigit c := h
  exact Numeral.forall_ascii (p := fun c => Lexeme.isHexDigit c → isSignificant c) hascii
    (Numeral.Base.ascii_of_isDigit hdigit) h

end Text

-- What a lexeme may begin with: no two of these have a character in common.
inductive Initial where
  | symbol
  | letter
  | digit
deriving DecidableEq

def Initial.admits : Initial → Char → Bool
  | symbol, c => symbols.contains c
  | letter, c => c.isAlpha
  | digit, c => c.isDigit

theorem Initial.eq_of_admits {first second : Initial} {c : Char} (hfirst : first.admits c)
    (hsecond : second.admits c) : first = second := by
  have hsymbols : symbols.all (fun c => !c.isAlpha && !c.isDigit) = true := by decide
  have hother : c ∈ symbols → c.isAlpha = false ∧ c.isDigit = false := by
    intro hc
    simpa using List.all_eq_true.mp hsymbols c hc
  have hletter : c.isAlpha → c.isDigit = false := isDigit_of_isAlpha
  cases first <;> cases second <;> simp_all [admits]

namespace Terminal

open Lexeme

theorem isSignificant_of_spelling {terminal : Terminal} {spelling : List Char}
    (h : terminal.spelling? = some spelling) : ∀ c ∈ spelling, isSignificant c := by
  have hspelling : spelling.all isSignificant = true := by
    cases terminal <;> cases h <;> decide
  exact List.all_eq_true.mp hspelling

theorem run?_significant {isPart : Char → Bool} {text run : List Char}
    (h : run? isPart text = some run) (hpart : ∀ c, isPart c → isSignificant c) :
    run <+: text ∧ ∀ c ∈ run, isSignificant c := by
  have hfront : run <+: text := by
    rw [(run?_eq_some h).1]
    exact List.takeWhile_prefix _
  exact ⟨hfront, fun c hc => hpart c (isPart_of_run? h c hc)⟩

theorem lexeme?_of_spelling {terminal : Terminal} {spelling text lexeme : List Char}
    (hspelling : terminal.spelling? = some spelling) (h : terminal.lexeme? text = some lexeme) :
    lexeme <+: text ∧ ∀ c ∈ lexeme, isSignificant c := by
  simp only [lexeme?, hspelling, Option.ite_none_right_eq_some, Option.some.injEq,
    Bool.and_eq_true, List.isPrefixOf_iff_prefix] at h
  obtain ⟨⟨hfront, _⟩, rfl⟩ := h
  exact ⟨hfront, isSignificant_of_spelling hspelling⟩

-- A lexeme is cut from the front of its text, and holds no blank.
theorem lexeme?_significant {terminal : Terminal} {text lexeme : List Char}
    (h : terminal.lexeme? text = some lexeme) :
    lexeme <+: text ∧ ∀ c ∈ lexeme, isSignificant c := by
  cases terminal with
  | hexadecimal =>
    obtain ⟨rest, digits, rfl, hdigits, rfl⟩ := exists_of_lexeme?_hexadecimal h
    obtain ⟨hfront, hdigits⟩ := run?_significant hdigits fun c => isSignificant_of_isHexDigit
    refine ⟨by simpa using hfront, ?_⟩
    intro c hc
    simp only [List.mem_cons] at hc
    rcases hc with rfl | rfl | hc
    · decide
    · decide
    · exact hdigits c hc
  | decimal => exact run?_significant h fun c => isSignificant_of_isDigit
  | identifier => exact run?_significant h fun c => isSignificant_of_isAlpha
  | _ => exact lexeme?_of_spelling rfl h

theorem first?_significant {terminal : Terminal} {text lexeme : List Char}
    (h : first? text = some (terminal, lexeme)) :
    lexeme <+: text ∧ lexeme ≠ [] ∧ ∀ c ∈ lexeme, isSignificant c := by
  obtain ⟨hfront, hlexeme⟩ := lexeme?_significant (lexeme?_of_first? h)
  exact ⟨hfront, first?_ne_nil h, hlexeme⟩

-- A keyword is read where it stands as a whole word.
theorem exists_of_lexeme?_keyword {terminal : Terminal} {text lexeme : List Char}
    (hkeyword : terminal.category = .keyword) (h : terminal.lexeme? text = some lexeme) :
    ∃ rest, text = lexeme ++ rest ∧ terminal.spelling? = some lexeme ∧ endsWord rest ∧
      ∀ c ∈ lexeme, c.isAlpha := by
  obtain ⟨⟨rest, rfl⟩, _⟩ := lexeme?_significant h
  obtain ⟨spelling, hspelling⟩ : ∃ spelling, terminal.spelling? = some spelling := by
    cases terminal <;> cases hkeyword <;> exact ⟨_, rfl⟩
  obtain rfl := lexeme?_eq_spelling hspelling h
  have hletters : lexeme.all Char.isAlpha = true := by
    cases terminal <;> cases hkeyword <;> cases hspelling <;> decide
  refine ⟨rest, rfl, hspelling, ?_, List.all_eq_true.mp hletters⟩
  simp only [lexeme?, hspelling, hkeyword, List.drop_left, Option.ite_none_right_eq_some,
    Bool.and_eq_true, bne_self_eq_false, Bool.false_or] at h
  exact h.1.2

def initial (terminal : Terminal) : Initial :=
  match terminal.category with
  | .symbol | .operator => .symbol
  | .keyword | .identifier => .letter
  | .integer => .digit

theorem run?_begins {isPart : Char → Bool} {text run : List Char} (h : run? isPart text = some run) :
    ∃ c rest, text = c :: rest ∧ isPart c := by
  obtain ⟨hrun, hne⟩ := run?_eq_some h
  cases text with
  | nil => exact absurd hrun hne
  | cons c rest =>
    refine ⟨c, rest, rfl, ?_⟩
    by_contra hc
    simp only [List.takeWhile_cons, hc] at hrun
    exact hne hrun

theorem lexeme?_begins {terminal : Terminal} {text lexeme : List Char}
    (h : terminal.lexeme? text = some lexeme) :
    ∃ c rest, text = c :: rest ∧ terminal.initial.admits c := by
  cases terminal with
  | hexadecimal =>
    obtain ⟨rest, _, htext, _, _⟩ := exists_of_lexeme?_hexadecimal h
    exact ⟨'0', 'x' :: rest, htext, rfl⟩
  | decimal => exact run?_begins h
  | identifier => exact run?_begins h
  | _ =>
    obtain ⟨⟨rest, rfl⟩, _⟩ := lexeme?_significant h
    rw [lexeme?_eq_spelling rfl h]
    exact ⟨_, _, rfl, by decide⟩

-- Terminals that can be read at one place begin alike.
theorem initial_eq {first second : Terminal} {text lexeme word : List Char}
    (hfirst : first.lexeme? text = some lexeme) (hsecond : second.lexeme? text = some word) :
    first.initial = second.initial := by
  obtain ⟨c, rest, rfl, hc⟩ := lexeme?_begins hfirst
  obtain ⟨_, _, ⟨⟩, hother⟩ := lexeme?_begins hsecond
  exact Initial.eq_of_admits hc hother

theorem first?_isSome_of_lexeme? (terminal : Terminal) {text lexeme : List Char}
    (h : terminal.lexeme? text = some lexeme) : (first? text).isSome := by
  have hmem : terminal ∈ all := by cases terminal <;> decide
  rw [first?, List.findSome?_isSome_iff]
  exact ⟨terminal, hmem, by simp [h]⟩

theorem exists_symbol {c : Char} (h : c ∈ symbols) :
    ∃ terminal : Terminal, terminal.spelling? = some [c] ∧ terminal.category ≠ .keyword := by
  simp only [symbols, List.mem_cons, List.not_mem_nil, or_false] at h
  rcases h with rfl | rfl | rfl | rfl | rfl | rfl | rfl | rfl | rfl | rfl | rfl
  · exact ⟨leftBrace, rfl, by decide⟩
  · exact ⟨rightBrace, rfl, by decide⟩
  · exact ⟨leftParen, rfl, by decide⟩
  · exact ⟨rightParen, rfl, by decide⟩
  · exact ⟨semicolon, rfl, by decide⟩
  · exact ⟨minus, rfl, by decide⟩
  · exact ⟨tilde, rfl, by decide⟩
  · exact ⟨bang, rfl, by decide⟩
  · exact ⟨plus, rfl, by decide⟩
  · exact ⟨star, rfl, by decide⟩
  · exact ⟨slash, rfl, by decide⟩

-- A symbol is found whatever comes behind it.
theorem exists_first?_symbol {c : Char} (h : c ∈ symbols) :
    ∃ terminal, ∀ rest, first? (c :: rest) = some (terminal, [c]) := by
  obtain ⟨terminal, hspelling, hcategory⟩ := exists_symbol h
  exact ⟨terminal, fun rest => first?_spelling hspelling fun hkeyword => absurd hkeyword hcategory⟩

theorem run?_cons {isPart : Char → Bool} {c : Char} (h : isPart c) (rest : List Char) :
    run? isPart (c :: rest) = some (c :: rest.takeWhile isPart) := by
  simp [run?, h]

-- Some terminal matches at a character exactly if it is significant. A keyword that goes on as
-- a word is matched as an identifier.
theorem first?_isSome_iff {c : Char} {rest : List Char} :
    (first? (c :: rest)).isSome ↔ isSignificant c := by
  constructor
  · intro h
    obtain ⟨⟨terminal, lexeme⟩, hfirst⟩ := Option.isSome_iff_exists.mp h
    obtain ⟨hfront, hne, hlexeme⟩ := first?_significant hfirst
    cases lexeme with
    | nil => exact absurd rfl hne
    | cons d more =>
      obtain ⟨rfl, _⟩ := List.cons_prefix_cons.mp hfront
      exact hlexeme d (by simp)
  · intro h
    simp only [isSignificant, Bool.or_eq_true, List.contains_iff_mem] at h
    rcases h with (hsymbol | hdigit) | hletter
    · obtain ⟨terminal, hfirst⟩ := exists_first?_symbol hsymbol
      rw [hfirst]
      rfl
    · exact first?_isSome_of_lexeme? decimal (run?_cons hdigit rest)
    · exact first?_isSome_of_lexeme? identifier (run?_cons hletter rest)

end Terminal

end TinyC
