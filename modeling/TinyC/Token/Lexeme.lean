import TinyC.Token.Terminal
import TinyC.Text.Character

namespace TinyC

namespace Lexeme

-- The longest part at the front of a text whose characters all pass the test, if not empty.
def run? (isPart : Char → Bool) (text : List Char) : Option (List Char) :=
  match text.takeWhile isPart with
  | [] => none
  | first :: rest => some (first :: rest)

-- Whether a word that stands before this text ends there.
def endsWord (text : List Char) : Bool :=
  match text with
  | [] => true
  | c :: _ => !Text.isWord c

def isHexDigit (c : Char) : Bool := c.isDigit || ('a' ≤ c && c ≤ 'f') || ('A' ≤ c && c ≤ 'F')

-- A run is a prefix of its text and not empty.
theorem run?_eq_some {isPart : Char → Bool} {text run : List Char}
    (h : run? isPart text = some run) : run = text.takeWhile isPart ∧ run ≠ [] := by
  unfold run? at h
  split at h
  · cases h
  · next first rest heq =>
    cases h
    exact ⟨heq.symm, by simp⟩

end Lexeme

namespace Terminal

open Lexeme

-- The text of the terminal at the front of `text`, if it matches there. A keyword is a whole
-- word, so that an identifier may begin like one.
def lexeme? (terminal : Terminal) (text : List Char) : Option (List Char) :=
  match terminal.spelling? with
  | some spelling =>
    if spelling.isPrefixOf text &&
        (terminal.category != .keyword || endsWord (text.drop spelling.length)) then
      some spelling
    else none
  | none =>
    match terminal, text with
    | hexadecimal, '0' :: 'x' :: rest => (run? isHexDigit rest).map fun run => '0' :: 'x' :: run
    | decimal, text => run? Char.isDigit text
    | identifier, text => run? Char.isAlpha text
    | _, _ => none

-- The first terminal in order that matches at the front of a text, with its lexeme.
def first? (text : List Char) : Option (Terminal × List Char) :=
  all.findSome? fun terminal => (terminal.lexeme? text).map fun lexeme => (terminal, lexeme)

theorem lexeme?_ne_nil {terminal : Terminal} {text lexeme : List Char}
    (h : terminal.lexeme? text = some lexeme) : lexeme ≠ [] := by
  cases terminal with
  | hexadecimal =>
    simp only [lexeme?, spelling?] at h
    split at h
    · obtain ⟨run, _, rfl⟩ := Option.map_eq_some_iff.mp h
      simp
    · simp_all
    · simp_all
    · cases h
  | decimal => exact (run?_eq_some h).2
  | identifier => exact (run?_eq_some h).2
  | _ =>
    simp only [lexeme?, spelling?, Option.ite_none_right_eq_some, Option.some.injEq] at h
    simp [← h.2]

-- A lexeme is not empty, so lexing makes progress.
theorem first?_ne_nil {text lexeme : List Char} {terminal : Terminal}
    (h : first? text = some (terminal, lexeme)) : lexeme ≠ [] := by
  obtain ⟨tried, _, ht⟩ := List.exists_of_findSome?_eq_some h
  obtain ⟨found, hfound, heq⟩ := Option.map_eq_some_iff.mp ht
  cases heq
  exact lexeme?_ne_nil hfound

@[simp] theorem lexeme?_nil (terminal : Terminal) : terminal.lexeme? [] = none := by
  cases terminal <;> rfl

@[simp] theorem first?_nil : first? [] = none := by
  simp [first?]

end Terminal

end TinyC
