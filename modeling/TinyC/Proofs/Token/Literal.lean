import TinyC.Proofs.Numeral
import TinyC.Proofs.Tree.Grammar

namespace TinyC.Token

-- The text of a literal as a lexer cuts it: digits, behind a mark if they are hexadecimal.
def HasDigits (token : Token) (base : Numeral.Base) (digits : List Char) : Prop :=
  digits ≠ [] ∧ (∀ c ∈ digits, base.isDigit c) ∧
    match base with
    | .ten => token.terminal = .decimal ∧ token.value = some (String.ofList digits)
    | .sixteen =>
      token.terminal = .hexadecimal ∧ token.value = some (String.ofList ('0' :: 'x' :: digits))

-- The number that the digits of a literal spell.
def Spells (token : Token) (value : Int) : Prop :=
  ∃ base digits, token.HasDigits base digits ∧ value = Numeral.spelled base digits

-- If the token is a literal, its text is one.
def IsSpelled (token : Token) : Prop :=
  ∀ base, token.terminal.base? = some base → ∃ digits, token.HasDigits base digits

-- A decimal literal has no more digits than are read.
def IsShort (token : Token) : Prop :=
  ∀ digits, token.HasDigits .ten digits → digits.length ≤ Numeral.digitLimit

variable {token : Token} {base other : Numeral.Base} {digits : List Char}

theorem HasDigits.base?_eq (h : token.HasDigits base digits) :
    token.terminal.base? = some base := by
  obtain ⟨_, _, htext⟩ := h
  cases base with
  | ten =>
    rw [htext.1]
    rfl
  | sixteen =>
    rw [htext.1]
    rfl

theorem HasDigits.functional {more : List Char} (hfirst : token.HasDigits base digits)
    (hsecond : token.HasDigits other more) : base = other ∧ digits = more := by
  obtain rfl : base = other := by
    have hbase := hfirst.base?_eq.symm.trans hsecond.base?_eq
    exact Option.some.inj hbase
  refine ⟨rfl, ?_⟩
  obtain ⟨_, _, hfirst⟩ := hfirst
  obtain ⟨_, _, hsecond⟩ := hsecond
  cases base with
  | ten =>
    have htext := hfirst.2.symm.trans hsecond.2
    exact String.ofList_injective (Option.some.inj htext)
  | sixteen =>
    have htext := hfirst.2.symm.trans hsecond.2
    have hchars := String.ofList_injective (Option.some.inj htext)
    simpa using hchars

theorem Spells.functional {first second : Int} (hfirst : token.Spells first)
    (hsecond : token.Spells second) : first = second := by
  obtain ⟨base, digits, hdigits, rfl⟩ := hfirst
  obtain ⟨other, more, hmore, rfl⟩ := hsecond
  obtain ⟨rfl, rfl⟩ := hdigits.functional hmore
  rfl

end TinyC.Token

namespace TinyC.Parser

variable {token : Token} {base : Numeral.Base} {digits : List Char} {value : Int}

-- Digits are decoded as they are spelled, up to the limits on their number and on the value.
theorem literalValue_of_hasDigits (h : token.HasDigits base digits) :
    literalValue base token =
      if base = .ten ∧ Numeral.digitLimit < digits.length then
        .error (.badNumeral (.tooManyDigits digits.length))
      else if largestConstant < Numeral.spelled base digits then .error (.tooWide token)
      else .ok (Numeral.spelled base digits) := by
  obtain ⟨hne, hdigits, htext⟩ := h
  have hread := Numeral.read_digits hne hdigits
  cases base with
  | ten =>
    simp only [literalValue, htext.2, hread]
    by_cases hlong : Numeral.digitLimit < digits.length <;> simp [hlong]
  | sixteen =>
    simp only [literalValue, htext.2, String.toList_ofList, List.drop_succ_cons, List.drop_zero,
      hread]
    simp

-- What is decoded is what the digits spell, and is a word.
theorem spells_of_decoded (hspelled : token.IsSpelled) (h : Decoded literalValue token value) :
    token.Spells value ∧ value ≤ largestConstant := by
  obtain ⟨base, hbase, hvalue⟩ := h
  obtain ⟨digits, hdigits⟩ := hspelled base hbase
  rw [literalValue_of_hasDigits hdigits] at hvalue
  split at hvalue
  · cases hvalue
  · split at hvalue
    · cases hvalue
    · next hnarrow =>
      cases hvalue
      exact ⟨⟨base, digits, hdigits, rfl⟩, by omega⟩

theorem decoded_of_spells (hshort : token.IsShort) (h : token.Spells value)
    (hnarrow : value ≤ largestConstant) : Decoded literalValue token value := by
  obtain ⟨base, digits, hdigits, rfl⟩ := h
  refine ⟨base, hdigits.base?_eq, ?_⟩
  rw [literalValue_of_hasDigits hdigits, if_neg, if_neg (by omega)]
  rintro ⟨rfl, hlong⟩
  have hlength := hshort digits hdigits
  omega

end TinyC.Parser
