import TinyC.Proofs.Numeral
import TinyC.Token.Basic

namespace TinyC

namespace Text

theorem toNat_of_isAlpha {c : Char} (h : c.isAlpha) :
    (65 ≤ c.toNat ∧ c.toNat ≤ 90) ∨ (97 ≤ c.toNat ∧ c.toNat ≤ 122) := by
  have hletter : (decide (c.val ≥ 'A'.val ∧ c.val ≤ 'Z'.val) ||
      (decide (c.val ≥ 'a'.val) && decide (c.val ≤ 'z'.val))) = true := h
  rw [Bool.or_eq_true, Bool.and_eq_true, decide_eq_true_eq, decide_eq_true_eq,
    decide_eq_true_eq] at hletter
  rcases hletter with ⟨hlow, hhigh⟩ | ⟨hlow, hhigh⟩
  · exact .inl ⟨UInt32.le_iff_toNat_le.mp hlow, UInt32.le_iff_toNat_le.mp hhigh⟩
  · exact .inr ⟨UInt32.le_iff_toNat_le.mp hlow, UInt32.le_iff_toNat_le.mp hhigh⟩

theorem isWord_of_isAlpha {c : Char} (h : c.isAlpha) : isWord c := by
  have hascii : c.toNat < 0x80 := by
    have hbounds := toNat_of_isAlpha h
    omega
  have halphanum : c.isAlphanum = true := (Bool.or_eq_true _ _).mpr (.inl h)
  rw [isWord, if_pos hascii, halphanum, Bool.true_or]

theorem isWord_of_isDigit {c : Char} (h : c.isDigit) : isWord c := by
  have hascii : c.toNat < 0x80 :=
    Nat.lt_of_le_of_lt (Char.isDigit_iff_toNat.mp h).2 (by decide)
  have halphanum : c.isAlphanum = true := (Bool.or_eq_true _ _).mpr (.inr h)
  rw [isWord, if_pos hascii, halphanum, Bool.true_or]

theorem isDigit_of_isAlpha {c : Char} (h : c.isAlpha) : c.isDigit = false := by
  cases hdigit : c.isDigit with
  | false => rfl
  | true =>
    have hletter := toNat_of_isAlpha h
    have hnine : '9'.toNat = 57 := rfl
    have hbounds := Char.isDigit_iff_toNat.mp hdigit
    omega

-- The code points of the blanks, one by one.
def blankCodes : List Nat :=
  [0x9, 0xA, 0xB, 0xC, 0xD, 0x1C, 0x1D, 0x1E, 0x1F, 0x20, 0x85, 0xA0, 0x1680, 0x2000, 0x2001,
   0x2002, 0x2003, 0x2004, 0x2005, 0x2006, 0x2007, 0x2008, 0x2009, 0x200A, 0x2028, 0x2029, 0x202F,
   0x205F, 0x3000]

theorem toNat_mem_blankCodes {c : Char} (h : isBlank c) : c.toNat ∈ blankCodes := by
  obtain ⟨range, hrange, hc⟩ := List.any_eq_true.mp h
  simp only [Bool.and_eq_true, decide_eq_true_eq] at hc
  simp only [blanks, List.mem_cons, List.not_mem_nil, or_false] at hrange
  simp only [blankCodes, List.mem_cons, List.not_mem_nil, or_false]
  rcases hrange with rfl | rfl | rfl | rfl | rfl | rfl | rfl | rfl | rfl | rfl <;> omega

-- No character is both a blank and part of a word.
theorem isBlank_of_isWord {c : Char} (h : isWord c) : isBlank c = false := by
  have hcodes : ∀ n ∈ blankCodes, isWord (Char.ofNat n) = false := by decide +kernel
  cases hblank : isBlank c with
  | false => rfl
  | true =>
    have hword := hcodes _ (toNat_mem_blankCodes hblank)
    rw [Char.ofNat_toNat, h] at hword
    cases hword

end Text

open Text

namespace Lexeme

theorem run?_append {isPart : Char → Bool} {front rest : List Char} (hne : front ≠ [])
    (hfront : ∀ c ∈ front, isPart c) (hrest : ∀ c ∈ rest.head?, isPart c = false) :
    run? isPart (front ++ rest) = some front := by
  have hstop : rest.takeWhile isPart = [] := by
    cases rest with
    | nil => rfl
    | cons c more => simp [hrest c rfl]
  have htake : (front ++ rest).takeWhile isPart = front := by
    rw [List.takeWhile_append_of_pos hfront, hstop, List.append_nil]
  unfold run?
  rw [htake]
  cases front with
  | nil => exact absurd rfl hne
  | cons c more => rfl

theorem isPart_of_run? {isPart : Char → Bool} {text run : List Char}
    (h : run? isPart text = some run) : ∀ c ∈ run, isPart c := by
  intro c hc
  rw [(run?_eq_some h).1] at hc
  exact List.mem_takeWhile_imp hc

theorem isWord_of_endsWord {rest : List Char} (h : endsWord rest) :
    ∀ c ∈ rest.head?, isWord c = false := by
  intro c hc
  cases rest with
  | nil => cases hc
  | cons d more =>
    cases hc
    simpa [endsWord] using h

-- Characters of words do not go on behind a word.
theorem stops_of_endsWord {isPart : Char → Bool} {rest : List Char} (h : endsWord rest)
    (hpart : ∀ c, isPart c → isWord c) : ∀ c ∈ rest.head?, isPart c = false := by
  intro c hc
  have hword := isWord_of_endsWord h c hc
  cases hpartc : isPart c with
  | false => rfl
  | true => rw [hpart c hpartc] at hword; cases hword

end Lexeme

namespace Terminal

open Lexeme

-- A terminal of one spelling is found wherever that stands, if a keyword is a whole word.
theorem first?_spelling {terminal : Terminal} {spelling rest : List Char}
    (h : terminal.spelling? = some spelling)
    (hrest : terminal.category = .keyword → endsWord rest) :
    first? (spelling ++ rest) = some (terminal, spelling) := by
  cases terminal <;> cases h
  case intKeyword =>
    have hends := hrest rfl
    simp [first?, all, lexeme?, spelling?, category, hends]
  case returnKeyword =>
    have hends := hrest rfl
    simp [first?, all, lexeme?, spelling?, category, hends]
  all_goals rfl

-- If no spelling stands at the front of a text, there are three terminals to try.
theorem first?_of_unspelled {text : List Char}
    (h : ∀ (terminal : Terminal) spelling, terminal.spelling? = some spelling →
      terminal.lexeme? text = none) :
    first? text = [hexadecimal, decimal, identifier].findSome? fun terminal =>
      (terminal.lexeme? text).map fun lexeme => (terminal, lexeme) := by
  have hspelled : ∀ terminal : Terminal, terminal.spelling?.isSome →
      terminal.lexeme? text = none := by
    intro terminal hsome
    obtain ⟨spelling, hspelling⟩ := Option.isSome_iff_exists.mp hsome
    exact h terminal spelling hspelling
  have hfront : ∀ terminal ∈ all.take 13, terminal.spelling?.isSome := by decide
  have hnone : (all.take 13).findSome? (fun terminal =>
      (terminal.lexeme? text).map fun lexeme => (terminal, lexeme)) = none := by
    rw [List.findSome?_eq_none_iff]
    intro terminal hmem
    rw [hspelled terminal (hfront terminal hmem), Option.map_none]
  have hall : all = all.take 13 ++ [hexadecimal, decimal, identifier] := rfl
  rw [first?, hall, List.findSome?_append, hnone, Option.none_or]

theorem lexeme?_of_not_isPrefixOf {terminal : Terminal} {spelling text : List Char}
    (h : terminal.spelling? = some spelling) (hfront : spelling.isPrefixOf text = false) :
    terminal.lexeme? text = none := by
  simp [lexeme?, h, hfront]

theorem lexeme?_eq_spelling {terminal : Terminal} {spelling text lexeme : List Char}
    (hspelling : terminal.spelling? = some spelling) (h : terminal.lexeme? text = some lexeme) :
    lexeme = spelling := by
  simp only [lexeme?, hspelling, Option.ite_none_right_eq_some, Option.some.injEq] at h
  exact h.2.symm

theorem exists_of_lexeme?_hexadecimal {text lexeme : List Char}
    (h : hexadecimal.lexeme? text = some lexeme) :
    ∃ rest digits, text = '0' :: 'x' :: rest ∧ run? isHexDigit rest = some digits ∧
      lexeme = '0' :: 'x' :: digits := by
  simp only [lexeme?, spelling?] at h
  split at h
  · next rest _ =>
    obtain ⟨digits, hdigits, rfl⟩ := Option.map_eq_some_iff.mp h
    exact ⟨rest, digits, rfl, hdigits, rfl⟩
  · simp_all
  · simp_all
  · cases h

-- A hexadecimal literal is found although its first digit is a decimal one.
theorem first?_of_hexadecimal {text lexeme : List Char}
    (h : hexadecimal.lexeme? text = some lexeme) : first? text = some (hexadecimal, lexeme) := by
  obtain ⟨rest, digits, rfl, _, _⟩ := exists_of_lexeme?_hexadecimal h
  have hspelled : ∀ (terminal : Terminal) spelling, terminal.spelling? = some spelling →
      terminal.lexeme? ('0' :: 'x' :: rest) = none := by
    intro terminal spelling hspelling
    apply lexeme?_of_not_isPrefixOf hspelling
    cases terminal <;> cases hspelling <;> rfl
  rw [first?_of_unspelled hspelled, List.findSome?_cons, h, Option.map_some]

-- A number that is followed by no part of a word is found as a decimal literal.
theorem first?_digits {digits rest : List Char} (hne : digits ≠ [])
    (hdigits : ∀ c ∈ digits, c.isDigit) (hrest : endsWord rest) :
    first? (digits ++ rest) = some (decimal, digits) := by
  have hrun := run?_append hne hdigits (stops_of_endsWord hrest fun c => isWord_of_isDigit)
  cases digits with
  | nil => exact absurd rfl hne
  | cons c more =>
    have hc := hdigits c (by simp)
    have hspelled : ∀ (terminal : Terminal) spelling, terminal.spelling? = some spelling →
        terminal.lexeme? (c :: more ++ rest) = none := by
      intro terminal spelling hspelling
      apply lexeme?_of_not_isPrefixOf hspelling
      cases terminal <;> cases hspelling <;> simp only [List.cons_append, List.isPrefixOf] <;>
        (rw [Bool.and_eq_false_iff]; left; rw [beq_eq_false_iff_ne]; rintro rfl; revert hc; decide)
    have hhex : lexeme? hexadecimal (c :: more ++ rest) = none := by
      simp only [lexeme?, spelling?]
      split
      · next heq =>
        exfalso
        have hsecond : (more ++ rest).head? = some 'x' := by
          simp only [List.cons_append, List.cons.injEq] at heq
          rw [heq.2]
          rfl
        cases more with
        | nil =>
          have hword := isWord_of_endsWord hrest 'x' hsecond
          revert hword
          decide
        | cons d others =>
          cases hsecond
          have hx := hdigits 'x' (by simp)
          revert hx
          decide
      · simp_all
      · simp_all
      · rfl
    have hdecimal : lexeme? decimal (c :: more ++ rest) = some (c :: more) := hrun
    rw [first?_of_unspelled hspelled]
    simp only [List.findSome?_cons, hhex, hdecimal, Option.map_none, Option.map_some]

-- A keyword is not found at the front of another word.
theorem lexeme?_keyword_eq_none {terminal : Terminal} {spelling name rest : List Char}
    (h : terminal.spelling? = some spelling) (hkeyword : terminal.category = .keyword)
    (hspelling : ∀ c ∈ spelling, c.isAlpha) (hname : ∀ c ∈ name, c.isAlpha)
    (hother : name ≠ spelling) (hrest : endsWord rest) :
    terminal.lexeme? (name ++ rest) = none := by
  by_cases hfront : spelling.isPrefixOf (name ++ rest) = true
  · have hends : endsWord ((name ++ rest).drop spelling.length) = false := by
      rcases List.prefix_or_prefix_of_prefix (List.isPrefixOf_iff_prefix.mp hfront)
        (List.prefix_append name rest) with ⟨more, rfl⟩ | ⟨extra, rfl⟩
      · cases more with
        | nil => simp at hother
        | cons c others =>
          have hword := isWord_of_isAlpha (hname c (by simp))
          simp [endsWord, hword]
      · cases extra with
        | nil => simp at hother
        | cons c others =>
          -- The keyword would go on in the text behind the name.
          exfalso
          have hletter := isWord_of_isAlpha (hspelling c (by simp))
          rw [List.isPrefixOf_iff_prefix, List.prefix_append_right_inj] at hfront
          obtain ⟨left, rfl⟩ := hfront
          have hword := isWord_of_endsWord hrest c rfl
          rw [hletter] at hword
          cases hword
    simp [lexeme?, h, hkeyword, hends]
  · rw [Bool.not_eq_true] at hfront
    exact lexeme?_of_not_isPrefixOf h hfront

-- What may be the name of a function: letters, but no keyword.
structure IsName (name : List Char) : Prop where
  nonempty : name ≠ []
  letters : ∀ c ∈ name, c.isAlpha
  notInt : name ≠ ['i', 'n', 't']
  notReturn : name ≠ ['r', 'e', 't', 'u', 'r', 'n']

-- A name that is followed by no part of a word is found as an identifier.
theorem first?_name {name rest : List Char} (h : IsName name) (hrest : endsWord rest) :
    first? (name ++ rest) = some (identifier, name) := by
  have hrun := run?_append h.nonempty h.letters
    (stops_of_endsWord hrest fun c => isWord_of_isAlpha)
  have hint : intKeyword.lexeme? (name ++ rest) = none :=
    lexeme?_keyword_eq_none rfl rfl (by simp) h.letters h.notInt hrest
  have hreturn : returnKeyword.lexeme? (name ++ rest) = none :=
    lexeme?_keyword_eq_none rfl rfl (by simp) h.letters h.notReturn hrest
  obtain ⟨hne, hletters, _, _⟩ := h
  cases name with
  | nil => exact absurd rfl hne
  | cons c more =>
    have hc := hletters c (by simp)
    have hhead : ∀ d, d.isAlpha = false → (d == c) = false := by
      intro d hd
      rw [beq_eq_false_iff_ne]
      rintro rfl
      rw [hc] at hd
      cases hd
    have hspelled : ∀ (terminal : Terminal) spelling, terminal.spelling? = some spelling →
        terminal.lexeme? (c :: more ++ rest) = none := by
      intro terminal spelling hspelling
      cases terminal <;> cases hspelling
      case intKeyword => exact hint
      case returnKeyword => exact hreturn
      all_goals
        refine lexeme?_of_not_isPrefixOf rfl ?_
        rw [List.cons_append, List.isPrefixOf, hhead _ (by decide), Bool.false_and]
    have hhex : lexeme? hexadecimal (c :: more ++ rest) = none := by
      simp only [lexeme?, spelling?]
      split
      · next heq =>
        simp only [List.cons_append, List.cons.injEq] at heq
        exfalso
        rw [heq.1] at hc
        revert hc
        decide
      · simp_all
      · simp_all
      · rfl
    have hdecimal : lexeme? decimal (c :: more ++ rest) = none := by
      have hdigit := isDigit_of_isAlpha hc
      simp [lexeme?, spelling?, run?, hdigit]
    have hidentifier : lexeme? identifier (c :: more ++ rest) = some (c :: more) := hrun
    rw [first?_of_unspelled hspelled]
    simp only [List.findSome?_cons, hhex, hdecimal, hidentifier, Option.map_none, Option.map_some]

theorem lexeme?_of_first? {terminal : Terminal} {text lexeme : List Char}
    (h : first? text = some (terminal, lexeme)) : terminal.lexeme? text = some lexeme := by
  obtain ⟨tried, _, htried⟩ := List.exists_of_findSome?_eq_some h
  obtain ⟨found, hfound, heq⟩ := Option.map_eq_some_iff.mp htried
  cases heq
  exact hfound

-- A keyword that is found as an identifier goes on as a word, but not with a letter.
theorem exists_word_of_identifier {terminal : Terminal} {spelling text : List Char}
    (hkeyword : terminal.spelling? = some spelling) (hne : terminal ≠ identifier)
    (h : first? text = some (identifier, spelling)) :
    ∃ c others, text = spelling ++ c :: others ∧ isWord c ∧ c.isAlpha = false := by
  obtain ⟨hrun, _⟩ := run?_eq_some (lexeme?_of_first? h)
  have htext : text = spelling ++ text.dropWhile Char.isAlpha := by
    conv => lhs; rw [← List.takeWhile_append_dropWhile (p := Char.isAlpha) (l := text), ← hrun]
  have hletter := List.head?_dropWhile_not Char.isAlpha text
  generalize text.dropWhile Char.isAlpha = rest at htext hletter
  subst htext
  cases hends : endsWord rest with
  | true =>
    rw [first?_spelling hkeyword fun _ => hends] at h
    cases h
    exact absurd rfl hne
  | false =>
    cases rest with
    | nil => cases hends
    | cons c others =>
      exact ⟨c, others, rfl, by simpa [endsWord] using hends, by simpa using hletter⟩

-- No parenthesis follows such an identifier.
theorem identifier_ne_keyword (terminal : Terminal) {spelling text opening : List Char}
    (hkeyword : terminal.spelling? = some spelling) (hne : terminal ≠ identifier)
    (h : first? text = some (identifier, spelling))
    (hnext : first? ((text.drop spelling.length).dropWhile isBlank) = some (leftParen, opening)) :
    False := by
  obtain ⟨c, others, rfl, hword, _⟩ := exists_word_of_identifier hkeyword hne h
  have hblank := isBlank_of_isWord hword
  simp only [List.drop_left, List.dropWhile_cons, hblank, Bool.false_eq_true, if_false] at hnext
  have hopening := lexeme?_of_first? hnext
  have hc : '(' = c := by
    simp only [lexeme?, spelling?, List.isPrefixOf] at hopening
    by_contra hother
    simp [beq_eq_false_iff_ne.mpr hother] at hopening
  rw [← hc] at hword
  revert hword
  decide

-- An identifier in front of a parenthesis may be the name of a function.
theorem isName_of_first? {text name opening : List Char}
    (h : first? text = some (identifier, name))
    (hnext : first? ((text.drop name.length).dropWhile isBlank) = some (leftParen, opening)) :
    IsName name := by
  have hrun : run? Char.isAlpha text = some name := lexeme?_of_first? h
  refine ⟨(run?_eq_some hrun).2, isPart_of_run? hrun, ?_, ?_⟩
  · rintro rfl
    exact identifier_ne_keyword intKeyword rfl (by decide) h hnext
  · rintro rfl
    exact identifier_ne_keyword returnKeyword rfl (by decide) h hnext

end Terminal

end TinyC
