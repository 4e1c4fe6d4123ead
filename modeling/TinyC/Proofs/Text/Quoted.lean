import TinyC.Proofs.Numeral

namespace TinyC.Text

open Numeral (spelled)

theorem digitValue_hexDigit {d : Nat} (h : d < 16) : Numeral.digitValue (hexDigit d) = d := by
  revert d
  decide

theorem length_hexDigits (width n : Nat) : (hexDigits width n).length = width := by
  induction width generalizing n with
  | zero => rfl
  | succ width ih => simp [hexDigits, ih]

-- Enough digits spell the number.
theorem spelled_hexDigits {width n : Nat} (h : n < 16 ^ width) :
    spelled .sixteen (hexDigits width n) = n := by
  induction width generalizing n with
  | zero =>
    have hzero : n = 0 := by simpa using h
    rw [hzero]
    rfl
  | succ width ih =>
    have hhigh : n / 16 < 16 ^ width := by
      rw [pow_succ] at h
      omega
    have hlow : n % 16 < 16 := Nat.mod_lt n (by decide)
    rw [hexDigits, Numeral.spelled_append_singleton, ih hhigh, digitValue_hexDigit hlow,
      Numeral.Base.radix]
    omega

theorem newline_not_mem_hexDigits (width n : Nat) : '\n' ∉ hexDigits width n := by
  induction width generalizing n with
  | zero => exact List.not_mem_nil
  | succ width ih =>
    have hdigit : ∀ d < 16, '\n' ≠ hexDigit d := by decide
    have hlast := hdigit (n % 16) (Nat.mod_lt n (by decide))
    simp [hexDigits, ih, hlast]

-- The character that a quotation begins with, and the rest of it.
def unquoteChar? : List Char → Option (Char × List Char)
  | '\\' :: 'n' :: rest => some ('\n', rest)
  | '\\' :: 'r' :: rest => some ('\r', rest)
  | '\\' :: 't' :: rest => some ('\t', rest)
  | '\\' :: 'x' :: rest => some (.ofNat (spelled .sixteen (rest.take 2)), rest.drop 2)
  | '\\' :: 'u' :: rest => some (.ofNat (spelled .sixteen (rest.take 4)), rest.drop 4)
  | '\\' :: 'U' :: rest => some (.ofNat (spelled .sixteen (rest.take 8)), rest.drop 8)
  | '\\' :: c :: rest => some (c, rest)
  | c :: rest => some (c, rest)
  | [] => none

theorem ofNat_take_hexDigits (width : Nat) {c : Char} (h : c.toNat < 16 ^ width)
    (rest : List Char) :
    Char.ofNat (spelled .sixteen ((hexDigits width c.toNat ++ rest).take width)) = c := by
  rw [List.take_left' (length_hexDigits width _), spelled_hexDigits h, Char.ofNat_toNat]

theorem drop_hexDigits (width n : Nat) (rest : List Char) :
    (hexDigits width n ++ rest).drop width = rest :=
  List.drop_left' (length_hexDigits width n)

theorem unquoteChar?_codePointEscape (c : Char) (rest : List Char) :
    unquoteChar? (codePointEscape c ++ rest) = some (c, rest) := by
  have hvalid : c.toNat < 16 ^ 8 := c.val.toNat_lt
  unfold codePointEscape
  split
  · next hshort =>
    simp only [List.cons_append, unquoteChar?, drop_hexDigits,
      ofNat_take_hexDigits 2 hshort]
  · split
    · next hmiddle =>
      simp only [List.cons_append, unquoteChar?, drop_hexDigits,
        ofNat_take_hexDigits 4 hmiddle]
    · simp only [List.cons_append, unquoteChar?, drop_hexDigits, ofNat_take_hexDigits 8 hvalid]

-- The marks around a quotation.
def IsMark (mark : Char) : Prop := mark = '\'' ∨ mark = '"'

theorem isMark_quotationMark (text : List Char) : IsMark (quotationMark text) := by
  unfold quotationMark
  split
  · exact .inr rfl
  · exact .inl rfl

section

variable {mark : Char}

theorem IsMark.ne (hmark : IsMark mark) {c : Char} (h : c ≠ '\'' ∧ c ≠ '"') : c ≠ mark := by
  rintro rfl
  rcases hmark with hsingle | hdouble
  · exact h.1 hsingle
  · exact h.2 hdouble

-- A character is read back from its quotation, whatever comes behind that.
theorem unquoteChar?_quotedChar (hmark : IsMark mark) (c : Char) (rest : List Char) :
    unquoteChar? (quotedChar mark c ++ rest) = some (c, rest) := by
  unfold quotedChar
  split
  · next hescaped =>
    rw [Bool.or_eq_true, beq_iff_eq, beq_iff_eq] at hescaped
    rcases hescaped with rfl | rfl
    · rcases hmark with rfl | rfl <;> rfl
    · rfl
  · next hplain =>
    have hbackslash : c ≠ '\\' := by
      rintro rfl
      simp at hplain
    split
    · next hc => rw [beq_iff_eq.mp hc]; rfl
    · split
      · next hc => rw [beq_iff_eq.mp hc]; rfl
      · split
        · next hc => rw [beq_iff_eq.mp hc]; rfl
        · split
          · rw [List.singleton_append]
            unfold unquoteChar?
            split <;> simp_all
          · exact unquoteChar?_codePointEscape c rest

theorem quotedChar_append_inj (hmark : IsMark mark) {c d : Char} {rest last : List Char}
    (h : quotedChar mark c ++ rest = quotedChar mark d ++ last) : c = d ∧ rest = last := by
  have hread := unquoteChar?_quotedChar hmark c rest
  rw [h, unquoteChar?_quotedChar hmark d last] at hread
  cases hread
  exact ⟨rfl, rfl⟩

theorem quotedChar_ne_nil (mark c : Char) : quotedChar mark c ≠ [] := by
  unfold quotedChar codePointEscape
  grind

theorem flatMap_quotedChar_inj (hmark : IsMark mark) {first second : List Char}
    (h : first.flatMap (quotedChar mark) = second.flatMap (quotedChar mark)) : first = second := by
  induction first generalizing second with
  | nil =>
    cases second with
    | nil => rfl
    | cons d second => simp [quotedChar_ne_nil] at h
  | cons c first ih =>
    cases second with
    | nil => simp [quotedChar_ne_nil] at h
    | cons d second =>
      rw [List.flatMap_cons, List.flatMap_cons] at h
      obtain ⟨rfl, hrest⟩ := quotedChar_append_inj hmark h
      rw [ih hrest]

theorem newline_not_mem_quotedChar (hmark : IsMark mark) (c : Char) :
    '\n' ∉ quotedChar mark c := by
  have hprintable : isPrintable '\n' = false := by decide
  have hmarked : '\n' ≠ mark := hmark.ne (by decide)
  have hdigits := newline_not_mem_hexDigits
  unfold quotedChar codePointEscape
  grind

end

-- A text can be told from its quotation.
theorem quoted_inj {first second : String} (h : quoted first = quoted second) :
    first = second := by
  have hchars : quotedChars first.toList = quotedChars second.toList := String.ofList_injective h
  simp only [quotedChars, List.cons_append, List.cons.injEq] at hchars
  obtain ⟨hmark, htext⟩ := hchars
  rw [hmark] at htext
  have hsame := List.append_cancel_right htext
  exact String.toList_injective (flatMap_quotedChar_inj (isMark_quotationMark _) hsame)

theorem newline_not_mem_quoted (text : String) : '\n' ∉ (quoted text).toList := by
  have hmark := isMark_quotationMark text.toList
  have hne : '\n' ≠ quotationMark text.toList := hmark.ne (by decide)
  rw [quoted, String.toList_ofList, quotedChars]
  simp only [List.cons_append, List.mem_cons, List.mem_append, List.mem_flatMap,
    List.not_mem_nil, or_false, not_or, not_exists, not_and]
  exact ⟨hne, fun c _ => newline_not_mem_quotedChar hmark c, hne⟩

-- A missing text is told from every text, since it stands there without marks.
theorem quotedOrNone_inj {first second : Option String}
    (h : quotedOrNone first = quotedOrNone second) : first = second := by
  have hnone : ∀ text, "None" ≠ quoted text := by
    intro text heq
    have hchars := congrArg String.toList heq
    simp only [quoted, quotedChars, String.toList_ofList, List.cons_append] at hchars
    exact (isMark_quotationMark text.toList).ne (by decide) (List.cons.inj hchars).1
  cases first with
  | none =>
    cases second with
    | none => rfl
    | some text => exact absurd h (hnone text)
  | some text =>
    cases second with
    | none => exact absurd h.symm (hnone text)
    | some other => rw [quoted_inj h]

theorem newline_not_mem_quotedOrNone (text : Option String) :
    '\n' ∉ (quotedOrNone text).toList := by
  cases text with
  | none => decide
  | some text => exact newline_not_mem_quoted text

end TinyC.Text
