import Mathlib.Algebra.Group.Nat.Defs
import Mathlib.Data.List.TakeWhile
import Mathlib.Data.Nat.Digits.Defs
import TinyC.Numeral
import TinyC.Token.Lexeme

namespace TinyC.Numeral

open TinyC.Text

def Base.isDigit : Base → Char → Bool
  | .ten, c => c.isDigit
  | .sixteen, c => Lexeme.isHexDigit c

-- The value of a digit of either base.
def digitValue (c : Char) : Nat :=
  if c.isDigit then c.toNat - 48 else if 'a' ≤ c && c ≤ 'f' then c.toNat - 87 else c.toNat - 55

-- The number that digits spell.
def spelled (base : Base) (digits : List Char) : Nat :=
  positional base.radix (digits.map digitValue)

-- Each digit counts as often as the power of the radix says that belongs to its position.
theorem spelled_eq_ofDigits (base : Base) (digits : List Char) :
    spelled base digits = Nat.ofDigits base.radix (digits.reverse.map digitValue) := by
  rw [spelled, positional, List.map_reverse, Nat.ofDigits_eq_foldr, List.foldr_reverse]
  simp only [Nat.cast_id, Nat.mul_comm, Nat.add_comm]

-- What holds of all ASCII characters is found by looking at each.
theorem forall_ascii {p : Char → Prop} (h : ∀ n < 128, p (Char.ofNat n)) {c : Char}
    (hc : c.toNat < 128) : p c := by
  have hp := h c.toNat hc
  rwa [Char.ofNat_toNat] at hp

theorem toNat_le_of_le {c bound : Char} (h : c ≤ bound) : c.toNat ≤ bound.toNat :=
  UInt32.le_iff_toNat_le.mp (Char.le_def.mp h)

theorem Base.ascii_of_isDigit {base : Base} {c : Char} (h : base.isDigit c) : c.toNat < 128 := by
  have hten : c.isDigit → c.toNat < 128 := by
    intro hdigit
    have hrange := (Char.isDigit_iff_toNat.mp hdigit).2
    exact Nat.lt_of_le_of_lt hrange (by decide)
  cases base with
  | ten => exact hten h
  | sixteen =>
    simp only [isDigit, Lexeme.isHexDigit, Bool.or_eq_true, Bool.and_eq_true,
      decide_eq_true_eq] at h
    rcases h with (hdigit | ⟨_, hle⟩) | ⟨_, hle⟩
    · exact hten hdigit
    · exact Nat.lt_of_le_of_lt (toNat_le_of_le hle) (by decide)
    · exact Nat.lt_of_le_of_lt (toNat_le_of_le hle) (by decide)

theorem Base.digit?_of_isDigit {base : Base} {c : Char} (h : base.isDigit c) :
    base.digit? c = some (digitValue c) := by
  have hascii : ∀ n < 128, ∀ base : Base, base.isDigit (Char.ofNat n) →
      base.digit? (Char.ofNat n) = some (digitValue (Char.ofNat n)) := by
    intro n hn base
    cases base <;> revert n <;> decide +kernel
  exact forall_ascii (p := fun c => base.isDigit c → base.digit? c = some (digitValue c))
    (fun n hn => hascii n hn base) (ascii_of_isDigit h) h

-- A digit is none of the characters that may stand around or between digits.
theorem Base.plain_of_isDigit {base : Base} {c : Char} (h : base.isDigit c) :
    isMargin c = false ∧ c ≠ '+' ∧ c ≠ '-' ∧ c ≠ '_' ∧ c ≠ 'x' ∧ c ≠ 'X' := by
  have hascii : ∀ n < 128, ∀ base : Base, base.isDigit (Char.ofNat n) →
      isMargin (Char.ofNat n) = false ∧ Char.ofNat n ≠ '+' ∧ Char.ofNat n ≠ '-' ∧
        Char.ofNat n ≠ '_' ∧ Char.ofNat n ≠ 'x' ∧ Char.ofNat n ≠ 'X' := by
    intro n hn base
    cases base <;> revert n <;> decide +kernel
  exact forall_ascii
    (p := fun c => base.isDigit c → isMargin c = false ∧ c ≠ '+' ∧ c ≠ '-' ∧ c ≠ '_' ∧ c ≠ 'x' ∧
      c ≠ 'X') (fun n hn => hascii n hn base) (ascii_of_isDigit h) h

section Reading

variable {base : Base} {digits : List Char}

theorem splitSign_digits (h : ∀ c ∈ digits, base.isDigit c) :
    splitSign digits = (false, digits) := by
  cases digits with
  | nil => rfl
  | cons c rest =>
    obtain ⟨_, hplus, hminus, _⟩ := Base.plain_of_isDigit (h c (by simp))
    unfold splitSign
    split <;> simp_all

theorem dropBaseMark_digits (h : ∀ c ∈ digits, base.isDigit c) :
    dropBaseMark base digits = digits := by
  unfold dropBaseMark
  split
  · next zero x rest =>
    obtain ⟨_, _, _, _, hlower, hupper⟩ := Base.plain_of_isDigit (h x (by simp))
    simp [hlower, hupper]
  · rfl

theorem wellSpaced_digits (h : ∀ c ∈ digits, base.isDigit c) : wellSpaced digits = true := by
  induction digits with
  | nil => rfl
  | cons c rest ih =>
    obtain ⟨_, _, _, hunderscore, _⟩ := Base.plain_of_isDigit (h c (by simp))
    have hrest := ih fun d hd => h d (by simp [hd])
    unfold wellSpaced
    split <;> simp_all

theorem filterMap_digits (h : ∀ c ∈ digits, base.isDigit c) :
    digits.filterMap base.digit? = digits.map digitValue := by
  induction digits with
  | nil => rfl
  | cons c rest ih =>
    have hrest := ih fun d hd => h d (by simp [hd])
    simp [Base.digit?_of_isDigit (h c (by simp)), hrest]

-- Digits alone spell the number that is read, unless there are too many to the base ten.
theorem read_digits (hne : digits ≠ []) (h : ∀ c ∈ digits, base.isDigit c) :
    read base (String.ofList digits) =
      if base = .ten ∧ digitLimit < digits.length then .error (.tooManyDigits digits.length)
      else .ok (spelled base digits) := by
  have hpart : ∀ c ∈ digits, (c == '_' || (base.digit? c).isSome) = true := by
    intro c hc
    simp [Base.digit?_of_isDigit (h c hc)]
  have hmargin : digits.dropWhile isMargin = digits := by
    cases digits with
    | nil => rfl
    | cons c rest =>
      obtain ⟨hc, _⟩ := Base.plain_of_isDigit (h c (by simp))
      simp [hc]
  have hhead : (digits.head? == some '_') = false := by
    cases digits with
    | nil => rfl
    | cons c rest =>
      obtain ⟨_, _, _, hunderscore, _⟩ := Base.plain_of_isDigit (h c (by simp))
      simpa using hunderscore
  have htake := List.takeWhile_eq_self_iff.mpr hpart
  have hdrop := List.dropWhile_eq_nil_iff.mpr hpart
  have hempty : (digits.map digitValue).isEmpty = false := by simpa using hne
  simp only [read, String.toList_ofList, hmargin, splitSign_digits h, dropBaseMark_digits h, htake,
    hdrop, hhead, wellSpaced_digits h, filterMap_digits h, hempty, spelled]
  by_cases hlong : base = .ten ∧ digitLimit < digits.length
  · simp [hlong]
  · simp [hlong]

end Reading

section Decimal

theorem digitsOnto_eq (n : Nat) (rest : List Char) :
    digitsOnto n rest = decimalDigits n ++ rest := by
  induction n using Nat.strongRecOn generalizing rest with
  | ind n ih =>
    rw [decimalDigits, digitsOnto.eq_def n rest, digitsOnto.eq_def n []]
    by_cases h : n < 10
    · simp [h]
    · have hless : n / 10 < n := by omega
      simp only [h, if_false]
      rw [ih _ hless, ih _ hless [Char.ofNat (48 + n % 10)]]
      simp

theorem decimalDigits_of_lt {n : Nat} (h : n < 10) : decimalDigits n = [Char.ofNat (48 + n)] := by
  rw [decimalDigits, digitsOnto]
  simp [h, Nat.mod_eq_of_lt h]

theorem decimalDigits_of_le {n : Nat} (h : 10 ≤ n) :
    decimalDigits n = decimalDigits (n / 10) ++ [Char.ofNat (48 + n % 10)] := by
  rw [← digitsOnto_eq, decimalDigits, digitsOnto]
  simp [Nat.not_lt.mpr h]

theorem isDigit_digit {d : Nat} (h : d < 10) : (Char.ofNat (48 + d)).isDigit := by
  revert d
  decide

theorem digitValue_digit {d : Nat} (h : d < 10) : digitValue (Char.ofNat (48 + d)) = d := by
  revert d
  decide

theorem decimalDigits_ne_nil (n : Nat) : decimalDigits n ≠ [] := by
  by_cases h : n < 10
  · simp [decimalDigits_of_lt h]
  · simp [decimalDigits_of_le (Nat.not_lt.mp h)]

theorem isDigit_decimalDigits (n : Nat) : ∀ c ∈ decimalDigits n, c.isDigit := by
  induction n using Nat.strongRecOn with
  | ind n ih =>
    by_cases h : n < 10
    · simpa [decimalDigits_of_lt h] using isDigit_digit h
    · intro c hc
      rw [decimalDigits_of_le (Nat.not_lt.mp h), List.mem_append, List.mem_singleton] at hc
      rcases hc with hc | rfl
      · exact ih _ (by omega) c hc
      · exact isDigit_digit (Nat.mod_lt n (by decide))

theorem spelled_append_singleton (base : Base) (digits : List Char) (c : Char) :
    spelled base (digits ++ [c]) = spelled base digits * base.radix + digitValue c := by
  simp [spelled, positional]

-- Writing a number in decimal and reading its digits gives the number back.
theorem spelled_decimalDigits (n : Nat) : spelled .ten (decimalDigits n) = n := by
  induction n using Nat.strongRecOn with
  | ind n ih =>
    by_cases h : n < 10
    · rw [decimalDigits_of_lt h]
      simpa [spelled, positional] using digitValue_digit h
    · rw [decimalDigits_of_le (Nat.not_lt.mp h), spelled_append_singleton, ih _ (by omega),
        digitValue_digit (Nat.mod_lt n (by decide)), Base.radix]
      omega

theorem length_decimalDigits_le {n k : Nat} (h : n < 10 ^ (k + 1)) :
    (decimalDigits n).length ≤ k + 1 := by
  induction k generalizing n with
  | zero => simp [decimalDigits_of_lt h]
  | succ k ih =>
    by_cases hn : n < 10
    · simp [decimalDigits_of_lt hn]
    · have hdiv : n / 10 < 10 ^ (k + 1) := by
        rw [Nat.div_lt_iff_lt_mul (by decide), ← Nat.pow_succ]
        exact h
      have hlength := ih hdiv
      simp only [decimalDigits_of_le (Nat.not_lt.mp hn), List.length_append, List.length_singleton]
      omega

-- Words have few enough digits to be read and written.
theorem length_decimalDigits_word {n : Nat} (h : n < 0x100000000) :
    (decimalDigits n).length ≤ digitLimit := by
  have hbound : n < 10 ^ (9 + 1) := by omega
  exact Nat.le_trans (length_decimalDigits_le hbound) (by decide)

theorem written_of_word {value : Int} (h : 0 ≤ value ∧ value < 0x100000000) :
    written value = .ok (String.ofList (decimalDigits value.toNat)) := by
  obtain ⟨n, rfl⟩ := Int.eq_ofNat_of_zero_le h.1
  have hlength := length_decimalDigits_word (n := n) (by omega)
  have hwritable : isWritable n = true := decide_eq_true hlength
  rw [written, if_pos hwritable]
  rfl

end Decimal

end TinyC.Numeral
