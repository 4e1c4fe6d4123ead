import TinyC.Text.Basic

namespace TinyC.Numeral

open TinyC.Text

inductive Base where
  | ten
  | sixteen
deriving DecidableEq, Repr

def Base.radix : Base → Nat
  | .ten => 10
  | .sixteen => 16

-- Decimal numerals longer than this are neither read nor written.
def digitLimit : Nat := 4300

inductive Fault where
  -- The text is no numeral of the base.
  | malformed (base : Base) (text : String)
  -- A decimal numeral to read has `count` digits.
  | tooManyDigits (count : Nat)
  -- A number to write has more digits than the limit.
  | tooLong
deriving DecidableEq, Repr

-- The digits of a number in front of `rest`.
def digitsOnto (n : Nat) (rest : List Char) : List Char :=
  let digit := Char.ofNat (48 + n % 10)
  if n < 10 then digit :: rest else digitsOnto (n / 10) (digit :: rest)

def decimalDigits (n : Nat) : List Char := digitsOnto n []

def decimalChars : Int → List Char
  | .ofNat n => decimalDigits n
  | .negSucc n => '-' :: decimalDigits (n + 1)

-- The number in decimal, however long that is.
def decimal (n : Int) : String := String.ofList (decimalChars n)

def Fault.message : Fault → String
  | .malformed base text =>
    s!"invalid literal for int() with base {decimal base.radix}: " ++
      String.ofList ((quotedChars text.toList).take 200)
  | .tooManyDigits count =>
    s!"Exceeds the limit ({decimal digitLimit} digits) for integer string conversion: " ++
      s!"value has {decimal count} digits; use sys.set_int_max_str_digits() to increase the limit"
  | .tooLong =>
    s!"Exceeds the limit ({decimal digitLimit} digits) for integer string conversion; " ++
      "use sys.set_int_max_str_digits() to increase the limit"

-- The number has no more digits than the limit.
def isWritable (n : Int) : Bool := (decimalDigits n.natAbs).length ≤ digitLimit

-- The number in decimal, if that may be written.
def written (n : Int) : Except Fault String :=
  if isWritable n then .ok (decimal n) else .error .tooLong

def hexLetterValue? (c : Char) : Option Nat :=
  if 'a' ≤ c && c ≤ 'f' then some (c.toNat - 87)
  else if 'A' ≤ c && c ≤ 'F' then some (c.toNat - 55)
  else none

def Base.digit? : Base → Char → Option Nat
  | .ten, c => digitValue? c
  | .sixteen, c => (digitValue? c).or (hexLetterValue? c)

-- What may stand around a numeral: the ASCII separators do not count as white space here.
def isMargin (c : Char) : Bool := isBlank c && !('\x1c' ≤ c && c ≤ '\x1f')

-- The sign in front of a numeral, whether it is a minus, and the text after it.
def splitSign : List Char → Bool × List Char
  | '+' :: rest => (false, rest)
  | '-' :: rest => (true, rest)
  | text => (false, text)

-- A hexadecimal numeral may announce itself by `0x`, after which one underscore may stand.
def dropBaseMark : Base → List Char → List Char
  | .sixteen, zero :: x :: rest =>
    if digitValue? zero == some 0 && (x == 'x' || x == 'X') then
      match rest with
      | '_' :: rest => rest
      | rest => rest
    else zero :: x :: rest
  | _, text => text

-- Underscores may stand singly between digits.
def wellSpaced : List Char → Bool
  | [] => true
  | ['_'] => false
  | '_' :: '_' :: _ => false
  | _ :: rest => wellSpaced rest

def positional (radix : Nat) (digits : List Nat) : Nat :=
  digits.foldl (fun value digit => value * radix + digit) 0

-- Reads a numeral with its margins, sign and base mark. The number of decimal digits is
-- bounded before the text after them is looked at.
def read (base : Base) (text : String) : Except Fault Int :=
  let (negative, unsigned) := splitSign (text.toList.dropWhile isMargin)
  let numeral := dropBaseMark base unsigned
  let isPart := fun c => c == '_' || (base.digit? c).isSome
  let run := numeral.takeWhile isPart
  let digits := run.filterMap base.digit?
  if run.head? == some '_' || !wellSpaced run then .error (.malformed base text)
  else if base == .ten && digitLimit < digits.length then .error (.tooManyDigits digits.length)
  else if digits.isEmpty || !((numeral.dropWhile isPart).all isMargin) then
    .error (.malformed base text)
  else
    let value : Int := positional base.radix digits
    .ok (if negative then -value else value)

end TinyC.Numeral
