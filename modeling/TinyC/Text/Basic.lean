import TinyC.Text.Character

namespace TinyC.Text

-- Text without the blanks that it ends in.
def trimEnd (text : List Char) : List Char := (text.reverse.dropWhile isBlank).reverse

-- Text without the blanks around it.
def trim (text : List Char) : List Char := trimEnd (text.dropWhile isBlank)

-- Every line boundary of Unicode and ASCII ends a line of a diagnostic, not only the newline.
def endsLine (c : Char) : Bool :=
  ('\n' ≤ c && c ≤ '\r') || ('\x1c' ≤ c && c ≤ '\x1e') || c == '\x85' || c == '\u2028' ||
    c == '\u2029'

def firstLine (text : List Char) : List Char := text.takeWhile fun c => !endsLine c

-- The text of a file with each of its line ends, CR LF or a lone CR, as one newline.
def unifyNewlines : List Char → List Char
  | '\r' :: '\n' :: rest => '\n' :: unifyNewlines rest
  | '\r' :: rest => '\n' :: unifyNewlines rest
  | c :: rest => c :: unifyNewlines rest
  | [] => []

-- The first `limit` characters, with dots in place of what is cut.
def abbreviated (limit : Nat) (text : List Char) : List Char :=
  if limit < text.length then text.take limit ++ ['.', '.', '.'] else text

def hexDigit (d : Nat) : Char := Char.ofNat (if d < 10 then 48 + d else 87 + d)

-- The last `width` hexadecimal digits of a number, the most significant first.
def hexDigits : Nat → Nat → List Char
  | 0, _ => []
  | width + 1, n => hexDigits width (n / 16) ++ [hexDigit (n % 16)]

-- The shortest of the three fixed widths that holds the code point.
def codePointEscape (c : Char) : List Char :=
  if c.toNat < 0x100 then '\\' :: 'x' :: hexDigits 2 c.toNat
  else if c.toNat < 0x10000 then '\\' :: 'u' :: hexDigits 4 c.toNat
  else '\\' :: 'U' :: hexDigits 8 c.toNat

def quotedChar (mark c : Char) : List Char :=
  if c == mark || c == '\\' then ['\\', c]
  else if c == '\n' then ['\\', 'n']
  else if c == '\r' then ['\\', 'r']
  else if c == '\t' then ['\\', 't']
  else if isPrintable c then [c]
  else codePointEscape c

-- Double quotes are used only where they save an escape.
def quotationMark (text : List Char) : Char :=
  if text.contains '\'' && !text.contains '"' then '"' else '\''

def quotedChars (text : List Char) : List Char :=
  let mark := quotationMark text
  mark :: text.flatMap (quotedChar mark) ++ [mark]

def quoted (text : String) : String := String.ofList (quotedChars text.toList)

-- Text that may be missing, as diagnostics show it.
def quotedOrNone : Option String → String
  | none => "None"
  | some text => quoted text

end TinyC.Text
