import TinyC.Numeral

namespace TinyC

-- What a terminal is for, as diagnostics name it.
inductive Category where
  | symbol
  | operator
  | keyword
  | integer
  | identifier
deriving DecidableEq, Repr

def Category.label : Category → String
  | .symbol => "symbol"
  | .operator => "operator"
  | .keyword => "keyword"
  | .integer => "integer"
  | .identifier => "identifier"

-- The vocabulary of the language.
inductive Terminal where
  | leftBrace
  | rightBrace
  | leftParen
  | rightParen
  | semicolon
  | minus
  | tilde
  | bang
  | plus
  | star
  | slash
  | intKeyword
  | returnKeyword
  | hexadecimal
  | decimal
  | identifier
deriving DecidableEq, Repr

namespace Terminal

-- In the order in which a lexer tries them: what is spelled in one way comes first, and
-- hexadecimal before decimal, which would take the leading zero.
def all : List Terminal :=
  [leftBrace, rightBrace, leftParen, rightParen, semicolon, minus, tilde, bang, plus, star, slash,
   intKeyword, returnKeyword, hexadecimal, decimal, identifier]

def name : Terminal → String
  | leftBrace => "LBRACE"
  | rightBrace => "RBRACE"
  | leftParen => "LPAREN"
  | rightParen => "RPAREN"
  | semicolon => "SEMI"
  | minus => "MINUS"
  | tilde => "TILDE"
  | bang => "BANG"
  | plus => "PLUS"
  | star => "STAR"
  | slash => "SLASH"
  | intKeyword => "KW_INT"
  | returnKeyword => "KW_RETURN"
  | hexadecimal => "INT_HEX"
  | decimal => "INT_DECIMAL"
  | identifier => "IDENT"

-- The text of a terminal that has only one.
def spelling? : Terminal → Option (List Char)
  | leftBrace => some ['{']
  | rightBrace => some ['}']
  | leftParen => some ['(']
  | rightParen => some [')']
  | semicolon => some [';']
  | minus => some ['-']
  | tilde => some ['~']
  | bang => some ['!']
  | plus => some ['+']
  | star => some ['*']
  | slash => some ['/']
  | intKeyword => some ['i', 'n', 't']
  | returnKeyword => some ['r', 'e', 't', 'u', 'r', 'n']
  | hexadecimal => none
  | decimal => none
  | identifier => none

-- How diagnostics write a terminal: by its spelling, or else by its name.
def label (terminal : Terminal) : String :=
  match terminal.spelling? with
  | some spelling => String.ofList spelling
  | none => terminal.name

def category : Terminal → Category
  | leftBrace | rightBrace | leftParen | rightParen | semicolon => .symbol
  | minus | tilde | bang | plus | star | slash => .operator
  | intKeyword | returnKeyword => .keyword
  | hexadecimal | decimal => .integer
  | identifier => .identifier

-- The base of an integer literal.
def base? : Terminal → Option Numeral.Base
  | hexadecimal => some .sixteen
  | decimal => some .ten
  | _ => none

end Terminal

end TinyC
