import TinyC.Log
import TinyC.Token.Basic
import TinyC.Token.Lexeme
import TinyC.Text.Basic

namespace TinyC

-- No terminal matches at a place: the text from there on, and the place.
structure LexError where
  remaining : List Char
  place : Position
deriving DecidableEq, Repr

def LexError.message (error : LexError) : String :=
  let line := String.ofList (Text.abbreviated 20 (Text.firstLine error.remaining))
  s!"Lexer error at {error.place.shown}: Unrecognized token at {Text.quoted line}"

-- Identifiers and literals keep their text.
def Token.ofLexeme (terminal : Terminal) (lexeme : List Char) (place : Position) : Token :=
  match terminal.spelling? with
  | some _ => ⟨terminal, none, place⟩
  | none => ⟨terminal, some (String.ofList lexeme), place⟩

-- A lexer that can be resumed: its text may grow, and each run goes on from the cursor. The
-- cursor may be set anywhere, but a run leaves it within the text.
structure Lexer where
  source : List Char
  offset : Int
  place : Position
  held : List Token

namespace Lexer

-- What scanning a text has found where it stops: at its end, before what it cannot match, or
-- behind a token that the log cannot show, which is not among those found.
structure Scan where
  found : List Token
  isCut : Bool
  left : List Char
  place : Position
  log : Log

-- Reads tokens, each with the blanks after it, behind those already found (newest first), as
-- long as the log can show them.
def scan (isShown : Token → Bool) (found : List Token) (text : List Char) (place : Position)
    (log : Log) : Scan :=
  match _ : Terminal.first? text with
  | none => ⟨found.reverse, false, text, place, log⟩
  | some (terminal, lexeme) =>
    let token := Token.ofLexeme terminal lexeme place
    let after := text.drop lexeme.length
    let left := after.dropWhile Text.isBlank
    let next := (place.advance lexeme).advance (after.takeWhile Text.isBlank)
    if isShown token then
      scan isShown (token :: found) left next (log.note fun _ => s!"lex: {token.shown}")
    else ⟨found.reverse, true, left, next, log⟩
termination_by text.length
decreasing_by
  have hlexeme : 0 < lexeme.length := List.length_pos_iff.mpr (Terminal.first?_ne_nil ‹_›)
  have htext : 0 < text.length := by
    apply List.length_pos_iff.mpr
    rintro rfl
    simp_all
  have hdrop := (List.dropWhile_sublist Text.isBlank (l := text.drop lexeme.length)).length_le
  simp only [List.length_drop] at hdrop
  omega

-- The tokens of a text that is read up to its end.
def Scan.result (scan : Scan) : Except LexError (List Token) :=
  if scan.left.isEmpty then .ok scan.found else .error ⟨scan.left, scan.place⟩

def ofSource (source : String) : Lexer := ⟨source.toList, 0, .start, []⟩

def feed (lexer : Lexer) (text : String) : Lexer :=
  { lexer with source := lexer.source ++ text.toList }

-- Moves the cursor without regard to the text.
def seek (lexer : Lexer) (offset : Int) (place : Position) : Lexer :=
  { lexer with offset := offset, place := place }

-- The text ahead of the cursor. All of it is, if the cursor stands before its start.
def ahead (lexer : Lexer) : List Char := lexer.source.drop lexer.offset.toNat

-- The blanks that the place moves over before the first token. A cursor before the start is
-- also an offset from the end of the text, and the blanks before that one do not count.
def countedBlanks (lexer : Lexer) : List Char :=
  let blanks := lexer.ahead.takeWhile Text.isBlank
  if lexer.offset < 0 then blanks.drop (lexer.source.length + lexer.offset).toNat else blanks

-- Scans what lies ahead of the cursor and holds its tokens in place of the former ones. Text
-- that no terminal matches stays ahead of the cursor.
def run (isShown : Token → Bool) (lexer : Lexer) (log : Log) : Scan × Lexer :=
  let scan := scan isShown [] (lexer.ahead.dropWhile Text.isBlank)
    (lexer.place.advance lexer.countedBlanks) log
  let lexer := { lexer with
    offset := lexer.source.length - scan.left.length
    place := scan.place
    held := scan.found }
  (scan, lexer)

-- Reads the tokens ahead of the cursor.
def tokenize (lexer : Lexer) (log : Log) : Except LexError (List Token) × Lexer × Log :=
  let (scan, lexer) := lexer.run (fun _ => true) log
  (scan.result, lexer, scan.log)

-- Why a run that goes on from a cursor ends early.
inductive Fault where
  | unmatched (error : LexError)
  -- The place of a token is too far off to be shown in the log.
  | badNumeral (fault : Numeral.Fault)
  -- The cursor does not fit in a machine word, and no text is searched from there.
  | outOfReach
deriving DecidableEq, Repr

-- Reads the tokens ahead of the cursor, wherever that was set.
def resume (lexer : Lexer) (log : Log) : Except Fault (List Token) × Lexer × Log :=
  if -0x8000000000000000 ≤ lexer.offset ∧ lexer.offset < 0x8000000000000000 then
    let (scan, lexer) := lexer.run (fun token => log.isSilent || token.place.isWritable) log
    let result := if scan.isCut then .error (.badNumeral .tooLong)
      else scan.result.mapError .unmatched
    (result, lexer, scan.log)
  else (.error .outOfReach, { lexer with held := [] }, log)

end Lexer

-- The tokens of a whole text.
def tokenize (source : String) (log : Log) : Except LexError (List Token) × Log :=
  let (result, _, log) := (Lexer.ofSource source).tokenize log
  (result, log)

end TinyC
