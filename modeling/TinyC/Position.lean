import TinyC.Numeral

namespace TinyC

-- A place in a text. Lines and columns count from one; a place made by hand may be anywhere.
structure Position where
  line : Int
  column : Int
deriving DecidableEq, Repr

namespace Position

def start : Position := ⟨1, 1⟩

-- The place after a character that stands at `place`. Only the newline begins a line.
def next (place : Position) (c : Char) : Position :=
  if c = '\n' then ⟨place.line + 1, 1⟩ else ⟨place.line, place.column + 1⟩

def advance (place : Position) (text : List Char) : Position := text.foldl next place

-- Traces can show the place.
def isWritable (place : Position) : Bool :=
  Numeral.isWritable place.line && Numeral.isWritable place.column

def shown (place : Position) : String :=
  s!"L{Numeral.decimal place.line}:{Numeral.decimal place.column}"

end Position

end TinyC
