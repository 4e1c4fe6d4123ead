namespace TinyC

-- The platforms whose assembler the text is for.
inductive Target where
  | linux
  | darwin
deriving DecidableEq, Repr

namespace Target

def all : List Target := [linux, darwin]

def name : Target → String
  | linux => "linux"
  | darwin => "darwin"

def description : Target → String
  | linux => "x86-64 Linux (ELF, System V)"
  | darwin => "x86-64 macOS (Mach-O)"

-- What the symbols of the platform begin with.
def symbolHead : Target → String
  | linux => ""
  | darwin => "_"

-- The lines after the code. Without its note a Linux linker takes the stack for executable.
def trailer : Target → List String
  | linux => ["\t.section .note.GNU-stack,\"\",@progbits"]
  | darwin => []

def ofName? (name : String) : Option Target := all.find? fun target => target.name == name

end Target

end TinyC
