namespace TinyC.Command

-- The options of the command line.
inductive Switch where
  | help
  | output
  | assemblyOnly
  | target
  | driver
  | verbose
  | trace
  | tokens
  | tree
  | pretty
  | version
deriving DecidableEq, Repr

namespace Switch

def all : List Switch :=
  [help, output, assemblyOnly, target, driver, verbose, trace, tokens, tree, pretty, version]

def spellings : Switch → List String
  | help => ["-h", "--help"]
  | output => ["-o", "--output"]
  | assemblyOnly => ["-S"]
  | target => ["--target"]
  | driver => ["--cc"]
  | verbose => ["--verbose", "-v"]
  | trace => ["--trace"]
  | tokens => ["--tokens"]
  | tree => ["--ast"]
  | pretty => ["--pretty"]
  | version => ["--version"]

def takesValue : Switch → Bool
  | output | target | driver => true
  | _ => false

-- Every spelling with its option, in the order in which abbreviations are resolved.
def spelled : List (String × Switch) :=
  all.flatMap fun switch => switch.spellings.map fun spelling => (spelling, switch)

def ofSpelling? (spelling : String) : Option Switch := spelled.lookup spelling

-- How error messages name the option.
def label (switch : Switch) : String := "/".intercalate switch.spellings

end Switch

end TinyC.Command
