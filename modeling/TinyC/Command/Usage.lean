import TinyC.Assembly.Target
import TinyC.Command.Switch
import TinyC.Text.Basic

namespace TinyC.Command

-- What is wrong with a command line.
inductive UsageError where
  | ambiguous (argument : String) (candidates : List String)
  -- The option takes no value.
  | ignoredValue (switch : Switch) (value : String)
  | missingValue (switch : Switch)
  | invalidTarget (name : String)
  | missingInput
  | unrecognized (arguments : List String)
deriving DecidableEq, Repr

def UsageError.message : UsageError → String
  | ambiguous argument candidates =>
    let candidates := ", ".intercalate candidates
    s!"ambiguous option: {argument} could match {candidates}"
  | ignoredValue switch value =>
    s!"argument {switch.label}: ignored explicit argument {Text.quoted value}"
  | missingValue switch => s!"argument {switch.label}: expected one argument"
  | invalidTarget name =>
    let choices := ", ".intercalate (Target.all.map fun target => Text.quoted target.name)
    s!"argument {Switch.target.label}: invalid choice: {Text.quoted name} (choose from {choices})"
  | missingInput => "the following arguments are required: input"
  | unrecognized arguments => "unrecognized arguments: " ++ " ".intercalate arguments

def targetChoices : String := "\x7b" ++ ",".intercalate (Target.all.map Target.name) ++ "\x7d"

private def unlines (lines : List String) : String :=
  String.join (lines.map fun line => line ++ "\n")

def usage : String := unlines
  ["usage: x64cc [-h] [-o OUTPUT] [-S] [--target " ++ targetChoices ++ "] [--cc CC]",
   "             [--verbose] [--trace] [--tokens] [--ast] [--pretty] [--version]",
   "             input"]

def helpText : String := usage ++ unlines
  ["",
   "Tiny C compiler for x86-64 (GNU as output)",
   "",
   "positional arguments:",
   "  input                 Input C source file",
   "",
   "options:",
   "  -h, --help            show this help message and exit",
   "  -o OUTPUT, --output OUTPUT",
   "                        Output executable (or assembly file with -S; '-' for",
   "                        stdout)",
   "  -S                    Stop after writing assembly",
   "  --target " ++ targetChoices,
   "                        Target platform (default: linux)",
   "  --cc CC               C compiler driver used to assemble and link (default:",
   "                        gcc)",
   "  --verbose, -v         Print compilation details to stderr",
   "  --trace               Log every token, parse and emit step (implies",
   "                        --verbose)",
   "  --tokens              Dump token stream and exit (debug)",
   "  --ast                 Dump AST and exit (debug)",
   "  --pretty              Print the AST back as C source and exit (debug)",
   "  --version             show program's version number and exit",
   "",
   "Targets: " ++ ", ".intercalate (Target.all.map Target.name)]

def versionText : String := "x64cc 0.1.0\n"

end TinyC.Command
