import TinyC.Command.Host
import TinyC.Compile
import TinyC.Tree.Outline
import TinyC.Tree.Source
import TinyC.Text.Basic

namespace TinyC.Command

-- A fault that no run of the command line answers for.
inductive Escape where
  | notText (fault : Text.Utf8.Fault)
  | nullInPath
  -- The target was taken away and not given again.
  | noTarget
deriving DecidableEq, Repr

def Escape.message : Escape → String
  | notText fault => fault.message
  | nullInPath => "embedded null byte"
  | noTarget => "unhashable type: 'list'"

inductive Outcome where
  | exit (code : Nat)
  | escaped (fault : Escape)
deriving DecidableEq, Repr

-- What ends a compilation, by the part of the program that answers for it.
inductive Failure where
  | lexer (message : String)
  | parser (message : String)
  | generator (message : String)
  | toolchain (message : String)
  | internal (message : String)
deriving DecidableEq, Repr

-- Literals and trees that the parts of the compiler do not provide for are internal failures.
def Failure.ofCompileError : CompileError → Failure
  | .lex error => .lexer error.message
  | .parse error =>
    match error with
    | .badNumeral _ | .noText _ => .internal error.message
    | _ => .parser error.message
  | .generate error =>
    match error with
    | .noPart _ _ | .badNumeral _ => .internal error.message
    | _ => .generator error.message
  | .render error => .internal error.message

-- That the driver is missing or rejects its input is told as it is. A driver that is there and
-- cannot be used is not provided for.
def Failure.ofLinkError (error : LinkError) : Failure :=
  match error with
  | .driverUnusable _ => .internal error.message
  | _ => .toolchain error.message

def Failure.exitCode : Failure → Nat
  | internal _ => 2
  | _ => 1

def Failure.line : Failure → String
  | lexer message => "Lexer error: " ++ message ++ "\n"
  | parser message => "Parse error: " ++ message ++ "\n"
  | generator message => "Code generation error: " ++ message ++ "\n"
  | toolchain message => "Toolchain error: " ++ message ++ "\n"
  | internal message => "Internal compiler error: " ++ message ++ "\n"

section Run

variable {m : Type → Type} [Monad m] (host : Host m)

-- Writes a message of the log, if messages of its level are wanted.
def note (choices : Choices) (logger : String) (level : Level) (message : String) : m Unit :=
  let wanted := match level with
    | .debug => choices.trace
    | .info => choices.trace || choices.verbose
    | .warning => true
  if wanted then host.report ("[" ++ logger ++ "] " ++ level.name ++ ": " ++ message ++ "\n")
  else pure ()

def noteMain (choices : Choices) (level : Level) (message : String) : m Unit :=
  note host choices "x64cc" level message

def noteToolchain (choices : Choices) (level : Level) (message : String) : m Unit :=
  note host choices "x64_compiler.toolchain" level message

-- Takes the result of a traced stage, once its lines are written.
def traced {ε α : Type} (choices : Choices) (stage : Log → Except ε α × Log) : m (Except ε α) := do
  let (result, log) := stage (.empty choices.trace)
  log.lines.forM (noteMain host choices .debug)
  return result

-- The text of the input file, its line ends unified.
def readInput (input : String) : m (Except Outcome String) := do
  match ← host.readFile input with
  | .error error =>
    match error.fault with
    | .nullInPath => return .error (.escaped .nullInPath)
    | .notFound =>
      host.report ("Error: File not found: " ++ input ++ "\n")
      return .error (.exit 1)
    | _ =>
      host.report ("Error reading " ++ input ++ ": " ++ error.message ++ "\n")
      return .error (.exit 1)
  | .ok bytes =>
    match Text.Utf8.decode bytes with
    | .error fault => return .error (.escaped (.notText fault))
    | .ok text => return .ok (String.ofList (Text.unifyNewlines text))

end Run

namespace Options

-- A run that shows tokens or the tree writes no files.
def isDump (options : Options) : Bool := options.tokens || options.tree || options.pretty

def isToStandardOutput (options : Options) : Bool :=
  options.assemblyOnly && options.output == some "-"

-- Where the assembly goes: beside the input, unless it is all that is asked for.
def assemblyPath (options : Options) : String :=
  let beside := Path.stem options.input ++ ".s"
  if options.assemblyOnly then options.output.getD beside else beside

def executablePath (options : Options) : String :=
  options.output.getD (Path.stem options.input)

-- The files that a run would replace.
def outputs (options : Options) : List String :=
  if options.isDump || options.isToStandardOutput then []
  else if options.assemblyOnly then [options.assemblyPath]
  else [options.assemblyPath, options.executablePath]

end Options

section Run

variable {m : Type → Type} [Monad m] (host : Host m)

-- Refuses the first output that is the input file under whatever path.
def guardInput (input : String) : List String → m (Except Outcome Unit)
  | [] => return .ok ()
  | path :: rest => do
    match ← host.resolve path, ← host.resolve input with
    | some place, some inputPlace =>
      if place = inputPlace then
        host.report ("Error: output " ++ path ++ " would overwrite input file " ++ input ++ "\n")
        return .error (.exit 1)
      else guardInput input rest
    | _, _ => return .error (.escaped .nullInPath)

-- Prints the tokens, a line each.
def showTokens (options : Options) (source : String) : m (Except Failure Unit) := do
  match ← traced host options.toChoices (tokenize source) with
  | .error error => return .error (.ofCompileError (.lex error))
  | .ok tokens =>
    tokens.forM fun token => host.print (token.shown ++ "\n")
    return .ok ()

-- Prints the tree, as an outline or as source text.
def showTree (options : Options) (source : String) : m (Except Failure Unit) := do
  match ← traced host options.toChoices (parseSource source Parser.defaultLimit) with
  | .error error => return .error (.ofCompileError error)
  | .ok program =>
    let text := if options.tree then
        (outline (.node program) 0).mapError Numeral.Fault.message
      else (program.programSource "    ").mapError FormatError.message
    match text with
    | .error message => return .error (.internal message)
    | .ok text =>
      host.print text
      return .ok ()

def save (options : Options) (text : String) : m (Except Failure String) := do
  match ← Link.save host.writeFile (noteToolchain host options.toChoices)
      options.assemblyPath text with
  | .error error => return .error (.internal error.message)
  | .ok path => return .ok path

-- Has the driver make the executable of the assembly file.
def link (options : Options) (assembly : String) : m (Except Failure Unit) := do
  match options.driver with
  | none => return .error (.internal "sequence item 0: expected str instance, list found")
  | some driver =>
    match ← Link.link host.runDriver (noteToolchain host options.toChoices)
        driver assembly options.executablePath with
    | .error error => return .error (.ofLinkError error)
    | .ok executable =>
      noteMain host options.toChoices .info ("Output: " ++ executable)
      return .ok ()

-- Compiles and brings the assembly where it is wanted.
def build (options : Options) (target : Target) (source : String) :
    m (Except Failure Unit) := do
  match ← traced host options.toChoices (compile source target.name) with
  | .error error => return .error (.ofCompileError error)
  | .ok text =>
    let lines := text.toList.count '\n'
    noteMain host options.toChoices .info
      ("Generated " ++ Numeral.decimal lines ++ " lines of assembly")
    if options.isToStandardOutput then
      host.print text
      return .ok ()
    else
      match ← save host options text with
      | .error failure => return .error failure
      | .ok assembly =>
        if options.assemblyOnly then return .ok () else link host options assembly

def perform (options : Options) (target : Target) (source : String) :
    m (Except Failure Unit) :=
  if options.tokens then showTokens host options source
  else if options.tree || options.pretty then showTree host options source
  else build host options target source

-- Reports a failure, an internal one with a mark in place of its details.
def fail (options : Options) (failure : Failure) : m Outcome := do
  host.report failure.line
  match failure with
  | .internal _ =>
    if options.verbose || options.trace then host.report "<traceback>\n"
  | _ => pure ()
  return .exit failure.exitCode

def runOptions (options : Options) : m Outcome := do
  match ← readInput host options.input with
  | .error outcome => return outcome
  | .ok source =>
    noteMain host options.toChoices .info ("Input:  " ++ options.input)
    match options.target with
    | none => return .escaped .noTarget
    | some target =>
      noteMain host options.toChoices .info
        ("Target: " ++ target.name ++ " (" ++ target.description ++ ")")
      match ← guardInput host options.input options.outputs with
      | .error outcome => return outcome
      | .ok () =>
        match ← perform host options target source with
        | .error failure => fail host options failure
        | .ok () => return .exit 0

-- Runs a command line.
def run (arguments : List String) : m Outcome := do
  match Options.ofArguments arguments with
  | .ok options => runOptions host options
  | .error .help =>
    host.print helpText
    return .exit 0
  | .error .version =>
    host.print versionText
    return .exit 0
  | .error (.misuse error) =>
    host.report (usage ++ "x64cc: error: " ++ error.message ++ "\n")
    return .exit 2

end Run

end TinyC.Command
