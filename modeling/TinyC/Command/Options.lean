import TinyC.Command.Argument

namespace TinyC.Command

-- What the options of a command line ask for. A double dash joined to an option is no value: it
-- takes away the value that the option had, even a default.
structure Choices where
  output : Option String
  assemblyOnly : Bool
  target : Option Target
  driver : Option String
  verbose : Bool
  trace : Bool
  tokens : Bool
  tree : Bool
  pretty : Bool
deriving DecidableEq, Repr

def Choices.initial : Choices :=
  ⟨none, false, some .linux, some "gcc", false, false, false, false, false⟩

-- What a command line asks for.
structure Options extends Choices where
  input : String
deriving DecidableEq, Repr

-- The outcome of a command line that asks for no compilation.
inductive Stop where
  | help
  | version
  | misuse (error : UsageError)
deriving DecidableEq, Repr

-- What the arguments so far ask for, and those that nothing takes, last first.
structure Settings where
  choices : Choices
  input : Option String
  extras : List String

namespace Settings

-- An argument that nothing takes.
def reject (settings : Settings) (text : String) : Settings :=
  { settings with extras := text :: settings.extras }

def choose (settings : Settings) (choose : Choices → Choices) : Settings :=
  { settings with choices := choose settings.choices }

def apply (settings : Settings) : Switch → Except Stop Settings
  | .help => .error .help
  | .version => .error .version
  | .assemblyOnly => .ok (settings.choose fun choices => { choices with assemblyOnly := true })
  | .verbose => .ok (settings.choose fun choices => { choices with verbose := true })
  | .trace => .ok (settings.choose fun choices => { choices with trace := true })
  | .tokens => .ok (settings.choose fun choices => { choices with tokens := true })
  | .tree => .ok (settings.choose fun choices => { choices with tree := true })
  | .pretty => .ok (settings.choose fun choices => { choices with pretty := true })
  | .output | .target | .driver => .ok settings

-- The last value of an option counts. An empty name of an output counts as none. A double dash
-- joined to an option (`--target=--`) is read by the older of two conventions: wherever it stands
-- it marks the end of the options and is dropped, which leaves this option without a value. By
-- the later convention it is a value like any other.
def assign (settings : Settings) (switch : Switch) (value : String) : Except Stop Settings :=
  let given := if value = "--" then none else some value
  match switch, given with
  | .output, given =>
    .ok (settings.choose fun choices => { choices with output := given.filter (· ≠ "") })
  | .driver, given => .ok (settings.choose fun choices => { choices with driver := given })
  | .target, none => .ok (settings.choose fun choices => { choices with target := none })
  | .target, some name =>
    match Target.ofName? name with
    | none => .error (.misuse (.invalidTarget name))
    | some target => .ok (settings.choose fun choices => { choices with target := some target })
  | _, _ => .ok settings

def use (settings : Settings) : Use → Except Stop Settings
  | .flag switch => settings.apply switch
  | .valued switch value => settings.assign switch value
  | .awaiting _ => .ok settings

end Settings

-- The option among the uses of an argument that waits for its value.
def awaiting? (uses : List Use) : Option Switch :=
  match uses.getLast? with
  | some (.awaiting switch) => some switch
  | _ => none

-- Lets the arguments take effect in their order. The first positional argument is the input;
-- separators next to it belong to it.
def consume (settings : Settings) : List Argument → Except Stop Settings
  | [] => .ok settings
  | .positional text :: rest =>
    match settings.input with
    | some _ => consume (settings.reject text) rest
    | none =>
      match rest with
      | .separator :: rest => consume { settings with input := some text } rest
      | rest => consume { settings with input := some text } rest
  | .separator :: rest =>
    match settings.input, rest with
    | none, .positional text :: rest => consume { settings with input := some text } rest
    | _, rest => consume (settings.reject "--") rest
  | .unknown text :: rest => consume (settings.reject text) rest
  | .switch switch spelling joined :: rest =>
    match uses switch spelling joined with
    | .error error => .error (.misuse error)
    | .ok uses =>
      match awaiting? uses with
      | none =>
        match uses.foldlM Settings.use settings with
        | .error stop => .error stop
        | .ok settings => consume settings rest
      | some waiting =>
        match rest with
        | .positional value :: rest =>
          match uses.foldlM Settings.use settings >>= (·.assign waiting value) with
          | .error stop => .error stop
          | .ok settings => consume settings rest
        | _ => .error (.misuse (.missingValue waiting))

-- The options that all arguments amount to.
def Settings.options (settings : Settings) : Except Stop Options :=
  match settings.input with
  | none => .error (.misuse .missingInput)
  | some input =>
    if settings.extras ≠ [] then .error (.misuse (.unrecognized settings.extras.reverse))
    else .ok ⟨settings.choices, input⟩

-- Reads a command line.
def Options.ofArguments (arguments : List String) : Except Stop Options :=
  match classifyAll arguments with
  | .error error => .error (.misuse error)
  | .ok arguments =>
    match consume ⟨.initial, none, []⟩ arguments with
    | .error stop => .error stop
    | .ok settings => settings.options

end TinyC.Command
