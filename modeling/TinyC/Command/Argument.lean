import TinyC.Command.Usage
import TinyC.Text.Character

namespace TinyC.Command

-- An argument as it looks on its own.
inductive Argument where
  | positional (text : String)
  -- The first double dash, after which all arguments are positional.
  | separator
  -- An option, in the spelling that it was recognised by. Text may be joined to it: what follows
  -- an equals sign, or what follows the letter of a short option.
  | switch (switch : Switch) (spelling : String) (joined : Option String)
  -- What looks like an option and is none.
  | unknown (text : String)
deriving DecidableEq, Repr

-- The text before the first equals sign, and the text after it, if there is one.
def splitEquals (text : String) : String × Option String :=
  let before := text.toList.takeWhile (· != '=')
  match text.toList.dropWhile (· != '=') with
  | [] => (text, none)
  | _ :: after => (String.ofList before, some (String.ofList after))

-- A minus with digits, among which one point may stand before the last; a newline may follow.
def looksNegative (text : String) : Bool :=
  let isDigit := fun c => (Text.digitValue? c).isSome
  match text.toList with
  | '-' :: rest =>
    let number := if rest.getLast? = some '\n' then rest.dropLast else rest
    match number.dropWhile isDigit with
    | [] => !number.isEmpty
    | '.' :: fraction => !fraction.isEmpty && fraction.all isDigit
    | _ => false
  | _ => false

-- The options that an argument with a leading dash may stand for, when it is none in full.
def candidates (text : String) : List (String × Switch × Option String) :=
  match text.toList with
  | '-' :: '-' :: _ =>
    let (name, value) := splitEquals text
    (Switch.spelled.filter fun entry => name.toList.isPrefixOf entry.1.toList).map fun entry =>
      (entry.1, entry.2, value)
  | '-' :: letter :: rest =>
    Switch.spelled.filterMap fun entry =>
      if entry.1 = String.ofList ['-', letter] then
        some (entry.1, entry.2, some (String.ofList rest))
      else none
  | _ => []

-- What an argument before any separator is. An option may be abbreviated if that is unambiguous.
def classify (text : String) : Except UsageError Argument :=
  if text.toList.head? ≠ some '-' then .ok (.positional text)
  else
    match Switch.ofSpelling? text, splitEquals text with
    | some switch, _ => .ok (.switch switch text none)
    | none, (name, value) =>
      if text = "-" then .ok (.positional text)
      else
        match value, Switch.ofSpelling? name with
        | some value, some switch => .ok (.switch switch name (some value))
        | _, _ =>
          match candidates text with
          | [(spelling, switch, joined)] => .ok (.switch switch spelling joined)
          | [] =>
            if looksNegative text || text.toList.contains ' ' then .ok (.positional text)
            else .ok (.unknown text)
          | several => .error (.ambiguous text (several.map fun candidate => candidate.1))

-- Looks at each argument on its own, before any takes effect.
def classifyAll : List String → Except UsageError (List Argument)
  | [] => .ok []
  | "--" :: rest => .ok (.separator :: rest.map .positional)
  | text :: rest => do
    let argument ← classify text
    let arguments ← classifyAll rest
    return argument :: arguments

-- What one argument asks for, option by option.
inductive Use where
  | flag (switch : Switch)
  | valued (switch : Switch) (value : String)
  -- The value is the next argument.
  | awaiting (switch : Switch)
deriving DecidableEq, Repr

def plainUse (switch : Switch) : Use :=
  if switch.takesValue then .awaiting switch else .flag switch

-- The uses of a short option with the text joined to it: its value, or else further letters,
-- each of which must be an option. A letter that is none makes the argument a misuse before any
-- letter of it takes effect, also behind one that would end the run (`-hx`). This is the older of
-- two conventions: by the later one the letters in front of it take effect first, and what is
-- left of the argument counts as unrecognised.
def joinedUses (switch : Switch) (joined : List Char) : Except UsageError (List Use) :=
  if switch.takesValue then .ok [.valued switch (String.ofList joined)]
  else
    match joined with
    | [] => .error (.ignoredValue switch "")
    | letter :: rest =>
      match Switch.ofSpelling? (String.ofList ['-', letter]) with
      | none => .error (.ignoredValue switch (String.ofList (letter :: rest)))
      | some next => do
        let uses ← if rest.isEmpty then .ok [plainUse next] else joinedUses next rest
        return .flag switch :: uses

-- Short options have one dash. Letters may follow theirs.
def isShort (spelling : String) : Bool := spelling.toList[1]? != some '-'

-- The uses of an option with the text joined to it, if there is any.
def uses (switch : Switch) (spelling : String) :
    Option String → Except UsageError (List Use)
  | none => .ok [plainUse switch]
  | some joined =>
    if isShort spelling then joinedUses switch joined.toList
    else if switch.takesValue then .ok [.valued switch joined]
    else .error (.ignoredValue switch joined)

end TinyC.Command
