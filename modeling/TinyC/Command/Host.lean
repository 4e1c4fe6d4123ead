import TinyC.Command.Options
import TinyC.Text.Utf8
import TinyC.Assembly.Link

namespace TinyC.Command

-- What a run of the command line needs from its surroundings.
structure Host (m : Type → Type) where
  readFile : String → m (Except FileError (List UInt8))
  writeFile : String → String → m (Except FileError Unit)
  -- The place that a path denotes. A path with a NUL denotes none.
  resolve : String → m (Option Location)
  runDriver : List String → m DriverAnswer
  -- Appends to the standard output.
  print : String → m Unit
  -- Appends to the standard error output.
  report : String → m Unit

-- A closed surrounding: a tree of files, a driver that answers every command alike, and the
-- record of what a run has done. It has no links, no permissions and no other processes.
structure World where
  files : FileTree
  current : Location
  driver : DriverAnswer
  -- The commands run, last first.
  calls : List (List String)
  output : String
  errors : String

namespace World

def ofFiles (files : FileTree) (current : Location) (driver : DriverAnswer) : World :=
  ⟨files, current, driver, [], "", ""⟩

def readFile (path : String) : StateM World (Except FileError (List UInt8)) := do
  let world ← get
  return world.files.read world.current path

def writeFile (path text : String) : StateM World (Except FileError Unit) := do
  let world ← get
  match world.files.write world.current path (Text.Utf8.encode text) with
  | .error error => return .error error
  | .ok files =>
    set { world with files := files }
    return .ok ()

def resolve (path : String) : StateM World (Option Location) := do
  let world ← get
  return if path.toList.contains '\x00' then none else some (Path.resolve world.current path)

def runDriver (command : List String) : StateM World DriverAnswer := do
  let world ← get
  set { world with calls := command :: world.calls }
  return world.driver

def print (text : String) : StateM World Unit :=
  modify fun world => { world with output := world.output ++ text }

def report (text : String) : StateM World Unit :=
  modify fun world => { world with errors := world.errors ++ text }

def host : Host (StateM World) := ⟨readFile, writeFile, resolve, runDriver, print, report⟩

end World

end TinyC.Command
