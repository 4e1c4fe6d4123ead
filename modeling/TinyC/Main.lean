import TinyC.Command.Run

namespace TinyC.Command

-- The cause of a system error, by its number where the path alone is to blame.
def FileFault.ofError (error : IO.Error) : FileFault :=
  match error with
  | .noFileOrDirectory _ _ _ | .noSuchThing _ _ _ => .notFound
  | .inappropriateType _ 20 _ => .notADirectory
  | .inappropriateType _ 21 _ => .isADirectory
  | .invalidArgument _ 36 _ => .nameTooLong
  | other => .other (toString other)

def attempt {α : Type} (path : String) (action : IO α) : IO (Except FileError α) := do
  try
    return .ok (← action)
  catch error => return .error ⟨FileFault.ofError error, path⟩

-- The place of the file that a path leads to, or else the place that its parts spell.
def resolveIn (path : String) : IO (Option Location) := do
  if path.toList.contains '\x00' then return none
  try
    return some (Path.resolve [] (← IO.FS.realPath path).toString)
  catch _ =>
    let current := Path.resolve [] (← IO.currentDir).toString
    return some (Path.resolve current path)

-- The surroundings of a process. It starts no other program, so the driver is always missing.
def processHost : Host IO where
  readFile path := attempt path do return (← IO.FS.readBinFile path).toList
  writeFile path text := attempt path (IO.FS.writeFile path text)
  resolve := resolveIn
  runDriver _ := return .missing
  print := IO.print
  report := IO.eprint

end TinyC.Command

def main (arguments : List String) : IO UInt32 := do
  match ← TinyC.Command.run TinyC.Command.processHost arguments with
  | .exit code => return code.toUInt32
  | .escaped fault =>
    IO.eprintln fault.message
    return 1
