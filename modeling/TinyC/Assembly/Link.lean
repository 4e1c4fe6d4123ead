import TinyC.File.Tree
import TinyC.Log
import TinyC.Numeral
import TinyC.Text.Basic

namespace TinyC

-- How a run of the program that assembles and links has ended.
inductive DriverAnswer where
  | missing
  -- The program is there, but it cannot be started, or what it writes is no text.
  | unusable (fault : String)
  | finished (status : Int) (errors : String)
deriving DecidableEq, Repr

inductive LinkError where
  | driverNotFound (driver : String)
  | driverUnusable (fault : String)
  | driverFailed (driver : String) (status : Int) (errors : String)
deriving DecidableEq, Repr

namespace LinkError

-- What the driver wrote about its failure.
def errors : LinkError → String
  | driverNotFound _ => ""
  | driverUnusable _ => ""
  | driverFailed _ _ errors => errors

def message : LinkError → String
  | driverNotFound driver => s!"C compiler driver not found: {driver}"
  | driverUnusable fault => fault
  | driverFailed driver status errors =>
    let failure := s!"{driver} exited with status {Numeral.decimal status}"
    if errors = "" then failure
    else failure ++ "\n" ++ String.ofList (Text.trimEnd errors.toList)

end LinkError

namespace Link

-- The text as a file holds it: its last line ends in a newline.
def withFinalNewline (text : String) : String :=
  if text.toList.getLast? = some '\n' then text else text ++ "\n"

-- Writes assembly text to the file of a path and gives the path in its normal form.
def save {m : Type → Type} [Monad m]
    (write : String → String → m (Except FileError Unit)) (note : Level → String → m Unit)
    (path text : String) : m (Except FileError String) := do
  let path := Path.normal path
  match ← write path (withFinalNewline text) with
  | .error error => return .error error
  | .ok () =>
    note .info ("Wrote " ++ path)
    return .ok path

def command (driver assembly executable : String) : List String :=
  [driver, assembly, "-o", executable]

-- Has the driver make an executable of an assembly file, and gives the executable's path in its
-- normal form. What a successful driver has to say is passed on as a warning.
def link {m : Type → Type} [Monad m] (run : List String → m DriverAnswer)
    (note : Level → String → m Unit) (driver assembly executable : String) :
    m (Except LinkError String) := do
  let words := command driver assembly executable
  note .info (" ".intercalate words)
  match ← run words with
  | .missing => return .error (.driverNotFound driver)
  | .unusable fault => return .error (.driverUnusable fault)
  | .finished status errors =>
    if status ≠ 0 then return .error (.driverFailed driver status errors)
    let remark := Text.trim errors.toList
    if !remark.isEmpty then
      note .warning (driver ++ ": " ++ String.ofList remark)
    return .ok (Path.normal executable)

end Link

end TinyC
