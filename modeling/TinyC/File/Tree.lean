import TinyC.File.Path
import TinyC.Text.Basic

namespace TinyC

-- Why a file cannot be opened.
inductive FileFault where
  | notFound
  | notADirectory
  | isADirectory
  -- The path, or a name on the way, has more bytes than is allowed.
  | nameTooLong
  -- The path holds the character NUL, which no path can.
  | nullInPath
  | other (reason : String)
deriving DecidableEq, Repr

structure FileError where
  fault : FileFault
  path : String
deriving DecidableEq, Repr

def FileError.message (error : FileError) : String :=
  let path := Text.quoted error.path
  match error.fault with
  | .notFound => s!"[Errno 2] No such file or directory: {path}"
  | .notADirectory => s!"[Errno 20] Not a directory: {path}"
  | .isADirectory => s!"[Errno 21] Is a directory: {path}"
  | .nameTooLong => s!"[Errno 36] File name too long: {path}"
  | .nullInPath => "embedded null byte"
  | .other reason => reason

inductive Entry where
  | file (bytes : List UInt8)
  | directory
deriving DecidableEq, Repr

-- Regular files and directories. The root is always a directory.
structure FileTree where
  entries : List (Location × Entry)

namespace FileTree

def entry? (tree : FileTree) (place : Location) : Option Entry :=
  if place = [] then some .directory else tree.entries.lookup place

def put (tree : FileTree) (place : Location) (entry : Entry) : FileTree :=
  ⟨(place, entry) :: tree.entries.filter fun old => old.1 != place⟩

-- A name has at most this many bytes.
def nameLimit : Nat := 255

-- A path has fewer bytes than this.
def pathLimit : Nat := 4096

-- Walks along the parts of a path. Only from a directory does a walk go on.
def walk (tree : FileTree) (place : Location) : List String → Except FileFault Location
  | [] => .ok place
  | part :: rest =>
    match tree.entry? place with
    | none => .error .notFound
    | some (.file _) => .error .notADirectory
    | some .directory =>
      if nameLimit < part.utf8ByteSize then .error .nameTooLong
      else walk tree (Path.step place part) rest

-- The place that a path leads to; the last part of the path need not exist.
def locate (tree : FileTree) (current : Location) (path : String) :
    Except FileFault Location :=
  if path.toList.contains '\x00' then .error .nullInPath
  else if path = "" then .error .notFound
  else if pathLimit ≤ path.utf8ByteSize then .error .nameTooLong
  else tree.walk (Path.origin current path) (Path.parts path)

def read (tree : FileTree) (current : Location) (path : String) :
    Except FileError (List UInt8) :=
  match tree.locate current path with
  | .error fault => .error ⟨fault, path⟩
  | .ok place =>
    match tree.entry? place with
    | none => .error ⟨.notFound, path⟩
    | some .directory => .error ⟨.isADirectory, path⟩
    | some (.file bytes) => .ok bytes

-- Creates or replaces the file.
def write (tree : FileTree) (current : Location) (path : String) (bytes : List UInt8) :
    Except FileError FileTree :=
  match tree.locate current path with
  | .error fault => .error ⟨fault, path⟩
  | .ok place =>
    if tree.entry? place = some .directory then .error ⟨.isADirectory, path⟩
    else .ok (tree.put place (.file bytes))

end FileTree

end TinyC
