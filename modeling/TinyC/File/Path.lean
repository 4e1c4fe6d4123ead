namespace TinyC

-- A place in the tree of files: the names on the way down from the root.
abbrev Location := List String

namespace Path

-- The parts between the slashes of a path, empty ones included.
def split : List Char → List (List Char)
  | [] => [[]]
  | c :: rest =>
    if c = '/' then [] :: split rest
    else
      match split rest with
      | [] => [[c]]
      | part :: parts => (c :: part) :: parts

def parts (path : String) : List String := (split path.toList).map String.ofList

def isAbsolute (path : String) : Bool := path.toList.head? == some '/'

-- Where the walk along a path begins.
def origin (current : Location) (path : String) : Location :=
  if isAbsolute path then [] else current

-- The place to which one part of a path leads, whether it exists or not.
def step (place : Location) (part : String) : Location :=
  if part = "" ∨ part = "." then place
  else if part = ".." then place.dropLast
  else place ++ [part]

-- The place that a path denotes, whether the places on the way exist or not.
def resolve (current : Location) (path : String) : Location :=
  (parts path).foldl step (origin current path)

-- The slashes that a path begins with. Exactly two are kept apart from one.
def root (path : String) : String :=
  match (path.toList.takeWhile (· == '/')).length with
  | 0 => ""
  | 2 => "//"
  | _ => "/"

-- The path without empty parts and without single dots, which lead nowhere.
def normal (path : String) : String :=
  let kept := (parts path).filter fun part => part != "" && part != "."
  let text := root path ++ "/".intercalate kept
  if text = "" then "." else text

-- The path without the extension of its last part. Dots that only dots precede begin none.
def stem (path : String) : String :=
  let backwards := path.toList.reverse
  let isInside := fun c => c != '.' && c != '/'
  match backwards.dropWhile isInside with
  | '.' :: before =>
    if (before.takeWhile (· != '/')).any (· != '.') then String.ofList before.reverse else path
  | _ => path

end Path

end TinyC
