import FetchStage.Text.Lines

/-! # Files by path

Files held as a value, with the rules by which a path names one. A path starts at the current directory or at the
root, may repeat slashes, stays where it is at a point and goes up at two. No directory has directories in it that a
path could go down to.
-/
namespace FetchStage
open Text

inductive Obstacle where
  | notFound
  | notDirectory
  | isDirectory
  | nameTooLong
  | nulInName
  | notText
  | denied
  deriving DecidableEq, Repr

def Obstacle.message : Obstacle → String
  | .notFound => "No such file or directory (os error 2)"
  | .notDirectory => "Not a directory (os error 20)"
  | .isDirectory => "Is a directory (os error 21)"
  | .nameTooLong => "File name too long (os error 36)"
  | .nulInName => "file name contained an unexpected NUL byte"
  | .notText => "stream did not contain valid UTF-8"
  | .denied => "Permission denied (os error 13)"

/-- A directory that a path can reach without going down. -/
inductive Base where
  /-- The current directory, or one so many levels around it. -/
  | around (levels : Nat)
  | root
  deriving DecidableEq

def Base.here : Base := .around 0

def Base.parent : Base → Base
  | .around levels => .around (levels + 1)
  | .root => .root

structure FileName where
  base : Base := .here
  name : List Char
  deriving DecidableEq

inductive Tail where
  | none
  | slashes
  /-- Further components, so that the name must be a directory's. -/
  | components
  deriving DecidableEq

/-- What a path means before any file is looked up. -/
inductive Location where
  | directory
  | file (file : FileName) (tail : Tail)
  deriving DecidableEq

namespace Location

/-- Bytes that a name, and a whole path with its end mark, may have. -/
abbrev longestName : Nat := 255
abbrev longestPath : Nat := 4096

def tailOf (rest : List (List Char)) : Tail :=
  if rest.isEmpty then .none else if rest.all (·.isEmpty) then .slashes else .components

/-- Where the components lead before the first that is a name, and the components from there on. -/
def climb : Base → List (List Char) → Base × List (List Char)
  | base, [] => (base, [])
  | base, p :: ps =>
    if p.isEmpty ∨ p = ['.'] then climb base ps
    else if p = ['.', '.'] then climb base.parent ps
    else (base, p :: ps)

def ofPath (path : List Char) : Except Obstacle Location :=
  if path.contains '\x00' then .error .nulInName
  else if path.isEmpty then .error .notFound
  else if longestPath ≤ byteSize path then .error .nameTooLong
  else
    match climb (if path.head? = some '/' then .root else .here) (pieces (· == '/') path) with
    | (_, []) => .ok .directory
    | (base, name :: rest) =>
      if longestName < byteSize name then .error .nameTooLong else .ok (.file ⟨base, name⟩ (tailOf rest))

end Location

abbrev Directory := List (FileName × ByteArray)

namespace Directory

def find? (d : Directory) (file : FileName) : Option ByteArray := d.lookup file

def put : Directory → FileName → ByteArray → Directory
  | [], file, bytes => [(file, bytes)]
  | (f, b) :: rest, file, bytes => if f = file then (f, bytes) :: rest else (f, b) :: put rest file bytes

def readBytes (d : Directory) (path : List Char) : Except Obstacle ByteArray := do
  match ← Location.ofPath path with
  | .directory => throw .isDirectory
  | .file file tail =>
    match d.find? file with
    | none => throw .notFound
    | some bytes => if tail = .none then return bytes else throw .notDirectory

def readText (d : Directory) (path : List Char) : Except Obstacle String := do
  let bytes ← d.readBytes path
  match String.fromUTF8? bytes with
  | some text => return text
  | none => throw .notText

def writeText (d : Directory) (path : List Char) (text : String) : Except Obstacle Directory := do
  match ← Location.ofPath path with
  | .directory => throw .isDirectory
  | .file file .none => return d.put file text.toUTF8
  | .file _ .slashes => throw .isDirectory
  | .file file .components => throw (if (d.find? file).isSome then .notDirectory else .notFound)

end Directory

end FetchStage
