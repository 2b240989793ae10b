/-!
# Disks

A tree of files and directories, and the directory in it that the program works in.  A path starts
from the root if its first character is a slash, and from the working directory if not.  It is
resolved part by part: every part but the last has to lead to a directory, `.` and empty parts
stay where they are, and `..` goes up, which leads from the root to the root.
-/

namespace LuaView

/-- Why a file cannot be read or written. -/
inductive FileFault where
  | notFound
  | notDirectory
  | isDirectory
  | notText
  | other (text : String)
deriving DecidableEq, Repr

def FileFault.message : FileFault → String
  | .notFound => "No such file or directory (os error 2)"
  | .notDirectory => "Not a directory (os error 20)"
  | .isDirectory => "Is a directory (os error 21)"
  | .notText => "stream did not contain valid UTF-8"
  | .other text => text

namespace Disk

/-- What a path leads to. -/
inductive Node where
  | file (content : ByteArray)
  | directory

/-- A place on a disk: the names on the way to it from the root. -/
abbrev Place := List String

end Disk

open Disk

/-- The files and directories below the root, and the place of the working directory. -/
structure Disk where
  entries : List (Place × Node)
  workingDirectory : Place

namespace Disk

/-- What stands at a place, if there is anything; at the root there is always a directory. -/
def lookup? (disk : Disk) (place : Place) : Option Node :=
  if place.isEmpty then some .directory
  else (disk.entries.find? fun entry => entry.1 == place).map fun entry => entry.2

/-- The disk with something else at a place. -/
def put (disk : Disk) (place : Place) (node : Node) : Disk :=
  { disk with entries := (place, node) :: disk.entries.filter fun entry => entry.1 != place }

/-- One part of a path further. -/
def step (place : Place) (part : String) : Place :=
  if part = "" ∨ part = "." then place
  else if part = ".." then place.dropLast
  else place ++ [part]

/-- The place that the parts of a path lead to, whether or not there is anything.  What a part is
taken from has to be a directory. -/
def walk (disk : Disk) (place : Place) : List String → Except FileFault Place
  | [] => .ok place
  | part :: parts =>
      match disk.lookup? place with
      | none => .error .notFound
      | some (.file _) => .error .notDirectory
      | some .directory => disk.walk (step place part) parts

/-- The parts of a path between slashes, empty ones included. -/
def splitSlashes : List Char → List (List Char)
  | [] => [[]]
  | c :: cs =>
      if c = '/' then [] :: splitSlashes cs
      else
        match splitSlashes cs with
        | [] => [[c]]
        | part :: parts => (c :: part) :: parts

def parts (path : String) : List String :=
  (splitSlashes path.toList).map String.ofList

/-- The directory that a path starts from. -/
def start (disk : Disk) (path : String) : Place :=
  if path.toList.head? = some '/' then [] else disk.workingDirectory

/-- The last character of the path is a slash. -/
def endsWithSlash (path : String) : Bool :=
  path.toList.getLast? = some '/'

/-- The content of the file at a path. -/
def read (disk : Disk) (path : String) : Except FileFault ByteArray :=
  if path = "" then .error .notFound
  else
    match disk.walk (disk.start path) (parts path) with
    | .error fault => .error fault
    | .ok place =>
        match disk.lookup? place with
        | none => .error .notFound
        | some .directory => .error .isDirectory
        | some (.file content) => .ok content

/-- The disk with a new content of the file at a path.  With a slash behind it, a path stands for
a directory, whether or not there is one. -/
def write (disk : Disk) (path : String) (content : ByteArray) : Except FileFault Disk :=
  if path = "" then .error .notFound
  else
    match disk.walk (disk.start path) ((parts path).reverse.dropWhile (· == "")).reverse with
    | .error fault => .error fault
    | .ok place =>
        match disk.lookup? place with
        | some .directory => .error .isDirectory
        | _ =>
            if endsWithSlash path then .error .isDirectory
            else .ok (disk.put place (.file content))

/-- The places of all directories on the way to a place, the outermost first. -/
def parents : Place → List Place
  | [] => []
  | [_] => []
  | name :: rest => [name] :: (parents rest).map (name :: ·)

/-- The disk with a node at a place and with the directories on the way to it. -/
def add (disk : Disk) (place : Place) (node : Node) : Disk :=
  ((parents place).foldl (fun disk directory => disk.put directory .directory) disk).put place node

end Disk
end LuaView
