import ComponentInsight.Path
import ComponentInsight.Table

/-!
# File trees

The files and directories below a root, each file with its text and the time it was last modified.
A path is followed step by step: `..` and `.` need a directory to stand in, a trailing separator
needs one too, and a relative path leads nowhere.
-/

namespace ComponentInsight

/-- A place in the tree: the names on the way to it. -/
abbrev Place := List String

/-- A file. -/
structure File where
  /-- Its text; none when its bytes are not UTF-8. -/
  text : Option String
  /-- When it was last modified, in nanoseconds since the epoch. -/
  modified : Int
  deriving DecidableEq, Repr

/-- Files and directories. The root directory always exists. -/
structure FileTree where
  files : Table Place File
  directories : List Place
  deriving Repr

namespace FileTree

def empty : FileTree := ⟨[], []⟩

def isDirectoryAt (t : FileTree) (place : Place) : Bool :=
  place.isEmpty || t.directories.contains place

def existsAt (t : FileTree) (place : Place) : Bool :=
  t.isDirectoryAt place || (t.files.find? place).isSome

/-- Follow segments from a place. -/
def follow (t : FileTree) : List String → Place → Option Place
  | [], place => some place
  | s :: rest, place =>
    if !t.isDirectoryAt place then none
    else if s = "" ∨ s = "." then follow t rest place
    else if s = ".." then follow t rest place.dropLast
    else if t.existsAt (place ++ [s]) then follow t rest (place ++ [s])
    else none

/-- The place an absolute path leads to, if it exists. -/
def locate? (t : FileTree) (p : Path) : Option Place :=
  if p.isAbsolute then t.follow p.segments [] else none

/-- The file a path leads to. -/
def file? (t : FileTree) (p : Path) : Option File :=
  (t.locate? p).bind fun place => t.files.find? place

/-- Whether a path leads to a file. -/
def isFile (t : FileTree) (p : Path) : Bool := (t.file? p).isSome

/-- The place a path names, whether it exists or not. -/
def placeOf (p : Path) : Place :=
  p.normalize.components.filterMap fun
    | .name s => some s
    | _ => none

/-- A place and all places on the way to it. -/
def ancestors : Place → List Place
  | [] => [[]]
  | s :: rest => [] :: (ancestors rest).map (s :: ·)

/-- Make a directory and those on the way to it. -/
def addDirectory (t : FileTree) (place : Place) : FileTree :=
  { t with directories := t.directories ++ (ancestors place).filter (!t.isDirectoryAt ·) }

/-- Make a directory. -/
def makeDirectory (t : FileTree) (p : Path) : FileTree := t.addDirectory (placeOf p)

/-- Write a file, with the directories it needs. -/
def write (t : FileTree) (p : Path) (f : File) : FileTree :=
  let place := placeOf p
  let t := t.addDirectory place.dropLast
  { t with files := t.files.put place f }

/-- Change when a file was last modified. -/
def touch (t : FileTree) (p : Path) (modified : Int) : FileTree :=
  match t.files.find? (placeOf p) with
  | some f => { t with files := t.files.put (placeOf p) { f with modified } }
  | none => t

/-- Remove a file, or a directory with all it holds. -/
def remove (t : FileTree) (p : Path) : FileTree :=
  let place := placeOf p
  { files := t.files.filter fun e => !place.isPrefixOf e.1
    directories := t.directories.filter fun d => !place.isPrefixOf d }

end FileTree

end ComponentInsight
