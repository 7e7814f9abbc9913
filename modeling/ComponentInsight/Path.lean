/-!
# Paths

A path is kept as the text it was written with; two texts name the same path when their components
agree. Components ignore repeated separators, a trailing separator and every `.` but a leading one.

* `Path.join` appends a relative path and is replaced by an absolute one;
* `Path.normalize` resolves `.` and `..` lexically, without looking at any file;
* `Path.relativeTo?` removes a base directory, by components, and keeps the rest as written.
-/

namespace ComponentInsight

/-- A path, as written. -/
structure Path where
  text : String
  deriving DecidableEq, Repr, Inhabited

/-- One step of a path. -/
inductive Component where
  /-- The root directory. -/
  | root
  /-- A leading `.`. -/
  | here
  /-- A `..`. -/
  | up
  /-- A directory or file name. -/
  | name (s : String)
  deriving DecidableEq, Repr

/-- The text of a component other than the root. -/
def Component.text : Component → String
  | .root => ""
  | .here => "."
  | .up => ".."
  | .name s => s

namespace Path

/-- Split at every separator. -/
def splitSlash : List Char → List (List Char)
  | [] => [[]]
  | c :: cs =>
    if c = '/' then [] :: splitSlash cs
    else
      match splitSlash cs with
      | [] => [[c]]
      | first :: rest => (c :: first) :: rest

/-- The texts between separators; an absolute path begins with an empty one. -/
def segments (p : Path) : List String := (splitSlash p.text.toList).map String.ofList

/-- The component a segment after the first stands for, if any. -/
def component? (segment : String) : Option Component :=
  if segment = "" ∨ segment = "." then none
  else if segment = ".." then some .up
  else some (.name segment)

def isAbsolute (p : Path) : Bool := p.text.toList.head? == some '/'

/-- The segments, each with the component it stands for. -/
def labelled (p : Path) : List (String × Option Component) :=
  match p.segments with
  | [] => []
  | first :: rest =>
    let head : Option Component :=
      if p.isAbsolute then some .root
      else if first = "." then some .here
      else component? first
    (first, head) :: rest.map fun s => (s, component? s)

/-- The components of a path. -/
def components (p : Path) : List Component := p.labelled.filterMap Prod.snd

/-- Whether two texts name one path. -/
def same (p q : Path) : Bool := p.components == q.components

/-- The path with the given components. -/
def ofComponents : List Component → Path
  | .root :: rest => ⟨"/" ++ "/".intercalate (rest.map Component.text)⟩
  | cs => ⟨"/".intercalate (cs.map Component.text)⟩

/-- A text without the separators at its end. -/
def dropSlashes (s : String) : String :=
  String.ofList (s.toList.reverse.dropWhile (· == '/')).reverse

/-- Append `q` to `p`; an absolute `q` replaces `p`. -/
def join (p q : Path) : Path :=
  if q.isAbsolute then q
  else if p.text.isEmpty ∨ p.text.toList.getLast? = some '/' then ⟨p.text ++ q.text⟩
  else ⟨p.text ++ "/" ++ q.text⟩

/-- The components of the directory a path lies in; none for the root and the empty path. -/
def directory (p : Path) : List Component :=
  if p.components = [.root] then [] else p.components.dropLast

/-- The last component, when it is a name. -/
def fileName? (p : Path) : Option String :=
  match p.components.getLast? with
  | some (.name s) => some s
  | _ => none

/-- What stands after the last dot of a file name; a name has no extension when its only dot comes
first. -/
def extensionOf? (name : String) : Option String :=
  let reversed := name.toList.reverse
  match reversed.dropWhile (· != '.') with
  | [] => none
  | [_] => none
  | _ => some (String.ofList (reversed.takeWhile (· != '.')).reverse)

/-- The extension of the file name. -/
def extension? (p : Path) : Option String := p.fileName? >>= extensionOf?

/-- Add one component to a reversed, normalized list of components. A `..` removes the component
before it, whatever it is; it is kept when there is none and dropped at the root. -/
def push (stack : List Component) : Component → List Component
  | .here => stack
  | .up =>
    match stack with
    | [] => [.up]
    | [.root] => [.root]
    | _ :: rest => rest
  | c => c :: stack

/-- The components reached from a normalized directory by following more of them. -/
def extend (dir more : List Component) : List Component := (more.foldl push dir.reverse).reverse

/-- Components with `.` and `..` resolved. -/
def normalComponents (cs : List Component) : List Component := extend [] cs

/-- The directory a path lies in, with `.` and `..` resolved. -/
def home (p : Path) : List Component := normalComponents p.directory

/-- The path with `.` and `..` resolved lexically. -/
def normalize (p : Path) : Path := ofComponents (normalComponents p.components)

/-- Whether the components of `base` begin those of `p`. -/
def startsWith (p base : Path) : Bool := base.components.isPrefixOf p.components

/-- Remove the components of a base from labelled segments. -/
def dropBase : List Component → List (String × Option Component) →
    Option (List (String × Option Component))
  | [], rest => some rest
  | _ :: _, [] => none
  | c :: cs, (_, none) :: rest => dropBase (c :: cs) rest
  | c :: cs, (_, some c') :: rest => if c = c' then dropBase cs rest else none

/-- The part of `p` below `base`, as written. -/
def relativeTo? (p base : Path) : Option Path := do
  let rest ← dropBase base.components p.labelled
  let blank (s : String × Option Component) : Bool := s.2.isNone
  let kept := ((rest.dropWhile blank).reverse.dropWhile blank).reverse
  return ⟨"/".intercalate (kept.map Prod.fst)⟩

end Path

end ComponentInsight
