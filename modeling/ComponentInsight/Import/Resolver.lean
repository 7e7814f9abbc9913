import ComponentInsight.FileTree
import ComponentInsight.Import.AliasTable

/-!
# Resolving imports

An import specifier is resolved in three tiers: the longest alias that fits is replaced by its root,
below the project root; a relative specifier is taken from the importer's directory; anything else
is bare and looked for in the dependency directory. A specifier without a known extension gets the
default extension of what is imported.

`resolve` does not look at files. `locate?` does: it tries the resolved path, the index file of a
directory of that name, and both again below the dependency directory.
-/

namespace ComponentInsight

/-- What an import is expected to be. -/
inductive ModuleKind where
  | component
  | mixin
  deriving DecidableEq, Repr

/-- The extension of specifiers that have none. -/
def ModuleKind.extension : ModuleKind → String
  | .component => ".vue"
  | .mixin => ".js"

/-- A resolved specifier, default extension included. -/
inductive Resolution where
  | path (p : Path)
  | bare (specifier : String)
  deriving DecidableEq, Repr

/-- How the imports of a project are resolved. -/
structure Resolver where
  root : Path
  aliases : AliasTable
  /-- The directory of dependencies, below the root. -/
  dependencyDir : String
  deriving DecidableEq, Repr

namespace Resolver

/-- Extensions behind which no other is put. -/
def knownExtensions : List String := ["vue", "js", "mjs", "cjs", "ts", "jsx", "tsx"]

def hasKnownExtension (specifier : String) : Bool :=
  match (Path.mk specifier).extension? with
  | some e => knownExtensions.contains e
  | none => false

/-- The specifier with the extension it needs. -/
def withExtension (specifier : String) (kind : ModuleKind) : String :=
  if hasKnownExtension specifier then specifier else specifier ++ kind.extension

def isRelative (specifier : String) : Bool :=
  specifier == "." || specifier == ".." ||
    ['.', '/'].isPrefixOf specifier.toList || ['.', '.', '/'].isPrefixOf specifier.toList

/-- The specifier with its extension; `.` and `..` stand for the index file of a directory. -/
def completed (specifier : String) (kind : ModuleKind) : String :=
  if specifier = "." ∨ specifier = ".." then withExtension (specifier ++ "/index") kind
  else withExtension specifier kind

/-- The text with a prefix replaced. -/
def replacePrefix (root key text : String) : String :=
  root ++ String.ofList (text.toList.drop key.length)

/-- Resolve a specifier that is imported from a normalized directory. -/
def resolveFrom (r : Resolver) (dir : List Component) (specifier : String) (kind : ModuleKind) :
    Resolution :=
  let full := completed specifier kind
  match r.aliases.lookup? full with
  | some (key, root) => .path (r.root.join ⟨replacePrefix root key full⟩).normalize
  | none =>
    if isRelative specifier then .path (.ofComponents (Path.extend dir (Path.mk full).components))
    else .bare full

/-- Resolve a specifier without looking at files. Of the importer only the directory counts. -/
def resolve (r : Resolver) (specifier : String) (importer : Path) (kind : ModuleKind) :
    Resolution :=
  r.resolveFrom importer.home specifier kind

/-- The path below the dependency directory in place of one below the root. -/
def dependencyPath? (r : Resolver) (p : Path) : Option Path := do
  let below ← p.relativeTo? r.root
  if below.startsWith ⟨r.dependencyDir⟩ then none
  else return (r.root.join ⟨r.dependencyDir⟩).join below

/-- A path without the default extension at its end. -/
def dropExtension (p : Path) (kind : ModuleKind) : Path :=
  let e := kind.extension.toList
  let cs := p.text.toList
  if e.isSuffixOf cs then ⟨String.ofList (cs.take (cs.length - e.length))⟩ else p

/-- The index file of the directory a path may name. -/
def indexFile (p : Path) (kind : ModuleKind) : Path :=
  (dropExtension p kind).join ⟨"index" ++ kind.extension⟩

/-- The path a specifier stands for, bare ones below the dependency directory. -/
def primary (r : Resolver) (dir : List Component) (specifier : String) (kind : ModuleKind) : Path :=
  match r.resolveFrom dir specifier kind with
  | .path p => p
  | .bare name => (r.root.join ⟨r.dependencyDir⟩).join ⟨name⟩

/-- The files a specifier may stand for in a directory, in the order they are tried. Index files are
tried when the specifier has no known extension. -/
def candidates (r : Resolver) (dir : List Component) (specifier : String) (kind : ModuleKind) :
    List Path :=
  let specifier := Path.dropSlashes specifier
  let base := r.primary dir specifier kind
  (base :: (r.dependencyPath? base).toList).flatMap fun p =>
    if hasKnownExtension specifier then [p] else [p, indexFile p kind]

/-- The file a specifier stands for. -/
def locate? (r : Resolver) (t : FileTree) (specifier : String) (importer : Path)
    (kind : ModuleKind) : Option Path :=
  (r.candidates importer.home specifier kind).find? t.isFile

end Resolver

end ComponentInsight
