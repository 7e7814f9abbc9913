import ComponentInsight.Config.Settings
import ComponentInsight.FileTree

/-!
# Project configuration

Aliases declared by the path mappings of a project's `jsconfig.json` or `tsconfig.json`. A mapping
`"@/*": ["src/*"]` is the alias `@/` with the root `src/`; a base URL is put in front of the root.

`ProjectConfig.Slot` remembers the configuration read last and reads it again only when another file
is found or the file was modified.
-/

namespace ComponentInsight

/-- Why a configuration cannot be used. -/
inductive ConfigError where
  /-- The text of the origin is not what it should be. -/
  | malformed (origin : String)
  /-- The file at the path is not text. -/
  | unreadable (path : Path)
  deriving DecidableEq, Repr

def ConfigError.message : ConfigError → String
  | .malformed origin => "invalid configuration in " ++ origin
  | .unreadable path =>
    "failed to read " ++ path.text ++ ": stream did not contain valid UTF-8"

/-- The aliases of a project and the file they were read from. -/
structure ProjectConfig where
  path : Option Path
  aliases : Aliases
  deriving DecidableEq, Repr

namespace ProjectConfig

def empty : ProjectConfig := ⟨none, []⟩

/-- The names of configuration files, in the order they are looked for. -/
def fileNames : List String := ["jsconfig.json", "tsconfig.json"]

/-! ### Reading -/

/-- A text without its first `*`. -/
def dropStar (s : String) : String := String.ofList (s.toList.erase '*')

/-- A text without any `./` in front. -/
def dropHere : List Char → List Char
  | '.' :: '/' :: rest => dropHere rest
  | cs => cs

/-- A base URL, unless it names the project root itself. -/
def baseOf? (url : String) : Option String :=
  let base := dropHere url.toList
  if base.isEmpty ∨ base = ['.'] then none else some (String.ofList base)

/-- The alias of a path mapping: its first target counts. -/
def alias? (base : Option String) (mapping : String × List String) : Option (String × String) :=
  mapping.2.head?.map fun target =>
    let root := dropStar target
    (dropStar mapping.1,
      match base with
      | some base => Path.dropSlashes base ++ "/" ++ root
      | none => root)

/-- The aliases of a base URL and path mappings. -/
def aliasesOf (baseUrl : Option String) (paths : Table String (List String)) : Aliases :=
  Table.ofEntries (paths.filterMap (alias? (baseUrl >>= baseOf?)))

/-- The aliases of the compiler options. -/
def ofOptions? (j : Config.Json) : Option Aliases := do
  match ← j.asRecord? ["baseUrl", "paths"] with
  | [baseUrl, paths] =>
    let baseUrl ← Config.Json.fieldOr none Config.Json.asNullable? baseUrl
    let paths ← Config.Json.fieldOr [] (Config.Json.asEntries? Config.Json.asTexts?) paths
    return aliasesOf baseUrl (Table.ofEntries paths)
  | _ => none

/-- The aliases of a JSON value. -/
def ofJson? (j : Config.Json) : Option Aliases := do
  match ← j.asRecord? ["compilerOptions"] with
  | [options] => Config.Json.fieldOr [] ofOptions? options
  | _ => none

/-- Read a configuration from JSON text. -/
def parse (origin text : String) : Except ConfigError ProjectConfig :=
  match Config.Json.parse? text >>= ofJson? with
  | some aliases => .ok ⟨none, aliases⟩
  | none => .error (.malformed origin)

/-! ### Files -/

/-- The configuration file of a project. -/
def find? (t : FileTree) (root : Path) : Option Path :=
  (fileNames.map fun name => root.join ⟨name⟩).find? t.isFile

/-- The configuration of a project; without a file it is empty. -/
def load (t : FileTree) (root : Path) : Except ConfigError ProjectConfig :=
  match find? t root with
  | none => .ok empty
  | some path =>
    match (t.file? path).bind File.text with
    | none => .error (.unreadable path)
    | some text => (parse path.text text).map fun c => { c with path := some path }

/-- The configuration last read: its file, when that was modified, and what it held. -/
structure Slot where
  path : Path
  modified : Int
  config : ProjectConfig
  deriving DecidableEq, Repr

/-- The configuration of a project by way of a slot, and the slot afterwards. A file that cannot be
used counts as one without aliases; without a file the slot is emptied. -/
def cached (t : FileTree) (root : Path) (slot : Option Slot) : ProjectConfig × Option Slot :=
  match find? t root with
  | none => (empty, none)
  | some path =>
    let modified := ((t.file? path).map File.modified).getD 0
    let fresh :=
      let config := match load t root with
        | .ok config => config
        | .error _ => ⟨some path, []⟩
      (config, some ⟨path, modified, config⟩)
    match slot with
    | some s => if s.path.same path ∧ s.modified = modified then (s.config, some s) else fresh
    | none => fresh

end ProjectConfig

end ComponentInsight
