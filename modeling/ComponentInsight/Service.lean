import ComponentInsight.Config.Project
import ComponentInsight.Lookup

/-!
# The resolution service

Cached metadata of the files and buffers of one project. A request brings the file tree and the
editor settings as they are; the service remembers what it read before, in two caches and a slot for
the project configuration. It never fails: a file that is missing or cannot be read has empty
metadata.

Mixins are looked up in the file cache by every request, also by those for buffers.
-/

namespace ComponentInsight

/-- How a service is set up. -/
structure ServiceOptions where
  /-- The directory aliases and dependencies are resolved in. -/
  root : Path
  fileCapacity : Nat := 100
  bufferCapacity : Nat := 10
  /-- The directory of dependencies, below the root. -/
  dependencyDir : String := "node_modules"
  deriving DecidableEq, Repr

/-- What a service remembers. -/
structure Service where
  options : ServiceOptions
  files : Cache Record
  buffers : Cache Record
  /-- The project configuration read last. -/
  config : Option ProjectConfig.Slot

namespace Service

/-- A service that has read nothing yet. -/
def start (options : ServiceOptions) : Service where
  options
  files := .empty options.fileCapacity
  buffers := .empty options.bufferCapacity
  config := none

/-- The resolver for a request with the given settings. -/
def resolver (s : Service) (t : FileTree) (settings : Settings) : Resolver × Service :=
  let (project, config) := ProjectConfig.cached t s.options.root s.config
  let aliases := AliasTable.merged settings.aliases project.aliases
  (⟨s.options.root, aliases, s.options.dependencyDir⟩, { s with config })

/-- The workspace of a request with the given settings. -/
def workspace (s : Service) (t : FileTree) (settings : Settings) : Workspace × Service :=
  let (resolver, s) := s.resolver t settings
  (⟨t, resolver⟩, s)

/-- The metadata of a file in a workspace; nothing if there is no file. -/
def file (s : Service) (w : Workspace) (path : Path) (kind : DocumentKind) :
    Option Metadata × Service :=
  let (found, files) := w.lookup [] path kind s.files
  (found.map fun f => f.reading.record.metadata, { s with files })

/-- The metadata of a buffer in a workspace. -/
def buffer (s : Service) (w : Workspace) (text : String) (path : Path) : Metadata × Service :=
  let (record, buffers, files) := w.lookupBuffer text path s.buffers s.files
  (record.metadata, { s with buffers, files })

/-! ### Requests -/

/-- The metadata of a file, read as told. -/
def resolveFileAs (s : Service) (t : FileTree) (settings : Settings) (path : Path)
    (kind : DocumentKind) : Metadata × Service :=
  let (w, s) := s.workspace t settings
  let (metadata, s) := s.file w path kind
  (metadata.getD .empty, s)

/-- The metadata of a file, read by its extension. -/
def resolveFile (s : Service) (t : FileTree) (settings : Settings) (path : Path) :
    Metadata × Service :=
  s.resolveFileAs t settings path (.forPath path)

/-- The registered components of a document being edited, which may differ from its file. -/
def resolveBuffer (s : Service) (t : FileTree) (settings : Settings) (text : String) (path : Path) :
    Metadata × Service :=
  let (w, s) := s.workspace t settings
  s.buffer w text path

/-- The file of a child component that is registered by a document being edited. -/
def componentPath? (s : Service) (t : FileTree) (settings : Settings) (text : String) (path : Path)
    (tag : String) : Option Path × Service :=
  let (metadata, s) := s.resolveBuffer t settings text path
  (metadata.component? tag, s)

/-- The metadata of a child component that is registered by a document being edited. -/
def componentMetadata? (s : Service) (t : FileTree) (settings : Settings) (text : String)
    (path : Path) (tag : String) : Option Metadata × Service :=
  let (w, s) := s.workspace t settings
  let (metadata, s) := s.buffer w text path
  match metadata.component? tag with
  | none => (none, s)
  | some child => s.file w child (.forPath child)

/-- Forget all results; counters and project configuration stay. -/
def clear (s : Service) : Service := { s with files := s.files.clear, buffers := s.buffers.clear }

end Service

end ComponentInsight
