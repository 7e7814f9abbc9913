import ComponentInsight.Declarations

/-!
# Extraction

The metadata of one document, from what it declares and from the metadata of its mixins. Imports
are located in a `Workspace`; those that lead to no file are left out.

`Workspace.merge` puts the two together: mixins come first, in order, so that the first declaration
wins among them; then the document's own declarations, which win over all. `Workspace.extract` is
the whole pass, for any source of mixin metadata.
-/

namespace ComponentInsight

/-- The files of a project and how its imports are resolved. -/
structure Workspace where
  tree : FileTree
  resolver : Resolver

namespace Workspace

/-- The file an import leads to. -/
def locate? (w : Workspace) (specifier : String) (importer : Path) (kind : ModuleKind) :
    Option Path :=
  w.resolver.locate? w.tree specifier importer kind

/-- The files of mixins. -/
def mixinPaths (w : Workspace) (importer : Path) (d : Declarations) : List Path :=
  d.mixins.filterMap fun specifier => w.locate? specifier importer .mixin

/-- The files of registered components, by name. -/
def componentPaths (w : Workspace) (importer : Path) (d : Declarations) : List (String × Path) :=
  d.components.filterMap fun e => (w.locate? e.2 importer .component).map fun path => (e.1, path)

/-- The metadata of mixins, folded in order. -/
def inherited (kind : DocumentKind) (mixins : List Metadata) : Metadata :=
  mixins.foldl (fun m mixin => m.inherit kind mixin) .empty

/-- The metadata of a document with the given mixins. -/
def merge (w : Workspace) (kind : DocumentKind) (importer : Path) (d : Declarations)
    (mixins : List Metadata) : Metadata :=
  let base := inherited kind mixins
  { props := base.props.putAll d.props
    components := base.components.putAll (w.componentPaths importer d)
    events := Distinct.addAll base.events d.events }

/-- The metadata of a document, given the metadata of mixin files. -/
def extract (w : Workspace) (mixin? : Path → Option Metadata) (kind : DocumentKind) (path : Path)
    (text : String) : Except DocumentError Metadata := do
  let d ← Declarations.ofDocument kind path text
  return w.merge kind path d ((w.mixinPaths path d).filterMap mixin?)

end Workspace

end ComponentInsight
