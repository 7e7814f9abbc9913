import ComponentInsight.Import.Resolver
import ComponentInsight.Options.Props

/-!
# Metadata

What an editor needs to know about a component: its props, the child components it registers and
the events it emits, all in order of first declaration. A mixin contributes its own metadata by
`inherit`, which keeps what is already there: with mixins taken in order, the first declaration
wins.
-/

namespace ComponentInsight

/-- How a document is read. -/
inductive DocumentKind where
  /-- A component document, of which everything is read. -/
  | component
  /-- A script, of which everything is read. -/
  | mixin
  /-- A component document, of which only the registered components are read. -/
  | componentsOnly
  deriving DecidableEq, Repr

namespace DocumentKind

/-- How a file is read when nothing else is said: by its extension. -/
def forPath (p : Path) : DocumentKind :=
  if p.extension? = some "vue" then .component else .mixin

/-- How an imported file is read. -/
def ofModuleKind : ModuleKind → DocumentKind
  | .component => .component
  | .mixin => .mixin

/-- Whether the document has blocks, of which one is the script. -/
def hasBlocks (k : DocumentKind) : Bool := k != .mixin

/-- Whether props are read. -/
def readsProps (k : DocumentKind) : Bool := k != .componentsOnly

/-- Whether events are read. -/
def readsEvents (k : DocumentKind) : Bool := k != .componentsOnly

/-- Every way to read a document. -/
def all : List DocumentKind := [.component, .mixin, .componentsOnly]

theorem mem_all (k : DocumentKind) : k ∈ all := by cases k <;> decide

/-- The name that goes into fingerprints. -/
def tag : DocumentKind → String
  | .component => "component"
  | .mixin => "mixin"
  | .componentsOnly => "components-only"

end DocumentKind

/-- Props, child components and events. -/
structure Metadata where
  props : PropTable
  /-- Files of child components, by their PascalCase names. -/
  components : Table String Path
  events : List String
  deriving DecidableEq, Repr

namespace Metadata

def empty : Metadata := ⟨[], [], []⟩

def isEmpty (m : Metadata) : Bool := m.props.isEmpty && m.components.isEmpty && m.events.isEmpty

/-- The props that must be given, in order. -/
def requiredProps (m : Metadata) : List String :=
  (m.props.filter fun e => e.2.required).map Prod.fst

/-- The file of the child component a tag stands for, as registered or in PascalCase. -/
def component? (m : Metadata) (tag : String) : Option Path :=
  (m.components.find? tag).or (m.components.find? (Name.pascal tag))

/-- Add what a mixin contributes; entries already there are kept. -/
def inherit (m : Metadata) (kind : DocumentKind) (mixin : Metadata) : Metadata where
  props := if kind.readsProps then m.props.putAllNew mixin.props else m.props
  components := m.components.putAllNew mixin.components
  events := if kind.readsEvents then Distinct.addAll m.events mixin.events else m.events

end Metadata

end ComponentInsight
