import ComponentInsight.Document.Regions
import ComponentInsight.Events
import ComponentInsight.Metadata
import ComponentInsight.Options.Registrations
import ComponentInsight.Script.Parse

/-!
# Declarations

What a document says about its component by itself: the modules it mixes in, its own props, the
components it registers and the events it declares or emits. Nothing here looks at other files:
modules are named by the specifiers they are imported with. A document that cannot be read declares
nothing, for one of the causes in `DocumentError`.
-/

namespace ComponentInsight

/-- Why a document declares nothing. -/
inductive DocumentError where
  /-- Its blocks are not what they should be. -/
  | blocks (e : Document.SplitError)
  /-- Its script is not valid. -/
  | script
  /-- Its script exports no options object. -/
  | noOptions
  deriving DecidableEq, Repr

def DocumentError.message : DocumentError → String
  | .blocks e => "SFC error: " ++ e.message
  | .script => "script parse error"
  | .noOptions => "no default-exported options object"

/-- What a document declares. -/
structure Declarations where
  /-- The specifiers of the base options and of the mixins, in order. -/
  mixins : List String
  props : PropTable
  /-- Names of registered components with the specifiers of their modules, in order. -/
  components : List (String × String)
  events : List String
  deriving DecidableEq, Repr

namespace OptionsObject

variable (o : OptionsObject)

/-- The names of the base options and of the mixins. -/
def mixinNames : List String := o.base?.toList ++ o.mixins?.getD []

/-- The specifiers of the base options and of the mixins; names that are not imported are left
out. -/
def mixinSpecifiers : List String :=
  o.mixinNames.filterMap fun name => (o.program.importFor? name).map Script.ImportBinding.specifier

/-- The module a registered component comes from. -/
def specifierOf? : ComponentTarget → Option String
  | .byName name => (o.program.importFor? name).map Script.ImportBinding.specifier
  | .bySpecifier specifier => some specifier

/-- Registered components with the modules they come from. -/
def componentSpecifiers : List (String × String) :=
  (o.registrations?.getD []).filterMap fun r =>
    (o.specifierOf? r.target).map fun specifier => (r.name, specifier)

end OptionsObject

namespace Declarations

/-- The declarations of an options object in a document with the given text. -/
def ofOptions (kind : DocumentKind) (text : String) (o : OptionsObject) : Declarations where
  mixins := o.mixinSpecifiers
  props := if kind.readsProps then o.props?.getD [] else []
  components := o.componentSpecifiers
  events := if kind.readsEvents then o.events?.getD [] ++ Events.scan text else []

/-- The name of a file, by which the dialect of a script is chosen. -/
def scriptFileName (p : Path) : String := p.fileName?.getD "script.js"

/-- The script of a document and its dialect. -/
def script (kind : DocumentKind) (dialect : Script.Dialect) (text : String) :
    Except DocumentError (String × Script.Dialect) :=
  if kind.hasBlocks then
    match Document.scriptOf text with
    | .ok b => .ok (b.content.text, .ofFileName b.scriptFileName)
    | .error e => .error (.blocks e)
  else .ok (text, dialect)

/-- The declarations of a document. The dialect is the one of a document that is all script. -/
def read (kind : DocumentKind) (dialect : Script.Dialect) (text : String) :
    Except DocumentError Declarations := do
  let (source, dialect) ← script kind dialect text
  match Script.parse source dialect with
  | none => .error .script
  | some program =>
    match OptionsObject.ofProgram? program with
    | none => .error .noOptions
    | some o => .ok (ofOptions kind text o)

/-- The declarations of the document at a path. -/
def ofDocument (kind : DocumentKind) (path : Path) (text : String) :
    Except DocumentError Declarations :=
  read kind (.ofFileName (scriptFileName path)) text

end Declarations

/-- The declarations of a file read by way of a path, if it is text and declares anything. -/
def File.declarations? (f : File) (kind : DocumentKind) (path : Path) : Option Declarations :=
  f.text.bind fun text => (Declarations.ofDocument kind path text).toOption

end ComponentInsight
