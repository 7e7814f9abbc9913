import ComponentInsight.Document.Block
import ComponentInsight.Table

/-!
# Regions of a component document

The blocks of a document by their roles: at most one template, one plain script and one setup
script, any number of styles, and blocks with other tags. The script that describes the component is
the plain one, or the setup script when there is no plain one.
-/

namespace ComponentInsight.Document

/-- Where a block stands: the offsets of its content and the lines of the whole block. -/
structure Location where
  start : Nat
  stop : Nat
  startLine : Nat
  endLine : Nat
  deriving DecidableEq, Repr

def Block.location (b : Block) : Location :=
  ⟨b.content.start, b.content.stop, b.startLine, b.endLine⟩

/-- The attributes of a block; of a repeated name the last value counts. -/
def Block.attributeTable (b : Block) : Table String String :=
  Table.ofEntries (b.attributes.map fun a => (a.name.text, a.value.text))

/-- The value of an attribute. -/
def Block.attribute? (b : Block) (name : String) : Option String := b.attributeTable.find? name

/-- The language a block is written in. -/
def Block.lang? (b : Block) : Option String := b.attribute? "lang"

/-- Whether a script block runs for every instance. -/
def Block.isSetup (b : Block) : Bool := (b.attribute? "setup").isSome

/-- Whether a script block is typed. -/
def Block.isTyped (b : Block) : Bool := b.lang? == some "ts" || b.lang? == some "tsx"

/-- A file name whose extension tells the dialect of a script block. -/
def Block.scriptFileName (b : Block) : String :=
  if b.lang? == some "ts" then "script.ts"
  else if b.lang? == some "tsx" then "script.tsx"
  else "script.jsx"

/-- Why a document has no regions. -/
inductive SplitError where
  | duplicateTemplate (block : Location)
  | duplicateScript (block : Location)
  | duplicateSetup (block : Location)
  | missingScript
  deriving DecidableEq, Repr

namespace SplitError

def message : SplitError → String
  | .duplicateTemplate _ => "SFC can only contain one <template> block"
  | .duplicateScript _ => "SFC can only contain one <script> block"
  | .duplicateSetup _ => "SFC can only contain one <script setup> block"
  | .missingScript => "SFC has no <script> block"

/-- The name of the error for programs. -/
def code : SplitError → String
  | .duplicateTemplate _ => "DUPLICATE_TEMPLATE"
  | .duplicateScript _ => "DUPLICATE_SCRIPT"
  | .duplicateSetup _ => "DUPLICATE_SCRIPT_SETUP"
  | .missingScript => "MISSING_SCRIPT"

/-- The block that should not be there. -/
def location? : SplitError → Option Location
  | .duplicateTemplate l | .duplicateScript l | .duplicateSetup l => some l
  | .missingScript => none

end SplitError

/-- The blocks of a document by role. -/
structure Outline where
  template : Option Block
  script : Option Block
  setup : Option Block
  styles : List Block
  /-- The tags of other blocks, as written. -/
  custom : List String
  deriving DecidableEq, Repr

namespace Outline

def empty : Outline := ⟨none, none, none, [], []⟩

/-- Add a block in its role. -/
def add (o : Outline) (b : Block) : Except SplitError Outline :=
  match b.kind with
  | "template" =>
    if o.template.isSome then .error (.duplicateTemplate b.location)
    else .ok { o with template := some b }
  | "script" =>
    if b.isSetup then
      if o.setup.isSome then .error (.duplicateSetup b.location) else .ok { o with setup := some b }
    else
      if o.script.isSome then .error (.duplicateScript b.location)
      else .ok { o with script := some b }
  | "style" => .ok { o with styles := o.styles ++ [b] }
  | _ => .ok { o with custom := o.custom ++ [b.tag.text] }

/-- The outline of a document, or the first block that should not be there. -/
def ofText (text : String) : Except SplitError Outline := (blocks text).foldlM add empty

/-- The script that describes the component. -/
def mainScript (o : Outline) : Except SplitError Block :=
  match o.script, o.setup with
  | some b, _ => .ok b
  | none, some b => .ok b
  | none, none => .error .missingScript

end Outline

/-- The script that describes the component of a document. -/
def scriptOf (text : String) : Except SplitError Block := do
  (← Outline.ofText text).mainScript

end ComponentInsight.Document
