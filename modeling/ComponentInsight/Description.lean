import ComponentInsight.Metadata

/-!
# Descriptions

Plain texts an editor shows or inserts for a component: hover lines, completions inside its tag and
a snippet for a new element. Attributes are written in kebab-case, elements in PascalCase.
-/

namespace ComponentInsight

/-- What a completion binds. -/
inductive BindingKind where
  | prop
  | event
  deriving DecidableEq, Repr

/-- A completion inside the tag of a component. -/
structure Completion where
  kind : BindingKind
  label : String
  /-- The text to insert; `$0` is where the cursor goes. -/
  insertion : String
  deriving DecidableEq, Repr

/-- The hover line of a prop. -/
def PropSpec.hoverLine (p : PropSpec) (name : String) : String :=
  "prop " ++ (if p.required then "(required) " else "") ++ name ++
    (match p.type? with
      | some t => ": " ++ t.text
      | none => "")

/-- An attribute with its value. -/
def attributeText (sigil name value : String) : String :=
  sigil ++ Name.kebab name ++ "=\"" ++ value ++ "\""

namespace Metadata

variable (m : Metadata)

/-- A line for every prop, then one for every event. -/
def hoverLines : List String :=
  (m.props.map fun e => e.2.hoverLine e.1) ++ m.events.map fun e => "event " ++ e

/-- A binding for every prop, then a listener for every event. -/
def completions : List Completion :=
  (m.props.map fun e => ⟨.prop, "p-" ++ e.1, attributeText ":" e.1 "$0"⟩) ++
    m.events.map fun e => ⟨.event, "e-" ++ e, attributeText "@" e "$0"⟩

/-- Bindings of props to tab stops, numbered from the given one. -/
def tabStops : Nat → List String → String
  | _, [] => ""
  | n, prop :: rest => " " ++ attributeText ":" prop ("$" ++ toString n) ++ tabStops (n + 1) rest

/-- A new element with a tab stop for every required prop. -/
def snippet (name : String) : String :=
  let tag := Name.pascal name
  "<" ++ tag ++ tabStops 1 m.requiredProps ++ ">$0</" ++ tag ++ ">"

end Metadata

end ComponentInsight
