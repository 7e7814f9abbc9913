import ComponentInsight.Name
import ComponentInsight.Options.Literal

/-!
# Props

The `props` option is a list of names or an object that gives each name a type or a descriptor.
Names are kept in camelCase, in order of first declaration.
-/

namespace ComponentInsight

/-- The runtime type of a prop, by the names it was declared with. -/
inductive TypeTag where
  | single (name : String)
  | union (names : List String)
  deriving DecidableEq, Repr

namespace TypeTag

/-- The type a value declares: a reference, or an array with at least one. -/
def ofLiteral? : Literal → Option TypeTag
  | .reference path => some (.single path)
  | .array items =>
    match items.filterMap Literal.asReference? with
    | [] => none
    | [name] => some (.single name)
    | names => some (.union names)
  | _ => none

/-- The names of the alternatives. -/
def names : TypeTag → List String
  | .single name => [name]
  | .union names => names

/-- The alternatives as they are shown. -/
def text (t : TypeTag) : String := " | ".intercalate t.names

end TypeTag

/-- What is known about a prop. -/
structure PropSpec where
  required : Bool
  type? : Option TypeTag
  /-- The text of the default value. -/
  default? : Option String
  deriving DecidableEq, Repr

namespace PropSpec

/-- A prop of which only the name is declared. -/
def unconstrained : PropSpec := ⟨false, none, none⟩

/-- Whether nothing but the name is known. -/
def isUnconstrained (p : PropSpec) : Bool := p == unconstrained

/-- The prop an entry of an object of props declares: by a descriptor, or by a type alone. -/
def ofLiteral (v : Literal) : PropSpec :=
  match v with
  | .object _ =>
    { required := (v.get? "required" >>= Literal.asBoolean?).getD false
      type? := v.get? "type" >>= TypeTag.ofLiteral?
      default? := (v.get? "default").map Literal.text }
  | _ => { unconstrained with type? := TypeTag.ofLiteral? v }

end PropSpec

/-- Props by their camelCase names. -/
abbrev PropTable := Table String PropSpec

/-- The props a value of the `props` option declares. -/
def PropTable.ofLiteral : Literal → PropTable
  | .array items =>
    Table.ofEntries ((items.filterMap Literal.asString?).map fun name =>
      (Name.camel name, PropSpec.unconstrained))
  | .object entries =>
    Table.ofEntries (entries.map fun e => (Name.camel e.1, PropSpec.ofLiteral e.2))
  | _ => []

/-- The props an options object declares, if it has a `props` option. -/
def OptionsObject.props? (o : OptionsObject) : Option PropTable :=
  (o.value? "props").map fun e => PropTable.ofLiteral (Literal.evaluate o.program e)

end ComponentInsight
