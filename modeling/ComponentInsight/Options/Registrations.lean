import ComponentInsight.Name
import ComponentInsight.Options.Object

/-!
# Components, mixins, base and events

The options that name other things: child components (`components`), mixins (`mixins`), the base
options (`extends`) and declared events (`emits`).
-/

namespace ComponentInsight

open Script

/-- Where a registered component comes from. -/
inductive ComponentTarget where
  /-- A local name, normally an import. -/
  | byName (name : String)
  /-- A module that is imported on demand. -/
  | bySpecifier (specifier : String)
  deriving DecidableEq, Repr

/-- One registered component, by its PascalCase name. -/
structure Registration where
  name : String
  target : ComponentTarget
  deriving DecidableEq, Repr

/-- The module a dynamic import names. -/
def importedModule? (e : Expr) : Option String :=
  match e.unwrap with
  | .importCall _ (.string _ specifier) => some specifier
  | _ => none

mutual

/-- Where the value of a registration comes from: a name, a function whose result is a dynamic
import, or what the first argument of a call comes from. -/
def ComponentTarget.ofExpr? : Expr → Option ComponentTarget
  | .wrapped _ _ inner => ComponentTarget.ofExpr? inner
  | .identifier _ name => some (.byName name)
  | .arrow _ (some result) => (importedModule? result).map .bySpecifier
  | .call _ arguments => ComponentTarget.ofArguments? arguments
  | _ => none

/-- Where the first argument comes from. -/
def ComponentTarget.ofArguments? : List Item → Option ComponentTarget
  | .value e :: _ => ComponentTarget.ofExpr? e
  | _ => none

end

namespace OptionsObject

/-- The registration of an entry of the `components` option. -/
def registration? (e : Entry) : Option Registration := do
  let s ← asStatic? e
  return ⟨Name.pascal s.key, ← ComponentTarget.ofExpr? s.value⟩

/-- The components a value registers. -/
def registrationsOf (e : Expr) : List Registration :=
  match e.unwrap with
  | .object _ entries => entries.filterMap registration?
  | _ => []

/-- The names a list of mixins holds. -/
def mixinsOf (e : Expr) : List String :=
  match e.unwrap with
  | .array _ items => items.filterMap fun
    | .value (.identifier _ name) => some name
    | _ => none
  | _ => []

/-- The name of the base options. -/
def baseOf? (e : Expr) : Option String :=
  match e.unwrap with
  | .identifier _ name => some name
  | _ => none

/-- The events a value declares: string elements, or static keys. -/
def eventsOf (e : Expr) : List String :=
  match e.unwrap with
  | .array _ items => items.filterMap fun
    | .value (.string _ s) => some s
    | _ => none
  | .object _ entries => entries.filterMap fun e => (asStatic? e).map OptionEntry.key
  | _ => []

variable (o : OptionsObject)

def registrations? : Option (List Registration) := (o.value? "components").map registrationsOf

def mixins? : Option (List String) := (o.value? "mixins").map mixinsOf

def base? : Option String := o.value? "extends" >>= baseOf?

def events? : Option (List String) := (o.value? "emits").map eventsOf

end OptionsObject

end ComponentInsight
