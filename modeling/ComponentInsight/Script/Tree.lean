import ComponentInsight.Number.Binary64

/-!
# Script trees

The part of a script's structure that metadata is read from: imports, the default export, top-level
variables, and of expressions the literals, references, calls, arrow functions and dynamic imports.
Everything else is `Expr.other`, of which only the position is kept. Positions count characters from
the beginning of the script.
-/

namespace ComponentInsight.Script

/-- A range of characters of the script. -/
structure Span where
  start : Nat
  stop : Nat
  deriving DecidableEq, Repr, Inhabited

/-- The key of an object entry. -/
inductive Key where
  /-- An identifier or a string literal, also in brackets, with its decoded text. -/
  | static (name : String)
  /-- A number, or a computed key. -/
  | dynamic
  deriving DecidableEq, Repr

/-- The text of a static key. -/
def Key.name? : Key → Option String
  | .static name => some name
  | .dynamic => none

/-- How a value is wrapped without changing what it is. -/
inductive Wrapper where
  /-- `(x)` -/
  | parentheses
  /-- `x as T` -/
  | cast
  /-- `x satisfies T` -/
  | satisfaction
  /-- `x!` -/
  | nonNull
  deriving DecidableEq, Repr

mutual

/-- An expression. -/
inductive Expr where
  | null (span : Span)
  | boolean (span : Span) (value : Bool)
  | number (span : Span) (value : Magnitude)
  | string (span : Span) (value : String)
  /-- A template literal without substitutions, with its raw text. -/
  | template (span : Span) (raw : String)
  | identifier (span : Span) (name : String)
  /-- `a.b` -/
  | member (span : Span)
  /-- `a[b]` or `a.#b` -/
  | element (span : Span)
  | array (span : Span) (items : List Item)
  | object (span : Span) (entries : List Entry)
  | call (span : Span) (arguments : List Item)
  /-- An arrow function; the result is there when its body is an expression. -/
  | arrow (span : Span) (result : Option Expr)
  /-- `import(source)` -/
  | importCall (span : Span) (source : Expr)
  | wrapped (span : Span) (wrapper : Wrapper) (inner : Expr)
  /-- `<T>x` -/
  | assertion (span : Span) (inner : Expr)
  /-- `target = value` -/
  | assignment (span : Span)
  /-- An access such as `a?.b` that stops at a missing value. -/
  | chain (span : Span)
  /-- Any other expression. -/
  | other (span : Span)

/-- An element of an array literal, or an argument of a call. -/
inductive Item where
  | hole
  | spread (argument : Expr)
  | value (e : Expr)

/-- An entry of an object literal. The value of a method, getter or setter is its function. -/
inductive Entry where
  | spread (argument : Expr)
  | property (span : Span) (key : Key) (value : Expr) (shorthand method : Bool)

end

def Item.isSpread : Item → Bool
  | .spread _ => true
  | _ => false

def Entry.isSpread : Entry → Bool
  | .spread _ => true
  | _ => false

/-- Where an expression stands. -/
def Expr.span : Expr → Span
  | .null s | .boolean s _ | .number s _ | .string s _ | .template s _ | .identifier s _
  | .member s | .element s | .array s _ | .object s _ | .call s _ | .arrow s _ | .importCall s _
  | .wrapped s _ _ | .assertion s _ | .assignment s | .chain s | .other s => s

/-- What kind of import a local name is bound by. -/
inductive ImportKind where
  | default
  | named
  | star
  deriving DecidableEq, Repr

/-- One local name bound by an import declaration. -/
structure ImportBinding where
  localName : String
  specifier : String
  kind : ImportKind
  typeOnly : Bool
  deriving DecidableEq, Repr

/-- One `name = value` of a variable statement; the name is missing for a pattern. -/
structure Declarator where
  name : Option String
  value : Option Expr

/-- A top-level statement. -/
inductive Statement where
  | imports (bindings : List ImportBinding)
  /-- `export default`; the value is missing when a declaration is exported. -/
  | exportDefault (value : Option Expr)
  | binding (declarators : List Declarator)
  | other

/-- A parsed script with its text. -/
structure Program where
  text : Array Char
  statements : List Statement

/-- The text of a range. -/
def Program.slice (m : Program) (s : Span) : String :=
  String.ofList (m.text.extract s.start s.stop).toList

/-- Every import binding of the top level, in order. -/
def Program.importBindings (m : Program) : List ImportBinding :=
  m.statements.flatMap fun
    | .imports bindings => bindings
    | _ => []

/-- The first import that binds a local name. -/
def Program.importFor? (m : Program) (name : String) : Option ImportBinding :=
  m.importBindings.find? fun b => b.localName == name

end ComponentInsight.Script
