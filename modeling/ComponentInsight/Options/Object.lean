import ComponentInsight.Script.Tree

/-!
# The options object

A component is described by the object its script exports by default, written in place, as the
first argument of a call, or as the value of a top-level variable. Wrappers around what is exported
and around the value of the variable do not matter (`Expr.unwrap`). Of two entries with one key the
last one counts.
-/

namespace ComponentInsight

open Script

namespace Script

/-- An expression without the wrappers around it. -/
def Expr.unwrap : Expr → Expr
  | .wrapped _ _ inner => inner.unwrap
  | e => e

/-- What does not see one wrapper sees the expression without all of them. -/
theorem Expr.apply_unwrap {α : Type} (f : Expr → α)
    (hf : ∀ span wrapper inner, f (.wrapped span wrapper inner) = f inner) (e : Expr) :
    f e.unwrap = f e := by
  fun_induction Expr.unwrap e with
  | case1 span wrapper inner ih => rw [ih, hf]
  | case2 e hbare => rfl

/-- The value of the first default export that is an expression. -/
def Program.exportedValue? (m : Program) : Option Expr :=
  m.statements.findSome? fun
    | .exportDefault value => value
    | _ => none

/-- The value of a top-level variable: of its declarators the first that has one. -/
def Program.variableValue? (m : Program) (name : String) : Option Expr :=
  m.statements.findSome? fun
    | .binding declarators =>
      declarators.findSome? fun d => if d.name == some name then d.value else none
    | _ => none

end Script

/-- An entry with a static key. -/
structure OptionEntry where
  key : String
  span : Span
  value : Expr
  shorthand : Bool
  method : Bool

/-- The options object of a module. -/
structure OptionsObject where
  program : Program
  entries : List Entry

namespace OptionsObject

/-- The entries of an object literal, or of one that is the first argument of a call. -/
def literalEntries? : Expr → Option (List Entry)
  | .object _ entries => some entries
  | .call _ (.value (.object _ entries) :: _) => some entries
  | _ => none

/-- The entries an exported expression stands for. A name is followed to its variable, once. -/
def entriesOf? (m : Program) (e : Expr) : Option (List Entry) :=
  match e.unwrap with
  | .identifier _ name => m.variableValue? name >>= fun value => literalEntries? value.unwrap
  | e => literalEntries? e

/-- The options object a module exports by default. -/
def ofProgram? (m : Program) : Option OptionsObject := do
  let value ← m.exportedValue?
  return ⟨m, ← entriesOf? m value⟩

/-- An entry, if its key is static. -/
def asStatic? : Entry → Option OptionEntry
  | .property span key value shorthand method =>
    key.name?.map fun name => ⟨name, span, value, shorthand, method⟩
  | .spread _ => none

/-- The entries with static keys, in order. -/
def staticEntries (o : OptionsObject) : List OptionEntry := o.entries.filterMap asStatic?

/-- The entry that counts for a key: the last one. -/
def lastWith? (o : OptionsObject) (key : String) : Option OptionEntry :=
  o.entries.reverse.findSome? fun e => (asStatic? e).filter fun s => s.key == key

/-- The value of an option. -/
def value? (o : OptionsObject) (key : String) : Option Expr :=
  (o.lastWith? key).map OptionEntry.value

/-- The source text of an option's value. -/
def source? (o : OptionsObject) (key : String) : Option String :=
  (o.value? key).map fun e => o.program.slice e.span

/-- The source text of an entry: a method's whole, otherwise its value's. -/
def entrySource (o : OptionsObject) (e : OptionEntry) : String :=
  o.program.slice (if e.method then e.span else e.value.span)

end OptionsObject

end ComponentInsight
