import ComponentInsight.Script.Grammar

/-!
# Assignment targets

What stands left of an assignment is first read as an expression. `targetDefaults?` tells whether it
can be assigned to, and which object entries of the form `name = value` are thereby defaults of a
pattern and no longer misplaced.
-/

namespace ComponentInsight.Script

/-- A name or member, possibly wrapped. -/
def Expr.isSimpleTarget : Expr → Bool
  | .identifier .. | .member _ | .element _ => true
  | .wrapped _ _ inner | .assertion _ inner => inner.isSimpleTarget
  | _ => false

mutual

/-- The positions of the object entries inside a target; nothing when it is not one. The position
of a literal is in `openSpreads` when a comma follows the spread at its end. -/
def Expr.targetDefaults? (openSpreads : List Nat) : Expr → Option (List Nat)
  | .array s items =>
    if openSpreads.contains s.start then none else itemDefaults? openSpreads items
  | .object s entries =>
    if openSpreads.contains s.start then none else entryDefaults? openSpreads entries
  | e => if e.isSimpleTarget then some [] else none

/-- The same for the elements of an array; a spread comes last, and an assignment is a target with
a default. -/
def itemDefaults? (openSpreads : List Nat) : List Item → Option (List Nat)
  | [] => some []
  | .hole :: rest => itemDefaults? openSpreads rest
  | [.spread e] => e.targetDefaults? openSpreads
  | .spread _ :: _ => none
  | .value (.assignment _) :: rest => itemDefaults? openSpreads rest
  | .value e :: rest => do
    return (← e.targetDefaults? openSpreads) ++ (← itemDefaults? openSpreads rest)

/-- The same for the entries of an object; the target of a spread is no pattern. -/
def entryDefaults? (openSpreads : List Nat) : List Entry → Option (List Nat)
  | [] => some []
  | [.spread e] => if e.isSimpleTarget then some [] else none
  | .spread _ :: _ => none
  | .property s _ (.assignment _) _ _ :: rest => do
    return s.start :: (← entryDefaults? openSpreads rest)
  | .property s _ e _ _ :: rest => do
    return s.start :: (← e.targetDefaults? openSpreads) ++ (← entryDefaults? openSpreads rest)

end

namespace Parser

/-- Require a target of a plain assignment. -/
def asTarget (e : Expr) : Parser Unit := do
  match e.targetDefaults? (← getState).openSpreads with
  | some positions =>
    modifyState fun s => { s with defaults := s.defaults.filter (!positions.contains ·) }
  | none => fail

/-- Require a name or member. -/
def asSimpleTarget (e : Expr) : Parser Unit := do
  unless e.isSimpleTarget do fail

end Parser

end ComponentInsight.Script
