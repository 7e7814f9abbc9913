import ComponentInsight.Script.Grammar.Modifiers

/-!
# Patterns and parameters

What declarations and parameters bind, with their annotations and initializers.
-/

namespace ComponentInsight.Script.Patterns

open Script.Parser Script.Modifiers

variable (g : Grammar)

/-- A type behind a colon, in a typed dialect; whether there is one. -/
def annotation : Parser Bool := do
  if (← isTyped) && (← atPunct ":") then
    bump
    let _ ← g.nestedType
    return true
  else return false

/-- A default value, if any. -/
def initializer : Parser Bool := do
  if ← eatPunct "=" then
    let _ ← g.value
    return true
  else return false

/-- A pattern with a default. -/
def element : Parser Pattern := do
  let p ← g.pattern
  let _ ← initializer g
  return p

/-- What takes the rest comes last. A comma behind it is permitted only where nothing is defined. -/
def endRest (close : String) : Parser Unit := do
  if ← atPunct "," then
    flawIf !((← context).ambient && (← next (atPunct close)))

/-- The rest of an array pattern, behind its bracket. -/
def arrayPattern : Parser Pattern := do
  let names ← loop (fun (names : List String) => do
    if ← eatPunct "]" then return .done names
    if ← eatPunct "," then return .again names
    let p ← if ← eatPunct "..." then
        let p ← g.pattern
        endRest "]"
        pure p
      else element g
    unless ← atPunct "]" do expectPunct ","
    return .again (names ++ p.names)) []
  return .nested names

/-- One property of an object pattern: the names it binds. -/
def property : Parser (List String) := do
  if ← eatPunct "..." then
    let n ← identifier
    endRest closeBrace
    return [n]
  let plain ← atIdentifier
  if ← atName then
    let n ← name
    if ← eatPunct ":" then return (← element g).names
    unless plain do fail
    let _ ← initializer g
    return [n]
  let _ ← propertyKey g
  expectPunct ":"
  return (← element g).names

/-- The rest of an object pattern, behind its brace. -/
def objectPattern : Parser Pattern := do
  let (names, _) ← commaList closeBrace (property g)
  expectPunct closeBrace
  return .nested names.flatten

/-- A binding target. -/
def pattern : Parser Pattern := do
  if ← eatPunct "[" then arrayPattern g
  else if ← eatPunct openBrace then objectPattern g
  else return .name (← identifier)

/-! ### Parameters -/

/-- What parameters belong to. -/
inductive Owner where
  /-- A function, a method of an object or the type of one. -/
  | function
  | arrow
  /-- A method of a class. -/
  | method
  | constructor
  deriving DecidableEq

/-- How a parameter is written. -/
structure Parameter where
  /-- It takes the rest of the arguments. -/
  rest : Bool
  optional : Bool
  initialized : Bool

/-- The parameters of a function, without the one named `this`. -/
structure Parameters where
  hasThis : Bool
  list : List Parameter

/-- The parameter named `this`, which comes first; whether it is there. -/
def thisParameter : Parser Bool := do
  if (← isTyped) && (← atWord "this") then
    bump
    let _ ← annotation g
    let _ ← eatPunct ","
    return true
  else return false

/-- Decorators of a parameter, which only methods of classes have. -/
def parameterDecorators (owner : Owner) : Parser Unit := do
  let decorated ← decorators g
  flawIf (decorated && !((← isTyped) && (owner == .method || owner == .constructor)))

/-- One parameter. Those of a constructor may have modifiers if they are plain names. -/
def parameter (owner : Owner) : Parser Parameter := do
  parameterDecorators g owner
  let ms ← if (← isTyped) && owner == .constructor then modifiers ofParameters else pure []
  if ← eatPunct "..." then
    flawIf !ms.isEmpty
    let _ ← g.pattern
    let _ ← annotation g
    flawIf (← atPunct "=")
    let _ ← initializer g
    return ⟨true, false, false⟩
  let p ← g.pattern
  flawIf (!ms.isEmpty && p.name?.isNone)
  let optional ← if ← isTyped then eatPunct "?" else pure false
  let _ ← annotation g
  let initialized ← initializer g
  flawIf (optional && initialized)
  return ⟨false, optional, initialized⟩

/-- Parameters in parentheses. A parameter for the rest comes last, as in `endRest`. -/
def parameters (owner : Owner) : Parser Parameters := do
  expectPunct "("
  let hasThis ← thisParameter g
  flawIf (hasThis && (owner == .arrow || owner == .constructor))
  let (list, trailing) ← within Grammar.bracketed (commaList ")" (parameter g owner))
  let lastIsRest := (list.getLast?.map Parameter.rest).getD false
  flawIf (list.dropLast.any Parameter.rest || (trailing && lastIsRest && !(← context).ambient))
  expectPunct ")"
  return ⟨hasThis, list⟩

/-- A getter has no parameters. -/
def checkGetter (ps : Parameters) : Parser Unit := flawIf !ps.list.isEmpty

/-- A setter has one parameter, which does not take the rest. In a typed dialect it is neither
optional nor initialized. -/
def checkSetter (ps : Parameters) : Parser Unit := do
  match ps.list with
  | [p] => flawIf (p.rest || ((← isTyped) && (p.optional || p.initialized)))
  | _ => flaw

end ComponentInsight.Script.Patterns
