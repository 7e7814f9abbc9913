import ComponentInsight.Script.Grammar.Functions

/-!
# Classes

Classes are read for where they end; only their names matter, when they are exported. Most of the
rules are about members: which modifiers they take, what a constructor may look like, and that
nothing is defined where declarations are ambient.
-/

namespace ComponentInsight.Script.Classes

open Script.Parser Script.Modifiers Script.Patterns Script.Types Script.Functions

variable (g : Grammar)

/-! ### Members -/

/-- The name of a member with the given modifiers, unless it is computed or private. A private name
is not `#constructor` and has no access modifier. -/
def memberKey (ms : List String) : Parser (Option String) := do
  match ← kind with
  | .privateName n =>
    flawIf (n == "constructor" || ["public", "private", "protected"].any ms.contains)
    bump
    return none
  | .punct "[" =>
    let _ ← propertyKey g
    return none
  | _ => return (← propertyKey g).name?

/-- A static member is not named `prototype`. -/
def checkStatic (ms : List String) (key : Option String) : Parser Unit := do
  flawIf (ms.contains "static" && key == some "prototype" && !(← context).ambient)

/-- Whether a member with these modifiers and this name is a constructor. -/
def isConstructor (ms : List String) (key : Option String) : Bool :=
  !ms.contains "static" && key == some "constructor"

/-- An abstract or ambient function has no body. -/
def checkBody (ms : List String) (f : Callable) : Parser Unit := do
  flawIf (f.hasBody && (ms.contains "abstract" || (← context).ambient))

/-- A constructor is a plain function, without type parameters and return type. -/
def checkConstructor (async generator : Bool) (s : Signature) : Parser Unit :=
  flawIf (async || generator || s.generic || s.returns)

/-- A getter or setter, from its word on. -/
def accessor (ms : List String) : Parser Unit := do
  let setter ← atWord "set"
  bump
  let key ← memberKey g ms
  flawIf (isConstructor ms key)
  checkStatic ms key
  let f ← functionRest g .method false false (← isTyped)
  if setter then checkSetter f.signature.parameters else checkGetter f.signature.parameters
  checkBody ms f
  permit ["abstract", "override", "private", "protected", "public", "static"] ms

/-- A method or constructor, from its signature on. -/
def method (ms : List String) (key : Option String) (generator : Bool) : Parser Unit := do
  let async := ms.contains "async"
  let owner : Owner := if isConstructor ms key then .constructor else .method
  checkStatic ms key
  let f ← functionRest g owner async generator (← isTyped)
  if owner == .constructor then checkConstructor async generator f.signature
  checkBody ms f
  permit ["abstract", "async", "override", "private", "protected", "public", "static"] ms

/-- A field with an accessor pair, from its annotation on. -/
def accessorField (ms : List String) (optional : Bool) : Parser Unit := do
  flawIf optional
  let _ ← annotation g
  let initialized ← initializer g
  flawIf (ms.contains "abstract" && initialized)
  semicolon

/-- A field, from its annotation on. A comma may end it. -/
def field (ms : List String) : Parser Unit := do
  let annotated ← annotation g
  let initialized ← within (functionContext false false) (initializer g)
  let constant := ms.contains "readonly" && !annotated
  flawIf (initialized && (ms.contains "abstract" || ((← context).ambient && !constant)))
  unless ← eatPunct "," do semicolon

/-- A member that is no getter or setter. -/
def propertyOrMethod (ms : List String) : Parser Unit := do
  let generator ← eatPunct "*"
  let key ← memberKey g ms
  let optional ← eatPunct "?"
  if generator || (← atNameless) then return ← method g ms key generator
  let definite ← eatPunct "!"
  flawIf (optional && definite)
  flawIf (key == some "constructor")
  checkStatic ms key
  if ms.contains "accessor" then accessorField g ms optional else field g ms

/-- A block that is run when the class is made. -/
def staticBlock : Parser Unit := do
  expectWord "static"
  within (fun c => { functionContext true false c with returns := false }) (block g)

/-- One member of a class. -/
def classMember : Parser Unit := do
  let decorated ← decorators g
  let ms ← modifiers ofMembers
  if (← atWord "static") && (← next (atPunct openBrace)) then
    flawIf (decorated || !ms.isEmpty)
    return ← staticBlock g
  if (← atAnyWord ["get", "set"]) && (← next atPropertyKey) then return ← accessor g ms
  if (← isTyped) && (← atPunct "[") && (← atIndexSignature) then
    flawIf decorated
    permit ["static", "readonly"] ms
    return ← indexSignature g
  let ambient := ms.contains "declare"
  within (fun c => { c with ambient := c.ambient || ambient }) (propertyOrMethod g ms)

/-- Members in braces. -/
def classBody : Parser Unit := do
  expectPunct openBrace
  within Grammar.bracketed <| loop (fun (_ : Unit) => do
    if ← atPunct closeBrace then return .done ()
    if ← eatPunct ";" then return .again ()
    classMember g
    return .again ()) ()
  expectPunct closeBrace

/-! ### Heads -/

/-- The types a class implements, from behind their word. -/
def implementedTypes : Parser Unit := do
  reference g
  loop (fun (_ : Unit) => do
    if ← eatPunct "," then
      reference g
      return .again ()
    else return .done ()) ()

/-- The class a class extends and the types it implements. -/
def heritage : Parser Unit := do
  if ← eatWord "extends" then
    let _ ← g.leftHand
    optionalArguments g
  if ← eatWord "implements" then implementedTypes g

/-- A class from the word `class` on, with its name if it has one. -/
def classRest : Parser (Option String) := do
  expectWord "class"
  let named ←
    if (← atIdentifier) && !(← atWord "implements") then pure (some (← identifier)) else pure none
  let _ ← typeParameters g
  heritage g
  classBody g
  return named

end ComponentInsight.Script.Classes
