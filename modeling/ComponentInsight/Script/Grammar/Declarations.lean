import ComponentInsight.Script.Grammar.Classes

/-!
# Declarations

Variables, functions, classes and the declarations of typed dialects, each with the names it
declares.
-/

namespace ComponentInsight.Script.Declarations

open Script.Parser Script.Modifiers Script.Patterns Script.Types Script.Functions Script.Classes

variable (g : Grammar)

/-- A declaration as a statement, with the names it declares. -/
structure Declared where
  statement : Statement
  names : List String

/-! ### Variables -/

/-- What a variable declaration begins with. -/
inductive VariableKind where
  /-- `var` or `let` -/
  | plain
  /-- `const` -/
  | constant
  /-- `using`, with or without `await` -/
  | resource
  deriving DecidableEq

/-- A declarator with the names it binds. -/
structure Bound where
  declarator : Declarator
  names : List String

/-- One `name = value`. A definite variable has a type and no value, an ambient one has a value only
if it is a constant without a type, and a resource is a plain name. -/
def declarator (kind : VariableKind) : Parser Bound := do
  let p ← g.pattern
  let isName := p.name?.isSome
  let definite ← if (← isTyped) && isName && !(← onNewLine) then eatPunct "!" else pure false
  let annotated ← annotation g
  let value ← if ← eatPunct "=" then
      pure (some (← within (fun c => { c with decorator := false }) (g.assignment true)))
    else pure none
  flawIf (definite && (value.isSome || !annotated))
  flawIf ((← context).ambient && value.isSome && (kind != .constant || annotated))
  flawIf (kind == .resource && !isName)
  return ⟨⟨p.name?, value⟩, p.names⟩

/-- Declarators separated by commas. -/
def declarators (kind : VariableKind) : Parser (List Bound) := do
  let first ← declarator g kind
  loop (fun (bound : List Bound) => do
    if ← eatPunct "," then return .again ((← declarator g kind) :: bound)
    else return .done bound.reverse) [first]

/-- Record a flaw if a variable lacks the value it needs: resources have one, and so have constants
and patterns that are not ambient. -/
def checkValues (kind : VariableKind) (bound : List Bound) : Parser Unit := do
  let ambient := (← context).ambient
  flawIf (bound.any fun b => b.declarator.value.isNone &&
    (kind == .resource || (!ambient && (kind == .constant || b.declarator.name.isNone))))

/-- Variables from their word on, up to the end of the statement. -/
def variableStatement (kind : VariableKind) : Parser Declared := do
  bump
  let bound ← declarators g kind
  checkValues kind bound
  semicolon
  return ⟨.binding (bound.map Bound.declarator), bound.flatMap Bound.names⟩

/-- At `using` with a name on the same line. -/
def atUsing : Parser Bool := do
  if ← atWord "using" then nextOnLine atIdentifier else return false

/-- At `await using` with a name on the same line. -/
def atAwaitUsing : Parser Bool := do
  if (← context).awaits && (← atWord "await") then nextOnLine atUsing else return false

/-! ### Declarations of typed dialects -/

/-- The name of an enumeration member. -/
def memberName : Parser Unit := do
  match ← kind with
  | .word .. | .string .. => bump
  | .punct "[" =>
    bump
    match ← g.value with
    | .string .. | .template .. => expectPunct "]"
    | _ => fail
  | _ => fail

/-- An enumeration from its word on. -/
def enumeration : Parser Declared := do
  expectWord "enum"
  let n ← identifier
  expectPunct openBrace
  let _ ← commaList closeBrace (do
    memberName g
    let _ ← initializer g)
  expectPunct closeBrace
  return ⟨.other, [n]⟩

/-- An interface that another one extends: a name with its arguments. -/
def extended : Parser Unit := do
  let _ ← identifier
  qualifiers
  optionalArguments g

/-- An interface from its word on. -/
def interface : Parser Declared := do
  expectWord "interface"
  let n ← identifier
  let _ ← typeParameters g
  if ← eatWord "extends" then
    extended g
    loop (fun (_ : Unit) => do
      if ← eatPunct "," then
        extended g
        return .again ()
      else return .done ()) ()
  typeMembers g
  return ⟨.other, [n]⟩

/-- A type alias from its word on. The word `intrinsic` stands for a type of its own there. -/
def typeAlias : Parser Declared := do
  expectWord "type"
  let n ← identifier
  let _ ← typeParameters g
  expectPunct "="
  if (← atWord "intrinsic") && !(← next (atPunct ".")) then bump
  else
    let _ ← g.nestedType
  semicolon
  return ⟨.other, [n]⟩

/-- A namespace, or a module named by a string, which may have no body. -/
def namespaceDeclaration : Parser Declared := do
  let external ← atWord "module"
  bump
  if external && (← atString) then
    bump
    if ← atPunct openBrace then block g else semicolon
    return ⟨.other, []⟩
  let n ← identifier
  qualifiers
  block g
  return ⟨.other, [n]⟩

/-- What an alias stands for: `a.b.c` or `require('x')`, to the end of the statement. -/
def aliasTarget : Parser Unit := do
  if ← eatWord "require" then
    expectPunct "("
    let _ ← stringLiteral
    expectPunct ")"
  else
    let _ ← name
    qualifiers
  semicolon

/-- `import a = b`, from its word on. -/
def aliasDeclaration : Parser Declared := do
  expectWord "import"
  if (← atWord "type") && (← next atIdentifier) then bump
  let n ← identifier
  expectPunct "="
  aliasTarget
  return ⟨.other, [n]⟩

/-- Whether a declaration of typed dialects begins here, with its modifiers. -/
def atTypedDeclaration : Parser Bool := ahead <| loop (fun (_ : Unit) => do
  match ← keyword with
  | "var" | "let" | "const" | "function" | "class" | "enum" => return .done true
  | "interface" | "type" => return .done (← nextOnLine atIdentifier)
  | "module" | "namespace" =>
    return .done (← nextOnLine (do
      if ← atIdentifier then return true
      atString))
  | "global" => return .done (← next (atPunct openBrace))
  | "import" => return .done (← next atName)
  | w =>
    if !ofMembers.contains w then return .done false
    bump
    if w != "static" && (← onNewLine) then return .done false
    return .again ()) ()

/-- A declaration that only typed dialects know. -/
def typedDeclaration : Parser Declared := do
  match ← keyword with
  | "enum" => enumeration g
  | "interface" => interface g
  | "type" => typeAlias g
  | "namespace" | "module" => namespaceDeclaration g
  | "import" => aliasDeclaration
  | "global" =>
    bump
    block g
    return ⟨.other, []⟩
  | _ => fail

/-! ### All declarations -/

/-- A declared function, which has a name and no body if it is declared elsewhere. -/
def functionStatement (ms : List String) (async : Bool) : Parser Declared := do
  let f ← functionDeclaration g async
  permit ["async", "declare"] ms
  flawIf (ms.contains "declare" && f.hasBody)
  match f.name with
  | some n => return ⟨.other, [n]⟩
  | none => fail

/-- A declared class. -/
def classStatement (ms : List String) : Parser Declared := do
  permit ["abstract", "declare"] ms
  return ⟨.other, (← classRest g).toList⟩

/-- A declaration behind its modifiers. -/
def declaration (ms : List String) : Parser Declared := do
  match ← keyword with
  | "const" =>
    permit ["declare"] ms
    if (← isTyped) && (← next (atWord "enum")) then
      bump
      enumeration g
    else variableStatement g .constant
  | "var" | "let" =>
    permit ["declare"] ms
    variableStatement g .plain
  | "class" => classStatement g ms
  | "function" => functionStatement g ms (ms.contains "async")
  | "async" =>
    unless ← atAsyncFunction do fail
    bump
    functionStatement g ms true
  | _ =>
    unless ← isTyped do fail
    permit ["declare"] ms
    typedDeclaration g

/-- A declaration with its modifiers, which only typed dialects know. -/
def modifiedDeclaration : Parser Declared := do
  let ms ← if ← isTyped then modifiers ofMembers else pure []
  within (fun c => { c with ambient := c.ambient || ms.contains "declare" }) (declaration g ms)

end ComponentInsight.Script.Declarations
