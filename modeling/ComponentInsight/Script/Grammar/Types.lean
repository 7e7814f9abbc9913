import ComponentInsight.Script.Grammar.Patterns

/-!
# Types

Types are read and forgotten: only where they end matters, and for a few of them what they look
like (`TypeShape`).
-/

namespace ComponentInsight.Script.Types

open Script.Parser Script.Modifiers Script.Patterns

variable (g : Grammar)

/-! ### Arguments and parameters -/

/-- An opening angle bracket, also as the first half of `<<`. -/
def openAngle : Parser Unit := do
  if ← atAnyPunct ["<<", "<<=", "<="] then
    setToken (Lexer.leftAngle (← token))
  expectPunct "<"

/-- Type arguments. -/
def arguments : Parser Unit := do
  openAngle
  let (items, _) ← commaList ">" g.nestedType
  flawIf items.isEmpty
  expectPunct ">"

/-- Type arguments, if any. -/
def optionalArguments : Parser Unit := do
  if ← atAnyPunct ["<", "<<"] then arguments g

/-- Type arguments, if they begin on this line. -/
def argumentsOnLine : Parser Unit := do
  unless ← onNewLine do optionalArguments g

/-- One type parameter. -/
def typeParameter : Parser Unit := do
  let _ ← modifiers ofTypeParameters
  let _ ← identifier
  if ← eatWord "extends" then
    let _ ← g.nestedType
  if ← eatPunct "=" then
    let _ ← g.nestedType

/-- Type parameters, in a typed dialect; whether there are any. -/
def typeParameters : Parser Bool := do
  if (← isTyped) && (← atPunct "<") then
    bump
    let (items, _) ← commaList ">" (typeParameter g)
    flawIf items.isEmpty
    expectPunct ">"
    return true
  else return false

/-! ### Signatures -/

/-- At a name or `this`. -/
def atNameOrThis : Parser Bool := do
  if ← atIdentifier then return true
  atWord "this"

/-- A return type, which may state what a parameter is. -/
def returnType : Parser Unit := do
  if (← atName) && (← nextOnLine (atWord "is")) then
    bump
    bump
  let _ ← g.type

/-- A return type behind a colon, in a typed dialect; whether there is one. -/
def returnAnnotation : Parser Bool := do
  if (← isTyped) && (← atPunct ":") then
    bump
    within (fun c => { c with conditionalTypes := true }) (returnType g)
    return true
  else return false

/-- What precedes the body of a function. -/
structure Signature where
  /-- It has type parameters. -/
  generic : Bool
  parameters : Parameters
  /-- It has a return type. -/
  returns : Bool

/-- Type parameters, parameters and return type. -/
def signature (owner : Owner) : Parser Signature := do
  let generic ← typeParameters g
  let ps ← parameters g owner
  return ⟨generic, ps, ← returnAnnotation g⟩

/-! ### Function types -/

/-- Whether a parenthesis begins the parameters of a function type. -/
def atFunctionParameters : Parser Bool := ahead do
  bump
  if ← atAnyPunct [")", "..."] then return true
  if ← atNameOrThis then bump
  else if ← atAnyPunct ["[", openBrace] then
    let _ ← g.pattern
  else return false
  if ← atAnyPunct [":", ",", "?", "="] then return true
  if ← eatPunct ")" then atPunct "=>" else return false

/-- Whether a function or constructor type begins here. -/
def atFunctionType : Parser Bool := do
  if ← atPunct "<" then return true
  if ← atPunct "(" then return ← atFunctionParameters g
  if ← atWord "new" then return true
  if ← atWord "abstract" then next (atWord "new") else return false

/-- A function or constructor type. -/
def functionType : Parser Unit := do
  let _ ← eatWord "abstract"
  let _ ← eatWord "new"
  let _ ← typeParameters g
  let _ ← parameters g .function
  expectPunct "=>"
  returnType g

/-! ### References -/

/-- Names joined by dots, behind the first. -/
def qualifiers : Parser Unit :=
  loop (fun (_ : Unit) => do
    if ← eatPunct "." then
      let _ ← name
      return .again ()
    else return .done ()) ()

/-- A type reference with its arguments. Any word may name a type. -/
def reference : Parser Unit := do
  let _ ← name
  qualifiers
  argumentsOnLine g

/-- The options of an imported type: its attributes. -/
def importOptions : Parser Unit := do
  expectPunct openBrace
  unless ← atAnyWord ["with", "assert"] do fail
  bump
  expectPunct ":"
  importAttributes
  let _ ← eatPunct ","
  expectPunct closeBrace

/-- `import('x').A<T>` -/
def importType : Parser Unit := do
  expectWord "import"
  expectPunct "("
  let shape ← g.nestedType
  flawIf (shape != .text)
  if ← eatPunct "," then importOptions
  expectPunct ")"
  qualifiers
  argumentsOnLine g

/-- `typeof a.b<T>` -/
def typeQuery : Parser Unit := do
  expectWord "typeof"
  if ← atWord "import" then importType g else reference g

/-! ### Object types -/

/-- `{ readonly [K in T as U]?: V }` -/
def mappedType : Parser Unit := do
  expectPunct openBrace
  if ← atAnyPunct ["+", "-"] then
    bump
    expectWord "readonly"
  else
    let _ ← eatWord "readonly"
  expectPunct "["
  let _ ← name
  expectWord "in"
  let _ ← g.nestedType
  if ← eatWord "as" then
    let _ ← g.nestedType
  expectPunct "]"
  if ← atAnyPunct ["+", "-"] then
    bump
    expectPunct "?"
  else
    let _ ← eatPunct "?"
  let _ ← annotation g
  unless ← eatPunct "," do
    let _ ← eatPunct ";"
  expectPunct closeBrace

/-- Whether a brace begins a mapped type. -/
def atMappedType : Parser Bool := ahead do
  bump
  if ← atAnyPunct ["+", "-"] then
    bump
    return ← atWord "readonly"
  if ← atWord "readonly" then bump
  unless ← eatPunct "[" do return false
  let _ ← name
  atWord "in"

/-- What may stand behind a member of an object type. It may also be missing. -/
def memberEnd : Parser Unit := do
  unless ← eatPunct "," do
    let _ ← eatPunct ";"

/-- Whether a bracket begins an index signature. -/
def atIndexSignature : Parser Bool := ahead do
  bump
  let _ ← identifier
  atAnyPunct [":", ","]

/-- `[key: K]: V` -/
def indexSignature : Parser Unit := do
  expectPunct "["
  let _ ← name
  expectPunct ":"
  let _ ← g.nestedType
  expectPunct "]"
  expectPunct ":"
  let _ ← g.nestedType
  memberEnd

/-- A getter or setter of an object type, from its word on. -/
def accessorSignature : Parser Unit := do
  let setter ← atWord "set"
  bump
  let _ ← propertyKey g
  let ps ← parameters g .function
  let returns ← returnAnnotation g
  if setter then
    checkSetter ps
    flawIf returns
  else checkGetter ps

/-- One member of an object type or interface. -/
def typeMember : Parser Unit := do
  if ← atAnyPunct ["(", "<"] then
    let _ ← signature g .function
    return ← memberEnd
  if (← atWord "new") && (← next (atAnyPunct ["(", "<"])) then
    bump
    let _ ← signature g .function
    return ← memberEnd
  let ms ← modifiers ofTypeMembers
  if (← atAnyWord ["get", "set"]) && (← next atPropertyKey) then
    permit [] ms
    accessorSignature g
    return ← memberEnd
  if (← atPunct "[") && (← atIndexSignature) then
    permit ["readonly"] ms
    return ← indexSignature g
  let _ ← propertyKey g
  let _ ← eatPunct "?"
  if ← atAnyPunct ["(", "<"] then
    permit [] ms
    let _ ← signature g .function
  else
    permit ["readonly"] ms
    let _ ← annotation g
  memberEnd

/-- Members in braces. -/
def typeMembers : Parser Unit := do
  expectPunct openBrace
  within Grammar.bracketed <| loop (fun (_ : Unit) => do
    if ← atPunct closeBrace then return .done ()
    typeMember g
    return .again ()) ()
  expectPunct closeBrace

/-! ### Tuple types -/

/-- What an element contributes to the length of a tuple. -/
inductive TupleElement where
  | required
  | optional
  /-- An array of any length. -/
  | rest
  /-- The elements of another tuple. -/
  | variadic

/-- What `...T` contributes. -/
def TupleElement.spread : TypeShape → TupleElement
  | .array => .rest
  | _ => .variadic

/-- Whether the order is wrong: a required element behind an optional one, or an optional element
or array behind an array. The flags tell what stands before. -/
def TupleElement.disordered : Bool → Bool → List TupleElement → Bool
  | _, _, [] => false
  | seenOptional, seenArray, .required :: es => seenOptional || disordered seenOptional seenArray es
  | _, seenArray, .optional :: es => seenArray || disordered true seenArray es
  | seenOptional, seenArray, .rest :: es => seenArray || disordered seenOptional true es
  | seenOptional, seenArray, .variadic :: es => disordered seenOptional seenArray es

/-- One element of a tuple type, which may have a name. A named one is marked as optional or spread
at its name only. -/
def tupleElement : Parser TupleElement := do
  let spread ← eatPunct "..."
  let named ← ahead (do
    let _ ← name
    let _ ← eatPunct "?"
    atPunct ":")
  if named then
    let _ ← name
    let optional ← eatPunct "?"
    expectPunct ":"
    flawIf (spread && optional)
    let shape ← g.nestedType
    flawIf (shape == .nullable)
    if spread then return .spread shape
    return if optional then .optional else .required
  let shape ← g.nestedType
  if spread then return .spread shape
  return if shape == .nullable then .optional else .required

/-! ### Types without operators -/

/-- Words for types that have no arguments. -/
def keywordTypes : List String :=
  ["any", "bigint", "boolean", "never", "number", "object", "string", "symbol", "undefined",
   "unknown"]

/-- A word that is a type by itself. It is written without escapes. -/
def keywordType (escaped : Bool) : Parser TypeShape := do
  flawIf escaped
  bump
  return .other

/-- `asserts x is T`, from behind its first word. -/
def assertion : Parser Unit := do
  bump
  if ← eatWord "is" then
    let _ ← g.type

/-- A type that begins with a word. -/
def wordType (w : String) (escaped : Bool) : Parser TypeShape := do
  if w == "this" then
    let shape ← keywordType escaped
    if !(← onNewLine) && (← eatWord "is") then
      let _ ← g.type
    return shape
  if ["void", "null", "true", "false"].contains w then return ← keywordType escaped
  if keywordTypes.contains w && !(← next (atPunct ".")) then return ← keywordType escaped
  if w == "asserts" && (← nextOnLine atNameOrThis) then
    let shape ← keywordType escaped
    assertion g
    return shape
  if w == "typeof" then typeQuery g
  else if w == "import" then importType g
  else reference g
  return .other

/-- A type without operators and marks. -/
def unmarked : Parser TypeShape := do
  match ← kind with
  | .string .. => bump; return .text
  | .number _ | .bigint => bump; return .other
  | .template .. =>
    templatePieces false (do let _ ← g.nestedType)
    return .other
  | .word w escaped => wordType g w escaped
  | .punct "-" =>
    bump
    unless ← atNumber do fail
    bump
    return .other
  | .punct "[" =>
    bump
    let (elements, _) ← commaList "]" (tupleElement g)
    flawIf (TupleElement.disordered false false elements)
    expectPunct "]"
    return .tuple
  | .punct "(" =>
    bump
    let _ ← g.nestedType
    expectPunct ")"
    return .other
  | .punct "?" =>
    bump
    unless ← atAnyPunct [",", closeBrace, ")", ">", "=", "|"] do
      let _ ← g.type
    return .other
  | .punct _ =>
    if ← atPunct openBrace then
      if ← atMappedType then mappedType g else typeMembers g
      return .other
    else fail
  | _ => fail

/-- A type without operators. It may be marked by `!`. -/
def primary : Parser TypeShape := do
  let marked ← loop (fun (any : Bool) => do
    if ← eatPunct "!" then return .again true else return .done any) false
  let shape ← unmarked g
  return if marked then .other else shape

/-! ### Operators -/

/-- Whether a token may begin a type. -/
def beginsType : TokenKind → Bool
  | .string .. | .number _ | .bigint | .template .. => true
  | .word w _ =>
    !isReserved w || ["void", "null", "this", "typeof", "true", "false", "new", "function",
      "import"].contains w
  | .punct p => [openBrace, "[", "(", "<", "|", "&", "*", "?", "!", "..."].contains p
  | _ => false

/-- Whether a type begins here. A parenthesis is taken for one by what follows it. -/
def atType : Parser Bool := do
  if ← atPunct "-" then return ← next atNumber
  if ← atPunct "(" then
    return ← next (do
      if ← atPunct ")" then return true
      return beginsType (← kind))
  return beginsType (← kind)

/-- What may follow a type on its line: brackets, a `!`, or a `?` that no type follows. -/
def withPostfixes : Parser TypeShape := do
  let shape ← primary g
  loop (fun (shape : TypeShape) => do
    if ← onNewLine then return .done shape
    if ← eatPunct "[" then
      let indexed ← atType
      if indexed then
        let _ ← g.nestedType
      expectPunct "]"
      return .again (if indexed then .other else .array)
    if ← eatPunct "!" then return .again .other
    if (← atPunct "?") && !(← next atType) then
      bump
      return .again .nullable
    return .done shape) shape

/-- The constraint of an inferred type; it is not one when it is the condition of another type. -/
def inferConstraint : Parser Unit := do
  let conditional := (← context).conditionalTypes
  let _ ← attempt do
    expectWord "extends"
    let _ ← within (fun c => { c with conditionalTypes := false }) g.type
    if conditional && (← atPunct "?") then fail

/-- A type with the type operators in front of it. Only arrays and tuples are `readonly`. -/
def operand : Parser TypeShape := do
  if ← atAnyWord ["keyof", "unique", "readonly"] then
    let readonly ← atWord "readonly"
    bump
    let shape ← g.typeOperand
    flawIf (readonly && shape != .array && shape != .tuple)
    return .other
  if ← eatWord "infer" then
    let _ ← identifier
    inferConstraint g
    return .other
  within (fun c => { c with conditionalTypes := true }) (withPostfixes g)

/-- Types joined by an operator, which may also stand in front. -/
def joined (operator : String) (part : Parser TypeShape) : Parser TypeShape := do
  let leading ← eatPunct operator
  let shape ← part
  loop (fun (shape : TypeShape) => do
    if ← eatPunct operator then
      let _ ← part
      return .again .other
    else return .done shape) (if leading then .other else shape)

/-- A type. -/
def type : Parser TypeShape := do
  if ← atFunctionType g then
    functionType g
    return .other
  let shape ← joined "|" (joined "&" (operand g))
  if (← context).conditionalTypes && !(← onNewLine) && (← eatWord "extends") then
    let branch := within (fun c => { c with conditionalTypes := true }) g.type
    let _ ← within (fun c => { c with conditionalTypes := false }) g.type
    expectPunct "?"
    let _ ← branch
    expectPunct ":"
    let _ ← branch
    return .other
  return shape

end ComponentInsight.Script.Types
