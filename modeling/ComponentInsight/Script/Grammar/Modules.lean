import ComponentInsight.Script.Grammar.Declarations

/-!
# Imports and exports
-/

namespace ComponentInsight.Script.Modules

open Script.Parser Script.Modifiers Script.Types Script.Functions Script.Classes Script.Declarations

variable (g : Grammar)

/-! ### Names and specifiers -/

/-- A name in an import or export list. -/
structure ListedName where
  text : String
  /-- It is written as a string. -/
  quoted : Bool

/-- Whether a name is a word that no variable of a module is called. -/
def ListedName.isReserved (n : ListedName) : Bool :=
  Script.isReserved n.text || n.text == "await" || n.text == "yield"

/-- Words that no variable of a module is called although they begin no construct. -/
def strictWords : List String :=
  ["implements", "interface", "let", "package", "private", "protected", "public", "static"]

/-- Whether a listed name begins here. -/
def atListedName : Parser Bool := do
  if ← atName then return true
  atString

/-- A word or string in an import or export list. A string holds no half of a surrogate pair. -/
def listedName : Parser ListedName := do
  match ← kind with
  | .word v _ => bump; return ⟨v, false⟩
  | .string v wellFormed =>
    flawIf !wellFormed
    bump
    return ⟨v, true⟩
  | _ => fail

/-- An entry of an import or export list: the name on the other side, the name on this side, and
whether it is only a type. -/
structure Specifier where
  first : ListedName
  second : ListedName
  typeOnly : Bool

/-- `a` or `a as b`. -/
def plainSpecifier (typeOnly : Bool) : Parser Specifier := do
  let first ← listedName
  if ← eatWord "as" then return ⟨first, ← listedName, typeOnly⟩
  return ⟨first, first, typeOnly⟩

/-- An entry that begins with `type`, from behind that word, which may itself be the name. -/
def typeSpecifier (word : ListedName) : Parser Specifier := do
  if ← atWord "as" then
    let firstAs ← listedName
    if ← atWord "as" then
      let secondAs ← listedName
      if ← atListedName then return ⟨firstAs, ← listedName, true⟩
      return ⟨word, secondAs, false⟩
    if ← atListedName then return ⟨word, ← listedName, false⟩
    return ⟨firstAs, firstAs, true⟩
  if ← atListedName then plainSpecifier true
  else return ⟨word, word, false⟩

/-- An entry of an import or export list. When the whole list holds only types, no entry says so
again. -/
def specifier (typesOnly : Bool) : Parser Specifier := do
  let s ← if (← isTyped) && (← atWord "type") then typeSpecifier (← listedName)
    else plainSpecifier false
  flawIf (typesOnly && s.typeOnly)
  return s

/-- Attributes behind a module name. -/
def attributes : Parser Unit := do
  let begins ← do
    if ← atWord "with" then pure true
    else if ← onNewLine then pure false
    else atWord "assert"
  if begins then
    bump
    importAttributes

/-- The module name behind `from`, to the end of the statement. -/
def source : Parser String := do
  let s ← stringLiteral
  attributes
  semicolon
  return s

/-! ### Imports -/

/-- A binding before its module is known. -/
structure Local where
  name : String
  kind : ImportKind
  typeOnly : Bool

/-- An entry of an import list. -/
def importSpecifier (typesOnly : Bool) : Parser Local := do
  let s ← specifier typesOnly
  if s.second.quoted || s.second.isReserved then fail
  return ⟨s.second.text, .named, s.typeOnly⟩

/-- `* as name` or a list in braces. -/
def importList (typesOnly : Bool) : Parser (List Local) := do
  if ← eatPunct "*" then
    expectWord "as"
    return [⟨← identifier, .star, false⟩]
  expectPunct openBrace
  let (names, _) ← commaList closeBrace (importSpecifier typesOnly)
  expectPunct closeBrace
  return names

/-- What a word behind `import` announces. -/
inductive Phase where
  | value
  /-- Only types are imported. -/
  | types
  /-- The module's source, under one name. -/
  | source
  /-- A module that is run later, under one name. -/
  | deferred
  deriving DecidableEq

/-- Whether the `type` before this token marks the whole import. -/
def marksTypes : Parser Bool := do
  if ← atAnyPunct [openBrace, "*"] then return true
  unless ← atIdentifier do return false
  if ← atWord "from" then
    next (do
      if ← atWord "from" then return true
      atPunct "=")
  else return true

/-- Whether the `source` before this token is followed by a name for the source. -/
def marksSource : Parser Bool := do
  unless ← atIdentifier do return false
  if ← atWord "from" then next (atWord "from") else return true

/-- The phase that a first name announces, if more follows. -/
def phaseOf (first : String) : Parser Phase := do
  if first == "type" && (← isTyped) && (← marksTypes) then return .types
  if first == "source" && (← marksSource) then return .source
  if first == "defer" && (← atPunct "*") then return .deferred
  return .value

/-- The words up to the default binding: the phase and that binding. -/
def importLead : Parser (Phase × Option String) := do
  unless ← atIdentifier do return (.value, none)
  let first ← identifier
  match ← phaseOf first with
  | .value => return (.value, some first)
  | phase =>
    let named ← if ← atIdentifier then pure (some (← identifier)) else pure none
    return (phase, named)

/-- The bindings behind the default binding. A source has no others, and types are imported either
one by default or in a list. -/
def moreBindings (phase : Phase) (default? : Option String) : Parser (List Local) := do
  if phase == .source then return []
  if default?.isNone then return ← importList (phase == .types)
  if ← eatPunct "," then
    flawIf (phase == .types)
    importList (phase == .types)
  else return []

/-- An import declaration. -/
def importDeclaration : Parser Statement := do
  expectWord "import"
  if ← atString then
    let _ ← source
    return .imports []
  let (phase, default?) ← importLead
  if default?.isSome && (← isTyped) && (← eatPunct "=") then
    aliasTarget
    return .other
  let more ← moreBindings phase default?
  expectWord "from"
  let s ← source
  let first := default?.toList.map fun n => Local.mk n .default false
  return .imports
    ((first ++ more).map fun l => ⟨l.name, s, l.kind, phase == .types || l.typeOnly⟩)

/-! ### Exports -/

/-- Record exported names. -/
def record (names : List String) : Parser Unit :=
  modifyState fun s => { s with exports := names.reverse ++ s.exports }

/-- The names that an export declares, with its statement. -/
structure Exported where
  statement : Statement
  names : List String

/-- `export *`, from the star on. -/
def exportAll : Parser Exported := do
  expectPunct "*"
  let names ← if ← eatWord "as" then pure [(← listedName).text] else pure []
  expectWord "from"
  let _ ← source
  return ⟨.other, names⟩

/-- Whether a literal of any kind begins here. -/
def atLiteral : Parser Bool := do
  if ← atString then return true
  if ← atNumber then return true
  atAnyWord ["null", "true", "false"]

/-- `export { … }`, from the brace on. Without a module, the names are local variables. -/
def exportList (typesOnly : Bool) : Parser Exported := do
  expectPunct openBrace
  let (entries, _) ← commaList closeBrace (specifier typesOnly)
  expectPunct closeBrace
  if (← eatWord "from") && (← atLiteral) then
    let _ ← source
  else
    flawIf (entries.any fun s =>
      s.first.quoted || s.first.isReserved || strictWords.contains s.first.text)
    semicolon
  return ⟨.other, entries.map fun s => s.second.text⟩

/-- Whether a default export is an interface. -/
def atInterface : Parser Bool := do
  if (← isTyped) && (← atWord "interface") then nextOnLine atIdentifier else return false

/-- Whether a default export is an abstract class. -/
def atAbstractClass : Parser Bool := do
  if (← isTyped) && (← atWord "abstract") then nextOnLine (atWord "class") else return false

/-- `export default`, from the word `default` on. Only a class has decorators, on one side of the
words. -/
def exportDefault (decorated : Bool) : Parser Exported := do
  expectWord "default"
  let inner ← decorators g
  flawIf (decorated && inner)
  if ← atAbstractClass then bump
  if ← atWord "class" then
    let _ ← classRest g
    return ⟨.exportDefault none, ["default"]⟩
  flawIf (decorated || inner)
  if ← atInterface then
    let _ ← interface g
    return ⟨.exportDefault none, ["default"]⟩
  let async ← atAsyncFunction
  if async then bump
  if ← atWord "function" then
    let _ ← functionDeclaration g async
    return ⟨.exportDefault none, ["default"]⟩
  let e ← g.value
  semicolon
  return ⟨.exportDefault (some e), ["default"]⟩

/-- An exported declaration. Only a class has decorators, on one side of the word `export`. -/
def exportedDeclaration (decorated : Bool) : Parser Exported := do
  let inner ← decorators g
  flawIf (decorated && inner)
  let isClass ← ahead (do
    if ← isTyped then
      let _ ← modifiers ofMembers
    atWord "class")
  flawIf ((decorated || inner) && !isClass)
  return ⟨.other, (← modifiedDeclaration g).names⟩

/-- `export = x`, `export as namespace x` or a list of types, if one of them begins here. -/
def typedExport? : Parser (Option Exported) := do
  if ← eatPunct "=" then
    let _ ← g.expression
    semicolon
    return some ⟨.other, []⟩
  if (← atWord "as") && (← next (atWord "namespace")) then
    bump
    bump
    let _ ← name
    semicolon
    return some ⟨.other, []⟩
  if (← atWord "type") && (← next (atAnyPunct [openBrace, "*"])) then
    bump
    return some (← if ← atPunct "*" then exportAll else exportList true)
  return none

/-- An export from its word on, which may stand behind decorators. -/
def exported (decorated : Bool) : Parser Exported := do
  expectWord "export"
  if ← atWord "default" then return ← exportDefault g decorated
  if ← atPunct "*" then
    flawIf decorated
    return ← exportAll
  if ← atPunct openBrace then
    flawIf decorated
    return ← exportList false
  if ← isTyped then
    if let some e ← typedExport? g then
      flawIf decorated
      return e
  exportedDeclaration g decorated

/-- An export declaration. Its names are recorded at the top level. -/
def exportDeclaration (place : Place) (decorated : Bool) : Parser Statement := do
  let e ← exported g decorated
  if place == .top then record e.names
  return e.statement

end ComponentInsight.Script.Modules
