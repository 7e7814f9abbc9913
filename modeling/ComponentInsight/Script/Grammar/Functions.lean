import ComponentInsight.Script.Grammar.Types

/-!
# Functions

Signatures and bodies of functions, methods and arrow functions.
-/

namespace ComponentInsight.Script.Functions

open Script.Parser Script.Patterns Script.Types

variable (g : Grammar)

/-- The context of a function's parameters and body. -/
def functionContext (async generator : Bool) (c : Context) : Context :=
  { c with yields := generator, awaits := async }

/-- Statements up to a closing brace, which is not read. -/
def statements : Parser Unit :=
  loop (fun (_ : Unit) => do
    if ← atPunct closeBrace then return .done ()
    let _ ← g.statement .list
    return .again ()) ()

/-- Statements in braces. -/
def block : Parser Unit := do
  expectPunct openBrace
  within Grammar.bracketed (statements g)
  expectPunct closeBrace

/-- The body of a function. -/
def functionBody (async generator : Bool) : Parser Unit :=
  within (fun c => { functionContext async generator c with returns := true }) (block g)

/-- How a function is written. -/
structure Callable where
  signature : Signature
  hasBody : Bool

/-- Signature and body of a function, from its type parameters or parenthesis on. The body may be
missing where `bodiless` permits it. -/
def functionRest (owner : Owner) (async generator bodiless : Bool) : Parser Callable := do
  let s ← within (functionContext async generator) (signature g owner)
  if ← atPunct openBrace then
    functionBody g async generator
    return ⟨s, true⟩
  else if bodiless then
    semicolon
    return ⟨s, false⟩
  else fail

/-- At the place of a function's name when there is none. -/
def atNameless : Parser Bool := atAnyPunct ["(", "<"]

/-- A function as an expression, from the word `function` on. Its name belongs to its inside. -/
def functionExpression (async : Bool) : Parser Unit := do
  expectWord "function"
  let generator ← eatPunct "*"
  unless ← atNameless do
    let _ ← within (functionContext async generator) identifier
  let _ ← functionRest g .function async generator false

/-- A declared function. -/
structure DeclaredFunction where
  name : Option String
  generator : Bool
  hasBody : Bool

/-- A function as a declaration, from the word `function` on. In a typed dialect its body may be
missing. -/
def functionDeclaration (async : Bool) : Parser DeclaredFunction := do
  expectWord "function"
  let generator ← eatPunct "*"
  let name ← if ← atNameless then pure none else pure (some (← identifier))
  let f ← functionRest g .function async generator (← isTyped)
  return ⟨name, generator, f.hasBody⟩

/-- At `async function` on one line. -/
def atAsyncFunction : Parser Bool := do
  if ← atWord "async" then nextOnLine (atWord "function") else return false

end ComponentInsight.Script.Functions
